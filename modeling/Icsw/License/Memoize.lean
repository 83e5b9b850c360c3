import Icsw.Foundation.Expiring
import Icsw.Foundation.Python

/-!
# Memoised functions with a cache of their own

A function may be given a cache that is cleared when its values are out of date.  An empty cache
counts as none, though, so the values go to the cache that all functions share, and clearing does
not reach them there.
-/

namespace Icsw.License

open Foundation
open Foundation.ExpiringCache

variable {K V : Type} [DecidableEq K]

/-- The cache that was given to the function, and its part of the shared one. -/
structure MemoCaches (K V : Type) where
  explicit : Dict K (V × Int)
  shared : Dict K (V × Int)

/-- `_cache or _memoize_cache[func]` -/
def MemoCaches.used (caches : MemoCaches K V) : Dict K (V × Int) :=
  if caches.explicit.entries.isEmpty then caches.shared else caches.explicit

def memoizeWithExpiry (expiryTime : Int) (caches : MemoCaches K V) (key : K) (curTime : Int)
    (outcome : Option V) : CacheAnswer V × MemoCaches K V :=
  (answer expiryTime caches.used key curTime outcome,
    if caches.explicit.entries.isEmpty then
      { caches with shared := record expiryTime caches.shared key curTime outcome }
    else { caches with explicit := record expiryTime caches.explicit key curTime outcome })

/-- The caches, and what has been evaluated since the function's own cache was cleared. -/
structure Memoized (K V : Type) where
  caches : MemoCaches K V
  since : Dict K (V × Int)

def memoStep (expiryTime : Int) (state : Memoized K V) (event : CacheEvent K V) :
    Memoized K V where
  caches :=
    match event with
    | .call key now outcome => (memoizeWithExpiry expiryTime state.caches key now outcome).2
    | .clear => { state.caches with explicit := ∅ }
  since := step expiryTime state.since event

/-- A function that has just been decorated. -/
def decorated (cache : Dict K (V × Int)) : Memoized K V where
  caches := { explicit := cache, shared := ∅ }
  since := cache

/-- A call returns what has been evaluated since the cache was cleared, or evaluates anew. -/
def ClearsApply (expiryTime : Int) (state : Memoized K V) : CacheEvent K V -> Prop
  | .call key now outcome =>
    (memoizeWithExpiry expiryTime state.caches key now outcome).1 =
      answer expiryTime state.since key now outcome
  | .clear => True

/-- No value for the arguments has outlived the clearing in the shared cache. -/
def NoneOutlived (expiryTime : Int) (state : Memoized K V) : CacheEvent K V -> Prop
  | .call key now _ =>
    state.caches.explicit.entries.isEmpty = true ->
      current expiryTime state.caches.shared key now ≠ none -> key ∈ state.since
  | .clear => True

/-- What has been evaluated is in the cache that is used. -/
structure Kept (state : Memoized K V) : Prop where
  explicit : state.caches.explicit.entries.isEmpty = false ->
    forall key, state.since.lookup key = state.caches.explicit.lookup key
  shared : state.caches.explicit.entries.isEmpty = true ->
    forall key stamped, state.since.lookup key = some stamped ->
      state.caches.shared.lookup key = some stamped

theorem kept_decorated (cache : Dict K (V × Int)) : Kept (decorated cache) where
  explicit _ _ := rfl
  shared hempty key stamped hstamped := by
    have hentries : cache.entries = [] := List.isEmpty_iff.mp hempty
    have hlookup : cache.entries.dlookup key = some stamped := hstamped
    rw [hentries] at hlookup
    cases hlookup

section Step

variable {expiryTime : Int} {state : Memoized K V}

theorem current_since_of_explicit (h : Kept state)
    (hempty : state.caches.explicit.entries.isEmpty = false) (key : K) (now : Int) :
    current expiryTime state.since key now = current expiryTime state.caches.explicit key now :=
  current_congr (h.explicit hempty key)

theorem current_since_of_shared (h : Kept state)
    (hempty : state.caches.explicit.entries.isEmpty = true) {key : K} (hkey : key ∈ state.since)
    (now : Int) :
    current expiryTime state.since key now = current expiryTime state.caches.shared key now := by
  rcases Dict.exists_lookup hkey with ⟨stamped, hstamped⟩
  exact current_congr (hstamped.trans (h.shared hempty key stamped hstamped).symm)

theorem current_since_of_not_mem {key : K} (hkey : key ∉ state.since) (now : Int) :
    current expiryTime state.since key now = none := by
  rw [current, AList.lookup_eq_none.mpr hkey]
  rfl

theorem clearsApply_iff_noneOutlived (h : Kept state) (event : CacheEvent K V) :
    ClearsApply expiryTime state event <-> NoneOutlived expiryTime state event := by
  cases event with
  | clear => exact Iff.rfl
  | call key now outcome =>
    show answer expiryTime state.caches.used key now outcome =
      answer expiryTime state.since key now outcome <-> _
    unfold MemoCaches.used NoneOutlived answer
    cases hempty : state.caches.explicit.entries.isEmpty with
    | false =>
      refine iff_of_true ?_ fun hshared => absurd hshared Bool.false_ne_true
      rw [if_neg Bool.false_ne_true, current_since_of_explicit h hempty]
    | true =>
      rw [if_pos rfl]
      by_cases hkey : key ∈ state.since
      · refine iff_of_true ?_ fun _ _ => hkey
        rw [current_since_of_shared h hempty hkey]
      · -- the abstract cache evaluates, so the shared one must not have a value either
        rw [current_since_of_not_mem hkey]
        cases hcurrent : current expiryTime state.caches.shared key now with
        | none => exact iff_of_true rfl fun _ hne => absurd hcurrent hne
        | some value =>
          have houtlived : current expiryTime state.caches.shared key now ≠ none := by
            rw [hcurrent]
            exact Option.some_ne_none value
          refine iff_of_false (fun heq => ?_) fun hnone => hkey (hnone rfl houtlived)
          exact Bool.false_ne_true (congrArg CacheAnswer.evaluated heq)

theorem isEmpty_record {cache : Dict K (V × Int)} (h : cache.entries.isEmpty = false) (key : K)
    (now : Int) (outcome : Option V) :
    (record expiryTime cache key now outcome).entries.isEmpty = false := by
  unfold record
  split
  · next value _ =>
      have hmem : key ∈ cache.insert key (value, now) := (AList.mem_insert _).mpr (Or.inl rfl)
      rw [← AList.lookup_isSome] at hmem
      cases hentries : (cache.insert key (value, now)).entries with
      | nil =>
        rw [AList.lookup, hentries] at hmem
        cases hmem
      | cons _ _ => rfl
  · exact h

theorem Kept.step (h : Kept state) (event : CacheEvent K V)
    (happly : ClearsApply expiryTime state event) : Kept (memoStep expiryTime state event) := by
  have hnone := (clearsApply_iff_noneOutlived h event).mp happly
  cases event with
  | clear =>
    refine ⟨fun hempty => absurd hempty (Bool.false_ne_true ∘ Eq.symm), ?_⟩
    intro _ key stamped hstamped
    have hlookup : (∅ : Dict K (V × Int)).lookup key = some stamped := hstamped
    rw [AList.lookup_empty] at hlookup
    cases hlookup
  | call key now outcome =>
    cases hempty : state.caches.explicit.entries.isEmpty with
    | false =>
      have hcaches : (memoStep expiryTime state (.call key now outcome)).caches =
          { state.caches with
            explicit := record expiryTime state.caches.explicit key now outcome } :=
        if_neg (ne_true_of_eq_false hempty)
      have hfull : (memoStep expiryTime state (.call key now outcome)).caches.explicit.entries.isEmpty
          = false := by
        rw [hcaches]
        exact isEmpty_record hempty key now outcome
      refine ⟨fun _ other => ?_, fun hsame => absurd (hfull.symm.trans hsame)
        Bool.false_ne_true⟩
      rw [hcaches]
      show (record expiryTime state.since key now outcome).lookup other =
        (record expiryTime state.caches.explicit key now outcome).lookup other
      rw [lookup_record, lookup_record, current_since_of_explicit h hempty,
        h.explicit hempty other]
    | true =>
      have hcaches : (memoStep expiryTime state (.call key now outcome)).caches =
          { state.caches with
            shared := record expiryTime state.caches.shared key now outcome } :=
        if_pos hempty
      refine ⟨fun hfull => ?_, fun _ other stamped hstamped => ?_⟩
      · rw [hcaches] at hfull
        exact absurd (hempty.symm.trans hfull) (Bool.false_ne_true ∘ Eq.symm)
      · have hcurrent : current expiryTime state.since key now =
            current expiryTime state.caches.shared key now := by
          by_cases hkey : key ∈ state.since
          · exact current_since_of_shared h hempty hkey now
          · have hshared : current expiryTime state.caches.shared key now = none :=
              Classical.byContradiction fun hne => hkey (hnone hempty hne)
            rw [current_since_of_not_mem hkey, hshared]
        rw [hcaches]
        have hsince : (record expiryTime state.since key now outcome).lookup other =
            some stamped := hstamped
        show (record expiryTime state.caches.shared key now outcome).lookup other = some stamped
        rw [lookup_record, hcurrent] at hsince
        rw [lookup_record]
        split
        · next hfresh => rwa [if_pos hfresh] at hsince
        · next hold =>
            rw [if_neg hold] at hsince
            exact h.shared hempty other stamped hsince

end Step

theorem clearsApply_along_iff (expiryTime : Int) {state : Memoized K V} (h : Kept state)
    (events : List (CacheEvent K V)) :
    Along (memoStep expiryTime) (ClearsApply expiryTime) state events <->
      Along (memoStep expiryTime) (NoneOutlived expiryTime) state events := by
  have hiff : forall (state : Memoized K V) event, Kept state ->
      (ClearsApply expiryTime state event <-> NoneOutlived expiryTime state event) :=
    fun _ event hkept => clearsApply_iff_noneOutlived hkept event
  have hstep : forall (state : Memoized K V) event, Kept state ->
      ClearsApply expiryTime state event -> Kept (memoStep expiryTime state event) :=
    fun _ event hkept happly => hkept.step event happly
  exact along_iff_of_invariant (memoStep expiryTime) hiff hstep h events

/-- The stored licence files, and the memoised readers of them. -/
structure LicenseStore (R V : Type) where
  memo : Memoized Unit V
  rows : R

inductive LicenseEvent (R : Type) where
  /-- A licence is saved or deleted, which leaves these rows. -/
  | save (rows : R)
  | readers (now : Int)

section Readers

variable {R : Type} (expiryTime : Int) (read : R -> V)

def LicenseEvent.toCacheEvent (rows : R) : LicenseEvent R -> CacheEvent Unit V
  | .save _ => .clear
  | .readers now => .call () now (some (read rows))

variable (store : LicenseStore R V)

def storeStep (event : LicenseEvent R) : LicenseStore R V where
  memo := memoStep expiryTime store.memo (event.toCacheEvent read store.rows)
  rows :=
    match event with
    | .save rows => rows
    | .readers _ => store.rows

def ReadsRows : LicenseEvent R -> Prop
  | .save _ => True
  | .readers now =>
    (memoizeWithExpiry expiryTime store.memo.caches () now (some (read store.rows))).1.value =
      some (read store.rows)

def StoreNoneOutlived (event : LicenseEvent R) : Prop :=
  NoneOutlived expiryTime store.memo (event.toCacheEvent read store.rows)

/-- What has been evaluated since the last change has been read from the rows. -/
structure StoreKept : Prop where
  kept : Kept store.memo
  rows : forall value time, store.memo.since.lookup () = some (value, time) ->
    value = read store.rows

variable {expiryTime read} {store : LicenseStore R V}

section

variable (h : StoreKept read store)
include h

theorem current_since_rows {now : Int} {value : V}
    (hcurrent : current expiryTime store.memo.since () now = some value) :
    value = read store.rows := by
  rcases lookup_of_current hcurrent with ⟨time, htime⟩
  exact h.rows value time htime

theorem readsRows_of_noneOutlived (event : LicenseEvent R)
    (hnone : StoreNoneOutlived expiryTime read store event) :
    ReadsRows expiryTime read store event := by
  have happly := (clearsApply_iff_noneOutlived h.kept _).mpr hnone
  cases event with
  | save rows => trivial
  | readers now =>
    have hanswer : (memoizeWithExpiry expiryTime store.memo.caches () now
        (some (read store.rows))).1 =
          answer expiryTime store.memo.since () now (some (read store.rows)) := happly
    rw [ReadsRows, hanswer, answer]
    cases hcurrent : current expiryTime store.memo.since () now with
    | none => rfl
    | some value => exact congrArg some (current_since_rows h hcurrent)

theorem StoreKept.step (event : LicenseEvent R)
    (hnone : StoreNoneOutlived expiryTime read store event) :
    StoreKept read (storeStep expiryTime read store event) := by
  refine ⟨h.kept.step _ ((clearsApply_iff_noneOutlived h.kept _).mpr hnone), ?_⟩
  intro value time hvalue
  cases event with
  | save rows =>
    have hlookup : (∅ : Dict Unit (V × Int)).lookup () = some (value, time) := hvalue
    rw [AList.lookup_empty] at hlookup
    cases hlookup
  | readers now =>
    have hlookup : (record expiryTime store.memo.since () now (some (read store.rows))).lookup
        () = some (value, time) := hvalue
    rw [lookup_record] at hlookup
    split at hlookup
    · exact (congrArg Prod.fst (Option.some.inj hlookup)).symm
    · exact h.rows value time hlookup

theorem readsRows_along {events : List (LicenseEvent R)}
    (hnone : Along (storeStep expiryTime read) (StoreNoneOutlived expiryTime read) store events) :
    Along (storeStep expiryTime read) (ReadsRows expiryTime read) store events := by
  induction events generalizing store with
  | nil => trivial
  | cons event rest ih =>
    exact ⟨readsRows_of_noneOutlived h event hnone.left,
      ih (h.step event hnone.left) hnone.right⟩

end

end Readers

/-- The licences as they are when the server starts. -/
def startStore {R : Type} (rows : R) : LicenseStore R V where
  memo := decorated ∅
  rows := rows

theorem storeKept_startStore {R : Type} (read : R -> V) (rows : R) :
    StoreKept read (startStore rows) := by
  refine ⟨kept_decorated ∅, fun value time hvalue => ?_⟩
  have hlookup : (∅ : Dict Unit (V × Int)).lookup () = some (value, time) := hvalue
  rw [AList.lookup_empty] at hlookup
  cases hlookup

/-- Clearing applies as long as nothing outlives it, and then licences are read as they are. -/
theorem memoize_clears {R : Type} (expiryTime : Int) (cache : Dict K (V × Int)) (read : R -> V)
    (rows : R) :
    (forall events, Along (memoStep expiryTime) (ClearsApply expiryTime) (decorated cache) events <->
        Along (memoStep expiryTime) (NoneOutlived expiryTime) (decorated cache) events) ∧
      forall events,
        Along (storeStep expiryTime read) (StoreNoneOutlived expiryTime read) (startStore rows)
            events ->
          Along (storeStep expiryTime read) (ReadsRows expiryTime read) (startStore rows) events :=
  ⟨clearsApply_along_iff expiryTime (kept_decorated cache),
    fun _ hnone => readsRows_along (storeKept_startStore read rows) hnone⟩

/-- A licence that is saved more than ten seconds after the readers were asked for. -/
theorem memoize_clears_later :
    Along (storeStep 10 (id : Text -> Text)) (ReadsRows 10 id) (startStore [])
      [.readers 0, .save ['k'], .readers 10] := by
  refine (memoize_clears 10 (∅ : Dict Unit (Text × Int)) (id : Text -> Text) []).right _
    ⟨fun _ hcurrent => absurd rfl hcurrent, trivial, fun _ hcurrent => absurd ?_ hcurrent, trivial⟩
  rfl

/-- The licence that has been saved is not among the readers that are returned. -/
theorem savedLicense_not_read :
    ¬ Along (storeStep 10 (id : Text -> Text)) (ReadsRows 10 id) (startStore [])
        [.readers 0, .save ['k'], .readers 1] ∧
      ¬ Along (memoStep 10) (ClearsApply 10) (decorated (∅ : Dict Unit (Text × Int)))
        [.call () 0 (some []), .clear, .call () 1 (some ['k'])] := by
  constructor
  · intro h
    have hvalue : some ([] : Text) = some ['k'] := h.right.right.left
    cases hvalue
  · intro h
    have hanswer : (⟨false, some []⟩ : CacheAnswer Text) = ⟨true, some ['k']⟩ := h.right.right.left
    cases hanswer

end Icsw.License
