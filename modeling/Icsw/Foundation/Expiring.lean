import Icsw.Foundation.Dict
import Icsw.Foundation.Run
import Mathlib.Order.Lattice

/-!
# What expires

Caches whose entries expire, and locks that expire.
-/

namespace Icsw.Foundation

open List

inductive CacheEvent (K V : Type) where
  /-- The outcome is what an evaluation gives at this moment, without one if it raises. -/
  | call (key : K) (now : Int) (outcome : Option V)
  | clear

/-- What a call returns, and whether it has evaluated for that. -/
structure CacheAnswer (V : Type) where
  evaluated : Bool
  value : Option V
deriving DecidableEq

namespace ExpiringCache

variable {K V : Type}

/-- Without an expiry entries stay young. -/
def young (expiry now : Int) (stamped : V × Int) : Bool :=
  decide (expiry = 0 ∨ now - stamped.2 < expiry)

variable [DecidableEq K]

def current (expiry : Int) (cache : Dict K (V × Int)) (key : K) (now : Int) : Option V :=
  ((cache.lookup key).filter (young expiry now)).map Prod.fst

def answer (expiry : Int) (cache : Dict K (V × Int)) (key : K) (now : Int) (outcome : Option V) :
    CacheAnswer V :=
  match current expiry cache key now with
  | some value => { evaluated := false, value := some value }
  | none => { evaluated := true, value := outcome }

def record (expiry : Int) (cache : Dict K (V × Int)) (key : K) (now : Int) (outcome : Option V) :
    Dict K (V × Int) :=
  match current expiry cache key now, outcome with
  | none, some value => cache.insert key (value, now)
  | _, _ => cache

def step (expiry : Int) (cache : Dict K (V × Int)) : CacheEvent K V -> Dict K (V × Int)
  | .call key now outcome => record expiry cache key now outcome
  | .clear => ∅

variable {expiry : Int} {cache other : Dict K (V × Int)} {key : K} {now : Int}

theorem lookup_of_current {value : V} (h : current expiry cache key now = some value) :
    exists time, cache.lookup key = some (value, time) := by
  rcases Option.map_eq_some_iff.mp h with ⟨⟨held, time⟩, hfilter, rfl⟩
  exact ⟨time, (Option.filter_eq_some_iff.mp hfilter).left⟩

theorem current_congr (h : cache.lookup key = other.lookup key) :
    current expiry cache key now = current expiry other key now := by
  rw [current, current, h]

theorem lookup_record (outcome : Option V) (key' : K) :
    (record expiry cache key now outcome).lookup key' =
      if key = key' ∧ current expiry cache key now = none ∧ outcome.isSome then
        outcome.map fun value => (value, now)
      else cache.lookup key' := by
  unfold record
  cases hcurrent : current expiry cache key now with
  | some value => exact (if_neg (fun h => Option.some_ne_none _ h.right.left)).symm
  | none =>
    cases outcome with
    | none => exact (if_neg (fun h => Bool.false_ne_true h.right.right)).symm
    | some value =>
      show (cache.insert key (value, now)).lookup key' = _
      rw [Dict.lookup_insert_if]
      by_cases hkey : key = key'
      · rw [if_pos hkey, if_pos ⟨hkey, rfl, rfl⟩]
        rfl
      · rw [if_neg hkey, if_neg fun h => hkey h.left]

end ExpiringCache

/-!
## Locks that expire

A lock is held under a key from the time at which it was taken, and a request finds it expired
when a timeout has passed.  Whoever finishes releases the lock of his key, whoever has taken it
since.  The history of what was generated under the locks is kept apart from the locks themselves.
-/

namespace ExpiringLock

inductive Mark (κ : Type) where
  | generated (key : κ) (id : Nat) (time : Int)
  | finished (id : Nat)
deriving DecidableEq

variable {κ : Type} (timeout : Int)

/--
What is generated under the key of something earlier comes after its timeout, or after it has
finished.
-/
def LockKept (history : List (Mark κ)) : Prop :=
  forall earlier key id' time' later,
    history = earlier ++ .generated key id' time' :: later ->
      forall before id time between, earlier = before ++ .generated key id time :: between ->
        time' < time + timeout -> .finished id ∈ between

/-- Nothing later has been generated under the key that has not finished. -/
def InTurn (history : List (Mark κ)) (id : Nat) : Prop :=
  forall before key time after, history = before ++ .generated key id time :: after ->
    forall id' time', .generated key id' time' ∈ after -> .finished id' ∈ history

/-- The locks protect what has not finished, until its timeout. -/
structure Guarded (clock : Int) (held : κ -> Option Int) (history : List (Mark κ)) : Prop where
  kept : LockKept timeout history
  bounded : forall key id time, .generated key id time ∈ history -> time ≤ clock
  unique : forall key id time key' time', .generated key id time ∈ history ->
    .generated key' id time' ∈ history -> key = key'
  fresh : forall before key id time after, history = before ++ .generated key id time :: after ->
    .finished id ∉ before
  answered : forall id, .finished id ∈ history -> exists key time, .generated key id time ∈ history
  locked : forall key id time, .generated key id time ∈ history ->
    .finished id ∈ history ∨ (exists since, held key = some since ∧ time ≤ since) ∨
      time + timeout ≤ clock

variable {timeout}

theorem guarded_nil (clock : Int) (held : κ -> Option Int) : Guarded timeout clock held [] where
  kept := by
    intro earlier key id' time' later h
    cases earlier <;> cases h
  bounded _ _ _ hmem := absurd hmem not_mem_nil
  unique _ _ _ _ _ hmem := absurd hmem not_mem_nil
  fresh := by
    intro before key id time after h
    cases before <;> cases h
  answered _ hmem := absurd hmem not_mem_nil
  locked _ _ _ hmem := absurd hmem not_mem_nil

theorem concat_eq_append_cons {α : Type} {items before after : List α} {last item : α}
    (h : items ++ [last] = before ++ item :: after) :
    (before = items ∧ item = last ∧ after = []) ∨
      exists after', after = after' ++ [last] ∧ items = before ++ item :: after' := by
  rcases eq_nil_or_concat after with rfl | ⟨after', last', rfl⟩
  · have hsplit := append_inj' h rfl
    exact Or.inl ⟨hsplit.left.symm, (cons.inj hsplit.right).left.symm, rfl⟩
  · rw [concat_eq_append, ← cons_append, ← append_assoc] at h
    have hsplit := append_inj' h rfl
    refine Or.inr ⟨after', ?_, hsplit.left⟩
    rw [concat_eq_append, (cons.inj hsplit.right).left]

section Steps

variable {clock : Int} {held : κ -> Option Int} {history : List (Mark κ)}

theorem Guarded.mono (h : Guarded timeout clock held history) {clock' : Int}
    (hclock : clock ≤ clock') : Guarded timeout clock' held history where
  kept := h.kept
  bounded key id time hmem := (h.bounded key id time hmem).trans hclock
  unique := h.unique
  fresh := h.fresh
  answered := h.answered
  locked key id time hmem :=
    (h.locked key id time hmem).imp_right fun hlater => hlater.imp_right (·.trans hclock)

theorem Guarded.forget {marks : List (Mark κ)} (h : Guarded timeout clock held (history ++ marks))
    (hmarks : forall id, .finished id ∉ marks) : Guarded timeout clock held history where
  kept := by
    intro earlier key id' time' later hsplit
    exact h.kept earlier key id' time' (later ++ marks)
      (by rw [hsplit, append_assoc, cons_append])
  bounded key id time hmem := h.bounded key id time (mem_append_left _ hmem)
  unique key id time key' time' hmem hmem' :=
    h.unique key id time key' time' (mem_append_left _ hmem) (mem_append_left _ hmem')
  fresh := by
    intro before key id time after hsplit
    exact h.fresh before key id time (after ++ marks)
      (by rw [hsplit, append_assoc, cons_append])
  answered := by
    intro id hfinished
    rcases h.answered id (mem_append_left _ hfinished) with ⟨key, time, hmem⟩
    rcases mem_append.mp hmem with hold | hmark
    · exact ⟨key, time, hold⟩
    · rcases append_of_mem hmark with ⟨before, after, hsplit⟩
      exact absurd (mem_append_left before hfinished)
        (h.fresh (history ++ before) key id time after (by rw [hsplit, append_assoc]))
  locked := by
    intro key id time hmem
    refine (h.locked key id time (mem_append_left _ hmem)).imp_left fun hfinished => ?_
    exact (mem_append.mp hfinished).resolve_right (hmarks id)

theorem Guarded.generated [DecidableEq κ] (h : Guarded timeout clock held history) {key : κ}
    {id : Nat} {time : Int} (hclock : clock ≤ time)
    (hfree : forall since, held key = some since -> since + timeout ≤ time)
    (hnew : forall key' time', .generated key' id time' ∉ history) :
    Guarded timeout time (Function.update held key (some time))
      (history ++ [.generated key id time]) where
  kept := by
    intro earlier key' id' time' later hsplit before id₀ time₀ between hearlier hsoon
    rcases concat_eq_append_cons hsplit with ⟨rfl, hsame, _⟩ | ⟨later', _, hhistory⟩
    · cases hsame
      have hmem : .generated key id₀ time₀ ∈ earlier :=
        hearlier ▸ mem_append_right _ mem_cons_self
      rcases h.locked key id₀ time₀ hmem with hfinished | ⟨since, hheld, hsince⟩ | hpassed
      · rw [hearlier] at hfinished
        rcases mem_append.mp hfinished with hbefore | hrest
        · exact absurd hbefore (h.fresh before key id₀ time₀ between hearlier)
        · rcases mem_cons.mp hrest with hmark | hbetween
          · cases hmark
          · exact hbetween
      · have hexpired := hfree since hheld
        omega
      · omega
    · exact h.kept earlier key' id' time' later' hhistory before id₀ time₀ between hearlier hsoon
  bounded := by
    intro key' id' time' hmem
    rcases mem_append.mp hmem with hold | hmark
    · exact (h.bounded key' id' time' hold).trans hclock
    · cases mem_singleton.mp hmark
      exact le_refl _
  unique := by
    intro key₁ id' time₁ key₂ time₂ hfirst hsecond
    rcases mem_append.mp hfirst with hold | hmark
    · rcases mem_append.mp hsecond with hold' | hmark'
      · exact h.unique key₁ id' time₁ key₂ time₂ hold hold'
      · cases mem_singleton.mp hmark'
        exact absurd hold (hnew key₁ time₁)
    · cases mem_singleton.mp hmark
      rcases mem_append.mp hsecond with hold' | hmark'
      · exact absurd hold' (hnew key₂ time₂)
      · cases mem_singleton.mp hmark'
        rfl
  fresh := by
    intro before key' id' time' after hsplit
    rcases concat_eq_append_cons hsplit with ⟨rfl, hsame, _⟩ | ⟨after', _, hhistory⟩
    · cases hsame
      intro hfinished
      rcases h.answered id hfinished with ⟨key', time', hmem⟩
      exact hnew key' time' hmem
    · exact h.fresh before key' id' time' after' hhistory
  answered := by
    intro id' hfinished
    rcases mem_append.mp hfinished with hold | hmark
    · rcases h.answered id' hold with ⟨key', time', hmem⟩
      exact ⟨key', time', mem_append_left _ hmem⟩
    · cases mem_singleton.mp hmark
  locked := by
    intro key' id' time' hmem
    by_cases hkey : key' = key
    · refine Or.inr (Or.inl ⟨time, by rw [hkey, Function.update_self], ?_⟩)
      rcases mem_append.mp hmem with hold | hmark
      · exact (h.bounded key' id' time' hold).trans hclock
      · cases mem_singleton.mp hmark
        exact le_refl _
    · rcases mem_append.mp hmem with hold | hmark
      · rw [Function.update_of_ne hkey]
        exact (h.locked key' id' time' hold).imp (mem_append_left _)
          fun hlater => hlater.imp_right (·.trans hclock)
      · cases mem_singleton.mp hmark
        exact absurd rfl hkey

theorem Guarded.finished [DecidableEq κ] (h : Guarded timeout clock held history) {key : κ}
    {id : Nat} {time : Int} (hmem : .generated key id time ∈ history) (hturn : InTurn history id) :
    Guarded timeout clock (Function.update held key none) (history ++ [.finished id]) where
  kept := by
    intro earlier key' id' time' later hsplit
    rcases concat_eq_append_cons hsplit with ⟨_, hsame, _⟩ | ⟨later', _, hhistory⟩
    · cases hsame
    · exact h.kept earlier key' id' time' later' hhistory
  bounded := by
    intro key' id' time' hmark
    rcases mem_append.mp hmark with hold | hnew
    · exact h.bounded key' id' time' hold
    · cases mem_singleton.mp hnew
  unique := by
    intro key₁ id' time₁ key₂ time₂ hfirst hsecond
    rcases mem_append.mp hfirst with hold | hnew
    · rcases mem_append.mp hsecond with hold' | hnew'
      · exact h.unique key₁ id' time₁ key₂ time₂ hold hold'
      · cases mem_singleton.mp hnew'
    · cases mem_singleton.mp hnew
  fresh := by
    intro before key' id' time' after hsplit
    rcases concat_eq_append_cons hsplit with ⟨_, hsame, _⟩ | ⟨after', _, hhistory⟩
    · cases hsame
    · exact h.fresh before key' id' time' after' hhistory
  answered := by
    intro id' hfinished
    rcases mem_append.mp hfinished with hold | hnew
    · rcases h.answered id' hold with ⟨key', time', hgenerated⟩
      exact ⟨key', time', mem_append_left _ hgenerated⟩
    · cases mem_singleton.mp hnew
      exact ⟨key, time, mem_append_left _ hmem⟩
  locked := by
    intro key' id' time' hmark
    rcases mem_append.mp hmark with hold | hnew
    · by_cases hkey : key' = key
      · subst hkey
        rcases append_of_mem hmem with ⟨before, after, hsplit⟩
        rw [hsplit] at hold
        rcases mem_append.mp hold with hbefore | hrest
        · -- what was generated before is finished or has expired since
          rcases append_of_mem hbefore with ⟨front, between, hfront⟩
          rcases lt_or_ge time (time' + timeout) with hsoon | hlate
          · have hfinished := h.kept before key' id time after hsplit front id' time' between
              hfront hsoon
            refine Or.inl (mem_append_left _ ?_)
            rw [hsplit, hfront]
            exact mem_append_left _ (mem_append_right _
              (mem_cons_of_mem _ hfinished))
          · exact Or.inr (Or.inr (hlate.trans (h.bounded key' id time hmem)))
        · rcases mem_cons.mp hrest with hsame | hafter
          · cases hsame
            exact Or.inl (mem_append_right _ mem_cons_self)
          · exact Or.inl (mem_append_left _
              (hturn before key' time after hsplit id' time' hafter))
      · rw [Function.update_of_ne hkey]
        exact (h.locked key' id' time' hold).imp_left (mem_append_left _)
    · cases mem_singleton.mp hnew

end Steps

end ExpiringLock

end Icsw.Foundation
