import Icsw.License.Conservation

/-!
# Using all installed eggs

Fresh requests are granted one after the other.  A request that needs exactly the eggs that are
left is denied, and so is, or is not, a request whose weight lies between the eggs that the
consumer sees and those that are left.
-/

namespace Icsw.License

open Foundation List

structure FreshCall where
  consumer : Nat
  objectId : Option Nat
  now : Int

variable (system : EggSystem)

/-- A request is created and given to a consumer. -/
def serveFresh (call : FreshCall) : EggSystem :=
  match system.consumers[call.consumer]? with
  | none => system
  | some object =>
    run eggStep system [.addRequest object.idx call.objectId,
      .consume call.consumer system.requests.length call.now]

def grantedFresh (call : FreshCall) : Bool :=
  ((serveFresh system call).requests[system.requests.length]?).any EggRequest.valid

def weightOf (call : FreshCall) : Int :=
  ((system.consumers[call.consumer]?).map EggConsumer.multiplier).getD 0

def seenBy (call : FreshCall) : Int :=
  ((system.consumers[call.consumer]?).map fun object =>
    seenAvailable object system.available).getD 0

/-- A system with the eggs that have not been granted. -/
structure EggAccount where
  system : EggSystem
  left : Int

def openAccount : EggAccount where
  system := system
  left := system.available

def accountStep (account : EggAccount) (call : FreshCall) : EggAccount where
  system := serveFresh account.system call
  left :=
    if grantedFresh account.system call then account.left - weightOf account.system call
    else account.left

def grantedCount : EggSystem -> List FreshCall -> Nat
  | _, [] => 0
  | system, call :: rest =>
    (if grantedFresh system call then 1 else 0) + grantedCount (serveFresh system call) rest

def GrantedRight (account : EggAccount) (call : FreshCall) : Prop :=
  grantedFresh account.system call = true <-> weightOf account.system call ≤ account.left

structure AllUsable (calls : List FreshCall) : Prop where
  granted : Along accountStep GrantedRight (openAccount system) calls
  nonneg : forall taken rest, calls = taken ++ rest ->
    0 ≤ (run accountStep (openAccount system) taken).system.available
  count : forall weight : Nat, (forall object, object ∈ system.consumers ->
      object.multiplier = weight) ->
    grantedCount system calls = min calls.length (system.available.toNat / weight)

/-- The weight is not between what the consumer sees and what is left. -/
def OutOfDoubt (account : EggAccount) (call : FreshCall) : Prop :=
  ¬ (seenBy account.system call ≤ weightOf account.system call ∧
      weightOf account.system call ≤ account.left) ∧
    ¬ (account.left < weightOf account.system call ∧
      weightOf account.system call < seenBy account.system call)

structure Installed (calls : List FreshCall) : Prop where
  available : 0 ≤ system.available
  multiplier : forall object, object ∈ system.consumers -> 0 < object.multiplier
  consumer : forall call, call ∈ calls -> call.consumer < system.consumers.length

section Call

variable {system : EggSystem} {call : FreshCall} {object : EggConsumer}

theorem serveFresh_eq (hobject : system.consumers[call.consumer]? = some object) :
    serveFresh system call =
      { installed := system.installed
        available := (consume object (newRequest object.idx call.objectId) system.available
          call.now).available
        consumers := system.consumers.set call.consumer
          (consume object (newRequest object.idx call.objectId) system.available call.now).consumer
        requests := (system.requests ++ [newRequest object.idx call.objectId]).set
          system.requests.length
          (consume object (newRequest object.idx call.objectId) system.available
            call.now).request } := by
  have hrow : (system.requests ++ [newRequest object.idx call.objectId])[
      system.requests.length]? = some (newRequest object.idx call.objectId) :=
    getElem?_concat_length
  simp only [serveFresh, hobject, run_cons, run_nil, eggStep, hrow]

theorem grantedFresh_eq (hobject : system.consumers[call.consumer]? = some object) :
    grantedFresh system call =
      (consume object (newRequest object.idx call.objectId) system.available
        call.now).request.valid := by
  have hlength : system.requests.length <
      (system.requests ++ [newRequest object.idx call.objectId]).length := by
    rw [length_append, length_singleton]
    exact Nat.lt_succ_self _
  rw [grantedFresh, serveFresh_eq hobject]
  show ((set _ _ _)[system.requests.length]?).any EggRequest.valid = _
  rw [getElem?_set_self hlength, Option.any_some]

theorem toConsume_newRequest (object : EggConsumer) (objectId : Option Nat) :
    toConsume object (newRequest object.idx objectId) = object.multiplier := rfl

theorem consume_fresh (hpositive : 0 < object.multiplier) (objectId : Option Nat)
    (stored now : Int) :
    (consume object (newRequest object.idx objectId) stored now).request.valid =
        decide (object.multiplier < seenAvailable object stored) ∧
      (consume object (newRequest object.idx objectId) stored now).consumer.multiplier =
          object.multiplier ∧
        (consume object (newRequest object.idx objectId) stored now).available =
          if object.multiplier < seenAvailable object stored then
            seenAvailable object stored - object.multiplier
          else stored := by
  have hne : toConsume object (newRequest object.idx objectId) ≠ 0 := by
    rw [toConsume_newRequest]
    omega
  by_cases hless : object.multiplier < seenAvailable object stored
  · rw [consume_granted rfl hne hless, decide_eq_true hless, if_pos hless]
    exact ⟨rfl, rfl, rfl⟩
  · rw [consume_denied rfl hne hless, decide_eq_false hless, if_neg hless]
    exact ⟨rfl, rfl, rfl⟩

end Call

variable {rest : List FreshCall}

variable {system}

theorem Installed.call {call : FreshCall} (h : Installed system (call :: rest)) :
    exists object, system.consumers[call.consumer]? = some object ∧ 0 < object.multiplier ∧
      weightOf system call = object.multiplier ∧
        seenBy system call = seenAvailable object system.available := by
  have hobject := getElem?_eq_getElem (h.consumer call mem_cons_self)
  refine ⟨_, hobject, h.multiplier _ (getElem_mem _), ?_, ?_⟩
  · rw [weightOf, hobject]
    rfl
  · rw [seenBy, hobject]
    rfl

theorem grantedFresh_iff {call : FreshCall} (h : Installed system (call :: rest)) :
    grantedFresh system call = true <-> weightOf system call < seenBy system call := by
  rcases h.call with ⟨object, hobject, hpositive, hweight, hseen⟩
  rw [grantedFresh_eq hobject, (consume_fresh hpositive _ _ _).left, decide_eq_true_iff, hweight,
    hseen]

theorem multipliers_serveFresh {call : FreshCall} (h : Installed system (call :: rest)) :
    (serveFresh system call).consumers.map EggConsumer.multiplier =
      system.consumers.map EggConsumer.multiplier := by
  rcases h.call with ⟨object, hobject, hpositive, _, _⟩
  rw [serveFresh_eq hobject]
  show (set _ _ _).map EggConsumer.multiplier = _
  rw [map_set, (consume_fresh hpositive _ _ _).right.left]
  apply ext_getElem?
  intro index
  rw [getElem?_set]
  split
  · next heq =>
      rw [← heq, getElem?_map, hobject]
      split
      · rfl
      · next hlength =>
          exact absurd (length_map EggConsumer.multiplier ▸
            (List.getElem?_eq_some_iff.mp hobject).choose) hlength
  · rfl

theorem Installed.step {call : FreshCall}
    (h : Installed system (call :: rest)) : Installed (serveFresh system call) rest := by
  have hmultipliers := multipliers_serveFresh h
  have hlength := congrArg length hmultipliers
  rw [length_map, length_map] at hlength
  constructor
  case available =>
    rcases h.call with ⟨object, hobject, hpositive, _, _⟩
    rw [serveFresh_eq hobject]
    show 0 ≤ (consume _ _ _ _).available
    rw [(consume_fresh hpositive _ _ _).right.right]
    split
    · omega
    · exact h.available
  case multiplier =>
    intro object hobject
    have hmem : object.multiplier ∈ system.consumers.map EggConsumer.multiplier := by
      rw [← hmultipliers]
      exact mem_map_of_mem hobject
    rcases mem_map.mp hmem with ⟨other, hother, heq⟩
    rw [← heq]
    exact h.multiplier other hother
  case consumer =>
    intro other hother
    rw [hlength]
    exact h.consumer other (mem_cons_of_mem _ hother)

variable {account : EggAccount}

theorem along_grantedRight_iff {calls : List FreshCall} (h : Installed account.system calls) :
    Along accountStep GrantedRight account calls <-> Along accountStep OutOfDoubt account calls := by
  induction calls generalizing account with
  | nil => exact Iff.rfl
  | cons call rest ih =>
    refine and_congr ?_ (ih h.step)
    rw [GrantedRight, grantedFresh_iff h, OutOfDoubt]
    omega

theorem available_run_nonneg {taken rest : List FreshCall}
    (h : Installed account.system (taken ++ rest)) :
    0 ≤ (run accountStep account taken).system.available := by
  induction taken generalizing account with
  | nil => exact h.available
  | cons call later ih => exact ih h.step

theorem grantedCount_eq {calls : List FreshCall} {weight left : Nat}
    (h : Installed account.system calls)
    (hweight : forall object, object ∈ account.system.consumers -> object.multiplier = weight)
    (hleft : account.left = left) (hgranted : Along accountStep GrantedRight account calls) :
    grantedCount account.system calls = min calls.length (left / weight) := by
  induction calls generalizing account left with
  | nil => exact (Nat.zero_min _).symm
  | cons call rest ih =>
    rcases h.call with ⟨object, hobject, hpositive, hcall, _⟩
    have hsame := hweight object (mem_of_getElem? hobject)
    have hpos : 0 < weight := by omega
    have hkept : forall object, object ∈ (serveFresh account.system call).consumers ->
        object.multiplier = weight := by
      intro other hother
      have hmem : other.multiplier ∈ account.system.consumers.map EggConsumer.multiplier := by
        rw [← multipliers_serveFresh h]
        exact mem_map_of_mem hother
      rcases mem_map.mp hmem with ⟨found, hfound, heq⟩
      rw [← heq]
      exact hweight found hfound
    have hright := hgranted.left
    rw [GrantedRight, hcall, hsame, hleft, Int.ofNat_le] at hright
    by_cases hle : weight ≤ left
    · have hstep : (accountStep account call).left = ((left - weight : Nat) : Int) := by
        show (if grantedFresh account.system call = true then _ else _) = _
        rw [if_pos (hright.mpr hle), hcall, hsame, hleft]
        omega
      have hcount := @ih (accountStep account call) (left - weight) h.step hkept hstep
        hgranted.right
      rw [grantedCount, if_pos (hright.mpr hle), length_cons,
        Nat.div_eq_sub_div hpos hle]
      show 1 + grantedCount (accountStep account call).system rest = _
      rw [hcount]
      omega
    · have hstep : (accountStep account call).left = left := by
        show (if grantedFresh account.system call = true then _ else _) = _
        rw [if_neg fun hgrant => hle (hright.mp hgrant), hleft]
      have hcount := @ih (accountStep account call) left h.step hkept hstep hgranted.right
      rw [grantedCount, if_neg fun hgrant => hle (hright.mp hgrant),
        Nat.div_eq_of_lt (not_le.mp hle), Nat.min_zero, Nat.zero_add]
      show grantedCount (accountStep account call).system rest = 0
      rw [hcount, Nat.div_eq_of_lt (not_le.mp hle), Nat.min_zero]

/-- All eggs can be used exactly if no weight of a run lies where grants go wrong. -/
theorem allUsable_iff {system : EggSystem} {calls : List FreshCall} (h : Installed system calls) :
    AllUsable system calls <-> Along accountStep OutOfDoubt (openAccount system) calls := by
  have hiff := @along_grantedRight_iff (openAccount system) calls h
  constructor
  · intro hall
    exact hiff.mp hall.granted
  · intro hdoubt
    have hgranted := hiff.mpr hdoubt
    refine ⟨hgranted, ?_, ?_⟩
    · rintro taken rest rfl
      exact available_run_nonneg h
    · intro weight hweight
      exact @grantedCount_eq (openAccount system) calls weight system.available.toNat h hweight
        (Int.toNat_of_nonneg h.available).symm hgranted

def oneConsumer (available : Int) : EggSystem where
  installed := available
  available := available
  consumers := [{ idx := 1, multiplier := 1, consumed := 0, timeframeSecs := 0,
                  eggCradle := none }]
  requests := []

def firstCall : FreshCall where
  consumer := 0
  objectId := some 1
  now := 0

theorem installed_oneConsumer {available : Int} (h : 0 ≤ available) :
    Installed (oneConsumer available) [firstCall] := by
  refine ⟨h, fun object hobject => ?_, fun call hcall => ?_⟩
  · rw [mem_singleton.mp hobject]
    exact Int.one_pos
  · rw [mem_singleton.mp hcall]
    exact Nat.one_pos

theorem allUsable_iff_twoEggs :
    Installed (oneConsumer 2) [firstCall] ∧ (AllUsable (oneConsumer 2) [firstCall] <->
      Along accountStep OutOfDoubt (openAccount (oneConsumer 2)) [firstCall]) :=
  ⟨installed_oneConsumer (by decide), allUsable_iff (installed_oneConsumer (by decide))⟩

/-- The only egg is not granted. -/
theorem oneEgg_not_usable :
    Installed (oneConsumer 1) [firstCall] ∧ grantedCount (oneConsumer 1) [firstCall] = 0 ∧
      ¬ AllUsable (oneConsumer 1) [firstCall] := by
  refine ⟨installed_oneConsumer (by decide), by decide, fun h => ?_⟩
  have hcount := h.count 1 fun object hobject => by rw [mem_singleton.mp hobject]; rfl
  exact absurd hcount (by decide)

end Icsw.License
