import Mathlib.Algebra.BigOperators.Group.List.Basic
import Mathlib.Algebra.Ring.Int.Defs
import Icsw.Foundation.Run

/-!
# Conservation of eggs

A consumer pays licensed actions with eggs from a cradle, of which it has an object of its own.
The available eggs are the installed ones without those held by requests, as long as no request
that holds eggs is turned into a lock or denied and the object is up to date.
-/

namespace Icsw.License

structure EggRequest where
  eggConsumer : Nat
  objectId : Option Nat
  weight : Int
  isLock : Bool
  valid : Bool
  validUntil : Option Int
deriving DecidableEq

def newRequest (eggConsumer : Nat) (objectId : Option Nat) : EggRequest where
  eggConsumer := eggConsumer
  objectId := objectId
  weight := 0
  isLock := false
  valid := false
  validUntil := none

/-- A consumer object; the cradle is known by the eggs it shows as available. -/
structure EggConsumer where
  idx : Nat
  multiplier : Int
  consumed : Int
  timeframeSecs : Int
  eggCradle : Option Int
deriving DecidableEq

/-- The consumer, the request and the stored number of available eggs after a call. -/
structure Consumption where
  consumer : EggConsumer
  request : EggRequest
  available : Int
deriving DecidableEq

variable (consumer : EggConsumer)

/-- What a request still needs. -/
def toConsume (request : EggRequest) : Int :=
  if request.valid then consumer.multiplier - request.weight else consumer.multiplier

def seenAvailable (stored : Int) : Int :=
  consumer.eggCradle.getD stored

def validUntil (now : Int) : Option Int :=
  if consumer.timeframeSecs = 0 then none else some (now + consumer.timeframeSecs)

def consume (request : EggRequest) (stored now : Int) : Consumption :=
  if request.isLock then
    { consumer := consumer
      request := { request with weight := 0, valid := false }
      available := stored }
  else
    let amount := toConsume consumer request
    let avail := if amount = 0 then 1 else seenAvailable consumer stored
    if amount < avail then
      let granted : EggRequest :=
        { request with
          valid := true
          validUntil := validUntil consumer now
          weight := consumer.multiplier }
      if amount = 0 then
        { consumer := consumer, request := granted, available := stored }
      else
        { consumer :=
            { consumer with
              consumed := consumer.consumed + amount
              eggCradle := some (avail - amount) }
          request := granted
          available := avail - amount }
    else
      { consumer := { consumer with eggCradle := some avail }
        request := { request with valid := false, weight := consumer.multiplier }
        available := stored }

/-- Eggs held by a request; only valid requests that are no locks hold any. -/
def held (request : EggRequest) : Int :=
  if request.valid ∧ ¬ request.isLock then request.weight else 0

def totalHeld (requests : List EggRequest) : Int := (requests.map held).sum

theorem totalHeld_set {requests : List EggRequest} {index : Nat} {old : EggRequest}
    (hold : requests[index]? = some old) (new : EggRequest) :
    totalHeld (requests.set index new) = totalHeld requests - held old + held new := by
  induction requests generalizing index with
  | nil => cases hold
  | cons first rest ih =>
    cases index with
    | zero =>
      cases hold
      simp only [totalHeld, List.set_cons_zero, List.map_cons, List.sum_cons]
      omega
    | succ index =>
      have htail := ih (by simpa using hold)
      simp only [totalHeld, List.set_cons_succ, List.map_cons, List.sum_cons] at htail ⊢
      omega

variable {consumer : EggConsumer} {request : EggRequest} {stored now : Int}

theorem consume_lock (hlock : request.isLock = true) :
    consume consumer request stored now =
      { consumer := consumer
        request := { request with weight := 0, valid := false }
        available := stored } := by
  simp [consume, hlock]

section

variable (hlock : request.isLock = false)
include hlock

theorem consume_nothing (hzero : toConsume consumer request = 0) :
    consume consumer request stored now =
      { consumer := consumer
        request :=
          { request with
            valid := true
            validUntil := validUntil consumer now
            weight := consumer.multiplier }
        available := stored } := by
  simp [consume, hlock, hzero]

theorem consume_granted (hne : toConsume consumer request ≠ 0)
    (hlt : toConsume consumer request < seenAvailable consumer stored) :
    consume consumer request stored now =
      { consumer :=
          { consumer with
            consumed := consumer.consumed + toConsume consumer request
            eggCradle := some (seenAvailable consumer stored - toConsume consumer request) }
        request :=
          { request with
            valid := true
            validUntil := validUntil consumer now
            weight := consumer.multiplier }
        available := seenAvailable consumer stored - toConsume consumer request } := by
  simp [consume, hlock, hne, hlt]

theorem consume_denied (hne : toConsume consumer request ≠ 0)
    (hge : ¬ toConsume consumer request < seenAvailable consumer stored) :
    consume consumer request stored now =
      { consumer := { consumer with eggCradle := some (seenAvailable consumer stored) }
        request := { request with valid := false, weight := consumer.multiplier }
        available := stored } := by
  simp [consume, hlock, hne, hge]

theorem held_granted (until_ : Option Int) :
    held { request with
        valid := true
        validUntil := until_
        weight := consumer.multiplier } =
      held request + toConsume consumer request := by
  unfold held toConsume
  cases request.valid <;> simp [hlock]

end

open Foundation

/-- The cradle, the consumer objects attached to it, and all of their requests. -/
structure EggSystem where
  installed : Int
  available : Int
  consumers : List EggConsumer
  requests : List EggRequest
deriving DecidableEq

inductive EggAction where
  | consume (consumer request : Nat) (now : Int)
  | addRequest (consumer : Nat) (objectId : Option Nat)
  | setMultiplier (consumer : Nat) (multiplier : Int)
  | setLock (request : Nat) (isLock : Bool)
  | loadConsumer (consumer : EggConsumer)
deriving DecidableEq

def eggStep (system : EggSystem) (action : EggAction) : EggSystem :=
  match action with
  | .consume consumer request now =>
    match system.consumers[consumer]?, system.requests[request]? with
    | some object, some row =>
      let result := License.consume object row system.available now
      { system with
        available := result.available
        consumers := system.consumers.set consumer result.consumer
        requests := system.requests.set request result.request }
    | _, _ => system
  | .addRequest consumer objectId =>
    { system with requests := system.requests ++ [newRequest consumer objectId] }
  | .setMultiplier consumer multiplier =>
    match system.consumers[consumer]? with
    | some object =>
      { system with
        consumers := system.consumers.set consumer
          { object with multiplier := multiplier } }
    | none => system
  | .setLock request isLock =>
    match system.requests[request]? with
    | some row =>
      { system with requests := system.requests.set request { row with isLock := isLock } }
    | none => system
  | .loadConsumer consumer =>
    { system with consumers := system.consumers ++ [{ consumer with eggCradle := none }] }

/-- The balance that `icswEggCradle.calc` establishes. -/
def Conserved (system : EggSystem) : Prop :=
  system.available = system.installed - totalHeld system.requests

instance (system : EggSystem) : Decidable (Conserved system) :=
  inferInstanceAs (Decidable (_ = _))

/-- The cradle object has not been resolved yet, or shows the stored value. -/
def UpToDate (consumer : EggConsumer) (stored : Int) : Prop :=
  consumer.eggCradle = none ∨ consumer.eggCradle = some stored

/-- A lock, a grant from an up-to-date cradle, or a denial of a request without eggs. -/
def BalancedCall (consumer : EggConsumer) (request : EggRequest) (stored : Int) : Prop :=
  request.isLock = true ∨ toConsume consumer request = 0 ∨
    (toConsume consumer request < seenAvailable consumer stored ∧ UpToDate consumer stored) ∨
      (¬ toConsume consumer request < seenAvailable consumer stored ∧
        (request.valid = false ∨ request.weight = 0))

/-- No request that holds eggs changes between lock and no lock. -/
def BalancedLock (request : EggRequest) (isLock : Bool) : Prop :=
  isLock = request.isLock ∨ request.valid = false ∨ request.weight = 0

def BalancedAction (system : EggSystem) (action : EggAction) : Prop :=
  match action with
  | .consume consumer request _ =>
    forall object row, system.consumers[consumer]? = some object ->
      system.requests[request]? = some row -> BalancedCall object row system.available
  | .setLock request isLock =>
    forall row, system.requests[request]? = some row -> BalancedLock row isLock
  | _ => True

theorem seenAvailable_of_upToDate {consumer : EggConsumer} {stored : Int}
    (h : UpToDate consumer stored) : seenAvailable consumer stored = stored := by
  rcases h with hnone | hsome
  · rw [seenAvailable, hnone]
    rfl
  · rw [seenAvailable, hsome]
    rfl

theorem held_eq_zero {request : EggRequest}
    (h : request.valid = false ∨ request.weight = 0) : held request = 0 := by
  unfold held
  rcases h with hvalid | hweight
  · simp [hvalid]
  · simp [hweight]

theorem consume_balance {consumer : EggConsumer} {request : EggRequest} {stored : Int}
    (now : Int) (h : BalancedCall consumer request stored) :
    (consume consumer request stored now).available +
        held (consume consumer request stored now).request =
      stored + held request := by
  cases hlock : request.isLock with
  | true =>
    rw [consume_lock hlock]
    simp [held, hlock]
  | false =>
    by_cases hzero : toConsume consumer request = 0
    · rw [consume_nothing hlock hzero]
      simp only [held_granted hlock, hzero, add_zero]
    · by_cases hlt : toConsume consumer request < seenAvailable consumer stored
      · rw [consume_granted hlock hzero hlt]
        simp only [held_granted hlock]
        have hseen : seenAvailable consumer stored = stored := by
          rcases h with htrue | heq | ⟨_, hdate⟩ | ⟨hnot, _⟩
          · rw [hlock] at htrue
            cases htrue
          · exact absurd heq hzero
          · exact seenAvailable_of_upToDate hdate
          · exact absurd hlt hnot
        omega
      · rw [consume_denied hlock hzero hlt]
        have hold : held request = 0 := by
          rcases h with htrue | heq | ⟨hgranted, _⟩ | ⟨_, hempty⟩
          · rw [hlock] at htrue
            cases htrue
          · exact absurd heq hzero
          · exact absurd hgranted hlt
          · exact held_eq_zero hempty
        rw [hold]
        simp [held]

theorem held_setLock {request : EggRequest} {isLock : Bool} (h : BalancedLock request isLock) :
    held { request with isLock := isLock } = held request := by
  rcases h with hsame | hvalid | hweight
  · rw [hsame]
  · simp [held, hvalid]
  · simp [held, hweight]

theorem conserved_step {system : EggSystem} {action : EggAction}
    (hconserved : Conserved system) (h : BalancedAction system action) :
    Conserved (eggStep system action) := by
  unfold Conserved at *
  cases action with
  | consume consumer request now =>
    cases hobject : system.consumers[consumer]? with
    | none => simpa [eggStep, hobject] using hconserved
    | some object =>
      cases hrow : system.requests[request]? with
      | none => simpa [eggStep, hobject, hrow] using hconserved
      | some row =>
        have hbalance := consume_balance now (h object row hobject hrow)
        simp only [eggStep, hobject, hrow, totalHeld_set hrow]
        omega
  | addRequest consumer objectId =>
    simpa [eggStep, totalHeld, newRequest, held] using hconserved
  | setMultiplier consumer multiplier =>
    cases hobject : system.consumers[consumer]? with
    | none => simpa [eggStep, hobject] using hconserved
    | some object => simpa [eggStep, hobject] using hconserved
  | setLock request isLock =>
    cases hrow : system.requests[request]? with
    | none => simpa [eggStep, hrow] using hconserved
    | some row =>
      simp only [eggStep, hrow, totalHeld_set hrow, held_setLock (h row hrow)]
      omega
  | loadConsumer consumer => exact hconserved

/-- In every run of balanced actions the balance holds after each action. -/
theorem conserved_reached {system : EggSystem} (hconserved : Conserved system)
    (taken rest : List EggAction)
    (hbalanced : Along eggStep BalancedAction system (taken ++ rest)) :
    Conserved (run eggStep system taken) := by
  apply invariant_reached eggStep _ hconserved hbalanced
  intro state action hinv hok
  exact conserved_step hinv hok

/-- Ten installed eggs, one consumer that takes four eggs, and one request. -/
def smallSystem (valid : Bool) : EggSystem where
  installed := 10
  available := if valid then 6 else 10
  consumers := [{ idx := 1, multiplier := 4, consumed := 0, timeframeSecs := 0,
                  eggCradle := none }]
  requests := [{ eggConsumer := 1, objectId := some 1, weight := if valid then 4 else 0,
                 isLock := false, valid := valid, validUntil := none }]

theorem conserved_after_grants :
    Conserved (run eggStep (smallSystem false)
      [.consume 0 0 0, .setMultiplier 0 3, .consume 0 0 0]) := by
  apply conserved_reached (by decide) _ []
  refine ⟨?_, trivial, ?_, trivial⟩
  · intro object row hobject hrow
    cases hobject
    cases hrow
    exact Or.inr (Or.inr (Or.inl ⟨by decide, Or.inl rfl⟩))
  · intro object row hobject hrow
    cases hobject
    cases hrow
    exact Or.inr (Or.inr (Or.inl ⟨by decide, Or.inr (by decide)⟩))

/-- The eggs of a granted request that becomes a lock are not given back. -/
theorem not_conserved_after_lock :
    Conserved (smallSystem true) ∧
      ¬ Conserved (run eggStep (smallSystem true) [.setLock 0 true, .consume 0 0 0]) := by
  decide

end Icsw.License
