import Icsw.Foundation.Python
import Icsw.License.Conservation

/-!
# Consuming from several objects

Every server process has an object through which it consumes eggs, with one
consumer per action and a cache of recent answers.  Each consumer keeps its own
cradle object, so a call that works on an outdated one overwrites what the others
have taken in the meantime.
-/

namespace Icsw.License

open Foundation

structure CachedAnswer where
  time : Int
  allowed : Bool

def cacheTime : Nat := 60

structure EggConsumeObject where
  consumers : Text -> Option EggConsumer
  cache : Text -> Nat -> Option CachedAnswer

/-- The answer in the cache, if there is one that is young enough. -/
def EggConsumeObject.cached (object : EggConsumeObject) (action : Text) (pk : Nat)
    (now : Int) : Option Bool :=
  match object.cache action pk with
  | some answer => if (answer.time - now).natAbs < cacheTime then some answer.allowed else none
  | none => none

def EggConsumeObject.setAnswer (object : EggConsumeObject) (action : Text) (pk : Nat)
    (answer : CachedAnswer) : EggConsumeObject :=
  { object with
    cache := Function.update object.cache action
      (Function.update (object.cache action) pk (some answer)) }

def EggConsumeObject.setConsumer (object : EggConsumeObject) (action : Text)
    (consumer : EggConsumer) : EggConsumeObject :=
  { object with
    consumers := Function.update object.consumers action (some consumer) }

/-- The stored cradle and requests, and the objects of all processes. -/
structure EggWorld where
  available : Int
  requests : List EggRequest
  objects : Nat -> EggConsumeObject

/-- One object of a call: which of the processes asks, for what action and what key. -/
structure ConsumeStep where
  object : Nat
  action : Text
  pk : Nat
  now : Int

def locate (consumer pk : Nat) : List EggRequest -> Option (Nat × EggRequest)
  | [] => none
  | request :: rest =>
    if request.eggConsumer = consumer ∧ request.objectId = some pk then some (0, request)
    else (locate consumer pk rest).map (fun found => (found.1 + 1, found.2))

/-- The rows with the one asked for, which is created if there is none. -/
structure Located where
  requests : List EggRequest
  index : Nat
  request : EggRequest

def getOrCreate (consumer pk : Nat) (requests : List EggRequest) : Located :=
  match locate consumer pk requests with
  | some (index, request) => { requests := requests, index := index, request := request }
  | none =>
    { requests := requests ++ [newRequest consumer (some pk)]
      index := requests.length
      request := newRequest consumer (some pk) }

variable (world : EggWorld)

variable (step : ConsumeStep)

def consumeOne : EggWorld × Bool :=
  let object := world.objects step.object
  match object.consumers step.action with
  | none => (world, false)
  | some consumer =>
    match object.cached step.action step.pk step.now with
    | some allowed => (world, allowed)
    | none =>
      let located := getOrCreate consumer.idx step.pk world.requests
      let result := consume consumer located.request world.available step.now
      let allowed := result.request.valid
      ({ available := result.available
         requests := located.requests.set located.index result.request
         objects := Function.update world.objects step.object
           ((object.setConsumer step.action result.consumer).setAnswer step.action step.pk
             { time := step.now, allowed := allowed }) },
        allowed)

def consumeStep : EggWorld :=
  (consumeOne world step).1

/-- A call for a list of keys. -/
structure ConsumeCall where
  object : Nat
  action : Text
  pks : List Nat
  now : Int

def callSteps (call : ConsumeCall) : List ConsumeStep :=
  call.pks.map (fun pk =>
    { object := call.object, action := call.action, pk := pk, now := call.now })

def consumeCall (call : ConsumeCall) : EggWorld :=
  run consumeStep world (callSteps call)

def answers : EggWorld -> List ConsumeStep -> List Bool
  | _, [] => []
  | world, step :: rest => (consumeOne world step).2 :: answers (consumeStep world step) rest

def grantedWeight : Int :=
  if (consumeOne world step).2 then
    totalHeld (consumeStep world step).requests - totalHeld world.requests
  else 0

def grantedTotal : EggWorld -> List ConsumeStep -> Int
  | _, [] => 0
  | world, step :: rest =>
    grantedWeight world step + grantedTotal (consumeStep world step) rest

/--
A step that is not answered from the cache, and takes eggs, works on a cradle
object that is not resolved yet or shows the stored value.
-/
def CurrentCradle : Prop :=
  forall consumer, (world.objects step.object).consumers step.action = some consumer ->
    (world.objects step.object).cached step.action step.pk step.now = none ->
    UpToDate consumer world.available ∨
      (getOrCreate consumer.idx step.pk world.requests).request.isLock = true ∨
      toConsume consumer (getOrCreate consumer.idx step.pk world.requests).request = 0 ∨
      ¬ toConsume consumer (getOrCreate consumer.idx step.pk world.requests).request <
        seenAvailable consumer world.available

theorem locate_getElem {consumer pk : Nat} {requests : List EggRequest} {index : Nat}
    {request : EggRequest} (h : locate consumer pk requests = some (index, request)) :
    requests[index]? = some request := by
  induction requests generalizing index with
  | nil => cases h
  | cons first rest ih =>
    rw [locate] at h
    split at h
    · cases h
      rfl
    · rcases Option.map_eq_some_iff.mp h with ⟨found, hfound, hequal⟩
      cases hequal
      simpa using ih hfound

theorem getOrCreate_spec (consumer pk : Nat) (requests : List EggRequest) :
    (getOrCreate consumer pk requests).requests[
        (getOrCreate consumer pk requests).index]? =
      some (getOrCreate consumer pk requests).request ∧
    totalHeld (getOrCreate consumer pk requests).requests = totalHeld requests := by
  unfold getOrCreate
  cases hlocate : locate consumer pk requests with
  | none =>
    constructor
    · simp
    · simp [totalHeld, held, newRequest]
  | some found => exact ⟨locate_getElem hlocate, rfl⟩

theorem consume_available {consumer : EggConsumer} {request : EggRequest} {stored : Int} (now : Int)
    (h : UpToDate consumer stored ∨ request.isLock = true ∨ toConsume consumer request = 0 ∨
      ¬ toConsume consumer request < seenAvailable consumer stored) :
    (consume consumer request stored now).available =
      stored - if (consume consumer request stored now).request.valid then
        held (consume consumer request stored now).request - held request else 0 := by
  cases hlock : request.isLock with
  | true => simp [consume_lock hlock]
  | false =>
    by_cases hzero : toConsume consumer request = 0
    · rw [consume_nothing hlock hzero]
      simp only [held_granted hlock, hzero, if_true]
      omega
    · by_cases hlt : toConsume consumer request < seenAvailable consumer stored
      · rw [consume_granted hlock hzero hlt]
        simp only [held_granted hlock, if_true]
        have hseen : seenAvailable consumer stored = stored := by
          rcases h with hdate | htrue | heq | hnot
          · exact seenAvailable_of_upToDate hdate
          · rw [hlock] at htrue
            cases htrue
          · exact absurd heq hzero
          · exact absurd hlt hnot
        omega
      · rw [consume_denied hlock hzero hlt]
        simp

theorem consumeOne_cases :
    (consumeOne world step).1 = world ∨
      exists consumer,
        (world.objects step.object).consumers step.action = some consumer ∧
        (world.objects step.object).cached step.action step.pk step.now = none ∧
        (consumeOne world step).1.available =
          (consume consumer (getOrCreate consumer.idx step.pk world.requests).request
            world.available step.now).available ∧
        (consumeOne world step).1.requests =
          (getOrCreate consumer.idx step.pk world.requests).requests.set
            (getOrCreate consumer.idx step.pk world.requests).index
            (consume consumer (getOrCreate consumer.idx step.pk world.requests).request
              world.available step.now).request ∧
        (consumeOne world step).2 =
          (consume consumer (getOrCreate consumer.idx step.pk world.requests).request
            world.available step.now).request.valid := by
  cases hconsumer : (world.objects step.object).consumers step.action with
  | none =>
    left
    simp only [consumeOne, hconsumer]
  | some consumer =>
    cases hcached : (world.objects step.object).cached step.action step.pk step.now with
    | some allowed =>
      left
      simp only [consumeOne, hconsumer, hcached]
    | none =>
      right
      refine ⟨consumer, rfl, rfl, ?_⟩
      simp only [consumeOne, hconsumer, hcached]
      exact ⟨trivial, trivial, trivial⟩

theorem consumeStep_available {world : EggWorld} {step : ConsumeStep}
    (h : CurrentCradle world step) :
    (consumeStep world step).available = world.available - grantedWeight world step := by
  unfold grantedWeight consumeStep
  rcases consumeOne_cases world step with hsame |
    ⟨consumer, hconsumer, hcached, havailable, hrequests, hallowed⟩
  · rw [hsame]
    simp
  · have hspec := getOrCreate_spec consumer.idx step.pk world.requests
    have hcall := consume_available step.now (h consumer hconsumer hcached)
    rw [havailable, hrequests, hallowed, totalHeld_set hspec.left, hspec.right, hcall]
    congr 1
    split
    · omega
    · rfl

theorem run_available {world : EggWorld} {steps : List ConsumeStep}
    (h : Along consumeStep CurrentCradle world steps) :
    (run consumeStep world steps).available =
      world.available - grantedTotal world steps := by
  induction steps generalizing world with
  | nil => simp [grantedTotal]
  | cons step rest ih =>
    rw [run_cons, ih h.right, consumeStep_available h.left, grantedTotal]
    omega

theorem run_consumeCall (calls : List ConsumeCall) :
    run consumeCall world calls = run consumeStep world (calls.flatMap callSteps) := by
  induction calls generalizing world with
  | nil => rfl
  | cons call rest ih => rw [run_cons, ih, List.flatMap_cons, run_append, consumeCall]

/--
In every interleaving of calls whose steps all work on current cradles, the
stored number of available eggs is the initial one without all grants.
-/
theorem consumeCalls_available {world : EggWorld} {calls : List ConsumeCall}
    (h : Along consumeStep CurrentCradle world (calls.flatMap callSteps)) :
    (run consumeCall world calls).available =
      world.available - grantedTotal world (calls.flatMap callSteps) := by
  rw [run_consumeCall]
  exact run_available h

/-- Two processes with one consumer each, right after their initialisation. -/
def twoProcesses : EggWorld where
  available := 100
  requests := []
  objects := fun index =>
    { consumers := fun _ => some { idx := index, multiplier := 4, consumed := 0,
                                   timeframeSecs := 0, eggCradle := none }
      cache := fun _ _ => none }

def callOf (object pk : Nat) : ConsumeCall where
  object := object
  action := []
  pks := [pk]
  now := 0

theorem consumeCalls_available_one_each :
    (run consumeCall twoProcesses [callOf 0 1, callOf 1 1]).available =
      100 - grantedTotal twoProcesses ([callOf 0 1, callOf 1 1].flatMap callSteps) := by
  apply consumeCalls_available
  refine ⟨?_, ?_, trivial⟩
  · intro consumer hconsumer _
    cases hconsumer
    exact Or.inl (Or.inl rfl)
  · intro consumer hconsumer _
    cases hconsumer
    exact Or.inl (Or.inl rfl)

/-- The first process consumes once more: what the second one took is lost. -/
theorem consumeCalls_lost_update :
    answers twoProcesses ([callOf 0 1, callOf 1 1, callOf 0 2].flatMap callSteps) =
        [true, true, true] ∧
      (run consumeCall twoProcesses [callOf 0 1, callOf 1 1, callOf 0 2]).available ≠
        100 - grantedTotal twoProcesses
          ([callOf 0 1, callOf 1 1, callOf 0 2].flatMap callSteps) := by
  decide

end Icsw.License
