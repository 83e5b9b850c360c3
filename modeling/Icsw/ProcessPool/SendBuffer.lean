import Icsw.Foundation.Dict
import Icsw.Foundation.Python
import Icsw.Foundation.Run

/-!
# Send buffers

The pool sends a message to a process at once, where it can, and else keeps it in the
buffer of that process.  The buffer is emptied before the next message is sent, when the
process has started and when it is created; each send may fail.
-/

namespace Icsw.ProcessPool
namespace SendBuffer

open Foundation List

variable {Arg : Type}

structure Message (Arg : Type) where
  mType : Text
  args : List Arg
  kwargs : Dict Text Arg

/-- What goes over the socket in one send. -/
structure Delivery (Arg : Type) where
  target : Text
  pid : Nat
  message : Message Arg

structure Pool (Arg : Type) where
  pid : Nat
  socketBuffer : Dict Text (List (Message Arg))
  /-- What went over the socket so far, in this order. -/
  delivered : List (Delivery Arg)
  /-- The number of sends tried so far. -/
  tried : Nat

def Pool.init (pid : Nat) : Pool Arg :=
  { pid := pid, socketBuffer := ∅, delivered := [], tried := 0 }

def Pool.buffered (pool : Pool Arg) (target : Text) : List (Message Arg) :=
  (pool.socketBuffer.lookup target).getD []

def Pool.deliveredTo (pool : Pool Arg) (target : Text) : List (Message Arg) :=
  (pool.delivered.filter fun delivery => delivery.target = target).map Delivery.message

/-- The answer of the socket to each send: `goesOut n` is false where the send number `n`
raises a `ZMQError`. -/
abbrev Socket := Nat -> Bool

/-- `send_unicode` and `send_pyobj`; true where both returned. -/
def trySend (goesOut : Socket) (pool : Pool Arg) (target : Text) (message : Message Arg) :
    Bool × Pool Arg :=
  if goesOut pool.tried then
    (true, { pool with
      tried := pool.tried + 1
      delivered := pool.delivered ++ [⟨target, pool.pid, message⟩] })
  else
    (false, { pool with tried := pool.tried + 1 })

/-- The loop over `send_list`: whether it came to the end, and what is left of the list. -/
def flushList (goesOut : Socket) (pool : Pool Arg) (target : Text) :
    List (Message Arg) -> Bool × List (Message Arg) × Pool Arg
  | [] => (true, [], pool)
  | message :: rest =>
    let (sent, next) := trySend goesOut pool target message
    if sent then
      flushList goesOut next target rest
    else
      (false, message :: rest, next)

def flushProcessBuffers (goesOut : Socket) (pool : Pool Arg) (target : Text) : Bool × Pool Arg :=
  match pool.socketBuffer.lookup target with
  | none => (true, pool)
  | some sendList =>
    let (flushed, rest, next) := flushList goesOut pool target sendList
    (flushed, { next with socketBuffer := next.socketBuffer.insert target rest })

def sendToProcess (goesOut : Socket) (pool : Pool Arg) (target : Text) (message : Message Arg) :
    Pool Arg :=
  let (flushed, emptied) := flushProcessBuffers goesOut pool target
  let (sent, next) := if flushed then trySend goesOut emptied target message else (false, emptied)
  if sent then
    next
  else
    { next with
      socketBuffer := next.socketBuffer.insert target (next.buffered target ++ [message]) }

inductive Event (Arg : Type) where
  | sendToProcess (target : Text) (message : Message Arg)
  /-- The process was created or has started. -/
  | flushProcessBuffers (target : Text)

def step (goesOut : Socket) (pool : Pool Arg) : Event Arg -> Pool Arg
  | .sendToProcess target message => sendToProcess goesOut pool target message
  | .flushProcessBuffers target => (flushProcessBuffers goesOut pool target).2

def Event.sentTo (target : Text) : Event Arg -> List (Message Arg)
  | .sendToProcess name message => if name = target then [message] else []
  | .flushProcessBuffers _ => []

def Pool.stream (pool : Pool Arg) (target : Text) : List (Message Arg) :=
  pool.deliveredTo target ++ pool.buffered target

variable (goesOut : Socket) (pool : Pool Arg) (target : Text)

theorem buffered_insert {rest : List (Message Arg)} (name : Text) :
    { pool with socketBuffer := pool.socketBuffer.insert target rest }.buffered name =
      if target = name then rest else pool.buffered name := by
  rw [Pool.buffered, Dict.lookup_insert_if]
  by_cases h : target = name
  · rw [if_pos h, if_pos h]
    rfl
  · rw [if_neg h, if_neg h]
    rfl

variable (message : Message Arg)

theorem trySend_socketBuffer :
    (trySend goesOut pool target message).2.socketBuffer = pool.socketBuffer := by
  unfold trySend
  split <;> rfl

theorem trySend_deliveredTo (name : Text) :
    (trySend goesOut pool target message).2.deliveredTo name =
      pool.deliveredTo name ++
        if (trySend goesOut pool target message).1 = true ∧ target = name then [message]
        else [] := by
  unfold trySend
  by_cases hout : goesOut pool.tried = true
  · rw [if_pos hout]
    by_cases hname : target = name
    · simp [Pool.deliveredTo, hname]
    · simp [Pool.deliveredTo, hname]
  · rw [if_neg hout]
    simp [Pool.deliveredTo]

/-- The loop takes messages from the front of the list only, and sends each that it takes. -/
theorem flushList_split (sendList : List (Message Arg)) :
    (flushList goesOut pool target sendList).2.2.socketBuffer = pool.socketBuffer ∧
      exists taken, sendList = taken ++ (flushList goesOut pool target sendList).2.1 ∧
        forall name, (flushList goesOut pool target sendList).2.2.deliveredTo name =
          pool.deliveredTo name ++ if target = name then taken else [] := by
  induction sendList generalizing pool with
  | nil => exact ⟨rfl, [], rfl, by simp [flushList]⟩
  | cons message rest ih =>
    have hbuffer := trySend_socketBuffer goesOut pool target message
    have hdelivered := trySend_deliveredTo goesOut pool target message
    rcases hsend : trySend goesOut pool target message with ⟨sent, next⟩
    rw [hsend] at hbuffer hdelivered
    cases sent with
    | false =>
      have hloop : flushList goesOut pool target (message :: rest) =
          (false, message :: rest, next) := by simp [flushList, hsend]
      rw [hloop]
      refine ⟨hbuffer, [], rfl, ?_⟩
      intro name
      simpa using hdelivered name
    | true =>
      have hloop : flushList goesOut pool target (message :: rest) =
          flushList goesOut next target rest := by simp [flushList, hsend]
      rw [hloop]
      rcases ih next with ⟨hkept, taken, hrest, htaken⟩
      refine ⟨hkept.trans hbuffer, message :: taken, congrArg (message :: ·) hrest, ?_⟩
      intro name
      rw [htaken, hdelivered, append_assoc]
      by_cases h : target = name
      · simp [h]
      · simp [h]

theorem flushList_flushed {sendList : List (Message Arg)}
    (h : (flushList goesOut pool target sendList).1 = true) :
    (flushList goesOut pool target sendList).2.1 = [] := by
  induction sendList generalizing pool with
  | nil => rfl
  | cons message rest ih =>
    rw [flushList] at h ⊢
    dsimp only at h ⊢
    split
    · rename_i hsent
      rw [if_pos hsent] at h
      exact ih _ h
    · rename_i hsent
      rw [if_neg hsent] at h
      cases h

theorem flushProcessBuffers_stream (name : Text) :
    (flushProcessBuffers goesOut pool target).2.stream name = pool.stream name := by
  unfold flushProcessBuffers
  cases hlookup : pool.socketBuffer.lookup target with
  | none => rfl
  | some sendList =>
    rcases flushList_split goesOut pool target sendList with
      ⟨hkept, taken, hsplit, htaken⟩
    dsimp only
    rcases hloop : flushList goesOut pool target sendList with ⟨flushed, rest, next⟩
    rw [hloop] at hkept hsplit htaken
    change next.deliveredTo name ++ Pool.buffered _ name = _
    rw [buffered_insert, htaken, Pool.stream, append_assoc]
    congr 1
    by_cases h : target = name
    · have hbuffered : pool.buffered name = sendList := by
        rw [Pool.buffered, ← h, hlookup]
        rfl
      rw [if_pos h, if_pos h, hbuffered, hsplit]
    · rw [if_neg h, if_neg h, Pool.buffered, hkept]
      rfl

theorem buffered_of_flushed (h : (flushProcessBuffers goesOut pool target).1 = true) :
    (flushProcessBuffers goesOut pool target).2.buffered target = [] := by
  unfold flushProcessBuffers at h ⊢
  cases hlookup : pool.socketBuffer.lookup target with
  | none => rw [Pool.buffered, hlookup]; rfl
  | some sendList =>
    rw [hlookup] at h
    dsimp only
    rw [buffered_insert, if_pos rfl]
    exact flushList_flushed goesOut pool target h

theorem append_stream (name : Text) :
    Pool.stream { pool with
        socketBuffer := pool.socketBuffer.insert target (pool.buffered target ++ [message]) } name =
      pool.stream name ++ if target = name then [message] else [] := by
  rw [Pool.stream, buffered_insert, Pool.stream, append_assoc]
  by_cases h : target = name
  · rw [if_pos h, if_pos h, h]
    rfl
  · rw [if_neg h, if_neg h, append_nil]
    rfl

/-- A message that goes out finds the buffer of its target empty. -/
theorem sendToProcess_stream (name : Text) :
    (sendToProcess goesOut pool target message).stream name =
      pool.stream name ++ if target = name then [message] else [] := by
  rw [sendToProcess, ← flushProcessBuffers_stream goesOut pool target]
  have hempty := buffered_of_flushed goesOut pool target
  rcases hflush : flushProcessBuffers goesOut pool target with ⟨flushed, emptied⟩
  rw [hflush] at hempty
  cases flushed with
  | false => exact append_stream _ target message name
  | true =>
    have hbuffer := trySend_socketBuffer goesOut emptied target message
    have hdelivered := trySend_deliveredTo goesOut emptied target message name
    dsimp only
    rw [if_pos rfl]
    rcases hsend : trySend goesOut emptied target message with ⟨sent, next⟩
    rw [hsend] at hbuffer hdelivered
    have hbuffered : next.buffered name = emptied.buffered name := by
      rw [Pool.buffered, hbuffer]
      rfl
    cases sent with
    | false =>
      have hnext : next.stream name = emptied.stream name := by
        rw [Pool.stream, hdelivered, hbuffered]
        simp [Pool.stream]
      rw [← hnext]
      exact append_stream _ target message name
    | true =>
      change next.stream name = _
      rw [Pool.stream, hdelivered, hbuffered, Pool.stream]
      by_cases h : target = name
      · subst h
        have hnil : emptied.buffered target = [] := hempty rfl
        simp [hnil]
      · simp [h]

theorem step_stream (event : Event Arg) :
    (step goesOut pool event).stream target = pool.stream target ++ event.sentTo target := by
  cases event with
  | sendToProcess name message => exact sendToProcess_stream goesOut pool name message target
  | flushProcessBuffers name =>
    exact (flushProcessBuffers_stream goesOut pool name target).trans (append_nil _).symm

theorem run_stream (events : List (Event Arg)) :
    (run (step goesOut) pool events).stream target =
      pool.stream target ++ events.flatMap (Event.sentTo target) := by
  induction events generalizing pool with
  | nil => exact (append_nil _).symm
  | cons event rest ih => rw [run_cons, ih, step_stream, flatMap_cons, append_assoc]

/-- What was delivered to a target and what waits for it are the messages sent to it. -/
theorem messages_in_order (goesOut : Socket) (pid : Nat) (events : List (Event Arg))
    (target : Text) :
    (run (step goesOut) (Pool.init pid) events).deliveredTo target ++
        (run (step goesOut) (Pool.init pid) events).buffered target =
      events.flatMap (Event.sentTo target) :=
  run_stream goesOut (Pool.init pid) target events

end SendBuffer
end Icsw.ProcessPool
