import Icsw.Foundation.Decimal
import Icsw.Foundation.Dict
import Mathlib.Algebra.Order.Field.Rat
import Icsw.Foundation.Run
import Mathlib.Data.Finset.Card

/-!
# Pings of the relay

Every target of a ping has a work item until its replies are there, and is forgotten later.  Timers
call `_update` for a key at any time.  As long as no item is forgotten before it is finished, every
call of `ping` has one result at most, with one entry for each of its targets, and the pings in
flight are the items that are not handled.
-/

namespace Icsw.HmDirect

open Foundation List

structure WorkItem where
  host : Text
  num : Nat
  timeout : Rat
  start : Rat
  endTime : Rat
  nextSend : Rat
  slideTime : Rat
  sent : Nat
  recvOk : Nat
  recvFail : Nat
  errorList : List Text
  sentList : Dict Int Rat
  recvList : Dict Int (Option Rat)

def shown (target : Option Text) : Text :=
  if target.getD [] = [] then "<resolve error>".toList else target.getD []

namespace WorkItem

def new (target : Option Text) (num : Nat) (timeout now : Rat) : WorkItem where
  host := shown target
  num := if target.getD [] = [] then 0 else num
  timeout := timeout
  start := now
  endTime := now + timeout
  nextSend := now
  slideTime := 1 / 10
  sent := 0
  recvOk := 0
  recvFail := 0
  errorList := if target.getD [] = [] then ["resolve error".toList] else []
  sentList := ∅
  recvList := ∅

def failOverdue (now : Rat) (value : WorkItem) : WorkItem :=
  let overdue := value.sentList.keys.filter fun seqno =>
    value.endTime ≤ now ∧ seqno ∉ value.recvList
  { value with
    recvFail := value.recvFail + overdue.length
    recvList := overdue.foldl (fun recvList seqno => recvList.insert seqno none) value.recvList }

def finished (now : Rat) (value : WorkItem) : Prop :=
  value.errorList ≠ [] ∨ value.sent = value.num ∧ value.recvOk + value.recvFail = value.num ∨
    |now - value.start| > value.timeout

instance decidableFinished (now : Rat) (value : WorkItem) : Decidable (value.finished now) :=
  inferInstanceAs (Decidable (_ ∨ _ ∨ _))

def allTimes (value : WorkItem) : List Rat :=
  value.sentList.items.filterMap fun sent =>
    ((value.recvList.lookup sent.1).getD none).map fun received => received - sent.2

def errors (value : WorkItem) : Text := intercalate ", ".toList value.errorList

end WorkItem

/-- What is reported of a target among others. -/
structure PingTuple where
  host : Text
  sent : Nat
  recvOk : Nat
  allTimes : List Rat
  error : Text

inductive Report where
  | single (sent recvOk : Nat) (allTimes : List Rat) (error : Text)
  | group (tuples : List PingTuple)

/-- What is sent by `send_ping_result`. -/
structure PingResult where
  seqStr : Text
  report : Report

/-- The two kinds of entries of the group dictionary. -/
inductive GroupEntry where
  | members (results : Dict Text (Option PingTuple))
  | memberOf (seqStr : Text)

def allDone (results : Dict Text (Option PingTuple)) : Option (List PingTuple) :=
  if results.values.all Option.isSome = true then some (results.values.filterMap id) else none

/-- A call of `ping`, with the keys of its items. -/
structure Call where
  targets : List (Option Text)
  num : Nat
  keys : List Text

structure IcmpProtocol where
  pid : Nat
  echoSeqno : Nat
  work : Dict Text WorkItem
  seqnos : Dict Int Text
  pingsInFlight : Int
  handled : Finset Text
  groups : Dict Text GroupEntry
  groupIdx : Nat
  results : List PingResult
  calls : Dict Text Call
  /-- An exception has ended the event loop. -/
  ended : Bool

/-- When `_update` is called, and what comes of sending an echo: the time after it, or an
exception. -/
structure Moment where
  now : Rat
  echo : Except Text Rat

/-- A datagram that is parsed. -/
structure EchoReply where
  packetType : Nat
  ident : Int
  seqno : Int

namespace IcmpProtocol

def initial (pid : Nat) : IcmpProtocol := ⟨pid, 32, ∅, ∅, 0, ∅, ∅, 0, [], ∅, false⟩

variable (protocol : IcmpProtocol)

/-- `self.echo_seqno = (self.echo_seqno + 1) & 0x7fff` -/
def nextSeqno : Nat := (protocol.echoSeqno + 1) &&& 0x7fff

def trySend (key : Text) (value : WorkItem) (moment : Moment) : IcmpProtocol × WorkItem :=
  if value.sent < value.num ∧ value.nextSend ≤ moment.now then
    let seqno := protocol.nextSeqno
    let protocol := { protocol with echoSeqno := seqno }
    let value := { value with sent := value.sent + 1 }
    match moment.echo with
    | .error raised => (protocol, { value with errorList := value.errorList ++ [raised] })
    | .ok time =>
      ({ protocol with seqnos := protocol.seqnos.insert seqno key },
        { value with
          sentList := value.sentList.insert seqno time
          nextSend := moment.now + value.slideTime })
  else (protocol, value)

def report (key : Text) (value : WorkItem) : Except PyError IcmpProtocol :=
  match protocol.groups.lookup key with
  | some (.memberOf seqStr) =>
    match protocol.groups.lookup seqStr with
    | some (.members results) =>
      let results := results.insert key
        (some ⟨value.host, value.sent, value.recvOk, value.allTimes, value.errors⟩)
      match allDone results with
      | some tuples => .ok { protocol with
          results := protocol.results ++ [⟨seqStr, .group tuples⟩]
          groups := (protocol.groups.erase seqStr).erase key }
      | none => .ok { protocol with
          groups := (protocol.groups.insert seqStr (.members results)).erase key }
    | some (.memberOf _) => .error .typeError
    | none => .error .keyError
  | some (.members _) => .error .typeError
  | none => .ok { protocol with results := protocol.results ++
      [⟨key, .single value.sent value.recvOk value.allTimes value.errors⟩] }

def finish (key : Text) (value : WorkItem) :
    Except PyError IcmpProtocol := do
  let protocol <- protocol.report key value
  return { protocol with
    handled := insert key protocol.handled
    pingsInFlight := protocol.pingsInFlight - 1 }

def setItem (key : Text) (value : WorkItem) : IcmpProtocol :=
  { protocol with work := protocol.work.insert key value }

def update (key : Text) (fromReply : Bool) (moment : Moment) : Except PyError IcmpProtocol :=
  match protocol.work.lookup key with
  | none => .ok protocol
  | some value =>
    if key ∈ protocol.handled then .ok protocol
    else
      let (protocol, value) := protocol.trySend key value moment
      let value := if fromReply then value else value.failOverdue moment.now
      let protocol := protocol.setItem key value
      if value.finished moment.now then protocol.finish key value else .ok protocol

def groupKey (idx : Nat) : Text := "group_".toList ++ formatInt idx

/-- The keys of the items of a ping. -/
def seqList (seqStr : Text) (targets : List (Option Text)) : List Text :=
  if targets.length > 1 then
    (range targets.length).map fun idx => groupKey (protocol.groupIdx + idx)
  else [seqStr]

def addGroup (seqStr : Text) (targets : List (Option Text)) : IcmpProtocol :=
  let keys := protocol.seqList seqStr targets
  if targets.length > 1 then
    { protocol with
      groupIdx := protocol.groupIdx + targets.length
      groups := keys.foldl (fun groups key => groups.insert key (.memberOf seqStr))
        (protocol.groups.insert seqStr
          (.members (keys.foldl (fun results key => results.insert key none) ∅))) }
  else protocol

def addItem (num : Nat) (timeout now : Rat) (protocol : IcmpProtocol)
    (entry : Text × Option Text) : IcmpProtocol :=
  { protocol.setItem entry.1 (.new entry.2 num timeout now) with
    pingsInFlight := protocol.pingsInFlight + 1 }

/-- The items of a ping are there. -/
def addCall (seqStr : Text) (targets : List (Option Text)) (num : Nat)
    (timeout now : Rat) : IcmpProtocol :=
  let keys := protocol.seqList seqStr targets
  (keys.zip targets).foldl (addItem num timeout now)
    { protocol.addGroup seqStr targets with
      calls := protocol.calls.insert seqStr ⟨targets, num, keys⟩ }

def ping (seqStr : Text) (targets : List (Option Text)) (num : Nat)
    (timeout now : Rat) (moments : Text -> Moment) : Except PyError IcmpProtocol :=
  (protocol.seqList seqStr targets).foldlM
    (fun protocol key => protocol.update key false (moments key))
    (protocol.addCall seqStr targets num timeout now)

def received (dgram : Option EchoReply) (recvTime : Rat)
    (moment : Moment) : Except PyError IcmpProtocol :=
  match dgram with
  | none => .ok protocol
  | some dgram =>
    if dgram.packetType = 0 ∧ dgram.ident = (protocol.pid &&& 0x7fff : Nat) then
      match protocol.seqnos.lookup dgram.seqno with
      | none => .ok protocol
      | some key =>
        match protocol.work.lookup key with
        | none => .error .keyError
        | some value =>
          if key ∈ protocol.handled then .ok protocol
          else
            let value :=
              if dgram.seqno ∈ value.recvList then value
              else { value with
                recvList := value.recvList.insert dgram.seqno (some recvTime)
                recvOk := value.recvOk + 1 }
            (protocol.setItem key value).update key true moment
    else .ok protocol

def overdueItem (now : Rat) (value : WorkItem) : Bool := decide (|value.start - now| > 60)

def deleteItem (key : Text) : IcmpProtocol :=
  let seqKeys := ((protocol.work.lookup key).map fun value => value.sentList.keys).getD []
  { protocol with
    handled := protocol.handled.erase key
    seqnos := seqKeys.foldl (fun seqnos seqKey => seqnos.erase seqKey) protocol.seqnos
    work := protocol.work.erase key }

def overdueKeys (now : Rat) : List Text :=
  protocol.work.keys.filter fun key =>
    ((protocol.work.lookup key).map (overdueItem now)).getD false

def checkTimeout (now : Rat) : IcmpProtocol :=
  (protocol.overdueKeys now).foldl deleteItem protocol

inductive PingEvent where
  | ping (seqStr : Text) (targets : List (Option Text)) (num : Nat) (timeout now : Rat)
      (moments : Text -> Moment)
  | update (key : Text) (moment : Moment)
  | received (dgram : Option EchoReply) (recvTime : Rat) (moment : Moment)
  | checkTimeout (now : Rat)

def act (protocol : IcmpProtocol)  : PingEvent -> Except PyError IcmpProtocol
  | .ping seqStr targets num timeout now moments =>
    protocol.ping seqStr targets num timeout now moments
  | .update key moment => protocol.update key false moment
  | .received dgram recvTime moment => protocol.received dgram recvTime moment
  | .checkTimeout now => .ok (protocol.checkTimeout now)

def step (event : PingEvent) : IcmpProtocol :=
  if protocol.ended then protocol
  else
    match protocol.act event with
    | .ok after => after
    | .error _ => { protocol with ended := true }

end IcmpProtocol

def Call.Answered (call : Call) : Report -> Prop
  | .single sent recvOk _ _ => call.targets.length = 1 ∧ recvOk ≤ sent ∧ sent ≤ call.num
  | .group tuples => 1 < call.targets.length ∧
      (tuples.map PingTuple.host).Perm (call.targets.map shown) ∧
      forall tuple, tuple ∈ tuples -> tuple.recvOk ≤ tuple.sent ∧ tuple.sent ≤ call.num

def keySet {V : Type} (dict : Dict Text V) : Finset Text := dict.keys.toFinset

namespace IcmpProtocol

variable (protocol : IcmpProtocol)

def unhandled : Finset Text := keySet protocol.work \ protocol.handled

structure Bookkept : Prop where
  once : forall seqStr, protocol.results.countP (fun result => result.seqStr = seqStr) ≤ 1
  answered : forall result, result ∈ protocol.results ->
    exists call, protocol.calls.lookup result.seqStr = some call ∧ call.Answered result.report
  inFlight : protocol.pingsInFlight = protocol.unhandled.card
  running : protocol.ended = false

end IcmpProtocol

structure WorkItem.Counted (value : WorkItem) : Prop where
  counted : value.recvOk + value.recvFail = value.recvList.keys.length
  answered : forall seqno, seqno ∈ value.recvList -> seqno ∈ value.sentList
  sent : value.sentList.keys.length ≤ value.sent
  bounded : value.sent ≤ value.num

namespace WorkItem

variable {value : WorkItem}

theorem Counted.recvOk_le (h : value.Counted) : value.recvOk ≤ value.sent := by
  have hsubset : value.recvList.keys ⊆ value.sentList.keys := fun seqno hseqno =>
    AList.mem_keys.mp (h.answered seqno (AList.mem_keys.mpr hseqno))
  have hlength := (value.recvList.keys_nodup.subperm hsubset).length_le
  have hcounted := h.counted
  have hsent := h.sent
  omega

theorem counted_new (target : Option Text) (num : Nat) (timeout now : Rat) :
    (WorkItem.new target num timeout now).Counted where
  counted := rfl
  answered seqno hseqno := absurd hseqno (AList.notMem_empty seqno)
  sent := Nat.le_refl 0
  bounded := Nat.zero_le _

theorem length_keys_insert {K V : Type} [DecidableEq K] (dict : Dict K V) (key : K) (value : V) :
    (dict.insert key value).keys.length = (if key ∈ dict then 0 else 1) + dict.keys.length := by
  have hnodup := dict.keys_nodup
  rw [AList.keys_insert, length_cons]
  split
  · rename_i hmem
    have hpos := length_pos_of_mem (AList.mem_keys.mp hmem)
    rw [length_erase_of_mem (AList.mem_keys.mp hmem)]
    omega
  · rename_i hmem
    rw [erase_of_not_mem (fun hkey => hmem (AList.mem_keys.mpr hkey))]
    omega

theorem counted_received (h : value.Counted) {seqno : Int}
    (hsent : seqno ∈ value.sentList) (hnew : seqno ∉ value.recvList) (time : Rat) :
    { value with
      recvList := value.recvList.insert seqno (some time)
      recvOk := value.recvOk + 1 }.Counted where
  counted := by
    have hcounted := h.counted
    show value.recvOk + 1 + value.recvFail = (value.recvList.insert seqno (some time)).keys.length
    rw [length_keys_insert, if_neg hnew]
    omega
  answered other hother := by
    rcases (AList.mem_insert _).mp hother with rfl | hheld
    · exact hsent
    · exact h.answered other hheld
  sent := h.sent
  bounded := h.bounded

theorem counted_failed (h : value.Counted) {overdue : List Int} (hnodup : overdue.Nodup)
    (hopen : forall seqno, seqno ∈ overdue -> seqno ∈ value.sentList ∧ seqno ∉ value.recvList) :
    { value with
      recvFail := value.recvFail + overdue.length
      recvList := overdue.foldl (fun recvList seqno => recvList.insert seqno none)
        value.recvList }.Counted := by
  induction overdue generalizing value with
  | nil => exact h
  | cons seqno rest ih =>
    rcases hopen seqno mem_cons_self with ⟨hsent, hnew⟩
    rcases nodup_cons.mp hnodup with ⟨hnot, hrest⟩
    have hone : { value with
        recvFail := value.recvFail + 1
        recvList := value.recvList.insert seqno none }.Counted := by
      refine ⟨?_, ?_, h.sent, h.bounded⟩
      · have hcounted := h.counted
        show value.recvOk + (value.recvFail + 1) = (value.recvList.insert seqno none).keys.length
        rw [length_keys_insert, if_neg hnew]
        omega
      · intro other hother
        rcases (AList.mem_insert _).mp hother with rfl | hheld
        · exact hsent
        · exact h.answered other hheld
    have hlater := ih hone hrest fun other hother => by
      rcases hopen other (mem_cons_of_mem seqno hother) with ⟨hotherSent, hotherNew⟩
      refine ⟨hotherSent, ?_⟩
      intro hmem
      rcases (AList.mem_insert _).mp hmem with rfl | hheld
      · exact hnot hother
      · exact hotherNew hheld
    have hlength : value.recvFail + (seqno :: rest).length = value.recvFail + 1 + rest.length := by
      rw [length_cons]
      omega
    rw [hlength]
    exact hlater

theorem counted_failOverdue (h : value.Counted) (now : Rat) :
    (value.failOverdue now).Counted := by
  apply counted_failed h (value.sentList.keys_nodup.filter _)
  intro seqno hseqno
  rcases mem_filter.mp hseqno with ⟨hsent, hopen⟩
  exact ⟨AList.mem_keys.mpr hsent, (of_decide_eq_true hopen).right⟩

end WorkItem

section Filled

variable {V : Type}

theorem lookup_foldl_insert (keys : List Text) (value : V) (dict : Dict Text V) (key : Text) :
    (keys.foldl (fun dict key => dict.insert key value) dict).lookup key =
      if key ∈ keys then some value else dict.lookup key := by
  induction keys generalizing dict with
  | nil => rw [if_neg not_mem_nil, foldl_nil]
  | cons first rest ih =>
    rw [foldl_cons, ih, Dict.lookup_insert_if]
    by_cases hrest : key ∈ rest
    · rw [if_pos hrest, if_pos (mem_cons_of_mem first hrest)]
    · rw [if_neg hrest]
      by_cases hfirst : first = key
      · rw [if_pos hfirst, if_pos (hfirst ▸ mem_cons_self)]
      · rw [if_neg hfirst, if_neg]
        intro hmem
        rcases mem_cons.mp hmem with heq | hlater
        · exact hfirst heq.symm
        · exact hrest hlater

theorem perm_keys_foldl_insert {keys : List Text} (hnodup : keys.Nodup) (value : V) :
    (keys.foldl (fun (dict : Dict Text V) key => dict.insert key value) ∅).keys.Perm keys := by
  apply (perm_ext_iff_of_nodup (AList.keys_nodup _) hnodup).mpr
  intro key
  rw [AList.mem_keys.symm, AList.lookup_isSome.symm, lookup_foldl_insert]
  by_cases h : key ∈ keys
  · rw [if_pos h]
    exact iff_of_true rfl h
  · rw [if_neg h, AList.lookup_empty]
    exact iff_of_false Bool.false_ne_true h

end Filled

variable {results : Dict Text (Option PingTuple)} {tuples : List PingTuple}

theorem some_of_allDone (h : allDone results = some tuples) {key : Text} {value : Option PingTuple}
    (hkey : results.lookup key = some value) : value.isSome = true := by
  unfold allDone at h
  split at h
  · rename_i hall
    exact all_eq_true.mp hall value (Dict.mem_values.mpr ⟨key, hkey⟩)
  · cases h

theorem tuples_of_allDone
    (h : allDone results = some tuples) : tuples = results.values.filterMap id := by
  unfold allDone at h
  split at h
  · exact (Option.some.inj h).symm
  · cases h

namespace Call

def Targeted (call : Call) (key host : Text) : Prop :=
  (key, host) ∈ call.keys.zip (call.targets.map shown)

structure Collects (call : Call) (results : Dict Text (Option PingTuple)) : Prop where
  several : 1 < call.targets.length
  lengths : call.keys.length = call.targets.length
  keys : results.keys.Perm call.keys
  filled : forall key tuple, results.lookup key = some (some tuple) ->
    call.Targeted key tuple.host ∧ tuple.recvOk ≤ tuple.sent ∧ tuple.sent ≤ call.num

theorem collects_insert {call : Call}
    (h : call.Collects results) {key : Text} (hkey : key ∈ results) {tuple : PingTuple}
    (htargeted : call.Targeted key tuple.host)
    (hcounts : tuple.recvOk ≤ tuple.sent ∧ tuple.sent ≤ call.num) :
    call.Collects (results.insert key (some tuple)) where
  several := h.several
  lengths := h.lengths
  keys := by
    rw [AList.keys_insert]
    refine Perm.trans ?_ h.keys
    exact (@perm_cons_erase _ instBEqOfDecidableEq _ _ _ (AList.mem_keys.mp hkey)).symm
  filled other held hheld := by
    rcases Dict.lookup_insert_eq_some.mp hheld with ⟨rfl, heq⟩ | ⟨_, hbefore⟩
    · cases heq
      exact ⟨htargeted, hcounts⟩
    · exact h.filled other held hbefore

def hostOf (value : Option PingTuple) : Text := (value.map PingTuple.host).getD []

theorem map_host_filterMap {values : List (Option PingTuple)}
    (h : forall value, value ∈ values -> value.isSome = true) :
    (values.filterMap id).map PingTuple.host = values.map hostOf := by
  induction values with
  | nil => rfl
  | cons value rest ih =>
    have hrest := ih fun other hother => h other (mem_cons_of_mem value hother)
    rcases Option.isSome_iff_exists.mp (h value mem_cons_self) with ⟨tuple, rfl⟩
    have hid : id (some tuple) = some tuple := rfl
    rw [filterMap_cons_some hid, map_cons, map_cons, hrest]
    rfl

theorem answered_of_collects {call : Call}
    (h : call.Collects results) (hdone : allDone results = some tuples) :
    call.Answered (.group tuples) := by
  have hsome : forall value, value ∈ results.values -> value.isSome = true := by
    intro value hvalue
    rcases Dict.mem_values.mp hvalue with ⟨key, hkey⟩
    exact some_of_allDone hdone hkey
  let pairs := results.items.map fun entry => (entry.1, hostOf entry.2)
  have hfst : pairs.map Prod.fst = results.keys := by
    rw [<- Dict.map_fst_items, map_map]
    rfl
  have hnodup : pairs.Nodup := Nodup.of_map Prod.fst (hfst ▸ results.keys_nodup)
  have hsubset : pairs ⊆ call.keys.zip (call.targets.map shown) := by
    intro pair hpair
    rcases mem_map.mp hpair with ⟨⟨key, value⟩, hmem, rfl⟩
    have hlookup := Dict.mem_items.mp hmem
    rcases Option.isSome_iff_exists.mp (some_of_allDone hdone hlookup) with ⟨tuple, rfl⟩
    exact (h.filled key tuple hlookup).left
  have hlength : (call.keys.zip (call.targets.map shown)).length = pairs.length := by
    rw [length_zip, length_map, h.lengths, Nat.min_self, <- h.lengths,
      <- h.keys.length_eq, <- hfst, length_map]
  have hperm := (hnodup.subperm hsubset).perm_of_length_le hlength.le
  have hhosts : tuples.map PingTuple.host = pairs.map Prod.snd := by
    rw [tuples_of_allDone hdone, map_host_filterMap hsome, map_map]
    show _ = results.items.map (hostOf ∘ Prod.snd)
    rw [<- map_map]
    congr 1
    rw [Dict.values, Dict.items, map_map]
    rfl
  refine ⟨h.several, ?_, ?_⟩
  · rw [hhosts]
    have hsnd := hperm.map Prod.snd
    rw [map_snd_zip (by rw [length_map, h.lengths])] at hsnd
    exact hsnd
  · intro tuple htuple
    rw [tuples_of_allDone hdone] at htuple
    rcases mem_filterMap.mp htuple with ⟨value, hvalue, heq⟩
    have hheld : value = some tuple := heq
    rcases Dict.mem_values.mp hvalue with ⟨key, hkey⟩
    exact (h.filled key tuple (hheld ▸ hkey)).right

end Call

end Icsw.HmDirect
