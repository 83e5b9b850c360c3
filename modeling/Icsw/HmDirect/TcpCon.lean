import Icsw.Foundation.Bytes
import Icsw.Foundation.Decimal
import Icsw.Foundation.Run
import Mathlib.Data.List.Nodup
import Mathlib.Data.Nat.Digits.Defs

/-!
# TCP connections of the relay

A command is sent to a host over a socket of its own, and what comes back is given to the main
process.  The handlers of a socket are called by the event loop of the process.
-/

namespace Icsw.HmDirect

open Foundation List

/-- The bodies whose length has eight digits at most. -/
structure ReplyBody where
  bytes : Bytes
  length_lt : bytes.length < 100000000

def ReplyBody.frame (body : ReplyBody) : Bytes :=
  encodeUtf8 (numeral 8 body.bytes.length) ++ body.bytes

/-- `"{:02x}".format(ord(char))` -/
def hexByte (byte : UInt8) : Text :=
  [Nat.digitChar (byte.toNat / 16), Nat.digitChar (byte.toNat % 16)]

def chars (data : Bytes) : Text := data.map fun byte => Char.ofNat byte.toNat

/-- The body that is found behind its length, or why there is none. -/
def parseReply (data : Bytes) : Except Text Bytes :=
  let head := chars (data.take 8)
  if head ≠ [] ∧ head.all Char.isDigit = true then
    let len := digitsValue head
    if len + 8 = data.length then .ok (data.drop 8)
    else .error ("wrong length: ".toList ++ formatInt len ++ " (header) != ".toList ++
      formatInt ((data.length : Int) - 8) ++ " (body)".toList)
  else .error ("wrong header: ".toList ++ intercalate [':'] ((data.take 8).map hexByte))

/-- Which handlers are registered: those of a socket that can be written, or that of one that can
be read. -/
inductive Phase where
  | sending
  | receiving
deriving DecidableEq

structure TcpCon where
  id : Nat
  srcId : Text
  srvCom : Text
  startTime : Rat
  phase : Phase
  /-- What the other side replies. -/
  reply : ReplyBody
  /-- What has not been read of it. -/
  unread : Bytes

/-- Where `send_result` is called, with what was received. -/
inductive Cause where
  | resolving
  | polled
  | sending
  | receiving
  | segment (data : Bytes)

inductive ResultData where
  | text (text : Text)
  | bytes (data : Bytes)

structure SocketResult where
  con : TcpCon
  data : ResultData
  isError : Bool
  cause : Cause

structure SocketProcess where
  /-- How many connections there have been. -/
  created : Nat
  pending : List TcpCon
  results : List SocketResult
  ended : Bool

inductive Event where
  /-- A command for a host, whose port is none if it is no number. -/
  | connection (srcId srvCom host : Text) (port : Option Int) (resolved : Bool) (reply : ReplyBody)
      (now : Rat)
  | pollOut (id : Nat) (raised : Option Text)
  | pollErr (id : Nat)
  /-- As many bytes can be read, none if the other side has closed. -/
  | pollIn (id : Nat) (arrived : Except Text Nat)
  | checkTimeout (now : Rat)

namespace SocketProcess

def initial : SocketProcess := ⟨0, [], [], false⟩

variable (process : SocketProcess)

/-- `send_result`, and `close` of the connection. -/
def sendResult (result : SocketResult) : SocketProcess :=
  { process with
    pending := process.pending.filter fun con => con.id ≠ result.con.id
    results := process.results ++ [result] }

/-- `TCPCon.__init__` -/
def connection (srcId srvCom host : Text) (port : Option Int)
    (resolved : Bool) (reply : ReplyBody) (now : Rat) : SocketProcess :=
  match port with
  | none => { process with ended := true }
  | some port =>
    let con := ⟨process.created, srcId, srvCom, now, .sending, reply, reply.frame⟩
    let process := { process with created := process.created + 1 }
    if resolved then
      -- A port that is out of range raises an exception that is no error of a socket.
      { process with
        pending := process.pending ++ [con]
        ended := decide (¬ (0 ≤ port ∧ port ≤ 65535)) }
    else
      { process with
        results := process.results ++
          [⟨con, .text ("error resolving host '".toList ++ host ++ ['\'']), true, .resolving⟩] }

def receiving (id : Nat) (con : TcpCon) : TcpCon :=
  if con.id = id then { con with phase := .receiving } else con

def send (con : TcpCon) (raised : Option Text) : SocketProcess :=
  match raised with
  | some text =>
    process.sendResult ⟨con, .text ("error sending TCP: ".toList ++ text), true, .sending⟩
  | none => { process with pending := process.pending.map (receiving con.id) }

def recv (con : TcpCon) (arrived : Except Text Nat) : SocketResult :=
  match arrived with
  | .error raised => ⟨con, .text ("error recv problem: ".toList ++ raised), true, .receiving⟩
  | .ok size =>
    let data := con.unread.take (min size 2048)
    match parseReply data with
    | .ok body => ⟨con, .bytes body, false, .segment data⟩
    | .error text => ⟨con, .text ("error ".toList ++ text), true, .segment data⟩

def overdue (now : Rat) (con : TcpCon) : Bool := decide (|con.startTime - now| > 20)

def handlerOf (id : Nat) (phase : Phase) : Option TcpCon :=
  process.pending.find? fun con => con.id = id ∧ con.phase = phase

def step (event : Event) : SocketProcess :=
  if process.ended then process
  else match event with
    | .connection srcId srvCom host port resolved reply now =>
      process.connection srcId srvCom host port resolved reply now
    | .pollOut id raised =>
      ((process.handlerOf id .sending).map fun con => process.send con raised).getD process
    | .pollErr id =>
      ((process.handlerOf id .sending).map fun con =>
        process.sendResult ⟨con, .text "error in sending".toList, true, .polled⟩).getD process
    | .pollIn id arrived =>
      ((process.handlerOf id .receiving).map fun con =>
        process.sendResult (recv con arrived)).getD process
    | .checkTimeout now =>
      { process with pending := process.pending.filter fun con => !overdue now con }

end SocketProcess

theorem chars_encodeUtf8 {text : Text} (h : asciiChars text = true) :
    chars (encodeUtf8 text) = text := by
  have hascii := asciiText_encodeUtf8 h
  unfold asciiText at hascii
  split at hascii
  · exact Except.ok.inj hascii
  · cases hascii

theorem asciiChars_numeral (width value : Nat) : asciiChars (numeral width value) = true := by
  apply all_eq_true.mpr
  intro c hc
  have hdigit := digits_numeral width value c hc
  have hcodes : (decide (48 ≤ c.val) && decide (c.val ≤ 57)) = true := hdigit
  simp only [Bool.and_eq_true, decide_eq_true_iff, UInt32.le_iff_toNat_le] at hcodes
  exact decide_eq_true (Nat.lt_of_le_of_lt hcodes.right (by decide))

namespace ReplyBody

variable (body : ReplyBody)

theorem length_header : (encodeUtf8 (numeral 8 body.bytes.length)).length = 8 := by
  have hdigits : (Nat.toDigits 10 body.bytes.length).length ≤ 8 :=
    Nat.toDigits_length 10 _ 8 (by decide) body.length_lt
  rw [encodeUtf8_ascii (asciiChars_numeral _ _), length_map, length_numeral]
  omega

theorem length_frame : body.frame.length = 8 + body.bytes.length := by
  rw [frame, length_append, length_header]

variable {size : Nat}

theorem take_frame (hsize : 8 ≤ size) :
    chars ((body.frame.take size).take 8) = numeral 8 body.bytes.length := by
  rw [take_take, Nat.min_eq_left hsize, frame, take_left' body.length_header,
    chars_encodeUtf8 (asciiChars_numeral _ _)]

theorem parseReply_take (hsize : 8 ≤ size) :
    parseReply (body.frame.take size) =
      if body.bytes.length + 8 = (body.frame.take size).length then
        .ok ((body.frame.take size).drop 8)
      else .error ("wrong length: ".toList ++ formatInt body.bytes.length ++
        " (header) != ".toList ++ formatInt (((body.frame.take size).length : Int) - 8) ++
          " (body)".toList) := by
  unfold parseReply
  simp only [body.take_frame hsize, digitsValue_numeral]
  rw [if_pos ⟨numeral_ne_nil _ _, all_eq_true.mpr (digits_numeral _ _)⟩]

theorem parseReply_whole (hsize : body.frame.length ≤ size) :
    parseReply (body.frame.take size) = .ok body.bytes := by
  have hlength := body.length_frame
  rw [parseReply_take body (by omega), take_of_length_le hsize, hlength,
    if_pos (Nat.add_comm _ _), frame, drop_left' body.length_header]

theorem parseReply_part (hsize : size < body.frame.length) :
    exists text, parseReply (body.frame.take size) = .error text := by
  have hlength : (body.frame.take size).length = size := length_take_of_le (Nat.le_of_lt hsize)
  by_cases hheader : 8 ≤ size
  · rw [body.length_frame] at hsize
    rw [parseReply_take body hheader, hlength, if_neg (by omega)]
    exact ⟨_, rfl⟩
  · unfold parseReply
    dsimp only
    rw [hlength]
    split
    · rw [if_neg (by omega)]
      exact ⟨_, rfl⟩
    · exact ⟨_, rfl⟩

end ReplyBody

namespace SocketProcess

/-- A connection has one result as soon as it is not pending any more, and what was received gives
the body of the reply. -/
structure Delivers (process : SocketProcess) : Prop where
  once : forall id, id < process.created ->
    process.results.countP (fun result => result.con.id = id) =
      if id ∈ process.pending.map TcpCon.id then 0 else 1
  whole : forall result, result ∈ process.results -> forall data, result.cause = .segment data ->
    data ≠ [] -> result.data = .bytes result.con.reply.bytes ∧ result.isError = false

structure Inv (process : SocketProcess) : Prop where
  delivers : process.Delivers
  nodup : (process.pending.map TcpCon.id).Nodup
  known : forall con, con ∈ process.pending ->
    con.id < process.created ∧ con.unread = con.reply.frame
  old : forall result, result ∈ process.results -> result.con.id < process.created

theorem inv_initial : initial.Inv where
  delivers := ⟨nofun, nofun⟩
  nodup := nodup_nil
  known := nofun
  old := nofun

variable {process : SocketProcess}

theorem mem_pending_filter {keep : TcpCon -> Bool} {id : Nat}
    (hkeep : forall con, con ∈ process.pending -> (keep con = true <-> con.id ≠ id)) {other : Nat} :
    other ∈ (process.pending.filter keep).map TcpCon.id <->
      other ∈ process.pending.map TcpCon.id ∧ other ≠ id := by
  constructor
  · intro h
    rcases mem_map.mp h with ⟨con, hcon, rfl⟩
    rcases mem_filter.mp hcon with ⟨hmem, hkept⟩
    exact ⟨mem_map_of_mem hmem, (hkeep con hmem).mp hkept⟩
  · rintro ⟨h, hne⟩
    rcases mem_map.mp h with ⟨con, hcon, rfl⟩
    exact mem_map_of_mem (mem_filter.mpr ⟨hcon, (hkeep con hcon).mpr hne⟩)

theorem inv_sendResult (h : process.Inv) {result : SocketResult}
    (hcon : result.con ∈ process.pending) (hwhole : forall data, result.cause = .segment data ->
      data ≠ [] -> result.data = .bytes result.con.reply.bytes ∧ result.isError = false) :
    (process.sendResult result).Inv := by
  have hpending : forall {other}, other ∈ (process.sendResult result).pending.map TcpCon.id <->
      other ∈ process.pending.map TcpCon.id ∧ other ≠ result.con.id :=
    mem_pending_filter fun con _ => decide_eq_true_iff
  refine ⟨⟨?_, ?_⟩, ?_, ?_, ?_⟩
  · intro id hid
    have hbefore := h.delivers.once id hid
    show (process.results ++ [result]).countP _ = _
    rw [countP_append, hbefore]
    by_cases hsame : id = result.con.id
    · subst hsame
      rw [if_pos (mem_map_of_mem hcon), if_neg fun hmem => (hpending.mp hmem).right rfl]
      simp
    · have hother : ¬ (result.con.id = id) := fun heq => hsame heq.symm
      have hiff : id ∈ (process.sendResult result).pending.map TcpCon.id <->
          id ∈ process.pending.map TcpCon.id :=
        hpending.trans (and_iff_left hsame)
      simp only [hiff]
      simp [hother]
  · intro other hother
    rcases mem_append.mp hother with hheld | hnew
    · exact h.delivers.whole other hheld
    · cases mem_singleton.mp hnew
      exact hwhole
  · exact h.nodup.sublist (filter_sublist.map _)
  · intro con hmem
    exact h.known con (mem_filter.mp hmem).left
  · intro other hother
    rcases mem_append.mp hother with hheld | hnew
    · exact h.old other hheld
    · cases mem_singleton.mp hnew
      exact (h.known _ hcon).left

theorem inv_connection (h : process.Inv) (srcId srvCom host : Text)
    (port : Option Int) (resolved : Bool) (reply : ReplyBody) (now : Rat) :
    (process.connection srcId srvCom host port resolved reply now).Inv := by
  have hnone : process.results.countP (fun result => result.con.id = process.created) = 0 := by
    apply countP_eq_zero.mpr
    intro result hresult heq
    exact Nat.lt_irrefl _ (of_decide_eq_true heq ▸ h.old result hresult)
  have hfresh : process.created ∉ process.pending.map TcpCon.id := by
    intro hmem
    rcases mem_map.mp hmem with ⟨con, hcon, heq⟩
    exact Nat.lt_irrefl _ (heq ▸ (h.known con hcon).left)
  have hbelow : forall {id}, id < process.created + 1 -> id ≠ process.created ->
      id < process.created := fun hlt hne => Nat.lt_of_le_of_ne (Nat.le_of_lt_succ hlt) hne
  unfold connection
  rcases port with _ | port
  · exact ⟨⟨h.delivers.once, h.delivers.whole⟩, h.nodup, h.known, h.old⟩
  · cases resolved with
    | true =>
      refine ⟨⟨?_, h.delivers.whole⟩, ?_, ?_, ?_⟩
      · intro id hid
        show process.results.countP _ =
          if id ∈ (process.pending ++ [_]).map TcpCon.id then 0 else 1
        rw [map_append, map_singleton]
        by_cases hsame : id = process.created
        · subst hsame
          rw [hnone, if_pos (mem_append_right _ mem_cons_self)]
        · have hiff : id ∈ process.pending.map TcpCon.id ++ [process.created] <->
              id ∈ process.pending.map TcpCon.id := by
            simp [hsame]
          rw [h.delivers.once id (hbelow hid hsame)]
          simp only [hiff]
      · show ((process.pending ++ [_]).map TcpCon.id).Nodup
        rw [map_append, map_singleton]
        refine nodup_append.mpr
          ⟨h.nodup, nodup_cons.mpr ⟨not_mem_nil, nodup_nil⟩, ?_⟩
        rintro id hid other hother rfl
        cases mem_singleton.mp hother
        exact hfresh hid
      · intro con hcon
        rcases mem_append.mp hcon with hheld | hnew
        · exact ⟨Nat.lt_succ_of_lt (h.known con hheld).left, (h.known con hheld).right⟩
        · cases mem_singleton.mp hnew
          exact ⟨Nat.lt_succ_self _, rfl⟩
      · intro result hresult
        exact Nat.lt_succ_of_lt (h.old result hresult)
    | false =>
      refine ⟨⟨?_, ?_⟩, h.nodup, ?_, ?_⟩
      · intro id hid
        show (process.results ++ [_]).countP _ =
          if id ∈ process.pending.map TcpCon.id then 0 else 1
        rw [countP_append]
        by_cases hsame : id = process.created
        · subst hsame
          rw [hnone, if_neg hfresh]
          simp
        · have hother : ¬ (process.created = id) := fun heq => hsame heq.symm
          rw [h.delivers.once id (hbelow hid hsame)]
          simp [hother]
      · intro result hresult data hcause
        rcases mem_append.mp hresult with hheld | hnew
        · exact h.delivers.whole result hheld data hcause
        · cases mem_singleton.mp hnew
          cases hcause
      · intro con hcon
        exact ⟨Nat.lt_succ_of_lt (h.known con hcon).left, (h.known con hcon).right⟩
      · intro result hresult
        rcases mem_append.mp hresult with hheld | hnew
        · exact Nat.lt_succ_of_lt (h.old result hheld)
        · cases mem_singleton.mp hnew
          exact Nat.lt_succ_self _

theorem inv_phases (h : process.Inv) (id : Nat) :
    { process with pending := process.pending.map (receiving id) }.Inv := by
  have hkept : forall con : TcpCon, (receiving id con).id = con.id ∧
      (receiving id con).unread = con.unread ∧ (receiving id con).reply = con.reply := by
    intro con
    unfold receiving
    split
    · exact ⟨rfl, rfl, rfl⟩
    · exact ⟨rfl, rfl, rfl⟩
  have hids : (process.pending.map (receiving id)).map TcpCon.id =
      process.pending.map TcpCon.id := by
    rw [map_map]
    exact map_congr_left fun con _ => (hkept con).left
  refine ⟨⟨?_, h.delivers.whole⟩, ?_, ?_, h.old⟩
  · intro other hother
    rw [h.delivers.once other hother]
    simp only [hids]
  · rw [hids]
    exact h.nodup
  · intro con hcon
    rcases mem_map.mp hcon with ⟨before, hbefore, rfl⟩
    rcases hkept before with ⟨hid, hunread, hreply⟩
    rw [hid, hunread, hreply]
    exact h.known before hbefore

/-- No connection has waited for too long, and the first bytes that are received of a reply are all
of it. -/
def Admissible (process : SocketProcess) : Event -> Prop
  | .checkTimeout now => process.ended = true ∨
      forall con, con ∈ process.pending -> overdue now con = false
  | .pollIn id (.ok size) => process.ended = true ∨
      forall con, process.handlerOf id .receiving = some con ->
        size = 0 ∨ con.reply.frame.length ≤ min size 2048
  | _ => True

theorem handlerOf_mem {id : Nat} {phase : Phase} {con : TcpCon}
    (h : process.handlerOf id phase = some con) : con ∈ process.pending :=
  mem_of_find?_eq_some h

theorem recv_cause (con : TcpCon) (size : Nat) :
    (recv con (.ok size)).cause = .segment (con.unread.take (min size 2048)) := by
  unfold recv
  dsimp only
  split <;> rfl

theorem recv_whole {con : TcpCon} (hunread : con.unread = con.reply.frame) {size : Nat}
    (hsize : size = 0 ∨ con.reply.frame.length ≤ min size 2048) {data : Bytes}
    (hcause : (recv con (.ok size)).cause = .segment data) (hne : data ≠ []) :
    (recv con (.ok size)).data = .bytes con.reply.bytes ∧
      (recv con (.ok size)).isError = false := by
  rcases hsize with rfl | hwhole
  · rw [recv_cause] at hcause
    cases hcause
    exact absurd rfl hne
  · unfold recv
    dsimp only
    rw [hunread, con.reply.parseReply_whole hwhole]
    exact ⟨rfl, rfl⟩

theorem recv_part {con : TcpCon} (hunread : con.unread = con.reply.frame) {size : Nat}
    (hpart : min size 2048 < con.reply.frame.length) : (recv con (.ok size)).isError = true := by
  rcases con.reply.parseReply_part hpart with ⟨text, htext⟩
  unfold recv
  dsimp only
  rw [hunread, htext]

theorem recv_con (con : TcpCon) (arrived : Except Text Nat) : (recv con arrived).con = con := by
  unfold recv
  rcases arrived with raised | size
  · rfl
  · dsimp only
    split <;> rfl

theorem inv_step (process : SocketProcess) (event : Event) (h : process.Inv)
    (hok : process.Admissible event) : (process.step event).Inv := by
  unfold step
  by_cases hended : process.ended = true
  · rw [if_pos hended]
    exact h
  · rw [if_neg hended]
    cases event with
    | connection srcId srvCom host port resolved reply now =>
      exact inv_connection h srcId srvCom host port resolved reply now
    | pollOut id raised =>
      dsimp only
      rcases hhandler : process.handlerOf id .sending with _ | con
      · exact h
      · rcases raised with _ | text
        · exact inv_phases h con.id
        · exact inv_sendResult h (handlerOf_mem hhandler) nofun
    | pollErr id =>
      dsimp only
      rcases hhandler : process.handlerOf id .sending with _ | con
      · exact h
      · exact inv_sendResult h (handlerOf_mem hhandler) nofun
    | pollIn id arrived =>
      dsimp only
      rcases hhandler : process.handlerOf id .receiving with _ | con
      · exact h
      · have hmem := handlerOf_mem hhandler
        apply inv_sendResult h
        · rw [recv_con]
          exact hmem
        · intro data hcause hne
          rcases arrived with raised | size
          · cases hcause
          · have hsize := (hok.resolve_left hended) con hhandler
            rw [recv_con]
            exact recv_whole (h.known con hmem).right hsize hcause hne
    | checkTimeout now =>
      have hkept : process.pending.filter (fun con => !overdue now con) = process.pending := by
        apply filter_eq_self.mpr
        intro con hcon
        rw [(hok.resolve_left hended) con hcon]
        rfl
      dsimp only
      rw [hkept]
      exact h

/-- A step that is not admissible leaves a connection without a result, or a reply that is not
delivered. -/
theorem not_delivers_step (process : SocketProcess) (event : Event) (h : process.Inv)
    (hnot : ¬ process.Admissible event) : ¬ (process.step event).Delivers := by
  intro hdelivers
  unfold step at hdelivers
  cases event with
  | connection srcId srvCom host port resolved reply now => exact hnot trivial
  | pollOut id raised => exact hnot trivial
  | pollErr id => exact hnot trivial
  | pollIn id arrived =>
    rcases arrived with raised | size
    · exact hnot trivial
    · rcases not_or.mp hnot with ⟨hended, hall⟩
      rcases not_forall.mp hall with ⟨con, hcon⟩
      rcases Classical.not_imp.mp hcon with ⟨hhandler, hsize⟩
      rcases not_or.mp hsize with ⟨hzero, hpart⟩
      have hunread := (h.known con (handlerOf_mem hhandler)).right
      rw [if_neg hended] at hdelivers
      simp only [hhandler, Option.map_some, Option.getD_some] at hdelivers
      have hwhole := hdelivers.whole (recv con (.ok size))
        (mem_append_right _ mem_cons_self) _ (recv_cause con size)
      have hlength := con.reply.length_frame
      have hne : con.unread.take (min size 2048) ≠ [] := by
        apply ne_nil_of_length_pos
        rw [hunread, length_take]
        omega
      rw [recv_part hunread (Nat.lt_of_not_le hpart)] at hwhole
      cases (hwhole hne).right
  | checkTimeout now =>
    rcases not_or.mp hnot with ⟨hended, hall⟩
    rcases not_forall.mp hall with ⟨con, hcon⟩
    rcases Classical.not_imp.mp hcon with ⟨hmem, hoverdue⟩
    rw [if_neg hended] at hdelivers
    dsimp only at hdelivers
    have hbefore := h.delivers.once con.id (h.known con hmem).left
    have hafter := hdelivers.once con.id (h.known con hmem).left
    rw [if_pos (mem_map_of_mem hmem)] at hbefore
    have hgone : con.id ∉ (process.pending.filter fun con => !overdue now con).map TcpCon.id := by
      intro hid
      rcases mem_map.mp hid with ⟨other, hother, heq⟩
      rcases mem_filter.mp hother with ⟨hheld, hkept⟩
      cases inj_on_of_nodup_map h.nodup hheld hmem heq
      rw [Bool.not_eq_true'] at hkept
      exact hoverdue hkept
    rw [if_neg hgone, hbefore] at hafter
    cases hafter

/-- Every connection is answered once and with the whole reply exactly if the steps are
admissible. -/
theorem delivers_runs_iff (events : List Event) :
    (forall taken rest, events = taken ++ rest -> (run step initial taken).Delivers) <->
      Along step Admissible initial events :=
  reached_iff_along step inv_step (fun _ h => h.delivers) not_delivers_step inv_initial events

/-- A reply of two bytes that arrives in two parts. -/
theorem cut_reply_not_delivered : ¬ forall events : List Event, forall taken rest,
    events = taken ++ rest -> (run step initial taken).Delivers := by
  intro h
  have hdelivers := h [.connection [] [] [] (some 2001) true ⟨[79, 75], by decide⟩ 0,
    .pollOut 0 none, .pollIn 0 (.ok 9)] _ [] (append_nil _).symm
  have hwhole := hdelivers.whole _ mem_cons_self _ rfl
  cases (hwhole (cons_ne_nil _ _)).right

/-- The connections that have a result, and those that wait for one. -/
def ids (process : SocketProcess) : List Nat :=
  (process.results.map fun result => result.con.id) ++ process.pending.map TcpCon.id

structure Safe (process : SocketProcess) : Prop where
  distinct : process.ids.Nodup
  below : forall id, id ∈ process.ids -> id < process.created
  unread : forall con, con ∈ process.pending -> con.unread = con.reply.frame
  sound : forall result, result ∈ process.results -> result.isError = false ->
    result.data = .bytes result.con.reply.bytes

theorem safe_sendResult (h : process.Safe) {result : SocketResult}
    (hcon : result.con ∈ process.pending)
    (hsound : result.isError = false -> result.data = .bytes result.con.reply.bytes) :
    (process.sendResult result).Safe := by
  have hpending : (process.pending.filter fun con => con.id ≠ result.con.id).map TcpCon.id =
      (process.pending.map TcpCon.id).erase result.con.id := by
    rw [(nodup_append.mp h.distinct).right.left.erase_eq_filter, filter_map]
    congr 2
    funext con
    simp [bne, BEq.beq]
  have hperm : (process.sendResult result).ids.Perm process.ids := by
    unfold ids sendResult
    rw [map_append, append_assoc, hpending]
    exact (perm_cons_erase (mem_map_of_mem hcon)).symm.append_left _
  exact {
    distinct := hperm.nodup_iff.mpr h.distinct
    below := fun id hid => h.below id (hperm.mem_iff.mp hid)
    unread := fun con hmem => h.unread con (mem_filter.mp hmem).left
    sound := forall_mem_append.mpr ⟨h.sound, forall_mem_singleton.mpr hsound⟩ }

theorem safe_connection (h : process.Safe) (srcId srvCom host : Text) (port : Option Int)
    (resolved : Bool) (reply : ReplyBody) (now : Rat) :
    (process.connection srcId srvCom host port resolved reply now).Safe := by
  have hdistinct : (process.ids ++ [process.created]).Nodup :=
    h.distinct.append (nodup_singleton _)
      (disjoint_singleton.mpr fun hmem => Nat.lt_irrefl _ (h.below _ hmem))
  have hbelow : forall id, id ∈ process.ids ++ [process.created] -> id < process.created + 1 :=
    forall_mem_append.mpr ⟨fun id hid => Nat.lt_succ_of_lt (h.below id hid),
      forall_mem_singleton.mpr (Nat.lt_succ_self _)⟩
  unfold connection
  rcases port with _ | port
  · exact ⟨h.distinct, h.below, h.unread, h.sound⟩
  · cases resolved with
    | true =>
      refine ⟨?_, ?_, forall_mem_append.mpr ⟨h.unread, forall_mem_singleton.mpr rfl⟩, h.sound⟩
      · simpa [ids] using hdistinct
      · simpa [ids] using hbelow
    | false =>
      have hperm : forall sent waiting : List Nat, (sent ++ [process.created] ++ waiting).Perm
          (sent ++ waiting ++ [process.created]) := by
        intro sent waiting
        rw [append_assoc, append_assoc]
        exact perm_append_comm.append_left sent
      refine ⟨?_, ?_, h.unread, forall_mem_append.mpr ⟨h.sound, forall_mem_singleton.mpr nofun⟩⟩
      · simpa [ids] using (hperm _ _).nodup_iff.mpr hdistinct
      · simpa [ids] using fun id hid => hbelow id ((hperm _ _).mem_iff.mp hid)

theorem safe_pending (h : process.Safe) {pending : List TcpCon}
    (hsub : (pending.map TcpCon.id).Sublist (process.pending.map TcpCon.id))
    (hunread : forall con, con ∈ pending -> con.unread = con.reply.frame) :
    { process with pending := pending }.Safe :=
  have hids : { process with pending := pending }.ids.Sublist process.ids := hsub.append_left _
  ⟨h.distinct.sublist hids, fun id hid => h.below id (hids.subset hid), hunread, h.sound⟩

/-- Before a whole reply has arrived there is nothing but an error. -/
theorem sound_recv {con : TcpCon} (hunread : con.unread = con.reply.frame)
    (arrived : Except Text Nat) (hok : (recv con arrived).isError = false) :
    (recv con arrived).data = .bytes (recv con arrived).con.reply.bytes := by
  rcases arrived with raised | size
  · cases hok
  · rw [recv_con]
    rcases Nat.lt_or_ge (min size 2048) con.reply.frame.length with hpart | hwhole
    · rw [recv_part hunread hpart] at hok
      cases hok
    · refine (recv_whole hunread (Or.inr hwhole) (recv_cause con size) fun hnil => ?_).left
      have hlength := con.reply.length_frame
      rw [hunread, take_eq_nil_iff, ← length_eq_zero_iff] at hnil
      omega

theorem safe_step (process : SocketProcess) (event : Event) (h : process.Safe) :
    (process.step event).Safe := by
  unfold step
  split
  · exact h
  · cases event with
    | connection srcId srvCom host port resolved reply now =>
      exact safe_connection h srcId srvCom host port resolved reply now
    | pollOut id raised =>
      dsimp only
      rcases hhandler : process.handlerOf id .sending with _ | con
      · exact h
      · rcases raised with _ | text
        · refine safe_pending h ?_ ?_
          · rw [map_map, map_congr_left fun other _ => ?_]
            show (receiving con.id other).id = other.id
            unfold receiving
            split <;> rfl
          · intro other hother
            rcases mem_map.mp hother with ⟨before, hbefore, rfl⟩
            unfold receiving
            split
            · exact h.unread before hbefore
            · exact h.unread before hbefore
        · exact safe_sendResult h (handlerOf_mem hhandler) nofun
    | pollErr id =>
      dsimp only
      rcases hhandler : process.handlerOf id .sending with _ | con
      · exact h
      · exact safe_sendResult h (handlerOf_mem hhandler) nofun
    | pollIn id arrived =>
      dsimp only
      rcases hhandler : process.handlerOf id .receiving with _ | con
      · exact h
      · have hmem := handlerOf_mem hhandler
        exact safe_sendResult h (by rwa [recv_con]) (sound_recv (h.unread con hmem) arrived)
    | checkTimeout now =>
      exact safe_pending h (filter_sublist.map _) fun con hcon =>
        h.unread con (mem_filter.mp hcon).left

/-- In every run a connection has one result at most, and what is no error is the whole reply. -/
theorem results_are_safe (events : List Event) :
    ((run step initial events).results.map fun result => result.con.id).Nodup ∧
      forall result, result ∈ (run step initial events).results -> result.isError = false ->
        result.data = .bytes result.con.reply.bytes := by
  have hinitial : initial.Safe := ⟨nodup_nil, forall_mem_nil _, forall_mem_nil _, forall_mem_nil _⟩
  have h := invariant_of_step step safe_step hinitial events
  exact ⟨(nodup_append.mp h.distinct).left, h.sound⟩

end SocketProcess

end Icsw.HmDirect
