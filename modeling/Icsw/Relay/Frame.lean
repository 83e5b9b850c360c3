import Icsw.Foundation.Bytes
import Icsw.Foundation.Xml

/-!
# Frames of the command-line client

The client sends its identity, the target and its arguments in one frame..  Fields are separated by
semicolons, and each argument is preceded by its length in bytes.
-/

namespace Icsw.Relay

open Foundation List

/-- `"%s%d;%s;"` -/
def writeArgument (sendBuffer argument : Bytes) : Bytes :=
  sendBuffer ++ encodeUtf8 (formatInt argument.length) ++ encodeUtf8 [';'] ++ argument ++
    encodeUtf8 [';']

/-- The send buffer of `main`. -/
def ccollclientzmqFrame (identityStr hostB : Bytes) (port timeout : Int) (raw : Bool)
    (argv : List Bytes) : Bytes :=
  argv.foldl writeArgument
    (encodeUtf8 [';', '2', ';'] ++ identityStr ++ encodeUtf8 [';'] ++ hostB ++
      encodeUtf8 [';'] ++ encodeUtf8 (formatInt port) ++ encodeUtf8 [';'] ++
      encodeUtf8 (formatInt timeout) ++ encodeUtf8 [';'] ++
      encodeUtf8 (formatInt (if raw then 1 else 0)) ++ encodeUtf8 [';'])

/-- What the relay reads from a `srv_command` that was made from a frame. -/
structure IpcCommand where
  command : Text
  identity : Text
  host : Text
  port : Text
  timeout : Text
  rawConnect : Text
  arguments : List (Text × Text)
  argList : Text
deriving DecidableEq

/-- `parts.insert(index, part)` -/
def insertPart (index : Nat) (part : Text) (parts : List Text) : List Text :=
  parts.take index ++ part :: parts.drop index

/-- `text[:stop]` -/
def sliceTo (stop : Int) (text : Text) : Text :=
  if stop < 0 then text.take (text.length - stop.natAbs) else text.take stop.toNat

/-- `text[start:]` -/
def sliceFrom (start : Int) (text : Text) : Text :=
  if start < 0 then text.drop (text.length - start.natAbs) else text.drop start.toNat

/--
The loop over the arguments.  Each iteration shortens `comPart`, whose length is
therefore fuel enough.
-/
def parseArguments : Nat -> Text -> Except PyError (List Text)
  | 0, comPart => if comPart = [] then .ok [] else .error .valueError
  | less + 1, comPart =>
    match breakOn [';'] comPart with
    | none => if comPart = [] then .ok [] else .error .valueError
    | some (curSize, curStr) =>
      match parseInt curSize with
      | none => .error .valueError
      | some size =>
        (parseArguments less (sliceFrom (size + 1) curStr)).map
          fun argList => sliceTo size curStr :: argList

def argumentName (argIdx : Nat) : Text := ['a', 'r', 'g'] ++ formatInt argIdx

/-- `" ".join(arg_list)` -/
def joinBlank (argList : List Text) : Text := intercalate [' '] argList

/-- The elements of the command; the document library refuses what it cannot carry. -/
def buildCommand (srcId host port timeout rawConnect : Text) (argList : List Text) :
    Except PyError IpcCommand :=
  let command : IpcCommand :=
    { command := argList.headD []
      identity := srcId
      host := host
      port := port
      timeout := timeout
      rawConnect := rawConnect
      arguments := argList.tail.mapIdx fun argIdx arg => (argumentName argIdx, arg)
      argList := joinBlank argList.tail }
  if (srcId :: host :: port :: timeout :: rawConnect :: argList).all legalText then .ok command
  else .error .valueError

def handleParts (parts : List Text) : Except PyError (Option Text × Option IpcCommand) :=
  match parts with
  | srcId :: host :: port :: timeout :: rawConnect :: last :: _ =>
    let comPart := if last.getLast? = some ';' then last.dropLast else last
    match parseArguments comPart.length comPart >>=
      buildCommand srcId host port timeout rawConnect with
    | .ok srvCom => .ok (some srcId, some srvCom)
    | .error _ => .ok (some srcId, none)
  | _ => .error .indexError

def handleVersion (protoVersion data : Text) : Except PyError (Option Text × Option IpcCommand) :=
  match parseInt protoVersion with
  | none => .error .valueError
  | some 0 =>
    handleParts (insertPart 4 ['0'] (insertPart 3 ['1', '0'] (split [';'] 3 data)))
  | some 1 => handleParts (insertPart 4 ['0'] (split [';'] 4 data))
  | some _ => handleParts (split [';'] 5 data)

/-- A byte string is decoded as ASCII by the first comparison with text. -/
def handle (data : Bytes) : Except PyError (Option Text × Option IpcCommand) :=
  match asciiText data with
  | .error raised => .error raised
  | .ok text =>
    if text.count ';' > 1 then
      if text.head? = some ';' then
        match breakOn [';'] (text.drop 1) with
        | none => .error .valueError
        | some (protoVersion, rest) => handleVersion protoVersion rest
      else handleVersion ['0'] text
    else .ok (none, none)

def argumentText (argument : Text) : Text :=
  formatInt (encodeUtf8 argument).length ++ ';' :: argument ++ [';']

/-- The fields after the version. -/
def fieldsText (identity host : Text) (port timeout : Int) (raw : Bool) (args : List Text) : Text :=
  identity ++ ';' :: (host ++ ';' :: (formatInt port ++ ';' :: (formatInt timeout ++ ';' ::
    (formatInt (if raw then 1 else 0) ++ ';' :: args.flatMap argumentText))))

def frameText (identity host : Text) (port timeout : Int) (raw : Bool) (args : List Text) : Text :=
  ';' :: '2' :: ';' :: fieldsText identity host port timeout raw args

theorem foldl_writeArgument (args : List Text) (sendBuffer : Text) :
    (args.map encodeUtf8).foldl writeArgument (encodeUtf8 sendBuffer) =
      encodeUtf8 (sendBuffer ++ args.flatMap argumentText) := by
  induction args generalizing sendBuffer with
  | nil => rw [flatMap_nil, append_nil, map_nil, foldl_nil]
  | cons argument rest ih =>
    have hwrite : writeArgument (encodeUtf8 sendBuffer) (encodeUtf8 argument) =
        encodeUtf8 (sendBuffer ++ argumentText argument) := by
      simp [writeArgument, argumentText, encodeUtf8]
    rw [map_cons, foldl_cons, hwrite, ih, flatMap_cons, append_assoc]

theorem frame_eq_encode (identity host : Text) (port timeout : Int) (raw : Bool)
    (args : List Text) :
    ccollclientzmqFrame (encodeUtf8 identity) (encodeUtf8 host) port timeout raw
        (args.map encodeUtf8) =
      encodeUtf8 (frameText identity host port timeout raw args) := by
  unfold ccollclientzmqFrame
  simp only [← encodeUtf8_append]
  rw [foldl_writeArgument]
  congr 1
  simp [frameText, fieldsText]

/-!
## What the relay makes of a frame

The relay gets back every field and argument of a frame that is ASCII text.  Any
other frame ends its handler before it looks at the fields.
-/

theorem semicolon_not_mem_formatInt (value : Int) : ';' ∉ formatInt value :=
  not_mem_formatInt (by decide) (by decide)

theorem asciiChars_formatInt (value : Int) : asciiChars (formatInt value) = true := by
  apply all_eq_true.mpr
  intro c hc
  exact decide_eq_true (lt_of_le_of_lt (formatInt_char hc).right (by decide))

theorem split_fieldsText {identity host : Text} (hidentity : ';' ∉ identity) (hhost : ';' ∉ host)
    (port timeout : Int) (raw : Bool) (args : List Text) :
    split [';'] 5 (fieldsText identity host port timeout raw args) =
      [identity, host, formatInt port, formatInt timeout, formatInt (if raw then 1 else 0),
        args.flatMap argumentText] := by
  unfold fieldsText
  rw [split_succ_append hidentity, split_succ_append hhost,
    split_succ_append (semicolon_not_mem_formatInt port),
    split_succ_append (semicolon_not_mem_formatInt timeout),
    split_succ_append (semicolon_not_mem_formatInt _)]
  rfl

theorem strip_last_separator (args : List Text) :
    (if (args.flatMap argumentText).getLast? = some ';' then
        (args.flatMap argumentText).dropLast
      else args.flatMap argumentText) = (args.flatMap argumentText).dropLast := by
  cases hargs : args.reverse with
  | nil =>
    rw [reverse_eq_nil_iff.mp hargs]
    rfl
  | cons last before =>
    have heq : args = before.reverse ++ [last] := by
      rw [← reverse_reverse args, hargs, reverse_cons]
    rw [if_pos]
    rw [heq, flatMap_append, flatMap_singleton, argumentText,
      ← append_assoc, getLast?_concat]

theorem drop_one_dropLast (c : Char) (text : Text) : (c :: text).dropLast.drop 1 = text.dropLast := by
  cases text with
  | nil => rfl
  | cons d rest => rfl

theorem parseArguments_flatMap {args : List Text}
    (hascii : forall arg, arg ∈ args -> asciiChars arg = true) {fuel : Nat}
    (hfuel : (args.flatMap argumentText).dropLast.length ≤ fuel) :
    parseArguments fuel (args.flatMap argumentText).dropLast = .ok args := by
  induction args generalizing fuel with
  | nil =>
    cases fuel with
    | zero => rfl
    | succ less => rfl
  | cons arg rest ih =>
    have hlength : (encodeUtf8 arg).length = arg.length := by
      rw [encodeUtf8_ascii (hascii arg mem_cons_self), length_map]
    -- the text of the remaining arguments is dropped together with the separator before it
    have htext : ((arg :: rest).flatMap argumentText).dropLast =
        formatInt arg.length ++ ';' :: (arg ++ (';' :: rest.flatMap argumentText).dropLast) := by
      rw [flatMap_cons, argumentText, hlength]
      simp [dropLast_append_of_ne_nil, dropLast_cons_of_ne_nil]
    rw [htext] at hfuel ⊢
    cases fuel with
    | zero => simp at hfuel
    | succ less =>
      have hsize : ¬ ((arg.length : Int) < 0) := Int.not_lt.mpr (Int.natCast_nonneg _)
      have hnext : ¬ ((arg.length : Int) + 1 < 0) := by omega
      have hless : (rest.flatMap argumentText).dropLast.length ≤ less := by
        simp only [length_append, length_cons, length_dropLast] at hfuel ⊢
        omega
      rw [parseArguments, breakOn_append (semicolon_not_mem_formatInt _)]
      simp only [parseInt_formatInt]
      rw [sliceFrom, if_neg hnext, sliceTo, if_neg hsize, Int.toNat_natCast,
        show ((arg.length : Int) + 1).toNat = arg.length + 1 from rfl, take_left',
        ← drop_drop, drop_left', drop_one_dropLast,
        ih (fun other hother => hascii other (mem_cons_of_mem arg hother)) hless]
      · rfl
      · rfl
      · rfl

/-- The command that the client means. -/
def meantCommand (identity host : Text) (port timeout : Int) (raw : Bool) (args : List Text) :
    IpcCommand where
  command := args.headD []
  identity := identity
  host := host
  port := formatInt port
  timeout := formatInt timeout
  rawConnect := formatInt (if raw then 1 else 0)
  arguments := args.tail.mapIdx fun argIdx arg => (argumentName argIdx, arg)
  argList := joinBlank args.tail

/-- The relay gets the identity and the command that the client means. -/
def RoundTrips (identity host : Text) (port timeout : Int) (raw : Bool) (args : List Text) : Prop :=
  handle (ccollclientzmqFrame (encodeUtf8 identity) (encodeUtf8 host) port timeout raw
      (args.map encodeUtf8)) =
    .ok (some identity, some (meantCommand identity host port timeout raw args))

theorem buildCommand_eq (identity host : Text) (port timeout : Int) (raw : Bool)
    (args : List Text) :
    buildCommand identity host (formatInt port) (formatInt timeout)
        (formatInt (if raw then 1 else 0)) args =
      if (legalText identity && legalText host && args.all legalText) then
        .ok (meantCommand identity host port timeout raw args)
      else .error .valueError := by
  unfold buildCommand
  simp only [all_cons, legalText_formatInt, Bool.true_and, Bool.and_assoc]
  rfl

theorem handle_ascii {identity host : Text} (hidentity : ';' ∉ identity) (hhost : ';' ∉ host)
    {port timeout : Int} {raw : Bool} {args : List Text}
    (hascii : asciiChars (frameText identity host port timeout raw args) = true)
    (hargs : forall arg, arg ∈ args -> asciiChars arg = true) :
    handle (ccollclientzmqFrame (encodeUtf8 identity) (encodeUtf8 host) port timeout raw
        (args.map encodeUtf8)) =
      if (legalText identity && legalText host && args.all legalText) then
        .ok (some identity, some (meantCommand identity host port timeout raw args))
      else .ok (some identity, none) := by
  have hcount : (frameText identity host port timeout raw args).count ';' > 1 := by
    simp [frameText]
  have hversion : breakOn [';'] ((frameText identity host port timeout raw args).drop 1) =
      some (['2'], fieldsText identity host port timeout raw args) :=
    breakOn_append (show ';' ∉ ['2'] by decide) _
  have htwo : parseInt ['2'] = some 2 := by decide
  rw [frame_eq_encode, handle, asciiText_encodeUtf8 hascii]
  simp only [if_pos hcount, hversion]
  rw [if_pos (by rfl), handleVersion, htwo]
  show handleParts (split [';'] 5 (fieldsText identity host port timeout raw args)) = _
  rw [split_fieldsText hidentity hhost, handleParts]
  simp only [strip_last_separator, parseArguments_flatMap hargs (Nat.le_refl _)]
  have hbind : ((Except.ok args : Except PyError (List Text)) >>=
        buildCommand identity host (formatInt port) (formatInt timeout)
          (formatInt (if raw then 1 else 0))) =
      buildCommand identity host (formatInt port) (formatInt timeout)
        (formatInt (if raw then 1 else 0)) args := rfl
  rw [hbind, buildCommand_eq]
  by_cases hlegal : (legalText identity && legalText host && args.all legalText) = true
  · rw [if_pos hlegal, if_pos hlegal]
  · rw [if_neg hlegal, if_neg hlegal]

theorem asciiChars_argumentText (arg : Text) : asciiChars (argumentText arg) = asciiChars arg := by
  have hsemicolon : asciiChars (';' :: arg) = asciiChars arg := rfl
  rw [argumentText, asciiChars_append, asciiChars_append, asciiChars_formatInt, hsemicolon]
  exact Bool.and_true _

theorem asciiChars_frameText (identity host : Text) (port timeout : Int) (raw : Bool)
    (args : List Text) :
    asciiChars (frameText identity host port timeout raw args) =
      (asciiChars identity && (asciiChars host && args.all asciiChars)) := by
  have hcons : forall rest : Text, asciiChars (';' :: rest) = asciiChars rest := fun _ => rfl
  have hargs : asciiChars (args.flatMap argumentText) = args.all asciiChars := by
    unfold asciiChars
    rw [all_flatMap]
    congr 1
    funext arg
    exact asciiChars_argumentText arg
  have hversion : asciiChars (frameText identity host port timeout raw args) =
      asciiChars (fieldsText identity host port timeout raw args) := rfl
  rw [hversion, fieldsText]
  simp only [asciiChars_append, hcons, asciiChars_formatInt, Bool.true_and, hargs]

/--
A frame is understood as it was meant exactly when its identity, host and arguments
are ASCII text, and the identity and the host are such that a document can carry
them.
-/
theorem roundTrips_iff {identity host : Text} (hidentity : ';' ∉ identity) (hhost : ';' ∉ host)
    (port timeout : Int) (raw : Bool) {args : List Text}
    (hlegal : forall arg, arg ∈ args -> legalText arg = true) :
    RoundTrips identity host port timeout raw args <->
      (forall text, text ∈ identity :: host :: args -> asciiChars text = true) ∧
        legalText identity = true ∧ legalText host = true := by
  have hall : args.all legalText = true := all_eq_true.mpr hlegal
  unfold RoundTrips
  cases hframe : asciiChars (frameText identity host port timeout raw args) with
  | false =>
    rw [frame_eq_encode, handle, asciiText_of_not_ascii hframe]
    constructor
    · intro h
      cases h
    · intro h
      rw [asciiChars_frameText, h.left identity mem_cons_self,
        h.left host (mem_cons_of_mem _ mem_cons_self),
        all_eq_true.mpr fun arg harg =>
          h.left arg (mem_cons_of_mem _ (mem_cons_of_mem _ harg))] at hframe
      cases hframe
  | true =>
    have hparts := hframe
    rw [asciiChars_frameText, Bool.and_eq_true, Bool.and_eq_true] at hparts
    have hargs := all_eq_true.mp hparts.right.right
    rw [handle_ascii hidentity hhost hframe hargs, hall, Bool.and_true]
    constructor
    · intro h
      have hboth : (legalText identity && legalText host) = true := by
        by_contra hnot
        rw [if_neg hnot] at h
        cases h
      rw [Bool.and_eq_true] at hboth
      refine ⟨?_, hboth⟩
      intro text htext
      rcases mem_cons.mp htext with heq | hrest
      · rw [heq]
        exact hparts.left
      · rcases mem_cons.mp hrest with heq | harg
        · rw [heq]
          exact hparts.right.left
        · exact hargs text harg
    · intro h
      rw [h.right.left, h.right.right]
      rfl

/-- A client on `node` asks the host `web1` for the load and a text with a separator. -/
theorem load_roundTrips :
    RoundTrips "node:cczmq:17".toList "web1".toList 2001 15 false
      ["load".toList, "a;1".toList, []] :=
  (roundTrips_iff (by decide) (by decide) 2001 15 false
    (by decide)).mpr (by decide)

/-- An umlaut in an argument ends the handler. -/
theorem umlaut_not_roundTrips :
    ¬ RoundTrips "node:cczmq:17".toList "web1".toList 2001 15 false
      ["disk".toList, "/home/jörg".toList] := by
  unfold RoundTrips
  decide +kernel

end Icsw.Relay
