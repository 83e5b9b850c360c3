import Icsw.LogReader.Model

/-!
# Well-formed lines

What a line says, independent of how it is read..  The reader agrees with this on all lines but some;
each of the others makes it raise or store a record without a host.
-/

namespace Icsw.LogReader

open Foundation
open StatusHistory (HostAlertState ServiceAlertState StateType StartStop)

variable (known : Known)

/-- Host and service of a service line, whose identifiers must be numbers. -/
def describeService (hostSpec serviceSpec : Text) : Option (Nat × ServiceId) :=
  (parseHostService known hostSpec serviceSpec).toOption

def describeHostAlert (logRotationState initialState : Bool) :
    List Text -> Option (Nat × Record × Text)
  | [hostSpec, stateField, typeField, _, msg] => do
      let host ← truthy (resolveHost known hostSpec)
      let state ← hostStates.lookup stateField
      let stateType ← stateTypes.lookup typeField
      return (host, .hostAlert ⟨state, stateType, logRotationState, initialState⟩, msg)
  | _ => none

def describeServiceAlert (logRotationState initialState : Bool) :
    List Text -> Option (Nat × Record × Text)
  | [hostSpec, serviceSpec, stateField, typeField, _, msg] => do
      let (host, service) ← describeService known hostSpec serviceSpec
      let state ← serviceStates.lookup stateField
      let stateType ← stateTypes.lookup typeField
      return (host, .serviceAlert service ⟨state, stateType, logRotationState, initialState⟩,
        msg)
  | _ => none

def describeHostStartStop (record : StartStop -> Record) :
    List Text -> Option (Nat × Record × Text)
  | [hostSpec, stateField, msg] => do
      let state ← startStops.lookup stateField
      let host ← truthy (resolveHost known hostSpec)
      return (host, record state, msg)
  | _ => none

def describeServiceStartStop (record : ServiceId -> StartStop -> Record) :
    List Text -> Option (Nat × Record × Text)
  | [hostSpec, serviceSpec, stateField, msg] => do
      let (host, service) ← describeService known hostSpec serviceSpec
      let state ← startStops.lookup stateField
      return (host, record service state, msg)
  | _ => none

def describeHostNotification : List Text -> Option (Nat × Record × Text)
  | [user, hostSpec, stateField, notificationType, msg] => do
      let state ← hostStates.lookup stateField
      let host ← truthy (resolveHost known hostSpec)
      return (host, .hostNotification ⟨state, user, notificationType⟩, msg)
  | _ => none

def describeServiceNotification : List Text -> Option (Nat × Record × Text)
  | [user, hostSpec, serviceSpec, stateField, notificationType, msg] => do
      let (host, service) ← describeService known hostSpec serviceSpec
      let state ← serviceStates.lookup stateField
      return (host, .serviceNotification service ⟨state, user, notificationType⟩, msg)
  | _ => none

/-- The number of fields of a line, of which only the last may hold a separator. -/
def Kind.fieldCount : Kind -> Nat
  | .serviceAlert | .currentServiceState | .initialServiceState => 6
  | .hostAlert | .currentHostState | .initialHostState => 5
  | .serviceFlappingAlert | .serviceDowntimeAlert => 4
  | .hostFlappingAlert | .hostDowntimeAlert => 3
  | .serviceNotification => 6
  | .hostNotification => 5

def fields (kind : Kind) (info : Text) : List Text := split [';'] (kind.fieldCount - 1) info

/-- Host, record and message of a well-formed line. -/
def describe (kind : Kind) (fields : List Text) : Option (Nat × Record × Text) :=
  match kind with
  | .serviceAlert => describeServiceAlert known false false fields
  | .currentServiceState => describeServiceAlert known true false fields
  | .initialServiceState => describeServiceAlert known false true fields
  | .hostAlert => describeHostAlert known false false fields
  | .currentHostState => describeHostAlert known true false fields
  | .initialHostState => describeHostAlert known false true fields
  | .serviceFlappingAlert => describeServiceStartStop known .serviceFlapping fields
  | .hostFlappingAlert => describeHostStartStop known .hostFlapping fields
  | .serviceNotification => describeServiceNotification known fields
  | .hostNotification => describeHostNotification known fields
  | .hostDowntimeAlert => describeHostStartStop known .hostDowntime fields
  | .serviceDowntimeAlert => describeServiceStartStop known .serviceDowntime fields

def describedShutdown (logfile : Option Nat) (timestamp : Int) (msg : Text) : Option (List Entry) :=
  if shutdownMessage.isPrefixOf msg then
    if isDate timestamp then some (createIcingaDownEntry timestamp msg logfile) else none
  else some []

def describedEntry (logfile : Option Nat) (line : LogLine) (kind : Kind) :
    Option (List Entry) := do
  let (host, record, msg) ← describe known kind (fields kind line.info)
  if isDate line.timestamp then
    return [{ date := line.timestamp, device := some host, deviceIndependent := false,
              record := record, msg := msg, logfile := logfile }]
  else none

def describedRegular (logfile : Option Nat) (startAt : Option Int)
    (line : LogLine) : Option (List Entry) :=
  match considered startAt line, line.kindOfInterest with
  | true, some kind => describedEntry known logfile line kind
  | _, _ => some []

/-- The entries of a well-formed line; none if a line is not well-formed. -/
def wellFormed (logfile : Option Nat) (startAt : Option Int) (raw : Text) : Option (List Entry) :=
  match splitTimestamp (rstrip '\n' raw) none with
  | .error _ => none
  | .ok (timestamp, msg) => do
      let shutdown ← describedShutdown logfile timestamp msg
      let regular ← describedRegular known logfile startAt (toLogLine timestamp msg none)
      return shutdown ++ regular

/-- The texts that stand where a description has the identifiers of host and service. -/
def idTexts (serviceSpec : Text) : List Text :=
  match split [':'] 1 serviceSpec with
  | [form, rest] =>
    if form = "host_check".toList ∧ 2 ≤ rest.count ':' then (split [':'] 2 rest).take 2
    else if form = "s_host_check".toList ∧ 3 ≤ rest.count ':' then
      (split [':'] 3 rest).take 2
    else []
  | _ => []

def IdsAreNumbers (serviceSpec : Text) : Prop :=
  forall text, text ∈ idTexts serviceSpec -> parseInt text ≠ none

def SoundHostAlert : List Text -> Prop
  | [hostSpec, stateField, _, _, _] =>
    truthy (resolveHost known hostSpec) ≠ none -> hostStates.lookup stateField ≠ none
  | _ => True

def SoundHostStartStop : List Text -> Prop
  | [hostSpec, stateField, _] =>
    startStops.lookup stateField ≠ none -> truthy (resolveHost known hostSpec) ≠ none
  | _ => True

def SoundHostNotification : List Text -> Prop
  | [_, hostSpec, stateField, _, _] =>
    hostStates.lookup stateField ≠ none -> truthy (resolveHost known hostSpec) ≠ none
  | _ => True

def SoundServiceAlert : List Text -> Prop
  | [_, serviceSpec, _, _, _, _] => IdsAreNumbers serviceSpec
  | _ => True

def SoundServiceStartStop : List Text -> Prop
  | [_, serviceSpec, _, _] => IdsAreNumbers serviceSpec
  | _ => True

def SoundServiceNotification : List Text -> Prop
  | [_, _, serviceSpec, _, _, _] => IdsAreNumbers serviceSpec
  | _ => True

/-- What the reader takes for granted about the fields of a line. -/
def SoundFields (kind : Kind) (fields : List Text) : Prop :=
  match kind with
  | .serviceAlert | .currentServiceState | .initialServiceState => SoundServiceAlert fields
  | .hostAlert | .currentHostState | .initialHostState => SoundHostAlert known fields
  | .serviceFlappingAlert | .serviceDowntimeAlert => SoundServiceStartStop fields
  | .hostFlappingAlert | .hostDowntimeAlert => SoundHostStartStop known fields
  | .serviceNotification => SoundServiceNotification fields
  | .hostNotification => SoundHostNotification known fields

section

include known

end

end Icsw.LogReader
