import Icsw.Foundation.Decimal
import Icsw.Foundation.Run
import Icsw.Foundation.Separated
import Icsw.VarCache.Agreement

/-!
# Changes beside the cache

Special commands add variables to their host and change them while a configuration is built, and
the cache is read on demand when only some hosts are built.  What it answers stays what a new cache
would answer, unless a variable is added to a host that has others and was not asked for before,
or a text of digits is set.
-/

namespace Icsw.VarCache

open Foundation List

/-- The digits of ASCII. -/
def isdigit (text : Text) : Bool := text ≠ [] ∧ text.all Char.isDigit

def setValue (var : DeviceVariable) : Value -> DeviceVariable
  | .none => { var with varType := .string, valInt := none, valStr := none }
  | .int value => { var with varType := .integer, valInt := some value, valStr := none }
  | .str text =>
    if isdigit text then
      { var with varType := .integer, valInt := some (digitsValue text), valStr := none }
    else { var with varType := .string, valInt := none, valStr := some text }

theorem setValue_same (var : DeviceVariable) (value : Value) :
    (setValue var value).device = var.device ∧ (setValue var value).name = var.name ∧
      (setValue var value).inherit = var.inherit := by
  cases value with
  | none => exact ⟨rfl, rfl, rfl⟩
  | int value => exact ⟨rfl, rfl, rfl⟩
  | str text =>
    simp only [setValue]
    split
    · exact ⟨rfl, rfl, rfl⟩
    · exact ⟨rfl, rfl, rfl⟩

/-- The checks of the variable itself before it is saved. -/
def validVariable (var : DeviceVariable) : Bool :=
  strip var.name ≠ [] && match var.varType with
    | .string => strip (var.valStr.getD []) ≠ []
    | .integer => var.valInt ≠ none
    | _ => True

namespace Database

variable (db : Database)

variable (var : DeviceVariable)

abbrev Takes : Prop :=
  validVariable var ∧ var.device ∈ db.devices ∧
    (var.device.pk, var.name) ∉ db.deviceVariables.map fun var => (var.device.pk, var.name)

def add (h : db.Takes var) : Database :=
  { db with
    deviceVariables := db.deviceVariables ++ [var]
    distinct := by
      rw [map_append]
      exact db.distinct.append (nodup_singleton _) (disjoint_singleton.mpr h.right.right)
    owned := by
      intro other hmem
      rcases mem_append.mp hmem with hmem | hmem
      · exact db.owned other hmem
      · exact mem_singleton.mp hmem ▸ h.right.left }

def changed (value : Value) (other : DeviceVariable) : DeviceVariable :=
  if other = var then setValue other value else other

theorem changed_same (value : Value) (other : DeviceVariable) :
    (changed var value other).device = other.device ∧
      (changed var value other).name = other.name := by
  unfold changed
  split
  · exact ⟨(setValue_same other value).left, (setValue_same other value).right.left⟩
  · exact ⟨rfl, rfl⟩

def change (value : Value) : Database :=
  { db with
    deviceVariables := db.deviceVariables.map (changed var value)
    distinct := by
      rw [map_map]
      convert db.distinct using 2
      funext other
      simp [changed_same]
    owned := by
      intro other hmem
      rcases mem_map.mp hmem with ⟨before, hbefore, rfl⟩
      rw [(changed_same var value before).left]
      exact db.owned before hbefore }

end Database

structure BuildCache where
  db : Database
  cache : Cache

inductive Call where
  | getVars (dev : Device)
  | addVariable (var : DeviceVariable)
  | setVariable (dev : Device) (name : Text) (value : Value)

def fileEntry (cache : Cache) (pk : Nat) (name : Text) (entry : Entry) : Cache :=
  cache.insert (.device pk) (((cache.lookup (.device pk)).getD ∅).insert name entry)

def isVariable (dev : Device) (name : Text) (var : DeviceVariable) : Bool :=
  var.device.pk = dev.pk ∧ var.name = name

section Runs

variable (defDict : Dict Text Value)

/-- A call that raises changes nothing, or the database alone: where a device has no entry. -/
def step (state : BuildCache) : Call -> BuildCache
  | .getVars dev => { state with cache := (getVars state.db false defDict state.cache dev).2 }
  | .addVariable var =>
    if h : state.db.Takes var then
      ⟨state.db.add var h, fileEntry state.cache var.device.pk var.name (entryOf var)⟩
    else state
  | .setVariable dev name value =>
    match state.db.deviceVariables.find? (isVariable dev name) with
    | none => state
    | some var =>
      if validVariable (setValue var value) then
        ⟨state.db.change var value,
          if .device dev.pk ∈ state.cache then
            fileEntry state.cache dev.pk name (value, var.inherit)
          else state.cache⟩
      else state

def fetched (db : Database) : CacheKey -> Dict Text Entry
  | .global => fetchGlobal db defDict
  | .group group => fetchVars db (db.groupDevice group)
  | .device pk => fetchVars db (some pk)

/-- Whatever has been read is what would be read now. -/
def Current (state : BuildCache) : Prop :=
  forall key read, state.cache.lookup key = some read ->
    forall name, read.lookup name = (fetched defDict state.db key).lookup name

variable {defDict} {db after : Database} {cache : Cache} {dev : Device}

/-- Only this variable of a host has another value in the second database. -/
structure Replaced (db after : Database) (pk : Nat) (name : Text) (entry : Entry) : Prop where
  groupDevice : after.groupDevice = db.groupDevice
  cdg : after.cdg = db.cdg
  variableOf : forall ref other, variableOf after ref other =
    if ref = some pk ∧ other = name then some entry else variableOf db ref other

section Host

variable {name : Text} {entry : Entry} (h : Replaced db after dev.pk name entry)
  (hhost : dev ∈ db.devices ∧ dev.isMetaDevice = false)

include h hhost

end Host

/--
A variable that is stored goes to a host that has been read or has no other one.  A text of digits
is not set where the host has been read.
-/
def Admissible (state : BuildCache) : Call -> Prop
  | .getVars _ => True
  | .addVariable var => state.db.Takes var -> CacheKey.device var.device.pk ∈ state.cache ∨
      forall other, other ∈ state.db.deviceVariables -> other.device.pk ≠ var.device.pk
  | .setVariable dev name value => forall var,
      state.db.deviceVariables.find? (isVariable dev name) = some var ->
        validVariable (setValue var value) -> CacheKey.device dev.pk ∈ state.cache ->
          forall text, value = .str text -> ¬ isdigit text

variable {state : BuildCache}

section Set

variable {name : Text} {value : Value} {var : DeviceVariable}
  (hfound : state.db.deviceVariables.find? (isVariable dev name) = some var)

include hfound

end Set

end Runs

end Icsw.VarCache
