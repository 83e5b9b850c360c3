import Icsw.Foundation.Dict
import Icsw.Foundation.Python
import Mathlib.Data.Finset.Dedup
import Mathlib.Data.Finset.Empty
import Mathlib.Data.Int.Bitwise

/-!
# The permission cache

The rights of a user or a group come from the rows of its roles.  They are read
once into four tables: levels per permission and per model, each for all objects
and for single ones.
-/

namespace Icsw.Permission

open Foundation

structure ContentType where
  appLabel : Text
  className : Text
deriving DecidableEq

def ContentType.model (contentType : ContentType) : Text :=
  contentType.className.map Char.toLower

structure CswPermission where
  contentType : ContentType
  codename : Text
deriving DecidableEq

structure RolePermission where
  role : Nat
  cswPermission : CswPermission
  level : Int
deriving DecidableEq

structure CswObjectPermission where
  cswPermission : CswPermission
  objectPk : Nat
deriving DecidableEq

structure RoleObjectPermission where
  role : Nat
  cswObjectPermission : CswObjectPermission
  level : Int
deriving DecidableEq

/-- The key `app_label.model.codename`; labels and model names hold no dot. -/
structure IcswKey where
  appLabel : Text
  contentName : Text
  codeName : Text
deriving DecidableEq

/-- The first two parts of a key. -/
structure ModelKey where
  appLabel : Text
  contentName : Text
deriving DecidableEq

def icswKey (perm : CswPermission) : IcswKey where
  appLabel := perm.contentType.appLabel
  contentName := perm.contentType.model
  codeName := perm.codename

def modelKey (key : IcswKey) : ModelKey where
  appLabel := key.appLabel
  contentName := key.contentName

def RolePermission.key (row : RolePermission) : IcswKey := icswKey row.cswPermission

def RoleObjectPermission.key (row : RoleObjectPermission) : IcswKey :=
  icswKey row.cswObjectPermission.cswPermission

def RoleObjectPermission.objectPk (row : RoleObjectPermission) : Nat :=
  row.cswObjectPermission.objectPk

structure GroupMember where
  pk : Nat
  deviceGroup : Nat
  metaDevice : Option Nat
deriving DecidableEq

structure Database where
  permissions : List CswPermission
  rolePermissions : List RolePermission
  roleObjectPermissions : List RoleObjectPermission
  objects : ContentType -> Finset Nat
  devices : List GroupMember
  distinct : (permissions.map icswKey).Nodup
  referenced : forall row, row ∈ rolePermissions -> row.cswPermission ∈ permissions
  objectReferenced : forall row, row ∈ roleObjectPermissions ->
    row.cswObjectPermission.cswPermission ∈ permissions

inductive AuthObj where
  | user (isSuperuser : Bool) (roles : List Nat)
  | group (roles : List Nat)
deriving DecidableEq

def AuthObj.roles : AuthObj -> List Nat
  | .user _ roles => roles
  | .group roles => roles

def AuthObj.isSuperuser : AuthObj -> Bool
  | .user isSuperuser _ => isSuperuser
  | .group _ => false

/-- An instance on which permissions are checked. -/
structure Obj where
  contentType : ContentType
  pk : Nat
  deviceGroup : Nat
deriving DecidableEq

def acFull : Int := 7

structure AuthCache where
  authObj : AuthObj
  hasAllPerms : Bool
  permDict : Dict IcswKey CswPermission
  modelPermDict : Dict ModelKey (Dict IcswKey CswPermission)
  perms : Dict IcswKey Int
  objPerms : Dict IcswKey (Dict Nat Int)
  modelPerms : Dict ModelKey Int
  modelObjPerms : Dict ModelKey (Dict Nat Int)
  dgLut : Dict Nat (Option Nat)

variable (self : AuthCache)

def setAllPerms (perm : CswPermission) : AuthCache :=
  { self with
    perms := self.perms.insert (icswKey perm) acFull
    modelPerms := self.modelPerms.insert (modelKey (icswKey perm)) acFull }

def orLevel (held : Option Int) (level : Int) : Int := (held.getD 0).lor level

/-- A permission keeps the level of the last row, a model collects the levels. -/
def addPermission (perm : RolePermission) : AuthCache :=
  { self with
    perms := self.perms.insert perm.key perm.level
    modelPerms := self.modelPerms.insert (modelKey perm.key)
      (orLevel (self.modelPerms.lookup (modelKey perm.key)) perm.level) }

def addObjectPermission (perm : RoleObjectPermission) : AuthCache :=
  let held := (self.objPerms.lookup perm.key).getD ∅
  let modelHeld := (self.modelObjPerms.lookup (modelKey perm.key)).getD ∅
  { self with
    objPerms := self.objPerms.insert perm.key (held.insert perm.objectPk perm.level)
    modelObjPerms := self.modelObjPerms.insert (modelKey perm.key)
      (modelHeld.insert perm.objectPk
        (orLevel (modelHeld.lookup perm.objectPk) perm.level)) }

variable (db : Database) (authObj : AuthObj)

def Database.rowsOf : List RolePermission :=
  db.rolePermissions.filter fun row => row.role ∈ authObj.roles

def Database.objectRowsOf : List RoleObjectPermission :=
  db.roleObjectPermissions.filter fun row => row.role ∈ authObj.roles

def Database.permDict : Dict IcswKey CswPermission :=
  (∅ : Dict IcswKey CswPermission).update icswKey (fun _ perm => perm) db.permissions

def modelPermDict (permDict : Dict IcswKey CswPermission) :
    Dict ModelKey (Dict IcswKey CswPermission) :=
  (∅ : Dict ModelKey (Dict IcswKey CswPermission)).update (fun entry => modelKey entry.1)
    (fun held entry => (held.getD ∅).insert entry.1 entry.2) permDict.entries

/-- The cache before any level is read. -/
def emptyCache : AuthCache where
  authObj := authObj
  hasAllPerms := authObj.isSuperuser
  permDict := db.permDict
  modelPermDict := modelPermDict db.permDict
  perms := ∅
  objPerms := ∅
  modelPerms := ∅
  modelObjPerms := ∅
  dgLut := ∅

def fromDb : AuthCache :=
  let self := emptyCache db authObj
  let self :=
    if self.hasAllPerms then db.permissions.foldl setAllPerms self
    else (db.rowsOf authObj).foldl addPermission self
  (db.objectRowsOf authObj).foldl addObjectPermission self

def getCodeKey (key : IcswKey) : Except PyError IcswKey :=
  if key ∈ self.permDict then .ok key else .error .improperlyConfigured

def getModelCodeKey (key : ModelKey) : Except PyError ModelKey :=
  if key ∈ self.modelPermDict then .ok key else .error .improperlyConfigured

def hasGlobalPermission (key : IcswKey) : Except PyError Bool := do
  let codeKey <- getCodeKey self key
  return decide (codeKey ∈ self.perms)

def hasGlobalModelPermission (key : ModelKey) : Except PyError Bool := do
  let codeKey <- getModelCodeKey self key
  return decide (codeKey ∈ self.modelPerms)

def globalLevel (key : IcswKey) : Int := (self.perms.lookup key).getD (-1)

def objectLevel (key : IcswKey) (pk : Nat) : Option Int :=
  (self.objPerms.lookup key).bind fun levels => levels.lookup pk

def getObjectPermissionLevel (key : IcswKey) (obj : Option Obj) :
    Except PyError Int := do
  let codeKey <- getCodeKey self key
  let level := globalLevel self codeKey
  match obj with
  | none => return level
  | some obj => return (objectLevel self codeKey obj.pk).getD level

def hasObjectPermission (key : IcswKey) (obj : Option Obj) :
    Except PyError Bool := do
  let codeKey <- getCodeKey self key
  if (<- hasGlobalPermission self key) then return true
  match self.objPerms.lookup codeKey with
  | none => return false
  | some levels =>
    match obj with
    | none => return true
    | some obj => return decide (key.appLabel = obj.contentType.appLabel ∧ obj.pk ∈ levels)

def getAllowedObjectList (key : IcswKey) :
    Except PyError (Finset Nat) := do
  let codeKey <- getCodeKey self key
  if (<- hasGlobalPermission self key) || self.authObj.isSuperuser then
    match self.permDict.lookup codeKey with
    | some perm => return db.objects perm.contentType
    | none => throw .keyError
  else
    match self.objPerms.lookup codeKey with
    | some levels => return levels.keys.toFinset
    | none => return ∅

def getAllowedObjectListModel (key : ModelKey) :
    Except PyError (Finset Nat) := do
  let codeKey <- getModelCodeKey self key
  if (<- hasGlobalModelPermission self key) || self.authObj.isSuperuser then
    match self.modelPermDict.lookup codeKey with
    | some perms =>
      match perms.values with
      | perm :: _ => return db.objects perm.contentType
      | [] => throw .indexError
    | none => throw .keyError
  else
    match self.modelObjPerms.lookup codeKey with
    | some levels => return levels.keys.toFinset
    | none => return ∅

/-- The permissions that fit an object, or all of them. -/
def permsFor (obj : Option Obj) : Dict IcswKey CswPermission :=
  match obj with
  | some obj => self.permDict.comprehend fun _ perm =>
    if perm.contentType = obj.contentType then some perm else none
  | none => self.permDict

/-- The highest level in each dictionary of object levels; none of them is empty. -/
def localPerms (obj : Option Obj) : Dict IcswKey Int :=
  match obj with
  | some obj => self.objPerms.comprehend fun key levels =>
    if key ∈ permsFor self (some obj) ∧ obj.pk ∈ levels then levels.values.max? else none
  | none => self.objPerms.comprehend fun key levels =>
    if key ∈ permsFor self none then levels.values.max? else none

def globalPerms (obj : Option Obj) : Dict IcswKey Int :=
  self.perms.comprehend fun key level => if key ∈ permsFor self obj then some level else none

def getAllObjectPerms (obj : Option Obj) : Dict IcswKey Int :=
  if self.hasAllPerms then
    (permsFor self obj).comprehend fun _ _ => some acFull
  else
    let globals := globalPerms self obj
    let locals := localPerms self obj
    (globals ∪ locals).comprehend fun key _ =>
      let level := max ((globals.lookup key).getD (-1)) ((locals.lookup key).getD (-1))
      if 0 ≤ level then some level else none

def fillDgLut (dev : Obj) : AuthCache :=
  if dev.pk ∈ self.dgLut then self
  else
    { self with
      dgLut := self.dgLut.update GroupMember.pk (fun _ member => member.metaDevice)
        (db.devices.filter fun member => member.deviceGroup = dev.deviceGroup) }

def accessLevel (key : IcswKey) (pk : Option Nat) : Int :=
  (pk.bind (objectLevel self key)).getD (globalLevel self key)

/-- Class names are compared with the lower case model name here. -/
def accessPerms (obj : Obj) : Dict IcswKey CswPermission :=
  self.permDict.comprehend fun _ perm =>
    if perm.contentType.className = obj.contentType.model then some perm else none

def ownAccessLevels (obj : Obj) : Dict IcswKey Int :=
  (accessPerms self obj).comprehend fun key _ =>
    let level := accessLevel self key (some obj.pk)
    if 0 ≤ level then some level else none

def getObjectAccessLevels (obj : Obj) (isSuperuser : Bool) :
    Except PyError (Dict IcswKey Int × AuthCache) := do
  if isSuperuser then
    return ((accessPerms self obj).comprehend fun _ _ => some acFull, self)
  let acDict := ownAccessLevels self obj
  if obj.contentType.model ≠ "device".toList then return (acDict, self)
  let self := fillDgLut self db obj
  match self.dgLut.lookup obj.pk with
  | none => throw .keyError
  | some metaPk =>
    return ((accessPerms self obj).comprehend fun key _ =>
      let value := accessLevel self key metaPk
      if 0 ≤ value ∨ key ∈ acDict then some (max ((acDict.lookup key).getD 0) value)
      else none, self)

/-!
## What the tables hold

Each table is a loop over the rows of the roles.  For one permission, or one
permission on one object, only the rows that name it count, and the last of them
sets the level.
-/

theorem foldl_setAllPerms (perms : List CswPermission) :
    perms.foldl setAllPerms self =
      { self with
        perms := self.perms.update icswKey (fun _ _ => acFull) perms
        modelPerms := self.modelPerms.update (fun perm => modelKey (icswKey perm))
          (fun _ _ => acFull) perms } := by
  induction perms generalizing self with
  | nil => rfl
  | cons first rest ih => exact ih (setAllPerms self first)

theorem foldl_addPermission (rows : List RolePermission) :
    rows.foldl addPermission self =
      { self with
        perms := self.perms.update RolePermission.key (fun _ row => row.level) rows
        modelPerms := self.modelPerms.update (fun row => modelKey row.key)
          (fun held row => orLevel held row.level) rows } := by
  induction rows generalizing self with
  | nil => rfl
  | cons first rest ih => exact ih (addPermission self first)

theorem foldl_addObjectPermission (rows : List RoleObjectPermission) :
    rows.foldl addObjectPermission self =
      { self with
        objPerms := self.objPerms.update RoleObjectPermission.key
          (Dict.updateInner ∅ RoleObjectPermission.objectPk fun _ row => row.level) rows
        modelObjPerms := self.modelObjPerms.update (fun row => modelKey row.key)
          (Dict.updateInner ∅ RoleObjectPermission.objectPk
            fun held row => orLevel held row.level) rows } := by
  induction rows generalizing self with
  | nil => rfl
  | cons first rest ih => exact ih (addObjectPermission self first)

def globalTable : Dict IcswKey Int :=
  if authObj.isSuperuser then
    (∅ : Dict IcswKey Int).update icswKey (fun _ _ => acFull) db.permissions
  else
    (∅ : Dict IcswKey Int).update RolePermission.key (fun _ row => row.level) (db.rowsOf authObj)

def modelTable : Dict ModelKey Int :=
  if authObj.isSuperuser then
    (∅ : Dict ModelKey Int).update (fun perm => modelKey (icswKey perm)) (fun _ _ => acFull)
      db.permissions
  else
    (∅ : Dict ModelKey Int).update (fun row => modelKey row.key)
      (fun held row => orLevel held row.level) (db.rowsOf authObj)

def objectTable : Dict IcswKey (Dict Nat Int) :=
  (∅ : Dict IcswKey (Dict Nat Int)).update RoleObjectPermission.key
    (Dict.updateInner ∅ RoleObjectPermission.objectPk fun _ row => row.level)
    (db.objectRowsOf authObj)

def modelObjectTable : Dict ModelKey (Dict Nat Int) :=
  (∅ : Dict ModelKey (Dict Nat Int)).update (fun row => modelKey row.key)
    (Dict.updateInner ∅ RoleObjectPermission.objectPk fun held row => orLevel held row.level)
    (db.objectRowsOf authObj)

section

include db

section

include authObj

theorem fromDb_eq :
    fromDb db authObj =
      { emptyCache db authObj with
        perms := globalTable db authObj
        objPerms := objectTable db authObj
        modelPerms := modelTable db authObj
        modelObjPerms := modelObjectTable db authObj } := by
  unfold fromDb
  cases hsuper : authObj.isSuperuser with
  | true =>
    have hall : (emptyCache db authObj).hasAllPerms = true := hsuper
    simp only [hall, if_true, foldl_setAllPerms, foldl_addObjectPermission, globalTable,
      modelTable, hsuper]
    rfl
  | false =>
    have hnone : (emptyCache db authObj).hasAllPerms = false := hsuper
    simp only [hnone, foldl_addPermission, foldl_addObjectPermission, globalTable,
      modelTable, hsuper]
    rfl

@[simp] theorem fromDb_authObj :
    (fromDb db authObj).authObj = authObj := by
  rw [fromDb_eq]
  rfl

@[simp] theorem fromDb_hasAllPerms :
    (fromDb db authObj).hasAllPerms = authObj.isSuperuser := by
  rw [fromDb_eq]
  rfl

@[simp] theorem fromDb_permDict :
    (fromDb db authObj).permDict = db.permDict := by
  rw [fromDb_eq]
  rfl

@[simp] theorem fromDb_modelPermDict :
    (fromDb db authObj).modelPermDict = modelPermDict db.permDict := by
  rw [fromDb_eq]
  rfl

@[simp] theorem fromDb_perms :
    (fromDb db authObj).perms = globalTable db authObj := by
  rw [fromDb_eq]

@[simp] theorem fromDb_objPerms :
    (fromDb db authObj).objPerms = objectTable db authObj := by
  rw [fromDb_eq]

@[simp] theorem fromDb_modelPerms :
    (fromDb db authObj).modelPerms = modelTable db authObj := by
  rw [fromDb_eq]

@[simp] theorem fromDb_modelObjPerms :
    (fromDb db authObj).modelObjPerms = modelObjectTable db authObj := by
  rw [fromDb_eq]

end

end

theorem lookup_permDict (db : Database) {perm : CswPermission} (hmem : perm ∈ db.permissions) :
    db.permDict.lookup (icswKey perm) = some perm := by
  have hfilter : forall other, other ∈ db.permissions.filter
      (fun other => icswKey other = icswKey perm) -> other = perm := by
    intro other hother
    rcases List.mem_filter.mp hother with ⟨hin, hkey⟩
    exact List.inj_on_of_nodup_map db.distinct hin hmem (by simpa using hkey)
  unfold Database.permDict
  rw [Dict.lookup_update_assign]
  cases hlast : (db.permissions.filter fun other => icswKey other = icswKey perm).getLast? with
  | none =>
    have hempty := List.getLast?_eq_none_iff.mp hlast
    have hperm : perm ∈ db.permissions.filter (fun other => icswKey other = icswKey perm) :=
      List.mem_filter.mpr ⟨hmem, by simp⟩
    rw [hempty] at hperm
    cases hperm
  | some other =>
    have heq := hfilter other (List.mem_of_getLast? hlast)
    rw [heq]
    rfl

theorem mem_permDict {db : Database} {key : IcswKey} :
    key ∈ db.permDict <-> exists perm, perm ∈ db.permissions ∧ icswKey perm = key := by
  unfold Database.permDict
  rw [Dict.mem_update]
  simp

theorem lookup_permDict_eq {db : Database} {key : IcswKey} {perm : CswPermission}
    (h : db.permDict.lookup key = some perm) : perm ∈ db.permissions ∧ icswKey perm = key := by
  have hmem : key ∈ db.permDict := Dict.mem_of_lookup h
  rcases mem_permDict.mp hmem with ⟨held, hheld, hkey⟩
  rw [← hkey, lookup_permDict db hheld] at h
  cases h
  exact ⟨hheld, hkey⟩

def Database.rowsFor (db : Database) (authObj : AuthObj) (key : IcswKey) : List RolePermission :=
  (db.rowsOf authObj).filter fun row => row.key = key

def Database.objectRowsFor (db : Database) (authObj : AuthObj) (key : IcswKey) (pk : Nat) :
    List RoleObjectPermission :=
  (db.objectRowsOf authObj).filter fun row => row.key = key ∧ row.objectPk = pk

def rowLevel (db : Database) (authObj : AuthObj) (key : IcswKey) : Int :=
  if authObj.isSuperuser then acFull
  else (((db.rowsFor authObj key).getLast?).map RolePermission.level).getD (-1)

def rowObjectLevel (db : Database) (authObj : AuthObj) (key : IcswKey) (pk : Nat) : Option Int :=
  ((db.objectRowsFor authObj key pk).getLast?).map RoleObjectPermission.level

theorem objectLevel_fromDb (db : Database) (authObj : AuthObj) (key : IcswKey) (pk : Nat) :
    objectLevel (fromDb db authObj) key pk = rowObjectLevel db authObj key pk := by
  unfold objectLevel rowObjectLevel
  rw [fromDb_objPerms, objectTable, Dict.lookup_update_updateInner,
    Dict.foldl_assign, Option.or_none]
  rfl

theorem globalLevel_fromDb {db : Database} {authObj : AuthObj} {key : IcswKey}
    (hkey : key ∈ db.permDict) :
    globalLevel (fromDb db authObj) key = rowLevel db authObj key := by
  unfold globalLevel rowLevel
  rw [fromDb_perms, globalTable]
  cases hsuper : authObj.isSuperuser with
  | true =>
    simp only [if_true, Dict.lookup_update_assign]
    cases hlast : (db.permissions.filter fun perm => icswKey perm = key).getLast? with
    | none =>
      rcases mem_permDict.mp hkey with ⟨perm, hperm, heq⟩
      have hmem : perm ∈ db.permissions.filter (fun perm => icswKey perm = key) :=
        List.mem_filter.mpr ⟨hperm, by simpa using heq⟩
      rw [List.getLast?_eq_none_iff.mp hlast] at hmem
      cases hmem
    | some perm => rfl
  | false =>
    simp only [Bool.false_eq_true, if_false, Dict.lookup_update_assign]
    rfl

end Icsw.Permission
