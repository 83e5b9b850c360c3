import Icsw.Foundation.Bytes
import Icsw.Permission.Rights

/-!
# Several roles

The rows of several roles come in no fixed order..  A level is that of the row read last, so it can
depend on the order and go down with a further role; what is granted at all only grows.
-/

namespace Icsw.Permission

open Foundation List

structure Reordered (db later : Database) : Prop where
  permissions : later.permissions = db.permissions
  rolePermissions : later.rolePermissions.Perm db.rolePermissions
  roleObjectPermissions : later.roleObjectPermissions.Perm db.roleObjectPermissions
  objects : later.objects = db.objects

def AuthObj.addRole (role : Nat) : AuthObj -> AuthObj
  | .user isSuperuser roles => .user isSuperuser (roles ++ [role])
  | .group roles => .group (roles ++ [role])

theorem addRole_isSuperuser (authObj : AuthObj) (role : Nat) :
    (authObj.addRole role).isSuperuser = authObj.isSuperuser := by
  cases authObj with
  | user isSuperuser roles => rfl
  | group roles => rfl

theorem mem_addRole {authObj : AuthObj} {role other : Nat} (h : other ∈ authObj.roles) :
    other ∈ (authObj.addRole role).roles := by
  cases authObj with
  | user isSuperuser roles => exact mem_append_left _ h
  | group roles => exact mem_append_left _ h

structure SeesMore (db later : Database) (authObj other : AuthObj) : Prop where
  superuser : other.isSuperuser = authObj.isSuperuser
  rows : forall row, row ∈ db.rowsOf authObj -> row ∈ later.rowsOf other
  objectRows : forall row, row ∈ db.objectRowsOf authObj -> row ∈ later.objectRowsOf other

section Orders

variable {db later : Database} {authObj : AuthObj}

section

variable (h : Reordered db later)
include h

theorem Reordered.mem_rowsOf {row : RolePermission} :
    row ∈ later.rowsOf authObj <-> row ∈ db.rowsOf authObj := by
  unfold Database.rowsOf
  rw [mem_filter, mem_filter, h.rolePermissions.mem_iff]

theorem Reordered.mem_objectRowsOf {row : RoleObjectPermission} :
    row ∈ later.objectRowsOf authObj <-> row ∈ db.objectRowsOf authObj := by
  unfold Database.objectRowsOf
  rw [mem_filter, mem_filter, h.roleObjectPermissions.mem_iff]

theorem Reordered.symm : Reordered later db where
  permissions := h.permissions.symm
  rolePermissions := h.rolePermissions.symm
  roleObjectPermissions := h.roleObjectPermissions.symm
  objects := h.objects.symm

theorem Reordered.seesMore : SeesMore db later authObj authObj where
  superuser := rfl
  rows := fun _ hrow => h.mem_rowsOf.mpr hrow
  objectRows := fun _ hrow => h.mem_objectRowsOf.mpr hrow

theorem Reordered.seesMore_addRole (role : Nat) :
    SeesMore db later authObj (authObj.addRole role) where
  superuser := addRole_isSuperuser authObj role
  rows := by
    intro row hrow
    rcases mem_filter.mp (h.mem_rowsOf.mpr hrow) with ⟨hmem, hrole⟩
    exact mem_filter.mpr ⟨hmem, by simpa using mem_addRole (by simpa using hrole)⟩
  objectRows := by
    intro row hrow
    rcases mem_filter.mp (h.mem_objectRowsOf.mpr hrow) with ⟨hmem, hrole⟩
    exact mem_filter.mpr ⟨hmem, by simpa using mem_addRole (by simpa using hrole)⟩

theorem Reordered.permDict_eq : later.permDict = db.permDict := by
  unfold Database.permDict
  rw [h.permissions]

end

end Orders

section Growth

variable {db later : Database} {authObj other : AuthObj}

section

variable (h : SeesMore db later authObj other)
include h

theorem SeesMore.globalRight {key : IcswKey}
    (hright : GlobalRight db authObj key) : GlobalRight later other key := by
  rcases hright with hsuper | ⟨row, hrow, hkey⟩
  · exact Or.inl (h.superuser.trans hsuper)
  · exact Or.inr ⟨row, h.rows row hrow, hkey⟩

theorem SeesMore.globalModelRight {key : ModelKey}
    (hright : GlobalModelRight db authObj key) : GlobalModelRight later other key := by
  rcases hright with hsuper | ⟨row, hrow, hkey⟩
  · exact Or.inl (h.superuser.trans hsuper)
  · exact Or.inr ⟨row, h.rows row hrow, hkey⟩

theorem SeesMore.objectRightOn {key : IcswKey} {pk : Nat}
    (hright : ObjectRightOn db authObj key pk) : ObjectRightOn later other key pk := by
  rcases hright with ⟨row, hrow, hnames⟩
  exact ⟨row, h.objectRows row hrow, hnames⟩

theorem SeesMore.objectModelRightOn {key : ModelKey}
    {pk : Nat} (hright : ObjectModelRightOn db authObj key pk) :
    ObjectModelRightOn later other key pk := by
  rcases hright with ⟨row, hrow, hnames⟩
  exact ⟨row, h.objectRows row hrow, hnames⟩

theorem SeesMore.objectRightFor {key : IcswKey}
    {obj : Option Obj} (hright : ObjectRightFor db authObj key obj) :
    ObjectRightFor later other key obj := by
  cases obj with
  | none =>
    rcases hright with ⟨row, hrow, hkey⟩
    exact ⟨row, h.objectRows row hrow, hkey⟩
  | some obj => exact ⟨hright.left, h.objectRightOn hright.right⟩

end

/--
No permission is lost.  A row may name an object that was deleted, which a set of all objects does
not have, so only objects that are there count.
-/
structure NoneLost (db later : Database) (authObj other : AuthObj) : Prop where
  global : forall key, hasGlobalPermission (fromDb db authObj) key = .ok true ->
    hasGlobalPermission (fromDb later other) key = .ok true
  globalModel : forall key, hasGlobalModelPermission (fromDb db authObj) key = .ok true ->
    hasGlobalModelPermission (fromDb later other) key = .ok true
  object : forall key obj, hasObjectPermission (fromDb db authObj) key obj = .ok true ->
    hasObjectPermission (fromDb later other) key obj = .ok true
  allowed : forall perm pk, perm ∈ db.permissions -> pk ∈ db.objects perm.contentType ->
    Allowed db authObj (icswKey perm) pk -> Allowed later other (icswKey perm) pk
  allowedModel : forall key pk,
    (forall perm, perm ∈ db.permissions -> modelKey (icswKey perm) = key ->
      pk ∈ db.objects perm.contentType) ->
    AllowedModel db authObj key pk -> AllowedModel later other key pk

theorem SeesMore.noneLost (h : SeesMore db later authObj other)
    (hperms : later.permissions = db.permissions) (hobjects : later.objects = db.objects) :
    NoneLost db later authObj other := by
  have hdict : later.permDict = db.permDict := by
    unfold Database.permDict
    rw [hperms]
  constructor
  · intro key hbefore
    rcases hasGlobalPermission_iff.mp hbefore with ⟨hkey, hright⟩
    exact hasGlobalPermission_iff.mpr ⟨hdict ▸ hkey, h.globalRight hright⟩
  · intro key hbefore
    rcases hasGlobalModelPermission_iff.mp hbefore with ⟨hkey, hright⟩
    exact hasGlobalModelPermission_iff.mpr ⟨hdict ▸ hkey, h.globalModelRight hright⟩
  · intro key obj hbefore
    rcases hasObjectPermission_iff.mp hbefore with ⟨hkey, hright⟩
    exact hasObjectPermission_iff.mpr ⟨hdict ▸ hkey, hright.imp h.globalRight h.objectRightFor⟩
  · intro perm pk hperm hpk hbefore
    apply (allowed_iff (hperms ▸ hperm)).mpr
    by_cases hglobal : GlobalRight later other (icswKey perm)
    · exact Or.inl ⟨hglobal, hobjects ▸ hpk⟩
    · rcases (allowed_iff hperm).mp hbefore with ⟨hright, _⟩ | ⟨_, hright⟩
      · exact absurd (h.globalRight hright) hglobal
      · exact Or.inr ⟨hglobal, h.objectRightOn hright⟩
  · intro key pk hpk hbefore
    rcases exists_modelPerm hbefore.known with ⟨perm, hperm, hmem, hmodel⟩
    have hlater : modelPerm later key = some perm := by
      unfold modelPerm
      rw [hdict]
      exact hperm
    apply (allowedModel_iff hlater).mpr
    by_cases hglobal : GlobalModelRight later other key
    · exact Or.inl ⟨hglobal, hobjects ▸ hpk perm hmem hmodel⟩
    · rcases (allowedModel_iff hperm).mp hbefore with ⟨hright, _⟩ | ⟨_, hright⟩
      · exact absurd (h.globalModelRight hright) hglobal
      · exact Or.inr ⟨hglobal, h.objectModelRightOn hright⟩

end Growth

def offeredLevels (db : Database) (authObj : AuthObj) (key : IcswKey) : List Int :=
  if authObj.isSuperuser then [acFull]
  else if db.rowsFor authObj key = [] then [-1]
  else (db.rowsFor authObj key).map RolePermission.level

/-- The levels of the rows for a permission on an object, the global ones without such rows. -/
def offeredObjectLevels (db : Database) (authObj : AuthObj) (key : IcswKey) (pk : Nat) : List Int :=
  if db.objectRowsFor authObj key pk = [] then offeredLevels db authObj key
  else (db.objectRowsFor authObj key pk).map RoleObjectPermission.level

def offered (db : Database) (authObj : AuthObj) (key : IcswKey) : Option Nat -> List Int
  | none => offeredLevels db authObj key
  | some pk => offeredObjectLevels db authObj key pk

/-- A row moved to the end. -/
def moveLast {R : Type} [DecidableEq R] (rows : List R) (row : R) : List R :=
  rows.erase row ++ [row]

theorem moveLast_perm {R : Type} [DecidableEq R] {rows : List R} {row : R} (h : row ∈ rows) :
    (moveLast rows row).Perm rows :=
  (perm_append_singleton row (rows.erase row)).trans (perm_cons_erase h).symm

theorem getLast_filter_moveLast {R : Type} [DecidableEq R] (rows : List R) {row : R}
    {keep : R -> Bool} (h : keep row = true) :
    ((moveLast rows row).filter keep).getLast? = some row := by
  unfold moveLast
  rw [filter_append, filter_cons_of_pos h]
  simp

section Offers

variable {db later : Database} {authObj : AuthObj} {key : IcswKey}

def Database.readLast (db : Database) {row : RolePermission} (hrow : row ∈ db.rolePermissions) :
    Database :=
  { db with
    rolePermissions := moveLast db.rolePermissions row
    referenced := fun other hother => db.referenced other ((moveLast_perm hrow).mem_iff.mp hother) }

def Database.readObjectLast (db : Database) {row : RoleObjectPermission}
    (hrow : row ∈ db.roleObjectPermissions) : Database :=
  { db with
    roleObjectPermissions := moveLast db.roleObjectPermissions row
    objectReferenced := fun other hother =>
      db.objectReferenced other ((moveLast_perm hrow).mem_iff.mp hother) }

theorem reordered_refl (db : Database) : Reordered db db where
  permissions := rfl
  rolePermissions := Perm.refl _
  roleObjectPermissions := Perm.refl _
  objects := rfl

theorem reordered_readLast {row : RolePermission} (hrow : row ∈ db.rolePermissions) :
    Reordered db (db.readLast hrow) where
  permissions := rfl
  rolePermissions := moveLast_perm hrow
  roleObjectPermissions := Perm.refl _
  objects := rfl

theorem reordered_readObjectLast {row : RoleObjectPermission}
    (hrow : row ∈ db.roleObjectPermissions) : Reordered db (db.readObjectLast hrow) where
  permissions := rfl
  rolePermissions := Perm.refl _
  roleObjectPermissions := moveLast_perm hrow
  objects := rfl

theorem rowLevel_mem (db : Database) (authObj : AuthObj) (key : IcswKey) :
    rowLevel db authObj key ∈ offeredLevels db authObj key := by
  unfold rowLevel offeredLevels
  cases hsuper : authObj.isSuperuser with
  | true => simp
  | false =>
    cases hlast : (db.rowsFor authObj key).getLast? with
    | none => simp [getLast?_eq_none_iff.mp hlast]
    | some row =>
      have hmem := mem_of_getLast? hlast
      simp only [Bool.false_eq_true, if_false, if_neg (ne_nil_of_mem hmem)]
      exact mem_map_of_mem hmem

theorem levelOn_mem (db : Database) (authObj : AuthObj) (key : IcswKey) (pk : Option Nat) :
    levelOn db authObj key pk ∈ offered db authObj key pk := by
  cases pk with
  | none => exact rowLevel_mem db authObj key
  | some pk =>
    show (rowObjectLevel db authObj key pk).getD (rowLevel db authObj key) ∈
      offeredObjectLevels db authObj key pk
    unfold rowObjectLevel offeredObjectLevels
    cases hlast : (db.objectRowsFor authObj key pk).getLast? with
    | none =>
      rw [if_pos (getLast?_eq_none_iff.mp hlast)]
      exact rowLevel_mem db authObj key
    | some row =>
      have hmem := mem_of_getLast? hlast
      rw [if_neg (ne_nil_of_mem hmem)]
      exact mem_map_of_mem hmem

variable {level : Int}

theorem exists_rowLevel (h : level ∈ offeredLevels db authObj key) :
    exists later, Reordered db later ∧
      later.roleObjectPermissions = db.roleObjectPermissions ∧
      rowLevel later authObj key = level := by
  unfold offeredLevels at h
  cases hsuper : authObj.isSuperuser with
  | true =>
    rw [hsuper, if_pos rfl, mem_singleton] at h
    exact ⟨db, reordered_refl db, rfl, by simp [rowLevel, hsuper, h]⟩
  | false =>
    rw [hsuper, if_neg (by simp)] at h
    by_cases hrows : db.rowsFor authObj key = []
    · rw [if_pos hrows, mem_singleton] at h
      exact ⟨db, reordered_refl db, rfl, by simp [rowLevel, hsuper, hrows, h]⟩
    · rw [if_neg hrows] at h
      rcases mem_map.mp h with ⟨row, hrow, hlevel⟩
      rcases mem_filter.mp hrow with ⟨hmem, hkey⟩
      rcases mem_filter.mp hmem with ⟨hin, hrole⟩
      refine ⟨db.readLast hin, reordered_readLast hin, rfl, ?_⟩
      have hlast : ((db.readLast hin).rowsFor authObj key).getLast? = some row := by
        unfold Database.rowsFor Database.rowsOf
        rw [filter_filter]
        exact getLast_filter_moveLast _ (by simp only [hkey, hrole, Bool.and_self])
      simp [rowLevel, hsuper, hlast, hlevel]

theorem exists_levelOn {pk : Option Nat} (h : level ∈ offered db authObj key pk) :
    exists later, Reordered db later ∧ levelOn later authObj key pk = level := by
  cases pk with
  | none =>
    rcases exists_rowLevel h with ⟨later, hlater, _, hlevel⟩
    exact ⟨later, hlater, hlevel⟩
  | some pk =>
    change level ∈ offeredObjectLevels db authObj key pk at h
    unfold offeredObjectLevels at h
    by_cases hrows : db.objectRowsFor authObj key pk = []
    · rw [if_pos hrows] at h
      rcases exists_rowLevel h with ⟨later, hlater, hobjects, hlevel⟩
      refine ⟨later, hlater, ?_⟩
      have hnone : later.objectRowsFor authObj key pk = [] := by
        unfold Database.objectRowsFor Database.objectRowsOf
        rw [hobjects]
        exact hrows
      simp [levelOn, rowObjectLevel, hnone, hlevel]
    · rw [if_neg hrows] at h
      rcases mem_map.mp h with ⟨row, hrow, hlevel⟩
      rcases mem_filter.mp hrow with ⟨hmem, hkey⟩
      rcases mem_filter.mp hmem with ⟨hin, hrole⟩
      refine ⟨db.readObjectLast hin, reordered_readObjectLast hin, ?_⟩
      have hlast : ((db.readObjectLast hin).objectRowsFor authObj key pk).getLast? =
          some row := by
        unfold Database.objectRowsFor Database.objectRowsOf
        rw [filter_filter]
        exact getLast_filter_moveLast _ (by simp only [hkey, hrole, Bool.and_self])
      simp [levelOn, rowObjectLevel, hlast, hlevel]

theorem Reordered.mem_offeredLevels (h : Reordered db later) :
    level ∈ offeredLevels later authObj key <-> level ∈ offeredLevels db authObj key := by
  have hrows : (later.rowsFor authObj key).Perm (db.rowsFor authObj key) :=
    (h.rolePermissions.filter _).filter _
  have hempty : later.rowsFor authObj key = [] <-> db.rowsFor authObj key = [] := by
    rw [← length_eq_zero_iff, ← length_eq_zero_iff, hrows.length_eq]
  unfold offeredLevels
  simp only [hempty]
  by_cases hsuper : authObj.isSuperuser = true
  · rw [if_pos hsuper, if_pos hsuper]
  · rw [if_neg hsuper, if_neg hsuper]
    by_cases hnone : db.rowsFor authObj key = []
    · rw [if_pos hnone, if_pos hnone]
    · rw [if_neg hnone, if_neg hnone, (hrows.map _).mem_iff]

theorem Reordered.mem_offered (h : Reordered db later) {pk : Option Nat} :
    level ∈ offered later authObj key pk <-> level ∈ offered db authObj key pk := by
  cases pk with
  | none => exact h.mem_offeredLevels
  | some pk =>
    have hrows : (later.objectRowsFor authObj key pk).Perm (db.objectRowsFor authObj key pk) :=
      (h.roleObjectPermissions.filter _).filter _
    have hempty : later.objectRowsFor authObj key pk = [] <->
        db.objectRowsFor authObj key pk = [] := by
      rw [← length_eq_zero_iff, ← length_eq_zero_iff, hrows.length_eq]
    show level ∈ offeredObjectLevels later authObj key pk <->
      level ∈ offeredObjectLevels db authObj key pk
    unfold offeredObjectLevels
    simp only [hempty]
    by_cases hnone : db.objectRowsFor authObj key pk = []
    · rw [if_pos hnone, if_pos hnone]
      exact h.mem_offeredLevels
    · rw [if_neg hnone, if_neg hnone, (hrows.map _).mem_iff]

theorem mem_rowsFor_addRole (role : Nat) {row : RolePermission}
    (hrow : row ∈ db.rowsFor authObj key) :
    row ∈ db.rowsFor (authObj.addRole role) key := by
  rcases mem_filter.mp hrow with ⟨hmem, hkey⟩
  exact mem_filter.mpr ⟨((reordered_refl db).seesMore_addRole role).rows row hmem, hkey⟩

theorem mem_objectRowsFor_addRole (role : Nat) {pk : Nat} {row : RoleObjectPermission}
    (hrow : row ∈ db.objectRowsFor authObj key pk) :
    row ∈ db.objectRowsFor (authObj.addRole role) key pk := by
  rcases mem_filter.mp hrow with ⟨hmem, hkey⟩
  exact mem_filter.mpr
    ⟨((reordered_refl db).seesMore_addRole role).objectRows row hmem, hkey⟩

theorem offeredLevels_single_or_kept (db : Database) (authObj : AuthObj) (key : IcswKey)
    (role : Nat) :
    (exists only, offeredLevels db authObj key = [only]) ∨
      forall level, level ∈ offeredLevels db authObj key ->
        level ∈ offeredLevels db (authObj.addRole role) key := by
  unfold offeredLevels
  rw [addRole_isSuperuser]
  by_cases hsuper : authObj.isSuperuser = true
  · exact Or.inl ⟨acFull, by rw [if_pos hsuper]⟩
  · rw [if_neg hsuper, if_neg hsuper]
    by_cases hnone : db.rowsFor authObj key = []
    · exact Or.inl ⟨-1, by rw [if_pos hnone]⟩
    · right
      intro level hlevel
      rw [if_neg hnone] at hlevel
      rcases mem_map.mp hlevel with ⟨row, hrow, heq⟩
      have hmore := mem_rowsFor_addRole role hrow
      rw [if_neg (ne_nil_of_mem hmore)]
      exact mem_map.mpr ⟨row, hmore, heq⟩

end Offers

/-- The same answers, whichever row is read first. -/
structure SameRights (db later : Database) (authObj : AuthObj) : Prop where
  level : forall key obj, getObjectPermissionLevel (fromDb later authObj) key obj =
    getObjectPermissionLevel (fromDb db authObj) key obj
  modelLevel : forall key, (fromDb later authObj).modelPerms.lookup key =
    (fromDb db authObj).modelPerms.lookup key
  modelObjectLevel : forall key pk,
    ((fromDb later authObj).modelObjPerms.lookup key).bind (fun levels => levels.lookup pk) =
      ((fromDb db authObj).modelObjPerms.lookup key).bind (fun levels => levels.lookup pk)
  kept : NoneLost db later authObj authObj
  noneNew : NoneLost later db authObj authObj

/--
The answers do not depend on the order of the rows, and a further role lowers no
level and takes no permission away.
-/
structure RolesAdd (db : Database) (authObj : AuthObj) (role : Nat) : Prop where
  order : forall later, Reordered db later -> SameRights db later authObj
  level : forall later, Reordered db later -> forall key obj level,
    getObjectPermissionLevel (fromDb db authObj) key obj = .ok level ->
      exists raised, getObjectPermissionLevel (fromDb later (authObj.addRole role)) key obj =
        .ok raised ∧ level ≤ raised
  kept : forall later, Reordered db later -> NoneLost db later authObj (authObj.addRole role)

/--
No row of the enlarged set of roles has a lower level than a row of the old one
for the same permission, or permission and object.
-/
def NoneLower (db : Database) (authObj : AuthObj) (role : Nat) : Prop :=
  forall perm, perm ∈ db.permissions -> forall pk level new,
    level ∈ offered db authObj (icswKey perm) pk ->
    new ∈ offered db (authObj.addRole role) (icswKey perm) pk -> level ≤ new

section Adding

variable {db later : Database} {authObj : AuthObj} {role : Nat}

instance rightCommutative_orLevel {R : Type} (level : R -> Int) :
    RightCommutative (fun (held : Option Int) (row : R) => some (orLevel held (level row))) where
  right_comm := fun held _ _ => congrArg some (lor_right_comm (held.getD 0) _ _)

theorem Reordered.modelTable_eq (h : Reordered db later) (key : ModelKey) :
    (modelTable later authObj).lookup key = (modelTable db authObj).lookup key := by
  unfold modelTable
  by_cases hsuper : authObj.isSuperuser = true
  · rw [if_pos hsuper, if_pos hsuper, h.permissions]
  · rw [if_neg hsuper, if_neg hsuper, Dict.lookup_update, Dict.lookup_update]
    exact Perm.foldl_eq ((h.rolePermissions.filter _).filter _) _

theorem Reordered.modelObjectTable_eq (h : Reordered db later) (key : ModelKey) (pk : Nat) :
    ((modelObjectTable later authObj).lookup key).bind (fun levels => levels.lookup pk) =
      ((modelObjectTable db authObj).lookup key).bind (fun levels => levels.lookup pk) := by
  unfold modelObjectTable
  rw [Dict.lookup_update_updateInner, Dict.lookup_update_updateInner]
  exact Perm.foldl_eq ((h.roleObjectPermissions.filter _).filter _) _

section

variable (h : NoneLower db authObj role)
include h

theorem NoneLower.agree {perm : CswPermission}
    (hperm : perm ∈ db.permissions) {pk : Option Nat} {first second : Int}
    (hfirst : first ∈ offered db authObj (icswKey perm) pk)
    (hsecond : second ∈ offered db authObj (icswKey perm) pk) : first = second := by
  have hglobal : forall {first second : Int},
      first ∈ offeredLevels db authObj (icswKey perm) ->
      second ∈ offeredLevels db authObj (icswKey perm) -> first = second := by
    intro first second hfirst hsecond
    rcases offeredLevels_single_or_kept db authObj (icswKey perm) role with ⟨only, honly⟩ | hkept
    · rw [honly, mem_singleton] at hfirst hsecond
      exact hfirst.trans hsecond.symm
    · exact le_antisymm (h perm hperm none first second hfirst (hkept second hsecond))
        (h perm hperm none second first hsecond (hkept first hfirst))
  cases pk with
  | none => exact hglobal hfirst hsecond
  | some pk =>
    by_cases hnone : db.objectRowsFor authObj (icswKey perm) pk = []
    · change first ∈ offeredObjectLevels db authObj (icswKey perm) pk at hfirst
      change second ∈ offeredObjectLevels db authObj (icswKey perm) pk at hsecond
      unfold offeredObjectLevels at hfirst hsecond
      rw [if_pos hnone] at hfirst hsecond
      exact hglobal hfirst hsecond
    · have hkept : forall level, level ∈ offered db authObj (icswKey perm) (some pk) ->
          level ∈ offered db (authObj.addRole role) (icswKey perm) (some pk) := by
        intro level hlevel
        change level ∈ offeredObjectLevels db authObj (icswKey perm) pk at hlevel
        unfold offeredObjectLevels at hlevel
        rw [if_neg hnone] at hlevel
        rcases mem_map.mp hlevel with ⟨row, hrow, heq⟩
        have hmore := mem_objectRowsFor_addRole role hrow
        show level ∈ offeredObjectLevels db (authObj.addRole role) (icswKey perm) pk
        unfold offeredObjectLevels
        rw [if_neg (ne_nil_of_mem hmore)]
        exact mem_map.mpr ⟨row, hmore, heq⟩
      exact le_antisymm (h perm hperm (some pk) first second hfirst (hkept second hsecond))
        (h perm hperm (some pk) second first hsecond (hkept first hfirst))

theorem NoneLower.sameRights (hlater : Reordered db later) :
    SameRights db later authObj where
  level := by
    intro key obj
    rw [getObjectPermissionLevel_fromDb, getObjectPermissionLevel_fromDb, hlater.permDict_eq]
    by_cases hkey : key ∈ db.permDict
    · rcases mem_permDict.mp hkey with ⟨perm, hperm, heq⟩
      subst heq
      rw [if_pos hkey, if_pos hkey,
        h.agree hperm (hlater.mem_offered.mp (levelOn_mem later authObj _ _))
          (levelOn_mem db authObj _ (obj.map Obj.pk))]
    · rw [if_neg hkey, if_neg hkey]
  modelLevel := by
    intro key
    rw [fromDb_modelPerms, fromDb_modelPerms, hlater.modelTable_eq]
  modelObjectLevel := by
    intro key pk
    rw [fromDb_modelObjPerms, fromDb_modelObjPerms, hlater.modelObjectTable_eq]
  kept := hlater.seesMore.noneLost hlater.permissions hlater.objects
  noneNew := hlater.symm.seesMore.noneLost hlater.symm.permissions hlater.symm.objects

theorem NoneLower.raised (hlater : Reordered db later)
    {key : IcswKey} {obj : Option Obj} {level : Int}
    (hlevel : getObjectPermissionLevel (fromDb db authObj) key obj = .ok level) :
    exists raised, getObjectPermissionLevel (fromDb later (authObj.addRole role)) key obj =
      .ok raised ∧ level ≤ raised := by
  rw [getObjectPermissionLevel_fromDb] at hlevel
  rw [getObjectPermissionLevel_fromDb, hlater.permDict_eq]
  by_cases hkey : key ∈ db.permDict
  · rw [if_pos hkey] at hlevel
    cases hlevel
    rcases mem_permDict.mp hkey with ⟨perm, hperm, heq⟩
    subst heq
    refine ⟨_, if_pos hkey, ?_⟩
    exact h perm hperm (obj.map Obj.pk) _ _ (levelOn_mem db authObj _ _)
      (hlater.mem_offered.mp (levelOn_mem later (authObj.addRole role) _ _))
  · rw [if_neg hkey] at hlevel
    cases hlevel

end

def objectOf (perm : CswPermission) (pk : Option Nat) : Option Obj :=
  pk.map fun pk => ⟨perm.contentType, pk, 0⟩

theorem level_objectOf {perm : CswPermission} (hperm : perm ∈ db.permissions)
    (authObj : AuthObj) (pk : Option Nat) :
    getObjectPermissionLevel (fromDb db authObj) (icswKey perm) (objectOf perm pk) =
      .ok (levelOn db authObj (icswKey perm) pk) := by
  have hkey : icswKey perm ∈ db.permDict := mem_permDict.mpr ⟨perm, hperm, rfl⟩
  rw [getObjectPermissionLevel_fromDb, if_pos hkey]
  cases pk with
  | none => rfl
  | some pk => rfl

theorem RolesAdd.noneLower (h : RolesAdd db authObj role) : NoneLower db authObj role := by
  intro perm hperm pk level new hlevel hnew
  rcases exists_levelOn hlevel with ⟨first, hfirst, hfirstLevel⟩
  rcases exists_levelOn hnew with ⟨second, hsecond, hsecondLevel⟩
  have hbefore : getObjectPermissionLevel (fromDb db authObj) (icswKey perm) (objectOf perm pk) =
      .ok level := by
    rw [← (h.order first hfirst).level, level_objectOf (hfirst.permissions ▸ hperm), hfirstLevel]
  rcases h.level second hsecond _ _ _ hbefore with ⟨raised, hraised, hle⟩
  rw [level_objectOf (hsecond.permissions ▸ hperm), hsecondLevel] at hraised
  cases hraised
  exact hle

end Adding

/-- Roles only add rights exactly where no row has a lower level than an earlier one. -/
theorem rolesAdd_iff_noneLower (db : Database) (authObj : AuthObj) (role : Nat) :
    RolesAdd db authObj role <-> NoneLower db authObj role := by
  constructor
  · exact RolesAdd.noneLower
  · intro h
    exact {
      order := fun _ hlater => h.sameRights hlater
      level := fun _ hlater _ _ _ hlevel => h.raised hlater hlevel
      kept := fun _ hlater =>
        (hlater.seesMore_addRole role).noneLost hlater.permissions hlater.objects }

def allDevices : CswPermission :=
  ⟨⟨"backbone".toList, "device".toList⟩, "all_devices".toList⟩

/-- The first role has every right for all devices, the second may only read. -/
def twoRoles : Database where
  permissions := [allDevices]
  rolePermissions := [⟨1, allDevices, 7⟩, ⟨2, allDevices, 0⟩]
  roleObjectPermissions := []
  objects := fun _ => ∅
  devices := []
  distinct := by decide
  referenced := by decide
  objectReferenced := by decide

/-- The second role takes the level of the first away. -/
theorem second_role_lowers : ¬ RolesAdd twoRoles (.user false [1]) 2 := by
  intro h
  have hbefore : getObjectPermissionLevel (fromDb twoRoles (.user false [1]))
      (icswKey allDevices) none = .ok 7 := by
    decide +kernel
  rcases h.level twoRoles (reordered_refl twoRoles) _ _ _ hbefore with ⟨raised, hraised, hle⟩
  have hafter : getObjectPermissionLevel (fromDb twoRoles (.user false [1, 2]))
      (icswKey allDevices) none = .ok 0 := by
    decide +kernel
  have heq : raised = 0 := Except.ok.inj (hraised.symm.trans hafter)
  exact absurd (heq ▸ hle) (by decide)

end Icsw.Permission
