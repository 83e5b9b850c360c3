import Icsw.Permission.Model
import Mathlib.Data.Finset.Insert

/-!
# Rights on one object

`get_all_object_perms` collects what a user may do with an object.  For a
permission that is granted on the object it takes the highest level granted on
any object, so a grant elsewhere shows up here.
-/

namespace Icsw.Permission

open Foundation List

def Fits (db : Database) (obj : Obj) (key : IcswKey) : Prop :=
  exists perm, perm ∈ db.permissions ∧ perm.contentType = obj.contentType ∧ icswKey perm = key

theorem Fits.known {db : Database} {obj : Obj} {key : IcswKey} (h : Fits db obj key) :
    key ∈ db.permDict := by
  rcases h with ⟨perm, hperm, _, hkey⟩
  exact mem_permDict.mpr ⟨perm, hperm, hkey⟩

theorem lookup_permsFor (db : Database) (authObj : AuthObj) (obj : Obj) (key : IcswKey) :
    (permsFor (fromDb db authObj) (some obj)).lookup key =
      (db.permDict.lookup key).bind fun perm =>
        if perm.contentType = obj.contentType then some perm else none := by
  unfold permsFor
  rw [fromDb_permDict, Dict.lookup_comprehend]

theorem mem_permsFor {db : Database} {authObj : AuthObj} {obj : Obj} {key : IcswKey} :
    key ∈ permsFor (fromDb db authObj) (some obj) <-> Fits db obj key := by
  rw [← AList.lookup_isSome, lookup_permsFor]
  constructor
  · intro h
    cases hperm : db.permDict.lookup key with
    | none =>
      rw [hperm] at h
      cases h
    | some perm =>
      rw [hperm] at h
      rcases lookup_permDict_eq hperm with ⟨hmem, hkey⟩
      by_cases htype : perm.contentType = obj.contentType
      · exact ⟨perm, hmem, htype, hkey⟩
      · simp [htype] at h
  · rintro ⟨perm, hmem, htype, hkey⟩
    rw [← hkey, lookup_permDict db hmem]
    simp [htype]

theorem lookup_getAllObjectPerms_superuser {db : Database} {authObj : AuthObj} {obj : Obj}
    {key : IcswKey} (hsuper : authObj.isSuperuser = true) (hfits : Fits db obj key) :
    (getAllObjectPerms (fromDb db authObj) (some obj)).lookup key = some acFull := by
  unfold getAllObjectPerms
  rw [fromDb_hasAllPerms, hsuper, if_pos rfl, Dict.lookup_comprehend]
  have hmem := AList.lookup_isSome.mpr ((@mem_permsFor db authObj obj key).mpr hfits)
  rcases Option.isSome_iff_exists.mp hmem with ⟨perm, hperm⟩
  rw [hperm]
  rfl

/-- The level of an entry, before entries below zero are dropped. -/
def mergedLevel (self : AuthCache) (obj : Obj) (key : IcswKey) : Int :=
  max (((globalPerms self (some obj)).lookup key).getD (-1))
    (((localPerms self (some obj)).lookup key).getD (-1))

theorem lookup_getAllObjectPerms {self : AuthCache} (hnone : self.hasAllPerms = false)
    (obj : Obj) (key : IcswKey) :
    (getAllObjectPerms self (some obj)).lookup key =
      if 0 ≤ mergedLevel self obj key then some (mergedLevel self obj key) else none := by
  unfold getAllObjectPerms
  rw [hnone]
  simp only [Bool.false_eq_true, if_false, Dict.lookup_comprehend]
  cases hunion : (globalPerms self (some obj) ∪ localPerms self (some obj)).lookup key with
  | some level => rfl
  | none =>
    have habsent := AList.lookup_eq_none.mp hunion
    rw [AList.mem_union, not_or] at habsent
    have hlevel : mergedLevel self obj key = -1 := by
      unfold mergedLevel
      rw [AList.lookup_eq_none.mpr habsent.left, AList.lookup_eq_none.mpr habsent.right]
      rfl
    rw [hlevel]
    rfl

section Levels

variable {db : Database} {authObj : AuthObj} {obj : Obj} {key : IcswKey}

theorem lookup_globalPerms (hfits : Fits db obj key) :
    ((globalPerms (fromDb db authObj) (some obj)).lookup key).getD (-1) =
      rowLevel db authObj key := by
  unfold globalPerms
  rw [Dict.lookup_comprehend, ← globalLevel_fromDb hfits.known]
  unfold globalLevel
  cases (fromDb db authObj).perms.lookup key with
  | none => rfl
  | some level => simp [mem_permsFor.mpr hfits]

theorem objectTable_lookup {pk : Nat} :
    ((objectTable db authObj).lookup key).bind (fun levels => levels.lookup pk) =
      rowObjectLevel db authObj key pk := by
  rw [← objectLevel_fromDb]
  unfold objectLevel
  rw [fromDb_objPerms]

theorem lookup_localPerms_none (hown : rowObjectLevel db authObj key obj.pk = none) :
    (localPerms (fromDb db authObj) (some obj)).lookup key = none := by
  unfold localPerms
  simp only [Dict.lookup_comprehend, fromDb_objPerms]
  rw [← objectTable_lookup] at hown
  cases hlevels : (objectTable db authObj).lookup key with
  | none => rfl
  | some levels =>
    rw [hlevels] at hown
    have habsent : obj.pk ∉ levels := AList.lookup_eq_none.mp hown
    simp [habsent]

theorem lookup_localPerms_some (hfits : Fits db obj key) {own : Int}
    (hown : rowObjectLevel db authObj key obj.pk = some own) :
    exists top, (localPerms (fromDb db authObj) (some obj)).lookup key = some top ∧
      (exists pk, rowObjectLevel db authObj key pk = some top) ∧
      forall pk level, rowObjectLevel db authObj key pk = some level -> level ≤ top := by
  unfold localPerms
  simp only [Dict.lookup_comprehend, fromDb_objPerms]
  rw [← objectTable_lookup] at hown
  cases hlevels : (objectTable db authObj).lookup key with
  | none =>
    rw [hlevels] at hown
    cases hown
  | some levels =>
    rw [hlevels] at hown
    have hrow : forall pk, levels.lookup pk = rowObjectLevel db authObj key pk := by
      intro pk
      rw [← objectTable_lookup, hlevels]
      rfl
    have hmem : obj.pk ∈ levels := AList.lookup_isSome.mp (Option.isSome_iff_exists.mpr ⟨own, hown⟩)
    cases htop : levels.values.max? with
    | none =>
      have hvalue : own ∈ levels.values := Dict.mem_values.mpr ⟨obj.pk, hown⟩
      rw [max?_eq_none_iff.mp htop] at hvalue
      cases hvalue
    | some top =>
      rcases max?_eq_some_iff.mp htop with ⟨hin, hle⟩
      refine ⟨top, by simp [mem_permsFor.mpr hfits, hmem, htop], ?_, ?_⟩
      · rcases Dict.mem_values.mp hin with ⟨pk, hpk⟩
        exact ⟨pk, (hrow pk).symm.trans hpk⟩
      · intro pk level hlevel
        exact hle level (Dict.mem_values.mpr ⟨pk, (hrow pk).trans hlevel⟩)

theorem mergedLevel_without_own (hfits : Fits db obj key)
    (hown : rowObjectLevel db authObj key obj.pk = none) :
    mergedLevel (fromDb db authObj) obj key = max (rowLevel db authObj key) (-1) := by
  unfold mergedLevel
  rw [lookup_globalPerms hfits, lookup_localPerms_none hown]
  rfl

theorem mergedLevel_with_own (hfits : Fits db obj key) {own : Int}
    (hown : rowObjectLevel db authObj key obj.pk = some own) :
    exists top, mergedLevel (fromDb db authObj) obj key = max (rowLevel db authObj key) top ∧
      (exists pk, rowObjectLevel db authObj key pk = some top) ∧
      forall pk level, rowObjectLevel db authObj key pk = some level -> level ≤ top := by
  rcases lookup_localPerms_some hfits hown with ⟨top, htop, hheld, hle⟩
  refine ⟨top, ?_, hheld, hle⟩
  unfold mergedLevel
  rw [lookup_globalPerms hfits, htop]
  rfl

end Levels

structure Granted (db : Database) (grant : RoleObjectPermission) (later : Database) : Prop where
  permissions : later.permissions = db.permissions
  rolePermissions : later.rolePermissions = db.rolePermissions
  rows : exists before after, db.roleObjectPermissions = before ++ after ∧
    later.roleObjectPermissions = before ++ grant :: after

/-- The row is added at the end. -/
def Database.append (db : Database) (grant : RoleObjectPermission)
    (hgrant : grant.cswObjectPermission.cswPermission ∈ db.permissions) : Database :=
  { db with
    roleObjectPermissions := db.roleObjectPermissions ++ [grant]
    objectReferenced := by
      intro row hrow
      rcases mem_append.mp hrow with hold | hnew
      · exact db.objectReferenced row hold
      · rw [mem_singleton.mp hnew]
        exact hgrant }

theorem granted_append (db : Database) (grant : RoleObjectPermission)
    (hgrant : grant.cswObjectPermission.cswPermission ∈ db.permissions) :
    Granted db grant (db.append grant hgrant) where
  permissions := rfl
  rolePermissions := rfl
  rows := ⟨db.roleObjectPermissions, [], (append_nil _).symm, rfl⟩

/-- The user has the new row, and it is about this permission and object. -/
def Names (authObj : AuthObj) (grant : RoleObjectPermission) (key : IcswKey) (pk : Nat) : Prop :=
  grant.role ∈ authObj.roles ∧ grant.key = key ∧ grant.objectPk = pk

instance decidableNames (authObj : AuthObj) (grant : RoleObjectPermission) (key : IcswKey)
    (pk : Nat) : Decidable (Names authObj grant key pk) :=
  inferInstanceAs (Decidable (_ ∧ _ ∧ _))

theorem objectRowsFor_eq (db : Database) (authObj : AuthObj) (key : IcswKey) (pk : Nat) :
    db.objectRowsFor authObj key pk =
      db.roleObjectPermissions.filter fun row => Names authObj row key pk := by
  unfold Database.objectRowsFor Database.objectRowsOf
  rw [filter_filter]
  apply filter_congr
  intro row _
  by_cases hrole : row.role ∈ authObj.roles
  · simp [Names, hrole]
  · simp [Names, hrole]

section Grants

variable {db later : Database} {authObj : AuthObj} {grant : RoleObjectPermission}

section

variable (h : Granted db grant later)
include h

theorem Granted.fits {obj : Obj} {key : IcswKey} :
    Fits later obj key <-> Fits db obj key := by
  unfold Fits
  rw [h.permissions]

theorem Granted.mem :
    grant.cswObjectPermission.cswPermission ∈ db.permissions := by
  rcases h.rows with ⟨before, after, _, hnew⟩
  rw [← h.permissions]
  exact later.objectReferenced grant (by simp [hnew])

theorem Granted.rowLevel_eq (key : IcswKey) :
    rowLevel later authObj key = rowLevel db authObj key := by
  unfold rowLevel Database.rowsFor Database.rowsOf
  rw [h.rolePermissions]

theorem Granted.rowObjectLevel_cases (key : IcswKey) (pk : Nat) :
    rowObjectLevel later authObj key pk = rowObjectLevel db authObj key pk ∨
      Names authObj grant key pk ∧ rowObjectLevel later authObj key pk = some grant.level := by
  rcases h.rows with ⟨before, after, hold, hnew⟩
  unfold rowObjectLevel
  rw [objectRowsFor_eq, objectRowsFor_eq, hold, hnew, filter_append, filter_append]
  by_cases hnames : Names authObj grant key pk
  · rw [filter_cons_of_pos (by simpa using hnames)]
    cases hlast : (after.filter fun row => Names authObj row key pk).getLast? with
    | none =>
      rw [getLast?_eq_none_iff.mp hlast]
      exact Or.inr ⟨hnames, by simp⟩
    | some last =>
      left
      simp [getLast?_append, getLast?_cons, hlast]
  · rw [filter_cons_of_neg (by simpa using hnames)]
    exact Or.inl rfl

end

theorem rowObjectLevel_append (db : Database) (authObj : AuthObj) {grant : RoleObjectPermission}
    (hgrant : grant.cswObjectPermission.cswPermission ∈ db.permissions)
    (hrole : grant.role ∈ authObj.roles) :
    rowObjectLevel (db.append grant hgrant) authObj grant.key grant.objectPk =
      some grant.level := by
  unfold rowObjectLevel
  rw [objectRowsFor_eq]
  show (((db.roleObjectPermissions ++ [grant]).filter _).getLast?).map _ = _
  have hnames : Names authObj grant grant.key grant.objectPk := ⟨hrole, rfl, rfl⟩
  rw [filter_append, filter_cons_of_pos (by simpa using hnames)]
  simp

end Grants

def Elsewhere (obj : Obj) (grant : RoleObjectPermission) : Prop :=
  grant.cswObjectPermission.cswPermission.contentType ≠ obj.contentType ∨
    grant.objectPk ≠ obj.pk

/--
Each entry is the larger of the global level and the level on this very object,
and a grant on another object leaves the entries as they are.
-/
structure Isolated (db : Database) (authObj : AuthObj) (obj : Obj)
    (grant : RoleObjectPermission) : Prop where
  own : forall key level,
    (getAllObjectPerms (fromDb db authObj) (some obj)).lookup key = some level ->
    level = max (globalLevel (fromDb db authObj) key)
      ((objectLevel (fromDb db authObj) key obj.pk).getD (-1))
  others : Elsewhere obj grant -> forall later, Granted db grant later -> forall key,
    (getAllObjectPerms (fromDb later authObj) (some obj)).lookup key =
      (getAllObjectPerms (fromDb db authObj) (some obj)).lookup key

/-- The larger of the global level and the level on the object; levels below zero count as none. -/
def ceiling (db : Database) (authObj : AuthObj) (key : IcswKey) (own : Int) : Int :=
  max (-1) (max (rowLevel db authObj key) own)

/--
Where a permission of the object's type is granted on the object, no other level
granted for it, and not that of the new grant, is above the ceiling.
-/
def Contained (db : Database) (authObj : AuthObj) (obj : Obj)
    (grant : RoleObjectPermission) : Prop :=
  forall perm, perm ∈ db.permissions -> perm.contentType = obj.contentType ->
    forall own, rowObjectLevel db authObj (icswKey perm) obj.pk = some own ->
      if authObj.isSuperuser then own ≤ acFull
      else
        (forall pk level, rowObjectLevel db authObj (icswKey perm) pk = some level ->
          level ≤ ceiling db authObj (icswKey perm) own) ∧
        (grant.cswObjectPermission.cswPermission = perm -> grant.objectPk ≠ obj.pk ->
          grant.role ∈ authObj.roles -> grant.level ≤ ceiling db authObj (icswKey perm) own)

section Entries

variable {db later : Database} {authObj : AuthObj} {obj : Obj} {key : IcswKey}
  {grant : RoleObjectPermission}

theorem lookup_of_not_fits (hfits : ¬ Fits db obj key) :
    (getAllObjectPerms (fromDb db authObj) (some obj)).lookup key = none := by
  have habsent : key ∉ permsFor (fromDb db authObj) (some obj) := fun h => hfits (mem_permsFor.mp h)
  cases hsuper : authObj.isSuperuser with
  | true =>
    unfold getAllObjectPerms
    rw [fromDb_hasAllPerms, hsuper, if_pos rfl, Dict.lookup_comprehend,
      AList.lookup_eq_none.mpr habsent]
    rfl
  | false =>
    have hlevel : mergedLevel (fromDb db authObj) obj key = -1 := by
      simp [mergedLevel, globalPerms, localPerms, habsent]
    rw [lookup_getAllObjectPerms (by rw [fromDb_hasAllPerms, hsuper]), hlevel]
    rfl

section

variable (hsuper : authObj.isSuperuser = false)
include hsuper

theorem lookup_without_own (hfits : Fits db obj key)
    (hown : rowObjectLevel db authObj key obj.pk = none) :
    (getAllObjectPerms (fromDb db authObj) (some obj)).lookup key =
      if 0 ≤ rowLevel db authObj key then some (rowLevel db authObj key) else none := by
  rw [lookup_getAllObjectPerms (by rw [fromDb_hasAllPerms, hsuper]),
    mergedLevel_without_own hfits hown]
  by_cases hlevel : 0 ≤ rowLevel db authObj key
  · rw [if_pos hlevel, if_pos (le_trans hlevel (le_max_left _ _)), max_eq_left (by omega)]
  · rw [if_neg hlevel, if_neg (by omega)]

theorem lookup_contained (hfits : Fits db obj key)
    {own : Int} (hown : rowObjectLevel db authObj key obj.pk = some own)
    (hceiling : forall pk level, rowObjectLevel db authObj key pk = some level ->
      level ≤ ceiling db authObj key own) :
    (getAllObjectPerms (fromDb db authObj) (some obj)).lookup key =
      if 0 ≤ max (rowLevel db authObj key) own then some (max (rowLevel db authObj key) own)
      else none := by
  rcases mergedLevel_with_own hfits hown with ⟨top, hmerged, ⟨pk, hpk⟩, hle⟩
  have htop : top ≤ max (-1) (max (rowLevel db authObj key) own) := hceiling pk top hpk
  have hlow : own ≤ top := hle obj.pk own hown
  rw [lookup_getAllObjectPerms (by rw [fromDb_hasAllPerms, hsuper]), hmerged]
  by_cases hlevel : 0 ≤ max (rowLevel db authObj key) own
  · have heq : max (rowLevel db authObj key) top = max (rowLevel db authObj key) own := by omega
    rw [heq]
  · rw [if_neg hlevel, if_neg (by omega)]

theorem lookup_above (hfits : Fits db obj key)
    {own : Int} (hown : rowObjectLevel db authObj key obj.pk = some own) {pk : Nat} {level : Int}
    (hlevel : rowObjectLevel db authObj key pk = some level)
    (habove : ceiling db authObj key own < level) :
    exists found, (getAllObjectPerms (fromDb db authObj) (some obj)).lookup key = some found ∧
      level ≤ found := by
  rcases mergedLevel_with_own hfits hown with ⟨top, hmerged, _, hle⟩
  have htop : level ≤ top := hle pk level hlevel
  have hzero : -1 < level := lt_of_le_of_lt (le_max_left _ _) habove
  refine ⟨max (rowLevel db authObj key) top, ?_, le_trans htop (le_max_right _ _)⟩
  rw [lookup_getAllObjectPerms (by rw [fromDb_hasAllPerms, hsuper]), hmerged, if_pos (by omega)]

end

theorem Granted.not_names (h : Granted db grant later) (helsewhere : Elsewhere obj grant)
    (hfits : Fits db obj key) : ¬ Names authObj grant key obj.pk := by
  rintro ⟨_, hkey, hpk⟩
  rcases hfits with ⟨perm, hperm, htype, hperms⟩
  have heq : grant.cswObjectPermission.cswPermission = perm :=
    inj_on_of_nodup_map db.distinct h.mem hperm (hkey.trans hperms.symm)
  rcases helsewhere with hother | hother
  · exact hother (heq ▸ htype)
  · exact hother hpk

theorem Granted.own_eq (h : Granted db grant later) (helsewhere : Elsewhere obj grant)
    (hfits : Fits db obj key) :
    rowObjectLevel later authObj key obj.pk = rowObjectLevel db authObj key obj.pk := by
  rcases h.rowObjectLevel_cases key obj.pk with hsame | ⟨hnames, _⟩
  · exact hsame
  · exact absurd hnames (h.not_names helsewhere hfits)

end Entries

section Isolation

variable {db : Database} {authObj : AuthObj} {obj : Obj} {grant : RoleObjectPermission}

theorem entitled_eq {key : IcswKey} (hfits : Fits db obj key) :
    max (globalLevel (fromDb db authObj) key)
        ((objectLevel (fromDb db authObj) key obj.pk).getD (-1)) =
      max (rowLevel db authObj key) ((rowObjectLevel db authObj key obj.pk).getD (-1)) := by
  rw [globalLevel_fromDb hfits.known, objectLevel_fromDb]

theorem rowLevel_superuser (hsuper : authObj.isSuperuser = true) (key : IcswKey) :
    rowLevel db authObj key = acFull := by
  simp [rowLevel, hsuper]

theorem Isolated.contained (h : Isolated db authObj obj grant) :
    Contained db authObj obj grant := by
  intro perm hperm htype own hown
  have hfits : Fits db obj (icswKey perm) := ⟨perm, hperm, htype, rfl⟩
  cases hsuper : authObj.isSuperuser with
  | true =>
    have hentry := h.own _ _ (lookup_getAllObjectPerms_superuser hsuper hfits)
    rw [entitled_eq hfits, hown, rowLevel_superuser hsuper] at hentry
    rw [if_pos rfl, hentry]
    exact le_max_right _ _
  | false =>
    rw [if_neg (by simp)]
    have hbelow : forall level, (exists found,
        (getAllObjectPerms (fromDb db authObj) (some obj)).lookup (icswKey perm) = some found ∧
          level ≤ found) -> level ≤ ceiling db authObj (icswKey perm) own := by
      rintro level ⟨found, hfound, hle⟩
      have hentry := h.own _ _ hfound
      rw [entitled_eq hfits, hown] at hentry
      exact le_trans (hle.trans hentry.le) (le_max_right _ _)
    constructor
    · intro pk level hlevel
      by_contra habove
      exact habove (hbelow level (lookup_above hsuper hfits hown hlevel (not_le.mp habove)))
    · intro hgrant hpk hrole
      by_contra habove
      have hmem : grant.cswObjectPermission.cswPermission ∈ db.permissions := hgrant ▸ hperm
      have hgranted := granted_append db grant hmem
      have hkey : grant.key = icswKey perm := congrArg icswKey hgrant
      have hlater : rowObjectLevel (db.append grant hmem) authObj (icswKey perm) obj.pk =
          some own := (hgranted.own_eq (Or.inr hpk) hfits).trans hown
      have hnew := rowObjectLevel_append db authObj hmem hrole
      rw [hkey] at hnew
      have hceiling : ceiling (db.append grant hmem) authObj (icswKey perm) own < grant.level := by
        unfold ceiling
        rw [hgranted.rowLevel_eq]
        exact not_le.mp habove
      have hfound := lookup_above hsuper (hgranted.fits.mpr hfits) hlater hnew hceiling
      rw [h.others (Or.inr hpk) _ hgranted] at hfound
      exact habove (hbelow grant.level hfound)

section

variable (h : Contained db authObj obj grant)
include h

theorem Contained.own_le
    (hsuper : authObj.isSuperuser = true) {key : IcswKey} (hfits : Fits db obj key) {own : Int}
    (hown : rowObjectLevel db authObj key obj.pk = some own) : own ≤ acFull := by
  rcases hfits with ⟨perm, hperm, htype, hkey⟩
  subst hkey
  have hlevels := h perm hperm htype own hown
  rwa [if_pos hsuper] at hlevels

theorem Contained.ceilings
    (hsuper : authObj.isSuperuser = false) {key : IcswKey} (hfits : Fits db obj key) {own : Int}
    (hown : rowObjectLevel db authObj key obj.pk = some own) :
    (forall pk level, rowObjectLevel db authObj key pk = some level ->
      level ≤ ceiling db authObj key own) ∧
    (forall pk, Names authObj grant key pk -> grant.objectPk ≠ obj.pk ->
      grant.cswObjectPermission.cswPermission ∈ db.permissions ->
      grant.level ≤ ceiling db authObj key own) := by
  rcases hfits with ⟨perm, hperm, htype, hkey⟩
  subst hkey
  have hlevels := h perm hperm htype own hown
  rw [if_neg (by simp [hsuper])] at hlevels
  refine ⟨hlevels.left, ?_⟩
  rintro pk ⟨hrole, hkey, _⟩ hother hmem
  exact hlevels.right (inj_on_of_nodup_map db.distinct hmem hperm hkey) hother hrole

theorem Contained.own {key : IcswKey} {level : Int}
    (hentry : (getAllObjectPerms (fromDb db authObj) (some obj)).lookup key = some level) :
    level = max (globalLevel (fromDb db authObj) key)
      ((objectLevel (fromDb db authObj) key obj.pk).getD (-1)) := by
  by_cases hfits : Fits db obj key
  · rw [entitled_eq hfits]
    cases hsuper : authObj.isSuperuser with
    | true =>
      rw [lookup_getAllObjectPerms_superuser hsuper hfits] at hentry
      cases hentry
      rw [rowLevel_superuser hsuper]
      cases hown : rowObjectLevel db authObj key obj.pk with
      | none => rfl
      | some own => exact (max_eq_left (h.own_le hsuper hfits hown)).symm
    | false =>
      cases hown : rowObjectLevel db authObj key obj.pk with
      | none =>
        rw [lookup_without_own hsuper hfits hown] at hentry
        by_cases hlevel : 0 ≤ rowLevel db authObj key
        · rw [if_pos hlevel] at hentry
          cases hentry
          exact (max_eq_left (by simpa using le_trans (by decide) hlevel)).symm
        · rw [if_neg hlevel] at hentry
          cases hentry
      | some own =>
        rw [lookup_contained hsuper hfits hown (h.ceilings hsuper hfits hown).left] at hentry
        by_cases hlevel : 0 ≤ max (rowLevel db authObj key) own
        · rw [if_pos hlevel] at hentry
          cases hentry
          rfl
        · rw [if_neg hlevel] at hentry
          cases hentry
  · rw [lookup_of_not_fits hfits] at hentry
    cases hentry

theorem Contained.others (helsewhere : Elsewhere obj grant)
    {later : Database} (hgranted : Granted db grant later) (key : IcswKey) :
    (getAllObjectPerms (fromDb later authObj) (some obj)).lookup key =
      (getAllObjectPerms (fromDb db authObj) (some obj)).lookup key := by
  by_cases hfits : Fits db obj key
  · have hlater : Fits later obj key := hgranted.fits.mpr hfits
    have hsame := @Granted.own_eq db later authObj obj key grant hgranted helsewhere hfits
    cases hsuper : authObj.isSuperuser with
    | true =>
      rw [lookup_getAllObjectPerms_superuser hsuper hfits,
        lookup_getAllObjectPerms_superuser hsuper hlater]
    | false =>
      cases hown : rowObjectLevel db authObj key obj.pk with
      | none =>
        rw [lookup_without_own hsuper hfits hown,
          lookup_without_own hsuper hlater (hsame.trans hown), hgranted.rowLevel_eq]
      | some own =>
        rcases h.ceilings hsuper hfits hown with ⟨hlevels, hgrant⟩
        have hceiling : ceiling later authObj key own = ceiling db authObj key own := by
          unfold ceiling
          rw [hgranted.rowLevel_eq]
        have hlevelsLater : forall pk level, rowObjectLevel later authObj key pk = some level ->
            level ≤ ceiling later authObj key own := by
          intro pk level hlevel
          rw [hceiling]
          rcases hgranted.rowObjectLevel_cases key pk with hold | ⟨hnames, hnew⟩
          · exact hlevels pk level (hold.symm.trans hlevel)
          · rw [hnew] at hlevel
            cases hlevel
            have hpk : grant.objectPk ≠ obj.pk := fun heq =>
              hgranted.not_names helsewhere hfits ⟨hnames.left, hnames.right.left, heq⟩
            exact hgrant pk hnames hpk hgranted.mem
        rw [lookup_contained hsuper hfits hown hlevels,
          lookup_contained hsuper hlater (hsame.trans hown) hlevelsLater,
          hgranted.rowLevel_eq]
  · rw [lookup_of_not_fits hfits, lookup_of_not_fits (fun h => hfits (hgranted.fits.mp h))]

end

/-- The rights on an object are its own exactly where no other grant is above them. -/
theorem isolated_iff_contained (db : Database) (authObj : AuthObj) (obj : Obj)
    (grant : RoleObjectPermission) :
    Isolated db authObj obj grant <-> Contained db authObj obj grant :=
  ⟨Isolated.contained, fun h => ⟨fun _ _ hentry => h.own hentry,
    fun helsewhere _ hgranted key => h.others helsewhere hgranted key⟩⟩

end Isolation

def deviceType : ContentType := ⟨"backbone".toList, "device".toList⟩

def changeDisk : CswPermission := ⟨deviceType, "change_disk".toList⟩

/-- One role may read the first device and do everything on the second. -/
def twoDevices : Database where
  permissions := [changeDisk]
  rolePermissions := []
  roleObjectPermissions := [⟨1, ⟨changeDisk, 1⟩, 0⟩, ⟨1, ⟨changeDisk, 2⟩, 7⟩]
  objects := fun _ => {1, 2}
  devices := []
  distinct := by decide
  referenced := by decide
  objectReferenced := by decide

/-- The first device shows the level of the second. -/
theorem second_device_leaks :
    ¬ Isolated twoDevices (.user false [1]) ⟨deviceType, 1, 1⟩ ⟨1, ⟨changeDisk, 3⟩, 0⟩ := by
  intro h
  have hentry : (getAllObjectPerms (fromDb twoDevices (.user false [1]))
      (some ⟨deviceType, 1, 1⟩)).lookup (icswKey changeDisk) = some 7 := by
    decide +kernel
  have hlevel := h.own _ _ hentry
  revert hlevel
  decide +kernel

end Icsw.Permission
