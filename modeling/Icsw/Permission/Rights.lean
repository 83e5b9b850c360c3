import Icsw.Permission.ObjectPerms

/-!
# What the cache answers

Every question to the cache is answered from the rows of the roles: whether a
row names the permission, and which level the last such row has.
-/

namespace Icsw.Permission

open Foundation List

variable (db : Database) (authObj : AuthObj)

def GlobalRight (key : IcswKey) : Prop :=
  authObj.isSuperuser = true ∨ exists row, row ∈ db.rowsOf authObj ∧ row.key = key

def GlobalModelRight (key : ModelKey) : Prop :=
  authObj.isSuperuser = true ∨ exists row, row ∈ db.rowsOf authObj ∧ modelKey row.key = key

/-- Some row grants the permission on some object. -/
def ObjectRight (key : IcswKey) : Prop :=
  exists row, row ∈ db.objectRowsOf authObj ∧ row.key = key

def ObjectRightOn (key : IcswKey) (pk : Nat) : Prop :=
  exists row, row ∈ db.objectRowsOf authObj ∧ row.key = key ∧ row.objectPk = pk

def ObjectModelRightOn (key : ModelKey) (pk : Nat) : Prop :=
  exists row, row ∈ db.objectRowsOf authObj ∧ modelKey row.key = key ∧ row.objectPk = pk

variable {db authObj}

theorem mem_globalTable {key : IcswKey} (hkey : key ∈ db.permDict) :
    key ∈ globalTable db authObj <-> GlobalRight db authObj key := by
  unfold globalTable GlobalRight
  cases hsuper : authObj.isSuperuser with
  | true =>
    rw [if_pos rfl, Dict.mem_update]
    exact ⟨fun _ => Or.inl rfl, fun _ => Or.inr (mem_permDict.mp hkey)⟩
  | false =>
    rw [if_neg (by simp), Dict.mem_update]
    simp

variable {key : ModelKey}

theorem mem_modelPermDict :
    key ∈ modelPermDict db.permDict <->
      exists perm, perm ∈ db.permissions ∧ modelKey (icswKey perm) = key := by
  unfold modelPermDict
  rw [Dict.mem_update]
  constructor
  · rintro (hempty | ⟨entry, hentry, hkey⟩)
    · exact absurd hempty (AList.notMem_empty key)
    · have hlookup : db.permDict.lookup entry.1 = some entry.2 := AList.mem_lookup_iff.mpr hentry
      rcases lookup_permDict_eq hlookup with ⟨hperm, heq⟩
      exact ⟨entry.2, hperm, heq.symm ▸ hkey⟩
  · rintro ⟨perm, hperm, hkey⟩
    exact Or.inr ⟨⟨icswKey perm, perm⟩, AList.mem_lookup_iff.mp (lookup_permDict db hperm), hkey⟩

theorem mem_modelTable (hkey : key ∈ modelPermDict db.permDict) :
    key ∈ modelTable db authObj <-> GlobalModelRight db authObj key := by
  unfold modelTable GlobalModelRight
  cases hsuper : authObj.isSuperuser with
  | true =>
    rw [if_pos rfl, Dict.mem_update]
    exact ⟨fun _ => Or.inl rfl, fun _ => Or.inr (mem_modelPermDict.mp hkey)⟩
  | false =>
    rw [if_neg (by simp), Dict.mem_update]
    simp

theorem mem_objectTable {key : IcswKey} :
    key ∈ objectTable db authObj <-> ObjectRight db authObj key := by
  unfold objectTable ObjectRight
  rw [Dict.mem_update]
  simp

theorem filter_ne_nil {R : Type} {names : R -> Prop} [DecidablePred names] {rows : List R} :
    (rows.filter fun row => names row) ≠ [] <-> exists row, row ∈ rows ∧ names row := by
  simp [filter_eq_nil_iff]

theorem rowObjectLevel_isSome {key : IcswKey} {pk : Nat} :
    (rowObjectLevel db authObj key pk).isSome = true <-> ObjectRightOn db authObj key pk := by
  unfold rowObjectLevel ObjectRightOn
  rw [Option.isSome_map, getLast?_isSome]
  exact filter_ne_nil

theorem mem_objectLevels {key : IcswKey} {levels : Dict Nat Int}
    (hlevels : (objectTable db authObj).lookup key = some levels) {pk : Nat} :
    pk ∈ levels <-> ObjectRightOn db authObj key pk := by
  rw [← rowObjectLevel_isSome, ← objectLevel_fromDb, ← AList.lookup_isSome]
  unfold objectLevel
  rw [fromDb_objPerms, hlevels]
  rfl

theorem mem_modelObjectLevels {levels : Dict Nat Int}
    (hlevels : (modelObjectTable db authObj).lookup key = some levels) {pk : Nat} :
    pk ∈ levels <-> ObjectModelRightOn db authObj key pk := by
  have hlookup : levels.lookup pk =
      ((modelObjectTable db authObj).lookup key).bind (fun dict => dict.lookup pk) := by
    rw [hlevels]
    rfl
  rw [← AList.lookup_isSome, hlookup]
  unfold modelObjectTable ObjectModelRightOn
  rw [Dict.lookup_update_updateInner, Dict.isSome_foldl_some]
  exact filter_ne_nil

theorem getCodeKey_fromDb (key : IcswKey) :
    getCodeKey (fromDb db authObj) key =
      if key ∈ db.permDict then .ok key else .error .improperlyConfigured := by
  unfold getCodeKey
  rw [fromDb_permDict]

theorem getModelCodeKey_fromDb (key : ModelKey) :
    getModelCodeKey (fromDb db authObj) key =
      if key ∈ modelPermDict db.permDict then .ok key else .error .improperlyConfigured := by
  unfold getModelCodeKey
  rw [fromDb_modelPermDict]

def levelOn (db : Database) (authObj : AuthObj) (key : IcswKey) (pk : Option Nat) : Int :=
  (pk.bind (rowObjectLevel db authObj key)).getD (rowLevel db authObj key)

theorem getObjectPermissionLevel_fromDb (key : IcswKey) (obj : Option Obj) :
    getObjectPermissionLevel (fromDb db authObj) key obj =
      if key ∈ db.permDict then .ok (levelOn db authObj key (obj.map Obj.pk))
      else .error .improperlyConfigured := by
  unfold getObjectPermissionLevel levelOn
  rw [getCodeKey_fromDb]
  by_cases hkey : key ∈ db.permDict
  · rw [if_pos hkey, if_pos hkey, ← globalLevel_fromDb hkey]
    cases obj with
    | none => rfl
    | some obj =>
      show Except.ok _ = Except.ok _
      rw [objectLevel_fromDb]
      rfl
  · rw [if_neg hkey, if_neg hkey]
    rfl

theorem hasGlobalPermission_fromDb (key : IcswKey) :
    hasGlobalPermission (fromDb db authObj) key =
      if key ∈ db.permDict then .ok (decide (key ∈ globalTable db authObj))
      else .error .improperlyConfigured := by
  unfold hasGlobalPermission
  rw [getCodeKey_fromDb, fromDb_perms]
  by_cases hkey : key ∈ db.permDict
  · rw [if_pos hkey, if_pos hkey]
    rfl
  · rw [if_neg hkey, if_neg hkey]
    rfl

theorem hasGlobalModelPermission_fromDb (key : ModelKey) :
    hasGlobalModelPermission (fromDb db authObj) key =
      if key ∈ modelPermDict db.permDict then .ok (decide (key ∈ modelTable db authObj))
      else .error .improperlyConfigured := by
  unfold hasGlobalModelPermission
  rw [getModelCodeKey_fromDb, fromDb_modelPerms]
  by_cases hkey : key ∈ modelPermDict db.permDict
  · rw [if_pos hkey, if_pos hkey]
    rfl
  · rw [if_neg hkey, if_neg hkey]
    rfl

theorem hasGlobalPermission_iff {key : IcswKey} :
    hasGlobalPermission (fromDb db authObj) key = .ok true <->
      key ∈ db.permDict ∧ GlobalRight db authObj key := by
  rw [hasGlobalPermission_fromDb]
  by_cases hkey : key ∈ db.permDict
  · simp [hkey, mem_globalTable hkey]
  · simp [hkey]

theorem hasGlobalModelPermission_iff :
    hasGlobalModelPermission (fromDb db authObj) key = .ok true <->
      key ∈ modelPermDict db.permDict ∧ GlobalModelRight db authObj key := by
  rw [hasGlobalModelPermission_fromDb]
  by_cases hkey : key ∈ modelPermDict db.permDict
  · simp [hkey, mem_modelTable hkey]
  · simp [hkey]

def ObjectRightFor (db : Database) (authObj : AuthObj) (key : IcswKey) : Option Obj -> Prop
  | none => ObjectRight db authObj key
  | some obj => key.appLabel = obj.contentType.appLabel ∧ ObjectRightOn db authObj key obj.pk

theorem hasObjectPermission_iff {key : IcswKey} {obj : Option Obj} :
    hasObjectPermission (fromDb db authObj) key obj = .ok true <->
      key ∈ db.permDict ∧ (GlobalRight db authObj key ∨ ObjectRightFor db authObj key obj) := by
  unfold hasObjectPermission
  rw [getCodeKey_fromDb, hasGlobalPermission_fromDb, fromDb_objPerms]
  by_cases hkey : key ∈ db.permDict
  · rw [if_pos hkey, if_pos hkey, ← mem_globalTable hkey]
    by_cases hglobal : key ∈ globalTable db authObj
    · simp [hglobal, hkey, bind, Except.bind, pure, Except.pure]
    · cases hlevels : (objectTable db authObj).lookup key with
      | none =>
        have hnone : ¬ ObjectRight db authObj key :=
          fun h => AList.lookup_eq_none.mp hlevels (mem_objectTable.mpr h)
        have hnoneFor : ¬ ObjectRightFor db authObj key obj := by
          cases obj with
          | none => exact hnone
          | some obj => exact fun ⟨_, row, hrow, hrowKey, _⟩ => hnone ⟨row, hrow, hrowKey⟩
        simp [hglobal, hkey, hlevels, hnoneFor, bind, Except.bind, pure, Except.pure]
      | some levels =>
        have hsome : ObjectRight db authObj key := mem_objectTable.mp (Dict.mem_of_lookup hlevels)
        cases obj with
        | none =>
          simp [hglobal, hkey, hlevels, ObjectRightFor, hsome, bind, Except.bind, pure,
            Except.pure]
        | some obj =>
          simp [hglobal, hkey, hlevels, ObjectRightFor, mem_objectLevels hlevels, bind,
            Except.bind, pure, Except.pure]
  · rw [if_neg hkey]
    simp [hkey, bind, Except.bind]

/-- The object is in the answered set. -/
def Allowed (db : Database) (authObj : AuthObj) (key : IcswKey) (pk : Nat) : Prop :=
  exists pks, getAllowedObjectList (fromDb db authObj) db key = .ok pks ∧ pk ∈ pks

def AllowedModel (db : Database) (authObj : AuthObj) (key : ModelKey) (pk : Nat) : Prop :=
  exists pks, getAllowedObjectListModel (fromDb db authObj) db key = .ok pks ∧ pk ∈ pks

theorem allowed_iff {perm : CswPermission} (hperm : perm ∈ db.permissions) {pk : Nat} :
    Allowed db authObj (icswKey perm) pk <->
      (GlobalRight db authObj (icswKey perm) ∧ pk ∈ db.objects perm.contentType) ∨
      (¬ GlobalRight db authObj (icswKey perm) ∧ ObjectRightOn db authObj (icswKey perm) pk) := by
  have hkey : icswKey perm ∈ db.permDict := mem_permDict.mpr ⟨perm, hperm, rfl⟩
  unfold Allowed getAllowedObjectList
  rw [getCodeKey_fromDb, hasGlobalPermission_fromDb, fromDb_objPerms, fromDb_authObj,
    fromDb_permDict, if_pos hkey, if_pos hkey]
  by_cases hglobal : GlobalRight db authObj (icswKey perm)
  · have htable : icswKey perm ∈ globalTable db authObj := (mem_globalTable hkey).mpr hglobal
    simp [htable, hglobal, lookup_permDict db hperm, bind, Except.bind, pure, Except.pure]
  · have htable : icswKey perm ∉ globalTable db authObj :=
      fun h => hglobal ((mem_globalTable hkey).mp h)
    have hsuper : authObj.isSuperuser = false :=
      eq_false_of_ne_true fun h => hglobal (Or.inl h)
    cases hlevels : (objectTable db authObj).lookup (icswKey perm) with
    | none =>
      have hnone : ¬ ObjectRightOn db authObj (icswKey perm) pk := by
        rintro ⟨row, hrow, hrowKey, _⟩
        exact AList.lookup_eq_none.mp hlevels (mem_objectTable.mpr ⟨row, hrow, hrowKey⟩)
      simp [htable, hglobal, hsuper, hlevels, hnone, bind, Except.bind, pure, Except.pure]
    | some levels =>
      have hmem := @mem_objectLevels db authObj _ levels hlevels pk
      rw [AList.mem_keys] at hmem
      simp [htable, hglobal, hsuper, hlevels, hmem, bind, Except.bind, pure, Except.pure]

def modelPerm (db : Database) (key : ModelKey) : Option CswPermission :=
  ((modelPermDict db.permDict).lookup key).bind fun perms => perms.values.head?

theorem lookup_modelPermDict (db : Database) (key : ModelKey) (name : IcswKey) :
    ((modelPermDict db.permDict).lookup key).bind (fun perms => perms.lookup name) =
      ((db.permDict.entries.filter fun entry =>
        modelKey entry.1 = key ∧ entry.1 = name).getLast?).map Sigma.snd := by
  have hfold := Dict.lookup_update_updateInner (fun entry => modelKey entry.1) Sigma.fst
    (fun _ entry => entry.2) db.permDict.entries key name
  rw [Dict.foldl_assign, Option.or_none] at hfold
  exact hfold

theorem exists_modelPerm (hkey : key ∈ modelPermDict db.permDict) :
    exists perm, modelPerm db key = some perm ∧ perm ∈ db.permissions ∧
      modelKey (icswKey perm) = key := by
  unfold modelPerm
  cases hperms : (modelPermDict db.permDict).lookup key with
  | none => exact absurd hkey (AList.lookup_eq_none.mp hperms)
  | some perms =>
    have hlookup : forall name, perms.lookup name = _ :=
      fun name => (hperms ▸ lookup_modelPermDict db key name :)
    show exists perm, perms.values.head? = some perm ∧ perm ∈ db.permissions ∧
      modelKey (icswKey perm) = key
    cases hvalues : perms.values with
    | nil =>
      -- the permission that made the key known is among the values
      rcases mem_modelPermDict.mp hkey with ⟨perm, hperm, hmodel⟩
      have hentry : Sigma.mk (icswKey perm) perm ∈ db.permDict.entries :=
        AList.mem_lookup_iff.mp (lookup_permDict db hperm)
      have hsome : (perms.lookup (icswKey perm)).isSome = true := by
        rw [hlookup, Option.isSome_map, getLast?_isSome]
        exact filter_ne_nil.mpr ⟨_, hentry, hmodel, rfl⟩
      rcases Option.isSome_iff_exists.mp hsome with ⟨held, hheld⟩
      have hmem := Dict.mem_values.mpr ⟨_, hheld⟩
      rw [hvalues] at hmem
      cases hmem
    | cons perm rest =>
      refine ⟨perm, rfl, ?_⟩
      rcases Dict.mem_values.mp (hvalues ▸ mem_cons_self : perm ∈ perms.values) with
        ⟨name, hname⟩
      rw [hlookup] at hname
      rcases Option.map_eq_some_iff.mp hname with ⟨entry, hlast, heq⟩
      rcases mem_filter.mp (mem_of_getLast? hlast) with ⟨hentry, hnames⟩
      rcases lookup_permDict_eq (AList.mem_lookup_iff.mpr hentry) with ⟨hperm, hkeyOf⟩
      rw [← heq]
      have hmodel : modelKey entry.1 = key ∧ entry.1 = name := by simpa using hnames
      exact ⟨hperm, hkeyOf ▸ hmodel.left⟩

theorem allowedModel_iff {perm : CswPermission} (hperm : modelPerm db key = some perm) {pk : Nat} :
    AllowedModel db authObj key pk <->
      (GlobalModelRight db authObj key ∧ pk ∈ db.objects perm.contentType) ∨
      (¬ GlobalModelRight db authObj key ∧ ObjectModelRightOn db authObj key pk) := by
  rcases Option.bind_eq_some_iff.mp hperm with ⟨perms, hperms, hhead⟩
  have hkey : key ∈ modelPermDict db.permDict := Dict.mem_of_lookup hperms
  rcases head?_eq_some_iff.mp hhead with ⟨rest, hvalues⟩
  unfold AllowedModel getAllowedObjectListModel
  rw [getModelCodeKey_fromDb, hasGlobalModelPermission_fromDb, fromDb_modelObjPerms,
    fromDb_authObj, fromDb_modelPermDict, if_pos hkey, if_pos hkey]
  by_cases hglobal : GlobalModelRight db authObj key
  · have htable : key ∈ modelTable db authObj := (mem_modelTable hkey).mpr hglobal
    simp [htable, hglobal, hperms, hvalues, bind, Except.bind, pure, Except.pure]
  · have htable : key ∉ modelTable db authObj := fun h => hglobal ((mem_modelTable hkey).mp h)
    have hsuper : authObj.isSuperuser = false :=
      eq_false_of_ne_true fun h => hglobal (Or.inl h)
    cases hlevels : (modelObjectTable db authObj).lookup key with
    | none =>
      have hnone : ¬ ObjectModelRightOn db authObj key pk := by
        rintro ⟨row, hrow, hrowKey, _⟩
        exact AList.lookup_eq_none.mp hlevels (Dict.mem_update.mpr (Or.inr ⟨row, hrow, hrowKey⟩))
      simp [htable, hglobal, hsuper, hlevels, hnone, bind, Except.bind, pure, Except.pure]
    | some levels =>
      have hmem := @mem_modelObjectLevels db authObj key levels hlevels pk
      rw [AList.mem_keys] at hmem
      simp [htable, hglobal, hsuper, hlevels, hmem, bind, Except.bind, pure, Except.pure]

theorem AllowedModel.known {pk : Nat} (h : AllowedModel db authObj key pk) :
    key ∈ modelPermDict db.permDict := by
  rcases h with ⟨pks, hpks, _⟩
  by_contra hkey
  unfold getAllowedObjectListModel at hpks
  rw [getModelCodeKey_fromDb, if_neg hkey] at hpks
  cases hpks

/-!
## The list of allowed objects and the single check

Lists show the objects that `get_allowed_object_list` returns, a single object is shown where
`has_object_permission` holds.  Both ask for a right on all objects first and for grants on
single objects after that, so they agree on the objects of the permission's model.
-/

structure MatchesChecks (db : Database) (authObj : AuthObj) (perm : CswPermission)
    (pks : Finset Nat) : Prop where
  object : forall obj : Obj, obj.contentType = perm.contentType ->
    obj.pk ∈ db.objects perm.contentType ->
      (obj.pk ∈ pks <->
        hasObjectPermission (fromDb db authObj) (icswKey perm) (some obj) = .ok true)
  anyObject : hasObjectPermission (fromDb db authObj) (icswKey perm) none = .ok true <->
    hasGlobalPermission (fromDb db authObj) (icswKey perm) = .ok true ∨ pks.Nonempty
  grants : hasObjectPermission (fromDb db authObj) (icswKey perm) none = .ok true <->
    GlobalRight db authObj (icswKey perm) ∨
      exists pk, ObjectRightOn db authObj (icswKey perm) pk

theorem objectRight_iff {key : IcswKey} :
    ObjectRight db authObj key <-> exists pk, ObjectRightOn db authObj key pk := by
  constructor
  · rintro ⟨row, hrow, hkey⟩
    exact ⟨row.objectPk, row, hrow, hkey, rfl⟩
  · rintro ⟨pk, row, hrow, hkey, _⟩
    exact ⟨row, hrow, hkey⟩

section Known

variable {perm : CswPermission} (hperm : perm ∈ db.permissions)

include hperm

theorem known_icswKey : icswKey perm ∈ db.permDict := mem_permDict.mpr ⟨perm, hperm, rfl⟩

theorem hasObjectPermission_on_iff {obj : Obj} (htype : obj.contentType = perm.contentType) :
    hasObjectPermission (fromDb db authObj) (icswKey perm) (some obj) = .ok true <->
      GlobalRight db authObj (icswKey perm) ∨ ObjectRightOn db authObj (icswKey perm) obj.pk := by
  have hlabel : (icswKey perm).appLabel = obj.contentType.appLabel := by
    rw [htype]
    rfl
  rw [hasObjectPermission_iff]
  constructor
  · rintro ⟨_, hglobal | hobject⟩
    · exact Or.inl hglobal
    · exact Or.inr hobject.right
  · rintro (hglobal | hobject)
    · exact ⟨known_icswKey hperm, Or.inl hglobal⟩
    · exact ⟨known_icswKey hperm, Or.inr ⟨hlabel, hobject⟩⟩

theorem hasObjectPermission_any_iff :
    hasObjectPermission (fromDb db authObj) (icswKey perm) none = .ok true <->
      GlobalRight db authObj (icswKey perm) ∨
        exists pk, ObjectRightOn db authObj (icswKey perm) pk := by
  rw [hasObjectPermission_iff]
  constructor
  · rintro ⟨_, hglobal | hobject⟩
    · exact Or.inl hglobal
    · exact Or.inr (objectRight_iff.mp hobject)
  · rintro (hglobal | hobject)
    · exact ⟨known_icswKey hperm, Or.inl hglobal⟩
    · exact ⟨known_icswKey hperm, Or.inr (objectRight_iff.mpr hobject)⟩

/-- The list is answered, and holds what `allowed_iff` says. -/
theorem exists_allowedObjectList (authObj : AuthObj) :
    exists pks, getAllowedObjectList (fromDb db authObj) db (icswKey perm) = .ok pks ∧
      forall pk, pk ∈ pks <->
        (GlobalRight db authObj (icswKey perm) ∧ pk ∈ db.objects perm.contentType) ∨
          (¬ GlobalRight db authObj (icswKey perm) ∧
            ObjectRightOn db authObj (icswKey perm) pk) := by
  have hanswer : exists pks,
      getAllowedObjectList (fromDb db authObj) db (icswKey perm) = .ok pks := by
    have hkey := known_icswKey hperm
    unfold getAllowedObjectList
    rw [getCodeKey_fromDb, hasGlobalPermission_fromDb, fromDb_permDict, if_pos hkey, if_pos hkey]
    simp only [bind, Except.bind, lookup_permDict db hperm]
    split
    · exact ⟨_, rfl⟩
    · split
      · exact ⟨_, rfl⟩
      · exact ⟨_, rfl⟩
  rcases hanswer with ⟨pks, hpks⟩
  refine ⟨pks, hpks, fun pk => ?_⟩
  rw [← allowed_iff hperm]
  constructor
  · intro hmem
    exact ⟨pks, hpks, hmem⟩
  · rintro ⟨other, hother, hmem⟩
    rw [hpks] at hother
    cases hother
    exact hmem

end Known

/-- Lists and checks agree for every permission, and there always is a list. -/
theorem allowedObjectList_matches (db : Database) (authObj : AuthObj) {perm : CswPermission}
    (hperm : perm ∈ db.permissions) :
    exists pks, getAllowedObjectList (fromDb db authObj) db (icswKey perm) = .ok pks ∧
      MatchesChecks db authObj perm pks := by
  rcases exists_allowedObjectList hperm authObj with ⟨pks, hpks, hmem⟩
  refine ⟨pks, hpks, ?_, ?_, hasObjectPermission_any_iff hperm⟩
  · intro obj htype hstored
    rw [hmem, hasObjectPermission_on_iff hperm htype]
    by_cases hglobal : GlobalRight db authObj (icswKey perm)
    · simp [hglobal, hstored]
    · simp [hglobal]
  · rw [hasObjectPermission_any_iff hperm, hasGlobalPermission_iff]
    constructor
    · rintro (hglobal | ⟨pk, hobject⟩)
      · exact Or.inl ⟨known_icswKey hperm, hglobal⟩
      · by_cases hglobal : GlobalRight db authObj (icswKey perm)
        · exact Or.inl ⟨known_icswKey hperm, hglobal⟩
        · exact Or.inr ⟨pk, (hmem pk).mpr (Or.inr ⟨hglobal, hobject⟩)⟩
    · rintro (⟨_, hglobal⟩ | ⟨pk, hpk⟩)
      · exact Or.inl hglobal
      · rcases (hmem pk).mp hpk with ⟨hglobal, _⟩ | ⟨_, hobject⟩
        · exact Or.inl hglobal
        · exact Or.inr ⟨pk, hobject⟩

/-- A role with grants on two devices. -/
theorem twoDevices_matches :
    exists pks, getAllowedObjectList (fromDb twoDevices (.user false [1])) twoDevices
        (icswKey changeDisk) = .ok pks ∧
      MatchesChecks twoDevices (.user false [1]) changeDisk pks :=
  allowedObjectList_matches twoDevices (.user false [1]) (by decide)

section DgLut

variable (db)

/-- Only the table of meta-devices has been filled, with those of the devices. -/
structure Filled (start cache : AuthCache) : Prop where
  permDict : cache.permDict = start.permDict
  perms : cache.perms = start.perms
  objPerms : cache.objPerms = start.objPerms
  dgLut : forall pk metaPk, cache.dgLut.lookup pk = some metaPk ->
    exists member, member ∈ db.devices ∧ member.pk = pk ∧ member.metaDevice = metaPk

def askedFor (self : AuthCache) (devs : List Obj) : AuthCache :=
  devs.foldl (fun self dev => fillDgLut self db dev) self

variable {db} {start self : AuthCache}

theorem Filled.fillDgLut (h : Filled db start self) (dev : Obj) :
    Filled db start (fillDgLut self db dev) := by
  unfold Permission.fillDgLut
  split
  · exact h
  · refine { h with dgLut := fun pk metaPk hlookup => ?_ }
    rw [Dict.lookup_update, Dict.foldl_assign] at hlookup
    rcases Option.or_eq_some_iff.mp hlookup with hlast | ⟨_, hheld⟩
    · rcases Option.map_eq_some_iff.mp hlast with ⟨member, hmember, rfl⟩
      rcases mem_filter.mp (mem_of_getLast? hmember) with ⟨hin, hpk⟩
      exact ⟨member, (mem_filter.mp hin).left, of_decide_eq_true hpk, rfl⟩
    · exact h.dgLut pk metaPk hheld

theorem Filled.askedFor (h : Filled db start self) (devs : List Obj) :
    Filled db start (askedFor db self devs) := by
  induction devs generalizing self with
  | nil => exact h
  | cons dev rest ih => exact ih (h.fillDgLut dev)

theorem Filled.lookup_fillDgLut (h : Filled db start self)
    (hdistinct : (db.devices.map GroupMember.pk).Nodup) {dev : Obj} {metaPk : Option Nat}
    (hmember : ⟨dev.pk, dev.deviceGroup, metaPk⟩ ∈ db.devices) :
    (Permission.fillDgLut self db dev).dgLut.lookup dev.pk = some metaPk := by
  have hin : dev.pk ∈ (Permission.fillDgLut self db dev).dgLut := by
    unfold Permission.fillDgLut
    split
    · assumption
    · exact Dict.mem_update.mpr (Or.inr ⟨_, mem_filter.mpr ⟨hmember, by simp⟩, rfl⟩)
  rcases Dict.exists_lookup hin with ⟨held, hheld⟩
  rcases (h.fillDgLut dev).dgLut _ _ hheld with ⟨other, hother, hpk, rfl⟩
  rw [hheld, inj_on_of_nodup_map hdistinct hother hmember hpk]

theorem Filled.accessPerms (h : Filled db start self) (obj : Obj) :
    accessPerms self obj = Permission.accessPerms start obj := by
  unfold Permission.accessPerms
  rw [h.permDict]

theorem Filled.accessLevel (h : Filled db (fromDb db authObj) self) {key : IcswKey}
    (hkey : key ∈ db.permDict) (pk : Option Nat) :
    accessLevel self key pk = levelOn db authObj key pk := by
  unfold Permission.accessLevel levelOn
  rw [← globalLevel_fromDb hkey]
  unfold globalLevel
  rw [h.perms]
  cases pk with
  | none => rfl
  | some pk =>
    show (objectLevel self key pk).getD _ = (rowObjectLevel db authObj key pk).getD _
    rw [← objectLevel_fromDb, objectLevel, objectLevel, h.objPerms]

end DgLut

/--
Whatever devices have been asked for before, the level shown for a permission on a device is the
higher one of those of the device and of its meta-device.
-/
theorem deviceAccessLevels (db : Database) (authObj : AuthObj) (asked : List Obj) {dev : Obj}
    {metaPk : Option Nat} (hdistinct : (db.devices.map GroupMember.pk).Nodup)
    (hmember : ⟨dev.pk, dev.deviceGroup, metaPk⟩ ∈ db.devices)
    (hdevice : dev.contentType.model = "device".toList) :
    exists levels after,
      getObjectAccessLevels (askedFor db (fromDb db authObj) asked) db dev false =
          .ok (levels, after) ∧
        forall key, levels.lookup key =
          if key ∈ accessPerms (fromDb db authObj) dev ∧
              0 ≤ max (levelOn db authObj key (some dev.pk)) (levelOn db authObj key metaPk) then
            some (max (levelOn db authObj key (some dev.pk)) (levelOn db authObj key metaPk))
          else none := by
  have hstart : Filled db (fromDb db authObj) (fromDb db authObj) := by
    refine ⟨rfl, rfl, rfl, fun pk metaPk hlookup => ?_⟩
    rw [fromDb_eq] at hlookup
    cases hlookup
  have hasked := hstart.askedFor asked
  generalize askedFor db (fromDb db authObj) asked = self at hasked ⊢
  have hfilled := hasked.fillDgLut dev
  unfold getObjectAccessLevels
  simp only [Bool.false_eq_true, if_false, hdevice, not_true_eq_false, ne_eq,
    hasked.lookup_fillDgLut hdistinct hmember]
  refine ⟨_, _, rfl, fun key => ?_⟩
  rw [Dict.lookup_comprehend, hfilled.accessPerms]
  cases hperm : (accessPerms (fromDb db authObj) dev).lookup key with
  | none => exact (if_neg fun hboth => AList.lookup_eq_none.mp hperm hboth.left).symm
  | some perm =>
    have hkey : key ∈ db.permDict := by
      unfold accessPerms at hperm
      rw [Dict.lookup_comprehend, fromDb_permDict] at hperm
      rcases Option.bind_eq_some_iff.mp hperm with ⟨held, hheld, _⟩
      exact Dict.mem_of_lookup hheld
    have hown : (ownAccessLevels self dev).lookup key =
        if 0 ≤ levelOn db authObj key (some dev.pk) then
          some (levelOn db authObj key (some dev.pk)) else none := by
      unfold ownAccessLevels
      rw [Dict.lookup_comprehend, hasked.accessPerms, hperm]
      exact congrArg (fun level => if 0 ≤ level then some level else none)
        (hasked.accessLevel hkey _)
    simp only [Option.bind_some, ← AList.lookup_isSome, hown, hfilled.accessLevel hkey, hperm]
    generalize levelOn db authObj key (some dev.pk) = own
    generalize levelOn db authObj key metaPk = ofMeta
    by_cases hlevel : 0 ≤ own
    · simp [hlevel]
    · rw [if_neg hlevel]
      by_cases hmeta : 0 ≤ ofMeta
      · simp [hmeta, max_eq_right (le_trans (le_of_lt (not_le.mp hlevel)) hmeta)]
      · simp [hlevel, hmeta]

/-- The second device is the meta-device of the first one. -/
def grouped : Database := { twoDevices with devices := [⟨1, 1, some 2⟩, ⟨2, 1, some 2⟩] }

theorem grouped_level : exists levels after,
    getObjectAccessLevels (fromDb grouped (.user false [1])) grouped ⟨deviceType, 1, 1⟩ false =
        .ok (levels, after) ∧
      levels.lookup (icswKey changeDisk) = some 7 := by
  rcases @deviceAccessLevels grouped (.user false [1]) [] ⟨deviceType, 1, 1⟩ (some 2) (by decide)
    (by decide) (by decide) with ⟨levels, after, hlevels, hlookup⟩
  exact ⟨levels, after, hlevels, (hlookup _).trans (by decide +kernel)⟩

end Icsw.Permission
