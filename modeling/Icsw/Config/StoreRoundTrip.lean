import Icsw.Config.Store

/-!
# Round trip of config stores

A store that is written and read again keeps its variables, and is written the same
way again, if every variable has the type that its value gives, the store has an
access mode and a document can carry its texts.
-/

namespace Icsw.Config

open Foundation List

/-- What a user of the store sees of a variable. -/
def ConfigVar.observed (var : ConfigVar) : Value × VarType × Text :=
  (var.getValue, var.type, var.description)

/-- What the parser leaves of a value. -/
def Value.reread : Value -> Value
  | .str [] => .none
  | value => value

def ConfigVar.reread (var : ConfigVar) : ConfigVar :=
  ConfigVar.new var.name var.value.reread var.description

theorem Value.type_reread (value : Value) : value.reread.type = value.type := by
  cases value with
  | int value => rfl
  | bool value => rfl
  | str value =>
    cases value with
    | nil => rfl
    | cons c rest => rfl
  | none => rfl

theorem ConfigVar.elementText_reread (var : ConfigVar) :
    var.reread.elementText = var.elementText := by
  rcases var with ⟨name, value, type, description, suits⟩
  cases value with
  | int value => rfl
  | bool value => rfl
  | str value =>
    cases value with
    | nil => rfl
    | cons c rest => rfl
  | none => rfl

def ConfigVar.legal (var : ConfigVar) : Bool :=
  legalText var.name && legalText var.elementText && legalText var.description

theorem ConfigVar.legal_reread (var : ConfigVar) : var.reread.legal = var.legal := by
  unfold ConfigVar.legal
  rw [var.elementText_reread]
  rfl

/-- The element of a variable that a document can carry. -/
def ConfigVar.keyElement (var : ConfigVar) : KeyElement where
  name := var.name
  type := var.type
  description := if var.description = [] then none else some var.description
  text := some var.elementText

theorem ConfigVar.getElement_legal {var : ConfigVar} (h : var.legal = true) :
    var.getElement = .ok var.keyElement :=
  if_pos h

section

variable (var : ConfigVar)
include var

theorem ConfigVar.getD_description :
    var.keyElement.description.getD [] = var.description := by
  unfold ConfigVar.keyElement
  by_cases h : var.description = []
  · simp [h]
  · simp [h]

theorem ConfigVar.parsed_text :
    var.keyElement.parsed.text = if var.elementText = [] then none else some var.elementText := by
  unfold KeyElement.parsed ConfigVar.keyElement
  by_cases h : var.elementText = []
  · simp [h]
  · simp [h]

theorem ConfigVar.interpret_parsed :
    ConfigVar.interpret var.keyElement.parsed = .ok var.reread := by
  have hdescription : var.keyElement.parsed.description.getD [] = var.description :=
    var.getD_description
  have hname : var.keyElement.parsed.name = var.name := rfl
  have htype : var.keyElement.parsed.type = var.type := rfl
  have htext := var.parsed_text
  have hsuits := var.suits
  unfold ConfigVar.interpret ConfigVar.reread
  rw [hdescription, hname, htype, htext]
  unfold ConfigVar.elementText
  cases hvalue : var.value with
  | int value =>
    rw [hvalue] at hsuits
    cases htype : var.type with
    | int =>
      simp only [if_neg (formatInt_ne_nil value), Option.bind_some, parseInt_formatInt]
      rfl
    | bool => rw [htype] at hsuits; cases hsuits
    | str => rw [htype] at hsuits; cases hsuits
    | password => rw [htype] at hsuits; cases hsuits
  | bool value =>
    rw [hvalue] at hsuits
    cases htype : var.type with
    | bool =>
      cases value with
      | false => rfl
      | true => rfl
    | int => rw [htype] at hsuits; cases hsuits
    | str => rw [htype] at hsuits; cases hsuits
    | password => rw [htype] at hsuits; cases hsuits
  | str value =>
    rw [hvalue] at hsuits
    cases htype : var.type with
    | int => rw [htype] at hsuits; cases hsuits
    | bool => rw [htype] at hsuits; cases hsuits
    | str | password =>
      cases value with
      | nil => rfl
      | cons c rest => rfl
  | none =>
    rw [hvalue] at hsuits
    cases htype : var.type with
    | int => rw [htype] at hsuits; cases hsuits
    | bool => rw [htype] at hsuits; cases hsuits
    | str => rfl
    | password => rfl

theorem ConfigVar.getValue_reread : var.reread.getValue = var.getValue := by
  rcases var with ⟨name, value, type, description, suits⟩
  cases value with
  | int value =>
    cases type with
    | int => rfl
    | bool => cases suits
    | str => cases suits
    | password => cases suits
  | bool value =>
    cases type with
    | bool => rfl
    | int => cases suits
    | str => cases suits
    | password => cases suits
  | str value =>
    cases type with
    | int => cases suits
    | bool => cases suits
    | str | password =>
      cases value with
      | nil => rfl
      | cons c rest => rfl
  | none =>
    cases type with
    | int => cases suits
    | bool => cases suits
    | str => rfl
    | password => rfl

end

theorem ConfigVar.observed_reread {var : ConfigVar} :
    var.reread.observed = var.observed <-> var.value.type = var.type := by
  have htype : var.reread.type = var.value.type := var.value.type_reread
  unfold ConfigVar.observed
  rw [var.getValue_reread, htype]
  constructor
  · intro h
    exact congrArg (fun seen => seen.2.1) h
  · intro h
    rw [h]
    rfl

/-- A document can carry all texts of the store. -/
structure ConfigStore.Legal (store : ConfigStore) : Prop where
  name : legalText store.name = true
  keyPrefix : legalText (store.keyPrefix.getD []) = true
  vars : forall {key var}, store.vars.lookup key = some var -> var.legal = true

namespace ConfigStore

variable (store : ConfigStore)

def varOf (key : Text) : ConfigVar :=
  (store.vars.lookup key).getD (ConfigVar.new key .none [])

def keyElements : List KeyElement :=
  (sortedTexts store.vars.keys).map fun key => (store.varOf key).keyElement

def document : Document where
  name := store.name
  keyPrefix := orNone store.keyPrefix
  accessMode := store.accessMode
  keyLists := [store.keyElements]

theorem lookup_varOf {store : ConfigStore} {key : Text} (h : key ∈ store.vars) :
    store.vars.lookup key = some (store.varOf key) := by
  rcases Dict.exists_lookup h with ⟨var, hvar⟩
  rw [varOf, hvar]
  rfl

theorem mem_sortedKeys {store : ConfigStore} {key : Text} :
    key ∈ sortedTexts store.vars.keys <-> key ∈ store.vars :=
  mem_sortedTexts.trans AList.mem_keys.symm

theorem generate_legal {store : ConfigStore} (h : store.Legal) :
    store.generate = .ok store.document := by
  have hheader : (legalText store.name && legalText (store.keyPrefix.getD [])) = true := by
    rw [h.name, h.keyPrefix]
    rfl
  have hkeys : (sortedTexts store.vars.keys).mapM store.element = .ok store.keyElements := by
    apply mapM_eq_ok
    intro key hkey
    have hlookup := lookup_varOf (mem_sortedKeys.mp hkey)
    rw [element, hlookup]
    exact ConfigVar.getElement_legal (h.vars hlookup)
  rw [generate, if_pos hheader, hkeys]
  rfl

theorem legal_of_generate {store : ConfigStore} {document : Document}
    (h : store.generate = .ok document) : store.Legal := by
  have hheader : (legalText store.name && legalText (store.keyPrefix.getD [])) = true := by
    by_contra hnot
    rw [generate, if_neg hnot] at h
    cases h
  rw [generate, if_pos hheader] at h
  rw [Bool.and_eq_true] at hheader
  refine ⟨hheader.left, hheader.right, ?_⟩
  intro key var hlookup
  by_contra hillegal
  have hmem : key ∈ sortedTexts store.vars.keys := mem_sortedKeys.mpr (Dict.mem_of_lookup hlookup)
  have hraised : store.element key = .error .valueError := by
    rw [element, hlookup]
    exact if_neg hillegal
  rcases mapM_ne_ok hmem hraised with ⟨raised, hkeys⟩
  rw [hkeys] at h
  cases h

theorem foldl_readKey (held : List ConfigVar) (store : ConfigStore) :
    ((held.map fun var => var.keyElement.parsed).foldl readKey store).vars =
      store.vars.update ConfigVar.name (fun _ var => var.reread) held := by
  induction held generalizing store with
  | nil => rfl
  | cons var rest ih =>
    have hread : store.readKey var.keyElement.parsed = store.addVar var.reread := by
      rw [readKey, var.interpret_parsed]
    rw [map_cons, foldl_cons, hread, ih]
    rfl

theorem foldl_readKey_header (els : List KeyElement) (store : ConfigStore) :
    (els.foldl readKey store).name = store.name ∧
      (els.foldl readKey store).keyPrefix = store.keyPrefix ∧
      (els.foldl readKey store).accessMode = store.accessMode ∧
      (els.foldl readKey store).treeValid = store.treeValid := by
  induction els generalizing store with
  | nil => exact ⟨rfl, rfl, rfl, rfl⟩
  | cons el rest ih =>
    have hread : (store.readKey el).name = store.name ∧
        (store.readKey el).keyPrefix = store.keyPrefix ∧
        (store.readKey el).accessMode = store.accessMode ∧
        (store.readKey el).treeValid = store.treeValid := by
      unfold readKey
      cases ConfigVar.interpret el with
      | ok var => exact ⟨rfl, rfl, rfl, rfl⟩
      | error raised => exact ⟨rfl, rfl, rfl, rfl⟩
    rcases ih (store.readKey el) with ⟨hname, hkeyPrefix, haccess, hvalid⟩
    rw [foldl_cons]
    exact ⟨hname.trans hread.left, hkeyPrefix.trans hread.right.left,
      haccess.trans hread.right.right.left, hvalid.trans hread.right.right.right⟩

structure ReadFrom (store result : ConfigStore) : Prop where
  name : result.name = store.name
  keyPrefix : result.keyPrefix.getD [] = store.keyPrefix.getD []
  accessMode : result.accessMode = some (store.accessMode.getD .globalMode)
  treeValid : result.treeValid = true
  vars : forall key, result.vars.lookup key = (store.vars.lookup key).map ConfigVar.reread

theorem orNone_getD (text : Option Text) : orNone (some (text.getD [])) = orNone text := by
  cases text with
  | none => rfl
  | some text => rfl

theorem getD_orNone (text : Option Text) : (orNone text).getD [] = text.getD [] := by
  cases text with
  | none => rfl
  | some text =>
    cases text with
    | nil => rfl
    | cons c rest => rfl

theorem varOf_name {store : ConfigStore} {key : Text} (h : key ∈ store.vars) :
    (store.varOf key).name = key :=
  store.named (lookup_varOf h)

theorem lookup_read (key : Text) :
    ((∅ : Dict Text ConfigVar).update ConfigVar.name (fun _ var => var.reread)
        ((sortedTexts store.vars.keys).map store.varOf)).lookup key =
      (store.vars.lookup key).map ConfigVar.reread := by
  rw [Dict.lookup_update_assign]
  by_cases hmem : key ∈ store.vars
  · have hfilter : ((sortedTexts store.vars.keys).map store.varOf).filter
        (fun var => decide (var.name = key)) = [store.varOf key] := by
      have hnodup : (sortedTexts store.vars.keys).Nodup :=
        (sortedTexts_perm _).nodup_iff.mpr store.vars.keys_nodup
      have hkeys : (sortedTexts store.vars.keys).filter
          ((fun var => decide (var.name = key)) ∘ store.varOf) =
          (sortedTexts store.vars.keys).filter (fun other => decide (other = key)) := by
        apply filter_congr
        intro other hother
        show decide ((store.varOf other).name = key) = decide (other = key)
        rw [varOf_name (mem_sortedKeys.mp hother)]
      rw [filter_map, hkeys, filter_eq,
        count_eq_one_of_mem hnodup (mem_sortedKeys.mpr hmem)]
      rfl
    rw [hfilter, lookup_varOf hmem]
    rfl
  · have hfilter : ((sortedTexts store.vars.keys).map store.varOf).filter
        (fun var => decide (var.name = key)) = [] := by
      apply filter_eq_nil_iff.mpr
      intro var hvar hname
      rcases mem_map.mp hvar with ⟨other, hother, rfl⟩
      have hin := mem_sortedKeys.mp hother
      rw [varOf_name hin] at hname
      exact hmem (of_decide_eq_true hname ▸ hin)
    rw [hfilter, AList.lookup_eq_none.mpr hmem]
    rfl

/-- The store that reads the document, without what it writes. -/
def readIn (document : Document) : ConfigStore :=
  document.parsedKeys.foldl readKey
    { store with
      treeValid := true
      name := document.name
      accessMode := some (store.requiredAccessMode.getD (document.accessMode.getD .globalMode))
      keyPrefix :=
        if decide (orNone document.keyPrefix ≠ store.keyPrefix) then store.keyPrefix
        else some (document.keyPrefix.getD []) }

theorem read_document (document : Document) :
    store.read (.document document) =
      if decide (orNone document.keyPrefix ≠ store.keyPrefix) then
        (store.readIn document).write none (.document document)
      else (store.readIn document, .document document) := rfl

theorem readFrom_readIn :
    ReadFrom store ((new store.name store.keyPrefix).readIn store.document) := by
  have hparsed : store.document.parsedKeys =
      ((sortedTexts store.vars.keys).map store.varOf).map fun var => var.keyElement.parsed := by
    simp [Document.parsedKeys, document, keyElements]
  have hheader := foldl_readKey_header store.document.parsedKeys
  constructor
  · exact (hheader _).left
  · refine (congrArg (fun text => text.getD []) (hheader _).right.left).trans ?_
    show (if decide (orNone (orNone store.keyPrefix) ≠ store.keyPrefix) then store.keyPrefix
      else some ((orNone store.keyPrefix).getD [])).getD [] = _
    by_cases hsame : decide (orNone (orNone store.keyPrefix) ≠ store.keyPrefix) = true
    · rw [if_pos hsame]
    · rw [if_neg hsame]
      exact getD_orNone store.keyPrefix
  · exact (hheader _).right.right.left
  · exact (hheader _).right.right.right
  · intro key
    have hvars : ((new store.name store.keyPrefix).readIn store.document).vars =
        (∅ : Dict Text ConfigVar).update ConfigVar.name (fun _ var => var.reread)
          ((sortedTexts store.vars.keys).map store.varOf) := by
      unfold readIn
      rw [hparsed, foldl_readKey]
      rfl
    rw [hvars]
    exact lookup_read store key

theorem written_legal {store : ConfigStore} (h : store.Legal) :
    store.written = .document store.document := by
  rw [written, generate_legal h]

theorem written_not_legal {store : ConfigStore} (h : ¬ store.Legal) :
    store.written = .unreadable := by
  cases hgenerate : store.generate with
  | ok document => exact absurd (legal_of_generate hgenerate) h
  | error raised => rw [written, hgenerate]

theorem write_none {store : ConfigStore} (hvalid : store.treeValid = true) (file : File) :
    store.write none file = (store, store.written) :=
  if_pos hvalid

def restored (before : File) : ConfigStore × File :=
  (new store.name store.keyPrefix).read (store.write none before).2

/-- The variables are read back, and written the same way again. -/
structure RoundTrips (before : File) : Prop where
  readable : (store.restored before).1.treeValid = true
  kept : forall key,
    ((store.restored before).1.vars.lookup key).map ConfigVar.observed =
      (store.vars.lookup key).map ConfigVar.observed
  same : ((store.restored before).1.write none (store.restored before).2).2 =
    (store.write none before).2

/-- What a file keeps of a store. -/
structure Restorable : Prop where
  legal : store.Legal
  accessMode : store.accessMode ≠ none
  types : forall {key var}, store.vars.lookup key = some var -> var.value.type = var.type

section ReadFrom

variable {store result : ConfigStore} (hread : ReadFrom store result)
include hread

theorem ReadFrom.legal (h : store.Legal) : result.Legal where
  name := by
    rw [hread.name]
    exact h.name
  keyPrefix := by
    rw [hread.keyPrefix]
    exact h.keyPrefix
  vars := by
    intro key var hvar
    rw [hread.vars] at hvar
    rcases Option.map_eq_some_iff.mp hvar with ⟨before, hbefore, rfl⟩
    rw [before.legal_reread]
    exact h.vars hbefore

theorem ReadFrom.mem_iff {key : Text} : key ∈ result.vars <-> key ∈ store.vars := by
  rw [← AList.lookup_isSome, ← AList.lookup_isSome, hread.vars, Option.isSome_map]

theorem ReadFrom.sortedKeys : sortedTexts result.vars.keys = sortedTexts store.vars.keys := by
  apply sortedTexts_eq
  apply (perm_ext_iff_of_nodup result.vars.keys_nodup store.vars.keys_nodup).mpr
  intro key
  rw [← AList.mem_keys, ← AList.mem_keys]
  exact hread.mem_iff

theorem ReadFrom.document (hmode : store.accessMode ≠ none)
    (htypes : forall {key var}, store.vars.lookup key = some var -> var.value.type = var.type) :
    result.document = store.document := by
  have helements : result.keyElements = store.keyElements := by
    unfold keyElements
    rw [hread.sortedKeys]
    apply map_congr_left
    intro key hkey
    have hlookup := lookup_varOf (mem_sortedKeys.mp hkey)
    have hvar : result.varOf key = (store.varOf key).reread := by
      rw [varOf, hread.vars, hlookup]
      rfl
    have htype : (store.varOf key).reread.type = (store.varOf key).type :=
      (store.varOf key).value.type_reread.trans (htypes hlookup)
    rw [hvar]
    unfold ConfigVar.keyElement
    rw [htype, ConfigVar.elementText_reread]
    rfl
  have haccess : result.accessMode = store.accessMode := by
    rw [hread.accessMode]
    cases hstore : store.accessMode with
    | none => exact absurd hstore hmode
    | some mode => rfl
  have hkeyPrefix : orNone result.keyPrefix = orNone store.keyPrefix := by
    rw [← orNone_getD result.keyPrefix, hread.keyPrefix, orNone_getD]
  unfold ConfigStore.document
  rw [hread.name, hkeyPrefix, helements, haccess]

end ReadFrom

theorem restored_legal {store : ConfigStore} (hvalid : store.treeValid = true) (h : store.Legal)
    (before : File) : ReadFrom store (store.restored before).1 := by
  have hread := readFrom_readIn store
  unfold restored
  rw [write_none hvalid, written_legal h, read_document]
  by_cases hrewrite : decide (orNone store.document.keyPrefix ≠
      (new store.name store.keyPrefix).keyPrefix) = true
  · rw [if_pos hrewrite, write_none hread.treeValid]
    exact hread
  · rw [if_neg hrewrite]
    exact hread

theorem restored_not_legal {store : ConfigStore} (hvalid : store.treeValid = true)
    (h : ¬ store.Legal) (before : File) : (store.restored before).1.treeValid = false := by
  unfold restored
  rw [write_none hvalid, written_not_legal h]
  rfl

theorem RoundTrips.restorable {store : ConfigStore} {before : File}
    (hvalid : store.treeValid = true) (htrips : store.RoundTrips before) : store.Restorable := by
  have hlegal : store.Legal := by
    by_contra hnot
    exact Bool.noConfusion (htrips.readable.symm.trans (restored_not_legal hvalid hnot before))
  have hread := restored_legal hvalid hlegal before
  have hsame := htrips.same
  rw [write_none hvalid, write_none hread.treeValid, written_legal hlegal,
    written_legal (hread.legal hlegal)] at hsame
  refine ⟨hlegal, ?_, ?_⟩
  · intro hmode
    have haccess := congrArg Document.accessMode (File.document.inj hsame)
    have hnone : (store.restored before).1.accessMode = none := haccess.trans hmode
    rw [hread.accessMode] at hnone
    cases hnone
  · intro key var hvar
    have hkept := htrips.kept key
    rw [hread.vars, hvar] at hkept
    exact ConfigVar.observed_reread.mp (Option.some.inj hkept)

theorem Restorable.roundTrips {store : ConfigStore} (hvalid : store.treeValid = true)
    (h : store.Restorable) (before : File) : store.RoundTrips before := by
  have hread := restored_legal hvalid h.legal before
  refine ⟨hread.treeValid, ?_, ?_⟩
  · intro key
    rw [hread.vars]
    cases hvar : store.vars.lookup key with
    | none => rfl
    | some var => exact congrArg some (ConfigVar.observed_reread.mpr (h.types hvar))
  · rw [write_none hvalid, write_none hread.treeValid, written_legal h.legal,
      written_legal (hread.legal h.legal), hread.document h.accessMode h.types]

/-- Exactly the restorable stores make the round trip. -/
theorem storeRoundTrips_iff (store : ConfigStore) (before : File) (hvalid : store.treeValid = true) :
    store.RoundTrips before <-> store.Restorable :=
  ⟨fun htrips => htrips.restorable hvalid, fun h => h.roundTrips hvalid before⟩

def single (var : ConfigVar) (accessMode : AccessMode) : ConfigStore :=
  { (new "db-access".toList none).addVar var with accessMode := some accessMode }

theorem eq_of_lookup_single {var found : ConfigVar} {accessMode : AccessMode} {key : Text}
    (h : (single var accessMode).vars.lookup key = some found) : found = var := by
  have hinsert : ((∅ : Dict Text ConfigVar).insert var.name var).lookup key = some found := h
  rw [Dict.lookup_insert_if] at hinsert
  by_cases hkey : var.name = key
  · rw [if_pos hkey] at hinsert
    exact (Option.some.inj hinsert).symm
  · rw [if_neg hkey, AList.lookup_empty] at hinsert
    cases hinsert

theorem number_roundTrips :
    (single (.new "db.port".toList (.int 5432) []) .localMode).RoundTrips .absent := by
  apply (storeRoundTrips_iff _ .absent rfl).mpr
  refine ⟨⟨by decide, by decide, ?_⟩, Option.some_ne_none _, ?_⟩
  · intro key var hvar
    rw [eq_of_lookup_single hvar]
    decide
  · intro key var hvar
    rw [eq_of_lookup_single hvar]
    rfl

/-- The type of a password is read back as that of a text. -/
theorem password_not_roundTrips :
    ¬ (single ((ConfigVar.new "db.passwd".toList (.str "secret".toList) []).setType .password rfl)
      .localMode).RoundTrips .absent := by
  intro htrips
  have hrestorable := htrips.restorable rfl
  have htypes := hrestorable.types (AList.lookup_insert _)
  cases htypes

end ConfigStore

end Icsw.Config
