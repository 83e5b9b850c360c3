import Icsw.ServerCommand.Elements

/-!
# What is read weighs no more

Keys never become longer when they are read: a value that is read with the weight
that it was stored with had keys that are kept.
-/

namespace Icsw.ServerCommand

open Foundation List

section Maker

variable {accepts : Text -> Bool}

theorem weight_setEntry (result : List (Key × Value)) (key : Key) (value : Value) :
    Value.weightEntries (setEntry result key value) ≤
      Value.weightEntries result + (Value.keyWeight key + value.weight) := by
  induction result with
  | nil => exact le_of_eq (Nat.add_comm _ _)
  | cons first rest ih =>
    rcases first with ⟨held, old⟩
    rw [setEntry]
    by_cases heq : held = key
    · rw [if_pos heq, heq]
      simp only [Value.weightEntries]
      omega
    · rw [if_neg heq]
      simp only [Value.weightEntries]
      omega

variable {value : Value}

theorem weight_map_orError {α : Type} {f : α -> Value} {found : Option α}
    (hf : forall a, (f a).weight = 0) (h : (orError found).map f = .ok value) :
    value.weight = 0 := by
  cases found with
  | none => cases h
  | some a =>
    cases h
    exact hf a

theorem weight_interpretText {type text : Option Text}
    (h : interpretText type text = .ok value) : value.weight = 0 := by
  unfold interpretText at h
  by_cases hint : type = some "int".toList
  · rw [if_pos hint] at h
    exact weight_map_orError (fun _ => rfl) h
  · rw [if_neg hint] at h
    by_cases hbool : type = some "bool".toList
    · cases (if_pos hbool).symm.trans h
      rfl
    · rw [if_neg hbool] at h
      by_cases hdate : type = some "date".toList
      · rw [if_pos hdate] at h
        exact weight_map_orError (fun _ => rfl) h
      · rw [if_neg hdate] at h
        by_cases htime : type = some "datetime".toList
        · rw [if_pos htime] at h
          exact weight_map_orError (fun _ => rfl) h
        · rw [if_neg htime] at h
          by_cases hstr : type = some "str".toList
          · cases (if_pos hstr).symm.trans h
            rfl
          · cases (if_neg hstr).symm.trans h
            cases text with
            | none => rfl
            | some text => rfl

def WeighsNoMore (accepts : Text -> Bool) (value : Value) : Prop :=
  forall {cur el : Element} {read : Value}, cur.children = [] ->
    element accepts value cur = .ok el -> interpretEl el = .ok read ->
      read.weight ≤ value.weight ∧ (read.weight = value.weight -> Plain accepts value)

theorem weighsNoMore_leaf (type : Text) (hweight : value.weight = 0)
    (htype : typeName value = type) (hleaf : type ∉ ["dict".toList, "list".toList, "tuple".toList])
    (hplain : forall {cur el : Element} {read : Value}, element accepts value cur = .ok el ->
      interpretText (some type) el.text = .ok read -> Plain accepts value) :
    WeighsNoMore accepts value := by
  intro cur el read _ helement hread
  simp only [mem_cons, not_mem_nil, or_false, not_or] at hleaf
  have hne : forall {other}, type ≠ other -> ¬ some type = some other :=
    fun hne heq => hne (Option.some.inj heq)
  rw [interpretEl_eq, (element_shape helement).right, lookup_type, htype, interpretBy,
    if_neg (hne hleaf.1), if_neg (hne hleaf.2.1), if_neg (hne hleaf.2.2)] at hread
  rw [weight_interpretText hread, hweight]
  exact ⟨Nat.le_refl _, fun _ => hplain helement hread⟩

variable {items : List Value} {els : List Element}

theorem weighsNoMore_items (h : forall item, item ∈ items -> WeighsNoMore accepts item)
    {values : List Value} (hels : itemElements accepts items = .ok els)
    (hvalues : interpretItems els = .ok values) :
    Value.weightItems values ≤ Value.weightItems items ∧
      (Value.weightItems values = Value.weightItems items ->
        Value.EverywhereItems (PlainHere accepts) items) := by
  induction items generalizing els values with
  | nil =>
    cases hels
    cases hvalues
    exact ⟨Nat.le_refl _, fun _ => trivial⟩
  | cons item rest ih =>
    rcases exists_of_bind hels with ⟨cur, hcur, hels⟩
    rcases exists_of_bind hels with ⟨el, hel, hels⟩
    rcases exists_of_bind hels with ⟨els', hrest, heq⟩
    cases heq
    rcases exists_of_bind hvalues with ⟨value, hvalue, hvalues⟩
    rcases exists_of_bind hvalues with ⟨values', hvalues', heq⟩
    cases heq
    rcases h item mem_cons_self (builder_ok hcur).children hel hvalue with ⟨hle, hplain⟩
    rcases ih (fun other hother => h other (mem_cons_of_mem item hother)) hrest hvalues'
      with ⟨hle', hplain'⟩
    simp only [Value.weightItems]
    constructor
    · omega
    · intro heq
      exact ⟨hplain (by omega), hplain' (by omega)⟩

theorem weighsNoMore_entries {entries : List (Key × Value)}
    (h : forall entry, entry ∈ entries -> WeighsNoMore accepts entry.2)
    {before result : List (Key × Value)} (hels : entryElements accepts entries = .ok els)
    (hresult : interpretEntries els before = .ok result) :
    Value.weightEntries result ≤ Value.weightEntries before + Value.weightEntries entries ∧
      (Value.weightEntries result = Value.weightEntries before + Value.weightEntries entries ->
        (forall entry, entry ∈ entries -> SuitableKey accepts entry.1) ∧
          Value.EverywhereEntries (PlainHere accepts) entries) := by
  induction entries generalizing els before with
  | nil =>
    cases hels
    cases hresult
    exact ⟨Nat.le_refl _, fun _ => ⟨fun _ hentry => absurd hentry not_mem_nil, trivial⟩⟩
  | cons entry rest ih =>
    rcases entry with ⟨key, value⟩
    rcases exists_of_bind hels with ⟨cur, hcur, hels⟩
    rcases exists_of_bind hels with ⟨stored, hstored, hels⟩
    rcases exists_of_bind hels with ⟨el, hel, hels⟩
    rcases exists_of_bind hels with ⟨els', hrest, heq⟩
    cases heq
    rcases exists_of_bind hresult with ⟨key', hkey, hresult⟩
    rcases exists_of_bind hresult with ⟨read, hread, hresult⟩
    have hbuilt := builder_ok hcur
    have hentry := setDictKey_ok hel
    rw [hentry.keyOf] at hkey
    rw [hentry.interpretEl] at hread
    rcases interpretTag_key_weight hbuilt hentry.legal (hentry.escapes hstored hbuilt.escapes)
      hkey with ⟨hkeyLe, hsuitable⟩
    have hvalue : WeighsNoMore accepts value := h (key, value) mem_cons_self
    rcases hvalue hbuilt.children hstored hread with ⟨hle, hplain⟩
    rcases ih (fun other hother => h other (mem_cons_of_mem _ hother)) hrest hresult
      with ⟨hle', hplain'⟩
    have hset := weight_setEntry before key' read
    simp only [Value.weightEntries]
    constructor
    · omega
    · intro heq
      have hkeySame := hsuitable (by omega)
      rcases hplain' (by omega) with ⟨hkeys, hvalues⟩
      refine ⟨?_, hplain (by omega), hvalues⟩
      intro other hother
      rcases mem_cons.mp hother with rfl | hlater
      · exact hkeySame
      · exact hkeys other hlater

theorem weighsNoMore_sequence (build : List Value -> Value)
    (hitems : value.weight = Value.weightItems items)
    (hbuild : forall values, (build values).weight = Value.weightItems values)
    (hplain : Value.EverywhereItems (PlainHere accepts) items -> Plain accepts value)
    (hstored : forall {cur el : Element}, element accepts value cur = .ok el ->
      exists els, itemElements accepts items = .ok els ∧ el.children = cur.children ++ els)
    (hread : forall {el : Element} {read : Value},
      interpretBy (some (typeName value)) el.text el.children = .ok read ->
        exists values, interpretItems el.children = .ok values ∧ read = build values)
    (h : forall item, item ∈ items -> WeighsNoMore accepts item) :
    WeighsNoMore accepts value := by
  intro cur el read hchildren helement hel
  rw [interpretEl_eq, (element_shape helement).right, lookup_type] at hel
  rcases hstored helement with ⟨els, hels, heq⟩
  rcases hread hel with ⟨values, hvalues, rfl⟩
  rw [heq, hchildren, nil_append] at hvalues
  rcases weighsNoMore_items h hels hvalues with ⟨hle, hall⟩
  rw [hbuild, hitems]
  exact ⟨hle, fun hsame => hplain (hall hsame)⟩

theorem weighsNoMore (value : Value) : WeighsNoMore accepts value := by
  induction value using Value.induct with
  | none =>
    apply weighsNoMore_leaf "none".toList rfl rfl (by decide)
    exact fun _ _ => trivial
  | bool value =>
    apply weighsNoMore_leaf "bool".toList rfl rfl (by decide)
    exact fun _ _ => trivial
  | int value =>
    apply weighsNoMore_leaf "int".toList rfl rfl (by decide)
    exact fun _ _ => trivial
  | str text =>
    apply weighsNoMore_leaf "str".toList rfl rfl (by decide)
    intro cur el read helement _
    by_contra hillegal
    cases (if_neg hillegal).symm.trans helement
  | date day =>
    apply weighsNoMore_leaf "date".toList rfl rfl (by decide)
    exact fun _ _ => trivial
  | datetime time =>
    apply weighsNoMore_leaf "datetime".toList rfl rfl (by decide)
    intro cur el read helement hread
    by_contra hplain
    have hparse : strptimeDateTime time.isoformat = none :=
      (strptimeDateTime_isoformat time).trans (if_neg hplain)
    cases helement
    have herror : (orError (strptimeDateTime time.isoformat)).map Value.datetime = .ok read := hread
    rw [hparse] at herror
    cases herror
  | list items ih | tuple items ih =>
    apply weighsNoMore_sequence
    case hitems => rfl
    case hplain => exact fun h => ⟨trivial, h⟩
    case hstored =>
      intro cur el helement
      rcases exists_of_bind helement with ⟨els, hels, heq⟩
      cases heq
      exact ⟨els, hels, rfl⟩
    case hread =>
      intro el read hread
      rcases exists_of_bind hread with ⟨values, hvalues, heq⟩
      cases heq
      exact ⟨values, hvalues, rfl⟩
    case hbuild => exact fun _ => rfl
    case h => exact ih
  | dict entries ih =>
    intro cur el read hchildren helement hread
    rw [interpretEl_eq, (element_shape helement).right, lookup_type] at hread
    rcases exists_of_bind helement with ⟨els, hels, heq⟩
    cases heq
    rcases exists_of_bind hread with ⟨result, hresult, heq⟩
    cases heq
    have hown : interpretEntries els [] = .ok result := by
      rw [← hresult]
      show interpretEntries els [] = interpretEntries (cur.children ++ els) []
      rw [hchildren, nil_append]
    rcases weighsNoMore_entries ih hels hown with ⟨hle, hall⟩
    simp only [Value.weightEntries, Nat.zero_add] at hle hall
    exact ⟨hle, hall⟩

end Maker

end Icsw.ServerCommand
