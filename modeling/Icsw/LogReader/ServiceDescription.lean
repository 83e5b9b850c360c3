import Icsw.Foundation.Bytes
import Icsw.Foundation.Decimal
import Icsw.LogReader.Model

/-!
# Service descriptions

The config server names a service by the keys of its host and its check command and by an info,
and the log reader takes the keys and the info back from the name.  A check without a command is
named by its info alone.
-/

namespace Icsw.LogReader

open Foundation List

/-- Strings are made of bytes or of characters. -/
inductive PyString where
  | bytes (text : Text)
  | unicode (text : Text)
deriving DecidableEq

def PyString.text : PyString -> Text
  | .bytes text => text
  | .unicode text => text

inductive FormatError where
  | unicodeEncodeError
deriving DecidableEq

def formatString : PyString -> Except FormatError Text
  | .bytes text => .ok text
  | .unicode text => if asciiChars text = true then .ok text else .error .unicodeEncodeError

def formatPk : Option Int -> Text
  | some pk => formatInt pk
  | none => "None".toList

structure SCheck where
  checkCommandPk : Option Int
  mccsId : Option Int
deriving DecidableEq

variable (hostPk : Int)

def createHostServiceDescriptionDirect
    (checkCommandPk specialCheckCommandPk : Option Int) (info : PyString) :
    Except FormatError Text :=
  match specialCheckCommandPk with
  | some special => do
      let info <- formatString info
      pure ("s_host_check".toList ++ ':' :: (formatInt hostPk ++ ':' ::
        (formatPk checkCommandPk ++ ':' :: (formatInt special ++ ':' :: info))))
  | none =>
    match checkCommandPk with
    | some pk => do
        let info <- formatString info
        pure ("host_check".toList ++ ':' :: (formatInt hostPk ++ ':' ::
          (formatInt pk ++ ':' :: info)))
    | none => do
        let info <- formatString info
        pure ("unstructured".toList ++ ':' :: (' ' :: info))

variable (check : SCheck)

def createHostServiceDescription (info : PyString) : Except FormatError Text :=
  match check.mccsId with
  | some special =>
    createHostServiceDescriptionDirect hostPk check.checkCommandPk (some special) info
  | none =>
    match check.checkCommandPk with
    | some pk => createHostServiceDescriptionDirect hostPk (some pk) none info
    | none => createHostServiceDescriptionDirect hostPk none none info

def Unstructured : Prop := check.checkCommandPk = none ∧ check.mccsId = none

def Formattable : PyString -> Prop
  | .bytes _ => True
  | .unicode text => asciiChars text = true

structure ReadBack (info : PyString) (description : Text) :
    Prop where
  structured : forall pk, check.checkCommandPk = some pk ->
    parseHostServiceDescription description = .ok (some hostPk, some pk, some info.text)
  unstructured : Unstructured check ->
    parseHostServiceDescription description = .ok (none, none, none)

def Names (info : PyString) (description : Text) : Prop :=
  forall hostPk' check' info', createHostServiceDescription hostPk' check' info' = .ok description ->
    info'.text = info.text ∧ check' = check ∧ (Unstructured check ∨ hostPk' = hostPk)

def specialText (checkCommandPk : Option Int) (special : Int) (info : Text) : Text :=
  "s_host_check".toList ++ ':' :: (formatInt hostPk ++ ':' ::
    (formatPk checkCommandPk ++ ':' :: (formatInt special ++ ':' :: info)))

def regularText (hostPk pk : Int) (info : Text) : Text :=
  "host_check".toList ++ ':' :: (formatInt hostPk ++ ':' :: (formatInt pk ++ ':' :: info))

def unstructuredText (info : Text) : Text := "unstructured".toList ++ ':' :: (' ' :: info)

def descriptionText (info : Text) : Text :=
  match check.mccsId with
  | some special => specialText hostPk check.checkCommandPk special info
  | none =>
    match check.checkCommandPk with
    | some pk => regularText hostPk pk info
    | none => unstructuredText info

theorem createHostServiceDescription_eq (info : PyString) :
    createHostServiceDescription hostPk check info =
      (formatString info).map (descriptionText hostPk check) := by
  rcases check with ⟨checkCommandPk, mccsId⟩
  cases hinfo : formatString info <;> cases mccsId <;> cases checkCommandPk <;>
    simp only [createHostServiceDescription, createHostServiceDescriptionDirect, hinfo] <;> rfl

theorem formatString_of_formattable {info : PyString} (h : Formattable info) :
    formatString info = .ok info.text := by
  cases info with
  | bytes text => rfl
  | unicode text => exact if_pos h

theorem text_of_formatString {info : PyString} {text : Text} (h : formatString info = .ok text) :
    text = info.text := by
  cases info with
  | bytes other => exact (Except.ok.inj h).symm
  | unicode other =>
    rw [formatString] at h
    split at h
    · exact (Except.ok.inj h).symm
    · cases h

theorem colon_not_mem_formatInt (value : Int) : ':' ∉ formatInt value :=
  not_mem_formatInt (by decide) (by decide)

theorem colon_not_mem_formatPk (pk : Option Int) : ':' ∉ formatPk pk := by
  cases pk with
  | none => decide
  | some value => exact colon_not_mem_formatInt value

theorem formatPk_injective : Function.Injective formatPk := by
  have hnone : forall value, formatInt value ≠ "None".toList := by
    intro value h
    have hmem : 'N' ∈ formatInt value := by
      rw [h]
      decide
    exact absurd (formatInt_char hmem).right (by decide)
  intro pk other h
  cases pk with
  | none =>
    cases other with
    | none => rfl
    | some value => exact absurd h.symm (hnone value)
  | some value =>
    cases other with
    | none => exact absurd h (hnone value)
    | some value' => exact congrArg some (formatInt_injective h)

theorem intOrRaise_formatInt (value : Int) : intOrRaise (formatInt value) = .ok value := by
  rw [intOrRaise, parseInt_formatInt]

theorem split_form {form rest : Text} (h : ':' ∉ form) :
    split [':'] 1 (form ++ ':' :: rest) = [form, rest] := split_succ_append h rest 0

theorem parse_regularText (hostPk pk : Int) (info : Text) :
    parseHostServiceDescription (regularText hostPk pk info) =
      .ok (some hostPk, some pk, some info) := by
  have hcount : 2 ≤ (formatInt hostPk ++ ':' :: (formatInt pk ++ ':' :: info)).count ':' := by
    rw [count_append, count_cons_self, count_append, count_cons_self]
    omega
  have hsplit : split [':'] 2 (formatInt hostPk ++ ':' :: (formatInt pk ++ ':' :: info)) =
      [formatInt hostPk, formatInt pk, info] := by
    rw [split_succ_append (colon_not_mem_formatInt hostPk),
      split_succ_append (colon_not_mem_formatInt pk)]
    rfl
  unfold parseHostServiceDescription regularText
  rw [split_form (by decide)]
  simp only [if_pos hcount, hsplit, intOrRaise_formatInt]
  rfl

theorem parse_specialText (hostPk pk special : Int) (info : Text) :
    parseHostServiceDescription (specialText hostPk (some pk) special info) =
      .ok (some hostPk, some pk, some info) := by
  have hcount : 3 ≤ (formatInt hostPk ++ ':' :: (formatPk (some pk) ++ ':' ::
      (formatInt special ++ ':' :: info))).count ':' := by
    rw [count_append, count_cons_self, count_append, count_cons_self,
      count_append, count_cons_self]
    omega
  have hsplit : split [':'] 3 (formatInt hostPk ++ ':' :: (formatPk (some pk) ++ ':' ::
      (formatInt special ++ ':' :: info))) =
        [formatInt hostPk, formatInt pk, formatInt special, info] := by
    rw [split_succ_append (colon_not_mem_formatInt hostPk),
      split_succ_append (colon_not_mem_formatPk (some pk)),
      split_succ_append (colon_not_mem_formatInt special)]
    rfl
  have hform : "s_host_check".toList ≠ "host_check".toList := by decide
  unfold parseHostServiceDescription specialText
  rw [split_form (by decide)]
  simp only [if_neg hform, if_pos hcount, hsplit, intOrRaise_formatInt]
  rfl

theorem parse_unstructuredText (info : Text) :
    parseHostServiceDescription (unstructuredText info) = .ok (none, none, none) := by
  have hregular : "unstructured".toList ≠ "host_check".toList := by decide
  have hspecial : "unstructured".toList ≠ "s_host_check".toList := by decide
  unfold parseHostServiceDescription unstructuredText
  rw [split_form (by decide)]
  simp only [if_neg hregular, if_neg hspecial]

theorem readBack_descriptionText (info : PyString) :
    ReadBack hostPk check info (descriptionText hostPk check info.text) where
  structured pk hpk := by
    rcases check with ⟨checkCommandPk, mccsId⟩
    cases hpk
    cases mccsId with
    | some special => exact parse_specialText hostPk pk special info.text
    | none => exact parse_regularText hostPk pk info.text
  unstructured h := by
    rcases check with ⟨checkCommandPk, mccsId⟩
    rcases h with ⟨hpk, hmccs⟩
    cases hpk
    cases hmccs
    exact parse_unstructuredText info.text

theorem specialText_inj {hostPk hostPk' special special' : Int} {pk pk' : Option Int}
    {info info' : Text}
    (h : specialText hostPk pk special info = specialText hostPk' pk' special' info') :
    hostPk = hostPk' ∧ pk = pk' ∧ special = special' ∧ info = info' := by
  have hrest := append_cancel_left h
  rcases eq_of_append_separator (colon_not_mem_formatInt _) (colon_not_mem_formatInt _)
    (cons.inj hrest).right with ⟨hhost, hrest⟩
  rcases eq_of_append_separator (colon_not_mem_formatPk _) (colon_not_mem_formatPk _) hrest with
    ⟨hpk, hrest⟩
  rcases eq_of_append_separator (colon_not_mem_formatInt _) (colon_not_mem_formatInt _) hrest with
    ⟨hspecial, hinfo⟩
  exact ⟨formatInt_injective hhost, formatPk_injective hpk, formatInt_injective hspecial, hinfo⟩

theorem regularText_inj {hostPk hostPk' pk pk' : Int} {info info' : Text}
    (h : regularText hostPk pk info = regularText hostPk' pk' info') :
    hostPk = hostPk' ∧ pk = pk' ∧ info = info' := by
  have hrest := append_cancel_left h
  rcases eq_of_append_separator (colon_not_mem_formatInt _) (colon_not_mem_formatInt _)
    (cons.inj hrest).right with ⟨hhost, hrest⟩
  rcases eq_of_append_separator (colon_not_mem_formatInt _) (colon_not_mem_formatInt _) hrest with
    ⟨hpk, hinfo⟩
  exact ⟨formatInt_injective hhost, formatInt_injective hpk, hinfo⟩

theorem form_eq {form form' rest rest' : Text} (hform : ':' ∉ form) (hform' : ':' ∉ form')
    (h : form ++ ':' :: rest = form' ++ ':' :: rest') : form = form' :=
  (eq_of_append_separator hform hform' h).left

theorem descriptionText_inj {hostPk hostPk' : Int} {check check' : SCheck} {info info' : Text}
    (h : descriptionText hostPk' check' info' = descriptionText hostPk check info) :
    info' = info ∧ check' = check ∧ (Unstructured check ∨ hostPk' = hostPk) := by
  rcases check with ⟨pk, mccsId⟩
  rcases check' with ⟨pk', mccsId'⟩
  have hspecial : ':' ∉ "s_host_check".toList := by decide
  have hregular : ':' ∉ "host_check".toList := by decide
  have hunstructured : ':' ∉ "unstructured".toList := by decide
  cases mccsId with
  | some special =>
    cases mccsId' with
    | some special' =>
      rcases specialText_inj h with ⟨rfl, rfl, rfl, rfl⟩
      exact ⟨rfl, rfl, Or.inr rfl⟩
    | none =>
      cases pk' with
      | some pk' => exact absurd (form_eq hregular hspecial h) (by decide)
      | none => exact absurd (form_eq hunstructured hspecial h) (by decide)
  | none =>
    cases pk with
    | some pk =>
      cases mccsId' with
      | some special' => exact absurd (form_eq hspecial hregular h) (by decide)
      | none =>
        cases pk' with
        | some pk' =>
          rcases regularText_inj h with ⟨rfl, rfl, rfl⟩
          exact ⟨rfl, rfl, Or.inr rfl⟩
        | none => exact absurd (form_eq hunstructured hregular h) (by decide)
    | none =>
      cases mccsId' with
      | some special' => exact absurd (form_eq hspecial hunstructured h) (by decide)
      | none =>
        cases pk' with
        | some pk' => exact absurd (form_eq hregular hunstructured h) (by decide)
        | none =>
          have hrest := (cons.inj (append_cancel_left h)).right
          exact ⟨(cons.inj hrest).right, rfl, Or.inl ⟨rfl, rfl⟩⟩

/-- A description is read back, and only unstructured services share one. -/
theorem createHostServiceDescription_readBack (hostPk : Int) (check : SCheck) {info : PyString}
    (hinfo : Formattable info) :
    exists description, createHostServiceDescription hostPk check info = .ok description ∧
      ReadBack hostPk check info description ∧ Names hostPk check info description := by
  refine ⟨descriptionText hostPk check info.text, ?_, readBack_descriptionText hostPk check info,
    ?_⟩
  · rw [createHostServiceDescription_eq, formatString_of_formattable hinfo]
    rfl
  · intro hostPk' check' info' hcreate
    rw [createHostServiceDescription_eq] at hcreate
    cases htext : formatString info' with
    | error raised =>
      rw [htext] at hcreate
      cases hcreate
    | ok text =>
      rw [htext] at hcreate
      rw [← text_of_formatString htext]
      exact descriptionText_inj (Except.ok.inj hcreate)

/-- The info has the separator in it. -/
theorem createHostServiceDescription_disk :
    Formattable (.unicode "disk: /".toList) ∧ exists description,
      createHostServiceDescription 3 ⟨some 5, some 8⟩ (.unicode "disk: /".toList) =
          .ok description ∧
        ReadBack 3 ⟨some 5, some 8⟩ (.unicode "disk: /".toList) description ∧
          Names 3 ⟨some 5, some 8⟩ (.unicode "disk: /".toList) description :=
  ⟨rfl, createHostServiceDescription_readBack 3 ⟨some 5, some 8⟩ rfl⟩

/-- Unstructured services of two hosts share a description, and other characters raise. -/
theorem createHostServiceDescription_shared :
    (createHostServiceDescription 1 ⟨none, none⟩ (.bytes "ping".toList) =
        createHostServiceDescription 2 ⟨none, none⟩ (.bytes "ping".toList) ∧
      (1 : Int) ≠ 2) ∧
      createHostServiceDescription 1 ⟨some 5, none⟩ (.unicode ['L', 'ü', 'f', 't', 'e', 'r']) =
        .error .unicodeEncodeError :=
  ⟨⟨rfl, by decide⟩, by decide⟩

end Icsw.LogReader
