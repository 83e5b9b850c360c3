import Icsw.Relay.Frame

/-!
# Any bytes for a frame

The handler is given whatever bytes the relay receives.  It raises for some of them, and takes some
that are no frame.
-/

namespace Icsw.Relay

open Foundation List

/-- Arguments with their lengths in front of them, and separators between them. -/
inductive Sized : Text -> Prop where
  | last {size arg : Text} (hsize : ';' ∉ size)
      (hlength : parseInt size = some (arg.length : Int)) : Sized (size ++ ';' :: arg)
  | more {size arg rest : Text} (hsize : ';' ∉ size)
      (hlength : parseInt size = some (arg.length : Int)) (hrest : Sized rest) :
      Sized (size ++ ';' :: (arg ++ ';' :: rest))

/-- There may be a separator after the last argument. -/
def ExactArguments (part : Text) : Prop :=
  part = [] ∨ Sized part ∨ exists sized, Sized sized ∧ part = sized ++ [';']

/-- How many fields there are before the arguments. -/
def fieldCount (version : Int) : Nat :=
  if version = 0 then 3 else if version = 1 then 4 else 5

/-- The version of a text and what follows it.  Without a leading separator it is zero. -/
def Versioned (text : Text) (version : Int) (rest : Text) : Prop :=
  text.head? ≠ some ';' ∧ version = 0 ∧ rest = text ∨
    exists protoVersion, ';' ∉ protoVersion ∧ parseInt protoVersion = some version ∧
      text = ';' :: (protoVersion ++ ';' :: rest)

/-- Each of the fields ends with a separator. -/
structure Decomposed (text : Text) (version : Int) (fields : List Text) (part : Text) : Prop where
  count : fields.length = fieldCount version
  plain : forall field, field ∈ fields -> ';' ∉ field
  versioned : Versioned text version (fields.flatMap (fun field => field ++ [';']) ++ part)

def IsFrame (text : Text) : Prop :=
  exists version fields part, Decomposed text version fields part ∧
    (version = 0 ∨ version = 1 ∨ version = 2) ∧ ExactArguments part

/-- The handler does not raise, and makes a command of frames only. -/
def Interprets (data : Bytes) : Prop :=
  exists srcId srvCom, handle data = .ok (srcId, srvCom) ∧
    (srvCom ≠ none -> exists text, asciiText data = .ok text ∧ IsFrame text)

/-- What the loop makes of a text: it jumps over as many characters as a size says. -/
inductive Walked : Text -> List Text -> Prop where
  | done : Walked [] []
  | next {size rest : Text} {number : Int} {argList : List Text} (hsize : ';' ∉ size)
      (hnumber : parseInt size = some number)
      (hlater : Walked (sliceFrom (number + 1) rest) argList) :
      Walked (size ++ ';' :: rest) (sliceTo number rest :: argList)

variable {args : List Text}

theorem walked_cons_iff {size rest : Text} (hsize : ';' ∉ size) :
    Walked (size ++ ';' :: rest) args <->
      exists number argList, parseInt size = some number ∧
        Walked (sliceFrom (number + 1) rest) argList ∧ args = sliceTo number rest :: argList := by
  constructor
  · intro h
    generalize htext : size ++ ';' :: rest = text at h
    cases h with
    | done => exact absurd htext (append_ne_nil_of_right_ne_nil size (cons_ne_nil _ _))
    | next hother hnumber hlater =>
      rcases eq_of_append_separator hsize hother htext with ⟨rfl, rfl⟩
      exact ⟨_, _, hnumber, hlater, rfl⟩
  · rintro ⟨number, argList, hnumber, hlater, rfl⟩
    exact .next hsize hnumber hlater

theorem sliceFrom_length_le (start : Int) (text : Text) :
    (sliceFrom start text).length ≤ text.length := by
  unfold sliceFrom
  split
  · rw [length_drop]
    exact Nat.sub_le _ _
  · rw [length_drop]
    exact Nat.sub_le _ _

theorem walked_plain_iff {comPart : Text} (hmem : ';' ∉ comPart) :
    (if comPart = [] then Except.ok [] else .error PyError.valueError) = .ok args <->
      Walked comPart args := by
  by_cases hempty : comPart = []
  · subst hempty
    rw [if_pos rfl]
    constructor
    · intro h
      cases h
      exact .done
    · intro h
      generalize htext : ([] : Text) = text at h
      cases h with
      | done => rfl
      | next hsize hnumber hlater =>
        exact absurd htext.symm (append_ne_nil_of_right_ne_nil _ (cons_ne_nil _ _))
  · rw [if_neg hempty]
    constructor
    · intro h
      cases h
    · intro h
      cases h with
      | done => exact absurd rfl hempty
      | next hsize hnumber hlater => exact absurd (mem_append_right _ mem_cons_self) hmem

theorem parseArguments_iff {fuel : Nat} {comPart : Text} (hfuel : comPart.length ≤ fuel)
    : parseArguments fuel comPart = .ok args <-> Walked comPart args := by
  induction fuel generalizing comPart args with
  | zero =>
    have hempty : comPart = [] := length_eq_zero_iff.mp (Nat.le_zero.mp hfuel)
    subst hempty
    exact walked_plain_iff not_mem_nil
  | succ less ih =>
    rw [parseArguments]
    rcases breakOn_char ';' comPart with ⟨hnone, hmem⟩ | ⟨size, rest, hsome, hsize, rfl⟩
    · rw [hnone]
      exact walked_plain_iff hmem
    · have hless : forall number : Int, (sliceFrom (number + 1) rest).length ≤ less := by
        intro number
        have hle := sliceFrom_length_le (number + 1) rest
        rw [length_append, length_cons] at hfuel
        omega
      rw [hsome, walked_cons_iff hsize]
      dsimp only
      rcases hnumber : parseInt size with _ | number
      · constructor
        · intro h
          cases h
        · rintro ⟨_, _, hother, _⟩
          cases hother
      · dsimp only
        rcases hlater : parseArguments less (sliceFrom (number + 1) rest) with raised | argList
        · constructor
          · intro h
            cases h
          · rintro ⟨_, argList, hother, hwalked, _⟩
            cases hother
            rw [(ih (hless number)).mpr hwalked] at hlater
            cases hlater
        · constructor
          · intro h
            cases h
            exact ⟨number, argList, rfl, (ih (hless number)).mp hlater, rfl⟩
          · rintro ⟨_, others, hother, hwalked, rfl⟩
            cases hother
            rw [(ih (hless number)).mpr hwalked] at hlater
            cases hlater
            rfl

/-- Every size the loop meets is that of what is before the next separator or the end. -/
inductive Fitting : Text -> Prop where
  | done : Fitting []
  | next {size rest : Text} {number : Nat} (hsize : ';' ∉ size)
      (hnumber : parseInt size = some (number : Int))
      (hfits : number = rest.length ∨ rest[number]? = some ';' ∧ number + 1 < rest.length)
      (hlater : Fitting (rest.drop (number + 1))) : Fitting (size ++ ';' :: rest)

variable {text : Text}

theorem Sized.ne_nil (h : Sized text) : text ≠ [] := by
  cases h with
  | last hsize hlength | more hsize hlength hrest =>
    exact append_ne_nil_of_right_ne_nil _ (cons_ne_nil _ _)

theorem Sized.fitting (h : Sized text) : Fitting text := by
  induction h with
  | last hsize hlength =>
    rename_i size arg
    apply Fitting.next hsize hlength (Or.inl rfl)
    rw [drop_of_length_le (Nat.le_succ _)]
    exact .done
  | more hsize hlength hrest ih =>
    rename_i size arg rest
    have hdrop : (arg ++ ';' :: rest).drop (arg.length + 1) = rest := by
      rw [← drop_drop, drop_left]
      rfl
    have hget : (arg ++ ';' :: rest)[arg.length]? = some ';' := by
      rw [getElem?_append_right (Nat.le_refl _), Nat.sub_self]
      rfl
    have hlonger : arg.length + 1 < (arg ++ ';' :: rest).length := by
      have hrestLength := length_pos_of_ne_nil hrest.ne_nil
      rw [length_append, length_cons]
      omega
    exact Fitting.next hsize hlength (Or.inr ⟨hget, hlonger⟩) (by rw [hdrop]; exact ih)

theorem Fitting.sized (h : Fitting text) : text ≠ [] -> Sized text := by
  induction h with
  | done => exact fun hne => absurd rfl hne
  | next hsize hnumber hfits hlater ih =>
    rename_i size rest number
    intro _
    rcases hfits with rfl | ⟨hget, hlonger⟩
    · exact .last hsize hnumber
    · have hlt : number < rest.length := Nat.lt_of_succ_lt hlonger
      have hlength : (rest.take number).length = number := length_take_of_le (Nat.le_of_lt hlt)
      have hrest : rest = rest.take number ++ ';' :: rest.drop (number + 1) := by
        have hchar : rest[number] = ';' := by
          rw [getElem?_eq_getElem hlt] at hget
          exact Option.some.inj hget
        rw [← hchar, getElem_cons_drop, take_append_drop]
      have hne : rest.drop (number + 1) ≠ [] := by
        intro hnil
        have hzero := congrArg length hnil
        rw [length_drop, length_nil] at hzero
        omega
      rw [hrest]
      exact .more hsize (by rw [hlength]; exact hnumber) (ih hne)

theorem not_sized_separator : ¬ Sized [';'] := by
  intro h
  generalize htext : [';'] = text at h
  cases h with
  | last hsize hlength =>
    rename_i size arg
    have hnil : size = [] := (eq_of_append_separator hsize not_mem_nil htext.symm).left
    subst hnil
    cases hlength
  | more hsize hlength hrest =>
    rename_i size arg rest
    have hnil : size = [] := (eq_of_append_separator hsize not_mem_nil htext.symm).left
    subst hnil
    cases hlength

/-- A separator at the end is removed. -/
def stripLast (part : Text) : Text := if part.getLast? = some ';' then part.dropLast else part

theorem stripLast_append (text : Text) : stripLast (text ++ [';']) = text := by
  unfold stripLast
  rw [getLast?_concat, if_pos rfl, dropLast_concat]

theorem exactArguments_iff {part : Text} : ExactArguments part <->
    part = [] ∨ part ≠ [';'] ∧ (Fitting (stripLast part) ∨ Fitting part) := by
  constructor
  · rintro (hempty | hsized | ⟨sized, hsized, rfl⟩)
    · exact Or.inl hempty
    · refine Or.inr ⟨?_, Or.inr hsized.fitting⟩
      rintro rfl
      exact not_sized_separator hsized
    · refine Or.inr ⟨?_, Or.inl ?_⟩
      · intro heq
        exact hsized.ne_nil (append_cancel_right (heq.trans (nil_append [';']).symm))
      · rw [stripLast_append]
        exact hsized.fitting
  · rintro (hempty | ⟨hne, hfitting⟩)
    · exact Or.inl hempty
    · by_cases hpart : part = []
      · exact Or.inl hpart
      · rcases hfitting with hstripped | hwhole
        · by_cases hlast : part.getLast? = some ';'
          · rcases getLast?_eq_some_iff.mp hlast with ⟨before, rfl⟩
            have hbefore : before ≠ [] := by
              rintro rfl
              exact hne rfl
            rw [stripLast_append] at hstripped
            exact Or.inr (Or.inr ⟨before, hstripped.sized hbefore, rfl⟩)
          · unfold stripLast at hstripped
            rw [if_neg hlast] at hstripped
            exact Or.inr (Or.inl (hstripped.sized hpart))
        · exact Or.inr (Or.inl (hwhole.sized hpart))

variable {fields : List Text}

theorem split_fields (hplain : forall field, field ∈ fields -> ';' ∉ field)
    (part : Text) : split [';'] fields.length
      (fields.flatMap (fun field => field ++ [';']) ++ part) = fields ++ [part] := by
  induction fields with
  | nil => rfl
  | cons field rest ih =>
    have hrest := ih fun other hother => hplain other (mem_cons_of_mem field hother)
    have htext : (field :: rest).flatMap (fun field => field ++ [';']) ++ part =
        field ++ ';' :: (rest.flatMap (fun field => field ++ [';']) ++ part) := by
      rw [flatMap_cons, append_assoc, append_assoc]
      rfl
    rw [htext, length_cons, split_succ_append (hplain field mem_cons_self), hrest]
    rfl

theorem exists_fields {count : Nat} (h : count ≤ text.count ';') :
    exists (fields : List Text) (part : Text), fields.length = count ∧
      (forall field, field ∈ fields -> ';' ∉ field) ∧
        text = fields.flatMap (fun field => field ++ [';']) ++ part := by
  induction count generalizing text with
  | zero => exact ⟨[], text, rfl, nofun, rfl⟩
  | succ less ih =>
    rcases breakOn_char ';' text with ⟨_, hmem⟩ | ⟨first, rest, _, hmem, rfl⟩
    · rw [count_eq_zero_of_not_mem hmem] at h
      cases h
    · rw [count_append, count_eq_zero_of_not_mem hmem, count_cons_self] at h
      rcases ih (show less ≤ rest.count ';' by omega) with ⟨fields, part, hlength, hplain, hrest⟩
      refine ⟨first :: fields, part, congrArg (· + 1) hlength, ?_, ?_⟩
      · intro field hfield
        rcases mem_cons.mp hfield with rfl | hlater
        · exact hmem
        · exact hplain field hlater
      · rw [flatMap_cons, append_assoc, append_assoc, ← hrest]
        rfl

theorem length_split_le {count : Nat} (h : text.count ';' < count) :
    (split [';'] count text).length ≤ count := by
  induction count generalizing text with
  | zero => cases h
  | succ less ih =>
    rcases breakOn_char ';' text with ⟨hnone, _⟩ | ⟨first, rest, hsome, hmem, rfl⟩
    · rw [split, hnone]
      exact Nat.succ_le_succ (Nat.zero_le less)
    · rw [count_append, count_eq_zero_of_not_mem hmem, count_cons_self] at h
      rw [split, hsome]
      exact Nat.succ_le_succ (ih (by omega))

theorem handleParts_short {parts : List Text} (h : parts.length < 6) :
    handleParts parts = .error .indexError := by
  rcases parts with _ | ⟨srcId, _ | ⟨host, _ | ⟨port, _ | ⟨timeout, _ | ⟨raw, _ | ⟨last, rest⟩⟩⟩⟩⟩⟩
  · rfl
  · rfl
  · rfl
  · rfl
  · rfl
  · rfl
  · simp only [length_cons] at h
    omega

/-- The loop ends with nothing left, and the library takes all texts. -/
def Accepted (fields : List Text) (part : Text) : Prop :=
  exists args, Walked (stripLast part) args ∧ (fields ++ args).all legalText = true

variable {srcId host port timeout raw : Text}

theorem buildCommand_eq_ok
    {srvCom : IpcCommand} (h : buildCommand srcId host port timeout raw args = .ok srvCom) :
    ([srcId, host, port, timeout, raw] ++ args).all legalText = true := by
  unfold buildCommand at h
  by_contra hillegal
  simp only [cons_append, nil_append] at hillegal
  simp only [if_neg hillegal] at h
  cases h

theorem exists_buildCommand (h : ([srcId, host, port, timeout, raw] ++ args).all legalText = true) :
    exists srvCom, buildCommand srcId host port timeout raw args = .ok srvCom :=
  ⟨_, if_pos h⟩

theorem handleParts_six (srcId host port timeout raw part : Text) :
    exists srvCom, handleParts [srcId, host, port, timeout, raw, part] = .ok (some srcId, srvCom) ∧
      (srvCom ≠ none <-> Accepted [srcId, host, port, timeout, raw] part) := by
  have hwalked : forall args, parseArguments (stripLast part).length (stripLast part) = .ok args <->
      Walked (stripLast part) args := fun args => parseArguments_iff (Nat.le_refl _)
  rcases hbuilt : parseArguments (stripLast part).length (stripLast part) >>=
    buildCommand srcId host port timeout raw with raised | srvCom
  · refine ⟨none, ?_, ?_⟩
    · unfold stripLast at hbuilt
      unfold handleParts
      simp only [hbuilt]
    · apply iff_of_false (fun hne => hne rfl)
      rintro ⟨args, hargs, hlegal⟩
      rcases exists_buildCommand hlegal with ⟨srvCom, hsrvCom⟩
      rw [bind_eq_ok ((hwalked args).mpr hargs) hsrvCom] at hbuilt
      cases hbuilt
  · refine ⟨some srvCom, ?_, ?_⟩
    · unfold stripLast at hbuilt
      unfold handleParts
      simp only [hbuilt]
    · apply iff_of_true (Option.some_ne_none srvCom)
      rcases exists_of_bind hbuilt with ⟨args, hargs, hsrvCom⟩
      exact ⟨args, (hwalked args).mp hargs, buildCommand_eq_ok hsrvCom⟩

theorem accepted_append {fields added : List Text} {part : Text}
    (hadded : added.all legalText = true) {all : List Text} (hperm : all.Perm (fields ++ added)) :
    Accepted all part <-> Accepted fields part := by
  have hall : all.all legalText = fields.all legalText := by
    rw [hperm.all_eq, all_append, hadded, Bool.and_true]
  unfold Accepted
  simp only [all_append, hall]

variable {version : Int} {protoVersion : Text}

section

variable (hversion : parseInt protoVersion = some version)
include hversion

theorem handleVersion_eq (data : Text) :
    handleVersion protoVersion data =
      if version = 0 then
        handleParts (insertPart 4 ['0'] (insertPart 3 ['1', '0'] (split [';'] 3 data)))
      else if version = 1 then handleParts (insertPart 4 ['0'] (split [';'] 4 data))
      else handleParts (split [';'] 5 data) := by
  unfold handleVersion
  rw [hversion]
  rcases version with (_ | _ | number) | number
  · rfl
  · rfl
  · have hzero : ¬ (Int.ofNat (number + 1 + 1) = 0) := nofun
    have hone : ¬ (Int.ofNat (number + 1 + 1) = 1) := by
      intro h
      cases h
    rw [if_neg hzero, if_neg hone]
    rfl
  · rfl

theorem handleVersion_fields (hcount : fields.length = fieldCount version)
    (hplain : forall field, field ∈ fields -> ';' ∉ field) (part : Text) :
    exists srcId srvCom, handleVersion protoVersion
        (fields.flatMap (fun field => field ++ [';']) ++ part) = .ok (srcId, srvCom) ∧
      (srvCom ≠ none <-> Accepted fields part) := by
  have hsplit := split_fields hplain part
  rw [hcount] at hsplit
  rw [handleVersion_eq hversion]
  unfold fieldCount at hcount hsplit
  by_cases hzero : version = 0
  · rw [if_pos hzero] at hcount hsplit ⊢
    rcases length_eq_three.mp hcount with ⟨srcId, host, port, rfl⟩
    rw [hsplit]
    rcases handleParts_six srcId host port ['1', '0'] ['0'] part with ⟨srvCom, hparts, hiff⟩
    exact ⟨some srcId, srvCom, hparts,
      hiff.trans (@accepted_append _ [['1', '0'], ['0']] _ (by decide) _ (Perm.refl _))⟩
  · rw [if_neg hzero] at hcount hsplit ⊢
    by_cases hone : version = 1
    · rw [if_pos hone] at hcount hsplit ⊢
      rcases fields with _ | ⟨srcId, rest⟩
      · cases hcount
      · rcases length_eq_three.mp (Nat.succ.inj hcount) with ⟨host, port, timeout, rfl⟩
        rw [hsplit]
        rcases handleParts_six srcId host port timeout ['0'] part with ⟨srvCom, hparts, hiff⟩
        exact ⟨some srcId, srvCom, hparts,
          hiff.trans (@accepted_append _ [['0']] _ (by decide) _ (Perm.refl _))⟩
    · rw [if_neg hone] at hcount hsplit ⊢
      rcases fields with _ | ⟨srcId, _ | ⟨host, rest⟩⟩
      · cases hcount
      · cases hcount
      · rcases length_eq_three.mp (Nat.succ.inj (Nat.succ.inj hcount)) with
          ⟨port, timeout, raw, rfl⟩
        rw [hsplit]
        rcases handleParts_six srcId host port timeout raw part with ⟨srvCom, hparts, hiff⟩
        exact ⟨some srcId, srvCom, hparts, hiff⟩

theorem handleVersion_short {data : Text} (hshort : data.count ';' < fieldCount version) :
    handleVersion protoVersion data = .error .indexError := by
  have hlength := length_split_le hshort
  rw [handleVersion_eq hversion]
  unfold fieldCount at hlength
  by_cases hzero : version = 0
  · rw [if_pos hzero] at hlength ⊢
    apply handleParts_short
    simp only [insertPart, length_append, length_take, length_cons,
      length_drop]
    omega
  · rw [if_neg hzero] at hlength ⊢
    by_cases hone : version = 1
    · rw [if_pos hone] at hlength ⊢
      apply handleParts_short
      simp only [insertPart, length_append, length_take, length_cons,
        length_drop]
      omega
    · rw [if_neg hone] at hlength ⊢
      exact handleParts_short (Nat.lt_succ_of_le hlength)

end

theorem length_le_count (fields : List Text) (part : Text) :
    fields.length ≤ (fields.flatMap (fun field => field ++ [';']) ++ part).count ';' := by
  induction fields with
  | nil => exact Nat.zero_le _
  | cons field rest ih =>
    rw [flatMap_cons, append_assoc, append_assoc, count_append,
      singleton_append, count_cons_self, length_cons]
    omega

theorem Decomposed.unique {version other : Int} {fields others : List Text}
    {part otherPart : Text} (h : Decomposed text version fields part)
    (hother : Decomposed text other others otherPart) :
    version = other ∧ fields = others ∧ part = otherPart := by
  have hrest : forall {version other : Int} {rest otherRest : Text}, Versioned text version rest ->
      Versioned text other otherRest -> version = other ∧ rest = otherRest := by
    rintro version other rest otherRest (⟨hhead, rfl, rfl⟩ | ⟨proto, hproto, hversion, htext⟩)
      (⟨hotherHead, rfl, rfl⟩ | ⟨otherProto, hotherProto, hotherVersion, hotherText⟩)
    · exact ⟨rfl, rfl⟩
    · exact absurd (hotherText ▸ rfl) hhead
    · exact absurd (htext ▸ rfl) hotherHead
    · rw [htext] at hotherText
      rcases eq_of_append_separator hproto hotherProto (cons.inj hotherText).right with
        ⟨rfl, rfl⟩
      exact ⟨Option.some.inj (hversion.symm.trans hotherVersion), rfl⟩
  rcases hrest h.versioned hother.versioned with ⟨rfl, hfields⟩
  have hsplit := split_fields h.plain part
  have hotherSplit := split_fields hother.plain otherPart
  rw [← hfields, hother.count, ← h.count, hsplit] at hotherSplit
  rcases append_inj' hotherSplit rfl with ⟨rfl, hpart⟩
  exact ⟨rfl, rfl, (cons.inj hpart).left⟩

theorem handle_ascii_text {data : Bytes} (h : asciiText data = .ok text)
    (hcount : text.count ';' > 1) :
    handle data = if text.head? = some ';' then
        ((breakOn [';'] (text.drop 1)).map fun parts => handleVersion parts.1 parts.2).getD
          (.error .valueError)
      else handleVersion ['0'] text := by
  unfold handle
  rw [h]
  simp only [if_pos hcount]
  split
  · rcases breakOn [';'] (text.drop 1) with _ | ⟨protoVersion, rest⟩
    · rfl
    · rfl
  · rfl

theorem Decomposed.handle {data : Bytes} (hascii : asciiText data = .ok text)
    {part : Text} (h : Decomposed text version fields part) :
    exists srcId srvCom, handle data = .ok (srcId, srvCom) ∧
      (srvCom ≠ none <-> Accepted fields part) := by
  have hfields := length_le_count fields part
  rcases h.versioned with ⟨hhead, rfl, hrest⟩ | ⟨protoVersion, hproto, hversion, htext⟩
  · have hcount : text.count ';' > 1 := by
      rw [hrest, h.count] at hfields
      exact Nat.lt_of_lt_of_le (by decide) hfields
    rw [handle_ascii_text hascii hcount, if_neg hhead, ← hrest]
    exact handleVersion_fields (by decide) h.count h.plain part
  · have hcount : text.count ';' > 1 := by
      rw [htext, count_cons_self, count_append, count_cons_self]
      omega
    have hbreak : breakOn [';'] (text.drop 1) = some (protoVersion,
        fields.flatMap (fun field => field ++ [';']) ++ part) := by
      rw [htext]
      exact breakOn_append hproto _
    rw [handle_ascii_text hascii hcount, if_pos (by rw [htext]; rfl), hbreak]
    exact handleVersion_fields hversion h.count h.plain part

variable {result : Option Text × Option IpcCommand}

theorem exists_decomposed_version {protoVersion rest : Text}
    (h : handleVersion protoVersion rest = .ok result) :
    exists version, parseInt protoVersion = some version ∧
      exists (fields : List Text) (part : Text), fields.length = fieldCount version ∧
        (forall field, field ∈ fields -> ';' ∉ field) ∧
        rest = fields.flatMap (fun field => field ++ [';']) ++ part := by
  rcases hversion : parseInt protoVersion with _ | version
  · unfold handleVersion at h
    rw [hversion] at h
    cases h
  · refine ⟨version, rfl, exists_fields ?_⟩
    by_contra hshort
    rw [handleVersion_short hversion (Nat.lt_of_not_le hshort)] at h
    cases h

theorem exists_decomposed {data : Bytes} (hascii : asciiText data = .ok text)
    (hcount : text.count ';' > 1) (h : handle data = .ok result) :
    exists version fields part, Decomposed text version fields part := by
  rw [handle_ascii_text hascii hcount] at h
  by_cases hhead : text.head? = some ';'
  · rw [if_pos hhead] at h
    rcases text with _ | ⟨c, text⟩
    · cases hhead
    · cases hhead
      rcases breakOn_char ';' text with ⟨hnone, _⟩ | ⟨protoVersion, rest, hsome, hproto, rfl⟩
      · rw [drop_one, tail_cons, hnone] at h
        cases h
      · rw [drop_one, tail_cons, hsome] at h
        rcases exists_decomposed_version h with
          ⟨version, hversion, fields, part, hlength, hplain, rfl⟩
        exact ⟨version, fields, part, hlength, hplain,
          Or.inr ⟨protoVersion, hproto, hversion, rfl⟩⟩
  · rw [if_neg hhead] at h
    rcases exists_decomposed_version h with ⟨version, hversion, fields, part, hlength, hplain, rfl⟩
    cases hversion
    exact ⟨0, fields, part, hlength, hplain, Or.inl ⟨hhead, rfl, rfl⟩⟩

/--
The bytes are ASCII, and where there are fields none is missing.  What is taken is of a known
version, and each size is that of its argument.
-/
def Harmless (data : Bytes) : Prop :=
  exists text, asciiText data = .ok text ∧ (text.count ';' ≤ 1 ∨
    exists version fields part, Decomposed text version fields part ∧
      (Accepted fields part -> (version = 0 ∨ version = 1 ∨ version = 2) ∧
        (part = [] ∨ part ≠ [';'] ∧ (Fitting (stripLast part) ∨ Fitting part))))

/-- Exactly the harmless bytes are interpreted as they should be. -/
theorem interprets_iff (data : Bytes) : Interprets data <-> Harmless data := by
  constructor
  · rintro ⟨srcId, srvCom, hhandle, hframe⟩
    rcases hascii : asciiText data with raised | text
    · unfold handle at hhandle
      rw [hascii] at hhandle
      cases hhandle
    · refine ⟨text, hascii, ?_⟩
      by_cases hcount : text.count ';' > 1
      · rcases exists_decomposed hascii hcount hhandle with ⟨version, fields, part, hdecomposed⟩
        refine Or.inr ⟨version, fields, part, hdecomposed, ?_⟩
        intro haccepted
        rcases hdecomposed.handle hascii with ⟨_, _, hsame, hiff⟩
        cases hsame.symm.trans hhandle
        rcases hframe (hiff.mpr haccepted) with
          ⟨_, hother, _, _, _, hotherDecomposed, hknown, hexact⟩
        cases hascii.symm.trans hother
        rcases hdecomposed.unique hotherDecomposed with ⟨rfl, rfl, rfl⟩
        exact ⟨hknown, exactArguments_iff.mp hexact⟩
      · exact Or.inl (Nat.le_of_not_lt hcount)
  · rintro ⟨text, hascii, hfew | ⟨version, fields, part, hdecomposed, hharmless⟩⟩
    · refine ⟨none, none, ?_, fun hne => absurd rfl hne⟩
      unfold handle
      rw [hascii]
      exact if_neg (Nat.not_lt.mpr hfew)
    · rcases hdecomposed.handle hascii with ⟨srcId, srvCom, hhandle, hiff⟩
      refine ⟨srcId, srvCom, hhandle, ?_⟩
      intro hcommand
      rcases hharmless (hiff.mp hcommand) with ⟨hknown, hfitting⟩
      exact ⟨text, hascii, version, fields, part, hdecomposed, hknown,
        exactArguments_iff.mpr hfitting⟩

/-- A version that is no number ends the handler with an exception. -/
theorem version_not_interpreted : ¬ Interprets (encodeUtf8 ";x;y".toList) := by
  rintro ⟨srcId, srvCom, hhandle, _⟩
  have hraised : handle (encodeUtf8 ";x;y".toList) = .error .valueError := by
    decide
  rw [hraised] at hhandle
  cases hhandle

end Icsw.Relay
