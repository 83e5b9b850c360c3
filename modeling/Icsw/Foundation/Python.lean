import Mathlib.Data.List.Basic

/-!
# Values of the interpreted language

Text is a list of characters, and an exception that the modelled code does not
catch is a value of `PyError`, those of the frameworks it uses included.
-/

namespace Icsw.Foundation

open List

abbrev Text := List Char

/-- `name in names` -/
instance textMembership (name : Text) (names : List Text) : Decidable (name ∈ names) :=
  instDecidableMemOfLawfulBEq name names

instance decidableForallChar (text : Text) (p : Char -> Prop) [DecidablePred p] :
    Decidable (forall c, c ∈ text -> p c) :=
  decidableBAll p text

inductive PyError where
  | assertionError
  | attributeError
  /-- A validation error that says why the parent could not be created. -/
  | cannotCreateParent (cause : PyError)
  | dataError
  /-- No exception: a loop that never ends. -/
  | endlessLoop
  | gaierror
  | improperlyConfigured
  | indexError
  | integrityError
  | keyError
  | multipleObjectsReturned
  | nameError
  | objectDoesNotExist
  | overflowError
  | reError
  | recursionLimit
  | typeError
  | unicodeDecodeError
  | unicodeEncodeError
  | validationError (message : Text)
  | valueError
  | zeroDivisionError
  | zmqError
deriving DecidableEq

variable {α β ε : Type} {next : α -> Except ε β} {first : Except ε α}

theorem exists_of_bind {result : β} (h : first >>= next = .ok result) :
    exists value, first = .ok value ∧ next value = .ok result := by
  cases first with
  | error raised => cases h
  | ok value => exact ⟨value, rfl, h⟩

theorem bind_eq_ok {value : α}
    {result : β} (h : first = .ok value) (hnext : next value = .ok result) :
    first >>= next = .ok result := by
  rw [h]
  exact hnext

theorem bind_of_ok {value : α} (h : first = .ok value) : first >>= next = next value := by
  rw [h]
  rfl

theorem ok_of_toOption {α ε : Type} {result : Except ε α} {value : α}
    (h : result.toOption = some value) : result = .ok value := by
  cases result with
  | error raised => cases h
  | ok found => exact congrArg Except.ok (Option.some.inj h)

variable {f : α -> Except ε β} {items : List α}

theorem mapM_eq_ok {g : α -> β} (h : forall item, item ∈ items -> f item = .ok (g item)) :
    items.mapM f = .ok (items.map g) := by
  induction items with
  | nil => rfl
  | cons first rest ih =>
    have htail := ih (fun item hmem => h item (mem_cons_of_mem first hmem))
    rw [mapM_cons, h first mem_cons_self, htail]
    rfl

theorem exists_mapM_ok (h : forall item, item ∈ items -> exists result, f item = .ok result) :
    exists results, items.mapM f = .ok results := by
  induction items with
  | nil => exact ⟨[], rfl⟩
  | cons first rest ih =>
    rcases h first mem_cons_self with ⟨result, hfirst⟩
    rcases ih (fun item hmem => h item (mem_cons_of_mem first hmem)) with
      ⟨results, hrest⟩
    rw [mapM_cons, hfirst, hrest]
    exact ⟨result :: results, rfl⟩

theorem mapM_ok_mem {results : List β} (h : items.mapM f = .ok results) :
    (forall item, item ∈ items -> exists result, result ∈ results ∧ f item = .ok result) ∧
      forall result, result ∈ results -> exists item, item ∈ items ∧ f item = .ok result := by
  induction items generalizing results with
  | nil =>
    cases h
    simp
  | cons first rest ih =>
    rw [mapM_cons] at h
    rcases exists_of_bind h with ⟨value, hfirst, h⟩
    rcases exists_of_bind h with ⟨values, hrest, h⟩
    cases h
    rcases ih hrest with ⟨hitems, hresults⟩
    constructor
    · intro item hmem
      rcases mem_cons.mp hmem with rfl | htail
      · exact ⟨value, mem_cons_self, hfirst⟩
      · rcases hitems item htail with ⟨result, hresult, hok⟩
        exact ⟨result, mem_cons_of_mem value hresult, hok⟩
    · intro result hmem
      rcases mem_cons.mp hmem with rfl | htail
      · exact ⟨first, mem_cons_self, hfirst⟩
      · rcases hresults result htail with ⟨item, hitem, hok⟩
        exact ⟨item, mem_cons_of_mem first hitem, hok⟩

theorem mapM_ne_ok {item : α} {error : ε} (hmem : item ∈ items) (h : f item = .error error) :
    exists raised, items.mapM f = .error raised := by
  cases hall : items.mapM f with
  | error raised => exact ⟨raised, rfl⟩
  | ok results =>
    rcases (mapM_ok_mem hall).left item hmem with ⟨result, _, hok⟩
    cases h.symm.trans hok

end Icsw.Foundation
