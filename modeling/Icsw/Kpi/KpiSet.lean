import Icsw.Foundation.Python
import Mathlib.Data.List.Perm.Basic

/-!
# Selection of KPI objects

Objects are selected by their attributes.  Both ways to select narrow the objects down
parameter by parameter, so they complement each other only where an object matches all
parameters or none.
-/

namespace Icsw.Kpi

open Foundation List

/-- An attribute, or what it is compared to.  All that is neither missing nor a text is compared
for equality. -/
inductive Value (ν : Type) where
  | none
  | text (content : Text)
  | other (value : ν)
deriving DecidableEq

inductive Attribute (ν : Type) where
  | single (value : Value ν)
  | several (values : List (Value ν))

structure KpiObject (ν : Type) where
  attributes : List (Text × Attribute ν)

/-- `getattr(obj, k, None)` -/
def KpiObject.getattr {ν : Type} (obj : KpiObject ν) (k : Text) : Attribute ν :=
  (obj.attributes.lookup k).getD (.single .none)

inductive FilterError where
  /-- A text is no regular expression. -/
  | reError
  /-- A search in what is not a text. -/
  | typeError

section Selection

-- `reCompile pattern` is the search for a regular expression, if the pattern is one.
variable (reCompile : Text -> Option (Text -> Bool)) {ν : Type} [DecidableEq ν]

def searchIn (search : Text -> Bool) : Value ν -> Except FilterError Bool
  | .none => .ok false
  | .text content => .ok (search content)
  | .other _ => .error .typeError

def matchCheckFun : Value ν -> Except FilterError (Value ν -> Except FilterError Bool)
  | .text pattern =>
    match reCompile pattern with
    | none => .error .reError
    | some search => .ok (searchIn search)
  | v => .ok fun x => .ok (decide (x = v))

def anyMatch (matchCheck : Value ν -> Except FilterError Bool) :
    List (Value ν) -> Except FilterError Bool
  | [] => .ok false
  | entry :: rest => do
      if ← matchCheck entry then return true
      anyMatch matchCheck rest

def checkMatch (matchCheck : Value ν -> Except FilterError Bool) :
    Attribute ν -> Except FilterError Bool
  | .single value => matchCheck value
  | .several values => anyMatch matchCheck values

/-- The elements that pass a test that may raise. -/
def keep {α ε : Type} (test : α -> Except ε Bool) : List α -> Except ε (List α)
  | [] => .ok []
  | item :: rest => do
      let passed ← test item
      let kept ← keep test rest
      return if passed then item :: kept else kept

def filterStep (positive : Bool) (objects : List (KpiObject ν)) (parameter : Text × Value ν) :
    Except FilterError (List (KpiObject ν)) := do
  let matchCheck ← matchCheckFun reCompile parameter.2
  keep (fun obj => do
    let matched ← checkMatch matchCheck (obj.getattr parameter.1)
    return matched == positive) objects

/-- The parameters in the order of their dictionary. -/
def filterImpl (objects : List (KpiObject ν)) (parameters : List (Text × Value ν))
    (positive : Bool) : Except FilterError (List (KpiObject ν)) :=
  parameters.foldlM (filterStep reCompile positive) objects

/-- `kpi_set.filter(**kwargs)` -/
def kpiFilter (objects : List (KpiObject ν)) (kwargs : List (Text × Value ν)) :
    Except FilterError (List (KpiObject ν)) :=
  filterImpl reCompile objects kwargs true

/-- `kpi_set.exclude(**kwargs)` -/
def kpiExclude (objects : List (KpiObject ν)) (kwargs : List (Text × Value ν)) :
    Except FilterError (List (KpiObject ν)) :=
  filterImpl reCompile objects kwargs false

def matchesParameter (parameter : Text × Value ν) (obj : KpiObject ν) :
    Except FilterError Bool := do
  let matchCheck ← matchCheckFun reCompile parameter.2
  checkMatch matchCheck (obj.getattr parameter.1)

theorem keep_ok {α ε : Type} {test : α -> Except ε Bool} {items kept : List α}
    (h : keep test items = .ok kept) {item : α} (hmem : item ∈ kept) :
    item ∈ items ∧ test item = .ok true := by
  induction items generalizing kept with
  | nil =>
    cases h
    cases hmem
  | cons first rest ih =>
    rcases exists_of_bind h with ⟨passed, hpassed, hnext⟩
    rcases exists_of_bind hnext with ⟨others, hothers, hkept⟩
    have hold : item ∈ others -> item ∈ first :: rest ∧ test item = .ok true := fun hother =>
      ⟨mem_cons_of_mem _ (ih hothers hother).left, (ih hothers hother).right⟩
    cases passed with
    | false =>
      cases hkept
      exact hold hmem
    | true =>
      cases hkept
      rcases mem_cons.mp hmem with rfl | hother
      · exact ⟨mem_cons_self, hpassed⟩
      · exact hold hother

theorem keep_eq_filter {α ε : Type} {test : α -> Except ε Bool} {passed : α -> Bool}
    {items : List α} (h : forall item, item ∈ items -> test item = .ok (passed item)) :
    keep test items = .ok (items.filter passed) := by
  induction items with
  | nil => rfl
  | cons first rest ih =>
    have hrest := ih fun item hmem => h item (mem_cons_of_mem _ hmem)
    unfold keep
    rw [h first mem_cons_self, hrest, filter_cons]
    rfl

variable {parameter : Text × Value ν}

theorem filterStep_ok {positive : Bool} {objects kept : List (KpiObject ν)}
    (h : filterStep reCompile positive objects parameter = .ok kept) :
    (exists matchCheck, matchCheckFun reCompile parameter.2 = .ok matchCheck) ∧
      forall obj, obj ∈ kept ->
        obj ∈ objects ∧ matchesParameter reCompile parameter obj = .ok positive := by
  rcases exists_of_bind h with ⟨matchCheck, hcheck, hkeep⟩
  refine ⟨⟨matchCheck, hcheck⟩, fun obj hobj => ?_⟩
  rcases keep_ok hkeep hobj with ⟨hmem, htest⟩
  rcases exists_of_bind htest with ⟨matched, hmatched, hequal⟩
  have hpositive : (matched == positive) = true := Except.ok.inj hequal
  refine ⟨hmem, bind_eq_ok hcheck ?_⟩
  rw [hmatched, eq_of_beq hpositive]

theorem filterImpl_ok {positive : Bool} {objects kept : List (KpiObject ν)}
    {parameters : List (Text × Value ν)}
    (h : filterImpl reCompile objects parameters positive = .ok kept) :
    (forall parameter, parameter ∈ parameters ->
        exists matchCheck, matchCheckFun reCompile parameter.2 = .ok matchCheck) ∧
      forall obj, obj ∈ kept -> obj ∈ objects ∧ forall parameter, parameter ∈ parameters ->
        matchesParameter reCompile parameter obj = .ok positive := by
  induction parameters generalizing objects with
  | nil =>
    cases h
    exact ⟨fun _ hmem => (nomatch hmem), fun _ hobj => ⟨hobj, fun _ hmem => nomatch hmem⟩⟩
  | cons parameter rest ih =>
    rcases exists_of_bind h with ⟨narrowed, hstep, hrest⟩
    rcases filterStep_ok reCompile hstep with ⟨hcheck, hnarrowed⟩
    rcases ih hrest with ⟨hchecks, hkept⟩
    constructor
    · intro other hother
      rcases mem_cons.mp hother with rfl | hmem
      · exact hcheck
      · exact hchecks other hmem
    · intro obj hobj
      rcases hkept obj hobj with ⟨hin, hmatches⟩
      refine ⟨(hnarrowed obj hin).left, fun other hother => ?_⟩
      rcases mem_cons.mp hother with rfl | hmem
      · exact (hnarrowed obj hin).right
      · exact hmatches other hmem

/-- All texts are regular expressions. -/
def Compiled (parameters : List (Text × Value ν)) : Prop :=
  forall parameter, parameter ∈ parameters ->
    exists matchCheck, matchCheckFun reCompile parameter.2 = .ok matchCheck

variable {objects : List (KpiObject ν)}

theorem filterStep_eq_filter (positive : Bool) {matched : KpiObject ν -> Bool}
    (hcheck : exists matchCheck, matchCheckFun reCompile parameter.2 = .ok matchCheck)
    (hmatched : forall obj, obj ∈ objects ->
      matchesParameter reCompile parameter obj = .ok (matched obj)) :
    filterStep reCompile positive objects parameter =
      .ok (objects.filter fun obj => matched obj == positive) := by
  rcases hcheck with ⟨matchCheck, hcheck⟩
  apply bind_eq_ok hcheck
  apply keep_eq_filter
  intro obj hobj
  have hobject := hmatched obj hobj
  unfold matchesParameter at hobject
  rw [hcheck] at hobject
  exact bind_eq_ok hobject rfl

theorem filterImpl_eq_filter (positive : Bool)
    {rest : List (Text × Value ν)} {matched : KpiObject ν -> Bool}
    (hcompiled : Compiled reCompile (parameter :: rest))
    (hmatched : forall obj, obj ∈ objects -> forall other, other ∈ parameter :: rest ->
      matchesParameter reCompile other obj = .ok (matched obj)) :
    filterImpl reCompile objects (parameter :: rest) positive =
      .ok (objects.filter fun obj => matched obj == positive) := by
  have hstep : forall (left : List (KpiObject ν)) (other : Text × Value ν), left ⊆ objects ->
      other ∈ parameter :: rest -> filterStep reCompile positive left other =
        .ok (left.filter fun obj => matched obj == positive) := by
    intro left other hleft hother
    exact filterStep_eq_filter reCompile positive (hcompiled other hother)
      fun obj hobj => hmatched obj (hleft hobj) other hother
  have hnarrowed : forall others, others ⊆ parameter :: rest ->
      filterImpl reCompile (objects.filter fun obj => matched obj == positive) others positive =
        .ok (objects.filter fun obj => matched obj == positive) := by
    intro others hothers
    induction others with
    | nil => rfl
    | cons other others ih =>
      refine bind_eq_ok (hstep _ other (filter_subset_self _) (hothers mem_cons_self)) ?_
      rw [filter_filter]
      simp only [Bool.and_self]
      exact ih fun _ hmem => hothers (mem_cons_of_mem _ hmem)
  exact bind_eq_ok (hstep objects parameter (Subset.refl _) mem_cons_self)
    (hnarrowed rest (subset_cons_self _ _))

def Partitioned (objects : List (KpiObject ν)) (kwargs : List (Text × Value ν)) : Prop :=
  exists kept excluded, kpiFilter reCompile objects kwargs = .ok kept ∧
    kpiExclude reCompile objects kwargs = .ok excluded ∧ (kept ++ excluded).Perm objects

def MatchesAlike (kwargs : List (Text × Value ν)) (obj : KpiObject ν) : Prop :=
  kwargs ≠ [] ∧ exists matched, forall parameter, parameter ∈ kwargs ->
    matchesParameter reCompile parameter obj = .ok matched

variable {kwargs : List (Text × Value ν)}

theorem matchesAlike_of_partitioned (h : Partitioned reCompile objects kwargs)
    {obj : KpiObject ν} (hobj : obj ∈ objects) : MatchesAlike reCompile kwargs obj := by
  rcases h with ⟨kept, excluded, hkept, hexcluded, hperm⟩
  constructor
  · rintro rfl
    cases hkept
    cases hexcluded
    have hlength := hperm.length_eq
    rw [length_append] at hlength
    have hpositive := length_pos_of_mem hobj
    omega
  · rcases mem_append.mp (hperm.mem_iff.mpr hobj) with hin | hout
    · exact ⟨true, ((filterImpl_ok reCompile hkept).right obj hin).right⟩
    · exact ⟨false, ((filterImpl_ok reCompile hexcluded).right obj hout).right⟩

theorem partitioned_of_matchesAlike (hcompiled : Compiled reCompile kwargs)
    (hobjects : forall obj, obj ∈ objects -> MatchesAlike reCompile kwargs obj) :
    Partitioned reCompile objects kwargs := by
  cases kwargs with
  | nil =>
    cases objects with
    | nil => exact ⟨[], [], rfl, rfl, Perm.refl _⟩
    | cons obj rest => exact absurd rfl (hobjects obj mem_cons_self).left
  | cons parameter rest =>
    let matched : KpiObject ν -> Bool := fun obj =>
      (matchesParameter reCompile parameter obj).toOption.getD false
    have hmatched : forall obj, obj ∈ objects -> forall other, other ∈ parameter :: rest ->
        matchesParameter reCompile other obj = .ok (matched obj) := by
      intro obj hobj other hother
      rcases (hobjects obj hobj).right with ⟨found, hfound⟩
      have hfirst : matched obj = found := by
        show (matchesParameter reCompile parameter obj).toOption.getD false = found
        rw [hfound parameter mem_cons_self]
        rfl
      rw [hfound other hother, hfirst]
    refine ⟨_, _, filterImpl_eq_filter reCompile true hcompiled hmatched,
      filterImpl_eq_filter reCompile false hcompiled hmatched, ?_⟩
    have hsplit := filter_append_perm matched objects
    simpa only [beq_true, beq_false] using hsplit

/-- The two selections complement each other exactly if each object matches all parameters or
none. -/
theorem partitioned_iff (objects : List (KpiObject ν)) (kwargs : List (Text × Value ν)) :
    Partitioned reCompile objects kwargs <-> Compiled reCompile kwargs ∧
      forall obj, obj ∈ objects -> MatchesAlike reCompile kwargs obj := by
  constructor
  · intro h
    refine ⟨?_, fun obj hobj => matchesAlike_of_partitioned reCompile h hobj⟩
    rcases h with ⟨kept, excluded, hkept, _, _⟩
    exact (filterImpl_ok reCompile hkept).left
  · rintro ⟨hcompiled, hobjects⟩
    exact partitioned_of_matchesAlike reCompile hcompiled hobjects

end Selection

/-!
### An object that matches one of two parameters
-/

/-- Texts without special characters are found where they occur. -/
def plainSearch (pattern : Text) : Option (Text -> Bool) :=
  some fun content =>
    @decide (pattern <:+: content) (instDecidableIsInfixOfDecidableEq pattern content)

def criticalHost : KpiObject Int where
  attributes := [("host_name".toList, .single (.text "node".toList)),
    ("result".toList, .single (.other 2))]

def okNodes : List (Text × Value Int) :=
  [("host_name".toList, .text "node".toList), ("result".toList, .other 0)]

theorem criticalHost_not_partitioned : ¬ Partitioned plainSearch [criticalHost] okNodes := by
  rintro ⟨kept, excluded, hkept, hexcluded, hperm⟩
  have hnone : kpiFilter plainSearch [criticalHost] okNodes = .ok [] := rfl
  have hnone' : kpiExclude plainSearch [criticalHost] okNodes = .ok [] := rfl
  rw [hnone] at hkept
  rw [hnone'] at hexcluded
  cases hkept
  cases hexcluded
  exact absurd hperm.length_eq (by decide)

end Icsw.Kpi
