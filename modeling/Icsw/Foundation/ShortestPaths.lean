import Mathlib.Data.List.Permutation
import Mathlib.Data.Set.Finite.List
import Mathlib.Data.Set.Finite.Lemmas
import Mathlib.Tactic.Linarith

/-!
# Shortest paths

Simple paths along a relation, the sum of an amount over the links of a path, and what shows that
no other path has a smaller sum: labels that grow along each link by no more than the amount, and
along the path by just the amount.
-/

namespace Icsw.Foundation

open List

variable {V : Type}

/-- The sum over the links of a path. -/
def alongLinks (amount : V -> V -> Int) : List V -> Int
  | [] => 0
  | [_] => 0
  | first :: second :: rest => amount first second + alongLinks amount (second :: rest)

structure SimplePath (Link : V -> V -> Prop) (start stop : V) (path : List V) : Prop where
  nodup : path.Nodup
  head : path.head? = some start
  last : path.getLast? = some stop
  linked : path.IsChain Link

structure LeastPath (Link : V -> V -> Prop) (cost : List V -> Int) (start stop : V)
    (path : List V) : Prop where
  simple : SimplePath Link start stop path
  least : forall other, SimplePath Link start stop other -> cost path ≤ cost other

variable {Link : V -> V -> Prop} {amount : V -> V -> Int} {start stop : V} {path : List V}

theorem alongLinks_append (amount : V -> V -> Int) (before after : List V) (middle : V) :
    alongLinks amount (before ++ middle :: after) =
      alongLinks amount (before ++ [middle]) + alongLinks amount (middle :: after) := by
  induction before with
  | nil => exact (Int.zero_add _).symm
  | cons first rest ih =>
    cases rest with
    | nil =>
      show amount first middle + _ = amount first middle + 0 + _
      rw [Int.add_zero]
    | cons second rest =>
      show amount first second + alongLinks amount (second :: rest ++ middle :: after) =
        amount first second + alongLinks amount (second :: rest ++ [middle]) + _
      rw [ih, Int.add_assoc]

theorem alongLinks_concat (amount : V -> V -> Int) {before : List V} {last next : V}
    (h : before.getLast? = some last) :
    alongLinks amount (before ++ [next]) = alongLinks amount before + amount last next := by
  rcases getLast?_eq_some_iff.mp h with ⟨front, rfl⟩
  rw [append_assoc, singleton_append, alongLinks_append]
  show _ + (amount last next + 0) = _
  rw [Int.add_zero]

theorem alongLinks_nonneg (hamount : forall a b, Link a b -> 0 ≤ amount a b)
    (hlinked : path.IsChain Link) : 0 ≤ alongLinks amount path := by
  induction path with
  | nil => exact le_rfl
  | cons first rest ih =>
    cases rest with
    | nil => exact le_rfl
    | cons second rest =>
      rcases isChain_cons_cons.mp hlinked with ⟨hlink, hrest⟩
      exact Int.add_nonneg (hamount first second hlink) (ih hrest)

theorem alongLinks_add (amount other : V -> V -> Int) (path : List V) :
    alongLinks (fun a b => amount a b + other a b) path =
      alongLinks amount path + alongLinks other path := by
  induction path with
  | nil => rfl
  | cons first rest ih =>
    cases rest with
    | nil => rfl
    | cons second rest =>
      show amount first second + other first second + alongLinks _ (second :: rest) =
        amount first second + _ + (other first second + _)
      rw [ih]
      omega

theorem alongLinks_node (node : V -> Int) (first : V) (rest : List V) :
    node first + alongLinks (fun _ b => node b) (first :: rest) =
      ((first :: rest).map node).sum := by
  induction rest generalizing first with
  | nil => exact Int.add_zero _ |>.trans (Int.add_zero _).symm
  | cons second rest ih =>
    show node first + (node second + _) = _
    rw [ih second]
    rfl

theorem SimplePath.ne_nil (h : SimplePath Link start stop path) : path ≠ [] := by
  intro hnil
  have hhead := h.head
  rw [hnil] at hhead
  cases hhead

theorem SimplePath.eq_cons (h : SimplePath Link start stop path) :
    exists rest, path = start :: rest := by
  cases path with
  | nil => exact absurd rfl h.ne_nil
  | cons first rest =>
    injection h.head with hfirst
    exact ⟨rest, by rw [hfirst]⟩

theorem SimplePath.singleton (Link : V -> V -> Prop) (start : V) :
    SimplePath Link start start [start] where
  nodup := nodup_singleton start
  head := rfl
  last := rfl
  linked := isChain_singleton start

theorem SimplePath.forall_mem (h : SimplePath Link start stop path) {holds : V -> Prop}
    (hstart : holds start) (hlink : forall a b, Link a b -> holds b) :
    forall a, a ∈ path -> holds a := by
  rcases h.eq_cons with ⟨rest, hpath⟩
  have hchain := h.linked
  rw [hpath] at hchain ⊢
  clear hpath h
  induction rest generalizing start with
  | nil =>
    intro a ha
    rw [mem_singleton.mp ha]
    exact hstart
  | cons second rest ih =>
    rcases isChain_cons_cons.mp hchain with ⟨hfirst, hrest⟩
    intro a ha
    rcases mem_cons.mp ha with heq | hlater
    · rw [heq]
      exact hstart
    · exact ih (hlink _ _ hfirst) hrest a hlater

theorem SimplePath.before {before after : List V} {middle : V}
    (h : SimplePath Link start stop (before ++ middle :: after)) :
    SimplePath Link start middle (before ++ [middle]) := by
  have hsplit : before ++ middle :: after = before ++ [middle] ++ after := by
    rw [append_assoc, singleton_append]
  have hnodup := h.nodup
  have hlinked := h.linked
  rw [hsplit] at hnodup hlinked
  refine
    { nodup := (nodup_append.mp hnodup).left
      head := ?_
      last := getLast?_concat
      linked := hlinked.left_of_append }
  rw [← h.head]
  cases before with
  | nil => rfl
  | cons first rest => rfl

theorem SimplePath.concat {next : V} (h : SimplePath Link start stop path) (hlink : Link stop next)
    (hnew : next ∉ path) : SimplePath Link start next (path ++ [next]) where
  nodup := nodup_append.mpr ⟨h.nodup, nodup_singleton next, fun a ha b hb heq => by
    rw [mem_singleton.mp hb] at heq
    exact hnew (heq ▸ ha)⟩
  head := by rw [head?_append, h.head, Option.some_or]
  last := getLast?_concat
  linked := h.linked.append (isChain_singleton next) fun a ha b hb => by
    rw [h.last] at ha
    injection ha with ha
    injection hb with hb
    rw [← ha, ← hb]
    exact hlink

/-- The lists over the nodes without repetitions. -/
def nodupLists (nodes : List V) : List (List V) := nodes.sublists.flatMap permutations'

theorem mem_nodupLists [DecidableEq V] {nodes : List V} (hnodes : nodes.Nodup) :
    path ∈ nodupLists nodes <-> path.Nodup ∧ forall a, a ∈ path -> a ∈ nodes := by
  unfold nodupLists
  rw [mem_flatMap]
  constructor
  · rintro ⟨part, hpart, hpath⟩
    have hsublist := mem_sublists.mp hpart
    have hperm := mem_permutations'.mp hpath
    exact ⟨hperm.nodup_iff.mpr (hnodes.sublist hsublist), fun a ha =>
      hsublist.mem (hperm.mem_iff.mp ha)⟩
  · rintro ⟨hnodup, hmem⟩
    refine ⟨nodes.filter fun a => a ∈ path, mem_sublists.mpr filter_sublist,
      mem_permutations'.mpr ?_⟩
    apply (perm_ext_iff_of_nodup hnodup (hnodes.filter _)).mpr
    intro a
    rw [mem_filter, decide_eq_true_iff]
    exact ⟨fun ha => ⟨hmem a ha, ha⟩, fun ha => ha.right⟩

theorem SimplePath.exists_least [DecidableEq V] (h : SimplePath Link start stop path)
    {nodes : List V} (hnodes : nodes.Nodup)
    (hmem : forall other, SimplePath Link start stop other -> forall a, a ∈ other -> a ∈ nodes)
    (cost : List V -> Int) : exists least, LeastPath Link cost start stop least := by
  have hfinite : Set.Finite {other | SimplePath Link start stop other} :=
    (finite_toSet (nodupLists nodes)).subset fun other hother =>
      (mem_nodupLists hnodes).mpr ⟨hother.nodup, hmem other hother⟩
  rcases Set.exists_min_image _ cost hfinite ⟨path, h⟩ with ⟨least, hsimple, hleast⟩
  exact ⟨least, hsimple, hleast⟩

/-- Along each link the label grows by no more than the amount. -/
def Feasible (Link : V -> V -> Prop) (amount : V -> V -> Int) (label : V -> Int) : Prop :=
  forall a b, Link a b -> label b ≤ label a + amount a b

def Tight (amount : V -> V -> Int) (label : V -> Int) (path : List V) : Prop :=
  path.IsChain fun a b => label b = label a + amount a b

variable {label : V -> Int}

theorem along_of_chain {rel : Int -> Int -> Prop} (hrefl : forall n, rel n (n + 0))
    (hadd : forall {a b c n m}, rel b (a + n) -> rel c (b + m) -> rel c (a + (n + m)))
    (h : path.IsChain fun a b => rel (label b) (label a + amount a b))
    (hstart : path.head? = some start) (hstop : path.getLast? = some stop) :
    rel (label stop) (label start + alongLinks amount path) := by
  induction path generalizing start with
  | nil => cases hstart
  | cons first rest ih =>
    injection hstart with hstart
    subst hstart
    cases rest with
    | nil =>
      injection hstop with hstop
      subst hstop
      exact hrefl _
    | cons second rest =>
      rcases isChain_cons_cons.mp h with ⟨hstep, hrest⟩
      exact hadd hstep (ih hrest rfl (by rwa [getLast?_cons_cons] at hstop))

theorem Feasible.le_along (h : Feasible Link amount label) (hlinked : path.IsChain Link)
    (hstart : path.head? = some start) (hstop : path.getLast? = some stop) :
    label stop ≤ label start + alongLinks amount path :=
  along_of_chain (fun _ => by omega) (fun _ _ => by omega) (hlinked.imp h) hstart hstop

theorem Tight.eq_along (h : Tight amount label path) (hstart : path.head? = some start)
    (hstop : path.getLast? = some stop) : label stop = label start + alongLinks amount path :=
  along_of_chain (fun _ => by omega) (fun _ _ => by omega) h hstart hstop

theorem SimplePath.least_of_label (h : SimplePath Link start stop path)
    (hfeasible : Feasible Link amount label) (htight : Tight amount label path) :
    LeastPath Link (alongLinks amount) start stop path where
  simple := h
  least := fun other hother => by
    have hpath := htight.eq_along h.head h.last
    have hle := hfeasible.le_along hother.linked hother.head hother.last
    omega

theorem Feasible.tight (h : Feasible Link amount label) (hlinked : path.IsChain Link)
    (hstart : path.head? = some start) (hstop : path.getLast? = some stop)
    (heq : label stop = label start + alongLinks amount path) : Tight amount label path := by
  induction path generalizing start with
  | nil => cases hstart
  | cons first rest ih =>
    injection hstart with hstart
    subst hstart
    cases rest with
    | nil => exact isChain_singleton first
    | cons second rest =>
      rcases isChain_cons_cons.mp hlinked with ⟨hlink, hrest⟩
      have hlast : (second :: rest).getLast? = some stop := by
        rwa [getLast?_cons_cons] at hstop
      have hstep := h first second hlink
      have hlater := h.le_along hrest rfl hlast
      have hsum : label stop = label first + (amount first second +
        alongLinks amount (second :: rest)) := heq
      refine isChain_cons_cons.mpr ⟨by omega, ih hrest rfl hlast (by omega)⟩

theorem SimplePath.exists_next {next : V} (h : SimplePath Link start stop path)
    (hamount : forall a b, Link a b -> 0 ≤ amount a b) (hlink : Link stop next) :
    exists other, SimplePath Link start next other ∧
      alongLinks amount other ≤ alongLinks amount path + amount stop next := by
  have hstep := hamount stop next hlink
  by_cases hmem : next ∈ path
  · rcases append_of_mem hmem with ⟨before, after, rfl⟩
    have hrest := alongLinks_nonneg hamount h.linked.right_of_append
    have hsum := alongLinks_append amount before after next
    exact ⟨before ++ [next], h.before, by omega⟩
  · exact ⟨path ++ [next], h.concat hlink hmem, (alongLinks_concat amount h.last).le⟩

/-- The least sum from the start, and nothing where no path leads. -/
def IsSum (Link : V -> V -> Prop) (amount : V -> V -> Int) (start goal : V) (sum : Int) : Prop :=
  (exists other, LeastPath Link (alongLinks amount) start goal other ∧
    sum = alongLinks amount other) ∨
    (¬ exists other, SimplePath Link start goal other) ∧ sum = 0

theorem IsSum.le {goal : V} {sum : Int} (h : IsSum Link amount start goal sum)
    (hpath : SimplePath Link start goal path) : sum ≤ alongLinks amount path := by
  rcases h with ⟨least, hleast, hsum⟩ | ⟨hunreached, _⟩
  · rw [hsum]
    exact hleast.least path hpath
  · exact absurd ⟨path, hpath⟩ hunreached

theorem feasible_sums {sums : V -> Int} (hsums : forall goal, IsSum Link amount start goal (sums goal))
    (hamount : forall a b, Link a b -> 0 ≤ amount a b) (hsymm : forall a b, Link a b -> Link b a) :
    Feasible Link amount sums := by
  intro a b hlink
  rcases hsums a with ⟨least, hleast, hsum⟩ | ⟨hunreached, hzero⟩
  · rcases hleast.simple.exists_next hamount hlink with ⟨other, hother, hle⟩
    have hb := (hsums b).le hother
    omega
  · rcases hsums b with ⟨least, hleast, _⟩ | ⟨_, hzero'⟩
    · rcases hleast.simple.exists_next hamount (hsymm a b hlink) with ⟨other, hother, _⟩
      exact absurd ⟨other, hother⟩ hunreached
    · rw [hzero, hzero', Int.zero_add]
      exact hamount a b hlink

theorem LeastPath.exists_label [DecidableEq V] (h : LeastPath Link (alongLinks amount) start stop path)
    (hamount : forall a b, Link a b -> 0 ≤ amount a b) {nodes : List V} (hnodes : nodes.Nodup)
    (hmem : forall other goal, SimplePath Link start goal other -> forall a, a ∈ other -> a ∈ nodes)
    (hsymm : forall a b, Link a b -> Link b a) :
    exists label, Feasible Link amount label ∧ Tight amount label path := by
  have hexists : forall goal, exists sum : Int, IsSum Link amount start goal sum := by
    intro goal
    by_cases hreached : exists other, SimplePath Link start goal other
    · rcases hreached with ⟨other, hother⟩
      rcases hother.exists_least hnodes (fun third hthird => hmem third goal hthird)
        (alongLinks amount) with ⟨least, hleast⟩
      exact ⟨_, Or.inl ⟨least, hleast, rfl⟩⟩
    · exact ⟨0, Or.inr ⟨hreached, rfl⟩⟩
  choose sums hsums using hexists
  have hfeasible := feasible_sums hsums hamount hsymm
  have hstart : sums start = 0 := by
    rcases hsums start with ⟨least, hleast, hsum⟩ | ⟨hunreached, _⟩
    · have hle := hleast.least _ (SimplePath.singleton Link start)
      have hnonneg := alongLinks_nonneg hamount hleast.simple.linked
      rw [show alongLinks amount [start] = 0 from rfl] at hle
      omega
    · exact absurd ⟨_, SimplePath.singleton Link start⟩ hunreached
  have hstop : sums stop = alongLinks amount path := by
    rcases hsums stop with ⟨least, hleast, hsum⟩ | ⟨hunreached, _⟩
    · have hle := hleast.least path h.simple
      have hge := h.least least hleast.simple
      omega
    · exact absurd ⟨path, h.simple⟩ hunreached
  exact ⟨sums, hfeasible, hfeasible.tight h.simple.linked h.simple.head h.simple.last (by omega)⟩

/-- A walk of so many links. -/
def Steps (Link : V -> V -> Prop) (start : V) : Nat -> V -> Prop
  | 0, stop => stop = start
  | count + 1, stop => exists before, Steps Link start count before ∧ Link before stop

structure Distance (Link : V -> V -> Prop) (start : V) (count : Nat) (stop : V) : Prop where
  steps : Steps Link start count stop
  least : forall other, Steps Link start other stop -> count ≤ other

/-- The labels that a breadth-first search has after some rounds. -/
def Labelled (Link : V -> V -> Prop) (start : V) (rounds : Nat) (label : V -> Int) : Prop :=
  forall stop, (exists count, count ≤ rounds ∧ Distance Link start count stop ∧ label stop = count) ∨
    ((forall count, count ≤ rounds -> ¬ Steps Link start count stop) ∧ label stop = -1)

section Labelled

variable {rounds count : Nat} {before : V} (h : Labelled Link start rounds label)
include h

/-- A link to what has no label comes from the last round. -/
theorem Labelled.source (hbefore : 0 ≤ label before) (hstop : label stop < 0)
    (hlink : Link before stop) : label before = rounds ∧ label stop = -1 := by
  rcases h stop with ⟨count, _, _, hlabel⟩ | ⟨hnone, hlabel⟩
  · omega
  · rcases h before with ⟨count, hle, hdist, hcount⟩ | ⟨_, hnegative⟩
    · have hlast : ¬ count + 1 ≤ rounds := fun hmore =>
        hnone (count + 1) hmore ⟨before, hdist.steps, hlink⟩
      exact ⟨by omega, hlabel⟩
    · omega

theorem Labelled.next {next : V -> Int}
    (hreached : forall before stop, 0 ≤ label before -> label stop < 0 -> Link before stop ->
      next stop = rounds + 1)
    (hkept : forall stop, (forall before, 0 ≤ label before -> label stop < 0 ->
      ¬ Link before stop) -> next stop = label stop) :
    Labelled Link start (rounds + 1) next := by
  intro stop
  rcases h stop with ⟨count, hle, hdist, hlabel⟩ | ⟨hnone, hlabel⟩
  · left
    refine ⟨count, Nat.le_succ_of_le hle, hdist, (hkept stop fun _ _ hstop => ?_).trans hlabel⟩
    omega
  · have hstop : label stop < 0 := by omega
    by_cases hlinked : exists before, 0 ≤ label before ∧ Link before stop
    · rcases hlinked with ⟨before, hbefore, hlink⟩
      left
      refine ⟨rounds + 1, le_rfl, ⟨?_, fun other hother => ?_⟩, ?_⟩
      · rcases h before with ⟨count, _, hdist, hcount⟩ | ⟨_, hnegative⟩
        · have hlast : count = rounds := by
            have hsource := (h.source hbefore hstop hlink).left
            omega
          exact ⟨before, hlast ▸ hdist.steps, hlink⟩
        · omega
      · by_contra hless
        exact hnone other (by omega) hother
      · rw [hreached before stop hbefore hstop hlink]
        rfl
    · right
      have hnolink : forall before, 0 ≤ label before -> ¬ Link before stop :=
        fun before hbefore hlink => hlinked ⟨before, hbefore, hlink⟩
      refine ⟨fun count hle hsteps => ?_, (hkept stop fun before hbefore _ =>
        hnolink before hbefore).trans hlabel⟩
      rcases Nat.lt_or_eq_of_le hle with hless | rfl
      · exact hnone count (Nat.le_of_lt_succ hless) hsteps
      · rcases hsteps with ⟨before, hsteps, hlink⟩
        rcases h before with ⟨_, _, _, hcount⟩ | ⟨hunreached, _⟩
        · exact hnolink before (by omega) hlink
        · exact hunreached rounds le_rfl hsteps

theorem Labelled.label_eq (hdist : Distance Link start count stop) (hle : count ≤ rounds) :
    label stop = count := by
  rcases h stop with ⟨other, _, hother, hlabel⟩ | ⟨hnone, _⟩
  · rw [hlabel, Nat.le_antisymm (hother.least count hdist.steps) (hdist.least other hother.steps)]
  · exact absurd hdist.steps (hnone count hle)

theorem Labelled.unreached (hnone : forall count, ¬ Steps Link start count stop) :
    label stop = -1 := by
  rcases h stop with ⟨count, _, hdist, _⟩ | ⟨_, hlabel⟩
  · exact absurd hdist.steps (hnone count)
  · exact hlabel

end Labelled

end Icsw.Foundation
