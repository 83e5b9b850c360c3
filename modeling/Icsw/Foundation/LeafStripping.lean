import Mathlib.Data.List.Chain
import Mathlib.Data.List.Nodup
import Mathlib.Data.Nat.Find

/-!
# Stripping leaves

A graph is given by its darts: each link twice, once from each of its ends..  In each round all
vertices go that have one dart only..  What is left is told by how far one gets from a vertex without
turning back.
-/

namespace Icsw.Foundation
namespace LeafStripping

open List

variable {D V : Type} [DecidableEq V] (source : D -> V) (rev : D -> D)

def IsLeaf (darts : List D) (v : V) : Prop := (darts.map source).count v = 1

instance (darts : List D) (v : V) : Decidable (IsLeaf source darts v) :=
  inferInstanceAs (Decidable (_ = _))

/-- One round: both ends of what stays are no leaves. -/
def strip (darts : List D) : List D :=
  darts.filter fun e => ¬ IsLeaf source darts (source e) ∧ ¬ IsLeaf source darts (source (rev e))

def stripped (darts : List D) : Nat -> List D
  | 0 => darts
  | rounds + 1 => strip source rev (stripped darts rounds)

/-- The vertex goes in some round. -/
def Goes (darts : List D) (v : V) : Prop :=
  exists rounds, IsLeaf source (stripped source rev darts rounds) v

/-- The second dart goes on where the first one ends, and not back. -/
def Next (e f : D) : Prop := source f = source (rev e) ∧ f ≠ rev e

/-- After the dart, one can go on by that many darts. -/
def Leads (darts : List D) : Nat -> D -> Prop
  | 0, e => e ∈ darts
  | more + 1, e => e ∈ darts ∧ exists f, Next source rev e f ∧ Leads darts more f

structure Graph (darts : List D) : Prop where
  nodup : darts.Nodup
  rev_mem : forall e, e ∈ darts -> rev e ∈ darts
  rev_rev : forall e, rev (rev e) = e
  rev_ne : forall e, e ∈ darts -> rev e ≠ e

theorem isLeaf_iff {darts : List D} (hnodup : darts.Nodup) (v : V) :
    IsLeaf source darts v <->
      exists e, e ∈ darts ∧ source e = v ∧ forall f, f ∈ darts -> source f = v -> f = e := by
  have hcount : (darts.map source).count v = (darts.filter fun e => source e = v).length := by
    rw [count, countP_map, countP_eq_length_filter]
    rfl
  have hmem : forall e, e ∈ (darts.filter fun e => source e = v) <-> e ∈ darts ∧ source e = v := by
    intro e
    rw [mem_filter, decide_eq_true_iff]
  have hfilter := hnodup.filter fun e => decide (source e = v)
  unfold IsLeaf
  rw [hcount, length_eq_one_iff]
  constructor
  · rintro ⟨e, he⟩
    have hin := (hmem e).mp (by rw [he]; exact mem_singleton_self e)
    refine ⟨e, hin.left, hin.right, fun f hf hsource => ?_⟩
    have hsame := (hmem f).mpr ⟨hf, hsource⟩
    rw [he] at hsame
    exact mem_singleton.mp hsame
  · rintro ⟨e, he, hsource, honly⟩
    refine ⟨e, ?_⟩
    have hperm : (darts.filter fun e => source e = v).Perm [e] := by
      rw [perm_ext_iff_of_nodup hfilter (nodup_singleton e)]
      intro f
      rw [hmem, mem_singleton]
      constructor
      · exact fun hf => honly f hf.left hf.right
      · rintro rfl
        exact ⟨he, hsource⟩
    exact perm_singleton.mp hperm

section Stripping

variable {source rev} {darts : List D} (graph : Graph rev darts)

omit [DecidableEq V] in
theorem leads_mem {more : Nat} {e : D} (h : Leads source rev darts more e) : e ∈ darts := by
  cases more with
  | zero => exact h
  | succ more => exact h.left

omit [DecidableEq V] in
theorem leads_le {more least : Nat} {e : D} (h : Leads source rev darts more e)
    (hle : least ≤ more) : Leads source rev darts least e := by
  induction least generalizing more e with
  | zero => exact leads_mem h
  | succ least ih =>
    cases more with
    | zero => omega
    | succ more =>
      rcases h with ⟨he, f, hnext, hf⟩
      exact ⟨he, f, hnext, ih hf (by omega)⟩

theorem mem_strip {e : D} : e ∈ strip source rev darts <->
    e ∈ darts ∧ ¬ IsLeaf source darts (source e) ∧ ¬ IsLeaf source darts (source (rev e)) := by
  unfold strip
  rw [mem_filter, decide_eq_true_iff]

include graph

omit [DecidableEq V] in
theorem next_rev {e f : D} (hsource : source f = source e) (hne : f ≠ e) :
    Next source rev (rev e) f := by
  unfold Next
  rw [graph.rev_rev]
  exact ⟨hsource, hne⟩

omit [DecidableEq V] in
theorem leads_rev {e f : D} {more : Nat} (he : Leads source rev darts more e) (hf : f ∈ darts)
    (hsource : source f = source e) (hne : f ≠ e) : Leads source rev darts more (rev f) := by
  cases more with
  | zero => exact graph.rev_mem f hf
  | succ more =>
    exact ⟨graph.rev_mem f hf, e, next_rev graph hsource.symm hne.symm,
      leads_le he (Nat.le_succ more)⟩

theorem graph_strip : Graph rev (strip source rev darts) where
  nodup := graph.nodup.filter _
  rev_mem := by
    intro e he
    rcases mem_strip.mp he with ⟨hmem, hsource, htarget⟩
    apply mem_strip.mpr
    rw [graph.rev_rev]
    exact ⟨graph.rev_mem e hmem, htarget, hsource⟩
  rev_rev := graph.rev_rev
  rev_ne := fun e he => graph.rev_ne e (mem_strip.mp he).left

theorem graph_stripped (rounds : Nat) : Graph rev (stripped source rev darts rounds) := by
  induction rounds with
  | zero => exact graph
  | succ rounds ih => exact graph_strip ih

theorem not_isLeaf_iff {e : D} (he : e ∈ darts) : ¬ IsLeaf source darts (source e) <->
    exists f, f ∈ darts ∧ source f = source e ∧ f ≠ e := by
  rw [isLeaf_iff source graph.nodup]
  constructor
  · intro h
    by_contra hnone
    apply h
    refine ⟨e, he, rfl, fun f hf hsource => ?_⟩
    by_contra hne
    exact hnone ⟨f, hf, hsource, hne⟩
  · rintro ⟨f, hf, hsource, hne⟩ ⟨only, _, _, honly⟩
    exact hne ((honly f hf hsource).trans (honly e he rfl).symm)

theorem mem_stripped_iff (rounds : Nat) (e : D) : e ∈ stripped source rev darts rounds <->
    Leads source rev darts rounds e ∧ Leads source rev darts rounds (rev e) := by
  induction rounds generalizing e with
  | zero => exact ⟨fun h => ⟨h, graph.rev_mem e h⟩, And.left⟩
  | succ rounds ih =>
    -- at an end of a dart that is left another dart is left exactly if one can go on to it
    have hend : forall e, e ∈ stripped source rev darts rounds ->
        (¬ IsLeaf source (stripped source rev darts rounds) (source e) <->
          Leads source rev darts (rounds + 1) (rev e)) := by
      intro e he
      have hleads := (ih e).mp he
      rw [not_isLeaf_iff (graph_stripped graph rounds) he]
      constructor
      · rintro ⟨f, hf, hsource, hne⟩
        exact ⟨leads_mem hleads.right, f, next_rev graph hsource hne, ((ih f).mp hf).left⟩
      · rintro ⟨_, f, hnext, hf⟩
        rw [Next, graph.rev_rev] at hnext
        refine ⟨f, (ih f).mpr ⟨hf, ?_⟩, hnext.left, hnext.right⟩
        exact leads_rev graph hleads.left (leads_mem hf) hnext.left hnext.right
    show e ∈ strip source rev (stripped source rev darts rounds) <-> _
    rw [mem_strip]
    constructor
    · rintro ⟨he, hsource, htarget⟩
      have hrev := (graph_stripped graph rounds).rev_mem e he
      have hon := (hend (rev e) hrev).mp htarget
      rw [graph.rev_rev] at hon
      exact ⟨hon, (hend e he).mp hsource⟩
    · rintro ⟨hon, hback⟩
      have he := (ih e).mpr ⟨leads_le hon (Nat.le_succ rounds), leads_le hback (Nat.le_succ rounds)⟩
      have hrev := (graph_stripped graph rounds).rev_mem e he
      refine ⟨he, (hend e he).mpr hback, (hend (rev e) hrev).mpr ?_⟩
      rw [graph.rev_rev]
      exact hon

theorem goes_iff (v : V) : Goes source rev darts v <->
    exists more e, Leads source rev darts more e ∧ source e = v ∧
      forall f, Leads source rev darts more f -> source f = v -> f = e := by
  constructor
  · rintro ⟨rounds, hleaf⟩
    rcases (isLeaf_iff source (graph_stripped graph rounds).nodup v).mp hleaf with
      ⟨e, he, hsource, honly⟩
    refine ⟨rounds, e, ((mem_stripped_iff graph rounds e).mp he).left, hsource, ?_⟩
    intro f hf hfsource
    by_contra hne
    have hback := leads_rev graph ((mem_stripped_iff graph rounds e).mp he).left (leads_mem hf)
      (hfsource.trans hsource.symm) hne
    exact hne (honly f ((mem_stripped_iff graph rounds f).mpr ⟨hf, hback⟩) hfsource)
  · intro h
    classical
    have hleast := Nat.find_spec h
    have hmin := fun least => Nat.find_min (m := least) h
    generalize Nat.find h = more at hleast hmin
    rcases hleast with ⟨e, he, hsource, honly⟩
    refine ⟨more, (isLeaf_iff source (graph_stripped graph more).nodup v).mpr
      ⟨e, (mem_stripped_iff graph more e).mpr ⟨he, ?_⟩, hsource, fun f hf hfsource =>
        honly f ((mem_stripped_iff graph more f).mp hf).left hfsource⟩⟩
    cases more with
    | zero => exact graph.rev_mem e he
    | succ more =>
      -- a step nearer another dart led as far
      have hother : exists f, Leads source rev darts more f ∧ source f = v ∧ f ≠ e := by
        by_contra hnone
        apply hmin more (Nat.lt_succ_self more)
        refine ⟨e, leads_le he (Nat.le_succ more), hsource, fun f hf hfsource => ?_⟩
        by_contra hne
        exact hnone ⟨f, hf, hfsource, hne⟩
      rcases hother with ⟨f, hf, hfsource, hne⟩
      exact ⟨graph.rev_mem e (leads_mem he), f,
        next_rev graph (hfsource.trans hsource.symm) hne, hf⟩

theorem leads_rev_of_stays {e : D} (hstays : ¬ Goes source rev darts (source e))
    (he : forall more, Leads source rev darts more e) (more : Nat) :
    Leads source rev darts more (rev e) := by
  cases more with
  | zero => exact graph.rev_mem e (he 0)
  | succ more =>
    have hother : exists f, Leads source rev darts more f ∧ source f = source e ∧ f ≠ e := by
      by_contra hnone
      apply hstays
      apply (goes_iff graph (source e)).mpr
      refine ⟨more, e, he more, rfl, fun f hf hfsource => ?_⟩
      by_contra hne
      exact hnone ⟨f, hf, hfsource, hne⟩
    rcases hother with ⟨f, hf, hfsource, hne⟩
    exact ⟨graph.rev_mem e (he 0), f, next_rev graph hfsource hne, hf⟩

/-- The other end of a dart goes unless the dart leads any distance. -/
theorem target_stays_iff {e : D} (hmem : e ∈ darts) (hstays : ¬ Goes source rev darts (source e)) :
    ¬ Goes source rev darts (source (rev e)) <-> forall more, Leads source rev darts more e := by
  constructor
  · intro htarget more
    have hleft : forall rounds, e ∈ stripped source rev darts rounds := by
      intro rounds
      induction rounds with
      | zero => exact hmem
      | succ rounds ih =>
        exact mem_strip.mpr ⟨ih, fun hleaf => hstays ⟨rounds, hleaf⟩,
          fun hleaf => htarget ⟨rounds, hleaf⟩⟩
    exact ((mem_stripped_iff graph more e).mp (hleft more)).left
  · rintro he ⟨rounds, hleaf⟩
    have hleft : e ∈ stripped source rev darts (rounds + 1) :=
      (mem_stripped_iff graph (rounds + 1) e).mpr
        ⟨he (rounds + 1), leads_rev_of_stays graph hstays he (rounds + 1)⟩
    exact (mem_strip.mp hleft).right.right hleaf

theorem length_strip_lt {v : V} (h : IsLeaf source darts v) :
    (strip source rev darts).length < darts.length := by
  rcases (isLeaf_iff source graph.nodup v).mp h with ⟨e, he, hsource, _⟩
  apply length_filter_lt_length_iff_exists.mpr
  refine ⟨e, he, ?_⟩
  rw [decide_eq_true_iff, hsource]
  exact fun hstays => hstays.left h

theorem exists_last_round : exists rounds,
    (forall v, ¬ IsLeaf source (stripped source rev darts rounds) v) ∧
      forall round, round < rounds ->
        exists v, IsLeaf source (stripped source rev darts round) v := by
  classical
  have hexists : exists rounds, forall v,
      ¬ IsLeaf source (stripped source rev darts rounds) v := by
    by_contra hnone
    have hshrinks : forall rounds,
        (stripped source rev darts rounds).length + rounds ≤ darts.length := by
      intro rounds
      induction rounds with
      | zero => exact Nat.le_refl _
      | succ rounds ih =>
        have hleaf : exists v, IsLeaf source (stripped source rev darts rounds) v := by
          by_contra hno
          exact hnone ⟨rounds, fun v hv => hno ⟨v, hv⟩⟩
        rcases hleaf with ⟨v, hv⟩
        have hgraph : Graph rev (stripped source rev darts rounds) := graph_stripped graph rounds
        have hless : (stripped source rev darts (rounds + 1)).length <
          (stripped source rev darts rounds).length := length_strip_lt hgraph hv
        omega
    have hlast := hshrinks (darts.length + 1)
    omega
  refine ⟨Nat.find hexists, Nat.find_spec hexists, fun round hround => ?_⟩
  by_contra hnone
  exact Nat.find_min hexists hround fun v hv => hnone ⟨v, hv⟩

omit graph in
theorem goes_iff_before {rounds : Nat}
    (hlast : forall v, ¬ IsLeaf source (stripped source rev darts rounds) v) (v : V) :
    Goes source rev darts v <->
      exists round, round < rounds ∧ IsLeaf source (stripped source rev darts round) v := by
  have hsame : forall later, stripped source rev darts (rounds + later) =
      stripped source rev darts rounds := by
    intro later
    induction later with
    | zero => rfl
    | succ later ih =>
      show strip source rev (stripped source rev darts (rounds + later)) = _
      rw [ih]
      apply filter_eq_self.mpr
      intro e _
      rw [decide_eq_true_iff]
      exact ⟨hlast _, hlast _⟩
  constructor
  · rintro ⟨round, hleaf⟩
    refine ⟨round, ?_, hleaf⟩
    by_contra hge
    have hround : rounds + (round - rounds) = round := by omega
    rw [← hround, hsame] at hleaf
    exact hlast v hleaf
  · rintro ⟨round, _, hleaf⟩
    exact ⟨round, hleaf⟩

def Circle (source : D -> V) (rev : D -> D) (darts : List D) (first : D) (rest : List D) : Prop :=
  (forall e, e ∈ first :: rest -> e ∈ darts) ∧
    (first :: rest ++ [first]).IsChain (Next source rev)

omit [DecidableEq V] graph in
theorem leads_of_successors (inside : D -> Prop) (hmem : forall e, inside e -> e ∈ darts)
    (hnext : forall e, inside e -> exists f, inside f ∧ Next source rev e f) (more : Nat) {e : D}
    (he : inside e) : Leads source rev darts more e := by
  induction more generalizing e with
  | zero => exact hmem e he
  | succ more ih =>
    rcases hnext e he with ⟨f, hf, hef⟩
    exact ⟨hmem e he, f, hef, ih hf⟩

omit [DecidableEq V] graph in
theorem exists_successor {R : D -> D -> Prop} {items : List D} {last : D}
    (h : (items ++ [last]).IsChain R) {item : D} (hitem : item ∈ items) :
    exists next, next ∈ items ++ [last] ∧ R item next := by
  rcases append_of_mem hitem with ⟨before, after, rfl⟩
  rw [append_assoc, cons_append] at h ⊢
  have hafter := (isChain_append.mp h).right.left
  cases hrest : after ++ [last] with
  | nil => exact absurd hrest (by simp)
  | cons next later =>
    rw [hrest] at hafter
    exact ⟨next, by simp, (isChain_cons_cons.mp hafter).left⟩

omit [DecidableEq V] graph in
theorem exists_predecessor {R : D -> D -> Prop} {first : D} {items : List D}
    (h : (first :: items).IsChain R) {item : D} (hitem : item ∈ items) :
    exists before, before ∈ first :: items ∧ R before item := by
  rcases append_of_mem hitem with ⟨earlier, after, rfl⟩
  rw [← cons_append] at h ⊢
  have hlast := getLast_mem (cons_ne_nil first earlier)
  exact ⟨_, mem_append_left _ hlast, (isChain_append.mp h).right.right _
    (getLast_mem_getLast? _) item rfl⟩

theorem Circle.stays {first : D} {rest : List D} (circle : Circle source rev darts first rest) :
    ¬ Goes source rev darts (source first) := by
  rcases circle with ⟨hmem, hchain⟩
  have hin : forall e, e ∈ first :: rest ++ [first] -> e ∈ first :: rest := by
    intro e he
    rcases mem_append.mp he with hitem | hlast
    · exact hitem
    · rw [mem_singleton.mp hlast]
      exact mem_cons_self
  have hbefore : forall e, e ∈ first :: rest ->
      exists before, before ∈ first :: rest ∧ Next source rev before e := by
    intro e he
    have hitem : e ∈ rest ++ [first] := by
      rcases mem_cons.mp he with heq | hrest
      · rw [heq]
        exact mem_append_right _ (mem_singleton_self first)
      · exact mem_append_left _ hrest
    rcases exists_predecessor hchain hitem with ⟨before, hold, hnext⟩
    exact ⟨before, hin before hold, hnext⟩
  have hforward : forall more e, e ∈ first :: rest -> Leads source rev darts more e := by
    intro more e he
    apply leads_of_successors (fun e => e ∈ first :: rest) hmem _ more he
    intro e he
    rcases exists_successor hchain he with ⟨f, hf, hnext⟩
    exact ⟨f, hin f hf, hnext⟩
  have hbackward : forall more e, e ∈ first :: rest -> Leads source rev darts more (rev e) := by
    intro more e he
    apply leads_of_successors (fun f => exists e, e ∈ first :: rest ∧ rev e = f) _ _ more
      ⟨e, he, rfl⟩
    · rintro f ⟨e, he, rfl⟩
      exact graph.rev_mem e (hmem e he)
    · rintro f ⟨e, he, rfl⟩
      rcases hbefore e he with ⟨before, hold, hsource, hne⟩
      refine ⟨rev before, ⟨before, hold, rfl⟩, ?_⟩
      apply next_rev graph hsource.symm
      exact hne.symm
  rcases hbefore first mem_cons_self with ⟨last, hlast, hsource, hne⟩
  rw [goes_iff graph]
  rintro ⟨more, e, _, _, honly⟩
  have hfirst := honly first (hforward more first mem_cons_self) rfl
  exact hne (hfirst.trans (honly (rev last) (hbackward more last hlast) hsource.symm).symm)

end Stripping

end LeafStripping
end Icsw.Foundation
