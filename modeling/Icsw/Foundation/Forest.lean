import Mathlib.Data.List.Nodup
import Mathlib.Logic.Relation

/-!
# Forests given by parents

Each key has at most one parent.  A key is rooted when following parents from it
ends; what lies below a key is what reaches it by following parents.
-/

namespace Icsw.Foundation

open List

namespace Forest

variable {K : Type} {parent parent' : K -> Option K} {key top above moved : K} {count : Nat}

def ChildOf (parent : K -> Option K) (above key : K) : Prop := parent key = some above

abbrev Below (parent : K -> Option K) (top key : K) : Prop :=
  Relation.ReflTransGen (ChildOf parent) top key

abbrev StrictlyBelow (parent : K -> Option K) (top key : K) : Prop :=
  Relation.TransGen (ChildOf parent) top key

/-- Following parents from the key ends after the given number of steps. -/
inductive Rooted (parent : K -> Option K) : Nat -> K -> Prop where
  | root {key : K} (hroot : parent key = none) : Rooted parent 0 key
  | step {key above : K} {count : Nat} (habove : parent key = some above)
      (hrooted : Rooted parent count above) : Rooted parent (count + 1) key

theorem below_root (hroot : parent key = none) (h : Below parent top key) : key = top := by
  cases h with
  | refl => rfl
  | tail hbelow hchild =>
    rw [ChildOf, hroot] at hchild
    cases hchild

theorem below_cases (habove : parent key = some above) (h : Below parent top key) :
    key = top ∨ Below parent top above := by
  cases h with
  | refl => exact Or.inl rfl
  | tail hbelow hchild =>
    rw [ChildOf, habove] at hchild
    cases hchild
    exact Or.inr hbelow

theorem below_total {other : K} (h : Below parent top key) (hother : Below parent other key) :
    Below parent top other ∨ Below parent other top := by
  induction h with
  | refl => exact Or.inr hother
  | tail hbelow hchild ih =>
    rcases below_cases hchild hother with heq | hrest
    · exact Or.inl (heq ▸ hbelow.tail hchild)
    · exact ih hrest

theorem Rooted.unique {other : Nat} (h : Rooted parent count key)
    (hother : Rooted parent other key) : count = other := by
  induction h generalizing other with
  | root hroot =>
    cases hother with
    | root _ => rfl
    | step habove _ =>
      rw [hroot] at habove
      cases habove
  | step habove _ ih =>
    cases hother with
    | root hroot =>
      rw [hroot] at habove
      cases habove
    | step habove' hrooted =>
      rw [habove] at habove'
      cases habove'
      rw [ih hrooted]

theorem Rooted.le_of_below {lower : Nat} (hkey : Rooted parent count key)
    (h : Below parent top key) (htop : Rooted parent lower top) : lower ≤ count := by
  induction hkey generalizing lower with
  | root hroot =>
    rw [below_root hroot h] at hroot
    exact Nat.le_of_eq (htop.unique (Rooted.root hroot))
  | step habove hrooted ih =>
    rcases below_cases habove h with heq | hbelow
    · rw [heq] at habove
      exact Nat.le_of_eq (htop.unique (Rooted.step habove hrooted))
    · exact Nat.le_succ_of_le (ih hbelow htop)

theorem Rooted.not_below_parent (h : Rooted parent count key) (habove : parent key = some above) :
    ¬ Below parent key above := by
  intro hbelow
  cases h with
  | root hroot =>
    rw [hroot] at habove
    cases habove
  | step habove' hrooted =>
    rw [habove] at habove'
    cases habove'
    have hle := hrooted.le_of_below hbelow (Rooted.step habove hrooted)
    exact Nat.not_succ_le_self _ hle

theorem Rooted.not_strictly_below (h : Rooted parent count key) : ¬ StrictlyBelow parent key key := by
  intro hbelow
  rcases Relation.TransGen.tail'_iff.mp hbelow with ⟨above, hrest, hchild⟩
  exact h.not_below_parent hchild hrest

theorem Rooted.not_below_sibling {other : K} (h : Rooted parent count other)
    (habove : parent key = some above) (hother : parent other = some above)
    (hne : other ≠ key) : ¬ Below parent key other := by
  intro hbelow
  cases h with
  | root hroot =>
    rw [hroot] at hother
    cases hother
  | step hother' hrooted =>
    rw [hother] at hother'
    cases hother'
    rcases below_cases hother hbelow with heq | habove'
    · exact hne heq
    · exact Nat.not_succ_le_self _ (hrooted.le_of_below habove' (Rooted.step habove hrooted))

theorem Rooted.disjoint {first second : K} {count' : Nat} (hfirst : Rooted parent count first)
    (hsecond : Rooted parent count' second) (habove : parent first = some above)
    (habove' : parent second = some above) (hne : first ≠ second)
    (hkey : Below parent first key) : ¬ Below parent second key := by
  intro hkey'
  rcases below_total hkey hkey' with hbelow | hbelow
  · exact hsecond.not_below_sibling habove habove' (fun heq => hne heq.symm) hbelow
  · exact hfirst.not_below_sibling habove' habove hne hbelow

theorem Rooted.passed (h : Rooted parent count key) :
    exists keys : List K, keys.Nodup ∧ keys.length = count + 1 ∧
      forall passed, passed ∈ keys ->
        Below parent passed key ∧ exists lower, lower ≤ count ∧ Rooted parent lower passed := by
  induction h with
  | @root key hroot =>
    refine ⟨[key], nodup_singleton key, rfl, ?_⟩
    intro passed hmem
    rw [mem_singleton.mp hmem]
    exact ⟨Relation.ReflTransGen.refl, 0, Nat.le_refl 0, Rooted.root hroot⟩
  | @step key above count habove hrooted ih =>
    rcases ih with ⟨keys, hnodup, hlength, hkeys⟩
    have hkey := Rooted.step habove hrooted
    have hnew : key ∉ keys := by
      intro hmem
      rcases (hkeys key hmem).right with ⟨lower, hle, hlower⟩
      rw [hlower.unique hkey] at hle
      exact Nat.not_succ_le_self count hle
    refine ⟨key :: keys, nodup_cons.mpr ⟨hnew, hnodup⟩, by rw [length_cons, hlength], ?_⟩
    intro passed hmem
    rcases mem_cons.mp hmem with heq | htail
    · rw [heq]
      exact ⟨Relation.ReflTransGen.refl, count + 1, Nat.le_refl _, hkey⟩
    · rcases hkeys passed htail with ⟨hbelow, lower, hle, hlower⟩
      exact ⟨hbelow.tail habove, lower, Nat.le_succ_of_le hle, hlower⟩

theorem Rooted.congr (h : Rooted parent count key)
    (hsame : forall other, other ≠ moved -> parent' other = parent other)
    (hmoved : ¬ Below parent moved key) : Rooted parent' count key := by
  induction h with
  | @root key hroot =>
    have hne : key ≠ moved := fun heq => hmoved (heq ▸ Relation.ReflTransGen.refl)
    exact Rooted.root ((hsame key hne).trans hroot)
  | @step key above count habove hrooted ih =>
    have hne : key ≠ moved := fun heq => hmoved (heq ▸ Relation.ReflTransGen.refl)
    have hrest : ¬ Below parent moved above := fun hbelow => hmoved (hbelow.tail habove)
    exact Rooted.step ((hsame key hne).trans habove) (ih hrest)

theorem exists_rooted_moved (hsame : forall other, other ≠ moved -> parent' other = parent other)
    (hmoved : forall above, parent' moved = some above ->
      ¬ Below parent moved above ∧ exists count, Rooted parent count above)
    (h : Rooted parent count key) : exists count', Rooted parent' count' key := by
  have hat : exists count', Rooted parent' count' moved := by
    cases hnew : parent' moved with
    | none => exact ⟨0, Rooted.root hnew⟩
    | some above =>
      rcases hmoved above hnew with ⟨hbelow, above_count, habove⟩
      exact ⟨above_count + 1, Rooted.step hnew (habove.congr hsame hbelow)⟩
  induction h with
  | @root key hroot =>
    by_cases hkey : key = moved
    · exact hkey ▸ hat
    · exact ⟨0, Rooted.root ((hsame key hkey).trans hroot)⟩
  | @step key above count habove hrooted ih =>
    by_cases hkey : key = moved
    · exact hkey ▸ hat
    · rcases ih with ⟨count', hcount'⟩
      exact ⟨count' + 1, Rooted.step ((hsame key hkey).trans habove) hcount'⟩

/--
Where a path determines the last name on it and the path before, and siblings have
different names, no two keys of a forest with one root have the same path.
-/
theorem path_injective {P L : Type} (path : K -> P) (label : K -> L) (join : L -> P -> P)
    (inForest : K -> Prop) (root : K)
    (hclosed : forall key above, inForest key -> parent key = some above -> inForest above)
    (hroot : forall key, inForest key -> parent key = none -> key = root)
    (hjoin : forall key above, inForest key -> parent key = some above ->
      path key = join (label key) (path above))
    (hinj : forall first second, inForest first -> inForest second ->
      forall above above', parent first = some above -> parent second = some above' ->
      join (label first) (path above) = join (label second) (path above') ->
        label first = label second ∧ path above = path above')
    (hbase : forall key above, inForest key -> parent key = some above -> path key ≠ path root)
    (hsiblings : forall first second above, inForest first -> inForest second ->
      parent first = some above -> parent second = some above -> label first = label second ->
        first = second)
    {first second : K} (hrooted : Rooted parent count first) (hfirst : inForest first)
    (hsecond : inForest second) (hpath : path first = path second) : first = second := by
  induction hrooted generalizing second with
  | @root first hnone =>
    have heq := hroot first hfirst hnone
    cases hparent : parent second with
    | none => rw [heq, hroot second hsecond hparent]
    | some above =>
      rw [heq] at hpath
      exact absurd hpath.symm (hbase second above hsecond hparent)
  | @step first above count habove hrooted ih =>
    cases hparent : parent second with
    | none =>
      rw [hroot second hsecond hparent] at hpath
      exact absurd hpath (hbase first above hfirst habove)
    | some above' =>
      rw [hjoin first above hfirst habove, hjoin second above' hsecond hparent] at hpath
      rcases hinj first second hfirst hsecond above above' habove hparent hpath with
        ⟨hlabel, hpaths⟩
      have hsame := ih (hclosed first above hfirst habove)
        (hclosed second above' hsecond hparent) hpaths
      rw [← hsame] at hparent
      exact hsiblings first second above hfirst hsecond habove hparent hlabel

end Forest

/-!
## Pruning a forest

Keys that are free to go are taken away in rounds, each time those below which nothing is left.
What is taken away has nothing below it that has to stay, and when no key is ready any more, all
of these are gone.
-/

namespace Forest

variable {K : Type} {inForest free gone gone' : K -> Prop} {parent : K -> Option K}
  {key above : K}

def Prunable (inForest free : K -> Prop) (parent : K -> Option K) (key : K) : Prop :=
  inForest key ∧ forall other, inForest other -> Below parent key other -> free other

/-- The key is free to go, and nothing is left below it. -/
structure Ready (inForest free : K -> Prop) (parent : K -> Option K) (gone : K -> Prop) (key : K) :
    Prop where
  stored : inForest key
  left : ¬ gone key
  free : free key
  children : forall child, inForest child -> parent child = some key -> gone child

theorem Ready.mono (h : Ready inForest free parent gone key) (hgone : forall other, gone other -> gone' other)
    (hleft : ¬ gone' key) : Ready inForest free parent gone' key where
  stored := h.stored
  left := hleft
  free := h.free
  children child hchild hparent := hgone child (h.children child hchild hparent)

theorem inForest_of_below
    (hclosed : forall child above, inForest child -> parent child = some above -> inForest above)
    (hkey : inForest key) (h : Below parent above key) : inForest above := by
  induction h using Relation.ReflTransGen.head_induction_on with
  | refl => exact hkey
  | head hchild _ ih => exact hclosed _ _ ih hchild

theorem Prunable.below (h : Prunable inForest free parent above) (hkey : inForest key)
    (hbelow : Below parent above key) : Prunable inForest free parent key :=
  ⟨hkey, fun other hother hdeeper => h.right other hother (hbelow.trans hdeeper)⟩

theorem Ready.prunable
    (hclosed : forall child above, inForest child -> parent child = some above -> inForest above)
    (hsound : forall other, gone other -> Prunable inForest free parent other)
    (h : Ready inForest free parent gone key) : Prunable inForest free parent key := by
  refine ⟨h.stored, ?_⟩
  intro other hother hbelow
  rcases Relation.ReflTransGen.cases_head hbelow with heq | ⟨child, hchild, hdeeper⟩
  · exact heq ▸ h.free
  · have hstored := inForest_of_below hclosed hother hdeeper
    exact (hsound child (h.children child hstored hchild)).right other hother hdeeper

/--
When no key is ready, everything prunable is gone: otherwise below a key that is left there is
another one, without end.
-/
theorem gone_of_prunable {bound : Nat}
    (hbound : forall key, inForest key -> exists count, Rooted parent count key ∧ count ≤ bound)
    (hstop : forall key, ¬ Ready inForest free parent gone key)
    (h : Prunable inForest free parent key) : gone key := by
  rcases hbound key h.left with ⟨count, hcount, hle⟩
  obtain ⟨height, hheight⟩ := Nat.exists_eq_add_of_le hle
  induction height generalizing key count with
  | zero =>
    by_contra hleft
    apply hstop key
    refine ⟨h.left, hleft, h.right key h.left Relation.ReflTransGen.refl, ?_⟩
    intro child hchild hparent
    rcases hbound child hchild with ⟨deeper, hdeeper, hle'⟩
    rw [hdeeper.unique (Rooted.step hparent hcount), hheight] at hle'
    exact absurd hle' (Nat.not_succ_le_self count)
  | succ height ih =>
    by_contra hleft
    apply hstop key
    refine ⟨h.left, hleft, h.right key h.left Relation.ReflTransGen.refl, ?_⟩
    intro child hchild hparent
    have hdeeper := Rooted.step hparent hcount
    have hheight' : bound = count + 1 + height := by
      rw [hheight, Nat.add_assoc, Nat.add_comm 1 height]
    exact ih (h.below hchild (Relation.ReflTransGen.single hparent)) (count + 1) hdeeper
      (hheight' ▸ Nat.le_add_right _ _) hheight'

end Forest

end Icsw.Foundation
