import Mathlib.Algebra.Order.Group.Unbundled.Int
import Mathlib.Algebra.Order.Group.Abs
import Mathlib.Data.List.Nodup

/-!
# Queues with a pause

A worker goes through its queue in passes..  One item opens a pause, and until that is over items are
kept for a later pass..  A pause may be over in the middle of a pass, and then the items behind are
served before those that have been kept.
-/

namespace Icsw.Foundation
namespace PausedQueue

open List

structure Queue (α : Type) where
  /-- When the pause was opened that has not been found to be over. -/
  since : Option Int
  kept : List α
  served : List α

variable {α : Type} [DecidableEq α] (opener : α) (limit : Int)

def PauseOver (since time : Int) : Prop := ¬ |time - since| < limit

instance decidablePauseOver (since time : Int) : Decidable (PauseOver limit since time) :=
  inferInstanceAs (Decidable (¬ |time - since| < limit))

variable (queue : Queue α)

def serveNow (item : α × Int) : Queue α :=
  { queue with
    since := if item.1 = opener then some item.2 else none
    served := queue.served ++ [item.1] }

def serve (item : α × Int) : Queue α :=
  match queue.since with
  | some since =>
    if PauseOver limit since item.2 then serveNow opener queue item
    else { queue with kept := queue.kept ++ [item.1] }
  | none => serveNow opener queue item

def pass (items : List (α × Int)) : Queue α :=
  items.foldl (serve opener limit) queue

/-- The items that meet the pause, and its begin: all of them in a pause, else those behind the
item that opens it. -/
def Meets (since : Option Int) (items : List (α × Int)) (start : Int)
    (behind : List (α × Int)) : Prop :=
  (since = some start ∧ behind = items) ∨
    (since = none ∧ exists before, items = before ++ (opener, start) :: behind)

def Cut (since : Option Int) (items : List (α × Int)) : Prop :=
  exists start behind, Meets opener since items start behind ∧
    (exists item, item ∈ behind ∧ ¬ PauseOver limit start item.2) ∧
      exists item, item ∈ behind ∧ PauseOver limit start item.2

variable {opener limit}

theorem not_pauseOver {since time : Int} :
    ¬ PauseOver limit since time <-> |time - since| < limit := by
  unfold PauseOver
  exact not_not

theorem pauseOver_iff {since time : Int} (h : since ≤ time) :
    PauseOver limit since time <-> since + limit ≤ time := by
  unfold PauseOver
  rw [abs_of_nonneg (Int.sub_nonneg_of_le h)]
  omega

theorem serve_free {queue : Queue α} (h : queue.since = none) (item : α × Int) :
    serve opener limit queue item = serveNow opener queue item := by
  unfold serve
  rw [h]

theorem serve_over {queue : Queue α} {since : Int} (h : queue.since = some since)
    (item : α × Int) (hover : PauseOver limit since item.2) :
    serve opener limit queue item = serveNow opener queue item := by
  unfold serve
  rw [h]
  exact if_pos hover

theorem serve_paused {queue : Queue α} {since : Int} (h : queue.since = some since)
    (item : α × Int) (hover : ¬ PauseOver limit since item.2) :
    serve opener limit queue item = { queue with kept := queue.kept ++ [item.1] } := by
  unfold serve
  rw [h]
  exact if_neg hover

theorem pass_cons (item : α × Int) (rest : List (α × Int)) :
    pass opener limit queue (item :: rest) =
      pass opener limit (serve opener limit queue item) rest := rfl

theorem pass_append (first second : List (α × Int)) :
    pass opener limit queue (first ++ second) =
      pass opener limit (pass opener limit queue first) second :=
  foldl_append

theorem pass_free {items : List (α × Int)} (hopener : opener ∉ items.map Prod.fst)
    (kept served : List α) :
    pass opener limit ⟨none, kept, served⟩ items =
      ⟨none, kept, served ++ items.map Prod.fst⟩ := by
  induction items generalizing served with
  | nil => rw [map_nil, append_nil]; rfl
  | cons item rest ih =>
    rw [map_cons, mem_cons, not_or] at hopener
    rw [pass_cons, serve_free rfl, serveNow, if_neg (Ne.symm hopener.left), ih hopener.right,
      map_cons, append_assoc, singleton_append]

theorem pass_kept {items : List (α × Int)} {start : Int}
    (hpaused : forall item, item ∈ items -> ¬ PauseOver limit start item.2) (kept served : List α) :
    pass opener limit ⟨some start, kept, served⟩ items =
      ⟨some start, kept ++ items.map Prod.fst, served⟩ := by
  induction items generalizing kept with
  | nil => rw [map_nil, append_nil]; rfl
  | cons item rest ih =>
    rw [pass_cons, serve_paused rfl item (hpaused item mem_cons_self),
      ih fun later hmem => hpaused later (mem_cons_of_mem _ hmem),
      map_cons, append_assoc, singleton_append]

theorem pass_over {item : α × Int} {rest : List (α × Int)} {start : Int}
    (hopener : opener ∉ (item :: rest).map Prod.fst) (hover : PauseOver limit start item.2)
    (kept served : List α) :
    pass opener limit ⟨some start, kept, served⟩ (item :: rest) =
      ⟨none, kept, served ++ (item :: rest).map Prod.fst⟩ := by
  rw [pass_cons, serve_over rfl item hover, ← pass_free hopener kept served, pass_cons, serve_free rfl]
  rfl

theorem all_or_first {β : Type} (p : β -> Prop) (items : List β) :
    (forall item, item ∈ items -> ¬ p item) ∨
      exists before item after, items = before ++ item :: after ∧
        (forall earlier, earlier ∈ before -> ¬ p earlier) ∧ p item := by
  classical
  cases hfind : items.find? p with
  | none => exact Or.inl (by simpa using hfind)
  | some item =>
    rcases find?_eq_some_iff_append.mp hfind with ⟨hitem, before, after, hsplit, hbefore⟩
    exact Or.inr ⟨before, item, after, hsplit, by simpa using hbefore, of_decide_eq_true hitem⟩

theorem pass_paused (limit : Int) {behind : List (α × Int)} {start : Int}
    (hopener : opener ∉ behind.map Prod.fst)
    (htimes : behind.Pairwise fun item later => item.2 ≤ later.2)
    (hstart : forall item, item ∈ behind -> start ≤ item.2) (served : List α) :
    exists early late since, behind.map Prod.fst = early ++ late ∧
      pass opener limit ⟨some start, [], served⟩ behind = ⟨since, early, served ++ late⟩ ∧
      (((exists item, item ∈ behind ∧ ¬ PauseOver limit start item.2) ∧
          exists item, item ∈ behind ∧ PauseOver limit start item.2) <->
        early ≠ [] ∧ late ≠ []) := by
  rcases all_or_first (fun item => PauseOver limit start item.2) behind with
    hall | ⟨before, first, after, hsplit, hbefore, hfirst⟩
  · refine ⟨behind.map Prod.fst, [], some start, (append_nil _).symm, ?_, ?_⟩
    · rw [pass_kept hall, append_nil, nil_append]
    · constructor
      · rintro ⟨_, item, hmem, hover⟩
        exact absurd hover (hall item hmem)
      · rintro ⟨_, hlate⟩
        exact absurd rfl hlate
  · subst hsplit
    rw [map_append, mem_append, not_or] at hopener
    refine ⟨before.map Prod.fst, (first :: after).map Prod.fst, none, map_append, ?_, ?_⟩
    · rw [pass_append, pass_kept hbefore, pass_over hopener.right hfirst, nil_append]
    · constructor
      · rintro ⟨⟨item, hmem, hpaused⟩, _⟩
        refine ⟨?_, cons_ne_nil _ _⟩
        -- were nothing kept, the pause would be over for all
        intro hnil
        rw [map_eq_nil_iff] at hnil
        subst hnil
        rw [nil_append] at hmem htimes hstart
        have hlater : first.2 ≤ item.2 := by
          rcases mem_cons.mp hmem with hsame | hafter
          · rw [hsame]
          · exact rel_of_pairwise_cons htimes hafter
        rw [pauseOver_iff (hstart first mem_cons_self)] at hfirst
        exact hpaused ((pauseOver_iff (hstart item hmem)).mpr (hfirst.trans hlater))
      · rintro ⟨hearly, _⟩
        rcases exists_mem_of_ne_nil _ hearly with ⟨kept, hkept⟩
        rcases mem_map.mp hkept with ⟨item, hmem, _⟩
        exact ⟨⟨item, mem_append_left _ hmem, hbefore item hmem⟩,
          first, mem_append_right _ mem_cons_self, hfirst⟩

/-- What a pass may start from: no item comes twice, and in a pause the opener has been served. -/
structure Ready (opener : α) (since : Option Int) (served : List α) (items : List (α × Int)) :
    Prop where
  nodup : (served ++ items.map Prod.fst).Nodup
  opened : since ≠ none -> opener ∈ served
  times : items.Pairwise fun item later => item.2 ≤ later.2
  started : forall start, since = some start -> forall item, item ∈ items -> start ≤ item.2

/-- A pass serves what is in front of the pause, keeps a part of what meets it, and serves what
then is left. -/
theorem pass_splits (limit : Int) {since : Option Int} {served : List α} {items : List (α × Int)}
    (h : Ready opener since served items) :
    exists front early late since', items.map Prod.fst = front ++ (early ++ late) ∧
      pass opener limit ⟨since, [], served⟩ items = ⟨since', early, served ++ (front ++ late)⟩ ∧
      (Cut opener limit since items <-> early ≠ [] ∧ late ≠ []) ∧
      (since' ≠ none -> opener ∈ served ++ (front ++ late)) := by
  cases since with
  | some start =>
    have hserved : opener ∈ served := h.opened (Option.some_ne_none start)
    have hopener : opener ∉ items.map Prod.fst := fun hmem =>
      (nodup_append.mp h.nodup).2.2 opener hserved opener hmem rfl
    rcases pass_paused limit hopener h.times (h.started start rfl) served with
      ⟨early, late, since', hitems, hpass, hcut⟩
    refine ⟨[], early, late, since', hitems, hpass, ?_, fun _ => mem_append_left _ hserved⟩
    rw [← hcut]
    constructor
    · rintro ⟨start', behind, ⟨hsame, rfl⟩ | ⟨hnone, _⟩, hboth⟩
      · cases hsame
        exact hboth
      · cases hnone
    · intro hboth
      exact ⟨start, items, Or.inl ⟨rfl, rfl⟩, hboth⟩
  | none =>
    by_cases hopener : opener ∈ items.map Prod.fst
    · rcases mem_map.mp hopener with ⟨⟨item, start⟩, hmem, rfl⟩
      rcases append_of_mem hmem with ⟨before, behind, rfl⟩
      have hnodup := h.nodup
      rw [map_append, map_cons] at hnodup
      have hitems := (nodup_append.mp hnodup).2.1
      have hbefore : item ∉ before.map Prod.fst := fun hearlier =>
        (nodup_append.mp hitems).2.2 item hearlier item mem_cons_self rfl
      have hbehind : item ∉ behind.map Prod.fst :=
        (nodup_cons.mp (nodup_append.mp hitems).2.1).left
      have htimes := pairwise_cons.mp (pairwise_append.mp h.times).2.1
      rcases pass_paused limit hbehind htimes.right htimes.left
          (served ++ before.map Prod.fst ++ [item]) with
        ⟨early, late, since', hmap, hpass, hcut⟩
      refine ⟨before.map Prod.fst ++ [item], early, late, since', ?_, ?_, ?_, ?_⟩
      · rw [map_append, map_cons, hmap, append_assoc, singleton_append]
      · have hopened : serve item limit ⟨none, [], served ++ before.map Prod.fst⟩ (item, start) =
            ⟨some start, [], served ++ before.map Prod.fst ++ [item]⟩ := by
          rw [serve_free rfl, serveNow, if_pos rfl]
        rw [pass_append, pass_free hbefore, pass_cons, hopened, hpass]
        simp only [append_assoc]
      · rw [← hcut]
        constructor
        · rintro ⟨start', behind', ⟨hsome, _⟩ | ⟨_, before', hsplit⟩, hboth⟩
          · cases hsome
          · have hother : forall list : List (α × Int), item ∉ list.map Prod.fst ->
                (item, start') ∉ list := fun list hnot hin => hnot (mem_map_of_mem hin)
            rcases (append_cons_inj_of_notMem (hother before hbefore)
              (hother behind hbehind)).mp hsplit with ⟨_, hsame, rfl⟩
            cases hsame
            exact hboth
        · intro hboth
          exact ⟨start, behind, Or.inr ⟨rfl, before, rfl⟩, hboth⟩
      · intro _
        exact mem_append_right _ (mem_append_left _
          (mem_append_right _ (mem_singleton.mpr rfl)))
    · refine ⟨items.map Prod.fst, [], [], none, ?_, ?_, ?_, fun hnone => absurd rfl hnone⟩
      · rw [append_nil, append_nil]
      · rw [pass_free hopener, append_nil]
      · constructor
        · rintro ⟨start, behind, ⟨hsome, _⟩ | ⟨_, before, hsplit⟩, _⟩
          · cases hsome
          · rw [hsplit] at hopener
            exact absurd (mem_map_of_mem (mem_append_right _ mem_cons_self))
              hopener
        · rintro ⟨hearly, _⟩
          exact absurd rfl hearly

section Pass

variable {since : Option Int} {served : List α} {items : List (α × Int)}

theorem pass_in_order (h : Ready opener since served items) (hcut : ¬ Cut opener limit since items) :
    (pass opener limit ⟨since, [], served⟩ items).served ++
      (pass opener limit ⟨since, [], served⟩ items).kept = served ++ items.map Prod.fst := by
  rcases pass_splits limit h with ⟨front, early, late, since', hitems, hpass, hiff, _⟩
  rw [hpass, hitems]
  rw [hiff, not_and_or, not_not, not_not] at hcut
  rcases hcut with rfl | rfl
  · simp only [nil_append, append_nil]
  · simp only [append_nil, append_assoc]

theorem pass_opened (limit : Int) (h : Ready opener since served items)
    (hsince : (pass opener limit ⟨since, [], served⟩ items).since ≠ none) :
    opener ∈ (pass opener limit ⟨since, [], served⟩ items).served := by
  rcases pass_splits limit h with ⟨front, early, late, since', _, hpass, _, hopened⟩
  rw [hpass] at hsince ⊢
  exact hopened hsince

end Pass

end PausedQueue
end Icsw.Foundation
