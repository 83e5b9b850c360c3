import Icsw.Foundation.DatedList

/-!
# Time shares of a dated list

The state in force at an instant is that of the latest item, and a default before the first one.
The telescoping sum of a walk over consecutive dates is expressed by the number of ticks spent in
the state, also when the list starts before the window or ends after it.
-/

namespace Icsw.Foundation
namespace DatedList

open List

variable {α β : Type} (date : α -> Int) (value : α -> β)

-- The order that intervals are taken in is named: Mathlib also has one that cannot be run.
local instance intPreorder : Preorder Int := Int.instLinearOrder.toPreorder

def ticks (lo hi : Int) (p : Int -> Prop) [DecidablePred p] : Int :=
  (((Finset.Ico lo hi).filter p).card : Int)

theorem ticks_nonneg (lo hi : Int) (p : Int -> Prop) [DecidablePred p] : 0 ≤ ticks lo hi p :=
  Int.natCast_nonneg _

variable {lo hi : Int}

theorem ticks_of_le (h : hi ≤ lo) (p : Int -> Prop) [DecidablePred p] : ticks lo hi p = 0 := by
  simp [ticks, Finset.Ico_eq_empty_of_le h]

theorem ticks_congr {p q : Int -> Prop} [DecidablePred p]
    [DecidablePred q] (h : forall t, lo ≤ t -> t < hi -> (p t <-> q t)) :
    ticks lo hi p = ticks lo hi q := by
  unfold ticks
  congr 2
  apply Finset.filter_congr
  intro t ht
  rw [Finset.mem_Ico] at ht
  exact h t ht.left ht.right

theorem ticks_add {lo mid hi : Int} (hlo : lo ≤ mid) (hhi : mid ≤ hi)
    (p : Int -> Prop) [DecidablePred p] :
    ticks lo mid p + ticks mid hi p = ticks lo hi p := by
  have hdisjoint : Disjoint ((Finset.Ico lo mid).filter p)
      ((Finset.Ico mid hi).filter p) := by
    apply Finset.disjoint_filter_filter
    exact Finset.Ico_disjoint_Ico_consecutive lo mid hi
  unfold ticks
  rw [← Finset.Ico_union_Ico_eq_Ico hlo hhi, Finset.filter_union,
    Finset.card_union_of_disjoint hdisjoint]
  push_cast
  rfl

theorem ticks_const (lo hi : Int) (p : Prop) [Decidable p] (h : lo ≤ hi) :
    ticks lo hi (fun _ => p) = if p then hi - lo else 0 := by
  by_cases hp : p
  · simp only [ticks, hp, Finset.filter_true, Int.card_Ico, if_true]
    omega
  · simp [ticks, hp]

/-- Ticks of an interval given in either direction, negative when reversed. -/
def span (lo hi : Int) (p : Int -> Prop) [DecidablePred p] : Int :=
  ticks lo hi p - ticks hi lo p

theorem span_of_le (h : lo ≤ hi) (p : Int -> Prop)
    [DecidablePred p] : span lo hi p = ticks lo hi p := by
  rw [span, ticks_of_le h, sub_zero]

theorem span_of_ge (h : hi ≤ lo) (p : Int -> Prop)
    [DecidablePred p] : span lo hi p = - ticks hi lo p := by
  rw [span, ticks_of_le h, zero_sub]

theorem span_add (a b c : Int) (p : Int -> Prop) [DecidablePred p] :
    span a b p + span b c p = span a c p := by
  rcases le_total a b with hab | hab <;> rcases le_total b c with hbc | hbc <;>
    rcases le_total a c with hac | hac
  · rw [span_of_le hab, span_of_le hbc, span_of_le hac, ticks_add hab hbc]
  · have hb : b = a := by omega
    have hc : c = a := by omega
    simp [span, hb, hc]
  · have h := ticks_add hac hbc p
    rw [span_of_le hab, span_of_ge hbc, span_of_le hac]
    omega
  · have h := ticks_add hac hab p
    rw [span_of_le hab, span_of_ge hbc, span_of_ge hac]
    omega
  · have h := ticks_add hab hac p
    rw [span_of_ge hab, span_of_le hbc, span_of_le hac]
    omega
  · have h := ticks_add hbc hac p
    rw [span_of_ge hab, span_of_le hbc, span_of_ge hac]
    omega
  · have hb : b = a := by omega
    have hc : c = a := by omega
    simp [span, hb, hc]
  · have h := ticks_add hbc hab p
    rw [span_of_ge hab, span_of_ge hbc, span_of_ge hac]
    omega

def stateAt (before : β) (items : List α) (instant : Int) : β :=
  ((latest date items instant).map value).getD before

variable {before : β} {instant : Int} {items : List α}

theorem stateAt_of_forall_later (h : forall item, item ∈ items -> instant < date item) :
    stateAt date value before items instant = before := by
  rw [stateAt, (latest_eq_none_iff date).mpr h]
  rfl

variable {rest : List α} {first : α}

theorem stateAt_cons_of_lt (hfirst : date first ≤ instant)
    (hrest : forall item, item ∈ rest -> instant < date item) :
    stateAt date value before (first :: rest) instant = value first := by
  rw [stateAt, latest, (latest_eq_none_iff date).mpr hrest, newer_none_right,
    pick, if_pos hfirst]
  rfl

theorem latest_cons_of_le {first second : α}
    (hsorted : Sorted date (first :: second :: rest)) (h : date second ≤ instant) :
    latest date (first :: second :: rest) instant =
      latest date (second :: rest) instant := by
  rcases latest_max date (mem_cons_self (a := second) (l := rest)) h with
    ⟨last, hlast, hle⟩
  have hfirst : date first ≤ date second :=
    (pairwise_cons.mp hsorted).left second mem_cons_self
  have hnot : ¬ date last < date first := by omega
  rw [latest, hlast, pick, if_pos (by omega)]
  simp [newer, hnot]

theorem stateAt_of_getLast_le (hsorted : Sorted date (first :: rest))
    (h : date ((first :: rest).getLast (cons_ne_nil first rest)) ≤ instant) :
    stateAt date value before (first :: rest) instant =
      value ((first :: rest).getLast (cons_ne_nil first rest)) := by
  induction rest generalizing first with
  | nil =>
    apply stateAt_cons_of_lt date value h
    intro item hitem
    cases hitem
  | cons second rest ih =>
    have htail : Sorted date (second :: rest) := (pairwise_cons.mp hsorted).right
    rw [getLast_cons (cons_ne_nil second rest)] at h ⊢
    have hle : date second ≤ instant := by
      have hmem := getLast_mem (cons_ne_nil second rest)
      rcases mem_cons.mp hmem with heq | hrest
      · rwa [heq] at h
      · have hsecond := (pairwise_cons.mp htail).left _ hrest
        exact le_trans hsecond h
    have hlater := ih htail h
    rw [stateAt] at hlater ⊢
    rw [latest_cons_of_le date hsorted hle]
    exact hlater

theorem stateAt_cons (hsorted : Sorted date (first :: rest)) :
    stateAt date value before (first :: rest) instant =
      if date first ≤ instant then stateAt date value (value first) rest instant
      else before := by
  rcases pairwise_cons.mp hsorted with ⟨hfirst, _⟩
  split
  · rename_i hle
    rw [stateAt, stateAt, latest, pick, if_pos hle]
    cases hlast : latest date rest instant with
    | none => simp
    | some last =>
      have hnot : ¬ date last < date first := not_lt.mpr (hfirst last (latest_mem date hlast).left)
      simp [newer, hnot]
  · rename_i hnot
    apply stateAt_of_forall_later
    intro item hmem
    rcases mem_cons.mp hmem with heq | htail
    · rw [heq]
      exact not_le.mp hnot
    · exact lt_of_lt_of_le (not_le.mp hnot) (hfirst item htail)

theorem stateAt_of_no_item {earlier later : Int} (hle : earlier ≤ later)
    (h : forall item, item ∈ items -> ¬ (earlier < date item ∧ date item ≤ later)) :
    stateAt date value before items earlier = stateAt date value before items later := by
  have hlatest : latest date items earlier = latest date items later := by
    induction items with
    | nil => rfl
    | cons first rest ih =>
      have hpick : pick date first earlier = pick date first later := by
        have hfirst := h first mem_cons_self
        unfold pick
        by_cases hdate : date first ≤ earlier
        · rw [if_pos hdate, if_pos (le_trans hdate hle)]
        · have hlater : ¬ date first ≤ later :=
            fun hnot => hfirst ⟨not_le.mp hdate, hnot⟩
          rw [if_neg hdate, if_neg hlater]
      rw [latest, latest, hpick,
        ih (fun item hmem => h item (mem_cons_of_mem first hmem))]
  rw [stateAt, stateAt, hlatest]

theorem stateAt_map {γ δ : Type} {date' : γ -> Int} {value' : γ -> δ} {f : α -> γ}
    {g : β -> δ} (hdate : forall item, date' (f item) = date item)
    (hvalue : forall item, value' (f item) = g (value item)) (before : β) (items : List α)
    (instant : Int) :
    stateAt date' value' (g before) (items.map f) instant =
      g (stateAt date value before items instant) := by
  have hlatest : latest date' (items.map f) instant =
      (latest date items instant).map f := by
    induction items with
    | nil => rfl
    | cons first rest ih =>
      have hpick : pick date' (f first) instant = (pick date first instant).map f := by
        unfold pick
        rw [hdate]
        split <;> rfl
      have hnewer : forall x y : Option α,
          newer date' (x.map f) (y.map f) = (newer date x y).map f := by
        intro x y
        cases x <;> cases y <;> simp [newer, hdate]
        split <;> rfl
      rw [map_cons, latest, latest, ih, hpick, hnewer]
  rw [stateAt, stateAt, hlatest]
  cases latest date items instant <;> simp [hvalue]

variable [DecidableEq β]

def dropRepeats : Option β -> List α -> List α
  | _, [] => []
  | last, item :: rest =>
    if last = some (value item) then dropRepeats (some (value item)) rest
    else item :: dropRepeats (some (value item)) rest

theorem dropRepeats_sublist (last : Option β) (items : List α) :
    (dropRepeats value last items).Sublist items := by
  induction items generalizing last with
  | nil => exact Sublist.refl []
  | cons item rest ih =>
    rw [dropRepeats]
    split
    · exact (ih _).cons item
    · exact (ih _).cons_cons item

theorem stateAt_dropRepeats {last : Option β} (hlast : last = none ∨ last = some before)
    (hsorted : Sorted date items) (instant : Int) :
    stateAt date value before (dropRepeats value last items) instant =
      stateAt date value before items instant := by
  induction items generalizing last before with
  | nil => rfl
  | cons item rest ih =>
    rcases pairwise_cons.mp hsorted with ⟨hfirst, hrest⟩
    have htail := ih (Or.inr (rfl : some (value item) = some (value item))) hrest
    rw [dropRepeats, stateAt_cons date value hsorted]
    split
    · rename_i hrepeat
      have hbefore : before = value item := by
        rcases hlast with hnone | hsome
        · rw [hnone] at hrepeat
          cases hrepeat
        · rw [hsome] at hrepeat
          exact Option.some.inj hrepeat
      rw [hbefore, htail]
      split
      · rfl
      · rename_i hnot
        apply stateAt_of_forall_later
        intro other hmem
        exact lt_of_lt_of_le (not_le.mp hnot) (hfirst other hmem)
    · have hsub := (dropRepeats_sublist value (some (value item)) rest).cons_cons item
      rw [stateAt_cons date value (hsorted.sublist hsub), htail]

/-- Time between consecutive items, charged to the earlier item's state. -/
def stayTime (state : β) : List α -> Int
  | [] => 0
  | [_] => 0
  | first :: second :: rest =>
    (if value first = state then date second - date first else 0) +
      stayTime state (second :: rest)

theorem stayTime_eq_ticks (state before : β) (hsorted : Sorted date (first :: rest)) :
    stayTime date value state (first :: rest) =
      ticks (date first) (date ((first :: rest).getLast (cons_ne_nil first rest)))
        (fun t => stateAt date value before (first :: rest) t = state) := by
  induction rest generalizing first with
  | nil =>
    rw [ticks_of_le (le_of_eq (by simp))]
    rfl
  | cons second rest ih =>
    have hhead := (pairwise_cons.mp hsorted).left
    have htail : Sorted date (second :: rest) := (pairwise_cons.mp hsorted).right
    have hle : date first ≤ date second := hhead second mem_cons_self
    have hlast : date second ≤
        date ((second :: rest).getLast (cons_ne_nil second rest)) := by
      rcases mem_cons.mp (getLast_mem (cons_ne_nil second rest))
        with heq | hmem
      · rw [heq]
      · exact (pairwise_cons.mp htail).left _ hmem
    rw [getLast_cons (cons_ne_nil second rest), ← ticks_add hle hlast,
      stayTime, ih htail]
    -- the window splits at the second item: before it the first item rules,
    -- after it the tail alone decides
    congr 1
    · rw [← ticks_const _ _ (value first = state) hle]
      apply ticks_congr
      intro t hlo hhi
      rw [stateAt_cons_of_lt date value hlo]
      intro item hitem
      rcases mem_cons.mp hitem with heq | hmem
      · rwa [heq]
      · exact lt_of_lt_of_le hhi ((pairwise_cons.mp htail).left item hmem)
    · apply ticks_congr
      intro t hlo _hhi
      rw [stateAt, stateAt, latest_cons_of_le date hsorted hlo]

/--
Time a walk charges to a state: the default up to the first item, each item up to the next one, and
the last item up to the end.
-/
def walkTime (start stop : Int) (before state : β) : List α -> Int
  | [] => if before = state then stop - start else 0
  | first :: rest =>
    let last := (first :: rest).getLast (cons_ne_nil first rest)
    stayTime date value state (first :: rest) +
      (if before = state then date first - start else 0) +
      (if value last = state then stop - date last else 0)

def timeIn (before : β) (items : List α) (state : β) (lo hi : Int) : Int :=
  ticks lo hi (fun t => stateAt date value before items t = state)

/-- Signed variant of the time in force, for windows given in either direction. -/
def spanIn (before : β) (items : List α) (state : β) (lo hi : Int) : Int :=
  span lo hi (fun t => stateAt date value before items t = state)

theorem charge_before_first (start : Int) (before state : β)
    (hsorted : Sorted date (first :: rest)) :
    (if before = state then date first - start else 0) -
        spanIn date value before (first :: rest) state start (date first) =
      timeIn date value before (first :: rest) state (date first) start -
        if before = state then max 0 (start - date first) else 0 := by
  rcases le_total start (date first) with h | h
  · have heq : timeIn date value before (first :: rest) state start (date first) =
        ticks start (date first) (fun _ => before = state) := by
      apply ticks_congr
      intro t _hlo hhi
      rw [stateAt_of_forall_later]
      intro item hitem
      rcases mem_cons.mp hitem with heq | hmem
      · rwa [heq]
      · exact lt_of_lt_of_le hhi ((pairwise_cons.mp hsorted).left item hmem)
    rw [spanIn, span_of_le h, ← timeIn, heq, ticks_const _ _ _ h, timeIn, ticks_of_le h]
    split <;> omega
  · rw [spanIn, span_of_ge h, ← timeIn]
    split <;> omega

theorem charge_after_last (stop : Int) (before state : β) {first last : α}
    (hsorted : Sorted date (first :: rest))
    (hlast : (first :: rest).getLast (cons_ne_nil first rest) = last) :
    (if value last = state then stop - date last else 0) -
        spanIn date value before (first :: rest) state (date last) stop =
      timeIn date value before (first :: rest) state stop (date last) -
        if value last = state then max 0 (date last - stop) else 0 := by
  rcases le_total (date last) stop with h | h
  · have heq : timeIn date value before (first :: rest) state (date last) stop =
        ticks (date last) stop (fun _ => value last = state) := by
      apply ticks_congr
      intro t hlo _hhi
      rw [← hlast] at hlo ⊢
      rw [stateAt_of_getLast_le date value hsorted hlo]
    rw [spanIn, span_of_le h, ← timeIn, heq, ticks_const _ _ _ h, timeIn, ticks_of_le h]
    split <;> omega
  · rw [spanIn, span_of_ge h, ← timeIn]
    split <;> omega

/--
What the walk charges is the time the state is in force in the window, plus what the list covers
outside of it, minus that time charged to the default at the front and to the last item at the
back.
-/
theorem walkTime_cons (start stop : Int) (before state : β) {first last : α}
    (hsorted : Sorted date (first :: rest)) (hle : start ≤ stop)
    (hlast : (first :: rest).getLast (cons_ne_nil first rest) = last) :
    walkTime date value start stop before state (first :: rest) =
      timeIn date value before (first :: rest) state start stop +
      (timeIn date value before (first :: rest) state (date first) start -
        if before = state then max 0 (start - date first) else 0) +
      (timeIn date value before (first :: rest) state stop (date last) -
        if value last = state then max 0 (date last - stop) else 0) := by
  have hfl : date first ≤ date last := by
    rw [← hlast]
    rcases mem_cons.mp (getLast_mem (cons_ne_nil first rest)) with heq | hmem
    · rw [heq]
    · exact (pairwise_cons.mp hsorted).left _ hmem
  have hstay : stayTime date value state (first :: rest) =
      spanIn date value before (first :: rest) state (date first) (date last) := by
    rw [spanIn, span_of_le hfl, stayTime_eq_ticks date value state before hsorted, hlast]
  have hsplit : spanIn date value before (first :: rest) state (date first) (date last) =
      timeIn date value before (first :: rest) state start stop -
        spanIn date value before (first :: rest) state start (date first) -
        spanIn date value before (first :: rest) state (date last) stop := by
    have h1 := span_add start (date first) (date last)
      (fun t => stateAt date value before (first :: rest) t = state)
    have h2 := span_add start (date last) stop
      (fun t => stateAt date value before (first :: rest) t = state)
    rw [span_of_le hle] at h2
    simp only [spanIn, timeIn]
    omega
  have hleft := charge_before_first date value start before state hsorted
  have hright := charge_after_last date value stop before state hsorted hlast
  rw [walkTime, hstay]
  simp only [hlast]
  omega

theorem walkTime_of_within (start stop : Int) (before state : β)
    (hsorted : Sorted date items) (hle : start ≤ stop)
    (hlo : forall item, item ∈ items -> start ≤ date item)
    (hhi : forall item, item ∈ items -> date item ≤ stop) :
    walkTime date value start stop before state items =
      timeIn date value before items state start stop := by
  cases items with
  | nil =>
    rw [walkTime, ← ticks_const start stop (before = state) hle]
    rfl
  | cons first rest =>
    have hfirst := hlo first mem_cons_self
    have hlast := hhi _ (getLast_mem (cons_ne_nil first rest))
    rw [walkTime_cons date value start stop before state hsorted hle rfl]
    have hfront : timeIn date value before (first :: rest) state (date first) start = 0 :=
      ticks_of_le hfirst _
    have hback : timeIn date value before (first :: rest) state stop
        (date ((first :: rest).getLast (cons_ne_nil first rest))) = 0 :=
      ticks_of_le hlast _
    rw [hfront, hback]
    split <;> split <;> omega

end DatedList
end Icsw.Foundation
