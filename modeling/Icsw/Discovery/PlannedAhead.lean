import Icsw.Discovery.Schedule
import Icsw.Foundation.Run

/-!
# Two runs planned ahead

The dispatcher plans two runs for each linked pair of a device and a setting.  Another call
removes what is due, and items without a link are removed as orphans.
-/

namespace Icsw.Discovery

open Foundation List

/-- The device and the dispatcher setting. -/
abbrev Link := Nat × Nat

structure Planner.ScheduleItem where
  link : Link
  plannedDate : Int
  runNow : Bool

/-- A date that was planned; `orphaned` if its item was removed for want of a link. -/
structure PlannedDate where
  link : Link
  date : Int
  orphaned : Bool

structure Planner where
  links : List Link
  items : List Planner.ScheduleItem
  /-- The time of the last call; the source does not keep it. -/
  clock : Int
  /-- All dates that were planned, in this order; the source does not keep them. -/
  log : List PlannedDate

def Planner.init (clock : Int) : Planner where
  links := []
  items := []
  clock := clock
  log := []

def dates (items : List Planner.ScheduleItem) (link : Link) : List Int :=
  (items.filter fun item => item.link = link).map Planner.ScheduleItem.plannedDate

def liveDates (log : List PlannedDate) (link : Link) : List Int :=
  (log.filter fun planned => planned.link = link ∧ planned.orphaned = false).map PlannedDate.date

def lastSched (own : List Int) : Option Int :=
  own.foldl (fun last date => some (last.elim date (max date))) none

namespace Planner

def plan (planner : Planner) (link : Link) (date : Int) : Planner :=
  { planner with
    items := planner.items ++ [⟨link, date, false⟩]
    log := planner.log ++ [⟨link, date, false⟩] }

variable (settings : Nat -> DispatcherSetting)

def scheduleLink (now : Int) (planner : Planner) (link : Link) : Except PyError Planner :=
  match lastSched (dates planner.items link) with
  | none => do
    let first ← alignTimeToBaseline now (settings link.2)
    .ok ((planner.plan link first).plan link (first + getTimeInc (settings link.2)))
  | some last =>
    if (dates planner.items link).length < 2 then
      .ok (planner.plan link (last + getTimeInc (settings link.2)))
    else .ok planner

def isOrphan (planner : Planner) (item : ScheduleItem) : Bool :=
  !item.runNow && !decide (item.link ∈ planner.links)

def cleanUp (planner : Planner) : Planner :=
  { planner with
    items := planner.items.filter fun item => !planner.isOrphan item
    log := planner.log.map fun planned =>
      if (planned.link, planned.date) ∈
          (planner.items.filter planner.isOrphan).map fun item => (item.link, item.plannedDate) then
        { planned with orphaned := true }
      else planned }

def scheduleCall (now : Int) (planner : Planner) : Except PyError Planner := do
  let planner ← planner.links.foldlM (scheduleLink settings now) { planner with clock := now }
  .ok planner.cleanUp

/-- What is due is removed, whether it is run or not. -/
def dispatchCall (now : Int) (planner : Planner) : Planner :=
  { planner with
    clock := now
    items := planner.items.filter fun item => decide (now ≤ item.plannedDate) }

inductive Event where
  | addLink (link : Link)
  | removeLink (link : Link)
  | scheduleCall (now : Int)
  | dispatchCall (now : Int)

def step (planner : Planner) : Event -> Planner
  | .addLink link => { planner with links := planner.links ++ [link] }
  | .removeLink link => { planner with links := planner.links.filter fun other => other ≠ link }
  | .scheduleCall now => (scheduleCall settings now planner).toOption.getD planner
  | .dispatchCall now => dispatchCall now planner

/-- The clock does not go back, and the alignment comes to an end. -/
def Admissible (planner : Planner) : Event -> Prop
  | .scheduleCall now =>
    planner.clock ≤ now ∧ exists after, scheduleCall settings now planner = .ok after
  | .dispatchCall now => planner.clock ≤ now
  | _ => True

/-- What holds after a call of `schedule_call`. -/
structure PlannedAhead (planner : Planner) : Prop where
  linked : forall link, link ∈ planner.links -> exists first,
    dates planner.items link = [first, first + getTimeInc (settings link.2)]
  unlinked : forall item, item ∈ planner.items -> item.link ∉ planner.links -> item.runNow = true
  later : forall link, (liveDates planner.log link).Pairwise (· < ·)

/-- The items of a pair and the dates that were planned for it. -/
structure PairInv (planner : Planner) (link : Link) : Prop where
  later : (liveDates planner.log link).Pairwise (· < ·)
  dated : exists gone, liveDates planner.log link = gone ++ dates planner.items link ∧
    forall date, date ∈ gone -> date < planner.clock
  shape : dates planner.items link = [] ∨ (exists first, dates planner.items link = [first]) ∨
    exists first, dates planner.items link = [first, first + getTimeInc (settings link.2)]

structure Inv (planner : Planner) : Prop where
  pair : forall link, PairInv settings planner link
  planned : forall item, item ∈ planner.items -> item.runNow = false

variable {settings} {planner after : Planner} {link other : Link} {now date : Int}

theorem dates_plan (link other : Link) :
    dates (planner.plan link date).items other =
      dates planner.items other ++ if link = other then [date] else [] := by
  unfold dates plan
  rw [filter_append, map_append]
  by_cases h : link = other
  · rw [filter_cons_of_pos (by simpa using h), if_pos h]
    rfl
  · rw [filter_cons_of_neg (by simpa using h), if_neg h]
    rfl

theorem liveDates_plan (link other : Link) :
    liveDates (planner.plan link date).log other =
      liveDates planner.log other ++ if link = other then [date] else [] := by
  unfold liveDates plan
  rw [filter_append, map_append]
  by_cases h : link = other
  · rw [filter_cons_of_pos (by simpa using h), if_pos h]
    rfl
  · rw [filter_cons_of_neg (by simp [h]), if_neg h]
    rfl

theorem planned_plan (h : forall item, item ∈ planner.items -> item.runNow = false) :
    forall item, item ∈ (planner.plan link date).items -> item.runNow = false := by
  intro item hitem
  rcases mem_append.mp hitem with hold | hnew
  · exact h item hold
  · rw [mem_singleton.mp hnew]

end Planner

/-- The searches only step on. -/
theorem le_alignTimeToBaseline {setting : DispatcherSetting} {now result : Int}
    (h : alignTimeToBaseline now setting = .ok result) : now ≤ result := by
  have hclock : forall {result}, alignClock setting now = .ok result -> now < result := by
    intro result h
    rcases exists_of_bind h with ⟨first, hfirst, h⟩
    rcases exists_of_bind h with ⟨second, hsecond, hthird⟩
    have h1 := (search_ok hfirst).left
    have h2 := (search_ok hsecond).left
    have h3 := (search_ok hthird).left
    omega
  have hday : forall {now result}, alignDay setting.schedStartDay now = .ok result ->
      now ≤ result := by
    intro now result h
    unfold alignDay at h
    split at h
    · cases h
      exact le_refl _
    · exact (search_ok h).left.le
  unfold alignTimeToBaseline at h
  split at h
  · cases h
    exact le_refl _
  · exact (search_ok h).left.le
  · rcases exists_of_bind h with ⟨first, hfirst, h⟩
    exact ((search_ok hfirst).left.trans (search_ok h).left).le
  · exact (hclock h).le
  · rcases exists_of_bind h with ⟨first, hfirst, h⟩
    exact (hclock hfirst).le.trans (hday h)
  · rcases exists_of_bind h with ⟨first, hfirst, h⟩
    rcases exists_of_bind h with ⟨second, hsecond, h⟩
    exact ((hclock hfirst).le.trans (hday hsecond)).trans (search_ok h).left.le
  · rcases exists_of_bind h with ⟨first, hfirst, h⟩
    rcases exists_of_bind h with ⟨second, hsecond, h⟩
    rcases exists_of_bind h with ⟨third, hthird, h⟩
    exact (((hclock hfirst).le.trans (hday hsecond)).trans (search_ok hthird).left.le).trans
      (search_ok h).left.le

namespace Planner

variable {settings : Nat -> DispatcherSetting} {planner after : Planner} {link other : Link}
  {now date : Int}

/-- What one round of the loop leaves: the invariant, and two items for its link. -/
structure Rounds (settings : Nat -> DispatcherSetting) (planner after : Planner) : Prop where
  links : after.links = planner.links
  clock : after.clock = planner.clock
  inv : Inv settings after
  kept : forall link first,
    dates planner.items link = [first, first + getTimeInc (settings link.2)] ->
      dates after.items link = [first, first + getTimeInc (settings link.2)]

theorem rounds_plan {added : List Int} (h : Inv settings planner)
    (hlinks : after.links = planner.links) (hclock : after.clock = planner.clock)
    (hdates : forall other, dates after.items other =
      dates planner.items other ++ if link = other then added else [])
    (hlive : forall other, liveDates after.log other =
      liveDates planner.log other ++ if link = other then added else [])
    (hplanned : forall item, item ∈ after.items -> item.runNow = false)
    (hshape : (exists first, dates planner.items link = [first] ∧
        added = [first + getTimeInc (settings link.2)]) ∨
      dates planner.items link = [] ∧ exists first, planner.clock ≤ first ∧
        added = [first, first + getTimeInc (settings link.2)])
    (hinc : 0 < getTimeInc (settings link.2)) :
    Rounds settings planner after ∧
      exists first, dates after.items link = [first, first + getTimeInc (settings link.2)] := by
  have htwo : exists first,
      dates after.items link = [first, first + getTimeInc (settings link.2)] := by
    rw [hdates link, if_pos rfl]
    rcases hshape with ⟨first, hone, rfl⟩ | ⟨hnone, first, _, rfl⟩
    · exact ⟨first, by rw [hone]; rfl⟩
    · exact ⟨first, by rw [hnone]; rfl⟩
  refine ⟨⟨hlinks, hclock, ⟨?_, hplanned⟩, ?_⟩, htwo⟩
  · intro other
    have hpair := h.pair other
    by_cases heq : link = other
    · subst heq
      rcases hpair.dated with ⟨gone, hgone, hpast⟩
      refine ⟨?_, ⟨gone, ?_, by rw [hclock]; exact hpast⟩, Or.inr (Or.inr htwo)⟩
      · have hlater := hpair.later
        rw [hlive link, if_pos rfl, hgone]
        rw [hgone] at hlater
        rcases hshape with ⟨first, hone, rfl⟩ | ⟨hnone, first, hfirst, rfl⟩
        · rw [hone] at hlater ⊢
          have hbefore := (pairwise_append.mp hlater).right.right
          refine pairwise_append.mpr ⟨hlater, pairwise_singleton _ _, ?_⟩
          intro date hdate later hlater'
          rw [mem_singleton.mp hlater']
          rcases mem_append.mp hdate with hold | hlast
          · have := hbefore date hold first mem_cons_self
            omega
          · rw [mem_singleton.mp hlast]
            omega
        · rw [hnone, append_nil] at hlater ⊢
          refine pairwise_append.mpr ⟨hlater, ?_, ?_⟩
          · exact pairwise_pair.mpr (by omega)
          · intro date hdate later hlater'
            have := hpast date hdate
            rcases mem_pair.mp hlater' with rfl | rfl
            · omega
            · omega
      · rw [hlive link, hdates link, hgone, append_assoc]
    · have hsame : dates after.items other = dates planner.items other := by
        rw [hdates other, if_neg heq, append_nil]
      have hlog : liveDates after.log other = liveDates planner.log other := by
        rw [hlive other, if_neg heq, append_nil]
      exact ⟨by rw [hlog]; exact hpair.later, by rw [hlog, hsame, hclock]; exact hpair.dated,
        by rw [hsame]; exact hpair.shape⟩
  · intro other first hfirst
    rw [hdates other]
    by_cases heq : link = other
    · subst heq
      rcases hshape with ⟨held, hone, _⟩ | ⟨hnone, _⟩
      · rw [hone] at hfirst
        cases hfirst
      · rw [hnone] at hfirst
        cases hfirst
    · rw [if_neg heq, append_nil, hfirst]

theorem rounds_scheduleLink (h : Inv settings planner) (hnow : planner.clock = now)
    (hinc : 0 < getTimeInc (settings link.2))
    (hafter : scheduleLink settings now planner link = .ok after) :
    Rounds settings planner after ∧
      exists first, dates after.items link = [first, first + getTimeInc (settings link.2)] := by
  unfold scheduleLink at hafter
  rcases (h.pair link).shape with hnone | ⟨first, hone⟩ | ⟨first, htwo⟩
  · rw [hnone] at hafter
    rcases exists_of_bind hafter with ⟨first, hfirst, heq⟩
    cases heq
    refine rounds_plan h rfl rfl ?_ ?_ (planned_plan (planned_plan h.planned))
      (Or.inr ⟨hnone, first, hnow ▸ le_alignTimeToBaseline hfirst, rfl⟩) hinc
    · intro other
      rw [dates_plan, dates_plan, append_assoc]
      by_cases heq : link = other
      · simp [heq]
      · simp [heq]
    · intro other
      rw [liveDates_plan, liveDates_plan, append_assoc]
      by_cases heq : link = other
      · simp [heq]
      · simp [heq]
  · rw [hone] at hafter
    cases hafter
    exact rounds_plan h rfl rfl (dates_plan link) (liveDates_plan link) (planned_plan h.planned)
      (Or.inl ⟨first, hone, rfl⟩) hinc
  · rw [htwo] at hafter
    cases hafter
    exact ⟨⟨rfl, rfl, h, fun _ _ hfirst => hfirst⟩, first, htwo⟩

theorem rounds_foldlM (hinc : forall ds, 0 < getTimeInc (settings ds)) (links : List Link)
    (h : Inv settings planner) (hnow : planner.clock = now)
    (hafter : links.foldlM (scheduleLink settings now) planner = .ok after) :
    Rounds settings planner after ∧ forall link, link ∈ links ->
      exists first, dates after.items link = [first, first + getTimeInc (settings link.2)] := by
  induction links generalizing planner with
  | nil =>
    cases hafter
    exact ⟨⟨rfl, rfl, h, fun _ _ hfirst => hfirst⟩, fun link hlink => by cases hlink⟩
  | cons first rest ih =>
    rcases exists_of_bind hafter with ⟨middle, hmiddle, hrest⟩
    rcases rounds_scheduleLink h hnow (hinc first.2) hmiddle with ⟨hround, date, htwo⟩
    rcases ih hround.inv (hround.clock.trans hnow) hrest with ⟨hrounds, hall⟩
    refine ⟨⟨hrounds.links.trans hround.links, hrounds.clock.trans hround.clock, hrounds.inv,
      fun link date hdate => hrounds.kept link date (hround.kept link date hdate)⟩, ?_⟩
    intro link hlink
    rcases mem_cons.mp hlink with rfl | hmem
    · exact ⟨date, hrounds.kept _ date htwo⟩
    · exact hall link hmem

def orphanKeys (planner : Planner) : List (Link × Int) :=
  (planner.items.filter planner.isOrphan).map fun item => (item.link, item.plannedDate)

theorem liveDates_cleanUp (drop : Int -> Bool)
    (hdrop : forall date, (link, date) ∈ planner.orphanKeys <-> drop date = true) :
    liveDates planner.cleanUp.log link =
      (liveDates planner.log link).filter fun date => !drop date := by
  unfold liveDates cleanUp
  change map _ (filter _ (planner.log.map fun planned =>
    if (planned.link, planned.date) ∈ planner.orphanKeys then { planned with orphaned := true }
    else planned)) = _
  induction planner.log with
  | nil => rfl
  | cons planned rest ih =>
    rcases planned with ⟨name, date, orphaned⟩
    by_cases hlink : name = link
    · subst hlink
      by_cases hflag : (name, date) ∈ planner.orphanKeys
      · have hdropped := (hdrop date).mp hflag
        cases orphaned <;> simpa [hflag, hdropped] using ih
      · have hkept := mt (hdrop date).mpr hflag
        cases orphaned <;> simpa [hflag, hkept] using ih
    · by_cases hflag : (name, date) ∈ planner.orphanKeys
      · simpa [hflag, hlink] using ih
      · simpa [hflag, hlink] using ih

theorem dates_filter (items : List Planner.ScheduleItem) (keep : Planner.ScheduleItem -> Bool)
    (link : Link) (held : Int -> Bool)
    (hkeep : forall item, item ∈ items -> item.link = link -> keep item = held item.plannedDate) :
    dates (items.filter keep) link = (dates items link).filter held := by
  unfold dates
  rw [filter_map, filter_filter, filter_filter]
  refine congrArg (map _) (filter_congr ?_)
  intro item hitem
  by_cases hlink : item.link = link
  · simp [hlink, hkeep item hitem hlink]
  · simp [hlink]

theorem inv_cleanUp (h : Inv settings planner) :
    Inv settings planner.cleanUp ∧
      (forall link, link ∈ planner.links ->
        dates planner.cleanUp.items link = dates planner.items link) ∧
      forall item, item ∈ planner.cleanUp.items -> item.link ∈ planner.links := by
  have horphan : forall item, item ∈ planner.items ->
      planner.isOrphan item = !decide (item.link ∈ planner.links) := by
    intro item hitem
    rw [isOrphan, h.planned item hitem]
    rfl
  have hdates : forall link, dates planner.cleanUp.items link =
      (dates planner.items link).filter fun _ => decide (link ∈ planner.links) := by
    intro link
    refine dates_filter planner.items _ link (fun _ => decide (link ∈ planner.links)) ?_
    intro item hitem hlink
    rw [horphan item hitem, hlink, Bool.not_not]
  have hkept : forall link, link ∈ planner.links ->
      dates planner.cleanUp.items link = dates planner.items link := by
    intro link hlink
    rw [hdates, decide_eq_true hlink, filter_true]
  have hkeys : forall link date, (link, date) ∈ planner.orphanKeys <->
      link ∉ planner.links ∧ date ∈ dates planner.items link := by
    intro link date
    unfold orphanKeys dates
    simp only [mem_map, mem_filter, Prod.mk.injEq, decide_eq_true_eq]
    constructor
    · rintro ⟨item, ⟨hitem, hflag⟩, rfl, rfl⟩
      rw [horphan item hitem, Bool.not_eq_true', decide_eq_false_iff_not] at hflag
      exact ⟨hflag, item, ⟨hitem, rfl⟩, rfl⟩
    · rintro ⟨hlink, item, ⟨hitem, rfl⟩, rfl⟩
      exact ⟨item, ⟨hitem, by rw [horphan item hitem, decide_eq_false hlink]; rfl⟩, rfl, rfl⟩
  refine ⟨⟨?_, fun item hitem => h.planned item (mem_filter.mp hitem).left⟩, hkept, ?_⟩
  · intro link
    have hpair := h.pair link
    by_cases hlink : link ∈ planner.links
    · have hlive : liveDates planner.cleanUp.log link = liveDates planner.log link := by
        rw [liveDates_cleanUp (fun _ => false) (by simp [hkeys, hlink])]
        exact filter_true _
      have hsame := hkept link hlink
      exact ⟨by rw [hlive]; exact hpair.later, by rw [hlive, hsame]; exact hpair.dated,
        by rw [hsame]; exact hpair.shape⟩
    · have hnone : dates planner.cleanUp.items link = [] := by
        rw [hdates, decide_eq_false hlink, filter_false]
      rcases hpair.dated with ⟨gone, hgone, hpast⟩
      have hlater := hpair.later
      have hlive : liveDates planner.cleanUp.log link = gone := by
        rw [liveDates_cleanUp (fun date => decide (date ∈ dates planner.items link))
          (by simp [hkeys, hlink]), hgone, filter_append]
        rw [hgone] at hlater
        have hbefore := (pairwise_append.mp hlater).right.right
        have hkeep : gone.filter (fun date => !decide (date ∈ dates planner.items link)) = gone := by
          rw [filter_eq_self]
          intro date hdate
          rw [Bool.not_eq_true', decide_eq_false_iff_not]
          exact fun hmem => lt_irrefl date (hbefore date hdate date hmem)
        rw [hkeep, filter_eq_nil_iff.mpr (by simp), append_nil]
      refine ⟨?_, ⟨gone, by rw [hlive, hnone, append_nil], hpast⟩, Or.inl hnone⟩
      rw [hlive]
      rw [hgone] at hlater
      exact (pairwise_append.mp hlater).left
  · intro item hitem
    rcases mem_filter.mp hitem with ⟨hmem, hflag⟩
    rw [horphan item hmem, Bool.not_not] at hflag
    exact of_decide_eq_true hflag

theorem inv_dispatchCall (hinc : forall ds, 0 < getTimeInc (settings ds)) (h : Inv settings planner)
    (hnow : planner.clock ≤ now) : Inv settings (dispatchCall now planner) := by
  refine ⟨?_, fun item hitem => h.planned item (mem_filter.mp hitem).left⟩
  intro link
  have hdates : dates (dispatchCall now planner).items link =
      (dates planner.items link).filter fun date => decide (now ≤ date) :=
    dates_filter planner.items _ link _ fun _ _ _ => rfl
  have hpair := h.pair link
  rcases hpair.dated with ⟨gone, hgone, hpast⟩
  have hpositive := hinc link.2
  refine ⟨hpair.later, ?_, ?_⟩
  · show exists gone, liveDates planner.log link = gone ++ _ ∧ forall date, date ∈ gone -> date < now
    have hold : forall date, date ∈ gone -> date < now := fun date hdate =>
      (hpast date hdate).trans_le hnow
    rw [hdates, hgone]
    rcases hpair.shape with hnone | ⟨first, hone⟩ | ⟨first, htwo⟩
    · rw [hnone]
      exact ⟨gone, rfl, hold⟩
    · rw [hone]
      by_cases hfirst : now ≤ first
      · exact ⟨gone, by simp [hfirst], hold⟩
      · refine ⟨gone ++ [first], by simp [hfirst], ?_⟩
        simpa using fun date hdate => hdate.elim (hold date) (fun heq => by omega)
    · rw [htwo]
      by_cases hfirst : now ≤ first
      · exact ⟨gone, by simp [hfirst, show now ≤ first + getTimeInc (settings link.2) by omega], hold⟩
      · by_cases hsecond : now ≤ first + getTimeInc (settings link.2)
        · refine ⟨gone ++ [first], by simp [hfirst, hsecond], ?_⟩
          simpa using fun date hdate => hdate.elim (hold date) (fun heq => by omega)
        · refine ⟨gone ++ [first, first + getTimeInc (settings link.2)],
            by simp [hfirst, hsecond], ?_⟩
          simpa using fun date hdate => hdate.elim (hold date) (fun heq => by omega)
  · rw [hdates]
    rcases hpair.shape with hnone | ⟨first, hone⟩ | ⟨first, htwo⟩
    · rw [hnone]
      exact Or.inl rfl
    · rw [hone]
      by_cases hfirst : now ≤ first
      · exact Or.inr (Or.inl ⟨first, by simp [hfirst]⟩)
      · exact Or.inl (by simp [hfirst])
    · rw [htwo]
      by_cases hfirst : now ≤ first
      · exact Or.inr (Or.inr ⟨first,
          by simp [hfirst, show now ≤ first + getTimeInc (settings link.2) by omega]⟩)
      · by_cases hsecond : now ≤ first + getTimeInc (settings link.2)
        · exact Or.inr (Or.inl ⟨_, by simp [hfirst, hsecond]; rfl⟩)
        · exact Or.inl (by simp [hfirst, hsecond])

theorem inv_scheduleCall (hinc : forall ds, 0 < getTimeInc (settings ds)) (h : Inv settings planner)
    (hnow : planner.clock ≤ now) (hafter : scheduleCall settings now planner = .ok after) :
    Inv settings after ∧ PlannedAhead settings after := by
  rcases exists_of_bind hafter with ⟨looped, hlooped, heq⟩
  cases heq
  have hstart : Inv settings { planner with clock := now } := by
    refine ⟨fun link => ?_, h.planned⟩
    have hpair := h.pair link
    rcases hpair.dated with ⟨gone, hgone, hpast⟩
    exact ⟨hpair.later, ⟨gone, hgone, fun date hdate => (hpast date hdate).trans_le hnow⟩,
      hpair.shape⟩
  rcases rounds_foldlM hinc planner.links hstart rfl hlooped with ⟨hrounds, hall⟩
  rcases inv_cleanUp hrounds.inv with ⟨hinv, hkept, hlinked⟩
  refine ⟨hinv, ?_, ?_, fun link => (hinv.pair link).later⟩
  · intro link hlink
    have hmem : link ∈ planner.links := hrounds.links ▸ hlink
    rcases hall link hmem with ⟨first, htwo⟩
    exact ⟨first, (hkept link hlink).trans htwo⟩
  · intro item hitem hlink
    exact absurd (hlinked item hitem) hlink

theorem getTimeInc_pos {setting : DispatcherSetting} (hmult : 1 ≤ setting.mult) :
    0 < getTimeInc setting := by
  have hperiod : 0 < setting.baseline.period := by
    cases setting.baseline <;> decide
  exact Int.mul_pos hperiod (by omega)

theorem inv_step (hinc : forall ds, 0 < getTimeInc (settings ds)) (planner : Planner) (event : Event)
    (h : Inv settings planner) (hadmissible : Admissible settings planner event) :
    Inv settings (step settings planner event) := by
  cases event with
  | addLink link => exact ⟨fun link => ⟨(h.pair link).later, (h.pair link).dated, (h.pair link).shape⟩,
      h.planned⟩
  | removeLink link =>
    exact ⟨fun link => ⟨(h.pair link).later, (h.pair link).dated, (h.pair link).shape⟩, h.planned⟩
  | scheduleCall now =>
    rcases hadmissible with ⟨hnow, after, hafter⟩
    rw [step, hafter]
    exact (inv_scheduleCall hinc h hnow hafter).left
  | dispatchCall now => exact inv_dispatchCall hinc h hadmissible

/-- After a call of `schedule_call` in any run, two runs are planned ahead. -/
theorem planned_ahead (settings : Nat -> DispatcherSetting) (hmult : forall ds, 1 ≤ (settings ds).mult)
    (start : Int) (events : List Event) (now : Int)
    (h : Along (step settings) (Admissible settings) (init start) (events ++ [.scheduleCall now])) :
    PlannedAhead settings
      (run (step settings) (init start) (events ++ [.scheduleCall now])) := by
  have hinc : forall ds, 0 < getTimeInc (settings ds) := fun ds => getTimeInc_pos (hmult ds)
  rcases (along_append (step settings)).mp h with ⟨hevents, ⟨hnow, after, hafter⟩, _⟩
  have hinit : Inv settings (init start) :=
    ⟨fun link => ⟨List.Pairwise.nil, ⟨[], rfl, fun date hdate => by cases hdate⟩, Or.inl rfl⟩,
      fun item hitem => by cases hitem⟩
  have hinv := invariant_run (step settings) (inv_step hinc) hinit hevents
  rw [run_append, run_cons, step, hafter]
  exact (inv_scheduleCall hinc hinv hnow hafter).right

def everySecond (_ : Nat) : DispatcherSetting := ⟨true, none, .second, 1, none, none, none, none, none, none⟩

theorem planned_ahead_second :
    PlannedAhead everySecond
      (run (step everySecond) (init 0) ([.addLink (1, 1)] ++ [.scheduleCall 0])) :=
  planned_ahead everySecond (fun _ => le_refl 1) 0 [.addLink (1, 1)] 0
    ⟨trivial, ⟨le_refl 0, _, rfl⟩, trivial⟩

/-- A pair that is linked again within the period gets the dates that it had before. -/
theorem linked_again_same_dates :
    Along (step everySecond) (Admissible everySecond) (init 0)
        [.addLink (1, 1), .scheduleCall 0, .removeLink (1, 1), .scheduleCall 0, .addLink (1, 1),
          .scheduleCall 0] ∧
      ¬ ((run (step everySecond) (init 0)
        [.addLink (1, 1), .scheduleCall 0, .removeLink (1, 1), .scheduleCall 0, .addLink (1, 1),
          .scheduleCall 0]).log.map PlannedDate.date).Pairwise (· < ·) :=
  ⟨⟨trivial, ⟨le_refl 0, _, rfl⟩, trivial, ⟨le_refl 0, _, rfl⟩, trivial, ⟨le_refl 0, _, rfl⟩,
    trivial⟩, by decide⟩

end Planner

end Icsw.Discovery
