import Icsw.Foundation.Run
import Icsw.Monitoring.Limits
import Mathlib.Data.List.Induction

/-!
# Thresholds of sensors

A threshold is triggered when the value crosses one of its bounds.  Its flag keeps it from being
triggered again until the value has crossed the other bound.
-/

namespace Icsw.Monitoring

open Foundation List

namespace PyFloat

/-- `first < second` -/
def lt (first second : PyFloat) : Bool := first.le second && !second.le first

/-- `first != second` -/
def ne (first second : PyFloat) : Bool := !(first.le second && second.le first)

theorem le_trans_lt {first second third : PyFloat} (h : first.le second = true)
    (hlt : second.lt third = true) : third.lt first = false := by
  rcases first with value | negative | _ <;> rcases second with value' | negative' | _ <;>
    rcases third with value'' | negative'' | _ <;> simp_all [le, lt]
  · intro hle
    exact absurd (lt_of_lt_of_le hlt.right hle) (not_lt.mpr h)

theorem lt_trans_le {first second third : PyFloat} (hlt : first.lt second = true)
    (h : second.le third = true) : third.lt first = false := by
  by_contra hback
  rw [le_trans_lt h ((Bool.not_eq_false _).mp hback)] at hlt
  cases hlt

end PyFloat

structure SensorThreshold where
  lowerValue : PyFloat
  upperValue : PyFloat

inductive What where
  | upper
  | lower
deriving DecidableEq

structure Threshold where
  th : SensorThreshold
  cycle : Nat
  values : List (Rat × PyFloat)
  upperTriggered : Bool
  lowerTriggered : Bool

namespace Threshold

/-- `Meta.max_diff_time` -/
def maxDiffTime : Rat := 1200

/-- `Meta.values_to_store` -/
def valuesToStore : Nat := 20

def init (dbObj : SensorThreshold) : Threshold := ⟨dbObj, 0, [], false, false⟩

variable (threshold : Threshold)

def resetFlags : Threshold :=
  { threshold with upperTriggered := false, lowerTriggered := false }

def update (dbObj : SensorThreshold) : Threshold :=
  let updated := { threshold with th := dbObj }
  if threshold.th.lowerValue.ne dbObj.lowerValue || threshold.th.upperValue.ne dbObj.upperValue then
    updated.resetFlags
  else updated

/-- What a trigger does to the flags. -/
def trigger : What -> Threshold
  | .upper => { threshold with upperTriggered := true }
  | .lower => { threshold with lowerTriggered := true }

/-- The value is stored, and all before it are dropped if they are too old. -/
def store (curTime : Rat) (value : PyFloat) : Threshold :=
  match threshold.values.getLast? with
  | none => { threshold with values := [(curTime, value)] }
  | some last =>
    if maxDiffTime < |last.1 - curTime| then
      { threshold.resetFlags with values := [(curTime, value)] }
    else { threshold with values := threshold.values ++ [(curTime, value)] }

def release (value : PyFloat) : Threshold :=
  if value.lt threshold.th.lowerValue then { threshold with upperTriggered := false }
  else if threshold.th.upperValue.lt value then { threshold with lowerTriggered := false }
  else threshold

def check (value : PyFloat) : Option What :=
  threshold.values.dropLast.getLast?.bind fun prev =>
    if prev.2.le threshold.th.upperValue && threshold.th.upperValue.lt value &&
        !threshold.upperTriggered then some .upper
    else if threshold.th.lowerValue.le prev.2 && value.lt threshold.th.lowerValue &&
        !threshold.lowerTriggered then some .lower
    else none

def keepLatest : Threshold :=
  { threshold with values := threshold.values.drop (threshold.values.length - valuesToStore) }

def count : Threshold := { threshold with cycle := threshold.cycle + 1 }

def feed (curTime : Rat) (value : PyFloat) : Threshold × Option What :=
  let released := (threshold.count.store curTime value).release value
  let what := released.check value
  ((what.elim released released.trigger).keepLatest, what)

end Threshold

inductive Event where
  | feed (curTime : Rat) (value : PyFloat)
  | update (dbObj : SensorThreshold)
  /-- A trigger by a command. -/
  | byHand (what : What)

namespace Event

def fed : Event -> Option (Rat × PyFloat)
  | feed curTime value => some (curTime, value)
  | _ => none

def newBounds : Event -> Option SensorThreshold
  | update dbObj => some dbObj
  | _ => none

end Event

def lastFed (events : List Event) : Option (Rat × PyFloat) := (events.filterMap Event.fed).getLast?

def boundsAfter (th : SensorThreshold) (events : List Event) : SensorThreshold :=
  ((events.filterMap Event.newBounds).getLast?).getD th

namespace Threshold

def act (threshold : Threshold) : Event -> Threshold × Option What
  | .feed curTime value => threshold.feed curTime value
  | .update dbObj => (threshold.update dbObj, none)
  | .byHand what => (threshold.trigger what, none)

def after (th : SensorThreshold) (events : List Event) : Threshold :=
  run (fun threshold event => (threshold.act event).1) (init th) events

def triggered (th : SensorThreshold) (earlier : List Event) (event : Event) : Option What :=
  ((after th earlier).act event).2

def flag (threshold : Threshold) : What -> Bool
  | .upper => threshold.upperTriggered
  | .lower => threshold.lowerTriggered

end Threshold

namespace SensorThreshold

def beyond (th : SensorThreshold) (value : PyFloat) : What -> Bool
  | .upper => th.upperValue.lt value
  | .lower => value.lt th.lowerValue

/-- The value is not above the upper bound, or not below the lower one. -/
def within (th : SensorThreshold) (value : PyFloat) : What -> Bool
  | .upper => value.le th.upperValue
  | .lower => th.lowerValue.le value

def changed (th dbObj : SensorThreshold) : Bool :=
  th.lowerValue.ne dbObj.lowerValue || th.upperValue.ne dbObj.upperValue

end SensorThreshold

def What.opposite : What -> What
  | .upper => .lower
  | .lower => .upper

/-- The time since the last value is too long. -/
def Gap (last : Option (Rat × PyFloat)) (curTime : Rat) : Prop :=
  exists prev, prev ∈ last ∧ Threshold.maxDiffTime < |prev.1 - curTime|

def Releases (what : What) (th : SensorThreshold) (last : Option (Rat × PyFloat)) : Event -> Prop
  | .feed curTime value => th.beyond value what.opposite = true ∨ Gap last curTime
  | .update dbObj => th.changed dbObj = true
  | .byHand _ => False

/-- Between two automatic triggers of a kind, something has released the flag; and where the flag
is not set, a value that crosses the bound triggers. -/
structure Hysteresis (th : SensorThreshold) (events : List Event) : Prop where
  released : forall earlier first between second later what,
    events = earlier ++ first :: between ++ second :: later ->
      Threshold.triggered th earlier first = some what ->
      Threshold.triggered th (earlier ++ first :: between) second = some what ->
        exists before event rest, between = before ++ event :: rest ∧
          Releases what (boundsAfter th (earlier ++ first :: before))
            (lastFed (earlier ++ first :: before)) event
  crosses : forall earlier curTime value later what prev,
    events = earlier ++ Event.feed curTime value :: later -> lastFed earlier = some prev ->
      ¬ Gap (some prev) curTime -> (boundsAfter th earlier).within prev.2 what = true ->
        (boundsAfter th earlier).beyond value what = true ->
          (Threshold.after th earlier).flag what = false ->
            Threshold.triggered th earlier (Event.feed curTime value) = some what

namespace Threshold

variable {threshold : Threshold} {what : What}

@[simp] theorem th_store (curTime : Rat) (value : PyFloat) :
    (threshold.store curTime value).th = threshold.th := by
  unfold store
  cases threshold.values.getLast? with
  | none => rfl
  | some last =>
    dsimp only
    split <;> rfl

@[simp] theorem th_release (value : PyFloat) : (threshold.release value).th = threshold.th := by
  unfold release
  split
  · rfl
  · split <;> rfl

@[simp] theorem values_release (value : PyFloat) :
    (threshold.release value).values = threshold.values := by
  unfold release
  split
  · rfl
  · split <;> rfl

@[simp] theorem th_elim_trigger (found : Option What) :
    (found.elim threshold threshold.trigger).th = threshold.th := by
  rcases found with _ | ⟨_ | _⟩ <;> rfl

@[simp] theorem values_elim_trigger (found : Option What) :
    (found.elim threshold threshold.trigger).values = threshold.values := by
  rcases found with _ | ⟨_ | _⟩ <;> rfl

theorem th_act (event : Event) :
    (threshold.act event).1.th = event.newBounds.getD threshold.th := by
  cases event with
  | feed curTime value => simp [act, feed, keepLatest, count, Event.newBounds]
  | update dbObj =>
    show (threshold.update dbObj).th = dbObj
    unfold update
    dsimp only
    split <;> rfl
  | byHand what => cases what <;> rfl

theorem getLast?_store (curTime : Rat) (value : PyFloat) :
    (threshold.store curTime value).values.getLast? = some (curTime, value) := by
  unfold store
  cases threshold.values.getLast? with
  | none => rfl
  | some last =>
    dsimp only
    split
    · rfl
    · exact getLast?_concat

theorem getLast?_keepLatest : threshold.keepLatest.values.getLast? = threshold.values.getLast? := by
  by_cases hnil : threshold.values = []
  · show (threshold.values.drop _).getLast? = _
    rw [hnil]
    rfl
  · have hlength := length_pos_iff.mpr hnil
    show (threshold.values.drop _).getLast? = _
    rw [getLast?_drop, if_neg]
    have hstore : valuesToStore = 20 := rfl
    omega

theorem getLast?_act (event : Event) :
    (threshold.act event).1.values.getLast? = event.fed.or threshold.values.getLast? := by
  cases event with
  | feed curTime value =>
    show (keepLatest _).values.getLast? = _
    rw [getLast?_keepLatest, values_elim_trigger, values_release, getLast?_store]
    rfl
  | update dbObj =>
    show (threshold.update dbObj).values.getLast? = _
    unfold update
    dsimp only
    split <;> rfl
  | byHand what => cases what <;> rfl

theorem after_concat (th : SensorThreshold) (events : List Event) (event : Event) :
    after th (events ++ [event]) = ((after th events).act event).1 := by
  unfold after
  rw [run_append]
  rfl

theorem th_after (th : SensorThreshold) (events : List Event) :
    (after th events).th = boundsAfter th events := by
  induction events using reverseRec with
  | nil => rfl
  | append_singleton events event ih =>
    rw [after_concat, th_act, ih]
    unfold boundsAfter
    rw [filterMap_append]
    cases event <;> simp [Event.newBounds]

theorem getLast?_after (th : SensorThreshold) (events : List Event) :
    (after th events).values.getLast? = lastFed events := by
  induction events using reverseRec with
  | nil => rfl
  | append_singleton events event ih =>
    rw [after_concat, getLast?_act, ih]
    unfold lastFed
    rw [filterMap_append]
    cases event <;> simp [Event.fed]

variable {value : PyFloat} {curTime : Rat}

theorem store_of_gap (h : Gap threshold.values.getLast? curTime) :
    (threshold.store curTime value).values = [(curTime, value)] := by
  rcases h with ⟨prev, hprev, hgap⟩
  unfold store
  rw [hprev]
  exact congrArg values (if_pos hgap)

theorem store_of_not_gap (h : ¬ Gap threshold.values.getLast? curTime) :
    threshold.store curTime value =
      { threshold with values := threshold.values ++ [(curTime, value)] } := by
  unfold store
  cases hlast : threshold.values.getLast? with
  | none =>
    rw [getLast?_eq_none_iff.mp hlast]
    rfl
  | some last => exact if_neg fun hgap => h ⟨last, hlast, hgap⟩

theorem check_eq_some (h : threshold.check value = some what) :
    exists prev, prev ∈ threshold.values.dropLast.getLast? ∧
      threshold.th.beyond value what = true ∧ threshold.flag what = false := by
  rcases Option.bind_eq_some_iff.mp h with ⟨prev, hprev, hcheck⟩
  refine ⟨prev, hprev, ?_⟩
  split at hcheck
  · rename_i hupper
    rw [Bool.and_eq_true, Bool.and_eq_true, Bool.not_eq_true'] at hupper
    cases hcheck
    exact ⟨hupper.left.right, hupper.right⟩
  · split at hcheck
    · rename_i hlower
      rw [Bool.and_eq_true, Bool.and_eq_true, Bool.not_eq_true'] at hlower
      cases hcheck
      exact ⟨hlower.left.right, hlower.right⟩
    · cases hcheck

theorem flag_release (h : threshold.th.beyond value what.opposite = false) :
    (threshold.release value).flag what = threshold.flag what := by
  unfold release
  cases what with
  | upper =>
    have hlower : ¬ value.lt threshold.th.lowerValue = true := Bool.eq_false_iff.mp h
    rw [if_neg hlower]
    split <;> rfl
  | lower =>
    have hupper : ¬ threshold.th.upperValue.lt value = true := Bool.eq_false_iff.mp h
    rw [if_neg hupper]
    split <;> rfl

theorem not_beyond_opposite {th : SensorThreshold} (hle : th.lowerValue.le th.upperValue = true)
    (h : th.beyond value what = true) : th.beyond value what.opposite = false := by
  cases what with
  | upper => exact PyFloat.le_trans_lt hle h
  | lower => exact PyFloat.lt_trans_le h hle

theorem flag_elim_trigger (found : Option What) (h : threshold.flag what = true) :
    (found.elim threshold threshold.trigger).flag what = true := by
  rcases found with _ | ⟨_ | _⟩ <;> cases what <;> first | exact h | rfl

theorem flag_trigger : (threshold.trigger what).flag what = true := by
  cases what <;> rfl

@[simp] theorem th_count : threshold.count.th = threshold.th := rfl

@[simp] theorem values_count : threshold.count.values = threshold.values := rfl

@[simp] theorem flag_count : threshold.count.flag what = threshold.flag what := by
  cases what <;> rfl

@[simp] theorem flag_keepLatest : threshold.keepLatest.flag what = threshold.flag what := by
  cases what <;> rfl

theorem flag_store (h : ¬ Gap threshold.values.getLast? curTime) :
    (threshold.store curTime value).flag what = threshold.flag what := by
  rw [store_of_not_gap h]
  cases what <;> rfl

theorem flag_act {event : Event} (h : threshold.flag what = true)
    (hnot : ¬ Releases what threshold.th threshold.values.getLast? event) :
    (threshold.act event).1.flag what = true := by
  cases event with
  | feed curTime value =>
    have hgap : ¬ Gap threshold.count.values.getLast? curTime := fun hgap => hnot (Or.inr hgap)
    have hbeyond : threshold.count.th.beyond value what.opposite = false :=
      Bool.eq_false_iff.mpr fun hbeyond => hnot (Or.inl hbeyond)
    show (keepLatest _).flag what = true
    rw [flag_keepLatest]
    apply flag_elim_trigger
    rw [flag_release (by rw [th_store]; exact hbeyond), flag_store hgap, flag_count]
    exact h
  | update dbObj =>
    have hsame : ¬ (threshold.th.lowerValue.ne dbObj.lowerValue ||
      threshold.th.upperValue.ne dbObj.upperValue) = true := hnot
    show (threshold.update dbObj).flag what = true
    unfold update
    dsimp only
    rw [if_neg hsame]
    cases what <;> exact h
  | byHand found => exact flag_elim_trigger (some found) h

theorem flag_of_triggered {event : Event}
    (hle : threshold.th.lowerValue.le threshold.th.upperValue = true)
    (h : (threshold.act event).2 = some what) :
    threshold.flag what = false ∧ (threshold.act event).1.flag what = true := by
  cases event with
  | feed curTime value =>
    have hcheck : check ((threshold.count.store curTime value).release value) value = some what := h
    rcases check_eq_some hcheck with ⟨prev, hprev, hbeyond, hflag⟩
    rw [th_release, th_store] at hbeyond
    rw [values_release] at hprev
    have hgap : ¬ Gap threshold.count.values.getLast? curTime := by
      intro hgap
      rw [store_of_gap hgap] at hprev
      cases hprev
    rw [flag_release (by rw [th_store]; exact not_beyond_opposite hle hbeyond), flag_store hgap,
      flag_count] at hflag
    refine ⟨hflag, ?_⟩
    show (keepLatest ((check _ value).elim _ _)).flag what = true
    rw [hcheck, flag_keepLatest]
    exact flag_trigger
  | update dbObj => cases h
  | byHand found => cases h

theorem triggered_of_crossing {prev : Rat × PyFloat}
    (hle : threshold.th.lowerValue.le threshold.th.upperValue = true)
    (hlast : threshold.values.getLast? = some prev) (hgap : ¬ Gap (some prev) curTime)
    (hwithin : threshold.th.within prev.2 what = true)
    (hbeyond : threshold.th.beyond value what = true) (hflag : threshold.flag what = false) :
    (threshold.act (.feed curTime value)).2 = some what := by
  have hopposite := not_beyond_opposite hle hbeyond
  have hnot : ¬ Gap threshold.count.values.getLast? curTime := by
    rw [values_count, hlast]
    exact hgap
  have hreleased : ((threshold.count.store curTime value).release value).flag what = false := by
    rw [flag_release (by rw [th_store]; exact hopposite), flag_store hnot, flag_count]
    exact hflag
  have hprev : ((threshold.count.store curTime value).release value).values.dropLast.getLast? =
      some prev := by
    rw [values_release, store_of_not_gap hnot]
    show (threshold.values ++ [(curTime, value)]).dropLast.getLast? = some prev
    rw [dropLast_concat]
    exact hlast
  show check ((threshold.count.store curTime value).release value) value = some what
  unfold check
  rw [hprev, th_release, th_store]
  cases what with
  | upper =>
    apply if_pos
    rw [Bool.and_eq_true, Bool.and_eq_true, Bool.not_eq_true']
    exact ⟨⟨hwithin, hbeyond⟩, hreleased⟩
  | lower =>
    apply (if_neg _).trans (if_pos _)
    · rw [Bool.and_eq_true, Bool.and_eq_true]
      intro hupper
      exact Bool.eq_false_iff.mp hopposite hupper.left.right
    · rw [Bool.and_eq_true, Bool.and_eq_true, Bool.not_eq_true']
      exact ⟨⟨hwithin, hbeyond⟩, hreleased⟩

theorem exists_release {th : SensorThreshold} {earlier between : List Event}
    (hset : (after th earlier).flag what = true)
    (hunset : (after th (earlier ++ between)).flag what = false) :
    exists before event rest, between = before ++ event :: rest ∧
      Releases what (boundsAfter th (earlier ++ before)) (lastFed (earlier ++ before)) event := by
  induction between using reverseRec with
  | nil =>
    rw [append_nil, hset] at hunset
    cases hunset
  | append_singleton between event ih =>
    cases hflag : (after th (earlier ++ between)).flag what with
    | false =>
      rcases ih hflag with ⟨before, released, rest, hbetween, hreleases⟩
      exact ⟨before, released, rest ++ [event], by rw [hbetween]; simp, hreleases⟩
    | true =>
      refine ⟨between, event, [], rfl, ?_⟩
      by_contra hnot
      rw [← th_after, ← getLast?_after] at hnot
      rw [← append_assoc, after_concat, flag_act hflag hnot] at hunset
      cases hunset

end Threshold

def Ordered (th : SensorThreshold) (events : List Event) : Prop :=
  forall earlier later, events = earlier ++ later ->
    (boundsAfter th earlier).lowerValue.le (boundsAfter th earlier).upperValue = true

/-- Whatever is fed and however the bounds change, a threshold has the hysteresis. -/
theorem hysteresis {th : SensorThreshold} {events : List Event} (h : Ordered th events) :
    Hysteresis th events := by
  constructor
  · rintro earlier first between second later what heq hfirst hsecond
    have hset : (Threshold.after th (earlier ++ [first])).flag what = true := by
      rw [Threshold.after_concat]
      refine (Threshold.flag_of_triggered ?_ hfirst).right
      rw [Threshold.th_after]
      exact h earlier (first :: between ++ second :: later) (by rw [heq]; simp)
    have hunset : (Threshold.after th (earlier ++ [first] ++ between)).flag what = false := by
      have hsplit : earlier ++ [first] ++ between = earlier ++ first :: between := by simp
      rw [hsplit]
      refine (Threshold.flag_of_triggered ?_ hsecond).left
      rw [Threshold.th_after]
      exact h (earlier ++ first :: between) (second :: later) heq
    rcases Threshold.exists_release hset hunset with ⟨before, event, rest, hbetween, hreleases⟩
    refine ⟨before, event, rest, hbetween, ?_⟩
    have hsplit : earlier ++ [first] ++ before = earlier ++ first :: before := by simp
    rw [hsplit] at hreleases
    exact hreleases
  · intro earlier curTime value later what prev heq hlast hgap hwithin hbeyond hflag
    have hle := h earlier _ heq
    rw [← Threshold.th_after] at hle hwithin hbeyond
    exact Threshold.triggered_of_crossing hle ((Threshold.getLast?_after th earlier).trans hlast) hgap
      hwithin hbeyond hflag

/-- A value that is high twice triggers twice, as it has been low in between. -/
theorem hysteresis_high_low_high :
    Hysteresis ⟨.finite 1, .finite 2⟩ [.feed 0 (.finite 1), .feed 1 (.finite 3), .feed 2 (.finite 0),
      .feed 3 (.finite 3)] := by
  apply hysteresis
  intro earlier later heq
  have hnone : earlier.filterMap Event.newBounds = [] := by
    have hall : ([.feed 0 (.finite 1), .feed 1 (.finite 3), .feed 2 (.finite 0),
        .feed 3 (.finite 3)] : List Event).filterMap Event.newBounds = [] := rfl
    rw [heq, filterMap_append] at hall
    exact (append_eq_nil_iff.mp hall).left
  unfold boundsAfter
  rw [hnone]
  decide

end Icsw.Monitoring
