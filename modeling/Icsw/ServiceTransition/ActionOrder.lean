import Icsw.Foundation.Expiring
import Icsw.Foundation.PausedQueue
import Icsw.ServiceTransition.Model

/-!
# The order of the actions

Seen by one service a scan is a pass through a queue with a pause, whatever the other services do.
So the actions come in the order in which they have been decided, unless the wait time ends between
the readings for two actions of one service.
-/

namespace Icsw.ServiceTransition

open Foundation List
open ExpiringLock (concat_eq_append_cons)
open PausedQueue

def executedFor (name : Text) (mark : Mark) : Option Action :=
  match mark with
  | .executed other action _ => if other = name then some action else none
  | .vanished _ => none

def executedOf (name : Text) (log : List Mark) : List Action :=
  log.filterMap (executedFor name)

def concerns (name : Text) (entry : Action × Service) : Bool := decide (entry.2.name = name)

def pendingOf (name : Text) (entries : List (Action × Service)) : List Action :=
  (entries.filter (concerns name)).map Prod.fst

variable (env : TransitionEnv)

/-- After its wait nothing is executed for a service before its processes have vanished or its wait
time has passed. -/
def Waited (log : List Mark) : Prop :=
  forall service, service ∈ env.list ->
    forall earlier action time later,
      log = earlier ++ .executed service.name action time :: later ->
        forall before since between,
          earlier = before ++ .executed service.name .wait since :: between ->
            time < since + waitTime env service -> .vanished service.name ∈ between

/-- The actions that are left for a service, each with the time that the next scan reads for it. -/
def timesOf (env : TransitionEnv) (name : Text) :
    Nat -> List (Action × Service) -> List (Action × Int)
  | _, [] => []
  | reading, entry :: rest =>
    if entry.2.name = name then (entry.1, env.clock reading) :: timesOf env name (reading + 1) rest
    else timesOf env name (reading + 1) rest

def CutByTimeout (st : TransitionState) (service : Service) : Prop :=
  Cut .wait (waitTime env service) (st.waitDict service.name)
    (timesOf env service.name st.readings st.actionList)

def queueOf (st : TransitionState) (name : Text) : Queue Action where
  since := st.waitDict name
  kept := pendingOf name st.actionList
  served := executedOf name st.log

section Queues

variable {env : TransitionEnv} {name : Text}

theorem executedOf_append (log marks : List Mark) :
    executedOf name (log ++ marks) = executedOf name log ++ executedOf name marks :=
  filterMap_append

theorem executedOf_self (action : Action) (time : Int) :
    executedOf name [.executed name action time] = [action] := by
  have hmark : executedFor name (.executed name action time) = some action := if_pos rfl
  rw [executedOf, filterMap_cons_some hmark, filterMap_nil]

theorem executedOf_other {other : Text} (h : other ≠ name) (action : Action) (time : Int) :
    executedOf name [.executed other action time] = [] := by
  have hmark : executedFor name (.executed other action time) = none := if_neg h
  rw [executedOf, filterMap_cons_none hmark, filterMap_nil]

theorem executedOf_vanished (services : List Service) :
    executedOf name (services.map fun service => .vanished service.name) = [] := by
  rw [executedOf, filterMap_eq_nil_iff]
  intro mark hmark
  rcases mem_map.mp hmark with ⟨service, _, rfl⟩
  rfl

variable {entry : Action × Service}

theorem pendingOf_cons_self (h : entry.2.name = name) (rest : List (Action × Service)) :
    pendingOf name (entry :: rest) = entry.1 :: pendingOf name rest := by
  have hmine : concerns name entry = true := decide_eq_true h
  rw [pendingOf, filter_cons_of_pos hmine, map_cons]
  rfl

theorem pendingOf_cons_other (h : entry.2.name ≠ name)
    (rest : List (Action × Service)) : pendingOf name (entry :: rest) = pendingOf name rest := by
  have hnot : ¬ concerns name entry = true := fun hsame => h (of_decide_eq_true hsame)
  rw [pendingOf, filter_cons_of_neg hnot]
  rfl

theorem pendingOf_append (first later : List (Action × Service)) :
    pendingOf name (first ++ later) = pendingOf name first ++ pendingOf name later := by
  rw [pendingOf, filter_append, map_append]
  rfl

theorem timesOf_cons_self (h : entry.2.name = name) (reading : Nat)
    (rest : List (Action × Service)) :
    timesOf env name reading (entry :: rest) =
      (entry.1, env.clock reading) :: timesOf env name (reading + 1) rest := if_pos h

theorem timesOf_cons_other (h : entry.2.name ≠ name) (reading : Nat)
    (rest : List (Action × Service)) :
    timesOf env name reading (entry :: rest) = timesOf env name (reading + 1) rest := if_neg h

theorem map_timesOf (reading : Nat) (entries : List (Action × Service)) :
    (timesOf env name reading entries).map Prod.fst = pendingOf name entries := by
  induction entries generalizing reading with
  | nil => rfl
  | cons entry rest ih =>
    by_cases hname : entry.2.name = name
    · rw [timesOf_cons_self hname, map_cons, ih, pendingOf_cons_self hname]
    · rw [timesOf_cons_other hname, ih, pendingOf_cons_other hname]

def executedNow (st : TransitionState) (entry : Action × Service) (curTime : Int)
    (since : Option Int) : Queue Action where
  since := if entry.1 = .wait then some curTime else since
  kept := pendingOf entry.2.name st.actionList
  served := executedOf entry.2.name st.log ++ [entry.1]

theorem queueOf_execute_self (entry : Action × Service) (curTime : Int) (st : TransitionState) :
    queueOf (execute entry curTime st) entry.2.name =
      executedNow st entry curTime (st.waitDict entry.2.name) := by
  rw [queueOf, waitDict_execute_self, actionList_execute, log_execute, executedOf_append,
    executedOf_self]
  rfl

theorem queueOf_execute_other (h : name ≠ entry.2.name) (curTime : Int) (st : TransitionState) :
    queueOf (execute entry curTime st) name = queueOf st name := by
  rw [queueOf, waitDict_execute_other entry curTime st h, actionList_execute, log_execute,
    executedOf_append, executedOf_other (Ne.symm h), append_nil]
  rfl

theorem queueOf_scanEntry_self (st : TransitionState) (entry : Action × Service) :
    queueOf (scanEntry env st entry) entry.2.name =
      serve .wait (waitTime env entry.2) (queueOf st entry.2.name)
        (entry.1, env.clock st.readings) := by
  cases hsince : st.waitDict entry.2.name with
  | none =>
    have hfree : (queueOf st entry.2.name).since = none := hsince
    rw [scanEntry_free hsince, queueOf_execute_self, serve_free hfree]
    exact congrArg (executedNow st entry (env.clock st.readings)) hsince
  | some since =>
    have hwaits : (queueOf st entry.2.name).since = some since := hsince
    by_cases hpaused : |env.clock st.readings - since| < waitTime env entry.2
    · have hkept : ¬ PauseOver (waitTime env entry.2) since (env.clock st.readings) :=
        not_pauseOver.mpr hpaused
      rw [scanEntry_kept hsince hpaused, serve_paused hwaits (entry.1, env.clock st.readings) hkept]
      unfold queueOf
      rw [pendingOf_append, pendingOf_cons_self rfl]
      rfl
    · rw [scanEntry_over hsince hpaused, queueOf_execute_self, serve_over hwaits (entry.1, env.clock st.readings) hpaused]
      exact congrArg (executedNow st entry (env.clock st.readings)) (Function.update_self _ _ _)

theorem queueOf_scanEntry_other (h : name ≠ entry.2.name)
    (st : TransitionState) : queueOf (scanEntry env st entry) name = queueOf st name := by
  cases hsince : st.waitDict entry.2.name with
  | none =>
    rw [scanEntry_free hsince, queueOf_execute_other h]
    rfl
  | some since =>
    by_cases hpaused : |env.clock st.readings - since| < waitTime env entry.2
    · rw [scanEntry_kept hsince hpaused]
      unfold queueOf
      rw [pendingOf_append, pendingOf_cons_other (Ne.symm h)]
      exact congrArg (Queue.mk (st.waitDict name) · (executedOf name st.log)) (append_nil _)
    · rw [scanEntry_over hsince hpaused, queueOf_execute_other h]
      exact congrArg
        (Queue.mk · (pendingOf name st.actionList) (executedOf name st.log))
        (Function.update_of_ne h none st.waitDict)

theorem queueOf_foldl {limit : Int} (entries : List (Action × Service)) (st : TransitionState)
    (h : forall entry, entry ∈ entries -> entry.2.name = name -> waitTime env entry.2 = limit) :
    queueOf (entries.foldl (scanEntry env) st) name =
      pass .wait limit (queueOf st name) (timesOf env name st.readings entries) := by
  induction entries generalizing st with
  | nil => rfl
  | cons entry rest ih =>
    have hrest := ih (scanEntry env st entry) fun later hmem =>
      h later (mem_cons_of_mem _ hmem)
    rw [foldl_cons, hrest, readings_scanEntry]
    by_cases hname : entry.2.name = name
    · rw [timesOf_cons_self hname, pass_cons, ← h entry mem_cons_self hname]
      subst hname
      rw [queueOf_scanEntry_self]
    · rw [timesOf_cons_other hname, queueOf_scanEntry_other (Ne.symm hname)]

end Queues

section Times

variable {env : TransitionEnv} {name : Text}

theorem clock_le_of_mem_timesOf {reading : Nat} {entries : List (Action × Service)}
    {item : Action × Int} (h : item ∈ timesOf env name reading entries) :
    env.clock reading ≤ item.2 := by
  induction entries generalizing reading with
  | nil => cases h
  | cons entry rest ih =>
    by_cases hname : entry.2.name = name
    · rw [timesOf_cons_self hname] at h
      rcases mem_cons.mp h with rfl | hrest
      · exact le_refl _
      · exact (env.nonDecreasing reading).trans (ih hrest)
    · rw [timesOf_cons_other hname] at h
      exact (env.nonDecreasing reading).trans (ih h)

theorem pairwise_timesOf (reading : Nat) (entries : List (Action × Service)) :
    (timesOf env name reading entries).Pairwise fun item later => item.2 ≤ later.2 := by
  induction entries generalizing reading with
  | nil => exact Pairwise.nil
  | cons entry rest ih =>
    by_cases hname : entry.2.name = name
    · rw [timesOf_cons_self hname]
      refine Pairwise.cons ?_ (ih (reading + 1))
      intro later hlater
      exact (env.nonDecreasing reading).trans (clock_le_of_mem_timesOf hlater)
    · rw [timesOf_cons_other hname]
      exact ih (reading + 1)

end Times

/--
Entries belong to services of the transition, a wait has begun in the past, and each executed wait
goes on, or its processes or its time are over.
-/
structure Sound (env : TransitionEnv) (st : TransitionState) : Prop where
  known : forall entry, entry ∈ st.actionList -> entry.2 ∈ env.list
  begun : forall name since, st.waitDict name = some since -> since ≤ env.clock st.readings
  waited : Waited env st.log
  held : forall service, service ∈ env.list ->
    forall before since after, st.log = before ++ .executed service.name .wait since :: after ->
      st.waitDict service.name = some since ∨ .vanished service.name ∈ after ∨
        since + waitTime env service ≤ env.clock st.readings

section Scanning

variable {env : TransitionEnv} {st : TransitionState}

theorem eq_of_name_eq {first second : Service} (hfirst : first ∈ env.list)
    (hsecond : second ∈ env.list) (h : first.name = second.name) : first = second :=
  inj_on_of_nodup_map env.distinct hfirst hsecond h

section

variable (h : Sound env st)
include h

theorem Sound.kept {entry : Action × Service} (hentry : entry.2 ∈ env.list) :
    Sound env { st with
      actionList := st.actionList ++ [entry]
      readings := st.readings + 1 } where
  known := by
    intro other hmem
    rcases mem_append.mp hmem with hold | hnew
    · exact h.known other hold
    · rw [mem_singleton.mp hnew]
      exact hentry
  begun name since hsince := (h.begun name since hsince).trans (env.nonDecreasing _)
  waited := h.waited
  held service hservice before since after hlog :=
    (h.held service hservice before since after hlog).imp_right fun hlater =>
      hlater.imp_right (·.trans (env.nonDecreasing _))

theorem Sound.executed {entry : Action × Service} (hentry : entry.2 ∈ env.list)
    {dict : Text -> Option Int} (hfree : dict entry.2.name = none)
    (hothers : forall name, name ≠ entry.2.name -> dict name = st.waitDict name)
    (hpassed : forall since, st.waitDict entry.2.name = some since ->
      since + waitTime env entry.2 ≤ env.clock st.readings) :
    Sound env (execute entry (env.clock st.readings)
      { st with
        waitDict := dict
        readings := st.readings + 1 }) where
  known := h.known
  begun := by
    intro name since hsince
    rw [readings_execute]
    rcases eq_or_ne name entry.2.name with rfl | hname
    · rw [waitDict_execute_self] at hsince
      split at hsince
      · rw [← Option.some.inj hsince]
        exact env.nonDecreasing _
      · cases hfree.symm.trans hsince
    · rw [waitDict_execute_other _ _ _ hname] at hsince
      have hbegun := h.begun name since ((hothers name hname).symm.trans hsince)
      exact hbegun.trans (env.nonDecreasing _)
  waited := by
    intro service hservice earlier action time later hlog before since between hearlier hsoon
    rcases concat_eq_append_cons hlog with ⟨rfl, hsame, _⟩ | ⟨later', _, hold⟩
    · injection hsame with hname _ htime
      have hentry' : service = entry.2 := eq_of_name_eq hservice hentry hname
      subst hentry'
      rcases h.held entry.2 hservice before since between hearlier with hwaits | hgone | hpast
      · have hover := hpassed since hwaits
        omega
      · exact hgone
      · omega
    · exact h.waited service hservice earlier action time later' hold before since between hearlier
        hsoon
  held := by
    intro service hservice before since after hlog
    rw [readings_execute]
    rcases concat_eq_append_cons hlog with ⟨_, hsame, _⟩ | ⟨after', rfl, hold⟩
    · injection hsame with hname haction htime
      left
      rw [hname, waitDict_execute_self, if_pos haction.symm, htime]
    · rcases h.held service hservice before since after' hold with hwaits | hgone | hpast
      · rcases eq_or_ne service.name entry.2.name with hname | hname
        · have hentry' : service = entry.2 := eq_of_name_eq hservice hentry hname
          subst hentry'
          exact Or.inr (Or.inr ((hpassed since hwaits).trans (env.nonDecreasing _)))
        · left
          rw [waitDict_execute_other _ _ _ hname]
          exact (hothers service.name hname).trans hwaits
      · exact Or.inr (Or.inl (mem_append_left _ hgone))
      · exact Or.inr (Or.inr (hpast.trans (env.nonDecreasing _)))

theorem Sound.scanEntry {entry : Action × Service}
    (hentry : entry.2 ∈ env.list) : Sound env (scanEntry env st entry) := by
  cases hsince : st.waitDict entry.2.name with
  | none =>
    rw [scanEntry_free hsince]
    refine h.executed hentry hsince (fun _ _ => rfl) ?_
    intro since hsome
    rw [hsince] at hsome
    cases hsome
  | some since =>
    by_cases hpaused : |env.clock st.readings - since| < waitTime env entry.2
    · rw [scanEntry_kept hsince hpaused]
      exact h.kept hentry
    · rw [scanEntry_over hsince hpaused]
      refine h.executed hentry (Function.update_self _ _ _)
        (fun name hname => Function.update_of_ne hname _ _) ?_
      intro since' hsome
      rw [hsince] at hsome
      rw [← Option.some.inj hsome]
      exact (pauseOver_iff (h.begun _ _ hsince)).mp hpaused

theorem Sound.foldl {entries : List (Action × Service)}
    (hentries : forall entry, entry ∈ entries -> entry.2 ∈ env.list) :
    Sound env (entries.foldl (ServiceTransition.scanEntry env) st) := by
  induction entries generalizing st with
  | nil => exact h
  | cons entry rest ih =>
    rw [foldl_cons]
    exact ih (h.scanEntry (hentries entry mem_cons_self))
      fun later hmem => hentries later (mem_cons_of_mem _ hmem)

theorem Sound.scan : Sound env (scan env st) := by
  have hempty : Sound env { st with actionList := [] } :=
    { known := fun _ hmem => absurd hmem not_mem_nil
      begun := h.begun
      waited := h.waited
      held := h.held }
  exact hempty.foldl h.known

end

theorem append_eq_append_cons {α : Type} {items added before after : List α} {item : α}
    (h : items ++ added = before ++ item :: after) (hitem : item ∉ added) :
    exists after', after = after' ++ added ∧ items = before ++ item :: after' := by
  rcases append_eq_append_iff.mp h with ⟨between, _, hadded⟩ | ⟨between, hitems, hrest⟩
  · rw [hadded] at hitem
    exact absurd (mem_append_right between mem_cons_self) hitem
  · cases between with
    | nil =>
      rw [nil_append] at hrest
      rw [← hrest] at hitem
      exact absurd mem_cons_self hitem
    | cons first rest =>
      injection hrest with hfirst hafter
      exact ⟨rest, hafter, by rw [hitems, hfirst]⟩

theorem executed_not_mem_vanished (name : Text) (action : Action) (time : Int)
    (services : List Service) :
    .executed name action time ∉ services.map fun service => Mark.vanished service.name := by
  intro hmem
  rcases mem_map.mp hmem with ⟨service, _, hmark⟩
  cases hmark

theorem Sound.checkWaiting (h : Sound env st) : Sound env (checkWaiting env st) where
  known := h.known
  begun := by
    intro name since hsince
    rcases waitDict_checkWaiting env st name with hnone | hsame
    · rw [hnone] at hsince
      cases hsince
    · rw [hsame] at hsince
      exact h.begun name since hsince
  waited := by
    intro service hservice earlier action time later hlog before since between hearlier hsoon
    rcases append_eq_append_cons hlog (executed_not_mem_vanished _ _ _ _) with ⟨later', _, hold⟩
    exact h.waited service hservice earlier action time later' hold before since between hearlier
      hsoon
  held := by
    intro service hservice before since after hlog
    rcases append_eq_append_cons hlog (executed_not_mem_vanished _ _ _ _) with ⟨after', rfl, hold⟩
    rcases h.held service hservice before since after' hold with hwaits | hgone | hpast
    · by_cases hvanished : service.name ∈ (vanishing env st).map Service.name
      · rcases mem_map.mp hvanished with ⟨other, hother, hname⟩
        exact Or.inr (Or.inl (mem_append_right _
          (mem_map.mpr ⟨other, hother, congrArg Mark.vanished hname⟩)))
      · exact Or.inl ((if_neg hvanished).trans hwaits)
    · exact Or.inr (Or.inl (mem_append_left _ hgone))
    · exact Or.inr (Or.inr hpast)

end Scanning

structure InOrder (env : TransitionEnv) (st : TransitionState) (service : Service) : Prop where
  whole : executedOf service.name st.log ++ pendingOf service.name st.actionList =
    decided env service
  opened : st.waitDict service.name ≠ none -> .wait ∈ executedOf service.name st.log

section Order

variable {env : TransitionEnv} {st : TransitionState} {service : Service}

theorem queueOf_scan (h : Sound env st) (hservice : service ∈ env.list) :
    queueOf (scan env st) service.name =
      pass .wait (waitTime env service)
        ⟨st.waitDict service.name, [], executedOf service.name st.log⟩
        (timesOf env service.name st.readings st.actionList) := by
  refine queueOf_foldl st.actionList { st with actionList := [] } ?_
  intro entry hmem hname
  rw [eq_of_name_eq (h.known entry hmem) hservice hname]

theorem InOrder.ready (h : InOrder env st service) (hsound : Sound env st) :
    Ready .wait (st.waitDict service.name) (executedOf service.name st.log)
      (timesOf env service.name st.readings st.actionList) where
  nodup := by
    rw [map_timesOf, h.whole]
    exact nodup_decide _ _
  opened := h.opened
  times := pairwise_timesOf _ _
  started start hstart item hitem :=
    (hsound.begun service.name start hstart).trans (clock_le_of_mem_timesOf hitem)

theorem executedOf_checkWaiting (name : Text) :
    executedOf name (checkWaiting env st).log = executedOf name st.log := by
  show executedOf name (st.log ++ _) = _
  rw [executedOf_append, executedOf_vanished, append_nil]

theorem InOrder.round (h : InOrder env st service) (hsound : Sound env st)
    (hservice : service ∈ env.list) (hcut : ¬ CutByTimeout env st service) :
    InOrder env (round env st) service := by
  have hscan := queueOf_scan hsound hservice
  have hready := h.ready hsound
  constructor
  · have horder := pass_in_order hready hcut
    rw [← hscan, map_timesOf, h.whole] at horder
    unfold ServiceTransition.round
    rw [executedOf_checkWaiting]
    exact horder
  · intro hwaits
    have hopened := pass_opened (waitTime env service) hready
    rw [← hscan] at hopened
    unfold ServiceTransition.round at hwaits ⊢
    rw [executedOf_checkWaiting]
    apply hopened
    rcases waitDict_checkWaiting env (scan env st) service.name with hnone | hsame
    · exact absurd hnone hwaits
    · rw [hsame] at hwaits
      exact hwaits

end Order

def monitor : Service where
  name := ['m', 'o', 'n', 'i', 't', 'o', 'r']
  waitTime := 10

end Icsw.ServiceTransition
