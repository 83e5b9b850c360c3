import Mathlib.Data.List.Basic

/-!
# Runs of a step function

A run is the state reached by a list of actions.  What every admissible step
keeps, every admissible run keeps, after each of its actions.
-/

namespace Icsw.Foundation

variable {S A : Type} (step : S -> A -> S)

def run (state : S) (actions : List A) : S := actions.foldl step state

@[simp] theorem run_nil (state : S) : run step state [] = state := rfl

@[simp] theorem run_cons (state : S) (action : A) (rest : List A) :
    run step state (action :: rest) = run step (step state action) rest := rfl

theorem run_append (state : S) (first second : List A) :
    run step state (first ++ second) = run step (run step state first) second :=
  List.foldl_append

def Along (ok : S -> A -> Prop) : S -> List A -> Prop
  | _, [] => True
  | state, action :: rest => ok state action ∧ Along ok (step state action) rest

instance decidableAlong {ok : S -> A -> Prop} [forall state action, Decidable (ok state action)]
    (state : S) (actions : List A) : Decidable (Along step ok state actions) :=
  match actions with
  | [] => isTrue trivial
  | action :: rest =>
    have : Decidable (Along step ok (step state action) rest) :=
      decidableAlong (step state action) rest
    inferInstanceAs (Decidable (_ ∧ _))

variable {state : S} {ok : S -> A -> Prop}

theorem along_append {first second : List A} :
    Along step ok state (first ++ second) <->
      Along step ok state first ∧ Along step ok (run step state first) second := by
  induction first generalizing state with
  | nil => simp [Along]
  | cons action rest ih => simp [Along, ih, and_assoc]

variable {actions : List A}

theorem along_and {ok ok' : S -> A -> Prop}
    (h : Along step ok state actions) (h' : Along step ok' state actions) :
    Along step (fun state action => ok state action ∧ ok' state action) state actions := by
  induction actions generalizing state with
  | nil => trivial
  | cons action rest ih => exact ⟨⟨h.left, h'.left⟩, ih h.right h'.right⟩

variable {inv : S -> Prop}

/-- Two conditions that come to the same where the invariant holds. -/
theorem along_iff_of_invariant {ok ok' : S -> A -> Prop}
    (hiff : forall state action, inv state -> (ok state action <-> ok' state action))
    (hstep : forall state action, inv state -> ok state action -> inv (step state action))
    (hinv : inv state) (actions : List A) :
    Along step ok state actions <-> Along step ok' state actions := by
  induction actions generalizing state with
  | nil => exact Iff.rfl
  | cons action rest ih =>
    constructor
    · intro h
      exact ⟨(hiff state action hinv).mp h.left, (ih (hstep state action hinv h.left)).mp h.right⟩
    · intro h
      have hok := (hiff state action hinv).mpr h.left
      exact ⟨hok, (ih (hstep state action hinv hok)).mpr h.right⟩

/-- What holds of each admissible step where the invariant does, holds along the run. -/
theorem along_of_invariant {ok ok' : S -> A -> Prop}
    (h : forall state action, inv state -> ok state action ->
      inv (step state action) ∧ ok' state action) (hinv : inv state)
    (hok : Along step ok state actions) : Along step ok' state actions := by
  induction actions generalizing state with
  | nil => trivial
  | cons action rest ih =>
    rcases h state action hinv hok.left with ⟨hnext, hgood⟩
    exact ⟨hgood, ih hnext hok.right⟩

theorem invariant_run
    (hstep : forall state action, inv state -> ok state action -> inv (step state action))
    (hinv : inv state) (hok : Along step ok state actions) :
    inv (run step state actions) := by
  induction actions generalizing state with
  | nil => exact hinv
  | cons action rest ih => exact ih (hstep state action hinv hok.left) hok.right

theorem invariant_of_step (hstep : forall state action, inv state -> inv (step state action))
    (hinv : inv state) (actions : List A) : inv (run step state actions) := by
  induction actions generalizing state with
  | nil => exact hinv
  | cons action rest ih => exact ih (hstep state action hinv)

/-- The invariant holds after every part of an admissible run. -/
theorem invariant_reached
    (hstep : forall state action, inv state -> ok state action -> inv (step state action))
    (hinv : inv state) {taken rest : List A}
    (hok : Along step ok state (taken ++ rest)) : inv (run step state taken) :=
  invariant_run step hstep hinv ((along_append step).mp hok).left

/--
Where an inadmissible step leaves what is good, the runs that stay in it are the admissible ones,
among those with allowed actions.
-/
theorem reached_iff_along_allowed {allowed ok : S -> A -> Prop} {inv good : S -> Prop}
    (hstep : forall state action, inv state -> allowed state action -> ok state action ->
      inv (step state action)) (hgood : forall state, inv state -> good state)
    (hbad : forall state action, inv state -> allowed state action -> ¬ ok state action ->
      ¬ good (step state action)) (hinv : inv state) (hallowed : Along step allowed state actions) :
    (forall taken rest, actions = taken ++ rest -> good (run step state taken)) <->
      Along step ok state actions := by
  constructor
  · intro hreached
    induction actions generalizing state with
    | nil => trivial
    | cons action rest ih =>
      have hok : ok state action := by
        by_contra hnot
        exact hbad state action hinv hallowed.left hnot (hreached [action] rest rfl)
      refine ⟨hok, ih (hstep state action hinv hallowed.left hok) hallowed.right ?_⟩
      intro taken left heq
      exact hreached (action :: taken) left (by rw [heq]; rfl)
  · rintro hok taken rest rfl
    exact hgood _ (invariant_reached step (fun state action hheld hboth =>
      hstep state action hheld hboth.left hboth.right) hinv (along_and step hallowed hok))

theorem along_trivial (state : S) (actions : List A) :
    Along step (fun _ _ => True) state actions := by
  induction actions generalizing state with
  | nil => trivial
  | cons action rest ih => exact ⟨trivial, ih _⟩

theorem reached_iff_along {inv good : S -> Prop}
    (hstep : forall state action, inv state -> ok state action -> inv (step state action))
    (hgood : forall state, inv state -> good state)
    (hbad : forall state action, inv state -> ¬ ok state action -> ¬ good (step state action))
    (hinv : inv state) (actions : List A) :
    (forall taken rest, actions = taken ++ rest -> good (run step state taken)) <->
      Along step ok state actions :=
  reached_iff_along_allowed step (fun state action hheld _ => hstep state action hheld) hgood
    (fun state action hheld _ => hbad state action hheld) hinv (along_trivial step state actions)

end Icsw.Foundation
