import Icsw.Foundation.Python

/-!
# Programs with a state

A method changes the state of its object and may raise.  What it changed before
it raised stays changed, so a statement about a program covers both outcomes.
-/

namespace Icsw.Foundation

open List

abbrev Program (σ α : Type) := EStateM PyError σ α

variable {σ α β : Type}

/-- Dictionary access that raises for a missing key. -/
def lookupKey {κ : Type} (dict : κ -> Option α) (key : κ) : Program σ α :=
  match dict key with
  | some value => pure value
  | none => throw .keyError

/-- A check that changes nothing and may raise. -/
def check (result : Except PyError Unit) : Program σ PUnit :=
  match result with
  | .ok _ => pure ⟨⟩
  | .error raised => throw raised

/-- A computation that changes nothing and may raise. -/
def computed (result : Except PyError α) : Program σ α :=
  match result with
  | .ok value => pure value
  | .error raised => throw raised

def Program.after (program : Program σ α) (state : σ) : σ :=
  match program state with
  | .ok _ next => next
  | .error _ next => next

theorem bind_apply (first : Program σ α) (next : α -> Program σ β) (state : σ) :
    (first >>= next) state =
      match first state with
      | .ok value between => next value between
      | .error raised between => .error raised between := by
  show EStateM.bind first next state = _
  unfold EStateM.bind
  cases first state with
  | ok value between => rfl
  | error raised between => rfl

theorem if_apply {c : Prop} [Decidable c] (yes no : Program σ α) (state : σ) :
    (if c then yes else no) state = if c then yes state else no state := by
  by_cases hc : c
  · rw [if_pos hc, if_pos hc]
  · rw [if_neg hc, if_neg hc]

theorem pure_apply (value : α) (state : σ) :
    (pure value : Program σ α) state = .ok value state := rfl

theorem throw_apply (raised : PyError) (state : σ) :
    (throw raised : Program σ α) state = .error raised state := rfl

theorem get_apply (state : σ) : (get : Program σ σ) state = .ok state state := rfl

theorem set_apply (new state : σ) : (set new : Program σ PUnit) state = .ok ⟨⟩ new := rfl

theorem modify_apply (change : σ -> σ) (state : σ) :
    (modify change : Program σ PUnit) state = .ok ⟨⟩ (change state) := rfl

variable {κ : Type}

theorem lookupKey_apply (dict : κ -> Option α) (key : κ) (state : σ) :
    lookupKey dict key state =
      match dict key with
      | some value => .ok value state
      | none => .error .keyError state := by
  unfold lookupKey
  cases dict key with
  | some value => rfl
  | none => rfl

theorem check_ok (state : σ) : check (.ok ()) state = .ok ⟨⟩ state := rfl

/--
A program keeps the invariant, also where it raises, and the value it returns is
as stated.
-/
def Keeps (inv : σ -> Prop) (program : Program σ α) (post : α -> Prop) : Prop :=
  forall state, inv state ->
    match program state with
    | .ok value next => inv next ∧ post value
    | .error _ next => inv next

variable {inv : σ -> Prop}

variable {post : α -> Prop}

theorem Keeps.after {program : Program σ α}
    (h : Keeps inv program post) {state : σ} (hinv : inv state) :
    inv (program.after state) := by
  have hprogram := h state hinv
  unfold Program.after
  cases hresult : program state with
  | ok value next =>
    rw [hresult] at hprogram
    exact hprogram.left
  | error raised next =>
    rw [hresult] at hprogram
    exact hprogram

variable {value : α}

theorem keeps_pure (h : post value) : Keeps inv (pure value) post :=
  fun _ hinv => ⟨hinv, h⟩

theorem keeps_throw (raised : PyError) (post : α -> Prop) :
    Keeps inv (throw raised : Program σ α) post :=
  fun _ hinv => hinv

theorem keeps_get : Keeps inv (get : Program σ σ) inv := fun _ hinv => ⟨hinv, hinv⟩

variable {change : σ -> σ}

theorem keeps_modify (h : forall state, inv state -> inv (change state)) :
    Keeps inv (modify change : Program σ PUnit) (fun _ => True) :=
  fun state hinv => ⟨h state hinv, trivial⟩

variable {next : α -> Program σ β} {first : Program σ α}

theorem keeps_bind {last : β -> Prop} (hfirst : Keeps inv first post)
    (hnext : forall value, post value -> Keeps inv (next value) last) :
    Keeps inv (first >>= next) last := by
  intro state hinv
  have hprogram := hfirst state hinv
  show match EStateM.bind first next state with
    | .ok value after => inv after ∧ last value
    | .error _ after => inv after
  unfold EStateM.bind
  cases hresult : first state with
  | ok value between =>
    rw [hresult] at hprogram
    exact hnext value hprogram.right between hprogram.left
  | error raised between =>
    rw [hresult] at hprogram
    exact hprogram

theorem keeps_mono {program : Program σ α} {post weaker : α -> Prop}
    (h : Keeps inv program post) (himp : forall value, post value -> weaker value) :
    Keeps inv program weaker := by
  intro state hinv
  have hprogram := h state hinv
  cases hresult : program state with
  | ok value next =>
    rw [hresult] at hprogram
    exact ⟨hprogram.left, himp value hprogram.right⟩
  | error raised next =>
    rw [hresult] at hprogram
    exact hprogram

theorem keeps_if {c : Prop} [Decidable c] {yes no : Program σ α}
    (hyes : Keeps inv yes post) (hno : Keeps inv no post) :
    Keeps inv (if c then yes else no) post := by
  split
  · exact hyes
  · exact hno

theorem keeps_lookupKey (dict : κ -> Option α) (key : κ) :
    Keeps inv (lookupKey dict key) (fun value => dict key = some value) := by
  unfold lookupKey
  cases hvalue : dict key with
  | none => exact keeps_throw PyError.keyError _
  | some value => exact keeps_pure rfl

theorem keeps_computed (result : Except PyError α) :
    Keeps inv (computed result) (fun value => result = .ok value) := by
  intro state hinv
  cases result with
  | error raised => exact hinv
  | ok value => exact ⟨hinv, rfl⟩

variable {body : β -> α -> Program σ β}

theorem keeps_foldlM {items : List α} {holds : β -> Prop}
    (hbody : forall value item, item ∈ items -> holds value -> Keeps inv (body value item) holds)
    {start : β} (hstart : holds start) : Keeps inv (items.foldlM body start) holds := by
  induction items generalizing start with
  | nil => exact keeps_pure hstart
  | cons item rest ih =>
    rw [foldlM_cons]
    apply keeps_bind (hbody start item mem_cons_self hstart)
    intro value hvalue
    exact ih (fun other later hmem => hbody other later (mem_cons_of_mem item hmem))
      hvalue

/-!
## Pre- and postconditions

Where what holds changes from one step to the next, it is stated of the value and the state
that a program returns, or of the state in which it raises.
-/

/-- Hoare triple of a program that may raise. -/
def Satisfies (pre : σ -> Prop) (program : Program σ α) (post : α -> σ -> Prop)
    (failed : σ -> Prop) : Prop :=
  forall state, pre state ->
    match program state with
    | .ok value next => post value next
    | .error _ next => failed next

section Satisfies

variable {pre : σ -> Prop} {program : Program σ α} {post : α -> σ -> Prop} {failed : σ -> Prop}

section

variable (h : Satisfies pre program post failed)
include h

theorem Satisfies.returned {state next : σ}
    (hpre : pre state) (hresult : program state = .ok value next) : post value next := by
  have hprogram := h state hpre
  rw [hresult] at hprogram
  exact hprogram

theorem Satisfies.mono {pre' : σ -> Prop} {post' : α -> σ -> Prop}
    (hpre : forall state, pre' state -> pre state)
    (hpost : forall value next, post value next -> post' value next) :
    Satisfies pre' program post' failed := by
  intro state hstate
  have hprogram := h state (hpre state hstate)
  cases hresult : program state with
  | ok value next =>
    rw [hresult] at hprogram
    exact hpost value next hprogram
  | error error next =>
    rw [hresult] at hprogram
    exact hprogram

theorem Satisfies.imp_failed {failed' : σ -> Prop}
    (himp : forall state, failed state -> failed' state) :
    Satisfies pre program post failed' := by
  intro state hstate
  have hprogram := h state hstate
  cases hresult : program state with
  | ok value next =>
    rw [hresult] at hprogram
    exact hprogram
  | error error next =>
    rw [hresult] at hprogram
    exact himp next hprogram

end

theorem satisfies_pure (h : forall state, pre state -> post value state) :
    Satisfies pre (pure value) post failed := h

theorem satisfies_throw {error : PyError} (h : forall state, pre state -> failed state) :
    Satisfies pre (throw error : Program σ α) post failed := h

variable {last : β -> σ -> Prop}

theorem satisfies_bind {middle : α -> σ -> Prop} (hfirst : Satisfies pre program middle failed)
    (hnext : forall value, Satisfies (middle value) (next value) last failed) :
    Satisfies pre (program >>= next) last failed := by
  intro state hpre
  have hprogram := hfirst state hpre
  rw [bind_apply]
  cases hresult : program state with
  | ok value between =>
    rw [hresult] at hprogram
    exact hnext value between hprogram
  | error error between =>
    rw [hresult] at hprogram
    exact hprogram

theorem satisfies_keeps_bind {holds : α -> Prop} (hfirst : Keeps pre first holds)
    (hfailed : forall state, pre state -> failed state)
    (hnext : forall value, holds value -> Satisfies pre (next value) last failed) :
    Satisfies pre (first >>= next) last failed := by
  intro state hpre
  have hprogram := hfirst state hpre
  rw [bind_apply]
  cases hresult : first state with
  | ok value between =>
    rw [hresult] at hprogram
    exact hnext value hprogram.right between hprogram.left
  | error error between =>
    rw [hresult] at hprogram
    exact hfailed between hprogram

theorem satisfies_modify_bind {next : PUnit -> Program σ β} (middle : σ -> Prop)
    (h : forall state, pre state -> middle (change state))
    (hnext : Satisfies middle (next ⟨⟩) last failed) :
    Satisfies pre (modify change >>= next) last failed := by
  intro state hpre
  rw [bind_apply, modify_apply]
  exact hnext _ (h state hpre)

theorem satisfies_get_bind {next : σ -> Program σ β}
    (h : forall seen, pre seen -> Satisfies (fun state => state = seen) (next seen) last failed) :
    Satisfies pre (get >>= next) last failed := by
  intro state hpre
  rw [bind_apply, get_apply]
  exact h state hpre state rfl

section

variable (hraised : forall state, pre state -> failed state)
include hraised

theorem satisfies_computed_bind {result : Except PyError α}
    (h : forall value, result = .ok value -> Satisfies pre (next value) last failed) :
    Satisfies pre (computed result >>= next) last failed := by
  intro state hpre
  rw [bind_apply]
  cases hresult : result with
  | error raised => exact hraised state hpre
  | ok value => exact h value hresult state hpre

theorem satisfies_check_bind {result : Except PyError Unit} {next : PUnit -> Program σ β}
    (h : result = .ok () -> Satisfies pre (next ⟨⟩) last failed) :
    Satisfies pre (check result >>= next) last failed := by
  intro state hpre
  rw [bind_apply]
  cases hresult : result with
  | error raised => exact hraised state hpre
  | ok value => exact h hresult state hpre

theorem satisfies_lookupKey_bind {dict : κ -> Option α} {key : κ}
    (h : forall value, dict key = some value -> Satisfies pre (next value) last failed) :
    Satisfies pre (lookupKey dict key >>= next) last failed := by
  intro state hpre
  rw [bind_apply, lookupKey_apply]
  cases hvalue : dict key with
  | none => exact hraised state hpre
  | some value => exact h value hvalue state hpre

end

theorem satisfies_foldlM {items : List α} (holds : List α -> β -> σ -> Prop)
    (hbody : forall done item rest value, items = done ++ item :: rest ->
      Satisfies (holds done value) (body value item) (holds (done ++ [item])) failed)
    (start : β) : Satisfies (holds [] start) (items.foldlM body start) (holds items) failed := by
  suffices hloop : forall done rest value, items = done ++ rest ->
      Satisfies (holds done value) (rest.foldlM body value) (holds items) failed from
    hloop [] items start rfl
  intro done rest
  induction rest generalizing done with
  | nil =>
    intro value hitems
    rw [append_nil] at hitems
    exact hitems ▸ satisfies_pure fun _ h => h
  | cons item rest ih =>
    intro value hitems
    rw [foldlM_cons]
    apply satisfies_bind (hbody done item rest value hitems)
    intro value'
    exact ih (done ++ [item]) value' (by rw [hitems, append_assoc]; rfl)

end Satisfies

end Icsw.Foundation
