import Jobtology.Relational.Transaction
import Mathlib.Data.List.Induction

/-!
# Runs of a system of actions

Library for systems that take one action after another. `run` is the state after a list of
actions, `Along` says that every action of a run meets a condition in the state it is taken in,
and the induction over runs is stated once for a property of states and once for a relation
between the first state and the last.
-/

namespace Jobtology.Relational

universe u v

variable {σ : Type u} {α : Type v} {step : σ → α → σ}

/-- The state after a run. -/
def run (step : σ → α → σ) (s : σ) (actions : List α) : σ := actions.foldl step s

/-- Every action of the run meets the condition in the state it is taken in. -/
def Along (step : σ → α → σ) (C : σ → α → Prop) : σ → List α → Prop
  | _, [] => True
  | s, a :: rest => C s a ∧ Along step C (step s a) rest

/-- Without actions nothing happens. -/
@[simp] theorem run_nil (s : σ) : run step s [] = s := rfl

/-- The first action is done before the others. -/
@[simp] theorem run_cons (s : σ) (a : α) (actions : List α) :
    run step s (a :: actions) = run step (step s a) actions := rfl

/-- A run goes on where another one ended. -/
theorem run_append (s : σ) (first last : List α) :
    run step s (first ++ last) = run step (run step s first) last :=
  List.foldl_append

instance decidableAlong (C : σ → α → Prop) [∀ s a, Decidable (C s a)] :
    ∀ s actions, Decidable (Along step C s actions)
  | _, [] => inferInstanceAs (Decidable True)
  | s, a :: rest =>
    have := decidableAlong C (step s a) rest
    inferInstanceAs (Decidable (C s a ∧ Along step C (step s a) rest))

/-- A condition along a run holds along both of its parts. -/
theorem along_append {C : σ → α → Prop} {s : σ} {first last : List α} :
    Along step C s (first ++ last) ↔
      Along step C s first ∧ Along step C (run step s first) last := by
  induction first generalizing s with
  | nil => simp [Along]
  | cons a rest ih => simp [Along, ih, and_assoc]

/-- A weaker condition holds along a run too. -/
theorem Along.mono {C D : σ → α → Prop} {s : σ} {actions : List α}
    (h : Along step C s actions) (himp : ∀ s a, C s a → D s a) : Along step D s actions := by
  induction actions generalizing s with
  | nil => trivial
  | cons a rest ih => exact ⟨himp s a h.1, ih h.2⟩

/-- A property that every action keeps holds after every run. -/
theorem run_induction {P : σ → Prop} (hstep : ∀ s a, P s → P (step s a)) {s : σ} (h : P s)
    (actions : List α) : P (run step s actions) := by
  induction actions generalizing s with
  | nil => exact h
  | cons a rest ih => exact ih (hstep s a h)

/-- A property that actions under a condition keep holds after every run of such actions. -/
theorem Along.induction {C : σ → α → Prop} {P : σ → Prop}
    (hstep : ∀ s a, C s a → P s → P (step s a)) {s : σ} {actions : List α}
    (hrun : Along step C s actions) (h : P s) : P (run step s actions) := by
  induction actions generalizing s with
  | nil => exact h
  | cons a rest ih => exact ih hrun.2 (hstep s a hrun.1 h)

/-- The last action is done after the others. -/
theorem run_concat (s : σ) (actions : List α) (a : α) :
    run step s (actions ++ [a]) = step (run step s actions) a := by
  rw [run_append]
  rfl

/-- Some state that the run passes through has a property. -/
def Visited (step : σ → α → σ) (s : σ) (actions : List α) (P : σ → Prop) : Prop :=
  ∃ before after, actions = before ++ after ∧ P (run step s before)

/-- The last state is visited. -/
theorem Visited.now {s : σ} {actions : List α} {P : σ → Prop} (h : P (run step s actions)) :
    Visited step s actions P :=
  ⟨actions, [], (List.append_nil _).symm, h⟩

/-- What is visited stays visited. -/
theorem Visited.later {s : σ} {actions : List α} {P : σ → Prop}
    (h : Visited step s actions P) (a : α) : Visited step s (actions ++ [a]) P := by
  obtain ⟨before, after, rfl, hp⟩ := h
  exact ⟨before, after ++ [a], List.append_assoc _ _ _, hp⟩

/-- What has a property has a weaker one. -/
theorem Visited.mono {s : σ} {actions : List α} {P Q : σ → Prop} (h : Visited step s actions P)
    (himp : ∀ t, P t → Q t) : Visited step s actions Q := by
  obtain ⟨before, after, heq, hp⟩ := h
  exact ⟨before, after, heq, himp _ hp⟩

/-- A property of a run and of the state that it leads to, kept by every further action. -/
theorem run_history {P : List α → σ → Prop} {s : σ} (hstart : P [] s)
    (hstep : ∀ actions a, P actions (run step s actions) →
      P (actions ++ [a]) (step (run step s actions) a)) (actions : List α) :
    P actions (run step s actions) := by
  induction actions using List.reverseRecOn with
  | nil => exact hstart
  | append_singleton actions a ih =>
    rw [run_concat]
    exact hstep actions a ih

end Jobtology.Relational
