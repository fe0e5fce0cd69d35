import Jobtology.Base.Collections

/-!
# Fallible computations

Library for code that raises: which part of a computation an error comes from.
-/

namespace Jobtology.Base

universe u v

variable {ε δ : Type u} {α β : Type v}

/-- A computation with two parts raises what one of them does. -/
theorem bind_eq_error {x : Except ε α} {f : α → Except ε β} {e : ε} :
    x >>= f = .error e ↔ x = .error e ∨ ∃ a, x = .ok a ∧ f a = .error e := by
  cases x <;> simp [bind, Except.bind]

/-- A result is the same under another error type. -/
theorem mapError_eq_ok {x : Except ε α} {g : ε → δ} {a : α} :
    x.mapError g = .ok a ↔ x = .ok a := by
  cases x <;> simp [Except.mapError]

/-- An error is the image of an error. -/
theorem mapError_eq_error {x : Except ε α} {g : ε → δ} {d : δ} :
    x.mapError g = .error d ↔ ∃ e, x = .error e ∧ g e = d := by
  cases x <;> simp [Except.mapError]

/-- A comprehension raises what an element does. -/
theorem exists_of_mapM_error {f : α → Except ε β} {xs : List α} {e : ε}
    (h : xs.mapM f = .error e) : ∃ x ∈ xs, f x = .error e := by
  induction xs with
  | nil => cases h
  | cons x xs ih =>
    rw [List.mapM_cons] at h
    rcases bind_eq_error.mp h with h | ⟨y, -, h⟩
    · exact ⟨x, List.mem_cons_self, h⟩
    · rcases bind_eq_error.mp h with h | ⟨rest, -, h⟩
      · obtain ⟨z, hz, he⟩ := ih h
        exact ⟨z, List.mem_cons_of_mem _ hz, he⟩
      · cases h

/-- A comprehension raises exactly when an element does. -/
theorem exists_mapM_error_iff {f : α → Except ε β} {xs : List α} :
    (∃ e, xs.mapM f = .error e) ↔ ∃ x ∈ xs, ∃ e, f x = .error e := by
  constructor
  · rintro ⟨e, h⟩
    obtain ⟨x, hx, he⟩ := exists_of_mapM_error h
    exact ⟨x, hx, e, he⟩
  · rintro ⟨x, hx, e, he⟩
    cases h : xs.mapM f with
    | error e' => exact ⟨e', rfl⟩
    | ok ys =>
      obtain ⟨y, hy⟩ := exists_mapM_ok_iff.1 ⟨ys, h⟩ x hx
      rw [he] at hy
      cases hy

/-- A computation that ends with a value raises what its first part does. -/
theorem exists_bind_pure_error_iff {x : Except ε α} {f : α → β} :
    (∃ e, (x >>= fun a ↦ pure (f a)) = .error e) ↔ ∃ e, x = .error e := by
  cases x <;> simp [bind, Except.bind, pure, Except.pure]

/-- A loop whose passes succeed and keep an invariant succeeds and keeps it. -/
theorem exists_foldlM_ok {f : β → α → Except ε β} {P : β → Prop}
    (hstep : ∀ b a, P b → ∃ b', f b a = .ok b' ∧ P b') (xs : List α) {b : β} (hb : P b) :
    ∃ b', xs.foldlM f b = .ok b' ∧ P b' := by
  induction xs generalizing b with
  | nil => exact ⟨b, rfl, hb⟩
  | cons a xs ih =>
    obtain ⟨middle, hmiddle, hP⟩ := hstep b a hb
    obtain ⟨b', hrest, hb'⟩ := ih hP
    refine ⟨b', ?_, hb'⟩
    rw [List.foldlM_cons]
    exact bind_eq_ok.mpr ⟨middle, hmiddle, hrest⟩

/-- The results that are kept come from part of the elements, in their order. -/
theorem exists_sublist_of_forall₂ {R : α → Option β → Prop} {xs : List α} {ys : List (Option β)}
    (h : List.Forall₂ R xs ys) :
    ∃ kept, kept.Sublist xs ∧ List.Forall₂ (fun x y ↦ R x (some y)) kept (ys.filterMap id) := by
  induction h with
  | nil => exact ⟨[], .slnil, .nil⟩
  | @cons x y xs ys hR _ ih =>
    obtain ⟨kept, hsub, hkept⟩ := ih
    cases y with
    | none => exact ⟨kept, hsub.cons x, hkept⟩
    | some y => exact ⟨x :: kept, hsub.cons_cons x, .cons hR hkept⟩

end Jobtology.Base
