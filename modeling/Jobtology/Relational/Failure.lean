import Jobtology.Relational.Transaction

/-!
# Failing transactions

Library for the errors of transactions. `Raises` is the failing run, with one rule for each way to
build a transaction, beside the rules of `Yields` for the successful one.
-/

namespace Jobtology.Relational.Transaction

variable {ε σ α β : Type}

/-- The transaction fails from the state with an error. -/
def Raises (x : Transaction ε σ α) (s : σ) (e : ε) : Prop := x.run s = .error e

/-- An error comes from the first part, or from the second after the first. -/
theorem raises_bind {x : Transaction ε σ α} {f : α → Transaction ε σ β} {s : σ} {e : ε} :
    Raises (x >>= f) s e ↔ Raises x s e ∨ ∃ a u, Yields x s a u ∧ Raises (f a) u e := by
  unfold Raises Yields
  rw [StateT.run_bind]
  cases h : x.run s with
  | error e => simp [bind, Except.bind]
  | ok r =>
    obtain ⟨a, u⟩ := r
    simp [bind, Except.bind]

/-- A result is no error. -/
@[simp] theorem not_raises_pure {a : α} {s : σ} {e : ε} :
    ¬ Raises (pure a : Transaction ε σ α) s e :=
  fun h ↦ by cases h

/-- A query raises nothing. -/
theorem raises_select_bind {g : σ → α} {f : α → Transaction ε σ β} {s : σ} {e : ε} :
    Raises (select g >>= f) s e ↔ Raises (f (g s)) s e := by
  rw [raises_bind]
  constructor
  · rintro (h | ⟨a, u, h, hraises⟩)
    · cases h
    · obtain ⟨rfl, rfl⟩ := yields_select.mp h
      exact hraises
  · exact fun h ↦ .inr ⟨_, _, yields_select.mpr ⟨rfl, rfl⟩, h⟩

/-- A requirement raises where it does not hold. -/
theorem raises_require {c : Prop} [Decidable c] {e e' : ε} {s : σ} :
    Raises (require c e : Transaction ε σ Unit) s e' ↔ ¬ c ∧ e = e' := by
  by_cases h : c <;> simp [Raises, require, StateT.run, h]

/-- A requirement raises, or what follows it does. -/
theorem raises_require_bind {c : Prop} [Decidable c] {e e' : ε} {f : Unit → Transaction ε σ β}
    {s : σ} :
    Raises (require c e >>= f) s e' ↔ (¬ c ∧ e = e') ∨ (c ∧ Raises (f ()) s e') := by
  rw [raises_bind, raises_require]
  refine or_congr_right ⟨?_, fun h ↦ ⟨(), s, yields_require.mpr ⟨h.1, rfl⟩, h.2⟩⟩
  rintro ⟨_, u, h, hraises⟩
  obtain ⟨hc, rfl⟩ := yields_require.mp h
  exact ⟨hc, hraises⟩

/-- A statement fails when the state that it would leave breaks a constraint. -/
theorem raises_write {valid : σ → Prop} [DecidablePred valid] {violation e : ε} {f : σ → σ}
    {s : Subtype valid} : Raises (write violation f) s e ↔ ¬ valid (f s) ∧ violation = e := by
  by_cases h : valid (f s) <;> simp [Raises, write, StateT.run, h]

/-- A write that the constraints allow raises nothing. -/
theorem raises_write_bind {valid : σ → Prop} [DecidablePred valid] {violation e : ε} {f : σ → σ}
    {g : Unit → Transaction ε (Subtype valid) β} {s : Subtype valid} (hvalid : valid (f s)) :
    Raises (write violation f >>= g) s e ↔ Raises (g ()) ⟨f s, hvalid⟩ e := by
  rw [raises_bind, raises_write]
  constructor
  · rintro (⟨hbroken, -⟩ | ⟨_, u, h, hraises⟩)
    · exact absurd hvalid hbroken
    · have hu : u = ⟨f s, hvalid⟩ := Subtype.ext (yields_write.mp h).symm
      exact hu ▸ hraises
  · exact fun h ↦ .inr ⟨(), _, yields_write.mpr rfl, h⟩

/-- A branch raises what its side does. -/
theorem raises_ite {c : Prop} [Decidable c] {x y : Transaction ε σ α} {s : σ} {e : ε} :
    Raises (if c then x else y) s e ↔ (c ∧ Raises x s e) ∨ (¬ c ∧ Raises y s e) := by
  by_cases h : c <;> simp [h]

end Jobtology.Relational.Transaction
