import Mathlib.Data.List.Basic
import Mathlib.Order.Defs.Unbundled

/-!
# Transactions over a store with constraints

Library for database sessions. A transaction reads and writes a state and either fails, with no
effect, or returns a result with the new state. A statement that writes fails when the state it
leaves breaks a constraint. `Yields` is the successful run, with one rule for each way to build a
transaction; `Within` is the rule of pre and post states for a relation that composes.
-/

namespace Jobtology.Relational

/-- The work of a session. -/
abbrev Transaction (ε σ : Type) := StateT σ (Except ε)

namespace Transaction

variable {ε σ α β : Type}

/-- The transaction succeeds from the first state with a result and the second state. -/
def Yields (x : Transaction ε σ α) (s : σ) (a : α) (t : σ) : Prop := x.run s = .ok (a, t)

/-- The state after the transaction: an error rolls everything back. -/
def commit (x : Transaction ε σ α) (s : σ) : σ :=
  match x.run s with
  | .ok (_, t) => t
  | .error _ => s

/-- Read from the state. -/
def select (f : σ → α) : Transaction ε σ α := fun s ↦ .ok (f s, s)

/-- Raise unless the condition holds. -/
def require (c : Prop) [Decidable c] (e : ε) : Transaction ε σ Unit :=
  fun s ↦ if c then .ok ((), s) else .error e

/-- The row that a query found; raise when there is none. -/
def demand (row : Option α) (e : ε) : Transaction ε σ α := fun s ↦
  match row with
  | some a => .ok (a, s)
  | none => .error e

/-- A statement that writes a state with constraints: it fails when what it leaves breaks one. -/
def write {valid : σ → Prop} [DecidablePred valid] (violation : ε) (f : σ → σ) :
    Transaction ε (Subtype valid) Unit :=
  fun s ↦ if h : valid (f s) then .ok ((), ⟨f s, h⟩) else .error violation

/-- Work that is done only under a condition. -/
def when (c : Prop) [Decidable c] (x : Transaction ε σ Unit) : Transaction ε σ Unit :=
  if c then x else pure ()

/-- Work under a savepoint: an error that is caught rolls back to it, any other goes on. -/
def savepoint (caught : ε → Bool) (x : Transaction ε σ Unit) : Transaction ε σ Unit := fun s ↦
  match x.run s with
  | .ok r => .ok r
  | .error e => if caught e then .ok ((), s) else .error e

/-- Work under a savepoint with a caught error as its result. -/
def attempt {γ : Type} (caught : ε → Option γ) (x : Transaction ε σ α) :
    Transaction ε σ (Except γ α) := fun s ↦
  match x.run s with
  | .ok (a, t) => .ok (.ok a, t)
  | .error e =>
    match caught e with
    | some c => .ok (.error c, s)
    | none => .error e

/-! ### Successful runs -/

/-- Two parts succeed one after the other. -/
@[simp] theorem yields_bind {x : Transaction ε σ α} {f : α → Transaction ε σ β} {s t : σ} {b : β} :
    Yields (x >>= f) s b t ↔ ∃ a u, Yields x s a u ∧ Yields (f a) u b t := by
  unfold Yields
  rw [StateT.run_bind]
  cases h : x.run s with
  | error e => simp [bind, Except.bind]
  | ok r =>
    obtain ⟨a, u⟩ := r
    simp [bind, Except.bind]

/-- A result leaves the state. -/
@[simp] theorem yields_pure {a b : α} {s t : σ} :
    Yields (pure a : Transaction ε σ α) s b t ↔ a = b ∧ s = t := by
  show (Except.ok (a, s) : Except ε (α × σ)) = .ok (b, t) ↔ a = b ∧ s = t
  rw [Except.ok.injEq, Prod.mk.injEq]

/-- A query leaves the state. -/
@[simp] theorem yields_select {f : σ → α} {s t : σ} {a : α} :
    Yields (select f : Transaction ε σ α) s a t ↔ f s = a ∧ s = t := by
  simp [Yields, select, StateT.run]

/-- A requirement succeeds where it holds. -/
@[simp] theorem yields_require {c : Prop} [Decidable c] {e : ε} {s t : σ} {u : Unit} :
    Yields (require c e : Transaction ε σ Unit) s u t ↔ c ∧ s = t := by
  by_cases h : c <;> simp [Yields, require, StateT.run, h]

/-- A demanded row has to be there. -/
@[simp] theorem yields_demand {row : Option α} {e : ε} {s t : σ} {a : α} :
    Yields (demand row e : Transaction ε σ α) s a t ↔ row = some a ∧ s = t := by
  cases row <;> simp [Yields, demand, StateT.run]

/-- A statement succeeds with any valid state that it leads to. -/
@[simp] theorem yields_write {valid : σ → Prop} [DecidablePred valid] {violation : ε} {f : σ → σ}
    {s t : Subtype valid} {u : Unit} :
    Yields (write violation f) s u t ↔ f s = t := by
  by_cases h : valid (f s)
  · simp [Yields, write, StateT.run, h, Subtype.ext_iff]
  · have hne : f s ≠ t := fun he ↦ h (he ▸ t.2)
    simp [Yields, write, StateT.run, h, hne]

/-- An error yields nothing. -/
@[simp] theorem not_yields_throw {e : ε} {s t : σ} {a : α} :
    ¬ Yields (throw e : Transaction ε σ α) s a t := by
  simp [Yields, throw, throwThe, MonadExceptOf.throw, StateT.lift, StateT.run, bind, Except.bind]

/-- A conditional part is done or left out. -/
theorem yields_when {c : Prop} [Decidable c] {x : Transaction ε σ Unit} {s t : σ} {u : Unit} :
    Yields (when c x) s u t ↔ (c ∧ Yields x s () t) ∨ (¬ c ∧ s = t) := by
  unfold when
  by_cases h : c <;> simp [h]

/-- A branch yields what its side does. -/
theorem yields_ite {c : Prop} [Decidable c] {x y : Transaction ε σ α} {s t : σ} {a : α} :
    Yields (if c then x else y) s a t ↔ (c ∧ Yields x s a t) ∨ (¬ c ∧ Yields y s a t) := by
  by_cases h : c <;> simp [h]

/-! A session that goes on after each kind of work, to peel a transaction from the front. -/

/-- A part without a result, and what follows it. -/
theorem yields_seq {x : Transaction ε σ Unit} {f : Unit → Transaction ε σ β} {s t : σ} {b : β} :
    Yields (x >>= f) s b t ↔ ∃ u, Yields x s () u ∧ Yields (f ()) u b t := by
  rw [yields_bind]
  exact ⟨fun ⟨_, u, h⟩ ↦ ⟨u, h⟩, fun ⟨u, h⟩ ↦ ⟨(), u, h⟩⟩

/-- A query, and what follows it. -/
theorem yields_select_bind {g : σ → α} {f : α → Transaction ε σ β} {s t : σ} {b : β} :
    Yields (select g >>= f) s b t ↔ Yields (f (g s)) s b t := by
  simp

/-- A requirement, and what follows it. -/
theorem yields_require_bind {c : Prop} [Decidable c] {e : ε} {f : Unit → Transaction ε σ β}
    {s t : σ} {b : β} : Yields (require c e >>= f) s b t ↔ c ∧ Yields (f ()) s b t := by
  rw [yields_seq]
  simp [and_assoc]

/-- A demanded row, and what follows it. -/
theorem yields_demand_bind {row : Option α} {e : ε} {f : α → Transaction ε σ β} {s t : σ}
    {b : β} : Yields (demand row e >>= f) s b t ↔ ∃ a, row = some a ∧ Yields (f a) s b t := by
  simp

/-- A loop over nothing leaves the state. -/
theorem yields_forM_nil {f : α → Transaction ε σ PUnit} {s t : σ} {u : PUnit} :
    Yields (([] : List α).forM f) s u t ↔ s = t := by
  change Yields (pure ()) s u t ↔ s = t
  simp

/-- A loop does its first round before the others. -/
theorem yields_forM_cons {x : α} {xs : List α} {f : α → Transaction ε σ PUnit} {s t : σ}
    {u : PUnit} :
    Yields ((x :: xs).forM f) s u t ↔
      ∃ v, Yields (f x) s () v ∧ Yields (xs.forM f) v () t := by
  change Yields (f x >>= fun _ ↦ xs.forM f) s u t ↔ _
  exact yields_seq

/-- What each round of a loop with an accumulator keeps holds of what the loop yields. -/
theorem Yields.foldlM_induction {xs : List α} {f : β → α → Transaction ε σ β}
    {P : List α → β → σ → Prop}
    (hstep : ∀ done x b s c t, (done ++ [x]) <+: xs → P done b s → Yields (f b x) s c t →
      P (done ++ [x]) c t) {b c : β} {s t : σ} (h : P [] b s)
    (hyields : Yields (xs.foldlM f b) s c t) : P xs c t := by
  have hrest : ∀ (rest done : List α) (b : β) (s : σ), done ++ rest = xs → P done b s →
      Yields (rest.foldlM f b) s c t → P xs c t := by
    intro rest
    induction rest with
    | nil =>
      intro done b s heq hdone hyields
      obtain ⟨rfl, rfl⟩ := yields_pure.mp hyields
      rw [List.append_nil] at heq
      exact heq ▸ hdone
    | cons x rest ih =>
      intro done b s heq hdone hyields
      rw [List.foldlM_cons] at hyields
      obtain ⟨b', s', hbody, hyields⟩ := yields_bind.mp hyields
      have hsplit : (done ++ [x]) ++ rest = xs := by rw [← heq]; simp
      exact ih (done ++ [x]) b' s' hsplit (hstep done x b s b' s' ⟨rest, hsplit⟩ hdone hbody)
        hyields
  exact hrest xs [] b s rfl h hyields

/-- A loop succeeds when its body does in every state that the elements before lead to. -/
theorem exists_yields_forM {xs : List α} {f : α → Transaction ε σ PUnit} {P : List α → σ → Prop}
    (hstep : ∀ done x s, (done ++ [x]) <+: xs → P done s →
      ∃ t, Yields (f x) s () t ∧ P (done ++ [x]) t) {s : σ} (h : P [] s) :
    ∃ t, Yields (xs.forM f) s () t ∧ P xs t := by
  have hrest : ∀ (rest done : List α) (s : σ), done ++ rest = xs → P done s →
      ∃ t, Yields (rest.forM f) s () t ∧ P xs t := by
    intro rest
    induction rest with
    | nil =>
      intro done s heq hdone
      rw [List.append_nil] at heq
      exact ⟨s, yields_forM_nil.mpr rfl, heq ▸ hdone⟩
    | cons x rest ih =>
      intro done s heq hdone
      have hsplit : (done ++ [x]) ++ rest = xs := by rw [← heq]; simp
      obtain ⟨u, hu, hnext⟩ := hstep done x s ⟨rest, hsplit⟩ hdone
      obtain ⟨t, ht, hall⟩ := ih (done ++ [x]) u hsplit hnext
      exact ⟨t, yields_forM_cons.mpr ⟨u, hu, ht⟩, hall⟩
  exact hrest xs [] s rfl h

/-- A savepoint ends with the work done, or with nothing done after a caught error. -/
theorem yields_savepoint {caught : ε → Bool} {x : Transaction ε σ Unit} {s t : σ} {u : Unit} :
    Yields (savepoint caught x) s u t ↔
      Yields x s () t ∨ (∃ e, x.run s = .error e ∧ caught e = true ∧ s = t) := by
  unfold Yields savepoint
  change (match x.run s with
    | .ok r => Except.ok r
    | .error e => if caught e then .ok ((), s) else .error e) = _ ↔ _
  cases h : x.run s with
  | ok r => simp
  | error e =>
    by_cases hc : caught e = true <;> simp [hc]

/-- An attempt ends with the work done, or with nothing done and the caught error. -/
theorem yields_attempt {γ : Type} {caught : ε → Option γ} {x : Transaction ε σ α} {s t : σ}
    {r : Except γ α} :
    Yields (attempt caught x) s r t ↔
      (∃ a, r = .ok a ∧ Yields x s a t) ∨
        (∃ e c, x.run s = .error e ∧ caught e = some c ∧ r = .error c ∧ s = t) := by
  unfold Yields attempt
  change (match x.run s with
    | .ok (a, t) => Except.ok (Except.ok a, t)
    | .error e => match caught e with
      | some c => .ok (.error c, s)
      | none => .error e) = _ ↔ _
  cases h : x.run s with
  | ok result =>
    obtain ⟨a, u⟩ := result
    simp only [Except.ok.injEq, Prod.mk.injEq, reduceCtorEq, false_and, exists_false, or_false]
    exact ⟨fun ⟨hr, hu⟩ ↦ ⟨a, hr.symm, rfl, hu⟩, fun ⟨b, hr, hb, hu⟩ ↦ ⟨hb ▸ hr.symm, hu⟩⟩
  | error e =>
    cases hc : caught e with
    | none => simp [hc]
    | some c => simp [hc, eq_comm]

/-- The state after a transaction is that of its successful run, or the old one. -/
theorem commit_cases (x : Transaction ε σ α) (s : σ) :
    x.commit s = s ∨ ∃ a, Yields x s a (x.commit s) := by
  unfold commit Yields
  cases h : x.run s with
  | error e => exact .inl rfl
  | ok r => exact .inr ⟨r.1, rfl⟩

/-- A transaction that succeeds is committed. -/
theorem commit_of_yields {x : Transaction ε σ α} {s t : σ} {a : α} (h : Yields x s a t) :
    x.commit s = t := by
  unfold commit
  rw [show x.run s = .ok (a, t) from h]

/-- A transaction that succeeds commits. -/
theorem yields_of_isOk {x : Transaction ε σ α} {s : σ} (h : (x.run s).isOk = true) :
    ∃ a, Yields x s a (x.commit s) := by
  unfold commit Yields
  cases hrun : x.run s with
  | error e => simp [hrun, Except.isOk, Except.toBool] at h
  | ok r => exact ⟨r.1, rfl⟩

/-- A transaction that fails leaves nothing. -/
theorem commit_of_not_isOk {x : Transaction ε σ α} {s : σ} (h : ¬ (x.run s).isOk = true) :
    x.commit s = s := by
  unfold commit
  cases hrun : x.run s with
  | error e => rfl
  | ok r => simp [hrun, Except.isOk, Except.toBool] at h

/-! ### Relations between the states before and after -/

/-- Every successful run relates the state before to the state after. -/
def Within (R : σ → σ → Prop) (x : Transaction ε σ α) : Prop :=
  ∀ s a t, Yields x s a t → R s t

variable {R : σ → σ → Prop}

/-- A transaction within a relation is within a weaker one. -/
theorem Within.mono {R' : σ → σ → Prop} {x : Transaction ε σ α} (h : Within R x)
    (himp : ∀ s t, R s t → R' s t) : Within R' x :=
  fun s a t hx ↦ himp s t (h s a t hx)

/-- Two parts within a relation. -/
theorem Within.bind [IsTrans σ R] {x : Transaction ε σ α} {f : α → Transaction ε σ β}
    (hx : Within R x) (hf : ∀ a, Within R (f a)) : Within R (x >>= f) := by
  intro s b t h
  obtain ⟨a, u, hxu, hfu⟩ := yields_bind.mp h
  exact IsTrans.trans s u t (hx s a u hxu) (hf a u b t hfu)

/-- A result is within every reflexive relation. -/
theorem Within.pure [Std.Refl R] (a : α) : Within R (pure a : Transaction ε σ α) := by
  intro s b t h
  obtain ⟨-, rfl⟩ := yields_pure.mp h
  exact Std.Refl.refl s

/-- A query is within every reflexive relation. -/
theorem Within.select [Std.Refl R] (f : σ → α) : Within R (select f : Transaction ε σ α) := by
  intro s b t h
  obtain ⟨-, rfl⟩ := yields_select.mp h
  exact Std.Refl.refl s

/-- A requirement is within every reflexive relation. -/
theorem Within.require [Std.Refl R] (c : Prop) [Decidable c] (e : ε) :
    Within R (require c e : Transaction ε σ Unit) := by
  intro s b t h
  obtain ⟨-, rfl⟩ := yields_require.mp h
  exact Std.Refl.refl s

/-- A demanded row is within every reflexive relation. -/
theorem Within.demand [Std.Refl R] (row : Option α) (e : ε) :
    Within R (demand row e : Transaction ε σ α) := by
  intro s b t h
  obtain ⟨-, rfl⟩ := yields_demand.mp h
  exact Std.Refl.refl s

/-- An error is within every relation. -/
theorem Within.throw (e : ε) : Within R (throw e : Transaction ε σ α) :=
  fun _ _ _ h ↦ False.elim (not_yields_throw h)

/-- A write within a relation. -/
theorem Within.write {valid : σ → Prop} [DecidablePred valid] {violation : ε} {f : σ → σ}
    {R : Subtype valid → Subtype valid → Prop} (h : ∀ s t : Subtype valid, f s = t → R s t) :
    Within R (write violation f) :=
  fun s _ t hw ↦ h s t (yields_write.mp hw)

/-- A branch with both sides within a relation. -/
theorem Within.ite {c : Prop} [Decidable c] {x y : Transaction ε σ α} (hx : Within R x)
    (hy : Within R y) : Within R (if c then x else y) := by
  split
  · exact hx
  · exact hy

/-- A conditional part within a relation. -/
theorem Within.when [Std.Refl R] {c : Prop} [Decidable c] {x : Transaction ε σ Unit}
    (hx : Within R x) : Within R (when c x) :=
  .ite hx (.pure ())

/-- A part that may be rolled back, within a relation. -/
theorem Within.savepoint [Std.Refl R] {caught : ε → Bool} {x : Transaction ε σ Unit}
    (hx : Within R x) : Within R (savepoint caught x) := by
  intro s b t h
  rcases yields_savepoint.mp h with h | ⟨-, -, -, rfl⟩
  · exact hx s () t h
  · exact Std.Refl.refl s

/-- A loop stays within a relation that its body stays within. -/
theorem Within.forM [Std.Refl R] [IsTrans σ R] {xs : List α} {f : α → Transaction ε σ PUnit}
    (hf : ∀ x ∈ xs, Within R (f x)) : Within R (xs.forM f) := by
  induction xs with
  | nil => exact Within.pure ()
  | cons x xs ih =>
    exact Within.bind (hf x (by simp)) fun _ ↦ ih fun y hy ↦ hf y (List.mem_cons_of_mem x hy)

/-- A loop with an accumulator stays within a relation that its body stays within. -/
theorem Within.foldlM [Std.Refl R] [IsTrans σ R] {xs : List α} {f : β → α → Transaction ε σ β}
    (hf : ∀ b, ∀ x ∈ xs, Within R (f b x)) (b : β) : Within R (xs.foldlM f b) := by
  induction xs generalizing b with
  | nil => exact Within.pure b
  | cons x xs ih =>
    rw [List.foldlM_cons]
    exact Within.bind (hf b x (by simp)) fun c ↦
      ih (fun b y hy ↦ hf b y (List.mem_cons_of_mem x hy)) c

end Transaction

end Jobtology.Relational
