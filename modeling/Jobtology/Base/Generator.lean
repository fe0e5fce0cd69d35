/-!
# Generators that read a sequence

Library for asynchronous generators: one that reads elements one at a time, yields some values for
each of them and may fail, also after it has yielded some values for the element.
-/

namespace Jobtology.Base

universe u v w x

variable {σ : Type u} {α : Type v} {β : Type w} {ε : Type x}

/-- What is yielded for a sequence, and how reading it ends. -/
def produce (step : σ → α → List β × Except ε σ) : σ → List α → List β × Except ε σ
  | s, [] => ([], .ok s)
  | s, x :: xs =>
    match step s x with
    | (out, .error e) => (out, .error e)
    | (out, .ok s') => (out ++ (produce step s' xs).1, (produce step s' xs).2)

variable {step : σ → α → List β × Except ε σ} {s s' : σ} {x : α} {xs : List α} {out more : List β}
  {e : ε}

/-- Without input nothing comes out. -/
theorem produce_nil : produce step s [] = ([], .ok s) := rfl

/-- A step that succeeds is followed by the rest. -/
theorem produce_cons_ok (h : step s x = (out, .ok s')) :
    produce step s (x :: xs) = (out ++ (produce step s' xs).1, (produce step s' xs).2) := by
  rw [produce, h]

/-- A step that fails ends the run with what came out so far. -/
theorem produce_cons_error (h : step s x = (out, .error e)) :
    produce step s (x :: xs) = (out, .error e) := by
  rw [produce, h]

/-- A sequence that is read to its end is read element by element. -/
theorem produce_cons_eq_ok :
    (produce step s (x :: xs)).2 = .ok s' ↔
      ∃ out middle, step s x = (out, .ok middle) ∧ (produce step middle xs).2 = .ok s' := by
  cases h : step s x with
  | mk out ended =>
    cases ended with
    | error e =>
      rw [produce_cons_error h]
      constructor
      · exact nofun
      · rintro ⟨_, _, heq, _⟩
        cases heq
    | ok middle =>
      rw [produce_cons_ok h]
      constructor
      · exact fun hrest ↦ ⟨out, middle, rfl, hrest⟩
      · rintro ⟨_, _, heq, hrest⟩
        cases heq
        exact hrest

section Rules

variable {all seen : List α}

/-- What every step keeps holds when the sequence is read. -/
theorem produce_invariant (Inv : List α → σ → List β → Prop) (hall : seen ++ xs = all)
    (hstart : Inv seen s out)
    (hstep : ∀ seen x rest s out more s', seen ++ x :: rest = all → Inv seen s out →
      step s x = (more, .ok s') → Inv (seen ++ [x]) s' (out ++ more))
    (h : (produce step s xs).2 = .ok s') : Inv all s' (out ++ (produce step s xs).1) := by
  induction xs generalizing s seen out with
  | nil =>
    obtain rfl := Except.ok.inj h
    rw [produce_nil, List.append_nil, ← hall, List.append_nil]
    exact hstart
  | cons x xs ih =>
    obtain ⟨first, middle, hfirst, hrest⟩ := produce_cons_eq_ok.mp h
    rw [produce_cons_ok hfirst, ← List.append_assoc]
    apply ih _ (hstep seen x xs s out first middle hall hstart hfirst) hrest
    rw [List.append_assoc, List.singleton_append, hall]

/-- What every step keeps shows in everything that is yielded, however reading ends. -/
theorem produce_yields (Inv : List α → σ → List β → Prop) (Good : List β → Prop)
    (hall : seen ++ xs = all) (hstart : Inv seen s out)
    (hstep : ∀ seen x rest s out more s', seen ++ x :: rest = all → Inv seen s out →
      step s x = (more, .ok s') → Inv (seen ++ [x]) s' (out ++ more))
    (hgood : ∀ s out, Inv all s out → Good out)
    (herror : ∀ seen x rest s out more e, seen ++ x :: rest = all → Inv seen s out →
      step s x = (more, .error e) → Good (out ++ more)) :
    Good (out ++ (produce step s xs).1) := by
  induction xs generalizing s seen out with
  | nil =>
    rw [produce_nil, List.append_nil]
    rw [List.append_nil] at hall
    exact hgood s out (hall ▸ hstart)
  | cons x xs ih =>
    cases hx : step s x with
    | mk first ended =>
      cases ended with
      | error e =>
        rw [produce_cons_error hx]
        exact herror seen x xs s out first e hall hstart hx
      | ok middle =>
        rw [produce_cons_ok hx, ← List.append_assoc]
        apply ih _ (hstep seen x xs s out first middle hall hstart hx)
        rw [List.append_assoc, List.singleton_append, hall]

/-- Reading succeeds when every step does. -/
theorem produce_succeeds (Inv : List α → σ → Prop) (hall : seen ++ xs = all)
    (hstart : Inv seen s)
    (hstep : ∀ seen x rest s, seen ++ x :: rest = all → Inv seen s →
      ∃ more s', step s x = (more, .ok s') ∧ Inv (seen ++ [x]) s') :
    ∃ s', (produce step s xs).2 = .ok s' ∧ Inv all s' := by
  induction xs generalizing s seen with
  | nil =>
    refine ⟨s, rfl, ?_⟩
    rw [← hall, List.append_nil]
    exact hstart
  | cons x xs ih =>
    obtain ⟨more, middle, hx, hmiddle⟩ := hstep seen x xs s hall hstart
    rw [produce_cons_ok hx]
    exact ih (by rw [List.append_assoc, List.singleton_append, hall]) hmiddle

end Rules

end Jobtology.Base
