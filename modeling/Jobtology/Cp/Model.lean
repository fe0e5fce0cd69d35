import Mathlib.Algebra.BigOperators.Group.List.Basic
import Mathlib.Algebra.BigOperators.Ring.List
import Mathlib.Algebra.Order.BigOperators.Group.List
import Mathlib.Tactic.Ring
import Mathlib.Tactic.Linarith

/-!
# Constraint-programming models over integer variables

Library for models posted to a CP-SAT style solver: linear expressions, the constraint forms a
model builder posts, variable domains and satisfaction by an assignment. Nothing is said about
search: a solver is only ever assumed to report what `Model.Satisfies` means.
-/

namespace Jobtology.Cp

universe u

/-- Integer combination of variables plus a constant. -/
structure LinearExpr (V : Type u) where
  terms : List (Int × V)
  const : Int

namespace LinearExpr

variable {V : Type u}

/-- Value of the expression under an assignment. -/
def eval (σ : V → Int) (e : LinearExpr V) : Int :=
  (e.terms.map fun t ↦ t.1 * σ t.2).sum + e.const

/-- A single variable. -/
def ofVar (v : V) : LinearExpr V := ⟨[(1, v)], 0⟩

/-- A constant. -/
def ofInt (k : Int) : LinearExpr V := ⟨[], k⟩

/-- Pointwise sum of two expressions. -/
def add (a b : LinearExpr V) : LinearExpr V := ⟨a.terms ++ b.terms, a.const + b.const⟩

/-- Integer multiple of an expression. -/
def smul (k : Int) (a : LinearExpr V) : LinearExpr V :=
  ⟨a.terms.map fun t ↦ (k * t.1, t.2), k * a.const⟩

/-- Sum of a sequence of expressions. -/
def sum (es : List (LinearExpr V)) : LinearExpr V := es.foldr add (ofInt 0)

instance : Add (LinearExpr V) where add := add
instance : Sub (LinearExpr V) where sub a b := a.add (b.smul (-1))
instance : HMul Int (LinearExpr V) (LinearExpr V) where hMul := smul

/-- The value of a variable. -/
@[simp] theorem eval_ofVar (σ : V → Int) (v : V) : (ofVar v).eval σ = σ v := by
  simp [eval, ofVar]

/-- The value of a constant. -/
@[simp] theorem eval_ofInt (σ : V → Int) (k : Int) : (ofInt k : LinearExpr V).eval σ = k := by
  simp [eval, ofInt]

/-- The value of a sum of two. -/
@[simp] theorem eval_add (σ : V → Int) (a b : LinearExpr V) :
    (a + b).eval σ = a.eval σ + b.eval σ := by
  change (add a b).eval σ = _
  simp only [eval, add, List.map_append, List.sum_append]
  ring

/-- The value of a multiple. -/
@[simp] theorem eval_smul (σ : V → Int) (k : Int) (a : LinearExpr V) :
    (k * a).eval σ = k * a.eval σ := by
  change (smul k a).eval σ = _
  simp only [eval, smul, List.map_map, mul_add, ← List.sum_map_mul_left]
  congr 2
  apply List.map_congr_left
  intro t _
  simp only [Function.comp_apply, mul_assoc]

/-- The value of a difference. -/
@[simp] theorem eval_sub (σ : V → Int) (a b : LinearExpr V) :
    (a - b).eval σ = a.eval σ - b.eval σ := by
  change (a + (-1 : Int) * b).eval σ = _
  rw [eval_add, eval_smul]
  ring

/-- The value of a sum. -/
@[simp] theorem eval_sum (σ : V → Int) (es : List (LinearExpr V)) :
    (sum es).eval σ = (es.map (eval σ)).sum := by
  induction es with
  | nil => simp [sum]
  | cons e es ih =>
    change (e + sum es).eval σ = _
    rw [eval_add, ih, List.map_cons, List.sum_cons]

/-- The expression mentions only variables of a given kind. -/
def Within (S : V → Prop) (e : LinearExpr V) : Prop := ∀ t ∈ e.terms, S t.2

/-- A variable is within the set that has it. -/
@[simp] theorem within_ofVar (S : V → Prop) (v : V) : (ofVar v).Within S ↔ S v := by
  simp [Within, ofVar]

/-- A constant has no variables. -/
@[simp] theorem within_ofInt (S : V → Prop) (k : Int) : (ofInt k : LinearExpr V).Within S := by
  simp [Within, ofInt]

/-- The variables of a sum of two. -/
@[simp] theorem within_add (S : V → Prop) (a b : LinearExpr V) :
    (a + b).Within S ↔ a.Within S ∧ b.Within S := by
  change (add a b).Within S ↔ _
  simp only [Within, add, List.forall_mem_append]

/-- The variables of a multiple. -/
@[simp] theorem within_smul (S : V → Prop) (k : Int) (a : LinearExpr V) :
    (k * a).Within S ↔ a.Within S := by
  change (smul k a).Within S ↔ _
  simp only [Within, smul, List.forall_mem_map]

/-- The variables of a difference. -/
@[simp] theorem within_sub (S : V → Prop) (a b : LinearExpr V) :
    (a - b).Within S ↔ a.Within S ∧ b.Within S := by
  change (a + (-1 : Int) * b).Within S ↔ _
  rw [within_add, within_smul]

/-- Every expression mentions only variables of a given kind. -/
def AllWithin (S : V → Prop) (es : List (LinearExpr V)) : Prop := ∀ e ∈ es, e.Within S

/-- The variables of expressions given one by one. -/
@[simp] theorem allWithin_map {ι : Type*} (S : V → Prop) (f : ι → LinearExpr V) (xs : List ι) :
    AllWithin S (xs.map f) ↔ ∀ i ∈ xs, (f i).Within S := by
  simp only [AllWithin, List.forall_mem_map]

/-- The variables of expressions given list by list. -/
@[simp] theorem allWithin_flatMap {ι : Type*} (S : V → Prop) (f : ι → List (LinearExpr V))
    (xs : List ι) : AllWithin S (xs.flatMap f) ↔ ∀ i ∈ xs, AllWithin S (f i) := by
  simp only [AllWithin, List.mem_flatMap]
  exact ⟨fun h i hi e he ↦ h e ⟨i, hi, he⟩, fun h e ⟨i, hi, he⟩ ↦ h i hi e he⟩

/-- The variables of a sum. -/
@[simp] theorem within_sum (S : V → Prop) (es : List (LinearExpr V)) :
    (sum es).Within S ↔ AllWithin S es := by
  unfold AllWithin
  induction es with
  | nil => simp [sum]
  | cons e es ih =>
    change (e + sum es).Within S ↔ _
    rw [within_add, ih, List.forall_mem_cons]

/-- Only the variables an expression mentions matter for its value. -/
theorem eval_congr {S : V → Prop} {σ τ : V → Int} (hS : ∀ v, S v → σ v = τ v)
    {e : LinearExpr V} (h : e.Within S) : e.eval σ = e.eval τ := by
  unfold eval
  congr 2
  apply List.map_congr_left
  intro t ht
  rw [hS t.2 (h t ht)]

end LinearExpr

/-- A Boolean variable or its negation, as an enforcement literal. -/
inductive Literal (V : Type u)
  | pos (v : V)
  | neg (v : V)

/-- A literal holds when its 0/1 variable has the matching value. -/
def Literal.Holds {V : Type u} (σ : V → Int) : Literal V → Prop
  | .pos v => σ v = 1
  | .neg v => σ v = 0

/-- The constraint forms that a model builder posts. -/
inductive Constraint (V : Type u)
  | le (lhs rhs : LinearExpr V)
  | eq (lhs rhs : LinearExpr V)
  | maxEquality (target : LinearExpr V) (exprs : List (LinearExpr V))
  | divisionEquality (target numerator denominator : LinearExpr V)
  | element (index : LinearExpr V) (values : List Int) (target : LinearExpr V)
  | onlyEnforceIf (literal : Literal V) (body : Constraint V)

namespace Constraint

variable {V : Type u}

/-- Meaning of a constraint under an assignment; division truncates towards zero. -/
def Holds (σ : V → Int) : Constraint V → Prop
  | le lhs rhs => lhs.eval σ ≤ rhs.eval σ
  | eq lhs rhs => lhs.eval σ = rhs.eval σ
  | maxEquality target exprs =>
      (∀ e ∈ exprs, e.eval σ ≤ target.eval σ) ∧ ∃ e ∈ exprs, e.eval σ = target.eval σ
  | divisionEquality target num den =>
      den.eval σ ≠ 0 ∧ target.eval σ = (num.eval σ).tdiv (den.eval σ)
  | element index values target =>
      0 ≤ index.eval σ ∧ values[(index.eval σ).toNat]? = some (target.eval σ)
  | onlyEnforceIf literal body => literal.Holds σ → body.Holds σ

instance (σ : V → Int) : DecidablePred (Literal.Holds σ)
  | .pos v => inferInstanceAs (Decidable (σ v = 1))
  | .neg v => inferInstanceAs (Decidable (σ v = 0))

instance decidableHolds (σ : V → Int) : (c : Constraint V) → Decidable (c.Holds σ)
  | le lhs rhs => inferInstanceAs (Decidable (lhs.eval σ ≤ rhs.eval σ))
  | eq lhs rhs => inferInstanceAs (Decidable (lhs.eval σ = rhs.eval σ))
  | maxEquality target exprs =>
      inferInstanceAs (Decidable ((∀ e ∈ exprs, e.eval σ ≤ target.eval σ) ∧
        ∃ e ∈ exprs, e.eval σ = target.eval σ))
  | divisionEquality target num den =>
      inferInstanceAs (Decidable (den.eval σ ≠ 0 ∧
        target.eval σ = (num.eval σ).tdiv (den.eval σ)))
  | element index values target =>
      inferInstanceAs (Decidable (0 ≤ index.eval σ ∧
        values[(index.eval σ).toNat]? = some (target.eval σ)))
  | onlyEnforceIf literal body =>
      have := decidableHolds σ body
      inferInstanceAs (Decidable (literal.Holds σ → body.Holds σ))

/-- An inequality between values. -/
@[simp] theorem holds_le (σ : V → Int) (a b : LinearExpr V) :
    (le a b).Holds σ ↔ a.eval σ ≤ b.eval σ := Iff.rfl

/-- An equality between values. -/
@[simp] theorem holds_eq (σ : V → Int) (a b : LinearExpr V) :
    (eq a b).Holds σ ↔ a.eval σ = b.eval σ := Iff.rfl

/-- A constraint that is enforced by a true variable. -/
@[simp] theorem holds_onlyEnforceIf_pos (σ : V → Int) (v : V) (c : Constraint V) :
    (onlyEnforceIf (.pos v) c).Holds σ ↔ (σ v = 1 → c.Holds σ) := Iff.rfl

/-- A constraint that is enforced by a false variable. -/
@[simp] theorem holds_onlyEnforceIf_neg (σ : V → Int) (v : V) (c : Constraint V) :
    (onlyEnforceIf (.neg v) c).Holds σ ↔ (σ v = 0 → c.Holds σ) := Iff.rfl

/-- The constraint mentions only variables of a given kind. -/
def Within (S : V → Prop) : Constraint V → Prop
  | le lhs rhs => lhs.Within S ∧ rhs.Within S
  | eq lhs rhs => lhs.Within S ∧ rhs.Within S
  | maxEquality target exprs => target.Within S ∧ LinearExpr.AllWithin S exprs
  | divisionEquality target num den => target.Within S ∧ num.Within S ∧ den.Within S
  | element index _ target => index.Within S ∧ target.Within S
  | onlyEnforceIf (.pos v) body => S v ∧ body.Within S
  | onlyEnforceIf (.neg v) body => S v ∧ body.Within S

/-- Assignments that agree on the mentioned variables satisfy the same constraint. -/
theorem holds_congr {S : V → Prop} {σ τ : V → Int} (hS : ∀ v, S v → σ v = τ v)
    {c : Constraint V} (h : c.Within S) : c.Holds σ ↔ c.Holds τ := by
  induction c with
  | le lhs rhs =>
    rw [holds_le, holds_le, LinearExpr.eval_congr hS h.1, LinearExpr.eval_congr hS h.2]
  | eq lhs rhs =>
    rw [holds_eq, holds_eq, LinearExpr.eval_congr hS h.1, LinearExpr.eval_congr hS h.2]
  | maxEquality target exprs =>
    have hexprs (e : LinearExpr V) (he : e ∈ exprs) : e.eval σ = e.eval τ :=
      LinearExpr.eval_congr hS (h.2 e he)
    simp only [Holds, LinearExpr.eval_congr hS h.1]
    refine and_congr (forall₂_congr fun e he ↦ by rw [hexprs e he]) (exists_congr fun e ↦ ?_)
    exact and_congr_right fun he ↦ by rw [hexprs e he]
  | divisionEquality target num den =>
    simp only [Holds, LinearExpr.eval_congr hS h.1, LinearExpr.eval_congr hS h.2.1,
      LinearExpr.eval_congr hS h.2.2]
  | element index values target =>
    simp only [Holds, LinearExpr.eval_congr hS h.1, LinearExpr.eval_congr hS h.2]
  | onlyEnforceIf literal body ih =>
    cases literal with
    | pos v => rw [holds_onlyEnforceIf_pos, holds_onlyEnforceIf_pos, hS v h.1, ih h.2]
    | neg v => rw [holds_onlyEnforceIf_neg, holds_onlyEnforceIf_neg, hS v h.1, ih h.2]

end Constraint

/-- A model: declared variables with inclusive domains, posted constraints, the expression to
maximize and the search hints. Hints carry no meaning for satisfaction. -/
structure Model (V : Type u) where
  domains : List (V × Int × Int)
  constraints : List (Constraint V)
  objective : Option (LinearExpr V)
  hints : List (V × Int)

namespace Model

variable {V : Type u}

/-- Every declared variable lies in its domain. -/
def InDomain (σ : V → Int) (vars : List (V × Int × Int)) : Prop :=
  ∀ d ∈ vars, d.2.1 ≤ σ d.1 ∧ σ d.1 ≤ d.2.2

/-- Every posted constraint holds. -/
def AllHold (σ : V → Int) (cs : List (Constraint V)) : Prop := ∀ c ∈ cs, c.Holds σ

/-- An assignment a sound solver may report for the model. -/
def Satisfies (m : Model V) (σ : V → Int) : Prop :=
  InDomain σ m.domains ∧ AllHold σ m.constraints

instance (σ : V → Int) (vars : List (V × Int × Int)) : Decidable (InDomain σ vars) :=
  inferInstanceAs (Decidable (∀ d ∈ vars, d.2.1 ≤ σ d.1 ∧ σ d.1 ≤ d.2.2))

instance (σ : V → Int) (cs : List (Constraint V)) : Decidable (AllHold σ cs) :=
  inferInstanceAs (Decidable (∀ c ∈ cs, c.Holds σ))

instance (m : Model V) (σ : V → Int) : Decidable (m.Satisfies σ) :=
  inferInstanceAs (Decidable (InDomain σ m.domains ∧ AllHold σ m.constraints))

/-- Domain declaration of a Boolean variable. -/
def boolVar (v : V) : V × Int × Int := (v, 0, 1)

/-- Domains hold one by one. -/
@[simp] theorem inDomain_append (σ : V → Int) (xs ys : List (V × Int × Int)) :
    InDomain σ (xs ++ ys) ↔ InDomain σ xs ∧ InDomain σ ys := by
  simp only [InDomain, List.forall_mem_append]

/-- No constraint is broken where there is none. -/
@[simp] theorem allHold_nil (σ : V → Int) : AllHold σ [] := by simp [AllHold]

/-- Two lists of constraints hold each. -/
@[simp] theorem allHold_append (σ : V → Int) (xs ys : List (Constraint V)) :
    AllHold σ (xs ++ ys) ↔ AllHold σ xs ∧ AllHold σ ys := by
  simp only [AllHold, List.forall_mem_append]

/-- The first constraint holds, and the rest do. -/
@[simp] theorem allHold_cons (σ : V → Int) (c : Constraint V) (cs : List (Constraint V)) :
    AllHold σ (c :: cs) ↔ c.Holds σ ∧ AllHold σ cs := by
  simp only [AllHold, List.forall_mem_cons]

/-- Constraints given one by one hold each. -/
@[simp] theorem allHold_map {ι : Type*} (σ : V → Int) (f : ι → Constraint V) (xs : List ι) :
    AllHold σ (xs.map f) ↔ ∀ i ∈ xs, (f i).Holds σ := by
  simp only [AllHold, List.forall_mem_map]

/-- Constraints given list by list hold each. -/
@[simp] theorem allHold_flatMap {ι : Type*} (σ : V → Int) (f : ι → List (Constraint V))
    (xs : List ι) : AllHold σ (xs.flatMap f) ↔ ∀ i ∈ xs, AllHold σ (f i) := by
  simp only [AllHold, List.mem_flatMap]
  exact ⟨fun h i hi c hc ↦ h c ⟨i, hi, hc⟩, fun h c ⟨i, hi, hc⟩ ↦ h i hi c hc⟩

/-- Every constraint mentions only variables of a given kind. -/
def AllWithin (S : V → Prop) (cs : List (Constraint V)) : Prop := ∀ c ∈ cs, c.Within S

/-- No constraint has no variables. -/
@[simp] theorem allWithin_nil (S : V → Prop) : AllWithin S [] := by simp [AllWithin]

/-- The variables of two lists of constraints. -/
@[simp] theorem allWithin_append (S : V → Prop) (xs ys : List (Constraint V)) :
    AllWithin S (xs ++ ys) ↔ AllWithin S xs ∧ AllWithin S ys := by
  simp only [AllWithin, List.forall_mem_append]

/-- The variables of the first constraint and of the rest. -/
@[simp] theorem allWithin_cons (S : V → Prop) (c : Constraint V) (cs : List (Constraint V)) :
    AllWithin S (c :: cs) ↔ c.Within S ∧ AllWithin S cs := by
  simp only [AllWithin, List.forall_mem_cons]

/-- The variables of constraints given one by one. -/
@[simp] theorem allWithin_map {ι : Type*} (S : V → Prop) (f : ι → Constraint V) (xs : List ι) :
    AllWithin S (xs.map f) ↔ ∀ i ∈ xs, (f i).Within S := by
  simp only [AllWithin, List.forall_mem_map]

/-- The variables of constraints given list by list. -/
@[simp] theorem allWithin_flatMap {ι : Type*} (S : V → Prop) (f : ι → List (Constraint V))
    (xs : List ι) : AllWithin S (xs.flatMap f) ↔ ∀ i ∈ xs, AllWithin S (f i) := by
  simp only [AllWithin, List.mem_flatMap]
  exact ⟨fun h i hi c hc ↦ h c ⟨i, hi, hc⟩, fun h c ⟨i, hi, hc⟩ ↦ h i hi c hc⟩

/-- Assignments that agree on the mentioned variables satisfy the same constraints. -/
theorem allHold_congr {S : V → Prop} {σ τ : V → Int} (hS : ∀ v, S v → σ v = τ v)
    {cs : List (Constraint V)} (h : AllWithin S cs) : AllHold σ cs ↔ AllHold τ cs :=
  forall₂_congr fun c hc ↦ Constraint.holds_congr hS (h c hc)

/-- Assignments that agree on the declared variables lie in the same domains. -/
theorem inDomain_congr {S : V → Prop} {σ τ : V → Int} (hS : ∀ v, S v → σ v = τ v)
    {vars : List (V × Int × Int)} (h : ∀ d ∈ vars, S d.1) : InDomain σ vars ↔ InDomain τ vars :=
  forall₂_congr fun d hd ↦ by rw [hS d.1 (h d hd)]

/-- Boolean variables are zero or one. -/
theorem inDomain_boolVars {ι : Type*} (σ : V → Int) (f : ι → V) (xs : List ι)
    (h : InDomain σ (xs.map fun i ↦ boolVar (f i))) (i : ι) (hi : i ∈ xs) :
    σ (f i) = 0 ∨ σ (f i) = 1 := by
  have hd := h (boolVar (f i)) (List.mem_map.mpr ⟨i, hi, rfl⟩)
  simp only [boolVar] at hd
  omega

end Model

/-- A sum of 0/1 values counts the ones. -/
theorem sum_eq_countP {ι : Type*} (f : ι → Int) (xs : List ι)
    (h : ∀ x ∈ xs, f x = 0 ∨ f x = 1) :
    (xs.map f).sum = ((xs.countP fun x ↦ f x = 1 : Nat) : Int) := by
  induction xs with
  | nil => simp
  | cons x xs ih =>
    have hx := h x (by simp)
    have ht := ih fun y hy ↦ h y (by simp [hy])
    rcases hx with hx | hx <;> simp [hx, ht, add_comm]

end Jobtology.Cp
