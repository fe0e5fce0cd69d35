import Mathlib.Order.Basic
import Mathlib.Tactic.SplitIfs

/-!
# Pruned trees

Library for trees of labelled nodes from which subtrees are removed. Whether a subtree is removed
may depend on the nodes around it; a rule that reads the same before and after removes nothing the
second time.
-/

namespace Jobtology.Base

universe u

/-- A tree of labelled nodes. -/
inductive RoseTree (α : Type u) : Type u
  | node (label : α) (children : List (RoseTree α))

namespace RoseTree

variable {α : Type u}

/-- The label of the root. -/
def label : RoseTree α → α
  | node label _ => label

/-- The subtrees of the root, in order. -/
def children : RoseTree α → List (RoseTree α)
  | node _ children => children

mutual

/-- The number of nodes. -/
def size : RoseTree α → Nat
  | node _ children => sizeAll children + 1

/-- The number of nodes of several trees. -/
def sizeAll : List (RoseTree α) → Nat
  | [] => 0
  | child :: rest => child.size + sizeAll rest

end

/-- No tree is empty. -/
theorem size_pos (t : RoseTree α) : 0 < t.size := by
  cases t
  exact Nat.succ_pos _

section Prune

variable (hidden : List (RoseTree α) → RoseTree α → Prop)
  [∀ ancestors t, Decidable (hidden ancestors t)]

mutual

/-- The tree without its hidden subtrees, which are judged with the nodes around them, innermost
first. -/
def prune (ancestors : List (RoseTree α)) : RoseTree α → RoseTree α
  | node label children => node label (pruneAll ancestors children)

/-- The trees that are not hidden, without their hidden subtrees. -/
def pruneAll (ancestors : List (RoseTree α)) : List (RoseTree α) → List (RoseTree α)
  | [] => []
  | child :: rest =>
    if hidden ancestors child then pruneAll ancestors rest
    else prune (child :: ancestors) child :: pruneAll ancestors rest

end

/-- The nodes around a node in the pruned tree. -/
def pruneChain : List (RoseTree α) → List (RoseTree α)
  | [] => []
  | t :: ancestors => prune hidden (t :: ancestors) t :: pruneChain ancestors

/-- The rule reads the same in the pruned tree. -/
def Stable : Prop :=
  ∀ ancestors t, hidden (pruneChain hidden ancestors) (prune hidden (t :: ancestors) t) ↔
    hidden ancestors t

variable {hidden} {ancestors : List (RoseTree α)}

/-- Pruning keeps the label of the root. -/
@[simp] theorem label_prune (t : RoseTree α) : (prune hidden ancestors t).label = t.label := by
  cases t
  rfl

/-- The children of a pruned tree are pruned. -/
theorem children_prune (t : RoseTree α) :
    (prune hidden ancestors t).children = pruneAll hidden ancestors t.children := by
  cases t
  rfl

mutual

/-- Pruning makes no tree greater. -/
theorem size_prune_le (ancestors : List (RoseTree α)) (t : RoseTree α) :
    (prune hidden ancestors t).size ≤ t.size :=
  match t with
  | node _ children => Nat.succ_le_succ (sizeAll_pruneAll_le ancestors children)

/-- Pruning makes no trees greater. -/
theorem sizeAll_pruneAll_le (ancestors : List (RoseTree α)) (ts : List (RoseTree α)) :
    sizeAll (pruneAll hidden ancestors ts) ≤ sizeAll ts :=
  match ts with
  | [] => Nat.le_refl 0
  | child :: rest => by
    have hchild := size_prune_le (child :: ancestors) child
    have hrest := sizeAll_pruneAll_le ancestors rest
    unfold pruneAll
    split_ifs
    · exact Nat.le_trans hrest (Nat.le_add_left _ _)
    · exact Nat.add_le_add hchild hrest

end

/-- Trees stay as they are when none is hidden and each stays as it is. -/
theorem pruneAll_cons_eq_self_iff {child : RoseTree α} {rest : List (RoseTree α)} :
    pruneAll hidden ancestors (child :: rest) = child :: rest ↔ ¬hidden ancestors child ∧
      prune hidden (child :: ancestors) child = child ∧ pruneAll hidden ancestors rest = rest := by
  rw [pruneAll]
  split_ifs with hchild
  · refine iff_of_false (fun h ↦ ?_) fun h ↦ h.1 hchild
    have hsize := @sizeAll_pruneAll_le _ hidden _ ancestors rest
    have hpos := size_pos child
    rw [h, sizeAll] at hsize
    omega
  · rw [List.cons_eq_cons]
    simp only [hchild, not_false_eq_true, true_and]

/-- A tree is pruned already exactly if its children are. -/
theorem prune_eq_self_iff {label : α} {children : List (RoseTree α)} :
    prune hidden ancestors (node label children) = node label children ↔
      pruneAll hidden ancestors children = children := by
  rw [prune, node.injEq]
  exact and_iff_right rfl

mutual

/-- A stable rule removes nothing the second time. -/
theorem prune_prune (hstable : Stable hidden) (ancestors : List (RoseTree α)) (t : RoseTree α) :
    prune hidden (pruneChain hidden ancestors) (prune hidden ancestors t) =
      prune hidden ancestors t :=
  match t with
  | node label children => congrArg (node label) (pruneAll_pruneAll hstable ancestors children)

/-- Pruning by a stable test twice is pruning once. -/
theorem pruneAll_pruneAll (hstable : Stable hidden) (ancestors : List (RoseTree α))
    (ts : List (RoseTree α)) :
    pruneAll hidden (pruneChain hidden ancestors) (pruneAll hidden ancestors ts) =
      pruneAll hidden ancestors ts :=
  match ts with
  | [] => rfl
  | child :: rest => by
    have hchild := prune_prune hstable (child :: ancestors) child
    have hrest := pruneAll_pruneAll hstable ancestors rest
    rw [pruneAll]
    split_ifs with hhidden
    · exact hrest
    · rw [pruneAll, if_neg ((hstable ancestors child).not.mpr hhidden), hrest]
      exact congrArg (· :: _) hchild

end

end Prune

end RoseTree

end Jobtology.Base
