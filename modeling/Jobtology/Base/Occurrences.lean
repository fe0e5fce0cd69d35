import Mathlib.Data.List.Infix

/-!
# Occurrences of a text in a text

Library for slices and for the positions where a pattern occurs. Occurrences may overlap.
-/

namespace Jobtology.Base

universe u

variable {α : Type u} {pattern text : List α} {i start stop : Nat}

/-- `text[start:stop]`. -/
def slice (start stop : Nat) (text : List α) : List α := (text.take stop).drop start

/-- A slice takes what is left after dropping. -/
theorem slice_eq : slice start stop text = (text.drop start).take (stop - start) := List.drop_take

/-- The length of a slice is cut at the end of the text. -/
theorem length_slice : (slice start stop text).length = min stop text.length - start := by
  unfold slice
  rw [List.length_drop, List.length_take]

/-- An element of a slice is one of the text. -/
theorem getElem?_slice {k : Nat} (h : start + k < stop) :
    (slice start stop text)[k]? = text[start + k]? := by
  unfold slice
  rw [List.getElem?_drop, List.getElem?_take_of_lt h]

/-- A slice of two texts in a row is a slice of each. -/
theorem slice_append (start stop : Nat) (xs ys : List α) :
    slice start stop (xs ++ ys) =
      slice start stop xs ++ slice (start - xs.length) (stop - xs.length) ys := by
  unfold slice
  rw [List.take_append, List.drop_append, List.length_take]
  by_cases h : xs.length ≤ stop
  · rw [Nat.min_eq_right h]
  · rw [show stop - xs.length = 0 by omega, List.take_zero, List.drop_nil, List.drop_nil]

/-- What stands from a start on is the slice to a stop and what stands from there on. -/
theorem slice_append_drop (h : start ≤ stop) (text : List α) :
    slice start stop text ++ text.drop stop = text.drop start := by
  rw [slice_eq, show text.drop stop = (text.drop start).drop (stop - start) by
    rw [List.drop_drop, Nat.add_sub_cancel' h]]
  exact List.take_append_drop _ _

/-- What stands up to a stop is what stands up to a start and the slice from there. -/
theorem take_append_slice (h : start ≤ stop) (text : List α) :
    text.take start ++ slice start stop text = text.take stop := by
  have hdrop := slice_append_drop (Nat.zero_le start) (text.take stop)
  unfold slice at hdrop ⊢
  rwa [List.drop_zero, List.take_take, Nat.min_eq_left h] at hdrop

/-- A pattern at a position is the slice there. -/
theorem slice_eq_of_isPrefix (h : pattern <+: text.drop start) :
    slice start (start + pattern.length) text = pattern := by
  rw [slice_eq, Nat.add_sub_cancel_left]
  exact (List.prefix_iff_eq_take.mp h).symm

/-- A slice stands at its start. -/
theorem slice_isPrefix : slice start stop text <+: text.drop start := by
  rw [slice_eq]
  exact List.take_prefix _ _

variable [DecidableEq α]

/-- The positions of a pattern in a text, in order. -/
def occurrences (pattern text : List α) : List Nat :=
  (List.range (text.length + 1)).filter fun i ↦ pattern <+: text.drop i

/-- An occurrence is a place where the text goes on with the pattern. -/
theorem mem_occurrences :
    i ∈ occurrences pattern text ↔ i ≤ text.length ∧ pattern <+: text.drop i := by
  unfold occurrences
  rw [List.mem_filter, List.mem_range, Nat.lt_succ_iff, decide_eq_true_iff]

end Jobtology.Base
