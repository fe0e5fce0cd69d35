import Jobtology.Base.Collections

/-!
# Text operations

Library for `str.strip`, `str.rsplit` and `str.startswith`.
-/

namespace Jobtology.Base

/-- Texts in lists of texts are found by their equality. -/
instance lawfulTexts : LawfulBEq (List Char) := inferInstance

/-- `str.strip`. -/
def strip (cs : List Char) : List Char :=
  ((cs.dropWhile isSpace).reverse.dropWhile isSpace).reverse

/-! ### Stripping -/

/-- Neither end of a text is a blank. -/
structure Trimmed (cs : List Char) : Prop where
  first : ∀ c ∈ cs.head?, isSpace c = false
  last : ∀ c ∈ cs.getLast?, isSpace c = false

private theorem dropWhile_of_head {p : Char → Bool} {cs : List Char}
    (h : ∀ c ∈ cs.head?, p c = false) : cs.dropWhile p = cs := by
  cases cs with
  | nil => rfl
  | cons c cs => rw [List.dropWhile_cons_of_neg (by simp [h c rfl])]

private theorem head_dropWhile {p : Char → Bool} (cs : List Char) :
    ∀ c ∈ (cs.dropWhile p).head?, p c = false := by
  intro c hc
  have h := List.head?_dropWhile_not p cs
  rw [Option.mem_def.1 hc] at h
  simpa using h

/-- A text without blanks at its ends is left alone. -/
theorem strip_of_trimmed {cs : List Char} (h : Trimmed cs) : strip cs = cs := by
  unfold strip
  rw [dropWhile_of_head h.first, dropWhile_of_head (by simpa using h.last), List.reverse_reverse]

private theorem prefix_strip (cs : List Char) : strip cs <+: cs.dropWhile isSpace := by
  rw [← List.reverse_reverse (cs.dropWhile isSpace)]
  exact List.reverse_prefix.2 (List.dropWhile_suffix _)

/-- A stripped text is trimmed. -/
theorem trimmed_strip (cs : List Char) : Trimmed (strip cs) := by
  refine ⟨?_, ?_⟩
  · intro c hc
    obtain ⟨rest, hrest⟩ := prefix_strip cs
    refine head_dropWhile cs c ?_
    rw [← hrest, List.head?_append, Option.mem_def.1 hc, Option.some_or]
    exact rfl
  · intro c hc
    rw [strip, List.getLast?_reverse] at hc
    exact head_dropWhile _ c hc

/-- A stripped text is a part of the text. -/
theorem infix_strip (cs : List Char) : strip cs <:+: cs :=
  (prefix_strip cs).isInfix.trans (List.dropWhile_suffix _).isInfix

/-- Stripping twice is stripping once. -/
@[simp] theorem strip_strip (cs : List Char) : strip (strip cs) = strip cs :=
  strip_of_trimmed (trimmed_strip cs)

/-! ### Parts of a text -/

/-- The parts between separators have none. -/
theorem not_mem_of_mem_splitOn {sep : Char} {cs part : List Char} (h : part ∈ cs.splitOn sep) :
    sep ∉ part := by
  induction cs generalizing part with
  | nil =>
    have hpart : part = [] := by simpa using h
    simp [hpart]
  | cons c cs ih =>
    rw [List.splitOn_cons_eq_if_modifyHead] at h
    split at h
    · cases h with
      | head => simp
      | tail _ h => exact ih h
    · next hc =>
      cases hparts : cs.splitOn sep with
      | nil => exact absurd hparts (List.splitOn_ne_nil sep cs)
      | cons first rest =>
        rw [hparts] at h ih
        cases h with
        | head =>
          simp only [List.mem_cons, not_or]
          exact ⟨fun heq ↦ hc (by simp [heq]), ih List.mem_cons_self⟩
        | tail _ h => exact ih (List.mem_cons_of_mem _ h)

/-- `text.rsplit(separator, 1)[-1]`: what comes after the last separator. -/
def lastPart (separator : Char) (text : String) : String :=
  String.ofList (text.toList.reverse.takeWhile (· ≠ separator)).reverse

/-- `text.startswith(front)`. -/
def StartsWith (text front : String) : Prop := front.toList <+: text.toList

instance (text front : String) : Decidable (StartsWith text front) :=
  inferInstanceAs (Decidable (_ <+: _))

end Jobtology.Base
