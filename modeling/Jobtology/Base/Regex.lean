import Mathlib.Computability.Language

/-!
# Patterns of a whole text

Library for `re.fullmatch`. A pattern is built from classes of symbols, so that a class may be the
complement of another; what it matches is a `Language`, and Brzozowski derivatives decide it.
-/

namespace Jobtology.Base

open Computability

universe u

/-- Classes of symbols, alternatives, sequences and repetitions. -/
inductive Regex (α : Type u) : Type u
  | never
  | nothing
  | one (member : α → Bool)
  | alt (r s : Regex α)
  | seq (r s : Regex α)
  | star (r : Regex α)

namespace Regex

variable {α : Type u}

/-- The words that a pattern matches in full. -/
def language : Regex α → Language α
  | never => 0
  | nothing => 1
  | one member => {w | ∃ a, member a = true ∧ w = [a]}
  | alt r s => r.language + s.language
  | seq r s => r.language * s.language
  | star r => r.language∗

/-- Whether a pattern matches the empty word. -/
def nullable : Regex α → Bool
  | never => false
  | nothing => true
  | one _ => false
  | alt r s => r.nullable || s.nullable
  | seq r s => r.nullable && s.nullable
  | star _ => true

/-- What is left to match after one symbol. -/
def deriv (a : α) : Regex α → Regex α
  | never => never
  | nothing => never
  | one member => if member a then nothing else never
  | alt r s => alt (r.deriv a) (s.deriv a)
  | seq r s => if r.nullable then alt (seq (r.deriv a) s) (s.deriv a) else seq (r.deriv a) s
  | star r => seq (r.deriv a) (star r)

/-- `re.fullmatch`. -/
def fullmatch (r : Regex α) : List α → Bool
  | [] => r.nullable
  | a :: w => (r.deriv a).fullmatch w

/-! ## Constructions -/

/-- A fixed word. -/
def word [DecidableEq α] : List α → Regex α
  | [] => nothing
  | a :: w => seq (one (· = a)) (word w)

/-- `r?`. -/
def opt (r : Regex α) : Regex α := alt nothing r

/-- `r+`. -/
def plus (r : Regex α) : Regex α := seq r (star r)

/-- `r{0,n}`. -/
def upTo (r : Regex α) : Nat → Regex α
  | 0 => nothing
  | n + 1 => opt (seq r (upTo r n))

/-- `r{n}`. -/
def times (r : Regex α) : Nat → Regex α
  | 0 => nothing
  | n + 1 => seq r (times r n)

/-- One of several patterns. -/
def choice : List (Regex α) → Regex α
  | [] => never
  | r :: rs => alt r (choice rs)

/-! ## Membership -/

section Membership

variable {r s : Regex α} {w : List α} {a : α}

/-- Nothing matches `never`. -/
@[simp] theorem not_mem_never : w ∉ (never : Regex α).language := fun h ↦ h

/-- The empty word alone matches `nothing`. -/
@[simp] theorem mem_nothing : w ∈ (nothing : Regex α).language ↔ w = [] := Iff.rfl

/-- One letter of the class matches. -/
@[simp] theorem mem_one {member : α → Bool} :
    w ∈ (one member).language ↔ ∃ a, member a = true ∧ w = [a] := Iff.rfl

/-- An alternative matches what one of the two matches. -/
@[simp] theorem mem_alt : w ∈ (alt r s).language ↔ w ∈ r.language ∨ w ∈ s.language := Iff.rfl

/-- A sequence matches a word of the first and one of the second. -/
theorem mem_seq :
    w ∈ (seq r s).language ↔ ∃ u ∈ r.language, ∃ v ∈ s.language, u ++ v = w := by
  simp only [language, Language.mem_mul]

/-- A star matches the words put together from nonempty matches. -/
theorem mem_star :
    w ∈ (star r).language ↔ ∃ parts : List (List α), w = parts.flatten ∧
      ∀ part ∈ parts, part ∈ r.language ∧ part ≠ [] := by
  simp only [language, Language.mem_kstar_iff_exists_nonempty]

/-- Two matches one after the other match the sequence. -/
theorem append_mem_seq {u v : List α} (hu : u ∈ r.language) (hv : v ∈ s.language) :
    u ++ v ∈ (seq r s).language :=
  mem_seq.2 ⟨u, hu, v, hv, rfl⟩

/-- A star matches the empty word. -/
theorem nil_mem_star : [] ∈ (star r).language := mem_star.2 ⟨[], rfl, by simp⟩

/-- A match goes before a match of the star. -/
theorem append_mem_star {u v : List α} (hu : u ∈ r.language) (hv : v ∈ (star r).language) :
    u ++ v ∈ (star r).language := by
  by_cases hne : u = []
  · rwa [hne, List.nil_append]
  · obtain ⟨parts, rfl, hparts⟩ := mem_star.1 hv
    apply mem_star.2
    refine ⟨u :: parts, rfl, ?_⟩
    intro part hpart
    cases hpart with
    | head => exact ⟨hu, hne⟩
    | tail _ hpart => exact hparts part hpart

/-- A repeated class matches the texts over the class. -/
theorem mem_star_one {member : α → Bool} :
    w ∈ (star (one member)).language ↔ ∀ a ∈ w, member a = true := by
  constructor
  · intro h a ha
    obtain ⟨parts, rfl, hparts⟩ := mem_star.1 h
    obtain ⟨part, hpart, hmem⟩ := List.mem_flatten.1 ha
    obtain ⟨b, hb, rfl⟩ := mem_one.1 (hparts part hpart).1
    rwa [List.mem_singleton.1 hmem]
  · intro h
    induction w with
    | nil => exact nil_mem_star
    | cons a w ih =>
      have ha : [a] ∈ (one member).language := ⟨a, h a (by simp), rfl⟩
      exact append_mem_star ha (ih fun b hb ↦ h b (by simp [hb]))

/-- One or more letters of the class match. -/
theorem mem_plus_one {member : α → Bool} :
    w ∈ (plus (one member)).language ↔ w ≠ [] ∧ ∀ a ∈ w, member a = true := by
  simp only [plus, mem_seq, mem_one, mem_star_one]
  constructor
  · rintro ⟨_, ⟨a, ha, rfl⟩, v, hv, rfl⟩
    exact ⟨by simp, by simpa [ha] using hv⟩
  · intro ⟨hne, h⟩
    cases w with
    | nil => exact absurd rfl hne
    | cons a w =>
      exact ⟨[a], ⟨a, h a (by simp), rfl⟩, w, fun b hb ↦ h b (by simp [hb]), rfl⟩

/-- A word matches itself alone. -/
@[simp] theorem mem_word [DecidableEq α] {text : List α} :
    w ∈ (word text).language ↔ w = text := by
  induction text generalizing w with
  | nil => exact Iff.rfl
  | cons a text ih =>
    simp only [word, mem_seq, mem_one, decide_eq_true_eq, ih]
    constructor
    · rintro ⟨_, ⟨b, rfl, rfl⟩, _, rfl, rfl⟩
      rfl
    · rintro rfl
      exact ⟨[a], ⟨a, rfl, rfl⟩, text, rfl, rfl⟩

/-- A word matches itself. -/
theorem self_mem_word [DecidableEq α] (text : List α) : text ∈ (word text).language :=
  mem_word.2 rfl

/-- An option matches the empty word too. -/
@[simp] theorem mem_opt : w ∈ (opt r).language ↔ w = [] ∨ w ∈ r.language := Iff.rfl

/-- A choice matches what one of its expressions matches. -/
theorem mem_choice {rs : List (Regex α)} :
    w ∈ (choice rs).language ↔ ∃ r ∈ rs, w ∈ r.language := by
  induction rs with
  | nil => simp [choice]
  | cons r rs ih => simp [choice, ih]

/-! ## Derivatives decide the language -/

/-- An expression is nullable exactly if it matches the empty word. -/
theorem nullable_iff : r.nullable = true ↔ [] ∈ r.language := by
  induction r with
  | never => simp [nullable]
  | nothing => simp [nullable]
  | one member => simp [nullable]
  | alt r s ihr ihs => simp [nullable, ihr, ihs]
  | seq r s ihr ihs => simp [nullable, mem_seq, ihr, ihs]
  | star r _ => simpa [nullable] using nil_mem_star

/-- A nonempty word of a product starts in the first factor, unless that factor is empty. -/
theorem cons_mem_seq :
    a :: w ∈ (seq r s).language ↔
      (∃ u, a :: u ∈ r.language ∧ ∃ v ∈ s.language, u ++ v = w) ∨
        ([] ∈ r.language ∧ a :: w ∈ s.language) := by
  rw [mem_seq]
  constructor
  · rintro ⟨u, hu, v, hv, heq⟩
    cases u with
    | nil => exact .inr ⟨hu, heq ▸ hv⟩
    | cons b u =>
      injection heq with hb ht
      subst hb
      exact .inl ⟨u, hu, v, hv, ht⟩
  · rintro (⟨u, hu, v, hv, rfl⟩ | ⟨hnil, hv⟩)
    · exact ⟨a :: u, hu, v, hv, rfl⟩
    · exact ⟨[], hnil, a :: w, hv, rfl⟩

/-- A nonempty word of a repetition starts with a nonempty word of the repeated pattern. -/
theorem cons_mem_star :
    a :: w ∈ (star r).language ↔
      ∃ u, a :: u ∈ r.language ∧ ∃ v ∈ (star r).language, u ++ v = w := by
  constructor
  · intro h
    obtain ⟨parts, hw, hparts⟩ := mem_star.1 h
    cases parts with
    | nil => exact absurd hw (by simp)
    | cons part parts =>
      have hfirst := hparts part (by simp)
      cases part with
      | nil => exact absurd rfl hfirst.2
      | cons b u =>
        simp only [List.flatten_cons, List.cons_append] at hw
        injection hw with hb ht
        subst hb
        refine ⟨u, hfirst.1, parts.flatten, mem_star.2 ⟨parts, rfl, ?_⟩, ht.symm⟩
        intro part hpart
        exact hparts part (List.mem_cons_of_mem _ hpart)
  · rintro ⟨u, hu, v, hv, rfl⟩
    obtain ⟨parts, rfl, hparts⟩ := mem_star.1 hv
    apply mem_star.2
    refine ⟨(a :: u) :: parts, by simp, ?_⟩
    intro part hpart
    cases hpart with
    | head => exact ⟨hu, by simp⟩
    | tail _ hpart => exact hparts part hpart

/-- The derivative matches what follows the letter. -/
theorem mem_deriv : w ∈ (r.deriv a).language ↔ a :: w ∈ r.language := by
  induction r generalizing w with
  | never => simp [deriv]
  | nothing => simp [deriv]
  | one member =>
    by_cases hmember : member a = true
    · simp [deriv, hmember]
    · simp [deriv, hmember]
  | alt r s ihr ihs => simp [deriv, ihr, ihs]
  | seq r s ihr ihs =>
    rw [cons_mem_seq, ← nullable_iff]
    by_cases hnull : r.nullable = true
    · simp [deriv, hnull, mem_seq, ihr, ihs]
    · simp [deriv, hnull, mem_seq, ihr]
  | star r ih =>
    rw [cons_mem_star]
    simp only [deriv, mem_seq, ih]

/-- The matcher accepts exactly the language. -/
theorem fullmatch_iff : r.fullmatch w = true ↔ w ∈ r.language := by
  induction w generalizing r with
  | nil => exact nullable_iff
  | cons a w ih => rw [fullmatch, ih, mem_deriv]

/-! ## Symbols that cannot occur -/

/-- No class of the pattern has the symbol. -/
def avoids (a : α) : Regex α → Bool
  | never => true
  | nothing => true
  | one member => !member a
  | alt r s => r.avoids a && s.avoids a
  | seq r s => r.avoids a && s.avoids a
  | star r => r.avoids a

/-- An expression that avoids a letter matches no word with it. -/
theorem not_mem_of_avoids (h : r.avoids a = true) (hw : w ∈ r.language) : a ∉ w := by
  induction r generalizing w with
  | never => exact absurd hw not_mem_never
  | nothing => simp_all
  | one member =>
    obtain ⟨b, hb, rfl⟩ := hw
    intro hmem
    rw [List.mem_singleton.1 hmem] at h
    simp [avoids, hb] at h
  | alt r s ihr ihs =>
    simp only [avoids, Bool.and_eq_true] at h
    cases hw with
    | inl hw => exact ihr h.1 hw
    | inr hw => exact ihs h.2 hw
  | seq r s ihr ihs =>
    simp only [avoids, Bool.and_eq_true] at h
    obtain ⟨u, hu, v, hv, rfl⟩ := mem_seq.1 hw
    rw [List.mem_append, not_or]
    exact ⟨ihr h.1 hu, ihs h.2 hv⟩
  | star r ih =>
    obtain ⟨parts, rfl, hparts⟩ := mem_star.1 hw
    rw [List.mem_flatten]
    rintro ⟨part, hpart, hmem⟩
    exact ih h (hparts part hpart).1 hmem

end Membership

end Regex

end Jobtology.Base
