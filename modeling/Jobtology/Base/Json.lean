import Mathlib.Data.List.Sort
import Mathlib.Order.Lattice

/-!
# JSON documents and their text

Library for `json.dumps(..., sort_keys=True)`: documents, the text that is written for them, and
unique readability: two documents have one text only when they are equal up to the order of the
members of their objects.
-/

namespace Jobtology.Base

/-- The characters of numbers. -/
def isNumberChar (c : Char) : Bool := c.isDigit || c ∈ ['-', '+', '.', 'e']

/-- A finite float as `float.__repr__` writes it: always with a point or an exponent. -/
structure FloatText where
  text : List Char
  number : text.all isNumberChar = true
  float : '.' ∈ text ∨ 'e' ∈ text

/-- A JSON document. The members of an object stand in the order in which they are set. -/
inductive Json
  | null
  | bool (b : Bool)
  | int (n : Int)
  | float (x : FloatText)
  | str (s : String)
  | arr (items : List Json)
  | obj (members : List (String × Json))

namespace Json

/-- Options of `json.dumps`: `ensure_ascii`, and separators with a space after them. -/
structure Format where
  ensureAscii : Bool
  spaced : Bool

/-- A separator. -/
def Format.separator (f : Format) (c : Char) : List Char := if f.spaced then [c, ' '] else [c]

/-- Four digits of a code unit. -/
def hexDigits (n : Nat) : List Char :=
  [Nat.digitChar (n / 4096 % 16), Nat.digitChar (n / 256 % 16), Nat.digitChar (n / 16 % 16),
    Nat.digitChar (n % 16)]

/-- The escape of a code point, in two code units beyond the first plane. -/
def unicodeEscape (n : Nat) : List Char :=
  if n < 65536 then '\\' :: 'u' :: hexDigits n
  else '\\' :: 'u' :: hexDigits (55296 + (n - 65536) / 1024) ++
    '\\' :: 'u' :: hexDigits (56320 + (n - 65536) % 1024)

/-- The text of a character inside a string. -/
def escape (ensureAscii : Bool) (c : Char) : List Char :=
  if c = '"' then ['\\', '"']
  else if c = '\\' then ['\\', '\\']
  else if c = '\n' then ['\\', 'n']
  else if c = '\r' then ['\\', 'r']
  else if c = '\t' then ['\\', 't']
  else if c = '\x08' then ['\\', 'b']
  else if c = '\x0c' then ['\\', 'f']
  else if c.toNat < 32 ∨ (ensureAscii = true ∧ 126 < c.toNat) then unicodeEscape c.toNat
  else [c]

/-- The text of a string. -/
def quote (f : Format) (s : String) : List Char :=
  '"' :: s.toList.flatMap (escape f.ensureAscii) ++ ['"']

/-- The text of an integer. -/
def writeInt : Int → List Char
  | .ofNat n => Nat.toDigits 10 n
  | .negSucc n => '-' :: Nat.toDigits 10 (n + 1)

mutual

/-- The text of a document, its members in their order. -/
def write (f : Format) : Json → List Char
  | null => ['n', 'u', 'l', 'l']
  | bool b => if b then ['t', 'r', 'u', 'e'] else ['f', 'a', 'l', 's', 'e']
  | int n => writeInt n
  | float x => x.text
  | str s => quote f s
  | arr items => '[' :: writeItems f [] items ++ [']']
  | obj members => '{' :: writeMembers f [] members ++ ['}']
termination_by structural j => j

/-- The text of items, a separator before each but the first. -/
def writeItems (f : Format) (before : List Char) : List Json → List Char
  | [] => []
  | item :: rest => before ++ write f item ++ writeItems f (f.separator ',') rest
termination_by structural items => items

/-- The text of members. -/
def writeMembers (f : Format) (before : List Char) : List (String × Json) → List Char
  | [] => []
  | member :: rest => before ++ writeMember f member ++ writeMembers f (f.separator ',') rest
termination_by structural members => members

/-- The text of one member. -/
def writeMember (f : Format) : String × Json → List Char
  | (key, value) => quote f key ++ f.separator ':' ++ write f value
termination_by structural member => member

end

/-- Members by their keys. -/
def keyOrder (a b : String × Json) : Prop := a.1 ≤ b.1

instance : DecidableRel keyOrder := fun _ _ ↦ inferInstanceAs (Decidable (_ ≤ _))

mutual

/-- The document with the members of every object in the order of their keys. -/
def sortKeys : Json → Json
  | null => null
  | bool b => bool b
  | int n => int n
  | float x => float x
  | str s => str s
  | arr items => arr (sortKeysItems items)
  | obj members => obj ((sortKeysMembers members).insertionSort keyOrder)
termination_by structural j => j

/-- The items, each with sorted keys. -/
def sortKeysItems : List Json → List Json
  | [] => []
  | item :: rest => sortKeys item :: sortKeysItems rest
termination_by structural items => items

/-- The members, each with sorted keys. -/
def sortKeysMembers : List (String × Json) → List (String × Json)
  | [] => []
  | member :: rest => sortKeysMember member :: sortKeysMembers rest
termination_by structural members => members

/-- The member with sorted keys. -/
def sortKeysMember : String × Json → String × Json
  | (key, value) => (key, sortKeys value)
termination_by structural member => member

end

/-- A value, or null. -/
def optional {α : Type} (f : α → Json) : Option α → Json
  | none => null
  | some a => f a

/-- An array of strings. -/
def strings (xs : List String) : Json := arr (xs.map str)

/-- `json.dumps(..., sort_keys=True)`. -/
def dumps (f : Format) (j : Json) : String := String.ofList (j.sortKeys.write f)

/-! ### The order of members -/

/-- Items are sorted one by one. -/
theorem sortKeysItems_eq_map (items : List Json) : sortKeysItems items = items.map sortKeys := by
  induction items with
  | nil => rfl
  | cons item rest ih => rw [sortKeysItems, List.map_cons, ih]

/-- Members are sorted one by one. -/
theorem sortKeysMembers_eq_map (members : List (String × Json)) :
    sortKeysMembers members = members.map fun m ↦ (m.1, m.2.sortKeys) := by
  induction members with
  | nil => rfl
  | cons member rest ih =>
    obtain ⟨key, value⟩ := member
    rw [sortKeysMembers, List.map_cons, ih, sortKeysMember]

/-- Objects that are equal up to the order of members have equal members. -/
theorem exists_member {xs ys : List (String × Json)}
    (h : (obj xs).sortKeys = (obj ys).sortKeys) {k : String} {v : Json} (hmem : (k, v) ∈ xs) :
    ∃ w, (k, w) ∈ ys ∧ w.sortKeys = v.sortKeys := by
  rw [sortKeys, sortKeys, obj.injEq, sortKeysMembers_eq_map, sortKeysMembers_eq_map] at h
  have hsorted : (k, v.sortKeys) ∈ ys.map fun m ↦ (m.1, m.2.sortKeys) := by
    rw [← List.mem_insertionSort keyOrder, ← h, List.mem_insertionSort]
    exact List.mem_map_of_mem (f := fun m : String × Json ↦ (m.1, m.2.sortKeys)) hmem
  obtain ⟨⟨l, w⟩, hw, heq⟩ := List.mem_map.mp hsorted
  obtain ⟨rfl, hvalue⟩ := Prod.mk.inj heq
  exact ⟨w, hw, hvalue⟩

/-- Arrays that are equal up to the order of members have items that are. -/
theorem map_sortKeys_eq {xs ys : List Json} (h : (arr xs).sortKeys = (arr ys).sortKeys) :
    xs.map sortKeys = ys.map sortKeys := by
  rw [sortKeys, sortKeys, arr.injEq, sortKeysItems_eq_map, sortKeysItems_eq_map] at h
  exact h

/-- An optional value that is never null is known from its document. -/
theorem optional_sortKeys_inj {α : Type} {f : α → Json} (hnull : ∀ a, (f a).sortKeys ≠ null)
    (hf : ∀ a b, (f a).sortKeys = (f b).sortKeys → a = b) {x y : Option α}
    (h : (optional f x).sortKeys = (optional f y).sortKeys) : x = y := by
  cases x with
  | none =>
    cases y with
    | none => rfl
    | some b => exact absurd h.symm (hnull b)
  | some a =>
    cases y with
    | none => exact absurd h (hnull a)
    | some b => exact congrArg some (hf a b h)

/-! ### Characters and strings -/

/-- The number that a digit stands for. -/
def digitValue (c : Char) : Nat := if c.isDigit then c.toNat - 48 else c.toNat - 87

/-- The number that four digits of a code unit stand for. -/
def hexValue (a b c d : Char) : Nat :=
  digitValue a * 4096 + digitValue b * 256 + digitValue c * 16 + digitValue d

/-- The character at the front of the text of a string, and the text after it. -/
def readChar : List Char → Option (Char × List Char)
  | '\\' :: 'n' :: rest => some ('\n', rest)
  | '\\' :: 'r' :: rest => some ('\r', rest)
  | '\\' :: 't' :: rest => some ('\t', rest)
  | '\\' :: 'b' :: rest => some ('\x08', rest)
  | '\\' :: 'f' :: rest => some ('\x0c', rest)
  | '\\' :: 'u' :: a :: b :: c :: d :: rest =>
    let unit := hexValue a b c d
    if 55296 ≤ unit ∧ unit < 56320 then
      match rest with
      | '\\' :: 'u' :: e :: f :: g :: h :: rest =>
        some (Char.ofNat (65536 + (unit - 55296) * 1024 + (hexValue e f g h - 56320)), rest)
      | _ => none
    else some (Char.ofNat unit, rest)
  | '\\' :: c :: rest => some (c, rest)
  | c :: rest => some (c, rest)
  | [] => none

private theorem digitValue_digitChar : ∀ n < 16, digitValue (Nat.digitChar n) = n := by
  decide

private theorem hexValue_hexDigits {n : Nat} (h : n < 65536) :
    hexValue (Nat.digitChar (n / 4096 % 16)) (Nat.digitChar (n / 256 % 16))
      (Nat.digitChar (n / 16 % 16)) (Nat.digitChar (n % 16)) = n := by
  unfold hexValue
  have hdigit (m : Nat) : digitValue (Nat.digitChar (m % 16)) = m % 16 :=
    digitValue_digitChar _ (Nat.mod_lt m (by omega))
  rw [hdigit, hdigit, hdigit, hdigit]
  omega

/-- No character is a surrogate. -/
theorem toNat_lt_or (c : Char) : c.toNat < 55296 ∨ 57343 < c.toNat ∧ c.toNat < 1114112 :=
  c.valid

private theorem readChar_unicodeEscape (c : Char) (rest : List Char) :
    readChar (unicodeEscape c.toNat ++ rest) = some (c, rest) := by
  have hvalid := toNat_lt_or c
  unfold unicodeEscape
  by_cases hplane : c.toNat < 65536
  · rw [if_pos hplane]
    have hunit := hexValue_hexDigits hplane
    have hfirst : ¬ (55296 ≤ c.toNat ∧ c.toNat < 56320) := by omega
    show readChar ('\\' :: 'u' :: _ :: _ :: _ :: _ :: rest) = _
    simp only [readChar, hunit]
    rw [if_neg hfirst, Char.ofNat_toNat]
  · rw [if_neg hplane]
    have hhigh := hexValue_hexDigits (n := 55296 + (c.toNat - 65536) / 1024) (by omega)
    have hlow := hexValue_hexDigits (n := 56320 + (c.toNat - 65536) % 1024) (by omega)
    have hfirst : 55296 ≤ 55296 + (c.toNat - 65536) / 1024 ∧
        55296 + (c.toNat - 65536) / 1024 < 56320 := by omega
    have hvalue : 65536 + (55296 + (c.toNat - 65536) / 1024 - 55296) * 1024 +
        (56320 + (c.toNat - 65536) % 1024 - 56320) = c.toNat := by omega
    show readChar ('\\' :: 'u' :: _ :: _ :: _ :: _ :: '\\' :: 'u' :: _ :: _ :: _ :: _ :: rest) = _
    simp only [readChar, hhigh, hlow]
    rw [if_pos hfirst, hvalue, Char.ofNat_toNat]

/-- What is written for a character is read back. -/
theorem readChar_escape (ensureAscii : Bool) (c : Char) (rest : List Char) :
    readChar (escape ensureAscii c ++ rest) = some (c, rest) := by
  unfold escape
  by_cases hquote : c = '"'
  · rw [if_pos hquote, hquote]
    rfl
  by_cases hbackslash : c = '\\'
  · rw [if_neg hquote, if_pos hbackslash, hbackslash]
    rfl
  rw [if_neg hquote, if_neg hbackslash]
  split
  · next h => rw [h]; rfl
  split
  · next h => rw [h]; rfl
  split
  · next h => rw [h]; rfl
  split
  · next h => rw [h]; rfl
  split
  · next h => rw [h]; rfl
  split
  · exact readChar_unicodeEscape c rest
  · simp only [List.cons_append, List.nil_append]
    unfold readChar
    split <;> simp_all

private theorem escape_head (ensureAscii : Bool) (c : Char) :
    ∃ first last, escape ensureAscii c = first :: last ∧ first ≠ '"' := by
  unfold escape
  split
  · exact ⟨_, _, rfl, by decide⟩
  split
  · exact ⟨_, _, rfl, by decide⟩
  split
  · exact ⟨_, _, rfl, by decide⟩
  split
  · exact ⟨_, _, rfl, by decide⟩
  split
  · exact ⟨_, _, rfl, by decide⟩
  split
  · exact ⟨_, _, rfl, by decide⟩
  split
  · exact ⟨_, _, rfl, by decide⟩
  split
  · unfold unicodeEscape
    split <;> exact ⟨_, _, rfl, by decide⟩
  · next h _ _ _ _ _ _ _ => exact ⟨_, _, rfl, h⟩

private theorem flatMap_escape_inj {ensureAscii : Bool} {cs ds s t : List Char}
    (h : cs.flatMap (escape ensureAscii) ++ '"' :: s =
      ds.flatMap (escape ensureAscii) ++ '"' :: t) : cs = ds ∧ s = t := by
  induction cs generalizing ds with
  | nil =>
    cases ds with
    | nil => exact ⟨rfl, (List.cons.inj h).2⟩
    | cons d ds =>
      obtain ⟨first, last, heq, hne⟩ := escape_head ensureAscii d
      rw [List.flatMap_cons, heq] at h
      exact absurd (List.cons.inj h).1.symm hne
  | cons c cs ih =>
    cases ds with
    | nil =>
      obtain ⟨first, last, heq, hne⟩ := escape_head ensureAscii c
      rw [List.flatMap_cons, heq] at h
      exact absurd (List.cons.inj h).1 hne
    | cons d ds =>
      rw [List.flatMap_cons, List.flatMap_cons, List.append_assoc, List.append_assoc] at h
      have hread := congrArg readChar h
      rw [readChar_escape, readChar_escape, Option.some.injEq, Prod.mk.injEq] at hread
      obtain ⟨rfl, hrest⟩ := hread
      obtain ⟨rfl, rfl⟩ := ih hrest
      exact ⟨rfl, rfl⟩

/-- A quoted text is known from what starts with it. -/
theorem quote_inj {f : Format} {a b : String} {s t : List Char}
    (h : quote f a ++ s = quote f b ++ t) : a = b ∧ s = t := by
  unfold quote at h
  rw [List.cons_append, List.cons_append, List.append_assoc, List.append_assoc] at h
  obtain ⟨hchars, hrest⟩ := flatMap_escape_inj (List.cons.inj h).2
  exact ⟨String.toList_inj.mp hchars, hrest⟩

/-! ### Numbers -/

/-- The text does not go on with a character of a number. -/
def Delimited (s : List Char) : Prop := ∀ c ∈ s.head?, isNumberChar c = false

/-- A maximal run of characters of one kind is determined. -/
theorem eq_of_append_delimited {xs ys s t : List Char}
    (hx : xs.all isNumberChar = true) (hy : ys.all isNumberChar = true) (hs : Delimited s)
    (ht : Delimited t) (h : xs ++ s = ys ++ t) : xs = ys ∧ s = t := by
  induction xs generalizing ys with
  | nil =>
    cases ys with
    | nil => exact ⟨rfl, h⟩
    | cons y ys =>
      have hs : s = y :: (ys ++ t) := h
      have hnone := hs ▸ ‹Delimited s›
      have hnumber := List.all_eq_true.mp hy y List.mem_cons_self
      rw [hnone y rfl] at hnumber
      cases hnumber
  | cons x xs ih =>
    cases ys with
    | nil =>
      have ht : x :: (xs ++ s) = t := h
      have hnone := ht ▸ ‹Delimited t›
      have hnumber := List.all_eq_true.mp hx x List.mem_cons_self
      rw [hnone x rfl] at hnumber
      cases hnumber
    | cons y ys =>
      obtain ⟨rfl, hrest⟩ := List.cons.inj h
      rw [List.all_cons, Bool.and_eq_true] at hx hy
      obtain ⟨rfl, hend⟩ := ih hx.2 hy.2 hrest
      exact ⟨rfl, hend⟩

private theorem digits_of_mem {n : Nat} {c : Char} (h : c ∈ Nat.toDigits 10 n) :
    c.isDigit = true :=
  Nat.isDigit_of_mem_toDigits (by omega) (by omega) h

private theorem toDigits_inj {m n : Nat} (h : Nat.toDigits 10 m = Nat.toDigits 10 n) : m = n := by
  rw [← Nat.ofDigitChars_toDigits (b := 10) (n := m) (by omega) (by omega), h,
    Nat.ofDigitChars_toDigits (by omega) (by omega)]

private theorem minus_not_mem_toDigits (n : Nat) : '-' ∉ Nat.toDigits 10 n := fun h ↦ by
  have hdigit := digits_of_mem h
  revert hdigit
  decide

/-- An integer is known from its digits. -/
theorem writeInt_inj {m n : Int} (h : writeInt m = writeInt n) : m = n := by
  cases m with
  | ofNat m =>
    cases n with
    | ofNat n => exact congrArg Int.ofNat (toDigits_inj h)
    | negSucc n =>
      have hmem : '-' ∈ Nat.toDigits 10 m := by
        rw [show Nat.toDigits 10 m = '-' :: _ from h]
        exact List.mem_cons_self
      exact absurd hmem (minus_not_mem_toDigits m)
  | negSucc m =>
    cases n with
    | ofNat n =>
      have hmem : '-' ∈ Nat.toDigits 10 n := by
        rw [← show '-' :: _ = Nat.toDigits 10 n from h]
        exact List.mem_cons_self
      exact absurd hmem (minus_not_mem_toDigits n)
    | negSucc n =>
      have hsucc := toDigits_inj (List.cons.inj h).2
      rw [Nat.succ.inj hsucc]

private theorem writeInt_chars {n : Int} {c : Char} (h : c ∈ writeInt n) :
    c.isDigit = true ∨ c = '-' := by
  cases n with
  | ofNat n => exact .inl (digits_of_mem h)
  | negSucc n =>
    rcases List.mem_cons.mp h with rfl | h
    · exact .inr rfl
    · exact .inl (digits_of_mem h)

private theorem writeInt_number (n : Int) : (writeInt n).all isNumberChar = true := by
  rw [List.all_eq_true]
  intro c hc
  unfold isNumberChar
  rcases writeInt_chars hc with hdigit | rfl
  · rw [hdigit, Bool.true_or]
  · decide

private theorem writeInt_ne_float (n : Int) (x : FloatText) : writeInt n ≠ x.text := by
  intro h
  rcases x.float with hpoint | hexponent
  · rw [← h] at hpoint
    rcases writeInt_chars hpoint with hdigit | hminus
    · revert hdigit
      decide
    · revert hminus
      decide
  · rw [← h] at hexponent
    rcases writeInt_chars hexponent with hdigit | hminus
    · revert hdigit
      decide
    · revert hminus
      decide

/-! ### Documents -/

/-- What the first character of a text tells of the document. -/
private def sort (c : Char) : Nat :=
  if c = 'n' then 0 else if c = 't' ∨ c = 'f' then 1 else if isNumberChar c = true then 2
  else if c = '"' then 3 else if c = '[' then 4 else if c = '{' then 5 else 6

/-- What kind of document it is, both kinds of numbers taken as one. -/
private def sortOf : Json → Nat
  | null => 0
  | bool _ => 1
  | int _ => 2
  | float _ => 2
  | str _ => 3
  | arr _ => 4
  | obj _ => 5

private theorem sort_number {c : Char} (h : isNumberChar c = true) : sort c = 2 := by
  have hn : c ≠ 'n' := by rintro rfl; revert h; decide
  have ht : ¬ (c = 't' ∨ c = 'f') := by rintro (rfl | rfl) <;> revert h <;> decide
  unfold sort
  rw [if_neg hn, if_neg ht, if_pos h]

private theorem write_head (f : Format) (j : Json) :
    ∃ c rest, write f j = c :: rest ∧ sort c = sortOf j := by
  cases j with
  | null => exact ⟨_, _, rfl, by decide⟩
  | bool b => cases b <;> exact ⟨_, _, rfl, by decide⟩
  | int n =>
    cases htext : writeInt n with
    | nil =>
      cases n with
      | ofNat n => exact absurd htext Nat.toDigits_ne_nil
      | negSucc n => cases htext
    | cons c rest =>
      refine ⟨c, rest, htext, sort_number ?_⟩
      exact List.all_eq_true.mp (writeInt_number n) c (by rw [htext]; exact List.mem_cons_self)
  | float x =>
    cases htext : x.text with
    | nil => rcases x.float with h | h <;> simp [htext] at h
    | cons c rest =>
      refine ⟨c, rest, htext, sort_number ?_⟩
      exact List.all_eq_true.mp x.number c (by rw [htext]; exact List.mem_cons_self)
  | str s => exact ⟨_, _, rfl, rfl⟩
  | arr items => exact ⟨_, _, rfl, rfl⟩
  | obj members => exact ⟨_, _, rfl, rfl⟩

private theorem sortOf_eq {f : Format} {a b : Json} {s t : List Char}
    (h : write f a ++ s = write f b ++ t) : sortOf a = sortOf b := by
  obtain ⟨c, rest, ha, hc⟩ := write_head f a
  obtain ⟨d, rest', hb, hd⟩ := write_head f b
  rw [ha, hb, List.cons_append, List.cons_append] at h
  rw [← hc, ← hd, (List.cons.inj h).1]

/-- What stands before an item or a member. -/
private def Leads (f : Format) (before : List Char) : Prop :=
  before = [] ∨ before = f.separator ','

private theorem separator_eq (f : Format) (c : Char) : ∃ rest, f.separator c = c :: rest := by
  unfold Format.separator
  split <;> exact ⟨_, rfl⟩

private theorem separator_delimited (f : Format) (s : List Char) :
    Delimited (f.separator ',' ++ s) := by
  obtain ⟨rest, heq⟩ := separator_eq f ','
  rw [heq]
  rintro c ⟨⟩
  decide

private theorem writeItems_delimited (f : Format) (items : List Json) (s : List Char) :
    Delimited (writeItems f (f.separator ',') items ++ ']' :: s) := by
  cases items with
  | nil =>
    rintro c ⟨⟩
    decide
  | cons item rest =>
    rw [writeItems, List.append_assoc, List.append_assoc]
    exact separator_delimited f _

private theorem writeMembers_delimited (f : Format) (members : List (String × Json))
    (s : List Char) : Delimited (writeMembers f (f.separator ',') members ++ '}' :: s) := by
  cases members with
  | nil =>
    rintro c ⟨⟩
    decide
  | cons member rest =>
    rw [writeMembers, List.append_assoc, List.append_assoc]
    exact separator_delimited f _

/-- No item begins like the end of the items. -/
theorem item_ne_close {f : Format} {before s r : List Char} (hlead : Leads f before)
    {j : Json} : before ++ (write f j ++ r) ≠ ']' :: s := by
  intro h
  rcases hlead with rfl | rfl
  · obtain ⟨c, rest, heq, hsort⟩ := write_head f j
    rw [heq] at h
    rw [(List.cons.inj h).1] at hsort
    revert hsort
    cases j <;> (simp only [sortOf]; decide)
  · obtain ⟨rest, heq⟩ := separator_eq f ','
    rw [heq] at h
    exact absurd (List.cons.inj h).1 (by decide)

private theorem member_ne_close {f : Format} {before s r : List Char} (hlead : Leads f before)
    {m : String × Json} : before ++ (writeMember f m ++ r) ≠ '}' :: s := by
  intro h
  obtain ⟨k, v⟩ := m
  rcases hlead with rfl | rfl
  · rw [List.nil_append, writeMember, quote] at h
    exact absurd (List.cons.inj h).1 (by decide)
  · obtain ⟨rest, heq⟩ := separator_eq f ','
    rw [heq] at h
    exact absurd (List.cons.inj h).1 (by decide)

mutual

/-- Unique readability: the text of a document, up to a delimiter, determines the document. -/
theorem write_inj (f : Format) : ∀ (a b : Json) (s t : List Char), Delimited s → Delimited t →
    write f a ++ s = write f b ++ t → a = b ∧ s = t := by
  intro a b s t hs ht h
  have hsort := sortOf_eq h
  cases a with
  | null =>
    cases b with
    | null => exact ⟨rfl, List.append_cancel_left h⟩
    | _ => exact absurd hsort (by simp only [sortOf]; decide)
  | bool x =>
    cases b with
    | bool y =>
      cases x <;> cases y <;> first
        | exact ⟨rfl, List.append_cancel_left h⟩
        | exact absurd (List.cons.inj h).1 (by decide)
    | _ => exact absurd hsort (by simp only [sortOf]; decide)
  | int m =>
    cases b with
    | int n =>
      obtain ⟨htext, hrest⟩ :=
        eq_of_append_delimited (writeInt_number m) (writeInt_number n) hs ht h
      exact ⟨congrArg int (writeInt_inj htext), hrest⟩
    | float y =>
      exact absurd (eq_of_append_delimited (writeInt_number m) y.number hs ht h).1
        (writeInt_ne_float m y)
    | _ => exact absurd hsort (by simp only [sortOf]; decide)
  | float x =>
    cases b with
    | int n =>
      exact absurd (eq_of_append_delimited x.number (writeInt_number n) hs ht h).1.symm
        (writeInt_ne_float n x)
    | float y =>
      obtain ⟨htext, hrest⟩ := eq_of_append_delimited x.number y.number hs ht h
      refine ⟨congrArg float ?_, hrest⟩
      cases x
      cases y
      cases htext
      rfl
    | _ => exact absurd hsort (by simp only [sortOf]; decide)
  | str x =>
    cases b with
    | str y =>
      obtain ⟨rfl, hrest⟩ := quote_inj h
      exact ⟨rfl, hrest⟩
    | _ => exact absurd hsort (by simp only [sortOf]; decide)
  | arr xs =>
    cases b with
    | arr ys =>
      rw [write, write, List.cons_append, List.cons_append, List.append_assoc,
        List.append_assoc] at h
      obtain ⟨rfl, hrest⟩ := writeItems_inj f xs ys [] s t (.inl rfl) (List.cons.inj h).2
      exact ⟨rfl, hrest⟩
    | _ => exact absurd hsort (by simp only [sortOf]; decide)
  | obj xs =>
    cases b with
    | obj ys =>
      rw [write, write, List.cons_append, List.cons_append, List.append_assoc,
        List.append_assoc] at h
      obtain ⟨rfl, hrest⟩ := writeMembers_inj f xs ys [] s t (.inl rfl) (List.cons.inj h).2
      exact ⟨rfl, hrest⟩
    | _ => exact absurd hsort (by simp only [sortOf]; decide)
termination_by structural a => a

private theorem writeItems_inj (f : Format) : ∀ (xs ys : List Json) (before s t : List Char),
    Leads f before →
    writeItems f before xs ++ ']' :: s = writeItems f before ys ++ ']' :: t →
    xs = ys ∧ s = t := by
  intro xs ys before s t hlead h
  cases xs with
  | nil =>
    cases ys with
    | nil => exact ⟨rfl, (List.cons.inj h).2⟩
    | cons y ys =>
      simp only [writeItems, List.nil_append, List.append_assoc] at h
      exact absurd h.symm (item_ne_close hlead)
  | cons x xs =>
    cases ys with
    | nil =>
      simp only [writeItems, List.nil_append, List.append_assoc] at h
      exact absurd h (item_ne_close hlead)
    | cons y ys =>
      simp only [writeItems, List.append_assoc] at h
      obtain ⟨rfl, hrest⟩ := write_inj f x y _ _ (writeItems_delimited f xs s)
        (writeItems_delimited f ys t) (List.append_cancel_left h)
      obtain ⟨rfl, hend⟩ := writeItems_inj f xs ys _ s t (.inr rfl) hrest
      exact ⟨rfl, hend⟩
termination_by structural xs => xs

private theorem writeMembers_inj (f : Format) : ∀ (xs ys : List (String × Json))
    (before s t : List Char), Leads f before →
    writeMembers f before xs ++ '}' :: s = writeMembers f before ys ++ '}' :: t →
    xs = ys ∧ s = t := by
  intro xs ys before s t hlead h
  cases xs with
  | nil =>
    cases ys with
    | nil => exact ⟨rfl, (List.cons.inj h).2⟩
    | cons y ys =>
      simp only [writeMembers, List.nil_append, List.append_assoc] at h
      exact absurd h.symm (member_ne_close hlead)
  | cons x xs =>
    cases ys with
    | nil =>
      simp only [writeMembers, List.nil_append, List.append_assoc] at h
      exact absurd h (member_ne_close hlead)
    | cons y ys =>
      simp only [writeMembers, List.append_assoc] at h
      obtain ⟨rfl, hrest⟩ := writeMember_inj f x y _ _ (writeMembers_delimited f xs s)
        (writeMembers_delimited f ys t) (List.append_cancel_left h)
      obtain ⟨rfl, hend⟩ := writeMembers_inj f xs ys _ s t (.inr rfl) hrest
      exact ⟨rfl, hend⟩
termination_by structural xs => xs

private theorem writeMember_inj (f : Format) : ∀ (x y : String × Json) (s t : List Char),
    Delimited s → Delimited t → writeMember f x ++ s = writeMember f y ++ t →
    x = y ∧ s = t := by
  rintro ⟨k, v⟩ ⟨l, w⟩ s t hs ht h
  rw [writeMember, writeMember, List.append_assoc, List.append_assoc, List.append_assoc,
    List.append_assoc] at h
  obtain ⟨rfl, hvalue⟩ := quote_inj h
  obtain ⟨rfl, hend⟩ := write_inj f v w s t hs ht (List.append_cancel_left hvalue)
  exact ⟨rfl, hend⟩
termination_by structural x => x

end

/-- Two documents have one text exactly when they are equal up to the order of members. -/
theorem dumps_inj {f : Format} {a b : Json} : dumps f a = dumps f b ↔ a.sortKeys = b.sortKeys := by
  unfold dumps
  constructor
  · intro h
    have htext : a.sortKeys.write f ++ [] = b.sortKeys.write f ++ [] := by
      rw [List.append_nil, List.append_nil]
      exact String.ofList_injective h
    exact (write_inj f _ _ [] [] (fun _ h ↦ by cases h) (fun _ h ↦ by cases h) htext).1
  · intro h
    rw [h]

end Json

end Jobtology.Base
