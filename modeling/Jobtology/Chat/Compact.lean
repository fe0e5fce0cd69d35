import Jobtology.Base.Json
import Jobtology.Base.Numerals
import Jobtology.Chat.EvidenceGraph

/-!
# Compacted records

`compact` of `personal.py`: an account record as JSON text within a budget of 1800 characters. The
keys of a mapping stand as `str` writes them. What is nested deeper than four levels becomes
`null`.
-/

namespace Jobtology.Chat

open Jobtology.Base

/-- The text of a document with `ensure_ascii=False`. -/
def dumped (document : Json) : List Char := document.write ⟨false, true⟩

mutual

/-- No integer of the document has more digits than `int` writes. -/
def writable : Json → Bool
  | .int n => decide ((Nat.toDigits 10 n.natAbs).length ≤ maxStrDigits)
  | .arr items => writableItems items
  | .obj members => writableMembers members
  | .null | .bool _ | .float _ | .str _ => true
termination_by structural document => document

/-- The items are writable. -/
def writableItems : List Json → Bool
  | [] => true
  | item :: rest => writable item && writableItems rest
termination_by structural items => items

/-- The members are writable. -/
def writableMembers : List (String × Json) → Bool
  | [] => true
  | member :: rest => writableMember member && writableMembers rest
termination_by structural members => members

/-- The value of a member is writable. -/
def writableMember : String × Json → Bool
  | (_, value) => writable value
termination_by structural member => member

end

/-- `json.dumps(…, ensure_ascii=False)`. -/
def dumps (document : Json) : Except NumberError (List Char) :=
  if writable document then .ok (dumped document) else .error .valueError

/-- What a key is charged: its text and the two characters after it. -/
def keyCost (key : String) : Nat := (dumped (.str key)).length + 2

/-- The loop of `trim` over the entries of a mapping. -/
def trimMembers (trimChild : Json → Nat → Except NumberError Json) :
    Nat → List (String × Json) → List (String × Json) →
      Except NumberError (List (String × Json))
  | _, found, [] => .ok found
  | remaining, found, (name, child) :: rest =>
    let key := firstCharacters 80 name
    if remaining < keyCost key + 8 then .ok found
    else do
      let kept ← trimChild child (min 700 (remaining - keyCost key))
      let text ← dumps kept
      let cost := keyCost key + text.length
      if cost ≤ remaining then
        trimMembers trimChild (remaining - cost) (setEntry key kept found) rest
      else trimMembers trimChild remaining found rest

/-- The loop of `trim` over the items of a sequence. -/
def trimItems (trimChild : Json → Nat → Except NumberError Json) :
    Nat → List Json → List Json → Except NumberError (List Json)
  | _, found, [] => .ok found
  | remaining, found, child :: rest =>
    if remaining < 8 then .ok found
    else do
      let kept ← trimChild child (min 500 (remaining - 1))
      let text ← dumps kept
      let cost := text.length + 1
      if cost ≤ remaining then
        trimItems trimChild (remaining - cost) (found ++ [kept]) rest
      else trimItems trimChild remaining found rest

/-- `trim`, by the levels that are left: five at depth 0. -/
def trim : Nat → Json → Nat → Except NumberError Json
  | 0, _, _ => .ok .null
  | levels + 1, .obj members, budget =>
    (trimMembers (trim levels) (budget - 2) [] (members.take 24)).map .obj
  | levels + 1, .arr items, budget =>
    (trimItems (trim levels) (budget - 2) [] (items.take 16)).map .arr
  | _ + 1, .str s, budget => .ok (.str (firstCharacters (min 700 ((budget - 2) / 6)) s))
  | _ + 1, item, _ => .ok item

/-- `compact`. `src/jobtology_be/chat/personal.py:30–62`. -/
def compact (value : Json) : Except NumberError String := do
  let kept ← trim 5 value 1800
  let text ← dumps kept
  return String.ofList text

/-! ### Passes of the loops -/

section Loops

variable {trimChild : Json → Nat → Except NumberError Json} {remaining : Nat}

/-- A document is dumped exactly if its integers can be written. -/
theorem dumps_eq_ok {document : Json} {text : List Char} :
    dumps document = .ok text ↔ writable document = true ∧ dumped document = text := by
  unfold dumps
  split
  case isTrue h => simp [h]
  case isFalse h => simp [h]

/-- One pass over a mapping with room for the key and a few characters. -/
theorem trimMembers_cons {found rest : List (String × Json)} {m : String × Json} {kept : Json}
    (hroom : keyCost (firstCharacters 80 m.1) + 8 ≤ remaining)
    (hkept : trimChild m.2 (min 700 (remaining - keyCost (firstCharacters 80 m.1))) = .ok kept)
    (hwritable : writable kept = true) :
    trimMembers trimChild remaining found (m :: rest) =
      if keyCost (firstCharacters 80 m.1) + (dumped kept).length ≤ remaining then
        trimMembers trimChild
          (remaining - (keyCost (firstCharacters 80 m.1) + (dumped kept).length))
          (setEntry (firstCharacters 80 m.1) kept found) rest
      else trimMembers trimChild remaining found rest := by
  rw [trimMembers]
  dsimp only
  rw [if_neg (not_lt.mpr hroom), hkept]
  show (dumps kept >>= _) = _
  rw [dumps, if_pos hwritable]
  rfl

/-- One pass over a sequence with room for a few characters. -/
theorem trimItems_cons {found rest : List Json} {child kept : Json} (hroom : 8 ≤ remaining)
    (hkept : trimChild child (min 500 (remaining - 1)) = .ok kept)
    (hwritable : writable kept = true) :
    trimItems trimChild remaining found (child :: rest) =
      if (dumped kept).length + 1 ≤ remaining then
        trimItems trimChild (remaining - ((dumped kept).length + 1)) (found ++ [kept]) rest
      else trimItems trimChild remaining found rest := by
  rw [trimItems]
  rw [if_neg (not_lt.mpr hroom), hkept]
  show (dumps kept >>= _) = _
  rw [dumps, if_pos hwritable]
  rfl

/-- A property of the room left, the entries found and those still to come holds when the loop over
a mapping returns, if it is preserved when an entry is taken and when it is passed over. -/
theorem trimMembers_invariant {P : Nat → List (String × Json) → List (String × Json) → Prop}
    (htake : ∀ remaining found m rest kept, P remaining found (m :: rest) →
      trimChild m.2 (min 700 (remaining - keyCost (firstCharacters 80 m.1))) = .ok kept →
      keyCost (firstCharacters 80 m.1) + (dumped kept).length ≤ remaining →
      P (remaining - (keyCost (firstCharacters 80 m.1) + (dumped kept).length))
        (setEntry (firstCharacters 80 m.1) kept found) rest)
    (hpass : ∀ remaining found m rest, P remaining found (m :: rest) → P remaining found rest)
    {found members result : List (String × Json)} (hstart : P remaining found members)
    (h : trimMembers trimChild remaining found members = .ok result) :
    ∃ left rest, P left result rest := by
  induction members generalizing remaining found with
  | nil =>
    cases h
    exact ⟨remaining, [], hstart⟩
  | cons m rest ih =>
    unfold trimMembers at h
    dsimp only at h
    split at h
    case isTrue =>
      cases h
      exact ⟨remaining, m :: rest, hstart⟩
    case isFalse =>
      obtain ⟨kept, hkept, h⟩ := bind_eq_ok.mp h
      obtain ⟨text, htext, h⟩ := bind_eq_ok.mp h
      obtain ⟨-, rfl⟩ := dumps_eq_ok.mp htext
      split at h
      case isTrue hcost => exact ih (htake _ _ _ _ kept hstart hkept hcost) h
      case isFalse => exact ih (hpass _ _ _ _ hstart) h

/-- The same of the loop over a sequence. -/
theorem trimItems_invariant {P : Nat → List Json → List Json → Prop}
    (htake : ∀ remaining found child rest kept, P remaining found (child :: rest) →
      trimChild child (min 500 (remaining - 1)) = .ok kept →
      (dumped kept).length + 1 ≤ remaining →
      P (remaining - ((dumped kept).length + 1)) (found ++ [kept]) rest)
    (hpass : ∀ remaining found child rest,
      P remaining found (child :: rest) → P remaining found rest)
    {found items result : List Json} (hstart : P remaining found items)
    (h : trimItems trimChild remaining found items = .ok result) :
    ∃ left rest, P left result rest := by
  induction items generalizing remaining found with
  | nil =>
    cases h
    exact ⟨remaining, [], hstart⟩
  | cons child rest ih =>
    unfold trimItems at h
    dsimp only at h
    split at h
    case isTrue =>
      cases h
      exact ⟨remaining, child :: rest, hstart⟩
    case isFalse =>
      obtain ⟨kept, hkept, h⟩ := bind_eq_ok.mp h
      obtain ⟨text, htext, h⟩ := bind_eq_ok.mp h
      obtain ⟨-, rfl⟩ := dumps_eq_ok.mp htext
      split at h
      case isTrue hcost => exact ih (htake _ _ _ _ kept hstart hkept hcost) h
      case isFalse => exact ih (hpass _ _ _ _ hstart) h

/-- A document that is trimmed within its levels is what its kind says. -/
theorem trim_obj_eq_ok {levels budget : Nat} {members : List (String × Json)} {kept : Json}
    (h : trim (levels + 1) (.obj members) budget = .ok kept) : ∃ result, kept = .obj result ∧
      trimMembers (trim levels) (budget - 2) [] (members.take 24) = .ok result := by
  unfold trim at h
  cases hresult : trimMembers (trim levels) (budget - 2) [] (members.take 24) with
  | error e =>
    rw [hresult] at h
    cases h
  | ok result =>
    rw [hresult] at h
    cases h
    exact ⟨result, rfl, rfl⟩

/-- What is kept of a sequence comes from its first 16 items. -/
theorem trim_arr_eq_ok {levels budget : Nat} {items : List Json} {kept : Json}
    (h : trim (levels + 1) (.arr items) budget = .ok kept) : ∃ result, kept = .arr result ∧
      trimItems (trim levels) (budget - 2) [] (items.take 16) = .ok result := by
  unfold trim at h
  cases hresult : trimItems (trim levels) (budget - 2) [] (items.take 16) with
  | error e =>
    rw [hresult] at h
    cases h
  | ok result =>
    rw [hresult] at h
    cases h
    exact ⟨result, rfl, rfl⟩

end Loops

/-! ### What is kept -/

/-- A document that keeps a part of another one: the keys and the texts are beginnings of those at
the same place, the other scalars are the same, and `null` stands for what is beyond the levels. -/
def KeptWhole : Nat → Json → Json → Prop
  | 0, kept, _ => kept = .null
  | levels + 1, .obj kept, .obj members => (kept.map (·.1)).Nodup ∧
    ∀ m ∈ kept, ∃ original ∈ members,
      m.1 = firstCharacters 80 original.1 ∧ KeptWhole levels m.2 original.2
  | levels + 1, .arr kept, .arr items =>
    ∃ chosen, chosen.Sublist items ∧ List.Forall₂ (KeptWhole levels) kept chosen
  | _ + 1, .str kept, .str s => kept.toList <+: s.toList
  | _ + 1, kept, original => kept = original

section Kept

variable {trimChild : Json → Nat → Except NumberError Json} {levels remaining : Nat}

private theorem trimMembers_kept {members result : List (String × Json)}
    (hchild : ∀ child budget kept,
      trimChild child budget = .ok kept → KeptWhole levels kept child)
    (h : trimMembers trimChild remaining [] members = .ok result) :
    (result.map (·.1)).Nodup ∧ ∀ m ∈ result, ∃ original ∈ members,
      m.1 = firstCharacters 80 original.1 ∧ KeptWhole levels m.2 original.2 := by
  let P := fun (_ : Nat) (found rest : List (String × Json)) ↦ (found.map (·.1)).Nodup ∧
    (∀ m ∈ found, ∃ original ∈ members,
      m.1 = firstCharacters 80 original.1 ∧ KeptWhole levels m.2 original.2) ∧ rest ⊆ members
  have hstart : P remaining [] members := ⟨List.nodup_nil, by simp, List.Subset.refl _⟩
  obtain ⟨-, -, hnodup, hkept, -⟩ : ∃ left rest, P left result rest := by
    refine trimMembers_invariant ?_ ?_ hstart h
    · rintro _ found m rest kept ⟨hnodup, hfound, hrest⟩ hkept -
      refine ⟨nodup_keys_setEntry hnodup, fun m' hm' ↦ ?_,
        fun _ hmem ↦ hrest (List.mem_cons_of_mem _ hmem)⟩
      rcases of_mem_setEntry hm' with rfl | hold
      · exact ⟨m, hrest List.mem_cons_self, rfl, hchild _ _ _ hkept⟩
      · exact hfound m' hold
    · rintro _ found m rest ⟨hnodup, hfound, hrest⟩
      exact ⟨hnodup, hfound, fun _ hmem ↦ hrest (List.mem_cons_of_mem _ hmem)⟩
  exact ⟨hnodup, hkept⟩

private theorem trimItems_kept {items result : List Json}
    (hchild : ∀ child budget kept,
      trimChild child budget = .ok kept → KeptWhole levels kept child)
    (h : trimItems trimChild remaining [] items = .ok result) :
    ∃ chosen, chosen.Sublist items ∧ List.Forall₂ (KeptWhole levels) result chosen := by
  let P := fun (_ : Nat) (found rest : List Json) ↦ ∃ chosen,
    (chosen ++ rest).Sublist items ∧ List.Forall₂ (KeptWhole levels) found chosen
  have hstart : P remaining [] items := ⟨[], List.Sublist.refl _, .nil⟩
  obtain ⟨-, rest, chosen, hsub, hkept⟩ : ∃ left rest, P left result rest := by
    refine trimItems_invariant ?_ ?_ hstart h
    · rintro _ found child rest kept ⟨chosen, hsub, hfound⟩ hkept -
      refine ⟨chosen ++ [child], by simpa using hsub, ?_⟩
      exact List.rel_append hfound (.cons (hchild _ _ _ hkept) .nil)
    · rintro _ found child rest ⟨chosen, hsub, hfound⟩
      exact ⟨chosen, ((List.sublist_cons_self child rest).append_left chosen).trans hsub, hfound⟩
  exact ⟨chosen, (List.sublist_append_left chosen rest).trans hsub, hkept⟩

end Kept

/-- Whatever the budget, a trimmed document keeps a part of the document. -/
theorem trim_keptWhole {levels budget : Nat} {item kept : Json}
    (h : trim levels item budget = .ok kept) : KeptWhole levels kept item := by
  induction levels generalizing item budget kept with
  | zero =>
    cases h
    rfl
  | succ levels ih =>
    cases item with
    | obj members =>
      obtain ⟨result, rfl, hresult⟩ := trim_obj_eq_ok h
      obtain ⟨hnodup, hkept⟩ := trimMembers_kept (fun _ _ _ ↦ ih) hresult
      refine ⟨hnodup, fun m hm ↦ ?_⟩
      obtain ⟨original, horiginal, heq⟩ := hkept m hm
      exact ⟨original, List.mem_of_mem_take horiginal, heq⟩
    | arr items =>
      obtain ⟨result, rfl, hresult⟩ := trim_arr_eq_ok h
      obtain ⟨chosen, hsub, hkept⟩ := trimItems_kept (fun _ _ _ ↦ ih) hresult
      exact ⟨chosen, hsub.trans (List.take_sublist _ _), hkept⟩
    | str s =>
      cases h
      show (String.ofList _).toList <+: s.toList
      rw [String.toList_ofList]
      exact List.take_prefix _ _
    | null =>
      cases h
      rfl
    | bool b =>
      cases h
      rfl
    | int n =>
      cases h
      rfl
    | float x =>
      cases h
      rfl

end Jobtology.Chat
