import Jobtology.Chat.Compact
import Mathlib.Algebra.Order.BigOperators.Group.List

/-!
# Records that are compacted whole

`compact` charges no separators, so what it returns may exceed its budget. A record is whole when
the longest text that its limits on keys, texts and items leave has room, and its integers can be
written. For records whose entries fit as they are, this is exact.
-/

namespace Jobtology.Chat

open Jobtology.Base

/-! ### Integers that can be written -/

/-- The integers within the limits of depth and number can be written. -/
def IntsWritable : Nat → Json → Prop
  | 0, _ => True
  | levels + 1, .obj members => ∀ m ∈ members.take 24, IntsWritable levels m.2
  | levels + 1, .arr items => ∀ item ∈ items.take 16, IntsWritable levels item
  | _ + 1, item => writable item = true

section Writable

variable {trimChild : Json → Nat → Except NumberError Json} {remaining : Nat}

private theorem writable_obj {members : List (String × Json)} :
    writable (.obj members) = true ↔ ∀ m ∈ members, writable m.2 = true := by
  show writableMembers members = true ↔ _
  induction members with
  | nil => simp [writableMembers]
  | cons m rest ih =>
    obtain ⟨key, value⟩ := m
    rw [writableMembers, Bool.and_eq_true, ih, List.forall_mem_cons, writableMember]

private theorem writable_arr {items : List Json} :
    writable (.arr items) = true ↔ ∀ item ∈ items, writable item = true := by
  show writableItems items = true ↔ _
  induction items with
  | nil => simp [writableItems]
  | cons item rest ih => rw [writableItems, Bool.and_eq_true, ih, List.forall_mem_cons]

private theorem trimMembers_writable {found members : List (String × Json)}
    (hchild : ∀ m ∈ members, ∀ budget, ∃ kept,
      trimChild m.2 budget = .ok kept ∧ writable kept = true)
    (hfound : ∀ m ∈ found, writable m.2 = true) :
    ∃ result, trimMembers trimChild remaining found members = .ok result ∧
      ∀ m ∈ result, writable m.2 = true := by
  induction members generalizing remaining found with
  | nil => exact ⟨found, rfl, hfound⟩
  | cons m rest ih =>
    have hrest := fun m' hm' ↦ hchild m' (List.mem_cons_of_mem _ hm')
    obtain ⟨kept, hkept, hwritable⟩ := hchild m List.mem_cons_self
      (min 700 (remaining - keyCost (firstCharacters 80 m.1)))
    have htaken : ∀ m' ∈ setEntry (firstCharacters 80 m.1) kept found, writable m'.2 = true := by
      intro m' hm'
      rcases of_mem_setEntry hm' with rfl | hold
      · exact hwritable
      · exact hfound m' hold
    by_cases hroom : remaining < keyCost (firstCharacters 80 m.1) + 8
    · refine ⟨found, ?_, hfound⟩
      rw [trimMembers]
      exact if_pos hroom
    · rw [trimMembers_cons (not_lt.mp hroom) hkept hwritable]
      split
      · exact ih hrest htaken
      · exact ih hrest hfound

private theorem trimItems_writable {found items : List Json}
    (hchild : ∀ item ∈ items, ∀ budget, ∃ kept,
      trimChild item budget = .ok kept ∧ writable kept = true)
    (hfound : ∀ item ∈ found, writable item = true) :
    ∃ result, trimItems trimChild remaining found items = .ok result ∧
      ∀ item ∈ result, writable item = true := by
  induction items generalizing remaining found with
  | nil => exact ⟨found, rfl, hfound⟩
  | cons item rest ih =>
    have hrest := fun item' hitem' ↦ hchild item' (List.mem_cons_of_mem _ hitem')
    obtain ⟨kept, hkept, hwritable⟩ := hchild item List.mem_cons_self (min 500 (remaining - 1))
    have htaken : ∀ item' ∈ found ++ [kept], writable item' = true := by
      intro item' hitem'
      rcases List.mem_append.mp hitem' with hold | hnew
      · exact hfound item' hold
      · rw [List.mem_singleton.mp hnew]
        exact hwritable
    by_cases hroom : remaining < 8
    · refine ⟨found, ?_, hfound⟩
      rw [trimItems]
      exact if_pos hroom
    · rw [trimItems_cons (not_lt.mp hroom) hkept hwritable]
      split
      · exact ih hrest htaken
      · exact ih hrest hfound

/-- A document with such integers is trimmed without an error, and the rest can be written. -/
theorem trim_writable {levels : Nat} {item : Json} (h : IntsWritable levels item) (budget : Nat) :
    ∃ kept, trim levels item budget = .ok kept ∧ writable kept = true := by
  induction levels generalizing item budget with
  | zero => exact ⟨.null, rfl, rfl⟩
  | succ levels ih =>
    cases item with
    | obj members =>
      obtain ⟨result, hresult, hwritable⟩ := @trimMembers_writable (trim levels) (budget - 2) []
        (members.take 24) (fun m hm ↦ ih (h m hm)) (by simp)
      refine ⟨.obj result, ?_, writable_obj.mpr hwritable⟩
      unfold trim
      rw [hresult]
      rfl
    | arr items =>
      obtain ⟨result, hresult, hwritable⟩ := @trimItems_writable (trim levels) (budget - 2) []
        (items.take 16) (fun item hitem ↦ ih (h item hitem)) (by simp)
      refine ⟨.arr result, ?_, writable_arr.mpr hwritable⟩
      unfold trim
      rw [hresult]
      rfl
    | str s => exact ⟨_, rfl, rfl⟩
    | null => exact ⟨_, rfl, h⟩
    | bool b => exact ⟨_, rfl, h⟩
    | int n => exact ⟨_, rfl, h⟩
    | float x => exact ⟨_, rfl, h⟩

end Writable

/-! ### The length of a text -/

/-- What an entry is charged. -/
def charge (m : String × Json) : Nat := keyCost m.1 + (dumped m.2).length

private theorem length_writeMembers (before : List Char) (members : List (String × Json)) :
    (Json.writeMembers ⟨false, true⟩ before members).length =
      (members.map charge).sum + min 1 members.length * before.length +
        2 * (members.length - 1) := by
  induction members generalizing before with
  | nil => simp [Json.writeMembers]
  | cons m rest ih =>
    obtain ⟨key, value⟩ := m
    have hmember : (Json.writeMember ⟨false, true⟩ (key, value)).length = charge (key, value) := by
      simp only [Json.writeMember, Json.Format.separator, charge, keyCost, dumped, Json.write,
        List.length_append, if_true, List.length_cons, List.length_nil]
    have hseparator : (Json.Format.separator ⟨false, true⟩ ',').length = 2 := rfl
    rw [Json.writeMembers, List.length_append, List.length_append, ih, hmember, hseparator,
      List.map_cons, List.sum_cons, List.length_cons]
    cases rest with
    | nil => simp [Nat.add_comm]
    | cons m' rest =>
      rw [Nat.min_eq_left (by simp), Nat.min_eq_left (by simp), List.length_cons]
      omega

private theorem length_writeItems (before : List Char) (items : List Json) :
    (Json.writeItems ⟨false, true⟩ before items).length =
      (items.map fun item ↦ (dumped item).length).sum + min 1 items.length * before.length +
        2 * (items.length - 1) := by
  induction items generalizing before with
  | nil => simp [Json.writeItems]
  | cons item rest ih =>
    have hseparator : (Json.Format.separator ⟨false, true⟩ ',').length = 2 := rfl
    rw [Json.writeItems, List.length_append, List.length_append, ih, hseparator, List.map_cons,
      List.sum_cons, List.length_cons]
    unfold dumped
    cases rest with
    | nil => simp [Nat.add_comm]
    | cons item' rest =>
      rw [Nat.min_eq_left (by simp), Nat.min_eq_left (by simp), List.length_cons]
      omega

/-- A mapping is as long as its braces, its entries and the separators between these. -/
theorem length_dumped_obj (members : List (String × Json)) :
    (dumped (.obj members)).length =
      2 + (members.map charge).sum + 2 * (members.length - 1) := by
  unfold dumped
  rw [Json.write, List.length_append, List.length_cons, length_writeMembers]
  simp only [List.length_nil, List.length_cons]
  omega

/-- A sequence is as long as its brackets, its items and the separators between these. -/
theorem length_dumped_arr (items : List Json) :
    (dumped (.arr items)).length =
      2 + (items.map fun item ↦ (dumped item).length).sum + 2 * (items.length - 1) := by
  rw [dumped, Json.write, List.length_append, List.length_cons, length_writeItems]
  simp only [List.length_nil, List.length_cons]
  omega

/-! ### The longest text that the limits leave -/

/-- The most that an entry may cost where there is some room. -/
def entryBound (childBound : Nat → Json → Nat) (room : Nat) (m : String × Json) : Nat :=
  keyCost (firstCharacters 80 m.1) +
    childBound (min 700 (room - keyCost (firstCharacters 80 m.1))) m.2

/-- The longest text that trimming within some room may leave of a document: of a mapping or a
sequence that of its entries with the separators between them, but no more than the room and what
the separators exceed it by. -/
def textBound : Nat → Nat → Json → Nat
  | 0, _, _ => 4
  | levels + 1, room, .obj members =>
    let taken := members.take 24
    min (max 2 room + 2 * (taken.length - 1))
      (2 + (taken.map (entryBound (textBound levels) (room - 2))).sum + 2 * (taken.length - 1))
  | levels + 1, room, .arr items =>
    let taken := items.take 16
    min (max 2 room + (taken.length - 2))
      (2 + (taken.map (textBound levels (min 500 (room - 2 - 1)))).sum + 2 * (taken.length - 1))
  | _ + 1, room, .str s =>
    (dumped (.str (firstCharacters (min 700 ((room - 2) / 6)) s))).length
  | _ + 1, _, item => (dumped item).length

section Bound

variable {levels remaining room : Nat}

private theorem sum_setEntry_le (cost : String × Json → Nat) (key : String) (kept : Json)
    (found : List (String × Json)) :
    ((setEntry key kept found).map cost).sum ≤ (found.map cost).sum + cost (key, kept) := by
  induction found with
  | nil => simp [setEntry]
  | cons m rest ih =>
    unfold setEntry
    by_cases hkey : m.1 = key
    · rw [if_pos hkey, List.map_cons, List.map_cons, List.sum_cons, List.sum_cons]
      omega
    · rw [if_neg hkey, List.map_cons, List.map_cons, List.sum_cons, List.sum_cons]
      omega

private theorem length_setEntry_le (key : String) (kept : Json) (found : List (String × Json)) :
    (setEntry key kept found).length ≤ found.length + 1 := by
  have hsum := sum_setEntry_le (fun _ ↦ 1) key kept found
  simpa using hsum

private theorem length_dumped_str_mono {s : String} {short long : Nat} (h : short ≤ long) :
    (dumped (.str (firstCharacters short s))).length ≤
      (dumped (.str (firstCharacters long s))).length := by
  obtain ⟨rest, hrest⟩ := List.take_prefix_take_left (l := s.toList) h
  unfold dumped firstCharacters
  rw [Json.write, Json.write, Json.quote, Json.quote, String.toList_ofList, String.toList_ofList,
    ← hrest, List.flatMap_append]
  simp only [List.length_cons, List.length_append]
  omega

/-- The entries that are kept cost no more than there is, nor than their bounds. -/
theorem length_trimMembers_le {members result : List (String × Json)}
    (hchild : ∀ child budget kept, trim levels child budget = .ok kept → ∀ room, budget ≤ room →
      (dumped kept).length ≤ textBound levels room child)
    (h : trimMembers (trim levels) remaining [] members = .ok result)
    (hremaining : remaining ≤ room) :
    (result.map charge).sum ≤ room ∧ result.length ≤ members.length ∧
      (result.map fun m ↦ charge m + 2).sum ≤
        (members.map fun m ↦ entryBound (textBound levels) room m + 2).sum := by
  let P := fun (remaining : Nat) (found rest : List (String × Json)) ↦
    (found.map charge).sum + remaining ≤ room ∧ found.length + rest.length ≤ members.length ∧
      (found.map fun m ↦ charge m + 2).sum +
        (rest.map fun m ↦ entryBound (textBound levels) room m + 2).sum ≤
          (members.map fun m ↦ entryBound (textBound levels) room m + 2).sum
  have hstart : P remaining [] members := ⟨by simpa using hremaining, by simp, by simp⟩
  obtain ⟨left, rest, hsum, hlength, hbound⟩ : ∃ left rest, P left result rest := by
    refine trimMembers_invariant ?_ ?_ hstart h
    · rintro remaining found m rest kept ⟨hsum, hlength, hbound⟩ hkept hcost
      rw [List.map_cons, List.sum_cons, entryBound] at hbound
      rw [List.length_cons] at hlength
      generalize firstCharacters 80 m.1 = key at *
      have hcharge := sum_setEntry_le charge key kept found
      have hweight := sum_setEntry_le (fun m ↦ charge m + 2) key kept found
      have hcount := length_setEntry_le key kept found
      have htext := hchild _ _ _ hkept (min 700 (room - keyCost key)) (by omega)
      have hentry : charge (key, kept) = keyCost key + (dumped kept).length := rfl
      rw [hentry] at hcharge hweight
      exact ⟨by omega, by omega, by omega⟩
    · rintro remaining found m rest ⟨hsum, hlength, hbound⟩
      rw [List.map_cons, List.sum_cons] at hbound
      rw [List.length_cons] at hlength
      exact ⟨hsum, by omega, by omega⟩
  exact ⟨by omega, by omega, by omega⟩

/-- The items that are kept cost no more than there is, nor than their bounds. -/
theorem length_trimItems_le {items result : List Json}
    (hchild : ∀ child budget kept, trim levels child budget = .ok kept → ∀ room, budget ≤ room →
      (dumped kept).length ≤ textBound levels room child)
    (h : trimItems (trim levels) remaining [] items = .ok result) (hremaining : remaining ≤ room) :
    (result.map fun item ↦ (dumped item).length + 1).sum ≤ room ∧ result.length ≤ items.length ∧
      (result.map fun item ↦ (dumped item).length + 2).sum ≤
        (items.map fun item ↦ textBound levels (min 500 (room - 1)) item + 2).sum := by
  let P := fun (remaining : Nat) (found rest : List Json) ↦
    (found.map fun item ↦ (dumped item).length + 1).sum + remaining ≤ room ∧
      found.length + rest.length ≤ items.length ∧
      (found.map fun item ↦ (dumped item).length + 2).sum +
        (rest.map fun item ↦ textBound levels (min 500 (room - 1)) item + 2).sum ≤
          (items.map fun item ↦ textBound levels (min 500 (room - 1)) item + 2).sum
  have hstart : P remaining [] items := ⟨by simpa using hremaining, by simp, by simp⟩
  obtain ⟨left, rest, hsum, hlength, hbound⟩ : ∃ left rest, P left result rest := by
    refine trimItems_invariant ?_ ?_ hstart h
    · rintro remaining found child rest kept ⟨hsum, hlength, hbound⟩ hkept hcost
      have htext := hchild _ _ _ hkept (min 500 (room - 1)) (by omega)
      rw [List.map_cons, List.sum_cons] at hbound
      rw [List.length_cons] at hlength
      refine ⟨?_, ?_, ?_⟩
      · rw [List.map_append, List.sum_append, List.map_singleton, List.sum_singleton]
        omega
      · rw [List.length_append, List.length_singleton]
        omega
      · rw [List.map_append, List.sum_append, List.map_singleton, List.sum_singleton]
        omega
    · rintro remaining found child rest ⟨hsum, hlength, hbound⟩
      rw [List.map_cons, List.sum_cons] at hbound
      rw [List.length_cons] at hlength
      exact ⟨hsum, by omega, by omega⟩
  exact ⟨by omega, by omega, by omega⟩

private theorem sum_map_add {α : Type} (f : α → Nat) (count : Nat) (xs : List α) :
    (xs.map fun x ↦ f x + count).sum = (xs.map f).sum + count * xs.length := by
  induction xs with
  | nil => simp
  | cons x rest ih =>
    rw [List.map_cons, List.map_cons, List.sum_cons, List.sum_cons, ih, List.length_cons,
      Nat.mul_succ]
    omega

/-- No document is trimmed to a longer text than its bound. -/
theorem length_trim_le {item kept : Json} {budget : Nat}
    (h : trim levels item budget = .ok kept) (hbudget : budget ≤ room) :
    (dumped kept).length ≤ textBound levels room item := by
  induction levels generalizing item kept budget room with
  | zero =>
    cases h
    exact Nat.le_refl 4
  | succ levels ih =>
    cases item with
    | obj members =>
      obtain ⟨result, rfl, hresult⟩ := trim_obj_eq_ok h
      obtain ⟨hsum, hlength, hbound⟩ := length_trimMembers_le (fun _ _ _ hkept _ ↦ ih hkept)
        hresult (Nat.sub_le_sub_right hbudget 2)
      rw [sum_map_add, sum_map_add] at hbound
      rw [length_dumped_obj]
      cases result with
      | nil =>
        rw [List.map_nil, List.sum_nil, List.length_nil]
        exact le_min (by omega) (by omega)
      | cons m rest =>
        rw [List.length_cons] at *
        exact le_min (by omega) (by omega)
    | arr items =>
      obtain ⟨result, rfl, hresult⟩ := trim_arr_eq_ok h
      obtain ⟨hsum, hlength, hbound⟩ := length_trimItems_le (fun _ _ _ hkept _ ↦ ih hkept)
        hresult (Nat.sub_le_sub_right hbudget 2)
      rw [sum_map_add, sum_map_add] at hbound
      rw [sum_map_add] at hsum
      rw [length_dumped_arr]
      cases result with
      | nil =>
        rw [List.map_nil, List.sum_nil, List.length_nil]
        exact le_min (by omega) (by omega)
      | cons item rest =>
        rw [List.length_cons] at *
        exact le_min (by omega) (by omega)
    | str s =>
      cases h
      exact length_dumped_str_mono (by omega)
    | null =>
      cases h
      exact Nat.le_refl _
    | bool b =>
      cases h
      exact Nat.le_refl _
    | int n =>
      cases h
      exact Nat.le_refl _
    | float x =>
      cases h
      exact Nat.le_refl _

end Bound

/-! ### Entries that fit as they are -/

/-- The room in which a text or another scalar is left as it is: a text is granted six characters
for each of its own. Mappings and sequences may be cut in any room. -/
def wholeRoom : Json → Option Nat
  | .str s => if 6 * s.length + 2 ≤ 700 then some (6 * s.length + 2) else none
  | .obj _ | .arr _ => none
  | item => some (dumped item).length

/-- The entries of a mapping fit into a record as they are. -/
structure EntriesFit (members : List (String × Json)) : Prop where
  few : members.length ≤ 24
  keys : (members.map (·.1)).Nodup
  short : ∀ m ∈ members, m.1.length ≤ 80
  flat : ∀ m ∈ members, (wholeRoom m.2).isSome
  room : (members.map fun m ↦ keyCost m.1 + max 8 ((wholeRoom m.2).getD 0)).sum ≤ 1798

section Fits

variable {levels room : Nat} {item : Json}

private theorem length_escape_le (c : Char) : (Json.escape false c).length ≤ 6 := by
  unfold Json.escape
  split_ifs with _ _ _ _ _ _ _ hcontrol
  iterate 7 exact by decide
  · have hsmall : c.toNat < 65536 := by
      rcases hcontrol with hlt | ⟨hascii, -⟩
      · omega
      · cases hascii
    rw [Json.unicodeEscape, if_pos hsmall]
    exact le_rfl
  · exact Nat.le_add_left 1 5

/-- A text takes six characters for each of its own at most. -/
theorem length_dumped_str_le (s : String) :
    (dumped (.str s)).length ≤ 6 * s.length + 2 := by
  have hsum : (s.toList.flatMap (Json.escape false)).length ≤ s.toList.length * 6 := by
    rw [List.length_flatMap, ← List.length_map (fun c ↦ (Json.escape false c).length)]
    refine List.sum_le_card_nsmul _ 6 fun n hn ↦ ?_
    obtain ⟨c, -, rfl⟩ := List.mem_map.mp hn
    exact length_escape_le c
  rw [String.length_toList] at hsum
  have htext : (dumped (.str s)).length = (s.toList.flatMap (Json.escape false)).length + 2 := by
    rw [dumped, Json.write, Json.quote, List.length_append]
    rfl
  omega

private theorem firstCharacters_eq_self {count : Nat} {s : String} (h : s.length ≤ count) :
    firstCharacters count s = s := by
  unfold firstCharacters
  rw [List.take_of_length_le (by rwa [String.length_toList]), String.ofList_toList]

private theorem digits_le_length (n : Int) :
    (Nat.toDigits 10 n.natAbs).length ≤ (dumped (.int n)).length := by
  rw [dumped, Json.write]
  cases n with
  | ofNat n => exact Nat.le_refl _
  | negSucc n => exact Nat.le_succ _

/-- What such room does to an item. -/
theorem whole_of_wholeRoom {need budget : Nat} (h : wholeRoom item = some need)
    (hbudget : min 700 need ≤ budget) :
    trim (levels + 1) item budget = .ok item ∧ (dumped item).length ≤ need ∧
      textBound (levels + 1) budget item = (dumped item).length ∧
      (need ≤ 1798 → writable item = true) := by
  cases item with
  | obj members => cases h
  | arr items => cases h
  | str s =>
    rw [wholeRoom] at h
    split at h
    case isFalse => cases h
    case isTrue hshort =>
      cases h
      have hkept : firstCharacters (min 700 ((budget - 2) / 6)) s = s :=
        firstCharacters_eq_self (by omega)
      refine ⟨?_, length_dumped_str_le s, ?_, fun _ ↦ rfl⟩
      · rw [trim, hkept]
      · rw [textBound, hkept]
  | null =>
    cases h
    exact ⟨rfl, Nat.le_refl _, rfl, fun _ ↦ rfl⟩
  | bool b =>
    cases h
    exact ⟨rfl, Nat.le_refl _, rfl, fun _ ↦ rfl⟩
  | float x =>
    cases h
    exact ⟨rfl, Nat.le_refl _, rfl, fun _ ↦ rfl⟩
  | int n =>
    cases h
    refine ⟨rfl, Nat.le_refl _, rfl, fun hroom ↦ decide_eq_true ?_⟩
    exact (digits_le_length n).trans (hroom.trans (by decide))

/-- Entries that fit are all taken as they are. -/
theorem trimMembers_of_fits {remaining : Nat} {found members : List (String × Json)}
    (hkeys : ((found ++ members).map (·.1)).Nodup) (hshort : ∀ m ∈ members, m.1.length ≤ 80)
    (hflat : ∀ m ∈ members, (wholeRoom m.2).isSome) (hremaining : remaining ≤ 1798)
    (hroom : (members.map fun m ↦ keyCost m.1 + max 8 ((wholeRoom m.2).getD 0)).sum ≤ remaining) :
    trimMembers (trim (levels + 1)) remaining found members = .ok (found ++ members) := by
  induction members generalizing remaining found with
  | nil =>
    rw [List.append_nil]
    rfl
  | cons m rest ih =>
    obtain ⟨key, value⟩ := m
    have hkey : firstCharacters 80 key = key :=
      firstCharacters_eq_self (hshort (key, value) List.mem_cons_self)
    obtain ⟨need, hneed⟩ := Option.isSome_iff_exists.mp (hflat (key, value) List.mem_cons_self)
    have hneed' : wholeRoom value = some need := hneed
    rw [List.map_cons, List.sum_cons] at hroom
    dsimp only at hroom
    rw [hneed', Option.getD_some] at hroom
    obtain ⟨hkept, hlength, -, hwritable⟩ := @whole_of_wholeRoom levels value need
      (min 700 (remaining - keyCost key)) hneed' (by omega)
    have hnew : key ∉ found.map (·.1) := by
      rw [List.map_append, List.map_cons, List.nodup_append] at hkeys
      exact fun hmem ↦ hkeys.2.2 _ hmem _ List.mem_cons_self rfl
    have hcons := @trimMembers_cons (trim (levels + 1)) remaining found rest (key, value) value
    dsimp only at hcons
    rw [hkey] at hcons
    rw [hcons (by omega) hkept (hwritable (by omega)), if_pos (by omega), setEntry_new hnew, ih]
    · rw [List.append_assoc]
      rfl
    · rw [List.append_assoc]
      exact hkeys
    · exact fun m hm ↦ hshort m (List.mem_cons_of_mem _ hm)
    · exact fun m hm ↦ hflat m (List.mem_cons_of_mem _ hm)
    · omega
    · omega

variable {members : List (String × Json)}

private theorem entry_of_fits (h : EntriesFit members) {m : String × Json} (hm : m ∈ members) :
    entryBound (textBound 4) 1798 m = charge m ∧
      charge m ≤ keyCost m.1 + max 8 ((wholeRoom m.2).getD 0) ∧ writable m.2 = true := by
  obtain ⟨need, hneed⟩ := Option.isSome_iff_exists.mp (h.flat m hm)
  have hroom := (List.le_sum_of_mem (List.mem_map_of_mem (f := fun m : String × Json ↦
    keyCost m.1 + max 8 ((wholeRoom m.2).getD 0)) hm)).trans h.room
  rw [hneed, Option.getD_some] at hroom ⊢
  obtain ⟨-, hlength, hbound, hwritable⟩ := @whole_of_wholeRoom 3 m.2 need
    (min 700 (1798 - keyCost m.1)) hneed (by omega)
  unfold entryBound charge
  rw [firstCharacters_eq_self (h.short m hm), hbound]
  exact ⟨rfl, by omega, hwritable (by omega)⟩

/-- A record whose entries fit is not cut. -/
theorem trim_of_fits (h : EntriesFit members) :
    trim 5 (.obj members) 1800 = .ok (.obj members) := by
  rw [trim, List.take_of_length_le h.few, trimMembers_of_fits (by simpa using h.keys) h.short
    h.flat (Nat.le_refl _) h.room]
  rfl

/-- The bound of such a record is its length. -/
theorem textBound_of_fits (h : EntriesFit members) :
    textBound 5 1800 (.obj members) = (dumped (.obj members)).length := by
  have hentries : members.map (entryBound (textBound 4) 1798) = members.map charge :=
    List.map_congr_left fun m hm ↦ (entry_of_fits h hm).1
  have hsum : (members.map charge).sum ≤ 1798 :=
    (List.sum_le_sum fun m hm ↦ (entry_of_fits h hm).2.1).trans h.room
  rw [textBound, List.take_of_length_le h.few, length_dumped_obj]
  rw [hentries]
  omega

end Fits

/-! ### Whole records -/

/-- What a text promises of a record: it is valid JSON that keeps parts of the record only, and
`sources_for` does not cut it. -/
structure WholeText (value : Json) (text : String) : Prop where
  valid : ∃ document, text = String.ofList (dumped document) ∧ KeptWhole 5 document value
  bounded : text.length ≤ 1800
  uncut : firstCharacters 1800 text = text

/-- The record is compacted to such a text. -/
def CompactedWhole (value : Json) : Prop := ∃ text, compact value = .ok text ∧ WholeText value text

private theorem compact_eq_ok {value : Json} {text : String} :
    compact value = .ok text ↔ ∃ kept, trim 5 value 1800 = .ok kept ∧ writable kept = true ∧
      String.ofList (dumped kept) = text := by
  unfold compact
  rw [bind_eq_ok]
  apply exists_congr
  intro kept
  rw [bind_eq_ok]
  constructor
  · rintro ⟨hkept, text', htext, hreturn⟩
    obtain ⟨hwritable, rfl⟩ := dumps_eq_ok.mp htext
    cases hreturn
    exact ⟨hkept, hwritable, rfl⟩
  · rintro ⟨hkept, hwritable, rfl⟩
    exact ⟨hkept, _, dumps_eq_ok.mpr ⟨hwritable, rfl⟩, rfl⟩

/-- A record is compacted whole exactly if what trimming leaves can be written in the budget. -/
theorem compactedWhole_iff_length {value : Json} :
    CompactedWhole value ↔ ∃ kept, trim 5 value 1800 = .ok kept ∧ writable kept = true ∧
      (dumped kept).length ≤ 1800 := by
  constructor
  · rintro ⟨text, htext, hwhole⟩
    obtain ⟨kept, hkept, hwritable, rfl⟩ := compact_eq_ok.mp htext
    exact ⟨kept, hkept, hwritable, by simpa using hwhole.bounded⟩
  · rintro ⟨kept, hkept, hwritable, hlength⟩
    have hbounded : (String.ofList (dumped kept)).length ≤ 1800 := by simpa using hlength
    exact ⟨_, compact_eq_ok.mpr ⟨kept, hkept, hwritable, rfl⟩,
      ⟨kept, rfl, trim_keptWhole hkept⟩, hbounded, firstCharacters_eq_self hbounded⟩

/-- An integer that cannot be written makes `compact` raise. -/
theorem compact_raises {key : String} {n : Int} (rest : List (String × Json))
    (hn : writable (.int n) = false) :
    compact (.obj ((key, .int n) :: rest)) = .error .valueError := by
  have hcost : keyCost (firstCharacters 80 key) ≤ 484 := by
    have htext := length_dumped_str_le (firstCharacters 80 key)
    have hlength : (firstCharacters 80 key).length ≤ 80 := by
      unfold firstCharacters
      rw [String.length_ofList]
      exact List.length_take_le _ _
    unfold keyCost
    omega
  have hdumps : dumps (.int n) = .error .valueError := if_neg (by simp [hn])
  have htrim : trimMembers (trim 4) 1798 [] ((key, .int n) :: rest.take 23) =
      .error .valueError := by
    rw [trimMembers]
    dsimp only
    rw [if_neg (by omega)]
    show (dumps (.int n) >>= _) = _
    rw [hdumps]
    rfl
  unfold compact
  rw [trim, List.take_succ_cons]
  show ((trimMembers (trim 4) 1798 [] _).map Json.obj >>= _) = _
  rw [htrim]
  rfl

/-- For every record: it is compacted whole if its integers can be written and the longest text that
the limits leave is within the budget. Where all entries fit as they are this is exact; and an
integer that cannot be written makes `compact` raise. `src/jobtology_be/chat/personal.py:30–62`,
`src/jobtology_be/chat/workspace_models.py:139–145`. -/
theorem compactedWhole_of_textBound (members : List (String × Json)) :
    (IntsWritable 5 (.obj members) → textBound 5 1800 (.obj members) ≤ 1800 →
      CompactedWhole (.obj members)) ∧
    (EntriesFit members →
      (CompactedWhole (.obj members) ↔ textBound 5 1800 (.obj members) ≤ 1800)) ∧
    ∀ key n rest, members = (key, .int n) :: rest → writable (.int n) = false →
      ¬ CompactedWhole (.obj members) := by
  refine ⟨fun hints hbound ↦ ?_, fun hfit ↦ ?_, ?_⟩
  · obtain ⟨kept, hkept, hwritable⟩ := trim_writable hints 1800
    exact compactedWhole_iff_length.mpr
      ⟨kept, hkept, hwritable, (length_trim_le hkept (Nat.le_refl _)).trans hbound⟩
  · rw [compactedWhole_iff_length, trim_of_fits hfit, textBound_of_fits hfit]
    constructor
    · rintro ⟨kept, hkept, -, hlength⟩
      cases hkept
      exact hlength
    · intro hlength
      exact ⟨_, rfl, writable_obj.mpr fun m hm ↦ (entry_of_fits hfit hm).2.2, hlength⟩
  · rintro key n rest rfl hn ⟨text, htext, -⟩
    rw [compact_raises rest hn] at htext
    cases htext

/-- A record of a title and a number. -/
theorem compactedWhole_goal :
    CompactedWhole (.obj [("title", .str "goal"), ("weekly_hours", .int 10)]) :=
  (compactedWhole_of_textBound _).1 (by simp [IntsWritable]; decide) (by decide +kernel)

/-- A text of as many characters that are all escaped. -/
def escapedText (count : Nat) : Json := .str (String.ofList (List.replicate count '\x00'))

/-- A record of three texts whose characters are all escaped. -/
def fullRecord : List (String × Json) :=
  let text := Json.str (String.ofList (List.replicate 117 '\x00'))
  [("a", text), ("b", text), ("c", text)]

private theorem length_dumped_escapedText (count : Nat) :
    (dumped (escapedText count)).length = 6 * count + 2 := by
  have hescape : (Json.escape false '\x00').length = 6 := by decide
  have hsum : ((List.replicate count '\x00').flatMap (Json.escape false)).length = 6 * count := by
    rw [List.length_flatMap, List.map_replicate, List.sum_replicate, hescape, Nat.mul_comm]
    rfl
  unfold dumped escapedText Json.write Json.quote
  rw [String.toList_ofList, List.length_append, List.length_cons, hsum]
  rfl

private theorem charge_escapedText {key : String} (hkey : keyCost key = 5) {count : Nat} :
    charge (key, escapedText count) = 6 * count + 7 := by
  rw [charge, hkey, length_dumped_escapedText]
  omega

private theorem trim_escapedText (levels count budget : Nat) :
    trim (levels + 1) (escapedText count) budget =
      .ok (escapedText (min (min 700 ((budget - 2) / 6)) count)) := by
  unfold escapedText trim
  rw [firstCharacters, String.toList_ofList, List.take_replicate]

private theorem trimMembers_escapedText {remaining : Nat} {found rest : List (String × Json)}
    {key : String} (hkey : firstCharacters 80 key = key ∧ keyCost key = 5) (n : Nat)
    (hn : min (min 700 ((min 700 (remaining - 5) - 2) / 6)) 117 = n)
    (hroom : 13 ≤ remaining) (hfits : 6 * n + 7 ≤ remaining) :
    trimMembers (trim 4) remaining found ((key, escapedText 117) :: rest) =
      trimMembers (trim 4) (remaining - (6 * n + 7)) (setEntry key (escapedText n) found) rest := by
  have hcost : keyCost (firstCharacters 80 key) = 5 := hkey.1.symm ▸ hkey.2
  have hkept : trim 4 (escapedText 117) (min 700 (remaining - keyCost (firstCharacters 80 key))) =
      .ok (escapedText n) := by
    rw [hcost, trim_escapedText, hn]
  have hlength : 5 + (dumped (escapedText n)).length = 6 * n + 7 := by
    rw [← hkey.2]
    exact charge_escapedText hkey.2
  rw [trimMembers_cons (m := (key, escapedText 117)) (by rw [hcost]; exact hroom) hkept rfl, hcost,
    hlength, if_pos hfits, hkey.1]

-- The budget is charged 703, 703 and 391 characters, and the separators are not counted.
private theorem trim_fullRecord : trim 5 (.obj fullRecord) 1800 =
    .ok (.obj [("a", escapedText 116), ("b", escapedText 116), ("c", escapedText 64)]) := by
  have hloop : trimMembers (trim 4) 1798 [] [("a", escapedText 117), ("b", escapedText 117),
      ("c", escapedText 117)] =
        .ok [("a", escapedText 116), ("b", escapedText 116), ("c", escapedText 64)] := by
    rw [trimMembers_escapedText (by decide +kernel) 116 (by decide) (by decide) (by decide),
      trimMembers_escapedText (by decide +kernel) 116 (by decide) (by decide) (by decide),
      trimMembers_escapedText (by decide +kernel) 64 (by decide) (by decide) (by decide)]
    rfl
  have htake : fullRecord.take 24 =
      [("a", escapedText 117), ("b", escapedText 117), ("c", escapedText 117)] := rfl
  rw [trim, htake, hloop]
  rfl

/-- The separators of a full record make it 1803 characters long. -/
theorem fullRecord_cut :
    (compact (.obj fullRecord)).map String.length = .ok 1803 ∧
      ¬ CompactedWhole (.obj fullRecord) := by
  have hlength : (dumped (.obj [("a", escapedText 116), ("b", escapedText 116),
      ("c", escapedText 64)])).length = 1803 := by
    have hkeys : keyCost "a" = 5 ∧ keyCost "b" = 5 ∧ keyCost "c" = 5 := by decide +kernel
    rw [length_dumped_obj, List.map_cons, List.map_cons, List.map_cons,
      charge_escapedText hkeys.1, charge_escapedText hkeys.2.1, charge_escapedText hkeys.2.2]
    rfl
  refine ⟨?_, fun hwhole ↦ ?_⟩
  · rw [compact_eq_ok.mpr ⟨_, trim_fullRecord, rfl, rfl⟩]
    show Except.ok (String.ofList (dumped _)).length = _
    rw [String.length_ofList, hlength]
  · obtain ⟨kept, hkept, -, hbounded⟩ := compactedWhole_iff_length.mp hwhole
    obtain rfl := Except.ok.inj (trim_fullRecord.symm.trans hkept)
    omega

end Jobtology.Chat
