import Mathlib.Data.Finset.Basic
import Mathlib.Data.Finset.Dedup
import Mathlib.Data.List.Sort
import Mathlib.Data.String.Basic

/-!
# Ordered views of sets, keyed lookups and blank text

Library for the collection idioms of a dynamic language: the sorted list of a finite set, a
lookup in a dictionary built from a sequence, and the test for text that is empty after its
surrounding white space is removed.
-/

namespace Jobtology.Base

universe u v

variable {α : Type u} {κ : Type v}

/-- A UUID by its numeric value. Its text has a fixed width, so texts compare like values. -/
abbrev Uuid := Nat

/-- The elements of a finite set in increasing order. -/
def sortedSet [LinearOrder α] (s : Finset α) : List α :=
  Quot.liftOn s.val (fun l ↦ l.insertionSort (· ≤ ·)) fun a b h ↦
    List.Perm.eq_of_pairwise' (List.pairwise_insertionSort _ a) (List.pairwise_insertionSort _ b)
      (((List.perm_insertionSort _ a).trans h).trans (List.perm_insertionSort _ b).symm)

/-- Sorting keeps the elements. -/
@[simp] theorem mem_sortedSet [LinearOrder α] (s : Finset α) (a : α) :
    a ∈ sortedSet s ↔ a ∈ s := by
  rcases s with ⟨⟨l⟩, h⟩
  exact List.mem_insertionSort (· ≤ ·)

/-- A sorted set ascends. -/
theorem pairwise_sortedSet [LinearOrder α] (s : Finset α) : (sortedSet s).Pairwise (· ≤ ·) := by
  rcases s with ⟨⟨l⟩, h⟩
  exact List.pairwise_insertionSort (· ≤ ·) l

/-- A sorted set has no duplicates. -/
theorem nodup_sortedSet [LinearOrder α] (s : Finset α) : (sortedSet s).Nodup := by
  rcases s with ⟨⟨l⟩, h⟩
  exact (List.perm_insertionSort (· ≤ ·) l).nodup_iff.mpr h

/-- A sorted set ascends strictly. -/
theorem pairwise_lt_sortedSet [LinearOrder α] (s : Finset α) :
    (sortedSet s).Pairwise (· < ·) := by
  have hne : (sortedSet s).Pairwise (· ≠ ·) := nodup_sortedSet s
  refine ((pairwise_sortedSet s).and hne).imp ?_
  intro a b h
  exact lt_of_le_of_ne h.1 h.2

/-- Dropping later repetitions leaves every element once. -/
theorem nodup_eraseDups [DecidableEq α] (xs : List α) : xs.eraseDups.Nodup := by
  induction h : xs.length using Nat.strong_induction_on generalizing xs with
  | _ n ih =>
    cases xs with
    | nil => simp
    | cons x xs =>
      have hlt : (xs.filter fun y ↦ !y == x).length < n := by
        have hle := List.length_filter_le (fun y ↦ !y == x) xs
        rw [List.length_cons] at h
        omega
      rw [List.eraseDups_cons, List.nodup_cons]
      exact ⟨by simp, ih _ hlt _ rfl⟩

/-- A function that is changed at one member, from nothing to a value, adds that value. -/
theorem filterMap_perm_cons {β : Type v} {f g : α → Option β} {xs : List α} (hn : xs.Nodup)
    {x : α} (hx : x ∈ xs) {b : β} (hf : f x = none) (hg : g x = some b)
    (hrest : ∀ y ∈ xs, y ≠ x → g y = f y) : (xs.filterMap g).Perm (b :: xs.filterMap f) := by
  obtain ⟨before, after, rfl⟩ := List.append_of_mem hx
  obtain ⟨-, hafter, hdisjoint⟩ := List.nodup_append.mp hn
  have hbefore : before.filterMap g = before.filterMap f :=
    List.filterMap_congr fun y hy ↦ hrest y (by simp [hy])
      (hdisjoint y hy x List.mem_cons_self)
  have hsame : after.filterMap g = after.filterMap f :=
    List.filterMap_congr fun y hy ↦ hrest y (by simp [hy]) fun he ↦
      (List.nodup_cons.mp hafter).1 (he ▸ hy)
  rw [List.filterMap_append, List.filterMap_append, List.filterMap_cons_some hg,
    List.filterMap_cons_none hf, hbefore, hsame]
  exact List.perm_middle

/-- Lookup in the dictionary `{key x: x}` built from a sequence: a later entry replaces an
earlier one with the same key. -/
def lookupLast [DecidableEq κ] (key : α → κ) (xs : List α) (k : κ) : Option α :=
  xs.reverse.find? fun x ↦ key x = k

/-- What is found is in the list and has the key. -/
theorem lookupLast_some [DecidableEq κ] {key : α → κ} {xs : List α} {k : κ} {x : α}
    (h : lookupLast key xs k = some x) : x ∈ xs ∧ key x = k := by
  have hm := List.mem_of_find?_eq_some h
  have hp := List.find?_some h
  exact ⟨List.mem_reverse.mp hm, by simpa using hp⟩

/-- Nothing is found exactly if no element has the key. -/
theorem lookupLast_eq_none [DecidableEq κ] {key : α → κ} {xs : List α} {k : κ} :
    lookupLast key xs k = none ↔ ∀ x ∈ xs, key x ≠ k := by
  simp [lookupLast, List.find?_eq_none]

/-- With distinct keys the lookup of a member's key is that member. -/
theorem lookupLast_of_mem [DecidableEq κ] {key : α → κ} {xs : List α}
    (hn : (xs.map key).Nodup) {x : α} (hx : x ∈ xs) : lookupLast key xs (key x) = some x := by
  cases h : lookupLast key xs (key x) with
  | none => exact False.elim (lookupLast_eq_none.mp h x hx rfl)
  | some y =>
    obtain ⟨hy, hk⟩ := lookupLast_some h
    rw [List.inj_on_of_nodup_map hn hy hx hk]

/-- With distinct keys the element of a key is found. -/
theorem lookupLast_eq_some [DecidableEq κ] {key : α → κ} {xs : List α}
    (hn : (xs.map key).Nodup) {k : κ} {x : α} :
    lookupLast key xs k = some x ↔ x ∈ xs ∧ key x = k := by
  constructor
  · exact lookupLast_some
  · rintro ⟨hx, rfl⟩
    exact lookupLast_of_mem hn hx

/-- With distinct keys the order of the entries does not matter. -/
theorem lookupLast_perm [DecidableEq κ] {key : α → κ} {xs ys : List α} (hp : xs.Perm ys)
    (hn : (xs.map key).Nodup) (k : κ) : lookupLast key xs k = lookupLast key ys k := by
  ext x
  rw [lookupLast_eq_some hn, lookupLast_eq_some ((hp.map key).nodup_iff.mp hn), hp.mem_iff]

/-- Set a key of a dictionary, in its place when it has one. -/
def setEntry [DecidableEq κ] (k : κ) (v : α) : List (κ × α) → List (κ × α)
  | [] => [(k, v)]
  | entry :: rest => if entry.1 = k then (k, v) :: rest else entry :: setEntry k v rest

/-- Setting an entry adds its key and keeps the others. -/
theorem mem_keys_setEntry [DecidableEq κ] {k k' : κ} {v : α} {entries : List (κ × α)} :
    k' ∈ (setEntry k v entries).map (·.1) ↔ k' = k ∨ k' ∈ entries.map (·.1) := by
  induction entries with
  | nil => simp [setEntry]
  | cons entry rest ih =>
    unfold setEntry
    split
    · next h => simp [← h]
    · simp only [List.map_cons, List.mem_cons, ih]
      tauto

/-- Setting an entry keeps keys distinct. -/
theorem nodup_keys_setEntry [DecidableEq κ] {k : κ} {v : α} {entries : List (κ × α)}
    (h : (entries.map (·.1)).Nodup) : ((setEntry k v entries).map (·.1)).Nodup := by
  induction entries with
  | nil => exact List.nodup_singleton k
  | cons e rest ih =>
    rw [List.map_cons, List.nodup_cons] at h
    unfold setEntry
    by_cases he : e.1 = k
    · rw [if_pos he, List.map_cons, List.nodup_cons, ← he]
      exact h
    · rw [if_neg he, List.map_cons, List.nodup_cons, mem_keys_setEntry, not_or]
      exact ⟨⟨he, h.1⟩, ih h.2⟩

/-- An entry after setting one is that one or was there. -/
theorem of_mem_setEntry [DecidableEq κ] {k : κ} {v : α} {entries : List (κ × α)} {e : κ × α}
    (h : e ∈ setEntry k v entries) : e = (k, v) ∨ e ∈ entries := by
  induction entries with
  | nil => exact .inl (List.mem_singleton.mp h)
  | cons entry rest ih =>
    unfold setEntry at h
    split at h
    · rcases List.mem_cons.mp h with h | h
      · exact .inl h
      · exact .inr (List.mem_cons_of_mem _ h)
    · rcases List.mem_cons.mp h with rfl | h
      · exact .inr List.mem_cons_self
      · exact (ih h).imp_right (List.mem_cons_of_mem _)

/-- A computation with two parts succeeds when the parts do, one after the other. -/
theorem bind_eq_ok {ε : Type u} {α β : Type v} {x : Except ε α} {f : α → Except ε β} {b : β} :
    x >>= f = .ok b ↔ ∃ a, x = .ok a ∧ f a = .ok b := by
  cases x <;> simp [bind, Except.bind]

/-- A result that is left once the error is forgotten. -/
theorem ok_of_toOption {ε : Type u} {α : Type v} {e : Except ε α} {a : α}
    (h : e.toOption = some a) : e = .ok a := by
  cases e with
  | ok b => exact congrArg _ (Option.some.inj h)
  | error _ => cases h

/-- A comprehension succeeds with the results of its elements. -/
theorem forall₂_of_mapM_ok {ε : Type u} {α β : Type v} {f : α → Except ε β} {xs : List α}
    {ys : List β} (h : xs.mapM f = .ok ys) : List.Forall₂ (fun x y ↦ f x = .ok y) xs ys := by
  induction xs generalizing ys with
  | nil =>
    obtain rfl : [] = ys := Except.ok.inj h
    exact .nil
  | cons x xs ih =>
    rw [List.mapM_cons] at h
    obtain ⟨y, hy, h⟩ := bind_eq_ok.mp h
    obtain ⟨rest, hrest, h⟩ := bind_eq_ok.mp h
    obtain rfl : y :: rest = ys := Except.ok.inj h
    exact .cons hy (ih hrest)

/-- A comprehension succeeds when every element does. -/
theorem exists_mapM_ok_iff {ε : Type u} {α β : Type v} {f : α → Except ε β} {xs : List α} :
    (∃ ys, xs.mapM f = .ok ys) ↔ ∀ x ∈ xs, ∃ y, f x = .ok y := by
  constructor
  · rintro ⟨ys, h⟩ x hx
    have hall := forall₂_of_mapM_ok h
    clear h
    induction hall with
    | nil => cases hx
    | cons hxy _ ih =>
      rcases List.mem_cons.mp hx with rfl | hx
      · exact ⟨_, hxy⟩
      · exact ih hx
  · intro h
    induction xs with
    | nil => exact ⟨[], rfl⟩
    | cons x xs ih =>
      obtain ⟨y, hy⟩ := h x (by simp)
      obtain ⟨ys, hys⟩ := ih fun x hx ↦ h x (by simp [hx])
      refine ⟨y :: ys, ?_⟩
      rw [List.mapM_cons]
      exact bind_eq_ok.mpr ⟨y, hy, bind_eq_ok.mpr ⟨ys, hys, rfl⟩⟩

/-- Every element of the second of two matching sequences matches one of the first. -/
theorem exists_of_mem_right {α β : Type v} {R : α → β → Prop} {xs : List α} {ys : List β}
    (h : List.Forall₂ R xs ys) {y : β} (hy : y ∈ ys) : ∃ x ∈ xs, R x y := by
  induction h with
  | nil => cases hy
  | cons hxy _ ih =>
    rcases List.mem_cons.mp hy with rfl | hy
    · exact ⟨_, by simp, hxy⟩
    · obtain ⟨x, hx, hr⟩ := ih hy
      exact ⟨x, List.mem_cons_of_mem _ hx, hr⟩

/-- Every element of the first of two matching sequences matches one of the second. -/
theorem exists_of_mem_left {α β : Type v} {R : α → β → Prop} {xs : List α} {ys : List β}
    (h : List.Forall₂ R xs ys) {x : α} (hx : x ∈ xs) : ∃ y ∈ ys, R x y :=
  exists_of_mem_right h.flip hx

/-- Collecting the elements that a check picks leaves nothing when it picks none. -/
theorem eq_of_collect_none {ε : Type u} {α : Type} {check : α → Except ε Bool}
    {xs ys acc : List α} (hnone : ∀ x ∈ xs, ∀ b, check x = .ok b → b = false)
    (h : xs.foldlM (fun acc x ↦ do return if ← check x then acc ++ [x] else acc) acc = .ok ys) :
    ys = acc := by
  induction xs generalizing acc with
  | nil => exact (Except.ok.inj h).symm
  | cons x xs ih =>
    rw [List.foldlM_cons] at h
    obtain ⟨acc', hstep, h⟩ := bind_eq_ok.mp h
    obtain ⟨b, hb, hacc⟩ := bind_eq_ok.mp hstep
    obtain rfl := hnone x (by simp) b hb
    obtain rfl : acc = acc' := by simpa using Except.ok.inj hacc
    exact ih (fun x hx ↦ hnone x (List.mem_cons_of_mem _ hx)) h

/-- A sequence of checks passes when every check passes. -/
theorem forM_ok_iff {ε : Type v} (f : α → Except ε PUnit) (xs : List α) :
    xs.forM f = .ok () ↔ ∀ x ∈ xs, f x = .ok () := by
  induction xs with
  | nil => simp [pure, Except.pure]
  | cons x xs ih =>
    change (f x >>= fun _ ↦ xs.forM f) = .ok () ↔ _
    rw [List.forall_mem_cons]
    cases h : f x with
    | error e => simp [bind, Except.bind]
    | ok u => simpa [bind, Except.bind] using ih

/-- A sequence of checks fails with the error of one of them. -/
theorem exists_of_forM_error {ε : Type v} {f : α → Except ε PUnit} {xs : List α} {e : ε}
    (h : xs.forM f = .error e) : ∃ x ∈ xs, f x = .error e := by
  induction xs with
  | nil => cases h
  | cons x xs ih =>
    change (f x >>= fun _ ↦ xs.forM f) = .error e at h
    cases hx : f x with
    | error e' =>
      rw [hx] at h
      exact ⟨x, by simp, by rw [hx]; exact h⟩
    | ok u =>
      rw [hx] at h
      obtain ⟨y, hy, he⟩ := ih h
      exact ⟨y, by simp [hy], he⟩

/-- A comprehension that may raise succeeds when every element does. -/
theorem mapM_eq_some_iff {β : Type v} (f : α → Option β) (xs : List α) (ys : List β) :
    xs.mapM f = some ys ↔ xs.map f = ys.map some := by
  induction xs generalizing ys with
  | nil => cases ys <;> simp
  | cons x xs ih =>
    rw [List.mapM_cons, List.map_cons]
    cases hx : f x with
    | none => cases ys <;> simp
    | some y =>
      cases hxs : xs.mapM f with
      | none =>
        cases ys with
        | nil => simp
        | cons z zs =>
          have hne : xs.map f ≠ zs.map some := fun h ↦ by simp [(ih zs).mpr h] at hxs
          simp [hne]
      | some ws =>
        have hws := (ih ws).mp hxs
        cases ys with
        | nil => simp
        | cons z zs =>
          have hiff : ws = zs ↔ ws.map some = zs.map some :=
            ⟨fun h ↦ by rw [h], fun h ↦ List.map_injective_iff.mpr (Option.some_injective β) h⟩
          simp [hws, hiff]

/-- Two sequences cut at their first separator agree on both sides of it. -/
theorem eq_of_append_separator {sep : α} {xs ys us vs : List α} (hx : sep ∉ xs) (hy : sep ∉ ys)
    (h : xs ++ sep :: us = ys ++ sep :: vs) : xs = ys ∧ us = vs := by
  induction xs generalizing ys with
  | nil =>
    cases ys with
    | nil => simpa using h
    | cons y ys =>
      obtain ⟨rfl, -⟩ := List.cons_eq_cons.mp h
      exact False.elim (hy (by simp))
  | cons x xs ih =>
    cases ys with
    | nil =>
      obtain ⟨rfl, -⟩ := List.cons_eq_cons.mp h
      exact False.elim (hx (by simp))
    | cons y ys =>
      obtain ⟨rfl, htail⟩ := List.cons_eq_cons.mp h
      obtain ⟨rfl, rfl⟩ := ih (fun hm ↦ hx (by simp [hm])) (fun hm ↦ hy (by simp [hm])) htail
      exact ⟨rfl, rfl⟩

/-- Characters removed from both ends of a text by stripping white space. -/
def isSpace (c : Char) : Bool :=
  (9 ≤ c.toNat && c.toNat ≤ 13) || (28 ≤ c.toNat && c.toNat ≤ 32) || c.toNat == 0x85 ||
  c.toNat == 0xa0 || c.toNat == 0x1680 || (0x2000 ≤ c.toNat && c.toNat ≤ 0x200a) ||
  c.toNat == 0x2028 || c.toNat == 0x2029 || c.toNat == 0x202f || c.toNat == 0x205f ||
  c.toNat == 0x3000

/-- Nothing is left of the text after stripping white space. -/
def isBlank (s : String) : Bool := s.toList.all isSpace

/-- Text with a visible character is not blank. -/
theorem isBlank_eq_false {s : String} (c : Char) (hc : c ∈ s.toList) (h : isSpace c = false) :
    isBlank s = false := by
  unfold isBlank
  rw [List.all_eq_false]
  exact ⟨c, hc, by simp [h]⟩

end Jobtology.Base
