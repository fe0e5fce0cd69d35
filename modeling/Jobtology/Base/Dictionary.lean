import Jobtology.Base.Collections
import Mathlib.Data.Finset.Card

/-!
# Dictionaries in order

Library for dictionaries that remember the order of their keys, read as the list of their values:
one that is filled from a sequence, and one whose entries move to the end when they are set again.
-/

namespace Jobtology.Base

universe u v

variable {α : Type u} {κ : Type v} [DecidableEq κ] {key : α → κ} {xs ys : List α}

/-- The values of `{key x: x}`: a key stays where it was first set, with its last value. -/
def dictOf (key : α → κ) (xs : List α) : List α :=
  (xs.foldl (fun entries x ↦ setEntry (key x) x entries) []).map (·.2)

private theorem mem_of_mem_foldl {entries : List (κ × α)} {e : κ × α}
    (h : e ∈ xs.foldl (fun entries x ↦ setEntry (key x) x entries) entries) :
    e ∈ entries ∨ e.2 ∈ xs := by
  induction xs generalizing entries with
  | nil => exact .inl h
  | cons x xs ih =>
    rcases ih h with hmem | hmem
    · rcases of_mem_setEntry hmem with rfl | hold
      · exact .inr List.mem_cons_self
      · exact .inl hold
    · exact .inr (List.mem_cons_of_mem x hmem)

/-- A dictionary has values of the list only. -/
theorem mem_of_mem_dictOf {x : α} (h : x ∈ dictOf key xs) : x ∈ xs := by
  obtain ⟨e, he, rfl⟩ := List.mem_map.mp h
  rcases mem_of_mem_foldl he with hnil | hmem
  · exact absurd hnil List.not_mem_nil
  · exact hmem

private theorem keys_setEntry_prefix {k : κ} {v : α} {entries : List (κ × α)} :
    entries.map (·.1) <+: (setEntry k v entries).map (·.1) := by
  induction entries with
  | nil => exact List.nil_prefix
  | cons e rest ih =>
    unfold setEntry
    by_cases h : e.1 = k
    · rw [if_pos h, List.map_cons, List.map_cons, h]
    · rw [if_neg h, List.map_cons, List.map_cons]
      exact List.prefix_cons_inj e.1 |>.mpr ih

private theorem keys_foldl_prefix {entries : List (κ × α)} :
    entries.map (·.1) <+:
      (xs.foldl (fun entries x ↦ setEntry (key x) x entries) entries).map (·.1) := by
  induction xs generalizing entries with
  | nil => exact List.prefix_rfl
  | cons x xs ih => exact keys_setEntry_prefix.trans ih

private theorem mem_keys_foldl {k : κ} {entries : List (κ × α)} :
    k ∈ (xs.foldl (fun entries x ↦ setEntry (key x) x entries) entries).map (·.1) ↔
      k ∈ entries.map (·.1) ∨ k ∈ xs.map key := by
  induction xs generalizing entries with
  | nil => simp
  | cons x xs ih =>
    rw [List.foldl_cons, ih, mem_keys_setEntry, List.map_cons, List.mem_cons]
    tauto

private theorem nodup_keys_foldl {entries : List (κ × α)} (h : (entries.map (·.1)).Nodup) :
    ((xs.foldl (fun entries x ↦ setEntry (key x) x entries) entries).map (·.1)).Nodup := by
  induction xs generalizing entries with
  | nil => exact h
  | cons x xs ih => exact ih (nodup_keys_setEntry h)

/-- The keys of the values are the keys that they are entered under. -/
theorem map_key_dictOf :
    (dictOf key xs).map key =
      (xs.foldl (fun entries x ↦ setEntry (key x) x entries) []).map (·.1) := by
  have hkeys : ∀ (xs : List α) (entries : List (κ × α)), (∀ e ∈ entries, key e.2 = e.1) →
      ∀ e ∈ xs.foldl (fun entries x ↦ setEntry (key x) x entries) entries, key e.2 = e.1 := by
    intro xs
    induction xs with
    | nil => exact fun _ h ↦ h
    | cons x xs ih =>
      intro entries h
      apply ih
      intro e he
      rcases of_mem_setEntry he with rfl | hold
      · rfl
      · exact h e hold
  unfold dictOf
  rw [List.map_map]
  apply List.map_congr_left
  exact hkeys xs [] fun e he ↦ absurd he List.not_mem_nil

/-- A dictionary has the keys of the list. -/
theorem mem_keys_dictOf {k : κ} : k ∈ (dictOf key xs).map key ↔ k ∈ xs.map key := by
  rw [map_key_dictOf, mem_keys_foldl]
  simp

/-- The keys of a dictionary are distinct. -/
theorem nodup_keys_dictOf : ((dictOf key xs).map key).Nodup := by
  rw [map_key_dictOf]
  exact nodup_keys_foldl List.nodup_nil

/-- The keys of a sequence come before those that what follows it adds. -/
theorem keys_dictOf_prefix :
    (dictOf key xs).map key <+: (dictOf key (xs ++ ys)).map key := by
  rw [map_key_dictOf, map_key_dictOf, List.foldl_append]
  exact keys_foldl_prefix

/-- A new key comes last. -/
theorem setEntry_new {k : κ} {v : α} {entries : List (κ × α)}
    (h : k ∉ entries.map (·.1)) : setEntry k v entries = entries ++ [(k, v)] := by
  induction entries with
  | nil => rfl
  | cons e rest ih =>
    rw [List.map_cons, List.mem_cons, not_or] at h
    unfold setEntry
    rw [if_neg (Ne.symm h.1), ih h.2]
    rfl

private theorem foldl_setEntry_new {entries : List (κ × α)}
    (h : (entries.map (·.1) ++ xs.map key).Nodup) :
    xs.foldl (fun entries x ↦ setEntry (key x) x entries) entries =
      entries ++ xs.map fun x ↦ (key x, x) := by
  induction xs generalizing entries with
  | nil => simp
  | cons x xs ih =>
    have hnew : key x ∉ entries.map (·.1) := by
      intro hmem
      rw [List.map_cons] at h
      exact (List.nodup_append.mp h).2.2 _ hmem _ List.mem_cons_self rfl
    rw [List.foldl_cons, setEntry_new hnew, ih]
    · simp
    · simpa using h

/-- With distinct keys the values are the sequence. -/
theorem dictOf_eq_self (h : (xs.map key).Nodup) : dictOf key xs = xs := by
  unfold dictOf
  rw [foldl_setEntry_new (by simpa using h)]
  simp [Function.comp_def]

/-- The values of a dictionary whose keys move to the end when they are set again. -/
def latest (key : α → κ) : List α → List α
  | [] => []
  | x :: xs => if key x ∈ xs.map key then latest key xs else x :: latest key xs

/-- The first value stays exactly if no later one has its key. -/
theorem latest_cons (key : α → κ) (x : α) (xs : List α) :
    latest key (x :: xs) =
      if key x ∈ xs.map key then latest key xs else x :: latest key xs := rfl

/-- The latest values stand in the order of the list. -/
theorem latest_sublist (key : α → κ) (xs : List α) : (latest key xs).Sublist xs := by
  induction xs with
  | nil => exact List.Sublist.slnil
  | cons x xs ih =>
    rw [latest_cons]
    by_cases h : key x ∈ xs.map key
    · rw [if_pos h]
      exact ih.cons x
    · rw [if_neg h]
      exact ih.cons_cons x

/-- The latest values have the keys of the list. -/
theorem mem_keys_latest {k : κ} : k ∈ (latest key xs).map key ↔ k ∈ xs.map key := by
  induction xs with
  | nil => rfl
  | cons x xs ih =>
    rw [latest_cons]
    by_cases h : key x ∈ xs.map key
    · rw [if_pos h, ih, List.map_cons, List.mem_cons]
      constructor
      · exact .inr
      · rintro (rfl | hmem)
        · exact h
        · exact hmem
    · rw [if_neg h, List.map_cons, List.map_cons, List.mem_cons, List.mem_cons, ih]

/-- The keys of the latest values are distinct. -/
theorem nodup_latest (key : α → κ) (xs : List α) : ((latest key xs).map key).Nodup := by
  induction xs with
  | nil => exact List.nodup_nil
  | cons x xs ih =>
    rw [latest_cons]
    by_cases h : key x ∈ xs.map key
    · rw [if_pos h]
      exact ih
    · rw [if_neg h, List.map_cons, List.nodup_cons, mem_keys_latest]
      exact ⟨h, ih⟩

/-- The value of a key is the one that was set last. -/
theorem mem_latest_iff {x : α} : x ∈ latest key xs ↔ lookupLast key xs (key x) = some x := by
  induction xs with
  | nil => simp [latest, lookupLast]
  | cons y ys ih =>
    have hlookup : lookupLast key (y :: ys) (key x) =
        (lookupLast key ys (key x)).or (if key y = key x then some y else none) := by
      unfold lookupLast
      rw [List.reverse_cons, List.find?_append]
      by_cases hkey : key y = key x
      · rw [if_pos hkey, List.find?_singleton, if_pos (decide_eq_true hkey)]
      · rw [if_neg hkey, List.find?_singleton, if_neg (by simpa using hkey)]
    rw [latest_cons, hlookup]
    by_cases hlater : key y ∈ ys.map key
    · rw [if_pos hlater, ih]
      cases hold : lookupLast key ys (key x) with
      | some z => rw [Option.some_or]
      | none =>
        have hne : key y ≠ key x := by
          intro hkey
          obtain ⟨z, hz, hzkey⟩ := List.mem_map.mp hlater
          exact lookupLast_eq_none.mp hold z hz (hzkey.trans hkey)
        rw [Option.none_or, if_neg hne]
    · rw [if_neg hlater, List.mem_cons, ih]
      cases hold : lookupLast key ys (key x) with
      | some z =>
        have hne : x ≠ y := by
          rintro rfl
          obtain ⟨hz, hzkey⟩ := lookupLast_some hold
          exact hlater (hzkey ▸ List.mem_map_of_mem hz)
        rw [Option.some_or, or_iff_right hne]
      | none =>
        rw [Option.none_or]
        constructor
        · rintro (rfl | hnone)
          · rw [if_pos rfl]
          · cases hnone
        · intro hset
          by_cases hkey : key y = key x
          · rw [if_pos hkey] at hset
            exact .inl (Option.some.inj hset).symm
          · rw [if_neg hkey] at hset
            cases hset

/-- As many values as distinct keys. -/
theorem length_latest : (latest key xs).length = (xs.map key).toFinset.card := by
  rw [← List.length_map key, ← List.toFinset_card_of_nodup (nodup_latest key xs)]
  congr 1
  ext k
  rw [List.mem_toFinset, List.mem_toFinset, mem_keys_latest]

/-- With distinct keys nothing moves. -/
theorem latest_eq_self (h : (xs.map key).Nodup) : latest key xs = xs := by
  induction xs with
  | nil => rfl
  | cons x xs ih =>
    rw [List.map_cons, List.nodup_cons] at h
    rw [latest_cons, if_neg h.1, ih h.2]

/-- What is set last keeps its value. -/
theorem latest_append (key : α → κ) (xs ys : List α) :
    latest key (xs ++ ys) =
      (latest key xs).filter (fun x ↦ key x ∉ ys.map key) ++ latest key ys := by
  induction xs with
  | nil => rfl
  | cons x xs ih =>
    rw [List.cons_append, latest_cons, latest_cons, ih, List.map_append]
    by_cases hxs : key x ∈ xs.map key
    · rw [if_pos (List.mem_append_left _ hxs), if_pos hxs]
    · by_cases hys : key x ∈ ys.map key
      · rw [if_pos (List.mem_append_right _ hys), if_neg hxs,
          List.filter_cons_of_neg (by simpa using hys)]
      · have hneither : key x ∉ xs.map key ++ ys.map key := by
          rw [List.mem_append, not_or]
          exact ⟨hxs, hys⟩
        rw [if_neg hneither, if_neg hxs, List.filter_cons_of_pos (by simpa using hys),
          List.cons_append]

end Jobtology.Base
