import Jobtology.Base.Dictionary
import Mathlib.Data.List.Sort

/-!
# Rows in the order of a key

Library for stable sorting by a key that may tie. The order of the input is forgotten when only
equal rows tie, and it shows when two different rows do. A dictionary that keeps the greatest row
under each key depends on the rows alone as well.
-/

namespace Jobtology.Base

universe u v w

variable {α : Type u} {κ : Type v} {ρ : Type w}

/-- Rows in the order of a key. -/
def sortedBy [LinearOrder κ] (key : α → κ) (rows : List α) : List α :=
  rows.insertionSort fun a b ↦ key a ≤ key b

/-- Keys that are not distinct have a pair of rows that stand anywhere. -/
theorem exists_tie {key : α → κ} {xs : List α} (h : ¬ (xs.map key).Nodup) :
    ∃ a b rest, xs.Perm (a :: b :: rest) ∧ key a = key b := by
  rw [List.nodup_iff_sublist] at h
  push Not at h
  obtain ⟨k, hk⟩ := h
  obtain ⟨pair, hsub, hmap⟩ := List.sublist_map_iff.mp hk
  obtain ⟨a, tail, rfl, ha, htail⟩ := List.map_eq_cons_iff.mp hmap.symm
  obtain ⟨b, last, rfl, hb, hlast⟩ := List.map_eq_cons_iff.mp htail
  obtain rfl := List.map_eq_nil_iff.mp hlast
  obtain ⟨rest, hrest⟩ := hsub.exists_perm_append
  exact ⟨a, b, rest, hrest, ha.trans hb.symm⟩

/-- The groups under distinct keys hold every row once. -/
theorem perm_groups [DecidableEq κ] {key : α → κ} {keys : List κ} {rows : List α}
    (hn : keys.Nodup) (hkeys : ∀ x ∈ rows, key x ∈ keys) :
    (keys.flatMap fun k ↦ rows.filter (key · = k)).Perm rows := by
  induction keys generalizing rows with
  | nil =>
    cases rows with
    | nil => exact .nil
    | cons x rows => exact absurd (hkeys x List.mem_cons_self) List.not_mem_nil
  | cons k keys ih =>
    rw [List.nodup_cons] at hn
    have hrest := @ih (rows.filter fun x ↦ !decide (key x = k)) hn.2 <| by
      intro x hx
      obtain ⟨hx, hne⟩ := List.mem_filter.mp hx
      exact List.mem_of_ne_of_mem (by simpa using hne) (hkeys x hx)
    have hgroups : (keys.flatMap fun k' ↦ rows.filter (key · = k')) =
        keys.flatMap fun k' ↦ (rows.filter fun x ↦ !decide (key x = k)).filter (key · = k') := by
      apply List.flatMap_congr
      intro k' hk'
      rw [List.filter_filter]
      apply List.filter_congr
      intro x _
      have hne : key x = k' → ¬ key x = k := by
        rintro hkey rfl
        exact hn.1 (hkey ▸ hk')
      simpa using hne
    rw [List.flatMap_cons, hgroups]
    exact (hrest.append_left _).trans (List.filter_append_perm _ rows)

section SortedBy

variable [LinearOrder κ] {key : α → κ} {xs ys : List α}

/-- Sorting permutes the rows. -/
theorem perm_sortedBy (key : α → κ) (xs : List α) : (sortedBy key xs).Perm xs :=
  List.perm_insertionSort _ xs

/-- Sorting keeps the rows. -/
theorem mem_sortedBy {x : α} : x ∈ sortedBy key xs ↔ x ∈ xs := (perm_sortedBy key xs).mem_iff

private instance keyOrder_trans : IsTrans α fun a b ↦ key a ≤ key b := ⟨fun _ _ _ ↦ le_trans⟩

private instance keyOrder_total : Std.Total fun a b ↦ key a ≤ key b := ⟨fun _ _ ↦ le_total _ _⟩

/-- Sorted rows ascend by their keys. -/
theorem pairwise_sortedBy (key : α → κ) (xs : List α) :
    (sortedBy key xs).Pairwise fun a b ↦ key a ≤ key b :=
  List.pairwise_insertionSort (fun a b ↦ key a ≤ key b) xs

/-- The order of rows does not matter when only equal rows have equal keys. -/
theorem sortedBy_perm (hp : xs.Perm ys) (hties : ∀ a ∈ xs, ∀ b ∈ xs, key a = key b → a = b) :
    sortedBy key xs = sortedBy key ys := by
  have hsorted : (sortedBy key xs).Perm (sortedBy key ys) :=
    ((perm_sortedBy key xs).trans hp).trans (perm_sortedBy key ys).symm
  refine hsorted.eq_of_pairwise (fun a b ha hb hab hba ↦ ?_)
    (pairwise_sortedBy key xs) (pairwise_sortedBy key ys)
  have hb : b ∈ xs := hp.mem_iff.mpr (mem_sortedBy.mp hb)
  exact hties a (mem_sortedBy.mp ha) b hb (le_antisymm hab hba)

/-- With distinct keys the order of the rows does not matter. -/
theorem sortedBy_perm_of_nodup (hp : xs.Perm ys) (hn : (xs.map key).Nodup) :
    sortedBy key xs = sortedBy key ys :=
  sortedBy_perm hp fun _ ha _ hb ↦ List.inj_on_of_nodup_map hn ha hb

/-- Two elements of a list without repetitions stand in one order only. -/
theorem eq_of_pair_sublist {a b : α} {zs : List α} (hn : zs.Nodup)
    (hab : [a, b].Sublist zs) (hba : [b, a].Sublist zs) : a = b := by
  classical
  have hpair : ∀ x ∈ zs.filter (fun x ↦ x = a ∨ x = b), x ∈ [a, b] := by
    intro x hx
    simpa using (List.mem_filter.mp hx).2
  have hlength : (zs.filter fun x ↦ x = a ∨ x = b).length ≤ 2 :=
    ((hn.filter _).subperm hpair).length_le
  have hfirst : [a, b].Sublist (zs.filter fun x ↦ x = a ∨ x = b) := by
    simpa using hab.filter fun x ↦ x = a ∨ x = b
  have hsecond : [b, a].Sublist (zs.filter fun x ↦ x = a ∨ x = b) := by
    simpa using hba.filter fun x ↦ x = a ∨ x = b
  have hsame : [a, b] = [b, a] :=
    (hfirst.eq_of_length_le hlength).trans (hsecond.eq_of_length_le hlength).symm
  exact (List.cons.inj hsame).1

/-- Different rows with equal keys keep the order in which they come. -/
theorem sortedBy_swap_ne {a b : α} {rest : List α} (hn : (a :: b :: rest).Nodup)
    (hkey : key a = key b) : sortedBy key (a :: b :: rest) ≠ sortedBy key (b :: a :: rest) := by
  intro heq
  have hab : [a, b].Sublist (sortedBy key (a :: b :: rest)) :=
    List.pair_sublist_insertionSort (r := fun a b ↦ key a ≤ key b) hkey.le
      (List.Sublist.cons_cons a (List.Sublist.cons_cons b (List.nil_sublist rest)))
  have hba : [b, a].Sublist (sortedBy key (b :: a :: rest)) :=
    List.pair_sublist_insertionSort (r := fun a b ↦ key a ≤ key b) hkey.ge
      (List.Sublist.cons_cons b (List.Sublist.cons_cons a (List.nil_sublist rest)))
  have hsorted : (sortedBy key (a :: b :: rest)).Nodup := (perm_sortedBy key _).nodup_iff.mpr hn
  have hsame := eq_of_pair_sublist hsorted hab (heq ▸ hba)
  exact (List.nodup_cons.mp hn).1 (hsame ▸ List.mem_cons_self)

end SortedBy

/-! ### Dictionaries -/

section Entries

variable [DecidableEq κ] {entries : List (κ × α)}

/-- With distinct keys, setting an entry replaces the one of its key. -/
theorem mem_setEntry_iff {k : κ} {v : α} (h : (entries.map (·.1)).Nodup) {e : κ × α} :
    e ∈ setEntry k v entries ↔ e = (k, v) ∨ (e ∈ entries ∧ e.1 ≠ k) := by
  induction entries with
  | nil => simp [setEntry]
  | cons x rest ih =>
    rw [List.map_cons, List.nodup_cons] at h
    unfold setEntry
    by_cases hkey : x.1 = k
    · rw [if_pos hkey, List.mem_cons, List.mem_cons]
      constructor
      · rintro (rfl | he)
        · exact .inl rfl
        · refine .inr ⟨.inr he, fun hsame ↦ h.1 ?_⟩
          rw [hkey, ← hsame]
          exact List.mem_map_of_mem he
      · rintro (rfl | ⟨rfl | he, hne⟩)
        · exact .inl rfl
        · exact absurd hkey hne
        · exact .inr he
    · rw [if_neg hkey, List.mem_cons, List.mem_cons, ih h.2]
      constructor
      · rintro (rfl | rfl | ⟨he, hne⟩)
        · exact .inr ⟨.inl rfl, hkey⟩
        · exact .inl rfl
        · exact .inr ⟨.inr he, hne⟩
      · rintro (rfl | ⟨rfl | he, hne⟩)
        · exact .inr (.inl rfl)
        · exact .inl rfl
        · exact .inr (.inr ⟨he, hne⟩)

/-- Keep the row with the greatest rank under its key. -/
def keepGreatest [LinearOrder ρ] (key : α → κ) (rank : α → ρ) (entries : List (κ × α)) (x : α) :
    List (κ × α) :=
  match lookupLast (·.1) entries (key x) with
  | none => setEntry (key x) x entries
  | some (_, current) =>
    if rank current < rank x then setEntry (key x) x entries else entries

/-- The dictionary holds under each key the row of the greatest rank. -/
structure Greatest [LinearOrder ρ] (key : α → κ) (rank : α → ρ) (rows : List α)
    (entries : List (κ × α)) : Prop where
  keys : (entries.map (·.1)).Nodup
  covered : ∀ x ∈ rows, ∃ e ∈ entries, e.1 = key x
  mem : ∀ e, e ∈ entries ↔
    e.2 ∈ rows ∧ key e.2 = e.1 ∧ ∀ x ∈ rows, key x = e.1 → rank x ≤ rank e.2

section Greatest

variable [LinearOrder ρ] {key : α → κ} {rank : α → ρ} {xs ys : List α}

/-- A row that becomes the greatest under its key. -/
theorem Greatest.replace {x : α} (h : Greatest key rank xs entries)
    (hgreater : ∀ y ∈ xs, key y = key x → rank y < rank x) :
    Greatest key rank (xs ++ [x]) (setEntry (key x) x entries) := by
  refine ⟨nodup_keys_setEntry h.keys, fun y hy ↦ ?_, fun e ↦ ?_⟩
  · by_cases hkey : key y = key x
    · exact ⟨_, (mem_setEntry_iff h.keys).mpr (.inl rfl), hkey.symm⟩
    · rcases List.mem_append.mp hy with hy | hy
      · obtain ⟨e, he, hsame⟩ := h.covered y hy
        refine ⟨e, (mem_setEntry_iff h.keys).mpr (.inr ⟨he, ?_⟩), hsame⟩
        rw [hsame]
        exact hkey
      · exact absurd (congrArg key (List.mem_singleton.mp hy)) hkey
  · rw [mem_setEntry_iff h.keys, h.mem]
    constructor
    · rintro (rfl | ⟨⟨hrow, hkey, hmax⟩, hne⟩)
      · refine ⟨List.mem_append_right _ List.mem_cons_self, rfl, fun y hy hkey ↦ ?_⟩
        rcases List.mem_append.mp hy with hy | hy
        · exact (hgreater y hy hkey).le
        · rw [List.mem_singleton.mp hy]
      · refine ⟨List.mem_append_left _ hrow, hkey, fun y hy hsame ↦ ?_⟩
        rcases List.mem_append.mp hy with hy | hy
        · exact hmax y hy hsame
        · rw [List.mem_singleton.mp hy] at hsame
          exact absurd hsame.symm hne
    · rintro ⟨hrow, hkey, hmax⟩
      by_cases hsame : e.1 = key x
      · left
        have hrank := hmax x (List.mem_append_right _ List.mem_cons_self) hsame.symm
        rcases List.mem_append.mp hrow with hrow | hrow
        · exact absurd (hgreater _ hrow (hkey.trans hsame)) (not_lt.mpr hrank)
        · exact Prod.ext hsame (List.mem_singleton.mp hrow)
      · refine .inr ⟨⟨?_, hkey, fun y hy ↦ hmax y (List.mem_append_left _ hy)⟩, hsame⟩
        rcases List.mem_append.mp hrow with hrow | hrow
        · exact hrow
        · rw [List.mem_singleton.mp hrow] at hkey
          exact absurd hkey.symm hsame

/-- One more row with a rank of its own keeps the greatest rows. -/
theorem Greatest.step {x : α} (h : Greatest key rank xs entries)
    (hrank : ∀ y ∈ xs, rank y ≠ rank x) :
    Greatest key rank (xs ++ [x]) (keepGreatest key rank entries x) := by
  unfold keepGreatest
  cases hlookup : lookupLast (·.1) entries (key x) with
  | none =>
    refine h.replace fun y hy hkey ↦ ?_
    obtain ⟨e, he, hsame⟩ := h.covered y hy
    exact absurd (hsame.trans hkey) (lookupLast_eq_none.mp hlookup e he)
  | some found =>
    obtain ⟨hfound, hkey⟩ := lookupLast_some hlookup
    obtain ⟨hrow, hown, hmax⟩ := (h.mem found).mp hfound
    simp only
    split
    · next hless =>
      exact h.replace fun y hy hsame ↦ (hmax y hy (hsame.trans hkey.symm)).trans_lt hless
    · next hless =>
      have hle : rank x ≤ rank found.2 := not_lt.mp hless
      refine ⟨h.keys, fun y hy ↦ ?_, fun e ↦ ?_⟩
      · rcases List.mem_append.mp hy with hy | hy
        · exact h.covered y hy
        · rw [List.mem_singleton.mp hy]
          exact ⟨found, hfound, hkey⟩
      · rw [h.mem]
        constructor
        · rintro ⟨he, hsame, hbest⟩
          refine ⟨List.mem_append_left _ he, hsame, fun y hy hy' ↦ ?_⟩
          rcases List.mem_append.mp hy with hy | hy
          · exact hbest y hy hy'
          · rw [List.mem_singleton.mp hy] at hy' ⊢
            exact hle.trans (hbest found.2 hrow (hown.trans (hkey.trans hy')))
        · rintro ⟨he, hsame, hbest⟩
          refine ⟨?_, hsame, fun y hy ↦ hbest y (List.mem_append_left _ hy)⟩
          rcases List.mem_append.mp he with he | he
          · exact he
          · rw [List.mem_singleton.mp he] at hsame hbest
            have hfirst := hbest found.2 (List.mem_append_left _ hrow)
              (hown.trans (hkey.trans hsame))
            exact absurd (le_antisymm hfirst hle) (hrank found.2 hrow)

/-- Over rows with distinct ranks the greatest of each key are kept. -/
theorem greatest_foldl (hn : (xs.map rank).Nodup) :
    Greatest key rank xs (xs.foldl (keepGreatest key rank) []) := by
  induction xs using List.reverseRecOn with
  | nil => exact ⟨List.nodup_nil, fun _ h ↦ absurd h List.not_mem_nil, fun e ↦ by simp⟩
  | append_singleton xs x ih =>
    rw [List.map_append, List.nodup_append] at hn
    obtain ⟨hxs, -, hnew⟩ := hn
    rw [List.foldl_append]
    refine (ih hxs).step fun y hy ↦ ?_
    exact hnew _ (List.mem_map_of_mem hy) _ List.mem_cons_self

/-- The entries do not depend on the order of the rows, but for their own order. -/
theorem perm_foldl_keepGreatest (hp : xs.Perm ys) (hn : (xs.map rank).Nodup) :
    (xs.foldl (keepGreatest key rank) []).Perm (ys.foldl (keepGreatest key rank) []) := by
  have hxs : Greatest key rank xs _ := greatest_foldl hn
  have hys : Greatest key rank ys _ := greatest_foldl ((hp.map rank).nodup_iff.mp hn)
  rw [List.perm_ext_iff_of_nodup (List.Nodup.of_map _ hxs.keys) (List.Nodup.of_map _ hys.keys)]
  intro e
  rw [hxs.mem, hys.mem, hp.mem_iff]
  refine and_congr_right fun _ ↦ and_congr_right fun _ ↦ forall_congr' fun y ↦ ?_
  rw [hp.mem_iff]

end Greatest

end Entries

end Jobtology.Base
