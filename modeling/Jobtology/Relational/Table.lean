import Mathlib.Algebra.Ring.Int.Defs
import Mathlib.Data.List.Nodup
import Mathlib.Data.List.Perm.Basic

/-!
# Tables of rows

Library for relational data: a table is the list of its rows. Unique keys, keys that are unique
among some rows, foreign keys, and the rows that an update writes.
-/

namespace Jobtology.Relational

universe u v w

variable {α : Type u} {β : Type v} {κ : Type w}

/-- No two rows have the same key. -/
def Unique (key : α → κ) (rows : List α) : Prop := (rows.map key).Nodup

/-- No two of the rows that satisfy the predicate have the same key. -/
def UniqueWhere (p : α → Prop) [DecidablePred p] (key : α → κ) (rows : List α) : Prop :=
  Unique key (rows.filter p)

/-- Every row's key is the key of a row of the referenced table. -/
def Refers (key : α → κ) (rows : List α) (target : β → κ) (targets : List β) : Prop :=
  ∀ r ∈ rows, ∃ t ∈ targets, target t = key r

/-- A foreign key whose column may be empty. -/
def RefersWhenSet (key : α → Option κ) (rows : List α) (target : β → κ) (targets : List β) :
    Prop :=
  ∀ r ∈ rows, ∀ k ∈ key r, ∃ t ∈ targets, target t = k

/-- The rows after an update of those that satisfy the condition. -/
def update (p : α → Prop) [DecidablePred p] (f : α → α) (rows : List α) : List α :=
  rows.map fun r ↦ if p r then f r else r

/-- The row with a key, where keys are unique. -/
def lookup [DecidableEq κ] (key : α → κ) (rows : List α) (k : κ) : Option α :=
  rows.find? fun r ↦ key r = k

instance [DecidableEq κ] (key : α → κ) (rows : List α) : Decidable (Unique key rows) :=
  inferInstanceAs (Decidable (List.Nodup _))

instance [DecidableEq κ] (p : α → Prop) [DecidablePred p] (key : α → κ) (rows : List α) :
    Decidable (UniqueWhere p key rows) :=
  inferInstanceAs (Decidable (List.Nodup _))

instance [DecidableEq κ] (key : α → κ) (rows : List α) (target : β → κ) (targets : List β) :
    Decidable (Refers key rows target targets) :=
  inferInstanceAs (Decidable (∀ r ∈ rows, ∃ t ∈ targets, target t = key r))

instance [DecidableEq κ] (key : α → Option κ) (rows : List α) (target : β → κ)
    (targets : List β) : Decidable (RefersWhenSet key rows target targets) :=
  inferInstanceAs (Decidable (∀ r ∈ rows, ∀ k ∈ key r, ∃ t ∈ targets, target t = k))

/-- Two rows with one unique key are one. -/
theorem Unique.eq_of_mem {key : α → κ} {rows : List α} (h : Unique key rows) {a b : α}
    (ha : a ∈ rows) (hb : b ∈ rows) (hk : key a = key b) : a = b :=
  List.inj_on_of_nodup_map h ha hb hk

/-- A key is unique among fewer rows. -/
theorem Unique.sublist {key : α → κ} {rows rows' : List α} (h : Unique key rows)
    (hs : rows'.Sublist rows) : Unique key rows' :=
  List.Nodup.sublist (hs.map key) h

/-- Two rows with one partial key are one. -/
theorem UniqueWhere.eq_of_mem {p : α → Prop} [DecidablePred p] {key : α → κ} {rows : List α}
    (h : UniqueWhere p key rows) {a b : α} (ha : a ∈ rows) (hpa : p a) (hb : b ∈ rows) (hpb : p b)
    (hk : key a = key b) : a = b :=
  Unique.eq_of_mem h (by simp [ha, hpa]) (by simp [hb, hpb]) hk

/-- A row may be inserted if no row has its key. -/
theorem unique_append_singleton {key : α → κ} {rows : List α} {r : α} :
    Unique key (rows ++ [r]) ↔ Unique key rows ∧ ∀ s ∈ rows, key s ≠ key r := by
  unfold Unique
  rw [List.map_append, List.nodup_append]
  simp

/-- References stay while their targets do. -/
theorem Refers.mono {key : α → κ} {rows : List α} {target : β → κ} {targets targets' : List β}
    (h : Refers key rows target targets) (hsub : ∀ t ∈ targets, t ∈ targets') :
    Refers key rows target targets' := by
  intro r hr
  obtain ⟨t, ht, hk⟩ := h r hr
  exact ⟨t, hsub t ht, hk⟩

/-- New rows under new keys, different from each other. -/
theorem Unique.append {key : α → κ} {rows new : List α} (h : Unique key rows)
    (hnew : Unique key new) (hfresh : ∀ r ∈ rows, ∀ s ∈ new, key r ≠ key s) :
    Unique key (rows ++ new) := by
  unfold Unique
  rw [List.map_append, List.nodup_append]
  refine ⟨h, hnew, ?_⟩
  intro a ha b hb
  obtain ⟨r, hr, rfl⟩ := List.mem_map.mp ha
  obtain ⟨s, hs, rfl⟩ := List.mem_map.mp hb
  exact hfresh r hr s hs

/-- References of two lists of rows. -/
theorem Refers.append {key : α → κ} {rows new : List α} {target : β → κ} {targets : List β}
    (h : Refers key rows target targets) (hnew : Refers key new target targets) :
    Refers key (rows ++ new) target targets :=
  List.forall_mem_append.mpr ⟨h, hnew⟩

/-- A foreign key looks at the keys of both tables only. -/
theorem refers_congr {key key' : α → κ} {rows rows' : List α} {target : β → κ}
    {targets targets' : List β} (hrows : rows.map key = rows'.map key')
    (htargets : targets.map target = targets'.map target) :
    Refers key rows target targets ↔ Refers key' rows' target targets' := by
  have hiff (key : α → κ) (rows : List α) (targets : List β) :
      Refers key rows target targets ↔ ∀ k ∈ rows.map key, k ∈ targets.map target := by
    simp [Refers]
  rw [hiff, hiff, hrows, htargets]

/-- A row may be inserted if its target is there. -/
theorem refers_append_singleton {key : α → κ} {rows : List α} {target : β → κ}
    {targets : List β} {r : α} :
    Refers key (rows ++ [r]) target targets ↔
      Refers key rows target targets ∧ ∃ t ∈ targets, target t = key r := by
  unfold Refers
  rw [List.forall_mem_append]
  simp

/-- Optional references stay while their targets do. -/
theorem RefersWhenSet.mono {key : α → Option κ} {rows : List α} {target : β → κ}
    {targets targets' : List β} (h : RefersWhenSet key rows target targets)
    (hsub : ∀ t ∈ targets, t ∈ targets') : RefersWhenSet key rows target targets' := by
  intro r hr k hk
  obtain ⟨t, ht, hkey⟩ := h r hr k hk
  exact ⟨t, hsub t ht, hkey⟩

/-- A row may be inserted if its target, if any, is there. -/
theorem refersWhenSet_append_singleton {key : α → Option κ} {rows : List α} {target : β → κ}
    {targets : List β} {r : α} :
    RefersWhenSet key (rows ++ [r]) target targets ↔
      RefersWhenSet key rows target targets ∧ ∀ k ∈ key r, ∃ t ∈ targets, target t = k := by
  unfold RefersWhenSet
  rw [List.forall_mem_append]
  simp

/-- A row may be inserted if no row of its kind has its key. -/
theorem uniqueWhere_append_singleton {p : α → Prop} [DecidablePred p] {key : α → κ}
    {rows : List α} {r : α} :
    UniqueWhere p key (rows ++ [r]) ↔
      UniqueWhere p key rows ∧ (p r → ∀ s ∈ rows, p s → key s ≠ key r) := by
  unfold UniqueWhere
  rw [List.filter_append]
  by_cases hp : p r
  · rw [List.filter_singleton, decide_eq_true hp]
    simp only [cond_true, unique_append_singleton, List.mem_filter, decide_eq_true_eq, and_imp,
      hp, forall_const]
  · rw [List.filter_singleton, decide_eq_false hp]
    simp [hp]

/-- What holds of all rows holds of the old ones and the new one. -/
theorem forall_mem_append_singleton {rows : List α} {r : α} {P : α → Prop} :
    (∀ x ∈ rows ++ [r], P x) ↔ (∀ x ∈ rows, P x) ∧ P r := by
  rw [List.forall_mem_append]
  simp

/-- An insertion keeps the rows. -/
theorem mem_appended {rows : List α} {r : α} : ∀ x ∈ rows, x ∈ rows ++ [r] :=
  fun _ hx ↦ List.mem_append_left _ hx

section Update

variable {p : α → Prop} [DecidablePred p] {f : α → α} {rows : List α}

/-- A row after an update is an old one that was not chosen, or the new form of one that was. -/
theorem mem_update {x : α} :
    x ∈ update p f rows ↔ (x ∈ rows ∧ ¬ p x) ∨ ∃ y ∈ rows, p y ∧ f y = x := by
  unfold update
  rw [List.mem_map]
  constructor
  · rintro ⟨y, hy, rfl⟩
    by_cases hp : p y
    · exact .inr ⟨y, hy, hp, by simp [hp]⟩
    · exact .inl (by simpa [hp] using hy)
  · rintro (⟨hx, hp⟩ | ⟨y, hy, hp, rfl⟩)
    · exact ⟨x, hx, by simp [hp]⟩
    · exact ⟨y, hy, by simp [hp]⟩

/-- What the update keeps of a row, it keeps of some row. -/
theorem exists_mem_update {P : α → Prop} (h : ∃ r ∈ rows, P r) (hkeeps : ∀ r, P r → P (f r)) :
    ∃ r ∈ update p f rows, P r := by
  obtain ⟨r, hr, hP⟩ := h
  by_cases hp : p r
  · exact ⟨f r, mem_update.mpr (.inr ⟨r, hr, hp, rfl⟩), hkeeps r hP⟩
  · exact ⟨r, mem_update.mpr (.inl ⟨hr, hp⟩), hP⟩

/-- An update that matches no row changes nothing. -/
theorem update_eq_self (h : ∀ r ∈ rows, ¬ p r) : update p f rows = rows := by
  unfold update
  rw [List.map_congr_left (g := id) fun r hr ↦ by simp [h r hr], List.map_id]

/-- A column that the update does not change in the rows it writes keeps its values. -/
theorem map_update_where {γ : Type v} {col : α → γ} (h : ∀ r, p r → col (f r) = col r) :
    (update p f rows).map col = rows.map col := by
  unfold update
  rw [List.map_map]
  apply List.map_congr_left
  intro r _
  by_cases hp : p r
  · simp [hp, h r hp]
  · simp [hp]

/-- A column that the update does not write keeps its values. -/
theorem map_update {γ : Type v} {col : α → γ} (h : ∀ r, col (f r) = col r) :
    (update p f rows).map col = rows.map col :=
  map_update_where fun r _ ↦ h r

/-- An update that keeps the keys of what it chooses keeps them unique. -/
theorem unique_update_where {κ : Type v} {key : α → κ} (h : ∀ r, p r → key (f r) = key r) :
    Unique key (update p f rows) ↔ Unique key rows := by
  unfold Unique
  rw [map_update_where h]

/-- An update that keeps keys keeps them unique. -/
theorem unique_update {κ : Type v} {key : α → κ} (h : ∀ r, key (f r) = key r) :
    Unique key (update p f rows) ↔ Unique key rows :=
  unique_update_where fun r _ ↦ h r

/-- An update keeps the number of rows. -/
theorem length_update : (update p f rows).length = rows.length :=
  List.length_map _

/-- An update of the row with a key changes a total by what it changes in that row. -/
theorem sum_map_update {κ : Type w} [DecidableEq κ] {key : α → κ} (h : Unique key rows)
    (g : α → Int) {r : α} (hr : r ∈ rows) :
    ((update (key · = key r) f rows).map g).sum = (rows.map g).sum + (g (f r) - g r) := by
  induction rows with
  | nil => exact absurd hr List.not_mem_nil
  | cons x xs ih =>
    obtain ⟨hx, hxs⟩ := List.nodup_cons.mp h
    have hcons : update (key · = key r) f (x :: xs) =
        (if key x = key r then f x else x) :: update (key · = key r) f xs := rfl
    rw [hcons, List.map_cons, List.sum_cons, List.map_cons, List.sum_cons]
    by_cases hkey : key x = key r
    · obtain rfl := h.eq_of_mem List.mem_cons_self hr hkey
      have hrest : update (key · = key x) f xs = xs :=
        update_eq_self fun y hy hk ↦ hx (hk ▸ List.mem_map_of_mem hy)
      rw [if_pos rfl, hrest]
      omega
    · have hmem : r ∈ xs := (List.mem_cons.mp hr).resolve_left fun he ↦ hkey (congrArg key he.symm)
      rw [if_neg hkey, ih hxs hmem]
      omega

end Update

section Lookup

variable [DecidableEq κ] {key : α → κ} {rows : List α} {k : κ}

/-- What is looked up is in the table and has the key. -/
theorem lookup_some {r : α} (h : lookup key rows k = some r) : r ∈ rows ∧ key r = k :=
  ⟨List.mem_of_find?_eq_some h, by simpa using List.find?_some h⟩

/-- Nothing is looked up exactly if no row has the key. -/
theorem lookup_eq_none : lookup key rows k = none ↔ ∀ r ∈ rows, key r ≠ k := by
  simp [lookup, List.find?_eq_none]

/-- The row of a unique key is looked up. -/
theorem lookup_eq_some (hu : Unique key rows) {r : α} :
    lookup key rows k = some r ↔ r ∈ rows ∧ key r = k := by
  refine ⟨lookup_some, ?_⟩
  rintro ⟨hr, rfl⟩
  cases h : lookup key rows (key r) with
  | none => exact False.elim (lookup_eq_none.mp h r hr rfl)
  | some s =>
    obtain ⟨hs, hk⟩ := lookup_some h
    rw [hu.eq_of_mem hs hr hk]

/-- An update that keeps the keys changes the row under a key as it changes any row. -/
theorem lookup_update {p : α → Prop} [DecidablePred p] {f : α → α}
    (hkeeps : ∀ r, key (f r) = key r) :
    lookup key (update p f rows) k =
      (lookup key rows k).map fun r ↦ if p r then f r else r := by
  have hkey (r : α) : key (if p r then f r else r) = key r := by
    split
    · exact hkeeps r
    · rfl
  unfold lookup update
  rw [List.find?_map]
  simp only [Function.comp_def, hkey]

/-- A lookup in two lists of rows tries the first one first. -/
theorem lookup_append {rows' : List α} :
    lookup key (rows ++ rows') k = (lookup key rows k).or (lookup key rows' k) :=
  List.find?_append

/-- Tables with the same rows under a key have the same row there. -/
theorem lookup_congr {rows' : List α} (hu : Unique key rows) (hu' : Unique key rows')
    (h : ∀ r, key r = k → (r ∈ rows ↔ r ∈ rows')) : lookup key rows k = lookup key rows' k := by
  ext r
  rw [lookup_eq_some hu, lookup_eq_some hu']
  exact and_congr_left (h r)

end Lookup

end Jobtology.Relational
