import Jobtology.Relational.Table

/-!
# Erasing rows

Library for erasures that go through the tables of a database one after another. A table whose
turn has come keeps the rows of a predicate, the others keep all rows; foreign keys hold at every
point when referring tables come first and what kept rows refer to is kept.
-/

namespace Jobtology.Relational

universe u v w

variable {α : Type u} {β : Type v} {κ : Type w}

/-- The rows of a table before and after its turn. -/
def retained (done : Prop) [Decidable done] (keep : α → Bool) (rows : List α) : List α :=
  if done then rows.filter keep else rows

section Retained

variable {done done' : Prop} [Decidable done] [Decidable done'] {keep : α → Bool}
  {keep' : β → Bool} {rows : List α} {targets : List β}

/-- A row is retained unless its table is done and the row is not kept. -/
theorem mem_retained {r : α} :
    r ∈ retained done keep rows ↔ r ∈ rows ∧ (done → keep r = true) := by
  unfold retained
  by_cases h : done <;> simp [h]

/-- Retained rows stay in their order. -/
theorem retained_sublist : (retained done keep rows).Sublist rows := by
  unfold retained
  split
  · exact List.filter_sublist
  · exact List.Sublist.refl _

/-- Erasure keeps a key unique. -/
theorem Unique.retained {key : α → κ} (h : Unique key rows) :
    Unique key (retained done keep rows) :=
  h.sublist retained_sublist

/-- Erasure keeps a partial key unique. -/
theorem UniqueWhere.retained {p : α → Prop} [DecidablePred p] {key : α → κ}
    (h : UniqueWhere p key rows) : UniqueWhere p key (retained done keep rows) :=
  Unique.sublist h (retained_sublist.filter _)

/-- What every row satisfies, the rows that stay satisfy. -/
theorem forall_retained {P : α → Prop} (h : ∀ r ∈ rows, P r) :
    ∀ r ∈ retained done keep rows, P r :=
  fun r hr ↦ h r (mem_retained.mp hr).1

/-- Erasure of rows that refer keeps their references. -/
theorem Refers.retained_left {key : α → κ} {target : β → κ} (h : Refers key rows target targets) :
    Refers key (retained done keep rows) target targets :=
  forall_retained h

/-- Erasure of rows that may refer keeps their references. -/
theorem RefersWhenSet.retained_left {key : α → Option κ} {target : β → κ}
    (h : RefersWhenSet key rows target targets) :
    RefersWhenSet key (retained done keep rows) target targets :=
  forall_retained h

/-- A foreign key holds when the referring table comes first and what its kept rows refer to is
kept. -/
theorem Refers.retained {key : α → κ} {target : β → κ} (h : Refers key rows target targets)
    (hclosed : ∀ r ∈ rows, ∀ t ∈ targets, target t = key r → keep r = true → keep' t = true)
    (horder : done' → done) :
    Refers key (retained done keep rows) target (retained done' keep' targets) := by
  intro r hr
  obtain ⟨hr, hkeep⟩ := mem_retained.mp hr
  obtain ⟨t, ht, hkey⟩ := h r hr
  exact ⟨t, mem_retained.mpr ⟨ht, fun hd ↦ hclosed r hr t ht hkey (hkeep (horder hd))⟩, hkey⟩

/-- References stay where rows that refer go first. -/
theorem RefersWhenSet.retained {key : α → Option κ} {target : β → κ}
    (h : RefersWhenSet key rows target targets)
    (hclosed : ∀ r ∈ rows, ∀ t ∈ targets, key r = some (target t) → keep r = true →
      keep' t = true)
    (horder : done' → done) :
    RefersWhenSet key (retained done keep rows) target (retained done' keep' targets) := by
  intro r hr k hk
  obtain ⟨hr, hkeep⟩ := mem_retained.mp hr
  obtain ⟨t, ht, rfl⟩ := h r hr k hk
  exact ⟨t, mem_retained.mpr ⟨ht, fun hd ↦ hclosed r hr t ht hk (hkeep (horder hd))⟩, rfl⟩

end Retained

end Jobtology.Relational
