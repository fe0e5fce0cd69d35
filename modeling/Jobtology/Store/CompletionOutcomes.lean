import Jobtology.Base.SortedRows
import Jobtology.Store.RoadmapSteps

/-!
# Canonical completion outcomes

`completion_outcomes.py`: the outcomes of a completed step are grouped by entity and sorted. The
groups hold what the step had, whatever the order it had it in.
-/

namespace Jobtology.Store

open Jobtology.Base

/-! ## Order of the provenance -/

/-- The key by which the provenance is sorted. -/
private def provenanceKey (o : RoadmapOutcome) : String ×ₗ String ×ₗ List String :=
  toLex (o.requirementKey, toLex (o.rawText, o.experienceCodes))

private theorem provenanceOrder_iff {o p : RoadmapOutcome} :
    provenanceOrder o p ↔ provenanceKey o ≤ provenanceKey p := by
  simp only [provenanceOrder, provenanceKey, Prod.Lex.toLex_le_toLex]

private theorem provenanceKey_inj {o p : RoadmapOutcome} (hentity : o.entityId = p.entityId)
    (hkey : provenanceKey o = provenanceKey p) : o = p := by
  cases o
  cases p
  simp only [provenanceKey, toLex_inj, Prod.mk.injEq] at hkey hentity
  obtain ⟨rfl, rfl, rfl⟩ := hkey
  rw [hentity]

/-- The canonical outcomes of an entity, before they are sorted. -/
private def canonicalGroup (outcomes : List RoadmapOutcome) (entityId : String) :
    List RoadmapOutcome :=
  (outcomes.filter (·.entityId = entityId)).map (·.canonical)

private theorem provenance_eq_sortedBy (outcomes : List RoadmapOutcome) (entityId : String) :
    (canonicalOutcome outcomes entityId).provenance =
      sortedBy provenanceKey (canonicalGroup outcomes entityId) := by
  have horder : provenanceOrder = fun o p ↦ provenanceKey o ≤ provenanceKey p := by
    ext o p
    exact provenanceOrder_iff
  simp only [canonicalOutcome, sortedBy, canonicalGroup, horder]

private theorem entityId_canonicalGroup {outcomes : List RoadmapOutcome} {entityId : String}
    {p : RoadmapOutcome} (hp : p ∈ canonicalGroup outcomes entityId) : p.entityId = entityId := by
  obtain ⟨o, ho, rfl⟩ := List.mem_map.mp hp
  simpa [RoadmapOutcome.canonical] using (List.mem_filter.mp ho).2

/-! ## One entity -/

section Entity

variable (outcomes : List RoadmapOutcome) (entityId : String)

/-- The provenance of an outcome is that of its entity. -/
theorem perm_provenance :
    (canonicalOutcome outcomes entityId).provenance.Perm
      ((outcomes.filter (·.entityId = entityId)).map (·.canonical)) := by
  rw [provenance_eq_sortedBy]
  exact perm_sortedBy _ _

private theorem pairwise_provenance :
    (canonicalOutcome outcomes entityId).provenance.Pairwise provenanceOrder := by
  rw [provenance_eq_sortedBy]
  refine List.Pairwise.imp (fun h ↦ provenanceOrder_iff.mpr h) ?_
  exact pairwise_sortedBy _ _

private theorem provenance_entityId {p : RoadmapOutcome}
    (hp : p ∈ (canonicalOutcome outcomes entityId).provenance) : p.entityId = entityId :=
  entityId_canonicalGroup ((perm_provenance outcomes entityId).mem_iff.mp hp)

end Entity

/-- An outcome that is kept for an entity depends on which outcomes there are. -/
theorem canonicalOutcome_perm {xs ys : List RoadmapOutcome} (hp : xs.Perm ys)
    (entityId : String) : canonicalOutcome xs entityId = canonicalOutcome ys entityId := by
  have hprovenance : (canonicalOutcome xs entityId).provenance =
      (canonicalOutcome ys entityId).provenance := by
    rw [provenance_eq_sortedBy, provenance_eq_sortedBy]
    apply sortedBy_perm ((hp.filter _).map _)
    intro o ho p hp' hkey
    apply provenanceKey_inj _ hkey
    rw [entityId_canonicalGroup ho, entityId_canonicalGroup hp']
  have hsame (zs : List RoadmapOutcome) : canonicalOutcome zs entityId =
      { entityId := entityId
        rawText := ((canonicalOutcome zs entityId).provenance.head?.map (·.rawText)).getD ""
        requirementKeys := (canonicalOutcome zs entityId).provenance.map (·.requirementKey)
        experienceCodes := sortedSet
          ((canonicalOutcome zs entityId).provenance.flatMap (·.experienceCodes)).toFinset
        provenance := (canonicalOutcome zs entityId).provenance } := rfl
  rw [hsame xs, hsame ys, hprovenance]

/-! ## All entities -/

/-- What a canonical outcome has from its provenance. -/
structure FromProvenance (result : CanonicalCompletionOutcome) : Prop where
  nonempty : result.provenance ≠ []
  entity : ∀ p ∈ result.provenance, p.entityId = result.entityId
  sorted : result.provenance.Pairwise provenanceOrder
  rawText : ∀ p ∈ result.provenance.head?, result.rawText = p.rawText
  requirementKeys : result.requirementKeys = result.provenance.map (·.requirementKey)
  codes : ∀ code, code ∈ result.experienceCodes ↔
    ∃ p ∈ result.provenance, code ∈ p.experienceCodes
  codesSorted : result.experienceCodes.Pairwise (· < ·)

private theorem fromProvenance_canonicalOutcome {outcomes : List RoadmapOutcome}
    {entityId : String} (hentity : entityId ∈ outcomes.map (·.entityId)) :
    FromProvenance (canonicalOutcome outcomes entityId) where
  nonempty := by
    intro hnil
    obtain ⟨o, ho, rfl⟩ := List.mem_map.mp hentity
    have hmem : o.canonical ∈ (canonicalOutcome outcomes o.entityId).provenance := by
      apply (perm_provenance _ _).mem_iff.mpr
      exact List.mem_map_of_mem (List.mem_filter.mpr ⟨ho, by simp⟩)
    rw [hnil] at hmem
    cases hmem
  entity := fun _ hp ↦ provenance_entityId _ _ hp
  sorted := pairwise_provenance _ _
  rawText := by
    intro p hp
    change ((canonicalOutcome outcomes entityId).provenance.head?.map (·.rawText)).getD "" = _
    rw [Option.mem_def.mp hp]
    rfl
  requirementKeys := rfl
  codes := by
    intro code
    change code ∈ sortedSet
      ((canonicalOutcome outcomes entityId).provenance.flatMap (·.experienceCodes)).toFinset ↔ _
    rw [mem_sortedSet, List.mem_toFinset, List.mem_flatMap]
  codesSorted := by
    change (sortedSet
      ((canonicalOutcome outcomes entityId).provenance.flatMap
        (·.experienceCodes)).toFinset).Pairwise (· < ·)
    exact pairwise_lt_sortedSet _

/-- The canonical outcomes do not depend on the order of the outcomes; there is one for each entity,
by entity; together they hold the outcomes with their codes as sets; and each has its codes, its
keys and its text from its provenance.
`src/jobtology_be/infrastructure/persistence/completion_outcomes.py:23–57`. -/
theorem canonicalCompletionOutcomes_conserves (outcomes : List RoadmapOutcome) :
    (∀ shuffled, outcomes.Perm shuffled →
      canonicalCompletionOutcomes shuffled = canonicalCompletionOutcomes outcomes) ∧
    ((canonicalCompletionOutcomes outcomes).map (·.entityId)).Pairwise (· < ·) ∧
    (∀ entityId, entityId ∈ (canonicalCompletionOutcomes outcomes).map (·.entityId) ↔
      entityId ∈ outcomes.map (·.entityId)) ∧
    ((canonicalCompletionOutcomes outcomes).flatMap (·.provenance)).Perm
      (outcomes.map (·.canonical)) ∧
    ∀ result ∈ canonicalCompletionOutcomes outcomes, FromProvenance result := by
  have hids : (canonicalCompletionOutcomes outcomes).map (·.entityId) =
      sortedSet (outcomes.map (·.entityId)).toFinset := by
    simp only [canonicalCompletionOutcomes, List.map_map]
    exact (List.map_congr_left fun _ _ ↦ rfl).trans (List.map_id _)
  refine ⟨?_, ?_, ?_, ?_, ?_⟩
  · intro shuffled hp
    have hentities : (shuffled.map (·.entityId)).toFinset = (outcomes.map (·.entityId)).toFinset :=
      List.toFinset_eq_of_perm _ _ (hp.map _).symm
    unfold canonicalCompletionOutcomes
    rw [hentities]
    exact List.map_congr_left fun entityId _ ↦ canonicalOutcome_perm hp.symm entityId
  · rw [hids]
    exact pairwise_lt_sortedSet _
  · intro entityId
    rw [hids, mem_sortedSet, List.mem_toFinset]
  · have hgroups : ((sortedSet (outcomes.map (·.entityId)).toFinset).flatMap fun entityId ↦
        outcomes.filter (·.entityId = entityId)).Perm outcomes := by
      apply perm_groups (nodup_sortedSet _)
      intro o ho
      rw [mem_sortedSet, List.mem_toFinset]
      exact List.mem_map_of_mem ho
    unfold canonicalCompletionOutcomes
    rw [List.flatMap_map]
    refine (List.Perm.flatMap_left _ fun entityId _ ↦ perm_provenance outcomes entityId).trans ?_
    rw [← List.map_flatMap]
    exact hgroups.map _
  · intro result hresult
    obtain ⟨entityId, hentity, rfl⟩ := List.mem_map.mp hresult
    rw [mem_sortedSet, List.mem_toFinset] at hentity
    exact fromProvenance_canonicalOutcome hentity

end Jobtology.Store
