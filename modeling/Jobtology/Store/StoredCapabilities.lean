import Jobtology.Planning.CandidateClosure
import Jobtology.Profiles.Specs
import Jobtology.Store.RoadmapSteps
import Jobtology.Store.RouteProposals

/-!
# Stored capabilities and later releases

`_target_capabilities` of `workers/recompute.py` and the normalization of what it keeps. It drops
capabilities of entities that the release in force does not have; labels and experience codes of
the others are checked as they were stored.
-/

namespace Jobtology.Store

open Jobtology.Base Jobtology.Analyses Jobtology.Planning Jobtology.Corpus Jobtology.Profiles

/-- A stored capability as it is read, with its proficiency and the specs in its details. -/
def CapabilityRow.stored (row : CapabilityRow) (proficiency : Option String)
    (spec : Option SpecDetails) : StoredCapability where
  rawText := row.rawText
  entityId := row.entityId
  category := row.category
  proficiency := proficiency
  spec := spec
  experienceCodes := row.details.experienceCodes
  completed := row.sourceCompletionEventId ≠ none

/-- The normalizer of a snapshot. -/
def normalizerOf (casefold : String → String) (snapshot : PublishedCorpusSnapshotData) :
    CatalogProfileNormalizer :=
  ⟨casefold, snapshot.capabilityEntries, snapshot.allowedExperienceCodes⟩

/-- The capability is of an entity of the snapshot, or of none. -/
def IsTarget (target : PublishedCorpusSnapshotData) (c : CapabilityInput) : Prop :=
  ∀ entityId ∈ c.entityId, entityId ∈ target.entityIds

instance (target : PublishedCorpusSnapshotData) : DecidablePred (IsTarget target) :=
  fun c ↦ inferInstanceAs (Decidable (∀ entityId ∈ c.entityId, _))

/-- `_target_capabilities`. `src/jobtology_be/workers/recompute.py:150–160`. -/
def targetCapabilities (capabilities : List CapabilityInput)
    (target : PublishedCorpusSnapshotData) : List CapabilityInput :=
  capabilities.filter (IsTarget target ·)

/-- What the release in force has of a stored row: for an outcome of one of its entities, the
experience codes and an alias of the entity that is the label; for a spec, the last part of each of
its identities as an alias of it. -/
def StoredCapability.FitsRelease (casefold : String → String)
    (target : PublishedCorpusSnapshotData) (row : StoredCapability) : Prop :=
  if row.IsOutcome then
    (∀ entityId ∈ row.entityId, entityId ∈ target.entityIds) →
      (∀ code ∈ row.experienceCodes, code ∈ target.allowedExperienceCodes) ∧
        ∀ entityId ∈ row.entityId, (normalizerOf casefold target).Labels row.rawText entityId
  else ∀ details ∈ row.spec, ∀ key ∈ details.mapped, key ∈ target.entityIds →
    (normalizerOf casefold target).Labels (lastPart ':' key) key

instance (casefold : String → String) (target : PublishedCorpusSnapshotData) :
    DecidablePred (StoredCapability.FitsRelease casefold target) := fun row ↦
  inferInstanceAs (Decidable (if row.IsOutcome then
      ((∀ entityId ∈ row.entityId, entityId ∈ target.entityIds) → _) else
    ∀ details ∈ row.spec, _))

/-- The inputs of a row that the worker keeps are normalized when the row fits the release. -/
theorem inputs_fit_iff (casefold : String → String) (target : PublishedCorpusSnapshotData)
    (today : Int) (row : StoredCapability) :
    (∀ c ∈ inputsOf today row, IsTarget target c → (normalizerOf casefold target).Fits c) ↔
      StoredCapability.FitsRelease casefold target row := by
  have hfree : ∀ rawText, (normalizerOf casefold target).Fits ⟨rawText, none, [], 0⟩ :=
    fun rawText ↦ ⟨fun _ h ↦ absurd h List.not_mem_nil, fun _ h ↦ by cases h⟩
  unfold inputsOf StoredCapability.FitsRelease
  by_cases houtcome : row.IsOutcome
  · rw [if_pos houtcome]
    simp only [List.mem_singleton, forall_eq, if_pos houtcome]
    rfl
  · rw [if_neg houtcome]
    simp only [if_neg houtcome]
    cases hspec : row.spec with
    | none =>
      simp only [List.mem_singleton, forall_eq]
      exact iff_of_true (fun _ ↦ hfree _) (by rintro _ ⟨⟩)
    | some details =>
      simp only [Option.mem_def, Option.some.injEq, forall_eq']
      by_cases hmapped : details.mapped = []
      · rw [if_pos hmapped, hmapped]
        simp only [List.mem_singleton, forall_eq]
        exact iff_of_true (fun _ ↦ hfree _) fun _ h ↦ absurd h List.not_mem_nil
      · rw [if_neg hmapped]
        simp only [List.mem_map, forall_exists_index, and_imp, forall_apply_eq_imp_iff₂]
        refine forall_congr' fun key ↦ forall_congr' fun _ ↦ ?_
        constructor
        · intro h hkey
          refine (h ?_).2 key rfl
          rintro _ ⟨⟩
          exact hkey
        · intro h htarget
          refine ⟨fun _ hcode ↦ absurd hcode List.not_mem_nil, ?_⟩
          rintro _ ⟨⟩
          exact h (htarget key rfl)

/-- Stored rows are normalized against a release, with no credit to entities that it does not have,
exactly when the release has the labels and the codes of the rows of its entities.
`src/jobtology_be/modules/profiles/normalizer.py:71–132`,
`src/jobtology_be/workers/recompute.py:150–160`, `src/jobtology_be/application/specs.py:144–163`,
`src/jobtology_be/corpus/snapshot.py:92–103`. -/
theorem stored_capabilities_normalize_iff (casefold : String → String)
    (target : PublishedCorpusSnapshot) {today : Int} {rows : List StoredCapability}
    {capabilities : List CapabilityInput}
    (h : Profiles.activeCapabilities today rows = some capabilities) :
    (∃ profile, (normalizerOf casefold target.toPublishedCorpusSnapshotData).normalize
        (targetCapabilities capabilities target.toPublishedCorpusSnapshotData) = .ok profile ∧
      ∀ c ∈ profile, ∀ entityId ∈ c.entityId, entityId ∈ target.entityIds) ↔
    ∀ row ∈ rows,
      StoredCapability.FitsRelease casefold target.toPublishedCorpusSnapshotData row := by
  let n := normalizerOf casefold target.toPublishedCorpusSnapshotData
  have hrows : (∃ profile, n.normalize
        (targetCapabilities capabilities target.toPublishedCorpusSnapshotData) = .ok profile) ↔
      ∀ row ∈ rows,
        StoredCapability.FitsRelease casefold target.toPublishedCorpusSnapshotData row := by
    rw [n.normalize_ok_iff, activeCapabilities_eq h]
    unfold targetCapabilities
    simp only [List.mem_filter, List.mem_flatMap, decide_eq_true_eq, and_imp, forall_exists_index]
    constructor
    · intro hfits row hrow
      exact (inputs_fit_iff casefold _ today row).mp fun c hc ↦ hfits c row hrow hc
    · intro hfits c row hrow hc
      exact (inputs_fit_iff casefold _ today row).mpr (hfits row hrow) c hc
  rw [← hrows]
  refine ⟨fun ⟨profile, hprofile, _⟩ ↦ ⟨profile, hprofile⟩, fun ⟨profile, hprofile⟩ ↦ ?_⟩
  refine ⟨profile, hprofile, fun d hd ↦ ?_⟩
  obtain ⟨c, -, hc⟩ := exists_of_mem_right (forall₂_of_mapM_ok hprofile) hd
  exact (n.normalizeCapability_fits hc).2.known

/-! ### A unit that was renamed -/

/-- A release in which the one unit has the label. -/
def releaseOf (releaseId label : String) : PublishedCorpusSnapshotData where
  occupationId := "DATA_ANALYST"
  basisVersion := "product-roles-v1"
  release := ⟨some releaseId, .published, some (.aware 0)⟩
  isFixture := false
  capabilityEntries := [⟨"ncs:unit:2001070306", {label, "2001070306"}⟩]
  allowedExperienceCodes := ∅
  requirements := [⟨"unit", label, .required, "ncs:unit:2001070306", ∅, {"ncs"}⟩]
  templates := [sampleTemplate "study" {"unit"} [] (by decide)]

/-- The release before the unit was renamed. -/
def olderRelease : PublishedCorpusSnapshot := ⟨releaseOf "older" "데이터 분석", by decide⟩

/-- The release after it. -/
def newerRelease : PublishedCorpusSnapshot := ⟨releaseOf "newer" "데이터 해석", by decide⟩

/-- The scheduled step that studies the unit. -/
def studyStep : ScheduledRouteStep where
  stepKey := "study@1"
  actionId := "study"
  templateRevision := 1
  title := "study"
  estimatedHours := 1
  prerequisiteStepKeys := []
  outcomeRequirementKeys := ["unit"]
  completionCriteria := ["done"]
  supportRefs := ["ref"]
  reasonCodes := []
  plannedStartAt := 0
  plannedEndAt := 1
  slotAllocations := []

/-- The capabilities that completing the step under the older release stores. -/
def completedRows : List StoredCapability :=
  match (PinnedOutcomeResolver.mk olderRelease.requirements olderRelease.templates).serialize
    studyStep with
  | .ok outcomes => (canonicalCompletionOutcomes outcomes).map fun outcome ↦
      (outcomeCapability 1 2 3 4 outcome).stored none none
  | .error _ => []

/-- Outcomes that an older release does not list are left out. -/
theorem stored_capabilities_normalize_iff_older :
    ∃ profile, (normalizerOf id olderRelease.toPublishedCorpusSnapshotData).normalize
        (targetCapabilities (completedRows.flatMap (inputsOf 0))
          olderRelease.toPublishedCorpusSnapshotData) = .ok profile ∧
      ∀ c ∈ profile, ∀ entityId ∈ c.entityId, entityId ∈ olderRelease.entityIds :=
  (stored_capabilities_normalize_iff id olderRelease
    (show Profiles.activeCapabilities 0 completedRows = some (completedRows.flatMap (inputsOf 0)) by
      decide +kernel)).mpr (by decide +kernel)

/-- What a completion stored under one release fails every analysis on the next, when the unit has
another label there. -/
theorem stored_capabilities_poison_renamed :
    olderRelease.occupationId = newerRelease.occupationId ∧
      Profiles.activeCapabilities 0 completedRows = some (completedRows.flatMap (inputsOf 0)) ∧
      (normalizerOf id newerRelease.toPublishedCorpusSnapshotData).normalize
          (targetCapabilities (completedRows.flatMap (inputsOf 0))
            newerRelease.toPublishedCorpusSnapshotData) =
        .error (.conflictingEntityId "ncs:unit:2001070306" "데이터 분석") := by
  refine ⟨rfl, by decide +kernel, by decide +kernel⟩

end Jobtology.Store
