import Jobtology.Base.Fallible
import Jobtology.Planning.Candidates

/-!
# Published corpus snapshots

`corpus/snapshot.py` with the baseline of `modules/analyses/editorial_models.py`. A snapshot that
is built has passed its checks.
-/

namespace Jobtology.Corpus

open Jobtology.Base Jobtology.Analyses Jobtology.Planning

/-- `ReleaseState`. `src/jobtology_be/modules/analyses/editorial_models.py:19–23`. -/
inductive ReleaseState
  | published
  | fixture
  | unpublished
  | revoked
  deriving DecidableEq

/-- A review timestamp, with or without a time zone. -/
inductive ReviewedAt
  | naive
  | aware (time : Int)
  deriving DecidableEq

/-- `EditorialReleaseMetadata`. `src/jobtology_be/modules/analyses/editorial_models.py:126–129`. -/
structure EditorialReleaseMetadata where
  releaseId : Option String
  state : ReleaseState
  reviewedAt : Option ReviewedAt

/-- `EditorialBaselineError`. `src/jobtology_be/modules/analyses/editorial_models.py:42–103`. -/
inductive EditorialBaselineError
  | duplicateRequirementKey (requirementKey : String)
  | missingRequirementEvidence (requirementKey : String)
  | unusableRelease (state : ReleaseState)
  | invalidFixtureLabel (isFixture : Bool) (state : ReleaseState)
  | missingPublishedReleaseId
  | missingReviewedAt
  | naiveReviewedAt
  deriving DecidableEq

/-- The errors of a snapshot that is rejected. `src/jobtology_be/corpus/snapshot.py:71–77`. -/
inductive SnapshotError
  | baseline (error : EditorialBaselineError)
  | catalog (error : CatalogError)
  | unknownTemplateOutcomeRequirement (actionId requirementKey : String)
  deriving DecidableEq

/-- `CapabilityCatalogEntry`. `src/jobtology_be/modules/profiles/normalizer.py:16–18`. -/
structure CapabilityCatalogEntry where
  entityId : String
  aliases : Finset String

/-- Fields of a snapshot. -/
structure PublishedCorpusSnapshotData where
  occupationId : String
  basisVersion : String
  release : EditorialReleaseMetadata
  isFixture : Bool
  capabilityEntries : List CapabilityCatalogEntry
  allowedExperienceCodes : Finset String
  requirements : List EditorialRequirement
  templates : List ActivityTemplate

namespace PublishedCorpusSnapshotData

variable (snapshot : PublishedCorpusSnapshotData)

/-- The checks on a published release. -/
def checkPublished : Except EditorialBaselineError Unit :=
  if snapshot.isFixture then .error (.invalidFixtureLabel true snapshot.release.state)
  else if snapshot.release.releaseId.all isBlank then .error .missingPublishedReleaseId
  else match snapshot.release.reviewedAt with
    | none => .error .missingReviewedAt
    | some .naive => .error .naiveReviewedAt
    | some (.aware _) => snapshot.requirements.forM fun r ↦
        if r.supportRefs = ∅ then .error (.missingRequirementEvidence r.requirementKey)
        else .ok ()

/-- `EditorialBaseline.__post_init__`.
`src/jobtology_be/modules/analyses/editorial_models.py:150–188`. -/
def checkBaseline : Except EditorialBaselineError Unit :=
  let keys := snapshot.requirements.map (·.requirementKey)
  match keys.find? fun key ↦ 1 < keys.count key with
  | some key => .error (.duplicateRequirementKey key)
  | none =>
    match snapshot.release.state with
    | .published => snapshot.checkPublished
    | .fixture =>
      if snapshot.isFixture then .ok () else .error (.invalidFixtureLabel false .fixture)
    | state => .error (.unusableRelease state)

/-- The outcomes of every template are requirements. -/
def checkOutcomes : Except SnapshotError Unit :=
  snapshot.templates.forM fun t ↦
    match sortedSet (t.outcomeRequirementKeys.filter fun key ↦
      key ∉ snapshot.requirements.map (·.requirementKey)) with
    | [] => .ok ()
    | key :: _ => .error (.unknownTemplateOutcomeRequirement t.actionId key)

/-- `PublishedCorpusSnapshot.__post_init__`. `src/jobtology_be/corpus/snapshot.py:92–103`. -/
def postInit : Except SnapshotError Unit := do
  snapshot.checkBaseline.mapError .baseline
  (generatorPostInit snapshot.templates).mapError .catalog
  snapshot.checkOutcomes

/-- `entity_id` of the capability entries. -/
def entityIds : List String := snapshot.capabilityEntries.map (·.entityId)

end PublishedCorpusSnapshotData

/-- A snapshot that passed its checks. `src/jobtology_be/corpus/snapshot.py:81–132`. -/
structure PublishedCorpusSnapshot extends PublishedCorpusSnapshotData where
  accepted : toPublishedCorpusSnapshotData.postInit = .ok ()

/-! ### What acceptance gives -/

namespace PublishedCorpusSnapshot

variable (snapshot : PublishedCorpusSnapshot)

private theorem checks : snapshot.checkBaseline = .ok () ∧
    generatorPostInit snapshot.templates = .ok () ∧ snapshot.checkOutcomes = .ok () := by
  have h := snapshot.accepted
  unfold PublishedCorpusSnapshotData.postInit at h
  obtain ⟨_, hbaseline, h⟩ := bind_eq_ok.mp h
  obtain ⟨_, hcatalog, houtcomes⟩ := bind_eq_ok.mp h
  exact ⟨mapError_eq_ok.mp hbaseline, mapError_eq_ok.mp hcatalog, houtcomes⟩

private theorem checkBaseline_ok : snapshot.checkBaseline = .ok () := snapshot.checks.1

/-- The generator accepts the templates of a snapshot. -/
theorem catalog_accepted : generatorPostInit snapshot.templates = .ok () := snapshot.checks.2.1

/-- No two requirements have one key. -/
theorem requirementKeys_nodup : (snapshot.requirements.map (·.requirementKey)).Nodup := by
  have h := snapshot.checkBaseline_ok
  unfold PublishedCorpusSnapshotData.checkBaseline at h
  dsimp only at h
  split at h
  · cases h
  · next hnone =>
    rw [List.nodup_iff_count_le_one]
    intro key
    by_cases hmem : key ∈ snapshot.requirements.map (·.requirementKey)
    · have hcount := List.find?_eq_none.mp hnone key hmem
      rw [decide_eq_true_eq] at hcount
      exact Nat.not_lt.mp hcount
    · rw [List.count_eq_zero.mpr hmem]
      exact Nat.zero_le 1

/-- The outcomes of a template are requirements. -/
theorem outcome_mem {t : ActivityTemplate} (ht : t ∈ snapshot.templates) {key : String}
    (hkey : key ∈ t.outcomeRequirementKeys) :
    key ∈ snapshot.requirements.map (·.requirementKey) := by
  have h := snapshot.checks.2.2
  unfold PublishedCorpusSnapshotData.checkOutcomes at h
  have hnone := (forM_ok_iff _ _).mp h t ht
  split at hnone
  · next hempty =>
    by_contra hmissing
    have hmem : key ∈ sortedSet (t.outcomeRequirementKeys.filter fun key ↦
        key ∉ snapshot.requirements.map (·.requirementKey)) :=
      (mem_sortedSet _ _).mpr (Finset.mem_filter.mpr ⟨hkey, hmissing⟩)
    rw [hempty] at hmem
    cases hmem
  · cases hnone

end PublishedCorpusSnapshot

end Jobtology.Corpus
