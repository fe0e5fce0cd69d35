import Jobtology.Profiles.Normalizer

/-!
# The editorial gap analyzer

`modules/analyses/editorial.py`: the requirements of a reviewed baseline are evaluated against the
resolved capabilities of a profile. Credits and coverage scores are exact.
-/

namespace Jobtology.Analyses

open Jobtology.Corpus Jobtology.Profiles

/-- `EditorialBaseline`. `src/jobtology_be/modules/analyses/editorial_models.py:143–188`. -/
structure EditorialBaseline where
  occupationId : String
  basisVersion : String
  release : EditorialReleaseMetadata
  isFixture : Bool
  requirements : List EditorialRequirement

/-- `NormalizedProfile`. -/
structure NormalizedProfile where
  userId : String
  profileVersion : Int
  capabilities : List NormalizedCapability

/-- `EditorialAnalysisRequest`. `src/jobtology_be/modules/analyses/editorial_models.py:192–200`. -/
structure EditorialAnalysisRequest where
  analysisId : String
  occupationId : String
  basisVersion : String
  referenceAt : Int

/-- `InputCompleteness`. `src/jobtology_be/modules/analyses/editorial_models.py:204–209`. -/
structure InputCompleteness where
  entitiesComplete : Bool
  experienceCompleteEntityIds : Finset String

/-- `BaselineMismatchError`. `src/jobtology_be/modules/analyses/editorial_models.py:107–115`. -/
structure BaselineMismatchError where
  expectedOccupationId : String
  expectedBasisVersion : String
  actualOccupationId : String
  actualBasisVersion : String
  deriving DecidableEq

/-- `RequirementEvaluation` with its provenance and credit. -/
structure ScoredEvaluation extends RequirementEvaluation where
  provenance : Finset String
  credit : ℚ
  deriving DecidableEq

/-- `UnavailableReason`. `src/jobtology_be/modules/analyses/editorial_models.py:36–38`. -/
inductive UnavailableReason
  | emptyBaseline
  | noRequirements
  deriving DecidableEq

/-- `Coverage`; it is available when it has no reason to be unavailable.
`src/jobtology_be/modules/analyses/editorial_models.py:224–232`. -/
structure Coverage where
  reason : Option UnavailableReason
  score : Option ℚ
  matchedCount : Nat
  totalCount : Nat
  scoreMethod : Option String
  weightedScore : Option ℚ
  weightedScoreMethod : Option String
  deriving DecidableEq

/-- An analysis with the credits of its requirements and its coverage. -/
structure GapAnalysis extends EditorialAnalysis where
  evaluations : List ScoredEvaluation
  scored : requirements = evaluations.map (·.toRequirementEvaluation)
  requiredCoverage : Coverage
  preferredCoverage : Coverage

/-! ### One requirement -/

/-- `_evaluation`. `src/jobtology_be/modules/analyses/editorial.py:105–120`. -/
def evaluation (requirement : EditorialRequirement) (status : SatisfactionStatus)
    (provenance : Finset String) (credit : ℚ) : ScoredEvaluation where
  requirementKey := requirement.requirementKey
  label := requirement.label
  necessity := requirement.necessity
  status
  supportRefs := requirement.supportRefs
  provenance
  credit

/-- The status that a credit earns. -/
def creditStatus (credit : ℚ) : SatisfactionStatus :=
  if credit = 1 then .satisfied else if 0 < credit then .partialCredit else .unmet

/-- The status of a requirement without evidence for it. -/
def absentStatus (complete : Bool) : SatisfactionStatus :=
  if complete then .unmet else .needsInput

/-- The capability is resolved to the requirement's entity. -/
def IsMatch (requirement : EditorialRequirement) (c : NormalizedCapability) : Prop :=
  c.resolution = .resolved ∧ c.entityId = some requirement.entityId

/-- The capability has every experience that the requirement asks for. -/
def IsEligible (requirement : EditorialRequirement) (c : NormalizedCapability) : Prop :=
  ∀ code ∈ requirement.requiredExperienceCodes, code ∈ c.experienceCodes

instance (requirement : EditorialRequirement) : DecidablePred (IsMatch requirement) :=
  fun _ ↦ inferInstanceAs (Decidable (_ ∧ _))

instance (requirement : EditorialRequirement) : DecidablePred (IsEligible requirement) :=
  fun _ ↦ inferInstanceAs (Decidable (∀ code ∈ _, _))

/-- `_evaluate_requirement`. `src/jobtology_be/modules/analyses/editorial.py:68–103`. -/
def evaluateRequirement (capabilities : List NormalizedCapability)
    (completeness : InputCompleteness) (requirement : EditorialRequirement) : ScoredEvaluation :=
  let matching := capabilities.filter (IsMatch requirement ·)
  if matching = [] then
    evaluation requirement (absentStatus completeness.entitiesComplete) ∅ 0
  else
    match ((matching.filter (IsEligible requirement ·)).map (·.credit)).max? with
    | some credit => evaluation requirement (creditStatus credit) {"SELF_REPORTED"} credit
    | none => evaluation requirement
        (absentStatus (requirement.entityId ∈ completeness.experienceCompleteEntityIds))
        {"SELF_REPORTED"} 0

/-! ### Coverage -/

/-- Coverage that is not available. -/
def Coverage.unavailable (reason : UnavailableReason) : Coverage where
  reason := some reason
  score := none
  matchedCount := 0
  totalCount := 0
  scoreMethod := none
  weightedScore := none
  weightedScoreMethod := none

/-- Coverage of evaluations, at least one. -/
def Coverage.available (evaluations : List ScoredEvaluation) : Coverage where
  reason := none
  score := some
    ((evaluations.countP (·.status = .satisfied) : ℚ) / (evaluations.length : ℚ))
  matchedCount := evaluations.countP (·.status = .satisfied)
  totalCount := evaluations.length
  scoreMethod := some "REVIEWED_CHECKLIST"
  weightedScore := some ((evaluations.map (·.credit)).sum / (evaluations.length : ℚ))
  weightedScoreMethod := some "MODELED_COMPETENCY_CREDIT_V1"

/-- `_coverage`. `src/jobtology_be/modules/analyses/editorial.py:122–159`. -/
def coverage (evaluations : List ScoredEvaluation) (necessity : RequirementNecessity)
    (baselineEmpty : Bool) : Coverage :=
  let matching := evaluations.filter (·.necessity = necessity)
  if baselineEmpty then .unavailable .emptyBaseline
  else if matching = [] then .unavailable .noRequirements
  else .available matching

/-- `EditorialGapAnalyzer.evaluate`. `src/jobtology_be/modules/analyses/editorial.py:22–159`. -/
def evaluate (baseline : EditorialBaseline) (profile : NormalizedProfile)
    (request : EditorialAnalysisRequest) (completeness : InputCompleteness) :
    Except BaselineMismatchError GapAnalysis :=
  if request.occupationId ≠ baseline.occupationId ∨
      request.basisVersion ≠ baseline.basisVersion then
    .error ⟨baseline.occupationId, baseline.basisVersion, request.occupationId,
      request.basisVersion⟩
  else
    let evaluations :=
      baseline.requirements.map (evaluateRequirement profile.capabilities completeness)
    let baselineEmpty := decide (baseline.requirements = [])
    .ok {
      analysisId := request.analysisId
      profileVersion := profile.profileVersion
      occupationId := request.occupationId
      basisVersion := request.basisVersion
      corpusReleaseId := baseline.release.releaseId
      isFixture := baseline.isFixture
      referenceAt := request.referenceAt
      analysisStatus := if baseline.requirements = [] then .insufficientData else .ready
      requirements := evaluations.map (·.toRequirementEvaluation)
      evaluations
      scored := rfl
      requiredCoverage := coverage evaluations .required baselineEmpty
      preferredCoverage := coverage evaluations .preferred baselineEmpty }

/-! ### Laws -/

section Laws

variable {capabilities : List NormalizedCapability} {completeness : InputCompleteness}

/-- An evaluation is about its requirement. -/
theorem evaluateRequirement_about (requirement : EditorialRequirement) :
    (evaluateRequirement capabilities completeness requirement).requirementKey =
        requirement.requirementKey ∧
      (evaluateRequirement capabilities completeness requirement).necessity =
        requirement.necessity := by
  unfold evaluateRequirement
  dsimp only
  split
  · exact ⟨rfl, rfl⟩
  · split <;> exact ⟨rfl, rfl⟩

/-- A request for the baseline is evaluated. -/
theorem exists_evaluate (baseline : EditorialBaseline) (profile : NormalizedProfile)
    (request : EditorialAnalysisRequest) (completeness : InputCompleteness)
    (hoccupation : request.occupationId = baseline.occupationId)
    (hbasis : request.basisVersion = baseline.basisVersion) :
    ∃ analysis, evaluate baseline profile request completeness = .ok analysis := by
  unfold evaluate
  rw [if_neg (by rw [hoccupation, hbasis]; simp)]
  exact ⟨_, rfl⟩

/-- The requirements of an analysis are those of its baseline, in their order. -/
theorem evaluate_keys {baseline : EditorialBaseline} {profile : NormalizedProfile}
    {request : EditorialAnalysisRequest} {analysis : GapAnalysis}
    (h : evaluate baseline profile request completeness = .ok analysis) :
    analysis.requirements.map (·.requirementKey) =
      baseline.requirements.map (·.requirementKey) := by
  unfold evaluate at h
  split at h
  · cases h
  · obtain rfl := Except.ok.inj h
    simp only [List.map_map]
    exact List.map_congr_left fun r _ ↦ (evaluateRequirement_about r).1

end Laws

end Jobtology.Analyses
