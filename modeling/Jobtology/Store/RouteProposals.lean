import Jobtology.Planning.Candidates
import Jobtology.Planning.PlannerVerdicts
import Jobtology.Store.Roadmaps
import Jobtology.Store.Worker

/-!
# Route proposals of the worker

`PinnedOutcomeResolver` of `workers/outcomes.py`, and `_proposal` and `_step` of
`workers/recompute_artifacts.py`: a planned route becomes the document of a route proposal.
-/

namespace Jobtology.Store

open Jobtology.Base Jobtology.Analyses Jobtology.Planning

/-! ### Outcomes -/

/-- `PinnedOutcomeResolver`. `src/jobtology_be/workers/outcomes.py:27–80`. -/
structure PinnedOutcomeResolver where
  requirements : List EditorialRequirement
  templates : List ActivityTemplate

/-- The reasons of `PinnedOutcomeResolutionError`. -/
inductive OutcomeResolutionReason
  | templateAbsent
  | keysDiffer
  | requirementAbsent (requirementKey : String)
  deriving DecidableEq

/-- What resolving the outcomes of a step may raise: `PinnedOutcomeResolutionError` or the
`ValidationError` of `RoadmapOutcome`. `src/jobtology_be/workers/outcomes.py:13–23`. -/
inductive OutcomeError
  | resolution (actionId : String) (templateRevision : Int) (reason : OutcomeResolutionReason)
  | validation
  deriving DecidableEq

/-- The outcome that a requirement states. -/
def roadmapOutcome (requirement : EditorialRequirement) : RoadmapOutcome where
  requirementKey := requirement.requirementKey
  entityId := requirement.entityId
  rawText := requirement.label
  experienceCodes := sortedSet requirement.requiredExperienceCodes

namespace PinnedOutcomeResolver

variable (resolver : PinnedOutcomeResolver)

/-- `requirements_by_key`. -/
def requirementOf (key : String) : Option EditorialRequirement :=
  lookupLast (·.requirementKey) resolver.requirements key

/-- The template that a step was planned from. -/
def templateOf (step : ScheduledRouteStep) : Option ActivityTemplate :=
  resolver.templates.find? fun t ↦
    t.actionId = step.actionId ∧ t.revision = step.templateRevision

/-- The outcome of a step under one requirement key. -/
def outcome (step : ScheduledRouteStep) (key : String) : Except OutcomeError RoadmapOutcome :=
  match resolver.requirementOf key with
  | none => .error (.resolution step.actionId step.templateRevision (.requirementAbsent key))
  | some requirement =>
    if (roadmapOutcome requirement).Valid then .ok (roadmapOutcome requirement)
    else .error .validation

/-- `serialize`. `src/jobtology_be/workers/outcomes.py:31–80`. -/
def serialize (step : ScheduledRouteStep) : Except OutcomeError (List RoadmapOutcome) :=
  match resolver.templateOf step with
  | none => .error (.resolution step.actionId step.templateRevision .templateAbsent)
  | some template =>
    if step.outcomeRequirementKeys.insertionSort (· ≤ ·) ≠
        sortedSet template.outcomeRequirementKeys then
      .error (.resolution step.actionId step.templateRevision .keysDiffer)
    else step.outcomeRequirementKeys.mapM (resolver.outcome step)

end PinnedOutcomeResolver

/-! ### The document -/

/-- `_step`. `src/jobtology_be/workers/recompute_artifacts.py:312–335`. -/
def proposalStep (resolver : PinnedOutcomeResolver) (step : ScheduledRouteStep) :
    Except OutcomeError ProposalStep := do
  let outcomes ← resolver.serialize step
  return {
    stepKey := step.stepKey
    actionId := step.actionId
    templateRevision := step.templateRevision
    title := step.title
    estimatedHours := step.estimatedHours
    plannedStartAt := some step.plannedStartAt
    plannedEndAt := some step.plannedEndAt
    outcomes
    completionCriteria := step.completionCriteria
    prerequisiteStepKeys := step.prerequisiteStepKeys }

/-- The values that a proposal is stored under; the hash is computed from its document. -/
structure ProposalDraw where
  proposalId : Uuid
  traceId : Uuid
  proposalHash : List ProposalStep → PlanningResult → String

/-- `_proposal`. `src/jobtology_be/workers/recompute_artifacts.py:224–286`. -/
def routeProposal (userId analysisId : Uuid) (profileVersion : Nat)
    (resolver : PinnedOutcomeResolver) (result : PlanningResult) (draw : ProposalDraw) :
    Except OutcomeError (Option ProposalRow) :=
  match result.feasibility with
  | none => .ok none
  | some feasibility => do
    let steps ← result.scheduledSteps.mapM (proposalStep resolver)
    return some {
      id := draw.proposalId
      analysisId, userId, profileVersion, feasibility, steps
      proposalHash := draw.proposalHash steps result
      targetBy := .value result.trace.constraints.targetBy
      decisionTraceId := draw.traceId }

/-! ### Laws -/

/-- The outcome under a requirement key can be stored. -/
def PinnedOutcomeResolver.Resolves (resolver : PinnedOutcomeResolver) (key : String) : Prop :=
  ∃ requirement ∈ resolver.requirementOf key, (roadmapOutcome requirement).Valid

instance (resolver : PinnedOutcomeResolver) : DecidablePred resolver.Resolves :=
  fun _ ↦ inferInstanceAs (Decidable (∃ requirement ∈ _, _))

/-- What a document step takes over from its route step. -/
structure IsDocumentOf (step : ScheduledRouteStep) (d : ProposalStep) : Prop where
  stepKey : d.stepKey = step.stepKey
  actionId : d.actionId = step.actionId
  templateRevision : d.templateRevision = step.templateRevision
  plannedStart : d.plannedStartAt = some step.plannedStartAt
  plannedEnd : d.plannedEndAt = some step.plannedEndAt
  prerequisites : d.prerequisiteStepKeys = step.prerequisiteStepKeys
  outcomes : ∀ o ∈ d.outcomes, o.Valid

section Laws

variable {resolver : PinnedOutcomeResolver} {step : ScheduledRouteStep}

/-- A requirement is resolved to a valid outcome. -/
theorem outcome_ok_iff {key : String} {o : RoadmapOutcome} :
    resolver.outcome step key = .ok o ↔
      ∃ requirement ∈ resolver.requirementOf key, o = roadmapOutcome requirement ∧ o.Valid := by
  unfold PinnedOutcomeResolver.outcome
  cases resolver.requirementOf key with
  | none => simp
  | some requirement =>
    by_cases hvalid : (roadmapOutcome requirement).Valid
    · simp only [hvalid, if_true, Except.ok.injEq, Option.mem_def, Option.some.injEq,
        exists_eq_left']
      exact ⟨fun h ↦ ⟨h.symm, h ▸ hvalid⟩, fun h ↦ h.1.symm⟩
    · simp only [hvalid, if_false, reduceCtorEq, Option.mem_def, Option.some.injEq,
        exists_eq_left', false_iff]
      exact fun h ↦ hvalid (h.1 ▸ h.2)

private theorem serialize_valid {outcomes : List RoadmapOutcome}
    (h : resolver.serialize step = .ok outcomes) : ∀ o ∈ outcomes, o.Valid := by
  unfold PinnedOutcomeResolver.serialize at h
  split at h
  · cases h
  · split at h
    · cases h
    · intro o ho
      obtain ⟨key, -, hkey⟩ := exists_of_mem_right (forall₂_of_mapM_ok h) ho
      obtain ⟨-, -, -, hvalid⟩ := outcome_ok_iff.mp hkey
      exact hvalid

/-- With the template that the step was planned from, only the requirements can be at fault. -/
theorem exists_serialize_iff {template : ActivityTemplate}
    (htemplate : resolver.templateOf step = some template)
    (hkeys : step.outcomeRequirementKeys = sortedSet template.outcomeRequirementKeys) :
    (∃ outcomes, resolver.serialize step = .ok outcomes) ↔
      ∀ key ∈ template.outcomeRequirementKeys, resolver.Resolves key := by
  have hsorted : step.outcomeRequirementKeys.insertionSort (· ≤ ·) =
      sortedSet template.outcomeRequirementKeys := by
    rw [hkeys]
    exact (pairwise_sortedSet _).insertionSort_eq
  have hserialize : resolver.serialize step =
      step.outcomeRequirementKeys.mapM (resolver.outcome step) := by
    unfold PinnedOutcomeResolver.serialize
    rw [htemplate]
    exact if_neg (not_not.mpr hsorted)
  rw [hserialize, exists_mapM_ok_iff, hkeys]
  simp only [mem_sortedSet]
  refine forall₂_congr fun key _ ↦ ?_
  simp only [outcome_ok_iff]
  constructor
  · rintro ⟨o, requirement, hmem, rfl, hvalid⟩
    exact ⟨requirement, hmem, hvalid⟩
  · rintro ⟨requirement, hmem, hvalid⟩
    exact ⟨_, requirement, hmem, rfl, hvalid⟩

/-- A step is stored as its document. -/
theorem isDocumentOf_of_proposalStep {d : ProposalStep} (h : proposalStep resolver step = .ok d) :
    IsDocumentOf step d := by
  unfold proposalStep at h
  obtain ⟨outcomes, houtcomes, h⟩ := bind_eq_ok.mp h
  obtain rfl := Except.ok.inj h
  exact ⟨rfl, rfl, rfl, rfl, rfl, rfl, serialize_valid houtcomes⟩

/-- The steps of a stored proposal document the steps of the route, in their order. -/
theorem routeProposal_ok {userId analysisId : Uuid} {profileVersion : Nat}
    {result : PlanningResult} {draw : ProposalDraw} {proposal : ProposalRow}
    (h : routeProposal userId analysisId profileVersion resolver result draw =
      .ok (some proposal)) :
    List.Forall₂ IsDocumentOf result.scheduledSteps proposal.steps ∧
      result.feasibility = some proposal.feasibility ∧ proposal.id = draw.proposalId ∧
      proposal.analysisId = analysisId ∧ proposal.userId = userId ∧
      proposal.profileVersion = profileVersion := by
  unfold routeProposal at h
  cases hfeasibility : result.feasibility with
  | none =>
    rw [hfeasibility] at h
    cases h
  | some feasibility =>
    rw [hfeasibility] at h
    obtain ⟨steps, hsteps, h⟩ := bind_eq_ok.mp h
    obtain rfl := Option.some.inj (Except.ok.inj h)
    exact ⟨(forall₂_of_mapM_ok hsteps).imp fun _ _ ↦ isDocumentOf_of_proposalStep, rfl, rfl, rfl,
      rfl, rfl⟩

end Laws

end Jobtology.Store
