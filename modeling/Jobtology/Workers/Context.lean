import Jobtology.Analyses.GapAnalyzer
import Jobtology.Planning.Problem
import Jobtology.Store.Session

/-!
# Recompute contexts

`workers/context.py`: the stored document of a context becomes the inputs of a recompute. What
`pydantic` makes of a document is a parameter; the checks that are made after it are not.
-/

namespace Jobtology.Workers

open Jobtology.Base Jobtology.Analyses Jobtology.Planning Jobtology.Profiles Jobtology.Store

/-- `CorpusSource`. -/
inductive CorpusSource
  | localJson
  | neo4jQueryApi
  deriving DecidableEq

/-- Fields of a snapshot selection. `src/jobtology_be/corpus/snapshot.py:18–25`. -/
structure PublishedSnapshotSelection where
  occupationId : String
  basisVersion : String
  releaseId : String
  deriving DecidableEq

/-- `PublishedSnapshotSelection.__post_init__`. -/
def PublishedSnapshotSelection.IsNamed (selection : PublishedSnapshotSelection) : Prop :=
  isBlank selection.occupationId = false ∧ isBlank selection.basisVersion = false ∧
    isBlank selection.releaseId = false

instance : DecidablePred PublishedSnapshotSelection.IsNamed :=
  fun _ ↦ inferInstanceAs (Decidable (_ ∧ _))

/-- `RecomputeContextDocument`: a document that `pydantic` validated.
`src/jobtology_be/workers/context.py:88–152`. -/
structure RecomputeContextDocument where
  userId : Uuid
  profileVersion : Nat
  goalId : Uuid
  selection : PublishedSnapshotSelection
  source : CorpusSource
  capabilities : List CapabilityInput
  completeness : InputCompleteness
  constraints : PlanningConstraints
  referenceAt : Int
  planningStartedAt : Int
  calendar : List PlanningSlotData
  candidateAvailability : List CandidateAvailabilityData
  solverSettings : SolverSettings
  positive : 1 ≤ profileVersion

/-- `RecomputeContext`. `src/jobtology_be/workers/context.py:31–46`. -/
structure RecomputeContext where
  userId : Uuid
  profileVersion : Nat
  goalId : Uuid
  selection : PublishedSnapshotSelection
  source : CorpusSource
  capabilities : List CapabilityInput
  completeness : InputCompleteness
  constraints : PlanningConstraints
  referenceAt : Int
  planningStartedAt : Int
  calendar : List PlanningSlot
  candidateAvailability : List CandidateAvailability
  solverSettings : SolverSettings

/-- What reading a context may raise. `src/jobtology_be/workers/context.py:24–27`. -/
inductive ContextError
  /-- `InvalidRecomputeContextError`: the document or a capability of it does not validate. -/
  | invalidContext
  /-- `InvalidPublishedSnapshotSelectionError`. -/
  | invalidSelection
  | invalidProblem (error : InvalidPlanningProblemError)
  deriving DecidableEq

/-- `PlanningSlot(...)`. -/
def buildSlot (s : PlanningSlotData) : Except InvalidPlanningProblemError PlanningSlot :=
  match h : s.postInit with
  | .ok () => .ok ⟨s, h⟩
  | .error e => .error e

/-- `CandidateAvailability(...)`. -/
def buildAvailability (a : CandidateAvailabilityData) :
    Except InvalidPlanningProblemError CandidateAvailability :=
  match h : a.postInit with
  | .ok () => .ok ⟨a, h⟩
  | .error e => .error e

/-- `RecomputeContextDocument.to_context`. `src/jobtology_be/workers/context.py:104–152`. -/
def RecomputeContextDocument.toContext (d : RecomputeContextDocument) :
    Except ContextError RecomputeContext := do
  if ¬ d.selection.IsNamed then throw .invalidSelection
  if ∃ c ∈ d.capabilities, ¬ c.Valid then throw .invalidContext
  let calendar ← (d.calendar.mapM buildSlot).mapError .invalidProblem
  let availability ← (d.candidateAvailability.mapM buildAvailability).mapError .invalidProblem
  return {
    userId := d.userId
    profileVersion := d.profileVersion
    goalId := d.goalId
    selection := d.selection
    source := d.source
    capabilities := d.capabilities
    completeness := d.completeness
    constraints := d.constraints
    referenceAt := d.referenceAt
    planningStartedAt := d.planningStartedAt
    calendar
    candidateAvailability := availability
    solverSettings := d.solverSettings }

/-- `RecomputeContextDocument.model_validate`: a valid document is for the goal that it names. -/
structure ContextValidation where
  validate : Store.RecomputeContext → Option RecomputeContextDocument
  goal : ∀ payload d, validate payload = some d → payload.goalId = some d.goalId

/-- `JsonRecomputeContextReader.get_context`, after the payload is loaded.
`src/jobtology_be/workers/context.py:165–170`. -/
def ContextValidation.getContext (v : ContextValidation) (payload : Store.RecomputeContext) :
    Except ContextError RecomputeContext :=
  match v.validate payload with
  | some d => d.toContext
  | none => .error .invalidContext

/-- A context that is read is for the goal of its payload, at a positive version. -/
theorem ContextValidation.getContext_ok {v : ContextValidation} {payload : Store.RecomputeContext}
    {context : RecomputeContext} (h : v.getContext payload = .ok context) :
    payload.goalId = some context.goalId ∧ 1 ≤ context.profileVersion := by
  unfold getContext at h
  cases hvalid : v.validate payload with
  | none =>
    rw [hvalid] at h
    cases h
  | some d =>
    rw [hvalid] at h
    have hcontext : context.goalId = d.goalId ∧ context.profileVersion = d.profileVersion := by
      simp only [RecomputeContextDocument.toContext] at h
      split at h
      · cases h
      split at h
      · cases h
      obtain ⟨calendar, -, h⟩ := bind_eq_ok.mp h
      obtain ⟨availability, -, h⟩ := bind_eq_ok.mp h
      obtain rfl := Except.ok.inj h
      exact ⟨rfl, rfl⟩
    rw [hcontext.1, hcontext.2]
    exact ⟨v.goal payload d hvalid, d.positive⟩

end Jobtology.Workers
