import Jobtology.ProductRoles.Planning
import Jobtology.Store.StoredCapabilities
import Jobtology.Workers.Context

/-!
# The recompute of one work item

`RecomputeWorker.process` of `workers/recompute.py` between loading a context and finalizing, with
`workers/recompute_planning.py`: every step with the errors that it may raise, and the classes of
errors that `process_once` lists.
-/

namespace Jobtology.Workers

open Jobtology.Base Jobtology.Analyses Jobtology.Corpus Jobtology.Planning Jobtology.ProductRoles
open Jobtology.Profiles Jobtology.Store

/-! ### Errors -/

/-- `CorpusSnapshotError`, as it may come up while a snapshot is selected.
`src/jobtology_be/corpus/snapshot.py:29–67`. -/
inductive CorpusSnapshotError
  | invalidSelection
  | fixtureForbidden (releaseId : Option String)
  | unavailable (selection : PublishedSnapshotSelection)
  | identityMismatch (selection : PublishedSnapshotSelection) (occupationId basisVersion : String)
      (releaseId : Option String)
  deriving DecidableEq

/-- What processing a work item may raise, by the class of the error.
`src/jobtology_be/workers/recompute.py:73–78,82–88,92–97,101–104`. -/
inductive RecomputeError
  | persistence (error : PersistenceError)
  | staleProfile (requestProfileVersion contextProfileVersion : Nat)
  | nativeSourceUnsupported
  | corpusSnapshot (error : CorpusSnapshotError)
  | solverTimeout
  | candidateTemplate (error : CandidateTemplateError)
  | normalization (error : NormalizeError)
  | editorialBaseline (error : EditorialBaselineError)
  | invalidContext
  | invalidProblem (error : InvalidPlanningProblemError)
  | outcomeResolution (actionId : String) (templateRevision : Int)
      (reason : OutcomeResolutionReason)
  /-- The `ValidationError` of an outcome that cannot be stored. -/
  | outcomeValidation
  | templateCatalog (error : CatalogError)
  | unknownOutcomeRequirement (actionId requirementKey : String)
  | baselineMismatch (error : BaselineMismatchError)
  | keyError (key : String)
  | overflow
  | unexpectedCpSatStatus (status : SolverStatus)
  /-- What decoding an answer that is no solution may raise. -/
  | undecodable
  deriving DecidableEq

/-- What `process_once` does about an error. -/
inductive Handling
  | skip
  | record (errorCode : String)
  | propagate
  deriving DecidableEq

/-- The `except` clauses of `process_once`. -/
def RecomputeError.handling : RecomputeError → Handling
  | .persistence (.conflict _) => .skip
  | .staleProfile _ _ => .record "STALE_PROFILE"
  | .nativeSourceUnsupported => .record "NATIVE_SOURCE_UNSUPPORTED"
  | .corpusSnapshot _ => .record "CORPUS_SNAPSHOT"
  | .solverTimeout => .record "SOLVER_TIMEOUT"
  | .candidateTemplate _ | .normalization _ | .editorialBaseline _ | .invalidContext
  | .invalidProblem _ | .outcomeResolution _ _ _ => .record "INVALID_INPUT"
  | _ => .propagate

/-! ### Planning -/

/-- `RecomputeWorker`: its readers, its planner and its limits.
`src/jobtology_be/workers/recompute.py:164–247`. -/
structure RecomputeWorker where
  contexts : ContextValidation
  getSnapshot : PublishedSnapshotSelection → Except CorpusSnapshotError PublishedCorpusSnapshot
  allowFixture : Bool
  planner : CpSatRoutePlanner
  solverTimeLimitSeconds : Option ℚ
  casefold : String → String
  showCredit : ℚ → String

/-- What one recompute draws, and how the solver answers it. -/
structure RecomputeDraw where
  analysisId : Uuid
  solver : SolverEnvironment
  proposal : ProposalDraw

/-- `JsonRecomputeContextReader.get_context` inside a recompute. -/
def ContextError.toRecomputeError : ContextError → RecomputeError
  | .invalidContext => .invalidContext
  | .invalidSelection => .corpusSnapshot .invalidSelection
  | .invalidProblem e => .invalidProblem e

/-- `product_planning_catalog` inside a recompute. -/
def runtimeCatalogError : RuntimeCatalogError → RecomputeError
  | .template e => .candidateTemplate e
  | .missingKey key => .keyError key
  | .overflow => .overflow

/-- `CandidateGenerator.build` inside a recompute. -/
def buildError : BuildError → RecomputeError
  | .catalog e => .templateCatalog e
  | .unknownOutcomeRequirement a key => .unknownOutcomeRequirement a key

/-- `CpSatRoutePlanner.plan` inside a recompute. -/
def planError : Planning.PlanError → RecomputeError
  | .invalidProblem e => .invalidProblem e
  | .unexpectedCpSatStatus status => .unexpectedCpSatStatus status
  | .undecodable => .undecodable

/-- `PinnedOutcomeResolver.serialize` inside a recompute. -/
def outcomeError : OutcomeError → RecomputeError
  | .resolution a revision reason => .outcomeResolution a revision reason
  | .validation => .outcomeValidation

/-- `require_selection`. `src/jobtology_be/corpus/snapshot.py:120–132`. -/
def requireSelection (snapshot : PublishedCorpusSnapshotData)
    (selection : PublishedSnapshotSelection) : Except CorpusSnapshotError Unit :=
  if selection.occupationId ≠ snapshot.occupationId ∨
      selection.basisVersion ≠ snapshot.basisVersion ∨
      some selection.releaseId ≠ snapshot.release.releaseId then
    .error (.identityMismatch selection snapshot.occupationId snapshot.basisVersion
      snapshot.release.releaseId)
  else .ok ()

/-- `editorial_baseline`, without its checks. `src/jobtology_be/corpus/snapshot.py:105–112`. -/
def baselineOf (snapshot : PublishedCorpusSnapshotData) : EditorialBaseline :=
  ⟨snapshot.occupationId, snapshot.basisVersion, snapshot.release, snapshot.isFixture,
    snapshot.requirements⟩

/-- `baseline_for_recompute`. `src/jobtology_be/corpus/snapshot.py:114–118`. -/
def baselineForRecompute (allowFixture : Bool) (snapshot : PublishedCorpusSnapshotData) :
    Except RecomputeError EditorialBaseline := do
  snapshot.checkBaseline.mapError .editorialBaseline
  if snapshot.isFixture = true ∧ allowFixture = false then
    .error (.corpusSnapshot (.fixtureForbidden snapshot.release.releaseId))
  else .ok (baselineOf snapshot)

/-- `CandidateGenerator(templates)`. -/
def candidateGenerator (templates : List ActivityTemplate) :
    Except CatalogError CandidateGenerator :=
  match h : generatorPostInit templates with
  | .ok () => .ok ⟨templates, h⟩
  | .error e => .error e

/-- `action_ids.get(action_id, action_id)`. -/
def mappedActionId (mapping : List (String × String)) (actionId : String) : String :=
  ((lookupLast Prod.fst mapping actionId).map Prod.snd).getD actionId

/-- The keys of the requirements of one necessity that are not satisfied. -/
def unsatisfiedKeys (analysis : EditorialAnalysis) (necessity : RequirementNecessity) :
    Finset String :=
  ((analysis.requirements.filter fun r ↦ r.necessity = necessity ∧ r.status ≠ .satisfied).map
    (·.requirementKey)).toFinset

/-- The foundational activities that are preferred for a career switch. -/
def foundationalPriority (context : RecomputeContext) (analysis : EditorialAnalysis)
    (candidates : List Candidate) (catalog : RuntimePlanningCatalog) : Finset String :=
  let unmet := ((analysis.requirements.filter (isOpen ·)).map (·.requirementKey)).toFinset
  ((candidates.filter fun c ↦ context.constraints.careerSwitch = true ∧
    c.actionId ∈ catalog.foundationalActionIds ∧ c.outcomeRequirementKeys ∩ unmet ≠ ∅).map
      (·.actionId)).toFinset

/-- `PlanningProblem(...)`. -/
def planningProblem (p : PlanningProblemData) :
    Except InvalidPlanningProblemError PlanningProblem :=
  match h : p.postInit with
  | .ok () => .ok ⟨p, h⟩
  | .error e => .error e

/-- `build_planning_problem`. `src/jobtology_be/workers/recompute_planning.py:14–63`. -/
def buildPlanningProblem (context : RecomputeContext) (analysis : EditorialAnalysis)
    (set : CandidateSet) (catalog : RuntimePlanningCatalog) :
    Except InvalidPlanningProblemError PlanningProblem := do
  let availability ← context.candidateAvailability.mapM fun item ↦
    buildAvailability { item.toCandidateAvailabilityData with
      actionId := mappedActionId catalog.actionIdMapping item.actionId }
  planningProblem {
    analysisId := analysis.analysisId
    profileVersion := analysis.profileVersion
    basisVersion := analysis.basisVersion
    corpusReleaseId := analysis.corpusReleaseId
    isFixture := analysis.isFixture
    referenceAt := analysis.referenceAt
    candidates := set.candidates
    candidateBlockers := set.blockers
    requiredRequirementKeys := unsatisfiedKeys analysis .required
    preferredRequirementKeys := unsatisfiedKeys analysis .preferred
    constraints := context.constraints
    planningStartedAt := context.planningStartedAt
    calendar := context.calendar
    candidateAvailability := availability
    settings := context.solverSettings
    planningPolicyVersion := catalog.policyVersion
    planningPolicyDecisions := catalog.decisions
    foundationalPriorityActionIds :=
      foundationalPriority context analysis set.candidates catalog
    portfolioActionIds := catalog.portfolioActionIds }

/-- The worker's own time limit, if it has one. -/
def withTimeLimit (limit : Option ℚ) (p : PlanningProblem) :
    Except InvalidPlanningProblemError PlanningProblem :=
  match limit with
  | none => .ok p
  | some seconds =>
    if h : 0 ≤ seconds then
      .ok { p with settings := ⟨seconds, h⟩, accepted := p.accepted }
    else .error ⟨"solver time limit must be finite and nonnegative"⟩

/-- What is known once a route is planned. -/
structure PlannedRoute where
  context : RecomputeContext
  snapshot : PublishedCorpusSnapshot
  analysis : GapAnalysis
  catalog : RuntimePlanningCatalog
  problem : PlanningProblem
  result : PlanningResult

/-- The resolver of the outcomes of a planned route. -/
def PlannedRoute.resolver (route : PlannedRoute) : PinnedOutcomeResolver :=
  ⟨route.snapshot.requirements, route.catalog.templates⟩

namespace RecomputeWorker

variable (worker : RecomputeWorker)

/-- The snapshot that a context selects, for the work item that it is read for. -/
def selectSnapshot (item : RecomputeWorkItem) (context : RecomputeContext) :
    Except RecomputeError PublishedCorpusSnapshot := do
  if context.userId ≠ item.userId ∨ context.profileVersion ≠ item.profileVersion then
    throw (.staleProfile item.profileVersion context.profileVersion)
  if context.source = .neo4jQueryApi then throw .nativeSourceUnsupported
  let snapshot ← (worker.getSnapshot context.selection).mapError .corpusSnapshot
  (requireSelection snapshot.toPublishedCorpusSnapshotData context.selection).mapError
    .corpusSnapshot
  return snapshot

/-- The analysis of a context over its snapshot. -/
def analyze (draw : RecomputeDraw) (context : RecomputeContext)
    (snapshot : PublishedCorpusSnapshot) : Except RecomputeError GapAnalysis := do
  let baseline ←
    baselineForRecompute worker.allowFixture snapshot.toPublishedCorpusSnapshotData
  let capabilities ← ((normalizerOf worker.casefold
    snapshot.toPublishedCorpusSnapshotData).normalize (targetCapabilities context.capabilities
      snapshot.toPublishedCorpusSnapshotData)).mapError .normalization
  (evaluate baseline ⟨toString context.userId, context.profileVersion, capabilities⟩
    ⟨toString draw.analysisId, context.selection.occupationId, context.selection.basisVersion,
      context.referenceAt⟩ context.completeness).mapError .baselineMismatch

/-- The planning problem of an analysis, with the catalog that it is planned from. -/
def problemOf (context : RecomputeContext) (snapshot : PublishedCorpusSnapshot)
    (analysis : GapAnalysis) :
    Except RecomputeError (RuntimePlanningCatalog × PlanningProblem) := do
  let catalog ← (productPlanningCatalog worker.showCredit snapshot.toPublishedCorpusSnapshotData
    context.constraints analysis).mapError runtimeCatalogError
  let generator ← (candidateGenerator catalog.templates).mapError .templateCatalog
  let set ← (build generator analysis.toEditorialAnalysis).mapError buildError
  let problem ← (buildPlanningProblem context analysis.toEditorialAnalysis set catalog).mapError
    .invalidProblem
  let limited ← (withTimeLimit worker.solverTimeLimitSeconds problem).mapError .invalidProblem
  return (catalog, limited)

/-- `process` up to the planning result. `src/jobtology_be/workers/recompute.py:173–247`. -/
def planRoute (draw : RecomputeDraw) (item : RecomputeWorkItem)
    (payload : Store.RecomputeContext) : Except RecomputeError PlannedRoute := do
  let context ← (worker.contexts.getContext payload).mapError (·.toRecomputeError)
  let snapshot ← worker.selectSnapshot item context
  let analysis ← worker.analyze draw context snapshot
  let (catalog, problem) ← worker.problemOf context snapshot analysis
  let result ← (plan worker.planner draw.solver problem).mapError planError
  return ⟨context, snapshot, analysis, catalog, problem, result⟩

/-- `build_recompute_artifacts`. `src/jobtology_be/workers/recompute_artifacts.py:66–109`. -/
def buildRecomputeArtifacts (draw : RecomputeDraw) (item : RecomputeWorkItem)
    (route : PlannedRoute) : Except OutcomeError RecomputeArtifacts := do
  let proposal ← routeProposal item.userId draw.analysisId route.context.profileVersion
    route.resolver route.result draw.proposal
  return {
    analysis := {
      id := draw.analysisId
      userId := item.userId
      goalId := route.context.goalId
      profileVersion := route.context.profileVersion
      releaseId := route.analysis.corpusReleaseId
      status := route.analysis.analysisStatus
      snapshotOccupation := some route.context.selection.occupationId
      resultOccupation := some route.analysis.occupationId }
    proposal }

/-- `process` between loading the context and finalizing. -/
def recompute (draw : RecomputeDraw) (item : RecomputeWorkItem)
    (payload : Store.RecomputeContext) : Except RecomputeError RecomputeArtifacts := do
  let route ← worker.planRoute draw item payload
  if route.result.feasibility = none then .error .solverTimeout
  else (buildRecomputeArtifacts draw item route).mapError outcomeError

end RecomputeWorker

end Jobtology.Workers
