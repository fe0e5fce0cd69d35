import Jobtology.Planning.Shortcuts

/-!
# The route planner

`CpSatRoutePlanner.plan` of `planning/cp_sat_planner.py`: the preflight checks, the solve that
requires full coverage, the solve that does not, and the choice of the verdict between them. The
solver and the clock are parameters; durations are exact rationals.
-/

namespace Jobtology.Planning

open Jobtology.Base Jobtology.Cp

/-- `RouteFeasibility`. `src/jobtology_be/planning/solver_models.py:32–36`. -/
inductive RouteFeasibility
  | feasible
  | risky
  | partialRoute
  | infeasible
  deriving DecidableEq

/-- `OptimizationStatus`. `src/jobtology_be/planning/solver_models.py:39–43`. -/
inductive OptimizationStatus
  | optimal
  | feasible
  | infeasible
  | timeout
  deriving DecidableEq

/-- `RouteRejectionCode`. `src/jobtology_be/planning/solver_models.py:54–57`. -/
inductive RouteRejectionCode
  | inputBlocker
  | unknownCostWithHardCap
  | noCandidateForRequiredRequirement
  deriving DecidableEq

/-- `RouteRejection`. `src/jobtology_be/planning/solver_models.py:180–183`. -/
structure RouteRejection where
  code : RouteRejectionCode
  actionId : Option String
  requirementKey : Option String
  deriving DecidableEq

/-- The statuses of the solver library. -/
inductive SolverStatus
  | unknown
  | modelInvalid
  | feasible
  | infeasible
  | optimal
  deriving DecidableEq

/-- `status_name` of the solver library. -/
def SolverStatus.name : SolverStatus → String
  | unknown => "UNKNOWN"
  | modelInvalid => "MODEL_INVALID"
  | feasible => "FEASIBLE"
  | infeasible => "INFEASIBLE"
  | optimal => "OPTIMAL"

/-- Which of the two solves a run belongs to. -/
inductive SolverPhase
  | full
  | partialCoverage
  deriving DecidableEq

/-- `SolverRunTelemetry`. `src/jobtology_be/planning/solver_models.py:187–194`. -/
structure SolverRunTelemetry where
  phase : SolverPhase
  status : String
  timeLimitSeconds : ℚ
  wallTimeSeconds : ℚ
  objectiveValue : Option ℚ
  bestObjectiveBound : Option ℚ
  skippedReason : Option String
  deriving DecidableEq

/-- `PartialRouteDiagnostic`. `src/jobtology_be/planning/solver_models.py:198–201`. -/
structure PartialRouteDiagnostic where
  unmetRequiredRequirementKeys : List String
  scheduledSteps : List ScheduledRouteStep
  solverRun : Option SolverRunTelemetry

/-- `RoutePlanningTrace`. The constraint snapshot copies the constraints field by field.
`src/jobtology_be/planning/solver_models.py:205–227`. -/
structure RoutePlanningTrace where
  analysisId : String
  profileVersion : Int
  basisVersion : String
  corpusReleaseId : Option String
  isFixture : Bool
  referenceAt : Int
  planningStartedAt : Int
  constraints : PlanningConstraints
  objective : ObjectiveSnapshot
  inputCandidateActionIds : List String
  solverCandidateActionIds : List String
  candidateVersions : List (String × Int)
  solverSeed : Int
  solverWorkerCount : Nat
  timeLimitSeconds : ℚ
  optimizationStatus : OptimizationStatus
  rejections : List RouteRejection
  partialRouteDiagnostic : Option PartialRouteDiagnostic
  solverRuns : List SolverRunTelemetry
  planningPolicyVersion : Option String
  planningPolicyDecisions : List String
  foundationalPriorityActionIds : List String

/-- `PlanningResult`. `src/jobtology_be/planning/solver_models.py:231–235`. -/
structure PlanningResult where
  feasibility : Option RouteFeasibility
  optimizationStatus : OptimizationStatus
  scheduledSteps : List ScheduledRouteStep
  trace : RoutePlanningTrace

/-- `SOLVER_RANDOM_SEED`. -/
def solverRandomSeed : Int := 20260904

/-- What the solver library reports for one run. The statistics are absent when reading them
raises. -/
structure SolverResponse where
  status : SolverStatus
  value : RouteVar → Int
  objectiveValue : ℚ
  statistics : Option (ℚ × ℚ)

/-- The solver library and the monotonic clock, whose readings are numbered.
`src/jobtology_be/planning/cp_sat_planner.py:191–198`. -/
structure SolverEnvironment where
  monotonic : Nat → ℚ
  solve : SolverPhase → Model RouteVar → SolverSettings → Nat → SolverResponse

/-- What a planner run may raise. `src/jobtology_be/planning/cp_sat_planner.py:177–182`. -/
inductive PlanError
  | invalidProblem (error : InvalidPlanningProblemError)
  | unexpectedCpSatStatus (status : SolverStatus)
  | undecodable
  deriving DecidableEq

/-- `CpSatRoutePlanner`, with its checked worker count.
`src/jobtology_be/planning/cp_sat_planner.py:36–173`. -/
structure CpSatRoutePlanner where
  workerCount : Nat
  positive : 1 ≤ workerCount

/-! ### Results -/

/-- `route_feasibility`. `src/jobtology_be/planning/cp_sat_results.py:71–85`. -/
def routeFeasibility (p : PlanningProblem) (steps : List ScheduledRouteStep) : RouteFeasibility :=
  let selectedActions := steps.map (·.actionId)
  let anyUnknownCost :=
    (p.candidates.filter fun c ↦ c.actionId ∈ selectedActions).any hasUnknownCost
  let completionAt := ((steps.map (·.plannedEndAt)).max?).getD p.planningStartedAt
  let horizon := p.constraints.targetBy - p.planningStartedAt
  let elapsed := completionAt - p.planningStartedAt
  if !anyUnknownCost && decide (elapsed * 5 ≤ horizon * 4) then .feasible else .risky

/-- `planning_result`. `src/jobtology_be/planning/cp_sat_results.py:88–131`. -/
def planningResult (workerCount : Nat) (p : PlanningProblem) (candidates : List Candidate)
    (feasibility : Option RouteFeasibility) (status : OptimizationStatus)
    (steps : List ScheduledRouteStep) (rejections : List RouteRejection)
    (diagnostic : Option PartialRouteDiagnostic) (solverRuns : List SolverRunTelemetry) :
    PlanningResult where
  feasibility
  optimizationStatus := status
  scheduledSteps := steps
  trace :=
    { analysisId := p.analysisId
      profileVersion := p.profileVersion
      basisVersion := p.basisVersion
      corpusReleaseId := p.corpusReleaseId
      isFixture := p.isFixture
      referenceAt := p.referenceAt
      planningStartedAt := p.planningStartedAt
      constraints := p.constraints
      objective := objectiveSnapshot p
      inputCandidateActionIds := p.candidates.map (·.actionId)
      solverCandidateActionIds := candidates.map (·.actionId)
      candidateVersions := candidates.map fun c ↦ (c.actionId, c.templateRevision)
      solverSeed := solverRandomSeed
      solverWorkerCount := workerCount
      timeLimitSeconds := p.settings.timeLimitSeconds
      optimizationStatus := status
      rejections
      partialRouteDiagnostic := diagnostic
      solverRuns
      planningPolicyVersion := p.planningPolicyVersion
      planningPolicyDecisions := p.planningPolicyDecisions
      foundationalPriorityActionIds := sortedSet p.foundationalPriorityActionIds }

/-! ### Preflight -/

/-- The rejection of one blocker and whether it makes the route infeasible. -/
def blockerRejection (p : PlanningProblem) : CandidateBlocker → RouteRejection × Bool
  | .insufficientAnalysis _ => (⟨.inputBlocker, none, none⟩, true)
  | .needsInput key _ _ =>
    (⟨.inputBlocker, none, some key⟩, decide (key ∈ p.requiredRequirementKeys))
  | .noActivities key _ _ =>
    (⟨.inputBlocker, none, some key⟩, decide (key ∈ p.requiredRequirementKeys))

/-- The union of the candidates' outcomes. -/
def candidateOutcomes (candidates : List Candidate) : Finset String :=
  candidates.foldr (fun c keys ↦ c.outcomeRequirementKeys ∪ keys) ∅

/-- Required requirements without a candidate activity, in order. -/
def uncoverableKeys (p : PlanningProblem) (candidates : List Candidate) : List String :=
  sortedSet (p.requiredRequirementKeys \ candidateOutcomes candidates)

/-- `_preflight`. `src/jobtology_be/planning/cp_sat_planner.py:201–246`. -/
def preflight (p : PlanningProblem) (candidates : List Candidate) : List RouteRejection × Bool :=
  let blocked := p.candidateBlockers.map (blockerRejection p)
  let unknownCost :=
    match p.constraints.maxOutOfPocketKrw with
    | none => []
    | some _ => (candidates.filter hasUnknownCost).map fun c ↦
        (⟨.unknownCostWithHardCap, some c.actionId, none⟩ : RouteRejection)
  let uncoverable := (uncoverableKeys p candidates).map fun key ↦
    (⟨.noCandidateForRequiredRequirement, none, some key⟩ : RouteRejection)
  (blocked.map Prod.fst ++ unknownCost ++ uncoverable,
    blocked.any Prod.snd || !(uncoverableKeys p candidates).isEmpty)

/-! ### The two solves -/

/-- `_telemetry`. `src/jobtology_be/planning/cp_sat_planner.py:288–303`. -/
def telemetry (response : SolverResponse) (settings : SolverSettings) (phase : SolverPhase) :
    SolverRunTelemetry where
  phase
  status := response.status.name
  timeLimitSeconds := settings.timeLimitSeconds
  wallTimeSeconds := (response.statistics.map Prod.fst).getD 0
  objectiveValue :=
    match response.status with
    | .optimal | .feasible => some response.objectiveValue
    | _ => none
  bestObjectiveBound := response.statistics.map Prod.snd
  skippedReason := none

/-- `_remaining_problem`: the time left until the deadline.
`src/jobtology_be/planning/cp_sat_planner.py:185–188`. -/
def remainingSettings (deadline now : ℚ) : SolverSettings :=
  ⟨max 0 (deadline - now), le_max_left _ _⟩

/-- The share of the time limit that the full solve may use. -/
def fullSettings (p : PlanningProblem) : SolverSettings :=
  ⟨p.settings.timeLimitSeconds * (3 / 4), mul_nonneg p.settings.nonneg (by norm_num)⟩

/-- The settings of the full solve: its share, within the time left. -/
def boundedFullSettings (p : PlanningProblem) (deadline now : ℚ) : SolverSettings :=
  ⟨min (fullSettings p).timeLimitSeconds (remainingSettings deadline now).timeLimitSeconds,
    le_min (fullSettings p).nonneg (remainingSettings deadline now).nonneg⟩

/-- `build_route_model` inside a planner run. -/
def postedModel (p : PlanningProblem) (candidates : List Candidate) (coverage : Bool) :
    Except PlanError RouteModelArtifacts :=
  (buildRouteModel p candidates coverage).mapError .invalidProblem

/-- `scheduled_steps` inside a planner run. -/
def decodedSteps (p : PlanningProblem) (artifacts : RouteModelArtifacts) (σ : RouteVar → Int) :
    Except PlanError (List ScheduledRouteStep) :=
  match scheduledSteps p artifacts σ with
  | some steps => .ok steps
  | none => .error .undecodable

/-- `_partial_diagnostic`; `reading` numbers its reading of the clock.
`src/jobtology_be/planning/cp_sat_planner.py:259–285`. -/
def partialDiagnostic (planner : CpSatRoutePlanner) (env : SolverEnvironment)
    (p : PlanningProblem) (candidates : List Candidate) (deadline : ℚ) (reading : Nat) :
    Except PlanError PartialRouteDiagnostic := do
  let artifacts ← postedModel p candidates false
  let settings := remainingSettings deadline (env.monotonic reading)
  let response := env.solve .partialCoverage artifacts.model settings planner.workerCount
  let run := telemetry response settings .partialCoverage
  match response.status with
  | .optimal | .feasible =>
    let steps ← decodedSteps p artifacts response.value
    pure ⟨(sortedSet p.requiredRequirementKeys).filter fun key ↦ response.value (.covered key) = 0,
      steps, some run⟩
  | .infeasible | .unknown => pure ⟨sortedSet p.requiredRequirementKeys, [], some run⟩
  | .modelInvalid => .error (.unexpectedCpSatStatus response.status)

/-- `_runs`. `src/jobtology_be/planning/cp_sat_planner.py:306–307`. -/
def runs (full : SolverRunTelemetry) (diagnostic : PartialRouteDiagnostic) :
    List SolverRunTelemetry :=
  full :: diagnostic.solverRun.toList

/-- Telemetry of a full solve that was not run. -/
def skippedRun (reason : String) : SolverRunTelemetry :=
  ⟨.full, "INFEASIBLE", 0, 0, none, none, some reason⟩

/-- The verdict after a full solve found no route to exist. -/
def afterInfeasible (planner : CpSatRoutePlanner) (env : SolverEnvironment) (p : PlanningProblem)
    (candidates : List Candidate) (rejections : List RouteRejection) (deadline : ℚ) (reading : Nat)
    (fullRun : SolverRunTelemetry) : Except PlanError PlanningResult := do
  let diagnostic ← partialDiagnostic planner env p candidates deadline reading
  if diagnostic.scheduledSteps ≠ [] then
    pure (planningResult planner.workerCount p candidates (some .partialRoute) .infeasible
      diagnostic.scheduledSteps rejections (some diagnostic) (runs fullRun diagnostic))
  else
    pure (planningResult planner.workerCount p candidates (some .infeasible) .infeasible []
      rejections (some diagnostic) (runs fullRun diagnostic))

/-- The verdict after a full solve ran out of time. -/
def afterUnknown (planner : CpSatRoutePlanner) (env : SolverEnvironment) (p : PlanningProblem)
    (candidates : List Candidate) (rejections : List RouteRejection) (deadline : ℚ) (reading : Nat)
    (fullRun : SolverRunTelemetry) : Except PlanError PlanningResult := do
  let diagnostic ← partialDiagnostic planner env p candidates deadline reading
  if diagnostic.scheduledSteps = [] then
    pure (planningResult planner.workerCount p candidates none .timeout [] rejections none
      (runs fullRun diagnostic))
  else if diagnostic.unmetRequiredRequirementKeys ≠ [] then
    pure (planningResult planner.workerCount p candidates (some .partialRoute) .timeout
      diagnostic.scheduledSteps rejections (some diagnostic) (runs fullRun diagnostic))
  else
    pure (planningResult planner.workerCount p candidates
      (some (routeFeasibility p diagnostic.scheduledSteps)) .feasible diagnostic.scheduledSteps
      rejections none (runs fullRun diagnostic))

/-- The verdict after a full solve found a route. -/
def afterSolved (planner : CpSatRoutePlanner) (p : PlanningProblem) (candidates : List Candidate)
    (rejections : List RouteRejection) (artifacts : RouteModelArtifacts)
    (response : SolverResponse) (status : OptimizationStatus) (fullRun : SolverRunTelemetry) :
    Except PlanError PlanningResult := do
  let steps ← decodedSteps p artifacts response.value
  pure (planningResult planner.workerCount p candidates (some (routeFeasibility p steps)) status
    steps rejections none [fullRun])

/-- The candidates in the order of their action ids. -/
def solverCandidates (p : PlanningProblem) : List Candidate :=
  p.candidates.insertionSort fun a b ↦ a.actionId ≤ b.actionId

/-- `CpSatRoutePlanner.plan`. `src/jobtology_be/planning/cp_sat_planner.py:43–173`. -/
def plan (planner : CpSatRoutePlanner) (env : SolverEnvironment) (p : PlanningProblem) :
    Except PlanError PlanningResult := do
  let candidates := solverCandidates p
  let (rejections, isPreflightInfeasible) := preflight p candidates
  if isPreflightInfeasible then
    pure (planningResult planner.workerCount p candidates (some .infeasible) .infeasible []
      rejections none [skippedRun "INPUT_REJECTION"])
  else
    let deadline := env.monotonic 0 + p.settings.timeLimitSeconds
    if fullCapacityPossible p candidates then
      let artifacts ← postedModel p candidates true
      let settings := boundedFullSettings p deadline (env.monotonic 1)
      let response := env.solve .full artifacts.model settings planner.workerCount
      let fullRun := telemetry response settings .full
      match response.status with
      | .optimal =>
        afterSolved planner p candidates rejections artifacts response .optimal fullRun
      | .feasible =>
        afterSolved planner p candidates rejections artifacts response .feasible fullRun
      | .infeasible => afterInfeasible planner env p candidates rejections deadline 2 fullRun
      | .unknown => afterUnknown planner env p candidates rejections deadline 2 fullRun
      | .modelInvalid => .error (.unexpectedCpSatStatus response.status)
    else
      afterInfeasible planner env p candidates rejections deadline 1
        (skippedRun "REQUIRED_EFFORT_EXCEEDS_CALENDAR_CAPACITY")

end Jobtology.Planning
