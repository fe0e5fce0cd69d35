import Jobtology.Planning.PlannerVerdicts

/-!
# The steps of a plan

Whatever its verdict, a plan has no steps or those decoded from a solution of the route model.
-/

namespace Jobtology.Planning

open Jobtology.Base

/-- No steps, or steps decoded from a solution for accepted candidates. -/
def PlannedSteps (p : PlanningProblem) (steps : List ScheduledRouteStep) : Prop :=
  steps = [] ∨ validateCandidates (solverCandidates p) = .ok () ∧
    ∃ σ, DecodedRoute p (solverCandidates p) σ steps

/-- A solution that the solver gives for a model of the problem. -/
def SolverAnswer (planner : CpSatRoutePlanner) (env : SolverEnvironment) (p : PlanningProblem)
    (σ : RouteVar → Int) : Prop :=
  ∃ phase coverage settings,
    let response := env.solve phase (routeModel p (solverCandidates p) coverage) settings
      planner.workerCount
    (response.status = .optimal ∨ response.status = .feasible) ∧ response.value = σ

/-- No steps, or steps decoded from a solution of the solver for accepted candidates. -/
def AnsweredSteps (planner : CpSatRoutePlanner) (env : SolverEnvironment) (p : PlanningProblem)
    (steps : List ScheduledRouteStep) : Prop :=
  steps = [] ∨ validateCandidates (solverCandidates p) = .ok () ∧
    ∃ σ, SolverAnswer planner env p σ ∧ DecodedRoute p (solverCandidates p) σ steps

section Plans

variable {planner : CpSatRoutePlanner} {env : SolverEnvironment} {p : PlanningProblem}
  {rejections : List RouteRejection} {result : PlanningResult}

/-- Steps that are decoded from an answer of a sound solver. -/
theorem answeredSteps_of_decodedSteps (hsound : SoundSolver env)
    (hv : validateCandidates (solverCandidates p) = .ok ()) {phase : SolverPhase} {coverage : Bool}
    {settings : SolverSettings} {response : SolverResponse}
    (hr : env.solve phase (routeModel p (solverCandidates p) coverage) settings
      planner.workerCount = response)
    (hstatus : response.status = .optimal ∨ response.status = .feasible)
    {steps : List ScheduledRouteStep}
    (h : decodedSteps p ⟨routeModel p (solverCandidates p) coverage, solverCandidates p⟩
      response.value = .ok steps) : AnsweredSteps planner env p steps := by
  have hs := hsound phase (routeModel p (solverCandidates p) coverage) settings planner.workerCount
  rw [hr] at hs
  refine .inr ⟨hv, response.value, ⟨phase, coverage, settings, ?_⟩,
    decodedRoute_of_decodedSteps hv (hs.1 hstatus) h⟩
  rw [hr]
  exact ⟨hstatus, rfl⟩

private theorem partialDiagnostic_answered (hsound : SoundSolver env) {deadline : ℚ} {reading : Nat}
    {d : PartialRouteDiagnostic}
    (h : partialDiagnostic planner env p (solverCandidates p) deadline reading = .ok d) :
    AnsweredSteps planner env p d.scheduledSteps := by
  unfold partialDiagnostic at h
  obtain ⟨artifacts, hp, h⟩ := bind_eq_ok.mp h
  obtain ⟨hv, rfl⟩ := postedModel_ok hp
  dsimp only at h
  generalize hr : env.solve _ _ _ _ = response at h
  cases hstatus : response.status with
  | optimal =>
    rw [hstatus] at h
    obtain ⟨steps, hsteps, h⟩ := bind_eq_ok.mp h
    rw [← Except.ok.inj h]
    exact answeredSteps_of_decodedSteps hsound hv hr (.inl hstatus) hsteps
  | feasible =>
    rw [hstatus] at h
    obtain ⟨steps, hsteps, h⟩ := bind_eq_ok.mp h
    rw [← Except.ok.inj h]
    exact answeredSteps_of_decodedSteps hsound hv hr (.inr hstatus) hsteps
  | infeasible =>
    rw [hstatus] at h
    rw [← Except.ok.inj h]
    exact .inl rfl
  | unknown =>
    rw [hstatus] at h
    rw [← Except.ok.inj h]
    exact .inl rfl
  | modelInvalid =>
    rw [hstatus] at h
    cases h

private theorem afterSolved_answered (hsound : SoundSolver env)
    (hv : validateCandidates (solverCandidates p) = .ok ()) {settings : SolverSettings}
    {response : SolverResponse}
    (hr : env.solve .full (routeModel p (solverCandidates p) true) settings planner.workerCount =
      response)
    (hstatus : response.status = .optimal ∨ response.status = .feasible)
    {status : OptimizationStatus} {fullRun : SolverRunTelemetry}
    (h : afterSolved planner p (solverCandidates p) rejections
      ⟨routeModel p (solverCandidates p) true, solverCandidates p⟩ response status fullRun =
      .ok result) : AnsweredSteps planner env p result.scheduledSteps := by
  unfold afterSolved at h
  obtain ⟨steps, hsteps, h⟩ := bind_eq_ok.mp h
  rw [← Except.ok.inj h]
  exact answeredSteps_of_decodedSteps hsound hv hr hstatus hsteps

private theorem afterInfeasible_answered (hsound : SoundSolver env) {deadline : ℚ} {reading : Nat}
    {fullRun : SolverRunTelemetry}
    (h : afterInfeasible planner env p (solverCandidates p) rejections deadline reading fullRun =
      .ok result) : AnsweredSteps planner env p result.scheduledSteps := by
  unfold afterInfeasible at h
  obtain ⟨d, hd, h⟩ := bind_eq_ok.mp h
  split at h
  · rw [← Except.ok.inj h]
    exact partialDiagnostic_answered hsound hd
  · rw [← Except.ok.inj h]
    exact .inl rfl

private theorem afterUnknown_answered (hsound : SoundSolver env) {deadline : ℚ} {reading : Nat}
    {fullRun : SolverRunTelemetry}
    (h : afterUnknown planner env p (solverCandidates p) rejections deadline reading fullRun =
      .ok result) : AnsweredSteps planner env p result.scheduledSteps := by
  unfold afterUnknown at h
  obtain ⟨d, hd, h⟩ := bind_eq_ok.mp h
  split at h
  · rw [← Except.ok.inj h]
    exact .inl rfl
  · split at h
    · rw [← Except.ok.inj h]
      exact partialDiagnostic_answered hsound hd
    · rw [← Except.ok.inj h]
      exact partialDiagnostic_answered hsound hd

/-- A returned plan has no steps or those of an answer of the solver. -/
theorem plan_answeredSteps (hsound : SoundSolver env) (h : plan planner env p = .ok result) :
    AnsweredSteps planner env p result.scheduledSteps := by
  simp only [plan] at h
  split at h
  · rw [← Except.ok.inj h]
    exact .inl rfl
  split at h
  · obtain ⟨artifacts, hp, h⟩ := bind_eq_ok.mp h
    obtain ⟨hv, rfl⟩ := postedModel_ok hp
    dsimp only at h
    generalize hr : env.solve _ _ _ _ = response at h
    cases hstatus : response.status with
    | optimal =>
      simp only [hstatus] at h
      exact afterSolved_answered hsound hv hr (.inl hstatus) h
    | feasible =>
      simp only [hstatus] at h
      exact afterSolved_answered hsound hv hr (.inr hstatus) h
    | infeasible =>
      simp only [hstatus] at h
      exact afterInfeasible_answered hsound h
    | unknown =>
      simp only [hstatus] at h
      exact afterUnknown_answered hsound h
    | modelInvalid => simp [hstatus] at h
  · exact afterInfeasible_answered hsound h

/-- Steps that are answered are planned. -/
theorem AnsweredSteps.plannedSteps {steps : List ScheduledRouteStep}
    (h : AnsweredSteps planner env p steps) : PlannedSteps p steps := by
  refine h.imp id ?_
  rintro ⟨hv, σ, -, hroute⟩
  exact ⟨hv, σ, hroute⟩

/-- The steps of a plan do distinct activities. -/
theorem PlannedSteps.distinctActions {steps : List ScheduledRouteStep} (h : PlannedSteps p steps) :
    (steps.map (·.actionId)).Nodup := by
  rcases h with rfl | ⟨-, σ, hroute⟩
  · exact List.nodup_nil
  · exact hroute.distinctActions

end Plans

end Jobtology.Planning
