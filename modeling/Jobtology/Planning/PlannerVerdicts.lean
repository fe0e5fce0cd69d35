import Jobtology.Planning.Planner

/-!
# Planner verdicts are sound

What the verdict of the planner says about the returned steps and about the existence of a route,
for every solver that reports only what is true of the models it is given.
-/

namespace Jobtology.Planning

open Jobtology.Base Jobtology.Cp Jobtology.Time

/-- A solver that reports a solution only with a satisfying assignment, and infeasibility only
when there is none. It may report anything else at any time. -/
def SoundSolver (env : SolverEnvironment) : Prop :=
  ∀ phase model settings workers,
    let response := env.solve phase model settings workers
    (response.status = .optimal ∨ response.status = .feasible → model.Satisfies response.value) ∧
      (response.status = .infeasible → ∀ σ, ¬ model.Satisfies σ)

/-- Some step has the requirement among its outcomes. -/
def Covers (steps : List ScheduledRouteStep) (key : String) : Prop :=
  ∃ s ∈ steps, key ∈ s.outcomeRequirementKeys

/-- A blocker names a required requirement. -/
def BlocksRequired (p : PlanningProblem) : CandidateBlocker → Prop
  | .insufficientAnalysis _ => False
  | .needsInput key _ _ => key ∈ p.requiredRequirementKeys
  | .noActivities key _ _ => key ∈ p.requiredRequirementKeys

/-- The analysis behind the candidates is insufficient. -/
def AnalysisInsufficient (p : PlanningProblem) : Prop :=
  ∃ analysisId, CandidateBlocker.insufficientAnalysis analysisId ∈ p.candidateBlockers

/-- No assignment of the posted constraints covers every required requirement, whether or not the
solver shortcuts are posted. -/
def NoCoveringRoute (p : PlanningProblem) : Prop :=
  (∀ σ, ¬ (routeModel p (solverCandidates p) true).Satisfies σ) ∧
    ∀ σ, ¬ (modelWithoutShortcuts p (solverCandidates p) true).Satisfies σ

private theorem noCoveringRoute_of_routeModel {p : PlanningProblem}
    (h : ∀ σ, ¬ (routeModel p (solverCandidates p) true).Satisfies σ) : NoCoveringRoute p := by
  refine ⟨h, fun σ hσ ↦ ?_⟩
  obtain ⟨τ, -, hτ⟩ := satisfies_of_withoutShortcuts hσ
  exact h τ hτ

/-! ### Coverage variables -/

/-- A coverage variable is one when some selected candidate has the requirement as an outcome, and
zero otherwise. -/
theorem covered_of_satisfies {p : PlanningProblem} {cs : List Candidate} {coverage : Bool}
    {σ : RouteVar → Int} (h : (routeModel p cs coverage).Satisfies σ) {key : String}
    (hkey : key ∈ p.requiredRequirementKeys) :
    (σ (.covered key) = 0 ∨ σ (.covered key) = 1) ∧
      (σ (.covered key) = 1 ↔
        ∃ c ∈ cs, key ∈ c.outcomeRequirementKeys ∧ σ (.selected c.actionId) = 1) := by
  have hlaws := routeLaws_of_satisfies h
  obtain ⟨hd, hc⟩ := h
  simp only [routeModel, Model.inDomain_append, Model.allHold_append] at hd hc
  have hmem : key ∈ sortedSet (p.requiredRequirementKeys ∪ p.preferredRequirementKeys) := by
    rw [mem_sortedSet]
    exact Finset.mem_union_left _ hkey
  have h01 := Model.inDomain_boolVars σ RouteVar.covered _ hd.1.1.2 key hmem
  have hcov := hc.1.2
  simp only [coverageConstraints, Model.allHold_flatMap, Model.allHold_append] at hcov
  have hmax := (hcov key hmem).1
  refine ⟨h01, ?_⟩
  split at hmax
  · next hnone =>
    have hzero : σ (.covered key) = 0 := by simpa using hmax
    rw [List.map_eq_nil_iff, List.filter_eq_nil_iff] at hnone
    constructor
    · intro hone
      omega
    · rintro ⟨c, hcm, hout, -⟩
      exact absurd hout (by simpa using hnone c hcm)
  · simp only [Model.allHold_cons, Constraint.Holds, eval_expr] at hmax
    obtain ⟨⟨hle, e, he, hv⟩, -⟩ := hmax
    constructor
    · intro hone
      obtain ⟨c, hcm, rfl⟩ := List.mem_map.mp he
      obtain ⟨hm, hout⟩ := List.mem_filter.mp hcm
      exact ⟨c, hm, by simpa using hout, by simpa [hone] using hv⟩
    · rintro ⟨c, hcm, hout, hsel⟩
      have hge := hle _ (List.mem_map.mpr ⟨c, List.mem_filter.mpr ⟨hcm, by simpa using hout⟩, rfl⟩)
      rw [eval_expr, hsel] at hge
      omega

/-- The coverage variables of a solution say what its decoded steps cover. -/
theorem covers_iff {p : PlanningProblem} {cs : List Candidate} {coverage : Bool}
    {σ : RouteVar → Int} {steps : List ScheduledRouteStep}
    (h : (routeModel p cs coverage).Satisfies σ) (hdec : DecodedRoute p cs σ steps) {key : String}
    (hkey : key ∈ p.requiredRequirementKeys) : Covers steps key ↔ σ (.covered key) = 1 := by
  rw [(covered_of_satisfies h hkey).2]
  constructor
  · rintro ⟨s, hs, hout⟩
    obtain ⟨c, hc, hsel, hstep⟩ := hdec.candidate_of_step hs
    rw [hstep.outcomes, mem_sortedSet] at hout
    exact ⟨c, hc, hout, hsel⟩
  · rintro ⟨c, hc, hout, hsel⟩
    obtain ⟨s, hs, hstep⟩ := hdec.step_of_selected hc hsel
    refine ⟨s, hs, ?_⟩
    rw [hstep.outcomes, mem_sortedSet]
    exact hout

/-- A solution without the coverage requirement that covers everything required is a solution with
it. -/
theorem satisfies_full_of_covered {p : PlanningProblem} {cs : List Candidate}
    {σ : RouteVar → Int} (h : (routeModel p cs false).Satisfies σ)
    (hall : ∀ key ∈ p.requiredRequirementKeys, σ (.covered key) = 1) :
    (routeModel p cs true).Satisfies σ := by
  obtain ⟨hd, hc⟩ := h
  refine ⟨hd, ?_⟩
  simp only [routeModel, Model.allHold_append] at hc ⊢
  obtain ⟨⟨hrest, hcov⟩, hobjective⟩ := hc
  refine ⟨⟨hrest, ?_⟩, hobjective⟩
  simp only [coverageConstraints, Model.allHold_flatMap, Model.allHold_append] at hcov ⊢
  intro key hkey
  refine ⟨(hcov key hkey).1, ?_⟩
  split
  · next hreq => simpa using hall key hreq.2
  · simp

/-! ### The two solves -/

section Solves

variable {planner : CpSatRoutePlanner} {env : SolverEnvironment} {p : PlanningProblem}
  {cs : List Candidate}

/-- A model is posted for valid candidates. -/
theorem postedModel_ok {coverage : Bool} {artifacts : RouteModelArtifacts}
    (h : postedModel p cs coverage = .ok artifacts) :
    validateCandidates cs = .ok () ∧ artifacts = ⟨routeModel p cs coverage, cs⟩ := by
  rw [← buildRouteModel_ok_iff]
  unfold postedModel at h
  cases hb : buildRouteModel p cs coverage with
  | error e => simp [hb, Except.mapError] at h
  | ok a => simpa [hb, Except.mapError] using h

/-- Steps decoded from a solution form a decoded route. -/
theorem decodedRoute_of_decodedSteps {coverage : Bool} {σ : RouteVar → Int}
    {steps : List ScheduledRouteStep} (hv : validateCandidates cs = .ok ())
    (hσ : (routeModel p cs coverage).Satisfies σ)
    (h : decodedSteps p ⟨routeModel p cs coverage, cs⟩ σ = .ok steps) :
    DecodedRoute p cs σ steps := by
  obtain ⟨found, hfound, hdec⟩ :=
    decodedRoute_of_laws (m := routeModel p cs coverage) hv (routeLaws_of_satisfies hσ)
  unfold decodedSteps at h
  rw [hfound] at h
  obtain rfl := Except.ok.inj h
  exact hdec

/-- A diagnostic is only made for valid candidates. -/
theorem validateCandidates_of_partialDiagnostic {deadline : ℚ} {reading : Nat}
    {d : PartialRouteDiagnostic} (h : partialDiagnostic planner env p cs deadline reading = .ok d) :
    validateCandidates cs = .ok () := by
  unfold partialDiagnostic at h
  cases hp : postedModel p cs false with
  | error e => simp [hp, bind, Except.bind] at h
  | ok artifacts => exact (postedModel_ok hp).1

/-- A diagnostic with steps comes from a solution without the coverage requirement, and its unmet
keys are the required keys that the steps do not cover. -/
theorem partialDiagnostic_spec (hsound : SoundSolver env) {deadline : ℚ} {reading : Nat}
    {d : PartialRouteDiagnostic}
    (h : partialDiagnostic planner env p cs deadline reading = .ok d)
    (hne : d.scheduledSteps ≠ []) :
    (∀ key, key ∈ d.unmetRequiredRequirementKeys ↔
      key ∈ p.requiredRequirementKeys ∧ ¬ Covers d.scheduledSteps key) ∧
    (d.unmetRequiredRequirementKeys = [] → ∃ σ, (routeModel p cs true).Satisfies σ) := by
  unfold partialDiagnostic at h
  cases hp : postedModel p cs false with
  | error e => simp [hp, bind, Except.bind] at h
  | ok artifacts =>
    obtain ⟨hv, rfl⟩ := postedModel_ok hp
    simp only [hp, bind, Except.bind] at h
    generalize hr : env.solve _ _ _ _ = response at h
    have hs := hsound .partialCoverage (routeModel p cs false)
      (remainingSettings deadline (env.monotonic reading)) planner.workerCount
    simp only [hr] at hs
    have hsolved (hstatus : response.status = .optimal ∨ response.status = .feasible)
        {steps : List ScheduledRouteStep} {run : Option SolverRunTelemetry}
        (hsteps : decodedSteps p ⟨routeModel p cs false, cs⟩ response.value = .ok steps)
        (hd : d = ⟨(sortedSet p.requiredRequirementKeys).filter fun key ↦
          response.value (.covered key) = 0, steps, run⟩) :
        (∀ key, key ∈ d.unmetRequiredRequirementKeys ↔
          key ∈ p.requiredRequirementKeys ∧ ¬ Covers d.scheduledSteps key) ∧
        (d.unmetRequiredRequirementKeys = [] → ∃ σ, (routeModel p cs true).Satisfies σ) := by
      have hσ := hs.1 hstatus
      have hdec := decodedRoute_of_decodedSteps hv hσ hsteps
      have hunmet (key : String) : key ∈ d.unmetRequiredRequirementKeys ↔
          key ∈ p.requiredRequirementKeys ∧ response.value (.covered key) = 0 := by
        rw [hd, List.mem_filter, mem_sortedSet, decide_eq_true_iff]
      refine ⟨fun key ↦ ?_, fun hnil ↦ ⟨response.value, satisfies_full_of_covered hσ ?_⟩⟩
      · rw [hunmet, hd]
        refine and_congr_right fun hkey ↦ ?_
        rw [covers_iff hσ hdec hkey]
        have h01 := (covered_of_satisfies hσ hkey).1
        omega
      · intro key hkey
        refine (covered_of_satisfies hσ hkey).1.resolve_left fun hzero ↦ ?_
        have hm := (hunmet key).mpr ⟨hkey, hzero⟩
        simp [hnil] at hm
    cases hstatus : response.status with
    | optimal =>
      simp only [hstatus] at h
      cases hsteps : decodedSteps p ⟨routeModel p cs false, cs⟩ response.value with
      | error e => simp [hsteps] at h
      | ok steps =>
        simp only [hsteps, pure, Except.pure, Except.ok.injEq] at h
        exact hsolved (.inl hstatus) hsteps h.symm
    | feasible =>
      simp only [hstatus] at h
      cases hsteps : decodedSteps p ⟨routeModel p cs false, cs⟩ response.value with
      | error e => simp [hsteps] at h
      | ok steps =>
        simp only [hsteps, pure, Except.pure, Except.ok.injEq] at h
        exact hsolved (.inr hstatus) hsteps h.symm
    | infeasible =>
      simp only [hstatus, pure, Except.pure, Except.ok.injEq] at h
      exact absurd (by rw [← h]) hne
    | unknown =>
      simp only [hstatus, pure, Except.pure, Except.ok.injEq] at h
      exact absurd (by rw [← h]) hne
    | modelInvalid => simp [hstatus] at h

end Solves

/-! ### Verdicts -/

/-- What each verdict promises. An insufficient analysis is rejected before anything is known
about its requirements. -/
structure SoundVerdict (p : PlanningProblem) (result : PlanningResult) : Prop where
  regular : result.feasibility = some .feasible ∨ result.feasibility = some .risky →
    ∀ key ∈ p.requiredRequirementKeys, Covers result.scheduledSteps key
  partialRoute : result.feasibility = some .partialRoute → result.scheduledSteps ≠ [] ∧
    (∃ key ∈ p.requiredRequirementKeys, ¬ Covers result.scheduledSteps key) ∧
    ∃ d, result.trace.partialRouteDiagnostic = some d ∧
      ∀ key, key ∈ d.unmetRequiredRequirementKeys ↔
        key ∈ p.requiredRequirementKeys ∧ ¬ Covers result.scheduledSteps key
  infeasible : result.feasibility = some .infeasible →
    AnalysisInsufficient p ∨ (∃ b ∈ p.candidateBlockers, BlocksRequired p b) ∨
      (∃ key ∈ p.requiredRequirementKeys, ∀ c ∈ p.candidates, key ∉ c.outcomeRequirementKeys) ∨
      NoCoveringRoute p
  absent : result.feasibility = none →
    result.optimizationStatus = .timeout ∧ result.scheduledSteps = []

section Verdicts

variable {planner : CpSatRoutePlanner} {env : SolverEnvironment} {p : PlanningProblem}
  {rejections : List RouteRejection} {result : PlanningResult}

private theorem mem_candidateOutcomes (cs : List Candidate) (key : String) :
    key ∈ candidateOutcomes cs ↔ ∃ c ∈ cs, key ∈ c.outcomeRequirementKeys := by
  induction cs with
  | nil => simp [candidateOutcomes]
  | cons c cs ih =>
    change key ∈ c.outcomeRequirementKeys ∪ candidateOutcomes cs ↔ _
    rw [Finset.mem_union, ih]
    simp

/-- The preflight rejects only blocked or unplannable requirements. -/
theorem preflight_spec (h : (preflight p (solverCandidates p)).2 = true) :
    AnalysisInsufficient p ∨ (∃ b ∈ p.candidateBlockers, BlocksRequired p b) ∨
      ∃ key ∈ p.requiredRequirementKeys, ∀ c ∈ p.candidates, key ∉ c.outcomeRequirementKeys := by
  simp only [preflight, Bool.or_eq_true] at h
  rcases h with h | h
  · rw [List.any_map] at h
    obtain ⟨b, hb, hflag⟩ := List.any_eq_true.mp h
    cases b with
    | insufficientAnalysis analysisId => exact .inl ⟨analysisId, hb⟩
    | needsInput key label refs =>
      exact .inr (.inl ⟨_, hb, by simpa [blockerRejection, BlocksRequired] using hflag⟩)
    | noActivities key label refs =>
      exact .inr (.inl ⟨_, hb, by simpa [blockerRejection, BlocksRequired] using hflag⟩)
  · cases hu : uncoverableKeys p (solverCandidates p) with
    | nil => simp [hu] at h
    | cons key rest =>
      have hm : key ∈ uncoverableKeys p (solverCandidates p) := by simp [hu]
      rw [uncoverableKeys, mem_sortedSet, Finset.mem_sdiff, mem_candidateOutcomes] at hm
      refine .inr (.inr ⟨key, hm.1, fun c hc hout ↦ hm.2 ⟨c, ?_, hout⟩⟩)
      exact (List.mem_insertionSort _).mpr hc

private theorem routeFeasibility_cases (p : PlanningProblem) (steps : List ScheduledRouteStep) :
    routeFeasibility p steps = .feasible ∨ routeFeasibility p steps = .risky := by
  simp only [routeFeasibility]
  split <;> simp

/-- The steps of a solution with the coverage requirement cover everything required. -/
theorem covers_of_full {cs : List Candidate} {σ : RouteVar → Int}
    {steps : List ScheduledRouteStep} (hσ : (routeModel p cs true).Satisfies σ)
    (hdec : DecodedRoute p cs σ steps) (key : String) (hkey : key ∈ p.requiredRequirementKeys) :
    Covers steps key := by
  rw [covers_iff hσ hdec hkey]
  have hc := hσ.2
  simp only [routeModel, Model.allHold_append] at hc
  obtain ⟨c, hcm, hout, hsel⟩ := exists_selected_of_required hc.1.2 hkey
  exact (covered_of_satisfies hσ hkey).2.mpr ⟨c, hcm, hout, hsel⟩

private theorem soundVerdict_regular {workers : Nat} {cs : List Candidate}
    {status : OptimizationStatus} {steps : List ScheduledRouteStep}
    {solverRuns : List SolverRunTelemetry}
    (h : ∀ key ∈ p.requiredRequirementKeys, Covers steps key) :
    SoundVerdict p (planningResult workers p cs (some (routeFeasibility p steps)) status steps
      rejections none solverRuns) := by
  have hcases := routeFeasibility_cases p steps
  constructor
  case regular => exact fun _ ↦ h
  all_goals
    intro hf
    rcases hcases with hc | hc <;> simp [planningResult, hc] at hf

private theorem afterSolved_sound (hsound : SoundSolver env) {cs : List Candidate}
    (hv : validateCandidates cs = .ok ()) {settings : SolverSettings} {response : SolverResponse}
    (hr : env.solve .full (routeModel p cs true) settings planner.workerCount = response)
    (hstatus : response.status = .optimal ∨ response.status = .feasible)
    {status : OptimizationStatus} {fullRun : SolverRunTelemetry}
    (h : afterSolved planner p cs rejections ⟨routeModel p cs true, cs⟩ response status fullRun =
      .ok result) : SoundVerdict p result := by
  have hs := hsound .full (routeModel p cs true) settings planner.workerCount
  simp only [hr] at hs
  have hσ := hs.1 hstatus
  unfold afterSolved at h
  cases hsteps : decodedSteps p ⟨routeModel p cs true, cs⟩ response.value with
  | error e => simp [hsteps, bind, Except.bind] at h
  | ok steps =>
    simp only [hsteps, bind, Except.bind, pure, Except.pure, Except.ok.injEq] at h
    rw [← h]
    exact soundVerdict_regular
      (covers_of_full hσ (decodedRoute_of_decodedSteps hv hσ hsteps))

/-- A diagnostic with steps and an unmet requirement makes a sound partial verdict. -/
theorem soundVerdict_partial {cs : List Candidate} {workers : Nat}
    {status : OptimizationStatus} {d : PartialRouteDiagnostic}
    {solverRuns : List SolverRunTelemetry}
    (hunmet : ∀ key, key ∈ d.unmetRequiredRequirementKeys ↔
      key ∈ p.requiredRequirementKeys ∧ ¬ Covers d.scheduledSteps key)
    (hsteps : d.scheduledSteps ≠ []) (hne : d.unmetRequiredRequirementKeys ≠ []) :
    SoundVerdict p (planningResult workers p cs (some .partialRoute) status d.scheduledSteps
      rejections (some d) solverRuns) := by
  constructor
  case partialRoute =>
    intro _
    obtain ⟨key, hkey⟩ := List.exists_mem_of_ne_nil _ hne
    exact ⟨hsteps, ⟨key, (hunmet key).mp hkey⟩, d, rfl, hunmet⟩
  all_goals
    intro hf
    simp [planningResult] at hf

private theorem afterInfeasible_sound (hsound : SoundSolver env)
    (hnone : validateCandidates (solverCandidates p) = .ok () →
      ∀ σ, ¬ (routeModel p (solverCandidates p) true).Satisfies σ) {deadline : ℚ}
    {reading : Nat} {fullRun : SolverRunTelemetry}
    (h : afterInfeasible planner env p (solverCandidates p) rejections deadline reading fullRun =
      .ok result) : SoundVerdict p result := by
  unfold afterInfeasible at h
  cases hd : partialDiagnostic planner env p (solverCandidates p) deadline reading with
  | error e => simp [hd, bind, Except.bind] at h
  | ok d =>
    have hnone := hnone (validateCandidates_of_partialDiagnostic hd)
    simp only [hd, bind, Except.bind, pure, Except.pure] at h
    split at h
    · next hsteps =>
      obtain ⟨hunmet, hfull⟩ := partialDiagnostic_spec hsound hd hsteps
      rw [← Except.ok.inj h]
      refine soundVerdict_partial hunmet hsteps fun hnil ↦ ?_
      obtain ⟨σ, hσ⟩ := hfull hnil
      exact hnone σ hσ
    · rw [← Except.ok.inj h]
      constructor
      case infeasible =>
        exact fun _ ↦ .inr (.inr (.inr (noCoveringRoute_of_routeModel hnone)))
      all_goals
        intro hf
        simp [planningResult] at hf

private theorem afterUnknown_sound (hsound : SoundSolver env) {deadline : ℚ} {reading : Nat}
    {fullRun : SolverRunTelemetry}
    (h : afterUnknown planner env p (solverCandidates p) rejections deadline reading fullRun =
      .ok result) : SoundVerdict p result := by
  unfold afterUnknown at h
  cases hd : partialDiagnostic planner env p (solverCandidates p) deadline reading with
  | error e => simp [hd, bind, Except.bind] at h
  | ok d =>
    simp only [hd, bind, Except.bind, pure, Except.pure] at h
    split at h
    · rw [← Except.ok.inj h]
      constructor
      case absent => exact fun _ ↦ ⟨rfl, rfl⟩
      all_goals
        intro hf
        simp [planningResult] at hf
    · next hsteps =>
      obtain ⟨hunmet, -⟩ := partialDiagnostic_spec hsound hd hsteps
      split at h
      · next hne =>
        rw [← Except.ok.inj h]
        exact soundVerdict_partial hunmet hsteps hne
      · next hnil =>
        rw [← Except.ok.inj h]
        refine soundVerdict_regular fun key hkey ↦ ?_
        by_contra hcov
        have hm := (hunmet key).mpr ⟨hkey, hcov⟩
        rw [not_not.mp hnil] at hm
        simp at hm

end Verdicts

/-- For every problem and every sound solver, a returned verdict is sound.
`src/jobtology_be/planning/cp_sat_planner.py:43–173,201–285`,
`src/jobtology_be/planning/cp_sat_results.py:71–85`. -/
theorem plan_soundVerdict (planner : CpSatRoutePlanner) (env : SolverEnvironment)
    (hsound : SoundSolver env) (p : PlanningProblem) (result : PlanningResult)
    (h : plan planner env p = .ok result) : SoundVerdict p result := by
  simp only [plan] at h
  split at h
  · next hpre =>
    rw [← Except.ok.inj h]
    constructor
    case infeasible =>
      intro _
      rcases preflight_spec hpre with h1 | h2 | h3
      · exact .inl h1
      · exact .inr (.inl h2)
      · exact .inr (.inr (.inl h3))
    all_goals
      intro hf
      simp [planningResult] at hf
  · split at h
    · cases hp : postedModel p (solverCandidates p) true with
      | error e => simp [hp, bind, Except.bind] at h
      | ok artifacts =>
        obtain ⟨hv, rfl⟩ := postedModel_ok hp
        simp only [hp, bind, Except.bind] at h
        generalize hr : env.solve _ _ _ _ = response at h
        cases hstatus : response.status with
        | optimal =>
          simp only [hstatus] at h
          exact afterSolved_sound hsound hv hr (.inl hstatus) h
        | feasible =>
          simp only [hstatus] at h
          exact afterSolved_sound hsound hv hr (.inr hstatus) h
        | infeasible =>
          simp only [hstatus] at h
          have hs := hsound .full (routeModel p (solverCandidates p) true)
            (boundedFullSettings p (env.monotonic 0 + p.settings.timeLimitSeconds)
              (env.monotonic 1)) planner.workerCount
          simp only [hr] at hs
          exact afterInfeasible_sound hsound (fun _ ↦ hs.2 hstatus) h
        | unknown =>
          simp only [hstatus] at h
          exact afterUnknown_sound hsound h
        | modelInvalid => simp [hstatus] at h
    · next hcap =>
      refine afterInfeasible_sound hsound (fun hv ↦ ?_) h
      exact not_satisfies_of_not_fullCapacityPossible hv (by simpa using hcap)

/-! ### Returning a verdict -/

private theorem exists_decodedSteps {p : PlanningProblem} {cs : List Candidate} {coverage : Bool}
    {σ : RouteVar → Int} (hv : validateCandidates cs = .ok ())
    (hσ : (routeModel p cs coverage).Satisfies σ) :
    ∃ steps, decodedSteps p ⟨routeModel p cs coverage, cs⟩ σ = .ok steps := by
  obtain ⟨steps, hsteps, -⟩ :=
    decodedRoute_of_laws (m := routeModel p cs coverage) hv (routeLaws_of_satisfies hσ)
  exact ⟨steps, by simp [decodedSteps, hsteps]⟩

/-- The solver reports a model of the problem as invalid, which the planner raises. -/
def RejectedModel (planner : CpSatRoutePlanner) (env : SolverEnvironment) (p : PlanningProblem)
    {α : Type} (x : Except PlanError α) : Prop :=
  x = .error (.unexpectedCpSatStatus .modelInvalid) ∧ ∃ phase coverage settings,
    (env.solve phase (routeModel p (solverCandidates p) coverage) settings
      planner.workerCount).status = .modelInvalid

section Returns

variable {planner : CpSatRoutePlanner} {env : SolverEnvironment} {p : PlanningProblem}

private theorem RejectedModel.bind {α β : Type} {x : Except PlanError α}
    (h : RejectedModel planner env p x) (f : α → Except PlanError β) :
    RejectedModel planner env p (x >>= f) := by
  obtain ⟨rfl, hstatus⟩ := h
  exact ⟨rfl, hstatus⟩

private theorem partialDiagnostic_returns (hsound : SoundSolver env)
    (hv : validateCandidates (solverCandidates p) = .ok ()) (deadline : ℚ) (reading : Nat) :
    (∃ d, partialDiagnostic planner env p (solverCandidates p) deadline reading = .ok d) ∨
      RejectedModel planner env p
        (partialDiagnostic planner env p (solverCandidates p) deadline reading) := by
  have hpost : postedModel p (solverCandidates p) false =
      .ok ⟨routeModel p (solverCandidates p) false, solverCandidates p⟩ := by
    simp [postedModel, (buildRouteModel_ok_iff p _ false _).mpr ⟨hv, rfl⟩, Except.mapError]
  simp only [partialDiagnostic, hpost, bind, Except.bind]
  have hs := hsound .partialCoverage (routeModel p (solverCandidates p) false)
    (remainingSettings deadline (env.monotonic reading)) planner.workerCount
  generalize hresponse : env.solve .partialCoverage (routeModel p (solverCandidates p) false)
    (remainingSettings deadline (env.monotonic reading)) planner.workerCount = response at hs ⊢
  cases hr : response.status with
  | optimal =>
    left
    obtain ⟨steps, hsteps⟩ := exists_decodedSteps hv (hs.1 (.inl hr))
    simp [hsteps, pure, Except.pure]
  | feasible =>
    left
    obtain ⟨steps, hsteps⟩ := exists_decodedSteps hv (hs.1 (.inr hr))
    simp [hsteps, pure, Except.pure]
  | infeasible => simp [pure, Except.pure]
  | unknown => simp [pure, Except.pure]
  | modelInvalid => exact .inr ⟨rfl, _, _, _, hresponse ▸ hr⟩

end Returns

/-- With valid candidates and a sound solver the planner returns, or the solver rejects a model. -/
theorem plan_returns (planner : CpSatRoutePlanner) {env : SolverEnvironment}
    (hsound : SoundSolver env) (p : PlanningProblem)
    (hv : validateCandidates (solverCandidates p) = .ok ()) :
    (∃ result, plan planner env p = .ok result) ∨
      RejectedModel planner env p (plan planner env p) := by
  have hinfeasible (rejections : List RouteRejection) (deadline : ℚ) (reading : Nat)
      (run : SolverRunTelemetry) :
      (∃ result, afterInfeasible planner env p (solverCandidates p) rejections deadline reading
        run = .ok result) ∨
      RejectedModel planner env p (afterInfeasible planner env p (solverCandidates p) rejections
        deadline reading run) := by
    rcases @partialDiagnostic_returns planner _ _ hsound hv deadline reading with
      ⟨d, hd⟩ | hrejected
    · left
      simp only [afterInfeasible, hd, bind, Except.bind, pure, Except.pure]
      split <;> exact ⟨_, rfl⟩
    · exact .inr (hrejected.bind _)
  have hunknown (rejections : List RouteRejection) (deadline : ℚ) (reading : Nat)
      (run : SolverRunTelemetry) :
      (∃ result, afterUnknown planner env p (solverCandidates p) rejections deadline reading
        run = .ok result) ∨
      RejectedModel planner env p (afterUnknown planner env p (solverCandidates p) rejections
        deadline reading run) := by
    rcases @partialDiagnostic_returns planner _ _ hsound hv deadline reading with
      ⟨d, hd⟩ | hrejected
    · left
      simp only [afterUnknown, hd, bind, Except.bind, pure, Except.pure]
      split
      · exact ⟨_, rfl⟩
      · split <;> exact ⟨_, rfl⟩
    · exact .inr (hrejected.bind _)
  simp only [plan]
  split
  · exact .inl ⟨_, rfl⟩
  split
  · have hpost : postedModel p (solverCandidates p) true =
        .ok ⟨routeModel p (solverCandidates p) true, solverCandidates p⟩ := by
      simp [postedModel, (buildRouteModel_ok_iff p _ true _).mpr ⟨hv, rfl⟩, Except.mapError]
    simp only [hpost, bind, Except.bind]
    generalize boundedFullSettings p _ _ = settings
    have hs := hsound .full (routeModel p (solverCandidates p) true) settings planner.workerCount
    generalize hresponse : env.solve .full (routeModel p (solverCandidates p) true) settings
      planner.workerCount = response at hs ⊢
    cases hr : response.status with
    | optimal =>
      obtain ⟨steps, hsteps⟩ := exists_decodedSteps hv (hs.1 (.inl hr))
      simp [afterSolved, hsteps, bind, Except.bind, pure, Except.pure]
    | feasible =>
      obtain ⟨steps, hsteps⟩ := exists_decodedSteps hv (hs.1 (.inr hr))
      simp [afterSolved, hsteps, bind, Except.bind, pure, Except.pure]
    | infeasible => exact hinfeasible _ _ _ _
    | unknown => exact hunknown _ _ _ _
    | modelInvalid => exact .inr ⟨rfl, _, _, _, hresponse ▸ hr⟩
  · exact hinfeasible _ _ _ _

/-- With valid candidates and a sound solver that accepts the models, the planner returns. -/
theorem exists_plan (planner : CpSatRoutePlanner) {env : SolverEnvironment}
    (hsound : SoundSolver env) (hstatus : ∀ phase model settings workers,
      (env.solve phase model settings workers).status ≠ .modelInvalid)
    (p : PlanningProblem) (hv : validateCandidates (solverCandidates p) = .ok ()) :
    ∃ result, plan planner env p = .ok result := by
  rcases plan_returns planner hsound p hv with hreturns | ⟨-, phase, coverage, settings, hs⟩
  · exact hreturns
  · exact absurd hs (hstatus phase _ settings _)

/-- A solver that knows one assignment and reports it where it satisfies the model. -/
def knownAssignmentSolver (σ : RouteVar → Int) : SolverEnvironment where
  monotonic n := n
  solve _ model _ _ :=
    ⟨if model.Satisfies σ then .optimal else .unknown, σ, 0, none⟩

/-- A solver that checks the assignment it knows is sound. -/
theorem knownAssignmentSolver_sound (σ : RouteVar → Int) :
    SoundSolver (knownAssignmentSolver σ) := by
  intro phase model settings workers
  simp only [knownAssignmentSolver]
  split
  · next h => simp [h]
  · simp

/-- It never calls a model invalid. -/
theorem knownAssignmentSolver_status (σ : RouteVar → Int) (phase : SolverPhase)
    (model : Model RouteVar) (settings : SolverSettings) (workers : Nat) :
    ((knownAssignmentSolver σ).solve phase model settings workers).status ≠ .modelInvalid := by
  simp only [knownAssignmentSolver]
  split <;> simp

/-- A problem whose analysis had no data: nothing is required and nothing is planned. -/
def insufficientProblem : PlanningProblem :=
  { sampleProblem.toPlanningProblemData with
    candidates := [], candidateBlockers := [.insufficientAnalysis "analysis"]
    requiredRequirementKeys := ∅
    accepted := by decide }

/-- The assignment of the empty route. -/
def emptyAssignment : RouteVar → Int
  | .timeRemaining => 10 * hour
  | .timePoints => 10000
  | _ => 0

/-- The sample problem is planned with a sound verdict. -/
theorem plan_soundVerdict_sample :
    ∃ result, plan ⟨1, le_refl 1⟩ (knownAssignmentSolver sampleAssignment) sampleProblem =
      .ok result ∧ SoundVerdict sampleProblem result := by
  have hsound := knownAssignmentSolver_sound sampleAssignment
  obtain ⟨result, h⟩ := exists_plan ⟨1, le_refl 1⟩ hsound
    (knownAssignmentSolver_status sampleAssignment) sampleProblem (by decide)
  exact ⟨result, h, plan_soundVerdict ⟨1, le_refl 1⟩ (knownAssignmentSolver sampleAssignment)
    hsound sampleProblem result h⟩

/-- An insufficient analysis is reported infeasible although no required requirement is blocked or
without an activity and the empty route covers everything required. -/
theorem plan_infeasible_of_insufficient :
    SoundSolver (knownAssignmentSolver emptyAssignment) ∧
    ∃ result, plan ⟨1, le_refl 1⟩ (knownAssignmentSolver emptyAssignment) insufficientProblem =
        .ok result ∧ result.feasibility = some .infeasible ∧
      (∀ b ∈ insufficientProblem.candidateBlockers, ¬ BlocksRequired insufficientProblem b) ∧
      (∀ key ∈ insufficientProblem.requiredRequirementKeys,
        ∃ c ∈ insufficientProblem.candidates, key ∈ c.outcomeRequirementKeys) ∧
      (routeModel insufficientProblem (solverCandidates insufficientProblem) true).Satisfies
        emptyAssignment :=
  ⟨knownAssignmentSolver_sound emptyAssignment, _, rfl, rfl, by
    simp [insufficientProblem, BlocksRequired], by decide, by decide⟩

end Jobtology.Planning
