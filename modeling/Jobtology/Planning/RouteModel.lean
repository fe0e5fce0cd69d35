import Jobtology.Cp.Model
import Jobtology.Planning.ScheduleHint

/-!
# The constraint model of a route

`build_route_model` of `planning/cp_sat_model.py` and everything it calls. The posted constraints
are data of the constraint library, in groups that follow the statements of the source.
-/

namespace Jobtology.Planning

open Jobtology.Base Jobtology.Cp

/-- `NORMALIZED_SCORE_MAXIMUM`. -/
def normalizedScoreMaximum : Int := 10000

/-- `PARTIAL_REQUIRED_COVERAGE_WEIGHT`. -/
def partialRequiredCoverageWeight : Int := 100 * normalizedScoreMaximum + 1

/-- The variables of a route model. -/
inductive RouteVar
  | selected (actionId : String)
  | assigned (actionId : String) (slotIndex : Nat)
  | completion (actionId : String)
  | covered (requirementKey : String)
  | routeCompletion
  | totalSelectedHours
  | earliestCapacityCompletion
  | coveragePoints
  | timeRemaining
  | timePoints
  | costPoints
  | costCredit
  | unknownCostSelected
  | foundationPriorityPoints
  deriving DecidableEq

/-- Expressions over the route variables. -/
abbrev RouteExpr := LinearExpr RouteVar

/-- A route variable as an expression. -/
def RouteVar.expr (v : RouteVar) : RouteExpr := .ofVar v

/-- A constant as an expression. -/
def const (k : Int) : RouteExpr := .ofInt k

/-- The value of a variable of the model. -/
@[simp] theorem eval_expr (σ : RouteVar → Int) (v : RouteVar) : v.expr.eval σ = σ v :=
  LinearExpr.eval_ofVar σ v

/-- The value of a constant of the model. -/
@[simp] theorem eval_const (σ : RouteVar → Int) (k : Int) : (const k).eval σ = k :=
  LinearExpr.eval_ofInt σ k

@[simp] private theorem within_expr (S : RouteVar → Prop) (v : RouteVar) : v.expr.Within S ↔ S v :=
  LinearExpr.within_ofVar S v

@[simp] private theorem within_const (S : RouteVar → Prop) (k : Int) : (const k).Within S :=
  LinearExpr.within_ofInt S k

/-- `_validate_candidates`. `src/jobtology_be/planning/cp_sat_model.py:203–212`. -/
def validateCandidates (cs : List Candidate) : Except InvalidPlanningProblemError Unit :=
  if ¬ (cs.map (·.actionId)).Nodup then .error ⟨"candidate action IDs must be unique"⟩
  else cs.forM fun c ↦
    if c.estimatedHours ≤ 0 then .error ⟨"candidate effort must be positive"⟩
    else if c.prerequisiteActionIds.any fun a ↦ a ∉ cs.map (·.actionId) then
      .error ⟨"candidate prerequisites must be included"⟩
    else .ok ()

/-- Accepted candidates have distinct ids, positive effort and present prerequisites. -/
theorem validateCandidates_ok_iff (cs : List Candidate) :
    validateCandidates cs = .ok () ↔
      (cs.map (·.actionId)).Nodup ∧ ∀ c ∈ cs, 0 < c.estimatedHours ∧
        ∀ a ∈ c.prerequisiteActionIds, a ∈ cs.map (·.actionId) := by
  unfold validateCandidates
  split
  · next h => simp [h]
  · next h =>
    rw [forM_ok_iff]
    refine ⟨fun hall ↦ ⟨by simpa using h, fun c hc ↦ ?_⟩, fun ⟨_, hall⟩ c hc ↦ ?_⟩
    · have hcheck := hall c hc
      split at hcheck
      · cases hcheck
      split at hcheck
      · cases hcheck
      next he hp => exact ⟨by omega, by simpa using hp⟩
    · obtain ⟨he, hp⟩ := hall c hc
      rw [if_neg (by omega), if_neg (by simpa using hp)]

/-- Sum over the distinct weeks of the slots of the number of slots in the week, each week
counted up to the weekly hours. -/
def capacityOf (weeklyHours : Int) (slots : List PlanningSlot) : Int :=
  let weeks := slots.map (·.capacityWeekKey)
  (weeks.dedup.map fun week ↦ min (weeks.count week : Int) weeklyHours).sum

/-- Hours of the calendar that one candidate could occupy. -/
def availableCapacity (p : PlanningProblem) (c : Candidate) : Int :=
  capacityOf p.constraints.availableHoursPerWeek
    (p.calendar.filter fun slot ↦ isAvailable slot (availabilityOf p c.actionId))

/-- `sum(assignments)` of one candidate. -/
def assignmentSum (p : PlanningProblem) (c : Candidate) : RouteExpr :=
  .sum (p.calendar.zipIdx.map fun s ↦ (RouteVar.assigned c.actionId s.2).expr)

/-! ### Constraints of one candidate -/

/-- Pre-exclusion of an activity longer than its available capacity. -/
def capacityExclusion (p : PlanningProblem) (c : Candidate) : List (Constraint RouteVar) :=
  if c.estimatedHours > availableCapacity p c then
    [.eq (RouteVar.selected c.actionId).expr (const 0)]
  else []

/-- A selected activity occupies exactly its estimated hours, an unselected one none. -/
def exactHours (p : PlanningProblem) (c : Candidate) : List (Constraint RouteVar) :=
  [.eq (assignmentSum p c) (c.estimatedHours * (RouteVar.selected c.actionId).expr)]

/-- No hour outside the candidate's availability window. -/
def windowExclusion (p : PlanningProblem) (c : Candidate) : List (Constraint RouteVar) :=
  (p.calendar.zipIdx.filter fun s ↦ !isAvailable s.1 (availabilityOf p c.actionId)).map fun s ↦
    .eq (RouteVar.assigned c.actionId s.2).expr (const 0)

/-- The end of the last occupied hour, zero for an unselected activity. -/
def completionDefinition (p : PlanningProblem) (c : Candidate) : List (Constraint RouteVar) :=
  [.maxEquality (RouteVar.completion c.actionId).expr
    (p.calendar.zipIdx.map fun s ↦
      microsecondsFromPlanningStart p s.1.endsAt * (RouteVar.assigned c.actionId s.2).expr)]

/-- Under a budget cap an activity of unknown cost is not selected. -/
def unknownCostExclusion (p : PlanningProblem) (c : Candidate) : List (Constraint RouteVar) :=
  match p.constraints.maxOutOfPocketKrw with
  | none => []
  | some _ =>
    match c.cost with
    | .unknown => [.eq (RouteVar.selected c.actionId).expr (const 0)]
    | .known _ => []

/-- Everything posted in the loop over candidates. -/
def candidateConstraints (p : PlanningProblem) (c : Candidate) : List (Constraint RouteVar) :=
  capacityExclusion p c ++ exactHours p c ++ windowExclusion p c ++ completionDefinition p c ++
    unknownCostExclusion p c

/-! ### Constraints between candidates -/

/-- At most one activity in each slot. -/
def slotConstraints (p : PlanningProblem) (cs : List Candidate) : List (Constraint RouteVar) :=
  p.calendar.zipIdx.map fun s ↦
    .le (.sum (cs.map fun c ↦ (RouteVar.assigned c.actionId s.2).expr)) (const 1)

/-- At most the weekly hours in each week. -/
def weekConstraints (p : PlanningProblem) (cs : List Candidate) : List (Constraint RouteVar) :=
  (sortedSet (p.calendar.map (·.capacityWeekKey)).toFinset).map fun week ↦
    .le (.sum (cs.flatMap fun c ↦
        (p.calendar.zipIdx.filter fun s ↦ s.1.capacityWeekKey = week).map fun s ↦
          (RouteVar.assigned c.actionId s.2).expr))
      (const p.constraints.availableHoursPerWeek)

/-- A selected activity has its prerequisites selected and finished before each of its hours. -/
def prerequisiteConstraints (p : PlanningProblem) (cs : List Candidate) :
    List (Constraint RouteVar) :=
  cs.flatMap fun c ↦ c.prerequisiteActionIds.flatMap fun a ↦
    .le (RouteVar.selected c.actionId).expr (RouteVar.selected a).expr ::
      p.calendar.zipIdx.map fun s ↦
        .onlyEnforceIf (.pos (.assigned c.actionId s.2))
          (.le (RouteVar.completion a).expr
            (const (microsecondsFromPlanningStart p s.1.startsAt)))

/-- Sum of the known costs of the selected activities. -/
def knownSpend (cs : List Candidate) : RouteExpr :=
  .sum (cs.map fun c ↦ knownCost c * (RouteVar.selected c.actionId).expr)

/-- The budget cap, when one is set. -/
def budgetConstraints (p : PlanningProblem) (cs : List Candidate) : List (Constraint RouteVar) :=
  match p.constraints.maxOutOfPocketKrw with
  | none => []
  | some cap => [.le (knownSpend cs) (const cap)]

/-- `_add_requirement_coverage`: the coverage variable of each requirement.
`src/jobtology_be/planning/cp_sat_model.py:231–256`. -/
def coverageConstraints (p : PlanningProblem) (cs : List Candidate)
    (requireRequiredCoverage : Bool) : List (Constraint RouteVar) :=
  (sortedSet (p.requiredRequirementKeys ∪ p.preferredRequirementKeys)).flatMap fun key ↦
    let matching := (cs.filter fun c ↦ key ∈ c.outcomeRequirementKeys).map fun c ↦
      (RouteVar.selected c.actionId).expr
    (if matching = [] then [.eq (RouteVar.covered key).expr (const 0)]
      else [.maxEquality (RouteVar.covered key).expr matching]) ++
    (if requireRequiredCoverage ∧ key ∈ p.requiredRequirementKeys then
      [.eq (RouteVar.covered key).expr (const 1)] else [])

/-! ### The objective -/

/-- The route completes when its last activity does. -/
def routeCompletionDefinition (cs : List Candidate) : List (Constraint RouteVar) :=
  if cs = [] then [.eq RouteVar.routeCompletion.expr (const 0)]
  else [.maxEquality RouteVar.routeCompletion.expr
    (cs.map fun c ↦ (RouteVar.completion c.actionId).expr)]

/-- The redundant bound: selected effort cannot finish before that many slots have passed. -/
def capacityCompletionBound (p : PlanningProblem) (cs : List Candidate) :
    List (Constraint RouteVar) :=
  [.eq RouteVar.totalSelectedHours.expr
      (.sum (cs.map fun c ↦ c.estimatedHours * (RouteVar.selected c.actionId).expr)),
    .element RouteVar.totalSelectedHours.expr
      (0 :: p.calendar.map fun slot ↦ microsecondsFromPlanningStart p slot.endsAt)
      RouteVar.earliestCapacityCompletion.expr,
    .le RouteVar.earliestCapacityCompletion.expr RouteVar.routeCompletion.expr]

/-- `_coverage_points`. `src/jobtology_be/planning/cp_sat_model.py:333–345`. -/
def coveragePointsDefinition (p : PlanningProblem) : List (Constraint RouteVar) :=
  if p.preferredRequirementKeys.card = 0 then [.eq RouteVar.coveragePoints.expr (const 0)]
  else [.divisionEquality RouteVar.coveragePoints.expr
    (normalizedScoreMaximum * LinearExpr.sum ((sortedSet p.preferredRequirementKeys).map fun key ↦
      (RouteVar.covered key).expr))
    (const p.preferredRequirementKeys.card)]

/-- Time points: the share of the horizon that remains after completion. -/
def timePointsDefinition (p : PlanningProblem) : List (Constraint RouteVar) :=
  let horizon := (objectiveSnapshot p).horizonMicroseconds
  [.eq RouteVar.timeRemaining.expr (const horizon - RouteVar.routeCompletion.expr),
    .divisionEquality RouteVar.timePoints.expr
      (normalizedScoreMaximum * RouteVar.timeRemaining.expr) (const horizon)]

/-- `_unknown_selected`. `src/jobtology_be/planning/cp_sat_model.py:375–390`. -/
def unknownSelectedDefinition (cs : List Candidate) : List (Constraint RouteVar) :=
  let unknown := (cs.filter hasUnknownCost).map fun c ↦ (RouteVar.selected c.actionId).expr
  if unknown = [] then [.eq RouteVar.unknownCostSelected.expr (const 0)]
  else [.maxEquality RouteVar.unknownCostSelected.expr unknown]

/-- `_cost_points`. `src/jobtology_be/planning/cp_sat_model.py:348–372`. -/
def costPointsDefinition (p : PlanningProblem) (cs : List Candidate) :
    List (Constraint RouteVar) :=
  let bound := (objectiveSnapshot p).knownCostUpperBoundKrw
  if bound = 0 then [.eq RouteVar.costPoints.expr (const 0)]
  else unknownSelectedDefinition cs ++
    [.onlyEnforceIf (.neg .unknownCostSelected)
        (.eq RouteVar.costCredit.expr (const bound - knownSpend cs)),
      .onlyEnforceIf (.pos .unknownCostSelected) (.eq RouteVar.costCredit.expr (const 0)),
      .divisionEquality RouteVar.costPoints.expr
        (normalizedScoreMaximum * RouteVar.costCredit.expr) (const bound)]

/-- The candidates that the tie-break prefers early. -/
def foundations (p : PlanningProblem) (cs : List Candidate) : List Candidate :=
  cs.filter fun c ↦ c.actionId ∈ p.foundationalPriorityActionIds

/-- The tie-break that prefers earlier foundational hours. -/
def foundationPointsDefinition (p : PlanningProblem) (cs : List Candidate) :
    List (Constraint RouteVar) :=
  if foundations p cs = [] then []
  else
    let slotCount : Int := p.calendar.length
    let maximum := slotCount * ((foundations p cs).map (·.estimatedHours)).sum
    let earlyFoundationHours : RouteExpr := .sum ((foundations p cs).flatMap fun c ↦
      p.calendar.zipIdx.map fun s ↦
        (slotCount - (s.2 : Int)) * (RouteVar.assigned c.actionId s.2).expr)
    [.divisionEquality RouteVar.foundationPriorityPoints.expr
      (normalizedScoreMaximum * earlyFoundationHours) (const maximum)]

/-- The constraints posted by `_add_objective`.
`src/jobtology_be/planning/cp_sat_model.py:259–330`. -/
def objectiveConstraints (p : PlanningProblem) (cs : List Candidate) :
    List (Constraint RouteVar) :=
  routeCompletionDefinition cs ++ capacityCompletionBound p cs ++ coveragePointsDefinition p ++
    timePointsDefinition p ++ costPointsDefinition p cs ++ foundationPointsDefinition p cs

/-- The expression maximized by the model. -/
def objectiveExpr (p : PlanningProblem) (cs : List Candidate) (rewardRequiredCoverage : Bool) :
    RouteExpr :=
  let objective := objectiveSnapshot p
  let weighted : RouteExpr := objective.coverageWeight * RouteVar.coveragePoints.expr +
    objective.timeWeight * RouteVar.timePoints.expr +
    objective.costWeight * RouteVar.costPoints.expr
  let primary : RouteExpr :=
    if rewardRequiredCoverage then
      partialRequiredCoverageWeight * LinearExpr.sum ((sortedSet p.requiredRequirementKeys).map
        fun key ↦ (RouteVar.covered key).expr) + weighted
    else weighted
  if foundations p cs = [] then primary
  else (normalizedScoreMaximum + 1) * primary + RouteVar.foundationPriorityPoints.expr

/-! ### The whole model -/

/-- Domains of the variables of the candidates. -/
def candidateDomains (p : PlanningProblem) (cs : List Candidate) : List (RouteVar × Int × Int) :=
  (cs.map fun c ↦ Model.boolVar (.selected c.actionId)) ++
  (cs.flatMap fun c ↦ p.calendar.zipIdx.map fun s ↦ Model.boolVar (.assigned c.actionId s.2)) ++
  (cs.map fun c ↦ (.completion c.actionId, 0, (objectiveSnapshot p).horizonMicroseconds))

/-- Domains of the coverage variables. -/
def coverageDomains (p : PlanningProblem) : List (RouteVar × Int × Int) :=
  (sortedSet (p.requiredRequirementKeys ∪ p.preferredRequirementKeys)).map fun key ↦
    Model.boolVar (.covered key)

/-- Domains of the two variables of the redundant completion bound. -/
def capacityBoundDomains (p : PlanningProblem) : List (RouteVar × Int × Int) :=
  [(.totalSelectedHours, 0, p.calendar.length),
    (.earliestCapacityCompletion, 0, (objectiveSnapshot p).horizonMicroseconds)]

/-- Domains of the other variables of the objective. -/
def objectiveDomains (p : PlanningProblem) (cs : List Candidate) : List (RouteVar × Int × Int) :=
  let objective := objectiveSnapshot p
  [(.routeCompletion, 0, objective.horizonMicroseconds),
    (.coveragePoints, 0, normalizedScoreMaximum),
    (.timeRemaining, 0, objective.horizonMicroseconds),
    (.timePoints, 0, normalizedScoreMaximum), (.costPoints, 0, normalizedScoreMaximum)] ++
  (if objective.knownCostUpperBoundKrw = 0 then []
    else [(.costCredit, 0, objective.knownCostUpperBoundKrw),
      Model.boolVar .unknownCostSelected]) ++
  (if foundations p cs = [] then []
    else [(.foundationPriorityPoints, 0, normalizedScoreMaximum)])

/-- The hints of `_add_schedule_hint`. -/
def modelHints (p : PlanningProblem) (cs : List Candidate) (requireRequiredCoverage : Bool) :
    List (RouteVar × Int) :=
  match scheduleHint p cs requireRequiredCoverage with
  | none => []
  | some placed => placed.flatMap fun (c, indices) ↦
      (.selected c.actionId, if indices = [] then 0 else 1) ::
        p.calendar.zipIdx.map fun s ↦ (.assigned c.actionId s.2, if s.2 ∈ indices then 1 else 0)

/-- The model posted for validated candidates. -/
def routeModel (p : PlanningProblem) (cs : List Candidate) (requireRequiredCoverage : Bool) :
    Model RouteVar where
  domains := candidateDomains p cs ++ coverageDomains p ++ capacityBoundDomains p ++
    objectiveDomains p cs
  constraints := cs.flatMap (candidateConstraints p) ++ slotConstraints p cs ++
    weekConstraints p cs ++ prerequisiteConstraints p cs ++ budgetConstraints p cs ++
    coverageConstraints p cs requireRequiredCoverage ++ objectiveConstraints p cs
  objective := some (objectiveExpr p cs (!requireRequiredCoverage))
  hints := modelHints p cs requireRequiredCoverage

/-- `RouteModelArtifacts`. The dictionaries of variables are the constructors of `RouteVar`.
`src/jobtology_be/planning/cp_sat_model.py:22–27`. -/
structure RouteModelArtifacts where
  model : Model RouteVar
  candidates : List Candidate

/-- `build_route_model`. `src/jobtology_be/planning/cp_sat_model.py:30–139`. -/
def buildRouteModel (p : PlanningProblem) (cs : List Candidate) (requireRequiredCoverage : Bool) :
    Except InvalidPlanningProblemError RouteModelArtifacts := do
  validateCandidates cs
  pure ⟨routeModel p cs requireRequiredCoverage, cs⟩

/-- The model is built exactly for valid candidates. -/
theorem buildRouteModel_ok_iff (p : PlanningProblem) (cs : List Candidate) (coverage : Bool)
    (artifacts : RouteModelArtifacts) :
    buildRouteModel p cs coverage = .ok artifacts ↔
      validateCandidates cs = .ok () ∧ artifacts = ⟨routeModel p cs coverage, cs⟩ := by
  unfold buildRouteModel
  cases h : validateCandidates cs with
  | error e => simp [bind, Except.bind]
  | ok u => simp [bind, Except.bind, pure, Except.pure, eq_comm]

end Jobtology.Planning
