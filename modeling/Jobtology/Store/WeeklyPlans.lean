import Jobtology.Store.Revisions
import Jobtology.Weekly.Plan

/-!
# Stored weekly plans

The writes of `persistence/weekly_plan.py`, the roadmap view of `queries.py` and the computation
of `api/roadmap_plan.py` between them. A save or a reset names the version it replaces; a reset
leaves a version behind like any other write.
-/

namespace Jobtology.Store

open Jobtology.Base Jobtology.Relational
open Jobtology.Relational.Transaction
open Jobtology.Weekly (PackError PlanContext PlanOverrides PlanStepInput RequirementMetadata
  RoadmapStepView StepOutcome WeeklyPlanResponse WeeklyPlanStep buildWeeklyPlan)

/-- `PlanOverrides` with its maps as documents. -/
structure StoredPlan where
  weeklyHours : Int
  restWeeks : List Int
  order : List Uuid
  hours : List (Uuid × Int)
  savedAt : Option Int
  version : Nat
  isCustomized : Bool
  stepSchedules : List (Uuid × WeeklyPlanStep)
  deriving DecidableEq

namespace StoredPlan

/-- The customization that a plan is built with. -/
def overrides (plan : StoredPlan) : PlanOverrides where
  weeklyHours := plan.weeklyHours
  restWeeks := plan.restWeeks
  order := plan.order
  hours key := (lookup (·.1) plan.hours key).map (·.2)
  savedAt := plan.savedAt
  version := plan.version
  isCustomized := plan.isCustomized
  stepSchedules key := (lookup (·.1) plan.stepSchedules key).map (·.2)

/-- The row that a write of the plan leaves: the version after the one it names. -/
def row (plan : StoredPlan) (roadmapId : Uuid) (now : Int) : OverrideRow where
  roadmapId := roadmapId
  weeklyHours := plan.weeklyHours
  restWeeks := plan.restWeeks
  stepOrder := plan.order
  stepHours := plan.hours
  version := plan.version + 1
  isCustomized := plan.isCustomized
  stepSchedules := plan.stepSchedules
  updatedAt := now

end StoredPlan

/-- `_StoredOverride.plan`. `src/jobtology_be/infrastructure/persistence/weekly_plan.py:50–55`. -/
def OverrideRow.plan (o : OverrideRow) : StoredPlan where
  weeklyHours := o.weeklyHours
  restWeeks := o.restWeeks
  order := o.stepOrder
  hours := o.stepHours
  savedAt := some o.updatedAt
  version := o.version
  isCustomized := o.isCustomized
  stepSchedules := o.stepSchedules

/-! ### Transactions of the store -/

/-- Version of a roadmap's plan; a roadmap without one is at 0. -/
def Db.planVersion (db : Db) (roadmapId : Uuid) : Nat :=
  ((lookup (·.roadmapId) db.overrides roadmapId).map (·.version)).getD 0

/-- The stored plan of a roadmap. -/
def Db.storedPlan (db : Db) (roadmapId : Uuid) : Option StoredPlan :=
  (lookup (·.roadmapId) db.overrides roadmapId).map (·.plan)

/-- The completed steps of a roadmap. -/
def Db.completedStepIds (db : Db) (roadmapId : Uuid) : List Uuid :=
  (db.steps.filter fun s ↦ s.roadmapId = roadmapId ∧ s.state = .completed).map (·.id)

/-- `_require_owner`. `src/jobtology_be/infrastructure/persistence/weekly_plan.py:73–80`. -/
def requireOwner (userId roadmapId : Uuid) (writable : Bool) : Txn Unit := do
  let owner ← query fun db ↦ db.roadmaps.find? fun r ↦ r.id = roadmapId ∧ r.userId = userId
  let roadmap ← demand owner (.missing "roadmap")
  require (writable = true → roadmap.state ≠ .archived) (.conflict "archived roadmap plan")

/-- `PostgresWeeklyPlanStore.get`.
`src/jobtology_be/infrastructure/persistence/weekly_plan.py:139–145`. -/
def getPlan (userId roadmapId : Uuid) : Txn (Option StoredPlan) := do
  requireOwner userId roadmapId false
  query (·.storedPlan roadmapId)

/-- Insert the override of a roadmap, or replace the one it has. -/
def setOverride (row : OverrideRow) (overrides : List OverrideRow) : List OverrideRow :=
  if overrides.any (·.roadmapId = row.roadmapId) then
    update (·.roadmapId = row.roadmapId) (fun _ ↦ row) overrides
  else overrides ++ [row]

/-- `_write`. `src/jobtology_be/infrastructure/persistence/weekly_plan.py:147–163`. -/
def writePlan (roadmapId : Uuid) (plan : StoredPlan) (now : Int) : Txn StoredPlan := do
  let current ← query (·.planVersion roadmapId)
  require (current = plan.version) (.conflict "weekly plan")
  statement fun db ↦ { db with overrides := setOverride (plan.row roadmapId now) db.overrides }
  return (plan.row roadmapId now).plan

/-- No schedule of a completed step shows it unfinished. -/
def StoredPlan.RespectsCompleted (plan : StoredPlan) (completed : List Uuid) : Prop :=
  ∀ key ∈ completed, ∀ entry ∈ lookup (·.1) plan.stepSchedules key, entry.2.state = .completed

instance (plan : StoredPlan) (completed : List Uuid) :
    Decidable (plan.RespectsCompleted completed) :=
  inferInstanceAs (Decidable (∀ key ∈ completed, _))

/-- `PostgresWeeklyPlanStore.upsert`.
`src/jobtology_be/infrastructure/persistence/weekly_plan.py:165–176`. -/
def upsertPlan (userId roadmapId : Uuid) (plan : StoredPlan) (now : Int) : Txn StoredPlan := do
  requireOwner userId roadmapId true
  let completed ← query (·.completedStepIds roadmapId)
  require (plan.RespectsCompleted completed) (.conflict "roadmap progress")
  writePlan roadmapId plan now

/-- The plan that a reset leaves: the history of the completed steps. -/
def resetPlan (expectedVersion : Nat) (recommended : Int) (current : Option StoredPlan)
    (completed : List Uuid) : StoredPlan where
  weeklyHours := recommended
  restWeeks := []
  order := []
  hours := []
  savedAt := none
  version := expectedVersion
  isCustomized := false
  stepSchedules := ((current.map (·.stepSchedules)).getD []).filter (·.1 ∈ completed)

/-- `PostgresWeeklyPlanStore.delete`, with the recommended hours of the context it loads first.
`src/jobtology_be/infrastructure/persistence/weekly_plan.py:178–198`. -/
def deletePlan (userId roadmapId : Uuid) (expectedVersion : Nat) (recommended : Int)
    (now : Int) : Txn StoredPlan := do
  requireOwner userId roadmapId true
  let current ← query (·.storedPlan roadmapId)
  let completed ← query (·.completedStepIds roadmapId)
  writePlan roadmapId (resetPlan expectedVersion recommended current completed) now

/-! ### The roadmap a request is computed from -/

/-- Title of a step: that of its history document, else that of the proposal. -/
def stepTitle (roadmap : RoadmapRow) (proposal : ProposalRow) (key : String) : Option String :=
  ((lookup (·.1) roadmap.validity.revisionHistorySteps key).bind (·.2.title)).or
    ((lookupLast (·.stepKey) proposal.steps key).map (·.title))

/-- The view of a stored step. -/
def Db.stepView (db : Db) (roadmap : RoadmapRow) (proposal : ProposalRow) (s : StepRow) :
    RoadmapStepView where
  stepId := s.id
  stepKey := s.stepKey
  position := s.position
  actionId := s.actionId
  state := s.state
  plannedStart := s.plannedStart
  plannedEnd := s.plannedEnd
  outcomes := s.outcomes.map fun o ↦ ⟨some o.requirementKey, some o.rawText⟩
  criteria := s.criteria.map some
  prerequisiteStepIds := (db.dependencies.filter fun d ↦
    d.roadmapId = roadmap.id ∧ d.stepId = s.id).map (·.prerequisiteStepId)
  title := Store.stepTitle roadmap proposal s.stepKey

/-- The steps of `get_roadmap`. `src/jobtology_be/infrastructure/persistence/queries.py:206–297`. -/
def roadmapSteps (userId roadmapId : Uuid) : Txn (List RoadmapStepView) := do
  let found ← query fun db ↦ db.roadmaps.find? fun r ↦ r.id = roadmapId ∧ r.userId = userId
  let roadmap ← demand found (.missing "roadmap")
  let source ← query fun db ↦
    db.proposals.find? fun p ↦ p.id = roadmap.proposalId ∧ p.userId = userId
  let proposal ← demand source (.missing "route proposal")
  query fun db ↦
    ((db.steps.filter (·.roadmapId = roadmapId)).insertionSort stepPosition).map
      (db.stepView roadmap proposal)

/-! ### The plan of a request -/

/-- `WeeklyPlanRequest`. `src/jobtology_be/api/roadmap_plan.py:28–42`. -/
structure WeeklyPlanRequest where
  expectedVersion : Nat
  weeklyHours : Int
  restWeeks : List Int
  order : List Uuid
  hours : List (Uuid × Int)

/-- The field constraints of `WeeklyPlanRequest`. -/
def WeeklyPlanRequest.Valid (r : WeeklyPlanRequest) : Prop :=
  (1 ≤ r.weeklyHours ∧ r.weeklyHours ≤ 60) ∧ (∀ week ∈ r.restWeeks, 1 ≤ week ∧ week ≤ 104) ∧
    r.restWeeks.Nodup ∧ ∀ entry ∈ r.hours, 1 ≤ entry.2 ∧ entry.2 ≤ 400

instance (r : WeeklyPlanRequest) : Decidable r.Valid :=
  inferInstanceAs (Decidable (_ ∧ _))

/-- The answers of a request that is not carried out, by status. -/
inductive PlanError
  /-- 422 with a message. -/
  | invalid (detail : String)
  /-- 422: the plan cannot be scheduled. -/
  | scheduling (error : PackError)
  deriving DecidableEq

/-- `_build_plan`. `src/jobtology_be/api/roadmap_plan.py:151–155`. -/
def buildPlan (rounds : Nat) (context : PlanContext) (steps : List PlanStepInput)
    (plan : Option StoredPlan) : Except PlanError WeeklyPlanResponse :=
  (buildWeeklyPlan rounds context steps (plan.map (·.overrides))).mapError .scheduling

/-- Raise a 422 unless the condition holds. -/
def check (c : Prop) [Decidable c] (detail : String) : Except PlanError Unit :=
  if c then .ok () else .error (.invalid detail)

/-- `_overrides`. `src/jobtology_be/api/roadmap_plan.py:109–131`. -/
def requestedPlan (rounds : Nat) (request : WeeklyPlanRequest) (context : PlanContext)
    (steps : List PlanStepInput) (savedAt : Option Int) (existing : Option StoredPlan) :
    Except PlanError StoredPlan := do
  let ids := steps.map (·.step.stepId)
  check (request.order.length = ids.toFinset.card ∧ request.order.toFinset = ids.toFinset)
    "order must be an exact permutation of step IDs"
  check (∀ entry ∈ request.hours, entry.1 ∈ ids) "hours contains unknown step IDs"
  let recommended ← buildPlan rounds context steps none
  let current ← buildPlan rounds context steps existing
  let completed := current.steps.filter (·.state = .completed)
  let requested := fun key ↦ (lookup (·.1) request.hours key).map (·.2)
  check (∀ s ∈ completed, ∀ hours ∈ requested s.stepId, hours = s.hours)
    "completed step hours cannot be changed"
  return {
    weeklyHours := request.weeklyHours
    restWeeks := request.restWeeks.insertionSort (· ≤ ·)
    order := request.order
    hours := recommended.steps.filterMap fun s ↦
      ((requested s.stepId).filter (· ≠ s.recommendedHours)).map (s.stepId, ·)
    savedAt := savedAt
    version := request.expectedVersion
    isCustomized := true
    stepSchedules := completed.map fun s ↦ (s.stepId, s) }

/-- The work of `put_weekly_plan` between its reads and its write: the plan with the schedules it
leads to. `src/jobtology_be/api/roadmap_plan.py:98–106`. -/
def computePlan (rounds : Nat) (request : WeeklyPlanRequest) (context : PlanContext)
    (steps : List PlanStepInput) (now : Int) (existing : Option StoredPlan) :
    Except PlanError StoredPlan := do
  let plan ← requestedPlan rounds request context steps (some now) existing
  let preview ← buildPlan rounds context steps (some plan)
  return { plan with
    isCustomized := plan.isCustomized && preview.isCustomized
    stepSchedules := preview.steps.map fun s ↦ (s.stepId, s) }

end Jobtology.Store
