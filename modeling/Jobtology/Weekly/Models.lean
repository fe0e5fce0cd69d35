import Jobtology.Base.Collections
import Jobtology.Planning.Problem
import Jobtology.Time.Zone

/-!
# Weekly plan records

`application/weekly_plan_models.py`, with the parts of `RoadmapStepView` and
`RequirementMetadata` that the weekly plan reads. Timestamps are instants; the time zone of a
context is the zone its name stands for.
-/

namespace Jobtology.Weekly

open Jobtology.Base Jobtology.Time
open Jobtology.Planning (WeeklyAvailabilityWindow)

/-- Progress of a roadmap step. -/
inductive StepState
  | todo
  | inProgress
  | completed
  deriving DecidableEq

/-- Source of an effort estimate. -/
inductive HoursBasis
  | official
  | estimated
  | custom
  deriving DecidableEq

/-- Pinned metadata of the requirement a step is for. -/
structure RequirementMetadata where
  ncsLevel : Option Int
  demandPct : Option Int
  estimatedHours : Option Int
  hoursBasis : Option HoursBasis
  fieldCode : Option String
  fieldName : Option String
  deriving DecidableEq

/-- An outcome of a step. A value that is no text is read as absent. -/
structure StepOutcome where
  requirementKey : Option String
  rawText : Option String
  deriving DecidableEq

/-- A stored roadmap step. A criterion that is no text is read as absent.
`src/jobtology_be/application/queries.py:82–94`. -/
structure RoadmapStepView where
  stepId : Uuid
  stepKey : String
  position : Int
  actionId : String
  state : StepState
  plannedStart : Option Int
  plannedEnd : Option Int
  outcomes : List StepOutcome
  criteria : List (Option String)
  prerequisiteStepIds : List Uuid
  title : Option String
  deriving DecidableEq

/-- A step with its metadata. `src/jobtology_be/application/weekly_plan_models.py:35–37`. -/
structure PlanStepInput where
  step : RoadmapStepView
  metadata : Option RequirementMetadata
  deriving DecidableEq

/-- What a plan is built from besides its steps.
`src/jobtology_be/application/weekly_plan_models.py:19–31`. -/
structure PlanContext where
  roadmapId : Uuid
  createdAt : Int
  recommendedWeeklyHours : Int
  targetDate : Option Int
  timezone : Zone
  stepHours : String → Option Int
  stepAllocations : String → List Int
  asOf : Option Int
  weeklyAvailability : List WeeklyAvailabilityWindow
  unavailableDates : List Int

/-- Hours of one plan week. `src/jobtology_be/application/weekly_plan_models.py:44–46`. -/
structure WeeklyPlanAllocation where
  week : Int
  hours : Int
  deriving DecidableEq

/-- Stage of a step by its competency level. -/
inductive Phase
  | basic
  | core
  | advanced
  deriving DecidableEq

/-- A step as the plan shows it. `src/jobtology_be/application/weekly_plan_models.py:49–76`. -/
structure WeeklyPlanStep where
  stepId : Uuid
  number : Nat
  recommendedNumber : Nat
  title : String
  name : String
  requirementKey : Option String
  state : StepState
  phase : Phase
  ncsLevel : Option Int
  fieldCode : Option String
  fieldName : Option String
  hours : Int
  recommendedHours : Int
  hoursBasis : HoursBasis
  demandPct : Option Int
  startWeek : Int
  endWeek : Int
  startDate : Int
  endDate : Int
  reason : String
  moved : Bool
  prerequisiteStepIds : List Uuid
  unmetPrerequisiteStepIds : List Uuid
  completionCriteria : List String
  weekAllocations : List WeeklyPlanAllocation
  plannedStartAt : Option Int
  plannedEndAt : Option Int
  deriving DecidableEq

/-- A saved customization. Texts that are no step's id name no step, so the order and the keys of
the maps are step ids. `src/jobtology_be/application/weekly_plan_models.py:79–87`. -/
structure PlanOverrides where
  weeklyHours : Int
  restWeeks : List Int
  order : List Uuid
  hours : Uuid → Option Int
  savedAt : Option Int
  version : Int
  isCustomized : Bool
  stepSchedules : Uuid → Option WeeklyPlanStep

/-- Warning codes of a plan. -/
inductive WarningCode
  | targetDateExceeded
  | prerequisiteViolation
  | missingSolverSchedule
  deriving DecidableEq

/-- A warning of a plan. `src/jobtology_be/application/weekly_plan_models.py:90–94`. -/
structure WeeklyPlanWarning where
  code : WarningCode
  message : String
  stepIds : List Uuid
  prerequisiteStepIds : List Uuid
  deriving DecidableEq

/-- Where the dates of a plan come from. -/
inductive ScheduleSource
  | solver
  | custom
  | fallback
  deriving DecidableEq

/-- A weekly plan. `src/jobtology_be/application/weekly_plan_models.py:97–116`. -/
structure WeeklyPlanResponse where
  version : Int
  roadmapId : Uuid
  startDate : Int
  targetDate : Option Int
  weeklyHours : Int
  recommendedWeeklyHours : Int
  restWeeks : List Int
  isCustomized : Bool
  savedAt : Option Int
  totalHours : Int
  totalWeeks : Int
  completionDate : Int
  recommendedCompletionDate : Int
  scheduleSource : ScheduleSource
  deadlineExceeded : Bool
  daysPastTarget : Int
  hasDependencyViolations : Bool
  warnings : List WeeklyPlanWarning
  steps : List WeeklyPlanStep
  deriving DecidableEq

/-- `_Scheduled`: when a step is worked on, and its hours by week.
`src/jobtology_be/application/weekly_plan.py:66–69`. -/
structure Scheduled where
  startsAt : Int
  endsAt : Int
  allocations : List WeeklyPlanAllocation
  deriving DecidableEq

end Jobtology.Weekly
