import Jobtology.Weekly.PackSchedule

/-!
# The weekly plan

`build_weekly_plan` of `application/weekly_plan.py`: solver dates and progress stay as they are,
and a saved customization is packed anew around the completed steps.
-/

namespace Jobtology.Weekly

open Jobtology.Base Jobtology.Time Jobtology.Planning Jobtology.Graph

/-- A text, or another one where it is missing or empty. -/
def textOr (text : Option String) (default : String) : String :=
  match text with
  | some t => if t = "" then default else t
  | none => default

/-- `_identity`: the requirement a step is for and the name to show.
`src/jobtology_be/application/weekly_plan.py:36–43`. -/
def identity (item : PlanStepInput) : Option String × String :=
  let outcome := item.step.outcomes.head?
  (outcome.bind (·.requirementKey),
    textOr (outcome.bind (·.rawText)) (textOr item.step.title item.step.actionId))

/-- The step with an id. -/
def stepById (steps : List PlanStepInput) (key : Uuid) : Option PlanStepInput :=
  lookupLast (·.step.stepId) steps key

/-- `_reason`. `src/jobtology_be/application/weekly_plan.py:55–62`. -/
def reason (item : PlanStepInput) (byId : Uuid → Option PlanStepInput) : String :=
  let suffix :=
    match item.metadata.bind (·.demandPct) with
    | some demand => if 0 < demand then " · 공고 " ++ toString demand ++ "%가 요구해요" else ""
    | none => ""
  let previous := item.step.prerequisiteStepIds.filterMap byId
  if previous ≠ [] then
    "·".intercalate ((previous.take 2).map fun step ↦ (identity step).2) ++
      " 완료 후 진행하는 단계예요" ++ suffix
  else "저장된 로드맵 순서로 배치했어요" ++ suffix

/-- `_last_occupied_date`: an interval does not occupy the instant it ends at.
`src/jobtology_be/application/weekly_plan.py:405–409`. -/
def lastOccupiedDate (startsAt endsAt : Int) (timezone : Zone) : Int :=
  timezone.date (if startsAt < endsAt then endsAt - 1 else endsAt)

/-- `_exact_allocations`. `src/jobtology_be/application/weekly_plan.py:396–402`. -/
def exactAllocations (context : PlanContext) (item : PlanStepInput) (start : Int)
    (timezone : Zone) : List WeeklyPlanAllocation :=
  let counts := (context.stepAllocations item.step.stepKey).foldl
    (fun counts value ↦ addHour ((timezone.date value - start) / 7 + 1) counts) []
  counts.insertionSort fun a b ↦ a.week ≤ b.week

/-- The schedule of a step; a missing one is a missing key. -/
def scheduleOf (schedules : List (Uuid × Scheduled)) (key : Uuid) : Except PackError Scheduled :=
  match schedules.lookup key with
  | some schedule => .ok schedule
  | none => .error (.keyError key)

/-- `_dates`. `src/jobtology_be/application/weekly_plan.py:224–235`. -/
def dates (item : PlanStepInput) (packed : List (Uuid × Scheduled)) (timezone : Zone)
    (useSolver : Bool) : Except PackError (Int × Int) := do
  match useSolver && hasSolverDates item, item.step.plannedStart, item.step.plannedEnd with
  | true, some first, some last =>
    return (timezone.date first, lastOccupiedDate first last timezone)
  | _, _, _ =>
    let schedule ← scheduleOf packed item.step.stepId
    return (timezone.date schedule.startsAt,
      lastOccupiedDate schedule.startsAt schedule.endsAt timezone)

/-- A prerequisite of a step that the schedules do not respect. -/
def isUnmet (item : PlanStepInput) (byId : Uuid → Option PlanStepInput)
    (schedules : List (Uuid × Scheduled)) (useSolver : Bool) (prerequisiteId : Uuid) :
    Except PackError Bool :=
  match byId prerequisiteId with
  | none => .ok true
  | some prerequisite =>
    if prerequisite.step.state = .completed then .ok false
    else
      match useSolver && hasSolverDates item && hasSolverDates prerequisite,
        prerequisite.step.plannedEnd, item.step.plannedStart with
      | true, some last, some first => .ok (decide (first < last))
      | _, _, _ => do
        let earlier ← scheduleOf schedules prerequisiteId
        let later ← scheduleOf schedules item.step.stepId
        return decide (later.startsAt < earlier.endsAt)

/-- `_unmet`. `src/jobtology_be/application/weekly_plan.py:238–255`. -/
def unmet (item : PlanStepInput) (byId : Uuid → Option PlanStepInput)
    (schedules : List (Uuid × Scheduled)) (useSolver : Bool) : Except PackError (List Uuid) :=
  item.step.prerequisiteStepIds.foldlM (fun unmet prerequisiteId ↦ do
    return if ← isUnmet item byId schedules useSolver prerequisiteId then
      unmet ++ [prerequisiteId] else unmet) []

/-! ### The customization in force -/

/-- Steps in the saved order, then those it does not name. -/
def customOrder (recommended : List PlanStepInput) (order : List Uuid) : List PlanStepInput :=
  let known := order.filter fun key ↦ (stepById recommended key).isSome
  let rest := (recommended.map (·.step.stepId)).filter fun key ↦ key ∉ known
  (known ++ rest).filterMap (stepById recommended)

/-- The customization that a plan uses: one that was reset, or that asks for just what is
recommended, is none. -/
def effectiveOverrides (context : PlanContext) (steps : List PlanStepInput)
    (overrides : Option PlanOverrides) : Option PlanOverrides :=
  match overrides with
  | none => none
  | some o =>
    if !o.isCustomized then none
    else
      let recommended := recommendedOrder steps
      if o.weeklyHours = context.recommendedWeeklyHours ∧ o.restWeeks = [] ∧
          customOrder recommended o.order = recommended ∧
          ∀ item ∈ recommended,
            (o.hours item.step.stepId).getD (hours context item) = hours context item then none
      else some o

/-- Steps in the order of the plan. -/
def planOrder (steps : List PlanStepInput) (overrides : Option PlanOverrides) :
    List PlanStepInput :=
  match overrides with
  | some o => customOrder (recommendedOrder steps) o.order
  | none => recommendedOrder steps

/-- The instant at which the schedule starts. -/
def planStartsAt (context : PlanContext) (steps : List PlanStepInput) : Int :=
  (((recommendedOrder steps).filter hasSolverDates).filterMap (·.step.plannedStart)).min?.getD
    context.createdAt

/-- Monday of the first plan week. -/
def planStart (context : PlanContext) (steps : List PlanStepInput) : Int :=
  mondayOf (context.timezone.date (planStartsAt context steps))

/-- Steps without usable solver dates. -/
def missingDates (steps : List PlanStepInput) : List Uuid :=
  ((recommendedOrder steps).filter fun item ↦ !hasSolverDates item).map (·.step.stepId)

/-- The packing that estimates dates for steps without solver dates. -/
def recommendedArgs (context : PlanContext) (steps : List PlanStepInput) : PackArgs where
  context := context
  ordered := recommendedOrder steps
  overrides := none
  startsAt := planStartsAt context steps
  start := planStart context steps
  timezone := context.timezone
  fixed := []

/-- The packing of a customization around the steps already placed. -/
def customArgs (context : PlanContext) (steps : List PlanStepInput) (o : PlanOverrides)
    (fixed : List (Uuid × Scheduled)) : PackArgs where
  context := context
  ordered := planOrder steps (some o)
  overrides := some o
  startsAt := planStartsAt context steps
  start := planStart context steps
  timezone := context.timezone
  fixed := fixed

/-- The schedule that a completed step keeps: its snapshot, its solver dates or the estimate. -/
def fixedSchedule (context : PlanContext) (start : Int) (snapshot : Option WeeklyPlanStep)
    (recommendedPacked : List (Uuid × Scheduled)) (item : PlanStepInput) :
    Except PackError Scheduled :=
  match snapshot with
  | some s => .ok {
      startsAt := s.plannedStartAt.getD (context.timezone.midnightInstant s.startDate)
      endsAt := s.plannedEndAt.getD (context.timezone.midnightInstant (s.endDate + 1))
      allocations := s.weekAllocations }
  | none =>
    match hasSolverDates item, item.step.plannedStart, item.step.plannedEnd with
    | true, some first, some last =>
      .ok ⟨first, last, exactAllocations context item start context.timezone⟩
    | _, _, _ => scheduleOf recommendedPacked item.step.stepId

/-- The schedules of the completed steps. -/
def fixedSchedules (context : PlanContext) (steps : List PlanStepInput)
    (snapshots : Uuid → Option WeeklyPlanStep) (recommendedPacked : List (Uuid × Scheduled)) :
    Except PackError (List (Uuid × Scheduled)) :=
  ((recommendedOrder steps).filter fun item ↦ item.step.state = .completed).foldlM
    (fun fixed item ↦ do
      let schedule ← fixedSchedule context (planStart context steps)
        (snapshots item.step.stepId) recommendedPacked item
      return setEntry item.step.stepId schedule fixed) []

/-! ### The response -/

/-- What the steps of a response are made from. `src/jobtology_be/api/roadmap_plan.py:50–54`. -/
structure PlanInputs where
  context : PlanContext
  overrides : Option PlanOverrides
  snapshots : Uuid → Option WeeklyPlanStep
  recommended : List PlanStepInput
  start : Int
  fixed : List (Uuid × Scheduled)
  packed : List (Uuid × Scheduled)

namespace PlanInputs

variable (inputs : PlanInputs)

/-- Number of a step in the recommended order, counted from 1. -/
def recommendedNumber (key : Uuid) : Nat :=
  match lookupLast (fun entry ↦ entry.1.step.stepId) (inputs.recommended.zipIdx 1) key with
  | some entry => entry.2
  | none => 0

/-- The snapshot that a completed step is shown by. -/
def snapshotOf (item : PlanStepInput) : Option WeeklyPlanStep :=
  if item.step.state = .completed then inputs.snapshots item.step.stepId else none

/-- First and last date of a step. -/
def datesOf (item : PlanStepInput) : Except PackError (Int × Int) :=
  match inputs.fixed.lookup item.step.stepId with
  | some schedule => .ok (inputs.context.timezone.date schedule.startsAt,
      lastOccupiedDate schedule.startsAt schedule.endsAt inputs.context.timezone)
  | none => dates item inputs.packed inputs.context.timezone inputs.overrides.isNone

/-- Prerequisites of a step that the plan does not respect. -/
def unmetOf (item : PlanStepInput) : Except PackError (List Uuid) :=
  if item.step.state = .completed then .ok []
  else unmet item (stepById inputs.recommended) inputs.packed inputs.overrides.isNone

/-- Hours of a step by week. -/
def weekAllocationsOf (item : PlanStepInput) : Except PackError (List WeeklyPlanAllocation) :=
  match inputs.snapshotOf item with
  | some snapshot => .ok snapshot.weekAllocations
  | none =>
    if inputs.overrides.isSome ∨ hasSolverDates item = false then do
      let schedule ← scheduleOf inputs.packed item.step.stepId
      return schedule.allocations
    else .ok (exactAllocations inputs.context item inputs.start inputs.context.timezone)

/-- Source of the hours that a step shows. -/
def basisOf (item : PlanStepInput) (recommendedHours : Int) : HoursBasis :=
  match item.metadata with
  | none => .estimated
  | some metadata =>
    if metadata.estimatedHours.any (· ≠ recommendedHours) then .estimated
    else metadata.hoursBasis.getD .estimated

/-- Phase of a step by its level. -/
def phaseOf (level : Option Int) : Phase :=
  match level with
  | some l => if l ≤ 3 then .basic else if 6 ≤ l then .advanced else .core
  | none => .core

/-- One step of the response. -/
def step (number : Nat) (item : PlanStepInput) : Except PackError WeeklyPlanStep := do
  let recommendedHours := hours inputs.context item
  let shownHours :=
    match inputs.snapshotOf item with
    | some snapshot => snapshot.hours
    | none =>
      match inputs.overrides with
      | some o => (o.hours item.step.stepId).getD recommendedHours
      | none => recommendedHours
  let (firstDate, lastDate) ← inputs.datesOf item
  let unmetIds ← inputs.unmetOf item
  let exact := inputs.packed.lookup item.step.stepId
  let (key, name) := identity item
  let level := item.metadata.bind (·.ncsLevel)
  let recommendedNumber := inputs.recommendedNumber item.step.stepId
  let weekAllocations ← inputs.weekAllocationsOf item
  return {
    stepId := item.step.stepId
    number := number
    recommendedNumber := recommendedNumber
    title := textOr item.step.title item.step.actionId
    name := name
    requirementKey := key
    state := item.step.state
    phase := phaseOf level
    ncsLevel := level
    fieldCode := item.metadata.bind (·.fieldCode)
    fieldName := item.metadata.bind (·.fieldName)
    hours := shownHours
    recommendedHours := recommendedHours
    hoursBasis := if shownHours ≠ recommendedHours then .custom else basisOf item recommendedHours
    demandPct := item.metadata.bind (·.demandPct)
    startWeek := (firstDate - inputs.start) / 7 + 1
    endWeek := (lastDate - inputs.start) / 7 + 1
    startDate := firstDate
    endDate := lastDate
    reason := reason item (stepById inputs.recommended)
    moved := decide (number ≠ recommendedNumber)
    prerequisiteStepIds := item.step.prerequisiteStepIds
    unmetPrerequisiteStepIds := unmetIds
    completionCriteria := item.step.criteria.filterMap id
    weekAllocations := weekAllocations
    plannedStartAt :=
      match exact with
      | some schedule => some schedule.startsAt
      | none => item.step.plannedStart
    plannedEndAt :=
      match exact with
      | some schedule => some schedule.endsAt
      | none => item.step.plannedEnd }

end PlanInputs

/-- The warning about a step placed before a prerequisite. -/
def violationWarning (step : WeeklyPlanStep) : Option WeeklyPlanWarning :=
  if step.unmetPrerequisiteStepIds = [] then none
  else some {
    code := .prerequisiteViolation
    message := step.name ++ " 단계가 필요한 선행 단계보다 먼저 배치됐어요. 순서를 조정해 주세요."
    stepIds := [step.stepId]
    prerequisiteStepIds := step.unmetPrerequisiteStepIds }

/-- The warning about steps whose dates are estimates. -/
def missingWarning (missing : List Uuid) : List WeeklyPlanWarning :=
  if missing = [] then []
  else [{
    code := .missingSolverSchedule
    message := "일부 단계의 원본 일정이 없어 주간 학습량으로 추정했어요. " ++
      "원본 일정의 제약 충족 여부는 확인할 수 없어요."
    stepIds := missing
    prerequisiteStepIds := [] }]

/-- The warning about a plan that ends after its target date. -/
def targetWarning (completion : Int) (targetDate : Option Int) (daysPastTarget : Int) :
    List WeeklyPlanWarning :=
  match targetDate with
  | some target =>
    if daysPastTarget = 0 then []
    else [{
      code := .targetDateExceeded
      message := "예상 완료일 " ++ isoFormat completion ++ "은 목표일 " ++ isoFormat target ++ "보다 " ++
        toString daysPastTarget ++ "일 늦어요. 이 일정은 목표 기한을 충족하지 않아요."
      stepIds := []
      prerequisiteStepIds := [] }]
  | none => []

/-- The response made of the shown steps. -/
def PlanInputs.response (inputs : PlanInputs) (version : Int) (missing : List Uuid)
    (recommendedDates : List (Int × Int)) (steps : List WeeklyPlanStep) : WeeklyPlanResponse :=
  let context := inputs.context
  let completion := (steps.map (·.endDate)).max?.getD inputs.start
  let daysPastTarget :=
    match context.targetDate with
    | some target => max 0 (completion - target)
    | none => 0
  { version := version
    roadmapId := context.roadmapId
    startDate := inputs.start
    targetDate := context.targetDate
    weeklyHours :=
      match inputs.overrides with
      | some o => o.weeklyHours
      | none => context.recommendedWeeklyHours
    recommendedWeeklyHours := context.recommendedWeeklyHours
    restWeeks :=
      match inputs.overrides with
      | some o => o.restWeeks.insertionSort (· ≤ ·)
      | none => []
    isCustomized := inputs.overrides.isSome
    savedAt := inputs.overrides.bind (·.savedAt)
    totalHours := (steps.map (·.hours)).sum
    totalWeeks := (steps.map (·.endWeek)).max?.getD 0
    completionDate := completion
    recommendedCompletionDate := (recommendedDates.map (·.2)).max?.getD inputs.start
    scheduleSource :=
      if inputs.overrides.isSome then .custom else if missing ≠ [] then .fallback else .solver
    deadlineExceeded := decide (daysPastTarget ≠ 0)
    daysPastTarget := daysPastTarget
    hasDependencyViolations := steps.any (·.unmetPrerequisiteStepIds ≠ [])
    warnings := missingWarning missing ++ steps.filterMap violationWarning ++
      targetWarning completion context.targetDate daysPastTarget
    steps := steps }

/-- The estimated schedules, needed when some step has no solver dates. -/
def estimatedSchedules (rounds : Nat) (context : PlanContext) (steps : List PlanStepInput) :
    Except PackError (List (Uuid × Scheduled)) :=
  if missingDates steps ≠ [] then (recommendedArgs context steps).pack rounds else .ok []

/-- The schedules in force: packed anew for a customization, else estimated or kept. -/
def planSchedules (rounds : Nat) (context : PlanContext) (steps : List PlanStepInput)
    (overrides : Option PlanOverrides) (recommendedPacked fixed : List (Uuid × Scheduled)) :
    Except PackError (List (Uuid × Scheduled)) :=
  match overrides with
  | some o => (customArgs context steps o fixed).pack rounds
  | none => .ok (fixed.foldl (fun packed entry ↦ setEntry entry.1 entry.2 packed)
      recommendedPacked)

/-- `build_weekly_plan`, with a bound on the rounds of its packing loops.
`src/jobtology_be/application/weekly_plan.py:258–393`. -/
def buildWeeklyPlan (rounds : Nat) (context : PlanContext) (steps : List PlanStepInput)
    (saved : Option PlanOverrides) : Except PackError WeeklyPlanResponse := do
  let snapshots := fun key ↦ saved.bind fun o ↦ o.stepSchedules key
  let overrides := effectiveOverrides context steps saved
  let recommended := recommendedOrder steps
  let missing := missingDates steps
  let recommendedPacked ← estimatedSchedules rounds context steps
  let fixed ← fixedSchedules context steps snapshots recommendedPacked
  let packed ← planSchedules rounds context steps overrides recommendedPacked fixed
  let recommendedDates ← recommended.mapM fun item ↦
    dates item recommendedPacked context.timezone true
  let inputs : PlanInputs :=
    { context := context, overrides := overrides, snapshots := snapshots,
      recommended := recommended, start := planStart context steps, fixed := fixed,
      packed := packed }
  let shown ← ((planOrder steps overrides).zipIdx 1).mapM fun entry ↦
    inputs.step entry.2 entry.1
  return inputs.response ((saved.map (·.version)).getD 0) missing recommendedDates shown

end Jobtology.Weekly
