import Jobtology.Planning.Calendar
import Jobtology.Weekly.Models
import Mathlib.Data.Finset.Dedup

/-!
# Packing hours into weeks

`_pack` of `application/weekly_plan.py`: hour by hour from the reschedule start, at most two
activities in progress, each usable hour given to the activity whose turn it is. The loop takes a
bound on its rounds. `placed` is the history of the hours given out, newest first; the code does
not keep it and no decision reads it.
-/

namespace Jobtology.Weekly

open Jobtology.Base Jobtology.Time Jobtology.Planning

/-- `MAX_ACTIVE_LEARNING_ACTIVITIES`. -/
def maxActiveLearningActivities : Nat := 2

/-- `MAX_CUSTOM_PLAN_WEEKS`. -/
def maxCustomPlanWeeks : Int := 520

/-- What the plan calculator can raise: `WeeklyPlanSchedulingError`, a failed `next`, a missing
dictionary key. A bound on the rounds of the loop that was too small is no error of the code.
`src/jobtology_be/application/weekly_plan.py:32–33`. -/
inductive PackError
  | scheduling (message : String)
  | stopIteration
  | keyError (key : Uuid)
  | unfinished
  deriving DecidableEq

/-- `_hours`. The pinned proposal, rather than current catalog metadata, owns its effort.
`src/jobtology_be/application/weekly_plan.py:46–52`. -/
def hours (context : PlanContext) (item : PlanStepInput) : Int :=
  match context.stepHours item.step.stepKey with
  | some pinned => pinned
  | none => (item.metadata.bind (·.estimatedHours)).getD 20

/-- `_has_solver_dates`. `src/jobtology_be/application/weekly_plan.py:218–221`. -/
def hasSolverDates (item : PlanStepInput) : Bool :=
  match item.step.plannedStart, item.step.plannedEnd with
  | some first, some last => decide (first ≤ last)
  | _, _ => false

/-- Whole hours that a span of time takes up, rounded up. -/
def ceilHours (span : Int) : Int := -(-span / hour)

/-- The first whole hour of UTC that does not come before an instant. -/
def ceilToHour (u : Int) : Int :=
  let rounded := u / hour * hour
  if rounded = u then rounded else rounded + hour

/-- The Monday of a date's week. -/
def mondayOf (d : Int) : Int := d - weekday d

/-- `_working_hour_offset`. `src/jobtology_be/application/weekly_plan.py:72–89`. -/
def workingHourOffset (value startsAt weekly : Int) (timezone : Zone) : Int :=
  let first := ceilToHour startsAt
  let firstMonday := mondayOf (timezone.date first)
  let valueMonday := mondayOf (timezone.date value)
  let weeks := (valueMonday - firstMonday) / 7
  if weeks ≤ 0 then max 0 (min weekly (ceilHours (value - first)))
  else
    let nextWeek := timezone.midnightInstant (firstMonday + 7)
    let firstCapacity := min weekly (max 0 ((nextWeek - first) / hour))
    let valueWeekStart := timezone.midnightInstant valueMonday
    let valueWeekHours := min weekly (max 0 (ceilHours (value - valueWeekStart)))
    firstCapacity + (weeks - 1) * weekly + valueWeekHours

/-- Order of the recommended plan: by position, then by id. -/
def comesBefore (a b : PlanStepInput) : Prop :=
  a.step.position < b.step.position ∨
    (a.step.position = b.step.position ∧ a.step.stepId ≤ b.step.stepId)

instance : DecidableRel comesBefore := fun _ _ ↦ inferInstanceAs (Decidable (_ ∨ _))

/-- The recommended order of steps. -/
def recommendedOrder (steps : List PlanStepInput) : List PlanStepInput :=
  steps.insertionSort comesBefore

/-- Hours that a list of allocations has in a week. -/
def allocatedIn (week : Int) (allocations : List WeeklyPlanAllocation) : Int :=
  (allocations.map fun a ↦ if a.week = week then a.hours else 0).sum

/-- Arguments of `_pack`. -/
structure PackArgs where
  context : PlanContext
  ordered : List PlanStepInput
  overrides : Option PlanOverrides
  startsAt : Int
  start : Int
  timezone : Zone
  fixed : List (Uuid × Scheduled)

namespace PackArgs

variable (args : PackArgs)

/-- `_preferred_start_offsets`. `src/jobtology_be/application/weekly_plan.py:92–104`. -/
def preferredStarts (key : Uuid) : Option Int :=
  if args.overrides.isSome ∧ args.ordered ≠ recommendedOrder args.ordered then none
  else
    match lookupLast (·.step.stepId) (args.ordered.filter hasSolverDates) key with
    | some item => item.step.plannedStart.map fun value ↦
        workingHourOffset value args.startsAt args.context.recommendedWeeklyHours args.timezone
    | none => none

/-- Weekly capacity. -/
def weekly : Int :=
  match args.overrides with
  | some o => o.weeklyHours
  | none => args.context.recommendedWeeklyHours

/-- Plan weeks without work. -/
def rests : List Int :=
  match args.overrides with
  | some o => o.restWeeks
  | none => []

/-- Dates without work. -/
def excluded : List Int := args.context.unavailableDates

/-- The step with an id. -/
def byId (key : Uuid) : Option PlanStepInput := lookupLast (·.step.stepId) args.ordered key

/-- A step is already placed. -/
def isFixed (key : Uuid) : Bool := args.fixed.any fun entry ↦ entry.1 = key

/-- Ids of the steps to place, in order. -/
def keys : List Uuid := (args.ordered.map (·.step.stepId)).eraseDups.filter (!args.isFixed ·)

/-- Hours asked for a step. -/
def hoursOf (item : PlanStepInput) : Int :=
  match args.overrides with
  | some o => (o.hours item.step.stepId).getD (hours args.context item)
  | none => hours args.context item

/-- Hours asked for an id. -/
def requested (key : Uuid) : Int := ((args.byId key).map args.hoursOf).getD 0

/-- Plan week of an instant. -/
def weekOf (u : Int) : Int := (args.timezone.date u - args.start) / 7 + 1

/-- The instant to reschedule from. -/
def futureStart : Int :=
  let rescheduleAt := (args.overrides.bind (·.savedAt)).or args.context.asOf
  let rescheduleFuture := !args.fixed.isEmpty ||
    (args.overrides.isSome && args.context.asOf.isSome)
  if rescheduleFuture then
    max (max args.startsAt (rescheduleAt.getD args.startsAt))
      ((args.fixed.map (·.2.endsAt)).max?.getD args.startsAt)
  else args.startsAt

/-- Hours recorded for a week by the steps already placed. -/
def fixedHours (week : Int) : Int := allocatedIn week (args.fixed.flatMap (·.2.allocations))

/-- Place of an id in the order, the last one when it is listed twice. -/
def position (key : Uuid) : Nat :=
  args.ordered.length - 1 - (args.ordered.reverse.map (·.step.stepId)).idxOf key

/-- Prerequisites that are absent or not completed. -/
def openPrerequisites (key : Uuid) : List Uuid :=
  match args.byId key with
  | some item => item.step.prerequisiteStepIds.filter fun p ↦
      !(args.byId p).any fun prerequisite ↦ prerequisite.step.state = .completed
  | none => []

/-- What a step waits for at first. -/
def waitsFor (key : Uuid) : Finset Uuid := (args.openPrerequisites key).toFinset

/-- Steps to place that wait for an id. -/
def dependents (key : Uuid) : List Uuid := args.keys.filter fun k ↦ key ∈ args.waitsFor k

/-- The first hour of the grid. -/
def firstHour : Int := ceilToHour args.futureStart

/-- End of the calendar. -/
def calendarLimit : Int := args.firstHour + maxCustomPlanWeeks * 7 * day

end PackArgs

/-- Variables of the loop of `_pack`, with the history of the hours given out. -/
structure PackState where
  cursor : Int
  hoursLeft : Int
  remaining : Uuid → Int
  first : Uuid → Option Int
  last : Uuid → Option Int
  allocations : Uuid → List WeeklyPlanAllocation
  usedByWeek : Int → Int
  waiting : Uuid → Finset Uuid
  ready : List Uuid
  active : List Uuid
  placed : List (Uuid × Int)

/-- State before the loop. -/
def PackArgs.initial (args : PackArgs) : PackState where
  cursor := args.firstHour
  hoursLeft := (args.keys.map args.requested).sum
  remaining := args.requested
  first _ := none
  last _ := none
  allocations _ := []
  usedByWeek := args.fixedHours
  waiting := args.waitsFor
  ready := args.keys.filter fun key ↦ args.waitsFor key = ∅
  active := []
  placed := []

/-- Add an hour to the allocation of a week. -/
def addHour (week : Int) : List WeeklyPlanAllocation → List WeeklyPlanAllocation
  | [] => [⟨week, 1⟩]
  | a :: rest =>
    if a.week = week then ⟨week, a.hours + 1⟩ :: rest else a :: addHour week rest

/-- The loop that opens activities while fewer than the maximum are in progress. Every round
opens one, so the free places bound it. -/
def admitReady (isPreferred : Uuid → Bool) (active : List Uuid) :
    Nat → List Uuid → List Uuid → List Uuid × List Uuid
  | 0, ready, admitted => (ready, admitted)
  | places + 1, ready, admitted =>
    match ready with
    | [] => (ready, admitted)
    | oldest :: _ =>
      match ready.find? isPreferred with
      | some next => admitReady isPreferred active places (ready.erase next) (admitted ++ [next])
      | none =>
        if active ≠ [] ∨ admitted ≠ [] then (ready, admitted)
        else admitReady isPreferred active places (ready.erase oldest) (admitted ++ [oldest])

/-- A finished step no longer holds up a dependent, which becomes ready if nothing else does. -/
def release (key : Uuid) (st : PackState) (dependent : Uuid) : PackState :=
  let waiting := Function.update st.waiting dependent ((st.waiting dependent).erase key)
  if waiting dependent = ∅ ∧ st.remaining dependent ≠ 0 ∧ dependent ∉ st.ready ∧
      dependent ∉ st.active then
    { st with waiting := waiting, ready := st.ready ++ [dependent] }
  else { st with waiting := waiting }

/-- The schedule of a placed step. -/
def scheduledOf (st : PackState) (key : Uuid) : Except PackError (Uuid × Scheduled) :=
  match st.first key, st.last key with
  | some first, some last => .ok (key, ⟨first, last, st.allocations key⟩)
  | _, _ => .error (.keyError key)

namespace PackArgs

variable (args : PackArgs)

/-- Where the cursor moves when its hour is not used. -/
def skipTo (st : PackState) : Option Int :=
  let localDate := args.timezone.date st.cursor
  let week := args.weekOf st.cursor
  if localDate ∈ args.excluded then
    let nextDay := args.timezone.midnightInstant (localDate + 1)
    some (st.cursor + max 1 (ceilHours (nextDay - st.cursor)) * hour)
  else if week ∈ args.rests ∨ args.weekly ≤ st.usedByWeek week then
    some (args.timezone.midnightInstant (args.start + 7 * week))
  else if !slotIsAvailable st.cursor (st.cursor + hour) args.context.weeklyAvailability
      args.excluded args.timezone then
    some (st.cursor + hour)
  else none

/-- Open activities, the newly opened ones first in turn. -/
def openActivities (st : PackState) : PackState :=
  let elapsed := (args.keys.map args.requested).sum - st.hoursLeft
  let (ready, admitted) := admitReady
    (fun key ↦ decide ((args.preferredStarts key).getD 0 ≤ elapsed)) st.active
    (maxActiveLearningActivities - st.active.length) st.ready []
  { st with ready := ready, active := admitted ++ st.active }

/-- The activity whose turn it is. Without one, broken dependencies must not hang the loop or
drop a step: the first step with hours left is taken. -/
def takeTurn (st : PackState) : Except PackError (Uuid × PackState) :=
  match st.active with
  | key :: others => .ok (key, { st with active := others })
  | [] =>
    match args.keys.find? fun key ↦ st.remaining key ≠ 0 with
    | some key => .ok (key, st)
    | none => .error .stopIteration

/-- Give the hour at the cursor to an activity. -/
def giveHour (key : Uuid) (st : PackState) : PackState :=
  let week := args.weekOf st.cursor
  { st with
    cursor := st.cursor + hour
    hoursLeft := st.hoursLeft - 1
    remaining := Function.update st.remaining key (st.remaining key - 1)
    first := Function.update st.first key (some ((st.first key).getD st.cursor))
    last := Function.update st.last key (some (st.cursor + hour))
    allocations := Function.update st.allocations key (addHour week (st.allocations key))
    usedByWeek := Function.update st.usedByWeek week (st.usedByWeek week + 1)
    placed := (key, st.cursor) :: st.placed }

/-- An activity with hours left goes to the end of the turn; a finished one releases its
dependents. -/
def endTurn (key : Uuid) (st : PackState) : PackState :=
  if st.remaining key ≠ 0 then { st with active := st.active ++ [key] }
  else
    let st := (args.dependents key).foldl (release key) st
    { st with ready := st.ready.insertionSort fun a b ↦ args.position a ≤ args.position b }

/-- One round of the loop. -/
def packStep (st : PackState) : Except PackError PackState :=
  if args.calendarLimit ≤ st.cursor then
    .error (.scheduling "Requested work does not fit the available calendar within 520 weeks")
  else
    match args.skipTo st with
    | some cursor => .ok { st with cursor := cursor }
    | none => do
      let (key, st) ← args.takeTurn (args.openActivities st)
      return args.endTurn key (args.giveHour key st)

/-- The loop, for at most so many rounds. -/
def packLoop : Nat → PackState → Except PackError PackState
  | 0, st => if st.hoursLeft = 0 then .ok st else .error .unfinished
  | rounds + 1, st =>
    if st.hoursLeft = 0 then .ok st else args.packStep st >>= packLoop rounds

/-- `_pack`. `src/jobtology_be/application/weekly_plan.py:107–215`. -/
def pack (rounds : Nat) : Except PackError (List (Uuid × Scheduled)) := do
  let st ← args.packLoop rounds args.initial
  let scheduled ← args.keys.mapM (scheduledOf st)
  return args.fixed ++ scheduled

end PackArgs

end Jobtology.Weekly
