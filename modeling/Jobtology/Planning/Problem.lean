import Jobtology.Planning.Candidate
import Jobtology.Time.Civil
import Mathlib.Data.Finset.Card
import Mathlib.Data.Finset.Lattice.Lemmas
import Mathlib.Data.Rat.Defs
import Mathlib.Algebra.Order.Ring.Unbundled.Rat

/-!
# Planning problems

The records of `planning/solver_models.py` and `planning/contracts.py`. Timestamps are instants
on the UTC line: a problem is read back from its stored JSON document, whose timestamps carry
fixed offsets, and for those comparison and subtraction are the ones of the instants.
-/

namespace Jobtology.Planning

open Jobtology.Base Jobtology.Time

/-- `InvalidPlanningProblemError`, with its reason.
`src/jobtology_be/planning/solver_models.py:24–29`. -/
structure InvalidPlanningProblemError where
  reason : String
  deriving DecidableEq

/-- `SLOT_DURATION`. -/
def slotDuration : Int := hour

/-- Fields of a planning slot. -/
structure PlanningSlotData where
  startsAt : Int
  endsAt : Int
  capacityWeekKey : String
  deriving DecidableEq

/-- `PlanningSlot.__post_init__` for aware timestamps.
`src/jobtology_be/planning/solver_models.py:74–80`. -/
def PlanningSlotData.postInit (s : PlanningSlotData) : Except InvalidPlanningProblemError Unit :=
  if s.endsAt - s.startsAt ≠ slotDuration then
    .error ⟨"planning slots must be exactly one hour"⟩
  else if isBlank s.capacityWeekKey then
    .error ⟨"planning slot week key must be non-empty"⟩
  else .ok ()

/-- One hour of the planning calendar, with the key of the week it is counted in.
`src/jobtology_be/planning/solver_models.py:69–80`. -/
structure PlanningSlot extends PlanningSlotData where
  accepted : toPlanningSlotData.postInit = .ok ()
  deriving DecidableEq

/-- A slot is accepted if it lasts one slot and names its week. -/
theorem PlanningSlotData.postInit_ok_iff (s : PlanningSlotData) :
    s.postInit = .ok () ↔
      s.endsAt = s.startsAt + slotDuration ∧ isBlank s.capacityWeekKey = false := by
  unfold postInit
  split
  · next h =>
    have hn : ¬ s.endsAt = s.startsAt + slotDuration := by omega
    simp [hn]
  · next h =>
    have he : s.endsAt = s.startsAt + slotDuration := by omega
    split
    · next hb => simp [hb]
    · next hb => simp [he, hb]

private theorem PlanningSlot.endsAt_eq (s : PlanningSlot) : s.endsAt = s.startsAt + hour :=
  (s.postInit_ok_iff.mp s.accepted).1

/-- A slot starts before it ends. -/
theorem PlanningSlot.startsAt_lt_endsAt (s : PlanningSlot) : s.startsAt < s.endsAt := by
  have h := s.endsAt_eq
  simp only [hour] at h
  omega

/-- Fields of the availability window of one candidate. -/
structure CandidateAvailabilityData where
  actionId : String
  availableFrom : Int
  availableUntil : Int
  deriving DecidableEq

/-- `CandidateAvailability.__post_init__` for aware timestamps.
`src/jobtology_be/planning/solver_models.py:89–95`. -/
def CandidateAvailabilityData.postInit (a : CandidateAvailabilityData) :
    Except InvalidPlanningProblemError Unit :=
  if isBlank a.actionId then
    .error ⟨"candidate availability action ID must be non-empty"⟩
  else if a.availableUntil < a.availableFrom then
    .error ⟨"candidate availability cannot end before it starts"⟩
  else .ok ()

/-- The span of time in which one candidate may be placed.
`src/jobtology_be/planning/solver_models.py:84–95`. -/
structure CandidateAvailability extends CandidateAvailabilityData where
  accepted : toCandidateAvailabilityData.postInit = .ok ()
  deriving DecidableEq

/-- Solver settings; a negative time limit is rejected on construction.
`src/jobtology_be/planning/solver_models.py:99–105`. -/
structure SolverSettings where
  timeLimitSeconds : ℚ
  nonneg : 0 ≤ timeLimitSeconds
  deriving DecidableEq

/-- `DEFAULT_SOLVER_TIME_LIMIT_SECONDS`. -/
def SolverSettings.default : SolverSettings := ⟨20, by decide⟩

/-- Whether low cost weighs more than usual. -/
inductive BudgetMode
  | regular
  | lowCost
  deriving DecidableEq

/-- A local weekly window, `start_hour` inclusive and `end_hour` exclusive. -/
structure WeeklyAvailabilityWindow where
  weekday : Int
  startHour : Int
  endHour : Int
  weekdayRange : 1 ≤ weekday ∧ weekday ≤ 7
  hourRange : 0 ≤ startHour ∧ startHour < endHour ∧ endHour ≤ 24
  deriving DecidableEq

/-- `PlanningConstraints`, with the bounds of its fields.
`src/jobtology_be/planning/contracts.py:16–27`. -/
structure PlanningConstraints where
  targetBy : Int
  availableHoursPerWeek : Int
  budgetMode : BudgetMode
  maxOutOfPocketKrw : Option Nat
  fastestPath : Bool
  needsPortfolio : Bool
  careerSwitch : Bool
  weeklyAvailability : List WeeklyAvailabilityWindow
  unavailableDates : List Int
  hoursRange : 1 ≤ availableHoursPerWeek ∧ availableHoursPerWeek ≤ 60
  deriving DecidableEq

/-- Fields of a planning problem. -/
structure PlanningProblemData where
  analysisId : String
  profileVersion : Int
  basisVersion : String
  corpusReleaseId : Option String
  isFixture : Bool
  referenceAt : Int
  candidates : List Candidate
  candidateBlockers : List CandidateBlocker
  requiredRequirementKeys : Finset String
  preferredRequirementKeys : Finset String
  constraints : PlanningConstraints
  planningStartedAt : Int
  calendar : List PlanningSlot
  candidateAvailability : List CandidateAvailability
  settings : SolverSettings
  planningPolicyVersion : Option String
  planningPolicyDecisions : List String
  foundationalPriorityActionIds : Finset String
  portfolioActionIds : Finset String

/-- Adjacent slots of a calendar do not overlap. -/
def slotsDisjoint : List PlanningSlot → Bool
  | prior :: current :: rest =>
    decide (prior.endsAt ≤ current.startsAt) && slotsDisjoint (current :: rest)
  | _ => true

/-- The calendar checks of `PlanningProblem.__post_init__`, in their order. -/
def calendarChecks (planningStartedAt targetBy : Int) (calendar : List PlanningSlot) :
    Except InvalidPlanningProblemError Unit :=
  match calendar.head?, calendar.getLast? with
  | some first, some last =>
    if calendar.insertionSort (fun a b ↦ a.startsAt ≤ b.startsAt) ≠ calendar then
      .error ⟨"planning calendar must be ordered"⟩
    else if !slotsDisjoint calendar then
      .error ⟨"planning calendar slots cannot overlap"⟩
    else if first.startsAt < planningStartedAt then
      .error ⟨"planning calendar cannot start before planning"⟩
    else if last.endsAt > targetBy then
      .error ⟨"planning calendar cannot extend past target date"⟩
    else .ok ()
  | _, _ => .error ⟨"planning calendar cannot be empty"⟩

/-- `PlanningProblem.__post_init__` for aware timestamps. The emptiness of the calendar is checked
before the necessity sets, the rest of the calendar after them.
`src/jobtology_be/planning/solver_models.py:260–287`. -/
def PlanningProblemData.postInit (p : PlanningProblemData) :
    Except InvalidPlanningProblemError Unit :=
  if isBlank p.analysisId ∨ isBlank p.basisVersion then
    .error ⟨"planning identity fields must be non-empty"⟩
  else if p.profileVersion ≤ 0 then
    .error ⟨"profile version must be positive"⟩
  else if p.constraints.targetBy ≤ p.planningStartedAt then
    .error ⟨"planning target must be after planning start"⟩
  else if p.calendar = [] then
    .error ⟨"planning calendar cannot be empty"⟩
  else if p.requiredRequirementKeys ∩ p.preferredRequirementKeys ≠ ∅ then
    .error ⟨"requirement necessity sets must not overlap"⟩
  else do
    calendarChecks p.planningStartedAt p.constraints.targetBy p.calendar
    if ¬ (p.candidateAvailability.map (·.actionId)).Nodup then
      .error ⟨"candidate availability must be unique per action"⟩
    else if p.candidateAvailability.any fun a ↦ a.actionId ∉ p.candidates.map (·.actionId) then
      .error ⟨"candidate availability must reference a candidate"⟩
    else .ok ()

/-- A planning problem that passed its checks.
`src/jobtology_be/planning/solver_models.py:239–287`. -/
structure PlanningProblem extends PlanningProblemData where
  accepted : toPlanningProblemData.postInit = .ok ()

/-! ### What acceptance gives -/

private theorem slotsDisjoint_iff (calendar : List PlanningSlot) :
    slotsDisjoint calendar = true ↔ calendar.IsChain fun a b ↦ a.endsAt ≤ b.startsAt := by
  induction calendar with
  | nil => simp [slotsDisjoint]
  | cons prior rest ih =>
    cases rest with
    | nil => simp [slotsDisjoint]
    | cons current rest => simp [slotsDisjoint, ih]

/-- Every slot of a chain ends before each later slot starts. -/
theorem pairwise_of_chain {calendar : List PlanningSlot}
    (h : calendar.IsChain fun a b ↦ a.endsAt ≤ b.startsAt) :
    calendar.Pairwise fun a b ↦ a.endsAt ≤ b.startsAt := by
  have : IsTrans PlanningSlot fun a b ↦ a.endsAt ≤ b.startsAt :=
    ⟨fun a b c hab hbc ↦ le_trans hab (le_trans (le_of_lt b.startsAt_lt_endsAt) hbc)⟩
  exact h.pairwise

private theorem first_le {calendar : List PlanningSlot} {first : PlanningSlot}
    (hp : calendar.Pairwise fun a b ↦ a.endsAt ≤ b.startsAt) (hf : calendar.head? = some first)
    (s : PlanningSlot) (hs : s ∈ calendar) : first.startsAt ≤ s.startsAt := by
  obtain ⟨rest, rfl⟩ := List.head?_eq_some_iff.mp hf
  rcases List.mem_cons.mp hs with rfl | hs
  · exact le_refl _
  · have hle := (List.pairwise_cons.mp hp).1 s hs
    exact le_trans (le_of_lt first.startsAt_lt_endsAt) hle

private theorem le_last {calendar : List PlanningSlot} {last : PlanningSlot}
    (hp : calendar.Pairwise fun a b ↦ a.endsAt ≤ b.startsAt) (hl : calendar.getLast? = some last)
    (s : PlanningSlot) (hs : s ∈ calendar) : s.endsAt ≤ last.endsAt := by
  obtain ⟨front, rfl⟩ := List.getLast?_eq_some_iff.mp hl
  rcases List.mem_append.mp hs with hs | hs
  · have hle := (List.pairwise_append.mp hp).2.2 s hs last (by simp)
    exact le_trans hle (le_of_lt last.startsAt_lt_endsAt)
  · rw [List.mem_singleton.mp hs]

private theorem ordered_of_disjoint {calendar : List PlanningSlot}
    (hp : calendar.Pairwise fun a b ↦ a.endsAt ≤ b.startsAt) :
    calendar.insertionSort (fun a b ↦ a.startsAt ≤ b.startsAt) = calendar :=
  List.Pairwise.insertionSort_eq
    (hp.imp fun {a _} h ↦ le_trans (le_of_lt a.startsAt_lt_endsAt) h)

/-- Acceptance of the calendar alone: non-empty, disjoint in order and inside the planning span. -/
theorem calendarChecks_ok_iff (start target : Int) (calendar : List PlanningSlot) :
    calendarChecks start target calendar = .ok () ↔
      calendar ≠ [] ∧ calendar.Pairwise (fun a b ↦ a.endsAt ≤ b.startsAt) ∧
        ∀ s ∈ calendar, start ≤ s.startsAt ∧ s.endsAt ≤ target := by
  unfold calendarChecks
  cases hf : calendar.head? with
  | none => simp [List.head?_eq_none_iff.mp hf]
  | some first =>
    have hne : calendar ≠ [] := by
      rintro rfl
      simp at hf
    obtain ⟨last, hl⟩ : ∃ last, calendar.getLast? = some last :=
      ⟨calendar.getLast hne, List.getLast?_eq_some_getLast hne⟩
    have hfm : first ∈ calendar := List.mem_of_head? hf
    have hlm : last ∈ calendar := List.mem_of_getLast? hl
    simp only [hl]
    constructor
    · intro h
      split at h
      · cases h
      split at h
      · cases h
      split at h
      · cases h
      split at h
      · cases h
      next hd hs ht =>
        have hchain : slotsDisjoint calendar = true := by simpa using hd
        have hp := pairwise_of_chain ((slotsDisjoint_iff calendar).mp hchain)
        refine ⟨hne, hp, fun s hs' ↦ ?_⟩
        have h1 := first_le hp hf s hs'
        have h2 := le_last hp hl s hs'
        exact ⟨by omega, by omega⟩
    · rintro ⟨-, hp, hin⟩
      have hd : slotsDisjoint calendar = true := (slotsDisjoint_iff calendar).mpr hp.isChain
      have h1 := (hin first hfm).1
      have h2 := (hin last hlm).2
      rw [if_neg (by simp [ordered_of_disjoint hp]), if_neg (by simp [hd]),
        if_neg (by omega), if_neg (by omega)]

namespace PlanningProblem

variable (p : PlanningProblem)

private theorem checks :
    p.planningStartedAt < p.constraints.targetBy ∧
      Disjoint p.requiredRequirementKeys p.preferredRequirementKeys ∧
      calendarChecks p.planningStartedAt p.constraints.targetBy p.calendar = .ok () ∧
      (p.candidateAvailability.map (·.actionId)).Nodup := by
  have h := p.accepted
  unfold PlanningProblemData.postInit at h
  split at h
  · cases h
  split at h
  · cases h
  split at h
  · cases h
  split at h
  · cases h
  split at h
  · cases h
  next ht _ hr =>
    cases hc : calendarChecks p.planningStartedAt p.constraints.targetBy p.calendar with
    | error e => simp [hc, bind, Except.bind] at h
    | ok u =>
      simp only [hc, bind, Except.bind] at h
      split at h
      · cases h
      next hn =>
        exact ⟨by omega, Finset.disjoint_iff_inter_eq_empty.mpr (by simpa using hr), rfl,
          by simpa using hn⟩

private theorem start_lt_target : p.planningStartedAt < p.constraints.targetBy := p.checks.1

/-- A problem has slots. -/
theorem calendar_ne_nil : p.calendar ≠ [] :=
  ((calendarChecks_ok_iff _ _ _).mp p.checks.2.2.1).1

/-- The calendar is a sequence of disjoint hours in order. -/
theorem calendar_disjoint : p.calendar.Pairwise fun a b ↦ a.endsAt ≤ b.startsAt :=
  ((calendarChecks_ok_iff _ _ _).mp p.checks.2.2.1).2.1

/-- Every hour of the calendar lies inside the planning span. -/
theorem calendar_inside (s : PlanningSlot) (hs : s ∈ p.calendar) :
    p.planningStartedAt ≤ s.startsAt ∧ s.endsAt ≤ p.constraints.targetBy :=
  ((calendarChecks_ok_iff _ _ _).mp p.checks.2.2.1).2.2 s hs

/-- No activity has two windows. -/
theorem availability_nodup : (p.candidateAvailability.map (·.actionId)).Nodup := p.checks.2.2.2

/-- Slots are ordered by their index, strictly and with their whole hour. -/
theorem endsAt_le_startsAt {i j : Nat} {s t : PlanningSlot} (hi : p.calendar[i]? = some s)
    (hj : p.calendar[j]? = some t) (h : i < j) : s.endsAt ≤ t.startsAt := by
  obtain ⟨hi', rfl⟩ := List.getElem?_eq_some_iff.mp hi
  obtain ⟨hj', rfl⟩ := List.getElem?_eq_some_iff.mp hj
  exact List.pairwise_iff_getElem.mp p.calendar_disjoint i j hi' hj' h

/-- A later index never ends earlier. -/
theorem endsAt_mono {i j : Nat} {s t : PlanningSlot} (hi : p.calendar[i]? = some s)
    (hj : p.calendar[j]? = some t) (h : i ≤ j) : s.endsAt ≤ t.endsAt := by
  rcases Nat.lt_or_eq_of_le h with h | rfl
  · exact le_trans (p.endsAt_le_startsAt hi hj h) (le_of_lt t.startsAt_lt_endsAt)
  · rw [hi] at hj
    rw [Option.some.inj hj]

end PlanningProblem

/-! ### Derived quantities -/

/-- `_known_cost`: an unknown cost counts as zero.
`src/jobtology_be/planning/cp_sat_model.py:221–228`,
`src/jobtology_be/planning/solver_models.py:318–325`. -/
def knownCost (c : Candidate) : Int :=
  match c.cost with
  | .known krw => krw
  | .unknown => 0

/-- `_has_unknown_cost`. `src/jobtology_be/planning/cp_sat_planner.py:249–256`,
`src/jobtology_be/planning/cp_sat_results.py:155–162`. -/
def hasUnknownCost (c : Candidate) : Bool :=
  match c.cost with
  | .known _ => false
  | .unknown => true

/-- `microseconds_from_planning_start`. `src/jobtology_be/planning/solver_models.py:328–329`. -/
def microsecondsFromPlanningStart (p : PlanningProblem) (value : Int) : Int :=
  value - p.planningStartedAt

/-- `OBJECTIVE_VERSION`. -/
def objectiveVersion : String := "CP_SAT_NORMALIZED_V1"

/-- The weights and bounds of the objective.
`src/jobtology_be/planning/solver_models.py:136–145`. -/
structure ObjectiveSnapshot where
  version : String
  coverageWeight : Int
  timeWeight : Int
  costWeight : Int
  preferredRequirementCount : Nat
  horizonMicroseconds : Int
  knownCostUpperBoundKrw : Int

/-- `objective_snapshot`. `src/jobtology_be/planning/solver_models.py:290–315`. -/
def objectiveSnapshot (p : PlanningProblem) : ObjectiveSnapshot :=
  let (coverage, time, cost) :=
    match p.constraints.budgetMode with
    | .regular => ((55, 30, 15) : Int × Int × Int)
    | .lowCost => (35, 20, 45)
  let (coverage, time, cost) :=
    if p.constraints.fastestPath then (coverage - 10, time + 15, cost - 5)
    else (coverage, time, cost)
  { version := if p.foundationalPriorityActionIds = ∅ then objectiveVersion
      else objectiveVersion ++ "_FOUNDATION_PRIORITY_V1"
    coverageWeight := coverage
    timeWeight := time
    costWeight := cost
    preferredRequirementCount := p.preferredRequirementKeys.card
    horizonMicroseconds := p.constraints.targetBy - p.planningStartedAt
    knownCostUpperBoundKrw := (p.candidates.map knownCost).sum }

/-- The horizon is not empty. -/
theorem horizonMicroseconds_pos (p : PlanningProblem) :
    0 < (objectiveSnapshot p).horizonMicroseconds := by
  have h := p.start_lt_target
  change 0 < p.constraints.targetBy - p.planningStartedAt
  omega

/-- A known cost is not negative. -/
theorem knownCost_nonneg (c : Candidate) : 0 ≤ knownCost c := by
  unfold knownCost
  split <;> omega

end Jobtology.Planning
