import Jobtology.Base.Json
import Jobtology.Planning.Calendar
import Jobtology.Workers.Context

/-!
# Contexts that are carried forward

`infrastructure/persistence/context_carryforward.py`: a stored recompute context is rebuilt for a
later instant. Documents stand for their payloads, and their timestamps for the instants that they
denote.
-/

namespace Jobtology.Workers

open Jobtology.Base Jobtology.Analyses Jobtology.Planning Jobtology.Profiles Jobtology.Time

/-! ## Model -/

/-- `calendar_policy`. -/
inductive CalendarPolicy
  | explicit
  | flexibleWeeklyV1
  deriving DecidableEq

/-- `RecomputeContextDocument` with the members that only the document carries. -/
structure StoredContext extends RecomputeContextDocument where
  requirementMetadata : List (String × Json) := []
  calendarPolicy : CalendarPolicy := .explicit

/-- `ContextCarryforwardError`.
`src/jobtology_be/infrastructure/persistence/context_carryforward.py:18–21`. -/
structure ContextCarryforwardError where
  deriving DecidableEq

/-- `ContextCarryforwardInput`.
`src/jobtology_be/infrastructure/persistence/context_carryforward.py:25–34`. -/
structure ContextCarryforwardInput where
  userId : Uuid
  goalId : Uuid
  goalOccupationId : String
  profileVersion : Nat
  goalTargetBy : Int
  capabilities : List CapabilityInput
  completeness : InputCompleteness
  now : AwareDateTime
  currentConstraints : Option PlanningConstraints := none

/-- The constraints that are planned with. -/
def carriedConstraints (previous : StoredContext) (input : ContextCarryforwardInput) :
    PlanningConstraints :=
  input.currentConstraints.getD { previous.constraints with targetBy := input.goalTargetBy }

/-- The windows that have not ended, from now on. -/
def carriedWindows (now : Int) (windows : List CandidateAvailabilityData) :
    List CandidateAvailabilityData :=
  (windows.filter (now ≤ ·.availableUntil)).map fun a ↦
    { a with availableFrom := max a.availableFrom now }

/-- `flexible_weekly_slots` of the constraints. -/
def carriedSlots (constraints : PlanningConstraints) (now : AwareDateTime) :
    Except FlexibleCalendarError (List PlanningSlot) :=
  flexibleWeeklySlots now constraints.targetBy constraints.availableHoursPerWeek
    constraints.weeklyAvailability constraints.unavailableDates

/-- `carry_forward_recompute_context`.
`src/jobtology_be/infrastructure/persistence/context_carryforward.py:37–100`. -/
def carryForwardRecomputeContext (previous : StoredContext) (input : ContextCarryforwardInput) :
    Except ContextCarryforwardError StoredContext :=
  if previous.userId ≠ input.userId ∨ previous.goalId ≠ input.goalId then .error ⟨⟩
  else if previous.selection.occupationId ≠ input.goalOccupationId then .error ⟨⟩
  else
    let constraints := carriedConstraints previous input
    if constraints.targetBy ≠ input.goalTargetBy then .error ⟨⟩
    else match carriedSlots constraints input.now with
      | .error _ => .error ⟨⟩
      | .ok calendar =>
        if calendar = [] then .error ⟨⟩
        else if hversion : 1 ≤ input.profileVersion then .ok
          { requirementMetadata := previous.requirementMetadata
            userId := input.userId
            profileVersion := input.profileVersion
            goalId := input.goalId
            selection := previous.selection
            source := previous.source
            capabilities := input.capabilities
            completeness := input.completeness
            constraints := constraints
            referenceAt := input.now.instant
            planningStartedAt := input.now.instant
            calendarPolicy := .flexibleWeeklyV1
            calendar := calendar.map (·.toPlanningSlotData)
            candidateAvailability :=
              carriedWindows input.now.instant previous.candidateAvailability
            solverSettings := previous.solverSettings
            positive := hversion }
        else .error ⟨⟩

/-! ## Purpose -/

/-- A calendar that a planning problem accepts, within the weekly capacity. -/
structure PlannableCalendar (now : AwareDateTime) (constraints : PlanningConstraints)
    (calendar : List PlanningSlot) : Prop where
  afterStart : now.instant < constraints.targetBy
  keyed : ∀ s ∈ calendar, s.capacityWeekKey = weekKey (weekAt now.zone s.startsAt)
  accepted : calendarChecks now.instant constraints.targetBy calendar = .ok ()
  weekly : ∀ week, weekCount now.zone week calendar ≤ constraints.availableHoursPerWeek

/-- Availability windows that a planning problem accepts. -/
def PlannableWindows (windows : List CandidateAvailabilityData) : Prop :=
  (∀ a ∈ windows, a.postInit = .ok ()) ∧ (windows.map (·.actionId)).Nodup

/-- What a context that is carried forward should be. -/
structure CarriedWell (previous : StoredContext) (input : ContextCarryforwardInput)
    (result : StoredContext) : Prop where
  user : result.userId = previous.userId
  goal : result.goalId = previous.goalId
  selection : result.selection = previous.selection ∧ result.source = previous.source
  start : result.planningStartedAt = input.now.instant
  calendar : ∃ slots : List PlanningSlot, result.calendar = slots.map (·.toPlanningSlotData) ∧
    PlannableCalendar input.now result.constraints slots
  windows : PlannableWindows result.candidateAvailability
  again : carryForwardRecomputeContext result input = .ok result

/-- No usable hour of the grid lies strictly between the top of the local hour and now. -/
def NoneBeforeNow (now : AwareDateTime) (target : Int) (windows : List WeeklyAvailabilityWindow)
    (excluded : List Int) : Prop :=
  ∀ h, GridHour now h → Usable windows excluded now.zone target h →
    ¬ (topOfHour now < h ∧ h < now.instant)

/-- None does when the top of the local hour is at most an hour before now, in particular when the
offset does not change in between. -/
theorem noneBeforeNow_of_top {now : AwareDateTime} (target : Int)
    (windows : List WeeklyAvailabilityWindow) (excluded : List Int)
    (hhour : now.instant ≤ topOfHour now + hour) : NoneBeforeNow now target windows excluded := by
  rintro h ⟨k, rfl⟩ - ⟨hafter, hbefore⟩
  simp only [hour] at hhour hafter hbefore
  omega

/-- The stored windows that have not ended name distinct actions and start before they end. -/
structure OpenWindows (now : Int) (windows : List CandidateAvailabilityData) : Prop where
  named : ∀ a ∈ windows, now ≤ a.availableUntil → isBlank a.actionId = false
  ordered : ∀ a ∈ windows, now ≤ a.availableUntil → a.availableFrom ≤ a.availableUntil
  distinct : windows.Pairwise fun a b ↦
    now ≤ a.availableUntil → now ≤ b.availableUntil → a.actionId ≠ b.actionId

/-! ## The calendar -/

variable {previous result : StoredContext} {input : ContextCarryforwardInput}
  {constraints : PlanningConstraints} {now : AwareDateTime} {slots : List PlanningSlot}

/-- The slots of a calendar that is not empty. -/
theorem carriedSlots_ok (h : carriedSlots constraints now = .ok slots) (hne : slots ≠ []) :
    now.instant < constraints.targetBy ∧ slots = emittedSlots now constraints.targetBy
      constraints.availableHoursPerWeek constraints.weeklyAvailability
      constraints.unavailableDates := by
  unfold carriedSlots flexibleWeeklySlots at h
  split_ifs at h with _ hpast
  · exact absurd (Except.ok.inj h).symm hne
  · exact ⟨Int.not_le.mp hpast, (Except.ok.inj h).symm⟩

/-- The loop starts with the first hour of the grid after the top, unless now is the top. -/
theorem startsInTime_iff (now : AwareDateTime) (target : Int)
    (windows : List WeeklyAvailabilityWindow) (excluded : List Int) :
    StartsInTime now target windows excluded ↔ NoneBeforeNow now target windows excluded := by
  rcases nextHour_cases now with ⟨htop, hnext⟩ | ⟨-, hnext⟩
  · refine iff_of_true (fun k _ ↦ ?_) fun h _ _ ⟨hafter, hbefore⟩ ↦ ?_
    · have hk : 0 ≤ (k : Int) * hour := by positivity
      omega
    · omega
  · constructor
    · rintro hstarts h ⟨k, rfl⟩ husable ⟨hafter, hbefore⟩
      have hshift : topOfHour now + k * hour = nextHour now + ((k - 1).toNat : Int) * hour := by
        simp only [hnext, hour] at hafter ⊢
        omega
      rw [hshift] at husable hbefore
      exact absurd (hstarts _ husable) (Int.not_le.mpr hbefore)
    · intro hnone k husable
      have hk : 0 ≤ (k : Int) * hour := by positivity
      by_contra hbefore
      refine hnone _ ⟨k + 1, ?_⟩ husable ⟨?_, Int.not_le.mp hbefore⟩
      · rw [hnext]
        ring
      · simp only [hnext, hour] at hk ⊢
        omega

/-- The calendar can be planned with exactly when no usable hour lies between the top of the hour
and now. -/
theorem plannableCalendar_iff (h : carriedSlots constraints now = .ok slots)
    (hne : slots ≠ []) :
    PlannableCalendar now constraints slots ↔ NoneBeforeNow now constraints.targetBy
      constraints.weeklyAvailability constraints.unavailableDates := by
  rw [← startsInTime_iff]
  obtain ⟨hspan, hslots⟩ := carriedSlots_ok h hne
  have hpositive : 0 < constraints.availableHoursPerWeek := constraints.hoursRange.1
  rw [← emittedSlots_inTime_iff hpositive, ← hslots]
  constructor
  · intro hcalendar s hs
    exact (((calendarChecks_ok_iff _ _ _).mp hcalendar.accepted).2.2 s hs).1
  · intro hin
    have hgrid (s : PlanningSlot) (hs : s ∈ slots) := by
      rw [hslots] at hs
      exact mem_calendarLoop hs
    refine ⟨hspan, fun s hs ↦ ?_, ?_, fun week ↦ ?_⟩
    · obtain ⟨k, rfl, -⟩ := hgrid s hs
      rfl
    · rw [calendarChecks_ok_iff]
      refine ⟨hne, ?_, fun s hs ↦ ⟨hin s hs, ?_⟩⟩
      · rw [hslots]
        exact calendarLoop_sorted _ _ _
      · obtain ⟨k, rfl, hu⟩ := hgrid s hs
        exact hu.2
    · rw [hslots, emittedSlots]
      have hweekly := @calendarLoop_weekly constraints.availableHoursPerWeek
        constraints.weeklyAvailability constraints.unavailableDates now.zone constraints.targetBy
        ((constraints.targetBy - nextHour now) / slotDuration).toNat (nextHour now) (fun _ ↦ 0)
        week hpositive.le
      rwa [Int.zero_add] at hweekly

/-! ## The windows -/

private theorem postInit_from_iff {a : CandidateAvailabilityData} {u : Int}
    (hopen : u ≤ a.availableUntil) :
    ({ a with availableFrom := max a.availableFrom u } : CandidateAvailabilityData).postInit =
      .ok () ↔ isBlank a.actionId = false ∧ a.availableFrom ≤ a.availableUntil := by
  unfold CandidateAvailabilityData.postInit
  dsimp only
  split_ifs with hblank hbefore
  · simp [hblank]
  · refine iff_of_false (by simp) fun hordered ↦ ?_
    omega
  · refine iff_of_true rfl ⟨by simpa using hblank, ?_⟩
    omega

/-- The windows from now on can be planned with exactly when the open ones are sound as they are
stored. -/
theorem plannableWindows_iff (u : Int) (windows : List CandidateAvailabilityData) :
    PlannableWindows (carriedWindows u windows) ↔ OpenWindows u windows := by
  have haccepted : (∀ a ∈ carriedWindows u windows, a.postInit = .ok ()) ↔
      ∀ a ∈ windows, u ≤ a.availableUntil →
        isBlank a.actionId = false ∧ a.availableFrom ≤ a.availableUntil := by
    unfold carriedWindows
    rw [List.forall_mem_map]
    simp only [List.mem_filter, decide_eq_true_eq, and_imp]
    exact forall₂_congr fun a _ ↦ forall_congr' postInit_from_iff
  have hdistinct : ((carriedWindows u windows).map (·.actionId)).Nodup ↔
      windows.Pairwise fun a b ↦
        u ≤ a.availableUntil → u ≤ b.availableUntil → a.actionId ≠ b.actionId := by
    unfold carriedWindows
    rw [List.map_map, List.Nodup, List.pairwise_map, List.pairwise_filter]
    simp only [decide_eq_true_eq, Function.comp_apply]
  unfold PlannableWindows
  rw [haccepted, hdistinct]
  constructor
  · rintro ⟨hwindows, hactions⟩
    exact ⟨fun a ha hopen ↦ (hwindows a ha hopen).1, fun a ha hopen ↦ (hwindows a ha hopen).2,
      hactions⟩
  · rintro ⟨hnamed, hordered, hactions⟩
    exact ⟨fun a ha hopen ↦ ⟨hnamed a ha hopen, hordered a ha hopen⟩, hactions⟩

/-- Windows that start from now on stay as they are. -/
theorem carriedWindows_again (u : Int) (windows : List CandidateAvailabilityData) :
    carriedWindows u (carriedWindows u windows) = carriedWindows u windows := by
  unfold carriedWindows
  rw [List.filter_map, List.map_map, List.filter_filter]
  simp only [Function.comp_def, max_assoc, max_self, Bool.and_self]

/-! ## What is carried -/

/-- What a context that is carried forward is made of. -/
theorem carryForward_ok (h : carryForwardRecomputeContext previous input = .ok result) :
    previous.userId = input.userId ∧ previous.goalId = input.goalId ∧
      previous.selection.occupationId = input.goalOccupationId ∧
      (carriedConstraints previous input).targetBy = input.goalTargetBy ∧
      ∃ slots hversion, carriedSlots (carriedConstraints previous input) input.now = .ok slots ∧
        slots ≠ [] ∧ result =
          { requirementMetadata := previous.requirementMetadata
            userId := input.userId
            profileVersion := input.profileVersion
            goalId := input.goalId
            selection := previous.selection
            source := previous.source
            capabilities := input.capabilities
            completeness := input.completeness
            constraints := carriedConstraints previous input
            referenceAt := input.now.instant
            planningStartedAt := input.now.instant
            calendarPolicy := .flexibleWeeklyV1
            calendar := slots.map (·.toPlanningSlotData)
            candidateAvailability :=
              carriedWindows input.now.instant previous.candidateAvailability
            solverSettings := previous.solverSettings
            positive := hversion } := by
  unfold carryForwardRecomputeContext at h
  dsimp only at h
  split at h
  · cases h
  split at h
  · cases h
  split at h
  · cases h
  next howner hoccupation htarget =>
    rw [not_or, not_not, not_not] at howner
    cases hslots : carriedSlots (carriedConstraints previous input) input.now with
    | error e =>
      rw [hslots] at h
      cases h
    | ok slots =>
      rw [hslots] at h
      dsimp only at h
      split at h
      · cases h
      · next hempty =>
        split at h
        · next hversion =>
          exact ⟨howner.1, howner.2, not_not.mp hoccupation, not_not.mp htarget, slots, hversion,
            rfl, hempty, (Except.ok.inj h).symm⟩
        · cases h

/-- Carrying a context forward again at the same instant changes nothing. -/
theorem carryForward_again (h : carryForwardRecomputeContext previous input = .ok result) :
    carryForwardRecomputeContext result input = .ok result := by
  obtain ⟨-, -, hoccupation, htarget, slots, hversion, hslots, hempty, rfl⟩ := carryForward_ok h
  have hconstraints (document : StoredContext)
      (hdocument : document.constraints = carriedConstraints previous input) :
      carriedConstraints document input = carriedConstraints previous input := by
    unfold carriedConstraints at hdocument ⊢
    cases hcurrent : input.currentConstraints with
    | some constraints => rfl
    | none =>
      rw [hcurrent] at hdocument
      rw [Option.getD_none, hdocument]
      rfl
  unfold carryForwardRecomputeContext
  rw [if_neg (by simp), if_neg (not_not.mpr hoccupation)]
  dsimp only
  rw [hconstraints _ rfl, if_neg (not_not.mpr htarget), hslots]
  dsimp only
  rw [if_neg hempty, dif_pos hversion, carriedWindows_again]

/-- A context that is carried forward is as it should be exactly when no usable hour lies between
the top of the local hour and now and the stored windows that have not ended are sound.
`src/jobtology_be/infrastructure/persistence/context_carryforward.py:37–100`,
`src/jobtology_be/planning/calendar.py:14–56`,
`src/jobtology_be/planning/solver_models.py:260–287`. -/
theorem carryForward_well_iff (previous : StoredContext) (input : ContextCarryforwardInput)
    (result : StoredContext) (h : carryForwardRecomputeContext previous input = .ok result) :
    CarriedWell previous input result ↔
      NoneBeforeNow input.now input.goalTargetBy
          (carriedConstraints previous input).weeklyAvailability
          (carriedConstraints previous input).unavailableDates ∧
        OpenWindows input.now.instant previous.candidateAvailability := by
  have hagain := carryForward_again h
  obtain ⟨huser, hgoal, -, htarget, slots, hversion, hslots, hempty, rfl⟩ := carryForward_ok h
  rw [← htarget, ← plannableCalendar_iff hslots hempty, ← plannableWindows_iff]
  constructor
  · intro hwell
    obtain ⟨slots', hsame, hcalendar⟩ := hwell.calendar
    have heq : slots = slots' := by
      refine List.map_injective_iff.mpr (fun a b hab ↦ ?_) hsame
      cases a
      cases b
      cases hab
      rfl
    rw [heq]
    exact ⟨hcalendar, hwell.windows⟩
  · rintro ⟨hcalendar, hwindows⟩
    exact ⟨huser.symm, hgoal.symm, ⟨rfl, rfl⟩, rfl, ⟨slots, rfl, hcalendar⟩, hwindows, hagain⟩

/-! ## A clock change inside the hour -/

/-- A stored context with five hours a week. -/
def fiveHoursContext : StoredContext :=
  { userId := 1, profileVersion := 1, goalId := 10, selection := ⟨"o", "b", "release"⟩
    source := .localJson, capabilities := [], completeness := ⟨true, ∅⟩
    constraints :=
      { targetBy := 0, availableHoursPerWeek := 5, budgetMode := .regular
        maxOutOfPocketKrw := none, fastestPath := false, needsPortfolio := false
        careerSwitch := false, weeklyAvailability := [], unavailableDates := []
        hoursRange := by decide }
    referenceAt := 0, planningStartedAt := 0, calendar := [], candidateAvailability := []
    solverSettings := .default, positive := by decide }

/-- The input for that context at an instant, with three hours left. -/
def threeHoursInput (now : AwareDateTime) (target : Int) : ContextCarryforwardInput :=
  { userId := 1, goalId := 10, goalOccupationId := "o", profileVersion := 2
    goalTargetBy := target, capabilities := [], completeness := ⟨true, ∅⟩, now := now }

/-- A context of three hours in UTC is carried forward. -/
theorem carryForward_well_iff_utc :
    ∃ result, carryForwardRecomputeContext fiveHoursContext
        (threeHoursInput (.ofInstant .utc 0) (3 * hour)) = .ok result ∧
      (CarriedWell fiveHoursContext (threeHoursInput (.ofInstant .utc 0) (3 * hour)) result ↔
        NoneBeforeNow (.ofInstant .utc 0) (3 * hour) [] [] ∧
          OpenWindows (AwareDateTime.ofInstant .utc 0).instant []) := by
  refine ⟨_, rfl, ?_⟩
  exact carryForward_well_iff fiveHoursContext (threeHoursInput (.ofInstant .utc 0) (3 * hour)) _
    rfl

/-- On Lord Howe Island, a quarter of an hour after the clock went back, the calendar of the carried
context starts before its planning start. -/
theorem carried_before_start :
    ∃ result, carryForwardRecomputeContext fiveHoursContext
        (threeHoursInput lordHoweStart (17753034 * hour)) = .ok result ∧
      ¬CarriedWell fiveHoursContext (threeHoursInput lordHoweStart (17753034 * hour)) result := by
  refine ⟨_, rfl, fun hwell ↦ ?_⟩
  obtain ⟨slots, hslots, hcalendar⟩ := hwell.calendar
  have hmem : (gridSlot lordHowe (17753031 * hour)).toPlanningSlotData ∈
      slots.map (·.toPlanningSlotData) := by
    rw [← hslots]
    exact List.mem_cons_self
  obtain ⟨s, hs, hsame⟩ := List.mem_map.mp hmem
  have hin := (((calendarChecks_ok_iff _ _ _).mp hcalendar.accepted).2.2 s hs).1
  rw [congrArg PlanningSlotData.startsAt hsame] at hin
  exact absurd hin (by decide)

end Jobtology.Workers
