import Jobtology.Weekly.PlanSchedule

/-!
# What a weekly plan shows

The parts that `build_weekly_plan` puts a response together from, in every mode.
-/

namespace Jobtology.Weekly

open Jobtology.Base Jobtology.Time

section Build

variable {rounds : Nat} {context : PlanContext} {steps : List PlanStepInput}
  {saved : Option PlanOverrides}

/-- The saved schedule of a step. -/
def savedSchedule (saved : Option PlanOverrides) (key : Uuid) : Option WeeklyPlanStep :=
  saved.bind fun o ↦ o.stepSchedules key

/-- What a plan makes its steps from, given its schedules. -/
def planInputs (context : PlanContext) (steps : List PlanStepInput)
    (saved : Option PlanOverrides) (fixed packed : List (Uuid × Scheduled)) : PlanInputs where
  context := context
  overrides := effectiveOverrides context steps saved
  snapshots := savedSchedule saved
  recommended := recommendedOrder steps
  start := planStart context steps
  fixed := fixed
  packed := packed

/-- The schedules of a plan and the steps it shows for them. -/
structure BuiltFrom (rounds : Nat) (context : PlanContext) (steps : List PlanStepInput)
    (saved : Option PlanOverrides) (response : WeeklyPlanResponse)
    (recommendedPacked fixed packed : List (Uuid × Scheduled)) : Prop where
  estimated : estimatedSchedules rounds context steps = .ok recommendedPacked
  kept : fixedSchedules context steps (savedSchedule saved) recommendedPacked = .ok fixed
  inForce : planSchedules rounds context steps (effectiveOverrides context steps saved)
    recommendedPacked fixed = .ok packed
  shown : ((planOrder steps (effectiveOverrides context steps saved)).zipIdx 1).mapM (fun entry ↦
    (planInputs context steps saved fixed packed).step entry.2 entry.1) = .ok response.steps

/-- What a plan is put together from. -/
theorem buildWeeklyPlan_ok {response : WeeklyPlanResponse}
    (h : buildWeeklyPlan rounds context steps saved = .ok response) :
    ∃ recommendedPacked fixed packed,
      BuiltFrom rounds context steps saved response recommendedPacked fixed packed := by
  unfold buildWeeklyPlan at h
  obtain ⟨recommendedPacked, hestimated, h⟩ := bind_eq_ok.mp h
  obtain ⟨fixed, hfixed, h⟩ := bind_eq_ok.mp h
  obtain ⟨packed, hpacked, h⟩ := bind_eq_ok.mp h
  obtain ⟨recommendedDates, -, h⟩ := bind_eq_ok.mp h
  obtain ⟨shown, hshown, h⟩ := bind_eq_ok.mp h
  obtain rfl := Except.ok.inj h
  exact ⟨recommendedPacked, fixed, packed, hestimated, hfixed, hpacked, hshown⟩

private theorem mem_planOrder {overrides : Option PlanOverrides} {item : PlanStepInput}
    (h : item ∈ planOrder steps overrides) : item ∈ steps := by
  unfold planOrder at h
  split at h
  · exact mem_recommendedOrder.mp (lookupLast_some (mem_customOrder.mp h)).1
  · exact mem_recommendedOrder.mp h

/-- Every shown step is one of the roadmap's, made by the step function. -/
theorem BuiltFrom.exists_item {response : WeeklyPlanResponse}
    {recommendedPacked fixed packed : List (Uuid × Scheduled)}
    (h : BuiltFrom rounds context steps saved response recommendedPacked fixed packed)
    {shown : WeeklyPlanStep} (hshown : shown ∈ response.steps) :
    ∃ item ∈ steps, ∃ number,
      (planInputs context steps saved fixed packed).step number item = .ok shown := by
  obtain ⟨entry, hentry, hstep⟩ := exists_of_mem_right (forall₂_of_mapM_ok h.shown) hshown
  exact ⟨entry.1, mem_planOrder (List.fst_mem_of_mem_zipIdx hentry), entry.2, hstep⟩

/-- A shown step has the id and the state of the step it shows. -/
theorem PlanInputs.step_state {inputs : PlanInputs} {number : Nat} {item : PlanStepInput}
    {shown : WeeklyPlanStep} (h : inputs.step number item = .ok shown) :
    shown.stepId = item.step.stepId ∧ shown.state = item.step.state := by
  unfold PlanInputs.step at h
  obtain ⟨⟨firstDate, lastDate⟩, -, h⟩ := bind_eq_ok.mp h
  obtain ⟨unmetIds, -, h⟩ := bind_eq_ok.mp h
  obtain ⟨weekAllocations, -, h⟩ := bind_eq_ok.mp h
  obtain rfl := Except.ok.inj h
  exact ⟨rfl, rfl⟩

/-- The steps of a plan show the states that the roadmap's steps have. -/
theorem buildWeeklyPlan_states {response : WeeklyPlanResponse}
    (h : buildWeeklyPlan rounds context steps saved = .ok response) {shown : WeeklyPlanStep}
    (hshown : shown ∈ response.steps) :
    ∃ item ∈ steps, item.step.stepId = shown.stepId ∧ item.step.state = shown.state := by
  obtain ⟨_, _, _, hbuilt⟩ := buildWeeklyPlan_ok h
  obtain ⟨item, hitem, _, hstep⟩ := hbuilt.exists_item hshown
  obtain ⟨hid, hstate⟩ := PlanInputs.step_state hstep
  exact ⟨item, hitem, hid.symm, hstate.symm⟩

end Build

end Jobtology.Weekly
