import Jobtology.Planning.RouteLaws

/-!
# Routes decoded from a solution

`planning/cp_sat_results.py`: the steps of a route are read off the solution values of the route
model, ordered by their planned start.
-/

namespace Jobtology.Planning

open Jobtology.Base

/-- `_step_key`. `src/jobtology_be/planning/cp_sat_results.py:151–152`. -/
def stepKey (c : Candidate) : String := c.actionId ++ "@" ++ toString c.templateRevision

/-- One hour of the calendar given to a step.
`src/jobtology_be/planning/solver_models.py:155–159`. -/
structure SlotAllocation where
  slotIndex : Nat
  capacityWeekKey : String
  startsAt : Int
  endsAt : Int
  deriving DecidableEq

/-- Why an activity was selected. `src/jobtology_be/planning/solver_models.py:60–65`. -/
inductive StepSelectionReason
  | satisfiesRequiredRequirement
  | satisfiesPreferredRequirement
  | prerequisite
  | portfolioPreference
  | foundationalPreference
  deriving DecidableEq

/-- Text of a reason code. -/
def StepSelectionReason.text : StepSelectionReason → String
  | satisfiesRequiredRequirement => "SATISFIES_REQUIRED_REQUIREMENT"
  | satisfiesPreferredRequirement => "SATISFIES_PREFERRED_REQUIREMENT"
  | prerequisite => "PREREQUISITE"
  | portfolioPreference => "PORTFOLIO_PREFERENCE"
  | foundationalPreference => "FOUNDATIONAL_PREFERENCE"

/-- A step of a route. `src/jobtology_be/planning/solver_models.py:163–176`. -/
structure ScheduledRouteStep where
  stepKey : String
  actionId : String
  templateRevision : Int
  title : String
  estimatedHours : Int
  prerequisiteStepKeys : List String
  outcomeRequirementKeys : List String
  completionCriteria : List String
  supportRefs : List String
  reasonCodes : List StepSelectionReason
  plannedStartAt : Int
  plannedEndAt : Int
  slotAllocations : List SlotAllocation
  deriving DecidableEq

/-- `_selection_reasons`: the reasons that apply, in the order of their texts.
`src/jobtology_be/planning/cp_sat_results.py:134–148`. -/
def selectionReasons (p : PlanningProblem) (c : Candidate) (selectedCandidates : List Candidate) :
    List StepSelectionReason :=
  let reasons : List (Bool × StepSelectionReason) :=
    [(decide (c.outcomeRequirementKeys ∩ p.requiredRequirementKeys ≠ ∅),
        .satisfiesRequiredRequirement),
      (decide (c.outcomeRequirementKeys ∩ p.preferredRequirementKeys ≠ ∅),
        .satisfiesPreferredRequirement),
      (selectedCandidates.any fun s ↦ c.actionId ∈ s.prerequisiteActionIds, .prerequisite),
      (decide (c.actionId ∈ p.portfolioActionIds), .portfolioPreference),
      (decide (c.actionId ∈ p.foundationalPriorityActionIds), .foundationalPreference)]
  ((reasons.filter Prod.fst).map Prod.snd).insertionSort fun a b ↦ a.text ≤ b.text

/-- The allocation of a calendar slot with its index. -/
def allocationOf (s : PlanningSlot × Nat) : SlotAllocation :=
  ⟨s.2, s.1.capacityWeekKey, s.1.startsAt, s.1.endsAt⟩

/-- The allocations of a candidate under the solution values. -/
def slotAllocations (p : PlanningProblem) (σ : RouteVar → Int) (c : Candidate) :
    List SlotAllocation :=
  (occupied p σ c).map allocationOf

/-- The candidates that the solution selects. -/
def selectedCandidates (artifacts : RouteModelArtifacts) (σ : RouteVar → Int) : List Candidate :=
  artifacts.candidates.filter fun c ↦ σ (.selected c.actionId) = 1

/-- The step of one selected candidate. There is none where the source raises: `KeyError` for a
prerequisite that is no candidate, `IndexError` for a candidate without allocations. -/
def scheduledStep (p : PlanningProblem) (artifacts : RouteModelArtifacts) (σ : RouteVar → Int)
    (c : Candidate) : Option ScheduledRouteStep := do
  let allocations := slotAllocations p σ c
  let prerequisiteStepKeys ← c.prerequisiteActionIds.mapM fun actionId ↦
    (lookupLast (·.actionId) artifacts.candidates actionId).map stepKey
  let first ← allocations.head?
  let last ← allocations.getLast?
  some
    { stepKey := stepKey c
      actionId := c.actionId
      templateRevision := c.templateRevision
      title := c.title
      estimatedHours := c.estimatedHours
      prerequisiteStepKeys
      outcomeRequirementKeys := sortedSet c.outcomeRequirementKeys
      completionCriteria := c.completionCriteria
      supportRefs := sortedSet c.supportRefs
      reasonCodes := selectionReasons p c (selectedCandidates artifacts σ)
      plannedStartAt := first.startsAt
      plannedEndAt := last.endsAt
      slotAllocations := allocations }

/-- The order of the emitted steps: planned start, then action id. -/
def stepOrder (s t : ScheduledRouteStep) : Prop :=
  toLex (s.plannedStartAt, s.actionId) ≤ toLex (t.plannedStartAt, t.actionId)

instance : DecidableRel stepOrder :=
  fun s t ↦ inferInstanceAs (Decidable
    (toLex (s.plannedStartAt, s.actionId) ≤ toLex (t.plannedStartAt, t.actionId)))

/-- `scheduled_steps`. `src/jobtology_be/planning/cp_sat_results.py:27–68`. -/
def scheduledSteps (p : PlanningProblem) (artifacts : RouteModelArtifacts) (σ : RouteVar → Int) :
    Option (List ScheduledRouteStep) := do
  let steps ← (selectedCandidates artifacts σ).mapM (scheduledStep p artifacts σ)
  some (steps.insertionSort stepOrder)

/-! ### Step keys -/

private theorem at_not_mem_repr (n : Nat) : '@' ∉ n.repr.toList := by
  rw [Nat.toList_repr]
  intro hm
  have hd := Nat.isDigit_of_mem_toDigits (by decide) (by decide) hm
  have hn : '@'.isDigit = false := by decide
  rw [hn] at hd
  exact Bool.false_ne_true hd

private theorem at_not_mem_toString (n : Int) : '@' ∉ (toString n).toList := by
  rw [Int.toString_eq_repr, Int.repr_eq_if]
  split
  · exact at_not_mem_repr n.toNat
  · simpa using at_not_mem_repr (-n).toNat

/-- The action id can be read back from a step key: the digits after the last `@` are the
revision. -/
theorem actionId_eq_of_stepKey_eq {c d : Candidate} (h : stepKey c = stepKey d) :
    c.actionId = d.actionId := by
  have hl := congrArg (fun s ↦ s.toList.reverse) h
  have hat : ("@" : String).toList = ['@'] := rfl
  simp only [stepKey, String.toList_append, hat, List.reverse_append, List.append_assoc,
    List.reverse_singleton] at hl
  have hc := at_not_mem_toString c.templateRevision
  have hd := at_not_mem_toString d.templateRevision
  rw [← List.mem_reverse] at hc hd
  have hcut := (eq_of_append_separator hc hd hl).2
  exact String.toList_injective (List.reverse_injective hcut)

/-! ### Decoding -/

section Decoding

variable {p : PlanningProblem} {cs : List Candidate} {σ : RouteVar → Int}

/-- The allocations of an activity are the slots assigned to it. -/
theorem mem_slotAllocations {c : Candidate} {a : SlotAllocation} :
    a ∈ slotAllocations p σ c ↔ ∃ slot, p.calendar[a.slotIndex]? = some slot ∧
      assignedAt σ c a.slotIndex = 1 ∧ a = allocationOf (slot, a.slotIndex) := by
  unfold slotAllocations
  rw [List.mem_map]
  constructor
  · rintro ⟨s, hs, rfl⟩
    obtain ⟨hcal, h1⟩ := mem_occupied.mp hs
    exact ⟨s.1, hcal, h1, rfl⟩
  · rintro ⟨slot, hcal, h1, ha⟩
    exact ⟨(slot, a.slotIndex), mem_occupied.mpr ⟨hcal, h1⟩, ha.symm⟩

/-- Allocations are listed in the order of the calendar. -/
theorem slotAllocations_sorted (p : PlanningProblem) (σ : RouteVar → Int) (c : Candidate) :
    (slotAllocations p σ c).Pairwise fun a b ↦
      a.slotIndex < b.slotIndex ∧ a.endsAt ≤ b.startsAt := by
  unfold slotAllocations
  rw [List.pairwise_map]
  refine (occupied_sorted p σ c).imp_of_mem ?_
  intro s t hs ht hlt
  exact ⟨hlt, p.endsAt_le_startsAt (mem_occupied.mp hs).1 (mem_occupied.mp ht).1 hlt⟩

private theorem startsAt_le_of_head {xs : List SlotAllocation} {first a : SlotAllocation}
    (hp : xs.Pairwise fun a b ↦ a.startsAt ≤ b.startsAt) (hf : xs.head? = some first)
    (ha : a ∈ xs) : first.startsAt ≤ a.startsAt := by
  obtain ⟨rest, rfl⟩ := List.head?_eq_some_iff.mp hf
  rcases List.mem_cons.mp ha with rfl | ha
  · exact le_refl _
  · exact (List.pairwise_cons.mp hp).1 a ha

private theorem endsAt_le_of_last {xs : List SlotAllocation} {last a : SlotAllocation}
    (hp : xs.Pairwise fun a b ↦ a.endsAt ≤ b.endsAt) (hl : xs.getLast? = some last)
    (ha : a ∈ xs) : a.endsAt ≤ last.endsAt := by
  obtain ⟨front, rfl⟩ := List.getLast?_eq_some_iff.mp hl
  rcases List.mem_append.mp ha with ha | ha
  · exact (List.pairwise_append.mp hp).2.2 a ha last (by simp)
  · rw [List.mem_singleton.mp ha]

private theorem allocation_startsAt_lt {c : Candidate} {a : SlotAllocation}
    (ha : a ∈ slotAllocations p σ c) : a.startsAt < a.endsAt := by
  obtain ⟨s, -, rfl⟩ := List.mem_map.mp ha
  exact s.1.startsAt_lt_endsAt

/-- The first allocation starts no later than any other. -/
theorem head_slotAllocations_le {c : Candidate} {first a : SlotAllocation}
    (hf : (slotAllocations p σ c).head? = some first) (ha : a ∈ slotAllocations p σ c) :
    first.startsAt ≤ a.startsAt := by
  refine startsAt_le_of_head ((slotAllocations_sorted p σ c).imp_of_mem ?_) hf ha
  intro x y hx _ hxy
  exact le_trans (le_of_lt (allocation_startsAt_lt hx)) hxy.2

/-- The last allocation ends no earlier than any other. -/
theorem le_getLast_slotAllocations {c : Candidate} {last a : SlotAllocation}
    (hl : (slotAllocations p σ c).getLast? = some last) (ha : a ∈ slotAllocations p σ c) :
    a.endsAt ≤ last.endsAt := by
  refine endsAt_le_of_last ((slotAllocations_sorted p σ c).imp_of_mem ?_) hl ha
  intro x y _ hy hxy
  exact le_trans hxy.2 (le_of_lt (allocation_startsAt_lt hy))

/-- What a decoded step takes over from its candidate and its allocations. -/
structure IsStepOf (p : PlanningProblem) (cs : List Candidate) (σ : RouteVar → Int)
    (c : Candidate) (s : ScheduledRouteStep) : Prop where
  stepKey : s.stepKey = Planning.stepKey c
  actionId : s.actionId = c.actionId
  templateRevision : s.templateRevision = c.templateRevision
  estimatedHours : s.estimatedHours = c.estimatedHours
  outcomes : s.outcomeRequirementKeys = sortedSet c.outcomeRequirementKeys
  prerequisites : s.prerequisiteStepKeys.map some = c.prerequisiteActionIds.map fun a ↦
    (lookupLast (·.actionId) cs a).map Planning.stepKey
  allocations : s.slotAllocations = slotAllocations p σ c
  start : ∃ first, (slotAllocations p σ c).head? = some first ∧ s.plannedStartAt = first.startsAt
  finish : ∃ last, (slotAllocations p σ c).getLast? = some last ∧ s.plannedEndAt = last.endsAt

/-- A step is decoded exactly as its candidate says. -/
theorem isStepOf_of_scheduledStep {m : Cp.Model RouteVar} {c : Candidate}
    {s : ScheduledRouteStep} (h : scheduledStep p ⟨m, cs⟩ σ c = some s) :
    IsStepOf p cs σ c s := by
  unfold scheduledStep at h
  cases hk : c.prerequisiteActionIds.mapM fun a ↦
      (lookupLast (·.actionId) cs a).map Planning.stepKey with
  | none => simp [hk] at h
  | some keys =>
    cases hf : (slotAllocations p σ c).head? with
    | none => simp [hk, hf] at h
    | some first =>
      cases hl : (slotAllocations p σ c).getLast? with
      | none => simp [hk, hf, hl] at h
      | some last =>
        simp only [hk, hf, hl, Option.bind_eq_bind, Option.bind_some, Option.some.injEq] at h
        subst h
        exact ⟨rfl, rfl, rfl, rfl, rfl, ((mapM_eq_some_iff _ _ _).mp hk).symm, rfl,
          ⟨first, hf, rfl⟩, ⟨last, hl, rfl⟩⟩

/-- A selected candidate with its prerequisites present and at least one hour has a step. -/
theorem exists_scheduledStep {m : Cp.Model RouteVar} {c : Candidate}
    (hpre : ∀ a ∈ c.prerequisiteActionIds, a ∈ cs.map (·.actionId))
    (hne : slotAllocations p σ c ≠ []) : ∃ s, scheduledStep p ⟨m, cs⟩ σ c = some s := by
  have hkeys : ∃ keys, c.prerequisiteActionIds.mapM (fun a ↦
      (lookupLast (·.actionId) cs a).map Planning.stepKey) = some keys := by
    refine ⟨c.prerequisiteActionIds.map fun a ↦
      ((lookupLast (·.actionId) cs a).map Planning.stepKey).getD "", ?_⟩
    rw [mapM_eq_some_iff, List.map_map]
    apply List.map_congr_left
    intro a ha
    obtain ⟨d, hd, hda⟩ := List.mem_map.mp (hpre a ha)
    cases hl : lookupLast (·.actionId) cs a with
    | none => exact False.elim (lookupLast_eq_none.mp hl d hd hda)
    | some e => simp [hl]
  obtain ⟨keys, hk⟩ := hkeys
  unfold scheduledStep
  cases hf : (slotAllocations p σ c).head? with
  | none => exact False.elim (hne (List.head?_eq_none_iff.mp hf))
  | some first =>
    cases hl : (slotAllocations p σ c).getLast? with
    | none => exact False.elim (hne (List.getLast?_eq_none_iff.mp hl))
    | some last => simp [hk, hf, hl]

instance : Std.Total stepOrder := ⟨fun _ _ ↦ le_total _ _⟩

instance : IsTrans ScheduledRouteStep stepOrder := ⟨fun _ _ _ hst htu ↦ le_trans hst htu⟩

/-- Steps are ordered by their starts. -/
theorem startsAt_le_of_stepOrder {s t : ScheduledRouteStep} (h : stepOrder s t) :
    s.plannedStartAt ≤ t.plannedStartAt := by
  rcases Prod.Lex.toLex_le_toLex.mp h with hlt | ⟨heq, -⟩
  · exact le_of_lt hlt
  · exact le_of_eq heq

/-- A decoded route holds one step for each selected candidate, in the order of planned starts. -/
theorem scheduledSteps_spec {m : Cp.Model RouteVar} {steps : List ScheduledRouteStep}
    (h : scheduledSteps p ⟨m, cs⟩ σ = some steps) :
    ∃ decoded, List.Forall₂ (IsStepOf p cs σ) (selectedCandidates ⟨m, cs⟩ σ) decoded ∧
      steps.Perm decoded ∧ steps.Pairwise stepOrder := by
  unfold scheduledSteps at h
  cases hd : (selectedCandidates ⟨m, cs⟩ σ).mapM (scheduledStep p ⟨m, cs⟩ σ) with
  | none => simp [hd] at h
  | some decoded =>
    simp only [hd, Option.bind_eq_bind, Option.bind_some, Option.some.injEq] at h
    subst h
    refine ⟨decoded, ?_, List.perm_insertionSort _ _, List.pairwise_insertionSort _ _⟩
    have hmap := (mapM_eq_some_iff _ _ _).mp hd
    have hall : List.Forall₂ (fun c s ↦ scheduledStep p ⟨m, cs⟩ σ c = some s)
        (selectedCandidates ⟨m, cs⟩ σ) decoded := by
      have heq := List.forall₂_eq_eq_eq ▸ hmap
      exact List.forall₂_map_left_iff.mp (List.forall₂_map_right_iff.mp heq)
    exact hall.imp fun c s hs ↦ isStepOf_of_scheduledStep hs

/-- Decoding succeeds when every selected candidate can be decoded. -/
theorem exists_scheduledSteps {m : Cp.Model RouteVar}
    (hpre : ∀ c ∈ cs, ∀ a ∈ c.prerequisiteActionIds, a ∈ cs.map (·.actionId))
    (hne : ∀ c ∈ selectedCandidates ⟨m, cs⟩ σ, slotAllocations p σ c ≠ []) :
    ∃ steps, scheduledSteps p ⟨m, cs⟩ σ = some steps := by
  have hstep (c : Candidate) (hc : c ∈ selectedCandidates ⟨m, cs⟩ σ) :
      ∃ s, scheduledStep p ⟨m, cs⟩ σ c = some s :=
    exists_scheduledStep (hpre c (List.mem_filter.mp hc).1) (hne c hc)
  have hdec : ∃ decoded, (selectedCandidates ⟨m, cs⟩ σ).mapM (scheduledStep p ⟨m, cs⟩ σ) =
      some decoded := by
    simp only [mapM_eq_some_iff]
    generalize selectedCandidates ⟨m, cs⟩ σ = selected at hstep
    induction selected with
    | nil => exact ⟨[], rfl⟩
    | cons c rest ih =>
      obtain ⟨s, hs⟩ := hstep c (by simp)
      obtain ⟨decoded, hd⟩ := ih fun d hd ↦ hstep d (by simp [hd])
      exact ⟨s :: decoded, by rw [List.map_cons, List.map_cons, hs, hd]⟩
  obtain ⟨decoded, hd⟩ := hdec
  exact ⟨decoded.insertionSort stepOrder, by simp [scheduledSteps, hd]⟩

end Decoding

end Jobtology.Planning
