import Jobtology.Planning.RouteModel

/-!
# The laws of a route

What an assignment that satisfies the posted constraints says about selection, hours, weeks,
windows, prerequisites and budget, in plain arithmetic. `coreConstraints` are the constraints
that state these laws; the solver shortcuts and the objective are not among them.
-/

namespace Jobtology.Planning

open Jobtology.Base Jobtology.Cp

/-- The constraints of one candidate without the capacity pre-exclusion. -/
def coreCandidateConstraints (p : PlanningProblem) (c : Candidate) : List (Constraint RouteVar) :=
  exactHours p c ++ windowExclusion p c ++ completionDefinition p c ++ unknownCostExclusion p c

/-- Selection, exact hours, windows, one activity per slot, weekly capacity, prerequisites and
budget: the constraints that say what a route is. -/
def coreConstraints (p : PlanningProblem) (cs : List Candidate) : List (Constraint RouteVar) :=
  cs.flatMap (coreCandidateConstraints p) ++ slotConstraints p cs ++ weekConstraints p cs ++
    prerequisiteConstraints p cs ++ budgetConstraints p cs

/-- Every satisfying assignment of the whole model satisfies the core constraints. -/
theorem core_of_satisfies {p : PlanningProblem} {cs : List Candidate} {coverage : Bool}
    {σ : RouteVar → Int} (h : (routeModel p cs coverage).Satisfies σ) :
    Model.InDomain σ (candidateDomains p cs) ∧ Model.AllHold σ (coreConstraints p cs) := by
  obtain ⟨hd, hc⟩ := h
  simp only [routeModel, Model.inDomain_append] at hd
  simp only [routeModel, Model.allHold_append, Model.allHold_flatMap, candidateConstraints] at hc
  refine ⟨hd.1.1.1, ?_⟩
  simp only [coreConstraints, Model.allHold_append, Model.allHold_flatMap,
    coreCandidateConstraints]
  obtain ⟨⟨⟨⟨⟨⟨hcand, hslot⟩, hweek⟩, hpre⟩, hbudget⟩, _⟩, _⟩ := hc
  refine ⟨⟨⟨⟨fun c hm ↦ ?_, hslot⟩, hweek⟩, hpre⟩, hbudget⟩
  obtain ⟨⟨⟨⟨_, hexact⟩, hwindow⟩, hcompletion⟩, hunknown⟩ := hcand c hm
  exact ⟨⟨⟨hexact, hwindow⟩, hcompletion⟩, hunknown⟩

/-- The value of an assignment variable of a candidate at a slot index. -/
def assignedAt (σ : RouteVar → Int) (c : Candidate) (i : Nat) : Int := σ (.assigned c.actionId i)

/-- The laws of a route as arithmetic on the assignment. -/
structure RouteLaws (p : PlanningProblem) (cs : List Candidate) (σ : RouteVar → Int) : Prop where
  selected01 : ∀ c ∈ cs, σ (.selected c.actionId) = 0 ∨ σ (.selected c.actionId) = 1
  assigned01 : ∀ c ∈ cs, ∀ s ∈ p.calendar.zipIdx,
    assignedAt σ c s.2 = 0 ∨ assignedAt σ c s.2 = 1
  completionDomain : ∀ c ∈ cs, 0 ≤ σ (.completion c.actionId) ∧
    σ (.completion c.actionId) ≤ (objectiveSnapshot p).horizonMicroseconds
  exactHours : ∀ c ∈ cs, (p.calendar.zipIdx.map fun s ↦ assignedAt σ c s.2).sum =
    c.estimatedHours * σ (.selected c.actionId)
  window : ∀ c ∈ cs, ∀ s ∈ p.calendar.zipIdx,
    isAvailable s.1 (availabilityOf p c.actionId) = false → assignedAt σ c s.2 = 0
  completionLe : ∀ c ∈ cs, ∀ s ∈ p.calendar.zipIdx,
    microsecondsFromPlanningStart p s.1.endsAt * assignedAt σ c s.2 ≤ σ (.completion c.actionId)
  completionAttained : ∀ c ∈ cs, ∃ s ∈ p.calendar.zipIdx,
    microsecondsFromPlanningStart p s.1.endsAt * assignedAt σ c s.2 = σ (.completion c.actionId)
  oneActivity : ∀ s ∈ p.calendar.zipIdx, (cs.map fun c ↦ assignedAt σ c s.2).sum ≤ 1
  weekly : ∀ week ∈ p.calendar.map (·.capacityWeekKey),
    (cs.map fun c ↦ ((p.calendar.zipIdx.filter fun s ↦ s.1.capacityWeekKey = week).map fun s ↦
      assignedAt σ c s.2).sum).sum ≤ p.constraints.availableHoursPerWeek
  prerequisiteSelected : ∀ c ∈ cs, ∀ a ∈ c.prerequisiteActionIds,
    σ (.selected c.actionId) ≤ σ (.selected a)
  prerequisiteBefore : ∀ c ∈ cs, ∀ a ∈ c.prerequisiteActionIds, ∀ s ∈ p.calendar.zipIdx,
    assignedAt σ c s.2 = 1 →
      σ (.completion a) ≤ microsecondsFromPlanningStart p s.1.startsAt
  budget : ∀ cap, p.constraints.maxOutOfPocketKrw = some cap →
    (cs.map fun c ↦ knownCost c * σ (.selected c.actionId)).sum ≤ cap
  unknownCost : ∀ cap, p.constraints.maxOutOfPocketKrw = some cap → ∀ c ∈ cs,
    hasUnknownCost c = true → σ (.selected c.actionId) = 0

/-- The core constraints are exactly the laws they were posted for. -/
theorem routeLaws_of_core {p : PlanningProblem} {cs : List Candidate} {σ : RouteVar → Int}
    (hd : Model.InDomain σ (candidateDomains p cs))
    (hc : Model.AllHold σ (coreConstraints p cs)) : RouteLaws p cs σ := by
  simp only [candidateDomains, Model.inDomain_append] at hd
  obtain ⟨⟨hsel, hass⟩, hcomp⟩ := hd
  simp only [coreConstraints, coreCandidateConstraints, Model.allHold_append,
    Model.allHold_flatMap] at hc
  obtain ⟨⟨⟨⟨hcand, hslot⟩, hweek⟩, hpre⟩, hbudget⟩ := hc
  constructor
  case selected01 =>
    exact Model.inDomain_boolVars σ (fun c : Candidate ↦ .selected c.actionId) cs hsel
  case assigned01 =>
    intro c hm s hs
    have h := hass (Model.boolVar (.assigned c.actionId s.2))
      (List.mem_flatMap.mpr ⟨c, hm, List.mem_map.mpr ⟨s, hs, rfl⟩⟩)
    simp only [Model.boolVar] at h
    unfold assignedAt
    omega
  case completionDomain =>
    intro c hm
    exact hcomp _ (List.mem_map.mpr ⟨c, hm, rfl⟩)
  case exactHours =>
    intro c hm
    have h := (hcand c hm).1.1.1
    simpa [Planning.exactHours, assignmentSum, assignedAt, Function.comp_def] using h
  case window =>
    intro c hm s hs hn
    have h := (hcand c hm).1.1.2
    simp only [windowExclusion, Model.allHold_map] at h
    simpa [assignedAt] using h s (List.mem_filter.mpr ⟨hs, by simp [hn]⟩)
  case completionLe =>
    intro c hm s hs
    have h := (hcand c hm).1.2
    simp only [completionDefinition, Model.allHold_cons, Constraint.Holds] at h
    simpa [assignedAt] using h.1.1 _ (List.mem_map.mpr ⟨s, hs, rfl⟩)
  case completionAttained =>
    intro c hm
    have h := (hcand c hm).1.2
    simp only [completionDefinition, Model.allHold_cons, Constraint.Holds] at h
    obtain ⟨e, he, hv⟩ := h.1.2
    obtain ⟨s, hs, rfl⟩ := List.mem_map.mp he
    exact ⟨s, hs, by simpa [assignedAt] using hv⟩
  case oneActivity =>
    intro s hs
    simp only [slotConstraints, Model.allHold_map] at hslot
    simpa [assignedAt, Function.comp_def] using hslot s hs
  case weekly =>
    intro week hw
    simp only [weekConstraints, Model.allHold_map, mem_sortedSet, List.mem_toFinset] at hweek
    simpa [assignedAt, Function.comp_def, List.flatMap_def, List.sum_flatten, List.map_flatten]
      using hweek week hw
  case prerequisiteSelected =>
    intro c hm a ha
    simp only [prerequisiteConstraints, Model.allHold_flatMap, Model.allHold_cons] at hpre
    simpa using (hpre c hm a ha).1
  case prerequisiteBefore =>
    intro c hm a ha s hs h1
    simp only [prerequisiteConstraints, Model.allHold_flatMap, Model.allHold_cons,
      Model.allHold_map] at hpre
    simpa using (hpre c hm a ha).2 s hs h1
  case budget =>
    intro cap hcap
    simp only [budgetConstraints, hcap, Model.allHold_cons] at hbudget
    simpa [knownSpend, Function.comp_def] using hbudget.1
  case unknownCost =>
    intro cap hcap c hm hu
    have h := (hcand c hm).2
    simp only [unknownCostExclusion, hcap] at h
    unfold hasUnknownCost at hu
    cases hcost : c.cost with
    | known krw => simp [hcost] at hu
    | unknown =>
      simp only [hcost, Model.allHold_cons] at h
      simpa using h.1

/-- The laws hold of every satisfying assignment of the model. -/
theorem routeLaws_of_satisfies {p : PlanningProblem} {cs : List Candidate} {coverage : Bool}
    {σ : RouteVar → Int} (h : (routeModel p cs coverage).Satisfies σ) : RouteLaws p cs σ :=
  have hcore := core_of_satisfies h
  routeLaws_of_core hcore.1 hcore.2

/-! ### Occupied hours -/

/-- The calendar slots, with their indices, that the assignment gives to a candidate. -/
def occupied (p : PlanningProblem) (σ : RouteVar → Int) (c : Candidate) :
    List (PlanningSlot × Nat) :=
  p.calendar.zipIdx.filter fun s ↦ assignedAt σ c s.2 = 1

/-- The occupied slots of an activity are the slots assigned to it. -/
theorem mem_occupied {p : PlanningProblem} {σ : RouteVar → Int} {c : Candidate}
    {s : PlanningSlot × Nat} :
    s ∈ occupied p σ c ↔ p.calendar[s.2]? = some s.1 ∧ assignedAt σ c s.2 = 1 := by
  simp [occupied, List.mem_filter, List.mem_zipIdx_iff_getElem?]

/-- Occupied slots are listed by increasing index. -/
theorem occupied_sorted (p : PlanningProblem) (σ : RouteVar → Int) (c : Candidate) :
    (occupied p σ c).Pairwise fun s t ↦ s.2 < t.2 := by
  apply List.Pairwise.filter
  rw [List.pairwise_iff_getElem]
  intro i j hi hj hij
  simpa using hij

namespace RouteLaws

variable {p : PlanningProblem} {cs : List Candidate} {σ : RouteVar → Int}

/-- A candidate occupies its estimated hours when selected and none otherwise. -/
theorem length_occupied (h : RouteLaws p cs σ) {c : Candidate} (hc : c ∈ cs) :
    ((occupied p σ c).length : Int) = c.estimatedHours * σ (.selected c.actionId) := by
  rw [← h.exactHours c hc, sum_eq_countP _ _ (h.assigned01 c hc), List.countP_eq_length_filter]
  rfl

/-- No slot is occupied by two candidates. -/
theorem occupied_exclusive (h : RouteLaws p cs σ) {c d : Candidate} (hc : c ∈ cs) (hd : d ∈ cs)
    (hne : c ≠ d) {s t : PlanningSlot × Nat} (hs : s ∈ occupied p σ c)
    (ht : t ∈ occupied p σ d) : s.2 ≠ t.2 := by
  intro he
  obtain ⟨hcal, h1⟩ := mem_occupied.mp hs
  obtain ⟨-, h2⟩ := mem_occupied.mp ht
  have hz : s ∈ p.calendar.zipIdx := List.mem_zipIdx_iff_getElem?.mpr hcal
  have hsum := h.oneActivity s hz
  rw [← he] at h2
  have hdm : d ∈ cs.erase c := (List.mem_erase_of_ne hne.symm).mpr hd
  have hrest : assignedAt σ d s.2 ≤ ((cs.erase c).map fun c ↦ assignedAt σ c s.2).sum := by
    apply List.single_le_sum _ _ (List.mem_map.mpr ⟨d, hdm, rfl⟩)
    intro x hx
    obtain ⟨e, hem, rfl⟩ := List.mem_map.mp hx
    rcases h.assigned01 e (List.mem_of_mem_erase hem) s hz with h0 | h0 <;> omega
  have hsplit := List.sum_map_erase (fun c ↦ assignedAt σ c s.2) hc
  omega

/-- Every occupied slot ends by the completion of its candidate. -/
theorem endsAt_le_completion (h : RouteLaws p cs σ) {c : Candidate} (hc : c ∈ cs)
    {s : PlanningSlot × Nat} (hs : s ∈ occupied p σ c) :
    microsecondsFromPlanningStart p s.1.endsAt ≤ σ (.completion c.actionId) := by
  obtain ⟨hcal, h1⟩ := mem_occupied.mp hs
  have hle := h.completionLe c hc s (List.mem_zipIdx_iff_getElem?.mpr hcal)
  rw [h1, mul_one] at hle
  exact hle

/-- An occupied slot is available to its candidate. -/
theorem occupied_available (h : RouteLaws p cs σ) {c : Candidate} (hc : c ∈ cs)
    {s : PlanningSlot × Nat} (hs : s ∈ occupied p σ c) :
    isAvailable s.1 (availabilityOf p c.actionId) = true := by
  obtain ⟨hcal, h1⟩ := mem_occupied.mp hs
  by_contra hn
  have h0 := h.window c hc s (List.mem_zipIdx_iff_getElem?.mpr hcal) (by simpa using hn)
  omega

/-- The hours that a candidate occupies in one week, as a sum of assignment values. -/
theorem countP_week (h : RouteLaws p cs σ) {c : Candidate} (hc : c ∈ cs) (week : String) :
    ((occupied p σ c).countP fun s ↦ s.1.capacityWeekKey = week : Int) =
      ((p.calendar.zipIdx.filter fun s ↦ s.1.capacityWeekKey = week).map fun s ↦
        assignedAt σ c s.2).sum := by
  rw [sum_eq_countP _ _ fun s hs ↦ h.assigned01 c hc s (List.mem_filter.mp hs).1]
  unfold occupied
  rw [List.countP_filter, List.countP_filter]
  congr 2
  funext s
  rw [Bool.and_comm]

/-- The hours of all candidates in one week are at most the weekly hours. -/
theorem weekly_count (h : RouteLaws p cs σ) (week : String) :
    (cs.map fun c ↦ ((occupied p σ c).countP fun s ↦ s.1.capacityWeekKey = week : Int)).sum ≤
      p.constraints.availableHoursPerWeek := by
  rw [List.map_congr_left fun c hc ↦ h.countP_week hc week]
  by_cases hw : week ∈ p.calendar.map (·.capacityWeekKey)
  · exact h.weekly week hw
  · have hempty : p.calendar.zipIdx.filter (fun s ↦ s.1.capacityWeekKey = week) = [] := by
      rw [List.filter_eq_nil_iff]
      intro s hs he
      have hm := List.fst_mem_of_mem_zipIdx hs
      exact hw (List.mem_map.mpr ⟨s.1, hm, by simpa using he⟩)
    have hr := p.constraints.hoursRange.1
    simp only [hempty, List.map_nil, List.sum_nil]
    simp
    omega

end RouteLaws

end Jobtology.Planning
