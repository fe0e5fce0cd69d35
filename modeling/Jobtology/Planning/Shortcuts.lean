import Jobtology.Planning.RouteValidity
import Mathlib.Algebra.BigOperators.Group.Finset.Basic
import Mathlib.Algebra.Order.BigOperators.Group.Finset
import Mathlib.Algebra.BigOperators.Field
import Mathlib.Tactic.FieldSimp

/-!
# The solver shortcuts

Three shortcuts cut the search short: the effort bound checked before the full solve, the
pre-exclusion of activities that do not fit and the redundant bound on completion. Each is a
counting argument over the occupied slots, and none of them loses a route.
-/

namespace Jobtology.Planning

open Jobtology.Base Jobtology.Cp

/-- `Fraction(candidate.estimated_hours, len(outcomes & required))`: the effort of a candidate
divided among the required requirements it serves. -/
def effortShare (p : PlanningProblem) (c : Candidate) : ℚ :=
  c.estimatedHours / (c.outcomeRequirementKeys ∩ p.requiredRequirementKeys).card

/-- The cheapest share for one requirement; more than the capacity when nothing serves it. -/
def cheapestShare (p : PlanningProblem) (cs : List Candidate) (capacity : Int) (key : String) :
    ℚ :=
  ((cs.filter fun c ↦ key ∈ c.outcomeRequirementKeys).map (effortShare p)).min?.getD
    (capacity + 1)

/-- `_full_capacity_possible`. `src/jobtology_be/planning/cp_sat_planner.py:310–321`. -/
def fullCapacityPossible (p : PlanningProblem) (cs : List Candidate) : Bool :=
  let capacity := capacityOf p.constraints.availableHoursPerWeek p.calendar
  decide (∑ key ∈ p.requiredRequirementKeys, cheapestShare p cs capacity key ≤ capacity)

/-! ### Counting occupied slots -/

/-- Slots of which no week holds more than the weekly hours are at most the capacity of any
calendar they are taken from. -/
theorem length_le_capacityOf {weeklyHours : Int} {taken slots : List PlanningSlot}
    (hsub : taken.Sublist slots)
    (hweek : ∀ week, ((taken.map (·.capacityWeekKey)).count week : Int) ≤ weeklyHours) :
    (taken.length : Int) ≤ capacityOf weeklyHours slots := by
  have hkeys : (taken.map (·.capacityWeekKey)).Sublist (slots.map (·.capacityWeekKey)) :=
    hsub.map _
  have hcount (week : String) : ((taken.map (·.capacityWeekKey)).count week : Int) ≤
      min ((slots.map (·.capacityWeekKey)).count week : Int) weeklyHours :=
    le_min (by exact_mod_cast hkeys.count_le week) (hweek week)
  have hlen : (taken.length : Int) =
      ∑ week ∈ (taken.map (·.capacityWeekKey)).toFinset,
        ((taken.map (·.capacityWeekKey)).count week : Int) := by
    have h := Multiset.toFinset_sum_count_eq (taken.map (·.capacityWeekKey) : Multiset String)
    simp only [Multiset.coe_count, Multiset.coe_card, List.length_map] at h
    exact_mod_cast h.symm
  have hcap : capacityOf weeklyHours slots = ∑ week ∈ (slots.map (·.capacityWeekKey)).toFinset,
      min ((slots.map (·.capacityWeekKey)).count week : Int) weeklyHours := by
    simp only [capacityOf]
    rw [← List.sum_toFinset _ (List.nodup_dedup _)]
    congr 1
    ext week
    simp
  rw [hlen, hcap]
  calc _ ≤ ∑ week ∈ (slots.map (·.capacityWeekKey)).toFinset,
        ((taken.map (·.capacityWeekKey)).count week : Int) :=
        Finset.sum_le_sum_of_subset_of_nonneg
          (fun week hw ↦ by
            simp only [List.mem_toFinset] at hw ⊢
            exact hkeys.subset hw)
          (fun week _ _ ↦ Int.natCast_nonneg _)
    _ ≤ _ := Finset.sum_le_sum fun week _ ↦ hcount week

/-- The order of two sums does not matter. -/
theorem sum_map_sum_comm {α β : Type} (f : α → β → Int) (xs : List α) (ys : List β) :
    (xs.map fun x ↦ (ys.map fun y ↦ f x y).sum).sum =
      (ys.map fun y ↦ (xs.map fun x ↦ f x y).sum).sum := by
  induction xs with
  | nil => simp
  | cons x xs ih =>
    simp only [List.map_cons, List.sum_cons, ih, List.sum_map_add]

/-- The calendar slots, with their indices, that some candidate occupies. -/
def occupiedSlots (p : PlanningProblem) (cs : List Candidate) (σ : RouteVar → Int) :
    List (PlanningSlot × Nat) :=
  p.calendar.zipIdx.filter fun s ↦ (cs.map fun c ↦ assignedAt σ c s.2).sum = 1

/-- The sum of the estimated hours of the selected candidates. -/
def totalHours (cs : List Candidate) (σ : RouteVar → Int) : Int :=
  (cs.map fun c ↦ c.estimatedHours * σ (.selected c.actionId)).sum

namespace RouteLaws

variable {p : PlanningProblem} {cs : List Candidate} {σ : RouteVar → Int}

/-- A slot is used by one candidate or by none. -/
theorem slot_sum_zero_or_one (h : RouteLaws p cs σ) {s : PlanningSlot × Nat}
    (hs : s ∈ p.calendar.zipIdx) :
    (cs.map fun c ↦ assignedAt σ c s.2).sum = 0 ∨
      (cs.map fun c ↦ assignedAt σ c s.2).sum = 1 := by
  have hle := h.oneActivity s hs
  have hge : 0 ≤ (cs.map fun c ↦ assignedAt σ c s.2).sum := by
    apply List.sum_nonneg
    intro x hx
    obtain ⟨c, hc, rfl⟩ := List.mem_map.mp hx
    rcases h.assigned01 c hc s hs with h0 | h1 <;> omega
  omega

/-- The selected effort is the number of occupied slots. -/
theorem length_occupiedSlots (h : RouteLaws p cs σ) :
    ((occupiedSlots p cs σ).length : Int) = totalHours cs σ := by
  have hsum : totalHours cs σ =
      (p.calendar.zipIdx.map fun s ↦ (cs.map fun c ↦ assignedAt σ c s.2).sum).sum := by
    rw [← sum_map_sum_comm]
    unfold totalHours
    congr 1
    apply List.map_congr_left
    intro c hc
    exact (h.exactHours c hc).symm
  rw [hsum, sum_eq_countP _ _ fun s hs ↦ h.slot_sum_zero_or_one hs, List.countP_eq_length_filter]
  rfl

/-- Occupied slots of one week are at most the weekly hours. -/
theorem count_occupiedSlots (h : RouteLaws p cs σ) (week : String) :
    ((((occupiedSlots p cs σ).map Prod.fst).map (·.capacityWeekKey)).count week : Int) ≤
      p.constraints.availableHoursPerWeek := by
  have hcount : ((((occupiedSlots p cs σ).map Prod.fst).map (·.capacityWeekKey)).count week : Int)
      = (cs.map fun c ↦
        ((occupied p σ c).countP fun s ↦ s.1.capacityWeekKey = week : Int)).sum := by
    rw [List.map_congr_left fun c hc ↦ h.countP_week hc week, sum_map_sum_comm,
      sum_eq_countP _ _ fun s hs ↦ h.slot_sum_zero_or_one (List.mem_filter.mp hs).1]
    unfold occupiedSlots
    rw [List.map_map, List.count, List.countP_map, List.countP_filter, List.countP_filter]
    congr 2
    funext s
    simp [Bool.and_comm, beq_eq_decide]
  rw [hcount]
  exact h.weekly_count week

/-- The selected effort fits in the capacity of the calendar. -/
theorem totalHours_le_capacity (h : RouteLaws p cs σ) :
    totalHours cs σ ≤ capacityOf p.constraints.availableHoursPerWeek p.calendar := by
  rw [← h.length_occupiedSlots]
  have hsub : ((occupiedSlots p cs σ).map Prod.fst).Sublist p.calendar := by
    have hs := (List.filter_sublist (p := fun s : PlanningSlot × Nat ↦
      (cs.map fun c ↦ assignedAt σ c s.2).sum = 1) (l := p.calendar.zipIdx)).map Prod.fst
    rwa [List.zipIdx_map_fst] at hs
  simpa using length_le_capacityOf hsub h.count_occupiedSlots

/-- A selected candidate fits in the hours available to it, so the pre-exclusion spares it. -/
theorem hours_le_availableCapacity (h : RouteLaws p cs σ) {c : Candidate} (hc : c ∈ cs)
    (hsel : σ (.selected c.actionId) = 1) : c.estimatedHours ≤ availableCapacity p c := by
  have hlen := h.length_occupied hc
  rw [hsel, mul_one] at hlen
  have hsub : ((occupied p σ c).map Prod.fst).Sublist
      (p.calendar.filter fun slot ↦ isAvailable slot (availabilityOf p c.actionId)) := by
    have hs := (List.filter_sublist (p := fun s : PlanningSlot × Nat ↦
      assignedAt σ c s.2 = 1) (l := p.calendar.zipIdx)).map Prod.fst
    rw [List.zipIdx_map_fst] at hs
    have hf := hs.filter fun slot ↦ isAvailable slot (availabilityOf p c.actionId)
    rwa [List.filter_eq_self.mpr] at hf
    intro slot hm
    obtain ⟨s, hs, rfl⟩ := List.mem_map.mp hm
    exact h.occupied_available hc hs
  have hweek (week : String) :
      ((((occupied p σ c).map Prod.fst).map (·.capacityWeekKey)).count week : Int) ≤
        p.constraints.availableHoursPerWeek := by
    refine le_trans ?_ (h.weekly_count week)
    have hcount : (((occupied p σ c).map Prod.fst).map (·.capacityWeekKey)).count week =
        (occupied p σ c).countP fun s ↦ s.1.capacityWeekKey = week := by
      rw [List.map_map, List.count, List.countP_map]
      congr 1
    rw [hcount]
    apply List.single_le_sum _ _ (List.mem_map.mpr ⟨c, hc, rfl⟩)
    intro x hx
    obtain ⟨d, -, rfl⟩ := List.mem_map.mp hx
    exact Int.natCast_nonneg _
  have hle := length_le_capacityOf hsub hweek
  rw [List.length_map, hlen] at hle
  exact hle

/-- No more hours are selected than there are slots. -/
theorem totalHours_mem_domain (h : RouteLaws p cs σ) :
    0 ≤ totalHours cs σ ∧ totalHours cs σ ≤ p.calendar.length := by
  have hlen := h.length_occupiedSlots
  have hle : (occupiedSlots p cs σ).length ≤ p.calendar.zipIdx.length := List.length_filter_le _ _
  rw [List.length_zipIdx] at hle
  omega

/-- As many slots as there are selected hours are occupied, so one of them has an index at least
as large as that of the `totalHours`-th slot. -/
theorem exists_late_slot (h : RouteLaws p cs σ) (hpos : 0 < totalHours cs σ) :
    ∃ c ∈ cs, ∃ s ∈ occupied p σ c, totalHours cs σ ≤ s.2 + 1 := by
  have hlen := h.length_occupiedSlots
  by_contra hnone
  push Not at hnone
  have hsmall : (occupiedSlots p cs σ).map Prod.snd ⊆
      List.range (totalHours cs σ - 1).toNat := by
    intro i hi
    obtain ⟨s, hs, rfl⟩ := List.mem_map.mp hi
    obtain ⟨hz, hsum⟩ := List.mem_filter.mp hs
    have hone : (cs.map fun c ↦ assignedAt σ c s.2).sum = 1 := by simpa using hsum
    obtain ⟨x, hx, hne⟩ := List.exists_mem_ne_zero_of_sum_ne_zero (by omega :
      (cs.map fun c ↦ assignedAt σ c s.2).sum ≠ 0)
    obtain ⟨c, hc, rfl⟩ := List.mem_map.mp hx
    have h1 := (h.assigned01 c hc s hz).resolve_left hne
    have hlt := hnone c hc s (mem_occupied.mpr ⟨List.mem_zipIdx_iff_getElem?.mp hz, h1⟩)
    rw [List.mem_range]
    omega
  have hnodup : ((occupiedSlots p cs σ).map Prod.snd).Nodup := by
    have hsub := (List.filter_sublist (p := fun s : PlanningSlot × Nat ↦
      (cs.map fun c ↦ assignedAt σ c s.2).sum = 1) (l := p.calendar.zipIdx)).map Prod.snd
    rw [List.zipIdx_map_snd] at hsub
    exact (List.nodup_range' 1).sublist hsub
  have hcard := (hnodup.subperm hsmall).length_le
  rw [List.length_map, List.length_range] at hcard
  omega

/-- End of the slot that as many hours as are selected reach at the earliest. -/
theorem earliestCompletion_le (h : RouteLaws p cs σ) (hpos : 0 < totalHours cs σ)
    {slot : PlanningSlot} (hslot : p.calendar[(totalHours cs σ - 1).toNat]? = some slot) :
    ∃ c ∈ cs, microsecondsFromPlanningStart p slot.endsAt ≤ σ (.completion c.actionId) := by
  obtain ⟨c, hc, s, hs, hle⟩ := h.exists_late_slot hpos
  refine ⟨c, hc, le_trans ?_ (h.endsAt_le_completion hc hs)⟩
  have hmono := p.endsAt_mono hslot (mem_occupied.mp hs).1 (by omega)
  unfold microsecondsFromPlanningStart
  omega

end RouteLaws

/-! ### The effort bound -/

/-- With the coverage requirement every required requirement has a selected candidate. -/
theorem exists_selected_of_required {p : PlanningProblem} {cs : List Candidate}
    {σ : RouteVar → Int} (h : Model.AllHold σ (coverageConstraints p cs true)) {key : String}
    (hkey : key ∈ p.requiredRequirementKeys) :
    ∃ c ∈ cs, key ∈ c.outcomeRequirementKeys ∧ σ (.selected c.actionId) = 1 := by
  simp only [coverageConstraints, Model.allHold_flatMap, mem_sortedSet, Model.allHold_append] at h
  obtain ⟨hmax, hone⟩ := h key (Finset.mem_union_left _ hkey)
  have hcovered : σ (.covered key) = 1 := by simpa [hkey] using hone
  split at hmax
  · simp [hcovered] at hmax
  · simp only [Model.allHold_cons, Constraint.Holds, eval_expr, hcovered] at hmax
    obtain ⟨⟨-, e, he, hv⟩, -⟩ := hmax
    obtain ⟨c, hc, rfl⟩ := List.mem_map.mp he
    obtain ⟨hm, hout⟩ := List.mem_filter.mp hc
    exact ⟨c, hm, by simpa using hout, by simpa using hv⟩

private theorem cheapestShare_le {p : PlanningProblem} {cs : List Candidate} {capacity : Int}
    {key : String} {c : Candidate} (hc : c ∈ cs) (hkey : key ∈ c.outcomeRequirementKeys) :
    cheapestShare p cs capacity key ≤ effortShare p c := by
  have hm : effortShare p c ∈
      (cs.filter fun c ↦ key ∈ c.outcomeRequirementKeys).map (effortShare p) :=
    List.mem_map.mpr ⟨c, List.mem_filter.mpr ⟨hc, by simpa using hkey⟩, rfl⟩
  unfold cheapestShare
  cases hmin : ((cs.filter fun c ↦ key ∈ c.outcomeRequirementKeys).map (effortShare p)).min? with
  | none => simp [List.min?_eq_none_iff.mp hmin] at hm
  | some least => exact (List.min?_eq_some_iff.mp hmin).2 _ hm

/-- The cheapest shares of the required requirements are together at most the effort of any
selection that serves them all: an activity's shares add up to at most its hours. -/
theorem sum_cheapestShare_le (p : PlanningProblem) (cs : List Candidate) (capacity : Int)
    (selected : Finset Candidate) (hsel : ∀ c ∈ selected, c ∈ cs ∧ 0 ≤ c.estimatedHours)
    (hcover : ∀ key ∈ p.requiredRequirementKeys, ∃ c ∈ selected, key ∈ c.outcomeRequirementKeys) :
    ∑ key ∈ p.requiredRequirementKeys, cheapestShare p cs capacity key ≤
      ((∑ c ∈ selected, c.estimatedHours : Int) : ℚ) := by
  have hchoice : ∀ key, ∃ c, key ∈ p.requiredRequirementKeys →
      c ∈ selected ∧ key ∈ c.outcomeRequirementKeys := by
    intro key
    by_cases hkey : key ∈ p.requiredRequirementKeys
    · obtain ⟨c, hc, hout⟩ := hcover key hkey
      exact ⟨c, fun _ ↦ ⟨hc, hout⟩⟩
    · exact ⟨⟨key, 0, "", 0, ∅, [], [], [], ∅, .unknown⟩, fun h ↦ absurd h hkey⟩
  choose f hf using hchoice
  calc ∑ key ∈ p.requiredRequirementKeys, cheapestShare p cs capacity key
      ≤ ∑ key ∈ p.requiredRequirementKeys, effortShare p (f key) :=
        Finset.sum_le_sum fun key hkey ↦
          cheapestShare_le (hsel _ (hf key hkey).1).1 (hf key hkey).2
    _ = ∑ c ∈ selected, ∑ key ∈ p.requiredRequirementKeys with f key = c,
          effortShare p (f key) :=
        (Finset.sum_fiberwise_of_maps_to (fun key hkey ↦ (hf key hkey).1) _).symm
    _ ≤ ∑ c ∈ selected, (c.estimatedHours : ℚ) := Finset.sum_le_sum fun c hc ↦ ?_
    _ = _ := by push_cast; rfl
  have hfiber : ∑ key ∈ p.requiredRequirementKeys with f key = c, effortShare p (f key) =
      (p.requiredRequirementKeys.filter (f · = c)).card * effortShare p c := by
    rw [Finset.sum_congr rfl (g := fun _ ↦ effortShare p c) fun key hkey ↦ by
      rw [(Finset.mem_filter.mp hkey).2], Finset.sum_const, nsmul_eq_mul]
  have hcard : (p.requiredRequirementKeys.filter (f · = c)).card ≤
      (c.outcomeRequirementKeys ∩ p.requiredRequirementKeys).card := by
    apply Finset.card_le_card
    intro key hkey
    obtain ⟨hreq, rfl⟩ := Finset.mem_filter.mp hkey
    exact Finset.mem_inter.mpr ⟨(hf key hreq).2, hreq⟩
  have hnonneg : (0 : ℚ) ≤ c.estimatedHours := by exact_mod_cast (hsel c hc).2
  rw [hfiber]
  unfold effortShare
  rcases Nat.eq_zero_or_pos (c.outcomeRequirementKeys ∩ p.requiredRequirementKeys).card
    with hzero | hpos
  · simp [hzero, hnonneg]
  · rw [mul_div_assoc', div_le_iff₀ (by exact_mod_cast hpos), mul_comm]
    exact mul_le_mul_of_nonneg_left (by exact_mod_cast hcard) hnonneg

/-- When the effort bound exceeds the capacity, no assignment covers every required
requirement. -/
theorem not_satisfies_of_not_fullCapacityPossible {p : PlanningProblem} {cs : List Candidate}
    (hv : validateCandidates cs = .ok ()) (h : fullCapacityPossible p cs = false)
    (σ : RouteVar → Int) : ¬ (routeModel p cs true).Satisfies σ := by
  intro hσ
  have hlaws := routeLaws_of_satisfies hσ
  obtain ⟨hdistinct, hall⟩ := (validateCandidates_ok_iff cs).mp hv
  have hcoverage : Model.AllHold σ (coverageConstraints p cs true) := by
    have hc := hσ.2
    simp only [routeModel, Model.allHold_append] at hc
    exact hc.1.2
  let selected := cs.toFinset.filter fun c ↦ σ (.selected c.actionId) = 1
  have hmem (c : Candidate) : c ∈ selected ↔ c ∈ cs ∧ σ (.selected c.actionId) = 1 := by
    simp [selected]
  have hbound := sum_cheapestShare_le p cs
    (capacityOf p.constraints.availableHoursPerWeek p.calendar) selected
    (fun c hc ↦ ⟨((hmem c).mp hc).1, le_of_lt (hall c ((hmem c).mp hc).1).1⟩)
    (fun key hkey ↦ by
      obtain ⟨c, hc, hout, hsel⟩ := exists_selected_of_required hcoverage hkey
      exact ⟨c, (hmem c).mpr ⟨hc, hsel⟩, hout⟩)
  have htotal : ∑ c ∈ selected, c.estimatedHours = totalHours cs σ := by
    unfold totalHours
    rw [← List.sum_toFinset _ hdistinct.of_map, Finset.sum_filter]
    refine Finset.sum_congr rfl fun c hc ↦ ?_
    rcases hlaws.selected01 c (List.mem_toFinset.mp hc) with h0 | h1
    · simp [h0]
    · simp [h1]
  have hle := hlaws.totalHours_le_capacity
  rw [htotal] at hbound
  have hpossible : fullCapacityPossible p cs = true :=
    decide_eq_true (le_trans hbound (by exact_mod_cast hle))
  rw [h] at hpossible
  exact Bool.false_ne_true hpossible

/-! ### The pre-exclusion and the completion bound -/

/-- The constraints that only cut the search short. -/
def shortcutConstraints (p : PlanningProblem) (cs : List Candidate) :
    List (Constraint RouteVar) :=
  cs.flatMap (capacityExclusion p) ++ capacityCompletionBound p cs

/-- Every constraint that is not a shortcut. -/
def remainingConstraints (p : PlanningProblem) (cs : List Candidate) (coverage : Bool) :
    List (Constraint RouteVar) :=
  coreConstraints p cs ++ coverageConstraints p cs coverage ++ routeCompletionDefinition cs ++
    coveragePointsDefinition p ++ timePointsDefinition p ++ costPointsDefinition p cs ++
    foundationPointsDefinition p cs

/-- The route model without its shortcuts and their two variables. -/
def modelWithoutShortcuts (p : PlanningProblem) (cs : List Candidate) (coverage : Bool) :
    Model RouteVar where
  domains := candidateDomains p cs ++ coverageDomains p ++ objectiveDomains p cs
  constraints := remainingConstraints p cs coverage
  objective := some (objectiveExpr p cs (!coverage))
  hints := modelHints p cs coverage

/-- A variable outside the completion bound. -/
def OutsideBound (v : RouteVar) : Prop := v ≠ .totalSelectedHours ∧ v ≠ .earliestCapacityCompletion

/-- Ends of the calendar slots by number of hours, zero for none. -/
def completionTable (p : PlanningProblem) : List Int :=
  0 :: p.calendar.map fun slot ↦ microsecondsFromPlanningStart p slot.endsAt

/-- The end of the slot reached by the selected hours. -/
def earliestCompletion (p : PlanningProblem) (cs : List Candidate) (σ : RouteVar → Int) : Int :=
  (completionTable p)[(totalHours cs σ).toNat]?.getD 0

/-- The assignment with the two variables of the completion bound filled in. -/
def withBound (p : PlanningProblem) (cs : List Candidate) (σ : RouteVar → Int) : RouteVar → Int
  | .totalSelectedHours => totalHours cs σ
  | .earliestCapacityCompletion => earliestCompletion p cs σ
  | v => σ v

private theorem withBound_eq (p : PlanningProblem) (cs : List Candidate) (σ : RouteVar → Int)
    (v : RouteVar) (hv : OutsideBound v) : withBound p cs σ v = σ v := by
  cases v with
  | totalSelectedHours => exact absurd rfl hv.1
  | earliestCapacityCompletion => exact absurd rfl hv.2
  | _ => rfl

/-- What the core constraints say does not involve the completion bound. -/
theorem core_outsideBound (p : PlanningProblem) (cs : List Candidate) :
    Model.AllWithin OutsideBound (coreConstraints p cs) := by
  have hunknown (c : Candidate) : Model.AllWithin OutsideBound (unknownCostExclusion p c) := by
    unfold unknownCostExclusion
    split
    · simp
    · split <;> simp [Constraint.Within, OutsideBound]
  have hbudget : Model.AllWithin OutsideBound (budgetConstraints p cs) := by
    unfold budgetConstraints
    split <;> simp [Constraint.Within, knownSpend, OutsideBound]
  simp [coreConstraints, coreCandidateConstraints, hunknown, hbudget, exactHours, assignmentSum,
    windowExclusion, completionDefinition, slotConstraints, weekConstraints,
    prerequisiteConstraints, Constraint.Within, OutsideBound]

/-- Neither does any other constraint that is not a shortcut. -/
theorem remaining_outsideBound (p : PlanningProblem) (cs : List Candidate) (coverage : Bool) :
    Model.AllWithin OutsideBound (remainingConstraints p cs coverage) := by
  have hcoverage : Model.AllWithin OutsideBound (coverageConstraints p cs coverage) := by
    simp only [coverageConstraints, Model.allWithin_flatMap, Model.allWithin_append]
    intro key _
    constructor <;> split_ifs <;> simp [Constraint.Within, OutsideBound]
  have hroute : Model.AllWithin OutsideBound (routeCompletionDefinition cs) := by
    unfold routeCompletionDefinition
    split_ifs <;> simp [Constraint.Within, OutsideBound]
  have hpoints : Model.AllWithin OutsideBound (coveragePointsDefinition p) := by
    unfold coveragePointsDefinition
    split_ifs <;> simp [Constraint.Within, OutsideBound]
  have htime : Model.AllWithin OutsideBound (timePointsDefinition p) := by
    simp [timePointsDefinition, Constraint.Within, OutsideBound]
  have hunknown : Model.AllWithin OutsideBound (unknownSelectedDefinition cs) := by
    simp only [unknownSelectedDefinition]
    split_ifs <;> simp [Constraint.Within, OutsideBound]
  have hcost : Model.AllWithin OutsideBound (costPointsDefinition p cs) := by
    simp only [costPointsDefinition]
    split_ifs
    · simp [Constraint.Within, OutsideBound]
    · simp [hunknown, Constraint.Within, knownSpend, OutsideBound]
  have hfoundation : Model.AllWithin OutsideBound (foundationPointsDefinition p cs) := by
    simp only [foundationPointsDefinition]
    split_ifs <;> simp [Constraint.Within, OutsideBound]
  simp only [remainingConstraints, Model.allWithin_append]
  exact ⟨⟨⟨⟨⟨⟨core_outsideBound p cs, hcoverage⟩, hroute⟩, hpoints⟩, htime⟩, hcost⟩, hfoundation⟩

/-- The bound's variables are found at their places in the table of slot ends, and no candidate
route is cut off by it. -/
theorem earliestCompletion_spec {p : PlanningProblem} {cs : List Candidate} {σ : RouteVar → Int}
    (h : RouteLaws p cs σ) (hroute : Model.AllHold σ (routeCompletionDefinition cs)) :
    (completionTable p)[(totalHours cs σ).toNat]? = some (earliestCompletion p cs σ) ∧
      0 ≤ earliestCompletion p cs σ ∧
      earliestCompletion p cs σ ≤ (objectiveSnapshot p).horizonMicroseconds ∧
      earliestCompletion p cs σ ≤ σ .routeCompletion := by
  obtain ⟨hnonneg, hle⟩ := h.totalHours_mem_domain
  have hcompletion (c : Candidate) (hc : c ∈ cs) :
      σ (.completion c.actionId) ≤ σ .routeCompletion := by
    unfold routeCompletionDefinition at hroute
    split at hroute
    · next hnil => simp [hnil] at hc
    · simp only [Model.allHold_cons, Constraint.Holds, eval_expr] at hroute
      simpa using hroute.1.1 _ (List.mem_map.mpr ⟨c, hc, rfl⟩)
  rcases Int.lt_or_eq_of_le hnonneg with hpos | hzero
  · obtain ⟨k, hk⟩ : ∃ k, (totalHours cs σ).toNat = k + 1 := ⟨(totalHours cs σ).toNat - 1, by omega⟩
    have hklt : k < p.calendar.length := by omega
    have hslot : p.calendar[(totalHours cs σ - 1).toNat]? = some p.calendar[k] := by
      rw [show (totalHours cs σ - 1).toNat = k by omega, List.getElem?_eq_getElem hklt]
    have hlook : (completionTable p)[(totalHours cs σ).toNat]? =
        some (microsecondsFromPlanningStart p p.calendar[k].endsAt) := by
      simp [completionTable, hk, hklt]
    have hearliest : earliestCompletion p cs σ =
        microsecondsFromPlanningStart p p.calendar[k].endsAt := by
      rw [earliestCompletion, hlook, Option.getD_some]
    obtain ⟨c, hc, hbound⟩ := h.earliestCompletion_le hpos hslot
    have hdomain := (h.completionDomain c hc).2
    have hinside := (p.calendar_inside _ (List.getElem_mem hklt)).1
    have hlt := p.calendar[k].startsAt_lt_endsAt
    rw [hlook, hearliest]
    refine ⟨rfl, ?_, le_trans hbound hdomain, le_trans hbound (hcompletion c hc)⟩
    unfold microsecondsFromPlanningStart
    omega
  · have hearliest : earliestCompletion p cs σ = 0 := by
      simp [earliestCompletion, completionTable, ← hzero]
    rw [hearliest]
    refine ⟨by simp [completionTable, ← hzero], le_refl _, le_of_lt (horizonMicroseconds_pos p), ?_⟩
    cases cs with
    | nil => simp [routeCompletionDefinition] at hroute; omega
    | cons c rest =>
      exact le_trans (h.completionDomain c (by simp)).1 (hcompletion c (by simp))

/-- No route is lost to the pre-exclusion, to the domain of the total hours or to the completion
bound: the bound's two variables can always be filled in. -/
theorem shortcuts_hold {p : PlanningProblem} {cs : List Candidate} {σ : RouteVar → Int}
    (h : RouteLaws p cs σ) (hroute : Model.AllHold σ (routeCompletionDefinition cs)) :
    Model.InDomain (withBound p cs σ) (capacityBoundDomains p) ∧
      Model.AllHold (withBound p cs σ) (shortcutConstraints p cs) := by
  obtain ⟨hlook, hnonneg, hhorizon, hle⟩ := earliestCompletion_spec h hroute
  obtain ⟨htotal, htotalle⟩ := h.totalHours_mem_domain
  constructor
  · intro d hd
    simp only [capacityBoundDomains, List.mem_cons, List.not_mem_nil, or_false] at hd
    rcases hd with rfl | rfl
    · exact ⟨htotal, htotalle⟩
    · exact ⟨hnonneg, hhorizon⟩
  · simp only [shortcutConstraints, Model.allHold_append, Model.allHold_flatMap]
    constructor
    · intro c hc
      unfold capacityExclusion
      split
      · next hlong =>
        have hunselected : σ (.selected c.actionId) = 0 := by
          rcases h.selected01 c hc with h0 | h1
          · exact h0
          · have hfit := h.hours_le_availableCapacity hc h1
            omega
        simpa [withBound] using hunselected
      · simp
    · simp only [capacityCompletionBound, Model.allHold_cons, Model.allHold_nil, and_true,
        Constraint.Holds]
      refine ⟨?_, ⟨?_, ?_⟩, ?_⟩
      · simp [withBound, totalHours, Function.comp_def]
      · simpa [withBound] using htotal
      · simpa [withBound, completionTable] using hlook
      · simpa [withBound] using hle

/-- The declared variables outside the bound. -/
theorem domains_outsideBound (p : PlanningProblem) (cs : List Candidate) :
    ∀ d ∈ candidateDomains p cs ++ coverageDomains p ++ objectiveDomains p cs,
      OutsideBound d.1 := by
  intro d hd
  simp only [List.mem_append] at hd
  rcases hd with (hd | hd) | hd
  · simp only [candidateDomains, List.mem_append, List.mem_map, List.mem_flatMap] at hd
    rcases hd with (⟨c, -, rfl⟩ | ⟨c, -, s, -, rfl⟩) | ⟨c, -, rfl⟩ <;>
      simp [OutsideBound, Model.boolVar]
  · obtain ⟨key, -, rfl⟩ := List.mem_map.mp hd
    simp [OutsideBound, Model.boolVar]
  · have hvars : d.1 ∈ [RouteVar.routeCompletion, .coveragePoints, .timeRemaining, .timePoints,
        .costPoints, .costCredit, .unknownCostSelected, .foundationPriorityPoints] := by
      simp only [objectiveDomains, List.mem_append] at hd
      rcases hd with (hd | hd) | hd
      · simp only [List.mem_cons, List.not_mem_nil, or_false] at hd
        rcases hd with rfl | rfl | rfl | rfl | rfl <;> simp
      · split_ifs at hd <;> simp [Model.boolVar] at hd
        rcases hd with rfl | rfl <;> simp
      · split_ifs at hd <;> simp at hd
        simp [hd]
    simp only [List.mem_cons, List.not_mem_nil, or_false] at hvars
    rcases hvars with h | h | h | h | h | h | h | h <;> simp [OutsideBound, h]

/-- The route model posts the remaining constraints and the shortcuts. -/
theorem allHold_routeModel_iff (p : PlanningProblem) (cs : List Candidate) (coverage : Bool)
    (σ : RouteVar → Int) :
    Model.AllHold σ (routeModel p cs coverage).constraints ↔
      Model.AllHold σ (remainingConstraints p cs coverage) ∧
        Model.AllHold σ (shortcutConstraints p cs) := by
  simp only [routeModel, remainingConstraints, shortcutConstraints, coreConstraints,
    candidateConstraints, coreCandidateConstraints, objectiveConstraints, Model.allHold_append,
    Model.allHold_flatMap, imp_and, forall_and]
  tauto

/-- Every solution of the model posted without the shortcuts extends to one of the route model. -/
theorem satisfies_of_withoutShortcuts {p : PlanningProblem} {cs : List Candidate}
    {coverage : Bool} {σ : RouteVar → Int}
    (hσ : (modelWithoutShortcuts p cs coverage).Satisfies σ) :
    ∃ τ, (∀ v, OutsideBound v → τ v = σ v) ∧ (routeModel p cs coverage).Satisfies τ := by
  have hagree (v : RouteVar) (hv : OutsideBound v) : σ v = withBound p cs σ v :=
    (withBound_eq p cs σ v hv).symm
  obtain ⟨hd, hc⟩ := hσ
  have hτ := (Model.allHold_congr hagree (remaining_outsideBound p cs coverage)).mp hc
  have hdτ := (Model.inDomain_congr hagree (domains_outsideBound p cs)).mp hd
  simp only [modelWithoutShortcuts, remainingConstraints, Model.inDomain_append,
    Model.allHold_append] at hd hc hdτ
  obtain ⟨⟨⟨⟨⟨⟨hcore, -⟩, hroute⟩, -⟩, -⟩, -⟩, -⟩ := hc
  obtain ⟨hdomain, hshort⟩ := shortcuts_hold (routeLaws_of_core hd.1.1 hcore) hroute
  refine ⟨withBound p cs σ, withBound_eq p cs σ, ?_, ?_⟩
  · simp only [routeModel, Model.inDomain_append]
    exact ⟨⟨hdτ.1, hdomain⟩, hdτ.2⟩
  · exact (allHold_routeModel_iff p cs coverage _).mpr ⟨hτ, hshort⟩

/-- The shortcuts lose no route: a failed effort bound leaves no covering assignment, every
assignment of the core constraints extends to the shortcut constraints, and so does every solution
of the model posted without them. `src/jobtology_be/planning/cp_sat_planner.py:201–246,310–321`,
`src/jobtology_be/planning/cp_sat_model.py:30–139`. -/
theorem shortcuts_lose_no_route (p : PlanningProblem) (cs : List Candidate) :
    (fullCapacityPossible p cs = false → ∀ artifacts, buildRouteModel p cs true = .ok artifacts →
      ∀ σ, ¬ artifacts.model.Satisfies σ) ∧
    (∀ σ, Model.InDomain σ (candidateDomains p cs) → Model.AllHold σ (coreConstraints p cs) →
      Model.AllHold σ (routeCompletionDefinition cs) →
      ∃ τ, (∀ v, OutsideBound v → τ v = σ v) ∧ Model.InDomain τ (capacityBoundDomains p) ∧
        Model.AllHold τ (coreConstraints p cs ++ shortcutConstraints p cs)) ∧
    (∀ coverage σ, (modelWithoutShortcuts p cs coverage).Satisfies σ →
      ∃ τ, (∀ v, OutsideBound v → τ v = σ v) ∧ (routeModel p cs coverage).Satisfies τ) := by
  refine ⟨fun h artifacts hb σ ↦ ?_, fun σ hd hc hroute ↦ ?_, fun coverage σ hσ ↦
    satisfies_of_withoutShortcuts hσ⟩
  · obtain ⟨hv, rfl⟩ := (buildRouteModel_ok_iff p cs true artifacts).mp hb
    exact not_satisfies_of_not_fullCapacityPossible hv h σ
  · have hagree (v : RouteVar) (hv : OutsideBound v) : σ v = withBound p cs σ v :=
      (withBound_eq p cs σ v hv).symm
    obtain ⟨hdomain, hshort⟩ := shortcuts_hold (routeLaws_of_core hd hc) hroute
    refine ⟨withBound p cs σ, withBound_eq p cs σ, hdomain, ?_⟩
    rw [Model.allHold_append]
    exact ⟨(Model.allHold_congr hagree (core_outsideBound p cs)).mp hc, hshort⟩

/-- A five-hour activity in a calendar of two hours. -/
def longCandidates : List Candidate :=
  [{ sampleCandidate "a" {"r"} [] with estimatedHours := 5 }]

/-- The shortcuts rule out the long activities, and keep the sample route. -/
theorem shortcuts_lose_no_route_sample :
    (∀ σ, ¬ (routeModel sampleProblem longCandidates true).Satisfies σ) ∧
    (∃ τ, (∀ v, OutsideBound v → τ v = sampleAssignment v) ∧
      Model.InDomain τ (capacityBoundDomains sampleProblem) ∧
      Model.AllHold τ (coreConstraints sampleProblem sampleCandidates ++
        shortcutConstraints sampleProblem sampleCandidates)) ∧
    ∃ τ, (∀ v, OutsideBound v → τ v = sampleAssignment v) ∧
      (routeModel sampleProblem sampleCandidates true).Satisfies τ :=
  ⟨(shortcuts_lose_no_route sampleProblem longCandidates).1 (by decide +kernel)
      ⟨routeModel sampleProblem longCandidates true, longCandidates⟩ rfl,
    (shortcuts_lose_no_route sampleProblem sampleCandidates).2.1 sampleAssignment (by decide)
      (by decide) (by decide),
    (shortcuts_lose_no_route sampleProblem sampleCandidates).2.2 true sampleAssignment
      (by decide)⟩

end Jobtology.Planning
