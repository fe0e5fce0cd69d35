import Jobtology.Planning.PlannerVerdicts
import Jobtology.Planning.Shortcuts

/-!
# The objective of a route model

The objective is lexicographic: coverage of required requirements, then the weighted score, then
the tie-break on foundations. Its variables never cut off a route: the posted constraints alone
put every auxiliary variable in its domain, and every valid choice of slots extends to a solution.
-/

namespace Jobtology.Planning

open Jobtology.Base Jobtology.Cp Jobtology.Time

/-- A choice of activities and of their slots. -/
structure IsChoice (p : PlanningProblem) (cs : List Candidate) (σ : RouteVar → Int) : Prop where
  selected01 : ∀ c ∈ cs, σ (.selected c.actionId) = 0 ∨ σ (.selected c.actionId) = 1
  assigned01 : ∀ c ∈ cs, ∀ s ∈ p.calendar.zipIdx,
    assignedAt σ c s.2 = 0 ∨ assignedAt σ c s.2 = 1

/-- A choice that is a route: a prerequisite-closed set of activities with exactly their hours,
inside their windows, no slot shared, within weekly capacity and budget, prerequisites first, and
every required requirement covered when coverage is required. -/
structure IsRoute (p : PlanningProblem) (cs : List Candidate) (requireRequiredCoverage : Bool)
    (σ : RouteVar → Int) : Prop extends IsChoice p cs σ where
  exactHours : ∀ c ∈ cs, (p.calendar.zipIdx.map fun s ↦ assignedAt σ c s.2).sum =
    c.estimatedHours * σ (.selected c.actionId)
  window : ∀ c ∈ cs, ∀ s ∈ p.calendar.zipIdx,
    isAvailable s.1 (availabilityOf p c.actionId) = false → assignedAt σ c s.2 = 0
  oneActivity : ∀ s ∈ p.calendar.zipIdx, (cs.map fun c ↦ assignedAt σ c s.2).sum ≤ 1
  weekly : ∀ week ∈ p.calendar.map (·.capacityWeekKey),
    (cs.map fun c ↦ ((p.calendar.zipIdx.filter fun s ↦ s.1.capacityWeekKey = week).map fun s ↦
      assignedAt σ c s.2).sum).sum ≤ p.constraints.availableHoursPerWeek
  prerequisiteSelected : ∀ c ∈ cs, ∀ a ∈ c.prerequisiteActionIds,
    σ (.selected c.actionId) ≤ σ (.selected a)
  prerequisiteBefore : ∀ c ∈ cs, ∀ a ∈ c.prerequisiteActionIds, ∀ s ∈ p.calendar.zipIdx,
    assignedAt σ c s.2 = 1 → ∀ t ∈ p.calendar.zipIdx, σ (.assigned a t.2) = 1 →
      t.1.endsAt ≤ s.1.startsAt
  budget : ∀ cap, p.constraints.maxOutOfPocketKrw = some cap →
    (cs.map fun c ↦ knownCost c * σ (.selected c.actionId)).sum ≤ cap
  unknownCost : ∀ cap, p.constraints.maxOutOfPocketKrw = some cap → ∀ c ∈ cs,
    hasUnknownCost c = true → σ (.selected c.actionId) = 0
  covers : requireRequiredCoverage = true → ∀ key ∈ p.requiredRequirementKeys,
    ∃ c ∈ cs, key ∈ c.outcomeRequirementKeys ∧ σ (.selected c.actionId) = 1

/-- Two assignments choose the same activities and slots. -/
def SameChoice (p : PlanningProblem) (cs : List Candidate) (σ τ : RouteVar → Int) : Prop :=
  ∀ c ∈ cs, σ (.selected c.actionId) = τ (.selected c.actionId) ∧
    ∀ s ∈ p.calendar.zipIdx, assignedAt σ c s.2 = assignedAt τ c s.2

/-! ### Domains -/

section Domains

variable {p : PlanningProblem} {cs : List Candidate} {coverage : Bool} {σ : RouteVar → Int}

/-- A share of the whole as points. -/
theorem points_bounds {x whole : Int} (hwhole : 0 < whole) (hx : 0 ≤ x) (hle : x ≤ whole) :
    0 ≤ (normalizedScoreMaximum * x).tdiv whole ∧
      (normalizedScoreMaximum * x).tdiv whole ≤ normalizedScoreMaximum := by
  have hnonneg : 0 ≤ normalizedScoreMaximum * x := Int.mul_nonneg (by decide) hx
  rw [Int.tdiv_eq_ediv_of_nonneg hnonneg]
  refine ⟨Int.ediv_nonneg hnonneg hwhole.le, ?_⟩
  apply Int.ediv_le_of_le_mul hwhole
  exact Int.mul_le_mul_of_nonneg_left hle (by decide)

/-- The ends of the calendar lie within the horizon. -/
theorem endsAt_mem_horizon {slot : PlanningSlot} (hslot : slot ∈ p.calendar) :
    0 ≤ microsecondsFromPlanningStart p slot.endsAt ∧
      microsecondsFromPlanningStart p slot.endsAt ≤ (objectiveSnapshot p).horizonMicroseconds := by
  obtain ⟨hstart, hend⟩ := p.calendar_inside slot hslot
  have hlt := slot.startsAt_lt_endsAt
  change _ ∧ _ ≤ p.constraints.targetBy - p.planningStartedAt
  unfold microsecondsFromPlanningStart
  omega

/-- The completions of a choice lie within the horizon. -/
theorem completion_mem_horizon (hchoice : IsChoice p cs σ) {c : Candidate} (hc : c ∈ cs)
    (h : Model.AllHold σ (completionDefinition p c)) :
    0 ≤ σ (.completion c.actionId) ∧
      σ (.completion c.actionId) ≤ (objectiveSnapshot p).horizonMicroseconds := by
  simp only [completionDefinition, Model.allHold_cons, Constraint.Holds, eval_expr] at h
  obtain ⟨⟨-, e, he, hvalue⟩, -⟩ := h
  obtain ⟨s, hs, rfl⟩ := List.mem_map.mp he
  rw [LinearExpr.eval_smul, eval_expr] at hvalue
  obtain ⟨hnonneg, hle⟩ := endsAt_mem_horizon (p := p) (List.fst_mem_of_mem_zipIdx hs)
  obtain hzero | hone := hchoice.assigned01 c hc s hs
  · unfold assignedAt at hzero
    rw [← hvalue, hzero, mul_zero]
    exact ⟨le_rfl, (horizonMicroseconds_pos p).le⟩
  · unfold assignedAt at hone
    rw [← hvalue, hone, mul_one]
    exact ⟨hnonneg, hle⟩

private theorem candidateDomains_hold (hchoice : IsChoice p cs σ)
    (h : Model.AllHold σ (coreConstraints p cs)) : Model.InDomain σ (candidateDomains p cs) := by
  simp only [coreConstraints, coreCandidateConstraints, Model.allHold_append,
    Model.allHold_flatMap] at h
  obtain ⟨⟨⟨⟨hcandidate, -⟩, -⟩, -⟩, -⟩ := h
  simp only [candidateDomains, Model.inDomain_append]
  refine ⟨⟨?_, ?_⟩, ?_⟩
  · intro d hd
    obtain ⟨c, hc, rfl⟩ := List.mem_map.mp hd
    have h01 := hchoice.selected01 c hc
    simp only [Model.boolVar]
    omega
  · intro d hd
    obtain ⟨c, hc, hd⟩ := List.mem_flatMap.mp hd
    obtain ⟨s, hs, rfl⟩ := List.mem_map.mp hd
    have h01 := hchoice.assigned01 c hc s hs
    unfold assignedAt at h01
    simp only [Model.boolVar]
    omega
  · intro d hd
    obtain ⟨c, hc, rfl⟩ := List.mem_map.mp hd
    exact completion_mem_horizon hchoice hc (hcandidate c hc).1.2

/-- A coverage variable is zero or one. -/
theorem covered01 (hchoice : IsChoice p cs σ)
    (h : Model.AllHold σ (coverageConstraints p cs coverage)) {key : String}
    (hkey : key ∈ p.requiredRequirementKeys ∪ p.preferredRequirementKeys) :
    σ (.covered key) = 0 ∨ σ (.covered key) = 1 := by
  simp only [coverageConstraints, Model.allHold_flatMap, Model.allHold_append,
    mem_sortedSet] at h
  have hmax := (h key hkey).1
  split at hmax
  · simp only [Model.allHold_cons, Constraint.holds_eq, eval_expr, eval_const] at hmax
    exact .inl hmax.1
  · simp only [Model.allHold_cons, Constraint.Holds, eval_expr] at hmax
    obtain ⟨⟨-, e, he, hvalue⟩, -⟩ := hmax
    obtain ⟨c, hc, rfl⟩ := List.mem_map.mp he
    rw [eval_expr] at hvalue
    rw [← hvalue]
    exact hchoice.selected01 c (List.mem_filter.mp hc).1

private theorem coverageDomains_hold (hchoice : IsChoice p cs σ)
    (h : Model.AllHold σ (coverageConstraints p cs coverage)) :
    Model.InDomain σ (coverageDomains p) := by
  intro d hd
  obtain ⟨key, hkey, rfl⟩ := List.mem_map.mp hd
  have h01 := covered01 hchoice h ((mem_sortedSet _ _).mp hkey)
  simp only [Model.boolVar]
  omega

/-- The route completes within the horizon. -/
theorem routeCompletion_mem_horizon (hlaws : RouteLaws p cs σ)
    (h : Model.AllHold σ (routeCompletionDefinition cs)) :
    0 ≤ σ .routeCompletion ∧
      σ .routeCompletion ≤ (objectiveSnapshot p).horizonMicroseconds := by
  unfold routeCompletionDefinition at h
  split at h
  · simp only [Model.allHold_cons, Constraint.holds_eq, eval_expr, eval_const] at h
    rw [h.1]
    exact ⟨le_rfl, (horizonMicroseconds_pos p).le⟩
  · simp only [Model.allHold_cons, Constraint.Holds, eval_expr] at h
    obtain ⟨⟨-, e, he, hvalue⟩, -⟩ := h
    obtain ⟨c, hc, rfl⟩ := List.mem_map.mp he
    rw [eval_expr] at hvalue
    rw [← hvalue]
    exact hlaws.completionDomain c hc

private theorem sum_bounds {α : Type} (f : α → Int) (xs : List α)
    (h : ∀ x ∈ xs, f x = 0 ∨ f x = 1) : 0 ≤ (xs.map f).sum ∧ (xs.map f).sum ≤ xs.length := by
  rw [sum_eq_countP f xs h]
  exact ⟨Int.natCast_nonneg _, Int.ofNat_le.mpr List.countP_le_length⟩

private theorem length_sortedSet (keys : Finset String) : (sortedSet keys).length = keys.card := by
  rcases keys with ⟨⟨l⟩, h⟩
  exact List.length_insertionSort (· ≤ ·) l

private theorem coveragePoints_bounds (hchoice : IsChoice p cs σ)
    (hcoverage : Model.AllHold σ (coverageConstraints p cs coverage))
    (h : Model.AllHold σ (coveragePointsDefinition p)) :
    0 ≤ σ .coveragePoints ∧ σ .coveragePoints ≤ normalizedScoreMaximum := by
  unfold coveragePointsDefinition at h
  split at h
  · simp only [Model.allHold_cons, Constraint.holds_eq, eval_expr, eval_const] at h
    rw [h.1]
    decide
  · next hcard =>
    simp only [Model.allHold_cons, Constraint.Holds, eval_expr, eval_const,
      LinearExpr.eval_smul, LinearExpr.eval_sum, List.map_map] at h
    obtain ⟨⟨-, hvalue⟩, -⟩ := h
    obtain ⟨hnonneg, hle⟩ := sum_bounds (fun key ↦ σ (.covered key))
      (sortedSet p.preferredRequirementKeys) fun key hkey ↦
        covered01 hchoice hcoverage (Finset.mem_union_right _ ((mem_sortedSet _ _).mp hkey))
    rw [length_sortedSet] at hle
    have hpos : (0 : Int) < p.preferredRequirementKeys.card :=
      Int.natCast_pos.mpr (Nat.pos_of_ne_zero hcard)
    rw [hvalue]
    simpa [Function.comp_def] using points_bounds hpos hnonneg hle

private theorem timePoints_bounds (hlaws : RouteLaws p cs σ)
    (hroute : Model.AllHold σ (routeCompletionDefinition cs))
    (h : Model.AllHold σ (timePointsDefinition p)) :
    (0 ≤ σ .timeRemaining ∧ σ .timeRemaining ≤ (objectiveSnapshot p).horizonMicroseconds) ∧
      0 ≤ σ .timePoints ∧ σ .timePoints ≤ normalizedScoreMaximum := by
  obtain ⟨hnonneg, hle⟩ := routeCompletion_mem_horizon hlaws hroute
  simp only [timePointsDefinition, Model.allHold_cons, Constraint.Holds, eval_expr, eval_const,
    LinearExpr.eval_sub, LinearExpr.eval_smul] at h
  obtain ⟨hremaining, ⟨-, hvalue⟩, -⟩ := h
  have hbounds : 0 ≤ σ .timeRemaining ∧
      σ .timeRemaining ≤ (objectiveSnapshot p).horizonMicroseconds := by omega
  refine ⟨hbounds, ?_⟩
  rw [hvalue]
  exact points_bounds (horizonMicroseconds_pos p) hbounds.1 hbounds.2

/-- The known costs of a choice are at most those of the whole problem. -/
theorem spend_bounds (hperm : cs.Perm p.candidates) (hchoice : IsChoice p cs σ) :
    0 ≤ (knownSpend cs).eval σ ∧
      (knownSpend cs).eval σ ≤ (objectiveSnapshot p).knownCostUpperBoundKrw := by
  have hspend : (knownSpend cs).eval σ =
      (cs.map fun c ↦ knownCost c * σ (.selected c.actionId)).sum := by
    simp [knownSpend, Function.comp_def]
  have hterm (c : Candidate) (hc : c ∈ cs) : 0 ≤ knownCost c * σ (.selected c.actionId) ∧
      knownCost c * σ (.selected c.actionId) ≤ knownCost c := by
    have hcost := knownCost_nonneg c
    obtain hzero | hone := hchoice.selected01 c hc
    · rw [hzero, mul_zero]
      exact ⟨le_rfl, hcost⟩
    · rw [hone, mul_one]
      exact ⟨hcost, le_rfl⟩
  have hbound : (objectiveSnapshot p).knownCostUpperBoundKrw = (cs.map knownCost).sum :=
    (hperm.map knownCost).sum_eq.symm
  rw [hspend, hbound]
  constructor
  · apply List.sum_nonneg
    intro x hx
    obtain ⟨c, hc, rfl⟩ := List.mem_map.mp hx
    exact (hterm c hc).1
  · exact List.sum_le_sum fun c hc ↦ (hterm c hc).2

private theorem unknownSelected01 (hchoice : IsChoice p cs σ)
    (h : Model.AllHold σ (unknownSelectedDefinition cs)) :
    σ .unknownCostSelected = 0 ∨ σ .unknownCostSelected = 1 := by
  simp only [unknownSelectedDefinition] at h
  split at h
  · simp only [Model.allHold_cons, Constraint.holds_eq, eval_expr, eval_const] at h
    exact .inl h.1
  · simp only [Model.allHold_cons, Constraint.Holds, eval_expr] at h
    obtain ⟨⟨-, e, he, hvalue⟩, -⟩ := h
    obtain ⟨c, hc, rfl⟩ := List.mem_map.mp he
    rw [eval_expr] at hvalue
    rw [← hvalue]
    exact hchoice.selected01 c (List.mem_filter.mp hc).1

private theorem costPoints_bounds (hperm : cs.Perm p.candidates) (hchoice : IsChoice p cs σ)
    (h : Model.AllHold σ (costPointsDefinition p cs)) :
    (0 ≤ σ .costPoints ∧ σ .costPoints ≤ normalizedScoreMaximum) ∧
      ((objectiveSnapshot p).knownCostUpperBoundKrw ≠ 0 →
        (0 ≤ σ .costCredit ∧ σ .costCredit ≤ (objectiveSnapshot p).knownCostUpperBoundKrw) ∧
        (σ .unknownCostSelected = 0 ∨ σ .unknownCostSelected = 1)) := by
  obtain ⟨hnonneg, hle⟩ := spend_bounds hperm hchoice
  simp only [costPointsDefinition] at h
  split at h
  · next hzero =>
    simp only [Model.allHold_cons, Constraint.holds_eq, eval_expr, eval_const] at h
    rw [h.1]
    exact ⟨by decide, fun hne ↦ absurd hzero hne⟩
  · next hne =>
    rw [Model.allHold_append] at h
    obtain ⟨hunknown, h⟩ := h
    have h01 := unknownSelected01 hchoice hunknown
    simp only [Model.allHold_cons, Constraint.Holds, Literal.Holds, eval_expr, eval_const,
      LinearExpr.eval_sub, LinearExpr.eval_smul] at h
    obtain ⟨hknown, hnone, ⟨-, hvalue⟩, -⟩ := h
    have hcredit : 0 ≤ σ .costCredit ∧
        σ .costCredit ≤ (objectiveSnapshot p).knownCostUpperBoundKrw := by
      obtain hzero | hone := h01
      · have hleft := hknown hzero
        omega
      · have hleft := hnone hone
        omega
    refine ⟨?_, fun _ ↦ ⟨hcredit, h01⟩⟩
    rw [hvalue]
    exact points_bounds (by omega) hcredit.1 hcredit.2

/-- The early hours of the foundations are at most as many as they could be. -/
theorem foundationPoints_bounds (hlaws : RouteLaws p cs σ)
    (h : Model.AllHold σ (foundationPointsDefinition p cs)) (hsome : foundations p cs ≠ [])
    (hhours : ∀ c ∈ cs, 0 ≤ c.estimatedHours) :
    0 ≤ σ .foundationPriorityPoints ∧
      σ .foundationPriorityPoints ≤ normalizedScoreMaximum := by
  simp only [foundationPointsDefinition, if_neg hsome, Model.allHold_cons, Constraint.Holds,
    eval_expr, eval_const, LinearExpr.eval_smul, LinearExpr.eval_sum] at h
  obtain ⟨⟨hne, hvalue⟩, -⟩ := h
  have hmem : ∀ c ∈ foundations p cs, c ∈ cs := fun c hc ↦ (List.mem_filter.mp hc).1
  have hearly (c : Candidate) (hc : c ∈ cs) :
      0 ≤ (p.calendar.zipIdx.map fun s ↦ ((p.calendar.length : Int) - (s.2 : Int)) *
          assignedAt σ c s.2).sum ∧
        (p.calendar.zipIdx.map fun s ↦ ((p.calendar.length : Int) - (s.2 : Int)) *
          assignedAt σ c s.2).sum ≤ p.calendar.length * c.estimatedHours := by
    have hterm (s : PlanningSlot × Nat) (hs : s ∈ p.calendar.zipIdx) :
        0 ≤ ((p.calendar.length : Int) - (s.2 : Int)) * assignedAt σ c s.2 ∧
          ((p.calendar.length : Int) - (s.2 : Int)) * assignedAt σ c s.2 ≤
            p.calendar.length * assignedAt σ c s.2 := by
      have hlt : s.2 < p.calendar.length := by
        have hget := List.mem_zipIdx_iff_getElem?.mp hs
        exact (List.getElem?_eq_some_iff.mp hget).1
      obtain hzero | hone := hlaws.assigned01 c hc s hs
      · rw [hzero, mul_zero, mul_zero]
        exact ⟨le_rfl, le_rfl⟩
      · rw [hone, mul_one, mul_one]
        omega
    constructor
    · apply List.sum_nonneg
      intro x hx
      obtain ⟨s, hs, rfl⟩ := List.mem_map.mp hx
      exact (hterm s hs).1
    · calc _ ≤ (p.calendar.zipIdx.map fun s ↦
            (p.calendar.length : Int) * assignedAt σ c s.2).sum :=
          List.sum_le_sum fun s hs ↦ (hterm s hs).2
        _ = p.calendar.length * (c.estimatedHours * σ (.selected c.actionId)) := by
          rw [List.sum_map_mul_left, hlaws.exactHours c hc]
        _ ≤ p.calendar.length * c.estimatedHours := by
          apply Int.mul_le_mul_of_nonneg_left _ (Int.natCast_nonneg _)
          obtain hzero | hone := hlaws.selected01 c hc
          · rw [hzero, mul_zero]
            exact hhours c hc
          · rw [hone, mul_one]
  have hsum : ((((foundations p cs).flatMap fun c ↦ p.calendar.zipIdx.map fun s ↦
        ((p.calendar.length : Int) - (s.2 : Int)) *
          (RouteVar.assigned c.actionId s.2).expr)).map (LinearExpr.eval σ)).sum =
      ((foundations p cs).map fun c ↦ (p.calendar.zipIdx.map fun s ↦
        ((p.calendar.length : Int) - (s.2 : Int)) * assignedAt σ c s.2).sum).sum := by
    simp [List.flatMap_def, List.map_flatten, List.sum_flatten, Function.comp_def, assignedAt]
  rw [hsum] at hvalue
  have hnonneg : 0 ≤ ((foundations p cs).map fun c ↦ (p.calendar.zipIdx.map fun s ↦
      ((p.calendar.length : Int) - (s.2 : Int)) * assignedAt σ c s.2).sum).sum := by
    apply List.sum_nonneg
    intro x hx
    obtain ⟨c, hc, rfl⟩ := List.mem_map.mp hx
    exact (hearly c (hmem c hc)).1
  have hle : ((foundations p cs).map fun c ↦ (p.calendar.zipIdx.map fun s ↦
        ((p.calendar.length : Int) - (s.2 : Int)) * assignedAt σ c s.2).sum).sum ≤
      p.calendar.length * ((foundations p cs).map (·.estimatedHours)).sum := by
    rw [← List.sum_map_mul_left]
    exact List.sum_le_sum fun c hc ↦ (hearly c (hmem c hc)).2
  rw [hvalue]
  exact points_bounds (lt_of_le_of_ne (hnonneg.trans hle) (Ne.symm hne)) hnonneg hle

/-- The constraints that are not shortcuts put every variable of theirs in its domain. -/
theorem inDomain_of_remaining (hperm : cs.Perm p.candidates)
    (hhours : ∀ c ∈ cs, 0 ≤ c.estimatedHours) (hchoice : IsChoice p cs σ)
    (h : Model.AllHold σ (remainingConstraints p cs coverage)) :
    RouteLaws p cs σ ∧ Model.InDomain σ
      (candidateDomains p cs ++ coverageDomains p ++ objectiveDomains p cs) := by
  simp only [remainingConstraints, Model.allHold_append] at h
  obtain ⟨⟨⟨⟨⟨⟨hcore, hcoverage⟩, hroute⟩, hpoints⟩, htime⟩, hcost⟩, hfoundation⟩ := h
  have hcandidates := candidateDomains_hold hchoice hcore
  have hlaws := routeLaws_of_core hcandidates hcore
  obtain ⟨hremaining, htimePoints⟩ := timePoints_bounds hlaws hroute htime
  obtain ⟨hcostPoints, hcredit⟩ := costPoints_bounds hperm hchoice hcost
  refine ⟨hlaws, ?_⟩
  simp only [Model.inDomain_append]
  refine ⟨⟨hcandidates, coverageDomains_hold hchoice hcoverage⟩, ?_⟩
  simp only [objectiveDomains, Model.inDomain_append]
  refine ⟨⟨?_, ?_⟩, ?_⟩
  · intro d hd
    simp only [List.mem_cons, List.not_mem_nil, or_false] at hd
    rcases hd with rfl | rfl | rfl | rfl | rfl
    · exact routeCompletion_mem_horizon hlaws hroute
    · exact coveragePoints_bounds hchoice hcoverage hpoints
    · exact hremaining
    · exact htimePoints
    · exact hcostPoints
  · split
    · exact fun d hd ↦ nomatch hd
    · next hne =>
      obtain ⟨hbounds, h01⟩ := hcredit hne
      intro d hd
      simp only [List.mem_cons, List.not_mem_nil, or_false] at hd
      rcases hd with rfl | rfl
      · exact hbounds
      · simp only [Model.boolVar]
        omega
  · split
    · exact fun d hd ↦ nomatch hd
    · next hsome =>
      intro d hd
      obtain rfl := List.mem_singleton.mp hd
      exact foundationPoints_bounds hlaws hfoundation hsome hhours

/-- The posted constraints put every variable in its domain. -/
theorem inDomain_of_allHold (hperm : cs.Perm p.candidates)
    (hhours : ∀ c ∈ cs, 0 ≤ c.estimatedHours) (hchoice : IsChoice p cs σ)
    (h : Model.AllHold σ (routeModel p cs coverage).constraints) :
    Model.InDomain σ (routeModel p cs coverage).domains := by
  obtain ⟨hremaining, hshortcuts⟩ := (allHold_routeModel_iff p cs coverage σ).mp h
  obtain ⟨hlaws, hdomains⟩ := inDomain_of_remaining hperm hhours hchoice hremaining
  simp only [Model.inDomain_append] at hdomains
  simp only [routeModel, Model.inDomain_append]
  refine ⟨⟨hdomains.1, ?_⟩, hdomains.2⟩
  simp only [shortcutConstraints, capacityCompletionBound, Model.allHold_append,
    Model.allHold_cons, Constraint.Holds, eval_expr] at hshortcuts
  obtain ⟨-, htotal, ⟨-, helement⟩, -⟩ := hshortcuts
  have hhoursTotal : σ .totalSelectedHours = totalHours cs σ := by
    rw [htotal]
    simp [totalHours, Function.comp_def]
  intro d hd
  simp only [capacityBoundDomains, List.mem_cons, List.not_mem_nil, or_false] at hd
  rcases hd with rfl | rfl
  · rw [hhoursTotal]
    exact hlaws.totalHours_mem_domain
  · obtain hzero | hslot := List.mem_cons.mp (List.mem_of_getElem? helement)
    · rw [hzero]
      exact ⟨le_rfl, (horizonMicroseconds_pos p).le⟩
    · obtain ⟨slot, hslot, hend⟩ := List.mem_map.mp hslot
      rw [← hend]
      exact endsAt_mem_horizon hslot

end Domains

/-! ### The values of a choice -/

/-- The end of the last hour of an action. -/
def completionOf (p : PlanningProblem) (σ : RouteVar → Int) (actionId : String) : Int :=
  ((p.calendar.zipIdx.map fun s ↦
    microsecondsFromPlanningStart p s.1.endsAt * σ (.assigned actionId s.2)).max?).getD 0

/-- The end of the last hour of a route. -/
def routeCompletionOf (p : PlanningProblem) (cs : List Candidate) (σ : RouteVar → Int) : Int :=
  ((cs.map fun c ↦ completionOf p σ c.actionId).max?).getD 0

/-- A selected activity has the requirement as an outcome. -/
def IsCovered (cs : List Candidate) (σ : RouteVar → Int) (key : String) : Prop :=
  ∃ c ∈ cs, key ∈ c.outcomeRequirementKeys ∧ σ (.selected c.actionId) = 1

instance (cs : List Candidate) (σ : RouteVar → Int) : DecidablePred (IsCovered cs σ) :=
  fun _ ↦ inferInstanceAs (Decidable (∃ c ∈ cs, _ ∧ _))

/-- An activity of unknown cost is selected. -/
def SelectsUnknown (cs : List Candidate) (σ : RouteVar → Int) : Prop :=
  ∃ c ∈ cs, hasUnknownCost c = true ∧ σ (.selected c.actionId) = 1

instance (cs : List Candidate) (σ : RouteVar → Int) : Decidable (SelectsUnknown cs σ) :=
  inferInstanceAs (Decidable (∃ c ∈ cs, _ ∧ _))

/-- The part of the known costs that is not spent, when every selected cost is known. -/
def creditOf (p : PlanningProblem) (cs : List Candidate) (σ : RouteVar → Int) : Int :=
  if SelectsUnknown cs σ then 0
  else (objectiveSnapshot p).knownCostUpperBoundKrw - (knownSpend cs).eval σ

/-- The hours of the foundations, each counted by the slots that follow it. -/
def earlyHoursOf (p : PlanningProblem) (cs : List Candidate) (σ : RouteVar → Int) : Int :=
  (LinearExpr.sum ((foundations p cs).flatMap fun c ↦ p.calendar.zipIdx.map fun s ↦
    ((p.calendar.length : Int) - (s.2 : Int)) *
      (RouteVar.assigned c.actionId s.2).expr)).eval σ

/-- The values of the variables that a choice of activities and slots leads to. -/
def derived (p : PlanningProblem) (cs : List Candidate) (σ : RouteVar → Int) : RouteVar → Int
  | .completion a => completionOf p σ a
  | .covered key => if IsCovered cs σ key then 1 else 0
  | .routeCompletion => routeCompletionOf p cs σ
  | .coveragePoints =>
    if p.preferredRequirementKeys.card = 0 then 0
    else (normalizedScoreMaximum * ((sortedSet p.preferredRequirementKeys).map fun key ↦
      if IsCovered cs σ key then (1 : Int) else 0).sum).tdiv p.preferredRequirementKeys.card
  | .timeRemaining => (objectiveSnapshot p).horizonMicroseconds - routeCompletionOf p cs σ
  | .timePoints => (normalizedScoreMaximum *
      ((objectiveSnapshot p).horizonMicroseconds - routeCompletionOf p cs σ)).tdiv
        (objectiveSnapshot p).horizonMicroseconds
  | .costPoints =>
    if (objectiveSnapshot p).knownCostUpperBoundKrw = 0 then 0
    else (normalizedScoreMaximum * creditOf p cs σ).tdiv
      (objectiveSnapshot p).knownCostUpperBoundKrw
  | .costCredit => creditOf p cs σ
  | .unknownCostSelected => if SelectsUnknown cs σ then 1 else 0
  | .foundationPriorityPoints => (normalizedScoreMaximum * earlyHoursOf p cs σ).tdiv
      (p.calendar.length * ((foundations p cs).map (·.estimatedHours)).sum)
  | v => σ v

section Derived

variable {p : PlanningProblem} {cs : List Candidate} {coverage : Bool} {σ : RouteVar → Int}

@[simp] private theorem derived_selected (a : String) :
    derived p cs σ (.selected a) = σ (.selected a) := rfl

@[simp] private theorem derived_assigned (a : String) (i : Nat) :
    derived p cs σ (.assigned a i) = σ (.assigned a i) := rfl

@[simp] private theorem derived_completion (a : String) :
    derived p cs σ (.completion a) = completionOf p σ a := rfl

@[simp] private theorem assignedAt_derived (c : Candidate) (i : Nat) :
    assignedAt (derived p cs σ) c i = assignedAt σ c i := rfl

private theorem max?_getD_spec {xs : List Int} (h : xs ≠ []) :
    (∀ x ∈ xs, x ≤ xs.max?.getD 0) ∧ xs.max?.getD 0 ∈ xs := by
  cases hmax : xs.max? with
  | none => exact absurd (List.max?_eq_none_iff.mp hmax) h
  | some m =>
    obtain ⟨hmem, hle⟩ := List.max?_eq_some_iff.mp hmax
    exact ⟨hle, hmem⟩

private theorem zipIdx_ne_nil (p : PlanningProblem) : p.calendar.zipIdx ≠ [] := by
  intro hnil
  have hlength := congrArg List.length hnil
  rw [List.length_zipIdx] at hlength
  exact p.calendar_ne_nil (List.eq_nil_of_length_eq_zero hlength)

/-- The completion of an action is the end of its last hour, or zero. -/
theorem completionOf_spec (p : PlanningProblem) (σ : RouteVar → Int) (a : String) :
    (∀ s ∈ p.calendar.zipIdx,
      microsecondsFromPlanningStart p s.1.endsAt * σ (.assigned a s.2) ≤ completionOf p σ a) ∧
    ∃ s ∈ p.calendar.zipIdx,
      microsecondsFromPlanningStart p s.1.endsAt * σ (.assigned a s.2) = completionOf p σ a := by
  have hne : p.calendar.zipIdx.map (fun s ↦
      microsecondsFromPlanningStart p s.1.endsAt * σ (.assigned a s.2)) ≠ [] := by
    rw [ne_eq, List.map_eq_nil_iff]
    exact zipIdx_ne_nil p
  obtain ⟨hle, hmem⟩ := max?_getD_spec hne
  refine ⟨fun s hs ↦ hle _ (List.mem_map_of_mem hs), ?_⟩
  obtain ⟨s, hs, hvalue⟩ := List.mem_map.mp hmem
  exact ⟨s, hs, hvalue⟩

/-- A prerequisite completes before every hour of its dependents. -/
theorem completionOf_le (hroute : IsRoute p cs coverage σ) {c : Candidate} (hc : c ∈ cs)
    {a : String} (ha : a ∈ c.prerequisiteActionIds) (hknown : a ∈ cs.map (·.actionId))
    {s : PlanningSlot × Nat} (hs : s ∈ p.calendar.zipIdx) (hassigned : assignedAt σ c s.2 = 1) :
    completionOf p σ a ≤ microsecondsFromPlanningStart p s.1.startsAt := by
  obtain ⟨-, t, ht, hvalue⟩ := completionOf_spec p σ a
  obtain ⟨d, hd, rfl⟩ := List.mem_map.mp hknown
  have hinside := (p.calendar_inside s.1 (List.fst_mem_of_mem_zipIdx hs)).1
  rw [← hvalue]
  obtain hzero | hone := hroute.assigned01 d hd t ht
  · unfold assignedAt at hzero
    rw [hzero, mul_zero]
    unfold microsecondsFromPlanningStart
    omega
  · unfold assignedAt at hone
    have hbefore := hroute.prerequisiteBefore c hc _ ha s hs hassigned t ht hone
    rw [hone, mul_one]
    unfold microsecondsFromPlanningStart
    omega

/-- The core constraints hold of a route. -/
theorem derived_core (hroute : IsRoute p cs coverage σ)
    (hclosed : ∀ c ∈ cs, ∀ a ∈ c.prerequisiteActionIds, a ∈ cs.map (·.actionId)) :
    Model.AllHold (derived p cs σ) (coreConstraints p cs) := by
  simp only [coreConstraints, coreCandidateConstraints, Model.allHold_append,
    Model.allHold_flatMap]
  refine ⟨⟨⟨⟨fun c hc ↦ ⟨⟨⟨?_, ?_⟩, ?_⟩, ?_⟩, ?_⟩, ?_⟩, ?_⟩, ?_⟩
  · have h := hroute.exactHours c hc
    simpa [Planning.exactHours, assignmentSum, assignedAt, Function.comp_def] using h
  · simp only [windowExclusion, Model.allHold_map, Constraint.holds_eq, eval_expr, eval_const]
    intro s hs
    obtain ⟨hs, hunavailable⟩ := List.mem_filter.mp hs
    exact hroute.window c hc s hs (by simpa using hunavailable)
  · obtain ⟨hle, s, hs, hvalue⟩ := completionOf_spec p σ c.actionId
    simp only [completionDefinition, Model.allHold_cons, Constraint.Holds, eval_expr,
      derived_completion, List.forall_mem_map, LinearExpr.eval_smul, derived_assigned]
    refine ⟨⟨hle, _, List.mem_map_of_mem hs, ?_⟩, Model.allHold_nil _⟩
    rw [LinearExpr.eval_smul, eval_expr, derived_assigned, hvalue]
  · unfold unknownCostExclusion
    split
    · exact Model.allHold_nil _
    · next cap hcap =>
      split
      · next hcost =>
        have hzero := hroute.unknownCost cap hcap c hc (by simp [hasUnknownCost, hcost])
        simpa using hzero
      · exact Model.allHold_nil _
  · simp only [slotConstraints, Model.allHold_map]
    intro s hs
    have h := hroute.oneActivity s hs
    simpa [assignedAt, Function.comp_def] using h
  · simp only [weekConstraints, Model.allHold_map, mem_sortedSet, List.mem_toFinset]
    intro week hweek
    have h := hroute.weekly week hweek
    simpa [assignedAt, Function.comp_def, List.flatMap_def, List.sum_flatten, List.map_flatten]
      using h
  · simp only [prerequisiteConstraints, Model.allHold_flatMap, Model.allHold_cons,
      Model.allHold_map, Constraint.holds_le, Constraint.holds_onlyEnforceIf_pos, eval_expr,
      eval_const, derived_selected, derived_assigned, derived_completion]
    intro c hc a ha
    exact ⟨hroute.prerequisiteSelected c hc a ha,
      fun s hs ↦ completionOf_le hroute hc ha (hclosed c hc a ha) hs⟩
  · unfold budgetConstraints
    split
    · exact Model.allHold_nil _
    · next cap hcap =>
      have h := hroute.budget cap hcap
      simpa [knownSpend, Function.comp_def] using h

private theorem indicator_max {values : List Int} (h : ∀ x ∈ values, x = 0 ∨ x = 1)
    (hne : values ≠ []) : (∀ x ∈ values, x ≤ if 1 ∈ values then 1 else 0) ∧
      (if 1 ∈ values then 1 else 0) ∈ values := by
  by_cases hone : 1 ∈ values
  · rw [if_pos hone]
    exact ⟨fun x hx ↦ by have := h x hx; omega, hone⟩
  · rw [if_neg hone]
    have hall (x : Int) (hx : x ∈ values) : x = 0 :=
      (h x hx).resolve_right fun h1 ↦ hone (h1 ▸ hx)
    obtain ⟨x, hx⟩ := List.exists_mem_of_ne_nil values hne
    exact ⟨fun x hx ↦ (hall x hx).le, hall x hx ▸ hx⟩

/-- The largest of the selection variables of some candidates tells whether one is selected. -/
theorem maxEquality_selected {v : RouteVar} {chosen : List Candidate} {P : Prop}
    [Decidable P]
    (h01 : ∀ c ∈ chosen, σ (.selected c.actionId) = 0 ∨ σ (.selected c.actionId) = 1)
    (hne : chosen.map (fun c ↦ (RouteVar.selected c.actionId).expr) ≠ [])
    (hP : P ↔ ∃ c ∈ chosen, σ (.selected c.actionId) = 1)
    (hv : derived p cs σ v = if P then 1 else 0) :
    (Constraint.maxEquality v.expr
      (chosen.map fun c ↦ (RouteVar.selected c.actionId).expr)).Holds (derived p cs σ) := by
  have hvalues : ∀ x ∈ chosen.map fun c ↦ σ (.selected c.actionId), x = 0 ∨ x = 1 := by
    intro x hx
    obtain ⟨c, hc, rfl⟩ := List.mem_map.mp hx
    exact h01 c hc
  have hvaluesNe : chosen.map (fun c ↦ σ (.selected c.actionId)) ≠ [] := by
    rw [ne_eq, List.map_eq_nil_iff] at hne ⊢
    exact hne
  obtain ⟨hle, hmem⟩ := indicator_max hvalues hvaluesNe
  have hiff : (1 ∈ chosen.map fun c ↦ σ (.selected c.actionId)) ↔ P :=
    List.mem_map.trans hP.symm
  simp only [hiff] at hle hmem
  simp only [Constraint.Holds, eval_expr, hv, List.forall_mem_map, derived_selected]
  refine ⟨fun c hc ↦ hle _ (List.mem_map_of_mem hc), ?_⟩
  obtain ⟨c, hc, hvalue⟩ := List.mem_map.mp hmem
  exact ⟨_, List.mem_map_of_mem hc, by rw [eval_expr, derived_selected, hvalue]⟩

private theorem derived_coverage (hroute : IsRoute p cs coverage σ) :
    Model.AllHold (derived p cs σ) (coverageConstraints p cs coverage) := by
  simp only [coverageConstraints, Model.allHold_flatMap, Model.allHold_append]
  intro key _
  have hcovered : derived p cs σ (.covered key) = if IsCovered cs σ key then 1 else 0 := rfl
  have hiff : IsCovered cs σ key ↔
      ∃ c ∈ cs.filter (fun c ↦ key ∈ c.outcomeRequirementKeys),
        σ (.selected c.actionId) = 1 := by
    simp [IsCovered, and_assoc]
  constructor
  · split
    · next hnone =>
      rw [List.map_eq_nil_iff] at hnone
      rw [hnone] at hiff
      have huncovered : ¬ IsCovered cs σ key := fun h ↦ by simpa using hiff.mp h
      rw [if_neg huncovered] at hcovered
      simpa using hcovered
    · next hsome =>
      rw [Model.allHold_cons]
      refine ⟨maxEquality_selected (fun c hc ↦ ?_) hsome hiff hcovered, Model.allHold_nil _⟩
      exact hroute.selected01 c (List.mem_filter.mp hc).1
  · split
    · next hrequired =>
      have hkey := hroute.covers hrequired.1 key hrequired.2
      have hone : derived p cs σ (.covered key) = 1 := if_pos hkey
      simpa using hone
    · exact Model.allHold_nil _

private theorem derived_routeCompletion :
    Model.AllHold (derived p cs σ) (routeCompletionDefinition cs) := by
  have hvalue : derived p cs σ .routeCompletion = routeCompletionOf p cs σ := rfl
  unfold routeCompletionDefinition
  split
  · next hnil =>
    have hzero : routeCompletionOf p cs σ = 0 := by
      rw [hnil]
      rfl
    simpa [hvalue] using hzero
  · next hne =>
    obtain ⟨hle, hmem⟩ := @max?_getD_spec (cs.map fun c ↦ completionOf p σ c.actionId)
      (by rwa [ne_eq, List.map_eq_nil_iff])
    simp only [Model.allHold_cons, Constraint.Holds, eval_expr, hvalue, List.forall_mem_map,
      derived_completion]
    refine ⟨⟨fun c hc ↦ hle _ (List.mem_map_of_mem hc), ?_⟩, Model.allHold_nil _⟩
    obtain ⟨c, hc, hlast⟩ := List.mem_map.mp hmem
    exact ⟨_, List.mem_map_of_mem hc, by rw [eval_expr, derived_completion, hlast]; rfl⟩

private theorem derived_coveragePoints :
    Model.AllHold (derived p cs σ) (coveragePointsDefinition p) := by
  unfold coveragePointsDefinition
  split
  · next hnone =>
    have hzero : derived p cs σ .coveragePoints = 0 := if_pos hnone
    simpa using hzero
  · next hsome =>
    have hvalue : derived p cs σ .coveragePoints =
        (normalizedScoreMaximum * ((sortedSet p.preferredRequirementKeys).map fun key ↦
          if IsCovered cs σ key then (1 : Int) else 0).sum).tdiv
            p.preferredRequirementKeys.card := if_neg hsome
    simp only [Model.allHold_cons, Model.allHold_nil, and_true, Constraint.Holds, eval_expr,
      eval_const, LinearExpr.eval_smul, LinearExpr.eval_sum, List.map_map, hvalue]
    refine ⟨Int.natCast_ne_zero.mpr hsome, ?_⟩
    congr 3
    apply List.map_congr_left
    intro key _
    rw [Function.comp_apply, eval_expr]
    rfl

private theorem derived_timePoints :
    Model.AllHold (derived p cs σ) (timePointsDefinition p) := by
  have hpos := horizonMicroseconds_pos p
  simp only [timePointsDefinition, Model.allHold_cons, Model.allHold_nil, and_true,
    Constraint.Holds, eval_expr, eval_const, LinearExpr.eval_sub, LinearExpr.eval_smul]
  exact ⟨rfl, hpos.ne', rfl⟩

private theorem derived_costPoints (hchoice : IsChoice p cs σ) :
    Model.AllHold (derived p cs σ) (costPointsDefinition p cs) := by
  simp only [costPointsDefinition]
  split
  · next hzero =>
    have hvalue : derived p cs σ .costPoints = 0 := if_pos hzero
    simpa using hvalue
  · next hne =>
    have hiff : SelectsUnknown cs σ ↔
        ∃ c ∈ cs.filter hasUnknownCost, σ (.selected c.actionId) = 1 := by
      simp [SelectsUnknown, and_assoc]
    have hpoints : derived p cs σ .costPoints = (normalizedScoreMaximum * creditOf p cs σ).tdiv
        (objectiveSnapshot p).knownCostUpperBoundKrw := if_neg hne
    have hspend : (knownSpend cs).eval (derived p cs σ) = (knownSpend cs).eval σ := by
      simp [knownSpend, Function.comp_def]
    have hcredit : derived p cs σ .costCredit = creditOf p cs σ := rfl
    have hunknown : derived p cs σ .unknownCostSelected =
        if SelectsUnknown cs σ then 1 else 0 := rfl
    rw [Model.allHold_append]
    constructor
    · simp only [unknownSelectedDefinition]
      split
      · next hnone =>
        rw [List.map_eq_nil_iff] at hnone
        rw [hnone] at hiff
        have hnever : ¬ SelectsUnknown cs σ := fun h ↦ by simpa using hiff.mp h
        rw [if_neg hnever] at hunknown
        simpa using hunknown
      · next hsome =>
        rw [Model.allHold_cons]
        refine ⟨maxEquality_selected (fun c hc ↦ ?_) hsome hiff hunknown, Model.allHold_nil _⟩
        exact hchoice.selected01 c (List.mem_filter.mp hc).1
    · simp only [Model.allHold_cons, Model.allHold_nil, and_true, Constraint.Holds,
        Literal.Holds, eval_expr, eval_const, LinearExpr.eval_sub, LinearExpr.eval_smul, hspend,
        hcredit, hunknown, hpoints]
      unfold creditOf
      by_cases hsel : SelectsUnknown cs σ
      · rw [if_pos hsel, if_pos hsel]
        exact ⟨fun h ↦ absurd h one_ne_zero, fun _ ↦ rfl, hne⟩
      · rw [if_neg hsel, if_neg hsel]
        exact ⟨fun _ ↦ rfl, fun h ↦ absurd h zero_ne_one, hne⟩

private theorem derived_foundationPoints (hpositive : ∀ c ∈ cs, 0 < c.estimatedHours) :
    Model.AllHold (derived p cs σ) (foundationPointsDefinition p cs) := by
  simp only [foundationPointsDefinition]
  split
  · exact Model.allHold_nil _
  · next hsome =>
    have hearly : (LinearExpr.sum ((foundations p cs).flatMap fun c ↦
        p.calendar.zipIdx.map fun s ↦ ((p.calendar.length : Int) - (s.2 : Int)) *
          (RouteVar.assigned c.actionId s.2).expr)).eval (derived p cs σ) =
        earlyHoursOf p cs σ := by
      unfold earlyHoursOf
      simp only [LinearExpr.eval_sum, List.map_flatMap, List.map_map, Function.comp_def,
        LinearExpr.eval_smul, eval_expr, derived_assigned]
    have hhours : 0 < ((foundations p cs).map (·.estimatedHours)).sum := by
      apply List.sum_pos
      · intro x hx
        obtain ⟨c, hc, rfl⟩ := List.mem_map.mp hx
        exact hpositive c (List.mem_filter.mp hc).1
      · rwa [ne_eq, List.map_eq_nil_iff]
    have hslots : (0 : Int) < p.calendar.length :=
      Int.natCast_pos.mpr (List.length_pos_of_ne_nil p.calendar_ne_nil)
    simp only [Model.allHold_cons, Model.allHold_nil, and_true, Constraint.Holds, eval_expr,
      eval_const, LinearExpr.eval_smul, hearly]
    exact ⟨(Int.mul_pos hslots hhours).ne', rfl⟩

/-- Every route extends to a solution of the model. -/
theorem exists_satisfies (hv : validateCandidates cs = .ok ()) (hperm : cs.Perm p.candidates)
    (hroute : IsRoute p cs coverage σ) :
    ∃ τ, SameChoice p cs σ τ ∧ (routeModel p cs coverage).Satisfies τ := by
  obtain ⟨-, hall⟩ := (validateCandidates_ok_iff cs).mp hv
  have hholds : Model.AllHold (derived p cs σ) (remainingConstraints p cs coverage) := by
    simp only [remainingConstraints, Model.allHold_append]
    refine ⟨⟨⟨⟨⟨⟨?_, ?_⟩, ?_⟩, ?_⟩, ?_⟩, ?_⟩, ?_⟩
    · exact derived_core hroute fun c hc ↦ (hall c hc).2
    · exact derived_coverage hroute
    · exact derived_routeCompletion
    · exact derived_coveragePoints
    · exact derived_timePoints
    · exact derived_costPoints hroute.toIsChoice
    · exact derived_foundationPoints fun c hc ↦ (hall c hc).1
  have hchoice : IsChoice p cs (derived p cs σ) := ⟨hroute.selected01, hroute.assigned01⟩
  obtain ⟨-, hdomains⟩ := inDomain_of_remaining hperm (fun c hc ↦ (hall c hc).1.le) hchoice hholds
  obtain ⟨τ, hτ, hsatisfies⟩ := satisfies_of_withoutShortcuts ⟨hdomains, hholds⟩
  refine ⟨τ, fun c hc ↦ ⟨?_, fun s hs ↦ ?_⟩, hsatisfies⟩
  · exact (hτ (.selected c.actionId) ⟨nofun, nofun⟩).symm
  · exact (hτ (.assigned c.actionId s.2) ⟨nofun, nofun⟩).symm

end Derived

/-! ### The order of the objective -/

/-- The number of required requirements that a choice covers. -/
def requiredCovered (p : PlanningProblem) (cs : List Candidate) (σ : RouteVar → Int) : Nat :=
  (p.requiredRequirementKeys.filter (IsCovered cs σ)).card

/-- The weighted primary score. -/
def weightedScore (p : PlanningProblem) (σ : RouteVar → Int) : Int :=
  (objectiveSnapshot p).coverageWeight * σ .coveragePoints +
    (objectiveSnapshot p).timeWeight * σ .timePoints +
    (objectiveSnapshot p).costWeight * σ .costPoints

/-- The value that a model maximizes. -/
def objectiveValue (m : Model RouteVar) (σ : RouteVar → Int) : Int :=
  (m.objective.map (·.eval σ)).getD 0

/-- A component score is within its range. -/
def InScoreRange (x : Int) : Prop := 0 ≤ x ∧ x ≤ normalizedScoreMaximum

/-- The weights of the objective are shares of 100. -/
structure WeightsAreShares (objective : ObjectiveSnapshot) : Prop where
  coverage : 0 ≤ objective.coverageWeight
  time : 0 ≤ objective.timeWeight
  cost : 0 ≤ objective.costWeight
  total : objective.coverageWeight + objective.timeWeight + objective.costWeight = 100

private theorem weightsAreShares (p : PlanningProblem) :
    WeightsAreShares (objectiveSnapshot p) := by
  unfold objectiveSnapshot
  constructor <;> cases p.constraints.budgetMode <;> cases p.constraints.fastestPath <;> simp

section Order

variable {p : PlanningProblem} {cs : List Candidate} {coverage : Bool} {σ τ : RouteVar → Int}

private theorem countP_sortedSet (P : String → Prop) [DecidablePred P] (keys : Finset String) :
    (sortedSet keys).countP (P ·) = (keys.filter P).card := by
  rcases keys with ⟨⟨l⟩, h⟩
  rw [List.countP_eq_length_filter]
  exact ((List.perm_insertionSort (· ≤ ·) l).filter _).length_eq

/-- The coverage variables of a solution count what its choice covers. -/
theorem sum_covered (h : (routeModel p cs coverage).Satisfies σ) :
    ((sortedSet p.requiredRequirementKeys).map fun key ↦ σ (.covered key)).sum =
      requiredCovered p cs σ := by
  have hcovered (key : String) (hkey : key ∈ sortedSet p.requiredRequirementKeys) :=
    covered_of_satisfies h ((mem_sortedSet _ _).mp hkey)
  rw [sum_eq_countP _ _ fun key hkey ↦ (hcovered key hkey).1]
  unfold requiredCovered
  rw [← countP_sortedSet]
  congr 1
  apply List.countP_congr
  intro key hkey
  rw [decide_eq_true_eq, decide_eq_true_eq]
  exact (hcovered key hkey).2

/-- The scores of a solution are in their ranges. -/
theorem scores_bounds (h : (routeModel p cs coverage).Satisfies σ) :
    InScoreRange (σ .coveragePoints) ∧ InScoreRange (σ .timePoints) ∧
      InScoreRange (σ .costPoints) ∧
      (foundations p cs ≠ [] → InScoreRange (σ .foundationPriorityPoints)) := by
  have hd := h.1
  simp only [routeModel, objectiveDomains, Model.inDomain_append] at hd
  obtain ⟨-, ⟨hscores, -⟩, hfoundation⟩ := hd
  refine ⟨hscores (.coveragePoints, 0, normalizedScoreMaximum) (by simp),
    hscores (.timePoints, 0, normalizedScoreMaximum) (by simp),
    hscores (.costPoints, 0, normalizedScoreMaximum) (by simp), fun hsome ↦ ?_⟩
  rw [if_neg hsome] at hfoundation
  exact hfoundation _ List.mem_cons_self

/-- The weighted score is less than what one required requirement adds. -/
theorem weightedScore_bounds (h : (routeModel p cs coverage).Satisfies σ) :
    0 ≤ weightedScore p σ ∧ weightedScore p σ < partialRequiredCoverageWeight := by
  obtain ⟨⟨hcoverage, hcoverageLe⟩, ⟨htime, htimeLe⟩, ⟨hcost, hcostLe⟩, -⟩ := scores_bounds h
  obtain ⟨hcw, htw, hkw, htotal⟩ := weightsAreShares p
  unfold weightedScore partialRequiredCoverageWeight
  constructor
  · positivity
  · calc _ ≤ (objectiveSnapshot p).coverageWeight * normalizedScoreMaximum +
          (objectiveSnapshot p).timeWeight * normalizedScoreMaximum +
          (objectiveSnapshot p).costWeight * normalizedScoreMaximum := by gcongr
      _ = 100 * normalizedScoreMaximum := by rw [← add_mul, ← add_mul, htotal]
      _ < 100 * normalizedScoreMaximum + 1 := lt_add_one _

/-- The primary score, with the reward for required coverage in partial mode. -/
def primaryScore (p : PlanningProblem) (cs : List Candidate) (requireRequiredCoverage : Bool)
    (σ : RouteVar → Int) : Int :=
  if requireRequiredCoverage then weightedScore p σ
  else partialRequiredCoverageWeight * requiredCovered p cs σ + weightedScore p σ

/-- The objective is the primary score with a bounded tie-break. -/
theorem objectiveValue_eq (h : (routeModel p cs coverage).Satisfies σ) :
    ∃ tieBreak, InScoreRange tieBreak ∧ objectiveValue (routeModel p cs coverage) σ =
      if foundations p cs = [] then primaryScore p cs coverage σ
      else (normalizedScoreMaximum + 1) * primaryScore p cs coverage σ + tieBreak := by
  have hcovered := sum_covered h
  have hprimary : (if (!coverage) = true then
        partialRequiredCoverageWeight * LinearExpr.sum ((sortedSet p.requiredRequirementKeys).map
          fun key ↦ (RouteVar.covered key).expr) +
        ((objectiveSnapshot p).coverageWeight * RouteVar.coveragePoints.expr +
          (objectiveSnapshot p).timeWeight * RouteVar.timePoints.expr +
          (objectiveSnapshot p).costWeight * RouteVar.costPoints.expr)
      else (objectiveSnapshot p).coverageWeight * RouteVar.coveragePoints.expr +
        (objectiveSnapshot p).timeWeight * RouteVar.timePoints.expr +
        (objectiveSnapshot p).costWeight * RouteVar.costPoints.expr).eval σ =
      primaryScore p cs coverage σ := by
    unfold primaryScore weightedScore
    cases coverage <;> simp [Function.comp_def, hcovered]
  by_cases hnone : foundations p cs = []
  · refine ⟨0, ⟨le_rfl, by decide⟩, ?_⟩
    rw [if_pos hnone, ← hprimary]
    simp only [objectiveValue, routeModel, objectiveExpr, if_pos hnone, Option.map_some,
      Option.getD_some]
  · refine ⟨σ .foundationPriorityPoints, (scores_bounds h).2.2.2 hnone, ?_⟩
    rw [if_neg hnone, ← hprimary]
    simp only [objectiveValue, routeModel, objectiveExpr, if_neg hnone, Option.map_some,
      Option.getD_some, LinearExpr.eval_add, LinearExpr.eval_smul, eval_expr]

/-- A larger primary score beats any tie-break. -/
theorem objectiveValue_lt (hσ : (routeModel p cs coverage).Satisfies σ)
    (hτ : (routeModel p cs coverage).Satisfies τ)
    (hlt : primaryScore p cs coverage σ < primaryScore p cs coverage τ) :
    objectiveValue (routeModel p cs coverage) σ <
      objectiveValue (routeModel p cs coverage) τ := by
  obtain ⟨x, ⟨-, hx⟩, hvalue⟩ := objectiveValue_eq hσ
  obtain ⟨y, ⟨hy, -⟩, hvalue'⟩ := objectiveValue_eq hτ
  rw [hvalue, hvalue']
  split
  · exact hlt
  · unfold normalizedScoreMaximum at hx ⊢
    omega

/-- One more required requirement outweighs any weighted score. -/
theorem primaryScore_lt_of_covered (hσ : (routeModel p cs false).Satisfies σ)
    (hτ : (routeModel p cs false).Satisfies τ)
    (hlt : requiredCovered p cs σ < requiredCovered p cs τ) :
    primaryScore p cs false σ < primaryScore p cs false τ := by
  obtain ⟨-, hle⟩ := weightedScore_bounds hσ
  obtain ⟨hnonneg, -⟩ := weightedScore_bounds hτ
  simp only [primaryScore, Bool.false_eq_true, if_false]
  calc _ < partialRequiredCoverageWeight * requiredCovered p cs σ +
        partialRequiredCoverageWeight := by omega
    _ = partialRequiredCoverageWeight * ((requiredCovered p cs σ + 1 : Nat) : Int) := by
      push_cast
      ring
    _ ≤ partialRequiredCoverageWeight * requiredCovered p cs τ :=
      Int.mul_le_mul_of_nonneg_left (Int.ofNat_le.mpr hlt) (by decide)
    _ ≤ _ := by omega

end Order

/-- The objective of a posted model is lexicographic, and its variables never cut off a route: the
constraints put them in their domains, and every route extends to a solution.
`src/jobtology_be/planning/cp_sat_model.py:231–372`,
`src/jobtology_be/planning/solver_models.py:290–315`. -/
theorem objective_lexicographic (p : PlanningProblem) (cs : List Candidate)
    (hperm : cs.Perm p.candidates) (coverage : Bool) (artifacts : RouteModelArtifacts)
    (h : buildRouteModel p cs coverage = .ok artifacts) :
    WeightsAreShares (objectiveSnapshot p) ∧
    (coverage = false → ∀ σ τ, artifacts.model.Satisfies σ → artifacts.model.Satisfies τ →
      requiredCovered p cs σ < requiredCovered p cs τ →
        objectiveValue artifacts.model σ < objectiveValue artifacts.model τ) ∧
    (∀ σ τ, artifacts.model.Satisfies σ → artifacts.model.Satisfies τ →
      requiredCovered p cs σ = requiredCovered p cs τ → weightedScore p σ < weightedScore p τ →
        objectiveValue artifacts.model σ < objectiveValue artifacts.model τ) ∧
    (∀ σ, IsChoice p cs σ → Model.AllHold σ artifacts.model.constraints →
      Model.InDomain σ artifacts.model.domains ∧ InScoreRange (σ .coveragePoints) ∧
        InScoreRange (σ .timePoints) ∧ InScoreRange (σ .costPoints)) ∧
    ∀ σ, IsRoute p cs coverage σ → ∃ τ, SameChoice p cs σ τ ∧ artifacts.model.Satisfies τ := by
  obtain ⟨hv, rfl⟩ := (buildRouteModel_ok_iff p cs coverage artifacts).mp h
  obtain ⟨-, hall⟩ := (validateCandidates_ok_iff cs).mp hv
  refine ⟨weightsAreShares p, ?_, fun σ τ hσ hτ heq hlt ↦ ?_, fun σ hchoice hσ ↦ ?_,
    fun σ ↦ exists_satisfies hv hperm⟩
  · rintro rfl σ τ hσ hτ hlt
    exact objectiveValue_lt hσ hτ (primaryScore_lt_of_covered hσ hτ hlt)
  · apply objectiveValue_lt hσ hτ
    unfold primaryScore
    rw [heq]
    split
    · exact hlt
    · omega
  · have hdomains := inDomain_of_allHold hperm (fun c hc ↦ (hall c hc).1.le) hchoice hσ
    obtain ⟨hcoverage, htime, hcost, -⟩ := scores_bounds ⟨hdomains, hσ⟩
    exact ⟨hdomains, hcoverage, htime, hcost⟩

/-- Nothing is selected. -/
def idleAssignment : RouteVar → Int
  | .timeRemaining => 10 * hour
  | .timePoints => normalizedScoreMaximum
  | _ => 0

/-- Serving the required activity beats an idle route. -/
theorem objective_lexicographic_sample :
    objectiveValue (routeModel sampleProblem sampleCandidates false) idleAssignment <
        objectiveValue (routeModel sampleProblem sampleCandidates false) sampleAssignment ∧
      Model.InDomain sampleAssignment
        (routeModel sampleProblem sampleCandidates false).domains := by
  obtain ⟨-, hcovered, -, hdomains, -⟩ := objective_lexicographic sampleProblem sampleCandidates
    (List.Perm.refl sampleCandidates) false
    ⟨routeModel sampleProblem sampleCandidates false, sampleCandidates⟩ rfl
  refine ⟨hcovered rfl idleAssignment sampleAssignment (by decide) (by decide) (by decide), ?_⟩
  exact (hdomains sampleAssignment ⟨by decide, by decide⟩ (by decide)).1

end Jobtology.Planning
