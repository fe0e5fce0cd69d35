import Jobtology.Planning.Results

/-!
# Every solution is a valid route

What a valid route is, in terms of the emitted steps alone, and that every satisfying assignment
of the posted model decodes to one.
-/

namespace Jobtology.Planning

open Jobtology.Base Jobtology.Cp Jobtology.Time

/-- A valid route for the candidates of a problem. -/
structure ValidRoute (p : PlanningProblem) (cs : List Candidate)
    (steps : List ScheduledRouteStep) : Prop where
  distinctActions : (steps.map (·.actionId)).Nodup
  fromCandidate : ∀ s ∈ steps, ∃ c ∈ cs, s.actionId = c.actionId ∧ s.stepKey = stepKey c ∧
    s.estimatedHours = c.estimatedHours
  exactHours : ∀ s ∈ steps, (s.slotAllocations.length : Int) = s.estimatedHours ∧
    (s.slotAllocations.map (·.slotIndex)).Nodup
  calendarSlots : ∀ s ∈ steps, ∀ a ∈ s.slotAllocations, ∃ slot,
    p.calendar[a.slotIndex]? = some slot ∧ a = allocationOf (slot, a.slotIndex)
  exclusive : ∀ s ∈ steps, ∀ t ∈ steps, s ≠ t →
    ∀ a ∈ s.slotAllocations, ∀ b ∈ t.slotAllocations, a.slotIndex ≠ b.slotIndex
  weeklyHours : ∀ week, (steps.map fun s ↦
    (s.slotAllocations.countP fun a ↦ a.capacityWeekKey = week : Int)).sum ≤
      p.constraints.availableHoursPerWeek
  window : ∀ s ∈ steps, ∀ w ∈ p.candidateAvailability, w.actionId = s.actionId →
    ∀ a ∈ s.slotAllocations, w.availableFrom ≤ a.startsAt ∧ a.endsAt ≤ w.availableUntil
  insidePlanning : ∀ s ∈ steps, ∀ a ∈ s.slotAllocations,
    p.planningStartedAt ≤ a.startsAt ∧ a.endsAt ≤ p.constraints.targetBy
  span : ∀ s ∈ steps, (∃ a ∈ s.slotAllocations, a.startsAt = s.plannedStartAt) ∧
    (∃ a ∈ s.slotAllocations, a.endsAt = s.plannedEndAt) ∧
    ∀ a ∈ s.slotAllocations, s.plannedStartAt ≤ a.startsAt ∧ a.endsAt ≤ s.plannedEndAt
  prerequisiteActions : ∀ s ∈ steps, ∀ c ∈ cs, c.actionId = s.actionId →
    ∀ a ∈ c.prerequisiteActionIds, ∃ t ∈ steps, t.actionId = a ∧
      t.stepKey ∈ s.prerequisiteStepKeys ∧ t.plannedEndAt ≤ s.plannedStartAt
  prerequisiteSteps : ∀ s ∈ steps, ∀ k ∈ s.prerequisiteStepKeys, ∃ t ∈ steps, t.stepKey = k
  prerequisitesBefore : ∀ s ∈ steps, ∀ t ∈ steps, t.stepKey ∈ s.prerequisiteStepKeys →
    t.plannedEndAt ≤ s.plannedStartAt
  budget : ∀ cap, p.constraints.maxOutOfPocketKrw = some cap →
    ((cs.filter fun c ↦ c.actionId ∈ steps.map (·.actionId)).map knownCost).sum ≤ cap ∧
      ∀ c ∈ cs, c.actionId ∈ steps.map (·.actionId) → c.cost ≠ .unknown
  topological : ∀ i j : Nat, ∀ s t : ScheduledRouteStep, steps[i]? = some s → steps[j]? = some t →
    s.stepKey ∈ t.prerequisiteStepKeys → i < j

/-- Steps decoded from an assignment that obeys the laws of a route. -/
structure DecodedRoute (p : PlanningProblem) (cs : List Candidate) (σ : RouteVar → Int)
    (steps : List ScheduledRouteStep) : Prop where
  laws : RouteLaws p cs σ
  distinct : (cs.map (·.actionId)).Nodup
  decoded : ∃ unsorted, List.Forall₂ (IsStepOf p cs σ)
    (cs.filter fun c ↦ σ (.selected c.actionId) = 1) unsorted ∧ steps.Perm unsorted
  ordered : steps.Pairwise stepOrder

namespace DecodedRoute

variable {p : PlanningProblem} {cs : List Candidate} {σ : RouteVar → Int}
  {steps : List ScheduledRouteStep}

private theorem exists_left_of_mem {α β : Type} {R : α → β → Prop} {xs : List α} {ys : List β}
    (h : List.Forall₂ R xs ys) {y : β} (hy : y ∈ ys) : ∃ x ∈ xs, R x y := by
  induction h with
  | nil => cases hy
  | cons hr _ ih =>
    rcases List.mem_cons.mp hy with rfl | hy
    · exact ⟨_, by simp, hr⟩
    · obtain ⟨x, hx, hxy⟩ := ih hy
      exact ⟨x, by simp [hx], hxy⟩

/-- Every step comes from a selected candidate. -/
theorem candidate_of_step (h : DecodedRoute p cs σ steps) {s : ScheduledRouteStep}
    (hs : s ∈ steps) : ∃ c ∈ cs, σ (.selected c.actionId) = 1 ∧ IsStepOf p cs σ c s := by
  obtain ⟨unsorted, hall, hperm⟩ := h.decoded
  obtain ⟨c, hc, hstep⟩ := exists_left_of_mem hall (hperm.mem_iff.mp hs)
  obtain ⟨hm, hsel⟩ := List.mem_filter.mp hc
  exact ⟨c, hm, by simpa using hsel, hstep⟩

/-- Every selected candidate has a step. -/
theorem step_of_selected (h : DecodedRoute p cs σ steps) {c : Candidate} (hc : c ∈ cs)
    (hsel : σ (.selected c.actionId) = 1) : ∃ s ∈ steps, IsStepOf p cs σ c s := by
  obtain ⟨unsorted, hall, hperm⟩ := h.decoded
  obtain ⟨s, hs, hstep⟩ := exists_left_of_mem hall.flip
    (List.mem_filter.mpr ⟨hc, by simpa using hsel⟩)
  exact ⟨s, hperm.mem_iff.mpr hs, hstep⟩

/-- A candidate has a step exactly when it is selected. -/
theorem selected_iff (h : DecodedRoute p cs σ steps) {c : Candidate} (hc : c ∈ cs) :
    c.actionId ∈ steps.map (·.actionId) ↔ σ (.selected c.actionId) = 1 := by
  constructor
  · intro hm
    obtain ⟨s, hs, ha⟩ := List.mem_map.mp hm
    obtain ⟨d, -, hsel, hstep⟩ := h.candidate_of_step hs
    rw [← ha, hstep.actionId, hsel]
  · intro hsel
    obtain ⟨s, hs, hstep⟩ := h.step_of_selected hc hsel
    exact List.mem_map.mpr ⟨s, hs, hstep.actionId⟩

private theorem map_eq_of_forall₂ {α β γ : Type} {R : α → β → Prop} {f : α → γ} {g : β → γ}
    (hfg : ∀ x y, R x y → g y = f x) {xs : List α} {ys : List β} (h : List.Forall₂ R xs ys) :
    ys.map g = xs.map f := by
  induction h with
  | nil => rfl
  | cons hr _ ih => rw [List.map_cons, List.map_cons, hfg _ _ hr, ih]

/-- A quantity of the steps that is one of their candidates is, up to order, that of the selected
candidates. -/
theorem perm_map (h : DecodedRoute p cs σ steps) {γ : Type} (f : Candidate → γ)
    (g : ScheduledRouteStep → γ) (hfg : ∀ c s, IsStepOf p cs σ c s → g s = f c) :
    (steps.map g).Perm ((cs.filter fun c ↦ σ (.selected c.actionId) = 1).map f) := by
  obtain ⟨unsorted, hall, hperm⟩ := h.decoded
  rw [← map_eq_of_forall₂ hfg hall]
  exact hperm.map g

/-- No two steps are of one activity. -/
theorem distinctActions (h : DecodedRoute p cs σ steps) : (steps.map (·.actionId)).Nodup := by
  rw [(h.perm_map (·.actionId) (·.actionId) fun _ _ hs ↦ hs.actionId).nodup_iff]
  exact h.distinct.sublist (List.filter_sublist.map _)

private theorem candidate_inj (h : DecodedRoute p cs σ steps) {c d : Candidate} (hc : c ∈ cs)
    (hd : d ∈ cs) (ha : c.actionId = d.actionId) : c = d :=
  List.inj_on_of_nodup_map h.distinct hc hd ha

private theorem step_inj (h : DecodedRoute p cs σ steps) {s t : ScheduledRouteStep}
    (hs : s ∈ steps) (ht : t ∈ steps) (ha : s.actionId = t.actionId) : s = t :=
  List.inj_on_of_nodup_map h.distinctActions hs ht ha

private theorem mem_occupied_of_allocation {c : Candidate} {a : SlotAllocation}
    (ha : a ∈ slotAllocations p σ c) : ∃ s ∈ occupied p σ c, a = allocationOf s := by
  obtain ⟨s, hs, rfl⟩ := List.mem_map.mp ha
  exact ⟨s, hs, rfl⟩

/-- A step takes as many slots as its activity takes hours, each once. -/
theorem exactHours (h : DecodedRoute p cs σ steps) (s : ScheduledRouteStep) (hs : s ∈ steps) :
    (s.slotAllocations.length : Int) = s.estimatedHours ∧
      (s.slotAllocations.map (·.slotIndex)).Nodup := by
  obtain ⟨c, hc, hsel, hstep⟩ := h.candidate_of_step hs
  rw [hstep.allocations, hstep.estimatedHours]
  constructor
  · have hlen := h.laws.length_occupied hc
    rw [hsel, mul_one] at hlen
    simpa [slotAllocations] using hlen
  · rw [List.Nodup, List.pairwise_map]
    exact (slotAllocations_sorted p σ c).imp fun hab ↦ Nat.ne_of_lt hab.1

private theorem calendarSlots (h : DecodedRoute p cs σ steps) (s : ScheduledRouteStep)
    (hs : s ∈ steps)
    (a : SlotAllocation) (ha : a ∈ s.slotAllocations) : ∃ slot,
      p.calendar[a.slotIndex]? = some slot ∧ a = allocationOf (slot, a.slotIndex) := by
  obtain ⟨c, -, -, hstep⟩ := h.candidate_of_step hs
  rw [hstep.allocations] at ha
  obtain ⟨slot, hcal, -, heq⟩ := mem_slotAllocations.mp ha
  exact ⟨slot, hcal, heq⟩

/-- No slot belongs to two steps. -/
theorem exclusive (h : DecodedRoute p cs σ steps) (s : ScheduledRouteStep) (hs : s ∈ steps)
    (t : ScheduledRouteStep) (ht : t ∈ steps) (hne : s ≠ t) (a : SlotAllocation)
    (ha : a ∈ s.slotAllocations) (b : SlotAllocation) (hb : b ∈ t.slotAllocations) :
    a.slotIndex ≠ b.slotIndex := by
  obtain ⟨c, hc, -, hcs⟩ := h.candidate_of_step hs
  obtain ⟨d, hd, -, hdt⟩ := h.candidate_of_step ht
  have hcd : c ≠ d := by
    rintro rfl
    exact hne (h.step_inj hs ht (hcs.actionId.trans hdt.actionId.symm))
  rw [hcs.allocations] at ha
  rw [hdt.allocations] at hb
  obtain ⟨x, hx, rfl⟩ := mem_occupied_of_allocation ha
  obtain ⟨y, hy, rfl⟩ := mem_occupied_of_allocation hb
  exact h.laws.occupied_exclusive hc hd hcd hx hy

/-- No week takes more hours than the constraints give it. -/
theorem weeklyHours (h : DecodedRoute p cs σ steps) (week : String) :
    (steps.map fun s ↦
      (s.slotAllocations.countP fun a ↦ a.capacityWeekKey = week : Int)).sum ≤
      p.constraints.availableHoursPerWeek := by
  have hperm := h.perm_map
    (fun c ↦ ((occupied p σ c).countP fun s ↦ s.1.capacityWeekKey = week : Int))
    (fun s ↦ (s.slotAllocations.countP fun a ↦ a.capacityWeekKey = week : Int)) ?_
  · rw [hperm.sum_eq]
    refine le_trans ?_ (h.laws.weekly_count week)
    refine List.Sublist.sum_le_sum (List.filter_sublist.map _) ?_
    intro n hn
    obtain ⟨c, -, rfl⟩ := List.mem_map.mp hn
    exact Int.natCast_nonneg _
  · intro c s hs
    simp only [hs.allocations, slotAllocations, List.countP_map]
    rfl

/-- The slots of a step are within the window of its activity. -/
theorem window (h : DecodedRoute p cs σ steps) (s : ScheduledRouteStep) (hs : s ∈ steps)
    (w : CandidateAvailability) (hw : w ∈ p.candidateAvailability) (hwa : w.actionId = s.actionId)
    (a : SlotAllocation) (ha : a ∈ s.slotAllocations) :
    w.availableFrom ≤ a.startsAt ∧ a.endsAt ≤ w.availableUntil := by
  obtain ⟨c, hc, -, hstep⟩ := h.candidate_of_step hs
  rw [hstep.allocations] at ha
  obtain ⟨x, hx, rfl⟩ := mem_occupied_of_allocation ha
  have hav := h.laws.occupied_available hc hx
  have hlook : availabilityOf p c.actionId = some w := by
    rw [← hstep.actionId, ← hwa]
    exact lookupLast_of_mem p.availability_nodup hw
  rw [hlook] at hav
  simpa [isAvailable, allocationOf] using hav

private theorem insidePlanning (h : DecodedRoute p cs σ steps) (s : ScheduledRouteStep)
    (hs : s ∈ steps)
    (a : SlotAllocation) (ha : a ∈ s.slotAllocations) :
    p.planningStartedAt ≤ a.startsAt ∧ a.endsAt ≤ p.constraints.targetBy := by
  obtain ⟨slot, hcal, heq⟩ := h.calendarSlots s hs a ha
  rw [heq]
  exact p.calendar_inside slot (List.mem_of_getElem? hcal)

/-- A step starts with its first slot and ends with its last. -/
theorem span (h : DecodedRoute p cs σ steps) (s : ScheduledRouteStep) (hs : s ∈ steps) :
    (∃ a ∈ s.slotAllocations, a.startsAt = s.plannedStartAt) ∧
    (∃ a ∈ s.slotAllocations, a.endsAt = s.plannedEndAt) ∧
    ∀ a ∈ s.slotAllocations, s.plannedStartAt ≤ a.startsAt ∧ a.endsAt ≤ s.plannedEndAt := by
  obtain ⟨c, -, -, hstep⟩ := h.candidate_of_step hs
  obtain ⟨first, hf, hstart⟩ := hstep.start
  obtain ⟨last, hl, hfinish⟩ := hstep.finish
  rw [hstep.allocations, hstart, hfinish]
  exact ⟨⟨first, List.mem_of_head? hf, rfl⟩, ⟨last, List.mem_of_getLast? hl, rfl⟩,
    fun a ha ↦ ⟨head_slotAllocations_le hf ha, le_getLast_slotAllocations hl ha⟩⟩

/-- A prerequisite of a selected candidate has a step that ends before the dependent starts: the
solver bounds its completion by the start of every hour of the dependent. -/
theorem prerequisite_step (h : DecodedRoute p cs σ steps) {c : Candidate} {s : ScheduledRouteStep}
    (hc : c ∈ cs) (hsel : σ (.selected c.actionId) = 1) (hs : IsStepOf p cs σ c s)
    {d : Candidate} (hd : d ∈ cs) (hpre : d.actionId ∈ c.prerequisiteActionIds) :
    ∃ t ∈ steps, IsStepOf p cs σ d t ∧ t.plannedEndAt ≤ s.plannedStartAt := by
  have hseld : σ (.selected d.actionId) = 1 := by
    have hle := h.laws.prerequisiteSelected c hc _ hpre
    rcases h.laws.selected01 d hd with h0 | h1
    · omega
    · exact h1
  obtain ⟨t, ht, htd⟩ := h.step_of_selected hd hseld
  refine ⟨t, ht, htd, ?_⟩
  obtain ⟨first, hf, hstart⟩ := hs.start
  obtain ⟨last, hl, hfinish⟩ := htd.finish
  obtain ⟨x, hx, rfl⟩ := mem_occupied_of_allocation (List.mem_of_head? hf)
  obtain ⟨y, hy, rfl⟩ := mem_occupied_of_allocation (List.mem_of_getLast? hl)
  obtain ⟨hcal, hx1⟩ := mem_occupied.mp hx
  have hbefore := h.laws.prerequisiteBefore c hc _ hpre x
    (List.mem_zipIdx_iff_getElem?.mpr hcal) hx1
  have hafter := h.laws.endsAt_le_completion hd hy
  rw [hstart, hfinish]
  simp only [microsecondsFromPlanningStart] at hbefore hafter
  simp only [allocationOf]
  omega

/-- The key of a prerequisite step is that of the prerequisite candidate. -/
theorem candidate_of_prerequisite {c : Candidate} {s : ScheduledRouteStep}
    (hs : IsStepOf p cs σ c s) {k : String} (hk : k ∈ s.prerequisiteStepKeys) :
    ∃ d ∈ cs, d.actionId ∈ c.prerequisiteActionIds ∧ k = stepKey d := by
  have hm : some k ∈ s.prerequisiteStepKeys.map some := List.mem_map.mpr ⟨k, hk, rfl⟩
  rw [hs.prerequisites] at hm
  obtain ⟨a, ha, hak⟩ := List.mem_map.mp hm
  obtain ⟨d, hlook, hdk⟩ := Option.map_eq_some_iff.mp hak
  obtain ⟨hd, hda⟩ := lookupLast_some hlook
  exact ⟨d, hd, by rw [hda]; exact ha, hdk.symm⟩

private theorem key_of_prerequisite (h : DecodedRoute p cs σ steps) {c d : Candidate}
    {s : ScheduledRouteStep} (hs : IsStepOf p cs σ c s) (hd : d ∈ cs)
    (hpre : d.actionId ∈ c.prerequisiteActionIds) : stepKey d ∈ s.prerequisiteStepKeys := by
  have hm : some (stepKey d) ∈ s.prerequisiteStepKeys.map some := by
    rw [hs.prerequisites]
    exact List.mem_map.mpr ⟨d.actionId, hpre, by rw [lookupLast_of_mem h.distinct hd]; rfl⟩
  obtain ⟨k, hk, hke⟩ := List.mem_map.mp hm
  rw [← Option.some.inj hke]
  exact hk

/-- The prerequisites of a step are steps. -/
theorem prerequisiteSteps (h : DecodedRoute p cs σ steps) (s : ScheduledRouteStep)
    (hs : s ∈ steps) (k : String) (hk : k ∈ s.prerequisiteStepKeys) :
    ∃ t ∈ steps, t.stepKey = k := by
  obtain ⟨c, hc, hsel, hstep⟩ := h.candidate_of_step hs
  obtain ⟨d, hd, hpre, rfl⟩ := candidate_of_prerequisite hstep hk
  obtain ⟨t, ht, htd, -⟩ := h.prerequisite_step hc hsel hstep hd hpre
  exact ⟨t, ht, htd.stepKey⟩

/-- A prerequisite ends before its dependent starts. -/
theorem prerequisitesBefore (h : DecodedRoute p cs σ steps) (s : ScheduledRouteStep)
    (hs : s ∈ steps) (t : ScheduledRouteStep) (ht : t ∈ steps)
    (hk : t.stepKey ∈ s.prerequisiteStepKeys) : t.plannedEndAt ≤ s.plannedStartAt := by
  obtain ⟨c, hc, hsel, hcs⟩ := h.candidate_of_step hs
  obtain ⟨e, he, -, het⟩ := h.candidate_of_step ht
  obtain ⟨d, hd, hpre, hkd⟩ := candidate_of_prerequisite hcs hk
  rw [het.stepKey] at hkd
  obtain rfl := h.candidate_inj he hd (actionId_eq_of_stepKey_eq hkd)
  obtain ⟨u, hu, hue, hle⟩ := h.prerequisite_step hc hsel hcs hd hpre
  rw [h.step_inj ht hu (het.actionId.trans hue.actionId.symm)]
  exact hle

/-- A step starts before it ends. -/
theorem startsAt_lt_endsAt (h : DecodedRoute p cs σ steps) {s : ScheduledRouteStep}
    (hs : s ∈ steps) : s.plannedStartAt < s.plannedEndAt := by
  obtain ⟨⟨a, ha, hstart⟩, -, hspan⟩ := h.span s hs
  have hle := (hspan a ha).2
  obtain ⟨slot, -, heq⟩ := h.calendarSlots s hs a ha
  have hlt := slot.startsAt_lt_endsAt
  rw [heq] at hstart hle
  simp only [allocationOf] at hstart hle
  omega

/-- Steps are emitted by planned start, so a prerequisite comes at an earlier position. -/
theorem topological (h : DecodedRoute p cs σ steps) (i j : Nat) (s t : ScheduledRouteStep)
    (hi : steps[i]? = some s) (hj : steps[j]? = some t)
    (hk : s.stepKey ∈ t.prerequisiteStepKeys) : i < j := by
  have hs : s ∈ steps := List.mem_of_getElem? hi
  have ht : t ∈ steps := List.mem_of_getElem? hj
  have hbefore := h.prerequisitesBefore t ht s hs hk
  have hlt := h.startsAt_lt_endsAt hs
  by_contra hij
  rcases Nat.lt_or_eq_of_le (Nat.le_of_not_lt hij) with hji | rfl
  · obtain ⟨hi', rfl⟩ := List.getElem?_eq_some_iff.mp hi
    obtain ⟨hj', rfl⟩ := List.getElem?_eq_some_iff.mp hj
    have horder := List.pairwise_iff_getElem.mp h.ordered j i hj' hi' hji
    have hstart := startsAt_le_of_stepOrder horder
    omega
  · rw [hi] at hj
    obtain rfl := Option.some.inj hj
    omega

private theorem prerequisiteActions (h : DecodedRoute p cs σ steps)
    (hpresent : ∀ c ∈ cs, ∀ a ∈ c.prerequisiteActionIds, a ∈ cs.map (·.actionId))
    (s : ScheduledRouteStep) (hs : s ∈ steps) (c : Candidate) (hc : c ∈ cs)
    (hcs : c.actionId = s.actionId) (a : String) (ha : a ∈ c.prerequisiteActionIds) :
    ∃ t ∈ steps, t.actionId = a ∧ t.stepKey ∈ s.prerequisiteStepKeys ∧
      t.plannedEndAt ≤ s.plannedStartAt := by
  obtain ⟨e, he, hsel, hstep⟩ := h.candidate_of_step hs
  obtain rfl := h.candidate_inj hc he (hcs.trans hstep.actionId)
  obtain ⟨d, hd, rfl⟩ := List.mem_map.mp (hpresent c hc a ha)
  obtain ⟨t, ht, htd, hle⟩ := h.prerequisite_step hc hsel hstep hd ha
  refine ⟨t, ht, htd.actionId, ?_, hle⟩
  rw [htd.stepKey]
  exact h.key_of_prerequisite hstep hd ha

/-- Only selected candidates count towards the budget, and those of unknown cost are excluded
under a cap. -/
theorem budget (h : DecodedRoute p cs σ steps) (cap : Nat)
    (hcap : p.constraints.maxOutOfPocketKrw = some cap) :
    ((cs.filter fun c ↦ c.actionId ∈ steps.map (·.actionId)).map knownCost).sum ≤ cap ∧
      ∀ c ∈ cs, c.actionId ∈ steps.map (·.actionId) → c.cost ≠ .unknown := by
  constructor
  · have hsum : (cs.map fun c ↦ knownCost c * σ (.selected c.actionId)).sum =
        ((cs.filter fun c ↦ c.actionId ∈ steps.map (·.actionId)).map knownCost).sum := by
      have hzero := List.sum_map_ite (fun c : Candidate ↦ c.actionId ∈ steps.map (·.actionId))
        knownCost (fun _ ↦ (0 : Int)) cs
      simp only [List.map_const', List.sum_replicate, nsmul_zero, add_zero] at hzero
      rw [← hzero]
      congr 1
      apply List.map_congr_left
      intro c hc
      by_cases hsel : σ (.selected c.actionId) = 1
      · rw [if_pos ((h.selected_iff hc).mpr hsel), hsel, mul_one]
      · have h0 := (h.laws.selected01 c hc).resolve_right hsel
        rw [if_neg fun hm ↦ hsel ((h.selected_iff hc).mp hm), h0, mul_zero]
    rw [← hsum]
    exact h.laws.budget cap hcap
  · intro c hc hm hunknown
    have hsel := (h.selected_iff hc).mp hm
    have h0 := h.laws.unknownCost cap hcap c hc (by simp [hasUnknownCost, hunknown])
    omega

/-- Decoded steps form a valid route. -/
theorem validRoute (h : DecodedRoute p cs σ steps) (hv : validateCandidates cs = .ok ()) :
    ValidRoute p cs steps where
  distinctActions := h.distinctActions
  fromCandidate _ hs :=
    have ⟨c, hc, _, hstep⟩ := h.candidate_of_step hs
    ⟨c, hc, hstep.actionId, hstep.stepKey, hstep.estimatedHours⟩
  exactHours := h.exactHours
  calendarSlots := h.calendarSlots
  exclusive := h.exclusive
  weeklyHours := h.weeklyHours
  window := h.window
  insidePlanning := h.insidePlanning
  span := h.span
  prerequisiteActions :=
    h.prerequisiteActions fun c hc ↦ (((validateCandidates_ok_iff cs).mp hv).2 c hc).2
  prerequisiteSteps := h.prerequisiteSteps
  prerequisitesBefore := h.prerequisitesBefore
  budget := h.budget
  topological := h.topological

end DecodedRoute

/-- A solution of the model of validated candidates decodes to a route. -/
theorem decodedRoute_of_laws {p : PlanningProblem} {cs : List Candidate} {σ : RouteVar → Int}
    {m : Model RouteVar} (hv : validateCandidates cs = .ok ()) (hlaws : RouteLaws p cs σ) :
    ∃ steps, scheduledSteps p ⟨m, cs⟩ σ = some steps ∧ DecodedRoute p cs σ steps := by
  obtain ⟨hdistinct, hall⟩ := (validateCandidates_ok_iff cs).mp hv
  have hne (c : Candidate) (hc : c ∈ selectedCandidates ⟨m, cs⟩ σ) :
      slotAllocations p σ c ≠ [] := by
    obtain ⟨hm, hsel⟩ := List.mem_filter.mp hc
    have hlen := hlaws.length_occupied hm
    have hpos := (hall c hm).1
    have hone : σ (.selected c.actionId) = 1 := by simpa using hsel
    rw [hone, mul_one] at hlen
    intro hnil
    have hzero : (occupied p σ c).length = 0 := by
      simpa [slotAllocations] using congrArg List.length hnil
    omega
  obtain ⟨steps, hsteps⟩ := exists_scheduledSteps (m := m) (fun c hc ↦ (hall c hc).2) hne
  obtain ⟨decoded, hfor, hperm, horder⟩ := scheduledSteps_spec hsteps
  exact ⟨steps, hsteps, hlaws, hdistinct, ⟨decoded, hfor, hperm⟩, horder⟩

/-- Every solution of the posted model, with or without the coverage requirement, decodes to a valid
route with a step for exactly the selected candidates.
`src/jobtology_be/planning/cp_sat_model.py:30–139`,
`src/jobtology_be/planning/cp_sat_results.py:27–68`,
`src/jobtology_be/planning/solver_models.py:260–287`. -/
theorem scheduledSteps_validRoute (p : PlanningProblem) (cs : List Candidate) (coverage : Bool)
    (artifacts : RouteModelArtifacts) (hb : buildRouteModel p cs coverage = .ok artifacts)
    (σ : RouteVar → Int) (hσ : artifacts.model.Satisfies σ) :
    ∃ steps, scheduledSteps p artifacts σ = some steps ∧ ValidRoute p cs steps ∧
      ∀ c ∈ cs, c.actionId ∈ steps.map (·.actionId) ↔ σ (.selected c.actionId) = 1 := by
  obtain ⟨hv, rfl⟩ := (buildRouteModel_ok_iff p cs coverage artifacts).mp hb
  obtain ⟨steps, hsteps, hdec⟩ :=
    decodedRoute_of_laws (m := routeModel p cs coverage) hv (routeLaws_of_satisfies hσ)
  exact ⟨steps, hsteps, hdec.validRoute hv, fun c hc ↦ hdec.selected_iff hc⟩

/-! ### A two-step route -/

/-- A slot of the sample calendar. -/
def sampleSlot (index : Int) : PlanningSlot :=
  { startsAt := index * hour, endsAt := index * hour + hour, capacityWeekKey := "2026-W01"
    accepted :=
      (PlanningSlotData.postInit_ok_iff _).mpr ⟨rfl, show isBlank "2026-W01" = false by decide⟩ }

/-- A one-hour activity of the sample. -/
def sampleCandidate (actionId : String) (outcomes : Finset String)
    (prerequisites : List String) : Candidate :=
  { actionId, templateRevision := 1, title := actionId, estimatedHours := 1
    outcomeRequirementKeys := outcomes, prerequisiteActionIds := prerequisites
    fulfilledPrerequisiteActionIds := [], completionCriteria := ["done"]
    supportRefs := {"ref"}, cost := .known 0 }

/-- An activity for the requirement and its prerequisite. -/
def sampleCandidates : List Candidate :=
  [sampleCandidate "a" ∅ [], sampleCandidate "b" {"r"} ["a"]]

/-- Two free hours in a span of ten. -/
def sampleProblem : PlanningProblem :=
  { analysisId := "analysis", profileVersion := 1, basisVersion := "basis"
    corpusReleaseId := none, isFixture := true, referenceAt := 0
    candidates := sampleCandidates, candidateBlockers := []
    requiredRequirementKeys := {"r"}, preferredRequirementKeys := ∅
    constraints :=
      { targetBy := 10 * hour, availableHoursPerWeek := 2, budgetMode := .regular
        maxOutOfPocketKrw := some 0, fastestPath := false, needsPortfolio := false
        careerSwitch := false, weeklyAvailability := [], unavailableDates := []
        hoursRange := by decide }
    planningStartedAt := 0, calendar := [sampleSlot 0, sampleSlot 1]
    candidateAvailability := [], settings := .default
    planningPolicyVersion := none, planningPolicyDecisions := []
    foundationalPriorityActionIds := ∅, portfolioActionIds := ∅
    accepted := by decide }

/-- The route that takes the two hours in turn. -/
def sampleAssignment : RouteVar → Int
  | .selected _ => 1
  | .assigned a i => if (a = "a" ∧ i = 0) ∨ (a = "b" ∧ i = 1) then 1 else 0
  | .completion a => if a = "a" then hour else 2 * hour
  | .covered _ => 1
  | .routeCompletion => 2 * hour
  | .totalSelectedHours => 2
  | .earliestCapacityCompletion => 2 * hour
  | .timeRemaining => 8 * hour
  | .timePoints => 8000
  | _ => 0

/-- The route of the sample problem is valid. -/
theorem scheduledSteps_validRoute_sample :
    ∃ steps, scheduledSteps sampleProblem
        ⟨routeModel sampleProblem sampleCandidates true, sampleCandidates⟩ sampleAssignment =
      some steps ∧ ValidRoute sampleProblem sampleCandidates steps ∧
      ∀ c ∈ sampleCandidates, c.actionId ∈ steps.map (·.actionId) ↔
        sampleAssignment (.selected c.actionId) = 1 :=
  scheduledSteps_validRoute sampleProblem sampleCandidates true
    ⟨routeModel sampleProblem sampleCandidates true, sampleCandidates⟩ rfl sampleAssignment
    (by decide)

end Jobtology.Planning
