import Jobtology.Planning.Objective

/-!
# The schedule hint is a route

The list schedule of `_add_schedule_hint` obeys every constraint of the model that it seeds, so
its hints extend to a solution.
-/

namespace Jobtology.Planning

open Jobtology.Base Jobtology.Cp

/-- The week of a slot index. -/
def weekOf (p : PlanningProblem) (index : Nat) : Option String :=
  (p.calendar[index]?).map (·.capacityWeekKey)

/-! ### Choosing slots -/

section Choosing

variable {p : PlanningProblem} {ready : Candidate} {st : HintState}

/-- Slots picked by a scan: in the order of the calendar, free and available to the activity. -/
structure Picks (p : PlanningProblem) (ready : Candidate) (st : HintState)
    (slots : List (PlanningSlot × Nat)) (picked : List Nat) : Prop where
  sublist : picked.Sublist (slots.map Prod.snd)
  free : ∀ i ∈ picked, i ∉ st.used
  available : ∀ i ∈ picked, ∃ slot, (slot, i) ∈ slots ∧
    isAvailable slot (availabilityOf p ready.actionId) = true

private theorem Picks.skip {slots : List (PlanningSlot × Nat)} {picked : List Nat}
    (h : Picks p ready st slots picked) (s : PlanningSlot × Nat) :
    Picks p ready st (s :: slots) picked where
  sublist := h.sublist.trans (List.sublist_cons_self _ _)
  free := h.free
  available i hi := (h.available i hi).imp fun _ hslot ↦ ⟨List.mem_cons_of_mem _ hslot.1, hslot.2⟩

private theorem Picks.take {slots : List (PlanningSlot × Nat)} {picked : List Nat}
    (h : Picks p ready st slots picked) {slot : PlanningSlot} {index : Nat}
    (hfree : index ∉ st.used)
    (havailable : isAvailable slot (availabilityOf p ready.actionId) = true) :
    Picks p ready st ((slot, index) :: slots) (index :: picked) where
  sublist := h.sublist.cons_cons index
  free := List.forall_mem_cons.mpr ⟨hfree, h.free⟩
  available := List.forall_mem_cons.mpr
    ⟨⟨slot, List.mem_cons_self, havailable⟩, (h.skip (slot, index)).available⟩

private theorem picks_nil (slots : List (PlanningSlot × Nat)) : Picks p ready st slots [] :=
  ⟨List.nil_sublist _, nofun, nofun⟩

/-- The scan appends the slots that it picks and counts them by week, within the weekly hours. -/
theorem chooseSlots_spec (slots : List (PlanningSlot × Nat))
    (hslots : ∀ s ∈ slots, p.calendar[s.2]? = some s.1) (chosen : List Nat)
    (chosenWeekly : String → Int)
    (hweekly : ∀ week, st.weekly week + chosenWeekly week ≤ p.constraints.availableHoursPerWeek) :
    ∃ picked, Picks p ready st slots picked ∧
      (chooseSlots p ready st slots chosen chosenWeekly).1 = chosen ++ picked ∧
      ∀ week, (chooseSlots p ready st slots chosen chosenWeekly).2 week =
          chosenWeekly week + (picked.countP fun i ↦ weekOf p i = some week : Nat) ∧
        st.weekly week + (chooseSlots p ready st slots chosen chosenWeekly).2 week ≤
          p.constraints.availableHoursPerWeek := by
  induction slots generalizing chosen chosenWeekly with
  | nil =>
    refine ⟨[], picks_nil [], (List.append_nil chosen).symm, fun week ↦ ⟨?_, hweekly week⟩⟩
    rw [List.countP_nil, Nat.cast_zero, add_zero]
    rfl
  | cons s rest ih =>
    obtain ⟨slot, index⟩ := s
    have hrest : ∀ s ∈ rest, p.calendar[s.2]? = some s.1 :=
      fun s hs ↦ hslots s (List.mem_cons_of_mem _ hs)
    unfold chooseSlots
    dsimp only
    split
    · obtain ⟨picked, hpicks, hchosen, hcount⟩ := ih hrest chosen chosenWeekly hweekly
      exact ⟨picked, hpicks.skip _, hchosen, hcount⟩
    · next htaken =>
      rw [not_or, not_or, not_not, not_le] at htaken
      obtain ⟨hfree, havailable, hroom⟩ := htaken
      have hweek : weekOf p index = some slot.capacityWeekKey := by
        unfold weekOf
        rw [hslots _ List.mem_cons_self, Option.map_some]
      -- the week of the slot that is taken counts one more hour, the others as many as before
      have hone (week : String) :
          Function.update chosenWeekly slot.capacityWeekKey
              (chosenWeekly slot.capacityWeekKey + 1) week =
            chosenWeekly week + ([index].countP fun i ↦ weekOf p i = some week : Nat) := by
        by_cases hsame : week = slot.capacityWeekKey
        · subst hsame
          rw [Function.update_self, List.countP_cons_of_pos (by simpa using hweek)]
          rfl
        · rw [Function.update_of_ne hsame, List.countP_cons_of_neg
            (by simpa [hweek] using fun h ↦ hsame h.symm)]
          exact (add_zero _).symm
      have hupdated (week : String) : st.weekly week +
          Function.update chosenWeekly slot.capacityWeekKey
            (chosenWeekly slot.capacityWeekKey + 1) week ≤
          p.constraints.availableHoursPerWeek := by
        by_cases hsame : week = slot.capacityWeekKey
        · subst hsame
          rw [Function.update_self]
          omega
        · rw [Function.update_of_ne hsame]
          exact hweekly week
      split
      · refine ⟨[index], (picks_nil rest).take hfree havailable, rfl, fun week ↦ ⟨hone week, ?_⟩⟩
        exact hupdated week
      · obtain ⟨picked, hpicks, hchosen, hcount⟩ := ih hrest (chosen ++ [index]) _ hupdated
        refine ⟨index :: picked, hpicks.take hfree havailable, ?_, fun week ↦ ⟨?_, ?_⟩⟩
        · rw [hchosen, List.append_assoc]
          rfl
        · rw [(hcount week).1, hone week, add_assoc, ← Nat.cast_add, ← List.countP_append]
          rfl
        · exact (hcount week).2

end Choosing

/-! ### The schedule -/

/-- What has been placed: exact hours in free slots inside the window, later than those of the
prerequisites, within weekly capacity and budget. -/
structure Scheduled (p : PlanningProblem) (cs : List Candidate)
    (placed : List (Candidate × List Nat)) (st : HintState) : Prop where
  allocations : st.allocations = placed.map fun a ↦ (a.1.actionId, a.2)
  known : ∀ a ∈ placed, a.1 ∈ cs
  distinct : (placed.map (·.1.actionId)).Nodup
  hours : ∀ a ∈ placed, (a.2.length : Int) = a.1.estimatedHours
  sorted : ∀ a ∈ placed, a.2.Pairwise (· < ·)
  inside : ∀ a ∈ placed, ∀ i ∈ a.2, ∃ slot, p.calendar[i]? = some slot ∧
    isAvailable slot (availabilityOf p a.1.actionId) = true
  used : st.used = placed.flatMap Prod.snd
  exclusive : st.used.Nodup
  weekly : ∀ week, st.weekly week = (st.used.countP fun i ↦ weekOf p i = some week : Nat) ∧
    st.weekly week ≤ p.constraints.availableHoursPerWeek
  spent : st.spent = (placed.map fun a ↦ knownCost a.1).sum
  budget : ∀ cap, p.constraints.maxOutOfPocketKrw = some cap → st.spent ≤ cap ∧
    ∀ a ∈ placed, hasUnknownCost a.1 = false
  prerequisites : ∀ a ∈ placed, ∀ key ∈ a.1.prerequisiteActionIds, ∃ b ∈ placed,
    b.1.actionId = key ∧ ∀ j ∈ b.2, ∀ i ∈ a.2, j < i

section Schedule

variable {p : PlanningProblem} {cs : List Candidate} {placed : List (Candidate × List Nat)}
  {st : HintState}

private theorem scheduled_initial (p : PlanningProblem) (cs : List Candidate) :
    Scheduled p cs [] HintState.initial := by
  have hcapacity := p.constraints.hoursRange.1
  constructor
  case weekly =>
    intro week
    refine ⟨rfl, ?_⟩
    change 0 ≤ p.constraints.availableHoursPerWeek
    omega
  case budget =>
    intro cap _
    exact ⟨Int.natCast_nonneg cap, nofun⟩
  case distinct => exact List.nodup_nil
  case exclusive => exact List.nodup_nil
  case known => exact nofun
  case hours => exact nofun
  case sorted => exact nofun
  case inside => exact nofun
  case prerequisites => exact nofun
  all_goals rfl

namespace Scheduled

/-- The allocation of a placed activity. -/
theorem allocation_of_mem (h : Scheduled p cs placed st) {a : Candidate × List Nat}
    (ha : a ∈ placed) : st.allocation a.1.actionId = some a.2 := by
  unfold HintState.allocation
  rw [h.allocations]
  cases hfound : (placed.map fun a ↦ (a.1.actionId, a.2)).find?
      fun b ↦ b.1 = a.1.actionId with
  | none =>
    have hnone := List.find?_eq_none.mp hfound _ (List.mem_map_of_mem ha)
    simp at hnone
  | some b =>
    obtain ⟨c, hc, rfl⟩ := List.mem_map.mp (List.mem_of_find?_eq_some hfound)
    have hid : c.1.actionId = a.1.actionId := by simpa using List.find?_some hfound
    rw [List.inj_on_of_nodup_map h.distinct hc ha hid]
    rfl

/-- What is allocated was placed. -/
theorem mem_of_allocation (h : Scheduled p cs placed st) {key : String} {indices : List Nat}
    (hallocated : st.allocation key = some indices) :
    ∃ a ∈ placed, a.1.actionId = key ∧ a.2 = indices := by
  unfold HintState.allocation at hallocated
  rw [h.allocations] at hallocated
  obtain ⟨b, hfound, rfl⟩ := Option.map_eq_some_iff.mp hallocated
  obtain ⟨c, hc, rfl⟩ := List.mem_map.mp (List.mem_of_find?_eq_some hfound)
  exact ⟨c, hc, by simpa using List.find?_some hfound, rfl⟩

/-- Hours after the earliest index come after every hour of the prerequisites. -/
theorem lt_of_earliestIndex_le (h : Scheduled p cs placed st) {ready : Candidate}
    {b : Candidate × List Nat} (hb : b ∈ placed)
    (hkey : b.1.actionId ∈ ready.prerequisiteActionIds) {j i : Nat} (hj : j ∈ b.2)
    (hi : earliestIndex st ready ≤ i) : j < i := by
  obtain ⟨last, hlast⟩ : ∃ last, b.2.getLast? = some last :=
    ⟨_, List.getLast?_eq_some_getLast (List.ne_nil_of_mem hj)⟩
  have hle : j ≤ last := by
    obtain ⟨front, hfront⟩ := List.getLast?_eq_some_iff.mp hlast
    have hsorted := h.sorted b hb
    rw [hfront] at hj hsorted
    obtain hj | hj := List.mem_append.mp hj
    · exact ((List.pairwise_append.mp hsorted).2.2 j hj last List.mem_cons_self).le
    · rw [List.mem_singleton.mp hj]
  have hmem : last + 1 ∈ ready.prerequisiteActionIds.filterMap fun key ↦
      (st.allocation key).bind fun indices ↦ indices.getLast?.map (· + 1) := by
    rw [List.mem_filterMap]
    exact ⟨_, hkey, by rw [h.allocation_of_mem hb, Option.bind_some, hlast, Option.map_some]⟩
  have hmax : last + 1 ≤ earliestIndex st ready := by
    unfold earliestIndex
    generalize (ready.prerequisiteActionIds.filterMap fun key ↦
      (st.allocation key).bind fun indices ↦ indices.getLast?.map (· + 1)) = ends at hmem
    cases hfound : ends.max? with
    | none =>
      rw [List.max?_eq_none_iff] at hfound
      rw [hfound] at hmem
      cases hmem
    | some m => exact (List.max?_eq_some_iff.mp hfound).2 _ hmem
  omega

/-- An activity whose prerequisites are placed is placed whole in the slots that it picks. -/
theorem place (h : Scheduled p cs placed st) {ready : Candidate} (hready : ready ∈ cs)
    (hnew : st.allocation ready.actionId = none)
    (hprerequisites : ∀ key ∈ ready.prerequisiteActionIds, (st.allocation key).isSome)
    (hafford : ∀ cap, p.constraints.maxOutOfPocketKrw = some cap →
      st.spent + knownCost ready ≤ cap ∧ hasUnknownCost ready = false)
    {picked : List Nat} {weekly : String → Int}
    (hpicks : Picks p ready st (p.calendar.zipIdx.drop (earliestIndex st ready)) picked)
    (hweekly : ∀ week, weekly week = (picked.countP fun i ↦ weekOf p i = some week : Nat) ∧
      st.weekly week + weekly week ≤ p.constraints.availableHoursPerWeek)
    (hhours : (picked.length : Int) = ready.estimatedHours) :
    Scheduled p cs ((ready, picked) :: placed)
      { allocations := (ready.actionId, picked) :: st.allocations
        used := picked ++ st.used
        weekly := fun week ↦ st.weekly week + weekly week
        spent := st.spent + knownCost ready } := by
  have hindices : ((p.calendar.zipIdx.drop (earliestIndex st ready)).map Prod.snd).Pairwise
      (· < ·) := by
    rw [List.map_drop, List.zipIdx_map_snd]
    exact List.Pairwise.drop (List.pairwise_lt_range' 1 Nat.one_pos)
  have hsorted : picked.Pairwise (· < ·) := hindices.sublist hpicks.sublist
  have hlate (i : Nat) (hi : i ∈ picked) : earliestIndex st ready ≤ i := by
    have hmem := hpicks.sublist.subset hi
    rw [List.map_drop, List.zipIdx_map_snd] at hmem
    obtain ⟨k, hk, rfl⟩ := List.getElem_of_mem hmem
    rw [List.getElem_drop, List.getElem_range']
    omega
  constructor
  case allocations =>
    rw [List.map_cons, ← h.allocations]
  case known => exact List.forall_mem_cons.mpr ⟨hready, h.known⟩
  case distinct =>
    rw [List.map_cons, List.nodup_cons]
    refine ⟨fun hmem ↦ ?_, h.distinct⟩
    obtain ⟨a, ha, hid⟩ := List.mem_map.mp hmem
    have hallocated := h.allocation_of_mem ha
    rw [hid, hnew] at hallocated
    cases hallocated
  case hours => exact List.forall_mem_cons.mpr ⟨hhours, h.hours⟩
  case sorted => exact List.forall_mem_cons.mpr ⟨hsorted, h.sorted⟩
  case inside =>
    refine List.forall_mem_cons.mpr ⟨fun i hi ↦ ?_, h.inside⟩
    obtain ⟨slot, hslot, havailable⟩ := hpicks.available i hi
    exact ⟨slot, List.mem_zipIdx_iff_getElem?.mp (List.mem_of_mem_drop hslot), havailable⟩
  case used =>
    rw [List.flatMap_cons, ← h.used]
  case exclusive =>
    refine List.nodup_append'.mpr ⟨hsorted.imp Nat.ne_of_lt, h.exclusive, ?_⟩
    exact fun i hi hused ↦ hpicks.free i hi hused
  case weekly =>
    intro week
    refine ⟨?_, (hweekly week).2⟩
    dsimp only
    rw [(h.weekly week).1, (hweekly week).1, List.countP_append]
    push_cast
    ring
  case spent =>
    rw [List.map_cons, List.sum_cons, ← h.spent, add_comm]
  case budget =>
    intro cap hcap
    exact ⟨(hafford cap hcap).1,
      List.forall_mem_cons.mpr ⟨(hafford cap hcap).2, (h.budget cap hcap).2⟩⟩
  case prerequisites =>
    refine List.forall_mem_cons.mpr ⟨fun key hkey ↦ ?_, fun a ha key hkey ↦ ?_⟩
    · obtain ⟨indices, hallocated⟩ := Option.isSome_iff_exists.mp (hprerequisites key hkey)
      obtain ⟨b, hb, rfl, -⟩ := h.mem_of_allocation hallocated
      exact ⟨b, List.mem_cons_of_mem _ hb, rfl,
        fun j hj i hi ↦ h.lt_of_earliestIndex_le hb hkey hj (hlate i hi)⟩
    · obtain ⟨b, hb, hid, hbefore⟩ := h.prerequisites a ha key hkey
      exact ⟨b, List.mem_cons_of_mem _ hb, hid, hbefore⟩

/-- An activity is placed whole or passed over. -/
theorem placeReady (h : Scheduled p cs placed st) {ready : Candidate} (hready : ready ∈ cs)
    (hnew : st.allocation ready.actionId = none)
    (hprerequisites : ∀ key ∈ ready.prerequisiteActionIds, (st.allocation key).isSome) :
    Scheduled p cs placed (Planning.placeReady p st ready) ∨
      ∃ picked, Scheduled p cs ((ready, picked) :: placed) (Planning.placeReady p st ready) := by
  have hslots : ∀ s ∈ p.calendar.zipIdx.drop (earliestIndex st ready),
      p.calendar[s.2]? = some s.1 :=
    fun s hs ↦ List.mem_zipIdx_iff_getElem?.mp (List.mem_of_mem_drop hs)
  obtain ⟨picked, hpicks, hchosen, hcount⟩ := @chooseSlots_spec _ ready st
    (p.calendar.zipIdx.drop (earliestIndex st ready)) hslots [] (fun _ ↦ 0)
    fun week ↦ by
      rw [add_zero]
      exact (h.weekly week).2
  rw [List.nil_append] at hchosen
  have hweekly (week : String) := hcount week
  simp only [zero_add] at hweekly
  have hwhole (hhours : (picked.length : Int) = ready.estimatedHours)
      (hafford : ∀ cap, p.constraints.maxOutOfPocketKrw = some cap →
        st.spent + knownCost ready ≤ cap ∧ hasUnknownCost ready = false) :=
    h.place hready hnew hprerequisites hafford hpicks hweekly hhours
  unfold Planning.placeReady
  dsimp only
  rw [hchosen]
  cases hcap : p.constraints.maxOutOfPocketKrw with
  | none =>
    dsimp only
    rw [if_neg Bool.false_ne_true]
    split
    · exact .inl h
    · next hhours => exact .inr ⟨picked, hwhole (not_not.mp hhours) (by simp [hcap])⟩
  | some cap =>
    dsimp only
    split
    · exact .inl h
    · next hbudget =>
      simp only [Bool.or_eq_true, decide_eq_true_eq, not_or, not_lt] at hbudget
      split
      · exact .inl h
      · next hhours =>
        refine .inr ⟨picked, hwhole (not_not.mp hhours) fun limit hlimit ↦ ?_⟩
        obtain rfl := Option.some.inj (hcap.symm.trans hlimit)
        exact ⟨hbudget.2, by simpa using hbudget.1⟩

end Scheduled

/-- Placing an activity allocates no other one. -/
theorem allocation_placeReady {ready : Candidate} {key : String}
    (hne : key ≠ ready.actionId) : (placeReady p st ready).allocation key = st.allocation key := by
  have hplaced (chosen used : List Nat) (weekly : String → Int) (spent : Int) :
      HintState.allocation ⟨(ready.actionId, chosen) :: st.allocations, used, weekly, spent⟩ key =
        st.allocation key := by
    unfold HintState.allocation
    rw [List.find?_cons_of_neg (by simpa using hne.symm)]
  unfold placeReady
  dsimp only
  split <;> split_ifs
  all_goals first | rfl | exact hplaced _ _ _ _

private theorem not_mem_eraseP {pending : List Candidate}
    (hdistinct : (pending.map (·.actionId)).Nodup) {c : Candidate} (hc : c ∈ pending) :
    c ∉ pending.eraseP fun d ↦ d.actionId = c.actionId := by
  induction pending with
  | nil => cases hc
  | cons d rest ih =>
    rw [List.map_cons, List.nodup_cons] at hdistinct
    by_cases hid : d.actionId = c.actionId
    · rw [List.eraseP_cons_of_pos (by simpa using hid)]
      exact fun hmem ↦ hdistinct.1 (hid ▸ List.mem_map_of_mem hmem)
    · rw [List.eraseP_cons_of_neg (by simpa using hid)]
      have hcr : c ∈ rest := (List.mem_cons.mp hc).resolve_left fun heq ↦ hid (heq ▸ rfl)
      rw [List.mem_cons, not_or]
      exact ⟨fun heq ↦ hid (heq ▸ rfl), ih hdistinct.2 hcr⟩

/-- The list schedule keeps its laws. -/
theorem exists_scheduled (rounds : Nat) (pending : List Candidate)
    (hpending : ∀ c ∈ pending, c ∈ cs) (hdistinct : (pending.map (·.actionId)).Nodup)
    (hnew : ∀ c ∈ pending, st.allocation c.actionId = none) (h : Scheduled p cs placed st) :
    ∃ placed', Scheduled p cs placed' (listSchedule p rounds pending st) := by
  induction rounds generalizing pending placed st with
  | zero => exact ⟨placed, h⟩
  | succ rounds ih =>
    unfold listSchedule
    split
    · exact ⟨placed, h⟩
    · next ready hfound =>
      have hmem := List.mem_of_find?_eq_some hfound
      have hprerequisites : ∀ key ∈ ready.prerequisiteActionIds, (st.allocation key).isSome := by
        simpa using List.find?_some hfound
      have hrest : ∀ c ∈ pending.eraseP (fun c ↦ c.actionId = ready.actionId),
          c ∈ pending ∧ c.actionId ≠ ready.actionId := by
        intro c hc
        have hcp := List.mem_of_mem_eraseP hc
        refine ⟨hcp, fun hid ↦ ?_⟩
        obtain rfl := List.inj_on_of_nodup_map hdistinct hcp hmem hid
        exact (not_mem_eraseP hdistinct hmem) hc
      have hrestDistinct :
          ((pending.eraseP fun c ↦ c.actionId = ready.actionId).map (·.actionId)).Nodup :=
        hdistinct.sublist (List.eraseP_sublist.map _)
      have hlater (c : Candidate) (hc : c ∈ pending.eraseP fun c ↦ c.actionId = ready.actionId) :
          (placeReady p st ready).allocation c.actionId = none := by
        rw [allocation_placeReady (hrest c hc).2]
        exact hnew c (hrest c hc).1
      obtain hplaced | ⟨picked, hplaced⟩ :=
        h.placeReady (hpending ready hmem) (hnew ready hmem) hprerequisites
      · exact ih _ (fun c hc ↦ hpending c (hrest c hc).1) hrestDistinct hlater hplaced
      · exact ih _ (fun c hc ↦ hpending c (hrest c hc).1) hrestDistinct hlater hplaced

end Schedule

/-! ### The hinted assignment -/

/-- The slots of an activity, none when it is not placed. -/
def slotsOf (st : HintState) (actionId : String) : List Nat := (st.allocation actionId).getD []

/-- The values that a schedule hints. -/
def hintedAssignment (st : HintState) : RouteVar → Int
  | .selected a => if slotsOf st a = [] then 0 else 1
  | .assigned a i => if i ∈ slotsOf st a then 1 else 0
  | _ => 0

@[simp] private theorem hintedAssignment_selected (st : HintState) (a : String) :
    hintedAssignment st (.selected a) = if slotsOf st a = [] then 0 else 1 := rfl

@[simp] private theorem hintedAssignment_assigned (st : HintState) (a : String) (i : Nat) :
    hintedAssignment st (.assigned a i) = if i ∈ slotsOf st a then 1 else 0 := rfl

section Hinted

variable {p : PlanningProblem} {cs : List Candidate} {placed : List (Candidate × List Nat)}
  {st : HintState}

/-- An activity is placed in its slots, or has none. -/
theorem slotsOf_cases (hv : validateCandidates cs = .ok ()) (h : Scheduled p cs placed st)
    {c : Candidate} (hc : c ∈ cs) :
    ((c, slotsOf st c.actionId) ∈ placed ∧ slotsOf st c.actionId ≠ []) ∨
      (c ∉ placed.map Prod.fst ∧ slotsOf st c.actionId = []) := by
  obtain ⟨hdistinct, hall⟩ := (validateCandidates_ok_iff cs).mp hv
  unfold slotsOf
  cases hallocated : st.allocation c.actionId with
  | none =>
    refine .inr ⟨fun hmem ↦ ?_, rfl⟩
    obtain ⟨a, ha, rfl⟩ := List.mem_map.mp hmem
    rw [h.allocation_of_mem ha] at hallocated
    cases hallocated
  | some indices =>
    obtain ⟨a, ha, hid, rfl⟩ := h.mem_of_allocation hallocated
    obtain rfl := List.inj_on_of_nodup_map hdistinct (h.known a ha) hc hid
    refine .inl ⟨ha, fun hnil ↦ ?_⟩
    have hhours := h.hours a ha
    have hpositive := (hall a.1 hc).1
    rw [Option.getD_some] at hnil
    rw [hnil, List.length_nil] at hhours
    omega

private theorem selected_eq_one (hv : validateCandidates cs = .ok ())
    (h : Scheduled p cs placed st) {c : Candidate} (hc : c ∈ cs) :
    hintedAssignment st (.selected c.actionId) = 1 ↔ c ∈ placed.map Prod.fst := by
  rw [hintedAssignment_selected]
  obtain ⟨hmem, hne⟩ | ⟨hmem, hnil⟩ := slotsOf_cases hv h hc
  · rw [if_neg hne]
    exact iff_of_true rfl (List.mem_map_of_mem hmem)
  · rw [if_pos hnil]
    exact iff_of_false zero_ne_one hmem

/-- The hours of a list of slots within the calendar. -/
theorem sum_indicator {indices : List Nat} (hnodup : indices.Nodup)
    (hinside : ∀ i ∈ indices, i < p.calendar.length) :
    (p.calendar.zipIdx.map fun s ↦ if s.2 ∈ indices then (1 : Int) else 0).sum =
      indices.length := by
  rw [sum_eq_countP _ _ fun s _ ↦ by split <;> simp]
  have hcount : (p.calendar.zipIdx.countP fun s ↦
      (if s.2 ∈ indices then (1 : Int) else 0) = 1) =
      (p.calendar.zipIdx.map Prod.snd).countP (· ∈ indices) := by
    rw [List.countP_map]
    congr 1
    funext s
    simp
  rw [hcount, List.zipIdx_map_snd, List.countP_eq_length_filter]
  have hperm : ((List.range' 0 p.calendar.length).filter (· ∈ indices)).Perm indices := by
    rw [List.perm_ext_iff_of_nodup ((List.nodup_range' 1).filter _) hnodup]
    intro i
    rw [List.mem_filter, decide_eq_true_eq, List.mem_range'_1]
    exact ⟨fun hi ↦ hi.2, fun hi ↦ ⟨⟨Nat.zero_le i, by have := hinside i hi; omega⟩, hi⟩⟩
  rw [hperm.length_eq]

private theorem slotsOf_subset_used (hv : validateCandidates cs = .ok ())
    (h : Scheduled p cs placed st) {c : Candidate} (hc : c ∈ cs) {i : Nat}
    (hi : i ∈ slotsOf st c.actionId) : i ∈ st.used := by
  obtain ⟨hmem, -⟩ | ⟨-, hnil⟩ := slotsOf_cases hv h hc
  · rw [h.used]
    exact List.mem_flatMap.mpr ⟨_, hmem, hi⟩
  · rw [hnil] at hi
    cases hi

private theorem length_le_one {α : Type} {xs : List α} (hnodup : xs.Nodup)
    (h : ∀ x ∈ xs, ∀ y ∈ xs, x = y) : xs.length ≤ 1 := by
  match xs with
  | [] => exact Nat.zero_le 1
  | [_] => exact le_rfl
  | x :: y :: rest =>
    have heq := h x List.mem_cons_self y (List.mem_cons_of_mem _ List.mem_cons_self)
    exact absurd (heq ▸ List.mem_cons_self) (List.nodup_cons.mp hnodup).1

/-- A slot is hinted for at most one activity, and only when it is used. -/
theorem slot_sum_le (hv : validateCandidates cs = .ok ()) (h : Scheduled p cs placed st)
    (i : Nat) : (cs.map fun c ↦ if i ∈ slotsOf st c.actionId then (1 : Int) else 0).sum ≤
      if i ∈ st.used then 1 else 0 := by
  obtain ⟨hdistinct, -⟩ := (validateCandidates_ok_iff cs).mp hv
  rw [sum_eq_countP _ _ fun c _ ↦ by split <;> simp, List.countP_eq_length_filter]
  have hmem (c : Candidate) (hc : c ∈ cs.filter fun c ↦
      (if i ∈ slotsOf st c.actionId then (1 : Int) else 0) = 1) :
      c ∈ cs ∧ i ∈ slotsOf st c.actionId := by simpa using hc
  by_cases hused : i ∈ st.used
  · rw [if_pos hused]
    have hdisjoint := (List.nodup_flatMap.mp (h.used ▸ h.exclusive)).2
    have hsymm : Std.Symm (Function.onFun List.Disjoint
      (Prod.snd : Candidate × List Nat → List Nat)) := ⟨fun _ _ hab ↦ hab.symm⟩
    refine Int.ofNat_le.mpr (length_le_one (hdistinct.of_map.filter _) fun c hc d hd ↦ ?_)
    obtain ⟨hc, hic⟩ := hmem c hc
    obtain ⟨hd, hid⟩ := hmem d hd
    by_contra hne
    obtain ⟨hplaced, -⟩ | ⟨-, hnil⟩ := slotsOf_cases hv h hc
    · obtain ⟨hplaced', -⟩ | ⟨-, hnil'⟩ := slotsOf_cases hv h hd
      · have hapart := hdisjoint.forall hplaced hplaced' fun heq ↦ hne (congrArg Prod.fst heq)
        exact hapart hic hid
      · rw [hnil'] at hid
        cases hid
    · rw [hnil] at hic
      cases hic
  · rw [if_neg hused]
    have hempty : cs.filter (fun c ↦
        (if i ∈ slotsOf st c.actionId then (1 : Int) else 0) = 1) = [] := by
      apply List.eq_nil_iff_forall_not_mem.mpr
      intro c hc
      obtain ⟨hc, hic⟩ := hmem c hc
      exact hused (slotsOf_subset_used hv h hc hic)
    rw [hempty]
    exact le_rfl

private theorem weekly_sum_le (hv : validateCandidates cs = .ok ()) (h : Scheduled p cs placed st)
    (week : String) :
    (cs.map fun c ↦ ((p.calendar.zipIdx.filter fun s ↦ s.1.capacityWeekKey = week).map fun s ↦
      if s.2 ∈ slotsOf st c.actionId then (1 : Int) else 0).sum).sum ≤
      p.constraints.availableHoursPerWeek := by
  let slots := p.calendar.zipIdx.filter fun s ↦ s.1.capacityWeekKey = week
  have hindices : (slots.map Prod.snd).Nodup := by
    have hsub := (List.filter_sublist (p := fun s : PlanningSlot × Nat ↦
      s.1.capacityWeekKey = week) (l := p.calendar.zipIdx)).map Prod.snd
    rw [List.zipIdx_map_snd] at hsub
    exact (List.nodup_range' 1).sublist hsub
  have hsubset : (slots.map Prod.snd).filter (· ∈ st.used) ⊆
      st.used.filter fun i ↦ weekOf p i = some week := by
    intro i hi
    obtain ⟨hi, hused⟩ := List.mem_filter.mp hi
    obtain ⟨s, hs, rfl⟩ := List.mem_map.mp hi
    obtain ⟨hs, hweek⟩ := List.mem_filter.mp hs
    refine List.mem_filter.mpr ⟨by simpa using hused, ?_⟩
    unfold weekOf
    rw [List.mem_zipIdx_iff_getElem?.mp hs, Option.map_some]
    simpa using hweek
  have hcount := ((hindices.filter (· ∈ st.used)).subperm hsubset).length_le
  have hsum : (slots.map fun s ↦ if s.2 ∈ st.used then (1 : Int) else 0).sum =
      ((slots.map Prod.snd).filter (· ∈ st.used)).length := by
    rw [sum_eq_countP _ _ fun s _ ↦ by split <;> simp, ← List.countP_eq_length_filter,
      List.countP_map]
    congr 2
    funext s
    simp
  obtain ⟨hweekly, hcapacity⟩ := h.weekly week
  rw [List.countP_eq_length_filter] at hweekly
  rw [sum_map_sum_comm]
  calc (slots.map fun s ↦ (cs.map fun c ↦
        if s.2 ∈ slotsOf st c.actionId then (1 : Int) else 0).sum).sum
      ≤ (slots.map fun s ↦ if s.2 ∈ st.used then (1 : Int) else 0).sum :=
        List.sum_le_sum fun s _ ↦ slot_sum_le hv h s.2
    _ ≤ st.weekly week := by
        rw [hsum, hweekly]
        exact Int.ofNat_le.mpr hcount
    _ ≤ _ := hcapacity

private theorem sum_map_ite {α : Type} (f : α → Int) (P : α → Prop) [DecidablePred P]
    (xs : List α) :
    (xs.map fun x ↦ if P x then f x else 0).sum = ((xs.filter (P ·)).map f).sum := by
  induction xs with
  | nil => rfl
  | cons x rest ih =>
    rw [List.map_cons, List.sum_cons, ih]
    by_cases hx : P x
    · rw [if_pos hx, List.filter_cons_of_pos (by simpa using hx), List.map_cons, List.sum_cons]
    · rw [if_neg hx, List.filter_cons_of_neg (by simpa using hx), zero_add]

/-- The selected activities cost what the schedule spends. -/
theorem spend_eq (hv : validateCandidates cs = .ok ()) (h : Scheduled p cs placed st) :
    (cs.map fun c ↦ knownCost c * hintedAssignment st (.selected c.actionId)).sum = st.spent := by
  obtain ⟨hdistinct, -⟩ := (validateCandidates_ok_iff cs).mp hv
  have hplaced : (placed.map Prod.fst).Nodup := by
    have hdistinct' : ((placed.map Prod.fst).map (·.actionId)).Nodup := by
      rw [List.map_map]
      exact h.distinct
    exact hdistinct'.of_map
  have hterm : ∀ c ∈ cs, knownCost c * hintedAssignment st (.selected c.actionId) =
      if c ∈ placed.map Prod.fst then knownCost c else 0 := by
    intro c hc
    have hiff := selected_eq_one hv h hc
    by_cases hmem : c ∈ placed.map Prod.fst
    · rw [if_pos hmem, hiff.mpr hmem, mul_one]
    · rw [if_neg hmem]
      rw [hintedAssignment_selected]
      obtain ⟨hmem', -⟩ | ⟨-, hnil⟩ := slotsOf_cases hv h hc
      · exact absurd (List.mem_map_of_mem hmem') hmem
      · rw [if_pos hnil, mul_zero]
  have hperm : (cs.filter (· ∈ placed.map Prod.fst)).Perm (placed.map Prod.fst) := by
    rw [List.perm_ext_iff_of_nodup (hdistinct.of_map.filter _) hplaced]
    intro c
    rw [List.mem_filter, decide_eq_true_eq]
    refine ⟨fun hc ↦ hc.2, fun hc ↦ ⟨?_, hc⟩⟩
    obtain ⟨a, ha, rfl⟩ := List.mem_map.mp hc
    exact h.known a ha
  rw [List.map_congr_left hterm, h.spent, sum_map_ite, (hperm.map knownCost).sum_eq,
    List.map_map]
  rfl

/-- The schedule is a route when it covers what is required. -/
theorem isRoute_of_scheduled (hv : validateCandidates cs = .ok ()) (h : Scheduled p cs placed st)
    {coverage : Bool} (hcovers : coverage = true → ∀ key ∈ p.requiredRequirementKeys,
      ∃ c ∈ cs, key ∈ c.outcomeRequirementKeys ∧ (st.allocation c.actionId).isSome) :
    IsRoute p cs coverage (hintedAssignment st) := by
  have hassigned (c : Candidate) (i : Nat) : assignedAt (hintedAssignment st) c i =
      if i ∈ slotsOf st c.actionId then 1 else 0 := rfl
  have hplaced {c : Candidate} (hc : c ∈ cs) {i : Nat} (hi : i ∈ slotsOf st c.actionId) :
      (c, slotsOf st c.actionId) ∈ placed := by
    obtain ⟨hmem, -⟩ | ⟨-, hnil⟩ := slotsOf_cases hv h hc
    · exact hmem
    · rw [hnil] at hi
      cases hi
  have hone {c : Candidate} {i : Nat} (hi : assignedAt (hintedAssignment st) c i = 1) :
      i ∈ slotsOf st c.actionId := by
    rw [hassigned] at hi
    by_contra hnot
    rw [if_neg hnot] at hi
    exact zero_ne_one hi
  constructor
  case toIsChoice =>
    constructor
    · intro c _
      rw [hintedAssignment_selected]
      split <;> simp
    · intro c _ s _
      rw [hassigned]
      split <;> simp
  case exactHours =>
    intro c hc
    simp only [hassigned, hintedAssignment_selected]
    obtain ⟨hmem, hne⟩ | ⟨-, hnil⟩ := slotsOf_cases hv h hc
    · rw [if_neg hne, mul_one, ← h.hours _ hmem]
      refine sum_indicator ((h.sorted _ hmem).imp Nat.ne_of_lt) fun i hi ↦ ?_
      obtain ⟨slot, hslot, -⟩ := h.inside _ hmem i hi
      exact (List.getElem?_eq_some_iff.mp hslot).1
    · simp [hnil]
  case window =>
    intro c hc s hs hunavailable
    rw [hassigned, if_neg fun hi ↦ ?_]
    obtain ⟨slot, hslot, havailable⟩ := h.inside _ (hplaced hc hi) s.2 hi
    rw [List.mem_zipIdx_iff_getElem?.mp hs] at hslot
    obtain rfl := Option.some.inj hslot
    rw [hunavailable] at havailable
    cases havailable
  case oneActivity =>
    intro s _
    simp only [hassigned]
    refine (slot_sum_le hv h s.2).trans ?_
    split <;> simp
  case weekly =>
    intro week _
    simp only [hassigned]
    exact weekly_sum_le hv h week
  case prerequisiteSelected =>
    intro c hc a ha
    rw [hintedAssignment_selected, hintedAssignment_selected]
    obtain ⟨hmem, hne⟩ | ⟨-, hnil⟩ := slotsOf_cases hv h hc
    · obtain ⟨b, hb, rfl, -⟩ := h.prerequisites _ hmem a ha
      have hb' : slotsOf st b.1.actionId ≠ [] := by
        obtain ⟨-, hne'⟩ | ⟨hnot, -⟩ := slotsOf_cases hv h (h.known b hb)
        · exact hne'
        · exact absurd (List.mem_map_of_mem hb) hnot
      rw [if_neg hne, if_neg hb']
    · rw [if_pos hnil]
      split <;> simp
  case prerequisiteBefore =>
    intro c hc a ha s hs hi t ht hj
    have hi := hone hi
    obtain ⟨b, hb, rfl, hbefore⟩ := h.prerequisites _ (hplaced hc hi) a ha
    have hjb : t.2 ∈ b.2 := by
      have hj : t.2 ∈ slotsOf st b.1.actionId := hone (c := b.1) hj
      unfold slotsOf at hj
      rwa [h.allocation_of_mem hb] at hj
    exact p.endsAt_le_startsAt (List.mem_zipIdx_iff_getElem?.mp ht)
      (List.mem_zipIdx_iff_getElem?.mp hs) (hbefore _ hjb _ hi)
  case budget =>
    intro cap hcap
    rw [spend_eq hv h]
    exact (h.budget cap hcap).1
  case unknownCost =>
    intro cap hcap c hc hunknown
    rw [hintedAssignment_selected]
    obtain ⟨hmem, -⟩ | ⟨-, hnil⟩ := slotsOf_cases hv h hc
    · have hknown := (h.budget cap hcap).2 _ hmem
      rw [hunknown] at hknown
      cases hknown
    · exact if_pos hnil
  case covers =>
    intro hcoverage key hkey
    obtain ⟨c, hc, hout, hsome⟩ := hcovers hcoverage key hkey
    refine ⟨c, hc, hout, (selected_eq_one hv h hc).mpr ?_⟩
    obtain ⟨indices, hallocated⟩ := Option.isSome_iff_exists.mp hsome
    obtain ⟨a, ha, hid, -⟩ := h.mem_of_allocation hallocated
    obtain rfl := List.inj_on_of_nodup_map ((validateCandidates_ok_iff cs).mp hv).1
      (h.known a ha) hc hid
    exact List.mem_map_of_mem ha

end Hinted

/-- Being a route depends on the chosen activities and slots only. -/
theorem isRoute_congr {p : PlanningProblem} {cs : List Candidate} {coverage : Bool}
    {σ τ : RouteVar → Int} (hv : validateCandidates cs = .ok ()) (hsame : SameChoice p cs σ τ)
    (h : IsRoute p cs coverage σ) : IsRoute p cs coverage τ := by
  obtain ⟨-, hall⟩ := (validateCandidates_ok_iff cs).mp hv
  have hselected {c : Candidate} (hc : c ∈ cs) := (hsame c hc).1
  have hassigned {c : Candidate} (hc : c ∈ cs) {s : PlanningSlot × Nat}
      (hs : s ∈ p.calendar.zipIdx) := (hsame c hc).2 s hs
  -- a prerequisite is itself a candidate
  have hprerequisite {c : Candidate} (hc : c ∈ cs) {a : String}
      (ha : a ∈ c.prerequisiteActionIds) : ∃ d ∈ cs, d.actionId = a :=
    List.mem_map.mp ((hall c hc).2 a ha)
  constructor
  case toIsChoice =>
    constructor
    · intro c hc
      rw [← hselected hc]
      exact h.selected01 c hc
    · intro c hc s hs
      rw [← hassigned hc hs]
      exact h.assigned01 c hc s hs
  case exactHours =>
    intro c hc
    rw [← hselected hc, ← h.exactHours c hc]
    exact congrArg List.sum (List.map_congr_left fun s hs ↦ (hassigned hc hs).symm)
  case window =>
    intro c hc s hs hunavailable
    rw [← hassigned hc hs]
    exact h.window c hc s hs hunavailable
  case oneActivity =>
    intro s hs
    rw [← List.map_congr_left fun c hc ↦ hassigned (c := c) hc hs]
    exact h.oneActivity s hs
  case weekly =>
    intro week hweek
    rw [← List.map_congr_left fun c hc ↦ congrArg List.sum
      (List.map_congr_left fun s hs ↦ hassigned (c := c) hc (List.mem_of_mem_filter hs))]
    exact h.weekly week hweek
  case prerequisiteSelected =>
    intro c hc a ha
    obtain ⟨d, hd, rfl⟩ := hprerequisite hc ha
    rw [← hselected hc, ← hselected hd]
    exact h.prerequisiteSelected c hc _ ha
  case prerequisiteBefore =>
    intro c hc a ha s hs hi t ht hj
    obtain ⟨d, hd, rfl⟩ := hprerequisite hc ha
    rw [← hassigned hc hs] at hi
    have hj : assignedAt τ d t.2 = 1 := hj
    rw [← hassigned hd ht] at hj
    exact h.prerequisiteBefore c hc _ ha s hs hi t ht hj
  case budget =>
    intro cap hcap
    rw [← List.map_congr_left fun c hc ↦ congrArg (knownCost c * ·) (hselected (c := c) hc)]
    exact h.budget cap hcap
  case unknownCost =>
    intro cap hcap c hc hunknown
    rw [← hselected hc]
    exact h.unknownCost cap hcap c hc hunknown
  case covers =>
    intro hcoverage key hkey
    obtain ⟨c, hc, hout, hone⟩ := h.covers hcoverage key hkey
    exact ⟨c, hc, hout, (hselected hc).symm.trans hone⟩

/-- What the schedule is said to cover are outcomes of placed activities. -/
theorem exists_of_mem_covered {cs : List Candidate} {covered : Finset String}
    {key : String}
    (h : key ∈ cs.foldl (fun keys c ↦ keys ∪ c.outcomeRequirementKeys) covered) :
    key ∈ covered ∨ ∃ c ∈ cs, key ∈ c.outcomeRequirementKeys := by
  induction cs generalizing covered with
  | nil => exact .inl h
  | cons c rest ih =>
    obtain hkey | ⟨d, hd, hkey⟩ := ih h
    · exact (Finset.mem_union.mp hkey).imp_right fun hkey ↦ ⟨c, List.mem_cons_self, hkey⟩
    · exact .inr ⟨d, List.mem_cons_of_mem _ hd, hkey⟩

/-- A hint that is emitted extends to a solution of the model, and the activities and slots that it
names are a route. `src/jobtology_be/planning/cp_sat_model.py:30–139,142–218`. -/
theorem scheduleHint_extends (p : PlanningProblem) (cs : List Candidate)
    (hperm : cs.Perm p.candidates) (coverage : Bool) (artifacts : RouteModelArtifacts)
    (h : buildRouteModel p cs coverage = .ok artifacts)
    (hemitted : (scheduleHint p cs coverage).isSome) :
    ∃ σ, (∀ hint ∈ artifacts.model.hints, σ hint.1 = hint.2) ∧ IsRoute p cs coverage σ ∧
      artifacts.model.Satisfies σ := by
  obtain ⟨hv, rfl⟩ := (buildRouteModel_ok_iff p cs coverage artifacts).mp h
  obtain ⟨hdistinct, -⟩ := (validateCandidates_ok_iff cs).mp hv
  obtain ⟨hint, hhint⟩ := Option.isSome_iff_exists.mp hemitted
  have horder := List.perm_insertionSort (fun a b : Candidate ↦
    toLex (decide (a.actionId ∉ p.foundationalPriorityActionIds), a.actionId) ≤
      toLex (decide (b.actionId ∉ p.foundationalPriorityActionIds), b.actionId)) cs
  obtain ⟨placed, hscheduled⟩ := exists_scheduled cs.length (pendingOrder p cs)
    (fun c hc ↦ horder.mem_iff.mp hc) ((horder.map _).nodup_iff.mpr hdistinct)
    (fun _ _ ↦ rfl) (scheduled_initial p cs)
  generalize hst : listSchedule p cs.length (pendingOrder p cs) HintState.initial = st
    at hscheduled
  unfold scheduleHint at hhint
  rw [hst] at hhint
  dsimp only at hhint
  split at hhint
  · cases hhint
  · next hcovered =>
    obtain rfl := Option.some.inj hhint
    have hroute : IsRoute p cs coverage (hintedAssignment st) := by
      refine isRoute_of_scheduled hv hscheduled fun hcoverage key hkey ↦ ?_
      have hsubset : p.requiredRequirementKeys ⊆
          (cs.filter fun c ↦ (st.allocation c.actionId).isSome).foldl
            (fun keys c ↦ keys ∪ c.outcomeRequirementKeys) ∅ := by
        simpa [hcoverage] using hcovered
      obtain hnone | ⟨c, hc, hout⟩ := exists_of_mem_covered (hsubset hkey)
      · exact absurd hnone (Finset.notMem_empty key)
      · obtain ⟨hc, hsome⟩ := List.mem_filter.mp hc
        exact ⟨c, hc, hout, hsome⟩
    obtain ⟨σ, hsame, hσ⟩ := exists_satisfies hv hperm hroute
    refine ⟨σ, fun hint hmem ↦ ?_, isRoute_congr hv hsame hroute, hσ⟩
    have hemit : scheduleHint p cs coverage =
        some (cs.map fun c ↦ (c, slotsOf st c.actionId)) := by
      unfold scheduleHint
      rw [hst]
      dsimp only
      rw [if_neg hcovered]
      rfl
    have hmem : hint ∈ modelHints p cs coverage := hmem
    unfold modelHints at hmem
    rw [hemit] at hmem
    obtain ⟨a, ha, hmem⟩ := List.mem_flatMap.mp hmem
    obtain ⟨c, hc, rfl⟩ := List.mem_map.mp ha
    obtain rfl | hmem := List.mem_cons.mp hmem
    · rw [← (hsame c hc).1]
      exact hintedAssignment_selected st c.actionId
    · obtain ⟨s, hs, rfl⟩ := List.mem_map.mp hmem
      change assignedAt σ c s.2 = _
      rw [← (hsame c hc).2 s hs]
      exact hintedAssignment_assigned st c.actionId s.2

/-- The hint of the sample problem extends to a solution. -/
theorem scheduleHint_extends_sample :
    ∃ σ, IsRoute sampleProblem sampleCandidates true σ ∧
      (routeModel sampleProblem sampleCandidates true).Satisfies σ := by
  obtain ⟨σ, -, hroute, hσ⟩ := scheduleHint_extends sampleProblem sampleCandidates
    (List.Perm.refl sampleCandidates) true
    ⟨routeModel sampleProblem sampleCandidates true, sampleCandidates⟩ rfl (by decide)
  exact ⟨σ, hroute, hσ⟩

end Jobtology.Planning
