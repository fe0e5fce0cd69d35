import Jobtology.Weekly.Plan

/-!
# Customized plans keep to their constraints

A saved customization is packed around the completed steps. When the prerequisites of the roadmap
are acyclic and all of them are steps, the plan reports no violation.
-/

namespace Jobtology.Weekly

open Jobtology.Base Jobtology.Time Jobtology.Planning Jobtology.Graph

/-- Every prerequisite is a step of the roadmap. -/
def ClosedSteps (steps : List PlanStepInput) : Prop :=
  ∀ item ∈ steps, ∀ p ∈ item.step.prerequisiteStepIds, ∃ other ∈ steps, other.step.stepId = p

/-- Prerequisites of the step with an id. -/
def prerequisitesOf (steps : List PlanStepInput) (key : Uuid) : List Uuid :=
  ((stepById steps key).map (·.step.prerequisiteStepIds)).getD []

section Order

variable {context : PlanContext} {steps : List PlanStepInput} {o : PlanOverrides}
  {fixed : List (Uuid × Scheduled)}

/-- The recommended order has the steps. -/
theorem mem_recommendedOrder {item : PlanStepInput} :
    item ∈ recommendedOrder steps ↔ item ∈ steps := List.mem_insertionSort _

private theorem nodup_ids_recommendedOrder (hn : (steps.map (·.step.stepId)).Nodup) :
    ((recommendedOrder steps).map (·.step.stepId)).Nodup :=
  ((List.perm_insertionSort comesBefore steps).map _).nodup_iff.mpr hn

/-- The plan order holds a step under an id exactly when the roadmap does. -/
theorem mem_customOrder {recommended : List PlanStepInput} {order : List Uuid}
    {item : PlanStepInput} :
    item ∈ customOrder recommended order ↔
      stepById recommended item.step.stepId = some item := by
  unfold customOrder
  rw [List.mem_filterMap]
  constructor
  · rintro ⟨key, -, hkey⟩
    rw [(lookupLast_some hkey).2]
    exact hkey
  · intro hitem
    refine ⟨item.step.stepId, ?_, hitem⟩
    have hmem := List.mem_map_of_mem (f := fun i : PlanStepInput ↦ i.step.stepId)
      (lookupLast_some hitem).1
    rw [List.mem_append, List.mem_filter, List.mem_filter]
    by_cases hknown : item.step.stepId ∈ order
    · exact .inl ⟨hknown, by simp [hitem]⟩
    · exact .inr ⟨hmem, by simp [hknown]⟩

/-- Looking a step up in the order of the plan is looking it up in the roadmap. -/
theorem byId_customArgs (key : Uuid) :
    (customArgs context steps o fixed).byId key = stepById (recommendedOrder steps) key := by
  unfold PackArgs.byId
  cases h : lookupLast (·.step.stepId) (customArgs context steps o fixed).ordered key with
  | some item =>
    obtain ⟨hmem, rfl⟩ := lookupLast_some h
    exact (mem_customOrder.mp hmem).symm
  | none =>
    cases hkey : stepById (recommendedOrder steps) key with
    | none => rfl
    | some item =>
      have hid := (lookupLast_some hkey).2
      have hmem : item ∈ customOrder (recommendedOrder steps) o.order :=
        mem_customOrder.mpr (by rw [hid]; exact hkey)
      exact absurd hid (lookupLast_eq_none.mp h item hmem)

/-- The steps that keep their schedule are the completed ones. -/
theorem mem_keys_fixedSchedules {snapshots : Uuid → Option WeeklyPlanStep}
    {recommendedPacked : List (Uuid × Scheduled)}
    (h : fixedSchedules context steps snapshots recommendedPacked = .ok fixed) (key : Uuid) :
    key ∈ fixed.map (·.1) ↔
      ∃ item ∈ steps, item.step.state = .completed ∧ item.step.stepId = key := by
  have hfold (items : List PlanStepInput) (acc fixed : List (Uuid × Scheduled))
      (h : items.foldlM (fun fixed item ↦ do
        let schedule ← fixedSchedule context (planStart context steps)
          (snapshots item.step.stepId) recommendedPacked item
        return setEntry item.step.stepId schedule fixed) acc = .ok fixed) :
      key ∈ fixed.map (·.1) ↔ key ∈ acc.map (·.1) ∨ ∃ item ∈ items, item.step.stepId = key := by
    induction items generalizing acc with
    | nil =>
      obtain rfl := Except.ok.inj h
      simp
    | cons item items ih =>
      rw [List.foldlM_cons] at h
      obtain ⟨acc', hstep, h⟩ := bind_eq_ok.mp h
      obtain ⟨schedule, -, hacc⟩ := bind_eq_ok.mp hstep
      obtain rfl := Except.ok.inj hacc
      rw [ih _ h, mem_keys_setEntry]
      simp only [List.mem_cons, exists_eq_or_imp]
      tauto
  rw [hfold _ _ _ h]
  simp [mem_recommendedOrder, and_assoc]

/-- Steps to pack are the steps that are not completed. -/
theorem mem_keys_customArgs (hn : (steps.map (·.step.stepId)).Nodup)
    (hfixed : ∀ key, key ∈ fixed.map (·.1) ↔
      ∃ item ∈ steps, item.step.state = .completed ∧ item.step.stepId = key) {item : PlanStepInput}
    (hitem : item ∈ steps) :
    item.step.stepId ∈ (customArgs context steps o fixed).keys ↔
      item.step.state ≠ .completed := by
  have hlookup : stepById (recommendedOrder steps) item.step.stepId = some item :=
    lookupLast_of_mem (nodup_ids_recommendedOrder hn) (mem_recommendedOrder.mpr hitem)
  have hordered : item.step.stepId ∈
      ((customArgs context steps o fixed).ordered.map (·.step.stepId)).eraseDups :=
    List.mem_eraseDups.mpr (List.mem_map_of_mem (mem_customOrder.mpr hlookup))
  have hisFixed : (customArgs context steps o fixed).isFixed item.step.stepId = true ↔
      item.step.stepId ∈ fixed.map (·.1) := by
    simp [PackArgs.isFixed, customArgs]
  have hcompleted : item.step.stepId ∈ fixed.map (·.1) ↔ item.step.state = .completed := by
    rw [hfixed]
    constructor
    · rintro ⟨other, hother, hstate, hid⟩
      rwa [← List.inj_on_of_nodup_map hn hother hitem hid]
    · exact fun hstate ↦ ⟨item, hitem, hstate, rfl⟩
  unfold PackArgs.keys
  rw [List.mem_filter, Bool.not_eq_true', ← Bool.not_eq_true, hisFixed, hcompleted]
  exact ⟨fun h ↦ h.2, fun h ↦ ⟨hordered, h⟩⟩

/-- A step to pack is a step of the roadmap that is not completed. -/
theorem exists_of_mem_keys (hn : (steps.map (·.step.stepId)).Nodup)
    (hfixed : ∀ key, key ∈ fixed.map (·.1) ↔
      ∃ item ∈ steps, item.step.state = .completed ∧ item.step.stepId = key) {key : Uuid}
    (hkey : key ∈ (customArgs context steps o fixed).keys) :
    ∃ item ∈ steps, item.step.stepId = key ∧ item.step.state ≠ .completed ∧
      (customArgs context steps o fixed).byId key = some item := by
  have hordered := List.mem_eraseDups.mp (List.mem_filter.mp hkey).1
  obtain ⟨item, hitem, rfl⟩ := List.mem_map.mp hordered
  have hlookup := mem_customOrder.mp hitem
  have hsteps := mem_recommendedOrder.mp (lookupLast_some hlookup).1
  exact ⟨item, hsteps, rfl, (mem_keys_customArgs hn hfixed hsteps).mp hkey,
    by rw [byId_customArgs]; exact hlookup⟩

/-- A prerequisite left open is a prerequisite of the step that is not completed. -/
theorem mem_openPrerequisites {key p : Uuid}
    (hp : p ∈ (customArgs context steps o fixed).openPrerequisites key) :
    p ∈ prerequisitesOf (recommendedOrder steps) key ∧
      ∀ prerequisite, stepById (recommendedOrder steps) p = some prerequisite →
        prerequisite.step.state ≠ .completed := by
  unfold PackArgs.openPrerequisites at hp
  rw [byId_customArgs] at hp
  cases hitem : stepById (recommendedOrder steps) key with
  | none =>
    rw [hitem] at hp
    cases hp
  | some item =>
    rw [hitem] at hp
    obtain ⟨hmem, hopen⟩ := List.mem_filter.mp hp
    refine ⟨by simpa [prerequisitesOf, hitem] using hmem, fun prerequisite hlookup hstate ↦ ?_⟩
    rw [byId_customArgs, hlookup] at hopen
    simp [hstate] at hopen

/-- The order of the plan does not matter for what a step needs. -/
theorem stepById_recommendedOrder (hn : (steps.map (·.step.stepId)).Nodup) (key : Uuid) :
    stepById (recommendedOrder steps) key = stepById steps key :=
  lookupLast_perm (List.perm_insertionSort comesBefore steps) (nodup_ids_recommendedOrder hn) key

/-- Closed prerequisites leave only steps to pack to wait for. -/
theorem closed_customArgs (hn : (steps.map (·.step.stepId)).Nodup) (hclosed : ClosedSteps steps)
    (hfixed : ∀ key, key ∈ fixed.map (·.1) ↔
      ∃ item ∈ steps, item.step.state = .completed ∧ item.step.stepId = key) :
    (customArgs context steps o fixed).Closed := by
  intro key hkey p hp
  obtain ⟨item, hitem, rfl, -, -⟩ := exists_of_mem_keys hn hfixed hkey
  obtain ⟨hprerequisite, hopen⟩ := mem_openPrerequisites (List.mem_toFinset.mp hp)
  have hlookup : stepById (recommendedOrder steps) item.step.stepId = some item :=
    lookupLast_of_mem (nodup_ids_recommendedOrder hn) (mem_recommendedOrder.mpr hitem)
  have hlisted : p ∈ item.step.prerequisiteStepIds := by
    simpa [prerequisitesOf, hlookup] using hprerequisite
  obtain ⟨other, hother, rfl⟩ := hclosed item hitem p hlisted
  refine (mem_keys_customArgs hn hfixed hother).mpr (hopen other ?_)
  exact lookupLast_of_mem (nodup_ids_recommendedOrder hn) (mem_recommendedOrder.mpr hother)

private theorem acyclic_customArgs (hn : (steps.map (·.step.stepId)).Nodup)
    (hacyclic : Acyclic (prerequisitesOf steps)) :
    Acyclic (customArgs context steps o fixed).openPrerequisites := by
  refine hacyclic.mono fun key p hp ↦ ?_
  have hmem := (mem_openPrerequisites hp).1
  rw [prerequisitesOf, stepById_recommendedOrder hn] at hmem
  exact hmem

end Order

/-! ### No violation is reported -/

section Response

variable {args : PackArgs} {packed : List (Uuid × Scheduled)} {placed : List (Uuid × Int)}

private theorem mem_of_scheduleOf {schedules : List (Uuid × Scheduled)} {key : Uuid}
    {schedule : Scheduled} (h : scheduleOf schedules key = .ok schedule) :
    (key, schedule) ∈ schedules := by
  unfold scheduleOf at h
  split at h
  · next found hfound =>
    obtain rfl := Except.ok.inj h
    obtain ⟨before, after, rfl, -⟩ := List.lookup_eq_some_iff.mp hfound
    exact List.mem_append_right _ (by simp)
  · cases h

/-- A packed step has one schedule. -/
theorem WellPacked.schedule_unique (h : WellPacked args packed placed) {key : Uuid}
    (hkey : key ∈ args.keys) {a b : Scheduled} (ha : (key, a) ∈ packed)
    (hb : (key, b) ∈ packed) : a = b := by
  obtain ⟨scheduled, rfl, hkeys⟩ := h.steps
  have hn : (scheduled.map (·.1)).Nodup := hkeys ▸ args.nodup_keys
  have ha' := (List.mem_append.mp ha).resolve_left (PackArgs.not_fixed hkey)
  have hb' := (List.mem_append.mp hb).resolve_left (PackArgs.not_fixed hkey)
  exact (Prod.mk.inj (List.inj_on_of_nodup_map hn ha' hb' rfl)).2

/-- The inputs of the steps of a customized plan. -/
def customInputs (context : PlanContext) (steps : List PlanStepInput) (saved : Option PlanOverrides)
    (o : PlanOverrides) (fixed packed : List (Uuid × Scheduled)) : PlanInputs where
  context := context
  overrides := some o
  snapshots key := saved.bind fun s ↦ s.stepSchedules key
  recommended := recommendedOrder steps
  start := planStart context steps
  fixed := fixed
  packed := packed

/-- What a customized plan is made of: the schedules of the completed steps, the packing around
them and one shown step for each step of the order. -/
theorem buildWeeklyPlan_custom {rounds : Nat} {context : PlanContext}
    {steps : List PlanStepInput} {saved : Option PlanOverrides} {o : PlanOverrides}
    (hcustom : effectiveOverrides context steps saved = some o) {response : WeeklyPlanResponse}
    (h : buildWeeklyPlan rounds context steps saved = .ok response) :
    ∃ recommendedPacked fixed packed recommendedDates shown,
      fixedSchedules context steps (fun key ↦ saved.bind fun s ↦ s.stepSchedules key)
        recommendedPacked = .ok fixed ∧
      (customArgs context steps o fixed).pack rounds = .ok packed ∧
      ((planOrder steps (some o)).zipIdx 1).mapM (fun entry ↦
        (customInputs context steps saved o fixed packed).step entry.2 entry.1) = .ok shown ∧
      response = (customInputs context steps saved o fixed packed).response
        ((saved.map (·.version)).getD 0) (missingDates steps) recommendedDates shown := by
  unfold buildWeeklyPlan at h
  obtain ⟨recommendedPacked, -, h⟩ := bind_eq_ok.mp h
  obtain ⟨fixed, hfixed, h⟩ := bind_eq_ok.mp h
  rw [hcustom] at h
  obtain ⟨packed, hpacked, h⟩ := bind_eq_ok.mp h
  obtain ⟨recommendedDates, -, h⟩ := bind_eq_ok.mp h
  obtain ⟨shown, hshown, h⟩ := bind_eq_ok.mp h
  exact ⟨recommendedPacked, fixed, packed, recommendedDates, shown, hfixed, hpacked, hshown,
    (Except.ok.inj h).symm⟩

/-- A shown step is the step it shows, with its unmet prerequisites. -/
theorem PlanInputs.step_ok {inputs : PlanInputs} {number : Nat} {item : PlanStepInput}
    {shown : WeeklyPlanStep} (h : inputs.step number item = .ok shown) :
    shown.stepId = item.step.stepId ∧
      inputs.unmetOf item = .ok shown.unmetPrerequisiteStepIds := by
  unfold PlanInputs.step at h
  obtain ⟨⟨firstDate, lastDate⟩, -, h⟩ := bind_eq_ok.mp h
  obtain ⟨unmetIds, hunmet, h⟩ := bind_eq_ok.mp h
  obtain ⟨weekAllocations, -, h⟩ := bind_eq_ok.mp h
  obtain rfl := Except.ok.inj h
  exact ⟨rfl, hunmet⟩

private theorem code_missingWarning {missing : List Uuid} {w : WeeklyPlanWarning}
    (h : w ∈ missingWarning missing) : w.code = .missingSolverSchedule := by
  unfold missingWarning at h
  split at h
  · cases h
  · rw [List.mem_singleton.mp h]

private theorem code_targetWarning {completion daysPastTarget : Int} {targetDate : Option Int}
    {w : WeeklyPlanWarning} (h : w ∈ targetWarning completion targetDate daysPastTarget) :
    w.code = .targetDateExceeded := by
  unfold targetWarning at h
  split at h
  · split at h
    · cases h
    · rw [List.mem_singleton.mp h]
  · cases h

/-- A plan in which no shown step has unmet prerequisites reports no violation. -/
theorem PlanInputs.response_clean (inputs : PlanInputs) (version : Int) (missing : List Uuid)
    (recommendedDates : List (Int × Int)) {shown : List WeeklyPlanStep}
    (hshown : ∀ s ∈ shown, s.unmetPrerequisiteStepIds = []) :
    let response := inputs.response version missing recommendedDates shown
    response.hasDependencyViolations = false ∧
      ∀ w ∈ response.warnings, w.code ≠ .prerequisiteViolation := by
  constructor
  · refine List.any_eq_false.mpr fun s hs ↦ ?_
    simp [hshown s hs]
  · intro w hw
    have hnone : shown.filterMap violationWarning = [] := by
      refine List.filterMap_eq_nil_iff.mpr fun s hs ↦ ?_
      rw [violationWarning, if_pos (hshown s hs)]
    simp only [PlanInputs.response, hnone, List.append_nil] at hw
    rcases List.mem_append.mp hw with hw | hw
    · rw [code_missingWarning hw]
      decide
    · rw [code_targetWarning hw]
      decide

end Response

section Custom

variable {context : PlanContext} {steps : List PlanStepInput} {saved : Option PlanOverrides}
  {o : PlanOverrides} {fixed packed : List (Uuid × Scheduled)} {placed : List (Uuid × Int)}

/-- No prerequisite of a packed step is unmet. -/
theorem isUnmet_false (hn : (steps.map (·.step.stepId)).Nodup)
    (hfixed : ∀ key, key ∈ fixed.map (·.1) ↔
      ∃ item ∈ steps, item.step.state = .completed ∧ item.step.stepId = key)
    (hclosed : ClosedSteps steps) (hacyclic : Acyclic (prerequisitesOf steps))
    (hpacked : WellPacked (customArgs context steps o fixed) packed placed)
    {item : PlanStepInput} (hitem : item ∈ steps) (hstate : item.step.state ≠ .completed)
    {p : Uuid} (hp : p ∈ item.step.prerequisiteStepIds) {b : Bool}
    (h : isUnmet item (stepById (recommendedOrder steps)) packed false p = .ok b) : b = false := by
  obtain ⟨other, hother, rfl⟩ := hclosed item hitem p hp
  have hlookup {i : PlanStepInput} (hi : i ∈ steps) :
      stepById (recommendedOrder steps) i.step.stepId = some i :=
    lookupLast_of_mem (nodup_ids_recommendedOrder hn) (mem_recommendedOrder.mpr hi)
  unfold isUnmet at h
  rw [hlookup hother] at h
  dsimp only at h
  split at h
  · exact (Except.ok.inj h).symm
  next hopen =>
  simp only [Bool.false_and] at h
  obtain ⟨earlier, hearlier, h⟩ := bind_eq_ok.mp h
  obtain ⟨later, hlater, h⟩ := bind_eq_ok.mp h
  obtain rfl := Except.ok.inj h
  have hkey : item.step.stepId ∈ (customArgs context steps o fixed).keys :=
    (mem_keys_customArgs hn hfixed hitem).mpr hstate
  have hpkey : other.step.stepId ∈ (customArgs context steps o fixed).keys :=
    (mem_keys_customArgs hn hfixed hother).mpr hopen
  have hwaits : other.step.stepId ∈
      (customArgs context steps o fixed).waitsFor item.step.stepId := by
    refine List.mem_toFinset.mpr ?_
    unfold PackArgs.openPrerequisites
    rw [byId_customArgs, hlookup hitem]
    refine List.mem_filter.mpr ⟨hp, ?_⟩
    rw [byId_customArgs, hlookup hother]
    simpa using hopen
  obtain ⟨schedule, hmem, hle⟩ := hpacked.inOrder (closed_customArgs hn hclosed hfixed)
    (acyclic_customArgs hn hacyclic) _ (mem_of_scheduleOf hlater) hkey _ hwaits
  obtain rfl := hpacked.schedule_unique hpkey (mem_of_scheduleOf hearlier) hmem
  simpa using hle

end Custom

/-- Every packing of a saved customization keeps to its constraints, and with acyclic prerequisites
among the steps of the roadmap the plan that shows it reports no violation. The plan is the one of
`_pack` around the completed steps, and it shows every step.
`src/jobtology_be/application/weekly_plan.py:107–215,258–393`,
`src/jobtology_be/planning/calendar.py:59–96`. -/
theorem customization_wellPacked (rounds : Nat) :
    (∀ args : PackArgs, WeeksInOrder args → (∀ k ∈ args.keys, 1 ≤ args.requested k) →
      ∀ packed, args.pack rounds = .ok packed →
        ∃ st, args.packLoop rounds args.initial = .ok st ∧ WellPacked args packed st.placed) ∧
    ∀ (context : PlanContext) (steps : List PlanStepInput) (saved : Option PlanOverrides)
      (o : PlanOverrides), context.timezone.MondaysInOrder → (steps.map (·.step.stepId)).Nodup →
      (∀ item ∈ steps, item.step.state ≠ .completed →
        1 ≤ (o.hours item.step.stepId).getD (hours context item)) →
      effectiveOverrides context steps saved = some o →
      ∀ response, buildWeeklyPlan rounds context steps saved = .ok response →
      ∃ fixed packed st,
        (∀ key, key ∈ fixed.map (·.1) ↔
          ∃ item ∈ steps, item.step.state = .completed ∧ item.step.stepId = key) ∧
        (customArgs context steps o fixed).pack rounds = .ok packed ∧
        (customArgs context steps o fixed).packLoop rounds
          (customArgs context steps o fixed).initial = .ok st ∧
        WellPacked (customArgs context steps o fixed) packed st.placed ∧
        (∀ item ∈ steps, ∃ shown ∈ response.steps, shown.stepId = item.step.stepId) ∧
        (ClosedSteps steps → Acyclic (prerequisitesOf steps) →
          (∀ shown ∈ response.steps, shown.unmetPrerequisiteStepIds = []) ∧
          response.hasDependencyViolations = false ∧
          ∀ w ∈ response.warnings, w.code ≠ .prerequisiteViolation) := by
  refine ⟨fun args hweeks hhours packed hpack ↦ pack_wellPacked hweeks.forward hhours hpack, ?_⟩
  intro context steps saved o hzone hn hhours hcustom response hresponse
  obtain ⟨recommendedPacked, fixed, packed, recommendedDates, shown, hfixed, hpack, hshown, rfl⟩ :=
    buildWeeklyPlan_custom hcustom hresponse
  have hkeys := mem_keys_fixedSchedules hfixed
  have hweeks : WeeksInOrder (customArgs context steps o fixed) := by
    refine ⟨?_, hzone⟩
    simp only [customArgs, planStart, mondayOf, weekday]
    omega
  have hrequested : ∀ k ∈ (customArgs context steps o fixed).keys,
      1 ≤ (customArgs context steps o fixed).requested k := by
    intro k hk
    obtain ⟨item, hitem, -, hstate, hlookup⟩ := exists_of_mem_keys hn hkeys hk
    unfold PackArgs.requested
    rw [hlookup]
    exact hhours item hitem hstate
  obtain ⟨st, hrun, hwell⟩ := pack_wellPacked hweeks.forward hrequested hpack
  have hmatch := forall₂_of_mapM_ok hshown
  refine ⟨fixed, packed, st, hkeys, hpack, hrun, hwell, fun item hitem ↦ ?_,
    fun hclosed hacyclic ↦ ?_⟩
  · have hordered : item ∈ planOrder steps (some o) := mem_customOrder.mpr
      (lookupLast_of_mem (nodup_ids_recommendedOrder hn) (mem_recommendedOrder.mpr hitem))
    obtain ⟨i, hi⟩ := List.mem_iff_getElem?.mp hordered
    have hentry : (item, 1 + i) ∈ (planOrder steps (some o)).zipIdx 1 :=
      List.mk_add_mem_zipIdx_iff_getElem?.mpr hi
    obtain ⟨s, hs, hstep⟩ := exists_of_mem_left hmatch hentry
    exact ⟨s, hs, (PlanInputs.step_ok hstep).1⟩
  · have hclean : ∀ s ∈ shown, s.unmetPrerequisiteStepIds = [] := by
      intro s hs
      obtain ⟨⟨item, number⟩, hentry, hstep⟩ := exists_of_mem_right hmatch hs
      have hunmet := (PlanInputs.step_ok hstep).2
      have hitem : item ∈ steps :=
        mem_recommendedOrder.mp (lookupLast_some (mem_customOrder.mp
          (List.fst_mem_of_mem_zipIdx hentry))).1
      unfold PlanInputs.unmetOf at hunmet
      split at hunmet
      · exact (Except.ok.inj hunmet).symm
      · next hstate =>
        exact eq_of_collect_none (fun p hp b hb ↦
          isUnmet_false hn hkeys hclosed hacyclic hwell hitem hstate hp hb) hunmet
    exact ⟨hclean, PlanInputs.response_clean _ _ _ _ hclean⟩

/-! ### A customized plan of two steps -/

/-- A context with ten hours a week in UTC. -/
def sampleContext : PlanContext where
  roadmapId := 1
  createdAt := 0
  recommendedWeeklyHours := 10
  targetDate := none
  timezone := .utc
  stepHours key := if key = "basics" then some 2 else some 1
  stepAllocations _ := []
  asOf := none
  weeklyAvailability := []
  unavailableDates := []

/-- A step without solver dates. -/
def sampleStep (stepId : Uuid) (stepKey : String) (prerequisites : List Uuid) :
    PlanStepInput where
  step :=
    { stepId := stepId, stepKey := stepKey, position := stepId, actionId := stepKey,
      state := .todo, plannedStart := none, plannedEnd := none, outcomes := [], criteria := [],
      prerequisiteStepIds := prerequisites, title := none }
  metadata := none

/-- A project that needs the basics. -/
def sampleSteps : List PlanStepInput := [sampleStep 7 "basics" [], sampleStep 8 "project" [7]]

/-- A customization to two hours a week, with the project first. -/
def sampleOverrides : PlanOverrides where
  weeklyHours := 2
  restWeeks := []
  order := [8, 7]
  hours _ := none
  savedAt := none
  version := 1
  isCustomized := true
  stepSchedules _ := none

private theorem sampleSteps_acyclic : Acyclic (prerequisitesOf sampleSteps) := by
  refine @acyclic_of_rank _ _ id fun a b hb ↦ ?_
  by_cases h8 : a = 8
  · subst h8
    have hb7 : b ∈ ([7] : List Uuid) := hb
    simp at hb7
    simp [hb7]
  · by_cases h7 : a = 7
    · subst h7
      cases hb
    · have hnone : stepById sampleSteps a = none := by
        refine lookupLast_eq_none.mpr fun item hitem ↦ ?_
        rcases List.mem_cons.mp hitem with rfl | hitem
        · exact Ne.symm h7
        · obtain rfl := List.mem_singleton.mp hitem
          exact Ne.symm h8
      rw [prerequisitesOf, hnone] at hb
      cases hb

/-- A plan with overrides is packed well. -/
theorem customization_wellPacked_sample :
    (∃ packed, ∃ st : PackState,
      (customArgs sampleContext sampleSteps sampleOverrides []).pack 20 = .ok packed ∧
      WellPacked (customArgs sampleContext sampleSteps sampleOverrides []) packed st.placed) ∧
    ∃ response,
      buildWeeklyPlan 20 sampleContext sampleSteps (some sampleOverrides) = .ok response ∧
      response.hasDependencyViolations = false := by
  constructor
  · cases h : (customArgs sampleContext sampleSteps sampleOverrides []).pack 20 with
    | error e =>
      have hok : ((customArgs sampleContext sampleSteps sampleOverrides []).pack
          20).toOption.isSome = true := by decide +kernel
      rw [h] at hok
      cases hok
    | ok packed =>
      obtain ⟨st, -, hwell⟩ := (customization_wellPacked 20).1
        (customArgs sampleContext sampleSteps sampleOverrides [])
        ⟨by decide, Zone.fixed_mondaysInOrder 0⟩ (by decide +kernel) packed h
      exact ⟨packed, st, rfl, hwell⟩
  · cases h : buildWeeklyPlan 20 sampleContext sampleSteps (some sampleOverrides) with
    | error e =>
      have hok : (buildWeeklyPlan 20 sampleContext sampleSteps
          (some sampleOverrides)).toOption.isSome = true := by decide +kernel
      rw [h] at hok
      cases hok
    | ok response =>
      obtain ⟨-, -, -, -, -, -, -, -, hclean⟩ := (customization_wellPacked 20).2 sampleContext
        sampleSteps (some sampleOverrides) sampleOverrides (Zone.fixed_mondaysInOrder 0)
        (by decide) (by decide +kernel)
        (by simp [effectiveOverrides, sampleOverrides, sampleContext]) response h
      have hclosed : ClosedSteps sampleSteps := by
        unfold ClosedSteps
        decide +kernel
      exact ⟨response, rfl, (hclean hclosed sampleSteps_acyclic).2.1⟩

end Jobtology.Weekly
