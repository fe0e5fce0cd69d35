import Jobtology.Relational.Runs
import Jobtology.Store.RoadmapSteps
import Jobtology.Store.WeeklyPlans
import Jobtology.Weekly.PlanConsistency

/-!
# Weekly plans under concurrent requests

Tabs that save and reset weekly plans while steps and roadmaps change. A save reads its roadmap,
then the stored plan it computes from, and writes in a third transaction.
-/

namespace Jobtology.Store

open Jobtology.Base Jobtology.Relational
open Jobtology.Relational.Transaction
open Jobtology.Weekly (PlanContext PlanStepInput RequirementMetadata RoadmapStepView)

/-- A save in progress. `source` is the database that its steps were read from. -/
structure PlanPut where
  userId : Uuid
  roadmapId : Uuid
  request : WeeklyPlanRequest
  context : PlanContext
  metadata : Uuid → Option RequirementMetadata
  source : Database
  steps : List RoadmapStepView
  plan : Option StoredPlan

/-- The steps that the plan of a save is built from. -/
def PlanPut.inputs (put : PlanPut) : List PlanStepInput :=
  put.steps.map fun s ↦ ⟨s, put.metadata s.stepId⟩

/-- The database and the saves in progress, by tab. -/
structure PlanSystem where
  db : Database
  tabs : List (Nat × PlanPut)

/-- The save of a tab. -/
def PlanSystem.put (s : PlanSystem) (tab : Nat) : Option PlanPut :=
  (lookup (·.1) s.tabs tab).map (·.2)

/-- The save of a tab is over. -/
def PlanSystem.close (s : PlanSystem) (tab : Nat) : List (Nat × PlanPut) :=
  s.tabs.filter (·.1 ≠ tab)

/-- What happens next. -/
inductive PlanAction
  /-- A save starts: `_load_plan`. -/
  | read (tab : Nat) (userId roadmapId : Uuid) (request : WeeklyPlanRequest)
      (context : PlanContext) (metadata : Uuid → Option RequirementMetadata)
  /-- A save reads the stored plan and computes its own. -/
  | compute (tab : Nat) (rounds : Nat) (now : Int)
  /-- A save writes. -/
  | save (tab : Nat) (now : Int)
  /-- A reset, with the recommended hours it has loaded. -/
  | reset (userId roadmapId : Uuid) (expectedVersion : Nat) (recommended now : Int)
  | mutateStep (carryForward : CarryForward) (request : StepStateMutation) (draw : StepDraw)
  | mutateRoadmap (request : RoadmapMutation) (now : Int)
  /-- Any other transaction. -/
  | outside (db : Database)

/-- Roadmaps that were there and still are keep the version of their plan. -/
def PlansKept (s t : Db) : Prop :=
  ∀ r ∈ s.roadmaps, (∃ r' ∈ t.roadmaps, r'.id = r.id) → t.planVersion r.id = s.planVersion r.id

instance (s t : Db) : Decidable (PlansKept s t) :=
  inferInstanceAs (Decidable (∀ r ∈ s.roadmaps, _))

/-- A write of a plan: by whom, to which roadmap, and the version it names. -/
structure PlanWrite where
  userId : Uuid
  roadmapId : Uuid
  version : Nat
  deriving DecidableEq

namespace PlanSystem

/-- The write that an action attempts, with its transaction. -/
def attempt (s : PlanSystem) : PlanAction → Option (PlanWrite × Txn StoredPlan)
  | .save tab now => do
    let put ← s.put tab
    let plan ← put.plan
    return (⟨put.userId, put.roadmapId, put.request.expectedVersion⟩,
      upsertPlan put.userId put.roadmapId plan now)
  | .reset userId roadmapId expectedVersion recommended now =>
    some (⟨userId, roadmapId, expectedVersion⟩,
      deletePlan userId roadmapId expectedVersion recommended now)
  | _ => none

/-- The write that an action carries out. -/
def accepted (s : PlanSystem) (action : PlanAction) : Option PlanWrite :=
  (s.attempt action).bind fun (write, transaction) ↦
    if (transaction.run s.db).isOk then some write else none

/-- The save of a tab after it computed its plan. -/
def computed (s : PlanSystem) (tab : Nat) (put : PlanPut) (rounds : Nat) (now : Int) :
    List (Nat × PlanPut) :=
  match (getPlan put.userId put.roadmapId).run s.db with
  | .error _ => s.close tab
  | .ok (existing, _) =>
    match computePlan rounds put.request put.context put.inputs now existing with
    | .error _ => s.close tab
    | .ok plan => setEntry tab { put with plan := some plan } s.tabs

/-- One action. -/
def apply (s : PlanSystem) : PlanAction → PlanSystem
  | .read tab userId roadmapId request context metadata =>
    match (roadmapSteps userId roadmapId).run s.db with
    | .error _ => s
    | .ok (steps, _) => { s with
      tabs := setEntry tab
        ⟨userId, roadmapId, request, context, metadata, s.db, steps, none⟩ s.tabs }
  | .compute tab rounds now =>
    match s.put tab with
    | none => s
    | some put => { s with tabs := s.computed tab put rounds now }
  | .save tab now =>
    match s.attempt (.save tab now) with
    | none => s
    | some (_, transaction) => ⟨transaction.commit s.db, s.close tab⟩
  | .reset userId roadmapId expectedVersion recommended now => { s with
    db := (deletePlan userId roadmapId expectedVersion recommended now).commit s.db }
  | .mutateStep carryForward request draw => { s with
    db := (mutateStepState carryForward request draw).commit s.db }
  | .mutateRoadmap request now => { s with db := (mutateRoadmap request now).commit s.db }
  | .outside db => { s with db := if PlansKept s.db.1 db.1 then db else s.db }

/-- The versions that a run writes to the plan of a roadmap. -/
def versionsOf (roadmapId : Uuid) : PlanSystem → List PlanAction → List Nat
  | _, [] => []
  | s, action :: rest =>
    ((s.accepted action).filter (·.roadmapId = roadmapId)).toList.map (·.version + 1) ++
      versionsOf roadmapId (s.apply action) rest

end PlanSystem

/-! ### What a write does -/

private theorem mem_setOverride {row o : OverrideRow} {overrides : List OverrideRow} :
    o ∈ setOverride row overrides ↔ o = row ∨ (o ∈ overrides ∧ o.roadmapId ≠ row.roadmapId) := by
  unfold setOverride
  split
  · next hany =>
    rw [mem_update]
    simp only [List.any_eq_true, decide_eq_true_eq] at hany
    constructor
    · rintro (hother | ⟨-, -, -, rfl⟩)
      · exact .inr hother
      · exact .inl rfl
    · rintro (rfl | hother)
      · obtain ⟨x, hx, hid⟩ := hany
        exact .inr ⟨x, hx, hid, rfl⟩
      · exact .inl hother
  · next hnone =>
    simp only [List.any_eq_true, decide_eq_true_eq, not_exists, not_and] at hnone
    rw [List.mem_append, List.mem_singleton, or_comm]
    exact or_congr_right ⟨fun ho ↦ ⟨ho, hnone o ho⟩, And.left⟩

/-- The plan versions after an override is written. -/
theorem planVersion_setOverride {s t : Database} {row : OverrideRow}
    (h : t.1.overrides = setOverride row s.1.overrides) (roadmapId : Uuid) :
    t.1.planVersion roadmapId =
      if roadmapId = row.roadmapId then row.version else s.1.planVersion roadmapId := by
  unfold Db.planVersion
  split
  · next hid =>
    subst hid
    rw [(lookup_eq_some t.2.overrides.key).mpr ⟨h ▸ mem_setOverride.mpr (.inl rfl), rfl⟩]
    rfl
  · next hid =>
    rw [lookup_congr t.2.overrides.key s.2.overrides.key fun o ho ↦ ?_]
    rw [h, mem_setOverride]
    constructor
    · rintro (rfl | ⟨ho, -⟩)
      · exact absurd ho.symm hid
      · exact ho
    · exact fun hmem ↦ .inr ⟨hmem, ho ▸ hid⟩

/-- What an accepted write does: it names the current version of a roadmap of its user that is
not archived, and only leaves the override with the next version. -/
structure PlanAccepted (write : PlanWrite) (s t : Db) : Prop where
  current : s.planVersion write.roadmapId = write.version
  writable : ∃ r ∈ s.roadmaps,
    r.id = write.roadmapId ∧ r.userId = write.userId ∧ r.state ≠ .archived
  confined : ∃ row, row.roadmapId = write.roadmapId ∧ row.version = write.version + 1 ∧
    t = { s with overrides := setOverride row s.overrides }

private theorem requireOwner_spec {userId roadmapId : Uuid} {writable : Bool} {s t : Database}
    {u : Unit}
    (h : Yields (requireOwner userId roadmapId writable) s u t) :
    s = t ∧ ∃ r ∈ s.1.roadmaps, r.id = roadmapId ∧ r.userId = userId ∧
      (writable = true → r.state ≠ .archived) := by
  unfold requireOwner at h
  simp only [yields_query_bind, yields_demand_bind, yields_require] at h
  obtain ⟨r, hfound, hstate, rfl⟩ := h
  have hr := List.find?_some hfound
  rw [decide_eq_true_eq] at hr
  exact ⟨rfl, r, List.mem_of_find?_eq_some hfound, hr.1, hr.2, hstate⟩

private theorem writePlan_spec {roadmapId : Uuid} {plan result : StoredPlan} {now : Int}
    {s t : Database}
    (h : Yields (writePlan roadmapId plan now) s result t) :
    s.1.planVersion roadmapId = plan.version ∧
      t.1 = { s.1 with overrides := setOverride (plan.row roadmapId now) s.1.overrides } := by
  unfold writePlan at h
  simp only [yields_query_bind, ↓yields_require_bind, yields_seq, yields_statement,
    yields_pure] at h
  obtain ⟨hversion, _, hwrite, -, rfl⟩ := h
  exact ⟨hversion, hwrite.symm⟩

private theorem planAccepted_of_write {userId roadmapId : Uuid} {plan result : StoredPlan}
    {now : Int}
    {s t : Database}
    (howner : ∃ r ∈ s.1.roadmaps, r.id = roadmapId ∧ r.userId = userId ∧ r.state ≠ .archived)
    (h : Yields (writePlan roadmapId plan now) s result t) :
    PlanAccepted ⟨userId, roadmapId, plan.version⟩ s.1 t.1 :=
  let ⟨hversion, hwrite⟩ := writePlan_spec h
  ⟨hversion, howner, plan.row roadmapId now, rfl, rfl, hwrite⟩

/-- What a save that succeeds does. -/
theorem upsertPlan_spec {userId roadmapId : Uuid} {plan result : StoredPlan} {now : Int}
    {s t : Database} (h : Yields (upsertPlan userId roadmapId plan now) s result t) :
    PlanAccepted ⟨userId, roadmapId, plan.version⟩ s.1 t.1 ∧
      plan.RespectsCompleted (s.1.completedStepIds roadmapId) ∧
      t.1.storedPlan roadmapId = some (plan.row roadmapId now).plan := by
  unfold upsertPlan at h
  simp only [yields_seq, yields_query_bind, ↓yields_require_bind] at h
  obtain ⟨s₁, howner, hrespects, hwrite⟩ := h
  obtain ⟨rfl, r, hr, hid, huser, hstate⟩ := requireOwner_spec howner
  refine ⟨planAccepted_of_write ⟨r, hr, hid, huser, hstate rfl⟩ hwrite, hrespects, ?_⟩
  have hrow : plan.row roadmapId now ∈ t.1.overrides := by
    rw [(writePlan_spec hwrite).2]
    exact mem_setOverride.mpr (.inl rfl)
  have hfound : lookup (·.roadmapId) t.1.overrides roadmapId = some (plan.row roadmapId now) :=
    (lookup_eq_some t.2.overrides.key).mpr ⟨hrow, rfl⟩
  rw [Db.storedPlan, hfound]
  rfl

/-- What a reset that succeeds does. -/
theorem deletePlan_spec {userId roadmapId : Uuid} {expectedVersion : Nat} {recommended now : Int}
    {result : StoredPlan} {s t : Database}
    (h : Yields (deletePlan userId roadmapId expectedVersion recommended now) s result t) :
    PlanAccepted ⟨userId, roadmapId, expectedVersion⟩ s.1 t.1 := by
  unfold deletePlan at h
  simp only [yields_seq, yields_query_bind] at h
  obtain ⟨s₁, howner, hwrite⟩ := h
  obtain ⟨rfl, r, hr, hid, huser, hstate⟩ := requireOwner_spec howner
  exact planAccepted_of_write ⟨r, hr, hid, huser, hstate rfl⟩ hwrite

/-! ### Saves in progress -/

/-- What is known of a save: its steps are those of the database it read, and a plan that it
computed names the requested version and shows steps in the states it read. -/
structure PlanPut.Sound (put : PlanPut) : Prop where
  steps : ∀ v ∈ put.steps, ∃ row ∈ put.source.1.steps,
    row.id = v.stepId ∧ row.roadmapId = put.roadmapId ∧ row.state = v.state
  plan : ∀ plan ∈ put.plan, plan.version = put.request.expectedVersion ∧
    ∀ entry ∈ plan.stepSchedules, ∃ v ∈ put.steps, v.stepId = entry.1 ∧ v.state = entry.2.state

private theorem roadmapSteps_sound {userId roadmapId : Uuid} {s t : Database}
    {steps : List RoadmapStepView} (h : Yields (roadmapSteps userId roadmapId) s steps t) :
    ∀ v ∈ steps, ∃ row ∈ s.1.steps,
      row.id = v.stepId ∧ row.roadmapId = roadmapId ∧ row.state = v.state := by
  unfold roadmapSteps at h
  simp only [yields_query_bind, yields_demand_bind, yields_query] at h
  obtain ⟨roadmap, -, proposal, -, hsteps, -⟩ := h
  intro v hv
  rw [← hsteps, List.mem_map] at hv
  obtain ⟨row, hrow, rfl⟩ := hv
  rw [List.mem_insertionSort, List.mem_filter, decide_eq_true_eq] at hrow
  exact ⟨row, hrow.1, rfl, hrow.2, rfl⟩

/-- A computed plan names the requested version, and its schedules show the states of the steps
it is computed from. -/
theorem computePlan_sound {rounds : Nat} {request : WeeklyPlanRequest} {context : PlanContext}
    {steps : List PlanStepInput} {now : Int} {existing : Option StoredPlan} {plan : StoredPlan}
    (h : computePlan rounds request context steps now existing = .ok plan) :
    plan.version = request.expectedVersion ∧ ∀ entry ∈ plan.stepSchedules,
      ∃ item ∈ steps, item.step.stepId = entry.1 ∧ item.step.state = entry.2.state := by
  unfold computePlan at h
  obtain ⟨requested, hrequested, h⟩ := bind_eq_ok.mp h
  obtain ⟨preview, hpreview, h⟩ := bind_eq_ok.mp h
  obtain rfl := Except.ok.inj h
  constructor
  · unfold requestedPlan at hrequested
    simp only [bind_eq_ok] at hrequested
    obtain ⟨-, -, -, -, _, -, _, -, -, -, hplan⟩ := hrequested
    obtain rfl := Except.ok.inj hplan
    rfl
  · intro entry hentry
    obtain ⟨shown, hshown, rfl⟩ := List.mem_map.mp hentry
    unfold buildPlan at hpreview
    cases hbuild : Weekly.buildWeeklyPlan rounds context steps (some requested.overrides) with
    | error e =>
      rw [Option.map_some, hbuild] at hpreview
      cases hpreview
    | ok response =>
      rw [Option.map_some, hbuild] at hpreview
      obtain rfl := Except.ok.inj hpreview
      exact Weekly.buildWeeklyPlan_states hbuild hshown

namespace PlanSystem

/-- Every save in progress is sound. -/
def Sound (s : PlanSystem) : Prop := ∀ entry ∈ s.tabs, entry.2.Sound

private theorem put_sound {s : PlanSystem} (h : s.Sound) {tab : Nat} {put : PlanPut}
    (hput : s.put tab = some put) : put.Sound := by
  obtain ⟨entry, hentry, rfl⟩ := Option.map_eq_some_iff.mp hput
  exact h entry (lookup_some hentry).1

private theorem sound_close {s : PlanSystem} (h : s.Sound) (tab : Nat) :
    ∀ entry ∈ s.close tab, entry.2.Sound :=
  fun entry hentry ↦ h entry (List.mem_of_mem_filter hentry)

private theorem sound_setEntry {s : PlanSystem} (h : s.Sound) {tab : Nat} {put : PlanPut}
    (hput : put.Sound) : ∀ entry ∈ setEntry tab put s.tabs, entry.2.Sound := by
  intro entry hentry
  rcases of_mem_setEntry hentry with rfl | hentry
  · exact hput
  · exact h entry hentry

private theorem sound_computed {s : PlanSystem} (h : s.Sound) {tab : Nat} {put : PlanPut}
    (hput : put.Sound) (rounds : Nat) (now : Int) :
    ∀ entry ∈ s.computed tab put rounds now, entry.2.Sound := by
  unfold computed
  split
  · exact sound_close h tab
  · split
    · exact sound_close h tab
    · next plan hplan =>
      obtain ⟨hversion, hstates⟩ := computePlan_sound hplan
      refine sound_setEntry h ⟨hput.steps, ?_⟩
      rintro _ ⟨⟩
      refine ⟨hversion, fun entry hentry ↦ ?_⟩
      obtain ⟨item, hitem, hid, hstate⟩ := hstates entry hentry
      obtain ⟨v, hv, rfl⟩ := List.mem_map.mp hitem
      exact ⟨v, hv, hid, hstate⟩

private theorem apply_sound (s : PlanSystem) (action : PlanAction) (h : s.Sound) :
    (s.apply action).Sound := by
  cases action with
  | read tab userId roadmapId request context metadata =>
    simp only [apply]
    split
    · exact h
    · next steps t hread =>
      refine sound_setEntry h ⟨roadmapSteps_sound hread, ?_⟩
      rintro _ ⟨⟩
  | compute tab rounds now =>
    simp only [apply]
    split
    · exact h
    · next put hput => exact sound_computed h (put_sound h hput) rounds now
  | save tab now =>
    simp only [apply]
    split
    · exact h
    · exact sound_close h tab
  | reset userId roadmapId expectedVersion recommended now => exact h
  | mutateStep carryForward request draw => exact h
  | mutateRoadmap request now => exact h
  | outside db => exact h

/-! ### Laws of the writes -/

private theorem attempt_save {s : PlanSystem} {tab : Nat} {now : Int} {write : PlanWrite}
    {transaction : Txn StoredPlan}
    (h : s.attempt (.save tab now) = some (write, transaction)) :
    ∃ put plan, s.put tab = some put ∧ put.plan = some plan ∧
      write = ⟨put.userId, put.roadmapId, put.request.expectedVersion⟩ ∧
      transaction = upsertPlan put.userId put.roadmapId plan now := by
  simp only [attempt, Option.bind_eq_bind, Option.bind_eq_some_iff, Option.pure_def,
    Option.some.injEq, Prod.mk.injEq] at h
  obtain ⟨put, hput, plan, hplan, hwrite, htransaction⟩ := h
  exact ⟨put, plan, hput, hplan, hwrite.symm, htransaction.symm⟩

/-- An attempt commits its transaction. -/
theorem apply_attempt {s : PlanSystem} {action : PlanAction} {write : PlanWrite}
    {transaction : Txn StoredPlan} (h : s.attempt action = some (write, transaction)) :
    (s.apply action).db = transaction.commit s.db := by
  cases action with
  | save tab now => simp only [apply, h]
  | reset userId roadmapId expectedVersion recommended now =>
    obtain ⟨rfl, rfl⟩ := Prod.mk.inj (Option.some.inj h)
    rfl
  | _ => cases h

/-- The transaction of an attempt does what an accepted write does, when it succeeds. -/
theorem attempt_accepted {s : PlanSystem} (hs : s.Sound) {action : PlanAction}
    {write : PlanWrite} {transaction : Txn StoredPlan}
    (h : s.attempt action = some (write, transaction)) {result : StoredPlan} {t : Database}
    (hyields : Yields transaction s.db result t) : PlanAccepted write s.db.1 t.1 := by
  cases action with
  | save tab now =>
    obtain ⟨put, plan, hput, hplan, rfl, rfl⟩ := attempt_save h
    have haccepted := (upsertPlan_spec hyields).1
    rwa [((put_sound hs hput).plan plan hplan).1] at haccepted
  | reset userId roadmapId expectedVersion recommended now =>
    obtain ⟨rfl, rfl⟩ := Prod.mk.inj (Option.some.inj h)
    exact deletePlan_spec hyields
  | _ => cases h

/-- An attempt is accepted or changes nothing. -/
theorem attempt_cases {s : PlanSystem} (hs : s.Sound) {action : PlanAction} {write : PlanWrite}
    {transaction : Txn StoredPlan} (h : s.attempt action = some (write, transaction)) :
    (s.accepted action = some write ∧ PlanAccepted write s.db.1 (s.apply action).db.1) ∨
      (s.accepted action = none ∧ (s.apply action).db = s.db) := by
  have hdb := apply_attempt h
  by_cases hok : (transaction.run s.db).isOk = true
  · obtain ⟨result, hyields⟩ := yields_of_isOk hok
    exact .inl ⟨by simp [accepted, h, hok], hdb ▸ attempt_accepted hs h hyields⟩
  · exact .inr ⟨by simp [accepted, h, hok], hdb.trans (commit_of_not_isOk hok)⟩

/-- The roadmap is there before and after an action. -/
def Stays (roadmapId : Uuid) (s : PlanSystem) (action : PlanAction) : Prop :=
  (∃ r ∈ s.db.1.roadmaps, r.id = roadmapId) ∧
    ∃ r ∈ (s.apply action).db.1.roadmaps, r.id = roadmapId

private theorem planVersion_congr {s t : Db} (h : t.overrides = s.overrides) (roadmapId : Uuid) :
    t.planVersion roadmapId = s.planVersion roadmapId := by
  rw [Db.planVersion, Db.planVersion, h]

/-- Actions that write no plan keep the version of the plan of a roadmap that stays. -/
theorem planVersion_other {s : PlanSystem} {action : PlanAction} (h : s.attempt action = none)
    {roadmapId : Uuid} (hstays : Stays roadmapId s action) :
    (s.apply action).db.1.planVersion roadmapId = s.db.1.planVersion roadmapId := by
  cases action with
  | read tab userId roadmapId request context metadata =>
    simp only [apply]
    split <;> rfl
  | compute tab rounds now =>
    simp only [apply]
    split <;> rfl
  | save tab now => simp only [apply, h]
  | reset userId roadmapId expectedVersion recommended now => cases h
  | mutateStep carryForward request draw =>
    simp only [apply]
    rcases commit_cases (mutateStepState carryForward request draw) s.db with hsame | ⟨_, hyields⟩
    · rw [hsame]
    · obtain ⟨_, _, hmutated⟩ := mutateStepState_spec hyields
      exact planVersion_congr (by rw [hmutated.others]) roadmapId
  | mutateRoadmap request now =>
    simp only [apply]
    rcases commit_cases (mutateRoadmap request now) s.db with hsame | ⟨_, hyields⟩
    · rw [hsame]
    · obtain ⟨-, _, hmutated⟩ := mutateRoadmap_spec hyields
      exact planVersion_congr (by rw [hmutated.written]) roadmapId
  | outside db =>
    obtain ⟨⟨r, hr, rfl⟩, hafter⟩ := hstays
    simp only [apply] at hafter ⊢
    by_cases hkept : PlansKept s.db.1 db.1
    · rw [if_pos hkept] at hafter ⊢
      exact hkept r hr hafter
    · rw [if_neg hkept]

/-- The versions that a run writes to the plan of a roadmap that stays follow each other. -/
theorem versionsOf_eq {s : PlanSystem} (hs : s.Sound) {roadmapId : Uuid}
    {actions : List PlanAction} (hstays : Along apply (Stays roadmapId) s actions) :
    ∃ n, versionsOf roadmapId s actions = List.range' (s.db.1.planVersion roadmapId + 1) n := by
  induction actions generalizing s with
  | nil => exact ⟨0, rfl⟩
  | cons action rest ih =>
    obtain ⟨n, hn⟩ := ih (apply_sound s action hs) hstays.2
    unfold versionsOf
    rw [hn]
    cases hattempt : s.attempt action with
    | none =>
      have hnone : s.accepted action = none := by simp [accepted, hattempt]
      rw [hnone, planVersion_other hattempt hstays.1]
      exact ⟨n, rfl⟩
    | some attempt =>
      rcases attempt_cases hs hattempt with ⟨haccepted, hwritten⟩ | ⟨hnone, hsame⟩
      · obtain ⟨row, hid, hversion, hafter⟩ := hwritten.confined
        have hnext := planVersion_setOverride (t := (s.apply action).db) (s := s.db)
          (by rw [hafter]) roadmapId
        rw [haccepted]
        by_cases hroadmap : attempt.1.roadmapId = roadmapId
        · refine ⟨n + 1, ?_⟩
          rw [if_pos (hroadmap.symm.trans hid.symm), hversion] at hnext
          have hcurrent := hwritten.current
          rw [hroadmap] at hcurrent
          rw [hnext, hcurrent, List.range'_succ]
          simp [Option.filter, hroadmap]
        · rw [if_neg fun h ↦ hroadmap (hid.symm.trans h.symm)] at hnext
          rw [hnext]
          exact ⟨n, by simp [Option.filter, hroadmap]⟩
      · rw [hnone, hsame]
        exact ⟨n, rfl⟩

/-- What a save stores for the steps that are completed when it commits: the schedules that it
computed for steps that it read as completed. -/
theorem save_respectsCompleted {s : PlanSystem} (hs : s.Sound) {tab : Nat} {now : Int}
    {put : PlanPut} (hput : s.put tab = some put)
    (haccepted : s.accepted (.save tab now) ≠ none) :
    ∃ plan, (s.apply (.save tab now)).db.1.storedPlan put.roadmapId = some plan ∧
      ∀ key ∈ s.db.1.completedStepIds put.roadmapId,
        ∀ entry ∈ lookup (·.1) plan.stepSchedules key,
          entry.2.state = .completed ∧ key ∈ put.source.1.completedStepIds put.roadmapId := by
  cases hattempt : s.attempt (.save tab now) with
  | none => exact absurd (by simp [accepted, hattempt]) haccepted
  | some attempt =>
    obtain ⟨write, transaction⟩ := attempt
    have hok : (transaction.run s.db).isOk = true := by
      by_contra hfails
      exact haccepted (by simp [accepted, hattempt, hfails])
    obtain ⟨result, hyields⟩ := yields_of_isOk hok
    have hdb := apply_attempt hattempt
    obtain ⟨put', plan, hput', hplan, -, rfl⟩ := attempt_save hattempt
    obtain rfl := Option.some.inj (hput.symm.trans hput')
    rw [hdb]
    obtain ⟨-, hrespects, hstored⟩ := upsertPlan_spec hyields
    refine ⟨_, hstored, fun key hkey entry hentry ↦ ?_⟩
    have hstate := hrespects key hkey entry hentry
    have hsound := put_sound hs hput
    obtain ⟨hmem, hentrykey⟩ := lookup_some hentry
    obtain ⟨v, hv, hid, hvstate⟩ := (hsound.plan plan hplan).2 entry hmem
    obtain ⟨row, hrow, hrowid, hroadmap, hrowstate⟩ := hsound.steps v hv
    refine ⟨hstate, List.mem_map.mpr ⟨row, List.mem_filter.mpr ⟨hrow, ?_⟩, ?_⟩⟩
    · simp [hroadmap, hrowstate, hvstate, hstate]
    · rw [hrowid, hid, hentrykey]

/-- Weekly plans under any interleaving of saves and resets with step transitions and roadmap
changes. A write that is attempted changes nothing or is accepted: then it names the version current
at that time of a roadmap of its user that is not archived, and writes the next version of that plan
and nothing else. Accepted versions follow each other, across resets as well. A save stores for
steps that are completed when it commits only schedules of steps it read as completed.
`src/jobtology_be/infrastructure/persistence/weekly_plan.py:73–198`,
`src/jobtology_be/api/roadmap_plan.py:96–131`,
`src/jobtology_be/infrastructure/persistence/roadmap_steps.py:41–168`. -/
theorem weeklyPlan_writes (db : Database) (past : List PlanAction) :
    let s := run apply ⟨db, []⟩ past
    (∀ action write transaction, s.attempt action = some (write, transaction) →
      (s.accepted action = some write ∧ PlanAccepted write s.db.1 (s.apply action).db.1) ∨
        (s.accepted action = none ∧ (s.apply action).db = s.db)) ∧
    (∀ roadmapId actions, Along apply (Stays roadmapId) s actions →
      ∃ n, versionsOf roadmapId s actions =
        List.range' (s.db.1.planVersion roadmapId + 1) n) ∧
    ∀ tab now put, s.put tab = some put → s.accepted (.save tab now) ≠ none →
      ∃ plan, (s.apply (.save tab now)).db.1.storedPlan put.roadmapId = some plan ∧
        ∀ key ∈ s.db.1.completedStepIds put.roadmapId,
          ∀ entry ∈ lookup (·.1) plan.stepSchedules key,
            entry.2.state = .completed ∧ key ∈ put.source.1.completedStepIds put.roadmapId := by
  have hsound : (run apply ⟨db, []⟩ past).Sound :=
    run_induction apply_sound (fun _ hentry ↦ absurd hentry List.not_mem_nil) past
  exact ⟨fun _ _ _ hattempt ↦ attempt_cases hsound hattempt,
    fun _ _ hstays ↦ versionsOf_eq hsound hstays,
    fun _ _ _ hput haccepted ↦ save_respectsCompleted hsound hput haccepted⟩

end PlanSystem

end Jobtology.Store
