import Jobtology.Dashboard.NextActions
import Jobtology.Store.Roadmaps

/-!
# The next actions of a stored roadmap

`load_next_actions` of `m5_dashboard_actions.py`. Ids stand for their texts, which order alike.
-/

namespace Jobtology.Store

open Jobtology.Base Jobtology.Dashboard Jobtology.Relational
open Jobtology.Weekly (StepState)

/-- The steps of a roadmap. -/
def Db.stepsOf (db : Db) (roadmapId : Uuid) : List StepRow :=
  db.steps.filter (·.roadmapId = roadmapId)

/-- The prerequisites of a step of a roadmap. -/
def Db.prerequisitesOf (db : Db) (roadmapId stepId : Uuid) : List Uuid :=
  (db.dependencies.filter fun d ↦ d.roadmapId = roadmapId ∧ d.stepId = stepId).map
    (·.prerequisiteStepId)

/-- `_active_roadmap`. -/
def Db.activeRoadmap (db : Db) (userId goalId : Uuid) : Option RoadmapRow :=
  db.roadmaps.find? fun r ↦ r.userId = userId ∧ r.goalId = goalId ∧ r.state = .active

/-- `DashboardNextActionView`. -/
structure DashboardNextActionView where
  kind : ActionKind
  stepId : Uuid
  title : String
  reasonCode : ReasonCode
  dueAt : Option Int
  deriving DecidableEq

/-- The title of a step: that of the proposal, if it has one. -/
def Db.stepTitle (db : Db) (roadmap : RoadmapRow) (step : StepRow) : String :=
  let proposalSteps := ((db.proposals.find? (·.id = roadmap.proposalId)).map (·.steps)).getD []
  (((lookupLast (·.stepKey) proposalSteps step.stepKey).map (·.title)).filter
    (· ≠ "")).getD step.actionId

/-- The candidate of a stored step; a step without a title is not one. -/
def Db.stepCandidate (db : Db) (roadmap : RoadmapRow) (step : StepRow) :
    Option (RoadmapStepCandidate Uuid) :=
  if h : 1 ≤ roadmap.version ∧ db.stepTitle roadmap step ≠ "" then
    some {
      roadmapId := roadmap.id
      roadmapVersion := roadmap.version
      stepId := step.id
      title := db.stepTitle roadmap step
      state := step.state
      roadmapPosition := step.position
      dueAt := step.plannedEnd
      expiresAt := (parseSourceValidity roadmap.validity).expiresAt
      sourceIsValid := (parseSourceValidity roadmap.validity).sourceIsValid
      prerequisiteStepIds := db.prerequisitesOf roadmap.id step.id
      supportRefs := []
      one_le_version := h.1
      title_ne := h.2 }
  else none

/-- The `NextActionRequest` of `load_next_actions`, if its parts are valid. -/
def Db.nextActionRequest (db : Db) (roadmap : RoadmapRow) (referenceAt : Int) :
    Option (NextActionRequest Uuid) := do
  let candidates ← (db.stepsOf roadmap.id).mapM (db.stepCandidate roadmap)
  if h : 1 ≤ roadmap.version then
    some {
      referenceAt := referenceAt
      urgencyWindow := 7 * 24 * 3600 * 1000000
      ruleVersion := "M5_NEXT_ACTIONS_V1"
      roadmap := ⟨roadmap.id, roadmap.version, true, h⟩
      completedStepIds :=
        ((db.stepsOf roadmap.id).filter (·.state = .completed)).map (·.id)
      deadlineActions := []
      roadmapSteps := candidates
      ruleVersion_ne := by decide }
  else none

/-- The views of the recommended steps. -/
def dashboardViews (selection : NextActionSelection Uuid) : List DashboardNextActionView :=
  selection.recommendations.filterMap fun item ↦ item.stepId.map fun _ ↦
    ⟨item.kind, item.navigationTargetId, item.title, item.reasonCode, item.dueAt⟩

/-- `load_next_actions`.
`src/jobtology_be/infrastructure/persistence/m5_dashboard_actions.py:31–114`. -/
def Db.loadNextActions (db : Db) (roadmap : RoadmapRow) (referenceAt : Int) :
    Option (List DashboardNextActionView) :=
  if sourceIsCurrent (parseSourceValidity roadmap.validity) referenceAt then
    (db.nextActionRequest roadmap referenceAt).map fun request ↦
      dashboardViews (selectNextActions request)
  else some []

/-- The next actions of `get_dashboard`. -/
def Db.dashboardNextActions (db : Db) (userId goalId : Uuid) (now : Int) :
    Option (List DashboardNextActionView) :=
  match db.activeRoadmap userId goalId with
  | none => some []
  | some roadmap => db.loadNextActions roadmap now

/-! ### The request of a roadmap -/

section Request

variable {db : Db} {roadmap : RoadmapRow} {now : Int} {request : NextActionRequest Uuid}

/-- What a candidate says of its step. -/
theorem stepCandidate_spec {step : StepRow} {candidate : RoadmapStepCandidate Uuid}
    (h : db.stepCandidate roadmap step = some candidate) :
    candidate.stepId = step.id ∧ candidate.state = step.state ∧
      candidate.prerequisiteStepIds = db.prerequisitesOf roadmap.id step.id ∧
      candidate.roadmapId = roadmap.id ∧ candidate.roadmapVersion = roadmap.version ∧
      candidate.sourceIsValid = (parseSourceValidity roadmap.validity).sourceIsValid ∧
      candidate.expiresAt = (parseSourceValidity roadmap.validity).expiresAt := by
  unfold Db.stepCandidate at h
  split at h
  · obtain rfl := Option.some.inj h
    exact ⟨rfl, rfl, rfl, rfl, rfl, rfl, rfl⟩
  · cases h

/-- The candidates of a request are those of the steps, one for each. -/
theorem nextActionRequest_spec (h : db.nextActionRequest roadmap now = some request) :
    (db.stepsOf roadmap.id).map (db.stepCandidate roadmap) = request.roadmapSteps.map some ∧
      request.roadmap.roadmapId = roadmap.id ∧
      request.roadmap.roadmapVersion = roadmap.version ∧ request.roadmap.isActive = true ∧
      request.referenceAt = now ∧ request.completedStepIds =
        ((db.stepsOf roadmap.id).filter (·.state = .completed)).map (·.id) := by
  unfold Db.nextActionRequest at h
  obtain ⟨candidates, hcandidates, hrest⟩ := Option.bind_eq_some_iff.mp h
  split at hrest
  · obtain rfl := Option.some.inj hrest
    exact ⟨(mapM_eq_some_iff _ _ _).mp hcandidates, rfl, rfl, rfl, rfl, rfl⟩
  · cases hrest

/-- The step of a candidate. -/
theorem exists_step (h : db.nextActionRequest roadmap now = some request)
    {candidate : RoadmapStepCandidate Uuid} (hmem : candidate ∈ request.roadmapSteps) :
    ∃ step ∈ db.stepsOf roadmap.id, db.stepCandidate roadmap step = some candidate := by
  have hsome : some candidate ∈ request.roadmapSteps.map some := List.mem_map_of_mem hmem
  rw [← (nextActionRequest_spec h).1] at hsome
  exact List.mem_map.mp hsome

/-- The candidate of a step. -/
theorem exists_candidate (h : db.nextActionRequest roadmap now = some request)
    {step : StepRow} (hmem : step ∈ db.stepsOf roadmap.id) :
    ∃ candidate ∈ request.roadmapSteps, db.stepCandidate roadmap step = some candidate := by
  have hstep : db.stepCandidate roadmap step ∈
      (db.stepsOf roadmap.id).map (db.stepCandidate roadmap) := List.mem_map_of_mem hmem
  rw [(nextActionRequest_spec h).1] at hstep
  obtain ⟨candidate, hcandidate, heq⟩ := List.mem_map.mp hstep
  exact ⟨candidate, hcandidate, heq.symm⟩

private theorem stepIds_request (h : db.nextActionRequest roadmap now = some request) :
    request.stepIds = (db.stepsOf roadmap.id).map (·.id) := by
  have hspec := (nextActionRequest_spec h).1
  have hids : ((db.stepsOf roadmap.id).map (db.stepCandidate roadmap)).map
      (·.map (·.stepId)) = ((db.stepsOf roadmap.id).map (·.id)).map some := by
    rw [List.map_map, List.map_map]
    apply List.map_congr_left
    intro step hstep
    obtain ⟨candidate, -, heq⟩ := exists_candidate h hstep
    show (db.stepCandidate roadmap step).map (·.stepId) = some step.id
    rw [heq, ← (stepCandidate_spec heq).1]
    rfl
  rw [hspec, List.map_map] at hids
  apply List.map_injective_iff.mpr (Option.some_injective _)
  rw [← hids, NextActionRequest.stepIds, List.map_map]
  rfl

/-- A step of a roadmap is completed. -/
theorem completed_iff (h : db.nextActionRequest roadmap now = some request) (id : Uuid) :
    (∃ done ∈ request.roadmapSteps, done.stepId = id ∧ done.state = .completed) ↔
      ∃ done ∈ db.stepsOf roadmap.id, done.id = id ∧ done.state = .completed := by
  constructor
  · rintro ⟨candidate, hmem, rfl, hstate⟩
    obtain ⟨step, hstep, heq⟩ := exists_step h hmem
    have hspec := stepCandidate_spec heq
    exact ⟨step, hstep, hspec.1.symm, hspec.2.1.symm.trans hstate⟩
  · rintro ⟨step, hmem, rfl, hstate⟩
    obtain ⟨candidate, hcandidate, heq⟩ := exists_candidate h hmem
    have hspec := stepCandidate_spec heq
    exact ⟨candidate, hcandidate, hspec.1, hspec.2.1.trans hstate⟩

/-- The request of a stored roadmap whose source is current. -/
theorem onActiveRoadmap (hdb : Constraints db)
    (hcurrent : sourceIsCurrent (parseSourceValidity roadmap.validity) now = true)
    (h : db.nextActionRequest roadmap now = some request) : request.OnActiveRoadmap := by
  obtain ⟨-, hid, hversion, hactive, hnow, hcompleted⟩ := nextActionRequest_spec h
  unfold sourceIsCurrent at hcurrent
  rw [Bool.and_eq_true] at hcurrent
  constructor
  case active => exact hactive
  case distinct =>
    rw [stepIds_request h]
    exact hdb.steps.key.sublist List.filter_sublist
  case belongs =>
    intro candidate hmem
    obtain ⟨step, -, heq⟩ := exists_step h hmem
    obtain ⟨-, -, -, hroadmap, hroadmapVersion, -⟩ := stepCandidate_spec heq
    exact ⟨hroadmap.trans hid.symm, hroadmapVersion.trans hversion.symm⟩
  case current =>
    intro candidate hmem
    obtain ⟨step, -, heq⟩ := exists_step h hmem
    obtain ⟨-, -, -, -, -, hvalid, hexpires⟩ := stepCandidate_spec heq
    refine ⟨hvalid.trans hcurrent.1, fun t ht ↦ ?_⟩
    rw [hexpires] at ht
    have hall := hcurrent.2
    rw [Option.mem_def.mp ht, Option.all_some] at hall
    rw [hnow]
    exact of_decide_eq_true hall
  case completed =>
    intro id
    rw [completed_iff h, hcompleted, List.mem_map]
    constructor
    · rintro ⟨step, hmem, rfl⟩
      have hin := List.mem_filter.mp hmem
      exact ⟨step, hin.1, rfl, of_decide_eq_true hin.2⟩
    · rintro ⟨step, hmem, rfl, hstate⟩
      exact ⟨step, List.mem_filter.mpr ⟨hmem, decide_eq_true hstate⟩, rfl⟩
  case closed =>
    intro candidate hmem p hp
    obtain ⟨step, -, heq⟩ := exists_step h hmem
    rw [(stepCandidate_spec heq).2.2.1] at hp
    obtain ⟨d, hd, rfl⟩ := List.mem_map.mp hp
    obtain ⟨hdependency, hof⟩ := List.mem_filter.mp hd
    have hroadmap := (of_decide_eq_true hof).1
    obtain ⟨target, htarget, hkey⟩ := hdb.dependencies.prerequisite d hdependency
    have hpair := Prod.mk.inj hkey
    rw [stepIds_request h, ← hpair.2]
    apply List.mem_map_of_mem
    exact List.mem_filter.mpr ⟨htarget, decide_eq_true (hpair.1.trans hroadmap)⟩

/-- The dependencies of a request are those of the roadmap. -/
theorem prerequisites_request (h : db.nextActionRequest roadmap now = some request)
    (id : Uuid) : request.prerequisites id ⊆ db.prerequisitesOf roadmap.id id := by
  intro p hp
  obtain ⟨candidate, hmem, hin⟩ := List.mem_flatMap.mp hp
  obtain ⟨hcandidate, hid⟩ := List.mem_filter.mp hmem
  obtain ⟨step, -, heq⟩ := exists_step h hcandidate
  have hspec := stepCandidate_spec heq
  rw [hspec.2.2.1, ← hspec.1, of_decide_eq_true hid] at hin
  exact hin

/-- The views show the steps that are recommended. -/
theorem stepIds_dashboardViews :
    (dashboardViews (selectNextActions request)).map (·.stepId) =
      (selectNextActions request).stepIds := by
  unfold dashboardViews NextActionSelection.stepIds
  rw [List.map_filterMap]
  apply List.filterMap_congr
  intro item hitem
  -- A recommendation with a step navigates to it.
  have hnavigates : ∀ id ∈ item.stepId, item.navigationTargetId = id := by
    unfold selectNextActions at hitem
    simp only [List.mem_append, List.mem_map] at hitem
    rcases hitem with (⟨action, -, rfl⟩ | ⟨step, -, rfl⟩) | ⟨step, -, rfl⟩
    · intro id hid
      cases hid
    · intro id hid
      exact Option.some.inj hid
    · intro id hid
      exact Option.some.inj hid
  cases hstep : item.stepId with
  | none => rfl
  | some id => exact congrArg some (hnavigates id hstep)

end Request

/-- The prerequisites of a step of a roadmap are completed. -/
def Db.prerequisitesCompleted (db : Db) (step : StepRow) : Prop :=
  ∀ p ∈ db.prerequisitesOf step.roadmapId step.id,
    ∃ done ∈ db.stepsOf step.roadmapId, done.id = p ∧ done.state = .completed

/-- The dashboard of an active roadmap with a current source and an open step shows a step; every
step that it shows is open and has its prerequisites completed; and it shows each of these once.
`src/jobtology_be/modules/dashboard/next_actions.py:72–149`,
`src/jobtology_be/infrastructure/persistence/m5_dashboard_actions.py:31–114`. -/
theorem dashboardNextActions_neverStranded {db : Db} (hdb : Constraints db)
    {userId goalId : Uuid} {roadmap : RoadmapRow} {now : Int}
    {request : NextActionRequest Uuid}
    (hroadmap : db.activeRoadmap userId goalId = some roadmap)
    (hcurrent : sourceIsCurrent (parseSourceValidity roadmap.validity) now = true)
    (hacyclic : Graph.Acyclic (db.prerequisitesOf roadmap.id))
    (hopen : ∃ step ∈ db.stepsOf roadmap.id, step.state ≠ .completed)
    (hrequest : db.nextActionRequest roadmap now = some request) :
    request.NeverStranded ∧ ∃ views,
      db.dashboardNextActions userId goalId now = some views ∧
      views.map (·.stepId) = (selectNextActions request).stepIds ∧ views ≠ [] ∧
      (∀ view ∈ views, ∃ step ∈ db.stepsOf roadmap.id, step.id = view.stepId ∧
        step.state ≠ .completed ∧ db.prerequisitesCompleted step) ∧
      ∀ step ∈ db.stepsOf roadmap.id, step.state ≠ .completed →
        db.prerequisitesCompleted step → (views.map (·.stepId)).count step.id = 1 := by
  have hon := onActiveRoadmap hdb hcurrent hrequest
  have hopenRequest : ∃ candidate ∈ request.roadmapSteps, candidate.state ≠ .completed := by
    obtain ⟨step, hstep, hstate⟩ := hopen
    obtain ⟨candidate, hcandidate, heq⟩ := exists_candidate hrequest hstep
    have hspec := stepCandidate_spec heq
    exact ⟨candidate, hcandidate, fun h ↦ hstate (hspec.2.1.symm.trans h)⟩
  have hstranded := selectNextActions_neverStranded hon
    (hacyclic.mono (prerequisites_request hrequest)) hopenRequest
  have hids : (dashboardViews (selectNextActions request)).map (·.stepId) =
      (selectNextActions request).stepIds := stepIds_dashboardViews
  refine ⟨hstranded, dashboardViews (selectNextActions request), ?_, hids, ?_, ?_, ?_⟩
  · unfold Db.dashboardNextActions Db.loadNextActions
    rw [hroadmap]
    dsimp only
    rw [if_pos hcurrent, hrequest, Option.map_some]
  · intro hnil
    rw [hnil] at hids
    exact hstranded.some_step hids.symm
  · intro view hview
    have hshown : view.stepId ∈ (selectNextActions request).stepIds := by
      rw [← hids]
      exact List.mem_map_of_mem hview
    obtain ⟨candidate, hcandidate, hid, hstate, hready⟩ := hstranded.ready _ hshown
    obtain ⟨step, hstep, heq⟩ := exists_step hrequest hcandidate
    obtain ⟨hstepId, hstepState, hprerequisites, -⟩ := stepCandidate_spec heq
    have hof : step.roadmapId = roadmap.id := of_decide_eq_true (List.mem_filter.mp hstep).2
    refine ⟨step, hstep, hstepId.symm.trans hid, fun h ↦ hstate (hstepState.trans h), ?_⟩
    unfold Db.prerequisitesCompleted
    rw [hof]
    intro p hp
    exact (completed_iff hrequest p).mp (hready p (hprerequisites ▸ hp))
  · intro step hstep hstate hready
    obtain ⟨candidate, hcandidate, heq⟩ := exists_candidate hrequest hstep
    obtain ⟨hstepId, hstepState, hprerequisites, -⟩ := stepCandidate_spec heq
    have hof : step.roadmapId = roadmap.id := of_decide_eq_true (List.mem_filter.mp hstep).2
    unfold Db.prerequisitesCompleted at hready
    rw [hof] at hready
    have heligible : IsEligibleStep request candidate := by
      rw [isEligibleStep_iff hon hcandidate, hprerequisites]
      exact fun p hp ↦ (completed_iff hrequest p).mpr (hready p hp)
    rw [hids, ← hstepId]
    exact hstranded.once candidate hcandidate heligible fun h ↦ hstate (hstepState.symm.trans h)

/-- An active roadmap whose second step needs the first. -/
def dependentStepsDb : Db where
  users := [⟨1, true, none⟩]
  profiles := [⟨1, 1, none⟩]
  goals := [⟨10, 1, .targeted, some "o", 0, "UTC", .active⟩]
  analyses := [⟨20, 1, 10, 1, none, .ready, none, none⟩]
  traces := [⟨30, 1⟩]
  proposals := [⟨40, 20, 1, "", 1, .absent, .feasible, [], 30⟩]
  roadmaps := [⟨50, 1, 10, 40, "", .active, 1, 1, none, ⟨.absent, .value 7, none, []⟩, 0⟩]
  steps := [⟨60, 50, "a", 1, "a", 1, .todo, none, none, [], []⟩,
    ⟨61, 50, "b", 0, "b", 1, .todo, none, none, [], []⟩]
  dependencies := [⟨50, 61, 60⟩]

/-- A dependent step does not strand the dashboard. -/
theorem dashboardNextActions_neverStranded_dependent :
    ∃ views, dependentStepsDb.dashboardNextActions 1 10 6 = some views ∧ views ≠ [] := by
  have hacyclic : Graph.Acyclic (dependentStepsDb.prerequisitesOf 50) := by
    have hfalls : ∀ a b, b ∈ dependentStepsDb.prerequisitesOf 50 a → b < a := by
      intro a b hb
      obtain ⟨d, hd, rfl⟩ := List.mem_map.mp hb
      obtain ⟨hmem, hof⟩ := List.mem_filter.mp hd
      obtain rfl := List.mem_singleton.mp hmem
      obtain rfl := (of_decide_eq_true hof).2
      decide
    exact Graph.acyclic_of_rank hfalls
  obtain ⟨roadmap, hroadmap⟩ :
      ∃ roadmap, dependentStepsDb.activeRoadmap 1 10 = some roadmap := ⟨_, rfl⟩
  obtain ⟨request, hrequest⟩ :
      ∃ request, dependentStepsDb.nextActionRequest roadmap 6 = some request := by
    obtain rfl := Option.some.inj hroadmap
    exact Option.isSome_iff_exists.mp (by decide +kernel)
  obtain rfl := Option.some.inj hroadmap
  obtain ⟨-, views, hviews, -, hne, -⟩ := dashboardNextActions_neverStranded
    (by decide +kernel) hroadmap (by decide) hacyclic (by decide +kernel) hrequest
  exact ⟨views, hviews, hne⟩

end Jobtology.Store
