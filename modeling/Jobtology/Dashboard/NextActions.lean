import Jobtology.Base.SortedRows
import Jobtology.Graph.DepthFirst
import Jobtology.Weekly.Models
import Mathlib.Data.Prod.Lex

/-!
# Next actions of the dashboard

`next_actions.py`: urgent deadlines first, then the steps in progress, then the steps to start.
Ids are of any ordered type; instants and durations count microseconds.
-/

namespace Jobtology.Dashboard

open Jobtology.Base
open Jobtology.Weekly (StepState)

variable {ι : Type}

/-- `RoadmapCandidate`. `src/jobtology_be/modules/dashboard/next_actions.py:13–16`. -/
structure RoadmapCandidate (ι : Type) where
  roadmapId : ι
  roadmapVersion : Nat
  isActive : Bool
  one_le_version : 1 ≤ roadmapVersion

/-- `DeadlineActionCandidate`. `src/jobtology_be/modules/dashboard/next_actions.py:19–25`. -/
structure DeadlineActionCandidate (ι : Type) where
  actionId : ι
  title : String
  dueAt : Int
  sourceIsValid : Bool
  prerequisiteStepIds : List ι
  supportRefs : List String
  title_ne : title ≠ ""

/-- `RoadmapStepCandidate`. `src/jobtology_be/modules/dashboard/next_actions.py:28–39`. -/
structure RoadmapStepCandidate (ι : Type) where
  roadmapId : ι
  roadmapVersion : Nat
  stepId : ι
  title : String
  state : StepState
  roadmapPosition : Nat
  dueAt : Option Int
  expiresAt : Option Int
  sourceIsValid : Bool
  prerequisiteStepIds : List ι
  supportRefs : List String
  one_le_version : 1 ≤ roadmapVersion
  title_ne : title ≠ ""

/-- `NextActionRequest`. `src/jobtology_be/modules/dashboard/next_actions.py:42–49`. -/
structure NextActionRequest (ι : Type) where
  referenceAt : Int
  urgencyWindow : Nat
  ruleVersion : String
  roadmap : RoadmapCandidate ι
  completedStepIds : List ι
  deadlineActions : List (DeadlineActionCandidate ι)
  roadmapSteps : List (RoadmapStepCandidate ι)
  ruleVersion_ne : ruleVersion ≠ ""

/-- `kind` of a recommendation. -/
inductive ActionKind
  | continueStep
  | startStep
  | reviewDeadline
  deriving DecidableEq

/-- `reason_code` of a recommendation. -/
inductive ReasonCode
  | urgentDeadline
  | inProgressStep
  | nextRoadmapStep
  deriving DecidableEq

/-- `navigation_target` of a recommendation. -/
inductive NavigationTarget
  | deadlineAction
  | roadmapStep
  deriving DecidableEq

/-- `NextActionRecommendation`. `src/jobtology_be/modules/dashboard/next_actions.py:52–63`. -/
structure NextActionRecommendation (ι : Type) where
  kind : ActionKind
  roadmapId : Option ι
  roadmapVersion : Option Nat
  stepId : Option ι
  title : String
  reasonCode : ReasonCode
  dueAt : Option Int
  blockedBy : List ι
  supportRefs : List String
  navigationTarget : NavigationTarget
  navigationTargetId : ι
  deriving DecidableEq

/-- `NextActionSelection`. `src/jobtology_be/modules/dashboard/next_actions.py:66–69`. -/
structure NextActionSelection (ι : Type) where
  ruleVersion : String
  referenceAt : Int
  recommendations : List (NextActionRecommendation ι)
  deriving DecidableEq

/-- `_recommend_deadline`. `src/jobtology_be/modules/dashboard/next_actions.py:167–180`. -/
def recommendDeadline (action : DeadlineActionCandidate ι) : NextActionRecommendation ι where
  kind := .reviewDeadline
  roadmapId := none
  roadmapVersion := none
  stepId := none
  title := action.title
  reasonCode := .urgentDeadline
  dueAt := some action.dueAt
  blockedBy := []
  supportRefs := action.supportRefs
  navigationTarget := .deadlineAction
  navigationTargetId := action.actionId

/-- `_recommend_step`. `src/jobtology_be/modules/dashboard/next_actions.py:183–200`. -/
def recommendStep (kind : ActionKind) (reasonCode : ReasonCode) (step : RoadmapStepCandidate ι) :
    NextActionRecommendation ι where
  kind := kind
  roadmapId := some step.roadmapId
  roadmapVersion := some step.roadmapVersion
  stepId := some step.stepId
  title := step.title
  reasonCode := reasonCode
  dueAt := step.dueAt
  blockedBy := []
  supportRefs := step.supportRefs
  navigationTarget := .roadmapStep
  navigationTargetId := step.stepId

section Select

variable [LinearOrder ι]

/-- `_is_urgent_deadline`. `src/jobtology_be/modules/dashboard/next_actions.py:97–106`. -/
def IsUrgentDeadline (request : NextActionRequest ι) (action : DeadlineActionCandidate ι) : Prop :=
  action.sourceIsValid = true ∧
    (∀ p ∈ action.prerequisiteStepIds, p ∈ request.completedStepIds) ∧
    request.referenceAt < action.dueAt ∧
    action.dueAt ≤ request.referenceAt + request.urgencyWindow

instance (request : NextActionRequest ι) : DecidablePred (IsUrgentDeadline request) :=
  fun _ ↦ inferInstanceAs (Decidable (_ ∧ _))

/-- `_is_eligible_step`. `src/jobtology_be/modules/dashboard/next_actions.py:136–149`. -/
def IsEligibleStep (request : NextActionRequest ι) (step : RoadmapStepCandidate ι) : Prop :=
  (step.roadmapId = request.roadmap.roadmapId ∧
      step.roadmapVersion = request.roadmap.roadmapVersion) ∧
    step.sourceIsValid = true ∧
    (∀ t ∈ step.expiresAt, request.referenceAt < t) ∧
    ∀ p ∈ step.prerequisiteStepIds, p ∈ request.completedStepIds

instance (request : NextActionRequest ι) : DecidablePred (IsEligibleStep request) :=
  fun _ ↦ inferInstanceAs (Decidable (_ ∧ _))

/-- `_step_sort_key`. `src/jobtology_be/modules/dashboard/next_actions.py:152–160`. -/
def stepSortKey (referenceAt : Int) (step : RoadmapStepCandidate ι) : ℕ ×ₗ Bool ×ₗ ℤ ×ₗ ι :=
  toLex (step.roadmapPosition,
    toLex (step.dueAt.isNone, toLex (step.dueAt.getD referenceAt, step.stepId)))

/-- The eligible steps in one state. -/
def stepsIn (request : NextActionRequest ι) (state : StepState) :
    List (RoadmapStepCandidate ι) :=
  request.roadmapSteps.filter fun step ↦ IsEligibleStep request step ∧ step.state = state

/-- `_eligible_roadmap_steps`: the steps in progress and those to start.
`src/jobtology_be/modules/dashboard/next_actions.py:109–133`. -/
def eligibleRoadmapSteps (request : NextActionRequest ι) :
    List (RoadmapStepCandidate ι) × List (RoadmapStepCandidate ι) :=
  if request.roadmap.isActive then
    (sortedBy (stepSortKey request.referenceAt) (stepsIn request .inProgress),
      sortedBy (stepSortKey request.referenceAt) (stepsIn request .todo))
  else ([], [])

/-- `select_next_actions`. `src/jobtology_be/modules/dashboard/next_actions.py:72–94`. -/
def selectNextActions (request : NextActionRequest ι) : NextActionSelection ι where
  ruleVersion := request.ruleVersion
  referenceAt := request.referenceAt
  recommendations :=
    (sortedBy (fun action ↦ toLex (action.dueAt, action.actionId))
      (request.deadlineActions.filter (IsUrgentDeadline request))).map recommendDeadline ++
    (eligibleRoadmapSteps request).1.map (recommendStep .continueStep .inProgressStep) ++
    (eligibleRoadmapSteps request).2.map (recommendStep .startStep .nextRoadmapStep)

/-! ### What is recommended -/

/-- The ids of the steps of a request. -/
def NextActionRequest.stepIds (request : NextActionRequest ι) : List ι :=
  request.roadmapSteps.map (·.stepId)

/-- The prerequisites of the steps with an id. -/
def NextActionRequest.prerequisites (request : NextActionRequest ι) (id : ι) : List ι :=
  (request.roadmapSteps.filter (·.stepId = id)).flatMap (·.prerequisiteStepIds)

/-- The steps that are recommended, in their order. -/
def NextActionSelection.stepIds (selection : NextActionSelection ι) : List ι :=
  selection.recommendations.filterMap (·.stepId)

/-- A request about an active roadmap whose source is current: its steps are distinct, belong to
it, have not expired, and have prerequisites among each other. -/
structure NextActionRequest.OnActiveRoadmap (request : NextActionRequest ι) : Prop where
  active : request.roadmap.isActive = true
  distinct : request.stepIds.Nodup
  belongs : ∀ step ∈ request.roadmapSteps, step.roadmapId = request.roadmap.roadmapId ∧
    step.roadmapVersion = request.roadmap.roadmapVersion
  current : ∀ step ∈ request.roadmapSteps,
    step.sourceIsValid = true ∧ ∀ t ∈ step.expiresAt, request.referenceAt < t
  completed : ∀ id, id ∈ request.completedStepIds ↔
    ∃ step ∈ request.roadmapSteps, step.stepId = id ∧ step.state = .completed
  closed : ∀ step ∈ request.roadmapSteps, ∀ p ∈ step.prerequisiteStepIds, p ∈ request.stepIds

/-- A step can be worked on: it is not completed and its prerequisites are. -/
def NextActionRequest.Ready (request : NextActionRequest ι) (step : RoadmapStepCandidate ι) :
    Prop :=
  step.state ≠ .completed ∧ ∀ p ∈ step.prerequisiteStepIds,
    ∃ done ∈ request.roadmapSteps, done.stepId = p ∧ done.state = .completed

/-- A step is recommended, only steps that can be worked on are, and each of these once. -/
structure NextActionRequest.NeverStranded (request : NextActionRequest ι) : Prop where
  some_step : (selectNextActions request).stepIds ≠ []
  ready : ∀ id ∈ (selectNextActions request).stepIds,
    ∃ step ∈ request.roadmapSteps, step.stepId = id ∧ request.Ready step
  once : ∀ step ∈ request.roadmapSteps, IsEligibleStep request step → step.state ≠ .completed →
    (selectNextActions request).stepIds.count step.stepId = 1

omit [LinearOrder ι] in
private theorem stepId_recommendStep (kind : ActionKind) (reasonCode : ReasonCode)
    (steps : List (RoadmapStepCandidate ι)) :
    (steps.map (recommendStep kind reasonCode)).filterMap (·.stepId) =
      steps.map (·.stepId) := by
  rw [List.filterMap_map, ← List.filterMap_eq_map]
  rfl

/-- The recommended steps are the eligible ones that are not completed. -/
theorem stepIds_perm {request : NextActionRequest ι} (h : request.roadmap.isActive = true) :
    (selectNextActions request).stepIds.Perm ((request.roadmapSteps.filter fun step ↦
      IsEligibleStep request step ∧ step.state ≠ .completed).map (·.stepId)) := by
  have hdeadlines (actions : List (DeadlineActionCandidate ι)) :
      (actions.map recommendDeadline).filterMap (·.stepId) = [] := by
    rw [List.filterMap_map, List.filterMap_eq_nil_iff]
    intro action _
    rfl
  have hsteps : (stepsIn request .inProgress ++ stepsIn request .todo).Perm
      (request.roadmapSteps.filter fun step ↦
        IsEligibleStep request step ∧ step.state ≠ .completed) := by
    unfold stepsIn
    induction request.roadmapSteps with
    | nil => exact .nil
    | cons step rest ih =>
      by_cases heligible : IsEligibleStep request step
      · cases hstate : step.state with
        | todo =>
          rw [List.filter_cons_of_neg (by simp [hstate]),
            List.filter_cons_of_pos (by simp [heligible, hstate]),
            List.filter_cons_of_pos (by simp [heligible, hstate])]
          exact List.perm_middle.trans (ih.cons step)
        | inProgress =>
          rw [List.filter_cons_of_pos (by simp [heligible, hstate]),
            List.filter_cons_of_neg (by simp [hstate]),
            List.filter_cons_of_pos (by simp [heligible, hstate])]
          exact ih.cons step
        | completed =>
          rw [List.filter_cons_of_neg (by simp [hstate]),
            List.filter_cons_of_neg (by simp [hstate]),
            List.filter_cons_of_neg (by simp [hstate])]
          exact ih
      · rw [List.filter_cons_of_neg (by simp [heligible]),
          List.filter_cons_of_neg (by simp [heligible]),
          List.filter_cons_of_neg (by simp [heligible])]
        exact ih
  unfold NextActionSelection.stepIds selectNextActions eligibleRoadmapSteps
  rw [if_pos h]
  dsimp only
  rw [List.filterMap_append, List.filterMap_append, hdeadlines, List.nil_append,
    stepId_recommendStep, stepId_recommendStep, ← List.map_append]
  exact (((perm_sortedBy _ _).append (perm_sortedBy _ _)).trans hsteps).map _

/-- Among the steps that are not completed one has all its prerequisites completed. -/
theorem exists_ready {request : NextActionRequest ι} (h : request.OnActiveRoadmap)
    (hacyclic : Graph.Acyclic request.prerequisites)
    (hopen : ∃ step ∈ request.roadmapSteps, step.state ≠ .completed) :
    ∃ step ∈ request.roadmapSteps, request.Ready step := by
  let unfinished := request.roadmapSteps.filter (·.state ≠ .completed)
  obtain ⟨first, hfirst, hstate⟩ := hopen
  have hne : unfinished.map (·.stepId) ≠ [] := by
    have hmem : first ∈ unfinished := List.mem_filter.mpr ⟨hfirst, decide_eq_true hstate⟩
    exact List.ne_nil_of_mem (List.mem_map_of_mem hmem)
  obtain ⟨id, hid, hsink⟩ := hacyclic.exists_sink hne
  obtain ⟨step, hmem, rfl⟩ := List.mem_map.mp hid
  obtain ⟨hstep, hincomplete⟩ := List.mem_filter.mp hmem
  refine ⟨step, hstep, of_decide_eq_true hincomplete, fun p hp ↦ ?_⟩
  have hedge : p ∈ request.prerequisites step.stepId :=
    List.mem_flatMap.mpr ⟨step, List.mem_filter.mpr ⟨hstep, decide_eq_true rfl⟩, hp⟩
  obtain ⟨done, hdone, rfl⟩ := List.mem_map.mp (h.closed step hstep p hp)
  refine ⟨done, hdone, rfl, ?_⟩
  by_contra hnot
  exact hsink _ hedge (List.mem_map_of_mem (List.mem_filter.mpr ⟨hdone, decide_eq_true hnot⟩))

omit [LinearOrder ι] in
/-- A step of an active roadmap is eligible when its prerequisites are completed. -/
theorem isEligibleStep_iff {request : NextActionRequest ι} (h : request.OnActiveRoadmap)
    {step : RoadmapStepCandidate ι} (hstep : step ∈ request.roadmapSteps) :
    IsEligibleStep request step ↔ ∀ p ∈ step.prerequisiteStepIds,
      ∃ done ∈ request.roadmapSteps, done.stepId = p ∧ done.state = .completed := by
  unfold IsEligibleStep
  simp only [h.completed]
  constructor
  · exact fun heligible ↦ heligible.2.2.2
  · intro hdone
    exact ⟨h.belongs step hstep, (h.current step hstep).1, (h.current step hstep).2, hdone⟩

/-- A user with an active roadmap is never left without a step to work on. -/
theorem selectNextActions_neverStranded {request : NextActionRequest ι}
    (h : request.OnActiveRoadmap) (hacyclic : Graph.Acyclic request.prerequisites)
    (hopen : ∃ step ∈ request.roadmapSteps, step.state ≠ .completed) :
    request.NeverStranded := by
  have hperm := stepIds_perm h.active
  have hnodup : (selectNextActions request).stepIds.Nodup :=
    hperm.nodup_iff.mpr (h.distinct.sublist (List.filter_sublist.map _))
  have hrecommended (step : RoadmapStepCandidate ι) (hstep : step ∈ request.roadmapSteps)
      (heligible : IsEligibleStep request step) (hstate : step.state ≠ .completed) :
      step.stepId ∈ (selectNextActions request).stepIds :=
    hperm.mem_iff.mpr (List.mem_map_of_mem
      (List.mem_filter.mpr ⟨hstep, decide_eq_true ⟨heligible, hstate⟩⟩))
  constructor
  case some_step =>
    obtain ⟨step, hstep, hready⟩ := exists_ready h hacyclic hopen
    have heligible := (isEligibleStep_iff h hstep).mpr hready.2
    exact List.ne_nil_of_mem (hrecommended step hstep heligible hready.1)
  case ready =>
    intro id hid
    obtain ⟨step, hmem, rfl⟩ := List.mem_map.mp (hperm.mem_iff.mp hid)
    obtain ⟨hstep, hcase⟩ := List.mem_filter.mp hmem
    have hboth := of_decide_eq_true hcase
    exact ⟨step, hstep, rfl, hboth.2, (isEligibleStep_iff h hstep).mp hboth.1⟩
  case once =>
    intro step hstep heligible hstate
    exact List.count_eq_one_of_mem hnodup (hrecommended step hstep heligible hstate)

end Select

end Jobtology.Dashboard
