import Jobtology.Store.Session

/-!
# Creating and activating roadmaps

`create_roadmap` and `mutate_roadmap` of `store.py`, with `roadmap_source_validity.py`.
-/

namespace Jobtology.Store

open Jobtology.Base Jobtology.Relational
open Jobtology.Relational.Transaction
open Jobtology.Planning (RouteFeasibility)
open Jobtology.Weekly (StepState)

/-- `RoadmapCreate`. -/
structure RoadmapCreate where
  userId : Uuid
  roadmapId : Uuid
  goalId : Uuid
  proposalId : Uuid
  title : String
  profileVersion : Nat

/-- `RoadmapMutation`. -/
structure RoadmapMutation where
  userId : Uuid
  roadmapId : Uuid
  expectedRoadmapVersion : Nat
  expectedProfileVersion : Nat
  state : RoadmapState
  title : Option String

/-- `RoadmapSnapshot`. -/
structure RoadmapSnapshot where
  roadmapId : Uuid
  version : Nat
  state : RoadmapState
  deriving DecidableEq

/-! ### Source validity and pinned occupation -/

/-- `SourceValidity`.
`src/jobtology_be/infrastructure/persistence/roadmap_source_validity.py:9–11`. -/
structure SourceValidity where
  sourceIsValid : Bool
  expiresAt : Option Int
  deriving DecidableEq

/-- `parse_source_validity`.
`src/jobtology_be/infrastructure/persistence/roadmap_source_validity.py:14–32`. -/
def parseSourceValidity (validity : Validity) : SourceValidity :=
  match validity.sourceIsValid, validity.expiresAt with
  | .malformed, _ => ⟨false, none⟩
  | _, .malformed => ⟨false, none⟩
  | .absent, .absent => ⟨true, none⟩
  | .value valid, .absent => ⟨valid, none⟩
  | .absent, .value t => ⟨true, some t⟩
  | .value valid, .value t => ⟨valid, some t⟩

/-- `source_is_current`.
`src/jobtology_be/infrastructure/persistence/roadmap_source_validity.py:35–39`. -/
def sourceIsCurrent (validity : SourceValidity) (referenceAt : Int) : Bool :=
  validity.sourceIsValid && validity.expiresAt.all (referenceAt < ·)

/-- `_pinned_occupation`: the only occupation that the snapshot and the results name.
`src/jobtology_be/infrastructure/persistence/roadmap_revisions.py:95–100`,
`src/jobtology_be/infrastructure/persistence/store.py:1042–1051`. -/
def pinnedOccupation (a : AnalysisRow) : Option String :=
  match ((a.snapshotOccupation.toList ++ a.resultOccupation.toList).filter
    (!isBlank ·)).eraseDups with
  | [occupation] => some occupation
  | _ => none

/-- The feasibilities of a route that can be followed. -/
def isActionable (feasibility : RouteFeasibility) : Bool :=
  feasibility != .infeasible

/-! ### Outcomes and completion semantics -/

/-- The field constraints of `RoadmapOutcome`. -/
def RoadmapOutcome.Valid (o : RoadmapOutcome) : Prop :=
  o.requirementKey ≠ "" ∧ o.entityId ≠ "" ∧ o.rawText ≠ "" ∧ o.rawText.length ≤ 500

instance (o : RoadmapOutcome) : Decidable o.Valid := inferInstanceAs (Decidable (_ ∧ _))

/-- What a completion is about: the action, its revision, its outcomes and its criteria. -/
structure Semantics where
  actionId : String
  templateRevision : Int
  outcomes : List RoadmapOutcome
  criteria : List String
  deriving DecidableEq

/-- Semantics of a stored step.
`src/jobtology_be/infrastructure/persistence/roadmap_revisions.py:54–57`,
`src/jobtology_be/infrastructure/persistence/store.py:1006–1017`. -/
def StepRow.semantics (s : StepRow) : Semantics :=
  ⟨s.actionId, s.templateRevision, s.outcomes, s.criteria⟩

/-- Semantics of a proposed step.
`src/jobtology_be/infrastructure/persistence/roadmap_revisions.py:74–77`. -/
def ProposalStep.semantics (s : ProposalStep) : Semantics :=
  ⟨s.actionId, s.templateRevision, s.outcomes, s.completionCriteria⟩

/-! ### `create_roadmap` -/

/-- A proposal joined with its analysis. -/
def Db.proposalWithAnalysis (db : Db) (proposalId : Uuid) : Option (ProposalRow × AnalysisRow) := do
  let proposal ← lookup (·.id) db.proposals proposalId
  let analysis ← lookup (·.id) db.analyses proposal.analysisId
  return (proposal, analysis)

/-- The proposal of a user, with an analysis of that user. -/
def Db.ownProposal (db : Db) (userId proposalId : Uuid) : Option (ProposalRow × AnalysisRow) :=
  (db.proposalWithAnalysis proposalId).filter fun row ↦
    row.2.userId = userId ∧ row.1.userId = userId

/-- The active roadmap of a goal. -/
def Db.activeRoadmapOf (db : Db) (userId goalId : Uuid) : Option RoadmapRow :=
  db.roadmaps.find? fun r ↦ r.userId = userId ∧ r.goalId = goalId ∧ r.state = .active

/-- `_proposal_step_dates` accepts the dates: they do not end before they start.
`src/jobtology_be/infrastructure/persistence/store.py:1020–1039`. -/
def ProposalStep.DatesOrdered (s : ProposalStep) : Prop :=
  ∀ a ∈ s.plannedStartAt, ∀ b ∈ s.plannedEndAt, a ≤ b

instance (s : ProposalStep) : Decidable s.DatesOrdered :=
  inferInstanceAs (Decidable (∀ a ∈ s.plannedStartAt, ∀ b ∈ s.plannedEndAt, a ≤ b))

/-- The step row of a proposed step. -/
def ProposalStep.row (s : ProposalStep) (roadmapId id : Uuid) (position : Nat) : StepRow where
  id := id
  roadmapId := roadmapId
  stepKey := s.stepKey
  position := position
  actionId := s.actionId
  templateRevision := s.templateRevision
  state := .todo
  plannedStart := s.plannedStartAt
  plannedEnd := s.plannedEndAt
  outcomes := s.outcomes
  criteria := s.completionCriteria

/-- Insert the row of a proposed step. -/
def insertStep (roadmapId id : Uuid) (position : Nat) (s : ProposalStep) : Txn Unit := do
  require s.DatesOrdered (.conflict "proposal schedule")
  statement fun db ↦ { db with steps := db.steps ++ [s.row roadmapId id position] }

/-- `step_ids`: the id given to the last step with a key. -/
def stepIdOf (stepId : Nat → Uuid) (steps : List ProposalStep) (key : String) : Option Uuid :=
  (lookupLast (·.1.stepKey) steps.zipIdx key).map (stepId ·.2)

/-- Insert one dependency of a step, named by the key of its prerequisite. -/
def insertDependency (roadmapId id : Uuid) (prerequisite : Option Uuid) : Txn Unit := do
  let prerequisiteId ← demand prerequisite (.conflict "proposal dependency")
  statement fun db ↦
    { db with dependencies := db.dependencies ++ [⟨roadmapId, id, prerequisiteId⟩] }

/-- Insert the dependencies of a proposed step. -/
def insertDependencies (roadmapId : Uuid) (stepId : Nat → Uuid) (steps : List ProposalStep)
    (s : ProposalStep) : Txn Unit := do
  let id ← demand (stepIdOf stepId steps s.stepKey) .keyError
  s.prerequisiteStepKeys.forM fun key ↦
    insertDependency roadmapId id (stepIdOf stepId steps key)

/-- The completed steps of a roadmap with the events that completed them. -/
def Db.completedSteps (db : Db) (roadmapId : Uuid) : List (StepRow × Uuid) :=
  (db.steps.filter fun s ↦ s.roadmapId = roadmapId ∧ s.state = .completed).filterMap fun s ↦
    (lookup (·.stepId) db.inheritances s.id).map fun i ↦ (s, i.originalCompletionEventId)

/-- Carry a completion over to the new step with the same semantics. -/
def inheritCompletion (stepId : Nat → Uuid) (steps : List ProposalStep)
    (completed : List (StepRow × Uuid)) (s : ProposalStep) : Txn Unit := do
  require (∀ o ∈ s.outcomes, o.Valid) .validation
  match lookupLast (fun c ↦ c.1.semantics) completed s.semantics with
  | none => pure ()
  | some (_, eventId) => do
    let id ← demand (stepIdOf stepId steps s.stepKey) .keyError
    statement fun db ↦ { db with
      steps := update (·.id = id) (fun r ↦ { r with state := .completed }) db.steps }
    statement fun db ↦ { db with inheritances := db.inheritances ++ [⟨id, eventId⟩] }

/-- Carry the completions of the goal's active roadmap over to the new steps. -/
def inheritCompletions (stepId : Nat → Uuid) (steps : List ProposalStep) :
    Option RoadmapRow → Txn Unit
  | none => pure ()
  | some previous => do
    let completed ← query (·.completedSteps previous.id)
    require (∀ c ∈ completed, ∀ o ∈ c.1.outcomes, o.Valid) .validation
    steps.forM (inheritCompletion stepId steps completed)

/-- The row of the new roadmap. -/
def RoadmapCreate.row (request : RoadmapCreate) (releaseId : Option String) (now : Int) :
    RoadmapRow where
  id := request.roadmapId
  userId := request.userId
  goalId := request.goalId
  proposalId := request.proposalId
  title := request.title
  state := .draft
  version := 1
  profileVersion := request.profileVersion
  releaseId := releaseId
  validity := ⟨.absent, .absent, none, []⟩
  createdAt := now

/-- `create_roadmap`. The ids of the steps are drawn by position.
`src/jobtology_be/infrastructure/persistence/store.py:529–670`. -/
def createRoadmap (request : RoadmapCreate) (stepId : Nat → Uuid) (now : Int) :
    Txn RoadmapSnapshot := do
  let version ← query (·.profileVersion request.userId)
  require (version = some request.profileVersion) (.conflict "profile")
  let goalOwner ← query fun db ↦ (lookup (·.id) db.goals request.goalId).map (·.userId)
  require (goalOwner = some request.userId) (.missing "goal")
  let found ← query (·.ownProposal request.userId request.proposalId)
  let (proposal, analysis) ← demand found (.missing "route proposal")
  require (proposal.profileVersion = request.profileVersion)
    (.conflict "route proposal profile version")
  require (proposal.feasibility ≠ .infeasible) (.conflict "infeasible route proposal")
  require (analysis.goalId = request.goalId) (.conflict "route proposal goal")
  let previousActive ← query (·.activeRoadmapOf request.userId request.goalId)
  statement fun db ↦ { db with roadmaps := db.roadmaps ++ [request.row analysis.releaseId now] }
  proposal.steps.zipIdx.forM fun (s, position) ↦
    insertStep request.roadmapId (stepId position) position s
  proposal.steps.forM (insertDependencies request.roadmapId stepId proposal.steps)
  inheritCompletions stepId proposal.steps previousActive
  return ⟨request.roadmapId, 1, .draft⟩

/-! ### `mutate_roadmap` -/

/-- The proposal, analysis and goal of a roadmap, all of one user. -/
def Db.activationRow (db : Db) (userId : Uuid) (roadmap : RoadmapRow) :
    Option (ProposalRow × AnalysisRow × GoalRow) := do
  let (proposal, analysis) ← db.ownProposal userId roadmap.proposalId
  let goal ← lookup (·.id) db.goals analysis.goalId
  if goal.userId = userId ∧ goal.id = roadmap.goalId then return (proposal, analysis, goal)
    else none

/-- The goal is active, targeted, and for the occupation that the analysis pinned. -/
def targetsPinned (analysis : AnalysisRow) (goal : GoalRow) : Prop :=
  goal.status = .active ∧ goal.goalMode = .targeted ∧ goal.occupationId ≠ none ∧
    pinnedOccupation analysis = goal.occupationId

instance (analysis : AnalysisRow) (goal : GoalRow) : Decidable (targetsPinned analysis goal) :=
  inferInstanceAs (Decidable (_ ∧ _))

/-- The checks before an activation and the archiving of the other active roadmaps. -/
def prepareActivation (request : RoadmapMutation) (roadmap : RoadmapRow) (now : Int) :
    Txn Unit := do
  require (sourceIsCurrent (parseSourceValidity roadmap.validity) now = true)
    (.conflict "roadmap source")
  let row ← query (·.activationRow request.userId roadmap)
  let (proposal, analysis, goal) ← demand row (.conflict "route proposal")
  require (isActionable proposal.feasibility = true) (.conflict "route proposal")
  require (targetsPinned analysis goal) (.conflict "roadmap goal")
  statement fun db ↦ { db with
    roadmaps := update (fun r ↦ r.userId = request.userId ∧ r.state = .active ∧
        r.id ≠ request.roadmapId)
      (fun r ↦ { r with state := .archived, version := r.version + 1 }) db.roadmaps }

/-- The roadmap that the mutation is about, at the version it expects. -/
def RoadmapMutation.matches (request : RoadmapMutation) (r : RoadmapRow) : Prop :=
  r.id = request.roadmapId ∧ r.userId = request.userId ∧ r.version = request.expectedRoadmapVersion

instance (request : RoadmapMutation) : DecidablePred request.matches :=
  fun _ ↦ inferInstanceAs (Decidable (_ ∧ _))

/-- `mutate_roadmap`. `src/jobtology_be/infrastructure/persistence/store.py:816–897`. -/
def mutateRoadmap (request : RoadmapMutation) (now : Int) : Txn RoadmapSnapshot := do
  let version ← query (·.profileVersion request.userId)
  require (version = some request.expectedProfileVersion) (.conflict "profile")
  let found ← query fun db ↦ db.roadmaps.find? fun r ↦ request.matches r
  let roadmap ← demand found (.conflict "roadmap")
  when (request.state = .active) (prepareActivation request roadmap now)
  let count ← query fun db ↦ db.roadmaps.countP fun r ↦ request.matches r
  statement fun db ↦ { db with
    roadmaps := update request.matches
      (fun r ↦ { r with
        state := request.state
        title := request.title.getD r.title
        version := r.version + 1 }) db.roadmaps }
  require (count = 1) (.conflict "roadmap")
  return ⟨request.roadmapId, request.expectedRoadmapVersion + 1, request.state⟩

/-! ### What creating a roadmap writes -/

/-- The rows of the proposed steps. -/
def stepRows (roadmapId : Uuid) (stepId : Nat → Uuid) (steps : List (ProposalStep × Nat)) :
    List StepRow :=
  steps.map fun x ↦ x.1.row roadmapId (stepId x.2) x.2

/-- The dependency row of a step and one of its prerequisites, by key. -/
def dependencyRow (roadmapId : Uuid) (stepId : Nat → Uuid) (all : List ProposalStep)
    (key prerequisite : String) : Option DependencyRow := do
  let id ← stepIdOf stepId all key
  let prerequisiteId ← stepIdOf stepId all prerequisite
  return ⟨roadmapId, id, prerequisiteId⟩

/-- The dependency rows of the proposed steps. -/
def dependencyRows (roadmapId : Uuid) (stepId : Nat → Uuid) (all steps : List ProposalStep) :
    List DependencyRow :=
  steps.flatMap fun s ↦
    s.prerequisiteStepKeys.filterMap (dependencyRow roadmapId stepId all s.stepKey)

/-- The completion that a proposed step inherits. -/
def inheritanceRow (stepId : Nat → Uuid) (all : List ProposalStep)
    (completed : List (StepRow × Uuid)) (s : ProposalStep) : Option InheritanceRow := do
  let c ← lookupLast (fun c ↦ c.1.semantics) completed s.semantics
  let id ← stepIdOf stepId all s.stepKey
  return ⟨id, c.2⟩

/-- The steps after those with an inherited completion are completed. -/
def completeSteps (rows : List InheritanceRow) (steps : List StepRow) : List StepRow :=
  update (·.id ∈ rows.map (·.stepId)) (fun r ↦ { r with state := .completed }) steps

/-- Without inheritances no step is completed. -/
theorem completeSteps_nil (steps : List StepRow) : completeSteps [] steps = steps :=
  update_eq_self fun _ _ ↦ by simp

private theorem completeSteps_cons (row : InheritanceRow) (rows : List InheritanceRow)
    (steps : List StepRow) :
    completeSteps (row :: rows) steps = completeSteps rows
      (update (·.id = row.stepId) (fun r ↦ { r with state := .completed }) steps) := by
  unfold completeSteps update
  rw [List.map_map]
  apply List.map_congr_left
  intro r _
  by_cases hr : r.id = row.stepId
  · by_cases hrows : r.id ∈ rows.map (·.stepId)
    · simp_all
    · simp_all
  · simp [hr]

section CreateRoadmap

variable {roadmapId : Uuid} {stepId : Nat → Uuid}

/-- Inserting the steps appends their rows. -/
theorem insertSteps_spec {steps : List (ProposalStep × Nat)} {s t : Database} {u : PUnit}
    (h : Yields (steps.forM fun (s, position) ↦
      insertStep roadmapId (stepId position) position s) s u t) :
    (∀ x ∈ steps, x.1.DatesOrdered) ∧
      t.1 = { s.1 with steps := s.1.steps ++ stepRows roadmapId stepId steps } := by
  induction steps generalizing s with
  | nil =>
    obtain rfl := yields_forM_nil.mp h
    simp [stepRows]
  | cons x steps ih =>
    obtain ⟨v, hx, hrest⟩ := yields_forM_cons.mp h
    obtain ⟨hordered, ht⟩ := ih hrest
    unfold insertStep at hx
    simp only [↓yields_require_bind, yields_statement] at hx
    obtain ⟨hx, hv⟩ := hx
    refine ⟨List.forall_mem_cons.mpr ⟨hx, hordered⟩, ?_⟩
    rw [ht, ← hv]
    simp [stepRows]

private theorem insertDependencyRows_spec {id : Uuid} {all : List ProposalStep} {key : String}
    (hid : stepIdOf stepId all key = some id) {keys : List String} {s t : Database} {u : PUnit}
    (h : Yields (keys.forM fun key ↦ insertDependency roadmapId id (stepIdOf stepId all key))
      s u t) :
    (∀ k ∈ keys, (stepIdOf stepId all k).isSome) ∧
      t.1 = { s.1 with
        dependencies := s.1.dependencies ++
          keys.filterMap (dependencyRow roadmapId stepId all key) } := by
  induction keys generalizing s with
  | nil =>
    obtain rfl := yields_forM_nil.mp h
    simp
  | cons k keys ih =>
    obtain ⟨v, hk, hrest⟩ := yields_forM_cons.mp h
    obtain ⟨hknown, ht⟩ := ih hrest
    unfold insertDependency at hk
    simp only [yields_demand_bind, yields_statement] at hk
    obtain ⟨p, hp, hv⟩ := hk
    refine ⟨List.forall_mem_cons.mpr ⟨by simp [hp], hknown⟩, ?_⟩
    rw [ht, ← hv]
    simp [dependencyRow, hid, hp]

/-- Inserting the dependencies appends one row for each listed prerequisite. -/
theorem insertDependencies_spec {all steps : List ProposalStep} {s t : Database} {u : PUnit}
    (h : Yields (steps.forM (insertDependencies roadmapId stepId all)) s u t) :
    (∀ x ∈ steps, ∀ k ∈ x.prerequisiteStepKeys, (stepIdOf stepId all k).isSome) ∧
      t.1 = { s.1 with
        dependencies := s.1.dependencies ++ dependencyRows roadmapId stepId all steps } := by
  induction steps generalizing s with
  | nil =>
    obtain rfl := yields_forM_nil.mp h
    simp [dependencyRows]
  | cons x steps ih =>
    obtain ⟨v, hx, hrest⟩ := yields_forM_cons.mp h
    obtain ⟨hknown, ht⟩ := ih hrest
    unfold insertDependencies at hx
    simp only [yields_demand_bind] at hx
    obtain ⟨id, hid, hx⟩ := hx
    obtain ⟨hkeys, hv⟩ := insertDependencyRows_spec hid hx
    refine ⟨List.forall_mem_cons.mpr ⟨hkeys, hknown⟩, ?_⟩
    rw [ht, hv]
    simp [dependencyRows]

/-- Inheriting completes the steps that have the semantics of a completed one. -/
theorem inheritCompletion_spec {all steps : List ProposalStep} {completed : List (StepRow × Uuid)}
    {s t : Database} {u : PUnit}
    (h : Yields (steps.forM (inheritCompletion stepId all completed)) s u t) :
    t.1 = { s.1 with
      steps := completeSteps (steps.filterMap (inheritanceRow stepId all completed)) s.1.steps
      inheritances := s.1.inheritances ++
        steps.filterMap (inheritanceRow stepId all completed) } := by
  induction steps generalizing s with
  | nil =>
    obtain rfl := yields_forM_nil.mp h
    simp [completeSteps_nil]
  | cons x steps ih =>
    obtain ⟨v, hx, hrest⟩ := yields_forM_cons.mp h
    rw [ih hrest]
    unfold inheritCompletion at hx
    rw [yields_require_bind] at hx
    obtain ⟨-, hx⟩ := hx
    cases hc : lookupLast (fun c ↦ c.1.semantics) completed x.semantics with
    | none =>
      rw [hc] at hx
      obtain ⟨-, rfl⟩ := yields_pure.mp hx
      have hnone : inheritanceRow stepId all completed x = none := by simp [inheritanceRow, hc]
      rw [List.filterMap_cons_none hnone]
    | some c =>
      rw [hc] at hx
      simp only [yields_demand_bind, yields_seq, yields_statement] at hx
      obtain ⟨id, hid, w, hw, hv⟩ := hx
      have hsome : inheritanceRow stepId all completed x = some ⟨id, c.2⟩ := by
        simp [inheritanceRow, hc, hid]
      rw [List.filterMap_cons_some hsome, completeSteps_cons]
      simp only [← hw] at hv
      rw [← hv]
      simp

end CreateRoadmap

/-- The completed steps that a new roadmap of the goal inherits from. -/
def RoadmapCreate.inheritable (request : RoadmapCreate) (db : Db) : List (StepRow × Uuid) :=
  ((db.activeRoadmapOf request.userId request.goalId).map
    fun previous ↦ db.completedSteps previous.id).getD []

/-- The inheritance rows of a new roadmap. -/
def RoadmapCreate.inherited (request : RoadmapCreate) (stepId : Nat → Uuid)
    (steps : List ProposalStep) (db : Db) : List InheritanceRow :=
  steps.filterMap (inheritanceRow stepId steps (request.inheritable db))

/-- What creating a roadmap from a proposal writes. -/
structure RoadmapCreated (request : RoadmapCreate) (stepId : Nat → Uuid) (now : Int)
    (proposal : ProposalRow) (analysis : AnalysisRow) (s t : Db) : Prop where
  version : s.profileVersion request.userId = some request.profileVersion
  goalOwner : (lookup (·.id) s.goals request.goalId).map (·.userId) = some request.userId
  own : s.ownProposal request.userId request.proposalId = some (proposal, analysis)
  proposalVersion : proposal.profileVersion = request.profileVersion
  feasible : proposal.feasibility ≠ .infeasible
  goal : analysis.goalId = request.goalId
  datesOrdered : ∀ x ∈ proposal.steps, x.DatesOrdered
  prerequisitesKnown : ∀ x ∈ proposal.steps, ∀ k ∈ x.prerequisiteStepKeys,
    (stepIdOf stepId proposal.steps k).isSome
  written : t = { s with
    roadmaps := s.roadmaps ++ [request.row analysis.releaseId now]
    steps := completeSteps (request.inherited stepId proposal.steps s)
      (s.steps ++ stepRows request.roadmapId stepId proposal.steps.zipIdx)
    dependencies := s.dependencies ++
      dependencyRows request.roadmapId stepId proposal.steps proposal.steps
    inheritances := s.inheritances ++ request.inherited stepId proposal.steps s }

/-- A new row does not change what is found about the other roadmaps. -/
theorem completedSteps_insert {db : Db} {roadmapId newId : Uuid} (hne : roadmapId ≠ newId)
    {rows : List StepRow} (hrows : ∀ r ∈ rows, r.roadmapId = newId)
    (roadmaps : List RoadmapRow) (dependencies : List DependencyRow) :
    Db.completedSteps { db with
      roadmaps := roadmaps, steps := db.steps ++ rows, dependencies := dependencies } roadmapId =
      db.completedSteps roadmapId := by
  unfold Db.completedSteps
  have hnone : rows.filter (fun s ↦ s.roadmapId = roadmapId ∧ s.state = .completed) = [] := by
    rw [List.filter_eq_nil_iff]
    intro r hr
    simp [hrows r hr, hne.symm]
  rw [List.filter_append, hnone, List.append_nil]

/-- A roadmap that is created is a draft. -/
theorem createRoadmap_spec {request : RoadmapCreate} {stepId : Nat → Uuid} {now : Int}
    {s t : Database} {snapshot : RoadmapSnapshot}
    (h : Yields (createRoadmap request stepId now) s snapshot t) :
    snapshot = ⟨request.roadmapId, 1, .draft⟩ ∧
      ∃ proposal analysis, RoadmapCreated request stepId now proposal analysis s.1 t.1 := by
  unfold createRoadmap at h
  simp only [yields_query_bind, ↓yields_require_bind, ↓yields_demand_bind] at h
  obtain ⟨hversion, howner, ⟨proposal, analysis⟩, hown, hpv, hfeasible, hgoal, h⟩ := h
  simp only [yields_seq, yields_statement, yields_pure] at h
  obtain ⟨s₁, hroadmap, s₂, hsteps, s₃, hdependencies, s₄, hinherit, rfl, rfl⟩ := h
  obtain ⟨hordered, h₂⟩ := insertSteps_spec hsteps
  obtain ⟨hknown, h₃⟩ := insertDependencies_spec hdependencies
  simp only [← hroadmap] at h₂
  simp only [h₂] at h₃
  refine ⟨rfl, proposal, analysis, ?_⟩
  have hordered' : ∀ x ∈ proposal.steps, x.DatesOrdered := by
    intro x hx
    obtain ⟨i, hi⟩ := List.mem_iff_getElem?.mp hx
    exact hordered (x, i) (List.mem_zipIdx_iff_getElem?.mpr hi)
  refine ⟨hversion, howner, hown, hpv, hfeasible, hgoal, hordered', hknown, ?_⟩
  cases hactive : s.1.activeRoadmapOf request.userId request.goalId with
  | none =>
    rw [hactive] at hinherit
    obtain ⟨-, rfl⟩ := yields_pure.mp hinherit
    have hnil : request.inherited stepId proposal.steps s.1 = [] := by
      unfold RoadmapCreate.inherited RoadmapCreate.inheritable
      rw [hactive]
      exact List.filterMap_eq_nil_iff.mpr fun x _ ↦ by simp [inheritanceRow, lookupLast]
    rw [h₃, hnil]
    simp [completeSteps_nil]
  | some previous =>
    rw [hactive] at hinherit
    unfold inheritCompletions at hinherit
    simp only [yields_query_bind, ↓yields_require_bind] at hinherit
    have h₄ := inheritCompletion_spec hinherit.2
    have hmem := List.mem_of_find?_eq_some hactive
    have hne : previous.id ≠ request.roadmapId := by
      have hu := s₁.2.roadmaps.key
      rw [← hroadmap, unique_append_singleton] at hu
      exact hu.2 previous hmem
    have hcompleted : s₃.1.completedSteps previous.id = request.inheritable s.1 := by
      rw [h₃, completedSteps_insert hne]
      · simp [RoadmapCreate.inheritable, hactive]
      · intro r hr
        obtain ⟨x, -, rfl⟩ := List.mem_map.mp hr
        rfl
    simp only [hcompleted] at h₄
    rw [h₄, h₃]
    rfl

/-! ### What a roadmap mutation writes -/

/-- The roadmaps after the other active ones of the user are archived. -/
def RoadmapMutation.archiveOthers (request : RoadmapMutation) (roadmaps : List RoadmapRow) :
    List RoadmapRow :=
  update (fun r ↦ r.userId = request.userId ∧ r.state = .active ∧ r.id ≠ request.roadmapId)
    (fun r ↦ { r with state := .archived, version := r.version + 1 }) roadmaps

/-- The roadmaps after a mutation. -/
def RoadmapMutation.roadmapsAfter (request : RoadmapMutation) (roadmaps : List RoadmapRow) :
    List RoadmapRow :=
  update request.matches (fun r ↦ { r with
    state := request.state, title := request.title.getD r.title, version := r.version + 1 })
    (if request.state = .active then request.archiveOthers roadmaps else roadmaps)

/-- A roadmap that may be activated. -/
structure Activable (request : RoadmapMutation) (roadmap : RoadmapRow) (now : Int) (db : Db)
    (proposal : ProposalRow) (analysis : AnalysisRow) (goal : GoalRow) : Prop where
  sourceCurrent : sourceIsCurrent (parseSourceValidity roadmap.validity) now = true
  row : db.activationRow request.userId roadmap = some (proposal, analysis, goal)
  actionable : isActionable proposal.feasibility = true
  targets : targetsPinned analysis goal

/-- What a roadmap mutation that succeeds writes. -/
structure RoadmapMutated (request : RoadmapMutation) (now : Int) (roadmap : RoadmapRow)
    (s t : Db) : Prop where
  version : s.profileVersion request.userId = some request.expectedProfileVersion
  found : roadmap ∈ s.roadmaps
  matched : request.matches roadmap
  activable : request.state = .active →
    ∃ proposal analysis goal, Activable request roadmap now s proposal analysis goal
  written : t = { s with roadmaps := request.roadmapsAfter s.roadmaps }

private theorem prepareActivation_spec {request : RoadmapMutation} {roadmap : RoadmapRow}
    {now : Int} {s t : Database} {u : Unit}
    (h : Yields (prepareActivation request roadmap now) s u t) :
    (∃ proposal analysis goal, Activable request roadmap now s.1 proposal analysis goal) ∧
      t.1 = { s.1 with roadmaps := request.archiveOthers s.1.roadmaps } := by
  unfold prepareActivation at h
  simp only [yields_query_bind, ↓yields_require_bind, ↓yields_demand_bind] at h
  obtain ⟨hsource, ⟨proposal, analysis, goal⟩, hrow, hactionable, htargets, ht⟩ := h
  exact ⟨⟨proposal, analysis, goal, hsource, hrow, hactionable, htargets⟩,
    (yields_statement.mp ht).symm⟩

/-- What a mutation that succeeds does. -/
theorem mutateRoadmap_spec {request : RoadmapMutation} {now : Int} {s t : Database}
    {snapshot : RoadmapSnapshot} (h : Yields (mutateRoadmap request now) s snapshot t) :
    snapshot = ⟨request.roadmapId, request.expectedRoadmapVersion + 1, request.state⟩ ∧
      ∃ roadmap, RoadmapMutated request now roadmap s.1 t.1 := by
  unfold mutateRoadmap at h
  simp only [yields_query_bind, ↓yields_require_bind, ↓yields_demand_bind, yields_seq,
    yields_statement, yields_pure] at h
  obtain ⟨hversion, roadmap, hfound, s₁, hprepare, s₂, hwrite, -, rfl, rfl⟩ := h
  refine ⟨rfl, roadmap, hversion, List.mem_of_find?_eq_some hfound,
    by simpa using List.find?_some hfound, ?_, ?_⟩
  · intro hactive
    rcases yields_when.mp hprepare with ⟨-, hp⟩ | ⟨hne, -⟩
    · exact (prepareActivation_spec hp).1
    · exact absurd hactive hne
  · rw [← hwrite]
    unfold RoadmapMutation.roadmapsAfter
    rcases yields_when.mp hprepare with ⟨hactive, hp⟩ | ⟨hne, rfl⟩
    · rw [if_pos hactive, (prepareActivation_spec hp).2]
    · rw [if_neg hne]

end Jobtology.Store
