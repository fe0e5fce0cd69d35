import Jobtology.Store.Roadmaps

/-!
# Reviewed revisions of a roadmap

`load_revision` and `preserve_revision_progress` of `roadmap_revisions.py`, and
`apply_roadmap_revision` of `store.py`. The parts of the view that only display a comparison are
left out.
-/

namespace Jobtology.Store

open Jobtology.Base Jobtology.Relational
open Jobtology.Relational.Transaction
open Jobtology.Weekly (StepState WeeklyPlanStep)

/-- `RoadmapRevisionApply`. `src/jobtology_be/application/roadmap_revisions.py:52–60`. -/
structure RoadmapRevisionApply where
  userId : Uuid
  roadmapId : Uuid
  proposalId : Uuid
  expectedProposalHash : String
  expectedRoadmapVersion : Nat
  expectedProfileVersion : Nat
  expectedPlanVersion : Nat
  title : Option String

/-- `RoadmapRevisionApplied`. `src/jobtology_be/application/roadmap_revisions.py:64–69`. -/
structure RoadmapRevisionApplied where
  roadmapId : Uuid
  roadmapVersion : Nat
  state : RoadmapState
  previousRoadmapId : Uuid
  preservedCompletedCount : Nat
  deriving DecidableEq

/-- `_Step`: a step of the current roadmap with the event that completed it.
`src/jobtology_be/infrastructure/persistence/roadmap_revisions.py:36–57`. -/
structure OldStep where
  row : StepRow
  completionEventId : Option Uuid
  completionEvent : Option EventRow
  deriving DecidableEq

/-- The parts of `RevisionContext` that applying a revision reads.
`src/jobtology_be/infrastructure/persistence/roadmap_revisions.py:81–92`. -/
structure RevisionContext where
  roadmap : RoadmapRow
  profileVersion : Nat
  planVersion : Nat
  proposalHash : String
  blockingReasons : List String
  oldAnalysisId : Uuid
  oldReleaseId : Option String
  oldSteps : List OldStep
  oldDocuments : String → Option HistoryStep
  proposedSteps : List ProposalStep
  plan : Option OverrideRow

/-- Steps in the order of their positions. -/
def stepPosition (s t : StepRow) : Prop :=
  s.position < t.position ∨ (s.position = t.position ∧ s.id ≤ t.id)

instance : DecidableRel stepPosition := fun _ _ ↦ inferInstanceAs (Decidable (_ ∨ _))

/-- The step joined with its completion. -/
def Db.oldStep (db : Db) (s : StepRow) : OldStep :=
  let eventId := (lookup (·.stepId) db.inheritances s.id).map (·.originalCompletionEventId)
  ⟨s, eventId, eventId.bind (lookup (·.id) db.events)⟩

/-- The steps of a roadmap by position. -/
def Db.oldSteps (db : Db) (roadmapId : Uuid) : List OldStep :=
  ((db.steps.filter (·.roadmapId = roadmapId)).insertionSort stepPosition).map db.oldStep

/-- The field constraints of `_ProposedStep`. -/
def ProposalStep.Valid (s : ProposalStep) : Prop :=
  s.stepKey ≠ "" ∧ s.stepKey.length ≤ 128 ∧ s.actionId ≠ "" ∧ s.actionId.length ≤ 128 ∧
    1 ≤ s.templateRevision ∧ 0 < s.estimatedHours ∧ ∀ o ∈ s.outcomes, o.Valid

instance (s : ProposalStep) : Decidable s.Valid :=
  inferInstanceAs (Decidable (_ ∧ _ ∧ _ ∧ _ ∧ _ ∧ _ ∧ _))

/-- `_verified_completion`.
`src/jobtology_be/infrastructure/persistence/roadmap_revisions.py:343–354`. -/
def OldStep.verified (s : OldStep) (userId : Uuid) : Prop :=
  ∃ e ∈ s.completionEvent, e.userId = userId ∧ e.kind = .stepCompleted ∧
    e.payload.outcomes = some s.row.outcomes

instance (s : OldStep) (userId : Uuid) : Decidable (s.verified userId) :=
  inferInstanceAs (Decidable (∃ e ∈ s.completionEvent, _))

/-- The document of a step: the history's, else that of the source proposal. -/
def documentOf (roadmap : RoadmapRow) (source : ProposalRow) (key : String) :
    Option HistoryStep :=
  ((lookup (·.1) roadmap.validity.revisionHistorySteps key).map (·.2)).or
    ((lookupLast (·.stepKey) source.steps key).map fun s ↦
      ⟨some s.title, some s.estimatedHours, none, none, none, none⟩)

/-- The hours of a completed step are known. A stored zero counts as absent. -/
def hasCompletedHours (documents : String → Option HistoryStep) (plan : Option OverrideRow)
    (s : OldStep) : Prop :=
  let documented := ((documents s.row.stepKey).bind (·.estimatedHours)).filter (· ≠ 0)
  let saved := (plan.bind fun o ↦ lookup (·.1) o.stepSchedules s.row.id).map (·.2.hours)
  ∃ hours ∈ documented.or saved, 1 ≤ hours

instance (documents : String → Option HistoryStep) (plan : Option OverrideRow) (s : OldStep) :
    Decidable (hasCompletedHours documents plan s) := by
  unfold hasCompletedHours
  infer_instance

/-- Key of a step that only preserves a completion. -/
def completedKey (eventId : Uuid) : String := "completed:" ++ toString eventId

/-- The old steps that are completed. -/
def completedOf (steps : List OldStep) : List OldStep := steps.filter (·.row.state = .completed)

/-- A reason that holds. -/
def reason (c : Prop) [Decidable c] (text : String) : List String := if c then [text] else []

/-- The reasons against a revision. -/
def blockingReasons (roadmap : RoadmapRow) (profile : ProfileRow) (proposal : ProposalRow)
    (analysis : AnalysisRow) (goal : GoalRow) (userId : Uuid) (oldSteps : List OldStep)
    (documents : String → Option HistoryStep) (plan : Option OverrideRow) (now : Int) :
    List String :=
  let completed := completedOf oldSteps
  let keys := proposal.steps.map (·.stepKey)
  let semantics := proposal.steps.map (·.semantics)
  (reason (roadmap.state ≠ .active) "ACTIVE_ROADMAP_REQUIRED" ++
   reason (proposal.id = roadmap.proposalId) "DIFFERENT_PROPOSAL_REQUIRED" ++
   reason (profile.version ≠ proposal.profileVersion ∨
      profile.latestAnalysisId ≠ some proposal.analysisId) "STALE_PROPOSAL" ++
   reason (¬ targetsPinned analysis goal) "ACTIVE_TARGETED_GOAL_REQUIRED" ++
   reason (isActionable proposal.feasibility = false ∨ analysis.status ≠ .ready)
      "PROPOSAL_NOT_ACTIONABLE" ++
   reason (∃ s ∈ completed, ¬ s.verified userId) "COMPLETED_HISTORY_UNVERIFIED" ++
   reason (∃ s ∈ completed, ¬ hasCompletedHours documents plan s) "COMPLETED_HISTORY_UNAVAILABLE" ++
   reason (∃ s ∈ proposal.steps, ∃ key ∈ s.prerequisiteStepKeys, key ∉ keys)
      "PROPOSAL_NOT_ACTIONABLE" ++
   reason (∃ s ∈ proposal.steps, ¬ s.DatesOrdered) "PROPOSAL_NOT_ACTIONABLE" ++
   (match proposal.targetBy with
    | .absent => ["PROPOSAL_DEADLINE_PASSED"]
    | .malformed => ["PROPOSAL_NOT_ACTIONABLE"]
    | .value target => reason (target ≤ now) "PROPOSAL_DEADLINE_PASSED") ++
   reason (¬ (completed.map (·.completionEventId)).Nodup) "DUPLICATE_COMPLETION_HISTORY" ++
   reason (∃ s ∈ completed, s.row.semantics ∉ semantics ∧
      ∃ e ∈ s.completionEventId, completedKey e ∈ keys) "HISTORY_STEP_KEY_CONFLICT" ++
   reason (¬ keys.Nodup) "DUPLICATE_PROPOSAL_STEPS").eraseDups

/-- The proposal, analysis and goal that a revision is planned from. -/
def Db.revisionRow (db : Db) (userId proposalId goalId : Uuid) :
    Option (ProposalRow × AnalysisRow × GoalRow) := do
  let (proposal, analysis) ← db.ownProposal userId proposalId
  let goal ← lookup (·.id) db.goals analysis.goalId
  if goal.userId = userId ∧ analysis.goalId = goalId then return (proposal, analysis, goal)
    else none

/-- `load_revision`. `src/jobtology_be/infrastructure/persistence/roadmap_revisions.py:103–261`. -/
def loadRevision (userId roadmapId proposalId : Uuid) (now : Int) : Txn RevisionContext := do
  let found ← query fun db ↦ db.roadmaps.find? fun r ↦ r.id = roadmapId ∧ r.userId = userId
  let roadmap ← demand found (.missing "roadmap")
  let profile ← query fun db ↦ lookup (·.userId) db.profiles userId
  let profile ← demand profile (.missing "profile")
  let row ← query (·.revisionRow userId proposalId roadmap.goalId)
  let (proposal, analysis, goal) ← demand row (.missing "route proposal")
  let source ← query (·.ownProposal userId roadmap.proposalId)
  let (oldProposal, oldAnalysis) ← demand source (.missing "route proposal")
  let oldSteps ← query (·.oldSteps roadmapId)
  require ((∀ s ∈ oldSteps, ∀ o ∈ s.row.outcomes, o.Valid) ∧ ∀ s ∈ proposal.steps, s.Valid)
    (.conflict "revision step data")
  let plan ← query fun db ↦ lookup (·.roadmapId) db.overrides roadmapId
  let documents := documentOf roadmap oldProposal
  return {
    roadmap := roadmap
    profileVersion := profile.version
    planVersion := (plan.map (·.version)).getD 0
    proposalHash := proposal.proposalHash
    blockingReasons := blockingReasons roadmap profile proposal analysis goal userId oldSteps
      documents plan now
    oldAnalysisId := oldAnalysis.id
    oldReleaseId := oldAnalysis.releaseId
    oldSteps := oldSteps
    oldDocuments := documents
    proposedSteps := proposal.steps
    plan := plan }

/-! ### Preserving progress -/

/-- What the loop over the old steps collects. -/
structure PreservedProgress where
  nextPosition : Nat
  preserved : Nat
  carried : Nat
  matchedCompleted : List Semantics
  histories : List (String × HistoryStep)
  snapshots : List (Uuid × WeeklyPlanStep)

/-- The proposed step with the semantics of an old one. -/
def RevisionContext.matched (context : RevisionContext) (s : OldStep) : Option ProposalStep :=
  lookupLast (·.semantics) context.proposedSteps s.row.semantics

/-- Semantics of the completed old steps. -/
def RevisionContext.completedSemantics (context : RevisionContext) : List Semantics :=
  (completedOf context.oldSteps).map (·.row.semantics)

/-- The history document of a preserved step; members that are set stay. -/
def RevisionContext.history (context : RevisionContext) (s : OldStep) : HistoryStep :=
  let document := (context.oldDocuments s.row.stepKey).getD ⟨none, none, none, none, none, none⟩
  { title := document.title
    estimatedHours := document.estimatedHours
    sourceStepId := document.sourceStepId.or (some s.row.id)
    sourceRoadmapId := document.sourceRoadmapId.or (some context.roadmap.id)
    sourceAnalysisId := document.sourceAnalysisId.or (some context.oldAnalysisId)
    sourceReleaseId := document.sourceReleaseId.or (some context.oldReleaseId) }

/-- Keep a started step started when the proposal still has it. -/
def retainStarted (context : RevisionContext) (newId : String → Option Uuid) (s : OldStep) :
    Txn Unit :=
  match context.matched s with
  | none => pure ()
  | some proposed =>
    if s.row.state = .inProgress ∧ s.row.semantics ∉ context.completedSemantics then do
      let id ← demand (newId proposed.stepKey) .keyError
      statement fun db ↦ { db with
        steps := update (·.id = id) (fun r ↦ { r with state := .inProgress }) db.steps }
    else pure ()

/-- Complete the proposed step with the semantics of a completed one. -/
def preserveMatched (id : Uuid) (s : OldStep) : Txn Unit := do
  statement fun db ↦ { db with
    steps := update (·.id = id) (fun r ↦ { r with
      state := .completed
      plannedStart := s.row.plannedStart
      plannedEnd := s.row.plannedEnd }) db.steps }
  let eventId ← demand s.completionEventId .database
  statement fun db ↦ { db with
    inheritances := update (·.stepId = id)
      (fun i ↦ { i with originalCompletionEventId := eventId }) db.inheritances }

/-- Carry a completed step over that the proposal does not have. -/
def preserveCarried (roadmapId id : Uuid) (position : Nat) (eventId : Uuid) (s : OldStep) :
    Txn Unit := do
  statement fun db ↦ { db with
    steps := db.steps ++ [{ s.row with
      id := id, roadmapId := roadmapId, stepKey := completedKey eventId, position := position
      state := .completed }] }
  statement fun db ↦ { db with inheritances := db.inheritances ++ [⟨id, eventId⟩] }

/-- Record the history and the saved schedule of a preserved step. -/
def PreservedProgress.record (progress : PreservedProgress) (context : RevisionContext)
    (id : Uuid) (key : String) (s : OldStep) : PreservedProgress :=
  let saved := context.plan.bind fun o ↦ (lookup (·.1) o.stepSchedules s.row.id).map (·.2)
  { progress with
    preserved := progress.preserved + 1
    histories := setEntry key (context.history s) progress.histories
    snapshots := match saved with
      | none => progress.snapshots
      | some snapshot =>
        setEntry id { snapshot with stepId := id, state := .completed } progress.snapshots }

/-- Preserve one completed old step. -/
def preserveCompleted (context : RevisionContext) (roadmapId : Uuid)
    (newId : String → Option Uuid) (carriedId : Nat → Uuid) (progress : PreservedProgress)
    (s : OldStep) : Txn PreservedProgress :=
  match (context.matched s).filter fun _ ↦ s.row.semantics ∉ progress.matchedCompleted with
  | some proposed => do
    let id ← demand (newId proposed.stepKey) .keyError
    preserveMatched id s
    return { progress with
      matchedCompleted := s.row.semantics :: progress.matchedCompleted
      }.record context id proposed.stepKey s
  | none => do
    let eventId ← demand s.completionEventId .database
    preserveCarried roadmapId (carriedId progress.carried) progress.nextPosition eventId s
    return { progress with
      nextPosition := progress.nextPosition + 1
      carried := progress.carried + 1
      }.record context (carriedId progress.carried) (completedKey eventId) s

/-- One round of the loop over the old steps. -/
def preserveStep (context : RevisionContext) (roadmapId : Uuid) (newId : String → Option Uuid)
    (carriedId : Nat → Uuid) (progress : PreservedProgress) (s : OldStep) :
    Txn PreservedProgress := do
  retainStarted context newId s
  if s.row.state = .completed then
    preserveCompleted context roadmapId newId carriedId progress s
  else return progress

/-- `preserve_revision_progress`. The ids of carried steps are drawn in order.
`src/jobtology_be/infrastructure/persistence/roadmap_revisions.py:264–340`. -/
def preserveRevisionProgress (context : RevisionContext) (roadmapId : Uuid)
    (carriedId : Nat → Uuid) (now : Int) : Txn Nat := do
  let rows ← query fun db ↦ db.steps.filter (·.roadmapId = roadmapId)
  let newId := fun key ↦ (lookupLast (·.stepKey) rows key).map (·.id)
  let progress ← context.oldSteps.foldlM (preserveStep context roadmapId newId carriedId)
    ⟨rows.length, 0, 0, [], [], []⟩
  statement fun db ↦ { db with
    roadmaps := update (·.id = roadmapId) (fun r ↦ { r with
      validity := ⟨.absent, .absent, some context.roadmap.id, progress.histories⟩ }) db.roadmaps }
  when (progress.snapshots ≠ []) (statement fun db ↦ { db with
    overrides := db.overrides ++
      [⟨roadmapId, 10, [], [], [], 1, false, progress.snapshots, now⟩] })
  return progress.preserved

/-! ### `apply_roadmap_revision` -/

/-- The account check of a write: with Google accounts only, `_lock_google_account`.
`src/jobtology_be/infrastructure/persistence/store.py:939–958`. -/
def lockAccount (googleAccountsOnly : Bool) (userId : Uuid) : Txn Unit := do
  let owner ← query fun db ↦ db.users.find? fun u ↦ u.id = userId ∧ u.isActive = true ∧
    (googleAccountsOnly = true → db.identities.any (·.userId = userId) = true)
  require (owner ≠ none) (.missing "account")
  let version ← query (·.profileVersion userId)
  require (googleAccountsOnly = true → version ≠ none) (.missing "profile")

/-- The ids that a revision draws. -/
structure RevisionDraw where
  roadmapId : Uuid
  stepId : Nat → Uuid
  carriedId : Nat → Uuid

/-- `apply_roadmap_revision`. `src/jobtology_be/infrastructure/persistence/store.py:676–714`. -/
def applyRoadmapRevision (googleAccountsOnly : Bool) (request : RoadmapRevisionApply)
    (draw : RevisionDraw) (now : Int) : Txn RoadmapRevisionApplied := do
  lockAccount googleAccountsOnly request.userId
  let context ← loadRevision request.userId request.roadmapId request.proposalId now
  require (context.roadmap.version = request.expectedRoadmapVersion ∧
      context.profileVersion = request.expectedProfileVersion ∧
      context.planVersion = request.expectedPlanVersion ∧
      context.proposalHash = request.expectedProposalHash)
    (.conflict "roadmap revision version")
  require (context.blockingReasons = [])
    (.conflict ("roadmap revision: " ++ ",".intercalate context.blockingReasons))
  let created ← createRoadmap
    { userId := request.userId, roadmapId := draw.roadmapId, goalId := context.roadmap.goalId
      proposalId := request.proposalId
      title := (request.title.filter (· ≠ "")).getD context.roadmap.title
      profileVersion := request.expectedProfileVersion } draw.stepId now
  let preserved ← preserveRevisionProgress context created.roadmapId draw.carriedId now
  let activated ← mutateRoadmap
    { userId := request.userId, roadmapId := created.roadmapId
      expectedRoadmapVersion := created.version
      expectedProfileVersion := request.expectedProfileVersion, state := .active
      title := none } now
  return ⟨activated.roadmapId, activated.version, activated.state, request.roadmapId, preserved⟩

end Jobtology.Store
