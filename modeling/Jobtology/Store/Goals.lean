import Jobtology.Store.RecomputeQueue

/-!
# Goals

`mutate_goal` of `store.py` and `delete_goal` of `goal_deletion.py`.
-/

namespace Jobtology.Store

open Jobtology.Base Jobtology.Relational
open Jobtology.Relational.Transaction

/-- `GoalMutation`. -/
structure GoalMutation where
  userId : Uuid
  expectedProfileVersion : Nat
  goalId : Option Uuid
  goalMode : GoalMode
  occupationId : Option String
  targetBy : Int
  timezone : String
  status : GoalStatus

/-- `GoalSnapshot`. -/
structure GoalSnapshot where
  goalId : Uuid
  userId : Uuid
  status : GoalStatus
  deriving DecidableEq

/-- The values that a goal mutation draws. -/
structure GoalDraw where
  goalId : Uuid
  eventId : Uuid
  enqueue : EnqueueDraw

/-- The goal that the mutation writes. -/
def GoalMutation.row (request : GoalMutation) (goalId : Uuid) : GoalRow where
  id := goalId
  userId := request.userId
  goalMode := request.goalMode
  occupationId := request.occupationId
  targetBy := request.targetBy
  timezone := request.timezone
  status := request.status

/-- The goal before the mutation. -/
def GoalMutation.previous (request : GoalMutation) (db : Db) : Option GoalRow :=
  request.goalId.bind fun id ↦ db.goals.find? fun g ↦ g.id = id ∧ g.userId = request.userId

/-- The mutation ends what the goal's roadmap was planned for. -/
def GoalMutation.retargets (request : GoalMutation) (previous : GoalRow) : Prop :=
  (previous.goalMode, previous.occupationId) ≠ (request.goalMode, request.occupationId) ∨
    (previous.status = .active ∧ request.status ≠ .active)

instance (request : GoalMutation) (previous : GoalRow) : Decidable (request.retargets previous) :=
  inferInstanceAs (Decidable (_ ∨ _))

/-- Archive the active roadmap of a goal. -/
def archiveGoalRoadmap (userId goalId : Uuid) : Txn Unit :=
  statement fun db ↦ { db with
    roadmaps := update (fun r ↦ r.userId = userId ∧ r.goalId = goalId ∧ r.state = .active)
      (fun r ↦ { r with state := .archived, version := r.version + 1 }) db.roadmaps }

/-- Insert the goal, or update the row of an existing one. -/
def writeGoal (request : GoalMutation) (goalId : Uuid) : Txn Unit :=
  if request.goalId = none then
    statement fun db ↦ { db with goals := db.goals ++ [request.row goalId] }
  else do
    let count ← query fun db ↦
      db.goals.countP fun g ↦ g.id = goalId ∧ g.userId = request.userId
    statement fun db ↦ { db with
      goals := update (fun g ↦ g.id = goalId ∧ g.userId = request.userId)
        (fun _ ↦ request.row goalId) db.goals }
    require (count = 1) (.missing "goal")

/-- Queue the follow-up of a goal mutation: for the goal, or for the goal that stays active. -/
def enqueueAfterMutation (carryForward : CarryForward) (request : GoalMutation) (goalId : Uuid)
    (draw : GoalDraw) : Txn Unit :=
  if request.status = .active then
    enqueueForGoal carryForward request.userId (request.expectedProfileVersion + 1) draw.eventId
      goalId draw.enqueue
  else
    enqueueForActiveUser carryForward request.userId (request.expectedProfileVersion + 1)
      draw.eventId draw.enqueue

/-- `mutate_goal`. `src/jobtology_be/infrastructure/persistence/store.py:170–263`. -/
def mutateGoal (carryForward : CarryForward) (request : GoalMutation) (draw : GoalDraw) :
    Txn GoalSnapshot := do
  let goalId := request.goalId.getD draw.goalId
  let version ← query (·.profileVersion request.userId)
  require (version = some request.expectedProfileVersion) (.conflict "profile")
  let previous ← query request.previous
  require (request.goalId = none ∨ previous ≠ none) (.missing "goal")
  let otherActive ← query fun db ↦ db.goals.find? fun g ↦
    g.userId = request.userId ∧ g.status = .active ∧ g.id ≠ goalId
  require (request.status = .active → otherActive = none) (.conflict "goal")
  bumpProfile request.userId request.expectedProfileVersion
  writeGoal request goalId
  when (∃ p ∈ previous, request.retargets p) (archiveGoalRoadmap request.userId goalId)
  appendEvent ⟨draw.eventId, request.userId, goalId, request.expectedProfileVersion + 1,
    .goalUpdated, ⟨none, none⟩⟩
  enqueueAfterMutation carryForward request goalId draw
  return ⟨goalId, request.userId, request.status⟩

/-- The goals after a mutation. -/
def GoalMutation.goalsAfter (request : GoalMutation) (goalId : Uuid) (goals : List GoalRow) :
    List GoalRow :=
  if request.goalId = none then goals ++ [request.row goalId]
  else update (fun g ↦ g.id = goalId ∧ g.userId = request.userId) (fun _ ↦ request.row goalId)
    goals

/-- A goal is inserted or updated. -/
theorem writeGoal_spec {request : GoalMutation} {goalId : Uuid} {s t : Database} {u : Unit}
    (h : Yields (writeGoal request goalId) s u t) :
    t.1 = { s.1 with goals := request.goalsAfter goalId s.1.goals } := by
  unfold writeGoal at h
  unfold GoalMutation.goalsAfter
  split at h
  · next hn =>
    rw [if_pos hn]
    exact (yields_statement.mp h).symm
  · next hn =>
    rw [if_neg hn]
    simp only [yields_query_bind, yields_seq, yields_statement, yields_require] at h
    obtain ⟨_, ht, -, rfl⟩ := h
    exact ht.symm

/-! ### Deletion -/

/-- `GoalDelete`. -/
structure GoalDelete where
  userId : Uuid
  goalId : Uuid
  expectedProfileVersion : Nat

/-- `ProfileSnapshot`. -/
structure ProfileSnapshot where
  userId : Uuid
  version : Nat
  deriving DecidableEq

/-- The ids of a goal's records, read before anything is deleted. -/
structure GoalRecords where
  analysisIds : List Uuid
  proposalIds : List Uuid
  traceIds : List Uuid
  roadmapIds : List Uuid
  stepIds : List Uuid
  requestIds : List Uuid

/-- The events of a goal: about it, about its steps or naming it. -/
def isGoalEvent (userId goalId : Uuid) (stepIds : List Uuid) (e : EventRow) : Prop :=
  e.userId = userId ∧
    (e.aggregateId = goalId ∨ e.aggregateId ∈ stepIds ∨ e.payload.goalId = some goalId)

instance (userId goalId : Uuid) (stepIds : List Uuid) (e : EventRow) :
    Decidable (isGoalEvent userId goalId stepIds e) :=
  inferInstanceAs (Decidable (_ ∧ _))

/-- The requests of a goal. A context that names a goal takes precedence over the event. -/
def isGoalRequest (db : Db) (userId goalId : Uuid) (analysisIds proposalIds stepIds : List Uuid)
    (r : RequestRow) : Prop :=
  r.userId = userId ∧
    ((∃ a ∈ r.resultingAnalysisId, a ∈ analysisIds) ∨ (∃ p ∈ r.proposalId, p ∈ proposalIds) ∨
      (∃ c ∈ db.contexts, c.requestId = r.id ∧ c.payload.goalId = some goalId) ∨
      ((∀ c ∈ db.contexts, c.requestId = r.id → c.payload.goalId = none) ∧
        ∃ e ∈ db.events, isGoalEvent userId goalId stepIds e ∧ e.id = r.triggerEventId))

instance (db : Db) (userId goalId : Uuid) (analysisIds proposalIds stepIds : List Uuid)
    (r : RequestRow) :
    Decidable (isGoalRequest db userId goalId analysisIds proposalIds stepIds r) :=
  inferInstanceAs (Decidable (_ ∧ (_ ∨ _ ∨ _ ∨ _)))

/-- The records that are deleted with a goal. -/
def goalRecords (db : Db) (userId goalId : Uuid) : GoalRecords :=
  let analysisIds := (db.analyses.filter fun a ↦ a.goalId = goalId ∧ a.userId = userId).map (·.id)
  let proposals := db.proposals.filter fun p ↦ p.analysisId ∈ analysisIds ∧ p.userId = userId
  let proposalIds := proposals.map (·.id)
  let roadmapIds := (db.roadmaps.filter fun r ↦ r.goalId = goalId ∧ r.userId = userId).map (·.id)
  let stepIds := (db.steps.filter fun s ↦ s.roadmapId ∈ roadmapIds).map (·.id)
  { analysisIds, proposalIds, roadmapIds, stepIds
    traceIds := proposals.map (·.decisionTraceId)
    requestIds := (db.requests.filter fun r ↦
      isGoalRequest db userId goalId analysisIds proposalIds stepIds r).map (·.id) }

/-- Delete the jobs of the requests, and unlinked ones that name a request in their payload. -/
def isRequestJob (requestIds : List Uuid) (j : JobRow) : Prop :=
  (∃ r ∈ j.recomputeRequestId, r ∈ requestIds) ∨
    (j.recomputeRequestId = none ∧ j.kind = .recompute ∧ ∃ r ∈ j.payloadRequestId, r ∈ requestIds)

instance (requestIds : List Uuid) (j : JobRow) : Decidable (isRequestJob requestIds j) :=
  inferInstanceAs (Decidable (_ ∨ _))

/-- The deletions of a goal's records, children first. -/
def deleteGoalRecords (records : GoalRecords) : Txn Unit := do
  statement fun db ↦ { db with inheritances := db.inheritances.filter (·.stepId ∉ records.stepIds) }
  statement fun db ↦ { db with
    dependencies := db.dependencies.filter (·.roadmapId ∉ records.roadmapIds) }
  statement fun db ↦ { db with overrides := db.overrides.filter (·.roadmapId ∉ records.roadmapIds) }
  statement fun db ↦ { db with steps := db.steps.filter (·.roadmapId ∉ records.roadmapIds) }
  statement fun db ↦ { db with roadmaps := db.roadmaps.filter (·.id ∉ records.roadmapIds) }
  statement fun db ↦ { db with jobs := db.jobs.filter (¬ isRequestJob records.requestIds ·) }
  statement fun db ↦ { db with contexts := db.contexts.filter (·.requestId ∉ records.requestIds) }
  statement fun db ↦ { db with requests := db.requests.filter (·.id ∉ records.requestIds) }
  statement fun db ↦ { db with proposals := db.proposals.filter (·.id ∉ records.proposalIds) }
  statement fun db ↦ { db with analyses := db.analyses.filter (·.id ∉ records.analysisIds) }

/-- The traces of the goal's proposals that no other proposal shares. -/
def unsharedTraces (db : Db) (userId : Uuid) (traceIds : List Uuid) : List Uuid :=
  (db.traces.filter fun t ↦ t.id ∈ traceIds ∧ t.userId = userId ∧
    ∀ p ∈ db.proposals, p.decisionTraceId ≠ t.id).map (·.id)

/-- The deleted ids that a stored response can name. -/
def GoalRecords.references (records : GoalRecords) (goalId : Uuid) (deletedTraceIds : List Uuid) :
    ResponseField → List Uuid
  | .goalId => [goalId]
  | .analysisId => records.analysisIds
  | .resultingAnalysisId => records.analysisIds
  | .proposalId => records.proposalIds
  | .decisionTraceId => deletedTraceIds
  | .roadmapId => records.roadmapIds
  | .recomputeRequestId => records.requestIds

/-- The response names a deleted record. -/
def ResponseDocument.namesAny (response : ResponseDocument)
    (references : ResponseField → List Uuid) : Prop :=
  ∃ entry ∈ response.named, entry.2 ∈ references entry.1

instance (response : ResponseDocument) (references : ResponseField → List Uuid) :
    Decidable (response.namesAny references) :=
  inferInstanceAs (Decidable (∃ entry ∈ response.named, _))

/-- The record of the user keeps a response that names a deleted record. -/
def isGoalResponse (userId : Uuid) (references : ResponseField → List Uuid) (r : IdempotencyRow) :
    Prop :=
  r.userId = userId ∧ ∃ response ∈ r.response, response.2.namesAny references

instance (userId : Uuid) (references : ResponseField → List Uuid) :
    DecidablePred (isGoalResponse userId references) :=
  fun _ ↦ inferInstanceAs (Decidable (_ ∧ _))

/-- Delete the traces of the goal's proposals, and the responses that name what is deleted. -/
def deleteGoalTraces (request : GoalDelete) (records : GoalRecords) : Txn Unit := do
  let deleted ← query (unsharedTraces · request.userId records.traceIds)
  statement fun db ↦ { db with traces := db.traces.filter (·.id ∉ deleted) }
  let references := records.references request.goalId deleted
  statement fun db ↦ { db with
    idempotency := db.idempotency.filter (¬ isGoalResponse request.userId references ·) }

/-- Queue the follow-up of a deletion for the goal that stays active. -/
def enqueueAfterDeletion (carryForward : CarryForward) (userId : Uuid) (version : Nat)
    (eventId : Uuid) (draw : EnqueueDraw) : Txn Unit := do
  let active ← query fun db ↦ db.goals.find? fun g ↦ g.userId = userId ∧ g.status = .active
  match active with
  | some goal => enqueueForGoal carryForward userId version eventId goal.id draw
  | none => pure ()

/-- `delete_goal`. `src/jobtology_be/infrastructure/persistence/goal_deletion.py:28–150`,
`src/jobtology_be/infrastructure/persistence/store.py:167–168`. -/
def deleteGoal (carryForward : CarryForward) (request : GoalDelete) (eventId : Uuid)
    (draw : EnqueueDraw) : Txn ProfileSnapshot := do
  let owned ← query fun db ↦
    db.goals.any fun g ↦ g.id = request.goalId ∧ g.userId = request.userId
  require (owned = true) (.missing "goal")
  let version ← query (·.profileVersion request.userId)
  require (version = some request.expectedProfileVersion) (.conflict "profile")
  let records ← query (goalRecords · request.userId request.goalId)
  deleteGoalRecords records
  deleteGoalTraces request records
  statement fun db ↦ { db with goals := db.goals.filter (·.id ≠ request.goalId) }
  let nextVersion := request.expectedProfileVersion + 1
  statement fun db ↦ { db with
    profiles := update (·.userId = request.userId)
      (fun p ↦ { p with
        version := nextVersion
        latestAnalysisId := p.latestAnalysisId.filter (· ∉ records.analysisIds) }) db.profiles }
  appendEvent ⟨eventId, request.userId, request.goalId, nextVersion, .goalDeleted, ⟨none, none⟩⟩
  enqueueAfterDeletion carryForward request.userId nextVersion eventId draw
  return ⟨request.userId, nextVersion⟩

/-- The database without the records of a goal. -/
def Db.withoutRecords (db : Db) (records : GoalRecords) : Db := { db with
  inheritances := db.inheritances.filter (·.stepId ∉ records.stepIds)
  dependencies := db.dependencies.filter (·.roadmapId ∉ records.roadmapIds)
  overrides := db.overrides.filter (·.roadmapId ∉ records.roadmapIds)
  steps := db.steps.filter (·.roadmapId ∉ records.roadmapIds)
  roadmaps := db.roadmaps.filter (·.id ∉ records.roadmapIds)
  jobs := db.jobs.filter (¬ isRequestJob records.requestIds ·)
  contexts := db.contexts.filter (·.requestId ∉ records.requestIds)
  requests := db.requests.filter (·.id ∉ records.requestIds)
  proposals := db.proposals.filter (·.id ∉ records.proposalIds)
  analyses := db.analyses.filter (·.id ∉ records.analysisIds) }

/-- The traces that are deleted with a goal. -/
def GoalDelete.traces (request : GoalDelete) (db : Db) : List Uuid :=
  let records := goalRecords db request.userId request.goalId
  unsharedTraces (db.withoutRecords records) request.userId records.traceIds

/-- The profile after the deletion. -/
def GoalDelete.profile (request : GoalDelete) (analysisIds : List Uuid) (p : ProfileRow) :
    ProfileRow :=
  { p with
    version := request.expectedProfileVersion + 1
    latestAnalysisId := p.latestAnalysisId.filter (· ∉ analysisIds) }

/-- The event of the deletion. -/
def GoalDelete.event (request : GoalDelete) (eventId : Uuid) : EventRow :=
  ⟨eventId, request.userId, request.goalId, request.expectedProfileVersion + 1, .goalDeleted,
    ⟨none, none⟩⟩

/-- The database without a goal, before the follow-up is queued. -/
def Db.withoutGoal (db : Db) (request : GoalDelete) (eventId : Uuid) : Db :=
  let records := goalRecords db request.userId request.goalId
  { db.withoutRecords records with
    traces := db.traces.filter (·.id ∉ request.traces db)
    idempotency := db.idempotency.filter
      (¬ isGoalResponse request.userId (records.references request.goalId (request.traces db)) ·)
    goals := db.goals.filter (·.id ≠ request.goalId)
    profiles := update (·.userId = request.userId) (request.profile records.analysisIds) db.profiles
    events := db.events ++ [request.event eventId] }

private theorem deleteGoalRecords_spec {records : GoalRecords} {s t : Database} {u : Unit}
    (h : Yields (deleteGoalRecords records) s u t) : t.1 = s.1.withoutRecords records := by
  unfold deleteGoalRecords at h
  simp only [yields_seq, yields_statement] at h
  obtain ⟨_, h₁, _, h₂, _, h₃, _, h₄, _, h₅, _, h₆, _, h₇, _, h₈, _, h₉, h₁₀⟩ := h
  simp only [← h₁] at h₂
  simp only [← h₂] at h₃
  simp only [← h₃] at h₄
  simp only [← h₄] at h₅
  simp only [← h₅] at h₆
  simp only [← h₆] at h₇
  simp only [← h₇] at h₈
  simp only [← h₈] at h₉
  simp only [← h₉] at h₁₀
  exact h₁₀.symm

private theorem enqueueAfterDeletion_frame (carryForward : CarryForward) (userId : Uuid)
    (version : Nat) (eventId : Uuid) (draw : EnqueueDraw) :
    Within (EnqueueFrame draw.requestId)
      (enqueueAfterDeletion carryForward userId version eventId draw) := by
  refine .bind (within_query _) fun active ↦ ?_
  cases active with
  | some goal => exact enqueueForGoal_frame _ _ _ _ _ _
  | none => exact .pure ()

/-- What a goal deletion that succeeds writes. -/
structure GoalDeleted (carryForward : CarryForward) (request : GoalDelete) (eventId : Uuid)
    (draw : EnqueueDraw) (s t : Database) : Prop where
  owned : ∃ g ∈ s.1.goals, g.id = request.goalId ∧ g.userId = request.userId
  version : s.1.profileVersion request.userId = some request.expectedProfileVersion
  written : ∃ u : Database, u.1 = s.1.withoutGoal request eventId ∧
    Yields (enqueueAfterDeletion carryForward request.userId (request.expectedProfileVersion + 1)
      eventId draw) u () t

/-- What a deletion that succeeds leaves. -/
theorem deleteGoal_spec {carryForward : CarryForward} {request : GoalDelete} {eventId : Uuid}
    {draw : EnqueueDraw} {s t : Database} {snapshot : ProfileSnapshot}
    (h : Yields (deleteGoal carryForward request eventId draw) s snapshot t) :
    GoalDeleted carryForward request eventId draw s t := by
  unfold deleteGoal deleteGoalTraces at h
  simp only [yields_query_bind, ↓yields_require_bind, yields_seq, yields_pure] at h
  obtain ⟨howned, hversion, s₁, hrecords, s₂, ⟨s₀, htraces, hresponses⟩, s₃, hgoals, s₄, hprofile,
    s₅, hevent, s₆, hqueue, -, rfl⟩ := h
  have h₁ := deleteGoalRecords_spec hrecords
  have h₀ := yields_statement.mp htraces
  have h₂ := yields_statement.mp hresponses
  have h₃ := yields_statement.mp hgoals
  have h₄ := yields_statement.mp hprofile
  have h₅ := yields_statement.mp hevent
  simp only [h₁] at h₀ h₂
  simp only [← h₀] at h₂
  simp only [← h₂] at h₃
  simp only [← h₃] at h₄
  simp only [← h₄] at h₅
  exact {
    owned := by simpa using howned
    version := hversion
    written := ⟨s₅, h₅.symm, hqueue⟩ }

/-- The follow-up of a deletion writes requests, contexts and jobs only. -/
theorem GoalDeleted.frame {carryForward : CarryForward} {request : GoalDelete} {eventId : Uuid}
    {draw : EnqueueDraw} {s t : Database}
    (h : GoalDeleted carryForward request eventId draw s t) :
    t.1 = { s.1.withoutGoal request eventId with
      requests := t.1.requests, contexts := t.1.contexts, jobs := t.1.jobs } ∧
    RequestsKept (some draw.requestId) s.1 t.1 := by
  obtain ⟨u, hu, hqueue⟩ := h.written
  have hframe := enqueueAfterDeletion_frame _ _ _ _ _ _ _ _ hqueue
  have hothers := hframe.others
  simp only [hu] at hothers
  refine ⟨hothers, (requestsKept_of_subset fun r hr ↦ ?_).trans hframe.requests⟩
  rw [hu] at hr
  exact List.mem_of_mem_filter hr

end Jobtology.Store
