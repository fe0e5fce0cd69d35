import Jobtology.Store.Session
import Mathlib.Data.List.Sort

/-!
# Enqueueing recomputation

`_persist_recompute_request` of `outbox.py` and the enqueue operations of
`configured_recompute.py`. A request with a context gets an outbox job; one without is stored as
failed.
-/

namespace Jobtology.Store

open Jobtology.Base Jobtology.Relational
open Jobtology.Relational.Transaction

/-- `RecomputeRequestCreate`. -/
structure RecomputeRequestCreate where
  userId : Uuid
  profileVersion : Nat
  triggerEventId : Uuid
  dedupeKey : String
  context : Option RecomputeContext

/-- `RecomputeRequestSnapshot`. -/
structure RecomputeRequestSnapshot where
  requestId : Uuid
  state : RequestState
  deriving DecidableEq

/-- The values that one enqueue draws: the ids of the request and the job, and the time. -/
structure EnqueueDraw where
  requestId : Uuid
  jobId : Uuid
  now : Int

/-- `MISSING_RECOMPUTE_CONTEXT`. -/
def missingRecomputeContext : String := "MISSING_RECOMPUTE_CONTEXT"

/-- Insert a request unless its id or its trigger is taken. -/
def insertRequest (row : RequestRow) : Txn Unit := do
  let taken ← query fun db ↦ db.requests.any fun r ↦ r.id = row.id ∨
    (r.userId = row.userId ∧ r.profileVersion = row.profileVersion ∧
      r.triggerEventId = row.triggerEventId)
  if taken then pure () else statement fun db ↦ { db with requests := db.requests ++ [row] }

/-- Insert a context unless the request has one. -/
def insertContext (row : ContextRow) : Txn Unit := do
  let taken ← query fun db ↦ db.contexts.any (·.requestId = row.requestId)
  if taken then pure () else statement fun db ↦ { db with contexts := db.contexts ++ [row] }

/-- Insert the job of a request. A job with the same deduplication key has to be the request's
own. -/
def insertJob (row : JobRow) (requestId : Uuid) : Txn Unit := do
  let taken ← query fun db ↦ db.jobs.any fun j ↦ j.id = row.id ∨
    j.recomputeRequestId = some requestId ∨ j.dedupeKey = row.dedupeKey
  if taken then do
    let existing ← query fun db ↦ (lookup (·.dedupeKey) db.jobs row.dedupeKey).bind
      (·.recomputeRequestId)
    require (existing = some requestId) (.conflict "recompute dedupe")
  else statement fun db ↦ { db with jobs := db.jobs ++ [row] }

/-- The context and the job of a pending request. -/
def enqueueJob (request : RecomputeRequestCreate) (row : RequestRow) (draw : EnqueueDraw) :
    Txn Unit :=
  match request.context with
  | none => pure ()
  | some context =>
    if row.state = .pending then do
      insertContext ⟨row.id, context⟩
      insertJob
        { id := draw.jobId, kind := .recompute, payloadRequestId := some row.id
          recomputeRequestId := some row.id, dedupeKey := request.dedupeKey, state := .ready
          attemptCount := 0, availableAt := draw.now, leaseUntil := none, leaseToken := none }
        row.id
    else pure ()

/-- The request that a trigger created. -/
def requestOf (db : Db) (request : RecomputeRequestCreate) : Option RequestRow :=
  db.requests.find? fun r ↦ r.userId = request.userId ∧
    r.profileVersion = request.profileVersion ∧ r.triggerEventId = request.triggerEventId

/-- `_persist_recompute_request`. `src/jobtology_be/infrastructure/persistence/outbox.py:62–116`. -/
def persistRecomputeRequest (request : RecomputeRequestCreate) (draw : EnqueueDraw) :
    Txn RecomputeRequestSnapshot := do
  insertRequest
    { id := draw.requestId, userId := request.userId, profileVersion := request.profileVersion
      triggerEventId := request.triggerEventId
      state := if request.context.isSome then .pending else .failed
      resultingAnalysisId := none, proposalId := none, autoRoadmapPending := false
      errorCode := if request.context.isSome then none else some missingRecomputeContext
      createdAt := draw.now }
  let found ← query (requestOf · request)
  let row ← demand found (.missing "recompute request")
  enqueueJob request row draw
  return ⟨row.id, row.state⟩

/-- `_enqueue_recompute`: without a context the request is stored as failed.
`src/jobtology_be/infrastructure/persistence/outbox.py:48–60`. -/
def enqueueRecompute (userId : Uuid) (profileVersion : Nat) (eventId : Uuid)
    (draw : EnqueueDraw) : Txn Unit := do
  let _ ← persistRecomputeRequest
    { userId := userId, profileVersion := profileVersion, triggerEventId := eventId
      dedupeKey := "missing-context:" ++ toString eventId, context := none } draw

/-- `carry_forward_recompute_context` with the capabilities and constraints it is called with:
from the last context of the goal, the goal and the new profile version. It gives nothing when
the context cannot be rebuilt. -/
abbrev CarryForward := Db → RecomputeContext → GoalRow → Nat → Option RecomputeContext

/-- Contexts of the later profile version first, of the later request among these. -/
def newerRequest (r s : RequestRow × RecomputeContext) : Prop :=
  s.1.profileVersion < r.1.profileVersion ∨
    (r.1.profileVersion = s.1.profileVersion ∧ s.1.createdAt ≤ r.1.createdAt)

instance : DecidableRel newerRequest :=
  fun _ _ ↦ inferInstanceAs (Decidable (_ ∨ _))

/-- The requests with a context, joined. -/
def requestsWithContext (db : Db) : List (RequestRow × RecomputeContext) :=
  db.contexts.filterMap fun c ↦ (lookup (·.id) db.requests c.requestId).map (·, c.payload)

/-- The last usable context of the goal before a profile version. -/
def carriedContext (db : Db) (userId : Uuid) (profileVersion : Nat) (goalId : Uuid) :
    Option RecomputeContext :=
  (((requestsWithContext db).filter fun r ↦ r.1.userId = userId ∧
    r.1.state ∈ [.pending, .running, .ready] ∧ r.1.profileVersion < profileVersion ∧
    r.2.goalId = some goalId).insertionSort newerRequest).head?.map (·.2)

/-- The context for a new request: the goal has to be active with an occupation. -/
def configuredContext (carryForward : CarryForward) (db : Db) (userId : Uuid)
    (profileVersion : Nat) (goalId : Uuid) : Option RecomputeContext := do
  let context ← carriedContext db userId profileVersion goalId
  let goal ← db.goals.find? fun g ↦ g.id = goalId ∧ g.userId = userId
  if goal.status = .active ∧ goal.occupationId ≠ none then
    carryForward db context goal profileVersion
  else none

/-- `enqueue_for_goal`.
`src/jobtology_be/infrastructure/persistence/configured_recompute.py:52–119`. -/
def enqueueForGoal (carryForward : CarryForward) (userId : Uuid) (profileVersion : Nat)
    (eventId goalId : Uuid) (draw : EnqueueDraw) : Txn Unit := do
  let context ← query (configuredContext carryForward · userId profileVersion goalId)
  match context with
  | none => enqueueRecompute userId profileVersion eventId draw
  | some context => do
    let _ ← persistRecomputeRequest
      { userId := userId, profileVersion := profileVersion, triggerEventId := eventId
        dedupeKey := "configured-context:" ++ toString eventId, context := some context } draw

/-- `enqueue_for_active_user`.
`src/jobtology_be/infrastructure/persistence/configured_recompute.py:34–50`. -/
def enqueueForActiveUser (carryForward : CarryForward) (userId : Uuid) (profileVersion : Nat)
    (eventId : Uuid) (draw : EnqueueDraw) : Txn Unit := do
  let active ← query fun db ↦ db.goals.filter fun g ↦ g.userId = userId ∧ g.status = .active
  match active with
  | [goal] => enqueueForGoal carryForward userId profileVersion eventId goal.id draw
  | _ => enqueueRecompute userId profileVersion eventId draw

/-! ### What enqueueing writes -/

/-- Every request was there before with its state, and was flagged if it is, or it is new under
the drawn id and waits for no roadmap. -/
def RequestsKept (requestId : Option Uuid) (s t : Db) : Prop :=
  ∀ r ∈ t.requests,
    (∃ r₀ ∈ s.requests, r₀.id = r.id ∧ r₀.state = r.state ∧
      (r.autoRoadmapPending = true → r₀.autoRoadmapPending = true)) ∨
    (requestId = some r.id ∧ r.autoRoadmapPending = false)

/-- Requests are kept where none is added. -/
theorem requestsKept_of_subset {requestId : Option Uuid} {s t : Db}
    (h : ∀ r ∈ t.requests, r ∈ s.requests) : RequestsKept requestId s t :=
  fun r hr ↦ .inl ⟨r, h r hr, rfl, rfl, id⟩

/-- Requests that are kept twice are kept. -/
theorem RequestsKept.trans {requestId : Option Uuid} {s t u : Db}
    (hst : RequestsKept requestId s t) (htu : RequestsKept requestId t u) :
    RequestsKept requestId s u := by
  intro r hr
  rcases htu r hr with ⟨r₁, hr₁, hid₁, hstate₁, hflag₁⟩ | hnew
  · rcases hst r₁ hr₁ with ⟨r₀, hr₀, hid₀, hstate₀, hflag₀⟩ | ⟨hid, hflag⟩
    · exact .inl ⟨r₀, hr₀, hid₀.trans hid₁, hstate₀.trans hstate₁, fun h ↦ hflag₀ (hflag₁ h)⟩
    · refine .inr ⟨hid₁ ▸ hid, ?_⟩
      cases hr : r.autoRoadmapPending with
      | false => rfl
      | true => exact absurd (hflag₁ hr) (by simp [hflag])
  · exact .inr hnew

/-- Enqueueing writes requests, contexts and jobs only. -/
structure EnqueueFrame (requestId : Uuid) (s t : Database) : Prop where
  others : t.1 = { s.1 with
    requests := t.1.requests, contexts := t.1.contexts, jobs := t.1.jobs }
  requests : RequestsKept (some requestId) s.1 t.1

variable {requestId : Uuid}

instance : Std.Refl (EnqueueFrame requestId) :=
  ⟨fun _ ↦ ⟨rfl, requestsKept_of_subset fun _ h ↦ h⟩⟩

instance : IsTrans Database (EnqueueFrame requestId) where
  trans s t u hst htu := ⟨by rw [htu.others, hst.others], hst.requests.trans htu.requests⟩

private theorem insertRequest_frame {row : RequestRow} (hid : row.id = requestId)
    (hflag : row.autoRoadmapPending = false) :
    Within (EnqueueFrame requestId) (insertRequest row) := by
  refine .bind (within_query _) fun _ ↦ .ite (.pure ()) <| within_statement fun s t hst ↦
    ⟨by rw [← hst], ?_⟩
  rw [← hst]
  intro r hr
  rcases List.mem_append.mp hr with hr | hr
  · exact .inl ⟨r, hr, rfl, rfl, id⟩
  · obtain rfl := List.mem_singleton.mp hr
    exact .inr ⟨congrArg some hid.symm, hflag⟩

private theorem statement_frame {f : Db → Db}
    (h : ∀ db, f db = { db with contexts := (f db).contexts, jobs := (f db).jobs }) :
    Within (EnqueueFrame requestId) (statement f) := by
  refine within_statement fun s t hst ↦ ⟨?_, requestsKept_of_subset ?_⟩
  · rw [← hst, h s.1]
  · rw [← hst, h s.1]
    exact fun _ hr ↦ hr

private theorem insertContext_frame (row : ContextRow) :
    Within (EnqueueFrame requestId) (insertContext row) :=
  .bind (within_query _) fun _ ↦ .ite (.pure ()) (statement_frame fun _ ↦ rfl)

private theorem insertJob_frame (row : JobRow) (jobRequestId : Uuid) :
    Within (EnqueueFrame requestId) (insertJob row jobRequestId) :=
  .bind (within_query _) fun _ ↦ .ite (.bind (within_query _) fun _ ↦ .require _ _)
    (statement_frame fun _ ↦ rfl)

private theorem enqueueJob_frame (request : RecomputeRequestCreate) (row : RequestRow)
    (draw : EnqueueDraw) : Within (EnqueueFrame requestId) (enqueueJob request row draw) := by
  unfold enqueueJob
  split
  · exact .pure ()
  · exact .ite (.bind (insertContext_frame _) fun _ ↦ insertJob_frame _ _) (.pure ())

/-- Storing a request writes the queue only. -/
theorem persistRecomputeRequest_frame (request : RecomputeRequestCreate) (draw : EnqueueDraw) :
    Within (EnqueueFrame draw.requestId) (persistRecomputeRequest request draw) :=
  .bind (insertRequest_frame rfl rfl) fun _ ↦ .bind (within_query _) fun _ ↦
    .bind (.demand _ _) fun _ ↦ .bind (enqueueJob_frame _ _ _) fun _ ↦ .pure _

private theorem enqueueRecompute_frame (userId : Uuid) (profileVersion : Nat) (eventId : Uuid)
    (draw : EnqueueDraw) :
    Within (EnqueueFrame draw.requestId)
      (enqueueRecompute userId profileVersion eventId draw) :=
  .bind (persistRecomputeRequest_frame _ _) fun _ ↦ .pure _

/-- Enqueueing for a goal writes the queue only. -/
theorem enqueueForGoal_frame (carryForward : CarryForward) (userId : Uuid)
    (profileVersion : Nat) (eventId goalId : Uuid) (draw : EnqueueDraw) :
    Within (EnqueueFrame draw.requestId)
      (enqueueForGoal carryForward userId profileVersion eventId goalId draw) := by
  refine .bind (within_query _) fun context ↦ ?_
  cases context with
  | none => exact enqueueRecompute_frame _ _ _ _
  | some context => exact .bind (persistRecomputeRequest_frame _ _) fun _ ↦ .pure _

end Jobtology.Store
