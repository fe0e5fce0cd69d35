import Jobtology.Analyses.RecomputeFreshness
import Jobtology.Store.ClaimedWork
import Jobtology.Store.RateLimits

/-!
# Submitted analyses

`recompute_requests.py`: a submitted analysis reuses a request for the same analysis or makes a new
one, over any order of submissions and of the other transactions on recompute work.
-/

namespace Jobtology.Store

open Jobtology.Analyses Jobtology.Base Jobtology.Relational
open Jobtology.Relational.Transaction

/-! ### Model -/

/-- `AnalysisRecomputeSubmission`: its context is made for the goal that it names. -/
structure AnalysisRecomputeSubmission where
  userId : Uuid
  goalId : Uuid
  expectedProfileVersion : Nat
  dedupeKey : String
  /-- `payload.get("refresh") is True`. -/
  refresh : Bool
  context : RecomputeContext
  goal : context.goalId = some goalId

/-- What submissions rest on: the digest, the UTC days of timestamps, the payloads of contexts and
the budgets. -/
structure AnalysisSubmitter where
  sha256 : String → String
  utcDay : String → Option String
  payload : RecomputeContext → ContextPayload
  policy : AnalysisBudgetPolicy

/-- `REUSABLE_RECOMPUTE_STATES`. -/
def RequestState.Reusable (state : RequestState) : Prop := state ∈ [.pending, .running, .ready]

instance : DecidablePred RequestState.Reusable := fun _ ↦ inferInstanceAs (Decidable (_ ∈ _))

/-- The requests of the goal and the version that may be reused, the latest first. -/
def reusableRequests (db : Db) (submission : AnalysisRecomputeSubmission) :
    List (RequestRow × RecomputeContext) :=
  ((requestsWithContext db).filter fun r ↦ r.1.userId = submission.userId ∧
    r.1.profileVersion = submission.expectedProfileVersion ∧ r.1.state.Reusable ∧
    r.2.goalId = some submission.goalId).insertionSort fun r s ↦ s.1.createdAt ≤ r.1.createdAt

namespace AnalysisSubmitter

variable (S : AnalysisSubmitter)

/-- The text of a stored context that is digested. -/
def encoded (context : RecomputeContext) : String :=
  Analyses.encoded S.utcDay (S.payload context)

/-- `analysis_context_fingerprint` of a stored context. -/
def fingerprint (context : RecomputeContext) : String :=
  analysisContextFingerprint S.sha256 S.utcDay (S.payload context)

/-- The request is for the same analysis, and is not a result that the submission refreshes. -/
def Reuses (submission : AnalysisRecomputeSubmission) (r : RequestRow × RecomputeContext) : Prop :=
  S.fingerprint r.2 = S.fingerprint submission.context ∧
    ¬(r.1.state = .ready ∧ submission.refresh = true)

instance (submission : AnalysisRecomputeSubmission) : DecidablePred (S.Reuses submission) :=
  fun _ ↦ inferInstanceAs (Decidable (_ ∧ _))

/-- The request that a submission reuses, of the hundred that it looks at. -/
def reused (db : Db) (submission : AnalysisRecomputeSubmission) :
    Option (RequestRow × RecomputeContext) :=
  ((reusableRequests db submission).take 100).find? (S.Reuses submission)

/-- The event of a submission. -/
def submittedEvent (submission : AnalysisRecomputeSubmission) (triggerEventId : Uuid) :
    EventRow where
  id := triggerEventId
  userId := submission.userId
  aggregateId := triggerEventId
  version := submission.expectedProfileVersion
  kind := .analysisRequested
  payload := ⟨none, some submission.goalId⟩

/-- The request of a submission. -/
def submittedRequest (submission : AnalysisRecomputeSubmission) (triggerEventId : Uuid) :
    RecomputeRequestCreate where
  userId := submission.userId
  profileVersion := submission.expectedProfileVersion
  triggerEventId := triggerEventId
  dedupeKey := submission.dedupeKey
  context := some submission.context

/-- `submit_analysis_recompute_in_session`.
`src/jobtology_be/infrastructure/persistence/recompute_requests.py:45–49,51–115`,
`src/jobtology_be/infrastructure/persistence/store.py:440–446`. -/
def submitAnalysisRecompute (submission : AnalysisRecomputeSubmission) (triggerEventId : Uuid)
    (draw : EnqueueDraw) : Txn RecomputeRequestSnapshot := do
  let profileVersion ← query (·.profileVersion submission.userId)
  require (profileVersion = some submission.expectedProfileVersion) (.conflict "profile")
  let goalOwner ← query fun db ↦ (lookup (·.id) db.goals submission.goalId).map (·.userId)
  require (goalOwner = some submission.userId) (.missing "goal")
  let existing ← query (S.reused · submission)
  match existing with
  | some r => return ⟨r.1.id, r.1.state⟩
  | none => do
    reserveRequest submission.userId S.policy draw.now
    appendEvent (submittedEvent submission triggerEventId)
    persistRecomputeRequest (submittedRequest submission triggerEventId) draw

/-! ### Submissions among other transactions -/

/-- A request that a submission created, and whether it refreshes a result that was there. -/
structure CreatedRequest where
  requestId : Uuid
  submission : AnalysisRecomputeSubmission
  refreshes : Bool

/-- The system of recompute work with the requests that submissions created. -/
structure SubmissionSystem where
  work : RecomputeSystem
  created : List CreatedRequest

/-- What happens next. -/
inductive SubmissionAction
  | submit (submission : AnalysisRecomputeSubmission) (triggerEventId : Uuid) (draw : EnqueueDraw)
  | work (action : RecomputeAction)

/-- The submission refreshes a result for the same analysis. -/
def Refreshes (db : Db) (submission : AnalysisRecomputeSubmission) : Prop :=
  submission.refresh = true ∧ ∃ r ∈ reusableRequests db submission,
    r.1.state = .ready ∧ S.fingerprint r.2 = S.fingerprint submission.context

instance (db : Db) (submission : AnalysisRecomputeSubmission) :
    Decidable (S.Refreshes db submission) := inferInstanceAs (Decidable (_ ∧ _))

/-- The state after a submission. -/
def submitted (x : SubmissionSystem) (submission : AnalysisRecomputeSubmission)
    (triggerEventId : Uuid) (draw : EnqueueDraw) : SubmissionSystem :=
  match (S.submitAnalysisRecompute submission triggerEventId draw).run x.work.db with
  | .error _ => x
  | .ok (snapshot, db) =>
    { work := { x.work with db := db }
      created := if S.reused x.work.db.1 submission = none then
          ⟨snapshot.requestId, submission, S.Refreshes x.work.db.1 submission⟩ :: x.created
        else x.created }

/-- One action. -/
def act (x : SubmissionSystem) : SubmissionAction → SubmissionSystem
  | .submit submission triggerEventId draw => S.submitted x submission triggerEventId draw
  | .work action => { x with work := x.work.apply action }

variable {S} {submission : AnalysisRecomputeSubmission} {triggerEventId : Uuid}
  {draw : EnqueueDraw} {s t : Database} {snapshot : RecomputeRequestSnapshot}

/-- One unit of the hour is charged to the user. -/
def Charged (S : AnalysisSubmitter) (userId : Uuid) (now : Int) (s t : Db) : Prop :=
  OnCounter S.policy.requestsPerHour userId "analysis_request_hour"
    [BudgetScope.requestHour.bucket now] s t

/-- What a submission that succeeds does. -/
structure Submission (S : AnalysisSubmitter) (submission : AnalysisRecomputeSubmission)
    (triggerEventId : Uuid) (draw : EnqueueDraw) (s t : Db) (snapshot : RecomputeRequestSnapshot) :
    Prop where
  version : s.profileVersion submission.userId = some submission.expectedProfileVersion
  reuses : ∀ r, S.reused s submission = some r → snapshot = ⟨r.1.id, r.1.state⟩ ∧ t = s
  creates : S.reused s submission = none → snapshot = ⟨draw.requestId, .pending⟩ ∧
    (∀ r ∈ s.requests, r.id ≠ draw.requestId) ∧ S.Charged submission.userId draw.now s t ∧
    ∃ w : Database, w.1 = { s with
        rateLimits := t.rateLimits
        events := s.events ++ [submittedEvent submission triggerEventId] } ∧
      t = w.1.enqueued (submittedRequest submission triggerEventId) draw

end AnalysisSubmitter

end Jobtology.Store
