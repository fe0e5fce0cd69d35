import Jobtology.Store.RecomputeQueue
import Jobtology.Time.Civil

/-!
# Recompute workers

`claim_recompute_work` of `outbox.py` with the execution budget of `compute_budget.py`, and the
settling of claimed work in `worker.py`. A transaction reads one clock of the database; the
checks that `worker.py` makes with its own clock take that as a second reading.
-/

namespace Jobtology.Store

open Jobtology.Base Jobtology.Relational
open Jobtology.Relational.Transaction

/-- Microseconds of one second. -/
abbrev second : Int := 1000000

/-- `RECOMPUTE_LEASE_FOR`. -/
def recomputeLeaseFor : Int := 300 * second

/-- `STALE_RECOMPUTE_BATCH_LIMIT`. -/
def staleRecomputeBatchLimit : Nat := 1000

/-! ### Execution budget -/

/-- `AnalysisBudgetPolicy`: budgets are positive and bounded.
`src/jobtology_be/infrastructure/persistence/compute_budget.py:26–34`. -/
structure AnalysisBudgetPolicy where
  requestsPerHour : Nat := 10
  executionsPerHour : Nat := 30
  executionsPerMinute : Nat := 2
  bounded : ∀ value ∈ [requestsPerHour, executionsPerHour, executionsPerMinute],
    1 ≤ value ∧ value < 2147483647 := by decide

/-- Seconds until an instant, rounded up, at least one. -/
def retryAfter (until_ now : Int) : Int := max 1 (-(-(until_ - now) / second))

/-- `reserve_budget` for a window of a minute or an hour, given by its length.
`src/jobtology_be/infrastructure/persistence/compute_budget.py:37–66`. -/
def reserveBudget (userId : Uuid) (scope : String) (limit : Nat) (unit now : Int) :
    Txn Unit := do
  let bucket := now - now % unit
  let counter ← query fun db ↦ db.rateLimits.find? fun l ↦ l.userId = userId ∧ l.scope = scope
  match counter with
  | none => statement fun db ↦ { db with
      rateLimits := db.rateLimits ++ [⟨userId, scope, bucket, 1⟩] }
  | some l => do
    require (l.windowStartedAt < bucket ∨ l.requestCount < limit)
      (.budgetExceeded (retryAfter (l.windowStartedAt + unit) now))
    statement fun db ↦ { db with
      rateLimits := update (fun l ↦ l.userId = userId ∧ l.scope = scope)
        (fun l ↦ { l with
          windowStartedAt := max l.windowStartedAt bucket
          requestCount := if l.windowStartedAt < bucket then 1 else l.requestCount + 1 })
        db.rateLimits }

/-- `reserve_execution`. `src/jobtology_be/infrastructure/persistence/compute_budget.py:75–80`. -/
def reserveExecution (userId : Uuid) (policy : AnalysisBudgetPolicy) (now : Int) : Txn Unit := do
  reserveBudget userId "analysis_compute_hour" policy.executionsPerHour (3600 * second) now
  reserveBudget userId "analysis_compute_minute" policy.executionsPerMinute (60 * second) now

/-- The seconds to wait after an `AnalysisBudgetExceeded`. -/
def retryAfterOf : PersistenceError → Option Int
  | .budgetExceeded seconds => some seconds
  | _ => none

/-! ### Claiming work -/

/-- `RecomputeWorkItem` with its lease. -/
structure RecomputeWorkItem where
  requestId : Uuid
  userId : Uuid
  profileVersion : Nat
  jobId : Uuid
  leaseToken : Uuid
  deriving DecidableEq

/-- How work is claimed: how much of it, from which corpus sources (all when `none`), with which
budgets. Rows that other transactions hold locked are skipped. -/
structure ClaimOptions where
  limit : Nat
  eligibleCorpusSources : Option (List String)
  policy : AnalysisBudgetPolicy
  lockedStale : List Uuid
  lockedCurrent : List Uuid

/-- A job that may be claimed: ready in time, or with an expired lease. -/
def JobRow.Claimable (j : JobRow) (now : Int) : Prop :=
  (j.state = .ready ∧ j.availableAt ≤ now) ∨
    (j.state = .leased ∧ ∃ until_ ∈ j.leaseUntil, until_ < now)

instance (j : JobRow) (now : Int) : Decidable (j.Claimable now) :=
  inferInstanceAs (Decidable (_ ∨ _))

/-- The request of a job, when both meet the claim conditions. -/
def Db.claimRequest (db : Db) (sources : Option (List String)) (now : Int) (j : JobRow) :
    Option RequestRow := do
  let requestId ← j.recomputeRequestId
  let request ← lookup (·.id) db.requests requestId
  let context ← lookup (·.requestId) db.contexts requestId
  if j.kind = .recompute ∧ request.state ∈ [.pending, .running] ∧ j.Claimable now ∧
      ∀ allowed ∈ sources, ∃ source ∈ context.payload.source, source ∈ allowed then
    return request
  else none

/-- The jobs that meet the claim conditions, with their requests. -/
def Db.claimableWork (db : Db) (sources : Option (List String)) (locked : List Uuid)
    (now : Int) : List (JobRow × RequestRow) :=
  (db.jobs.filter (·.id ∉ locked)).filterMap fun j ↦
    (db.claimRequest sources now j).map (j, ·)

/-- Work for an older version of the profile, one batch of it. -/
def Db.staleWork (db : Db) (options : ClaimOptions) (now : Int) : List (JobRow × RequestRow) :=
  (((db.claimableWork options.eligibleCorpusSources options.lockedStale now).filter fun w ↦
    ∃ version ∈ db.profileVersion w.2.userId, w.2.profileVersion < version).insertionSort
      fun v w ↦ v.1.id ≤ w.1.id).take staleRecomputeBatchLimit

/-- Work that became available earlier first. -/
def availableBefore (v w : JobRow × RequestRow) : Prop :=
  v.1.availableAt < w.1.availableAt ∨ (v.1.availableAt = w.1.availableAt ∧ v.1.id ≤ w.1.id)

instance : DecidableRel availableBefore := fun _ _ ↦ inferInstanceAs (Decidable (_ ∨ _))

/-- Work for the current version of the profile. -/
def Db.currentWork (db : Db) (options : ClaimOptions) (now : Int) :
    List (JobRow × RequestRow) :=
  (((db.claimableWork options.eligibleCorpusSources options.lockedCurrent now).filter fun w ↦
    db.profileVersion w.2.userId = some w.2.profileVersion ∧
      db.users.any (·.id = w.2.userId) = true).insertionSort availableBefore).take options.limit

/-- Another request of the user is running under a lease. -/
def Db.alreadyRunning (db : Db) (userId requestId : Uuid) (now : Int) : Prop :=
  ∃ j ∈ db.jobs, j.state = .leased ∧ (∃ until_ ∈ j.leaseUntil, now < until_) ∧
    ∃ r ∈ db.requests, j.recomputeRequestId = some r.id ∧ r.userId = userId ∧
      r.id ≠ requestId ∧ r.state = .running

instance (db : Db) (userId requestId : Uuid) (now : Int) :
    Decidable (db.alreadyRunning userId requestId now) :=
  inferInstanceAs (Decidable (∃ j ∈ db.jobs, _))

/-- A job that is done. -/
def JobRow.complete (j : JobRow) : JobRow :=
  { j with state := .completed, leaseToken := none, leaseUntil := none }

/-- A request that failed. -/
def RequestRow.fail (r : RequestRow) (errorCode : String) : RequestRow :=
  { r with state := .failed, errorCode := some errorCode }

/-- Retire work for older versions of a profile. -/
def retireStale (options : ClaimOptions) (now : Int) : Txn Unit := do
  let stale ← query (·.staleWork options now)
  statement fun db ↦ { db with
    jobs := update (·.id ∈ stale.map (·.1.id)) (·.complete) db.jobs }
  statement fun db ↦ { db with
    requests := update (·.id ∈ stale.map (·.2.id))
      (·.fail "STALE_PROFILE") db.requests }

/-- Put a job off. -/
def deferJob (jobId : Uuid) (availableAt : Int) : Txn Unit :=
  statement fun db ↦ { db with
    jobs := update (·.id = jobId)
      (fun j ↦ { j with
        state := .ready, leaseToken := none, leaseUntil := none, availableAt := availableAt })
      db.jobs }

/-- The job that a claim leases. -/
def isClaimedJob (w : JobRow × RequestRow) (j : JobRow) : Prop :=
  j.id = w.1.id ∧ j.recomputeRequestId = some w.2.id ∧ j.kind = .recompute

/-- The request that a claim sets running. -/
def isClaimedRequest (w : JobRow × RequestRow) (r : RequestRow) : Prop :=
  r.id = w.2.id ∧ r.userId = w.2.userId ∧ r.profileVersion = w.2.profileVersion ∧
    r.state ∈ [.pending, .running]

instance (w : JobRow × RequestRow) : DecidablePred (isClaimedJob w) :=
  fun _ ↦ inferInstanceAs (Decidable (_ ∧ _))

instance (w : JobRow × RequestRow) : DecidablePred (isClaimedRequest w) :=
  fun _ ↦ inferInstanceAs (Decidable (_ ∧ _))

/-- Lease a job and set its request running. -/
def leaseWork (w : JobRow × RequestRow) (token : Uuid) (now : Int) : Txn RecomputeWorkItem := do
  let jobs ← query (·.jobs.countP (isClaimedJob w ·))
  statement fun db ↦ { db with
    jobs := update (isClaimedJob w)
      (fun j ↦ { j with
        state := .leased
        leaseToken := some token
        leaseUntil := some (now + recomputeLeaseFor)
        attemptCount := j.attemptCount + 1 }) db.jobs }
  require (jobs = 1) (.conflict "outbox lease")
  let requests ← query (·.requests.countP (isClaimedRequest w ·))
  statement fun db ↦ { db with
    requests := update (isClaimedRequest w) (fun r ↦ { r with state := .running }) db.requests }
  require (requests = 1) (.conflict "recompute request")
  return ⟨w.2.id, w.2.userId, w.2.profileVersion, w.1.id, token⟩

/-- Claim one piece of work, unless its user is already served or out of budget. -/
def claimWork (policy : AnalysisBudgetPolicy) (now : Int) (token : Uuid)
    (w : JobRow × RequestRow) : Txn (Option RecomputeWorkItem) := do
  let running ← query fun db ↦ decide (db.alreadyRunning w.2.userId w.2.id now)
  if running then do
    deferJob w.1.id (now + 5 * second)
    return none
  else do
    let reserved ← attempt retryAfterOf (reserveExecution w.2.userId policy now)
    match reserved with
    | .error seconds => do
      deferJob w.1.id (now + seconds * second)
      return none
    | .ok () => do
      let item ← leaseWork w token now
      return some item

/-- `claim_recompute_work`. The lease tokens are drawn in order.
`src/jobtology_be/infrastructure/persistence/outbox.py:164–330`. -/
def claimRecomputeWork (options : ClaimOptions) (token : Nat → Uuid) (now : Int) :
    Txn (List RecomputeWorkItem) := do
  retireStale options now
  let rows ← query (·.currentWork options now)
  rows.zipIdx.foldlM (fun items w ↦ do
    let item ← claimWork options.policy now (token w.2) w.1
    return items ++ item.toList) []

/-! ### Jobs of other kinds -/

/-- Jobs of other kinds that may be claimed, earliest first. -/
def Db.claimableOthers (db : Db) (limit : Nat) (locked : List Uuid) (now : Int) : List Uuid :=
  (((db.jobs.filter fun j ↦ j.id ∉ locked ∧ j.kind ≠ .recompute ∧ j.Claimable now).insertionSort
    fun i j ↦ i.availableAt < j.availableAt ∨
      (i.availableAt = j.availableAt ∧ i.id ≤ j.id)).take limit).map (·.id)

/-- `claim_outbox_jobs`. `src/jobtology_be/infrastructure/persistence/outbox.py:118–162`. -/
def claimOutboxJobs (limit : Nat) (leaseFor : Int) (locked : List Uuid) (token : Nat → Uuid)
    (now : Int) : Txn Unit := do
  let ids ← query (·.claimableOthers limit locked now)
  ids.zipIdx.forM fun (id, i) ↦ statement fun db ↦ { db with
    jobs := update (·.id = id)
      (fun j ↦ { j with
        state := .leased
        leaseToken := some (token i)
        leaseUntil := some (now + leaseFor)
        attemptCount := j.attemptCount + 1 }) db.jobs }

/-- `complete_outbox_job`. `src/jobtology_be/infrastructure/persistence/outbox.py:332–349`. -/
def completeOutboxJob (jobId leaseToken : Uuid) (now : Int) : Txn Unit := do
  let leased := fun j : JobRow ↦ j.id = jobId ∧ j.kind ≠ .recompute ∧
    j.leaseToken = some leaseToken ∧ j.state = .leased ∧ ∃ until_ ∈ j.leaseUntil, now < until_
  let count ← query fun db ↦ db.jobs.countP fun j ↦ leased j
  statement fun db ↦ { db with
    jobs := update leased (·.complete) db.jobs }
  require (count = 1) (.conflict "outbox lease")

/-! ### Settling work -/

/-- `RecomputeArtifacts`. -/
structure RecomputeArtifacts where
  analysis : AnalysisRow
  proposal : Option ProposalRow

/-- `RecomputeFinalization`. -/
structure RecomputeFinalization where
  requestId : Uuid
  analysisId : Uuid
  proposalId : Option Uuid
  updatedLatestAnalysis : Bool
  deriving DecidableEq

/-- The job of a work item. -/
def RecomputeWorkItem.isJob (item : RecomputeWorkItem) (j : JobRow) : Prop :=
  j.id = item.jobId ∧ j.kind = .recompute ∧ j.recomputeRequestId = some item.requestId

instance (item : RecomputeWorkItem) : DecidablePred item.isJob :=
  fun _ ↦ inferInstanceAs (Decidable (_ ∧ _))

/-- The job is leased under the item's token, for longer than an instant. -/
def RecomputeWorkItem.holds (item : RecomputeWorkItem) (now : Int) (j : JobRow) : Prop :=
  j.state = .leased ∧ j.leaseToken = some item.leaseToken ∧ ∃ until_ ∈ j.leaseUntil, now < until_

instance (item : RecomputeWorkItem) (now : Int) : DecidablePred (item.holds now) :=
  fun _ ↦ inferInstanceAs (Decidable (_ ∧ _))

/-- The request of a work item is running: it has a context, and the item's user and version. -/
def Db.isRunning (db : Db) (item : RecomputeWorkItem) : Prop :=
  ∃ r ∈ db.requests, r.id = item.requestId ∧ r.state = .running ∧
    (∃ c ∈ db.contexts, c.requestId = r.id) ∧ r.userId = item.userId ∧
    r.profileVersion = item.profileVersion

instance (db : Db) (item : RecomputeWorkItem) : Decidable (db.isRunning item) :=
  inferInstanceAs (Decidable (∃ r ∈ db.requests, _))

/-- Set the running request of a work item. -/
def settleRequest (requestId : Uuid) (f : RequestRow → RequestRow) : Txn Unit := do
  let count ← query fun db ↦
    db.requests.countP fun r ↦ r.id = requestId ∧ r.state = .running
  statement fun db ↦ { db with
    requests := update (fun r ↦ r.id = requestId ∧ r.state = .running) f db.requests }
  require (count = 1) (.conflict "recompute request")

/-- Complete the job of a work item while its lease lasts. -/
def completeJob (item : RecomputeWorkItem) (clock : Int) : Txn Unit := do
  let count ← query fun db ↦ db.jobs.countP fun j ↦ item.isJob j ∧ item.holds clock j
  statement fun db ↦ { db with
    jobs := update (fun j ↦ item.isJob j ∧ item.holds clock j) (·.complete) db.jobs }
  require (count = 1) (.conflict "outbox lease")

/-- Insert the proposal of a recompute with its trace. -/
def insertProposal : Option ProposalRow → Txn Unit
  | none => pure ()
  | some proposal => do
    statement fun db ↦ { db with
      traces := db.traces ++ [⟨proposal.decisionTraceId, proposal.userId⟩] }
    statement fun db ↦ { db with proposals := db.proposals ++ [proposal] }

/-- The request after it is finalized. -/
def RecomputeArtifacts.settle (artifacts : RecomputeArtifacts) (r : RequestRow) : RequestRow :=
  { r with
    state := .ready
    resultingAnalysisId := some artifacts.analysis.id
    proposalId := artifacts.proposal.map (·.id)
    autoRoadmapPending := artifacts.proposal.isSome }

/-- Point a profile to an analysis, if it is still at the version it was made for. -/
def pointProfile (userId : Uuid) (profileVersion : Nat) (analysisId : Uuid) : Txn Unit :=
  statement fun db ↦ { db with
    profiles := update (fun p ↦ p.userId = userId ∧ p.version = profileVersion)
      (fun p ↦ { p with latestAnalysisId := some analysisId }) db.profiles }

/-- The artifacts are those of the work item. -/
def RecomputeArtifacts.belongTo (artifacts : RecomputeArtifacts) (item : RecomputeWorkItem) :
    Prop :=
  ∀ p ∈ artifacts.proposal, p.userId = item.userId ∧ p.profileVersion = item.profileVersion ∧
    p.analysisId = artifacts.analysis.id

instance (artifacts : RecomputeArtifacts) (item : RecomputeWorkItem) :
    Decidable (artifacts.belongTo item) :=
  inferInstanceAs (Decidable (∀ p ∈ artifacts.proposal, _))

/-- `finalize_recompute`, with the reading of its own clock and that of the database.
`src/jobtology_be/infrastructure/persistence/worker.py:63–226`. -/
def finalizeRecompute (item : RecomputeWorkItem) (artifacts : RecomputeArtifacts)
    (now clock : Int) : Txn RecomputeFinalization := do
  let analysis := artifacts.analysis
  require (analysis.userId = item.userId ∧ analysis.profileVersion = item.profileVersion)
    (.conflict "analysis work item")
  require (artifacts.belongTo item) (.conflict "route proposal work item")
  let owner ← query (·.users.any (·.id = item.userId))
  require (owner = true) (.conflict "deleted account")
  let lease ← query (·.jobs.find? (item.isJob ·))
  require (∃ j ∈ lease, item.holds now j) (.conflict "outbox lease")
  let running ← query fun db ↦ decide (db.isRunning item)
  require (running = true) (.missing "recompute request")
  let goalOwner ← query fun db ↦ (lookup (·.id) db.goals analysis.goalId).map (·.userId)
  require (goalOwner = some item.userId) (.missing "goal")
  statement fun db ↦ { db with analyses := db.analyses ++ [analysis] }
  insertProposal artifacts.proposal
  settleRequest item.requestId artifacts.settle
  let pointed ← query fun db ↦
    db.profiles.any fun p ↦ p.userId = item.userId ∧ p.version = item.profileVersion
  pointProfile item.userId item.profileVersion analysis.id
  completeJob item clock
  return ⟨item.requestId, analysis.id, artifacts.proposal.map (·.id), pointed⟩

/-- Erasure removed the job and the request of a work item. -/
def Db.erasedWork (db : Db) (item : RecomputeWorkItem) : Prop :=
  (∀ j ∈ db.jobs, j.id ≠ item.jobId) ∧ ∀ r ∈ db.requests, r.id ≠ item.requestId

instance (db : Db) (item : RecomputeWorkItem) : Decidable (db.erasedWork item) :=
  inferInstanceAs (Decidable (_ ∧ _))

/-- `fail_recompute`, with the reading of its own clock and that of the database.
`src/jobtology_be/infrastructure/persistence/worker.py:228–315`. -/
def failRecompute (item : RecomputeWorkItem) (errorCode : String) (now clock : Int) :
    Txn Unit := do
  let owner ← query (·.users.any (·.id = item.userId))
  let lease ← query (·.jobs.find? (item.isJob ·))
  let erased ← query fun db ↦ decide (db.erasedWork item)
  if owner = false ∨ (lease = none ∧ erased = true) then pure ()
  else do
    require (∃ j ∈ lease, item.holds now j) (.conflict "outbox lease")
    let running ← query fun db ↦ decide (db.isRunning item)
    require (running = true) (.missing "recompute request")
    settleRequest item.requestId (·.fail errorCode)
    completeJob item clock

/-! ### What workers write -/

/-- A row count of one finds the row. -/
theorem exists_of_countP_one {α : Type} {p : α → Prop} [DecidablePred p] {rows : List α}
    (h : rows.countP (p ·) = 1) : ∃ r ∈ rows, p r := by
  have hpos : 0 < rows.countP (p ·) := by omega
  obtain ⟨r, hr, hp⟩ := List.countP_pos_iff.mp hpos
  exact ⟨r, hr, by simpa using hp⟩

/-- Retired work: jobs completed and requests failed. -/
def Db.retire (db : Db) (stale : List (JobRow × RequestRow)) : Db := { db with
  jobs := update (·.id ∈ stale.map (·.1.id)) (·.complete) db.jobs
  requests := update (·.id ∈ stale.map (·.2.id)) (·.fail "STALE_PROFILE") db.requests }

/-- Stale work is retired. -/
theorem retireStale_spec {options : ClaimOptions} {now : Int} {s t : Database} {u : Unit}
    (h : Yields (retireStale options now) s u t) :
    t.1 = s.1.retire (s.1.staleWork options now) := by
  unfold retireStale at h
  simp only [yields_query_bind, yields_seq, yields_statement] at h
  obtain ⟨v, hjobs, hrequests⟩ := h
  simp only [← hjobs] at hrequests
  exact hrequests.symm

/-- A job put off. -/
def Db.deferred (db : Db) (jobId : Uuid) (availableAt : Int) : Db := { db with
  jobs := update (·.id = jobId)
    (fun j ↦ { j with
      state := .ready, leaseToken := none, leaseUntil := none, availableAt := availableAt })
    db.jobs }

/-- Leased work: the job and its running request. -/
def Db.leased (db : Db) (w : JobRow × RequestRow) (token : Uuid) (now : Int) : Db := { db with
  jobs := update (isClaimedJob w)
    (fun j ↦ { j with
      state := .leased
      leaseToken := some token
      leaseUntil := some (now + recomputeLeaseFor)
      attemptCount := j.attemptCount + 1 }) db.jobs
  requests := update (isClaimedRequest w) (fun r ↦ { r with state := .running }) db.requests }

/-- The work item of claimed work. -/
def workItem (w : JobRow × RequestRow) (token : Uuid) : RecomputeWorkItem :=
  ⟨w.2.id, w.2.userId, w.2.profileVersion, w.1.id, token⟩

/-- Work is leased to the token. -/
theorem leaseWork_spec {w : JobRow × RequestRow} {token : Uuid} {now : Int} {s t : Database}
    {item : RecomputeWorkItem} (h : Yields (leaseWork w token now) s item t) :
    item = workItem w token ∧ (∃ j ∈ s.1.jobs, isClaimedJob w j) ∧
      (∃ r ∈ s.1.requests, isClaimedRequest w r) ∧ t.1 = s.1.leased w token now := by
  unfold leaseWork at h
  simp only [yields_query_bind, yields_seq, yields_statement, ↓yields_require_bind,
    yields_pure] at h
  obtain ⟨v, hjobs, hcount, u, hrequests, hcount', rfl, rfl⟩ := h
  simp only [← hjobs] at hrequests hcount'
  exact ⟨rfl, exists_of_countP_one hcount, exists_of_countP_one hcount', hrequests.symm⟩

/-- A reservation writes the counters only. -/
theorem reserveBudget_spec {userId : Uuid} {scope : String} {limit : Nat} {unit now : Int}
    {s t : Database} {u : Unit} (h : Yields (reserveBudget userId scope limit unit now) s u t) :
    t.1 = { s.1 with rateLimits := t.1.rateLimits } := by
  unfold reserveBudget at h
  rw [yields_query_bind] at h
  split at h
  · rw [← yields_statement.mp h]
  · simp only [↓yields_require_bind, yields_statement] at h
    rw [← h.2]

/-- The reservations of an execution write the counters only. -/
theorem reserveExecution_spec {userId : Uuid} {policy : AnalysisBudgetPolicy} {now : Int}
    {s t : Database} {u : Unit} (h : Yields (reserveExecution userId policy now) s u t) :
    t.1 = { s.1 with rateLimits := t.1.rateLimits } := by
  unfold reserveExecution at h
  obtain ⟨v, hhour, hminute⟩ := yields_seq.mp h
  rw [reserveBudget_spec hminute, reserveBudget_spec hhour]

/-- What claiming one piece of work does. -/
inductive ClaimEffect (now : Int) (token : Uuid) (w : JobRow × RequestRow) (s : Db) :
    Option RecomputeWorkItem → Db → Prop
  /-- The user is already served, or out of budget. -/
  | deferred (availableAt : Int) : ClaimEffect now token w s none (s.deferred w.1.id availableAt)
  | leased (rateLimits : List RateLimitRow)
      (free : ¬ s.alreadyRunning w.2.userId w.2.id now)
      (job : ∃ j ∈ s.jobs, isClaimedJob w j) (request : ∃ r ∈ s.requests, isClaimedRequest w r) :
      ClaimEffect now token w s (some (workItem w token))
        ({ s with rateLimits := rateLimits }.leased w token now)

/-- What a claim that succeeds does. -/
theorem claimWork_spec {policy : AnalysisBudgetPolicy} {now : Int} {token : Uuid}
    {w : JobRow × RequestRow} {s t : Database} {item : Option RecomputeWorkItem}
    (h : Yields (claimWork policy now token w) s item t) :
    ClaimEffect now token w s.1 item t.1 := by
  unfold claimWork at h
  rw [yields_query_bind, yields_ite] at h
  rcases h with ⟨-, h⟩ | ⟨hfree, h⟩
  · simp only [yields_seq, yields_pure] at h
    obtain ⟨v, hdefer, rfl, rfl⟩ := h
    rw [← yields_statement.mp hdefer]
    exact .deferred _
  · rw [decide_eq_true_eq] at hfree
    obtain ⟨reserved, v, hattempt, h⟩ := yields_bind.mp h
    rcases yields_attempt.mp hattempt with ⟨_, rfl, hreserve⟩ | ⟨_, seconds, -, -, rfl, rfl⟩
    · dsimp only at h
      obtain ⟨claimed, u, hlease, h⟩ := yields_bind.mp h
      obtain ⟨rfl, rfl⟩ := yields_pure.mp h
      obtain ⟨rfl, hjob, hrequest, ht⟩ := leaseWork_spec hlease
      have hv := reserveExecution_spec hreserve
      rw [hv] at hjob hrequest ht
      rw [ht]
      exact .leased _ hfree hjob hrequest
    · simp only [yields_seq, yields_pure] at h
      obtain ⟨u, hdefer, rfl, rfl⟩ := h
      rw [← yields_statement.mp hdefer]
      exact .deferred _

/-- What a finalization that succeeds does. -/
structure Finalized (item : RecomputeWorkItem) (artifacts : RecomputeArtifacts) (clock : Int)
    (s t : Db) : Prop where
  owner : ∃ u ∈ s.users, u.id = item.userId
  analysisOwner : artifacts.analysis.userId = item.userId
  analysisVersion : artifacts.analysis.profileVersion = item.profileVersion
  belongs : artifacts.belongTo item
  running : s.isRunning item
  goalOwner : (lookup (·.id) s.goals artifacts.analysis.goalId).map (·.userId) = some item.userId
  leased : ∃ j ∈ s.jobs, item.isJob j ∧ item.holds clock j
  written : t = { s with
    analyses := s.analyses ++ [artifacts.analysis]
    traces := s.traces ++ artifacts.proposal.toList.map fun p ↦ ⟨p.decisionTraceId, p.userId⟩
    proposals := s.proposals ++ artifacts.proposal.toList
    requests := update (fun r ↦ r.id = item.requestId ∧ r.state = .running) artifacts.settle
      s.requests
    profiles := update (fun p ↦ p.userId = item.userId ∧ p.version = item.profileVersion)
      (fun p ↦ { p with latestAnalysisId := some artifacts.analysis.id }) s.profiles
    jobs := update (fun j ↦ item.isJob j ∧ item.holds clock j) (·.complete) s.jobs }

private theorem insertProposal_spec {proposal : Option ProposalRow} {s t : Database} {u : Unit}
    (h : Yields (insertProposal proposal) s u t) :
    t.1 = { s.1 with
      traces := s.1.traces ++ proposal.toList.map fun p ↦ ⟨p.decisionTraceId, p.userId⟩
      proposals := s.1.proposals ++ proposal.toList } := by
  cases proposal with
  | none =>
    obtain ⟨-, rfl⟩ := yields_pure.mp h
    simp
  | some p =>
    simp only [insertProposal, yields_seq, yields_statement] at h
    obtain ⟨v, htrace, hproposal⟩ := h
    simp only [← htrace] at hproposal
    rw [← hproposal]
    rfl

private theorem settleRequest_spec {requestId : Uuid} {f : RequestRow → RequestRow}
    {s t : Database} {u : Unit} (h : Yields (settleRequest requestId f) s u t) :
    t.1 = { s.1 with
      requests := update (fun r ↦ r.id = requestId ∧ r.state = .running) f s.1.requests } := by
  unfold settleRequest at h
  simp only [yields_query_bind, yields_seq, yields_statement, yields_require] at h
  obtain ⟨v, hv, -, rfl⟩ := h
  exact hv.symm

private theorem completeJob_spec {item : RecomputeWorkItem} {clock : Int} {s t : Database}
    {u : Unit} (h : Yields (completeJob item clock) s u t) :
    (∃ j ∈ s.1.jobs, item.isJob j ∧ item.holds clock j) ∧ t.1 = { s.1 with
      jobs := update (fun j ↦ item.isJob j ∧ item.holds clock j) (·.complete) s.1.jobs } := by
  unfold completeJob at h
  simp only [yields_query_bind, yields_seq, yields_statement, yields_require] at h
  obtain ⟨v, hv, hcount, rfl⟩ := h
  exact ⟨exists_of_countP_one hcount, hv.symm⟩

/-- What a recording of results that succeeds does. -/
theorem finalizeRecompute_spec {item : RecomputeWorkItem} {artifacts : RecomputeArtifacts}
    {now clock : Int} {s t : Database} {result : RecomputeFinalization}
    (h : Yields (finalizeRecompute item artifacts now clock) s result t) :
    Finalized item artifacts clock s.1 t.1 := by
  unfold finalizeRecompute at h
  simp only [yields_query_bind, ↓yields_require_bind, yields_seq, yields_pure] at h
  obtain ⟨⟨howner, hversion⟩, hbelong, huser, -, hrunning, hgoal, s₁, h₁, s₂, h₂, s₃, h₃, s₄, h₄,
    s₅, h₅, -, rfl⟩ := h
  have h₁ := yields_statement.mp h₁
  have h₂ := insertProposal_spec h₂
  have h₃ := settleRequest_spec h₃
  have h₄ := yields_statement.mp h₄
  obtain ⟨hleased, h₅⟩ := completeJob_spec h₅
  simp only [← h₁] at h₂
  simp only [h₂] at h₃
  simp only [h₃] at h₄
  simp only [← h₄] at h₅ hleased
  rw [List.any_eq_true] at huser
  exact {
    owner := by simpa using huser
    analysisOwner := howner
    analysisVersion := hversion
    belongs := hbelong
    running := of_decide_eq_true hrunning
    goalOwner := hgoal
    leased := hleased
    written := h₅ }

/-- What a failure that is recorded does. -/
structure FailedWork (item : RecomputeWorkItem) (errorCode : String) (clock : Int) (s t : Db) :
    Prop where
  running : s.isRunning item
  leased : ∃ j ∈ s.jobs, item.isJob j ∧ item.holds clock j
  written : t = { s with
    requests := update (fun r ↦ r.id = item.requestId ∧ r.state = .running) (·.fail errorCode)
      s.requests
    jobs := update (fun j ↦ item.isJob j ∧ item.holds clock j) (·.complete) s.jobs }

/-- A failure is recorded, or nothing is written since the account or the work is gone. -/
theorem failRecompute_ends {item : RecomputeWorkItem} {errorCode : String} {now clock : Int}
    {s t : Database} {u : Unit} (h : Yields (failRecompute item errorCode now clock) s u t) :
    (t = s ∧ ((∀ u ∈ s.1.users, u.id ≠ item.userId) ∨ s.1.erasedWork item)) ∨
      FailedWork item errorCode clock s.1 t.1 := by
  unfold failRecompute at h
  simp only [yields_query_bind, yields_ite, yields_pure] at h
  rcases h with ⟨hgone, -, rfl⟩ | ⟨-, h⟩
  · refine .inl ⟨rfl, hgone.imp (fun hnone u hu hid ↦ ?_) fun herased ↦ ?_⟩
    · exact List.any_eq_false.mp hnone u hu (decide_eq_true hid)
    · exact of_decide_eq_true herased.2
  · simp only [yields_query_bind, ↓yields_require_bind, yields_seq] at h
    obtain ⟨-, hrunning, v, hsettle, hjob⟩ := h
    have h₁ := settleRequest_spec hsettle
    obtain ⟨hleased, h₂⟩ := completeJob_spec hjob
    simp only [h₁] at h₂ hleased
    exact .inr ⟨of_decide_eq_true hrunning, hleased, h₂⟩

/-- A failure is recorded, or the request is settled already. -/
theorem failRecompute_spec {item : RecomputeWorkItem} {errorCode : String} {now clock : Int}
    {s t : Database} {u : Unit} (h : Yields (failRecompute item errorCode now clock) s u t) :
    t = s ∨ FailedWork item errorCode clock s.1 t.1 :=
  (failRecompute_ends h).imp_left And.left

end Jobtology.Store
