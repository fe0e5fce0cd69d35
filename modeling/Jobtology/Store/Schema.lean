import Jobtology.Analyses.Editorial
import Jobtology.Planning.Planner
import Jobtology.Relational.Table
import Jobtology.Weekly.Models
import Mathlib.Tactic.MkIffOfInductiveProp

/-!
# The database schema

The tables of `infrastructure/persistence/schema.py` that goals, roadmaps and recomputation read
or write, with the columns they use. `Constraints` holds the schema's keys and checks: PostgreSQL
evaluates them when a statement ends and fails the statement that breaks one.
-/

namespace Jobtology.Store

open Jobtology.Base Jobtology.Relational
open Jobtology.Analyses (AnalysisStatus)
open Jobtology.Planning (RouteFeasibility WeeklyAvailabilityWindow)
open Jobtology.Weekly (StepState WeeklyPlanStep)

/-- A SHA-256 digest. -/
abbrev Digest := BitVec 256

/-- `goals_mode_check`. -/
inductive GoalMode
  | targeted
  | discovery
  deriving DecidableEq

/-- `goals_status_check`. -/
inductive GoalStatus
  | draft
  | active
  | archived
  deriving DecidableEq

/-- `roadmaps_state_check`. -/
inductive RoadmapState
  | draft
  | active
  | archived
  deriving DecidableEq

/-- States of a recompute request. -/
inductive RequestState
  | pending
  | running
  | ready
  | failed
  deriving DecidableEq

/-- `outbox_jobs_state_check`. -/
inductive JobState
  | ready
  | leased
  | completed
  | failed
  deriving DecidableEq

/-- Kinds of outbox jobs. -/
inductive JobKind
  | recompute
  | other
  deriving DecidableEq

/-- Kinds of the state events that the modelled operations append. -/
inductive EventKind
  | profileUpdated
  | goalUpdated
  | goalDeleted
  | analysisRequested
  | stepStateUpdated
  | stepCompleted
  | stepCompletionReversed
  | other
  deriving DecidableEq

/-- Life cycle of a capability. -/
inductive Lifecycle
  | active
  | revoked
  | deleted
  deriving DecidableEq

/-- A member of a stored JSON object: absent or null, of another type, or a value. -/
inductive JsonField (α : Type)
  | absent
  | malformed
  | value (a : α)
  deriving DecidableEq

/-- `RoadmapOutcome` before its validation.
`src/jobtology_be/infrastructure/persistence/roadmap_steps.py:203–204`,
`src/jobtology_be/infrastructure/persistence/store.py:1002–1003`. -/
structure RoadmapOutcome where
  requirementKey : String
  entityId : String
  rawText : String
  experienceCodes : List String
  deriving DecidableEq

/-- A step of a stored route proposal.
`src/jobtology_be/infrastructure/persistence/roadmap_revisions.py:60–77`. -/
structure ProposalStep where
  stepKey : String
  actionId : String
  templateRevision : Int
  title : String
  estimatedHours : Int
  plannedStartAt : Option Int
  plannedEndAt : Option Int
  outcomes : List RoadmapOutcome
  completionCriteria : List String
  prerequisiteStepKeys : List String
  deriving DecidableEq

/-- A completed step's document in the history of a revised roadmap. -/
structure HistoryStep where
  title : Option String
  estimatedHours : Option Int
  sourceStepId : Option Uuid
  sourceRoadmapId : Option Uuid
  sourceAnalysisId : Option Uuid
  sourceReleaseId : Option (Option String)
  deriving DecidableEq

/-- `roadmaps.validity`. -/
structure Validity where
  sourceIsValid : JsonField Bool
  expiresAt : JsonField Int
  revisionFromRoadmapId : Option Uuid
  revisionHistorySteps : List (String × HistoryStep)
  deriving DecidableEq

/-- The members of `user_state_events.payload` that are read. -/
structure EventPayload where
  outcomes : Option (List RoadmapOutcome)
  goalId : Option Uuid
  deriving DecidableEq

/-- A capability's `details`. -/
structure CapabilityDetails where
  outcomeRequirementKeys : List String
  experienceCodes : List String
  outcomeProvenance : List RoadmapOutcome
  stepId : Option Uuid
  deriving DecidableEq

/-- A pinned recompute context: the members that queries read and the rest of the document. -/
structure RecomputeContext where
  goalId : Option Uuid
  source : Option String
  document : String
  deriving DecidableEq

/-- The members of a stored response that name a record. -/
inductive ResponseField
  | goalId
  | analysisId
  | resultingAnalysisId
  | proposalId
  | decisionTraceId
  | roadmapId
  | recomputeRequestId
  deriving DecidableEq

/-- `idempotency_records.response`: the records that its members name and the rest of the
document. -/
structure ResponseDocument where
  named : List (ResponseField × Uuid)
  document : String
  deriving DecidableEq

/-! ### Rows -/

/-- `users`. `src/jobtology_be/infrastructure/persistence/schema.py:29–37`. -/
structure UserRow where
  id : Uuid
  isActive : Bool
  displayName : Option String
  deriving DecidableEq

/-- `google_identities`; a check fixes the issuer.
`src/jobtology_be/infrastructure/persistence/schema.py:54–65`. -/
structure IdentityRow where
  subject : String
  userId : Uuid
  deriving DecidableEq

/-- `auth_sessions`. `src/jobtology_be/infrastructure/persistence/schema.py:95–107`. -/
structure SessionRow where
  id : Uuid
  userId : Uuid
  tokenHash : Digest
  csrfHash : Digest
  expiresAt : Int
  revokedAt : Option Int
  deriving DecidableEq

/-- `invitation_codes`, without the texts that only label a code.
`src/jobtology_be/infrastructure/persistence/schema.py:110–127`. -/
structure InvitationRow where
  id : Uuid
  codeHash : Digest
  expiresAt : Option Int
  accessHours : Option ℚ
  maxUses : Option Int
  useCount : Int
  revokedAt : Option Int
  deriving DecidableEq

/-- `account_access_source_check`. -/
inductive AccessSource
  | legacy
  | invitation
  deriving DecidableEq

/-- `account_access`. `src/jobtology_be/infrastructure/persistence/schema.py:132–143`. -/
structure AccessRow where
  subjectHash : Digest
  userId : Option Uuid
  invitationId : Option Uuid
  source : AccessSource
  grantedAt : Int
  expiresAt : Option Int
  revokedAt : Option Int
  deriving DecidableEq

/-- `management_audit`. `src/jobtology_be/infrastructure/persistence/schema.py:145–151`. -/
structure AuditRow where
  id : Uuid
  action : String
  targetId : Uuid
  deriving DecidableEq

/-- `profiles`. `src/jobtology_be/infrastructure/persistence/schema.py:39–52`. -/
structure ProfileRow where
  userId : Uuid
  version : Nat
  latestAnalysisId : Option Uuid
  deriving DecidableEq

/-- `user_state_events`. `src/jobtology_be/infrastructure/persistence/schema.py:163–176`. -/
structure EventRow where
  id : Uuid
  userId : Uuid
  aggregateId : Uuid
  version : Nat
  kind : EventKind
  payload : EventPayload
  deriving DecidableEq

/-- `user_capabilities`. `src/jobtology_be/infrastructure/persistence/schema.py:178–199`. -/
structure CapabilityRow where
  id : Uuid
  userId : Uuid
  category : String
  rawText : String
  entityId : Option String
  lifecycle : Lifecycle
  details : CapabilityDetails
  sourceCompletionEventId : Option Uuid
  deriving DecidableEq

/-- `goals`. `src/jobtology_be/infrastructure/persistence/schema.py:206–225`. -/
structure GoalRow where
  id : Uuid
  userId : Uuid
  goalMode : GoalMode
  occupationId : Option String
  targetBy : Int
  timezone : String
  status : GoalStatus
  deriving DecidableEq

/-- `route_preferences`. `src/jobtology_be/infrastructure/persistence/schema.py:233–262`. -/
structure PreferencesRow where
  userId : Uuid
  availableHoursPerWeek : Int
  lowCost : Bool
  maxOutOfPocketKrw : Option Int
  fastestPath : Bool
  needsPortfolio : Bool
  careerSwitch : Bool
  weeklyAvailability : List WeeklyAvailabilityWindow
  unavailableDates : List Int
  deriving DecidableEq

/-- `analyses`, with the occupations named by its snapshot and by its results.
`src/jobtology_be/infrastructure/persistence/schema.py:264–285`. -/
structure AnalysisRow where
  id : Uuid
  userId : Uuid
  goalId : Uuid
  profileVersion : Nat
  releaseId : Option String
  status : AnalysisStatus
  snapshotOccupation : Option String
  resultOccupation : Option String
  deriving DecidableEq

/-- `calculation_traces`. `src/jobtology_be/infrastructure/persistence/schema.py:288–299`. -/
structure TraceRow where
  id : Uuid
  userId : Uuid
  deriving DecidableEq

/-- `route_proposals`. `src/jobtology_be/infrastructure/persistence/schema.py:301–322`. -/
structure ProposalRow where
  id : Uuid
  analysisId : Uuid
  userId : Uuid
  proposalHash : String
  profileVersion : Nat
  targetBy : JsonField Int
  feasibility : RouteFeasibility
  steps : List ProposalStep
  decisionTraceId : Uuid
  deriving DecidableEq

/-- `roadmaps`. `src/jobtology_be/infrastructure/persistence/schema.py:324–341`. -/
structure RoadmapRow where
  id : Uuid
  userId : Uuid
  goalId : Uuid
  proposalId : Uuid
  title : String
  state : RoadmapState
  version : Nat
  profileVersion : Nat
  releaseId : Option String
  validity : Validity
  createdAt : Int
  deriving DecidableEq

/-- `roadmap_plan_overrides`. `src/jobtology_be/infrastructure/persistence/weekly_plan.py:39–55`,
`src/jobtology_be/infrastructure/persistence/schema.py:349–363`. -/
structure OverrideRow where
  roadmapId : Uuid
  weeklyHours : Int
  restWeeks : List Int
  stepOrder : List Uuid
  stepHours : List (Uuid × Int)
  version : Nat
  isCustomized : Bool
  stepSchedules : List (Uuid × WeeklyPlanStep)
  updatedAt : Int
  deriving DecidableEq

/-- `roadmap_steps`. `src/jobtology_be/infrastructure/persistence/schema.py:365–389`. -/
structure StepRow where
  id : Uuid
  roadmapId : Uuid
  stepKey : String
  position : Nat
  actionId : String
  templateRevision : Int
  state : StepState
  plannedStart : Option Int
  plannedEnd : Option Int
  outcomes : List RoadmapOutcome
  criteria : List String
  deriving DecidableEq

/-- `step_dependencies`. `src/jobtology_be/infrastructure/persistence/schema.py:391–406`. -/
structure DependencyRow where
  roadmapId : Uuid
  stepId : Uuid
  prerequisiteStepId : Uuid
  deriving DecidableEq

/-- `step_completion_inheritances`.
`src/jobtology_be/infrastructure/persistence/schema.py:408–419`. -/
structure InheritanceRow where
  stepId : Uuid
  originalCompletionEventId : Uuid
  deriving DecidableEq

/-- `recompute_requests`. `src/jobtology_be/infrastructure/persistence/schema.py:421–441`. -/
structure RequestRow where
  id : Uuid
  userId : Uuid
  profileVersion : Nat
  triggerEventId : Uuid
  state : RequestState
  resultingAnalysisId : Option Uuid
  proposalId : Option Uuid
  autoRoadmapPending : Bool
  errorCode : Option String
  createdAt : Int
  deriving DecidableEq

/-- `recompute_contexts`. `src/jobtology_be/infrastructure/persistence/schema.py:450–461`. -/
structure ContextRow where
  requestId : Uuid
  payload : RecomputeContext
  deriving DecidableEq

/-- `outbox_jobs`, with the request named in its payload.
`src/jobtology_be/infrastructure/persistence/schema.py:463–483`. -/
structure JobRow where
  id : Uuid
  kind : JobKind
  payloadRequestId : Option Uuid
  recomputeRequestId : Option Uuid
  dedupeKey : String
  state : JobState
  attemptCount : Nat
  availableAt : Int
  leaseUntil : Option Int
  leaseToken : Option Uuid
  deriving DecidableEq

/-- `account_rate_limits`. `src/jobtology_be/infrastructure/persistence/schema.py:153–161`. -/
structure RateLimitRow where
  userId : Uuid
  scope : String
  windowStartedAt : Int
  requestCount : Nat
  deriving DecidableEq

/-- `idempotency_records`. `src/jobtology_be/infrastructure/persistence/schema.py:487–500`. -/
structure IdempotencyRow where
  userId : Uuid
  method : String
  path : String
  key : String
  requestHash : String
  response : Option (Int × ResponseDocument)
  expiresAt : Int
  deriving DecidableEq

/-- The database. -/
structure Db where
  users : List UserRow := []
  identities : List IdentityRow := []
  sessions : List SessionRow := []
  invitations : List InvitationRow := []
  accountAccess : List AccessRow := []
  audit : List AuditRow := []
  profiles : List ProfileRow := []
  events : List EventRow := []
  capabilities : List CapabilityRow := []
  goals : List GoalRow := []
  preferences : List PreferencesRow := []
  analyses : List AnalysisRow := []
  traces : List TraceRow := []
  proposals : List ProposalRow := []
  roadmaps : List RoadmapRow := []
  overrides : List OverrideRow := []
  steps : List StepRow := []
  dependencies : List DependencyRow := []
  inheritances : List InheritanceRow := []
  requests : List RequestRow := []
  contexts : List ContextRow := []
  jobs : List JobRow := []
  rateLimits : List RateLimitRow := []
  idempotency : List IdempotencyRow := []
  deriving DecidableEq

/-! ### Constraints -/

/-- Constraints of `users` and `profiles`. -/
@[mk_iff] structure AccountConstraints (users : List UserRow) (profiles : List ProfileRow) :
    Prop where
  usersKey : Unique (·.id) users
  profilesKey : Unique (·.userId) profiles
  profilesUser : Refers (·.userId) profiles (·.id) users

/-- Constraints of `google_identities` and `auth_sessions`. -/
@[mk_iff] structure CredentialConstraints (identities : List IdentityRow)
    (sessions : List SessionRow) (users : List UserRow) : Prop where
  identitiesKey : Unique (·.subject) identities
  identitiesUser : Refers (·.userId) identities (·.id) users
  subject : ∀ i ∈ identities, i.subject ≠ ""
  sessionsKey : Unique (·.id) sessions
  sessionsUser : Refers (·.userId) sessions (·.id) users
  token : Unique (·.tokenHash) sessions

/-- Constraints of `invitation_codes`, `account_access` and `management_audit`. -/
@[mk_iff] structure AdmissionConstraints (invitations : List InvitationRow)
    (accountAccess : List AccessRow) (audit : List AuditRow) (users : List UserRow) : Prop where
  invitationsKey : Unique (·.id) invitations
  code : Unique (·.codeHash) invitations
  accessHours : ∀ i ∈ invitations, ∀ hours ∈ i.accessHours, 0 < hours ∧ hours ≤ 876000
  maxUses : ∀ i ∈ invitations, ∀ n ∈ i.maxUses, 0 < n
  useCount : ∀ i ∈ invitations, 0 ≤ i.useCount
  accessKey : Unique (·.subjectHash) accountAccess
  accessUser : RefersWhenSet (·.userId) accountAccess (·.id) users
  oneAccessPerUser : UniqueWhere (·.userId ≠ none) (·.userId) accountAccess
  accessInvitation : RefersWhenSet (·.invitationId) accountAccess (·.id) invitations
  auditKey : Unique (·.id) audit

/-- Constraints of `user_state_events`. -/
@[mk_iff] structure EventConstraints (events : List EventRow) (users : List UserRow) :
    Prop where
  key : Unique (·.id) events
  user : Refers (·.userId) events (·.id) users
  aggregateVersion : Unique (fun e ↦ (e.aggregateId, e.version)) events
  version : ∀ e ∈ events, 1 ≤ e.version

/-- Constraints of `user_capabilities`. A unique key with an empty column is never violated. -/
@[mk_iff] structure CapabilityConstraints (capabilities : List CapabilityRow)
    (users : List UserRow) (events : List EventRow) : Prop where
  key : Unique (·.id) capabilities
  user : Refers (·.userId) capabilities (·.id) users
  source : RefersWhenSet (·.sourceCompletionEventId) capabilities (·.id) events
  completionEntity : UniqueWhere (fun c ↦ c.sourceCompletionEventId ≠ none ∧ c.entityId ≠ none)
    (fun c ↦ (c.sourceCompletionEventId, c.entityId)) capabilities
  rawText : ∀ c ∈ capabilities, ∃ x ∈ c.rawText.toList, x ≠ ' '

/-- Constraints of `goals`. -/
@[mk_iff] structure GoalConstraints (goals : List GoalRow) (users : List UserRow) : Prop where
  key : Unique (·.id) goals
  user : Refers (·.userId) goals (·.id) users
  oneActivePerUser : UniqueWhere (·.status = .active) (·.userId) goals
  targetedOccupation : ∀ g ∈ goals, g.goalMode = .discovery ∨ g.occupationId ≠ none

/-- Constraints of `route_preferences`. -/
@[mk_iff] structure PreferencesConstraints (preferences : List PreferencesRow)
    (users : List UserRow) : Prop where
  key : Unique (·.userId) preferences
  user : Refers (·.userId) preferences (·.id) users
  capacity : ∀ p ∈ preferences, 1 ≤ p.availableHoursPerWeek ∧ p.availableHoursPerWeek ≤ 60
  budget : ∀ p ∈ preferences, ∀ n ∈ p.maxOutOfPocketKrw, 0 ≤ n
  windows : ∀ p ∈ preferences, p.weeklyAvailability.length ≤ 168
  dates : ∀ p ∈ preferences, p.unavailableDates.length ≤ 366

/-- Constraints of `analyses`. -/
@[mk_iff] structure AnalysisConstraints (analyses : List AnalysisRow) (users : List UserRow)
    (goals : List GoalRow) : Prop where
  key : Unique (·.id) analyses
  user : Refers (·.userId) analyses (·.id) users
  goal : Refers (·.goalId) analyses (·.id) goals
  version : ∀ a ∈ analyses, 1 ≤ a.profileVersion

/-- Constraints of `calculation_traces` and `route_proposals`. -/
@[mk_iff] structure ProposalConstraints (proposals : List ProposalRow) (traces : List TraceRow)
    (users : List UserRow) (analyses : List AnalysisRow) : Prop where
  tracesKey : Unique (·.id) traces
  tracesUser : Refers (·.userId) traces (·.id) users
  key : Unique (·.id) proposals
  user : Refers (·.userId) proposals (·.id) users
  analysis : Refers (·.analysisId) proposals (·.id) analyses
  trace : Refers (·.decisionTraceId) proposals (·.id) traces
  version : ∀ p ∈ proposals, 1 ≤ p.profileVersion

/-- Constraints of `roadmaps`. -/
@[mk_iff] structure RoadmapConstraints (roadmaps : List RoadmapRow) (users : List UserRow)
    (goals : List GoalRow) (proposals : List ProposalRow) : Prop where
  key : Unique (·.id) roadmaps
  user : Refers (·.userId) roadmaps (·.id) users
  goal : Refers (·.goalId) roadmaps (·.id) goals
  proposal : Refers (·.proposalId) roadmaps (·.id) proposals
  oneActivePerUser : UniqueWhere (·.state = .active) (·.userId) roadmaps
  title : ∀ r ∈ roadmaps, r.title.length ≤ 200
  version : ∀ r ∈ roadmaps, 1 ≤ r.version

/-- Constraints of `roadmap_plan_overrides`. -/
@[mk_iff] structure OverrideConstraints (overrides : List OverrideRow)
    (roadmaps : List RoadmapRow) : Prop where
  key : Unique (·.roadmapId) overrides
  roadmap : Refers (·.roadmapId) overrides (·.id) roadmaps
  version : ∀ o ∈ overrides, 1 ≤ o.version
  capacity : ∀ o ∈ overrides, 1 ≤ o.weeklyHours ∧ o.weeklyHours ≤ 60

/-- The values that the columns of `roadmap_steps` can hold. -/
@[mk_iff] structure StepRow.Fits (s : StepRow) : Prop where
  stepKey : s.stepKey.length ≤ 128
  actionId : s.actionId.length ≤ 128
  templateRevision : 1 ≤ s.templateRevision
  templateRevisionRange : s.templateRevision < 2147483648

/-- Constraints of `roadmap_steps`. -/
@[mk_iff] structure StepConstraints (steps : List StepRow) (roadmaps : List RoadmapRow) :
    Prop where
  key : Unique (·.id) steps
  roadmap : Refers (·.roadmapId) steps (·.id) roadmaps
  roadmapStepKey : Unique (fun s ↦ (s.roadmapId, s.stepKey)) steps
  roadmapPosition : Unique (fun s ↦ (s.roadmapId, s.position)) steps
  fits : ∀ s ∈ steps, s.Fits

/-- Constraints of `step_dependencies`. -/
@[mk_iff] structure DependencyConstraints (dependencies : List DependencyRow)
    (roadmaps : List RoadmapRow) (steps : List StepRow) : Prop where
  key : dependencies.Nodup
  roadmap : Refers (·.roadmapId) dependencies (·.id) roadmaps
  step : Refers (fun d ↦ (d.roadmapId, d.stepId)) dependencies (fun s ↦ (s.roadmapId, s.id)) steps
  prerequisite : Refers (fun d ↦ (d.roadmapId, d.prerequisiteStepId)) dependencies
    (fun s ↦ (s.roadmapId, s.id)) steps
  noSelfEdge : ∀ d ∈ dependencies, d.stepId ≠ d.prerequisiteStepId

/-- Constraints of `step_completion_inheritances`. -/
@[mk_iff] structure InheritanceConstraints (inheritances : List InheritanceRow)
    (steps : List StepRow) (events : List EventRow) : Prop where
  key : Unique (·.stepId) inheritances
  step : Refers (·.stepId) inheritances (·.id) steps
  event : Refers (·.originalCompletionEventId) inheritances (·.id) events

/-- Constraints of `recompute_requests` and `recompute_contexts`. -/
@[mk_iff] structure RequestConstraints (requests : List RequestRow) (contexts : List ContextRow)
    (users : List UserRow) (events : List EventRow) (analyses : List AnalysisRow)
    (proposals : List ProposalRow) : Prop where
  key : Unique (·.id) requests
  user : Refers (·.userId) requests (·.id) users
  event : Refers (·.triggerEventId) requests (·.id) events
  analysis : RefersWhenSet (·.resultingAnalysisId) requests (·.id) analyses
  proposal : RefersWhenSet (·.proposalId) requests (·.id) proposals
  trigger : Unique (fun r ↦ (r.userId, r.profileVersion, r.triggerEventId)) requests
  contextKey : Unique (·.requestId) contexts
  contextRequest : Refers (·.requestId) contexts (·.id) requests

/-- Constraints of `outbox_jobs`. -/
@[mk_iff] structure JobConstraints (jobs : List JobRow) (requests : List RequestRow) : Prop where
  key : Unique (·.id) jobs
  request : RefersWhenSet (·.recomputeRequestId) jobs (·.id) requests
  dedupe : Unique (·.dedupeKey) jobs
  oneJobPerRequest : UniqueWhere (·.recomputeRequestId ≠ none) (·.recomputeRequestId) jobs

/-- Constraints of `account_rate_limits`. -/
@[mk_iff] structure RateLimitConstraints (rateLimits : List RateLimitRow)
    (users : List UserRow) : Prop where
  key : Unique (fun l ↦ (l.userId, l.scope)) rateLimits
  user : Refers (·.userId) rateLimits (·.id) users
  count : ∀ l ∈ rateLimits, 1 ≤ l.requestCount

/-- Constraints of `idempotency_records`. -/
@[mk_iff] structure IdempotencyConstraints (idempotency : List IdempotencyRow)
    (users : List UserRow) : Prop where
  key : Unique (fun r ↦ (r.userId, r.method, r.path, r.key)) idempotency
  user : Refers (·.userId) idempotency (·.id) users

/-- The constraints of the schema. -/
@[mk_iff] structure Constraints (db : Db) : Prop where
  accounts : AccountConstraints db.users db.profiles
  credentials : CredentialConstraints db.identities db.sessions db.users
  admissions : AdmissionConstraints db.invitations db.accountAccess db.audit db.users
  events : EventConstraints db.events db.users
  capabilities : CapabilityConstraints db.capabilities db.users db.events
  goals : GoalConstraints db.goals db.users
  preferences : PreferencesConstraints db.preferences db.users
  analyses : AnalysisConstraints db.analyses db.users db.goals
  proposals : ProposalConstraints db.proposals db.traces db.users db.analyses
  roadmaps : RoadmapConstraints db.roadmaps db.users db.goals db.proposals
  overrides : OverrideConstraints db.overrides db.roadmaps
  steps : StepConstraints db.steps db.roadmaps
  dependencies : DependencyConstraints db.dependencies db.roadmaps db.steps
  inheritances : InheritanceConstraints db.inheritances db.steps db.events
  requests : RequestConstraints db.requests db.contexts db.users db.events db.analyses
    db.proposals
  jobs : JobConstraints db.jobs db.requests
  rateLimits : RateLimitConstraints db.rateLimits db.users
  idempotency : IdempotencyConstraints db.idempotency db.users

section Decidable

variable {users : List UserRow} {profiles : List ProfileRow} {events : List EventRow}
  {capabilities : List CapabilityRow} {goals : List GoalRow} {analyses : List AnalysisRow}
  {traces : List TraceRow} {proposals : List ProposalRow} {roadmaps : List RoadmapRow}
  {overrides : List OverrideRow} {steps : List StepRow} {dependencies : List DependencyRow}
  {inheritances : List InheritanceRow} {requests : List RequestRow} {contexts : List ContextRow}
  {jobs : List JobRow} {rateLimits : List RateLimitRow} {identities : List IdentityRow}
  {sessions : List SessionRow} {invitations : List InvitationRow} {accountAccess : List AccessRow}
  {audit : List AuditRow} {preferences : List PreferencesRow} {idempotency : List IdempotencyRow}

instance : Decidable (AccountConstraints users profiles) :=
  decidable_of_iff' _ (accountConstraints_iff users profiles)

instance : Decidable (CredentialConstraints identities sessions users) :=
  decidable_of_iff' _ (credentialConstraints_iff identities sessions users)

instance : Decidable (AdmissionConstraints invitations accountAccess audit users) :=
  decidable_of_iff' _ (admissionConstraints_iff invitations accountAccess audit users)

instance : Decidable (PreferencesConstraints preferences users) :=
  decidable_of_iff' _ (preferencesConstraints_iff preferences users)

instance : Decidable (IdempotencyConstraints idempotency users) :=
  decidable_of_iff' _ (idempotencyConstraints_iff idempotency users)

instance : Decidable (EventConstraints events users) :=
  decidable_of_iff' _ (eventConstraints_iff events users)

instance decidableNotBlank (text : String) : Decidable (∃ x ∈ text.toList, x ≠ ' ') :=
  List.decidableBEx _ _

instance : Decidable (CapabilityConstraints capabilities users events) :=
  decidable_of_iff' _ (capabilityConstraints_iff capabilities users events)

instance : Decidable (GoalConstraints goals users) :=
  decidable_of_iff' _ (goalConstraints_iff goals users)

instance : Decidable (AnalysisConstraints analyses users goals) :=
  decidable_of_iff' _ (analysisConstraints_iff analyses users goals)

instance : Decidable (ProposalConstraints proposals traces users analyses) :=
  decidable_of_iff' _ (proposalConstraints_iff proposals traces users analyses)

instance : Decidable (RoadmapConstraints roadmaps users goals proposals) :=
  decidable_of_iff' _ (roadmapConstraints_iff roadmaps users goals proposals)

instance : Decidable (OverrideConstraints overrides roadmaps) :=
  decidable_of_iff' _ (overrideConstraints_iff overrides roadmaps)

instance (s : StepRow) : Decidable s.Fits :=
  decidable_of_iff' _ (StepRow.fits_iff s)

instance : Decidable (StepConstraints steps roadmaps) :=
  decidable_of_iff' _ (stepConstraints_iff steps roadmaps)

instance : Decidable (DependencyConstraints dependencies roadmaps steps) :=
  decidable_of_iff' _ (dependencyConstraints_iff dependencies roadmaps steps)

instance : Decidable (InheritanceConstraints inheritances steps events) :=
  decidable_of_iff' _ (inheritanceConstraints_iff inheritances steps events)

instance : Decidable (RequestConstraints requests contexts users events analyses proposals) :=
  decidable_of_iff' _ (requestConstraints_iff requests contexts users events analyses proposals)

instance : Decidable (JobConstraints jobs requests) :=
  decidable_of_iff' _ (jobConstraints_iff jobs requests)

instance : Decidable (RateLimitConstraints rateLimits users) :=
  decidable_of_iff' _ (rateLimitConstraints_iff rateLimits users)

instance : DecidablePred Constraints := fun db ↦ decidable_of_iff' _ (constraints_iff db)

end Decidable

end Jobtology.Store
