import Jobtology.Relational.Erasure
import Jobtology.Store.Session

/-!
# Erasing the records of an owner

The tables that hold records of an account, the references between them, and the constraints while
an erasure goes through them table by table.
-/

namespace Jobtology.Store

open Jobtology.Base Jobtology.Relational

/-- The tables with the records of an account. -/
inductive Table
  | inheritances
  | dependencies
  | overrides
  | steps
  | roadmaps
  | jobs
  | contexts
  | requests
  | proposals
  | traces
  | analyses
  | capabilities
  | preferences
  | idempotency
  | goals
  | events
  | sessions
  | rateLimits
  | profiles
  | identities
  deriving DecidableEq

/-- The tables that refer to a table. -/
def Table.children : Table → List Table
  | .steps => [.inheritances, .dependencies]
  | .roadmaps => [.dependencies, .overrides, .steps]
  | .requests => [.jobs, .contexts]
  | .proposals => [.roadmaps, .requests]
  | .traces => [.proposals]
  | .analyses => [.proposals, .requests]
  | .goals => [.roadmaps, .analyses]
  | .events => [.inheritances, .capabilities, .requests]
  | _ => []

/-- Referring tables come first. -/
def ChildrenFirst (done : List Table) : Prop := ∀ t ∈ done, ∀ c ∈ t.children, c ∈ done

instance : DecidablePred ChildrenFirst :=
  fun done ↦ inferInstanceAs (Decidable (∀ t ∈ done, _))

/-- The rows that an erasure keeps. -/
structure Retention where
  inheritances : InheritanceRow → Bool := fun _ ↦ true
  dependencies : DependencyRow → Bool := fun _ ↦ true
  overrides : OverrideRow → Bool := fun _ ↦ true
  steps : StepRow → Bool := fun _ ↦ true
  roadmaps : RoadmapRow → Bool := fun _ ↦ true
  jobs : JobRow → Bool := fun _ ↦ true
  contexts : ContextRow → Bool := fun _ ↦ true
  requests : RequestRow → Bool := fun _ ↦ true
  proposals : ProposalRow → Bool := fun _ ↦ true
  traces : TraceRow → Bool := fun _ ↦ true
  analyses : AnalysisRow → Bool := fun _ ↦ true
  capabilities : CapabilityRow → Bool := fun _ ↦ true
  preferences : PreferencesRow → Bool := fun _ ↦ true
  idempotency : IdempotencyRow → Bool := fun _ ↦ true
  goals : GoalRow → Bool := fun _ ↦ true
  events : EventRow → Bool := fun _ ↦ true
  sessions : SessionRow → Bool := fun _ ↦ true
  rateLimits : RateLimitRow → Bool := fun _ ↦ true
  profiles : ProfileRow → Bool := fun _ ↦ true
  identities : IdentityRow → Bool := fun _ ↦ true

/-- The database once the erasure went through some tables. -/
def Db.retain (db : Db) (keep : Retention) (done : List Table) : Db := { db with
  inheritances := retained (.inheritances ∈ done) keep.inheritances db.inheritances
  dependencies := retained (.dependencies ∈ done) keep.dependencies db.dependencies
  overrides := retained (.overrides ∈ done) keep.overrides db.overrides
  steps := retained (.steps ∈ done) keep.steps db.steps
  roadmaps := retained (.roadmaps ∈ done) keep.roadmaps db.roadmaps
  jobs := retained (.jobs ∈ done) keep.jobs db.jobs
  contexts := retained (.contexts ∈ done) keep.contexts db.contexts
  requests := retained (.requests ∈ done) keep.requests db.requests
  proposals := retained (.proposals ∈ done) keep.proposals db.proposals
  traces := retained (.traces ∈ done) keep.traces db.traces
  analyses := retained (.analyses ∈ done) keep.analyses db.analyses
  capabilities := retained (.capabilities ∈ done) keep.capabilities db.capabilities
  preferences := retained (.preferences ∈ done) keep.preferences db.preferences
  idempotency := retained (.idempotency ∈ done) keep.idempotency db.idempotency
  goals := retained (.goals ∈ done) keep.goals db.goals
  events := retained (.events ∈ done) keep.events db.events
  sessions := retained (.sessions ∈ done) keep.sessions db.sessions
  rateLimits := retained (.rateLimits ∈ done) keep.rateLimits db.rateLimits
  profiles := retained (.profiles ∈ done) keep.profiles db.profiles
  identities := retained (.identities ∈ done) keep.identities db.identities }

/-- What a kept row names is kept. -/
def KeptBy {α β : Type} (keep : α → Bool) (keep' : β → Bool) (names : α → List Uuid)
    (rows : List α) (id : β → Uuid) (targets : List β) : Prop :=
  ∀ r ∈ rows, ∀ t ∈ targets, id t ∈ names r → keep r = true → keep' t = true

/-- What kept rows refer to by a foreign key is kept. -/
structure Retention.Closed (keep : Retention) (db : Db) : Prop where
  capabilityEvent : KeptBy keep.capabilities keep.events (·.sourceCompletionEventId.toList)
    db.capabilities (·.id) db.events
  analysisGoal : KeptBy keep.analyses keep.goals ([·.goalId]) db.analyses (·.id) db.goals
  proposalAnalysis : KeptBy keep.proposals keep.analyses ([·.analysisId]) db.proposals (·.id)
    db.analyses
  proposalTrace : KeptBy keep.proposals keep.traces ([·.decisionTraceId]) db.proposals (·.id)
    db.traces
  roadmapGoal : KeptBy keep.roadmaps keep.goals ([·.goalId]) db.roadmaps (·.id) db.goals
  roadmapProposal : KeptBy keep.roadmaps keep.proposals ([·.proposalId]) db.roadmaps (·.id)
    db.proposals
  overrideRoadmap : KeptBy keep.overrides keep.roadmaps ([·.roadmapId]) db.overrides (·.id)
    db.roadmaps
  stepRoadmap : KeptBy keep.steps keep.roadmaps ([·.roadmapId]) db.steps (·.id) db.roadmaps
  dependencyRoadmap : KeptBy keep.dependencies keep.roadmaps ([·.roadmapId]) db.dependencies
    (·.id) db.roadmaps
  dependencyStep : KeptBy keep.dependencies keep.steps
    (fun d ↦ [d.stepId, d.prerequisiteStepId]) db.dependencies (·.id) db.steps
  inheritanceStep : KeptBy keep.inheritances keep.steps ([·.stepId]) db.inheritances (·.id)
    db.steps
  inheritanceEvent : KeptBy keep.inheritances keep.events ([·.originalCompletionEventId])
    db.inheritances (·.id) db.events
  requestEvent : KeptBy keep.requests keep.events ([·.triggerEventId]) db.requests (·.id)
    db.events
  requestAnalysis : KeptBy keep.requests keep.analyses (·.resultingAnalysisId.toList) db.requests
    (·.id) db.analyses
  requestProposal : KeptBy keep.requests keep.proposals (·.proposalId.toList) db.requests (·.id)
    db.proposals
  contextRequest : KeptBy keep.contexts keep.requests ([·.requestId]) db.contexts (·.id)
    db.requests
  jobRequest : KeptBy keep.jobs keep.requests (·.recomputeRequestId.toList) db.jobs (·.id)
    db.requests

section Retain

variable {db : Db} {keep : Retention} {done : List Table}

/-- A foreign key on the way. -/
theorem refers_retained {α β : Type} {keep : α → Bool} {keep' : β → Bool} {key : α → Uuid}
    {rows : List α} {id : β → Uuid} {targets : List β} {t t' : Table}
    (h : Refers key rows id targets) (hkept : KeptBy keep keep' ([key ·]) rows id targets)
    (hdone : ChildrenFirst done) (hchild : t ∈ t'.children) :
    Refers key (retained (t ∈ done) keep rows) id (retained (t' ∈ done) keep' targets) :=
  h.retained (fun r hr x hx hkey ↦ hkept r hr x hx (List.mem_singleton.mpr hkey))
    fun hmem ↦ hdone t' hmem t hchild

private theorem refersWhenSet_retained {α β : Type} {keep : α → Bool} {keep' : β → Bool}
    {key : α → Option Uuid} {rows : List α} {id : β → Uuid} {targets : List β} {t t' : Table}
    (h : RefersWhenSet key rows id targets)
    (hkept : KeptBy keep keep' (key ·|>.toList) rows id targets)
    (hdone : ChildrenFirst done) (hchild : t ∈ t'.children) :
    RefersWhenSet key (retained (t ∈ done) keep rows) id (retained (t' ∈ done) keep' targets) :=
  h.retained (fun r hr x hx hkey ↦ hkept r hr x hx (Option.mem_toList.mpr hkey))
    fun hmem ↦ hdone t' hmem t hchild

/-- The constraints hold while an erasure that keeps what kept rows refer to goes through the
tables, referring ones first. -/
theorem Constraints.retain (h : Constraints db) (hclosed : keep.Closed db)
    (hdone : ChildrenFirst done) : Constraints (db.retain keep done) where
  accounts := ⟨h.accounts.usersKey, h.accounts.profilesKey.retained,
    h.accounts.profilesUser.retained_left⟩
  credentials := ⟨h.credentials.identitiesKey.retained, h.credentials.identitiesUser.retained_left,
    forall_retained h.credentials.subject, h.credentials.sessionsKey.retained,
    h.credentials.sessionsUser.retained_left, h.credentials.token.retained⟩
  admissions := h.admissions
  events := ⟨h.events.key.retained, h.events.user.retained_left, h.events.aggregateVersion.retained,
    forall_retained h.events.version⟩
  capabilities := ⟨h.capabilities.key.retained, h.capabilities.user.retained_left,
    refersWhenSet_retained h.capabilities.source hclosed.capabilityEvent hdone (by decide),
    h.capabilities.completionEntity.retained, forall_retained h.capabilities.rawText⟩
  goals := ⟨h.goals.key.retained, h.goals.user.retained_left, h.goals.oneActivePerUser.retained,
    forall_retained h.goals.targetedOccupation⟩
  preferences := ⟨h.preferences.key.retained, h.preferences.user.retained_left,
    forall_retained h.preferences.capacity, forall_retained h.preferences.budget,
    forall_retained h.preferences.windows, forall_retained h.preferences.dates⟩
  analyses := ⟨h.analyses.key.retained, h.analyses.user.retained_left,
    refers_retained h.analyses.goal hclosed.analysisGoal hdone (by decide),
    forall_retained h.analyses.version⟩
  proposals := ⟨h.proposals.tracesKey.retained, h.proposals.tracesUser.retained_left,
    h.proposals.key.retained, h.proposals.user.retained_left,
    refers_retained h.proposals.analysis hclosed.proposalAnalysis hdone (by decide),
    refers_retained h.proposals.trace hclosed.proposalTrace hdone (by decide),
    forall_retained h.proposals.version⟩
  roadmaps := ⟨h.roadmaps.key.retained, h.roadmaps.user.retained_left,
    refers_retained h.roadmaps.goal hclosed.roadmapGoal hdone (by decide),
    refers_retained h.roadmaps.proposal hclosed.roadmapProposal hdone (by decide),
    h.roadmaps.oneActivePerUser.retained, forall_retained h.roadmaps.title,
    forall_retained h.roadmaps.version⟩
  overrides := ⟨h.overrides.key.retained,
    refers_retained h.overrides.roadmap hclosed.overrideRoadmap hdone (by decide),
    forall_retained h.overrides.version, forall_retained h.overrides.capacity⟩
  steps := ⟨h.steps.key.retained,
    refers_retained h.steps.roadmap hclosed.stepRoadmap hdone (by decide),
    h.steps.roadmapStepKey.retained, h.steps.roadmapPosition.retained,
    forall_retained h.steps.fits⟩
  dependencies := ⟨h.dependencies.key.sublist retained_sublist,
    refers_retained h.dependencies.roadmap hclosed.dependencyRoadmap hdone (by decide),
    h.dependencies.step.retained
      (fun d hd s hs hkey ↦ hclosed.dependencyStep d hd s hs
        (List.mem_cons.mpr (.inl (congrArg Prod.snd hkey))))
      fun hmem ↦ hdone _ hmem _ (by decide),
    h.dependencies.prerequisite.retained
      (fun d hd s hs hkey ↦ hclosed.dependencyStep d hd s hs
        (List.mem_cons_of_mem _ (List.mem_singleton.mpr (congrArg Prod.snd hkey))))
      fun hmem ↦ hdone _ hmem _ (by decide),
    forall_retained h.dependencies.noSelfEdge⟩
  inheritances := ⟨h.inheritances.key.retained,
    refers_retained h.inheritances.step hclosed.inheritanceStep hdone (by decide),
    refers_retained h.inheritances.event hclosed.inheritanceEvent hdone (by decide)⟩
  requests := ⟨h.requests.key.retained, h.requests.user.retained_left,
    refers_retained h.requests.event hclosed.requestEvent hdone (by decide),
    refersWhenSet_retained h.requests.analysis hclosed.requestAnalysis hdone (by decide),
    refersWhenSet_retained h.requests.proposal hclosed.requestProposal hdone (by decide),
    h.requests.trigger.retained, h.requests.contextKey.retained,
    refers_retained h.requests.contextRequest hclosed.contextRequest hdone (by decide)⟩
  jobs := ⟨h.jobs.key.retained,
    refersWhenSet_retained h.jobs.request hclosed.jobRequest hdone (by decide),
    h.jobs.dedupe.retained, h.jobs.oneJobPerRequest.retained⟩
  rateLimits := ⟨h.rateLimits.key.retained, h.rateLimits.user.retained_left,
    forall_retained h.rateLimits.count⟩
  idempotency := ⟨h.idempotency.key.retained, h.idempotency.user.retained_left⟩

end Retain

end Jobtology.Store
