import Jobtology.Store.Accounts
import Jobtology.Store.Erasure

/-!
# Records and their users

What the rows of each table name, by foreign keys and in documents, and that the rows of a user
name records of that user only.
-/

namespace Jobtology.Store

open Jobtology.Base Jobtology.Relational

/-! ### What documents name -/

/-- The roadmaps that a revision history names. -/
def RoadmapRow.sourceRoadmaps (r : RoadmapRow) : List Uuid :=
  r.validity.revisionFromRoadmapId.toList ++
    r.validity.revisionHistorySteps.filterMap (·.2.sourceRoadmapId)

/-- The steps that a revision history names. -/
def RoadmapRow.sourceSteps (r : RoadmapRow) : List Uuid :=
  r.validity.revisionHistorySteps.filterMap (·.2.sourceStepId)

/-- The analyses that a revision history names. -/
def RoadmapRow.sourceAnalyses (r : RoadmapRow) : List Uuid :=
  r.validity.revisionHistorySteps.filterMap (·.2.sourceAnalysisId)

/-- The steps that a saved plan names. -/
def OverrideRow.namedSteps (o : OverrideRow) : List Uuid :=
  o.stepOrder ++ o.stepHours.map (·.1) ++ o.stepSchedules.map (·.1)

/-- The records that a stored response names under a member. -/
def IdempotencyRow.named (field : ResponseField) (r : IdempotencyRow) : List Uuid :=
  r.response.toList.flatMap fun response ↦
    (response.2.named.filter (·.1 = field)).map (·.2)

/-! ### Rows of a user -/

/-- A row names records of its own user only. -/
def SameUser {α β : Type} (names : α → List Uuid) (user : α → Uuid) (rows : List α)
    (id : β → Uuid) (user' : β → Uuid) (targets : List β) : Prop :=
  ∀ r ∈ rows, ∀ t ∈ targets, id t ∈ names r → user' t = user r

instance {α β : Type} (names : α → List Uuid) (user : α → Uuid) (rows : List α) (id : β → Uuid)
    (user' : β → Uuid) (targets : List β) :
    Decidable (SameUser names user rows id user' targets) :=
  inferInstanceAs (Decidable (∀ r ∈ rows, ∀ t ∈ targets, _))

/-- The rows of a user refer only to rows of the same user. -/
structure Owned (db : Db) : Prop where
  profileAnalysis : SameUser (·.latestAnalysisId.toList) (·.userId) db.profiles (·.id) (·.userId)
    db.analyses
  capabilityEvent : SameUser (·.sourceCompletionEventId.toList) (·.userId) db.capabilities (·.id)
    (·.userId) db.events
  capabilityStep : ∀ c ∈ db.capabilities, ∀ s ∈ db.steps, c.details.stepId = some s.id →
    db.ownsRoadmap c.userId s.roadmapId
  eventUser : ∀ e ∈ db.events, ∀ u ∈ db.users, e.aggregateId = u.id → u.id = e.userId
  eventGoal : SameUser (fun e ↦ e.aggregateId :: e.payload.goalId.toList) (·.userId) db.events
    (·.id) (·.userId) db.goals
  eventCapability : SameUser ([·.aggregateId]) (·.userId) db.events (·.id) (·.userId)
    db.capabilities
  eventStep : ∀ e ∈ db.events, ∀ s ∈ db.steps, e.aggregateId = s.id →
    db.ownsRoadmap e.userId s.roadmapId
  analysisGoal : SameUser ([·.goalId]) (·.userId) db.analyses (·.id) (·.userId) db.goals
  proposalAnalysis : SameUser ([·.analysisId]) (·.userId) db.proposals (·.id) (·.userId)
    db.analyses
  proposalTrace : SameUser ([·.decisionTraceId]) (·.userId) db.proposals (·.id) (·.userId)
    db.traces
  roadmapGoal : SameUser ([·.goalId]) (·.userId) db.roadmaps (·.id) (·.userId) db.goals
  roadmapProposal : SameUser ([·.proposalId]) (·.userId) db.roadmaps (·.id) (·.userId)
    db.proposals
  roadmapSource : SameUser (·.sourceRoadmaps) (·.userId) db.roadmaps (·.id) (·.userId) db.roadmaps
  roadmapSourceStep : ∀ r ∈ db.roadmaps, ∀ s ∈ db.steps, s.id ∈ r.sourceSteps →
    db.ownsRoadmap r.userId s.roadmapId
  roadmapSourceAnalysis : SameUser (·.sourceAnalyses) (·.userId) db.roadmaps (·.id) (·.userId)
    db.analyses
  overrideStep : ∀ o ∈ db.overrides, ∀ s ∈ db.steps, s.id ∈ o.namedSteps →
    s.roadmapId = o.roadmapId
  inheritanceEvent : ∀ i ∈ db.inheritances, ∀ e ∈ db.events, e.id = i.originalCompletionEventId →
    db.ownsStep e.userId i.stepId
  requestEvent : SameUser ([·.triggerEventId]) (·.userId) db.requests (·.id) (·.userId) db.events
  requestAnalysis : SameUser (·.resultingAnalysisId.toList) (·.userId) db.requests (·.id)
    (·.userId) db.analyses
  requestProposal : SameUser (·.proposalId.toList) (·.userId) db.requests (·.id) (·.userId)
    db.proposals
  contextGoal : ∀ c ∈ db.contexts, ∀ g ∈ db.goals, c.payload.goalId = some g.id →
    db.ownsRequest g.userId c.requestId
  responseGoal : SameUser (·.named .goalId) (·.userId) db.idempotency (·.id) (·.userId) db.goals
  responseAnalysis : SameUser (fun r ↦ r.named .analysisId ++ r.named .resultingAnalysisId)
    (·.userId) db.idempotency (·.id) (·.userId) db.analyses
  responseProposal : SameUser (·.named .proposalId) (·.userId) db.idempotency (·.id) (·.userId)
    db.proposals
  responseTrace : SameUser (·.named .decisionTraceId) (·.userId) db.idempotency (·.id) (·.userId)
    db.traces
  responseRoadmap : SameUser (·.named .roadmapId) (·.userId) db.idempotency (·.id) (·.userId)
    db.roadmaps
  responseRequest : SameUser (·.named .recomputeRequestId) (·.userId) db.idempotency (·.id)
    (·.userId) db.requests

/-- Every recompute job is linked to its request: a recompute job has a link, and a request named
in the payload is the linked one. -/
def JobsLinked (db : Db) : Prop :=
  ∀ j ∈ db.jobs, (j.kind = .recompute → j.recomputeRequestId ≠ none) ∧
    ∀ id ∈ j.payloadRequestId, j.recomputeRequestId = some id

instance (db : Db) : Decidable (JobsLinked db) :=
  inferInstanceAs (Decidable (∀ j ∈ db.jobs, _))

/-! ### What is still named -/

/-- What rows name and was there before is still there. -/
def StillThere {α β : Type} (names : α → List Uuid) (rows : List α) (id : β → Uuid)
    (before after : List β) : Prop :=
  ∀ r ∈ rows, ∀ x ∈ before, id x ∈ names r → x ∈ after

/-- No row names an erased record, by a foreign key or in a document. Events and the documents of
capabilities apart, which are an account's history. -/
structure NothingMissing (s t : Db) : Prop where
  profileAnalysis : StillThere (·.latestAnalysisId.toList) t.profiles (·.id) s.analyses t.analyses
  capabilityEvent : StillThere (·.sourceCompletionEventId.toList) t.capabilities (·.id) s.events
    t.events
  analysisGoal : StillThere ([·.goalId]) t.analyses (·.id) s.goals t.goals
  proposalAnalysis : StillThere ([·.analysisId]) t.proposals (·.id) s.analyses t.analyses
  proposalTrace : StillThere ([·.decisionTraceId]) t.proposals (·.id) s.traces t.traces
  roadmapGoal : StillThere ([·.goalId]) t.roadmaps (·.id) s.goals t.goals
  roadmapProposal : StillThere ([·.proposalId]) t.roadmaps (·.id) s.proposals t.proposals
  roadmapSource : StillThere (·.sourceRoadmaps) t.roadmaps (·.id) s.roadmaps t.roadmaps
  roadmapSourceStep : StillThere (·.sourceSteps) t.roadmaps (·.id) s.steps t.steps
  roadmapSourceAnalysis : StillThere (·.sourceAnalyses) t.roadmaps (·.id) s.analyses t.analyses
  overrideRoadmap : StillThere ([·.roadmapId]) t.overrides (·.id) s.roadmaps t.roadmaps
  overrideStep : StillThere (·.namedSteps) t.overrides (·.id) s.steps t.steps
  stepRoadmap : StillThere ([·.roadmapId]) t.steps (·.id) s.roadmaps t.roadmaps
  dependencyRoadmap : StillThere ([·.roadmapId]) t.dependencies (·.id) s.roadmaps t.roadmaps
  dependencyStep : StillThere (fun d ↦ [d.stepId, d.prerequisiteStepId]) t.dependencies (·.id)
    s.steps t.steps
  inheritanceStep : StillThere ([·.stepId]) t.inheritances (·.id) s.steps t.steps
  inheritanceEvent : StillThere ([·.originalCompletionEventId]) t.inheritances (·.id) s.events
    t.events
  requestEvent : StillThere ([·.triggerEventId]) t.requests (·.id) s.events t.events
  requestAnalysis : StillThere (·.resultingAnalysisId.toList) t.requests (·.id) s.analyses
    t.analyses
  requestProposal : StillThere (·.proposalId.toList) t.requests (·.id) s.proposals t.proposals
  contextRequest : StillThere ([·.requestId]) t.contexts (·.id) s.requests t.requests
  contextGoal : StillThere (·.payload.goalId.toList) t.contexts (·.id) s.goals t.goals
  jobRequest : StillThere (fun j ↦ j.recomputeRequestId.toList ++ j.payloadRequestId.toList) t.jobs
    (·.id) s.requests t.requests
  responseGoal : StillThere (·.named .goalId) t.idempotency (·.id) s.goals t.goals
  responseAnalysis : StillThere (fun r ↦ r.named .analysisId ++ r.named .resultingAnalysisId)
    t.idempotency (·.id) s.analyses t.analyses
  responseProposal : StillThere (·.named .proposalId) t.idempotency (·.id) s.proposals t.proposals
  responseTrace : StillThere (·.named .decisionTraceId) t.idempotency (·.id) s.traces t.traces
  responseRoadmap : StillThere (·.named .roadmapId) t.idempotency (·.id) s.roadmaps t.roadmaps
  responseRequest : StillThere (·.named .recomputeRequestId) t.idempotency (·.id) s.requests
    t.requests

/-- No event and no capability names an erased record in its documents. -/
structure HistoryComplete (s t : Db) : Prop where
  capabilityStep : StillThere (·.details.stepId.toList) t.capabilities (·.id) s.steps t.steps
  eventUser : StillThere ([·.aggregateId]) t.events (·.id) s.users t.users
  eventGoal : StillThere (fun e ↦ e.aggregateId :: e.payload.goalId.toList) t.events (·.id) s.goals
    t.goals
  eventCapability : StillThere ([·.aggregateId]) t.events (·.id) s.capabilities t.capabilities
  eventStep : StillThere ([·.aggregateId]) t.events (·.id) s.steps t.steps

/-- Both ends of a dependency are steps of its roadmap. -/
theorem dependency_roadmap {s : Database} {d : DependencyRow} (hd : d ∈ s.1.dependencies)
    {st : StepRow} (hst : st ∈ s.1.steps) (hname : st.id ∈ [d.stepId, d.prerequisiteStepId]) :
    st.roadmapId = d.roadmapId := by
  rcases List.mem_cons.mp hname with hid | hmem
  · obtain ⟨st', hst', hkey⟩ := s.2.dependencies.step d hd
    obtain ⟨hroadmap, hid'⟩ := Prod.mk.inj hkey
    rwa [s.2.steps.key.eq_of_mem hst hst' (hid.trans hid'.symm)]
  · obtain ⟨st', hst', hkey⟩ := s.2.dependencies.prerequisite d hd
    obtain ⟨hroadmap, hid'⟩ := Prod.mk.inj hkey
    rwa [s.2.steps.key.eq_of_mem hst hst' ((List.mem_singleton.mp hmem).trans hid'.symm)]

end Jobtology.Store
