import Jobtology.Store.AccountErasure
import Jobtology.Store.GoalErasure

/-!
# What a goal deletion leaves

Which rows are left after `delete_goal`, in terms of the goals they belong to, that no row names an
erased record, and that work on the goal claimed before settles nothing any more.
-/

namespace Jobtology.Store

open Jobtology.Base Jobtology.Relational
open Jobtology.Relational.Transaction

/-! ### What is left -/

/-- A trace that only proposals of the goal use. -/
def Db.traceOfGoal (db : Db) (goalId id : Uuid) : Prop :=
  (∃ p ∈ db.proposals, p.decisionTraceId = id ∧ db.analysisOfGoal goalId p.analysisId) ∧
    ∀ p ∈ db.proposals, p.decisionTraceId = id → db.analysisOfGoal goalId p.analysisId

/-- A request of the goal by its id. -/
def Db.requestIdOfGoal (db : Db) (goalId id : Uuid) : Prop :=
  ∃ r ∈ db.requests, r.id = id ∧ db.requestOfGoal goalId r

/-- A record of the goal that a member of a stored response names. -/
def Db.namedOfGoal (db : Db) (goalId : Uuid) : ResponseField → Uuid → Prop
  | .goalId, id => id = goalId
  | .analysisId, id => db.analysisOfGoal goalId id
  | .resultingAnalysisId, id => db.analysisOfGoal goalId id
  | .proposalId, id => db.proposalOfGoal goalId id
  | .decisionTraceId, id => db.traceOfGoal goalId id
  | .roadmapId, id => db.roadmapOfGoal goalId id
  | .recomputeRequestId, id => db.requestIdOfGoal goalId id

/-- The database without the goal: its records are gone, the user's profile changed its version and
its pointer, the event is recorded, and every other row is there as before. -/
structure GoalErased (request : GoalDelete) (eventId : Uuid) (s t : Db) : Prop where
  goals : ∀ g, g ∈ t.goals ↔ g ∈ s.goals ∧ g.id ≠ request.goalId
  analyses : ∀ a, a ∈ t.analyses ↔ a ∈ s.analyses ∧ a.goalId ≠ request.goalId
  proposals : ∀ p, p ∈ t.proposals ↔
    p ∈ s.proposals ∧ ¬ s.analysisOfGoal request.goalId p.analysisId
  traces : ∀ x, x ∈ t.traces ↔ x ∈ s.traces ∧ ¬ s.traceOfGoal request.goalId x.id
  roadmaps : ∀ r, r ∈ t.roadmaps ↔ r ∈ s.roadmaps ∧ r.goalId ≠ request.goalId
  overrides : ∀ o, o ∈ t.overrides ↔
    o ∈ s.overrides ∧ ¬ s.roadmapOfGoal request.goalId o.roadmapId
  steps : ∀ x, x ∈ t.steps ↔ x ∈ s.steps ∧ ¬ s.roadmapOfGoal request.goalId x.roadmapId
  dependencies : ∀ d, d ∈ t.dependencies ↔
    d ∈ s.dependencies ∧ ¬ s.roadmapOfGoal request.goalId d.roadmapId
  inheritances : ∀ i, i ∈ t.inheritances ↔
    i ∈ s.inheritances ∧ ¬ s.stepOfGoal request.goalId i.stepId
  requests : ∀ r, r ∈ t.requests ↔ r ∈ s.requests ∧ ¬ s.requestOfGoal request.goalId r
  contexts : ∀ c, c ∈ t.contexts ↔
    c ∈ s.contexts ∧ ¬ s.requestIdOfGoal request.goalId c.requestId
  jobs : ∀ j, j ∈ t.jobs ↔ j ∈ s.jobs ∧
    ¬ ∃ id, (id ∈ j.recomputeRequestId ∨ id ∈ j.payloadRequestId) ∧
      s.requestIdOfGoal request.goalId id
  idempotency : ∀ r, r ∈ t.idempotency ↔ r ∈ s.idempotency ∧
    ¬ ∃ response ∈ r.response, ∃ entry ∈ response.2.named,
      s.namedOfGoal request.goalId entry.1 entry.2
  profiles : ∀ p, p ∈ t.profiles ↔ (p ∈ s.profiles ∧ p.userId ≠ request.userId) ∨
    ∃ p' ∈ s.profiles, p'.userId = request.userId ∧ p.userId = request.userId ∧
      p.version = request.expectedProfileVersion + 1 ∧ ∀ a, p.latestAnalysisId = some a ↔
        p'.latestAnalysisId = some a ∧ ¬ s.analysisOfGoal request.goalId a
  events : t.events = s.events ++ [request.event eventId]
  others : t = { s with
    goals := t.goals, analyses := t.analyses, proposals := t.proposals, traces := t.traces
    roadmaps := t.roadmaps, overrides := t.overrides, steps := t.steps
    dependencies := t.dependencies, inheritances := t.inheritances, requests := t.requests
    contexts := t.contexts, jobs := t.jobs, idempotency := t.idempotency
    profiles := t.profiles, events := t.events }

namespace GoalScope

variable {s : Database} {request : GoalDelete} (h : GoalScope s request)

include h

private theorem mem_traces {id : Uuid} :
    id ∈ request.traces s.1 ↔ s.1.traceOfGoal request.goalId id := by
  have hkept : ∀ p ∈ s.1.proposals, p.id ∉ (goalRecords s.1 request.userId
      request.goalId).proposalIds ↔ ¬ s.1.analysisOfGoal request.goalId p.analysisId := by
    intro p hp
    rw [h.mem_proposalIds, not_iff_not]
    constructor
    · rintro ⟨p', hp', hid, hgoal⟩
      rwa [← s.2.proposals.key.eq_of_mem hp' hp hid]
    · exact fun hgoal ↦ ⟨p, hp, rfl, hgoal⟩
  constructor
  · intro hmem
    obtain ⟨t, ht, rfl⟩ := List.mem_map.mp hmem
    obtain ⟨htrace, -, -⟩ := of_decide_eq_true (List.mem_filter.mp ht).2
    obtain ⟨p, hp, htraceId⟩ := List.mem_map.mp htrace
    obtain ⟨hp, hgoal, -⟩ := by simpa only [List.mem_filter, decide_eq_true_eq] using hp
    refine ⟨⟨p, hp, htraceId, h.mem_analysisIds.mp hgoal⟩, fun q hq hqid ↦ ?_⟩
    by_contra hother
    exact (mem_goalTraces hmem).2 q hq ((hkept q hq).mpr hother) hqid
  · rintro ⟨⟨p, hp, rfl, hgoal⟩, hall⟩
    obtain ⟨t, ht, hid⟩ := s.2.proposals.trace p hp
    have huser : t.userId = request.userId :=
      (h.owned.proposalTrace p hp t ht (List.mem_singleton.mpr hid)).trans (h.proposalUser hp hgoal)
    refine List.mem_map.mpr ⟨t, List.mem_filter.mpr ⟨ht, decide_eq_true ⟨?_, huser, ?_⟩⟩, hid⟩
    · refine List.mem_map.mpr ⟨p, List.mem_filter.mpr ⟨hp, decide_eq_true ?_⟩, hid.symm⟩
      exact ⟨h.mem_analysisIds.mpr hgoal, h.proposalUser hp hgoal⟩
    · intro q hq hqid
      obtain ⟨hq, hkeep⟩ := List.mem_filter.mp hq
      exact (hkept q hq).mp (of_decide_eq_true hkeep) (hall q hq (hqid.trans hid))

private theorem mem_references {field : ResponseField} {id : Uuid} :
    id ∈ (goalRecords s.1 request.userId request.goalId).references request.goalId
      (request.traces s.1) field ↔ s.1.namedOfGoal request.goalId field id := by
  cases field with
  | goalId => exact List.mem_singleton
  | analysisId => exact h.mem_analysisIds
  | resultingAnalysisId => exact h.mem_analysisIds
  | proposalId => exact h.mem_proposalIds
  | decisionTraceId => exact h.mem_traces
  | roadmapId => exact h.mem_roadmapIds
  | recomputeRequestId => exact h.mem_requestIds

/-- A response that names a record of the goal is the user's. -/
theorem responseUser {r : IdempotencyRow} (hr : r ∈ s.1.idempotency)
    {response : Int × ResponseDocument} (hset : response ∈ r.response)
    {entry : ResponseField × Uuid} (hentry : entry ∈ response.2.named)
    (hgoal : s.1.namedOfGoal request.goalId entry.1 entry.2) : r.userId = request.userId := by
  obtain ⟨field, id⟩ := entry
  have hnamed : id ∈ r.named field :=
    List.mem_flatMap.mpr ⟨response, Option.mem_toList.mpr hset, List.mem_map.mpr
      ⟨(field, id), List.mem_filter.mpr ⟨hentry, decide_eq_true rfl⟩, rfl⟩⟩
  cases field with
  | goalId =>
    obtain ⟨g, hg, hid, huser⟩ := h.goal
    have hname : g.id ∈ r.named .goalId := by rwa [hid, ← show id = request.goalId from hgoal]
    exact (h.owned.responseGoal r hr g hg hname).symm.trans huser
  | analysisId =>
    obtain ⟨a, ha, rfl, hgoal⟩ := hgoal
    exact (h.owned.responseAnalysis r hr a ha (List.mem_append_left _ hnamed)).symm.trans
      (h.analysisUser ha hgoal)
  | resultingAnalysisId =>
    obtain ⟨a, ha, rfl, hgoal⟩ := hgoal
    exact (h.owned.responseAnalysis r hr a ha (List.mem_append_right _ hnamed)).symm.trans
      (h.analysisUser ha hgoal)
  | proposalId =>
    obtain ⟨p, hp, rfl, hgoal⟩ := hgoal
    exact (h.owned.responseProposal r hr p hp hnamed).symm.trans (h.proposalUser hp hgoal)
  | decisionTraceId =>
    obtain ⟨⟨p, hp, rfl, hgoal⟩, -⟩ := hgoal
    obtain ⟨t, ht, hid⟩ := s.2.proposals.trace p hp
    have htrace : t.userId = p.userId :=
      h.owned.proposalTrace p hp t ht (List.mem_singleton.mpr hid)
    have hname : t.id ∈ r.named .decisionTraceId := by rwa [show t.id = p.decisionTraceId from hid]
    exact (h.owned.responseTrace r hr t ht hname).symm.trans
      (htrace.trans (h.proposalUser hp hgoal))
  | roadmapId =>
    obtain ⟨x, hx, rfl, hgoal⟩ := hgoal
    exact (h.owned.responseRoadmap r hr x hx hnamed).symm.trans (h.roadmapUser hx hgoal)
  | recomputeRequestId =>
    obtain ⟨x, hx, rfl, hgoal⟩ := hgoal
    exact (h.owned.responseRequest r hr x hx hnamed).symm.trans (h.requestUser hx hgoal)

/-- The job of a request of the goal is found by its link: a payload names the linked request. -/
theorem isRequestJob_iff {j : JobRow} (hj : j ∈ s.1.jobs) :
    isRequestJob (goalRecords s.1 request.userId request.goalId).requestIds j ↔
      ∃ id, (id ∈ j.recomputeRequestId ∨ id ∈ j.payloadRequestId) ∧
        s.1.requestIdOfGoal request.goalId id := by
  unfold isRequestJob
  simp only [h.mem_requestIds]
  constructor
  · rintro (⟨id, hlink, hgoal⟩ | ⟨-, -, id, hpayload, hgoal⟩)
    · exact ⟨id, .inl hlink, hgoal⟩
    · exact ⟨id, .inr hpayload, hgoal⟩
  · rintro ⟨id, hlink | hpayload, hgoal⟩
    · exact .inl ⟨id, hlink, hgoal⟩
    · obtain ⟨hkind, hlinked⟩ := h.goalOwned.jobPayload j hj id hpayload
      cases hset : j.recomputeRequestId with
      | none => exact .inr ⟨rfl, hkind, id, hpayload, hgoal⟩
      | some linked =>
        obtain rfl := hlinked linked hset
        exact .inl ⟨linked, rfl, hgoal⟩

private theorem withoutGoal_erased (eventId : Uuid) :
    GoalErased request eventId s.1 (s.1.withoutGoal request eventId) where
  goals g := by simp [Db.withoutGoal, Db.withoutRecords]
  analyses a := by
    simp only [Db.withoutGoal, Db.withoutRecords, List.mem_filter, decide_eq_true_eq,
      h.mem_analysisIds]
    refine and_congr_right fun ha ↦ not_congr ⟨?_, fun hgoal ↦ ⟨a, ha, rfl, hgoal⟩⟩
    rintro ⟨a', ha', hid, hgoal⟩
    rwa [← s.2.analyses.key.eq_of_mem ha' ha hid]
  proposals p := by
    simp only [Db.withoutGoal, Db.withoutRecords, List.mem_filter, decide_eq_true_eq,
      h.mem_proposalIds]
    refine and_congr_right fun hp ↦ not_congr ⟨?_, fun hgoal ↦ ⟨p, hp, rfl, hgoal⟩⟩
    rintro ⟨p', hp', hid, hgoal⟩
    rwa [← s.2.proposals.key.eq_of_mem hp' hp hid]
  traces t := by simp [Db.withoutGoal, Db.withoutRecords, h.mem_traces]
  roadmaps r := by
    simp only [Db.withoutGoal, Db.withoutRecords, List.mem_filter, decide_eq_true_eq,
      h.mem_roadmapIds]
    refine and_congr_right fun hr ↦ not_congr ⟨?_, fun hgoal ↦ ⟨r, hr, rfl, hgoal⟩⟩
    rintro ⟨r', hr', hid, hgoal⟩
    rwa [← s.2.roadmaps.key.eq_of_mem hr' hr hid]
  overrides o := by simp [Db.withoutGoal, Db.withoutRecords, h.mem_roadmapIds]
  steps x := by simp [Db.withoutGoal, Db.withoutRecords, h.mem_roadmapIds]
  dependencies d := by simp [Db.withoutGoal, Db.withoutRecords, h.mem_roadmapIds]
  inheritances i := by simp [Db.withoutGoal, Db.withoutRecords, h.mem_stepIds]
  requests r := by
    simp only [Db.withoutGoal, Db.withoutRecords, List.mem_filter, decide_eq_true_eq,
      h.mem_requestIds]
    refine and_congr_right fun hr ↦ not_congr ⟨?_, fun hgoal ↦ ⟨r, hr, rfl, hgoal⟩⟩
    rintro ⟨r', hr', hid, hgoal⟩
    rwa [← s.2.requests.key.eq_of_mem hr' hr hid]
  contexts c := by
    simp [Db.withoutGoal, Db.withoutRecords, h.mem_requestIds, Db.requestIdOfGoal]
  jobs j := by
    simp only [Db.withoutGoal, Db.withoutRecords, List.mem_filter, decide_eq_true_eq]
    exact and_congr_right fun hj ↦ not_congr (h.isRequestJob_iff hj)
  idempotency r := by
    simp only [Db.withoutGoal, List.mem_filter, decide_eq_true_eq]
    refine and_congr_right fun hr ↦ not_congr ?_
    unfold isGoalResponse ResponseDocument.namesAny
    simp only [h.mem_references]
    refine and_iff_right_of_imp ?_
    rintro ⟨response, hset, entry, hentry, hgoal⟩
    exact h.responseUser hr hset hentry hgoal
  profiles p := by
    simp only [Db.withoutGoal, mem_update]
    refine or_congr_right (exists_congr fun p' ↦ and_congr_right fun _ ↦ ?_)
    refine and_congr_right fun huser ↦ ?_
    constructor
    · rintro rfl
      refine ⟨huser, rfl, fun a ↦ ?_⟩
      simp [GoalDelete.profile, Option.filter_eq_some_iff, h.mem_analysisIds]
    · rintro ⟨huser', hversion, hlatest⟩
      have hpointer : p'.latestAnalysisId.filter (· ∉ (goalRecords s.1 request.userId
          request.goalId).analysisIds) = p.latestAnalysisId := by
        ext a
        simp [Option.filter_eq_some_iff, h.mem_analysisIds, hlatest]
      obtain ⟨userId, version, latestAnalysisId⟩ := p
      simp only at huser' hversion hpointer
      unfold GoalDelete.profile
      rw [huser, huser', hversion, hpointer]
  events := rfl
  others := rfl

end GoalScope

/-! ### What is still named -/

/-- The ids that a stored response names. -/
theorem mem_named {r : IdempotencyRow} {field : ResponseField} {id : Uuid} :
    id ∈ r.named field ↔ ∃ response ∈ r.response, (field, id) ∈ response.2.named := by
  unfold IdempotencyRow.named
  simp only [List.mem_flatMap, Option.mem_toList, List.mem_map, List.mem_filter, decide_eq_true_eq]
  constructor
  · rintro ⟨response, hset, ⟨_, _⟩, ⟨hentry, rfl⟩, rfl⟩
    exact ⟨response, hset, hentry⟩
  · rintro ⟨response, hset, hentry⟩
    exact ⟨response, hset, (field, id), ⟨hentry, rfl⟩, rfl⟩

section Names

variable {s : Database} {request : GoalDelete} (h : GoalScope s request) (eventId : Uuid)

include h

private theorem named_kept {r : IdempotencyRow}
    (hr : r ∈ (s.1.withoutGoal request eventId).idempotency)
    {field : ResponseField} {id : Uuid} (hname : id ∈ r.named field) :
    ¬ s.1.namedOfGoal request.goalId field id := by
  obtain ⟨response, hset, hentry⟩ := mem_named.mp hname
  exact fun hgoal ↦ (((h.withoutGoal_erased eventId).idempotency r).mp hr).2
    ⟨response, hset, (field, id), hentry, hgoal⟩

private theorem analysis_kept {a : AnalysisRow} (ha : a ∈ s.1.analyses)
    (hother : ¬ s.1.analysisOfGoal request.goalId a.id) :
    a ∈ (s.1.withoutGoal request eventId).analyses :=
  ((h.withoutGoal_erased eventId).analyses a).mpr ⟨ha, fun hgoal ↦ hother ⟨a, ha, rfl, hgoal⟩⟩

/-- No row left names a record of the goal. -/
theorem withoutGoal_nothingMissing : NothingMissing s.1 (s.1.withoutGoal request eventId) where
  profileAnalysis p hp a ha hname := by
    refine analysis_kept h eventId ha fun hgoal ↦ ?_
    rcases ((h.withoutGoal_erased eventId).profiles p).mp hp with ⟨hp, hother⟩ |
      ⟨p', -, -, -, -, hlatest⟩
    · obtain ⟨a', ha', hid, hgoal⟩ := hgoal
      obtain rfl := s.2.analyses.key.eq_of_mem ha' ha hid
      exact hother ((h.owned.profileAnalysis p hp a' ha hname).symm.trans (h.analysisUser ha hgoal))
    · exact ((hlatest a.id).mp (Option.mem_toList.mp hname)).2 hgoal
  capabilityEvent c hc e he hname := List.mem_append_left _ he
  analysisGoal := (goalRetention_closed h).analysisGoal.stillThere
  proposalAnalysis := (goalRetention_closed h).proposalAnalysis.stillThere
  proposalTrace := (goalRetention_closed h).proposalTrace.stillThere
  roadmapGoal := (goalRetention_closed h).roadmapGoal.stillThere
  roadmapProposal := (goalRetention_closed h).roadmapProposal.stillThere
  roadmapSource r hr r' hr' hname := by
    obtain ⟨hr, hother⟩ := ((h.withoutGoal_erased eventId).roadmaps r).mp hr
    refine ((h.withoutGoal_erased eventId).roadmaps r').mpr ⟨hr', ?_⟩
    rwa [h.goalOwned.roadmapSource r hr r' hr' hname]
  roadmapSourceStep r hr st hst hname := by
    obtain ⟨hr, hother⟩ := ((h.withoutGoal_erased eventId).roadmaps r).mp hr
    refine ((h.withoutGoal_erased eventId).steps st).mpr ⟨hst, ?_⟩
    rintro ⟨r₁, hr₁, hid₁, hgoal⟩
    obtain ⟨r₂, hr₂, hid₂, hsame⟩ := h.goalOwned.roadmapSourceStep r hr st hst hname
    obtain rfl := s.2.roadmaps.key.eq_of_mem hr₁ hr₂ (hid₁.trans hid₂.symm)
    exact hother (hsame.symm.trans hgoal)
  roadmapSourceAnalysis r hr a ha hname := by
    obtain ⟨hr, hother⟩ := ((h.withoutGoal_erased eventId).roadmaps r).mp hr
    refine ((h.withoutGoal_erased eventId).analyses a).mpr ⟨ha, ?_⟩
    rwa [h.goalOwned.roadmapSourceAnalysis r hr a ha hname]
  overrideRoadmap := (goalRetention_closed h).overrideRoadmap.stillThere
  overrideStep o ho st hst hname := by
    obtain ⟨ho, hother⟩ := ((h.withoutGoal_erased eventId).overrides o).mp ho
    refine ((h.withoutGoal_erased eventId).steps st).mpr ⟨hst, ?_⟩
    rwa [h.owned.overrideStep o ho st hst hname]
  stepRoadmap := (goalRetention_closed h).stepRoadmap.stillThere
  dependencyRoadmap := (goalRetention_closed h).dependencyRoadmap.stillThere
  dependencyStep := (goalRetention_closed h).dependencyStep.stillThere
  inheritanceStep i hi st hst hname := by
    obtain ⟨-, hother⟩ := ((h.withoutGoal_erased eventId).inheritances i).mp hi
    refine ((h.withoutGoal_erased eventId).steps st).mpr ⟨hst, fun hgoal ↦ ?_⟩
    exact hother ⟨st, hst, List.mem_singleton.mp hname, hgoal⟩
  inheritanceEvent _ _ e he _ := List.mem_append_left _ he
  requestEvent _ _ e he _ := List.mem_append_left _ he
  requestAnalysis := (goalRetention_closed h).requestAnalysis.stillThere
  requestProposal := (goalRetention_closed h).requestProposal.stillThere
  contextRequest := (goalRetention_closed h).contextRequest.stillThere
  contextGoal c hc g hg hname := by
    obtain ⟨hc, hother⟩ := ((h.withoutGoal_erased eventId).contexts c).mp hc
    refine ((h.withoutGoal_erased eventId).goals g).mpr ⟨hg, fun hid ↦ hother ?_⟩
    obtain ⟨r, hr, hrid⟩ := s.2.requests.contextRequest c hc
    exact ⟨r, hr, hrid, .inr (.inr (.inl ⟨c, hc, hrid.symm, hid ▸ Option.mem_toList.mp hname⟩))⟩
  jobRequest j hj r hr hname := by
    obtain ⟨hj, hother⟩ := ((h.withoutGoal_erased eventId).jobs j).mp hj
    refine ((h.withoutGoal_erased eventId).requests r).mpr ⟨hr, fun hgoal ↦ hother ?_⟩
    rw [List.mem_append, Option.mem_toList, Option.mem_toList] at hname
    exact ⟨r.id, hname, r, hr, rfl, hgoal⟩
  responseGoal r hr g hg hname :=
    ((h.withoutGoal_erased eventId).goals g).mpr ⟨hg, named_kept h eventId hr hname⟩
  responseAnalysis r hr a ha hname := by
    refine analysis_kept h eventId ha ?_
    rcases List.mem_append.mp hname with hname | hname
    · exact named_kept h eventId hr hname
    · exact named_kept h eventId hr hname
  responseProposal r hr p hp hname :=
    ((h.withoutGoal_erased eventId).proposals p).mpr
      ⟨hp, fun hgoal ↦ named_kept h eventId hr hname ⟨p, hp, rfl, hgoal⟩⟩
  responseTrace r hr t ht hname :=
    ((h.withoutGoal_erased eventId).traces t).mpr ⟨ht, named_kept h eventId hr hname⟩
  responseRoadmap r hr x hx hname :=
    ((h.withoutGoal_erased eventId).roadmaps x).mpr
      ⟨hx, fun hgoal ↦ named_kept h eventId hr hname ⟨x, hx, rfl, hgoal⟩⟩
  responseRequest r hr x hx hname :=
    ((h.withoutGoal_erased eventId).requests x).mpr
      ⟨hx, fun hgoal ↦ named_kept h eventId hr hname ⟨x, hx, rfl, hgoal⟩⟩

end Names

/-! ### The follow-up -/

/-- A carried context is for the goal it is carried for. -/
def CarriesGoal (carryForward : CarryForward) : Prop :=
  ∀ db context goal version next, carryForward db context goal version = some next →
    next.goalId = some goal.id

/-- The context of a request is for its goal. -/
theorem configuredContext_goal {carryForward : CarryForward}
    (hcarries : CarriesGoal carryForward) {db : Db} {userId : Uuid} {version : Nat} {goalId : Uuid}
    {next : RecomputeContext}
    (h : configuredContext carryForward db userId version goalId = some next) :
    next.goalId = some goalId := by
  unfold configuredContext at h
  simp only [Option.bind_eq_bind, Option.bind_eq_some_iff, Option.ite_none_right_eq_some] at h
  obtain ⟨context, -, goal, hgoal, -, hnext⟩ := h
  have hid := List.find?_some hgoal
  simp only [decide_eq_true_eq] at hid
  rw [hcarries _ _ _ _ _ hnext, hid.1]

/-- What rows name stays while more rows come. -/
theorem StillThere.append {α β : Type} {names : α → List Uuid} {rows new : List α} {id : β → Uuid}
    {before after after' : List β} (h : StillThere names rows id before after)
    (hafter : ∀ x ∈ after, x ∈ after')
    (hnew : ∀ r ∈ new, ∀ x ∈ before, id x ∈ names r → x ∈ after') :
    StillThere names (rows ++ new) id before after' := by
  intro r hr x hx hname
  rcases List.mem_append.mp hr with hr | hr
  · exact hafter x (h r hr x hx hname)
  · exact hnew r hr x hx hname

/-- A new request names its event, its goal and nothing else that was there before. -/
theorem NothingMissing.enqueued {s u : Db} (h : NothingMissing s u)
    {request : RecomputeRequestCreate} {draw : EnqueueDraw}
    (hevents : ∀ e ∈ s.events, e ∈ u.events) (hnew : ∀ r ∈ s.requests, r.id ≠ draw.requestId)
    (hgoal : ∀ context ∈ request.context, ∀ g ∈ s.goals, context.goalId = some g.id →
      g ∈ u.goals) : NothingMissing s (u.enqueued request draw) :=
  { h with
    requestEvent := h.requestEvent.append (fun _ hx ↦ hx) fun _ _ e he _ ↦ hevents e he
    requestAnalysis := h.requestAnalysis.append (fun _ hx ↦ hx) fun r hr a _ hname ↦ by
      simp [List.mem_singleton.mp hr, RecomputeRequestCreate.row] at hname
    requestProposal := h.requestProposal.append (fun _ hx ↦ hx) fun r hr p _ hname ↦ by
      simp [List.mem_singleton.mp hr, RecomputeRequestCreate.row] at hname
    contextRequest := h.contextRequest.append (fun _ hx ↦ List.mem_append_left _ hx)
      fun c hc r hr hname ↦ by
        obtain ⟨context, -, rfl⟩ := List.mem_map.mp hc
        exact absurd (List.mem_singleton.mp hname) (hnew r hr)
    contextGoal := h.contextGoal.append (fun _ hx ↦ hx) fun c hc g hg hname ↦ by
      obtain ⟨context, hset, rfl⟩ := List.mem_map.mp hc
      exact hgoal context (Option.mem_toList.mp hset) g hg (Option.mem_toList.mp hname)
    jobRequest := h.jobRequest.append (fun _ hx ↦ List.mem_append_left _ hx)
      fun j hj r hr hname ↦ by
      obtain ⟨context, -, rfl⟩ := List.mem_map.mp hj
      have hid : r.id = draw.requestId := by simpa [RecomputeRequestCreate.job] using hname
      exact absurd hid (hnew r hr)
    responseRequest := fun r hr x hx hname ↦
      List.mem_append_left _ (h.responseRequest r hr x hx hname) }

private theorem FollowedUp.nothingMissing {carryForward : CarryForward}
    (hcarries : CarriesGoal carryForward) {request : GoalDelete} {eventId : Uuid}
    {draw : EnqueueDraw} {s u t : Db} (h : FollowedUp carryForward request eventId draw u t)
    (hmissing : NothingMissing s u) (hevents : ∀ e ∈ s.events, e ∈ u.events)
    (hnew : ∀ r ∈ s.requests, r.id ≠ draw.requestId)
    (hgoals : ∀ g ∈ s.goals, ∀ g' ∈ u.goals, g.id = g'.id → g ∈ u.goals) : NothingMissing s t := by
  cases h with
  | nothing => exact hmissing
  | enqueued goal mem user active =>
    refine hmissing.enqueued hevents hnew fun context hcontext g hg hname ↦ ?_
    have hid : some goal.id = some g.id :=
      (configuredContext_goal hcarries hcontext).symm.trans hname
    exact hgoals g hg goal mem (Option.some.inj hid).symm

/-- A request that is gone comes back under a new id only. -/
theorem FollowedUp.requests {carryForward : CarryForward} {request : GoalDelete} {eventId : Uuid}
    {draw : EnqueueDraw} {u t : Db} (h : FollowedUp carryForward request eventId draw u t) :
    (∀ r ∈ u.requests, r ∈ t.requests) ∧
      ∀ r ∈ t.requests, r ∈ u.requests ∨ r.id = draw.requestId := by
  cases h with
  | nothing => exact ⟨fun r hr ↦ hr, fun r hr ↦ .inl hr⟩
  | enqueued goal =>
    refine ⟨fun r hr ↦ List.mem_append_left _ hr, fun r hr ↦ ?_⟩
    rcases List.mem_append.mp hr with hr | hr
    · exact .inl hr
    · exact .inr (by rw [List.mem_singleton.mp hr]; rfl)

/-- A follow-up leaves the goals. -/
theorem FollowedUp.goals {carryForward : CarryForward} {request : GoalDelete} {eventId : Uuid}
    {draw : EnqueueDraw} {u t : Db} (h : FollowedUp carryForward request eventId draw u t) :
    t.goals = u.goals := by
  cases h with
  | nothing => rfl
  | enqueued goal => rfl

/-! ### Late work -/

/-- Work on a request that is gone settles nothing. -/
theorem settling_gone {s : Database} {item : RecomputeWorkItem}
    (h : ∀ r ∈ s.1.requests, r.id ≠ item.requestId) (now clock : Int) :
    (∀ artifacts, (finalizeRecompute item artifacts now clock).commit s = s) ∧
      ∀ errorCode, (failRecompute item errorCode now clock).commit s = s := by
  have hnotRunning : ¬ s.1.isRunning item := by
    rintro ⟨r, hr, hid, -⟩
    exact h r hr hid
  refine ⟨fun artifacts ↦ ?_, fun errorCode ↦ ?_⟩
  · rcases commit_cases (finalizeRecompute item artifacts now clock) s with heq | ⟨_, hyields⟩
    · exact heq
    · exact absurd (finalizeRecompute_spec hyields).running hnotRunning
  · rcases commit_cases (failRecompute item errorCode now clock) s with heq | ⟨_, hyields⟩
    · exact heq
    · rcases failRecompute_spec hyields with heq | hfailed
      · exact heq
      · exact absurd hfailed.running hnotRunning

/-- Results for a goal that is gone are not recorded. -/
theorem finalizeRecompute_goalGone {s : Database} {artifacts : RecomputeArtifacts}
    (h : ∀ g ∈ s.1.goals, g.id ≠ artifacts.analysis.goalId) (item : RecomputeWorkItem)
    (now clock : Int) : (finalizeRecompute item artifacts now clock).commit s = s := by
  rcases commit_cases (finalizeRecompute item artifacts now clock) s with heq | ⟨_, hyields⟩
  · exact heq
  · have howner := (finalizeRecompute_spec hyields).goalOwner
    obtain ⟨g, hg, -⟩ := Option.map_eq_some_iff.mp howner
    obtain ⟨hmem, hid⟩ := lookup_some hg
    exact absurd hid (h g hmem)

/-- Goal deletion erases exactly one goal.
`src/jobtology_be/infrastructure/persistence/goal_deletion.py:28–150`,
`src/jobtology_be/infrastructure/persistence/worker.py:63–315`,
`src/jobtology_be/infrastructure/persistence/schema.py:193–406`. -/
theorem deleteGoal_erases (carryForward : CarryForward) (s : Database) (request : GoalDelete)
    (eventId : Uuid) (draw : EnqueueDraw) (hcarries : CarriesGoal carryForward)
    (hscope : GoalScope s request)
    (hversion : s.1.profileVersion request.userId = some request.expectedProfileVersion)
    (hfresh : FreshDeletion eventId draw s.1) :
    let t := (deleteGoal carryForward request eventId draw).commit s
    Yields (deleteGoal carryForward request eventId draw) s
      ⟨request.userId, request.expectedProfileVersion + 1⟩ t ∧
    (∃ u, GoalErased request eventId s.1 u ∧
      FollowedUp carryForward request eventId draw u t.1) ∧
    NothingMissing s.1 t.1 ∧
    (∀ r ∈ s.1.requests, ∀ c ∈ s.1.contexts, c.requestId = r.id → ∀ other ∈ c.payload.goalId,
      other ≠ request.goalId → r ∈ t.1.requests) ∧
    (∀ r ∈ s.1.requests, s.1.requestOfGoal request.goalId r →
      (∀ x ∈ t.1.requests, x.id ≠ r.id) ∧
      ∀ later : Database, (∀ x ∈ later.1.requests, x.id ≠ r.id) →
        ∀ item : RecomputeWorkItem, item.requestId = r.id → ∀ now clock,
        (∀ artifacts, (finalizeRecompute item artifacts now clock).commit later = later) ∧
          ∀ errorCode, (failRecompute item errorCode now clock).commit later = later) ∧
    (∀ g ∈ t.1.goals, g.id ≠ request.goalId) ∧
    ∀ later : Database, (∀ g ∈ later.1.goals, g.id ≠ request.goalId) →
      ∀ artifacts : RecomputeArtifacts, artifacts.analysis.goalId = request.goalId →
      ∀ item now clock, (finalizeRecompute item artifacts now clock).commit later = later := by
  intro t
  obtain ⟨t', hfollowed, hyields⟩ := deleteGoal_succeeds hscope hversion hfresh
  have ht : t = t' := commit_of_yields hyields
  rw [← ht] at hfollowed hyields
  have herased := hscope.withoutGoal_erased eventId
  refine ⟨hyields, ⟨_, herased, hfollowed⟩, ?_, ?_, ?_, ?_, ?_⟩
  · refine hfollowed.nothingMissing hcarries (withoutGoal_nothingMissing hscope eventId)
      (fun e he ↦ List.mem_append_left _ he) hfresh.request fun g hg g' hg' hid ↦ ?_
    exact (herased.goals g).mpr ⟨hg, hid ▸ ((herased.goals g').mp hg').2⟩
  · intro r hr c hc hid other hother hne
    refine hfollowed.requests.1 r ((herased.requests r).mpr ⟨hr, ?_⟩)
    have hresult := hscope.goalOwned.contextResult c hc r hr hid.symm other hother
    rintro (⟨a, hset, a₁, ha₁, hid₁, hgoal⟩ | ⟨p, hset, p₁, hp₁, hid₁, a₁, ha₁, hanalysis, hgoal⟩ |
      ⟨c', hc', hid', hgoal⟩ | ⟨hnone, -⟩)
    · obtain ⟨a₂, ha₂, hid₂, hgoal₂⟩ := hresult.1 a hset
      obtain rfl := s.2.analyses.key.eq_of_mem ha₁ ha₂ (hid₁.trans hid₂.symm)
      exact hne (hgoal₂.symm.trans hgoal)
    · obtain ⟨p₂, hp₂, hid₂, a₂, ha₂, hanalysis₂, hgoal₂⟩ := hresult.2 p hset
      obtain rfl := s.2.proposals.key.eq_of_mem hp₁ hp₂ (hid₁.trans hid₂.symm)
      obtain rfl := s.2.analyses.key.eq_of_mem ha₁ ha₂ (hanalysis.trans hanalysis₂.symm)
      exact hne (hgoal₂.symm.trans hgoal)
    · obtain rfl := s.2.requests.contextKey.eq_of_mem hc hc' (hid.trans hid'.symm)
      exact hne (Option.some.inj (hother.symm.trans hgoal))
    · exact absurd (hnone c hc hid) (by simp [Option.mem_def.mp hother])
  · intro r hr hgoal
    refine ⟨fun x hx hid ↦ ?_, fun later hlater item hitem now clock ↦
      settling_gone (hitem ▸ hlater) now clock⟩
    rcases hfollowed.requests.2 x hx with hx | hnew
    · obtain ⟨hx, hother⟩ := (herased.requests x).mp hx
      obtain rfl := s.2.requests.key.eq_of_mem hx hr hid
      exact hother hgoal
    · exact hfresh.request r hr (hid.symm.trans hnew)
  · intro g hg
    rw [hfollowed.goals] at hg
    exact ((herased.goals g).mp hg).2
  · intro later hlater artifacts hgoal item now clock
    exact finalizeRecompute_goalGone (hgoal ▸ hlater) item now clock

/-- Two goals of a user, whose proposals share a trace. -/
def twoGoalsDb : Db where
  users := [⟨1, true, none⟩, ⟨2, true, none⟩]
  profiles := [⟨1, 2, some 21⟩, ⟨2, 1, none⟩]
  goals := [⟨11, 1, .targeted, some "occupation", 90, "UTC", .draft⟩,
    ⟨12, 1, .targeted, some "occupation", 90, "UTC", .active⟩]
  events := [⟨13, 1, 11, 2, .goalUpdated, ⟨none, none⟩⟩]
  analyses := [⟨21, 1, 11, 1, none, .ready, none, none⟩, ⟨22, 1, 12, 1, none, .ready, none, none⟩]
  traces := [⟨25, 1⟩, ⟨27, 1⟩]
  proposals := [⟨23, 21, 1, "first", 1, .absent, .feasible, [], 25⟩,
    ⟨24, 22, 1, "second", 1, .absent, .feasible, [], 25⟩,
    ⟨26, 21, 1, "third", 1, .absent, .feasible, [], 27⟩]
  roadmaps := [⟨41, 1, 11, 23, "first", .archived, 1, 1, none, ⟨.absent, .absent, none, []⟩, 0⟩,
    ⟨42, 1, 12, 24, "second", .active, 1, 1, none, ⟨.absent, .absent, none, []⟩, 0⟩]
  steps := [⟨51, 41, "step", 1, "action", 1, .todo, none, none, [], []⟩,
    ⟨52, 42, "step", 1, "action", 1, .todo, none, none, [], []⟩]
  requests := [⟨14, 1, 2, 13, .pending, none, none, false, none, 0⟩,
    ⟨16, 1, 1, 13, .ready, some 22, some 24, false, none, 0⟩]
  contexts := [⟨14, ⟨some 11, none, ""⟩⟩, ⟨16, ⟨some 12, none, ""⟩⟩]
  jobs := [⟨15, .recompute, some 14, some 14, "key", .ready, 0, 0, none, none⟩]

private theorem twoGoalsDb_constraints : Constraints twoGoalsDb := by decide +kernel

private theorem twoGoalsDb_scope : GoalScope ⟨twoGoalsDb, twoGoalsDb_constraints⟩ ⟨1, 11, 2⟩ where
  owned := by constructor <;> decide +kernel
  goalOwned := by constructor <;> decide +kernel
  goal := by decide +kernel

private theorem twoGoalsDb_fresh : FreshDeletion 30 ⟨31, 32, 0⟩ twoGoalsDb := by
  constructor <;> decide +kernel

/-- The queue that carries the goal of a context alone. -/
def goalCarried : CarryForward := fun _ _ goal _ ↦ some ⟨some goal.id, none, ""⟩

/-- The shared trace stays with the other goal, whose context is carried forward. -/
theorem deleteGoal_erases_first :
    ∃ t, t = (deleteGoal goalCarried ⟨1, 11, 2⟩ 30 ⟨31, 32, 0⟩).commit
        ⟨twoGoalsDb, twoGoalsDb_constraints⟩ ∧
      (∃ u, GoalErased ⟨1, 11, 2⟩ 30 twoGoalsDb u ∧
        FollowedUp goalCarried ⟨1, 11, 2⟩ 30 ⟨31, 32, 0⟩ u t.1) ∧
      NothingMissing twoGoalsDb t.1 ∧ (∀ g ∈ t.1.goals, g.id ≠ 11) ∧
      t.1.analyses.map (·.id) = [22] ∧ t.1.proposals.map (·.id) = [24] ∧
      t.1.traces.map (·.id) = [25] ∧ t.1.roadmaps.map (·.id) = [42] ∧
      t.1.steps.map (·.id) = [52] ∧ t.1.requests.map (·.id) = [16, 31] := by
  obtain ⟨-, herased, hnames, -, -, hgoals, -⟩ := deleteGoal_erases goalCarried
    ⟨twoGoalsDb, twoGoalsDb_constraints⟩ ⟨1, 11, 2⟩ 30 ⟨31, 32, 0⟩
    (fun _ _ _ _ _ h ↦ Option.some.inj h ▸ rfl) twoGoalsDb_scope (by decide +kernel)
    twoGoalsDb_fresh
  exact ⟨_, rfl, herased, hnames, hgoals, by decide +kernel⟩

end Jobtology.Store
