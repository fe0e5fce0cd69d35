import Jobtology.Store.Goals
import Jobtology.Store.Insertion
import Jobtology.Store.Ownership
import Jobtology.Store.Worker

/-!
# Goal deletion is complete and confined

`delete_goal` goes through the tables with records of a goal. On every database whose rows keep to
their users and goals it succeeds, leaves nothing of the goal but its history and touches nothing
of another goal.
-/

namespace Jobtology.Store

open Jobtology.Base Jobtology.Relational
open Jobtology.Relational.Transaction

/-! ### Records of a goal -/

section OfGoal

variable (db : Db) (goalId : Uuid)

/-- An analysis of the goal. -/
def Db.analysisOfGoal (id : Uuid) : Prop := ∃ a ∈ db.analyses, a.id = id ∧ a.goalId = goalId

/-- A proposal of the goal: one of its analyses'. -/
def Db.proposalOfGoal (id : Uuid) : Prop :=
  ∃ p ∈ db.proposals, p.id = id ∧ db.analysisOfGoal goalId p.analysisId

/-- A roadmap of the goal. -/
def Db.roadmapOfGoal (id : Uuid) : Prop := ∃ r ∈ db.roadmaps, r.id = id ∧ r.goalId = goalId

/-- A step of the goal: one of its roadmaps'. -/
def Db.stepOfGoal (id : Uuid) : Prop :=
  ∃ s ∈ db.steps, s.id = id ∧ db.roadmapOfGoal goalId s.roadmapId

/-- An event of the goal: about it, about one of its steps, or naming it. -/
def Db.eventOfGoal (e : EventRow) : Prop :=
  e.aggregateId = goalId ∨ db.stepOfGoal goalId e.aggregateId ∨ e.payload.goalId = some goalId

/-- A request of the goal: with its result, its proposal or a context for it, or, when no context
names a goal, triggered by its event. -/
def Db.requestOfGoal (r : RequestRow) : Prop :=
  (∃ a ∈ r.resultingAnalysisId, db.analysisOfGoal goalId a) ∨
    (∃ p ∈ r.proposalId, db.proposalOfGoal goalId p) ∨
    (∃ c ∈ db.contexts, c.requestId = r.id ∧ c.payload.goalId = some goalId) ∨
    ((∀ c ∈ db.contexts, c.requestId = r.id → c.payload.goalId = none) ∧
      ∃ e ∈ db.events, db.eventOfGoal goalId e ∧ e.id = r.triggerEventId)

instance : DecidablePred (db.analysisOfGoal goalId) :=
  fun _ ↦ inferInstanceAs (Decidable (∃ a ∈ db.analyses, _))

instance : DecidablePred (db.proposalOfGoal goalId) :=
  fun _ ↦ inferInstanceAs (Decidable (∃ p ∈ db.proposals, _))

instance : DecidablePred (db.roadmapOfGoal goalId) :=
  fun _ ↦ inferInstanceAs (Decidable (∃ r ∈ db.roadmaps, _))

end OfGoal

/-- The records of a goal refer only to records of the same goal. -/
structure GoalOwned (db : Db) : Prop where
  roadmapProposal : ∀ r ∈ db.roadmaps, ∀ p ∈ db.proposals, p.id = r.proposalId →
    ∀ a ∈ db.analyses, a.id = p.analysisId → a.goalId = r.goalId
  roadmapSource : ∀ r ∈ db.roadmaps, ∀ r' ∈ db.roadmaps, r'.id ∈ r.sourceRoadmaps →
    r'.goalId = r.goalId
  roadmapSourceStep : ∀ r ∈ db.roadmaps, ∀ s ∈ db.steps, s.id ∈ r.sourceSteps →
    db.roadmapOfGoal r.goalId s.roadmapId
  roadmapSourceAnalysis : ∀ r ∈ db.roadmaps, ∀ a ∈ db.analyses, a.id ∈ r.sourceAnalyses →
    a.goalId = r.goalId
  contextResult : ∀ c ∈ db.contexts, ∀ r ∈ db.requests, r.id = c.requestId →
    ∀ goalId ∈ c.payload.goalId, (∀ a ∈ r.resultingAnalysisId, db.analysisOfGoal goalId a) ∧
      ∀ p ∈ r.proposalId, db.proposalOfGoal goalId p
  /-- A request named in a job's payload is the one it is linked to, if it is linked. -/
  jobPayload : ∀ j ∈ db.jobs, ∀ id ∈ j.payloadRequestId, j.kind = .recompute ∧
    ∀ linked ∈ j.recomputeRequestId, linked = id
  /-- Events about a goal are at versions that the profile has reached. -/
  eventVersion : ∀ e ∈ db.events, ∀ g ∈ db.goals, e.aggregateId = g.id →
    ∀ version ∈ db.profileVersion g.userId, e.version ≤ version

/-- The ids that a deletion draws are new. -/
structure FreshDeletion (eventId : Uuid) (draw : EnqueueDraw) (db : Db) : Prop where
  event : ∀ e ∈ db.events, e.id ≠ eventId
  request : ∀ r ∈ db.requests, r.id ≠ draw.requestId
  job : ∀ j ∈ db.jobs, j.id ≠ draw.jobId ∧
    j.dedupeKey ≠ "configured-context:" ++ toString eventId

/-- The records of a goal as they are read before the deletion: those of the goal, since its
records belong to its user. -/
structure GoalScope (s : Database) (request : GoalDelete) : Prop where
  owned : Owned s.1
  goalOwned : GoalOwned s.1
  goal : ∃ g ∈ s.1.goals, g.id = request.goalId ∧ g.userId = request.userId

namespace GoalScope

variable {s : Database} {request : GoalDelete} (h : GoalScope s request)

include h

/-- An analysis of the goal belongs to its user. -/
theorem analysisUser {a : AnalysisRow} (ha : a ∈ s.1.analyses) (hgoal : a.goalId = request.goalId) :
    a.userId = request.userId := by
  obtain ⟨g, hg, hid, huser⟩ := h.goal
  exact (h.owned.analysisGoal a ha g hg
    (List.mem_singleton.mpr (hid.trans hgoal.symm))).symm.trans huser

/-- A roadmap of the goal belongs to its user. -/
theorem roadmapUser {r : RoadmapRow} (hr : r ∈ s.1.roadmaps) (hgoal : r.goalId = request.goalId) :
    r.userId = request.userId := by
  obtain ⟨g, hg, hid, huser⟩ := h.goal
  exact (h.owned.roadmapGoal r hr g hg
    (List.mem_singleton.mpr (hid.trans hgoal.symm))).symm.trans huser

/-- The ids that are read are those of the goal's analyses. -/
theorem mem_analysisIds {id : Uuid} :
    id ∈ (goalRecords s.1 request.userId request.goalId).analysisIds ↔
      s.1.analysisOfGoal request.goalId id := by
  simp only [goalRecords, List.mem_map, List.mem_filter, decide_eq_true_eq]
  constructor
  · rintro ⟨a, ⟨ha, hgoal, -⟩, rfl⟩
    exact ⟨a, ha, rfl, hgoal⟩
  · rintro ⟨a, ha, rfl, hgoal⟩
    exact ⟨a, ⟨ha, hgoal, h.analysisUser ha hgoal⟩, rfl⟩

/-- A proposal of the goal belongs to its user. -/
theorem proposalUser {p : ProposalRow} (hp : p ∈ s.1.proposals)
    (hgoal : s.1.analysisOfGoal request.goalId p.analysisId) : p.userId = request.userId := by
  obtain ⟨a, ha, hid, hgoal⟩ := hgoal
  exact (h.owned.proposalAnalysis p hp a ha (List.mem_singleton.mpr hid)).symm.trans
    (h.analysisUser ha hgoal)

/-- The ids that are read are those of the goal's proposals. -/
theorem mem_proposalIds {id : Uuid} :
    id ∈ (goalRecords s.1 request.userId request.goalId).proposalIds ↔
      s.1.proposalOfGoal request.goalId id := by
  have hanalyses : ∀ a, a ∈ (goalRecords s.1 request.userId request.goalId).analysisIds ↔
      s.1.analysisOfGoal request.goalId a := fun a ↦ h.mem_analysisIds
  simp only [goalRecords] at hanalyses
  simp only [goalRecords, List.mem_map, List.mem_filter, decide_eq_true_eq, hanalyses]
  constructor
  · rintro ⟨p, ⟨hp, hgoal, -⟩, rfl⟩
    exact ⟨p, hp, rfl, hgoal⟩
  · rintro ⟨p, hp, rfl, hgoal⟩
    exact ⟨p, ⟨hp, hgoal, h.proposalUser hp hgoal⟩, rfl⟩

/-- The ids that are read are those of the goal's roadmaps. -/
theorem mem_roadmapIds {id : Uuid} :
    id ∈ (goalRecords s.1 request.userId request.goalId).roadmapIds ↔
      s.1.roadmapOfGoal request.goalId id := by
  simp only [goalRecords, List.mem_map, List.mem_filter, decide_eq_true_eq]
  constructor
  · rintro ⟨r, ⟨hr, hgoal, -⟩, rfl⟩
    exact ⟨r, hr, rfl, hgoal⟩
  · rintro ⟨r, hr, rfl, hgoal⟩
    exact ⟨r, ⟨hr, hgoal, h.roadmapUser hr hgoal⟩, rfl⟩

/-- The ids that are read are those of the goal's steps. -/
theorem mem_stepIds {id : Uuid} :
    id ∈ (goalRecords s.1 request.userId request.goalId).stepIds ↔
      s.1.stepOfGoal request.goalId id := by
  have hroadmaps : ∀ r, r ∈ (goalRecords s.1 request.userId request.goalId).roadmapIds ↔
      s.1.roadmapOfGoal request.goalId r := fun r ↦ h.mem_roadmapIds
  simp only [goalRecords] at hroadmaps
  simp only [goalRecords, List.mem_map, List.mem_filter, decide_eq_true_eq, hroadmaps]
  constructor
  · rintro ⟨st, ⟨hst, hgoal⟩, rfl⟩
    exact ⟨st, hst, rfl, hgoal⟩
  · rintro ⟨st, hst, rfl, hgoal⟩
    exact ⟨st, ⟨hst, hgoal⟩, rfl⟩

/-- An event of the goal belongs to its user. -/
theorem eventUser {e : EventRow} (he : e ∈ s.1.events) (hgoal : s.1.eventOfGoal request.goalId e) :
    e.userId = request.userId := by
  obtain ⟨g, hg, hid, huser⟩ := h.goal
  rcases hgoal with hgoal | ⟨st, hst, hstep, r, hr, hroadmap, hgoal⟩ | hgoal
  · exact (h.owned.eventGoal e he g hg (by simp [hid, hgoal])).symm.trans huser
  · obtain ⟨r', hr', huser', hid'⟩ := h.owned.eventStep e he st hst hstep.symm
    obtain rfl := s.2.roadmaps.key.eq_of_mem hr hr' (hroadmap.trans hid'.symm)
    exact huser'.symm.trans (h.roadmapUser hr hgoal)
  · exact (h.owned.eventGoal e he g hg (by simp [hid, hgoal])).symm.trans huser

/-- A request of the goal belongs to its user. -/
theorem requestUser {r : RequestRow} (hr : r ∈ s.1.requests)
    (hgoal : s.1.requestOfGoal request.goalId r) : r.userId = request.userId := by
  rcases hgoal with ⟨_, hset, a, ha, rfl, hgoal⟩ | ⟨_, hset, p, hp, rfl, hgoal⟩ |
    ⟨c, hc, hid, hgoal⟩ | ⟨-, e, he, hgoal, hid⟩
  · exact (h.owned.requestAnalysis r hr a ha (Option.mem_toList.mpr hset)).symm.trans
      (h.analysisUser ha hgoal)
  · exact (h.owned.requestProposal r hr p hp (Option.mem_toList.mpr hset)).symm.trans
      (h.proposalUser hp hgoal)
  · obtain ⟨g, hg, hgid, huser⟩ := h.goal
    obtain ⟨r', hr', huser', hid'⟩ := h.owned.contextGoal c hc g hg (hgoal.trans (by rw [hgid]))
    rw [s.2.requests.key.eq_of_mem hr hr' (hid.symm.trans hid'.symm), huser', huser]
  · exact (h.owned.requestEvent r hr e he (List.mem_singleton.mpr hid)).symm.trans
      (h.eventUser he hgoal)

/-- The ids that are read are those of the goal's requests. -/
theorem mem_requestIds {id : Uuid} :
    id ∈ (goalRecords s.1 request.userId request.goalId).requestIds ↔
      ∃ r ∈ s.1.requests, r.id = id ∧ s.1.requestOfGoal request.goalId r := by
  have hkey : ∀ r ∈ s.1.requests,
      (isGoalRequest s.1 request.userId request.goalId
        (goalRecords s.1 request.userId request.goalId).analysisIds
        (goalRecords s.1 request.userId request.goalId).proposalIds
        (goalRecords s.1 request.userId request.goalId).stepIds r ↔
      s.1.requestOfGoal request.goalId r) := by
    intro r hr
    have hevents : ∀ e ∈ s.1.events, (isGoalEvent request.userId request.goalId
        (goalRecords s.1 request.userId request.goalId).stepIds e ↔
        s.1.eventOfGoal request.goalId e) := by
      intro e he
      unfold isGoalEvent Db.eventOfGoal
      rw [h.mem_stepIds]
      exact and_iff_right_of_imp (h.eventUser he)
    unfold isGoalRequest Db.requestOfGoal
    simp only [h.mem_analysisIds, h.mem_proposalIds]
    rw [and_iff_right_of_imp]
    · refine or_congr_right (or_congr_right (or_congr_right (and_congr_right fun _ ↦ ?_)))
      exact exists_congr fun e ↦ and_congr_right fun he ↦ and_congr_left fun _ ↦ hevents e he
    · rintro (hgoal | hgoal | hgoal | ⟨hnone, e, he, hgoal, hid⟩)
      · exact h.requestUser hr (.inl hgoal)
      · exact h.requestUser hr (.inr (.inl hgoal))
      · exact h.requestUser hr (.inr (.inr (.inl hgoal)))
      · exact h.requestUser hr (.inr (.inr (.inr ⟨hnone, e, he, (hevents e he).mp hgoal, hid⟩)))
  have hids : (goalRecords s.1 request.userId request.goalId).requestIds =
      (s.1.requests.filter fun r ↦ isGoalRequest s.1 request.userId request.goalId
        (goalRecords s.1 request.userId request.goalId).analysisIds
        (goalRecords s.1 request.userId request.goalId).proposalIds
        (goalRecords s.1 request.userId request.goalId).stepIds r).map (·.id) := rfl
  rw [hids, List.mem_map]
  constructor
  · rintro ⟨r, hmem, rfl⟩
    obtain ⟨hr, hgoal⟩ := List.mem_filter.mp hmem
    exact ⟨r, hr, rfl, (hkey r hr).mp (of_decide_eq_true hgoal)⟩
  · rintro ⟨r, hr, rfl, hgoal⟩
    exact ⟨r, List.mem_filter.mpr ⟨hr, decide_eq_true ((hkey r hr).mpr hgoal)⟩, rfl⟩

end GoalScope

/-! ### Every statement succeeds -/

/-- The rows that `delete_goal` keeps. -/
def goalRetention (db : Db) (request : GoalDelete) : Retention :=
  let records := goalRecords db request.userId request.goalId
  { inheritances := (·.stepId ∉ records.stepIds)
    dependencies := (·.roadmapId ∉ records.roadmapIds)
    overrides := (·.roadmapId ∉ records.roadmapIds)
    steps := (·.roadmapId ∉ records.roadmapIds)
    roadmaps := (·.id ∉ records.roadmapIds)
    jobs := (¬ isRequestJob records.requestIds ·)
    contexts := (·.requestId ∉ records.requestIds)
    requests := (·.id ∉ records.requestIds)
    proposals := (·.id ∉ records.proposalIds)
    traces := (·.id ∉ request.traces db)
    analyses := (·.id ∉ records.analysisIds)
    idempotency :=
      (¬ isGoalResponse request.userId (records.references request.goalId (request.traces db)) ·)
    goals := (·.id ≠ request.goalId) }

/-- The tables in the order of `delete_goal`. -/
def goalOrder : List Table :=
  [.inheritances, .dependencies, .overrides, .steps, .roadmaps, .jobs, .contexts, .requests,
    .proposals, .analyses, .traces, .idempotency, .goals]

private theorem goalOrder_childrenFirst (k : Nat) : ChildrenFirst (goalOrder.take k) := by
  rcases Nat.lt_or_ge k 13 with hlt | hge
  · have hall : ∀ k < 13, ChildrenFirst (goalOrder.take k) := by decide
    exact hall k hlt
  · rw [List.take_of_length_le (show goalOrder.length ≤ k from hge)]
    decide

private theorem keptBy_ids {α β : Type} {key : α → Uuid} {rows : List α} {id : β → Uuid}
    {targets : List β} (ids : List Uuid) :
    KeptBy (fun r ↦ decide (key r ∉ ids)) (fun t ↦ decide (id t ∉ ids)) ([key ·]) rows id
      targets := by
  intro r _ t _ hname hkeep
  have hid : id t = key r := List.mem_singleton.mp hname
  change decide (id t ∉ ids) = true
  rwa [hid]

/-- A trace of the goal alone has no proposal left. -/
theorem mem_goalTraces {db : Db} {request : GoalDelete} {id : Uuid}
    (h : id ∈ request.traces db) : (∃ t ∈ db.traces, t.id = id ∧ t.userId = request.userId) ∧
      ∀ p ∈ db.proposals, p.id ∉ (goalRecords db request.userId request.goalId).proposalIds →
        p.decisionTraceId ≠ id := by
  obtain ⟨t, ht, rfl⟩ := List.mem_map.mp h
  obtain ⟨hmem, hunshared⟩ := List.mem_filter.mp ht
  obtain ⟨-, huser, hnone⟩ := of_decide_eq_true hunshared
  exact ⟨⟨t, hmem, rfl, huser⟩, fun p hp hkept ↦
    hnone p (List.mem_filter.mpr ⟨hp, decide_eq_true hkept⟩)⟩

/-- What the kept rows refer to is kept. -/
theorem goalRetention_closed {s : Database} {request : GoalDelete} (h : GoalScope s request) :
    (goalRetention s.1 request).Closed s.1 where
  capabilityEvent _ _ _ _ _ _ := rfl
  analysisGoal a ha g _ hname hkeep := by
    simp only [goalRetention, decide_eq_true_eq, h.mem_analysisIds] at hkeep ⊢
    exact fun hid ↦ hkeep ⟨a, ha, rfl, (List.mem_singleton.mp hname).symm.trans hid⟩
  proposalAnalysis p hp a _ hname hkeep := by
    simp only [goalRetention, decide_eq_true_eq, h.mem_analysisIds, h.mem_proposalIds] at hkeep ⊢
    exact fun hgoal ↦ hkeep ⟨p, hp, rfl, List.mem_singleton.mp hname ▸ hgoal⟩
  proposalTrace p hp t _ hname hkeep := by
    simp only [goalRetention, decide_eq_true_eq] at hkeep ⊢
    exact fun hmem ↦ (mem_goalTraces hmem).2 p hp hkeep (List.mem_singleton.mp hname).symm
  roadmapGoal r hr g _ hname hkeep := by
    simp only [goalRetention, decide_eq_true_eq, h.mem_roadmapIds] at hkeep ⊢
    exact fun hid ↦ hkeep ⟨r, hr, rfl, (List.mem_singleton.mp hname).symm.trans hid⟩
  roadmapProposal r hr p hp hname hkeep := by
    simp only [goalRetention, decide_eq_true_eq, h.mem_roadmapIds, h.mem_proposalIds] at hkeep ⊢
    rintro ⟨p', hp', hid, a, ha, hanalysis, hgoal⟩
    obtain rfl := s.2.proposals.key.eq_of_mem hp' hp hid
    exact hkeep ⟨r, hr, rfl, (h.goalOwned.roadmapProposal r hr p' hp (List.mem_singleton.mp hname) a
      ha hanalysis).symm.trans hgoal⟩
  overrideRoadmap := keptBy_ids _
  stepRoadmap := keptBy_ids _
  dependencyRoadmap := keptBy_ids _
  dependencyStep d hd st hst hname hkeep := by
    simp only [goalRetention, decide_eq_true_eq] at hkeep ⊢
    rwa [dependency_roadmap hd hst hname]
  inheritanceStep i _ st hst hname hkeep := by
    simp only [goalRetention, decide_eq_true_eq, h.mem_stepIds, h.mem_roadmapIds] at hkeep ⊢
    exact fun hgoal ↦ hkeep ⟨st, hst, List.mem_singleton.mp hname, hgoal⟩
  inheritanceEvent _ _ _ _ _ _ := rfl
  requestEvent _ _ _ _ _ _ := rfl
  requestAnalysis r hr a _ hname hkeep := by
    simp only [goalRetention, decide_eq_true_eq, h.mem_analysisIds, h.mem_requestIds] at hkeep ⊢
    exact fun hgoal ↦ hkeep ⟨r, hr, rfl, .inl ⟨_, Option.mem_toList.mp hname, hgoal⟩⟩
  requestProposal r hr p _ hname hkeep := by
    simp only [goalRetention, decide_eq_true_eq, h.mem_proposalIds, h.mem_requestIds] at hkeep ⊢
    exact fun hgoal ↦ hkeep ⟨r, hr, rfl, .inr (.inl ⟨_, Option.mem_toList.mp hname, hgoal⟩)⟩
  contextRequest := keptBy_ids _
  jobRequest j _ r _ hname hkeep := by
    simp only [goalRetention, decide_eq_true_eq] at hkeep ⊢
    exact fun hmem ↦ hkeep (.inl ⟨r.id, Option.mem_toList.mp hname, hmem⟩)

/-- The stages of the deletions. -/
private def goalStage {s : Database} {request : GoalDelete} (h : GoalScope s request) (k : Nat) :
    Database :=
  ⟨s.1.retain (goalRetention s.1 request) (goalOrder.take k),
    s.2.retain (goalRetention_closed h) (goalOrder_childrenFirst k)⟩

/-- The profile changes its version and its pointer only. -/
theorem Constraints.updateProfiles {db : Db} (h : Constraints db) {p : ProfileRow → Prop}
    [DecidablePred p] {f : ProfileRow → ProfileRow} (hkeeps : ∀ r, (f r).userId = r.userId) :
    Constraints { db with profiles := update p f db.profiles } :=
  { h with
    accounts := ⟨h.accounts.usersKey, (unique_update hkeeps).mpr h.accounts.profilesKey,
      (refers_congr (map_update hkeeps) rfl).mpr h.accounts.profilesUser⟩ }

/-- The database without the goal satisfies the constraints. -/
theorem withoutGoal_constraints {s : Database} {request : GoalDelete} {eventId : Uuid}
    {draw : EnqueueDraw} (h : GoalScope s request)
    (hversion : s.1.profileVersion request.userId = some request.expectedProfileVersion)
    (hfresh : FreshDeletion eventId draw s.1) : Constraints (s.1.withoutGoal request eventId) := by
  obtain ⟨g, hg, hid, huser⟩ := h.goal
  have hprofile := (goalStage h 13).2.updateProfiles (p := (·.userId = request.userId))
    (f := request.profile (goalRecords s.1 request.userId request.goalId).analysisIds)
    fun _ ↦ rfl
  refine hprofile.insertEvent (e := request.event eventId) ?_ hfresh.event ?_ (Nat.le_add_left 1 _)
  · obtain ⟨u, hu, hid⟩ := s.2.goals.user g hg
    exact ⟨u, hu, hid.trans huser⟩
  · intro e he haggregate hsame
    have hle := h.goalOwned.eventVersion e he g hg (haggregate.trans hid.symm)
      request.expectedProfileVersion (huser ▸ hversion)
    have hnext : e.version = request.expectedProfileVersion + 1 := hsame
    omega

/-- The request that follows a deletion, for the goal that stays active. -/
def GoalDelete.followUp (carryForward : CarryForward) (request : GoalDelete) (eventId : Uuid)
    (db : Db) (goal : GoalRow) : RecomputeRequestCreate :=
  let version := request.expectedProfileVersion + 1
  let context := configuredContext carryForward db request.userId version goal.id
  { userId := request.userId
    profileVersion := version
    triggerEventId := eventId
    dedupeKey := (if context.isSome then "configured-context:" else "missing-context:") ++
      toString eventId
    context := context }

/-- What the follow-up of a deletion writes. -/
inductive FollowedUp (carryForward : CarryForward) (request : GoalDelete) (eventId : Uuid)
    (draw : EnqueueDraw) (u : Db) : Db → Prop
  | nothing (inactive : ∀ g ∈ u.goals, g.userId = request.userId → g.status ≠ .active) :
    FollowedUp carryForward request eventId draw u u
  | enqueued (goal : GoalRow) (mem : goal ∈ u.goals) (user : goal.userId = request.userId)
    (active : goal.status = .active) :
    FollowedUp carryForward request eventId draw u
      (u.enqueued (request.followUp carryForward eventId u goal) draw)

private theorem enqueueAfterDeletion_fresh {carryForward : CarryForward} {request : GoalDelete}
    {eventId : Uuid} {draw : EnqueueDraw} {u : Database}
    (huser : ∃ x ∈ u.1.users, x.id = request.userId) (hevent : ∃ e ∈ u.1.events, e.id = eventId)
    (hrequest : ∀ r ∈ u.1.requests, r.id ≠ draw.requestId ∧ r.triggerEventId ≠ eventId)
    (hjob : ∀ j ∈ u.1.jobs, j.id ≠ draw.jobId ∧
      j.dedupeKey ≠ "configured-context:" ++ toString eventId) :
    ∃ t : Database, FollowedUp carryForward request eventId draw u.1 t.1 ∧
      Yields (enqueueAfterDeletion carryForward request.userId (request.expectedProfileVersion + 1)
        eventId draw) u () t := by
  unfold enqueueAfterDeletion
  simp only [yields_query_bind]
  cases hactive : u.1.goals.find? fun g ↦ g.userId = request.userId ∧ g.status = .active with
  | none =>
    refine ⟨u, .nothing fun g hg huser hactive' ↦ ?_, yields_pure.mpr ⟨rfl, rfl⟩⟩
    exact List.find?_eq_none.mp hactive g hg (decide_eq_true ⟨huser, hactive'⟩)
  | some goal =>
    have hmem := List.mem_of_find?_eq_some hactive
    have hpred := List.find?_some hactive
    simp only [decide_eq_true_eq] at hpred
    obtain ⟨hgoalUser, hstatus⟩ := hpred
    have hfresh : FreshRequest (request.followUp carryForward eventId u.1 goal) draw u.1 := {
      user := huser
      event := hevent
      newRequest := hrequest
      newJob := fun hcontext j hj ↦ by
        have hsome : (configuredContext carryForward u.1 request.userId
            (request.expectedProfileVersion + 1) goal.id).isSome = true :=
          Option.isSome_iff_ne_none.mpr hcontext
        have hkey := (hjob j hj).2
        simp only [GoalDelete.followUp, hsome, if_true]
        exact ⟨(hjob j hj).1, hkey⟩ }
    obtain ⟨t, ht, hyields⟩ := persistRecomputeRequest_fresh hfresh
    refine ⟨t, ht ▸ .enqueued goal hmem hgoalUser hstatus, ?_⟩
    simp only [enqueueForGoal, yields_query_bind]
    cases hcontext : configuredContext carryForward u.1 request.userId
        (request.expectedProfileVersion + 1) goal.id with
    | none =>
      simp only [GoalDelete.followUp, hcontext, Option.isSome_none, Bool.false_eq_true,
        if_false] at hyields
      exact yields_bind.mpr ⟨_, t, hyields, yields_pure.mpr ⟨rfl, rfl⟩⟩
    | some context =>
      simp only [GoalDelete.followUp, hcontext, Option.isSome_some, if_true] at hyields
      exact yields_bind.mpr ⟨_, t, hyields, yields_pure.mpr ⟨rfl, rfl⟩⟩

/-- A deletion for the version of the profile succeeds. -/
theorem deleteGoal_succeeds {carryForward : CarryForward} {s : Database} {request : GoalDelete}
    {eventId : Uuid} {draw : EnqueueDraw} (h : GoalScope s request)
    (hversion : s.1.profileVersion request.userId = some request.expectedProfileVersion)
    (hfresh : FreshDeletion eventId draw s.1) :
    ∃ t : Database,
      FollowedUp carryForward request eventId draw (s.1.withoutGoal request eventId) t.1 ∧
      Yields (deleteGoal carryForward request eventId draw) s
        ⟨request.userId, request.expectedProfileVersion + 1⟩ t := by
  obtain ⟨g, hg, hid, huser⟩ := h.goal
  let u : Database := ⟨_, withoutGoal_constraints h hversion hfresh⟩
  have hrequests : ∀ r ∈ u.1.requests, r.id ≠ draw.requestId ∧ r.triggerEventId ≠ eventId := by
    intro r hr
    have hmem := List.mem_of_mem_filter hr
    obtain ⟨e, he, heid⟩ := s.2.requests.event r hmem
    exact ⟨hfresh.request r hmem, fun htrigger ↦ hfresh.event e he (heid.trans htrigger)⟩
  have howner : ∃ x ∈ u.1.users, x.id = request.userId := by
    obtain ⟨x, hx, hxid⟩ := s.2.goals.user g hg
    exact ⟨x, hx, hxid.trans huser⟩
  have hevent : ∃ e ∈ u.1.events, e.id = eventId :=
    ⟨request.event eventId, List.mem_append_right _ (List.mem_singleton_self _), rfl⟩
  obtain ⟨t, hfollowed, hqueue⟩ := @enqueueAfterDeletion_fresh carryForward _ _ _ _ howner
    hevent hrequests fun j hj ↦ hfresh.job j (List.mem_of_mem_filter hj)
  have howned : (s.1.goals.any fun g ↦ g.id = request.goalId ∧ g.userId = request.userId) = true :=
    List.any_eq_true.mpr ⟨g, hg, decide_eq_true ⟨hid, huser⟩⟩
  have hprofile := (goalStage h 13).2.updateProfiles (p := (·.userId = request.userId))
    (f := request.profile (goalRecords s.1 request.userId request.goalId).analysisIds)
    fun _ ↦ rfl
  refine ⟨t, hfollowed, ?_⟩
  unfold deleteGoal deleteGoalRecords deleteGoalTraces appendEvent
  simp only [yields_query_bind, ↓yields_require_bind, yields_seq, yields_statement, yields_pure]
  exact ⟨howned, hversion, goalStage h 10, ⟨goalStage h 1, rfl, goalStage h 2, rfl, goalStage h 3,
    rfl, goalStage h 4, rfl, goalStage h 5, rfl, goalStage h 6, rfl, goalStage h 7, rfl,
    goalStage h 8, rfl, goalStage h 9, rfl, rfl⟩, goalStage h 12, ⟨goalStage h 11, rfl, rfl⟩,
    goalStage h 13, rfl, ⟨_, hprofile⟩, rfl, u, rfl, t, hqueue, trivial, rfl⟩

end Jobtology.Store
