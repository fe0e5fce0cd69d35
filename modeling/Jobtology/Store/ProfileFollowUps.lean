import Jobtology.Store.ProfileChanges

/-!
# Follow-ups of profile changes

What a change that succeeds writes: the next version of its user's profile, its event, and the
recompute request that follows it, for the goal that the change is followed up for.
-/

namespace Jobtology.Store

open Jobtology.Base Jobtology.Relational
open Jobtology.Relational.Transaction

/-! ### The goal of a follow-up -/

/-- The user's active goal. -/
def Db.activeGoal (db : Db) (userId : Uuid) : Option Uuid :=
  (db.goals.find? fun g ↦ g.userId = userId ∧ g.status = .active).map (·.id)

namespace ProfileChange

/-- The goal that the follow-up is for, in the database as the change leaves it. -/
def goalOf (c : ProfileChange) (w : Db) : Option Uuid :=
  match c with
  | goal request draw =>
    if request.status = .active then some (request.goalId.getD draw.goalId)
    else w.activeGoal request.userId
  | step request _ => (lookup (·.id) w.roadmaps request.roadmapId).map (·.goalId)
  | profile .. | capability .. | onboarding .. | capabilityDeletion .. | preferences ..
  | goalDeletion .. => w.activeGoal c.userId

/-- The request that follows the change. -/
def request (carryForward : CarryForward) (c : ProfileChange) (w : Db) : RecomputeRequestCreate :=
  let version := c.expectedVersion + 1
  let context := (c.goalOf w).bind (configuredContext carryForward w c.userId version)
  { userId := c.userId
    profileVersion := version
    triggerEventId := c.eventId
    dedupeKey := (if context.isSome then "configured-context:" else "missing-context:") ++
      toString c.eventId
    context := context }

/-- A deletion that leaves no active goal is not followed up. -/
def endsGoals (c : ProfileChange) (w : Db) : Prop :=
  (match c with
    | goalDeletion .. => True
    | profile .. | capability .. | onboarding .. | capabilityDeletion .. | preferences .. | goal ..
    | step .. => False) ∧ w.activeGoal c.userId = none

/-- What a change writes before it is followed up. Of requests, contexts and jobs it drops those of
requests of its own user. -/
structure Written (c : ProfileChange) (s w : Db) : Prop where
  expected : s.profileVersion c.userId = some c.expectedVersion
  version : ∀ userId, w.profileVersion userId =
    if userId = c.userId then some (c.expectedVersion + 1) else s.profileVersion userId
  event : ∃ e, e.id = c.eventId ∧ e.userId = c.userId ∧ e.version = c.expectedVersion + 1 ∧
    w.events = s.events ++ [e]
  dropped : ∃ requestIds, (∀ r ∈ s.requests, r.id ∈ requestIds → r.userId = c.userId) ∧
    w.requests = s.requests.filter (·.id ∉ requestIds) ∧
    w.contexts = s.contexts.filter (·.requestId ∉ requestIds) ∧
    w.jobs = s.jobs.filter (¬ isRequestJob requestIds ·)
  goals : ∀ g, g.userId ≠ c.userId → (g ∈ w.goals ↔ g ∈ s.goals)

/-- What a change that succeeds leaves. -/
inductive FollowedUpBy (carryForward : CarryForward) (c : ProfileChange) (w : Db) : Db → Prop
  | nothing (ends : c.endsGoals w) : FollowedUpBy carryForward c w w
  | enqueued (goesOn : ¬ c.endsGoals w) :
    FollowedUpBy carryForward c w (w.enqueued (c.request carryForward w) c.draw)

end ProfileChange

/-! ### Enqueueing for a new event -/

variable {carryForward : CarryForward} {userId eventId goalId : Uuid} {version : Nat}
  {draw : EnqueueDraw} {s t w : Database} {u : Unit}

/-- The request for a context that was found, or for none. -/
private def configured (userId : Uuid) (version : Nat) (eventId : Uuid)
    (context : Option RecomputeContext) : RecomputeRequestCreate :=
  { userId := userId
    profileVersion := version
    triggerEventId := eventId
    dedupeKey := (if context.isSome then "configured-context:" else "missing-context:") ++
      toString eventId
    context := context }

private theorem enqueueRecompute_inserted (hnew : ∀ r ∈ w.1.requests, r.triggerEventId ≠ eventId)
    (h : Yields (enqueueRecompute userId version eventId draw) w u t) :
    t.1 = w.1.enqueued (configured userId version eventId none) draw := by
  obtain ⟨snapshot, v, hyields, hrest⟩ := yields_bind.mp h
  obtain ⟨-, rfl⟩ := yields_pure.mp hrest
  have hnone : requestOf w.1 (configured userId version eventId none) = none :=
    List.find?_eq_none.mpr fun r hr hmatch ↦ hnew r hr (of_decide_eq_true hmatch).2.2
  exact (persistRecomputeRequest_inserted hnone hyields).2.1

private theorem enqueueForGoal_inserted (hnew : ∀ r ∈ w.1.requests, r.triggerEventId ≠ eventId)
    (h : Yields (enqueueForGoal carryForward userId version eventId goalId draw) w u t) :
    t.1 = w.1.enqueued (configured userId version eventId
      (configuredContext carryForward w.1 userId version goalId)) draw := by
  unfold enqueueForGoal at h
  rw [yields_query_bind] at h
  cases hcontext : configuredContext carryForward w.1 userId version goalId with
  | none =>
    rw [hcontext] at h
    exact enqueueRecompute_inserted hnew h
  | some context =>
    rw [hcontext] at h
    obtain ⟨snapshot, v, hyields, hrest⟩ := yields_bind.mp h
    obtain ⟨-, rfl⟩ := yields_pure.mp hrest
    have hnone : requestOf w.1 (configured userId version eventId (some context)) = none :=
      List.find?_eq_none.mpr fun r hr hmatch ↦ hnew r hr (of_decide_eq_true hmatch).2.2
    exact (persistRecomputeRequest_inserted hnone hyields).2.1

/-- A user has one active goal at most. -/
theorem activeGoals_cases (w : Database) (userId : Uuid) :
    (∃ g, (w.1.goals.filter fun g ↦ g.userId = userId ∧ g.status = .active) = [g] ∧
      w.1.activeGoal userId = some g.id) ∨
    ((w.1.goals.filter fun g ↦ g.userId = userId ∧ g.status = .active) = [] ∧
      w.1.activeGoal userId = none) := by
  have hhead : w.1.activeGoal userId =
      ((w.1.goals.filter fun g ↦ g.userId = userId ∧ g.status = .active).head?).map (·.id) := by
    rw [List.head?_filter]
    rfl
  rw [hhead]
  cases hfilter : w.1.goals.filter fun g ↦ g.userId = userId ∧ g.status = .active with
  | nil => exact .inr ⟨rfl, rfl⟩
  | cons g rest =>
    cases rest with
    | nil => exact .inl ⟨g, rfl, rfl⟩
    | cons g' rest =>
      exfalso
      have hmem {x : GoalRow} (hx : x ∈ g :: g' :: rest) : x.userId = userId := by
        rw [← hfilter] at hx
        exact (of_decide_eq_true (List.mem_filter.mp hx).2).1
      -- Both are among the active goals, whose users differ.
      have hunique := w.2.goals.oneActivePerUser
      unfold UniqueWhere Relational.Unique at hunique
      have hsub : (w.1.goals.filter fun g ↦ g.userId = userId ∧ g.status = .active).Sublist
          (w.1.goals.filter fun g ↦ g.status = .active) := by
        have hboth : (w.1.goals.filter fun g ↦ g.userId = userId ∧ g.status = .active) =
            (w.1.goals.filter fun g ↦ g.status = .active).filter fun g ↦ g.userId = userId := by
          rw [List.filter_filter]
          exact List.filter_congr fun g _ ↦ by simp
        rw [hboth]
        exact List.filter_sublist
      rw [hfilter] at hsub
      have hnodup := hunique.sublist (hsub.map _)
      rw [List.map_cons, List.map_cons, hmem List.mem_cons_self,
        hmem (List.mem_cons_of_mem _ List.mem_cons_self)] at hnodup
      exact (List.nodup_cons.mp hnodup).1 List.mem_cons_self

private theorem enqueueForActiveUser_inserted
    (hnew : ∀ r ∈ w.1.requests, r.triggerEventId ≠ eventId)
    (h : Yields (enqueueForActiveUser carryForward userId version eventId draw) w u t) :
    t.1 = w.1.enqueued (configured userId version eventId
      ((w.1.activeGoal userId).bind (configuredContext carryForward w.1 userId version)))
      draw := by
  unfold enqueueForActiveUser at h
  rw [yields_query_bind] at h
  rcases activeGoals_cases w userId with ⟨g, hfilter, hactive⟩ | ⟨hfilter, hactive⟩
  · rw [hfilter] at h
    rw [hactive]
    exact enqueueForGoal_inserted hnew h
  · rw [hfilter] at h
    rw [hactive]
    exact enqueueRecompute_inserted hnew h

/-! ### What changes write -/

namespace ProfileChange

variable {c : ProfileChange}

/-- No request was triggered by the event of the change before it is followed up. -/
theorem Written.newEvent (h : c.Written s.1 w.1) :
    ∀ r ∈ w.1.requests, r.triggerEventId ≠ c.eventId := by
  obtain ⟨e, hid, -, -, hevents⟩ := h.event
  obtain ⟨requestIds, -, hrequests, -⟩ := h.dropped
  have hkey := w.2.events.key
  rw [hevents] at hkey
  intro r hr htrigger
  rw [hrequests] at hr
  obtain ⟨e', he', hid'⟩ := s.2.requests.event r (List.mem_of_mem_filter hr)
  exact (unique_append_singleton.mp hkey).2 e' he' ((hid'.trans htrigger).trans hid.symm)

/-- A change that raises the version, records its event and leaves requests, contexts and jobs. -/
theorem written_of_bump {e : EventRow}
    (hexpected : s.1.profileVersion c.userId = some c.expectedVersion)
    (hprofiles : w.1.profiles = update
      (fun p ↦ p.userId = c.userId ∧ p.version = c.expectedVersion)
      (fun p ↦ { p with version := p.version + 1 }) s.1.profiles)
    (hid : e.id = c.eventId) (huser : e.userId = c.userId) (hversion : e.version =
      c.expectedVersion + 1) (hevents : w.1.events = s.1.events ++ [e])
    (hrequests : w.1.requests = s.1.requests) (hcontexts : w.1.contexts = s.1.contexts)
    (hjobs : w.1.jobs = s.1.jobs)
    (hgoals : ∀ g, g.userId ≠ c.userId → (g ∈ w.1.goals ↔ g ∈ s.1.goals)) :
    c.Written s.1 w.1 := by
  refine ⟨hexpected, fun userId ↦ ?_, ⟨e, hid, huser, hversion, hevents⟩,
    ⟨[], fun _ _ hmem ↦ absurd hmem List.not_mem_nil, ?_, ?_, ?_⟩, hgoals⟩
  · rw [profileVersion_update hprofiles fun _ ↦ rfl]
    unfold Db.profileVersion at hexpected ⊢
    cases hlookup : lookup (·.userId) s.1.profiles userId with
    | none =>
      rw [if_neg fun heq ↦ ?_]
      · rfl
      · rw [← heq, hlookup] at hexpected
        cases hexpected
    | some p =>
      have hp := (lookup_some hlookup).2
      by_cases heq : userId = c.userId
      · rw [← heq, hlookup] at hexpected
        have hpversion : p.version = c.expectedVersion := Option.some.inj hexpected
        rw [if_pos heq, Option.map_some, if_pos ⟨hp.trans heq, hpversion⟩, hpversion]
      · rw [if_neg heq, Option.map_some, if_neg fun hboth ↦ heq (hp.symm.trans hboth.1)]
        rfl
  · rw [hrequests, List.filter_eq_self.mpr fun r _ ↦ decide_eq_true List.not_mem_nil]
  · rw [hcontexts, List.filter_eq_self.mpr fun r _ ↦ decide_eq_true List.not_mem_nil]
  · rw [hjobs, List.filter_eq_self.mpr fun j _ ↦ decide_eq_true ?_]
    rintro (⟨r, -, hr⟩ | ⟨-, -, r, -, hr⟩)
    · exact List.not_mem_nil hr
    · exact List.not_mem_nil hr

/-- The event of a change, and its follow-up for the active goal. -/
theorem appendChange_spec {aggregateId : Uuid} {kind : EventKind} {draw : ChangeDraw}
    (h : Yields (appendChange carryForward userId aggregateId version kind draw) s u t) :
    ∃ w : Database, w.1 = { s.1 with events := s.1.events ++
        [⟨draw.eventId, userId, aggregateId, version, kind, ⟨none, none⟩⟩] } ∧
      Yields (enqueueForActiveUser carryForward userId version draw.eventId draw.enqueue) w u
        t := by
  obtain ⟨w, hevent, hqueue⟩ := yields_seq.mp h
  exact ⟨w, (yields_statement.mp hevent).symm, hqueue⟩

/-- A change with a follow-up for the active goal. -/
theorem followedUp_active (hw : c.Written s.1 w.1)
    (hgoal : c.goalOf w.1 = w.1.activeGoal c.userId) (hends : ¬ c.endsGoals w.1)
    (h : Yields (enqueueForActiveUser carryForward c.userId (c.expectedVersion + 1) c.eventId
      c.draw) w u t) : FollowedUpBy carryForward c w.1 t.1 := by
  have ht := enqueueForActiveUser_inserted hw.newEvent h
  have hrequest : c.request carryForward w.1 = configured c.userId (c.expectedVersion + 1)
      c.eventId ((w.1.activeGoal c.userId).bind
        (configuredContext carryForward w.1 c.userId (c.expectedVersion + 1))) := by
    unfold request
    rw [hgoal]
    rfl
  rw [ht, ← hrequest]
  exact .enqueued hends

/-- A change with a follow-up for a goal. -/
theorem followedUp_goal (hw : c.Written s.1 w.1) (hgoal : c.goalOf w.1 = some goalId)
    (hends : ¬ c.endsGoals w.1)
    (h : Yields (enqueueForGoal carryForward c.userId (c.expectedVersion + 1) c.eventId goalId
      c.draw) w u t) : FollowedUpBy carryForward c w.1 t.1 := by
  have ht := enqueueForGoal_inserted hw.newEvent h
  have hrequest : c.request carryForward w.1 = configured c.userId (c.expectedVersion + 1)
      c.eventId (configuredContext carryForward w.1 c.userId (c.expectedVersion + 1) goalId) := by
    unfold request
    rw [hgoal]
    rfl
  rw [ht, ← hrequest]
  exact .enqueued hends

/-- What a change that succeeds does. -/
def Done (carryForward : CarryForward) (c : ProfileChange) (s t : Database) : Prop :=
  ∃ w : Database, c.Written s.1 w.1 ∧ FollowedUpBy carryForward c w.1 t.1

/-- A change of capabilities or preferences, or of columns that nothing reads. -/
theorem done_of_change {s₁ s₂ : Database} {aggregateId : Uuid} {kind : EventKind}
    {draw : ChangeDraw} (hevent : draw.eventId = c.eventId) (hdraw : draw.enqueue = c.draw)
    (hgoal : ∀ w, c.goalOf w = w.activeGoal c.userId) (hends : ∀ w, ¬ c.endsGoals w)
    (hbump : Yields (bumpProfile c.userId c.expectedVersion) s () s₁)
    (hbody : s₂.1 = { s₁.1 with
      capabilities := s₂.1.capabilities, preferences := s₂.1.preferences })
    (hchange : Yields (appendChange carryForward c.userId aggregateId (c.expectedVersion + 1) kind
      draw) s₂ u t) : Done carryForward c s t := by
  obtain ⟨hexpected, h₁⟩ := bumpProfile_spec hbump
  obtain ⟨w, hw, hqueue⟩ := appendChange_spec hchange
  rw [h₁] at hbody
  rw [hbody] at hw
  have hwritten : c.Written s.1 w.1 :=
    written_of_bump hexpected (by rw [hw]) hevent rfl rfl (by rw [hw]) (by rw [hw]) (by rw [hw])
      (by rw [hw]) (by rw [hw]; exact fun _ _ ↦ .rfl)
  rw [hevent, hdraw] at hqueue
  exact ⟨w, hwritten, followedUp_active hwritten (hgoal w.1) (hends w.1) hqueue⟩

private theorem mutateProfile_done {request : ProfileMutation} {draw : ChangeDraw}
    {snapshot : ProfileSnapshot}
    (h : Yields (mutateProfile carryForward request draw) s snapshot t) :
    Done carryForward (.profile request draw) s t := by
  unfold mutateProfile at h
  simp only [yields_seq, yields_pure] at h
  obtain ⟨s₁, hbump, s₂, hchange, -, rfl⟩ := h
  exact done_of_change rfl rfl (fun _ ↦ rfl) (fun _ hends ↦ hends.1) hbump rfl hchange

private theorem mutateCapability_done {request : CapabilityMutation} {draw : ChangeDraw}
    {snapshot : CapabilitySnapshot}
    (h : Yields (mutateCapability carryForward request draw) s snapshot t) :
    Done carryForward (.capability request draw) s t := by
  unfold mutateCapability at h
  simp only [yields_seq, yields_pure] at h
  obtain ⟨s₁, hbump, s₂, hwrite, s₃, hchange, -, rfl⟩ := h
  refine done_of_change rfl rfl (fun _ ↦ rfl) (fun _ hends ↦ hends.1) hbump ?_ hchange
  unfold writeCapability at hwrite
  rcases yields_ite.mp hwrite with ⟨-, hwrite⟩ | ⟨-, hwrite⟩
  · rw [← yields_statement.mp hwrite]
  · simp only [yields_query_bind, yields_seq, yields_statement, yields_require] at hwrite
    obtain ⟨s', hset, -, rfl⟩ := hwrite
    rw [← hset]

private theorem replaceOnboardingCapabilities_done {request : OnboardingCapabilityReplace}
    {draw : ChangeDraw} {snapshot : ProfileSnapshot}
    (h : Yields (replaceOnboardingCapabilities carryForward request draw) s snapshot t) :
    Done carryForward (.onboarding request draw) s t := by
  unfold replaceOnboardingCapabilities at h
  simp only [yields_seq, yields_pure] at h
  obtain ⟨s₁, hbump, s₂, hrevoke, s₃, hinsert, s₄, hchange, -, rfl⟩ := h
  refine done_of_change rfl rfl (fun _ ↦ rfl) (fun _ hends ↦ hends.1) hbump ?_ hchange
  rcases yields_when.mp hinsert with ⟨-, hinsert⟩ | ⟨-, rfl⟩
  · rw [← yields_statement.mp hinsert, ← yields_statement.mp hrevoke]
  · rw [← yields_statement.mp hrevoke]

private theorem deleteCapability_done {request : CapabilityDelete} {draw : ChangeDraw}
    {snapshot : ProfileSnapshot}
    (h : Yields (deleteCapability carryForward request draw) s snapshot t) :
    Done carryForward (.capabilityDeletion request draw) s t := by
  unfold deleteCapability at h
  simp only [yields_query_bind, ↓yields_require_bind, yields_seq, yields_pure] at h
  obtain ⟨s₁, hbump, s₂, hrevoke, -, s₃, hchange, -, rfl⟩ := h
  refine done_of_change rfl rfl (fun _ ↦ rfl) (fun _ hends ↦ hends.1) hbump ?_ hchange
  rw [← yields_statement.mp hrevoke]

private theorem setRoutePreferences_done {request : RoutePreferenceMutation} {draw : ChangeDraw}
    {snapshot : ProfileSnapshot}
    (h : Yields (setRoutePreferences carryForward request draw) s snapshot t) :
    Done carryForward (.preferences request draw) s t := by
  unfold setRoutePreferences at h
  simp only [yields_seq, yields_pure] at h
  obtain ⟨s₁, hbump, s₂, hwrite, s₃, hchange, -, rfl⟩ := h
  refine done_of_change rfl rfl (fun _ ↦ rfl) (fun _ hends ↦ hends.1) hbump ?_ hchange
  rw [← yields_statement.mp hwrite]

private theorem mutateGoal_done {request : GoalMutation} {draw : GoalDraw}
    {snapshot : GoalSnapshot}
    (h : Yields (mutateGoal carryForward request draw) s snapshot t) :
    Done carryForward (.goal request draw) s t := by
  unfold mutateGoal at h
  simp only [yields_query_bind, ↓yields_require_bind, yields_seq, yields_pure] at h
  obtain ⟨-, -, -, s₁, hbump, s₂, hwrite, s₃, harchive, s₄, hevent, s₅, hqueue, -, rfl⟩ := h
  obtain ⟨hexpected, h₁⟩ := bumpProfile_spec hbump
  have h₂ := writeGoal_spec hwrite
  have h₃ : s₃.1 = { s₂.1 with roadmaps := s₃.1.roadmaps } := by
    rcases yields_when.mp harchive with ⟨-, harchive⟩ | ⟨-, rfl⟩
    · rw [← yields_statement.mp harchive]
    · rfl
  have h₄ := (yields_statement.mp hevent).symm
  rw [h₁] at h₂
  rw [h₂] at h₃
  rw [h₃] at h₄
  have hgoals : ∀ g, g.userId ≠ request.userId → (g ∈ s₄.1.goals ↔ g ∈ s.1.goals) := by
    intro g hother
    have hrow : g ≠ request.row (request.goalId.getD draw.goalId) := fun heq ↦ hother (heq ▸ rfl)
    rw [h₄]
    unfold GoalMutation.goalsAfter
    dsimp only
    split
    · rw [List.mem_append, List.mem_singleton, or_iff_left hrow]
    · rw [mem_update]
      constructor
      · rintro (⟨hg, -⟩ | ⟨_, -, -, heq⟩)
        · exact hg
        · exact absurd heq.symm hrow
      · exact fun hg ↦ .inl ⟨hg, fun hboth ↦ hother hboth.2⟩
  have hwritten : Written (.goal request draw) s.1 s₄.1 :=
    written_of_bump hexpected (by rw [h₄]; rfl) rfl rfl rfl (by rw [h₄]) (by rw [h₄])
      (by rw [h₄]) (by rw [h₄]) hgoals
  refine ⟨s₄, hwritten, ?_⟩
  unfold enqueueAfterMutation at hqueue
  rcases yields_ite.mp hqueue with ⟨hactive, hqueue⟩ | ⟨hinactive, hqueue⟩
  · exact followedUp_goal hwritten (if_pos hactive) (fun hends ↦ hends.1) hqueue
  · exact followedUp_active hwritten (if_neg hinactive) (fun hends ↦ hends.1) hqueue

private theorem mutateStepState_done {request : StepStateMutation} {draw : StepDraw}
    {snapshot : RoadmapSnapshot}
    (h : Yields (mutateStepState carryForward request draw) s snapshot t) :
    Done carryForward (.step request draw) s t := by
  unfold mutateStepState at h
  simp only [yields_query_bind, ↓yields_require_bind, ↓yields_demand_bind, yields_seq,
    yields_pure] at h
  obtain ⟨s₁, hbump, roadmap, hroadmap, step, -, -, s₂, hwrite, s₃, hrevoke, s₄, hevent, s₅,
    hrecord, s₆, hqueue, -, rfl⟩ := h
  obtain ⟨hexpected, h₁⟩ := bumpProfile_spec hbump
  have h₂ := writeStepState_spec hwrite
  obtain ⟨-, h₃⟩ := revoke_spec hrevoke
  have h₄ := (yields_statement.mp hevent).symm
  have h₅ := record_spec hrecord
  obtain ⟨hroadmap, -⟩ := Option.filter_eq_some_iff.mp hroadmap
  have hmem := List.mem_of_find?_eq_some hroadmap
  have hfound := List.find?_some hroadmap
  rw [decide_eq_true_eq] at hfound
  simp only [h₁] at hmem h₂
  simp only [h₂] at h₃
  simp only [h₃] at h₄
  simp only [h₄] at h₅
  have hwritten : Written (.step request draw) s.1 s₅.1 :=
    written_of_bump hexpected (by rw [h₅]; rfl) rfl rfl rfl (by rw [h₅]) (by rw [h₅])
      (by rw [h₅]) (by rw [h₅]) (by rw [h₅]; exact fun _ _ ↦ .rfl)
  have hgoal : goalOf (.step request draw) s₅.1 = some roadmap.goalId := by
    have hlookup : lookup (·.id) s₅.1.roadmaps request.roadmapId =
        some { roadmap with version := roadmap.version + 1 } := by
      refine (lookup_eq_some s₅.2.roadmaps.key).mpr ⟨?_, hfound.1⟩
      rw [h₅]
      exact mem_update.mpr (.inr ⟨roadmap, hmem, hfound.1, rfl⟩)
    unfold goalOf
    dsimp only
    rw [hlookup]
    rfl
  exact ⟨s₅, hwritten, followedUp_goal hwritten hgoal (fun hends ↦ hends.1) hqueue⟩

private theorem deleteGoal_written {request : GoalDelete} {draw : EnqueueDraw}
    (h : GoalDeleted carryForward request eventId draw s t) :
    Written (.goalDeletion request eventId draw) s.1 (s.1.withoutGoal request eventId) := by
  obtain ⟨g, hg, hgid, hguser⟩ := h.owned
  refine ⟨h.version, fun userId ↦ ?_, ⟨request.event eventId, rfl, rfl, rfl, rfl⟩,
    ⟨(goalRecords s.1 request.userId request.goalId).requestIds, fun r hr hmem ↦ ?_, rfl, rfl,
      rfl⟩, fun g' hother ↦ ?_⟩
  · have hversion := h.version
    rw [@profileVersion_update s.1 (s.1.withoutGoal request eventId)
      (fun p ↦ p.userId = request.userId) _
      (request.profile (goalRecords s.1 request.userId request.goalId).analysisIds) rfl
      (fun _ ↦ rfl)]
    unfold Db.profileVersion at hversion ⊢
    cases hlookup : lookup (·.userId) s.1.profiles userId with
    | none =>
      rw [if_neg fun heq ↦ ?_]
      · rfl
      · have heq : userId = request.userId := heq
        rw [← heq, hlookup] at hversion
        cases hversion
    | some p =>
      have hp := (lookup_some hlookup).2
      by_cases heq : userId = request.userId
      · rw [Option.map_some, if_pos (hp.trans heq)]
        exact (if_pos heq).symm
      · rw [Option.map_some, if_neg fun hboth ↦ heq (hp.symm.trans hboth)]
        exact (if_neg heq).symm
  · obtain ⟨r', hr', hsame⟩ := List.mem_map.mp hmem
    obtain ⟨hr', hgoalRequest⟩ := List.mem_filter.mp hr'
    obtain rfl : r' = r := List.inj_on_of_nodup_map s.2.requests.key hr' hr hsame
    exact (of_decide_eq_true hgoalRequest).1
  · unfold Db.withoutGoal
    rw [List.mem_filter]
    refine ⟨fun hmem ↦ hmem.1, fun hmem ↦ ⟨hmem, decide_eq_true fun heq ↦ hother ?_⟩⟩
    obtain rfl : g' = g := List.inj_on_of_nodup_map s.2.goals.key hmem hg (heq.trans hgid.symm)
    exact hguser

private theorem deleteGoal_done {request : GoalDelete} {draw : EnqueueDraw}
    {snapshot : ProfileSnapshot}
    (h : Yields (deleteGoal carryForward request eventId draw) s snapshot t) :
    Done carryForward (.goalDeletion request eventId draw) s t := by
  have hdeleted := deleteGoal_spec h
  have hwritten := deleteGoal_written hdeleted
  obtain ⟨w, hw, hqueue⟩ := hdeleted.written
  rw [← hw] at hwritten
  refine ⟨w, hwritten, ?_⟩
  unfold enqueueAfterDeletion at hqueue
  rw [yields_query_bind] at hqueue
  cases hactive : w.1.goals.find? fun g ↦ g.userId = request.userId ∧ g.status = .active with
  | none =>
    rw [hactive] at hqueue
    obtain ⟨-, rfl⟩ := yields_pure.mp hqueue
    exact .nothing ⟨trivial, congrArg (Option.map GoalRow.id) hactive⟩
  | some goal =>
    rw [hactive] at hqueue
    have hgoal : w.1.activeGoal request.userId = some goal.id :=
      congrArg (Option.map GoalRow.id) hactive
    refine followedUp_goal hwritten hgoal (fun hends ↦ ?_) hqueue
    have hnone : w.1.activeGoal request.userId = none := hends.2
    rw [hgoal] at hnone
    cases hnone

/-- A change that succeeds writes its change and follows it up. -/
theorem perform_done (h : Yields (c.perform carryForward) s u t) : Done carryForward c s t := by
  cases c <;> obtain ⟨snapshot, t', hyields, hrest⟩ := yields_bind.mp h <;>
    obtain ⟨-, rfl⟩ := yields_pure.mp hrest
  case profile => exact mutateProfile_done hyields
  case capability => exact mutateCapability_done hyields
  case onboarding => exact replaceOnboardingCapabilities_done hyields
  case capabilityDeletion => exact deleteCapability_done hyields
  case preferences => exact setRoutePreferences_done hyields
  case goal => exact mutateGoal_done hyields
  case goalDeletion => exact deleteGoal_done hyields
  case step => exact mutateStepState_done hyields

end ProfileChange

end Jobtology.Store
