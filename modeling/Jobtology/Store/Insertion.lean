import Jobtology.Store.RecomputeQueue

/-!
# Rows that can be inserted

When one more row keeps the constraints, and that a recompute with new ids is enqueued.
-/

namespace Jobtology.Store

open Jobtology.Base Jobtology.Relational
open Jobtology.Relational.Transaction

variable {db : Db}

/-- An event under a new id, at a version that no event of its aggregate has. -/
theorem Constraints.insertEvent (h : Constraints db) {e : EventRow}
    (huser : ∃ u ∈ db.users, u.id = e.userId) (hid : ∀ e' ∈ db.events, e'.id ≠ e.id)
    (haggregate : ∀ e' ∈ db.events, e'.aggregateId = e.aggregateId → e'.version ≠ e.version)
    (hversion : 1 ≤ e.version) : Constraints { db with events := db.events ++ [e] } :=
  { h with
    events := ⟨unique_append_singleton.mpr ⟨h.events.key, hid⟩,
      refers_append_singleton.mpr ⟨h.events.user, huser⟩,
      unique_append_singleton.mpr ⟨h.events.aggregateVersion, fun e' he' heq ↦
        haggregate e' he' (Prod.mk.inj heq).1 (Prod.mk.inj heq).2⟩,
      forall_mem_append_singleton.mpr ⟨h.events.version, hversion⟩⟩
    capabilities := { h.capabilities with source := h.capabilities.source.mono mem_appended }
    inheritances := { h.inheritances with event := h.inheritances.event.mono mem_appended }
    requests := { h.requests with event := h.requests.event.mono mem_appended } }

/-- A request without results, under a new id and for a new trigger. -/
theorem Constraints.insertRequest (h : Constraints db) {r : RequestRow}
    (huser : ∃ u ∈ db.users, u.id = r.userId) (hevent : ∃ e ∈ db.events, e.id = r.triggerEventId)
    (hid : ∀ r' ∈ db.requests, r'.id ≠ r.id)
    (htrigger : ∀ r' ∈ db.requests, r'.triggerEventId ≠ r.triggerEventId)
    (hanalysis : r.resultingAnalysisId = none) (hproposal : r.proposalId = none) :
    Constraints { db with requests := db.requests ++ [r] } :=
  { h with
    requests := ⟨unique_append_singleton.mpr ⟨h.requests.key, hid⟩,
      refers_append_singleton.mpr ⟨h.requests.user, huser⟩,
      refers_append_singleton.mpr ⟨h.requests.event, hevent⟩,
      refersWhenSet_append_singleton.mpr ⟨h.requests.analysis, by simp [hanalysis]⟩,
      refersWhenSet_append_singleton.mpr ⟨h.requests.proposal, by simp [hproposal]⟩,
      unique_append_singleton.mpr ⟨h.requests.trigger, fun r' hr' heq ↦
        htrigger r' hr' (Prod.mk.inj (Prod.mk.inj heq).2).2⟩,
      h.requests.contextKey, h.requests.contextRequest.mono mem_appended⟩
    jobs := { h.jobs with request := h.jobs.request.mono mem_appended } }

/-- The first context of a request. -/
theorem Constraints.insertContext (h : Constraints db) {c : ContextRow}
    (hrequest : ∃ r ∈ db.requests, r.id = c.requestId)
    (hfirst : ∀ c' ∈ db.contexts, c'.requestId ≠ c.requestId) :
    Constraints { db with contexts := db.contexts ++ [c] } :=
  { h with
    requests := { h.requests with
      contextKey := unique_append_singleton.mpr ⟨h.requests.contextKey, hfirst⟩
      contextRequest := refers_append_singleton.mpr ⟨h.requests.contextRequest, hrequest⟩ } }

/-- The first job of a request, under a new id and key. -/
theorem Constraints.insertJob (h : Constraints db) {j : JobRow} {requestId : Uuid}
    (hlink : j.recomputeRequestId = some requestId) (hrequest : ∃ r ∈ db.requests, r.id = requestId)
    (hid : ∀ j' ∈ db.jobs, j'.id ≠ j.id) (hkey : ∀ j' ∈ db.jobs, j'.dedupeKey ≠ j.dedupeKey)
    (hfirst : ∀ j' ∈ db.jobs, j'.recomputeRequestId ≠ some requestId) :
    Constraints { db with jobs := db.jobs ++ [j] } :=
  { h with
    jobs := ⟨unique_append_singleton.mpr ⟨h.jobs.key, hid⟩,
      refersWhenSet_append_singleton.mpr ⟨h.jobs.request, fun k hk ↦ by
        obtain rfl : requestId = k := Option.some.inj (hlink.symm.trans hk)
        exact hrequest⟩,
      unique_append_singleton.mpr ⟨h.jobs.dedupe, hkey⟩,
      uniqueWhere_append_singleton.mpr ⟨h.jobs.oneJobPerRequest, fun _ j' hj' _ heq ↦
        hfirst j' hj' (heq.trans hlink)⟩⟩ }

/-! ### Enqueueing -/

/-- The row of a new request. -/
def RecomputeRequestCreate.row (request : RecomputeRequestCreate) (draw : EnqueueDraw) :
    RequestRow where
  id := draw.requestId
  userId := request.userId
  profileVersion := request.profileVersion
  triggerEventId := request.triggerEventId
  state := if request.context.isSome then .pending else .failed
  resultingAnalysisId := none
  proposalId := none
  autoRoadmapPending := false
  errorCode := if request.context.isSome then none else some missingRecomputeContext
  createdAt := draw.now

/-- The job of a new request. -/
def RecomputeRequestCreate.job (request : RecomputeRequestCreate) (draw : EnqueueDraw) :
    JobRow where
  id := draw.jobId
  kind := .recompute
  payloadRequestId := some draw.requestId
  recomputeRequestId := some draw.requestId
  dedupeKey := request.dedupeKey
  state := .ready
  attemptCount := 0
  availableAt := draw.now
  leaseUntil := none
  leaseToken := none

/-- The database with a new request, its context and its job. -/
def Db.enqueued (db : Db) (request : RecomputeRequestCreate) (draw : EnqueueDraw) : Db := { db with
  requests := db.requests ++ [request.row draw]
  contexts := db.contexts ++ request.context.toList.map (⟨draw.requestId, ·⟩)
  jobs := db.jobs ++ request.context.toList.map fun _ ↦ request.job draw }

/-- The ids that a new request draws are new, and so is its trigger. -/
structure FreshRequest (request : RecomputeRequestCreate) (draw : EnqueueDraw) (db : Db) :
    Prop where
  user : ∃ u ∈ db.users, u.id = request.userId
  event : ∃ e ∈ db.events, e.id = request.triggerEventId
  newRequest : ∀ r ∈ db.requests, r.id ≠ draw.requestId ∧ r.triggerEventId ≠ request.triggerEventId
  newJob : request.context ≠ none →
    ∀ j ∈ db.jobs, j.id ≠ draw.jobId ∧ j.dedupeKey ≠ request.dedupeKey

/-- Enqueueing under new ids succeeds and inserts the request with its context and its job. -/
theorem persistRecomputeRequest_fresh {s : Database} {request : RecomputeRequestCreate}
    {draw : EnqueueDraw} (h : FreshRequest request draw s.1) :
    ∃ t : Database, t.1 = s.1.enqueued request draw ∧
      Yields (persistRecomputeRequest request draw) s ⟨draw.requestId, (request.row draw).state⟩
        t := by
  have hrequest := s.2.insertRequest (r := request.row draw) h.user h.event
    (fun r hr ↦ (h.newRequest r hr).1) (fun r hr ↦ (h.newRequest r hr).2) rfl rfl
  let s₁ : Database := ⟨_, hrequest⟩
  have hnew : ∃ r ∈ s₁.1.requests, r.id = draw.requestId :=
    ⟨request.row draw, List.mem_append_right _ (List.mem_singleton_self _), rfl⟩
  have hinsert : Yields (insertRequest (request.row draw)) s () s₁ := by
    unfold insertRequest
    rw [yields_query_bind, if_neg]
    · exact yields_statement.mpr rfl
    · rw [List.any_eq_true]
      rintro ⟨r, hr, htaken⟩
      rcases of_decide_eq_true htaken with hid | ⟨-, -, htrigger⟩
      · exact (h.newRequest r hr).1 hid
      · exact (h.newRequest r hr).2 htrigger
  have hfound : requestOf s₁.1 request = some (request.row draw) := by
    unfold requestOf
    have hnone : (s.1.requests.find? fun r ↦ r.userId = request.userId ∧
        r.profileVersion = request.profileVersion ∧ r.triggerEventId = request.triggerEventId) =
        none := by
      refine List.find?_eq_none.mpr fun r hr hmatch ↦ ?_
      exact (h.newRequest r hr).2 (of_decide_eq_true hmatch).2.2
    change (s.1.requests ++ [request.row draw]).find? _ = _
    rw [List.find?_append, hnone]
    simp [RecomputeRequestCreate.row]
  have hcontexts : ∀ c ∈ s.1.contexts, c.requestId ≠ draw.requestId := by
    intro c hc hid
    obtain ⟨r, hr, hrid⟩ := s.2.requests.contextRequest c hc
    exact (h.newRequest r hr).1 (hrid.trans hid)
  have hjobs : ∀ j ∈ s.1.jobs, j.recomputeRequestId ≠ some draw.requestId := by
    intro j hj hlink
    obtain ⟨r, hr, hrid⟩ := s.2.jobs.request j hj _ hlink
    exact (h.newRequest r hr).1 hrid
  have henqueue : ∃ t : Database, t.1 = s.1.enqueued request draw ∧
      Yields (enqueueJob request (request.row draw) draw) s₁ () t := by
    unfold enqueueJob
    cases hcontext : request.context with
    | none =>
      refine ⟨s₁, ?_, yields_pure.mpr ⟨rfl, rfl⟩⟩
      simp [Db.enqueued, hcontext, s₁]
    | some context =>
      have hpending : (request.row draw).state = .pending := by
        simp [RecomputeRequestCreate.row, hcontext]
      have hnewJob := h.newJob (by simp [hcontext])
      have hwithContext := hrequest.insertContext (c := ⟨draw.requestId, context⟩) hnew hcontexts
      have hwithJob := hwithContext.insertJob (j := request.job draw) rfl hnew
        (fun j hj ↦ (hnewJob j hj).1) (fun j hj ↦ (hnewJob j hj).2) hjobs
      refine ⟨⟨_, hwithJob⟩, ?_, ?_⟩
      · simp [Db.enqueued, hcontext]
      · dsimp only
        rw [if_pos hpending]
        refine yields_seq.mpr ⟨⟨_, hwithContext⟩, ?_, ?_⟩
        · unfold insertContext
          rw [yields_query_bind, if_neg]
          · exact yields_statement.mpr rfl
          · rw [List.any_eq_true]
            rintro ⟨c, hc, htaken⟩
            exact hcontexts c hc (of_decide_eq_true htaken)
        · unfold insertJob
          rw [yields_query_bind, if_neg]
          · exact yields_statement.mpr rfl
          · rw [List.any_eq_true]
            rintro ⟨j, hj, htaken⟩
            rcases of_decide_eq_true htaken with hid | hlink | hkey
            · exact (hnewJob j hj).1 hid
            · exact hjobs j hj hlink
            · exact (hnewJob j hj).2 hkey
  obtain ⟨t, ht, henqueue⟩ := henqueue
  refine ⟨t, ht, ?_⟩
  unfold persistRecomputeRequest
  simp only [yields_seq, yields_query_bind, yields_demand_bind, yields_pure]
  exact ⟨s₁, hinsert, request.row draw, hfound, t, henqueue, rfl, rfl⟩

/-- The job of a request under a new id is enqueued with its context. -/
theorem enqueueJob_inserted {s v t : Database} {request : RecomputeRequestCreate}
    {draw : EnqueueDraw} {u : Unit} (hid : ∀ r ∈ s.1.requests, r.id ≠ draw.requestId)
    (hv : v.1 = { s.1 with requests := s.1.requests ++ [request.row draw] })
    (h : Yields (enqueueJob request (request.row draw) draw) v u t) :
    t.1 = s.1.enqueued request draw := by
  unfold enqueueJob at h
  cases hcontext : request.context with
  | none =>
    rw [hcontext] at h
    obtain ⟨-, rfl⟩ := yields_pure.mp h
    simp [hv, Db.enqueued, hcontext]
  | some context =>
    rw [hcontext] at h
    dsimp only at h
    rw [if_pos (by simp [RecomputeRequestCreate.row, hcontext])] at h
    obtain ⟨w, hinsert, hjob⟩ := yields_seq.mp h
    have hcontexts : ¬v.1.contexts.any (·.requestId = (request.row draw).id) = true := by
      rw [hv, List.any_eq_true]
      rintro ⟨c, hc, htaken⟩
      obtain ⟨r, hr, hrid⟩ := s.2.requests.contextRequest c hc
      exact hid r hr (hrid.trans (of_decide_eq_true htaken))
    have hjobs : ∀ j ∈ v.1.jobs, j.recomputeRequestId ≠ some draw.requestId := by
      rw [hv]
      intro j hj hlink
      obtain ⟨r, hr, hrid⟩ := s.2.jobs.request j hj _ hlink
      exact hid r hr hrid
    unfold insertContext at hinsert
    rw [yields_query_bind, if_neg hcontexts] at hinsert
    have hw := yields_statement.mp hinsert
    unfold insertJob at hjob
    rw [yields_query_bind, yields_ite] at hjob
    rcases hjob with ⟨-, hjob⟩ | ⟨-, hjob⟩
    · simp only [yields_query_bind, yields_require] at hjob
      obtain ⟨hlinked, -⟩ := hjob
      obtain ⟨j, hj, hlink⟩ := Option.bind_eq_some_iff.mp hlinked
      have hmem := (lookup_some hj).1
      rw [← hw] at hmem
      exact absurd hlink (hjobs j hmem)
    · have ht := yields_statement.mp hjob
      rw [← ht, ← hw, hv]
      simp [Db.enqueued, hcontext, RecomputeRequestCreate.row, RecomputeRequestCreate.job]

/-- Enqueueing for a new trigger inserts the request with its context and its job. -/
theorem persistRecomputeRequest_inserted {s t : Database} {request : RecomputeRequestCreate}
    {draw : EnqueueDraw} {snapshot : RecomputeRequestSnapshot}
    (hnone : requestOf s.1 request = none)
    (h : Yields (persistRecomputeRequest request draw) s snapshot t) :
    (∀ r ∈ s.1.requests, r.id ≠ draw.requestId) ∧ t.1 = s.1.enqueued request draw ∧
      snapshot = ⟨draw.requestId, (request.row draw).state⟩ := by
  unfold persistRecomputeRequest at h
  simp only [yields_seq, yields_query_bind, yields_demand_bind, yields_pure] at h
  obtain ⟨v, hinsert, row, hfound, u, hjob, rfl, rfl⟩ := h
  unfold insertRequest at hinsert
  rw [yields_query_bind, yields_ite] at hinsert
  rcases hinsert with ⟨-, hinsert⟩ | ⟨hfree, hinsert⟩
  · obtain ⟨-, rfl⟩ := yields_pure.mp hinsert
    cases hnone.symm.trans hfound
  · have hv := (yields_statement.mp hinsert).symm
    simp only [List.any_eq_true, decide_eq_true_eq, not_exists, not_and, not_or] at hfree
    have hid : ∀ r ∈ s.1.requests, r.id ≠ draw.requestId := fun r hr ↦ (hfree r hr).1
    have hrow : row = request.row draw := by
      unfold requestOf at hnone hfound
      rw [hv, List.find?_append, hnone] at hfound
      simpa [RecomputeRequestCreate.row] using hfound.symm
    rw [hrow] at hjob ⊢
    exact ⟨hid, enqueueJob_inserted hid hv hjob, rfl⟩

end Jobtology.Store
