import Jobtology.Store.GoalErased
import Jobtology.Store.RecomputeProtocol

/-!
# Work in the hands of a worker

The recompute protocol together with the deletion of goals and of accounts. While the lease of a
work item stands, its request keeps running with the context it was claimed with, and the goal of
that context is still there.
-/

namespace Jobtology.Store

open Jobtology.Base Jobtology.Relational
open Jobtology.Relational.Transaction

/-! ### Leases from before to after -/

/-- A job that stays leased under its token: its request and its context stay as they are. -/
structure LeaseKept (s t : Db) (j : JobRow) : Prop where
  job : ∃ j₀ ∈ s.jobs, j₀.id = j.id ∧ j₀.recomputeRequestId = j.recomputeRequestId ∧
    j₀.kind = j.kind ∧ j₀.state = .leased ∧ j₀.leaseToken = j.leaseToken
  request : ∀ r ∈ t.requests, j.recomputeRequestId = some r.id → r ∈ s.requests
  context : ∀ c ∈ t.contexts, j.recomputeRequestId = some c.requestId → c ∈ s.contexts

/-- Every lease was there before, or it has a new token and its request runs. -/
def LeasesKept (tokens : List Uuid) (s t : Db) : Prop :=
  ∀ j ∈ t.jobs, j.kind = .recompute → j.state = .leased → LeaseKept s t j ∨
    ((∃ token ∈ tokens, j.leaseToken = some token) ∧
      ∀ r ∈ t.requests, j.recomputeRequestId = some r.id → r.state = .running)

section Kept

variable {tokens : List Uuid} {s t u : Db}

/-- Erasing rows keeps the leases that stay. -/
theorem LeasesKept.of_subset (hjobs : ∀ j ∈ t.jobs, j ∈ s.jobs)
    (hrequests : ∀ r ∈ t.requests, r ∈ s.requests) (hcontexts : ∀ c ∈ t.contexts, c ∈ s.contexts) :
    LeasesKept tokens s t :=
  fun j hj _ hstate ↦ .inl ⟨⟨j, hjobs j hj, rfl, rfl, rfl, hstate, rfl⟩,
    fun r hr _ ↦ hrequests r hr, fun c hc _ ↦ hcontexts c hc⟩

/-- Leases are kept where nothing changes. -/
theorem LeasesKept.refl (tokens : List Uuid) (s : Db) : LeasesKept tokens s s :=
  .of_subset (fun _ ↦ id) (fun _ ↦ id) fun _ ↦ id

/-- Leases that are kept twice are kept. -/
theorem LeasesKept.trans (hst : LeasesKept tokens s t) (htu : LeasesKept tokens t u) :
    LeasesKept tokens s u := by
  intro j hj hkind hstate
  rcases htu j hj hkind hstate with hkept | hnew
  · obtain ⟨j₁, hj₁, hid₁, hlink₁, hkind₁, hstate₁, htoken₁⟩ := hkept.job
    rcases hst j₁ hj₁ (hkind₁.trans hkind) hstate₁ with hkept₁ | ⟨⟨token, htoken, hsome⟩, hruns⟩
    · obtain ⟨j₀, hj₀, hid₀, hlink₀, hkind₀, hstate₀, htoken₀⟩ := hkept₁.job
      refine .inl ⟨⟨j₀, hj₀, hid₀.trans hid₁, hlink₀.trans hlink₁, hkind₀.trans hkind₁, hstate₀,
        htoken₀.trans htoken₁⟩, fun r hr hlink ↦ ?_, fun c hc hlink ↦ ?_⟩
      · exact hkept₁.request r (hkept.request r hr hlink) (hlink₁.trans hlink)
      · exact hkept₁.context c (hkept.context c hc hlink) (hlink₁.trans hlink)
    · refine .inr ⟨⟨token, htoken, htoken₁ ▸ hsome⟩, fun r hr hlink ↦ ?_⟩
      exact hruns r (hkept.request r hr hlink) (hlink₁.trans hlink)
  · exact .inr hnew

/-- Leases are kept but for more tokens. -/
theorem LeasesKept.mono {tokens' : List Uuid} (h : LeasesKept tokens s t)
    (hsub : ∀ k ∈ tokens, k ∈ tokens') : LeasesKept tokens' s t := by
  intro j hj hkind hstate
  refine (h j hj hkind hstate).imp_right fun ⟨⟨token, htoken, hsome⟩, hruns⟩ ↦ ?_
  exact ⟨⟨token, hsub token htoken, hsome⟩, hruns⟩

end Kept

/-! ### What a work item holds -/

/-- Every leased job has its request running. -/
def LeasedRuns (db : Db) : Prop :=
  ∀ j ∈ db.jobs, j.kind = .recompute → j.state = .leased → ∀ r ∈ db.requests,
    j.recomputeRequestId = some r.id → r.state = .running

/-- The requests are those of some user and version. -/
def Db.requestsMatch (db : Db) (item : RecomputeWorkItem) : Prop :=
  ∀ r ∈ db.requests, r.id = item.requestId →
    r.userId = item.userId ∧ r.profileVersion = item.profileVersion

/-- While a job is leased under the item's token, the request is the item's, and its context meets
a condition. -/
def Db.handedOut (db : Db) (item : RecomputeWorkItem) (P : RecomputeContext → Prop) : Prop :=
  ∀ j ∈ db.jobs, item.isJob j → j.state = .leased → j.leaseToken = some item.leaseToken →
    db.requestsMatch item ∧ ∀ c ∈ db.contexts, c.requestId = item.requestId → P c.payload

/-- The goals that contexts name belong to the users of their requests. -/
def ContextGoals (db : Db) : Prop :=
  ∀ c ∈ db.contexts, ∀ r ∈ db.requests, r.id = c.requestId → ∀ goalId ∈ c.payload.goalId,
    ∃ g ∈ db.goals, g.id = goalId ∧ g.userId = r.userId

section Kept

variable {tokens : List Uuid} {s t : Db}

/-- Leased requests stay running while leases are kept. -/
theorem LeasedRuns.kept (h : LeasedRuns s) (hkept : LeasesKept tokens s t) : LeasedRuns t := by
  intro j hj hkind hstate r hr hlink
  rcases hkept j hj hkind hstate with hkept | ⟨-, hruns⟩
  · obtain ⟨j₀, hj₀, -, hlink₀, hkind₀, hstate₀, -⟩ := hkept.job
    exact h j₀ hj₀ (hkind₀.trans hkind) hstate₀ r (hkept.request r hr hlink) (hlink₀.trans hlink)
  · exact hruns r hr hlink

/-- Work that is handed out stays so under other tokens. -/
theorem Db.handedOut.kept {item : RecomputeWorkItem} {P : RecomputeContext → Prop}
    (h : s.handedOut item P) (hkept : LeasesKept tokens s t) (htoken : item.leaseToken ∉ tokens) :
    t.handedOut item P := by
  intro j hj hjob hstate hleased
  rcases hkept j hj hjob.2.1 hstate with hkept | ⟨⟨token, hmem, hsome⟩, -⟩
  · obtain ⟨j₀, hj₀, hid₀, hlink₀, hkind₀, hstate₀, htoken₀⟩ := hkept.job
    obtain ⟨hmatch, hcontext⟩ := h j₀ hj₀
      ⟨hid₀.trans hjob.1, hkind₀.trans hjob.2.1, hlink₀.trans hjob.2.2⟩ hstate₀
      (htoken₀.trans hleased)
    refine ⟨fun r hr hid ↦ ?_, fun c hc hid ↦ ?_⟩
    · exact hmatch r (hkept.request r hr (hid ▸ hjob.2.2)) hid
    · exact hcontext c (hkept.context c hc (hid ▸ hjob.2.2)) hid
  · rw [hleased] at hsome
    exact absurd (Option.some.inj hsome ▸ hmem) htoken

/-- Requests and goals that keep their users keep the goals of contexts. -/
theorem ContextGoals.kept (h : ContextGoals s) (hcontexts : ∀ c ∈ t.contexts, c ∈ s.contexts)
    (hrequests : ∀ r ∈ t.requests, ∃ r₀ ∈ s.requests, r₀.id = r.id ∧ r₀.userId = r.userId)
    (hgoals : ∀ g ∈ s.goals, ∃ g' ∈ t.goals, g'.id = g.id ∧ g'.userId = g.userId) :
    ContextGoals t := by
  intro c hc r hr hid goalId hgoal
  obtain ⟨r₀, hr₀, hid₀, huser₀⟩ := hrequests r hr
  obtain ⟨g, hg, hgid, hguser⟩ := h c (hcontexts c hc) r₀ hr₀ (hid₀.trans hid) goalId hgoal
  obtain ⟨g', hg', hgid', hguser'⟩ := hgoals g hg
  exact ⟨g', hg', hgid'.trans hgid, hguser'.trans (hguser.trans huser₀)⟩

end Kept

/-! ### Steps of the protocol -/

section Steps

variable {s : Database}

/-- Requests keep their ids and users. -/
def SameRequests (s t : Db) : Prop :=
  ∀ r ∈ t.requests, ∃ r₀ ∈ s.requests, r₀.id = r.id ∧ r₀.userId = r.userId ∧
    r₀.profileVersion = r.profileVersion

/-- Requests that are the same twice are the same. -/
theorem SameRequests.trans {s t u : Db} (hst : SameRequests s t) (htu : SameRequests t u) :
    SameRequests s u := by
  intro r hr
  obtain ⟨r₁, hr₁, hid₁, huser₁, hversion₁⟩ := htu r hr
  obtain ⟨r₀, hr₀, hid₀, huser₀, hversion₀⟩ := hst r₁ hr₁
  exact ⟨r₀, hr₀, hid₀.trans hid₁, huser₀.trans huser₁, hversion₀.trans hversion₁⟩

/-- An update of what is not fixed keeps the requests the same. -/
theorem sameRequests_update {s t : Db} {q : RequestRow → Prop} [DecidablePred q]
    {g : RequestRow → RequestRow} (h : t.requests = update q g s.requests)
    (hkeeps : ∀ r, (g r).id = r.id ∧ (g r).userId = r.userId ∧
      (g r).profileVersion = r.profileVersion) : SameRequests s t := by
  intro r hr
  rw [h] at hr
  rcases mem_update.mp hr with ⟨hr, -⟩ | ⟨r₀, hr₀, -, rfl⟩
  · exact ⟨r, hr, rfl, rfl, rfl⟩
  · obtain ⟨hid, huser, hversion⟩ := hkeeps r₀
    exact ⟨r₀, hr₀, hid.symm, huser.symm, hversion.symm⟩

/-- Settling requests together with their jobs. -/
theorem leasesKept_settle {t : Db} {p : JobRow → Prop} [DecidablePred p] {q : RequestRow → Prop}
    [DecidablePred q] {g : RequestRow → RequestRow}
    (hjobs : t.jobs = update p (·.complete) s.1.jobs)
    (hrequests : t.requests = update q g s.1.requests) (hcontexts : t.contexts = s.1.contexts)
    (hkeeps : ∀ r, (g r).id = r.id)
    (hpair : ∀ r ∈ s.1.requests, ∀ j ∈ s.1.jobs, j.recomputeRequestId = some r.id →
      (p j ↔ q r)) : LeasesKept [] s.1 t := by
  intro j hj hkind hstate
  rw [hjobs] at hj
  rcases mem_update.mp hj with ⟨hj, hp⟩ | ⟨j₀, -, -, rfl⟩
  · refine .inl ⟨⟨j, hj, rfl, rfl, rfl, hstate, rfl⟩, fun r hr hlink ↦ ?_, fun c hc _ ↦ ?_⟩
    · rw [hrequests] at hr
      rcases mem_update.mp hr with ⟨hr, -⟩ | ⟨r₀, hr₀, hq, rfl⟩
      · exact hr
      · rw [hkeeps] at hlink
        exact absurd ((hpair r₀ hr₀ j hj hlink).mpr hq) hp
    · exact hcontexts ▸ hc
  · cases hstate

private theorem leasesKept_deferred (jobId : Uuid) (availableAt : Int) :
    LeasesKept [] s.1 (s.1.deferred jobId availableAt) := by
  intro j hj hkind hstate
  rcases mem_update.mp hj with ⟨hj, -⟩ | ⟨j₀, -, -, rfl⟩
  · exact .inl ⟨⟨j, hj, rfl, rfl, rfl, hstate, rfl⟩, fun _ hr _ ↦ hr, fun _ hc _ ↦ hc⟩
  · cases hstate

private theorem leasesKept_leased {w : JobRow × RequestRow} {token : Uuid} {now : Int}
    (hjob : ∃ j ∈ s.1.jobs, isClaimedJob w j)
    (hrequest : ∃ r ∈ s.1.requests, isClaimedRequest w r) (rateLimits : List RateLimitRow) :
    LeasesKept [token] s.1 ({ s.1 with rateLimits := rateLimits }.leased w token now) := by
  obtain ⟨j₀, hj₀, hclaimed⟩ := hjob
  obtain ⟨r₀, hr₀, hrunnable⟩ := hrequest
  intro j hj hkind hstate
  rcases mem_update.mp hj with ⟨hj, hfree⟩ | ⟨j₁, hj₁, hisClaimed, rfl⟩
  · refine .inl ⟨⟨j, hj, rfl, rfl, rfl, hstate, rfl⟩, fun r hr hlink ↦ ?_, fun _ hc _ ↦ hc⟩
    rcases mem_update.mp hr with ⟨hr, -⟩ | ⟨r₁, hr₁, hisRunnable, rfl⟩
    · exact hr
    · -- the claimed job is the only one of the claimed request
      have hsame := job_unique s hj hj₀ (hlink.trans (congrArg some hisRunnable.1)) hclaimed.2.1
      exact absurd (hsame ▸ hclaimed) hfree
  · refine .inr ⟨⟨token, List.mem_singleton_self token, rfl⟩, fun r hr hlink ↦ ?_⟩
    rcases mem_update.mp hr with ⟨hr, hfree⟩ | ⟨r₁, -, -, rfl⟩
    · have hid : r.id = w.2.id := Option.some.inj (hlink.symm.trans hisClaimed.2.1)
      have hsame := s.2.requests.key.eq_of_mem hr hr₀ (hid.trans hrunnable.1.symm)
      exact absurd (hsame ▸ hrunnable) hfree
    · rfl

/-- Jobs of other kinds have no part in it. -/
theorem OtherJobs.claimed {s t : Db} (h : OtherJobs s t) (hgoals : ContextGoals s) :
    ContextGoals t ∧ LeasesKept [] s t := by
  rw [h.1]
  refine ⟨hgoals, fun j hj hkind hstate ↦ .inl ⟨⟨j, h.2 j hj hkind, rfl, rfl, rfl, hstate, rfl⟩,
    fun _ hr _ ↦ hr, fun _ hc _ ↦ hc⟩⟩

/-- A new request comes with a job that is not leased. -/
theorem NewRequest.leasesKept {row : RequestRow} {contexts : List ContextRow} {jobs : List JobRow}
    {t : Db} (h : NewRequest row contexts jobs s.1 t) : LeasesKept [] s.1 t := by
  intro j hj hkind hstate
  rw [h.written] at hj
  rcases List.mem_append.mp hj with hj | hj
  · -- a job from before is linked to a request from before
    have hold : j.recomputeRequestId ≠ some row.id := by
      intro hlink
      obtain ⟨r, hr, hid⟩ := s.2.jobs.request j hj row.id hlink
      exact h.fresh r hr hid
    refine .inl ⟨⟨j, hj, rfl, rfl, rfl, hstate, rfl⟩, fun r hr hlink ↦ ?_, fun c hc hlink ↦ ?_⟩
    · rw [h.written] at hr
      rcases List.mem_append.mp hr with hr | hr
      · exact hr
      · exact absurd (List.mem_singleton.mp hr ▸ hlink) hold
    · rw [h.written] at hc
      rcases List.mem_append.mp hc with hc | hc
      · exact hc
      · exact absurd (hlink.trans (congrArg some (h.context hc))) hold
  · cases (h.job hj).2.2.1.symm.trans hstate

/-- What claiming keeps: no lease comes back, and what is handed out matches its request. -/
structure Claimed (tokens : List Uuid) (items : List RecomputeWorkItem) (s t : Db) : Prop where
  leases : LeasesKept tokens s t
  requests : SameRequests s t
  contexts : t.contexts = s.contexts
  goals : t.goals = s.goals
  items : ∀ item ∈ items, t.requestsMatch item

private theorem requestsMatch_same {s t : Db} {item : RecomputeWorkItem}
    (h : s.requestsMatch item) (hsame : SameRequests s t) : t.requestsMatch item := by
  intro r hr hid
  obtain ⟨r₀, hr₀, hid₀, huser₀, hversion₀⟩ := hsame r hr
  rw [← huser₀, ← hversion₀]
  exact h r₀ hr₀ (hid₀.trans hid)

private theorem ClaimEffect.claimed {w : JobRow × RequestRow} {token : Uuid} {now : Int}
    {item : Option RecomputeWorkItem} {t : Database}
    (h : ClaimEffect now token w s.1 item t.1) : Claimed [token] item.toList s.1 t.1 := by
  generalize t.1 = t' at h
  cases h with
  | deferred availableAt =>
    exact ⟨(leasesKept_deferred _ _).mono fun _ hk ↦ absurd hk List.not_mem_nil,
      fun r hr ↦ ⟨r, hr, rfl, rfl, rfl⟩, rfl, rfl, fun _ hitem ↦ absurd hitem List.not_mem_nil⟩
  | leased rateLimits hfree hjob hrequest =>
    refine ⟨leasesKept_leased hjob hrequest rateLimits,
      sameRequests_update rfl fun _ ↦ ⟨rfl, rfl, rfl⟩, rfl, rfl, fun item hitem ↦ ?_⟩
    obtain rfl := List.mem_singleton.mp hitem
    obtain ⟨r₀, hr₀, hid, huser, hversion, -⟩ := hrequest
    have hmatch : s.1.requestsMatch (workItem w token) := by
      intro r hr hrid
      obtain rfl := s.2.requests.key.eq_of_mem hr hr₀ (hrid.trans hid.symm)
      exact ⟨huser, hversion⟩
    exact requestsMatch_same hmatch
      (sameRequests_update (s := s.1) (q := isClaimedRequest w) rfl fun _ ↦ ⟨rfl, rfl, rfl⟩)

/-- Work that is claimed in two rounds. -/
theorem Claimed.trans {tokens : List Uuid} {items items' : List RecomputeWorkItem} {s t u : Db}
    (hst : Claimed tokens items s t) (htu : Claimed tokens items' t u) :
    Claimed tokens (items ++ items') s u where
  leases := hst.leases.trans htu.leases
  requests := hst.requests.trans htu.requests
  contexts := htu.contexts.trans hst.contexts
  goals := htu.goals.trans hst.goals
  items item hitem := by
    rcases List.mem_append.mp hitem with hitem | hitem
    · exact requestsMatch_same (hst.items item hitem) htu.requests
    · exact htu.items item hitem

/-- Claiming work hands out items that match their requests. -/
theorem claimRecomputeWork_claimed {options : ClaimOptions} {token : Nat → Uuid} {now : Int}
    {items : List RecomputeWorkItem} {t : Database}
    (h : Yields (claimRecomputeWork options token now) s items t) :
    Claimed ((List.range options.limit).map token) items s.1 t.1 := by
  unfold claimRecomputeWork at h
  simp only [yields_seq, yields_query_bind] at h
  obtain ⟨u, hretire, hloop⟩ := h
  have hu := retireStale_spec hretire
  have hretired : Claimed ((List.range options.limit).map token) [] s.1 u.1 := by
    rw [hu]
    refine ⟨?_, sameRequests_update (s := s.1)
      (q := (·.id ∈ (s.1.staleWork options now).map (·.2.id))) (g := (·.fail "STALE_PROFILE"))
      rfl fun _ ↦ ⟨rfl, rfl, rfl⟩, rfl, rfl, fun _ hitem ↦ absurd hitem List.not_mem_nil⟩
    have hkept : LeasesKept [] s.1 (s.1.retire (s.1.staleWork options now)) :=
      leasesKept_settle (q := (·.id ∈ (s.1.staleWork options now).map (·.2.id)))
        (g := (·.fail "STALE_PROFILE")) rfl rfl rfl (fun _ ↦ rfl)
        (stale_pair fun _ hw ↦ mem_staleWork hw)
    exact hkept.mono fun _ hk ↦ absurd hk List.not_mem_nil
  refine claimLoop_induction (P := fun v items ↦
    Claimed ((List.range options.limit).map token) items s.1 v.1) ?_ hretired hloop
  intro w hw v v' items item hclaimed heffect
  refine hclaimed.trans ?_
  have hstep := heffect.claimed
  refine ⟨hstep.leases.mono fun k hk ↦ ?_, hstep.requests, hstep.contexts, hstep.goals, hstep.items⟩
  obtain rfl := List.mem_singleton.mp hk
  refine List.mem_map_of_mem (List.mem_range.mpr ?_)
  have hlt := List.snd_lt_of_mem_zipIdx hw
  unfold Db.currentWork at hlt
  rw [List.length_take] at hlt
  omega

/-- Rows that are erased together leave the laws. -/
theorem WorkLaws.erase {s t : Db} {now : Int} (h : WorkLaws s now)
    (hrequests : ∀ r ∈ t.requests, r ∈ s.requests) (hcontexts : ∀ c ∈ t.contexts, c ∈ s.contexts)
    (hjobs : ∀ j ∈ t.jobs, j ∈ s.jobs)
    (hcontext : ∀ r ∈ t.requests, ∀ c ∈ s.contexts, c.requestId = r.id → c ∈ t.contexts)
    (hjob : ∀ r ∈ t.requests, ∀ j ∈ s.jobs, j.recomputeRequestId = some r.id → j ∈ t.jobs)
    (hversion : ∀ r ∈ t.requests, ∀ version, s.profileVersion r.userId = some version →
      ∃ later, t.profileVersion r.userId = some later ∧ version ≤ later) : WorkLaws t now where
  tracked := {
    withoutContext := fun r hr hnone ↦ by
      obtain ⟨hfailed, hfree⟩ := h.tracked.withoutContext r (hrequests r hr)
        fun ⟨c, hc, hid⟩ ↦ hnone ⟨c, hcontext r hr c hc hid, hid⟩
      exact ⟨hfailed, fun j hj ↦ hfree j (hjobs j hj)⟩
    job := fun r hr ⟨c, hc, hid⟩ ↦ by
      obtain ⟨j, hj, hlink⟩ := h.tracked.job r (hrequests r hr) ⟨c, hcontexts c hc, hid⟩
      exact ⟨j, hjob r hr j hj hlink, hlink⟩
    inStep := fun r hr j hj ↦ h.tracked.inStep r (hrequests r hr) j (hjobs j hj)
    results := fun r hr ↦ h.tracked.results r (hrequests r hr)
    version := fun r hr ↦ by
      obtain ⟨version, hprofile, hle⟩ := h.tracked.version r (hrequests r hr)
      obtain ⟨later, hlater, hle'⟩ := hversion r hr version hprofile
      exact ⟨later, hlater, hle.trans hle'⟩ }
  exclusive := fun r hr r' hr' hruns hruns' huser ↦ by
    refine h.exclusive r (hrequests r hr) r' (hrequests r' hr') ?_ ?_ huser
    · obtain ⟨hstate, j, hj, hrest⟩ := hruns
      exact ⟨hstate, j, hjobs j hj, hrest⟩
    · obtain ⟨hstate, j, hj, hrest⟩ := hruns'
      exact ⟨hstate, j, hjobs j hj, hrest⟩

end Steps

/-! ### The system -/

/-- What happens next: a step of the recompute protocol, or a deletion. -/
inductive StoreAction
  | work (action : RecomputeAction)
  | deleteGoal (request : GoalDelete) (eventId : Uuid) (draw : EnqueueDraw)
  | deleteAccount (userId : Uuid)

namespace RecomputeSystem

variable {carryForward : CarryForward} {s : RecomputeSystem}

/-- Requests are enqueued for a goal of their user, and other transactions keep the goals. -/
def Admits (s : RecomputeSystem) : RecomputeAction → Prop
  | .enqueue request _ => ∀ context ∈ request.context, ∀ goalId ∈ context.goalId,
      ∃ g ∈ s.db.1.goals, g.id = goalId ∧ g.userId = request.userId
  | .outside db => ∀ g ∈ s.db.1.goals, ∃ g' ∈ db.1.goals, g'.id = g.id ∧ g'.userId = g.userId
  | _ => True

instance (s : RecomputeSystem) : DecidablePred s.Admits
  | .enqueue _ _ => inferInstanceAs (Decidable (∀ context ∈ _, _))
  | .outside _ => inferInstanceAs (Decidable (∀ g ∈ _, _))
  | .claim _ _ | .claimOthers _ _ _ _ | .completeOther _ _ | .finalize _ _ _ | .fail _ _ _
  | .bump _ _ | .wait _ => inferInstanceAs (Decidable True)

/-- One action. -/
def act (carryForward : CarryForward) (s : RecomputeSystem) : StoreAction → RecomputeSystem
  | .work action => if s.Admits action then s.apply action else s
  | .deleteGoal request eventId draw => { s with
    db := (Store.deleteGoal carryForward request eventId draw).commit s.db }
  | .deleteAccount userId => { s with db := (Store.deleteAccount userId).commit s.db }

/-- Work is finalized at the time of the system. -/
theorem act_finalize (item : RecomputeWorkItem) (artifacts : RecomputeArtifacts) (clock : Int) :
    s.act carryForward (.work (.finalize item artifacts clock)) =
      { s with db := (finalizeRecompute item artifacts clock s.now).commit s.db } := by
  have hadmits : s.Admits (.finalize item artifacts clock) := trivial
  simp only [act]
  rw [if_pos hadmits]
  rfl

/-- Work fails at the time of the system. -/
theorem act_fail (item : RecomputeWorkItem) (errorCode : String) (clock : Int) :
    s.act carryForward (.work (.fail item errorCode clock)) =
      { s with db := (failRecompute item errorCode clock s.now).commit s.db } := by
  have hadmits : s.Admits (.fail item errorCode clock) := trivial
  simp only [act]
  rw [if_pos hadmits]
  rfl

/-- What holds in every state. -/
structure ClaimedLaws (s : RecomputeSystem) : Prop where
  laws : WorkLaws s.db.1 s.now
  runs : LeasedRuns s.db.1
  goals : ContextGoals s.db.1
  handed : ∀ item ∈ s.leases, s.db.1.handedOut item fun _ ↦ True

/-- What every action does to the work that was handed out. -/
structure ActStep (s t : RecomputeSystem) : Prop where
  laws : WorkLaws t.db.1 t.now
  goals : ContextGoals t.db.1
  leases : ∃ tokens, (∀ item ∈ s.leases, item.leaseToken ∉ tokens) ∧
    LeasesKept tokens s.db.1 t.db.1
  handed : ∀ item ∈ t.leases, item ∈ s.leases ∨ t.db.1.requestsMatch item
  kept : ∀ item ∈ s.leases, item ∈ t.leases

/-- A step keeps the laws of claimed work. -/
theorem ActStep.claimedLaws {t : RecomputeSystem} (h : ClaimedLaws s) (hstep : ActStep s t) :
    ClaimedLaws t := by
  obtain ⟨tokens, hfresh, hkept⟩ := hstep.leases
  refine ⟨hstep.laws, h.runs.kept hkept, hstep.goals, fun item hitem ↦ ?_⟩
  rcases hstep.handed item hitem with hold | hnew
  · exact (h.handed item hold).kept hkept (hfresh item hold)
  · exact fun _ _ _ _ _ ↦ ⟨hnew, fun _ _ _ ↦ trivial⟩

/-- A transaction that hands out nothing. -/
theorem commit_act {α : Type} {x : Txn α} (h : ClaimedLaws s)
    (hkeeps : ∀ {a t}, Yields x s.db a t → WorkLaws t.1 s.now ∧ ContextGoals t.1 ∧
      LeasesKept [] s.db.1 t.1) : ActStep s { s with db := x.commit s.db } := by
  have hlaws : WorkLaws (x.commit s.db).1 s.now ∧ ContextGoals (x.commit s.db).1 ∧
      LeasesKept [] s.db.1 (x.commit s.db).1 := by
    rcases commit_cases x s.db with heq | ⟨a, hyields⟩
    · rw [heq]
      exact ⟨h.laws, h.goals, .refl _ _⟩
    · exact hkeeps hyields
  exact ⟨hlaws.1, hlaws.2.1, ⟨[], fun _ _ ↦ List.not_mem_nil, hlaws.2.2⟩, fun _ ↦ .inl,
    fun _ ↦ id⟩

/-! ### Steps of the protocol -/

/-- Enqueueing for a goal of the user. -/
theorem enqueue_claimed {s t : Database} {now : Int} {request : RecomputeRequestCreate}
    {draw : EnqueueDraw} {snapshot : RecomputeRequestSnapshot} (hlaws : WorkLaws s.1 now)
    (hgoals : ContextGoals s.1)
    (howned : ∀ context ∈ request.context, ∀ goalId ∈ context.goalId,
      ∃ g ∈ s.1.goals, g.id = goalId ∧ g.userId = request.userId)
    (h : Yields (persistRecomputeRequest request draw) s snapshot t) :
    ContextGoals t.1 ∧ LeasesKept [] s.1 t.1 := by
  rcases persistRecomputeRequest_new hlaws.tracked h with
    rfl | ⟨row, contexts, jobs, hnew, huser, -, hcontexts⟩
  · exact ⟨hgoals, .refl _ _⟩
  · refine ⟨?_, hnew.leasesKept⟩
    intro c hc r hr hid goalId hgoal
    rw [hnew.written] at hc hr ⊢
    rcases List.mem_append.mp hc with hc | hcnew
    · -- a context from before is of a request from before
      obtain ⟨r₀, hr₀, hrid⟩ := s.2.requests.contextRequest c hc
      rcases List.mem_append.mp hr with hr | hr
      · exact hgoals c hc r hr hid goalId hgoal
      · obtain rfl := List.mem_singleton.mp hr
        exact absurd (hrid.trans hid.symm) (hnew.fresh r₀ hr₀)
    · rcases List.mem_append.mp hr with hr | hr
      · exact absurd (hid.trans (hnew.context hcnew)) (hnew.fresh r hr)
      · obtain rfl := List.mem_singleton.mp hr
        rw [huser]
        exact howned c.payload (hcontexts c hcnew) goalId hgoal

/-- Settling keeps the goals of contexts. -/
theorem contextGoals_settled {s t : Db} {q : RequestRow → Prop} [DecidablePred q]
    {g : RequestRow → RequestRow} (h : ContextGoals s)
    (hrequests : t.requests = update q g s.requests)
    (hkeeps : ∀ r, (g r).id = r.id ∧ (g r).userId = r.userId ∧
      (g r).profileVersion = r.profileVersion)
    (hcontexts : t.contexts = s.contexts) (hgoals : t.goals = s.goals) : ContextGoals t := by
  refine h.kept (fun c hc ↦ hcontexts ▸ hc) (fun r hr ↦ ?_) fun a ha ↦ ⟨a, hgoals ▸ ha, rfl, rfl⟩
  obtain ⟨r₀, hr₀, hid, huser, -⟩ := sameRequests_update hrequests hkeeps r hr
  exact ⟨r₀, hr₀, hid, huser⟩

private theorem finalized_claimed {s : Database} {item : RecomputeWorkItem}
    {artifacts : RecomputeArtifacts} {clock : Int} {t : Db} (hgoals : ContextGoals s.1)
    (h : Finalized item artifacts clock s.1 t) : ContextGoals t ∧ LeasesKept [] s.1 t := by
  have hpair := settled_pair h.running h.leased
  rw [h.written]
  exact ⟨contextGoals_settled hgoals rfl (fun _ ↦ ⟨rfl, rfl, rfl⟩) rfl rfl,
    leasesKept_settle rfl rfl rfl (fun _ ↦ rfl) hpair⟩

private theorem failed_claimed {s : Database} {item : RecomputeWorkItem} {errorCode : String}
    {clock : Int} {t : Db} (hgoals : ContextGoals s.1) (h : FailedWork item errorCode clock s.1 t) :
    ContextGoals t ∧ LeasesKept [] s.1 t := by
  have hpair := settled_pair h.running h.leased
  rw [h.written]
  exact ⟨contextGoals_settled hgoals rfl (fun _ ↦ ⟨rfl, rfl, rfl⟩) rfl rfl,
    leasesKept_settle rfl rfl rfl (fun _ ↦ rfl) hpair⟩

/-! ### Deletions -/

private theorem withoutAccount_claimed {s : Database} {now : Int} (h : WorkLaws s.1 now)
    (hgoals : ContextGoals s.1) (userId : Uuid) :
    WorkLaws (s.1.withoutAccount userId) now ∧ ContextGoals (s.1.withoutAccount userId) ∧
      LeasesKept [] s.1 (s.1.withoutAccount userId) := by
  have howns : ∀ r ∈ (s.1.withoutAccount userId).requests, ¬ s.1.ownsRequest userId r.id := by
    rintro r hr ⟨r', hr', huser, hid⟩
    obtain ⟨hr, hother⟩ := List.mem_filter.mp hr
    obtain rfl := s.2.requests.key.eq_of_mem hr' hr hid
    exact of_decide_eq_true hother huser
  refine ⟨h.erase (fun r ↦ List.mem_of_mem_filter) (fun c ↦ List.mem_of_mem_filter)
    (fun j ↦ List.mem_of_mem_filter) ?_ ?_ ?_, ?_,
    .of_subset (fun j ↦ List.mem_of_mem_filter) (fun r ↦ List.mem_of_mem_filter)
      fun c ↦ List.mem_of_mem_filter⟩
  · intro r hr c hc hid
    exact List.mem_filter.mpr ⟨hc, decide_eq_true (hid ▸ howns r hr)⟩
  · intro r hr j hj hlink
    refine List.mem_filter.mpr ⟨hj, decide_eq_true ?_⟩
    rintro ⟨id, hid, hmine⟩
    obtain rfl : r.id = id := Option.some.inj (hlink.symm.trans hid)
    exact howns r hr hmine
  · intro r hr version hversion
    obtain ⟨-, hother⟩ := List.mem_filter.mp hr
    refine ⟨version, ?_, le_rfl⟩
    rw [← hversion]
    unfold Db.profileVersion
    have hunique : Unique (fun p : ProfileRow ↦ p.userId) (s.1.withoutAccount userId).profiles :=
      (List.filter_sublist.map _).nodup s.2.accounts.profilesKey
    rw [lookup_congr hunique s.2.accounts.profilesKey fun p hp ↦ ?_]
    refine ⟨List.mem_of_mem_filter, fun hmem ↦ List.mem_filter.mpr ⟨hmem, decide_eq_true ?_⟩⟩
    rw [hp]
    exact of_decide_eq_true hother
  · intro c hc r hr hid goalId hgoal
    obtain ⟨hr, hother⟩ := List.mem_filter.mp hr
    obtain ⟨g, hg, hgid, hguser⟩ := hgoals c (List.mem_of_mem_filter hc) r hr hid goalId hgoal
    refine ⟨g, List.mem_filter.mpr ⟨hg, ?_⟩, hgid, hguser⟩
    rw [hguser]
    exact hother

private theorem withoutGoal_claimed {s : Database} {now : Int} {request : GoalDelete}
    {eventId : Uuid}
    (h : WorkLaws s.1 now) (hgoals : ContextGoals s.1)
    (howned : ∃ g ∈ s.1.goals, g.id = request.goalId ∧ g.userId = request.userId)
    (hversion : s.1.profileVersion request.userId = some request.expectedProfileVersion) :
    WorkLaws (s.1.withoutGoal request eventId) now ∧
      ContextGoals (s.1.withoutGoal request eventId) ∧
      LeasesKept [] s.1 (s.1.withoutGoal request eventId) := by
  obtain ⟨goal, hgoalMem, hgoalId, hgoalUser⟩ := howned
  have hkeep : ∀ r ∈ (s.1.withoutGoal request eventId).requests, r ∈ s.1.requests ∧
      r.id ∉ (goalRecords s.1 request.userId request.goalId).requestIds := by
    intro r hr
    obtain ⟨hr, hkeep⟩ := List.mem_filter.mp hr
    exact ⟨hr, of_decide_eq_true hkeep⟩
  refine ⟨h.erase (fun r hr ↦ (hkeep r hr).1) (fun c ↦ List.mem_of_mem_filter)
    (fun j ↦ List.mem_of_mem_filter) ?_ ?_ ?_, ?_,
    .of_subset (fun j ↦ List.mem_of_mem_filter) (fun r hr ↦ (hkeep r hr).1)
      fun c ↦ List.mem_of_mem_filter⟩
  · intro r hr c hc hid
    exact List.mem_filter.mpr ⟨hc, decide_eq_true (hid ▸ (hkeep r hr).2)⟩
  · intro r hr j hj hlink
    refine List.mem_filter.mpr ⟨hj, decide_eq_true ?_⟩
    rintro (⟨id, hid, hmem⟩ | ⟨hnone, -⟩)
    · obtain rfl : r.id = id := Option.some.inj (hlink.symm.trans hid)
      exact (hkeep r hr).2 hmem
    · cases hnone.symm.trans hlink
  · intro r hr version hprofile
    rw [profileVersion_update (t := s.1.withoutGoal request eventId)
      (p := (·.userId = request.userId)) rfl fun _ ↦ rfl]
    unfold Db.profileVersion at hprofile hversion
    obtain ⟨p, hp, rfl⟩ := Option.map_eq_some_iff.mp hprofile
    rw [hp]
    refine ⟨_, rfl, ?_⟩
    dsimp only
    split
    · next huser =>
      rw [← huser, (lookup_some hp).2, hp] at hversion
      have hexpected : p.version = request.expectedProfileVersion := Option.some.inj hversion
      show p.version ≤ request.expectedProfileVersion + 1
      omega
    · exact le_rfl
  · intro c hc r hr hid goalId hnamed
    have hcs := List.mem_of_mem_filter hc
    obtain ⟨hr, hkept⟩ := hkeep r hr
    obtain ⟨g, hg, hgid, hguser⟩ := hgoals c hcs r hr hid goalId hnamed
    refine ⟨g, List.mem_filter.mpr ⟨hg, decide_eq_true fun hdeleted ↦ hkept ?_⟩, hgid, hguser⟩
    -- the request of a context that names the deleted goal is deleted with it
    obtain rfl := s.2.goals.key.eq_of_mem hg hgoalMem (hdeleted.trans hgoalId.symm)
    refine List.mem_map.mpr ⟨r, List.mem_filter.mpr ⟨hr, decide_eq_true ?_⟩, rfl⟩
    refine ⟨hguser.symm.trans hgoalUser, .inr (.inr (.inl ⟨c, hcs, hid.symm, ?_⟩))⟩
    rw [← hgoalId, hgid]
    exact hnamed

/-- The follow-up of a deletion enqueues for a goal of the user, if anything. -/
theorem enqueueAfterDeletion_claimed (hcarries : CarriesGoal carryForward) {u t : Database}
    {now : Int} {userId : Uuid} {version : Nat} {eventId : Uuid} {draw : EnqueueDraw} {x : Unit}
    (hlaws : WorkLaws u.1 now) (hgoals : ContextGoals u.1)
    (hversion : u.1.profileVersion userId = some version)
    (h : Yields (enqueueAfterDeletion carryForward userId version eventId draw) u x t) :
    WorkLaws t.1 now ∧ ContextGoals t.1 ∧ LeasesKept [] u.1 t.1 := by
  have hpersist : ∀ (request : RecomputeRequestCreate) snapshot,
      request.userId = userId → request.profileVersion = version →
      (∀ context ∈ request.context, ∀ goalId ∈ context.goalId,
        ∃ g ∈ u.1.goals, g.id = goalId ∧ g.userId = userId) →
      Yields (persistRecomputeRequest request draw) u snapshot t →
      WorkLaws t.1 now ∧ ContextGoals t.1 ∧ LeasesKept [] u.1 t.1 := by
    rintro request snapshot rfl rfl howned hyields
    exact ⟨(persistRecomputeRequest_laws hlaws ⟨_, hversion, le_rfl⟩ hyields).1,
      enqueue_claimed hlaws hgoals howned hyields⟩
  unfold enqueueAfterDeletion at h
  rw [yields_query_bind] at h
  cases hactive : u.1.goals.find? fun g ↦ g.userId = userId ∧ g.status = .active with
  | none =>
    rw [hactive] at h
    obtain ⟨-, rfl⟩ := yields_pure.mp h
    exact ⟨hlaws, hgoals, .refl _ _⟩
  | some goal =>
    have hactiveGoal := List.find?_some hactive
    rw [decide_eq_true_eq] at hactiveGoal
    rw [hactive] at h
    dsimp only at h
    unfold enqueueForGoal at h
    rw [yields_query_bind] at h
    cases hcontext : configuredContext carryForward u.1 userId version goal.id with
    | none =>
      rw [hcontext] at h
      obtain ⟨snapshot, v, hyields, hpure⟩ := yields_bind.mp h
      obtain ⟨-, rfl⟩ := yields_pure.mp hpure
      exact hpersist _ _ rfl rfl (fun _ hnone ↦ absurd hnone (Option.not_mem_none _)) hyields
    | some context =>
      rw [hcontext] at h
      obtain ⟨snapshot, v, hyields, hpure⟩ := yields_bind.mp h
      obtain ⟨-, rfl⟩ := yields_pure.mp hpure
      refine hpersist _ _ rfl rfl (fun c hc goalId hgoalId ↦ ?_) hyields
      obtain rfl := Option.some.inj hc
      rw [configuredContext_goal hcarries hcontext] at hgoalId
      exact ⟨goal, List.mem_of_find?_eq_some hactive, Option.some.inj hgoalId, hactiveGoal.1⟩

/-! ### Runs -/

/-- Every action is a step. -/
theorem act_step (hcarries : CarriesGoal carryForward) (h : ClaimedLaws s) (action : StoreAction) :
    ActStep s (s.act carryForward action) := by
  have hrefl : ActStep s s := ⟨h.laws, h.goals, ⟨[], fun _ _ ↦ List.not_mem_nil, .refl _ _⟩,
    fun _ ↦ .inl, fun _ ↦ id⟩
  cases action with
  | work action =>
    simp only [act]
    split
    case isFalse => exact hrefl
    next hadmits =>
      have hlaws := (apply_step h.laws action).laws
      cases action with
      | enqueue request draw =>
        simp only [apply] at hlaws ⊢
        split
        · next hreached =>
          refine commit_act h fun hyields ↦ ⟨?_, enqueue_claimed h.laws h.goals hadmits hyields⟩
          exact (persistRecomputeRequest_laws h.laws hreached hyields).1
        · exact hrefl
      | claim options token =>
        simp only [apply] at hlaws ⊢
        split
        case isFalse => exact hrefl
        next hfresh =>
          rw [if_pos hfresh] at hlaws
          unfold claimed at hlaws ⊢
          split
          · next items db hrun =>
            rw [hrun] at hlaws
            have hclaimed := claimRecomputeWork_claimed hrun
            refine ⟨hlaws, ?_, ⟨_, hfresh, hclaimed.leases⟩, fun item hitem ↦ ?_,
              fun item hitem ↦ List.mem_append_right _ hitem⟩
            · refine h.goals.kept (fun c hc ↦ hclaimed.contexts ▸ hc) (fun r hr ↦ ?_)
                fun g hg ↦ ⟨g, hclaimed.goals ▸ hg, rfl, rfl⟩
              obtain ⟨r₀, hr₀, hid, huser, -⟩ := hclaimed.requests r hr
              exact ⟨r₀, hr₀, hid, huser⟩
            · exact (List.mem_append.mp hitem).symm.imp_right (hclaimed.items item)
          · exact hrefl
      | claimOthers limit leaseFor locked token =>
        refine commit_act h fun hyields ↦ ?_
        obtain ⟨hlaws, -, hothers⟩ := claimOutboxJobs_laws h.laws hyields
        exact ⟨hlaws, hothers.claimed h.goals⟩
      | completeOther jobId leaseToken =>
        refine commit_act h fun hyields ↦ ?_
        obtain ⟨hlaws, -, hothers⟩ := completeOutboxJob_laws h.laws hyields
        exact ⟨hlaws, hothers.claimed h.goals⟩
      | finalize item artifacts clock =>
        refine commit_act h fun hyields ↦ ?_
        have hfinal := finalizeRecompute_spec hyields
        exact ⟨(h.laws.finalized hfinal).1, finalized_claimed h.goals hfinal⟩
      | fail item errorCode clock =>
        refine commit_act h fun hyields ↦ ?_
        rcases failRecompute_spec hyields with rfl | hfailed
        · exact ⟨h.laws, h.goals, .refl _ _⟩
        · exact ⟨(h.laws.failed hfailed).1, failed_claimed h.goals hfailed⟩
      | bump userId expectedVersion =>
        refine commit_act h fun hyields ↦ ?_
        refine ⟨(workLaws_kept h.laws (workKept_bump hyields)).1, ?_⟩
        rw [(bumpProfile_spec hyields).2]
        exact ⟨h.goals, .of_subset (fun _ ↦ id) (fun _ ↦ id) fun _ ↦ id⟩
      | wait now =>
        exact ⟨hlaws, h.goals, ⟨[], fun _ _ ↦ List.not_mem_nil, .refl _ _⟩, fun _ ↦ .inl,
          fun _ ↦ id⟩
      | outside db =>
        simp only [apply] at hlaws ⊢
        split
        case isFalse => exact hrefl
        next hkept =>
          rw [if_pos hkept] at hlaws
          obtain ⟨hrequests, hcontexts, hjobs, -⟩ := hkept
          refine ⟨hlaws, h.goals.kept (fun c hc ↦ hcontexts ▸ hc)
            (fun r hr ↦ ⟨r, hrequests ▸ hr, rfl, rfl⟩) hadmits,
            ⟨[], fun _ _ ↦ List.not_mem_nil, .of_subset (fun j hj ↦ hjobs ▸ hj)
              (fun r hr ↦ hrequests ▸ hr) fun c hc ↦ hcontexts ▸ hc⟩, fun _ ↦ .inl, fun _ ↦ id⟩
  | deleteGoal request eventId draw =>
    refine commit_act h fun hyields ↦ ?_
    have hdeleted := deleteGoal_spec hyields
    obtain ⟨u, hu, hqueue⟩ := hdeleted.written
    have hwithout := @withoutGoal_claimed _ _ _ eventId h.laws h.goals hdeleted.owned
      hdeleted.version
    rw [← hu] at hwithout
    have hversion : u.1.profileVersion request.userId =
        some (request.expectedProfileVersion + 1) := by
      rw [hu, profileVersion_update (t := s.db.1.withoutGoal request eventId)
        (p := (·.userId = request.userId)) rfl fun _ ↦ rfl]
      obtain ⟨p, hp, -⟩ := Option.map_eq_some_iff.mp hdeleted.version
      rw [hp, Option.map_some, if_pos (lookup_some hp).2]
      rfl
    obtain ⟨hlaws, hgoals, hkept⟩ := enqueueAfterDeletion_claimed hcarries hwithout.1
      hwithout.2.1 hversion hqueue
    exact ⟨hlaws, hgoals, hwithout.2.2.trans hkept⟩
  | deleteAccount userId =>
    refine commit_act h fun hyields ↦ ?_
    rcases deleteAccount_spec hyields with ⟨-, rfl⟩ | ht
    · exact ⟨h.laws, h.goals, .refl _ _⟩
    · rw [ht]
      exact withoutAccount_claimed h.laws h.goals userId

end RecomputeSystem

end Jobtology.Store
