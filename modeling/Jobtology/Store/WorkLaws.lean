import Jobtology.Store.Insertion
import Jobtology.Store.Worker

/-!
# Laws of recompute work

The invariant that ties the state of a request to that of its job and keeps one leased request
running for each user, and what every transaction on them keeps.
-/

namespace Jobtology.Store

open Jobtology.Base Jobtology.Relational
open Jobtology.Relational.Transaction

/-- The request has its result or its error. -/
def RequestState.Settled (state : RequestState) : Prop := state = .ready ∨ state = .failed

instance : DecidablePred RequestState.Settled := fun _ ↦ inferInstanceAs (Decidable (_ ∨ _))

/-- The job of a request in some state: completed once the request is settled, and before that
ready or leased for a time. -/
def InStep (state : RequestState) (j : JobRow) : Prop :=
  if state.Settled then j.state = .completed
  else j.state = .ready ∨ (j.state = .leased ∧ j.leaseUntil ≠ none)

/-- The request was stored with a context. -/
def Db.hasContext (db : Db) (r : RequestRow) : Prop := ∃ c ∈ db.contexts, c.requestId = r.id

/-- The invariant between requests and jobs. -/
structure Tracked (db : Db) : Prop where
  withoutContext : ∀ r ∈ db.requests, ¬ db.hasContext r →
    r.state = .failed ∧ ∀ j ∈ db.jobs, j.recomputeRequestId ≠ some r.id
  job : ∀ r ∈ db.requests, db.hasContext r → ∃ j ∈ db.jobs, j.recomputeRequestId = some r.id
  inStep : ∀ r ∈ db.requests, ∀ j ∈ db.jobs, j.recomputeRequestId = some r.id →
    j.kind = .recompute ∧ InStep r.state j
  results : ∀ r ∈ db.requests, r.resultingAnalysisId ≠ none ∨ r.proposalId ≠ none → r.state = .ready
  version : ∀ r ∈ db.requests,
    ∃ version, db.profileVersion r.userId = some version ∧ r.profileVersion ≤ version

/-- The request is running under a lease that has not expired. -/
def Db.runsUnder (db : Db) (now : Int) (r : RequestRow) : Prop :=
  r.state = .running ∧ ∃ j ∈ db.jobs, j.recomputeRequestId = some r.id ∧ j.state = .leased ∧
    ∃ until_ ∈ j.leaseUntil, now < until_

/-- Each user has at most one request running under a lease. -/
def Exclusive (db : Db) (now : Int) : Prop :=
  ∀ r ∈ db.requests, ∀ r' ∈ db.requests, db.runsUnder now r → db.runsUnder now r' →
    r.userId = r'.userId → r.id = r'.id

/-- A job of the item is leased under its token. -/
def Db.holdsLease (db : Db) (item : RecomputeWorkItem) (now : Int) : Prop :=
  ∃ j ∈ db.jobs, item.isJob j ∧ item.holds now j

/-! ### Changes of requests and jobs in place -/

/-- Requests and jobs changed in place: identities stay, settled requests stay as they are, and a
lease is kept or has a new token. -/
structure Moves (tokens : List Uuid) (f : JobRow → JobRow) (g : RequestRow → RequestRow)
    (s t : Db) : Prop where
  jobs : t.jobs = s.jobs.map f
  requests : t.requests = s.requests.map g
  contexts : t.contexts = s.contexts
  profiles : ∀ userId version, s.profileVersion userId = some version →
    t.profileVersion userId = some version
  keepsJob : ∀ j, (f j).id = j.id ∧ (f j).recomputeRequestId = j.recomputeRequestId ∧
    (f j).kind = j.kind
  keepsRequest : ∀ r, (g r).id = r.id ∧ (g r).userId = r.userId ∧
    (g r).profileVersion = r.profileVersion
  settled : ∀ r ∈ s.requests, r.state.Settled → g r = r
  leases : ∀ j ∈ s.jobs, j.kind = .recompute → (f j).state = .leased →
    f j = j ∨ ∃ token ∈ tokens, (f j).leaseToken = some token

section Moves

variable {tokens : List Uuid} {f : JobRow → JobRow} {g : RequestRow → RequestRow} {s t : Db}

private theorem Moves.mem_request (h : Moves tokens f g s t) {r : RequestRow} :
    r ∈ t.requests ↔ ∃ r₀ ∈ s.requests, g r₀ = r := by
  rw [h.requests, List.mem_map]

private theorem Moves.mem_job (h : Moves tokens f g s t) {j : JobRow} :
    j ∈ t.jobs ↔ ∃ j₀ ∈ s.jobs, f j₀ = j := by
  rw [h.jobs, List.mem_map]

/-- A request that moves keeps its context. -/
theorem Moves.hasContext (h : Moves tokens f g s t) (r : RequestRow) :
    t.hasContext (g r) ↔ s.hasContext r := by
  unfold Db.hasContext
  rw [h.contexts, (h.keepsRequest r).1]

/-- A request that moves keeps its job. -/
theorem Moves.linked (h : Moves tokens f g s t) {j : JobRow} {r : RequestRow} :
    (f j).recomputeRequestId = some (g r).id ↔ j.recomputeRequestId = some r.id := by
  rw [(h.keepsJob j).2.1, (h.keepsRequest r).1]

/-- The invariant stays when every linked pair stays in step. -/
theorem Tracked.moves (htracked : Tracked s) (h : Moves tokens f g s t)
    (hstep : ∀ r ∈ s.requests, ∀ j ∈ s.jobs, j.recomputeRequestId = some r.id →
      InStep r.state j → InStep (g r).state (f j))
    (hresults : ∀ r ∈ s.requests, g r = r ∨ (g r).state = .ready ∨
      ((g r).resultingAnalysisId = r.resultingAnalysisId ∧ (g r).proposalId = r.proposalId ∧
        ¬ r.state.Settled)) :
    Tracked t where
  withoutContext r hr hnone := by
    obtain ⟨r₀, hr₀, rfl⟩ := h.mem_request.mp hr
    obtain ⟨hfailed, hjobs⟩ :=
      htracked.withoutContext r₀ hr₀ fun hc ↦ hnone ((h.hasContext r₀).mpr hc)
    refine ⟨by rw [h.settled r₀ hr₀ (.inr hfailed), hfailed], fun j hj hlink ↦ ?_⟩
    obtain ⟨j₀, hj₀, rfl⟩ := h.mem_job.mp hj
    exact hjobs j₀ hj₀ (h.linked.mp hlink)
  job r hr hcontext := by
    obtain ⟨r₀, hr₀, rfl⟩ := h.mem_request.mp hr
    obtain ⟨j, hj, hlink⟩ := htracked.job r₀ hr₀ ((h.hasContext r₀).mp hcontext)
    exact ⟨f j, h.mem_job.mpr ⟨j, hj, rfl⟩, h.linked.mpr hlink⟩
  inStep r hr j hj hlink := by
    obtain ⟨r₀, hr₀, rfl⟩ := h.mem_request.mp hr
    obtain ⟨j₀, hj₀, rfl⟩ := h.mem_job.mp hj
    have hlink₀ := h.linked.mp hlink
    obtain ⟨hkind, hinStep⟩ := htracked.inStep r₀ hr₀ j₀ hj₀ hlink₀
    exact ⟨(h.keepsJob j₀).2.2.trans hkind, hstep r₀ hr₀ j₀ hj₀ hlink₀ hinStep⟩
  results r hr hset := by
    obtain ⟨r₀, hr₀, rfl⟩ := h.mem_request.mp hr
    rcases hresults r₀ hr₀ with heq | hready | ⟨hanalysis, hproposal, hopen⟩
    · rw [heq] at hset ⊢
      exact htracked.results r₀ hr₀ hset
    · exact hready
    · rw [hanalysis, hproposal] at hset
      exact absurd (.inl (htracked.results r₀ hr₀ hset)) hopen
  version r hr := by
    obtain ⟨r₀, hr₀, rfl⟩ := h.mem_request.mp hr
    obtain ⟨version, hversion, hle⟩ := htracked.version r₀ hr₀
    obtain ⟨-, huser, hprofileVersion⟩ := h.keepsRequest r₀
    rw [huser, hprofileVersion]
    exact ⟨version, h.profiles _ _ hversion, hle⟩

/-- Exclusion stays when only a request whose user runs no other starts to run. -/
theorem Exclusive.moves {now : Int} (hexclusive : Exclusive s now) (h : Moves tokens f g s t)
    (id : Uuid)
    (hstarts : ∀ r ∈ s.requests, t.runsUnder now (g r) → s.runsUnder now r ∨
      (r.id = id ∧ ∀ r' ∈ s.requests, r'.userId = r.userId → r'.id ≠ r.id →
        ¬ s.runsUnder now r')) :
    Exclusive t now := by
  intro r hr r' hr' hruns hruns' huser
  obtain ⟨r₀, hr₀, rfl⟩ := h.mem_request.mp hr
  obtain ⟨r₁, hr₁, rfl⟩ := h.mem_request.mp hr'
  rw [(h.keepsRequest r₀).2.1, (h.keepsRequest r₁).2.1] at huser
  rw [(h.keepsRequest r₀).1, (h.keepsRequest r₁).1]
  rcases hstarts r₀ hr₀ hruns with hbefore | ⟨hid, halone⟩
  · rcases hstarts r₁ hr₁ hruns' with hbefore' | ⟨hid', halone'⟩
    · exact hexclusive r₀ hr₀ r₁ hr₁ hbefore hbefore' huser
    · by_contra hne
      exact halone' r₀ hr₀ huser hne hbefore
  · rcases hstarts r₁ hr₁ hruns' with hbefore' | ⟨hid', -⟩
    · by_contra hne
      exact halone r₁ hr₁ huser.symm (fun he ↦ hne he.symm) hbefore'
    · rw [hid, hid']

end Moves

/-! ### What every action keeps -/

/-- From before to after: requests stay, settled ones as they are, and no lease comes back. -/
structure Advance (tokens : List Uuid) (s t : Db) : Prop where
  requests : ∀ r ∈ s.requests, ∃ r' ∈ t.requests, r'.id = r.id ∧ (r.state.Settled → r' = r)
  leases : ∀ item now, item.leaseToken ∉ tokens → t.holdsLease item now → s.holdsLease item now

/-- Nothing advances where nothing changes. -/
theorem Advance.refl (tokens : List Uuid) (s : Db) : Advance tokens s s :=
  ⟨fun r hr ↦ ⟨r, hr, rfl, fun _ ↦ rfl⟩, fun _ _ _ h ↦ h⟩

/-- Work advances twice. -/
theorem Advance.trans {tokens : List Uuid} {s t u : Db} (hst : Advance tokens s t)
    (htu : Advance tokens t u) : Advance tokens s u where
  requests r hr := by
    obtain ⟨r', hr', hid, hsettled⟩ := hst.requests r hr
    obtain ⟨r'', hr'', hid', hsettled'⟩ := htu.requests r' hr'
    refine ⟨r'', hr'', hid'.trans hid, fun h ↦ ?_⟩
    obtain rfl := hsettled h
    exact hsettled' h
  leases item now htoken hholds := hst.leases item now htoken (htu.leases item now htoken hholds)

/-- Work advances with more tokens. -/
theorem Advance.mono {tokens tokens' : List Uuid} {s t : Db} (h : Advance tokens s t)
    (hsub : ∀ k ∈ tokens, k ∈ tokens') : Advance tokens' s t :=
  ⟨h.requests, fun item now htoken ↦ h.leases item now fun hmem ↦ htoken (hsub _ hmem)⟩

/-- Moves advance the work. -/
theorem Moves.advance {tokens : List Uuid} {f : JobRow → JobRow} {g : RequestRow → RequestRow}
    {s t : Db} (h : Moves tokens f g s t) : Advance tokens s t where
  requests r hr := ⟨g r, h.mem_request.mpr ⟨r, hr, rfl⟩, (h.keepsRequest r).1,
    h.settled r hr⟩
  leases item now htoken hholds := by
    obtain ⟨j, hj, hjob, hstate, hitem, huntil⟩ := hholds
    obtain ⟨j₀, hj₀, rfl⟩ := h.mem_job.mp hj
    rcases h.leases j₀ hj₀ ((h.keepsJob j₀).2.2 ▸ hjob.2.1) hstate with heq | ⟨token, hmem, hnew⟩
    · rw [heq] at hjob hstate hitem huntil
      exact ⟨j₀, hj₀, hjob, hstate, hitem, huntil⟩
    · rw [hitem] at hnew
      exact absurd (Option.some.inj hnew ▸ hmem) htoken

/-! ### Steps of the workers -/

/-- The invariant at a time. -/
structure WorkLaws (db : Db) (now : Int) : Prop where
  tracked : Tracked db
  exclusive : Exclusive db now

section Steps

variable {s : Database} {now : Int}

private theorem request_unique (s : Database) {r r' : RequestRow} (hr : r ∈ s.1.requests)
    (hr' : r' ∈ s.1.requests) (hid : r.id = r'.id) : r = r' :=
  s.2.requests.key.eq_of_mem hr hr' hid

/-- A request has one job. -/
theorem job_unique (s : Database) {j j' : JobRow} {id : Uuid} (hj : j ∈ s.1.jobs)
    (hj' : j' ∈ s.1.jobs) (hlink : j.recomputeRequestId = some id)
    (hlink' : j'.recomputeRequestId = some id) : j = j' :=
  s.2.jobs.oneJobPerRequest.eq_of_mem hj (by simp [hlink]) hj' (by simp [hlink'])
    (hlink.trans hlink'.symm)

/-- The job of an open request is ready or leased. -/
theorem inStep_open {state : RequestState} {j : JobRow} (h : ¬ state.Settled) :
    InStep state j ↔ j.state = .ready ∨ (j.state = .leased ∧ j.leaseUntil ≠ none) := by
  rw [InStep, if_neg h]

/-- The job of a settled request is completed. -/
theorem inStep_settled {state : RequestState} {j : JobRow} (h : state.Settled) :
    InStep state j ↔ j.state = .completed := by
  rw [InStep, if_pos h]

/-- Work that a claim has selected: an open request and its job. -/
structure OpenWork (db : Db) (w : JobRow × RequestRow) : Prop where
  request : ∃ r ∈ db.requests, r.id = w.2.id ∧ ¬ r.state.Settled
  job : ∃ j ∈ db.jobs, j.id = w.1.id ∧ j.recomputeRequestId = some w.2.id

/-- The request of a claimed job is open. -/
theorem claimRequest_spec {db : Db} {sources : Option (List String)} {j : JobRow}
    {r : RequestRow} (h : db.claimRequest sources now j = some r) :
    r ∈ db.requests ∧ j.recomputeRequestId = some r.id ∧ ¬ r.state.Settled := by
  unfold Db.claimRequest at h
  simp only [Option.bind_eq_bind, Option.bind_eq_some_iff] at h
  obtain ⟨id, hid, request, hrequest, context, -, h⟩ := h
  split at h
  · next hc =>
    obtain rfl := Option.some.inj h
    obtain ⟨hmem, rfl⟩ := lookup_some hrequest
    refine ⟨hmem, hid, fun hsettled ↦ ?_⟩
    rcases hsettled with hsettled | hsettled <;> simp [hsettled] at hc
  · cases h

/-- Claimable work is open. -/
theorem mem_claimableWork {db : Db} {sources : Option (List String)} {locked : List Uuid}
    {w : JobRow × RequestRow} (h : w ∈ db.claimableWork sources locked now) :
    w.1 ∈ db.jobs ∧ w.2 ∈ db.requests ∧ w.1.recomputeRequestId = some w.2.id ∧
      ¬ w.2.state.Settled := by
  obtain ⟨j, hj, hw⟩ := List.mem_filterMap.mp h
  obtain ⟨r, hr, rfl⟩ := Option.map_eq_some_iff.mp hw
  exact ⟨List.mem_of_mem_filter hj, claimRequest_spec hr⟩

/-- Requests are settled together with their jobs: by retiring, finalizing or failing. -/
theorem WorkLaws.settle (h : WorkLaws s.1 now) {p : JobRow → Prop} [DecidablePred p]
    {q : RequestRow → Prop} [DecidablePred q] {g : RequestRow → RequestRow} {t : Db}
    (hjobs : t.jobs = update p (·.complete) s.1.jobs)
    (hrequests : t.requests = update q g s.1.requests) (hcontexts : t.contexts = s.1.contexts)
    (hprofiles : ∀ userId version, s.1.profileVersion userId = some version →
      t.profileVersion userId = some version)
    (hkeeps : ∀ r, (g r).id = r.id ∧ (g r).userId = r.userId ∧
      (g r).profileVersion = r.profileVersion)
    (hsettles : ∀ r, (g r).state = .ready ∨ ((g r).state = .failed ∧
      (g r).resultingAnalysisId = r.resultingAnalysisId ∧ (g r).proposalId = r.proposalId))
    (hopen : ∀ r ∈ s.1.requests, q r → ¬ r.state.Settled)
    (hpair : ∀ r ∈ s.1.requests, ∀ j ∈ s.1.jobs, j.recomputeRequestId = some r.id →
      (p j ↔ q r)) : WorkLaws t now ∧ Advance [] s.1 t := by
  have hmoves : Moves [] _ _ s.1 t := {
    jobs := hjobs
    requests := hrequests
    contexts := hcontexts
    profiles := hprofiles
    keepsJob := fun j ↦ by split <;> exact ⟨rfl, rfl, rfl⟩
    keepsRequest := fun r ↦ by
      split
      · exact hkeeps r
      · exact ⟨rfl, rfl, rfl⟩
    settled := fun r hr hsettled ↦ if_neg fun hq ↦ hopen r hr hq hsettled
    leases := fun j _ _ ↦ by
      split
      · intro hstate
        cases hstate
      · exact fun _ ↦ .inl rfl }
  refine ⟨⟨h.tracked.moves hmoves ?_ ?_, h.exclusive.moves hmoves 0 ?_⟩, hmoves.advance⟩
  · intro r hr j hj hlink hinStep
    by_cases hq : q r
    · rw [if_pos hq, if_pos ((hpair r hr j hj hlink).mpr hq),
        inStep_settled ((hsettles r).imp_right And.left)]
      rfl
    · rwa [if_neg hq, if_neg fun hp ↦ hq ((hpair r hr j hj hlink).mp hp)]
  · intro r hr
    by_cases hq : q r
    · rw [if_pos hq]
      rcases hsettles r with hready | ⟨-, hanalysis, hproposal⟩
      · exact .inr (.inl hready)
      · exact .inr (.inr ⟨hanalysis, hproposal, hopen r hr hq⟩)
    · exact .inl (if_neg hq)
  · rintro r hr ⟨hrunning, j, hj, hlink, hleased, huntil⟩
    by_cases hq : q r
    · rw [if_pos hq] at hrunning
      rcases hsettles r with hready | ⟨hfailed, -⟩
      · cases hready.symm.trans hrunning
      · cases hfailed.symm.trans hrunning
    · rw [if_neg hq] at hrunning hlink
      obtain ⟨j₀, hj₀, rfl⟩ := hmoves.mem_job.mp hj
      by_cases hp : p j₀
      · rw [if_pos hp] at hleased
        cases hleased
      · rw [if_neg hp] at hlink hleased huntil
        exact .inl ⟨hrunning, j₀, hj₀, hlink, hleased, huntil⟩

/-- Stale work is a set of jobs with their requests. -/
theorem stale_pair {stale : List (JobRow × RequestRow)}
    (hstale : ∀ w ∈ stale, w.1 ∈ s.1.jobs ∧ w.2 ∈ s.1.requests ∧
      w.1.recomputeRequestId = some w.2.id ∧ ¬ w.2.state.Settled) :
    ∀ r ∈ s.1.requests, ∀ j ∈ s.1.jobs, j.recomputeRequestId = some r.id →
      (j.id ∈ stale.map (·.1.id) ↔ r.id ∈ stale.map (·.2.id)) := by
  intro r hr j hj hlink
  constructor
  · intro hmem
    obtain ⟨w, hw, hid⟩ := List.mem_map.mp hmem
    obtain ⟨hw₁, -, hwlink, -⟩ := hstale w hw
    obtain rfl := s.2.jobs.key.eq_of_mem hw₁ hj hid
    exact List.mem_map.mpr ⟨w, hw, Option.some.inj (hwlink.symm.trans hlink)⟩
  · intro hmem
    obtain ⟨w, hw, hid⟩ := List.mem_map.mp hmem
    obtain ⟨hw₁, -, hwlink, -⟩ := hstale w hw
    obtain rfl := job_unique s hw₁ hj hwlink (hid ▸ hlink)
    exact List.mem_map.mpr ⟨w, hw, rfl⟩

/-- Stale work is open. -/
theorem mem_staleWork {db : Db} {options : ClaimOptions} {w : JobRow × RequestRow}
    (h : w ∈ db.staleWork options now) :
    w.1 ∈ db.jobs ∧ w.2 ∈ db.requests ∧ w.1.recomputeRequestId = some w.2.id ∧
      ¬ w.2.state.Settled := by
  have hmem := List.mem_of_mem_take h
  rw [List.mem_insertionSort] at hmem
  exact mem_claimableWork (List.mem_of_mem_filter hmem)

/-- Retiring open work keeps the laws. -/
theorem WorkLaws.retire (h : WorkLaws s.1 now) {stale : List (JobRow × RequestRow)}
    (hstale : ∀ w ∈ stale, w.1 ∈ s.1.jobs ∧ w.2 ∈ s.1.requests ∧
      w.1.recomputeRequestId = some w.2.id ∧ ¬ w.2.state.Settled) :
    WorkLaws (s.1.retire stale) now ∧ Advance [] s.1 (s.1.retire stale) := by
  refine h.settle rfl rfl rfl (fun _ _ ↦ id) (fun _ ↦ ⟨rfl, rfl, rfl⟩)
    (fun _ ↦ .inr ⟨rfl, rfl, rfl⟩) ?_ (stale_pair hstale)
  intro r hr hmem
  obtain ⟨w, hw, hid⟩ := List.mem_map.mp hmem
  obtain ⟨-, hw₂, -, hopen⟩ := hstale w hw
  rwa [request_unique s hr hw₂ hid.symm]

/-- The job under an item's lease and its running request are each other's. -/
theorem settled_pair {item : RecomputeWorkItem} (hrunning : s.1.isRunning item)
    (hleased : s.1.holdsLease item now) :
    ∀ r ∈ s.1.requests, ∀ j ∈ s.1.jobs, j.recomputeRequestId = some r.id →
      ((item.isJob j ∧ item.holds now j) ↔ (r.id = item.requestId ∧ r.state = .running)) := by
  intro r hr j hj hlink
  obtain ⟨r₀, hr₀, hid, hstate, -⟩ := hrunning
  obtain ⟨j₀, hj₀, hjob, hholds⟩ := hleased
  constructor
  · rintro ⟨hisJob, -⟩
    have hrid : r.id = item.requestId := Option.some.inj (hlink.symm.trans hisJob.2.2)
    obtain rfl := request_unique s hr hr₀ (hrid.trans hid.symm)
    exact ⟨hrid, hstate⟩
  · rintro ⟨hrid, -⟩
    obtain rfl := job_unique s hj hj₀ (hrid ▸ hlink) hjob.2.2
    exact ⟨hjob, hholds⟩

/-- Recording results keeps the laws. -/
theorem WorkLaws.finalized (h : WorkLaws s.1 now) {item : RecomputeWorkItem}
    {artifacts : RecomputeArtifacts} {t : Db} (hfinal : Finalized item artifacts now s.1 t) :
    WorkLaws t now ∧ Advance [] s.1 t := by
  refine h.settle (p := fun j ↦ item.isJob j ∧ item.holds now j)
    (q := fun r ↦ r.id = item.requestId ∧ r.state = .running) (g := artifacts.settle)
    (by rw [hfinal.written]) (by rw [hfinal.written]) (by rw [hfinal.written]) ?_
    (fun _ ↦ ⟨rfl, rfl, rfl⟩) (fun _ ↦ .inl rfl) ?_ (settled_pair hfinal.running hfinal.leased)
  · intro userId version hversion
    have hprofiles : t.profiles =
        update (fun p ↦ p.userId = item.userId ∧ p.version = item.profileVersion)
          (fun p ↦ { p with latestAnalysisId := some artifacts.analysis.id }) s.1.profiles := by
      rw [hfinal.written]
    rw [profileVersion_update hprofiles fun _ ↦ rfl]
    simpa [Db.profileVersion] using hversion
  · rintro r - ⟨-, hstate⟩ hsettled
    rcases hsettled with hsettled | hsettled <;> cases hstate.symm.trans hsettled

/-- Recording a failure keeps the laws. -/
theorem WorkLaws.failed (h : WorkLaws s.1 now) {item : RecomputeWorkItem} {errorCode : String}
    {t : Db} (hfailed : FailedWork item errorCode now s.1 t) :
    WorkLaws t now ∧ Advance [] s.1 t := by
  refine h.settle (p := fun j ↦ item.isJob j ∧ item.holds now j)
    (q := fun r ↦ r.id = item.requestId ∧ r.state = .running) (g := fun r ↦ r.fail errorCode)
    (by rw [hfailed.written]) (by rw [hfailed.written]) (by rw [hfailed.written]) (fun _ _ hv ↦ by
      rw [hfailed.written]; exact hv)
    (fun _ ↦ ⟨rfl, rfl, rfl⟩) (fun _ ↦ .inr ⟨rfl, rfl, rfl⟩) ?_
    (settled_pair hfailed.running hfailed.leased)
  rintro r - ⟨-, hstate⟩ hsettled
  rcases hsettled with hsettled | hsettled <;> cases hstate.symm.trans hsettled

/-- A job that is put off keeps its open request. -/
theorem WorkLaws.deferred (h : WorkLaws s.1 now) {w : JobRow × RequestRow}
    (hopen : OpenWork s.1 w) (availableAt : Int) :
    WorkLaws (s.1.deferred w.1.id availableAt) now ∧
      Advance [] s.1 (s.1.deferred w.1.id availableAt) := by
  have hmoves : Moves [] _ id s.1 (s.1.deferred w.1.id availableAt) := {
    jobs := rfl
    requests := (List.map_id _).symm
    contexts := rfl
    profiles := fun _ _ ↦ id
    keepsJob := fun j ↦ by split <;> exact ⟨rfl, rfl, rfl⟩
    keepsRequest := fun _ ↦ ⟨rfl, rfl, rfl⟩
    settled := fun _ _ _ ↦ rfl
    leases := fun j _ _ ↦ by
      split
      · intro hstate
        cases hstate
      · exact fun _ ↦ .inl rfl }
  refine ⟨⟨h.tracked.moves hmoves ?_ fun _ _ ↦ .inl rfl, h.exclusive.moves hmoves 0 ?_⟩,
    hmoves.advance⟩
  · intro r hr j hj hlink hinStep
    by_cases hjob : j.id = w.1.id
    · obtain ⟨j₀, hj₀, hid, hlink₀⟩ := hopen.job
      obtain rfl := s.2.jobs.key.eq_of_mem hj hj₀ (hjob.trans hid.symm)
      obtain ⟨r₀, hr₀, hrid, hunsettled⟩ := hopen.request
      obtain rfl := request_unique s hr hr₀
        ((Option.some.inj (hlink.symm.trans hlink₀)).trans hrid.symm)
      rw [if_pos hjob]
      exact (inStep_open hunsettled).mpr (.inl rfl)
    · rwa [if_neg hjob]
  · rintro r hr ⟨hrunning, j, hj, hlink, hleased, huntil⟩
    obtain ⟨j₀, hj₀, rfl⟩ := hmoves.mem_job.mp hj
    by_cases hjob : j₀.id = w.1.id
    · rw [if_pos hjob] at hleased
      cases hleased
    · rw [if_neg hjob] at hlink hleased huntil
      exact .inl ⟨hrunning, j₀, hj₀, hlink, hleased, huntil⟩

/-- Leasing work sets its request running, when its user runs no other. -/
theorem WorkLaws.leased (h : WorkLaws s.1 now) {w : JobRow × RequestRow} {token : Uuid}
    (hfree : ¬ s.1.alreadyRunning w.2.userId w.2.id now)
    (hjob : ∃ j ∈ s.1.jobs, isClaimedJob w j)
    (hrequest : ∃ r ∈ s.1.requests, isClaimedRequest w r) (rateLimits : List RateLimitRow) :
    WorkLaws ({ s.1 with rateLimits := rateLimits }.leased w token now) now ∧
      Advance [token] s.1 ({ s.1 with rateLimits := rateLimits }.leased w token now) := by
  obtain ⟨j₀, hj₀, hclaimed⟩ := hjob
  obtain ⟨r₀, hr₀, hrunnable⟩ := hrequest
  have hopen : ∀ r, isClaimedRequest w r → ¬ r.state.Settled := by
    rintro r ⟨-, -, -, hstate⟩ hsettled
    rcases hsettled with hsettled | hsettled <;> simp [hsettled] at hstate
  have hmoves : Moves [token] _ _ s.1
      ({ s.1 with rateLimits := rateLimits }.leased w token now) := {
    jobs := rfl
    requests := rfl
    contexts := rfl
    profiles := fun _ _ ↦ id
    keepsJob := fun j ↦ by split <;> exact ⟨rfl, rfl, rfl⟩
    keepsRequest := fun r ↦ by split <;> exact ⟨rfl, rfl, rfl⟩
    settled := fun r _ hsettled ↦ if_neg fun hq ↦ hopen r hq hsettled
    leases := fun j _ _ ↦ by
      split
      · exact fun _ ↦ .inr ⟨token, List.mem_singleton_self token, rfl⟩
      · exact fun _ ↦ .inl rfl }
  refine ⟨⟨h.tracked.moves hmoves ?_ ?_, h.exclusive.moves hmoves w.2.id ?_⟩, hmoves.advance⟩
  · intro r hr j hj hlink hinStep
    by_cases hrid : r.id = w.2.id
    · obtain rfl := request_unique s hr hr₀ (hrid.trans hrunnable.1.symm)
      obtain rfl := job_unique s hj hj₀ (hrid ▸ hlink) hclaimed.2.1
      rw [if_pos hclaimed, if_pos hrunnable]
      refine (inStep_open ?_).mpr (.inr ⟨rfl, by simp⟩)
      rintro (hsettled | hsettled) <;> cases hsettled
    · rwa [if_neg fun hc : isClaimedRequest w r ↦ hrid hc.1,
        if_neg fun hc : isClaimedJob w j ↦ hrid (Option.some.inj (hlink.symm.trans hc.2.1))]
  · intro r _
    by_cases hq : isClaimedRequest w r
    · rw [if_pos hq]
      exact .inr (.inr ⟨rfl, rfl, hopen r hq⟩)
    · exact .inl (if_neg hq)
  · rintro r hr ⟨hrunning, j, hj, hlink, hleased, huntil⟩
    obtain ⟨j₁, hj₁, rfl⟩ := hmoves.mem_job.mp hj
    rw [hmoves.linked] at hlink
    by_cases hrid : r.id = w.2.id
    · obtain rfl := request_unique s hr hr₀ (hrid.trans hrunnable.1.symm)
      refine .inr ⟨hrid, fun r' hr' huser hne hruns ↦ hfree ?_⟩
      obtain ⟨hstate, j', hj', hlink', hleased', huntil'⟩ := hruns
      exact ⟨j', hj', hleased', huntil', r', hr', hlink', huser.trans hrunnable.2.1,
        hrid ▸ hne, hstate⟩
    · have hq : ¬ isClaimedRequest w r := fun hc ↦ hrid hc.1
      have hp : ¬ isClaimedJob w j₁ :=
        fun hc ↦ hrid (Option.some.inj (hlink.symm.trans hc.2.1))
      rw [if_neg hq] at hrunning
      rw [if_neg hp] at hleased huntil
      exact .inl ⟨hrunning, j₁, hj₁, hlink, hleased, huntil⟩

/-- Claiming one piece of work keeps the other selected work open. -/
theorem OpenWork.claim {db t : Db} {w w' : JobRow × RequestRow} {token : Uuid}
    {item : Option RecomputeWorkItem} (h : OpenWork db w')
    (heffect : ClaimEffect now token w db item t) :
    OpenWork t w' := by
  cases heffect with
  | deferred availableAt => exact ⟨h.request, exists_mem_update h.job fun _ ↦ id⟩
  | leased rateLimits hfree hjob hrequest =>
    refine ⟨exists_mem_update h.request ?_, exists_mem_update h.job fun _ ↦ id⟩
    rintro r ⟨hid, -⟩
    exact ⟨hid, fun hsettled ↦ by rcases hsettled with hsettled | hsettled <;> cases hsettled⟩

/-- The rows that claiming writes. -/
def OnlyWork (s t : Db) : Prop :=
  t = { s with jobs := t.jobs, requests := t.requests, rateLimits := t.rateLimits }

/-- A claim writes work only. -/
theorem ClaimEffect.onlyWork {db t : Db} {w : JobRow × RequestRow} {token : Uuid}
    {item : Option RecomputeWorkItem} (h : ClaimEffect now token w db item t) : OnlyWork db t := by
  cases h <;> rfl

/-- What every piece of claimed work keeps, claiming selected work keeps. -/
theorem claimLoop_induction {policy : AnalysisBudgetPolicy} {token : Nat → Uuid}
    {rows : List ((JobRow × RequestRow) × Nat)} {items items' : List RecomputeWorkItem}
    {t : Database} {P : Database → List RecomputeWorkItem → Prop}
    (hstep : ∀ w ∈ rows, ∀ (u v : Database) (items : List RecomputeWorkItem)
      (item : Option RecomputeWorkItem), P u items →
      ClaimEffect now (token w.2) w.1 u.1 item v.1 → P v (items ++ item.toList))
    (h : P s items)
    (hyields : Yields (rows.foldlM (fun items w ↦ do
      let item ← claimWork policy now (token w.2) w.1
      return items ++ item.toList) items) s items' t) : P t items' := by
  induction rows generalizing s items with
  | nil =>
    obtain ⟨rfl, rfl⟩ := yields_pure.mp hyields
    exact h
  | cons w rest ih =>
    rw [List.foldlM_cons] at hyields
    simp only [yields_bind, yields_pure] at hyields
    obtain ⟨_, _, ⟨item, u, hclaim, rfl, rfl⟩, hrest⟩ := hyields
    refine ih (fun w' hw' ↦ hstep w' (List.mem_cons_of_mem _ hw')) ?_ hrest
    exact hstep w List.mem_cons_self _ _ _ _ h (claimWork_spec hclaim)

/-- Claiming selected work, piece by piece. -/
theorem claimLoop_laws {policy : AnalysisBudgetPolicy} {token : Nat → Uuid}
    {rows : List ((JobRow × RequestRow) × Nat)} {items items' : List RecomputeWorkItem}
    {t : Database} (h : WorkLaws s.1 now) (hopen : ∀ w ∈ rows, OpenWork s.1 w.1)
    (hyields : Yields (rows.foldlM (fun items w ↦ do
      let item ← claimWork policy now (token w.2) w.1
      return items ++ item.toList) items) s items' t) :
    WorkLaws t.1 now ∧ Advance (rows.map (token ·.2)) s.1 t.1 ∧ OnlyWork s.1 t.1 := by
  have hloop := claimLoop_induction (P := fun v _ ↦ (∀ w ∈ rows, OpenWork v.1 w.1) ∧
    WorkLaws v.1 now ∧ Advance (rows.map (token ·.2)) s.1 v.1 ∧ OnlyWork s.1 v.1)
    ?_ ⟨hopen, h, .refl _ _, rfl⟩ hyields
  · exact hloop.2
  · rintro w hw u v - item ⟨hopen, hlaws, hadvance, honly⟩ heffect
    have hopen' := fun w' hw' ↦ (hopen w' hw').claim heffect
    have hstep : WorkLaws v.1 now ∧ Advance [token w.2] u.1 v.1 := by
      have hwork := hopen w hw
      clear hopen'
      generalize v.1 = v' at heffect
      cases heffect with
      | deferred availableAt =>
        obtain ⟨hlaws, hadvance⟩ := hlaws.deferred hwork availableAt
        exact ⟨hlaws, hadvance.mono fun _ hk ↦ absurd hk List.not_mem_nil⟩
      | leased rateLimits hfree hjob hrequest => exact hlaws.leased hfree hjob hrequest rateLimits
    refine ⟨hopen', hstep.1, hadvance.trans (hstep.2.mono fun k hk ↦ ?_), ?_⟩
    · exact List.mem_map.mpr ⟨w, hw, (List.mem_singleton.mp hk).symm⟩
    · have hv := heffect.onlyWork
      unfold OnlyWork at honly hv ⊢
      rw [hv, honly]

/-- Claiming keeps the laws. -/
theorem claimRecomputeWork_laws {options : ClaimOptions} {token : Nat → Uuid}
    {items : List RecomputeWorkItem} {t : Database} (h : WorkLaws s.1 now)
    (hyields : Yields (claimRecomputeWork options token now) s items t) :
    WorkLaws t.1 now ∧ Advance ((List.range options.limit).map token) s.1 t.1 ∧
      OnlyWork s.1 t.1 := by
  unfold claimRecomputeWork at hyields
  simp only [yields_seq, yields_query_bind] at hyields
  obtain ⟨u, hretire, hloop⟩ := hyields
  have hu := retireStale_spec hretire
  have hretired : WorkLaws (s.1.retire (s.1.staleWork options now)) now ∧
      Advance [] s.1 (s.1.retire (s.1.staleWork options now)) :=
    h.retire fun _ hw ↦ mem_staleWork hw
  rw [← hu] at hretired
  have hselected : ∀ w ∈ (u.1.currentWork options now).zipIdx, OpenWork u.1 w.1 := by
    intro w hw
    have hmem := List.mem_of_mem_take (List.fst_mem_of_mem_zipIdx hw)
    rw [List.mem_insertionSort] at hmem
    obtain ⟨hjob, hrequest, hlink, hopen⟩ := mem_claimableWork (List.mem_of_mem_filter hmem)
    exact ⟨⟨w.1.2, hrequest, rfl, hopen⟩, w.1.1, hjob, rfl, hlink⟩
  obtain ⟨hlaws, hadvance, honly⟩ := claimLoop_laws hretired.1 hselected hloop
  refine ⟨hlaws, (hretired.2.mono fun _ hk ↦ absurd hk List.not_mem_nil).trans
    (hadvance.mono ?_), ?_⟩
  · intro k hk
    obtain ⟨w, hw, rfl⟩ := List.mem_map.mp hk
    refine List.mem_map_of_mem (List.mem_range.mpr ?_)
    have hlt := List.snd_lt_of_mem_zipIdx hw
    unfold Db.currentWork at hlt
    rw [List.length_take] at hlt
    omega
  · unfold OnlyWork at honly ⊢
    rw [honly, hu]
    rfl

/-- Jobs of other kinds have no request. -/
theorem WorkLaws.others (h : WorkLaws s.1 now) {p : JobRow → Prop} [DecidablePred p]
    {f : JobRow → JobRow} {t : Db} (hwritten : t = { s.1 with jobs := update p f s.1.jobs })
    (hkind : ∀ j ∈ s.1.jobs, p j → j.kind ≠ .recompute)
    (hkeeps : ∀ j, (f j).id = j.id ∧ (f j).recomputeRequestId = j.recomputeRequestId ∧
      (f j).kind = j.kind) :
    WorkLaws t now ∧ Advance [] s.1 t := by
  subst hwritten
  have hlinked : ∀ r ∈ s.1.requests, ∀ j ∈ s.1.jobs, j.recomputeRequestId = some r.id → ¬ p j :=
    fun r hr j hj hlink hp ↦ hkind j hj hp (h.tracked.inStep r hr j hj hlink).1
  have hmoves : Moves [] _ id s.1 { s.1 with jobs := update p f s.1.jobs } := {
    jobs := rfl
    requests := (List.map_id _).symm
    contexts := rfl
    profiles := fun _ _ ↦ id
    keepsJob := fun j ↦ by
      split
      · exact hkeeps j
      · exact ⟨rfl, rfl, rfl⟩
    keepsRequest := fun _ ↦ ⟨rfl, rfl, rfl⟩
    settled := fun _ _ _ ↦ rfl
    leases := fun j hj hrecompute _ ↦ .inl (if_neg fun hp ↦ hkind j hj hp hrecompute) }
  refine ⟨⟨h.tracked.moves hmoves ?_ fun _ _ ↦ .inl rfl, h.exclusive.moves hmoves 0 ?_⟩,
    hmoves.advance⟩
  · intro r hr j hj hlink hinStep
    rwa [if_neg (hlinked r hr j hj hlink)]
  · rintro r hr ⟨hrunning, j, hj, hlink, hleased, huntil⟩
    obtain ⟨j₀, hj₀, rfl⟩ := hmoves.mem_job.mp hj
    have hp := hlinked r hr j₀ hj₀ (hmoves.linked.mp hlink)
    rw [if_neg hp] at hlink hleased huntil
    exact .inl ⟨hrunning, j₀, hj₀, hlink, hleased, huntil⟩

/-- Only jobs of other kinds change. -/
def OtherJobs (s t : Db) : Prop :=
  t = { s with jobs := t.jobs } ∧ ∀ j ∈ t.jobs, j.kind = .recompute → j ∈ s.jobs

/-- Other jobs are work. -/
theorem OtherJobs.onlyWork {s t : Db} (h : OtherJobs s t) : OnlyWork s t := by
  unfold OnlyWork
  rw [h.1]

private theorem otherJobs_update {s : Db} {p : JobRow → Prop} [DecidablePred p]
    {f : JobRow → JobRow}
    (hkind : ∀ j ∈ s.jobs, p j → j.kind ≠ .recompute) (hkeeps : ∀ j, (f j).kind = j.kind) :
    OtherJobs s { s with jobs := update p f s.jobs } := by
  refine ⟨rfl, fun j hj hrecompute ↦ ?_⟩
  rcases mem_update.mp hj with ⟨hj, -⟩ | ⟨j₀, hj₀, hp, rfl⟩
  · exact hj
  · exact absurd ((hkeeps j₀).symm.trans hrecompute) (hkind j₀ hj₀ hp)

/-- Claiming jobs of other kinds keeps the laws. -/
theorem claimOutboxJobs_laws {limit : Nat} {leaseFor : Int} {locked : List Uuid}
    {token : Nat → Uuid} {u : Unit} {t : Database} (h : WorkLaws s.1 now)
    (hyields : Yields (claimOutboxJobs limit leaseFor locked token now) s u t) :
    WorkLaws t.1 now ∧ Advance [] s.1 t.1 ∧ OtherJobs s.1 t.1 := by
  unfold claimOutboxJobs at hyields
  rw [yields_query_bind] at hyields
  have hselected : ∀ entry ∈ (s.1.claimableOthers limit locked now).zipIdx,
      ∀ j ∈ s.1.jobs, j.id = entry.1 → j.kind ≠ .recompute := by
    intro entry hentry j hj hid
    obtain ⟨j₀, hj₀, hid₀⟩ := List.mem_map.mp (List.fst_mem_of_mem_zipIdx hentry)
    have hmem := List.mem_of_mem_take hj₀
    rw [List.mem_insertionSort, List.mem_filter] at hmem
    obtain rfl := s.2.jobs.key.eq_of_mem hj hmem.1 (hid.trans hid₀.symm)
    exact (of_decide_eq_true hmem.2).2.1
  generalize (s.1.claimableOthers limit locked now).zipIdx = entries at hyields hselected
  induction entries generalizing s with
  | nil =>
    obtain rfl := yields_forM_nil.mp hyields
    exact ⟨h, .refl _ _, rfl, fun _ hj _ ↦ hj⟩
  | cons entry rest ih =>
    obtain ⟨v, hfirst, hrest⟩ := yields_forM_cons.mp hyields
    have hv := (yields_statement.mp hfirst).symm
    have hlaws := h.others hv (hselected entry List.mem_cons_self) fun _ ↦ ⟨rfl, rfl, rfl⟩
    have hothers : OtherJobs s.1 v.1 := by
      rw [hv]
      exact otherJobs_update (hselected entry List.mem_cons_self) fun _ ↦ rfl
    obtain ⟨hlaws', hadvance, hrest'⟩ := ih hlaws.1 hrest fun entry' hentry' j hj hid ↦ by
      rw [hv] at hj
      rcases mem_update.mp hj with ⟨hj, -⟩ | ⟨j₀, hj₀, -, rfl⟩
      · exact hselected entry' (List.mem_cons_of_mem _ hentry') j hj hid
      · exact hselected entry' (List.mem_cons_of_mem _ hentry') j₀ hj₀ hid
    refine ⟨hlaws', hlaws.2.trans hadvance, ?_, fun j hj hrecompute ↦ ?_⟩
    · rw [hrest'.1, hothers.1]
    · exact hothers.2 j (hrest'.2 j hj hrecompute) hrecompute

/-- Completing a job of another kind keeps the laws. -/
theorem completeOutboxJob_laws {jobId token : Uuid} {u : Unit} {t : Database}
    (h : WorkLaws s.1 now) (hyields : Yields (completeOutboxJob jobId token now) s u t) :
    WorkLaws t.1 now ∧ Advance [] s.1 t.1 ∧ OtherJobs s.1 t.1 := by
  unfold completeOutboxJob at hyields
  simp only [yields_query_bind, yields_seq, yields_statement, yields_require] at hyields
  obtain ⟨v, hv, -, rfl⟩ := hyields
  obtain ⟨hlaws, hadvance⟩ := h.others hv.symm (fun j _ hp ↦ hp.2.1) fun _ ↦ ⟨rfl, rfl, rfl⟩
  refine ⟨hlaws, hadvance, ?_⟩
  rw [← hv]
  exact otherJobs_update (fun j _ hp ↦ hp.2.1) fun _ ↦ rfl

/-- A new request with its context and its job, if it has one. -/
structure NewRequest (row : RequestRow) (contexts : List ContextRow) (jobs : List JobRow)
    (s t : Db) : Prop where
  fresh : ∀ r ∈ s.requests, r.id ≠ row.id
  noResult : row.resultingAnalysisId = none ∧ row.proposalId = none
  shape : (row.state = .failed ∧ contexts = [] ∧ jobs = []) ∨
    (row.state = .pending ∧ (∃ c, c.requestId = row.id ∧ contexts = [c]) ∧
      ∃ j, j.recomputeRequestId = some row.id ∧ j.kind = .recompute ∧ j.state = .ready ∧
        jobs = [j])
  written : t = { s with
    requests := s.requests ++ [row]
    contexts := s.contexts ++ contexts
    jobs := s.jobs ++ jobs }

/-- A context of a new request names it. -/
theorem NewRequest.context {row : RequestRow} {contexts : List ContextRow} {jobs : List JobRow}
    {t : Db} (h : NewRequest row contexts jobs s.1 t) {c : ContextRow} (hc : c ∈ contexts) :
    c.requestId = row.id := by
  rcases h.shape with ⟨-, rfl, -⟩ | ⟨-, ⟨c', hid, rfl⟩, -⟩
  · cases hc
  · rwa [List.mem_singleton.mp hc]

/-- A job of a new request names it and is ready. -/
theorem NewRequest.job {row : RequestRow} {contexts : List ContextRow} {jobs : List JobRow}
    {t : Db} (h : NewRequest row contexts jobs s.1 t) {j : JobRow} (hj : j ∈ jobs) :
    j.recomputeRequestId = some row.id ∧ j.kind = .recompute ∧ j.state = .ready ∧
      row.state = .pending := by
  rcases h.shape with ⟨-, -, rfl⟩ | ⟨hstate, -, j', hlink, hkind, hready, rfl⟩
  · cases hj
  · rw [List.mem_singleton.mp hj]
    exact ⟨hlink, hkind, hready, hstate⟩

/-- A new request keeps the laws. -/
theorem WorkLaws.enqueued (h : WorkLaws s.1 now) {row : RequestRow} {contexts : List ContextRow}
    {jobs : List JobRow} {t : Db} (hnew : NewRequest row contexts jobs s.1 t)
    (hversion : ∃ version, s.1.profileVersion row.userId = some version ∧
      row.profileVersion ≤ version) :
    WorkLaws t now ∧ Advance [] s.1 t := by
  have hnoContext : ∀ c ∈ s.1.contexts, c.requestId ≠ row.id := by
    intro c hc hid
    obtain ⟨r, hr, hrid⟩ := s.2.requests.contextRequest c hc
    exact hnew.fresh r hr (hrid.trans hid)
  have hnoJob : ∀ j ∈ s.1.jobs, j.recomputeRequestId ≠ some row.id := by
    intro j hj hlink
    obtain ⟨r, hr, hrid⟩ := s.2.jobs.request j hj row.id hlink
    exact hnew.fresh r hr hrid
  have hcontextOld : ∀ r ∈ s.1.requests, t.hasContext r ↔ s.1.hasContext r := by
    intro r hr
    rw [hnew.written]
    constructor
    · rintro ⟨c, hc, hid⟩
      rcases List.mem_append.mp hc with hc | hc
      · exact ⟨c, hc, hid⟩
      · exact absurd (hid.symm.trans (hnew.context hc)) (hnew.fresh r hr)
    · rintro ⟨c, hc, hid⟩
      exact ⟨c, List.mem_append_left _ hc, hid⟩
  have hrequests : ∀ r, r ∈ t.requests ↔ r ∈ s.1.requests ∨ r = row := by
    intro r
    rw [hnew.written, List.mem_append, List.mem_singleton]
  have hjobs : ∀ j, j ∈ t.jobs ↔ j ∈ s.1.jobs ∨ j ∈ jobs := by
    intro j
    rw [hnew.written, List.mem_append]
  -- a job linked to an old request is an old one, and one linked to the new request is new
  have hlinkOld : ∀ r ∈ s.1.requests, ∀ j ∈ t.jobs, j.recomputeRequestId = some r.id →
      j ∈ s.1.jobs := by
    intro r hr j hj hlink
    rcases (hjobs j).mp hj with hj | hj
    · exact hj
    · exact absurd (Option.some.inj (hlink.symm.trans (hnew.job hj).1)) (hnew.fresh r hr)
  have hlinkNew : ∀ j ∈ t.jobs, j.recomputeRequestId = some row.id → j ∈ jobs := by
    intro j hj hlink
    exact ((hjobs j).mp hj).resolve_left fun hold ↦ hnoJob j hold hlink
  refine ⟨⟨?_, ?_⟩, ?_, ?_⟩
  · exact {
      withoutContext := fun r hr hnone ↦ by
        rcases (hrequests r).mp hr with hr | rfl
        · obtain ⟨hfailed, hfree⟩ := h.tracked.withoutContext r hr
            fun hc ↦ hnone ((hcontextOld r hr).mpr hc)
          exact ⟨hfailed, fun j hj hlink ↦ hfree j (hlinkOld r hr j hj hlink) hlink⟩
        · rcases hnew.shape with ⟨hfailed, -, hnoJobs⟩ | ⟨-, ⟨c, hid, hcontexts⟩, -⟩
          · refine ⟨hfailed, fun j hj hlink ↦ ?_⟩
            have hmem := hlinkNew j hj hlink
            rw [hnoJobs] at hmem
            cases hmem
          · refine absurd ⟨c, ?_, hid⟩ hnone
            rw [hnew.written, hcontexts]
            exact List.mem_append_right _ (List.mem_singleton_self c)
      job := fun r hr hcontext ↦ by
        rcases (hrequests r).mp hr with hr | rfl
        · obtain ⟨j, hj, hlink⟩ := h.tracked.job r hr ((hcontextOld r hr).mp hcontext)
          exact ⟨j, (hjobs j).mpr (.inl hj), hlink⟩
        · rcases hnew.shape with ⟨-, hcontexts, -⟩ | ⟨-, -, j, hlink, -, -, hnewJobs⟩
          · obtain ⟨c, hc, hid⟩ := hcontext
            rw [hnew.written, hcontexts, List.append_nil] at hc
            exact absurd hid (hnoContext c hc)
          · exact ⟨j, (hjobs j).mpr (.inr (hnewJobs ▸ List.mem_singleton_self j)), hlink⟩
      inStep := fun r hr j hj hlink ↦ by
        rcases (hrequests r).mp hr with hr | rfl
        · exact h.tracked.inStep r hr j (hlinkOld r hr j hj hlink) hlink
        · obtain ⟨-, hkind, hready, hstate⟩ := hnew.job (hlinkNew j hj hlink)
          refine ⟨hkind, (inStep_open ?_).mpr (.inl hready)⟩
          rw [hstate]
          decide
      results := fun r hr hset ↦ by
        rcases (hrequests r).mp hr with hr | rfl
        · exact h.tracked.results r hr hset
        · simp [hnew.noResult] at hset
      version := fun r hr ↦ by
        have hprofile : ∀ userId, t.profileVersion userId = s.1.profileVersion userId := by
          intro userId
          rw [hnew.written]
          rfl
        rw [hprofile]
        rcases (hrequests r).mp hr with hr | rfl
        · exact h.tracked.version r hr
        · exact hversion }
  · have hruns : ∀ r ∈ t.requests, t.runsUnder now r →
        r ∈ s.1.requests ∧ s.1.runsUnder now r := by
      rintro r hr ⟨hrunning, j, hj, hlink, hleased, huntil⟩
      rcases (hrequests r).mp hr with hr | rfl
      · exact ⟨hr, hrunning, j, hlinkOld r hr j hj hlink, hlink, hleased, huntil⟩
      · rcases hnew.shape with ⟨hstate, -⟩ | ⟨hstate, -⟩ <;> cases hstate.symm.trans hrunning
    intro r hr r' hr' hrunning hrunning' huser
    obtain ⟨hr, hrunning⟩ := hruns r hr hrunning
    obtain ⟨hr', hrunning'⟩ := hruns r' hr' hrunning'
    exact h.exclusive r hr r' hr' hrunning hrunning' huser
  · exact fun r hr ↦ ⟨r, (hrequests r).mpr (.inl hr), rfl, fun _ ↦ rfl⟩
  · rintro item now' - ⟨j, hj, hjob, hholds⟩
    rcases (hjobs j).mp hj with hj | hj
    · exact ⟨j, hj, hjob, hholds⟩
    · cases (hnew.job hj).2.2.1.symm.trans hholds.1

/-- Enqueueing a request that is there already changes nothing. -/
theorem enqueueJob_existing {request : RecomputeRequestCreate} {row : RequestRow}
    {draw : EnqueueDraw} {u : Unit} {t : Database} (h : Tracked s.1) (hrow : row ∈ s.1.requests)
    (hyields : Yields (enqueueJob request row draw) s u t) : t = s := by
  unfold enqueueJob at hyields
  split at hyields
  · exact (yields_pure.mp hyields).2.symm
  · rcases yields_ite.mp hyields with ⟨hpending, hyields⟩ | ⟨-, hyields⟩
    · have hcontext : s.1.hasContext row := by
        by_contra hnone
        cases hpending.symm.trans (h.withoutContext row hrow hnone).1
      obtain ⟨j, hj, hlink⟩ := h.job row hrow hcontext
      obtain ⟨c, hc, hid⟩ := hcontext
      have htaken : s.1.contexts.any (·.requestId = row.id) = true :=
        List.any_eq_true.mpr ⟨c, hc, decide_eq_true hid⟩
      obtain ⟨v, hinsert, hjob⟩ := yields_seq.mp hyields
      unfold insertContext at hinsert
      rw [yields_query_bind, if_pos htaken] at hinsert
      obtain ⟨-, rfl⟩ := yields_pure.mp hinsert
      unfold insertJob at hjob
      rw [yields_query_bind] at hjob
      rw [if_pos (List.any_eq_true.mpr ⟨j, hj, by simp [hlink]⟩)] at hjob
      simp only [yields_query_bind, yields_require] at hjob
      exact hjob.2.symm
    · exact (yields_pure.mp hyields).2.symm

/-- The row, the context and the job that enqueueing inserts. -/
theorem newRequest_enqueued {db : Db} {request : RecomputeRequestCreate} {draw : EnqueueDraw}
    (hid : ∀ r ∈ db.requests, r.id ≠ draw.requestId) :
    NewRequest (request.row draw) (request.context.toList.map (⟨draw.requestId, ·⟩))
      (request.context.toList.map fun _ ↦ request.job draw) db (db.enqueued request draw) where
  fresh := hid
  noResult := ⟨rfl, rfl⟩
  shape := by
    unfold RecomputeRequestCreate.row
    cases request.context with
    | none => exact .inl ⟨rfl, rfl, rfl⟩
    | some context => exact .inr ⟨rfl, ⟨_, rfl, rfl⟩, _, rfl, rfl, rfl, rfl⟩
  written := rfl

/-- Enqueueing inserts the new request, or changes nothing when it is there already. -/
theorem persistRecomputeRequest_new {request : RecomputeRequestCreate} {draw : EnqueueDraw}
    {snapshot : RecomputeRequestSnapshot} {t : Database} (h : Tracked s.1)
    (hyields : Yields (persistRecomputeRequest request draw) s snapshot t) :
    t = s ∨ ∃ row contexts jobs, NewRequest row contexts jobs s.1 t.1 ∧
      row.userId = request.userId ∧ row.profileVersion = request.profileVersion ∧
      ∀ c ∈ contexts, request.context = some c.payload := by
  cases hold : requestOf s.1 request with
  | none =>
    obtain ⟨hid, ht, -⟩ := persistRecomputeRequest_inserted hold hyields
    refine .inr ⟨_, _, _, ht ▸ newRequest_enqueued hid, rfl, rfl, fun c hc ↦ ?_⟩
    obtain ⟨context, hcontext, rfl⟩ := List.mem_map.mp hc
    exact Option.mem_toList.mp hcontext
  | some row =>
    unfold persistRecomputeRequest at hyields
    simp only [yields_seq, yields_query_bind, yields_demand_bind, yields_pure] at hyields
    obtain ⟨v, hinsert, row', hfound, u, hjob, -, rfl⟩ := hyields
    have hmatch := List.find?_some hold
    have htaken : s.1.requests.any (fun r ↦ r.id = draw.requestId ∨
        (r.userId = request.userId ∧ r.profileVersion = request.profileVersion ∧
          r.triggerEventId = request.triggerEventId)) = true :=
      List.any_eq_true.mpr ⟨row, List.mem_of_find?_eq_some hold,
        decide_eq_true (.inr (of_decide_eq_true hmatch))⟩
    unfold insertRequest at hinsert
    rw [yields_query_bind, if_pos htaken] at hinsert
    obtain ⟨-, rfl⟩ := yields_pure.mp hinsert
    exact .inl (enqueueJob_existing h (List.mem_of_find?_eq_some hfound) hjob)

/-- Enqueueing keeps the laws. -/
theorem persistRecomputeRequest_laws {request : RecomputeRequestCreate} {draw : EnqueueDraw}
    {snapshot : RecomputeRequestSnapshot} {t : Database} (h : WorkLaws s.1 now)
    (hversion : ∃ version, s.1.profileVersion request.userId = some version ∧
      request.profileVersion ≤ version)
    (hyields : Yields (persistRecomputeRequest request draw) s snapshot t) :
    WorkLaws t.1 now ∧ Advance [] s.1 t.1 := by
  rcases persistRecomputeRequest_new h.tracked hyields with
    rfl | ⟨row, contexts, jobs, hnew, huser, hprofileVersion, -⟩
  · exact ⟨h, .refl _ _⟩
  · rw [← huser, ← hprofileVersion] at hversion
    exact h.enqueued hnew hversion

end Steps

end Jobtology.Store
