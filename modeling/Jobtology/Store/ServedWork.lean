import Jobtology.Relational.Failure
import Jobtology.Store.WorkLaws

/-!
# Work that a claim serves

A claim succeeds, and each piece of work that it selects is handed out under a new lease, retired as
stale, or put off until later.
-/

namespace Jobtology.Store

open Jobtology.Base Jobtology.Relational
open Jobtology.Relational.Transaction

/-- A query raises nothing. -/
theorem raises_query_bind {α β : Type} {g : Db → α} {f : α → Txn β} {s : Database}
    {e : PersistenceError} : Raises (query g >>= f) s e ↔ Raises (f (g s.1)) s e :=
  raises_select_bind

/-- A statement that the constraints allow raises nothing. -/
theorem raises_statement_bind {β : Type} {f : Db → Db} {g : Unit → Txn β} {s : Database}
    {e : PersistenceError} (h : Constraints (f s.1)) :
    Raises (statement f >>= g) s e ↔ Raises (g ()) ⟨f s.1, h⟩ e :=
  raises_write_bind h

/-! ### Constraints of what workers write -/

section Constraints

variable {db : Db} (h : Constraints db)
include h

/-- Requests change in their state and their results, which have to be there. -/
theorem Constraints.updateRequests {q : RequestRow → Prop} [DecidablePred q]
    {g : RequestRow → RequestRow}
    (hkeeps : ∀ r, (g r).id = r.id ∧ (g r).userId = r.userId ∧
      (g r).profileVersion = r.profileVersion ∧ (g r).triggerEventId = r.triggerEventId)
    (hanalysis : ∀ r ∈ db.requests, ∀ id ∈ (g r).resultingAnalysisId, ∃ a ∈ db.analyses, a.id = id)
    (hproposal : ∀ r ∈ db.requests, ∀ id ∈ (g r).proposalId, ∃ p ∈ db.proposals, p.id = id) :
    Constraints { db with requests := update q g db.requests } := by
  have hids : (update q g db.requests).map (·.id) = db.requests.map (·.id) :=
    map_update fun r ↦ (hkeeps r).1
  have hset : ∀ {key : RequestRow → Option Uuid} {P : Uuid → Prop},
      (∀ r ∈ db.requests, ∀ id ∈ key r, P id) → (∀ r ∈ db.requests, ∀ id ∈ key (g r), P id) →
      ∀ r ∈ update q g db.requests, ∀ id ∈ key r, P id := by
    intro key P hold hnew r hr
    rcases mem_update.mp hr with ⟨hr, -⟩ | ⟨r₀, hr₀, -, rfl⟩
    · exact hold r hr
    · exact hnew r₀ hr₀
  exact { h with
    requests := {
      key := (unique_update fun r ↦ (hkeeps r).1).mpr h.requests.key
      user := (refers_congr (map_update fun r ↦ (hkeeps r).2.1) rfl).mpr h.requests.user
      event := (refers_congr (map_update fun r ↦ (hkeeps r).2.2.2) rfl).mpr h.requests.event
      analysis := hset h.requests.analysis hanalysis
      proposal := hset h.requests.proposal hproposal
      trigger := (unique_update fun r ↦ by
        obtain ⟨-, huser, hversion, htrigger⟩ := hkeeps r
        rw [huser, hversion, htrigger]).mpr h.requests.trigger
      contextKey := h.requests.contextKey
      contextRequest := (refers_congr rfl hids).mpr h.requests.contextRequest }
    jobs := { h.jobs with
      request := fun j hj id hid ↦ by
        obtain ⟨r, hr, hrid⟩ := h.jobs.request j hj id hid
        exact exists_mem_update ⟨r, hr, hrid⟩ fun r' hr' ↦ (hkeeps r').1.trans hr' } }

/-- Jobs change in their state and their lease. -/
theorem Constraints.updateJobs {p : JobRow → Prop} [DecidablePred p] {f : JobRow → JobRow}
    (hkeeps : ∀ j, (f j).id = j.id ∧ (f j).recomputeRequestId = j.recomputeRequestId ∧
      (f j).dedupeKey = j.dedupeKey) :
    Constraints { db with jobs := update p f db.jobs } := by
  have hlinks : (update p f db.jobs).map (·.recomputeRequestId) =
      db.jobs.map (·.recomputeRequestId) := map_update fun j ↦ (hkeeps j).2.1
  have hset : ∀ rows : List JobRow,
      (rows.filter (·.recomputeRequestId ≠ none)).map (·.recomputeRequestId) =
        (rows.map (·.recomputeRequestId)).filter (· ≠ none) := by
    intro rows
    rw [List.filter_map]
    rfl
  exact { h with
    jobs := {
      key := (unique_update fun j ↦ (hkeeps j).1).mpr h.jobs.key
      request := fun j hj id hid ↦ by
        rcases mem_update.mp hj with ⟨hj, -⟩ | ⟨j₀, hj₀, -, rfl⟩
        · exact h.jobs.request j hj id hid
        · exact h.jobs.request j₀ hj₀ id ((hkeeps j₀).2.1.symm.trans hid)
      dedupe := (unique_update fun j ↦ (hkeeps j).2.2).mpr h.jobs.dedupe
      oneJobPerRequest := by
        have hold := h.jobs.oneJobPerRequest
        unfold UniqueWhere Relational.Unique at hold ⊢
        rwa [hset, hlinks, ← hset] } }

private theorem Constraints.insertRateLimit {l : RateLimitRow}
    (hnew : ∀ l' ∈ db.rateLimits, (l'.userId, l'.scope) ≠ (l.userId, l.scope))
    (huser : ∃ u ∈ db.users, u.id = l.userId) (hcount : 1 ≤ l.requestCount) :
    Constraints { db with rateLimits := db.rateLimits ++ [l] } :=
  { h with
    rateLimits := ⟨unique_append_singleton.mpr ⟨h.rateLimits.key, hnew⟩,
      refers_append_singleton.mpr ⟨h.rateLimits.user, huser⟩,
      forall_mem_append_singleton.mpr ⟨h.rateLimits.count, hcount⟩⟩ }

private theorem Constraints.updateRateLimits {p : RateLimitRow → Prop} [DecidablePred p]
    {f : RateLimitRow → RateLimitRow}
    (hkeeps : ∀ l, (f l).userId = l.userId ∧ (f l).scope = l.scope ∧ 1 ≤ (f l).requestCount) :
    Constraints { db with rateLimits := update p f db.rateLimits } :=
  { h with
    rateLimits := {
      key := (unique_update fun l ↦ by rw [(hkeeps l).1, (hkeeps l).2.1]).mpr h.rateLimits.key
      user := (refers_congr (map_update fun l ↦ (hkeeps l).1) rfl).mpr h.rateLimits.user
      count := fun l hl ↦ by
        rcases mem_update.mp hl with ⟨hl, -⟩ | ⟨l₀, -, -, rfl⟩
        · exact h.rateLimits.count l hl
        · exact (hkeeps l₀).2.2 } }

end Constraints

/-- A statement that keeps the constraints succeeds. -/
theorem exists_yields_statement {f : Db → Db} {s : Database} (h : Constraints (f s.1)) :
    ∃ t : Database, Yields (statement f) s () t ∧ t.1 = f s.1 :=
  ⟨⟨f s.1, h⟩, yields_statement.mpr rfl, rfl⟩

/-! ### Budgets -/

section Budgets

variable {s : Database} {userId : Uuid} {now : Int}

/-- A budget is charged, or it raises how long to wait. -/
theorem reserveBudget_ends (huser : ∃ u ∈ s.1.users, u.id = userId) (scope : String) (limit : Nat)
    (unit : Int) :
    (∃ t, Yields (reserveBudget userId scope limit unit now) s () t) ∨ ∃ seconds, 1 ≤ seconds ∧
      Raises (reserveBudget userId scope limit unit now) s (.budgetExceeded seconds) := by
  unfold reserveBudget
  simp only [yields_query_bind, raises_query_bind]
  cases hcounter : s.1.rateLimits.find? fun l ↦ l.userId = userId ∧ l.scope = scope with
  | none =>
    have hnew := List.find?_eq_none.mp hcounter
    have hvalid : Constraints { s.1 with
        rateLimits := s.1.rateLimits ++ [⟨userId, scope, now - now % unit, 1⟩] } := by
      refine s.2.insertRateLimit (fun l hl heq ↦ ?_) huser (Nat.le_refl 1)
      obtain ⟨hid, hscope⟩ := Prod.mk.inj heq
      exact hnew l hl (decide_eq_true ⟨hid, hscope⟩)
    exact .inl ⟨⟨_, hvalid⟩, yields_statement.mpr rfl⟩
  | some l =>
    by_cases hroom : l.windowStartedAt < now - now % unit ∨ l.requestCount < limit
    · have hvalid : Constraints { s.1 with
          rateLimits := update (fun l ↦ l.userId = userId ∧ l.scope = scope)
            (fun l ↦ { l with
              windowStartedAt := max l.windowStartedAt (now - now % unit)
              requestCount :=
                if l.windowStartedAt < now - now % unit then 1 else l.requestCount + 1 })
            s.1.rateLimits } := by
        refine s.2.updateRateLimits fun l ↦ ⟨rfl, rfl, ?_⟩
        dsimp only
        split
        · exact Nat.le_refl 1
        · omega
      exact .inl ⟨⟨_, hvalid⟩, yields_require_bind.mpr ⟨hroom, yields_statement.mpr rfl⟩⟩
    · refine .inr ⟨_, le_max_left 1 _, raises_require_bind.mpr (.inl ⟨hroom, rfl⟩)⟩

/-- The same of both budgets of an execution. -/
theorem reserveExecution_ends (huser : ∃ u ∈ s.1.users, u.id = userId)
    (policy : AnalysisBudgetPolicy) :
    (∃ t, Yields (reserveExecution userId policy now) s () t) ∨ ∃ seconds, 1 ≤ seconds ∧
      Raises (reserveExecution userId policy now) s (.budgetExceeded seconds) := by
  unfold reserveExecution
  rcases reserveBudget_ends huser "analysis_compute_hour" policy.executionsPerHour
    (3600 * second) with ⟨v, hhour⟩ | ⟨seconds, hpos, hraises⟩
  · have hv : ∃ u ∈ v.1.users, u.id = userId := by
      rw [reserveBudget_spec hhour]
      exact huser
    rcases reserveBudget_ends hv "analysis_compute_minute" policy.executionsPerMinute
      (60 * second) with ⟨t, hminute⟩ | ⟨seconds, hpos, hraises⟩
    · exact .inl ⟨t, yields_seq.mpr ⟨v, hhour, hminute⟩⟩
    · exact .inr ⟨seconds, hpos, raises_bind.mpr (.inr ⟨(), v, hhour, hraises⟩)⟩
  · exact .inr ⟨seconds, hpos, raises_bind.mpr (.inl hraises)⟩

end Budgets

/-! ### Claiming one piece of work -/

/-- A piece of work that can be claimed: its job, its open request and its user. -/
structure Servable (db : Db) (w : JobRow × RequestRow) : Prop where
  job : ∃ j ∈ db.jobs, isClaimedJob w j
  request : ∃ r ∈ db.requests, isClaimedRequest w r
  user : ∃ u ∈ db.users, u.id = w.2.userId

/-- The work is handed out under a lease that stands, or its job is put off until later. -/
def Served (db : Db) (now : Int) (items : List RecomputeWorkItem) (token : Uuid)
    (w : JobRow × RequestRow) : Prop :=
  (workItem w token ∈ items ∧ db.holdsLease (workItem w token) now) ∨
    ∃ j ∈ db.jobs, isClaimedJob w j ∧ j.state = .ready ∧ now < j.availableAt

section Claiming

variable {s t : Database} {db : Db} {now : Int} {w w' : JobRow × RequestRow} {token token' : Uuid}
  {items : List RecomputeWorkItem} {item : Option RecomputeWorkItem}

private theorem countP_one {α : Type} {key : α → Uuid} {rows : List α} (h : Unique key rows)
    {p : α → Prop} [DecidablePred p] (hkey : ∀ a b, p a → p b → key a = key b)
    (hrow : ∃ a ∈ rows, p a) : rows.countP (p ·) = 1 := by
  obtain ⟨a, ha, hp⟩ := hrow
  have hunique : Unique key (rows.filter p) := h.sublist List.filter_sublist
  have hmem : a ∈ rows.filter p := List.mem_filter.mpr ⟨ha, decide_eq_true hp⟩
  have hsame : ∀ b ∈ rows.filter p, p b := fun b hb ↦ of_decide_eq_true (List.mem_filter.mp hb).2
  rw [List.countP_eq_length_filter]
  cases hrows : rows.filter p with
  | nil =>
    rw [hrows] at hmem
    exact absurd hmem List.not_mem_nil
  | cons b rest =>
    cases rest with
    | nil => rfl
    | cons c rest =>
      rw [hrows] at hunique hsame
      have hkeys : key b = key c := hkey b c (hsame b (by simp)) (hsame c (by simp))
      have hnodup : (key b :: key c :: rest.map key).Nodup := hunique
      rw [hkeys] at hnodup
      simp at hnodup

private theorem deferJob_serves (h : Servable s.1 w) {availableAt : Int}
    (hlater : now < availableAt) :
    ∃ t : Database, Yields (deferJob w.1.id availableAt) s () t ∧ Served t.1 now items token w := by
  obtain ⟨j, hj, hclaimed⟩ := h.job
  obtain ⟨t, ht, hwritten⟩ := exists_yields_statement (s := s) (f := fun db ↦ { db with
    jobs := update (·.id = w.1.id) (fun j ↦ { j with
      state := .ready, leaseToken := none, leaseUntil := none, availableAt := availableAt })
      db.jobs }) (s.2.updateJobs fun _ ↦ ⟨rfl, rfl, rfl⟩)
  refine ⟨t, ht, .inr ?_⟩
  rw [hwritten]
  exact ⟨_, mem_update.mpr (.inr ⟨j, hj, hclaimed.1, rfl⟩), hclaimed, rfl, hlater⟩

/-- Work that can be claimed is leased. -/
theorem leaseWork_serves (h : Servable s.1 w) (hitem : some (workItem w token) = item) :
    ∃ t : Database, Yields (leaseWork w token now) s (workItem w token) t ∧
      Served t.1 now item.toList token w := by
  obtain ⟨j, hj, hclaimed⟩ := h.job
  have hjobs : s.1.jobs.countP (isClaimedJob w ·) = 1 :=
    countP_one s.2.jobs.key (fun _ _ ha hb ↦ ha.1.trans hb.1.symm) h.job
  obtain ⟨v, hv, hleased⟩ := exists_yields_statement (s := s) (f := fun db ↦ { db with
    jobs := update (isClaimedJob w) (fun j ↦ { j with
      state := .leased
      leaseToken := some token
      leaseUntil := some (now + recomputeLeaseFor)
      attemptCount := j.attemptCount + 1 }) db.jobs }) (s.2.updateJobs fun _ ↦ ⟨rfl, rfl, rfl⟩)
  have hrequests : v.1.requests.countP (isClaimedRequest w ·) = 1 := by
    refine countP_one v.2.requests.key (fun _ _ ha hb ↦ ha.1.trans hb.1.symm) ?_
    rw [hleased]
    exact h.request
  obtain ⟨t, ht, hrunning⟩ := exists_yields_statement (s := v) (f := fun db ↦ { db with
    requests := update (isClaimedRequest w) (fun r ↦ { r with state := .running }) db.requests })
    (v.2.updateRequests (fun _ ↦ ⟨rfl, rfl, rfl, rfl⟩) v.2.requests.analysis
      v.2.requests.proposal)
  refine ⟨t, ?_, .inl ⟨by simp [← hitem], ?_⟩⟩
  · unfold leaseWork
    rw [yields_query_bind, yields_seq]
    refine ⟨v, hv, yields_require_bind.mpr ⟨hjobs, ?_⟩⟩
    rw [yields_query_bind, yields_seq]
    exact ⟨t, ht, yields_require_bind.mpr ⟨hrequests, yields_pure.mpr ⟨rfl, rfl⟩⟩⟩
  · rw [hrunning, hleased]
    refine ⟨_, mem_update.mpr (.inr ⟨j, hj, hclaimed, rfl⟩), ⟨hclaimed.1, hclaimed.2.2,
      hclaimed.2.1⟩, rfl, rfl, _, rfl, ?_⟩
    show now < now + 300 * 1000000
    omega

/-- Claiming a piece of work serves it. -/
theorem claimWork_serves (h : Servable s.1 w) (policy : AnalysisBudgetPolicy) :
    ∃ (item : Option RecomputeWorkItem) (t : Database),
      Yields (claimWork policy now token w) s item t ∧ Served t.1 now item.toList token w := by
  unfold claimWork
  simp only [yields_query_bind, yields_ite]
  by_cases hrunning : decide (s.1.alreadyRunning w.2.userId w.2.id now) = true
  · obtain ⟨t, ht, hserved⟩ := @deferJob_serves s now w token [] h (now + 5 * second)
      (by show now < now + 5 * 1000000; omega)
    exact ⟨none, t, .inl ⟨hrunning, yields_seq.mpr ⟨t, ht, yields_pure.mpr ⟨rfl, rfl⟩⟩⟩, hserved⟩
  · rcases reserveExecution_ends h.user policy with ⟨v, hreserve⟩ | ⟨seconds, hpos, hraises⟩
    · have hv : Servable v.1 w := by
        rw [reserveExecution_spec hreserve]
        exact ⟨h.job, h.request, h.user⟩
      obtain ⟨t, ht, hserved⟩ := @leaseWork_serves v now w token _ hv rfl
      refine ⟨some (workItem w token), t, .inr ⟨hrunning, yields_bind.mpr
        ⟨.ok (), v, yields_attempt.mpr (.inl ⟨(), rfl, hreserve⟩), ?_⟩⟩, hserved⟩
      exact yields_bind.mpr ⟨_, t, ht, yields_pure.mpr ⟨rfl, rfl⟩⟩
    · obtain ⟨t, ht, hserved⟩ := @deferJob_serves s now w token [] h (now + seconds * second)
        (by show now < now + seconds * 1000000; omega)
      refine ⟨none, t, .inr ⟨hrunning, yields_bind.mpr ⟨.error seconds, s,
        yields_attempt.mpr (.inr ⟨_, seconds, hraises, rfl, rfl, rfl⟩), ?_⟩⟩, hserved⟩
      exact yields_seq.mpr ⟨t, ht, yields_pure.mpr ⟨rfl, rfl⟩⟩

/-- Work stays servable when a piece of work is claimed. -/
theorem Servable.claim (h : Servable db w') {t : Db} (heffect : ClaimEffect now token w db item t) :
    Servable t w' := by
  cases heffect with
  | deferred availableAt => exact ⟨exists_mem_update h.job fun _ hj ↦ hj, h.request, h.user⟩
  | leased rateLimits hfree hjob hrequest =>
    refine ⟨exists_mem_update h.job fun _ hj ↦ hj, exists_mem_update h.request ?_, h.user⟩
    rintro r ⟨hid, huser, hversion, -⟩
    exact ⟨hid, huser, hversion, by simp⟩

/-- Work that is served stays so when another piece is claimed. -/
theorem Served.claim {t : Db} (h : Served db now items token' w')
    (heffect : ClaimEffect now token w db item t) (hother : w'.1.id ≠ w.1.id) :
    Served t now (items ++ item.toList) token' w' := by
  have hjobs : ∀ j ∈ db.jobs, j.id = w'.1.id → j ∈ t.jobs := by
    intro j hj hid
    have hne : j.id ≠ w.1.id := hid ▸ hother
    cases heffect with
    | deferred availableAt => exact mem_update.mpr (.inl ⟨hj, hne⟩)
    | leased rateLimits hfree hjob hrequest =>
      exact mem_update.mpr (.inl ⟨hj, fun hclaimed ↦ hne hclaimed.1⟩)
  rcases h with ⟨hitem, j, hj, hjob, hholds⟩ | ⟨j, hj, hclaimed, hlater⟩
  · exact .inl ⟨List.mem_append_left _ hitem, j, hjobs j hj hjob.1, hjob, hholds⟩
  · exact .inr ⟨j, hjobs j hj hclaimed.1, hclaimed, hlater⟩

/-- Claiming pieces of work with different jobs serves each of them. -/
theorem claimLoop_serves (policy : AnalysisBudgetPolicy) (token : Nat → Uuid)
    {rows : List ((JobRow × RequestRow) × Nat)} (hservable : ∀ w ∈ rows, Servable s.1 w.1)
    (hjobs : (rows.map (·.1.1.id)).Nodup) (items : List RecomputeWorkItem) :
    ∃ (items' : List RecomputeWorkItem) (t : Database),
      Yields (rows.foldlM (fun items w ↦ do
        let item ← claimWork policy now (token w.2) w.1
        return items ++ item.toList) items) s items' t ∧
      (∀ w ∈ rows, Served t.1 now items' (token w.2) w.1) ∧
      ∀ token' w', Served s.1 now items token' w' → (∀ w ∈ rows, w'.1.id ≠ w.1.1.id) →
        Served t.1 now items' token' w' := by
  induction rows generalizing s items with
  | nil => exact ⟨items, s, yields_pure.mpr ⟨rfl, rfl⟩, by simp, fun _ _ h _ ↦ h⟩
  | cons w rest ih =>
    rw [List.map_cons, List.nodup_cons] at hjobs
    obtain ⟨item, u, hclaim, hserved⟩ :=
      @claimWork_serves s now w.1 (token w.2) (hservable w List.mem_cons_self) policy
    have heffect := claimWork_spec hclaim
    obtain ⟨items', t, hloop, hrest, hkept⟩ := ih
      (fun w' hw' ↦ (hservable w' (List.mem_cons_of_mem _ hw')).claim heffect) hjobs.2
      (items ++ item.toList)
    have hother : ∀ w' ∈ rest, w.1.1.id ≠ w'.1.1.id :=
      fun w' hw' heq ↦ hjobs.1 (heq ▸ List.mem_map_of_mem hw')
    refine ⟨items', t, ?_, fun w' hw' ↦ ?_, fun token' w' hserved' hother' ↦ ?_⟩
    · rw [List.foldlM_cons]
      exact yields_bind.mpr ⟨_, u, yields_bind.mpr ⟨item, u, hclaim, yields_pure.mpr ⟨rfl, rfl⟩⟩,
        hloop⟩
    · rcases List.mem_cons.mp hw' with rfl | hw'
      · refine hkept _ _ ?_ hother
        exact hserved.imp_left fun h ↦ ⟨List.mem_append_right _ h.1, h.2⟩
      · exact hrest w' hw'
    · refine hkept _ _ (hserved'.claim heffect (hother' w List.mem_cons_self)) fun w'' hw'' ↦ ?_
      exact hother' w'' (List.mem_cons_of_mem _ hw'')

end Claiming

/-! ### A claim -/

/-- The claim takes work from all sources, skips no locked rows and has room for every job. -/
structure ClaimOptions.TakesAll (options : ClaimOptions) (db : Db) : Prop where
  sources : options.eligibleCorpusSources = none
  stale : options.lockedStale = []
  current : options.lockedCurrent = []
  limit : db.jobs.length ≤ options.limit
  batch : db.jobs.length ≤ staleRecomputeBatchLimit

/-- The request is answered: its work is handed out under a lease that stands, it is retired as
stale, or its job is put off until later. -/
def Answered (db : Db) (now : Int) (items : List RecomputeWorkItem) (r : RequestRow) : Prop :=
  (∃ item ∈ items, item.requestId = r.id ∧ db.holdsLease item now) ∨
    (∃ r' ∈ db.requests, r'.id = r.id ∧ r'.state = .failed ∧
      r'.errorCode = some "STALE_PROFILE") ∨
    ∃ j ∈ db.jobs, j.recomputeRequestId = some r.id ∧ j.state = .ready ∧ now < j.availableAt

section Claims

variable {s : Database} {db : Db} {now : Int} {j : JobRow} {r : RequestRow}
  {options : ClaimOptions} {sources : Option (List String)} {locked : List Uuid}

private theorem claimRequest_claims (h : db.claimRequest sources now j = some r) :
    j.kind = .recompute ∧ r.state ∈ [RequestState.pending, .running] := by
  unfold Db.claimRequest at h
  simp only [Option.bind_eq_bind, Option.bind_eq_some_iff] at h
  obtain ⟨id, -, request, -, context, -, h⟩ := h
  split at h
  case isTrue hclaim =>
    cases h
    exact ⟨hclaim.1, hclaim.2.1⟩
  case isFalse => cases h

private theorem mem_claimableWork_iff {w : JobRow × RequestRow} :
    w ∈ db.claimableWork sources locked now ↔
      w.1 ∈ db.jobs ∧ w.1.id ∉ locked ∧ db.claimRequest sources now w.1 = some w.2 := by
  unfold Db.claimableWork
  simp only [List.mem_filterMap, List.mem_filter, Option.map_eq_some_iff, decide_eq_true_eq]
  constructor
  · rintro ⟨j, ⟨hj, hfree⟩, r, hclaim, rfl⟩
    exact ⟨hj, hfree, hclaim⟩
  · rintro ⟨hj, hfree, hclaim⟩
    exact ⟨w.1, ⟨hj, hfree⟩, w.2, hclaim, rfl⟩

/-- Claimable work has different jobs. -/
theorem claimableWork_jobs (db : Db) (sources : Option (List String)) (locked : List Uuid)
    (now : Int) :
    ((db.claimableWork sources locked now).map (·.1.id)).Sublist (db.jobs.map (·.id)) := by
  unfold Db.claimableWork
  induction db.jobs with
  | nil => exact .slnil
  | cons j rest ih =>
    rw [List.filter_cons]
    split
    · rw [List.filterMap_cons]
      cases db.claimRequest sources now j with
      | none => exact ih.cons _
      | some r => exact ih.cons_cons _
    · exact ih.cons _

private theorem mem_currentWork {w : JobRow × RequestRow} (h : w ∈ db.currentWork options now) :
    Servable db w := by
  have hmem := List.mem_of_mem_take h
  rw [List.mem_insertionSort, List.mem_filter] at hmem
  obtain ⟨hclaimable, hcurrent⟩ := hmem
  obtain ⟨hj, hr, hlink, -⟩ := mem_claimableWork hclaimable
  obtain ⟨hkind, hstate⟩ := claimRequest_claims (mem_claimableWork_iff.mp hclaimable).2.2
  obtain ⟨u, hu, hid⟩ := List.any_eq_true.mp (of_decide_eq_true hcurrent).2
  exact ⟨⟨w.1, hj, rfl, hlink, hkind⟩, ⟨w.2, hr, rfl, rfl, rfl, hstate⟩,
    ⟨u, hu, of_decide_eq_true hid⟩⟩

private theorem currentWork_jobs (s : Database) (options : ClaimOptions) (now : Int) :
    ((s.1.currentWork options now).map (·.1.id)).Nodup := by
  have hall : ((s.1.claimableWork options.eligibleCorpusSources options.lockedCurrent now).map
      (·.1.id)).Nodup := (claimableWork_jobs _ _ _ _).nodup s.2.jobs.key
  unfold Db.currentWork
  refine List.Nodup.sublist ((List.take_sublist _ _).map _) ?_
  rw [((List.perm_insertionSort _ _).map _).nodup_iff]
  exact hall.sublist (List.filter_sublist.map _)

/-- A claim succeeds, and it serves the work that it selects. -/
theorem claimRecomputeWork_serves (s : Database) (options : ClaimOptions) (token : Nat → Uuid)
    (now : Int) :
    ∃ (items : List RecomputeWorkItem) (u t : Database),
      Yields (claimRecomputeWork options token now) s items t ∧
      u.1 = s.1.retire (s.1.staleWork options now) ∧
      (∀ w ∈ u.1.currentWork options now, ∃ i, Served t.1 now items (token i) w) ∧
      ∀ r ∈ u.1.requests, r.state = .failed → r ∈ t.1.requests := by
  obtain ⟨v, hv, hjobs⟩ := exists_yields_statement (s := s) (f := fun db ↦ { db with
    jobs := update (·.id ∈ (s.1.staleWork options now).map (·.1.id)) (·.complete) db.jobs })
    (s.2.updateJobs fun _ ↦ ⟨rfl, rfl, rfl⟩)
  obtain ⟨u, hu, hrequests⟩ := exists_yields_statement (s := v) (f := fun db ↦ { db with
    requests := update (·.id ∈ (s.1.staleWork options now).map (·.2.id))
      (·.fail "STALE_PROFILE") db.requests })
    (v.2.updateRequests (fun _ ↦ ⟨rfl, rfl, rfl, rfl⟩) v.2.requests.analysis
      v.2.requests.proposal)
  have hretire : Yields (retireStale options now) s () u := by
    unfold retireStale
    rw [yields_query_bind]
    exact yields_seq.mpr ⟨v, hv, hu⟩
  have hservable : ∀ w ∈ (u.1.currentWork options now).zipIdx, Servable u.1 w.1 :=
    fun w hw ↦ mem_currentWork (List.fst_mem_of_mem_zipIdx hw)
  have hdifferent : ((u.1.currentWork options now).zipIdx.map (·.1.1.id)).Nodup := by
    have hfirst : (u.1.currentWork options now).zipIdx.map (·.1.1.id) =
        (u.1.currentWork options now).map (·.1.id) := by
      rw [← List.zipIdx_map_fst 0 (u.1.currentWork options now), List.map_map, List.zipIdx_map_fst]
      rfl
    rw [hfirst]
    exact currentWork_jobs u options now
  obtain ⟨items, t, hloop, hserved, -⟩ :=
    claimLoop_serves options.policy token hservable hdifferent []
  refine ⟨items, u, t, ?_, retireStale_spec hretire, fun w hw ↦ ?_, fun r hr hfailed ↦ ?_⟩
  · unfold claimRecomputeWork
    refine yields_seq.mpr ⟨u, hretire, ?_⟩
    rw [yields_query_bind]
    exact hloop
  · obtain ⟨i, hi⟩ := List.mem_iff_getElem?.mp hw
    have hmem : (w, i) ∈ (u.1.currentWork options now).zipIdx := List.mem_zipIdx_iff_getElem?.mpr hi
    exact ⟨i, hserved (w, i) hmem⟩
  · -- no piece of work that is claimed has a request that failed
    refine claimLoop_induction (P := fun v _ ↦ r ∈ v.1.requests) ?_ hr hloop
    intro w _ v v' _ item hmem heffect
    generalize v'.1 = db' at heffect
    cases heffect with
    | deferred availableAt => exact hmem
    | leased rateLimits hfree hjob hrequest =>
      refine mem_update.mpr (.inl ⟨hmem, fun hclaimed ↦ ?_⟩)
      have hstate := hclaimed.2.2.2
      rw [hfailed] at hstate
      simp at hstate

private theorem length_claimableWork_le (db : Db) (sources : Option (List String))
    (locked : List Uuid) (now : Int) :
    (db.claimableWork sources locked now).length ≤ db.jobs.length := by
  have hlength := (claimableWork_jobs db sources locked now).length_le
  rwa [List.length_map, List.length_map] at hlength

private theorem mem_staleWork_of_behind {s : Database} (htakes : options.TakesAll s.1)
    (hj : j ∈ s.1.jobs) (hclaim : s.1.claimRequest none now j = some r) {version : Nat}
    (hversion : s.1.profileVersion r.userId = some version) (hlt : r.profileVersion < version) :
    (j, r) ∈ s.1.staleWork options now := by
  unfold Db.staleWork
  rw [List.take_of_length_le]
  · rw [List.mem_insertionSort, List.mem_filter, htakes.sources, htakes.stale]
    exact ⟨mem_claimableWork_iff.mpr ⟨hj, List.not_mem_nil, hclaim⟩,
      decide_eq_true ⟨version, hversion, hlt⟩⟩
  · rw [List.length_insertionSort]
    exact (List.length_filter_le _ _).trans
      ((length_claimableWork_le _ _ _ _).trans htakes.batch)

private theorem notMem_staleWork_of_current {s : Database} (hr : r ∈ s.1.requests)
    (hversion : s.1.profileVersion r.userId = some r.profileVersion) :
    r.id ∉ (s.1.staleWork options now).map (·.2.id) := by
  intro hmem
  obtain ⟨w, hw, hid⟩ := List.mem_map.mp hmem
  obtain rfl : w.2 = r := s.2.requests.key.eq_of_mem (mem_staleWork hw).2.1 hr hid
  have hstale := List.mem_of_mem_take hw
  rw [List.mem_insertionSort, List.mem_filter] at hstale
  obtain ⟨later, hlater, hlt⟩ := of_decide_eq_true hstale.2
  rw [Option.mem_def, hversion] at hlater
  obtain rfl := Option.some.inj hlater
  omega

private theorem claimRequest_retired {s u : Database} {stale : List (JobRow × RequestRow)}
    (hu : u.1 = s.1.retire stale) (hr : r ∈ s.1.requests) (hru : r ∈ u.1.requests)
    (hclaim : s.1.claimRequest none now j = some r) :
    u.1.claimRequest none now j = some r := by
  obtain ⟨-, hlink, -⟩ := claimRequest_spec hclaim
  have hcontexts : u.1.contexts = s.1.contexts := by rw [hu]; rfl
  have hold : lookup (·.id) s.1.requests r.id = some r :=
    (lookup_eq_some s.2.requests.key).mpr ⟨hr, rfl⟩
  have hnew : lookup (·.id) u.1.requests r.id = some r :=
    (lookup_eq_some u.2.requests.key).mpr ⟨hru, rfl⟩
  unfold Db.claimRequest at hclaim ⊢
  rw [hlink] at hclaim ⊢
  simp only [Option.bind_eq_bind, Option.bind_some, hold, hnew, hcontexts] at hclaim ⊢
  exact hclaim

private theorem mem_currentWork_of_retired {s u : Database}
    {stale : List (JobRow × RequestRow)} (hu : u.1 = s.1.retire stale)
    (htakes : options.TakesAll s.1) (hr : r ∈ s.1.requests) (hju : j ∈ u.1.jobs)
    (hclaim : u.1.claimRequest none now j = some r)
    (hversion : s.1.profileVersion r.userId = some r.profileVersion) :
    (j, r) ∈ u.1.currentWork options now := by
  unfold Db.currentWork
  rw [List.take_of_length_le]
  · rw [List.mem_insertionSort, List.mem_filter, htakes.sources, htakes.current]
    refine ⟨mem_claimableWork_iff.mpr ⟨hju, List.not_mem_nil, hclaim⟩, decide_eq_true ⟨?_, ?_⟩⟩
    · have hprofiles : u.1.profileVersion r.userId = s.1.profileVersion r.userId := by
        rw [hu]; rfl
      rw [hprofiles, hversion]
    · obtain ⟨user, huser, hid⟩ := s.2.requests.user r hr
      rw [List.any_eq_true]
      refine ⟨user, ?_, decide_eq_true hid⟩
      rw [hu]
      exact huser
  · rw [List.length_insertionSort]
    apply (List.length_filter_le _ _).trans
    apply (length_claimableWork_le _ _ _ _).trans
    rw [hu]
    exact (length_update ..).trans_le htakes.limit

/-- Work whose job can be claimed is answered by a claim that takes all. -/
theorem claim_answers {s : Database} (h : WorkLaws s.1 now) (hr : r ∈ s.1.requests)
    (hj : j ∈ s.1.jobs) (hclaim : s.1.claimRequest none now j = some r)
    (htakes : options.TakesAll s.1) (token : Nat → Uuid) :
    ∃ (items : List RecomputeWorkItem) (t : Database),
      Yields (claimRecomputeWork options token now) s items t ∧ Answered t.1 now items r := by
  obtain ⟨items, u, t, hyields, hu, hserved, hfailed⟩ :=
    claimRecomputeWork_serves s options token now
  refine ⟨items, t, hyields, ?_⟩
  obtain ⟨-, hlink, -⟩ := claimRequest_spec hclaim
  obtain ⟨version, hversion, hle⟩ := h.tracked.version r hr
  rcases Nat.lt_or_eq_of_le hle with hlt | rfl
  · -- the profile has moved on
    have hstale := mem_staleWork_of_behind htakes hj hclaim hversion hlt
    refine .inr (.inl ⟨r.fail "STALE_PROFILE", hfailed _ ?_ rfl, rfl, rfl, rfl⟩)
    rw [hu]
    exact mem_update.mpr (.inr ⟨r, hr, List.mem_map_of_mem (f := (·.2.id)) hstale, rfl⟩)
  · -- the work is for the current version, so that it is not retired
    have hfresh : r.id ∉ (s.1.staleWork options now).map (·.2.id) :=
      notMem_staleWork_of_current hr hversion
    have hfreshJob : j.id ∉ (s.1.staleWork options now).map (·.1.id) :=
      fun hmem ↦ hfresh ((stale_pair (fun _ hw ↦ mem_staleWork hw) r hr j hj hlink).mp hmem)
    have hju : j ∈ u.1.jobs := by
      rw [hu]
      exact mem_update.mpr (.inl ⟨hj, hfreshJob⟩)
    have hru : r ∈ u.1.requests := by
      rw [hu]
      exact mem_update.mpr (.inl ⟨hr, hfresh⟩)
    have hcurrent := mem_currentWork_of_retired hu htakes hr hju
      (claimRequest_retired hu hr hru hclaim) hversion
    obtain ⟨i, hitem | ⟨j', hj', hclaimed, hready⟩⟩ := hserved _ hcurrent
    · exact .inl ⟨_, hitem.1, rfl, hitem.2⟩
    · exact .inr (.inr ⟨j', hj', hclaimed.2.1, hready⟩)

end Claims

end Jobtology.Store
