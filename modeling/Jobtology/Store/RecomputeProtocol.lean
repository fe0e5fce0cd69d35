import Jobtology.Relational.Runs
import Jobtology.Store.ServedWork

/-!
# The recompute work protocol

Any number of users and workers that enqueue, claim, settle and lose recompute work, in any order
of whole transactions.
-/

namespace Jobtology.Store

open Jobtology.Base Jobtology.Relational
open Jobtology.Relational.Transaction

/-- The database with its clock, and the work handed out so far. -/
structure RecomputeSystem where
  db : Database
  now : Int
  leases : List RecomputeWorkItem

/-- What happens next. -/
inductive RecomputeAction
  | enqueue (request : RecomputeRequestCreate) (draw : EnqueueDraw)
  | claim (options : ClaimOptions) (token : Nat → Uuid)
  | claimOthers (limit : Nat) (leaseFor : Int) (locked : List Uuid) (token : Nat → Uuid)
  | completeOther (jobId leaseToken : Uuid)
  /-- A worker finalizes, by its own clock. -/
  | finalize (item : RecomputeWorkItem) (artifacts : RecomputeArtifacts) (clock : Int)
  /-- A worker gives up, by its own clock. -/
  | fail (item : RecomputeWorkItem) (errorCode : String) (clock : Int)
  | bump (userId : Uuid) (expectedVersion : Nat)
  /-- Time passes. -/
  | wait (now : Int)
  /-- Any other transaction. -/
  | outside (db : Database)

/-- Other transactions leave requests and jobs alone, and profiles keep or raise their version. -/
def WorkKept (s t : Db) : Prop :=
  t.requests = s.requests ∧ t.contexts = s.contexts ∧ t.jobs = s.jobs ∧
    ∀ p ∈ s.profiles, ∃ p' ∈ t.profiles, p'.userId = p.userId ∧ p.version ≤ p'.version

instance (s t : Db) : Decidable (WorkKept s t) := inferInstanceAs (Decidable (_ ∧ _ ∧ _ ∧ _))

/-- A request is enqueued for a version that the profile has reached. -/
def RecomputeRequestCreate.Reached (request : RecomputeRequestCreate) (db : Db) : Prop :=
  ∃ version ∈ db.profileVersion request.userId, request.profileVersion ≤ version

instance (request : RecomputeRequestCreate) (db : Db) : Decidable (request.Reached db) :=
  inferInstanceAs (Decidable (∃ version ∈ db.profileVersion request.userId, _))

namespace RecomputeSystem

/-- The tokens that a claim draws are new. -/
def Fresh (s : RecomputeSystem) (options : ClaimOptions) (token : Nat → Uuid) : Prop :=
  ∀ item ∈ s.leases, item.leaseToken ∉ (List.range options.limit).map token

instance (s : RecomputeSystem) (options : ClaimOptions) (token : Nat → Uuid) :
    Decidable (s.Fresh options token) :=
  inferInstanceAs (Decidable (∀ item ∈ s.leases, _))

/-- A claim, with the work it hands out. -/
def claimed (s : RecomputeSystem) (options : ClaimOptions) (token : Nat → Uuid) :
    RecomputeSystem :=
  match (claimRecomputeWork options token s.now).run s.db with
  | .ok (items, db) => { s with db := db, leases := items ++ s.leases }
  | .error _ => s

/-- One action. -/
def apply (s : RecomputeSystem) : RecomputeAction → RecomputeSystem
  | .enqueue request draw =>
    if request.Reached s.db.1 then
      { s with db := (persistRecomputeRequest request draw).commit s.db }
    else s
  | .claim options token => if s.Fresh options token then s.claimed options token else s
  | .claimOthers limit leaseFor locked token => { s with
    db := (claimOutboxJobs limit leaseFor locked token s.now).commit s.db }
  | .completeOther jobId leaseToken => { s with
    db := (completeOutboxJob jobId leaseToken s.now).commit s.db }
  | .finalize item artifacts clock => { s with
    db := (finalizeRecompute item artifacts clock s.now).commit s.db }
  | .fail item errorCode clock => { s with
    db := (failRecompute item errorCode clock s.now).commit s.db }
  | .bump userId expectedVersion => { s with
    db := (bumpProfile userId expectedVersion).commit s.db }
  | .wait now => { s with now := max s.now now }
  | .outside db => if WorkKept s.db.1 db.1 then { s with db := db } else s

/-- What an action records, with the request it is for. -/
def recordedBy (s : RecomputeSystem) : RecomputeAction → List (Uuid × RecomputeArtifacts)
  | .finalize item artifacts clock =>
    if ((finalizeRecompute item artifacts clock s.now).run s.db).isOk = true then
      [(item.requestId, artifacts)]
    else []
  | _ => []

/-- What a run records, with the requests it is for. -/
def recorded : RecomputeSystem → List RecomputeAction → List (Uuid × RecomputeArtifacts)
  | _, [] => []
  | s, action :: rest => s.recordedBy action ++ recorded (s.apply action) rest

/-! ### One action -/

/-- What every action does: the laws stay, time does not go back, work that was handed out stays
so, and no lease of it comes back. -/
structure Step (s t : RecomputeSystem) : Prop where
  laws : WorkLaws t.db.1 t.now
  time : s.now ≤ t.now
  leases : ∀ item ∈ s.leases, item ∈ t.leases
  advance : ∃ tokens, (∀ item ∈ s.leases, item.leaseToken ∉ tokens) ∧
    Advance tokens s.db.1 t.db.1

private theorem workLaws_later {db : Db} {now later : Int} (h : WorkLaws db now)
    (hle : now ≤ later) :
    WorkLaws db later := by
  refine ⟨h.tracked, fun r hr r' hr' hruns hruns' ↦ ?_⟩
  have hearlier : ∀ x, db.runsUnder later x → db.runsUnder now x := by
    rintro x ⟨hrunning, j, hj, hlink, hleased, until_, huntil, hlt⟩
    exact ⟨hrunning, j, hj, hlink, hleased, until_, huntil, by omega⟩
  exact h.exclusive r hr r' hr' (hearlier r hruns) (hearlier r' hruns')

/-- A transaction that leaves the work keeps its laws. -/
theorem workLaws_kept {s t : Database} {now : Int} (h : WorkLaws s.1 now)
    (hkept : WorkKept s.1 t.1) : WorkLaws t.1 now ∧ Advance [] s.1 t.1 := by
  obtain ⟨hrequests, hcontexts, hjobs, hprofiles⟩ := hkept
  have hcontext : ∀ r, t.1.hasContext r ↔ s.1.hasContext r := by
    intro r
    rw [Db.hasContext, hcontexts]
    rfl
  have hruns : ∀ r, t.1.runsUnder now r ↔ s.1.runsUnder now r := by
    intro r
    rw [Db.runsUnder, hjobs]
    rfl
  refine ⟨⟨?_, ?_⟩, ?_, ?_⟩
  · exact {
      withoutContext := fun r hr hnone ↦ by
        rw [hjobs]
        exact h.tracked.withoutContext r (hrequests ▸ hr) fun hc ↦ hnone ((hcontext r).mpr hc)
      job := fun r hr hc ↦ by
        rw [hjobs]
        exact h.tracked.job r (hrequests ▸ hr) ((hcontext r).mp hc)
      inStep := fun r hr j hj ↦ h.tracked.inStep r (hrequests ▸ hr) j (hjobs ▸ hj)
      results := fun r hr ↦ h.tracked.results r (hrequests ▸ hr)
      version := fun r hr ↦ by
        obtain ⟨version, hversion, hle⟩ := h.tracked.version r (hrequests ▸ hr)
        obtain ⟨p, hp, rfl⟩ := Option.map_eq_some_iff.mp hversion
        obtain ⟨hmem, huser⟩ := lookup_some hp
        obtain ⟨p', hmem', huser', hle'⟩ := hprofiles p hmem
        refine ⟨p'.version, ?_, by omega⟩
        have hfound : lookup (·.userId) t.1.profiles r.userId = some p' :=
          (lookup_eq_some t.2.accounts.profilesKey).mpr ⟨hmem', huser'.trans huser⟩
        rw [Db.profileVersion, hfound]
        rfl }
  · intro r hr r' hr' hrunning hrunning'
    rw [hrequests] at hr hr'
    exact h.exclusive r hr r' hr' ((hruns r).mp hrunning) ((hruns r').mp hrunning')
  · exact fun r hr ↦ ⟨r, hrequests ▸ hr, rfl, fun _ ↦ rfl⟩
  · rintro item now' - ⟨j, hj, hholds⟩
    exact ⟨j, hjobs ▸ hj, hholds⟩

/-- A new profile version leaves the work. -/
theorem workKept_bump {userId : Uuid} {version : Nat} {s t : Database} {u : Unit}
    (h : Yields (bumpProfile userId version) s u t) : WorkKept s.1 t.1 := by
  obtain ⟨-, ht⟩ := bumpProfile_spec h
  rw [ht]
  refine ⟨rfl, rfl, rfl, fun p hp ↦ ?_⟩
  by_cases hmatch : p.userId = userId ∧ p.version = version
  · exact ⟨_, mem_update.mpr (.inr ⟨p, hp, hmatch, rfl⟩), rfl, Nat.le_succ _⟩
  · exact ⟨p, mem_update.mpr (.inl ⟨hp, hmatch⟩), rfl, le_rfl⟩

private theorem claimed_step {s : RecomputeSystem} (h : WorkLaws s.db.1 s.now)
    {options : ClaimOptions} {token : Nat → Uuid} (hfresh : s.Fresh options token) :
    Step s (s.claimed options token) := by
  unfold claimed
  split
  · next items db hrun =>
    obtain ⟨hlaws, hadvance, -⟩ := claimRecomputeWork_laws h hrun
    exact ⟨hlaws, le_rfl, fun item hitem ↦ List.mem_append_right _ hitem, _, hfresh, hadvance⟩
  · exact ⟨h, le_rfl, fun _ ↦ id, [], fun _ _ ↦ List.not_mem_nil, .refl _ _⟩

/-- A transaction that keeps the laws and hands out nothing. -/
theorem commit_step {s : RecomputeSystem} {α : Type} {x : Txn α}
    (h : WorkLaws s.db.1 s.now)
    (hkeeps : ∀ {a t}, Yields x s.db a t → WorkLaws t.1 s.now ∧ Advance [] s.db.1 t.1) :
    Step s { s with db := x.commit s.db } := by
  have hlaws : WorkLaws (x.commit s.db).1 s.now ∧ Advance [] s.db.1 (x.commit s.db).1 := by
    rcases commit_cases x s.db with heq | ⟨a, hyields⟩
    · rw [heq]
      exact ⟨h, .refl _ _⟩
    · exact hkeeps hyields
  exact ⟨hlaws.1, le_rfl, fun _ ↦ id, [], fun _ _ ↦ List.not_mem_nil, hlaws.2⟩

/-- Every action is a step. -/
theorem apply_step {s : RecomputeSystem} (h : WorkLaws s.db.1 s.now) (action : RecomputeAction) :
    Step s (s.apply action) := by
  have hrefl : Step s s := ⟨h, le_rfl, fun _ ↦ id, [], fun _ _ ↦ List.not_mem_nil, .refl _ _⟩
  cases action with
  | enqueue request draw =>
    simp only [apply]
    split
    · next hreached =>
      refine commit_step h fun hyields ↦ persistRecomputeRequest_laws h ?_ hyields
      obtain ⟨version, hversion, hle⟩ := hreached
      exact ⟨version, hversion, hle⟩
    · exact hrefl
  | claim options token =>
    simp only [apply]
    split
    · next hfresh => exact claimed_step h hfresh
    · exact hrefl
  | claimOthers limit leaseFor locked token =>
    refine commit_step h fun hyields ↦ ?_
    obtain ⟨hlaws, hadvance, -⟩ := claimOutboxJobs_laws h hyields
    exact ⟨hlaws, hadvance⟩
  | completeOther jobId leaseToken =>
    refine commit_step h fun hyields ↦ ?_
    obtain ⟨hlaws, hadvance, -⟩ := completeOutboxJob_laws h hyields
    exact ⟨hlaws, hadvance⟩
  | finalize item artifacts clock =>
    exact commit_step h fun hyields ↦ h.finalized (finalizeRecompute_spec hyields)
  | fail item errorCode clock =>
    refine commit_step h fun hyields ↦ ?_
    rcases failRecompute_spec hyields with rfl | hfailed
    · exact ⟨h, .refl _ _⟩
    · exact h.failed hfailed
  | bump userId expectedVersion =>
    exact commit_step h fun hyields ↦ workLaws_kept h (workKept_bump hyields)
  | wait now =>
    have hle : s.now ≤ max s.now now := le_max_left _ _
    exact ⟨workLaws_later h hle, hle, fun _ ↦ id, [], fun _ _ ↦ List.not_mem_nil, .refl _ _⟩
  | outside db =>
    simp only [apply]
    split
    · next hkept =>
      obtain ⟨hlaws, hadvance⟩ := workLaws_kept h hkept
      exact ⟨hlaws, le_rfl, fun _ ↦ id, [], fun _ _ ↦ List.not_mem_nil, hadvance⟩
    · exact hrefl

/-! ### Runs -/

/-- From one point of a run to a later one: settled requests stay as they are, and leases of work
handed out before that are lost stay lost. -/
structure Since (s t : RecomputeSystem) : Prop where
  laws : WorkLaws t.db.1 t.now
  requests : ∀ r ∈ s.db.1.requests, r.state.Settled → r ∈ t.db.1.requests
  leases : ∀ item ∈ s.leases, ¬ s.db.1.holdsLease item s.now →
    item ∈ t.leases ∧ ¬ t.db.1.holdsLease item t.now

private theorem holdsLease_earlier {db : Db} {item : RecomputeWorkItem} {now later : Int}
    (h : db.holdsLease item later) (hle : now ≤ later) : db.holdsLease item now := by
  obtain ⟨j, hj, hjob, hleased, htoken, until_, huntil, hlt⟩ := h
  exact ⟨j, hj, hjob, hleased, htoken, until_, huntil, by omega⟩

private theorem run_since {s : RecomputeSystem} (h : WorkLaws s.db.1 s.now)
    (actions : List RecomputeAction) : Since s (run apply s actions) := by
  refine run_induction (P := Since s) (fun t action ht ↦ ?_) ?_ actions
  · have hstep := apply_step ht.laws action
    obtain ⟨tokens, hfresh, hadvance⟩ := hstep.advance
    refine ⟨hstep.laws, fun r hr hsettled ↦ ?_, fun item hitem hlost ↦ ?_⟩
    · obtain ⟨r', hr', -, hsame⟩ := hadvance.requests r (ht.requests r hr hsettled)
      exact hsame hsettled ▸ hr'
    · obtain ⟨hmem, hlost⟩ := ht.leases item hitem hlost
      refine ⟨hstep.leases item hmem, fun hholds ↦ hlost ?_⟩
      exact hadvance.leases item t.now (hfresh item hmem)
        (holdsLease_earlier hholds hstep.time)
  · exact ⟨h, fun _ hr _ ↦ hr, fun _ hitem hlost ↦ ⟨hitem, hlost⟩⟩

/-- The laws hold before the first action. -/
theorem workLaws_start : WorkLaws Database.empty.1 0 := by
  have hnone {α : Type} {P : α → Prop} : ∀ x ∈ ([] : List α), P x := fun _ hx ↦
    absurd hx List.not_mem_nil
  exact ⟨⟨hnone, hnone, hnone, hnone, hnone⟩, hnone⟩

/-! ### Records -/

/-- The request holds the result of a finalization. -/
def HoldsResult (r : RequestRow) (record : Uuid × RecomputeArtifacts) : Prop :=
  r.id = record.1 ∧ r.state = .ready ∧ r.resultingAnalysisId = some record.2.analysis.id ∧
    r.proposalId = record.2.proposal.map (·.id)

private theorem mem_recordedBy {s : RecomputeSystem} {action : RecomputeAction}
    {record : Uuid × RecomputeArtifacts} (h : record ∈ s.recordedBy action) :
    ∃ item : RecomputeWorkItem, record.1 = item.requestId ∧
      Finalized item record.2 s.now s.db.1 (s.apply action).db.1 ∧
      s.recordedBy action = [record] := by
  cases action with
  | finalize item artifacts clock =>
    simp only [recordedBy] at h ⊢
    split at h
    · next hok =>
      obtain rfl := List.mem_singleton.mp h
      obtain ⟨result, hyields⟩ := yields_of_isOk hok
      exact ⟨item, rfl, finalizeRecompute_spec hyields, if_pos hok⟩
    · cases h
  | _ => cases h

private theorem finalized_holdsResult {item : RecomputeWorkItem} {artifacts : RecomputeArtifacts}
    {clock : Int} {s t : Db} (h : Finalized item artifacts clock s t) :
    ∃ r ∈ t.requests, HoldsResult r (item.requestId, artifacts) := by
  obtain ⟨r, hr, hid, hstate, -⟩ := h.running
  refine ⟨artifacts.settle r, ?_, hid, rfl, rfl, rfl⟩
  rw [h.written]
  exact mem_update.mpr (.inr ⟨r, hr, ⟨hid, hstate⟩, rfl⟩)

/-- Nothing is recorded for a settled request. -/
theorem recorded_settled {s : RecomputeSystem} {r : RequestRow}
    (h : WorkLaws s.db.1 s.now) (hr : r ∈ s.db.1.requests) (hsettled : r.state.Settled)
    (actions : List RecomputeAction) : ∀ record ∈ recorded s actions, record.1 ≠ r.id := by
  induction actions generalizing s with
  | nil => exact fun _ hrecord ↦ absurd hrecord List.not_mem_nil
  | cons action rest ih =>
    intro record hrecord hid
    rcases List.mem_append.mp hrecord with hrecord | hrecord
    · obtain ⟨item, hitem, hfinal, -⟩ := mem_recordedBy hrecord
      obtain ⟨r', hr', hid', hrunning, -⟩ := hfinal.running
      obtain rfl := s.db.2.requests.key.eq_of_mem hr hr' ((hid.symm.trans hitem).trans hid'.symm)
      rw [hrunning] at hsettled
      rcases hsettled with hsettled | hsettled <;> cases hsettled
    · have hlater := run_since h [action]
      exact ih hlater.laws (hlater.requests r hr hsettled) record hrecord hid

/-- At most one result is recorded for a request. -/
theorem recorded_once {s : RecomputeSystem} (h : WorkLaws s.db.1 s.now) (requestId : Uuid)
    (actions : List RecomputeAction) :
    (recorded s actions).countP (·.1 = requestId) ≤ 1 := by
  induction actions generalizing s with
  | nil => exact Nat.zero_le _
  | cons action rest ih =>
    have hlaws := (apply_step h action).laws
    rw [recorded, List.countP_append]
    by_cases hhere : ∃ record ∈ s.recordedBy action, record.1 = requestId
    · obtain ⟨record, hrecord, rfl⟩ := hhere
      obtain ⟨item, hitem, hfinal, honly⟩ := mem_recordedBy hrecord
      obtain ⟨r, hr, hid, hready, -⟩ := finalized_holdsResult hfinal
      have hnone : (recorded (s.apply action) rest).countP (·.1 = record.1) = 0 := by
        rw [List.countP_eq_zero]
        intro later hlater
        have hne := recorded_settled hlaws hr (.inl hready) rest later hlater
        rw [decide_eq_true_eq, hitem]
        exact fun heq ↦ hne (heq.trans hid.symm)
      rw [hnone, honly]
      exact List.countP_le_length
    · have hnone : (s.recordedBy action).countP (·.1 = requestId) = 0 := by
        rw [List.countP_eq_zero]
        exact fun record hrecord heq ↦ hhere ⟨record, hrecord, of_decide_eq_true heq⟩
      rw [hnone, Nat.zero_add]
      exact ih hlaws

/-- Every record is the result of its request. -/
theorem recorded_holds {s : RecomputeSystem} (h : WorkLaws s.db.1 s.now)
    (actions : List RecomputeAction) :
    ∀ record ∈ recorded s actions,
      ∃ r ∈ (run apply s actions).db.1.requests, HoldsResult r record := by
  induction actions generalizing s with
  | nil => exact fun _ hrecord ↦ absurd hrecord List.not_mem_nil
  | cons action rest ih =>
    intro record hrecord
    have hlaws := (apply_step h action).laws
    rcases List.mem_append.mp hrecord with hrecord | hrecord
    · obtain ⟨item, hitem, hfinal, -⟩ := mem_recordedBy hrecord
      obtain ⟨r, hr, hid, hready, hresult⟩ := finalized_holdsResult hfinal
      exact ⟨r, (run_since hlaws rest).requests r hr (.inl hready), hid.trans hitem.symm, hready,
        hresult⟩
    · exact ih hlaws record hrecord

/-- Both databases have the same analyses and proposals. -/
def SameRecords (s t : Db) : Prop := t.analyses = s.analyses ∧ t.proposals = s.proposals

private theorem commit_sameRecords {s : Database} {α : Type} {x : Txn α}
    (h : ∀ {a t}, Yields x s a t → SameRecords s.1 t.1) : SameRecords s.1 (x.commit s).1 := by
  rcases commit_cases x s with heq | ⟨a, hyields⟩
  · rw [heq]
    exact ⟨rfl, rfl⟩
  · exact h hyields

private theorem sameRecords_of_onlyWork {s t : Db} (h : OnlyWork s t) : SameRecords s t := by
  unfold OnlyWork at h
  rw [h]
  exact ⟨rfl, rfl⟩

private theorem apply_sameRecords {s : RecomputeSystem} (h : WorkLaws s.db.1 s.now)
    (action : RecomputeAction) (hinside : ∀ db, action ≠ .outside db)
    (hother : ∀ item artifacts clock, action ≠ .finalize item artifacts clock) :
    SameRecords s.db.1 (s.apply action).db.1 := by
  have hrefl : SameRecords s.db.1 s.db.1 := ⟨rfl, rfl⟩
  cases action with
  | enqueue request draw =>
    simp only [apply]
    split
    · refine commit_sameRecords fun hyields ↦ ?_
      have hframe := (persistRecomputeRequest_frame request draw _ _ _ hyields).others
      rw [SameRecords, hframe]
      exact hrefl
    · exact hrefl
  | claim options token =>
    simp only [apply]
    split
    · unfold claimed
      split
      · next hrun => exact sameRecords_of_onlyWork (claimRecomputeWork_laws h hrun).2.2
      · exact hrefl
    · exact hrefl
  | claimOthers limit leaseFor locked token =>
    exact commit_sameRecords fun hyields ↦
      sameRecords_of_onlyWork (claimOutboxJobs_laws h hyields).2.2.onlyWork
  | completeOther jobId leaseToken =>
    exact commit_sameRecords fun hyields ↦
      sameRecords_of_onlyWork (completeOutboxJob_laws h hyields).2.2.onlyWork
  | finalize item artifacts clock => exact absurd rfl (hother item artifacts clock)
  | fail item errorCode clock =>
    refine commit_sameRecords fun hyields ↦ ?_
    rcases failRecompute_spec hyields with rfl | hfailed
    · exact hrefl
    · rw [SameRecords, hfailed.written]
      exact hrefl
  | bump userId expectedVersion =>
    refine commit_sameRecords fun hyields ↦ ?_
    rw [SameRecords, (bumpProfile_spec hyields).2]
    exact hrefl
  | wait now => exact hrefl
  | outside db => exact absurd rfl (hinside db)

/-- Nothing but a recorded result adds an analysis or a proposal. -/
theorem apply_records {s : RecomputeSystem} (h : WorkLaws s.db.1 s.now) (action : RecomputeAction)
    (hinside : ∀ db, action ≠ .outside db) :
    (s.apply action).db.1.analyses =
        s.db.1.analyses ++ (s.recordedBy action).map (·.2.analysis) ∧
      (s.apply action).db.1.proposals =
        s.db.1.proposals ++ (s.recordedBy action).flatMap (·.2.proposal.toList) := by
  by_cases hfinalize : ∃ item artifacts clock, action = .finalize item artifacts clock
  · obtain ⟨item, artifacts, clock, rfl⟩ := hfinalize
    simp only [recordedBy, apply]
    split
    · next hok =>
      obtain ⟨result, hyields⟩ := yields_of_isOk hok
      rw [(finalizeRecompute_spec hyields).written]
      simp
    · next hfails => simp [commit_of_not_isOk hfails]
  · have hother : ∀ item artifacts clock, action ≠ .finalize item artifacts clock :=
      fun item artifacts clock heq ↦ hfinalize ⟨item, artifacts, clock, heq⟩
    obtain ⟨hanalyses, hproposals⟩ := apply_sameRecords h action hinside hother
    have hnone : s.recordedBy action = [] := by
      cases action with
      | finalize item artifacts clock => exact absurd rfl (hother item artifacts clock)
      | _ => rfl
    rw [hanalyses, hproposals, hnone]
    simp

/-! ### The protocol -/

/-- The job of a request: none without a context, otherwise exactly one, completed exactly when
the request is settled. -/
def JobInStep (db : Db) (r : RequestRow) : Prop :=
  (¬ db.hasContext r → r.state = .failed ∧ ∀ j ∈ db.jobs, j.recomputeRequestId ≠ some r.id) ∧
  (db.hasContext r → ∃ j ∈ db.jobs, j.recomputeRequestId = some r.id ∧
    (∀ j' ∈ db.jobs, j'.recomputeRequestId = some r.id → j' = j) ∧
    (j.state = .completed ↔ r.state.Settled))

/-- The request has a job that can be claimed again: from the time it is available if it is ready,
from the end of its lease if it is leased. -/
def CanBeClaimed (db : Db) (r : RequestRow) : Prop :=
  ∃ j ∈ db.jobs, (j.state = .ready ∨ (j.state = .leased ∧ j.leaseUntil ≠ none)) ∧
    ∀ clock, (j.state = .ready → j.availableAt ≤ clock) →
      (∀ until_ ∈ j.leaseUntil, until_ < clock) → (j, r) ∈ db.claimableWork none [] clock

private theorem jobInStep {s : Database} (h : Tracked s.1) {r : RequestRow}
    (hr : r ∈ s.1.requests) :
    JobInStep s.1 r := by
  refine ⟨h.withoutContext r hr, fun hcontext ↦ ?_⟩
  obtain ⟨j, hj, hlink⟩ := h.job r hr hcontext
  refine ⟨j, hj, hlink, fun j' hj' hlink' ↦ ?_, ?_⟩
  · exact s.2.jobs.oneJobPerRequest.eq_of_mem hj' (by simp [hlink']) hj (by simp [hlink])
      (hlink'.trans hlink.symm)
  · have hinStep := (h.inStep r hr j hj hlink).2
    by_cases hsettled : r.state.Settled
    · exact iff_of_true ((inStep_settled hsettled).mp hinStep) hsettled
    · refine iff_of_false (fun hcompleted ↦ ?_) hsettled
      rcases (inStep_open hsettled).mp hinStep with hready | ⟨hleased, -⟩
      · cases hready.symm.trans hcompleted
      · cases hleased.symm.trans hcompleted

/-- An open request with a context has a job, and the claim query finds it when the job is free. -/
theorem claimRequest_open {s : Database} (h : Tracked s.1) {r : RequestRow}
    (hr : r ∈ s.1.requests) (hopen : ¬ r.state.Settled) (hcontext : s.1.hasContext r) :
    ∃ j ∈ s.1.jobs, j.recomputeRequestId = some r.id ∧
      (j.state = .ready ∨ (j.state = .leased ∧ j.leaseUntil ≠ none)) ∧
      ∀ clock, j.Claimable clock → s.1.claimRequest none clock j = some r := by
  obtain ⟨j, hj, hlink⟩ := h.job r hr hcontext
  obtain ⟨c, hc, hid⟩ := hcontext
  obtain ⟨hkind, hinStep⟩ := h.inStep r hr j hj hlink
  refine ⟨j, hj, hlink, (inStep_open hopen).mp hinStep, fun clock hclaimable ↦ ?_⟩
  have hrunnable : r.state ∈ [RequestState.pending, .running] := by
    cases hs : r.state with
    | pending => simp
    | running => simp
    | ready => exact absurd (.inl hs) hopen
    | failed => exact absurd (.inr hs) hopen
  have hrequest : lookup (·.id) s.1.requests r.id = some r :=
    (lookup_eq_some s.2.requests.key).mpr ⟨hr, rfl⟩
  have hfound : lookup (·.requestId) s.1.contexts r.id = some c :=
    (lookup_eq_some s.2.requests.contextKey).mpr ⟨hc, hid⟩
  unfold Db.claimRequest
  simp only [hlink, hrequest, hfound, Option.bind_eq_bind, Option.bind_some]
  exact if_pos ⟨hkind, hrunnable, hclaimable, fun _ hnone ↦ absurd hnone (Option.not_mem_none _)⟩

/-- A request that is open with its context can be claimed at some time. -/
theorem canBeClaimed {s : Database} (h : Tracked s.1) {r : RequestRow} (hr : r ∈ s.1.requests)
    (hopen : ¬ r.state.Settled) (hcontext : s.1.hasContext r) : CanBeClaimed s.1 r := by
  obtain ⟨j, hj, -, hstate, hclaim⟩ := claimRequest_open h hr hopen hcontext
  refine ⟨j, hj, hstate, fun clock havailable hexpired ↦ ?_⟩
  have hclaimable : j.Claimable clock := by
    rcases hstate with hready | ⟨hleased, huntil⟩
    · exact .inl ⟨hready, havailable hready⟩
    · obtain ⟨until_, huntil⟩ := Option.ne_none_iff_exists'.mp huntil
      exact .inr ⟨hleased, until_, huntil, hexpired until_ huntil⟩
  refine List.mem_filterMap.mpr ⟨j, List.mem_filter.mpr ⟨hj, by simp⟩, ?_⟩
  rw [hclaim clock hclaimable, Option.map_some]

/-- A claim that takes all answers an open request whose job is free. -/
theorem apply_claim_answers {s : RecomputeSystem} (h : WorkLaws s.db.1 s.now) {r : RequestRow}
    (hr : r ∈ s.db.1.requests) (hopen : ¬ r.state.Settled) (hcontext : s.db.1.hasContext r)
    {options : ClaimOptions} {token : Nat → Uuid} (hfresh : s.Fresh options token)
    (htakes : options.TakesAll s.db.1)
    (hfree : ∀ j ∈ s.db.1.jobs, j.recomputeRequestId = some r.id → j.Claimable s.now) :
    Answered (s.apply (.claim options token)).db.1 s.now (s.apply (.claim options token)).leases
      r := by
  obtain ⟨j, hj, hlink, -, hclaim⟩ := claimRequest_open h.tracked hr hopen hcontext
  obtain ⟨items, t, hyields, hanswered⟩ :=
    claim_answers h hr hj (hclaim s.now (hfree j hj hlink)) htakes token
  have happly : s.apply (.claim options token) =
      { s with db := t, leases := items ++ s.leases } := by
    have hrun : (claimRecomputeWork options token s.now).run s.db = .ok (items, t) := hyields
    rw [apply, if_pos hfresh, claimed, hrun]
  rw [happly]
  refine hanswered.imp_left ?_
  rintro ⟨item, hitem, hrest⟩
  exact ⟨item, List.mem_append_left _ hitem, hrest⟩

/-- A worker without its lease writes nothing. -/
theorem lost_writes_nothing {s : RecomputeSystem} {item : RecomputeWorkItem}
    (hlost : ¬ s.db.1.holdsLease item s.now) (clock : Int) :
    (∀ artifacts, s.apply (.finalize item artifacts clock) = s) ∧
      ∀ errorCode, s.apply (.fail item errorCode clock) = s := by
  refine ⟨fun artifacts ↦ ?_, fun errorCode ↦ ?_⟩
  · rcases commit_cases (finalizeRecompute item artifacts clock s.now) s.db with heq | ⟨_, h⟩
    · rw [apply, heq]
    · exact absurd (finalizeRecompute_spec h).leased hlost
  · rcases commit_cases (failRecompute item errorCode clock s.now) s.db with heq | ⟨_, h⟩
    · rw [apply, heq]
    · rcases failRecompute_spec h with heq | hfailed
      · rw [apply, heq]
      · exact absurd hfailed.leased hlost

/-- The recompute work protocol is safe after any run.
`src/jobtology_be/infrastructure/persistence/outbox.py:62–116,164–349`,
`src/jobtology_be/infrastructure/persistence/worker.py:63–228,228–315`. -/
theorem recompute_protocol (past : List RecomputeAction) :
    let start : RecomputeSystem := ⟨.empty, 0, []⟩
    let s := run apply start past
    Exclusive s.db.1 s.now ∧
    (∀ r ∈ s.db.1.requests, JobInStep s.db.1 r) ∧
    (∀ r ∈ s.db.1.requests, r.state.Settled →
      ∀ later, r ∈ (run apply s later).db.1.requests) ∧
    (∀ requestId, (recorded start past).countP (·.1 = requestId) ≤ 1) ∧
    (∀ record ∈ recorded start past, ∃ r ∈ s.db.1.requests, HoldsResult r record) ∧
    (∀ action, (∀ db, action ≠ .outside db) →
      (s.apply action).db.1.analyses =
          s.db.1.analyses ++ (s.recordedBy action).map (·.2.analysis) ∧
        (s.apply action).db.1.proposals =
          s.db.1.proposals ++ (s.recordedBy action).flatMap (·.2.proposal.toList)) ∧
    (∀ item ∈ s.leases, ¬ s.db.1.holdsLease item s.now → ∀ later clock,
      let t := run apply s later
      (∀ artifacts, t.apply (.finalize item artifacts clock) = t) ∧
        ∀ errorCode, t.apply (.fail item errorCode clock) = t) ∧
    ∀ r ∈ s.db.1.requests, ¬ r.state.Settled → s.db.1.hasContext r →
      CanBeClaimed s.db.1 r ∧
        (∃ version ∈ s.db.1.profileVersion r.userId, r.profileVersion ≤ version) ∧
        ∀ options token, s.Fresh options token → options.TakesAll s.db.1 →
          (∀ j ∈ s.db.1.jobs, j.recomputeRequestId = some r.id → j.Claimable s.now) →
          let t := s.apply (.claim options token)
          Answered t.db.1 s.now t.leases r := by
  intro start s
  have h : WorkLaws s.db.1 s.now := (run_since workLaws_start past).laws
  refine ⟨h.exclusive, fun r hr ↦ jobInStep h.tracked hr, fun r hr hsettled later ↦ ?_,
    fun requestId ↦ recorded_once workLaws_start requestId past,
    recorded_holds workLaws_start past, apply_records h, fun item hitem hlost later clock ↦ ?_,
    fun r hr hopen hcontext ↦ ⟨canBeClaimed h.tracked hr hopen hcontext, h.tracked.version r hr,
      fun options token hfresh htakes hfree ↦
        apply_claim_answers h hr hopen hcontext hfresh htakes hfree⟩⟩
  · exact (run_since h later).requests r hr hsettled
  · exact lost_writes_nothing ((run_since h later).leases item hitem hlost).2 clock

/-! ### One request in the hands of a worker -/

private theorem oneUser_valid : Constraints {
    users := [⟨1, true, none⟩], profiles := [⟨1, 1, none⟩],
    events := [⟨2, 1, 1, 1, .profileUpdated, ⟨none, none⟩⟩] } := by
  decide

/-- A user enqueues a request, and a worker claims it. -/
def claimedRun : List RecomputeAction :=
  [.outside ⟨_, oneUser_valid⟩,
    .enqueue ⟨1, 1, 2, "recompute:1", some ⟨none, none, ""⟩⟩ ⟨3, 4, 0⟩,
    .claim ⟨10, none, {}, [], []⟩ (5 + ·)]

/-- After the claim the request runs, in the hands of one worker. -/
theorem recompute_protocol_claimed :
    let s := run apply ⟨.empty, 0, []⟩ claimedRun
    s.leases = [⟨3, 1, 1, 4, 5⟩] ∧ s.db.1.requests.map (·.state) = [.running] ∧
      Exclusive s.db.1 s.now ∧ ∀ r ∈ s.db.1.requests, JobInStep s.db.1 r :=
  ⟨by decide +kernel, by decide +kernel, (recompute_protocol claimedRun).1,
    (recompute_protocol claimedRun).2.1⟩

end RecomputeSystem

end Jobtology.Store
