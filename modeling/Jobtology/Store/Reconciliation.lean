import Jobtology.Store.Roadmaps
import Mathlib.Data.List.Sort

/-!
# Automatic roadmaps

`reconcile_automatic_roadmap` of `store.py`: the follow-up of a settled recompute request.
-/

namespace Jobtology.Store

open Jobtology.Base Jobtology.Relational
open Jobtology.Relational.Transaction

/-- A settled request joined with its analysis, proposal and goal. -/
structure ReconcileRow where
  request : RequestRow
  analysis : AnalysisRow
  proposal : ProposalRow
  goal : GoalRow
  deriving DecidableEq

/-- The joined row of a request. -/
def Db.reconcileRow (db : Db) (requestId : Uuid) : Option ReconcileRow := do
  let request ← lookup (·.id) db.requests requestId
  let analysisId ← request.resultingAnalysisId
  let analysis ← lookup (·.id) db.analyses analysisId
  let proposalId ← request.proposalId
  let proposal ← lookup (·.id) db.proposals proposalId
  let goal ← lookup (·.id) db.goals analysis.goalId
  return ⟨request, analysis, proposal, goal⟩

/-- The request may still become a roadmap. -/
def ReconcileRow.Eligible (row : ReconcileRow) (profileVersion : Option Nat) : Prop :=
  row.request.state = .ready ∧ profileVersion = some row.request.profileVersion ∧
    row.goal.status = .active ∧ row.goal.goalMode = .targeted ∧
    isActionable row.proposal.feasibility = true

instance (row : ReconcileRow) (profileVersion : Option Nat) :
    Decidable (row.Eligible profileVersion) :=
  inferInstanceAs (Decidable (_ ∧ _ ∧ _ ∧ _ ∧ _))

/-- Roadmaps by creation, earliest first. -/
def createdBefore (r s : RoadmapRow) : Prop :=
  r.createdAt < s.createdAt ∨ (r.createdAt = s.createdAt ∧ r.id ≤ s.id)

instance : DecidableRel createdBefore := fun _ _ ↦ inferInstanceAs (Decidable (_ ∨ _))

/-- The first roadmap of a proposal. -/
def Db.firstRoadmap (db : Db) (userId proposalId : Uuid) : Option RoadmapRow :=
  ((db.roadmaps.filter fun r ↦ r.userId = userId ∧ r.proposalId = proposalId).insertionSort
    createdBefore).head?

/-- There is no roadmap yet, or a draft whose source is current. -/
def recoverable (existing : Option RoadmapRow) (now : Int) : Prop :=
  ∀ r ∈ existing,
    r.state = .draft ∧ sourceIsCurrent (parseSourceValidity r.validity) now = true

instance (existing : Option RoadmapRow) (now : Int) : Decidable (recoverable existing now) :=
  inferInstanceAs (Decidable (∀ r ∈ existing, _))

/-- The errors that the savepoint absorbs: conflicts and missing records. -/
def isDomainError : PersistenceError → Bool
  | .conflict _ => true
  | .missing _ => true
  | _ => false

/-- The ids that an automatic roadmap draws. -/
structure RoadmapDraw where
  roadmapId : Uuid
  stepId : Nat → Uuid

/-- The creation of a request's roadmap. -/
def ReconcileRow.creation (row : ReconcileRow) (title : String) (roadmapId : Uuid) :
    RoadmapCreate where
  userId := row.request.userId
  roadmapId := roadmapId
  goalId := row.analysis.goalId
  proposalId := row.proposal.id
  title := title
  profileVersion := row.request.profileVersion

/-- The activation of a request's roadmap. -/
def ReconcileRow.activation (row : ReconcileRow) (roadmapId : Uuid) (version : Nat) :
    RoadmapMutation where
  userId := row.request.userId
  roadmapId := roadmapId
  expectedRoadmapVersion := version
  expectedProfileVersion := row.request.profileVersion
  state := .active
  title := none

/-- Create the roadmap, or take the draft, and activate it. -/
def createAndActivate (row : ReconcileRow) (existing : Option RoadmapRow) (title : String)
    (draw : RoadmapDraw) (now : Int) : Txn Unit := do
  match existing with
  | none => do
    let created ← createRoadmap (row.creation title draw.roadmapId) draw.stepId now
    let _ ← mutateRoadmap (row.activation created.roadmapId created.version) now
  | some draft => do
    let _ ← mutateRoadmap (row.activation draft.id draft.version) now

/-- The roadmap of an eligible request, under a savepoint. -/
def automaticRoadmap (row : ReconcileRow) (title : String) (draw : RoadmapDraw) (now : Int) :
    Txn Unit := do
  let existing ← query (·.firstRoadmap row.request.userId row.proposal.id)
  when (recoverable existing now)
    (savepoint isDomainError (createAndActivate row existing title draw now))

/-- The database after the pending flag of a request is cleared. -/
def Db.clearPending (requestId : Uuid) (db : Db) : Db :=
  { db with
    requests := update (·.id = requestId) (fun r ↦ { r with autoRoadmapPending := false })
      db.requests }

/-- Settle a pending follow-up. -/
def reconcilePending (row : ReconcileRow) (title : String) (draw : RoadmapDraw) (now : Int) :
    Txn Unit := do
  let version ← query (·.profileVersion row.request.userId)
  let active ← query (·.activeRoadmapOf row.request.userId row.analysis.goalId)
  when (row.Eligible version ∧ active = none) (automaticRoadmap row title draw now)
  statement (·.clearPending row.request.id)

/-- The follow-up that is still to do: its request exists with its account and is flagged. -/
def Db.pendingFollowUp (db : Db) (requestId : Uuid) : Option ReconcileRow := do
  let request ← lookup (·.id) db.requests requestId
  if db.users.any (·.id = request.userId) then
    (db.reconcileRow requestId).filter (·.request.autoRoadmapPending)
  else none

/-- `reconcile_automatic_roadmap`.
`src/jobtology_be/infrastructure/persistence/store.py:716–814`. -/
def reconcileAutomaticRoadmap (requestId : Uuid) (title : String) (draw : RoadmapDraw)
    (now : Int) : Txn Unit := do
  let pending ← query (·.pendingFollowUp requestId)
  match pending with
  | none => pure ()
  | some row => reconcilePending row title draw now

/-! ### What a reconciliation writes -/

/-- What a reconciliation that succeeds writes. -/
inductive ReconcileEffect (requestId : Uuid) (title : String) (draw : RoadmapDraw) (now : Int)
    (s t : Db) : Prop
  /-- The request is gone or settled: nothing. -/
  | nothing (written : t = s)
  /-- No roadmap can be made of it: only its flag is cleared. -/
  | settled (row : ReconcileRow) (pending : s.pendingFollowUp requestId = some row)
      (written : t = s.clearPending requestId)
  /-- A draft of the proposal is activated. -/
  | recovered (row : ReconcileRow) (pending : s.pendingFollowUp requestId = some row)
      (eligible : row.Eligible (s.profileVersion row.request.userId))
      (noActive : s.activeRoadmapOf row.request.userId row.analysis.goalId = none)
      (draft : RoadmapRow) (isDraft : draft.state = .draft) (u : Db)
      (activated : RoadmapMutated (row.activation draft.id draft.version) now draft s u)
      (written : t = u.clearPending requestId)
  /-- A roadmap is created from the proposal and activated. -/
  | created (row : ReconcileRow) (pending : s.pendingFollowUp requestId = some row)
      (eligible : row.Eligible (s.profileVersion row.request.userId))
      (noActive : s.activeRoadmapOf row.request.userId row.analysis.goalId = none)
      (proposal : ProposalRow) (analysis : AnalysisRow) (u v : Db)
      (creation : RoadmapCreated (row.creation title draw.roadmapId) draw.stepId now proposal
        analysis s u)
      (roadmap : RoadmapRow)
      (activated : RoadmapMutated (row.activation draw.roadmapId 1) now roadmap u v)
      (written : t = v.clearPending requestId)

private theorem reconcileRow_id {db : Db} {requestId : Uuid} {row : ReconcileRow}
    (h : db.reconcileRow requestId = some row) :
    row.request.id = requestId ∧ row.request ∈ db.requests := by
  unfold Db.reconcileRow at h
  simp only [Option.bind_eq_bind, Option.bind_eq_some_iff, Option.pure_def,
    Option.some.injEq] at h
  obtain ⟨request, hrequest, -, -, -, -, -, -, -, -, -, -, rfl⟩ := h
  exact (lookup_some hrequest).symm

/-- A pending follow-up is of a flagged request. -/
theorem pendingFollowUp_spec {db : Db} {requestId : Uuid} {row : ReconcileRow}
    (h : db.pendingFollowUp requestId = some row) :
    row.request.id = requestId ∧ row.request ∈ db.requests ∧
      row.request.autoRoadmapPending = true := by
  unfold Db.pendingFollowUp at h
  simp only [Option.bind_eq_bind, Option.bind_eq_some_iff] at h
  obtain ⟨request, -, h⟩ := h
  split at h
  · obtain ⟨hrow, hflag⟩ := Option.filter_eq_some_iff.mp h
    obtain ⟨hid, hmem⟩ := reconcileRow_id hrow
    exact ⟨hid, hmem, hflag⟩
  · exact absurd h (by simp)

private theorem createAndActivate_spec {requestId : Uuid} {title : String} {draw : RoadmapDraw}
    {now : Int} {row : ReconcileRow} {s t : Database} {u : Unit}
    (pending : s.1.pendingFollowUp requestId = some row)
    (eligible : row.Eligible (s.1.profileVersion row.request.userId))
    (noActive : s.1.activeRoadmapOf row.request.userId row.analysis.goalId = none)
    {existing : Option RoadmapRow} (hrecoverable : recoverable existing now)
    (hexisting : ∀ r ∈ existing, r ∈ s.1.roadmaps)
    (h : Yields (createAndActivate row existing title draw now) s u t) :
    ReconcileEffect requestId title draw now s.1 (t.1.clearPending requestId) := by
  unfold createAndActivate at h
  cases existing with
  | none =>
    simp only [yields_bind, yields_pure] at h
    obtain ⟨created, s₁, hcreate, snapshot, s₂, hactivate, -, rfl⟩ := h
    obtain ⟨rfl, proposal, analysis, hcreated⟩ := createRoadmap_spec hcreate
    obtain ⟨-, roadmap, hmutated⟩ := mutateRoadmap_spec hactivate
    exact .created row pending eligible noActive proposal analysis s₁.1 s₂.1 hcreated roadmap
      hmutated rfl
  | some draft =>
    simp only [yields_bind, yields_pure] at h
    obtain ⟨snapshot, s₁, hactivate, -, rfl⟩ := h
    obtain ⟨-, roadmap, hmutated⟩ := mutateRoadmap_spec hactivate
    have hdraft := hexisting draft rfl
    obtain rfl : roadmap = draft :=
      s.2.roadmaps.key.eq_of_mem hmutated.found hdraft hmutated.matched.1
    exact .recovered row pending eligible noActive roadmap (hrecoverable roadmap rfl).1 s₁.1
      hmutated rfl

private theorem firstRoadmap_mem {db : Db} {userId proposalId : Uuid} {r : RoadmapRow}
    (h : db.firstRoadmap userId proposalId = some r) : r ∈ db.roadmaps := by
  have hmem := List.mem_of_head? h
  rw [List.mem_insertionSort] at hmem
  exact List.mem_of_mem_filter hmem

/-- What a reconciliation that succeeds does. -/
theorem reconcileAutomaticRoadmap_spec {requestId : Uuid} {title : String} {draw : RoadmapDraw}
    {now : Int} {s t : Database} {u : Unit}
    (h : Yields (reconcileAutomaticRoadmap requestId title draw now) s u t) :
    ReconcileEffect requestId title draw now s.1 t.1 := by
  unfold reconcileAutomaticRoadmap at h
  rw [yields_query_bind] at h
  cases hpending : s.1.pendingFollowUp requestId with
  | none =>
    rw [hpending] at h
    exact .nothing (congrArg Subtype.val (yields_pure.mp h).2.symm)
  | some row =>
    rw [hpending] at h
    unfold reconcilePending at h
    simp only [yields_query_bind, yields_seq, yields_statement] at h
    obtain ⟨s₁, hwork, ht⟩ := h
    rw [(pendingFollowUp_spec hpending).1] at ht
    rcases yields_when.mp hwork with ⟨⟨heligible, hnone⟩, hwork⟩ | ⟨-, rfl⟩
    · unfold automaticRoadmap at hwork
      rw [yields_query_bind] at hwork
      rcases yields_when.mp hwork with ⟨hrecoverable, hwork⟩ | ⟨-, rfl⟩
      · rcases yields_savepoint.mp hwork with hwork | ⟨-, -, -, rfl⟩
        · rw [← ht]
          exact createAndActivate_spec hpending heligible hnone hrecoverable
            (fun r hr ↦ firstRoadmap_mem hr) hwork
        · exact .settled row hpending ht.symm
      · exact .settled row hpending ht.symm
    · exact .settled row hpending ht.symm

end Jobtology.Store
