import Jobtology.Relational.Runs
import Jobtology.Store.AccountErasure
import Jobtology.Store.Goals
import Jobtology.Store.RevisionProgress
import Jobtology.Store.StepReversal

/-!
# Verified completions

A completed step names the event that completed it, wherever the completion has been carried to
since. Over every order of transactions the completions of all roadmaps stay verified, so that no
revision is refused for its history.
-/

namespace Jobtology.Store

open Jobtology.Base Jobtology.Relational
open Jobtology.Relational.Transaction
open Jobtology.Weekly (StepState)

/-- The completion of a step is known from an event of its account about its outcomes. -/
def Db.Verified (db : Db) (r : StepRow) : Prop :=
  ∃ e ∈ db.events, db.completionEvent r.id = some e.id ∧ e.kind = .stepCompleted ∧
    e.payload.outcomes = some r.outcomes ∧
    ∃ m ∈ db.roadmaps, m.id = r.roadmapId ∧ m.userId = e.userId

/-- Every completion is verified. -/
def CompletionsVerified (db : Db) : Prop :=
  ∀ r ∈ db.steps, r.state = .completed → db.Verified r

/-- A completion is that of a step before: it is about the same outcomes, known from the same
event, and of a roadmap of the same account. -/
structure CarriedOver (s t : Db) (o r : StepRow) : Prop where
  mem : o ∈ s.steps
  completed : o.state = .completed
  outcomes : o.outcomes = r.outcomes
  event : t.completionEvent r.id = s.completionEvent o.id
  events : ∀ e ∈ s.events, s.completionEvent o.id = some e.id → e ∈ t.events
  owner : ∀ m ∈ s.roadmaps, m.id = o.roadmapId →
    ∃ m' ∈ t.roadmaps, m'.id = r.roadmapId ∧ m'.userId = m.userId

/-- What is carried over stays verified. -/
theorem CarriedOver.verified {s t : Db} {o r : StepRow} (h : CarriedOver s t o r)
    (hs : CompletionsVerified s) : t.Verified r := by
  obtain ⟨e, he, hevent, hkind, houtcomes, m, hm, hid, huser⟩ := hs o h.mem h.completed
  obtain ⟨m', hm', hid', huser'⟩ := h.owner m hm hid
  exact ⟨e, h.events e he hevent, h.event.trans hevent, hkind, h.outcomes ▸ houtcomes, m', hm',
    hid', huser'.trans huser⟩

/-- Completed steps stay as they are, with their events, while their roadmaps stay with their
accounts. -/
def CompletionsKept (s t : Db) : Prop :=
  ∀ r ∈ t.steps, r.state = .completed → r ∈ s.steps ∧
    t.completionEvent r.id = s.completionEvent r.id ∧
    (∀ e ∈ s.events, s.completionEvent r.id = some e.id → e ∈ t.events) ∧
    ∀ m ∈ s.roadmaps, m.id = r.roadmapId → ∃ m' ∈ t.roadmaps, m'.id = m.id ∧ m'.userId = m.userId

instance (s t : Db) : Decidable (CompletionsKept s t) :=
  inferInstanceAs (Decidable (∀ r ∈ t.steps, _))

/-- Completions that are kept stay verified. -/
theorem CompletionsKept.verified {s t : Db} (h : CompletionsKept s t)
    (hs : CompletionsVerified s) : CompletionsVerified t := by
  intro r hr hcompleted
  obtain ⟨hmem, hevent, hevents, howner⟩ := h r hr hcompleted
  refine CarriedOver.verified ⟨hmem, hcompleted, rfl, hevent, hevents, fun m hm hid ↦ ?_⟩ hs
  obtain ⟨m', hm', hid', huser⟩ := howner m hm hid
  exact ⟨m', hm', hid'.trans hid, huser⟩

private theorem completionEvent_congr {s t : Db} (h : t.inheritances = s.inheritances)
    (id : Uuid) : t.completionEvent id = s.completionEvent id := by
  unfold Db.completionEvent
  rw [h]

/-- Transactions that write no step and no inheritance, and keep events and the accounts of
roadmaps. -/
theorem completionsKept_of_same {s t : Db} (hsteps : t.steps = s.steps)
    (hinheritances : t.inheritances = s.inheritances) (hevents : ∀ e ∈ s.events, e ∈ t.events)
    (hroadmaps : ∀ m ∈ s.roadmaps, ∃ m' ∈ t.roadmaps, m'.id = m.id ∧ m'.userId = m.userId) :
    CompletionsKept s t :=
  fun r hr _ ↦ ⟨hsteps ▸ hr, completionEvent_congr hinheritances r.id, fun e he _ ↦ hevents e he,
    fun m hm _ ↦ hroadmaps m hm⟩

/-! ### Each transaction -/

section Transactions

variable {s t : Database}

section Created

variable {request : RoadmapCreate} {stepId : Nat → Uuid} {now : Int} {proposal : ProposalRow}
  {analysis : AnalysisRow}

/-- What a new roadmap inherits are completions of the roadmap that was active. -/
theorem RoadmapCreated.inherited_verified
    (h : RoadmapCreated request stepId now proposal analysis s.1 t.1)
    (hs : CompletionsVerified s.1) {x : ProposalStep} {i : Nat} {r : StepRow}
    (hx : proposal.steps[i]? = some x) (hid : r.id = stepId i)
    (hroadmap : r.roadmapId = request.roadmapId) (hsem : r.semantics = x.semantics)
    (hin : stepId i ∈ (request.inherited stepId proposal.steps s.1).map (·.stepId)) :
    t.1.Verified r := by
  have hevents : t.1.events = s.1.events := by rw [h.written]
  have hroadmaps : t.1.roadmaps =
      s.1.roadmaps ++ [request.row analysis.releaseId now] := by rw [h.written]
  obtain ⟨row, hrow, hrowId⟩ := List.mem_map.mp hin
  obtain ⟨z, hz, hzrow⟩ := List.mem_filterMap.mp hrow
  obtain ⟨c, hc, hzid, hevent⟩ := inheritanceRow_eq_some.mp hzrow
  have hkey := (@stepIdOf_eq_some stepId _ h.storable.keys _ _).mpr ⟨i, x, hx, rfl, rfl⟩
  obtain rfl : z = x := List.inj_on_of_nodup_map h.storable.keys hz (List.mem_of_getElem? hx)
    (stepIdOf_inj h.fresh h.storable.keys hzid (hrowId ▸ hkey))
  obtain ⟨hcmem, hsemantics⟩ := lookupLast_some hc
  obtain ⟨previous, hactive, hcompletedStep⟩ := mem_inheritable hcmem
  obtain ⟨hold, hold', hstate, j, hj, hjstep, hjevent⟩ := mem_completedSteps hcompletedStep
  have hprevious := List.find?_some hactive
  rw [decide_eq_true_eq] at hprevious
  have holdEvent : s.1.completionEvent c.1.id = some c.2 := by
    rw [Database.completionEvent_eq_some, ← hjstep, ← hjevent]
    exact hj
  have hnewEvent : t.1.completionEvent r.id = some c.2 := by
    rw [Database.completionEvent_eq_some, h.written, hid, ← hevent, ← hrowId]
    exact List.mem_append_right _ hrow
  refine CarriedOver.verified (o := c.1) ⟨hold, hstate, ?_, hnewEvent.trans holdEvent.symm,
    fun e he _ ↦ hevents ▸ he, fun m hm hmid ↦ ?_⟩ hs
  · exact congrArg Semantics.outcomes (hsemantics.trans hsem.symm)
  · refine ⟨_, hroadmaps ▸ List.mem_append_right _ List.mem_cons_self, hroadmap.symm, ?_⟩
    obtain rfl := s.2.roadmaps.key.eq_of_mem hm (List.mem_of_find?_eq_some hactive)
      (hmid.trans hold')
    exact hprevious.1.symm

/-- A new roadmap completes a step by inheritance only. -/
theorem RoadmapCreated.completionsVerified
    (h : RoadmapCreated request stepId now proposal analysis s.1 t.1)
    (hs : CompletionsVerified s.1) : CompletionsVerified t.1 := by
  have hevents : t.1.events = s.1.events := by rw [h.written]
  have hroadmaps : t.1.roadmaps =
      s.1.roadmaps ++ [request.row analysis.releaseId now] := by rw [h.written]
  intro r hr hcompleted
  rw [h.steps_eq, List.mem_append] at hr
  rcases hr with hr | hr
  · exact CarriedOver.verified ⟨hr, hcompleted, rfl, h.completionEvent_old hr,
      fun e he _ ↦ hevents ▸ he, fun m hm hid ↦ ⟨m, hroadmaps ▸ mem_appended m hm, hid, rfl⟩⟩ hs
  · obtain ⟨y, hy, rfl⟩ := List.mem_map.mp hr
    obtain ⟨⟨x, i⟩, hx, rfl⟩ := List.mem_map.mp hy
    have hxi := List.mem_zipIdx_iff_getElem?.mp hx
    by_cases hin : (x.row request.roadmapId (stepId i) i).id ∈
        (request.inherited stepId proposal.steps s.1).map (·.stepId)
    · rw [if_pos hin]
      exact h.inherited_verified hs hxi rfl rfl rfl hin
    · rw [if_neg hin] at hcompleted
      cases hcompleted

end Created

/-- A mutation of a roadmap keeps its steps and its account. -/
theorem RoadmapMutated.completionsKept {request : RoadmapMutation} {now : Int}
    {roadmap : RoadmapRow} {s t : Db} (h : RoadmapMutated request now roadmap s t) :
    CompletionsKept s t := by
  rw [h.written]
  refine completionsKept_of_same rfl rfl (fun _ he ↦ he) fun m hm ↦ ?_
  change ∃ m' ∈ request.roadmapsAfter s.roadmaps, _
  unfold RoadmapMutation.roadmapsAfter
  refine exists_mem_update ?_ fun _ hr ↦ hr
  split
  · exact exists_mem_update ⟨m, hm, rfl, rfl⟩ fun _ hr ↦ hr
  · exact ⟨m, hm, rfl, rfl⟩

/-- A goal is deleted with its roadmaps; the others keep their steps. -/
theorem GoalDeleted.completionsKept {carryForward : CarryForward} {request : GoalDelete}
    {eventId : Uuid} {draw : EnqueueDraw} (h : GoalDeleted carryForward request eventId draw s t) :
    CompletionsKept s.1 t.1 := by
  have hwritten := h.frame.1
  have hsteps : t.1.steps = s.1.steps.filter (·.roadmapId ∉
      (goalRecords s.1 request.userId request.goalId).roadmapIds) := by
    rw [hwritten]
    rfl
  have hinheritances : t.1.inheritances = s.1.inheritances.filter (·.stepId ∉
      (goalRecords s.1 request.userId request.goalId).stepIds) := by
    rw [hwritten]
    rfl
  have hroadmaps : t.1.roadmaps = s.1.roadmaps.filter (·.id ∉
      (goalRecords s.1 request.userId request.goalId).roadmapIds) := by
    rw [hwritten]
    rfl
  have hevents : t.1.events = s.1.events ++ [request.event eventId] := by
    rw [hwritten]
    rfl
  intro r hr _
  rw [hsteps] at hr
  obtain ⟨hmem, hkept⟩ := List.mem_filter.mp hr
  have hkept := of_decide_eq_true hkept
  refine ⟨hmem, ?_, fun e he _ ↦ hevents ▸ mem_appended e he, fun m hm hid ↦ ⟨m, ?_, rfl, rfl⟩⟩
  · unfold Db.completionEvent
    have hid : r.id ∉ (goalRecords s.1 request.userId request.goalId).stepIds := by
      intro hin
      obtain ⟨r', hr', hrid⟩ := List.mem_map.mp hin
      obtain ⟨hr', hroadmap⟩ := List.mem_filter.mp hr'
      obtain rfl := s.2.steps.key.eq_of_mem hr' hmem hrid
      exact hkept (of_decide_eq_true hroadmap)
    refine congrArg (Option.map _) (lookup_congr t.2.inheritances.key s.2.inheritances.key
      fun i hi ↦ ?_)
    rw [hinheritances, List.mem_filter, and_iff_left]
    exact decide_eq_true (hi ▸ hid)
  · rw [hroadmaps]
    exact List.mem_filter.mpr ⟨hm, decide_eq_true (hid ▸ hkept)⟩

/-- An account is deleted with its events and roadmaps; those of another stay together. -/
theorem withoutAccount_verified {userId : Uuid} (h : t.1 = s.1.withoutAccount userId)
    (hs : CompletionsVerified s.1) : CompletionsVerified t.1 := by
  intro r hr hcompleted
  rw [h] at hr
  obtain ⟨hmem, hkept⟩ := List.mem_filter.mp hr
  have hkept := of_decide_eq_true hkept
  obtain ⟨e, he, hevent, hkind, houtcomes, m, hm, hid, huser⟩ := hs r hmem hcompleted
  have hother : m.userId ≠ userId := fun hown ↦ hkept ⟨m, hm, hown, hid⟩
  refine ⟨e, ?_, ?_, hkind, houtcomes, m, ?_, hid, huser⟩
  · rw [h]
    exact List.mem_filter.mpr ⟨he, decide_eq_true (huser ▸ hother)⟩
  · rw [← hevent]
    unfold Db.completionEvent
    refine congrArg (Option.map _) (lookup_congr t.2.inheritances.key s.2.inheritances.key
      fun i hi ↦ ?_)
    have hkeep : ¬ s.1.ownsStep userId i.stepId := by
      rw [hi, ownsStep_iff hmem]
      exact hkept
    rw [h]
    exact ⟨List.mem_of_mem_filter, fun hin ↦ List.mem_filter.mpr ⟨hin, decide_eq_true hkeep⟩⟩
  · rw [h]
    exact List.mem_filter.mpr ⟨hm, decide_eq_true hother⟩

/-- The event that a step transition appends. -/
theorem mutateStepState_events {carryForward : CarryForward} {request : StepStateMutation}
    {draw : StepDraw} {snapshot : RoadmapSnapshot}
    (h : Yields (mutateStepState carryForward request draw) s snapshot t) :
    ∃ step ∈ s.1.steps, step.id = request.stepId ∧ t.1.events = s.1.events ++
      [⟨draw.eventId, request.userId, request.stepId, request.expectedProfileVersion + 1,
        request.eventKind step, ⟨some step.outcomes, none⟩⟩] := by
  unfold mutateStepState at h
  simp only [yields_query_bind, ↓yields_require_bind, ↓yields_demand_bind, yields_seq,
    yields_pure] at h
  obtain ⟨s₁, hbump, roadmap, -, step, hstep, -, s₂, hwrite, s₃, hrevoke, s₄, hevent, s₅, hrecord,
    s₆, hqueue, -, rfl⟩ := h
  have hfound := List.find?_some hstep
  rw [decide_eq_true_eq] at hfound
  have h₁ := (bumpProfile_spec hbump).2
  have h₂ := writeStepState_spec hwrite
  have h₃ := (revoke_spec hrevoke).2
  have h₄ := (yields_statement.mp hevent).symm
  have h₅ := record_spec hrecord
  have h₆ := (enqueueForGoal_frame _ _ _ _ _ _ _ _ _ hqueue).others
  refine ⟨step, ?_, hfound.1, ?_⟩
  · have hmem := List.mem_of_find?_eq_some hstep
    rw [h₁] at hmem
    exact hmem
  · rw [h₆, h₅, h₄, h₃, h₂, h₁]

/-- A transition completes its step by a new event about its outcomes, and leaves the completions
of the other steps. -/
theorem mutateStepState_verified {carryForward : CarryForward} {request : StepStateMutation}
    {draw : StepDraw} {snapshot : RoadmapSnapshot}
    (h : Yields (mutateStepState carryForward request draw) s snapshot t)
    (hs : CompletionsVerified s.1) : CompletionsVerified t.1 := by
  obtain ⟨roadmap, step, hmutated⟩ := mutateStepState_spec h
  obtain ⟨step', hstep', hid', hevents⟩ := mutateStepState_events h
  obtain ⟨hstep, hid, hroadmap⟩ := hmutated.stepFound
  obtain rfl := s.2.steps.key.eq_of_mem hstep' hstep (hid'.trans hid.symm)
  have howner {m : RoadmapRow} (hm : m ∈ s.1.roadmaps) :
      ∃ m' ∈ t.1.roadmaps, m'.id = m.id ∧ m'.userId = m.userId := by
    rw [hmutated.roadmaps]
    exact exists_mem_update ⟨m, hm, rfl, rfl⟩ fun _ hr ↦ hr
  have hcompletion (id : Uuid) : t.1.completionEvent id =
      if request.state = .completed ∧ id = request.stepId then some draw.eventId
      else s.1.completionEvent id := by
    unfold Db.completionEvent
    rw [hmutated.inheritances]
    by_cases hstate : request.state = .completed
    · rw [if_pos hstate, lookup_setInheritance]
      simp only [hstate, true_and]
    · rw [if_neg hstate, if_neg fun h ↦ hstate h.1]
  intro r hr hcompleted
  rw [hmutated.steps] at hr
  rcases mem_update.mp hr with ⟨hr, hother⟩ | ⟨y, hy, ⟨hyid, -⟩, rfl⟩
  · have hne : r.id ≠ request.stepId := by
      intro he
      obtain rfl := s.2.steps.key.eq_of_mem hr hstep (he.trans hid.symm)
      exact hother ⟨hid, hroadmap⟩
    exact CarriedOver.verified ⟨hr, hcompleted, rfl,
      (hcompletion r.id).trans (if_neg fun h ↦ hne h.2),
      fun e he _ ↦ hevents ▸ mem_appended e he, fun m hm hmid ↦ by
        obtain ⟨m', hm', hmid', huser⟩ := howner hm
        exact ⟨m', hm', hmid'.trans hmid, huser⟩⟩ hs
  · obtain rfl := s.2.steps.key.eq_of_mem hy hstep (hyid.trans hid.symm)
    obtain ⟨m, hm, hmid, hmuser⟩ := howner hmutated.roadmapFound.1
    have hkind : request.eventKind y = .stepCompleted := by
      unfold StepStateMutation.eventKind
      rw [if_neg fun h ↦ h.2 hcompleted, if_pos hcompleted]
    refine ⟨_, hevents ▸ List.mem_append_right _ List.mem_cons_self, ?_, hkind, rfl, m, hm, ?_,
      hmuser.trans hmutated.roadmapFound.2.2.1⟩
    · rw [hcompletion, if_pos ⟨hcompleted, hid⟩]
    · exact hmid.trans (hmutated.roadmapFound.2.1.trans hroadmap.symm)

/-! ### Revisions -/

/-- What holds while a revision preserves progress: completions are verified, and the new roadmap
has a row for every proposed step, completed when an old step completed it. -/
structure RoundLaws (context : RevisionContext) (roadmapId : Uuid) (stepId : Nat → Uuid)
    (start db : Db) : Prop where
  frame : db = { start with steps := db.steps, inheritances := db.inheritances }
  verified : CompletionsVerified db
  rows : ∀ i x, context.proposedSteps[i]? = some x → ∃ r ∈ db.steps, r.id = stepId i ∧
    r.roadmapId = roadmapId ∧ r.semantics = x.semantics ∧
    (x.semantics ∈ context.completedSemantics → r.state = .completed)

/-- The event of a completed old step. -/
def OldStep.HasEvent (o : OldStep) (userId : Uuid) (events : List EventRow) : Prop :=
  ∃ e ∈ events, o.completionEventId = some e.id ∧ e.userId = userId ∧ e.kind = .stepCompleted ∧
    e.payload.outcomes = some o.row.outcomes

section Rounds

variable {context : RevisionContext} {roadmapId userId : Uuid} {newId : String → Option Uuid}
  {stepId carriedId : Nat → Uuid} {start db : Db} {o : OldStep} {proposed : ProposalStep} {i : Nat}

/-- A started step goes on in the proposed one of its semantics, which is not completed. -/
theorem RoundLaws.retained (h : RoundLaws context roadmapId stepId start s.1)
    (hi : context.proposedSteps[i]? = some proposed) (hsem : proposed.semantics = o.row.semantics)
    (hopen : o.row.semantics ∉ context.completedSemantics) (hdb : db = { s.1 with
      steps := update (·.id = stepId i) (fun r ↦ { r with state := .inProgress }) s.1.steps }) :
    RoundLaws context roadmapId stepId start db := by
  subst hdb
  obtain ⟨row, hrow, hrowId, -, hrowSem, -⟩ := h.rows i proposed hi
  refine ⟨by rw [h.frame], fun r hr hcompleted ↦ ?_, fun j y hj ↦ ?_⟩
  · rcases mem_update.mp hr with ⟨hr, -⟩ | ⟨z, -, -, rfl⟩
    · exact h.verified r hr hcompleted
    · cases hcompleted
  · obtain ⟨r, hr, hrid, hroadmap, hrsem, hstate⟩ := h.rows j y hj
    by_cases he : r.id = stepId i
    · obtain rfl := s.2.steps.key.eq_of_mem hr hrow (he.trans hrowId.symm)
      exact ⟨_, mem_update.mpr (.inr ⟨r, hr, he, rfl⟩), hrid, hroadmap, hrsem, fun hin ↦
        absurd (hsem ▸ hrowSem ▸ hrsem ▸ hin) hopen⟩
    · exact ⟨r, mem_update.mpr (.inl ⟨hr, he⟩), hrid, hroadmap, hrsem, hstate⟩

/-- A proposed step takes the completion of an old one of its semantics over. -/
theorem RoundLaws.matched (h : RoundLaws context roadmapId stepId start s.1)
    (howner : ∃ m ∈ start.roadmaps, m.id = roadmapId ∧ m.userId = userId)
    (hi : context.proposedSteps[i]? = some proposed) (hsem : proposed.semantics = o.row.semantics)
    (hin : proposed.semantics ∈ context.completedSemantics) {e : EventRow}
    (he : e ∈ start.events) (heuser : e.userId = userId) (hekind : e.kind = .stepCompleted)
    (heoutcomes : e.payload.outcomes = some o.row.outcomes) (hdb : db = { s.1 with
      steps := update (·.id = stepId i) (fun r ↦ { r with
        state := .completed
        plannedStart := o.row.plannedStart
        plannedEnd := o.row.plannedEnd }) s.1.steps
      inheritances := update (·.stepId = stepId i)
        (fun i ↦ { i with originalCompletionEventId := e.id }) s.1.inheritances }) :
    RoundLaws context roadmapId stepId start db := by
  have hevents : s.1.events = start.events := by rw [h.frame]
  have hroadmaps : s.1.roadmaps = start.roadmaps := by rw [h.frame]
  obtain ⟨m, hm, hmid, hmuser⟩ := howner
  obtain ⟨row, hrow, hrowId, hrowRoadmap, hrowSem, hrowState⟩ := h.rows i proposed hi
  have hupdated := @completionEvent_update s.1 db (stepId i) e.id (by rw [hdb])
  subst hdb
  refine ⟨by rw [h.frame], fun r hr hcompleted ↦ ?_, fun j y hj ↦ ?_⟩
  · rcases mem_update.mp hr with ⟨hr, hne⟩ | ⟨y, hy, hyid, rfl⟩
    · obtain ⟨e', he', hevent', hrest⟩ := h.verified r hr hcompleted
      refine ⟨e', he', ?_, hrest⟩
      rw [hupdated, hevent', Option.map_some, if_neg hne]
    · obtain rfl := s.2.steps.key.eq_of_mem hy hrow (hyid.trans hrowId.symm)
      obtain ⟨e', -, hevent', -⟩ := h.verified y hy (hrowState hin)
      refine ⟨e, (hevents ▸ he : e ∈ s.1.events), ?_, hekind, ?_, m,
        (hroadmaps ▸ hm : m ∈ s.1.roadmaps), hmid.trans hrowRoadmap.symm,
        hmuser.trans heuser.symm⟩
      · rw [hupdated, hevent', Option.map_some, if_pos hyid]
      · rw [heoutcomes]
        exact congrArg (some ·.outcomes) (hsem.symm.trans hrowSem.symm)
  · obtain ⟨r, hr, hrid, hroadmap, hrsem, hstate⟩ := h.rows j y hj
    by_cases hri : r.id = stepId i
    · exact ⟨_, mem_update.mpr (.inr ⟨r, hr, hri, rfl⟩), hrid, hroadmap, hrsem, fun _ ↦ rfl⟩
    · exact ⟨r, mem_update.mpr (.inl ⟨hr, hri⟩), hrid, hroadmap, hrsem, hstate⟩

/-- A completed step that the proposal has no step for is copied with its event. -/
theorem RoundLaws.carried {id : Uuid} {key : String} {position : Nat}
    (h : RoundLaws context roadmapId stepId start s.1)
    (howner : ∃ m ∈ start.roadmaps, m.id = roadmapId ∧ m.userId = userId) {e : EventRow}
    (he : e ∈ start.events) (heuser : e.userId = userId) (hekind : e.kind = .stepCompleted)
    (heoutcomes : e.payload.outcomes = some o.row.outcomes) (ht : t.1 = { s.1 with
      steps := s.1.steps ++ [{ o.row with
        id := id, roadmapId := roadmapId, stepKey := key, position := position
        state := .completed }]
      inheritances := s.1.inheritances ++ [⟨id, e.id⟩] }) :
    RoundLaws context roadmapId stepId start t.1 := by
  have hevents : t.1.events = start.events := by rw [ht, h.frame]
  have hroadmaps : t.1.roadmaps = start.roadmaps := by rw [ht, h.frame]
  have hsteps : t.1.steps = s.1.steps ++ [{ o.row with
      id := id, roadmapId := roadmapId, stepKey := key, position := position
      state := .completed }] := by rw [ht]
  obtain ⟨m, hm, hmid, hmuser⟩ := howner
  have happended := @completionEvent_append s.1 t.1 id e.id (by rw [ht])
  refine ⟨by rw [ht, h.frame], fun r hr hcompleted ↦ ?_, fun j y hj ↦ ?_⟩
  · rw [hsteps] at hr
    rcases List.mem_append.mp hr with hr | hr
    · obtain ⟨e', he', hevent', hkind', houtcomes', hroadmap'⟩ := h.verified r hr hcompleted
      refine ⟨e', ?_, by rw [happended, hevent', Option.some_or], hkind', houtcomes', ?_⟩
      · rw [ht]
        exact he'
      · rw [ht]
        exact hroadmap'
    · obtain rfl := List.mem_singleton.mp hr
      refine ⟨e, hevents ▸ he, ?_, hekind, heoutcomes, m, hroadmaps ▸ hm, hmid,
        hmuser.trans heuser.symm⟩
      rw [Database.completionEvent_eq_some, ht]
      exact List.mem_append_right _ List.mem_cons_self
  · obtain ⟨r, hr, hrest⟩ := h.rows j y hj
    exact ⟨r, hsteps ▸ mem_appended r hr, hrest⟩

/-- One round keeps the laws. -/
theorem RoundLaws.round {progress progress' : PreservedProgress}
    (h : RoundLaws context roadmapId stepId start s.1)
    (hnewId : ∀ x ∈ context.proposedSteps, ∀ id, newId x.stepKey = some id →
      ∃ i, context.proposedSteps[i]? = some x ∧ stepId i = id)
    (howner : ∃ m ∈ start.roadmaps, m.id = roadmapId ∧ m.userId = userId)
    (ho : o ∈ context.oldSteps) (hold : o.row.state = .completed → o.HasEvent userId start.events)
    (hround : PreserveEffect context roadmapId newId carriedId progress o s.1 progress' t.1) :
    RoundLaws context roadmapId stepId start t.1 := by
  generalize hdb : t.1 = db at hround
  cases hround with
  | untouched => exact h
  | retained hstarted hopen proposed hfound id hid =>
    obtain ⟨hproposed, hsem⟩ := lookupLast_some hfound
    obtain ⟨i, hi, rfl⟩ := hnewId proposed hproposed id hid
    exact h.retained hi hsem hopen rfl
  | matched hcompleted proposed hfound hfirst id hid eventId hevent =>
    obtain ⟨hproposed, hsem⟩ := lookupLast_some hfound
    obtain ⟨i, hi, rfl⟩ := hnewId proposed hproposed id hid
    have hin : proposed.semantics ∈ context.completedSemantics := by
      rw [hsem]
      exact List.mem_map_of_mem (List.mem_filter.mpr ⟨ho, decide_eq_true hcompleted⟩)
    obtain ⟨e, he, heid, heuser, hekind, heoutcomes⟩ := hold hcompleted
    obtain rfl := Option.some.inj (hevent.symm.trans heid)
    exact h.matched howner hi hsem hin he heuser hekind heoutcomes rfl
  | carried hcompleted hunmatched eventId hevent =>
    obtain ⟨e, he, heid, heuser, hekind, heoutcomes⟩ := hold hcompleted
    obtain rfl := Option.some.inj (hevent.symm.trans heid)
    have hcarried := h.carried howner he heuser hekind heoutcomes hdb
    rwa [hdb] at hcarried

end Rounds

/-- The rounds start with the roadmap as it was created. -/
theorem roundLaws_start {creation : RoadmapCreate} {stepId : Nat → Uuid} {now : Int}
    {proposal : ProposalRow} {analysis : AnalysisRow} {context : RevisionContext}
    (h : RoadmapCreated creation stepId now proposal analysis s.1 t.1)
    (hproposed : context.proposedSteps = proposal.steps)
    (hinheritable : ∀ semantics, (∃ c ∈ creation.inheritable s.1, c.1.semantics = semantics) ↔
      semantics ∈ context.completedSemantics)
    (hs : CompletionsVerified s.1) :
    RoundLaws context creation.roadmapId stepId t.1 t.1 := by
  refine ⟨rfl, h.completionsVerified hs, fun i x hi ↦ ?_⟩
  rw [hproposed] at hi
  have hin := (mem_inherited_iff h.fresh h.storable.keys hi).trans (hinheritable x.semantics)
  have hrow : x.row creation.roadmapId (stepId i) i ∈
      stepRows creation.roadmapId stepId proposal.steps.zipIdx :=
    List.mem_map.mpr ⟨(x, i), List.mem_zipIdx_iff_getElem?.mpr hi, rfl⟩
  rw [h.steps_eq]
  by_cases hcompleted : x.semantics ∈ context.completedSemantics
  · exact ⟨_, List.mem_append_right _ (mem_update.mpr (.inr ⟨_, hrow, hin.mpr hcompleted, rfl⟩)),
      rfl, rfl, rfl, fun _ ↦ rfl⟩
  · exact ⟨_, List.mem_append_right _ (mem_update.mpr (.inl ⟨hrow, hin.not.mpr hcompleted⟩)),
      rfl, rfl, rfl, fun h ↦ absurd h hcompleted⟩

/-- The completed steps of a revision that is not blocked have their events. -/
theorem RevisionLoaded.hasEvent {userId roadmapId proposalId : Uuid} {now : Int}
    {proposal : ProposalRow} {analysis : AnalysisRow} {profile : ProfileRow} {goal : GoalRow}
    {context : RevisionContext} {db : Db}
    (h : RevisionLoaded userId roadmapId proposalId now proposal analysis profile goal context db)
    (hnone : context.blockingReasons = []) {o : OldStep} (ho : o ∈ context.oldSteps)
    (hcompleted : o.row.state = .completed) : o.HasEvent userId db.events := by
  obtain ⟨-, hverified, -⟩ := h.unblocked hnone
  obtain ⟨e, he, hrest⟩ := hverified o (List.mem_filter.mpr ⟨ho, decide_eq_true hcompleted⟩)
  rw [h.oldSteps] at ho
  obtain ⟨r, -, -, rfl⟩ := mem_oldSteps.mp ho
  obtain ⟨eventId, hevent, hfound⟩ := Option.bind_eq_some_iff.mp he
  obtain ⟨hmem, rfl⟩ := lookup_some hfound
  exact ⟨e, hmem, hevent, hrest⟩

/-- A revision carries verified completions over. -/
theorem applyRoadmapRevision_verified {googleAccountsOnly : Bool}
    {request : RoadmapRevisionApply} {draw : RevisionDraw} {now : Int}
    {applied : RoadmapRevisionApplied}
    (h : Yields (applyRoadmapRevision googleAccountsOnly request draw now) s applied t)
    (hs : CompletionsVerified s.1) : CompletionsVerified t.1 := by
  obtain ⟨context, proposal, analysis, profile, goal, roadmap, s₁, s₂, hloaded, hnone, hcreated,
    hpreserve, hmutated⟩ := applyRoadmapRevision_spec h
  obtain ⟨progress, u, hrounds, -, hsteps, hinheritances, hevents, -, hroadmaps⟩ :=
    preserveRevisionProgress_spec hpreserve
  have hproposed := hloaded.proposedSteps
  have hold (o : OldStep) (ho : o ∈ context.oldSteps) (hcompleted : o.row.state = .completed) :
      o.HasEvent request.userId s₁.1.events := by
    have hevent := hloaded.hasEvent hnone ho hcompleted
    rwa [show s.1.events = s₁.1.events by rw [hcreated.written]] at hevent
  have howner : ∃ m ∈ s₁.1.roadmaps, m.id = draw.roadmapId ∧ m.userId = request.userId := by
    rw [hcreated.written]
    exact ⟨_, List.mem_append_right _ List.mem_cons_self, rfl, rfl⟩
  have hrounded : RoundLaws context draw.roadmapId draw.stepId s₁.1 u.1 :=
    Yields.foldlM_induction
      (P := fun _ _ (db : Database) ↦ RoundLaws context draw.roadmapId draw.stepId s₁.1 db.1)
      (fun done o p a q b hpre hp hround ↦ by
        have ho := hpre.subset (List.mem_append_right done (List.mem_cons_self (a := o)))
        exact hp.round
          (fun x hx id hid ↦ hproposed ▸ newId_created hcreated (hproposed ▸ hx) hid) howner ho
          (hold o ho) (preserveStep_spec hround))
      (roundLaws_start hcreated hproposed (inheritable_iff hloaded hnone) hs) hrounds
  exact hmutated.completionsKept.verified
    ((completionsKept_of_same hsteps hinheritances (fun e he ↦ hevents ▸ he)
      fun m hm ↦ (hroadmaps m hm).1).verified hrounded.verified)

/-- From verified completions to verified completions. -/
def KeepsVerified (s t : Database) : Prop := CompletionsVerified s.1 → CompletionsVerified t.1

instance keepsVerifiedRefl : Std.Refl KeepsVerified := ⟨fun _ h ↦ h⟩

instance keepsVerifiedTrans : IsTrans Database KeepsVerified := ⟨fun _ _ _ hst htu h ↦ htu (hst h)⟩

private theorem within_create {request : RoadmapCreate} {stepId : Nat → Uuid} {now : Int} :
    Within KeepsVerified (createRoadmap request stepId now) := by
  intro s _ t h hs
  obtain ⟨-, proposal, analysis, hcreated⟩ := createRoadmap_spec h
  exact hcreated.completionsVerified hs

private theorem within_mutate {request : RoadmapMutation} {now : Int} :
    Within KeepsVerified (mutateRoadmap request now) := by
  intro s _ t h hs
  obtain ⟨-, roadmap, hmutated⟩ := mutateRoadmap_spec h
  exact hmutated.completionsKept.verified hs

/-- The follow-up of a request makes and activates roadmaps only. -/
theorem within_reconcile {requestId : Uuid} {title : String} {draw : RoadmapDraw}
    {now : Int} : Within KeepsVerified (reconcileAutomaticRoadmap requestId title draw now) := by
  unfold reconcileAutomaticRoadmap
  refine .bind (within_query _) fun pending ↦ ?_
  cases pending with
  | none => exact .pure ()
  | some row =>
    refine .bind (within_query _) fun _ ↦ .bind (within_query _) fun _ ↦
      .bind (.when ?_) fun _ ↦ within_statement fun s t hst ↦ ?_
    · refine .bind (within_query _) fun existing ↦ .when (.savepoint ?_)
      cases existing with
      | none => exact .bind within_create fun _ ↦ .bind within_mutate fun _ ↦ .pure ()
      | some draft => exact .bind within_mutate fun _ ↦ .pure ()
    · intro hs
      rw [← hst]
      exact (completionsKept_of_same rfl rfl (fun _ he ↦ he) fun m hm ↦
        ⟨m, hm, rfl, rfl⟩).verified hs

private theorem mem_reason {c : Prop} [Decidable c] {text text' : String} :
    text' ∈ reason c text ↔ c ∧ text' = text := by
  unfold reason
  by_cases h : c
  · simp [h]
  · simp [h]

/-- No revision is refused because a completion is unverified. -/
theorem RevisionLoaded.not_unverified {userId roadmapId proposalId : Uuid} {now : Int}
    {proposal : ProposalRow} {analysis : AnalysisRow} {profile : ProfileRow} {goal : GoalRow}
    {context : RevisionContext}
    (h : RevisionLoaded userId roadmapId proposalId now proposal analysis profile goal context s.1)
    (hs : CompletionsVerified s.1) :
    "COMPLETED_HISTORY_UNVERIFIED" ∉ context.blockingReasons := by
  have hverified : ∀ o ∈ completedOf context.oldSteps, o.verified userId := by
    intro o ho
    obtain ⟨ho, hcompleted⟩ := List.mem_filter.mp ho
    rw [h.oldSteps] at ho
    obtain ⟨r, hr, hroadmap, rfl⟩ := mem_oldSteps.mp ho
    obtain ⟨e, he, hevent, hkind, houtcomes, m, hm, hmid, hmuser⟩ :=
      hs r hr (of_decide_eq_true hcompleted)
    obtain ⟨hmem, hid, huser⟩ := h.roadmap
    obtain rfl := s.2.roadmaps.key.eq_of_mem hm hmem (hmid.trans (hroadmap.trans hid.symm))
    refine ⟨e, ?_, hmuser.symm.trans huser, hkind, houtcomes⟩
    exact Option.bind_eq_some_iff.mpr ⟨e.id, hevent, (lookup_eq_some s.2.events.key).mpr ⟨he, rfl⟩⟩
  have hnone : ¬ ∃ o ∈ completedOf context.oldSteps, ¬ o.verified userId :=
    fun ⟨o, ho, hnot⟩ ↦ hnot (hverified o ho)
  rw [h.blockingReasons]
  unfold Store.blockingReasons
  simp only [List.mem_eraseDups, List.mem_append, mem_reason, hnone]
  cases proposal.targetBy with
  | absent => simp
  | malformed => simp
  | value target => simp [mem_reason]

end Transactions

/-! ### Runs -/

/-- The transactions that write steps or roadmaps, and what any other code commits. -/
inductive RoadmapAction where
  | create (request : RoadmapCreate) (stepId : Nat → Uuid) (now : Int)
  | mutate (request : RoadmapMutation) (now : Int)
  | step (carryForward : CarryForward) (request : StepStateMutation) (draw : StepDraw)
  | revise (googleAccountsOnly : Bool) (request : RoadmapRevisionApply) (draw : RevisionDraw)
      (now : Int)
  | reconcile (requestId : Uuid) (title : String) (draw : RoadmapDraw) (now : Int)
  | deleteGoal (carryForward : CarryForward) (request : GoalDelete) (eventId : Uuid)
      (draw : EnqueueDraw)
  | deleteAccount (userId : Uuid)
  | outside (db : Database)

/-- One action. What other code commits completes no step and leaves the completed ones. -/
def RoadmapAction.apply (s : Database) : RoadmapAction → Database
  | .create request stepId now => (createRoadmap request stepId now).commit s
  | .mutate request now => (mutateRoadmap request now).commit s
  | .step carryForward request draw => (mutateStepState carryForward request draw).commit s
  | .revise googleAccountsOnly request draw now =>
    (applyRoadmapRevision googleAccountsOnly request draw now).commit s
  | .reconcile requestId title draw now =>
    (reconcileAutomaticRoadmap requestId title draw now).commit s
  | .deleteGoal carryForward request eventId draw =>
    (Store.deleteGoal carryForward request eventId draw).commit s
  | .deleteAccount userId => (Store.deleteAccount userId).commit s
  | .outside db => if CompletionsKept s.1 db.1 then db else s

private theorem verified_commit {α : Type} {x : Txn α} (hx : Within KeepsVerified x)
    {s : Database} (hs : CompletionsVerified s.1) : CompletionsVerified (x.commit s).1 := by
  rcases commit_cases x s with hsame | ⟨a, hyields⟩
  · rw [hsame]
    exact hs
  · exact hx _ _ _ hyields hs

/-- Every action keeps completions verified. -/
theorem RoadmapAction.apply_verified (action : RoadmapAction) {s : Database}
    (hs : CompletionsVerified s.1) : CompletionsVerified (action.apply s).1 := by
  cases action with
  | create request stepId now => exact verified_commit within_create hs
  | mutate request now => exact verified_commit within_mutate hs
  | step carryForward request draw =>
    exact verified_commit (fun _ _ _ h ↦ mutateStepState_verified h) hs
  | revise googleAccountsOnly request draw now =>
    exact verified_commit (fun _ _ _ h ↦ applyRoadmapRevision_verified h) hs
  | reconcile requestId title draw now => exact verified_commit within_reconcile hs
  | deleteGoal carryForward request eventId draw =>
    exact verified_commit (fun _ _ _ h ↦ (deleteGoal_spec h).completionsKept.verified) hs
  | deleteAccount userId =>
    refine verified_commit (fun _ _ _ h hs ↦ ?_) hs
    rcases deleteAccount_spec h with ⟨-, rfl⟩ | hwithout
    · exact hs
    · exact withoutAccount_verified hwithout hs
  | outside db =>
    change CompletionsVerified (if _ then _ else _ : Database).1
    split
    · next hkept => exact hkept.verified hs
    · exact hs

/-- Whatever happens to roadmaps, steps, goals and accounts, in any order, every completed step
names the event of its account that completed a step with its outcomes, and so no revision is
refused because its history is unverified.
`src/jobtology_be/infrastructure/persistence/roadmap_revisions.py:103–354`,
`src/jobtology_be/infrastructure/persistence/roadmap_steps.py:41–204`,
`src/jobtology_be/infrastructure/persistence/store.py:529–899`,
`src/jobtology_be/infrastructure/persistence/goal_deletion.py:28–150`,
`src/jobtology_be/infrastructure/persistence/accounts.py:15–63`. -/
theorem completions_stay_verified (actions : List RoadmapAction)
    (userId roadmapId proposalId : Uuid) (now : Int) :
    let s := run RoadmapAction.apply Database.empty actions
    CompletionsVerified s.1 ∧
      ∀ context t, Yields (loadRevision userId roadmapId proposalId now) s context t →
        "COMPLETED_HISTORY_UNVERIFIED" ∉ context.blockingReasons := by
  intro s
  have hverified : CompletionsVerified s.1 :=
    run_induction (P := fun s : Database ↦ CompletionsVerified s.1)
      (fun _ action h ↦ action.apply_verified h) (fun r hr ↦ absurd hr List.not_mem_nil) actions
  refine ⟨hverified, fun context t h ↦ ?_⟩
  obtain ⟨-, proposal, analysis, profile, goal, hloaded⟩ := loadRevision_spec h
  exact hloaded.not_unverified hverified

/-- A user with a proposal for the active goal. -/
def plannedDb : Db where
  users := [⟨1, true, none⟩]
  profiles := [⟨1, 1, some 20⟩]
  goals := [⟨10, 1, .targeted, some "o", 10 * Time.hour, "UTC", .active⟩]
  analyses := [⟨20, 1, 10, 1, none, .ready, some "o", some "o"⟩]
  traces := [⟨30, 1⟩]
  proposals := [twoStepProposal]

private theorem plannedDb_valid : Constraints plannedDb := by decide +kernel

/-- The roadmap of the proposal is activated, and its first step completed. -/
def completingRun : List RoadmapAction :=
  [.outside ⟨plannedDb, plannedDb_valid⟩, .create ⟨1, 50, 10, 40, "route", 1⟩ (60 + ·) 0,
    .mutate ⟨1, 50, 1, 1, .active, none⟩ 0,
    .step (fun _ _ _ _ ↦ none) ⟨1, 50, 60, 2, 1, .completed⟩ ⟨70, (71 + ·), ⟨73, 74, 0⟩⟩]

/-- A later analysis, and a proposal without the completed step. -/
def reanalysedDb : Db :=
  let db := (run RoadmapAction.apply Database.empty completingRun).1
  { db with
    profiles := [⟨1, 2, some 21⟩]
    analyses := db.analyses ++ [⟨21, 1, 10, 2, none, .ready, some "o", some "o"⟩]
    proposals := db.proposals ++ [{ twoStepProposal with
      id := 41, analysisId := 21, profileVersion := 2
      steps := twoStepProposal.steps.drop 1 |>.map fun x ↦
        { x with prerequisiteStepKeys := [] } }] }

private theorem reanalysedDb_valid : Constraints reanalysedDb := by decide +kernel

/-- The roadmap is revised by it. -/
def revisingRun : List RoadmapAction :=
  completingRun ++ [.outside ⟨reanalysedDb, reanalysedDb_valid⟩,
    .revise false ⟨1, 50, 41, "", 3, 2, 0, none⟩ ⟨51, (80 + ·), (90 + ·)⟩ 0]

/-- The completed step is carried on into the roadmap that replaces the first. -/
theorem completions_stay_verified_carried :
    ∃ s : Database, s = run RoadmapAction.apply Database.empty revisingRun ∧
      (s.1.steps.filter (·.state = .completed)).map (fun r ↦ (r.id, r.roadmapId)) =
        [(60, 50), (90, 51)] ∧
      (s.1.roadmaps.map fun r ↦ (r.id, r.state)) = [(50, .archived), (51, .active)] ∧
      CompletionsVerified s.1 :=
  ⟨_, rfl, by decide +kernel, by decide +kernel,
    (completions_stay_verified revisingRun 1 51 41 0).1⟩

end Jobtology.Store
