import Jobtology.Store.RecomputeQueue
import Jobtology.Store.Roadmaps

/-!
# Step transitions

`mutate_step_state` of `roadmap_steps.py`, with the canonical outcomes of
`completion_outcomes.py`.
-/

namespace Jobtology.Store

open Jobtology.Base Jobtology.Relational
open Jobtology.Relational.Transaction
open Jobtology.Weekly (StepState)

/-! ### Canonical outcomes -/

/-- `CanonicalCompletionOutcome`. A provenance item is an outcome with sorted codes.
`src/jobtology_be/infrastructure/persistence/completion_outcomes.py:15–20`. -/
structure CanonicalCompletionOutcome where
  entityId : String
  rawText : String
  requirementKeys : List String
  experienceCodes : List String
  provenance : List RoadmapOutcome
  deriving DecidableEq

/-- The outcome with its experience codes sorted, each once. -/
def RoadmapOutcome.canonical (o : RoadmapOutcome) : RoadmapOutcome :=
  { o with experienceCodes := sortedSet o.experienceCodes.toFinset }

/-- Order of the provenance: by requirement key, text and codes. -/
def provenanceOrder (o p : RoadmapOutcome) : Prop :=
  o.requirementKey < p.requirementKey ∨ (o.requirementKey = p.requirementKey ∧
    (o.rawText < p.rawText ∨ (o.rawText = p.rawText ∧ o.experienceCodes ≤ p.experienceCodes)))

instance : DecidableRel provenanceOrder := fun _ _ ↦ inferInstanceAs (Decidable (_ ∨ _))

/-- The canonical outcome of an entity. -/
def canonicalOutcome (outcomes : List RoadmapOutcome) (entityId : String) :
    CanonicalCompletionOutcome :=
  let provenance := ((outcomes.filter (·.entityId = entityId)).map (·.canonical)).insertionSort
    provenanceOrder
  { entityId := entityId
    rawText := (provenance.head?.map (·.rawText)).getD ""
    requirementKeys := provenance.map (·.requirementKey)
    experienceCodes := sortedSet (provenance.flatMap (·.experienceCodes)).toFinset
    provenance := provenance }

/-- `canonical_completion_outcomes`: one outcome for each entity, by entity.
`src/jobtology_be/infrastructure/persistence/completion_outcomes.py:23–57`. -/
def canonicalCompletionOutcomes (outcomes : List RoadmapOutcome) :
    List CanonicalCompletionOutcome :=
  (sortedSet (outcomes.map (·.entityId)).toFinset).map (canonicalOutcome outcomes)

/-! ### `mutate_step_state` -/

/-- `StepStateMutation`. -/
structure StepStateMutation where
  userId : Uuid
  roadmapId : Uuid
  stepId : Uuid
  expectedRoadmapVersion : Nat
  expectedProfileVersion : Nat
  state : StepState

/-- The values that a step transition draws. -/
structure StepDraw where
  eventId : Uuid
  capabilityId : Nat → Uuid
  enqueue : EnqueueDraw

/-- The transitions that are allowed. -/
def validTransitions : List (StepState × StepState) :=
  [(.todo, .inProgress), (.todo, .completed), (.inProgress, .todo), (.inProgress, .completed),
    (.completed, .inProgress), (.completed, .todo)]

/-- Set the state of a step and raise the version of its roadmap. -/
def writeStepState (request : StepStateMutation) : Txn Unit := do
  statement fun db ↦ { db with
    steps := update (fun s ↦ s.id = request.stepId ∧ s.roadmapId = request.roadmapId)
      (fun s ↦ { s with state := request.state }) db.steps }
  statement fun db ↦ { db with
    roadmaps := update (·.id = request.roadmapId) (fun r ↦ { r with version := r.version + 1 })
      db.roadmaps }

/-- Revoke the capabilities of the step's completion. -/
def revokeCompletion (stepId : Uuid) : Txn Unit := do
  let eventId ← query fun db ↦
    (lookup (·.stepId) db.inheritances stepId).map (·.originalCompletionEventId)
  let eventId ← demand eventId (.conflict "step completion lineage")
  statement fun db ↦ { db with
    capabilities := update (·.sourceCompletionEventId = some eventId)
      (fun c ↦ { c with lifecycle := .revoked }) db.capabilities }

/-- The capability of a completed outcome. -/
def outcomeCapability (userId stepId eventId capabilityId : Uuid)
    (outcome : CanonicalCompletionOutcome) : CapabilityRow where
  id := capabilityId
  userId := userId
  category := "ROADMAP_OUTCOME"
  rawText := outcome.rawText
  entityId := some outcome.entityId
  lifecycle := .active
  details := ⟨outcome.requirementKeys, outcome.experienceCodes, outcome.provenance, some stepId⟩
  sourceCompletionEventId := some eventId

/-- Insert a capability unless the completion already gave one for the entity. -/
def insertCapability (row : CapabilityRow) : Txn Unit := do
  let taken ← query fun db ↦ db.capabilities.any fun c ↦
    c.sourceCompletionEventId = row.sourceCompletionEventId ∧ c.entityId = row.entityId
  if taken then pure ()
  else statement fun db ↦ { db with capabilities := db.capabilities ++ [row] }

/-- Record the completion of a step: the event it stands for and its capabilities. -/
def recordCompletion (request : StepStateMutation) (outcomes : List RoadmapOutcome)
    (draw : StepDraw) : Txn Unit := do
  statement fun db ↦ { db with
    inheritances :=
      if db.inheritances.any (·.stepId = request.stepId) then
        update (·.stepId = request.stepId)
          (fun i ↦ { i with originalCompletionEventId := draw.eventId }) db.inheritances
      else db.inheritances ++ [⟨request.stepId, draw.eventId⟩] }
  require (∀ o ∈ outcomes, o.Valid) .validation
  (canonicalCompletionOutcomes outcomes).zipIdx.forM fun (outcome, index) ↦
    insertCapability (outcomeCapability request.userId request.stepId draw.eventId
      (draw.capabilityId index) outcome)

/-- The transition takes a completion back. -/
def StepStateMutation.reverses (request : StepStateMutation) (step : StepRow) : Prop :=
  step.state = .completed ∧ request.state ≠ .completed

instance (request : StepStateMutation) (step : StepRow) : Decidable (request.reverses step) :=
  inferInstanceAs (Decidable (_ ∧ _))

/-- The kind of event that a transition appends. -/
def StepStateMutation.eventKind (request : StepStateMutation) (step : StepRow) : EventKind :=
  if request.reverses step then .stepCompletionReversed
  else if request.state = .completed then .stepCompleted
  else .stepStateUpdated

/-- `mutate_step_state`. `src/jobtology_be/infrastructure/persistence/roadmap_steps.py:41–168`,
`src/jobtology_be/infrastructure/persistence/store.py:899–900`. -/
def mutateStepState (carryForward : CarryForward) (request : StepStateMutation)
    (draw : StepDraw) : Txn RoadmapSnapshot := do
  bumpProfile request.userId request.expectedProfileVersion
  let roadmap ← query fun db ↦ db.roadmaps.find? fun r ↦ r.id = request.roadmapId ∧
    r.userId = request.userId ∧ r.version = request.expectedRoadmapVersion
  let roadmap ← demand (roadmap.filter (·.state = .active)) (.conflict "active roadmap")
  let step ← query fun db ↦ db.steps.find? fun s ↦
    s.id = request.stepId ∧ s.roadmapId = request.roadmapId
  let step ← demand step (.missing "roadmap step")
  require ((step.state, request.state) ∈ validTransitions) (.conflict "step state transition")
  writeStepState request
  when (request.reverses step) (revokeCompletion request.stepId)
  appendEvent ⟨draw.eventId, request.userId, request.stepId, request.expectedProfileVersion + 1,
    request.eventKind step, ⟨some step.outcomes, none⟩⟩
  when (request.state = .completed) (recordCompletion request step.outcomes draw)
  enqueueForGoal carryForward request.userId (request.expectedProfileVersion + 1) draw.eventId
    roadmap.goalId draw.enqueue
  return ⟨request.roadmapId, request.expectedRoadmapVersion + 1, .active⟩

/-! ### What a transition writes -/

/-- The inheritances after a step is completed by an event. -/
def setInheritance (stepId eventId : Uuid) (inheritances : List InheritanceRow) :
    List InheritanceRow :=
  if inheritances.any (·.stepId = stepId) then
    update (·.stepId = stepId) (fun i ↦ { i with originalCompletionEventId := eventId })
      inheritances
  else inheritances ++ [⟨stepId, eventId⟩]

/-- The event that completed a step. -/
def Db.completionEvent (db : Db) (stepId : Uuid) : Option Uuid :=
  (lookup (·.stepId) db.inheritances stepId).map (·.originalCompletionEventId)

/-- The capabilities after a row is inserted unless its completion already gave one for the
entity. -/
def withCapability (capabilities : List CapabilityRow) (row : CapabilityRow) :
    List CapabilityRow :=
  if capabilities.any fun c ↦ c.sourceCompletionEventId = row.sourceCompletionEventId ∧
    c.entityId = row.entityId then capabilities
  else capabilities ++ [row]

/-- The capabilities that a completion grants. -/
def grantedCapabilities (request : StepStateMutation) (step : StepRow) (draw : StepDraw) :
    List CapabilityRow :=
  (canonicalCompletionOutcomes step.outcomes).zipIdx.map fun (outcome, index) ↦
    outcomeCapability request.userId request.stepId draw.eventId (draw.capabilityId index) outcome

/-- The capabilities after those of a completion are revoked. -/
def revokedCapabilities (eventId : Option Uuid) (capabilities : List CapabilityRow) :
    List CapabilityRow :=
  update (·.sourceCompletionEventId = eventId) (fun c ↦ { c with lifecycle := .revoked })
    capabilities

/-- What a step transition that succeeds found and writes. -/
structure StepMutated (request : StepStateMutation) (draw : StepDraw) (roadmap : RoadmapRow)
    (step : StepRow) (s t : Db) : Prop where
  profileFound : s.profileVersion request.userId = some request.expectedProfileVersion
  roadmapFound : roadmap ∈ s.roadmaps ∧ roadmap.id = request.roadmapId ∧
    roadmap.userId = request.userId ∧ roadmap.state = .active
  roadmapVersion : roadmap.version = request.expectedRoadmapVersion
  stepFound : step ∈ s.steps ∧ step.id = request.stepId ∧ step.roadmapId = request.roadmapId
  transition : (step.state, request.state) ∈ validTransitions
  lineage : request.reverses step → (s.completionEvent request.stepId).isSome
  roadmaps : t.roadmaps =
    update (·.id = request.roadmapId) (fun r ↦ { r with version := r.version + 1 }) s.roadmaps
  steps : t.steps =
    update (fun x ↦ x.id = request.stepId ∧ x.roadmapId = request.roadmapId)
      (fun x ↦ { x with state := request.state }) s.steps
  events : ∃ e, e.id = draw.eventId ∧ e.userId = request.userId ∧ t.events = s.events ++ [e]
  inheritances : t.inheritances = if request.state = .completed then
    setInheritance request.stepId draw.eventId s.inheritances else s.inheritances
  capabilities : t.capabilities =
    if request.state = .completed then
      (grantedCapabilities request step draw).foldl withCapability s.capabilities
    else if request.reverses step then
      revokedCapabilities (s.completionEvent request.stepId) s.capabilities
    else s.capabilities
  others : t = { s with
    profiles := t.profiles, roadmaps := t.roadmaps, steps := t.steps, events := t.events
    inheritances := t.inheritances, capabilities := t.capabilities, requests := t.requests
    contexts := t.contexts, jobs := t.jobs }
  requests : RequestsKept (some draw.enqueue.requestId) s t

private theorem insertCapability_spec {row : CapabilityRow} {s t : Database} {u : Unit}
    (h : Yields (insertCapability row) s u t) :
    t.1 = { s.1 with capabilities := withCapability s.1.capabilities row } := by
  unfold insertCapability at h
  unfold withCapability
  simp only [yields_query_bind] at h
  obtain ⟨htaken, h⟩ | ⟨hfree, h⟩ := yields_ite.mp h
  · obtain ⟨-, rfl⟩ := yields_pure.mp h
    rw [if_pos htaken]
  · rw [if_neg hfree]
    exact (yields_statement.mp h).symm

private theorem insertCapabilities_spec {α : Type} (row : α → CapabilityRow) (xs : List α)
    {s t : Database} {u : PUnit} (h : Yields (xs.forM fun x ↦ insertCapability (row x)) s u t) :
    t.1 = { s.1 with
      capabilities := (xs.map row).foldl withCapability s.1.capabilities } := by
  induction xs generalizing s with
  | nil =>
    obtain rfl := yields_forM_nil.mp h
    rfl
  | cons x xs ih =>
    obtain ⟨v, hv, h⟩ := yields_forM_cons.mp h
    rw [ih h, insertCapability_spec hv]
    rfl

private theorem recordCompletion_spec {request : StepStateMutation} {step : StepRow}
    {draw : StepDraw} {s t : Database} {u : Unit}
    (h : Yields (recordCompletion request step.outcomes draw) s u t) :
    t.1 = { s.1 with
      inheritances := setInheritance request.stepId draw.eventId s.1.inheritances
      capabilities :=
        (grantedCapabilities request step draw).foldl withCapability s.1.capabilities } := by
  unfold recordCompletion at h
  simp only [yields_seq, yields_statement, ↓yields_require_bind] at h
  obtain ⟨v, hv, -, hcapabilities⟩ := h
  rw [insertCapabilities_spec _ _ hcapabilities, ← hv]
  rfl

/-- A transition sets the state of its step. -/
theorem writeStepState_spec {request : StepStateMutation} {s t : Database} {u : Unit}
    (h : Yields (writeStepState request) s u t) :
    t.1 = { s.1 with
      roadmaps := update (·.id = request.roadmapId) (fun r ↦ { r with version := r.version + 1 })
        s.1.roadmaps
      steps := update (fun x ↦ x.id = request.stepId ∧ x.roadmapId = request.roadmapId)
        (fun x ↦ { x with state := request.state }) s.1.steps } := by
  unfold writeStepState at h
  simp only [yields_seq, yields_statement] at h
  obtain ⟨_, h₁, h₂⟩ := h
  simp only [← h₁] at h₂
  exact h₂.symm

/-- A reversal revokes the capabilities of the completion. -/
theorem revoke_spec {request : StepStateMutation} {step : StepRow} {s t : Database}
    {u : Unit}
    (h : Yields (when (request.reverses step) (revokeCompletion request.stepId)) s u t) :
    (request.reverses step → (s.1.completionEvent request.stepId).isSome) ∧
      t.1 = { s.1 with
        capabilities := if request.reverses step then
          revokedCapabilities (s.1.completionEvent request.stepId) s.1.capabilities
        else s.1.capabilities } := by
  obtain ⟨hreverses, h⟩ | ⟨hnot, rfl⟩ := yields_when.mp h
  · unfold revokeCompletion at h
    simp only [yields_query_bind, yields_demand_bind, yields_statement] at h
    obtain ⟨eventId, hevent, hwrite⟩ := h
    have hevent : s.1.completionEvent request.stepId = some eventId := hevent
    refine ⟨fun _ ↦ Option.isSome_iff_exists.mpr ⟨eventId, hevent⟩, ?_⟩
    rw [if_pos hreverses, hevent]
    exact hwrite.symm
  · rw [if_neg hnot]
    exact ⟨fun hreverses ↦ absurd hreverses hnot, rfl⟩

/-- A completion records its event. -/
theorem record_spec {request : StepStateMutation} {step : StepRow} {draw : StepDraw}
    {s t : Database} {u : Unit}
    (h : Yields (when (request.state = .completed) (recordCompletion request step.outcomes draw))
      s u t) :
    t.1 = { s.1 with
      inheritances := if request.state = .completed then
        setInheritance request.stepId draw.eventId s.1.inheritances else s.1.inheritances
      capabilities := if request.state = .completed then
        (grantedCapabilities request step draw).foldl withCapability s.1.capabilities
      else s.1.capabilities } := by
  obtain ⟨hcompleted, h⟩ | ⟨hnot, rfl⟩ := yields_when.mp h
  · rw [if_pos hcompleted, if_pos hcompleted]
    exact recordCompletion_spec h
  · rw [if_neg hnot, if_neg hnot]

/-- What a transition that succeeds does. -/
theorem mutateStepState_spec {carryForward : CarryForward} {request : StepStateMutation}
    {draw : StepDraw} {s t : Database} {snapshot : RoadmapSnapshot}
    (h : Yields (mutateStepState carryForward request draw) s snapshot t) :
    ∃ roadmap step, StepMutated request draw roadmap step s.1 t.1 := by
  unfold mutateStepState at h
  simp only [yields_query_bind, ↓yields_require_bind, ↓yields_demand_bind, yields_seq,
    yields_pure] at h
  obtain ⟨s₁, hbump, roadmap, hroadmap, step, hstep, htransition, s₂, hwrite, s₃, hrevoke, s₄,
    hevent, s₅, hrecord, s₆, hqueue, -, rfl⟩ := h
  obtain ⟨hroadmap, hactive⟩ := Option.filter_eq_some_iff.mp hroadmap
  have hroadmap' := List.find?_some hroadmap
  have hstep' := List.find?_some hstep
  simp only [decide_eq_true_eq] at hroadmap' hactive hstep'
  obtain ⟨hprofile, h₁⟩ := bumpProfile_spec hbump
  have h₂ := writeStepState_spec hwrite
  obtain ⟨hlineage, h₃⟩ := revoke_spec hrevoke
  have h₄ := (yields_statement.mp hevent).symm
  have h₅ := record_spec hrecord
  have hqueued := enqueueForGoal_frame _ _ _ _ _ _ _ _ _ hqueue
  have h₆ := hqueued.others
  -- each part of the session reads what the parts before it wrote
  simp only [h₁] at hroadmap hstep h₂
  simp only [h₂] at hlineage h₃
  simp only [h₃] at h₄
  simp only [h₄] at h₅
  simp only [h₅] at h₆
  have hrequests : s₅.1.requests = s.1.requests := by rw [h₅]
  exact ⟨roadmap, step, {
    profileFound := hprofile
    roadmapFound := ⟨List.mem_of_find?_eq_some hroadmap, hroadmap'.1, hroadmap'.2.1, hactive⟩
    roadmapVersion := hroadmap'.2.2
    stepFound := ⟨List.mem_of_find?_eq_some hstep, hstep'.1, hstep'.2⟩
    transition := htransition
    lineage := hlineage
    roadmaps := by rw [h₆]
    steps := by rw [h₆]
    events := ⟨_, rfl, rfl, by rw [h₆]⟩
    inheritances := by rw [h₆]
    capabilities := by
      rw [h₆]
      by_cases hcompleted : request.state = .completed
      · simp only [if_pos hcompleted]
        rw [if_neg fun hreverses ↦ hreverses.2 hcompleted]
      · simp only [if_neg hcompleted]
        rfl
    others := by rw [h₆]
    requests := (requestsKept_of_subset fun r hr ↦ hrequests ▸ hr).trans hqueued.requests }⟩

end Jobtology.Store
