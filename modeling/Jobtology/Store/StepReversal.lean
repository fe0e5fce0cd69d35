import Jobtology.Store.RoadmapSteps

/-!
# Taking a completion back

Completing a step and reversing that completion later leaves the profile's active capabilities as
the transitions in between alone would have left them.
-/

namespace Jobtology.Store

open Jobtology.Base Jobtology.Relational
open Jobtology.Relational.Transaction
open Jobtology.Weekly (StepState)

/-! ### Capabilities of one completion -/

section Rows

variable {eventId : Uuid} {capabilities : List CapabilityRow}

/-- The capabilities that a completion did not grant. -/
def notGrantedBy (eventId : Uuid) (capabilities : List CapabilityRow) : List CapabilityRow :=
  capabilities.filter (·.sourceCompletionEventId ≠ some eventId)

/-- The active capabilities.
`src/jobtology_be/infrastructure/persistence/configured_recompute.py:121–166`. -/
def activeCapabilities (capabilities : List CapabilityRow) : List CapabilityRow :=
  capabilities.filter (·.lifecycle = .active)

private theorem notGrantedBy_withCapability_of_ne {row : CapabilityRow}
    (hrow : row.sourceCompletionEventId ≠ some eventId) :
    notGrantedBy eventId (withCapability capabilities row) =
      withCapability (notGrantedBy eventId capabilities) row := by
  have hany : ((notGrantedBy eventId capabilities).any fun c ↦
      c.sourceCompletionEventId = row.sourceCompletionEventId ∧ c.entityId = row.entityId) =
      capabilities.any fun c ↦
        c.sourceCompletionEventId = row.sourceCompletionEventId ∧ c.entityId = row.entityId := by
    rw [Bool.eq_iff_iff, List.any_eq_true, List.any_eq_true]
    constructor
    · rintro ⟨c, hc, htaken⟩
      exact ⟨c, (List.mem_filter.mp hc).1, htaken⟩
    · rintro ⟨c, hc, htaken⟩
      refine ⟨c, List.mem_filter.mpr ⟨hc, ?_⟩, htaken⟩
      rw [(of_decide_eq_true htaken).1]
      simpa using hrow
  unfold withCapability
  rw [hany]
  split
  · rfl
  · unfold notGrantedBy
    rw [List.filter_append, List.filter_cons_of_pos (by simpa using hrow), List.filter_nil]

private theorem notGrantedBy_withCapability_self {row : CapabilityRow}
    (hrow : row.sourceCompletionEventId = some eventId) :
    notGrantedBy eventId (withCapability capabilities row) = notGrantedBy eventId capabilities := by
  unfold withCapability
  split
  · rfl
  · unfold notGrantedBy
    rw [List.filter_append, List.filter_cons_of_neg (by simpa using hrow), List.filter_nil,
      List.append_nil]

/-- Another completion grants the same with and without the rows of this one. -/
theorem notGrantedBy_foldl_of_ne {rows : List CapabilityRow}
    (h : ∀ row ∈ rows, row.sourceCompletionEventId ≠ some eventId) :
    notGrantedBy eventId (rows.foldl withCapability capabilities) =
      rows.foldl withCapability (notGrantedBy eventId capabilities) := by
  induction rows generalizing capabilities with
  | nil => rfl
  | cons row rows ih =>
    rw [List.forall_mem_cons] at h
    rw [List.foldl_cons, ih h.2, notGrantedBy_withCapability_of_ne h.1, List.foldl_cons]

/-- This completion grants rows of its own only. -/
theorem notGrantedBy_foldl_self {rows : List CapabilityRow}
    (h : ∀ row ∈ rows, row.sourceCompletionEventId = some eventId) :
    notGrantedBy eventId (rows.foldl withCapability capabilities) =
      notGrantedBy eventId capabilities := by
  induction rows generalizing capabilities with
  | nil => rfl
  | cons row rows ih =>
    rw [List.forall_mem_cons] at h
    rw [List.foldl_cons, ih h.2, notGrantedBy_withCapability_self h.1]

/-- Revoking does not change which completion granted a capability. -/
theorem notGrantedBy_revoked (revoked : Option Uuid) :
    notGrantedBy eventId (revokedCapabilities revoked capabilities) =
      revokedCapabilities revoked (notGrantedBy eventId capabilities) := by
  unfold notGrantedBy revokedCapabilities update
  rw [List.filter_map]
  congr 1
  apply List.filter_congr
  intro c _
  rw [Function.comp_apply]
  split <;> rfl

/-- Revoking what a completion granted leaves the active capabilities that it did not grant. -/
theorem activeCapabilities_revoked :
    activeCapabilities (revokedCapabilities (some eventId) capabilities) =
      activeCapabilities (notGrantedBy eventId capabilities) := by
  induction capabilities with
  | nil => rfl
  | cons c rest ih =>
    have hcons : revokedCapabilities (some eventId) (c :: rest) =
        (if c.sourceCompletionEventId = some eventId then { c with lifecycle := .revoked } else c)
          :: revokedCapabilities (some eventId) rest := rfl
    unfold activeCapabilities notGrantedBy at ih ⊢
    rw [hcons]
    by_cases hsource : c.sourceCompletionEventId = some eventId
    · rw [if_pos hsource, List.filter_cons_of_neg (by simp),
        List.filter_cons_of_neg (p := fun c : CapabilityRow ↦ _) (by simpa using hsource), ih]
    · rw [if_neg hsource, List.filter_cons_of_pos (p := fun c : CapabilityRow ↦
        decide (c.sourceCompletionEventId ≠ some eventId)) (by simpa using hsource),
        List.filter_cons, List.filter_cons, ih]

/-- Everything that a completion grants carries its event. -/
theorem source_of_mem_grantedCapabilities {request : StepStateMutation} {step : StepRow}
    {draw : StepDraw} {row : CapabilityRow} (h : row ∈ grantedCapabilities request step draw) :
    row.sourceCompletionEventId = some draw.eventId := by
  obtain ⟨outcome, -, rfl⟩ := List.mem_map.mp h
  rfl

end Rows

/-! ### Lineage of the other steps -/

/-- Completing a step changes the lineage of that step only. -/
theorem lookup_setInheritance (stepId eventId : Uuid) (inheritances : List InheritanceRow)
    (x : Uuid) :
    (lookup (·.stepId) (setInheritance stepId eventId inheritances) x).map
        (·.originalCompletionEventId) =
      if x = stepId then some eventId
      else (lookup (·.stepId) inheritances x).map (·.originalCompletionEventId) := by
  unfold setInheritance
  split
  · next hany =>
    unfold lookup update
    rw [List.find?_map]
    have hcomp : ((fun r : InheritanceRow ↦ decide (r.stepId = x)) ∘ fun r ↦
        if r.stepId = stepId then { r with originalCompletionEventId := eventId } else r) =
        fun r ↦ decide (r.stepId = x) := by
      funext r
      rw [Function.comp_apply]
      split <;> rfl
    rw [hcomp, Option.map_map]
    by_cases hx : x = stepId
    · subst hx
      rw [if_pos rfl]
      cases hfound : inheritances.find? fun r ↦ r.stepId = x with
      | none =>
        obtain ⟨r, hr, hid⟩ := List.any_eq_true.mp hany
        exact absurd hid (List.find?_eq_none.mp hfound r hr)
      | some r =>
        have hid : r.stepId = x := by simpa using List.find?_some hfound
        rw [Option.map_some, Function.comp_apply, if_pos hid]
    · rw [if_neg hx]
      cases hfound : inheritances.find? fun r ↦ r.stepId = x with
      | none => rfl
      | some r =>
        have hid : r.stepId = x := by simpa using List.find?_some hfound
        rw [Option.map_some, Function.comp_apply, if_neg (by simpa [hid] using hx),
          Option.map_some]
  · next hnone =>
    have hnone : ∀ r ∈ inheritances, r.stepId ≠ stepId := by simpa using hnone
    unfold lookup
    rw [List.find?_append]
    by_cases hx : x = stepId
    · subst hx
      rw [if_pos rfl, List.find?_eq_none.mpr (by simpa using hnone)]
      simp
    · rw [if_neg hx, List.find?_cons_of_neg (by simpa using fun h ↦ hx h.symm), List.find?_nil,
        Option.or_none]

/-! ### Runs that differ by a completion -/

/-- Step transitions that succeed one after another. -/
inductive Transitions (carryForward : CarryForward) :
    List (StepStateMutation × StepDraw) → Database → Database → Prop
  | nil (s : Database) : Transitions carryForward [] s s
  | cons {request : StepStateMutation} {draw : StepDraw}
      {rest : List (StepStateMutation × StepDraw)} {s t u : Database}
      {snapshot : RoadmapSnapshot}
      (head : Yields (mutateStepState carryForward request draw) s snapshot t)
      (tail : Transitions carryForward rest t u) :
      Transitions carryForward ((request, draw) :: rest) s u

/-- The same transition in another run: the same step goes to the same state, with the same event
and capability ids. The versions that it expects and the request that it enqueues are those of its
own run. -/
structure SameTransition (a b : StepStateMutation × StepDraw) : Prop where
  userId : a.1.userId = b.1.userId
  roadmapId : a.1.roadmapId = b.1.roadmapId
  stepId : a.1.stepId = b.1.stepId
  state : a.1.state = b.1.state
  eventId : a.2.eventId = b.2.eventId
  capabilityId : a.2.capabilityId = b.2.capabilityId

/-- A database with the completion of a step and one without it agree on everything else that step
transitions read and write of capabilities. -/
structure DiffersByCompletion (stepId eventId : Uuid) (s t : Db) : Prop where
  capabilities : notGrantedBy eventId s.capabilities = t.capabilities
  completed : ∀ r ∈ s.steps, r.id = stepId → r.state = .completed
  completion : s.completionEvent stepId = some eventId
  lineage : ∀ x ≠ stepId, s.completionEvent x = t.completionEvent x
  others : ∀ x ≠ stepId, s.completionEvent x ≠ some eventId
  steps : ∀ r : StepRow, r.id ≠ stepId → (r ∈ s.steps ↔ r ∈ t.steps)
  recorded : ∃ e ∈ s.events, e.id = eventId

section Runs

variable {request : StepStateMutation} {draw : StepDraw} {roadmap : RoadmapRow} {step : StepRow}
  {s t : Database}

/-- The event of a transition is new. -/
theorem StepMutated.event_new (h : StepMutated request draw roadmap step s.1 t.1) :
    ∀ e ∈ s.1.events, e.id ≠ draw.eventId := by
  obtain ⟨e, hid, -, hevents⟩ := h.events
  have hkey := t.2.events.key
  rw [hevents, unique_append_singleton] at hkey
  intro e' he'
  rw [← hid]
  exact hkey.2 e' he'

/-- A transition changes the completion of its own step alone. -/
theorem StepMutated.completionEvent (h : StepMutated request draw roadmap step s.1 t.1)
    (x : Uuid) : t.1.completionEvent x =
      if request.state = .completed ∧ x = request.stepId then some draw.eventId
      else s.1.completionEvent x := by
  unfold Db.completionEvent
  rw [h.inheritances]
  by_cases hcompleted : request.state = .completed
  · rw [if_pos hcompleted, lookup_setInheritance]
    simp only [hcompleted, true_and]
  · rw [if_neg hcompleted, if_neg fun hboth ↦ hcompleted hboth.1]

/-- A completion is what the two runs differ by. -/
theorem differsByCompletion_of_completed (h : StepMutated request draw roadmap step s.1 t.1)
    (hcompleted : request.state = .completed) :
    DiffersByCompletion request.stepId draw.eventId t.1 s.1 := by
  have hnew := h.event_new
  constructor
  case capabilities =>
    rw [h.capabilities, if_pos hcompleted, notGrantedBy_foldl_self fun _ ↦
      source_of_mem_grantedCapabilities]
    unfold notGrantedBy
    rw [List.filter_eq_self]
    intro c hc
    rw [decide_eq_true_eq]
    intro hsource
    obtain ⟨e, he, hid⟩ := s.2.capabilities.source c hc draw.eventId hsource
    exact hnew e he hid
  case completed =>
    intro r hr hid
    obtain ⟨hmem, hstep, hroadmap⟩ := h.stepFound
    rw [h.steps, mem_update] at hr
    obtain ⟨hold, hnot⟩ | ⟨_, -, -, rfl⟩ := hr
    · obtain rfl := s.2.steps.key.eq_of_mem hold hmem (hid.trans hstep.symm)
      exact absurd ⟨hstep, hroadmap⟩ hnot
    · exact hcompleted
  case completion => rw [h.completionEvent, if_pos ⟨hcompleted, rfl⟩]
  case lineage =>
    intro x hx
    rw [h.completionEvent, if_neg fun hboth ↦ hx hboth.2]
  case others =>
    intro x hx hevent
    rw [h.completionEvent, if_neg fun hboth ↦ hx hboth.2] at hevent
    obtain ⟨i, hi, hid⟩ := Option.map_eq_some_iff.mp hevent
    obtain ⟨e, he, heq⟩ := s.2.inheritances.event i (lookup_some hi).1
    exact hnew e he (heq.trans hid)
  case steps =>
    intro r hr
    rw [h.steps, mem_update]
    constructor
    · rintro (⟨hmem, -⟩ | ⟨r₀, -, ⟨hid, -⟩, rfl⟩)
      · exact hmem
      · exact absurd hid hr
    · exact fun hmem ↦ .inl ⟨hmem, fun hboth ↦ hr hboth.1⟩
  case recorded =>
    obtain ⟨e, hid, -, hevents⟩ := h.events
    exact ⟨e, by rw [hevents]; exact List.mem_append_right _ List.mem_cons_self, hid⟩

end Runs

/-- The same transition of another step keeps the difference. -/
theorem DiffersByCompletion.step {stepId eventId : Uuid} {s t s' t' : Database}
    (h : DiffersByCompletion stepId eventId s.1 t.1) {a b : StepStateMutation × StepDraw}
    (hsame : SameTransition a b) (hother : a.1.stepId ≠ stepId) {roadmap roadmap' : RoadmapRow}
    {step step' : StepRow} (ha : StepMutated a.1 a.2 roadmap step s.1 s'.1)
    (hb : StepMutated b.1 b.2 roadmap' step' t.1 t'.1) :
    DiffersByCompletion stepId eventId s'.1 t'.1 := by
  obtain ⟨hmem, hid, -⟩ := ha.stepFound
  obtain ⟨hmem', hid', -⟩ := hb.stepFound
  -- both runs find the same step
  obtain rfl : step = step' := by
    have hshared := (h.steps step (hid ▸ hother)).mp hmem
    exact t.2.steps.key.eq_of_mem hshared hmem' ((hid.trans hsame.stepId).trans hid'.symm)
  have hgranted : grantedCapabilities a.1 step a.2 = grantedCapabilities b.1 step b.2 := by
    unfold grantedCapabilities
    rw [hsame.userId, hsame.stepId, hsame.eventId, hsame.capabilityId]
  have hnew : a.2.eventId ≠ eventId := by
    obtain ⟨e, he, rfl⟩ := h.recorded
    exact (ha.event_new e he).symm
  constructor
  case capabilities =>
    rw [ha.capabilities, hb.capabilities]
    have hstate : a.1.state = .completed ↔ b.1.state = .completed := by rw [hsame.state]
    by_cases hcompleted : a.1.state = .completed
    · rw [if_pos hcompleted, if_pos (hstate.mp hcompleted), ← hgranted,
        notGrantedBy_foldl_of_ne, h.capabilities]
      intro row hrow
      rw [source_of_mem_grantedCapabilities hrow]
      exact fun heq ↦ hnew (Option.some.inj heq)
    · rw [if_neg hcompleted, if_neg fun hb ↦ hcompleted (hstate.mpr hb)]
      have hreverses : a.1.reverses step ↔ b.1.reverses step := by
        unfold StepStateMutation.reverses
        rw [hsame.state]
      by_cases hback : a.1.reverses step
      · rw [if_pos hback, if_pos (hreverses.mp hback), notGrantedBy_revoked, h.capabilities,
          h.lineage _ hother, hsame.stepId]
      · rw [if_neg hback, if_neg fun hb ↦ hback (hreverses.mpr hb), h.capabilities]
  case completed =>
    intro r hr hid
    rw [ha.steps, mem_update] at hr
    obtain ⟨hold, -⟩ | ⟨_, -, ⟨hwritten, -⟩, rfl⟩ := hr
    · exact h.completed r hold hid
    · exact absurd (hwritten.symm.trans hid) hother
  case completion =>
    rw [ha.completionEvent, if_neg fun hboth ↦ hother hboth.2.symm]
    exact h.completion
  case lineage =>
    intro x hx
    rw [ha.completionEvent, hb.completionEvent, h.lineage x hx]
    simp only [hsame.state, hsame.stepId, hsame.eventId]
  case others =>
    intro x hx
    rw [ha.completionEvent]
    split
    · exact fun heq ↦ hnew (Option.some.inj heq)
    · exact h.others x hx
  case steps =>
    intro r hr
    rw [ha.steps, hb.steps, mem_update, mem_update]
    have hpart (r₀ : StepRow) (hr₀ : r₀.id ≠ stepId) := h.steps r₀ hr₀
    simp only [hsame.stepId, hsame.roadmapId, hsame.state]
    refine or_congr (and_congr_left fun _ ↦ hpart r hr) (exists_congr fun r₀ ↦ ?_)
    refine and_congr_left fun hwritten ↦ hpart r₀ ?_
    obtain ⟨-, rfl⟩ := hwritten
    exact hr
  case recorded =>
    obtain ⟨e, he, hid⟩ := h.recorded
    obtain ⟨_, -, -, hevents⟩ := ha.events
    exact ⟨e, by rw [hevents]; exact List.mem_append_left _ he, hid⟩

/-- Any run of transitions of other steps keeps the difference. -/
theorem DiffersByCompletion.run {carryForward : CarryForward} {stepId eventId : Uuid}
    {others alone : List (StepStateMutation × StepDraw)}
    (hsame : List.Forall₂ SameTransition others alone)
    (hothers : ∀ a ∈ others, a.1.stepId ≠ stepId) {s t s' t' : Database}
    (h : DiffersByCompletion stepId eventId s.1 t.1) (hs : Transitions carryForward others s s')
    (ht : Transitions carryForward alone t t') :
    DiffersByCompletion stepId eventId s'.1 t'.1 := by
  induction hsame generalizing s t with
  | nil =>
    cases hs
    cases ht
    exact h
  | cons hab _ ih =>
    rw [List.forall_mem_cons] at hothers
    cases hs with
    | cons ha hs =>
      cases ht with
      | cons hb ht =>
        obtain ⟨_, _, ha⟩ := mutateStepState_spec ha
        obtain ⟨_, _, hb⟩ := mutateStepState_spec hb
        exact ih hothers.2 (h.step hab hothers.1 ha hb) hs ht

/-! ### The transitions -/

/-- Why a step transition is refused: a stale profile version, no active roadmap of the user with
the expected version, or a step from which the state cannot be reached. -/
def Refused (request : StepStateMutation) (s : Db) : Prop :=
  s.profileVersion request.userId ≠ some request.expectedProfileVersion ∨
    (∀ r ∈ s.roadmaps, r.id = request.roadmapId → r.userId ≠ request.userId ∨
      r.version ≠ request.expectedRoadmapVersion ∨ r.state ≠ .active) ∨
    ∀ x ∈ s.steps, x.id = request.stepId → x.roadmapId = request.roadmapId →
      (x.state, request.state) ∉ validTransitions

/-- A refused transition does not succeed. -/
theorem not_yields_of_refused {carryForward : CarryForward} {request : StepStateMutation}
    {draw : StepDraw} {s t : Database} {snapshot : RoadmapSnapshot} (h : Refused request s.1) :
    ¬ Yields (mutateStepState carryForward request draw) s snapshot t := by
  intro hyields
  obtain ⟨roadmap, step, hmutated⟩ := mutateStepState_spec hyields
  obtain ⟨hroadmap, hid, huser, hactive⟩ := hmutated.roadmapFound
  obtain ⟨hstep, hstepId, hstepRoadmap⟩ := hmutated.stepFound
  obtain hstale | hclosed | hinvalid := h
  · exact hstale hmutated.profileFound
  · obtain hother | hversion | hinactive := hclosed roadmap hroadmap hid
    · exact hother huser
    · exact hversion hmutated.roadmapVersion
    · exact hinactive hactive
  · exact hinvalid step hstep hstepId hstepRoadmap hmutated.transition

/-- Completing a step and reversing that completion leaves the active capabilities that the
transitions of other steps in between leave alone. The reversal revokes what that completion granted
and nothing else, as does every other one, and a transition that fails changes nothing: a stale
version, an inactive roadmap, another owner or a wrong state make it fail.
`src/jobtology_be/infrastructure/persistence/roadmap_steps.py:41–168`,
`src/jobtology_be/infrastructure/persistence/completion_outcomes.py:23–57`,
`src/jobtology_be/infrastructure/persistence/schema.py:193–197`. -/
theorem completion_reversal_neutral (carryForward : CarryForward) :
    (∀ (complete reverse : StepStateMutation) (draw draw' : StepDraw)
        (others alone : List (StepStateMutation × StepDraw))
        (s s₁ s₂ s₃ t : Database) (snapshot snapshot' : RoadmapSnapshot),
      complete.state = .completed → reverse.state ≠ .completed →
      reverse.stepId = complete.stepId → (∀ a ∈ others, a.1.stepId ≠ complete.stepId) →
      List.Forall₂ SameTransition others alone →
      Yields (mutateStepState carryForward complete draw) s snapshot s₁ →
      Transitions carryForward others s₁ s₂ →
      Yields (mutateStepState carryForward reverse draw') s₂ snapshot' s₃ →
      Transitions carryForward alone s t →
      activeCapabilities s₃.1.capabilities = activeCapabilities t.1.capabilities ∧
        s₃.1.capabilities = revokedCapabilities (some draw.eventId) s₂.1.capabilities) ∧
    (∀ (request : StepStateMutation) (draw : StepDraw) (s t : Database)
        (snapshot : RoadmapSnapshot),
      request.state ≠ .completed →
      Yields (mutateStepState carryForward request draw) s snapshot t →
      t.1.capabilities = s.1.capabilities ∨ ∃ eventId,
        s.1.completionEvent request.stepId = some eventId ∧
          t.1.capabilities = revokedCapabilities (some eventId) s.1.capabilities) ∧
    ∀ (request : StepStateMutation) (draw : StepDraw) (s : Database),
      (Refused request s.1 → ∀ snapshot t,
        ¬ Yields (mutateStepState carryForward request draw) s snapshot t) ∧
      ((∀ snapshot t, ¬ Yields (mutateStepState carryForward request draw) s snapshot t) →
        (mutateStepState carryForward request draw).commit s = s) := by
  refine ⟨?_, ?_, fun request draw s ↦ ⟨fun h _ _ ↦ not_yields_of_refused h, fun h ↦ ?_⟩⟩
  · intro complete reverse draw draw' others alone s s₁ s₂ s₃ t _ _ hcompleted hreverse hstep
      hothers hsame hcomplete hbetween hback halone
    obtain ⟨_, _, hcomplete⟩ := mutateStepState_spec hcomplete
    obtain ⟨_, step, hback⟩ := mutateStepState_spec hback
    have hdiffers := (differsByCompletion_of_completed hcomplete hcompleted).run hsame hothers
      hbetween halone
    obtain ⟨hmem, hid, -⟩ := hback.stepFound
    have hreverses : reverse.reverses step :=
      ⟨hdiffers.completed step hmem (hid.trans hstep), hreverse⟩
    have hrevoked := hback.capabilities
    rw [if_neg hreverse, if_pos hreverses, hstep, hdiffers.completion] at hrevoked
    refine ⟨?_, hrevoked⟩
    rw [hrevoked, activeCapabilities_revoked, hdiffers.capabilities]
  · intro request draw s t _ hnot hyields
    obtain ⟨_, step, hmutated⟩ := mutateStepState_spec hyields
    have hcapabilities := hmutated.capabilities
    rw [if_neg hnot] at hcapabilities
    by_cases hreverses : request.reverses step
    · obtain ⟨eventId, hevent⟩ := Option.isSome_iff_exists.mp (hmutated.lineage hreverses)
      rw [if_pos hreverses, hevent] at hcapabilities
      exact .inr ⟨eventId, hevent, hcapabilities⟩
    · rw [if_neg hreverses] at hcapabilities
      exact .inl hcapabilities
  · obtain hsame | ⟨snapshot, hyields⟩ :=
      commit_cases (mutateStepState carryForward request draw) s
    · exact hsame
    · exact absurd hyields (h _ _)

/-! ### Two steps that grant the same capability -/

/-- An active roadmap with two steps for the same entity. -/
def sharedOutcomeDatabase : Database :=
  ⟨{ users := [⟨1, true, none⟩]
     profiles := [⟨1, 1, none⟩]
     goals := [⟨10, 1, .targeted, some "o", 0, "UTC", .active⟩]
     analyses := [⟨20, 1, 10, 1, none, .ready, none, none⟩]
     traces := [⟨30, 1⟩]
     proposals := [⟨40, 20, 1, "", 1, .absent, .feasible, [], 30⟩]
     roadmaps := [⟨50, 1, 10, 40, "", .active, 1, 1, none, ⟨.absent, .absent, none, []⟩, 0⟩]
     steps := [
       ⟨60, 50, "a", 1, "a", 1, .todo, none, none, [⟨"r", "e", "text", []⟩], []⟩,
       ⟨61, 50, "b", 2, "b", 1, .todo, none, none, [⟨"r", "e", "text", []⟩], []⟩] },
    by decide +kernel⟩

/-- A transition of one of the two steps. -/
def sharedTransition (stepId version : Nat) (state : StepState) (eventId : Uuid) :
    StepStateMutation × StepDraw :=
  (⟨1, 50, stepId, version, version, state⟩,
    ⟨eventId, fun index ↦ eventId * 10 + index, ⟨eventId * 100, eventId * 100 + 1, 0⟩⟩)

/-- A transition when no context is carried forward. -/
def shared (a : StepStateMutation × StepDraw) : Txn RoadmapSnapshot :=
  mutateStepState (fun _ _ _ _ ↦ none) a.1 a.2

/-- The first step is completed, then the second, and then the first is reopened. -/
theorem completion_reversal_neutral_shared :
    activeCapabilities ((shared (sharedTransition 60 3 .todo 102)).commit
        ((shared (sharedTransition 61 2 .completed 101)).commit
          ((shared (sharedTransition 60 1 .completed 100)).commit
            sharedOutcomeDatabase))).1.capabilities =
      activeCapabilities ((shared (sharedTransition 61 1 .completed 101)).commit
        sharedOutcomeDatabase).1.capabilities := by
  have hneutral (s : Database) (a b c d : StepStateMutation × StepDraw)
      (ha : ((shared a).run s).isOk) (hb : ((shared b).run ((shared a).commit s)).isOk)
      (hc : ((shared c).run ((shared b).commit ((shared a).commit s))).isOk)
      (hd : ((shared d).run s).isOk) (hcompleted : a.1.state = .completed)
      (hreverse : c.1.state ≠ .completed) (hstep : c.1.stepId = a.1.stepId)
      (hother : b.1.stepId ≠ a.1.stepId) (hsame : SameTransition b d) :
      activeCapabilities
          ((shared c).commit ((shared b).commit ((shared a).commit s))).1.capabilities =
        activeCapabilities ((shared d).commit s).1.capabilities := by
    obtain ⟨_, ha⟩ := yields_of_isOk ha
    obtain ⟨_, hb⟩ := yields_of_isOk hb
    obtain ⟨_, hc⟩ := yields_of_isOk hc
    obtain ⟨_, hd⟩ := yields_of_isOk hd
    exact ((completion_reversal_neutral fun _ _ _ _ ↦ none).1 a.1 c.1 a.2 c.2 [b] [d] _ _ _ _ _ _ _
      hcompleted hreverse hstep (List.forall_mem_singleton.mpr hother) (.cons hsame .nil) ha
      (.cons hb (.nil _)) hc (.cons hd (.nil _))).1
  exact hneutral sharedOutcomeDatabase (sharedTransition 60 1 .completed 100)
    (sharedTransition 61 2 .completed 101) (sharedTransition 60 3 .todo 102)
    (sharedTransition 61 1 .completed 101) (by decide +kernel) (by decide +kernel)
    (by decide +kernel) (by decide +kernel) rfl nofun rfl (by decide) ⟨rfl, rfl, rfl, rfl, rfl, rfl⟩

end Jobtology.Store
