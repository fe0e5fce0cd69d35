import Jobtology.Analyses.GapMonotonicity
import Jobtology.Store.CompletionOutcomes
import Jobtology.Workers.AnalysisInputs
import Jobtology.Workers.BatchLaws

/-!
# Finished work in the next analysis

From the step of a route over its stored outcomes, the capabilities that its completion grants and
the inputs that are read of them to the analysis of the release that the step was planned for.
-/

namespace Jobtology.Workers

open Jobtology.Base Jobtology.Relational Jobtology.Analyses Jobtology.Corpus Jobtology.Planning
  Jobtology.Profiles Jobtology.Store
open Jobtology.Relational.Transaction

/-! ### What a completion grants -/

/-- Capabilities whose completion and entity no other has are appended. -/
theorem foldl_withCapability {rows : List CapabilityRow} {capabilities : List CapabilityRow}
    (hdistinct : (rows.map fun c ↦ (c.sourceCompletionEventId, c.entityId)).Nodup)
    (hfresh : ∀ row ∈ rows, ∀ c ∈ capabilities,
      ¬ (c.sourceCompletionEventId = row.sourceCompletionEventId ∧ c.entityId = row.entityId)) :
    rows.foldl withCapability capabilities = capabilities ++ rows := by
  induction rows generalizing capabilities with
  | nil => exact (List.append_nil _).symm
  | cons row rest ih =>
    obtain ⟨hrow, hrest⟩ := List.nodup_cons.mp hdistinct
    have happend : withCapability capabilities row = capabilities ++ [row] := by
      unfold withCapability
      rw [if_neg]
      rw [List.any_eq_true]
      rintro ⟨c, hc, htaken⟩
      exact hfresh row List.mem_cons_self c hc (of_decide_eq_true htaken)
    rw [List.foldl_cons, happend, ih hrest, List.append_assoc]
    · rfl
    · intro other hother c hc
      rcases List.mem_append.mp hc with hc | hc
      · exact hfresh other (List.mem_cons_of_mem _ hother) c hc
      · rw [List.mem_singleton.mp hc]
        rintro ⟨hsource, hentity⟩
        exact hrow (List.mem_map.mpr ⟨other, hother, Prod.ext hsource.symm hentity.symm⟩)

section Granted

variable {carryForward : CarryForward} {request : StepStateMutation} {draw : StepDraw}
  {s t : Database} {snapshot : RoadmapSnapshot} {row : StepRow}

private theorem granted_keys (request : StepStateMutation) (row : StepRow) (draw : StepDraw) :
    ((grantedCapabilities request row draw).map
      fun c ↦ (c.sourceCompletionEventId, c.entityId)) =
    (canonicalCompletionOutcomes row.outcomes).map fun o ↦
      (some draw.eventId, some o.entityId) := by
  unfold grantedCapabilities
  rw [List.map_map]
  conv_rhs => rw [← List.zipIdx_map_fst 0 (canonicalCompletionOutcomes row.outcomes), List.map_map]
  rfl

/-- A completion appends its capabilities, one for each entity of the outcomes. -/
theorem completion_grants (h : Yields (mutateStepState carryForward request draw) s snapshot t)
    (hstate : request.state = .completed) (hrow : row ∈ s.1.steps) (hid : row.id = request.stepId) :
    t.1.capabilities = s.1.capabilities ++ grantedCapabilities request row draw := by
  obtain ⟨roadmap, step, hmutated⟩ := mutateStepState_spec h
  obtain ⟨hstep, hstepId, -⟩ := hmutated.stepFound
  obtain rfl : step = row :=
    List.inj_on_of_nodup_map s.2.steps.key hstep hrow (hstepId.trans hid.symm)
  have hcapabilities := hmutated.capabilities
  rw [if_pos hstate] at hcapabilities
  rw [hcapabilities]
  refine foldl_withCapability ?_ fun c hc c' hc' htaken ↦ ?_
  · rw [granted_keys]
    refine List.Nodup.map_on (fun o ho o' ho' heq ↦ ?_) ?_
    · obtain ⟨e, -, rfl⟩ := List.mem_map.mp ho
      obtain ⟨e', -, rfl⟩ := List.mem_map.mp ho'
      exact congrArg _ (Option.some.inj (Prod.mk.inj heq).2)
    · refine List.Nodup.map_on (fun e _ e' _ heq ↦ ?_) (nodup_sortedSet _)
      exact congrArg CanonicalCompletionOutcome.entityId heq
  · -- No capability was there of an event that is new.
    obtain ⟨e, heid, -, hevents⟩ := hmutated.events
    have hkey := t.2.events.key
    rw [hevents] at hkey
    obtain ⟨⟨outcome, index⟩, -, rfl⟩ := List.mem_map.mp hc
    obtain ⟨e', he', heid'⟩ := s.2.capabilities.source c' hc' draw.eventId htaken.1
    exact (unique_append_singleton.mp hkey).2 e' he' (heid'.trans heid.symm)

/-- A completion grants the entity of each outcome, with its experience codes. -/
theorem exists_granted {o : RoadmapOutcome} (ho : o ∈ row.outcomes) :
    ∃ c ∈ grantedCapabilities request row draw, c.entityId = some o.entityId ∧
      ∀ code ∈ o.experienceCodes, code ∈ c.details.experienceCodes := by
  have hmem : canonicalOutcome row.outcomes o.entityId ∈
      canonicalCompletionOutcomes row.outcomes :=
    List.mem_map.mpr ⟨o.entityId, (mem_sortedSet _ _).mpr
      (List.mem_toFinset.mpr (List.mem_map_of_mem ho)), rfl⟩
  obtain ⟨index, hindex⟩ := List.mem_iff_getElem?.mp hmem
  have hzip : (canonicalOutcome row.outcomes o.entityId, index) ∈
      (canonicalCompletionOutcomes row.outcomes).zipIdx :=
    List.mem_zipIdx_iff_getElem?.mpr hindex
  refine ⟨_, List.mem_map.mpr ⟨_, hzip, rfl⟩, rfl, fun code hcode ↦ ?_⟩
  have hprovenance : o.canonical ∈ (canonicalOutcome row.outcomes o.entityId).provenance :=
    (perm_provenance row.outcomes o.entityId).mem_iff.mpr
      (List.mem_map_of_mem (List.mem_filter.mpr ⟨ho, decide_eq_true rfl⟩))
  refine (mem_sortedSet _ _).mpr (List.mem_toFinset.mpr (List.mem_flatMap.mpr
    ⟨o.canonical, hprovenance, ?_⟩))
  exact (mem_sortedSet _ _).mpr (List.mem_toFinset.mpr hcode)

/-- What a completion grants is an outcome of its user, for an entity of its step. -/
theorem granted_shape {c : CapabilityRow}
    (hc : c ∈ grantedCapabilities request row draw) :
    c.userId = request.userId ∧ c.lifecycle = .active ∧ c.category = "ROADMAP_OUTCOME" ∧
      c.sourceCompletionEventId = some draw.eventId ∧
      ∃ o ∈ row.outcomes, c.entityId = some o.entityId := by
  obtain ⟨⟨outcome, index⟩, hmem, rfl⟩ := List.mem_map.mp hc
  refine ⟨rfl, rfl, rfl, rfl, ?_⟩
  have houtcome := List.fst_mem_of_mem_zipIdx hmem
  obtain ⟨e, he, rfl⟩ := List.mem_map.mp houtcome
  obtain ⟨o, ho, rfl⟩ := List.mem_map.mp (List.mem_toFinset.mp ((mem_sortedSet _ _).mp he))
  exact ⟨o, ho, rfl⟩

end Granted

/-! ### What an analysis reads -/

/-- The context has the capabilities of a user's active rows, read in any order. -/
def ReadsRows (R : InputReader) (today : Int) (db : Db) (userId : Uuid)
    (context : RecomputeContext) : Prop :=
  ∃ rows : List CapabilityRow, rows.Perm (activeRows db userId) ∧
    activeCapabilities today (rows.map R.stored) = some context.capabilities

/-- The evaluation of the requirement with a key. -/
def evaluationOf (analysis : GapAnalysis) (key : String) : Option ScoredEvaluation :=
  analysis.evaluations.find? (·.requirementKey = key)

section Analysis

variable {worker : RecomputeWorker} {R : InputReader} {today : Int} {db : Db} {userId : Uuid}
  {context : RecomputeContext} {release : PublishedCorpusSnapshot} {analysis : GapAnalysis}
  {draw : RecomputeDraw} {profile : List NormalizedCapability}

private theorem mem_capabilities (h : ReadsRows R today db userId context) {c : CapabilityInput} :
    c ∈ context.capabilities ↔
      ∃ row ∈ activeRows db userId, c ∈ inputsOf today (R.stored row) := by
  obtain ⟨rows, hperm, hread⟩ := h
  rw [activeCapabilities_eq hread]
  simp only [List.mem_flatMap, List.mem_map, exists_exists_and_eq_and, hperm.mem_iff]

/-- The profile that an analysis rests on. -/
theorem analyze_profile
    (h : worker.analyze draw context release = .ok analysis) :
    ∃ profile, (normalizerOf worker.casefold release.toPublishedCorpusSnapshotData).normalize
        (targetCapabilities context.capabilities release.toPublishedCorpusSnapshotData) =
          .ok profile ∧
      analysis.evaluations =
        release.requirements.map (evaluateRequirement profile context.completeness) := by
  unfold RecomputeWorker.analyze at h
  obtain ⟨baseline, hbaseline, h⟩ := bind_eq_ok.mp h
  obtain ⟨profile, hprofile, h⟩ := bind_eq_ok.mp h
  refine ⟨profile, mapError_eq_ok.mp hprofile, ?_⟩
  have hrequirements : baseline.requirements = release.requirements := by
    unfold baselineForRecompute at hbaseline
    obtain ⟨_, -, hbaseline⟩ := bind_eq_ok.mp hbaseline
    split at hbaseline
    · cases hbaseline
    · obtain rfl := Except.ok.inj hbaseline
      rfl
  have heval := mapError_eq_ok.mp h
  unfold evaluate at heval
  split at heval
  · cases heval
  · obtain rfl := Except.ok.inj heval
    exact congrArg (List.map _) hrequirements

/-- The evaluation under a requirement's key is the one of that requirement. -/
theorem evaluationOf_requirement {completeness : InputCompleteness}
    (h : analysis.evaluations =
      release.requirements.map (evaluateRequirement profile completeness))
    {r : EditorialRequirement} (hr : r ∈ release.requirements) :
    evaluationOf analysis r.requirementKey =
      some (evaluateRequirement profile completeness r) := by
  have hkeys : (analysis.evaluations.map (·.requirementKey)).Nodup := by
    rw [h, List.map_map]
    have hsame : ((fun e : ScoredEvaluation ↦ e.requirementKey) ∘
        evaluateRequirement profile completeness) = (·.requirementKey) :=
      funext fun r' ↦ (evaluateRequirement_about r').1
    rw [hsame]
    exact release.requirementKeys_nodup
  exact (lookup_eq_some hkeys).mpr
    ⟨h ▸ List.mem_map_of_mem hr, (evaluateRequirement_about r).1⟩

/-- What an input gives the profile when it is of an entity of the release. -/
theorem mem_profile
    (hprofile : (normalizerOf worker.casefold release.toPublishedCorpusSnapshotData).normalize
      (targetCapabilities context.capabilities release.toPublishedCorpusSnapshotData) =
        .ok profile) {d : NormalizedCapability} :
    d ∈ profile ↔ ∃ c ∈ context.capabilities, IsTarget release.toPublishedCorpusSnapshotData c ∧
      (normalizerOf worker.casefold release.toPublishedCorpusSnapshotData).normalizeCapability c =
        .ok d := by
  have hall := forall₂_of_mapM_ok hprofile
  constructor
  · intro hd
    obtain ⟨c, hc, hnormal⟩ := exists_of_mem_right hall hd
    obtain ⟨hc, htarget⟩ := List.mem_filter.mp hc
    exact ⟨c, hc, of_decide_eq_true htarget, hnormal⟩
  · rintro ⟨c, hc, htarget, hnormal⟩
    obtain ⟨d', hd', hnormal'⟩ :=
      exists_of_mem_left hall (List.mem_filter.mpr ⟨hc, decide_eq_true htarget⟩)
    rwa [Except.ok.inj (hnormal.symm.trans hnormal')]

/-- The credits of inputs are between nothing and everything. -/
theorem inputsOf_credit {row : StoredCapability} {c : CapabilityInput}
    (h : c ∈ inputsOf today row) : 0 ≤ c.credit ∧ c.credit ≤ 1 := by
  have hproficiency (proficiency : Option String) :
      0 ≤ proficiencyCredit proficiency ∧ proficiencyCredit proficiency ≤ 1 := by
    unfold proficiencyCredit
    split <;> norm_num
  have hspec (details : SpecDetails) (proficiency : Option String) (category : String) :
      0 ≤ specCredit details proficiency category today ∧
        specCredit details proficiency category today ≤ 1 := by
    unfold specCredit
    split_ifs
    · exact ⟨le_refl 0, zero_le_one⟩
    · exact ⟨le_refl 0, zero_le_one⟩
    · exact ⟨le_refl 0, zero_le_one⟩
    · exact ⟨le_refl 0, zero_le_one⟩
    · exact hproficiency proficiency
  unfold inputsOf at h
  split at h
  · rw [List.mem_singleton.mp h]
    exact ⟨zero_le_one, le_refl 1⟩
  · split at h
    · rw [List.mem_singleton.mp h]
      exact ⟨le_refl 0, zero_le_one⟩
    · split at h
      · rw [List.mem_singleton.mp h]
        exact ⟨le_refl 0, zero_le_one⟩
      · obtain ⟨key, -, rfl⟩ := List.mem_map.mp h
        exact hspec _ _ _

private theorem ranged_profile (hreads : ReadsRows R today db userId context)
    (hprofile : (normalizerOf worker.casefold release.toPublishedCorpusSnapshotData).normalize
      (targetCapabilities context.capabilities release.toPublishedCorpusSnapshotData) =
        .ok profile) : Ranged profile := by
  intro d hd
  obtain ⟨c, hc, -, hnormal⟩ := (mem_profile hprofile).mp hd
  obtain ⟨row, -, hinput⟩ := (mem_capabilities hreads).mp hc
  rw [(CatalogProfileNormalizer.normalizeCapability_fits _ hnormal).2.credit]
  exact inputsOf_credit hinput

/-- A record with full credit that supports a requirement satisfies it. -/
theorem satisfied_of_supports {completeness : InputCompleteness}
    (hranged : Ranged profile) {r : EditorialRequirement} {d : NormalizedCapability}
    (hd : d ∈ profile) (hsupports : Supports r d) (hcredit : d.credit = 1) :
    (evaluateRequirement profile completeness r).status = .satisfied ∧
      (evaluateRequirement profile completeness r).credit = 1 := by
  rcases @evaluateRequirement_cases profile completeness r with
    ⟨c, hbest, heval⟩ | ⟨hnone, -⟩
  · have hone : c.credit = 1 :=
      le_antisymm (hranged c hbest.mem).2 (hcredit ▸ hbest.le d hd hsupports)
    have hfull : creditStatus 1 = .satisfied := if_pos rfl
    rw [heval, hone]
    exact ⟨hfull, rfl⟩
  · exact absurd hsupports (hnone d hd)

/-- The credit of a requirement rests on the records that support it alone. -/
theorem credit_congr {xs ys : List NormalizedCapability}
    {completeness completeness' : InputCompleteness} {r : EditorialRequirement}
    (h : ∀ d, Supports r d → (d ∈ xs ↔ d ∈ ys)) :
    (evaluateRequirement xs completeness r).credit =
      (evaluateRequirement ys completeness' r).credit := by
  rcases @evaluateRequirement_cases xs completeness r with
    ⟨c, hbest, heval⟩ | ⟨hnone, _, _, heval⟩
  · have hc := (h c hbest.toSupports).mp hbest.mem
    rcases @evaluateRequirement_cases ys completeness' r with
      ⟨d, hbest', heval'⟩ | ⟨hnone', -⟩
    · rw [heval, heval']
      have hd := (h d hbest'.toSupports).mpr hbest'.mem
      exact le_antisymm (hbest'.le c hc hbest.toSupports) (hbest.le d hd hbest'.toSupports)
    · exact absurd hbest.toSupports (hnone' c hc)
  · rcases @evaluateRequirement_cases ys completeness' r with
      ⟨d, hbest', -⟩ | ⟨-, _, _, heval'⟩
    · exact absurd hbest'.toSupports
        (hnone d ((h d hbest'.toSupports).mpr hbest'.mem))
    · rw [heval, heval']
      rfl

end Analysis

/-! ### A completed step -/

/-- What an analysis after a step was completed says against one before, on the release that the
step was planned for. -/
structure StepCredited (release : PublishedCorpusSnapshot) (step : ScheduledRouteStep)
    (before after : GapAnalysis) : Prop where
  /-- The requirements of the step are satisfied. -/
  satisfied : ∀ r ∈ release.requirements, r.requirementKey ∈ step.outcomeRequirementKeys →
    r.entityId ∈ release.entityIds → ∃ e, evaluationOf after r.requirementKey = some e ∧
      e.status = .satisfied ∧ e.credit = 1
  /-- No requirement loses credit, and one of another entity has the credit that it had. -/
  kept : ∀ r ∈ release.requirements, ∃ e₀ e, evaluationOf before r.requirementKey = some e₀ ∧
    evaluationOf after r.requirementKey = some e ∧ e₀.credit ≤ e.credit ∧
    ((∀ r' ∈ release.requirements, r'.requirementKey ∈ step.outcomeRequirementKeys →
      r'.entityId ≠ r.entityId) → e₀.credit = e.credit)

section Completed

variable {worker : RecomputeWorker} {R : InputReader} {today : Int} {carryForward : CarryForward}
  {request : StepStateMutation} {stepDraw : StepDraw} {s t : Database}
  {snapshot : RoadmapSnapshot} {row : StepRow} {release : PublishedCorpusSnapshot}
  {templates : List ActivityTemplate} {step : ScheduledRouteStep}
  {contextBefore contextAfter : RecomputeContext} {profile₀ profile : List NormalizedCapability}

/-- The outcomes of a step are those of its requirements. -/
theorem mem_outcomes
    (houtcomes : (⟨release.requirements, templates⟩ : PinnedOutcomeResolver).serialize step =
      .ok row.outcomes) {o : RoadmapOutcome} :
    o ∈ row.outcomes ↔ ∃ r ∈ release.requirements,
      r.requirementKey ∈ step.outcomeRequirementKeys ∧ o = roadmapOutcome r := by
  unfold PinnedOutcomeResolver.serialize at houtcomes
  split at houtcomes
  · cases houtcomes
  split at houtcomes
  · cases houtcomes
  have hall := forall₂_of_mapM_ok houtcomes
  constructor
  · intro ho
    obtain ⟨key, hkey, houtcome⟩ := exists_of_mem_right hall ho
    obtain ⟨r, hr, rfl, -⟩ := outcome_ok_iff.mp houtcome
    obtain ⟨hmem, hrkey⟩ := lookupLast_some hr
    exact ⟨r, hmem, hrkey ▸ hkey, rfl⟩
  · rintro ⟨r, hr, hkey, rfl⟩
    obtain ⟨o, ho, houtcome⟩ := exists_of_mem_left hall hkey
    obtain ⟨r', hr', rfl, -⟩ := outcome_ok_iff.mp houtcome
    have hsame : lookupLast (·.requirementKey) release.requirements r.requirementKey = some r :=
      lookupLast_of_mem release.requirementKeys_nodup hr
    have hr' : lookupLast (·.requirementKey) release.requirements r.requirementKey = some r' := hr'
    rw [Option.some.inj (hsame.symm.trans hr')]
    exact ho

/-- The active rows after a completion. -/
theorem mem_activeRows
    (h : Yields (mutateStepState carryForward request stepDraw) s snapshot t)
    (hstate : request.state = .completed) (hrow : row ∈ s.1.steps) (hid : row.id = request.stepId)
    {c : CapabilityRow} : c ∈ activeRows t.1 request.userId ↔
      c ∈ activeRows s.1 request.userId ∨ c ∈ grantedCapabilities request row stepDraw := by
  unfold activeRows
  rw [completion_grants h hstate hrow hid, List.filter_append, List.mem_append]
  refine or_congr_right ⟨fun hmem ↦ List.mem_of_mem_filter hmem, fun hmem ↦ ?_⟩
  obtain ⟨huser, hactive, -⟩ := granted_shape hmem
  exact List.mem_filter.mpr ⟨hmem, decide_eq_true ⟨huser, hactive⟩⟩

/-- A granted capability is read as one input of its entity with full credit. -/
theorem inputsOf_granted {c : CapabilityRow}
    (hc : c ∈ grantedCapabilities request row stepDraw) :
    inputsOf today (R.stored c) =
      [⟨c.rawText, c.entityId, c.details.experienceCodes, 1⟩] := by
  obtain ⟨-, -, hcategory, hsource, -⟩ := granted_shape hc
  unfold inputsOf
  rw [if_pos]
  · rfl
  · refine ⟨?_, hcategory⟩
    show decide (c.sourceCompletionEventId ≠ none) = true
    rw [hsource]
    rfl

/-- The capabilities that an analysis reads after a completion. -/
theorem mem_capabilities_completed
    (h : Yields (mutateStepState carryForward request stepDraw) s snapshot t)
    (hstate : request.state = .completed) (hrow : row ∈ s.1.steps) (hid : row.id = request.stepId)
    (hbefore : ReadsRows R today s.1 request.userId contextBefore)
    (hafter : ReadsRows R today t.1 request.userId contextAfter) (x : CapabilityInput) :
    x ∈ contextAfter.capabilities ↔ x ∈ contextBefore.capabilities ∨
      ∃ c ∈ grantedCapabilities request row stepDraw,
        x = ⟨c.rawText, c.entityId, c.details.experienceCodes, 1⟩ := by
  rw [mem_capabilities hafter, mem_capabilities hbefore]
  constructor
  · rintro ⟨c, hc, hinput⟩
    rcases (mem_activeRows h hstate hrow hid).mp hc with hold | hnew
    · exact .inl ⟨c, hold, hinput⟩
    · rw [inputsOf_granted hnew] at hinput
      exact .inr ⟨c, hnew, List.mem_singleton.mp hinput⟩
  · rintro (⟨c, hc, hinput⟩ | ⟨c, hc, rfl⟩)
    · exact ⟨c, (mem_activeRows h hstate hrow hid).mpr (.inl hc), hinput⟩
    · refine ⟨c, (mem_activeRows h hstate hrow hid).mpr (.inr hc), ?_⟩
      rw [inputsOf_granted hc]
      exact List.mem_singleton_self _

/-- What was read before a completion is read after it, and the record of a granted capability is
of an entity of the step. -/
theorem mem_profile_completed
    (houtcomes : (⟨release.requirements, templates⟩ : PinnedOutcomeResolver).serialize step =
      .ok row.outcomes)
    (hcapabilities : ∀ x, x ∈ contextAfter.capabilities ↔ x ∈ contextBefore.capabilities ∨
      ∃ c ∈ grantedCapabilities request row stepDraw,
        x = ⟨c.rawText, c.entityId, c.details.experienceCodes, 1⟩)
    (hprofile₀ : (normalizerOf worker.casefold release.toPublishedCorpusSnapshotData).normalize
      (targetCapabilities contextBefore.capabilities release.toPublishedCorpusSnapshotData) =
        .ok profile₀)
    (hprofile : (normalizerOf worker.casefold release.toPublishedCorpusSnapshotData).normalize
      (targetCapabilities contextAfter.capabilities release.toPublishedCorpusSnapshotData) =
        .ok profile) :
    (∀ d ∈ profile₀, d ∈ profile) ∧ ∀ d ∈ profile, d ∈ profile₀ ∨
      ∃ r ∈ release.requirements, r.requirementKey ∈ step.outcomeRequirementKeys ∧
        d.entityId = some r.entityId := by
  refine ⟨fun d hd ↦ ?_, fun d hd ↦ ?_⟩
  · obtain ⟨x, hx, hrest⟩ := (mem_profile hprofile₀).mp hd
    exact (mem_profile hprofile).mpr ⟨x, (hcapabilities x).mpr (.inl hx), hrest⟩
  · obtain ⟨x, hx, htarget, hnormal⟩ := (mem_profile hprofile).mp hd
    rcases (hcapabilities x).mp hx with hx | ⟨c, hc, rfl⟩
    · exact .inl ((mem_profile hprofile₀).mpr ⟨x, hx, htarget, hnormal⟩)
    · obtain ⟨-, -, -, -, o, ho, hentity⟩ := granted_shape hc
      obtain ⟨r, hr, hkey, rfl⟩ := (mem_outcomes houtcomes).mp ho
      exact .inr ⟨r, hr, hkey, ((CatalogProfileNormalizer.normalizeCapability_fits _
        hnormal).2.stated r.entityId hentity).1⟩

/-- A granted capability gives a record that supports every requirement among the outcomes. -/
theorem exists_supports_granted {r : EditorialRequirement}
    (houtcome : roadmapOutcome r ∈ row.outcomes) (hentity : r.entityId ∈ release.entityIds)
    (hcapabilities : ∀ c ∈ grantedCapabilities request row stepDraw,
      (⟨c.rawText, c.entityId, c.details.experienceCodes, 1⟩ : CapabilityInput) ∈
        contextAfter.capabilities)
    (hprofile : (normalizerOf worker.casefold release.toPublishedCorpusSnapshotData).normalize
      (targetCapabilities contextAfter.capabilities release.toPublishedCorpusSnapshotData) =
        .ok profile) :
    ∃ d ∈ profile, Supports r d ∧ d.credit = 1 := by
  obtain ⟨c, hc, hcentity, hcodes⟩ := @exists_granted request stepDraw row _ houtcome
  have hcentity : c.entityId = some r.entityId := hcentity
  have htarget : IsTarget release.toPublishedCorpusSnapshotData
      ⟨c.rawText, c.entityId, c.details.experienceCodes, 1⟩ := by
    intro entityId hstated
    have hstated : c.entityId = some entityId := hstated
    rw [hcentity] at hstated
    rwa [← Option.some.inj hstated]
  obtain ⟨d, hd, hnormal⟩ := exists_of_mem_left (forall₂_of_mapM_ok hprofile)
    (List.mem_filter.mpr ⟨hcapabilities c hc, decide_eq_true htarget⟩)
  have hnormalized := (CatalogProfileNormalizer.normalizeCapability_fits _ hnormal).2
  obtain ⟨hdentity, hresolved⟩ := hnormalized.stated r.entityId hcentity
  refine ⟨d, hd, ⟨⟨hresolved, hdentity⟩, fun code hcode ↦ ?_⟩, hnormalized.credit⟩
  rw [hnormalized.experienceCodes]
  exact hcodes code ((mem_sortedSet _ _).mpr hcode)

end Completed

/-- Completing a step makes every later analysis on its release that can be made, as long as the
user's other capabilities stay and none has expired, satisfy the requirements among the outcomes of
the step, and it changes no credit of a requirement of another entity.
`src/jobtology_be/infrastructure/persistence/roadmap_steps.py:41–204`,
`src/jobtology_be/infrastructure/persistence/completion_outcomes.py:23–57`,
`src/jobtology_be/application/specs.py:144–165`,
`src/jobtology_be/modules/profiles/normalizer.py:50–136`,
`src/jobtology_be/modules/analyses/editorial.py:27–106`. -/
theorem completion_credited (worker : RecomputeWorker) (R : InputReader) (today : Int)
    {carryForward : CarryForward} {request : StepStateMutation} {stepDraw : StepDraw}
    {s t : Database} {snapshot : RoadmapSnapshot} {row : StepRow}
    {release : PublishedCorpusSnapshot} {templates : List ActivityTemplate}
    {step : ScheduledRouteStep} {contextBefore contextAfter : RecomputeContext}
    {drawBefore drawAfter : RecomputeDraw} {before after : GapAnalysis}
    (h : Yields (mutateStepState carryForward request stepDraw) s snapshot t)
    (hstate : request.state = .completed) (hrow : row ∈ s.1.steps) (hid : row.id = request.stepId)
    (houtcomes : (⟨release.requirements, templates⟩ : PinnedOutcomeResolver).serialize step =
      .ok row.outcomes)
    (hreadsBefore : ReadsRows R today s.1 request.userId contextBefore)
    (hreadsAfter : ReadsRows R today t.1 request.userId contextAfter)
    (hbefore : worker.analyze drawBefore contextBefore release = .ok before)
    (hafter : worker.analyze drawAfter contextAfter release = .ok after) :
    StepCredited release step before after := by
  obtain ⟨profile₀, hprofile₀, hevaluations₀⟩ := analyze_profile hbefore
  obtain ⟨profile, hprofile, hevaluations⟩ := analyze_profile hafter
  have hranged := ranged_profile hreadsAfter hprofile
  have hcapabilities :=
    mem_capabilities_completed h hstate hrow hid hreadsBefore hreadsAfter
  obtain ⟨hold, hnew⟩ := mem_profile_completed houtcomes hcapabilities hprofile₀ hprofile
  refine ⟨fun r hr hkey hentity ↦ ?_, fun r hr ↦ ?_⟩
  · refine ⟨_, evaluationOf_requirement hevaluations hr, ?_⟩
    obtain ⟨d, hd, hsupports, hcredit⟩ := exists_supports_granted
      ((mem_outcomes houtcomes).mpr ⟨r, hr, hkey, rfl⟩) hentity
      (fun c hc ↦ (hcapabilities _).mpr (.inr ⟨c, hc, rfl⟩)) hprofile
    exact satisfied_of_supports hranged hd hsupports hcredit
  · refine ⟨_, _, evaluationOf_requirement hevaluations₀ hr,
      evaluationOf_requirement hevaluations hr, ?_, fun hother ↦ ?_⟩
    · have hsame : (evaluateRequirement profile₀ contextBefore.completeness r).credit =
          (evaluateRequirement profile₀ contextAfter.completeness r).credit :=
        credit_congr fun _ _ ↦ .rfl
      rw [hsame]
      exact credit_mono hranged (.of_subset hold) r
    · refine credit_congr fun d hsupports ↦ ⟨hold d, fun hd ↦ (hnew d hd).resolve_right ?_⟩
      -- A granted record is of an entity of the step.
      rintro ⟨r', hr', hkey', hdentity⟩
      have hmatch := hsupports.isMatch.2
      rw [hdentity] at hmatch
      exact hother r' hr' hkey' (Option.some.inj hmatch)

/-! ### The unit that a step studies -/

/-- An active roadmap whose one step studies the unit of the older release. -/
def studyDb : Db :=
  { users := [⟨1, true, none⟩]
    profiles := [⟨1, 1, none⟩]
    goals := [⟨10, 1, .targeted, some "o", 0, "UTC", .active⟩]
    analyses := [⟨20, 1, 10, 1, none, .ready, none, none⟩]
    traces := [⟨30, 1⟩]
    proposals := [⟨40, 20, 1, "", 1, .absent, .feasible, [], 30⟩]
    roadmaps := [⟨50, 1, 10, 40, "", .active, 1, 1, none, ⟨.absent, .absent, none, []⟩, 0⟩]
    steps := [⟨60, 50, "study@1", 1, "study", 1, .todo, none, none,
      [⟨"unit", "ncs:unit:2001070306", "데이터 분석", []⟩], []⟩] }

private theorem studyDb_valid : Constraints studyDb := by decide +kernel

/-- A worker that gets that release. -/
def studyWorker : RecomputeWorker :=
  { unlabeledWorker with getSnapshot := fun _ ↦ .ok olderRelease }

/-- A context of the user with capabilities, for the older release. -/
def studyContext (profileVersion : Nat) (capabilities : List CapabilityInput) :
    RecomputeContext :=
  { userId := 1, profileVersion, goalId := 10
    selection := ⟨"DATA_ANALYST", "product-roles-v1", "older"⟩
    source := .localJson, capabilities, completeness := ⟨true, ∅⟩
    constraints := defaultRoutePreferences 0
    referenceAt := 0, planningStartedAt := 0, calendar := [], candidateAvailability := []
    solverSettings := .default }

/-- The step is completed. -/
def studyCompletion : StepStateMutation := ⟨1, 50, 60, 1, 1, .completed⟩

/-- What its transaction draws. -/
def studyDraw : StepDraw := ⟨100, fun index ↦ 1000 + index, ⟨10000, 10001, 0⟩⟩

private theorem exists_ok_of_isOk {ε α : Type} {e : Except ε α} (h : e.isOk) : ∃ a, e = .ok a := by
  cases e with
  | ok a => exact ⟨a, rfl⟩
  | error _ => cases h

/-- A study that is completed is credited. -/
theorem completion_credited_study :
    ∃ (t : Database) (capabilities : List CapabilityInput) (before after : GapAnalysis),
      t = (mutateStepState noCarryForward studyCompletion studyDraw).commit
        ⟨studyDb, studyDb_valid⟩ ∧
      studyWorker.analyze unlabeledTurn.draw (studyContext 1 []) olderRelease = .ok before ∧
      studyWorker.analyze unlabeledTurn.draw (studyContext 2 capabilities) olderRelease =
        .ok after ∧
      StepCredited olderRelease studyStep before after := by
  obtain ⟨_, hyields⟩ := yields_of_isOk
    (show ((mutateStepState noCarryForward studyCompletion studyDraw).run
      ⟨studyDb, studyDb_valid⟩).isOk by decide +kernel)
  let after := (mutateStepState noCarryForward studyCompletion studyDraw).commit
    ⟨studyDb, studyDb_valid⟩
  let capabilities := ((activeRows after.1 1).map fiveHoursReader.stored).flatMap (inputsOf 0)
  obtain ⟨before, hbefore⟩ := exists_ok_of_isOk
    (show (studyWorker.analyze unlabeledTurn.draw (studyContext 1 []) olderRelease).isOk by
      decide +kernel)
  obtain ⟨after, hafter⟩ := exists_ok_of_isOk
    (show (studyWorker.analyze unlabeledTurn.draw (studyContext 2 capabilities) olderRelease).isOk
      by decide +kernel)
  exact ⟨_, capabilities, before, after, rfl, hbefore, hafter,
    @completion_credited studyWorker fiveHoursReader 0 _ _ _ _ _ _ _ _ olderRelease.templates _ _ _
      _ _ _ _ hyields rfl (List.mem_singleton_self _) rfl (by decide +kernel)
      ⟨[], .nil, by decide +kernel⟩ ⟨_, .refl _, by decide +kernel⟩ hbefore hafter⟩

end Jobtology.Workers
