import Jobtology.Planning.PlannedRoute
import Jobtology.ProductRoles.RenamedCatalog
import Jobtology.Workers.Recompute

/-!
# Which errors of a recompute are listed

Three errors of a recompute are of no class that `process_once` lists: an outcome that cannot be
stored, a model that the solver rejects, and hours that no float holds. The pinned snapshot and
the answers of the solver tell when none of them comes up.
-/

namespace Jobtology.Workers

open Jobtology.Base Jobtology.Analyses Jobtology.Corpus Jobtology.Planning Jobtology.ProductRoles
open Jobtology.Profiles Jobtology.Store

/-- The error is of a class that `process_once` lists. -/
def RecomputeError.Listed (e : RecomputeError) : Prop := e.handling ≠ .propagate

instance : DecidablePred RecomputeError.Listed := fun _ ↦ inferInstanceAs (Decidable (_ ≠ _))

namespace RecomputeWorker

variable {worker : RecomputeWorker} {draw : RecomputeDraw} {item : RecomputeWorkItem}
  {context : RecomputeContext} {snapshot : PublishedCorpusSnapshot} {e : RecomputeError}

/-! ### The snapshot -/

/-- The snapshot is the one that the context of the work item selects. -/
structure Selected (item : RecomputeWorkItem) (context : RecomputeContext)
    (snapshot : PublishedCorpusSnapshotData) : Prop where
  user : context.userId = item.userId
  version : context.profileVersion = item.profileVersion
  occupation : context.selection.occupationId = snapshot.occupationId
  basis : context.selection.basisVersion = snapshot.basisVersion

private theorem selectSnapshot_ok (h : worker.selectSnapshot item context = .ok snapshot) :
    Selected item context snapshot.toPublishedCorpusSnapshotData ∧
      worker.getSnapshot context.selection = .ok snapshot := by
  simp only [selectSnapshot] at h
  split at h
  · cases h
  next hitem =>
    split at h
    · cases h
    obtain ⟨found, hfound, h⟩ := bind_eq_ok.mp h
    obtain ⟨_, hselection, h⟩ := bind_eq_ok.mp h
    obtain rfl := Except.ok.inj h
    have hselection := mapError_eq_ok.mp hselection
    unfold requireSelection at hselection
    split at hselection
    · cases hselection
    · next hsame =>
      rw [not_or, not_not, not_not] at hitem
      simp only [not_or, not_not] at hsame
      exact ⟨⟨hitem.1, hitem.2, hsame.1, hsame.2.1⟩, mapError_eq_ok.mp hfound⟩

private theorem selectSnapshot_error (h : worker.selectSnapshot item context = .error e) :
    e.Listed := by
  simp only [selectSnapshot] at h
  split at h
  · obtain rfl := Except.error.inj h
    simp [RecomputeError.Listed, RecomputeError.handling]
  split at h
  · obtain rfl := Except.error.inj h
    simp [RecomputeError.Listed, RecomputeError.handling]
  rcases bind_eq_error.mp h with h | ⟨found, -, h⟩
  · obtain ⟨_, -, rfl⟩ := mapError_eq_error.mp h
    simp [RecomputeError.Listed, RecomputeError.handling]
  rcases bind_eq_error.mp h with h | ⟨_, -, h⟩
  · obtain ⟨_, -, rfl⟩ := mapError_eq_error.mp h
    simp [RecomputeError.Listed, RecomputeError.handling]
  · cases h

/-! ### The analysis -/

private theorem baselineForRecompute_ok {allowFixture : Bool} {baseline : EditorialBaseline}
    (h : baselineForRecompute allowFixture snapshot.toPublishedCorpusSnapshotData = .ok baseline) :
    baseline = baselineOf snapshot.toPublishedCorpusSnapshotData := by
  unfold baselineForRecompute at h
  obtain ⟨_, -, h⟩ := bind_eq_ok.mp h
  split at h
  · cases h
  · exact (Except.ok.inj h).symm

/-- An analysis has the requirements of its snapshot. -/
theorem analyze_keys {analysis : GapAnalysis}
    (h : worker.analyze draw context snapshot = .ok analysis) :
    analysis.requirements.map (·.requirementKey) =
      snapshot.requirements.map (·.requirementKey) := by
  unfold analyze at h
  obtain ⟨baseline, hbaseline, h⟩ := bind_eq_ok.mp h
  obtain ⟨capabilities, -, h⟩ := bind_eq_ok.mp h
  have hkeys := evaluate_keys (mapError_eq_ok.mp h)
  rw [baselineForRecompute_ok hbaseline] at hkeys
  exact hkeys

private theorem analyze_error
    (hselected : Selected item context snapshot.toPublishedCorpusSnapshotData)
    (h : worker.analyze draw context snapshot = .error e) : e.Listed := by
  unfold analyze at h
  rcases bind_eq_error.mp h with h | ⟨baseline, hbaseline, h⟩
  · unfold baselineForRecompute at h
    rcases bind_eq_error.mp h with h | ⟨_, -, h⟩
    · obtain ⟨_, -, rfl⟩ := mapError_eq_error.mp h
      simp [RecomputeError.Listed, RecomputeError.handling]
    · split at h
      · obtain rfl := Except.error.inj h
        simp [RecomputeError.Listed, RecomputeError.handling]
      · cases h
  rcases bind_eq_error.mp h with h | ⟨capabilities, -, h⟩
  · obtain ⟨_, -, rfl⟩ := mapError_eq_error.mp h
    simp [RecomputeError.Listed, RecomputeError.handling]
  · obtain ⟨mismatch, hmismatch, -⟩ := mapError_eq_error.mp h
    obtain rfl := baselineForRecompute_ok hbaseline
    obtain ⟨analysis, hanalysis⟩ := exists_evaluate
      (baselineOf snapshot.toPublishedCorpusSnapshotData)
      ⟨toString context.userId, context.profileVersion, capabilities⟩
      ⟨toString draw.analysisId, context.selection.occupationId, context.selection.basisVersion,
        context.referenceAt⟩ context.completeness hselected.occupation hselected.basis
    cases hanalysis.symm.trans hmismatch

/-! ### The problem -/

/-- A problem that a context may pose on its snapshot: it has the constraints and the calendar of
the context, its candidates are activities of the snapshot, under their names for planning, and it
asks for requirements of the snapshot. -/
structure Poses (context : RecomputeContext) (snapshot : PublishedCorpusSnapshotData)
    (problem : PlanningProblemData) : Prop where
  constraints : problem.constraints = context.constraints
  planningStartedAt : problem.planningStartedAt = context.planningStartedAt
  calendar : problem.calendar = context.calendar
  candidates : ∀ c ∈ problem.candidates, ∃ t ∈ snapshot.templates,
    c.actionId = planningActionId snapshot context.constraints t.actionId ∧
      c.templateRevision = t.revision ∧ c.outcomeRequirementKeys = t.outcomeRequirementKeys
  requirements : ∀ key ∈ problem.requiredRequirementKeys ∪ problem.preferredRequirementKeys,
    key ∈ snapshot.requirements.map (·.requirementKey)

/-- A problem is planned from the templates of its snapshot, renamed, and its candidates are
expanded from them. -/
structure Prepared (context : RecomputeContext) (snapshot : PublishedCorpusSnapshot)
    (analysis : GapAnalysis) (catalog : RuntimePlanningCatalog) (problem : PlanningProblem) :
    Prop where
  replanned : List.Forall₂
    (Replans (planningActionId snapshot.toPublishedCorpusSnapshotData context.constraints))
    snapshot.templates catalog.templates
  accepted : generatorPostInit catalog.templates = .ok ()
  candidates : problem.candidates = [] ∨
    SmallestClosure catalog.templates analysis.toEditorialAnalysis problem.candidates
  poses : Poses context snapshot.toPublishedCorpusSnapshotData problem.toPlanningProblemData

section Problem

variable {analysis : GapAnalysis} {catalog : RuntimePlanningCatalog} {problem : PlanningProblem}

/-- Every outcome of a catalog is in the analysis of its snapshot. -/
theorem outcomes_known (hkeys : analysis.requirements.map (·.requirementKey) =
      snapshot.requirements.map (·.requirementKey)) :
    ∀ t ∈ snapshot.templates, ∀ key ∈ t.outcomeRequirementKeys,
      key ∈ analysis.requirements.map (·.requirementKey) := by
  intro t ht key hkey
  rw [hkeys]
  exact snapshot.outcome_mem ht hkey

/-- A catalog of an accepted snapshot is its renamed templates, and can be expanded. -/
theorem catalog_laws (hkeys : analysis.requirements.map (·.requirementKey) =
      snapshot.requirements.map (·.requirementKey))
    (h : productPlanningCatalog worker.showCredit snapshot.toPublishedCorpusSnapshotData
      context.constraints analysis = .ok catalog) :
    List.Forall₂
        (Replans (planningActionId snapshot.toPublishedCorpusSnapshotData context.constraints))
        snapshot.templates catalog.templates ∧
      generatorPostInit catalog.templates = .ok () ∧
      ∀ t ∈ catalog.templates, ∀ key ∈ t.outcomeRequirementKeys,
        key ∈ analysis.requirements.map (·.requirementKey) := by
  have hreplanned := (productPlanningCatalog_inv h).imp fun _ _ ↦ PlansFor.toReplans
  refine ⟨hreplanned, generatorPostInit_renamed (planningActionId_injective _ _) hreplanned
    snapshot.catalog_accepted, fun u hu key hkey ↦ ?_⟩
  obtain ⟨t, ht, htu⟩ := exists_of_mem_right hreplanned hu
  exact outcomes_known hkeys t ht key (htu.outcomes ▸ hkey)

private theorem candidateGenerator_ok {templates : List ActivityTemplate}
    (h : generatorPostInit templates = .ok ()) :
    candidateGenerator templates = .ok ⟨templates, h⟩ := by
  unfold candidateGenerator
  split
  · rfl
  · next hfails =>
    rw [h] at hfails
    cases hfails

/-- An analysis of every outcome of a catalog is expanded. -/
theorem exists_build (g : CandidateGenerator) (analysis : EditorialAnalysis)
    (hknown : ∀ t ∈ g.templates, ∀ key ∈ t.outcomeRequirementKeys,
      key ∈ analysis.requirements.map (·.requirementKey)) :
    ∃ set, build g analysis = .ok set ∧
      (set.candidates = [] ∨ SmallestClosure g.templates analysis set.candidates) := by
  cases hstatus : analysis.analysisStatus with
  | insufficientData =>
    unfold build
    rw [hstatus]
    exact ⟨_, rfl, .inl rfl⟩
  | ready =>
    obtain ⟨set, hset, hclosure, -⟩ := (build_smallestClosure g analysis hstatus).1 hknown
    exact ⟨set, hset, .inr hclosure⟩

private theorem planningProblem_ok {p : PlanningProblemData} {problem : PlanningProblem}
    (h : planningProblem p = .ok problem) : problem.toPlanningProblemData = p := by
  unfold planningProblem at h
  split at h
  · rw [← Except.ok.inj h]
  · cases h

private theorem withTimeLimit_ok {limit : Option ℚ} {p q : PlanningProblem}
    (h : withTimeLimit limit p = .ok q) :
    q.toPlanningProblemData = { p.toPlanningProblemData with settings := q.settings } := by
  cases limit with
  | none => rw [← Except.ok.inj h]
  | some seconds =>
    simp only [withTimeLimit] at h
    split at h
    · rw [← Except.ok.inj h]
    · cases h

private theorem unsatisfiedKeys_subset (necessity : RequirementNecessity) {key : String}
    (h : key ∈ unsatisfiedKeys analysis.toEditorialAnalysis necessity) :
    key ∈ analysis.requirements.map (·.requirementKey) := by
  obtain ⟨r, hr, rfl⟩ := List.mem_map.mp (List.mem_toFinset.mp h)
  exact List.mem_map_of_mem (List.mem_filter.mp hr).1

private theorem buildPlanningProblem_ok {set : CandidateSet}
    (hkeys : analysis.requirements.map (·.requirementKey) =
      snapshot.requirements.map (·.requirementKey))
    (hreplanned : List.Forall₂
      (Replans (planningActionId snapshot.toPublishedCorpusSnapshotData context.constraints))
      snapshot.templates catalog.templates)
    (hcandidates : set.candidates = [] ∨
      SmallestClosure catalog.templates analysis.toEditorialAnalysis set.candidates)
    (h : buildPlanningProblem context analysis.toEditorialAnalysis set catalog = .ok problem) :
    problem.candidates = set.candidates ∧
      Poses context snapshot.toPublishedCorpusSnapshotData problem.toPlanningProblemData := by
  obtain ⟨availability, -, h⟩ := bind_eq_ok.mp h
  rw [planningProblem_ok h]
  refine ⟨rfl, rfl, rfl, rfl, fun c hc ↦ ?_, fun key hkey ↦ ?_⟩
  · rcases hcandidates with hnone | hclosure
    · rw [hnone] at hc
      cases hc
    · obtain ⟨u, hu, rfl⟩ := hclosure.fromTemplate c hc
      obtain ⟨t, ht, htu⟩ := exists_of_mem_right hreplanned hu
      exact ⟨t, ht, htu.actionId, htu.revision, htu.outcomes⟩
  · rw [← hkeys]
    rcases Finset.mem_union.mp hkey with hkey | hkey
    · exact unsatisfiedKeys_subset .required hkey
    · exact unsatisfiedKeys_subset .preferred hkey

private theorem problemOf_ok (hkeys : analysis.requirements.map (·.requirementKey) =
      snapshot.requirements.map (·.requirementKey))
    (h : worker.problemOf context snapshot analysis = .ok (catalog, problem)) :
    Prepared context snapshot analysis catalog problem := by
  unfold problemOf at h
  obtain ⟨runtime, hruntime, h⟩ := bind_eq_ok.mp h
  obtain ⟨hreplanned, haccepted, hknown⟩ := catalog_laws hkeys (mapError_eq_ok.mp hruntime)
  obtain ⟨set, hset, hcandidates⟩ := exists_build ⟨runtime.templates, haccepted⟩
    analysis.toEditorialAnalysis hknown
  obtain ⟨generator, hgenerator, h⟩ := bind_eq_ok.mp h
  obtain rfl := Except.ok.inj
    ((candidateGenerator_ok haccepted).symm.trans (mapError_eq_ok.mp hgenerator))
  obtain ⟨built, hbuilt, h⟩ := bind_eq_ok.mp h
  obtain rfl := Except.ok.inj (hset.symm.trans (mapError_eq_ok.mp hbuilt))
  obtain ⟨unlimited, hunlimited, h⟩ := bind_eq_ok.mp h
  obtain ⟨limited, hlimited, h⟩ := bind_eq_ok.mp h
  obtain ⟨rfl, rfl⟩ := Prod.mk.inj (Except.ok.inj h)
  obtain ⟨hsame, hposes⟩ :=
    buildPlanningProblem_ok hkeys hreplanned hcandidates (mapError_eq_ok.mp hunlimited)
  have hlimit := withTimeLimit_ok (mapError_eq_ok.mp hlimited)
  refine ⟨hreplanned, haccepted, ?_, ?_⟩
  · rw [hlimit, hsame]
    exact hcandidates
  · rw [hlimit]
    exact ⟨hposes.constraints, hposes.planningStartedAt, hposes.calendar, hposes.candidates,
      hposes.requirements⟩

/-- Only hours that no float holds keep a problem from being posed by an error that is not
listed. -/
theorem problemOf_error (hfits : ∀ t ∈ snapshot.templates, FitsFloat t)
    (hkeys : analysis.requirements.map (·.requirementKey) =
      snapshot.requirements.map (·.requirementKey))
    (h : worker.problemOf context snapshot analysis = .error e) : e.Listed := by
  have hclosed := ((generatorPostInit_ok_iff _).mp snapshot.catalog_accepted).2.1
  obtain ⟨found, hfound, -⟩ := productPlanningCatalog_ok worker.showCredit snapshot
    context.constraints hclosed hfits (outcomes_known hkeys)
  obtain ⟨-, haccepted, hknown⟩ := catalog_laws hkeys hfound
  obtain ⟨set, hset, -⟩ := exists_build ⟨found.templates, haccepted⟩
    analysis.toEditorialAnalysis hknown
  unfold problemOf at h
  rcases bind_eq_error.mp h with h | ⟨runtime, hruntime, h⟩
  · obtain ⟨_, hraised, -⟩ := mapError_eq_error.mp h
    cases hfound.symm.trans hraised
  obtain rfl := Except.ok.inj (hfound.symm.trans (mapError_eq_ok.mp hruntime))
  rcases bind_eq_error.mp h with h | ⟨generator, hgenerator, h⟩
  · obtain ⟨_, hraised, -⟩ := mapError_eq_error.mp h
    cases (candidateGenerator_ok haccepted).symm.trans hraised
  obtain rfl := Except.ok.inj
    ((candidateGenerator_ok haccepted).symm.trans (mapError_eq_ok.mp hgenerator))
  rcases bind_eq_error.mp h with h | ⟨built, -, h⟩
  · obtain ⟨_, hraised, -⟩ := mapError_eq_error.mp h
    cases hset.symm.trans hraised
  rcases bind_eq_error.mp h with h | ⟨unlimited, -, h⟩
  · obtain ⟨_, -, rfl⟩ := mapError_eq_error.mp h
    simp [RecomputeError.Listed, RecomputeError.handling]
  rcases bind_eq_error.mp h with h | ⟨limited, -, h⟩
  · obtain ⟨_, -, rfl⟩ := mapError_eq_error.mp h
    simp [RecomputeError.Listed, RecomputeError.handling]
  · cases h

end Problem

/-! ### The route -/

private theorem validateCandidates_sorted {p : PlanningProblem}
    (h : validateCandidates p.candidates = .ok ()) :
    validateCandidates (solverCandidates p) = .ok () := by
  have hperm : (solverCandidates p).Perm p.candidates := List.perm_insertionSort _ _
  rw [validateCandidates_ok_iff] at h ⊢
  refine ⟨(hperm.map _).nodup_iff.mpr h.1, fun c hc ↦ ?_⟩
  obtain ⟨heffort, hincluded⟩ := h.2 c (hperm.mem_iff.mp hc)
  exact ⟨heffort, fun a ha ↦ (hperm.map _).mem_iff.mpr (hincluded a ha)⟩

/-- The candidates of a prepared problem are valid. -/
theorem Prepared.valid {analysis : GapAnalysis} {catalog : RuntimePlanningCatalog}
    {problem : PlanningProblem} (h : Prepared context snapshot analysis catalog problem) :
    validateCandidates (solverCandidates problem) = .ok () := by
  refine validateCandidates_sorted ?_
  rcases h.candidates with hnone | hclosure
  · rw [hnone]
    rfl
  · exact hclosure.validateCandidates

variable {payload : Store.RecomputeContext} {route : PlannedRoute}

/-- What a planned route was made from. -/
structure Planned (worker : RecomputeWorker) (draw : RecomputeDraw) (item : RecomputeWorkItem)
    (payload : Store.RecomputeContext) (route : PlannedRoute) : Prop where
  context : worker.contexts.getContext payload = .ok route.context
  snapshot : worker.getSnapshot route.context.selection = .ok route.snapshot
  selected : Selected item route.context route.snapshot.toPublishedCorpusSnapshotData
  prepared : Prepared route.context route.snapshot route.analysis route.catalog route.problem
  planned : plan worker.planner draw.solver route.problem = .ok route.result

private theorem planRoute_ok (h : worker.planRoute draw item payload = .ok route) :
    Planned worker draw item payload route := by
  unfold planRoute at h
  obtain ⟨context, hcontext, h⟩ := bind_eq_ok.mp h
  obtain ⟨snapshot, hsnapshot, h⟩ := bind_eq_ok.mp h
  obtain ⟨analysis, hanalysis, h⟩ := bind_eq_ok.mp h
  obtain ⟨⟨catalog, problem⟩, hproblem, h⟩ := bind_eq_ok.mp h
  obtain ⟨result, hresult, h⟩ := bind_eq_ok.mp h
  obtain rfl := Except.ok.inj h
  obtain ⟨hselected, hfound⟩ := selectSnapshot_ok hsnapshot
  exact ⟨mapError_eq_ok.mp hcontext, hfound, hselected,
    problemOf_ok (analyze_keys hanalysis) hproblem, mapError_eq_ok.mp hresult⟩

/-- What the snapshot of a context and the answers of the solver must be, so that a recompute
raises no error that is not listed. A float holds the hours of every template. Of a problem that the
context may pose, the solver rejects no model, and an activity that it selects teaches only
requirements that fit the columns of a roadmap's outcomes. -/
structure Answerable (worker : RecomputeWorker) (draw : RecomputeDraw) (context : RecomputeContext)
    (snapshot : PublishedCorpusSnapshotData) : Prop where
  hours : ∀ t ∈ snapshot.templates, FitsFloat t
  accepted : ∀ problem : PlanningProblem, Poses context snapshot problem.toPlanningProblemData →
    ∀ phase coverage settings, (draw.solver.solve phase (routeModel problem
      (solverCandidates problem) coverage) settings worker.planner.workerCount).status ≠
        .modelInvalid
  recordable : ∀ problem : PlanningProblem, Poses context snapshot problem.toPlanningProblemData →
    ∀ value, SolverAnswer worker.planner draw.solver problem value → ∀ t ∈ snapshot.templates,
      value (.selected (planningActionId snapshot context.constraints t.actionId)) = 1 →
      ∀ r ∈ snapshot.requirements, r.requirementKey ∈ t.outcomeRequirementKeys →
        r.requirementKey ≠ "" ∧ r.entityId ≠ "" ∧ r.label ≠ "" ∧ r.label.length ≤ 500

/-- The context that a payload holds has an answerable snapshot. -/
def AnswerablePayload (worker : RecomputeWorker) (draw : RecomputeDraw)
    (payload : Store.RecomputeContext) : Prop :=
  ∀ context, worker.contexts.getContext payload = .ok context →
    ∀ snapshot, worker.getSnapshot context.selection = .ok snapshot →
      worker.Answerable draw context snapshot.toPublishedCorpusSnapshotData

/-- An error of planning an answerable payload is of a listed class. -/
theorem planRoute_error (hsound : SoundSolver draw.solver)
    (hanswerable : worker.AnswerablePayload draw payload)
    (h : worker.planRoute draw item payload = .error e) : e.Listed := by
  unfold planRoute at h
  rcases bind_eq_error.mp h with h | ⟨context, hcontext, h⟩
  · obtain ⟨error, -, rfl⟩ := mapError_eq_error.mp h
    cases error <;> simp [ContextError.toRecomputeError, RecomputeError.Listed,
      RecomputeError.handling]
  rcases bind_eq_error.mp h with h | ⟨snapshot, hsnapshot, h⟩
  · exact selectSnapshot_error h
  obtain ⟨hselected, hfound⟩ := selectSnapshot_ok hsnapshot
  have hanswers := hanswerable context (mapError_eq_ok.mp hcontext) snapshot hfound
  rcases bind_eq_error.mp h with h | ⟨analysis, hanalysis, h⟩
  · exact analyze_error hselected h
  have hkeys := analyze_keys hanalysis
  rcases bind_eq_error.mp h with h | ⟨⟨catalog, problem⟩, hproblem, h⟩
  · exact problemOf_error hanswers.hours hkeys h
  rcases bind_eq_error.mp h with h | ⟨result, -, h⟩
  · obtain ⟨error, herror, rfl⟩ := mapError_eq_error.mp h
    have hprepared := problemOf_ok hkeys hproblem
    rcases plan_returns worker.planner hsound problem hprepared.valid with
      ⟨result, hresult⟩ | ⟨-, phase, coverage, settings, hrejected⟩
    · cases hresult.symm.trans herror
    · exact absurd hrejected (hanswers.accepted problem hprepared.poses phase coverage settings)
  · cases h

/-! ### The artifacts -/

/-- Every step of a route was planned from a template of the catalog, which the solver selected. -/
theorem Planned.template (hsound : SoundSolver draw.solver)
    (h : Planned worker draw item payload route) {step : ScheduledRouteStep}
    (hstep : step ∈ route.result.scheduledSteps) :
    ∃ t ∈ route.catalog.templates, route.resolver.templateOf step = some t ∧
      step.outcomeRequirementKeys = sortedSet t.outcomeRequirementKeys ∧
      ∃ value, SolverAnswer worker.planner draw.solver route.problem value ∧
        value (.selected t.actionId) = 1 := by
  rcases plan_answeredSteps hsound h.planned with hnone | ⟨-, value, hanswer, hroute⟩
  · rw [hnone] at hstep
    cases hstep
  · obtain ⟨c, hc, hselected, hstepOf⟩ := hroute.candidate_of_step hstep
    have hmem : c ∈ route.problem.candidates := (List.mem_insertionSort _).mp hc
    rcases h.prepared.candidates with hempty | hclosure
    · rw [hempty] at hmem
      cases hmem
    · obtain ⟨t, ht, rfl⟩ := hclosure.fromTemplate c hmem
      refine ⟨t, ht, ?_, hstepOf.outcomes, value, hanswer, hselected⟩
      have hn := ((generatorPostInit_ok_iff _).mp h.prepared.accepted).1
      have hmatch : t.actionId = step.actionId ∧ t.revision = step.templateRevision :=
        ⟨hstepOf.actionId.symm, hstepOf.templateRevision.symm⟩
      have hsome : (route.catalog.templates.find? fun u ↦
          u.actionId = step.actionId ∧ u.revision = step.templateRevision).isSome = true :=
        List.find?_isSome.mpr ⟨t, ht, decide_eq_true hmatch⟩
      obtain ⟨u, hu⟩ := Option.isSome_iff_exists.mp hsome
      have hfound := List.find?_some hu
      rw [decide_eq_true_eq] at hfound
      have hsame : u = t := List.inj_on_of_nodup_map hn (List.mem_of_find?_eq_some hu) ht
        (hfound.1.trans hmatch.1.symm)
      rw [← hsame]
      exact hu

/-- The outcomes of every step of an answerable route can be stored. -/
theorem Planned.serialize_ok (hsound : SoundSolver draw.solver)
    (hanswerable : worker.AnswerablePayload draw payload)
    (h : Planned worker draw item payload route) {step : ScheduledRouteStep}
    (hstep : step ∈ route.result.scheduledSteps) :
    ∃ outcomes, route.resolver.serialize step = .ok outcomes := by
  have hanswers := hanswerable route.context h.context route.snapshot h.snapshot
  obtain ⟨u, hu, htemplate, houtcomes, value, hanswer, hselected⟩ := h.template hsound hstep
  obtain ⟨t, ht, htu⟩ := exists_of_mem_right h.prepared.replanned hu
  rw [htu.actionId] at hselected
  rw [exists_serialize_iff htemplate houtcomes, htu.outcomes]
  intro key hkey
  obtain ⟨r, hr, rfl⟩ := List.mem_map.mp (route.snapshot.outcome_mem ht hkey)
  have hlookup : route.resolver.requirementOf r.requirementKey = some r :=
    lookupLast_of_mem route.snapshot.requirementKeys_nodup hr
  exact ⟨r, hlookup,
    hanswers.recordable route.problem h.prepared.poses value hanswer t ht hselected r hr hkey⟩

/-- The artifacts of an answerable route are built. -/
theorem Planned.artifacts (hsound : SoundSolver draw.solver)
    (hanswerable : worker.AnswerablePayload draw payload)
    (h : Planned worker draw item payload route) :
    ∃ artifacts, buildRecomputeArtifacts draw item route = .ok artifacts := by
  have hstored : ∃ steps, route.result.scheduledSteps.mapM (proposalStep route.resolver) =
      .ok steps := by
    rw [exists_mapM_ok_iff]
    intro step hstep
    obtain ⟨outcomes, houtcomes⟩ := h.serialize_ok hsound hanswerable hstep
    exact ⟨_, bind_eq_ok.mpr ⟨outcomes, houtcomes, rfl⟩⟩
  obtain ⟨steps, hsteps⟩ := hstored
  unfold buildRecomputeArtifacts routeProposal
  cases route.result.feasibility with
  | none => exact ⟨_, rfl⟩
  | some feasibility => exact ⟨_, bind_eq_ok.mpr ⟨_, bind_eq_ok.mpr ⟨steps, hsteps, rfl⟩, rfl⟩⟩

/-- Every error of recomputing an answerable payload is listed. -/
theorem recompute_listed (hsound : SoundSolver draw.solver)
    (hanswerable : worker.AnswerablePayload draw payload)
    (h : worker.recompute draw item payload = .error e) : e.Listed := by
  unfold recompute at h
  rcases bind_eq_error.mp h with h | ⟨route, hroute, h⟩
  · exact planRoute_error hsound hanswerable h
  split at h
  · obtain rfl := Except.error.inj h
    simp [RecomputeError.Listed, RecomputeError.handling]
  · obtain ⟨error, hraised, -⟩ := mapError_eq_error.mp h
    obtain ⟨artifacts, hartifacts⟩ := (planRoute_ok hroute).artifacts hsound hanswerable
    cases hartifacts.symm.trans hraised

/-- Artifacts are made from the payload's goal, for the work item. -/
theorem recompute_ok {artifacts : RecomputeArtifacts}
    (h : worker.recompute draw item payload = .ok artifacts) :
    some artifacts.analysis.goalId = payload.goalId ∧ artifacts.analysis.id = draw.analysisId ∧
      artifacts.analysis.userId = item.userId ∧
      artifacts.analysis.profileVersion = item.profileVersion ∧ 1 ≤ item.profileVersion ∧
      artifacts.belongTo item ∧ ∀ p ∈ artifacts.proposal,
        p.id = draw.proposal.proposalId ∧ p.decisionTraceId = draw.proposal.traceId := by
  unfold recompute at h
  obtain ⟨route, hroute, h⟩ := bind_eq_ok.mp h
  have hplanned := planRoute_ok hroute
  obtain ⟨hgoal, hpositive⟩ := ContextValidation.getContext_ok hplanned.context
  split at h
  · cases h
  · obtain ⟨proposal, hproposal, hbuilt⟩ := bind_eq_ok.mp (mapError_eq_ok.mp h)
    obtain rfl := Except.ok.inj hbuilt
    have hversion := hplanned.selected.version
    refine ⟨hgoal.symm, rfl, rfl, hversion, hversion ▸ hpositive, ?_, ?_⟩
    · intro p hp
      obtain rfl := Option.mem_def.mp hp
      obtain ⟨-, -, -, hanalysis, huser, hprofile⟩ := routeProposal_ok hproposal
      exact ⟨huser, hprofile.trans hversion, hanalysis⟩
    · intro p hp
      obtain rfl := Option.mem_def.mp hp
      unfold routeProposal at hproposal
      split at hproposal
      · cases hproposal
      · obtain ⟨steps, -, hrow⟩ := bind_eq_ok.mp hproposal
        obtain rfl := Option.some.inj (Except.ok.inj hrow)
        exact ⟨rfl, rfl⟩

end RecomputeWorker

end Jobtology.Workers
