import Jobtology.Planning.CandidateClosure
import Jobtology.Planning.PlannedRoute
import Jobtology.Store.Ownership
import Jobtology.Store.RoadmapCreation
import Jobtology.Store.RouteProposals

/-!
# Planned routes as roadmaps

When the route of a plan can be stored as a roadmap, and that the rows and the dependencies which
are stored are those of the route.
-/

namespace Jobtology.Store

open Jobtology.Base Jobtology.Planning Jobtology.Relational Jobtology.Time
open Jobtology.Relational.Transaction

/-! ### Routes that can be stored -/

/-- The columns have room for the steps of a route, and no step names a prerequisite twice. -/
structure FitsColumns (route : List ScheduledRouteStep) : Prop where
  stepKey : ∀ s ∈ route, s.stepKey.length ≤ 128
  revision : ∀ s ∈ route, 1 ≤ s.templateRevision ∧ s.templateRevision < 2147483648
  prerequisitesOnce : ∀ s ∈ route, s.prerequisiteStepKeys.Nodup

section Documents

variable {p : PlanningProblem} {route : List ScheduledRouteStep} {steps : List ProposalStep}

/-- Of the steps of a plan no two have one key, and each ends after it starts and comes after its
prerequisites, which are steps of the plan. -/
theorem plannedSteps_laws (h : PlannedSteps p route) :
    (route.map (·.stepKey)).Nodup ∧ (∀ s ∈ route, s.actionId.length ≤ s.stepKey.length) ∧
      (∀ s ∈ route, s.plannedStartAt < s.plannedEndAt) ∧
      (∀ s ∈ route, ∀ k ∈ s.prerequisiteStepKeys, ∃ t ∈ route, t.stepKey = k) ∧
      (∀ s ∈ route, ∀ t ∈ route, t.stepKey ∈ s.prerequisiteStepKeys →
        t.plannedEndAt ≤ s.plannedStartAt) ∧
      ∀ i j : Nat, ∀ s t : ScheduledRouteStep, route[i]? = some s → route[j]? = some t →
        s.stepKey ∈ t.prerequisiteStepKeys → i < j := by
  rcases h with rfl | ⟨-, σ, hroute⟩
  · simp
  · refine ⟨?_, fun s hs ↦ ?_, fun s hs ↦ hroute.startsAt_lt_endsAt hs, hroute.prerequisiteSteps,
      hroute.prerequisitesBefore, hroute.topological⟩
    · refine List.Nodup.map_on (fun s hs t ht hkey ↦ ?_) (List.Nodup.of_map _
        hroute.distinctActions)
      obtain ⟨c, -, -, hc⟩ := hroute.candidate_of_step hs
      obtain ⟨d, -, -, hd⟩ := hroute.candidate_of_step ht
      have haction := actionId_eq_of_stepKey_eq
        (hc.stepKey.symm.trans (hkey.trans hd.stepKey))
      exact List.inj_on_of_nodup_map hroute.distinctActions hs ht
        (hc.actionId.trans (haction.trans hd.actionId.symm))
    · obtain ⟨c, -, -, hc⟩ := hroute.candidate_of_step hs
      rw [hc.stepKey, hc.actionId, stepKey, String.length_append, String.length_append]
      omega

private theorem map_of_documents {γ : Type} {f : ScheduledRouteStep → γ} {g : ProposalStep → γ}
    (hfg : ∀ s d, IsDocumentOf s d → g d = f s) (h : List.Forall₂ IsDocumentOf route steps) :
    steps.map g = route.map f := by
  induction h with
  | nil => rfl
  | cons hhead _ ih => rw [List.map_cons, List.map_cons, hfg _ _ hhead, ih]

/-- The documents of a plan can be stored exactly when the columns have room. -/
theorem storable_iff_fitsColumns (hplanned : PlannedSteps p route)
    (h : List.Forall₂ IsDocumentOf route steps) : Storable steps ↔ FitsColumns route := by
  obtain ⟨hkeys, hlength, horder, hknown, -, htopological⟩ := plannedSteps_laws hplanned
  have hstepKeys : steps.map (·.stepKey) = route.map (·.stepKey) :=
    map_of_documents (fun _ _ hd ↦ hd.stepKey) h
  constructor
  · intro hstorable
    refine ⟨fun s hs ↦ ?_, fun s hs ↦ ?_, fun s hs ↦ ?_⟩
    · obtain ⟨d, hd, hdoc⟩ := exists_of_mem_left h hs
      exact hdoc.stepKey ▸ hstorable.keyFits d hd
    · obtain ⟨d, hd, hdoc⟩ := exists_of_mem_left h hs
      exact hdoc.templateRevision ▸ hstorable.revisionFits d hd
    · obtain ⟨d, hd, hdoc⟩ := exists_of_mem_left h hs
      exact hdoc.prerequisites ▸ hstorable.prerequisitesOnce d hd
  · intro hfits
    refine ⟨hstepKeys ▸ hkeys, fun d hd ↦ ?_, fun d hd ↦ ?_, fun d hd ↦ ?_, fun d hd ↦ ?_,
      fun d hd k hk ↦ ?_, fun d hd ↦ ?_, fun d hd hself ↦ ?_⟩
    all_goals obtain ⟨s, hs, hdoc⟩ := exists_of_mem_right h hd
    · exact hdoc.stepKey ▸ hfits.stepKey s hs
    · rw [hdoc.actionId]
      exact (hlength s hs).trans (hfits.stepKey s hs)
    · exact hdoc.templateRevision ▸ hfits.revision s hs
    · intro a ha b hb
      rw [hdoc.plannedStart] at ha
      rw [hdoc.plannedEnd] at hb
      rw [← Option.some.inj ha, ← Option.some.inj hb]
      exact le_of_lt (horder s hs)
    · rw [hdoc.prerequisites] at hk
      obtain ⟨t, ht, rfl⟩ := hknown s hs k hk
      rw [hstepKeys]
      exact List.mem_map_of_mem ht
    · exact hdoc.prerequisites ▸ hfits.prerequisitesOnce s hs
    · rw [hdoc.prerequisites, hdoc.stepKey] at hself
      obtain ⟨i, hi⟩ := List.mem_iff_getElem?.mp hs
      exact absurd (htopological i i s s hi hi hself) (Nat.lt_irrefl i)

end Documents

/-! ### Stored routes -/

/-- The row that a step of a route is stored as, with the completed steps whose completions the
roadmap inherits. -/
structure IsRowOf (resolver : PinnedOutcomeResolver) (completed : List (StepRow × Uuid))
    (step : ScheduledRouteStep) (row : StepRow) : Prop where
  stepKey : row.stepKey = step.stepKey
  actionId : row.actionId = step.actionId
  templateRevision : row.templateRevision = step.templateRevision
  plannedStart : row.plannedStart = some step.plannedStartAt
  plannedEnd : row.plannedEnd = some step.plannedEndAt
  criteria : row.criteria = step.completionCriteria
  outcomes : resolver.serialize step = .ok row.outcomes
  state : row.state =
    if ∃ c ∈ completed, c.1.semantics = row.semantics then .completed else .todo

/-- A dependency leads to a step at an earlier position. -/
def LeadsEarlier (db : Db) (d : DependencyRow) : Prop :=
  ∀ x ∈ db.steps, ∀ y ∈ db.steps, x.id = d.stepId → y.id = d.prerequisiteStepId →
    y.position < x.position

/-- Dependencies that lead to earlier positions have no cycle. -/
theorem wellFounded_dependencies {s : Database} {p : DependencyRow → Prop}
    (h : ∀ d ∈ s.1.dependencies, p d → LeadsEarlier s.1 d) :
    WellFounded fun y x : Uuid ↦
      ∃ d ∈ s.1.dependencies, p d ∧ d.stepId = x ∧ d.prerequisiteStepId = y := by
  let position (id : Uuid) : Nat :=
    ((lookup (·.id) s.1.steps id).map fun r : StepRow ↦ r.position).getD 0
  have hposition {r : StepRow} (hr : r ∈ s.1.steps) : position r.id = r.position := by
    have hfound := (lookup_eq_some s.2.steps.key).mpr ⟨hr, rfl⟩
    exact congrArg (fun o : Option StepRow ↦ (o.map fun r ↦ r.position).getD 0) hfound
  refine Subrelation.wf (fun {y x} hd ↦ ?_) (InvImage.wf position Nat.lt_wfRel.wf)
  obtain ⟨d, hd, hp, rfl, rfl⟩ := hd
  obtain ⟨rx, hrx, hx⟩ := s.2.dependencies.step d hd
  obtain ⟨ry, hry, hy⟩ := s.2.dependencies.prerequisite d hd
  have hxid : rx.id = d.stepId := (Prod.mk.inj hx).2
  have hyid : ry.id = d.prerequisiteStepId := (Prod.mk.inj hy).2
  have hlt : position d.prerequisiteStepId < position d.stepId := by
    rw [← hxid, ← hyid, hposition hrx, hposition hry]
    exact h d hd hp rx hrx ry hry hxid hyid
  exact hlt

/-- A roadmap has the steps of a route and the dependencies between them. -/
structure StoredRoute (resolver : PinnedOutcomeResolver) (completed : List (StepRow × Uuid))
    (roadmapId : Uuid) (route : List ScheduledRouteStep) (db : Db) : Prop where
  /-- One row for each step, in the order of the route. -/
  rows : List.Forall₂ (IsRowOf resolver completed) route
    (db.steps.filter (·.roadmapId = roadmapId))
  positions : (db.steps.filter (·.roadmapId = roadmapId)).map (·.position) =
    List.range route.length
  /-- One dependency for each prerequisite. -/
  edges : ∀ x ∈ db.steps, x.roadmapId = roadmapId → ∀ y ∈ db.steps, y.roadmapId = roadmapId →
    ((⟨roadmapId, x.id, y.id⟩ : DependencyRow) ∈ db.dependencies ↔
      ∃ s ∈ route, s.stepKey = x.stepKey ∧ y.stepKey ∈ s.prerequisiteStepKeys)
  /-- A prerequisite is at an earlier position. -/
  earlier : ∀ d ∈ db.dependencies, d.roadmapId = roadmapId → LeadsEarlier db d
  /-- A prerequisite is to end before its dependent starts. -/
  before : ∀ d ∈ db.dependencies, d.roadmapId = roadmapId → ∀ x ∈ db.steps, ∀ y ∈ db.steps,
    x.id = d.stepId → y.id = d.prerequisiteStepId →
      ∃ a ∈ y.plannedEnd, ∃ b ∈ x.plannedStart, a ≤ b
  acyclic : WellFounded fun y x : Uuid ↦ ∃ d ∈ db.dependencies,
    d.roadmapId = roadmapId ∧ d.stepId = x ∧ d.prerequisiteStepId = y

section Created

variable {s t : Database} {request : RoadmapCreate} {stepId : Nat → Uuid} {now : Int}
  {proposal : ProposalRow} {analysis : AnalysisRow}

/-- The ids that a creation drew were new. -/
theorem RoadmapCreated.fresh
    (h : RoadmapCreated request stepId now proposal analysis s.1 t.1) :
    FreshRoadmap request.roadmapId stepId proposal.steps.length s.1 := by
  have hroadmaps := t.2.roadmaps.key
  rw [h.written] at hroadmaps
  have hsteps := t.2.steps.key
  unfold Relational.Unique at hsteps
  rw [h.written, map_completeSteps fun _ ↦ rfl, List.map_append] at hsteps
  obtain ⟨-, hnew, hdisjoint⟩ := List.nodup_append.mp hsteps
  have hids : (stepRows request.roadmapId stepId proposal.steps.zipIdx).map (·.id) =
      (List.range proposal.steps.length).map stepId := by
    rw [stepRows, List.map_map, List.range_eq_range', ← List.zipIdx_map_snd, List.map_map]
    rfl
  rw [hids] at hnew hdisjoint
  refine ⟨(unique_append_singleton.mp hroadmaps).2, fun i hi x hx hid ↦ ?_,
    fun i hi j hj hij ↦ ?_⟩
  · exact hdisjoint _ (List.mem_map_of_mem hx) _ (List.mem_map_of_mem (List.mem_range.mpr hi)) hid
  · exact List.inj_on_of_nodup_map hnew (List.mem_range.mpr hi) (List.mem_range.mpr hj) hij

/-- The steps after a creation: those that were there, and the new ones. -/
theorem RoadmapCreated.steps_eq
    (h : RoadmapCreated request stepId now proposal analysis s.1 t.1) :
    t.1.steps = s.1.steps ++ completeSteps (request.inherited stepId proposal.steps s.1)
      (stepRows request.roadmapId stepId proposal.steps.zipIdx) := by
  have hold : completeSteps (request.inherited stepId proposal.steps s.1) s.1.steps =
      s.1.steps := by
    refine update_eq_self fun x hx hmem ↦ ?_
    obtain ⟨row, hrow, hid⟩ := List.mem_map.mp hmem
    obtain ⟨y, -, hrow⟩ := List.mem_filterMap.mp hrow
    obtain ⟨c, -, hstepId, -⟩ := inheritanceRow_eq_some.mp hrow
    obtain ⟨i, z, hz, -, hi⟩ := (stepIdOf_eq_some h.storable.keys).mp hstepId
    exact h.fresh.step i (List.getElem?_eq_some_iff.mp hz).1 x hx (hid.symm.trans hi.symm)
  rw [h.written]
  change completeSteps _ (s.1.steps ++ _) = _
  unfold completeSteps update at hold ⊢
  rw [List.map_append, hold]

/-- The rows of a roadmap that was created. -/
theorem RoadmapCreated.rows_eq
    (h : RoadmapCreated request stepId now proposal analysis s.1 t.1) :
    t.1.steps.filter (·.roadmapId = request.roadmapId) =
      completeSteps (request.inherited stepId proposal.steps s.1)
        (stepRows request.roadmapId stepId proposal.steps.zipIdx) := by
  rw [h.steps_eq, List.filter_append, List.filter_eq_nil_iff.mpr, List.nil_append,
    List.filter_eq_self.mpr]
  · intro r hr
    obtain ⟨r', hr', rfl⟩ := List.mem_map.mp hr
    obtain ⟨-, -, -, hroadmap⟩ := stepRows_index hr'
    refine decide_eq_true ?_
    split <;> exact hroadmap
  · intro r hr hroadmap
    obtain ⟨row, hrow, hid⟩ := s.2.steps.roadmap r hr
    exact h.fresh.roadmap row hrow (hid.trans (of_decide_eq_true hroadmap))

/-- A row of a roadmap that was created is that of the step at its position. -/
theorem RoadmapCreated.row_of_mem
    (h : RoadmapCreated request stepId now proposal analysis s.1 t.1) {r : StepRow}
    (hr : r ∈ t.1.steps) (hroadmap : r.roadmapId = request.roadmapId) :
    ∃ x, proposal.steps[r.position]? = some x ∧ r.id = stepId r.position ∧
      r.stepKey = x.stepKey ∧ r.plannedStart = x.plannedStartAt ∧
      r.plannedEnd = x.plannedEndAt := by
  have hmem : r ∈ t.1.steps.filter (·.roadmapId = request.roadmapId) :=
    List.mem_filter.mpr ⟨hr, decide_eq_true hroadmap⟩
  rw [h.rows_eq] at hmem
  obtain ⟨r', hr', rfl⟩ := List.mem_map.mp hmem
  obtain ⟨⟨x, i⟩, hx, rfl⟩ := List.mem_map.mp hr'
  refine ⟨x, ?_⟩
  have hi := List.mem_zipIdx_iff_getElem?.mp hx
  split <;> exact ⟨hi, rfl, rfl, rfl, rfl⟩

/-- The id of a row of a roadmap that was created is the one under its key. -/
theorem created_stepIdOf
    (h : RoadmapCreated request stepId now proposal analysis s.1 t.1) {r : StepRow}
    (hr : r ∈ t.1.steps) (hroadmap : r.roadmapId = request.roadmapId) :
    stepIdOf stepId proposal.steps r.stepKey = some r.id := by
  obtain ⟨x, hx, hid, hkey, -⟩ := h.row_of_mem hr hroadmap
  exact (stepIdOf_eq_some h.storable.keys).mpr ⟨_, x, hx, hkey.symm, hid.symm⟩

/-- The dependencies of a roadmap that was created, by key. -/
theorem mem_created_dependencies
    (h : RoadmapCreated request stepId now proposal analysis s.1 t.1) {d : DependencyRow}
    (hroadmap : d.roadmapId = request.roadmapId) :
    d ∈ t.1.dependencies ↔ ∃ x ∈ proposal.steps, ∃ k ∈ x.prerequisiteStepKeys,
      stepIdOf stepId proposal.steps x.stepKey = some d.stepId ∧
        stepIdOf stepId proposal.steps k = some d.prerequisiteStepId := by
  rw [h.written, List.mem_append, or_iff_right, mem_dependencyRows]
  · simp only [hroadmap, true_and]
  · intro hd
    obtain ⟨r, hr, hrid⟩ := s.2.dependencies.roadmap d hd
    exact h.fresh.roadmap r hr (hrid.trans hroadmap)

/-- The ends of a dependency are the rows of a proposed step and of one of its prerequisites. -/
theorem RoadmapCreated.dependency_ends
    (h : RoadmapCreated request stepId now proposal analysis s.1 t.1) {d : DependencyRow}
    (hd : d ∈ t.1.dependencies) (hroadmap : d.roadmapId = request.roadmapId) {x y : StepRow}
    (hx : x ∈ t.1.steps) (hy : y ∈ t.1.steps) (hxid : x.id = d.stepId)
    (hyid : y.id = d.prerequisiteStepId) :
    ∃ dx dy, proposal.steps[x.position]? = some dx ∧ proposal.steps[y.position]? = some dy ∧
      dy.stepKey ∈ dx.prerequisiteStepKeys ∧ x.plannedStart = dx.plannedStartAt ∧
      y.plannedEnd = dy.plannedEndAt := by
  have hkeys := h.storable.keys
  have hxroadmap : x.roadmapId = request.roadmapId := by
    rw [dependency_roadmap hd hx (hxid ▸ List.mem_cons_self), hroadmap]
  have hyroadmap : y.roadmapId = request.roadmapId := by
    rw [dependency_roadmap hd hy (hyid ▸ List.mem_cons_of_mem _ List.mem_cons_self), hroadmap]
  obtain ⟨q, hq, k, hk, hqid, hkid⟩ := (mem_created_dependencies h hroadmap).mp hd
  obtain ⟨dx, hdx, -, hxkey, hxstart, -⟩ := h.row_of_mem hx hxroadmap
  obtain ⟨dy, hdy, -, hykey, -, hyend⟩ := h.row_of_mem hy hyroadmap
  -- The keys that the dependency was made of are those of its rows.
  have hqx : q.stepKey = x.stepKey := stepIdOf_inj h.fresh hkeys hqid
    (hxid ▸ created_stepIdOf h hx hxroadmap)
  have hky : k = y.stepKey := stepIdOf_inj h.fresh hkeys hkid
    (hyid ▸ created_stepIdOf h hy hyroadmap)
  obtain rfl : q = dx := List.inj_on_of_nodup_map hkeys hq (List.mem_of_getElem? hdx)
    (hqx.trans hxkey)
  exact ⟨q, dy, hdx, hdy, hykey ▸ hky ▸ hk, hxstart, hyend⟩

/-- A row inherits a completion exactly when a completed step has its semantics. -/
theorem mem_inherited_iff
    (hfresh : FreshRoadmap request.roadmapId stepId proposal.steps.length s.1)
    (hkeys : (proposal.steps.map (·.stepKey)).Nodup) {x : ProposalStep} {i : Nat}
    (hx : proposal.steps[i]? = some x) :
    stepId i ∈ (request.inherited stepId proposal.steps s.1).map (·.stepId) ↔
      ∃ c ∈ request.inheritable s.1, c.1.semantics = x.semantics := by
  have hid : stepIdOf stepId proposal.steps x.stepKey = some (stepId i) :=
    (stepIdOf_eq_some hkeys).mpr ⟨i, x, hx, rfl, rfl⟩
  unfold RoadmapCreate.inherited
  simp only [List.mem_map, List.mem_filterMap]
  constructor
  · rintro ⟨row, ⟨y, hy, hrow⟩, hrowId⟩
    obtain ⟨c, hc, hyid, -⟩ := inheritanceRow_eq_some.mp hrow
    rw [hrowId] at hyid
    obtain rfl : y = x := List.inj_on_of_nodup_map hkeys hy (List.mem_of_getElem? hx)
      (stepIdOf_inj hfresh hkeys hyid hid)
    exact ⟨c, (lookupLast_some hc).1, (lookupLast_some hc).2⟩
  · rintro ⟨c, hc, hsemantics⟩
    cases hlast : lookupLast (fun c ↦ c.1.semantics) (request.inheritable s.1) x.semantics with
    | none => exact absurd hsemantics (lookupLast_eq_none.mp hlast c hc)
    | some last =>
      exact ⟨⟨stepId i, last.2⟩, ⟨x, List.mem_of_getElem? hx,
        inheritanceRow_eq_some.mpr ⟨last, hlast, hid, rfl⟩⟩, rfl⟩

private theorem forall₂_zipIdx {α β : Type} {R : α → β → Prop} {S : α → β × Nat → Prop}
    {xs : List α} {ys : List β} (n : Nat) (h : List.Forall₂ R xs ys)
    (hS : ∀ i x y, ys[i]? = some y → R x y → S x (y, n + i)) :
    List.Forall₂ S xs (ys.zipIdx n) := by
  induction h generalizing n with
  | nil => exact .nil
  | cons hhead htail ih =>
    refine .cons (hS 0 _ _ rfl hhead) (ih (n + 1) fun i x y hy hxy ↦ ?_)
    rw [Nat.add_right_comm, Nat.add_assoc]
    exact hS (i + 1) x y hy hxy

/-- The documents of a proposal are those of its route. -/
theorem routeProposal_steps {userId analysisId : Uuid} {profileVersion : Nat}
    {resolver : PinnedOutcomeResolver} {result : PlanningResult} {draw : ProposalDraw}
    (h : routeProposal userId analysisId profileVersion resolver result draw =
      .ok (some proposal)) :
    List.Forall₂ (fun step d ↦ proposalStep resolver step = .ok d) result.scheduledSteps
      proposal.steps := by
  unfold routeProposal at h
  cases hfeasibility : result.feasibility with
  | none =>
    rw [hfeasibility] at h
    cases h
  | some feasibility =>
    rw [hfeasibility] at h
    obtain ⟨steps, hsteps, h⟩ := bind_eq_ok.mp h
    obtain rfl := Option.some.inj (Except.ok.inj h)
    exact forall₂_of_mapM_ok hsteps

section Route

variable {p : PlanningProblem} {route : List ScheduledRouteStep} {resolver : PinnedOutcomeResolver}

/-- The step of the route whose document is at an index. -/
theorem document_at (h : List.Forall₂ IsDocumentOf route proposal.steps) {i : Nat}
    {d : ProposalStep} (hd : proposal.steps[i]? = some d) :
    ∃ step, route[i]? = some step ∧ IsDocumentOf step d := by
  obtain ⟨hi, rfl⟩ := List.getElem?_eq_some_iff.mp hd
  have hlength := h.length_eq
  exact ⟨route[i], List.getElem?_eq_getElem _,
    (List.forall₂_iff_get.mp h).2 i (hlength ▸ hi) hi⟩

/-- The ends of a dependency are the rows of a step of the route and of one of its
prerequisites. -/
theorem created_dependency
    (hdocuments : List.Forall₂ IsDocumentOf route proposal.steps)
    (h : RoadmapCreated request stepId now proposal analysis s.1 t.1) {d : DependencyRow}
    (hd : d ∈ t.1.dependencies) (hroadmap : d.roadmapId = request.roadmapId) {x y : StepRow}
    (hx : x ∈ t.1.steps) (hy : y ∈ t.1.steps) (hxid : x.id = d.stepId)
    (hyid : y.id = d.prerequisiteStepId) :
    ∃ sx sy, route[x.position]? = some sx ∧ route[y.position]? = some sy ∧
      sy.stepKey ∈ sx.prerequisiteStepKeys ∧ x.plannedStart = some sx.plannedStartAt ∧
      y.plannedEnd = some sy.plannedEndAt := by
  obtain ⟨dx, dy, hdx, hdy, hprerequisite, hxstart, hyend⟩ :=
    h.dependency_ends hd hroadmap hx hy hxid hyid
  obtain ⟨sx, hsx, hdocx⟩ := document_at hdocuments hdx
  obtain ⟨sy, hsy, hdocy⟩ := document_at hdocuments hdy
  refine ⟨sx, sy, hsx, hsy, ?_, hxstart.trans hdocx.plannedStart, hyend.trans hdocy.plannedEnd⟩
  rw [← hdocx.prerequisites, ← hdocy.stepKey]
  exact hprerequisite

/-- The rows of a roadmap that was created are those of the route. -/
theorem created_isRowOf
    (hsteps : List.Forall₂ (fun step d ↦ proposalStep resolver step = .ok d) route proposal.steps)
    (h : RoadmapCreated request stepId now proposal analysis s.1 t.1) :
    List.Forall₂ (IsRowOf resolver (request.inheritable s.1)) route
      (t.1.steps.filter (·.roadmapId = request.roadmapId)) := by
  rw [h.rows_eq]
  unfold completeSteps update stepRows
  rw [List.map_map, List.forall₂_map_right_iff]
  refine forall₂_zipIdx 0 hsteps fun i step d hd hstep ↦ ?_
  rw [Nat.zero_add]
  have hdoc := isDocumentOf_of_proposalStep hstep
  have hstate : (d.row request.roadmapId (stepId i) i).id ∈
      (request.inherited stepId proposal.steps s.1).map (·.stepId) ↔
        ∃ c ∈ request.inheritable s.1, c.1.semantics = d.semantics :=
    mem_inherited_iff h.fresh h.storable.keys hd
  have hwhole : d.completionCriteria = step.completionCriteria ∧
      resolver.serialize step = .ok d.outcomes := by
    unfold proposalStep at hstep
    obtain ⟨outcomes, houtcomes, hstep⟩ := bind_eq_ok.mp hstep
    obtain rfl := Except.ok.inj hstep
    exact ⟨rfl, houtcomes⟩
  rw [Function.comp_apply]
  by_cases hinherits : ∃ c ∈ request.inheritable s.1, c.1.semantics = d.semantics
  · rw [if_pos (hstate.mpr hinherits)]
    exact ⟨hdoc.stepKey, hdoc.actionId, hdoc.templateRevision, hdoc.plannedStart, hdoc.plannedEnd,
      hwhole.1, hwhole.2, (if_pos hinherits).symm⟩
  · rw [if_neg (hstate.not.mpr hinherits)]
    exact ⟨hdoc.stepKey, hdoc.actionId, hdoc.templateRevision, hdoc.plannedStart, hdoc.plannedEnd,
      hwhole.1, hwhole.2, (if_neg hinherits).symm⟩

/-- The dependencies between the rows of a roadmap that was created, by key. -/
theorem created_edges (hdocuments : List.Forall₂ IsDocumentOf route proposal.steps)
    (h : RoadmapCreated request stepId now proposal analysis s.1 t.1) {x y : StepRow}
    (hx : x ∈ t.1.steps) (hxroadmap : x.roadmapId = request.roadmapId) (hy : y ∈ t.1.steps)
    (hyroadmap : y.roadmapId = request.roadmapId) :
    (⟨request.roadmapId, x.id, y.id⟩ : DependencyRow) ∈ t.1.dependencies ↔
      ∃ step ∈ route, step.stepKey = x.stepKey ∧ y.stepKey ∈ step.prerequisiteStepKeys := by
  have hkeys := h.storable.keys
  rw [mem_created_dependencies h rfl]
  constructor
  · rintro ⟨q, hq, k, hk, hqid, hkid⟩
    have hqx : q.stepKey = x.stepKey :=
      stepIdOf_inj h.fresh hkeys hqid (created_stepIdOf h hx hxroadmap)
    have hky : k = y.stepKey :=
      stepIdOf_inj h.fresh hkeys hkid (created_stepIdOf h hy hyroadmap)
    obtain ⟨step, hstep, hdoc⟩ := exists_of_mem_right hdocuments hq
    exact ⟨step, hstep, hdoc.stepKey.symm.trans hqx, hdoc.prerequisites ▸ hky ▸ hk⟩
  · rintro ⟨step, hstep, hkey, hprerequisite⟩
    obtain ⟨q, hq, hdoc⟩ := exists_of_mem_left hdocuments hstep
    refine ⟨q, hq, y.stepKey, hdoc.prerequisites ▸ hprerequisite, ?_,
      created_stepIdOf h hy hyroadmap⟩
    rw [hdoc.stepKey, hkey]
    exact created_stepIdOf h hx hxroadmap

/-- What is stored of a proposal is the route of its plan. -/
theorem created_storedRoute (hplanned : PlannedSteps p route)
    (hsteps : List.Forall₂ (fun step d ↦ proposalStep resolver step = .ok d) route proposal.steps)
    (h : RoadmapCreated request stepId now proposal analysis s.1 t.1) :
    StoredRoute resolver (request.inheritable s.1) request.roadmapId route t.1 := by
  obtain ⟨-, -, -, -, hbefore, htopological⟩ := plannedSteps_laws hplanned
  have hdocuments : List.Forall₂ IsDocumentOf route proposal.steps :=
    hsteps.imp fun _ _ hstep ↦ isDocumentOf_of_proposalStep hstep
  have hearlier : ∀ d ∈ t.1.dependencies, d.roadmapId = request.roadmapId →
      LeadsEarlier t.1 d := by
    intro d hd hroadmap x hx y hy hxid hyid
    obtain ⟨sx, sy, hsx, hsy, hprerequisite, -⟩ :=
      created_dependency hdocuments h hd hroadmap hx hy hxid hyid
    exact htopological _ _ sy sx hsy hsx hprerequisite
  refine ⟨created_isRowOf hsteps h, ?_, fun x hx hxroadmap y hy hyroadmap ↦
    created_edges hdocuments h hx hxroadmap hy hyroadmap, hearlier, ?_,
    wellFounded_dependencies hearlier⟩
  · rw [h.rows_eq, map_completeSteps fun _ ↦ rfl, stepRows, List.map_map]
    have hposition : (fun r : StepRow ↦ r.position) ∘
        (fun x : ProposalStep × Nat ↦ x.1.row request.roadmapId (stepId x.2) x.2) = Prod.snd := rfl
    rw [hposition, List.zipIdx_map_snd, hdocuments.length_eq, List.range_eq_range']
  · intro d hd hroadmap x hx y hy hxid hyid
    obtain ⟨sx, sy, hsx, hsy, hprerequisite, hstart, hend⟩ :=
      created_dependency hdocuments h hd hroadmap hx hy hxid hyid
    exact ⟨_, hend, _, hstart,
      hbefore sx (List.mem_of_getElem? hsx) sy (List.mem_of_getElem? hsy) hprerequisite⟩

end Route

/-- The route of a plan whose roadmap may be created is stored exactly when the columns have room
for it, and what is stored is the route: a row for each step, in its order, and a dependency for
each prerequisite, each of them leading to an earlier step.
`src/jobtology_be/infrastructure/persistence/store.py:529–670`,
`src/jobtology_be/workers/recompute_artifacts.py:224–335`,
`src/jobtology_be/workers/outcomes.py:31–80`, `src/jobtology_be/planning/cp_sat_planner.py:1–321`,
`src/jobtology_be/planning/cp_sat_results.py:1–162`. -/
theorem planned_route_stored {planner : CpSatRoutePlanner} {env : SolverEnvironment}
    {p : PlanningProblem} {result : PlanningResult} {resolver : PinnedOutcomeResolver}
    {userId analysisId : Uuid} {profileVersion : Nat} {draw : ProposalDraw}
    (hsound : SoundSolver env) (hplan : plan planner env p = .ok result)
    (hproposal : routeProposal userId analysisId profileVersion resolver result draw =
      .ok (some proposal))
    (hcreatable : Creatable request proposal analysis s.1)
    (hfresh : FreshRoadmap request.roadmapId stepId proposal.steps.length s.1) :
    ((∃ (snapshot : RoadmapSnapshot) (t : Database),
        Yields (createRoadmap request stepId now) s snapshot t) ↔
      FitsColumns result.scheduledSteps) ∧
    ∀ (snapshot : RoadmapSnapshot) (t : Database),
      Yields (createRoadmap request stepId now) s snapshot t →
      StoredRoute resolver (request.inheritable s.1) request.roadmapId result.scheduledSteps
        t.1 := by
  have hplanned := (plan_answeredSteps hsound hplan).plannedSteps
  have hsteps := routeProposal_steps hproposal
  have hstorable := storable_iff_fitsColumns hplanned
    (hsteps.imp fun _ _ hstep ↦ isDocumentOf_of_proposalStep hstep)
  have hcreated {snapshot : RoadmapSnapshot} {t : Database}
      (h : Yields (createRoadmap request stepId now) s snapshot t) :
      RoadmapCreated request stepId now proposal analysis s.1 t.1 := by
    obtain ⟨-, proposal', analysis', hcreated⟩ := createRoadmap_spec h
    obtain ⟨rfl, rfl⟩ := Prod.mk.inj
      (Option.some.inj (hcreated.own.symm.trans hcreatable.own))
    exact hcreated
  refine ⟨⟨?_, fun hfits ↦ ?_⟩, fun snapshot t h ↦ ?_⟩
  · rintro ⟨snapshot, t, h⟩
    exact hstorable.mp (hcreated h).storable
  · obtain ⟨t, h⟩ := createRoadmap_succeeds hcreatable hfresh (hstorable.mpr hfits)
    exact ⟨_, t, h⟩
  · exact created_storedRoute hplanned hsteps (hcreated h)

end Created

/-! ### The route of two steps -/

private theorem nonblank_a : isBlank "a" = false := by decide

private theorem nonblank_b : isBlank "b" = false := by decide

/-- The requirement of the route, and the templates of its activities. -/
def twoStepResolver : PinnedOutcomeResolver where
  requirements := [⟨"r", "R", .required, "e", ∅, {"ref"}⟩]
  templates := [sampleTemplate "a" ∅ [] nonblank_a, sampleTemplate "b" {"r"} ["a"] nonblank_b]

/-- The proposal of the route. -/
def twoStepProposal : ProposalRow where
  id := 40
  analysisId := 20
  userId := 1
  proposalHash := ""
  profileVersion := 1
  targetBy := .value (10 * hour)
  feasibility := .feasible
  steps := [
    { stepKey := "a@1", actionId := "a", templateRevision := 1, title := "a", estimatedHours := 1
      plannedStartAt := some 0, plannedEndAt := some hour, outcomes := []
      completionCriteria := ["done"], prerequisiteStepKeys := [] },
    { stepKey := "b@1", actionId := "b", templateRevision := 1, title := "b", estimatedHours := 1
      plannedStartAt := some hour, plannedEndAt := some (2 * hour)
      outcomes := [⟨"r", "e", "R", []⟩], completionCriteria := ["done"]
      prerequisiteStepKeys := ["a@1"] }]
  decisionTraceId := 30

/-- A user with the proposal. -/
def twoStepDb : Db :=
  { users := [⟨1, true, none⟩]
    profiles := [⟨1, 1, none⟩]
    goals := [⟨10, 1, .targeted, some "o", 0, "UTC", .active⟩]
    analyses := [⟨20, 1, 10, 1, none, .ready, none, none⟩]
    traces := [⟨30, 1⟩]
    proposals := [twoStepProposal] }

private theorem twoStepDb_valid : Constraints twoStepDb := by decide +kernel

/-- The roadmap of the proposal. -/
def twoStepCreation : RoadmapCreate where
  userId := 1
  roadmapId := 50
  goalId := 10
  proposalId := 40
  title := "route"
  profileVersion := 1

/-- Two steps, one after the other, are planned and stored. -/
theorem planned_route_stored_two_steps :
    ∃ (result : PlanningResult) (snapshot : RoadmapSnapshot) (t : Database),
      plan ⟨1, le_refl 1⟩ (knownAssignmentSolver sampleAssignment) sampleProblem = .ok result ∧
      Yields (createRoadmap twoStepCreation (60 + ·) 0) ⟨twoStepDb, twoStepDb_valid⟩ snapshot t ∧
      StoredRoute twoStepResolver (twoStepCreation.inheritable twoStepDb) 50 result.scheduledSteps
        t.1 := by
  have hbuilt : ((plan ⟨1, le_refl 1⟩ (knownAssignmentSolver sampleAssignment)
      sampleProblem).toOption.bind fun result ↦
        (routeProposal 1 20 1 twoStepResolver result ⟨40, 30, fun _ _ ↦ ""⟩).toOption) =
          some (some twoStepProposal) := by decide +kernel
  obtain ⟨result, hplan, hproposal⟩ := Option.bind_eq_some_iff.mp hbuilt
  obtain ⟨⟨snapshot, t⟩, hstored⟩ := yields_of_isOk
    (show ((createRoadmap twoStepCreation (60 + ·) 0).run ⟨twoStepDb, twoStepDb_valid⟩).isOk by
      decide +kernel)
  exact ⟨result, _, _, ok_of_toOption hplan, hstored,
    (planned_route_stored (knownAssignmentSolver_sound sampleAssignment) (ok_of_toOption hplan)
      (ok_of_toOption hproposal) ⟨rfl, rfl, rfl, rfl, nofun, rfl, by decide,
        fun _ h ↦ absurd h (Option.not_mem_none _)⟩
      ⟨fun _ h ↦ absurd h List.not_mem_nil, fun _ _ _ h ↦ absurd h List.not_mem_nil,
        fun _ _ _ _ h ↦ Nat.add_left_cancel h⟩).2 _ _ hstored⟩

end Jobtology.Store
