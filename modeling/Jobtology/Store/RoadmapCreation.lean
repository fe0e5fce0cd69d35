import Jobtology.Store.Insertion
import Jobtology.Store.Roadmaps

/-!
# When a roadmap can be created

The rows of a new roadmap that the tables accept, and the exact condition under which
`create_roadmap` stores a proposal.
-/

namespace Jobtology.Store

open Jobtology.Base Jobtology.Relational
open Jobtology.Relational.Transaction

/-! ### Rows that can be inserted -/

section Insert

variable {db : Db}

/-- A draft under a new id. -/
theorem Constraints.insertRoadmap (h : Constraints db) {r : RoadmapRow}
    (huser : ∃ u ∈ db.users, u.id = r.userId) (hgoal : ∃ g ∈ db.goals, g.id = r.goalId)
    (hproposal : ∃ p ∈ db.proposals, p.id = r.proposalId) (hid : ∀ r' ∈ db.roadmaps, r'.id ≠ r.id)
    (hdraft : r.state ≠ .active) (htitle : r.title.length ≤ 200) (hversion : 1 ≤ r.version) :
    Constraints { db with roadmaps := db.roadmaps ++ [r] } :=
  { h with
    roadmaps := ⟨unique_append_singleton.mpr ⟨h.roadmaps.key, hid⟩,
      refers_append_singleton.mpr ⟨h.roadmaps.user, huser⟩,
      refers_append_singleton.mpr ⟨h.roadmaps.goal, hgoal⟩,
      refers_append_singleton.mpr ⟨h.roadmaps.proposal, hproposal⟩,
      uniqueWhere_append_singleton.mpr ⟨h.roadmaps.oneActivePerUser, fun hactive ↦
        absurd hactive hdraft⟩,
      forall_mem_append_singleton.mpr ⟨h.roadmaps.title, htitle⟩,
      forall_mem_append_singleton.mpr ⟨h.roadmaps.version, hversion⟩⟩
    overrides := { h.overrides with roadmap := h.overrides.roadmap.mono mem_appended }
    steps := { h.steps with roadmap := h.steps.roadmap.mono mem_appended }
    dependencies := { h.dependencies with
      roadmap := h.dependencies.roadmap.mono mem_appended } }

/-- Some of the steps that can be inserted together. -/
theorem Constraints.insertSteps (h : Constraints db) {rows rows' : List StepRow}
    (hall : StepConstraints (db.steps ++ rows) db.roadmaps) (hsub : rows'.Sublist rows) :
    Constraints { db with steps := db.steps ++ rows' } :=
  have hsteps := (List.Sublist.refl db.steps).append hsub
  { h with
    steps := ⟨hall.key.sublist hsteps, fun s hs ↦ hall.roadmap s (hsteps.subset hs),
      hall.roadmapStepKey.sublist hsteps, hall.roadmapPosition.sublist hsteps,
      fun s hs ↦ hall.fits s (hsteps.subset hs)⟩
    dependencies := { h.dependencies with
      step := h.dependencies.step.mono fun _ hs ↦ List.mem_append_left _ hs
      prerequisite := h.dependencies.prerequisite.mono fun _ hs ↦ List.mem_append_left _ hs }
    inheritances := { h.inheritances with
      step := h.inheritances.step.mono fun _ hs ↦ List.mem_append_left _ hs } }

/-- Some of the dependencies that can be inserted together. -/
theorem Constraints.insertDependencies (h : Constraints db) {rows rows' : List DependencyRow}
    (hall : DependencyConstraints (db.dependencies ++ rows) db.roadmaps db.steps)
    (hsub : rows'.Sublist rows) :
    Constraints { db with dependencies := db.dependencies ++ rows' } :=
  have hdependencies := (List.Sublist.refl db.dependencies).append hsub
  { h with
    dependencies := ⟨hall.key.sublist hdependencies,
      fun d hd ↦ hall.roadmap d (hdependencies.subset hd),
      fun d hd ↦ hall.step d (hdependencies.subset hd),
      fun d hd ↦ hall.prerequisite d (hdependencies.subset hd),
      fun d hd ↦ hall.noSelfEdge d (hdependencies.subset hd)⟩ }

/-- Some of the inheritances that can be inserted together. -/
theorem Constraints.insertInheritances (h : Constraints db) {rows rows' : List InheritanceRow}
    (hall : InheritanceConstraints (db.inheritances ++ rows) db.steps db.events)
    (hsub : rows'.Sublist rows) :
    Constraints { db with inheritances := db.inheritances ++ rows' } :=
  have hinheritances := (List.Sublist.refl db.inheritances).append hsub
  { h with
    inheritances := ⟨hall.key.sublist hinheritances,
      fun i hi ↦ hall.step i (hinheritances.subset hi),
      fun i hi ↦ hall.event i (hinheritances.subset hi)⟩ }

/-- The columns of a step that the constraints look at. -/
def StepRow.constrained (s : StepRow) : Uuid × Uuid × String × Nat × String × Int :=
  (s.id, s.roadmapId, s.stepKey, s.position, s.actionId, s.templateRevision)

/-- Steps may change in their other columns. -/
theorem Constraints.updateSteps (h : Constraints db) {steps : List StepRow}
    (hsame : steps.map (·.constrained) = db.steps.map (·.constrained)) :
    Constraints { db with steps := steps } := by
  have hcolumn {γ : Type} (f : Uuid × Uuid × String × Nat × String × Int → γ) :
      steps.map (f ·.constrained) = db.steps.map (f ·.constrained) := by
    simpa [List.map_map, Function.comp_def] using congrArg (List.map f) hsame
  have hid : steps.map (·.id) = db.steps.map (·.id) := hcolumn (·.1)
  have hpair : steps.map (fun s ↦ (s.roadmapId, s.id)) =
      db.steps.map (fun s ↦ (s.roadmapId, s.id)) := hcolumn fun c ↦ (c.2.1, c.1)
  have hfits : ∀ s ∈ steps, s.Fits := by
    intro s hs
    have hmem : s.constrained ∈ db.steps.map (·.constrained) :=
      hsame ▸ List.mem_map_of_mem hs
    obtain ⟨s', hs', heq⟩ := List.mem_map.mp hmem
    obtain ⟨-, -, hkey, -, haction, hrevision⟩ := by
      simpa only [StepRow.constrained, Prod.mk.injEq] using heq
    obtain ⟨h₁, h₂, h₃, h₄⟩ := h.steps.fits s' hs'
    exact ⟨hkey ▸ h₁, haction ▸ h₂, hrevision ▸ h₃, hrevision ▸ h₄⟩
  have hunique {γ : Type} {f : Uuid × Uuid × String × Nat × String × Int → γ}
      (hu : Unique (f ·.constrained) db.steps) : Unique (f ·.constrained) steps := by
    unfold Relational.Unique at hu ⊢
    rwa [hcolumn f]
  exact { h with
    steps := ⟨hunique (f := (·.1)) h.steps.key,
      (refers_congr (hcolumn (·.2.1)) rfl).mpr h.steps.roadmap,
      hunique (f := fun c ↦ (c.2.1, c.2.2.1)) h.steps.roadmapStepKey,
      hunique (f := fun c ↦ (c.2.1, c.2.2.2.1)) h.steps.roadmapPosition, hfits⟩
    dependencies := { h.dependencies with
      step := (refers_congr rfl hpair).mpr h.dependencies.step
      prerequisite := (refers_congr rfl hpair).mpr h.dependencies.prerequisite }
    inheritances := { h.inheritances with
      step := (refers_congr rfl hid).mpr h.inheritances.step } }

end Insert

/-! ### Proposals that can be stored -/

/-- Each key of the proposal names one step, whose values fit their columns and whose
prerequisites are other steps of the proposal, each named once. -/
structure Storable (steps : List ProposalStep) : Prop where
  keys : (steps.map (·.stepKey)).Nodup
  keyFits : ∀ s ∈ steps, s.stepKey.length ≤ 128
  actionFits : ∀ s ∈ steps, s.actionId.length ≤ 128
  revisionFits : ∀ s ∈ steps, 1 ≤ s.templateRevision ∧ s.templateRevision < 2147483648
  datesOrdered : ∀ s ∈ steps, s.DatesOrdered
  prerequisitesKnown : ∀ s ∈ steps, ∀ k ∈ s.prerequisiteStepKeys, k ∈ steps.map (·.stepKey)
  prerequisitesOnce : ∀ s ∈ steps, s.prerequisiteStepKeys.Nodup
  noSelf : ∀ s ∈ steps, s.stepKey ∉ s.prerequisiteStepKeys

/-- The ids that a new roadmap and its steps draw are new. -/
structure FreshRoadmap (roadmapId : Uuid) (stepId : Nat → Uuid) (count : Nat) (db : Db) : Prop where
  roadmap : ∀ r ∈ db.roadmaps, r.id ≠ roadmapId
  step : ∀ i < count, ∀ s ∈ db.steps, s.id ≠ stepId i
  distinct : ∀ i < count, ∀ j < count, stepId i = stepId j → i = j

section Ids

variable {stepId : Nat → Uuid} {steps : List ProposalStep}

private theorem keys_zipIdx (steps : List ProposalStep) :
    steps.zipIdx.map (·.1.stepKey) = steps.map (·.stepKey) := by
  rw [← List.zipIdx_map_fst 0 steps, List.map_map]
  simp [Function.comp_def]

/-- The id of the only step with a key. -/
theorem stepIdOf_eq_some (hkeys : (steps.map (·.stepKey)).Nodup) {key : String} {id : Uuid} :
    stepIdOf stepId steps key = some id ↔
      ∃ i s, steps[i]? = some s ∧ s.stepKey = key ∧ stepId i = id := by
  have hnodup : (steps.zipIdx.map (·.1.stepKey)).Nodup := by rwa [keys_zipIdx]
  unfold stepIdOf
  simp only [Option.map_eq_some_iff, lookupLast_eq_some hnodup]
  constructor
  · rintro ⟨⟨s, i⟩, ⟨hmem, hkey⟩, rfl⟩
    exact ⟨i, s, List.mem_zipIdx_iff_getElem?.mp hmem, hkey, rfl⟩
  · rintro ⟨i, s, hi, hkey, rfl⟩
    exact ⟨(s, i), ⟨List.mem_zipIdx_iff_getElem?.mpr hi, hkey⟩, rfl⟩

private theorem stepIdOf_isSome {key : String} (h : key ∈ steps.map (·.stepKey)) :
    ∃ id, stepIdOf stepId steps key = some id := by
  obtain ⟨s, hs, rfl⟩ := List.mem_map.mp h
  obtain ⟨i, hi⟩ := List.mem_iff_getElem?.mp hs
  have hmem : (s, i) ∈ steps.zipIdx := List.mem_zipIdx_iff_getElem?.mpr hi
  unfold stepIdOf
  cases hl : lookupLast (·.1.stepKey) steps.zipIdx s.stepKey with
  | none => exact absurd rfl (lookupLast_eq_none.mp hl (s, i) hmem)
  | some x => exact ⟨_, rfl⟩

end Ids

/-! ### Each loop -/

section Loops

variable {roadmapId : Uuid} {stepId : Nat → Uuid}

private theorem insertSteps_succeeds {steps : List (ProposalStep × Nat)} {s : Database}
    (hall : StepConstraints (s.1.steps ++ stepRows roadmapId stepId steps) s.1.roadmaps)
    (hordered : ∀ x ∈ steps, x.1.DatesOrdered) :
    ∃ t : Database, Yields (steps.forM fun (s, position) ↦
        insertStep roadmapId (stepId position) position s) s ⟨⟩ t ∧
      t.1 = { s.1 with steps := s.1.steps ++ stepRows roadmapId stepId steps } := by
  refine exists_yields_forM (P := fun done (t : Database) ↦
    t.1 = { s.1 with steps := s.1.steps ++ stepRows roadmapId stepId done }) ?_ (by simp [stepRows])
  intro done x t hpre ht
  have hrows : (stepRows roadmapId stepId (done ++ [x])).Sublist
      (stepRows roadmapId stepId steps) := hpre.sublist.map _
  refine ⟨⟨_, s.2.insertSteps hall hrows⟩, ?_, rfl⟩
  have hmem : x ∈ steps := hpre.subset (by simp)
  unfold insertStep
  simp only [↓yields_require_bind, yields_statement]
  refine ⟨hordered x hmem, ?_⟩
  rw [ht]
  simp [stepRows]

private theorem insertDependencyRows_succeeds {all : List ProposalStep} {key : String} {id : Uuid}
    (hid : stepIdOf stepId all key = some id) {keys : List String} {s : Database}
    (hknown : ∀ k ∈ keys, ∃ id, stepIdOf stepId all k = some id)
    (hall : DependencyConstraints
      (s.1.dependencies ++ keys.filterMap (dependencyRow roadmapId stepId all key))
      s.1.roadmaps s.1.steps) :
    ∃ t : Database, Yields (keys.forM fun key ↦
        insertDependency roadmapId id (stepIdOf stepId all key)) s ⟨⟩ t ∧
      t.1 = { s.1 with
        dependencies := s.1.dependencies ++
          keys.filterMap (dependencyRow roadmapId stepId all key) } := by
  refine exists_yields_forM (P := fun done (t : Database) ↦ t.1 = { s.1 with
    dependencies := s.1.dependencies ++
      done.filterMap (dependencyRow roadmapId stepId all key) }) ?_ (by simp)
  intro done k t hpre ht
  have hrows : ((done ++ [k]).filterMap (dependencyRow roadmapId stepId all key)).Sublist
      (keys.filterMap (dependencyRow roadmapId stepId all key)) := hpre.sublist.filterMap _
  refine ⟨⟨_, s.2.insertDependencies hall hrows⟩, ?_, rfl⟩
  obtain ⟨prerequisiteId, hprerequisite⟩ := hknown k (hpre.subset (by simp))
  unfold insertDependency
  simp only [yields_demand_bind, yields_statement]
  refine ⟨prerequisiteId, hprerequisite, ?_⟩
  rw [ht]
  simp [dependencyRow, hid, hprerequisite]

private theorem insertDependencies_succeeds {all steps : List ProposalStep} {s : Database}
    (hids : ∀ x ∈ steps, ∃ id, stepIdOf stepId all x.stepKey = some id)
    (hknown : ∀ x ∈ steps, ∀ k ∈ x.prerequisiteStepKeys, ∃ id, stepIdOf stepId all k = some id)
    (hall : DependencyConstraints
      (s.1.dependencies ++ dependencyRows roadmapId stepId all steps) s.1.roadmaps s.1.steps) :
    ∃ t : Database, Yields (steps.forM (insertDependencies roadmapId stepId all)) s ⟨⟩ t ∧
      t.1 = { s.1 with
        dependencies := s.1.dependencies ++ dependencyRows roadmapId stepId all steps } := by
  refine exists_yields_forM (P := fun done (t : Database) ↦ t.1 = { s.1 with
    dependencies := s.1.dependencies ++ dependencyRows roadmapId stepId all done }) ?_
    (by simp [dependencyRows])
  intro done x t hpre ht
  have hmem : x ∈ steps := hpre.subset (by simp)
  obtain ⟨rest, hrest⟩ := hpre
  have hsplit : dependencyRows roadmapId stepId all steps =
      (dependencyRows roadmapId stepId all done ++
        x.prerequisiteStepKeys.filterMap (dependencyRow roadmapId stepId all x.stepKey)) ++
          dependencyRows roadmapId stepId all rest := by
    rw [← hrest]
    simp [dependencyRows]
  obtain ⟨id, hid⟩ := hids x hmem
  have hrows : DependencyConstraints (t.1.dependencies ++
      x.prerequisiteStepKeys.filterMap (dependencyRow roadmapId stepId all x.stepKey))
      t.1.roadmaps t.1.steps := by
    rw [ht, List.append_assoc]
    refine (s.2.insertDependencies hall ?_).dependencies
    rw [hsplit]
    exact List.sublist_append_left _ _
  obtain ⟨u, hu, hwritten⟩ := insertDependencyRows_succeeds hid (hknown x hmem) hrows
  refine ⟨u, ?_, ?_⟩
  · unfold insertDependencies
    rw [yields_demand_bind]
    exact ⟨id, hid, hu⟩
  · rw [hwritten, ht]
    simp [dependencyRows]

/-- Completing steps leaves their other columns. -/
theorem map_completeSteps {γ : Type} {col : StepRow → γ}
    (h : ∀ r : StepRow, col { r with state := .completed } = col r) (rows : List InheritanceRow)
    (steps : List StepRow) : (completeSteps rows steps).map col = steps.map col :=
  map_update h

private theorem completeSteps_concat (rows : List InheritanceRow) (row : InheritanceRow)
    (steps : List StepRow) :
    completeSteps (rows ++ [row]) steps =
      update (·.id = row.stepId) (fun r ↦ { r with state := .completed })
        (completeSteps rows steps) := by
  have hmem : ∀ r : StepRow, r.id ∈ (rows ++ [row]).map (·.stepId) ↔
      r.id ∈ rows.map (·.stepId) ∨ r.id = row.stepId := by simp
  unfold completeSteps update
  rw [List.map_map]
  refine List.map_congr_left fun r _ ↦ ?_
  rw [Function.comp_apply]
  by_cases hrows : r.id ∈ rows.map (·.stepId)
  · rw [if_pos ((hmem r).mpr (.inl hrows)), if_pos hrows]
    split <;> rfl
  · rw [if_neg hrows]
    by_cases hrow : r.id = row.stepId
    · rw [if_pos ((hmem r).mpr (.inr hrow)), if_pos hrow]
    · rw [if_neg hrow, if_neg fun h ↦ ((hmem r).mp h).elim hrows hrow]

private theorem inheritCompletion_succeeds {all steps : List ProposalStep}
    {completed : List (StepRow × Uuid)} {s : Database}
    (hvalid : ∀ x ∈ steps, ∀ o ∈ x.outcomes, o.Valid)
    (hids : ∀ x ∈ steps, ∃ id, stepIdOf stepId all x.stepKey = some id)
    (hall : InheritanceConstraints
      (s.1.inheritances ++ steps.filterMap (inheritanceRow stepId all completed))
      s.1.steps s.1.events) :
    ∃ t : Database, Yields (steps.forM (inheritCompletion stepId all completed)) s ⟨⟩ t := by
  refine (exists_yields_forM (P := fun done (t : Database) ↦ t.1 = { s.1 with
    steps := completeSteps (done.filterMap (inheritanceRow stepId all completed)) s.1.steps
    inheritances := s.1.inheritances ++
      done.filterMap (inheritanceRow stepId all completed) }) ?_ ?_).imp fun _ h ↦ h.1
  · intro done x t hpre ht
    have hmem : x ∈ steps := hpre.subset (by simp)
    unfold inheritCompletion
    cases hc : lookupLast (fun c ↦ c.1.semantics) completed x.semantics with
    | none =>
      have hnone : inheritanceRow stepId all completed x = none := by simp [inheritanceRow, hc]
      refine ⟨t, ?_, ?_⟩
      · rw [yields_require_bind]
        exact ⟨hvalid x hmem, yields_pure.mpr ⟨rfl, rfl⟩⟩
      · rw [ht, List.filterMap_append, List.filterMap_cons_none hnone]
        simp
    | some c =>
      obtain ⟨id, hid⟩ := hids x hmem
      have hsome : inheritanceRow stepId all completed x = some ⟨id, c.2⟩ := by
        simp [inheritanceRow, hc, hid]
      have hrows : ((done ++ [x]).filterMap (inheritanceRow stepId all completed)).Sublist
          (steps.filterMap (inheritanceRow stepId all completed)) := hpre.sublist.filterMap _
      have hcompleted : Constraints { t.1 with
          steps := update (·.id = id) (fun r ↦ { r with state := .completed }) t.1.steps } :=
        t.2.updateSteps (map_update fun _ ↦ rfl)
      have hinserted := @Constraints.updateSteps _ (s.2.insertInheritances hall hrows)
        (completeSteps ((done ++ [x]).filterMap (inheritanceRow stepId all completed)) s.1.steps)
        (map_completeSteps (fun _ ↦ rfl) _ _)
      refine ⟨⟨_, hinserted⟩, ?_, rfl⟩
      rw [yields_require_bind]
      refine ⟨hvalid x hmem, ?_⟩
      simp only [yields_demand_bind, yields_seq, yields_statement]
      refine ⟨id, hid, ⟨_, hcompleted⟩, rfl, ?_⟩
      simp only [ht, List.filterMap_append, List.filterMap_cons_some hsome, List.filterMap_nil,
        List.append_assoc, completeSteps_concat]
  · simp [completeSteps_nil]

end Loops

/-! ### Creating -/

/-- The checks of `create_roadmap` pass, and outcomes that completions are matched by are valid. -/
structure Creatable (request : RoadmapCreate) (proposal : ProposalRow) (analysis : AnalysisRow)
    (db : Db) : Prop where
  version : db.profileVersion request.userId = some request.profileVersion
  goalOwner : (lookup (·.id) db.goals request.goalId).map (·.userId) = some request.userId
  own : db.ownProposal request.userId request.proposalId = some (proposal, analysis)
  proposalVersion : proposal.profileVersion = request.profileVersion
  feasible : proposal.feasibility ≠ .infeasible
  goal : analysis.goalId = request.goalId
  title : request.title.length ≤ 200
  outcomes : ∀ previous ∈ db.activeRoadmapOf request.userId request.goalId,
    (∀ c ∈ db.completedSteps previous.id, ∀ o ∈ c.1.outcomes, o.Valid) ∧
      ∀ x ∈ proposal.steps, ∀ o ∈ x.outcomes, o.Valid

/-- A user's own proposal is stored with its analysis. -/
theorem ownProposal_spec {db : Db} {userId proposalId : Uuid} {proposal : ProposalRow}
    {analysis : AnalysisRow} (h : db.ownProposal userId proposalId = some (proposal, analysis)) :
    proposal ∈ db.proposals ∧ proposal.id = proposalId ∧ proposal.userId = userId ∧
      analysis ∈ db.analyses ∧ analysis.id = proposal.analysisId ∧ analysis.userId = userId := by
  obtain ⟨hrow, howner⟩ := Option.filter_eq_some_iff.mp h
  unfold Db.proposalWithAnalysis at hrow
  simp only [Option.bind_eq_bind, Option.bind_eq_some_iff, Option.pure_def, Option.some.injEq,
    Prod.mk.injEq] at hrow
  obtain ⟨p, hp, a, ha, rfl, rfl⟩ := hrow
  obtain ⟨hanalysis, hproposal⟩ := of_decide_eq_true howner
  obtain ⟨hpmem, hpid⟩ := lookup_some hp
  obtain ⟨hamem, haid⟩ := lookup_some ha
  exact ⟨hpmem, hpid, hproposal, hamem, haid, hanalysis⟩

section Rows

variable {s : Database} {request : RoadmapCreate} {stepId : Nat → Uuid} {now : Int}
  {proposal : ProposalRow} {analysis : AnalysisRow}

/-- The ids of the new steps by key. -/
theorem stepIdOf_inj (hfresh : FreshRoadmap request.roadmapId stepId proposal.steps.length s.1)
    (hkeys : (proposal.steps.map (·.stepKey)).Nodup) {k k' : String} {id : Uuid}
    (h : stepIdOf stepId proposal.steps k = some id)
    (h' : stepIdOf stepId proposal.steps k' = some id) : k = k' := by
  obtain ⟨i, x, hi, rfl, hid⟩ := (stepIdOf_eq_some hkeys).mp h
  obtain ⟨j, y, hj, rfl, hid'⟩ := (stepIdOf_eq_some hkeys).mp h'
  obtain ⟨hi', -⟩ := List.getElem?_eq_some_iff.mp hi
  obtain ⟨hj', -⟩ := List.getElem?_eq_some_iff.mp hj
  obtain rfl := hfresh.distinct i hi' j hj' (hid.trans hid'.symm)
  rw [Option.some.inj (hi.symm.trans hj)]

/-- The new steps by id. -/
theorem mem_stepRows_of_stepIdOf (hkeys : (proposal.steps.map (·.stepKey)).Nodup) {k : String}
    {id : Uuid} (h : stepIdOf stepId proposal.steps k = some id) :
    ∃ x ∈ stepRows request.roadmapId stepId proposal.steps.zipIdx,
      x.id = id ∧ x.stepKey = k ∧ x.roadmapId = request.roadmapId := by
  obtain ⟨i, x, hi, rfl, rfl⟩ := (stepIdOf_eq_some hkeys).mp h
  exact ⟨x.row request.roadmapId (stepId i) i,
    List.mem_map.mpr ⟨(x, i), List.mem_zipIdx_iff_getElem?.mpr hi, rfl⟩, rfl, rfl, rfl⟩

/-- The rows of new steps have the ids of the proposed ones. -/
theorem stepRows_index {x : StepRow}
    (h : x ∈ stepRows request.roadmapId stepId proposal.steps.zipIdx) :
    ∃ i < proposal.steps.length, x.id = stepId i ∧ x.roadmapId = request.roadmapId := by
  obtain ⟨⟨p, i⟩, hmem, rfl⟩ := List.mem_map.mp h
  have hi := List.mem_zipIdx_iff_getElem?.mp hmem
  exact ⟨i, (List.getElem?_eq_some_iff.mp hi).1, rfl, rfl⟩

private theorem newSteps_constraints
    (hfresh : FreshRoadmap request.roadmapId stepId proposal.steps.length s.1)
    (hstorable : Storable proposal.steps) {r : RoadmapRow} (hr : r.id = request.roadmapId) :
    StepConstraints (s.1.steps ++ stepRows request.roadmapId stepId proposal.steps.zipIdx)
      (s.1.roadmaps ++ [r]) := by
  have hother : ∀ x ∈ s.1.steps, x.roadmapId ≠ request.roadmapId := by
    intro x hx hid
    obtain ⟨r', hr', hid'⟩ := s.2.steps.roadmap x hx
    exact hfresh.roadmap r' hr' (hid'.trans hid)
  have hindex {γ : Type} (f : Nat → γ) (hinj : ∀ i < proposal.steps.length,
      ∀ j < proposal.steps.length, f i = f j → i = j) :
      (proposal.steps.zipIdx.map fun x ↦ f x.2).Nodup := by
    have hmap : proposal.steps.zipIdx.map (fun x ↦ f x.2) =
        (List.range' 0 proposal.steps.length).map f := by
      rw [← List.zipIdx_map_snd, List.map_map]
      rfl
    rw [hmap]
    refine List.Nodup.map_on ?_ List.nodup_range'
    intro i hi j hj heq
    simp only [List.mem_range'_1] at hi hj
    exact hinj i (by omega) j (by omega) heq
  refine ⟨s.2.steps.key.append ?_ ?_, (s.2.steps.roadmap.mono mem_appended).append ?_,
    s.2.steps.roadmapStepKey.append ?_ ?_, s.2.steps.roadmapPosition.append ?_ ?_, ?_⟩
  · unfold Relational.Unique stepRows
    rw [List.map_map]
    exact hindex stepId hfresh.distinct
  · intro x hx y hy hid
    obtain ⟨i, hi, hyid, -⟩ := stepRows_index hy
    exact hfresh.step i hi x hx (hid.trans hyid)
  · intro x hx
    obtain ⟨-, -, -, hroadmap⟩ := stepRows_index hx
    exact ⟨r, by simp, hr.trans hroadmap.symm⟩
  · unfold Relational.Unique stepRows
    rw [List.map_map]
    have hkeys : (proposal.steps.zipIdx.map (·.1.stepKey)).Nodup := by
      rw [keys_zipIdx]
      exact hstorable.keys
    exact List.Nodup.of_map Prod.snd (by rwa [List.map_map])
  · intro x hx y hy heq
    obtain ⟨-, -, -, hroadmap⟩ := stepRows_index hy
    exact hother x hx ((Prod.mk.inj heq).1.trans hroadmap)
  · unfold Relational.Unique stepRows
    rw [List.map_map]
    exact List.Nodup.of_map Prod.snd (by
      rw [List.map_map]
      exact hindex id fun i _ j _ heq ↦ heq)
  · intro x hx y hy heq
    obtain ⟨-, -, -, hroadmap⟩ := stepRows_index hy
    exact hother x hx ((Prod.mk.inj heq).1.trans hroadmap)
  · refine List.forall_mem_append.mpr ⟨s.2.steps.fits, fun x hx ↦ ?_⟩
    obtain ⟨⟨p, i⟩, hmem, rfl⟩ := List.mem_map.mp hx
    have hp : p ∈ proposal.steps := List.mem_of_getElem? (List.mem_zipIdx_iff_getElem?.mp hmem)
    exact ⟨hstorable.keyFits p hp, hstorable.actionFits p hp, (hstorable.revisionFits p hp).1,
      (hstorable.revisionFits p hp).2⟩

private theorem dependencyRow_eq_some {roadmapId : Uuid} {all : List ProposalStep} {key k : String}
    {d : DependencyRow} :
    dependencyRow roadmapId stepId all key k = some d ↔
      d.roadmapId = roadmapId ∧ stepIdOf stepId all key = some d.stepId ∧
        stepIdOf stepId all k = some d.prerequisiteStepId := by
  unfold dependencyRow
  simp only [Option.bind_eq_bind, Option.bind_eq_some_iff, Option.pure_def, Option.some.injEq]
  constructor
  · rintro ⟨id, hid, prerequisiteId, hprerequisite, rfl⟩
    exact ⟨rfl, hid, hprerequisite⟩
  · rintro ⟨rfl, hid, hprerequisite⟩
    exact ⟨_, hid, _, hprerequisite, rfl⟩

/-- The dependencies of a stored proposal, by key. -/
theorem mem_dependencyRows {roadmapId : Uuid} {all steps : List ProposalStep} {d : DependencyRow} :
    d ∈ dependencyRows roadmapId stepId all steps ↔
      ∃ x ∈ steps, ∃ k ∈ x.prerequisiteStepKeys, d.roadmapId = roadmapId ∧
        stepIdOf stepId all x.stepKey = some d.stepId ∧
        stepIdOf stepId all k = some d.prerequisiteStepId := by
  unfold dependencyRows
  simp only [List.mem_flatMap, List.mem_filterMap, dependencyRow_eq_some]

private theorem newDependencies_constraints
    (hfresh : FreshRoadmap request.roadmapId stepId proposal.steps.length s.1)
    (hstorable : Storable proposal.steps) {r : RoadmapRow} (hr : r.id = request.roadmapId) :
    DependencyConstraints
      (s.1.dependencies ++ dependencyRows request.roadmapId stepId proposal.steps proposal.steps)
      (s.1.roadmaps ++ [r])
      (s.1.steps ++ stepRows request.roadmapId stepId proposal.steps.zipIdx) := by
  have hinj {k k' : String} {id : Uuid} (hk : stepIdOf stepId proposal.steps k = some id)
      (hk' : stepIdOf stepId proposal.steps k' = some id) : k = k' :=
    stepIdOf_inj hfresh hstorable.keys hk hk'
  have hrow {k : String} {id : Uuid} (hk : stepIdOf stepId proposal.steps k = some id) :
      ∃ x ∈ stepRows request.roadmapId stepId proposal.steps.zipIdx,
        x.id = id ∧ x.stepKey = k ∧ x.roadmapId = request.roadmapId :=
    mem_stepRows_of_stepIdOf hstorable.keys hk
  refine ⟨?_, (s.2.dependencies.roadmap.mono mem_appended).append ?_,
    (s.2.dependencies.step.mono fun _ h ↦ List.mem_append_left _ h).append ?_,
    (s.2.dependencies.prerequisite.mono fun _ h ↦ List.mem_append_left _ h).append ?_,
    List.forall_mem_append.mpr ⟨s.2.dependencies.noSelfEdge, ?_⟩⟩
  · refine List.nodup_append.mpr ⟨s.2.dependencies.key, List.nodup_flatMap.mpr ⟨?_, ?_⟩, ?_⟩
    · intro x hx
      refine (hstorable.prerequisitesOnce x hx).filterMap fun k k' d hd hd' ↦ ?_
      exact hinj (dependencyRow_eq_some.mp hd).2.2 (dependencyRow_eq_some.mp hd').2.2
    · refine (List.pairwise_map.mp hstorable.keys).imp fun {x y} hne ↦ ?_
      intro d hd hd'
      obtain ⟨k, -, hk⟩ := List.mem_filterMap.mp hd
      obtain ⟨k', -, hk'⟩ := List.mem_filterMap.mp hd'
      exact hne (hinj (dependencyRow_eq_some.mp hk).2.1 (dependencyRow_eq_some.mp hk').2.1)
    · rintro d hd d' hd' rfl
      obtain ⟨-, -, -, -, hroadmap, -⟩ := mem_dependencyRows.mp hd'
      obtain ⟨r', hr', hid⟩ := s.2.dependencies.roadmap d hd
      exact hfresh.roadmap r' hr' (hid.trans hroadmap)
  · intro d hd
    obtain ⟨-, -, -, -, hroadmap, -⟩ := mem_dependencyRows.mp hd
    exact ⟨r, by simp, hr.trans hroadmap.symm⟩
  · intro d hd
    obtain ⟨p, -, k, -, hroadmap, hid, -⟩ := mem_dependencyRows.mp hd
    obtain ⟨x, hx, hxid, -, hxroadmap⟩ := hrow hid
    exact ⟨x, List.mem_append_right _ hx, Prod.ext (hxroadmap.trans hroadmap.symm) hxid⟩
  · intro d hd
    obtain ⟨p, -, k, -, hroadmap, -, hid⟩ := mem_dependencyRows.mp hd
    obtain ⟨x, hx, hxid, -, hxroadmap⟩ := hrow hid
    exact ⟨x, List.mem_append_right _ hx, Prod.ext (hxroadmap.trans hroadmap.symm) hxid⟩
  · intro d hd heq
    obtain ⟨x, hx, k, hk, -, hid, hid'⟩ := mem_dependencyRows.mp hd
    exact hstorable.noSelf x hx (hinj hid (heq ▸ hid') ▸ hk)

/-- A step inherits the last completion about the same. -/
theorem inheritanceRow_eq_some {all : List ProposalStep} {completed : List (StepRow × Uuid)}
    {x : ProposalStep} {i : InheritanceRow} :
    inheritanceRow stepId all completed x = some i ↔
      ∃ c, lookupLast (fun c ↦ c.1.semantics) completed x.semantics = some c ∧
        stepIdOf stepId all x.stepKey = some i.stepId ∧ i.originalCompletionEventId = c.2 := by
  unfold inheritanceRow
  simp only [Option.bind_eq_bind, Option.bind_eq_some_iff, Option.pure_def, Option.some.injEq]
  constructor
  · rintro ⟨c, hc, id, hid, rfl⟩
    exact ⟨c, hc, hid, rfl⟩
  · rintro ⟨c, hc, hid, hevent⟩
    exact ⟨c, hc, i.stepId, hid, by rw [← hevent]⟩

/-- A completed step that can be inherited, with its event. -/
theorem mem_completedSteps {db : Db} {roadmapId : Uuid} {c : StepRow × Uuid}
    (h : c ∈ db.completedSteps roadmapId) :
    c.1 ∈ db.steps ∧ c.1.roadmapId = roadmapId ∧ c.1.state = .completed ∧
      ∃ i ∈ db.inheritances, i.stepId = c.1.id ∧ i.originalCompletionEventId = c.2 := by
  obtain ⟨x, hx, hc⟩ := List.mem_filterMap.mp h
  obtain ⟨hmem, hcompleted⟩ := List.mem_filter.mp hx
  obtain ⟨hroadmap, hstate⟩ := of_decide_eq_true hcompleted
  obtain ⟨i, hi, rfl⟩ := Option.map_eq_some_iff.mp hc
  obtain ⟨himem, hid⟩ := lookup_some hi
  exact ⟨hmem, hroadmap, hstate, i, himem, hid, rfl⟩

/-- What can be inherited is completed in the active roadmap. -/
theorem mem_inheritable {db : Db} {c : StepRow × Uuid} (h : c ∈ request.inheritable db) :
    ∃ previous, db.activeRoadmapOf request.userId request.goalId = some previous ∧
      c ∈ db.completedSteps previous.id := by
  unfold RoadmapCreate.inheritable at h
  cases hactive : db.activeRoadmapOf request.userId request.goalId with
  | none => simp [hactive] at h
  | some previous => exact ⟨previous, rfl, by simpa [hactive] using h⟩

private theorem newInheritances_constraints
    (hfresh : FreshRoadmap request.roadmapId stepId proposal.steps.length s.1)
    (hstorable : Storable proposal.steps) {steps : List StepRow}
    (hsteps : steps.map (·.id) = s.1.steps.map (·.id) ++
      (stepRows request.roadmapId stepId proposal.steps.zipIdx).map (·.id)) :
    InheritanceConstraints (s.1.inheritances ++ request.inherited stepId proposal.steps s.1) steps
      s.1.events := by
  have hid {i : InheritanceRow} (hi : i ∈ request.inherited stepId proposal.steps s.1) :
      ∃ x ∈ stepRows request.roadmapId stepId proposal.steps.zipIdx, x.id = i.stepId := by
    obtain ⟨p, -, hrow⟩ := List.mem_filterMap.mp hi
    obtain ⟨-, -, hid, -⟩ := inheritanceRow_eq_some.mp hrow
    obtain ⟨x, hx, hxid, -⟩ :=
      @mem_stepRows_of_stepIdOf request stepId proposal hstorable.keys _ _ hid
    exact ⟨x, hx, hxid⟩
  have hmem {id : Uuid} : (∃ x ∈ steps, x.id = id) ↔ (∃ x ∈ s.1.steps, x.id = id) ∨
      ∃ x ∈ stepRows request.roadmapId stepId proposal.steps.zipIdx, x.id = id := by
    simp only [← List.mem_map, hsteps, List.mem_append]
  refine ⟨s.2.inheritances.key.append ?_ ?_, List.forall_mem_append.mpr ⟨?_, ?_⟩,
    s.2.inheritances.event.append ?_⟩
  · unfold Relational.Unique RoadmapCreate.inherited
    rw [List.Nodup, List.pairwise_map, List.pairwise_filterMap]
    refine (List.pairwise_map.mp hstorable.keys).imp fun {x y} hne i hi j hj heq ↦ ?_
    obtain ⟨-, -, hid, -⟩ := inheritanceRow_eq_some.mp hi
    obtain ⟨-, -, hid', -⟩ := inheritanceRow_eq_some.mp hj
    exact hne (stepIdOf_inj hfresh hstorable.keys hid (heq ▸ hid'))
  · intro i hi j hj heq
    obtain ⟨x, hx, hxid⟩ := hid hj
    obtain ⟨n, hn, hnid, -⟩ := stepRows_index hx
    obtain ⟨y, hy, hyid⟩ := s.2.inheritances.step i hi
    exact hfresh.step n hn y hy (hyid.trans (heq.trans (hxid.symm.trans hnid)))
  · exact fun i hi ↦ hmem.mpr (.inl (s.2.inheritances.step i hi))
  · exact fun i hi ↦ hmem.mpr (.inr (hid hi))
  · intro i hi
    obtain ⟨p, -, hrow⟩ := List.mem_filterMap.mp hi
    obtain ⟨c, hc, -, hevent⟩ := inheritanceRow_eq_some.mp hrow
    obtain ⟨previous, -, hcompleted⟩ := mem_inheritable (lookupLast_some hc).1
    obtain ⟨-, -, -, j, hj, -, hjevent⟩ := mem_completedSteps hcompleted
    obtain ⟨e, he, heid⟩ := s.2.inheritances.event j hj
    exact ⟨e, he, heid.trans (hjevent.trans hevent.symm)⟩

/-- The new steps and their dependencies and inheritances are accepted, one after the other. -/
theorem createRoadmap_succeeds (hcreatable : Creatable request proposal analysis s.1)
    (hfresh : FreshRoadmap request.roadmapId stepId proposal.steps.length s.1)
    (hstorable : Storable proposal.steps) :
    ∃ t : Database,
      Yields (createRoadmap request stepId now) s ⟨request.roadmapId, 1, .draft⟩ t := by
  obtain ⟨g, hg, hgoalUser⟩ := Option.map_eq_some_iff.mp hcreatable.goalOwner
  obtain ⟨hgmem, hgid⟩ := lookup_some hg
  obtain ⟨hproposal, hproposalId, -⟩ := ownProposal_spec hcreatable.own
  have huser : ∃ u ∈ s.1.users, u.id = request.userId := hgoalUser ▸ s.2.goals.user g hgmem
  have hroadmap := s.2.insertRoadmap (r := request.row analysis.releaseId now) huser
    ⟨g, hgmem, hgid⟩ ⟨proposal, hproposal, hproposalId⟩ hfresh.roadmap nofun hcreatable.title
    (Nat.le_refl 1)
  let s₁ : Database := ⟨_, hroadmap⟩
  obtain ⟨s₂, hsteps, h₂⟩ := insertSteps_succeeds (s := s₁) (newSteps_constraints hfresh hstorable
    rfl) fun x hx ↦ hstorable.datesOrdered x.1 (List.mem_of_getElem?
      (List.mem_zipIdx_iff_getElem?.mp hx))
  have hids : ∀ x ∈ proposal.steps, ∃ id, stepIdOf stepId proposal.steps x.stepKey = some id :=
    fun x hx ↦ stepIdOf_isSome (List.mem_map_of_mem hx)
  obtain ⟨s₃, hdependencies, h₃⟩ := insertDependencies_succeeds (s := s₂) hids
    (fun x hx k hk ↦ stepIdOf_isSome (hstorable.prerequisitesKnown x hx k hk))
    (by rw [h₂]; exact newDependencies_constraints hfresh hstorable rfl)
  have hwritten : s₃.1 = { s.1 with
      roadmaps := s.1.roadmaps ++ [request.row analysis.releaseId now]
      steps := s.1.steps ++ stepRows request.roadmapId stepId proposal.steps.zipIdx
      dependencies := s.1.dependencies ++
        dependencyRows request.roadmapId stepId proposal.steps proposal.steps } := by
    rw [h₃, h₂]
  have hinherit : ∃ t : Database, Yields (inheritCompletions stepId proposal.steps
      (s.1.activeRoadmapOf request.userId request.goalId)) s₃ () t := by
    cases hactive : s.1.activeRoadmapOf request.userId request.goalId with
    | none => exact ⟨s₃, yields_pure.mpr ⟨rfl, rfl⟩⟩
    | some previous =>
      obtain ⟨hcompleted, hvalid⟩ := hcreatable.outcomes previous hactive
      have hne : previous.id ≠ request.roadmapId :=
        hfresh.roadmap previous (List.mem_of_find?_eq_some hactive)
      have hsame : s₃.1.completedSteps previous.id = request.inheritable s.1 := by
        rw [hwritten, completedSteps_insert hne]
        · simp [RoadmapCreate.inheritable, hactive]
        · intro r hr
          obtain ⟨-, -, -, hrid⟩ := stepRows_index hr
          exact hrid
      have hall : InheritanceConstraints (s₃.1.inheritances ++
          request.inherited stepId proposal.steps s.1) s₃.1.steps s₃.1.events := by
        rw [hwritten]
        exact newInheritances_constraints hfresh hstorable (List.map_append ..)
      obtain ⟨t, ht⟩ := inheritCompletion_succeeds (s := s₃) hvalid hids hall
      refine ⟨t, ?_⟩
      unfold inheritCompletions
      simp only [yields_query_bind, ↓yields_require_bind, hsame]
      refine ⟨fun c hc ↦ hcompleted c ?_, ht⟩
      simpa [RoadmapCreate.inheritable, hactive] using hc
  obtain ⟨t, ht⟩ := hinherit
  refine ⟨t, ?_⟩
  unfold createRoadmap
  simp only [yields_query_bind, ↓yields_require_bind, ↓yields_demand_bind]
  refine ⟨hcreatable.version, hcreatable.goalOwner, (proposal, analysis), hcreatable.own,
    hcreatable.proposalVersion, hcreatable.feasible, hcreatable.goal, ?_⟩
  simp only [yields_seq, yields_statement, yields_pure]
  exact ⟨s₁, rfl, s₂, hsteps, s₃, hdependencies, t, ht, trivial, rfl⟩

/-- What a creation stored could be stored. -/
theorem RoadmapCreated.storable {t : Database}
    (h : RoadmapCreated request stepId now proposal analysis s.1 t.1) :
    Storable proposal.steps := by
  have hsteps : t.1.steps = completeSteps (request.inherited stepId proposal.steps s.1)
      (s.1.steps ++ stepRows request.roadmapId stepId proposal.steps.zipIdx) := by rw [h.written]
  have hcolumn {γ : Type} {f : StepRow → γ}
      (hf : ∀ r : StepRow, f { r with state := .completed } = f r) :
      t.1.steps.map f = s.1.steps.map f ++
        proposal.steps.zipIdx.map fun x ↦ f (x.1.row request.roadmapId (stepId x.2) x.2) := by
    rw [hsteps, map_completeSteps hf, List.map_append, stepRows, List.map_map]
    rfl
  have hkeys : (proposal.steps.map (·.stepKey)).Nodup := by
    have hunique := t.2.steps.roadmapStepKey
    unfold Relational.Unique at hunique
    rw [hcolumn fun _ ↦ rfl] at hunique
    have hpairs := (List.nodup_append.mp hunique).2.1
    rw [← keys_zipIdx]
    refine List.Nodup.of_map (request.roadmapId, ·) ?_
    rwa [List.map_map]
  have hrow : ∀ p ∈ proposal.steps, ∃ x ∈ t.1.steps, x.stepKey = p.stepKey ∧
      x.actionId = p.actionId ∧ x.templateRevision = p.templateRevision := by
    intro p hp
    obtain ⟨i, hi⟩ := List.mem_iff_getElem?.mp hp
    have hmem : (p.stepKey, p.actionId, p.templateRevision) ∈
        t.1.steps.map fun x ↦ (x.stepKey, x.actionId, x.templateRevision) := by
      rw [hcolumn fun _ ↦ rfl]
      exact List.mem_append_right _ (List.mem_map.mpr
        ⟨(p, i), List.mem_zipIdx_iff_getElem?.mpr hi, rfl⟩)
    obtain ⟨x, hx, heq⟩ := List.mem_map.mp hmem
    simp only [Prod.mk.injEq] at heq
    exact ⟨x, hx, heq⟩
  have hknown : ∀ p ∈ proposal.steps, ∀ k ∈ p.prerequisiteStepKeys,
      k ∈ proposal.steps.map (·.stepKey) := by
    intro p hp k hk
    obtain ⟨id, hid⟩ := Option.isSome_iff_exists.mp (h.prerequisitesKnown p hp k hk)
    obtain ⟨i, q, hi, rfl, -⟩ := (stepIdOf_eq_some hkeys).mp hid
    exact List.mem_map_of_mem (List.mem_of_getElem? hi)
  have hdependencies : (dependencyRows request.roadmapId stepId proposal.steps
      proposal.steps).Nodup := by
    have hnodup := t.2.dependencies.key
    rw [h.written] at hnodup
    exact (List.nodup_append.mp hnodup).2.1
  have hids (p) (hp : p ∈ proposal.steps) :
      ∃ id, stepIdOf stepId proposal.steps p.stepKey = some id :=
    stepIdOf_isSome (List.mem_map_of_mem hp)
  refine ⟨hkeys, fun p hp ↦ ?_, fun p hp ↦ ?_, fun p hp ↦ ?_, h.datesOrdered, hknown,
    fun p hp ↦ ?_, fun p hp hself ↦ ?_⟩
  · obtain ⟨x, hx, hkey, -⟩ := hrow p hp
    exact hkey ▸ (t.2.steps.fits x hx).stepKey
  · obtain ⟨x, hx, -, haction, -⟩ := hrow p hp
    exact haction ▸ (t.2.steps.fits x hx).actionId
  · obtain ⟨x, hx, -, -, hrevision⟩ := hrow p hp
    exact hrevision ▸ ⟨(t.2.steps.fits x hx).templateRevision,
      (t.2.steps.fits x hx).templateRevisionRange⟩
  · obtain ⟨id, hid⟩ := hids p hp
    have hone := (List.nodup_flatMap.mp hdependencies).1 p hp
    have hmap : p.prerequisiteStepKeys.filterMap
        (dependencyRow request.roadmapId stepId proposal.steps p.stepKey) =
        p.prerequisiteStepKeys.map fun k ↦ (⟨request.roadmapId, id,
          (stepIdOf stepId proposal.steps k).getD 0⟩ : DependencyRow) := by
      rw [← List.filterMap_eq_map]
      refine List.filterMap_congr fun k hk ↦ ?_
      obtain ⟨prerequisiteId, hprerequisite⟩ :=
        @stepIdOf_isSome stepId proposal.steps k (hknown p hp k hk)
      simp [dependencyRow, hid, hprerequisite]
    rw [hmap] at hone
    exact hone.of_map
  · obtain ⟨id, hid⟩ := hids p hp
    have hmem : (⟨request.roadmapId, id, id⟩ : DependencyRow) ∈ t.1.dependencies := by
      rw [h.written]
      exact List.mem_append_right _ (mem_dependencyRows.mpr ⟨p, hp, _, hself, rfl, hid, hid⟩)
    exact t.2.dependencies.noSelfEdge _ hmem rfl

end Rows

end Jobtology.Store
