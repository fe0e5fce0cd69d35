import Jobtology.Store.Revisions
import Jobtology.Store.RoadmapSteps
import Jobtology.Store.StoredRoutes

/-!
# The rounds of a revision

What `load_revision` of `roadmap_revisions.py` found, what a round of
`preserve_revision_progress` writes for one step of the old roadmap, and what the rounds over some
of its steps have written.
-/

namespace Jobtology.Store

open Jobtology.Base Jobtology.Relational
open Jobtology.Relational.Transaction
open Jobtology.Weekly (StepState)

/-! ### What a revision found -/

/-- What `load_revision` found. -/
structure RevisionLoaded (userId roadmapId proposalId : Uuid) (now : Int)
    (proposal : ProposalRow) (analysis : AnalysisRow) (profile : ProfileRow) (goal : GoalRow)
    (context : RevisionContext) (db : Db) : Prop where
  roadmap : context.roadmap ∈ db.roadmaps ∧ context.roadmap.id = roadmapId ∧
    context.roadmap.userId = userId
  own : db.ownProposal userId proposalId = some (proposal, analysis)
  oldSteps : context.oldSteps = db.oldSteps roadmapId
  proposedSteps : context.proposedSteps = proposal.steps
  blockingReasons : context.blockingReasons = Store.blockingReasons context.roadmap profile proposal
    analysis goal userId context.oldSteps context.oldDocuments context.plan now

/-- What a revision that can be loaded finds. -/
theorem loadRevision_spec {userId roadmapId proposalId : Uuid} {now : Int} {s t : Database}
    {context : RevisionContext}
    (h : Yields (loadRevision userId roadmapId proposalId now) s context t) :
    t = s ∧ ∃ proposal analysis profile goal,
      RevisionLoaded userId roadmapId proposalId now proposal analysis profile goal context
        s.1 := by
  unfold loadRevision at h
  simp only [yields_query_bind, ↓yields_require_bind, ↓yields_demand_bind, yields_pure] at h
  obtain ⟨roadmap, hroadmap, profile, -, ⟨proposal, analysis, goal⟩, hrow, source, -, -, rfl,
    rfl⟩ := h
  have hfound := List.find?_some hroadmap
  rw [decide_eq_true_eq] at hfound
  have hown : s.1.ownProposal userId proposalId = some (proposal, analysis) := by
    unfold Db.revisionRow at hrow
    simp only [Option.bind_eq_bind, Option.bind_eq_some_iff] at hrow
    obtain ⟨⟨p, a⟩, hown, g, -, hrow⟩ := hrow
    split at hrow
    · obtain ⟨rfl, rfl, -⟩ : p = proposal ∧ a = analysis ∧ g = goal := by simpa using hrow
      exact hown
    · cases hrow
  exact ⟨rfl, proposal, analysis, profile, goal, ⟨List.mem_of_find?_eq_some hroadmap, hfound⟩, hown,
    rfl, rfl, rfl⟩

private theorem reason_eq_nil {c : Prop} [Decidable c] {text : String} :
    reason c text = [] ↔ ¬ c := by
  unfold reason
  by_cases h : c
  · simp [h]
  · simp [h]

private theorem eq_nil_of_eraseDups {xs : List String} (h : xs.eraseDups = []) : xs = [] := by
  cases xs with
  | nil => rfl
  | cons x xs =>
    rw [List.eraseDups_cons] at h
    cases h

/-- A revision that nothing blocks is of an active roadmap with verified completions, by a proposal
whose keys are distinct. -/
theorem RevisionLoaded.unblocked {userId roadmapId proposalId : Uuid} {now : Int} {db : Db}
    {proposal : ProposalRow} {analysis : AnalysisRow} {profile : ProfileRow} {goal : GoalRow}
    {context : RevisionContext}
    (h : RevisionLoaded userId roadmapId proposalId now proposal analysis profile goal context db)
    (hnone : context.blockingReasons = []) :
    context.roadmap.state = .active ∧ (∀ s ∈ completedOf context.oldSteps, s.verified userId) ∧
      (proposal.steps.map (·.stepKey)).Nodup := by
  rw [h.blockingReasons] at hnone
  have hall := eq_nil_of_eraseDups hnone
  simp only [List.append_eq_nil_iff, reason_eq_nil, not_not, not_exists, not_and] at hall
  obtain ⟨⟨⟨⟨⟨⟨⟨⟨⟨⟨⟨⟨hactive, -⟩, -⟩, -⟩, -⟩, hverified⟩, -⟩, -⟩, -⟩, -⟩, -⟩, -⟩, hkeys⟩ := hall
  exact ⟨hactive, hverified, hkeys⟩

/-- A creation leaves the completions of the steps that were there. -/
theorem RoadmapCreated.completionEvent_old {request : RoadmapCreate} {stepId : Nat → Uuid}
    {now : Int} {proposal : ProposalRow} {analysis : AnalysisRow} {s t : Database}
    (h : RoadmapCreated request stepId now proposal analysis s.1 t.1) {r : StepRow}
    (hr : r ∈ s.1.steps) : t.1.completionEvent r.id = s.1.completionEvent r.id := by
  have hinheritances : t.1.inheritances =
      s.1.inheritances ++ request.inherited stepId proposal.steps s.1 := by rw [h.written]
  have hnone : lookup (·.stepId) (request.inherited stepId proposal.steps s.1) r.id = none := by
    refine lookup_eq_none.mpr fun row hrow hid ↦ ?_
    obtain ⟨y, -, hrow⟩ := List.mem_filterMap.mp hrow
    obtain ⟨c, -, hstepId, -⟩ := inheritanceRow_eq_some.mp hrow
    obtain ⟨i, z, hz, -, hi⟩ := (stepIdOf_eq_some h.storable.keys).mp hstepId
    exact h.fresh.step i (List.getElem?_eq_some_iff.mp hz).1 r hr (hid.symm.trans hi.symm)
  unfold Db.completionEvent
  rw [hinheritances, lookup_append, hnone, Option.or_none]

/-! ### What each round writes -/

/-- What a round over an old step writes and collects. -/
inductive PreserveEffect (context : RevisionContext) (roadmapId : Uuid)
    (newId : String → Option Uuid) (carriedId : Nat → Uuid) (progress : PreservedProgress)
    (s : OldStep) (db : Db) : PreservedProgress → Db → Prop
  /-- The step is neither completed nor started, or its start is not retained. -/
  | untouched (unfinished : s.row.state ≠ .completed)
      (notRetained : context.matched s = none ∨
        ¬ (s.row.state = .inProgress ∧ s.row.semantics ∉ context.completedSemantics)) :
      PreserveEffect context roadmapId newId carriedId progress s db progress db
  /-- The step was started, and the proposal still has it. -/
  | retained (started : s.row.state = .inProgress)
      (notCompleted : s.row.semantics ∉ context.completedSemantics) (proposed : ProposalStep)
      (found : context.matched s = some proposed) (id : Uuid)
      (row : newId proposed.stepKey = some id) :
      PreserveEffect context roadmapId newId carriedId progress s db progress { db with
        steps := update (·.id = id) (fun r ↦ { r with state := .inProgress }) db.steps }
  /-- The step is the first completed one that the proposal has. -/
  | matched (completed : s.row.state = .completed) (proposed : ProposalStep)
      (found : context.matched s = some proposed)
      (first : s.row.semantics ∉ progress.matchedCompleted) (id : Uuid)
      (row : newId proposed.stepKey = some id) (eventId : Uuid)
      (event : s.completionEventId = some eventId) :
      PreserveEffect context roadmapId newId carriedId progress s db
        ({ progress with
          matchedCompleted := s.row.semantics :: progress.matchedCompleted
          }.record context id proposed.stepKey s)
        { db with
          steps := update (·.id = id) (fun r ↦ { r with
            state := .completed
            plannedStart := s.row.plannedStart
            plannedEnd := s.row.plannedEnd }) db.steps
          inheritances := update (·.stepId = id)
            (fun i ↦ { i with originalCompletionEventId := eventId }) db.inheritances }
  /-- The step is completed, and the proposal has no step left for it. -/
  | carried (completed : s.row.state = .completed)
      (unmatched : context.matched s = none ∨ s.row.semantics ∈ progress.matchedCompleted)
      (eventId : Uuid) (event : s.completionEventId = some eventId) :
      PreserveEffect context roadmapId newId carriedId progress s db
        ({ progress with
          nextPosition := progress.nextPosition + 1
          carried := progress.carried + 1
          }.record context (carriedId progress.carried) (completedKey eventId) s)
        { db with
          steps := db.steps ++ [{ s.row with
            id := carriedId progress.carried, roadmapId := roadmapId
            stepKey := completedKey eventId, position := progress.nextPosition
            state := .completed }]
          inheritances := db.inheritances ++ [⟨carriedId progress.carried, eventId⟩] }

section Rounds

variable {context : RevisionContext} {roadmapId : Uuid} {newId : String → Option Uuid}
  {carriedId : Nat → Uuid} {progress progress' : PreservedProgress} {old : OldStep}
  {s t : Database}

private theorem preserveCompleted_spec (hcompleted : old.row.state = .completed)
    (h : Yields (preserveCompleted context roadmapId newId carriedId progress old) s progress' t) :
    PreserveEffect context roadmapId newId carriedId progress old s.1 progress' t.1 := by
  unfold preserveCompleted at h
  split at h
  · next proposed hfiltered =>
    obtain ⟨hfound, hfirst⟩ := Option.filter_eq_some_iff.mp hfiltered
    obtain ⟨id, hid, h⟩ := yields_demand_bind.mp h
    obtain ⟨s₁, hwrite, h⟩ := yields_seq.mp h
    obtain ⟨rfl, rfl⟩ := yields_pure.mp h
    unfold preserveMatched at hwrite
    simp only [↓yields_demand_bind, yields_seq, yields_statement] at hwrite
    obtain ⟨s₂, hsteps, eventId, hevent, hinheritances⟩ := hwrite
    rw [← hsteps] at hinheritances
    rw [← hinheritances]
    exact .matched hcompleted proposed hfound (of_decide_eq_true hfirst) id hid eventId hevent
  · next hfiltered =>
    have hunmatched : context.matched old = none ∨
        old.row.semantics ∈ progress.matchedCompleted := by
      cases hmatched : context.matched old with
      | none => exact .inl rfl
      | some proposed =>
        rw [hmatched, Option.filter_some] at hfiltered
        split at hfiltered
        · cases hfiltered
        · next hin => exact .inr (by simpa using hin)
    obtain ⟨eventId, hevent, h⟩ := yields_demand_bind.mp h
    obtain ⟨s₁, hwrite, h⟩ := yields_seq.mp h
    obtain ⟨rfl, rfl⟩ := yields_pure.mp h
    unfold preserveCarried at hwrite
    simp only [yields_seq, yields_statement] at hwrite
    obtain ⟨s₂, hsteps, hinheritances⟩ := hwrite
    rw [← hsteps] at hinheritances
    rw [← hinheritances]
    exact .carried hcompleted hunmatched eventId hevent

/-- What one round of preserving does. -/
theorem preserveStep_spec
    (h : Yields (preserveStep context roadmapId newId carriedId progress old) s progress' t) :
    PreserveEffect context roadmapId newId carriedId progress old s.1 progress' t.1 := by
  unfold preserveStep at h
  obtain ⟨s₁, hretain, h⟩ := yields_seq.mp h
  by_cases hcompleted : old.row.state = .completed
  · have hsame : s₁ = s := by
      unfold retainStarted at hretain
      split at hretain
      · exact (yields_pure.mp hretain).2.symm
      · rw [if_neg fun hstarted ↦ by rw [hcompleted] at hstarted; cases hstarted.1] at hretain
        exact (yields_pure.mp hretain).2.symm
    rw [if_pos hcompleted, hsame] at h
    exact preserveCompleted_spec hcompleted h
  · rw [if_neg hcompleted] at h
    obtain ⟨rfl, rfl⟩ := yields_pure.mp h
    unfold retainStarted at hretain
    split at hretain
    · next hnone =>
      obtain ⟨-, rfl⟩ := yields_pure.mp hretain
      exact .untouched hcompleted (.inl hnone)
    · next proposed hfound =>
      rcases yields_ite.mp hretain with ⟨⟨hstarted, hopen⟩, hretain⟩ | ⟨hnot, hretain⟩
      · simp only [↓yields_demand_bind, yields_statement] at hretain
        obtain ⟨id, hid, hwritten⟩ := hretain
        rw [← hwritten]
        exact .retained hstarted hopen proposed hfound id hid
      · obtain ⟨-, rfl⟩ := yields_pure.mp hretain
        exact .untouched hcompleted (.inr hnot)

end Rounds

/-! ### What the rounds have written -/

/-- The first of the completed steps with some semantics. -/
def firstCompleted (done : List OldStep) (semantics : Semantics) : Option OldStep :=
  (completedOf done).find? (·.row.semantics = semantics)

/-- The state of a proposed step for which no completed one has come yet. -/
def RevisionContext.openState (context : RevisionContext) (done : List OldStep)
    (semantics : Semantics) : StepState :=
  if semantics ∈ context.completedSemantics then .completed
  else if ∃ o ∈ done, o.row.state = .inProgress ∧ o.row.semantics = semantics then .inProgress
  else .todo

/-- The row of a proposed step after rounds over some of the old steps. -/
def RevisionContext.revisedRow (context : RevisionContext) (roadmapId : Uuid)
    (stepId : Nat → Uuid) (done : List OldStep) (x : ProposalStep × Nat) : StepRow :=
  match firstCompleted done x.1.semantics with
  | some o => { x.1.row roadmapId (stepId x.2) x.2 with
    state := .completed, plannedStart := o.row.plannedStart, plannedEnd := o.row.plannedEnd }
  | none => { x.1.row roadmapId (stepId x.2) x.2 with
    state := context.openState done x.1.semantics }

/-- The row of a step that was carried over. -/
def RevisionContext.carriedRow (context : RevisionContext) (roadmapId : Uuid)
    (carriedId : Nat → Uuid) (c : (OldStep × Uuid) × Nat) : StepRow :=
  { c.1.1.row with
    id := carriedId c.2, roadmapId := roadmapId, stepKey := completedKey c.1.2
    position := context.proposedSteps.length + c.2, state := .completed }

/-- What the rounds over some of the old steps have written and collected. Each completed step is
the first with its semantics that is proposed, or it was carried over. -/
structure Preserved (context : RevisionContext) (roadmapId : Uuid) (stepId carriedId : Nat → Uuid)
    (start : Db) (base : List StepRow) (done : List OldStep) (carried : List (OldStep × Uuid))
    (progress : PreservedProgress) (db : Db) : Prop where
  frame : db = { start with steps := db.steps, inheritances := db.inheritances }
  steps : db.steps = base ++
    context.proposedSteps.zipIdx.map (context.revisedRow roadmapId stepId done) ++
    carried.zipIdx.map (context.carriedRow roadmapId carriedId)
  count : progress.carried = carried.length
  position : progress.nextPosition = context.proposedSteps.length + carried.length
  preserved : progress.preserved = (completedOf done).length
  first : ∀ x ∈ context.proposedSteps,
    x.semantics ∈ progress.matchedCompleted ↔ firstCompleted done x.semantics ≠ none
  split : (completedOf done).Perm
    (context.proposedSteps.filterMap (firstCompleted done ·.semantics) ++ carried.map (·.1))
  inherits : ∀ i x, context.proposedSteps[i]? = some x →
    x.semantics ∈ context.completedSemantics → db.completionEvent (stepId i) ≠ none
  firstEvent : ∀ i x o, context.proposedSteps[i]? = some x →
    firstCompleted done x.semantics = some o →
    db.completionEvent (stepId i) = o.completionEventId
  carriedEvent : ∀ j c, carried[j]? = some c →
    db.completionEvent (carriedId j) = some c.2 ∧ c.1.completionEventId = some c.2
  baseEvent : ∀ r ∈ base, db.completionEvent r.id = start.completionEvent r.id

section Preserving

variable {context : RevisionContext} {roadmapId : Uuid} {newId : String → Option Uuid}
  {stepId carriedId : Nat → Uuid} {start : Db} {base : List StepRow} {done : List OldStep}
  {carried : List (OldStep × Uuid)} {progress progress' : PreservedProgress} {o : OldStep}
  {s t : Database}

private theorem completedOf_concat (done : List OldStep) (o : OldStep) :
    completedOf (done ++ [o]) =
      completedOf done ++ if o.row.state = .completed then [o] else [] := by
  unfold completedOf
  rw [List.filter_append, List.filter_singleton]
  by_cases ho : o.row.state = .completed
  · simp [ho]
  · simp [ho]

private theorem firstCompleted_concat (done : List OldStep) (o : OldStep) (semantics : Semantics) :
    firstCompleted (done ++ [o]) semantics = (firstCompleted done semantics).or
      (if o.row.state = .completed ∧ o.row.semantics = semantics then some o else none) := by
  unfold firstCompleted
  rw [completedOf_concat, List.find?_append]
  by_cases ho : o.row.state = .completed
  · by_cases hs : o.row.semantics = semantics
    · simp [ho, hs]
    · simp [ho, hs]
  · simp [ho]

/-- The first completed step about something is one about it. -/
theorem firstCompleted_some {semantics : Semantics} (h : firstCompleted done semantics = some o) :
    o ∈ completedOf done ∧ o.row.semantics = semantics :=
  ⟨List.mem_of_find?_eq_some h, by simpa using List.find?_some h⟩

/-- A round over a step with other semantics does not change the row of a proposed step. -/
theorem revisedRow_of_ne {x : ProposalStep × Nat} (hne : o.row.semantics ≠ x.1.semantics) :
    context.revisedRow roadmapId stepId (done ++ [o]) x =
      context.revisedRow roadmapId stepId done x := by
  have hfirst : firstCompleted (done ++ [o]) x.1.semantics =
      firstCompleted done x.1.semantics := by
    rw [firstCompleted_concat, if_neg fun h ↦ hne h.2, Option.or_none]
  have hopen : context.openState (done ++ [o]) x.1.semantics =
      context.openState done x.1.semantics := by
    unfold RevisionContext.openState
    simp [hne]
  unfold RevisionContext.revisedRow
  rw [hfirst, hopen]

/-- The completion of a step is its inheritance. -/
theorem Database.completionEvent_eq_some {stepId eventId : Uuid} :
    s.1.completionEvent stepId = some eventId ↔
      (⟨stepId, eventId⟩ : InheritanceRow) ∈ s.1.inheritances := by
  unfold Db.completionEvent
  simp only [Option.map_eq_some_iff, lookup_eq_some s.2.inheritances.key]
  constructor
  · rintro ⟨i, ⟨hi, rfl⟩, rfl⟩
    exact hi
  · exact fun h ↦ ⟨_, ⟨h, rfl⟩, rfl⟩

private theorem revisedRow_id (x : ProposalStep × Nat) :
    (context.revisedRow roadmapId stepId done x).id = stepId x.2 := by
  unfold RevisionContext.revisedRow
  split <;> rfl

private theorem index_eq {steps : List ProposalStep}
    (hsemantics : (steps.map (·.semantics)).Nodup) {i k : Nat} {x y : ProposalStep}
    (hx : steps[i]? = some x) (hy : steps[k]? = some y) (h : x.semantics = y.semantics) :
    i = k := by
  have hi : i < (steps.map (·.semantics)).length := by
    rw [List.length_map]
    exact (List.getElem?_eq_some_iff.mp hx).1
  refine (List.getElem?_inj hi hsemantics).mp ?_
  rw [List.getElem?_map, List.getElem?_map, hx, hy, Option.map_some, Option.map_some, h]

/-- Writing the row of a proposed step changes that row only. -/
theorem update_revisedRows (hsemantics : (context.proposedSteps.map (·.semantics)).Nodup)
    {rows : List StepRow} {f : StepRow → StepRow} {i : Nat} {x : ProposalStep}
    (hkey : Unique (·.id) (base ++
      context.proposedSteps.zipIdx.map (context.revisedRow roadmapId stepId done) ++ rows))
    (hx : context.proposedSteps[i]? = some x) (ho : o.row.semantics = x.semantics)
    (hf : f (context.revisedRow roadmapId stepId done (x, i)) =
      context.revisedRow roadmapId stepId (done ++ [o]) (x, i)) :
    update (·.id = stepId i) f (base ++
      context.proposedSteps.zipIdx.map (context.revisedRow roadmapId stepId done) ++ rows) =
    base ++ context.proposedSteps.zipIdx.map (context.revisedRow roadmapId stepId (done ++ [o])) ++
      rows := by
  have hmem : (x, i) ∈ context.proposedSteps.zipIdx := List.mem_zipIdx_iff_getElem?.mpr hx
  unfold Relational.Unique at hkey
  simp only [List.map_append, List.map_map, List.nodup_append] at hkey
  obtain ⟨⟨-, hmiddle, hbase⟩, -, hrows⟩ := hkey
  have hid : stepId i ∈ context.proposedSteps.zipIdx.map
      ((fun r : StepRow ↦ r.id) ∘ context.revisedRow roadmapId stepId done) :=
    List.mem_map.mpr ⟨(x, i), hmem, revisedRow_id _⟩
  have hsame (rs : List StepRow) (h : ∀ r ∈ rs, r.id ≠ stepId i) :
      rs.map (fun r ↦ if r.id = stepId i then f r else r) = rs := update_eq_self h
  unfold update
  rw [List.map_append, List.map_append, hsame base, hsame rows, List.map_map]
  · congr 2
    refine List.map_congr_left fun ⟨y, k⟩ hy ↦ ?_
    rw [Function.comp_apply]
    by_cases hk : (context.revisedRow roadmapId stepId done (y, k)).id = stepId i
    · obtain ⟨rfl, rfl⟩ := Prod.mk.inj (List.inj_on_of_nodup_map hmiddle hy hmem
        (hk.trans (revisedRow_id (x, i)).symm))
      rw [if_pos hk, hf]
    · rw [if_neg hk, revisedRow_of_ne]
      intro hsem
      obtain rfl := index_eq hsemantics (List.mem_zipIdx_iff_getElem?.mp hy) hx
        (hsem.symm.trans ho)
      exact hk (revisedRow_id _)
  · exact fun r hr he ↦ hrows (stepId i) (List.mem_append_right _ hid) r.id
      (List.mem_map_of_mem hr) he.symm
  · exact fun r hr he ↦ hbase r.id (List.mem_map_of_mem hr) (stepId i) hid he

/-- A round over a step that is not completed writes rows of proposed steps only. -/
theorem Preserved.round_open {db : Db} {steps : List StepRow}
    (h : Preserved context roadmapId stepId carriedId start base done carried progress db)
    (ho : o.row.state ≠ .completed)
    (hsteps : steps = base ++
      context.proposedSteps.zipIdx.map (context.revisedRow roadmapId stepId (done ++ [o])) ++
      carried.zipIdx.map (context.carriedRow roadmapId carriedId)) :
    Preserved context roadmapId stepId carriedId start base (done ++ [o]) carried progress
      { db with steps := steps } := by
  have hcompleted : completedOf (done ++ [o]) = completedOf done := by
    rw [completedOf_concat, if_neg ho, List.append_nil]
  have hfirst : firstCompleted (done ++ [o]) = firstCompleted done := by
    funext σ
    unfold firstCompleted
    rw [hcompleted]
  exact ⟨by rw [h.frame], hsteps, h.count, h.position, hcompleted ▸ h.preserved,
    hfirst ▸ h.first, by rw [hcompleted, hfirst]; exact h.split, h.inherits,
    hfirst ▸ h.firstEvent, h.carriedEvent, h.baseEvent⟩

private theorem matched_eq_some (hsemantics : (context.proposedSteps.map (·.semantics)).Nodup)
    {x : ProposalStep} :
    context.matched o = some x ↔ x ∈ context.proposedSteps ∧ x.semantics = o.row.semantics :=
  lookupLast_eq_some hsemantics

private theorem matched_eq_none :
    context.matched o = none ↔ ∀ x ∈ context.proposedSteps, x.semantics ≠ o.row.semantics :=
  lookupLast_eq_none

private theorem revisedRow_untouched (ho : o.row.state ≠ .completed)
    (hnot : context.matched o = none ∨
      ¬ (o.row.state = .inProgress ∧ o.row.semantics ∉ context.completedSemantics))
    {x : ProposalStep × Nat} (hx : x.1 ∈ context.proposedSteps) :
    context.revisedRow roadmapId stepId (done ++ [o]) x =
      context.revisedRow roadmapId stepId done x := by
  by_cases hsem : o.row.semantics = x.1.semantics
  · have hkept := hnot.resolve_left fun hnone ↦ matched_eq_none.mp hnone x.1 hx hsem.symm
    have hfirst : firstCompleted (done ++ [o]) x.1.semantics =
        firstCompleted done x.1.semantics := by
      rw [firstCompleted_concat, if_neg fun h ↦ ho h.1, Option.or_none]
    have hopen : context.openState (done ++ [o]) x.1.semantics =
        context.openState done x.1.semantics := by
      unfold RevisionContext.openState
      by_cases hin : x.1.semantics ∈ context.completedSemantics
      · rw [if_pos hin, if_pos hin]
      · have hstarted : o.row.state ≠ .inProgress := fun hs ↦ hkept ⟨hs, hsem ▸ hin⟩
        simp [hstarted]
    unfold RevisionContext.revisedRow
    rw [hfirst, hopen]
  · exact revisedRow_of_ne hsem

private theorem revisedRow_retained (hstarted : o.row.state = .inProgress)
    (hopen : o.row.semantics ∉ context.completedSemantics) {x : ProposalStep} {i : Nat}
    (hsem : x.semantics = o.row.semantics) (hdone : ∀ d ∈ completedOf done,
      d.row.semantics ∈ context.completedSemantics) :
    { context.revisedRow roadmapId stepId done (x, i) with state := .inProgress } =
      context.revisedRow roadmapId stepId (done ++ [o]) (x, i) := by
  have hnone (ds : List OldStep)
      (hds : ∀ d ∈ completedOf ds, d.row.semantics ∈ context.completedSemantics) :
      firstCompleted ds x.semantics = none := by
    refine List.find?_eq_none.mpr fun d hd he ↦ hopen ?_
    rw [← hsem, ← of_decide_eq_true he]
    exact hds d hd
  have hconcat : ∀ d ∈ completedOf (done ++ [o]), d.row.semantics ∈ context.completedSemantics := by
    rw [completedOf_concat, if_neg (by rw [hstarted]; nofun), List.append_nil]
    exact hdone
  have hstate : context.openState (done ++ [o]) x.semantics = .inProgress := by
    unfold RevisionContext.openState
    rw [if_neg (hsem ▸ hopen), if_pos ⟨o, by simp, hstarted, hsem.symm⟩]
  unfold RevisionContext.revisedRow
  rw [hnone done hdone, hnone _ hconcat, hstate]

private theorem map_snd_zipIdx {α β : Type} (f : Nat → β) (xs : List α) :
    xs.zipIdx.map (fun x ↦ f x.2) = (List.range xs.length).map f := by
  rw [List.range_eq_range', ← List.zipIdx_map_snd, List.map_map]
  rfl

/-- The ids of the old rows, of the proposed steps and of the carried ones are distinct. -/
theorem nodup_ids (hsteps : s.1.steps = base ++
      context.proposedSteps.zipIdx.map (context.revisedRow roadmapId stepId done) ++
      carried.zipIdx.map (context.carriedRow roadmapId carriedId)) :
    (base.map (·.id) ++ (List.range context.proposedSteps.length).map stepId ++
      (List.range carried.length).map carriedId).Nodup := by
  have hkey := s.2.steps.key
  unfold Relational.Unique at hkey
  rw [hsteps, List.map_append, List.map_append, List.map_map, List.map_map] at hkey
  rw [← map_snd_zipIdx stepId, ← map_snd_zipIdx carriedId]
  have hrow : (fun r : StepRow ↦ r.id) ∘ context.revisedRow roadmapId stepId done =
      fun x ↦ stepId x.2 := funext fun x ↦ revisedRow_id x
  rwa [hrow] at hkey

/-- The event of a step after an update of the event of one step. -/
theorem completionEvent_update {db t : Db} {id eventId : Uuid}
    (h : t.inheritances = update (·.stepId = id)
      (fun i ↦ { i with originalCompletionEventId := eventId }) db.inheritances)
    (stepId : Uuid) :
    t.completionEvent stepId =
      (db.completionEvent stepId).map fun e ↦ if stepId = id then eventId else e := by
  unfold Db.completionEvent
  rw [h, @lookup_update InheritanceRow, Option.map_map, Option.map_map]
  swap
  · exact fun _ ↦ rfl
  cases hfound : lookup (·.stepId) db.inheritances stepId with
  | none => rfl
  | some i =>
    obtain ⟨-, rfl⟩ := lookup_some hfound
    rw [Option.map_some, Option.map_some, Function.comp_apply, Function.comp_apply]
    by_cases hid : i.stepId = id
    · rw [if_pos hid, if_pos hid]
    · rw [if_neg hid, if_neg hid]

/-- A new inheritance completes its step alone. -/
theorem completionEvent_append {db t : Db} {id eventId : Uuid}
    (h : t.inheritances = db.inheritances ++ [⟨id, eventId⟩]) (stepId : Uuid) :
    t.completionEvent stepId =
      (db.completionEvent stepId).or (if id = stepId then some eventId else none) := by
  unfold Db.completionEvent
  rw [h, lookup_append, Option.map_or]
  congr 1
  unfold lookup
  by_cases hid : id = stepId
  · simp [hid]
  · simp [hid]

private theorem firstCompleted_eq {x : ProposalStep} (hx : x ∈ context.proposedSteps)
    (hunmatched : context.matched o = none ∨
      firstCompleted done o.row.semantics ≠ none) :
    firstCompleted (done ++ [o]) x.semantics = firstCompleted done x.semantics := by
  rw [firstCompleted_concat]
  by_cases hsem : o.row.semantics = x.semantics
  · have hsome := hunmatched.resolve_left fun hnone ↦ matched_eq_none.mp hnone x hx hsem.symm
    obtain ⟨d, hd⟩ := Option.ne_none_iff_exists'.mp hsome
    rw [← hsem, hd, Option.some_or]
  · rw [if_neg fun h ↦ hsem h.2, Option.or_none]

/-- A matched step becomes the first one of its semantics, and of no other. -/
theorem Preserved.first_matched {db : Db}
    (h : Preserved context roadmapId stepId carriedId start base done carried progress db)
    (ho : o.row.state = .completed) {proposed : ProposalStep}
    (hmem : proposed ∈ context.proposedSteps) (hsem : proposed.semantics = o.row.semantics)
    (hfirst : o.row.semantics ∉ progress.matchedCompleted) :
    firstCompleted done proposed.semantics = none ∧
      firstCompleted (done ++ [o]) proposed.semantics = some o ∧
      ∀ x : ProposalStep, x.semantics ≠ proposed.semantics →
        firstCompleted (done ++ [o]) x.semantics = firstCompleted done x.semantics := by
  have hnone : firstCompleted done proposed.semantics = none := by
    rw [← not_not (a := _ = none), ← ne_eq, ← h.first proposed hmem, hsem]
    exact hfirst
  refine ⟨hnone, ?_, fun x hne ↦ ?_⟩
  · rw [firstCompleted_concat, hnone, Option.none_or, if_pos ⟨ho, hsem.symm⟩]
  · rw [firstCompleted_concat, if_neg fun h ↦ hne (h.2.symm.trans hsem.symm), Option.or_none]

private theorem Preserved.round_matched
    (h : Preserved context roadmapId stepId carriedId start base done carried progress s.1)
    (hsemantics : (context.proposedSteps.map (·.semantics)).Nodup)
    (ho : o.row.state = .completed) (hin : o.row.semantics ∈ context.completedSemantics)
    {proposed : ProposalStep} {i : Nat} (hi : context.proposedSteps[i]? = some proposed)
    (hsem : proposed.semantics = o.row.semantics)
    (hfirst : o.row.semantics ∉ progress.matchedCompleted) {eventId : Uuid}
    (hevent : o.completionEventId = some eventId) {t : Db} (ht : t = { s.1 with
      steps := update (·.id = stepId i) (fun r ↦ { r with
        state := .completed
        plannedStart := o.row.plannedStart
        plannedEnd := o.row.plannedEnd }) s.1.steps
      inheritances := update (·.stepId = stepId i)
        (fun i ↦ { i with originalCompletionEventId := eventId }) s.1.inheritances }) :
    Preserved context roadmapId stepId carriedId start base (done ++ [o]) carried
      ({ progress with
        matchedCompleted := o.row.semantics :: progress.matchedCompleted
        }.record context (stepId i) proposed.stepKey o) t := by
  have hmem := List.mem_of_getElem? hi
  obtain ⟨hnone, hsome, hother⟩ := h.first_matched ho hmem hsem hfirst
  have hids := nodup_ids h.steps
  have hkey := s.2.steps.key
  rw [h.steps] at hkey
  have hevents (id : Uuid) := @completionEvent_update s.1 t _ _ (by rw [ht]) id
  have hsame {id : Uuid} (hne : id ≠ stepId i) : t.completionEvent id = s.1.completionEvent id := by
    simp only [hevents, if_neg hne, Option.map_id']
  simp only [List.nodup_append, List.mem_append, List.mem_map, List.mem_range] at hids
  obtain ⟨⟨-, hsteps, hbase⟩, -, hcarried⟩ := hids
  have hlt := (List.getElem?_eq_some_iff.mp hi).1
  constructor
  case frame =>
    rw [ht, h.frame]
  case steps =>
    rw [ht]
    change update _ _ s.1.steps = _
    rw [h.steps]
    refine update_revisedRows hsemantics hkey hi hsem.symm ?_
    unfold RevisionContext.revisedRow
    rw [hnone, hsome]
  case count =>
    exact h.count
  case position =>
    exact h.position
  case preserved =>
    rw [completedOf_concat, if_pos ho, List.length_append]
    exact congrArg (· + 1) h.preserved
  case first =>
    intro x hx
    change x.semantics ∈ o.row.semantics :: progress.matchedCompleted ↔ _
    by_cases hne : x.semantics = proposed.semantics
    · rw [hne, hsome, hsem]
      simp
    · rw [hother x hne, List.mem_cons, or_iff_right (hsem ▸ hne)]
      exact h.first x hx
  case split =>
    rw [completedOf_concat, if_pos ho]
    have hcons := filterMap_perm_cons (List.Nodup.of_map _ hsemantics) hmem hnone hsome
      fun x hx hne ↦ hother x fun he ↦
        hne (List.inj_on_of_nodup_map hsemantics hx hmem he)
    exact (List.perm_append_singleton _ _).trans
      ((h.split.cons o).trans (hcons.symm.append_right _))
  case inherits =>
    intro j x hj hx
    rw [hevents]
    simpa using h.inherits j x hj hx
  case firstEvent =>
    intro j x d hj hd
    by_cases hji : j = i
    · subst hji
      obtain rfl := Option.some.inj (hi.symm.trans hj)
      obtain rfl := Option.some.inj (hsome.symm.trans hd)
      obtain ⟨e, he⟩ := Option.ne_none_iff_exists'.mp
        (h.inherits j proposed hj (hsem.symm ▸ hin))
      rw [hevents, he, hevent, Option.map_some, if_pos rfl]
    · have hne : x.semantics ≠ proposed.semantics := fun he ↦
        hji (index_eq hsemantics hj hi he)
      rw [hother x hne] at hd
      have hid : stepId j ≠ stepId i := fun he ↦ hji (List.inj_on_of_nodup_map hsteps
        (List.mem_range.mpr (List.getElem?_eq_some_iff.mp hj).1) (List.mem_range.mpr hlt) he)
      rw [hsame hid]
      exact h.firstEvent j x d hj hd
  case carriedEvent =>
    intro j c hj
    rw [hsame fun he ↦ hcarried _ (.inr ⟨i, hlt, rfl⟩) _
      ⟨j, (List.getElem?_eq_some_iff.mp hj).1, rfl⟩ he.symm]
    exact h.carriedEvent j c hj
  case baseEvent =>
    intro r hr
    rw [hsame fun he ↦ hbase _ ⟨r, hr, rfl⟩ _ ⟨i, hlt, rfl⟩ he]
    exact h.baseEvent r hr

/-- A carried step is the first one of the semantics of no proposed step. -/
theorem Preserved.first_carried {db : Db}
    (h : Preserved context roadmapId stepId carriedId start base done carried progress db)
    (hunmatched : context.matched o = none ∨ o.row.semantics ∈ progress.matchedCompleted)
    {x : ProposalStep} (hx : x ∈ context.proposedSteps) :
    firstCompleted (done ++ [o]) x.semantics = firstCompleted done x.semantics := by
  by_cases hsem : x.semantics = o.row.semantics
  · exact firstCompleted_eq hx (hunmatched.imp_right fun hin ↦
      hsem ▸ (h.first x hx).mp (hsem.symm ▸ hin))
  · rw [firstCompleted_concat, if_neg fun h ↦ hsem h.2.symm, Option.or_none]

/-- The row of a proposed step after a step was carried over. -/
theorem revisedRow_carried {x : ProposalStep × Nat} (ho : o.row.state = .completed)
    (hfirst : firstCompleted (done ++ [o]) x.1.semantics = firstCompleted done x.1.semantics) :
    context.revisedRow roadmapId stepId (done ++ [o]) x =
      context.revisedRow roadmapId stepId done x := by
  by_cases hsem : o.row.semantics = x.1.semantics
  · have hopen : context.openState (done ++ [o]) x.1.semantics =
        context.openState done x.1.semantics := by
      unfold RevisionContext.openState
      simp [ho]
    unfold RevisionContext.revisedRow
    rw [hfirst, hopen]
  · exact revisedRow_of_ne hsem

private theorem Preserved.round_carried
    (h : Preserved context roadmapId stepId carriedId start base done carried progress s.1)
    (ho : o.row.state = .completed)
    (hunmatched : context.matched o = none ∨ o.row.semantics ∈ progress.matchedCompleted)
    {eventId : Uuid} (hevent : o.completionEventId = some eventId) (ht : t.1 = { s.1 with
      steps := s.1.steps ++ [{ o.row with
        id := carriedId progress.carried, roadmapId := roadmapId
        stepKey := completedKey eventId, position := progress.nextPosition
        state := .completed }]
      inheritances := s.1.inheritances ++ [⟨carriedId progress.carried, eventId⟩] }) :
    Preserved context roadmapId stepId carriedId start base (done ++ [o])
      (carried ++ [(o, eventId)])
      ({ progress with
        nextPosition := progress.nextPosition + 1
        carried := progress.carried + 1
        }.record context (carriedId progress.carried) (completedKey eventId) o) t.1 := by
  have hfirst {x : ProposalStep} (hx : x ∈ context.proposedSteps) :
      firstCompleted (done ++ [o]) x.semantics = firstCompleted done x.semantics :=
    h.first_carried hunmatched hx
  have hsteps : t.1.steps = base ++
      context.proposedSteps.zipIdx.map (context.revisedRow roadmapId stepId (done ++ [o])) ++
      (carried ++ [(o, eventId)]).zipIdx.map (context.carriedRow roadmapId carriedId) := by
    rw [ht]
    change s.1.steps ++ _ = _
    rw [h.steps, List.map_congr_left fun x hx ↦ revisedRow_carried ho (hfirst
      (List.mem_of_getElem? (List.mem_zipIdx_iff_getElem?.mp hx))), List.zipIdx_append,
      List.map_append, List.append_assoc _ _ [_], h.count, h.position, Nat.zero_add]
    rfl
  have hids := nodup_ids hsteps
  have hevents (id : Uuid) := @completionEvent_append s.1 t.1 _ _ (by rw [ht]) id
  simp only [List.nodup_append, List.mem_append, List.mem_map, List.mem_range] at hids
  obtain ⟨-, -, hcarried⟩ := hids
  have hlast : progress.carried < (carried ++ [(o, eventId)]).length := by
    rw [h.count, List.length_append]
    exact Nat.lt_succ_self _
  have hsame {id : Uuid} (hne : id ≠ carriedId progress.carried) :
      t.1.completionEvent id = s.1.completionEvent id := by
    rw [hevents, if_neg hne.symm, Option.or_none]
  constructor
  case frame =>
    rw [ht, h.frame]
  case steps =>
    exact hsteps
  case count =>
    rw [List.length_append]
    exact congrArg (· + 1) h.count
  case position =>
    rw [List.length_append]
    exact congrArg (· + 1) h.position
  case preserved =>
    rw [completedOf_concat, if_pos ho, List.length_append]
    exact congrArg (· + 1) h.preserved
  case first =>
    intro x hx
    rw [hfirst hx]
    exact h.first x hx
  case split =>
    rw [completedOf_concat, if_pos ho, List.filterMap_congr fun x hx ↦ hfirst hx,
      List.map_append, ← List.append_assoc]
    exact h.split.append_right _
  case inherits =>
    intro i x hi hx
    rw [hevents]
    simp [h.inherits i x hi hx]
  case firstEvent =>
    intro i x d hi hd
    rw [hfirst (List.mem_of_getElem? hi)] at hd
    rw [hsame fun he ↦ hcarried _ (.inr ⟨i, (List.getElem?_eq_some_iff.mp hi).1, rfl⟩) _
      ⟨_, hlast, rfl⟩ he]
    exact h.firstEvent i x d hi hd
  case carriedEvent =>
    intro j c hj
    rcases Nat.lt_or_ge j carried.length with hj' | hj'
    · rw [List.getElem?_append_left hj'] at hj
      obtain ⟨hold, hc⟩ := h.carriedEvent j c hj
      exact ⟨by rw [hevents, hold, Option.some_or], hc⟩
    · rw [List.getElem?_append_right hj', List.getElem?_singleton] at hj
      split at hj
      · next hzero =>
        obtain rfl := Option.some.inj hj
        have hlength : j = progress.carried := by
          rw [h.count]
          omega
        refine ⟨Database.completionEvent_eq_some.mpr ?_, hevent⟩
        rw [ht, hlength]
        exact List.mem_append_right _ (List.mem_singleton.mpr rfl)
      · cases hj
  case baseEvent =>
    intro r hr
    rw [hsame fun he ↦ hcarried _ (.inl ⟨r, hr, rfl⟩) _ ⟨_, hlast, rfl⟩ he]
    exact h.baseEvent r hr

/-- A round keeps account of what was written. -/
theorem Preserved.round
    (h : Preserved context roadmapId stepId carriedId start base done carried progress s.1)
    (hsemantics : (context.proposedSteps.map (·.semantics)).Nodup)
    (hnewId : ∀ x ∈ context.proposedSteps, ∀ id, newId x.stepKey = some id →
      ∃ i, context.proposedSteps[i]? = some x ∧ stepId i = id)
    (hpre : (done ++ [o]) <+: context.oldSteps)
    (hround : PreserveEffect context roadmapId newId carriedId progress o s.1 progress' t.1) :
    ∃ carried', Preserved context roadmapId stepId carriedId start base (done ++ [o]) carried'
      progress' t.1 := by
  have hsemanticsOf {d : OldStep} (hd : d ∈ done ++ [o]) (hcompleted : d.row.state = .completed) :
      d.row.semantics ∈ context.completedSemantics :=
    List.mem_map_of_mem (List.mem_filter.mpr
      ⟨hpre.subset hd, decide_eq_true hcompleted⟩)
  have hdone : ∀ d ∈ completedOf done, d.row.semantics ∈ context.completedSemantics := by
    intro d hd
    obtain ⟨hmem, hcompleted⟩ := List.mem_filter.mp hd
    exact hsemanticsOf (List.mem_append_left _ hmem) (of_decide_eq_true hcompleted)
  generalize hu : t.1 = u at hround
  cases hround with
  | untouched hopen hnot =>
    refine ⟨carried, h.round_open hopen (h.steps.trans ?_)⟩
    congr 2
    exact List.map_congr_left fun x hx ↦ (revisedRow_untouched hopen hnot
      (List.mem_of_getElem? (List.mem_zipIdx_iff_getElem?.mp hx))).symm
  | retained hstarted hopen proposed hfound id hid =>
    obtain ⟨hmem, hsem⟩ := (matched_eq_some hsemantics).mp hfound
    obtain ⟨i, hi, rfl⟩ := hnewId proposed hmem id hid
    have hkey := s.2.steps.key
    rw [h.steps] at hkey
    refine ⟨carried, h.round_open (by rw [hstarted]; nofun) ?_⟩
    rw [h.steps]
    exact update_revisedRows hsemantics hkey hi hsem.symm
      (revisedRow_retained hstarted hopen hsem hdone)
  | matched hcompleted proposed hfound hfirst id hid eventId hevent =>
    obtain ⟨hmem, hsem⟩ := (matched_eq_some hsemantics).mp hfound
    obtain ⟨i, hi, rfl⟩ := hnewId proposed hmem id hid
    exact ⟨carried, h.round_matched hsemantics hcompleted
      (hsemanticsOf (List.mem_append_right _ List.mem_cons_self) hcompleted) hi hsem hfirst
      hevent rfl⟩
  | carried hcompleted hunmatched eventId hevent =>
    exact ⟨_, hu ▸ h.round_carried hcompleted hunmatched hevent hu⟩

end Preserving

end Jobtology.Store
