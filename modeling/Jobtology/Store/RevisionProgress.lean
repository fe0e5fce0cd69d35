import Jobtology.Store.RevisionRounds

/-!
# Progress across revisions

`apply_roadmap_revision` of `store.py` keeps the progress of the roadmap that it replaces: the new
roadmap has the same completions, and what it leaves open is the rest of the proposal.
-/

namespace Jobtology.Store

open Jobtology.Base Jobtology.Relational Jobtology.Time
open Jobtology.Relational.Transaction
open Jobtology.Weekly (StepState)

/-! ### Progress before and after a revision -/

/-- A completion: what it was about, when it was planned and the event that it is known from. -/
structure Completion where
  semantics : Semantics
  plannedStart : Option Int
  plannedEnd : Option Int
  eventId : Option Uuid
  deriving DecidableEq

/-- The completion of a completed step. -/
def Db.completion (db : Db) (r : StepRow) : Completion :=
  ⟨r.semantics, r.plannedStart, r.plannedEnd, db.completionEvent r.id⟩

/-- The completions of a roadmap. -/
def Db.completions (db : Db) (roadmapId : Uuid) : List Completion :=
  (db.steps.filter fun r ↦ r.roadmapId = roadmapId ∧ r.state = .completed).map db.completion

/-- A roadmap has a step with some semantics in some state. -/
def Db.HasStep (db : Db) (roadmapId : Uuid) (state : StepState) (semantics : Semantics) : Prop :=
  ∃ r ∈ db.steps, r.roadmapId = roadmapId ∧ r.state = state ∧ r.semantics = semantics

instance (db : Db) (roadmapId : Uuid) (state : StepState) (semantics : Semantics) :
    Decidable (db.HasStep roadmapId state semantics) :=
  inferInstanceAs (Decidable (∃ r ∈ db.steps, _))

/-- A step that is still to be done: its key, what it is about, its dates and its state. -/
structure OpenStep where
  stepKey : String
  semantics : Semantics
  plannedStart : Option Int
  plannedEnd : Option Int
  state : StepState
  deriving DecidableEq

/-- The steps of a roadmap that are still to be done. -/
def Db.openSteps (db : Db) (roadmapId : Uuid) : List OpenStep :=
  (db.steps.filter fun r ↦ r.roadmapId = roadmapId ∧ r.state ≠ .completed).map fun r ↦
    ⟨r.stepKey, r.semantics, r.plannedStart, r.plannedEnd, r.state⟩

/-- The steps of a proposal that a roadmap has not completed; those that it started stay
started. -/
def Db.remaining (db : Db) (roadmapId : Uuid) (steps : List ProposalStep) : List OpenStep :=
  (steps.filter fun x ↦ ¬ db.HasStep roadmapId .completed x.semantics).map fun x ↦
    ⟨x.stepKey, x.semantics, x.plannedStartAt, x.plannedEndAt,
      if db.HasStep roadmapId .inProgress x.semantics then .inProgress else .todo⟩

section Old

variable {db : Db} {roadmapId : Uuid} {context : RevisionContext}

private theorem perm_oldSteps (db : Db) (roadmapId : Uuid) :
    (db.oldSteps roadmapId).Perm ((db.steps.filter (·.roadmapId = roadmapId)).map db.oldStep) :=
  (List.perm_insertionSort stepPosition _).map _

/-- The old steps are those of the roadmap. -/
theorem mem_oldSteps {o : OldStep} :
    o ∈ db.oldSteps roadmapId ↔ ∃ r ∈ db.steps, r.roadmapId = roadmapId ∧ db.oldStep r = o := by
  rw [(perm_oldSteps db roadmapId).mem_iff]
  simp [List.mem_map, List.mem_filter, and_assoc]

/-- The completion that a completed old step stands for. -/
def OldStep.completion (o : OldStep) : Completion :=
  ⟨o.row.semantics, o.row.plannedStart, o.row.plannedEnd, o.completionEventId⟩

/-- The completions of a roadmap by the old steps of its revision. -/
theorem perm_completions (db : Db) (roadmapId : Uuid) :
    ((completedOf (db.oldSteps roadmapId)).map OldStep.completion).Perm
      (db.completions roadmapId) := by
  refine (((perm_oldSteps db roadmapId).filter _).map _).trans (.of_eq ?_)
  rw [List.filter_map, List.map_map, List.filter_filter]
  unfold Db.completions
  refine congrArg (List.map _) (List.filter_congr fun r _ ↦ Bool.eq_iff_iff.mpr ?_)
  simp only [Function.comp_apply, Bool.and_eq_true, decide_eq_true_eq]
  exact and_comm

private theorem hasStep_iff {state : StepState} {semantics : Semantics} :
    db.HasStep roadmapId state semantics ↔
      ∃ o ∈ db.oldSteps roadmapId, o.row.state = state ∧ o.row.semantics = semantics := by
  simp only [mem_oldSteps]
  constructor
  · rintro ⟨r, hr, hroadmap, hstate, hsemantics⟩
    exact ⟨_, ⟨r, hr, hroadmap, rfl⟩, hstate, hsemantics⟩
  · rintro ⟨-, ⟨r, hr, hroadmap, rfl⟩, hstate, hsemantics⟩
    exact ⟨r, hr, hroadmap, hstate, hsemantics⟩

private theorem mem_completedSemantics {semantics : Semantics} :
    semantics ∈ context.completedSemantics ↔
      ∃ o ∈ context.oldSteps, o.row.state = .completed ∧ o.row.semantics = semantics := by
  unfold RevisionContext.completedSemantics completedOf
  simp [List.mem_map, List.mem_filter, and_assoc]

private theorem firstCompleted_ne_none {semantics : Semantics} :
    firstCompleted context.oldSteps semantics ≠ none ↔ semantics ∈ context.completedSemantics := by
  unfold firstCompleted RevisionContext.completedSemantics
  simp [List.find?_eq_none]

end Old

/-! ### The rows of a revision -/

section Final

variable {context : RevisionContext} {roadmapId id : Uuid} {stepId carriedId : Nat → Uuid}
  {start db : Db} {base : List StepRow} {carried : List (OldStep × Uuid)}
  {progress : PreservedProgress}

private theorem map_filter_eq_filterMap {α β : Type} {p : α → Bool} {g : α → β}
    {f : α → Option β} {xs : List α} (h : ∀ x ∈ xs, f x = if p x then some (g x) else none) :
    (xs.filter p).map g = xs.filterMap f := by
  induction xs with
  | nil => rfl
  | cons x xs ih =>
    have hrest := ih fun y hy ↦ h y (List.mem_cons_of_mem x hy)
    rw [List.filterMap_cons, h x List.mem_cons_self]
    by_cases hp : p x
    · simp [hp, hrest]
    · simp [hp, hrest]

private theorem filterMap_zipIdx {α β : Type} (f : α → Option β) (xs : List α) :
    xs.zipIdx.filterMap (fun x ↦ f x.1) = xs.filterMap f := by
  conv_rhs => rw [← List.zipIdx_map_fst 0 xs, List.filterMap_map]
  rfl

/-- The row of a proposed step after all rounds: completed when an old step completed it. -/
theorem revisedRow_final {x : ProposalStep × Nat} :
    context.revisedRow roadmapId stepId context.oldSteps x =
      match firstCompleted context.oldSteps x.1.semantics with
      | some o => { x.1.row roadmapId (stepId x.2) x.2 with
        state := .completed, plannedStart := o.row.plannedStart, plannedEnd := o.row.plannedEnd }
      | none => { x.1.row roadmapId (stepId x.2) x.2 with
        state := if ∃ o ∈ context.oldSteps,
            o.row.state = .inProgress ∧ o.row.semantics = x.1.semantics
          then .inProgress else .todo } := by
  unfold RevisionContext.revisedRow
  cases hfirst : firstCompleted context.oldSteps x.1.semantics with
  | some o => rfl
  | none =>
    have hin : x.1.semantics ∉ context.completedSemantics := fun hin ↦
      firstCompleted_ne_none.mpr hin hfirst
    unfold RevisionContext.openState
    rw [if_neg hin]

/-- The rows of the new roadmap are those of the proposed steps and the carried ones. -/
theorem filter_revised {p : StepRow → Bool} (h : db.steps = base ++
      context.proposedSteps.zipIdx.map (context.revisedRow roadmapId stepId context.oldSteps) ++
      carried.zipIdx.map (context.carriedRow roadmapId carriedId))
    (hbase : ∀ r ∈ base, p r = false) :
    db.steps.filter p =
      (context.proposedSteps.zipIdx.map
        (context.revisedRow roadmapId stepId context.oldSteps)).filter p ++
      (carried.zipIdx.map (context.carriedRow roadmapId carriedId)).filter p := by
  rw [h, List.filter_append, List.filter_append, List.filter_eq_nil_iff.mpr fun r hr ↦ by
    simp [hbase r hr], List.nil_append]

private theorem revisedRow_roadmapId (done : List OldStep) (x : ProposalStep × Nat) :
    (context.revisedRow roadmapId stepId done x).roadmapId = roadmapId := by
  unfold RevisionContext.revisedRow
  split <;> rfl

private theorem Preserved.completions
    (h : Preserved context roadmapId stepId carriedId start base context.oldSteps carried progress
      db) (hbase : ∀ r ∈ base, r.roadmapId ≠ roadmapId) :
    (db.completions roadmapId).Perm
      ((completedOf context.oldSteps).map OldStep.completion) := by
  have hproposed : ((context.proposedSteps.zipIdx.map
      (context.revisedRow roadmapId stepId context.oldSteps)).filter fun r ↦
        r.roadmapId = roadmapId ∧ r.state = .completed).map db.completion =
      (context.proposedSteps.filterMap (firstCompleted context.oldSteps ·.semantics)).map
        OldStep.completion := by
    rw [List.filter_map, List.map_map, List.map_filterMap, ← filterMap_zipIdx]
    refine map_filter_eq_filterMap fun x hx ↦ ?_
    rw [Function.comp_apply, Function.comp_apply, revisedRow_final]
    cases hfirst : firstCompleted context.oldSteps x.1.semantics with
    | some o =>
      have hevent := h.firstEvent x.2 x.1 o (List.mem_zipIdx_iff_getElem?.mp hx) hfirst
      have hsemantics := (firstCompleted_some hfirst).2
      rw [if_pos, Option.map_some]
      · refine congrArg some ?_
        unfold OldStep.completion Db.completion
        rw [hsemantics, ← hevent]
        rfl
      · exact decide_eq_true ⟨rfl, rfl⟩
    | none =>
      rw [if_neg]
      · rfl
      · rw [decide_eq_true_eq]
        rintro ⟨-, hstate⟩
        change (if _ then StepState.inProgress else StepState.todo) = _ at hstate
        split at hstate <;> cases hstate
  have hcarried : ((carried.zipIdx.map (context.carriedRow roadmapId carriedId)).filter fun r ↦
        r.roadmapId = roadmapId ∧ r.state = .completed).map db.completion =
      (carried.map (·.1)).map OldStep.completion := by
    rw [List.filter_eq_self.mpr, List.map_map, List.map_map]
    · conv_rhs => rw [← List.zipIdx_map_fst 0 carried, List.map_map]
      refine List.map_congr_left fun c hc ↦ ?_
      obtain ⟨hevent, hold⟩ := h.carriedEvent c.2 c.1 (List.mem_zipIdx_iff_getElem?.mp hc)
      rw [Function.comp_apply, Function.comp_apply, Function.comp_apply]
      unfold OldStep.completion Db.completion
      rw [hold, ← hevent]
      rfl
    · intro r hr
      obtain ⟨c, -, rfl⟩ := List.mem_map.mp hr
      exact decide_eq_true ⟨rfl, rfl⟩
  unfold Db.completions
  rw [filter_revised h.steps fun r hr ↦ by simp [hbase r hr], List.map_append, hproposed,
    hcarried, ← List.map_append]
  exact (h.split.map _).symm

private theorem Preserved.openSteps
    (h : Preserved context roadmapId stepId carriedId start base context.oldSteps carried progress
      db) (hbase : ∀ r ∈ base, r.roadmapId ≠ roadmapId) :
    db.openSteps roadmapId = (context.proposedSteps.filter fun x ↦
      x.semantics ∉ context.completedSemantics).map fun x ↦
        ⟨x.stepKey, x.semantics, x.plannedStartAt, x.plannedEndAt,
          if ∃ o ∈ context.oldSteps, o.row.state = .inProgress ∧ o.row.semantics = x.semantics
            then .inProgress else .todo⟩ := by
  have hcarried : (carried.zipIdx.map (context.carriedRow roadmapId carriedId)).filter (fun r ↦
      r.roadmapId = roadmapId ∧ r.state ≠ .completed) = [] := by
    refine List.filter_eq_nil_iff.mpr fun r hr ↦ ?_
    obtain ⟨c, -, rfl⟩ := List.mem_map.mp hr
    simp [RevisionContext.carriedRow]
  unfold Db.openSteps
  rw [filter_revised h.steps fun r hr ↦ by simp [hbase r hr], hcarried, List.append_nil,
    List.filter_map, List.map_map]
  refine (map_filter_eq_filterMap fun x hx ↦ ?_).trans
    ((filterMap_zipIdx _ _).trans (map_filter_eq_filterMap fun x hx ↦ rfl).symm)
  rw [Function.comp_apply, Function.comp_apply, revisedRow_final]
  cases hfirst : firstCompleted context.oldSteps x.1.semantics with
  | some o =>
    have hin := firstCompleted_ne_none.mp (hfirst ▸ Option.some_ne_none o)
    rw [if_neg (by simp [hin]), if_neg (by simp)]
  | none =>
    have hin : x.1.semantics ∉ context.completedSemantics := fun hin ↦
      firstCompleted_ne_none.mpr hin hfirst
    rw [if_pos (decide_eq_true hin)]
    refine Eq.symm (if_pos (decide_eq_true ⟨rfl, ?_⟩))
    change (if _ then StepState.inProgress else StepState.todo) ≠ _
    split <;> nofun

end Final

/-! ### The stages of a revision -/

section Stages

variable {context : RevisionContext} {request : RoadmapRevisionApply} {draw : RevisionDraw}
  {now : Int} {s t : Database}

/-- The creation that a revision makes. -/
def RoadmapRevisionApply.creation (request : RoadmapRevisionApply) (context : RevisionContext)
    (draw : RevisionDraw) : RoadmapCreate where
  userId := request.userId
  roadmapId := draw.roadmapId
  goalId := context.roadmap.goalId
  proposalId := request.proposalId
  title := (request.title.filter (· ≠ "")).getD context.roadmap.title
  profileVersion := request.expectedProfileVersion

/-- The activation that a revision ends with. -/
def RoadmapRevisionApply.activation (request : RoadmapRevisionApply) (draw : RevisionDraw) :
    RoadmapMutation where
  userId := request.userId
  roadmapId := draw.roadmapId
  expectedRoadmapVersion := 1
  expectedProfileVersion := request.expectedProfileVersion
  state := .active
  title := none

private theorem lockAccount_state {googleAccountsOnly : Bool} {userId : Uuid} {u : Unit}
    (h : Yields (lockAccount googleAccountsOnly userId) s u t) : t = s := by
  unfold lockAccount at h
  simp only [yields_query_bind, ↓yields_require_bind, yields_require] at h
  exact h.2.2.symm

/-- A revision that is applied was not blocked: it creates the roadmap, preserves the progress and
activates what it created. -/
theorem applyRoadmapRevision_spec {googleAccountsOnly : Bool} {applied : RoadmapRevisionApplied}
    (h : Yields (applyRoadmapRevision googleAccountsOnly request draw now) s applied t) :
    ∃ context proposal analysis profile goal roadmap s₁ s₂,
      RevisionLoaded request.userId request.roadmapId request.proposalId now proposal analysis
        profile goal context s.1 ∧
      context.blockingReasons = [] ∧
      RoadmapCreated (request.creation context draw) draw.stepId now proposal analysis s.1 s₁.1 ∧
      Yields (preserveRevisionProgress context draw.roadmapId draw.carriedId now) s₁
        applied.preservedCompletedCount s₂ ∧
      RoadmapMutated (request.activation draw) now roadmap s₂.1 t.1 := by
  unfold applyRoadmapRevision at h
  obtain ⟨s', hlock, hafter⟩ := yields_seq.mp h
  rw [lockAccount_state hlock] at hafter
  obtain ⟨context, s₀, hload, hafter⟩ := yields_bind.mp hafter
  obtain ⟨hsame, proposal, analysis, profile, goal, hloaded⟩ := loadRevision_spec hload
  rw [hsame] at hafter
  simp only [↓yields_require_bind] at hafter
  obtain ⟨-, hnone, hafter⟩ := hafter
  obtain ⟨created, s₁, hcreate, hafter⟩ := yields_bind.mp hafter
  obtain ⟨rfl, proposal', analysis', hcreated⟩ := createRoadmap_spec hcreate
  obtain ⟨preserved, s₂, hpreserve, hafter⟩ := yields_bind.mp hafter
  obtain ⟨activated, s₃, hactivate, hafter⟩ := yields_bind.mp hafter
  obtain ⟨rfl, rfl⟩ := yields_pure.mp hafter
  obtain ⟨-, roadmap, hmutated⟩ := mutateRoadmap_spec hactivate
  obtain ⟨rfl, rfl⟩ := Prod.mk.inj (Option.some.inj (hcreated.own.symm.trans hloaded.own))
  exact ⟨context, proposal', analysis', profile, goal, roadmap, s₁, s₂, hloaded, hnone, hcreated,
    hpreserve, hmutated⟩

/-- The ids of the new steps by key, as the rounds look them up. -/
def Db.newId (db : Db) (roadmapId : Uuid) (key : String) : Option Uuid :=
  (lookupLast (·.stepKey) (db.steps.filter (·.roadmapId = roadmapId)) key).map (·.id)

/-- Preserving makes its rounds; what it writes after them leaves the steps, their completions, the
events and the capabilities. -/
theorem preserveRevisionProgress_spec {roadmapId : Uuid} {carriedId : Nat → Uuid} {count : Nat}
    (h : Yields (preserveRevisionProgress context roadmapId carriedId now) s count t) :
    ∃ progress u, Yields (context.oldSteps.foldlM
        (preserveStep context roadmapId (s.1.newId roadmapId) carriedId)
        ⟨(s.1.steps.filter (·.roadmapId = roadmapId)).length, 0, 0, [], [], []⟩) s progress u ∧
      count = progress.preserved ∧ t.1.steps = u.1.steps ∧
      t.1.inheritances = u.1.inheritances ∧ t.1.events = u.1.events ∧
      t.1.capabilities = u.1.capabilities ∧
      ∀ m ∈ u.1.roadmaps, (∃ m' ∈ t.1.roadmaps, m'.id = m.id ∧ m'.userId = m.userId) ∧
        (m.id ≠ roadmapId → m ∈ t.1.roadmaps) := by
  unfold preserveRevisionProgress at h
  rw [yields_query_bind] at h
  obtain ⟨progress, u, hrounds, h⟩ := yields_bind.mp h
  obtain ⟨u₁, hvalidity, h⟩ := yields_seq.mp h
  obtain ⟨u₂, hoverrides, h⟩ := yields_seq.mp h
  obtain ⟨rfl, rfl⟩ := yields_pure.mp h
  have hsame : u₂.1 = { u₁.1 with overrides := u₂.1.overrides } := by
    rcases yields_when.mp hoverrides with ⟨-, hwrite⟩ | ⟨-, rfl⟩
    · rw [← yields_statement.mp hwrite]
    · rfl
  rw [hsame, ← yields_statement.mp hvalidity]
  exact ⟨progress, u, hrounds, rfl, rfl, rfl, rfl, rfl, fun m hm ↦
    ⟨exists_mem_update ⟨m, hm, rfl, rfl⟩ fun _ hr ↦ hr, fun hne ↦ mem_update.mpr (.inl ⟨hm, hne⟩)⟩⟩

/-- The completed steps that a revision inherits from are those of the roadmap it replaces. -/
theorem inheritable_iff {proposal : ProposalRow} {analysis : AnalysisRow}
    {profile : ProfileRow} {goal : GoalRow}
    (h : RevisionLoaded request.userId request.roadmapId request.proposalId now proposal analysis
      profile goal context s.1) (hnone : context.blockingReasons = []) (semantics : Semantics) :
    (∃ c ∈ (request.creation context draw).inheritable s.1, c.1.semantics = semantics) ↔
      semantics ∈ context.completedSemantics := by
  obtain ⟨hactive, hverified, -⟩ := h.unblocked hnone
  obtain ⟨hroadmap, hid, huser⟩ := h.roadmap
  have hfound : s.1.activeRoadmapOf request.userId context.roadmap.goalId =
      some context.roadmap := by
    cases hfind : s.1.activeRoadmapOf request.userId context.roadmap.goalId with
    | none => simpa [huser, hactive] using List.find?_eq_none.mp hfind context.roadmap hroadmap
    | some r =>
      have hr := List.find?_some hfind
      rw [decide_eq_true_eq] at hr
      rw [s.2.roadmaps.oneActivePerUser.eq_of_mem (List.mem_of_find?_eq_some hfind) hr.2.2
        hroadmap hactive (hr.1.trans huser.symm)]
  have hinheritable : (request.creation context draw).inheritable s.1 =
      s.1.completedSteps request.roadmapId := by
    unfold RoadmapCreate.inheritable
    change ((s.1.activeRoadmapOf request.userId context.roadmap.goalId).map _).getD [] = _
    rw [hfound, ← hid]
    rfl
  rw [hinheritable, mem_completedSemantics, h.oldSteps]
  constructor
  · rintro ⟨c, hc, rfl⟩
    obtain ⟨hmem, hcroadmap, hstate, -⟩ := mem_completedSteps hc
    exact ⟨_, mem_oldSteps.mpr ⟨c.1, hmem, hcroadmap, rfl⟩, hstate, rfl⟩
  · rintro ⟨o, ho, hstate, rfl⟩
    obtain ⟨e, he, -⟩ := hverified o (List.mem_filter.mpr
      ⟨h.oldSteps ▸ ho, decide_eq_true hstate⟩)
    obtain ⟨r, hr, hrroadmap, rfl⟩ := mem_oldSteps.mp ho
    obtain ⟨eventId, hevent, -⟩ := Option.bind_eq_some_iff.mp he
    obtain ⟨i, hi, rfl⟩ := Option.map_eq_some_iff.mp hevent
    refine ⟨(r, i.originalCompletionEventId), List.mem_filterMap.mpr
      ⟨r, List.mem_filter.mpr ⟨hr, decide_eq_true ⟨hrroadmap, hstate⟩⟩, ?_⟩, rfl⟩
    rw [hi, Option.map_some]

/-- The rounds start with the roadmap as it was created. -/
theorem preserved_start {creation : RoadmapCreate} {proposal : ProposalRow}
    {analysis : AnalysisRow} {stepId carriedId : Nat → Uuid}
    (h : RoadmapCreated creation stepId now proposal analysis s.1 t.1)
    (hproposed : context.proposedSteps = proposal.steps)
    (hinheritable : ∀ semantics, (∃ c ∈ creation.inheritable s.1, c.1.semantics = semantics) ↔
      semantics ∈ context.completedSemantics) :
    Preserved context creation.roadmapId stepId carriedId
      { t.1 with inheritances := s.1.inheritances } s.1.steps [] []
      ⟨(t.1.steps.filter (·.roadmapId = creation.roadmapId)).length, 0, 0, [], [], []⟩ t.1 := by
  have hinherits {i : Nat} {x : ProposalStep} (hi : proposal.steps[i]? = some x) :
      stepId i ∈ (creation.inherited stepId proposal.steps s.1).map (·.stepId) ↔
        x.semantics ∈ context.completedSemantics :=
    (mem_inherited_iff h.fresh h.storable.keys hi).trans (hinheritable _)
  have hinheritances : t.1.inheritances =
      s.1.inheritances ++ creation.inherited stepId proposal.steps s.1 := by rw [h.written]
  constructor
  case frame => exact rfl
  case steps =>
    rw [h.steps_eq, hproposed, List.zipIdx_nil, List.map_nil, List.append_nil]
    refine congrArg (s.1.steps ++ ·) ?_
    unfold completeSteps update stepRows
    rw [List.map_map]
    refine List.map_congr_left fun ⟨x, i⟩ hx ↦ ?_
    have hiff : (x.row creation.roadmapId (stepId i) i).id ∈
        (creation.inherited stepId proposal.steps s.1).map (·.stepId) ↔
          x.semantics ∈ context.completedSemantics :=
      hinherits (List.mem_zipIdx_iff_getElem?.mp hx)
    have hrow : context.revisedRow creation.roadmapId stepId [] (x, i) =
        { x.row creation.roadmapId (stepId i) i with
          state := context.openState [] x.semantics } := rfl
    rw [Function.comp_apply, hrow]
    unfold RevisionContext.openState
    by_cases hin : x.semantics ∈ context.completedSemantics
    · rw [if_pos hin]
      exact if_pos (hiff.mpr hin)
    · have hstarted : ¬ ∃ o ∈ ([] : List OldStep),
          o.row.state = .inProgress ∧ o.row.semantics = x.semantics := by simp
      rw [if_neg hin, if_neg hstarted]
      exact if_neg (hiff.not.mpr hin)
  case count => exact rfl
  case position =>
    have hlength := congrArg List.length h.rows_eq
    rw [hproposed, hlength]
    simp [completeSteps, update, stepRows]
  case preserved => exact rfl
  case first =>
    intro x _
    simp [firstCompleted, completedOf]
  case split =>
    simp [firstCompleted, completedOf]
  case inherits =>
    intro i x hi hx
    rw [hproposed] at hi
    obtain ⟨row, hrow, hid⟩ := List.mem_map.mp ((hinherits hi).mpr hx)
    unfold Db.completionEvent
    rw [ne_eq, Option.map_eq_none_iff, lookup_eq_none]
    exact fun hnone ↦ hnone row (hinheritances ▸ List.mem_append_right _ hrow) hid
  case firstEvent =>
    intro i x o _ ho
    cases ho
  case carriedEvent =>
    intro j c hj
    cases hj
  case baseEvent =>
    intro r hr
    exact h.completionEvent_old hr

/-- The ids that the rounds look up are those of the proposed steps. -/
theorem newId_created {creation : RoadmapCreate} {proposal : ProposalRow}
    {analysis : AnalysisRow} {stepId : Nat → Uuid}
    (h : RoadmapCreated creation stepId now proposal analysis s.1 t.1) {x : ProposalStep}
    (hx : x ∈ proposal.steps) {id : Uuid} (hid : t.1.newId creation.roadmapId x.stepKey = some id) :
    ∃ i, proposal.steps[i]? = some x ∧ stepId i = id := by
  obtain ⟨r, hr, rfl⟩ := Option.map_eq_some_iff.mp hid
  obtain ⟨hmem, hkey⟩ := lookupLast_some hr
  obtain ⟨hmem, hroadmap⟩ := List.mem_filter.mp hmem
  obtain ⟨y, hy, hyid, hykey, -⟩ := h.row_of_mem hmem (of_decide_eq_true hroadmap)
  obtain rfl := List.inj_on_of_nodup_map h.storable.keys (List.mem_of_getElem? hy) hx
    (hykey.symm.trans hkey)
  exact ⟨_, hy, hyid.symm⟩

/-- After an activation the roadmap is the only active one of its user. -/
theorem RoadmapMutated.active_iff {mutation : RoadmapMutation} {roadmap : RoadmapRow}
    (h : RoadmapMutated mutation now roadmap s.1 t.1) (hstate : mutation.state = .active)
    {r : RoadmapRow} (hr : r ∈ t.1.roadmaps) (huser : r.userId = mutation.userId) :
    r.state = .active ↔ r.id = mutation.roadmapId := by
  rw [h.written] at hr
  change r ∈ mutation.roadmapsAfter s.1.roadmaps at hr
  unfold RoadmapMutation.roadmapsAfter RoadmapMutation.archiveOthers at hr
  rw [if_pos hstate] at hr
  rcases mem_update.mp hr with ⟨hr, hnot⟩ | ⟨y, -, hmatches, rfl⟩
  · rcases mem_update.mp hr with ⟨hr, hkept⟩ | ⟨z, -, ⟨-, -, hid⟩, rfl⟩
    · refine ⟨fun hactive ↦ ?_, fun hid ↦ ?_⟩
      · by_contra hne
        exact hkept ⟨huser, hactive, hne⟩
      · obtain rfl := s.2.roadmaps.key.eq_of_mem hr h.found (hid.trans h.matched.1.symm)
        exact absurd h.matched hnot
    · exact ⟨nofun, fun h ↦ absurd h hid⟩
  · exact ⟨fun _ ↦ hmatches.1, fun _ ↦ hstate⟩

/-- An activation archives the user's active roadmaps and leaves the others. -/
theorem RoadmapMutated.kept {mutation : RoadmapMutation} {roadmap : RoadmapRow}
    (h : RoadmapMutated mutation now roadmap s.1 t.1) (hstate : mutation.state = .active)
    {r : RoadmapRow} (hr : r ∈ s.1.roadmaps) (hne : r.id ≠ mutation.roadmapId) :
    r ∈ t.1.roadmaps ∨ r.userId = mutation.userId ∧ r.state = .active ∧
      { r with state := .archived, version := r.version + 1 } ∈ t.1.roadmaps := by
  rw [h.written]
  change r ∈ mutation.roadmapsAfter s.1.roadmaps ∨
    _ ∧ _ ∧ _ ∈ mutation.roadmapsAfter s.1.roadmaps
  unfold RoadmapMutation.roadmapsAfter RoadmapMutation.archiveOthers
  rw [if_pos hstate]
  by_cases hactive : r.userId = mutation.userId ∧ r.state = .active
  · exact .inr ⟨hactive.1, hactive.2, mem_update.mpr (.inl ⟨mem_update.mpr
      (.inr ⟨r, hr, ⟨hactive.1, hactive.2, hne⟩, rfl⟩), fun hmatches ↦ hne hmatches.1⟩)⟩
  · exact .inl (mem_update.mpr (.inl ⟨mem_update.mpr
      (.inl ⟨hr, fun hmatches ↦ hactive ⟨hmatches.1, hmatches.2.1⟩⟩),
        fun hmatches ↦ hne hmatches.1⟩))

end Stages

/-! ### Revisions keep progress -/

/-- What a revision makes of the progress of a roadmap. -/
structure ProgressKept (request : RoadmapRevisionApply) (newRoadmapId : Uuid) (count : Nat)
    (steps : List ProposalStep) (s t : Db) : Prop where
  /-- The new roadmap has every completion of the old one, once, and no other. -/
  completions : (t.completions newRoadmapId).Perm (s.completions request.roadmapId)
  counted : count = (s.completions request.roadmapId).length
  /-- What is left to do is the rest of the proposal. -/
  remaining : t.openSteps newRoadmapId = s.remaining request.roadmapId steps
  /-- The roadmaps that were there keep what they have. -/
  history : ∀ id ≠ newRoadmapId,
    t.completions id = s.completions id ∧ t.openSteps id = s.openSteps id
  steps : ∀ r ∈ s.steps, r ∈ t.steps
  /-- So do their rows, but that the user's active roadmap is archived. -/
  roadmaps : ∀ r ∈ s.roadmaps, r ∈ t.roadmaps ∨ r.userId = request.userId ∧ r.state = .active ∧
    { r with state := .archived, version := r.version + 1 } ∈ t.roadmaps
  /-- No event is made up, and no credit given. -/
  events : t.events = s.events
  capabilities : t.capabilities = s.capabilities
  active : ∀ r ∈ t.roadmaps, r.userId = request.userId →
    (r.state = .active ↔ r.id = newRoadmapId)

private theorem completions_congr {s t : Db} (hsteps : t.steps = s.steps)
    (hinheritances : t.inheritances = s.inheritances) (id : Uuid) :
    t.completions id = s.completions id := by
  have hcompletion : t.completion = s.completion := by
    funext r
    unfold Db.completion Db.completionEvent
    rw [hinheritances]
  unfold Db.completions
  rw [hsteps, hcompletion]

private theorem openSteps_congr {s t : Db} (hsteps : t.steps = s.steps) (id : Uuid) :
    t.openSteps id = s.openSteps id := by
  unfold Db.openSteps
  rw [hsteps]

private theorem Preserved.history {context : RevisionContext} {roadmapId : Uuid}
    {stepId carriedId : Nat → Uuid} {start s db : Db} {done : List OldStep}
    {carried : List (OldStep × Uuid)} {progress : PreservedProgress}
    (h : Preserved context roadmapId stepId carriedId start s.steps done carried progress db)
    (hstart : start.inheritances = s.inheritances) {id : Uuid} (hne : id ≠ roadmapId) :
    db.completions id = s.completions id ∧ db.openSteps id = s.openSteps id := by
  have hfilter (p : StepRow → Bool) (hp : ∀ r, r.roadmapId = roadmapId → p r = false) :
      db.steps.filter p = s.steps.filter p := by
    have hrevised : (context.proposedSteps.zipIdx.map
        (context.revisedRow roadmapId stepId done)).filter p = [] := by
      refine List.filter_eq_nil_iff.mpr fun r hr ↦ ?_
      obtain ⟨c, -, rfl⟩ := List.mem_map.mp hr
      simp [hp _ (revisedRow_roadmapId done c)]
    have hcarried : (carried.zipIdx.map
        (context.carriedRow roadmapId carriedId)).filter p = [] := by
      refine List.filter_eq_nil_iff.mpr fun r hr ↦ ?_
      obtain ⟨c, -, rfl⟩ := List.mem_map.mp hr
      simp [hp (context.carriedRow roadmapId carriedId c) rfl]
    rw [h.steps, List.filter_append, List.filter_append, hrevised, hcarried, List.append_nil,
      List.append_nil]
  unfold Db.completions Db.openSteps
  rw [hfilter _ fun r hr ↦ by simp [hr, hne.symm], hfilter _ fun r hr ↦ by simp [hr, hne.symm]]
  refine ⟨List.map_congr_left fun r hr ↦ ?_, rfl⟩
  unfold Db.completion
  rw [h.baseEvent r (List.mem_of_mem_filter hr)]
  unfold Db.completionEvent
  rw [hstart]

/-- A revision by a proposal whose steps differ in what they are about keeps the progress of the
roadmap: it loses no completion and makes up none, and what it leaves open is the rest of the
proposal. `src/jobtology_be/infrastructure/persistence/store.py:676–714`,
`src/jobtology_be/infrastructure/persistence/roadmap_revisions.py:264–354`. -/
theorem revision_keeps_progress {googleAccountsOnly : Bool} {request : RoadmapRevisionApply}
    {draw : RevisionDraw} {now : Int} {s t : Database} {applied : RoadmapRevisionApplied}
    {proposal : ProposalRow}
    (h : Yields (applyRoadmapRevision googleAccountsOnly request draw now) s applied t)
    (hproposal : proposal ∈ s.1.proposals) (hid : proposal.id = request.proposalId)
    (hdistinct : (proposal.steps.map (·.semantics)).Nodup) :
    ProgressKept request draw.roadmapId applied.preservedCompletedCount proposal.steps s.1 t.1 := by
  obtain ⟨context, proposal', analysis, profile, goal, roadmap, s₁, s₂, hloaded, hnone, hcreated,
    hpreserve, hmutated⟩ := applyRoadmapRevision_spec h
  obtain ⟨hproposal', hid', -⟩ := ownProposal_spec hcreated.own
  obtain rfl : proposal' = proposal :=
    s.2.proposals.key.eq_of_mem hproposal' hproposal (hid'.trans hid.symm)
  have hproposed := hloaded.proposedSteps
  have hsemantics : (context.proposedSteps.map (·.semantics)).Nodup := hproposed ▸ hdistinct
  obtain ⟨progress, u, hrounds, hcount, hsteps, hinheritances, hevents, hcapabilities,
    hroadmaps⟩ := preserveRevisionProgress_spec hpreserve
  obtain ⟨carried, hkept⟩ := Yields.foldlM_induction
    (P := fun done progress (db : Database) ↦ ∃ carried, Preserved context draw.roadmapId
      draw.stepId draw.carriedId { s₁.1 with inheritances := s.1.inheritances } s.1.steps done
      carried progress db.1)
    (fun done o p a q b hpre ⟨carried, hp⟩ hround ↦ hp.round hsemantics
      (fun x hx id hid ↦ hproposed ▸ newId_created hcreated (hproposed ▸ hx) hid) hpre
      (preserveStep_spec hround))
    ⟨[], preserved_start hcreated hproposed (inheritable_iff hloaded hnone)⟩ hrounds
  have hbase : ∀ r ∈ s.1.steps, r.roadmapId ≠ draw.roadmapId := by
    intro r hr hrid
    obtain ⟨row, hrow, hrowId⟩ := s.2.steps.roadmap r hr
    exact hcreated.fresh.roadmap row hrow (hrowId.trans hrid)
  have hsteps' : t.1.steps = u.1.steps := by rw [hmutated.written, ← hsteps]
  have hinheritances' : t.1.inheritances = u.1.inheritances := by
    rw [hmutated.written, ← hinheritances]
  have hperm := hkept.completions hbase
  rw [hloaded.oldSteps] at hperm
  have hall := perm_completions s.1 request.roadmapId
  constructor
  case completions =>
    rw [completions_congr hsteps' hinheritances']
    exact hperm.trans hall
  case counted =>
    rw [hcount, hkept.preserved, hloaded.oldSteps, ← hall.length_eq, List.length_map]
  case remaining =>
    rw [openSteps_congr hsteps', hkept.openSteps hbase, hproposed]
    unfold Db.remaining
    simp only [hasStep_iff, mem_completedSemantics, hloaded.oldSteps]
  case history =>
    intro id hne
    rw [completions_congr hsteps' hinheritances', openSteps_congr hsteps']
    exact hkept.history rfl hne
  case steps =>
    intro r hr
    rw [hsteps', hkept.steps, List.append_assoc]
    exact List.mem_append_left _ hr
  case roadmaps =>
    intro r hr
    have hne : r.id ≠ draw.roadmapId := hcreated.fresh.roadmap r hr
    have hmem : r ∈ u.1.roadmaps := by
      rw [hkept.frame]
      change r ∈ s₁.1.roadmaps
      rw [hcreated.written]
      exact List.mem_append_left _ hr
    exact hmutated.kept rfl ((hroadmaps r hmem).2 hne) hne
  case events =>
    have hwritten : t.1.events = u.1.events := by rw [hmutated.written, ← hevents]
    rw [hwritten, hkept.frame]
    change s₁.1.events = s.1.events
    rw [hcreated.written]
  case capabilities =>
    have hwritten : t.1.capabilities = u.1.capabilities := by
      rw [hmutated.written, ← hcapabilities]
    rw [hwritten, hkept.frame]
    change s₁.1.capabilities = s.1.capabilities
    rw [hcreated.written]
  case active => exact fun r hr huser ↦ hmutated.active_iff rfl hr huser

/-- A roadmap with a completed step and a started one, and a proposal that keeps only the latter
of them. -/
def revisionDb : Db :=
  { users := [⟨1, true, none⟩]
    profiles := [⟨1, 1, some 20⟩]
    events := [⟨70, 1, 60, 1, .stepCompleted, ⟨some [], none⟩⟩]
    goals := [⟨10, 1, .targeted, some "o", 0, "UTC", .active⟩]
    analyses := [⟨20, 1, 10, 1, none, .ready, some "o", some "o"⟩]
    traces := [⟨30, 1⟩]
    proposals := [twoStepProposal, { twoStepProposal with
      id := 41, steps := twoStepProposal.steps.drop 1 |>.map fun x ↦
        { x with prerequisiteStepKeys := [] } }]
    roadmaps := [⟨50, 1, 10, 40, "route", .active, 2, 1, none, ⟨.absent, .absent, none, []⟩, 0⟩]
    steps := [
      ⟨60, 50, "a@1", 0, "a", 1, .completed, some 0, some hour, [], ["done"]⟩,
      ⟨61, 50, "b@1", 1, "b", 1, .inProgress, some hour, some (2 * hour),
        [⟨"r", "e", "R", []⟩], ["done"]⟩]
    inheritances := [⟨60, 70⟩] }

private theorem revisionDb_valid : Constraints revisionDb := by decide +kernel

/-- The completed step is carried on, and the started one stays started. -/
theorem revision_keeps_progress_carried :
    ∃ (applied : RoadmapRevisionApplied) (t : Database),
      Yields (applyRoadmapRevision false ⟨1, 50, 41, "", 2, 1, 0, none⟩
        ⟨51, (80 + ·), (90 + ·)⟩ 0) ⟨revisionDb, revisionDb_valid⟩ applied t ∧
      ProgressKept ⟨1, 50, 41, "", 2, 1, 0, none⟩ 51 applied.preservedCompletedCount
        (twoStepProposal.steps.drop 1 |>.map fun x ↦ { x with prerequisiteStepKeys := [] })
        revisionDb t.1 := by
  obtain ⟨⟨applied, t⟩, hyields⟩ := yields_of_isOk
    (show ((applyRoadmapRevision false ⟨1, 50, 41, "", 2, 1, 0, none⟩
      ⟨51, (80 + ·), (90 + ·)⟩ 0).run ⟨revisionDb, revisionDb_valid⟩).isOk by decide +kernel)
  exact ⟨_, _, hyields, revision_keeps_progress hyields
    (List.mem_cons_of_mem _ List.mem_cons_self) rfl (by decide)⟩

end Jobtology.Store
