import Jobtology.Workers.Batch
import Jobtology.Workers.RecomputeLaws

/-!
# What a failing item leaves to its batch

The turn of a work item ends with one transaction or none, unless its error is of a class that
`process_once` does not list. Under the laws of claimed work only the recompute of a payload raises
such an error, and none of a payload that is answerable.
-/

namespace Jobtology.Workers

open Jobtology.Base Jobtology.Corpus Jobtology.Planning Jobtology.Relational Jobtology.Store
open Jobtology.Time (hour)
open Jobtology.Relational.Transaction
open RecomputeSystem (act ClaimedLaws CanBeClaimed)

variable {worker : RecomputeWorker} {carryForward : CarryForward}

namespace Processed

/-- The system that the context is loaded from. -/
def atLoad (carryForward : CarryForward) (p : Processed) : RecomputeSystem :=
  run (act carryForward) p.start p.turn.beforeLoad

/-- The system that the result is finalized in. -/
def atFinalize (carryForward : CarryForward) (p : Processed) : RecomputeSystem :=
  run (act carryForward) (p.atLoad carryForward) p.turn.beforeFinalize

/-- The payload that is loaded is answerable. -/
def Answerable (worker : RecomputeWorker) (carryForward : CarryForward) (p : Processed) : Prop :=
  ∀ payload, loadRecomputeContext p.item (p.atLoad carryForward).db.1 (p.atLoad carryForward).now =
    .ok payload → worker.AnswerablePayload p.turn.draw payload

/-- The ids that the turn draws are new. -/
structure Fresh (carryForward : CarryForward) (p : Processed) : Prop where
  analysis : ∀ a ∈ (p.atFinalize carryForward).db.1.analyses, a.id ≠ p.turn.draw.analysisId
  proposal : ∀ q ∈ (p.atFinalize carryForward).db.1.proposals,
    q.id ≠ p.turn.draw.proposal.proposalId
  trace : ∀ t ∈ (p.atFinalize carryForward).db.1.traces, t.id ≠ p.turn.draw.proposal.traceId

/-- The turn ended well: the item is finalized, recorded as failed unless its records are gone, or
left as it was, to be claimed again. -/
def EndsWell (p : Processed) : Prop :=
  match p.outcome with
  | .finalized artifacts => Finalized p.item artifacts p.after.now p.before.1 p.after.db.1
  | .recorded errorCode => (p.after.db = p.before ∧
        ((∀ u ∈ p.before.1.users, u.id ≠ p.item.userId) ∨ p.before.1.erasedWork p.item)) ∨
      FailedWork p.item errorCode p.after.now p.before.1 p.after.db.1
  | .left => p.after.db = p.before ∧ ∀ r ∈ p.after.db.1.requests, r.id = p.item.requestId →
      ¬ r.state.Settled → CanBeClaimed p.after.db.1 r
  | .raised _ => False

/-- The turn ended well, and up to its last transaction only others wrote. -/
structure Spared (carryForward : CarryForward) (p : Processed) : Prop where
  ends : p.EndsWell
  others : ∃ actions, (run (act carryForward) p.start actions).db = p.before

end Processed

/-! ### Runs of the store -/

/-- The laws hold after every run, and what was handed out keeps what it holds. -/
theorem run_claimed (hcarries : CarriesGoal carryForward) {s : RecomputeSystem}
    (h : ClaimedLaws s) (actions : List StoreAction) :
    ClaimedLaws (run (act carryForward) s actions) ∧
      ∀ item ∈ s.leases, item ∈ (run (act carryForward) s actions).leases ∧
        ∀ P, s.db.1.handedOut item P →
          (run (act carryForward) s actions).db.1.handedOut item P := by
  refine run_induction (P := fun t ↦ ClaimedLaws t ∧ ∀ item ∈ s.leases, item ∈ t.leases ∧
    ∀ P, s.db.1.handedOut item P → t.db.1.handedOut item P) (fun t action ht ↦ ?_)
    ⟨h, fun _ hitem ↦ ⟨hitem, fun _ ↦ id⟩⟩ actions
  have hstep := RecomputeSystem.act_step hcarries ht.1 action
  obtain ⟨tokens, hfresh, hkept⟩ := hstep.leases
  refine ⟨hstep.claimedLaws ht.1, fun item hitem ↦ ?_⟩
  obtain ⟨hmem, hholds⟩ := ht.2 item hitem
  exact ⟨hstep.kept item hmem, fun P hP ↦ (hholds P hP).kept hkept (hfresh item hmem)⟩

private theorem claimedLaws_start : ClaimedLaws ⟨.empty, 0, []⟩ where
  laws := RecomputeSystem.workLaws_start
  runs _ hj := by cases hj
  goals _ hc := by cases hc
  handed _ hitem := by cases hitem

/-! ### The turn of one item -/

/-- What every turn keeps. -/
structure TurnKeeps (start : RecomputeSystem) (p : Processed) : Prop where
  laws : ClaimedLaws p.after
  leases : ∀ i ∈ start.leases, i ∈ p.after.leases

section Turn

variable {item : RecomputeWorkItem} {turn : Turn} {start s : RecomputeSystem}

/-- An open request of an item that is left can be claimed again. -/
theorem canBeClaimed_left (h : ClaimedLaws s) :
    ∀ r ∈ s.db.1.requests, r.id = item.requestId → ¬ r.state.Settled → CanBeClaimed s.db.1 r := by
  intro r hr _ hopen
  refine RecomputeSystem.canBeClaimed h.laws.tracked hr hopen ?_
  by_contra hnone
  exact hopen (.inr (h.laws.tracked.withoutContext r hr hnone).1)

private theorem handleError_names (e : RecomputeError) :
    (handleError carryForward item turn start s e).item = item ∧
      (handleError carryForward item turn start s e).turn = turn ∧
      (handleError carryForward item turn start s e).start = start := by
  unfold handleError
  split
  · exact ⟨rfl, rfl, rfl⟩
  · exact ⟨rfl, rfl, rfl⟩
  · dsimp only
    split <;> exact ⟨rfl, rfl, rfl⟩

private theorem processItem_names :
    (processItem worker carryForward item turn start).item = item ∧
      (processItem worker carryForward item turn start).turn = turn ∧
      (processItem worker carryForward item turn start).start = start := by
  unfold processItem
  dsimp only
  split
  · exact handleError_names _
  · split
    · exact handleError_names _
    · split
      · exact ⟨rfl, rfl, rfl⟩
      · exact handleError_names _

/-- A listed error is recorded or leaves the item. -/
theorem handleError_spec (hcarries : CarriesGoal carryForward) (h : ClaimedLaws s)
    (hitem : item ∈ s.leases) (hleases : ∀ i ∈ start.leases, i ∈ s.leases)
    (hreached : ∃ actions, run (act carryForward) start actions = s) (e : RecomputeError) :
    TurnKeeps start (handleError carryForward item turn start s e) ∧
      (e.Listed → (handleError carryForward item turn start s e).Spared carryForward) := by
  obtain ⟨actions, rfl⟩ := hreached
  cases hhandling : e.handling with
  | skip =>
    have hp : handleError carryForward item turn start (run (act carryForward) start actions) e =
        ⟨item, turn, start, .left, (run (act carryForward) start actions).db,
          run (act carryForward) start actions⟩ := by
      unfold handleError
      rw [hhandling]
    rw [hp]
    exact ⟨⟨h, hleases⟩, fun _ ↦ ⟨⟨rfl, canBeClaimed_left h⟩, actions, rfl⟩⟩
  | propagate =>
    have hp : handleError carryForward item turn start (run (act carryForward) start actions) e =
        ⟨item, turn, start, .raised e, (run (act carryForward) start actions).db,
          run (act carryForward) start actions⟩ := by
      unfold handleError
      rw [hhandling]
    rw [hp]
    exact ⟨⟨h, hleases⟩, fun hlisted ↦ absurd hhandling hlisted⟩
  | record errorCode =>
    obtain ⟨hlaws, hheld⟩ := run_claimed hcarries h turn.beforeFail
    have hitem' := (hheld item hitem).1
    have hleases' := fun i hi ↦ (hheld i (hleases i hi)).1
    have hreached : run (act carryForward) start (actions ++ turn.beforeFail) =
        run (act carryForward) (run (act carryForward) start actions) turn.beforeFail :=
      run_append _ _ _
    unfold handleError
    rw [hhandling]
    dsimp only
    generalize run (act carryForward) (run (act carryForward) start actions) turn.beforeFail = t
      at hlaws hitem' hleases' hreached
    cases hfail : (failRecompute item errorCode turn.failClock t.now).run t.db with
    | ok result =>
      have hstep := RecomputeSystem.act_step hcarries hlaws
        (.work (.fail item errorCode turn.failClock))
      have hafter : t.act carryForward (.work (.fail item errorCode turn.failClock)) =
          { t with db := result.2 } := by
        rw [RecomputeSystem.act_fail, commit, hfail]
      rw [hafter] at hstep
      refine ⟨⟨hstep.claimedLaws hlaws, hleases'⟩, fun _ ↦
        ⟨(failRecompute_ends hfail).imp_left id, _, congrArg (·.db) hreached⟩⟩
    | error error =>
      obtain ⟨resource, rfl⟩ := RecomputeSystem.failRecompute_raises hlaws hitem' hfail
      exact ⟨⟨hlaws, hleases'⟩, fun _ ↦
        ⟨⟨rfl, canBeClaimed_left hlaws⟩, _, congrArg (·.db) hreached⟩⟩

private theorem loadRecomputeContext_ok {db : Db} {now : Int} {payload : Store.RecomputeContext}
    (h : loadRecomputeContext item db now = .ok payload) :
    ∃ c ∈ db.contexts, c.requestId = item.requestId ∧ c.payload = payload := by
  unfold loadRecomputeContext at h
  cases hcontext : lookup (·.requestId) db.contexts item.requestId with
  | none =>
    rw [hcontext] at h
    cases h
  | some c =>
    rw [hcontext] at h
    dsimp only at h
    split at h
    · obtain ⟨hc, hid⟩ := lookup_some hcontext
      exact ⟨c, hc, hid, Except.ok.inj h⟩
    · cases h

private theorem loadRecomputeContext_error {db : Db} {now : Int} {e : PersistenceError}
    (h : loadRecomputeContext item db now = .error e) : (RecomputeError.persistence e).Listed := by
  have hconflict : e = .conflict "recompute context" := by
    unfold loadRecomputeContext at h
    split at h
    · split at h
      · cases h
      · exact (Except.error.inj h).symm
    · exact (Except.error.inj h).symm
  rw [hconflict]
  simp [RecomputeError.Listed, RecomputeError.handling]

/-- The turn of an item ends well when its payload is answerable. -/
theorem processItem_spec (hcarries : CarriesGoal carryForward) (h : ClaimedLaws start)
    (hitem : item ∈ start.leases) (hsound : SoundSolver turn.draw.solver)
    (hfresh : (processItem worker carryForward item turn start).Fresh carryForward) :
    TurnKeeps start (processItem worker carryForward item turn start) ∧
      ((processItem worker carryForward item turn start).Answerable worker carryForward →
        (processItem worker carryForward item turn start).Spared carryForward) := by
  obtain ⟨hnameItem, hnameTurn, hnameStart⟩ :=
    @processItem_names worker carryForward item turn start
  have hanswerable : (processItem worker carryForward item turn start).Answerable worker
      carryForward ↔ ∀ payload, loadRecomputeContext item
        (run (act carryForward) start turn.beforeLoad).db.1
        (run (act carryForward) start turn.beforeLoad).now = .ok payload →
          worker.AnswerablePayload turn.draw payload := by
    unfold Processed.Answerable Processed.atLoad
    rw [hnameItem, hnameTurn, hnameStart]
  have hnew : ∀ artifacts payload, worker.recompute turn.draw item payload = .ok artifacts →
      RecomputeSystem.FreshArtifacts artifacts (run (act carryForward)
        (run (act carryForward) start turn.beforeLoad) turn.beforeFinalize).db.1 := by
    intro artifacts payload hrecompute
    obtain ⟨-, hid, -, -, -, -, hproposal⟩ := RecomputeWorker.recompute_ok hrecompute
    obtain ⟨hanalysis, hproposals, htrace⟩ := hfresh
    unfold Processed.atFinalize Processed.atLoad at hanalysis hproposals htrace
    rw [hnameTurn, hnameStart] at hanalysis hproposals htrace
    refine ⟨fun a ha ↦ hid ▸ hanalysis a ha, fun p hp ↦ ?_⟩
    obtain ⟨hpid, hptrace⟩ := hproposal p hp
    exact ⟨fun q hq ↦ hpid ▸ hproposals q hq, fun t ht ↦ hptrace ▸ htrace t ht⟩
  obtain ⟨hlaws, hheld⟩ := run_claimed hcarries h turn.beforeLoad
  have hitem₁ := (hheld item hitem).1
  have hleases₁ := fun i hi ↦ (hheld i hi).1
  rw [hanswerable]
  clear hanswerable hfresh hnameItem hnameTurn hnameStart
  unfold processItem
  dsimp only
  cases hload : loadRecomputeContext item (run (act carryForward) start turn.beforeLoad).db.1
      (run (act carryForward) start turn.beforeLoad).now with
  | error e =>
    obtain ⟨hkeeps, hspared⟩ := @handleError_spec _ _ turn _ _ hcarries hlaws hitem₁ hleases₁
      ⟨turn.beforeLoad, rfl⟩ (.persistence e)
    exact ⟨hkeeps, fun _ ↦ hspared (loadRecomputeContext_error hload)⟩
  | ok payload =>
    dsimp only
    cases hrecompute : worker.recompute turn.draw item payload with
    | error e =>
      obtain ⟨hkeeps, hspared⟩ := @handleError_spec _ _ turn _ _ hcarries hlaws hitem₁ hleases₁
        ⟨turn.beforeLoad, rfl⟩ e
      exact ⟨hkeeps, fun hanswerable ↦
        hspared (RecomputeWorker.recompute_listed hsound (hanswerable payload rfl) hrecompute)⟩
    | ok artifacts =>
      -- from loading on the lease keeps the context, so the goal of the artifacts is still there
      obtain ⟨hgoal, -, -, -, hversion, -, -⟩ := RecomputeWorker.recompute_ok hrecompute
      obtain ⟨c, hc, hcid, rfl⟩ := loadRecomputeContext_ok hload
      have hholds : (run (act carryForward) start turn.beforeLoad).db.1.handedOut item
          fun context ↦ context.goalId = some artifacts.analysis.goalId := by
        intro j hj hjob hstate htoken
        refine ⟨(hlaws.handed item hitem₁ j hj hjob hstate htoken).1, fun c' hc' hid ↦ ?_⟩
        have hsame :=
          (run (act carryForward) start turn.beforeLoad).db.2.requests.contextKey.eq_of_mem
            hc' hc (hid.trans hcid.symm)
        rw [hsame, hgoal]
      obtain ⟨hlaws₂, hheld₂⟩ := run_claimed hcarries hlaws turn.beforeFinalize
      obtain ⟨hitem₂, hkept⟩ := hheld₂ item hitem₁
      have hholds₂ := hkept _ hholds
      have hfresh := hnew artifacts c.payload hrecompute
      have hleases₂ := fun i hi ↦ (hheld₂ i (hleases₁ i hi)).1
      have hreached : run (act carryForward) start (turn.beforeLoad ++ turn.beforeFinalize) =
          run (act carryForward) (run (act carryForward) start turn.beforeLoad)
            turn.beforeFinalize := run_append _ _ _
      dsimp only
      generalize run (act carryForward) (run (act carryForward) start turn.beforeLoad)
        turn.beforeFinalize = t at hlaws₂ hitem₂ hholds₂ hfresh hleases₂ hreached
      cases hfinalize : (finalizeRecompute item artifacts turn.finalizeClock t.now).run t.db with
      | ok result =>
        have hstep := RecomputeSystem.act_step hcarries hlaws₂
          (.work (.finalize item artifacts turn.finalizeClock))
        rw [RecomputeSystem.act_finalize, commit, hfinalize] at hstep
        exact ⟨⟨hstep.claimedLaws hlaws₂, hleases₂⟩, fun _ ↦
          ⟨finalizeRecompute_spec hfinalize, _, congrArg (·.db) hreached⟩⟩
      | error e =>
        obtain ⟨resource, rfl⟩ := RecomputeSystem.finalizeRecompute_raises hlaws₂ hitem₂ hfresh
          hversion hholds₂ hfinalize
        obtain ⟨hkeeps, hspared⟩ := @handleError_spec _ _ turn _ _ hcarries hlaws₂ hitem₂
          hleases₂ ⟨_, hreached⟩ (.persistence (.conflict resource))
        refine ⟨hkeeps, fun _ ↦ hspared ?_⟩
        simp [RecomputeError.Listed, RecomputeError.handling]

end Turn

/-! ### The batch -/

/-- The turns of a batch are those of its work. -/
theorem processOnce_turn {s : RecomputeSystem} {work : List (RecomputeWorkItem × Turn)}
    {p : Processed} (hp : p ∈ processOnce worker carryForward s work) :
    ∃ w ∈ work, p.turn = w.2 := by
  induction work generalizing s with
  | nil => cases hp
  | cons w rest ih =>
    obtain ⟨-, hturn, -⟩ := @processItem_names worker carryForward w.1 w.2 s
    unfold processOnce at hp
    dsimp only at hp
    split at hp
    · obtain rfl := List.mem_singleton.mp hp
      exact ⟨w, List.mem_cons_self, hturn⟩
    · rcases List.mem_cons.mp hp with rfl | hp
      · exact ⟨w, List.mem_cons_self, hturn⟩
      · obtain ⟨w', hw', hsame⟩ := ih hp
        exact ⟨w', List.mem_cons_of_mem _ hw', hsame⟩

/-- Every item of a batch is processed and ends well when every item that is reached is
answerable. -/
theorem processOnce_spec (hcarries : CarriesGoal carryForward) {s : RecomputeSystem}
    (h : ClaimedLaws s) {work : List (RecomputeWorkItem × Turn)}
    (hclaimed : ∀ w ∈ work, w.1 ∈ s.leases)
    (hsound : ∀ w ∈ work, SoundSolver w.2.draw.solver)
    (hfresh : ∀ p ∈ processOnce worker carryForward s work, p.Fresh carryForward)
    (hanswerable : ∀ p ∈ processOnce worker carryForward s work,
      p.Answerable worker carryForward) :
    (processOnce worker carryForward s work).map (·.item) = work.map (·.1) ∧
      ∀ p ∈ processOnce worker carryForward s work, p.Spared carryForward := by
  induction work generalizing s with
  | nil => simp [processOnce]
  | cons w rest ih =>
    obtain ⟨item, turn⟩ := w
    obtain ⟨hname, -, -⟩ := @processItem_names worker carryForward item turn s
    have hmem : processItem worker carryForward item turn s ∈
        processOnce worker carryForward s ((item, turn) :: rest) := by
      unfold processOnce
      dsimp only
      split <;> exact List.mem_cons_self
    obtain ⟨hkeeps, hspared⟩ := @processItem_spec worker _ _ _ _ hcarries h
      (hclaimed _ List.mem_cons_self) (hsound _ List.mem_cons_self) (hfresh _ hmem)
    have hspared := hspared (hanswerable _ hmem)
    unfold processOnce at hfresh hanswerable ⊢
    dsimp only at hfresh hanswerable ⊢
    split
    · next error hraised =>
      -- an error that is propagated would stop the batch
      have hends := hspared.ends
      unfold Processed.EndsWell at hends
      rw [hraised] at hends
      exact hends.elim
    · next hgoes =>
      have hrest : ∀ p ∈ processOnce worker carryForward
          (processItem worker carryForward item turn s).after rest,
          p.Fresh carryForward ∧ p.Answerable worker carryForward := by
        split at hfresh
        · next error hraised => exact absurd hraised (hgoes error)
        · split at hanswerable
          · next error hraised => exact absurd hraised (hgoes error)
          · exact fun p hp ↦ ⟨hfresh p (List.mem_cons_of_mem _ hp),
              hanswerable p (List.mem_cons_of_mem _ hp)⟩
      obtain ⟨hnames, hothers⟩ := ih hkeeps.laws
        (fun w hw ↦ hkeeps.leases _ (hclaimed w (List.mem_cons_of_mem _ hw)))
        (fun w hw ↦ hsound w (List.mem_cons_of_mem _ hw))
        (fun p hp ↦ (hrest p hp).1) (fun p hp ↦ (hrest p hp).2)
      rw [List.map_cons, List.map_cons, hname, hnames]
      exact ⟨rfl, List.forall_mem_cons.mpr ⟨hspared, hothers⟩⟩

/-- No failing item poisons a batch of claimed work whose payloads are answerable: each selects a
snapshot whose hours fit floats, and the solver accepts its models and selects no activity that
teaches a requirement that cannot be stored. `src/jobtology_be/workers/recompute.py:173–298`,
`src/jobtology_be/infrastructure/persistence/worker.py:63–315`,
`src/jobtology_be/workers/recompute_planning.py:14–63`,
`src/jobtology_be/planning/candidates.py:91–245`. -/
theorem processOnce_spares (hcarries : CarriesGoal carryForward) (worker : RecomputeWorker)
    (past : List StoreAction) (work : List (RecomputeWorkItem × Turn))
    (hclaimed : ∀ w ∈ work, w.1 ∈ (run (act carryForward) ⟨.empty, 0, []⟩ past).leases)
    (hsound : ∀ w ∈ work, SoundSolver w.2.draw.solver)
    (hfresh : ∀ p ∈ processOnce worker carryForward
      (run (act carryForward) ⟨.empty, 0, []⟩ past) work, p.Fresh carryForward)
    (hanswerable : ∀ p ∈ processOnce worker carryForward
      (run (act carryForward) ⟨.empty, 0, []⟩ past) work, p.Answerable worker carryForward) :
    let batch := processOnce worker carryForward (run (act carryForward) ⟨.empty, 0, []⟩ past) work
    batch.map (·.item) = work.map (·.1) ∧ ∀ p ∈ batch, p.Spared carryForward :=
  processOnce_spec hcarries (run_claimed hcarries claimedLaws_start past).1 hclaimed hsound hfresh
    hanswerable

/-! ### A requirement without a label -/

/-- An activity of one hour that teaches the requirement `r`. -/
def unlabeledTemplate : ActivityTemplate :=
  { actionId := "a", revision := 1, title := "a", estimatedHours := 1
    outcomeRequirementKeys := {"r"}, prerequisiteActionIds := [], completionCriteria := ["done"]
    supportRefs := {"ref"}, cost := .known 0, isFoundational := false, accepted := by decide }

/-- An accepted snapshot with a requirement whose label is empty. -/
def unlabeledSnapshot : PublishedCorpusSnapshot :=
  { occupationId := "o", basisVersion := "b", release := ⟨some "release", .fixture, none⟩
    isFixture := true, capabilityEntries := [], allowedExperienceCodes := ∅
    requirements := [⟨"r", "", .required, "e", ∅, {"ref"}⟩]
    templates := [unlabeledTemplate], accepted := by decide }

private theorem firstVersion_positive : 1 ≤ 1 := by decide

private theorem twoHours_range : 1 ≤ (2 : Int) ∧ (2 : Int) ≤ 60 := by decide

/-- A context of user 1 for that snapshot, with one free hour. -/
def unlabeledDocument : RecomputeContextDocument :=
  { userId := 1, profileVersion := 1, goalId := 10, selection := ⟨"o", "b", "release"⟩
    source := .localJson, capabilities := [], completeness := ⟨true, ∅⟩
    constraints :=
      { targetBy := 10 * hour, availableHoursPerWeek := 2, budgetMode := .regular
        maxOutOfPocketKrw := some 0, fastestPath := false, needsPortfolio := false
        careerSwitch := false, weeklyAvailability := [], unavailableDates := []
        hoursRange := twoHours_range }
    referenceAt := 0, planningStartedAt := 0, calendar := [(sampleSlot 0).toPlanningSlotData]
    candidateAvailability := [], solverSettings := .default, positive := firstVersion_positive }

/-- Only the context of goal 10 is valid. -/
def unlabeledWorker : RecomputeWorker where
  contexts := {
    validate := fun payload ↦ if payload.goalId = some 10 then some unlabeledDocument else none
    goal := fun payload d h ↦ by
      split at h
      · next hgoal => rw [hgoal, ← Option.some.inj h]; rfl
      · cases h }
  getSnapshot _ := .ok unlabeledSnapshot
  allowFixture := true
  planner := ⟨1, firstVersion_positive⟩
  solverTimeLimitSeconds := none
  casefold := id
  showCredit _ := ""

/-- The route that takes the hour. -/
def unlabeledAssignment : RouteVar → Int
  | .selected _ | .assigned _ _ | .covered _ | .totalSelectedHours => 1
  | .completion _ | .routeCompletion | .earliestCapacityCompletion => hour
  | .timeRemaining => 9 * hour
  | .timePoints => 9000
  | _ => 0

/-- A turn without other transactions. -/
def unlabeledTurn : Turn where
  draw := ⟨1000, knownAssignmentSolver unlabeledAssignment, ⟨1001, 1002, fun _ _ ↦ ""⟩⟩
  beforeLoad := []
  beforeFinalize := []
  finalizeClock := 0
  beforeFail := []
  failClock := 0

/-- Two users with a goal each. -/
def unlabeledAccounts : Database :=
  ⟨{ users := [⟨1, true, none⟩, ⟨2, true, none⟩]
     profiles := [⟨1, 1, none⟩, ⟨2, 1, none⟩]
     events := [⟨11, 1, 10, 1, .goalUpdated, ⟨none, none⟩⟩,
       ⟨21, 2, 20, 1, .goalUpdated, ⟨none, none⟩⟩]
     goals := [⟨10, 1, .targeted, some "o", 10 * hour, "UTC", .active⟩,
       ⟨20, 2, .targeted, some "o", 10 * hour, "UTC", .active⟩] }, by decide +kernel⟩

private theorem defaultBudgets_bounded :
    ∀ value ∈ [10, 30, 2], 1 ≤ value ∧ value < 2147483647 := by decide

/-- One request of each user is enqueued, and both are claimed. -/
def unlabeledPast : List StoreAction := [
  .work (.outside unlabeledAccounts),
  .work (.enqueue ⟨1, 1, 11, "first", some ⟨some 10, none, ""⟩⟩ ⟨100, 101, 0⟩),
  .work (.enqueue ⟨2, 1, 21, "second", some ⟨some 20, none, ""⟩⟩ ⟨200, 201, 0⟩),
  .work (.claim ⟨2, none, { bounded := defaultBudgets_bounded }, [], []⟩ (300 + ·))]

/-- The batch of both. -/
def unlabeledWork : List (RecomputeWorkItem × Turn) :=
  [(⟨100, 1, 1, 101, 300⟩, unlabeledTurn), (⟨200, 2, 1, 201, 301⟩, unlabeledTurn)]

/-- No context is carried forward. -/
def noCarryForward : CarryForward := fun _ _ _ _ ↦ none

/-- The system after both are claimed. -/
def unlabeledStart : RecomputeSystem :=
  run (act noCarryForward) ⟨.empty, 0, []⟩ unlabeledPast

private theorem noCarryForward_carriesGoal : CarriesGoal noCarryForward :=
  fun _ _ _ _ _ h ↦ by cases h

/-- The error of the first item stops the batch: the second is never processed. -/
theorem unlabeled_stops_batch :
    (∀ w ∈ unlabeledWork, w.1 ∈ unlabeledStart.leases) ∧
      (∀ w ∈ unlabeledWork, SoundSolver w.2.draw.solver) ∧
      (processOnce unlabeledWorker noCarryForward unlabeledStart unlabeledWork).map (·.item) ≠
        unlabeledWork.map (·.1) :=
  ⟨by decide +kernel, fun w hw ↦ by
    have hturn : w.2 = unlabeledTurn := by
      rcases List.mem_pair.mp hw with rfl | rfl <;> rfl
    rw [hturn]
    exact knownAssignmentSolver_sound unlabeledAssignment, by decide +kernel⟩

/-- The same requirement with a label. -/
def labeledSnapshot : PublishedCorpusSnapshot :=
  { unlabeledSnapshot.toPublishedCorpusSnapshotData with
    requirements := [⟨"r", "Python", .required, "e", ∅, {"ref"}⟩], accepted := by decide }

/-- A worker that reads it. -/
def labeledWorker : RecomputeWorker :=
  { unlabeledWorker with getSnapshot := fun _ ↦ .ok labeledSnapshot }

/-- A turn that draws other ids. -/
def secondTurn : Turn :=
  { unlabeledTurn with
    draw := ⟨2000, knownAssignmentSolver unlabeledAssignment, ⟨2001, 2002, fun _ _ ↦ ""⟩⟩ }

/-- The batch of both, each with its own ids. -/
def labeledWork : List (RecomputeWorkItem × Turn) :=
  [(⟨100, 1, 1, 101, 300⟩, unlabeledTurn), (⟨200, 2, 1, 201, 301⟩, secondTurn)]

private theorem labeledTurn_solver {turn : Turn} (h : turn = unlabeledTurn ∨ turn = secondTurn) :
    turn.draw.solver = knownAssignmentSolver unlabeledAssignment := by
  rcases h with rfl | rfl <;> rfl

private theorem labeledWork_turns : ∀ w ∈ labeledWork, w.2 = unlabeledTurn ∨ w.2 = secondTurn := by
  intro w hw
  rcases List.mem_pair.mp hw with rfl | rfl
  · exact .inl rfl
  · exact .inr rfl

/-- A snapshot with labels and a solver that rejects nothing make every payload answerable. -/
theorem labeledWorker_answerable {turn : Turn}
    (hturn : turn = unlabeledTurn ∨ turn = secondTurn) (payload : Store.RecomputeContext) :
    labeledWorker.AnswerablePayload turn.draw payload := by
  intro context _ snapshot hsnapshot
  obtain rfl := Except.ok.inj hsnapshot
  constructor
  case hours => decide +kernel
  case accepted =>
    intro problem _ phase coverage settings
    rw [labeledTurn_solver hturn]
    exact knownAssignmentSolver_status unlabeledAssignment phase _ settings _
  case recordable =>
    intro problem _ value _ t _ _ r hr _
    have hlabeled : ∀ r ∈ labeledSnapshot.requirements, r.requirementKey ≠ "" ∧ r.entityId ≠ "" ∧
        r.label ≠ "" ∧ r.label.length ≤ 500 := by decide +kernel
    exact hlabeled r hr

/-- With a label the first item is finalized, and the second, whose context is invalid, fails. -/
theorem processOnce_spares_labeled :
    let batch := processOnce labeledWorker noCarryForward unlabeledStart labeledWork
    batch.map (·.item) = labeledWork.map (·.1) ∧ ∀ p ∈ batch, p.Spared noCarryForward :=
  processOnce_spares noCarryForward_carriesGoal labeledWorker unlabeledPast labeledWork
    (by decide +kernel)
    (fun w hw ↦ by
      rw [labeledTurn_solver (labeledWork_turns w hw)]
      exact knownAssignmentSolver_sound unlabeledAssignment)
    (fun p hp ↦ by
      have hnew : ∀ p ∈ processOnce labeledWorker noCarryForward unlabeledStart labeledWork,
          (∀ a ∈ (p.atFinalize noCarryForward).db.1.analyses, a.id ≠ p.turn.draw.analysisId) ∧
          (∀ q ∈ (p.atFinalize noCarryForward).db.1.proposals,
            q.id ≠ p.turn.draw.proposal.proposalId) ∧
          ∀ t ∈ (p.atFinalize noCarryForward).db.1.traces,
            t.id ≠ p.turn.draw.proposal.traceId := by decide +kernel
      obtain ⟨hanalyses, hproposals, htraces⟩ := hnew p hp
      exact ⟨hanalyses, hproposals, htraces⟩)
    (fun p hp payload _ ↦ by
      obtain ⟨w, hw, hturn⟩ := processOnce_turn hp
      exact labeledWorker_answerable (hturn ▸ labeledWork_turns w hw) payload)

end Jobtology.Workers
