import Jobtology.Relational.Runs
import Jobtology.Store.Goals
import Jobtology.Store.Worker

/-!
# The current analysis of a profile

`persist_analysis` of `store.py`, and the pointer from a profile to its latest analysis over every
order of the transactions that write one of them.
-/

namespace Jobtology.Store

open Jobtology.Base Jobtology.Relational
open Jobtology.Relational.Transaction

/-- `persist_analysis`. `src/jobtology_be/infrastructure/persistence/store.py:448–486`. -/
def persistAnalysis (analysis : AnalysisRow) : Txn Unit := do
  let goalOwner ← query fun db ↦ (lookup (·.id) db.goals analysis.goalId).map (·.userId)
  require (goalOwner = some analysis.userId) (.missing "goal")
  statement fun db ↦ { db with analyses := db.analyses ++ [analysis] }
  pointProfile analysis.userId analysis.profileVersion analysis.id

/-- What happens next to profiles and analyses. -/
inductive AnalysisAction
  /-- A profile update. -/
  | bump (userId : Uuid) (expectedVersion : Nat)
  | persist (analysis : AnalysisRow)
  | finalize (item : RecomputeWorkItem) (artifacts : RecomputeArtifacts) (now clock : Int)
  | fail (item : RecomputeWorkItem) (errorCode : String) (now clock : Int)
  | deleteGoal (carryForward : CarryForward) (request : GoalDelete) (eventId : Uuid)
    (draw : EnqueueDraw)
  /-- Any other transaction. -/
  | outside (db : Database)

/-- Other transactions keep analyses and pointers, and raise versions; a new profile points to
nothing. -/
def PointersKept (s t : Db) : Prop :=
  (∀ a ∈ s.analyses, a ∈ t.analyses) ∧
    ∀ p' ∈ t.profiles,
      (∃ p ∈ s.profiles, p.userId = p'.userId ∧ p.version ≤ p'.version ∧
        p'.latestAnalysisId = p.latestAnalysisId) ∨
      (p'.latestAnalysisId = none ∧ ∀ p ∈ s.profiles, p.userId ≠ p'.userId)

instance (s t : Db) : Decidable (PointersKept s t) := inferInstanceAs (Decidable (_ ∧ _))

namespace LatestAnalysis

/-- One action. -/
def apply (s : Database) : AnalysisAction → Database
  | .bump userId expectedVersion => (bumpProfile userId expectedVersion).commit s
  | .persist analysis => (persistAnalysis analysis).commit s
  | .finalize item artifacts now clock => (finalizeRecompute item artifacts now clock).commit s
  | .fail item errorCode now clock => (failRecompute item errorCode now clock).commit s
  | .deleteGoal carryForward request eventId draw =>
    (deleteGoal carryForward request eventId draw).commit s
  | .outside db => if PointersKept s.1 db.1 then db else s

/-- The profile points to nothing, or to an analysis of its user for a version it has reached. -/
def PointsBack (db : Db) (p : ProfileRow) : Prop :=
  ∀ id ∈ p.latestAnalysisId, ∃ a ∈ db.analyses,
    a.id = id ∧ a.userId = p.userId ∧ a.profileVersion ≤ p.version

/-- What one action does to the pointer of a profile: it stays, it is cleared because its analysis
is deleted, or it moves to an analysis for the version of the profile at that time. -/
def Repointed (s t : Db) (p p' : ProfileRow) : Prop :=
  p'.latestAnalysisId = p.latestAnalysisId ∨
  (p'.latestAnalysisId = none ∧ ∃ a ∈ s.analyses, p.latestAnalysisId = some a.id ∧
    ∀ b ∈ t.analyses, b.id ≠ a.id) ∨
  ∃ a ∈ t.analyses, p'.latestAnalysisId = some a.id ∧ a.userId = p.userId ∧
    a.profileVersion = p.version

/-- What one action does to profiles and analyses. -/
structure Step (s t : Db) : Prop where
  profiles : ∀ p' ∈ t.profiles,
    (∃ p ∈ s.profiles, p.userId = p'.userId ∧ p.version ≤ p'.version ∧ Repointed s t p p') ∨
    (p'.latestAnalysisId = none ∧ ∀ p ∈ s.profiles, p.userId ≠ p'.userId)
  analyses : ∀ a ∈ s.analyses, a ∈ t.analyses ∨
    ∀ p' ∈ t.profiles, p'.latestAnalysisId ≠ some a.id

private theorem Step.pointsBack {s t : Db} (h : Step s t)
    (hback : ∀ p ∈ s.profiles, PointsBack s p) :
    ∀ p' ∈ t.profiles, PointsBack t p' := by
  intro p' hp' id hid
  rcases h.profiles p' hp' with ⟨p, hp, huser, hversion, hpointer⟩ | ⟨hnone, -⟩
  · rcases hpointer with hsame | ⟨hnone, -⟩ | ⟨a, ha, hpoints, howner, hcurrent⟩
    · obtain ⟨a, ha, rfl, howner, hle⟩ := hback p hp id (hsame ▸ hid)
      rcases h.analyses a ha with hkept | hlost
      · exact ⟨a, hkept, rfl, howner.trans huser, hle.trans hversion⟩
      · exact absurd hid (hlost p' hp')
    · rw [hnone] at hid
      cases hid
    · obtain rfl : a.id = id := Option.some.inj (hpoints.symm.trans hid)
      exact ⟨a, ha, rfl, howner.trans huser, hcurrent ▸ hversion⟩
  · rw [hnone] at hid
    cases hid

/-! ### Each action -/

private theorem step_refl (s : Db) : Step s s :=
  ⟨fun p hp ↦ .inl ⟨p, hp, rfl, le_rfl, .inl rfl⟩, fun _ ha ↦ .inl ha⟩

/-- Profiles whose pointers stay, and analyses that stay. -/
theorem step_kept {s t : Db} (h : PointersKept s t) : Step s t where
  profiles p' hp' := by
    rcases h.2 p' hp' with ⟨p, hp, huser, hversion, hpointer⟩ | hnew
    · exact .inl ⟨p, hp, huser, hversion, .inl hpointer⟩
    · exact .inr hnew
  analyses a ha := .inl (h.1 a ha)

/-- A new analysis, to which the profile points if it is at its version. -/
theorem step_analysis {s t : Db} {analysis : AnalysisRow}
    (hanalyses : t.analyses = s.analyses ++ [analysis])
    (hprofiles : t.profiles =
      update (fun p ↦ p.userId = analysis.userId ∧ p.version = analysis.profileVersion)
        (fun p ↦ { p with latestAnalysisId := some analysis.id }) s.profiles) : Step s t where
  profiles p' hp' := by
    rw [hprofiles] at hp'
    rcases mem_update.mp hp' with ⟨hp, -⟩ | ⟨p, hp, ⟨huser, hversion⟩, rfl⟩
    · exact .inl ⟨p', hp, rfl, le_rfl, .inl rfl⟩
    · refine .inl ⟨p, hp, rfl, le_rfl, .inr (.inr ⟨analysis, ?_, rfl, huser.symm, hversion.symm⟩)⟩
      rw [hanalyses]
      exact List.mem_append_right _ (List.mem_singleton_self _)
  analyses a ha := by
    rw [hanalyses]
    exact .inl (List.mem_append_left _ ha)

private theorem step_bump {userId : Uuid} {version : Nat} {s t : Database} {u : Unit}
    (h : Yields (bumpProfile userId version) s u t) : Step s.1 t.1 := by
  obtain ⟨-, ht⟩ := bumpProfile_spec h
  refine step_kept ⟨by rw [ht]; exact fun _ ↦ id, fun p' hp' ↦ ?_⟩
  rw [ht] at hp'
  rcases mem_update.mp hp' with ⟨hp, -⟩ | ⟨p, hp, -, rfl⟩
  · exact .inl ⟨p', hp, rfl, le_rfl, rfl⟩
  · exact .inl ⟨p, hp, rfl, Nat.le_succ _, rfl⟩

private theorem step_persist {analysis : AnalysisRow} {s t : Database} {u : Unit}
    (h : Yields (persistAnalysis analysis) s u t) : Step s.1 t.1 := by
  unfold persistAnalysis at h
  simp only [yields_query_bind, ↓yields_require_bind, yields_seq] at h
  obtain ⟨-, v, hinsert, hpoint⟩ := h
  have hv := yields_statement.mp hinsert
  have ht := yields_statement.mp hpoint
  simp only [← hv] at ht
  exact step_analysis (by rw [← ht]) (by rw [← ht])

private theorem step_finalize {item : RecomputeWorkItem} {artifacts : RecomputeArtifacts}
    {now clock : Int}
    {s t : Database} {result : RecomputeFinalization}
    (h : Yields (finalizeRecompute item artifacts now clock) s result t) : Step s.1 t.1 := by
  have hfinal := finalizeRecompute_spec h
  have hanalyses : t.1.analyses = s.1.analyses ++ [artifacts.analysis] := by rw [hfinal.written]
  refine step_analysis hanalyses ?_
  rw [hfinal.written, hfinal.analysisOwner, hfinal.analysisVersion]

private theorem step_fail {item : RecomputeWorkItem} {errorCode : String} {now clock : Int}
    {s t : Database} {u : Unit} (h : Yields (failRecompute item errorCode now clock) s u t) :
    Step s.1 t.1 := by
  rcases failRecompute_spec h with rfl | hfailed
  · exact step_refl _
  · refine step_kept ⟨by rw [hfailed.written]; exact fun _ ↦ id, fun p hp ↦ ?_⟩
    rw [hfailed.written] at hp
    exact .inl ⟨p, hp, rfl, le_rfl, rfl⟩

/-- The analyses that are deleted with a goal are its user's. -/
theorem mem_goalAnalyses {db : Db} {userId goalId id : Uuid} :
    id ∈ (goalRecords db userId goalId).analysisIds ↔
      ∃ a ∈ db.analyses, a.id = id ∧ a.goalId = goalId ∧ a.userId = userId := by
  simp [goalRecords, and_assoc, and_comm]

private theorem step_deleteGoal {carryForward : CarryForward} {request : GoalDelete}
    {eventId : Uuid}
    {draw : EnqueueDraw} {s t : Database} {snapshot : ProfileSnapshot}
    (h : Yields (deleteGoal carryForward request eventId draw) s snapshot t)
    (hback : ∀ p ∈ s.1.profiles, PointsBack s.1 p) : Step s.1 t.1 := by
  have hdeleted := deleteGoal_spec h
  obtain ⟨hwritten, -⟩ := hdeleted.frame
  have hprofiles : t.1.profiles = (s.1.withoutGoal request eventId).profiles := by rw [hwritten]
  have hanalyses : ∀ a, a ∈ t.1.analyses ↔ a ∈ s.1.analyses ∧
      a.id ∉ (goalRecords s.1 request.userId request.goalId).analysisIds := by
    intro a
    rw [hwritten]
    exact List.mem_filter.trans (and_congr_right fun _ ↦ decide_eq_true_iff)
  -- a profile of another user names none of the deleted analyses
  have hother : ∀ p ∈ s.1.profiles, p.userId ≠ request.userId → ∀ id ∈ p.latestAnalysisId,
      id ∉ (goalRecords s.1 request.userId request.goalId).analysisIds := by
    intro p hp huser id hid hmem
    obtain ⟨a, ha, rfl, howner, -⟩ := hback p hp id hid
    obtain ⟨b, hb, hab, -, howner'⟩ := mem_goalAnalyses.mp hmem
    obtain rfl := s.2.analyses.key.eq_of_mem hb ha hab
    exact huser (howner.symm.trans howner')
  have hversion : ∀ p ∈ s.1.profiles, p.userId = request.userId →
      p.version = request.expectedProfileVersion := by
    intro p hp huser
    have hfound : lookup (·.userId) s.1.profiles request.userId = some p :=
      (lookup_eq_some s.2.accounts.profilesKey).mpr ⟨hp, huser⟩
    have hcurrent := hdeleted.version
    rw [Db.profileVersion, hfound] at hcurrent
    exact Option.some.inj hcurrent
  have hcases : ∀ p' ∈ t.1.profiles,
      (p' ∈ s.1.profiles ∧ p'.userId ≠ request.userId) ∨
      ∃ p ∈ s.1.profiles, p.userId = request.userId ∧
        p' = request.profile (goalRecords s.1 request.userId request.goalId).analysisIds p := by
    intro p' hp'
    rw [hprofiles] at hp'
    rcases mem_update.mp hp' with hkept | ⟨p, hp, huser, rfl⟩
    · exact .inl hkept
    · exact .inr ⟨p, hp, huser, rfl⟩
  refine ⟨fun p' hp' ↦ ?_, fun a ha ↦ ?_⟩
  · rcases hcases p' hp' with ⟨hp, -⟩ | ⟨p, hp, huser, rfl⟩
    · exact .inl ⟨p', hp, rfl, le_rfl, .inl rfl⟩
    · refine .inl ⟨p, hp, rfl, ?_, ?_⟩
      · rw [hversion p hp huser]
        exact Nat.le_succ _
      · cases hpointer : p.latestAnalysisId with
        | none => exact .inl (by simp [GoalDelete.profile, hpointer])
        | some id =>
          by_cases hmem : id ∈ (goalRecords s.1 request.userId request.goalId).analysisIds
          · obtain ⟨a, ha, rfl, -⟩ := mem_goalAnalyses.mp hmem
            refine .inr (.inl ⟨by simp [GoalDelete.profile, hpointer, Option.filter, hmem], a, ha,
              hpointer, fun b hb hid ↦ ?_⟩)
            exact ((hanalyses b).mp hb).2 (hid ▸ hmem)
          · exact .inl (by simp [GoalDelete.profile, hpointer, Option.filter, hmem])
  · by_cases hmem : a.id ∈ (goalRecords s.1 request.userId request.goalId).analysisIds
    · refine .inr fun p' hp' hid ↦ ?_
      rcases hcases p' hp' with ⟨hp, huser⟩ | ⟨p, -, -, rfl⟩
      · exact hother p' hp huser a.id hid hmem
      · obtain ⟨-, hkept⟩ := Option.filter_eq_some_iff.mp hid
        simp [hmem] at hkept
    · exact .inl ((hanalyses a).mpr ⟨ha, hmem⟩)

/-- Every action is a step. -/
theorem apply_step {s : Database} (hback : ∀ p ∈ s.1.profiles, PointsBack s.1 p)
    (action : AnalysisAction) : Step s.1 (apply s action).1 := by
  have hcommit : ∀ {α : Type} {x : Txn α}, (∀ {a t}, Yields x s a t → Step s.1 t.1) →
      Step s.1 (x.commit s).1 := by
    intro α x hstep
    rcases commit_cases x s with heq | ⟨a, hyields⟩
    · rw [heq]
      exact step_refl _
    · exact hstep hyields
  cases action with
  | bump userId expectedVersion => exact hcommit step_bump
  | persist analysis => exact hcommit step_persist
  | finalize item artifacts now clock => exact hcommit step_finalize
  | fail item errorCode now clock => exact hcommit step_fail
  | deleteGoal carryForward request eventId draw =>
    exact hcommit fun hyields ↦ step_deleteGoal hyields hback
  | outside db =>
    simp only [apply]
    split
    · next hkept => exact step_kept hkept
    · exact step_refl _

/-- A finalization of stale work leaves every profile as it is. -/
theorem finalize_stale {s : Database} {item : RecomputeWorkItem}
    (hstale : s.1.profileVersion item.userId ≠ some item.profileVersion)
    (artifacts : RecomputeArtifacts) (now clock : Int) :
    (apply s (.finalize item artifacts now clock)).1.profiles = s.1.profiles := by
  rcases commit_cases (finalizeRecompute item artifacts now clock) s with heq | ⟨_, hyields⟩
  · rw [apply, heq]
  · rw [apply, (finalizeRecompute_spec hyields).written]
    refine update_eq_self fun p hp ⟨huser, hversion⟩ ↦ hstale ?_
    rw [Db.profileVersion, (lookup_eq_some s.2.accounts.profilesKey).mpr ⟨hp, huser⟩,
      Option.map_some, hversion]

/-- The current-analysis pointer is never set back.
`src/jobtology_be/infrastructure/persistence/store.py:448–486`,
`src/jobtology_be/infrastructure/persistence/worker.py:63–226`,
`src/jobtology_be/infrastructure/persistence/goal_deletion.py:28–150`,
`src/jobtology_be/application/recompute_freshness.py:12–39`. -/
theorem latestAnalysis_neverSetBack (past : List AnalysisAction) :
    let s := run apply Database.empty past
    (∀ p ∈ s.1.profiles, PointsBack s.1 p) ∧
    (∀ action, ∀ p ∈ s.1.profiles, ∀ p' ∈ (apply s action).1.profiles, p'.userId = p.userId →
      p.version ≤ p'.version ∧ Repointed s.1 (apply s action).1 p p') ∧
    ∀ item, s.1.profileVersion item.userId ≠ some item.profileVersion →
      ∀ artifacts now clock,
        (apply s (.finalize item artifacts now clock)).1.profiles = s.1.profiles := by
  intro s
  have hback : ∀ p ∈ s.1.profiles, PointsBack s.1 p :=
    run_induction (P := fun s : Database ↦ ∀ p ∈ s.1.profiles, PointsBack s.1 p)
      (fun s action h ↦ (apply_step h action).pointsBack h)
      (fun _ hp ↦ absurd hp List.not_mem_nil) past
  refine ⟨hback, fun action p hp p' hp' huser ↦ ?_, fun item hstale ↦ finalize_stale hstale⟩
  rcases (apply_step hback action).profiles p' hp' with
    ⟨p₀, hp₀, huser₀, hversion, hpointer⟩ | ⟨-, hnew⟩
  · obtain rfl := s.2.accounts.profilesKey.eq_of_mem hp₀ hp (huser₀.trans huser)
    exact ⟨hversion, hpointer⟩
  · exact absurd huser.symm (hnew p hp)

end LatestAnalysis

end Jobtology.Store
