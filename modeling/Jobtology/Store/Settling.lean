import Jobtology.Store.ClaimedWork

/-!
# How settling ends

The errors of finalizing and of failing claimed work. Under the laws of claimed work, and with new
ids for what is recorded, both succeed or lose their lease.
-/

namespace Jobtology.Store

open Jobtology.Base Jobtology.Relational
open Jobtology.Relational.Transaction

/-! ### Constraints of what settling writes -/

section Constraints

variable {db : Db} (h : Constraints db)
include h

private theorem Constraints.insertAnalysis {a : AnalysisRow}
    (hid : ∀ a' ∈ db.analyses, a'.id ≠ a.id)
    (huser : ∃ u ∈ db.users, u.id = a.userId) (hgoal : ∃ g ∈ db.goals, g.id = a.goalId)
    (hversion : 1 ≤ a.profileVersion) : Constraints { db with analyses := db.analyses ++ [a] } :=
  { h with
    analyses := ⟨unique_append_singleton.mpr ⟨h.analyses.key, hid⟩,
      refers_append_singleton.mpr ⟨h.analyses.user, huser⟩,
      refers_append_singleton.mpr ⟨h.analyses.goal, hgoal⟩,
      forall_mem_append_singleton.mpr ⟨h.analyses.version, hversion⟩⟩
    proposals := { h.proposals with analysis := h.proposals.analysis.mono mem_appended }
    requests := { h.requests with analysis := h.requests.analysis.mono mem_appended } }

private theorem Constraints.insertTrace {t : TraceRow} (hid : ∀ t' ∈ db.traces, t'.id ≠ t.id)
    (huser : ∃ u ∈ db.users, u.id = t.userId) :
    Constraints { db with traces := db.traces ++ [t] } :=
  { h with
    proposals := { h.proposals with
      tracesKey := unique_append_singleton.mpr ⟨h.proposals.tracesKey, hid⟩
      tracesUser := refers_append_singleton.mpr ⟨h.proposals.tracesUser, huser⟩
      trace := h.proposals.trace.mono mem_appended } }

/-- A proposal of an analysis may be inserted. -/
theorem Constraints.insertProposal {p : ProposalRow} (hid : ∀ p' ∈ db.proposals, p'.id ≠ p.id)
    (huser : ∃ u ∈ db.users, u.id = p.userId) (hanalysis : ∃ a ∈ db.analyses, a.id = p.analysisId)
    (htrace : ∃ t ∈ db.traces, t.id = p.decisionTraceId) (hversion : 1 ≤ p.profileVersion) :
    Constraints { db with proposals := db.proposals ++ [p] } :=
  { h with
    proposals := { h.proposals with
      key := unique_append_singleton.mpr ⟨h.proposals.key, hid⟩
      user := refers_append_singleton.mpr ⟨h.proposals.user, huser⟩
      analysis := refers_append_singleton.mpr ⟨h.proposals.analysis, hanalysis⟩
      trace := refers_append_singleton.mpr ⟨h.proposals.trace, htrace⟩
      version := forall_mem_append_singleton.mpr ⟨h.proposals.version, hversion⟩ }
    roadmaps := { h.roadmaps with proposal := h.roadmaps.proposal.mono mem_appended }
    requests := { h.requests with proposal := h.requests.proposal.mono mem_appended } }

end Constraints

/-! ### Errors of settling -/

namespace RecomputeSystem

variable {s : RecomputeSystem} {item : RecomputeWorkItem} {e : PersistenceError} {now clock : Int}

/-- The request of claimed work runs while the lease stands. -/
theorem ClaimedLaws.isRunning (h : ClaimedLaws s) (hitem : item ∈ s.leases) {j : JobRow}
    (hj : j ∈ s.db.1.jobs) (hjob : item.isJob j) (hholds : item.holds now j) :
    s.db.1.isRunning item ∧ ∃ c ∈ s.db.1.contexts, c.requestId = item.requestId := by
  obtain ⟨hjobId, hkind, hlink⟩ := hjob
  obtain ⟨hstate, htoken, -⟩ := hholds
  obtain ⟨r, hr, hid⟩ := s.db.2.jobs.request j hj _ hlink
  have hlink' : j.recomputeRequestId = some r.id := hlink.trans (congrArg some hid.symm)
  have hruns := h.runs j hj hkind hstate r hr hlink'
  have hcontext : s.db.1.hasContext r := by
    by_contra hnone
    exact (h.laws.tracked.withoutContext r hr hnone).2 j hj hlink'
  obtain ⟨huser, hversion⟩ := (h.handed item hitem j hj ⟨hjobId, hkind, hlink⟩ hstate
    htoken).1 r hr hid
  refine ⟨⟨r, hr, hid, hruns, hcontext, huser, hversion⟩, ?_⟩
  obtain ⟨c, hc, hcid⟩ := hcontext
  exact ⟨c, hc, hcid.trans hid⟩

private theorem settleRequest_raises {db : Database} {requestId : Uuid}
    {f : RequestRow → RequestRow}
    (hvalid : Constraints { db.1 with
      requests := update (fun r ↦ r.id = requestId ∧ r.state = .running) f db.1.requests })
    (h : Raises (settleRequest requestId f) db e) : ∃ resource, e = .conflict resource := by
  unfold settleRequest at h
  rw [raises_query_bind, raises_statement_bind hvalid] at h
  exact ⟨_, (raises_require.mp h).2.symm⟩

private theorem completeJob_raises {db : Database} (h : Raises (completeJob item clock) db e) :
    ∃ resource, e = .conflict resource := by
  unfold completeJob at h
  have hvalid : Constraints { db.1 with
      jobs := update (fun j ↦ item.isJob j ∧ item.holds clock j) (·.complete) db.1.jobs } :=
    db.2.updateJobs fun _ ↦ ⟨rfl, rfl, rfl⟩
  rw [raises_query_bind, raises_statement_bind hvalid] at h
  exact ⟨_, (raises_require.mp h).2.symm⟩

/-- The ids under which artifacts are recorded are new. -/
structure FreshArtifacts (artifacts : RecomputeArtifacts) (db : Db) : Prop where
  analysis : ∀ a ∈ db.analyses, a.id ≠ artifacts.analysis.id
  proposal : ∀ p ∈ artifacts.proposal, (∀ p' ∈ db.proposals, p'.id ≠ p.id) ∧
    ∀ t ∈ db.traces, t.id ≠ p.decisionTraceId

/-- A proposal of a new analysis is inserted with its trace. -/
theorem insertProposal_yields {db : Database} {artifacts : RecomputeArtifacts}
    (hanalysis : artifacts.analysis ∈ db.1.analyses)
    (huser : ∃ u ∈ db.1.users, u.id = item.userId) (hversion : 1 ≤ item.profileVersion)
    (hbelongs : artifacts.belongTo item)
    (hfresh : ∀ p ∈ artifacts.proposal, (∀ p' ∈ db.1.proposals, p'.id ≠ p.id) ∧
      ∀ t ∈ db.1.traces, t.id ≠ p.decisionTraceId) :
    ∃ t : Database, Yields (insertProposal artifacts.proposal) db () t ∧
      t.1 = { db.1 with traces := t.1.traces, proposals := t.1.proposals } ∧
      (∀ p ∈ db.1.proposals, p ∈ t.1.proposals) ∧ ∀ p ∈ artifacts.proposal, p ∈ t.1.proposals := by
  cases hproposal : artifacts.proposal with
  | none =>
    exact ⟨db, yields_pure.mpr ⟨rfl, rfl⟩, rfl, fun _ ↦ id,
      fun _ hp ↦ absurd hp (Option.not_mem_none _)⟩
  | some p =>
    obtain ⟨hid, htrace⟩ := hfresh p hproposal
    obtain ⟨hpuser, hpversion, hpanalysis⟩ := hbelongs p hproposal
    have h₁ : Constraints { db.1 with
        traces := db.1.traces ++ [⟨p.decisionTraceId, p.userId⟩] } :=
      db.2.insertTrace htrace (hpuser ▸ huser)
    have h₂ := h₁.insertProposal hid (hpuser ▸ huser) ⟨_, hanalysis, hpanalysis.symm⟩
      ⟨_, List.mem_append_right _ (List.mem_singleton_self _), rfl⟩ (hpversion ▸ hversion)
    refine ⟨⟨_, h₂⟩, yields_seq.mpr ⟨⟨_, h₁⟩, yields_statement.mpr rfl, yields_statement.mpr rfl⟩,
      rfl, fun q hq ↦ List.mem_append_left _ hq, fun q hq ↦ ?_⟩
    obtain rfl := Option.some.inj hq
    exact List.mem_append_right _ (List.mem_singleton_self _)

/-- Finalizing claimed work under new ids succeeds or raises a conflict. -/
theorem finalizeRecompute_raises (h : ClaimedLaws s) (hitem : item ∈ s.leases)
    {artifacts : RecomputeArtifacts} (hfresh : FreshArtifacts artifacts s.db.1)
    (hversion : 1 ≤ item.profileVersion)
    (hgoal : s.db.1.handedOut item fun c ↦ c.goalId = some artifacts.analysis.goalId)
    (hraises : Raises (finalizeRecompute item artifacts now clock) s.db e) :
    ∃ resource, e = .conflict resource := by
  unfold finalizeRecompute at hraises
  rcases raises_require_bind.mp hraises with ⟨-, rfl⟩ | ⟨⟨hauser, haversion⟩, hraises⟩
  · exact ⟨_, rfl⟩
  rcases raises_require_bind.mp hraises with ⟨-, rfl⟩ | ⟨hbelongs, hraises⟩
  · exact ⟨_, rfl⟩
  rw [raises_query_bind] at hraises
  rcases raises_require_bind.mp hraises with ⟨-, rfl⟩ | ⟨howner, hraises⟩
  · exact ⟨_, rfl⟩
  rw [raises_query_bind] at hraises
  rcases raises_require_bind.mp hraises with ⟨-, rfl⟩ | ⟨⟨j, hlease, hholds⟩, hraises⟩
  · exact ⟨_, rfl⟩
  have hj := List.mem_of_find?_eq_some hlease
  have hjob := List.find?_some hlease
  rw [decide_eq_true_eq] at hjob
  obtain ⟨hrunning, c, hc, hcid⟩ := h.isRunning hitem hj hjob hholds
  have huser : ∃ u ∈ s.db.1.users, u.id = item.userId := by
    obtain ⟨u, hu, hid⟩ := List.any_eq_true.mp howner
    exact ⟨u, hu, of_decide_eq_true hid⟩
  -- the goal of the context is one of the request's user
  have hgoalOwner : ∃ g ∈ s.db.1.goals, g.id = artifacts.analysis.goalId ∧
      g.userId = item.userId := by
    have hcgoal := (hgoal j hj hjob hholds.1 hholds.2.1).2 c hc hcid
    obtain ⟨r, hr, hrid, -, -, hruser, -⟩ := hrunning
    obtain ⟨g, hg, hgid, hguser⟩ := h.goals c hc r hr (hrid.trans hcid.symm) _ hcgoal
    exact ⟨g, hg, hgid, hguser.trans hruser⟩
  obtain ⟨g, hg, hgid, hguser⟩ := hgoalOwner
  rw [raises_query_bind] at hraises
  rcases raises_require_bind.mp hraises with ⟨hnot, -⟩ | ⟨-, hraises⟩
  · exact absurd (decide_eq_true hrunning) hnot
  rw [raises_query_bind] at hraises
  rcases raises_require_bind.mp hraises with ⟨hnot, -⟩ | ⟨-, hraises⟩
  · have hfound := (lookup_eq_some s.db.2.goals.key).mpr ⟨hg, hgid⟩
    rw [hfound] at hnot
    exact absurd (congrArg some hguser) hnot
  have h₁ := s.db.2.insertAnalysis hfresh.analysis (hauser ▸ huser) ⟨g, hg, hgid⟩
    (haversion ▸ hversion)
  rw [raises_statement_bind h₁] at hraises
  obtain ⟨t, hproposal, ht, hkept, hinserted⟩ := @insertProposal_yields _ ⟨_, h₁⟩ _
    (List.mem_append_right _ (List.mem_singleton_self _)) huser hversion hbelongs hfresh.proposal
  rcases raises_bind.mp hraises with hraises | ⟨_, t', hyields, hraises⟩
  · cases hproposal.symm.trans hraises
  obtain rfl : t = t' := by
    have hsame := Except.ok.inj (hproposal.symm.trans hyields)
    exact (Prod.mk.inj hsame).2
  have hrequests : t.1.requests = s.db.1.requests := by rw [ht]
  have hanalyses : t.1.analyses = s.db.1.analyses ++ [artifacts.analysis] := by rw [ht]
  have h₃ : Constraints { t.1 with
      requests := update (fun r ↦ r.id = item.requestId ∧ r.state = .running) artifacts.settle
        t.1.requests } := by
    refine t.2.updateRequests (fun _ ↦ ⟨rfl, rfl, rfl, rfl⟩) (fun r _ id hid ↦ ?_)
      fun r _ id hid ↦ ?_
    · obtain rfl := Option.some.inj hid
      exact ⟨artifacts.analysis, by rw [hanalyses]; simp, rfl⟩
    · obtain ⟨p, hp, rfl⟩ := Option.map_eq_some_iff.mp hid
      exact ⟨p, hinserted p hp, rfl⟩
  rcases raises_bind.mp hraises with hraises | ⟨_, u, hsettled, hraises⟩
  · exact settleRequest_raises h₃ hraises
  rw [raises_query_bind] at hraises
  unfold pointProfile at hraises
  have h₄ := u.2.updateProfiles (p := fun p ↦ p.userId = item.userId ∧
    p.version = item.profileVersion)
    (f := fun p ↦ { p with latestAnalysisId := some artifacts.analysis.id }) fun _ ↦ rfl
  rw [raises_statement_bind h₄] at hraises
  rcases raises_bind.mp hraises with hraises | ⟨_, v, -, hraises⟩
  · exact completeJob_raises hraises
  · exact absurd hraises not_raises_pure

/-- Recording a failure of claimed work succeeds or raises a conflict. -/
theorem failRecompute_raises (h : ClaimedLaws s) (hitem : item ∈ s.leases) {errorCode : String}
    (hraises : Raises (failRecompute item errorCode now clock) s.db e) :
    ∃ resource, e = .conflict resource := by
  unfold failRecompute at hraises
  rw [raises_query_bind, raises_query_bind, raises_query_bind] at hraises
  rcases raises_ite.mp hraises with ⟨-, hraises⟩ | ⟨-, hraises⟩
  · exact absurd hraises not_raises_pure
  rcases raises_require_bind.mp hraises with ⟨-, rfl⟩ | ⟨⟨j, hlease, hholds⟩, hraises⟩
  · exact ⟨_, rfl⟩
  have hjob := List.find?_some hlease
  rw [decide_eq_true_eq] at hjob
  obtain ⟨hrunning, -⟩ := h.isRunning hitem (List.mem_of_find?_eq_some hlease) hjob hholds
  rw [raises_query_bind] at hraises
  rcases raises_require_bind.mp hraises with ⟨hnot, -⟩ | ⟨-, hraises⟩
  · exact absurd (decide_eq_true hrunning) hnot
  have hvalid : Constraints { s.db.1 with
      requests := update (fun r ↦ r.id = item.requestId ∧ r.state = .running) (·.fail errorCode)
        s.db.1.requests } :=
    s.db.2.updateRequests (fun _ ↦ ⟨rfl, rfl, rfl, rfl⟩) s.db.2.requests.analysis
      s.db.2.requests.proposal
  rcases raises_bind.mp hraises with hraises | ⟨_, u, -, hraises⟩
  · exact settleRequest_raises hvalid hraises
  · exact completeJob_raises hraises

end RecomputeSystem

end Jobtology.Store
