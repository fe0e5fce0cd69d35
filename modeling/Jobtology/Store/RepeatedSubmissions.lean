import Jobtology.Store.AnalysisSubmissions

/-!
# Repeated submissions

Submissions among the other transactions on recompute work: requests for the same analysis are live
once, and are charged once, as long as no submission overlooks one.
-/

namespace Jobtology.Store

open Jobtology.Analyses Jobtology.Base Jobtology.Relational
open Jobtology.Relational.Transaction

/-! ### What other transactions keep -/

/-- Requests keep their ids, users and versions, and those that are settled stay as they are;
contexts stay. -/
structure RecordsKept (s t : Db) : Prop where
  requests : ∀ r ∈ s.requests, ∃ r' ∈ t.requests, r'.id = r.id ∧ r'.userId = r.userId ∧
    r'.profileVersion = r.profileVersion ∧ (r.state.Settled → r' = r)
  contexts : ∀ c ∈ s.contexts, c ∈ t.contexts

/-- Records are kept where the tables are the same. -/
theorem RecordsKept.of_eq {s t : Db} (hrequests : t.requests = s.requests)
    (hcontexts : t.contexts = s.contexts) : RecordsKept s t :=
  ⟨fun r hr ↦ ⟨r, hrequests ▸ hr, rfl, rfl, rfl, fun _ ↦ rfl⟩, fun _ hc ↦ hcontexts ▸ hc⟩

/-- Records are kept where nothing changes. -/
theorem RecordsKept.refl (s : Db) : RecordsKept s s := .of_eq rfl rfl

namespace RecomputeSystem

variable {s : RecomputeSystem}

end RecomputeSystem

/-! ### Runs -/

/-- The request is pending, running or ready. -/
def Db.isLive (db : Db) (requestId : Uuid) : Prop :=
  ∃ r ∈ db.requests, r.id = requestId ∧ r.state.Reusable

namespace AnalysisSubmitter

variable {S : AnalysisSubmitter} {x : SubmissionSystem}

/-- Two requests of one user for the same analysis of one goal at one version. -/
structure SameRequest (S : AnalysisSubmitter) (c d : CreatedRequest) : Prop where
  user : c.submission.userId = d.submission.userId
  goal : c.submission.goalId = d.submission.goalId
  version : c.submission.expectedProfileVersion = d.submission.expectedProfileVersion
  fingerprint : S.fingerprint c.submission.context = S.fingerprint d.submission.context

/-- A created request is stored with its context. -/
def Stored (db : Db) (c : CreatedRequest) : Prop :=
  (∃ r ∈ db.requests, r.id = c.requestId ∧ r.userId = c.submission.userId ∧
    r.profileVersion = c.submission.expectedProfileVersion) ∧
  ⟨c.requestId, c.submission.context⟩ ∈ db.contexts

/-- Of the requests for the same analysis that refresh no result, at most one is live. -/
def LiveOnce (S : AnalysisSubmitter) (x : SubmissionSystem) : Prop :=
  ∀ c ∈ x.created, ∀ d ∈ x.created, c.refreshes = false → d.refreshes = false →
    S.SameRequest c d → x.work.db.1.isLive c.requestId → x.work.db.1.isLive d.requestId →
    c.requestId = d.requestId

/-- Records that are kept keep what was created. -/
theorem Stored.kept {s t : Db} {c : CreatedRequest} (h : Stored s c)
    (hkept : RecordsKept s t) : Stored t c := by
  obtain ⟨⟨r, hr, hid, huser, hversion⟩, hcontext⟩ := h
  obtain ⟨r', hr', hid', huser', hversion', -⟩ := hkept.requests r hr
  exact ⟨⟨r', hr', hid'.trans hid, huser'.trans huser, hversion'.trans hversion⟩,
    hkept.contexts _ hcontext⟩

/-- A submission that creates a request keeps what is stored, and the laws of the work. -/
theorem Submission.keeps {s : Database} {t : Db} {now : Int}
    {submission : AnalysisRecomputeSubmission} {triggerEventId : Uuid} {draw : EnqueueDraw}
    {snapshot : RecomputeRequestSnapshot} (hlaws : WorkLaws s.1 now)
    (h : S.Submission submission triggerEventId draw s.1 t snapshot)
    (hnone : S.reused s.1 submission = none) (refreshes : Bool) :
    WorkLaws t now ∧ RecordsKept s.1 t ∧ Stored t ⟨snapshot.requestId, submission, refreshes⟩ := by
  obtain ⟨rfl, -, -, w, hw, rfl⟩ := h.creates hnone
  have hkept : WorkKept s.1 w.1 := by
    rw [hw]
    exact ⟨rfl, rfl, rfl, fun p hp ↦ ⟨p, hp, rfl, le_rfl⟩⟩
  have hrequests : w.1.requests = s.1.requests := by rw [hw]
  have hcontexts : w.1.contexts = s.1.contexts := by rw [hw]
  have hfresh : ∀ r ∈ w.1.requests, r.id ≠ draw.requestId := by
    rw [hrequests]
    exact (h.creates hnone).2.1
  have hversion : ∃ version, w.1.profileVersion submission.userId = some version ∧
      submission.expectedProfileVersion ≤ version := by
    refine ⟨_, ?_, le_rfl⟩
    rw [hw]
    exact h.version
  have hnew := @newRequest_enqueued w.1 (submittedRequest submission triggerEventId) draw hfresh
  refine ⟨((RecomputeSystem.workLaws_kept hlaws hkept).1.enqueued hnew hversion).1, ?_, ?_⟩
  · exact ⟨fun r hr ↦ ⟨r, List.mem_append_left _ (hrequests ▸ hr), rfl, rfl, rfl, fun _ ↦ rfl⟩,
      fun c hc ↦ List.mem_append_left _ (hcontexts ▸ hc)⟩
  · exact ⟨⟨_, List.mem_append_right _ (List.mem_singleton_self _), rfl, rfl, rfl⟩,
      List.mem_append_right _ (List.mem_singleton_self _)⟩

/-- Submissions for one analysis count once. -/
structure CountedOnce (S : AnalysisSubmitter) (x : SubmissionSystem) : Prop where
  live : S.LiveOnce x
  unchanged : ∀ submission triggerEventId draw,
    x.work.db.1.profileVersion submission.userId ≠ some submission.expectedProfileVersion ∨
        S.reused x.work.db.1 submission ≠ none →
      S.act x (.submit submission triggerEventId draw) = x
  charged : ∀ submission triggerEventId draw,
    let y := S.act x (.submit submission triggerEventId draw)
    y ≠ x → S.Charged submission.userId draw.now x.work.db.1 y.work.db.1 ∧
      ∃ c, y.created = c :: x.created ∧ c.submission = submission ∧ Stored y.work.db.1 c
  /-- Contexts for the same analysis have one fingerprint. -/
  same : ∀ c d : RecomputeContext, SameAnalysis S.utcDay (S.payload c) (S.payload d) →
    S.fingerprint c = S.fingerprint d
  /-- Others do not, as long as their two texts do not collide. -/
  apart : ∀ c d : RecomputeContext,
    (S.sha256 (S.encoded c) = S.sha256 (S.encoded d) → S.encoded c = S.encoded d) →
      S.fingerprint c = S.fingerprint d → SameAnalysis S.utcDay (S.payload c) (S.payload d)

end AnalysisSubmitter

end Jobtology.Store
