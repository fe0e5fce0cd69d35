import Jobtology.Store.Ownership
import Jobtology.Store.Reconciliation
import Jobtology.Store.Worker
import Mathlib.Tactic.IntervalCases

/-!
# Account deletion erases one account

`delete_account` goes through the tables of an account and then deletes its user. It succeeds on
every database whose users' rows keep to themselves, leaves nothing of the account and touches
nothing of another.
-/

namespace Jobtology.Store

open Jobtology.Base Jobtology.Relational
open Jobtology.Relational.Transaction

/-- The rows that `delete_account` keeps. -/
def accountRetention (db : Db) (userId : Uuid) : Retention where
  inheritances i := ¬ db.ownsStep userId i.stepId
  dependencies d := ¬ db.ownsRoadmap userId d.roadmapId
  overrides o := ¬ db.ownsRoadmap userId o.roadmapId
  steps s := ¬ db.ownsRoadmap userId s.roadmapId
  roadmaps := (·.userId ≠ userId)
  jobs j := ¬ db.ownsJob userId j
  contexts c := ¬ db.ownsRequest userId c.requestId
  requests := (·.userId ≠ userId)
  proposals := (·.userId ≠ userId)
  traces := (·.userId ≠ userId)
  analyses := (·.userId ≠ userId)
  capabilities := (·.userId ≠ userId)
  preferences := (·.userId ≠ userId)
  idempotency := (·.userId ≠ userId)
  goals := (·.userId ≠ userId)
  events := (·.userId ≠ userId)
  sessions := (·.userId ≠ userId)
  rateLimits := (·.userId ≠ userId)
  profiles := (·.userId ≠ userId)
  identities := (·.userId ≠ userId)

/-- The tables in the order of `delete_account`. -/
def accountOrder : List Table :=
  [.inheritances, .dependencies, .overrides, .steps, .roadmaps, .jobs, .contexts, .requests,
    .proposals, .traces, .analyses, .capabilities, .preferences, .idempotency, .goals, .events,
    .sessions, .rateLimits, .profiles, .identities]

private theorem accountOrder_childrenFirst (k : Nat) : ChildrenFirst (accountOrder.take k) := by
  rcases Nat.lt_or_ge k 20 with hlt | hge
  · have hall : ∀ k < 20, ChildrenFirst (accountOrder.take k) := by decide
    exact hall k hlt
  · rw [List.take_of_length_le (show accountOrder.length ≤ k from hge)]
    decide

/-! ### Every statement succeeds -/

section Owner

variable {s : Database} {userId userId' : Uuid}

private theorem ownsRoadmap_unique {id : Uuid} (h : s.1.ownsRoadmap userId id)
    (h' : s.1.ownsRoadmap userId' id) : userId = userId' := by
  obtain ⟨r, hr, rfl, rfl⟩ := h
  obtain ⟨r', hr', rfl, hid⟩ := h'
  rw [s.2.roadmaps.key.eq_of_mem hr hr' hid.symm]

/-- A step belongs to the user of its roadmap. -/
theorem ownsStep_iff {st : StepRow} (hst : st ∈ s.1.steps) :
    s.1.ownsStep userId st.id ↔ s.1.ownsRoadmap userId st.roadmapId := by
  constructor
  · rintro ⟨st', hst', howns, hid⟩
    rwa [s.2.steps.key.eq_of_mem hst' hst hid] at howns
  · exact fun howns ↦ ⟨st, hst, howns, rfl⟩

end Owner

private theorem SameUser.keptBy {α β : Type} {names : α → List Uuid} {user : α → Uuid}
    {rows : List α}
    {id : β → Uuid} {user' : β → Uuid} {targets : List β}
    (h : SameUser names user rows id user' targets) (userId : Uuid) :
    KeptBy (fun r ↦ decide (user r ≠ userId)) (fun t ↦ decide (user' t ≠ userId)) names rows id
      targets := by
  intro r hr t ht hname hkeep
  rw [decide_eq_true_eq] at hkeep ⊢
  rwa [h r hr t ht hname]

/-- What the kept rows refer to is kept. -/
theorem accountRetention_closed {s : Database} (h : Owned s.1) (userId : Uuid) :
    (accountRetention s.1 userId).Closed s.1 where
  capabilityEvent := h.capabilityEvent.keptBy userId
  analysisGoal := h.analysisGoal.keptBy userId
  proposalAnalysis := h.proposalAnalysis.keptBy userId
  proposalTrace := h.proposalTrace.keptBy userId
  roadmapGoal := h.roadmapGoal.keptBy userId
  roadmapProposal := h.roadmapProposal.keptBy userId
  overrideRoadmap o _ r hr hname hkeep := by
    simp only [accountRetention, decide_eq_true_eq] at hkeep ⊢
    exact fun huser ↦ hkeep ⟨r, hr, huser, List.mem_singleton.mp hname⟩
  stepRoadmap st _ r hr hname hkeep := by
    simp only [accountRetention, decide_eq_true_eq] at hkeep ⊢
    exact fun huser ↦ hkeep ⟨r, hr, huser, List.mem_singleton.mp hname⟩
  dependencyRoadmap d _ r hr hname hkeep := by
    simp only [accountRetention, decide_eq_true_eq] at hkeep ⊢
    exact fun huser ↦ hkeep ⟨r, hr, huser, List.mem_singleton.mp hname⟩
  dependencyStep d hd st hst hname hkeep := by
    simp only [accountRetention, decide_eq_true_eq] at hkeep ⊢
    rwa [dependency_roadmap hd hst hname]
  inheritanceStep i _ st hst hname hkeep := by
    simp only [accountRetention, decide_eq_true_eq] at hkeep ⊢
    have hid : st.id = i.stepId := List.mem_singleton.mp hname
    rwa [← ownsStep_iff hst, hid]
  inheritanceEvent i hi e he hname hkeep := by
    simp only [accountRetention, decide_eq_true_eq] at hkeep ⊢
    rintro rfl
    exact hkeep (h.inheritanceEvent i hi e he (List.mem_singleton.mp hname))
  requestEvent := h.requestEvent.keptBy userId
  requestAnalysis := h.requestAnalysis.keptBy userId
  requestProposal := h.requestProposal.keptBy userId
  contextRequest c _ r hr hname hkeep := by
    simp only [accountRetention, decide_eq_true_eq] at hkeep ⊢
    exact fun huser ↦ hkeep ⟨r, hr, huser, List.mem_singleton.mp hname⟩
  jobRequest j _ r hr hname hkeep := by
    simp only [accountRetention, decide_eq_true_eq] at hkeep ⊢
    exact fun huser ↦ hkeep ⟨r.id, Option.mem_toList.mp hname, r, hr, huser, rfl⟩

/-- Each statement but the last takes the next table. -/
theorem accountDeletions_stage (db : Db) (userId : Uuid) {k : Nat} (hk : k < 20) {f : Db → Db}
    (hf : (accountDeletions userId)[k]? = some f) :
    f (db.retain (accountRetention db userId) (accountOrder.take k)) =
      db.retain (accountRetention db userId) (accountOrder.take (k + 1)) := by
  interval_cases k
  all_goals
    obtain rfl := Option.some.inj hf
    rfl

/-- Statements that lead from one stage to the next succeed. -/
theorem yields_stages {fs : List (Db → Db)} {stage : Nat → Database}
    (h : ∀ k f, fs[k]? = some f → f (stage k).1 = (stage (k + 1)).1) :
    Yields (fs.forM statement) (stage 0) ⟨⟩ (stage fs.length) := by
  induction fs generalizing stage with
  | nil => exact yields_forM_nil.mpr rfl
  | cons f rest ih =>
    refine yields_forM_cons.mpr ⟨stage 1, yields_statement.mpr (h 0 f rfl), ?_⟩
    exact @ih (fun k ↦ stage (k + 1)) fun k g hg ↦ h (k + 1) g hg

private theorem refers_withoutUser {α : Type} {user : α → Uuid} {rows : List α}
    {users : List UserRow} {userId : Uuid} (h : Refers user rows (·.id) users)
    (hother : ∀ r ∈ rows, user r ≠ userId) :
    Refers user rows (·.id) (users.filter (·.id ≠ userId)) := by
  intro r hr
  obtain ⟨u, hu, hid⟩ := h r hr
  exact ⟨u, List.mem_filter.mpr ⟨hu, by simpa [hid] using hother r hr⟩, hid⟩

/-- The rows that still have a user after one user is cleared are as they were. -/
theorem filter_cleared (userId : Uuid) (rows : List AccessRow) :
    (update (·.userId = some userId) (fun a ↦ { a with userId := none }) rows).filter
        (·.userId ≠ none) =
      (rows.filter (·.userId ≠ none)).filter (·.userId ≠ some userId) := by
  rw [update, List.filter_map, List.filter_filter]
  have hkept : (fun a : AccessRow ↦ decide (a.userId ≠ none)) ∘ (fun a ↦
      if a.userId = some userId then { a with userId := none } else a) =
      fun a ↦ decide (a.userId ≠ some userId) && decide (a.userId ≠ none) := by
    funext a
    by_cases huser : a.userId = some userId <;> simp [huser]
  rw [hkept]
  refine (List.map_congr_left fun a ha ↦ if_neg ?_).trans (List.map_id _)
  simpa using (Bool.and_eq_true_iff.mp (List.mem_filter.mp ha).2).1

/-- Deleting a user keeps the constraints when no other row is the user's. -/
theorem deleteUser_constraints {db : Db} (h : Constraints db) {userId : Uuid}
    (hprofiles : ∀ r ∈ db.profiles, r.userId ≠ userId)
    (hidentities : ∀ r ∈ db.identities, r.userId ≠ userId)
    (hsessions : ∀ r ∈ db.sessions, r.userId ≠ userId)
    (hevents : ∀ r ∈ db.events, r.userId ≠ userId)
    (hcapabilities : ∀ r ∈ db.capabilities, r.userId ≠ userId)
    (hgoals : ∀ r ∈ db.goals, r.userId ≠ userId)
    (hpreferences : ∀ r ∈ db.preferences, r.userId ≠ userId)
    (hanalyses : ∀ r ∈ db.analyses, r.userId ≠ userId)
    (htraces : ∀ r ∈ db.traces, r.userId ≠ userId)
    (hproposals : ∀ r ∈ db.proposals, r.userId ≠ userId)
    (hroadmaps : ∀ r ∈ db.roadmaps, r.userId ≠ userId)
    (hrequests : ∀ r ∈ db.requests, r.userId ≠ userId)
    (hidempotency : ∀ r ∈ db.idempotency, r.userId ≠ userId) :
    Constraints (deleteUser userId db) where
  accounts := ⟨h.accounts.usersKey.sublist List.filter_sublist, h.accounts.profilesKey,
    refers_withoutUser h.accounts.profilesUser hprofiles⟩
  credentials := { h.credentials with
    identitiesUser := refers_withoutUser h.credentials.identitiesUser hidentities
    sessionsUser := refers_withoutUser h.credentials.sessionsUser hsessions }
  admissions := { h.admissions with
    accessKey := by
      have hkey := h.admissions.accessKey
      rwa [← unique_update (p := (·.userId = some userId))
        (f := fun a : AccessRow ↦ { a with userId := none }) fun _ ↦ rfl] at hkey
    accessUser := by
      intro a ha id hid
      rcases mem_update.mp ha with ⟨ha, hother⟩ | ⟨a₀, -, -, rfl⟩
      · obtain ⟨u, hu, rfl⟩ := h.admissions.accessUser a ha id hid
        refine ⟨u, List.mem_filter.mpr ⟨hu, ?_⟩, rfl⟩
        exact decide_eq_true fun heq ↦ hother (heq ▸ hid)
      · cases hid
    oneAccessPerUser := by
      have hsub := Unique.sublist h.admissions.oneAccessPerUser
        (List.filter_sublist (p := fun a ↦ decide (a.userId ≠ some userId)))
      rwa [← filter_cleared] at hsub
    accessInvitation := by
      intro a ha id hid
      rcases mem_update.mp ha with ⟨ha, -⟩ | ⟨a₀, ha₀, -, rfl⟩
      · exact h.admissions.accessInvitation a ha id hid
      · exact h.admissions.accessInvitation a₀ ha₀ id hid }
  events := { h.events with user := refers_withoutUser h.events.user hevents }
  capabilities := { h.capabilities with
    user := refers_withoutUser h.capabilities.user hcapabilities }
  goals := { h.goals with user := refers_withoutUser h.goals.user hgoals }
  preferences := { h.preferences with
    user := refers_withoutUser h.preferences.user hpreferences }
  analyses := { h.analyses with user := refers_withoutUser h.analyses.user hanalyses }
  proposals := { h.proposals with
    tracesUser := refers_withoutUser h.proposals.tracesUser htraces
    user := refers_withoutUser h.proposals.user hproposals }
  roadmaps := { h.roadmaps with user := refers_withoutUser h.roadmaps.user hroadmaps }
  overrides := h.overrides
  steps := h.steps
  dependencies := h.dependencies
  inheritances := h.inheritances
  requests := { h.requests with user := refers_withoutUser h.requests.user hrequests }
  jobs := h.jobs
  rateLimits := ⟨h.rateLimits.key.sublist List.filter_sublist,
    refers_withoutUser (fun r hr ↦ h.rateLimits.user r (List.mem_of_mem_filter hr))
      fun r hr ↦ of_decide_eq_true (List.mem_filter.mp hr).2,
    fun r hr ↦ h.rateLimits.count r (List.mem_of_mem_filter hr)⟩
  idempotency := { h.idempotency with
    user := refers_withoutUser h.idempotency.user hidempotency }

/-- The stages of a deletion. -/
private def accountStage {s : Database} (h : Owned s.1) (userId : Uuid) (k : Nat) : Database :=
  ⟨s.1.retain (accountRetention s.1 userId) (accountOrder.take k),
    s.2.retain (accountRetention_closed h userId) (accountOrder_childrenFirst k)⟩

private theorem userId_of_filter {α : Type} {user : α → Uuid} {rows : List α} {userId : Uuid} :
    ∀ r ∈ rows.filter (user · ≠ userId), user r ≠ userId :=
  fun _ hr ↦ of_decide_eq_true (List.mem_filter.mp hr).2

private theorem deleteAccount_succeeds {s : Database} (h : Owned s.1) (userId : Uuid) :
    ∃ t, Yields (deleteAccount userId) s () t := by
  by_cases hexists : lookup (·.id) s.1.users userId = none
  · refine ⟨s, ?_⟩
    unfold deleteAccount
    rw [yields_query_bind, yields_when]
    exact .inr ⟨not_not.mpr hexists, rfl⟩
  · have hsplit : accountDeletions userId =
        (accountDeletions userId).take 20 ++ [deleteUser userId] := rfl
    have hrecords : Yields (((accountDeletions userId).take 20).forM statement) s ⟨⟩
        (accountStage h userId 20) := by
      have hstages := @yields_stages ((accountDeletions userId).take 20)
        (accountStage h userId) fun k f hf ↦ by
          rw [List.getElem?_take] at hf
          split at hf
          · next hk => exact accountDeletions_stage s.1 userId hk hf
          · cases hf
      exact hstages
    have huser : Constraints (deleteUser userId (accountStage h userId 20).1) := by
      refine deleteUser_constraints (accountStage h userId 20).2 ?_ ?_ ?_ ?_ ?_ ?_ ?_ ?_ ?_ ?_ ?_
        ?_ ?_
      all_goals exact userId_of_filter
    refine ⟨⟨_, huser⟩, ?_⟩
    unfold deleteAccount
    rw [yields_query_bind, yields_when]
    refine .inl ⟨hexists, ?_⟩
    rw [hsplit, List.forM_eq_forM, List.forM_append]
    exact yields_seq.mpr ⟨_, hrecords, yields_forM_cons.mpr
      ⟨_, yields_statement.mpr rfl, yields_forM_nil.mpr rfl⟩⟩

/-! ### Nothing of the account is left -/

/-- No row carries the user's id. -/
structure Absent (userId : Uuid) (db : Db) : Prop where
  users : ∀ r ∈ db.users, r.id ≠ userId
  identities : ∀ r ∈ db.identities, r.userId ≠ userId
  sessions : ∀ r ∈ db.sessions, r.userId ≠ userId
  accountAccess : ∀ r ∈ db.accountAccess, r.userId ≠ some userId
  profiles : ∀ r ∈ db.profiles, r.userId ≠ userId
  events : ∀ r ∈ db.events, r.userId ≠ userId
  capabilities : ∀ r ∈ db.capabilities, r.userId ≠ userId
  goals : ∀ r ∈ db.goals, r.userId ≠ userId
  preferences : ∀ r ∈ db.preferences, r.userId ≠ userId
  analyses : ∀ r ∈ db.analyses, r.userId ≠ userId
  traces : ∀ r ∈ db.traces, r.userId ≠ userId
  proposals : ∀ r ∈ db.proposals, r.userId ≠ userId
  roadmaps : ∀ r ∈ db.roadmaps, r.userId ≠ userId
  requests : ∀ r ∈ db.requests, r.userId ≠ userId
  rateLimits : ∀ r ∈ db.rateLimits, r.userId ≠ userId
  idempotency : ∀ r ∈ db.idempotency, r.userId ≠ userId

private theorem withoutAccount_absent (db : Db) (userId : Uuid) :
    Absent userId (db.withoutAccount userId)
    where
  users := userId_of_filter
  identities := userId_of_filter
  sessions := userId_of_filter
  accountAccess a ha := by
    rcases mem_update.mp ha with ⟨-, hother⟩ | ⟨a₀, -, -, rfl⟩
    · exact hother
    · exact nofun
  profiles := userId_of_filter
  events := userId_of_filter
  capabilities := userId_of_filter
  goals := userId_of_filter
  preferences := userId_of_filter
  analyses := userId_of_filter
  traces := userId_of_filter
  proposals := userId_of_filter
  roadmaps := userId_of_filter
  requests := userId_of_filter
  rateLimits := userId_of_filter
  idempotency := userId_of_filter

/-- What the rows of other users name stays. -/
theorem SameUser.stillThere {α β : Type} {names : α → List Uuid} {user : α → Uuid} {rows : List α}
    {id : β → Uuid} {user' : β → Uuid} {targets : List β}
    (h : SameUser names user rows id user' targets) (userId : Uuid) :
    StillThere names (rows.filter (user · ≠ userId)) id targets
      (targets.filter (user' · ≠ userId)) := by
  intro r hr t ht hname
  obtain ⟨hr, hother⟩ := List.mem_filter.mp hr
  refine List.mem_filter.mpr ⟨ht, decide_eq_true ?_⟩
  rw [h r hr t ht hname]
  exact of_decide_eq_true hother

/-- What a kept row names is there, when it is kept. -/
theorem KeptBy.stillThere {α β : Type} {keep : α → Bool} {keep' : β → Bool}
    {names : α → List Uuid} {rows : List α} {id : β → Uuid} {targets : List β}
    (h : KeptBy keep keep' names rows id targets) :
    StillThere names (rows.filter keep) id targets (targets.filter keep') := by
  intro r hr t ht hname
  obtain ⟨hr, hkeep⟩ := List.mem_filter.mp hr
  exact List.mem_filter.mpr ⟨ht, h r hr t ht hname hkeep⟩

section Documents

variable {s : Database} (h : Owned s.1) (userId : Uuid)

private theorem step_kept {r : Uuid} {st : StepRow} (hother : r ≠ userId)
    (howns : s.1.ownsRoadmap r st.roadmapId) (hst : st ∈ s.1.steps) :
    st ∈ (s.1.withoutAccount userId).steps :=
  List.mem_filter.mpr ⟨hst, decide_eq_true fun hown ↦ hother (ownsRoadmap_unique howns hown)⟩

include h in
private theorem withoutAccount_nothingMissing (hjobs : JobsLinked s.1) :
    NothingMissing s.1 (s.1.withoutAccount userId) where
  profileAnalysis := h.profileAnalysis.stillThere userId
  capabilityEvent := h.capabilityEvent.stillThere userId
  analysisGoal := h.analysisGoal.stillThere userId
  proposalAnalysis := h.proposalAnalysis.stillThere userId
  proposalTrace := h.proposalTrace.stillThere userId
  roadmapGoal := h.roadmapGoal.stillThere userId
  roadmapProposal := h.roadmapProposal.stillThere userId
  roadmapSource := h.roadmapSource.stillThere userId
  roadmapSourceStep r hr st hst hname := by
    obtain ⟨hr, hother⟩ := List.mem_filter.mp hr
    exact step_kept userId (of_decide_eq_true hother) (h.roadmapSourceStep r hr st hst hname) hst
  roadmapSourceAnalysis := h.roadmapSourceAnalysis.stillThere userId
  overrideRoadmap := (accountRetention_closed h userId).overrideRoadmap.stillThere
  overrideStep o ho st hst hname := by
    obtain ⟨ho, hother⟩ := List.mem_filter.mp ho
    refine List.mem_filter.mpr ⟨hst, ?_⟩
    rwa [h.overrideStep o ho st hst hname]
  stepRoadmap := (accountRetention_closed h userId).stepRoadmap.stillThere
  dependencyRoadmap := (accountRetention_closed h userId).dependencyRoadmap.stillThere
  dependencyStep := (accountRetention_closed h userId).dependencyStep.stillThere
  inheritanceStep := (accountRetention_closed h userId).inheritanceStep.stillThere
  inheritanceEvent := (accountRetention_closed h userId).inheritanceEvent.stillThere
  requestEvent := h.requestEvent.stillThere userId
  requestAnalysis := h.requestAnalysis.stillThere userId
  requestProposal := h.requestProposal.stillThere userId
  contextRequest := (accountRetention_closed h userId).contextRequest.stillThere
  contextGoal c hc g hg hname := by
    obtain ⟨hc, hother⟩ := List.mem_filter.mp hc
    have howner := h.contextGoal c hc g hg (Option.mem_toList.mp hname)
    exact List.mem_filter.mpr ⟨hg, decide_eq_true fun huser ↦
      of_decide_eq_true hother (huser ▸ howner)⟩
  jobRequest j hj r hr hname := by
    obtain ⟨hj, hother⟩ := List.mem_filter.mp hj
    have hlinked : j.recomputeRequestId = some r.id := by
      rcases List.mem_append.mp hname with hname | hname
      · exact Option.mem_toList.mp hname
      · exact (hjobs j hj).2 _ (Option.mem_toList.mp hname)
    refine List.mem_filter.mpr ⟨hr, decide_eq_true fun huser ↦ ?_⟩
    exact of_decide_eq_true hother ⟨r.id, hlinked, r, hr, huser, rfl⟩
  responseGoal := h.responseGoal.stillThere userId
  responseAnalysis := h.responseAnalysis.stillThere userId
  responseProposal := h.responseProposal.stillThere userId
  responseTrace := h.responseTrace.stillThere userId
  responseRoadmap := h.responseRoadmap.stillThere userId
  responseRequest := h.responseRequest.stillThere userId

include h in
private theorem withoutAccount_historyComplete :
    HistoryComplete s.1 (s.1.withoutAccount userId) where
  capabilityStep c hc st hst hname := by
    obtain ⟨hc, hother⟩ := List.mem_filter.mp hc
    exact step_kept userId (of_decide_eq_true hother)
      (h.capabilityStep c hc st hst (Option.mem_toList.mp hname)) hst
  eventUser e he u hu hname := by
    obtain ⟨he, hother⟩ := List.mem_filter.mp he
    have huser := h.eventUser e he u hu (List.mem_singleton.mp hname).symm
    exact List.mem_filter.mpr ⟨hu, decide_eq_true (huser ▸ of_decide_eq_true hother)⟩
  eventGoal := h.eventGoal.stillThere userId
  eventCapability := h.eventCapability.stillThere userId
  eventStep e he st hst hname := by
    obtain ⟨he, hother⟩ := List.mem_filter.mp he
    exact step_kept userId (of_decide_eq_true hother)
      (h.eventStep e he st hst (List.mem_singleton.mp hname).symm) hst

end Documents

/-! ### Without the account -/

section Without

variable {s : Database} {userId : Uuid} (h : ∀ u ∈ s.1.users, u.id ≠ userId)

include h

private theorem lookup_absent : lookup (·.id) s.1.users userId = none := by
  cases hfound : lookup (·.id) s.1.users userId with
  | none => rfl
  | some u =>
    obtain ⟨hmem, hid⟩ := lookup_some hfound
    exact absurd hid (h u hmem)

/-- Deleting an account that is not there changes nothing. -/
theorem deleteAccount_absent : (deleteAccount userId).commit s = s := by
  refine commit_of_yields (a := ()) ?_
  unfold deleteAccount
  rw [yields_query_bind, yields_when]
  exact .inr ⟨not_not.mpr (lookup_absent h), rfl⟩

private theorem filter_absent {α : Type} {user : α → Uuid} {rows : List α}
    (huser : Refers user rows (·.id) s.1.users) : rows.filter (user · ≠ userId) = rows := by
  refine List.filter_eq_self.mpr fun r hr ↦ decide_eq_true ?_
  obtain ⟨u, hu, hid⟩ := huser r hr
  exact hid ▸ h u hu

private theorem not_ownsRoadmap (id : Uuid) : ¬ s.1.ownsRoadmap userId id := by
  rintro ⟨r, hr, huser, -⟩
  obtain ⟨u, hu, hid⟩ := s.2.roadmaps.user r hr
  exact h u hu (hid.trans huser)

private theorem not_ownsRequest (id : Uuid) : ¬ s.1.ownsRequest userId id := by
  rintro ⟨r, hr, huser, -⟩
  obtain ⟨u, hu, hid⟩ := s.2.requests.user r hr
  exact h u hu (hid.trans huser)

private theorem withoutAccount_self : s.1.withoutAccount userId = s.1 := by
  have hall {α : Type} {p : α → Prop} [DecidablePred p] {rows : List α} (hnone : ∀ r, ¬ p r) :
      rows.filter (fun r ↦ ¬ p r) = rows :=
    List.filter_eq_self.mpr fun r _ ↦ decide_eq_true (hnone r)
  have haccess : update (·.userId = some userId) (fun a ↦ { a with userId := none })
      s.1.accountAccess = s.1.accountAccess := by
    refine update_eq_self fun a ha huser ↦ ?_
    obtain ⟨u, hu, hid⟩ := s.2.admissions.accessUser a ha userId huser
    exact h u hu hid
  have husers : s.1.users.filter (·.id ≠ userId) = s.1.users :=
    List.filter_eq_self.mpr fun u hu ↦ decide_eq_true (h u hu)
  have hstep : ∀ id, ¬ s.1.ownsStep userId id := by
    rintro id ⟨st, -, howns, -⟩
    exact not_ownsRoadmap h _ howns
  have hjob : ∀ j, ¬ s.1.ownsJob userId j := by
    rintro j ⟨id, -, howns⟩
    exact not_ownsRequest h _ howns
  unfold Db.withoutAccount
  rw [husers, filter_absent h s.2.credentials.identitiesUser,
    filter_absent h s.2.credentials.sessionsUser, haccess,
    filter_absent h s.2.accounts.profilesUser, filter_absent h s.2.events.user,
    filter_absent h s.2.capabilities.user, filter_absent h s.2.goals.user,
    filter_absent h s.2.preferences.user, filter_absent h s.2.analyses.user,
    filter_absent h s.2.proposals.tracesUser, filter_absent h s.2.proposals.user,
    filter_absent h s.2.roadmaps.user, hall fun o ↦ not_ownsRoadmap h _,
    hall fun st ↦ not_ownsRoadmap h _, hall fun d ↦ not_ownsRoadmap h _,
    hall fun i ↦ hstep _, filter_absent h s.2.requests.user, hall fun c ↦ not_ownsRequest h _,
    hall hjob, filter_absent h s.2.rateLimits.user, filter_absent h s.2.rateLimits.user,
    filter_absent h s.2.idempotency.user]

/-- Work of an account that is gone is neither finalized nor failed. -/
theorem settling_absent {item : RecomputeWorkItem} (hitem : item.userId = userId)
    (now clock : Int) :
    (∀ artifacts, (finalizeRecompute item artifacts now clock).commit s = s) ∧
      ∀ errorCode, (failRecompute item errorCode now clock).commit s = s := by
  refine ⟨fun artifacts ↦ ?_, fun errorCode ↦ ?_⟩
  · rcases commit_cases (finalizeRecompute item artifacts now clock) s with heq | ⟨_, hyields⟩
    · exact heq
    · obtain ⟨u, hu, hid⟩ := (finalizeRecompute_spec hyields).owner
      exact absurd (hid.trans hitem) (h u hu)
  · rcases commit_cases (failRecompute item errorCode now clock) s with heq | ⟨_, hyields⟩
    · exact heq
    · rcases failRecompute_spec hyields with heq | hfailed
      · exact heq
      · obtain ⟨r, hr, -, -, -, huser, -⟩ := hfailed.running
        obtain ⟨u, hu, hid⟩ := s.2.requests.user r hr
        exact absurd (hid.trans (huser.trans hitem)) (h u hu)

end Without

/-- A request that is gone becomes no roadmap. -/
theorem reconcile_absent {s : Database} {requestId : Uuid}
    (h : ∀ r ∈ s.1.requests, r.id ≠ requestId) (title : String) (draw : RoadmapDraw) (now : Int) :
    (reconcileAutomaticRoadmap requestId title draw now).commit s = s := by
  have hnone : ∀ row, s.1.pendingFollowUp requestId ≠ some row := by
    intro row hrow
    obtain ⟨hid, hmem, -⟩ := pendingFollowUp_spec hrow
    exact h _ hmem hid
  rcases commit_cases (reconcileAutomaticRoadmap requestId title draw now) s with heq | ⟨_, hyields⟩
  · exact heq
  · cases heffect : reconcileAutomaticRoadmap_spec hyields with
    | nothing written => exact Subtype.ext written
    | settled row pending => exact absurd pending (hnone row)
    | recovered row pending => exact absurd pending (hnone row)
    | created row pending => exact absurd pending (hnone row)

/-- A session of the account resolves no more. -/
theorem resolveSession_withoutAccount {s : Database} {userId : Uuid} {session : SessionRow}
    (hmem : session ∈ s.1.sessions) (huser : session.userId = userId) (invitationRequired : Bool)
    (now : Int) :
    resolveSession invitationRequired session.tokenHash now (s.1.withoutAccount userId) = none := by
  have hnone : ((s.1.withoutAccount userId).sessions.find? fun x ↦
      x.tokenHash = session.tokenHash ∧ now < x.expiresAt ∧ x.revokedAt = none) = none := by
    refine List.find?_eq_none.mpr fun x hx hmatch ↦ ?_
    obtain ⟨hx, hother⟩ := List.mem_filter.mp hx
    obtain rfl := s.2.credentials.token.eq_of_mem hx hmem (of_decide_eq_true hmatch).1
    exact of_decide_eq_true hother huser
  unfold resolveSession
  rw [hnone]
  rfl

/-- Account deletion erases exactly one account.
`src/jobtology_be/infrastructure/persistence/accounts.py:15–63`,
`src/jobtology_be/infrastructure/persistence/schema.py:29–501`,
`src/jobtology_be/infrastructure/persistence/worker.py:63–315`,
`src/jobtology_be/infrastructure/persistence/auth_store.py:154–175`. -/
theorem deleteAccount_erases (s : Database) (userId : Uuid) (howned : Owned s.1)
    (hjobs : JobsLinked s.1) :
    let t := (deleteAccount userId).commit s
    Yields (deleteAccount userId) s () t ∧ t.1 = s.1.withoutAccount userId ∧
    Absent userId t.1 ∧ NothingMissing s.1 t.1 ∧ HistoryComplete s.1 t.1 ∧
    (deleteAccount userId).commit t = t ∧
    (∀ session ∈ s.1.sessions, session.userId = userId → ∀ invitationRequired now,
      resolveSession invitationRequired session.tokenHash now t.1 = none) ∧
    (∀ later : Database, (∀ u ∈ later.1.users, u.id ≠ userId) →
      ∀ item : RecomputeWorkItem, item.userId = userId → ∀ now clock,
      (∀ artifacts, (finalizeRecompute item artifacts now clock).commit later = later) ∧
        ∀ errorCode, (failRecompute item errorCode now clock).commit later = later) ∧
    ∀ request ∈ s.1.requests, request.userId = userId →
      ∀ later : Database, (∀ r ∈ later.1.requests, r.id ≠ request.id) → ∀ title draw now,
      (reconcileAutomaticRoadmap request.id title draw now).commit later = later := by
  intro t
  obtain ⟨t', hyields⟩ := deleteAccount_succeeds howned userId
  have ht : t = t' := commit_of_yields hyields
  have hwritten : t.1 = s.1.withoutAccount userId := by
    rcases deleteAccount_spec hyields with ⟨hnone, rfl⟩ | heq
    · rw [ht, withoutAccount_self fun u hu hid ↦ ?_]
      exact absurd ((lookup_eq_some t'.2.accounts.usersKey).mpr ⟨hu, hid⟩) (by simp [hnone])
    · rw [ht, heq]
  have habsent : Absent userId t.1 := hwritten ▸ withoutAccount_absent s.1 userId
  refine ⟨ht ▸ hyields, hwritten, habsent, ?_, ?_, deleteAccount_absent habsent.users, ?_,
    fun later hlater item hitem now clock ↦ settling_absent hlater hitem now clock,
    fun request _ _ later hlater title draw now ↦ reconcile_absent hlater title draw now⟩
  · rw [hwritten]
    exact withoutAccount_nothingMissing howned userId hjobs
  · rw [hwritten]
    exact withoutAccount_historyComplete howned userId
  · intro session hmem huser invitationRequired now
    rw [hwritten]
    exact resolveSession_withoutAccount hmem huser invitationRequired now

/-- The first of two accounts is erased. -/
theorem deleteAccount_erases_first :
    let s : Database := ⟨{
      users := [⟨1, true, none⟩, ⟨2, true, none⟩]
      sessions := [⟨10, 1, 100, 101, 50, none⟩]
      profiles := [⟨1, 2, none⟩, ⟨2, 1, none⟩]
      goals := [⟨11, 1, .targeted, some "occupation", 90, "UTC", .active⟩]
      events := [⟨12, 1, 11, 2, .goalUpdated, ⟨none, none⟩⟩]
      requests := [⟨13, 1, 2, 12, .pending, none, none, false, none, 0⟩]
      contexts := [⟨13, ⟨some 11, none, ""⟩⟩]
      jobs := [⟨14, .recompute, some 13, some 13, "key", .ready, 0, 0, none, none⟩] }, by decide⟩
    ((deleteAccount 1).commit s).1 = s.1.withoutAccount 1 := by
  intro s
  exact (deleteAccount_erases s 1 (by constructor <;> decide) (by decide)).2.1

end Jobtology.Store
