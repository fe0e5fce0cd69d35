import Jobtology.Relational.Runs
import Jobtology.Store.ProfileFollowUps

/-!
# Runs of profile changes

Changes of any users in any order. The changes of a user that are accepted are made for one version
after the other, and the last of them is followed up by one request, whatever others change later.
-/

namespace Jobtology.Store

open Jobtology.Base Jobtology.Relational
open Jobtology.Relational.Transaction

/-! ### The active goal -/

/-- A user's active goal is the one that is there. -/
theorem activeGoal_eq_some {w : Database} {userId id : Uuid} :
    w.1.activeGoal userId = some id ↔
      ∃ g ∈ w.1.goals, g.userId = userId ∧ g.status = .active ∧ g.id = id := by
  have hmem (g : GoalRow) :
      g ∈ (w.1.goals.filter fun g ↦ g.userId = userId ∧ g.status = .active) ↔
        g ∈ w.1.goals ∧ g.userId = userId ∧ g.status = .active := by
    rw [List.mem_filter, decide_eq_true_eq]
  rcases activeGoals_cases w userId with ⟨g, hfilter, hactive⟩ | ⟨hfilter, hactive⟩
  · rw [hactive, Option.some.injEq]
    rw [hfilter] at hmem
    constructor
    · rintro rfl
      obtain ⟨hg, huser, hstatus⟩ := (hmem g).mp List.mem_cons_self
      exact ⟨g, hg, huser, hstatus, rfl⟩
    · rintro ⟨g', hg', huser, hstatus, rfl⟩
      rw [List.mem_singleton.mp ((hmem g').mpr ⟨hg', huser, hstatus⟩)]
  · rw [hactive]
    rw [hfilter] at hmem
    refine ⟨fun h ↦ (by cases h), ?_⟩
    rintro ⟨g, hg, huser, hstatus, -⟩
    exact absurd ((hmem g).mpr ⟨hg, huser, hstatus⟩) List.not_mem_nil

/-- The active goal is the same where the user's goals are. -/
theorem activeGoal_congr {w w' : Database} {userId : Uuid}
    (h : ∀ g, g.userId = userId → (g ∈ w.1.goals ↔ g ∈ w'.1.goals)) :
    w.1.activeGoal userId = w'.1.activeGoal userId := by
  ext id
  rw [activeGoal_eq_some, activeGoal_eq_some]
  refine exists_congr fun g ↦ ⟨?_, ?_⟩
  · rintro ⟨hg, huser, hrest⟩
    exact ⟨(h g huser).mp hg, huser, hrest⟩
  · rintro ⟨hg, huser, hrest⟩
    exact ⟨(h g huser).mpr hg, huser, hrest⟩

namespace ProfileChange

/-! ### Runs -/

/-- A change, with what is carried forward at its time: an error rolls it back. -/
def apply (s : Database) (x : CarryForward × ProfileChange) : Database :=
  commit (x.2.perform x.1) s

/-- The change succeeds. -/
def accepted (s : Database) (x : CarryForward × ProfileChange) : Bool :=
  match (x.2.perform x.1).run s with
  | .ok _ => true
  | .error _ => false

/-- The versions that the accepted changes of a user were made for. -/
def acceptedVersions (userId : Uuid) : Database → List (CarryForward × ProfileChange) → List Nat
  | _, [] => []
  | s, x :: rest =>
    (if x.2.userId = userId ∧ accepted s x = true then [x.2.expectedVersion] else []) ++
      acceptedVersions userId (apply s x) rest

/-- No event is from a version that its user's profile has not reached. -/
def EventsPast (db : Db) : Prop :=
  ∀ e ∈ db.events, ∀ version ∈ db.profileVersion e.userId, e.version ≤ version

/-- The request of a follow-up is the one of its trigger, with its context and its job. -/
structure Stands (request : RecomputeRequestCreate) (draw : EnqueueDraw) (t : Db) : Prop where
  row : t.requests.filter (·.triggerEventId = request.triggerEventId) = [request.row draw]
  context : t.contexts.filter (·.requestId = draw.requestId) =
    request.context.toList.map (⟨draw.requestId, ·⟩)
  job : t.jobs.filter (·.recomputeRequestId = some draw.requestId) =
    request.context.toList.map fun _ ↦ request.job draw

/-- A change is the last of its user, and is followed up for the goal that it left. -/
structure Current (carryForward : CarryForward) (c : ProfileChange) (w t : Database) : Prop where
  goal : t.1.activeGoal c.userId = w.1.activeGoal c.userId
  event : ∃ e, e.id = c.eventId ∧ t.1.events.filter
    (fun e ↦ e.userId = c.userId ∧ e.version = c.expectedVersion + 1) = [e]
  request : ¬ c.endsGoals w.1 → Stands (c.request carryForward w.1) c.draw t.1

variable {s t w : Database} {c : ProfileChange} {carryForward : CarryForward} {userId : Uuid}
  {x : CarryForward × ProfileChange}

/-- A change is done, or nothing is. -/
theorem apply_cases (s : Database) (x : CarryForward × ProfileChange) :
    (accepted s x = true ∧ Done x.1 x.2 s (apply s x)) ∨
      (accepted s x = false ∧ apply s x = s) := by
  unfold accepted apply commit
  cases hrun : (x.2.perform x.1).run s with
  | error e => exact .inr ⟨rfl, rfl⟩
  | ok r =>
    obtain ⟨u, t⟩ := r
    exact .inl ⟨rfl, perform_done hrun⟩

private theorem acceptedVersions_concat (changes : List (CarryForward × ProfileChange)) :
    acceptedVersions userId s (changes ++ [x]) = acceptedVersions userId s changes ++
      if x.2.userId = userId ∧ accepted (run apply s changes) x = true then
        [x.2.expectedVersion] else [] := by
  induction changes generalizing s with
  | nil => exact List.append_nil _
  | cons y rest ih =>
    rw [List.cons_append, acceptedVersions, acceptedVersions, ih, List.append_assoc]
    rfl

/-! ### A follow-up is written -/

/-- The follow-up writes no profile, goal or event. -/
theorem FollowedUpBy.others (h : FollowedUpBy carryForward c w.1 t.1) :
    t.1.profiles = w.1.profiles ∧ t.1.goals = w.1.goals ∧ t.1.events = w.1.events := by
  generalize ht : t.1 = db at h
  cases h with
  | nothing => exact ⟨rfl, rfl, rfl⟩
  | enqueued => exact ⟨rfl, rfl, rfl⟩

/-- The versions after a change. -/
theorem Done.version (h : Done carryForward c s t) (userId : Uuid) :
    t.1.profileVersion userId =
      if userId = c.userId then some (c.expectedVersion + 1) else s.1.profileVersion userId := by
  obtain ⟨w, hw, hfollow⟩ := h
  unfold Db.profileVersion
  rw [hfollow.others.1]
  exact hw.version userId

private theorem Done.eventsPast (h : Done carryForward c s t) (hpast : EventsPast s.1) :
    EventsPast t.1 := by
  have hversion := h.version
  obtain ⟨w, hw, hfollow⟩ := h
  obtain ⟨e, -, huser, heversion, hevents⟩ := hw.event
  intro e' he' version hmem
  rw [hfollow.others.2.2, hevents] at he'
  rw [hversion] at hmem
  rcases List.mem_append.mp he' with he' | he'
  · by_cases heq : e'.userId = c.userId
    · rw [if_pos heq] at hmem
      obtain rfl := Option.some.inj hmem
      exact Nat.le_succ_of_le (hpast e' he' c.expectedVersion (heq ▸ hw.expected))
    · rw [if_neg heq] at hmem
      exact hpast e' he' version hmem
  · obtain rfl := List.mem_singleton.mp he'
    rw [if_pos huser] at hmem
    exact heversion.trans_le (le_of_eq (Option.some.inj hmem))

/-- The request of a change in the database that it leaves. -/
theorem stands_enqueued {w t : Database} {request : RecomputeRequestCreate}
    {draw : EnqueueDraw} (ht : t.1 = w.1.enqueued request draw)
    (hnew : ∀ r ∈ w.1.requests, r.triggerEventId ≠ request.triggerEventId) :
    Stands request draw t.1 := by
  have hkey := t.2.requests.key
  rw [ht] at hkey
  have hid := (unique_append_singleton.mp hkey).2
  rw [ht]
  refine ⟨?_, ?_, ?_⟩
  · show (w.1.requests ++ [request.row draw]).filter _ = _
    rw [List.filter_append, List.filter_eq_nil_iff.mpr fun r hr ↦ by simpa using hnew r hr,
      List.nil_append]
    exact List.filter_eq_self.mpr fun r hr ↦ by rw [List.mem_singleton.mp hr]; simp [
      RecomputeRequestCreate.row]
  · show (w.1.contexts ++ _).filter _ = _
    rw [List.filter_append, List.filter_eq_nil_iff.mpr, List.nil_append, List.filter_eq_self.mpr]
    · intro c hc
      obtain ⟨context, -, rfl⟩ := List.mem_map.mp hc
      exact decide_eq_true rfl
    · intro c hc hrequest
      obtain ⟨r, hr, hrid⟩ := w.2.requests.contextRequest c hc
      exact hid r hr (hrid.trans (of_decide_eq_true hrequest))
  · show (w.1.jobs ++ _).filter _ = _
    rw [List.filter_append, List.filter_eq_nil_iff.mpr, List.nil_append, List.filter_eq_self.mpr]
    · intro j hj
      obtain ⟨context, -, rfl⟩ := List.mem_map.mp hj
      exact decide_eq_true rfl
    · intro j hj hrequest
      obtain ⟨r, hr, hrid⟩ := w.2.jobs.request j hj _ (of_decide_eq_true hrequest)
      exact hid r hr hrid

/-- A change is current in the database that it leaves. -/
theorem current_of_done (hpast : EventsPast s.1) (h : Done carryForward c s t) :
    ∃ w : Database, c.Written s.1 w.1 ∧ Current carryForward c w t := by
  obtain ⟨w, hw, hfollow⟩ := h
  obtain ⟨-, hgoals, htevents⟩ := hfollow.others
  refine ⟨w, hw, ?_, ?_, fun hgoes ↦ ?_⟩
  · exact activeGoal_congr fun g _ ↦ by rw [hgoals]
  · obtain ⟨e, hid, huser, hversion, hevents⟩ := hw.event
    refine ⟨e, hid, ?_⟩
    rw [htevents, hevents, List.filter_append, List.filter_eq_nil_iff.mpr, List.nil_append]
    · exact List.filter_eq_self.mpr fun e' he' ↦ by
        rw [List.mem_singleton.mp he']
        exact decide_eq_true ⟨huser, hversion⟩
    · intro e' he' hmatch
      obtain ⟨huser', hversion'⟩ := of_decide_eq_true hmatch
      have hle := hpast e' he' c.expectedVersion (huser' ▸ hw.expected)
      omega
  · generalize ht : t.1 = db at hfollow
    cases hfollow with
    | nothing hends => exact absurd hends hgoes
    | enqueued =>
      have hstands := stands_enqueued ht hw.newEvent
      rwa [ht] at hstands

/-! ### Changes of others -/

/-- A follow-up of one user stands after a change of another. -/
theorem Stands.kept {request : RecomputeRequestCreate} {draw : EnqueueDraw}
    (h : Stands request draw s.1) (huser : request.userId ≠ c.userId)
    (hdone : Done carryForward c s t) : Stands request draw t.1 := by
  obtain ⟨w, hw, hfollow⟩ := hdone
  have hnew := hw.newEvent
  obtain ⟨e, hid, -, -, hevents⟩ := hw.event
  obtain ⟨requestIds, howners, hrequests, hcontexts, hjobs⟩ := hw.dropped
  have hrow : request.row draw ∈ s.1.requests := by
    have hmem : request.row draw ∈
        s.1.requests.filter (·.triggerEventId = request.triggerEventId) := by
      rw [h.row]
      exact List.mem_singleton_self _
    exact List.mem_of_mem_filter hmem
  -- What is dropped is another user's.
  have hkept : draw.requestId ∉ requestIds := fun hmem ↦ huser (howners _ hrow hmem)
  have hrowKept : request.row draw ∈ w.1.requests := by
    rw [hrequests]
    exact List.mem_filter.mpr ⟨hrow, decide_eq_true hkept⟩
  have hw' : Stands request draw w.1 := by
    refine ⟨?_, ?_, ?_⟩
    · rw [hrequests, List.filter_comm, h.row]
      exact List.filter_eq_self.mpr fun r hr ↦ by
        rw [List.mem_singleton.mp hr]
        exact decide_eq_true hkept
    · rw [hcontexts, List.filter_filter, ← h.context]
      exact List.filter_congr fun x _ ↦ by
        by_cases heq : x.requestId = draw.requestId
        · simp [heq, hkept]
        · simp [heq]
    · rw [hjobs, List.filter_filter, ← h.job]
      exact List.filter_congr fun j _ ↦ by
        by_cases heq : j.recomputeRequestId = some draw.requestId
        · simp [heq, isRequestJob, hkept]
        · simp [heq]
  generalize ht : t.1 = db at hfollow
  cases hfollow with
  | nothing => exact hw'
  | enqueued =>
    have hkey := t.2.requests.key
    rw [ht] at hkey
    have hother : draw.requestId ≠ c.draw.requestId :=
      (unique_append_singleton.mp hkey).2 _ hrowKept
    have htrigger : c.eventId ≠ request.triggerEventId := fun heq ↦ hnew _ hrowKept heq.symm
    refine ⟨?_, ?_, ?_⟩
    · show (w.1.requests ++ [_]).filter _ = _
      rw [List.filter_append, hw'.row, List.filter_eq_nil_iff.mpr, List.append_nil]
      intro r hr
      rw [List.mem_singleton.mp hr]
      exact fun heq ↦ htrigger (of_decide_eq_true heq)
    · show (w.1.contexts ++ _).filter _ = _
      rw [List.filter_append, hw'.context, List.filter_eq_nil_iff.mpr, List.append_nil]
      intro x hx
      obtain ⟨context, -, rfl⟩ := List.mem_map.mp hx
      simpa using hother.symm
    · show (w.1.jobs ++ _).filter _ = _
      rw [List.filter_append, hw'.job, List.filter_eq_nil_iff.mpr, List.append_nil]
      intro j hj
      obtain ⟨context, -, rfl⟩ := List.mem_map.mp hj
      simpa [RecomputeRequestCreate.job] using hother.symm

/-- The last change of one user is current after a change of another. -/
theorem Current.kept {c' : ProfileChange} {carryForward' : CarryForward}
    (h : Current carryForward c w s) (huser : c.userId ≠ c'.userId)
    (hdone : Done carryForward' c' s t) : Current carryForward c w t := by
  refine ⟨?_, ?_, fun hgoes ↦ (h.request hgoes).kept huser hdone⟩
  · obtain ⟨w', hw', hfollow⟩ := hdone
    rw [← h.goal]
    refine activeGoal_congr fun g hg ↦ ?_
    rw [hfollow.others.2.1]
    exact hw'.goals g (hg ▸ huser)
  · obtain ⟨w', hw', hfollow⟩ := hdone
    obtain ⟨e, hid, hfilter⟩ := h.event
    obtain ⟨e', -, huser', -, hevents⟩ := hw'.event
    refine ⟨e, hid, ?_⟩
    rw [hfollow.others.2.2, hevents, List.filter_append, hfilter, List.filter_eq_nil_iff.mpr,
      List.append_nil]
    intro e'' he'' hmatch
    rw [List.mem_singleton.mp he''] at hmatch
    exact huser ((of_decide_eq_true hmatch).1.symm.trans huser')

/-! ### Every run -/

/-- The last accepted change of a user in a run, and what became of it. -/
def LastCurrent (s : Database) (userId : Uuid) (version : Nat)
    (changes : List (CarryForward × ProfileChange)) (t : Database) : Prop :=
  ∃ before carryForward c after w, changes = before ++ (carryForward, c) :: after ∧
    c.userId = userId ∧ c.expectedVersion + 1 = version ∧
    c.Written (run apply s before).1 w.1 ∧ Current carryForward c w t

/-- The last change stays so under a change that leaves it current. -/
theorem LastCurrent.later {s t t' : Database} {userId : Uuid} {version : Nat}
    {changes : List (CarryForward × ProfileChange)} (h : LastCurrent s userId version changes t)
    (x : CarryForward × ProfileChange)
    (hkept : ∀ carryForward c w, c.userId = userId → Current carryForward c w t →
      Current carryForward c w t') :
    LastCurrent s userId version (changes ++ [x]) t' := by
  obtain ⟨before, carryForward, c, after, w, heq, hcuser, hcversion, hw, hcurrent⟩ := h
  refine ⟨before, carryForward, c, after ++ [x], w, ?_, hcuser, hcversion, hw,
    hkept carryForward c w hcuser hcurrent⟩
  rw [heq, List.append_assoc]
  rfl

/-- What holds of the changes of a run and of the database that they lead to. -/
structure FollowedUp (s : Database) (userId : Uuid) (version : Nat)
    (changes : List (CarryForward × ProfileChange)) (t : Database) : Prop where
  past : EventsPast t.1
  versions : acceptedVersions userId s changes =
    List.range' version (acceptedVersions userId s changes).length
  now : t.1.profileVersion userId = some (version + (acceptedVersions userId s changes).length)
  last : acceptedVersions userId s changes ≠ [] →
    LastCurrent s userId (version + (acceptedVersions userId s changes).length) changes t

section FollowedUp

variable {s : Database} {userId : Uuid} {version : Nat}
  {changes : List (CarryForward × ProfileChange)} {x : CarryForward × ProfileChange}

/-- An accepted change of the user is made for the version that the profile has. -/
theorem FollowedUp.own (h : FollowedUp s userId version changes (run apply s changes))
    (haccepted : accepted (run apply s changes) x = true) (huser : x.2.userId = userId)
    (hdone : Done x.1 x.2 (run apply s changes) (apply (run apply s changes) x)) :
    FollowedUp s userId version (changes ++ [x]) (apply (run apply s changes) x) := by
  have hexpected : x.2.expectedVersion =
      version + (acceptedVersions userId s changes).length := by
    obtain ⟨w, hw, -⟩ := hdone
    have hfound := hw.expected
    rw [huser, h.now] at hfound
    exact (Option.some.inj hfound).symm
  have hversions : acceptedVersions userId s (changes ++ [x]) =
      acceptedVersions userId s changes ++ [x.2.expectedVersion] := by
    rw [acceptedVersions_concat, if_pos ⟨huser, haccepted⟩]
  have hlength : (acceptedVersions userId s (changes ++ [x])).length =
      (acceptedVersions userId s changes).length + 1 := by
    rw [hversions, List.length_append, List.length_singleton]
  refine ⟨hdone.eventsPast h.past, ?_, ?_, fun _ ↦ ?_⟩
  · rw [hlength, List.range'_concat, one_mul, hversions, hexpected, ← h.versions]
  · rw [hdone.version userId, if_pos huser.symm, hexpected, hlength]
    rfl
  · obtain ⟨w, hw, hcurrent⟩ := current_of_done h.past hdone
    exact ⟨changes, x.1, x.2, [], w, rfl, huser, by rw [hexpected, hlength]; rfl, hw, hcurrent⟩

/-- A change of another user leaves the version and the last change. -/
theorem FollowedUp.other (h : FollowedUp s userId version changes (run apply s changes))
    (huser : x.2.userId ≠ userId)
    (hdone : Done x.1 x.2 (run apply s changes) (apply (run apply s changes) x)) :
    FollowedUp s userId version (changes ++ [x]) (apply (run apply s changes) x) := by
  have hversions : acceptedVersions userId s (changes ++ [x]) =
      acceptedVersions userId s changes := by
    rw [acceptedVersions_concat, if_neg fun hboth ↦ huser hboth.1, List.append_nil]
  refine ⟨hdone.eventsPast h.past, ?_, ?_, fun hne ↦ ?_⟩
  · rw [hversions]
    exact h.versions
  · rw [hversions, hdone.version userId, if_neg fun heq ↦ huser heq.symm]
    exact h.now
  · rw [hversions] at hne ⊢
    exact (h.last hne).later x fun _ _ _ hcuser hcurrent ↦
      hcurrent.kept (fun hsame ↦ huser (hsame.symm.trans hcuser)) hdone

/-- A rejected change leaves everything. -/
theorem FollowedUp.rejected
    (h : FollowedUp s userId version changes (run apply s changes))
    (hrejected : accepted (run apply s changes) x = false)
    (hsame : apply (run apply s changes) x = run apply s changes) :
    FollowedUp s userId version (changes ++ [x]) (apply (run apply s changes) x) := by
  have hnot : ¬ (x.2.userId = userId ∧ accepted (run apply s changes) x = true) := by
    rintro ⟨-, haccepted⟩
    rw [hrejected] at haccepted
    cases haccepted
  have hversions : acceptedVersions userId s (changes ++ [x]) =
      acceptedVersions userId s changes := by
    rw [acceptedVersions_concat, if_neg hnot, List.append_nil]
  rw [hsame]
  refine ⟨h.past, ?_, ?_, fun hne ↦ ?_⟩
  · rw [hversions]
    exact h.versions
  · rw [hversions]
    exact h.now
  · rw [hversions] at hne ⊢
    exact (h.last hne).later x fun _ _ _ _ hcurrent ↦ hcurrent

end FollowedUp

/-- A change that fails changes nothing. The accepted changes of a user are made for one version
after the other, so that none is made for a version that another one has changed; the profile is at
the version after the last of them, and that one is followed up by one request, for the goal and
with what it left. `src/jobtology_be/infrastructure/persistence/store.py:134–433`,
`src/jobtology_be/infrastructure/persistence/configured_recompute.py:34–119`,
`src/jobtology_be/infrastructure/persistence/roadmap_steps.py:41–204`,
`src/jobtology_be/infrastructure/persistence/goal_deletion.py:28–150`. -/
theorem changes_followed_up {s : Database} (hpast : EventsPast s.1) {userId : Uuid} {version : Nat}
    (hversion : s.1.profileVersion userId = some version)
    (changes : List (CarryForward × ProfileChange)) :
    let versions := acceptedVersions userId s changes
    let t := run apply s changes
    (∀ x, accepted t x = false → apply t x = t) ∧
      versions = List.range' version versions.length ∧
      t.1.profileVersion userId = some (version + versions.length) ∧
      (versions ≠ [] → LastCurrent s userId (version + versions.length) changes t) := by
  have hall : FollowedUp s userId version changes (run apply s changes) := by
    refine run_history ⟨hpast, rfl, hversion, fun hne ↦ absurd rfl hne⟩ (fun changes x h ↦ ?_)
      changes
    rcases apply_cases (run apply s changes) x with ⟨haccepted, hdone⟩ | ⟨hrejected, hsame⟩
    · by_cases huser : x.2.userId = userId
      · exact h.own haccepted huser hdone
      · exact h.other huser hdone
    · exact h.rejected hrejected hsame
  refine ⟨fun x hrejected ↦ ?_, hall.versions, hall.now, hall.last⟩
  rcases apply_cases (run apply s changes) x with ⟨haccepted, -⟩ | ⟨-, hsame⟩
  · exact absurd (hrejected.symm.trans haccepted) Bool.false_ne_true
  · exact hsame

/-! ### Changes of two users -/

/-- A user with an active goal and the context of an earlier request, and another user. -/
def pursuedDb : Db where
  users := [⟨1, true, none⟩, ⟨2, true, none⟩]
  profiles := [⟨1, 2, none⟩, ⟨2, 1, none⟩]
  goals := [⟨11, 1, .targeted, some "occupation", 90, "UTC", .active⟩]
  events := [⟨13, 1, 11, 2, .goalUpdated, ⟨none, none⟩⟩]
  requests := [⟨14, 1, 2, 13, .ready, none, none, false, none, 0⟩]
  contexts := [⟨14, ⟨some 11, none, "context"⟩⟩]

private theorem pursuedDb_constraints : Constraints pursuedDb := by decide +kernel

/-- The context is carried forward as it is. -/
def sameCarried : CarryForward := fun _ context _ _ ↦ some context

/-- Two changes of the user for the same version, and one of the other user. -/
def concurrentChanges : List (CarryForward × ProfileChange) :=
  [(sameCarried, .profile ⟨1, 2⟩ ⟨30, id, ⟨31, 32, 5⟩⟩),
    (sameCarried, .profile ⟨1, 2⟩ ⟨40, id, ⟨41, 42, 6⟩⟩),
    (sameCarried, .profile ⟨2, 1⟩ ⟨50, id, ⟨51, 52, 7⟩⟩)]

/-- One of the two is accepted, and its request is pending with the context. -/
theorem changes_followed_up_pursued :
    ∃ t, t = run apply ⟨pursuedDb, pursuedDb_constraints⟩ concurrentChanges ∧
      acceptedVersions 1 ⟨pursuedDb, pursuedDb_constraints⟩ concurrentChanges = [2] ∧
      t.1.profileVersion 1 = some 3 ∧
      LastCurrent ⟨pursuedDb, pursuedDb_constraints⟩ 1 3 concurrentChanges t ∧
      (t.1.requests.filter (·.triggerEventId = 30)).map (fun r ↦ (r.id, r.state)) =
        [(31, .pending)] ∧
      t.1.contexts.filter (·.requestId = 31) = [⟨31, ⟨some 11, none, "context"⟩⟩] := by
  have hversions : acceptedVersions 1 ⟨pursuedDb, pursuedDb_constraints⟩ concurrentChanges =
      [2] := by
    decide +kernel
  obtain ⟨-, -, hnow, hlast⟩ := @changes_followed_up ⟨pursuedDb, pursuedDb_constraints⟩
    (by unfold EventsPast; decide +kernel) 1 2 (by decide +kernel) concurrentChanges
  rw [hversions] at hnow hlast
  exact ⟨_, rfl, hversions, hnow, hlast (List.cons_ne_nil _ _), by decide +kernel,
    by decide +kernel⟩

end ProfileChange

end Jobtology.Store
