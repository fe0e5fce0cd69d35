import Jobtology.Weekly.PlanSchedule
import Mathlib.Logic.Relation

/-!
# Packing ends

Every round of the loop of `_pack` moves its cursor forward, so the loop ends: with every hour
given out, or at the end of the calendar. It raises no other error.
-/

namespace Jobtology.Weekly

open Jobtology.Base Jobtology.Time Jobtology.Planning

variable {args : PackArgs}

/-! ### Every round moves forward -/

/-- Moving on moves forward where midnights are unambiguous. -/
theorem lt_of_skipTo {st : PackState} {cursor : Int}
    (hzone : ∀ d, args.timezone.midnightInstant d ≤ st.cursor → d ≤ args.timezone.date st.cursor)
    (h : args.skipTo st = some cursor) : st.cursor < cursor := by
  unfold PackArgs.skipTo at h
  dsimp only at h
  split at h
  · obtain rfl := Option.some.inj h
    have hone : 1 ≤ max 1 (ceilHours (args.timezone.midnightInstant
        (args.timezone.date st.cursor + 1) - st.cursor)) := le_max_left _ _
    simp only [hour]
    omega
  split at h
  · obtain rfl := Option.some.inj h
    -- the date at the cursor comes before the Monday after its week
    by_contra hback
    have hdate := hzone _ (not_lt.mp hback)
    unfold PackArgs.weekOf at hdate
    omega
  split at h
  · obtain rfl := Option.some.inj h
    simp only [hour]
    omega
  · cases h

private theorem openActivities_cursor (st : PackState) :
    (args.openActivities st).cursor = st.cursor := by
  obtain ⟨ready, active, hopen, -⟩ := openActivities_fields args st
  rw [hopen]

private theorem takeTurn_cursor {st st' : PackState} {key : Uuid}
    (h : args.takeTurn st = .ok (key, st')) :
    st'.cursor = st.cursor := by
  unfold PackArgs.takeTurn at h
  split at h
  · obtain ⟨-, rfl⟩ := Prod.mk.inj (Except.ok.inj h)
    rfl
  · split at h
    · obtain ⟨-, rfl⟩ := Prod.mk.inj (Except.ok.inj h)
      rfl
    · cases h

/-- The cursor strictly increases in every round. -/
theorem lt_of_packStep (hzone : args.timezone.MidnightsUnambiguous) {st st' : PackState}
    (h : args.packStep st = .ok st') : st.cursor < st'.cursor := by
  unfold PackArgs.packStep at h
  split at h
  · cases h
  split at h
  · next cursor hskip =>
    obtain rfl := Except.ok.inj h
    exact lt_of_skipTo (fun d ↦ hzone d _) hskip
  · obtain ⟨⟨key, turn⟩, hturn, h⟩ := bind_eq_ok.mp h
    obtain rfl := Except.ok.inj h
    obtain ⟨w, r, a, hframe⟩ := endTurn_frame args key (args.giveHour key turn)
    rw [hframe]
    change st.cursor < turn.cursor + hour
    rw [takeTurn_cursor hturn, openActivities_cursor]
    simp only [hour]
    omega

/-! ### A round fails only at the end of the calendar -/

/-- While hours are left some step has hours left. -/
theorem exists_remaining_ne_zero {st : PackState} (h : QueueLaws args st)
    (hleft : st.hoursLeft ≠ 0) : ∃ k ∈ args.keys, st.remaining k ≠ 0 := by
  by_contra hnone
  push Not at hnone
  apply hleft
  rw [h.total, List.map_congr_left hnone]
  simp

/-- A turn can be taken while some step has hours left. -/
theorem takeTurn_ne_error {st : PackState} (h : ∃ k ∈ args.keys, st.remaining k ≠ 0)
    (e : PackError) : args.takeTurn st ≠ .error e := by
  unfold PackArgs.takeTurn
  split
  · exact nofun
  · split
    · exact nofun
    · next hnone =>
      obtain ⟨k, hk, hne⟩ := h
      have hzero := List.find?_eq_none.mp hnone k hk
      simp [hne] at hzero

private theorem packStep_error {st : PackState} {e : PackError} (h : QueueLaws args st)
    (hleft : st.hoursLeft ≠ 0) (hstep : args.packStep st = .error e) :
    args.calendarLimit ≤ st.cursor ∧ e = .scheduling
      "Requested work does not fit the available calendar within 520 weeks" := by
  unfold PackArgs.packStep at hstep
  split at hstep
  · next hlimit => exact ⟨hlimit, (Except.error.inj hstep).symm⟩
  split at hstep
  · cases hstep
  · obtain ⟨k, hk, hne⟩ := exists_remaining_ne_zero h hleft
    obtain ⟨ready, active, hopen, -⟩ := openActivities_fields args st
    have hsome : ∃ k ∈ args.keys, (args.openActivities st).remaining k ≠ 0 := by
      rw [hopen]
      exact ⟨k, hk, hne⟩
    cases hturn : args.takeTurn (args.openActivities st) with
    | error e => exact absurd hturn (takeTurn_ne_error hsome e)
    | ok turn =>
      rw [hturn] at hstep
      cases hstep

/-! ### The loop ends -/

/-- One round that the loop makes. -/
def PackArgs.Round (args : PackArgs) (st st' : PackState) : Prop :=
  st.hoursLeft ≠ 0 ∧ args.packStep st = .ok st'

/-- From any state that keeps the laws the loop ends, given as many rounds as there are
microseconds to the end of the calendar. -/
theorem packLoop_ends (hzone : args.timezone.MidnightsUnambiguous) {st : PackState}
    (hqueues : QueueLaws args st) (hbook : BookLaws args st) :
    ∃ last, Relation.ReflTransGen args.Round st last ∧ QueueLaws args last ∧ BookLaws args last ∧
      ∀ rounds, (args.calendarLimit - st.cursor).toNat < rounds →
        (last.hoursLeft = 0 ∧ args.packLoop rounds st = .ok last) ∨
        (last.hoursLeft ≠ 0 ∧ args.calendarLimit ≤ last.cursor ∧
          args.packLoop rounds st = .error (.scheduling
            "Requested work does not fit the available calendar within 520 weeks")) := by
  -- induction on the time that is left
  induction hn : (args.calendarLimit - st.cursor).toNat using Nat.strong_induction_on
    generalizing st with
  | _ n ih =>
    by_cases hleft : st.hoursLeft = 0
    · refine ⟨st, .refl, hqueues, hbook, fun rounds _ ↦ .inl ⟨hleft, ?_⟩⟩
      cases rounds with
      | zero => exact if_pos hleft
      | succ rounds => exact if_pos hleft
    cases hstep : args.packStep st with
    | error e =>
      obtain ⟨hlimit, rfl⟩ := packStep_error hqueues hleft hstep
      refine ⟨st, .refl, hqueues, hbook, fun rounds hrounds ↦ .inr ⟨hleft, hlimit, ?_⟩⟩
      cases rounds with
      | zero => omega
      | succ rounds =>
        unfold PackArgs.packLoop
        rw [if_neg hleft, hstep]
        rfl
    | ok next =>
      have hlt := lt_of_packStep hzone hstep
      have hbefore : st.cursor < args.calendarLimit := by
        by_contra hlimit
        unfold PackArgs.packStep at hstep
        rw [if_pos (not_lt.mp hlimit)] at hstep
        cases hstep
      obtain ⟨hqueues', hbook'⟩ := packStep_counters hqueues hbook hstep
      obtain ⟨last, hruns, hlaws, hlast, hends⟩ := ih _ (by omega) hqueues' hbook' rfl
      refine ⟨last, .head ⟨hleft, hstep⟩ hruns, hlaws, hlast, fun rounds hrounds ↦ ?_⟩
      cases rounds with
      | zero => omega
      | succ rounds =>
        unfold PackArgs.packLoop
        rw [if_neg hleft, hstep]
        exact hends rounds (by omega)

/-- A step without hours left has been given all that were asked for. -/
theorem scheduledOf_of_done {st : PackState} (hbook : BookLaws args st) {k : Uuid}
    (hhours : 1 ≤ args.requested k) (hdone : st.remaining k = 0) :
    ∃ schedule, scheduledOf st k = .ok (k, schedule) ∧
      (schedule.allocations.map (·.hours)).sum = args.requested k := by
  have hcount := hbook.left k
  have hne : hoursGiven k st.placed ≠ [] := by
    intro hnil
    rw [hnil, List.length_nil] at hcount
    omega
  obtain ⟨first, hfirst⟩ : ∃ first, st.first k = some first :=
    ⟨_, by rw [hbook.first, List.getLast?_eq_some_getLast hne]⟩
  obtain ⟨last, hlast⟩ : ∃ last, st.last k = some last :=
    ⟨_, by rw [hbook.last, List.head?_eq_some_head hne, Option.map_some]⟩
  refine ⟨⟨first, last, st.allocations k⟩, ?_, ?_⟩
  · unfold scheduledOf
    rw [hfirst, hlast]
  · dsimp only
    rw [hbook.weeks, sum_byWeek, List.length_map]
    omega

/-- Packing ends, for any steps with hours of at least 1, whatever their prerequisites, the steps
already placed and the customization: every round moves the cursor forward, and after enough rounds
either every step to place has all its hours or the end of the calendar is reached with hours left
over. `src/jobtology_be/application/weekly_plan.py:107–215`. -/
theorem pack_ends (args : PackArgs) (hzone : args.timezone.MidnightsUnambiguous)
    (hhours : ∀ k ∈ args.keys, 1 ≤ args.requested k) :
    (∀ st st', args.packStep st = .ok st' → st.cursor < st'.cursor) ∧
    ∃ last, Relation.ReflTransGen args.Round args.initial last ∧
      ∀ rounds, (args.calendarLimit - args.firstHour).toNat < rounds →
        (last.hoursLeft = 0 ∧ ∃ packed, args.pack rounds = .ok packed ∧
          ∀ k ∈ args.keys, ∃ schedule, (k, schedule) ∈ packed ∧
            (schedule.allocations.map (·.hours)).sum = args.requested k) ∨
        (last.hoursLeft ≠ 0 ∧ args.calendarLimit ≤ last.cursor ∧
          args.pack rounds = .error (.scheduling
            "Requested work does not fit the available calendar within 520 weeks")) := by
  refine ⟨fun _ _ ↦ lt_of_packStep hzone, ?_⟩
  obtain ⟨last, hruns, hqueues, hbook, hends⟩ :=
    packLoop_ends hzone (QueueLaws.initial hhours) BookLaws.initial
  refine ⟨last, hruns, fun rounds hrounds ↦ (hends rounds hrounds).imp ?_ ?_⟩
  · rintro ⟨hleft, hloop⟩
    have hdone := eq_zero_of_sum_eq_zero hqueues.nonneg (by rw [← hqueues.total, hleft])
    have hall (k : Uuid) (hk : k ∈ args.keys) :=
      scheduledOf_of_done hbook (hhours k hk) (hdone k hk)
    obtain ⟨scheduled, hscheduled⟩ := exists_mapM_ok_iff.mpr fun k hk ↦
      (hall k hk).elim fun schedule h ↦ ⟨(k, schedule), h.1⟩
    refine ⟨hleft, args.fixed ++ scheduled, ?_, fun k hk ↦ ?_⟩
    · unfold PackArgs.pack
      rw [hloop, bind_eq_ok]
      exact ⟨last, rfl, bind_eq_ok.mpr ⟨scheduled, hscheduled, rfl⟩⟩
    · obtain ⟨schedule, hok, hsum⟩ := hall k hk
      obtain ⟨entry, hentry, hok'⟩ := exists_of_mem_left (forall₂_of_mapM_ok hscheduled) hk
      obtain rfl := Except.ok.inj (hok.symm.trans hok')
      exact ⟨schedule, List.mem_append_right _ hentry, hsum⟩
  · rintro ⟨hleft, hlimit, hloop⟩
    refine ⟨hleft, hlimit, ?_⟩
    unfold PackArgs.pack
    rw [hloop]
    rfl

/-- Two steps that wait for each other. -/
def cyclicArgs : PackArgs where
  context := sampleContext
  ordered := [sampleStep 7 "basics" [8], sampleStep 8 "project" [7]]
  overrides := none
  startsAt := 0
  start := 1
  timezone := .utc
  fixed := []

/-- Activities that wait for each other do not keep the plan from ending. -/
theorem pack_ends_cyclic : ∃ last, Relation.ReflTransGen cyclicArgs.Round cyclicArgs.initial last ∧
    (last.hoursLeft = 0 ∨ cyclicArgs.calendarLimit ≤ last.cursor) := by
  obtain ⟨-, last, hruns, hends⟩ :=
    pack_ends cyclicArgs (Zone.fixed_midnightsUnambiguous 0) (by decide +kernel)
  exact ⟨last, hruns, (hends _ (Nat.lt_succ_self _)).imp And.left fun h ↦ h.2.1⟩

end Jobtology.Weekly
