import Jobtology.Planning.Calendar

/-!
# Availability of an interval

`slot_is_available` looks at the two ends of each segment of at most an hour. Where the clock
changes only between whole hours, this is as good as looking at every instant.
-/

namespace Jobtology.Planning

open Jobtology.Base Jobtology.Time

/-- The weekday of a reading is that of some window, and its time lies in it. -/
def InSomeWindow (windows : List WeeklyAvailabilityWindow) (reading : Int) : Prop :=
  ∃ w ∈ windows, isoWeekday (dateOf reading) = w.weekday ∧ w.startHour * hour ≤ reading % day ∧
    reading % day < w.endHour * hour

/-- What availability is for: the date of the instant is not excluded, and where there are windows
its weekday and time lie in some window. -/
structure FreeInstant (windows : List WeeklyAvailabilityWindow) (excluded : List Int)
    (zone : Zone) (u : Int) : Prop where
  date : zone.date u ∉ excluded
  window : windows ≠ [] → InSomeWindow windows (zone.wall u)

section Instants

variable {windows : List WeeklyAvailabilityWindow} {excluded : List Int} {zone : Zone}

/-- Windows begin and end at whole hours, so the hour of a reading decides. -/
theorem inWindow_iff (reading : Int) :
    inWindow windows reading = true ↔ InSomeWindow windows reading := by
  have hhour (w : WeeklyAvailabilityWindow) :
      (w.startHour ≤ hourOf reading ∧ hourOf reading < w.endHour) ↔
        (w.startHour * hour ≤ reading % day ∧ reading % day < w.endHour * hour) := by
    simp only [hourOf, hour]
    omega
  simp only [inWindow, InSomeWindow, List.any_eq_true, Bool.and_eq_true, decide_eq_true_eq]
  constructor
  · rintro ⟨w, hw, ⟨hday, hstart⟩, hend⟩
    exact ⟨w, hw, hday.symm, (hhour w).mp ⟨hstart, hend⟩⟩
  · rintro ⟨w, hw, hday, htime⟩
    have hboth := (hhour w).mpr htime
    exact ⟨w, hw, ⟨hday.symm, hboth.1⟩, hboth.2⟩

private theorem openInstant_iff_free (u : Int) :
    OpenInstant windows excluded zone u ↔ FreeInstant windows excluded zone u := by
  constructor
  · intro h
    exact ⟨h.1, fun hsome ↦ (inWindow_iff _).mp (h.2 hsome)⟩
  · intro h
    exact ⟨h.date, fun hsome ↦ (inWindow_iff _).mpr (h.window hsome)⟩

/-- The checks of one segment look at its two ends. -/
theorem segmentAvailable_iff (cursor segmentEnd : Int) :
    segmentAvailable windows excluded zone cursor segmentEnd = true ↔
      OpenInstant windows excluded zone cursor ∧
        OpenInstant windows excluded zone (segmentEnd - 1) := by
  simp only [segmentAvailable, OpenInstant, Zone.date]
  cases windows with
  | nil => simp
  | cons w ws => split_ifs <;> grind

/-- A segment of at most an hour is free exactly if its two ends are. -/
theorem segmentAvailable_iff_forall (hz : zone.ChangesOnTheHour) {cursor segmentEnd : Int}
    (hlt : cursor < segmentEnd) (hle : segmentEnd ≤ cursor + hour) :
    segmentAvailable windows excluded zone cursor segmentEnd = true ↔
      ∀ u, cursor ≤ u → u < segmentEnd → OpenInstant windows excluded zone u := by
  rw [segmentAvailable_iff]
  constructor
  · rintro ⟨hstart, htail⟩ u hfrom hto
    rcases Zone.wall_div_hour_of_le hz hfrom hto hle with hsame | hsame
    · exact (openInstant_congr hsame).mpr hstart
    · exact (openInstant_congr hsame).mpr htail
  · intro hall
    exact ⟨hall cursor le_rfl hlt, hall (segmentEnd - 1) (by omega) (by omega)⟩

/-- With rounds enough for what is left, the loop looks at all of it. -/
theorem segmentsAvailable_iff (hz : zone.ChangesOnTheHour) {finish : Int} (rounds : Nat)
    {cursor : Int} (hrounds : finish - cursor ≤ rounds * hour) :
    segmentsAvailable windows excluded zone finish rounds cursor = true ↔
      ∀ u, cursor ≤ u → u < finish → OpenInstant windows excluded zone u := by
  induction rounds generalizing cursor with
  | zero =>
    simp only [segmentsAvailable, true_iff]
    intro u hfrom hto
    simp only [Nat.cast_zero, zero_mul] at hrounds
    omega
  | succ rounds ih =>
    unfold segmentsAvailable
    by_cases hmore : cursor < finish
    · let segmentEnd := min (cursor + slotDuration) finish
      have hend : cursor < segmentEnd ∧ segmentEnd ≤ cursor + hour ∧ segmentEnd ≤ finish := by
        simp only [segmentEnd, slotDuration, hour]
        omega
      have hrest : finish - segmentEnd ≤ rounds * hour := by
        push_cast at hrounds
        simp only [segmentEnd, slotDuration, hour] at hrounds ⊢
        omega
      rw [if_pos hmore]
      show (segmentAvailable windows excluded zone cursor segmentEnd &&
        segmentsAvailable windows excluded zone finish rounds segmentEnd) = true ↔ _
      rw [Bool.and_eq_true, segmentAvailable_iff_forall hz hend.1 hend.2.1, ih hrest]
      constructor
      · rintro ⟨hfirst, hlater⟩ u hfrom hto
        by_cases hu : u < segmentEnd
        · exact hfirst u hfrom hu
        · exact hlater u (not_lt.mp hu) hto
      · intro hall
        exact ⟨fun u hfrom hto ↦ hall u hfrom (by omega), fun u hfrom hto ↦ hall u (by omega) hto⟩
    · rw [if_neg hmore]
      simp only [true_iff]
      intro u hfrom hto
      omega

/-- For every interval of at most 366 days, all windows and excluded dates, and every zone that has
one offset or changes it only from whole hours to whole hours: an interval is available exactly if
every instant of it is free. `src/jobtology_be/planning/calendar.py:59–96`. -/
theorem slotIsAvailable_iff (startsAt endsAt : Int) (windows : List WeeklyAvailabilityWindow)
    (excluded : List Int) (zone : Zone) (hz : zone.ChangesOnTheHour) (hstart : startsAt < endsAt)
    (hspan : endsAt - startsAt ≤ maxFlexibleCalendarHorizon) :
    slotIsAvailable startsAt endsAt windows excluded zone = true ↔
      ∀ u, startsAt ≤ u → u < endsAt → FreeInstant windows excluded zone u := by
  have hrounds : endsAt - startsAt ≤
      ((((endsAt - startsAt) / slotDuration + 1).toNat : Nat) : Int) * hour := by
    simp only [slotDuration, hour]
    omega
  unfold slotIsAvailable
  rw [if_neg (by omega), segmentsAvailable_iff hz _ hrounds]
  simp only [openInstant_iff_free]

/-- Four days across a change from 02:00 to 03:00, from a quarter past an hour on. -/
theorem slotIsAvailable_iff_change :
    slotIsAvailable (hour / 4) (4 * day) [] [5] (.oneChange (2 * hour) 0 hour) = true ↔
      ∀ u, hour / 4 ≤ u → u < 4 * day → FreeInstant [] [5] (.oneChange (2 * hour) 0 hour) u :=
  slotIsAvailable_iff (hour / 4) (4 * day) [] [5] (.oneChange (2 * hour) 0 hour)
    (Zone.oneChange_changesOnTheHour (by decide) (by decide)) (by decide) (by decide)

/-- A clock that is set from 02:00 to 02:30. -/
def halfHourForward : Zone := .oneChange (2 * hour) 0 (hour / 2)

/-- Without windows an hour is available although no window holds its instants; and an hour from
01:45 on, across the change to 02:30, is available although the windows leave out the time from
02:00 to 03:00. -/
theorem slotIsAvailable_outside_windows :
    (slotIsAvailable 0 hour [] [] .utc = true ∧ ¬ InSomeWindow [] (Zone.utc.wall 0)) ∧
    ∃ windows : List WeeklyAvailabilityWindow,
      slotIsAvailable (2 * hour - hour / 4) (3 * hour - hour / 4) windows [] halfHourForward =
        true ∧
      ¬ InSomeWindow windows (halfHourForward.wall (2 * hour)) := by
  refine ⟨⟨by decide, ?_⟩,
    [⟨1, 1, 2, by decide, by decide⟩, ⟨1, 3, 4, by decide, by decide⟩], by decide, ?_⟩
  · rintro ⟨w, hw, -⟩
    exact absurd hw List.not_mem_nil
  · rw [← inWindow_iff]
    decide

end Instants

end Jobtology.Planning
