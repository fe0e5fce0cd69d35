import Jobtology.Planning.Problem
import Jobtology.Time.Zone
import Mathlib.Logic.Function.Basic
import Mathlib.Tactic.Positivity
import Mathlib.Tactic.Ring

/-!
# The flexible calendar

`planning/calendar.py`: which hours are available to a user, and the greedy choice of the hours of
a planning calendar within the weekly capacity.
-/

namespace Jobtology.Planning

open Jobtology.Base Jobtology.Time

/-- `MAX_FLEXIBLE_CALENDAR_HORIZON`. -/
def maxFlexibleCalendarHorizon : Int := 366 * day

/-- `FlexibleCalendarError`, with its message. `src/jobtology_be/planning/calendar.py:10–11`. -/
structure FlexibleCalendarError where
  message : String
  deriving DecidableEq

/-! ### Availability of an hour -/

/-- A local reading lies in one of the weekly windows. -/
def inWindow (windows : List WeeklyAvailabilityWindow) (reading : Int) : Bool :=
  windows.any fun w ↦ decide (w.weekday = isoWeekday (dateOf reading)) &&
    decide (w.startHour ≤ hourOf reading) && decide (hourOf reading < w.endHour)

/-- The checks on one segment of occupied time: neither its first nor its last microsecond lies on
an excluded date or, where there are windows, outside all of them. -/
def segmentAvailable (windows : List WeeklyAvailabilityWindow) (excluded : List Int)
    (zone : Zone) (cursor segmentEnd : Int) : Bool :=
  let localStart := zone.wall cursor
  let localTail := zone.wall (segmentEnd - 1)
  if dateOf localStart ∈ excluded ∨ dateOf localTail ∈ excluded then false
  else if !windows.isEmpty && !(inWindow windows localStart && inWindow windows localTail) then
    false
  else true

/-- The loop over the segments of at most one hour, for at most so many rounds. -/
def segmentsAvailable (windows : List WeeklyAvailabilityWindow) (excluded : List Int)
    (zone : Zone) (finish : Int) : Nat → Int → Bool
  | 0, _ => true
  | rounds + 1, cursor =>
    if cursor < finish then
      let segmentEnd := min (cursor + slotDuration) finish
      segmentAvailable windows excluded zone cursor segmentEnd &&
        segmentsAvailable windows excluded zone finish rounds segmentEnd
    else true

/-- `slot_is_available`. Each round moves the cursor by an hour or to the end.
`src/jobtology_be/planning/calendar.py:59–91`. -/
def slotIsAvailable (startsAt endsAt : Int) (windows : List WeeklyAvailabilityWindow)
    (excluded : List Int) (zone : Zone) : Bool :=
  if endsAt ≤ startsAt ∨ endsAt - startsAt > maxFlexibleCalendarHorizon then false
  else segmentsAvailable windows excluded zone endsAt
    ((endsAt - startsAt) / slotDuration + 1).toNat startsAt

/-- One hour is a single segment. -/
theorem slotIsAvailable_hour (h : Int) (windows : List WeeklyAvailabilityWindow)
    (excluded : List Int) (zone : Zone) :
    slotIsAvailable h (h + hour) windows excluded zone =
      segmentAvailable windows excluded zone h (h + hour) := by
  have hrounds : ((h + hour - h) / slotDuration + 1).toNat = 2 := by
    rw [show h + hour - h = hour by omega]
    rfl
  unfold slotIsAvailable
  rw [if_neg (by simp only [maxFlexibleCalendarHorizon, hour, day]; omega), hrounds]
  simp [segmentsAvailable, slotDuration]

/-- What the availability of an hour says about its two ends. -/
theorem slotIsAvailable_hour_iff (h : Int) (windows : List WeeklyAvailabilityWindow)
    (excluded : List Int) (zone : Zone) :
    slotIsAvailable h (h + hour) windows excluded zone = true ↔
      ∀ reading ∈ [zone.wall h, zone.wall (h + hour - 1)],
        dateOf reading ∉ excluded ∧ (windows ≠ [] → inWindow windows reading = true) := by
  rw [slotIsAvailable_hour]
  simp only [segmentAvailable, List.forall_mem_cons, List.not_mem_nil, IsEmpty.forall_iff,
    implies_true, and_true]
  cases windows with
  | nil => simp
  | cons w ws => split_ifs <;> grind

/-- An instant that the calendar leaves free: its date is not excluded, and where there are
windows its reading lies in one. -/
def OpenInstant (windows : List WeeklyAvailabilityWindow) (excluded : List Int) (zone : Zone)
    (u : Int) : Prop :=
  zone.date u ∉ excluded ∧ (windows ≠ [] → inWindow windows (zone.wall u) = true)

/-- Readings of the same clock hour lie on the same date and in the same windows. -/
theorem openInstant_congr {windows : List WeeklyAvailabilityWindow} {excluded : List Int}
    {zone : Zone} {u v : Int} (h : zone.wall u / hour = zone.wall v / hour) :
    OpenInstant windows excluded zone u ↔ OpenInstant windows excluded zone v := by
  have hdate : dateOf (zone.wall u) = dateOf (zone.wall v) := by
    simp only [dateOf, hour, day] at h ⊢
    omega
  have hhour : hourOf (zone.wall u) = hourOf (zone.wall v) := by
    simp only [hourOf, hour, day] at h ⊢
    omega
  simp only [OpenInstant, Zone.date, inWindow, hdate, hhour]

/-- An available hour is free at both ends, and throughout where the clock changes only on the
hour. -/
theorem openInstant_of_slotIsAvailable {h u : Int} {windows : List WeeklyAvailabilityWindow}
    {excluded : List Int} {zone : Zone}
    (havail : slotIsAvailable h (h + hour) windows excluded zone = true) (hle : h ≤ u)
    (hlt : u < h + hour) (hends : u = h ∨ u = h + hour - 1 ∨ zone.ChangesOnTheHour) :
    OpenInstant windows excluded zone u := by
  have hboth := (slotIsAvailable_hour_iff h windows excluded zone).mp havail
  have hstart : OpenInstant windows excluded zone h := hboth _ (by simp)
  have hend : OpenInstant windows excluded zone (h + hour - 1) := hboth _ (by simp)
  rcases hends with rfl | rfl | hz
  · exact hstart
  · exact hend
  · rcases Zone.wall_div_hour hz hle hlt with hsame | hsame
    · exact (openInstant_congr hsame).mpr hstart
    · exact (openInstant_congr hsame).mpr hend

/-! ### The calendar -/

/-- The top of the local hour of a timestamp, as an instant. -/
def topOfHour (value : AwareDateTime) : Int :=
  ({ value with wall := value.wall / hour * hour } : AwareDateTime).instant

/-- `_next_hour`: the top of the local hour, or one hour after it.
`src/jobtology_be/planning/calendar.py:94–96`. -/
def nextHour (value : AwareDateTime) : Int :=
  let rounded := topOfHour value
  if rounded = value.instant then rounded else rounded + slotDuration

/-- `f"{iso_year}-W{iso_week:02d}"`. -/
def weekKey (week : Int × Int) : String :=
  toString week.1 ++ "-W" ++ (if 0 ≤ week.2 ∧ week.2 < 10 then "0" else "") ++ toString week.2

private theorem weekKey_not_blank (week : Int × Int) : isBlank (weekKey week) = false := by
  refine isBlank_eq_false 'W' ?_ (by decide)
  have hw : 'W' ∈ ("-W" : String).toList := by decide
  simp only [weekKey, String.toList_append, List.mem_append]
  exact .inl (.inl (.inr hw))

/-- The local ISO week of an instant. -/
def weekAt (zone : Zone) (u : Int) : Int × Int := isoCalendar (zone.date u)

/-- The planning slot of one hour, keyed by its local ISO week. -/
def gridSlot (zone : Zone) (slotStart : Int) : PlanningSlot where
  startsAt := slotStart
  endsAt := slotStart + slotDuration
  capacityWeekKey := weekKey (weekAt zone slotStart)
  accepted := (PlanningSlotData.postInit_ok_iff _).mpr ⟨rfl, weekKey_not_blank _⟩

/-- The loop over the hours of the grid, for at most so many rounds. -/
def calendarLoop (capacity : Int) (windows : List WeeklyAvailabilityWindow) (excluded : List Int)
    (zone : Zone) (target : Int) : Nat → Int → (Int × Int → Int) → List PlanningSlot
  | 0, _, _ => []
  | rounds + 1, slotStart, allocatedByWeek =>
    if slotStart + slotDuration ≤ target then
      let week := weekAt zone slotStart
      let allocated := allocatedByWeek week
      if allocated < capacity ∧
          slotIsAvailable slotStart (slotStart + slotDuration) windows excluded zone then
        gridSlot zone slotStart :: calendarLoop capacity windows excluded zone target rounds
          (slotStart + slotDuration) (Function.update allocatedByWeek week (allocated + 1))
      else
        calendarLoop capacity windows excluded zone target rounds (slotStart + slotDuration)
          allocatedByWeek
    else []

/-- `flexible_weekly_slots` for aware timestamps. `src/jobtology_be/planning/calendar.py:14–56`. -/
def flexibleWeeklySlots (planningStartedAt : AwareDateTime) (targetBy : Int)
    (availableHoursPerWeek : Int) (weeklyAvailability : List WeeklyAvailabilityWindow)
    (unavailableDates : List Int) : Except FlexibleCalendarError (List PlanningSlot) :=
  if availableHoursPerWeek < 1 then .error ⟨"weekly availability must be positive"⟩
  else if targetBy ≤ planningStartedAt.instant then .ok []
  else if targetBy - planningStartedAt.instant > maxFlexibleCalendarHorizon then
    .error ⟨"planning horizon exceeds the flexible calendar limit"⟩
  else
    let first := nextHour planningStartedAt
    .ok (calendarLoop availableHoursPerWeek weeklyAvailability unavailableDates
      planningStartedAt.zone targetBy ((targetBy - first) / slotDuration).toNat first fun _ ↦ 0)

/-! ### What the loop emits -/

section Loop

variable {capacity : Int} {windows : List WeeklyAvailabilityWindow} {excluded : List Int}
  {zone : Zone} {target : Int}

/-- An hour that is available and ends by the target. -/
def Usable (windows : List WeeklyAvailabilityWindow) (excluded : List Int) (zone : Zone)
    (target h : Int) : Prop :=
  slotIsAvailable h (h + hour) windows excluded zone = true ∧ h + hour ≤ target

/-- Number of slots of a local week. -/
def weekCount (zone : Zone) (week : Int × Int) (slots : List PlanningSlot) : Int :=
  slots.countP fun s ↦ weekAt zone s.startsAt = week

/-- Number of slots of a local week that start before an hour. -/
def weekCountBefore (zone : Zone) (week : Int × Int) (h : Int) (slots : List PlanningSlot) : Int :=
  slots.countP fun s ↦ weekAt zone s.startsAt = week ∧ s.startsAt < h

private theorem weekCountBefore_nonneg (zone : Zone) (week : Int × Int) (h : Int)
    (slots : List PlanningSlot) :
    0 ≤ weekCountBefore zone week h slots := Int.natCast_nonneg _

/-- Emitted slots are usable hours of the grid. -/
theorem mem_calendarLoop {rounds : Nat} {slotStart : Int} {allocated : Int × Int → Int}
    {s : PlanningSlot}
    (hs : s ∈ calendarLoop capacity windows excluded zone target rounds slotStart allocated) :
    ∃ k : Nat, s = gridSlot zone (slotStart + k * hour) ∧
      Usable windows excluded zone target s.startsAt := by
  induction rounds generalizing slotStart allocated with
  | zero => simp [calendarLoop] at hs
  | succ rounds ih =>
    have hshift {allocated' : Int × Int → Int}
        (hs : s ∈ calendarLoop capacity windows excluded zone target rounds
          (slotStart + slotDuration) allocated') :
        ∃ k : Nat, s = gridSlot zone (slotStart + k * hour) ∧
          Usable windows excluded zone target s.startsAt := by
      obtain ⟨k, hk, hu⟩ := ih hs
      refine ⟨k + 1, ?_, hu⟩
      rw [hk]
      congr 1
      simp only [slotDuration]
      push_cast
      ring
    simp only [calendarLoop] at hs
    split at hs
    · next hfits =>
      split at hs
      · next hemit =>
        rcases List.mem_cons.mp hs with rfl | hs
        · exact ⟨0, by simp, hemit.2, hfits⟩
        · exact hshift hs
      · exact hshift hs
    · simp at hs

/-- Emitted slots follow one another. -/
theorem calendarLoop_sorted (rounds : Nat) (slotStart : Int) (allocated : Int × Int → Int) :
    (calendarLoop capacity windows excluded zone target rounds slotStart allocated).Pairwise
      fun a b ↦ a.endsAt ≤ b.startsAt := by
  induction rounds generalizing slotStart allocated with
  | zero => simp [calendarLoop]
  | succ rounds ih =>
    simp only [calendarLoop]
    split
    · split
      · refine List.pairwise_cons.mpr ⟨fun s hs ↦ ?_, ih _ _⟩
        obtain ⟨k, rfl, -⟩ := mem_calendarLoop hs
        have hk : 0 ≤ (k : Int) * hour := by positivity
        simp only [gridSlot]
        omega
      · exact ih _ _
    · simp

/-- The week counter never passes the capacity. -/
theorem calendarLoop_weekly (rounds : Nat) (slotStart : Int) (allocated : Int × Int → Int)
    (week : Int × Int) (h : allocated week ≤ capacity) :
    allocated week + weekCount zone week
      (calendarLoop capacity windows excluded zone target rounds slotStart allocated) ≤
      capacity := by
  induction rounds generalizing slotStart allocated with
  | zero => simpa [calendarLoop, weekCount] using h
  | succ rounds ih =>
    simp only [calendarLoop]
    split
    · split
      · next hemit =>
        have hrest := ih (slotStart + slotDuration)
          (Function.update allocated (weekAt zone slotStart)
            (allocated (weekAt zone slotStart) + 1))
        simp only [weekCount, List.countP_cons, gridSlot] at hrest ⊢
        by_cases hw : weekAt zone slotStart = week
        · subst hw
          simp only [Function.update_self] at hrest
          simp only [decide_true, if_true]
          have hle := hrest (by omega)
          push_cast
          omega
        · rw [Function.update_of_ne (Ne.symm hw)] at hrest
          simpa [hw] using hrest h
      · exact ih _ _ h
    · simpa [weekCount] using h

/-- The loop is greedy: a usable hour within its rounds is emitted, or its week is already full
of earlier slots. -/
theorem calendarLoop_maximal (rounds : Nat) (slotStart : Int) (allocated : Int × Int → Int)
    (k : Nat) (hk : k < rounds) (hu : Usable windows excluded zone target (slotStart + k * hour)) :
    gridSlot zone (slotStart + k * hour) ∈
        calendarLoop capacity windows excluded zone target rounds slotStart allocated ∨
      capacity ≤ allocated (weekAt zone (slotStart + k * hour)) +
        weekCountBefore zone (weekAt zone (slotStart + k * hour)) (slotStart + k * hour)
          (calendarLoop capacity windows excluded zone target rounds slotStart allocated) := by
  induction rounds generalizing slotStart allocated k with
  | zero => omega
  | succ rounds ih =>
    obtain ⟨havail, hend⟩ := hu
    have hfits : slotStart + slotDuration ≤ target := by
      have hk0 : 0 ≤ (k : Int) * hour := by positivity
      simp only [slotDuration]
      omega
    simp only [calendarLoop, if_pos hfits]
    cases k with
    | zero =>
      simp only [Nat.cast_zero, zero_mul, add_zero] at havail ⊢
      split
      · exact .inl (by simp)
      · next hskip =>
        right
        have hfull : ¬ allocated (weekAt zone slotStart) < capacity := fun hlt ↦
          hskip ⟨hlt, havail⟩
        have hcount := weekCountBefore_nonneg zone (weekAt zone slotStart) slotStart
          (calendarLoop capacity windows excluded zone target rounds (slotStart + slotDuration)
            allocated)
        omega
    | succ k =>
      have hshift : slotStart + ((k + 1 : Nat) : Int) * hour =
          slotStart + slotDuration + (k : Int) * hour := by
        simp only [slotDuration]
        push_cast
        ring
      rw [hshift] at havail hend ⊢
      have hlater : slotStart < slotStart + slotDuration + (k : Int) * hour := by
        have hk0 : 0 ≤ (k : Int) * hour := by positivity
        simp only [slotDuration, hour] at hk0 ⊢
        omega
      split
      · next hemit =>
        rcases ih (slotStart + slotDuration)
          (Function.update allocated (weekAt zone slotStart)
            (allocated (weekAt zone slotStart) + 1))
          k (by omega) ⟨havail, hend⟩ with hmem | hfull
        · exact .inl (List.mem_cons_of_mem _ hmem)
        · right
          generalize slotStart + slotDuration + (k : Int) * hour = h at hfull hlater ⊢
          simp only [weekCountBefore, List.countP_cons, gridSlot] at hfull ⊢
          by_cases hw : weekAt zone slotStart = weekAt zone h
          · rw [hw, Function.update_self] at hfull
            simp only [hw, hlater, and_self, decide_true, if_true]
            push_cast
            omega
          · rw [Function.update_of_ne (Ne.symm hw)] at hfull
            simpa [hw] using hfull
      · exact ih (slotStart + slotDuration) allocated k (by omega) ⟨havail, hend⟩

end Loop

/-! ### A correct calendar -/

/-- Whole hours from the top of the local hour of the planning start. -/
def GridHour (start : AwareDateTime) (h : Int) : Prop := ∃ k : Int, h = topOfHour start + k * hour

/-- What a planning calendar should be: disjoint available hours in order inside the planning
span, at most the capacity in each local week, and greedy-maximal on the grid. A non-empty one
passes the checks of a planning problem. -/
structure CorrectCalendar (start : AwareDateTime) (target capacity : Int)
    (windows : List WeeklyAvailabilityWindow) (excluded : List Int) (slots : List PlanningSlot) :
    Prop where
  ordered : slots.Pairwise fun a b ↦ a.endsAt ≤ b.startsAt
  inside : ∀ s ∈ slots, start.instant ≤ s.startsAt ∧ s.endsAt ≤ target
  available : ∀ s ∈ slots, slotIsAvailable s.startsAt s.endsAt windows excluded start.zone = true
  keyed : ∀ s ∈ slots, s.capacityWeekKey = weekKey (weekAt start.zone s.startsAt)
  weekly : ∀ week, weekCount start.zone week slots ≤ capacity
  maximal : ∀ h, GridHour start h → start.instant ≤ h →
    Usable windows excluded start.zone target h →
    (∃ s ∈ slots, s.startsAt = h) ∨
      capacity ≤ weekCountBefore start.zone (weekAt start.zone h) h slots
  accepted : slots ≠ [] → calendarChecks start.instant target slots = .ok ()

/-- No usable hour of the grid is put on the wrong side of the planning start by rounding on the
local clock: none lies between the start and a top of the hour that comes after it, and none
strictly between the top of the hour and the start. -/
def RoundsUpToStart (start : AwareDateTime) (target : Int)
    (windows : List WeeklyAvailabilityWindow) (excluded : List Int) : Prop :=
  target ≤ start.instant ∨ ∀ h, GridHour start h → Usable windows excluded start.zone target h →
    ¬ (start.instant ≤ h ∧ h ≤ topOfHour start ∧ topOfHour start ≠ start.instant) ∧
      ¬ (topOfHour start < h ∧ h < start.instant)

/-- Rounding is right whenever the top of the local hour is at most an hour before the start, in
particular when the offset does not change in between. -/
theorem roundsUpToStart_of_top {start : AwareDateTime} (target : Int)
    (windows : List WeeklyAvailabilityWindow) (excluded : List Int)
    (hle : topOfHour start ≤ start.instant) (hhour : start.instant ≤ topOfHour start + hour) :
    RoundsUpToStart start target windows excluded := by
  refine .inr fun h hgrid _ ↦ ⟨fun ⟨h1, h2, h3⟩ ↦ h3 (by omega), fun ⟨h1, h2⟩ ↦ ?_⟩
  obtain ⟨k, rfl⟩ := hgrid
  simp only [hour] at hhour h1 h2
  omega

section Correct

variable {start : AwareDateTime} {target capacity : Int}
  {windows : List WeeklyAvailabilityWindow} {excluded : List Int}

/-- The next hour is the top of this one, or the one after it. -/
theorem nextHour_cases (start : AwareDateTime) :
    (topOfHour start = start.instant ∧ nextHour start = topOfHour start) ∨
      (topOfHour start ≠ start.instant ∧ nextHour start = topOfHour start + hour) := by
  simp only [nextHour]
  split
  · next h => exact .inl ⟨h, rfl⟩
  · next h => exact .inr ⟨h, rfl⟩

/-- The slots that the calendar emits for a span within the horizon. -/
def emittedSlots (start : AwareDateTime) (target capacity : Int)
    (windows : List WeeklyAvailabilityWindow) (excluded : List Int) : List PlanningSlot :=
  calendarLoop capacity windows excluded start.zone target
    ((target - nextHour start) / slotDuration).toNat (nextHour start) fun _ ↦ 0

/-- Usable grid hours from the first slot on are emitted or their week is full. -/
theorem emittedSlots_maximal (k : Nat)
    (hu : Usable windows excluded start.zone target (nextHour start + k * hour)) :
    (∃ s ∈ emittedSlots start target capacity windows excluded,
        s.startsAt = nextHour start + k * hour) ∨
      capacity ≤ weekCountBefore start.zone (weekAt start.zone (nextHour start + k * hour))
        (nextHour start + k * hour) (emittedSlots start target capacity windows excluded) := by
  have hk : k < ((target - nextHour start) / slotDuration).toNat := by
    have hend := hu.2
    simp only [slotDuration, hour] at hend ⊢
    omega
  rcases @calendarLoop_maximal capacity windows excluded start.zone target _ (nextHour start)
    (fun _ ↦ 0) k hk hu with hmem | hfull
  · exact .inl ⟨_, hmem, rfl⟩
  · exact .inr (by simpa [emittedSlots] using hfull)

private theorem exists_of_weekCountBefore_pos {zone : Zone} {week : Int × Int} {h : Int}
    {slots : List PlanningSlot} (hpos : 0 < weekCountBefore zone week h slots) :
    ∃ s ∈ slots, s.startsAt < h := by
  have hcount : 0 < slots.countP fun s ↦ weekAt zone s.startsAt = week ∧ s.startsAt < h := by
    simpa [weekCountBefore] using hpos
  obtain ⟨s, hs, hp⟩ := List.countP_pos_iff.mp hcount
  exact ⟨s, hs, (by simpa using hp : _ ∧ _).2⟩

/-- No usable hour from the first slot on starts before the planning start. -/
def StartsInTime (start : AwareDateTime) (target : Int) (windows : List WeeklyAvailabilityWindow)
    (excluded : List Int) : Prop :=
  ∀ k : Nat, Usable windows excluded start.zone target (nextHour start + k * hour) →
    start.instant ≤ nextHour start + k * hour

/-- No slot starts before the planning start exactly when no usable hour of the loop does. -/
theorem emittedSlots_inTime_iff (hcap : 0 < capacity) :
    (∀ s ∈ emittedSlots start target capacity windows excluded, start.instant ≤ s.startsAt) ↔
      StartsInTime start target windows excluded := by
  constructor
  · intro h k hu
    rcases @emittedSlots_maximal start target capacity windows excluded k hu with
      ⟨s, hs, heq⟩ | hfull
    · rw [← heq]
      exact h s hs
    · obtain ⟨s, hs, hlt⟩ := exists_of_weekCountBefore_pos (lt_of_lt_of_le hcap hfull)
      exact (h s hs).trans hlt.le
  · intro h s hs
    obtain ⟨k, rfl, hu⟩ := mem_calendarLoop hs
    exact h k hu

/-- Where a usable hour is misplaced the calendar is wrong: an hour before the start is emitted or
an available hour is left out although nothing was emitted before it. -/
theorem roundsUpToStart_of_correct (hcap : 0 < capacity)
    (h : CorrectCalendar start target capacity windows excluded
      (emittedSlots start target capacity windows excluded)) :
    RoundsUpToStart start target windows excluded := by
  refine .inr fun u hgrid hu ↦ ⟨fun ⟨hstart, htop, hne⟩ ↦ ?_, fun ⟨htop, hstart⟩ ↦ ?_⟩
  · -- the hour is at or before the top, and every emitted slot comes after the top
    have hfirst : nextHour start = topOfHour start + hour := by
      rcases nextHour_cases start with ⟨heq, -⟩ | ⟨-, hn⟩
      · exact absurd heq hne
      · exact hn
    have hlater (s : PlanningSlot)
        (hs : s ∈ emittedSlots start target capacity windows excluded) : u < s.startsAt := by
      obtain ⟨k, rfl, -⟩ := mem_calendarLoop hs
      have hk : 0 ≤ (k : Int) * hour := by positivity
      simp only [gridSlot, hfirst]
      simp only [hour] at hk ⊢
      omega
    rcases h.maximal u hgrid hstart hu with ⟨s, hs, heq⟩ | hfull
    · have hlt := hlater s hs
      omega
    · obtain ⟨s, hs, hlt⟩ := exists_of_weekCountBefore_pos (lt_of_lt_of_le hcap hfull)
      have hgt := hlater s hs
      omega
  · -- the hour is on the loop's path, so it or an even earlier one is emitted
    obtain ⟨k, rfl⟩ := hgrid
    have hfirst : nextHour start = topOfHour start + hour := by
      rcases nextHour_cases start with ⟨heq, -⟩ | ⟨-, hn⟩
      · omega
      · exact hn
    have hshift : topOfHour start + k * hour = nextHour start + ((k - 1).toNat : Int) * hour := by
      simp only [hfirst, hour] at htop ⊢
      omega
    rw [hshift] at hu hstart
    rcases @emittedSlots_maximal start target capacity windows excluded _ hu with
      ⟨s, hs, heq⟩ | hfull
    · have hin := (h.inside s hs).1
      omega
    · obtain ⟨s, hs, hlt⟩ := exists_of_weekCountBefore_pos (lt_of_lt_of_le hcap hfull)
      have hin := (h.inside s hs).1
      omega

/-- Where no usable hour is misplaced the calendar is correct. -/
theorem correct_of_roundsUpToStart (hcap : 1 ≤ capacity) (hspan : start.instant < target)
    (h : RoundsUpToStart start target windows excluded) :
    CorrectCalendar start target capacity windows excluded
      (emittedSlots start target capacity windows excluded) := by
  have hrounds := h.resolve_left (by omega)
  have hordered : (emittedSlots start target capacity windows excluded).Pairwise
      fun a b ↦ a.endsAt ≤ b.startsAt := calendarLoop_sorted _ _ _
  have hinside (s : PlanningSlot)
      (hs : s ∈ emittedSlots start target capacity windows excluded) :
      start.instant ≤ s.startsAt ∧ s.endsAt ≤ target := by
    obtain ⟨k, rfl, hu⟩ := mem_calendarLoop hs
    have hk : 0 ≤ (k : Int) * hour := by positivity
    refine ⟨?_, hu.2⟩
    rcases nextHour_cases start with ⟨heq, hn⟩ | ⟨-, hn⟩
    · simp only [gridSlot, hn]
      omega
    · have hgrid : GridHour start (nextHour start + k * hour) := ⟨k + 1, by rw [hn]; ring⟩
      have hnot := (hrounds _ hgrid hu).2
      simp only [gridSlot]
      simp only [hn, hour] at hnot hk ⊢
      omega
  constructor
  case ordered => exact hordered
  case inside => exact hinside
  case available =>
    intro s hs
    obtain ⟨k, rfl, hu⟩ := mem_calendarLoop hs
    exact hu.1
  case keyed =>
    intro s hs
    obtain ⟨k, rfl, -⟩ := mem_calendarLoop hs
    rfl
  case weekly =>
    intro week
    simpa [emittedSlots] using @calendarLoop_weekly capacity windows excluded start.zone target
      ((target - nextHour start) / slotDuration).toNat (nextHour start) (fun _ ↦ 0) week (by omega)
  case maximal =>
    intro u hgrid hstart hu
    obtain ⟨k, hk⟩ : ∃ k : Nat, u = nextHour start + k * hour := by
      have hnot := (hrounds u hgrid hu).1
      obtain ⟨j, rfl⟩ := hgrid
      rcases nextHour_cases start with ⟨heq, hn⟩ | ⟨hne, hn⟩
      · refine ⟨j.toNat, ?_⟩
        simp only [hn, hour] at hstart ⊢
        omega
      · refine ⟨(j - 1).toNat, ?_⟩
        simp only [hn, hour] at hnot hstart ⊢
        omega
    subst hk
    exact emittedSlots_maximal k hu
  case accepted =>
    intro hne
    exact (calendarChecks_ok_iff _ _ _).mpr ⟨hne, hordered, hinside⟩

end Correct

/-- For every zone, start, target within the horizon, capacity, windows and excluded dates: the
calendar is built, and it is correct exactly when rounding up on the local clock misplaces no usable
hour. `src/jobtology_be/planning/calendar.py:14–56,59–96`,
`src/jobtology_be/planning/solver_models.py:260–287`. -/
theorem flexibleWeeklySlots_correct_iff (start : AwareDateTime) (target capacity : Int)
    (windows : List WeeklyAvailabilityWindow) (excluded : List Int) (hcap : 1 ≤ capacity)
    (hhorizon : target - start.instant ≤ maxFlexibleCalendarHorizon) :
    ∃ slots, flexibleWeeklySlots start target capacity windows excluded = .ok slots ∧
      (CorrectCalendar start target capacity windows excluded slots ↔
        RoundsUpToStart start target windows excluded) := by
  unfold flexibleWeeklySlots
  rw [if_neg (by omega)]
  split
  · next hpast =>
    refine ⟨[], rfl, fun _ ↦ .inl hpast, fun _ ↦ ?_⟩
    constructor
    case maximal =>
      intro h _ hstart hu
      have hend := hu.2
      simp only [hour] at hend
      omega
    case weekly =>
      intro week
      simp only [weekCount, List.countP_nil]
      omega
    all_goals simp
  · next hspan =>
    rw [if_neg (by omega)]
    exact ⟨emittedSlots start target capacity windows excluded, rfl,
      roundsUpToStart_of_correct hcap, correct_of_roundsUpToStart hcap (by omega)⟩

/-- A calendar of three hours in UTC. -/
theorem flexibleWeeklySlots_correct_iff_utc :
    ∃ slots, flexibleWeeklySlots (.ofInstant .utc 0) (3 * hour) 5 [] [] = .ok slots ∧
      (CorrectCalendar (.ofInstant .utc 0) (3 * hour) 5 [] [] slots ↔
        RoundsUpToStart (.ofInstant .utc 0) (3 * hour) [] []) :=
  flexibleWeeklySlots_correct_iff (.ofInstant .utc 0) (3 * hour) 5 [] [] (by decide) (by decide)

/-! ### A clock change inside the hour of the start -/

/-- The clock of Lord Howe Island around 5 April 2026, set back by half an hour at 02:00 local
time, that is at 15:00 UTC on the day before. -/
def lordHowe : Zone := .oneChange (17753031 * hour) (11 * hour) (10 * hour + hour / 2)

/-- 01:45 local time, after the clock was set back. -/
def lordHoweStart : AwareDateTime := .ofInstant lordHowe (17753031 * hour + hour / 4)

/-- The first slot starts a quarter of an hour before the planning start, so a planning problem
with this calendar is rejected. -/
theorem flexibleWeeklySlots_before_start :
    ∃ slots, flexibleWeeklySlots lordHoweStart (17753034 * hour) 5 [] [] = .ok slots ∧
      ¬ CorrectCalendar lordHoweStart (17753034 * hour) 5 [] [] slots ∧
      calendarChecks lordHoweStart.instant (17753034 * hour) slots =
        .error ⟨"planning calendar cannot start before planning"⟩ := by
  refine ⟨[gridSlot lordHowe (17753031 * hour), gridSlot lordHowe (17753032 * hour),
    gridSlot lordHowe (17753033 * hour)], by decide, fun h ↦ ?_, by decide⟩
  have hin := (h.inside (gridSlot lordHowe (17753031 * hour)) (by simp)).1
  exact absurd hin (by decide)

end Jobtology.Planning
