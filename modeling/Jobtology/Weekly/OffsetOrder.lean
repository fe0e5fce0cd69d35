import Jobtology.Weekly.Pack

/-!
# Order of the preferred starts

`_working_hour_offset` places the starts of the solver on an axis of weekly capacity. The axis keeps
their order but for one seam: the first week's capacity is rounded down, and a start in the
incomplete hour that ends this week is rounded up.
-/

namespace Jobtology.Weekly

open Jobtology.Base Jobtology.Time

/-! ## The axis -/

/-- The Monday of the week in which a schedule starts. -/
def scheduleMonday (z : Zone) (startsAt : Int) : Int := mondayOf (z.date (ceilToHour startsAt))

/-- The instant that ends the week in which a schedule starts. -/
def firstWeekEnd (z : Zone) (startsAt : Int) : Int :=
  z.midnightInstant (scheduleMonday z startsAt + 7)

/-- The whole hours of the week in which a schedule starts. -/
def firstWeekHours (z : Zone) (startsAt : Int) : Int :=
  (firstWeekEnd z startsAt - ceilToHour startsAt) / hour

/-- The weeks from the first week to an instant. -/
def weeksAfter (z : Zone) (startsAt value : Int) : Int :=
  (mondayOf (z.date value) - scheduleMonday z startsAt) / 7

/-- The two starts are on both sides of the seam: the earlier one in the incomplete hour that ends
the first week, the later one at the midnight that starts the second week, and the first week has
fewer whole hours than the capacity. -/
def AcrossSeam (z : Zone) (startsAt weekly earlier later : Int) : Prop :=
  (weeksAfter z startsAt later = 1 ∧ later = firstWeekEnd z startsAt) ∧
    (ceilToHour startsAt + firstWeekHours z startsAt * hour < earlier ∧ earlier < later) ∧
    firstWeekHours z startsAt < weekly

instance (z : Zone) (startsAt weekly earlier later : Int) :
    Decidable (AcrossSeam z startsAt weekly earlier later) := inferInstanceAs (Decidable (_ ∧ _))

private theorem mondayOf_mono {d e : Int} (h : d ≤ e) : mondayOf d ≤ mondayOf e := by
  unfold mondayOf weekday
  omega

private theorem weekday_mondayOf (d : Int) : weekday (mondayOf d) = 0 := by
  unfold mondayOf weekday
  omega

private theorem mondayOf_le (d : Int) : mondayOf d ≤ d ∧ d < mondayOf d + 7 := by
  unfold mondayOf weekday
  omega

section Axis

variable {z : Zone} {startsAt weekly value : Int}

/-- In the first week and before it, hours count from the start. -/
theorem workingHourOffset_firstWeek (h : weeksAfter z startsAt value ≤ 0) :
    workingHourOffset value startsAt weekly z =
      max 0 (min weekly (ceilHours (value - ceilToHour startsAt))) := by
  exact if_pos h

/-- In a later week, hours count from its Monday on top of the weeks before. -/
theorem workingHourOffset_laterWeek (h : 0 < weeksAfter z startsAt value) :
    workingHourOffset value startsAt weekly z =
      min weekly (max 0 (firstWeekHours z startsAt)) + (weeksAfter z startsAt value - 1) * weekly +
        min weekly
          (max 0 (ceilHours (value - z.midnightInstant (mondayOf (z.date value))))) := by
  exact if_neg (not_le.mpr h)

/-- Offsets are not negative. -/
theorem workingHourOffset_nonneg (hweekly : 1 ≤ weekly) :
    0 ≤ workingHourOffset value startsAt weekly z := by
  by_cases h : weeksAfter z startsAt value ≤ 0
  · rw [workingHourOffset_firstWeek h]
    omega
  · rw [workingHourOffset_laterWeek (by omega)]
    have hweeks : 0 ≤ (weeksAfter z startsAt value - 1) * weekly :=
      Int.mul_nonneg (by omega) (by omega)
    omega

end Axis

/-! ## Order -/

section Order

variable {z : Zone} {startsAt weekly earlier later : Int}
  (hz : z.MondaysExactFrom (scheduleMonday z startsAt))

private theorem weekday_scheduleMonday (z : Zone) (startsAt : Int) :
    weekday (scheduleMonday z startsAt + 7) = 0 := by
  have h := weekday_mondayOf (z.date (ceilToHour startsAt))
  unfold scheduleMonday
  unfold weekday at h ⊢
  omega

include hz in
/-- The first week and the time before it end at the next midnight of a Monday. -/
theorem lt_firstWeekEnd_iff (value : Int) :
    value < firstWeekEnd z startsAt ↔ weeksAfter z startsAt value ≤ 0 := by
  have hend := hz _ (weekday_scheduleMonday z startsAt) (by omega) value
  have hvalue := mondayOf_le (z.date value)
  have hweekday := weekday_mondayOf (z.date value)
  have hfirst := weekday_mondayOf (z.date (ceilToHour startsAt))
  change z.midnightInstant _ ≤ value ↔ scheduleMonday z startsAt + 7 ≤ _ at hend
  unfold firstWeekEnd weeksAfter
  rw [← not_le, hend]
  unfold weekday at hweekday hfirst
  unfold scheduleMonday
  omega

include hz in
private theorem firstWeekHours_nonneg : 0 ≤ firstWeekHours z startsAt := by
  have hfirst : ceilToHour startsAt < firstWeekEnd z startsAt := by
    rw [lt_firstWeekEnd_iff hz]
    unfold weeksAfter scheduleMonday
    omega
  exact Int.ediv_nonneg (by omega) (by decide)

include hz in
/-- After the first week dates do not go back from one week to the week before. -/
theorem mondayOf_date_mono (hearlier : 0 < weeksAfter z startsAt earlier)
    (hle : earlier ≤ later) : mondayOf (z.date earlier) ≤ mondayOf (z.date later) := by
  have hmonday : scheduleMonday z startsAt ≤ mondayOf (z.date earlier) := by
    unfold weeksAfter at hearlier
    omega
  have hexact := hz _ (weekday_mondayOf (z.date earlier)) hmonday
  have hstart := (hexact earlier).mpr (mondayOf_le _).1
  have hlater := (hexact later).mp (hstart.trans hle)
  have hsame := mondayOf_mono hlater
  have hmonday := weekday_mondayOf (z.date earlier)
  unfold mondayOf weekday at hsame hmonday ⊢
  omega

include hz in
private theorem weeksAfter_mono (hearlier : 0 < weeksAfter z startsAt earlier)
    (hle : earlier ≤ later) : weeksAfter z startsAt earlier ≤ weeksAfter z startsAt later := by
  have hmonday := mondayOf_date_mono hz hearlier hle
  unfold weeksAfter
  omega

/-- Rounding up is the least number of hours that takes up the span. -/
theorem ceilHours_le_iff {span n : Int} : ceilHours span ≤ n ↔ span ≤ n * hour := by
  have h := Int.le_ediv_iff_mul_le (c := hour) (a := -n) (b := -span) (by decide)
  rw [Int.neg_mul] at h
  unfold ceilHours
  omega

private theorem ceilHours_mono {a b : Int} (h : a ≤ b) : ceilHours a ≤ ceilHours b :=
  ceilHours_le_iff.mpr (h.trans (ceilHours_le_iff.mp le_rfl))

/-- Two starts of the first week keep their order. -/
theorem offset_le_sameFirstWeek (hle : earlier ≤ later)
    (hearlier : weeksAfter z startsAt earlier ≤ 0) (hlater : weeksAfter z startsAt later ≤ 0) :
    workingHourOffset earlier startsAt weekly z ≤ workingHourOffset later startsAt weekly z := by
  rw [workingHourOffset_firstWeek hearlier, workingHourOffset_firstWeek hlater]
  have hceil := @ceilHours_mono (earlier - ceilToHour startsAt) (later - ceilToHour startsAt)
    (by omega)
  omega

include hz in
/-- Two starts of later weeks keep their order. -/
theorem offset_le_laterWeeks (hweekly : 1 ≤ weekly)
    (hle : earlier ≤ later) (hearlier : 0 < weeksAfter z startsAt earlier) :
    workingHourOffset earlier startsAt weekly z ≤ workingHourOffset later startsAt weekly z := by
  have hweeks := weeksAfter_mono hz hearlier hle
  rw [workingHourOffset_laterWeek hearlier, workingHourOffset_laterWeek (by omega)]
  by_cases hsame : mondayOf (z.date earlier) = mondayOf (z.date later)
  · have hequal : weeksAfter z startsAt earlier = weeksAfter z startsAt later := by
      simp only [weeksAfter, hsame]
    have hceil := @ceilHours_mono (earlier - z.midnightInstant (mondayOf (z.date later)))
      (later - z.midnightInstant (mondayOf (z.date later))) (by omega)
    rw [hequal, hsame]
    omega
  · have hnext : weeksAfter z startsAt earlier + 1 ≤ weeksAfter z startsAt later := by
      have hmonday := mondayOf_date_mono hz hearlier hle
      have h₁ := weekday_mondayOf (z.date earlier)
      have h₂ := weekday_mondayOf (z.date later)
      unfold weekday at h₁ h₂
      unfold weeksAfter
      omega
    have hproduct : weeksAfter z startsAt earlier * weekly ≤
        (weeksAfter z startsAt later - 1) * weekly :=
      Int.mul_le_mul_of_nonneg_right (by omega) (by omega)
    have hexpand : (weeksAfter z startsAt earlier - 1) * weekly =
        weeksAfter z startsAt earlier * weekly - weekly := by ring
    omega

include hz in
/-- A start of the first week and one of a later week keep their order, unless the seam is between
them. -/
theorem offset_le_firstWeek_iff (hweekly : 1 ≤ weekly)
    (hle : earlier ≤ later) (hearlier : weeksAfter z startsAt earlier ≤ 0)
    (hlater : 0 < weeksAfter z startsAt later) :
    workingHourOffset earlier startsAt weekly z ≤ workingHourOffset later startsAt weekly z ↔
      ¬AcrossSeam z startsAt weekly earlier later := by
  have hhours := firstWeekHours_nonneg hz
  have hbefore := (lt_firstWeekEnd_iff hz earlier).mpr hearlier
  have hafter := (not_congr (lt_firstWeekEnd_iff hz later)).mpr (not_le.mpr hlater)
  have hproduct : 0 ≤ (weeksAfter z startsAt later - 1) * weekly :=
    Int.mul_nonneg (by omega) (by omega)
  rw [workingHourOffset_firstWeek hearlier, workingHourOffset_laterWeek hlater]
  have hend : firstWeekHours z startsAt * hour ≤ firstWeekEnd z startsAt - ceilToHour startsAt ∧
      firstWeekEnd z startsAt - ceilToHour startsAt < (firstWeekHours z startsAt + 1) * hour :=
    ⟨Int.ediv_mul_le _ (by decide), Int.lt_ediv_add_one_mul_self _ (by decide)⟩
  have hwhole := @ceilHours_le_iff (earlier - ceilToHour startsAt) (firstWeekHours z startsAt)
  have hlast := @ceilHours_le_iff (earlier - ceilToHour startsAt) (firstWeekHours z startsAt + 1)
  unfold AcrossSeam
  by_cases hone : weeksAfter z startsAt later = 1
  · -- The second week: the later start has hours of it unless it is its first instant.
    have hmonday : mondayOf (z.date later) = scheduleMonday z startsAt + 7 := by
      have h₁ := weekday_mondayOf (z.date later)
      have h₂ := weekday_mondayOf (z.date (ceilToHour startsAt))
      unfold weeksAfter scheduleMonday at hone
      unfold weekday at h₁ h₂
      unfold scheduleMonday
      omega
    have hsecond := @ceilHours_le_iff (later - firstWeekEnd z startsAt) 0
    rw [hmonday, hone]
    unfold firstWeekEnd at *
    omega
  · -- A later week: the whole capacity of the second week is on top of the first one.
    have hfull : 1 * weekly ≤ (weeksAfter z startsAt later - 1) * weekly :=
      Int.mul_le_mul_of_nonneg_right (by omega) (by omega)
    omega

include hz in
/-- Offsets are not negative, and a later start has no smaller one unless the seam is between
them. -/
theorem offset_le_iff (hweekly : 1 ≤ weekly) (hle : earlier ≤ later) :
    (0 ≤ workingHourOffset earlier startsAt weekly z ∧
      workingHourOffset earlier startsAt weekly z ≤ workingHourOffset later startsAt weekly z) ↔
    ¬AcrossSeam z startsAt weekly earlier later := by
  have hseam : AcrossSeam z startsAt weekly earlier later →
      weeksAfter z startsAt earlier ≤ 0 := by
    rintro ⟨⟨-, hend⟩, ⟨-, hlt⟩, -⟩
    exact (lt_firstWeekEnd_iff hz earlier).mp (hend ▸ hlt)
  rw [and_iff_right (workingHourOffset_nonneg hweekly)]
  by_cases hearlier : weeksAfter z startsAt earlier ≤ 0
  · by_cases hlater : weeksAfter z startsAt later ≤ 0
    · refine ⟨fun _ hacross ↦ ?_, fun _ ↦ offset_le_sameFirstWeek hle hearlier hlater⟩
      have hone := hacross.1.1
      omega
    · exact offset_le_firstWeek_iff hz hweekly hle hearlier (not_le.mp hlater)
  · refine ⟨fun _ hacross ↦ hearlier (hseam hacross), fun _ ↦ ?_⟩
    exact offset_le_laterWeeks hz hweekly hle (not_le.mp hearlier)

end Order

/-! ## The preferred starts -/

/-- Starts on one hourly grid are never on both sides of the seam: it is narrower than an hour. -/
theorem not_acrossSeam_of_grid {z : Zone} {startsAt weekly earlier later : Int}
    (hgrid : (later - earlier) % hour = 0) : ¬AcrossSeam z startsAt weekly earlier later := by
  rintro ⟨⟨-, hend⟩, ⟨hlast, hlt⟩, -⟩
  have hnext : firstWeekEnd z startsAt - ceilToHour startsAt <
      (firstWeekHours z startsAt + 1) * hour :=
    Int.lt_ediv_add_one_mul_self _ (by decide)
  have hexpand : (firstWeekHours z startsAt + 1) * hour =
      firstWeekHours z startsAt * hour + 3600000000 := by ring
  change (later - earlier) % 3600000000 = 0 at hgrid
  omega

/-- A preferred start is the offset of a step's planned start. -/
theorem preferredStarts_eq_some {args : PackArgs} {key : Uuid} {offset : Int}
    (h : args.preferredStarts key = some offset) :
    ∃ item ∈ args.ordered, item.step.stepId = key ∧ ∃ value ∈ item.step.plannedStart,
      workingHourOffset value args.startsAt args.context.recommendedWeeklyHours args.timezone =
        offset := by
  unfold PackArgs.preferredStarts at h
  split at h
  · cases h
  · split at h
    · next item hitem =>
      obtain ⟨hmem, hkey⟩ := lookupLast_some hitem
      obtain ⟨value, hvalue, hoffset⟩ := Option.map_eq_some_iff.mp h
      exact ⟨item, (List.mem_filter.mp hmem).1, hkey, value, hvalue, hoffset⟩
    · cases h

/-- Offsets are not negative, and a later start has no smaller one unless the seam is between them.
So the preferred starts of a plan without such starts keep the order of the planned ones.
`src/jobtology_be/application/weekly_plan.py:72–104`. -/
theorem workingHourOffset_mono_iff {z : Zone} {startsAt weekly : Int}
    (hz : z.MondaysExactFrom (scheduleMonday z startsAt)) (hweekly : 1 ≤ weekly) :
    (∀ earlier later, earlier ≤ later →
      ((0 ≤ workingHourOffset earlier startsAt weekly z ∧
        workingHourOffset earlier startsAt weekly z ≤ workingHourOffset later startsAt weekly z) ↔
      ¬AcrossSeam z startsAt weekly earlier later)) ∧
    ∀ args : PackArgs, args.timezone = z → args.startsAt = startsAt →
      args.context.recommendedWeeklyHours = weekly →
      (∀ a ∈ args.ordered, ∀ b ∈ args.ordered, ∀ u ∈ a.step.plannedStart,
        ∀ v ∈ b.step.plannedStart, ¬AcrossSeam z startsAt weekly u v) →
      ∀ key key' offset offset', args.preferredStarts key = some offset →
        args.preferredStarts key' = some offset' → offset < offset' →
        ∃ a ∈ args.ordered, a.step.stepId = key ∧ ∃ b ∈ args.ordered, b.step.stepId = key' ∧
          ∃ u ∈ a.step.plannedStart, ∃ v ∈ b.step.plannedStart, u < v := by
  refine ⟨fun _ _ hle ↦ offset_le_iff hz hweekly hle, ?_⟩
  rintro args rfl rfl rfl hseams key key' offset offset' hkey hkey' hlt
  obtain ⟨a, ha, haKey, u, hu, rfl⟩ := preferredStarts_eq_some hkey
  obtain ⟨b, hb, hbKey, v, hv, rfl⟩ := preferredStarts_eq_some hkey'
  refine ⟨a, ha, haKey, b, hb, hbKey, u, hu, v, hv, ?_⟩
  by_contra hle
  have hkept := (offset_le_iff hz hweekly (not_lt.mp hle)).mpr (hseams b hb a ha v hv u hu)
  exact absurd hkept.2 (not_le.mpr hlt)

/-- The zone of India. -/
def indiaZone : Zone := Zone.fixed (5 * hour + hour / 2)

/-- The first instant of Monday, 5 October 2026, in India. -/
def seamMonday : Int := midnight 739894 - (5 * hour + hour / 2)

/-- On one hourly grid the start an hour before the second week has no greater offset than its
first instant. -/
theorem workingHourOffset_mono_iff_whole :
    0 ≤ workingHourOffset (seamMonday - hour) (seamMonday - (4 * hour + hour / 4)) 10 indiaZone ∧
      workingHourOffset (seamMonday - hour) (seamMonday - (4 * hour + hour / 4)) 10 indiaZone ≤
        workingHourOffset seamMonday (seamMonday - (4 * hour + hour / 4)) 10 indiaZone :=
  ((workingHourOffset_mono_iff (Zone.fixed_mondaysExactFrom _ _) (by decide)).1 _ _
    (by decide)).mpr (not_acrossSeam_of_grid (by decide))

/-- A start fifteen minutes before the second week has a greater offset than its first instant. -/
theorem seam_reverses_order :
    seamMonday - hour / 4 ≤ seamMonday ∧
      workingHourOffset (seamMonday - hour / 4) (seamMonday - (4 * hour + hour / 4)) 10 indiaZone =
        4 ∧
      workingHourOffset seamMonday (seamMonday - (4 * hour + hour / 4)) 10 indiaZone = 3 := by
  decide

end Jobtology.Weekly
