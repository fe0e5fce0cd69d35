import Jobtology.Weekly.PackQueues

/-!
# The hours that packing gives out

Where the loop of `_pack` puts the hours of the steps, and how its counters follow. Only moving
on to the next Monday depends on the time zone.
-/

namespace Jobtology.Weekly

open Jobtology.Base Jobtology.Time Jobtology.Planning

/-! ### The book of hours -/

/-- Hours given to a step, newest first. -/
def hoursGiven (key : Uuid) (placed : List (Uuid × Int)) : List Int :=
  (placed.filter (·.1 = key)).map (·.2)

/-- The hours given to an activity are the ones placed for it. -/
theorem mem_hoursGiven {key : Uuid} {placed : List (Uuid × Int)} {h : Int} :
    h ∈ hoursGiven key placed ↔ (key, h) ∈ placed := by
  simp [hoursGiven]

/-- One more hour of the activity. -/
@[simp] theorem hoursGiven_cons_self (key : Uuid) (h : Int) (placed : List (Uuid × Int)) :
    hoursGiven key ((key, h) :: placed) = h :: hoursGiven key placed := by
  simp [hoursGiven]

/-- One more hour of another activity. -/
theorem hoursGiven_cons_of_ne {key k : Uuid} (hne : k ≠ key) (h : Int)
    (placed : List (Uuid × Int)) :
    hoursGiven k ((key, h) :: placed) = hoursGiven k placed := by
  simp [hoursGiven, Ne.symm hne]

/-- The hours of a list of weeks, by week. -/
def byWeek (weeks : List Int) : List WeeklyPlanAllocation := weeks.foldr addHour []

private theorem sum_addHour (week : Int) (allocations : List WeeklyPlanAllocation) :
    ((addHour week allocations).map (·.hours)).sum = (allocations.map (·.hours)).sum + 1 := by
  induction allocations with
  | nil => rfl
  | cons a rest ih =>
    unfold addHour
    split
    · simp only [List.map_cons, List.sum_cons]
      omega
    · simp only [List.map_cons, List.sum_cons, ih]
      omega

/-- Hours by week add up to the number of hours. -/
theorem sum_byWeek (weeks : List Int) :
    ((byWeek weeks).map (·.hours)).sum = weeks.length := by
  induction weeks with
  | nil => rfl
  | cons week rest ih =>
    have h := sum_addHour week (byWeek rest)
    rw [ih] at h
    simpa [byWeek] using h

private theorem weeks_addHour (week : Int) (allocations : List WeeklyPlanAllocation) :
    (addHour week allocations).map (·.week) =
      if week ∈ allocations.map (·.week) then allocations.map (·.week)
      else allocations.map (·.week) ++ [week] := by
  induction allocations with
  | nil => simp [addHour]
  | cons a rest ih =>
    unfold addHour
    by_cases ha : a.week = week
    · simp [ha]
    · rw [if_neg ha, List.map_cons, ih]
      by_cases hmem : week ∈ rest.map (·.week)
      · simp [hmem]
      · have hne : ¬ week = a.week := fun h ↦ ha h.symm
        simp only [hmem, hne, if_false, List.map_cons, List.mem_cons, or_self, List.cons_append]

/-- Every week is recorded once. -/
theorem nodup_weeks_byWeek (weeks : List Int) : ((byWeek weeks).map (·.week)).Nodup := by
  induction weeks with
  | nil => exact List.nodup_nil
  | cons week rest ih =>
    change ((addHour week (byWeek rest)).map (·.week)).Nodup
    rw [weeks_addHour]
    split
    · exact ih
    · next h =>
      exact List.nodup_append'.mpr ⟨ih, List.nodup_singleton _, by simpa using h⟩

private theorem allocatedIn_addHour (w week : Int) (allocations : List WeeklyPlanAllocation) :
    allocatedIn w (addHour week allocations) =
      allocatedIn w allocations + if week = w then 1 else 0 := by
  induction allocations with
  | nil => simp [allocatedIn, addHour]
  | cons a rest ih =>
    simp only [allocatedIn] at ih
    unfold addHour
    split
    · next ha =>
      simp only [allocatedIn, List.map_cons, List.sum_cons, ha]
      split <;> omega
    · simp only [allocatedIn, List.map_cons, List.sum_cons, ih]
      omega

/-- A week has as many hours as it is named. -/
theorem allocatedIn_byWeek (w : Int) (weeks : List Int) :
    allocatedIn w (byWeek weeks) = weeks.count w := by
  induction weeks with
  | nil => rfl
  | cons week rest ih =>
    change allocatedIn w (addHour week (byWeek rest)) = _
    rw [allocatedIn_addHour, ih, List.count_cons]
    by_cases h : week = w
    · simp [h]
    · simp [h]

/-! ### Counters and book agree -/

section Book

variable {args : PackArgs}

/-- Hours given out in a plan week. -/
def givenIn (args : PackArgs) (week : Int) (placed : List (Uuid × Int)) : Int :=
  placed.countP fun entry ↦ args.weekOf entry.2 = week

/-- The counters of the loop are what the hours given out say. -/
structure BookLaws (args : PackArgs) (st : PackState) : Prop where
  used : ∀ week, st.usedByWeek week = args.fixedHours week + givenIn args week st.placed
  left : ∀ k, st.remaining k = args.requested k - (hoursGiven k st.placed).length
  weeks : ∀ k, st.allocations k = byWeek ((hoursGiven k st.placed).map args.weekOf)
  first : ∀ k, st.first k = (hoursGiven k st.placed).getLast?
  last : ∀ k, st.last k = (hoursGiven k st.placed).head?.map (· + hour)

/-- The books are right before the first hour. -/
theorem BookLaws.initial : BookLaws args args.initial where
  used week := by simp [PackArgs.initial, givenIn]
  left k := by simp [PackArgs.initial, hoursGiven]
  weeks k := rfl
  first k := rfl
  last k := rfl

/-- An hour that is given is booked. -/
theorem BookLaws.giveHour {st : PackState} (h : BookLaws args st) (key : Uuid) :
    BookLaws args (args.giveHour key st) where
  used week := by
    simp only [PackArgs.giveHour, givenIn, List.countP_cons]
    by_cases hw : args.weekOf st.cursor = week
    · subst hw
      rw [Function.update_self, h.used]
      simp only [givenIn, decide_true, if_true]
      push_cast
      ring
    · rw [Function.update_of_ne (Ne.symm hw), h.used]
      simp [givenIn, hw]
  left k := by
    by_cases hk : k = key
    · subst hk
      simp only [PackArgs.giveHour, Function.update_self, hoursGiven_cons_self, h.left,
        List.length_cons]
      push_cast
      ring
    · simp only [PackArgs.giveHour, Function.update_of_ne hk, hoursGiven_cons_of_ne hk, h.left]
  weeks k := by
    by_cases hk : k = key
    · subst hk
      simp only [PackArgs.giveHour, Function.update_self, hoursGiven_cons_self, h.weeks,
        List.map_cons, byWeek, List.foldr_cons]
    · simp only [PackArgs.giveHour, Function.update_of_ne hk, hoursGiven_cons_of_ne hk, h.weeks]
  first k := by
    by_cases hk : k = key
    · subst hk
      simp only [PackArgs.giveHour, Function.update_self, hoursGiven_cons_self, h.first,
        List.getLast?_cons]
    · simp only [PackArgs.giveHour, Function.update_of_ne hk, hoursGiven_cons_of_ne hk, h.first]
  last k := by
    by_cases hk : k = key
    · subst hk
      simp only [PackArgs.giveHour, Function.update_self, hoursGiven_cons_self, List.head?_cons,
        Option.map_some]
    · simp only [PackArgs.giveHour, Function.update_of_ne hk, hoursGiven_cons_of_ne hk, h.last]

end Book

/-! ### Where the hours lie -/

section Hours

variable {args : PackArgs}

/-- An hour that the customization allows for work. -/
structure UsableHour (args : PackArgs) (h : Int) : Prop where
  started : args.futureStart ≤ h
  notResting : args.weekOf h ∉ args.rests
  available : slotIsAvailable h (h + hour) args.context.weeklyAvailability args.excluded
    args.timezone = true

/-- The plan's weeks start on a Monday and come in order. -/
structure WeeksInOrder (args : PackArgs) : Prop where
  monday : weekday args.start = 0
  inOrder : args.timezone.MondaysInOrder

/-- Rounding up to the hour goes up. -/
theorem le_ceilToHour (u : Int) : u ≤ ceilToHour u := by
  simp only [ceilToHour, hour]
  split <;> omega

/-- Moving on never moves back. -/
theorem le_of_skipTo (hweeks : WeeksInOrder args) {st : PackState} {cursor : Int}
    (h : args.skipTo st = some cursor) : st.cursor ≤ cursor := by
  simp only [PackArgs.skipTo] at h
  split at h
  · obtain rfl := Option.some.inj h
    have hone : 1 ≤ max 1 (ceilHours (args.timezone.midnightInstant
        (args.timezone.date st.cursor + 1) - st.cursor)) := le_max_left _ _
    simp only [hour]
    omega
  split at h
  · obtain rfl := Option.some.inj h
    refine hweeks.inOrder _ ?_ _ ?_
    · have hmonday := hweeks.monday
      simp only [weekday] at hmonday ⊢
      omega
    · simp only [PackArgs.weekOf]
      omega
  split at h
  · obtain rfl := Option.some.inj h
    simp only [hour]
    omega
  · cases h

/-- From the first hour of the grid on, moving on never moves back. -/
def Forward (args : PackArgs) : Prop :=
  ∀ st cursor, args.firstHour ≤ st.cursor → args.skipTo st = some cursor → st.cursor ≤ cursor

/-- Where weeks are in order the cursor goes forward. -/
theorem WeeksInOrder.forward (hweeks : WeeksInOrder args) : Forward args :=
  fun _ _ _ h ↦ le_of_skipTo hweeks h

/-- The hour that is not skipped is usable and its week has room. -/
theorem skipTo_eq_none {st : PackState} (h : args.skipTo st = none)
    (hstart : args.futureStart ≤ st.cursor) :
    UsableHour args st.cursor ∧ st.usedByWeek (args.weekOf st.cursor) < args.weekly := by
  simp only [PackArgs.skipTo] at h
  split at h
  · cases h
  split at h
  · cases h
  · next hweek =>
    obtain ⟨hrest, hroom⟩ := not_or.mp hweek
    split at h
    · cases h
    · next havail => exact ⟨⟨hstart, hrest, by simpa using havail⟩, by omega⟩

/-- Laws of the hours given out: they come one after the other, usable, to steps to place, and no
week is over its capacity. -/
structure HoursLaws (args : PackArgs) (st : PackState) : Prop where
  begun : args.firstHour ≤ st.cursor
  before : ∀ entry ∈ st.placed, entry.2 + hour ≤ st.cursor
  disjoint : st.placed.Pairwise fun later earlier ↦ earlier.2 + hour ≤ later.2
  usable : ∀ entry ∈ st.placed, entry.1 ∈ args.keys ∧ UsableHour args entry.2
  capacity : ∀ entry ∈ st.placed, st.usedByWeek (args.weekOf entry.2) ≤ args.weekly

/-- The laws of the hours hold before the first one. -/
theorem HoursLaws.initial : HoursLaws args args.initial where
  begun := le_rfl
  before := by simp [PackArgs.initial]
  disjoint := List.Pairwise.nil
  usable := by simp [PackArgs.initial]
  capacity := by simp [PackArgs.initial]

/-- Skipping ahead keeps the laws of the hours. -/
theorem HoursLaws.skip {st : PackState} (h : HoursLaws args st) {cursor : Int}
    (hle : st.cursor ≤ cursor) : HoursLaws args { st with cursor := cursor } where
  begun := h.begun.trans hle
  before entry he := (h.before entry he).trans hle
  disjoint := h.disjoint
  usable := h.usable
  capacity := h.capacity

/-- An hour that is given where there is room keeps the laws. -/
theorem HoursLaws.giveHour {st : PackState} (h : HoursLaws args st) {key : Uuid}
    (hkey : key ∈ args.keys) (hopen : UsableHour args st.cursor)
    (hroom : st.usedByWeek (args.weekOf st.cursor) < args.weekly) :
    HoursLaws args (args.giveHour key st) where
  begun := by
    have hbegun := h.begun
    simp only [PackArgs.giveHour, hour]
    omega
  before entry he := by
    rcases List.mem_cons.mp he with rfl | he
    · exact le_refl _
    · have hold := h.before entry he
      simp only [PackArgs.giveHour, hour] at hold ⊢
      omega
  disjoint := List.pairwise_cons.mpr ⟨h.before, h.disjoint⟩
  usable entry he := by
    rcases List.mem_cons.mp he with rfl | he
    · exact ⟨hkey, hopen⟩
    · exact h.usable entry he
  capacity entry he := by
    simp only [PackArgs.giveHour]
    by_cases hw : args.weekOf entry.2 = args.weekOf st.cursor
    · rw [hw, Function.update_self]
      omega
    · rw [Function.update_of_ne hw]
      rcases List.mem_cons.mp he with rfl | he
      · exact absurd rfl hw
      · exact h.capacity entry he

end Hours

end Jobtology.Weekly
