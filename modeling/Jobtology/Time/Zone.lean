import Jobtology.Time.Civil

/-!
# Time zones and aware timestamps

Library for zone-aware arithmetic. A zone answers two questions: which offset is in force at an
instant, and which offset a local reading with a fold flag denotes. Readings skipped or repeated
by a clock change are included; nothing bounds how offsets change.
-/

namespace Jobtology.Time

/-- A time zone. `resolve` also answers for readings that the local clock never shows. -/
structure Zone where
  offset : Int → Int
  fold : Int → Bool
  resolve : Int → Bool → Int
  roundTrip : ∀ u, resolve (u + offset u) (fold u) = offset u

namespace Zone

/-- Local reading at an instant. -/
def wall (z : Zone) (u : Int) : Int := u + z.offset u

/-- Local date at an instant. -/
def date (z : Zone) (u : Int) : Int := dateOf (z.wall u)

/-- Instant denoted by a local reading. -/
def instantOf (z : Zone) (w : Int) (fold : Bool) : Int := w - z.resolve w fold

/-- Instant of the midnight that starts a date, the earlier one when it is repeated. -/
def midnightInstant (z : Zone) (d : Int) : Int := z.instantOf (midnight d) false

/-- Reading an instant and resolving the reading again is the identity. -/
theorem instantOf_wall (z : Zone) (u : Int) : z.instantOf (z.wall u) (z.fold u) = u := by
  unfold instantOf wall
  rw [z.roundTrip u]
  omega

/-- Zone with one offset for ever. -/
def fixed (offset : Int) : Zone where
  offset _ := offset
  fold _ := false
  resolve _ _ := offset
  roundTrip _ := rfl

/-- Coordinated universal time. -/
def utc : Zone := fixed 0

/-- Zone with a single clock change: `before` is in force until the change, `after` from then on.
A repeated reading resolves by its fold flag and a skipped one as if the clock had not jumped. -/
def oneChange (change : Int) (before after : Int) : Zone where
  offset u := if u < change then before else after
  fold u := decide (change ≤ u ∧ u + after < change + before)
  resolve w fold :=
    if w < change + (if fold then min before after else max before after) then before else after
  roundTrip u := by
    by_cases hu : u < change
    · have hf : ¬ (change ≤ u ∧ u + after < change + before) := by omega
      simp only [hu, if_true, hf, decide_false, Bool.false_eq_true, if_false]
      rw [if_pos (by omega)]
    · simp only [hu, if_false]
      by_cases hf : u + after < change + before
      · have hc : change ≤ u ∧ u + after < change + before := by omega
        simp only [hc, and_self, decide_true, if_true]
        rw [if_neg (by omega)]
      · have hc : ¬ (change ≤ u ∧ u + after < change + before) := by omega
        simp only [hc, decide_false, Bool.false_eq_true, if_false]
        rw [if_neg (by omega)]

/-- No instant with an earlier local date comes after the midnight that starts a week. -/
def MondaysInOrder (z : Zone) : Prop :=
  ∀ d, weekday d = 0 → ∀ u, z.date u < d → u ≤ z.midnightInstant d

/-- From a date on, the midnight that starts a week separates the earlier dates from the week and
all later ones. -/
def MondaysExactFrom (z : Zone) (start : Int) : Prop :=
  ∀ d, weekday d = 0 → start ≤ d → ∀ u, z.midnightInstant d ≤ u ↔ d ≤ z.date u

/-- Local midnights are unambiguous: from the midnight that starts a date on, the clock shows no
earlier date. -/
def MidnightsUnambiguous (z : Zone) : Prop :=
  ∀ d u, z.midnightInstant d ≤ u → d ≤ z.date u

/-- From an instant on dates come in order: the midnight that starts a date comes after all earlier
dates and before this and all later ones. -/
def DatesInOrderFrom (z : Zone) (start : Int) : Prop :=
  ∀ d u, start ≤ u → (z.midnightInstant d ≤ u ↔ d ≤ z.date u)

/-- The clock changes only when it is about to show a whole hour, and then shows one. -/
def ChangesOnTheHour (z : Zone) : Prop :=
  ∀ u, z.offset u ≠ z.offset (u - 1) → (u + z.offset (u - 1)) % hour = 0 ∧ z.wall u % hour = 0

/-- After an instant the clock changes only on the hour. -/
def ChangesOnTheHourFrom (z : Zone) (start : Int) : Prop :=
  ∀ u, start < u → z.offset u ≠ z.offset (u - 1) →
    (u + z.offset (u - 1)) % hour = 0 ∧ z.wall u % hour = 0

/-- Mondays are in order at a fixed offset. -/
theorem fixed_mondaysInOrder (offset : Int) : (fixed offset).MondaysInOrder := by
  intro d _ u hu
  have hlt := (dateOf_lt_iff _ d).mp hu
  simp only [midnightInstant, instantOf, wall, fixed] at hlt ⊢
  omega

/-- No midnight is ambiguous at a fixed offset. -/
theorem fixed_midnightsUnambiguous (offset : Int) : (fixed offset).MidnightsUnambiguous := by
  intro d u hu
  rw [← not_lt, date, dateOf_lt_iff]
  simp only [midnightInstant, instantOf, wall, fixed] at hu ⊢
  omega

section From

variable {z : Zone} {start : Int}

/-- What holds always holds from an instant on. -/
theorem ChangesOnTheHour.from_instant (h : z.ChangesOnTheHour) (start : Int) :
    z.ChangesOnTheHourFrom start :=
  fun u _ ↦ h u

/-- What holds from an instant on holds from a later one on. -/
theorem ChangesOnTheHourFrom.mono (h : z.ChangesOnTheHourFrom start) {later : Int}
    (hle : start ≤ later) : z.ChangesOnTheHourFrom later :=
  fun u hu ↦ h u (hle.trans_lt hu)

/-- What holds from an instant on holds from a later one on. -/
theorem DatesInOrderFrom.mono (h : z.DatesInOrderFrom start) {later : Int} (hle : start ≤ later) :
    z.DatesInOrderFrom later :=
  fun d u hu ↦ h d u (hle.trans hu)

/-- Later instants have no earlier dates. -/
theorem DatesInOrderFrom.date_mono (h : z.DatesInOrderFrom start) {u v : Int} (hu : start ≤ u)
    (hle : u ≤ v) : z.date u ≤ z.date v :=
  (h _ v (hu.trans hle)).mp (((h _ u hu).mpr le_rfl).trans hle)

/-- Before its midnight a date has not begun. -/
theorem DatesInOrderFrom.date_lt (h : z.DatesInOrderFrom start) {d u : Int} (hu : start ≤ u)
    (hlt : u < z.midnightInstant d) : z.date u < d := by
  by_contra hle
  exact absurd ((h d u hu).mpr (not_lt.mp hle)) (not_le.mpr hlt)

end From

/-- Mondays are exact at a fixed offset. -/
theorem fixed_mondaysExactFrom (offset start : Int) : (fixed offset).MondaysExactFrom start := by
  intro d _ _ u
  rw [← not_lt, ← not_lt, date, dateOf_lt_iff]
  simp only [midnightInstant, instantOf, wall, fixed]
  omega

/-- An instant at which the clock shows a whole hour. -/
private def OnTheHour (z : Zone) (u : Int) : Prop := z.wall u % hour = 0

/-- Between whole hours the clock runs on and the hour it shows stays the same. -/
theorem wall_of_not_onTheHour {z : Zone} {start : Int} (hz : z.ChangesOnTheHourFrom start)
    {u : Int} (hu : start < u) (h : ¬ z.OnTheHour u) : z.wall u = z.wall (u - 1) + 1 := by
  by_cases hoff : z.offset u = z.offset (u - 1)
  · simp only [wall, hoff]
    omega
  · exact absurd (hz u hu hoff).2 h

private theorem div_hour_of_not_onTheHour {z : Zone} {start : Int}
    (hz : z.ChangesOnTheHourFrom start) {u : Int} (hu : start ≤ u) (n : Nat)
    (h : ∀ k : Nat, 0 < k → k ≤ n → ¬ z.OnTheHour (u + k)) :
    z.wall (u + n) / hour = z.wall u / hour := by
  induction n with
  | zero => simp
  | succ n ih =>
    have hlast := h (n + 1) (by omega) (by omega)
    have hnext := wall_of_not_onTheHour hz (by omega) hlast
    have hprev : u + ((n + 1 : Nat) : Int) - 1 = u + n := by
      push_cast
      omega
    have hsame := ih fun k h0 hk ↦ h k h0 (by omega)
    rw [hprev] at hnext
    simp only [OnTheHour, hour] at hlast hsame ⊢
    omega

/-- After a whole hour comes no other one for an hour. -/
theorem wall_after_hour {z : Zone} {start : Int} (hz : z.ChangesOnTheHourFrom start)
    {u : Int} (hstart : start ≤ u) (hu : z.OnTheHour u) (n : Nat) (hn : (n : Int) < hour) :
    z.wall (u + n) = z.wall u + n := by
  induction n with
  | zero => simp
  | succ n ih =>
    have hsame := ih (by omega)
    have hprev : u + ((n + 1 : Nat) : Int) - 1 = u + n := by
      push_cast
      omega
    have hoff : z.offset (u + (n + 1 : Nat)) = z.offset (u + n) := by
      by_contra hne
      have hchange := (hz (u + (n + 1 : Nat)) (by omega) (by rwa [hprev])).1
      rw [hprev] at hchange
      simp only [wall, OnTheHour, hour] at hsame hu hn hchange
      omega
    simp only [wall, hoff] at hsame ⊢
    push_cast
    omega

/-- Within the hour that the clock begins it shows that hour. -/
theorem wall_div_hour_of_onTheHour {z : Zone} {start : Int} (hz : z.ChangesOnTheHourFrom start)
    {u v : Int} (hstart : start ≤ u) (hu : z.wall u % hour = 0) (hle : u ≤ v) (hlt : v < u + hour) :
    z.wall v / hour = z.wall u / hour := by
  obtain ⟨n, rfl⟩ : ∃ n : Nat, v = u + n := ⟨(v - u).toNat, by omega⟩
  have hn := wall_after_hour hz hstart hu n (by omega)
  simp only [hour] at hu hn hlt ⊢
  omega

/-- An hour after a whole hour the clock shows a whole hour again. -/
theorem onTheHour_add {z : Zone} {start : Int} (hz : z.ChangesOnTheHourFrom start) {u : Int}
    (hstart : start ≤ u) (hu : z.wall u % hour = 0) (n : Nat) :
    z.wall (u + n * hour) % hour = 0 := by
  induction n with
  | zero => simpa using hu
  | succ n ih =>
    have hnext : u + ((n + 1 : Nat) : Int) * hour = u + n * hour + hour := by
      push_cast
      simp only [hour]
      omega
    rw [hnext]
    have hlater : start ≤ u + n * hour := by
      simp only [hour]
      omega
    have hlast := wall_after_hour hz hlater ih 3599999999 (by simp only [hour]; omega)
    have hprev : u + n * hour + ((3599999999 : Nat) : Int) = u + n * hour + hour - 1 := by
      simp only [hour]
      omega
    rw [hprev] at hlast
    by_cases hoff : z.offset (u + n * hour + hour) = z.offset (u + n * hour + hour - 1)
    · simp only [wall, hoff, hour] at hlast ih ⊢
      omega
    · exact (hz _ (by simp only [hour] at hlater ⊢; omega) hoff).2

/-- Whole hours of the clock are whole hours apart. -/
theorem sub_emod_hour {z : Zone} {start : Int} (hz : z.ChangesOnTheHourFrom start) {u v : Int}
    (hstart : start ≤ u) (hu : z.wall u % hour = 0) (hv : z.wall v % hour = 0)
    (hle : u ≤ v) : (v - u) % hour = 0 := by
  have hmod : 0 ≤ (v - u) % hour ∧ (v - u) % hour < hour :=
    ⟨Int.emod_nonneg _ (by decide), Int.emod_lt_of_pos _ (by decide)⟩
  have hwhole := onTheHour_add hz hstart hu ((v - u) / hour).toNat
  have hafter :=
    wall_after_hour hz (by simp only [hour]; omega) hwhole ((v - u) % hour).toNat (by omega)
  have hsum : u + ((v - u) / hour).toNat * hour + ((v - u) % hour).toNat = v := by
    simp only [hour]
    omega
  rw [hsum] at hafter
  generalize z.wall (u + ((v - u) / hour).toNat * hour) = w at hwhole hafter
  generalize (v - u) % hour = r at hmod hafter ⊢
  simp only [hour] at hv hwhole hafter hmod ⊢
  omega

/-- A date begins at a whole hour of the clock. -/
theorem onTheHour_midnightInstant {z : Zone} {start : Int} (hz : z.ChangesOnTheHourFrom start)
    (hd : z.DatesInOrderFrom start) {d : Int} (hstart : start < z.midnightInstant d) :
    z.wall (z.midnightInstant d) % hour = 0 := by
  by_contra hnot
  have hwall := wall_of_not_onTheHour hz hstart hnot
  have hfrom : d ≤ z.date (z.midnightInstant d) := (hd d _ hstart.le).mp le_rfl
  have hbefore : z.date (z.midnightInstant d - 1) < d := hd.date_lt (by omega) (by omega)
  -- the clock runs on, so the reading that passes midnight is midnight
  simp only [date, dateOf, hwall, hour, day] at hfrom hbefore hnot
  omega

/-- Within at most an hour of real time the clock shows only the hours it shows at the two
ends. -/
theorem wall_div_hour_of_le {z : Zone} (hz : z.ChangesOnTheHour) {h u e : Int} (hle : h ≤ u)
    (hlt : u < e) (hend : e ≤ h + hour) :
    z.wall u / hour = z.wall h / hour ∨ z.wall u / hour = z.wall (e - 1) / hour := by
  obtain ⟨n, rfl⟩ : ∃ n : Nat, u = h + n := ⟨(u - h).toNat, by omega⟩
  by_cases hb : ∃ k : Nat, 0 < k ∧ k ≤ n ∧ z.OnTheHour (h + k)
  · obtain ⟨k, h0, hk, hon⟩ := hb
    have hu := wall_after_hour (hz.from_instant h) (by omega) hon (n - k) (by omega)
    have hlast := wall_after_hour (hz.from_instant h) (by omega) hon (e - 1 - (h + k)).toNat
      (by omega)
    rw [show h + (k : Int) + ((n - k : Nat) : Int) = h + n by omega] at hu
    rw [show h + (k : Int) + ((e - 1 - (h + k)).toNat : Int) = e - 1 by omega] at hlast
    simp only [OnTheHour, hour] at hon hend hlast hlt ⊢
    omega
  · exact .inl (div_hour_of_not_onTheHour (hz.from_instant h) le_rfl n
      fun k h0 hk hon ↦ hb ⟨k, h0, hk, hon⟩)

/-- Within an hour of real time the clock shows only the hours it shows at the two ends. -/
theorem wall_div_hour {z : Zone} (hz : z.ChangesOnTheHour) {h u : Int} (hle : h ≤ u)
    (hlt : u < h + hour) :
    z.wall u / hour = z.wall h / hour ∨ z.wall u / hour = z.wall (h + hour - 1) / hour :=
  wall_div_hour_of_le hz hle hlt le_rfl

/-- A zone with one clock change changes on the hour if the readings before and after it are
whole hours. -/
theorem oneChange_changesOnTheHour {change before after : Int}
    (hbefore : (change + before) % hour = 0) (hafter : (change + after) % hour = 0) :
    (oneChange change before after).ChangesOnTheHour := by
  intro u hne
  simp only [wall, oneChange] at hne ⊢
  by_cases hlt : u < change
  · rw [if_pos hlt, if_pos (by omega)] at hne
    exact absurd rfl hne
  · by_cases hprev : u - 1 < change
    · obtain rfl : u = change := by omega
      rw [if_neg hlt, if_pos hprev]
      exact ⟨hbefore, hafter⟩
    · rw [if_neg hlt, if_neg hprev] at hne
      exact absurd rfl hne

end Zone

/-- A local reading with its fold flag and zone. -/
structure AwareDateTime where
  wall : Int
  fold : Bool
  zone : Zone

namespace AwareDateTime

/-- The instant that the reading denotes. -/
def instant (t : AwareDateTime) : Int := t.zone.instantOf t.wall t.fold

/-- The reading of an instant in a zone. -/
def ofInstant (z : Zone) (u : Int) : AwareDateTime := ⟨z.wall u, z.fold u, z⟩

/-- The reading of an instant is of that instant. -/
@[simp] theorem instant_ofInstant (z : Zone) (u : Int) : (ofInstant z u).instant = u :=
  z.instantOf_wall u

end AwareDateTime

end Jobtology.Time
