import Jobtology.Weekly.PackProgress

/-!
# Packing wastes no hour

At most two activities are in progress at any instant of a packed schedule, and no usable hour of
the grid is left empty while work remains, as long as the packer stays on its grid: to go past a
resting or full week it takes local midnight, where a clock that changes by half an hour leaves
the whole hours it started on.
-/

namespace Jobtology.Weekly

open Jobtology.Base Jobtology.Time Jobtology.Planning

variable {args : PackArgs}

/-! ### Activities in progress -/

/-- An activity is in progress from its first hour until its last. -/
def InProgress (st : PackState) (u : Int) (k : Uuid) : Prop :=
  (∃ h ∈ hoursGiven k st.placed, h ≤ u) ∧
    (st.remaining k ≠ 0 ∨ ∃ h ∈ hoursGiven k st.placed, u < h + hour)

/-- Laws of the rolling window: an activity stays open from its first hour until its last, at most
two are open at a time, and at most two were in progress at any instant. -/
structure WindowLaws (args : PackArgs) (st : PackState) : Prop where
  places : st.active.length ≤ maxActiveLearningActivities
  started : ∀ k ∈ args.keys, hoursGiven k st.placed ≠ [] → st.remaining k ≠ 0 → k ∈ st.active
  window : ∀ u, ∃ window : List Uuid, window.length ≤ maxActiveLearningActivities ∧
    ∀ k ∈ args.keys, InProgress st u k → k ∈ window

/-- The laws of the window hold before the first round. -/
theorem WindowLaws.initial : WindowLaws args args.initial where
  places := Nat.zero_le _
  started _ _ hne := absurd rfl hne
  window _ := ⟨[], Nat.zero_le _, fun _ _ h ↦ absurd h.1 (by
    rintro ⟨h, hmem, -⟩
    cases hmem)⟩

/-- After a turn the activity stays open while it has hours left, and the others stay open. -/
theorem endTurn_active (key : Uuid) (st : PackState) :
    (args.endTurn key st).active =
      if st.remaining key ≠ 0 then st.active ++ [key] else st.active := by
  unfold PackArgs.endTurn
  split
  · rfl
  · obtain ⟨waiting, ready, hframe⟩ := foldl_release_frame key (args.dependents key) st
    dsimp only
    rw [hframe]

/-- A turn keeps the window: until its hour nothing changes, and from then on who is in progress is
open or has the turn. -/
theorem WindowLaws.turn {st : PackState} (h : WindowLaws args st) (hhours : HoursLaws args st)
    {key : Uuid} {ready active : List Uuid}
    (hturn : TurnLaws args key { st with ready := ready, active := active })
    (hkeep : st.active ⊆ key :: active)
    (hplaces : (key :: active).length ≤ max st.active.length maxActiveLearningActivities) :
    WindowLaws args
      (args.endTurn key (args.giveHour key { st with ready := ready, active := active })) := by
  have hlength : (key :: active).length ≤ maxActiveLearningActivities :=
    hplaces.trans (max_le h.places le_rfl)
  have hactive := @endTurn_active args key
    (args.giveHour key { st with ready := ready, active := active })
  obtain ⟨w, r, a, hframe⟩ := endTurn_frame args key
    (args.giveHour key { st with ready := ready, active := active })
  rw [hframe] at hactive ⊢
  change a = if Function.update st.remaining key (st.remaining key - 1) key ≠ 0 then
    active ++ [key] else active at hactive
  have hkeyLeft : st.remaining key ≠ 0 := hturn.mem_keys.2.ne'
  have hgiven {k : Uuid} (hk : k ≠ key) :
      hoursGiven k ((key, st.cursor) :: st.placed) = hoursGiven k st.placed :=
    hoursGiven_cons_of_ne hk st.cursor st.placed
  have hleft {k : Uuid} (hk : k ≠ key) :
      Function.update st.remaining key (st.remaining key - 1) k = st.remaining k :=
    Function.update_of_ne hk _ _
  constructor
  case places =>
    change a.length ≤ _
    rw [List.length_cons] at hlength
    rw [hactive]
    split
    · rw [List.length_append, List.length_singleton]
      exact hlength
    · exact (Nat.le_succ _).trans hlength
  case started =>
    intro k hk hne hr
    change k ∈ a
    change hoursGiven k ((key, st.cursor) :: st.placed) ≠ [] at hne
    change Function.update st.remaining key (st.remaining key - 1) k ≠ 0 at hr
    rw [hactive]
    by_cases hkey : k = key
    · subst hkey
      rw [if_pos hr]
      exact List.mem_append_right _ List.mem_cons_self
    · rw [hgiven hkey] at hne
      rw [hleft hkey] at hr
      have hopen := (List.mem_cons.mp (hkeep (h.started k hk hne hr))).resolve_left hkey
      split
      · exact List.mem_append_left _ hopen
      · exact hopen
  case window =>
    intro u
    by_cases hu : u < st.cursor
    · obtain ⟨window, hwindow, hall⟩ := h.window u
      refine ⟨window, hwindow, fun k hk ⟨hfirst, hlast⟩ ↦ hall k hk ?_⟩
      change ∃ h ∈ hoursGiven k ((key, st.cursor) :: st.placed), h ≤ u at hfirst
      change Function.update st.remaining key (st.remaining key - 1) k ≠ 0 ∨
        ∃ h ∈ hoursGiven k ((key, st.cursor) :: st.placed), u < h + hour at hlast
      by_cases hkey : k = key
      · subst hkey
        rw [hoursGiven_cons_self] at hfirst
        obtain ⟨first, hmem, hle⟩ := hfirst
        refine ⟨⟨first, (List.mem_cons.mp hmem).resolve_left ?_, hle⟩, .inl hkeyLeft⟩
        omega
      · rw [hgiven hkey] at hfirst hlast
        rw [hleft hkey] at hlast
        exact ⟨hfirst, hlast⟩
    · refine ⟨key :: active, hlength, fun k hk ⟨hfirst, hlast⟩ ↦ ?_⟩
      change ∃ h ∈ hoursGiven k ((key, st.cursor) :: st.placed), h ≤ u at hfirst
      change Function.update st.remaining key (st.remaining key - 1) k ≠ 0 ∨
        ∃ h ∈ hoursGiven k ((key, st.cursor) :: st.placed), u < h + hour at hlast
      by_cases hkey : k = key
      · exact hkey ▸ List.mem_cons_self
      · rw [hgiven hkey] at hfirst hlast
        rw [hleft hkey] at hlast
        obtain ⟨first, hmem, -⟩ := hfirst
        obtain hr | ⟨last, hlast, hlt⟩ := hlast
        · exact hkeep (h.started k hk (List.ne_nil_of_mem hmem) hr)
        · -- its last hour is over by now
          have hover := hhours.before _ (mem_hoursGiven.mp hlast)
          dsimp only at hover
          omega

/-- A whole number of hours from the first hour of the grid. -/
def GridHour (args : PackArgs) (h : Int) : Prop :=
  args.firstHour ≤ h ∧ (h - args.firstHour) % hour = 0

/-- The cursor is on the grid, or at a whole hour of a clock that changes at whole hours from then
on. -/
def OnGrid (args : PackArgs) (u : Int) : Prop :=
  GridHour args u ∨ args.firstHour ≤ u ∧ args.timezone.ChangesOnTheHourFrom u ∧
    args.timezone.wall u % hour = 0

/-- The grid starts with the first hour. -/
theorem OnGrid.begun {u : Int} (h : OnGrid args u) : args.firstHour ≤ u :=
  h.elim And.left And.left

/-- Whole hours stay on the grid. -/
theorem OnGrid.add {u : Int} (h : OnGrid args u) (n : Nat) : OnGrid args (u + n * hour) := by
  have hlater : args.firstHour ≤ u + n * hour := by
    have hbegun := h.begun
    simp only [hour]
    omega
  obtain ⟨hle, hmod⟩ | ⟨hle, hclock, hwhole⟩ := h
  · refine .inl ⟨hlater, ?_⟩
    simp only [hour] at hmod ⊢
    omega
  · refine .inr ⟨hlater, hclock.mono ?_, Zone.onTheHour_add hclock le_rfl hwhole n⟩
    simp only [hour]
    omega

private theorem not_usable_of_excluded (hdates : args.timezone.DatesInOrderFrom args.firstHour)
    {u : Int} (hgrid : OnGrid args u) (hexcluded : args.timezone.date u ∈ args.excluded) {h : Int}
    (hh : GridHour args h) (hle : u ≤ h)
    (hlt : h < u +
      max 1 (ceilHours (args.timezone.midnightInstant (args.timezone.date u + 1) - u)) * hour) :
    ¬ UsableHour args h := by
  have hbegun := hgrid.begun
  have hdate := hdates.date_mono hbegun hle
  -- the excluded date is not over yet
  have hday : u < args.timezone.midnightInstant (args.timezone.date u + 1) := by
    by_contra hover
    have hnext := (hdates _ _ hbegun).mp (not_lt.mp hover)
    omega
  have hbefore : h < args.timezone.midnightInstant (args.timezone.date u + 1) := by
    unfold GridHour at hh
    obtain ⟨-, hmod⟩ | ⟨-, hclock, hwhole⟩ := hgrid
    · simp only [ceilHours, hour] at hh hlt hmod
      omega
    · have hexact := Zone.sub_emod_hour hclock le_rfl hwhole
        (Zone.onTheHour_midnightInstant hclock (hdates.mono hbegun) hday) hday.le
      simp only [ceilHours, hour] at hlt hexact
      omega
  have hsame := hdates.date_lt (hbegun.trans hle) hbefore
  obtain heq : args.timezone.date h = args.timezone.date u := by omega
  intro husable
  have hopen := (slotIsAvailable_hour_iff h _ _ _).mp husable.available
  refine (hopen _ List.mem_cons_self).1 ?_
  change args.timezone.date h ∈ args.excluded
  rwa [heq]

private theorem not_usable_of_unavailable {u : Int} (hgrid : OnGrid args u)
    (hclosed : ¬ slotIsAvailable u (u + hour) args.context.weeklyAvailability args.excluded
      args.timezone = true) {h : Int} (hh : GridHour args h) (hle : u ≤ h) (hlt : h < u + hour) :
    ¬ UsableHour args h := by
  intro husable
  apply hclosed
  obtain ⟨-, hmod⟩ | ⟨-, hclock, hwhole⟩ := hgrid
  · obtain rfl : h = u := by
      unfold GridHour at hh
      simp only [hour] at hh hlt hmod
      omega
    exact husable.available
  · -- the clock shows one hour throughout, and it is open at the passed instant
    have hopen : OpenInstant args.context.weeklyAvailability args.excluded args.timezone h :=
      (slotIsAvailable_hour_iff h _ _ _).mp husable.available _ List.mem_cons_self
    have hshown {v : Int} (hfrom : u ≤ v) (huntil : v < u + hour) :
        OpenInstant args.context.weeklyAvailability args.excluded args.timezone v := by
      rw [openInstant_congr ((Zone.wall_div_hour_of_onTheHour hclock le_rfl hwhole hfrom
        huntil).trans (Zone.wall_div_hour_of_onTheHour hclock le_rfl hwhole hle hlt).symm)]
      exact hopen
    rw [slotIsAvailable_hour_iff]
    intro reading hreading
    obtain rfl | hreading := List.mem_cons.mp hreading
    · exact hshown le_rfl (by simp only [hour]; omega)
    · obtain rfl := List.mem_singleton.mp hreading
      exact hshown (by simp only [hour]; omega) (by omega)

/-- An hour on the grid that the next round passes over has an excluded date, lies in a resting or
full week, or is not available. -/
theorem passed_of_skipTo (hdates : args.timezone.DatesInOrderFrom args.firstHour) {st : PackState}
    (hgrid : OnGrid args st.cursor) {cursor : Int} (hskip : args.skipTo st = some cursor) {h : Int}
    (hh : GridHour args h) (hle : st.cursor ≤ h) (hlt : h < cursor) :
    ¬ UsableHour args h ∨ args.weekly ≤ st.usedByWeek (args.weekOf h) := by
  have hbegun := hgrid.begun
  have hdate := hdates.date_mono hbegun hle
  unfold PackArgs.skipTo at hskip
  dsimp only at hskip
  split at hskip
  · next hexcluded =>
    obtain rfl := Option.some.inj hskip
    exact .inl (not_usable_of_excluded hdates hgrid hexcluded hh hle hlt)
  split at hskip
  · next hweek =>
    obtain rfl := Option.some.inj hskip
    have hbefore := hdates.date_lt (hbegun.trans hle) hlt
    have hsame : args.weekOf h = args.weekOf st.cursor := by
      unfold PackArgs.weekOf at hbefore ⊢
      omega
    rw [hsame]
    exact hweek.imp_left fun hrest husable ↦ husable.notResting (hsame ▸ hrest)
  split at hskip
  · next havailable =>
    obtain rfl := Option.some.inj hskip
    exact .inl (not_usable_of_unavailable hgrid (by simpa using havailable) hh hle hlt)
  · cases hskip

/-! ### No hour is wasted -/

/-- Hours given out before an instant in its week. -/
def givenBefore (args : PackArgs) (h : Int) (placed : List (Uuid × Int)) : Int :=
  placed.countP fun entry ↦ args.weekOf entry.2 = args.weekOf h ∧ entry.2 < h

/-- Some of an hour is given out. -/
def Taken (placed : List (Uuid × Int)) (h : Int) : Prop :=
  ∃ entry ∈ placed, entry.2 < h + hour ∧ h < entry.2 + hour

/-- Up to an instant every usable hour of the grid whose week is not yet full is taken. -/
def NoneWasted (args : PackArgs) (instant : Int) (placed : List (Uuid × Int)) : Prop :=
  ∀ h, GridHour args h → h < instant → UsableHour args h →
    args.fixedHours (args.weekOf h) + givenBefore args h placed < args.weekly → Taken placed h

/-- Hours that all come before an instant are all given out before it. -/
theorem givenBefore_eq {h : Int} {placed : List (Uuid × Int)}
    (hall : ∀ entry ∈ placed, entry.2 < h) :
    givenBefore args h placed = givenIn args (args.weekOf h) placed := by
  unfold givenBefore givenIn
  congr 1
  apply List.countP_congr
  intro entry hentry
  simp [hall entry hentry]

/-- A round that moves on passes over no usable hour. -/
theorem NoneWasted.skip (hdates : args.timezone.DatesInOrderFrom args.firstHour)
    {st : PackState} (hlaws : PackLaws args st) (hgrid : OnGrid args st.cursor)
    (h : NoneWasted args st.cursor st.placed) {cursor : Int}
    (hskip : args.skipTo st = some cursor) : NoneWasted args cursor st.placed := by
  intro g hg hlt husable hroom
  by_cases hpassed : g < st.cursor
  · exact h g hg hpassed husable hroom
  have hbefore : ∀ entry ∈ st.placed, entry.2 < g := by
    intro entry hentry
    have hover := hlaws.hoursGiven.before entry hentry
    simp only [hour] at hover
    omega
  rw [givenBefore_eq hbefore, ← hlaws.book.used] at hroom
  obtain hclosed | hfull := passed_of_skipTo hdates hgrid hskip hg (not_lt.mp hpassed) hlt
  · exact absurd husable hclosed
  · exact absurd hroom (not_lt.mpr hfull)

/-- Laws of the grid: the cursor stays on it, and nothing before it is wasted. -/
structure GridLaws (args : PackArgs) (st : PackState) : Prop where
  onGrid : OnGrid args st.cursor
  noneWasted : NoneWasted args st.cursor st.placed

/-- The cursor starts on the grid. -/
theorem GridLaws.initial : GridLaws args args.initial where
  onGrid := .inl ⟨le_rfl, by
    change (args.firstHour - args.firstHour) % hour = 0
    rw [sub_self, Int.zero_emod]⟩
  noneWasted _ hg hlt _ _ := absurd hlt (not_lt.mpr hg.1)

end Jobtology.Weekly
