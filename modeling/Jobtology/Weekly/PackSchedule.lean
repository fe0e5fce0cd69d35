import Jobtology.Weekly.PackHours

/-!
# The schedule that packing returns

Every run of the loop of `_pack` keeps the laws of the queues, of the book of hours and of the
hours given out. When the prerequisites left open are acyclic and all of them are to be placed,
no hour of a step comes before the end of a prerequisite.
-/

namespace Jobtology.Weekly

open Jobtology.Base Jobtology.Time Jobtology.Planning Jobtology.Graph

variable {args : PackArgs}

/-! ### Order along the prerequisites -/

/-- Every prerequisite that a step to place waits for is to be placed as well. -/
def PackArgs.Closed (args : PackArgs) : Prop :=
  ∀ k ∈ args.keys, ∀ p ∈ args.waitsFor k, p ∈ args.keys

/-- Laws of the order: a queued step waits for nothing, and a step that was given an hour had all
its prerequisites placed in full before that hour. -/
structure OrderLaws (args : PackArgs) (st : PackState) : Prop where
  settled : ∀ k ∈ st.active ++ st.ready, st.waiting k = ∅
  ordered : ∀ entry ∈ st.placed, ∀ p ∈ args.waitsFor entry.1, st.remaining p = 0 ∧
    ∀ earlier ∈ st.placed, earlier.1 = p → earlier.2 + hour ≤ entry.2

/-- The laws of the order hold before the first round. -/
theorem OrderLaws.initial : OrderLaws args args.initial where
  settled k hk := by
    change args.waitsFor k = ∅
    simpa using (List.mem_filter.mp hk).2
  ordered := by simp [PackArgs.initial]

/-- While hours are left some step waits for nothing. -/
theorem QueueLaws.queue_ne_nil {st : PackState} (h : QueueLaws args st) (hclosed : args.Closed)
    (hacyclic : Acyclic args.openPrerequisites) (hleft : st.hoursLeft ≠ 0) :
    st.active ++ st.ready ≠ [] := by
  let unplaced := args.keys.filter fun k ↦ st.remaining k ≠ 0
  have hsome : unplaced ≠ [] := by
    intro hnil
    have hzero : ∀ k ∈ args.keys, st.remaining k = 0 := by simpa [unplaced] using hnil
    apply hleft
    rw [h.total, List.map_congr_left hzero]
    simp
  obtain ⟨k, hk, hsink⟩ := hacyclic.exists_sink hsome
  obtain ⟨hkey, hne⟩ := List.mem_filter.mp hk
  have hempty : st.waiting k = ∅ := by
    refine Finset.eq_empty_of_forall_notMem fun p hp ↦ ?_
    obtain ⟨hwaits, hnot⟩ := (h.waits k hkey p).mp hp
    have hpkey := hclosed k hkey p hwaits
    refine hsink p (List.mem_toFinset.mp hwaits) (List.mem_filter.mpr ⟨hpkey, ?_⟩)
    simpa [hpkey] using hnot
  have hmem := h.queued.complete k hkey (by simpa using hne) hempty
  exact List.ne_nil_of_mem hmem

private theorem foldl_release_waiting_subset (key : Uuid) (todo : List Uuid) (st : PackState)
    (k : Uuid) :
    (todo.foldl (release key) st).waiting k ⊆ st.waiting k := by
  induction todo generalizing st with
  | nil => exact Finset.Subset.refl _
  | cons d todo ih =>
    refine (ih (release key st d)).trans ?_
    rw [release_eq]
    dsimp only
    by_cases hk : k = d
    · subst hk
      rw [Function.update_self]
      exact Finset.erase_subset _ _
    · rw [Function.update_of_ne hk]

/-- A step that becomes ready waits for nothing. -/
theorem foldl_release_ready (key : Uuid) (todo : List Uuid) (st : PackState) :
    ∀ k ∈ (todo.foldl (release key) st).ready,
      k ∈ st.ready ∨ (todo.foldl (release key) st).waiting k = ∅ := by
  induction todo generalizing st with
  | nil => exact fun k hk ↦ .inl hk
  | cons d todo ih =>
    intro k hk
    rcases ih (release key st d) k hk with hready | hempty
    · have hsub := foldl_release_waiting_subset key todo (release key st d) k
      rw [release_eq] at hready
      dsimp only at hready
      split at hready
      · next hnew =>
        rcases List.mem_append.mp hready with hready | hlast
        · exact .inl hready
        · obtain rfl : k = d := by simpa using hlast
          have hempty : (release key st k).waiting k = ∅ := by
            rw [release_eq]
            simpa using hnew.1
          rw [hempty] at hsub
          exact .inr (Finset.subset_empty.mp hsub)
      · exact .inl hready
    · exact .inr hempty

/-- After a turn, who is queued was queued before, had the turn, or waits for nothing. -/
theorem endTurn_queue (key : Uuid) (st : PackState) :
    ∀ k ∈ (args.endTurn key st).active ++ (args.endTurn key st).ready,
      k = key ∨ k ∈ st.active ++ st.ready ∨ (args.endTurn key st).waiting k = ∅ := by
  intro k hk
  unfold PackArgs.endTurn at hk ⊢
  split at hk
  · next hagain =>
    rw [List.append_assoc, List.mem_append, List.singleton_append, List.mem_cons] at hk
    rw [if_pos hagain, List.mem_append]
    tauto
  · next hdone =>
    rw [if_neg hdone]
    have hready := foldl_release_ready key (args.dependents key) st k
    have hactive : ((args.dependents key).foldl (release key) st).active = st.active := by
      obtain ⟨waiting, ready, hframe⟩ := foldl_release_frame key (args.dependents key) st
      rw [hframe]
    dsimp only at hk ⊢
    rw [List.mem_append, List.mem_insertionSort, hactive] at hk
    rw [List.mem_append]
    tauto

/-- Once a step waits for nothing it never waits again. -/
theorem QueueLaws.waiting_eq_empty {st st' : PackState} (h : QueueLaws args st)
    (h' : QueueLaws args st') (hzero : ∀ p, st.remaining p = 0 → st'.remaining p = 0) {k : Uuid}
    (hk : k ∈ args.keys) (hempty : st.waiting k = ∅) : st'.waiting k = ∅ := by
  refine Finset.eq_empty_of_forall_notMem fun p hp ↦ ?_
  obtain ⟨hwaits, hnot⟩ := (h'.waits k hk p).mp hp
  have hmem : p ∈ st.waiting k :=
    (h.waits k hk p).mpr ⟨hwaits, fun hdone ↦ hnot ⟨hdone.1, hzero p hdone.2⟩⟩
  rw [hempty] at hmem
  simp at hmem

/-! ### One round keeps the laws -/

/-- Laws that hold for every prerequisite graph. -/
structure PackLaws (args : PackArgs) (st : PackState) : Prop where
  queues : QueueLaws args st
  book : BookLaws args st
  hoursGiven : HoursLaws args st

/-- All laws hold before the first round. -/
theorem PackLaws.initial (hhours : ∀ k ∈ args.keys, 1 ≤ args.requested k) :
    PackLaws args args.initial :=
  ⟨QueueLaws.initial hhours, BookLaws.initial, HoursLaws.initial⟩

/-- Laws about the hours do not mention the queues. -/
theorem BookLaws.congr_queues {st : PackState} (h : BookLaws args st)
    (waiting : Uuid → Finset Uuid) (ready active : List Uuid) :
    BookLaws args { st with waiting := waiting, ready := ready, active := active } :=
  ⟨h.used, h.left, h.weeks, h.first, h.last⟩

private theorem HoursLaws.congr_queues {st : PackState} (h : HoursLaws args st)
    (waiting : Uuid → Finset Uuid) (ready active : List Uuid) :
    HoursLaws args { st with waiting := waiting, ready := ready, active := active } :=
  ⟨h.begun, h.before, h.disjoint, h.usable, h.capacity⟩

/-- The laws of the queues and of the book need nothing of the time zone. -/
theorem packStep_counters {st st' : PackState} (hqueues : QueueLaws args st)
    (hbook : BookLaws args st) (hstep : args.packStep st = .ok st') :
    QueueLaws args st' ∧ BookLaws args st' := by
  rcases packStep_cases hqueues hstep with
    ⟨cursor, -, rfl⟩ | ⟨-, key, ready, active, hturn, -, -, rfl⟩
  · exact ⟨⟨⟨hqueues.queued.nodup, hqueues.queued.working, hqueues.queued.complete⟩,
        hqueues.waits, hqueues.nonneg, hqueues.total⟩,
      ⟨hbook.used, hbook.left, hbook.weeks, hbook.first, hbook.last⟩⟩
  · refine ⟨hturn.endTurn, ?_⟩
    obtain ⟨w, r, a, hframe⟩ := endTurn_frame args key
      (args.giveHour key { st with ready := ready, active := active })
    rw [hframe]
    exact ((hbook.congr_queues st.waiting ready active).giveHour key).congr_queues w r a

/-- A round keeps the laws. -/
theorem packStep_laws (hforward : Forward args) {st st' : PackState} (h : PackLaws args st)
    (hstep : args.packStep st = .ok st') : PackLaws args st' := by
  obtain ⟨hqueues, hbook⟩ := packStep_counters h.queues h.book hstep
  refine ⟨hqueues, hbook, ?_⟩
  rcases packStep_cases h.queues hstep with
    ⟨cursor, hskip, rfl⟩ | ⟨hskip, key, ready, active, hturn, -, -, rfl⟩
  · exact h.hoursGiven.skip (hforward st cursor h.hoursGiven.begun hskip)
  · obtain ⟨hopen, hroom⟩ :=
      skipTo_eq_none hskip ((le_ceilToHour _).trans h.hoursGiven.begun)
    have hgiven := (h.hoursGiven.congr_queues st.waiting ready active).giveHour
      hturn.mem_keys.1 hopen hroom
    obtain ⟨w, r, a, hframe⟩ := endTurn_frame args key
      (args.giveHour key { st with ready := ready, active := active })
    rw [hframe]
    exact hgiven.congr_queues w r a

private theorem packStep_order (hforward : Forward args) (hclosed : args.Closed)
    (hacyclic : Acyclic args.openPrerequisites) {st st' : PackState} (h : PackLaws args st)
    (horder : OrderLaws args st) (hleft : st.hoursLeft ≠ 0)
    (hstep : args.packStep st = .ok st') : OrderLaws args st' := by
  have hlaws' := packStep_laws hforward h hstep
  rcases packStep_cases h.queues hstep with
    ⟨cursor, -, rfl⟩ | ⟨-, key, ready, active, hturn, hqueue, -, rfl⟩
  · exact ⟨horder.settled, horder.ordered⟩
  have hsub := hqueue.resolve_right (h.queues.queue_ne_nil hclosed hacyclic hleft)
  generalize hst : { st with ready := ready, active := active } = turn at hturn hlaws' ⊢
  have hkey := hturn.mem_keys
  have hremaining : turn.remaining = st.remaining := by rw [← hst]
  have hplaced : turn.placed = st.placed := by rw [← hst]
  have hcursor : turn.cursor = st.cursor := by rw [← hst]
  obtain ⟨w, r, a, hframe⟩ := endTurn_frame args key (args.giveHour key turn)
  have hremaining' : (args.endTurn key (args.giveHour key turn)).remaining =
      (args.giveHour key turn).remaining := by rw [hframe]
  have hplaced' : (args.endTurn key (args.giveHour key turn)).placed =
      (key, st.cursor) :: st.placed := by
    rw [hframe, ← hcursor, ← hplaced]
    rfl
  have hzero (p : Uuid) (hp : st.remaining p = 0) :
      (args.endTurn key (args.giveHour key turn)).remaining p = 0 := by
    have hne : p ≠ key := by
      rintro rfl
      rw [hremaining] at hkey
      omega
    rw [hremaining', TurnLaws.giveHour_of_ne hne, hremaining]
    exact hp
  have hstill {k : Uuid} (hk : k ∈ args.keys) (hmem : k ∈ st.active ++ st.ready) :=
    h.queues.waiting_eq_empty hlaws'.queues hzero hk (horder.settled k hmem)
  constructor
  case settled =>
    intro k hk
    have hkkey := (hlaws'.queues.queued.working k hk).1
    rcases endTurn_queue key (args.giveHour key turn) k hk with rfl | hold | hempty
    · exact hstill hkkey (hsub (by simp))
    · refine hstill hkkey (hsub (List.mem_cons_of_mem _ ?_))
      rw [← hst] at hold
      exact hold
    · exact hempty
  case ordered =>
    intro entry hentry p hp
    rw [hplaced'] at hentry ⊢
    rcases List.mem_cons.mp hentry with rfl | hentry
    · -- the hour is given now: its prerequisites are done and all earlier hours are over
      have hdone : st.remaining p = 0 := by
        have hempty := horder.settled key (hsub (by simp))
        by_contra hne
        have hmem : p ∈ st.waiting key :=
          (h.queues.waits key hkey.1 p).mpr ⟨hp, fun hd ↦ hne hd.2⟩
        rw [hempty] at hmem
        simp at hmem
      refine ⟨hzero p hdone, fun earlier he hep ↦ ?_⟩
      rcases List.mem_cons.mp he with rfl | he
      · rw [← hep, ← hremaining] at hdone
        have hpos := hkey.2
        dsimp only at hdone
        omega
      · exact h.hoursGiven.before earlier he
    · -- an hour given before: none of its prerequisites gets the hour now
      obtain ⟨hdone, hbefore⟩ := horder.ordered entry hentry p hp
      refine ⟨hzero p hdone, fun earlier he hep ↦ ?_⟩
      rcases List.mem_cons.mp he with rfl | he
      · rw [← hep, ← hremaining] at hdone
        have hpos := hkey.2
        dsimp only at hdone
        omega
      · exact hbefore earlier he hep

/-! ### Every run keeps the laws -/

/-- The rounds keep the laws, and end when no hours are left. -/
theorem packLoop_laws (hforward : Forward args) (rounds : Nat) {st st' : PackState}
    (h : PackLaws args st) (hrun : args.packLoop rounds st = .ok st') :
    PackLaws args st' ∧ st'.hoursLeft = 0 ∧
      (args.Closed → Acyclic args.openPrerequisites → OrderLaws args st → OrderLaws args st') := by
  induction rounds generalizing st with
  | zero =>
    unfold PackArgs.packLoop at hrun
    split at hrun
    · next hdone =>
      obtain rfl := Except.ok.inj hrun
      exact ⟨h, hdone, fun _ _ horder ↦ horder⟩
    · cases hrun
  | succ rounds ih =>
    unfold PackArgs.packLoop at hrun
    split at hrun
    · next hdone =>
      obtain rfl := Except.ok.inj hrun
      exact ⟨h, hdone, fun _ _ horder ↦ horder⟩
    · next hleft =>
      obtain ⟨next, hstep, hrun⟩ := bind_eq_ok.mp hrun
      obtain ⟨hlaws, hdone, horder⟩ := ih (packStep_laws hforward h hstep) hrun
      exact ⟨hlaws, hdone, fun hclosed hacyclic hst ↦ horder hclosed hacyclic
        (packStep_order hforward hclosed hacyclic h hst hleft hstep)⟩

/-! ### The schedule -/

/-- What a packed schedule should be, with the hours it stands for: the steps already placed stay
as they are, every other step gets exactly its hours, no hour is given twice, weeks keep to their
capacity and hours lie only where work is allowed. With acyclic prerequisites that are all to be
placed, every prerequisite ends before its dependent starts. -/
structure WellPacked (args : PackArgs) (packed : List (Uuid × Scheduled))
    (placed : List (Uuid × Int)) : Prop where
  steps : ∃ scheduled, packed = args.fixed ++ scheduled ∧ scheduled.map (·.1) = args.keys
  hoursSum : ∀ entry ∈ packed, entry.1 ∈ args.keys →
    (entry.2.allocations.map (·.hours)).sum = args.requested entry.1
  hoursByWeek : ∀ entry ∈ packed, entry.1 ∈ args.keys →
    (entry.2.allocations.map (·.week)).Nodup ∧ ∀ week,
      allocatedIn week entry.2.allocations =
        (hoursGiven entry.1 placed).countP fun h ↦ args.weekOf h = week
  span : ∀ entry ∈ packed, entry.1 ∈ args.keys →
    entry.2.startsAt ∈ hoursGiven entry.1 placed ∧
      entry.2.endsAt - hour ∈ hoursGiven entry.1 placed ∧
      ∀ h ∈ hoursGiven entry.1 placed, entry.2.startsAt ≤ h ∧ h + hour ≤ entry.2.endsAt
  exclusive : placed.Pairwise fun later earlier ↦ earlier.2 + hour ≤ later.2
  toSteps : ∀ entry ∈ placed, entry.1 ∈ args.keys
  capacity : ∀ entry ∈ placed, args.fixedHours (args.weekOf entry.2) +
    givenIn args (args.weekOf entry.2) placed ≤ args.weekly
  started : ∀ entry ∈ placed, args.futureStart ≤ entry.2
  notResting : ∀ entry ∈ placed, args.weekOf entry.2 ∉ args.rests
  available : ∀ entry ∈ placed, slotIsAvailable entry.2 (entry.2 + hour)
    args.context.weeklyAvailability args.excluded args.timezone = true
  openThroughout : ∀ entry ∈ placed, ∀ u, entry.2 ≤ u → u < entry.2 + hour →
    (u = entry.2 ∨ u = entry.2 + hour - 1 ∨ args.timezone.ChangesOnTheHour) →
    OpenInstant args.context.weeklyAvailability args.excluded args.timezone u
  inOrder : args.Closed → Acyclic args.openPrerequisites → ∀ entry ∈ packed,
    entry.1 ∈ args.keys → ∀ p ∈ args.waitsFor entry.1,
      ∃ schedule, (p, schedule) ∈ packed ∧ schedule.endsAt ≤ entry.2.startsAt

/-- A step to place is not among the steps already placed. -/
theorem PackArgs.not_fixed {entry : Uuid × Scheduled} (h : entry.1 ∈ args.keys) :
    entry ∉ args.fixed := by
  intro hmem
  have hnot := (List.mem_filter.mp h).2
  have hfixed : args.isFixed entry.1 = true :=
    List.any_eq_true.mpr ⟨entry, hmem, by simp⟩
  rw [hfixed] at hnot
  cases hnot

private theorem scheduledOf_ok {st : PackState} {k : Uuid} {entry : Uuid × Scheduled}
    (h : scheduledOf st k = .ok entry) :
    entry.1 = k ∧ st.first entry.1 = some entry.2.startsAt ∧
      st.last entry.1 = some entry.2.endsAt ∧ entry.2.allocations = st.allocations entry.1 := by
  unfold scheduledOf at h
  split at h
  · next hfirst hlast =>
    obtain rfl := Except.ok.inj h
    exact ⟨rfl, hfirst, hlast, rfl⟩
  · cases h

private theorem keys_scheduled {st : PackState} {keys : List Uuid}
    {scheduled : List (Uuid × Scheduled)}
    (h : List.Forall₂ (fun k entry ↦ scheduledOf st k = .ok entry) keys scheduled) :
    scheduled.map (·.1) = keys := by
  induction h with
  | nil => rfl
  | cons hentry _ ih => rw [List.map_cons, ih, (scheduledOf_ok hentry).1]

/-- The oldest hour of a step comes first and the newest last. -/
theorem HoursLaws.hoursGiven_sorted {st : PackState} (h : HoursLaws args st) (k : Uuid) :
    (hoursGiven k st.placed).Pairwise fun later earlier ↦ earlier + hour ≤ later :=
  List.pairwise_map.mpr (h.disjoint.filter _)

private theorem sorted_span {hours : List Int}
    (hs : hours.Pairwise fun later earlier ↦ earlier + hour ≤ later) {first last : Int}
    (hfirst : hours.getLast? = some first) (hlast : hours.head?.map (· + hour) = some last) :
    ∀ h ∈ hours, first ≤ h ∧ h + hour ≤ last := by
  induction hours generalizing last with
  | nil => simp
  | cons newest rest ih =>
    obtain ⟨hnew, hrest⟩ := List.pairwise_cons.mp hs
    obtain rfl : newest + hour = last := by simpa using hlast
    cases rest with
    | nil =>
      intro h hm
      obtain rfl : h = newest := by simpa using hm
      obtain rfl : h = first := by simpa using hfirst
      exact ⟨le_refl _, le_refl _⟩
    | cons next older =>
      have hall := @ih hrest (next + hour) (by simpa using hfirst) rfl
      intro h hm
      rcases List.mem_cons.mp hm with rfl | hm
      · have hnext := hnew next (by simp)
        have hle := (hall next (by simp)).1
        simp only [hour] at hnext hle ⊢
        omega
      · have hle := hnew h hm
        refine ⟨(hall h hm).1, ?_⟩
        simp only [hour] at hle ⊢
        omega

/-- Whatever `_pack` returns is well packed, for any steps with hours of at least 1, any steps
already placed, any prerequisites, capacity, windows, exclusions, rest weeks and preferred
starts. -/
theorem pack_wellPacked (hforward : Forward args)
    (hhours : ∀ k ∈ args.keys, 1 ≤ args.requested k) {rounds : Nat}
    {packed : List (Uuid × Scheduled)} (hpack : args.pack rounds = .ok packed) :
    ∃ st, args.packLoop rounds args.initial = .ok st ∧ WellPacked args packed st.placed := by
  obtain ⟨st, hrun, hpack⟩ := bind_eq_ok.mp hpack
  obtain ⟨scheduled, hmap, hpack⟩ := bind_eq_ok.mp hpack
  obtain rfl : args.fixed ++ scheduled = packed := Except.ok.inj hpack
  obtain ⟨hlaws, hdone, horder⟩ := packLoop_laws hforward rounds
    (PackLaws.initial hhours) hrun
  have hmatch := forall₂_of_mapM_ok hmap
  have hkeys := keys_scheduled hmatch
  have hentries (entry : Uuid × Scheduled) (he : entry ∈ scheduled) :
      st.first entry.1 = some entry.2.startsAt ∧ st.last entry.1 = some entry.2.endsAt ∧
        entry.2.allocations = st.allocations entry.1 := by
    obtain ⟨k, -, hk⟩ := exists_of_mem_right hmatch he
    exact (scheduledOf_ok hk).2
  have hscheduled {entry : Uuid × Scheduled} (he : entry ∈ args.fixed ++ scheduled)
      (hk : entry.1 ∈ args.keys) : entry ∈ scheduled :=
    (List.mem_append.mp he).resolve_left (PackArgs.not_fixed hk)
  have hzero := eq_zero_of_sum_eq_zero hlaws.queues.nonneg (by rw [← hlaws.queues.total, hdone])
  have hspan {entry : Uuid × Scheduled} (he : entry ∈ args.fixed ++ scheduled)
      (hk : entry.1 ∈ args.keys) :
      entry.2.startsAt ∈ hoursGiven entry.1 st.placed ∧
        entry.2.endsAt - hour ∈ hoursGiven entry.1 st.placed ∧
        ∀ h ∈ hoursGiven entry.1 st.placed, entry.2.startsAt ≤ h ∧ h + hour ≤ entry.2.endsAt := by
    obtain ⟨hfirst, hlast, -⟩ := hentries entry (hscheduled he hk)
    rw [hlaws.book.first] at hfirst
    rw [hlaws.book.last] at hlast
    refine ⟨List.mem_of_getLast? hfirst, ?_,
      sorted_span (hlaws.hoursGiven.hoursGiven_sorted entry.1) hfirst hlast⟩
    obtain ⟨newest, hnewest, heq⟩ := Option.map_eq_some_iff.mp hlast
    rw [← heq, add_sub_cancel_right]
    exact List.mem_of_mem_head? hnewest
  refine ⟨st, hrun, ?_⟩
  constructor
  case steps => exact ⟨scheduled, rfl, hkeys⟩
  case hoursSum =>
    intro entry he hk
    have hleft := hlaws.book.left entry.1
    rw [hzero entry.1 hk] at hleft
    rw [(hentries entry (hscheduled he hk)).2.2, hlaws.book.weeks, sum_byWeek, List.length_map]
    omega
  case hoursByWeek =>
    intro entry he hk
    rw [(hentries entry (hscheduled he hk)).2.2, hlaws.book.weeks]
    refine ⟨nodup_weeks_byWeek _, fun week ↦ ?_⟩
    rw [allocatedIn_byWeek, List.count_eq_countP, List.countP_map]
    rfl
  case span => exact fun entry he hk ↦ hspan he hk
  case exclusive => exact hlaws.hoursGiven.disjoint
  case toSteps => exact fun entry he ↦ (hlaws.hoursGiven.usable entry he).1
  case capacity =>
    intro entry he
    rw [← hlaws.book.used]
    exact hlaws.hoursGiven.capacity entry he
  case started => exact fun entry he ↦ (hlaws.hoursGiven.usable entry he).2.started
  case notResting => exact fun entry he ↦ (hlaws.hoursGiven.usable entry he).2.notResting
  case available => exact fun entry he ↦ (hlaws.hoursGiven.usable entry he).2.available
  case openThroughout =>
    intro entry he u hle hlt hends
    exact openInstant_of_slotIsAvailable (hlaws.hoursGiven.usable entry he).2.available hle hlt
      hends
  case inOrder =>
    intro hclosed hacyclic entry he hk p hp
    have hpkey := hclosed entry.1 hk p hp
    rw [← hkeys] at hpkey
    obtain ⟨⟨p, schedule⟩, hmem, rfl⟩ := List.mem_map.mp hpkey
    have hmem' : (p, schedule) ∈ args.fixed ++ scheduled := List.mem_append_right _ hmem
    refine ⟨schedule, hmem', ?_⟩
    have hends := (hspan hmem' (hclosed entry.1 hk p hp)).2.1
    have hstarts := (hspan he hk).1
    have hbefore := ((horder hclosed hacyclic OrderLaws.initial).ordered _
      (mem_hoursGiven.mp hstarts) p hp).2 _ (mem_hoursGiven.mp hends) rfl
    dsimp only at hbefore
    omega

end Jobtology.Weekly
