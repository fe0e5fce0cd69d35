import Jobtology.Graph.DepthFirst
import Jobtology.Weekly.Pack

/-!
# Who waits and whose turn it is

Laws of the activity queues of `_pack`. They hold for every prerequisite graph; with an acyclic
one that names only steps to place, an activity in a queue waits for nothing.
-/

namespace Jobtology.Weekly

open Jobtology.Base Jobtology.Time Jobtology.Planning

/-! ### Counting the hours that are left -/

/-- No activity is planned twice. -/
theorem PackArgs.nodup_keys (args : PackArgs) : args.keys.Nodup :=
  (nodup_eraseDups _).filter _

/-- Taking one hour from one step takes one hour from the sum. -/
theorem sum_update_sub_one {keys : List Uuid} (hn : keys.Nodup) {key : Uuid} (hk : key ∈ keys)
    (f : Uuid → Int) :
    (keys.map (Function.update f key (f key - 1))).sum = (keys.map f).sum - 1 := by
  induction keys with
  | nil => cases hk
  | cons k rest ih =>
    obtain ⟨hfresh, hrest⟩ := List.nodup_cons.mp hn
    by_cases hkey : k = key
    · subst hkey
      have hsame : rest.map (Function.update f k (f k - 1)) = rest.map f :=
        List.map_congr_left fun x hx ↦
          Function.update_of_ne (fun h ↦ hfresh (by rwa [h] at hx)) _ _
      simp only [List.map_cons, List.sum_cons, Function.update_self, hsame]
      omega
    · have hmem : key ∈ rest := (List.mem_cons.mp hk).resolve_left (Ne.symm hkey)
      simp only [List.map_cons, List.sum_cons, ih hrest hmem, Function.update_of_ne hkey]
      omega

/-- When no hours are left over all steps, none has any. -/
theorem eq_zero_of_sum_eq_zero {keys : List Uuid} {f : Uuid → Int} (h : ∀ k ∈ keys, 0 ≤ f k)
    (hsum : (keys.map f).sum = 0) : ∀ k ∈ keys, f k = 0 := by
  induction keys with
  | nil => simp
  | cons a rest ih =>
    have hrest : 0 ≤ (rest.map f).sum :=
      List.sum_nonneg fun x hx ↦ by
        obtain ⟨k, hk, rfl⟩ := List.mem_map.mp hx
        exact h k (by simp [hk])
    have ha := h a (by simp)
    simp only [List.map_cons, List.sum_cons] at hsum
    intro k hk
    rcases List.mem_cons.mp hk with rfl | hk
    · omega
    · exact ih (fun k hk ↦ h k (by simp [hk])) (by omega) k hk

/-! ### Laws of the queues -/

section Queues

variable {args : PackArgs}

/-- A step to place with hours left is queued at most once, only while it has hours left, and at
the latest when it waits for nothing. -/
structure Queued (args : PackArgs) (st : PackState) (queue : List Uuid) : Prop where
  nodup : queue.Nodup
  working : ∀ k ∈ queue, k ∈ args.keys ∧ 0 < st.remaining k
  complete : ∀ k ∈ args.keys, st.remaining k ≠ 0 → st.waiting k = ∅ → k ∈ queue

/-- A step waits for its prerequisites, except those that have been placed in full. The
dependents in `todo` have not yet been told about `key`. -/
def Waits (args : PackArgs) (st : PackState) (key : Uuid) (todo : List Uuid) : Prop :=
  ∀ k ∈ args.keys, ∀ p, p ∈ st.waiting k ↔
    p ∈ args.waitsFor k ∧ ¬ (p ∈ args.keys ∧ st.remaining p = 0 ∧ (p = key → k ∉ todo))

/-- Laws of the queues between two rounds of the loop. -/
structure QueueLaws (args : PackArgs) (st : PackState) : Prop where
  queued : Queued args st (st.active ++ st.ready)
  waits : ∀ k ∈ args.keys, ∀ p, p ∈ st.waiting k ↔
    p ∈ args.waitsFor k ∧ ¬ (p ∈ args.keys ∧ st.remaining p = 0)
  nonneg : ∀ k ∈ args.keys, 0 ≤ st.remaining k
  total : st.hoursLeft = (args.keys.map st.remaining).sum

/-- The order of a queue does not matter. -/
theorem Queued.perm {st : PackState} {queue queue' : List Uuid} (h : Queued args st queue)
    (hp : queue.Perm queue') : Queued args st queue' where
  nodup := hp.nodup_iff.mp h.nodup
  working k hk := h.working k (hp.mem_iff.mpr hk)
  complete k hk hr hw := hp.mem_iff.mp (h.complete k hk hr hw)

/-- The laws of the queues hold before the first round. -/
theorem QueueLaws.initial (hhours : ∀ k ∈ args.keys, 1 ≤ args.requested k) :
    QueueLaws args args.initial where
  queued := by
    constructor
    case nodup => exact args.nodup_keys.filter _
    case working =>
      intro k hk
      have hkey : k ∈ args.keys := (List.mem_filter.mp hk).1
      have hpos := hhours k hkey
      exact ⟨hkey, by simp only [PackArgs.initial]; omega⟩
    case complete =>
      intro k hk _ hw
      exact List.mem_filter.mpr ⟨hk, by simpa [PackArgs.initial] using hw⟩
  waits k hk p := by
    have hne : ¬ (p ∈ args.keys ∧ args.requested p = 0) := fun ⟨hp, h0⟩ ↦ by
      have hpos := hhours p hp
      omega
    simp [PackArgs.initial, hne]
  nonneg k hk := by
    have hpos := hhours k hk
    simp only [PackArgs.initial]
    omega
  total := rfl

/-- Opening activities moves steps from one queue to the other. -/
theorem admit_perm (isPreferred : Uuid → Bool) (active : List Uuid) (places : Nat)
    (ready admitted : List Uuid) :
    ((admitReady isPreferred active places ready admitted).2 ++
      (admitReady isPreferred active places ready admitted).1).Perm (admitted ++ ready) := by
  induction places generalizing ready admitted with
  | zero => exact .refl _
  | succ places ih =>
    have hmove (next : Uuid) (hn : next ∈ ready) :
        (admitted ++ [next] ++ ready.erase next).Perm (admitted ++ ready) := by
      rw [List.append_assoc]
      exact .append_left _ (List.perm_cons_erase hn).symm
    cases ready with
    | nil => exact .refl _
    | cons oldest rest =>
      simp only [admitReady]
      split
      · next next hnext => exact (ih _ _).trans (hmove next (List.mem_of_find?_eq_some hnext))
      · split
        · exact .refl _
        · exact (ih _ _).trans (hmove oldest (by simp))

/-- What is opened comes after what was already opened. -/
theorem admit_keeps (isPreferred : Uuid → Bool) (active : List Uuid) (places : Nat)
    (ready admitted : List Uuid) :
    admitted <+: (admitReady isPreferred active places ready admitted).2 := by
  induction places generalizing ready admitted with
  | zero => exact List.prefix_refl _
  | succ places ih =>
    cases ready with
    | nil => exact List.prefix_refl _
    | cons oldest rest =>
      simp only [admitReady]
      split
      · exact (List.prefix_append _ _).trans (ih _ _)
      · split
        · exact List.prefix_refl _
        · exact (List.prefix_append _ _).trans (ih _ _)

/-- No more activities are opened than there are places. -/
theorem admit_length (isPreferred : Uuid → Bool) (active : List Uuid) (places : Nat)
    (ready admitted : List Uuid) :
    (admitReady isPreferred active places ready admitted).2.length ≤ admitted.length + places := by
  induction places generalizing ready admitted with
  | zero => exact le_rfl
  | succ places ih =>
    have hone (next : Uuid) :
        (admitReady isPreferred active places (ready.erase next) (admitted ++ [next])).2.length ≤
          admitted.length + (places + 1) := by
      have hnext := ih (ready.erase next) (admitted ++ [next])
      rw [List.length_append, List.length_singleton] at hnext
      omega
    cases ready with
    | nil => exact Nat.le_add_right _ _
    | cons oldest rest =>
      simp only [admitReady]
      split
      · exact hone _
      · split
        · exact Nat.le_add_right _ _
        · exact hone _

/-- Without an activity in progress one is opened if one is ready. -/
theorem admit_opens (isPreferred : Uuid → Bool) (places : Nat) (ready : List Uuid)
    (h : ready ≠ []) : (admitReady isPreferred [] (places + 1) ready []).2 ≠ [] := by
  have hone (ready : List Uuid) (next : Uuid) :
      (admitReady isPreferred [] places ready ([] ++ [next])).2 ≠ [] := by
    intro hnil
    have hkeep := admit_keeps isPreferred [] places ready ([] ++ [next])
    rw [hnil] at hkeep
    simp at hkeep
  cases ready with
  | nil => exact absurd rfl h
  | cons oldest rest =>
    simp only [admitReady]
    split
    · exact hone _ _
    · simpa using hone _ _

/-- Opening activities changes the queues only. -/
theorem openActivities_fields (args : PackArgs) (st : PackState) :
    ∃ ready active, args.openActivities st = { st with ready := ready, active := active } ∧
      (active ++ ready).Perm (st.active ++ st.ready) ∧ (active = [] → ready = []) ∧
      st.active ⊆ active ∧
      active.length ≤ max st.active.length maxActiveLearningActivities := by
  refine ⟨_, _, rfl, ?_, ?_, List.subset_append_right _ _, ?_⟩
  · rw [List.append_assoc]
    exact (List.perm_append_comm_assoc _ st.active _).trans
      ((admit_perm _ st.active _ st.ready []).append_left st.active)
  · intro hnil
    obtain ⟨hadm, hact⟩ := List.append_eq_nil_iff.mp hnil
    by_contra hready
    have hne : st.ready ≠ [] := by
      intro h0
      apply hready
      rw [h0, hact]
      rfl
    rw [hact] at hadm
    exact admit_opens _ 1 st.ready hne hadm
  · have hadmitted := admit_length
      (fun key ↦ decide ((args.preferredStarts key).getD 0 ≤
        (args.keys.map args.requested).sum - st.hoursLeft))
      st.active (maxActiveLearningActivities - st.active.length) st.ready []
    rw [List.length_nil] at hadmitted
    rw [List.length_append]
    omega

/-- The step whose turn it is can be placed, and it is taken out of the queues. -/
theorem takeTurn_queued {st st' : PackState} {key : Uuid} (h : QueueLaws args st)
    (hopen : st.active = [] → st.ready = []) (htake : args.takeTurn st = .ok (key, st')) :
    st' = { st with active := st'.active } ∧
      Queued args st' (key :: (st'.active ++ st'.ready)) ∧
      (st.active = key :: st'.active ∨ st.active = [] ∧ st.ready = [] ∧ st'.active = []) := by
  unfold PackArgs.takeTurn at htake
  cases hactive : st.active with
  | cons first others =>
    rw [hactive] at htake
    obtain ⟨rfl, rfl⟩ := Prod.mk.inj (Except.ok.inj htake)
    have hq := h.queued
    rw [hactive] at hq
    exact ⟨rfl, ⟨hq.nodup, hq.working, hq.complete⟩, .inl rfl⟩
  | nil =>
    rw [hactive] at htake
    dsimp only at htake
    split at htake
    · next k hfind =>
      obtain ⟨rfl, rfl⟩ := Prod.mk.inj (Except.ok.inj htake)
      have hready := hopen hactive
      have hmem := List.mem_of_find?_eq_some hfind
      have hne : st.remaining k ≠ 0 := by simpa using List.find?_some hfind
      have hpos := h.nonneg k hmem
      have hq := h.queued
      rw [hactive, hready] at hq
      refine ⟨rfl, ?_, .inr ⟨rfl, hready, hactive⟩⟩
      rw [hactive, hready]
      constructor
      case nodup => simp
      case working =>
        intro j hj
        obtain rfl : j = k := by simpa using hj
        exact ⟨hmem, by omega⟩
      case complete =>
        intro j hj hr hw
        exact absurd (hq.complete j hj hr hw) (by simp)
    · cases htake

/-- A dependent that is told becomes ready when it waits for nothing else. -/
theorem release_eq (key : Uuid) (st : PackState) (d : Uuid) :
    release key st d =
      { st with
        waiting := Function.update st.waiting d ((st.waiting d).erase key)
        ready :=
          if (st.waiting d).erase key = ∅ ∧ st.remaining d ≠ 0 ∧ d ∉ st.ready ∧ d ∉ st.active then
            st.ready ++ [d]
          else st.ready } := by
  simp only [release, Function.update_self]
  split <;> rfl

/-- Releasing a dependent keeps the queues in order and tells this dependent. -/
theorem release_queued {key : Uuid} {st : PackState} {d : Uuid} {todo : List Uuid}
    (hq : Queued args st (st.active ++ st.ready)) (hw : Waits args st key (d :: todo))
    (hnonneg : ∀ k ∈ args.keys, 0 ≤ st.remaining k) (hd : d ∈ args.keys)
    (hdone : st.remaining key = 0) (hkey : key ∈ args.keys) (hfresh : d ∉ todo) :
    Queued args (release key st d) ((release key st d).active ++ (release key st d).ready) ∧
      Waits args (release key st d) key todo := by
  rw [release_eq]
  constructor
  · constructor
    case nodup =>
      dsimp only
      split
      · next hnew =>
        obtain ⟨-, -, hr, ha⟩ := hnew
        rw [← List.append_assoc]
        refine List.nodup_append'.mpr ⟨hq.nodup, List.nodup_singleton d, ?_⟩
        simp [ha, hr]
      · exact hq.nodup
    case working =>
      intro k hk
      dsimp only at hk ⊢
      split at hk
      · next hnew =>
        rw [← List.append_assoc] at hk
        rcases List.mem_append.mp hk with hk | hk
        · exact hq.working k hk
        · obtain rfl : k = d := by simpa using hk
          have hpos := hnonneg k hd
          exact ⟨hd, by omega⟩
      · exact hq.working k hk
    case complete =>
      intro k hk hr hempty
      dsimp only at hr hempty ⊢
      by_cases hkd : k = d
      · subst hkd
        rw [Function.update_self] at hempty
        by_cases hin : k ∈ st.ready ∨ k ∈ st.active
        · rw [if_neg (by tauto)]
          exact List.mem_append.mpr hin.symm
        · rw [if_pos ⟨hempty, hr, fun h ↦ hin (.inl h), fun h ↦ hin (.inr h)⟩]
          simp
      · rw [Function.update_of_ne hkd] at hempty
        have hold := hq.complete k hk hr hempty
        split
        · rw [← List.append_assoc]
          exact List.mem_append_left _ hold
        · exact hold
  · intro k hk p
    dsimp only
    by_cases hkd : k = d
    · subst hkd
      rw [Function.update_self, Finset.mem_erase, hw k hk p]
      by_cases hp : p = key
      · simp [hp, hkey, hdone, hfresh]
      · simp [hp]
    · rw [Function.update_of_ne hkd, hw k hk p]
      simp [hkd]

/-- Releasing all dependents keeps the queues in order and tells them all. -/
theorem releaseAll_queued {key : Uuid} {st : PackState} (todo : List Uuid)
    (hq : Queued args st (st.active ++ st.ready)) (hw : Waits args st key todo)
    (hnonneg : ∀ k ∈ args.keys, 0 ≤ st.remaining k) (htodo : todo ⊆ args.keys)
    (hn : todo.Nodup) (hdone : st.remaining key = 0) (hkey : key ∈ args.keys) :
    let st' := todo.foldl (release key) st
    Queued args st' (st'.active ++ st'.ready) ∧ Waits args st' key [] := by
  induction todo generalizing st with
  | nil => exact ⟨hq, hw⟩
  | cons d todo ih =>
    obtain ⟨hfresh, hrest⟩ := List.nodup_cons.mp hn
    have hstep := release_queued hq hw hnonneg (htodo (by simp)) hdone hkey hfresh
    have hremaining : (release key st d).remaining = st.remaining := by rw [release_eq]
    exact ih hstep.1 hstep.2 (by rwa [hremaining])
      (fun x hx ↦ htodo (List.mem_cons_of_mem _ hx)) hrest (by rwa [hremaining])

/-- Releasing dependents changes only who waits and who is ready. -/
theorem foldl_release_frame (key : Uuid) (todo : List Uuid) (st : PackState) :
    ∃ waiting ready, todo.foldl (release key) st =
      { st with waiting := waiting, ready := ready } := by
  induction todo generalizing st with
  | nil => exact ⟨_, _, rfl⟩
  | cons d todo ih =>
    obtain ⟨waiting, ready, h⟩ := ih (release key st d)
    exact ⟨waiting, ready, by rw [List.foldl_cons, h, release_eq]⟩

/-- The end of a turn changes only the queues and who waits. -/
theorem endTurn_frame (args : PackArgs) (key : Uuid) (st : PackState) :
    ∃ waiting ready active, args.endTurn key st =
      { st with waiting := waiting, ready := ready, active := active } := by
  unfold PackArgs.endTurn
  split
  · exact ⟨_, _, _, rfl⟩
  · obtain ⟨waiting, ready, h⟩ := foldl_release_frame key (args.dependents key) st
    exact ⟨_, _, _, by rw [h]⟩

/-- Laws of the queues while a step has its turn: it is in no queue. -/
structure TurnLaws (args : PackArgs) (key : Uuid) (st : PackState) : Prop where
  queued : Queued args st (key :: (st.active ++ st.ready))
  waits : ∀ k ∈ args.keys, ∀ p, p ∈ st.waiting k ↔
    p ∈ args.waitsFor k ∧ ¬ (p ∈ args.keys ∧ st.remaining p = 0)
  nonneg : ∀ k ∈ args.keys, 0 ≤ st.remaining k
  total : st.hoursLeft = (args.keys.map st.remaining).sum

namespace TurnLaws

variable {st : PackState} {key : Uuid}

/-- The activity whose turn it is has hours left. -/
theorem mem_keys (h : TurnLaws args key st) : key ∈ args.keys ∧ 0 < st.remaining key :=
  h.queued.working key (by simp)

private theorem giveHour_nonneg (h : TurnLaws args key st) :
    ∀ k ∈ args.keys, 0 ≤ (args.giveHour key st).remaining k := by
  intro k hk
  obtain ⟨-, hpos⟩ := h.mem_keys
  by_cases hkey : k = key
  · subst hkey
    simp only [PackArgs.giveHour, Function.update_self]
    omega
  · simpa [PackArgs.giveHour, Function.update_of_ne hkey] using h.nonneg k hk

private theorem giveHour_total (h : TurnLaws args key st) :
    (args.giveHour key st).hoursLeft = (args.keys.map (args.giveHour key st).remaining).sum := by
  simp only [PackArgs.giveHour]
  rw [sum_update_sub_one args.nodup_keys h.mem_keys.1, h.total]

/-- An hour leaves the other activities. -/
theorem giveHour_of_ne {k : Uuid} (hne : k ≠ key) :
    (args.giveHour key st).remaining k = st.remaining k := by
  simp [PackArgs.giveHour, Function.update_of_ne hne]

private theorem giveHour_self :
    (args.giveHour key st).remaining key = st.remaining key - 1 := by
  simp [PackArgs.giveHour]

/-- A step with hours left keeps its place in the order of turns. -/
theorem endTurn_again (h : TurnLaws args key st) (hleft : st.remaining key - 1 ≠ 0) :
    QueueLaws args (args.endTurn key (args.giveHour key st)) := by
  have hend : args.endTurn key (args.giveHour key st) =
      { args.giveHour key st with active := st.active ++ [key] } := by
    unfold PackArgs.endTurn
    rw [giveHour_self, if_pos hleft]
    rfl
  rw [hend]
  have hpos := h.mem_keys.2
  constructor
  case queued =>
    refine @Queued.perm _ _ (key :: (st.active ++ st.ready)) _ ?_ ?_
    · constructor
      case nodup => exact h.queued.nodup
      case working =>
        intro k hk
        refine ⟨(h.queued.working k hk).1, ?_⟩
        by_cases hkey : k = key
        · subst hkey
          have hsub := @giveHour_self args st k
          dsimp only
          omega
        · have hsame := @giveHour_of_ne args st _ _ hkey
          have hold := (h.queued.working k hk).2
          dsimp only
          omega
      case complete =>
        intro k hk hr hw
        by_cases hkey : k = key
        · simp [hkey]
        · rw [giveHour_of_ne hkey] at hr
          exact h.queued.complete k hk hr hw
    · dsimp only
      rw [List.append_assoc, List.singleton_append]
      exact (List.perm_middle).symm
  case waits =>
    intro k hk p
    have hold := h.waits k hk p
    dsimp only
    by_cases hp : p = key
    · subst hp
      have h0 : st.remaining p ≠ 0 := by omega
      simpa [giveHour_self, hleft, h0, PackArgs.giveHour] using hold
    · rw [giveHour_of_ne hp]
      exact hold
  case nonneg => exact h.giveHour_nonneg
  case total => exact h.giveHour_total

/-- A finished step leaves the queues and lets its dependents in. -/
theorem endTurn_finished (h : TurnLaws args key st) (hdone : st.remaining key - 1 = 0) :
    QueueLaws args (args.endTurn key (args.giveHour key st)) := by
  have hkeys := h.mem_keys
  have hzero : (args.giveHour key st).remaining key = 0 := by
    rw [giveHour_self]
    exact hdone
  obtain ⟨hfresh, hnodup⟩ := List.nodup_cons.mp h.queued.nodup
  have hqueued : Queued args (args.giveHour key st) (st.active ++ st.ready) := by
    constructor
    case nodup => exact hnodup
    case working =>
      intro k hk
      have hold := h.queued.working k (List.mem_cons_of_mem _ hk)
      have hkey : k ≠ key := fun he ↦ hfresh (he ▸ hk)
      rw [giveHour_of_ne hkey]
      exact hold
    case complete =>
      intro k hk hr hw
      have hkey : k ≠ key := fun he ↦ hr (he ▸ hzero)
      rw [giveHour_of_ne hkey] at hr
      exact (List.mem_cons.mp (h.queued.complete k hk hr hw)).resolve_left hkey
  have hwaits : Waits args (args.giveHour key st) key (args.dependents key) := by
    intro k hk p
    have hold : p ∈ (args.giveHour key st).waiting k ↔ _ := h.waits k hk p
    rw [hold]
    by_cases hp : p = key
    · subst hp
      have hne : st.remaining p ≠ 0 := by omega
      simp only [hkeys.1, hzero, hne, and_false, not_false_eq_true, and_true, true_and,
        PackArgs.dependents, List.mem_filter, hk, decide_eq_true_eq, forall_const, not_not]
      exact ⟨fun hm ↦ ⟨hm, hm⟩, fun hm ↦ hm.1⟩
    · rw [giveHour_of_ne hp]
      simp [hp]
  have hall := releaseAll_queued (args.dependents key) hqueued hwaits h.giveHour_nonneg
    (List.filter_subset_self _) (args.nodup_keys.filter _) hzero hkeys.1
  have hend : args.endTurn key (args.giveHour key st) =
      { (args.dependents key).foldl (release key) (args.giveHour key st) with
        ready := ((args.dependents key).foldl (release key)
          (args.giveHour key st)).ready.insertionSort
            fun a b ↦ args.position a ≤ args.position b } := by
    unfold PackArgs.endTurn
    rw [if_neg (by rw [hzero]; simp)]
  dsimp only at hall
  obtain ⟨hq, hw⟩ := hall
  obtain ⟨waiting, ready, hframe⟩ :=
    foldl_release_frame key (args.dependents key) (args.giveHour key st)
  generalize (args.dependents key).foldl (release key) (args.giveHour key st) = st' at *
  have hremaining : st'.remaining = (args.giveHour key st).remaining := by rw [hframe]
  have hleft : st'.hoursLeft = (args.giveHour key st).hoursLeft := by rw [hframe]
  rw [hend]
  constructor
  case queued =>
    refine Queued.perm ⟨hq.nodup, hq.working, hq.complete⟩ ?_
    exact .append_left _ (List.perm_insertionSort _ _).symm
  case waits =>
    intro k hk p
    have hnew := hw k hk p
    simpa using hnew
  case nonneg =>
    dsimp only
    rw [hremaining]
    exact h.giveHour_nonneg
  case total =>
    dsimp only
    rw [hremaining, hleft]
    exact h.giveHour_total

/-- The end of a turn keeps the laws of the queues. -/
theorem endTurn (h : TurnLaws args key st) :
    QueueLaws args (args.endTurn key (args.giveHour key st)) := by
  by_cases hdone : st.remaining key - 1 = 0
  · exact h.endTurn_finished hdone
  · exact h.endTurn_again hdone

end TurnLaws

/-- What one round of the loop does: it moves the cursor, or it gives the hour to a step that was
queued or, when no step was, to any step with hours left. -/
theorem packStep_cases {st st' : PackState} (h : QueueLaws args st)
    (hstep : args.packStep st = .ok st') :
    (∃ cursor, args.skipTo st = some cursor ∧ st' = { st with cursor := cursor }) ∨
    (args.skipTo st = none ∧ ∃ key ready active,
      TurnLaws args key { st with ready := ready, active := active } ∧
      (key :: (active ++ ready) ⊆ st.active ++ st.ready ∨ st.active ++ st.ready = []) ∧
      (st.active ⊆ key :: active ∧
        (key :: active).length ≤ max st.active.length maxActiveLearningActivities) ∧
      st' = args.endTurn key
        (args.giveHour key { st with ready := ready, active := active })) := by
  unfold PackArgs.packStep at hstep
  split at hstep
  · cases hstep
  split at hstep
  · next cursor hskip => exact .inl ⟨cursor, hskip, (Except.ok.inj hstep).symm⟩
  · next hskip =>
    obtain ⟨ready, active, hopen, hperm, hempty, hkeep, hplaces⟩ := openActivities_fields args st
    have hlaws : QueueLaws args { st with ready := ready, active := active } :=
      ⟨Queued.perm ⟨h.queued.nodup, h.queued.working, h.queued.complete⟩ hperm.symm, h.waits,
        h.nonneg, h.total⟩
    rw [hopen] at hstep
    obtain ⟨⟨key, turn⟩, htake, hstep⟩ := bind_eq_ok.mp hstep
    obtain ⟨hturn, hqueued, hmem⟩ := takeTurn_queued hlaws hempty htake
    rw [hturn] at hqueued hstep
    refine .inr ⟨hskip, key, ready, turn.active,
      ⟨⟨hqueued.nodup, hqueued.working, hqueued.complete⟩, h.waits, h.nonneg, h.total⟩,
      ?_, ?_, (Except.ok.inj hstep).symm⟩
    · rcases hmem with hmem | ⟨hactive, hready, -⟩
      · left
        intro k hk
        dsimp only at hmem
        rw [hmem] at hperm
        exact hperm.subset hk
      · right
        dsimp only at hactive hready
        rw [hactive, hready] at hperm
        exact hperm.symm.eq_nil
    · rcases hmem with hmem | ⟨hactive, -, hnone⟩
      · dsimp only at hmem
        rw [← hmem]
        exact ⟨hkeep, hplaces⟩
      · dsimp only at hactive
        rw [hactive] at hkeep
        rw [hnone, List.length_singleton]
        exact ⟨fun k hk ↦ absurd (hkeep hk) List.not_mem_nil,
          le_max_of_le_right (Nat.le_succ 1)⟩

end Queues

end Jobtology.Weekly
