import Jobtology.Sources.CrosswalkLaws
import Mathlib.Algebra.BigOperators.Group.List.Basic
import Mathlib.Data.List.Pairwise

/-!
# Runs of crosswalk reads

Every order of steps from the empty feed: `Consistent` is kept, and a task that waits is never
waiting for nothing.
-/

namespace Jobtology.Sources

open Jobtology.Relational

universe u v

/-- The steps that a task has before it. -/
def CallPhase.ahead : CallPhase → Nat
  | .waitsForLock => 3
  | .waitsForSlot => 2
  | .reads => 1
  | .leaves => 0

namespace CrosswalkFeed

variable {κ : Type u} {ρ : Type v} {s : CrosswalkFeed κ ρ} {c : Call κ}

/-! ### Some task has a turn -/

/-- Between events no task is at its end. -/
def Waiting (s : CrosswalkFeed κ ρ) : Prop := ∀ c ∈ s.calls, c.phase ≠ .leaves

/-- Some task has a turn. -/
theorem Consistent.turn (h : s.Consistent) (hw : s.Waiting) (hne : s.calls ≠ []) :
    ∃ c ∈ s.calls, c.phase = .reads ∨ (c.phase = .waitsForSlot ∧ s.slotFree = true) ∨
      (c.phase = .waitsForLock ∧ (s.heap c.cached).locked = false) := by
  by_cases hreads : ∃ c ∈ s.calls, c.phase = .reads
  · obtain ⟨c, hc, hphase⟩ := hreads
    exact ⟨c, hc, .inl hphase⟩
  by_cases hlock : ∃ c ∈ s.calls, c.phase.holdsLock = true
  · -- The slot is free, and who has a lock waits for it.
    obtain ⟨c, hc, hlock⟩ := hlock
    have hfree : s.slotFree = true := by
      by_contra hslot
      exact hreads (h.slot.mp (by simpa using hslot))
    refine ⟨c, hc, .inr (.inl ⟨?_, hfree⟩)⟩
    cases hphase : c.phase with
    | waitsForSlot => rfl
    | reads => exact absurd ⟨c, hc, hphase⟩ hreads
    | waitsForLock | leaves =>
      rw [hphase] at hlock
      cases hlock
  · -- Nobody has a lock.
    obtain ⟨c, hc⟩ := List.exists_mem_of_ne_nil _ hne
    refine ⟨c, hc, .inr (.inr ⟨?_, ?_⟩)⟩
    · cases hphase : c.phase with
      | waitsForLock => rfl
      | leaves => exact absurd hphase (hw c hc)
      | waitsForSlot | reads => exact absurd ⟨c, hc, by rw [hphase]; rfl⟩ hlock
    · by_contra hlocked
      obtain ⟨d, hd, -, hholds⟩ := (h.lockedBy c.cached).mp (by simpa using hlocked)
      exact hlock ⟨d, hd, hholds⟩

/-- The steps that the tasks have before them. -/
def ahead (s : CrosswalkFeed κ ρ) : Nat := (s.calls.map fun c ↦ c.phase.ahead).sum

private theorem ahead_le (s : CrosswalkFeed κ ρ) : s.ahead ≤ 3 * s.calls.length := by
  unfold ahead
  induction s.calls with
  | nil => exact le_refl 0
  | cons c rest ih =>
    rw [List.map_cons, List.sum_cons, List.length_cons]
    have hphase : c.phase.ahead ≤ 3 := by cases c.phase <;> decide
    omega

/-! ### A task comes in -/

/-- A new entry, before it is anyone's. -/
theorem Consistent.allocate (h : s.Consistent) :
    Consistent { s with heap := Function.update s.heap s.next {}, next := s.next + 1 } := by
  have hne {key : κ} {cached : Nat} (hk : s.Knows key cached) : cached ≠ s.next :=
    Nat.ne_of_lt (h.allocated key cached hk)
  have hcall {d : Call κ} (hd : d ∈ s.calls) : d.cached ≠ s.next := hne (.inl (h.shared d hd))
  constructor
  case ids => exact h.ids
  case shared => exact h.shared
  case used => exact h.used
  case owner => exact h.owner
  case allocated => exact fun key cached hk ↦ Nat.lt_succ_of_lt (h.allocated key cached hk)
  case agree => exact h.agree
  case users =>
    intro cached
    by_cases heq : cached = s.next
    · subst heq
      dsimp only
      rw [Function.update_self]
      exact (List.countP_eq_zero.mpr fun d hd ↦ by simpa using hcall hd).symm
    · dsimp only
      rw [Function.update_of_ne heq]
      exact h.users cached
  case lockedBy =>
    intro cached
    by_cases heq : cached = s.next
    · subst heq
      dsimp only
      rw [Function.update_self]
      exact ⟨fun h ↦ (by cases h), fun ⟨d, hd, hsame, _⟩ ↦ absurd hsame (hcall hd)⟩
    · dsimp only
      rw [Function.update_of_ne heq]
      exact h.lockedBy cached
  case exclusive => exact h.exclusive
  case slot => exact h.slot
  case reading => exact h.reading
  case keys => exact h.keys
  case size => exact h.size
  case fresh =>
    intro key cached r hk hr
    dsimp only at hr ⊢
    rw [Function.update_of_ne (hne hk)] at hr ⊢
    exact h.fresh key cached r hk hr
  case stale =>
    intro d hd hlock r hr
    dsimp only at hr ⊢
    rw [Function.update_of_ne (hcall hd)] at hr ⊢
    exact h.stale d hd hlock r hr
  case returned => exact h.returned

/-- The order of the kept entries does not matter. -/
theorem Consistent.reorder (h : s.Consistent) {reads : List (κ × Nat)}
    (hp : reads.Perm s.reads) : Consistent { s with reads := reads } := by
  have hknows {key : κ} {cached : Nat}
      (hk : Knows { s with reads := reads } key cached) : s.Knows key cached :=
    hk.imp_right hp.mem_iff.mp
  exact ⟨h.ids, h.shared, h.used,
    fun key key' cached hk hk' ↦ h.owner key key' cached (hknows hk) (hknows hk'),
    fun key cached hk ↦ h.allocated key cached (hknows hk),
    fun key cached cached' hk ↦ h.agree key cached cached' (hp.mem_iff.mp hk), h.users, h.lockedBy,
    h.exclusive, h.slot, h.reading, (hp.map _).nodup_iff.mpr h.keys, hp.length_eq.trans_le h.size,
    fun key cached r hk ↦ h.fresh key cached r (hknows hk), h.stale, h.returned⟩

/-- Time passes. -/
theorem Consistent.wait (h : s.Consistent) (now : ℚ) :
    Consistent { s with now := max s.now now } := by
  refine ⟨h.ids, h.shared, h.used, h.owner, h.allocated, h.agree, h.users, h.lockedBy, h.exclusive,
    h.slot, h.reading, h.keys, h.size, fun key cached r hk hr ↦ ?_, fun d hd hlock r hr ↦ ?_,
    h.returned⟩
  · obtain ⟨a, ha, hkey, hres, htime, hexpires⟩ := h.fresh key cached r hk hr
    exact ⟨a, ha, hkey, hres, htime.trans (le_max_left ..), hexpires⟩
  · exact (h.stale d hd hlock r hr).trans (le_max_left ..)

variable [DecidableEq κ]

/-- A task joins the tasks of an entry, the key's own or one that no key has. -/
theorem Consistent.join (h : s.Consistent) {id : Nat} {key : κ} {cached : Nat}
    (hid : id ∉ s.calls.map (·.id)) (hnext : cached < s.next)
    (hown : ∀ key', s.Knows key' cached → key' = key)
    (honly : ∀ cached', s.Knows key cached' → cached' = cached)
    (hfresh : ∀ r, (s.heap cached).result = some r →
      s.Answered key r (s.heap cached).expires) :
    Consistent { s.modify cached fun entry ↦ { entry with users := entry.users + 1 } with
      inflight := Function.update s.inflight key (some cached)
      calls := ⟨id, key, cached, .waitsForLock⟩ :: s.calls } := by
  have hheap (other : Nat) :
      (Function.update s.heap cached { s.heap cached with users := (s.heap cached).users + 1 }
        other).locked = (s.heap other).locked ∧
      (Function.update s.heap cached { s.heap cached with users := (s.heap cached).users + 1 }
        other).result = (s.heap other).result ∧
      (Function.update s.heap cached { s.heap cached with users := (s.heap cached).users + 1 }
        other).expires = (s.heap other).expires := by
    by_cases heq : other = cached
    · subst heq
      rw [Function.update_self]
      exact ⟨rfl, rfl, rfl⟩
    · rw [Function.update_of_ne heq]
      exact ⟨rfl, rfl, rfl⟩
  have hinflight {key' : κ} {cached' : Nat}
      (hk : Function.update s.inflight key (some cached) key' = some cached') :
      (key' = key ∧ cached' = cached) ∨ (key' ≠ key ∧ s.inflight key' = some cached') := by
    by_cases heq : key' = key
    · subst heq
      rw [Function.update_self] at hk
      exact .inl ⟨rfl, (Option.some.inj hk).symm⟩
    · rw [Function.update_of_ne heq] at hk
      exact .inr ⟨heq, hk⟩
  -- Who leads to an entry now: the key to this one, everyone else as before.
  have hknows {key' : κ} {cached' : Nat}
      (hk : Function.update s.inflight key (some cached) key' = some cached' ∨
        (key', cached') ∈ s.reads) :
      (key' = key ∧ cached' = cached) ∨ s.Knows key' cached' := by
    rcases hk with hk | hk
    · exact (hinflight hk).imp_right fun hold ↦ .inl hold.2
    · exact .inr (.inr hk)
  constructor
  case ids => exact List.nodup_cons.mpr ⟨hid, h.ids⟩
  case shared =>
    refine List.forall_mem_cons.mpr ⟨?_, fun d hd ↦ ?_⟩
    · exact Function.update_self ..
    · dsimp only
      by_cases heq : d.key = key
      · rw [heq, Function.update_self, honly d.cached (heq ▸ .inl (h.shared d hd))]
      · rw [Function.update_of_ne heq]
        exact h.shared d hd
  case used =>
    intro key' cached' hk
    rcases hinflight hk with ⟨heq, -⟩ | ⟨-, hold⟩
    · exact ⟨_, List.mem_cons_self, heq.symm⟩
    · obtain ⟨d, hd, heq⟩ := h.used key' cached' hold
      exact ⟨d, List.mem_cons_of_mem _ hd, heq⟩
  case owner =>
    intro first second cached' hk hk'
    rcases hknows hk with ⟨heq, hcached⟩ | hold
    · rcases hknows hk' with ⟨heq', -⟩ | hold'
      · rw [heq, heq']
      · rw [heq, hown second (hcached ▸ hold')]
    · rcases hknows hk' with ⟨heq', hcached⟩ | hold'
      · rw [heq', hown first (hcached ▸ hold)]
      · exact h.owner first second cached' hold hold'
  case allocated =>
    intro key' cached' hk
    rcases hknows hk with ⟨-, rfl⟩ | hold
    · exact hnext
    · exact h.allocated key' cached' hold
  case agree =>
    intro key' first second hk hk'
    rcases hinflight hk' with ⟨heq, rfl⟩ | ⟨-, hold⟩
    · exact honly first (heq ▸ .inr hk)
    · exact h.agree key' first second hk hold
  case users =>
    intro other
    unfold CrosswalkFeed.modify
    dsimp only
    by_cases heq : other = cached
    · subst heq
      rw [Function.update_self, List.countP_cons_of_pos (by simp)]
      exact congrArg (· + 1) (h.users other)
    · rw [Function.update_of_ne heq,
        List.countP_cons_of_neg (by simpa using fun h ↦ heq h.symm)]
      exact h.users other
  case lockedBy =>
    intro other
    unfold CrosswalkFeed.modify
    dsimp only
    rw [(hheap other).1, h.lockedBy other]
    constructor
    · rintro ⟨d, hd, hrest⟩
      exact ⟨d, List.mem_cons_of_mem _ hd, hrest⟩
    · rintro ⟨d, hd, hsame, hlock⟩
      rcases List.mem_cons.mp hd with rfl | hd
      · cases hlock
      · exact ⟨d, hd, hsame, hlock⟩
  case exclusive =>
    exact List.pairwise_cons.mpr ⟨fun d hd hsame hlock ↦ (by cases hlock), h.exclusive⟩
  case slot =>
    refine h.slot.trans ⟨?_, ?_⟩
    · rintro ⟨d, hd, hreads⟩
      exact ⟨d, List.mem_cons_of_mem _ hd, hreads⟩
    · rintro ⟨d, hd, hreads⟩
      rcases List.mem_cons.mp hd with rfl | hd
      · cases hreads
      · exact ⟨d, hd, hreads⟩
  case reading => exact List.pairwise_cons.mpr ⟨fun d hd hreads ↦ (by cases hreads), h.reading⟩
  case keys => exact h.keys
  case size => exact h.size
  case fresh =>
    intro key' cached' r hk hr
    unfold CrosswalkFeed.modify at hr ⊢
    dsimp only at hr ⊢
    rw [(hheap cached').2.1] at hr
    rw [(hheap cached').2.2]
    rcases hknows hk with ⟨rfl, rfl⟩ | hold
    · exact hfresh r hr
    · exact h.fresh key' cached' r hold hr
  case stale =>
    refine List.forall_mem_cons.mpr ⟨fun hlock ↦ (by cases hlock), fun d hd hlock r hr ↦ ?_⟩
    unfold CrosswalkFeed.modify at hr ⊢
    dsimp only at hr ⊢
    rw [(hheap d.cached).2.1] at hr
    rw [(hheap d.cached).2.2]
    exact h.stale d hd hlock r hr
  case returned => exact h.returned

/-- What `_crosswalk_reads` gives for a key is kept under it. -/
theorem kept_mem {key : κ} {cached : Nat} (h : s.kept key = some cached) :
    (key, cached) ∈ s.reads := by
  obtain ⟨e, he, rfl⟩ := Option.map_eq_some_iff.mp h
  have hkey : e.1 = key := by simpa using List.find?_some he
  subst hkey
  exact List.mem_of_find?_eq_some he

/-- What is kept under a key is what `_crosswalk_reads` gives for it. -/
theorem kept_eq (h : s.Consistent) {key : κ} {cached : Nat}
    (hmem : (key, cached) ∈ s.reads) : s.kept key = some cached := by
  cases hkept : s.kept key with
  | none =>
    have hnone := List.find?_eq_none.mp (Option.map_eq_none_iff.mp hkept) _ hmem
    exact absurd (decide_eq_true rfl) hnone
  | some other =>
    have heq := List.inj_on_of_nodup_map h.keys (kept_mem hkept) hmem rfl
    exact congrArg some (Prod.mk.inj heq).2

/-- A task comes in. -/
theorem Consistent.enter (h : s.Consistent) {id : Nat} {key : κ}
    (hid : id ∉ s.calls.map (·.id)) : (s.enter id key).Consistent := by
  -- The reads are only reordered.
  have hreads : (((s.kept key).map (toEnd s.reads key)).getD s.reads).Perm s.reads := by
    cases hkept : s.kept key with
    | none => exact .refl _
    | some cached => exact toEnd_perm h.keys (kept_mem hkept)
  cases hfound : (s.inflight key).or (s.kept key) with
  | none =>
    obtain ⟨hnone, hkept⟩ := Option.or_eq_none_iff.mp hfound
    have hunknown (cached : Nat) : ¬ s.Knows key cached := by
      rintro (hk | hk)
      · rw [hnone] at hk
        cases hk
      · rw [kept_eq h hk] at hkept
        cases hkept
    have hjoin := h.allocate.join hid (Nat.lt_succ_self s.next)
      (fun key' hk ↦ absurd rfl (Nat.ne_of_lt (h.allocated key' s.next hk)))
      (fun cached' hk ↦ absurd hk (hunknown cached'))
      (fun r hr ↦ by
        dsimp only at hr
        rw [Function.update_self] at hr
        cases hr)
    unfold CrosswalkFeed.enter
    rw [hfound]
    exact hjoin.reorder hreads
  | some cached =>
    have hk : s.Knows key cached := by
      rcases Option.or_eq_some_iff.mp hfound with hk | ⟨-, hk⟩
      · exact .inl hk
      · exact .inr (kept_mem hk)
    have honly (cached' : Nat) (hk' : s.Knows key cached') : cached' = cached := by
      rcases Option.or_eq_some_iff.mp hfound with hfly | ⟨hnone, hkept⟩
      · rcases hk' with hk' | hk'
        · exact Option.some.inj (hk'.symm.trans hfly)
        · exact h.agree key cached' cached hk' hfly
      · rcases hk' with hk' | hk'
        · rw [hnone] at hk'
          cases hk'
        · exact Option.some.inj ((kept_eq h hk').symm.trans hkept)
    have hjoin := h.join hid (h.allocated key cached hk)
      (fun key' hk' ↦ h.owner key' key cached hk' hk) honly
      (fun r hr ↦ h.fresh key cached r hk hr)
    unfold CrosswalkFeed.enter
    rw [hfound]
    exact hjoin.reorder hreads

/-! ### Every event -/

/-- An answer comes in. -/
theorem Consistent.answer (h : s.Consistent) (hc : c ∈ s.calls)
    (hlock : c.phase.holdsLock = true) (result : ρ) :
    (((s.release c).store { c with phase := .leaves } result).leave
      { c with phase := .leaves }).Consistent := by
  refine ((h.release hc hlock).store List.mem_cons_self result fun d hd hsame ↦ ?_).leave
    List.mem_cons_self rfl
  rcases List.mem_cons.mp hd with rfl | hd
  · rfl
  · exact h.others hc hlock d hd hsame

private theorem apply_consistent (h : s.Consistent) (e : FeedEvent κ ρ) :
    (s.apply e).Consistent := by
  have hreads {d : Call κ} (hd : d.phase = .reads) : d.phase.holdsLock = true := by
    rw [hd]
    rfl
  cases e with
  | enter id key =>
    rw [apply]
    split
    · exact h
    · next hid => exact h.enter hid
  | lock d =>
    rw [apply]
    split
    · next hd => exact h.locked hd.1 hd.2.1 hd.2.2
    · exact h
  | slot d =>
    rw [apply]
    split
    · next hd => exact h.takeSlot hd.1 hd.2.1 hd.2.2
    · exact h
  | answer d result =>
    rw [apply]
    split
    · next hd => exact h.answer hd.1 (hreads hd.2) result
    · exact h
  | fail d =>
    rw [apply]
    split
    · next hd => exact h.exit hd.1 (hreads hd.2)
    · exact h
  | cancel d =>
    rw [apply]
    split
    · next hd =>
      split
      · next hlock => exact h.exit hd hlock
      · next hlock => exact h.leave hd (by simpa using hlock)
    · exact h
  | wait now => exact h.wait now

/-- A task comes to the tasks there. -/
theorem calls_enter (s : CrosswalkFeed κ ρ) (id : Nat) (key : κ) :
    ∃ cached, (s.enter id key).calls = ⟨id, key, cached, .waitsForLock⟩ :: s.calls := by
  unfold CrosswalkFeed.enter
  dsimp only
  split
  · exact ⟨_, rfl⟩
  · exact ⟨_, rfl⟩

/-- A task at its end is gone, and the others are as they were. -/
theorem calls_exit (s : CrosswalkFeed κ ρ) (c : Call κ) :
    (s.exit c).calls = s.calls.erase c := by
  unfold CrosswalkFeed.exit CrosswalkFeed.leave CrosswalkFeed.release moveTo
  exact List.erase_cons_head ..

/-- A task with an answer is gone, and the others are as they were. -/
theorem calls_answer (s : CrosswalkFeed κ ρ) (c : Call κ) (result : ρ) :
    (((s.release c).store { c with phase := .leaves } result).leave
      { c with phase := .leaves }).calls = s.calls.erase c := by
  unfold CrosswalkFeed.leave CrosswalkFeed.store CrosswalkFeed.release moveTo
  exact List.erase_cons_head ..

/-- A task with the lock of its entry has a result and is gone, or waits for the slot. -/
theorem locked_cases (s : CrosswalkFeed κ ρ) (c : Call κ) :
    ((s.locked c).calls = s.calls.erase c ∧
      (s.locked c).returned.length = s.returned.length + 1) ∨
    ((s.locked c).calls = { c with phase := .waitsForSlot } :: s.calls.erase c ∧
      (s.locked c).returned = s.returned) := by
  unfold CrosswalkFeed.locked
  split
  · split
    · exact .inl ⟨rfl, rfl⟩
    · exact .inr ⟨rfl, rfl⟩
  · exact .inr ⟨rfl, rfl⟩

private theorem apply_waiting (h : s.Waiting) (e : FeedEvent κ ρ) : (s.apply e).Waiting := by
  have herase {d : Call κ} : ∀ c ∈ s.calls.erase d, c.phase ≠ .leaves :=
    fun c hc ↦ h c (List.mem_of_mem_erase hc)
  unfold Waiting
  cases e with
  | enter id key =>
    rw [apply]
    split
    · exact h
    · obtain ⟨cached, hcalls⟩ := calls_enter s id key
      rw [hcalls]
      exact List.forall_mem_cons.mpr ⟨fun hphase ↦ (by cases hphase), h⟩
  | lock d =>
    rw [apply]
    split
    · rcases locked_cases s d with ⟨hcalls, -⟩ | ⟨hcalls, -⟩
      · rw [hcalls]
        exact herase
      · rw [hcalls]
        exact List.forall_mem_cons.mpr ⟨fun hphase ↦ (by cases hphase), herase⟩
    · exact h
  | slot d =>
    rw [apply]
    split
    · exact List.forall_mem_cons.mpr ⟨fun hphase ↦ (by cases hphase), herase⟩
    · exact h
  | answer d result =>
    rw [apply]
    split
    · rw [calls_answer]
      exact herase
    · exact h
  | fail d =>
    rw [apply]
    split
    · rw [calls_exit]
      exact herase
    · exact h
  | cancel d =>
    rw [apply]
    split
    · split
      · rw [calls_exit]
        exact herase
      · exact herase
    · exact h
  | wait now => exact h

/-! ### Tasks come to their end -/

/-- What tasks and the database do when nobody comes, nobody gives up and no read fails. -/
def Turn (answers : κ → ρ) : FeedEvent κ ρ → Prop
  | .lock _ | .slot _ => True
  | .answer c result => result = answers c.key
  | .enter .. | .fail _ | .cancel _ | .wait _ => False

/-- A turn brings the tasks on, and a task that ends has a result. -/
theorem turn_ahead (h : s.Consistent) (hw : s.Waiting) (hne : s.calls ≠ [])
    (answers : κ → ρ) : ∃ e, Turn answers e ∧ (s.apply e).ahead < s.ahead ∧
      (s.apply e).returned.length + (s.apply e).calls.length =
        s.returned.length + s.calls.length := by
  obtain ⟨c, hc, hturn⟩ := h.turn hw hne
  have hahead : s.ahead = c.phase.ahead + ((s.calls.erase c).map fun d ↦ d.phase.ahead).sum :=
    (List.sum_map_erase (fun d : Call κ ↦ d.phase.ahead) hc).symm
  have hlength : (s.calls.erase c).length + 1 = s.calls.length := by
    rw [List.length_erase_of_mem hc]
    have := List.length_pos_of_mem hc
    omega
  -- The task is gone, or has gone to a place with fewer steps before it.
  have hgone {t : CrosswalkFeed κ ρ} (hcalls : t.calls = s.calls.erase c)
      (hpos : 0 < c.phase.ahead) : t.ahead < s.ahead := by
    rw [hahead, ahead, hcalls]
    omega
  have hmoved {t : CrosswalkFeed κ ρ} {phase : CallPhase}
      (hcalls : t.calls = { c with phase } :: s.calls.erase c)
      (hlt : phase.ahead < c.phase.ahead) : t.ahead < s.ahead := by
    rw [hahead, ahead, hcalls, List.map_cons, List.sum_cons]
    exact Nat.add_lt_add_right hlt _
  rcases hturn with hphase | ⟨hphase, hslot⟩ | ⟨hphase, hfree⟩
  · refine ⟨.answer c (answers c.key), rfl, ?_⟩
    rw [apply, if_pos ⟨hc, hphase⟩]
    refine ⟨hgone (calls_answer ..) (by rw [hphase]; decide), ?_⟩
    have hreturned : (((s.release c).store { c with phase := .leaves } (answers c.key)).leave
        { c with phase := .leaves }).returned.length = s.returned.length + 1 := rfl
    rw [calls_answer, hreturned]
    omega
  · refine ⟨.slot c, trivial, ?_⟩
    rw [apply, if_pos ⟨hc, hphase, hslot⟩]
    refine ⟨hmoved rfl (by rw [hphase]; decide), ?_⟩
    exact congrArg (s.returned.length + ·) hlength
  · refine ⟨.lock c, trivial, ?_⟩
    rw [apply, if_pos ⟨hc, hphase, hfree⟩]
    rcases locked_cases s c with ⟨hcalls, hreturned⟩ | ⟨hcalls, hreturned⟩
    · refine ⟨hgone hcalls (by rw [hphase]; decide), ?_⟩
      rw [hcalls, hreturned]
      omega
    · refine ⟨hmoved hcalls (by rw [hphase]; decide), ?_⟩
      rw [hcalls, hreturned]
      exact congrArg (s.returned.length + ·) hlength

/-- The tasks can take turns until each has a result. -/
theorem drain (answers : κ → ρ) (n : Nat) : ∀ s : CrosswalkFeed κ ρ, s.Consistent →
    s.Waiting → s.ahead ≤ n → ∃ events, (∀ e ∈ events, Turn answers e) ∧ events.length ≤ n ∧
      (run apply s events).calls = [] ∧
      (run apply s events).returned.length = s.returned.length + s.calls.length := by
  induction n with
  | zero =>
    intro s h hw hn
    have hnil : s.calls = [] := by
      by_contra hne
      obtain ⟨e, -, hlt, -⟩ := turn_ahead h hw hne answers
      omega
    exact ⟨[], fun _ he ↦ absurd he List.not_mem_nil, le_refl 0, hnil, by rw [hnil]; rfl⟩
  | succ n ih =>
    intro s h hw hn
    by_cases hne : s.calls = []
    · exact ⟨[], fun _ he ↦ absurd he List.not_mem_nil, Nat.zero_le _, hne, by rw [hne]; rfl⟩
    · obtain ⟨e, he, hlt, hcount⟩ := turn_ahead h hw hne answers
      obtain ⟨events, hevents, hlength, hcalls, hreturned⟩ :=
        ih (s.apply e) (apply_consistent h e) (apply_waiting hw e) (by omega)
      exact ⟨e :: events, List.forall_mem_cons.mpr ⟨he, hevents⟩, Nat.succ_le_succ hlength, hcalls,
        hreturned.trans hcount⟩

/-! ### Every run -/

/-- What the callers of `crosswalk` and the database are promised. -/
structure Serves (s : CrosswalkFeed κ ρ) : Prop where
  /-- The database has one read at a time. -/
  oneRead : ∀ c ∈ s.calls, ∀ d ∈ s.calls, c.phase = .reads → d.phase = .reads → c = d
  /-- Tasks share an entry when they have one key, and then one of them at most reads or is next. -/
  oneEntry : ∀ c ∈ s.calls, ∀ d ∈ s.calls, c.key = d.key ↔ c.cached = d.cached
  oneReader : ∀ c ∈ s.calls, ∀ d ∈ s.calls, c.key = d.key → c.phase.holdsLock = true →
    d.phase.holdsLock = true → c = d
  /-- No read goes on while the entry has a fresh result. -/
  needed : ∀ c ∈ s.calls, c.phase = .reads → ∀ result, (s.heap c.cached).result = some result →
    (s.heap c.cached).expires ≤ s.now
  /-- `_crosswalk_inflight` has the keys of the tasks. -/
  inflight : ∀ key, (s.inflight key).isSome ↔ ∃ c ∈ s.calls, c.key = key
  /-- `_crosswalk_reads` has 64 keys at most. -/
  bounded : s.reads.length ≤ 64 ∧ (s.reads.map (·.1)).Nodup
  /-- A task returns what the database answered for its key less than thirty seconds ago. -/
  current : ∀ x ∈ s.returned, ∃ a ∈ s.answered, a.key = x.key ∧ a.result = x.result ∧
    a.time ≤ x.time ∧ x.time < a.time + 30
  /-- With the last task every lock and the slot are free. -/
  released : s.calls = [] → s.slotFree = true ∧ ∀ cached, (s.heap cached).locked = false
  /-- Whatever the database answers, the tasks can take turns until each has a result. -/
  served : ∀ answers : κ → ρ, ∃ events, (∀ e ∈ events, Turn answers e) ∧
    events.length ≤ 3 * s.calls.length ∧ (run apply s events).calls = [] ∧
    (run apply s events).returned.length = s.returned.length + s.calls.length

/-- Of two tasks of a list in which one at most has a property, both are the one. -/
theorem one_of_pairwise {calls : List (Call κ)} {P : Call κ → Call κ → Prop}
    (h : calls.Pairwise fun c d ↦ ¬ P c d) (hsymm : ∀ c d, P c d → P d c) {d : Call κ}
    (hc : c ∈ calls) (hd : d ∈ calls) (hp : P c d) : c = d := by
  have hsymm' : Std.Symm fun c d ↦ ¬ P c d := ⟨fun c d hcd hdc ↦ hcd (hsymm d c hdc)⟩
  by_contra hne
  exact h.forall hc hd hne hp

private theorem Consistent.serves (h : s.Consistent) (hw : s.Waiting) : s.Serves := by
  have hentry : ∀ c ∈ s.calls, ∀ d ∈ s.calls, c.key = d.key ↔ c.cached = d.cached := by
    intro c hc d hd
    constructor
    · intro hkey
      have hsame := h.shared c hc
      rw [hkey, h.shared d hd] at hsame
      exact (Option.some.inj hsame).symm
    · intro hsame
      exact h.owner c.key d.key c.cached (.inl (h.shared c hc))
        (hsame ▸ .inl (h.shared d hd))
  constructor
  case oneRead =>
    intro c hc d hd hreads hreads'
    exact one_of_pairwise (P := fun c d ↦ c.phase = .reads ∧ d.phase = .reads)
      (h.reading.imp fun hcd hboth ↦ hcd hboth.1 hboth.2) (fun _ _ ↦ And.symm) hc hd
      ⟨hreads, hreads'⟩
  case oneEntry => exact hentry
  case oneReader =>
    intro c hc d hd hkey hlock hlock'
    exact one_of_pairwise
      (P := fun c d ↦ c.cached = d.cached ∧ c.phase.holdsLock = true ∧ d.phase.holdsLock = true)
      (h.exclusive.imp fun hcd hboth ↦ by
        have := hcd hboth.1 hboth.2.1
        rw [hboth.2.2] at this
        cases this)
      (fun _ _ hboth ↦ ⟨hboth.1.symm, hboth.2.2, hboth.2.1⟩) hc hd
      ⟨(hentry c hc d hd).mp hkey, hlock, hlock'⟩
  case needed => exact fun c hc hreads ↦ h.stale c hc (by rw [hreads]; rfl)
  case inflight =>
    refine fun key ↦ ⟨fun hk ↦ ?_, ?_⟩
    · obtain ⟨cached, hk⟩ := Option.isSome_iff_exists.mp hk
      exact h.used key cached hk
    · rintro ⟨c, hc, rfl⟩
      rw [h.shared c hc]
      rfl
  case bounded => exact ⟨h.size, h.keys⟩
  case current => exact h.returned
  case released =>
    refine fun hnil ↦ ⟨?_, fun cached ↦ ?_⟩
    · by_contra hslot
      obtain ⟨c, hc, -⟩ := h.slot.mp (by simpa using hslot)
      rw [hnil] at hc
      cases hc
    · by_contra hlocked
      obtain ⟨c, hc, -⟩ := (h.lockedBy cached).mp (by simpa using hlocked)
      rw [hnil] at hc
      cases hc
  case served =>
    intro answers
    obtain ⟨events, hevents, hlength, hrest⟩ := drain answers s.ahead s h hw (le_refl s.ahead)
    exact ⟨events, hevents, hlength.trans s.ahead_le, hrest⟩

/-- In every order of steps, with tasks that come in, are cancelled or fail whenever they like, the
feed keeps what it promises.
`src/jobtology_be/infrastructure/persistence/live_source_feed.py:111–142`. -/
theorem crosswalk_serves (events : List (FeedEvent κ ρ)) :
    (run apply (start : CrosswalkFeed κ ρ) events).Serves := by
  have hkept : (run apply (start : CrosswalkFeed κ ρ) events).Consistent ∧
      (run apply (start : CrosswalkFeed κ ρ) events).Waiting :=
    run_induction (P := fun s : CrosswalkFeed κ ρ ↦ s.Consistent ∧ s.Waiting)
      (fun s e h ↦ ⟨apply_consistent h.1 e, apply_waiting h.2 e⟩)
      ⟨consistent_start, fun _ hc ↦ absurd hc List.not_mem_nil⟩ events
  exact hkept.1.serves hkept.2

end CrosswalkFeed

end Jobtology.Sources
