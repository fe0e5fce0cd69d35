import Jobtology.Sources.CrosswalkFeed
import Mathlib.Data.List.Nodup
import Mathlib.Tactic.Linarith

/-!
# Laws of crosswalk reads

What holds of the feed in every order of steps: one read at a time, one entry for a key, no entry in
flight without a task, a bounded cache, and results of the key that are not too old.
-/

namespace Jobtology.Sources

open Jobtology.Relational

universe u v

namespace CrosswalkFeed

variable {κ : Type u} {ρ : Type v} {s : CrosswalkFeed κ ρ} {c : Call κ}

/-! ### The invariant -/

/-- A key leads to an entry. -/
def Knows (s : CrosswalkFeed κ ρ) (key : κ) (cached : Nat) : Prop :=
  s.inflight key = some cached ∨ (key, cached) ∈ s.reads

/-- A result is what the database answered for the key, at most thirty seconds before it expires. -/
def Answered (s : CrosswalkFeed κ ρ) (key : κ) (result : ρ) (expires : ℚ) : Prop :=
  ∃ a ∈ s.answered, a.key = key ∧ a.result = result ∧ a.time ≤ s.now ∧ expires = a.time + 30

/-- What holds in every state. -/
structure Consistent (s : CrosswalkFeed κ ρ) : Prop where
  ids : (s.calls.map (·.id)).Nodup
  shared : ∀ c ∈ s.calls, s.inflight c.key = some c.cached
  used : ∀ key cached, s.inflight key = some cached → ∃ c ∈ s.calls, c.key = key
  owner : ∀ key key' cached, s.Knows key cached → s.Knows key' cached → key = key'
  allocated : ∀ key cached, s.Knows key cached → cached < s.next
  agree : ∀ key cached cached', (key, cached) ∈ s.reads → s.inflight key = some cached' →
    cached = cached'
  users : ∀ cached, (s.heap cached).users = s.calls.countP (·.cached = cached)
  lockedBy : ∀ cached, (s.heap cached).locked = true ↔
    ∃ c ∈ s.calls, c.cached = cached ∧ c.phase.holdsLock = true
  exclusive : s.calls.Pairwise fun c d ↦ c.cached = d.cached → c.phase.holdsLock = true →
    d.phase.holdsLock = false
  slot : s.slotFree = false ↔ ∃ c ∈ s.calls, c.phase = .reads
  reading : s.calls.Pairwise fun c d ↦ c.phase = .reads → d.phase ≠ .reads
  keys : (s.reads.map (·.1)).Nodup
  size : s.reads.length ≤ 64
  fresh : ∀ key cached result, s.Knows key cached → (s.heap cached).result = some result →
    s.Answered key result (s.heap cached).expires
  stale : ∀ c ∈ s.calls, c.phase.holdsLock = true → ∀ result,
    (s.heap c.cached).result = some result → (s.heap c.cached).expires ≤ s.now
  returned : ∀ x ∈ s.returned, ∃ a ∈ s.answered, a.key = x.key ∧ a.result = x.result ∧
    a.time ≤ x.time ∧ x.time < a.time + 30

/-- The order of the tasks does not matter. -/
theorem Consistent.perm {calls : List (Call κ)} (h : s.Consistent) (hp : s.calls.Perm calls) :
    Consistent { s with calls := calls } := by
  have hmem {d : Call κ} : d ∈ calls ↔ d ∈ s.calls := hp.mem_iff.symm
  constructor
  case ids => exact (hp.map _).nodup_iff.mp h.ids
  case shared => exact fun d hd ↦ h.shared d (hmem.mp hd)
  case used =>
    intro key cached hk
    obtain ⟨d, hd, heq⟩ := h.used key cached hk
    exact ⟨d, hmem.mpr hd, heq⟩
  case owner => exact h.owner
  case allocated => exact h.allocated
  case agree => exact h.agree
  case users => exact fun cached ↦ (h.users cached).trans (hp.countP_eq _)
  case lockedBy =>
    intro cached
    rw [h.lockedBy]
    exact exists_congr fun d ↦ and_congr_left' hmem.symm
  case exclusive =>
    refine (hp.pairwise_iff fun {d e} hde heq hlock ↦ ?_).mp h.exclusive
    by_contra hother
    exact absurd (hde heq.symm (by simpa using hother)) (by simp [hlock])
  case slot =>
    rw [show ({ s with calls := calls } : CrosswalkFeed κ ρ).slotFree = s.slotFree from rfl, h.slot]
    exact exists_congr fun d ↦ and_congr_left' hmem.symm
  case reading =>
    exact (hp.pairwise_iff fun {d e} hde hreads hreads' ↦ hde hreads' hreads).mp h.reading
  case keys => exact h.keys
  case size => exact h.size
  case fresh => exact h.fresh
  case stale => exact fun d hd ↦ h.stale d (hmem.mp hd)
  case returned => exact h.returned

/-- The feed at the start. -/
theorem consistent_start : (start : CrosswalkFeed κ ρ).Consistent := by
  constructor
  case ids => exact List.nodup_nil
  case shared => exact fun _ h ↦ absurd h List.not_mem_nil
  case used => exact fun _ _ h ↦ (by cases h)
  case owner =>
    intro _ _ _ h _
    rcases h with h | h
    · cases h
    · exact absurd h List.not_mem_nil
  case allocated =>
    intro _ _ h
    rcases h with h | h
    · cases h
    · exact absurd h List.not_mem_nil
  case agree => exact fun _ _ _ h ↦ absurd h List.not_mem_nil
  case users => exact fun _ ↦ rfl
  case lockedBy =>
    intro _
    exact ⟨fun h ↦ (by cases h), fun ⟨_, h, _⟩ ↦ absurd h List.not_mem_nil⟩
  case exclusive => exact .nil
  case slot =>
    exact ⟨fun h ↦ (by cases h), fun ⟨_, h, _⟩ ↦ absurd h List.not_mem_nil⟩
  case reading => exact .nil
  case keys => exact List.nodup_nil
  case size => exact Nat.zero_le _
  case fresh => exact fun _ _ _ _ h ↦ (by cases h)
  case stale => exact fun _ h ↦ absurd h List.not_mem_nil
  case returned => exact fun _ h ↦ absurd h List.not_mem_nil

variable [DecidableEq κ]

/-- A task can stand first. -/
theorem Consistent.first (h : s.Consistent) (hc : c ∈ s.calls) :
    Consistent { s with calls := c :: s.calls.erase c } :=
  h.perm (List.perm_cons_erase hc)

/-! ### Steps -/

/-- A task that holds nothing leaves. -/
theorem Consistent.leave (h : s.Consistent) (hc : c ∈ s.calls)
    (hphase : c.phase.holdsLock = false) : (s.leave c).Consistent := by
  have hf := h.first hc
  have hheap (cached : Nat) : ((s.leave c).heap cached).locked = (s.heap cached).locked ∧
      ((s.leave c).heap cached).result = (s.heap cached).result ∧
      ((s.leave c).heap cached).expires = (s.heap cached).expires := by
    unfold CrosswalkFeed.leave CrosswalkFeed.modify
    dsimp only
    by_cases heq : cached = c.cached
    · subst heq
      rw [Function.update_self]
      exact ⟨rfl, rfl, rfl⟩
    · rw [Function.update_of_ne heq]
      exact ⟨rfl, rfl, rfl⟩
  have hcount : (s.heap c.cached).users = (s.calls.erase c).countP (·.cached = c.cached) + 1 := by
    rw [hf.users c.cached]
    dsimp only
    rw [List.countP_cons_of_pos (by simp)]
  have hinflight {key : κ} {cached : Nat} (hk : (s.leave c).inflight key = some cached) :
      s.inflight key = some cached ∧ (key = c.key → (s.heap c.cached).users - 1 ≠ 0) := by
    unfold CrosswalkFeed.leave at hk
    dsimp only at hk
    split at hk
    · by_cases heq : key = c.key
      · subst heq
        rw [Function.update_self] at hk
        cases hk
      · rw [Function.update_of_ne heq] at hk
        exact ⟨hk, fun heq' ↦ absurd heq' heq⟩
    · next hsome => exact ⟨hk, fun _ ↦ hsome⟩
  have hknows {key : κ} {cached : Nat} (hk : (s.leave c).Knows key cached) : s.Knows key cached :=
    hk.imp_left fun hk ↦ (hinflight hk).1
  constructor
  case ids => exact (List.nodup_cons.mp hf.ids).2
  case shared =>
    intro d hd
    have hshared := h.shared d (List.mem_of_mem_erase hd)
    unfold CrosswalkFeed.leave
    dsimp only
    split
    · next hzero =>
      rw [Function.update_of_ne fun heq ↦ ?_]
      · exact hshared
      · have hsame : d.cached = c.cached :=
          Option.some.inj (hshared.symm.trans (heq ▸ h.shared c hc))
        have hpos : 0 < (s.calls.erase c).countP (·.cached = c.cached) :=
          List.countP_pos_iff.mpr ⟨d, hd, decide_eq_true hsame⟩
        omega
    · exact hshared
  case used =>
    intro key cached hk
    obtain ⟨hk, hkeep⟩ := hinflight hk
    obtain ⟨d, hd, heq⟩ := hf.used key cached hk
    rcases List.mem_cons.mp hd with rfl | hd
    · -- Another task of the key is left: the entry has more users.
      have hpos : 0 < (s.calls.erase d).countP (·.cached = d.cached) := by
        have := hkeep heq.symm
        omega
      obtain ⟨e, he, hsame⟩ := List.countP_pos_iff.mp hpos
      have hshared := h.shared e (List.mem_of_mem_erase he)
      rw [of_decide_eq_true hsame] at hshared
      exact ⟨e, he, (h.owner _ _ d.cached (.inl hshared) (.inl (h.shared d hc))).trans heq⟩
    · exact ⟨d, hd, heq⟩
  case owner => exact fun key key' cached hk hk' ↦ h.owner key key' cached (hknows hk) (hknows hk')
  case allocated => exact fun key cached hk ↦ h.allocated key cached (hknows hk)
  case agree =>
    exact fun key cached cached' hk hk' ↦ h.agree key cached cached' hk (hinflight hk').1
  case users =>
    intro cached
    unfold CrosswalkFeed.leave CrosswalkFeed.modify
    dsimp only
    by_cases heq : cached = c.cached
    · subst heq
      rw [Function.update_self]
      dsimp only
      omega
    · rw [Function.update_of_ne heq, hf.users cached]
      dsimp only
      rw [List.countP_cons_of_neg (by simpa using fun h ↦ heq h.symm)]
  case lockedBy =>
    intro cached
    rw [(hheap cached).1, hf.lockedBy cached]
    constructor
    · rintro ⟨d, hd, hcached, hlock⟩
      rcases List.mem_cons.mp hd with rfl | hd
      · rw [hphase] at hlock
        cases hlock
      · exact ⟨d, hd, hcached, hlock⟩
    · rintro ⟨d, hd, hrest⟩
      exact ⟨d, List.mem_cons_of_mem _ hd, hrest⟩
  case exclusive => exact (List.pairwise_cons.mp hf.exclusive).2
  case slot =>
    refine hf.slot.trans ⟨?_, ?_⟩
    · rintro ⟨d, hd, hreads⟩
      rcases List.mem_cons.mp hd with rfl | hd
      · rw [hreads] at hphase
        cases hphase
      · exact ⟨d, hd, hreads⟩
    · rintro ⟨d, hd, hreads⟩
      exact ⟨d, List.mem_cons_of_mem _ hd, hreads⟩
  case reading => exact (List.pairwise_cons.mp hf.reading).2
  case keys => exact h.keys
  case size => exact h.size
  case fresh =>
    intro key cached result hk hresult
    rw [(hheap cached).2.1] at hresult
    rw [(hheap cached).2.2]
    exact h.fresh key cached result (hknows hk) hresult
  case stale =>
    intro d hd hlock result hresult
    rw [(hheap d.cached).2.1] at hresult
    rw [(hheap d.cached).2.2]
    exact h.stale d (List.mem_of_mem_erase hd) hlock result hresult
  case returned => exact h.returned

/-- A task goes to another place, with the lock of its entry and the slot as they are there. -/
theorem Consistent.move (h : s.Consistent) (hc : c ∈ s.calls) (phase : CallPhase)
    (l b : Bool)
    (hother : phase.holdsLock = true → ∀ d ∈ s.calls.erase c, d.cached = c.cached →
      d.phase.holdsLock = false)
    (hlocked : l = true ↔ phase.holdsLock = true ∨
      ∃ d ∈ s.calls.erase c, d.cached = c.cached ∧ d.phase.holdsLock = true)
    (hreading : phase = .reads → ∀ d ∈ s.calls.erase c, d.phase ≠ .reads)
    (hslot : b = false ↔ phase = .reads ∨ ∃ d ∈ s.calls.erase c, d.phase = .reads)
    (hstale : phase.holdsLock = true → ∀ result, (s.heap c.cached).result = some result →
      (s.heap c.cached).expires ≤ s.now) :
    Consistent { (s.modify c.cached fun entry ↦ { entry with locked := l }).moveTo c phase with
      slotFree := b } := by
  have hf := h.first hc
  have hheap (cached : Nat) : (Function.update s.heap c.cached
        { s.heap c.cached with locked := l } cached).users = (s.heap cached).users ∧
      (Function.update s.heap c.cached { s.heap c.cached with locked := l } cached).result =
        (s.heap cached).result ∧
      (Function.update s.heap c.cached { s.heap c.cached with locked := l } cached).expires =
        (s.heap cached).expires := by
    by_cases heq : cached = c.cached
    · subst heq
      rw [Function.update_self]
      exact ⟨rfl, rfl, rfl⟩
    · rw [Function.update_of_ne heq]
      exact ⟨rfl, rfl, rfl⟩
  obtain ⟨hexclusive, hrest⟩ := List.pairwise_cons.mp hf.exclusive
  obtain ⟨hreads, hrestReads⟩ := List.pairwise_cons.mp hf.reading
  unfold CrosswalkFeed.modify moveTo
  constructor
  case ids => exact hf.ids
  case shared =>
    exact List.forall_mem_cons.mpr ⟨h.shared c hc, fun d hd ↦ h.shared d (List.mem_of_mem_erase hd)⟩
  case used =>
    intro key cached hk
    obtain ⟨d, hd, heq⟩ := hf.used key cached hk
    rcases List.mem_cons.mp hd with rfl | hd
    · exact ⟨_, List.mem_cons_self, heq⟩
    · exact ⟨d, List.mem_cons_of_mem _ hd, heq⟩
  case owner => exact h.owner
  case allocated => exact h.allocated
  case agree => exact h.agree
  case users =>
    intro cached
    dsimp only
    rw [(hheap cached).1, hf.users cached, List.countP_cons, List.countP_cons]
  case lockedBy =>
    intro cached
    dsimp only
    by_cases heq : cached = c.cached
    · subst heq
      rw [Function.update_self]
      refine hlocked.trans ⟨?_, ?_⟩
      · rintro (hhere | ⟨d, hd, hsame, hlock⟩)
        · exact ⟨_, List.mem_cons_self, rfl, hhere⟩
        · exact ⟨d, List.mem_cons_of_mem _ hd, hsame, hlock⟩
      · rintro ⟨d, hd, hsame, hlock⟩
        rcases List.mem_cons.mp hd with rfl | hd
        · exact .inl hlock
        · exact .inr ⟨d, hd, hsame, hlock⟩
    · rw [Function.update_of_ne heq, hf.lockedBy cached]
      constructor
      · rintro ⟨d, hd, hsame, hlock⟩
        rcases List.mem_cons.mp hd with rfl | hd
        · exact absurd hsame.symm heq
        · exact ⟨d, List.mem_cons_of_mem _ hd, hsame, hlock⟩
      · rintro ⟨d, hd, hsame, hlock⟩
        rcases List.mem_cons.mp hd with rfl | hd
        · exact absurd hsame.symm heq
        · exact ⟨d, List.mem_cons_of_mem _ hd, hsame, hlock⟩
  case exclusive =>
    exact List.pairwise_cons.mpr ⟨fun d hd hsame hlock ↦ hother hlock d hd hsame.symm, hrest⟩
  case slot =>
    refine hslot.trans ⟨?_, ?_⟩
    · rintro (hhere | ⟨d, hd, hphase⟩)
      · exact ⟨_, List.mem_cons_self, hhere⟩
      · exact ⟨d, List.mem_cons_of_mem _ hd, hphase⟩
    · rintro ⟨d, hd, hphase⟩
      rcases List.mem_cons.mp hd with rfl | hd
      · exact .inl hphase
      · exact .inr ⟨d, hd, hphase⟩
  case reading =>
    exact List.pairwise_cons.mpr ⟨fun d hd hphase ↦ hreading hphase d hd, hrestReads⟩
  case keys => exact h.keys
  case size => exact h.size
  case fresh =>
    intro key cached result hk hresult
    dsimp only at hresult ⊢
    rw [(hheap cached).2.1] at hresult
    rw [(hheap cached).2.2]
    exact h.fresh key cached result hk hresult
  case stale =>
    refine List.forall_mem_cons.mpr ⟨fun hlock result hresult ↦ ?_,
      fun d hd hlock result hresult ↦ ?_⟩
    · dsimp only at hlock hresult ⊢
      rw [(hheap c.cached).2.1] at hresult
      rw [(hheap c.cached).2.2]
      exact hstale hlock result hresult
    · dsimp only at hresult ⊢
      rw [(hheap d.cached).2.1] at hresult
      rw [(hheap d.cached).2.2]
      exact h.stale d (List.mem_of_mem_erase hd) hlock result hresult
  case returned => exact h.returned

/-- Of the tasks of an entry only one holds its lock. -/
theorem Consistent.others (h : s.Consistent) (hc : c ∈ s.calls)
    (hlock : c.phase.holdsLock = true) :
    ∀ d ∈ s.calls.erase c, d.cached = c.cached → d.phase.holdsLock = false :=
  fun d hd hsame ↦ (List.pairwise_cons.mp (h.first hc).exclusive).1 d hd hsame.symm hlock

/-- A task with the lock leaves it. -/
theorem Consistent.release (h : s.Consistent) (hc : c ∈ s.calls)
    (hlock : c.phase.holdsLock = true) : (s.release c).Consistent := by
  have hf := h.first hc
  have hothers := h.others hc hlock
  refine h.move hc .leaves false (s.slotFree || c.phase == .reads) (fun h ↦ by cases h)
    ⟨fun h ↦ (by cases h), ?_⟩ (fun h ↦ by cases h) ?_ fun h ↦ by cases h
  · rintro (h | ⟨d, hd, hsame, hholds⟩)
    · cases h
    · rw [hothers d hd hsame] at hholds
      cases hholds
  · have hslot := hf.slot
    have hreading := (List.pairwise_cons.mp hf.reading).1
    dsimp only at hslot
    by_cases hphase : c.phase = .reads
    · rw [hphase]
      refine ⟨fun h ↦ by simp at h, ?_⟩
      rintro (h | ⟨d, hd, hreads⟩)
      · cases h
      · exact absurd hreads (hreading d hd hphase)
    · rw [show (c.phase == .reads) = false from beq_eq_false_iff_ne.mpr hphase, Bool.or_false,
        hslot]
      constructor
      · rintro ⟨d, hd, hreads⟩
        rcases List.mem_cons.mp hd with rfl | hd
        · exact absurd hreads hphase
        · exact .inr ⟨d, hd, hreads⟩
      · rintro (h | ⟨d, hd, hreads⟩)
        · cases h
        · exact ⟨d, List.mem_cons_of_mem _ hd, hreads⟩

/-- A task with the lock leaves the feed. -/
theorem Consistent.exit (h : s.Consistent) (hc : c ∈ s.calls)
    (hlock : c.phase.holdsLock = true) : (s.exit c).Consistent :=
  (h.release hc hlock).leave List.mem_cons_self rfl

/-- A task waits for the slot with the lock. -/
theorem Consistent.waitForSlot (h : s.Consistent) (hc : c ∈ s.calls)
    (hphase : c.phase = .waitsForLock) (hfree : (s.heap c.cached).locked = false)
    (hstale : ∀ result, (s.heap c.cached).result = some result →
      (s.heap c.cached).expires ≤ s.now) :
    ((s.modify c.cached fun entry ↦ { entry with locked := true }).moveTo c
      .waitsForSlot).Consistent := by
  have hf := h.first hc
  have hslot := hf.slot
  refine h.move hc .waitsForSlot true s.slotFree (fun _ d hd hsame ↦ ?_)
    ⟨fun _ ↦ .inl rfl, fun _ ↦ rfl⟩ (fun h ↦ by cases h) ?_ fun _ ↦ hstale
  · by_contra hlock
    have hlocked := (h.lockedBy c.cached).mpr
      ⟨d, List.mem_of_mem_erase hd, hsame, by simpa using hlock⟩
    rw [hfree] at hlocked
    cases hlocked
  · dsimp only at hslot
    rw [hslot]
    constructor
    · rintro ⟨d, hd, hreads⟩
      rcases List.mem_cons.mp hd with rfl | hd
      · rw [hphase] at hreads
        cases hreads
      · exact .inr ⟨d, hd, hreads⟩
    · rintro (h | ⟨d, hd, hreads⟩)
      · cases h
      · exact ⟨d, List.mem_cons_of_mem _ hd, hreads⟩

/-- A task with the lock takes the slot. -/
theorem Consistent.takeSlot (h : s.Consistent) (hc : c ∈ s.calls)
    (hphase : c.phase = .waitsForSlot) (hfree : s.slotFree = true) :
    Consistent { s.moveTo c .reads with slotFree := false } := by
  have hlock : c.phase.holdsLock = true := by
    rw [hphase]
    rfl
  have hnone : ∀ d ∈ s.calls, d.phase ≠ .reads := by
    intro d hd hreads
    have hslot := h.slot.mpr ⟨d, hd, hreads⟩
    rw [hfree] at hslot
    cases hslot
  have hmove := h.move hc .reads (s.heap c.cached).locked false (fun _ ↦ h.others hc hlock)
    ⟨fun _ ↦ .inl rfl, fun _ ↦ (h.lockedBy c.cached).mpr ⟨c, hc, rfl, hlock⟩⟩
    (fun _ d hd ↦ hnone d (List.mem_of_mem_erase hd)) ⟨fun _ ↦ .inl rfl, fun _ ↦ rfl⟩
    fun _ ↦ h.stale c hc hlock
  have hsame : s.modify c.cached (fun entry ↦
      { entry with locked := (s.heap c.cached).locked }) = s := by
    unfold CrosswalkFeed.modify
    dsimp only
    rw [Function.update_eq_self]
  rwa [hsame] at hmove

/-- A task with the lock of its entry returns a fresh result, or waits for the slot. -/
theorem Consistent.locked (h : s.Consistent) (hc : c ∈ s.calls) (hphase : c.phase = .waitsForLock)
    (hfree : (s.heap c.cached).locked = false) : (s.locked c).Consistent := by
  have hholds : c.phase.holdsLock = false := by
    rw [hphase]
    rfl
  unfold CrosswalkFeed.locked
  split
  · next result hresult =>
    split
    · next hfresh =>
      obtain ⟨a, ha, hkey, hres, htime, hexpires⟩ :=
        h.fresh c.key c.cached result (.inl (h.shared c hc)) hresult
      have hreturned : Consistent { s with returned := ⟨c.key, result, s.now⟩ :: s.returned } :=
        ⟨h.ids, h.shared, h.used, h.owner, h.allocated, h.agree, h.users, h.lockedBy, h.exclusive,
          h.slot, h.reading, h.keys, h.size, h.fresh, h.stale, List.forall_mem_cons.mpr
            ⟨⟨a, ha, hkey, hres, htime, hexpires ▸ hfresh⟩, h.returned⟩⟩
      exact hreturned.leave hc hholds
    · next hstale =>
      refine h.waitForSlot hc hphase hfree fun other hother ↦ ?_
      exact not_lt.mp hstale
  · next hnone =>
    refine h.waitForSlot hc hphase hfree fun other hother ↦ ?_
    rw [hnone] at hother
    cases hother

/-- The entries of `_crosswalk_reads` with one at the end. -/
theorem mem_toEnd {reads : List (κ × Nat)} {key : κ} {cached : Nat} {x : κ × Nat}
    (h : x ∈ toEnd reads key cached) : x = (key, cached) ∨ (x ∈ reads ∧ x.1 ≠ key) := by
  rcases List.mem_append.mp h with h | h
  · obtain ⟨hmem, hne⟩ := List.mem_filter.mp h
    exact .inr ⟨hmem, of_decide_eq_true hne⟩
  · exact .inl (List.mem_singleton.mp h)

/-- The keys stay distinct. -/
theorem nodup_toEnd {reads : List (κ × Nat)} (h : (reads.map (·.1)).Nodup) (key : κ)
    (cached : Nat) : ((toEnd reads key cached).map (·.1)).Nodup := by
  unfold toEnd
  rw [List.map_append, List.map_singleton, List.nodup_append]
  refine ⟨h.sublist (List.filter_sublist.map _), List.nodup_singleton _, ?_⟩
  intro x hx y hy heq
  obtain ⟨e, he, rfl⟩ := List.mem_map.mp hx
  exact of_decide_eq_true (List.mem_filter.mp he).2 (heq.trans (List.mem_singleton.mp hy))

/-- An entry moved to the end stays the only one of its key. -/
theorem toEnd_perm {reads : List (κ × Nat)} {key : κ} {cached : Nat}
    (h : (reads.map (·.1)).Nodup) (hmem : (key, cached) ∈ reads) :
    (toEnd reads key cached).Perm reads := by
  refine (List.perm_ext_iff_of_nodup ((nodup_toEnd h key cached).of_map _) (h.of_map _)).mpr fun x ↦
    ⟨fun hx ↦ ?_, fun hx ↦ ?_⟩
  · rcases mem_toEnd hx with rfl | hx
    · exact hmem
    · exact hx.1
  · refine List.mem_append.mpr ?_
    by_cases hkey : x.1 = key
    · exact .inr (List.mem_singleton.mpr (List.inj_on_of_nodup_map h hx hmem hkey))
    · exact .inl (List.mem_filter.mpr ⟨hx, decide_eq_true hkey⟩)

/-- An answer is kept. -/
theorem Consistent.store (h : s.Consistent) (hc : c ∈ s.calls) (result : ρ)
    (hfree : ∀ d ∈ s.calls, d.cached = c.cached → d.phase.holdsLock = false) :
    (s.store c result).Consistent := by
  have hmem {x : κ × Nat} (hx : x ∈ (s.store c result).reads) :
      x = (c.key, c.cached) ∨ (x ∈ s.reads ∧ x.1 ≠ c.key) :=
    mem_toEnd (List.mem_of_mem_drop hx)
  have hknows {key : κ} {cached : Nat} (hk : (s.store c result).Knows key cached) :
      s.Knows key cached := by
    rcases hk with hk | hk
    · exact .inl hk
    · rcases hmem hk with heq | hold
      · cases heq
        exact .inl (h.shared c hc)
      · exact .inr hold.1
  have hheap (cached : Nat) : ((s.store c result).heap cached).users = (s.heap cached).users ∧
      ((s.store c result).heap cached).locked = (s.heap cached).locked ∧
      (cached ≠ c.cached → (s.store c result).heap cached = s.heap cached) := by
    unfold CrosswalkFeed.store CrosswalkFeed.modify
    dsimp only
    by_cases heq : cached = c.cached
    · subst heq
      rw [Function.update_self]
      exact ⟨rfl, rfl, fun hne ↦ absurd rfl hne⟩
    · rw [Function.update_of_ne heq]
      exact ⟨rfl, rfl, fun _ ↦ rfl⟩
  have hanswered {key : κ} {r : ρ} {expires : ℚ} (ha : s.Answered key r expires) :
      (s.store c result).Answered key r expires := by
    obtain ⟨a, ha, hrest⟩ := ha
    exact ⟨a, List.mem_cons_of_mem _ ha, hrest⟩
  constructor
  case ids => exact h.ids
  case shared => exact h.shared
  case used => exact h.used
  case owner => exact fun key key' cached hk hk' ↦ h.owner key key' cached (hknows hk) (hknows hk')
  case allocated => exact fun key cached hk ↦ h.allocated key cached (hknows hk)
  case agree =>
    intro key cached cached' hk hk'
    rcases hmem hk with heq | hold
    · cases heq
      exact Option.some.inj ((h.shared c hc).symm.trans hk')
    · exact h.agree key cached cached' hold.1 hk'
  case users => exact fun cached ↦ (hheap cached).1.trans (h.users cached)
  case lockedBy =>
    intro cached
    rw [(hheap cached).2.1]
    exact h.lockedBy cached
  case exclusive => exact h.exclusive
  case slot => exact h.slot
  case reading => exact h.reading
  case keys =>
    unfold CrosswalkFeed.store
    dsimp only
    rw [List.map_drop]
    exact (nodup_toEnd h.keys c.key c.cached).sublist (List.drop_sublist _ _)
  case size =>
    unfold CrosswalkFeed.store
    dsimp only
    rw [List.length_drop]
    omega
  case fresh =>
    intro key cached r hk hr
    by_cases heq : cached = c.cached
    · -- The entry of the answer is the key's own.
      subst heq
      have hkey := h.owner key c.key c.cached (hknows hk) (.inl (h.shared c hc))
      subst hkey
      refine ⟨⟨c.key, result, s.now⟩, List.mem_cons_self, rfl, ?_, le_refl s.now, ?_⟩
      · unfold CrosswalkFeed.store CrosswalkFeed.modify at hr
        dsimp only at hr
        rw [Function.update_self] at hr
        exact Option.some.inj hr
      · unfold CrosswalkFeed.store CrosswalkFeed.modify
        dsimp only
        rw [Function.update_self]
    · rw [(hheap cached).2.2 heq] at hr ⊢
      exact hanswered (h.fresh key cached r (hknows hk) hr)
  case stale =>
    intro d hd hlock r hr
    have hne : d.cached ≠ c.cached := fun heq ↦ by
      rw [hfree d hd heq] at hlock
      cases hlock
    rw [(hheap d.cached).2.2 hne] at hr ⊢
    exact h.stale d hd hlock r hr
  case returned =>
    refine List.forall_mem_cons.mpr ⟨?_, fun x hx ↦ ?_⟩
    · refine ⟨⟨c.key, result, s.now⟩, List.mem_cons_self, rfl, rfl, le_refl s.now, ?_⟩
      dsimp only
      linarith
    · obtain ⟨a, ha, hrest⟩ := h.returned x hx
      exact ⟨a, List.mem_cons_of_mem _ ha, hrest⟩

end CrosswalkFeed

end Jobtology.Sources
