import Jobtology.Resume.SlotLaws
import Mathlib.Data.Fintype.Card

/-!
# Answers about slots

A refused scan answers from what it found when it tried each slot. A slot that it found locked was
that of a running body, or of one that was just over; only the latter has an empty file, and it may
be of the same account.
-/

namespace Jobtology.Resume

open Jobtology.Base Jobtology.Relational

variable {σ π : Type}

/-- A scan is about to try a slot that a scan of an account holds. -/
def Slots.Finds (st : Slots σ π) (s : σ) (k : Fin 2) (t : σ) (account : Uuid) : Prop :=
  st.Tries s k ∧ st.holder k = some t ∧ st.accountOf t = some account

/-- A slot that a scan found locked: it was held by a scan of another account, or the body on it was
over when the file was read. -/
def FoundLocked (seen : (Slots σ π → Prop) → Prop) (s : σ) (account : Uuid) (k : Fin 2) : Prop :=
  ∃ t other, seen (fun st ↦ st.Finds s k t other) ∧
    (other ≠ account ∨ seen fun st ↦ st.Reads s k ∧ st.BodyOver t k)

/-- What was seen before a scan came to where it is. -/
structure Traced (owner : Uuid → String) (seen : (Slots σ π → Prop) → Prop) (st : Slots σ π) (s : σ)
    (x : Scan π) : Prop where
  /-- The holder of the slot whose file is to be read, its body running unless the file is empty. -/
  reading : ∀ k rest reserved, x.phase = .reading k rest reserved →
    ∃ t, ∃ y ∈ st.scans t, (st.Runs t k ∨ st.BodyOver t k) ∧
      (st.content k = "" ∨ st.content k = owner y.account) ∧
      seen fun before ↦ before.Finds s k t y.account ∧ (st.content k ≠ "" → before.Runs t k)
  /-- A running body of the account. -/
  same : (∃ reserved, x.phase = .sameOwner reserved) ∨
      x.phase = .ended (.refused scanAlreadyRunning) →
    seen fun before ↦ ∃ k t, before.Finds s k t x.account ∧ before.Runs t k
  /-- The slots that were passed while none was free. -/
  passed : ∀ k, (∃ rest, x.phase = .probing rest none ∧ k ∉ rest) ∨
      (∃ i rest, x.phase = .reading i rest none ∧ k ∉ i :: rest) ∨
      x.phase = .ended (.refused scannerBusy) → FoundLocked seen s x.account k

/-- What an action by others leaves to a scan: other scans and their accounts stay, a body that runs
or is over still runs or is over, and while the scan holds the registry files are only emptied. -/
structure Undisturbed (st st' : Slots σ π) (x : Scan π) : Prop where
  scans : ∀ t, ∀ y ∈ st.scans t, ∃ y' ∈ st'.scans t, y'.account = y.account
  bodies : ∀ t k, st.Runs t k ∨ st.BodyOver t k → st'.Runs t k ∨ st'.BodyOver t k
  texts : x.phase.Registers → ∀ k, st'.content k = st.content k ∨ st'.content k = ""

section Traces

variable {owner : Uuid → String} {st st' : Slots σ π} {s : σ} {x : Scan π}
  {seen seen' : (Slots σ π → Prop) → Prop}

/-- A slot that was seen locked stays so. -/
theorem FoundLocked.later {account : Uuid} {k : Fin 2} (h : FoundLocked seen s account k)
    (hseen : ∀ P, seen P → seen' P) : FoundLocked seen' s account k := by
  obtain ⟨t, other, hfound, hwhy⟩ := h
  exact ⟨t, other, hseen _ hfound, hwhy.imp_right (hseen _)⟩

/-- A scan that is left alone stays traced. -/
theorem Traced.undisturbed (h : Traced owner seen st s x) (hothers : Undisturbed st st' x)
    (hseen : ∀ P, seen P → seen' P) (hmono : ∀ P Q, (∀ t, P t → Q t) → seen P → seen Q) :
    Traced owner seen' st' s x := by
  refine ⟨fun k rest reserved hphase ↦ ?_, fun hphase ↦ hseen _ (h.same hphase),
    fun k hphase ↦ (h.passed k hphase).later hseen⟩
  obtain ⟨t, y, hy, hbody, htext, hfound⟩ := h.reading k rest reserved hphase
  obtain ⟨y', hy', haccount⟩ := hothers.scans t y hy
  have hregisters : x.phase.Registers := by
    rw [hphase]
    trivial
  refine ⟨t, y', hy', hothers.bodies t k hbody, ?_, ?_⟩
  · rcases hothers.texts hregisters k with hkept | hempty
    · rw [hkept, haccount]
      exact htext
    · exact .inl hempty
  · rw [haccount]
    apply hseen
    refine hmono _ _ (fun before hbefore ↦ ⟨hbefore.1, fun hsome ↦ hbefore.2 ?_⟩) hfound
    rcases hothers.texts hregisters k with hkept | hempty
    · rw [← hkept]
      exact hsome
    · exact absurd hempty hsome

/-- A phase in which nothing has been found needs no trace. -/
theorem Traced.of_phase (hwaiting : x.phase = .waiting ∨ x.phase = .crashed) :
    Traced owner seen st s x := by
  rcases hwaiting with hphase | hphase
  · constructor <;> simp [hphase]
  · constructor <;> simp [hphase]

private theorem Slots.phaseOf_of_mem (hx : x ∈ st.scans s) : st.phaseOf s = some x.phase := by
  rw [Option.mem_def] at hx
  simp [Slots.phaseOf, hx]

private theorem Slots.accountOf_of_mem (hx : x ∈ st.scans s) : st.accountOf s = some x.account := by
  rw [Option.mem_def] at hx
  simp [Slots.accountOf, hx]

/-- A scan that holds a slot but not the registry runs its body, or has just ended it. -/
theorem Phase.body_of_holds {phase : Phase} {k : Fin 2} (hholds : phase.Holds k)
    (hnot : ¬ phase.Registers) : phase = .running k ∨ phase = .emptied k := by
  cases phase with
  | running r =>
    obtain rfl : k = r := hholds
    exact .inl rfl
  | emptied r =>
    obtain rfl : k = r := hholds
    exact .inr rfl
  | waiting => exact absurd hholds id
  | ended outcome => exact absurd hholds id
  | crashed => exact absurd hholds id
  | _ => exact absurd trivial hnot

/-- What a scan finds when a slot is locked already. -/
theorem Consistent.found (h : Consistent owner st) (hx : x ∈ st.scans s) {k : Fin 2}
    {rest : List (Fin 2)} {reserved : Option (Fin 2)}
    (hphase : x.phase = .probing (k :: rest) reserved) {t : σ} (ht : st.holder k = some t) :
    t ≠ s ∧ ∃ y ∈ st.scans t, (st.Runs t k ∨ st.BodyOver t k) ∧
      (st.content k = "" ∨ st.content k = owner y.account) ∧ st.Finds s k t y.account ∧
        (st.content k ≠ "" → st.Runs t k) := by
  obtain ⟨y, hy, hholds⟩ := (h.holder k t).mp ht
  have hregisters : x.phase.Registers := by
    rw [hphase]
    trivial
  have hts : t ≠ s := by
    rintro rfl
    obtain rfl := Option.mem_unique hx hy
    have hdistinct := h.distinct t x hx
    rw [hphase] at hholds hdistinct
    exact hdistinct.2 k hholds List.mem_cons_self
  have hfinds : st.Finds s k t y.account :=
    ⟨⟨rest, reserved, hphase ▸ Slots.phaseOf_of_mem hx⟩, ht, Slots.accountOf_of_mem hy⟩
  have htext := h.text t y hy k
  refine ⟨hts, y, hy, ?_⟩
  have hnot : ¬ y.phase.Registers := fun hy' ↦ hts (h.registers_unique hy hx hy' hregisters)
  rcases Phase.body_of_holds hholds hnot with hrunning | hemptied
  · have hruns : st.Runs t k := by
      unfold Slots.Runs
      rw [Slots.phaseOf_of_mem hy, hrunning]
    rw [hrunning] at htext
    exact ⟨.inl hruns, .inr (htext rfl), hfinds, fun _ ↦ hruns⟩
  · have hover : st.BodyOver t k := by
      unfold Slots.BodyOver
      rw [Slots.phaseOf_of_mem hy, hemptied]
      exact List.mem_cons_self
    rw [hemptied] at htext
    exact ⟨.inr hover, .inl (htext rfl), hfinds, fun hsome ↦ absurd (htext rfl) hsome⟩

/-- A locked slot whose file does not name the account is passed for a reason. -/
theorem Traced.foundLocked (h : Traced owner seen st s x) (hc : Consistent owner st)
    (hsome : ∀ account, owner account ≠ "") (hx : x ∈ st.scans s) {k : Fin 2} {rest : List (Fin 2)}
    {reserved : Option (Fin 2)} (hphase : x.phase = .reading k rest reserved)
    (hother : st.content k ≠ owner x.account) (hseen : ∀ P, seen P → seen' P)
    (hnow : ∀ P, P st → seen' P) (hmono : ∀ P Q, (∀ t, P t → Q t) → seen P → seen Q) :
    FoundLocked seen' s x.account k := by
  obtain ⟨t, y, hy, hbody, htext, hfound⟩ := h.reading k rest reserved hphase
  refine ⟨t, y.account, hseen _ (hmono _ _ (fun _ hbefore ↦ hbefore.1) hfound), ?_⟩
  by_cases haccount : y.account = x.account
  · right
    rw [haccount] at htext
    have hempty := htext.resolve_right hother
    refine hnow _ ⟨⟨rest, reserved, hphase ▸ Slots.phaseOf_of_mem hx⟩, ?_⟩
    apply hbody.resolve_left
    intro hruns
    have hrunning : y.phase = .running k :=
      Option.some_injective _ ((Slots.phaseOf_of_mem hy).symm.trans hruns)
    have hshown := hc.text t y hy k
    rw [hrunning] at hshown
    exact hsome y.account ((hshown rfl).symm.trans hempty)
  · exact .inl haccount

/-- A scan that moves stays traced. -/
theorem Traced.move [DecidableEq σ] (h : Traced owner seen st s x) (hc : Consistent owner st)
    (howner : Function.Injective owner) (hsome : ∀ account, owner account ≠ "")
    (hx : x ∈ st.scans s) (hm : Move owner st s x st') (hseen : ∀ P, seen P → seen' P)
    (hnow : ∀ P, P st → seen' P) (hmono : ∀ P Q, (∀ t, P t → Q t) → seen P → seen Q)
    {y : Scan π} (hy : y ∈ st'.scans s) : Traced owner seen' st' s y := by
  have hthere (phase : Phase) (rest : Slots σ π)
      (hmem : y ∈ (rest.enter s x phase).scans s) : y = { x with phase := phase } := by
    simpa [Slots.enter, eq_comm] using hmem
  cases hm with
  | lockRegistry hphase hfree =>
    obtain rfl := hthere _ _ hy
    have hall : ∀ k : Fin 2, k ∈ [0, 1] := by decide
    refine ⟨by simp, by simp, fun k hk ↦ ?_⟩
    rcases hk with ⟨rest, heq, hnot⟩ | ⟨i, rest, heq, -⟩ | heq
    · cases heq
      exact absurd (hall k) hnot
    · cases heq
    · cases heq
  | reserve k rest hphase hfree =>
    obtain rfl := hthere _ _ hy
    constructor <;> simp
  | lockSurplus k rest r hphase hfree =>
    obtain rfl := hthere _ _ hy
    constructor <;> simp
  | blocked k rest reserved t hphase ht =>
    obtain rfl := hthere _ _ hy
    obtain ⟨hts, z, hz, hbody, htext, hfinds, hruns⟩ := hc.found hx hphase ht
    have hother : (st.enter s x (.reading k rest reserved)).scans t = st.scans t :=
      Function.update_of_ne hts _ _
    refine ⟨fun j rest' reserved' heq ↦ ?_, by simp, fun j hj ↦ ?_⟩
    · cases heq
      refine ⟨t, z, hother ▸ hz, ?_, htext, hnow _ ⟨hfinds, hruns⟩⟩
      simp only [Slots.Runs, Slots.BodyOver, Slots.phaseOf, hother] at hbody ⊢
      exact hbody
    · rcases hj with ⟨rest', heq, -⟩ | ⟨i, rest', heq, hnot⟩ | heq
      · cases heq
      · cases heq
        exact (h.passed j (.inl ⟨k :: rest, hphase, hnot⟩)).later hseen
      · cases heq
  | same k rest reserved hphase heq =>
    obtain rfl := hthere _ _ hy
    refine ⟨by simp, fun _ ↦ ?_, by simp⟩
    obtain ⟨t, z, hz, -, htext, hfound⟩ := h.reading k rest reserved hphase
    have hne : st.content k ≠ "" := by
      rw [heq]
      exact hsome x.account
    have haccount : z.account = x.account := howner ((htext.resolve_left hne).symm.trans heq)
    apply hseen
    refine hmono _ _ (fun before hbefore ↦ ⟨k, t, ?_, hbefore.2 hne⟩) hfound
    rw [← haccount]
    exact hbefore.1
  | other k rest reserved hphase hne =>
    obtain rfl := hthere _ _ hy
    refine ⟨by simp, by simp, fun j hj ↦ ?_⟩
    rcases hj with ⟨rest', heq, hnot⟩ | ⟨i, rest', heq, -⟩ | heq
    · cases heq
      by_cases hjk : j = k
      · subst hjk
        exact h.foundLocked hc hsome hx hphase hne hseen hnow hmono
      · have hpassed : j ∉ k :: rest := by
          rw [List.mem_cons, not_or]
          exact ⟨hjk, hnot⟩
        exact (h.passed j (.inr (.inl ⟨k, rest, hphase, hpassed⟩))).later hseen
    · cases heq
    · cases heq
  | closeSurplus k rest r hphase =>
    obtain rfl := hthere _ _ hy
    constructor <;> simp
  | closeReserved r hphase =>
    obtain rfl := hthere _ _ hy
    exact ⟨by simp, fun _ ↦ hseen _ (h.same (.inl ⟨_, hphase⟩)), by simp⟩
  | refuse hphase =>
    obtain rfl := hthere _ _ hy
    refine ⟨by simp, fun _ ↦ hseen _ (h.same (.inl ⟨_, hphase⟩)), ?_⟩
    simp [scanAlreadyRunning, scannerBusy]
  | busy hphase =>
    obtain rfl := hthere _ _ hy
    refine ⟨by simp, by simp [scanAlreadyRunning, scannerBusy], fun k _ ↦ ?_⟩
    exact (h.passed k (.inl ⟨[], hphase, List.not_mem_nil⟩)).later hseen
  | empty r hphase =>
    obtain rfl := hthere _ _ hy
    constructor <;> simp
  | claim r hphase =>
    obtain rfl := hthere _ _ hy
    constructor <;> simp
  | closeRegistry r hphase =>
    obtain rfl := hthere _ _ hy
    constructor <;> simp
  | finish r hphase =>
    obtain rfl := hthere _ _ hy
    constructor <;> simp
  | release r hphase =>
    obtain rfl := hthere _ _ hy
    constructor <;> simp

end Traces

/-! ### Every run -/

section Runs

variable {owner : Uuid → String} {st st' : Slots σ π} {s u : σ} {x : Scan π}

/-- A move of one scan leaves the others to themselves. -/
theorem Effect.undisturbed [DecidableEq σ] {w : Scan π} {phase : Phase}
    (he : Effect owner st u w phase st') (h : Consistent owner st) (hw : w ∈ st.scans u)
    (hx : x ∈ st.scans s) (hsu : s ≠ u) : Undisturbed st st' x := by
  have hother (t : σ) (htu : t ≠ u) : st'.scans t = st.scans t := by
    rw [he.scans, Function.update_of_ne htu]
  refine ⟨fun t y hy ↦ ?_, fun t k hbody ↦ ?_, fun hregisters k ↦ ?_⟩
  · by_cases htu : t = u
    · subst htu
      obtain rfl := Option.mem_unique hw hy
      exact ⟨_, he.mem_scans.mpr (.inl ⟨rfl, rfl⟩), rfl⟩
    · exact ⟨y, hother t htu ▸ hy, rfl⟩
  · by_cases htu : t = u
    · subst htu
      have hbefore : st.phaseOf t = some w.phase := Slots.phaseOf_of_mem hw
      have hafter : st'.phaseOf t = some phase :=
        Slots.phaseOf_of_mem (he.mem_scans.mpr (.inl ⟨rfl, rfl⟩))
      simp only [Slots.Runs, Slots.BodyOver, hbefore, hafter, List.mem_cons, Option.some.injEq,
        List.not_mem_nil, or_false] at hbody ⊢
      have hleft : w.phase = .running k ∨ w.phase = .emptied k := by
        rcases hbody with hruns | hemptied | hover | hcrashed
        · exact .inl hruns
        · exact .inr hemptied
        · exact absurd hover (he.alive.2 _)
        · exact absurd hcrashed he.alive.1
      rcases he.ended k hleft with hemptied | hover
      · exact .inr (.inl hemptied)
      · exact .inr (.inr (.inl hover))
    · simp only [Slots.Runs, Slots.BodyOver, Slots.phaseOf, hother t htu] at hbody ⊢
      exact hbody
  · apply he.textEmptied
    exact fun hw' ↦ hsu (h.registers_unique hx hw hregisters hw')

private theorem undisturbed_refl : Undisturbed st st x :=
  ⟨fun _ y hy ↦ ⟨y, hy, rfl⟩, fun _ _ h ↦ h, fun _ _ ↦ .inl rfl⟩

/-- A new scan leaves the others to themselves. -/
theorem undisturbed_start [DecidableEq σ] (hnew : st.scans u = none) (process : π)
    (account : Uuid) :
    Undisturbed st (st.enter u ⟨process, account, .waiting⟩ .waiting) x := by
  have hother (t : σ) (y : Scan π) (hy : y ∈ st.scans t) :
      (st.enter u ⟨process, account, .waiting⟩ .waiting).scans t = st.scans t := by
    apply Function.update_of_ne
    rintro rfl
    rw [hnew] at hy
    cases hy
  refine ⟨fun t y hy ↦ ⟨y, (hother t y hy) ▸ hy, rfl⟩, fun t k hbody ↦ ?_, fun _ _ ↦ .inl rfl⟩
  cases ht : st.scans t with
  | none => simp [Slots.Runs, Slots.BodyOver, Slots.phaseOf, ht] at hbody
  | some y =>
    have hsame := hother t y ht
    simp only [Slots.Runs, Slots.BodyOver, Slots.phaseOf, hsame] at hbody ⊢
    exact hbody

/-- The death of a process ends bodies, and writes nothing. -/
theorem undisturbed_crash [DecidableEq σ] [DecidableEq π] (process : π) :
    Undisturbed st (st.step owner (.crash process)) x := by
  refine ⟨fun t y hy ↦ ?_, fun t k hbody ↦ ?_, fun _ _ ↦ .inl rfl⟩
  · refine ⟨Slots.crashScan process y, by simpa [Slots.step] using ⟨y, hy, rfl⟩, ?_⟩
    rcases crashScan_cases process y with ⟨hsame, -⟩ | ⟨hcrashed, -⟩
    · rw [hsame]
    · rw [hcrashed]
  · cases ht : st.scans t with
    | none => simp [Slots.Runs, Slots.BodyOver, Slots.phaseOf, ht] at hbody
    | some y =>
      have hafter : (st.step owner (.crash process)).phaseOf t =
          some (Slots.crashScan process y).phase := by
        simp [Slots.step, Slots.phaseOf, ht]
      have hbefore : st.phaseOf t = some y.phase := Slots.phaseOf_of_mem ht
      unfold Slots.Runs Slots.BodyOver at hbody ⊢
      rw [hafter]
      rcases crashScan_cases process y with ⟨hsame, -⟩ | ⟨hcrashed, -⟩
      · rw [hsame, ← hbefore]
        exact hbody
      · rw [hcrashed]
        simp

variable [DecidableEq σ] [DecidableEq π]

/-- Whatever has happened, every scan is traced to states that were passed through. -/
theorem traced_run (howner : Function.Injective owner) (hsome : ∀ account, owner account ≠ "")
    (content : Fin 2 → String) (actions : List (Action σ π)) :
    ∀ s, ∀ x ∈ (run (Slots.step owner) (Slots.fresh content) actions).scans s,
      Traced owner (Visited (Slots.step owner) (Slots.fresh content) actions)
        (run (Slots.step owner) (Slots.fresh content) actions) s x := by
  refine run_history (P := fun actions st ↦ ∀ s, ∀ x ∈ st.scans s,
    Traced owner (Visited (Slots.step owner) (Slots.fresh content) actions) st s x) ?_ ?_ actions
  · intro s x hx
    cases hx
  · intro actions action ih s y hy
    have hc : Consistent owner (run (Slots.step owner) (Slots.fresh content) actions) :=
      consistent_run owner content actions
    have hseen (P : Slots σ π → Prop) (hP : Visited (Slots.step owner) (Slots.fresh content)
        actions P) : Visited (Slots.step owner) (Slots.fresh content) (actions ++ [action]) P :=
      hP.later action
    have hmono (P Q : Slots σ π → Prop) (himp : ∀ t, P t → Q t)
        (hP : Visited (Slots.step owner) (Slots.fresh content) actions P) :
        Visited (Slots.step owner) (Slots.fresh content) actions Q := hP.mono himp
    have hnow (P : Slots σ π → Prop)
        (hP : P (run (Slots.step owner) (Slots.fresh content) actions)) :
        Visited (Slots.step owner) (Slots.fresh content) (actions ++ [action]) P :=
      hseen P (Visited.now hP)
    generalize run (Slots.step owner) (Slots.fresh content) actions = st at *
    cases action with
    | start u process account =>
      cases hu : st.scans u with
      | none =>
        simp only [Slots.step, hu] at hy ⊢
        by_cases hsu : s = u
        · subst hsu
          apply Traced.of_phase
          left
          have hsame : ⟨process, account, .waiting⟩ = y := by
            simpa [Slots.enter] using hy
          rw [← hsame]
        · have hx : y ∈ st.scans s := by
            simpa [Slots.enter, Function.update_of_ne hsu] using hy
          exact (ih s y hx).undisturbed (undisturbed_start hu process account) hseen hmono
      | some w =>
        simp only [Slots.step, hu] at hy ⊢
        exact (ih s y hy).undisturbed undisturbed_refl hseen hmono
    | advance u =>
      cases hu : st.scans u with
      | none =>
        simp only [Slots.step, hu] at hy ⊢
        exact (ih s y hy).undisturbed undisturbed_refl hseen hmono
      | some w =>
        simp only [Slots.step, hu] at hy ⊢
        rcases advance_move owner st u w with hwait | hmove
        · rw [hwait] at hy ⊢
          exact (ih s y hy).undisturbed undisturbed_refl hseen hmono
        · by_cases hsu : s = u
          · subst hsu
            exact (ih s w hu).move hc howner hsome hu hmove hseen hnow hmono hy
          · obtain ⟨phase, he⟩ := hmove.effect hc hu
            have hx : y ∈ st.scans s :=
              ((he.mem_scans.mp hy).resolve_left fun h ↦ hsu h.1).2
            exact (ih s y hx).undisturbed (he.undisturbed hc hu hx hsu) hseen hmono
    | crash process =>
      have hx : ∃ x ∈ st.scans s, Slots.crashScan process x = y := by
        simpa [Slots.step] using hy
      obtain ⟨x, hx, rfl⟩ := hx
      rcases crashScan_cases process x with ⟨hsame, -⟩ | ⟨hcrashed, -⟩
      · rw [hsame]
        exact (ih s x hx).undisturbed (undisturbed_crash process) hseen hmono
      · apply Traced.of_phase
        rw [hcrashed]
        exact .inr rfl

end Runs

/-! ### A scan on its own -/

private theorem Slots.enter_scans [DecidableEq σ] (st : Slots σ π) (s : σ) (x : Scan π)
    (phase : Phase) :
    (st.enter s x phase).scans s = some { x with phase := phase } :=
  Function.update_self ..

section Alone

variable [DecidableEq σ] [DecidableEq π] {owner : Uuid → String} {st : Slots σ π} {s : σ}
  {x : Scan π}

/-- A scan comes to a phase when only it goes on. -/
def Slots.Comes (owner : Uuid → String) (st : Slots σ π) (s : σ) (P : Slots σ π → Prop) : Prop :=
  ∃ n, P (run (Slots.step owner) st (List.replicate n (.advance s)))

/-- What holds now comes. -/
theorem Slots.Comes.now {P : Slots σ π → Prop} (h : P st) : st.Comes owner s P := ⟨0, h⟩

/-- What comes after a step comes. -/
theorem Slots.Comes.after {P : Slots σ π → Prop} (hx : st.scans s = some x)
    (h : (st.advance owner s x).Comes owner s P) : st.Comes owner s P := by
  obtain ⟨n, hn⟩ := h
  refine ⟨n + 1, ?_⟩
  rw [List.replicate_succ, run_cons]
  simpa only [Slots.step, hx] using hn

/-- What comes after what comes, comes. -/
theorem Slots.Comes.trans {P Q : Slots σ π → Prop} (h : st.Comes owner s P)
    (himp : ∀ t, P t → t.Comes owner s Q) : st.Comes owner s Q := by
  obtain ⟨n, hn⟩ := h
  obtain ⟨m, hm⟩ := himp _ hn
  refine ⟨n + m, ?_⟩
  rw [List.replicate_add, run_append]
  exact hm

/-- The slots are tried one after the other, and a free one is reserved. -/
theorem comes_to_end_of_probing (rest : List (Fin 2)) {reserved : Option (Fin 2)}
    (hx : st.scans s = some x) (hphase : x.phase = .probing rest reserved) (hnodup : rest.Nodup)
    (hothers : ∀ k ∈ rest, ∀ t, st.holder k = some t → st.content k ≠ owner x.account)
    (hfree : reserved ≠ none ∨ ∃ k ∈ rest, st.holder k = none) :
    st.Comes owner s fun last ↦
      ∃ r y, last.scans s = some y ∧ y.phase = .probing [] (some r) := by
  induction rest generalizing st x reserved with
  | nil =>
    cases reserved with
    | none => simp at hfree
    | some r => exact .now ⟨r, x, hx, hphase⟩
  | cons k rest ih =>
    rw [List.nodup_cons] at hnodup
    have hlater : ∀ j ∈ rest, j ≠ k := by
      rintro j hj rfl
      exact hnodup.1 hj
    apply Slots.Comes.after hx
    cases hk : st.holder k with
    | none =>
      cases reserved with
      | none =>
        have hnext : st.advance owner s x = (st.lock k s).enter s x (.probing rest (some k)) := by
          simp [Slots.advance, hphase, hk]
        rw [hnext]
        apply ih (Slots.enter_scans ..) rfl hnodup.2 _ (.inl (by simp))
        intro j hj t ht
        refine hothers j (List.mem_cons_of_mem _ hj) t ?_
        rwa [show ((st.lock k s).enter s x (.probing rest (some k))).holder j = st.holder j from
          Function.update_of_ne (hlater j hj) ..] at ht
      | some r =>
        have hnext : st.advance owner s x = (st.lock k s).enter s x (.surplus k rest r) := by
          simp [Slots.advance, hphase, hk]
        rw [hnext]
        apply Slots.Comes.after (Slots.enter_scans ..)
        apply ih (Slots.enter_scans ..) rfl hnodup.2 _ (.inl (by simp))
        intro j hj t ht
        refine hothers j (List.mem_cons_of_mem _ hj) t ?_
        have hclosed : Function.update (Function.update st.holder k (some s)) k none j =
            st.holder j := by
          rw [Function.update_of_ne (hlater j hj), Function.update_of_ne (hlater j hj)]
        rw [← hclosed]
        exact ht
    | some t =>
      have hne := hothers k List.mem_cons_self t hk
      have hnext : st.advance owner s x = st.enter s x (.reading k rest reserved) := by
        simp [Slots.advance, hphase, hk]
      rw [hnext]
      apply Slots.Comes.after (Slots.enter_scans ..)
      have hread : (st.enter s x (.reading k rest reserved)).advance owner s
          { x with phase := .reading k rest reserved } =
            (st.enter s x (.reading k rest reserved)).enter s
              { x with phase := .reading k rest reserved } (.probing rest reserved) := by
        unfold Slots.advance
        exact if_neg hne
      rw [hread]
      apply ih (Slots.enter_scans ..) rfl hnodup.2
      · exact fun j hj ↦ hothers j (List.mem_cons_of_mem _ hj)
      · apply hfree.imp_right
        rintro ⟨j, hj, hnone⟩
        refine ⟨j, (List.mem_cons.mp hj).resolve_left ?_, hnone⟩
        rintro rfl
        rw [hk] at hnone
        cases hnone

/-- A scan that waits for the registry comes to its body, if the registry and a slot are free and
no locked file names its account. What the other files say does not matter. -/
theorem comes_to_body (hx : st.scans s = some x) (hphase : x.phase = .waiting)
    (hregistry : st.registry = none) (hfree : ∃ k, st.holder k = none)
    (hothers : ∀ k t, st.holder k = some t → st.content k ≠ owner x.account) :
    st.Comes owner s fun last ↦ ∃ k, last.Runs s k := by
  have hall : ∀ k : Fin 2, k ∈ [0, 1] := by decide
  apply Slots.Comes.after hx
  have hnext : st.advance owner s x = (st.register (some s)).enter s x (.probing [0, 1] none) := by
    simp [Slots.advance, hphase, hregistry]
  rw [hnext]
  obtain ⟨k, hk⟩ := hfree
  have hprobed : ((st.register (some s)).enter s x (.probing [0, 1] none)).Comes owner s
      fun last ↦ ∃ r y, last.scans s = some y ∧ y.phase = .probing [] (some r) :=
    comes_to_end_of_probing [0, 1] (Slots.enter_scans ..) rfl (by decide)
      (fun j _ t ht ↦ hothers j t ht) (.inr ⟨k, hall k, hk⟩)
  apply hprobed.trans
  rintro last ⟨r, y, hy, hreserved⟩
  apply Slots.Comes.after hy
  have hempty : last.advance owner s y = (last.write r "").enter s y (.claiming r) := by
    simp [Slots.advance, hreserved]
  rw [hempty]
  apply Slots.Comes.after (Slots.enter_scans ..)
  apply Slots.Comes.after (Slots.enter_scans ..)
  exact .now ⟨r, Slots.phaseOf_of_mem (Slots.enter_scans ..)⟩

end Alone

/-! ### Exclusive slots -/

section Exclusive

variable [DecidableEq σ] [DecidableEq π]

/-- What holds of the slots after a run. -/
structure SlotsExclusive (owner : Uuid → String) (content : Fin 2 → String)
    (actions : List (Action σ π)) (st : Slots σ π) : Prop where
  bodies : ∀ bodies : Finset σ, (∀ s ∈ bodies, ∃ k, st.Runs s k) → bodies.card ≤ 2
  accounts : ∀ s t k l, st.Runs s k → st.Runs t l → st.accountOf s = st.accountOf t → s = t
  refused : ∀ s error, st.phaseOf s = some (.ended (.refused error)) →
    st.registry ≠ some s ∧ ∀ k, st.holder k ≠ some s
  /-- The account held a slot when it was tried, and its body ran. -/
  alreadyRunning : ∀ s account, st.accountOf s = some account →
    st.phaseOf s = some (.ended (.refused scanAlreadyRunning)) →
      Visited (Slots.step owner) (.fresh content) actions fun before ↦
        ∃ k t, before.Finds s k t account ∧ before.Runs t k
  /-- Each slot was held when it was tried. -/
  busy : ∀ s account, st.accountOf s = some account →
    st.phaseOf s = some (.ended (.refused scannerBusy)) →
      ∀ k, FoundLocked (Visited (Slots.step owner) (.fresh content) actions) s account k
  /-- Locks are held by scans that live, whatever the files say. -/
  live : ∀ k t, st.holder k = some t → ∃ phase, st.phaseOf t = some phase ∧ phase.Holds k
  /-- An account that holds no slot gets a free one, whatever the files say. -/
  stale : ∀ s process account, st.scans s = none → st.registry = none →
    (∃ k, st.holder k = none) → (∀ k t, st.holder k = some t → st.accountOf t ≠ some account) →
      (st.step owner (.start s process account)).Comes owner s fun last ↦ ∃ k, last.Runs s k

/-- For any number of workers and scans, whatever the files say at first, and every order of their
steps and crashes: the slots are exclusive, and answers are given for a reason.
`src/jobtology_be/resume/service.py:117–154,209–262`. -/
theorem slots_exclusive (owner : Uuid → String) (howner : Function.Injective owner)
    (hsome : ∀ account, owner account ≠ "") (content : Fin 2 → String)
    (actions : List (Action σ π)) :
    SlotsExclusive owner content actions
      (run (Slots.step owner) (Slots.fresh content) actions) := by
  have hc : Consistent owner (run (Slots.step owner) (Slots.fresh content) actions) :=
    consistent_run owner content actions
  have htraced := traced_run (σ := σ) (π := π) howner hsome content actions
  generalize run (Slots.step owner) (Slots.fresh content) actions = st at hc htraced ⊢
  have hmem {s : σ} {phase : Phase} (h : st.phaseOf s = some phase) :
      ∃ x ∈ st.scans s, x.phase = phase := by
    simpa [Slots.phaseOf] using h
  have hholder {s : σ} {k : Fin 2} (h : st.Runs s k) : st.holder k = some s := by
    obtain ⟨x, hx, hphase⟩ := hmem h
    apply (hc.holder_iff hx k).mpr
    rw [hphase]
    exact rfl
  refine ⟨fun bodies hbodies ↦ ?_, fun s t k l hs ht haccount ↦ ?_, fun s error hphase ↦ ?_,
    fun s account haccount hphase ↦ ?_, fun s account haccount hphase ↦ ?_, fun k t ht ↦ ?_,
    fun s process account hs hregistry hfree hothers ↦ ?_⟩
  · -- the slots of running bodies are different
    choose! slot hslot using hbodies
    have hcard : bodies.card ≤ (Finset.univ : Finset (Fin 2)).card := by
      apply Finset.card_le_card_of_injOn slot (fun _ _ ↦ Finset.mem_univ _)
      intro s hs t ht heq
      have hsame := hholder (hslot t ht)
      rw [← heq, hholder (hslot s hs)] at hsame
      exact Option.some_injective _ hsame
    simpa using hcard
  · by_contra hst
    obtain ⟨x, hx, hxphase⟩ := hmem hs
    obtain ⟨y, hy, hyphase⟩ := hmem ht
    rw [Slots.accountOf_of_mem hx, Slots.accountOf_of_mem hy] at haccount
    have hmay := hc.alone s t hst x hx y hy (Option.some_injective _ haccount) l hyphase
    rw [hxphase] at hmay
    exact hmay
  · obtain ⟨x, hx, hxphase⟩ := hmem hphase
    constructor
    · intro hregistry
      have hregisters := (hc.registry_iff hx).mp hregistry
      rw [hxphase] at hregisters
      exact hregisters
    · intro k hk
      have hholds := (hc.holder_iff hx k).mp hk
      rw [hxphase] at hholds
      exact hholds
  · obtain ⟨x, hx, hxphase⟩ := hmem hphase
    rw [Slots.accountOf_of_mem hx] at haccount
    cases haccount
    exact (htraced s x hx).same (.inr hxphase)
  · intro k
    obtain ⟨x, hx, hxphase⟩ := hmem hphase
    rw [Slots.accountOf_of_mem hx] at haccount
    cases haccount
    exact (htraced s x hx).passed k (.inr (.inr hxphase))
  · obtain ⟨y, hy, hholds⟩ := (hc.holder k t).mp ht
    exact ⟨y.phase, Slots.phaseOf_of_mem hy, hholds⟩
  · simp only [Slots.step, hs]
    refine comes_to_body (Slots.enter_scans ..) rfl hregistry hfree fun k t ht ↦ ?_
    obtain ⟨y, hy, hholds⟩ := (hc.holder k t).mp ht
    have hother : y.account ≠ account := by
      rintro rfl
      exact hothers k t ht (Slots.accountOf_of_mem hy)
    have hnot : ¬ y.phase.Registers := by
      intro hregisters
      rw [(hc.registry_iff hy).mpr hregisters] at hregistry
      cases hregistry
    have htext := hc.text t y hy k
    show st.content k ≠ owner account
    rcases Phase.body_of_holds hholds hnot with hrunning | hemptied
    · rw [hrunning] at htext
      rw [htext rfl]
      exact fun heq ↦ hother (howner heq)
    · rw [hemptied] at htext
      rw [htext rfl]
      exact (hsome account).symm

/-- The texts of two accounts, their digests by SHA-256, and other texts for the others. -/
def sampleOwner (account : Uuid) : String :=
  if account = 1 then "7c3ccd10bb7ec37b46d37926ae6274267f007a34aeaf15c882a715a7f3300529"
  else if account = 2 then "692865c9a376a1a82d161b0f9578595554873797fa9ebbb068b797828122e61d"
  else String.ofList (List.replicate (65 + account) '0')

private theorem sampleOwner_length (account : Uuid) :
    (sampleOwner account).length =
      if account = 1 ∨ account = 2 then 64 else 65 + account := by
  unfold sampleOwner
  by_cases h1 : account = 1
  · rw [if_pos h1, if_pos (.inl h1)]
    rfl
  · by_cases h2 : account = 2
    · rw [if_neg h1, if_pos h2, if_pos (.inr h2)]
      rfl
    · rw [if_neg h1, if_neg h2, if_neg (by simp [h1, h2])]
      simp

private theorem sampleOwner_injective : Function.Injective sampleOwner := by
  intro a b h
  have hlength := congrArg String.length h
  rw [sampleOwner_length, sampleOwner_length] at hlength
  split at hlength
  · next ha =>
    split at hlength
    · next hb =>
      rcases ha with rfl | rfl <;> rcases hb with rfl | rfl
      · rfl
      · exact absurd h (by decide)
      · exact absurd h (by decide)
      · rfl
    · omega
  · split at hlength
    · omega
    · exact Nat.add_left_cancel hlength

/-- Two accounts scan; the body of the first is over and its file empty, but its slot is not closed
yet when the account comes again. -/
def returningAccount : List (Action Nat Nat) :=
  .start 0 1 1 :: List.replicate 7 (.advance 0) ++ .start 1 2 2 :: List.replicate 7 (.advance 1) ++
    .advance 0 :: .start 2 3 1 :: List.replicate 6 (.advance 2)

/-- An account that returns after its first scan. -/
theorem slots_exclusive_returning :
    SlotsExclusive sampleOwner (fun _ ↦ "") returningAccount
      (run (Slots.step sampleOwner) (Slots.fresh fun _ ↦ "") returningAccount) :=
  slots_exclusive sampleOwner sampleOwner_injective
    (fun account h ↦ by
      have hlength := congrArg String.length h
      rw [sampleOwner_length] at hlength
      split at hlength
      · cases hlength
      · have hzero : ("" : String).length = 0 := rfl
        omega)
    (fun _ ↦ "") returningAccount

/-- A slot that a scan tries, with the account of the scan that holds it. -/
def triedSlot (st : Slots Nat Nat) (s : Nat) : Option (Fin 2 × Option Uuid) :=
  match st.phaseOf s with
  | some (.probing (k :: _) _) => some (k, (st.holder k).bind st.accountOf)
  | _ => none

/-- The returning account is told that the scanner is busy, although the first slot was held by its
own scan when it was tried. -/
theorem busy_with_own_slot :
    let st := run (Slots.step sampleOwner) (Slots.fresh fun _ ↦ "") returningAccount
    st.accountOf 2 = some 1 ∧ st.phaseOf 2 = some (.ended (.refused scannerBusy)) ∧
      ¬ ∀ k, Visited (Slots.step sampleOwner) (.fresh fun _ ↦ "") returningAccount fun before ↦
        ∃ t other, before.Finds 2 k t other ∧ other ≠ 1 := by
  refine ⟨by decide +kernel, by decide +kernel, fun hall ↦ ?_⟩
  obtain ⟨before, after, heq, t, other, ⟨⟨rest, reserved, hphase⟩, ht, haccount⟩, hne⟩ := hall 0
  have htried : triedSlot (run (Slots.step sampleOwner) (Slots.fresh fun _ ↦ "") before) 2 =
      some (0, some other) := by
    simp [triedSlot, hphase, ht, haccount]
  have hown : ∀ actions ∈ returningAccount.inits,
      triedSlot (run (Slots.step sampleOwner) (Slots.fresh fun _ ↦ "") actions) 2 ∈
        [none, some (0, some 1), some (1, some 2)] := by
    decide +kernel
  have hmem := hown before ((List.mem_inits before _).mpr ⟨after, heq.symm⟩)
  rw [htried] at hmem
  simp only [List.mem_cons, Option.some.injEq, Prod.mk.injEq, List.not_mem_nil, or_false,
    reduceCtorEq, false_or, true_and] at hmem
  rcases hmem with hother | ⟨hslot, -⟩
  · exact hne hother
  · exact absurd hslot (by decide)

end Exclusive

end Jobtology.Resume
