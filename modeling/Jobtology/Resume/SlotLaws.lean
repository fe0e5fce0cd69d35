import Jobtology.Resume.Slots

/-!
# Slots are exclusive

Who holds which lock, and what a slot file says, is determined by where the scans are. What a scan
found when it tried a slot may be out of date when it answers, so answers are traced to the states
that the run passed through.
-/

namespace Jobtology.Resume

open Jobtology.Base Jobtology.Relational

variable {σ π : Type}

/-! ### One step of a scan -/

/-- What the next step of a scan does, with its guards. -/
inductive Move [DecidableEq σ] (owner : Uuid → String) (st : Slots σ π) (s : σ) (x : Scan π) :
    Slots σ π → Prop
  | lockRegistry : x.phase = .waiting → st.registry = none →
      Move owner st s x ((st.register (some s)).enter s x (.probing [0, 1] none))
  | reserve (k : Fin 2) (rest : List (Fin 2)) : x.phase = .probing (k :: rest) none →
      st.holder k = none → Move owner st s x ((st.lock k s).enter s x (.probing rest (some k)))
  | lockSurplus (k : Fin 2) (rest : List (Fin 2)) (r : Fin 2) :
      x.phase = .probing (k :: rest) (some r) → st.holder k = none →
      Move owner st s x ((st.lock k s).enter s x (.surplus k rest r))
  | blocked (k : Fin 2) (rest : List (Fin 2)) (reserved : Option (Fin 2)) (t : σ) :
      x.phase = .probing (k :: rest) reserved → st.holder k = some t →
      Move owner st s x (st.enter s x (.reading k rest reserved))
  | same (k : Fin 2) (rest : List (Fin 2)) (reserved : Option (Fin 2)) :
      x.phase = .reading k rest reserved → st.content k = owner x.account →
      Move owner st s x (st.enter s x (.sameOwner reserved))
  | other (k : Fin 2) (rest : List (Fin 2)) (reserved : Option (Fin 2)) :
      x.phase = .reading k rest reserved → st.content k ≠ owner x.account →
      Move owner st s x (st.enter s x (.probing rest reserved))
  | closeSurplus (k : Fin 2) (rest : List (Fin 2)) (r : Fin 2) : x.phase = .surplus k rest r →
      Move owner st s x ((st.close k).enter s x (.probing rest (some r)))
  | closeReserved (r : Fin 2) : x.phase = .sameOwner (some r) →
      Move owner st s x ((st.close r).enter s x (.sameOwner none))
  | refuse : x.phase = .sameOwner none →
      Move owner st s x ((st.register none).enter s x (.ended (.refused scanAlreadyRunning)))
  | busy : x.phase = .probing [] none →
      Move owner st s x ((st.register none).enter s x (.ended (.refused scannerBusy)))
  | empty (r : Fin 2) : x.phase = .probing [] (some r) →
      Move owner st s x ((st.write r "").enter s x (.claiming r))
  | claim (r : Fin 2) : x.phase = .claiming r →
      Move owner st s x ((st.write r (owner x.account)).enter s x (.claimed r))
  | closeRegistry (r : Fin 2) : x.phase = .claimed r →
      Move owner st s x ((st.register none).enter s x (.running r))
  | finish (r : Fin 2) : x.phase = .running r →
      Move owner st s x ((st.write r "").enter s x (.emptied r))
  | release (r : Fin 2) : x.phase = .emptied r →
      Move owner st s x ((st.close r).enter s x (.ended .completed))

/-- A scan makes a move, or it waits. -/
theorem advance_move [DecidableEq σ] (owner : Uuid → String) (st : Slots σ π) (s : σ) (x : Scan π) :
    st.advance owner s x = st ∨ Move owner st s x (st.advance owner s x) := by
  unfold Slots.advance
  split
  · next hphase =>
    split
    · next hfree => exact .inr (.lockRegistry hphase hfree)
    · exact .inl rfl
  · next k rest reserved hphase =>
    right
    cases hk : st.holder k with
    | none =>
      rw [if_pos rfl]
      cases reserved with
      | none => exact .reserve k rest hphase hk
      | some r => exact .lockSurplus k rest r hphase hk
    | some t =>
      rw [if_neg (by simp)]
      exact .blocked k rest reserved t hphase hk
  · next k rest reserved hphase =>
    right
    split
    · next heq => exact .same k rest reserved hphase heq
    · next hne => exact .other k rest reserved hphase hne
  · next k rest r hphase => exact .inr (.closeSurplus k rest r hphase)
  · next r hphase => exact .inr (.closeReserved r hphase)
  · next hphase => exact .inr (.refuse hphase)
  · next hphase => exact .inr (.busy hphase)
  · next r hphase => exact .inr (.empty r hphase)
  · next r hphase => exact .inr (.claim r hphase)
  · next r hphase => exact .inr (.closeRegistry r hphase)
  · next r hphase => exact .inr (.finish r hphase)
  · next r hphase => exact .inr (.release r hphase)
  · exact .inl rfl
  · exact .inl rfl

/-! ### What the scans determine -/

namespace Phase

/-- The slots that a scan holds. -/
def Holds (k : Fin 2) : Phase → Prop
  | .probing _ reserved | .reading _ _ reserved | .sameOwner reserved => reserved = some k
  | .surplus i _ r => k = i ∨ k = r
  | .claiming r | .claimed r | .running r | .emptied r => k = r
  | .waiting | .ended _ | .crashed => False

/-- A scan holds the registry. -/
def Registers : Phase → Prop
  | .probing _ _ | .reading _ _ _ | .surplus _ _ _ | .sameOwner _ | .claiming _ | .claimed _ => True
  | .waiting | .running _ | .emptied _ | .ended _ | .crashed => False

/-- What the file of a slot says while a scan holds it. -/
def Shows (owner : String) (k : Fin 2) (text : String) : Phase → Prop
  | .claimed r | .running r => k = r → text = owner
  | .claiming r | .emptied r => k = r → text = ""
  | _ => True

/-- A scan may still find the slot of a running one of its account. -/
def MayFind (k : Fin 2) : Phase → Prop
  | .probing rest _ | .surplus _ rest _ => k ∈ rest
  | .reading i rest _ => k = i ∨ k ∈ rest
  | .claiming _ | .claimed _ | .running _ => False
  | .waiting | .sameOwner _ | .emptied _ | .ended _ | .crashed => True

/-- No slot is tried twice, and the reserved one is not tried again. -/
def Distinct : Phase → Prop
  | .probing rest reserved => rest.Nodup ∧ ∀ r ∈ reserved, r ∉ rest
  | .reading i rest reserved => (i :: rest).Nodup ∧ ∀ r ∈ reserved, r ∉ i :: rest
  | .surplus i rest r => (i :: rest).Nodup ∧ r ∉ i :: rest
  | _ => True

end Phase

/-- The locks and texts agree with where the scans are, and no scan has passed the slot of a running
one of its account. -/
structure Consistent (owner : Uuid → String) (st : Slots σ π) : Prop where
  holder : ∀ k s, st.holder k = some s ↔ ∃ x ∈ st.scans s, x.phase.Holds k
  registry : ∀ s, st.registry = some s ↔ ∃ x ∈ st.scans s, x.phase.Registers
  text : ∀ s, ∀ x ∈ st.scans s, ∀ k, x.phase.Shows (owner x.account) k (st.content k)
  distinct : ∀ s, ∀ x ∈ st.scans s, x.phase.Distinct
  alone : ∀ s t, s ≠ t → ∀ x ∈ st.scans s, ∀ y ∈ st.scans t, x.account = y.account →
    ∀ k, y.phase = .running k → x.phase.MayFind k

/-- What a move to a phase does: the locks of the scan become those of the phase, it locks only
what is free, and it writes only to slots that it holds. -/
structure Effect [DecidableEq σ] (owner : Uuid → String) (st : Slots σ π) (s : σ) (x : Scan π)
    (phase : Phase) (st' : Slots σ π) : Prop where
  scans : st'.scans = Function.update st.scans s (some { x with phase := phase })
  held : ∀ k, phase.Holds k → st'.holder k = some s
  closed : ∀ k, ¬ phase.Holds k → x.phase.Holds k → st'.holder k = none
  kept : ∀ k, ¬ phase.Holds k → ¬ x.phase.Holds k → st'.holder k = st.holder k
  free : ∀ k, phase.Holds k → ¬ x.phase.Holds k → st.holder k = none
  registered : phase.Registers → st'.registry = some s
  unregistered : ¬ phase.Registers → x.phase.Registers → st'.registry = none
  registryKept : ¬ phase.Registers → ¬ x.phase.Registers → st'.registry = st.registry
  registryFree : phase.Registers → ¬ x.phase.Registers → st.registry = none
  textKept : ∀ k, ¬ x.phase.Holds k → st'.content k = st.content k
  shown : ∀ k, phase.Shows (owner x.account) k (st'.content k)
  distinct : phase.Distinct
  /-- A slot that is passed is free, or the file names another owner. -/
  passed : ∀ k, x.phase.MayFind k → ¬ phase.MayFind k →
    st.holder k = none ∨ st.content k ≠ owner x.account
  started : ∀ k, phase = .running k → x.phase = .claimed k
  ended : ∀ k, x.phase = .running k ∨ x.phase = .emptied k →
    phase = .emptied k ∨ phase = .ended .completed
  alive : x.phase ≠ .crashed ∧ ∀ outcome, x.phase ≠ .ended outcome
  textEmptied : ¬ x.phase.Registers → ∀ k, st'.content k = st.content k ∨ st'.content k = ""

section Step

variable {owner : Uuid → String} {st st' : Slots σ π} {s : σ} {x : Scan π}

/-- A scan holds a slot exactly in the phases that hold it. -/
theorem Consistent.holder_iff (h : Consistent owner st) (hx : x ∈ st.scans s) (k : Fin 2) :
    st.holder k = some s ↔ x.phase.Holds k := by
  rw [h.holder]
  constructor
  · rintro ⟨y, hy, hholds⟩
    obtain rfl := Option.mem_unique hx hy
    exact hholds
  · exact fun hholds ↦ ⟨x, hx, hholds⟩

/-- A scan holds the registry exactly in the phases that register. -/
theorem Consistent.registry_iff (h : Consistent owner st) (hx : x ∈ st.scans s) :
    st.registry = some s ↔ x.phase.Registers := by
  rw [h.registry]
  constructor
  · rintro ⟨y, hy, hregisters⟩
    obtain rfl := Option.mem_unique hx hy
    exact hregisters
  · exact fun hregisters ↦ ⟨x, hx, hregisters⟩

/-- Two scans do not hold the registry. -/
theorem Consistent.registers_unique (h : Consistent owner st) {t : σ} {y : Scan π}
    (hx : x ∈ st.scans s) (hy : y ∈ st.scans t) (hs : x.phase.Registers)
    (ht : y.phase.Registers) : s = t := by
  have hs' := (h.registry_iff hx).mpr hs
  have ht' := (h.registry_iff hy).mpr ht
  exact Option.some_injective _ (hs'.symm.trans ht')

/-- Each move sets one lock, one text or neither. -/
theorem Move.effect [DecidableEq σ] (hm : Move owner st s x st') (h : Consistent owner st)
    (hx : x ∈ st.scans s) : ∃ phase, Effect owner st s x phase st' := by
  have hholder := h.holder_iff hx
  have hregistry := h.registry_iff hx
  have htext := h.text s x hx
  have hdistinct := h.distinct s x hx
  cases hm
  all_goals
    rename_i hphase
    refine ⟨_, rfl, ?_, ?_, ?_, ?_, ?_, ?_, ?_, ?_, ?_, ?_, ?_, ?_, ?_, ?_, ?_, ?_⟩ <;>
      simp_all [Slots.enter, Slots.register, Slots.lock, Slots.close, Slots.write, Phase.Holds,
        Phase.Registers, Phase.Shows, Phase.Distinct, Phase.MayFind, Function.update_apply] <;>
      grind

section Effects

variable [DecidableEq σ] {phase : Phase} {t : σ} {y : Scan π}

/-- After a move the scan is where it moved to, and the others are where they were. -/
theorem Effect.mem_scans (he : Effect owner st s x phase st') :
    y ∈ st'.scans t ↔ (t = s ∧ y = { x with phase := phase }) ∨ (t ≠ s ∧ y ∈ st.scans t) := by
  rw [he.scans, Option.mem_def, Function.update_apply]
  by_cases hts : t = s
  · simp [hts, eq_comm]
  · simp [hts]

/-- A move leaves the locks of the others alone. -/
theorem Effect.holder_other (he : Effect owner st s x phase st') (h : Consistent owner st)
    (hx : x ∈ st.scans s) (hts : t ≠ s) (k : Fin 2) :
    st'.holder k = some t ↔ st.holder k = some t := by
  by_cases hheld : phase.Holds k
  · have hnew := he.held k hheld
    constructor
    · intro ht
      rw [hnew] at ht
      exact absurd (Option.some_injective _ ht).symm hts
    · intro ht
      by_cases hbefore : x.phase.Holds k
      · rw [(h.holder_iff hx k).mpr hbefore] at ht
        exact absurd (Option.some_injective _ ht).symm hts
      · rw [he.free k hheld hbefore] at ht
        cases ht
  · by_cases hbefore : x.phase.Holds k
    · rw [he.closed k hheld hbefore, (h.holder_iff hx k).mpr hbefore]
      constructor
      · intro ht
        cases ht
      · intro ht
        exact absurd (Option.some_injective _ ht).symm hts
    · rw [he.kept k hheld hbefore]

private theorem Effect.registry_other (he : Effect owner st s x phase st') (h : Consistent owner st)
    (hx : x ∈ st.scans s) (hts : t ≠ s) : st'.registry = some t ↔ st.registry = some t := by
  by_cases hheld : phase.Registers
  · have hnew := he.registered hheld
    constructor
    · intro ht
      rw [hnew] at ht
      exact absurd (Option.some_injective _ ht).symm hts
    · intro ht
      by_cases hbefore : x.phase.Registers
      · rw [(h.registry_iff hx).mpr hbefore] at ht
        exact absurd (Option.some_injective _ ht).symm hts
      · rw [he.registryFree hheld hbefore] at ht
        cases ht
  · by_cases hbefore : x.phase.Registers
    · rw [he.unregistered hheld hbefore, (h.registry_iff hx).mpr hbefore]
      constructor
      · intro ht
        cases ht
      · intro ht
        exact absurd (Option.some_injective _ ht).symm hts
    · rw [he.registryKept hheld hbefore]

/-- A move does not write to a slot that another scan holds. -/
theorem Effect.content_other (he : Effect owner st s x phase st') (h : Consistent owner st)
    (hx : x ∈ st.scans s) (hts : t ≠ s) {k : Fin 2} (ht : st.holder k = some t) :
    st'.content k = st.content k := by
  apply he.textKept
  intro hholds
  rw [(h.holder_iff hx k).mpr hholds] at ht
  exact hts (Option.some_injective _ ht).symm

/-- What a file shows matters to a scan only while it holds the slot. -/
theorem Phase.shows_of_not_holds {text owner : String} {k : Fin 2} {phase : Phase}
    (h : ¬ phase.Holds k) : phase.Shows owner k text := by
  cases phase <;> simp_all [Phase.Holds, Phase.Shows]

end Effects

/-- A scan that neither holds the registry nor runs may find every slot. -/
theorem Phase.mayFind_of_outside {phase : Phase} {k : Fin 2} (hregistry : ¬ phase.Registers)
    (hrunning : ∀ r, phase ≠ .running r) : phase.MayFind k := by
  cases phase with
  | running r => exact absurd rfl (hrunning r)
  | probing rest reserved => exact absurd trivial hregistry
  | reading index rest reserved => exact absurd trivial hregistry
  | surplus index rest r => exact absurd trivial hregistry
  | claiming r => exact absurd trivial hregistry
  | claimed r => exact absurd trivial hregistry
  | _ => trivial

/-- A move keeps the locks and texts in agreement with the scans. -/
theorem Effect.consistent [DecidableEq σ] {phase : Phase} (he : Effect owner st s x phase st')
    (h : Consistent owner st) (hx : x ∈ st.scans s) : Consistent owner st' := by
  constructor
  case holder =>
    intro k t
    by_cases hts : t = s
    · subst hts
      have hself : (∃ y ∈ st'.scans t, y.phase.Holds k) ↔ phase.Holds k := by
        simp [he.mem_scans]
      rw [hself]
      constructor
      · intro ht
        by_contra hheld
        by_cases hbefore : x.phase.Holds k
        · rw [he.closed k hheld hbefore] at ht
          cases ht
        · rw [he.kept k hheld hbefore] at ht
          exact hbefore ((h.holder_iff hx k).mp ht)
      · exact he.held k
    · rw [he.holder_other h hx hts, h.holder]
      simp [he.mem_scans, hts]
  case registry =>
    intro t
    by_cases hts : t = s
    · subst hts
      have hself : (∃ y ∈ st'.scans t, y.phase.Registers) ↔ phase.Registers := by
        simp [he.mem_scans]
      rw [hself]
      constructor
      · intro ht
        by_contra hheld
        by_cases hbefore : x.phase.Registers
        · rw [he.unregistered hheld hbefore] at ht
          cases ht
        · rw [he.registryKept hheld hbefore] at ht
          exact hbefore ((h.registry_iff hx).mp ht)
      · exact he.registered
    · rw [he.registry_other h hx hts, h.registry]
      simp [he.mem_scans, hts]
  case text =>
    intro t y hy k
    rcases he.mem_scans.mp hy with ⟨-, rfl⟩ | ⟨hts, hy⟩
    · exact he.shown k
    · by_cases hholds : y.phase.Holds k
      · rw [he.content_other h hx hts ((h.holder_iff hy k).mpr hholds)]
        exact h.text t y hy k
      · exact Phase.shows_of_not_holds hholds
  case distinct =>
    intro t y hy
    rcases he.mem_scans.mp hy with ⟨-, rfl⟩ | ⟨-, hy⟩
    · exact he.distinct
    · exact h.distinct t y hy
  case alone =>
    intro t u htu y hy z hz haccount k hruns
    rcases he.mem_scans.mp hy with ⟨rfl, rfl⟩ | ⟨hts, hy⟩
    · -- the scan that moves has not passed the slot of a running one
      obtain ⟨-, hz⟩ := (he.mem_scans.mp hz).resolve_left fun hu ↦ htu hu.1.symm
      have hbefore := h.alone t u htu x hx z hz haccount k hruns
      by_contra hpassed
      have hholds : z.phase.Holds k := by
        rw [hruns]
        exact rfl
      rcases he.passed k hbefore hpassed with hfree | hother
      · rw [(h.holder_iff hz k).mpr hholds] at hfree
        cases hfree
      · have htext := h.text u z hz k
        rw [hruns] at htext
        exact hother ((htext rfl).trans (congrArg owner haccount.symm))
    · rcases he.mem_scans.mp hz with ⟨rfl, rfl⟩ | ⟨hus, hz⟩
      · -- a scan that starts to run holds the registry
        have hclaimed := he.started k hruns
        have hregisters : x.phase.Registers := by
          rw [hclaimed]
          trivial
        apply Phase.mayFind_of_outside
        · exact fun hy' ↦ hts (h.registers_unique hy hx hy' hregisters)
        · intro r hr
          have hmay := h.alone u t (Ne.symm hts) x hx y hy haccount.symm r hr
          rw [hclaimed] at hmay
          exact hmay
      · exact h.alone t u htu y hy z hz haccount k hruns

/-- A new scan holds nothing. -/
theorem Consistent.start [DecidableEq σ] (h : Consistent owner st) (hnew : st.scans s = none)
    (process : π) (account : Uuid) :
    Consistent owner (st.enter s ⟨process, account, .waiting⟩ .waiting) := by
  have hmem (t : σ) (y : Scan π) : y ∈ (st.enter s ⟨process, account, .waiting⟩ .waiting).scans t ↔
      (t = s ∧ y = ⟨process, account, .waiting⟩) ∨ y ∈ st.scans t := by
    show Function.update st.scans s (some ⟨process, account, .waiting⟩) t = some y ↔ _
    rw [Function.update_apply]
    by_cases hts : t = s
    · simp [hts, hnew, eq_comm]
    · simp [hts]
  constructor
  case holder =>
    intro k t
    rw [show (st.enter s ⟨process, account, .waiting⟩ .waiting).holder k = st.holder k from rfl,
      h.holder]
    simp only [hmem, or_and_right, exists_or]
    simp [Phase.Holds]
  case registry =>
    intro t
    rw [show (st.enter s ⟨process, account, .waiting⟩ .waiting).registry = st.registry from rfl,
      h.registry]
    simp only [hmem, or_and_right, exists_or]
    simp [Phase.Registers]
  case text =>
    intro t y hy k
    rcases (hmem t y).mp hy with ⟨-, rfl⟩ | hy
    · trivial
    · exact h.text t y hy k
  case distinct =>
    intro t y hy
    rcases (hmem t y).mp hy with ⟨-, rfl⟩ | hy
    · trivial
    · exact h.distinct t y hy
  case alone =>
    intro t u htu y hy z hz haccount k hruns
    rcases (hmem t y).mp hy with ⟨-, rfl⟩ | hy
    · trivial
    · rcases (hmem u z).mp hz with ⟨-, rfl⟩ | hz
      · cases hruns
      · exact h.alone t u htu y hy z hz haccount k hruns

section Crash

variable [DecidableEq π] {process : π}

/-- A scan survives the death of a process, or it crashes. -/
theorem crashScan_cases (process : π) (x : Scan π) :
    (Slots.crashScan process x = x ∧
        ∀ k, x.phase.Holds k ∨ x.phase.Registers → x.process ≠ process) ∨
      (Slots.crashScan process x = { x with phase := .crashed } ∧ x.process = process) := by
  unfold Slots.crashScan
  split
  · next hphase =>
    left
    refine ⟨rfl, fun k hk ↦ ?_⟩
    rw [hphase] at hk
    exact absurd hk (by simp [Phase.Holds, Phase.Registers])
  · by_cases hp : x.process = process
    · rw [if_pos hp]
      exact .inr ⟨rfl, hp⟩
    · rw [if_neg hp]
      exact .inl ⟨rfl, fun _ _ ↦ hp⟩

/-- The locks of a process that dies are dropped. -/
theorem Consistent.crash [DecidableEq σ] (h : Consistent owner st) (process : π) :
    Consistent owner (st.step owner (.crash process)) := by
  have hmem (t : σ) (y : Scan π) : y ∈ (st.step owner (.crash process)).scans t ↔
      ∃ x ∈ st.scans t, Slots.crashScan process x = y := by
    unfold Slots.step
    simp
  have hheld (t : σ) (x : Scan π) (hx : x ∈ st.scans t) :
      st.HeldBy process (some t) ↔ x.process = process := by
    unfold Slots.HeldBy
    simp only [Option.mem_def] at hx
    simp [hx]
  constructor
  case holder =>
    intro k t
    show (if st.HeldBy process (st.holder k) then none else st.holder k) = some t ↔ _
    constructor
    · intro ht
      split at ht
      · cases ht
      · next hnot =>
        obtain ⟨x, hx, hholds⟩ := (h.holder k t).mp ht
        rw [ht, hheld t x hx] at hnot
        rcases crashScan_cases process x with ⟨hsame, -⟩ | ⟨-, hdies⟩
        · exact ⟨x, (hmem t x).mpr ⟨x, hx, hsame⟩, hholds⟩
        · exact absurd hdies hnot
    · rintro ⟨y, hy, hholds⟩
      obtain ⟨x, hx, rfl⟩ := (hmem t y).mp hy
      rcases crashScan_cases process x with ⟨hsame, hlives⟩ | ⟨hcrashed, -⟩
      · rw [hsame] at hholds
        have ht := (h.holder_iff hx k).mpr hholds
        rw [ht, if_neg (mt (hheld t x hx).mp (hlives k (.inl hholds)))]
      · rw [hcrashed] at hholds
        cases hholds
  case registry =>
    intro t
    show (if st.HeldBy process st.registry then none else st.registry) = some t ↔ _
    constructor
    · intro ht
      split at ht
      · cases ht
      · next hnot =>
        obtain ⟨x, hx, hregisters⟩ := (h.registry t).mp ht
        rw [ht, hheld t x hx] at hnot
        rcases crashScan_cases process x with ⟨hsame, -⟩ | ⟨-, hdies⟩
        · exact ⟨x, (hmem t x).mpr ⟨x, hx, hsame⟩, hregisters⟩
        · exact absurd hdies hnot
    · rintro ⟨y, hy, hregisters⟩
      obtain ⟨x, hx, rfl⟩ := (hmem t y).mp hy
      rcases crashScan_cases process x with ⟨hsame, hlives⟩ | ⟨hcrashed, -⟩
      · rw [hsame] at hregisters
        have ht := (h.registry_iff hx).mpr hregisters
        rw [ht, if_neg (mt (hheld t x hx).mp (hlives 0 (.inr hregisters)))]
      · rw [hcrashed] at hregisters
        cases hregisters
  case text =>
    intro t y hy k
    obtain ⟨x, hx, rfl⟩ := (hmem t y).mp hy
    rcases crashScan_cases process x with ⟨hsame, -⟩ | ⟨hcrashed, -⟩
    · rw [hsame]
      exact h.text t x hx k
    · rw [hcrashed]
      trivial
  case distinct =>
    intro t y hy
    obtain ⟨x, hx, rfl⟩ := (hmem t y).mp hy
    rcases crashScan_cases process x with ⟨hsame, -⟩ | ⟨hcrashed, -⟩
    · rw [hsame]
      exact h.distinct t x hx
    · rw [hcrashed]
      trivial
  case alone =>
    intro t u htu y hy z hz haccount k hruns
    obtain ⟨x, hx, rfl⟩ := (hmem t y).mp hy
    obtain ⟨w, hw, rfl⟩ := (hmem u z).mp hz
    rcases crashScan_cases process x with ⟨hsame, -⟩ | ⟨hcrashed, -⟩
    · rcases crashScan_cases process w with ⟨hsame', -⟩ | ⟨hcrashed', -⟩
      · rw [hsame] at haccount ⊢
        rw [hsame'] at haccount hruns
        exact h.alone t u htu x hx w hw haccount k hruns
      · rw [hcrashed'] at hruns
        cases hruns
    · rw [hcrashed]
      trivial

end Crash

/-- Every action keeps the locks and texts in agreement with the scans. -/
theorem Consistent.step [DecidableEq σ] [DecidableEq π] (h : Consistent owner st)
    (action : Action σ π) : Consistent owner (st.step owner action) := by
  cases action with
  | start s process account =>
    cases hs : st.scans s with
    | none =>
      simp only [Slots.step, hs]
      exact h.start hs process account
    | some x =>
      simp only [Slots.step, hs]
      exact h
  | advance s =>
    cases hs : st.scans s with
    | none =>
      simp only [Slots.step, hs]
      exact h
    | some x =>
      simp only [Slots.step, hs]
      rcases advance_move owner st s x with hwait | hmove
      · rw [hwait]
        exact h
      · obtain ⟨phase, he⟩ := hmove.effect h hs
        exact he.consistent h hs
  | crash process => exact h.crash process

private theorem consistent_fresh (owner : Uuid → String) (content : Fin 2 → String) :
    Consistent owner (Slots.fresh content : Slots σ π) := by
  constructor <;> simp [Slots.fresh]

/-- The locks and texts agree with the scans after every run. -/
theorem consistent_run [DecidableEq σ] [DecidableEq π] (owner : Uuid → String)
    (content : Fin 2 → String) (actions : List (Action σ π)) :
    Consistent owner (run (Slots.step owner) (Slots.fresh content) actions) :=
  run_induction (fun _ action h ↦ h.step action) (consistent_fresh owner content) actions

end Step

end Jobtology.Resume
