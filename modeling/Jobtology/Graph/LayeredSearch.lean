import Mathlib.Algebra.Order.Ring.Int
import Mathlib.Data.List.Perm.Subperm
import Mathlib.Data.Nat.Find

/-!
# Layered search with a limit

Library for a search that goes outwards from its roots in rounds and keeps a bounded number of
nodes: distances along a step relation, one round, a run, and what a run has kept at its end. It
does not say in which order a round takes its nodes.
-/

namespace Jobtology.Graph

universe u

variable {α : Type u} {root : α → Prop} {step step' : α → α → Prop} {limit : Int}
  {a b : α} {d : Nat} {kept frontier next result : List α}

/-- A walk of so many steps from a root. -/
inductive Walk (root : α → Prop) (step : α → α → Prop) : Nat → α → Prop
  | root {a : α} : root a → Walk root step 0 a
  | step {d : Nat} {a b : α} : Walk root step d a → step a b → Walk root step (d + 1) b

/-- The shortest walk from a root has so many steps. -/
def AtDistance (root : α → Prop) (step : α → α → Prop) (d : Nat) (a : α) : Prop :=
  Walk root step d a ∧ ∀ e < d, ¬ Walk root step e a

/-- Some walk from a root has at most so many steps. -/
def Within (root : α → Prop) (step : α → α → Prop) (d : Nat) (a : α) : Prop :=
  ∃ e ≤ d, Walk root step e a

/-- A walk of no steps ends at a root. -/
theorem walk_zero : Walk root step 0 a ↔ root a := by
  constructor
  · intro h
    cases h
    assumption
  · exact .root

/-- A walk is one step longer than another. -/
theorem walk_succ : Walk root step (d + 1) b ↔ ∃ a, Walk root step d a ∧ step a b := by
  constructor
  · intro h
    cases h with
    | step hwalk hstep => exact ⟨_, hwalk, hstep⟩
  · rintro ⟨a, hwalk, hstep⟩
    exact hwalk.step hstep

/-- A set with the roots that no step leaves has every walk. -/
theorem Walk.mem_of_closed {s : α → Prop} (hroot : ∀ a, root a → s a)
    (hstep : ∀ a b, s a → step a b → s b) (h : Walk root step d a) : s a := by
  induction h with
  | root hr => exact hroot _ hr
  | step _ hs ih => exact hstep _ _ ih hs

/-- More steps leave the walks. -/
theorem Walk.mono (hsub : ∀ a b, step a b → step' a b) (h : Walk root step d a) :
    Walk root step' d a := by
  induction h with
  | root hr => exact .root hr
  | step _ hs ih => exact ih.step (hsub _ _ hs)

/-- One step leads at most one further. -/
theorem Within.succ (h : Within root step d a) (hs : step a b) : Within root step (d + 1) b := by
  obtain ⟨e, he, hwalk⟩ := h
  exact ⟨e + 1, Nat.succ_le_succ he, hwalk.step hs⟩

/-- A greater distance allows more. -/
theorem Within.mono {e : Nat} (h : Within root step d a) (hde : d ≤ e) : Within root step e a := by
  obtain ⟨m, hm, hwalk⟩ := h
  exact ⟨m, hm.trans hde, hwalk⟩

/-- What is at a distance is within it. -/
theorem AtDistance.within (h : AtDistance root step d a) : Within root step d a :=
  ⟨d, le_refl d, h.1⟩

/-- A node within a distance has a distance. -/
theorem Within.exists_atDistance (h : Within root step d a) :
    ∃ e ≤ d, AtDistance root step e a := by
  classical
  obtain ⟨m, hm, hwalk⟩ := h
  have hex : ∃ e, Walk root step e a := ⟨m, hwalk⟩
  exact ⟨Nat.find hex, (Nat.find_min' hex hwalk).trans hm, Nat.find_spec hex,
    fun e he ↦ Nat.find_min hex he⟩

/-- The distance is the least bound. -/
theorem AtDistance.le_of_within {e : Nat} (h : AtDistance root step d a)
    (hw : Within root step e a) : d ≤ e := by
  obtain ⟨m, hm, hwalk⟩ := hw
  by_contra hlt
  exact h.2 m (by omega) hwalk

/-- A node beyond the roots has a node before it that is one step nearer. -/
theorem AtDistance.exists_before (h : AtDistance root step (d + 1) b) :
    ∃ a, AtDistance root step d a ∧ step a b := by
  obtain ⟨a, hwalk, hs⟩ := walk_succ.mp h.1
  refine ⟨a, ⟨hwalk, fun e he hshort ↦ ?_⟩, hs⟩
  exact h.2 (e + 1) (Nat.succ_lt_succ he) (hshort.step hs)

/-! ### Rounds -/

/-- What a round takes from the nodes that a step of the frontier reaches: new nodes, as many as
the limit leaves room for, and all of them where there is room. -/
structure Round (step : α → α → Prop) (limit : Int) (kept frontier next : List α) : Prop where
  nodup : next.Nodup
  fresh : ∀ b ∈ next, b ∉ kept
  reached : ∀ b ∈ next, ∃ a ∈ frontier, step a b
  bounded : next ≠ [] → ((kept ++ next).length : Int) ≤ limit
  filled : (∀ a ∈ frontier, ∀ b, step a b → b ∈ kept ++ next) ∨
    limit ≤ ((kept ++ next).length : Int)

/-- A run of at most so many rounds, which ends early when a round takes nothing. -/
inductive Rounds (step : α → α → Prop) (limit : Int) :
    Nat → List α → List α → List α → Prop
  | done {kept frontier : List α} : Rounds step limit 0 kept frontier kept
  | stop {rounds : Nat} {kept frontier : List α} :
      Round step limit kept frontier [] → Rounds step limit (rounds + 1) kept frontier kept
  | round {rounds : Nat} {kept frontier next result : List α} :
      Round step limit kept frontier next → next ≠ [] →
      Rounds step limit rounds (kept ++ next) next result →
      Rounds step limit (rounds + 1) kept frontier result

/-- All nodes within a distance are kept and those at the distance are next to be searched. -/
structure Full (root : α → Prop) (step : α → α → Prop) (d : Nat) (kept frontier : List α) :
    Prop where
  kept_iff : ∀ b, b ∈ kept ↔ Within root step d b
  frontier_iff : ∀ b, b ∈ frontier ↔ AtDistance root step d b

/-- What a search has kept at its end. -/
structure Layered (root : α → Prop) (step : α → α → Prop) (limit : Int) (rounds : Nat)
    (result : List α) : Prop where
  within : ∀ b ∈ result, Within root step rounds b
  layered : ∀ d b c, AtDistance root step (d + 1) b → b ∈ result →
    AtDistance root step d c → c ∈ result
  filled : (∀ b, Within root step rounds b → b ∈ result) ∨ limit ≤ (result.length : Int)

/-- All roots are at distance zero. -/
theorem full_roots {roots : List α} : Full (· ∈ roots) step 0 roots roots where
  kept_iff b := by
    constructor
    · intro hb
      exact ⟨0, le_refl 0, .root hb⟩
    · rintro ⟨e, he, hwalk⟩
      obtain rfl := Nat.le_zero.mp he
      exact walk_zero.mp hwalk
  frontier_iff b := by
    constructor
    · intro hb
      exact ⟨.root hb, fun e he ↦ absurd he (Nat.not_lt_zero e)⟩
    · intro h
      exact walk_zero.mp h.1

/-- A round from a full layer stays within the next distance. -/
theorem Full.within_next (h : Full root step d kept frontier)
    (hround : Round step limit kept frontier next) (hb : b ∈ kept ++ next) :
    Within root step (d + 1) b := by
  rcases List.mem_append.mp hb with hkept | hnext
  · exact ((h.kept_iff b).mp hkept).mono (Nat.le_succ d)
  · obtain ⟨a, ha, hs⟩ := hround.reached b hnext
    exact ((h.frontier_iff a).mp ha).within.succ hs

/-- A round with room for all takes exactly the next layer. -/
theorem Full.nextLayer (h : Full root step d kept frontier)
    (hround : Round step limit kept frontier next)
    (hall : ∀ a ∈ frontier, ∀ b, step a b → b ∈ kept ++ next) :
    Full root step (d + 1) (kept ++ next) next := by
  have hkept : ∀ b, b ∈ kept ++ next ↔ Within root step (d + 1) b := by
    intro b
    constructor
    · exact h.within_next hround
    · intro hw
      obtain ⟨e, he, hat⟩ := hw.exists_atDistance
      rcases Nat.lt_or_eq_of_le he with hlt | rfl
      · exact List.mem_append_left _
          ((h.kept_iff b).mpr (hat.within.mono (Nat.le_of_lt_succ hlt)))
      · obtain ⟨a, ha, hs⟩ := hat.exists_before
        exact hall a ((h.frontier_iff a).mpr ha) b hs
  refine ⟨hkept, fun b ↦ ?_⟩
  constructor
  · intro hnext
    obtain ⟨a, ha, hs⟩ := hround.reached b hnext
    refine ⟨((h.frontier_iff a).mp ha).1.step hs, fun e he hshort ↦ ?_⟩
    exact hround.fresh b hnext ((h.kept_iff b).mpr ⟨e, Nat.le_of_lt_succ he, hshort⟩)
  · intro hat
    rcases List.mem_append.mp ((hkept b).mpr hat.within) with hold | hnext
    · have hle : d + 1 ≤ d := hat.le_of_within ((h.kept_iff b).mp hold)
      omega
    · exact hnext

/-- A layer that leads to nothing new has every walk. -/
theorem Full.all (h : Full root step d kept frontier) (hend : Full root step (d + 1) kept next)
    {e : Nat} (hwalk : Walk root step e b) : b ∈ kept := by
  apply hwalk.mem_of_closed (s := (· ∈ kept))
  · intro a ha
    exact (h.kept_iff a).mpr ⟨0, Nat.zero_le d, .root ha⟩
  · intro a c ha hs
    exact (hend.kept_iff c).mpr (((h.kept_iff a).mp ha).succ hs)

/-- A run that has reached its limit keeps nothing more. -/
theorem Rounds.eq_kept {rounds : Nat} (h : Rounds step limit rounds kept frontier result)
    (hlimit : limit ≤ (kept.length : Int)) : result = kept := by
  cases h with
  | done => rfl
  | stop _ => rfl
  | round hround hne _ =>
    exfalso
    have hbound := hround.bounded hne
    have hpos := List.length_pos_iff.mpr hne
    rw [List.length_append, Nat.cast_add] at hbound
    omega

/-- A run keeps no more than the limit, or nothing beyond what it had. -/
theorem Rounds.length_le {rounds : Nat} (h : Rounds step limit rounds kept frontier result) :
    (result.length : Int) ≤ max limit kept.length := by
  induction h with
  | done => exact le_max_right _ _
  | stop _ => exact le_max_right _ _
  | round hround hne _ ih =>
    apply le_max_of_le_left
    exact ih.trans (max_le (le_refl limit) (hround.bounded hne))

/-- Rounds find every vertex once. -/
theorem Rounds.nodup {rounds : Nat} (h : Rounds step limit rounds kept frontier result)
    (hkept : kept.Nodup) : result.Nodup := by
  induction h with
  | done => exact hkept
  | stop _ => exact hkept
  | round hround _ _ ih =>
    apply ih
    rw [List.nodup_append]
    refine ⟨hkept, hround.nodup, fun a ha b hb ↦ ?_⟩
    rintro rfl
    exact hround.fresh a hb ha

/-- A layer whose nearer layers are kept is layered. -/
theorem layered_of_top {rounds : Nat} (top : Nat) (htop : top ≤ rounds)
    (hwithin : ∀ b ∈ result, Within root step top b)
    (hbelow : ∀ d c, d < top → AtDistance root step d c → c ∈ result)
    (hfilled : (∀ b, Within root step rounds b → b ∈ result) ∨ limit ≤ (result.length : Int)) :
    Layered root step limit rounds result where
  within b hb := (hwithin b hb).mono htop
  layered d b c hb hmem hc := by
    have hle : d + 1 ≤ top := hb.le_of_within (hwithin b hmem)
    exact hbelow d c hle hc
  filled := hfilled

/-- A run from a full layer is layered. -/
theorem Rounds.layered {rounds : Nat} (h : Rounds step limit rounds kept frontier result)
    (hfull : Full root step d kept frontier) : Layered root step limit (d + rounds) result := by
  induction h generalizing d with
  | done =>
    apply layered_of_top d (le_refl d) (fun b hb ↦ (hfull.kept_iff b).mp hb)
    · intro e c he hc
      exact (hfull.kept_iff c).mpr (hc.within.mono (Nat.le_of_lt he))
    · exact .inl fun b hb ↦ (hfull.kept_iff b).mpr hb
  | stop hround =>
    apply layered_of_top d (Nat.le_add_right d _) (fun b hb ↦ (hfull.kept_iff b).mp hb)
    · intro e c he hc
      exact (hfull.kept_iff c).mpr (hc.within.mono (Nat.le_of_lt he))
    · rcases hround.filled with hall | hlimit
      · have hend := hfull.nextLayer hround hall
        rw [List.append_nil] at hend
        exact .inl fun b hb ↦ hb.elim fun e he ↦ hfull.all hend he.2
      · rw [List.append_nil] at hlimit
        exact .inr hlimit
  | @round rounds kept frontier next result hround hne hrun ih =>
    rcases hround.filled with hall | hlimit
    · have hrest := ih (hfull.nextLayer hround hall)
      rwa [Nat.add_right_comm] at hrest
    · -- The limit falls inside this layer, so that the layers before it are the nearer ones.
      obtain rfl := hrun.eq_kept hlimit
      apply layered_of_top (d + 1) (by omega) (fun b hb ↦ hfull.within_next hround hb)
      · intro e c he hc
        exact List.mem_append_left _
          ((hfull.kept_iff c).mpr (hc.within.mono (Nat.le_of_lt_succ he)))
      · exact .inr hlimit

/-- Each kept node is reached through kept nodes. -/
theorem Layered.reached {rounds : Nat} (h : Layered root step limit rounds result)
    (hb : b ∈ result) :
    Within root (fun a c ↦ step a c ∧ a ∈ result ∧ c ∈ result) rounds b := by
  obtain ⟨d, hd, hat⟩ := (h.within b hb).exists_atDistance
  refine ⟨d, hd, ?_⟩
  clear hd
  induction d generalizing b with
  | zero => exact .root (walk_zero.mp hat.1)
  | succ d ih =>
    obtain ⟨a, ha, hs⟩ := hat.exists_before
    have hmem : a ∈ result := h.layered d b a hat hb ha
    exact (ih hmem ha).step ⟨hs, hmem, hb⟩

/-- Where all nodes within the rounds fit the limit, all are kept. -/
theorem Layered.complete {rounds : Nat} (h : Layered root step limit rounds result)
    (hnodup : result.Nodup) {near : List α} (hnear : ∀ b, b ∈ near ↔ Within root step rounds b)
    (hfits : (near.length : Int) ≤ limit) : near ⊆ result := by
  rcases h.filled with hall | hlimit
  · intro b hb
    exact hall b ((hnear b).mp hb)
  · have hsub : result ⊆ near := fun b hb ↦ (hnear b).mpr (h.within b hb)
    have hperm : result.Perm near := by
      apply (List.subperm_of_subset hnodup hsub).perm_of_length_le
      omega
    exact hperm.symm.subset

end Jobtology.Graph
