import Mathlib.Data.List.Infix
import Mathlib.Order.Lattice

/-!
# Fixed windows

Library for counters that hold one window at a time. Units arrive with buckets in any order: a
later bucket opens a new window, an earlier one is counted in the window that is stored. Over
every order of arrivals no window takes more units than the limit, and the stored window never
moves back. The window of a unit is the latest bucket accepted so far, whatever the counter stores.
-/

namespace Jobtology.Base

universe u

variable {τ : Type u}

/-- A window and the units counted in it. -/
structure Window (τ : Type u) where
  startedAt : τ
  count : Nat
  deriving DecidableEq

variable [LinearOrder τ] {limit : Nat} {buckets new : List τ} {stored stored' : Option (Window τ)}

/-- The windows of accepted units: each is in the latest bucket accepted up to it. -/
def windowsOf (buckets : List τ) : List τ := buckets.inits.filterMap List.max?

/-- The latest bucket after one more. -/
theorem max?_concat (buckets : List τ) (bucket : τ) :
    (buckets ++ [bucket]).max? = some (buckets.max?.elim bucket (max · bucket)) := by
  cases buckets with
  | nil => rfl
  | cons first rest =>
    show some ((rest ++ [bucket]).foldl max first) = some (max (rest.foldl max first) bucket)
    rw [List.foldl_append]
    rfl

/-- The last unit is in the latest bucket of all. -/
theorem windowsOf_concat (buckets : List τ) (bucket : τ) :
    windowsOf (buckets ++ [bucket]) =
      windowsOf buckets ++ [buckets.max?.elim bucket (max · bucket)] := by
  unfold windowsOf
  rw [List.inits_append, List.filterMap_append]
  simp [max?_concat]

/-- No unit is in a later window than the latest bucket. -/
theorem le_of_mem_windowsOf {window latest : τ} (h : window ∈ windowsOf buckets)
    (hlatest : buckets.max? = some latest) : window ≤ latest := by
  induction buckets using List.reverseRecOn generalizing latest with
  | nil => cases hlatest
  | append_singleton first bucket ih =>
    rw [max?_concat] at hlatest
    cases hlatest
    rw [windowsOf_concat] at h
    rcases List.mem_append.mp h with h | h
    · cases hmax : first.max? with
      | none =>
        rw [List.max?_eq_none_iff.mp hmax] at h
        simp [windowsOf] at h
      | some latest => exact (ih h hmax).trans (le_max_left latest bucket)
    · exact (List.mem_singleton.mp h).le

/-- One arrival at a counter: the buckets of the units that are accepted, and the counter after
it. -/
inductive Window.Step (limit : Nat) : Option (Window τ) → List τ → Option (Window τ) → Prop
  /-- The arrival is for another counter, or is turned away without a trace. -/
  | kept (stored : Option (Window τ)) : Step limit stored [] stored
  /-- The counter opens its first window. -/
  | first (bucket : τ) : Step limit none [bucket] (some ⟨bucket, 1⟩)
  /-- A later bucket opens a new window. -/
  | opened (w : Window τ) (bucket : τ) (h : w.startedAt < bucket) :
    Step limit (some w) [bucket] (some ⟨bucket, 1⟩)
  /-- The stored window takes the unit. -/
  | counted (w : Window τ) (bucket : τ) (hle : bucket ≤ w.startedAt) (h : w.count < limit) :
    Step limit (some w) [bucket] (some ⟨w.startedAt, w.count + 1⟩)
  /-- The stored window is full, and its count saturates. -/
  | refused (w : Window τ) (h : limit ≤ w.count) :
    Step limit (some w) [] (some ⟨w.startedAt, limit + 1⟩)

/-- The window of a counter never moves back. -/
theorem Window.Step.startedAt_le (h : Window.Step limit stored new stored') {w : Window τ}
    (hw : stored = some w) : ∃ w', stored' = some w' ∧ w.startedAt ≤ w'.startedAt := by
  cases h with
  | kept => exact ⟨w, hw, le_rfl⟩
  | first => cases hw
  | opened v bucket hlt =>
    cases hw
    exact ⟨_, rfl, hlt.le⟩
  | counted v bucket hle hlt =>
    cases hw
    exact ⟨_, rfl, le_rfl⟩
  | refused v hfull =>
    cases hw
    exact ⟨_, rfl, le_rfl⟩

/-- What the units accepted so far and the counter have in common: no window took more than the
limit, the counter stores the latest bucket, and the stored count covers the units in it. -/
structure Window.Counted (limit : Nat) (buckets : List τ) (stored : Option (Window τ)) : Prop where
  bounded : ∀ w, (windowsOf buckets).count w ≤ limit
  latest : stored.map (·.startedAt) = buckets.max?
  covered : ∀ w, stored = some w → (windowsOf buckets).count w.startedAt ≤ w.count
  saturated : ∀ w, stored = some w → w.count ≤ limit + 1

/-- Nothing is counted at the start. -/
theorem Window.counted_start : Window.Counted limit ([] : List τ) none where
  bounded _ := Nat.zero_le _
  latest := rfl
  covered _ hw := nomatch hw
  saturated _ hw := nomatch hw

/-- A unit in a window that has room. -/
theorem bounded_append {windows : List τ} {b : τ} (h : ∀ w, windows.count w ≤ limit)
    (hroom : windows.count b < limit) (w : τ) : (windows ++ [b]).count w ≤ limit := by
  rw [List.count_append, List.count_singleton]
  by_cases hw : b = w
  · subst hw
    rw [if_pos (beq_self_eq_true b)]
    omega
  · rw [if_neg (by simpa using hw)]
    exact h w

private theorem counted_of_opened {bucket : τ} (h : ∀ w, (windowsOf buckets).count w ≤ limit)
    (hlimit : 1 ≤ limit) (hearlier : ∀ latest, buckets.max? = some latest → latest < bucket) :
    Window.Counted limit (buckets ++ [bucket]) (some ⟨bucket, 1⟩) := by
  have hlast : buckets.max?.elim bucket (max · bucket) = bucket := by
    cases hlatest : buckets.max? with
    | none => rfl
    | some latest => exact max_eq_right (hearlier latest hlatest).le
  have hnew : (windowsOf buckets).count bucket = 0 := by
    refine List.count_eq_zero.mpr fun hmem ↦ ?_
    cases hlatest : buckets.max? with
    | none =>
      rw [List.max?_eq_none_iff.mp hlatest] at hmem
      simp [windowsOf] at hmem
    | some latest =>
      exact absurd (hearlier latest hlatest) (not_lt.mpr (le_of_mem_windowsOf hmem hlatest))
  have hwindows : windowsOf (buckets ++ [bucket]) = windowsOf buckets ++ [bucket] := by
    rw [windowsOf_concat, hlast]
  refine ⟨?_, by rw [max?_concat, hlast]; rfl, ?_, ?_⟩
  · rw [hwindows]
    exact bounded_append h (by omega)
  · rintro w ⟨⟩
    rw [hwindows, List.count_append, hnew, List.count_singleton_self]
  · rintro w ⟨⟩
    show 1 ≤ limit + 1
    omega

/-- One arrival keeps the account. -/
theorem Window.Counted.step (h : Window.Counted limit buckets stored) (hlimit : 1 ≤ limit)
    (hstep : Window.Step limit stored new stored') :
    Window.Counted limit (buckets ++ new) stored' := by
  cases hstep with
  | kept =>
    rw [List.append_nil]
    exact h
  | first bucket =>
    refine counted_of_opened h.bounded hlimit fun latest hlatest ↦ ?_
    cases h.latest.trans hlatest
  | opened w bucket hlt =>
    refine counted_of_opened h.bounded hlimit fun latest hlatest ↦ ?_
    cases h.latest.trans hlatest
    exact hlt
  | counted w bucket hle hlt =>
    have hlast : buckets.max?.elim bucket (max · bucket) = w.startedAt := by
      rw [← h.latest]
      exact max_eq_left hle
    have hwindows : windowsOf (buckets ++ [bucket]) = windowsOf buckets ++ [w.startedAt] := by
      rw [windowsOf_concat, hlast]
    have hcovered := h.covered w rfl
    refine ⟨?_, by rw [max?_concat, hlast]; rfl, ?_, ?_⟩
    · rw [hwindows]
      exact bounded_append h.bounded (by omega)
    · rintro w' ⟨⟩
      rw [hwindows, List.count_append, List.count_singleton_self]
      exact Nat.succ_le_succ hcovered
    · rintro w' ⟨⟩
      show w.count + 1 ≤ limit + 1
      omega
  | refused w hfull =>
    rw [List.append_nil]
    refine ⟨h.bounded, h.latest, ?_, ?_⟩
    · rintro w' ⟨⟩
      exact (h.bounded w.startedAt).trans (Nat.le_succ limit)
    · rintro w' ⟨⟩
      exact le_rfl

end Jobtology.Base
