import Jobtology.Base.Occurrences
import Mathlib.Data.List.Basic
import Mathlib.Data.List.Range

/-!
# Matching blocks of two sequences

Library for `difflib.SequenceMatcher` without junk: the longest matching blocks, and the edit script
that they give. What a script keeps is equal in both sequences, and what it changes has nothing in
common.
-/

namespace Jobtology.Base.SequenceMatcher

universe u

variable {α : Type u}

/-! ### Model -/

/-- `Match`. -/
structure Block where
  a : Nat
  b : Nat
  size : Nat
  deriving DecidableEq

/-- The longer of two blocks, the first of them when they are equally long. -/
def Block.longer (best m : Block) : Block := if best.size < m.size then m else best

/-- What an opcode does. -/
inductive Tag
  | replace
  | delete
  | insert
  | equal
  deriving DecidableEq

/-- A member of `get_opcodes`. -/
structure Opcode where
  tag : Tag
  i1 : Nat
  i2 : Nat
  j1 : Nat
  j2 : Nat
  deriving DecidableEq

section Model

variable [DecidableEq α]

/-- The length of the longest common start. -/
def commonLength : List α → List α → Nat
  | x :: xs, y :: ys => if x = y then commonLength xs ys + 1 else 0
  | _, _ => 0

/-- `find_longest_match`: the longest block in the ranges, of these the one that starts earliest in
`a`, and of these the one that starts earliest in `b`. -/
def findLongestMatch (a b : List α) (alo ahi blo bhi : Nat) : Block :=
  let blocks := (List.range' alo (ahi - alo)).flatMap fun i ↦
    (List.range' blo (bhi - blo)).map fun j ↦
      ⟨i, j, commonLength (slice i ahi a) (slice j bhi b)⟩
  blocks.foldl Block.longer ⟨alo, blo, 0⟩

end Model

/-! ### Longest matches -/

/-- A block is equal in both sequences. -/
def Same (a b : List α) (i j size : Nat) : Prop := ∀ k < size, a[i + k]? = b[j + k]?

/-- Two ranges have nothing in common. -/
def Apart (a b : List α) (alo ahi blo bhi : Nat) : Prop :=
  ∀ i j, alo ≤ i → i < ahi → blo ≤ j → j < bhi → a[i]? ≠ b[j]?

/-- A block lies in the ranges and is equal in both sequences. -/
structure Block.Within (m : Block) (a b : List α) (alo ahi blo bhi : Nat) : Prop where
  a_ge : alo ≤ m.a
  a_le : m.a + m.size ≤ ahi
  b_ge : blo ≤ m.b
  b_le : m.b + m.size ≤ bhi
  same : Same a b m.a m.b m.size

/-- The longest block is one of the blocks. -/
theorem foldl_longer_mem (ms : List Block) (best : Block) :
    ms.foldl Block.longer best ∈ best :: ms := by
  induction ms generalizing best with
  | nil => exact List.mem_singleton_self _
  | cons m ms ih =>
    rw [List.foldl_cons]
    rcases List.mem_cons.mp (ih (best.longer m)) with h | h
    · rw [h]
      unfold Block.longer
      split
      · exact List.mem_cons_of_mem _ List.mem_cons_self
      · exact List.mem_cons_self
    · exact List.mem_cons_of_mem _ (List.mem_cons_of_mem _ h)

/-- No block is longer than the longest. -/
theorem size_le_foldl_longer {ms : List Block} {best m : Block} (h : m ∈ best :: ms) :
    m.size ≤ (ms.foldl Block.longer best).size := by
  induction ms generalizing best m with
  | nil =>
    rw [List.mem_singleton.mp h]
    exact Nat.le_refl _
  | cons n ms ih =>
    rw [List.foldl_cons]
    have hbest : (best.longer n).size ≤ (ms.foldl Block.longer (best.longer n)).size :=
      ih List.mem_cons_self
    have hmax : best.size ≤ (best.longer n).size ∧ n.size ≤ (best.longer n).size := by
      unfold Block.longer
      split
      · omega
      · omega
    rcases List.mem_cons.mp h with rfl | h
    · exact hmax.1.trans hbest
    · rcases List.mem_cons.mp h with rfl | h
      · exact hmax.2.trans hbest
      · exact ih (List.mem_cons_of_mem _ h)

section Longest

variable [DecidableEq α] {a b : List α} {alo ahi blo bhi : Nat}

/-- The common beginning is within both lists. -/
theorem commonLength_le (xs ys : List α) :
    commonLength xs ys ≤ xs.length ∧ commonLength xs ys ≤ ys.length := by
  fun_induction commonLength xs ys with
  | case1 x xs ys ih =>
    rw [List.length_cons, List.length_cons]
    omega
  | case2 => exact ⟨Nat.zero_le _, Nat.zero_le _⟩
  | case3 => exact ⟨Nat.zero_le _, Nat.zero_le _⟩

/-- The lists agree on their common beginning. -/
theorem getElem?_of_lt_commonLength {xs ys : List α} {k : Nat} (h : k < commonLength xs ys) :
    xs[k]? = ys[k]? := by
  fun_induction commonLength xs ys generalizing k with
  | case1 x xs ys ih =>
    cases k with
    | zero => rfl
    | succ k => exact ih (Nat.lt_of_succ_lt_succ h)
  | case2 => exact absurd h (Nat.not_lt_zero _)
  | case3 => exact absurd h (Nat.not_lt_zero _)

/-- Sequences that start alike have a common start. -/
theorem commonLength_pos {xs ys : List α} {x : α} (hx : xs[0]? = some x) (hy : ys[0]? = some x) :
    0 < commonLength xs ys := by
  cases xs with
  | nil => cases hx
  | cons x' xs =>
    cases ys with
    | nil => cases hy
    | cons y' ys =>
      obtain rfl : x' = x := Option.some.inj hx
      obtain rfl : y' = x' := Option.some.inj hy
      rw [commonLength, if_pos rfl]
      exact Nat.succ_pos _

/-- Every place in the ranges gives a candidate. -/
theorem mem_candidates {m : Block} :
    m ∈ ((List.range' alo (ahi - alo)).flatMap fun i ↦ (List.range' blo (bhi - blo)).map fun j ↦
        (⟨i, j, commonLength (slice i ahi a) (slice j bhi b)⟩ : Block)) ↔
      (alo ≤ m.a ∧ m.a < ahi) ∧ (blo ≤ m.b ∧ m.b < bhi) ∧
        m.size = commonLength (slice m.a ahi a) (slice m.b bhi b) := by
  simp only [List.mem_flatMap, List.mem_map, List.mem_range'_1]
  constructor
  · rintro ⟨i, hi, j, hj, rfl⟩
    dsimp only
    exact ⟨by omega, by omega, rfl⟩
  · rintro ⟨hi, hj, hsize⟩
    exact ⟨m.a, by omega, m.b, by omega, by rw [← hsize]⟩

/-- A match lies in the ranges. -/
theorem findLongestMatch_within (hsome : (findLongestMatch a b alo ahi blo bhi).size ≠ 0) :
    (findLongestMatch a b alo ahi blo bhi).Within a b alo ahi blo bhi := by
  unfold findLongestMatch at hsome ⊢
  rcases List.mem_cons.mp (foldl_longer_mem _ _) with h | h
  · exact absurd (congrArg Block.size h) hsome
  · obtain ⟨hi, hj, hsize⟩ := mem_candidates.mp h
    generalize List.foldl _ _ _ = m at hi hj hsize
    have hle := commonLength_le (slice m.a ahi a) (slice m.b bhi b)
    rw [← hsize, length_slice, length_slice] at hle
    refine ⟨hi.1, by omega, hj.1, by omega, fun k hk ↦ ?_⟩
    have heq := getElem?_of_lt_commonLength (hsize ▸ hk)
    rwa [getElem?_slice (by omega), getElem?_slice (by omega)] at heq

/-- Ranges without a match have nothing in common. -/
theorem apart_of_findLongestMatch (ha : ahi ≤ a.length)
    (h : (findLongestMatch a b alo ahi blo bhi).size = 0) : Apart a b alo ahi blo bhi := by
  intro i j hi hi' hj hj' heq
  have hle := @size_le_foldl_longer _ ⟨alo, blo, 0⟩ _ (List.mem_cons_of_mem _
    (mem_candidates.mpr ⟨⟨hi, hi'⟩, ⟨hj, hj'⟩, rfl⟩ :
      ⟨i, j, commonLength (slice i ahi a) (slice j bhi b)⟩ ∈ _))
  have hsome : a[i]? = some a[i] := List.getElem?_eq_getElem (by omega)
  have hpos : 0 < commonLength (slice i ahi a) (slice j bhi b) := by
    refine commonLength_pos (x := a[i]) ?_ ?_
    · rw [getElem?_slice (by omega)]
      exact hsome
    · rw [getElem?_slice (by omega)]
      exact heq.symm.trans hsome
  unfold findLongestMatch at h
  dsimp only at hle h
  omega

end Longest

/-! ### Matching blocks -/

section Blocks

variable [DecidableEq α]

/-- The matching blocks in the ranges, in order: the longest match between those before it and those
after it. -/
def matchingBlocks (a b : List α) (alo ahi blo bhi : Nat) : List Block :=
  let m := findLongestMatch a b alo ahi blo bhi
  if m.size = 0 then []
  else
    matchingBlocks a b alo m.a blo m.b ++
      m :: matchingBlocks a b (m.a + m.size) ahi (m.b + m.size) bhi
termination_by ahi - alo
decreasing_by
  all_goals
    next h =>
    have hm := findLongestMatch_within h
    have hge := hm.a_ge
    have hle := hm.a_le
    dsimp only [m] at h ⊢
    omega

/-- Adjacent blocks become one; blocks of size zero are left out. -/
def mergeAdjacent (m : Block) : List Block → List Block
  | [] => if m.size = 0 then [] else [m]
  | n :: ns =>
    if m.a + m.size = n.a ∧ m.b + m.size = n.b then
      mergeAdjacent ⟨m.a, m.b, m.size + n.size⟩ ns
    else if m.size = 0 then mergeAdjacent n ns
    else m :: mergeAdjacent n ns

/-- `get_matching_blocks`. -/
def getMatchingBlocks (a b : List α) : List Block :=
  mergeAdjacent ⟨0, 0, 0⟩ (matchingBlocks a b 0 a.length 0 b.length) ++ [⟨a.length, b.length, 0⟩]

/-- The opcode for what stands between two blocks. -/
def gapOpcode (i ai j bj : Nat) : List Opcode :=
  if i < ai ∧ j < bj then [⟨.replace, i, ai, j, bj⟩]
  else if i < ai then [⟨.delete, i, ai, j, bj⟩]
  else if j < bj then [⟨.insert, i, ai, j, bj⟩]
  else []

/-- The loop of `get_opcodes`. -/
def opcodesFrom : Nat → Nat → List Block → List Opcode
  | _, _, [] => []
  | i, j, m :: ms =>
    gapOpcode i m.a j m.b ++
      ((if m.size = 0 then [] else [⟨.equal, m.a, m.a + m.size, m.b, m.b + m.size⟩]) ++
        opcodesFrom (m.a + m.size) (m.b + m.size) ms)

/-- `get_opcodes`. -/
def getOpcodes (a b : List α) : List Opcode := opcodesFrom 0 0 (getMatchingBlocks a b)

end Blocks

/-- Blocks cover the ranges from a place on: each is equal in both sequences, and what stands
between them has nothing in common. -/
def Covers (a b : List α) (ahi bhi : Nat) : Nat → Nat → List Block → Prop
  | i, j, [] => i ≤ ahi ∧ j ≤ bhi ∧ Apart a b i ahi j bhi
  | i, j, m :: ms => m.Within a b i ahi j bhi ∧ Apart a b i m.a j m.b ∧
      Covers a b ahi bhi (m.a + m.size) (m.b + m.size) ms

variable {a b : List α} {ahi bhi i j : Nat}

/-- Blocks that cover the ranges before a block and after it cover the whole. -/
theorem Covers.append {m : Block} {ms ns : List Block} (h : Covers a b m.a m.b i j ms)
    (hm : m.a + m.size ≤ ahi ∧ m.b + m.size ≤ bhi ∧ Same a b m.a m.b m.size)
    (hns : Covers a b ahi bhi (m.a + m.size) (m.b + m.size) ns) :
    Covers a b ahi bhi i j (ms ++ m :: ns) := by
  induction ms generalizing i j with
  | nil =>
    obtain ⟨hi, hj, hapart⟩ := h
    exact ⟨⟨hi, hm.1, hj, hm.2.1, hm.2.2⟩, hapart, hns⟩
  | cons n ms ih =>
    obtain ⟨hn, hapart, hms⟩ := h
    have ha := hn.a_le
    have hb := hn.b_le
    exact ⟨⟨hn.a_ge, by omega, hn.b_ge, by omega, hn.same⟩, hapart, ih hms⟩

/-- Two blocks in a row are one. -/
theorem Same.append {i j size more : Nat} (h : Same a b i j size)
    (hmore : Same a b (i + size) (j + size) more) : Same a b i j (size + more) := by
  intro k hk
  by_cases hlt : k < size
  · exact h k hlt
  · have hrest := hmore (k - size) (by omega)
    rwa [show i + size + (k - size) = i + k by omega,
      show j + size + (k - size) = j + k by omega] at hrest

/-- Merged blocks cover the same. -/
theorem covers_mergeAdjacent {m : Block} {ms : List Block} (h : Covers a b ahi bhi i j (m :: ms))
    (hm : m.size = 0 → m.a = i ∧ m.b = j) (hms : ∀ n ∈ ms, n.size ≠ 0) :
    Covers a b ahi bhi i j (mergeAdjacent m ms) := by
  induction ms generalizing m i j with
  | nil =>
    unfold mergeAdjacent
    split
    · next hzero =>
      obtain ⟨-, -, hrest⟩ := h
      obtain ⟨rfl, rfl⟩ := hm hzero
      rwa [hzero] at hrest
    · exact h
  | cons n ns ih =>
    obtain ⟨hwithin, hapart, hn, hgap, hns⟩ := h
    obtain ⟨hnonzero, hms⟩ := List.forall_mem_cons.mp hms
    unfold mergeAdjacent
    split
    · next hadjacent =>
      refine ih (m := ⟨m.a, m.b, m.size + n.size⟩) ⟨⟨hwithin.a_ge, ?_, hwithin.b_ge, ?_, ?_⟩,
        hapart, ?_⟩ (fun hzero ↦ absurd hzero (by dsimp only; omega)) hms
      · have := hn.a_le
        dsimp only
        omega
      · have := hn.b_le
        dsimp only
        omega
      · refine hwithin.same.append ?_
        rw [hadjacent.1, hadjacent.2]
        exact hn.same
      · dsimp only
        rw [← Nat.add_assoc, ← Nat.add_assoc, hadjacent.1, hadjacent.2]
        exact hns
    · split
      · next hzero =>
        obtain ⟨rfl, rfl⟩ := hm hzero
        rw [hzero] at hn hgap
        exact ih ⟨hn, hgap, hns⟩ (fun h0 ↦ absurd h0 hnonzero) hms
      · exact ⟨hwithin, hapart, ih ⟨hn, hgap, hns⟩ (fun h0 ↦ absurd h0 hnonzero) hms⟩

/-- A last block of size zero changes nothing. -/
theorem Covers.concat {ms : List Block} (h : Covers a b ahi bhi i j ms) :
    Covers a b ahi bhi i j (ms ++ [⟨ahi, bhi, 0⟩]) :=
  Covers.append (m := ⟨ahi, bhi, 0⟩) h ⟨Nat.le_refl _, Nat.le_refl _,
    fun _ hk ↦ absurd hk (Nat.not_lt_zero _)⟩ ⟨Nat.le_refl _, Nat.le_refl _,
    fun _ _ hi hi' ↦ absurd hi (Nat.not_le_of_lt hi')⟩

section Matching

variable [DecidableEq α] {alo blo : Nat}

/-- No matching block is empty. -/
theorem matchingBlocks_size_ne_zero {m : Block} (h : m ∈ matchingBlocks a b alo ahi blo bhi) :
    m.size ≠ 0 := by
  fun_induction matchingBlocks a b alo ahi blo bhi with
  | case1 => exact absurd h List.not_mem_nil
  | case2 alo ahi blo bhi n hsize hbefore hafter =>
    rcases List.mem_append.mp h with h | h
    · exact hbefore h
    · rcases List.mem_cons.mp h with rfl | h
      · exact hsize
      · exact hafter h

/-- The matching blocks cover the ranges. -/
theorem matchingBlocks_covers (ha : alo ≤ ahi) (hb : blo ≤ bhi) (hlength : ahi ≤ a.length) :
    Covers a b ahi bhi alo blo (matchingBlocks a b alo ahi blo bhi) := by
  fun_induction matchingBlocks a b alo ahi blo bhi with
  | case1 alo ahi blo bhi n hsize => exact ⟨ha, hb, apart_of_findLongestMatch hlength hsize⟩
  | case2 alo ahi blo bhi n hsize hbefore hafter =>
    have hn : n.Within a b alo ahi blo bhi := findLongestMatch_within hsize
    have hle := hn.a_le
    exact (hbefore hn.a_ge hn.b_ge (by omega)).append ⟨hn.a_le, hn.b_le, hn.same⟩
      (hafter hn.a_le hn.b_le hlength)

/-- The matching blocks cover both lists. -/
theorem getMatchingBlocks_covers (a b : List α) :
    Covers a b a.length b.length 0 0 (getMatchingBlocks a b) := by
  refine Covers.concat (covers_mergeAdjacent ?_ (fun _ ↦ ⟨rfl, rfl⟩) fun n hn ↦
    matchingBlocks_size_ne_zero hn)
  exact ⟨⟨Nat.le_refl _, Nat.zero_le _, Nat.le_refl _, Nat.zero_le _,
    fun _ hk ↦ absurd hk (Nat.not_lt_zero _)⟩, fun _ _ _ hi ↦ absurd hi (Nat.not_lt_zero _),
    matchingBlocks_covers (Nat.zero_le _) (Nat.zero_le _) (Nat.le_refl _)⟩

end Matching

/-! ### Edit scripts -/

/-- What an opcode says about the two sequences. -/
def Opcode.Sound (a b : List α) (o : Opcode) : Prop :=
  match o.tag with
  | .equal => o.i2 - o.i1 = o.j2 - o.j1 ∧ Same a b o.i1 o.j1 (o.i2 - o.i1)
  | .replace => o.i1 < o.i2 ∧ o.j1 < o.j2 ∧ Apart a b o.i1 o.i2 o.j1 o.j2
  | .delete => o.i1 < o.i2 ∧ o.j1 = o.j2
  | .insert => o.i1 = o.i2 ∧ o.j1 < o.j2

/-- Opcodes that lead from a place in both sequences to their ends, one after the other. -/
def IsScript (a b : List α) : Nat → Nat → List Opcode → Prop
  | i, j, [] => i = a.length ∧ j = b.length
  | i, j, o :: os => o.i1 = i ∧ o.j1 = j ∧ (o.i1 ≤ o.i2 ∧ o.i2 ≤ a.length) ∧
      (o.j1 ≤ o.j2 ∧ o.j2 ≤ b.length) ∧ o.Sound a b ∧ IsScript a b o.i2 o.j2 os

/-- Every opcode of a script is sound. -/
theorem IsScript.sound {os : List Opcode} (h : IsScript a b i j os) {o : Opcode} (ho : o ∈ os) :
    o.Sound a b := by
  induction os generalizing i j with
  | nil => exact absurd ho List.not_mem_nil
  | cons p os ih =>
    obtain ⟨-, -, -, -, hsound, hrest⟩ := h
    rcases List.mem_cons.mp ho with rfl | ho
    · exact hsound
    · exact ih hrest ho

/-- What stands between two blocks is one step of a script. -/
theorem IsScript.gap {ai bj : Nat} {os : List Opcode} (hi : i ≤ ai) (hj : j ≤ bj)
    (ha : ai ≤ a.length) (hb : bj ≤ b.length) (hapart : Apart a b i ai j bj)
    (h : IsScript a b ai bj os) : IsScript a b i j (gapOpcode i ai j bj ++ os) := by
  unfold gapOpcode
  split
  · next hboth => exact ⟨rfl, rfl, ⟨hi, ha⟩, ⟨hj, hb⟩, ⟨hboth.1, hboth.2, hapart⟩, h⟩
  · split
    · next hboth hlt => exact ⟨rfl, rfl, ⟨hi, ha⟩, ⟨hj, hb⟩, ⟨hlt, by dsimp only; omega⟩, h⟩
    · split
      · next hlt' hlt => exact ⟨rfl, rfl, ⟨hi, ha⟩, ⟨hj, hb⟩, ⟨by dsimp only; omega, hlt⟩, h⟩
      · rw [show i = ai by omega, show j = bj by omega]
        exact h

/-- Blocks that cover two sequences to their ends give a script. -/
theorem opcodesFrom_isScript {ms : List Block}
    (h : Covers a b a.length b.length i j (ms ++ [⟨a.length, b.length, 0⟩])) :
    IsScript a b i j (opcodesFrom i j (ms ++ [⟨a.length, b.length, 0⟩])) := by
  induction ms generalizing i j with
  | nil =>
    obtain ⟨hm, hapart, -⟩ := h
    exact .gap hm.a_ge hm.b_ge (Nat.le_refl _) (Nat.le_refl _) hapart ⟨rfl, rfl⟩
  | cons m ms ih =>
    obtain ⟨hm, hapart, hms⟩ := h
    have ha := hm.a_le
    have hb := hm.b_le
    refine .gap hm.a_ge hm.b_ge (by omega) (by omega) hapart ?_
    split
    · next hzero =>
      have hrest := ih hms
      rw [hzero] at hrest
      rw [hzero]
      exact hrest
    · refine ⟨rfl, rfl, ⟨Nat.le_add_right _ _, ha⟩, ⟨Nat.le_add_right _ _, hb⟩, ?_, ih hms⟩
      unfold Opcode.Sound
      dsimp only
      rw [Nat.add_sub_cancel_left, Nat.add_sub_cancel_left]
      exact ⟨rfl, hm.same⟩

section Opcodes

variable [DecidableEq α]

/-- The opcodes of two sequences are a script from one to the other. -/
theorem getOpcodes_isScript (a b : List α) : IsScript a b 0 0 (getOpcodes a b) :=
  opcodesFrom_isScript (getMatchingBlocks_covers a b)

/-- Sequences that have nothing in common are one change. -/
theorem getOpcodes_of_apart (h : Apart a b 0 a.length 0 b.length) :
    getOpcodes a b = gapOpcode 0 a.length 0 b.length := by
  have hsize : (findLongestMatch a b 0 a.length 0 b.length).size = 0 := by
    by_contra hsome
    have hm := findLongestMatch_within hsome
    have ha := hm.a_le
    have hb := hm.b_le
    exact h _ _ hm.a_ge (by omega) hm.b_ge (by omega) (hm.same 0 (by omega))
  unfold getOpcodes getMatchingBlocks
  rw [matchingBlocks, if_pos hsize, mergeAdjacent, if_pos rfl, List.nil_append, opcodesFrom,
    if_pos rfl, opcodesFrom, List.append_nil, List.append_nil]

end Opcodes

end Jobtology.Base.SequenceMatcher
