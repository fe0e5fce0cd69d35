import Jobtology.Editing.RunSpans

/-!
# Characters with their runs

The characters of a paragraph with the places of the runs that hold them, and the spans of the runs
that a range of characters meets.
-/

namespace Jobtology.Editing

open Jobtology.Base Jobtology.Base.SequenceMatcher

/-! ### Characters with their runs -/

/-- The characters of runs with the places of their runs, counted from a number on. -/
def taggedFrom : Nat → List EditableRun → List (Char × Nat)
  | _, [] => []
  | m, run :: rest => run.text.map (·, m) ++ taggedFrom (m + 1) rest

/-- The characters of a paragraph, each with the place of its run. -/
def taggedRuns (runs : List EditableRun) : List (Char × Nat) := taggedFrom 0 runs

/-- The characters of one run. -/
def textOf (k : Nat) (chars : List (Char × Nat)) : List Char :=
  (chars.filter (·.2 = k)).map (·.1)

/-- Where a run starts. -/
def runStart (runs : List EditableRun) (k : Nat) : Nat := (runsText (runs.take k)).length

variable {runs : List EditableRun} {run : EditableRun} {k : Nat}

/-- No runs have no text. -/
@[simp] theorem runsText_nil : runsText [] = [] := rfl

/-- The text of a run goes before that of the rest. -/
@[simp] theorem runsText_cons (run : EditableRun) (rest : List EditableRun) :
    runsText (run :: rest) = run.text ++ runsText rest := rfl

private theorem runStart_cons_succ (run : EditableRun) (rest : List EditableRun) (k : Nat) :
    runStart (run :: rest) (k + 1) = run.text.length + runStart rest k := by
  unfold runStart
  rw [List.take_succ_cons, runsText_cons, List.length_append]

@[simp] private theorem runStart_zero (runs : List EditableRun) : runStart runs 0 = 0 := rfl

/-- A run ends within the text. -/
theorem runStart_add_le (h : runs[k]? = some run) :
    runStart runs k + run.text.length ≤ (runsText runs).length := by
  induction runs generalizing k with
  | nil => cases h
  | cons r rest ih =>
    rw [runsText_cons, List.length_append]
    cases k with
    | zero =>
      obtain rfl : r = run := Option.some.inj h
      rw [runStart_zero]
      omega
    | succ k =>
      rw [runStart_cons_succ]
      have hle := @ih k h
      omega

/-- A run ends before the later ones start. -/
theorem runStart_le_of_lt {k' : Nat} (h : runs[k]? = some run) (hlt : k < k') :
    runStart runs k + run.text.length ≤ runStart runs k' := by
  induction runs generalizing k k' with
  | nil => cases h
  | cons r rest ih =>
    obtain ⟨k', rfl⟩ := Nat.exists_eq_add_of_lt (Nat.zero_lt_of_lt hlt)
    rw [Nat.zero_add, runStart_cons_succ]
    cases k with
    | zero =>
      obtain rfl : r = run := Option.some.inj h
      rw [runStart_zero]
      omega
    | succ k =>
      rw [runStart_cons_succ]
      have hle := @ih k k' h (by omega)
      omega

/-- The text of a run is put together from two parts. -/
@[simp] theorem textOf_append (k : Nat) (xs ys : List (Char × Nat)) :
    textOf k (xs ++ ys) = textOf k xs ++ textOf k ys := by
  unfold textOf
  rw [List.filter_append, List.map_append]

/-- Characters of one run are all or nothing of the text of a run. -/
theorem textOf_const (k tag : Nat) (text : List Char) :
    textOf k (text.map (·, tag)) = if tag = k then text else [] := by
  unfold textOf
  rw [List.filter_map, List.map_map]
  split
  · next h => simp [Function.comp_def, h]
  · next h => simp [Function.comp_def, h]

/-- Without their tags the characters are the text. -/
theorem map_fst_taggedFrom (m : Nat) (runs : List EditableRun) :
    (taggedFrom m runs).map (·.1) = runsText runs := by
  induction runs generalizing m with
  | nil => rfl
  | cons run rest ih =>
    rw [taggedFrom, List.map_append, List.map_map, runsText_cons, ih]
    simp [Function.comp_def]

/-- Every character is tagged. -/
theorem length_taggedFrom (m : Nat) (runs : List EditableRun) :
    (taggedFrom m runs).length = (runsText runs).length := by
  rw [← map_fst_taggedFrom m, List.length_map]

/-- A place in the text is a place in one of the runs. -/
theorem getElem?_taggedFrom {m i tag : Nat} {c : Char} :
    (taggedFrom m runs)[i]? = some (c, tag) ↔ ∃ k run, runs[k]? = some run ∧ tag = m + k ∧
      runStart runs k ≤ i ∧ run.text[i - runStart runs k]? = some c := by
  induction runs generalizing m i with
  | nil => simp [taggedFrom]
  | cons r rest ih =>
    rw [taggedFrom]
    by_cases hlt : i < r.text.length
    · rw [List.getElem?_append_left (by simpa using hlt), List.getElem?_map]
      constructor
      · intro h
        obtain ⟨c', hc', heq⟩ := Option.map_eq_some_iff.mp h
        obtain ⟨rfl, rfl⟩ := Prod.mk.inj heq
        exact ⟨0, r, rfl, rfl, Nat.zero_le _, hc'⟩
      · rintro ⟨k, run, hk, htag, hstart, hc⟩
        cases k with
        | zero =>
          obtain rfl : r = run := Option.some.inj hk
          rw [runStart_zero, Nat.sub_zero] at hc
          rw [hc, htag]
          rfl
        | succ k =>
          rw [runStart_cons_succ] at hstart
          omega
    · rw [List.getElem?_append_right (by simpa using hlt), List.length_map, ih]
      constructor
      · rintro ⟨k, run, hk, rfl, hstart, hc⟩
        refine ⟨k + 1, run, hk, by omega, ?_, ?_⟩
        · rw [runStart_cons_succ]
          omega
        · rwa [runStart_cons_succ, ← Nat.sub_sub]
      · rintro ⟨k, run, hk, rfl, hstart, hc⟩
        cases k with
        | zero =>
          obtain rfl : r = run := Option.some.inj hk
          rw [runStart_zero, Nat.sub_zero, List.getElem?_eq_none (by omega)] at hc
          cases hc
        | succ k =>
          rw [runStart_cons_succ] at hstart hc
          refine ⟨k, run, hk, by omega, by omega, ?_⟩
          rwa [Nat.sub_sub]

/-- The characters of a run in a slice of the paragraph are a slice of the run. -/
theorem textOf_slice_taggedFrom (h : runs[k]? = some run) (m i j : Nat) :
    textOf (m + k) (slice i j (taggedFrom m runs)) =
      slice (i - runStart runs k) (j - runStart runs k) run.text := by
  induction runs generalizing m i j k with
  | nil => cases h
  | cons r rest ih =>
    rw [taggedFrom, slice_append, textOf_append, List.length_map]
    have hhead : slice i j (r.text.map (·, m)) = (slice i j r.text).map (·, m) := by
      unfold slice
      rw [List.map_drop, List.map_take]
    rw [hhead, textOf_const]
    cases k with
    | zero =>
      obtain rfl : r = run := Option.some.inj h
      have htail : textOf (m + 0) (slice (i - r.text.length) (j - r.text.length)
          (taggedFrom (m + 1) rest)) = [] := by
        unfold textOf
        rw [List.map_eq_nil_iff, List.filter_eq_nil_iff]
        intro x hx htag
        obtain ⟨n, hn⟩ := List.mem_iff_getElem?.mp (List.mem_of_mem_take (List.mem_of_mem_drop hx))
        obtain ⟨k, -, -, hk, -⟩ := getElem?_taggedFrom.mp hn
        have := of_decide_eq_true htag
        omega
      rw [htail, if_pos (by omega), List.append_nil, runStart_zero, Nat.sub_zero, Nat.sub_zero]
    | succ k =>
      rw [if_neg (by omega), List.nil_append, runStart_cons_succ, ← Nat.sub_sub, ← Nat.sub_sub,
        show m + (k + 1) = m + 1 + k by omega]
      exact ih h (m + 1) _ _

/-- Characters in the order of their runs begin with those of the first run. -/
theorem filter_first {chars : List (Char × Nat)} {m : Nat}
    (hsorted : chars.Pairwise fun x y ↦ x.2 ≤ y.2) (hge : ∀ x ∈ chars, m ≤ x.2) :
    chars.filter (·.2 = m) ++ chars.filter (·.2 ≠ m) = chars := by
  induction chars with
  | nil => rfl
  | cons x xs ih =>
    obtain ⟨hx, hxs⟩ := List.pairwise_cons.mp hsorted
    by_cases hm : x.2 = m
    · rw [List.filter_cons_of_pos (by simpa using hm), List.filter_cons_of_neg (by simpa using hm),
        List.cons_append, ih hxs fun y hy ↦ hge y (List.mem_cons_of_mem _ hy)]
    · have hlt : m < x.2 := by
        have := hge x List.mem_cons_self
        omega
      have hnone : (x :: xs).filter (·.2 = m) = [] := by
        refine List.filter_eq_nil_iff.mpr fun y hy htag ↦ ?_
        have heq := of_decide_eq_true htag
        rcases List.mem_cons.mp hy with rfl | hy
        · exact hm heq
        · have := hx y hy
          omega
      have hall : (x :: xs).filter (·.2 ≠ m) = x :: xs := by
        refine List.filter_eq_self.mpr fun y hy ↦ decide_eq_true ?_
        rcases List.mem_cons.mp hy with rfl | hy
        · exact hm
        · have := hx y hy
          omega
      rw [hnone, hall, List.nil_append]

/-- Characters in the order of their runs are those of the runs that hold them. -/
theorem taggedFrom_eq {chars : List (Char × Nat)} {m : Nat}
    (hsorted : chars.Pairwise fun x y ↦ x.2 ≤ y.2)
    (hrange : ∀ x ∈ chars, m ≤ x.2 ∧ x.2 < m + runs.length)
    (htext : ∀ k run, runs[k]? = some run → run.text = textOf (m + k) chars) :
    taggedFrom m runs = chars := by
  induction runs generalizing m chars with
  | nil =>
    cases chars with
    | nil => rfl
    | cons x xs =>
      have := hrange x List.mem_cons_self
      rw [List.length_nil] at this
      omega
  | cons r rest ih =>
    have hfirst : r.text.map (·, m) = chars.filter (·.2 = m) := by
      rw [htext 0 r rfl]
      unfold textOf
      rw [List.map_map]
      refine (List.map_congr_left fun x hx ↦ ?_).trans (List.map_id _)
      have hm : x.2 = m := of_decide_eq_true (List.mem_filter.mp hx).2
      exact Prod.ext rfl hm.symm
    have hrest : taggedFrom (m + 1) rest = chars.filter (·.2 ≠ m) := by
      refine ih (hsorted.filter _) (fun x hx ↦ ?_) fun k run hk ↦ ?_
      · obtain ⟨hmem, hne⟩ := List.mem_filter.mp hx
        have hbounds := hrange x hmem
        have hne := of_decide_eq_true hne
        rw [List.length_cons] at hbounds
        omega
      · rw [htext (k + 1) run hk]
        unfold textOf
        rw [List.filter_filter]
        congr 1
        refine List.filter_congr fun x _ ↦ ?_
        rw [show m + 1 + k = m + (k + 1) by omega]
        by_cases htag : x.2 = m + (k + 1)
        · simp [htag]
        · simp [htag]
    rw [taggedFrom, hfirst, hrest]
    exact filter_first hsorted fun x hx ↦ (hrange x hx).1

/-! ### Spans -/

/-- The span of a run. -/
def spanOf (runs : List EditableRun) (k : Nat) (run : EditableRun) : RunSpan :=
  ⟨runStart runs k, runStart runs k + run.text.length, runStart runs k,
    runStart runs k + run.text.length, k, run.nodeId⟩

private theorem getElem?_runSpansFrom (cursor index k : Nat) :
    (runSpansFrom cursor index runs)[k]? = runs[k]?.map fun run ↦
      ⟨cursor + runStart runs k, cursor + runStart runs k + run.text.length,
        cursor + runStart runs k, cursor + runStart runs k + run.text.length, index + k,
        run.nodeId⟩ := by
  induction runs generalizing cursor index k with
  | nil => rfl
  | cons r rest ih =>
    rw [runSpansFrom]
    cases k with
    | zero => rfl
    | succ k =>
      rw [List.getElem?_cons_succ, List.getElem?_cons_succ, ih, runStart_cons_succ,
        Nat.add_assoc cursor, Nat.add_assoc index, Nat.add_comm 1 k]

private theorem mem_buildRunSpans {span : RunSpan} :
    span ∈ buildRunSpans runs ↔ ∃ k run, runs[k]? = some run ∧ span = spanOf runs k run := by
  rw [List.mem_iff_getElem?]
  unfold buildRunSpans spanOf
  simp only [getElem?_runSpansFrom, Nat.zero_add, Option.map_eq_some_iff]
  constructor
  · rintro ⟨k, run, hk, rfl⟩
    exact ⟨k, run, hk, rfl⟩
  · rintro ⟨k, run, hk, rfl⟩
    exact ⟨k, run, hk, rfl⟩

/-- Spans stand in the order of their runs. -/
theorem pairwise_buildRunSpans (runs : List EditableRun) :
    (buildRunSpans runs).Pairwise fun s t ↦ s.run < t.run := by
  refine List.pairwise_iff_getElem.mpr fun i j hi hj hlt ↦ ?_
  have hrun (k : Nat) (hk : k < (buildRunSpans runs).length) :
      ((buildRunSpans runs)[k]).run = k := by
    have h := @getElem?_runSpansFrom runs 0 0 k
    rw [show runSpansFrom 0 0 runs = buildRunSpans runs from rfl,
      List.getElem?_eq_getElem hk] at h
    obtain ⟨run, -, heq⟩ := Option.map_eq_some_iff.mp h.symm
    rw [← heq]
    exact Nat.zero_add k
  rw [hrun i hi, hrun j hj]
  exact hlt

/-- The run that takes new text: that of the first character of the range, or that of the character
before it when there is none. -/
structure Takes (runs : List EditableRun) (i1 i2 k : Nat) (run : EditableRun) : Prop where
  stands : runs[k]? = some run
  start : runStart runs k ≤ i1
  stop : i1 ≤ runStart runs k + run.text.length
  inside : i1 < i2 → i1 < runStart runs k + run.text.length
  before : i1 = i2 → 0 < i1 → runStart runs k < i1
  first : i1 = 0 → i1 = i2 → k = 0

/-- Every position is in a run. -/
theorem exists_run {i : Nat} (h : i < (runsText runs).length) :
    ∃ k run, runs[k]? = some run ∧ runStart runs k ≤ i ∧
      i < runStart runs k + run.text.length := by
  have hlength : i < (taggedRuns runs).length := by
    rw [taggedRuns, length_taggedFrom]
    exact h
  have hsome : (taggedRuns runs)[i]? = some (taggedRuns runs)[i] :=
    List.getElem?_eq_getElem hlength
  obtain ⟨k, run, hk, -, hstart, hc⟩ := getElem?_taggedFrom.mp hsome
  have hlt := (List.getElem?_eq_some_iff.mp hc).1
  exact ⟨k, run, hk, hstart, by omega⟩

/-- Every range is taken by a run. -/
theorem exists_takes {i1 i2 : Nat} (hne : runs ≠ []) (h : i1 ≤ i2)
    (hle : i2 ≤ (runsText runs).length) : ∃ k run, Takes runs i1 i2 k run := by
  by_cases hlt : i1 < i2
  · obtain ⟨k, run, hk, hstart, hstop⟩ := @exists_run runs i1 (by omega)
    exact ⟨k, run, hk, hstart, by omega, fun _ ↦ hstop, fun _ ↦ by omega, fun _ ↦ by omega⟩
  · rcases Nat.eq_zero_or_pos i1 with rfl | hpos
    · obtain ⟨run, rest, rfl⟩ := List.exists_cons_of_ne_nil hne
      exact ⟨0, run, rfl, Nat.le_refl _, Nat.zero_le _, fun h' ↦ absurd h' hlt,
        fun _ h' ↦ absurd h' (Nat.lt_irrefl 0), fun _ _ ↦ rfl⟩
    · obtain ⟨k, run, hk, hstart, hstop⟩ := @exists_run runs (i1 - 1) (by omega)
      exact ⟨k, run, hk, by omega, by omega, fun h' ↦ absurd h' hlt, fun _ _ ↦ by omega,
        fun h' ↦ by omega⟩

/-- A sorted list begins with its least member. -/
theorem exists_cons_of_least {spans : List RunSpan} {span : RunSpan}
    (hsorted : spans.Pairwise fun s t ↦ s.run < t.run) (h : span ∈ spans)
    (hleast : ∀ t ∈ spans, span.run ≤ t.run) : ∃ rest, spans = span :: rest := by
  cases spans with
  | nil => cases h
  | cons s rest =>
    rcases List.mem_cons.mp h with rfl | h
    · exact ⟨rest, rfl⟩
    · have hlt := (List.pairwise_cons.mp hsorted).1 span h
      have hle := hleast s List.mem_cons_self
      omega

/-- The spans that a clip keeps, in the order of their runs. -/
theorem clipped_sorted (runs : List EditableRun) (i1 i2 : Nat) :
    ((buildRunSpans runs).filterMap (·.clip i1 i2)).Pairwise fun s t ↦ s.run < t.run := by
  refine List.pairwise_filterMap.mpr ((pairwise_buildRunSpans runs).imp ?_)
  intro s t hlt s' hs' t' ht'
  have hrun (u u' : RunSpan) (h : u.clip i1 i2 = some u') : u'.run = u.run := by
    unfold RunSpan.clip at h
    split at h
    · split at h
      · cases h
      · rw [Option.some.inj h]
    · split at h
      · cases h
      · rw [← Option.some.inj h]
  rw [hrun s s' hs', hrun t t' ht']
  exact hlt

/-- The spans that meet a place. -/
theorem exists_of_clip_insert {i : Nat} {s : RunSpan}
    (h : s ∈ (buildRunSpans runs).filterMap (·.clip i i)) :
    ∃ k run, runs[k]? = some run ∧ s = spanOf runs k run ∧ s.start ≤ i ∧ i ≤ s.stop := by
  obtain ⟨t, ht, hclip⟩ := List.mem_filterMap.mp h
  unfold RunSpan.clip at hclip
  rw [if_pos rfl] at hclip
  split at hclip
  · cases hclip
  · next hmeets =>
    obtain rfl := Option.some.inj hclip
    obtain ⟨k, run, hk, rfl⟩ := mem_buildRunSpans.mp ht
    exact ⟨k, run, hk, rfl, by omega, by omega⟩

/-- The span that takes an insertion is the first that meets its place. -/
theorem Takes.le_of_clip_insert {i : Nat} (h : Takes runs i i k run) {s : RunSpan}
    (hs : s ∈ (buildRunSpans runs).filterMap (·.clip i i)) : k ≤ s.run := by
  obtain ⟨k', run', hk', rfl, -, hstop⟩ := exists_of_clip_insert hs
  by_contra hlt
  have hle := runStart_le_of_lt hk' (Nat.lt_of_not_le hlt)
  rcases Nat.eq_zero_or_pos i with rfl | hpos
  · exact hlt (h.first rfl rfl ▸ Nat.zero_le _)
  · have hbefore := h.before rfl hpos
    unfold spanOf at hstop
    dsimp only at hstop
    omega

/-- An insertion goes to one span. -/
theorem clipRunSpans_insert {i : Nat} (h : Takes runs i i k run) :
    clipRunSpans (buildRunSpans runs) i i = [spanOf runs k run] := by
  have hmem : spanOf runs k run ∈ (buildRunSpans runs).filterMap (·.clip i i) := by
    refine List.mem_filterMap.mpr ⟨_, mem_buildRunSpans.mpr ⟨k, run, h.stands, rfl⟩, ?_⟩
    unfold RunSpan.clip spanOf
    rw [if_pos rfl, if_neg]
    have hstart := h.start
    have hstop := h.stop
    dsimp only
    omega
  obtain ⟨rest, hrest⟩ := exists_cons_of_least (clipped_sorted runs i i) hmem
    fun t ht ↦ h.le_of_clip_insert ht
  unfold clipRunSpans
  dsimp only
  rw [hrest]
  split
  · next hlength =>
    -- A later span that meets the place starts there, so that the first one ends there.
    have hstop : (spanOf runs k run).stop = i := by
      obtain ⟨t, tail, rfl⟩ := List.exists_cons_of_ne_nil (l := rest) (by
        rintro rfl
        exact absurd hlength.2 (Nat.lt_irrefl 1))
      have ht : t ∈ (buildRunSpans runs).filterMap (·.clip i i) := by
        rw [hrest]
        exact List.mem_cons_of_mem _ List.mem_cons_self
      obtain ⟨k', run', -, rfl, hstart, -⟩ := exists_of_clip_insert ht
      have hsorted := clipped_sorted runs i i
      rw [hrest] at hsorted
      have hlt : k < k' := (List.pairwise_cons.mp hsorted).1 _ List.mem_cons_self
      have hle := runStart_le_of_lt h.stands hlt
      have := h.stop
      unfold spanOf at hstart ⊢
      dsimp only at hstart ⊢
      omega
    rw [List.find?_cons_of_pos (by simpa using hstop)]
  · next hlength =>
    rw [List.length_cons] at hlength
    rw [List.eq_nil_of_length_eq_zero (l := rest) (by omega)]

/-- The part of a span in a range. -/
def clippedSpan (runs : List EditableRun) (i1 i2 k : Nat) (run : EditableRun) : RunSpan :=
  { spanOf runs k run with
    start := max (runStart runs k) i1
    stop := min (runStart runs k + run.text.length) i2 }

/-- A run has characters in a range, or is empty inside it. -/
def Meets (runs : List EditableRun) (i1 i2 k : Nat) (run : EditableRun) : Prop :=
  runs[k]? = some run ∧ i1 < runStart runs k + run.text.length ∧ runStart runs k < i2

/-- The clipped spans are those of the runs that a range meets. -/
theorem mem_clipRunSpans {i1 i2 : Nat} (hlt : i1 < i2) {span : RunSpan} :
    span ∈ clipRunSpans (buildRunSpans runs) i1 i2 ↔
      ∃ k run, Meets runs i1 i2 k run ∧ span = clippedSpan runs i1 i2 k run := by
  unfold clipRunSpans
  rw [if_neg fun h ↦ absurd h.1 (Nat.ne_of_lt hlt), List.mem_filterMap]
  constructor
  · rintro ⟨t, ht, hclip⟩
    obtain ⟨k, run, hk, rfl⟩ := mem_buildRunSpans.mp ht
    unfold RunSpan.clip at hclip
    rw [if_neg (Nat.ne_of_lt hlt)] at hclip
    split at hclip
    · cases hclip
    · next hmeets =>
      unfold spanOf at hmeets
      dsimp only at hmeets
      exact ⟨k, run, ⟨hk, by omega, by omega⟩, (Option.some.inj hclip).symm⟩
  · rintro ⟨k, run, ⟨hk, hstop, hstart⟩, rfl⟩
    refine ⟨_, mem_buildRunSpans.mpr ⟨k, run, hk, rfl⟩, ?_⟩
    unfold RunSpan.clip
    rw [if_neg (Nat.ne_of_lt hlt), if_neg]
    · rfl
    · unfold spanOf
      dsimp only
      omega

/-- A removed range begins in the span of its first character. -/
theorem clipRunSpans_remove {i1 i2 : Nat} (hlt : i1 < i2) (h : Takes runs i1 i2 k run) :
    ∃ rest, clipRunSpans (buildRunSpans runs) i1 i2 = clippedSpan runs i1 i2 k run :: rest ∧
      (clippedSpan runs i1 i2 k run :: rest).Pairwise fun s t ↦ s.run < t.run := by
  have hsorted : (clipRunSpans (buildRunSpans runs) i1 i2).Pairwise fun s t ↦ s.run < t.run := by
    unfold clipRunSpans
    rw [if_neg fun h ↦ absurd h.1 (Nat.ne_of_lt hlt)]
    exact clipped_sorted runs i1 i2
  have hinside := h.inside hlt
  have hstart := h.start
  obtain ⟨rest, hrest⟩ := exists_cons_of_least hsorted
    ((mem_clipRunSpans hlt).mpr ⟨k, run, ⟨h.stands, hinside, by omega⟩, rfl⟩) fun t ht ↦ by
      obtain ⟨k', run', ⟨hk', hstop', -⟩, rfl⟩ := (mem_clipRunSpans hlt).mp ht
      show k ≤ k'
      by_contra hnot
      have := runStart_le_of_lt hk' (Nat.lt_of_not_le hnot)
      omega
  exact ⟨rest, hrest, hrest ▸ hsorted⟩

end Jobtology.Editing
