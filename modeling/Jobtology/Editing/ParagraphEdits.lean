import Jobtology.Editing.TaggedRuns
import Mathlib.Data.List.Nodup

/-!
# Text and places of an edited paragraph

An edit makes the new text of a paragraph, and every character that the script keeps stays in its
run.
-/

namespace Jobtology.Editing

open Jobtology.Base Jobtology.Base.SequenceMatcher

variable {runs : List EditableRun} {run other : EditableRun} {k m : Nat} {r : Replacement}
  {done newText : List Char}

/-! ### One run -/

/-- A run up to a place of the paragraph: what is done, and what is left of its text. -/
structure RunTracks (runs : List EditableRun) (k : Nat) (run : EditableRun) (done : List Char)
    (i : Nat) (r : Replacement) : Prop where
  text : r.runs[k]? = some ⟨run.nodeId, done ++ run.text.drop (i - runStart runs k)⟩
  delta : r.offsetDeltas run.nodeId =
    (done.length + (run.text.length - (i - runStart runs k)) : Nat) - (run.text.length : Int)
  reported : r.runs[k]? = some run ∨ run.nodeId ∈ r.result.modifiedRunIds

/-- Appending adds the value and keeps the others. -/
theorem mem_appendUnique {values : List String} {value v : String} :
    v ∈ appendUnique values value ↔ v ∈ values ∨ v = value := by
  unfold appendUnique
  split
  · next hmem =>
    constructor
    · exact .inl
    · rintro (h | rfl)
      · exact h
      · exact hmem
  · rw [List.mem_append, List.mem_singleton]

/-- Where a run meets no part of a range, passing the range changes nothing. -/
theorem RunTracks.pass {i i' : Nat} (h : RunTracks runs k run done i r) (hle : i ≤ i')
    (hout : runStart runs k + run.text.length ≤ i ∨ i' ≤ runStart runs k) :
    RunTracks runs k run done i' r := by
  obtain ⟨htext, hdelta, hreported⟩ := h
  rcases hout with hout | hout
  · rw [List.drop_eq_nil_of_le (by omega)] at htext
    refine ⟨?_, ?_, hreported⟩
    · rw [htext, List.drop_eq_nil_of_le (by omega)]
    · rw [hdelta]
      omega
  · rw [show i - runStart runs k = i' - runStart runs k by omega] at htext hdelta
    exact ⟨htext, hdelta, hreported⟩

/-- Before the part of the run that a range meets, nothing changes. -/
theorem RunTracks.enter {i : Nat} (h : RunTracks runs k run done i r) :
    RunTracks runs k run done (max (runStart runs k) i) r := by
  rcases Nat.le_total (runStart runs k) i with hle | hle
  · rwa [Nat.max_eq_right hle]
  · rw [Nat.max_eq_left hle]
    exact h.pass hle (.inr (Nat.le_refl _))

/-- After the part of the run that a range meets, nothing changes. -/
theorem RunTracks.leave {i : Nat}
    (h : RunTracks runs k run done (min (runStart runs k + run.text.length) i) r) :
    RunTracks runs k run done i r := by
  rcases Nat.le_total (runStart runs k + run.text.length) i with hle | hle
  · rw [Nat.min_eq_left hle] at h
    exact h.pass hle (.inl (Nat.le_refl _))
  · rwa [Nat.min_eq_right hle] at h

/-- Passing a range that is kept, what the run has of it is done. -/
theorem RunTracks.keep {i i' : Nat} (h : RunTracks runs k run done i r) (hle : i ≤ i') :
    RunTracks runs k run
      (done ++ slice (i - runStart runs k) (i' - runStart runs k) run.text) i' r := by
  obtain ⟨htext, hdelta, hreported⟩ := h
  refine ⟨?_, ?_, hreported⟩
  · rw [htext, List.append_assoc, slice_append_drop (by omega)]
  · rw [hdelta, List.length_append, length_slice]
    omega

/-- The place in the current text that a place of the run has moved to. -/
theorem sliceIndex_moved {text : List Char} {n : Nat} (h : n ≤ text.length) :
    sliceIndex text n = n := by
  unfold sliceIndex
  rw [if_neg (by omega), Int.toNat_natCast, Nat.min_eq_left h]

/-- A part of the run is replaced. -/
theorem RunTracks.apply (span : RunSpan) (newText : List Char) {x y : Nat}
    (h : RunTracks runs k run done x r) (hrun : span.run = k) (hid : span.nodeId = run.nodeId)
    (hfull : span.fullStart = runStart runs k) (hx : runStart runs k ≤ x) (hxy : x ≤ y)
    (hy : y ≤ runStart runs k + run.text.length) :
    RunTracks runs k run (done ++ newText) y (r.applyToSpan span newText x y) := by
  obtain ⟨htext, hdelta, -⟩ := h
  have hstart : ((x : Int) - span.fullStart) + r.offsetDeltas span.nodeId = done.length := by
    rw [hid, hdelta, hfull]
    omega
  have hstop : ((y : Int) - span.fullStart) + r.offsetDeltas span.nodeId =
      (done.length + (y - x) : Nat) := by
    rw [hid, hdelta, hfull]
    omega
  have hlength : (done ++ run.text.drop (x - runStart runs k)).length =
      done.length + (run.text.length - (x - runStart runs k)) := by
    rw [List.length_append, List.length_drop]
  unfold Replacement.applyToSpan Replacement.applyToRun
  dsimp only
  rw [hstart, hstop, hrun, hid]
  refine ⟨?_, ?_, .inr (mem_appendUnique.mpr (.inr rfl))⟩
  · rw [List.getElem?_modify_eq, htext, Option.map_eq_map, Option.map_some]
    unfold Editing.applyToRun
    dsimp only
    rw [sliceIndex_moved (by omega), sliceIndex_moved (by omega), List.take_left, List.drop_append,
      List.drop_drop]
    rw [List.drop_eq_nil_of_le (by omega), List.nil_append,
      show x - runStart runs k + (done.length + (y - x) - done.length) = y - runStart runs k by
        omega]
  · dsimp only
    rw [Function.update_self, hdelta, List.length_append, hfull]
    omega

private theorem nodeId_ne (hids : (runs.map (·.nodeId)).Nodup) (h : runs[k]? = some run)
    (h' : runs[m]? = some other) (hne : k ≠ m) : run.nodeId ≠ other.nodeId := by
  intro heq
  have hk := (List.getElem?_eq_some_iff.mp h)
  have hm := (List.getElem?_eq_some_iff.mp h')
  refine hne ((@List.Nodup.getElem_inj_iff _ _ hids k (by simpa using hk.1) m
    (by simpa using hm.1)).mp ?_)
  rw [List.getElem_map, List.getElem_map, hk.2, hm.2, heq]

/-- The other runs are left alone. -/
theorem RunTracks.elsewhere (span : RunSpan) (newText : List Char) (x y : Nat) {i : Nat}
    (h : RunTracks runs k run done i r)
    (hne : span.run ≠ k) (hid : span.nodeId ≠ run.nodeId) :
    RunTracks runs k run done i (r.applyToSpan span newText x y) := by
  obtain ⟨htext, hdelta, hreported⟩ := h
  have hsame : (r.applyToSpan span newText x y).runs[k]? = r.runs[k]? :=
    List.getElem?_modify_ne _ _ hne
  refine ⟨hsame.trans htext, ?_, ?_⟩
  · exact (Function.update_of_ne hid.symm _ _).trans hdelta
  · rw [hsame]
    exact hreported.imp_right fun hmem ↦ mem_appendUnique.mpr (.inl hmem)

/-! ### One opcode -/

/-- The parts of later spans are removed one after the other. -/
theorem RunTracks.removed (done : List Char) {i1 i2 : Nat} {spans : List RunSpan}
    (hids : (runs.map (·.nodeId)).Nodup) (hk : runs[k]? = some run)
    (hsorted : spans.Pairwise fun s t ↦ s.run < t.run)
    (hspans : ∀ s ∈ spans, ∃ m other, Meets runs i1 i2 m other ∧
      s = clippedSpan runs i1 i2 m other) (hlt : i1 < i2) :
    ∀ r : Replacement,
      ((∀ s ∈ spans, s.run ≠ k) → ∀ i, RunTracks runs k run done i r →
        RunTracks runs k run done i
          (spans.foldl (fun r s ↦ r.applyToSpan s [] s.start s.stop) r)) ∧
      (clippedSpan runs i1 i2 k run ∈ spans → RunTracks runs k run done i1 r →
        RunTracks runs k run done i2
          (spans.foldl (fun r s ↦ r.applyToSpan s [] s.start s.stop) r)) := by
  induction spans with
  | nil => exact fun r ↦ ⟨fun _ i h ↦ h, fun h ↦ absurd h List.not_mem_nil⟩
  | cons s rest ih =>
    intro r
    obtain ⟨hs, hrestSorted⟩ := List.pairwise_cons.mp hsorted
    obtain ⟨⟨m, other, hmeets, rfl⟩, hrestSpans⟩ := List.forall_mem_cons.mp hspans
    have hrest := ih hrestSorted hrestSpans
    refine ⟨fun hout i h ↦ ?_, fun hmem h ↦ ?_⟩
    · obtain ⟨hne, hout⟩ := List.forall_mem_cons.mp hout
      exact (hrest _).1 hout i (h.elsewhere _ _ _ _ hne (nodeId_ne hids hmeets.1 hk hne))
    · by_cases hne : m = k
      · subst hne
        obtain rfl : run = other := Option.some.inj (hk.symm.trans hmeets.1)
        have hstop := hmeets.2.1
        have hstart := hmeets.2.2
        have hout : ∀ s ∈ rest, s.run ≠ m := fun s hs' heq ↦
          absurd (hs s hs') (by rw [heq]; exact Nat.lt_irrefl _)
        have happlied := h.enter.apply (clippedSpan runs i1 i2 m run) []
          (y := min (runStart runs m + run.text.length) i2) rfl rfl rfl (by omega) (by omega)
          (by omega)
        rw [List.append_nil] at happlied
        exact ((hrest _).1 hout _ happlied).leave
      · rcases List.mem_cons.mp hmem with heq | hmem
        · exact absurd (congrArg RunSpan.run heq).symm hne
        · exact (hrest _).2 hmem (h.elsewhere _ _ _ _ hne (nodeId_ne hids hmeets.1 hk hne))

/-- The first run takes the new text, the others lose their parts of the range. -/
theorem RunTracks.fallback {i1 i2 : Nat} {rest : List RunSpan}
    (hids : (runs.map (·.nodeId)).Nodup) (hk : runs[k]? = some run) (hlt : i1 < i2)
    (htakes : Takes runs i1 i2 m other)
    (hclip : clipRunSpans (buildRunSpans runs) i1 i2 = clippedSpan runs i1 i2 m other :: rest)
    (hsorted : (clippedSpan runs i1 i2 m other :: rest).Pairwise fun s t ↦ s.run < t.run)
    (h : RunTracks runs k run done i1 r) :
    RunTracks runs k run (done ++ if m = k then newText else []) i2
      (r.applyFallback newText (clippedSpan runs i1 i2 m other :: rest)) := by
  obtain ⟨hlater, hrestSorted⟩ := List.pairwise_cons.mp hsorted
  have hspans : ∀ s ∈ clippedSpan runs i1 i2 m other :: rest, ∃ m other,
      Meets runs i1 i2 m other ∧ s = clippedSpan runs i1 i2 m other :=
    fun s hs ↦ (mem_clipRunSpans hlt).mp (hclip ▸ hs)
  have hrest := RunTracks.removed (done ++ if m = k then newText else []) hids hk hrestSorted
    (fun s hs ↦ hspans s (List.mem_cons_of_mem _ hs)) hlt
    (r.applyToSpan (clippedSpan runs i1 i2 m other) newText
      (clippedSpan runs i1 i2 m other).start (clippedSpan runs i1 i2 m other).stop)
  have hdone : RunTracks runs k run (done ++ if m = k then newText else []) i2
      (rest.foldl (fun r s ↦ r.applyToSpan s [] s.start s.stop)
        (r.applyToSpan (clippedSpan runs i1 i2 m other) newText
          (clippedSpan runs i1 i2 m other).start (clippedSpan runs i1 i2 m other).stop)) := by
    by_cases hne : m = k
    · subst hne
      obtain rfl : run = other := Option.some.inj (hk.symm.trans htakes.stands)
      have hinside := htakes.inside hlt
      have hstart := htakes.start
      rw [if_pos rfl] at hrest ⊢
      have hout : ∀ s ∈ rest, s.run ≠ m := fun s hs heq ↦
        absurd (hlater s hs) (by rw [heq]; exact Nat.lt_irrefl _)
      have happlied := h.enter.apply (clippedSpan runs i1 i2 m run) newText
        (y := min (runStart runs m + run.text.length) i2) rfl rfl rfl (by omega) (by omega)
        (by omega)
      exact (hrest.1 hout _ happlied).leave
    · rw [if_neg hne, List.append_nil] at hrest ⊢
      have hbefore := h.elsewhere (clippedSpan runs i1 i2 m other) newText
        (clippedSpan runs i1 i2 m other).start (clippedSpan runs i1 i2 m other).stop hne
        (nodeId_ne hids htakes.stands hk hne)
      by_cases hmem : clippedSpan runs i1 i2 k run ∈ rest
      · exact hrest.2 hmem hbefore
      · have hnot : ¬Meets runs i1 i2 k run := fun hmeets ↦ by
          have hin := (mem_clipRunSpans hlt).mpr ⟨k, run, hmeets, rfl⟩
          rw [hclip] at hin
          rcases List.mem_cons.mp hin with heq | hin
          · exact hne (congrArg RunSpan.run heq).symm
          · exact hmem hin
        have hout : ∀ s ∈ rest, s.run ≠ k := by
          intro s hs heq
          obtain ⟨m', other', hmeets, rfl⟩ := hspans s (List.mem_cons_of_mem _ hs)
          obtain rfl : m' = k := heq
          obtain rfl : run = other' := Option.some.inj (hk.symm.trans hmeets.1)
          exact hnot hmeets
        refine (hrest.1 hout _ hbefore).pass (Nat.le_of_lt hlt) ?_
        by_contra hcon
        exact hnot ⟨hk, by omega, by omega⟩
  exact ⟨hdone.text, hdone.delta, hdone.reported⟩

/-- Clipped spans are clipped already. -/
theorem clipRunSpans_clipRunSpans {i1 i2 : Nat} (hlt : i1 < i2) :
    clipRunSpans (clipRunSpans (buildRunSpans runs) i1 i2) i1 i2 =
      clipRunSpans (buildRunSpans runs) i1 i2 := by
  have hclip : ∀ s ∈ clipRunSpans (buildRunSpans runs) i1 i2, s.clip i1 i2 = some s := by
    intro s hs
    obtain ⟨k, run, ⟨-, hstop, hstart⟩, rfl⟩ := (mem_clipRunSpans hlt).mp hs
    unfold RunSpan.clip
    rw [if_neg (Nat.ne_of_lt hlt), if_neg]
    · unfold clippedSpan
      dsimp only
      rw [Nat.max_eq_left (Nat.le_max_right _ _), Nat.min_eq_left (Nat.min_le_right _ _)]
    · unfold clippedSpan
      dsimp only
      omega
  generalize clipRunSpans (buildRunSpans runs) i1 i2 = spans at hclip ⊢
  unfold clipRunSpans
  rw [if_neg fun h ↦ absurd h.1 (Nat.ne_of_lt hlt), List.filterMap_congr hclip,
    List.filterMap_some]

/-- What an opcode changes has nothing in common, so that the second matcher finds nothing. -/
theorem applyMultiRun_eq {b : List Char} {o : Opcode} {affected : List RunSpan}
    (hlt : o.i1 < o.i2) (ha : o.i2 ≤ (runsText runs).length) (hj : o.j1 ≤ o.j2)
    (hb : o.j2 ≤ b.length) (hsound : o.Sound (runsText runs) b) (htag : o.tag ≠ .equal)
    (haffected : clipRunSpans (buildRunSpans runs) o.i1 o.i2 = affected)
    (hseveral : 1 < affected.length) :
    r.applyMultiRun (slice o.i1 o.i2 (runsText runs)) (slice o.j1 o.j2 b) affected o.i1 =
      r.applyFallback (slice o.j1 o.j2 b) affected := by
  have hlengthA : (slice o.i1 o.i2 (runsText runs)).length = o.i2 - o.i1 := by
    rw [length_slice, Nat.min_eq_left ha]
  have hlengthB : (slice o.j1 o.j2 b).length = o.j2 - o.j1 := by
    rw [length_slice, Nat.min_eq_left hb]
  have hapart : Apart (slice o.i1 o.i2 (runsText runs)) (slice o.j1 o.j2 b) 0
      (slice o.i1 o.i2 (runsText runs)).length 0 (slice o.j1 o.j2 b).length := by
    intro i j _ hi _ hj' heq
    rw [hlengthA] at hi
    rw [hlengthB] at hj'
    rw [getElem?_slice (by omega), getElem?_slice (by omega)] at heq
    unfold Opcode.Sound at hsound
    cases hcase : o.tag <;> rw [hcase] at hsound
    · exact hsound.2.2 _ _ (by omega) (by omega) (by omega) (by omega) heq
    · have := hsound.2
      omega
    · have := hsound.1
      omega
    · exact htag hcase
  have hone : ∃ tag : Tag, tag ≠ .equal ∧ getOpcodes (slice o.i1 o.i2 (runsText runs))
      (slice o.j1 o.j2 b) = [⟨tag, 0, o.i2 - o.i1, 0, o.j2 - o.j1⟩] := by
    rw [getOpcodes_of_apart hapart, hlengthA, hlengthB]
    unfold gapOpcode
    split
    · exact ⟨.replace, by decide, rfl⟩
    · rw [if_pos (by omega)]
      exact ⟨.delete, by decide, rfl⟩
  obtain ⟨tag, hchange, hone⟩ := hone
  have hspans : clipRunSpans affected (o.i1 + 0) (o.i1 + (o.i2 - o.i1)) = affected := by
    rw [Nat.add_zero, Nat.add_sub_cancel' (Nat.le_of_lt hlt), ← haffected]
    exact clipRunSpans_clipRunSpans hlt
  unfold Replacement.applyMultiRun
  rw [hone, List.foldl_cons, List.foldl_nil]
  unfold Replacement.applyOpcode
  dsimp only
  rw [if_neg hchange, hspans]
  have hnew : slice 0 (o.j2 - o.j1) (slice o.j1 o.j2 b) = slice o.j1 o.j2 b := by
    rw [← hlengthB]
    unfold slice
    rw [List.drop_zero, List.take_length]
  split
  · exact absurd hseveral (by decide)
  · exact absurd hseveral (Nat.lt_irrefl 1)
  · rw [hnew]

/-- The loop of `_replace_paragraph_text`. -/
def replaceStep (runs : List EditableRun) (newText : List Char) :
    Replacement → Opcode → Replacement :=
  Replacement.applyOpcode (fun r affected o ↦ r.applyMultiRun (slice o.i1 o.i2 (runsText runs))
    (slice o.j1 o.j2 newText) affected o.i1) (buildRunSpans runs) newText 0

/-- Runs stay in number, and what is reported stays so. -/
structure Replacement.Extends (r r' : Replacement) : Prop where
  size : r'.runs.length = r.runs.length
  reported : r.result.modifiedRunIds ⊆ r'.result.modifiedRunIds
  applied : r'.result.editsApplied = r.result.editsApplied

/-- A replacement extends itself. -/
theorem Replacement.Extends.refl (r : Replacement) : r.Extends r := ⟨rfl, List.Subset.refl _, rfl⟩

/-- Extension is transitive. -/
theorem Replacement.Extends.trans {r r' r'' : Replacement} (h : r.Extends r')
    (h' : r'.Extends r'') : r.Extends r'' :=
  ⟨h'.size.trans h.size, List.Subset.trans h.reported h'.reported, h'.applied.trans h.applied⟩

private theorem foldl_extends {α : Type} {f : Replacement → α → Replacement}
    (hf : ∀ (r : Replacement) x, r.Extends (f r x)) (xs : List α) (r : Replacement) :
    r.Extends (xs.foldl f r) := by
  induction xs generalizing r with
  | nil => exact .refl r
  | cons x xs ih => exact (hf r x).trans (ih (f r x))

private theorem applyToSpan_extends (r : Replacement) (span : RunSpan) (text : List Char)
    (x y : Nat) : r.Extends (r.applyToSpan span text x y) :=
  ⟨List.length_modify _ _ _, fun _ h ↦ mem_appendUnique.mpr (.inl h), rfl⟩

private theorem applyFallback_extends (r : Replacement) (text : List Char) (spans : List RunSpan) :
    r.Extends (r.applyFallback text spans) := by
  cases spans with
  | nil => exact .refl r
  | cons first rest =>
    have hrest := (applyToSpan_extends r first text first.start first.stop).trans
      (foldl_extends (fun r s ↦ applyToSpan_extends r s [] s.start s.stop) rest _)
    exact ⟨hrest.size, hrest.reported, hrest.applied⟩

private theorem applyOpcode_extends
    {several : Replacement → List RunSpan → Opcode → Replacement}
    (hseveral : ∀ (r : Replacement) spans o, r.Extends (several r spans o)) (spans : List RunSpan)
    (text : List Char) (base : Nat) (r : Replacement) (o : Opcode) :
    r.Extends (r.applyOpcode several spans text base o) := by
  unfold Replacement.applyOpcode
  split
  · exact .refl r
  · split
    · exact .refl r
    · exact applyToSpan_extends r _ _ _ _
    · exact hseveral r _ o

private theorem replaceStep_extends (b : List Char) (r : Replacement) (o : Opcode) :
    r.Extends (replaceStep runs b r o) :=
  applyOpcode_extends (fun r _ _ ↦ foldl_extends (applyOpcode_extends
    (fun r spans _ ↦ applyFallback_extends r _ spans) _ _ _) _ r) _ _ _ r o

/-- A change gives its new text to one run, and passes its range. -/
theorem RunTracks.change {b : List Char} {o : Opcode} (hids : (runs.map (·.nodeId)).Nodup)
    (hk : runs[k]? = some run) (hi : o.i1 ≤ o.i2) (ha : o.i2 ≤ (runsText runs).length)
    (hj : o.j1 ≤ o.j2) (hb : o.j2 ≤ b.length) (hsound : o.Sound (runsText runs) b)
    (htag : o.tag ≠ .equal) (htakes : Takes runs o.i1 o.i2 m other)
    (h : RunTracks runs k run done o.i1 r) :
    RunTracks runs k run (done ++ if m = k then slice o.j1 o.j2 b else []) o.i2
      (replaceStep runs b r o) := by
  have hwhole (span : RunSpan) (hspan : span.run = m ∧ span.nodeId = other.nodeId ∧
      span.fullStart = runStart runs m) (hle : o.i2 ≤ runStart runs m + other.text.length) :
      RunTracks runs k run (done ++ if m = k then slice o.j1 o.j2 b else []) o.i2
        (r.applyToSpan span (slice o.j1 o.j2 b) o.i1 o.i2) := by
    by_cases hne : m = k
    · subst hne
      obtain rfl : run = other := Option.some.inj (hk.symm.trans htakes.stands)
      rw [if_pos rfl]
      exact h.apply span _ hspan.1 hspan.2.1 hspan.2.2 htakes.start hi hle
    · rw [if_neg hne, List.append_nil]
      have hid := nodeId_ne hids htakes.stands hk hne
      refine (h.elsewhere span _ _ _ (hspan.1 ▸ hne) (hspan.2.1 ▸ hid)).pass hi ?_
      have hstart := htakes.start
      rcases Nat.lt_or_gt_of_ne hne with hlt | hlt
      · have := runStart_le_of_lt htakes.stands hlt
        omega
      · have := runStart_le_of_lt hk hlt
        omega
  unfold replaceStep Replacement.applyOpcode
  rw [if_neg htag, Nat.zero_add, Nat.zero_add]
  rcases Nat.eq_or_lt_of_le hi with heq | hlt
  · rw [← heq] at htakes ⊢
    rw [clipRunSpans_insert htakes]
    dsimp only
    rw [← heq] at hwhole
    exact hwhole _ ⟨rfl, rfl, rfl⟩ htakes.stop
  · obtain ⟨rest, hclip, hsorted⟩ := clipRunSpans_remove hlt htakes
    rw [hclip]
    cases rest with
    | nil =>
      -- The only span that the range meets has its last character too.
      have hle : o.i2 ≤ runStart runs m + other.text.length := by
        obtain ⟨k', run', hk', hstart, hstop⟩ := @exists_run runs (o.i2 - 1) (by omega)
        have hin := (mem_clipRunSpans hlt).mpr ⟨k', run', ⟨hk', by omega, by omega⟩, rfl⟩
        rw [hclip] at hin
        obtain rfl : k' = m := congrArg RunSpan.run (List.mem_singleton.mp hin)
        obtain rfl : run' = other := Option.some.inj (hk'.symm.trans htakes.stands)
        omega
      exact hwhole _ ⟨rfl, rfl, rfl⟩ hle
    | cons second rest =>
      dsimp only
      rw [applyMultiRun_eq hlt ha hj hb hsound htag hclip (by simp)]
      exact h.fallback hids hk hlt htakes hclip hsorted

/-! ### Scripts -/

/-- The state after a part of a script: the characters so far in the order of their runs, and every
run as far as it is passed. -/
structure Follows (runs : List EditableRun) (b : List Char) (i j : Nat)
    (chars : List (Char × Nat)) (r : Replacement) : Prop where
  size : r.runs.length = runs.length
  tracks : ∀ k run, runs[k]? = some run → RunTracks runs k run (textOf k chars) i r
  text : chars.map (·.1) = b.take j
  sorted : chars.Pairwise fun x y ↦ x.2 ≤ y.2
  range : ∀ x ∈ chars, x.2 < runs.length
  passed : ∀ x ∈ chars, ∀ k run, runs[k]? = some run → k < x.2 →
    runStart runs k + run.text.length < i

variable {b : List Char} {i j : Nat} {chars : List (Char × Nat)}

/-- Characters of runs that are not passed come after those so far. -/
theorem Follows.sorted_append {more : List (Char × Nat)} (h : Follows runs b i j chars r)
    (hmore : more.Pairwise fun x y ↦ x.2 ≤ y.2)
    (hrun : ∀ y ∈ more, ∃ run, runs[y.2]? = some run ∧ i ≤ runStart runs y.2 + run.text.length) :
    (chars ++ more).Pairwise fun x y ↦ x.2 ≤ y.2 := by
  refine List.pairwise_append.mpr ⟨h.sorted, hmore, fun x hx y hy ↦ ?_⟩
  by_contra hlt
  obtain ⟨run, hk, hle⟩ := hrun y hy
  have hpassed := h.passed x hx y.2 run hk (Nat.lt_of_not_le hlt)
  omega

/-- The characters of a paragraph stand in the order of their runs. -/
theorem taggedFrom_sorted (m : Nat) (runs : List EditableRun) :
    (taggedFrom m runs).Pairwise fun x y ↦ x.2 ≤ y.2 := by
  refine List.pairwise_iff_getElem.mpr fun p q hp hq hlt ↦ ?_
  obtain ⟨k, run, hk, htag, hstart, hc⟩ :=
    getElem?_taggedFrom.mp (List.getElem?_eq_getElem hp)
  obtain ⟨k', run', hk', htag', hstart', hc'⟩ :=
    getElem?_taggedFrom.mp (List.getElem?_eq_getElem hq)
  have hin := (List.getElem?_eq_some_iff.mp hc').1
  rw [show (taggedFrom m runs)[p].2 = m + k from htag,
    show (taggedFrom m runs)[q].2 = m + k' from htag']
  by_contra hnot
  have := @runStart_le_of_lt _ _ _ k hk' (by omega)
  omega

/-- A kept range stays in its runs. -/
theorem Follows.keep {o : Opcode} (h : Follows runs b o.i1 o.j1 chars r)
    (hi : o.i1 ≤ o.i2) (ha : o.i2 ≤ (runsText runs).length) (hb : o.j2 ≤ b.length)
    (hlength : o.i2 - o.i1 = o.j2 - o.j1) (hj : o.j1 ≤ o.j2)
    (hsame : Same (runsText runs) b o.i1 o.j1 (o.i2 - o.i1)) :
    Follows runs b o.i2 o.j2 (chars ++ slice o.i1 o.i2 (taggedRuns runs)) r := by
  have hkept {y : Char × Nat} (hy : y ∈ slice o.i1 o.i2 (taggedRuns runs)) :
      ∃ run, runs[y.2]? = some run ∧ o.i1 < runStart runs y.2 + run.text.length ∧
        runStart runs y.2 < o.i2 := by
    obtain ⟨p, hp⟩ := List.mem_iff_getElem?.mp hy
    have hlt : p < o.i2 - o.i1 := by
      have hin := (List.getElem?_eq_some_iff.mp hp).1
      rw [length_slice] at hin
      omega
    rw [getElem?_slice (by omega)] at hp
    obtain ⟨k, run, hk, htag, hstart, hc⟩ := getElem?_taggedFrom.mp hp
    obtain rfl : y.2 = k := by omega
    have hin := (List.getElem?_eq_some_iff.mp hc).1
    exact ⟨run, hk, by omega, by omega⟩
  constructor
  case size => exact h.size
  case tracks =>
    intro k run hk
    have hpart := textOf_slice_taggedFrom hk 0 o.i1 o.i2
    rw [Nat.zero_add] at hpart
    rw [textOf_append, taggedRuns, hpart]
    exact (h.tracks k run hk).keep hi
  case text =>
    have hslice : (slice o.i1 o.i2 (taggedRuns runs)).map (·.1) = slice o.j1 o.j2 b := by
      unfold slice taggedRuns
      rw [List.map_drop, List.map_take, map_fst_taggedFrom]
      change slice o.i1 o.i2 (runsText runs) = slice o.j1 o.j2 b
      refine List.ext_getElem? fun p ↦ ?_
      by_cases hp : p < o.i2 - o.i1
      · rw [getElem?_slice (by omega), getElem?_slice (by omega)]
        exact hsame p hp
      · rw [List.getElem?_eq_none (by rw [length_slice]; omega),
          List.getElem?_eq_none (by rw [length_slice]; omega)]
    rw [List.map_append, h.text, hslice, take_append_slice hj]
  case sorted =>
    refine h.sorted_append ((taggedFrom_sorted 0 runs).sublist ?_) fun y hy ↦ ?_
    · exact (List.drop_sublist _ _).trans (List.take_sublist _ _)
    · obtain ⟨run, hk, hlt, -⟩ := hkept hy
      exact ⟨run, hk, Nat.le_of_lt hlt⟩
  case range =>
    intro x hx
    rcases List.mem_append.mp hx with hx | hx
    · exact h.range x hx
    · obtain ⟨run, hk, -, -⟩ := hkept hx
      exact (List.getElem?_eq_some_iff.mp hk).1
  case passed =>
    intro x hx k run hk hlt
    rcases List.mem_append.mp hx with hx | hx
    · exact Nat.lt_of_lt_of_le (h.passed x hx k run hk hlt) hi
    · obtain ⟨run', hk', -, hstart⟩ := hkept hx
      have := runStart_le_of_lt hk hlt
      omega

/-- A change adds its new text to the run that takes it. -/
theorem Follows.change {o : Opcode} (hids : (runs.map (·.nodeId)).Nodup)
    (h : Follows runs b o.i1 o.j1 chars r) (hi : o.i1 ≤ o.i2)
    (ha : o.i2 ≤ (runsText runs).length) (hj : o.j1 ≤ o.j2) (hb : o.j2 ≤ b.length)
    (hsound : o.Sound (runsText runs) b) (htag : o.tag ≠ .equal)
    (htakes : Takes runs o.i1 o.i2 m other) :
    Follows runs b o.i2 o.j2 (chars ++ (slice o.j1 o.j2 b).map (·, m))
      (replaceStep runs b r o) := by
  have hnew {y : Char × Nat} (hy : y ∈ (slice o.j1 o.j2 b).map (·, m)) : y.2 = m := by
    obtain ⟨c, -, rfl⟩ := List.mem_map.mp hy
    rfl
  have hchange (k : Nat) (run : EditableRun) (hk : runs[k]? = some run) :=
    (h.tracks k run hk).change hids hk hi ha hj hb hsound htag htakes
  constructor
  case size =>
    exact (replaceStep_extends b r o).size.trans h.size
  case tracks =>
    intro k run hk
    rw [textOf_append, textOf_const]
    exact hchange k run hk
  case text =>
    rw [List.map_append, h.text, List.map_map]
    exact (congrArg _ (List.map_id _)).trans (take_append_slice hj b)
  case sorted =>
    refine h.sorted_append (List.pairwise_of_forall_mem_list fun x hx y hy ↦ ?_) fun y hy ↦ ?_
    · rw [hnew hx, hnew hy]
    · rw [hnew hy]
      exact ⟨other, htakes.stands, htakes.stop⟩
  case range =>
    intro x hx
    rcases List.mem_append.mp hx with hx | hx
    · exact h.range x hx
    · rw [hnew hx]
      exact (List.getElem?_eq_some_iff.mp htakes.stands).1
  case passed =>
    intro x hx k run hk hlt
    rcases List.mem_append.mp hx with hx | hx
    · exact Nat.lt_of_lt_of_le (h.passed x hx k run hk hlt) hi
    · rw [hnew hx] at hlt
      have hle := runStart_le_of_lt hk hlt
      have hstart := htakes.start
      rcases Nat.eq_or_lt_of_le hi with heq | hlt'
      · rcases Nat.eq_zero_or_pos o.i1 with hzero | hpos
        · rw [htakes.first hzero heq] at hlt
          exact absurd hlt (Nat.not_lt_zero _)
        · have := htakes.before heq hpos
          omega
      · omega

/-- Every step of a script is followed. -/
theorem Follows.step {o : Opcode} (hids : (runs.map (·.nodeId)).Nodup) (hne : runs ≠ [])
    (h : Follows runs b o.i1 o.j1 chars r) (hi : o.i1 ≤ o.i2)
    (ha : o.i2 ≤ (runsText runs).length) (hj : o.j1 ≤ o.j2) (hb : o.j2 ≤ b.length)
    (hsound : o.Sound (runsText runs) b) :
    ∃ more, Follows runs b o.i2 o.j2 (chars ++ more) (replaceStep runs b r o) ∧
      (o.tag = .equal → more = slice o.i1 o.i2 (taggedRuns runs)) := by
  by_cases htag : o.tag = .equal
  · unfold Opcode.Sound at hsound
    rw [htag] at hsound
    have hstep : replaceStep runs b r o = r := if_pos htag
    rw [hstep]
    exact ⟨_, h.keep hi ha hb hsound.1 hj hsound.2, fun _ ↦ rfl⟩
  · obtain ⟨m, other, htakes⟩ := exists_takes hne hi ha
    exact ⟨_, h.change hids hi ha hj hb hsound htag htakes, fun heq ↦ absurd heq htag⟩

/-- A script is followed to its end, and what it keeps stays in its runs. -/
theorem Follows.script {os : List Opcode} (hids : (runs.map (·.nodeId)).Nodup)
    (hne : runs ≠ []) (hscript : IsScript (runsText runs) b i j os)
    (h : Follows runs b i j chars r) :
    ∃ more, Follows runs b (runsText runs).length b.length (chars ++ more)
        (os.foldl (replaceStep runs b) r) ∧
      ∀ o ∈ os, o.tag = .equal → ∀ d < o.i2 - o.i1,
        (chars ++ more)[o.j1 + d]? = (taggedRuns runs)[o.i1 + d]? := by
  induction os generalizing i j chars r with
  | nil =>
    obtain ⟨rfl, rfl⟩ := hscript
    exact ⟨[], by rwa [List.append_nil], fun o ho ↦ absurd ho List.not_mem_nil⟩
  | cons o os ih =>
    obtain ⟨rfl, rfl, ⟨hi, ha⟩, ⟨hj, hb⟩, hsound, hscript⟩ := hscript
    obtain ⟨here, hstep, hkept⟩ := h.step hids hne hi ha hj hb hsound
    obtain ⟨more, hend, hrest⟩ := ih hscript hstep
    rw [List.append_assoc] at hend hrest
    refine ⟨here ++ more, hend, List.forall_mem_cons.mpr ⟨fun htag d hd ↦ ?_, hrest⟩⟩
    have hlength : chars.length = o.j1 := by
      have := congrArg List.length h.text
      rw [List.length_map, List.length_take] at this
      omega
    have hhere : here.length = o.i2 - o.i1 := by
      rw [hkept htag, length_slice, taggedRuns, length_taggedFrom]
      omega
    rw [List.getElem?_append_right (by omega), hlength, Nat.add_sub_cancel_left,
      List.getElem?_append_left (by omega), hkept htag, getElem?_slice (by omega)]

/-! ### The whole paragraph -/

/-- A text takes the place of the text of the runs: the runs stay in number and identity, what both
texts have in common by their script stays in its run, and a run that changes is reported. -/
structure Replaced (runs : List EditableRun) (newText : List Char) (replaced : List EditableRun)
    (result : EditResult) : Prop where
  text : runsText replaced = newText
  ids : replaced.map (·.nodeId) = runs.map (·.nodeId)
  kept : ∀ o ∈ getOpcodes (runsText runs) newText, o.tag = .equal → ∀ d < o.i2 - o.i1,
    (taggedRuns replaced)[o.j1 + d]? = (taggedRuns runs)[o.i1 + d]?
  reported : ∀ (k : Nat) (run : EditableRun), runs[k]? = some run →
    replaced[k]? = some run ∨ run.nodeId ∈ result.modifiedRunIds

/-- Runs that are followed to the end hold the new text. -/
theorem Follows.replaced {chars : List (Char × Nat)}
    (h : Follows runs b (runsText runs).length b.length chars r)
    (hkept : ∀ o ∈ getOpcodes (runsText runs) b, o.tag = .equal → ∀ d < o.i2 - o.i1,
      chars[o.j1 + d]? = (taggedRuns runs)[o.i1 + d]?) :
    Replaced runs b r.runs r.result := by
  have hrun (k : Nat) (run : EditableRun) (hk : runs[k]? = some run) :
      r.runs[k]? = some ⟨run.nodeId, textOf k chars⟩ := by
    have htext := (h.tracks k run hk).text
    have hle := runStart_add_le hk
    rwa [List.drop_eq_nil_of_le (by omega), List.append_nil] at htext
  have htagged : taggedRuns r.runs = chars := by
    refine taggedFrom_eq h.sorted (fun x hx ↦ ⟨Nat.zero_le _, ?_⟩) fun k run hk ↦ ?_
    · rw [Nat.zero_add, h.size]
      exact h.range x hx
    · have hlt : k < runs.length := by
        rw [← h.size]
        exact (List.getElem?_eq_some_iff.mp hk).1
      rw [Nat.zero_add]
      have heq := (hrun k runs[k] (List.getElem?_eq_getElem hlt)).symm.trans hk
      rw [← Option.some.inj heq]
  refine ⟨?_, ?_, ?_, fun k run hk ↦ (h.tracks k run hk).reported⟩
  · rw [← map_fst_taggedFrom 0, show taggedFrom 0 r.runs = chars from htagged, h.text,
      List.take_length]
  · refine List.ext_getElem? fun k ↦ ?_
    rw [List.getElem?_map, List.getElem?_map]
    cases hk : runs[k]? with
    | some run =>
      rw [hrun k run hk]
      rfl
    | none => rw [List.getElem?_eq_none (by rw [h.size]; exact List.getElem?_eq_none_iff.mp hk)]
  · rw [htagged]
    exact hkept

/-- The text of a paragraph with runs of their own identities is replaced as a whole. -/
theorem replaceRuns_replaced (hne : runs ≠ []) (hids : (runs.map (·.nodeId)).Nodup)
    (newText : List Char) (result : EditResult) :
    Replaced runs newText (replaceRuns runs newText result).1
      (replaceRuns runs newText result).2 := by
  have hloop : Replaced runs newText
      ((getOpcodes (runsText runs) newText).foldl (replaceStep runs newText)
        ⟨runs, fun _ ↦ 0, result⟩).runs
      ((getOpcodes (runsText runs) newText).foldl (replaceStep runs newText)
        ⟨runs, fun _ ↦ 0, result⟩).result := by
    have hstart : Follows runs newText 0 0 [] ⟨runs, fun _ ↦ 0, result⟩ := by
      refine ⟨rfl, fun k run hk ↦ ⟨?_, ?_, .inl hk⟩, rfl, .nil, fun x hx ↦ absurd hx
        List.not_mem_nil, fun x hx ↦ absurd hx List.not_mem_nil⟩
      · rw [Nat.zero_sub]
        exact hk
      · dsimp only
        rw [Nat.zero_sub]
        simp [textOf]
    obtain ⟨chars, hend, hkept⟩ := hstart.script hids hne (getOpcodes_isScript _ _)
    exact hend.replaced hkept
  unfold replaceRuns
  split
  · next run =>
    refine ⟨List.append_nil _, rfl, fun o ho htag d hd ↦ ?_, fun k other hk ↦ .inr ?_⟩
    · have hsound := (getOpcodes_isScript _ _).sound ho
      unfold Opcode.Sound at hsound
      rw [htag, runsText_cons, runsText_nil, List.append_nil] at hsound
      simp only [taggedRuns, taggedFrom, List.append_nil, List.getElem?_map]
      rw [hsound.2 d hd]
    · cases k with
      | zero =>
        obtain rfl : run = other := Option.some.inj hk
        exact mem_appendUnique.mpr (.inr rfl)
      | succ k => cases hk
  · exact hloop

/-- Without runs there is no place for a text. -/
theorem replaceRuns_nil (newText : List Char) (result : EditResult) :
    replaceRuns [] newText result = ([], result) := by
  have hstep (r : Replacement) (o : Opcode) : replaceStep [] newText r o = r := by
    have hclip (i1 i2 : Nat) : clipRunSpans (buildRunSpans []) i1 i2 = [] :=
      if_neg fun h ↦ absurd h.2 (Nat.not_lt_zero 1)
    unfold replaceStep Replacement.applyOpcode
    rw [hclip]
    exact ite_self r
  have hloop (os : List Opcode) (r : Replacement) : os.foldl (replaceStep [] newText) r = r := by
    induction os with
    | nil => rfl
    | cons o os ih => rw [List.foldl_cons, hstep, ih]
  exact Prod.ext (congrArg Replacement.runs (hloop _ _)) (congrArg Replacement.result (hloop _ _))

/-- What is reported stays so, and no edit is counted yet. -/
theorem replaceRuns_extends (runs : List EditableRun) (newText : List Char) (result : EditResult) :
    result.modifiedRunIds ⊆ (replaceRuns runs newText result).2.modifiedRunIds ∧
      (replaceRuns runs newText result).2.editsApplied = result.editsApplied := by
  unfold replaceRuns
  split
  · exact ⟨fun _ h ↦ mem_appendUnique.mpr (.inl h), rfl⟩
  · have hloop := foldl_extends (@replaceStep_extends runs newText)
      (getOpcodes (runsText runs) newText) ⟨runs, fun _ ↦ 0, result⟩
    exact ⟨hloop.reported, hloop.applied⟩

/-- A paragraph takes a new text exactly when it has a run or the text is empty; of the script from
its old text to the new one, which changes only ranges that have nothing in common, what is kept
stays in its run; and the runs that change are reported.
`src/jobtology_be/document_processor/edit_engine.py:805–936,1014–1053`. -/
theorem replaceText_keeps_runs (p : EditableParagraph) (newText : List Char) (result : EditResult)
    (hids : (p.runs.map (·.nodeId)).Nodup) :
    let q := p.replaceText newText result
    (q.1.text = newText ↔ p.runs ≠ [] ∨ newText = []) ∧
      IsScript p.text newText 0 0 (getOpcodes p.text newText) ∧
      q.1.nodeId = p.nodeId ∧ q.1.runs.map (·.nodeId) = p.runs.map (·.nodeId) ∧
      (∀ o ∈ getOpcodes p.text newText, o.tag = .equal → ∀ d < o.i2 - o.i1,
        p.runs ≠ [] → (taggedRuns q.1.runs)[o.j1 + d]? = (taggedRuns p.runs)[o.i1 + d]?) ∧
      ∀ (k : Nat) (run : EditableRun), p.runs[k]? = some run →
        q.1.runs[k]? = some run ∨ run.nodeId ∈ q.2.modifiedRunIds := by
  intro q
  by_cases hne : p.runs = []
  · have hq : q.1.runs = [] ∧ q.2 = result := by
      have heq := replaceRuns_nil newText result
      rw [← hne] at heq
      exact ⟨(congrArg Prod.fst heq).trans hne, congrArg Prod.snd heq⟩
    have htext : q.1.text = [] := by
      unfold EditableParagraph.text
      rw [hq.1]
      rfl
    refine ⟨?_, getOpcodes_isScript _ _, rfl, ?_, fun _ _ _ _ _ h ↦ absurd hne h,
      fun k run hk ↦ ?_⟩
    · rw [htext]
      exact ⟨fun h ↦ .inr h.symm, fun h ↦ h.elim (fun h ↦ absurd hne h) Eq.symm⟩
    · rw [hq.1, hne]
    · rw [hne] at hk
      cases hk
  · obtain ⟨htext, hids', hkept, hreported⟩ := replaceRuns_replaced hne hids newText result
    exact ⟨iff_of_true htext (.inl hne), getOpcodes_isScript _ _, rfl, hids',
      fun o ho htag d hd _ ↦ hkept o ho htag d hd, hreported⟩

/-- Two runs of a word. -/
def splitWord : EditableParagraph :=
  ⟨"p", [⟨"a", ['x', 'y']⟩, ⟨"b", ['z']⟩], false⟩

/-- A letter in the middle is replaced. -/
theorem replaceText_keeps_runs_word :
    let q := splitWord.replaceText ['x', 'w', 'z'] {}
    q.1.text = ['x', 'w', 'z'] ∧ q.1.runs.map (·.nodeId) = ["a", "b"] ∧
      (∀ o ∈ getOpcodes splitWord.text ['x', 'w', 'z'], o.tag = .equal → ∀ d < o.i2 - o.i1,
        (taggedRuns q.1.runs)[o.j1 + d]? = (taggedRuns splitWord.runs)[o.i1 + d]?) ∧
      (∀ (k : Nat) (run : EditableRun), splitWord.runs[k]? = some run →
        q.1.runs[k]? = some run ∨ run.nodeId ∈ q.2.modifiedRunIds) ∧
      q.1.runs = [⟨"a", ['x', 'w']⟩, ⟨"b", ['z']⟩] ∧ q.2.modifiedRunIds = ["a"] := by
  obtain ⟨htext, -, -, hids, hkept, hreported⟩ :=
    replaceText_keeps_runs splitWord ['x', 'w', 'z'] {} (by decide)
  have hne : splitWord.runs ≠ [] := List.cons_ne_nil _ _
  exact ⟨htext.mpr (.inl hne), hids, fun o ho htag d hd ↦ hkept o ho htag d hd hne, hreported,
    by decide +kernel, by decide +kernel⟩

end Jobtology.Editing
