import Jobtology.Base.Dictionary
import Jobtology.Resume.AnchoredBlocks
import Jobtology.Resume.SourceAnnotations

/-!
# Annotations in their paragraphs

The annotations of a block, where the renderer resolves them, cover the characters of the block in
its paragraph and no others.
-/

namespace Jobtology.Resume

open Jobtology.Base

variable {doc : List ParagraphIR} {p : ParagraphIR} {block : ResumeBlock}
  {annotations : List TextAnnotation} {start stop : Nat}

/-! ## Purpose -/

/-- What an annotation may mark, with its place in the text of the paragraph. -/
structure Target where
  kind : TargetKind
  id : String
  base : Nat
  text : List Char

/-- The runs of a paragraph, one after the other. -/
def runTargets : Nat → List RunIR → List Target
  | _, [] => []
  | base, run :: rest =>
    ⟨.run, run.nodeId, base, run.text⟩ :: runTargets (base + run.text.length) rest

/-- The targets in a paragraph: itself, or its runs when it has tables or images. -/
def ParagraphIR.targets (p : ParagraphIR) : List Target :=
  if p.tables.isEmpty ∧ p.images.isEmpty then [⟨.paragraph, p.nodeId, 0, p.runText⟩]
  else runTargets 0 p.runs

/-- The number of targets that share characters with a range. -/
def touched (targets : List Target) (start stop : Nat) : Nat :=
  targets.countP fun t ↦ max start t.base < min stop (t.base + t.text.length)

/-- The identities of paragraphs and runs are distinct. -/
def DistinctIds (doc : List ParagraphIR) : Prop :=
  ((iterParagraphs doc).map (·.nodeId) ++
    ((iterParagraphs doc).flatMap (·.runs)).map (·.nodeId)).Nodup

instance (doc : List ParagraphIR) : Decidable (DistinctIds doc) :=
  inferInstanceAs (Decidable (List.Nodup _))

/-- An annotation with its target and the span that it selects there. -/
structure Hit where
  target : Target
  mark : TextAnnotation
  span : SelectedSpan

/-- The annotation selects the span in its target. -/
structure Hit.Selects (hit : Hit) : Prop where
  kind : hit.mark.targetKind = hit.target.kind
  id : hit.mark.targetId = hit.target.id
  span : resolveSelectedSpan hit.target.text hit.mark.selectedText
    hit.mark.occurrenceIndex = .ok hit.span

/-- The renderer finds the target and the span in the document. -/
def Hit.ResolvesIn (doc : List ParagraphIR) (hit : Hit) : Prop :=
  ∃ resolved, resolveAnnotationTarget doc hit.mark = .ok resolved ∧
    resolved.targetId = hit.target.id ∧ resolved.targetKind = hit.target.kind ∧
    resolved.span = hit.span

/-- A position of the paragraph is marked. -/
def Hit.Covers (hit : Hit) (i : Nat) : Prop :=
  hit.target.base + hit.span.start ≤ i ∧ i < hit.target.base + hit.span.stop

/-- Annotations in a paragraph mark a range of its text and nothing else. The renderer finds them
in the document when identities are distinct. -/
def Marks (doc : List ParagraphIR) (p : ParagraphIR) (start stop : Nat)
    (made : List TextAnnotation) : Prop :=
  ∃ hits : List Hit, hits.map (·.mark) = made ∧
    (hits.map (·.target)).Sublist p.targets ∧ (∀ hit ∈ hits, hit.Selects) ∧
    (DistinctIds doc → ∀ hit ∈ hits, hit.ResolvesIn doc) ∧
    ∀ i, (∃ hit ∈ hits, hit.Covers i) ↔ start ≤ i ∧ i < stop

/-- `source_annotations` returns, and the annotations of a block that is taken from the text of its
paragraph mark it there, up to the cap. -/
def AnnotationsPointBack (doc : List ParagraphIR) (blocks : List ResumeBlock) : Prop :=
  ∃ annotations, sourceAnnotations doc blocks = .ok annotations ∧
    ∀ before block after earlier p, blocks = before ++ block :: after →
      sourceAnnotations doc before = .ok earlier →
      byNode doc (block.sourceNodeId.map (·.1)) = some p →
      slice block.sourceStart (block.sourceStart + block.text.length) p.runText = block.text →
      earlier.length + touched p.targets block.sourceStart
        (block.sourceStart + block.text.length) ≤ annotationCap →
      ∃ own later, sourceAnnotations doc (before ++ [block]) = .ok (earlier ++ own) ∧
        annotations = earlier ++ own ++ later ∧
        Marks doc p block.sourceStart (block.sourceStart + block.text.length) own

/-! ## Occurrences -/

private theorem mem_findTextOccurrences {text pattern : List Char} {searchFrom i : Nat} :
    i ∈ findTextOccurrences text pattern searchFrom ↔
      searchFrom ≤ i ∧ i ∈ occurrences pattern text := by
  fun_induction findTextOccurrences text pattern searchFrom with
  | case1 searchFrom hnone =>
    refine iff_of_false List.not_mem_nil ?_
    rintro ⟨hfrom, hi⟩
    obtain ⟨hle, hprefix⟩ := mem_occurrences.mp hi
    refine List.find?_eq_none.mp hnone i (List.mem_range.mpr (Nat.lt_succ_of_le hle)) ?_
    exact decide_eq_true ⟨hfrom, hprefix⟩
  | case2 searchFrom index hsome ih =>
    have hfound := findFrom_some hsome
    rw [List.mem_cons, ih]
    constructor
    · rintro (rfl | ⟨hle, hi⟩)
      · exact hfound
      · exact ⟨hfound.1.trans (Nat.le_of_succ_le hle), hi⟩
    · rintro ⟨hfrom, hi⟩
      rcases Nat.lt_trichotomy i index with hlt | rfl | hgt
      · have hbefore := (List.find?_range_eq_some.mp hsome).2.2 i hlt
        rw [Bool.not_eq_true', decide_eq_false_iff_not] at hbefore
        exact absurd ⟨hfrom, (mem_occurrences.mp hi).2⟩ hbefore
      · exact .inl rfl
      · exact .inr ⟨hgt, hi⟩

private theorem pairwise_findTextOccurrences {text pattern : List Char} {searchFrom : Nat} :
    (findTextOccurrences text pattern searchFrom).Pairwise (· < ·) := by
  fun_induction findTextOccurrences text pattern searchFrom with
  | case1 => exact .nil
  | case2 searchFrom index hsome ih =>
    exact .cons (fun i hi ↦ (mem_findTextOccurrences.mp hi).1) ih

/-- The renderer finds all occurrences. -/
theorem findTextOccurrences_eq (text pattern : List Char) :
    findTextOccurrences text pattern 0 = occurrences pattern text := by
  have hsorted : (occurrences pattern text).Pairwise (· < ·) := List.pairwise_lt_range.filter _
  have hperm : (findTextOccurrences text pattern 0).Perm (occurrences pattern text) := by
    rw [List.perm_ext_iff_of_nodup (pairwise_findTextOccurrences.imp Nat.ne_of_lt)
      (hsorted.imp Nat.ne_of_lt)]
    intro i
    rw [mem_findTextOccurrences]
    exact and_iff_right (Nat.zero_le i)
  exact hperm.eq_of_pairwise (fun a b _ _ hab hba ↦ absurd hba (Nat.lt_asymm hab))
    pairwise_findTextOccurrences hsorted

/-! ## Selections -/

/-- Annotations of some targets, in their order, which select the positions that fulfil a
condition. -/
def SelectsIn (targets : List Target) (made : List TextAnnotation) (P : Nat → Prop) : Prop :=
  ∃ hits : List Hit, hits.map (·.mark) = made ∧ (hits.map (·.target)).Sublist targets ∧
    (∀ hit ∈ hits, hit.Selects) ∧ ∀ i, (∃ hit ∈ hits, hit.Covers i) ↔ P i

private theorem selectsIn_nil {targets : List Target} {P : Nat → Prop} (h : ∀ i, ¬P i) :
    SelectsIn targets [] P :=
  ⟨[], rfl, List.nil_sublist _, List.forall_mem_nil _, fun i ↦ iff_of_false (by simp) (h i)⟩

/-- A target that is left out. -/
theorem SelectsIn.skip {t : Target} {targets : List Target} {made : List TextAnnotation}
    {P Q : Nat → Prop} (h : SelectsIn targets made P) (hPQ : ∀ i, P i ↔ Q i) :
    SelectsIn (t :: targets) made Q := by
  obtain ⟨hits, hannotations, htargets, hselects, hcovers⟩ := h
  exact ⟨hits, hannotations, htargets.cons t, hselects, fun i ↦ (hcovers i).trans (hPQ i)⟩

/-- A target with its annotation. -/
theorem SelectsIn.take {hit : Hit} {targets : List Target} {made : List TextAnnotation}
    {P Q : Nat → Prop} (h : SelectsIn targets made P) (hhit : hit.Selects)
    (hPQ : ∀ i, hit.Covers i ∨ P i ↔ Q i) :
    SelectsIn (hit.target :: targets) (hit.mark :: made) Q := by
  obtain ⟨hits, rfl, htargets, hselects, hcovers⟩ := h
  refine ⟨hit :: hits, rfl, htargets.cons_cons _, List.forall_mem_cons.mpr ⟨hhit, hselects⟩,
    fun i ↦ ?_⟩
  rw [List.exists_mem_cons_iff, hcovers, hPQ]

/-! ## One annotation -/

/-- The annotation of a quote at a position is made, and selects the quote there. -/
theorem textAnnotation_spec (kind : TargetKind) (id : String) {quote text : List Char}
    {position : Nat} (hle : position ≤ text.length) (hquote : quote <+: text.drop position)
    (hne : quote ≠ []) (block : ResumeBlock) :
    ∃ a, textAnnotation kind id quote text position block = .ok a ∧ a.targetKind = kind ∧
      a.targetId = id ∧ resolveSelectedSpan text a.selectedText a.occurrenceIndex =
        .ok ⟨position, position + quote.length, quote, a.occurrenceIndex⟩ := by
  have hmem : position ∈ occurrences quote text := mem_occurrences.mpr ⟨hle, hquote⟩
  obtain ⟨index, hindex⟩ := Option.isSome_iff_exists.mp (List.isSome_idxOf?.mpr hmem)
  obtain ⟨hlt, hat, -⟩ := List.idxOf?_eq_some_iff.mp hindex
  have hfound : (occurrences quote text)[index]? = some position := by
    rw [List.getElem?_eq_getElem hlt, hat]
  unfold textAnnotation
  rw [hindex]
  dsimp only
  rw [dif_neg hne]
  refine ⟨_, rfl, rfl, rfl, ?_⟩
  dsimp only [resolveSelectedSpan]
  rw [findTextOccurrences_eq, if_neg (List.ne_nil_of_mem hmem), if_neg (fun h ↦ nomatch h.1),
    Option.getD_some, hfound]

/-! ## Resolution by identity -/

private theorem nodeId_run_of_mem {t : Target} {base : Nat} {runs : List RunIR}
    (h : t ∈ runTargets base runs) :
    ∃ run ∈ runs, t.kind = .run ∧ t.id = run.nodeId ∧ t.text = run.text := by
  induction runs generalizing base with
  | nil => cases h
  | cons run rest ih =>
    rcases List.mem_cons.mp h with rfl | hrest
    · exact ⟨run, List.mem_cons_self, rfl, rfl, rfl⟩
    · obtain ⟨other, hmem, hother⟩ := ih hrest
      exact ⟨other, List.mem_cons_of_mem run hmem, hother⟩

/-- With distinct identities the renderer finds the target that was meant. -/
theorem resolves_byId {hit : Hit} (hp : p ∈ iterParagraphs doc) (ht : hit.target ∈ p.targets)
    (hselects : hit.Selects) (hdoc : DistinctIds doc) : hit.ResolvesIn doc := by
  obtain ⟨-, hid, hspan⟩ := hselects
  obtain ⟨hparagraphs, hruns, hdisjoint⟩ := List.nodup_append.mp hdoc
  unfold Hit.ResolvesIn resolveAnnotationTarget
  dsimp only
  rw [dictOf_eq_self hparagraphs, hid]
  unfold ParagraphIR.targets at ht
  split_ifs at ht with hplain
  · obtain htarget := List.mem_singleton.mp ht
    rw [htarget] at hspan ⊢
    dsimp only at hspan ⊢
    have hrun : lookupLast (·.nodeId) ((iterParagraphs doc).flatMap (·.runs)) p.nodeId = none := by
      rw [lookupLast_eq_none]
      intro run hrun h
      exact hdisjoint _ (List.mem_map_of_mem hp) _ (List.mem_map_of_mem hrun) h.symm
    rw [hrun, lookupLast_of_mem hparagraphs hp]
    dsimp only
    rw [if_neg (by simp [hplain.1, hplain.2]), hspan]
    exact ⟨_, rfl, rfl, rfl, rfl⟩
  · obtain ⟨run, hmem, hkind, hidRun, htext⟩ := nodeId_run_of_mem ht
    have hrun : run ∈ (iterParagraphs doc).flatMap (·.runs) := List.mem_flatMap.mpr ⟨p, hp, hmem⟩
    rw [hidRun, lookupLast_of_mem hruns hrun]
    dsimp only
    rw [← htext, hspan]
    exact ⟨_, rfl, rfl, hkind.symm, rfl⟩

/-! ## Runs -/

private theorem touched_cons {run : RunIR} {rest : List RunIR} {cursor : Nat} :
    touched (runTargets cursor (run :: rest)) start stop =
      touched (runTargets (cursor + run.text.length) rest) start stop +
        if max start cursor < min stop (cursor + run.text.length) then 1 else 0 := by
  rw [touched, runTargets, List.countP_cons]
  simp only [decide_eq_true_iff]
  rfl

/-- Runs that share no character with a range. -/
theorem not_shared_of_untouched {runs : List RunIR} {cursor : Nat}
    (h : touched (runTargets cursor runs) start stop = 0) (i : Nat) :
    ¬(max start cursor ≤ i ∧ i < min stop (cursor + (runs.flatMap (·.text)).length)) := by
  induction runs generalizing cursor with
  | nil =>
    rw [List.flatMap_nil, List.length_nil]
    omega
  | cons run rest ih =>
    rw [touched_cons] at h
    have hrest := @ih (cursor + run.text.length) (by omega)
    have hrun : ¬max start cursor < min stop (cursor + run.text.length) := by
      intro hshared
      rw [if_pos hshared] at h
      omega
    rw [List.flatMap_cons, List.length_append]
    omega

/-- What the loop over the runs makes. -/
theorem annotateRuns_spec (block : ResumeBlock) {runs : List RunIR} {cursor : Nat}
    (annotations : List TextAnnotation) :
    ∃ made, annotateRuns block start stop cursor runs annotations = .ok (annotations ++ made) ∧
      (annotations.length ≤ annotationCap → (annotations ++ made).length ≤ annotationCap) ∧
      (annotations.length + touched (runTargets cursor runs) start stop ≤ annotationCap →
        SelectsIn (runTargets cursor runs) made fun i ↦
          max start cursor ≤ i ∧ i < min stop (cursor + (runs.flatMap (·.text)).length)) := by
  induction runs generalizing cursor annotations with
  | nil =>
    refine ⟨[], congrArg _ (List.append_nil _).symm, fun h ↦ by rwa [List.append_nil], fun _ ↦ ?_⟩
    exact selectsIn_nil (not_shared_of_untouched rfl)
  | cons run rest ih =>
    rw [annotateRuns]
    by_cases hcap : annotations.length ≥ annotationCap
    · rw [if_pos hcap]
      refine ⟨[], congrArg _ (List.append_nil _).symm, fun h ↦ by rwa [List.append_nil],
        fun hroom ↦ selectsIn_nil (not_shared_of_untouched (by omega))⟩
    rw [if_neg hcap]
    dsimp only
    have hlength : ((run :: rest).flatMap (·.text)).length =
        run.text.length + (rest.flatMap (·.text)).length := by
      rw [List.flatMap_cons, List.length_append]
    rw [hlength]
    by_cases hshared : start - cursor ≥ min run.text.length (stop - cursor)
    · rw [if_pos hshared]
      obtain ⟨made, hok, hbound, hmade⟩ := @ih (cursor + run.text.length) annotations
      refine ⟨made, hok, hbound, fun hroom ↦ ?_⟩
      refine (hmade ?_).skip fun i ↦ by omega
      rw [touched_cons] at hroom
      omega
    · rw [if_neg hshared]
      have hquote : (slice (start - cursor) (min run.text.length (stop - cursor)) run.text).length =
          min run.text.length (stop - cursor) - (start - cursor) := by
        rw [length_slice, Nat.min_eq_left (Nat.min_le_left _ _)]
      have hne : slice (start - cursor) (min run.text.length (stop - cursor)) run.text ≠ [] := by
        apply List.ne_nil_of_length_pos
        omega
      have hle : start - cursor ≤ run.text.length := by omega
      obtain ⟨a, ha, hkind, hid, hspan⟩ :=
        textAnnotation_spec .run run.nodeId hle slice_isPrefix hne block
      obtain ⟨made, hok, hbound, hmade⟩ := @ih (cursor + run.text.length) (annotations ++ [a])
      rw [List.length_append, List.length_singleton] at hmade
      rw [List.append_assoc, List.singleton_append] at hok hbound
      rw [ha]
      refine ⟨a :: made, hok, fun _ ↦ hbound ?_, fun hroom ↦ ?_⟩
      · rw [List.length_append, List.length_singleton]
        omega
      · rw [touched_cons, if_pos (by omega)] at hroom
        have hselects : Hit.Selects ⟨⟨.run, run.nodeId, cursor, run.text⟩, a, _⟩ :=
          ⟨hkind, hid, hspan⟩
        refine (hmade (by omega)).take hselects fun i ↦ ?_
        unfold Hit.Covers
        dsimp only
        rw [hquote]
        omega

/-! ## Blocks -/

/-- The range of a block with a text lies in the text where it stands. -/
theorem stop_le_of_slice (hne : block.text ≠ [])
    (h : slice block.sourceStart (block.sourceStart + block.text.length) p.runText = block.text) :
    block.sourceStart + block.text.length ≤ p.runText.length := by
  have hlength := congrArg List.length h
  have hpos := List.length_pos_iff_ne_nil.mpr hne
  rw [length_slice] at hlength
  omega

/-- A block with a text that stands in its paragraph touches a target. -/
theorem touched_pos (hne : block.text ≠ [])
    (h : slice block.sourceStart (block.sourceStart + block.text.length) p.runText = block.text) :
    0 < touched p.targets block.sourceStart (block.sourceStart + block.text.length) := by
  have hstop := stop_le_of_slice hne h
  have hpos := List.length_pos_iff_ne_nil.mpr hne
  rw [Nat.pos_iff_ne_zero]
  intro hzero
  rw [ParagraphIR.targets] at hzero
  split_ifs at hzero
  · rw [touched, List.countP_singleton, if_pos (by simpa using by omega)] at hzero
    cases hzero
  · refine not_shared_of_untouched hzero block.sourceStart ⟨by omega, ?_⟩
    change _ < min _ (0 + p.runText.length)
    omega

/-- What the pass over one block makes. -/
theorem annotateBlock_spec (doc : List ParagraphIR) (hne : block.text ≠ [])
    (hroom : annotations.length < annotationCap) :
    ∃ made, annotateBlock doc block annotations = .ok (annotations ++ made) ∧
      (annotations ++ made).length ≤ annotationCap ∧
      ∀ p, byNode doc (block.sourceNodeId.map (·.1)) = some p →
        slice block.sourceStart (block.sourceStart + block.text.length) p.runText = block.text →
        annotations.length + touched p.targets block.sourceStart
          (block.sourceStart + block.text.length) ≤ annotationCap →
        Marks doc p block.sourceStart (block.sourceStart + block.text.length) made := by
  unfold annotateBlock
  cases hp : byNode doc (block.sourceNodeId.map (·.1)) with
  | none => exact ⟨[], congrArg _ (List.append_nil _).symm, by simpa using hroom.le, nofun⟩
  | some p =>
    dsimp only
    by_cases hslice :
      slice block.sourceStart (block.sourceStart + block.text.length) p.runText = block.text
    swap
    · rw [if_pos hslice]
      refine ⟨[], congrArg _ (List.append_nil _).symm, by simpa using hroom.le, ?_⟩
      rintro _ ⟨⟩ h
      exact absurd h hslice
    rw [if_neg (not_not.mpr hslice)]
    have hstop := stop_le_of_slice hne hslice
    have hmem : p ∈ iterParagraphs doc := by
      obtain ⟨id, -, hid⟩ := Option.bind_eq_some_iff.mp hp
      exact (lookupLast_some hid).1
    have hmarks {made : List TextAnnotation} (h : SelectsIn p.targets made fun i ↦
        block.sourceStart ≤ i ∧ i < block.sourceStart + block.text.length) :
        Marks doc p block.sourceStart (block.sourceStart + block.text.length) made := by
      obtain ⟨hits, hannotations, htargets, hselects, hcovers⟩ := h
      refine ⟨hits, hannotations, htargets, hselects, fun hdoc hit hhit ↦ ?_, hcovers⟩
      exact resolves_byId hmem (htargets.subset (List.mem_map_of_mem hhit)) (hselects hit hhit) hdoc
    by_cases hplain : p.tables.isEmpty ∧ p.images.isEmpty
    · rw [if_pos hplain]
      have hprefix : block.text <+: p.runText.drop block.sourceStart := by
        rw [← hslice]
        exact slice_isPrefix
      obtain ⟨a, ha, hkind, hid, hspan⟩ := textAnnotation_spec .paragraph p.nodeId
        ((Nat.le_add_right _ _).trans hstop) hprefix hne block
      rw [ha]
      refine ⟨[a], rfl, ?_, ?_⟩
      · rw [List.length_append]
        exact hroom
      · rintro _ ⟨⟩ - -
        apply hmarks
        rw [ParagraphIR.targets, if_pos hplain]
        have hselects : Hit.Selects ⟨⟨.paragraph, p.nodeId, 0, p.runText⟩, a, _⟩ :=
          ⟨hkind, hid, hspan⟩
        refine (selectsIn_nil fun _ ↦ id).take hselects fun i ↦ ?_
        unfold Hit.Covers
        simp only [Nat.zero_add, or_false]
    · rw [if_neg hplain]
      obtain ⟨made, hok, hbound, hmade⟩ := @annotateRuns_spec block.sourceStart
        (block.sourceStart + block.text.length) block p.runs 0 annotations
      refine ⟨made, hok, hbound hroom.le, ?_⟩
      rintro _ ⟨⟩ - hcap
      apply hmarks
      rw [ParagraphIR.targets, if_neg hplain] at hcap ⊢
      obtain ⟨hits, hannotations, htargets, hselects, hcovers⟩ := hmade hcap
      refine ⟨hits, hannotations, htargets, hselects, fun i ↦ (hcovers i).trans ?_⟩
      change max _ 0 ≤ i ∧ i < min _ (0 + p.runText.length) ↔ _
      omega

/-- Blocks after the cap get no annotations. -/
theorem annotateBlocks_full {blocks : List ResumeBlock}
    (h : annotations.length ≥ annotationCap) :
    annotateBlocks doc blocks annotations = .ok annotations := by
  cases blocks with
  | nil => rfl
  | cons block rest => rw [annotateBlocks, if_pos h]

private theorem annotateBlocks_append (xs ys : List ResumeBlock) :
    annotateBlocks doc (xs ++ ys) annotations =
      annotateBlocks doc xs annotations >>= annotateBlocks doc ys := by
  induction xs generalizing annotations with
  | nil => rfl
  | cons block rest ih =>
    rw [List.cons_append, annotateBlocks, annotateBlocks]
    split_ifs with hcap
    · exact (annotateBlocks_full hcap).symm
    · rw [bind_assoc]
      exact bind_congr fun _ ↦ ih

/-- What the loop over blocks makes. -/
theorem annotateBlocks_spec (doc : List ParagraphIR) {blocks : List ResumeBlock}
    (hne : ∀ b ∈ blocks, b.text ≠ []) (hroom : annotations.length ≤ annotationCap) :
    ∃ made, annotateBlocks doc blocks annotations = .ok (annotations ++ made) ∧
      (annotations ++ made).length ≤ annotationCap := by
  induction blocks generalizing annotations with
  | nil => exact ⟨[], congrArg _ (List.append_nil _).symm, by rwa [List.append_nil]⟩
  | cons block rest ih =>
    rw [annotateBlocks]
    split_ifs with hcap
    · exact ⟨[], congrArg _ (List.append_nil _).symm, by rwa [List.append_nil]⟩
    · obtain ⟨made, hok, hbound, -⟩ :=
        annotateBlock_spec doc (hne block List.mem_cons_self) (Nat.lt_of_not_le hcap)
      obtain ⟨more, hrest, hboundRest⟩ := ih (fun b hb ↦ hne b (List.mem_cons_of_mem _ hb)) hbound
      rw [hok]
      refine ⟨made ++ more, ?_, ?_⟩
      · rw [← List.append_assoc]
        exact hrest
      · rwa [← List.append_assoc]

/-- The annotations of blocks with texts point back. -/
theorem annotations_pointBack (doc : List ParagraphIR) {blocks : List ResumeBlock}
    (hne : ∀ b ∈ blocks, b.text ≠ []) : AnnotationsPointBack doc blocks := by
  obtain ⟨annotations, hok, -⟩ := @annotateBlocks_spec [] doc blocks hne (Nat.zero_le _)
  refine ⟨annotations, hok, ?_⟩
  rintro before block after earlier p rfl hbefore hp hslice hcap
  have htext : block.text ≠ [] := hne block (List.mem_append_right _ List.mem_cons_self)
  have hopen : earlier.length < annotationCap := by
    have htouched := touched_pos htext hslice
    omega
  obtain ⟨own, hown, hbound, hmarks⟩ := annotateBlock_spec doc htext hopen
  obtain ⟨later, hlater, -⟩ := @annotateBlocks_spec (earlier ++ own) doc after
    (fun b hb ↦ hne b (List.mem_append_right _ (List.mem_cons_of_mem _ hb))) hbound
  have hthrough (rest : List ResumeBlock) : sourceAnnotations doc (before ++ block :: rest) =
      annotateBlocks doc rest (earlier ++ own) := by
    unfold sourceAnnotations at hbefore ⊢
    rw [annotateBlocks_append, hbefore]
    change annotateBlocks doc (block :: rest) earlier = _
    rw [annotateBlocks, if_neg (Nat.not_le.mpr hopen), hown]
    rfl
  refine ⟨own, later, hthrough [], ?_, hmarks p hp hslice hcap⟩
  exact Except.ok.inj (hok.symm.trans ((hthrough after).trans hlater))

/-- Extracted blocks point back at the document: they are consecutive slices of its paragraphs up to
where a limit cuts them off, and their annotations mark them there.
`src/jobtology_be/resume/worker.py:165–202`, `src/jobtology_be/resume/preview.py:120–166`,
`src/jobtology_be/document_processor/annotations.py:166–209`. -/
theorem blocks_pointBack (sha256 : List Char → {digest : List Char // IsHex 64 digest})
    (isPdf : Bool) (doc : List ParagraphIR) (result : Reading)
    (h : extractBlocks sha256 isPdf doc = .ok result) :
    (∀ text, Tiles 0 text ((fragments text).map fun f ↦ (f.offset, f.text))) ∧
      (∃ left, (pieces doc (iterParagraphs doc)).map pieceAnchor =
          result.blocks.map (·.anchor) ++ left ∧ (result.truncated = false → left = []) ∧
        (result.truncated = true → ∃ next ∈ left.head?,
          (result.blocks.map (·.text.length)).sum + next.2.2.length > maxText ∨
            result.blocks.length = maxBlocks)) ∧
      (result.blocks.map (·.text.length)).sum ≤ maxText ∧ result.blocks.length ≤ maxBlocks ∧
      AnnotationsPointBack doc result.blocks := by
  obtain ⟨⟨read, left, hpieces, hmade, hall, hlimit⟩, hcount, hcountLe, hblocksLe⟩ :=
    extractBlocks_spec h
  have hanchors : read.map pieceAnchor = result.blocks.map (·.anchor) := by
    rw [← List.forall₂_eq_eq_eq, List.forall₂_map_left_iff, List.forall₂_map_right_iff]
    exact hmade.imp fun _ _ hblock ↦ (anchor_resumeBlock hblock).symm
  have hne : ∀ b ∈ result.blocks, b.text ≠ [] := by
    intro b hb
    have hanchor : b.anchor ∈ read.map pieceAnchor := by
      rw [hanchors]
      exact List.mem_map_of_mem hb
    obtain ⟨piece, hpiece, hsame⟩ := List.mem_map.mp hanchor
    have htext : piece.2.text = b.text := congrArg (·.2.2) hsame
    rw [← htext]
    exact text_ne_of_mem_pieces (hpieces ▸ List.mem_append_left left hpiece)
  rw [hcount] at hcountLe hlimit
  refine ⟨tiles_fragments, ⟨left.map pieceAnchor, ?_, fun hopen ↦ ?_, fun hcut ↦ ?_⟩, hcountLe,
    hblocksLe, annotations_pointBack doc hne⟩
  · rw [hpieces, List.map_append, hanchors]
  · rw [hall hopen, List.map_nil]
  · obtain ⟨piece, hpiece, hreached⟩ := hlimit hcut
    refine ⟨pieceAnchor piece, ?_, hreached⟩
    rw [List.head?_map]
    exact Option.mem_map_of_mem _ hpiece

/-- A paragraph with text around an image, and one that repeats itself. -/
def anchoredDocument : List ParagraphIR :=
  [.mk "p_1" "aab".toList
      [.run ⟨"r_1", "aa".toList, none⟩, .image ⟨none⟩, .run ⟨"r_2", "b".toList, none⟩],
    .mk "p_2" "aaa".toList [.run ⟨"r_3", "aaa".toList, none⟩]]

/-- A digest. -/
def constantDigest (_ : List Char) : {digest : List Char // IsHex 64 digest} :=
  ⟨List.replicate 64 'a', by decide⟩

/-- The blocks of that document. -/
def anchoredReading : Reading :=
  match extractBlocks constantDigest false anchoredDocument with
  | .ok s => s
  | .error _ => {}

/-- A paragraph around an image, and one after it. -/
theorem blocks_pointBack_around_image :
    AnnotationsPointBack anchoredDocument anchoredReading.blocks ∧
      anchoredReading.blocks.map (·.anchor) =
        [(some "p_1", 0, "aab".toList), (some "p_2", 0, "aaa".toList)] := by
  have h : extractBlocks constantDigest false anchoredDocument = .ok anchoredReading := by
    obtain ⟨s, hs⟩ := @exists_extractBlocks constantDigest false anchoredDocument fun p hp ↦ by
      refine ⟨?_, nofun⟩
      revert p
      decide
    unfold anchoredReading
    rw [hs]
  refine ⟨(blocks_pointBack constantDigest false anchoredDocument anchoredReading h).2.2.2.2, ?_⟩
  unfold anchoredReading extractBlocks
  rw [readPages]
  rfl

end Jobtology.Resume
