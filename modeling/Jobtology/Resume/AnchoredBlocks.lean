import Jobtology.Resume.BlockExtraction

/-!
# Blocks in their paragraphs

The blocks of a document are consecutive slices of the texts of its paragraphs, in their order, up
to where a limit cuts them off.
-/

namespace Jobtology.Resume

open Jobtology.Base

variable {sha256 : List Char → {digest : List Char // IsHex 64 digest}} {isPdf : Bool}
  {doc : List ParagraphIR} {p : ParagraphIR} {s s' : Reading}

/-! ## Purpose -/

/-- Consecutive slices from a position on that make up a text. -/
def Tiles : Nat → List Char → List (Nat × List Char) → Prop
  | _, text, [] => text = []
  | start, text, (offset, slice) :: rest =>
    offset = start ∧ slice ≠ [] ∧
      ∃ left, text = slice ++ left ∧ Tiles (start + slice.length) left rest

/-- The paragraph has text that can be read. -/
def Readable (doc : List ParagraphIR) (p : ParagraphIR) : Prop :=
  ∃ c ∈ cleanedText doc p, isSpace c = false

instance (doc : List ParagraphIR) (p : ParagraphIR) : Decidable (Readable doc p) :=
  inferInstanceAs (Decidable (∃ c ∈ cleanedText doc p, isSpace c = false))

/-- The fragments of the paragraphs with readable text. -/
def pieces (doc paragraphs : List ParagraphIR) : List (ParagraphIR × Fragment) :=
  (paragraphs.filter (Readable doc ·)).flatMap fun p ↦ (fragments (cleanedText doc p)).map (p, ·)

/-- What a block says about where it stands. -/
def ResumeBlock.anchor (b : ResumeBlock) : Option String × Nat × List Char :=
  (b.sourceNodeId.map (·.1), b.sourceStart, b.text)

/-- What the block of a fragment is to say. -/
def pieceAnchor (piece : ParagraphIR × Fragment) : Option String × Nat × List Char :=
  (some piece.1.nodeId, piece.2.offset, piece.2.text)

/-! ## Fragments -/

private theorem tiles_range {text : List Char} {start i k : Nat}
    (hcount : (text.length + 1799) / 1800 = i + k) (hstart : k ≠ 0 → start = 1800 * i) :
    Tiles start (text.drop (1800 * i)) ((List.range' i k).map fun j ↦
      (1800 * j, slice (1800 * j) (1800 * j + 1800) text)) := by
  induction k generalizing start i with
  | zero =>
    change text.drop (1800 * i) = []
    rw [List.drop_eq_nil_iff]
    omega
  | succ k ih =>
    obtain rfl := hstart (Nat.succ_ne_zero k)
    have hlength : (slice (1800 * i) (1800 * i + 1800) text).length =
        min (1800 * i + 1800) text.length - 1800 * i := length_slice
    rw [List.range'_succ, List.map_cons]
    refine ⟨rfl, ?_, text.drop (1800 * (i + 1)), ?_, ih (by omega) (fun hk ↦ ?_)⟩
    · rw [← List.length_pos_iff_ne_nil]
      omega
    · rw [slice_eq, Nat.add_sub_cancel_left, Nat.mul_succ, ← List.drop_drop, List.take_append_drop]
    · omega

/-- The fragments of a text make it up. -/
theorem tiles_fragments (text : List Char) :
    Tiles 0 text ((fragments text).map fun f ↦ (f.offset, f.text)) := by
  have htiles := @tiles_range text 0 0 _ (Nat.zero_add _).symm fun _ ↦ rfl
  rw [← List.range_eq_range'] at htiles
  unfold fragments
  rw [List.map_map]
  exact htiles

private theorem ne_nil_of_tiles {start : Nat} {text : List Char} {slices : List (Nat × List Char)}
    (h : Tiles start text slices) : ∀ slice ∈ slices, slice.2 ≠ [] := by
  induction slices generalizing start text with
  | nil => exact List.forall_mem_nil _
  | cons slice rest ih =>
    obtain ⟨-, hne, left, -, hrest⟩ := h
    exact List.forall_mem_cons.mpr ⟨hne, ih hrest⟩

/-- No piece is empty. -/
theorem text_ne_of_mem_pieces {paragraphs : List ParagraphIR} {piece : ParagraphIR × Fragment}
    (h : piece ∈ pieces doc paragraphs) : piece.2.text ≠ [] := by
  obtain ⟨p, -, hpiece⟩ := List.mem_flatMap.mp h
  obtain ⟨fragment, hfragment, rfl⟩ := List.mem_map.mp hpiece
  exact ne_nil_of_tiles (tiles_fragments _) _ (List.mem_map_of_mem hfragment)

/-! ## Blocks -/

/-- A block has the anchor of its piece. -/
theorem anchor_resumeBlock {fragment : Fragment} {b : ResumeBlock}
    (h : resumeBlock sha256 isPdf p fragment = .ok b) : b.anchor = pieceAnchor (p, fragment) := by
  unfold resumeBlock at h
  split_ifs at h
  obtain rfl := Except.ok.inj h
  rfl

/-- Where the loop stands after some fragments: the blocks of the first ones were made, and a limit
kept it from the next one. -/
structure ReadSoFar (sha256 : List Char → {digest : List Char // IsHex 64 digest}) (isPdf : Bool)
    (seen : List (ParagraphIR × Fragment)) (s : Reading) : Prop where
  made : ∃ read left, seen = read ++ left ∧
    List.Forall₂ (fun piece b ↦ resumeBlock sha256 isPdf piece.1 piece.2 = .ok b) read s.blocks ∧
    (s.truncated = false → left = []) ∧
    (s.truncated = true → ∃ piece ∈ left.head?,
      s.count + piece.2.text.length > maxText ∨ s.blocks.length = maxBlocks)
  count : s.count = (s.blocks.map (·.text.length)).sum
  count_le : s.count ≤ maxText
  blocks_le : s.blocks.length ≤ maxBlocks

variable {seen : List (ParagraphIR × Fragment)}

private theorem readSoFar_start : ReadSoFar sha256 isPdf [] {} where
  made := ⟨[], [], rfl, .nil, fun _ ↦ rfl, fun h ↦ absurd h Bool.false_ne_true⟩
  count := rfl
  count_le := Nat.zero_le _
  blocks_le := Nat.zero_le _

/-- A loop that is cut off stays so. -/
theorem ReadSoFar.later (h : ReadSoFar sha256 isPdf seen s) (hcut : s.truncated = true)
    (more : List (ParagraphIR × Fragment)) : ReadSoFar sha256 isPdf (seen ++ more) s := by
  obtain ⟨read, left, rfl, hmade, -, hlimit⟩ := h.made
  obtain ⟨piece, hpiece, hreached⟩ := hlimit hcut
  refine { h with made := ⟨read, left ++ more, List.append_assoc _ _ _, hmade, ?_, ?_⟩ }
  · rw [hcut]
    exact fun h ↦ absurd h.symm Bool.false_ne_true
  · exact fun _ ↦ ⟨piece, List.mem_head?_append_of_mem_head? hpiece, hreached⟩

/-- A limit cuts the loop off. -/
theorem ReadSoFar.cut (h : ReadSoFar sha256 isPdf seen s) (hopen : s.truncated = false)
    {piece : ParagraphIR × Fragment} {more : List (ParagraphIR × Fragment)}
    (hlimit : s.count + piece.2.text.length > maxText ∨ s.blocks.length ≥ maxBlocks) :
    ReadSoFar sha256 isPdf (seen ++ piece :: more) { s with truncated := true } := by
  obtain ⟨read, left, rfl, hmade, hall, -⟩ := h.made
  rw [hall hopen, List.append_nil]
  refine ⟨⟨read, piece :: more, rfl, hmade, nofun, fun _ ↦ ⟨piece, rfl, ?_⟩⟩, h.count, h.count_le,
    h.blocks_le⟩
  exact hlimit.imp_right (Nat.le_antisymm h.blocks_le)

/-- A block is added. -/
theorem ReadSoFar.add (h : ReadSoFar sha256 isPdf seen s) (hopen : s.truncated = false)
    {piece : ParagraphIR × Fragment} {b : ResumeBlock}
    (hblock : resumeBlock sha256 isPdf piece.1 piece.2 = .ok b)
    (hcount : s.count + piece.2.text.length ≤ maxText) (hblocks : s.blocks.length < maxBlocks) :
    ReadSoFar sha256 isPdf (seen ++ [piece])
      { s with blocks := s.blocks ++ [b], count := s.count + piece.2.text.length } := by
  obtain ⟨read, left, rfl, hmade, hall, -⟩ := h.made
  have htext : b.text = piece.2.text := congrArg (·.2.2) (anchor_resumeBlock hblock)
  rw [hall hopen, List.append_nil]
  refine ⟨⟨read ++ [piece], [], (List.append_nil _).symm, ?_, fun _ ↦ rfl, ?_⟩, ?_, hcount, ?_⟩
  · exact List.rel_append hmade (.cons hblock .nil)
  · exact fun hcut ↦ absurd (hopen.symm.trans hcut) Bool.false_ne_true
  · rw [List.map_append, List.sum_append, ← h.count, List.map_singleton, List.sum_singleton, htext]
  · rw [List.length_append]
    exact hblocks

/-- What the loop over the fragments of a paragraph makes. -/
theorem addFragments_spec {frs : List Fragment} (h : ReadSoFar sha256 isPdf seen s)
    (hopen : s.truncated = false) (hread : addFragments sha256 isPdf p frs s = .ok s') :
    ReadSoFar sha256 isPdf (seen ++ frs.map (p, ·)) s' := by
  induction frs generalizing seen s with
  | nil =>
    obtain rfl := Except.ok.inj hread
    rwa [List.map_nil, List.append_nil]
  | cons fragment rest ih =>
    rw [addFragments] at hread
    split_ifs at hread with hlimit
    · obtain rfl := Except.ok.inj hread
      exact h.cut hopen hlimit
    · obtain ⟨b, hblock, hrest⟩ := bind_eq_ok.mp hread
      rw [not_or, Nat.not_lt, Nat.not_le] at hlimit
      have hadded := @ReadSoFar.add _ _ _ _ h hopen (p, fragment) b hblock hlimit.1 hlimit.2
      rw [List.map_cons, List.append_cons]
      exact ih hadded hopen hrest

private theorem not_readable_iff : ¬Readable doc p ↔ (cleanedText doc p).all isSpace = true := by
  unfold Readable
  rw [List.all_eq_true, not_exists]
  simp only [not_and, Bool.not_eq_false]

private theorem pieces_cons (paragraphs : List ParagraphIR) : pieces doc (p :: paragraphs) =
    (if Readable doc p then (fragments (cleanedText doc p)).map (p, ·) else []) ++
      pieces doc paragraphs := by
  unfold pieces
  by_cases hp : Readable doc p
  · rw [List.filter_cons_of_pos (by simpa using hp), List.flatMap_cons, if_pos hp]
  · rw [List.filter_cons_of_neg (by simpa using hp), if_neg hp, List.nil_append]

/-- What the loop over paragraphs makes. -/
theorem addParagraphs_spec {paragraphs : List ParagraphIR} (h : ReadSoFar sha256 isPdf seen s)
    (hopen : s.truncated = false) (hread : addParagraphs sha256 isPdf doc paragraphs s = .ok s') :
    ReadSoFar sha256 isPdf (seen ++ pieces doc paragraphs) s' := by
  induction paragraphs generalizing seen s with
  | nil =>
    obtain rfl := Except.ok.inj hread
    rwa [show pieces doc [] = [] from rfl, List.append_nil]
  | cons p rest ih =>
    rw [addParagraphs] at hread
    rw [pieces_cons]
    split_ifs at hread with hblank
    · rw [if_neg (not_readable_iff.mpr hblank), List.nil_append]
      exact ih h hopen hread
    · obtain ⟨s₁, hfragments, hrest⟩ := bind_eq_ok.mp hread
      have hreadable : Readable doc p := not_not.mp fun hp ↦ hblank (not_readable_iff.mp hp)
      have hmade := addFragments_spec h hopen hfragments
      rw [if_pos hreadable, ← List.append_assoc]
      split_ifs at hrest with hcut
      · obtain rfl := Except.ok.inj hrest
        exact hmade.later hcut _
      · exact ih hmade (Bool.eq_false_iff.mpr hcut) hrest

private theorem pieces_append (xs ys : List ParagraphIR) :
    pieces doc (xs ++ ys) = pieces doc xs ++ pieces doc ys := by
  unfold pieces
  rw [List.filter_append, List.flatMap_append]

/-- The range that is read is the next one. -/
theorem take_append_readDocument {start : Nat} (limit : Nat)
    (hstart : start ≤ (iterParagraphs doc).length) :
    (iterParagraphs doc).take start ++ (readDocument doc start limit).1 =
      (iterParagraphs doc).take (min (iterParagraphs doc).length (start + limit)) := by
  have hle : start ≤ min (iterParagraphs doc).length (start + limit) := by omega
  rw [readDocument, slice, ← Nat.min_eq_left hle, ← List.take_take, Nat.min_eq_left hle,
    List.take_append_drop]

/-- What the loop over the ranges makes. -/
theorem readPages_spec {start : Nat} (hstart : start ≤ (iterParagraphs doc).length)
    (h : ReadSoFar sha256 isPdf (pieces doc ((iterParagraphs doc).take start)) s)
    (hopen : s.truncated = false) (hread : readPages sha256 isPdf doc start s = .ok s') :
    ReadSoFar sha256 isPdf (pieces doc (iterParagraphs doc)) s' := by
  induction hleft : (iterParagraphs doc).length - start using Nat.strong_induction_on
    generalizing start s with
  | _ left ih =>
    rw [readPages] at hread
    obtain ⟨s₁, hpage, hrest⟩ := bind_eq_ok.mp hread
    have hmade := addParagraphs_spec h hopen hpage
    rw [← pieces_append, take_append_readDocument 100 hstart] at hmade
    have hsplit : pieces doc (iterParagraphs doc) =
        pieces doc ((iterParagraphs doc).take (min (iterParagraphs doc).length (start + 100))) ++
          pieces doc
            ((iterParagraphs doc).drop (min (iterParagraphs doc).length (start + 100))) := by
      rw [← pieces_append, List.take_append_drop]
    split at hrest
    · next hnone =>
      obtain rfl := Except.ok.inj hrest
      simp only [readDocument, ite_eq_right_iff, reduceCtorEq, imp_false] at hnone
      rwa [List.take_of_length_le (Nat.not_lt.mp hnone)] at hmade
    · next next hnext =>
      split_ifs at hrest with hcut
      · obtain rfl := Except.ok.inj hrest
        rw [hsplit]
        exact hmade.later hcut _
      · have hlt := readDocument_next_lt hnext
        simp only [readDocument, Option.ite_none_right_eq_some, Option.some.injEq] at hnext
        obtain ⟨hle, rfl⟩ := hnext
        exact ih _ (hleft ▸ hlt) hle.le hmade (Bool.eq_false_iff.mpr hcut) hrest rfl

/-- What is read of a document. -/
theorem extractBlocks_spec (h : extractBlocks sha256 isPdf doc = .ok s) :
    ReadSoFar sha256 isPdf (pieces doc (iterParagraphs doc)) s :=
  readPages_spec (Nat.zero_le _) readSoFar_start rfl h

/-! ## Totality -/

private theorem exists_resumeBlock (hid : p.nodeId.length ≤ 160)
    (hpage : ∀ n ∈ blockPage isPdf p, 1 ≤ n) (fragment : Fragment) :
    ∃ b, resumeBlock sha256 isPdf p fragment = .ok b := by
  have hpages : ∀ n ∈ blockPage isPdf p, 1 ≤ n ∧ n ≤ 20 := by
    intro n hn
    refine ⟨hpage n hn, ?_⟩
    unfold blockPage at hn
    split_ifs at hn
    · have hkept := (Option.mem_filter_iff.mp hn).2
      exact (of_decide_eq_true hkept).2
    · cases hn
  unfold resumeBlock
  rw [dif_pos hid, dif_pos hpages]
  exact ⟨_, rfl⟩

private theorem exists_addFragments (hid : p.nodeId.length ≤ 160)
    (hpage : ∀ n ∈ blockPage isPdf p, 1 ≤ n) (frs : List Fragment) (s : Reading) :
    ∃ s', addFragments sha256 isPdf p frs s = .ok s' := by
  induction frs generalizing s with
  | nil => exact ⟨s, rfl⟩
  | cons fragment rest ih =>
    obtain ⟨b, hb⟩ := @exists_resumeBlock sha256 isPdf p hid hpage fragment
    rw [addFragments]
    split_ifs
    · exact ⟨_, rfl⟩
    · rw [hb]
      exact ih _

private theorem exists_addParagraphs {paragraphs : List ParagraphIR}
    (h : ∀ p ∈ paragraphs, p.nodeId.length ≤ 160 ∧ ∀ n ∈ blockPage isPdf p, 1 ≤ n) (s : Reading) :
    ∃ s', addParagraphs sha256 isPdf doc paragraphs s = .ok s' := by
  induction paragraphs generalizing s with
  | nil => exact ⟨s, rfl⟩
  | cons p rest ih =>
    obtain ⟨⟨hid, hpage⟩, hrest⟩ := List.forall_mem_cons.mp h
    rw [addParagraphs]
    split_ifs
    · exact ih hrest s
    · obtain ⟨s', hs'⟩ := @exists_addFragments sha256 isPdf p hid hpage
        (fragments (cleanedText doc p)) s
      rw [hs']
      change ∃ s'', (if s'.truncated then .ok s' else _) = Except.ok s''
      split_ifs
      · exact ⟨s', rfl⟩
      · exact ih hrest s'

/-- Blocks are made of every document whose identities and pages fit in a block. -/
theorem exists_extractBlocks
    (h : ∀ p ∈ iterParagraphs doc, p.nodeId.length ≤ 160 ∧ ∀ n ∈ blockPage isPdf p, 1 ≤ n) :
    ∃ s, extractBlocks sha256 isPdf doc = .ok s := by
  have hpages (start : Nat) (s : Reading) : ∃ s', readPages sha256 isPdf doc start s = .ok s' := by
    induction hleft : (iterParagraphs doc).length - start using Nat.strong_induction_on
      generalizing start s with
    | _ left ih =>
      have hpage : ∀ p ∈ (readDocument doc start 100).1, p ∈ iterParagraphs doc :=
        fun p hp ↦ List.mem_of_mem_take (List.mem_of_mem_drop hp)
      obtain ⟨s₁, hs₁⟩ := @exists_addParagraphs sha256 isPdf doc _ (fun p hp ↦ h p (hpage p hp)) s
      rw [readPages, hs₁]
      split
      · exact ⟨s₁, rfl⟩
      · next next hnext =>
        change ∃ s', (if s₁.truncated = true then Except.ok s₁
          else readPages sha256 isPdf doc next s₁) = .ok s'
        split_ifs
        · exact ⟨s₁, rfl⟩
        · exact ih _ (hleft ▸ readDocument_next_lt hnext) next s₁ rfl
  exact hpages 0 {}

end Jobtology.Resume
