import Jobtology.Base.Collections
import Jobtology.Resume.DocumentIr
import Jobtology.Resume.Preview
import Jobtology.Resume.Suggestions

/-!
# Blocks of a document

`resume/worker.py`, the loop of `extract` over the pages of `read_document`: the blocks that are
made of a document and whether a limit cut them off.
-/

namespace Jobtology.Resume

open Jobtology.Base

/-! ## Reading -/

/-- `read_document` of a document: a range of its paragraphs, and where the next one starts. -/
def readDocument (doc : List ParagraphIR) (start limit : Nat) : List ParagraphIR × Option Nat :=
  let stop := min (iterParagraphs doc).length (start + limit)
  (slice start stop (iterParagraphs doc),
    if stop < (iterParagraphs doc).length then some stop else none)

/-- The next range starts later. -/
theorem readDocument_next_lt {doc : List ParagraphIR} {start next : Nat}
    (h : (readDocument doc start 100).2 = some next) :
    (iterParagraphs doc).length - next < (iterParagraphs doc).length - start := by
  simp only [readDocument, Option.ite_none_right_eq_some, Option.some.injEq] at h
  omega

/-- The text of a paragraph. That of a paragraph with tables repeats theirs, so its own runs are
read. -/
def paragraphText (doc : List ParagraphIR) (p : ParagraphIR) : List Char :=
  if p.tables.isEmpty then p.text
  else match (iterParagraphs doc).find? (·.nodeId = p.nodeId) with
    | some direct => direct.runText
    | none => []

/-- `re.sub` of the control characters. -/
def cleanedText (doc : List ParagraphIR) (p : ParagraphIR) : List Char :=
  (paragraphText doc p).filter fun c ↦ !isControl c

/-! ## Blocks -/

/-- `MAX_BLOCK_TEXT`. -/
def maxBlockText : Nat := 1800

/-- `MAX_TEXT`. -/
def maxText : Nat := 50000

/-- `MAX_BLOCKS`. -/
def maxBlocks : Nat := 500

/-- A piece of a text that fits in a block, with its place. -/
structure Fragment where
  offset : Nat
  text : List Char
  length_le : text.length ≤ maxBlockText

/-- `range(0, len(text), MAX_BLOCK_TEXT)` with the fragments there. -/
def fragments (text : List Char) : List Fragment :=
  (List.range ((text.length + (maxBlockText - 1)) / maxBlockText)).map fun i ↦
    { offset := maxBlockText * i
      text := slice (maxBlockText * i) (maxBlockText * i + maxBlockText) text
      length_le := by
        rw [length_slice]
        omega }

/-- The member that `ResumeBlock` refuses. `src/jobtology_be/resume/worker.py:23–24`. -/
inductive BlockError
  | sourceNodeId
  | page
  deriving DecidableEq

section Extract

variable (sha256 : List Char → {digest : List Char // IsHex 64 digest}) (isPdf : Bool)

/-- The page of a block. -/
def blockPage (p : ParagraphIR) : Option Int :=
  if isPdf then (paragraphPageNumber p).filter fun n ↦ n ≠ 0 ∧ n ≤ 20 else none

/-- `ResumeBlock` of a fragment. -/
def resumeBlock (p : ParagraphIR) (fragment : Fragment) : Except BlockError ResumeBlock :=
  if hid : p.nodeId.length ≤ 160 then
    if hpage : ∀ n ∈ blockPage isPdf p, 1 ≤ n ∧ n ≤ 20 then
      .ok
        { blockId :=
            (sha256 (p.nodeId.toList ++ ':' :: Nat.toDigits 10 fragment.offset)).1.take 24
          text := fragment.text
          textHash := (sha256 fragment.text).1
          page := (blockPage isPdf p).pmap (fun n hn ↦ ⟨n, hn⟩) hpage
          sourceNodeId := some ⟨p.nodeId, hid⟩
          sourceStart := fragment.offset
          blockId_length := (List.length_take_le _ _).trans (by decide)
          text_length := fragment.length_le
          textHash_hex := (sha256 fragment.text).2 }
    else .error .page
  else .error .sourceNodeId

/-- The counters of the loop. -/
structure Reading where
  blocks : List ResumeBlock := []
  count : Nat := 0
  truncated : Bool := false

/-- The loop over the fragments of a paragraph. -/
def addFragments (p : ParagraphIR) : List Fragment → Reading → Except BlockError Reading
  | [], s => .ok s
  | fragment :: rest, s =>
    if s.count + fragment.text.length > maxText ∨ s.blocks.length ≥ maxBlocks then
      .ok { s with truncated := true }
    else do
      let block ← resumeBlock sha256 isPdf p fragment
      addFragments p rest
        { s with blocks := s.blocks ++ [block], count := s.count + fragment.text.length }

/-- The loop over paragraphs. -/
def addParagraphs (doc : List ParagraphIR) : List ParagraphIR → Reading → Except BlockError Reading
  | [], s => .ok s
  | p :: rest, s =>
    if (cleanedText doc p).all isSpace then addParagraphs doc rest s
    else do
      let s ← addFragments sha256 isPdf p (fragments (cleanedText doc p)) s
      if s.truncated then return s else addParagraphs doc rest s

/-- The loop over the ranges of the document. -/
def readPages (doc : List ParagraphIR) (start : Nat) (s : Reading) : Except BlockError Reading := do
  let s ← addParagraphs sha256 isPdf doc (readDocument doc start 100).1 s
  match _hnext : (readDocument doc start 100).2 with
  | none => return s
  | some next => if s.truncated then return s else readPages doc next s
termination_by (iterParagraphs doc).length - start
decreasing_by exact readDocument_next_lt _hnext

/-- The blocks of `extract`. `src/jobtology_be/resume/worker.py:150–219`. -/
def extractBlocks (doc : List ParagraphIR) : Except BlockError Reading :=
  readPages sha256 isPdf doc 0 {}

end Extract

end Jobtology.Resume
