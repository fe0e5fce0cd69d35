import Jobtology.Base.Dictionary
import Jobtology.Resume.DocumentIr
import Jobtology.Resume.Suggestions

/-!
# Source annotations

`resume/preview.py`, `source_annotations`, and `document_processor/annotations.py`: the annotations
that mark blocks in the preview of a document, and how the renderer resolves them.
-/

namespace Jobtology.Resume

open Jobtology.Base

/-! ## Annotations -/

/-- `AnnotationTargetKind`. -/
inductive TargetKind
  | paragraph
  | run
  deriving DecidableEq

/-- `TextAnnotation`. -/
structure TextAnnotation where
  targetKind : TargetKind
  targetId : String
  selectedText : Option (List Char) := none
  occurrenceIndex : Option Nat := none
  label : List Char
  color : String := "#FFFF00"
  note : String := ""
  selectedText_ne : selectedText ≠ some []
  selectedText_isSome : occurrenceIndex.isSome → selectedText.isSome

/-- What `source_annotations` may raise: `ValidationError` of an annotation, or `ValueError` of
`matches.index`. -/
inductive AnnotateError
  | selectedTextEmpty
  | notInList
  deriving DecidableEq

/-- `TextAnnotation` of a quote, at the occurrence that is at a position of the target. -/
def textAnnotation (targetKind : TargetKind) (targetId : String) (quote target : List Char)
    (position : Nat) (block : ResumeBlock) : Except AnnotateError TextAnnotation :=
  match (occurrences quote target).idxOf? position with
  | none => .error .notInList
  | some index =>
    if hquote : quote = [] then .error .selectedTextEmpty
    else .ok
      { targetKind := targetKind
        targetId := targetId
        selectedText := some quote
        occurrenceIndex := some index
        label := "resume-block:".toList ++ block.blockId
        color := "#E4DDFF"
        selectedText_ne := fun h ↦ hquote (Option.some.inj h)
        selectedText_isSome := fun _ ↦ rfl }

/-! ## `source_annotations` -/

/-- The most annotations that are made. -/
def annotationCap : Nat := 1000

/-- The loop over the runs of a paragraph with tables or images. A bound that would be negative is
zero here, which leaves nothing of a run either way. -/
def annotateRuns (block : ResumeBlock) (start stop : Nat) :
    Nat → List RunIR → List TextAnnotation → Except AnnotateError (List TextAnnotation)
  | _, [], annotations => .ok annotations
  | cursor, run :: rest, annotations =>
    if annotations.length ≥ annotationCap then .ok annotations
    else
      let left := start - cursor
      let right := min run.text.length (stop - cursor)
      if left ≥ right then
        annotateRuns block start stop (cursor + run.text.length) rest annotations
      else do
        let mark ← textAnnotation .run run.nodeId (slice left right run.text) run.text left
          block
        annotateRuns block start stop (cursor + run.text.length) rest (annotations ++ [mark])

/-- `by_node.get`. -/
def byNode (doc : List ParagraphIR) (nodeId : Option String) : Option ParagraphIR :=
  nodeId.bind (lookupLast (·.nodeId) (iterParagraphs doc))

/-- The pass of the loop over one block. -/
def annotateBlock (doc : List ParagraphIR) (block : ResumeBlock)
    (annotations : List TextAnnotation) : Except AnnotateError (List TextAnnotation) :=
  match byNode doc (block.sourceNodeId.map (·.1)) with
  | none => .ok annotations
  | some paragraph =>
    let start := block.sourceStart
    let stop := block.sourceStart + block.text.length
    if slice start stop paragraph.runText ≠ block.text then .ok annotations
    else if paragraph.tables.isEmpty ∧ paragraph.images.isEmpty then do
      let mark ← textAnnotation .paragraph paragraph.nodeId block.text paragraph.runText start
        block
      return annotations ++ [mark]
    else annotateRuns block start stop 0 paragraph.runs annotations

/-- The loop over the blocks. -/
def annotateBlocks (doc : List ParagraphIR) :
    List ResumeBlock → List TextAnnotation → Except AnnotateError (List TextAnnotation)
  | [], annotations => .ok annotations
  | block :: rest, annotations =>
    if annotations.length ≥ annotationCap then .ok annotations
    else do
      let annotations ← annotateBlock doc block annotations
      annotateBlocks doc rest annotations

/-- `source_annotations`. `src/jobtology_be/resume/preview.py:120–166`. -/
def sourceAnnotations (doc : List ParagraphIR) (blocks : List ResumeBlock) :
    Except AnnotateError (List TextAnnotation) := annotateBlocks doc blocks []

/-! ## Resolution -/

/-- `_AnnotationValidationError`. `src/jobtology_be/document_processor/annotations.py:112–115`. -/
inductive AnnotationValidationError
  | selectedTextNotFound
  | selectedTextAmbiguous
  | occurrenceIndexOutOfBounds
  | paragraphWithTables
  | targetMissing
  deriving DecidableEq

/-- `text.find` from a position on. -/
def findFrom (text pattern : List Char) (start : Nat) : Option Nat :=
  (List.range (text.length + 1)).find? fun i ↦ start ≤ i ∧ pattern <+: text.drop i

/-- What is found is an occurrence from the start on. -/
theorem findFrom_some {text pattern : List Char} {start i : Nat}
    (h : findFrom text pattern start = some i) : start ≤ i ∧ i ∈ occurrences pattern text := by
  have hmem := List.mem_range.mp (List.mem_of_find?_eq_some h)
  have hfound : start ≤ i ∧ pattern <+: text.drop i := by
    simpa using List.find?_some h
  exact ⟨hfound.1, mem_occurrences.mpr ⟨Nat.le_of_lt_succ hmem, hfound.2⟩⟩

/-- `_find_text_occurrences`, from a position on.
`src/jobtology_be/document_processor/annotations.py:166–174`. -/
def findTextOccurrences (text selectedText : List Char) (searchFrom : Nat) : List Nat :=
  match _hfound : findFrom text selectedText searchFrom with
  | none => []
  | some index => index :: findTextOccurrences text selectedText (index + 1)
termination_by text.length + 1 - searchFrom
decreasing_by
  have hle := (mem_occurrences.mp (findFrom_some _hfound).2).1
  have hfrom := (findFrom_some _hfound).1
  omega

/-- What `_resolve_selected_span` returns. -/
structure SelectedSpan where
  start : Nat
  stop : Nat
  selectedText : List Char
  occurrenceIndex : Option Nat

/-- `_resolve_selected_span`. `src/jobtology_be/document_processor/annotations.py:177–209`. -/
def resolveSelectedSpan (text : List Char) (selectedText : Option (List Char))
    (occurrenceIndex : Option Nat) : Except AnnotationValidationError SelectedSpan :=
  match selectedText with
  | none => .ok ⟨0, text.length, text, none⟩
  | some selected =>
    let found := findTextOccurrences text selected 0
    if found = [] then .error .selectedTextNotFound
    else if occurrenceIndex = none ∧ found.length > 1 then .error .selectedTextAmbiguous
    else match found[occurrenceIndex.getD 0]? with
      | none => .error .occurrenceIndexOutOfBounds
      | some start =>
        .ok ⟨start, start + selected.length, selected, some (occurrenceIndex.getD 0)⟩

/-- `_ResolvedAnnotation`. `src/jobtology_be/document_processor/annotations.py:135–144`. -/
structure ResolvedAnnotation where
  targetId : String
  targetKind : TargetKind
  span : SelectedSpan
  label : List Char
  color : String
  note : String

/-- `_resolve_annotation_target`: runs are looked up before paragraphs.
`src/jobtology_be/document_processor/annotations.py:212–282`. -/
def resolveAnnotationTarget (doc : List ParagraphIR) (mark : TextAnnotation) :
    Except AnnotationValidationError ResolvedAnnotation :=
  let resolved (kind : TargetKind) (text : List Char) := do
    let span ← resolveSelectedSpan text mark.selectedText mark.occurrenceIndex
    return (⟨mark.targetId, kind, span, mark.label, mark.color,
      mark.note⟩ : ResolvedAnnotation)
  let runs := (dictOf (·.nodeId) (iterParagraphs doc)).flatMap (·.runs)
  match lookupLast (·.nodeId) runs mark.targetId with
  | some run => resolved .run run.text
  | none =>
    match lookupLast (·.nodeId) (iterParagraphs doc) mark.targetId with
    | none => .error .targetMissing
    | some paragraph =>
      if ¬paragraph.tables.isEmpty ∨ ¬paragraph.images.isEmpty then .error .paragraphWithTables
      else resolved .paragraph paragraph.runText

end Jobtology.Resume
