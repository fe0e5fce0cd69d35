import Jobtology.Base.Collections
import Jobtology.Editing.RunSpans

/-!
# Document edits

`document_processor/edit_engine.py`: text edits on a document, with the texts that its paragraphs
and cells store. Nodes are found by their identities, the last that is registered under one.
-/

namespace Jobtology.Editing

open Jobtology.Base

/-! ## Documents -/

/-- `_EditableCellRef`. `src/jobtology_be/document_processor/edit_engine.py:140–158`. -/
structure EditableCell where
  nodeId : String
  paragraphs : List EditableParagraph

mutual

/-- `ParagraphIR`, with its stored text. -/
inductive ParagraphIR
  | mk (nodeId : String) (text : List Char) (content : List ContentNode)

/-- `ParagraphContentNode`; a table by its cells. -/
inductive ContentNode
  | run (run : EditableRun)
  | image
  | table (cells : List TableCellIR)

/-- `TableCellIR`, with its stored text. -/
inductive TableCellIR
  | mk (nodeId : String) (text : List Char) (paragraphs : List ParagraphIR)

end

namespace ContentNode

/-- The node as a run. -/
def asRun : ContentNode → Option EditableRun
  | run r => some r
  | _ => none

/-- The node as a table. -/
def asTable : ContentNode → Option (List TableCellIR)
  | table cells => some cells
  | _ => none

/-- Whether the node is no run. -/
def isNonRun : ContentNode → Bool
  | run _ => false
  | _ => true

end ContentNode

/-- `paragraph.runs`. -/
def contentRuns (content : List ContentNode) : List EditableRun := content.filterMap (·.asRun)

/-- `paragraph.tables`. -/
def contentTables (content : List ContentNode) : List (List TableCellIR) :=
  content.filterMap (·.asTable)

namespace ParagraphIR

/-- `paragraph.node_id`. -/
def nodeId : ParagraphIR → String
  | mk nodeId _ _ => nodeId

/-- `paragraph.text`.
`src/jobtology_be/document_processor/edit_engine.py:109–110,132–133,153–154`. -/
def text : ParagraphIR → List Char
  | mk _ text _ => text

/-- `paragraph.content`. -/
def content : ParagraphIR → List ContentNode
  | mk _ _ content => content

/-- `register_paragraph`. -/
def editable (p : ParagraphIR) : EditableParagraph :=
  ⟨p.nodeId, contentRuns p.content, p.content.any (·.isNonRun)⟩

end ParagraphIR

namespace TableCellIR

/-- `cell.node_id`. -/
def nodeId : TableCellIR → String
  | mk nodeId _ _ => nodeId

/-- `cell.text`. -/
def text : TableCellIR → List Char
  | mk _ text _ => text

/-- `cell.paragraphs`. -/
def paragraphs : TableCellIR → List ParagraphIR
  | mk _ _ paragraphs => paragraphs

/-- The `_EditableCellRef` of a cell. -/
def editable (c : TableCellIR) : EditableCell := ⟨c.nodeId, c.paragraphs.map (·.editable)⟩

end TableCellIR

/-- `'\n'.join(parts)`. -/
def joinLines (parts : List (List Char)) : List Char := ['\n'].intercalate parts

/-- The text that `ParagraphIR.recompute_text` stores. -/
def paragraphText (content : List ContentNode) : List Char :=
  let runs := contentRuns content
  let tables := contentTables content
  if tables.isEmpty then runsText runs
  else
    let tableTexts := tables.flatMap fun cells ↦
      let cellTexts := (cells.map (·.text)).filter (· ≠ [])
      if cellTexts.isEmpty then [] else [joinLines cellTexts]
    joinLines (((if runs.isEmpty then [] else [runsText runs]) ++ tableTexts).filter (· ≠ []))

/-- The text that `TableCellIR.recompute_text` stores. -/
def cellText (paragraphs : List ParagraphIR) : List Char := joinLines (paragraphs.map (·.text))

/-- A paragraph with its text recomputed.
`src/jobtology_be/document_processor/edit_engine.py:135–137,156–158`. -/
def ParagraphIR.recompute (nodeId : String) (content : List ContentNode) : ParagraphIR :=
  .mk nodeId (paragraphText content) content

/-- A cell with its text recomputed. -/
def TableCellIR.recompute (nodeId : String) (paragraphs : List ParagraphIR) : TableCellIR :=
  .mk nodeId (cellText paragraphs) paragraphs

mutual

/-- The paragraphs that `_build_doc_ir_index` registers.
`src/jobtology_be/document_processor/edit_engine.py:186–190,201–272`. -/
def paragraphRefs : List ParagraphIR → List EditableParagraph
  | [] => []
  | .mk nodeId text content :: rest =>
    (ParagraphIR.mk nodeId text content).editable :: (contentRefs content ++ paragraphRefs rest)

/-- Those in the tables of a paragraph. -/
def contentRefs : List ContentNode → List EditableParagraph
  | [] => []
  | .run _ :: rest => contentRefs rest
  | .image :: rest => contentRefs rest
  | .table cells :: rest => nestedRefs cells ++ contentRefs rest

/-- Those in cells. -/
def nestedRefs : List TableCellIR → List EditableParagraph
  | [] => []
  | .mk _ _ paragraphs :: rest => paragraphRefs paragraphs ++ nestedRefs rest

end

mutual

/-- The cells that `_build_doc_ir_index` registers. -/
def cellRefs : List ParagraphIR → List EditableCell
  | [] => []
  | .mk _ _ content :: rest => contentCells content ++ cellRefs rest

/-- Those in the tables of a paragraph. -/
def contentCells : List ContentNode → List EditableCell
  | [] => []
  | .run _ :: rest => contentCells rest
  | .image :: rest => contentCells rest
  | .table cells :: rest => nestedCells cells ++ contentCells rest

/-- Cells, each before those inside it. -/
def nestedCells : List TableCellIR → List EditableCell
  | [] => []
  | .mk nodeId text paragraphs :: rest =>
    (TableCellIR.mk nodeId text paragraphs).editable :: (cellRefs paragraphs ++ nestedCells rest)

end

/-- The runs that `_build_doc_ir_index` registers. -/
def runRefs (doc : List ParagraphIR) : List EditableRun := (paragraphRefs doc).flatMap (·.runs)

/-! ## Changes -/

/-- Runs put in the places of the runs of a paragraph. -/
def putRuns : List ContentNode → List EditableRun → List ContentNode
  | .run _ :: rest, run :: runs => .run run :: putRuns rest runs
  | node :: rest, runs => node :: putRuns rest runs
  | [], _ => []

/-- Runs put in the paragraphs of a cell. -/
def putLines : List ParagraphIR → List (List EditableRun) → List ParagraphIR
  | paragraph :: rest, runs :: lines =>
    .recompute paragraph.nodeId (putRuns paragraph.content runs) :: putLines rest lines
  | paragraphs, _ => paragraphs

/-- What changes: the runs of a paragraph, or those of the paragraphs of a cell. -/
structure Change where
  paragraph : EditableParagraph → Option (List EditableRun)
  cell : EditableCell → Option (List (List EditableRun))

namespace Change

mutual

/-- The change of the last paragraph or cell that it applies to, after which the texts on the way up
are recomputed. -/
def onParagraph (change : Change) : ParagraphIR → Option ParagraphIR
  | .mk nodeId text content =>
    ((change.onContent content).or
      ((change.paragraph (ParagraphIR.mk nodeId text content).editable).map
        (putRuns content))).map (.recompute nodeId)

/-- The change inside the nodes of a paragraph. -/
def onContent (change : Change) : List ContentNode → Option (List ContentNode)
  | [] => none
  | .run run :: rest => (change.onContent rest).map (.run run :: ·)
  | .image :: rest => (change.onContent rest).map (.image :: ·)
  | .table cells :: rest =>
    ((change.onContent rest).map (.table cells :: ·)).or
      ((change.onCells cells).map (.table · :: rest))

/-- The change inside a cell. -/
def onCell (change : Change) : TableCellIR → Option TableCellIR
  | .mk nodeId text paragraphs =>
    ((change.onParagraphs paragraphs).or
      ((change.cell (TableCellIR.mk nodeId text paragraphs).editable).map
        (putLines paragraphs))).map (.recompute nodeId)

/-- The change inside one of the cells. -/
def onCells (change : Change) : List TableCellIR → Option (List TableCellIR)
  | [] => none
  | cell :: rest =>
    ((change.onCells rest).map (cell :: ·)).or ((change.onCell cell).map (· :: rest))

/-- The change inside one of the paragraphs. -/
def onParagraphs (change : Change) : List ParagraphIR → Option (List ParagraphIR)
  | [] => none
  | paragraph :: rest =>
    ((change.onParagraphs rest).map (paragraph :: ·)).or
      ((change.onParagraph paragraph).map (· :: rest))

end

end Change

/-- The last run of an identity with a new text. -/
def setRunText (target : String) (newText : List Char) :
    List EditableRun → Option (List EditableRun)
  | [] => none
  | run :: rest => ((setRunText target newText rest).map (run :: ·)).or
      (if run.nodeId = target then some (⟨run.nodeId, newText⟩ :: rest) else none)

/-! ## Edits -/

/-- `TextTargetKind`. -/
inductive TextTargetKind
  | run
  | paragraph
  | cell
  deriving DecidableEq

/-- `TextEdit`. -/
structure TextEdit where
  targetKind : Option TextTargetKind
  targetId : String
  expectedTextHash : String
  newText : List Char

/-- `EditValidationError`. `src/jobtology_be/document_processor/edit_engine.py:48–68`. -/
inductive EditValidationError
  | missing (kind : TextTargetKind) (target : String)
  | mixedContent (kind : TextTargetKind) (target : String)
  | noEditableRuns (target : String)
  | textHashMismatch (kind : TextTargetKind) (target expected current : String)
      (currentText : List Char)
  | paragraphCount (target : String) (expected got : Nat)
  | unsupportedKind

/-- `_append_unique` on the modified targets, and one more edit.
`src/jobtology_be/document_processor/edit_engine.py:849–851`. -/
def EditResult.applied (result : EditResult) (target : String) : EditResult :=
  { result with
    editsApplied := result.editsApplied + 1
    modifiedTargetIds := appendUnique result.modifiedTargetIds target }

/-- An object that must be there. -/
def orMissing {α : Type} (kind : TextTargetKind) (target : String) :
    Option α → Except EditValidationError α
  | some x => .ok x
  | none => .error (.missing kind target)

/-- A check before an edit. -/
def check (holds : Bool) (error : EditValidationError) : Except EditValidationError Unit :=
  if holds then .ok () else .error error

/-- `cell.text` of an `_EditableCellRef`. -/
def EditableCell.text (c : EditableCell) : List Char := joinLines (c.paragraphs.map (·.text))

/-- The runs of paragraphs with a line each, and the result. -/
def replaceLines : List EditableParagraph → List (List Char) → EditResult →
    List (List EditableRun) × EditResult
  | paragraph :: rest, line :: lines, result =>
    let (runs, result) := replaceRuns paragraph.runs line result
    let (replaced, result) := replaceLines rest lines result
    (runs :: replaced, result)
  | _, _, result => ([], result)

/-- The document after a change. -/
def Change.apply (change : Change) (doc : List ParagraphIR) : List ParagraphIR :=
  (change.onParagraphs doc).getD doc

/-- A new text for the run of an identity. -/
def runChange (target : String) (newText : List Char) : Change where
  paragraph p := setRunText target newText p.runs
  cell _ := none

/-- New runs for the paragraph of an identity. -/
def paragraphChange (target : String) (runs : List EditableRun) : Change where
  paragraph p := if p.nodeId = target then some runs else none
  cell _ := none

/-- New runs for the paragraphs of the cell of an identity. -/
def cellChange (target : String) (lines : List (List EditableRun)) : Change where
  paragraph _ := none
  cell c := if c.nodeId = target then some lines else none

section Apply

variable (textHash : List Char → String)

/-- `_validate_run_edit` and the edit of a run.
`src/jobtology_be/document_processor/edit_engine.py:963–978`. -/
def applyRunEdit (doc : List ParagraphIR) (edit : TextEdit) (result : EditResult) :
    Except EditValidationError (List ParagraphIR × EditResult) := do
  let run ← orMissing .run edit.targetId (lookupLast (·.nodeId) (runRefs doc) edit.targetId)
  check (textHash run.text = edit.expectedTextHash) (.textHashMismatch .run edit.targetId
    edit.expectedTextHash (textHash run.text) run.text)
  return ((runChange edit.targetId edit.newText).apply doc,
    (result.applied edit.targetId).modifiedRun edit.targetId)

/-- `_validate_paragraph_edit` and the edit of a paragraph.
`src/jobtology_be/document_processor/edit_engine.py:939–960`. -/
def applyParagraphEdit (doc : List ParagraphIR) (edit : TextEdit) (result : EditResult) :
    Except EditValidationError (List ParagraphIR × EditResult) := do
  let paragraph ← orMissing .paragraph edit.targetId
    (lookupLast (·.nodeId) (paragraphRefs doc) edit.targetId)
  check (!paragraph.hasNonRunContent) (.mixedContent .paragraph edit.targetId)
  check (textHash paragraph.text = edit.expectedTextHash) (.textHashMismatch .paragraph
    edit.targetId edit.expectedTextHash (textHash paragraph.text) paragraph.text)
  let (runs, result) := replaceRuns paragraph.runs edit.newText result
  return ((paragraphChange edit.targetId runs).apply doc, result.applied edit.targetId)

/-- `_validate_cell_edit` and the edit of a cell.
`src/jobtology_be/document_processor/edit_engine.py:981–1011`. -/
def applyCellEdit (doc : List ParagraphIR) (edit : TextEdit) (result : EditResult) :
    Except EditValidationError (List ParagraphIR × EditResult) := do
  let cell ← orMissing .cell edit.targetId (lookupLast (·.nodeId) (cellRefs doc) edit.targetId)
  check (!cell.paragraphs.any (·.hasNonRunContent)) (.mixedContent .cell edit.targetId)
  check (!cell.paragraphs.isEmpty && !cell.paragraphs.any (·.runs.isEmpty))
    (.noEditableRuns edit.targetId)
  check (textHash cell.text = edit.expectedTextHash) (.textHashMismatch .cell edit.targetId
    edit.expectedTextHash (textHash cell.text) cell.text)
  let lines := edit.newText.splitOn '\n'
  check (lines.length = cell.paragraphs.length) (.paragraphCount edit.targetId
    cell.paragraphs.length lines.length)
  let (replaced, result) := replaceLines cell.paragraphs lines result
  return ((cellChange edit.targetId replaced).apply doc, result.applied edit.targetId)

/-- `_apply_single_edit`. `src/jobtology_be/document_processor/edit_engine.py:1056–1087`. -/
def applySingleEdit (doc : List ParagraphIR) (edit : TextEdit) (result : EditResult) :
    Except EditValidationError (List ParagraphIR × EditResult) :=
  match edit.targetKind with
  | some .run => applyRunEdit textHash doc edit result
  | some .paragraph => applyParagraphEdit textHash doc edit result
  | some .cell => applyCellEdit textHash doc edit result
  | none => .error .unsupportedKind

/-- The loop of `_apply_text_edits_to_doc_ir`. -/
def applyEdits (doc : List ParagraphIR) (result : EditResult) :
    List TextEdit → Except EditValidationError (List ParagraphIR × EditResult)
  | [] => .ok (doc, result)
  | edit :: edits => applySingleEdit textHash doc edit result >>= fun (doc, result) ↦
      applyEdits doc result edits

/-- `_apply_text_edits_to_doc_ir`.
`src/jobtology_be/document_processor/edit_engine.py:1090–1097`. -/
def applyTextEditsToDocIr (doc : List ParagraphIR) (edits : List TextEdit) :
    Except EditValidationError (List ParagraphIR × EditResult) :=
  applyEdits textHash doc {} edits

end Apply

end Jobtology.Editing
