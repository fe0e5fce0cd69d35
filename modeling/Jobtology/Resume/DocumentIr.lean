import Mathlib.Data.List.Defs

/-!
# Document trees

`document_processor/models.py`: paragraphs with their runs, images and tables, as far as blocks and
annotations read them. A document comes with its identities (`ensure_node_identity`), and the cells
of a table stand as `iter_cells` gives them.
-/

namespace Jobtology.Resume

/-- `RunIR`. `src/jobtology_be/document_processor/models.py:127–142`. -/
structure RunIR where
  nodeId : String
  text : List Char
  pageNumber : Option Int := none

/-- `ImageIR`. `src/jobtology_be/document_processor/models.py:218–236`. -/
structure ImageIR where
  pageNumber : Option Int := none

mutual

/-- `ParagraphIR`. `src/jobtology_be/document_processor/models.py:239–299`. -/
inductive ParagraphIR
  | mk (nodeId : String) (text : List Char) (content : List ContentNode)

/-- `ParagraphContentNode`. -/
inductive ContentNode
  | run (run : RunIR)
  | image (image : ImageIR)
  | table (table : TableIR)

/-- `TableIR`. `src/jobtology_be/document_processor/models.py:323–387`. -/
inductive TableIR
  | mk (pageNumber : Option Int) (cells : List TableCellIR)

/-- `TableCellIR`. `src/jobtology_be/document_processor/models.py:302–320`. -/
inductive TableCellIR
  | mk (paragraphs : List ParagraphIR)

end

namespace ContentNode

/-- The node as a run. -/
def asRun : ContentNode → Option RunIR
  | run r => some r
  | _ => none

/-- The node as an image. -/
def asImage : ContentNode → Option ImageIR
  | image i => some i
  | _ => none

/-- The node as a table. -/
def asTable : ContentNode → Option TableIR
  | table t => some t
  | _ => none

end ContentNode

namespace ParagraphIR

/-- `paragraph.node_id`. -/
def nodeId : ParagraphIR → String
  | mk nodeId _ _ => nodeId

/-- `paragraph.text`. -/
def text : ParagraphIR → List Char
  | mk _ text _ => text

/-- `paragraph.content`. -/
def content : ParagraphIR → List ContentNode
  | mk _ _ content => content

/-- `paragraph.runs`. `src/jobtology_be/document_processor/models.py:257–258`. -/
def runs (p : ParagraphIR) : List RunIR := p.content.filterMap (·.asRun)

/-- `paragraph.images`. `src/jobtology_be/document_processor/models.py:261–262`. -/
def images (p : ParagraphIR) : List ImageIR := p.content.filterMap (·.asImage)

/-- `paragraph.tables`. `src/jobtology_be/document_processor/models.py:265–266`. -/
def tables (p : ParagraphIR) : List TableIR := p.content.filterMap (·.asTable)

/-- `''.join(run.text for run in paragraph.runs)`.
`src/jobtology_be/document_processor/edit_engine.py:499–500`. -/
def runText (p : ParagraphIR) : List Char := p.runs.flatMap (·.text)

/-- Whether the paragraph has neither tables nor images. -/
def isPlain (p : ParagraphIR) : Bool := p.tables.isEmpty && p.images.isEmpty

end ParagraphIR

/-! ## Traversal -/

mutual

/-- `_paragraphs` of the worker, `paragraphs` of the preview, `_iter_paragraphs` of the annotations
and `_iter_doc_ir_paragraphs`: each paragraph before those of its tables.
`src/jobtology_be/document_processor/annotations.py:147–151`,
`src/jobtology_be/resume/worker.py:27–32`. -/
def iterParagraphs : List ParagraphIR → List ParagraphIR
  | [] => []
  | .mk nodeId text content :: rest =>
    .mk nodeId text content :: (contentParagraphs content ++ iterParagraphs rest)

/-- The paragraphs in the tables of a paragraph. -/
def contentParagraphs : List ContentNode → List ParagraphIR
  | [] => []
  | .run _ :: rest => contentParagraphs rest
  | .image _ :: rest => contentParagraphs rest
  | .table table :: rest => tableParagraphs table ++ contentParagraphs rest

/-- The paragraphs in a table. -/
def tableParagraphs : TableIR → List ParagraphIR
  | .mk _ cells => cellParagraphs cells

/-- The paragraphs in cells. -/
def cellParagraphs : List TableCellIR → List ParagraphIR
  | [] => []
  | .mk paragraphs :: rest => iterParagraphs paragraphs ++ cellParagraphs rest

end

/-! ## Page numbers -/

mutual

/-- `paragraph_page_number`. `src/jobtology_be/document_processor/models.py:951–959`. -/
def paragraphPageNumber : ParagraphIR → Option Int
  | .mk _ _ content => contentPageNumber content

/-- The loop over the nodes of a paragraph. -/
def contentPageNumber : List ContentNode → Option Int
  | [] => none
  | .run run :: rest => run.pageNumber.or (contentPageNumber rest)
  | .image image :: rest => image.pageNumber.or (contentPageNumber rest)
  | .table table :: rest => (tablePageNumber table).or (contentPageNumber rest)

/-- `_table_page_number` without a fallback.
`src/jobtology_be/document_processor/models.py:988–996`. -/
def tablePageNumber : TableIR → Option Int
  | .mk pageNumber cells => pageNumber.or (cellsPageNumber cells)

/-- The loop over the cells of a table. -/
def cellsPageNumber : List TableCellIR → Option Int
  | [] => none
  | .mk paragraphs :: rest => (firstPageNumber paragraphs).or (cellsPageNumber rest)

/-- The loop over the paragraphs of a cell. -/
def firstPageNumber : List ParagraphIR → Option Int
  | [] => none
  | paragraph :: rest => (paragraphPageNumber paragraph).or (firstPageNumber rest)

end

end Jobtology.Resume
