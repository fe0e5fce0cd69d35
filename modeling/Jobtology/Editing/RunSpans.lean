import Jobtology.Base.SequenceMatcher

/-!
# Paragraph edits

`document_processor/edit_engine.py`: the text of a paragraph is replaced by changes inside its runs,
so that what both texts have in common stays in its run.
-/

namespace Jobtology.Editing

open Jobtology.Base Jobtology.Base.SequenceMatcher

/-! ## Model -/

/-- `_EditableRunRef`. `src/jobtology_be/document_processor/edit_engine.py:96–114`. -/
structure EditableRun where
  nodeId : String
  text : List Char
  deriving DecidableEq

/-- `_EditableParagraphRef`. `src/jobtology_be/document_processor/edit_engine.py:117–137`. -/
structure EditableParagraph where
  nodeId : String
  runs : List EditableRun
  hasNonRunContent : Bool

/-- The text of runs. -/
def runsText (runs : List EditableRun) : List Char := runs.flatMap (·.text)

/-- `paragraph.text`. -/
def EditableParagraph.text (p : EditableParagraph) : List Char := runsText p.runs

/-- A message of `result.warnings`. -/
inductive EditWarning
  | multiRunFallback (runs : List String) (first : String)
  deriving DecidableEq

/-- The lists of `_EditEngineResult`. `src/jobtology_be/document_processor/edit_engine.py:71–87`. -/
structure EditResult where
  editsApplied : Nat := 0
  modifiedTargetIds : List String := []
  modifiedRunIds : List String := []
  warnings : List EditWarning := []
  deriving DecidableEq

/-- `_append_unique`. -/
def appendUnique (values : List String) (value : String) : List String :=
  if value ∈ values then values else values ++ [value]

/-- The result with a modified run. -/
def EditResult.modifiedRun (result : EditResult) (nodeId : String) : EditResult :=
  { result with modifiedRunIds := appendUnique result.modifiedRunIds nodeId }

/-- `_RunSpan`; its run by its place in the paragraph.
`src/jobtology_be/document_processor/edit_engine.py:176–183`. -/
structure RunSpan where
  start : Nat
  stop : Nat
  fullStart : Nat
  fullStop : Nat
  run : Nat
  nodeId : String
  deriving DecidableEq

/-- The loop of `_build_run_spans`. -/
def runSpansFrom : Nat → Nat → List EditableRun → List RunSpan
  | _, _, [] => []
  | cursor, index, run :: rest =>
    ⟨cursor, cursor + run.text.length, cursor, cursor + run.text.length, index, run.nodeId⟩ ::
      runSpansFrom (cursor + run.text.length) (index + 1) rest

/-- `_build_run_spans`. `src/jobtology_be/document_processor/edit_engine.py:805–820`. -/
def buildRunSpans (runs : List EditableRun) : List RunSpan := runSpansFrom 0 0 runs

/-- A span as far as it meets the range; an insertion keeps the whole span. -/
def RunSpan.clip (span : RunSpan) (i1 i2 : Nat) : Option RunSpan :=
  if i1 = i2 then
    if span.stop < i1 ∨ i2 < span.start then none else some span
  else if span.stop ≤ i1 ∨ i2 ≤ span.start then none
  else some { span with start := max span.start i1, stop := min span.stop i2 }

/-- `_clip_run_spans`: an insertion goes to the span that ends there.
`src/jobtology_be/document_processor/edit_engine.py:823–846`. -/
def clipRunSpans (spans : List RunSpan) (i1 i2 : Nat) : List RunSpan :=
  let clipped := spans.filterMap (·.clip i1 i2)
  if i1 = i2 ∧ 1 < clipped.length then
    match clipped.find? (·.stop = i1) with
    | some preceding => [preceding]
    | none => clipped
  else clipped

/-- The place that an index of a slice stands for. -/
def sliceIndex (text : List Char) (index : Int) : Nat :=
  if index < 0 then (text.length + index).toNat else min index.toNat text.length

/-- `current[:start] + new_text + current[end:]`.
`src/jobtology_be/document_processor/edit_engine.py:854–858`. -/
def applyToRun (current newText : List Char) (start stop : Int) : List Char :=
  current.take (sliceIndex current start) ++ newText ++ current.drop (sliceIndex current stop)

/-- Runs under replacement, with `offset_deltas` and the result. -/
structure Replacement where
  runs : List EditableRun
  offsetDeltas : String → Int
  result : EditResult

/-- `_apply_to_run_with_offsets`, and the run as modified.
`src/jobtology_be/document_processor/edit_engine.py:861–872`. -/
def Replacement.applyToRun (r : Replacement) (span : RunSpan) (newText : List Char)
    (localStart localStop : Int) : Replacement :=
  let delta := r.offsetDeltas span.nodeId
  { runs := r.runs.modify span.run fun run ↦
      ⟨run.nodeId, Editing.applyToRun run.text newText (localStart + delta) (localStop + delta)⟩
    offsetDeltas := Function.update r.offsetDeltas span.nodeId
      (delta + newText.length - (localStop - localStart))
    result := r.result.modifiedRun span.nodeId }

/-- A part of a span is replaced. -/
def Replacement.applyToSpan (r : Replacement) (span : RunSpan) (newText : List Char)
    (i1 i2 : Nat) : Replacement :=
  r.applyToRun span newText (i1 - span.fullStart) (i2 - span.fullStart)

/-- `_apply_multi_run` at its second depth: the first span takes the new text.
`src/jobtology_be/document_processor/edit_engine.py:875–936`. -/
def Replacement.applyFallback (r : Replacement) (newText : List Char) :
    List RunSpan → Replacement
  | [] => r
  | first :: rest =>
    let replaced := rest.foldl (fun r span ↦ r.applyToSpan span [] span.start span.stop)
      (r.applyToSpan first newText first.start first.stop)
    { replaced with result := { replaced.result with
        warnings := replaced.result.warnings ++
          [.multiRunFallback ((first :: rest).map (·.nodeId)) first.nodeId] } }

/-- A loop over opcodes whose changes inside one span are made there. -/
def Replacement.applyOpcode (several : Replacement → List RunSpan → Opcode → Replacement)
    (spans : List RunSpan) (newText : List Char) (baseOffset : Nat) (r : Replacement)
    (o : Opcode) : Replacement :=
  if o.tag = .equal then r
  else
    match clipRunSpans spans (baseOffset + o.i1) (baseOffset + o.i2) with
    | [] => r
    | [span] => r.applyToSpan span (slice o.j1 o.j2 newText) (baseOffset + o.i1) (baseOffset + o.i2)
    | affected => several r affected o

/-- `_apply_multi_run` at its first depth. -/
def Replacement.applyMultiRun (r : Replacement) (origSub newSub : List Char)
    (spans : List RunSpan) (baseOffset : Nat) : Replacement :=
  (getOpcodes origSub newSub).foldl (Replacement.applyOpcode
    (fun r affected o ↦ r.applyFallback (slice o.j1 o.j2 newSub) affected) spans newSub
    baseOffset) r

/-- `_replace_paragraph_text` on the runs.
`src/jobtology_be/document_processor/edit_engine.py:1014–1053`. -/
def replaceRuns (runs : List EditableRun) (newText : List Char) (result : EditResult) :
    List EditableRun × EditResult :=
  match runs with
  | [run] => ([{ run with text := newText }], result.modifiedRun run.nodeId)
  | _ =>
    let original := runsText runs
    let replaced := (getOpcodes original newText).foldl (Replacement.applyOpcode
      (fun r affected o ↦ r.applyMultiRun (slice o.i1 o.i2 original) (slice o.j1 o.j2 newText)
        affected o.i1) (buildRunSpans runs) newText 0) ⟨runs, fun _ ↦ 0, result⟩
    (replaced.runs, replaced.result)

/-- `_replace_paragraph_text`. -/
def EditableParagraph.replaceText (p : EditableParagraph) (newText : List Char)
    (result : EditResult) : EditableParagraph × EditResult :=
  let (runs, result) := replaceRuns p.runs newText result
  ({ p with runs }, result)

end Jobtology.Editing
