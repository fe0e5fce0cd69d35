import Jobtology.Editing.DocumentEdits
import Jobtology.Editing.ParagraphEdits

/-!
# Laws of document edits

What text edits keep of a document, the texts that its nodes store among it, and what they make of
their targets.
-/

namespace Jobtology.Editing

open Jobtology.Base Jobtology.Base.SequenceMatcher

/-! ### One node -/

section One

variable (nodeId : String) (text : List Char)

private theorem paragraphRefs_one (content : List ContentNode) :
    paragraphRefs [.mk nodeId text content] =
      (ParagraphIR.mk nodeId text content).editable :: contentRefs content := by
  rw [paragraphRefs, paragraphRefs, List.append_nil]

private theorem cellRefs_one (content : List ContentNode) :
    cellRefs [.mk nodeId text content] = contentCells content := by
  rw [cellRefs, cellRefs, List.append_nil]

private theorem nestedRefs_one (paragraphs : List ParagraphIR) :
    nestedRefs [.mk nodeId text paragraphs] = paragraphRefs paragraphs := by
  rw [nestedRefs, nestedRefs, List.append_nil]

private theorem nestedCells_one (paragraphs : List ParagraphIR) :
    nestedCells [.mk nodeId text paragraphs] =
      (TableCellIR.mk nodeId text paragraphs).editable :: cellRefs paragraphs := by
  rw [nestedCells, nestedCells, List.append_nil]

end One

/-! ### Changes of a document -/

variable {change : Change}

namespace Change

/-- What a change does at each kind of node gives what it does to a document. -/
structure Rule (change : Change) (P : ParagraphIR → ParagraphIR → Prop)
    (Q : List ContentNode → List ContentNode → Prop) (C : TableCellIR → TableCellIR → Prop)
    (Cs : List TableCellIR → List TableCellIR → Prop)
    (Ps : List ParagraphIR → List ParagraphIR → Prop) : Prop where
  paragraphInside : ∀ nodeId text content content', Q content content' →
    P (.mk nodeId text content) (.recompute nodeId content')
  paragraphHere : ∀ nodeId text content runs,
    change.paragraph (ParagraphIR.mk nodeId text content).editable = some runs →
    P (.mk nodeId text content) (.recompute nodeId (putRuns content runs))
  contentLater : ∀ node rest rest', Q rest rest' → Q (node :: rest) (node :: rest')
  contentHere : ∀ cells cells' rest, Cs cells cells' →
    Q (.table cells :: rest) (.table cells' :: rest)
  cellInside : ∀ nodeId text paragraphs paragraphs', Ps paragraphs paragraphs' →
    C (.mk nodeId text paragraphs) (.recompute nodeId paragraphs')
  cellHere : ∀ nodeId text paragraphs lines,
    change.cell (TableCellIR.mk nodeId text paragraphs).editable = some lines →
    C (.mk nodeId text paragraphs) (.recompute nodeId (putLines paragraphs lines))
  cellsLater : ∀ cell rest rest', Cs rest rest' → Cs (cell :: rest) (cell :: rest')
  cellsHere : ∀ cell cell' rest, C cell cell' → Cs (cell :: rest) (cell' :: rest)
  paragraphsLater : ∀ paragraph rest rest', Ps rest rest' →
    Ps (paragraph :: rest) (paragraph :: rest')
  paragraphsHere : ∀ paragraph paragraph' rest, P paragraph paragraph' →
    Ps (paragraph :: rest) (paragraph' :: rest)

section Rule

variable {P : ParagraphIR → ParagraphIR → Prop} {Q : List ContentNode → List ContentNode → Prop}
  {C : TableCellIR → TableCellIR → Prop} {Cs : List TableCellIR → List TableCellIR → Prop}
  {Ps : List ParagraphIR → List ParagraphIR → Prop}

mutual

private theorem Rule.onParagraph (h : Rule change P Q C Cs Ps) :
    ∀ (p : ParagraphIR), ∀ p' ∈ change.onParagraph p, P p p'
  | .mk nodeId text content, p', hp' => by
    rw [Change.onParagraph] at hp'
    obtain ⟨content', hcontent, rfl⟩ := Option.map_eq_some_iff.mp hp'
    rcases Option.or_eq_some_iff.mp hcontent with hinside | ⟨-, hhere⟩
    · exact h.paragraphInside _ _ _ _ (Rule.onContent h content content' hinside)
    · obtain ⟨runs, hruns, rfl⟩ := Option.map_eq_some_iff.mp hhere
      exact h.paragraphHere _ _ _ _ hruns

private theorem Rule.onContent (h : Rule change P Q C Cs Ps) :
    ∀ (content : List ContentNode), ∀ content' ∈ change.onContent content, Q content content'
  | [], content', h' => by
    rw [Change.onContent] at h'
    cases h'
  | .run run :: rest, content', h' => by
    rw [Change.onContent] at h'
    obtain ⟨rest', hrest, rfl⟩ := Option.map_eq_some_iff.mp h'
    exact h.contentLater _ _ _ (Rule.onContent h rest rest' hrest)
  | .image :: rest, content', h' => by
    rw [Change.onContent] at h'
    obtain ⟨rest', hrest, rfl⟩ := Option.map_eq_some_iff.mp h'
    exact h.contentLater _ _ _ (Rule.onContent h rest rest' hrest)
  | .table cells :: rest, content', h' => by
    rw [Change.onContent] at h'
    rcases Option.or_eq_some_iff.mp h' with hlater | ⟨-, hhere⟩
    · obtain ⟨rest', hrest, rfl⟩ := Option.map_eq_some_iff.mp hlater
      exact h.contentLater _ _ _ (Rule.onContent h rest rest' hrest)
    · obtain ⟨cells', hcells, rfl⟩ := Option.map_eq_some_iff.mp hhere
      exact h.contentHere _ _ _ (Rule.onCells h cells cells' hcells)

private theorem Rule.onCell (h : Rule change P Q C Cs Ps) :
    ∀ (c : TableCellIR), ∀ c' ∈ change.onCell c, C c c'
  | .mk nodeId text paragraphs, c', hc' => by
    rw [Change.onCell] at hc'
    obtain ⟨paragraphs', hparagraphs, rfl⟩ := Option.map_eq_some_iff.mp hc'
    rcases Option.or_eq_some_iff.mp hparagraphs with hinside | ⟨-, hhere⟩
    · exact h.cellInside _ _ _ _ (Rule.onParagraphs h paragraphs paragraphs' hinside)
    · obtain ⟨lines, hlines, rfl⟩ := Option.map_eq_some_iff.mp hhere
      exact h.cellHere _ _ _ _ hlines

private theorem Rule.onCells (h : Rule change P Q C Cs Ps) :
    ∀ (cells : List TableCellIR), ∀ cells' ∈ change.onCells cells, Cs cells cells'
  | [], cells', h' => by
    rw [Change.onCells] at h'
    cases h'
  | cell :: rest, cells', h' => by
    rw [Change.onCells] at h'
    rcases Option.or_eq_some_iff.mp h' with hlater | ⟨-, hhere⟩
    · obtain ⟨rest', hrest, rfl⟩ := Option.map_eq_some_iff.mp hlater
      exact h.cellsLater _ _ _ (Rule.onCells h rest rest' hrest)
    · obtain ⟨cell', hcell, rfl⟩ := Option.map_eq_some_iff.mp hhere
      exact h.cellsHere _ _ _ (Rule.onCell h cell cell' hcell)

/-- A document that a change applies to is as the rule says. -/
theorem Rule.onParagraphs (h : Rule change P Q C Cs Ps) :
    ∀ (paragraphs : List ParagraphIR), ∀ paragraphs' ∈ change.onParagraphs paragraphs,
      Ps paragraphs paragraphs'
  | [], paragraphs', h' => by
    rw [Change.onParagraphs] at h'
    cases h'
  | paragraph :: rest, paragraphs', h' => by
    rw [Change.onParagraphs] at h'
    rcases Option.or_eq_some_iff.mp h' with hlater | ⟨-, hhere⟩
    · obtain ⟨rest', hrest, rfl⟩ := Option.map_eq_some_iff.mp hlater
      exact h.paragraphsLater _ _ _ (Rule.onParagraphs h rest rest' hrest)
    · obtain ⟨paragraph', hparagraph, rfl⟩ := Option.map_eq_some_iff.mp hhere
      exact h.paragraphsHere _ _ _ (Rule.onParagraph h paragraph paragraph' hparagraph)

end

end Rule

/-- No paragraph and no cell of these is changed. -/
def Spares (change : Change) (paragraphs : List EditableParagraph) (cells : List EditableCell) :
    Prop :=
  (∀ p ∈ paragraphs, change.paragraph p = none) ∧ ∀ c ∈ cells, change.cell c = none

private theorem Spares.nil : change.Spares [] [] :=
  ⟨fun _ h ↦ absurd h List.not_mem_nil, fun _ h ↦ absurd h List.not_mem_nil⟩

private theorem Spares.append {ps qs : List EditableParagraph} {cs ds : List EditableCell}
    (h : change.Spares ps cs) (h' : change.Spares qs ds) :
    change.Spares (ps ++ qs) (cs ++ ds) :=
  ⟨List.forall_mem_append.mpr ⟨h.1, h'.1⟩, List.forall_mem_append.mpr ⟨h.2, h'.2⟩⟩

mutual

private theorem spares_paragraph : ∀ (p : ParagraphIR), change.onParagraph p = none →
    change.Spares (paragraphRefs [p]) (cellRefs [p])
  | .mk nodeId text content, h => by
    rw [onParagraph, Option.map_eq_none_iff, Option.or_eq_none_iff, Option.map_eq_none_iff] at h
    have hinside := spares_content content h.1
    rw [paragraphRefs_one, cellRefs_one]
    exact ⟨List.forall_mem_cons.mpr ⟨h.2, hinside.1⟩, hinside.2⟩

private theorem spares_content : ∀ (content : List ContentNode), change.onContent content = none →
    change.Spares (contentRefs content) (contentCells content)
  | [], _ => by
    rw [contentRefs, contentCells]
    exact .nil
  | .run run :: rest, h => by
    rw [onContent, Option.map_eq_none_iff] at h
    rw [contentRefs, contentCells]
    exact spares_content rest h
  | .image :: rest, h => by
    rw [onContent, Option.map_eq_none_iff] at h
    rw [contentRefs, contentCells]
    exact spares_content rest h
  | .table cells :: rest, h => by
    rw [onContent, Option.or_eq_none_iff, Option.map_eq_none_iff, Option.map_eq_none_iff] at h
    rw [contentRefs, contentCells]
    exact (spares_cells cells h.2).append (spares_content rest h.1)

private theorem spares_cell : ∀ (c : TableCellIR), change.onCell c = none →
    change.Spares (nestedRefs [c]) (nestedCells [c])
  | .mk nodeId text paragraphs, h => by
    rw [onCell, Option.map_eq_none_iff, Option.or_eq_none_iff, Option.map_eq_none_iff] at h
    have hinside := spares_paragraphs paragraphs h.1
    rw [nestedRefs_one, nestedCells_one]
    exact ⟨hinside.1, List.forall_mem_cons.mpr ⟨h.2, hinside.2⟩⟩

private theorem spares_cells : ∀ (cells : List TableCellIR), change.onCells cells = none →
    change.Spares (nestedRefs cells) (nestedCells cells)
  | [], _ => by
    rw [nestedRefs, nestedCells]
    exact .nil
  | .mk nodeId text paragraphs :: rest, h => by
    rw [onCells, Option.or_eq_none_iff, Option.map_eq_none_iff, Option.map_eq_none_iff] at h
    have hcell := spares_cell (.mk nodeId text paragraphs) h.2
    have hrest := spares_cells rest h.1
    rw [nestedRefs_one, nestedCells_one] at hcell
    rw [nestedRefs, nestedCells]
    exact hcell.append hrest

/-- A document that a change does not apply to has nothing that it changes. -/
theorem spares_paragraphs : ∀ (paragraphs : List ParagraphIR),
    change.onParagraphs paragraphs = none →
      change.Spares (paragraphRefs paragraphs) (cellRefs paragraphs)
  | [], _ => by
    rw [paragraphRefs, cellRefs]
    exact .nil
  | .mk nodeId text content :: rest, h => by
    rw [onParagraphs, Option.or_eq_none_iff, Option.map_eq_none_iff, Option.map_eq_none_iff] at h
    have hparagraph := spares_paragraph (.mk nodeId text content) h.2
    have hrest := spares_paragraphs rest h.1
    rw [paragraphRefs_one, cellRefs_one] at hparagraph
    rw [paragraphRefs, cellRefs]
    exact hparagraph.append hrest

end

end Change

/-! ### Stored texts -/

mutual

/-- Every paragraph and every cell stores the text that it would compute. -/
def ParagraphIR.Settled : ParagraphIR → Prop
  | .mk _ text content => text = paragraphText content ∧ ContentSettled content

/-- The same inside the nodes of a paragraph. -/
def ContentSettled : List ContentNode → Prop
  | [] => True
  | .run _ :: rest => ContentSettled rest
  | .image :: rest => ContentSettled rest
  | .table cells :: rest => CellsSettled cells ∧ ContentSettled rest

/-- The same for a cell. -/
def TableCellIR.Settled : TableCellIR → Prop
  | .mk _ text paragraphs => text = cellText paragraphs ∧ ParagraphsSettled paragraphs

/-- The same for cells. -/
def CellsSettled : List TableCellIR → Prop
  | [] => True
  | cell :: rest => cell.Settled ∧ CellsSettled rest

/-- The same for paragraphs. -/
def ParagraphsSettled : List ParagraphIR → Prop
  | [] => True
  | paragraph :: rest => paragraph.Settled ∧ ParagraphsSettled rest

end

private theorem putRuns_settled {content : List ContentNode} (h : ContentSettled content)
    (runs : List EditableRun) : ContentSettled (putRuns content runs) := by
  fun_induction putRuns content runs with
  | case1 run rest run' runs ih =>
    rw [ContentSettled] at h ⊢
    exact ih h
  | case2 node rest runs _ ih =>
    cases node with
    | run run =>
      rw [ContentSettled] at h ⊢
      exact ih h
    | image =>
      rw [ContentSettled] at h ⊢
      exact ih h
    | table cells =>
      rw [ContentSettled] at h ⊢
      exact ⟨h.1, ih h.2⟩
  | case3 => exact trivial

private theorem putLines_settled {paragraphs : List ParagraphIR} (h : ParagraphsSettled paragraphs)
    (lines : List (List EditableRun)) : ParagraphsSettled (putLines paragraphs lines) := by
  fun_induction putLines paragraphs lines with
  | case1 paragraph rest runs lines ih =>
    rw [ParagraphsSettled] at h ⊢
    refine ⟨?_, ih h.2⟩
    cases paragraph with
    | mk nodeId text content =>
      have hcontent := h.1
      rw [ParagraphIR.Settled] at hcontent
      unfold ParagraphIR.recompute
      rw [ParagraphIR.Settled]
      exact ⟨rfl, putRuns_settled hcontent.2 runs⟩
  | case2 paragraphs lines _ => exact h

namespace Change

/-- A change leaves stored texts settled. -/
theorem settledRule (change : Change) : change.Rule
    (fun p p' ↦ p.Settled → p'.Settled)
    (fun content content' ↦ ContentSettled content → ContentSettled content')
    (fun c c' ↦ c.Settled → c'.Settled)
    (fun cells cells' ↦ CellsSettled cells → CellsSettled cells')
    (fun paragraphs paragraphs' ↦ ParagraphsSettled paragraphs →
      ParagraphsSettled paragraphs') where
  paragraphInside nodeId text content content' hinside h := by
    rw [ParagraphIR.Settled] at h
    unfold ParagraphIR.recompute
    rw [ParagraphIR.Settled]
    exact ⟨rfl, hinside h.2⟩
  paragraphHere nodeId text content runs _ h := by
    rw [ParagraphIR.Settled] at h
    unfold ParagraphIR.recompute
    rw [ParagraphIR.Settled]
    exact ⟨rfl, putRuns_settled h.2 runs⟩
  contentLater node rest rest' hrest h := by
    cases node with
    | run run =>
      rw [ContentSettled] at h ⊢
      exact hrest h
    | image =>
      rw [ContentSettled] at h ⊢
      exact hrest h
    | table cells =>
      rw [ContentSettled] at h ⊢
      exact ⟨h.1, hrest h.2⟩
  contentHere cells cells' rest hcells h := by
    rw [ContentSettled] at h ⊢
    exact ⟨hcells h.1, h.2⟩
  cellInside nodeId text paragraphs paragraphs' hinside h := by
    rw [TableCellIR.Settled] at h
    unfold TableCellIR.recompute
    rw [TableCellIR.Settled]
    exact ⟨rfl, hinside h.2⟩
  cellHere nodeId text paragraphs lines _ h := by
    rw [TableCellIR.Settled] at h
    unfold TableCellIR.recompute
    rw [TableCellIR.Settled]
    exact ⟨rfl, putLines_settled h.2 lines⟩
  cellsLater cell rest rest' hrest h := by
    rw [CellsSettled] at h ⊢
    exact ⟨h.1, hrest h.2⟩
  cellsHere cell cell' rest hcell h := by
    rw [CellsSettled] at h ⊢
    exact ⟨hcell h.1, h.2⟩
  paragraphsLater paragraph rest rest' hrest h := by
    rw [ParagraphsSettled] at h ⊢
    exact ⟨h.1, hrest h.2⟩
  paragraphsHere paragraph paragraph' rest hparagraph h := by
    rw [ParagraphsSettled] at h ⊢
    exact ⟨hparagraph h.1, h.2⟩

/-- After a change every node stores the text that it would compute, if it did before. -/
theorem apply_settled (change : Change) {doc : List ParagraphIR} (h : ParagraphsSettled doc) :
    ParagraphsSettled (change.apply doc) := by
  unfold apply
  cases hdoc : change.onParagraphs doc with
  | none => exact h
  | some doc' => exact change.settledRule.onParagraphs doc doc' hdoc h

end Change

/-! ### References -/

section Put

variable {content : List ContentNode} {runs : List EditableRun}

private theorem contentRefs_putRuns : contentRefs (putRuns content runs) = contentRefs content := by
  fun_induction putRuns content runs with
  | case1 run rest run' runs ih => rw [contentRefs, contentRefs, ih]
  | case2 node rest runs _ ih =>
    cases node with
    | run run => rw [contentRefs, contentRefs, ih]
    | image => rw [contentRefs, contentRefs, ih]
    | table cells => rw [contentRefs, contentRefs, ih]
  | case3 => rfl

private theorem contentCells_putRuns :
    contentCells (putRuns content runs) = contentCells content := by
  fun_induction putRuns content runs with
  | case1 run rest run' runs ih => rw [contentCells, contentCells, ih]
  | case2 node rest runs _ ih =>
    cases node with
    | run run => rw [contentCells, contentCells, ih]
    | image => rw [contentCells, contentCells, ih]
    | table cells => rw [contentCells, contentCells, ih]
  | case3 => rfl

private theorem contentRuns_putRuns (h : runs.length = (contentRuns content).length) :
    contentRuns (putRuns content runs) = runs := by
  fun_induction putRuns content runs with
  | case1 run rest run' runs ih => exact congrArg (run' :: ·) (ih (Nat.succ.inj h))
  | case2 node rest runs hnot ih =>
    cases node with
    | run run =>
      cases runs with
      | nil => cases h
      | cons r rs => exact absurd rfl (hnot run r rs rfl)
    | image => exact ih h
    | table cells => exact ih h
  | case3 runs => exact (List.eq_nil_of_length_eq_zero h).symm

private theorem any_putRuns :
    (putRuns content runs).any (·.isNonRun) = content.any (·.isNonRun) := by
  fun_induction putRuns content runs with
  | case1 run rest run' runs ih => rw [List.any_cons, List.any_cons, ih]; rfl
  | case2 node rest runs _ ih => rw [List.any_cons, List.any_cons, ih]
  | case3 => rfl

/-- A paragraph with new runs in their places. -/
theorem editable_putRuns {nodeId : String} {text : List Char}
    (h : runs.length = (contentRuns content).length) :
    (ParagraphIR.recompute nodeId (putRuns content runs)).editable =
      { (ParagraphIR.mk nodeId text content).editable with runs := runs } := by
  unfold ParagraphIR.editable ParagraphIR.recompute ParagraphIR.content ParagraphIR.nodeId
  dsimp only
  rw [contentRuns_putRuns h, any_putRuns]

end Put

namespace Change

/-- The same runs, and tables or images where there were some. -/
def SameShell (content content' : List ContentNode) : Prop :=
  contentRuns content' = contentRuns content ∧
    content'.any (·.isNonRun) = content.any (·.isNonRun)

private theorem SameShell.cons {content content' : List ContentNode}
    (h : SameShell content content') (node : ContentNode) :
    SameShell (node :: content) (node :: content') := by
  unfold SameShell contentRuns at h ⊢
  rw [List.filterMap_cons, List.filterMap_cons, h.1, List.any_cons, List.any_cons, h.2]
  exact ⟨rfl, rfl⟩

private theorem SameShell.editable {content content' : List ContentNode}
    (h : SameShell content content') (nodeId : String) (text : List Char) :
    (ParagraphIR.recompute nodeId content').editable =
      (ParagraphIR.mk nodeId text content).editable := by
  unfold ParagraphIR.editable ParagraphIR.recompute ParagraphIR.content ParagraphIR.nodeId
  dsimp only
  rw [h.1, h.2]

/-- One member is replaced. -/
def OnePlace {α : Type} (f : α → Option α) (xs ys : List α) : Prop :=
  ∃ pre x y post, f x = some y ∧ xs = pre ++ x :: post ∧ ys = pre ++ y :: post

section OnePlace

variable {α : Type} {f : α → Option α} {xs ys : List α}

private theorem OnePlace.before (h : OnePlace f xs ys) (zs : List α) :
    OnePlace f (zs ++ xs) (zs ++ ys) := by
  obtain ⟨pre, x, y, post, hf, rfl, rfl⟩ := h
  exact ⟨zs ++ pre, x, y, post, hf, by rw [List.append_assoc], by rw [List.append_assoc]⟩

private theorem OnePlace.after (h : OnePlace f xs ys) (zs : List α) :
    OnePlace f (xs ++ zs) (ys ++ zs) := by
  obtain ⟨pre, x, y, post, hf, rfl, rfl⟩ := h
  exact ⟨pre, x, y, post ++ zs, hf, by rw [List.append_assoc, List.cons_append],
    by rw [List.append_assoc, List.cons_append]⟩

end OnePlace

/-- The paragraph with the runs that the change gives it. -/
def newParagraph (change : Change) (p : EditableParagraph) : Option EditableParagraph :=
  (change.paragraph p).map fun runs ↦ { p with runs }

/-- Changed paragraphs keep the number of their runs. -/
def KeepsRuns (change : Change) (paragraphs : List EditableParagraph) : Prop :=
  ∀ p ∈ paragraphs, ∀ runs ∈ change.paragraph p, runs.length = p.runs.length

private theorem KeepsRuns.left {ps qs : List EditableParagraph} (h : change.KeepsRuns (ps ++ qs)) :
    change.KeepsRuns ps := fun p hp ↦ h p (List.mem_append_left _ hp)

private theorem KeepsRuns.right {ps qs : List EditableParagraph} (h : change.KeepsRuns (ps ++ qs)) :
    change.KeepsRuns qs := fun p hp ↦ h p (List.mem_append_right _ hp)

private theorem KeepsRuns.tail {p : EditableParagraph} {ps : List EditableParagraph}
    (h : change.KeepsRuns (p :: ps)) : change.KeepsRuns ps :=
  fun q hq ↦ h q (List.mem_cons_of_mem _ hq)

/-- A change of paragraphs replaces one of them and leaves the cells in place. -/
theorem paragraphRule (hcell : ∀ c, change.cell c = none) : change.Rule
    (fun p p' ↦ (cellRefs [p']).map (·.nodeId) = (cellRefs [p]).map (·.nodeId) ∧
      (change.KeepsRuns (paragraphRefs [p]) →
        OnePlace change.newParagraph (paragraphRefs [p]) (paragraphRefs [p'])))
    (fun content content' ↦ SameShell content content' ∧
      (contentCells content').map (·.nodeId) = (contentCells content).map (·.nodeId) ∧
      (change.KeepsRuns (contentRefs content) →
        OnePlace change.newParagraph (contentRefs content) (contentRefs content')))
    (fun c c' ↦ (nestedCells [c']).map (·.nodeId) = (nestedCells [c]).map (·.nodeId) ∧
      (change.KeepsRuns (nestedRefs [c]) →
        OnePlace change.newParagraph (nestedRefs [c]) (nestedRefs [c'])))
    (fun cells cells' ↦ (nestedCells cells').map (·.nodeId) = (nestedCells cells).map (·.nodeId) ∧
      (change.KeepsRuns (nestedRefs cells) →
        OnePlace change.newParagraph (nestedRefs cells) (nestedRefs cells')))
    (fun paragraphs paragraphs' ↦
      (cellRefs paragraphs').map (·.nodeId) = (cellRefs paragraphs).map (·.nodeId) ∧
      (change.KeepsRuns (paragraphRefs paragraphs) →
        OnePlace change.newParagraph (paragraphRefs paragraphs) (paragraphRefs paragraphs'))) where
  paragraphInside nodeId text content content' hinside := by
    obtain ⟨hshell, hcells, hrefs⟩ := hinside
    rw [ParagraphIR.recompute, cellRefs_one, cellRefs_one, paragraphRefs_one, paragraphRefs_one]
    refine ⟨hcells, fun hkeeps ↦ ?_⟩
    have heditable := hshell.editable nodeId text
    rw [ParagraphIR.recompute] at heditable
    rw [heditable]
    exact (hrefs hkeeps.tail).before [_]
  paragraphHere nodeId text content runs hruns := by
    rw [ParagraphIR.recompute, cellRefs_one, cellRefs_one, paragraphRefs_one, paragraphRefs_one,
      contentCells_putRuns, contentRefs_putRuns]
    refine ⟨rfl, fun hkeeps ↦ ?_⟩
    have hlength := hkeeps _ List.mem_cons_self runs hruns
    have heditable := @editable_putRuns content runs nodeId text hlength
    exact ⟨[], _, _, contentRefs content, (congrArg (Option.map _) hruns).trans
      (congrArg some heditable.symm), rfl, rfl⟩
  contentLater node rest rest' hrest := by
    obtain ⟨hshell, hcells, hrefs⟩ := hrest
    refine ⟨hshell.cons node, ?_⟩
    cases node with
    | run run =>
      rw [contentCells, contentCells, contentRefs, contentRefs]
      exact ⟨hcells, hrefs⟩
    | image =>
      rw [contentCells, contentCells, contentRefs, contentRefs]
      exact ⟨hcells, hrefs⟩
    | table cells =>
      rw [contentCells, contentCells, contentRefs, contentRefs, List.map_append, List.map_append,
        hcells]
      exact ⟨rfl, fun hkeeps ↦ (hrefs hkeeps.right).before _⟩
  contentHere cells cells' rest hcells := by
    rw [contentCells, contentCells, contentRefs, contentRefs, List.map_append, List.map_append,
      hcells.1]
    exact ⟨⟨rfl, rfl⟩, rfl, fun hkeeps ↦ (hcells.2 hkeeps.left).after _⟩
  cellInside nodeId text paragraphs paragraphs' hinside := by
    rw [TableCellIR.recompute, nestedCells_one, nestedCells_one, nestedRefs_one, nestedRefs_one,
      List.map_cons, List.map_cons, hinside.1]
    exact ⟨rfl, hinside.2⟩
  cellHere nodeId text paragraphs lines hlines := by
    rw [hcell] at hlines
    cases hlines
  cellsLater cell rest rest' hrest := by
    cases cell with
    | mk nodeId text paragraphs =>
      rw [nestedCells, nestedCells, nestedRefs, nestedRefs, List.map_cons, List.map_cons,
        List.map_append, List.map_append, hrest.1]
      exact ⟨rfl, fun hkeeps ↦ (hrest.2 hkeeps.right).before _⟩
  cellsHere cell cell' rest hcell := by
    cases cell with
    | mk nodeId text paragraphs =>
      cases cell' with
      | mk nodeId' text' paragraphs' =>
        obtain ⟨hcells, hrefs⟩ := hcell
        rw [nestedCells_one, nestedCells_one] at hcells
        rw [nestedRefs_one, nestedRefs_one] at hrefs
        rw [nestedCells, nestedCells, nestedRefs, nestedRefs, ← List.cons_append,
          ← List.cons_append, List.map_append, List.map_append, hcells]
        exact ⟨rfl, fun hkeeps ↦ (hrefs hkeeps.left).after _⟩
  paragraphsLater paragraph rest rest' hrest := by
    cases paragraph with
    | mk nodeId text content =>
      rw [cellRefs, cellRefs, paragraphRefs, paragraphRefs, List.map_append, List.map_append,
        hrest.1]
      exact ⟨rfl, fun hkeeps ↦ ((hrest.2 hkeeps.tail.right).before _).before [_]⟩
  paragraphsHere paragraph paragraph' rest hparagraph := by
    cases paragraph with
    | mk nodeId text content =>
      cases paragraph' with
      | mk nodeId' text' content' =>
        obtain ⟨hcells, hrefs⟩ := hparagraph
        rw [cellRefs_one, cellRefs_one] at hcells
        rw [paragraphRefs_one, paragraphRefs_one] at hrefs
        rw [cellRefs, cellRefs, paragraphRefs, paragraphRefs, ← List.cons_append,
          ← List.cons_append, List.map_append, List.map_append, hcells]
        exact ⟨rfl, fun hkeeps ↦ (hrefs hkeeps.left).after _⟩

/-- Runs for each of the paragraphs. -/
def withRuns (paragraphs : List EditableParagraph) (lines : List (List EditableRun)) :
    List EditableParagraph :=
  List.zipWith (fun p runs ↦ { p with runs }) paragraphs lines

/-- The cell with the runs that the change gives its paragraphs. -/
def newCell (change : Change) (c : EditableCell) : Option EditableCell :=
  (change.cell c).map fun lines ↦ ⟨c.nodeId, withRuns c.paragraphs lines⟩

/-- Changed cells have as many runs in each paragraph as before, and their paragraphs are as a
relation says. -/
def KeepsLines (change : Change) (R : EditableParagraph → EditableParagraph → Prop)
    (cells : List EditableCell) : Prop :=
  ∀ c ∈ cells, ∀ lines ∈ change.cell c,
    List.Forall₂ (fun p runs ↦ runs.length = p.runs.length ∧ R p { p with runs }) c.paragraphs lines

variable {R : EditableParagraph → EditableParagraph → Prop}

private theorem KeepsLines.left {cs ds : List EditableCell} (h : change.KeepsLines R (cs ++ ds)) :
    change.KeepsLines R cs := fun c hc ↦ h c (List.mem_append_left _ hc)

private theorem KeepsLines.right {cs ds : List EditableCell} (h : change.KeepsLines R (cs ++ ds)) :
    change.KeepsLines R ds := fun c hc ↦ h c (List.mem_append_right _ hc)

private theorem KeepsLines.tail {c : EditableCell} {cs : List EditableCell}
    (h : change.KeepsLines R (c :: cs)) : change.KeepsLines R cs :=
  fun d hd ↦ h d (List.mem_cons_of_mem _ hd)

/-- A cell whose paragraphs have new runs. -/
theorem putLines_refs (hrefl : ∀ p, R p p) :
    ∀ (paragraphs : List ParagraphIR) (lines : List (List EditableRun)),
      List.Forall₂ (fun p runs ↦ runs.length = p.runs.length ∧ R p { p with runs })
        (paragraphs.map (·.editable)) lines →
      (putLines paragraphs lines).map (·.editable) = withRuns (paragraphs.map (·.editable)) lines ∧
        cellRefs (putLines paragraphs lines) = cellRefs paragraphs ∧
        List.Forall₂ R (paragraphRefs paragraphs) (paragraphRefs (putLines paragraphs lines))
  | [], [], _ => by
    rw [putLines]
    · exact ⟨rfl, rfl, by rw [paragraphRefs]; exact .nil⟩
    · exact fun _ _ _ _ h ↦ by cases h
  | .mk nodeId text content :: rest, runs :: lines, h => by
    obtain ⟨hhere, hrest⟩ := List.forall₂_cons.mp h
    obtain ⟨hmap, hcells, hrefs⟩ := putLines_refs hrefl rest lines hrest
    have heditable := @editable_putRuns content runs nodeId text hhere.1
    rw [putLines]
    refine ⟨?_, ?_, ?_⟩
    · rw [List.map_cons, hmap]
      exact congrArg (· :: _) heditable
    · rw [ParagraphIR.recompute, cellRefs, cellRefs, hcells]
      exact congrArg (· ++ _) contentCells_putRuns
    · rw [ParagraphIR.recompute, paragraphRefs, paragraphRefs]
      refine .cons ?_ ?_
      · exact heditable ▸ hhere.2
      · rw [show contentRefs (putRuns (ParagraphIR.mk nodeId text content).content runs) =
          contentRefs content from contentRefs_putRuns]
        exact List.rel_append (List.forall₂_same.mpr fun p _ ↦ hrefl p) hrefs

/-- A change of cells replaces one of them, and leaves the paragraphs as the relation says. -/
theorem cellRule (hparagraph : ∀ p, change.paragraph p = none) (hrefl : ∀ p, R p p) :
    change.Rule
    (fun p p' ↦ p'.editable = p.editable ∧ (change.KeepsLines R (cellRefs [p]) →
      OnePlace change.newCell (cellRefs [p]) (cellRefs [p']) ∧
        List.Forall₂ R (paragraphRefs [p]) (paragraphRefs [p'])))
    (fun content content' ↦ SameShell content content' ∧
      (change.KeepsLines R (contentCells content) →
        OnePlace change.newCell (contentCells content) (contentCells content') ∧
          List.Forall₂ R (contentRefs content) (contentRefs content')))
    (fun c c' ↦ change.KeepsLines R (nestedCells [c]) →
      OnePlace change.newCell (nestedCells [c]) (nestedCells [c']) ∧
        List.Forall₂ R (nestedRefs [c]) (nestedRefs [c']))
    (fun cells cells' ↦ change.KeepsLines R (nestedCells cells) →
      OnePlace change.newCell (nestedCells cells) (nestedCells cells') ∧
        List.Forall₂ R (nestedRefs cells) (nestedRefs cells'))
    (fun paragraphs paragraphs' ↦
      paragraphs'.map (·.editable) = paragraphs.map (·.editable) ∧
      (change.KeepsLines R (cellRefs paragraphs) →
        OnePlace change.newCell (cellRefs paragraphs) (cellRefs paragraphs') ∧
          List.Forall₂ R (paragraphRefs paragraphs) (paragraphRefs paragraphs'))) where
  paragraphInside nodeId text content content' hinside := by
    obtain ⟨hshell, hrefs⟩ := hinside
    have heditable := hshell.editable nodeId text
    refine ⟨heditable, ?_⟩
    rw [ParagraphIR.recompute] at heditable ⊢
    rw [cellRefs_one, cellRefs_one, paragraphRefs_one, paragraphRefs_one, heditable]
    intro hkeeps
    obtain ⟨hplace, hall⟩ := hrefs hkeeps
    exact ⟨hplace, .cons (hrefl _) hall⟩
  paragraphHere nodeId text content runs hruns := by
    rw [hparagraph] at hruns
    cases hruns
  contentLater node rest rest' hrest := by
    obtain ⟨hshell, hrefs⟩ := hrest
    refine ⟨hshell.cons node, ?_⟩
    cases node with
    | run run =>
      rw [contentCells, contentCells, contentRefs, contentRefs]
      exact hrefs
    | image =>
      rw [contentCells, contentCells, contentRefs, contentRefs]
      exact hrefs
    | table cells =>
      rw [contentCells, contentCells, contentRefs, contentRefs]
      intro hkeeps
      obtain ⟨hplace, hall⟩ := hrefs hkeeps.right
      exact ⟨hplace.before _, List.rel_append (List.forall₂_same.mpr fun p _ ↦ hrefl p) hall⟩
  contentHere cells cells' rest hcells := by
    rw [contentCells, contentCells, contentRefs, contentRefs]
    refine ⟨⟨rfl, rfl⟩, fun hkeeps ↦ ?_⟩
    obtain ⟨hplace, hall⟩ := hcells hkeeps.left
    exact ⟨hplace.after _, List.rel_append hall (List.forall₂_same.mpr fun p _ ↦ hrefl p)⟩
  cellInside nodeId text paragraphs paragraphs' hinside := by
    rw [TableCellIR.recompute, nestedCells_one, nestedCells_one, nestedRefs_one, nestedRefs_one]
    intro hkeeps
    obtain ⟨hplace, hall⟩ := hinside.2 hkeeps.tail
    refine ⟨?_, hall⟩
    rw [show (TableCellIR.mk nodeId (cellText paragraphs') paragraphs').editable =
      (TableCellIR.mk nodeId text paragraphs).editable from congrArg (EditableCell.mk _) hinside.1]
    exact hplace.before [_]
  cellHere nodeId text paragraphs lines hlines := by
    rw [TableCellIR.recompute, nestedCells_one, nestedCells_one, nestedRefs_one, nestedRefs_one]
    intro hkeeps
    obtain ⟨hmap, hcells, hall⟩ := putLines_refs hrefl paragraphs lines
      (hkeeps _ List.mem_cons_self lines hlines)
    rw [hcells]
    refine ⟨⟨[], _, _, cellRefs paragraphs, ?_, rfl, rfl⟩, hall⟩
    refine (congrArg (Option.map _) hlines).trans (congrArg some ?_)
    exact congrArg (EditableCell.mk nodeId) hmap.symm
  cellsLater cell rest rest' hrest := by
    cases cell with
    | mk nodeId text paragraphs =>
      rw [nestedCells, nestedCells, nestedRefs, nestedRefs]
      intro hkeeps
      obtain ⟨hplace, hall⟩ := hrest hkeeps.tail.right
      exact ⟨(hplace.before _).before [_],
        List.rel_append (List.forall₂_same.mpr fun p _ ↦ hrefl p) hall⟩
  cellsHere cell cell' rest hcell := by
    cases cell with
    | mk nodeId text paragraphs =>
      cases cell' with
      | mk nodeId' text' paragraphs' =>
        rw [nestedCells_one, nestedCells_one, nestedRefs_one, nestedRefs_one] at hcell
        rw [nestedCells, nestedCells, nestedRefs, nestedRefs, ← List.cons_append,
          ← List.cons_append]
        intro hkeeps
        obtain ⟨hplace, hall⟩ := hcell hkeeps.left
        exact ⟨hplace.after _, List.rel_append hall (List.forall₂_same.mpr fun p _ ↦ hrefl p)⟩
  paragraphsLater paragraph rest rest' hrest := by
    cases paragraph with
    | mk nodeId text content =>
      obtain ⟨hmap, hrefs⟩ := hrest
      rw [cellRefs, cellRefs, paragraphRefs, paragraphRefs, List.map_cons, List.map_cons, hmap]
      refine ⟨rfl, fun hkeeps ↦ ?_⟩
      obtain ⟨hplace, hall⟩ := hrefs hkeeps.right
      exact ⟨hplace.before _, .cons (hrefl _)
        (List.rel_append (List.forall₂_same.mpr fun p _ ↦ hrefl p) hall)⟩
  paragraphsHere paragraph paragraph' rest hparagraph := by
    cases paragraph with
    | mk nodeId text content =>
      cases paragraph' with
      | mk nodeId' text' content' =>
        obtain ⟨heditable, hrefs⟩ := hparagraph
        rw [cellRefs_one, cellRefs_one, paragraphRefs_one, paragraphRefs_one] at hrefs
        rw [cellRefs, cellRefs, paragraphRefs, paragraphRefs, List.map_cons, List.map_cons,
          heditable, ← List.cons_append, ← List.cons_append]
        refine ⟨rfl, fun hkeeps ↦ ?_⟩
        obtain ⟨hplace, hall⟩ := hrefs hkeeps.left
        rw [heditable] at hall
        exact ⟨hplace.after _, List.rel_append hall (List.forall₂_same.mpr fun p _ ↦ hrefl p)⟩

end Change

end Jobtology.Editing
