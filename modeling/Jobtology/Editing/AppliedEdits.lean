import Jobtology.Editing.DocumentEditLaws

/-!
# Applied edits

An edit that is accepted makes the new text of its target and leaves everything outside it as it is;
a list of edits does so one after the other.
-/

namespace Jobtology.Editing

open Jobtology.Base Jobtology.Base.SequenceMatcher

/-! ### Changes that apply -/

section Change

variable {change : Change} {doc : List ParagraphIR}

/-- A change of paragraphs replaces one of them. -/
theorem apply_paragraph (hcell : ∀ c, change.cell c = none)
    (hkeeps : change.KeepsRuns (paragraphRefs doc)) {p : EditableParagraph}
    (hp : p ∈ paragraphRefs doc) (hsome : change.paragraph p ≠ none) :
    Change.OnePlace change.newParagraph (paragraphRefs doc) (paragraphRefs (change.apply doc)) ∧
      (cellRefs (change.apply doc)).map (·.nodeId) = (cellRefs doc).map (·.nodeId) := by
  unfold Change.apply
  cases hdoc : change.onParagraphs doc with
  | none => exact absurd ((Change.spares_paragraphs doc hdoc).1 p hp) hsome
  | some doc' =>
    obtain ⟨hcells, hplace⟩ := (Change.paragraphRule hcell).onParagraphs doc doc' hdoc
    exact ⟨hplace hkeeps, hcells⟩

/-- A change of cells replaces one of them. -/
theorem apply_cell {R : EditableParagraph → EditableParagraph → Prop}
    (hparagraph : ∀ p, change.paragraph p = none) (hrefl : ∀ p, R p p)
    (hkeeps : change.KeepsLines R (cellRefs doc)) {c : EditableCell} (hc : c ∈ cellRefs doc)
    (hsome : change.cell c ≠ none) :
    Change.OnePlace change.newCell (cellRefs doc) (cellRefs (change.apply doc)) ∧
      List.Forall₂ R (paragraphRefs doc) (paragraphRefs (change.apply doc)) := by
  unfold Change.apply
  cases hdoc : change.onParagraphs doc with
  | none => exact absurd ((Change.spares_paragraphs doc hdoc).2 c hc) hsome
  | some doc' => exact ((Change.cellRule hparagraph hrefl).onParagraphs doc doc' hdoc).2 hkeeps

end Change

/-! ### One edit -/

/-- The nodes of a document have identities of their own. -/
structure DistinctIds (doc : List ParagraphIR) : Prop where
  paragraphs : ((paragraphRefs doc).map (·.nodeId)).Nodup
  cells : ((cellRefs doc).map (·.nodeId)).Nodup
  runs : ((runRefs doc).map (·.nodeId)).Nodup

/-- The text of the target of an edit. -/
def targetText (doc : List ParagraphIR) (edit : TextEdit) : Option (List Char) :=
  match edit.targetKind with
  | some .run => (lookupLast (·.nodeId) (runRefs doc) edit.targetId).map (·.text)
  | some .paragraph => (lookupLast (·.nodeId) (paragraphRefs doc) edit.targetId).map (·.text)
  | some .cell => (lookupLast (·.nodeId) (cellRefs doc) edit.targetId).map (·.text)
  | none => none

/-- The target of an edit has nothing of a paragraph. -/
def Outside (doc : List ParagraphIR) (edit : TextEdit) (p : EditableParagraph) : Prop :=
  match edit.targetKind with
  | some .run => ∀ run ∈ p.runs, run.nodeId ≠ edit.targetId
  | some .paragraph => p.nodeId ≠ edit.targetId
  | some .cell => ∀ c ∈ cellRefs doc, c.nodeId = edit.targetId → p ∉ c.paragraphs
  | none => True

/-- A paragraph that may have new texts in its runs; those that have are reported. -/
structure EditedParagraph (reported : List String) (p q : EditableParagraph) : Prop where
  nodeId : q.nodeId = p.nodeId
  content : q.hasNonRunContent = p.hasNonRunContent
  ids : q.runs.map (·.nodeId) = p.runs.map (·.nodeId)
  reported : ∀ (k : Nat) (run : EditableRun), p.runs[k]? = some run →
    q.runs[k]? = some run ∨ run.nodeId ∈ reported

/-- A paragraph that is left is edited in no run. -/
theorem EditedParagraph.refl (reported : List String) (p : EditableParagraph) :
    EditedParagraph reported p p := ⟨rfl, rfl, rfl, fun _ _ h ↦ .inl h⟩

/-- What an edit does to a document. -/
structure Edited (textHash : List Char → String) (edit : TextEdit) (doc doc' : List ParagraphIR)
    (result result' : EditResult) : Prop where
  guard : ∃ current, targetText doc edit = some current ∧ textHash current = edit.expectedTextHash
  target : targetText doc' edit = some edit.newText ∨
    edit.targetKind = some .paragraph ∧ ∃ p ∈ paragraphRefs doc,
      p.nodeId = edit.targetId ∧ p.runs = [] ∧ edit.newText ≠ []
  settled : ParagraphsSettled doc → ParagraphsSettled doc'
  paragraphs : List.Forall₂ (fun p q ↦ EditedParagraph result'.modifiedRunIds p q ∧
    (Outside doc edit p → q = p)) (paragraphRefs doc) (paragraphRefs doc')
  cells : (cellRefs doc').map (·.nodeId) = (cellRefs doc).map (·.nodeId)
  reported : result.modifiedRunIds ⊆ result'.modifiedRunIds
  applied : result'.editsApplied = result.editsApplied + 1

section Edited

variable {textHash : List Char → String} {edit : TextEdit} {doc doc' : List ParagraphIR}
  {result result' : EditResult}

private theorem orMissing_ok {α : Type} {kind : TextTargetKind} {target : String} {o : Option α}
    {x : α} : orMissing kind target o = .ok x ↔ o = some x := by
  cases o with
  | none => simp [orMissing]
  | some y => simp [orMissing]

private theorem check_ok {holds : Bool} {error : EditValidationError} {u : Unit} :
    check holds error = .ok u ↔ holds = true := by
  cases holds with
  | true => simp [check]
  | false => simp [check]

private theorem exists_of_setRunText {target : String} {newText : List Char}
    {runs runs' : List EditableRun} (h : setRunText target newText runs = some runs') :
    ∃ pre run post, run.nodeId = target ∧ runs = pre ++ run :: post ∧
      runs' = pre ++ ⟨run.nodeId, newText⟩ :: post := by
  induction runs generalizing runs' with
  | nil => cases h
  | cons run rest ih =>
    rw [setRunText] at h
    rcases Option.or_eq_some_iff.mp h with hlater | ⟨-, hhere⟩
    · obtain ⟨rest', hrest, rfl⟩ := Option.map_eq_some_iff.mp hlater
      obtain ⟨pre, r, post, hid, rfl, rfl⟩ := ih hrest
      exact ⟨run :: pre, r, post, hid, rfl, rfl⟩
    · split at hhere
      · next hid =>
        obtain rfl := Option.some.inj hhere
        exact ⟨[], run, rest, hid, rfl, rfl⟩
      · cases hhere

private theorem setRunText_ne_none {target : String} {newText : List Char}
    {runs : List EditableRun} {run : EditableRun} (h : run ∈ runs) (hid : run.nodeId = target) :
    setRunText target newText runs ≠ none := by
  induction runs with
  | nil => cases h
  | cons r rest ih =>
    rw [setRunText, ne_eq, Option.or_eq_none_iff, Option.map_eq_none_iff]
    rintro ⟨hrest, hhere⟩
    rcases List.mem_cons.mp h with rfl | h
    · rw [if_pos hid] at hhere
      cases hhere
    · exact ih h hrest

/-- A member with a new value is edited when its runs are. -/
theorem forall₂_onePlace {R : EditableParagraph → EditableParagraph → Prop}
    {f : EditableParagraph → Option EditableParagraph} {xs ys : List EditableParagraph}
    (h : Change.OnePlace f xs ys) (hrefl : ∀ p, R p p)
    (hf : ∀ p ∈ xs, ∀ q ∈ f p, R p q) : List.Forall₂ R xs ys := by
  obtain ⟨pre, x, y, post, hy, rfl, rfl⟩ := h
  refine List.rel_append (List.forall₂_same.mpr fun p _ ↦ hrefl p) (.cons ?_
    (List.forall₂_same.mpr fun p _ ↦ hrefl p))
  exact hf x (List.mem_append_right _ List.mem_cons_self) y hy

/-- Edited paragraphs have the identities that they had. -/
theorem ids_of_edited {xs ys : List EditableParagraph} {reported : List String}
    (h : List.Forall₂ (EditedParagraph reported) xs ys) :
    ys.map (·.nodeId) = xs.map (·.nodeId) ∧
      (ys.flatMap (·.runs)).map (·.nodeId) = (xs.flatMap (·.runs)).map (·.nodeId) := by
  induction h with
  | nil => exact ⟨rfl, rfl⟩
  | cons hpq _ ih =>
    rw [List.map_cons, List.map_cons, hpq.nodeId, ih.1, List.flatMap_cons, List.flatMap_cons,
      List.map_append, List.map_append, hpq.ids, ih.2]
    exact ⟨rfl, rfl⟩

/-- In a list with one new member every place has its old member or had the one that is replaced. -/
theorem getElem?_replaced {α : Type} {pre post : List α} {x y z : α} {k : Nat}
    (h : (pre ++ x :: post)[k]? = some z) : (pre ++ y :: post)[k]? = some z ∨ z = x := by
  by_cases hlt : k < pre.length
  · rw [List.getElem?_append_left hlt] at h ⊢
    exact .inl h
  · rw [List.getElem?_append_right (by omega)] at h ⊢
    cases hk : k - pre.length with
    | zero =>
      rw [hk] at h
      exact .inr (Option.some.inj h).symm
    | succ n =>
      rw [hk] at h
      exact .inl h

/-- The edit of a run. -/
theorem applyRunEdit_edited (hkind : edit.targetKind = some .run) (hids : DistinctIds doc)
    (h : applyRunEdit textHash doc edit result = .ok (doc', result')) :
    Edited textHash edit doc doc' result result' := by
  unfold applyRunEdit at h
  obtain ⟨run, hrun, h⟩ := bind_eq_ok.mp h
  obtain ⟨_, hhash, h⟩ := bind_eq_ok.mp h
  rw [orMissing_ok] at hrun
  have hhash := of_decide_eq_true (check_ok.mp hhash)
  obtain ⟨hmem, hid⟩ := lookupLast_some hrun
  obtain ⟨p, hp, hmem⟩ := List.mem_flatMap.mp hmem
  obtain ⟨hdoc, hresult⟩ := Prod.mk.inj (Except.ok.inj h)
  have hlength (q : EditableParagraph) (runs : List EditableRun)
      (hq : setRunText edit.targetId edit.newText q.runs = some runs) :
      runs.length = q.runs.length := by
    obtain ⟨pre, r, post, -, hold, rfl⟩ := exists_of_setRunText hq
    rw [hold, List.length_append, List.length_append, List.length_cons, List.length_cons]
  obtain ⟨hplace, hcells⟩ := @apply_paragraph (runChange edit.targetId edit.newText) doc
    (fun _ ↦ rfl) (fun q _ runs hq ↦ hlength q runs hq) p hp (setRunText_ne_none hmem hid)
  rw [hdoc] at hplace hcells
  have hreported : edit.targetId ∈ result'.modifiedRunIds := by
    rw [← hresult]
    exact mem_appendUnique.mpr (.inr rfl)
  have hall : List.Forall₂ (fun p q ↦ EditedParagraph result'.modifiedRunIds p q ∧
      (Outside doc edit p → q = p)) (paragraphRefs doc) (paragraphRefs doc') := by
    refine forall₂_onePlace hplace (fun p ↦ ⟨.refl _ p, fun _ ↦ rfl⟩) fun q _ q' hq' ↦ ?_
    obtain ⟨runs, hruns, rfl⟩ := Option.map_eq_some_iff.mp hq'
    obtain ⟨pre, r, post, hr, hold, rfl⟩ := exists_of_setRunText hruns
    refine ⟨⟨rfl, rfl, ?_, fun k run hk ↦ ?_⟩, fun hout ↦ ?_⟩
    · rw [hold, List.map_append, List.map_append]
      rfl
    · rw [hold] at hk
      refine (getElem?_replaced hk).imp_right fun heq ↦ ?_
      rw [heq, hr]
      exact hreported
    · unfold Outside at hout
      rw [hkind] at hout
      exact absurd hr (hout r (hold ▸ List.mem_append_right _ List.mem_cons_self))
  constructor
  case guard =>
    refine ⟨run.text, ?_, hhash⟩
    unfold targetText
    rw [hkind]
    exact congrArg (Option.map _) hrun
  case target =>
    have hnodup : ((runRefs doc').map (·.nodeId)).Nodup := by
      unfold runRefs
      rw [(ids_of_edited (hall.imp fun _ _ h ↦ h.1)).2]
      exact hids.runs
    obtain ⟨pre, q, q', post, hq', -, hafter⟩ := hplace
    obtain ⟨runs, hruns, rfl⟩ := Option.map_eq_some_iff.mp hq'
    obtain ⟨pre', r, post', hr, -, rfl⟩ := exists_of_setRunText hruns
    have hin : (⟨r.nodeId, edit.newText⟩ : EditableRun) ∈ runRefs doc' := by
      refine List.mem_flatMap.mpr ⟨_, hafter ▸ List.mem_append_right _ List.mem_cons_self, ?_⟩
      exact List.mem_append_right _ List.mem_cons_self
    left
    unfold targetText
    rw [hkind]
    dsimp only
    rw [(lookupLast_eq_some hnodup).mpr ⟨hin, hr⟩]
    rfl
  case settled =>
    exact fun hsettled ↦ hdoc ▸ Change.apply_settled _ hsettled
  case paragraphs => exact hall
  case cells => exact hcells
  case reported =>
    rw [← hresult]
    exact fun _ h ↦ mem_appendUnique.mpr (.inl h)
  case applied =>
    rw [← hresult]
    rfl

/-- The identities of the runs of a paragraph are its own. -/
theorem DistinctIds.paragraphRuns (hids : DistinctIds doc) {p : EditableParagraph}
    (hp : p ∈ paragraphRefs doc) : (p.runs.map (·.nodeId)).Nodup := by
  refine hids.runs.sublist (List.Sublist.map _ ?_)
  unfold runRefs
  rw [List.flatMap_def]
  exact List.sublist_flatten_of_mem (List.mem_map_of_mem hp)

/-- A replaced text leaves an edited paragraph. -/
theorem edited_replaced {p : EditableParagraph} (hids : (p.runs.map (·.nodeId)).Nodup)
    (newText : List Char) (result : EditResult) :
    (replaceRuns p.runs newText result).1.length = p.runs.length ∧
      EditedParagraph (replaceRuns p.runs newText result).2.modifiedRunIds p
        { p with runs := (replaceRuns p.runs newText result).1 } := by
  by_cases hne : p.runs = []
  · rw [hne, replaceRuns_nil]
    exact ⟨rfl, rfl, rfl, hne ▸ rfl, fun k run hk ↦ by rw [hne] at hk; cases hk⟩
  · have h := replaceRuns_replaced hne hids newText result
    refine ⟨?_, rfl, rfl, h.ids, h.reported⟩
    have hlength := congrArg List.length h.ids
    rwa [List.length_map, List.length_map] at hlength

/-- The edit of a paragraph. -/
theorem applyParagraphEdit_edited (hkind : edit.targetKind = some .paragraph)
    (hids : DistinctIds doc)
    (h : applyParagraphEdit textHash doc edit result = .ok (doc', result')) :
    Edited textHash edit doc doc' result result' := by
  unfold applyParagraphEdit at h
  obtain ⟨p, hfound, h⟩ := bind_eq_ok.mp h
  obtain ⟨_, -, h⟩ := bind_eq_ok.mp h
  obtain ⟨_, hhash, h⟩ := bind_eq_ok.mp h
  rw [orMissing_ok] at hfound
  have hhash := of_decide_eq_true (check_ok.mp hhash)
  obtain ⟨hp, hid⟩ := lookupLast_some hfound
  obtain ⟨hdoc, hresult⟩ :
      (paragraphChange edit.targetId (replaceRuns p.runs edit.newText result).1).apply doc = doc' ∧
        (replaceRuns p.runs edit.newText result).2.applied edit.targetId = result' :=
    Prod.mk.inj (Except.ok.inj h)
  have hextends := replaceRuns_extends p.runs edit.newText result
  obtain ⟨hlength, hedited⟩ := edited_replaced (hids.paragraphRuns hp) edit.newText result
  have hone {q : EditableParagraph} (hq : q ∈ paragraphRefs doc)
      (hqid : q.nodeId = edit.targetId) : q = p :=
    List.inj_on_of_nodup_map hids.paragraphs hq hp (hqid.trans hid.symm)
  have hchange {q : EditableParagraph} {runs : List EditableRun}
      (hq : (paragraphChange edit.targetId (replaceRuns p.runs edit.newText result).1).paragraph q =
        some runs) : q.nodeId = edit.targetId ∧
      runs = (replaceRuns p.runs edit.newText result).1 := by
    unfold paragraphChange at hq
    dsimp only at hq
    split at hq
    · next heq => exact ⟨heq, (Option.some.inj hq).symm⟩
    · cases hq
  obtain ⟨hplace, hcells⟩ := @apply_paragraph
    (paragraphChange edit.targetId (replaceRuns p.runs edit.newText result).1) doc (fun _ ↦ rfl)
    (fun q hq runs hruns ↦ by
      obtain ⟨hqid, rfl⟩ := hchange hruns
      rw [hone hq hqid]
      exact hlength) p hp (by
      unfold paragraphChange
      dsimp only
      rw [if_pos hid]
      exact Option.some_ne_none _)
  rw [hdoc] at hplace hcells
  have hmodified : result'.modifiedRunIds =
      (replaceRuns p.runs edit.newText result).2.modifiedRunIds := by
    rw [← hresult]
    rfl
  have hall : List.Forall₂ (fun p q ↦ EditedParagraph result'.modifiedRunIds p q ∧
      (Outside doc edit p → q = p)) (paragraphRefs doc) (paragraphRefs doc') := by
    refine forall₂_onePlace hplace (fun p ↦ ⟨.refl _ p, fun _ ↦ rfl⟩) fun q hq q' hq' ↦ ?_
    obtain ⟨runs, hruns, rfl⟩ := Option.map_eq_some_iff.mp hq'
    obtain ⟨hqid, rfl⟩ := hchange hruns
    obtain rfl := hone hq hqid
    refine ⟨hmodified ▸ hedited, fun hout ↦ ?_⟩
    unfold Outside at hout
    rw [hkind] at hout
    exact absurd hqid hout
  constructor
  case guard =>
    refine ⟨p.text, ?_, hhash⟩
    unfold targetText
    rw [hkind]
    exact congrArg (Option.map _) hfound
  case target =>
    by_cases hlost : p.runs = [] ∧ edit.newText ≠ []
    · exact .inr ⟨hkind, p, hp, hid, hlost.1, hlost.2⟩
    · have hnodup : ((paragraphRefs doc').map (·.nodeId)).Nodup := by
        rw [(ids_of_edited (hall.imp fun _ _ h ↦ h.1)).1]
        exact hids.paragraphs
      obtain ⟨pre, q, q', post, hq', hbefore, hafter⟩ := hplace
      obtain ⟨runs, hruns, rfl⟩ := Option.map_eq_some_iff.mp hq'
      obtain ⟨hqid, rfl⟩ := hchange hruns
      obtain rfl := hone (hbefore ▸ List.mem_append_right _ List.mem_cons_self) hqid
      have hin : { q with runs := (replaceRuns q.runs edit.newText result).1 } ∈
          paragraphRefs doc' := hafter ▸ List.mem_append_right _ List.mem_cons_self
      left
      unfold targetText
      rw [hkind]
      dsimp only
      rw [(lookupLast_eq_some hnodup).mpr ⟨hin, hqid⟩]
      refine congrArg some ?_
      by_cases hne : q.runs = []
      · have hempty : edit.newText = [] := by
          by_contra hnew
          exact hlost ⟨hne, hnew⟩
        unfold EditableParagraph.text
        dsimp only
        rw [hne, replaceRuns_nil, hempty]
        rfl
      · exact (replaceRuns_replaced hne (hids.paragraphRuns hp) edit.newText result).text
  case settled =>
    exact fun hsettled ↦ hdoc ▸ Change.apply_settled _ hsettled
  case paragraphs => exact hall
  case cells => exact hcells
  case reported =>
    rw [hmodified]
    exact hextends.1
  case applied =>
    rw [← hresult]
    exact congrArg (· + 1) hextends.2

/-- More may be reported. -/
theorem EditedParagraph.mono {reported more : List String} {p q : EditableParagraph}
    (h : EditedParagraph reported p q) (hsub : reported ⊆ more) : EditedParagraph more p q :=
  ⟨h.nodeId, h.content, h.ids, fun k run hk ↦ (h.reported k run hk).imp_right fun hmem ↦ hsub hmem⟩

/-- Every paragraph of a cell takes its line. -/
theorem replaceLines_edited : ∀ (paragraphs : List EditableParagraph)
    (lines : List (List Char)) (result : EditResult), lines.length = paragraphs.length →
    (∀ p ∈ paragraphs, p.runs ≠ [] ∧ (p.runs.map (·.nodeId)).Nodup) →
    (Change.withRuns paragraphs (replaceLines paragraphs lines result).1).map (·.text) = lines ∧
      List.Forall₂ (fun p runs ↦ runs.length = p.runs.length ∧
        EditedParagraph (replaceLines paragraphs lines result).2.modifiedRunIds p { p with runs })
        paragraphs (replaceLines paragraphs lines result).1 ∧
      result.modifiedRunIds ⊆ (replaceLines paragraphs lines result).2.modifiedRunIds ∧
      (replaceLines paragraphs lines result).2.editsApplied = result.editsApplied
  | [], [], result, _, _ => ⟨rfl, .nil, List.Subset.refl _, rfl⟩
  | p :: rest, line :: lines, result, hlength, hruns => by
    obtain ⟨⟨hne, hids⟩, hrest⟩ := List.forall_mem_cons.mp hruns
    have hextends := replaceRuns_extends p.runs line result
    obtain ⟨hsize, hedited⟩ := edited_replaced hids line result
    obtain ⟨htexts, hall, hsub, happlied⟩ := replaceLines_edited rest lines
      (replaceRuns p.runs line result).2 (Nat.succ.inj hlength) hrest
    refine ⟨?_, .cons ⟨hsize, hedited.mono hsub⟩ hall, List.Subset.trans hextends.1 hsub,
      happlied.trans hextends.2⟩
    exact congr (congrArg List.cons (replaceRuns_replaced hne hids line result).text) htexts

private theorem mem_refs_of_mem {paragraph : ParagraphIR} :
    ∀ (paragraphs : List ParagraphIR), paragraph ∈ paragraphs →
      paragraph.editable ∈ paragraphRefs paragraphs
  | .mk nodeId text content :: rest, h => by
    rw [paragraphRefs]
    rcases List.mem_cons.mp h with rfl | h
    · exact List.mem_cons_self
    · exact List.mem_cons_of_mem _ (List.mem_append_right _ (mem_refs_of_mem rest h))

mutual

/-- The paragraphs of a cell are registered. -/
theorem mem_paragraphRefs_of_cell {c : EditableCell} {p : EditableParagraph}
    (hp : p ∈ c.paragraphs) : ∀ (doc : List ParagraphIR), c ∈ cellRefs doc → p ∈ paragraphRefs doc
  | [], h => by
    rw [cellRefs] at h
    cases h
  | .mk nodeId text content :: rest, h => by
    rw [cellRefs] at h
    rw [paragraphRefs]
    rcases List.mem_append.mp h with h | h
    · exact List.mem_cons_of_mem _ (List.mem_append_left _ (mem_contentRefs_of_cell hp content h))
    · exact List.mem_cons_of_mem _ (List.mem_append_right _ (mem_paragraphRefs_of_cell hp rest h))

private theorem mem_contentRefs_of_cell {c : EditableCell} {p : EditableParagraph}
    (hp : p ∈ c.paragraphs) :
    ∀ (content : List ContentNode), c ∈ contentCells content → p ∈ contentRefs content
  | [], h => by
    rw [contentCells] at h
    cases h
  | .run run :: rest, h => by
    rw [contentCells] at h
    rw [contentRefs]
    exact mem_contentRefs_of_cell hp rest h
  | .image :: rest, h => by
    rw [contentCells] at h
    rw [contentRefs]
    exact mem_contentRefs_of_cell hp rest h
  | .table cells :: rest, h => by
    rw [contentCells] at h
    rw [contentRefs]
    rcases List.mem_append.mp h with h | h
    · exact List.mem_append_left _ (mem_nestedRefs_of_cell hp cells h)
    · exact List.mem_append_right _ (mem_contentRefs_of_cell hp rest h)

private theorem mem_nestedRefs_of_cell {c : EditableCell} {p : EditableParagraph}
    (hp : p ∈ c.paragraphs) :
    ∀ (cells : List TableCellIR), c ∈ nestedCells cells → p ∈ nestedRefs cells
  | [], h => by
    rw [nestedCells] at h
    cases h
  | .mk nodeId text paragraphs :: rest, h => by
    rw [nestedCells] at h
    rw [nestedRefs]
    rcases List.mem_cons.mp h with rfl | h
    · refine List.mem_append_left _ ?_
      obtain ⟨paragraph, hparagraph, rfl⟩ := List.mem_map.mp hp
      exact mem_refs_of_mem paragraphs hparagraph
    · rcases List.mem_append.mp h with h | h
      · exact List.mem_append_left _ (mem_paragraphRefs_of_cell hp paragraphs h)
      · exact List.mem_append_right _ (mem_nestedRefs_of_cell hp rest h)

end

/-- The edit of a cell. -/
theorem applyCellEdit_edited (hkind : edit.targetKind = some .cell)
    (hids : DistinctIds doc) (h : applyCellEdit textHash doc edit result = .ok (doc', result')) :
    Edited textHash edit doc doc' result result' := by
  unfold applyCellEdit at h
  obtain ⟨c, hfound, h⟩ := bind_eq_ok.mp h
  obtain ⟨_, -, h⟩ := bind_eq_ok.mp h
  obtain ⟨_, heditable, h⟩ := bind_eq_ok.mp h
  obtain ⟨_, hhash, h⟩ := bind_eq_ok.mp h
  obtain ⟨_, hcount, h⟩ := bind_eq_ok.mp h
  rw [orMissing_ok] at hfound
  rw [check_ok] at heditable
  have hhash := of_decide_eq_true (check_ok.mp hhash)
  have hcount := of_decide_eq_true (check_ok.mp hcount)
  obtain ⟨hc, hid⟩ := lookupLast_some hfound
  have hruns : ∀ p ∈ c.paragraphs, p.runs ≠ [] ∧ (p.runs.map (·.nodeId)).Nodup := by
    intro p hp
    refine ⟨fun hnil ↦ ?_, hids.paragraphRuns (mem_paragraphRefs_of_cell hp doc hc)⟩
    simp only [Bool.and_eq_true, Bool.not_eq_true', List.any_eq_false] at heditable
    exact heditable.2 p hp (by rw [hnil]; rfl)
  obtain ⟨htexts, hlines, hsub, happlied⟩ :=
    replaceLines_edited c.paragraphs (edit.newText.splitOn '\n') result hcount hruns
  obtain ⟨hdoc, hresult⟩ :
      (cellChange edit.targetId
          (replaceLines c.paragraphs (edit.newText.splitOn '\n') result).1).apply doc = doc' ∧
        (replaceLines c.paragraphs (edit.newText.splitOn '\n') result).2.applied edit.targetId =
          result' :=
    Prod.mk.inj (Except.ok.inj h)
  have hmodified : result'.modifiedRunIds =
      (replaceLines c.paragraphs (edit.newText.splitOn '\n') result).2.modifiedRunIds := by
    rw [← hresult]
    rfl
  rw [← hmodified] at hlines hsub
  generalize (replaceLines c.paragraphs (edit.newText.splitOn '\n') result).1 = lines at *
  have hchange {d : EditableCell} {lines' : List (List EditableRun)} (hd : d ∈ cellRefs doc)
      (hcell : (cellChange edit.targetId lines).cell d = some lines') : d = c ∧ lines' = lines := by
    unfold cellChange at hcell
    dsimp only at hcell
    split at hcell
    · next heq =>
      exact ⟨List.inj_on_of_nodup_map hids.cells hd hc (heq.trans hid.symm),
        (Option.some.inj hcell).symm⟩
    · cases hcell
  have hinside : ∀ p ∈ c.paragraphs, ¬Outside doc edit p := by
    intro p hp hout
    unfold Outside at hout
    rw [hkind] at hout
    exact hout c hc hid hp
  obtain ⟨hplace, hall⟩ := @apply_cell (cellChange edit.targetId lines) doc
    (fun p q ↦ EditedParagraph result'.modifiedRunIds p q ∧ (Outside doc edit p → q = p))
    (fun _ ↦ rfl) (fun p ↦ ⟨.refl _ p, fun _ ↦ rfl⟩) (fun d hd lines' hlines' ↦ by
      obtain ⟨rfl, rfl⟩ := hchange hd hlines'
      refine ((List.forall₂_and_left _ _).mpr ⟨hinside, hlines⟩).imp fun p runs hp ↦ ?_
      exact ⟨hp.2.1, hp.2.2, fun hout ↦ absurd hout hp.1⟩) c hc (by
      unfold cellChange
      dsimp only
      rw [if_pos hid]
      exact Option.some_ne_none _)
  rw [hdoc] at hplace hall
  obtain ⟨pre, d, d', post, hd', hbefore, hafter⟩ := hplace
  obtain ⟨lines', hlines', rfl⟩ := Option.map_eq_some_iff.mp hd'
  obtain ⟨rfl, rfl⟩ := hchange (hbefore ▸ List.mem_append_right _ List.mem_cons_self) hlines'
  have hcells : (cellRefs doc').map (·.nodeId) = (cellRefs doc).map (·.nodeId) := by
    rw [hafter, hbefore, List.map_append, List.map_append]
    rfl
  constructor
  case guard =>
    refine ⟨d.text, ?_, hhash⟩
    unfold targetText
    rw [hkind]
    exact congrArg (Option.map _) hfound
  case target =>
    refine .inl ?_
    have hin : ⟨d.nodeId, Change.withRuns d.paragraphs lines'⟩ ∈ cellRefs doc' :=
      hafter ▸ List.mem_append_right _ List.mem_cons_self
    unfold targetText
    rw [hkind]
    dsimp only
    rw [(lookupLast_eq_some (hcells ▸ hids.cells)).mpr ⟨hin, hid⟩]
    refine congrArg some ?_
    unfold EditableCell.text joinLines
    dsimp only
    rw [htexts]
    exact List.intercalate_splitOn '\n'
  case settled =>
    exact fun hsettled ↦ hdoc ▸ Change.apply_settled _ hsettled
  case paragraphs => exact hall
  case cells => exact hcells
  case reported => exact hsub
  case applied =>
    rw [← hresult]
    exact congrArg (· + 1) happlied

/-- Every edit that is accepted. -/
theorem applySingleEdit_edited (hids : DistinctIds doc)
    (h : applySingleEdit textHash doc edit result = .ok (doc', result')) :
    Edited textHash edit doc doc' result result' := by
  unfold applySingleEdit at h
  cases hkind : edit.targetKind with
  | none =>
    rw [hkind] at h
    cases h
  | some kind =>
    rw [hkind] at h
    cases kind with
    | run => exact applyRunEdit_edited hkind hids h
    | paragraph => exact applyParagraphEdit_edited hkind hids h
    | cell => exact applyCellEdit_edited hkind hids h

/-- Identities stay distinct. -/
theorem Edited.distinctIds (h : Edited textHash edit doc doc' result result')
    (hids : DistinctIds doc) : DistinctIds doc' := by
  obtain ⟨hparagraphs, hruns⟩ := ids_of_edited (h.paragraphs.imp fun _ _ hpq ↦ hpq.1)
  refine ⟨hparagraphs ▸ hids.paragraphs, h.cells ▸ hids.cells, ?_⟩
  unfold runRefs
  rw [hruns]
  exact hids.runs

end Edited

/-! ### A list of edits -/

/-- The documents that edits lead through, one after the other. -/
inductive EditedBy (textHash : List Char → String) :
    List TextEdit → List ParagraphIR → EditResult → List ParagraphIR → EditResult → Prop
  | nil (doc : List ParagraphIR) (result : EditResult) : EditedBy textHash [] doc result doc result
  | cons {edit : TextEdit} {edits : List TextEdit} {doc doc' doc'' : List ParagraphIR}
      {result result' result'' : EditResult} (first : Edited textHash edit doc doc' result result')
      (rest : EditedBy textHash edits doc' result' doc'' result'') :
      EditedBy textHash (edit :: edits) doc result doc'' result''

private theorem EditedParagraph.trans {reported : List String} {p q r : EditableParagraph}
    (h : EditedParagraph reported p q) (h' : EditedParagraph reported q r) :
    EditedParagraph reported p r := by
  refine ⟨h'.nodeId.trans h.nodeId, h'.content.trans h.content, h'.ids.trans h.ids,
    fun k run hk ↦ ?_⟩
  rcases h.reported k run hk with hq | hq
  · exact h'.reported k run hq
  · exact .inr hq

private theorem forall₂_trans {reported : List String} {ps qs rs : List EditableParagraph}
    (h : List.Forall₂ (EditedParagraph reported) ps qs)
    (h' : List.Forall₂ (EditedParagraph reported) qs rs) :
    List.Forall₂ (EditedParagraph reported) ps rs := by
  induction h generalizing rs with
  | nil => exact h'
  | cons hpq _ ih =>
    obtain ⟨r, rest, hqr, hrest, rfl⟩ := List.forall₂_cons_left_iff.mp h'
    exact .cons (hpq.trans hqr) (ih hrest)

/-- Over edits that are accepted: the stored texts stay settled, every run stays as it is or is
reported, and every edit is counted. -/
theorem EditedBy.kept {textHash : List Char → String} {edits : List TextEdit}
    {doc doc' : List ParagraphIR} {result result' : EditResult}
    (h : EditedBy textHash edits doc result doc' result') :
    (ParagraphsSettled doc → ParagraphsSettled doc') ∧
      List.Forall₂ (EditedParagraph result'.modifiedRunIds) (paragraphRefs doc)
        (paragraphRefs doc') ∧
      (cellRefs doc').map (·.nodeId) = (cellRefs doc).map (·.nodeId) ∧
      result.modifiedRunIds ⊆ result'.modifiedRunIds ∧
      result'.editsApplied = result.editsApplied + edits.length := by
  induction h with
  | nil doc result =>
    exact ⟨id, List.forall₂_same.mpr fun p _ ↦ .refl _ p, rfl, List.Subset.refl _, rfl⟩
  | cons first rest ih =>
    obtain ⟨hsettled, hall, hcells, hsub, happlied⟩ := ih
    refine ⟨fun h ↦ hsettled (first.settled h), ?_, hcells.trans first.cells,
      List.Subset.trans first.reported hsub, ?_⟩
    · exact forall₂_trans (first.paragraphs.imp fun p q hpq ↦ hpq.1.mono hsub) hall
    · rw [happlied, first.applied, List.length_cons]
      omega

private theorem applyEdits_edited {textHash : List Char → String} {edits : List TextEdit}
    {doc doc' : List ParagraphIR} {result result' : EditResult} (hids : DistinctIds doc)
    (h : applyEdits textHash doc result edits = .ok (doc', result')) :
    EditedBy textHash edits doc result doc' result' := by
  induction edits generalizing doc result with
  | nil =>
    obtain ⟨rfl, rfl⟩ := Prod.mk.inj (Except.ok.inj h)
    exact .nil doc result
  | cons edit edits ih =>
    obtain ⟨⟨mid, between⟩, hfirst, hrest⟩ := bind_eq_ok.mp h
    have hedited := applySingleEdit_edited hids hfirst
    exact .cons hedited (ih (hedited.distinctIds hids) hrest)

/-- Text edits that are accepted on a document with identities of its own. One after the other each
finds its target with the text that it expects, leaves it with its new text (a paragraph without
runs excepted) and nothing else changed; nodes that stored the texts that they would compute still
do; and the runs with another text than at first are reported.
`src/jobtology_be/document_processor/edit_engine.py:201–272,939–1098`,
`src/jobtology_be/document_processor/models.py:286–320`. -/
theorem textEdits_applied (textHash : List Char → String) (doc : List ParagraphIR)
    (edits : List TextEdit) (hids : DistinctIds doc) (doc' : List ParagraphIR) (result : EditResult)
    (h : applyTextEditsToDocIr textHash doc edits = .ok (doc', result)) :
    EditedBy textHash edits doc {} doc' result ∧
      (ParagraphsSettled doc → ParagraphsSettled doc') ∧
      List.Forall₂ (EditedParagraph result.modifiedRunIds) (paragraphRefs doc)
        (paragraphRefs doc') ∧
      (cellRefs doc').map (·.nodeId) = (cellRefs doc).map (·.nodeId) ∧
      result.editsApplied = edits.length := by
  have hedited := applyEdits_edited hids h
  obtain ⟨hsettled, hall, hcells, -, happlied⟩ := hedited.kept
  exact ⟨hedited, hsettled, hall, hcells, happlied.trans (Nat.zero_add _)⟩

/-- A paragraph with a table whose cell has one line, and a paragraph after it. -/
def tableDocument : List ParagraphIR :=
  [.mk "p" ['a'] [.table [.mk "c" ['a'] [.mk "q" ['a'] [.run ⟨"r", ['a']⟩]]]],
    .mk "s" ['a'] [.run ⟨"t", ['a']⟩]]

private theorem tableDocument_settled : ParagraphsSettled tableDocument := by
  simp only [tableDocument, ParagraphsSettled, ParagraphIR.Settled, ContentSettled, CellsSettled,
    TableCellIR.Settled]
  decide +kernel

/-- The digests of two texts. -/
def letterHash (text : List Char) : String :=
  if text = ['a'] then "86f7e437faa5a7fce15d1ddcb9eaeaea377667b8"
  else if text = ['b'] then "e9d71f5ee7c92d6dc9e92ffdad17b8bd49418f98"
  else ""

/-- The cell takes a new line, and its run another one. -/
def lineEdits : List TextEdit :=
  [⟨some .cell, "c", "86f7e437faa5a7fce15d1ddcb9eaeaea377667b8", ['b']⟩,
    ⟨some .run, "r", "e9d71f5ee7c92d6dc9e92ffdad17b8bd49418f98", ['b', 'a']⟩]

/-- Both edits are made, one after the other. -/
theorem textEdits_applied_cell :
    ∃ doc' result, applyTextEditsToDocIr letterHash tableDocument lineEdits =
        .ok (doc', result) ∧
      EditedBy letterHash lineEdits tableDocument {} doc' result ∧ ParagraphsSettled doc' ∧
      List.Forall₂ (EditedParagraph result.modifiedRunIds) (paragraphRefs tableDocument)
        (paragraphRefs doc') ∧
      (cellRefs doc').map (·.nodeId) = ["c"] ∧
      (runRefs doc').map (·.text) = [['b', 'a'], ['a']] ∧ result.modifiedRunIds = ["r"] := by
  have hends : (applyTextEditsToDocIr letterHash tableDocument lineEdits).toOption.map
      (fun edited ↦ ((runRefs edited.1).map (·.text), edited.2.modifiedRunIds)) =
        some ([['b', 'a'], ['a']], ["r"]) := by
    decide +kernel
  cases h : applyTextEditsToDocIr letterHash tableDocument lineEdits with
  | error error =>
    rw [h] at hends
    cases hends
  | ok edited =>
    rw [h] at hends
    obtain ⟨htexts, hreported⟩ := Prod.mk.inj (Option.some.inj hends)
    obtain ⟨hedited, hkept, hparagraphs, hcells, -⟩ := textEdits_applied letterHash tableDocument
      lineEdits ⟨by decide +kernel, by decide +kernel, by decide +kernel⟩ edited.1 edited.2 h
    exact ⟨edited.1, edited.2, rfl, hedited, hkept tableDocument_settled, hparagraphs,
      hcells.trans (by decide +kernel), htexts, hreported⟩

end Jobtology.Editing
