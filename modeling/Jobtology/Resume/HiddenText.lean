import Jobtology.Resume.VisibleDocx

/-!
# Hidden text

What the filter of hidden text removes: deleted and moved-from ranges, and the runs with a hiding
property, which a run takes from itself, from its character style, from the style of the nearest
paragraph around it or from the defaults.
-/

namespace Jobtology.Resume

open Jobtology.Base RoseTree

variable {L : Lowercase} {sheet : StyleSheet} {property : Properties → Option Bool}
  {ancestors : List Element} {node run : Element} {on : Bool}

/-! ## Purpose -/

/-- The two properties that hide a run. -/
inductive HidingProperty : (Properties → Option Bool) → Prop
  | vanish : HidingProperty Properties.vanish
  | webHidden : HidingProperty Properties.webHidden

/-- The nearest style in a chain that sets the property, so many styles away, and its value. A
chain may be cyclic or end at an unknown style. -/
inductive StyleSets (sheet : StyleSheet) (property : Properties → Option Bool) :
    Nat → Option String → Bool → Prop
  | own {id : String} {style : Style} {on : Bool} : sheet.styleOf id = some style →
    property style.own = some on → StyleSets sheet property 0 (some id) on
  | based {n : Nat} {id : String} {style : Style} {on : Bool} : sheet.styleOf id = some style →
    property style.own = none → StyleSets sheet property n style.basedOn on →
    StyleSets sheet property (n + 1) (some id) on

/-- The style that an element selects sets the property. -/
def Selects (sheet : StyleSheet) (property : Properties → Option Bool) (type : StyleType)
    (node : Element) (on : Bool) : Prop :=
  ∃ n, StyleSets sheet property n (sheet.selectedId type node) on

/-- The nearest paragraph around a node. -/
def nearestParagraph (ancestors : List Element) : Option Element :=
  ancestors.find? (·.label.tag = w "p")

/-- The effective value of a property of a run. -/
inductive Effective (L : Lowercase) (sheet : StyleSheet) (property : Properties → Option Bool)
    (ancestors : List Element) (run : Element) : Bool → Prop
  | own {on : Bool} : property (properties L (run.find [w "rPr"])) = some on →
    Effective L sheet property ancestors run on
  | character {on : Bool} : property (properties L (run.find [w "rPr"])) = none →
    Selects sheet property .character run on → Effective L sheet property ancestors run on
  | paragraph {on : Bool} {paragraph : Element} :
    property (properties L (run.find [w "rPr"])) = none →
    (∀ other, ¬Selects sheet property .character run other) →
    nearestParagraph ancestors = some paragraph →
    Selects sheet property .paragraph paragraph on → Effective L sheet property ancestors run on
  | defaults {on : Bool} : property (properties L (run.find [w "rPr"])) = none →
    (∀ other, ¬Selects sheet property .character run other) →
    (∀ paragraph ∈ nearestParagraph ancestors, ∀ other,
      ¬Selects sheet property .paragraph paragraph other) →
    property sheet.defaults = some on → Effective L sheet property ancestors run on

/-- The subtrees that are to be removed, by the nodes around them below the document. -/
inductive Hidden (L : Lowercase) (sheet : StyleSheet) (ancestors : List Element) (node : Element) :
    Prop
  | range : node.label.tag ∈ [w "del", w "moveFrom"] → Hidden L sheet ancestors node
  | run {property : Properties → Option Bool} : node.label.tag = w "r" →
    HidingProperty property → Effective L sheet property ancestors node true →
    Hidden L sheet ancestors node

/-! ## Style chains -/

private theorem property_update (h : HidingProperty property) (parent own : Properties) :
    property (parent.update own) = (property own).or (property parent) := by
  cases h
  · rfl
  · rfl

private theorem any_iff {p : Properties} :
    p.any = true ↔ ∃ property, HidingProperty property ∧ property p = some true := by
  unfold Properties.any
  rw [Bool.or_eq_true, decide_eq_true_iff, decide_eq_true_iff]
  constructor
  · rintro (h | h)
    · exact ⟨_, .vanish, h⟩
    · exact ⟨_, .webHidden, h⟩
  · rintro ⟨_, ⟨⟩ | ⟨⟩, h⟩
    · exact .inl h
    · exact .inr h

/-- A chain has one nearest style that sets the property. -/
theorem StyleSets.unique {n m : Nat} {id : Option String} {other : Bool}
    (h : StyleSets sheet property n id on) (h' : StyleSets sheet property m id other) :
    n = m ∧ on = other := by
  induction h generalizing m with
  | own hstyle hset =>
    cases h' with
    | own hstyle' hset' =>
      rw [hstyle] at hstyle'
      cases hstyle'
      rw [hset] at hset'
      exact ⟨rfl, Option.some.inj hset'⟩
    | based hstyle' hunset _ =>
      rw [hstyle] at hstyle'
      cases hstyle'
      rw [hset] at hunset
      cases hunset
  | based hstyle hunset _ ih =>
    cases h' with
    | own hstyle' hset' =>
      rw [hstyle] at hstyle'
      cases hstyle'
      rw [hunset] at hset'
      cases hset'
    | based hstyle' _ hrest =>
      rw [hstyle] at hstyle'
      cases hstyle'
      obtain ⟨hcount, hvalue⟩ := ih hrest
      exact ⟨congrArg (· + 1) hcount, hvalue⟩

private theorem property_empty (h : HidingProperty property) : property {} = none := by
  cases h
  · rfl
  · rfl

/-- What the code finds along a chain is set there. -/
theorem styleSets_of_styleProperties (h : HidingProperty property) {seen : List String}
    {id : Option String} (hset : property (sheet.styleProperties seen id) = some on) :
    ∃ n, StyleSets sheet property n id on := by
  fun_induction sheet.styleProperties seen id with
  | case1 =>
    rw [property_empty h] at hset
    cases hset
  | case2 =>
    rw [property_empty h] at hset
    cases hset
  | case3 =>
    rw [property_empty h] at hset
    cases hset
  | case4 seen id _ style hstyle ih =>
    rw [property_update h] at hset
    cases hown : property style.own with
    | some value =>
      rw [hown, Option.some_or] at hset
      obtain rfl := Option.some.inj hset
      exact ⟨0, .own hstyle hown⟩
    | none =>
      rw [hown, Option.none_or] at hset
      obtain ⟨n, hrest⟩ := ih hset
      exact ⟨n + 1, .based hstyle hown hrest⟩

/-- The pass of the code over a style that was not seen. -/
theorem styleProperties_some {seen : List String} {id : String} {style : Style}
    (hseen : id ∉ seen) (hstyle : sheet.styleOf id = some style) :
    sheet.styleProperties seen (some id) =
      (sheet.styleProperties (id :: seen) style.basedOn).update style.own := by
  rw [StyleSheet.styleProperties, dif_neg hseen]
  split
  · next hnone =>
    rw [hstyle] at hnone
    cases hnone
  · next found hfound =>
    rw [hstyle] at hfound
    cases hfound
    rfl

/-- What is set along a chain is found, where the styles that were seen are farther from it. -/
theorem styleProperties_of_styleSets (h : HidingProperty property) {n : Nat}
    {id : Option String} (hset : StyleSets sheet property n id on) {seen : List String}
    (hseen : ∀ s ∈ seen, ∀ m other, StyleSets sheet property m (some s) other → n < m) :
    property (sheet.styleProperties seen id) = some on := by
  induction hset generalizing seen with
  | @own id style on hstyle hown =>
    have hnew : id ∉ seen := fun hmem ↦
      Nat.lt_irrefl 0 (hseen id hmem 0 on (.own hstyle hown))
    rw [styleProperties_some hnew hstyle, property_update h, hown, Option.some_or]
  | @based n id style on hstyle hunset hrest ih =>
    have hset : StyleSets sheet property (n + 1) (some id) on := .based hstyle hunset hrest
    have hnew : id ∉ seen := fun hmem ↦ Nat.lt_irrefl _ (hseen id hmem _ on hset)
    rw [styleProperties_some hnew hstyle, property_update h, hunset, Option.none_or]
    apply ih
    intro s hs m other hother
    rcases List.mem_cons.mp hs with rfl | hold
    · have hcount := (hset.unique hother).1
      omega
    · exact Nat.lt_of_succ_lt (hseen s hold m other hother)

/-- `selected_style` finds what the chain sets. -/
theorem selectedStyle_iff (h : HidingProperty property) (type : StyleType) (node : Element) :
    property (sheet.selectedStyle type node) = some on ↔ Selects sheet property type node on := by
  constructor
  · exact styleSets_of_styleProperties h
  · rintro ⟨n, hset⟩
    exact styleProperties_of_styleSets h hset (List.forall_mem_nil _)

/-! ## Effective properties -/

/-- What the code passes down: the properties of the nearest paragraph. -/
def inheritedFrom (sheet : StyleSheet) (ancestors : List Element) : Properties :=
  match nearestParagraph ancestors with
  | some paragraph => sheet.defaults.update (sheet.selectedStyle .paragraph paragraph)
  | none => sheet.defaults

/-- The properties of a run that the code computes. -/
def effectiveProperties (L : Lowercase) (sheet : StyleSheet) (ancestors : List Element)
    (run : Element) : Properties :=
  ((inheritedFrom sheet ancestors).update (sheet.selectedStyle .character run)).update
    (properties L (run.find [w "rPr"]))

private theorem selectedStyle_none (h : HidingProperty property) {type : StyleType} :
    property (sheet.selectedStyle type node) = none ↔
      ∀ other, ¬Selects sheet property type node other := by
  simp only [← selectedStyle_iff h]
  exact Option.eq_none_iff_forall_ne_some

/-- The four layers are read in their order. -/
theorem effective_iff (h : HidingProperty property) :
    Effective L sheet property ancestors run on ↔
      property (effectiveProperties L sheet ancestors run) = some on := by
  have hlayers : property (effectiveProperties L sheet ancestors run) =
      (property (properties L (run.find [w "rPr"]))).or
        ((property (sheet.selectedStyle .character run)).or
          (property (inheritedFrom sheet ancestors))) := by
    unfold effectiveProperties
    rw [property_update h, property_update h]
  have hinherited (paragraph : Element) (hnearest : nearestParagraph ancestors = some paragraph) :
      property (inheritedFrom sheet ancestors) =
        (property (sheet.selectedStyle .paragraph paragraph)).or (property sheet.defaults) := by
    unfold inheritedFrom
    rw [hnearest]
    exact property_update h _ _
  rw [hlayers]
  constructor
  · rintro (hown | ⟨hown, hcharacter⟩ | ⟨hown, hcharacter, hnearest, hparagraph⟩ |
      ⟨hown, hcharacter, hparagraph, hdefaults⟩)
    · rw [hown, Option.some_or]
    · rw [hown, Option.none_or, (selectedStyle_iff h _ _).mpr hcharacter, Option.some_or]
    · rw [hown, Option.none_or, (selectedStyle_none h).mpr hcharacter, Option.none_or,
        hinherited _ hnearest, (selectedStyle_iff h _ _).mpr hparagraph, Option.some_or]
    · rw [hown, Option.none_or, (selectedStyle_none h).mpr hcharacter, Option.none_or]
      cases hnearest : nearestParagraph ancestors with
      | none =>
        unfold inheritedFrom
        rw [hnearest]
        exact hdefaults
      | some paragraph =>
        rw [hinherited _ hnearest, (selectedStyle_none h).mpr (hparagraph _ hnearest),
          Option.none_or, hdefaults]
  · intro hset
    cases hown : property (properties L (run.find [w "rPr"])) with
    | some value =>
      rw [hown, Option.some_or] at hset
      exact .own (hown.trans hset)
    | none =>
      rw [hown, Option.none_or] at hset
      cases hcharacter : property (sheet.selectedStyle .character run) with
      | some value =>
        rw [hcharacter, Option.some_or] at hset
        exact .character hown ((selectedStyle_iff h _ _).mp (hcharacter.trans hset))
      | none =>
        rw [hcharacter, Option.none_or] at hset
        have hnone := (selectedStyle_none h).mp hcharacter
        cases hnearest : nearestParagraph ancestors with
        | none =>
          unfold inheritedFrom at hset
          rw [hnearest] at hset
          refine .defaults hown hnone (fun paragraph hp ↦ ?_) hset
          rw [hnearest] at hp
          cases hp
        | some paragraph =>
          rw [hinherited _ hnearest] at hset
          cases hparagraph : property (sheet.selectedStyle .paragraph paragraph) with
          | some value =>
            rw [hparagraph, Option.some_or] at hset
            exact .paragraph hown hnone hnearest
              ((selectedStyle_iff h _ _).mp (hparagraph.trans hset))
          | none =>
            rw [hparagraph, Option.none_or] at hset
            refine .defaults hown hnone (fun other hp ↦ ?_) hset
            rw [hnearest] at hp
            cases hp
            exact (selectedStyle_none h).mp hparagraph

/-- What the code removes is what is hidden. -/
theorem hidden_iff :
    Hidden L sheet ancestors node ↔ node.label.tag ∈ [w "del", w "moveFrom"] ∨
      (node.label.tag = w "r" ∧ (effectiveProperties L sheet ancestors node).any = true) := by
  rw [any_iff]
  constructor
  · rintro (hrange | ⟨hrun, hproperty, heffective⟩)
    · exact .inl hrange
    · exact .inr ⟨hrun, _, hproperty, (effective_iff hproperty).mp heffective⟩
  · rintro (hrange | ⟨hrun, property, hproperty, heffective⟩)
    · exact .range hrange
    · exact .run hrun hproperty ((effective_iff hproperty).mpr heffective)

instance (L : Lowercase) (sheet : StyleSheet) (ancestors : List Element) (node : Element) :
    Decidable (Hidden L sheet ancestors node) := decidable_of_iff' _ hidden_iff

/-! ## The filter -/

/-- The context below a node that is kept. -/
theorem inheritedFrom_cons :
    inheritedFrom sheet (node :: ancestors) =
      if node.label.tag = w "p" then sheet.defaults.update (sheet.selectedStyle .paragraph node)
      else inheritedFrom sheet ancestors := by
  unfold inheritedFrom nearestParagraph
  rw [List.find?_cons]
  split_ifs with hp
  · rw [decide_eq_true hp]
  · rw [decide_eq_false hp]

private theorem tag_run_ne_paragraph : w "r" ≠ w "p" := by decide

/-- The pass of the loop over one child. -/
theorem removeHiddenFrom_cons (child : Element) (rest : List Element) :
    removeHiddenFrom L sheet (inheritedFrom sheet ancestors) (child :: rest) =
      if Hidden L sheet ancestors child then
        ((removeHiddenFrom L sheet (inheritedFrom sheet ancestors) rest).1, true)
      else
        ((removeHidden L sheet (inheritedFrom sheet (child :: ancestors)) child).1 ::
            (removeHiddenFrom L sheet (inheritedFrom sheet ancestors) rest).1,
          (removeHidden L sheet (inheritedFrom sheet (child :: ancestors)) child).2 ||
            (removeHiddenFrom L sheet (inheritedFrom sheet ancestors) rest).2) := by
  rw [removeHiddenFrom]
  dsimp only
  rw [← inheritedFrom_cons]
  by_cases hrange : child.label.tag ∈ [w "del", w "moveFrom"]
  · rw [if_pos hrange, if_pos (hidden_iff.mpr (.inl hrange))]
  · rw [if_neg hrange]
    by_cases hrun : child.label.tag = w "r"
    · have hcontext : inheritedFrom sheet (child :: ancestors) = inheritedFrom sheet ancestors := by
        rw [inheritedFrom_cons, if_neg (by rw [hrun]; exact tag_run_ne_paragraph)]
      have hsame : Hidden L sheet ancestors child ↔ child.label.tag = w "r" ∧
          (((inheritedFrom sheet (child :: ancestors)).update
            (sheet.selectedStyle .character child)).update
              (properties L (child.find [w "rPr"]))).any = true := by
        rw [hidden_iff, or_iff_right hrange, hcontext]
        rfl
      simp only [hsame]
    · rw [if_neg fun h ↦ hrun h.1, if_neg fun h ↦ ?_]
      rcases hidden_iff.mp h with h | h
      · exact hrange h
      · exact hrun h.1

mutual

/-- The code removes the hidden subtrees, and says whether there were some. -/
theorem removeHidden_eq (ancestors : List Element) (node : Element) :
    (removeHidden L sheet (inheritedFrom sheet ancestors) node).1 =
      prune (Hidden L sheet) ancestors node ∧
    ((removeHidden L sheet (inheritedFrom sheet ancestors) node).2 = true ↔
      prune (Hidden L sheet) ancestors node ≠ node) :=
  match node with
  | .node label children => by
    have hchildren := removeHiddenFrom_eq ancestors children
    rw [Ne, prune_eq_self_iff, removeHidden, prune, ← hchildren.1]
    refine ⟨rfl, ?_⟩
    rw [hchildren.1]
    exact hchildren.2

private theorem removeHiddenFrom_eq (ancestors : List Element) (nodes : List Element) :
    (removeHiddenFrom L sheet (inheritedFrom sheet ancestors) nodes).1 =
      pruneAll (Hidden L sheet) ancestors nodes ∧
    ((removeHiddenFrom L sheet (inheritedFrom sheet ancestors) nodes).2 = true ↔
      pruneAll (Hidden L sheet) ancestors nodes ≠ nodes) :=
  match nodes with
  | [] => ⟨rfl, iff_of_false Bool.false_ne_true fun h ↦ h rfl⟩
  | child :: rest => by
    have hchild := removeHidden_eq (child :: ancestors) child
    have hrest := removeHiddenFrom_eq ancestors rest
    rw [Ne, pruneAll_cons_eq_self_iff, removeHiddenFrom_cons]
    by_cases hhidden : Hidden L sheet ancestors child
    · rw [if_pos hhidden, pruneAll, if_pos hhidden]
      exact ⟨hrest.1, iff_of_true rfl fun h ↦ h.1 hhidden⟩
    · rw [if_neg hhidden, pruneAll, if_neg hhidden]
      dsimp only
      rw [hchild.1, hrest.1, Bool.or_eq_true, hchild.2, hrest.2]
      refine ⟨rfl, ?_⟩
      tauto

end

/-! ## The filtered document -/

/-- Pruned trees, wherever they stand. -/
private def Pruned (L : Lowercase) (sheet : StyleSheet) (e e' : Element) : Prop :=
  ∃ ancestors, e' = prune (Hidden L sheet) ancestors e

private theorem Pruned.label_eq {e e' : Element} (h : Pruned L sheet e e') :
    e'.label = e.label := by
  obtain ⟨ancestors, rfl⟩ := h
  exact label_prune e

/-- The tags that the code reads properties and styles from. -/
private def ReadTag (tag : String) : Prop := tag ∉ [w "del", w "moveFrom", w "r"]

private theorem not_hidden_of_readTag (h : ReadTag node.label.tag) :
    ¬Hidden L sheet ancestors node := by
  rw [hidden_iff]
  rintro (hrange | hrun)
  · exact h (List.mem_of_mem_take (i := 2) hrange)
  · exact h (by rw [hrun.1]; simp)

/-- Children with such a tag are all kept. -/
theorem filter_pruneAll {tag : String} (htag : ReadTag tag) (nodes : List Element) :
    List.Forall₂ (Pruned L sheet) (nodes.filter (·.label.tag = tag))
      ((pruneAll (Hidden L sheet) ancestors nodes).filter (·.label.tag = tag)) := by
  induction nodes with
  | nil => exact .nil
  | cons child rest ih =>
    rw [pruneAll]
    by_cases hchild : child.label.tag = tag
    · rw [if_neg (not_hidden_of_readTag (by rw [hchild]; exact htag)),
        List.filter_cons_of_pos (by simpa using hchild),
        List.filter_cons_of_pos (by simpa using hchild)]
      exact .cons ⟨_, rfl⟩ ih
    · rw [List.filter_cons_of_neg (by simpa using hchild)]
      split_ifs
      · exact ih
      · rwa [List.filter_cons_of_neg (by simpa using hchild)]

private theorem findall_pruned {path : List String} (hpath : ∀ tag ∈ path, ReadTag tag)
    {e e' : Element} (h : Pruned L sheet e e') :
    List.Forall₂ (Pruned L sheet) (e.findall path) (e'.findall path) := by
  induction path generalizing e e' with
  | nil => exact .cons h .nil
  | cons tag path ih =>
    obtain ⟨ancestors, rfl⟩ := h
    have hchildren := @filter_pruneAll L sheet ancestors tag (hpath tag List.mem_cons_self)
      e.children
    unfold Element.findall
    rw [children_prune]
    exact List.rel_flatMap hchildren fun _ _ hchild ↦
      ih (fun t ht ↦ hpath t (List.mem_cons_of_mem tag ht)) hchild

/-- What is found in a pruned element is what was found, pruned. -/
theorem find_pruned {path : List String} (hpath : ∀ tag ∈ path, ReadTag tag)
    {e e' : Element} (h : Pruned L sheet e e') :
    (e.find path = none ∧ e'.find path = none) ∨
      ∃ found found', e.find path = some found ∧ e'.find path = some found' ∧
        Pruned L sheet found found' := by
  have hall := findall_pruned hpath h
  unfold Element.find
  cases hfound : e.findall path with
  | nil =>
    rw [hfound] at hall
    rw [List.forall₂_nil_left_iff.mp hall]
    exact .inl ⟨rfl, rfl⟩
  | cons found rest =>
    rw [hfound] at hall
    obtain ⟨found', rest', hhead, -, heq⟩ := List.forall₂_cons_left_iff.mp hall
    rw [heq]
    exact .inr ⟨found, found', rfl, rfl, hhead⟩

private theorem get_pruned {e e' : Element} (h : Pruned L sheet e e') (key : String) :
    e'.get key = e.get key := by
  unfold Element.get
  rw [h.label_eq]

private theorem readTags : ∀ tag ∈ ["vanish", "webHidden", "rPr", "pPr", "pStyle", "rStyle"],
    ReadTag (w tag) := by
  unfold ReadTag
  decide

/-- A switch reads the same in a pruned element. -/
theorem switch_pruned {name : String} (hname : ReadTag (w name)) {e e' : Element}
    (h : Pruned L sheet e e') :
    (e'.find [w name]).map (isOn L) = (e.find [w name]).map (isOn L) := by
  rcases find_pruned (List.forall_mem_singleton.mpr hname) h with
    ⟨hnone, hnone'⟩ | ⟨found, found', hfound, hfound', hpruned⟩
  · rw [hnone, hnone']
  · rw [hfound, hfound', Option.map_some, Option.map_some]
    unfold isOn
    rw [get_pruned hpruned]

private theorem properties_pruned {e e' : Element} (h : Pruned L sheet e e') :
    properties L (e'.find [w "rPr"]) = properties L (e.find [w "rPr"]) := by
  have hrPr := readTags "rPr" (by simp)
  rcases find_pruned (List.forall_mem_singleton.mpr hrPr) h with
    ⟨hnone, hnone'⟩ | ⟨found, found', hfound, hfound', hpruned⟩
  · rw [hnone, hnone']
  · rw [hfound, hfound']
    unfold properties
    dsimp only
    rw [switch_pruned (readTags "vanish" (by simp)) hpruned,
      switch_pruned (readTags "webHidden" (by simp)) hpruned]

private theorem selectedStyle_pruned {e e' : Element} (h : Pruned L sheet e e') (type : StyleType) :
    sheet.selectedStyle type e' = sheet.selectedStyle type e := by
  have hpath : ∀ tag ∈ type.path, ReadTag tag := by
    cases type with
    | paragraph => simp [StyleType.path, readTags]
    | character => simp [StyleType.path, readTags]
  unfold StyleSheet.selectedStyle StyleSheet.selectedId
  rcases find_pruned hpath h with
    ⟨hnone, hnone'⟩ | ⟨found, found', hfound, hfound', hpruned⟩
  · rw [hnone, hnone']
  · rw [hfound, hfound']
    dsimp only
    rw [get_pruned hpruned]

private theorem inheritedFrom_pruned (ancestors : List Element) :
    inheritedFrom sheet (pruneChain (Hidden L sheet) ancestors) =
      inheritedFrom sheet ancestors := by
  induction ancestors with
  | nil => rfl
  | cons e ancestors ih =>
    rw [pruneChain, inheritedFrom_cons, inheritedFrom_cons, label_prune, ih,
      selectedStyle_pruned (L := L) ⟨_, rfl⟩]

/-- What is hidden reads the same in the filtered document. -/
theorem stable_hidden : Stable (Hidden L sheet) := by
  intro ancestors node
  have hpruned : Pruned L sheet node (prune (Hidden L sheet) (node :: ancestors) node) := ⟨_, rfl⟩
  have heffective : effectiveProperties L sheet (pruneChain (Hidden L sheet) ancestors)
      (prune (Hidden L sheet) (node :: ancestors) node) =
        effectiveProperties L sheet ancestors node := by
    unfold effectiveProperties
    rw [inheritedFrom_pruned, selectedStyle_pruned hpruned, properties_pruned hpruned]
  rw [hidden_iff, hidden_iff, label_prune, heffective]

/-- `visible_docx` returns the document without its hidden subtrees, says whether there were some,
and finds nothing more in what it returns. `src/jobtology_be/resume/worker.py:78–147`. -/
theorem visibleDocx_exact (L : Lowercase) (styles : Option Element) (document : Element) :
    (visibleDocx L styles document).1 =
        prune (Hidden L (readStyleSheet L styles)) [] document ∧
      ((visibleDocx L styles document).2 = true ↔ (visibleDocx L styles document).1 ≠ document) ∧
      visibleDocx L styles (visibleDocx L styles document).1 =
        ((visibleDocx L styles document).1, false) := by
  have hfiltered (e : Element) :
      (visibleDocx L styles e).1 = prune (Hidden L (readStyleSheet L styles)) [] e ∧
        ((visibleDocx L styles e).2 = true ↔
          prune (Hidden L (readStyleSheet L styles)) [] e ≠ e) :=
    @removeHidden_eq L (readStyleSheet L styles) [] e
  obtain ⟨hfirst, hremoved⟩ := hfiltered document
  have hagain : prune (Hidden L (readStyleSheet L styles)) [] (visibleDocx L styles document).1 =
      (visibleDocx L styles document).1 := by
    rw [hfirst]
    exact prune_prune stable_hidden [] document
  refine ⟨hfirst, by rw [hremoved, hfirst], Prod.ext ?_ ?_⟩
  · exact (hfiltered _).1.trans hagain
  · exact Bool.eq_false_iff.mpr fun h ↦ (hfiltered _).2.mp h hagain

end Jobtology.Resume
