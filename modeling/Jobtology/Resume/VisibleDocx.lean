import Jobtology.Base.Collections
import Jobtology.Base.Trees
import Jobtology.Resume.SafeCss

/-!
# The filter of hidden text

`resume/worker.py`, `visible_docx`: the document part of a file without deleted ranges and hidden
runs. The archive around the two parts is left out; the part of the styles may be missing.
-/

namespace Jobtology.Resume

open Jobtology.Base

/-! ## Elements -/

/-- What an element carries besides its children: its tag, its attributes, and the texts inside and
after it. -/
structure ElementLabel where
  tag : String
  attributes : List (String × String) := []
  text : String := ""
  tail : String := ""
  deriving DecidableEq

/-- An element of `xml.etree.ElementTree`. -/
abbrev Element := RoseTree ElementLabel

/-- A name in the namespace of WordprocessingML. -/
def w (name : String) : String :=
  "\x7bhttp://schemas.openxmlformats.org/wordprocessingml/2006/main\x7d" ++ name

namespace Element

/-- `element.tag`. -/
def tag (e : Element) : String := e.label.tag

/-- `element.get`. -/
def get (e : Element) (key : String) : Option String :=
  (lookupLast (·.1) e.label.attributes key).map (·.2)

/-- `element.findall` of a path of tags. -/
def findall : List String → Element → List Element
  | [], e => [e]
  | tag :: path, e => (e.children.filter (·.label.tag = tag)).flatMap (findall path)

/-- `element.find` of a path of tags. -/
def find (path : List String) (e : Element) : Option Element := (e.findall path).head?

end Element

/-! ## Styles -/

/-- The switches that `properties` reads, where they are set. -/
structure Properties where
  vanish : Option Bool := none
  webHidden : Option Bool := none
  deriving DecidableEq

/-- `parent | own`: what the second sets counts. -/
def Properties.update (parent own : Properties) : Properties where
  vanish := own.vanish.or parent.vanish
  webHidden := own.webHidden.or parent.webHidden

/-- `any(properties.values())`. -/
def Properties.any (p : Properties) : Bool := p.vanish = some true || p.webHidden = some true

/-- A style, with the identity of the style that it is based on. -/
structure Style where
  id : String
  basedOn : Option String
  own : Properties

/-- What is read of the styles. The default styles stand with their types, each with its
identity. -/
structure StyleSheet where
  defaults : Properties := {}
  styles : List Style := []
  defaultStyles : List (Option String × Option String) := []

/-- The types of the styles that are selected. -/
inductive StyleType
  | paragraph
  | character

/-- The type as it is written. -/
def StyleType.text : StyleType → String
  | paragraph => "paragraph"
  | character => "character"

/-- The path to the style of an element. -/
def StyleType.path : StyleType → List String
  | paragraph => [w "pPr", w "pStyle"]
  | character => [w "rPr", w "rStyle"]

section Read

variable (L : Lowercase)

/-- A switch is on unless its value says otherwise. -/
def isOn (child : Element) : Bool :=
  L.lower ((child.get (w "val")).getD "true").toList ∉ texts ["0", "false", "off"]

/-- `properties`. -/
def properties : Option Element → Properties
  | none => {}
  | some node =>
    { vanish := (node.find [w "vanish"]).map (isOn L)
      webHidden := (node.find [w "webHidden"]).map (isOn L) }

/-- The entry of `styles_by_id` for a style with an identity. -/
def readStyle (style : Element) : Option Style :=
  (style.get (w "styleId")).map fun id ↦
    { id := id
      basedOn := (style.find [w "basedOn"]).bind (·.get (w "val"))
      own := properties L (style.find [w "rPr"]) }

/-- The entry of `default_styles` for a style that is a default. -/
def readDefault (style : Element) : Option (Option String × Option String) :=
  if L.lower ((style.get (w "default")).getD "").toList ∈ texts ["1", "true", "on"] then
    some (style.get (w "type"), style.get (w "styleId"))
  else none

/-- What is read of `word/styles.xml`. -/
def readStyleSheet : Option Element → StyleSheet
  | none => {}
  | some root =>
    { defaults := properties L (root.find [w "docDefaults", w "rPrDefault", w "rPr"])
      styles := (root.findall [w "style"]).filterMap (readStyle L)
      defaultStyles := (root.findall [w "style"]).filterMap (readDefault L) }

end Read

namespace StyleSheet

variable (sheet : StyleSheet)

/-- The style with an identity. -/
def styleOf (id : String) : Option Style := lookupLast (·.id) sheet.styles id

private theorem length_unseen_lt {sheet : StyleSheet} {id : String} {style : Style}
    {seen : List String}
    (hseen : id ∉ seen) (hstyle : sheet.styleOf id = some style) :
    (sheet.styles.filter (·.id ∉ id :: seen)).length <
      (sheet.styles.filter (·.id ∉ seen)).length := by
  obtain ⟨hmem, hid⟩ := lookupLast_some hstyle
  have hsub : (sheet.styles.filter (·.id ∉ id :: seen)).Sublist
      (sheet.styles.filter (·.id ∉ seen)) := by
    apply List.monotone_filter_right
    intro s hs
    rw [decide_eq_true_iff] at hs ⊢
    exact fun h ↦ hs (List.mem_cons_of_mem id h)
  have hlast : style ∈ sheet.styles.filter (·.id ∉ seen) :=
    List.mem_filter.mpr ⟨hmem, decide_eq_true (by rw [hid]; exact hseen)⟩
  by_contra hle
  rw [← hsub.eq_of_length_le (Nat.le_of_not_lt hle), List.mem_filter, decide_eq_true_iff] at hlast
  exact hlast.2 (by rw [hid]; exact List.mem_cons_self)

/-- `style_properties`: the styles that were seen are not followed again. -/
def styleProperties (seen : List String) : Option String → Properties
  | none => {}
  | some id =>
    if _hseen : id ∈ seen then {}
    else match _hstyle : sheet.styleOf id with
      | none => {}
      | some style => (styleProperties (id :: seen) style.basedOn).update style.own
termination_by (sheet.styles.filter (·.id ∉ seen)).length
decreasing_by exact length_unseen_lt _hseen _hstyle

/-- The identity of the style that an element selects, or that of the default style. -/
def selectedId (type : StyleType) (node : Element) : Option String :=
  match node.find type.path with
  | some style => style.get (w "val")
  | none => (lookupLast (·.1) sheet.defaultStyles (some type.text)).bind (·.2)

/-- `selected_style`. -/
def selectedStyle (type : StyleType) (node : Element) : Properties :=
  sheet.styleProperties [] (sheet.selectedId type node)

end StyleSheet

/-! ## The filter -/

section Filter

variable (L : Lowercase) (sheet : StyleSheet)

mutual

/-- `remove_hidden`, and whether it removed something. -/
def removeHidden (paragraphProperties : Properties) : Element → Element × Bool
  | .node label children =>
    let (kept, removed) := removeHiddenFrom paragraphProperties children
    (.node label kept, removed)

/-- The loop over the children. -/
def removeHiddenFrom (paragraphProperties : Properties) : List Element → List Element × Bool
  | [] => ([], false)
  | child :: rest =>
    let (kept, removed) := removeHiddenFrom paragraphProperties rest
    if child.label.tag ∈ [w "del", w "moveFrom"] then (kept, true)
    else
      let inherited :=
        if child.label.tag = w "p" then sheet.defaults.update (sheet.selectedStyle .paragraph child)
        else paragraphProperties
      let effective := (inherited.update (sheet.selectedStyle .character child)).update
        (properties L (child.find [w "rPr"]))
      if child.label.tag = w "r" ∧ effective.any then (kept, true)
      else
        let (visible, inner) := removeHidden inherited child
        (visible :: kept, inner || removed)

end

/-- `visible_docx`: the document part that is left, and whether something was removed.
`src/jobtology_be/resume/worker.py:78–147`. -/
def visibleDocx (styles : Option Element) (document : Element) : Element × Bool :=
  let sheet := readStyleSheet L styles
  removeHidden L sheet sheet.defaults document

end Filter

end Jobtology.Resume
