import Jobtology.Resume.SafeCss

/-!
# The preview sanitizer

`resume/preview.py`: `_Preview`, a state machine over the events of the HTML parser, and
`safe_preview`. The events are what the parser of the standard library reports, with tags and names
in lower case.
-/

namespace Jobtology.Resume

open Jobtology.Base Jobtology.Documents

/-- The attributes of a tag: a value may be missing. -/
abbrev Attributes := List (List Char × Option (List Char))

/-- What the HTML parser reports. -/
inductive HtmlEvent
  | startTag (tag : List Char) (attrs : Attributes)
  | endTag (tag : List Char)
  | startEndTag (tag : List Char) (attrs : Attributes)
  | text (data : List Char)

/-! ## Tags and attributes -/

/-- `ALLOWED`. -/
def allowedTags : List (List Char) := texts
  ["div", "section", "article", "p", "span", "br", "hr", "strong", "b", "em", "i", "u", "s", "sub",
    "sup", "h1", "h2", "h3", "h4", "h5", "h6", "ul", "ol", "li", "table", "thead", "tbody",
    "tfoot", "tr", "th", "td", "colgroup", "col", "mark"]

/-- `VOID`. -/
def voidTags : List (List Char) := texts ["br", "hr", "col"]

/-- `DROP`. -/
def dropTags : List (List Char) := texts
  ["head", "script", "style", "svg", "math", "iframe", "object", "template"]

/-- The attributes with a number. -/
def numberNames : List (List Char) := texts
  ["data-page-number", "data-column-count", "colspan", "rowspan", "span"]

/-- The pattern of node ids: up to 160 letters, digits and signs. -/
def nodeIdRe : Regex Char :=
  let item := .one fun c ↦ asciiLetter c || asciiDigit c || c ∈ ['_', '.', ':', '/', '-']
  .seq item (.upTo item 159)

/-- `document-[a-z_-]+`. -/
def documentClassRe : Regex Char :=
  .seq (.word "document-".toList) (.plus (.one fun c ↦ ('a' ≤ c && c ≤ 'z') || c = '_' || c = '-'))

/-- `resume-block:[a-f0-9]{24}`. -/
def blockLabelRe : Regex Char :=
  .seq (.word "resume-block:".toList) (.times (.one lowerHexDigit) 24)

/-- `str.split` without a separator. -/
def splitBlanks (text : List Char) : List (List Char) :=
  (text.splitOnP isSpace).filter (· ≠ [])

/-- `html.escape` of a character. -/
def escapeChar (c : Char) : List Char :=
  if c = '&' then "&amp;".toList
  else if c = '<' then "&lt;".toList
  else if c = '>' then "&gt;".toList
  else if c = '"' then "&quot;".toList
  else if c.toNat = 39 then "&#x27;".toList
  else [c]

/-- `html.escape`. -/
def escape (text : List Char) : List Char := text.flatMap escapeChar

/-- `[\x00-\x08\x0b\x0c\x0e-\x1f\x7f]`. -/
def isControl (c : Char) : Bool :=
  c.toNat ≤ 8 || c.toNat = 0xb || c.toNat = 0xc || (0xe ≤ c.toNat && c.toNat ≤ 0x1f) ||
    c.toNat = 0x7f

variable (L : Lowercase)

/-- The pass of the loop over one attribute. -/
def safeAttribute (name value : List Char) :
    Except NumberError (Option (List Char × List Char)) :=
  if name = "data-node-id".toList ∧ nodeIdRe.fullmatch value then return some (name, value)
  else if name = "class".toList then
    let classes := (splitBlanks value).filter fun item ↦ documentClassRe.fullmatch item
    return if classes ≠ [] then some (name, [' '].intercalate classes) else none
  else if name = "data-label".toList ∧ blockLabelRe.fullmatch value then return some (name, value)
  else if name ∈ numberNames ∧ value ≠ [] ∧ value.all isDigit then do
    let number ← intOfDigits value
    return if 1 ≤ number ∧ number ≤ 100 then some (name, decimalText number) else none
  else if name = "style".toList then do
    let css ← safeCss L value
    return if css ≠ [] then some (name, css) else none
  else return none

/-- The attributes that are kept. -/
def safeAttributes (attrs : Attributes) : Except NumberError (List (List Char × List Char)) := do
  let found ← attrs.mapM fun (name, value) ↦
    match value with
    | none => return none
    | some value => safeAttribute L name value
  return found.filterMap id

/-- The text of an attribute. -/
def renderAttribute (a : List Char × List Char) : List Char :=
  ' ' :: a.1 ++ ['=', '"'] ++ escape a.2 ++ ['"']

/-- The text of a start tag. -/
def renderStart (tag : List Char) (attrs : List (List Char × List Char)) : List Char :=
  '<' :: tag ++ attrs.flatMap renderAttribute ++ ['>']

/-- The text of an end tag. -/
def renderEnd (tag : List Char) : List Char := ['<', '/'] ++ tag ++ ['>']

/-! ## The machine -/

/-- `_Preview`: the texts that were written, and the dropped elements that are open, innermost
first. `src/jobtology_be/resume/preview.py:64–107`. -/
structure Preview where
  output : List (List Char)
  dropped : List (List Char)

/-- `handle_starttag`. `src/jobtology_be/resume/preview.py:70–94`. -/
def handleStarttag (state : Preview) (tag : List Char) (attrs : Attributes) :
    Except NumberError Preview :=
  if tag ∈ dropTags ∨ state.dropped ≠ [] then
    return if tag ∈ dropTags then { state with dropped := tag :: state.dropped } else state
  else if tag ∉ allowedTags then return state
  else do
    let safe ← safeAttributes L attrs
    return { state with output := state.output ++ [renderStart tag safe] }

/-- `handle_endtag`. `src/jobtology_be/resume/preview.py:96–102`. -/
def handleEndtag (state : Preview) (tag : List Char) : Preview :=
  match state.dropped with
  | innermost :: outer => if tag = innermost then { state with dropped := outer } else state
  | [] =>
    if tag ∈ allowedTags ∧ tag ∉ voidTags then
      { state with output := state.output ++ [renderEnd tag] }
    else state

/-- `handle_data`. `src/jobtology_be/resume/preview.py:104–107`. -/
def handleData (state : Preview) (data : List Char) : Preview :=
  if state.dropped = [] then
    { state with output := state.output ++ [escape (data.filter fun c ↦ !isControl c)] }
  else state

/-- The handlers of one event. -/
def handle (state : Preview) : HtmlEvent → Except NumberError Preview
  | .startTag tag attrs => handleStarttag L state tag attrs
  | .endTag tag => return handleEndtag state tag
  | .startEndTag tag attrs => do
    let state ← handleStarttag L state tag attrs
    return handleEndtag state tag
  | .text data => return handleData state data

/-- `feed` and `close`. -/
def feed (events : List HtmlEvent) : Except NumberError Preview :=
  events.foldlM (handle L) ⟨[], []⟩

/-- The page around the body, with `REVIEW_CSS`. -/
def previewPage (reviewCss body : List Char) : List Char :=
  "<!doctype html><html lang=\"ko\"><head><meta charset=\"utf-8\"><style>".toList ++ reviewCss ++
    "</style></head><body>".toList ++ body ++ "</body></html>".toList

/-- `safe_preview`. `src/jobtology_be/resume/preview.py:110–117`. -/
def safePreview (reviewCss : List Char) (events : List HtmlEvent) :
    Except NumberError (Option (List Char)) := do
  let parser ← feed L events
  let result := previewPage reviewCss parser.output.flatten
  return if result.length ≤ 500000 then some result else none

end Jobtology.Resume
