import Jobtology.Documents.CssColor

/-!
# The style filter

`resume/preview.py`: `_safe_css`, which keeps the inert declarations of a style. Lower-casing is a
parameter.
-/

namespace Jobtology.Resume

open Jobtology.Base Jobtology.Documents

/-- `str.lower`: letters are replaced, and a lowered text stays as it is. -/
structure Lowercase where
  lower : List Char → List Char
  lower_part : ∀ {text part : List Char}, part <:+: lower text → lower part = part
  lower_ascii : ∀ {text : List Char}, (∀ c ∈ text, c.toNat < 128) →
    lower text = text.map Char.toLower
  mem_semicolon : ∀ {text : List Char}, ';' ∈ lower text → ';' ∈ text
  trimmed : ∀ {text : List Char}, Trimmed text → Trimmed (lower text)

/-- A character is its own lower case, or a capital letter. -/
theorem toLower_cases (c : Char) :
    c.toLower = c ∨
      (65 ≤ c.toNat ∧ c.toNat ≤ 90 ∧ 97 ≤ c.toLower.toNat ∧ c.toLower.toNat ≤ 122) := by
  by_cases hupper : c.val ≥ 'A'.val ∧ c.val ≤ 'Z'.val
  · right
    have hbounds : 65 ≤ c.toNat ∧ c.toNat ≤ 90 := by
      simpa [UInt32.le_iff_toNat_le] using hupper
    have hlower : c.toLower.toNat = c.toNat + 32 := by
      unfold Char.toLower
      rw [dif_pos hupper]
      change (c.val + 32).toNat = _
      rw [UInt32.toNat_add]
      change (c.toNat + 32) % 2 ^ 32 = _
      omega
    omega
  · left
    unfold Char.toLower
    rw [dif_neg hupper]

private theorem isSpace_toLower (c : Char) : isSpace c.toLower = isSpace c := by
  rcases toLower_cases c with h | ⟨hlow, hhigh, hlow', hhigh'⟩
  · rw [h]
  · have hletter {d : Char} (hd : 65 ≤ d.toNat) (hd' : d.toNat ≤ 122) : isSpace d = false := by
      simp only [isSpace, Bool.or_eq_false_iff, Bool.and_eq_false_iff, decide_eq_false_iff_not,
        beq_eq_false_iff_ne]
      omega
    rw [hletter (by omega) hhigh', hletter hlow (by omega)]

/-- Lower-casing of ASCII. -/
def asciiLower : Lowercase where
  lower text := text.map Char.toLower
  lower_part := by
    intro text part hpart
    have hlower : ∀ c ∈ part, c.toLower = c := by
      intro c hc
      obtain ⟨a, _, rfl⟩ := List.mem_map.1 (hpart.subset hc)
      rcases toLower_cases a.toLower with h | h
      · exact h
      · rcases toLower_cases a with h' | h'
        · rw [h', h']
        · omega
    exact (List.map_congr_left hlower).trans (List.map_id _)
  lower_ascii := fun _ ↦ rfl
  mem_semicolon := by
    intro text hmem
    obtain ⟨a, ha, hlower⟩ := List.mem_map.1 hmem
    rcases toLower_cases a with h | h
    · rwa [← hlower, h]
    · rw [hlower] at h
      exact absurd h.2.2.1 (by decide)
  trimmed := by
    intro text htrim
    refine ⟨?_, ?_⟩
    · intro c hc
      rw [List.head?_map] at hc
      obtain ⟨a, ha, rfl⟩ := Option.map_eq_some_iff.1 hc
      rw [isSpace_toLower]
      exact htrim.first a ha
    · intro c hc
      rw [List.getLast?_map] at hc
      obtain ⟨a, ha, rfl⟩ := Option.map_eq_some_iff.1 hc
      rw [isSpace_toLower]
      exact htrim.last a ha

/-! ## Properties -/

/-- Texts as lists of characters. -/
def texts (words : List String) : List (List Char) := words.map String.toList

/-- `LENGTH_KEYS`. -/
def lengthKeys : List (List Char) := texts
  ["width", "height", "min-width", "max-width", "min-height", "max-height", "font-size",
    "text-indent", "border-radius", "margin", "margin-top", "margin-right", "margin-bottom",
    "margin-left", "padding", "padding-top", "padding-right", "padding-bottom", "padding-left",
    "column-gap", "-webkit-column-gap"]

/-- `ENUMS`. -/
def enums : List (List Char × List (List Char)) :=
  [("text-align".toList, texts ["left", "right", "center", "justify"]),
    ("vertical-align".toList, texts ["top", "middle", "bottom", "baseline"]),
    ("font-weight".toList, texts ["normal", "bold", "400", "600", "700"]),
    ("font-style".toList, texts ["normal", "italic"]),
    ("box-sizing".toList, texts ["border-box"]),
    ("border-collapse".toList, texts ["collapse"]),
    ("table-layout".toList, texts ["fixed", "auto"]),
    ("display".toList, texts ["inline-block"]),
    ("white-space".toList, texts ["nowrap", "pre-wrap"]),
    ("column-fill".toList, texts ["balance"]),
    ("break-inside".toList, texts ["auto", "avoid"]),
    ("text-decoration".toList, texts ["underline", "line-through", "underline line-through"])]

/-- The value is one of the fixed values of the property. -/
def isEnum (key value : List Char) : Bool := enums.any fun e ↦ e.1 == key && e.2.contains value

/-- The properties with a colour. -/
def colorKeys : List (List Char) := texts ["color", "background-color", "background"]

/-- The properties with a number of columns. -/
def columnKeys : List (List Char) := texts ["column-count", "-webkit-column-count"]

/-- The properties with a border. -/
def borderKeys : List (List Char) := texts
  ["border", "border-top", "border-right", "border-bottom", "border-left"]

/-- The property of the page shadow. -/
def shadowKey : List Char := "box-shadow".toList

/-- The shadow of a page. -/
def pageShadow : List Char := "0 1px 3px rgba(0,0,0,0.08)".toList

/-! ## Values -/

/-- `\d+`. -/
def digitsRe : Regex Char := .plus (.one fun c ↦ (decimalDigit c).isSome)

/-- `LENGTH`. -/
def lengthRe : Regex Char :=
  .seq (.opt (.word ['-'])) (.seq
    (.alt (.seq digitsRe (.opt (.seq (.word ['.']) digitsRe))) (.seq (.word ['.']) digitsRe))
    (.opt (.choice ((texts ["pt", "px", "em", "rem", "%"]).map .word))))

/-- Up to four lengths. -/
def lengthsRe : Regex Char :=
  let item := .alt lengthRe (.word "auto".toList)
  .seq item (.upTo (.seq (.plus (.word [' '])) item) 3)

/-- `[1-9]|1[0-2]`. -/
def columnCountRe : Regex Char :=
  .alt (.one fun c ↦ '1' ≤ c && c ≤ '9') (.seq (.word ['1']) (.one fun c ↦ '0' ≤ c && c ≤ '2'))

/-- `[0-9a-f]`. -/
def lowerHexDigit : Char → Bool := fun c ↦ asciiDigit c || ('a' ≤ c && c ≤ 'f')

/-- A length, a style and a colour. -/
def borderRe : Regex Char :=
  .seq lengthRe (.seq (.word [' ']) (.seq
    (.choice ((texts ["solid", "dashed", "dotted", "double"]).map .word))
    (.seq (.word [' ', '#'])
      (.seq (.times (.one lowerHexDigit) 3) (.upTo (.one lowerHexDigit) 5)))))

/-! ## The filter -/

variable (L : Lowercase)

/-- The property and the value of a declaration. -/
def parseDeclaration (declaration : List Char) : List Char × List Char :=
  let text := strip declaration
  (L.lower (strip (text.takeWhile (· ≠ ':'))), L.lower (strip ((text.dropWhile (· ≠ ':')).drop 1)))

/-- What the filter keeps of a property with a value. -/
def safeValue (key value : List Char) : Except NumberError (Option (List Char × List Char)) :=
  if isEnum key value then return some (key, value)
  else if key ∈ colorKeys then return (← sanitizeCssColor value).map (key, ·)
  else if (key ∈ lengthKeys ∧ lengthsRe.fullmatch value) ∨
      (key ∈ columnKeys ∧ columnCountRe.fullmatch value) then return some (key, value)
  else if key ∈ borderKeys then
    return if value ≠ "none".toList ∧ ¬borderRe.fullmatch value then none else some (key, value)
  else return if key = shadowKey ∧ value = pageShadow then some (key, value) else none

/-- The pass of the loop over one declaration. -/
def safeDeclaration (declaration : List Char) :
    Except NumberError (Option (List Char × List Char)) :=
  safeValue (parseDeclaration L declaration).1 (parseDeclaration L declaration).2

/-- The declarations that are kept. -/
def safeDeclarations (css : List Char) : Except NumberError (List (List Char × List Char)) := do
  let found ← (css.splitOn ';').mapM (safeDeclaration L)
  return found.filterMap id

/-- The text of a declaration. -/
def renderDeclaration (d : List Char × List Char) : List Char := d.1 ++ ':' :: d.2

/-- The text of a style. -/
def renderStyle (ds : List (List Char × List Char)) : List Char :=
  [';'].intercalate (ds.map renderDeclaration)

/-- `_safe_css`. `src/jobtology_be/resume/preview.py:35–61`. -/
def safeCss (css : List Char) : Except NumberError (List Char) := do
  let declarations ← safeDeclarations L css
  return renderStyle declarations

end Jobtology.Resume
