import Jobtology.Base.FiniteFloats
import Jobtology.Base.Regex

/-!
# Colours

`document_processor/pdf/meta.py`: the colours of a document as colours of a style. A bracketed list
of numbers is converted, every other colour is kept as it stands.
-/

namespace Jobtology.Documents

open Jobtology.Base

/-! ## Patterns -/

/-- `[0-9]`. -/
def asciiDigit : Char → Bool := fun c ↦ '0' ≤ c && c ≤ '9'

/-- `[0-9A-Fa-f]`. -/
def hexDigit : Char → Bool := fun c ↦
  asciiDigit c || ('A' ≤ c && c ≤ 'F') || ('a' ≤ c && c ≤ 'f')

/-- `[a-zA-Z]`. -/
def asciiLetter : Char → Bool := fun c ↦ ('a' ≤ c && c ≤ 'z') || ('A' ≤ c && c ≤ 'Z')

/-- `_HEX_COLOR_RE`. -/
def hexColorRe : Regex Char :=
  .seq (.word ['#']) (.seq (.times (.one hexDigit) 3)
    (.seq (.opt (.times (.one hexDigit) 3)) (.opt (.times (.one hexDigit) 2))))

/-- `rgba?(…)` around what `content` matches. -/
def rgbAround (content : Regex Char) : Regex Char :=
  .seq (.word "rgb".toList) (.seq (.opt (.word ['a']))
    (.seq (.word ['(']) (.seq content (.word [')']))))

/-- `_RGB_COLOR_RE`. -/
def rgbColorRe : Regex Char := rgbAround (.plus (.one fun c ↦ c ≠ ')'))

/-- `_NAMED_COLOR_RE`. -/
def namedColorRe : Regex Char :=
  .seq (.one asciiLetter) (.star (.one fun c ↦ asciiLetter c || asciiDigit c || c = '-'))

/-- `_BRACKETED_NUMBER_RE`: what is between the brackets. -/
def bracketedNumber : List Char → Option (List Char)
  | '[' :: rest =>
    if rest.getLast? = some ']' ∧ rest.dropLast ≠ [] ∧ ']' ∉ rest.dropLast then
      some (rest.dropLast.dropWhile isSpace)
    else none
  | _ => none

/-! ## Conversion -/

/-- `0.0 <= value <= 1.0`. -/
def inUnit (value : PyFloat) : Bool := Float.Model.le (.ofNat 0) value && value.le (.ofNat 1)

/-- `_normalize_color_component`. `src/jobtology_be/document_processor/pdf/meta.py:159–162`. -/
def normalizeColorComponent (value : PyFloat) : Except NumberError Nat := do
  let rounded ← roundFloat (if inUnit value then value * .ofNat 255 else value)
  return (max 0 (min rounded 255)).toNat

/-- `_rgb_to_hex`. `src/jobtology_be/document_processor/pdf/meta.py:165–166`. -/
def rgbToHex (rgb : List Nat) : List Char := '#' :: rgb.flatMap hexByte

/-- The alpha of a colour: shares stay, bytes become shares. -/
def normalizeAlpha (alpha : PyFloat) : PyFloat :=
  if inUnit alpha then alpha
  else
    let share := alpha / .ofNat 255
    let capped := if Float.Model.lt (.ofNat 1) share then .ofNat 1 else share
    if Float.Model.lt (.ofNat 0) capped then capped else .ofNat 0

/-- The text of a colour with alpha. -/
def rgbaText (r g b : Nat) (alpha : PyFloat) : List Char :=
  "rgba(".toList ++ decimalText r ++ ", ".toList ++ decimalText g ++ ", ".toList ++
    decimalText b ++ ", ".toList ++ fixedThree alpha ++ [')']

/-- `_components_to_css_color`. `src/jobtology_be/document_processor/pdf/meta.py:131–156`. -/
def componentsToCssColor (components : List (List Char)) :
    Except NumberError (Option (List Char)) :=
  match components.mapM floatOfText with
  | some [gray] => do
    let level ← normalizeColorComponent gray
    return some (rgbToHex [level, level, level])
  | some [red, green, blue] => do
    let rgb ← [red, green, blue].mapM normalizeColorComponent
    return some (rgbToHex rgb)
  | some [red, green, blue, alpha] => do
    let r ← normalizeColorComponent red
    let g ← normalizeColorComponent green
    let b ← normalizeColorComponent blue
    return some (rgbaText r g b (normalizeAlpha alpha))
  | _ => return none

/-- The components of a bracketed colour. -/
def colorComponents (inside : List Char) : List (List Char) :=
  ((inside.splitOn ',').map strip).filter (· ≠ [])

/-- `sanitize_css_color` of a text. `src/jobtology_be/document_processor/pdf/meta.py:104–128`. -/
def sanitizeCssColor (value : List Char) : Except NumberError (Option (List Char)) :=
  let stripped := strip value
  if stripped = [] then return none
  else if hexColorRe.fullmatch stripped then return some stripped
  else if rgbColorRe.fullmatch stripped then return some stripped
  else if namedColorRe.fullmatch stripped then return some stripped
  else
    match bracketedNumber stripped with
    | some inside => componentsToCssColor (colorComponents inside)
    | none => return none

/-! ## What a conversion writes -/

/-- A number of a style: a sign, digits with a fraction, a percent sign. -/
def number : Regex Char :=
  .seq (.opt (.one fun c ↦ c = '+' || c = '-')) (.seq
    (.alt (.seq (.plus (.one asciiDigit)) (.opt (.seq (.word ['.']) (.plus (.one asciiDigit)))))
      (.seq (.word ['.']) (.plus (.one asciiDigit))))
    (.opt (.word ['%'])))

/-- What separates two numbers: blanks, or a comma or a slash with blanks around it. -/
def separator : Regex Char :=
  .alt (.plus (.one isSpace))
    (.seq (.star (.one isSpace)) (.seq (.one fun c ↦ c = ',' || c = '/') (.star (.one isSpace))))

/-- A list of numbers. -/
def numbers : Regex Char :=
  .seq (.star (.one isSpace)) (.seq number
    (.seq (.star (.seq separator number)) (.star (.one isSpace))))

/-- A colour that is inert: hexadecimal, a name, or `rgb` or `rgba` of numbers. -/
def inertColor : Regex Char := .choice [hexColorRe, namedColorRe, rgbAround numbers]

section Shape

open Regex

private theorem digitChar_cases {p : Char → Prop} (h : ∀ d : Fin 16, p (Nat.digitChar d))
    {n : Nat} (hn : n < 16) : p (Nat.digitChar n) :=
  h ⟨n, hn⟩

private theorem hexDigit_digitChar {n : Nat} (hn : n < 16) : hexDigit (Nat.digitChar n) = true :=
  digitChar_cases (p := fun c ↦ hexDigit c = true) (by decide) hn

private theorem asciiDigit_digitChar {n : Nat} (hn : n < 10) :
    asciiDigit (Nat.digitChar n) = true := by
  have h : ∀ d : Fin 10, asciiDigit (Nat.digitChar d) = true := by decide
  exact h ⟨n, hn⟩

private theorem isDigit_asciiDigit {c : Char} (h : c.isDigit = true) : asciiDigit c = true := h

private theorem decimalText_digits (n : Nat) :
    decimalText n ∈ (plus (one asciiDigit)).language := by
  apply mem_plus_one.2
  refine ⟨Nat.toDigits_ne_nil, ?_⟩
  intro c hc
  exact isDigit_asciiDigit (Nat.isDigit_of_mem_toDigits (by omega) (by omega) hc)

private theorem threeDecimals_number (sign : Float.Model.UnpackedFloat.Sign) (magnitude : ℚ) :
    signText sign ++ threeDecimals magnitude ∈ number.language := by
  have hsign : signText sign ∈ (opt (one fun c ↦ c = '+' || c = '-')).language := by
    cases sign with
    | positive => exact .inl rfl
    | negative => exact .inr ⟨'-', by decide, rfl⟩
  refine append_mem_seq hsign ?_
  rw [← List.append_nil (threeDecimals magnitude)]
  refine append_mem_seq (.inl ?_) (.inl rfl)
  refine append_mem_seq (decimalText_digits _) (.inr ?_)
  refine append_mem_seq (u := ['.']) (self_mem_word _) (mem_plus_one.2 ⟨by simp, ?_⟩)
  intro c hc
  simp only [List.mem_cons, List.not_mem_nil, or_false] at hc
  rcases hc with rfl | rfl | rfl <;> exact asciiDigit_digitChar (Nat.mod_lt _ (by omega))

private theorem decimalText_number (n : Nat) : decimalText n ∈ number.language := by
  rw [← List.nil_append (decimalText n)]
  refine append_mem_seq (.inl rfl) ?_
  rw [← List.append_nil (decimalText n)]
  refine append_mem_seq (.inl ?_) (.inl rfl)
  rw [← List.append_nil (decimalText n)]
  exact append_mem_seq (decimalText_digits n) (.inl rfl)

/-- A share, or what a byte is capped to, is finite. -/
theorem isFinite_normalizeAlpha (alpha : PyFloat) : (normalizeAlpha alpha).isFinite = true := by
  unfold normalizeAlpha
  split
  · next h =>
    rw [inUnit, Bool.and_eq_true] at h
    exact isFinite_of_le h.1 h.2
  · dsimp only
    split
    · rfl
    · next hbelow =>
      split
      · next habove => exact isFinite_of_lt habove (by simpa using hbelow)
      · rfl

private theorem fixedThree_number {x : PyFloat} (h : x.isFinite = true) :
    fixedThree x ∈ number.language := by
  unfold Float.Model.isFinite at h
  unfold fixedThree
  cases hx : x.unpack with
  | notANumber => rw [hx] at h; cases h
  | infinity sign => rw [hx] at h; cases h
  | zero sign => exact threeDecimals_number sign 0
  | finite sign mantissa exponent hpos => exact threeDecimals_number sign _

private theorem comma_separator : ", ".toList ∈ separator.language := by
  have hparts : ", ".toList = [] ++ ([','] ++ [' ']) := rfl
  have hcomma : [','] ∈ (one fun c ↦ c = ',' || c = '/').language := ⟨',', by decide, rfl⟩
  have hblank : [' '] ∈ (star (one isSpace)).language := mem_star_one.2 (by simp [isSpace])
  rw [hparts]
  exact .inr (append_mem_seq nil_mem_star (append_mem_seq hcomma hblank))

private theorem rgba_parts (comma r g b a : List Char) :
    "rgba(".toList ++ r ++ comma ++ g ++ comma ++ b ++ comma ++ a ++ [')'] =
      "rgb".toList ++ (['a'] ++ (['('] ++ (([] ++ (r ++ (((comma ++ g) ++ ((comma ++ b) ++
        ((comma ++ a) ++ []))) ++ []))) ++ [')']))) := by
  have hcolor : "rgba(".toList = "rgb".toList ++ (['a'] ++ ['(']) := by decide
  simp only [hcolor, List.append_assoc, List.append_nil, List.nil_append]

/-- The text of a colour with alpha is `rgba` of four numbers. -/
theorem rgbaText_inert (r g b : Nat) (alpha : PyFloat) :
    rgbaText r g b (normalizeAlpha alpha) ∈ (rgbAround numbers).language := by
  have halpha := fixedThree_number (isFinite_normalizeAlpha alpha)
  have hnext {text rest : List Char} (ht : text ∈ number.language)
      (hr : rest ∈ (star (seq separator number)).language) :
      (", ".toList ++ text) ++ rest ∈ (star (seq separator number)).language :=
    append_mem_star (append_mem_seq comma_separator ht) hr
  have hothers := hnext (decimalText_number g) (hnext (decimalText_number b)
    (hnext halpha nil_mem_star))
  have hinside := append_mem_seq (nil_mem_star (r := one isSpace))
    (append_mem_seq (decimalText_number r) (append_mem_seq hothers
      (nil_mem_star (r := one isSpace))))
  have htext := append_mem_seq (self_mem_word "rgb".toList)
    (append_mem_seq (mem_opt.2 (.inr (self_mem_word ['a'])))
      (append_mem_seq (self_mem_word ['(']) (append_mem_seq hinside (self_mem_word [')']))))
  rw [← rgba_parts] at htext
  exact htext

private theorem times_three {p : Char → Bool} {a b c : Char} (ha : p a = true) (hb : p b = true)
    (hc : p c = true) : [a, b, c] ∈ (times (one p) 3).language :=
  append_mem_seq (u := [a]) ⟨a, ha, rfl⟩ (append_mem_seq (u := [b]) ⟨b, hb, rfl⟩
    (append_mem_seq (u := [c]) ⟨c, hc, rfl⟩ rfl))

/-- A hexadecimal colour is inert. -/
theorem rgbToHex_inert (r g b : Nat) : rgbToHex [r, g, b] ∈ hexColorRe.language := by
  have hdigit (n : Nat) : hexDigit (Nat.digitChar (n % 16)) = true :=
    hexDigit_digitChar (Nat.mod_lt _ (by omega))
  have htail := append_mem_seq
    (times_three (hdigit (r / 16)) (hdigit r) (hdigit (g / 16)))
    (append_mem_seq (mem_opt.2 (.inr (times_three (hdigit g) (hdigit (b / 16)) (hdigit b))))
      (mem_opt.2 (.inl rfl) : [] ∈ (opt (times (one hexDigit) 2)).language))
  exact append_mem_seq (self_mem_word ['#']) htail

/-- What the components of a bracketed colour are converted to. -/
theorem componentsToCssColor_inert {components : List (List Char)} {out : List Char}
    (h : componentsToCssColor components = .ok (some out)) :
    (∃ r g b, out = rgbToHex [r, g, b]) ∨
      ∃ r g b alpha, out = rgbaText r g b (normalizeAlpha alpha) := by
  unfold componentsToCssColor at h
  split at h
  · obtain ⟨level, -, h⟩ := bind_eq_ok.mp h
    cases h
    exact .inl ⟨level, level, level, rfl⟩
  · obtain ⟨rgb, hrgb, h⟩ := bind_eq_ok.mp h
    cases h
    rename_i red green blue _
    have hlevels := forall₂_of_mapM_ok hrgb
    match rgb, hlevels with
    | [r, g, b], _ => exact .inl ⟨r, g, b, rfl⟩
  · obtain ⟨r, -, h⟩ := bind_eq_ok.mp h
    obtain ⟨g, -, h⟩ := bind_eq_ok.mp h
    obtain ⟨b, -, h⟩ := bind_eq_ok.mp h
    cases h
    exact .inr ⟨r, g, b, _, rfl⟩
  · cases h

/-- What a text is converted to: it is kept, or a bracketed list is written as a colour. -/
theorem sanitizeCssColor_cases {value out : List Char}
    (h : sanitizeCssColor value = .ok (some out)) :
    (out = strip value ∧ (hexColorRe.fullmatch out ∨ rgbColorRe.fullmatch out ∨
      namedColorRe.fullmatch out)) ∨
    (∃ r g b, out = rgbToHex [r, g, b]) ∨
      ∃ r g b alpha, out = rgbaText r g b (normalizeAlpha alpha) := by
  unfold sanitizeCssColor at h
  dsimp only at h
  split_ifs at h with hempty hhex hrgb hnamed
  · cases h
  · cases h
    exact .inl ⟨rfl, .inl hhex⟩
  · cases h
    exact .inl ⟨rfl, .inr (.inl hrgb)⟩
  · cases h
    exact .inl ⟨rfl, .inr (.inr hnamed)⟩
  · split at h
    · exact .inr (componentsToCssColor_inert h)
    · cases h

/-- A colour in one of the three forms is kept. -/
theorem sanitizeCssColor_self {value : List Char} (htrim : Trimmed value) (hne : value ≠ [])
    (h : hexColorRe.fullmatch value ∨ rgbColorRe.fullmatch value ∨ namedColorRe.fullmatch value) :
    sanitizeCssColor value = .ok (some value) := by
  unfold sanitizeCssColor
  dsimp only
  rw [strip_of_trimmed htrim, if_neg hne]
  split_ifs with hhex hrgb hnamed
  · rfl
  · rfl
  · rfl
  · simp [hhex, hrgb, hnamed] at h

/-- What `rgb` or `rgba` encloses. -/
theorem mem_rgbAround {content : Regex Char} {w : List Char} :
    w ∈ (rgbAround content).language ↔ ∃ alpha ∈ [[], ['a']], ∃ inside ∈ content.language,
      w = "rgb".toList ++ alpha ++ '(' :: inside ++ [')'] := by
  constructor
  · intro h
    obtain ⟨_, hrgb, _, h₁, rfl⟩ := mem_seq.1 h
    obtain ⟨alpha, halpha, _, h₂, rfl⟩ := mem_seq.1 h₁
    obtain ⟨_, hopen, _, h₃, rfl⟩ := mem_seq.1 h₂
    obtain ⟨inside, hinside, _, hclose, rfl⟩ := mem_seq.1 h₃
    rw [mem_word] at hrgb hopen hclose
    subst hrgb hopen hclose
    refine ⟨alpha, ?_, inside, hinside, by simp⟩
    simpa using halpha
  · rintro ⟨alpha, halpha, inside, hinside, rfl⟩
    have halpha : alpha ∈ (opt (word ['a'])).language := by simpa using halpha
    have h := append_mem_seq (self_mem_word "rgb".toList) (append_mem_seq halpha
      (append_mem_seq (self_mem_word ['(']) (append_mem_seq hinside (self_mem_word [')']))))
    simpa [rgbAround] using h

/-- `rgb` of numbers is a colour of the pattern. -/
theorem rgbColor_of_numbers {w : List Char} (h : w ∈ (rgbAround numbers).language) :
    w ∈ rgbColorRe.language := by
  obtain ⟨alpha, halpha, inside, hinside, rfl⟩ := mem_rgbAround.1 h
  have hclosed : ')' ∉ inside := not_mem_of_avoids (by decide) hinside
  have hne : inside ≠ [] := by
    rintro rfl
    exact absurd (nullable_iff.2 hinside) (by decide)
  apply mem_rgbAround.2
  refine ⟨alpha, halpha, inside, mem_plus_one.2 ⟨hne, ?_⟩, rfl⟩
  intro c hc
  have hother : c ≠ ')' := by
    rintro rfl
    exact hclosed hc
  simpa using hother

/-! ### The characters of a conversion -/

/-- A character of ASCII without a capital letter, not a semicolon. -/
def plain (c : Char) : Bool := c.toNat < 128 && c.toLower = c && c ≠ ';'

private theorem plain_digitChar {n : Nat} (hn : n < 16) : plain (Nat.digitChar n) = true :=
  digitChar_cases (p := fun c ↦ plain c = true) (by decide) hn

private theorem plain_of_isDigit {c : Char} (h : c.isDigit = true) : plain c = true := by
  have hbounds : 48 ≤ c.toNat ∧ c.toNat ≤ 57 := by
    simpa [Char.isDigit, UInt32.le_iff_toNat_le] using h
  have hsemi : c ≠ ';' := by
    rintro rfl
    exact absurd hbounds (by decide)
  have hlower : c.toLower = c := by
    unfold Char.toLower
    rw [dif_neg]
    intro hcap
    have hcap : 65 ≤ c.toNat := by simpa [UInt32.le_iff_toNat_le] using hcap.1
    omega
  have hascii : c.toNat < 128 := by omega
  simp [plain, hsemi, hlower, hascii]

/-- A hexadecimal colour has plain characters. -/
theorem plain_rgbToHex (r g b : Nat) : (rgbToHex [r, g, b]).all plain = true := by
  have hdigit (n : Nat) : plain (Nat.digitChar (n % 16)) = true :=
    plain_digitChar (Nat.mod_lt _ (by omega))
  have hsharp : plain '#' = true := by decide
  simp [rgbToHex, hexByte, hdigit, hsharp]

private theorem plain_decimalText (n : Nat) : (decimalText n).all plain = true := by
  apply List.all_eq_true.2
  intro c hc
  exact plain_of_isDigit (Nat.isDigit_of_mem_toDigits (by omega) (by omega) hc)

private theorem plain_threeDecimals (magnitude : ℚ) :
    (threeDecimals magnitude).all plain = true := by
  have hdigit (n : Nat) : plain (Nat.digitChar (n % 10)) = true :=
    plain_digitChar (Nat.lt_trans (Nat.mod_lt _ (by omega)) (by omega))
  have hpoint : plain '.' = true := by decide
  simp [threeDecimals, plain_decimalText, hdigit, hpoint]

private theorem plain_fixedThree (x : PyFloat) : (fixedThree x).all plain = true := by
  have hsign (sign : Float.Model.UnpackedFloat.Sign) : (signText sign).all plain = true := by
    cases sign <;> decide
  unfold fixedThree
  split
  · decide
  · rw [List.all_append, hsign]; decide
  · rw [List.all_append, hsign, plain_threeDecimals]; rfl
  · rw [List.all_append, hsign, plain_threeDecimals]; rfl

private theorem rgbaText_eq (r g b : Nat) (alpha : PyFloat) :
    rgbaText r g b alpha = ['r', 'g', 'b', 'a', '('] ++ decimalText r ++ [',', ' '] ++
      decimalText g ++ [',', ' '] ++ decimalText b ++ [',', ' '] ++ fixedThree alpha ++ [')'] := by
  have hfront : "rgba(".toList = ['r', 'g', 'b', 'a', '('] := rfl
  have hcomma : ", ".toList = [',', ' '] := rfl
  unfold rgbaText
  rw [hfront]
  rw [hcomma]

/-- An `rgba` colour has plain characters. -/
theorem plain_rgbaText (r g b : Nat) (alpha : PyFloat) :
    (rgbaText r g b alpha).all plain = true := by
  have hfront : ['r', 'g', 'b', 'a', '('].all plain = true := by decide
  have hcomma : [',', ' '].all plain = true := by decide
  have hclose : [')'].all plain = true := by decide
  rw [rgbaText_eq]
  simp only [List.all_append, plain_decimalText, plain_fixedThree, hfront, hcomma, hclose,
    Bool.and_self]

/-- A hexadecimal colour is trimmed. -/
theorem trimmed_rgbToHex (r g b : Nat) : Trimmed (rgbToHex [r, g, b]) := by
  have hdigit : isSpace (Nat.digitChar (b % 16)) = false :=
    digitChar_cases (p := fun c ↦ isSpace c = false) (by decide) (Nat.mod_lt _ (by omega))
  have hsharp : isSpace '#' = false := by decide
  refine ⟨?_, ?_⟩
  · simpa [rgbToHex] using hsharp
  · simpa [rgbToHex, hexByte] using hdigit

/-- An `rgba` colour is trimmed. -/
theorem trimmed_rgbaText (r g b : Nat) (alpha : PyFloat) : Trimmed (rgbaText r g b alpha) := by
  have hfirst : isSpace 'r' = false := by decide
  have hlast : isSpace ')' = false := by decide
  refine ⟨?_, ?_⟩
  · simpa [rgbaText_eq] using hfirst
  · rw [rgbaText_eq, List.getLast?_append]
    simpa using hlast

/-! ### What a conversion raises -/

private theorem normalizeColorComponent_error_iff {value : PyFloat} :
    (∃ e, normalizeColorComponent value = .error e) ↔ value.isFinite = false := by
  have hround : (∃ e, normalizeColorComponent value = .error e) ↔
      ∃ e, roundFloat (if inUnit value then value * .ofNat 255 else value) = .error e := by
    simp only [normalizeColorComponent, bind_eq_error]
    constructor
    · rintro ⟨e, h | ⟨rounded, -, h⟩⟩
      · exact ⟨e, h⟩
      · cases h
    · rintro ⟨e, h⟩
      exact ⟨e, .inl h⟩
  rw [hround, roundFloat_error_iff]
  split
  · next h =>
    rw [inUnit, Bool.and_eq_true] at h
    rw [isFinite_mul_byte h.1 h.2, isFinite_of_le h.1 h.2]
  · rfl

private theorem normalizeColorComponent_cases (value : PyFloat) :
    (∃ level, normalizeColorComponent value = .ok level ∧ value.isFinite = true) ∨
      ∃ e, normalizeColorComponent value = .error e ∧ value.isFinite = false := by
  have herror : (∃ e, normalizeColorComponent value = .error e) ↔ value.isFinite = false :=
    normalizeColorComponent_error_iff
  cases h : normalizeColorComponent value with
  | ok level =>
    refine .inl ⟨level, rfl, ?_⟩
    by_contra hfinite
    obtain ⟨e, he⟩ := herror.2 (by simpa using hfinite)
    rw [h] at he
    cases he
  | error e => exact .inr ⟨e, rfl, herror.1 ⟨e, h⟩⟩

/-- Numbers that write a colour, with a level that is infinite or no number. -/
def UnboundedLevels (components : List (List Char)) : Prop :=
  ∃ levels, components.mapM floatOfText = some levels ∧ levels.length ∈ [1, 3, 4] ∧
    ∃ level ∈ levels.take 3, level.isFinite = false

private theorem componentsToCssColor_error_iff {components : List (List Char)} :
    (∃ e, componentsToCssColor components = .error e) ↔ UnboundedLevels components := by
  unfold componentsToCssColor UnboundedLevels
  cases hlevels : components.mapM floatOfText with
  | none => simp [pure, Except.pure]
  | some levels =>
    simp only [Option.some.injEq, exists_eq_left']
    match levels with
    | [] => simp [pure, Except.pure]
    | [gray] =>
      rcases normalizeColorComponent_cases gray with ⟨level, h, hfinite⟩ | ⟨e, h, hfinite⟩ <;>
        simp [h, hfinite, bind, Except.bind, pure, Except.pure]
    | [_, _] => simp [pure, Except.pure]
    | [red, green, blue] =>
      rcases normalizeColorComponent_cases red with ⟨r, hr, hred⟩ | ⟨e, hr, hred⟩ <;>
        rcases normalizeColorComponent_cases green with ⟨g, hg, hgreen⟩ | ⟨e', hg, hgreen⟩ <;>
        rcases normalizeColorComponent_cases blue with ⟨b, hb, hblue⟩ | ⟨e'', hb, hblue⟩ <;>
        simp [hr, hg, hb, hred, hgreen, hblue, bind, Except.bind, pure, Except.pure]
    | [red, green, blue, alpha] =>
      rcases normalizeColorComponent_cases red with ⟨r, hr, hred⟩ | ⟨e, hr, hred⟩ <;>
        rcases normalizeColorComponent_cases green with ⟨g, hg, hgreen⟩ | ⟨e', hg, hgreen⟩ <;>
        rcases normalizeColorComponent_cases blue with ⟨b, hb, hblue⟩ | ⟨e'', hb, hblue⟩ <;>
        simp [hr, hg, hb, hred, hgreen, hblue, bind, Except.bind, pure, Except.pure]
    | _ :: _ :: _ :: _ :: _ :: _ => simp [pure, Except.pure]

/-- The colours on which the conversion raises. -/
def UnboundedColor (value : List Char) : Prop :=
  ∃ inside, bracketedNumber value = some inside ∧ UnboundedLevels (colorComponents inside)

private theorem no_match_of_bracket {value inside : List Char}
    (h : bracketedNumber value = some inside) :
    value ≠ [] ∧ hexColorRe.fullmatch value = false ∧ rgbColorRe.fullmatch value = false ∧
      namedColorRe.fullmatch value = false := by
  cases value with
  | nil => cases h
  | cons c rest =>
    have hc : c = '[' := by
      by_contra hc
      unfold bracketedNumber at h
      split at h
      · next heq => exact hc (List.cons.inj heq).1
      · cases h
    subst hc
    refine ⟨by simp, ?_, ?_, ?_⟩
    · by_contra hhex
      have hmem := fullmatch_iff.1 (by simpa using hhex)
      exact not_mem_of_avoids (by decide) hmem List.mem_cons_self
    · by_contra hrgb
      rw [Bool.not_eq_false, fullmatch_iff] at hrgb
      obtain ⟨alpha, _, inside, _, heq⟩ := mem_rgbAround.1 hrgb
      have hfirst := congrArg List.head? heq
      simp at hfirst
    · by_contra hnamed
      have hmem := fullmatch_iff.1 (by simpa using hnamed)
      exact not_mem_of_avoids (by decide) hmem List.mem_cons_self

/-- The converter raises exactly when a bracketed level is infinite or no number. -/
theorem sanitizeCssColor_error_iff {value : List Char} :
    (∃ e, sanitizeCssColor value = .error e) ↔ UnboundedColor (strip value) := by
  unfold sanitizeCssColor UnboundedColor
  cases hinside : bracketedNumber (strip value) with
  | none =>
    dsimp only
    split_ifs <;> simp [hinside, pure, Except.pure]
  | some inside =>
    obtain ⟨hne, hhex, hrgb, hnamed⟩ := no_match_of_bracket hinside
    simp only [hne, hhex, hrgb, hnamed, if_false, Option.some.injEq, exists_eq_left',
      Bool.false_eq_true, hinside]
    exact componentsToCssColor_error_iff

end Shape

end Jobtology.Documents
