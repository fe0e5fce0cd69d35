import Jobtology.Base.Fallible
import Jobtology.Base.Text
import Mathlib.Algebra.Order.Floor.Ring
import Mathlib.Data.Rat.Floor

/-!
# Numbers and their texts

Library for `int`, `float` and `round`, and for the formats of numbers. A `float` is the binary64
number of Lean's own model.
-/

namespace Jobtology.Base

/-! ## Digits -/

/-- The zeros of the decimal digits of Unicode: each has the nine other digits after it. -/
def decimalZeros : List Nat :=
  [0x30, 0x660, 0x6f0, 0x7c0, 0x966, 0x9e6, 0xa66, 0xae6, 0xb66, 0xbe6, 0xc66, 0xce6, 0xd66,
    0xde6, 0xe50, 0xed0, 0xf20, 0x1040, 0x1090, 0x17e0, 0x1810, 0x1946, 0x19d0, 0x1a80, 0x1a90,
    0x1b50, 0x1bb0, 0x1c40, 0x1c50, 0xa620, 0xa8d0, 0xa900, 0xa9d0, 0xa9f0, 0xaa50, 0xabf0,
    0xff10, 0x104a0, 0x10d30, 0x11066, 0x110f0, 0x11136, 0x111d0, 0x112f0, 0x11450, 0x114d0,
    0x11650, 0x116c0, 0x11730, 0x118e0, 0x11950, 0x11c50, 0x11d50, 0x11da0, 0x11f50, 0x16a60,
    0x16ac0, 0x16b50, 0x1d7ce, 0x1d7d8, 0x1d7e2, 0x1d7ec, 0x1d7f6, 0x1e140, 0x1e2f0, 0x1e4f0,
    0x1e950, 0x1fbf0]

/-- The value of a decimal digit, the `\d` of a pattern. -/
def decimalDigit (c : Char) : Option Nat :=
  (decimalZeros.find? fun z ↦ z ≤ c.toNat ∧ c.toNat < z + 10).map (c.toNat - ·)

/-- `int` of digits. -/
def decimalValue (cs : List Char) : Nat :=
  cs.foldl (fun value c ↦ value * 10 + (decimalDigit c).getD 0) 0

/-- The characters that are digits without being decimal digits: superscripts, circled digits. -/
def otherDigits : List (Nat × Nat) :=
  [(0xb2, 0xb3), (0xb9, 0xb9), (0x1369, 0x1371), (0x19da, 0x19da), (0x2070, 0x2070),
    (0x2074, 0x2079), (0x2080, 0x2089), (0x2460, 0x2468), (0x2474, 0x247c), (0x2488, 0x2490),
    (0x24ea, 0x24ea), (0x24f5, 0x24fd), (0x24ff, 0x24ff), (0x2776, 0x277e), (0x2780, 0x2788),
    (0x278a, 0x2792), (0x10a40, 0x10a43), (0x10e60, 0x10e68), (0x11052, 0x1105a),
    (0x1f100, 0x1f10a)]

/-- `str.isdigit` of one character. -/
def isDigit (c : Char) : Bool :=
  (decimalDigit c).isSome || otherDigits.any fun r ↦ r.1 ≤ c.toNat && c.toNat ≤ r.2

/-- The longest text of digits that `int` reads. -/
def maxStrDigits : Nat := 4300

/-- What the readers and the roundings of numbers raise. -/
inductive NumberError
  | valueError
  | overflowError
  deriving DecidableEq

/-- `int` of a text without signs, blanks and underscores. -/
def intOfDigits (cs : List Char) : Except NumberError Nat :=
  if cs ≠ [] ∧ cs.all (fun c ↦ (decimalDigit c).isSome) ∧ cs.length ≤ maxStrDigits then
    .ok (decimalValue cs)
  else .error .valueError

/-- What is no text of a few decimal digits is no number. -/
theorem intOfDigits_error_iff {cs : List Char} :
    (∃ e, intOfDigits cs = .error e) ↔
      ¬(cs ≠ [] ∧ cs.all (fun c ↦ (decimalDigit c).isSome) ∧ cs.length ≤ maxStrDigits) := by
  unfold intOfDigits
  split_ifs with h
  · refine iff_of_false ?_ (not_not.mpr h)
    rintro ⟨e, he⟩
    cases he
  · exact iff_of_true ⟨_, rfl⟩ h

/-! ## Floats -/

/-- `float`. -/
abbrev PyFloat := Float.Model

/-- What is left of a run of digits, with single underscores between them. -/
def digitRun : List Char → List Nat × List Char
  | '_' :: c :: cs =>
    match decimalDigit c with
    | some d => (d :: (digitRun cs).1, (digitRun cs).2)
    | none => ([], '_' :: c :: cs)
  | c :: cs =>
    match decimalDigit c with
    | some d => (d :: (digitRun cs).1, (digitRun cs).2)
    | none => ([], c :: cs)
  | [] => ([], [])

/-- The digits at the front, with single underscores between them, and the text after them. -/
def digitPart : List Char → Option (List Nat × List Char)
  | c :: cs => (decimalDigit c).map fun d ↦ (d :: (digitRun cs).1, (digitRun cs).2)
  | [] => none

/-- The digits before and after the point, and the text after them. -/
def pointNumber (cs : List Char) : Option (List Nat × List Nat × List Char) :=
  match digitPart cs, cs with
  | some (whole, '.' :: rest), _ =>
    match digitPart rest with
    | some (fraction, rest) => some (whole, fraction, rest)
    | none => some (whole, [], rest)
  | some (whole, rest), _ => some (whole, [], rest)
  | none, '.' :: rest => (digitPart rest).map fun (fraction, rest) ↦ ([], fraction, rest)
  | none, _ => none

/-- A sign at the front: whether it is a minus, and the text after it. -/
def takeSign : List Char → Bool × List Char
  | '+' :: cs => (false, cs)
  | '-' :: cs => (true, cs)
  | cs => (false, cs)

/-- The number that digits write. -/
def digitsValue (ds : List Nat) : Nat := ds.foldl (fun value d ↦ value * 10 + d) 0

/-- The exponent at the end. -/
def exponentPart : List Char → Option Int
  | [] => some 0
  | c :: cs =>
    if c = 'e' ∨ c = 'E' then
      match takeSign cs with
      | (negative, cs) =>
        match digitPart cs with
        | some (ds, []) => some (if negative then -(digitsValue ds : Int) else digitsValue ds)
        | _ => none
    else none

/-- `float` of a text: the nearest binary64 number. -/
def floatOfText (text : List Char) : Option PyFloat :=
  let (negative, cs) := takeSign (strip text)
  let signed (x : PyFloat) : PyFloat := if negative then -x else x
  if cs.map Char.toLower ∈ ["inf".toList, "infinity".toList] then
    some (signed (.pack (.infinity .positive)))
  else if cs.map Char.toLower = "nan".toList then some (.pack .notANumber)
  else
    match pointNumber cs with
    | none => none
    | some (whole, fraction, rest) => (exponentPart rest).map fun exponent ↦
        signed (.ofScientific (digitsValue (whole ++ fraction)) (exponent - fraction.length))

/-! ## Rounding -/

/-- `round` of a quotient, halves to the even side. -/
def roundHalfEven (x : ℚ) : Int :=
  let below := ⌊x⌋
  if x - below < 1 / 2 then below
  else if 1 / 2 < x - below then below + 1
  else if below % 2 = 0 then below else below + 1

/-- The exact value of a finite number. -/
def exactValue : Float.Model.UnpackedFloat → ℚ
  | .finite .positive mantissa exponent _ => mantissa * 2 ^ exponent
  | .finite .negative mantissa exponent _ => -(mantissa * 2 ^ exponent)
  | _ => 0

/-- `round` of a float. -/
def roundFloat (x : PyFloat) : Except NumberError Int :=
  match x.unpack with
  | .notANumber => .error .valueError
  | .infinity _ => .error .overflowError
  | finite => .ok (roundHalfEven (exactValue finite))

/-! ## Formats -/

/-- The decimal digits of a number. -/
def decimalText (n : Nat) : List Char := Nat.toDigits 10 n

/-- The format `02x` of a number below 256. -/
def hexByte (n : Nat) : List Char := [Nat.digitChar (n / 16 % 16), Nat.digitChar (n % 16)]

/-- The sign of a number, shown when it is negative. -/
def signText : Float.Model.UnpackedFloat.Sign → List Char
  | .positive => []
  | .negative => ['-']

/-- The format `.3f` of a magnitude. -/
def threeDecimals (magnitude : ℚ) : List Char :=
  let thousandths := (roundHalfEven (magnitude * 1000)).toNat
  decimalText (thousandths / 1000) ++ '.' :: [Nat.digitChar (thousandths / 100 % 10),
    Nat.digitChar (thousandths / 10 % 10), Nat.digitChar (thousandths % 10)]

/-- The format `.3f` of a float. -/
def fixedThree (x : PyFloat) : List Char :=
  match x.unpack with
  | .notANumber => "nan".toList
  | .infinity sign => signText sign ++ "inf".toList
  | .zero sign => signText sign ++ threeDecimals 0
  | .finite sign mantissa exponent _ => signText sign ++ threeDecimals (mantissa * 2 ^ exponent)

end Jobtology.Base
