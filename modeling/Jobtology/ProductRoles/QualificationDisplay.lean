import Jobtology.Base.Dictionary
import Jobtology.Base.Numerals
import Jobtology.Base.Text
import Mathlib.Data.List.Sort
import Mathlib.Data.Prod.Lex
import Mathlib.Data.String.Basic

/-!
# Qualification labels

`qualification_display.py`: readable labels of qualifications. Of the versions of a work-learning
standard only the newest is shown.
-/

namespace Jobtology.ProductRoles

open Jobtology.Base

/-- `QualificationKind`. -/
inductive QualificationKind
  | nationalTechnical
  | workLearning
  deriving DecidableEq

/-- `RequirementQualification`. -/
structure RequirementQualification where
  code : String
  name : Option String
  displayName : String
  kind : Option QualificationKind
  deriving DecidableEq

/-- `\d+` at the front, with the value and the text after it. -/
def takeDigits (cs : List Char) : Option (Nat × List Char) :=
  let digits := cs.takeWhile fun c ↦ (decimalDigit c).isSome
  if digits = [] then none else some (decimalValue digits, cs.drop digits.length)

/-- The version of a work-learning standard: `25V2`, or `ver2.0` before 2020. -/
inductive StandardVersion
  | year (year number : Nat)
  | legacy (major minor : Nat)
  deriving DecidableEq

/-- `\d{2}V\d+|ver\d+(?:\.\d+)?`, up to the end. -/
def matchVersion : List Char → Option StandardVersion
  | 'v' :: 'e' :: 'r' :: rest => do
    let (major, rest) ← takeDigits rest
    match rest with
    | [] => return .legacy major 0
    | '.' :: rest => do
      let (minor, rest) ← takeDigits rest
      if rest = [] then return .legacy major minor else none
    | _ => none
  | a :: b :: 'V' :: rest => do
    let (number, rest) ← takeDigits rest
    if (decimalDigit a).isSome ∧ (decimalDigit b).isSome ∧ rest = [] then
      return .year (decimalValue [a, b]) number
    else none
  | _ => none

/-- `_L(\d+)_(version)`, up to the end. -/
def matchLevel : List Char → Option (Nat × StandardVersion)
  | '_' :: 'L' :: rest => do
    let (level, rest) ← takeDigits rest
    match rest with
    | '_' :: rest => do
      let version ← matchVersion rest
      return (level, version)
    | _ => none
  | _ => none

/-- A match of `_WORK_LEARNING`. -/
structure WorkLearning where
  family : List Char
  level : Nat
  version : StandardVersion

/-- `.+?` in front of the level: the shortest family that has at least one character. -/
def matchFamily (family : List Char) : List Char → Option WorkLearning
  | [] => none
  | c :: rest =>
    if c = '\n' then none
    else match matchLevel rest with
      | some (level, version) => some ⟨family ++ [c], level, version⟩
      | none => matchFamily (family ++ [c]) rest

/-- `_WORK_LEARNING.fullmatch` of a name. -/
def workLearning (name : String) : Option WorkLearning := matchFamily [] (strip name.toList)

/-- `describe_qualification`. `src/jobtology_be/product_roles/qualification_display.py:22–32`. -/
def describeQualification (code : String) (name : Option String) : RequirementQualification :=
  match name with
  | none => ⟨code, name, code, none⟩
  | some text =>
    if strip text.toList = [] then ⟨code, name, code, none⟩
    else match workLearning text with
      | none => ⟨code, name, String.ofList (strip text.toList), some .nationalTechnical⟩
      | some found => ⟨code, name,
          String.ofList (strip found.family) ++ " " ++ toString found.level ++ "수준",
          some .workLearning⟩

/-- `_version_rank`. `src/jobtology_be/product_roles/qualification_display.py:35–42`. -/
def versionRank (name : Option String) : Int ×ₗ Nat ×ₗ Nat :=
  match workLearning (name.getD "") with
  | none => toLex (-1, toLex (0, 0))
  | some found => match found.version with
    | .year year number => toLex (1, toLex (year, number))
    | .legacy major minor => toLex (0, toLex (major, minor))

/-- `_KIND_ORDER`. -/
def kindOrder : Option QualificationKind → Nat
  | some .nationalTechnical => 0
  | some .workLearning => 1
  | none => 2

/-- A label under consideration: the standard it belongs to, its version and the item. -/
structure LabelCandidate where
  key : String × String
  rank : Int ×ₗ Nat ×ₗ Nat
  item : RequirementQualification

/-- The label of a qualification. -/
def labelCandidate (pair : String × Option String) : LabelCandidate :=
  let item := describeQualification pair.1 pair.2
  { key := if item.kind ≠ some .workLearning then (item.displayName, pair.1)
      else (item.displayName, "")
    rank := versionRank pair.2
    item := item }

/-- Keep the newer of two labels of one standard. -/
def addLabel (latest : List ((String × String) × LabelCandidate)) (candidate : LabelCandidate) :
    List ((String × String) × LabelCandidate) :=
  match lookupLast (·.1) latest candidate.key with
  | none => setEntry candidate.key candidate latest
  | some (_, current) =>
    if toLex (current.rank, current.item.code) < toLex (candidate.rank, candidate.item.code) then
      setEntry candidate.key candidate latest
    else latest

/-- The order of labels. -/
def labelOrder (a b : RequirementQualification) : Prop :=
  toLex (kindOrder a.kind, toLex (a.displayName, a.code)) ≤
    toLex (kindOrder b.kind, toLex (b.displayName, b.code))

instance : DecidableRel labelOrder := fun _ _ ↦ inferInstanceAs (Decidable (_ ≤ _))

/-- `display_qualifications`. `src/jobtology_be/product_roles/qualification_display.py:45–58`. -/
def displayQualifications (pairs : List (String × Option String)) :
    List RequirementQualification :=
  let latest := ((dictOf (·.1) pairs).map labelCandidate).foldl addLabel []
  (latest.map (·.2.item)).insertionSort labelOrder

end Jobtology.ProductRoles
