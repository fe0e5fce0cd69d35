import Jobtology.Resume.Suggestions

/-!
# Suggestions of the language model

`resume/extraction.py`, `validated_entries`, and `resume/matching.py`, `validated_ai_picks`: what is
kept of the untrusted output of the model.
-/

namespace Jobtology.Resume

open Jobtology.Base

/-! ## Validation of JSON values -/

/-- `str` with a length in bounds. -/
abbrev BoundedText (least most : Nat) :=
  {text : List Char // least ≤ text.length ∧ text.length ≤ most}

/-- `tuple` with a length in bounds. -/
abbrev BoundedList (α : Type) (least most : Nat) :=
  {items : List α // least ≤ items.length ∧ items.length ≤ most}

/-- A text in bounds. -/
def readText (least most : Nat) : Json → Option (BoundedText least most)
  | .str s =>
    if h : least ≤ s.toList.length ∧ s.toList.length ≤ most then some ⟨s.toList, h⟩ else none
  | _ => none

/-- An array in bounds. -/
def readList {α : Type} (least most : Nat) (read : Json → Option α) :
    Json → Option (BoundedList α least most)
  | .arr values => do
    let items ← values.mapM read
    if h : least ≤ items.length ∧ items.length ≤ most then some ⟨items, h⟩ else none
  | _ => none

/-- A text of any length. -/
def readString : Json → Option String
  | .str s => some s
  | _ => none

/-- `StrictInt` that is not negative. -/
def readIndex : Json → Option Nat
  | .int n => if 0 ≤ n then some n.toNat else none
  | _ => none

/-- One of the texts of a `Literal`. -/
def readLiteral {α : Type} (values : List α) (text : α → String) : Json → Option α
  | .str s => values.find? (text · = s)
  | _ => none

/-- The members of an object without other keys. -/
def readObject (names : List String) : Json → Option (String → Option Json)
  | .obj members =>
    if ∀ m ∈ members, m.1 ∈ names then
      some fun name ↦ (lookupLast (·.1) members name).map (·.2)
    else none
  | _ => none

/-! ## Entries -/

/-- `_Field`. `src/jobtology_be/resume/extraction.py:39–42`. -/
structure Field where
  name : ResumeFieldName
  value : BoundedText 1 500

/-- `_Entry`. `src/jobtology_be/resume/extraction.py:45–52`. -/
structure Entry where
  title : BoundedText 1 200
  category : SpecCategory
  quote : BoundedText 1 1800
  occurrenceIndex : Nat
  competencyIds : BoundedList String 0 12
  fields : BoundedList Field 0 15

/-- `_Field.model_validate`. -/
def readField (value : Json) : Option Field := do
  let member ← readObject ["name", "value"] value
  let name ← member "name" >>= readLiteral ResumeFieldName.all ResumeFieldName.text
  let text ← member "value" >>= readText 1 500
  return ⟨name, text⟩

/-- `_Entry.model_validate`. -/
def readEntry (value : Json) : Option Entry := do
  let member ← readObject
    ["title", "category", "quote", "occurrence_index", "competency_ids", "fields"] value
  let title ← member "title" >>= readText 1 200
  let category ← member "category" >>= readLiteral SpecCategory.all SpecCategory.text
  let quote ← member "quote" >>= readText 1 1800
  let occurrenceIndex ← member "occurrence_index" >>= readIndex
  let competencyIds ← member "competency_ids" >>= readList 0 12 readString
  let fields ← member "fields" >>= readList 0 15 readField
  return ⟨title, category, quote, occurrenceIndex, competencyIds, fields⟩

/-- What an entry is known by. -/
structure Identity where
  category : SpecCategory
  start : Nat
  quote : List Char
  competencyIds : List String
  deriving DecidableEq

/-- `ParagraphExtraction` of a paragraph whose model answered.
`src/jobtology_be/resume/extraction.py:55–59`. -/
structure ParagraphExtraction where
  blockId : List Char
  suggestions : List ResumeSuggestion
  rejectedCount : Nat
  invalidResponse : Bool := false

/-- The state of the loop over the entries. -/
structure EntryLoop where
  found : List ResumeSuggestion
  seen : List Identity
  rejected : Nat

/-- The pass of the loop over one field: the fields that are kept, and how many are not. -/
def keepField (quote : List Char) (state : List (ResumeFieldName × List Char) × Nat)
    (field : Field) : List (ResumeFieldName × List Char) × Nat :=
  if strip field.value.1 = [] ∨ field.name ∈ state.1.map (·.1) ∨ ¬ field.value.1 <:+: quote then
    (state.1, state.2 + 1)
  else (state.1 ++ [(field.name, field.value.1)], state.2)

/-- The loop over the fields of an entry. -/
def keepFields (quote : List Char) (fields : List Field) :
    List (ResumeFieldName × List Char) × Nat :=
  fields.foldl (keepField quote) ([], 0)

/-- The competencies that an entry counts for. -/
def creditedIds (category : SpecCategory) (ids : List String) : List String :=
  if category ∈ [.education, .other] then [] else ids

/-- `sorted` of identities. -/
def sortedIds (ids : List String) : List String := ids.mergeSort (· ≤ ·)

section Entries

/- The first digits of the SHA-256 fingerprint of an identity. -/
variable (digest : Identity → List Char) (block : ResumeBlock) (items : List SkillItem)

/-- The pass of the loop over an entry that is well formed. -/
def keepEntry (state : EntryLoop) (entry : Entry) : Except SuggestionError EntryLoop :=
  let rejected : EntryLoop := { state with rejected := state.rejected + 1 }
  if strip entry.title.1 = [] ∨ strip entry.quote.1 = [] then return rejected
  else match (occurrences entry.quote.1 block.text)[entry.occurrenceIndex]? with
    | none => return rejected
    | some start =>
      if (∃ key ∈ entry.competencyIds.1, key ∉ items.map (·.entityId)) ∨
          ¬ entry.competencyIds.1.Nodup then return rejected
      else do
        let (fields, rejectedFields) := keepFields entry.quote.1 entry.fields.1
        let ids := creditedIds entry.category entry.competencyIds.1
        let identity : Identity := ⟨entry.category, start, entry.quote.1, sortedIds ids⟩
        let state := { state with rejected := state.rejected + rejectedFields }
        if identity ∈ state.seen then return state
        else do
          let competencies ← ids.mapM (competencyOf items)
          let suggestion ← resumeSuggestion
            ("ai-".toList ++ block.blockId ++ '-' :: digest identity) entry.category entry.title.1
            competencies block.blockId entry.quote.1 start (start + entry.quote.1.length)
            .aiAssisted fields
          return { state with
            found := state.found ++ [suggestion]
            seen := state.seen ++ [identity] }

/-- The pass of the loop over one value. -/
def readValue (state : EntryLoop) (value : Json) : Except SuggestionError EntryLoop :=
  match readEntry value with
  | none => return { state with rejected := state.rejected + 1 }
  | some entry => keepEntry digest block items state entry

/-- `validated_entries`. `src/jobtology_be/resume/extraction.py:80–120`. -/
def validatedEntries : Json → Except SuggestionError ParagraphExtraction
  | .arr raw => do
    let state ← (raw.take 5).foldlM (readValue digest block items) ⟨[], [], raw.length - 5⟩
    return ⟨block.blockId, state.found, state.rejected, false⟩
  | _ => return ⟨block.blockId, [], 0, true⟩

end Entries

/-! ## Picks -/

/-- `AiPick`. `src/jobtology_be/resume/models.py:72–85`. -/
structure AiPick where
  title : BoundedText 1 500
  category : SpecCategory
  competencyIds : BoundedList String 1 12
  quote : BoundedText 1 2000
  start : Nat
  stop : Nat
  stop_pos : 0 < stop
  span : (stop : Int) - start = quote.1.length

/-- `AiPick.model_validate`. -/
def readPick (value : Json) : Option AiPick := do
  let member ← readObject ["title", "category", "competency_ids", "quote", "start", "end"] value
  let title ← member "title" >>= readText 1 500
  let category ← member "category" >>= readLiteral SpecCategory.all SpecCategory.text
  let competencyIds ← member "competency_ids" >>= readList 1 12 readString
  let quote ← member "quote" >>= readText 1 2000
  let start ← member "start" >>= readIndex
  let stop ← member "end" >>= readIndex
  if h : 0 < stop ∧ (stop : Int) - start = quote.1.length then
    return ⟨title, category, competencyIds, quote, start, stop, h.1, h.2⟩
  else none

/-- What a pick is known by. -/
structure PickIdentity where
  start : Nat
  stop : Nat
  competencyIds : List String
  deriving DecidableEq

/-- `ResumeInterpretResponse`. `src/jobtology_be/resume/models.py:88–90`. -/
structure ResumeInterpretResponse where
  suggestions : List ResumeSuggestion
  rejectedCount : Nat

/-- The state of the loop over the picks. -/
structure PickLoop where
  found : List ResumeSuggestion
  seen : List PickIdentity
  rejected : Nat

section Picks

variable (text : List Char) (items : List SkillItem)

/-- The pass of the loop over a pick that is well formed. -/
def keepPick (state : PickLoop) (pick : AiPick) : Except SuggestionError PickLoop :=
  let identity : PickIdentity := ⟨pick.start, pick.stop, sortedIds pick.competencyIds.1⟩
  if slice pick.start pick.stop text ≠ pick.quote.1 ∨
      (∃ key ∈ pick.competencyIds.1, key ∉ items.map (·.entityId)) ∨
      ¬ pick.competencyIds.1.Nodup then
    return { state with rejected := state.rejected + 1 }
  else if identity ∈ state.seen then return state
  else do
    let competencies ← pick.competencyIds.1.mapM (competencyOf items)
    let suggestion ← resumeSuggestion ("ai-".toList ++ Nat.toDigits 10 state.found.length)
      pick.category pick.title.1 competencies "selected".toList pick.quote.1 pick.start pick.stop
      .aiAssisted []
    return { state with
      found := state.found ++ [suggestion]
      seen := state.seen ++ [identity] }

/-- The pass of the loop over one value. -/
def readPickValue (state : PickLoop) (value : Json) : Except SuggestionError PickLoop :=
  match readPick value with
  | none => return { state with rejected := state.rejected + 1 }
  | some pick => keepPick text items state pick

/-- `validated_ai_picks`. `src/jobtology_be/resume/matching.py:77–104`. -/
def validatedAiPicks : Json → Except SuggestionError ResumeInterpretResponse
  | .arr raw => do
    let state ← (raw.take 20).foldlM (readPickValue text items) ⟨[], [], 0⟩
    return ⟨state.found.take 5, state.rejected⟩
  | _ => return ⟨[], 1⟩

end Picks

end Jobtology.Resume
