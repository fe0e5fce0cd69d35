import Jobtology.Base.Json
import Jobtology.Base.Occurrences
import Jobtology.Base.Regex
import Jobtology.Base.Text
import Jobtology.Resume.SafeCss

/-!
# Suggestions and their confirmation

The contracts of `resume/models.py` and of `application/specs.py` that a suggestion passes: document
blocks, offered competencies, suggestions, and the evidence and details of a confirmed spec. Texts
are lists of characters; members of the details that a confirmation leaves at their defaults are
left out.
-/

namespace Jobtology.Resume

open Jobtology.Base

/-- `SpecCategory`. -/
inductive SpecCategory
  | skill
  | certification
  | test
  | project
  | experience
  | education
  | other
  deriving DecidableEq

/-- The texts of the categories. -/
def SpecCategory.text : SpecCategory → String
  | skill => "skill"
  | certification => "certification"
  | test => "test"
  | project => "project"
  | experience => "experience"
  | education => "education"
  | other => "other"

/-- All categories. -/
def SpecCategory.all : List SpecCategory :=
  [skill, certification, test, project, experience, education, other]

/-- `ResumeFieldName`. -/
inductive ResumeFieldName
  | school
  | degree
  | major
  | organization
  | role
  | startedOn
  | endedOn
  | issuer
  | credentialCode
  | issuedOn
  | expiresOn
  | score
  | scoreMax
  | scoreUnit
  | url
  deriving DecidableEq

/-- The texts of the names. -/
def ResumeFieldName.text : ResumeFieldName → String
  | school => "school"
  | degree => "degree"
  | major => "major"
  | organization => "organization"
  | role => "role"
  | startedOn => "started_on"
  | endedOn => "ended_on"
  | issuer => "issuer"
  | credentialCode => "credential_code"
  | issuedOn => "issued_on"
  | expiresOn => "expires_on"
  | score => "score"
  | scoreMax => "score_max"
  | scoreUnit => "score_unit"
  | url => "url"

/-- All names. -/
def ResumeFieldName.all : List ResumeFieldName :=
  [school, degree, major, organization, role, startedOn, endedOn, issuer, credentialCode, issuedOn,
    expiresOn, score, scoreMax, scoreUnit, url]

/-- `SkillItem`: a competency of the catalog. `src/jobtology_be/application/specs.py:110–121`. -/
structure SkillItem where
  entityId : String
  label : String
  deriving DecidableEq

/-- So many lower case hexadecimal digits. -/
def IsHex (count : Nat) (text : List Char) : Prop :=
  (Regex.times (.one lowerHexDigit) count).fullmatch text = true

instance (count : Nat) (text : List Char) : Decidable (IsHex count text) :=
  inferInstanceAs (Decidable (_ = true))

/-- `ResumeBlock`. `src/jobtology_be/resume/models.py:25–32`. -/
structure ResumeBlock where
  blockId : List Char
  text : List Char
  textHash : List Char
  page : Option {page : Int // 1 ≤ page ∧ page ≤ 20} := none
  sourceNodeId : Option {id : String // id.length ≤ 160} := none
  sourceStart : Nat := 0
  blockId_length : blockId.length ≤ 128
  text_length : text.length ≤ 1800
  textHash_hex : IsHex 64 textHash

/-- The methods of a suggestion. -/
inductive SuggestionMethod
  | keyword
  | aiAssisted
  deriving DecidableEq

/-- `ResumeSuggestion`: the score members stay unset here.
`src/jobtology_be/resume/models.py:44–57`. -/
structure ResumeSuggestion where
  suggestionId : List Char
  category : SpecCategory
  title : List Char
  competencies : List SkillItem
  blockId : List Char
  quote : List Char
  start : Nat
  stop : Nat
  method : SuggestionMethod
  fields : List (ResumeFieldName × List Char)
  title_length : title.length ≤ 500
  competencies_length : competencies.length ≤ 12
  quote_length : quote.length ≤ 2000
  stop_pos : 0 < stop
  fields_length : fields.length ≤ 15

/-- What `validated_entries` and `validated_ai_picks` could raise. -/
inductive SuggestionError
  | validationError
  | keyError
  deriving DecidableEq

/-- The constructor of `ResumeSuggestion`. -/
def resumeSuggestion (suggestionId : List Char) (category : SpecCategory) (title : List Char)
    (competencies : List SkillItem) (blockId quote : List Char) (start stop : Nat)
    (method : SuggestionMethod) (fields : List (ResumeFieldName × List Char)) :
    Except SuggestionError ResumeSuggestion :=
  if h : title.length ≤ 500 ∧ competencies.length ≤ 12 ∧ quote.length ≤ 2000 ∧ 0 < stop ∧
      fields.length ≤ 15 then
    .ok ⟨suggestionId, category, title, competencies, blockId, quote, start, stop, method, fields,
      h.1, h.2.1, h.2.2.1, h.2.2.2.1, h.2.2.2.2⟩
  else .error .validationError

/-- `by_id[key]`. -/
def competencyOf (items : List SkillItem) (key : String) : Except SuggestionError SkillItem :=
  match lookupLast (·.entityId) items key with
  | some item => .ok item
  | none => .error .keyError

/-! ## Confirmation -/

/-- The methods of document evidence. -/
inductive EvidenceMethod
  | keyword
  | aiAssisted
  | selectedText
  deriving DecidableEq

/-- `DocumentEvidence`, before its validation. `src/jobtology_be/application/specs.py:42–58`. -/
structure DocumentEvidence where
  documentSha256 : List Char
  parserRevision : String
  blockId : List Char
  textHash : List Char
  quote : List Char
  start : Int
  stop : Int
  method : EvidenceMethod

/-- `PARSER_REVISION`. -/
def currentParserRevision : String := "jobtology-resume-v1-7541e87"

/-- `DocumentEvidence` accepts. -/
structure DocumentEvidence.Accepted (e : DocumentEvidence) : Prop where
  documentSha256 : IsHex 64 e.documentSha256
  revision : e.parserRevision = currentParserRevision
  blockId : IsHex 24 e.blockId
  textHash : IsHex 64 e.textHash
  quote_pos : 1 ≤ e.quote.length
  quote_length : e.quote.length ≤ 2000
  start_nonneg : 0 ≤ e.start
  stop_pos : 0 < e.stop
  span : e.stop - e.start = e.quote.length

/-- `source` of `SpecDetails`. -/
inductive SpecSource
  | manual
  | llmAssisted
  | documentImport
  deriving DecidableEq

/-- `SpecDetails`, before its validation. -/
structure SpecDraft where
  competencyIds : List (List Char)
  evidence : List Char
  source : SpecSource
  documentEvidence : Option DocumentEvidence
  importedFields : List (ResumeFieldName × List Char)

/-- The white space that `str_strip_whitespace` takes off: `White_Space` of Unicode, without the
four separators that `str.strip` takes off as well. -/
def isWhiteSpace (c : Char) : Bool := isSpace c && !(28 ≤ c.toNat && c.toNat ≤ 31)

/-- `str_strip_whitespace`. -/
def stripWhitespace (cs : List Char) : List Char :=
  ((cs.dropWhile isWhiteSpace).reverse.dropWhile isWhiteSpace).reverse

/-- `SpecDetails` accepts: its texts are stripped first, those of its document evidence are not. -/
structure SpecDraft.Accepted (d : SpecDraft) : Prop where
  competencies_length : d.competencyIds.length ≤ 12
  evidence_length : (stripWhitespace d.evidence).length ≤ 2000
  importedFields_length : d.importedFields.length ≤ 15
  documentEvidence : ∀ e ∈ d.documentEvidence, e.Accepted
  provenance : d.source = .documentImport ↔ d.documentEvidence ≠ none
  importedFields : d.importedFields ≠ [] → ∃ e ∈ d.documentEvidence, ∀ field ∈ d.importedFields,
    stripWhitespace field.2 ≠ [] ∧ (stripWhitespace field.2).length ≤ 500 ∧
      stripWhitespace field.2 <:+: e.quote
  distinct : (d.competencyIds.map stripWhitespace).Nodup
  identities : ∀ id ∈ d.competencyIds,
    stripWhitespace id ≠ [] ∧ (stripWhitespace id).length ≤ 128

/-- The method of a suggestion as evidence. -/
def SuggestionMethod.evidence : SuggestionMethod → EvidenceMethod
  | keyword => .keyword
  | aiAssisted => .aiAssisted

/-- A suggestion of a block that is confirmed unchanged, with its quotation as the evidence. -/
def ResumeSuggestion.confirmed (documentSha256 : List Char) (block : ResumeBlock)
    (s : ResumeSuggestion) : SpecDraft where
  competencyIds := s.competencies.map (·.entityId.toList)
  evidence := s.quote
  source := .documentImport
  documentEvidence := some
    { documentSha256 := documentSha256
      parserRevision := currentParserRevision
      blockId := s.blockId
      textHash := block.textHash
      quote := s.quote
      start := s.start
      stop := s.stop
      method := s.method.evidence }
  importedFields := s.fields

end Jobtology.Resume
