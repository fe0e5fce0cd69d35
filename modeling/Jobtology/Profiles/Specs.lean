import Jobtology.Profiles.Normalizer
import Jobtology.Time.Civil

/-!
# Stored capabilities as inputs

`application/specs.py`: the credit of confirmed specs and the capability inputs of stored rows.
Dates are days. The details of a row that are not valid specs have no `SpecDetails`.
-/

namespace Jobtology.Profiles

open Jobtology.Base

/-- `MIN_EVIDENCE_LENGTH`. -/
def minEvidenceLength : Nat := 20

/-- `CREDIT`. -/
def proficiencyCredit : Option String → ℚ
  | some "FAMILIAR" => 1 / 4
  | some "GUIDED" => 1 / 2
  | some "INDEPENDENT" => 3 / 4
  | some "PRODUCTION" => 1
  | _ => 0

/-- `SpecDetails`: the members that credit depends on.
`src/jobtology_be/application/specs.py:61–107`. -/
structure SpecDetails where
  competencyIds : List String
  evidence : String
  issuedOn : Option Int
  expiresOn : Option Int
  deriving DecidableEq

/-- A stored capability as its row is read. -/
structure StoredCapability where
  rawText : String
  entityId : Option String
  category : String
  proficiency : Option String
  spec : Option SpecDetails
  experienceCodes : List String
  completed : Bool
  deriving DecidableEq

/-- `spec_credit`. `src/jobtology_be/application/specs.py:132–141`. -/
def specCredit (details : SpecDetails) (proficiency : Option String) (category : String)
    (today : Int) : ℚ :=
  if category ∈ ["education", "other"] then 0
  else if category ∈ ["certification", "test"] ∧ ∃ day ∈ details.expiresOn, day < today then 0
  else if category ∈ ["certification", "test"] ∧ ∃ day ∈ details.issuedOn, today < day then 0
  else if details.competencyIds = [] ∨
      (strip details.evidence.toList).length < minEvidenceLength then 0
  else proficiencyCredit proficiency

/-- The row was written by the completion of a roadmap step. -/
def StoredCapability.IsOutcome (row : StoredCapability) : Prop :=
  row.completed = true ∧ row.category = "ROADMAP_OUTCOME"

instance (row : StoredCapability) : Decidable row.IsOutcome :=
  inferInstanceAs (Decidable (_ ∧ _))

/-- The NCS identities of a spec. -/
def SpecDetails.mapped (details : SpecDetails) : List String :=
  details.competencyIds.filter fun key ↦ StartsWith key "ncs:unit:"

/-- The inputs that a row stands for, before their validation. -/
def inputsOf (today : Int) (row : StoredCapability) : List CapabilityInput :=
  if row.IsOutcome then [⟨row.rawText, row.entityId, row.experienceCodes, 1⟩]
  else match row.spec with
    | none => [⟨row.rawText, none, [], 0⟩]
    | some details =>
      if details.mapped = [] then [⟨row.rawText, none, [], 0⟩]
      else details.mapped.map fun key ↦
        ⟨lastPart ':' key, some key, [], specCredit details row.proficiency row.category today⟩

/-- `capability_inputs`; `none` when an input is not valid.
`src/jobtology_be/application/specs.py:144–163`. -/
def capabilityInputs (today : Int) (row : StoredCapability) : Option (List CapabilityInput) :=
  if ∀ c ∈ inputsOf today row, c.Valid then some (inputsOf today row) else none

/-- The inputs of the active rows of a user, in order. -/
def activeCapabilities (today : Int) (rows : List StoredCapability) :
    Option (List CapabilityInput) := do
  let inputs ← rows.mapM (capabilityInputs today)
  return inputs.flatten

/-- The inputs of a row that can be read. -/
theorem capabilityInputs_eq_some {today : Int} {row : StoredCapability}
    {inputs : List CapabilityInput} (h : capabilityInputs today row = some inputs) :
    inputs = inputsOf today row := by
  unfold capabilityInputs at h
  split at h
  · exact (Option.some.inj h).symm
  · cases h

/-- The capabilities of rows that can be read are those of each row. -/
theorem activeCapabilities_eq {today : Int} {rows : List StoredCapability}
    {capabilities : List CapabilityInput} (h : activeCapabilities today rows = some capabilities) :
    capabilities = rows.flatMap (inputsOf today) := by
  unfold activeCapabilities at h
  obtain ⟨inputs, hinputs, hflatten⟩ := Option.bind_eq_some_iff.mp h
  obtain rfl := Option.some.inj hflatten
  clear h hflatten
  induction rows generalizing inputs with
  | nil =>
    obtain rfl := Option.some.inj hinputs
    rfl
  | cons row rest ih =>
    rw [List.mapM_cons] at hinputs
    obtain ⟨first, hfirst, hinputs⟩ := Option.bind_eq_some_iff.mp hinputs
    obtain ⟨others, hothers, hinputs⟩ := Option.bind_eq_some_iff.mp hinputs
    obtain rfl := Option.some.inj hinputs
    rw [List.flatMap_cons, List.flatten_cons, capabilityInputs_eq_some hfirst, ih others hothers]

end Jobtology.Profiles
