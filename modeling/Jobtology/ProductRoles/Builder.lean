import Jobtology.Base.SortedRows
import Jobtology.ProductRoles.Models
import Jobtology.ProductRoles.QualificationDisplay
import Mathlib.Algebra.Order.Floor.Ring
import Mathlib.Data.Rat.Floor

/-!
# The builder of product roles

`product_roles/builder.py`: the documents of the roles, their requirement metadata and the draft
with its digest. SHA-256 is a parameter.
-/

namespace Jobtology.ProductRoles

open Jobtology.Base

/-- `DEMAND_MIN_BASE_POSTINGS`. -/
def demandMinBasePostings : Nat := 5

/-- Why a release is not built: `ProductRoleBuildError`.
`src/jobtology_be/product_roles/builder.py:64–65`. -/
inductive ProductRoleBuildError
  | runs
  | units
  deriving DecidableEq

/-- The reason of an error. -/
def ProductRoleBuildError.reason : ProductRoleBuildError → String
  | runs => "exactly one NCS source run is required"
  | units => "no matching official units"

/-- `RequirementMetadata`. -/
structure RequirementMetadata where
  ncsLevel : Option Int
  demandPct : Option Int
  estimatedHours : Int
  hoursBasis : String
  demandPostings : Option Nat
  demandBase : Option Nat
  ncsBaseCode : String
  qualifications : List RequirementQualification
  fieldCode : String
  fieldName : Option String
  deriving DecidableEq

/-- A requirement of a role with its capability entry and its template. -/
structure RoleEntry where
  requirementKey : String
  entityId : String
  label : String
  required : Bool
  supportRefs : List String
  aliases : List String
  actionId : String
  duration : Int
  isFoundational : Bool
  metadata : RequirementMetadata
  deriving DecidableEq

/-- The document of a role. -/
structure RoleDocument where
  occupationId : String
  entries : List RoleEntry
  deriving DecidableEq

/-- `ProductRoleDraft`; `snapshotJson` is the text of the snapshots.
`src/jobtology_be/product_roles/builder.py:33–60`. -/
structure ProductRoleDraft where
  document : String
  digest : String
  snapshots : List RoleDocument
  snapshotJson : String
  names : List (String × String)
  metadata : List (String × RequirementMetadata)

/-! ### `_qualification_sort_key` -/

/-- The separators that `json.dumps` has by default, without escapes. -/
def spacedText : Json.Format := ⟨false, true⟩

/-- `_qualification_sort_key`. `src/jobtology_be/product_roles/builder.py:68–70`. -/
def qualificationSortKey (q : InputQualification) : String ×ₗ String ×ₗ String :=
  toLex (q.competencyCode, toLex (q.qualificationCode, Json.dumps spacedText q.json))

/-! ### `_role_demand` -/

/-- The base codes of the role that a posting is linked to. -/
def linkedBases (units : List InputUnit) (baseCodes : List String) (posting : InputLinkedPosting) :
    List String :=
  posting.competencyCodes.filterMap fun code ↦
    (lookupLast (·.code) (units.filter (·.baseCode ∈ baseCodes)) code).map (·.baseCode)

/-- `posting_bases`: the postings that are linked to the role, under their keys. -/
def postingBases (inputs : ProductRoleInputs) (baseCodes : List String)
    (postings : List InputLinkedPosting) : List InputLinkedPosting :=
  dictOf (·.postingKey) (postings.filter fun p ↦ linkedBases inputs.units baseCodes p ≠ [])

/-- `_role_demand`: postings that ask for a unit, and all postings of the role.
`src/jobtology_be/product_roles/builder.py:214–230`. -/
def roleDemand (inputs : ProductRoleInputs) (baseCodes : List String) (baseCode : String) :
    Option Nat × Option Nat :=
  match inputs.linkedPostings with
  | none => (none, none)
  | some postings =>
    let linked := postingBases inputs baseCodes postings
    (some (linked.countP fun p ↦ baseCode ∈ linkedBases inputs.units baseCodes p),
      some linked.length)

/-! ### `_role_document` -/

/-- The unit is part of the role. -/
def RolePolicy.Covers (role : RolePolicy) (unit : InputUnit) : Prop :=
  unit.occupationCode ∈ role.occupationCodes ∨ unit.baseCode ∈ role.additionalBaseCodes

instance (role : RolePolicy) (unit : InputUnit) : Decidable (role.Covers unit) :=
  inferInstanceAs (Decidable (_ ∨ _))

/-- Keep the unit with the greatest code under its base code. -/
def selectUnit : List (String × InputUnit) → InputUnit → List (String × InputUnit) :=
  keepGreatest (·.baseCode) (·.code)

/-- The unit is of a withdrawn version. -/
def InputUnit.Withdrawn (unit : InputUnit) : Prop := "(구버전)".toList <:+: unit.name.toList

instance (unit : InputUnit) : Decidable unit.Withdrawn :=
  inferInstanceAs (Decidable (_ <:+: _))

/-- `selected`: the newest units of the role under their base codes, but for withdrawn ones. -/
def selectedUnits (role : RolePolicy) (units : List InputUnit) : List (String × InputUnit) :=
  ((units.filter (role.Covers ·)).foldl selectUnit []).filter fun e ↦ ¬ e.2.Withdrawn

/-- Evidence of the versions of a unit. -/
def evidenceOf (inputs : ProductRoleInputs) (baseCode : String) : List InputEvidence :=
  inputs.evidence.filter fun item ↦
    inputs.units.any fun c ↦ c.baseCode = baseCode ∧ c.code = item.competencyCode

/-- The positive training hours of the qualifications of a unit. -/
def officialHours (inputs : ProductRoleInputs) (unit : InputUnit) : List Int :=
  (inputs.qualifications.filter (·.competencyCode = unit.code)).filterMap fun q ↦
    q.minimumTrainingHours.filter (0 < ·)

/-- The qualifications of a unit with their names, in order. -/
def qualificationPairs (inputs : ProductRoleInputs) (unit : InputUnit) :
    List (String × Option String) :=
  ((sortedBy qualificationSortKey inputs.qualifications).filter
    (·.competencyCode = unit.code)).map fun q ↦ (q.qualificationCode, q.qualificationName)

/-- The requirement, the capability entry, the template and the metadata of a unit. -/
def roleEntry (role : RolePolicy) (inputs : ProductRoleInputs) (runId : String)
    (baseCodes : List String) (baseCode : String) (unit : InputUnit) : RoleEntry :=
  let evidence := evidenceOf inputs baseCode
  let hours := officialHours inputs unit
  let duration := hours.min?.getD 20
  let demand := roleDemand inputs baseCodes baseCode
  { requirementKey := role.occupationId ++ ":" ++ baseCode
    entityId := "ncs:unit:" ++ baseCode
    label := unit.name
    required := (∃ level ∈ unit.level, level ≤ 5) ∨ 0 < (evidence.map (·.postings)).sum
    supportRefs := ("ncs:" ++ unit.code ++ "@" ++ runId) ::
      sortedSet (evidence.flatMap fun item ↦ item.publicationIds.map fun publicationId ↦
        "evidence:" ++ publicationId ++ ":" ++ item.competencyCode).toFinset
    aliases := sortedSet (unit.name :: baseCode ::
      ((role.aliases.lookup baseCode).getD [])).toFinset
    actionId := "study:" ++ baseCode
    duration := duration
    isFoundational := ∃ level ∈ unit.level, level ≤ 3
    metadata :=
      { ncsLevel := unit.level
        demandPct := do
          let postings ← demand.1
          let base ← demand.2
          if demandMinBasePostings ≤ base then some (roundHalfEven (100 * postings / base))
          else none
        estimatedHours := duration
        hoursBasis := if hours = [] then "ESTIMATED" else "OFFICIAL"
        demandPostings := demand.1
        demandBase := demand.2
        ncsBaseCode := baseCode
        qualifications := displayQualifications (qualificationPairs inputs unit)
        fieldCode := unit.occupationCode
        fieldName := unit.occupationName } }

/-- `_role_document`. `src/jobtology_be/product_roles/builder.py:131–211`. -/
def roleDocument (role : RolePolicy) (inputs : ProductRoleInputs) (runId : String) :
    Option RoleDocument :=
  let selected := selectedUnits role inputs.units
  if selected = [] then none
  else some
    { occupationId := role.occupationId
      entries := (sortedBy (·.1) selected).map fun e ↦
        roleEntry role inputs runId (selected.map (·.1)) e.1 e.2 }

/-! ### Documents of the draft -/

/-- A requirement. -/
def RoleEntry.requirementJson (e : RoleEntry) : Json :=
  .obj [("requirement_key", .str e.requirementKey), ("label", .str e.label),
    ("necessity", .str (if e.required then "REQUIRED" else "PREFERRED")),
    ("entity_id", .str e.entityId), ("support_refs", .strings e.supportRefs)]

/-- A capability entry. -/
def RoleEntry.capabilityJson (e : RoleEntry) : Json :=
  .obj [("entity_id", .str e.entityId), ("aliases", .strings e.aliases)]

/-- A template. -/
def RoleEntry.templateJson (e : RoleEntry) : Json :=
  .obj [("action_id", .str e.actionId), ("revision", .int 1),
    ("title", .str (e.label ++ " 학습")), ("estimated_hours", .int e.duration),
    ("outcome_requirement_keys", .strings [e.requirementKey]),
    ("prerequisite_action_ids", .arr []),
    ("completion_criteria", .strings
      ["NCS 능력단위 '" ++ e.label ++ "'의 수행준거를 학습하고 실습 결과물 1건을 정리한다"]),
    ("support_refs", .strings e.supportRefs), ("cost", .obj [("kind", .str "UNKNOWN")]),
    ("is_foundational", .bool e.isFoundational)]

/-- The document of a role. -/
def RoleDocument.json (d : RoleDocument) : Json :=
  .obj [("occupation_id", .str d.occupationId), ("basis_version", .str "product-roles-v1"),
    ("is_fixture", .bool false), ("allowed_experience_codes", .arr []),
    ("capability_entries", .arr (d.entries.map (·.capabilityJson))),
    ("requirements", .arr (d.entries.map (·.requirementJson))),
    ("templates", .arr (d.entries.map (·.templateJson)))]

/-- The metadata that the digest covers. -/
def RequirementMetadata.json (m : RequirementMetadata) : Json :=
  .obj [("ncs_level", .optional .int m.ncsLevel), ("demand_pct", .optional .int m.demandPct),
    ("estimated_hours", .int m.estimatedHours), ("hours_basis", .str m.hoursBasis),
    ("demand_postings", .optional (fun n : Nat ↦ .int n) m.demandPostings),
    ("demand_base", .optional (fun n : Nat ↦ .int n) m.demandBase)]

/-! ### `build_product_roles` -/

/-- `ncs_runs`. -/
def ncsRuns (sources : List InputSource) : List String :=
  (sources.filter (·.sourceId = "ncs_competency")).filterMap fun s ↦ s.runId.filter (· ≠ "")

/-- The key that sources are sorted by: what is absent counts as empty. -/
def sourceSortKey (s : InputSource) : String ×ₗ String ×ₗ String :=
  toLex (s.sourceId, toLex (s.runId.getD "", s.publicationId.getD ""))

/-- `artifact`. -/
def artifact (inputs : ProductRoleInputs) (policy : ProductRolePolicy)
    (snapshots : List RoleDocument) (names : List (String × String))
    (metadata : List (String × RequirementMetadata)) : Json :=
  .obj [("contract_version", .str "jobtology-product-role-draft-v1"),
    ("policy_version", .str "product-roles-v1"), ("rule_approval", policy.ruleApproval.json),
    ("sources", .arr ((sortedBy sourceSortKey inputs.sources).map (·.json))),
    ("input_units", .arr ((sortedBy (·.code) inputs.units).map (·.json))),
    ("input_qualifications", .arr
      ((sortedBy qualificationSortKey inputs.qualifications).map (·.json))),
    ("input_evidence", .arr ((sortedBy (·.competencyCode) inputs.evidence).map (·.json))),
    ("snapshots", .arr (snapshots.map (·.json))),
    ("input_linked_postings", .optional
      (fun postings ↦ .arr ((sortedBy (·.postingKey) postings).map (·.json)))
      inputs.linkedPostings),
    ("demand_rule", .obj [("basis", .str "DISTINCT_LINKED_POSTINGS_PER_ROLE"),
      ("min_base_postings", .int demandMinBasePostings)]),
    ("display_names", .obj (names.map fun n ↦ (n.1, .str n.2))),
    ("requirement_metadata", .obj ((sortedBy (·.1) metadata).map fun m ↦ (m.1, m.2.json)))]

/-- The entries of a dictionary that is filled in order. -/
def dictEntries {α : Type} (entries : List (String × α)) : List (String × α) :=
  entries.foldl (fun dict e ↦ setEntry e.1 e.2 dict) []

/-- `build_product_roles`. `src/jobtology_be/product_roles/builder.py:73–128`. -/
def buildProductRoles (sha256 : String → String) (inputs : ProductRoleInputs)
    (policy : ProductRolePolicy) : Except ProductRoleBuildError ProductRoleDraft :=
  match ncsRuns inputs.sources with
  | [runId] =>
    let snapshots := policy.roles.filterMap fun role ↦ roleDocument role inputs runId
    if snapshots = [] then .error .units
    else
      let metadata := dictEntries (snapshots.flatMap fun d ↦
        d.entries.map fun e ↦ (e.requirementKey, e.metadata))
      let names := dictEntries ((policy.roles.filter fun role ↦
        snapshots.any (·.occupationId = role.occupationId)).map fun role ↦
          (role.occupationId, role.name))
      let document := Json.dumps ⟨false, false⟩ (artifact inputs policy snapshots names metadata)
      .ok
        { document := document
          digest := sha256 document
          snapshots := snapshots
          snapshotJson := Json.dumps spacedText (.arr (snapshots.map (·.json)))
          names := names
          metadata := metadata }
  | _ => .error .runs

end Jobtology.ProductRoles
