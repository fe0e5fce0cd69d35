import Jobtology.Base.Json

/-!
# Inputs and policy of product roles

`product_roles/models.py`: the rows of the catalog that a release is built from and the policy that
says which units a role has. Every row is also a document of the draft.
-/

namespace Jobtology.ProductRoles

open Jobtology.Base

/-- `Approval`. `src/jobtology_be/product_roles/models.py:10–12`. -/
structure Approval where
  approvedBy : String
  decisions : List (String × String)

/-- `RolePolicy`. `src/jobtology_be/product_roles/models.py:15–20`. -/
structure RolePolicy where
  occupationId : String
  name : String
  occupationCodes : List String
  additionalBaseCodes : List String
  aliases : List (String × List String)

/-- `ProductRolePolicy`; its version is always the same.
`src/jobtology_be/product_roles/models.py:23–33`. -/
structure ProductRolePolicy where
  ruleApproval : Approval
  roles : List RolePolicy

/-- `InputSource`. `src/jobtology_be/product_roles/models.py:36–43`. -/
structure InputSource where
  sourceId : String
  runId : Option String
  publicationId : Option String
  dataAsOf : Option String
  createdAt : Option String
  postingSource : Option String
  isLatestPublication : Option Bool
  deriving DecidableEq

/-- `InputUnit`. `src/jobtology_be/product_roles/models.py:46–52`. -/
structure InputUnit where
  code : String
  baseCode : String
  name : String
  level : Option Int
  occupationCode : String
  occupationName : Option String
  deriving DecidableEq

/-- `InputQualification`. `src/jobtology_be/product_roles/models.py:55–60`. -/
structure InputQualification where
  competencyCode : String
  qualificationCode : String
  qualificationName : Option String
  minimumTrainingHours : Option Int
  totalTrainingHours : Option Int
  deriving DecidableEq

/-- `InputEvidence`. `src/jobtology_be/product_roles/models.py:63–67`. -/
structure InputEvidence where
  competencyCode : String
  postings : Nat
  links : Nat
  publicationIds : List String
  deriving DecidableEq

/-- `InputLinkedPosting`. `src/jobtology_be/product_roles/models.py:70–72`. -/
structure InputLinkedPosting where
  postingKey : String
  competencyCodes : List String
  deriving DecidableEq

/-- `ProductRoleInputs`. `src/jobtology_be/product_roles/models.py:75–82`. -/
structure ProductRoleInputs where
  sources : List InputSource
  units : List InputUnit
  qualifications : List InputQualification
  evidence : List InputEvidence
  linkedPostings : Option (List InputLinkedPosting)

/-! ### `model_dump(mode="json")` -/

/-- The policy's approval. -/
def Approval.json (a : Approval) : Json :=
  .obj [("approved_by", .str a.approvedBy),
    ("decisions", .obj (a.decisions.map fun d ↦ (d.1, .str d.2)))]

/-- A source. -/
def InputSource.json (s : InputSource) : Json :=
  .obj [("source_id", .str s.sourceId), ("run_id", .optional .str s.runId),
    ("publication_id", .optional .str s.publicationId),
    ("data_as_of", .optional .str s.dataAsOf), ("created_at", .optional .str s.createdAt),
    ("posting_source", .optional .str s.postingSource),
    ("is_latest_publication", .optional .bool s.isLatestPublication)]

/-- A unit. -/
def InputUnit.json (u : InputUnit) : Json :=
  .obj [("code", .str u.code), ("base_code", .str u.baseCode), ("name", .str u.name),
    ("level", .optional .int u.level), ("occupation_code", .str u.occupationCode),
    ("occupation_name", .optional .str u.occupationName)]

/-- A qualification. -/
def InputQualification.json (q : InputQualification) : Json :=
  .obj [("competency_code", .str q.competencyCode),
    ("qualification_code", .str q.qualificationCode),
    ("qualification_name", .optional .str q.qualificationName),
    ("minimum_training_hours", .optional .int q.minimumTrainingHours),
    ("total_training_hours", .optional .int q.totalTrainingHours)]

/-- Evidence from postings. -/
def InputEvidence.json (e : InputEvidence) : Json :=
  .obj [("competency_code", .str e.competencyCode), ("postings", .int e.postings),
    ("links", .int e.links), ("publication_ids", .strings e.publicationIds)]

/-- A posting with the competencies linked to it. -/
def InputLinkedPosting.json (p : InputLinkedPosting) : Json :=
  .obj [("posting_key", .str p.postingKey), ("competency_codes", .strings p.competencyCodes)]

end Jobtology.ProductRoles
