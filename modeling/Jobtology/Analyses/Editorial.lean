import Jobtology.Base.Collections

/-!
# Editorial analyses

The records of `modules/analyses/editorial_models.py` that planning reads.
-/

namespace Jobtology.Analyses

/-- `RequirementNecessity`. `src/jobtology_be/modules/analyses/editorial_models.py:7–9`. -/
inductive RequirementNecessity
  | required
  | preferred
  deriving DecidableEq

/-- `SatisfactionStatus`. `src/jobtology_be/modules/analyses/editorial_models.py:12–16`. -/
inductive SatisfactionStatus
  | satisfied
  | partialCredit
  | unmet
  | needsInput
  deriving DecidableEq

/-- `AnalysisStatus`. `src/jobtology_be/modules/analyses/editorial_models.py:26–28`. -/
inductive AnalysisStatus
  | ready
  | insufficientData
  deriving DecidableEq

/-- `RequirementEvaluation`. `src/jobtology_be/modules/analyses/editorial_models.py:213–220`. -/
structure RequirementEvaluation where
  requirementKey : String
  label : String
  necessity : RequirementNecessity
  status : SatisfactionStatus
  supportRefs : Finset String
  deriving DecidableEq

/-- `EditorialAnalysis`, without its coverage scores.
`src/jobtology_be/modules/analyses/editorial_models.py:236–247`. -/
structure EditorialAnalysis where
  analysisId : String
  profileVersion : Int
  occupationId : String
  basisVersion : String
  corpusReleaseId : Option String
  isFixture : Bool
  referenceAt : Int
  analysisStatus : AnalysisStatus
  requirements : List RequirementEvaluation

/-- `EditorialRequirement`. `src/jobtology_be/modules/analyses/editorial_models.py:133–139`. -/
structure EditorialRequirement where
  requirementKey : String
  label : String
  necessity : RequirementNecessity
  entityId : String
  requiredExperienceCodes : Finset String
  supportRefs : Finset String

end Jobtology.Analyses
