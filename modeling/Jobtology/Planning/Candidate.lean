import Jobtology.Base.Collections

/-!
# Activity templates and planning candidates

The records of `planning/candidate_models.py`. A record that checks itself on construction is the
bare data together with a proof that the check accepts it, so a rejected value cannot be built.
-/

namespace Jobtology.Planning

open Jobtology.Base

/-- Out-of-pocket cost of an activity in won; a negative known cost is not a value of the type.
`src/jobtology_be/planning/candidate_models.py:68–75,79–80`. -/
inductive KrwCost
  | known (krw : Nat)
  | unknown
  deriving DecidableEq

/-- The template errors raised on construction, with the fields they report.
`src/jobtology_be/planning/candidate_models.py:7–64`. -/
inductive CandidateTemplateError
  | invalidTemplateId (actionId : String)
  | invalidTemplateRevision (actionId : String) (revision : Int)
  | invalidTemplateEffort (actionId : String) (estimatedHours : Int)
  | missingCompletionCriteria (actionId : String)
  | missingTemplateSupport (actionId : String)
  deriving DecidableEq

/-- Message of a template error. -/
def CandidateTemplateError.message : CandidateTemplateError → String
  | invalidTemplateId _ => "activity template action ID must be non-empty"
  | invalidTemplateRevision a _ => "activity template revision must be positive: " ++ a
  | invalidTemplateEffort a _ => "activity template estimated hours must be positive: " ++ a
  | missingCompletionCriteria a => "activity template lacks completion criteria: " ++ a
  | missingTemplateSupport a => "activity template lacks supporting references: " ++ a

/-- Fields of an activity template. -/
structure ActivityTemplateData where
  actionId : String
  revision : Int
  title : String
  estimatedHours : Int
  outcomeRequirementKeys : Finset String
  prerequisiteActionIds : List String
  completionCriteria : List String
  supportRefs : Finset String
  cost : KrwCost
  isFoundational : Bool
  deriving DecidableEq

/-- `ActivityTemplate.__post_init__`. A prerequisite may be listed twice: nothing checks it.
`src/jobtology_be/planning/candidate_models.py:99–113`. -/
def ActivityTemplateData.postInit (t : ActivityTemplateData) :
    Except CandidateTemplateError Unit :=
  if isBlank t.actionId then .error (.invalidTemplateId t.actionId)
  else if t.revision ≤ 0 then .error (.invalidTemplateRevision t.actionId t.revision)
  else if t.estimatedHours ≤ 0 then .error (.invalidTemplateEffort t.actionId t.estimatedHours)
  else if t.completionCriteria = [] then .error (.missingCompletionCriteria t.actionId)
  else if t.supportRefs = ∅ then .error (.missingTemplateSupport t.actionId)
  else .ok ()

/-- A template that passed its checks. `src/jobtology_be/planning/candidate_models.py:87–113`. -/
structure ActivityTemplate extends ActivityTemplateData where
  accepted : toActivityTemplateData.postInit = .ok ()

/-- An accepted template is named, revised, costs effort and is supported. -/
theorem ActivityTemplateData.postInit_ok_iff (t : ActivityTemplateData) :
    t.postInit = .ok () ↔
      isBlank t.actionId = false ∧ 0 < t.revision ∧ 0 < t.estimatedHours ∧
        t.completionCriteria ≠ [] ∧ t.supportRefs ≠ ∅ := by
  unfold postInit
  split
  · next h => simp [h]
  split
  · next h => simp [show ¬ 0 < t.revision by omega]
  split
  · next h => simp [show ¬ 0 < t.estimatedHours by omega]
  split
  · next h => simp [h]
  split
  · next h => simp [h]
  · next hb hr he hc hs => simp_all

/-- Every activity takes some hours. -/
theorem ActivityTemplate.estimatedHours_pos (t : ActivityTemplate) : 0 < t.estimatedHours :=
  (t.postInit_ok_iff.mp t.accepted).2.2.1

/-- An activity offered to the planner. Its construction checks nothing.
`src/jobtology_be/planning/candidate_models.py:117–127`. -/
structure Candidate where
  actionId : String
  templateRevision : Int
  title : String
  estimatedHours : Int
  outcomeRequirementKeys : Finset String
  prerequisiteActionIds : List String
  fulfilledPrerequisiteActionIds : List String
  completionCriteria : List String
  supportRefs : Finset String
  cost : KrwCost
  deriving DecidableEq

/-- An unresolved input of planning.
`src/jobtology_be/planning/candidate_models.py:131–132,136–139,143–146`. -/
inductive CandidateBlocker
  | insufficientAnalysis (analysisId : String)
  | needsInput (requirementKey label : String) (supportRefs : Finset String)
  | noActivities (requirementKey label : String) (supportRefs : Finset String)
  deriving DecidableEq

/-- Candidate graph and unresolved planning inputs for one analysis.
`src/jobtology_be/planning/candidate_models.py:155–166`. -/
structure CandidateSet where
  analysisId : String
  profileVersion : Int
  occupationId : String
  basisVersion : String
  corpusReleaseId : Option String
  isFixture : Bool
  referenceAt : Int
  candidates : List Candidate
  blockers : List CandidateBlocker

end Jobtology.Planning
