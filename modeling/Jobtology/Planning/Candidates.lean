import Jobtology.Analyses.Editorial
import Jobtology.Graph.DepthFirst
import Jobtology.Planning.RouteModel

/-!
# Candidate generation

`CandidateGenerator` of `planning/candidates.py`: the checks on a template catalog and the
expansion of the activities for open requirements with their unfulfilled prerequisites.
-/

namespace Jobtology.Planning

open Jobtology.Base Jobtology.Analyses Jobtology.Graph

/-- The errors raised for a template catalog. The recursion limit stands for a walk that runs out of
rounds, which a closed catalog never does.
`src/jobtology_be/planning/candidates.py:21–27,31–36,40–49,53–58`. -/
inductive CatalogError
  | duplicateTemplateRevision (actionId : String) (revision : Int)
  | ambiguousTemplateRevision (actionId : String)
  | missingPrerequisiteTemplate (actionId prerequisiteActionId : String)
  | prerequisiteCycle (actionId : String)
  | recursionLimit
  deriving DecidableEq

/-- The errors raised while candidates are built.
`src/jobtology_be/planning/candidates.py:62–68`. -/
inductive BuildError
  | catalog (error : CatalogError)
  | unknownOutcomeRequirement (actionId requirementKey : String)
  deriving DecidableEq

/-! ### The catalog -/

/-- `catalog[action_id]`. -/
def templateOf (catalog : List ActivityTemplate) (actionId : String) : Option ActivityTemplate :=
  catalog.find? fun t ↦ t.actionId = actionId

/-- One round of the loop of `_catalog`. -/
def addTemplate (catalog : List ActivityTemplate) (t : ActivityTemplate) :
    Except CatalogError (List ActivityTemplate) :=
  match templateOf catalog t.actionId with
  | some existing =>
    if existing.revision = t.revision then
      .error (.duplicateTemplateRevision t.actionId t.revision)
    else .error (.ambiguousTemplateRevision t.actionId)
  | none => .ok (catalog ++ [t])

/-- `_catalog`: the values of the dictionary, in their order.
`src/jobtology_be/planning/candidates.py:142–153`. -/
def catalogOf (templates : List ActivityTemplate) : Except CatalogError (List ActivityTemplate) :=
  templates.foldlM addTemplate []

/-- `sorted(template.prerequisite_action_ids)`. -/
def sortedPrerequisites (t : ActivityTemplate) : List String :=
  t.prerequisiteActionIds.insertionSort (· ≤ ·)

/-- The sorted prerequisites of an action of the catalog. -/
def prerequisitesOf (catalog : List ActivityTemplate) (actionId : String) : List String :=
  ((templateOf catalog actionId).map sortedPrerequisites).getD []

/-- `_validate_dependencies`. `src/jobtology_be/planning/candidates.py:155–178`. -/
def validateDependencies (catalog : List ActivityTemplate) : Except CatalogError Unit := do
  catalog.forM fun t ↦ t.prerequisiteActionIds.forM fun a ↦
    if a ∈ catalog.map (·.actionId) then .ok ()
    else .error (.missingPrerequisiteTemplate t.actionId a)
  match visitAll (prerequisitesOf catalog)
      ((catalog.map (·.actionId)).insertionSort (· ≤ ·)) with
  | .ok _ => .ok ()
  | .error (.cycle a) => .error (.prerequisiteCycle a)
  | .error .outOfRounds => .error .recursionLimit

/-- `CandidateGenerator.__post_init__`. `src/jobtology_be/planning/candidates.py:77–79`. -/
def generatorPostInit (templates : List ActivityTemplate) : Except CatalogError Unit := do
  let catalog ← catalogOf templates
  validateDependencies catalog

/-- A generator over an accepted catalog. `src/jobtology_be/planning/candidates.py:72–263`. -/
structure CandidateGenerator where
  templates : List ActivityTemplate
  accepted : generatorPostInit templates = .ok ()

/-! ### Expansion -/

/-- `evaluations[requirement_key]`. -/
def evaluationOf (analysis : EditorialAnalysis) (key : String) : Option RequirementEvaluation :=
  lookupLast (·.requirementKey) analysis.requirements key

/-- `_validate_outcomes`: the first outcome of a template, by key, that the analysis lacks.
`src/jobtology_be/planning/candidates.py:180–188`. -/
def validateOutcomes (catalog : List ActivityTemplate) (analysis : EditorialAnalysis) :
    Except BuildError Unit :=
  catalog.forM fun t ↦
    match (sortedSet t.outcomeRequirementKeys).filter fun key ↦
      key ∉ analysis.requirements.map (·.requirementKey) with
    | [] => .ok ()
    | key :: _ => .error (.unknownOutcomeRequirement t.actionId key)

/-- `is_satisfied_foundation`. -/
def isSatisfiedFoundation (analysis : EditorialAnalysis) (t : ActivityTemplate) : Bool :=
  t.isFoundational && decide (t.outcomeRequirementKeys ≠ ∅) &&
    decide (∀ key ∈ t.outcomeRequirementKeys,
      (evaluationOf analysis key).map (·.status) = some .satisfied)

/-- The prerequisites of a template that are fulfilled, sorted. -/
def fulfilledPrerequisites (catalog : List ActivityTemplate) (analysis : EditorialAnalysis)
    (t : ActivityTemplate) : List String :=
  (t.prerequisiteActionIds.filter fun a ↦
    (templateOf catalog a).any (isSatisfiedFoundation analysis)).insertionSort (· ≤ ·)

/-- The prerequisites of a template that are not fulfilled, sorted. -/
def openPrerequisites (catalog : List ActivityTemplate) (analysis : EditorialAnalysis)
    (t : ActivityTemplate) : List String :=
  (sortedPrerequisites t).filter fun a ↦ a ∉ fulfilledPrerequisites catalog analysis t

/-- The candidate of a template. -/
def candidateOf (catalog : List ActivityTemplate) (analysis : EditorialAnalysis)
    (t : ActivityTemplate) : Candidate where
  actionId := t.actionId
  templateRevision := t.revision
  title := t.title
  estimatedHours := t.estimatedHours
  outcomeRequirementKeys := t.outcomeRequirementKeys
  prerequisiteActionIds := openPrerequisites catalog analysis t
  fulfilledPrerequisiteActionIds := fulfilledPrerequisites catalog analysis t
  completionCriteria := t.completionCriteria
  supportRefs := t.supportRefs
  cost := t.cost

/-- The two collections that `_expand` fills: `included_action_ids` and `candidates`. -/
structure Expansion where
  included : List String
  candidates : List Candidate

/-- `include`, for at most so many nested calls. -/
def includeActivity (catalog : List ActivityTemplate) (analysis : EditorialAnalysis) :
    Nat → Expansion → String → Expansion
  | 0, st, _ => st
  | rounds + 1, st, a =>
    if a ∈ st.included then st
    else
      match templateOf catalog a with
      | none => st
      | some t =>
        let st := (openPrerequisites catalog analysis t).foldl
          (includeActivity catalog analysis rounds) st
        ⟨a :: st.included, st.candidates ++ [candidateOf catalog analysis t]⟩

/-- `_expand`. A chain of calls visits distinct actions, so it is no longer than the catalog.
`src/jobtology_be/planning/candidates.py:190–245`. -/
def expand (roots catalog : List ActivityTemplate) (analysis : EditorialAnalysis) :
    List Candidate :=
  (roots.foldl (fun st root ↦
    includeActivity catalog analysis (catalog.length + 1) st root.actionId) ⟨[], []⟩).candidates

/-- `sorted(analysis.requirements, key=requirement_key)`. -/
def sortedRequirements (analysis : EditorialAnalysis) : List RequirementEvaluation :=
  analysis.requirements.insertionSort fun a b ↦ a.requirementKey ≤ b.requirementKey

/-- An UNMET or PARTIAL requirement. -/
def isOpen (r : RequirementEvaluation) : Bool :=
  decide (r.status = .unmet) || decide (r.status = .partialCredit)

/-- `unmet`. -/
def unmetRequirements (analysis : EditorialAnalysis) : List RequirementEvaluation :=
  (sortedRequirements analysis).filter isOpen

/-- `roots`. -/
def rootTemplates (catalog : List ActivityTemplate) (analysis : EditorialAnalysis) :
    List ActivityTemplate :=
  (catalog.insertionSort fun a b ↦ a.actionId ≤ b.actionId).filter fun t ↦
    decide (t.outcomeRequirementKeys ≠ ∅) &&
      (unmetRequirements analysis).any fun r ↦ r.requirementKey ∈ t.outcomeRequirementKeys

/-- `_candidate_set`. `src/jobtology_be/planning/candidates.py:247–263`. -/
def candidateSet (analysis : EditorialAnalysis) (candidates : List Candidate)
    (blockers : List CandidateBlocker) : CandidateSet where
  analysisId := analysis.analysisId
  profileVersion := analysis.profileVersion
  occupationId := analysis.occupationId
  basisVersion := analysis.basisVersion
  corpusReleaseId := analysis.corpusReleaseId
  isFixture := analysis.isFixture
  referenceAt := analysis.referenceAt
  candidates
  blockers

/-- `_build_ready`. `src/jobtology_be/planning/candidates.py:91–140`. -/
def buildReady (g : CandidateGenerator) (analysis : EditorialAnalysis) :
    Except BuildError CandidateSet := do
  let catalog ← (catalogOf g.templates).mapError .catalog
  validateOutcomes catalog analysis
  let unmet := unmetRequirements analysis
  let needsInput := ((sortedRequirements analysis).filter fun r ↦ r.status = .needsInput).map
    fun r ↦ CandidateBlocker.needsInput r.requirementKey r.label r.supportRefs
  let roots := rootTemplates catalog analysis
  let noActivities := (unmet.filter fun r ↦
      (roots.filter fun t ↦ r.requirementKey ∈ t.outcomeRequirementKeys).isEmpty).map
    fun r ↦ CandidateBlocker.noActivities r.requirementKey r.label r.supportRefs
  pure (candidateSet analysis (expand roots catalog analysis) (needsInput ++ noActivities))

/-- `CandidateGenerator.build`. `src/jobtology_be/planning/candidates.py:81–89`. -/
def build (g : CandidateGenerator) (analysis : EditorialAnalysis) :
    Except BuildError CandidateSet :=
  match analysis.analysisStatus with
  | .insufficientData =>
    .ok (candidateSet analysis [] [.insufficientAnalysis analysis.analysisId])
  | .ready => buildReady g analysis

end Jobtology.Planning
