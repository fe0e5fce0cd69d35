import Jobtology.Analyses.GapAnalyzer
import Jobtology.Base.Binary64
import Jobtology.Planning.CandidateClosure
import Jobtology.Planning.Problem

/-!
# The runtime planning catalog

`product_roles/planning.py` with `planning/effort.py`: the templates of a snapshot as a goal's
planning uses them. How a credit is printed is a parameter; a credit is the value of a float.
-/

namespace Jobtology.ProductRoles

open Jobtology.Base Jobtology.Analyses Jobtology.Corpus Jobtology.Graph Jobtology.Planning

/-- `PRODUCT_PLANNING_POLICY_VERSION`. -/
def productPlanningPolicyVersion : String := "PRODUCT_ROLE_PLANNING_V2"

/-- `REMAINING_EFFORT_METHOD`. -/
def remainingEffortMethod : String := "MODELED_COMPETENCY_CREDIT_V1"

/-- `RuntimePlanningCatalog`. `src/jobtology_be/product_roles/planning.py:21–27`. -/
structure RuntimePlanningCatalog where
  templates : List ActivityTemplate
  policyVersion : Option String
  decisions : List String
  foundationalActionIds : Finset String
  portfolioActionIds : Finset String
  actionIdMapping : List (String × String)

/-- What building the catalog may raise: a template error, the `KeyError` of a lookup, or the
`OverflowError` of hours that no float holds. -/
inductive RuntimeCatalogError
  | template (error : CandidateTemplateError)
  | missingKey (key : String)
  | overflow
  deriving DecidableEq

/-- `replace` of a template: the checks are made again. -/
def rebuild (t : ActivityTemplateData) : Except RuntimeCatalogError ActivityTemplate :=
  match h : t.postInit with
  | .ok () => .ok ⟨t, h⟩
  | .error e => .error (.template e)

/-! ### Remaining effort -/

/-- `remaining_learning_hours`. Both operations are rounded as floats are.
`src/jobtology_be/planning/effort.py:8–10`. -/
def remainingLearningHours (baseHours : Int) (credit : ℚ) : Except RuntimeCatalogError Int :=
  match floatOfInt baseHours with
  | some hours => .ok (max 0 ⌈binary64 (hours * binary64 (1 - binary64 credit))⌉)
  | none => .error .overflow

/-- The evaluations of a template's outcomes, by key. -/
def outcomeEvaluations (analysis : GapAnalysis) (t : ActivityTemplate) :
    Except RuntimeCatalogError (List ScoredEvaluation) :=
  (sortedSet t.outcomeRequirementKeys).mapM fun key ↦
    match lookupLast (·.requirementKey) analysis.evaluations key with
    | some item => .ok item
    | none => .error (.missingKey key)

/-- The least credit of the outcomes. -/
def leastCredit (outcomes : List ScoredEvaluation) : ℚ := ((outcomes.map (·.credit)).min?).getD 0

/-- The hours that are left of a template. -/
def remainingHours (t : ActivityTemplate) (outcomes : List ScoredEvaluation) :
    Except RuntimeCatalogError Int :=
  if outcomes.any (·.status = .partialCredit) then
    (remainingLearningHours t.estimatedHours (leastCredit outcomes)).map (max 1)
  else .ok t.estimatedHours

/-- A template with the hours that are left, and the decision when they differ. -/
def remainingTemplate (showCredit : ℚ → String) (analysis : GapAnalysis) (t : ActivityTemplate) :
    Except RuntimeCatalogError (ActivityTemplate × List String) := do
  let outcomes ← outcomeEvaluations analysis t
  let hours ← remainingHours t outcomes
  let template ← rebuild { t.toActivityTemplateData with estimatedHours := hours }
  return (template, if hours = t.estimatedHours then [] else
    [remainingEffortMethod ++ ": " ++ t.actionId ++ " base_hours=" ++ toString t.estimatedHours ++
      "; least_outcome_credit=" ++ showCredit (leastCredit outcomes) ++ "; remaining_hours=" ++
      toString hours ++
      ". Modeled planning credit, not verified proficiency or hiring probability."])

/-- `_remaining_effort` for an analysis. `src/jobtology_be/product_roles/planning.py:71–96`. -/
def remainingEffort (showCredit : ℚ → String) (catalog : RuntimePlanningCatalog)
    (analysis : GapAnalysis) : Except RuntimeCatalogError RuntimePlanningCatalog := do
  let remaining ← catalog.templates.mapM (remainingTemplate showCredit analysis)
  let adjusted := remaining.flatMap Prod.snd
  return { catalog with
    templates := remaining.map Prod.fst
    decisions := catalog.decisions ++ adjusted
    policyVersion := catalog.policyVersion.or
      (if adjusted = [] then none else some remainingEffortMethod) }

/-! ### Product roles -/

/-- `title.removesuffix(" 학습")`. -/
def withoutLearning (title : String) : String :=
  if " 학습".toList <:+ title.toList then
    String.ofList (title.toList.take (title.length - 3))
  else title

/-- `action_ids[action_id]`. -/
def runtimeActionId (needsPortfolio : Bool) (actionId : String) : String :=
  if needsPortfolio then "portfolio:" ++ actionId else actionId

/-- The fields of a template as a product role plans it. -/
def productFields (needsPortfolio : Bool) (t : ActivityTemplate) (prerequisites : List String) :
    ActivityTemplateData := { t.toActivityTemplateData with
  actionId := runtimeActionId needsPortfolio t.actionId
  prerequisiteActionIds := prerequisites
  cost := .known 0
  title := if needsPortfolio then withoutLearning t.title ++ " 포트폴리오 프로젝트" else t.title
  completionCriteria := if needsPortfolio then t.completionCriteria ++
      ["학습 역량을 적용한 실행 가능한 프로젝트 결과물을 만든다",
        "코드 또는 결과물, 실행 예시, 역량 적용 설명을 README와 함께 포트폴리오로 정리한다"]
    else t.completionCriteria }

/-- A template as a product role plans it. -/
def productTemplate (needsPortfolio : Bool) (templates : List ActivityTemplate)
    (t : ActivityTemplate) : Except RuntimeCatalogError ActivityTemplate := do
  let prerequisites ← t.prerequisiteActionIds.mapM fun key ↦
    if key ∈ templates.map (·.actionId) then .ok (runtimeActionId needsPortfolio key)
    else .error (.missingKey key)
  rebuild (productFields needsPortfolio t prerequisites)

/-- The decisions that a product role is planned by. -/
def productDecisions (constraints : PlanningConstraints) : List String :=
  ["MODELED_ZERO_COST: Pricing is not modeled; product self-study costs are zero, " ++
    "not verified market prices."] ++
  (if constraints.needsPortfolio then
    ["PREFER_PORTFOLIO_PROJECTS: Use practical projects with a concrete " ++
      "portfolio deliverable for unmet competencies, preserving reviewed effort."] else []) ++
  (if constraints.careerSwitch then
    ["PRIORITIZE_UNMET_FOUNDATIONS: Prefer earlier foundational learning " ++
      "without adding prerequisite relationships or repeating satisfied skills."] else [])

/-- A release of product roles. -/
def IsProductRelease (snapshot : PublishedCorpusSnapshotData) : Prop :=
  snapshot.basisVersion = "product-roles-v1" ∧
    StartsWith (snapshot.release.releaseId.getD "") "product-roles-v1-"

instance (snapshot : PublishedCorpusSnapshotData) : Decidable (IsProductRelease snapshot) :=
  inferInstanceAs (Decidable (_ ∧ _))

/-- The catalog of a product role before the remaining effort is taken. -/
def productCatalog (snapshot : PublishedCorpusSnapshotData) (constraints : PlanningConstraints)
    (templates : List ActivityTemplate) : RuntimePlanningCatalog :=
  let actionIds := (snapshot.templates.map (·.actionId)).dedup
  let rename := runtimeActionId constraints.needsPortfolio
  { templates
    policyVersion := some productPlanningPolicyVersion
    decisions := productDecisions constraints
    foundationalActionIds := ((templates.filter (·.isFoundational)).map (·.actionId)).toFinset
    portfolioActionIds :=
      if constraints.needsPortfolio then (actionIds.map rename).toFinset else ∅
    actionIdMapping := (actionIds.insertionSort (· ≤ ·)).map fun a ↦ (a, rename a) }

/-- `product_planning_catalog` for an analysis.
`src/jobtology_be/product_roles/planning.py:30–68`. -/
def productPlanningCatalog (showCredit : ℚ → String) (snapshot : PublishedCorpusSnapshotData)
    (constraints : PlanningConstraints) (analysis : GapAnalysis) :
    Except RuntimeCatalogError RuntimePlanningCatalog :=
  if IsProductRelease snapshot then do
    let templates ← snapshot.templates.mapM
      (productTemplate constraints.needsPortfolio snapshot.templates)
    remainingEffort showCredit (productCatalog snapshot constraints templates) analysis
  else remainingEffort showCredit ⟨snapshot.templates, none, [], ∅, ∅, []⟩ analysis

/-! ### Laws -/

/-- A template as it is planned: renamed with its prerequisites, with the same outcomes. -/
structure Replans (rename : String → String) (t u : ActivityTemplate) : Prop where
  actionId : u.actionId = rename t.actionId
  revision : u.revision = t.revision
  outcomes : u.outcomeRequirementKeys = t.outcomeRequirementKeys
  prerequisites : u.prerequisiteActionIds = t.prerequisiteActionIds.map rename
  foundational : u.isFoundational = t.isFoundational

/-- A plan that is made anew twice is made anew. -/
theorem Replans.trans {rename : String → String} {t u v : ActivityTemplate}
    (htu : Replans rename t u) (huv : Replans (fun a ↦ a) u v) : Replans rename t v where
  actionId := huv.actionId.trans htu.actionId
  revision := huv.revision.trans htu.revision
  outcomes := huv.outcomes.trans htu.outcomes
  prerequisites := by rw [huv.prerequisites, List.map_id', htu.prerequisites]
  foundational := huv.foundational.trans htu.foundational

private theorem replans_trans {rename : String → String} {ts us vs : List ActivityTemplate}
    (htu : List.Forall₂ (Replans rename) ts us) (huv : List.Forall₂ (Replans fun a ↦ a) us vs) :
    List.Forall₂ (Replans rename) ts vs := by
  induction htu generalizing vs with
  | nil =>
    cases huv
    exact .nil
  | cons h _ ih =>
    cases huv with
    | cons h' hrest => exact .cons (h.trans h') (ih hrest)

/-- What is rebuilt has the data that it is rebuilt from. -/
theorem rebuild_ok {t : ActivityTemplateData} {u : ActivityTemplate} (h : rebuild t = .ok u) :
    u.toActivityTemplateData = t := by
  unfold rebuild at h
  split at h
  · rw [← Except.ok.inj h]
  · cases h

private theorem exists_rebuild {t : ActivityTemplateData} (h : t.postInit = .ok ()) :
    ∃ u, rebuild t = .ok u := by
  unfold rebuild
  split
  · exact ⟨_, rfl⟩
  · next hfails =>
    rw [h] at hfails
    cases hfails

section Effort

variable {analysis : GapAnalysis} {t : ActivityTemplate}

private theorem exists_outcomeEvaluations
    (h : ∀ key ∈ t.outcomeRequirementKeys, key ∈ analysis.requirements.map (·.requirementKey)) :
    ∃ outcomes, outcomeEvaluations analysis t = .ok outcomes := by
  unfold outcomeEvaluations
  rw [exists_mapM_ok_iff]
  intro key hkey
  have hmem := h key ((mem_sortedSet _ _).mp hkey)
  rw [analysis.scored, List.map_map] at hmem
  cases hfound : lookupLast (·.requirementKey) analysis.evaluations key with
  | none =>
    obtain ⟨item, hitem, hid⟩ := List.mem_map.mp hmem
    exact absurd hid (lookupLast_eq_none.mp hfound item hitem)
  | some item => exact ⟨item, rfl⟩

/-- The hours that remain are those of the arithmetic of floats. -/
theorem remainingLearningHours_ok {baseHours hours : Int} {credit : ℚ}
    (h : remainingLearningHours baseHours credit = .ok hours) :
    hours = max 0 ⌈binary64 (binary64 baseHours * binary64 (1 - binary64 credit))⌉ := by
  unfold remainingLearningHours floatOfInt at h
  split_ifs at h
  · exact (Except.ok.inj h).symm

/-- Partial credit leaves at least one hour. -/
theorem remainingHours_partial {outcomes : List ScoredEvaluation} {hours : Int}
    (hany : outcomes.any (·.status = .partialCredit) = true)
    (h : remainingHours t outcomes = .ok hours) :
    ∃ left, remainingLearningHours t.estimatedHours (leastCredit outcomes) = .ok left ∧
      hours = max 1 left := by
  unfold remainingHours at h
  rw [if_pos hany] at h
  cases hleft : remainingLearningHours t.estimatedHours (leastCredit outcomes) with
  | error e =>
    rw [hleft] at h
    cases h
  | ok left =>
    rw [hleft] at h
    exact ⟨left, rfl, (Except.ok.inj h).symm⟩

/-- Without partial credit a template keeps its hours. -/
theorem remainingHours_whole {outcomes : List ScoredEvaluation}
    (hnone : ¬ outcomes.any (·.status = .partialCredit) = true) :
    remainingHours t outcomes = .ok t.estimatedHours := if_neg hnone

/-- A float holds the hours of the template. -/
def FitsFloat (t : ActivityTemplate) : Prop := |binary64 t.estimatedHours| < 2 ^ 1024

instance : DecidablePred FitsFloat := fun _ ↦ inferInstanceAs (Decidable (_ < _))

/-- Hours are left of a template, unless no float holds its own. -/
theorem exists_remainingHours (hfits : FitsFloat t) (outcomes : List ScoredEvaluation) :
    ∃ hours, remainingHours t outcomes = .ok hours ∧ 0 < hours := by
  unfold remainingHours
  split
  · unfold remainingLearningHours floatOfInt
    rw [if_pos (show |binary64 t.estimatedHours| < 2 ^ 1024 from hfits)]
    exact ⟨_, rfl, Int.zero_lt_one.trans_le (le_max_left _ _)⟩
  · exact ⟨_, rfl, t.estimatedHours_pos⟩

/-- The effort of a template of known outcomes is adjusted, and nothing else of it. -/
theorem remainingTemplate_ok (showCredit : ℚ → String) (hfits : FitsFloat t)
    (h : ∀ key ∈ t.outcomeRequirementKeys, key ∈ analysis.requirements.map (·.requirementKey)) :
    ∃ r, remainingTemplate showCredit analysis t = .ok r ∧ Replans (fun a ↦ a) t r.1 := by
  obtain ⟨outcomes, houtcomes⟩ := exists_outcomeEvaluations h
  obtain ⟨hours, hremaining, hpositive⟩ := exists_remainingHours hfits outcomes
  obtain ⟨hnamed, hrevision, -, hcriteria, hsupport⟩ := t.postInit_ok_iff.mp t.accepted
  let data := { t.toActivityTemplateData with estimatedHours := hours }
  have haccepted : data.postInit = .ok () :=
    data.postInit_ok_iff.mpr ⟨hnamed, hrevision, hpositive, hcriteria, hsupport⟩
  obtain ⟨u, hu⟩ := exists_rebuild haccepted
  refine ⟨(u, _), bind_eq_ok.mpr ⟨outcomes, houtcomes, bind_eq_ok.mpr ⟨hours, hremaining,
    bind_eq_ok.mpr ⟨u, hu, rfl⟩⟩⟩, ?_⟩
  have hdata := rebuild_ok hu
  constructor
  case prerequisites => rw [hdata, List.map_id']
  all_goals rw [hdata]

/-- The effort of a catalog of known outcomes is adjusted. -/
theorem remainingEffort_ok (showCredit : ℚ → String) (catalog : RuntimePlanningCatalog)
    (hfits : ∀ t ∈ catalog.templates, FitsFloat t)
    (h : ∀ t ∈ catalog.templates, ∀ key ∈ t.outcomeRequirementKeys,
      key ∈ analysis.requirements.map (·.requirementKey)) :
    ∃ result, remainingEffort showCredit catalog analysis = .ok result ∧
      List.Forall₂ (Replans fun a ↦ a) catalog.templates result.templates := by
  obtain ⟨remaining, hremaining⟩ := exists_mapM_ok_iff.mpr fun t ht ↦
    (remainingTemplate_ok showCredit (hfits t ht) (h t ht)).imp fun _ hr ↦ hr.1
  refine ⟨_, bind_eq_ok.mpr ⟨remaining, hremaining, rfl⟩, ?_⟩
  rw [List.forall₂_map_right_iff]
  have hall := forall₂_of_mapM_ok hremaining
  refine ((List.forall₂_and_left _ _).mpr ⟨fun t ht ↦ And.intro (hfits t ht) (h t ht), hall⟩).imp
    fun t r htr ↦ ?_
  obtain ⟨r', hr', hreplans⟩ := remainingTemplate_ok showCredit htr.1.1 htr.1.2
  obtain rfl := Except.ok.inj (hr'.symm.trans htr.2)
  exact hreplans

end Effort

/-- How the actions of a snapshot are renamed for planning. -/
def planningActionId (snapshot : PublishedCorpusSnapshotData) (constraints : PlanningConstraints) :
    String → String :=
  if IsProductRelease snapshot then runtimeActionId constraints.needsPortfolio else fun a ↦ a

/-- The planned ids of activities are distinct. -/
theorem planningActionId_injective (snapshot : PublishedCorpusSnapshotData)
    (constraints : PlanningConstraints) :
    Function.Injective (planningActionId snapshot constraints) := by
  intro a b h
  unfold planningActionId runtimeActionId at h
  split at h
  · split at h
    · exact (String.append_right_inj _).mp h
    · exact h
  · exact h

/-- A product role keeps the hours of a template until the remaining effort is taken. -/
theorem productTemplate_hours {needsPortfolio : Bool} {templates : List ActivityTemplate}
    {t u : ActivityTemplate} (h : productTemplate needsPortfolio templates t = .ok u) :
    u.estimatedHours = t.estimatedHours := by
  obtain ⟨prerequisites, -, h⟩ := bind_eq_ok.mp h
  rw [rebuild_ok h]
  rfl

private theorem productTemplate_ok (needsPortfolio : Bool) {templates : List ActivityTemplate}
    {t : ActivityTemplate}
    (h : ∀ a ∈ t.prerequisiteActionIds, a ∈ templates.map (·.actionId)) :
    ∃ u, productTemplate needsPortfolio templates t = .ok u ∧
      Replans (runtimeActionId needsPortfolio) t u := by
  have hprerequisites : (t.prerequisiteActionIds.mapM fun key ↦
      if key ∈ templates.map (·.actionId) then .ok (runtimeActionId needsPortfolio key)
      else .error (.missingKey key)) =
        (.ok (t.prerequisiteActionIds.map (runtimeActionId needsPortfolio)) :
          Except RuntimeCatalogError _) := by
    generalize t.prerequisiteActionIds = keys at h
    induction keys with
    | nil => rfl
    | cons key rest ih =>
      rw [List.mapM_cons, if_pos (h key List.mem_cons_self)]
      exact bind_eq_ok.mpr ⟨_, rfl, bind_eq_ok.mpr
        ⟨_, ih fun a ha ↦ h a (List.mem_cons_of_mem _ ha), rfl⟩⟩
  obtain ⟨hnamed, hrevision, heffort, hcriteria, hsupport⟩ := t.postInit_ok_iff.mp t.accepted
  let fields := productFields needsPortfolio t
    (t.prerequisiteActionIds.map (runtimeActionId needsPortfolio))
  have haccepted : fields.postInit = .ok () := by
    refine (ActivityTemplateData.postInit_ok_iff _).mpr ⟨?_, hrevision, heffort, ?_, hsupport⟩
    · change isBlank (runtimeActionId needsPortfolio t.actionId) = false
      unfold runtimeActionId
      split
      · exact isBlank_eq_false 'p' (by simp) (by decide)
      · exact hnamed
    · change (if needsPortfolio then _ else t.completionCriteria) ≠ []
      split
      · exact List.append_ne_nil_of_right_ne_nil _ (List.cons_ne_nil _ _)
      · exact hcriteria
  obtain ⟨u, hu⟩ := exists_rebuild haccepted
  have hdata := rebuild_ok hu
  refine ⟨u, bind_eq_ok.mpr ⟨_, hprerequisites, hu⟩, ?_, ?_, ?_, ?_, ?_⟩
  all_goals
    rw [hdata]
    rfl

/-- The catalog of an accepted snapshot can be planned for an analysis of its requirements. -/
theorem productPlanningCatalog_ok (showCredit : ℚ → String) (snapshot : PublishedCorpusSnapshot)
    (constraints : PlanningConstraints) {analysis : GapAnalysis}
    (hclosed : ClosedCatalog snapshot.templates) (hfits : ∀ t ∈ snapshot.templates, FitsFloat t)
    (hkeys : ∀ t ∈ snapshot.templates, ∀ key ∈ t.outcomeRequirementKeys,
      key ∈ analysis.requirements.map (·.requirementKey)) :
    ∃ catalog, productPlanningCatalog showCredit snapshot.toPublishedCorpusSnapshotData constraints
        analysis = .ok catalog ∧
      List.Forall₂ (Replans (planningActionId snapshot.toPublishedCorpusSnapshotData constraints))
        snapshot.templates catalog.templates := by
  unfold productPlanningCatalog planningActionId
  by_cases hproduct : IsProductRelease snapshot.toPublishedCorpusSnapshotData
  · rw [if_pos hproduct, if_pos hproduct]
    obtain ⟨templates, htemplates⟩ := exists_mapM_ok_iff.mpr fun t ht ↦
      (productTemplate_ok constraints.needsPortfolio (hclosed t ht)).imp
        fun _ hu ↦ hu.1
    have hall := forall₂_of_mapM_ok htemplates
    have hreplans : List.Forall₂ (Replans (runtimeActionId constraints.needsPortfolio))
        snapshot.templates templates := by
      refine ((List.forall₂_and_left _ _).mpr ⟨fun t ht ↦ hclosed t ht, hall⟩).imp fun t u htu ↦ ?_
      obtain ⟨u', hu', hreplans⟩ := productTemplate_ok constraints.needsPortfolio htu.1
      obtain rfl := Except.ok.inj (hu'.symm.trans htu.2)
      exact hreplans
    have hknown : ∀ u ∈ templates, ∀ key ∈ u.outcomeRequirementKeys,
        key ∈ analysis.requirements.map (·.requirementKey) := by
      intro u hu key hkey
      obtain ⟨t, ht, htu⟩ := exists_of_mem_right hreplans hu
      exact hkeys t ht key (htu.outcomes ▸ hkey)
    have hfloats : ∀ u ∈ templates, FitsFloat u := by
      intro u hu
      obtain ⟨t, ht, htu⟩ := exists_of_mem_right hall hu
      unfold FitsFloat
      rw [productTemplate_hours htu]
      exact hfits t ht
    obtain ⟨result, hresult, hadjusted⟩ := remainingEffort_ok showCredit
      (productCatalog snapshot.toPublishedCorpusSnapshotData constraints templates) hfloats hknown
    refine ⟨result, bind_eq_ok.mpr ⟨templates, htemplates, hresult⟩, ?_⟩
    exact replans_trans hreplans hadjusted
  · rw [if_neg hproduct, if_neg hproduct]
    exact remainingEffort_ok showCredit _ hfits hkeys

/-! ### Renamed catalogs -/

section Renamed

variable {rename : String → String} {ts us : List ActivityTemplate}

private theorem map_actionId (h : List.Forall₂ (Replans rename) ts us) :
    us.map (·.actionId) = (ts.map (·.actionId)).map rename := by
  induction h with
  | nil => rfl
  | cons htu _ ih => rw [List.map_cons, List.map_cons, List.map_cons, htu.actionId, ih]

/-- A prerequisite of a renamed catalog is a renamed prerequisite. -/
theorem edge_renamed (hrename : Function.Injective rename)
    (h : List.Forall₂ (Replans rename) ts us) (hn : (ts.map (·.actionId)).Nodup) {a : String}
    {y : String} (hedge : Edge (prerequisitesOf us) (rename a) y) :
    ∃ b, y = rename b ∧ Edge (prerequisitesOf ts) a b := by
  obtain ⟨u, hu, hid, hmem⟩ := mem_prerequisitesOf hedge
  obtain ⟨t, ht, htu⟩ := exists_of_mem_right h hu
  rw [htu.prerequisites, List.mem_map] at hmem
  obtain ⟨b, hb, rfl⟩ := hmem
  refine ⟨b, rfl, ?_⟩
  have hsource : t.actionId = a := hrename (htu.actionId.symm.trans hid)
  subst hsource
  unfold Edge prerequisitesOf
  rw [templateOf_of_mem hn ht]
  simpa [sortedPrerequisites] using hb

private theorem transGen_renamed (hrename : Function.Injective rename)
    (h : List.Forall₂ (Replans rename) ts us) (hn : (ts.map (·.actionId)).Nodup) {a y : String}
    (hreach : Relation.TransGen (Edge (prerequisitesOf us)) (rename a) y) :
    ∃ b, y = rename b ∧ Relation.TransGen (Edge (prerequisitesOf ts)) a b := by
  induction hreach with
  | single hedge =>
    obtain ⟨b, rfl, hb⟩ := edge_renamed hrename h hn hedge
    exact ⟨b, rfl, .single hb⟩
  | tail _ hedge ih =>
    obtain ⟨b, rfl, hb⟩ := ih
    obtain ⟨c, rfl, hc⟩ := edge_renamed hrename h hn hedge
    exact ⟨c, rfl, hb.tail hc⟩

/-- A catalog that is renamed one to one is accepted like the one it was. -/
theorem generatorPostInit_renamed (hrename : Function.Injective rename)
    (h : List.Forall₂ (Replans rename) ts us) (haccepted : generatorPostInit ts = .ok ()) :
    generatorPostInit us = .ok () := by
  obtain ⟨hn, hclosed, hacyclic⟩ := (generatorPostInit_ok_iff ts).mp haccepted
  refine (generatorPostInit_ok_iff us).mpr ⟨?_, fun u hu y hy ↦ ?_, fun x hcycle ↦ ?_⟩
  · rw [map_actionId h]
    exact hn.map hrename
  · obtain ⟨t, ht, htu⟩ := exists_of_mem_right h hu
    rw [htu.prerequisites] at hy
    obtain ⟨a, ha, rfl⟩ := List.mem_map.mp hy
    rw [map_actionId h]
    exact List.mem_map_of_mem (hclosed t ht a ha)
  · obtain ⟨y, hedge, -⟩ := Relation.TransGen.head'_iff.mp hcycle
    obtain ⟨u, hu, rfl, -⟩ := mem_prerequisitesOf hedge
    obtain ⟨t, -, htu⟩ := exists_of_mem_right h hu
    rw [htu.actionId] at hcycle
    obtain ⟨b, hb, hreach⟩ := transGen_renamed hrename h hn hcycle
    obtain rfl := hrename hb
    exact hacyclic _ hreach

end Renamed

end Jobtology.ProductRoles
