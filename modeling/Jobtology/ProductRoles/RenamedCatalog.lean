import Jobtology.Analyses.GapMonotonicity
import Jobtology.ProductRoles.Planning

/-!
# Renamed planning catalogs

The portfolio renaming of `product_roles/planning.py` keeps the order of action keys, so candidate
generation on a renamed catalog gives the renamed candidates and the same blockers. The effort that
is left of an activity falls with the credit of its outcomes until all of them are satisfied.
-/

namespace Jobtology.ProductRoles

open Jobtology.Base Jobtology.Analyses Jobtology.Corpus Jobtology.Planning

/-- A candidate under a renaming of the actions. -/
structure RenamesCandidate (rename : String → String) (c d : Candidate) : Prop where
  actionId : d.actionId = rename c.actionId
  templateRevision : d.templateRevision = c.templateRevision
  outcomes : d.outcomeRequirementKeys = c.outcomeRequirementKeys
  prerequisites : d.prerequisiteActionIds = c.prerequisiteActionIds.map rename
  fulfilled : d.fulfilledPrerequisiteActionIds = c.fulfilledPrerequisiteActionIds.map rename

/-- A candidate set under a renaming of the actions. -/
structure RenamesSet (rename : String → String) (s s' : CandidateSet) : Prop where
  candidates : List.Forall₂ (RenamesCandidate rename) s.candidates s'.candidates
  blockers : s'.blockers = s.blockers

/-! ### The order of renamed keys -/

private theorem strictMono_append (start : String) : StrictMono (start ++ ·) := by
  intro a b h
  rw [String.lt_iff_toList_lt] at h ⊢
  rw [String.toList_append, String.toList_append]
  exact List.append_left_lt h

private theorem planningActionId_strictMono (snapshot : PublishedCorpusSnapshotData)
    (constraints : PlanningConstraints) : StrictMono (planningActionId snapshot constraints) := by
  unfold planningActionId
  split
  · unfold runtimeActionId
    split
    · exact strictMono_append "portfolio:"
    · exact strictMono_id
  · exact strictMono_id

/-- Matching sequences that are ordered alike match when they are sorted. -/
theorem forall₂_orderedInsert {α β : Type} {R : α → β → Prop} {le : α → α → Prop}
    {le' : β → β → Prop} [DecidableRel le] [DecidableRel le']
    (hle : ∀ a a' b b', R a a' → R b b' → (le a b ↔ le' a' b')) {x : α} {y : β} (hxy : R x y)
    {xs : List α} {ys : List β} (h : List.Forall₂ R xs ys) :
    List.Forall₂ R (xs.orderedInsert le x) (ys.orderedInsert le' y) := by
  induction h with
  | nil => exact .cons hxy .nil
  | @cons a b _ _ hab hrest ih =>
    rw [List.orderedInsert_cons, List.orderedInsert_cons]
    by_cases hle' : le x a
    · rw [if_pos hle', if_pos ((hle _ _ _ _ hxy hab).mp hle')]
      exact .cons hxy (.cons hab hrest)
    · rw [if_neg hle', if_neg fun h ↦ hle' ((hle _ _ _ _ hxy hab).mpr h)]
      exact .cons hab ih

private theorem forall₂_insertionSort {α β : Type} {R : α → β → Prop} {le : α → α → Prop}
    {le' : β → β → Prop} [DecidableRel le] [DecidableRel le']
    (hle : ∀ a a' b b', R a a' → R b b' → (le a b ↔ le' a' b')) {xs : List α} {ys : List β}
    (h : List.Forall₂ R xs ys) :
    List.Forall₂ R (xs.insertionSort le) (ys.insertionSort le') := by
  induction h with
  | nil => exact .nil
  | cons hab _ ih =>
    rw [List.insertionSort_cons, List.insertionSort_cons]
    exact forall₂_orderedInsert hle hab ih

/-! ### Candidate generation -/

section Generation

variable {rename : String → String} {ts us : List ActivityTemplate} {analysis : EditorialAnalysis}

/-- The template of a renamed action is the renamed template. -/
theorem templateOf_renamed (hrename : Function.Injective rename)
    (h : List.Forall₂ (Replans rename) ts us) (a : String) :
    Option.Rel (Replans rename) (templateOf ts a) (templateOf us (rename a)) := by
  unfold templateOf
  induction h with
  | nil => exact .none
  | @cons t u _ _ htu _ ih =>
    by_cases ha : t.actionId = a
    · have hu : u.actionId = rename a := by rw [htu.actionId, ha]
      rw [List.find?_cons_of_pos (by simpa using ha), List.find?_cons_of_pos (by simpa using hu)]
      exact .some htu
    · have hu : ¬ u.actionId = rename a := by
        rw [htu.actionId]
        exact fun hid ↦ ha (hrename hid)
      rw [List.find?_cons_of_neg (by simpa using ha), List.find?_cons_of_neg (by simpa using hu)]
      exact ih

private theorem isSatisfiedFoundation_renamed {t u : ActivityTemplate} (h : Replans rename t u) :
    isSatisfiedFoundation analysis u = isSatisfiedFoundation analysis t := by
  unfold isSatisfiedFoundation
  rw [h.foundational, h.outcomes]

private theorem map_insertionSort_le (hmono : StrictMono rename) (keys : List String) :
    (keys.map rename).insertionSort (· ≤ ·) = (keys.insertionSort (· ≤ ·)).map rename :=
  (List.map_insertionSort (· ≤ ·) (· ≤ ·) rename keys fun _ _ _ _ ↦ hmono.le_iff_le.symm).symm

private theorem fulfilledPrerequisites_renamed (hmono : StrictMono rename)
    (h : List.Forall₂ (Replans rename) ts us) {t u : ActivityTemplate} (htu : Replans rename t u) :
    fulfilledPrerequisites us analysis u =
      (fulfilledPrerequisites ts analysis t).map rename := by
  have hany (a : String) : (templateOf us (rename a)).any (isSatisfiedFoundation analysis) =
      (templateOf ts a).any (isSatisfiedFoundation analysis) := by
    have hrel := templateOf_renamed hmono.injective h a
    generalize templateOf ts a = found at hrel
    generalize templateOf us (rename a) = found' at hrel
    cases hrel with
    | none => rfl
    | some hvw => exact isSatisfiedFoundation_renamed hvw
  unfold fulfilledPrerequisites
  rw [htu.prerequisites, ← map_insertionSort_le hmono, List.filter_map]
  congr 2
  apply List.filter_congr
  intro a _
  exact hany a

private theorem openPrerequisites_renamed (hmono : StrictMono rename)
    (h : List.Forall₂ (Replans rename) ts us) {t u : ActivityTemplate} (htu : Replans rename t u) :
    openPrerequisites us analysis u = (openPrerequisites ts analysis t).map rename := by
  unfold openPrerequisites sortedPrerequisites
  rw [fulfilledPrerequisites_renamed hmono h htu, htu.prerequisites, map_insertionSort_le hmono,
    List.filter_map]
  congr 1
  apply List.filter_congr
  intro a _
  simp only [Function.comp_apply, List.mem_map_of_injective hmono.injective]

private theorem candidateOf_renamed (hmono : StrictMono rename)
    (h : List.Forall₂ (Replans rename) ts us) {t u : ActivityTemplate} (htu : Replans rename t u) :
    RenamesCandidate rename (candidateOf ts analysis t) (candidateOf us analysis u) where
  actionId := htu.actionId
  templateRevision := htu.revision
  outcomes := htu.outcomes
  prerequisites := openPrerequisites_renamed hmono h htu
  fulfilled := fulfilledPrerequisites_renamed hmono h htu

/-- The collections of an expansion under a renaming. -/
structure RenamesExpansion (rename : String → String) (st st' : Expansion) : Prop where
  included : st'.included = st.included.map rename
  candidates : List.Forall₂ (RenamesCandidate rename) st.candidates st'.candidates

private theorem includeActivity_renamed (hmono : StrictMono rename)
    (h : List.Forall₂ (Replans rename) ts us) (rounds : Nat) {st st' : Expansion}
    (hst : RenamesExpansion rename st st') (a : String) :
    RenamesExpansion rename (includeActivity ts analysis rounds st a)
      (includeActivity us analysis rounds st' (rename a)) := by
  induction rounds generalizing st st' a with
  | zero => exact hst
  | succ rounds ih =>
    have hfold (keys : List String) {st st' : Expansion} (hst : RenamesExpansion rename st st') :
        RenamesExpansion rename (keys.foldl (includeActivity ts analysis rounds) st)
          ((keys.map rename).foldl (includeActivity us analysis rounds) st') := by
      induction keys generalizing st st' with
      | nil => exact hst
      | cons key rest ihrest => exact ihrest (ih hst key)
    unfold includeActivity
    have hincluded : rename a ∈ st'.included ↔ a ∈ st.included := by
      rw [hst.included, List.mem_map_of_injective hmono.injective]
    by_cases ha : a ∈ st.included
    · rw [if_pos ha, if_pos (hincluded.mpr ha)]
      exact hst
    · rw [if_neg ha, if_neg (hincluded.not.mpr ha)]
      have hrel := templateOf_renamed hmono.injective h a
      generalize templateOf ts a = found at hrel
      generalize templateOf us (rename a) = found' at hrel
      cases hrel with
      | none => exact hst
      | @some t u htu =>
        have hbefore := hfold (openPrerequisites ts analysis t) hst
        dsimp only
        rw [openPrerequisites_renamed hmono h htu]
        constructor
        case included =>
          rw [hbefore.included]
          rfl
        case candidates =>
          exact List.rel_append hbefore.candidates (.cons (candidateOf_renamed hmono h htu) .nil)

private theorem expand_renamed (hmono : StrictMono rename) (h : List.Forall₂ (Replans rename) ts us)
    {roots roots' : List ActivityTemplate} (hroots : List.Forall₂ (Replans rename) roots roots') :
    List.Forall₂ (RenamesCandidate rename) (expand roots ts analysis)
      (expand roots' us analysis) := by
  unfold expand
  rw [h.length_eq]
  have hstart : RenamesExpansion rename ⟨[], []⟩ ⟨[], []⟩ := ⟨rfl, .nil⟩
  generalize (⟨[], []⟩ : Expansion) = st at hstart
  suffices hfold : ∀ st' : Expansion, RenamesExpansion rename st st' →
      RenamesExpansion rename
        (roots.foldl (fun st root ↦
          includeActivity ts analysis (us.length + 1) st root.actionId) st)
        (roots'.foldl (fun st root ↦
          includeActivity us analysis (us.length + 1) st root.actionId) st') from
    (hfold st hstart).candidates
  clear hstart
  induction hroots generalizing st with
  | nil => exact fun st' hst ↦ hst
  | cons htu _ ih =>
    intro st' hst
    rw [List.foldl_cons, List.foldl_cons, htu.actionId]
    exact ih _ _ (includeActivity_renamed hmono h _ hst _)

private theorem rootTemplates_renamed (hmono : StrictMono rename)
    (h : List.Forall₂ (Replans rename) ts us) :
    List.Forall₂ (Replans rename) (rootTemplates ts analysis) (rootTemplates us analysis) := by
  have hsorted := @forall₂_insertionSort _ _ (Replans rename)
    (fun a b : ActivityTemplate ↦ a.actionId ≤ b.actionId)
    (fun a b : ActivityTemplate ↦ a.actionId ≤ b.actionId) _ _
    (fun _ _ _ _ ha hb ↦ by rw [ha.actionId, hb.actionId, hmono.le_iff_le]) _ _ h
  refine List.rel_filter (fun t u htu ↦ ?_) hsorted
  dsimp only
  rw [htu.outcomes]

private theorem catalogOf_generator (g : CandidateGenerator) :
    catalogOf g.templates = .ok g.templates :=
  (catalogOf_ok_iff _ _).mpr ⟨((generatorPostInit_ok_iff g.templates).mp g.accepted).1, rfl⟩

/-- A renamed catalog gives the renamed candidates and the same blockers. -/
theorem build_renamed (hmono : StrictMono rename) (g g' : CandidateGenerator)
    (h : List.Forall₂ (Replans rename) g.templates g'.templates)
    (hknown : ∀ t ∈ g.templates, ∀ key ∈ t.outcomeRequirementKeys,
      key ∈ analysis.requirements.map (·.requirementKey)) :
    ∃ s s', build g analysis = .ok s ∧ build g' analysis = .ok s' ∧ RenamesSet rename s s' := by
  have hknown' : ∀ u ∈ g'.templates, ∀ key ∈ u.outcomeRequirementKeys,
      key ∈ analysis.requirements.map (·.requirementKey) := by
    intro u hu key hkey
    obtain ⟨t, ht, htu⟩ := exists_of_mem_right h hu
    exact hknown t ht key (htu.outcomes ▸ hkey)
  have hroots := @rootTemplates_renamed rename _ _ analysis hmono h
  unfold build
  cases hstatus : analysis.analysisStatus with
  | insufficientData => exact ⟨_, _, rfl, rfl, .nil, rfl⟩
  | ready =>
    simp only [buildReady, catalogOf_generator, Except.mapError, bind, Except.bind,
      (validateOutcomes_ok_iff _ _).mpr hknown, (validateOutcomes_ok_iff _ _).mpr hknown']
    refine ⟨_, _, rfl, rfl, expand_renamed hmono h hroots, ?_⟩
    have hserved (r : RequirementEvaluation) :
        ((rootTemplates g'.templates analysis).filter
            fun t ↦ r.requirementKey ∈ t.outcomeRequirementKeys).isEmpty =
          ((rootTemplates g.templates analysis).filter
            fun t ↦ r.requirementKey ∈ t.outcomeRequirementKeys).isEmpty := by
      have hfiltered := List.rel_filter (p := fun t : ActivityTemplate ↦
        decide (r.requirementKey ∈ t.outcomeRequirementKeys))
        (q := fun t : ActivityTemplate ↦ decide (r.requirementKey ∈ t.outcomeRequirementKeys))
        (fun t u htu ↦ by dsimp only; rw [htu.outcomes]) hroots
      rw [Bool.eq_iff_iff, List.isEmpty_iff_length_eq_zero, List.isEmpty_iff_length_eq_zero,
        hfiltered.length_eq]
    simp only [candidateSet, hserved]

end Generation

/-! ### Planned catalogs -/

/-- A template as it is planned for an analysis: renamed, with the hours that are left. -/
structure PlansFor (rename : String → String) (analysis : GapAnalysis)
    (t u : ActivityTemplate) : Prop extends Replans rename t u where
  hours : ∃ outcomes, outcomeEvaluations analysis t = .ok outcomes ∧
    remainingHours t outcomes = .ok u.estimatedHours

section Planned

variable {showCredit : ℚ → String} {analysis : GapAnalysis}

private theorem remainingTemplate_inv {t : ActivityTemplate} {r : ActivityTemplate × List String}
    (h : remainingTemplate showCredit analysis t = .ok r) :
    PlansFor (fun a ↦ a) analysis t r.1 := by
  obtain ⟨outcomes, houtcomes, h⟩ := bind_eq_ok.mp h
  obtain ⟨hours, hremaining, h⟩ := bind_eq_ok.mp h
  obtain ⟨u, hu, h⟩ := bind_eq_ok.mp h
  obtain rfl := Except.ok.inj h
  have hdata := rebuild_ok hu
  constructor
  case hours => exact ⟨outcomes, houtcomes, by rw [hdata, hremaining]⟩
  case toReplans =>
    constructor
    case prerequisites => rw [hdata, List.map_id']
    all_goals rw [hdata]

private theorem remainingEffort_inv {catalog result : RuntimePlanningCatalog}
    (h : remainingEffort showCredit catalog analysis = .ok result) :
    List.Forall₂ (PlansFor (fun a ↦ a) analysis) catalog.templates result.templates := by
  obtain ⟨remaining, hremaining, h⟩ := bind_eq_ok.mp h
  obtain rfl := Except.ok.inj h
  rw [List.forall₂_map_right_iff]
  exact (forall₂_of_mapM_ok hremaining).imp fun _ _ ↦ remainingTemplate_inv

private theorem productTemplate_inv {needsPortfolio : Bool} {templates : List ActivityTemplate}
    {t u : ActivityTemplate} (h : productTemplate needsPortfolio templates t = .ok u) :
    Replans (runtimeActionId needsPortfolio) t u := by
  obtain ⟨prerequisites, hprerequisites, h⟩ := bind_eq_ok.mp h
  have hnames : prerequisites =
      t.prerequisiteActionIds.map (runtimeActionId needsPortfolio) := by
    have hmatch := forall₂_of_mapM_ok hprerequisites
    generalize t.prerequisiteActionIds = keys at hmatch
    clear h hprerequisites
    induction hmatch with
    | nil => rfl
    | cons hkey _ ih =>
      split at hkey
      · rw [List.map_cons, ih, ← Except.ok.inj hkey]
      · cases hkey
  have hdata := rebuild_ok h
  constructor
  case prerequisites =>
    rw [hdata, ← hnames]
    rfl
  all_goals
    rw [hdata]
    rfl

private theorem plansFor_trans {rename : String → String} {ts us vs : List ActivityTemplate}
    (htu : List.Forall₂ (fun t u ↦ Replans rename t u ∧ u.estimatedHours = t.estimatedHours) ts us)
    (huv : List.Forall₂ (PlansFor (fun a ↦ a) analysis) us vs) :
    List.Forall₂ (PlansFor rename analysis) ts vs := by
  induction htu generalizing vs with
  | nil =>
    cases huv
    exact .nil
  | @cons t u _ _ h _ ih =>
    cases huv with
    | cons h' hrest =>
      refine .cons ⟨h.1.trans h'.toReplans, ?_⟩ (ih hrest)
      obtain ⟨outcomes, houtcomes, hhours⟩ := h'.hours
      unfold outcomeEvaluations at houtcomes
      rw [h.1.outcomes] at houtcomes
      refine ⟨outcomes, houtcomes, ?_⟩
      unfold remainingHours at hhours ⊢
      rw [← h.2]
      exact hhours

/-- Every catalog that is planned has each template of the snapshot, as it is planned for the
analysis. -/
theorem productPlanningCatalog_inv {snapshot : PublishedCorpusSnapshotData}
    {constraints : PlanningConstraints} {catalog : RuntimePlanningCatalog}
    (h : productPlanningCatalog showCredit snapshot constraints analysis = .ok catalog) :
    List.Forall₂ (PlansFor (planningActionId snapshot constraints) analysis)
      snapshot.templates catalog.templates := by
  unfold productPlanningCatalog at h
  unfold planningActionId
  by_cases hproduct : IsProductRelease snapshot
  · rw [if_pos hproduct] at h ⊢
    obtain ⟨templates, htemplates, h⟩ := bind_eq_ok.mp h
    have hrenamed := (forall₂_of_mapM_ok htemplates).imp fun _ _ hu ↦
      And.intro (productTemplate_inv hu) (productTemplate_hours hu)
    exact plansFor_trans hrenamed (remainingEffort_inv h)
  · rw [if_neg hproduct] at h ⊢
    exact remainingEffort_inv h

/-- The outcomes of a planned catalog are requirements of the analysis. -/
theorem known_of_outcomeEvaluations {t : ActivityTemplate} {outcomes : List ScoredEvaluation}
    (h : outcomeEvaluations analysis t = .ok outcomes) :
    ∀ key ∈ t.outcomeRequirementKeys, key ∈ analysis.requirements.map (·.requirementKey) := by
  intro key hkey
  obtain ⟨item, hitem⟩ := exists_mapM_ok_iff.mp ⟨outcomes, h⟩ key ((mem_sortedSet _ _).mpr hkey)
  split at hitem
  · next hfound =>
    obtain ⟨hmem, hid⟩ := lookupLast_some hfound
    rw [analysis.scored, List.map_map]
    exact List.mem_map.mpr ⟨_, hmem, hid⟩
  · cases hitem

end Planned

/-! ### Remaining effort -/

section Effort

variable {t : ActivityTemplate} {outcomes outcomes' : List ScoredEvaluation}

private theorem leastCredit_le {e : ScoredEvaluation} (he : e ∈ outcomes) :
    leastCredit outcomes ≤ e.credit := by
  unfold leastCredit
  cases hmin : (outcomes.map (·.credit)).min? with
  | none =>
    rw [List.min?_eq_none_iff, List.map_eq_nil_iff] at hmin
    rw [hmin] at he
    cases he
  | some least => exact (List.min?_eq_some_iff.mp hmin).2 _ (List.mem_map_of_mem he)

private theorem leastCredit_nonneg (h : ∀ e ∈ outcomes, e.IsScored) :
    0 ≤ leastCredit outcomes := by
  unfold leastCredit
  cases hmin : (outcomes.map (·.credit)).min? with
  | none => exact le_rfl
  | some least =>
    obtain ⟨e, he, hleast⟩ := List.mem_map.mp (List.min?_eq_some_iff.mp hmin).1
    rw [Option.getD_some, ← hleast]
    exact (h e he).nonneg

/-- The least credit is that of an outcome. -/
theorem exists_leastCredit (h : outcomes ≠ []) :
    ∃ e ∈ outcomes, leastCredit outcomes = e.credit := by
  unfold leastCredit
  cases hmin : (outcomes.map (·.credit)).min? with
  | none =>
    rw [List.min?_eq_none_iff, List.map_eq_nil_iff] at hmin
    exact absurd hmin h
  | some least =>
    obtain ⟨e, he, hleast⟩ := List.mem_map.mp (List.min?_eq_some_iff.mp hmin).1
    exact ⟨e, he, hleast.symm⟩

private theorem leastCredit_mono (hle : List.Forall₂ ScoredEvaluation.Le outcomes outcomes')
    (h : outcomes' ≠ []) : leastCredit outcomes ≤ leastCredit outcomes' := by
  obtain ⟨f, hf, hleast⟩ := exists_leastCredit h
  obtain ⟨e, he, hef⟩ := exists_of_mem_right hle hf
  rw [hleast]
  exact (leastCredit_le he).trans hef.credit

private theorem leastCredit_le_one (h : ∀ e ∈ outcomes, e.IsScored) : leastCredit outcomes ≤ 1 := by
  by_cases hnil : outcomes = []
  · rw [hnil]
    exact zero_le_one
  · obtain ⟨e, he, hleast⟩ := exists_leastCredit hnil
    rw [hleast]
    exact (h e he).le_one

/-- A float that is greater or equal gives a product and a ceiling that are. -/
theorem remainingLearningHours_anti {baseHours hours hours' : Int} (hbase : 0 ≤ baseHours)
    {c d : ℚ} (hc : 0 ≤ c) (h : c ≤ d) (hd : d ≤ 1)
    (hhours : remainingLearningHours baseHours c = .ok hours)
    (hhours' : remainingLearningHours baseHours d = .ok hours') : hours' ≤ hours := by
  have hcredit := binary64_mono hc h
  have hfull : binary64 d ≤ 1 := (binary64_mono (hc.trans h) hd).trans_eq binary64_one
  have hleft : binary64 (1 - binary64 d) ≤ binary64 (1 - binary64 c) :=
    binary64_mono (by linarith) (by linarith)
  have hfloat : 0 ≤ binary64 (baseHours : ℚ) := binary64_nonneg (Int.cast_nonneg hbase)
  rw [remainingLearningHours_ok hhours, remainingLearningHours_ok hhours']
  refine max_le_max_left 0 (Int.ceil_mono (binary64_mono ?_ ?_))
  · exact mul_nonneg hfloat (binary64_nonneg (by linarith))
  · exact mul_le_mul_of_nonneg_left hleft hfloat

/-- Without credit the hours that a float holds exactly are left. -/
theorem remainingLearningHours_zero {baseHours : Int} (hbase : 0 ≤ baseHours)
    (hexact : baseHours ≤ 2 ^ 53) : remainingLearningHours baseHours 0 = .ok baseHours := by
  unfold remainingLearningHours
  rw [floatOfInt_of_le hbase hexact]
  dsimp only
  rw [binary64_zero, sub_zero, binary64_one, mul_one, binary64_intCast hbase hexact,
    Int.ceil_intCast, max_eq_right hbase]

/-- The hours that are left are at least one and, up to 2 ^ 53, at most those of the template. -/
theorem remainingHours_bounds (t : ActivityTemplate) (h : ∀ e ∈ outcomes, e.IsScored) {hours : Int}
    (hhours : remainingHours t outcomes = .ok hours) :
    1 ≤ hours ∧ (t.estimatedHours ≤ 2 ^ 53 → hours ≤ t.estimatedHours) := by
  have hbase := t.estimatedHours_pos
  by_cases hpartial : outcomes.any (·.status = .partialCredit) = true
  · obtain ⟨left, hleft, rfl⟩ := remainingHours_partial hpartial hhours
    refine ⟨le_max_left _ _, fun hexact ↦ max_le hbase ?_⟩
    exact remainingLearningHours_anti hbase.le le_rfl (leastCredit_nonneg h) (leastCredit_le_one h)
      (remainingLearningHours_zero hbase.le hexact) hleft
  · obtain rfl := Except.ok.inj ((remainingHours_whole hpartial).symm.trans hhours)
    exact ⟨hbase, fun _ ↦ le_rfl⟩

/-- An outcome without credit leaves the hours of the template. -/
theorem remainingHours_of_zero (h : ∀ e ∈ outcomes, e.IsScored) {e : ScoredEvaluation}
    (he : e ∈ outcomes) (hzero : e.credit = 0) (hexact : t.estimatedHours ≤ 2 ^ 53) :
    remainingHours t outcomes = .ok t.estimatedHours := by
  have hleast : leastCredit outcomes = 0 :=
    le_antisymm (hzero ▸ leastCredit_le he) (leastCredit_nonneg h)
  have hbase := t.estimatedHours_pos
  unfold remainingHours
  rw [hleast, remainingLearningHours_zero hbase.le hexact]
  change (if _ then Except.ok (max 1 t.estimatedHours) else _) = _
  rw [max_eq_right (by omega), ite_self]

/-- More credit never leaves more hours, unless it satisfies every outcome. Hours that no float
holds exactly are compared only while some are taken off. -/
theorem remainingHours_anti (t : ActivityTemplate) (h : ∀ e ∈ outcomes, e.IsScored)
    (h' : ∀ e ∈ outcomes', e.IsScored)
    (hle : List.Forall₂ ScoredEvaluation.Le outcomes outcomes') {hours hours' : Int}
    (hhours : remainingHours t outcomes = .ok hours)
    (hhours' : remainingHours t outcomes' = .ok hours') :
    hours' ≤ hours ∨ (hours' = t.estimatedHours ∧ ∀ e ∈ outcomes', e.status = .satisfied) ∨
      (2 ^ 53 < t.estimatedHours ∧ (hours = t.estimatedHours ∨ hours' = t.estimatedHours)) := by
  by_cases hpartial : outcomes'.any (·.status = .partialCredit) = true
  · by_cases hbefore : outcomes.any (·.status = .partialCredit) = true
    · left
      obtain ⟨e, he, -⟩ := List.any_eq_true.mp hpartial
      have hleast := leastCredit_mono hle (List.ne_nil_of_mem he)
      obtain ⟨left, hleft, rfl⟩ := remainingHours_partial hbefore hhours
      obtain ⟨left', hleft', rfl⟩ := remainingHours_partial hpartial hhours'
      exact max_le_max_left 1 (remainingLearningHours_anti t.estimatedHours_pos.le
        (leastCredit_nonneg h) hleast (leastCredit_le_one h') hleft hleft')
    · obtain rfl := Except.ok.inj ((remainingHours_whole hbefore).symm.trans hhours)
      rcases le_or_gt t.estimatedHours (2 ^ 53) with hexact | hlarge
      · exact .inl ((remainingHours_bounds t h' hhours').2 hexact)
      · exact .inr (.inr ⟨hlarge, .inl rfl⟩)
  · obtain rfl := Except.ok.inj ((remainingHours_whole hpartial).symm.trans hhours')
    by_cases hall : ∀ e ∈ outcomes', e.status = .satisfied
    · exact .inr (.inl ⟨rfl, hall⟩)
    · -- an outcome that is neither satisfied nor partial has no credit, now or before
      push Not at hall
      obtain ⟨f, hf, hopen⟩ := hall
      obtain ⟨e, he, hef⟩ := exists_of_mem_right hle hf
      have hnone : ¬ (0 < f.credit ∧ f.credit < 1) := by
        rw [← (h' f hf).partialCredit_iff]
        intro hstatus
        exact hpartial (List.any_eq_true.mpr ⟨f, hf, decide_eq_true hstatus⟩)
      have hfull : f.credit ≠ 1 := fun hone ↦ hopen ((h' f hf).satisfied_iff.mpr hone)
      have hlt : f.credit < 1 := lt_of_le_of_ne (h' f hf).le_one hfull
      have hzero : e.credit = 0 := by
        have hf0 : f.credit ≤ 0 := not_lt.mp fun hpos ↦ hnone ⟨hpos, hlt⟩
        exact le_antisymm (hef.credit.trans hf0) (h e he).nonneg
      rcases le_or_gt t.estimatedHours (2 ^ 53) with hexact | hlarge
      · left
        exact (Except.ok.inj (hhours.symm.trans (remainingHours_of_zero h he hzero hexact))).ge
      · exact .inr (.inr ⟨hlarge, .inr rfl⟩)

private theorem lookupLast_le {xs ys : List ScoredEvaluation}
    (h : List.Forall₂ ScoredEvaluation.Le xs ys) (key : String) :
    Option.Rel ScoredEvaluation.Le (lookupLast (·.requirementKey) xs key)
      (lookupLast (·.requirementKey) ys key) := by
  unfold lookupLast
  have hreverse := List.forall₂_reverse_iff.mpr h
  generalize xs.reverse = xs at hreverse
  generalize ys.reverse = ys at hreverse
  induction hreverse with
  | nil => exact .none
  | @cons e f _ _ hef _ ih =>
    by_cases hkey : e.requirementKey = key
    · rw [List.find?_cons_of_pos (by simpa using hkey),
        List.find?_cons_of_pos (by simpa [← hef.requirementKey] using hkey)]
      exact .some hef
    · rw [List.find?_cons_of_neg (by simpa using hkey),
        List.find?_cons_of_neg (by simpa [← hef.requirementKey] using hkey)]
      exact ih

/-- The outcomes of an activity in a better analysis. -/
theorem outcomeEvaluations_le {analysis better : GapAnalysis}
    (hle : List.Forall₂ ScoredEvaluation.Le analysis.evaluations better.evaluations)
    (h : outcomeEvaluations analysis t = .ok outcomes)
    (h' : outcomeEvaluations better t = .ok outcomes') :
    List.Forall₂ ScoredEvaluation.Le outcomes outcomes' := by
  have hmatch := forall₂_of_mapM_ok h
  have hmatch' := forall₂_of_mapM_ok h'
  generalize sortedSet t.outcomeRequirementKeys = keys at hmatch hmatch'
  clear h h'
  induction hmatch generalizing outcomes' with
  | nil =>
    cases hmatch'
    exact .nil
  | @cons key e _ _ hkey _ ih =>
    cases hmatch' with
    | @cons _ f _ _ hkey' hrest =>
      refine .cons ?_ (ih hrest)
      have hrel := lookupLast_le hle key
      generalize lookupLast (·.requirementKey) analysis.evaluations key = found at hrel hkey
      generalize lookupLast (·.requirementKey) better.evaluations key = found' at hrel hkey'
      cases hrel with
      | none => cases hkey
      | some hef =>
        rw [← Except.ok.inj hkey, ← Except.ok.inj hkey']
        exact hef

private theorem mem_of_outcomeEvaluations {analysis : GapAnalysis}
    (h : outcomeEvaluations analysis t = .ok outcomes) {e : ScoredEvaluation}
    (he : e ∈ outcomes) : e ∈ analysis.evaluations := by
  obtain ⟨key, -, hkey⟩ := exists_of_mem_right (forall₂_of_mapM_ok h) he
  split at hkey
  · next hfound =>
    rw [← Except.ok.inj hkey]
    exact (lookupLast_some hfound).1
  · cases hkey

private theorem evaluationOf_toEditorialAnalysis (analysis : GapAnalysis) (key : String) :
    evaluationOf analysis.toEditorialAnalysis key =
      (lookupLast (·.requirementKey) analysis.evaluations key).map
        (·.toRequirementEvaluation) := by
  unfold evaluationOf lookupLast
  rw [analysis.scored, ← List.map_reverse, List.find?_map]
  rfl

/-- The outcomes of an activity are all satisfied. -/
def AllSatisfied (analysis : EditorialAnalysis) (t : ActivityTemplate) : Prop :=
  ∀ key ∈ t.outcomeRequirementKeys,
    (evaluationOf analysis key).map (·.status) = some .satisfied

private theorem allSatisfied_of_outcomes {analysis : GapAnalysis}
    (h : outcomeEvaluations analysis t = .ok outcomes)
    (hall : ∀ e ∈ outcomes, e.status = .satisfied) :
    AllSatisfied analysis.toEditorialAnalysis t := by
  intro key hkey
  obtain ⟨e, he, hfound⟩ := exists_of_mem_left (forall₂_of_mapM_ok h)
    ((mem_sortedSet _ _).mpr hkey)
  rw [evaluationOf_toEditorialAnalysis]
  split at hfound
  · next hlookup =>
    obtain rfl := Except.ok.inj hfound
    rw [hlookup, Option.map_some, Option.map_some, hall _ he]
  · cases hfound

end Effort

/-- The catalog of a product role is the original one under an order-preserving renaming: the same
roots, prerequisites, outcomes and blockers. The hours that are left of an activity are between one
and those of its template, and a better analysis never leaves more, unless it satisfies all outcomes
of the activity. Hours beyond 2 ^ 53 are rounded to a float when some are taken off, so they are
compared only while some are. `src/jobtology_be/product_roles/planning.py:30–96`,
`src/jobtology_be/planning/candidates.py:91–245`. -/
theorem productPlanningCatalog_equivalent (showCredit : ℚ → String)
    (snapshot : PublishedCorpusSnapshotData) (constraints : PlanningConstraints)
    (g : CandidateGenerator) (hg : g.templates = snapshot.templates) (analysis : GapAnalysis)
    (hscored : ∀ e ∈ analysis.evaluations, e.IsScored) (catalog : RuntimePlanningCatalog)
    (h : productPlanningCatalog showCredit snapshot constraints analysis = .ok catalog) :
    (∃ g' s s', g'.templates = catalog.templates ∧
      build g analysis.toEditorialAnalysis = .ok s ∧
      build g' analysis.toEditorialAnalysis = .ok s' ∧
      RenamesSet (planningActionId snapshot constraints) s s' ∧
      List.Forall₂ (Replans (planningActionId snapshot constraints))
        (rootTemplates g.templates analysis.toEditorialAnalysis)
        (rootTemplates g'.templates analysis.toEditorialAnalysis)) ∧
    List.Forall₂ (fun t u ↦ 1 ≤ u.estimatedHours ∧
      (t.estimatedHours ≤ 2 ^ 53 → u.estimatedHours ≤ t.estimatedHours))
      snapshot.templates catalog.templates ∧
    ∀ better : GapAnalysis, (∀ e ∈ better.evaluations, e.IsScored) →
      List.Forall₂ ScoredEvaluation.Le analysis.evaluations better.evaluations →
      ∀ catalog', productPlanningCatalog showCredit snapshot constraints better = .ok catalog' →
      ∀ t ∈ snapshot.templates, ∀ u ∈ catalog.templates, ∀ u' ∈ catalog'.templates,
        u.actionId = planningActionId snapshot constraints t.actionId → u'.actionId = u.actionId →
        u'.estimatedHours ≤ u.estimatedHours ∨
          (u'.estimatedHours = t.estimatedHours ∧
            AllSatisfied better.toEditorialAnalysis t) ∨
          (2 ^ 53 < t.estimatedHours ∧
            (u.estimatedHours = t.estimatedHours ∨ u'.estimatedHours = t.estimatedHours)) := by
  have hplans := productPlanningCatalog_inv h
  have hrenamed := hplans.imp fun _ _ ↦ PlansFor.toReplans
  have hmono := planningActionId_strictMono snapshot constraints
  rw [← hg] at hplans hrenamed
  obtain ⟨hn, -, -⟩ := (generatorPostInit_ok_iff g.templates).mp g.accepted
  refine ⟨?_, ?_, fun better hscored' hle catalog' h' t ht u hu u' hu' hid hid' ↦ ?_⟩
  · let g' : CandidateGenerator :=
      ⟨catalog.templates, generatorPostInit_renamed hmono.injective hrenamed g.accepted⟩
    have hknown : ∀ t ∈ g.templates, ∀ key ∈ t.outcomeRequirementKeys,
        key ∈ analysis.requirements.map (·.requirementKey) := by
      intro t ht
      obtain ⟨u, -, htu⟩ := exists_of_mem_left hplans ht
      obtain ⟨outcomes, houtcomes, -⟩ := htu.hours
      exact known_of_outcomeEvaluations houtcomes
    obtain ⟨s, s', hs, hs', hset⟩ := build_renamed hmono g g' hrenamed hknown
    exact ⟨g', s, s', rfl, hs, hs', hset, rootTemplates_renamed hmono hrenamed⟩
  · rw [← hg]
    refine hplans.imp fun t u htu ↦ ?_
    obtain ⟨outcomes, houtcomes, hhours⟩ := htu.hours
    exact remainingHours_bounds t
      (fun e he ↦ hscored e (mem_of_outcomeEvaluations houtcomes he)) hhours
  · have hplans' := productPlanningCatalog_inv h'
    rw [← hg] at hplans' ht
    -- distinct actions, so both planned templates are those of `t`
    have hsame {v : ActivityTemplate} {w : ActivityTemplate} {gap : GapAnalysis}
        (hv : v ∈ g.templates) (hvw : PlansFor (planningActionId snapshot constraints) gap v w)
        (hw : w.actionId = planningActionId snapshot constraints t.actionId) : v = t :=
      List.inj_on_of_nodup_map hn hv ht (hmono.injective (hvw.actionId.symm.trans hw))
    obtain ⟨v, hv, hvu⟩ := exists_of_mem_right hplans hu
    obtain ⟨v', hv', hvu'⟩ := exists_of_mem_right hplans' hu'
    obtain rfl := hsame hv hvu hid
    obtain rfl := hsame hv' hvu' (hid'.trans hid)
    obtain ⟨outcomes, houtcomes, hhours⟩ := hvu.hours
    obtain ⟨outcomes', houtcomes', hhours'⟩ := hvu'.hours
    refine (remainingHours_anti _ (fun e he ↦ ?_) (fun e he ↦ ?_)
      (outcomeEvaluations_le hle houtcomes houtcomes') hhours hhours').imp_right
      (Or.imp_left fun ⟨hbase, hall⟩ ↦ ⟨hbase, ?_⟩)
    · exact hscored e (mem_of_outcomeEvaluations houtcomes he)
    · exact hscored' e (mem_of_outcomeEvaluations houtcomes' he)
    · exact allSatisfied_of_outcomes houtcomes' hall

/-! ### A satisfied prerequisite -/

/-- A project of 20 hours for `foundation`, and one of 10 hours for `core` that builds on it. -/
def roleTemplates : List ActivityTemplate :=
  [{ actionId := "base", revision := 1, title := "Base 학습", estimatedHours := 20
     outcomeRequirementKeys := {"foundation"}, prerequisiteActionIds := []
     completionCriteria := ["done"], supportRefs := {"ref"}, cost := .unknown
     isFoundational := false, accepted := by decide },
   { actionId := "build", revision := 1, title := "Build", estimatedHours := 10
     outcomeRequirementKeys := {"core"}, prerequisiteActionIds := ["base"]
     completionCriteria := ["done"], supportRefs := {"ref"}, cost := .unknown
     isFoundational := false, accepted := by decide }]

/-- A release of product roles with these projects. -/
def roleSnapshot : PublishedCorpusSnapshotData :=
  { occupationId := "o", basisVersion := "product-roles-v1"
    release := ⟨some "product-roles-v1-1", .published, none⟩, isFixture := false
    capabilityEntries := [], allowedExperienceCodes := ∅
    requirements := [⟨"foundation", "Foundation", .required, "ncs:unit:foundation", ∅, {"ref"}⟩,
      ⟨"core", "Core", .required, "ncs:unit:core", ∅, {"ref"}⟩]
    templates := roleTemplates }

/-- A user who needs a portfolio. -/
def portfolioConstraints : PlanningConstraints :=
  { targetBy := 0, availableHoursPerWeek := 10, budgetMode := .regular
    maxOutOfPocketKrw := some 0, fastestPath := false, needsPortfolio := true, careerSwitch := false
    weeklyAvailability := [], unavailableDates := [], hoursRange := by decide }

/-- The analysis of a profile with that credit for the foundation and none for the core. -/
def roleAnalysis (credit : ℚ) : GapAnalysis :=
  let evaluations := [
    evaluation ⟨"foundation", "Foundation", .required, "ncs:unit:foundation", ∅, {"ref"}⟩
      (creditStatus credit) {"SELF_REPORTED"} credit,
    evaluation ⟨"core", "Core", .required, "ncs:unit:core", ∅, {"ref"}⟩ .unmet ∅ 0]
  { analysisId := "a", profileVersion := 1, occupationId := "o"
    basisVersion := "product-roles-v1", corpusReleaseId := some "product-roles-v1-1"
    isFixture := false, referenceAt := 0, analysisStatus := .ready
    requirements := evaluations.map (·.toRequirementEvaluation), evaluations, scored := rfl
    requiredCoverage := coverage evaluations .required false
    preferredCoverage := coverage evaluations .preferred false }

/-- The candidates that are planned for that profile, with their hours. -/
def roleCandidates (credit : ℚ) : Option (List (String × Int)) := do
  let catalog ← (productPlanningCatalog (fun _ ↦ "") roleSnapshot portfolioConstraints
    (roleAnalysis credit)).toOption
  if h : generatorPostInit catalog.templates = .ok () then
    let set ← (build ⟨catalog.templates, h⟩ (roleAnalysis credit).toEditorialAnalysis).toOption
    return set.candidates.map fun c ↦ (c.actionId, c.estimatedHours)
  else none

/-- Full credit for a skill quadruples the hours of the project that stays as a prerequisite, and
hours that no float holds can be rounded to more. -/
theorem full_credit_lengthens_prerequisite :
    roleCandidates (3 / 4) = some [("portfolio:base", 5), ("portfolio:build", 10)] ∧
      roleCandidates 1 = some [("portfolio:base", 20), ("portfolio:build", 10)] ∧
      remainingLearningHours (2 ^ 53 + 3) (1 / 2 ^ 60) = .ok (2 ^ 53 + 4) := by
  decide +kernel

-- the float of 49 / 100 is below it, and the product is rounded back to 51
example : remainingLearningHours 100 (49 / 100) = .ok 51 := by decide +kernel

/-- A credit of three quarters lengthens no activity. -/
theorem productPlanningCatalog_equivalent_sample :
    ∃ catalog, productPlanningCatalog (fun _ ↦ "") roleSnapshot portfolioConstraints
        (roleAnalysis (3 / 4)) = .ok catalog ∧
      List.Forall₂ (fun t u ↦ 1 ≤ u.estimatedHours ∧
        (t.estimatedHours ≤ 2 ^ 53 → u.estimatedHours ≤ t.estimatedHours))
        roleTemplates catalog.templates := by
  cases h : productPlanningCatalog (fun _ ↦ "") roleSnapshot portfolioConstraints
      (roleAnalysis (3 / 4)) with
  | error e =>
    have hok : (productPlanningCatalog (fun _ ↦ "") roleSnapshot portfolioConstraints
      (roleAnalysis (3 / 4))).toOption.isSome = true := by decide +kernel
    rw [h] at hok
    cases hok
  | ok catalog =>
    exact ⟨catalog, rfl, (productPlanningCatalog_equivalent (fun _ ↦ "") roleSnapshot
      portfolioConstraints ⟨roleTemplates, by decide +kernel⟩ rfl (roleAnalysis (3 / 4))
      (by decide +kernel) catalog h).2.1⟩

end Jobtology.ProductRoles
