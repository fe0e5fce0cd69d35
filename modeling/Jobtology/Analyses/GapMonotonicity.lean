import Jobtology.Analyses.GapAnalyzer
import Mathlib.Algebra.Order.BigOperators.Group.List
import Mathlib.Algebra.Order.Field.Rat
import Mathlib.Logic.Relation
import Mathlib.Tactic.Linarith
import Mathlib.Tactic.Positivity

/-!
# Gap analyses grow with capabilities

The credit of a requirement is the best one of a single record that matches and is eligible. An
analysis is a function of the set of its capabilities, and better capabilities give no worse one.
-/

namespace Jobtology.Analyses

open Jobtology.Corpus Jobtology.Profiles

/-- The credits are within the bounds of `NormalizedCapability`. -/
def Ranged (capabilities : List NormalizedCapability) : Prop :=
  ∀ c ∈ capabilities, 0 ≤ c.credit ∧ c.credit ≤ 1

instance (capabilities : List NormalizedCapability) : Decidable (Ranged capabilities) :=
  inferInstanceAs (Decidable (∀ c ∈ capabilities, _ ∧ _))

/-- One capability is added, or its credit is raised. -/
inductive Improves : List NormalizedCapability → List NormalizedCapability → Prop
  | add (before after : List NormalizedCapability) (c : NormalizedCapability) :
      Improves (before ++ after) (before ++ c :: after)
  | raise (before after : List NormalizedCapability) (c : NormalizedCapability) (credit : ℚ)
      (h : c.credit ≤ credit) :
      Improves (before ++ c :: after) (before ++ { c with credit } :: after)

/-- A record stands for another one: it is as good for every requirement. -/
structure StandsFor (d c : NormalizedCapability) : Prop where
  resolution : d.resolution = c.resolution
  entityId : d.entityId = c.entityId
  experienceCodes : d.experienceCodes = c.experienceCodes
  credit : c.credit ≤ d.credit

/-- Every record of a list has one in the other list that stands for it. -/
def Dominated (xs ys : List NormalizedCapability) : Prop := ∀ c ∈ xs, ∃ d ∈ ys, StandsFor d c

/-- Coverage that is no worse. -/
structure Coverage.Le (c d : Coverage) : Prop where
  reason : c.reason = d.reason
  totalCount : c.totalCount = d.totalCount
  matchedCount : c.matchedCount ≤ d.matchedCount
  score : Option.Rel (· ≤ ·) c.score d.score
  weightedScore : Option.Rel (· ≤ ·) c.weightedScore d.weightedScore

/-- An evaluation of the same requirement that is no worse. -/
structure ScoredEvaluation.Le (e f : ScoredEvaluation) : Prop where
  requirementKey : e.requirementKey = f.requirementKey
  satisfied : e.status = .satisfied → f.status = .satisfied
  credit : e.credit ≤ f.credit

/-- An analysis that is no worse. -/
structure GapAnalysis.Le (a b : GapAnalysis) : Prop where
  evaluations : List.Forall₂ ScoredEvaluation.Le a.evaluations b.evaluations
  required : a.requiredCoverage.Le b.requiredCoverage
  preferred : a.preferredCoverage.Le b.preferredCoverage

/-! ### Better capabilities -/

namespace StandsFor

variable {c d e : NormalizedCapability}

/-- A capability stands for itself. -/
theorem refl (c : NormalizedCapability) : StandsFor c c := ⟨rfl, rfl, rfl, le_rfl⟩

/-- What stands for a stand-in stands for the first. -/
theorem trans (hed : StandsFor e d) (hdc : StandsFor d c) : StandsFor e c where
  resolution := hed.resolution.trans hdc.resolution
  entityId := hed.entityId.trans hdc.entityId
  experienceCodes := hed.experienceCodes.trans hdc.experienceCodes
  credit := hdc.credit.trans hed.credit

/-- A stand-in matches the requirements that the first one matches. -/
theorem isMatch (h : StandsFor d c) {requirement : EditorialRequirement}
    (hc : IsMatch requirement c) : IsMatch requirement d := by
  unfold IsMatch
  rw [h.resolution, h.entityId]
  exact hc

private theorem isEligible (h : StandsFor d c) {requirement : EditorialRequirement}
    (hc : IsEligible requirement c) : IsEligible requirement d := by
  unfold IsEligible
  rw [h.experienceCodes]
  exact hc

end StandsFor

/-- More capabilities dominate fewer. -/
theorem Dominated.of_subset {xs ys : List NormalizedCapability} (h : xs ⊆ ys) : Dominated xs ys :=
  fun c hc ↦ ⟨c, h hc, .refl c⟩

/-- Domination is transitive. -/
theorem Dominated.trans {xs ys zs : List NormalizedCapability} (hxy : Dominated xs ys)
    (hyz : Dominated ys zs) : Dominated xs zs := by
  intro c hc
  obtain ⟨d, hd, hdc⟩ := hxy c hc
  obtain ⟨e, he, hed⟩ := hyz d hd
  exact ⟨e, he, hed.trans hdc⟩

private theorem Improves.dominated {xs ys : List NormalizedCapability} (h : Improves xs ys) :
    Dominated xs ys := by
  cases h with
  | add before after c =>
    apply Dominated.of_subset
    intro d hd
    simp only [List.mem_append, List.mem_cons] at hd ⊢
    tauto
  | raise before after c credit hle =>
    intro d hd
    by_cases hdc : d = c
    · subst hdc
      exact ⟨_, List.mem_append_right _ List.mem_cons_self, rfl, rfl, rfl, hle⟩
    · refine ⟨d, ?_, .refl d⟩
      simp only [List.mem_append, List.mem_cons] at hd ⊢
      tauto

/-- Any number of improvements. -/
theorem dominated_of_improves {xs ys : List NormalizedCapability}
    (h : Relation.ReflTransGen Improves xs ys) : Dominated xs ys := by
  induction h with
  | refl => exact .of_subset (List.Subset.refl xs)
  | tail _ hstep ih => exact ih.trans hstep.dominated

/-! ### One requirement -/

section Requirement

variable {capabilities xs ys : List NormalizedCapability} {completeness : InputCompleteness}

/-- A single record that supports a requirement. -/
structure Supports (requirement : EditorialRequirement) (c : NormalizedCapability) : Prop where
  isMatch : IsMatch requirement c
  isEligible : IsEligible requirement c

/-- The record is a best one of those that support the requirement. -/
structure IsBest (requirement : EditorialRequirement) (capabilities : List NormalizedCapability)
    (c : NormalizedCapability) : Prop extends Supports requirement c where
  mem : c ∈ capabilities
  le : ∀ d ∈ capabilities, Supports requirement d → d.credit ≤ c.credit

/-- The credits of the records that support a requirement. -/
theorem mem_credits {requirement : EditorialRequirement} {credit : ℚ} :
    credit ∈ (((capabilities.filter (IsMatch requirement ·)).filter
      (IsEligible requirement ·)).map (·.credit)) ↔
      ∃ c ∈ capabilities, Supports requirement c ∧ c.credit = credit := by
  simp only [List.mem_map, List.mem_filter, decide_eq_true_eq]
  constructor
  · rintro ⟨c, ⟨⟨hmem, hmatch⟩, heligible⟩, hcredit⟩
    exact ⟨c, hmem, ⟨hmatch, heligible⟩, hcredit⟩
  · rintro ⟨c, hmem, hsupports, hcredit⟩
    exact ⟨c, ⟨⟨hmem, hsupports.isMatch⟩, hsupports.isEligible⟩, hcredit⟩

/-- A requirement has the credit of a best record, or no record supports it. -/
theorem evaluateRequirement_cases (requirement : EditorialRequirement) :
    (∃ c, IsBest requirement capabilities c ∧
      evaluateRequirement capabilities completeness requirement =
        evaluation requirement (creditStatus c.credit) {"SELF_REPORTED"} c.credit) ∨
    ((∀ c ∈ capabilities, ¬ Supports requirement c) ∧
      ∃ complete provenance, evaluateRequirement capabilities completeness requirement =
        evaluation requirement (absentStatus complete) provenance 0) := by
  unfold evaluateRequirement
  dsimp only
  split
  · next hnone =>
    refine .inr ⟨fun c hc hsupports ↦ ?_, _, _, rfl⟩
    have hmem : c ∈ capabilities.filter (IsMatch requirement ·) :=
      List.mem_filter.mpr ⟨hc, decide_eq_true hsupports.isMatch⟩
    rw [hnone] at hmem
    cases hmem
  · split
    · next credit hmax =>
      obtain ⟨hcredit, hle⟩ := List.max?_eq_some_iff.mp hmax
      obtain ⟨c, hc, hsupports, rfl⟩ := mem_credits.mp hcredit
      have hbest : IsBest requirement capabilities c :=
        ⟨hsupports, hc, fun d hd hd' ↦ hle d.credit (mem_credits.mpr ⟨d, hd, hd', rfl⟩)⟩
      exact .inl ⟨c, hbest, rfl⟩
    · next hmax =>
      rw [List.max?_eq_none_iff] at hmax
      refine .inr ⟨fun c hc hsupports ↦ ?_, _, _, rfl⟩
      have hmem := mem_credits.mpr ⟨c, hc, hsupports, rfl⟩
      rw [hmax] at hmem
      cases hmem

private theorem creditStatus_eq_satisfied {credit : ℚ} :
    creditStatus credit = .satisfied ↔ credit = 1 := by
  unfold creditStatus
  split
  · simp_all
  · split <;> simp_all

private theorem absentStatus_ne_satisfied (complete : Bool) :
    absentStatus complete ≠ .satisfied := by
  cases complete <;> decide

private theorem creditStatus_eq_partialCredit {credit : ℚ} (hle : credit ≤ 1) :
    creditStatus credit = .partialCredit ↔ 0 < credit ∧ credit < 1 := by
  unfold creditStatus
  split
  · simp_all
  · next hne =>
    have hlt : credit < 1 := lt_of_le_of_ne hle hne
    split <;> simp_all

private theorem absentStatus_ne_partialCredit (complete : Bool) :
    absentStatus complete ≠ .partialCredit := by
  cases complete <;> decide

/-- An evaluation whose credit is in range and gives its status. -/
structure ScoredEvaluation.IsScored (e : ScoredEvaluation) : Prop where
  nonneg : 0 ≤ e.credit
  le_one : e.credit ≤ 1
  satisfied_iff : e.status = .satisfied ↔ e.credit = 1
  partialCredit_iff : e.status = .partialCredit ↔ 0 < e.credit ∧ e.credit < 1

instance (e : ScoredEvaluation) : Decidable e.IsScored :=
  decidable_of_iff (0 ≤ e.credit ∧ e.credit ≤ 1 ∧ (e.status = .satisfied ↔ e.credit = 1) ∧
      (e.status = .partialCredit ↔ 0 < e.credit ∧ e.credit < 1))
    ⟨fun ⟨hnonneg, hle, hfull, hpartial⟩ ↦ ⟨hnonneg, hle, hfull, hpartial⟩,
      fun ⟨hnonneg, hle, hfull, hpartial⟩ ↦ ⟨hnonneg, hle, hfull, hpartial⟩⟩

private theorem isScored_evaluateRequirement (hranged : Ranged capabilities)
    (requirement : EditorialRequirement) :
    (evaluateRequirement capabilities completeness requirement).IsScored := by
  obtain ⟨c, hbest, heval⟩ | ⟨_, complete, provenance, heval⟩ :=
    @evaluateRequirement_cases capabilities completeness
      requirement
  · rw [heval]
    obtain ⟨hnonneg, hle⟩ := hranged c hbest.mem
    exact ⟨hnonneg, hle, creditStatus_eq_satisfied, creditStatus_eq_partialCredit hle⟩
  · rw [heval]
    refine ⟨le_rfl, zero_le_one, ⟨fun h ↦ ?_, fun h ↦ ?_⟩, ⟨fun h ↦ ?_, fun h ↦ ?_⟩⟩
    · exact absurd h (absentStatus_ne_satisfied complete)
    · exact absurd h zero_ne_one
    · exact absurd h (absentStatus_ne_partialCredit complete)
    · exact absurd h.1 (lt_irrefl 0)

/-- Credit comes from a single record, which has all the experience asked for. -/
theorem exists_supports {requirement : EditorialRequirement}
    (h : (evaluateRequirement capabilities completeness requirement).status = .satisfied ∨
      (evaluateRequirement capabilities completeness requirement).credit ≠ 0) :
    ∃ c ∈ capabilities, Supports requirement c ∧
      c.credit = (evaluateRequirement capabilities completeness requirement).credit := by
  obtain ⟨c, hbest, heval⟩ | ⟨_, complete, provenance, heval⟩ :=
    @evaluateRequirement_cases capabilities completeness
      requirement
  · rw [heval]
    exact ⟨c, hbest.mem, hbest.toSupports, rfl⟩
  · rw [heval] at h
    obtain hstatus | hcredit := h
    · exact absurd hstatus (absentStatus_ne_satisfied complete)
    · exact absurd rfl hcredit

/-- Better capabilities never lower the credit of a requirement. -/
theorem credit_mono (hranged : Ranged ys) (hdom : Dominated xs ys)
    (requirement : EditorialRequirement) :
    (evaluateRequirement xs completeness requirement).credit ≤
      (evaluateRequirement ys completeness requirement).credit := by
  obtain ⟨c, hbest, heval⟩ | ⟨_, complete, provenance, heval⟩ :=
    @evaluateRequirement_cases xs completeness requirement
  · obtain ⟨d, hd, hdc⟩ := hdom c hbest.mem
    have hsupports : Supports requirement d :=
      ⟨hdc.isMatch hbest.isMatch, hdc.isEligible hbest.isEligible⟩
    obtain ⟨e, hbest', heval'⟩ | ⟨hnone, _⟩ :=
      @evaluateRequirement_cases ys completeness requirement
    · rw [heval, heval']
      exact hdc.credit.trans (hbest'.le d hd hsupports)
    · exact absurd hsupports (hnone d hd)
  · rw [heval]
    exact (isScored_evaluateRequirement hranged requirement).nonneg

/-- Better capabilities never make a requirement worse. -/
theorem evaluateRequirement_mono (hxs : Ranged xs) (hys : Ranged ys) (hdom : Dominated xs ys)
    (requirement : EditorialRequirement) :
    (evaluateRequirement xs completeness requirement).Le
      (evaluateRequirement ys completeness requirement) := by
  have hcredit := @credit_mono _ _ completeness hys hdom requirement
  have hx := @isScored_evaluateRequirement _ completeness hxs requirement
  have hy := @isScored_evaluateRequirement _ completeness hys requirement
  refine ⟨?_, fun h ↦ ?_, hcredit⟩
  · rw [(evaluateRequirement_about requirement).1, (evaluateRequirement_about requirement).1]
  · rw [hx.satisfied_iff] at h
    rw [hy.satisfied_iff]
    exact le_antisymm hy.le_one (h ▸ hcredit)

private theorem max?_congr {xs ys : List ℚ} (h : ∀ q, q ∈ xs ↔ q ∈ ys) : xs.max? = ys.max? := by
  cases hys : ys.max? with
  | none =>
    rw [List.max?_eq_none_iff] at hys ⊢
    apply List.eq_nil_iff_forall_not_mem.mpr
    intro q hq
    have := (h q).mp hq
    rw [hys] at this
    cases this
  | some q =>
    rw [List.max?_eq_some_iff] at hys ⊢
    exact ⟨(h q).mpr hys.1, fun r hr ↦ hys.2 r ((h r).mp hr)⟩

/-- A requirement is evaluated against a set of capabilities. -/
theorem evaluateRequirement_congr (h : ∀ c, c ∈ xs ↔ c ∈ ys) (requirement : EditorialRequirement) :
    evaluateRequirement xs completeness requirement =
      evaluateRequirement ys completeness requirement := by
  have hnone : xs.filter (IsMatch requirement ·) = [] ↔ ys.filter (IsMatch requirement ·) = [] := by
    simp only [List.filter_eq_nil_iff, h]
  have hmax : ((((xs.filter (IsMatch requirement ·)).filter
      (IsEligible requirement ·)).map (·.credit)).max?) =
      (((ys.filter (IsMatch requirement ·)).filter
        (IsEligible requirement ·)).map (·.credit)).max? := by
    apply max?_congr
    intro q
    rw [mem_credits, mem_credits]
    simp only [h]
  unfold evaluateRequirement
  dsimp only
  rw [hmax]
  simp only [hnone]

end Requirement

/-! ### Coverage -/

section Coverage

variable {requirements : List EditorialRequirement} {f g : EditorialRequirement → ScoredEvaluation}

private theorem filter_necessity (hf : ∀ r, (f r).necessity = r.necessity)
    (necessity : RequirementNecessity) :
    (requirements.map f).filter (·.necessity = necessity) =
      (requirements.filter (·.necessity = necessity)).map f := by
  rw [List.filter_map]
  congr 1
  apply List.filter_congr
  intro r _
  rw [Function.comp_apply, hf]

private theorem available_mono (hle : ∀ r, (f r).Le (g r)) :
    (Coverage.available (requirements.map f)).Le (Coverage.available (requirements.map g)) := by
  have hcount : (requirements.map f).countP (·.status = .satisfied) ≤
      (requirements.map g).countP (·.status = .satisfied) := by
    rw [List.countP_map, List.countP_map]
    apply List.countP_mono_left
    intro r _ hr
    exact decide_eq_true ((hle r).satisfied (of_decide_eq_true hr))
  have hsum : ((requirements.map f).map (·.credit)).sum ≤
      ((requirements.map g).map (·.credit)).sum := by
    rw [List.map_map, List.map_map]
    exact List.sum_le_sum fun r _ ↦ (hle r).credit
  constructor
  case reason => rfl
  case totalCount => exact (List.length_map f).trans (List.length_map g).symm
  case matchedCount => exact hcount
  case score =>
    refine .some ?_
    rw [List.length_map, List.length_map]
    exact div_le_div_of_nonneg_right (Nat.cast_le.mpr hcount) (Nat.cast_nonneg _)
  case weightedScore =>
    refine .some ?_
    rw [List.length_map, List.length_map]
    exact div_le_div_of_nonneg_right hsum (Nat.cast_nonneg _)

private theorem unavailable_le (reason : UnavailableReason) :
    (Coverage.unavailable reason).Le (Coverage.unavailable reason) :=
  ⟨rfl, rfl, le_rfl, .none, .none⟩

/-- Evaluations that are no worse give coverage that is no worse. -/
theorem coverage_mono (hf : ∀ r, (f r).necessity = r.necessity)
    (hg : ∀ r, (g r).necessity = r.necessity) (hle : ∀ r, (f r).Le (g r))
    (necessity : RequirementNecessity) (baselineEmpty : Bool) :
    (coverage (requirements.map f) necessity baselineEmpty).Le
      (coverage (requirements.map g) necessity baselineEmpty) := by
  unfold coverage
  dsimp only
  rw [filter_necessity hf, filter_necessity hg]
  by_cases hempty : baselineEmpty = true
  · rw [if_pos hempty, if_pos hempty]
    exact unavailable_le _
  · rw [if_neg hempty, if_neg hempty]
    by_cases hnone : requirements.filter (·.necessity = necessity) = []
    · rw [hnone]
      exact unavailable_le _
    · rw [if_neg (by simpa using hnone), if_neg (by simpa using hnone)]
      exact available_mono hle

/-- What a coverage says of its scores. -/
structure Coverage.IsBounded (c : Coverage) : Prop where
  score : ∀ s ∈ c.score, s = (c.matchedCount : ℚ) / (c.totalCount : ℚ)
  matched_le : ∀ w ∈ c.weightedScore, (c.matchedCount : ℚ) / (c.totalCount : ℚ) ≤ w
  weighted_le : ∀ w ∈ c.weightedScore, w ≤ 1

private theorem satisfied_le_credits {evaluations : List ScoredEvaluation}
    (h : ∀ e ∈ evaluations, e.IsScored) :
    (evaluations.countP (·.status = .satisfied) : ℚ) ≤ (evaluations.map (·.credit)).sum := by
  induction evaluations with
  | nil => exact le_rfl
  | cons e rest ih =>
    have hrest := ih fun x hx ↦ h x (List.mem_cons_of_mem e hx)
    have he := h e List.mem_cons_self
    rw [List.map_cons, List.sum_cons]
    by_cases hsatisfied : e.status = .satisfied
    · rw [List.countP_cons_of_pos (by simpa using hsatisfied), he.satisfied_iff.mp hsatisfied]
      push_cast
      linarith
    · rw [List.countP_cons_of_neg (by simpa using hsatisfied)]
      have := he.nonneg
      linarith

private theorem credits_le_length {evaluations : List ScoredEvaluation}
    (h : ∀ e ∈ evaluations, e.IsScored) :
    (evaluations.map (·.credit)).sum ≤ evaluations.length := by
  induction evaluations with
  | nil => exact le_rfl
  | cons e rest ih =>
    have hrest := ih fun x hx ↦ h x (List.mem_cons_of_mem e hx)
    have he := (h e List.mem_cons_self).le_one
    rw [List.map_cons, List.sum_cons, List.length_cons]
    push_cast
    linarith

/-- The weighted score lies between the share of satisfied requirements and one. -/
theorem isBounded_coverage {evaluations : List ScoredEvaluation}
    (h : ∀ e ∈ evaluations, e.IsScored) (necessity : RequirementNecessity)
    (baselineEmpty : Bool) : (coverage evaluations necessity baselineEmpty).IsBounded := by
  have hunavailable (reason) : (Coverage.unavailable reason).IsBounded := by
    constructor <;> rintro _ ⟨⟩
  unfold coverage
  dsimp only
  split
  · exact hunavailable _
  · split
    · exact hunavailable _
    · next hnone =>
      generalize hmatching : evaluations.filter (·.necessity = necessity) = matching at hnone
      have hmem : ∀ e ∈ matching, e.IsScored := fun e he ↦
        h e (List.mem_of_mem_filter (hmatching ▸ he))
      have hpos : (0 : ℚ) < matching.length := Nat.cast_pos.mpr (List.length_pos_of_ne_nil hnone)
      constructor
      case score =>
        rintro _ ⟨⟩
        rfl
      case matched_le =>
        rintro _ ⟨⟩
        exact div_le_div_of_nonneg_right (satisfied_le_credits hmem) hpos.le
      case weighted_le =>
        rintro _ ⟨⟩
        exact (div_le_one hpos).mpr (credits_le_length hmem)

end Coverage

/-! ### Whole analyses -/

section Analysis

variable {baseline : EditorialBaseline} {profile : NormalizedProfile}
  {request : EditorialAnalysisRequest} {completeness : InputCompleteness} {analysis : GapAnalysis}

/-- What an analysis is made of. -/
theorem evaluate_ok (h : evaluate baseline profile request completeness = .ok analysis) :
    (request.occupationId = baseline.occupationId ∧
      request.basisVersion = baseline.basisVersion) ∧
    analysis.evaluations =
      baseline.requirements.map (evaluateRequirement profile.capabilities completeness) ∧
    analysis.requiredCoverage =
      coverage analysis.evaluations .required (decide (baseline.requirements = [])) ∧
    analysis.preferredCoverage =
      coverage analysis.evaluations .preferred (decide (baseline.requirements = [])) := by
  unfold evaluate at h
  split at h
  · cases h
  · next hrequest =>
    obtain rfl := Except.ok.inj h
    rw [not_or, not_not, not_not] at hrequest
    exact ⟨hrequest, rfl, rfl, rfl⟩

/-- Better capabilities give no worse analysis. -/
theorem evaluate_le (hxs : Ranged profile.capabilities) {ys : List NormalizedCapability}
    (hys : Ranged ys) (hdom : Dominated profile.capabilities ys)
    (h : evaluate baseline profile request completeness = .ok analysis) :
    ∃ better, evaluate baseline { profile with capabilities := ys } request completeness =
      .ok better ∧ analysis.Le better := by
  obtain ⟨⟨hoccupation, hbasis⟩, hevaluations, hrequired, hpreferred⟩ := evaluate_ok h
  obtain ⟨better, hbetter⟩ := exists_evaluate baseline { profile with capabilities := ys } request
    completeness hoccupation hbasis
  obtain ⟨-, hevaluations', hrequired', hpreferred'⟩ := evaluate_ok hbetter
  have hle := @evaluateRequirement_mono _ _ completeness hxs hys hdom
  have hcoverage := @coverage_mono baseline.requirements _ _
    (fun r ↦ (evaluateRequirement_about r).2) (fun r ↦ (evaluateRequirement_about r).2) hle
  refine ⟨better, hbetter, ?_⟩
  constructor
  case evaluations =>
    rw [hevaluations, hevaluations', List.forall₂_map_left_iff, List.forall₂_map_right_iff,
      List.forall₂_same]
    exact fun r _ ↦ hle r
  case required =>
    rw [hrequired, hrequired', hevaluations, hevaluations']
    exact hcoverage .required _
  case preferred =>
    rw [hpreferred, hpreferred', hevaluations, hevaluations']
    exact hcoverage .preferred _

/-- A gap analysis is a monotone function of the set of capabilities: the order and repetition of
capabilities do not matter, improvements never make it worse, every credit is that of a single
record with the experience asked for, and the weighted score is bounded.
`src/jobtology_be/modules/analyses/editorial.py:68–103,122–159`,
`src/jobtology_be/application/specs.py:132–163`. -/
theorem evaluate_monotone (baseline : EditorialBaseline) (profile : NormalizedProfile)
    (request : EditorialAnalysisRequest) (completeness : InputCompleteness)
    (hranged : Ranged profile.capabilities) :
    (∀ ys, (∀ c, c ∈ ys ↔ c ∈ profile.capabilities) →
      evaluate baseline { profile with capabilities := ys } request completeness =
        evaluate baseline profile request completeness) ∧
    ∀ analysis, evaluate baseline profile request completeness = .ok analysis →
      (∀ ys, Ranged ys → Relation.ReflTransGen Improves profile.capabilities ys →
        ∃ better, evaluate baseline { profile with capabilities := ys } request completeness =
          .ok better ∧ analysis.Le better) ∧
      List.Forall₂ (fun requirement e ↦ (e.status = .satisfied ∨ e.credit ≠ 0) →
          ∃ c ∈ profile.capabilities, Supports requirement c ∧ c.credit = e.credit)
        baseline.requirements analysis.evaluations ∧
      analysis.requiredCoverage.IsBounded ∧ analysis.preferredCoverage.IsBounded := by
  refine ⟨fun ys hys ↦ ?_, fun analysis h ↦ ?_⟩
  · unfold evaluate
    dsimp only
    have hsame : evaluateRequirement ys completeness =
        evaluateRequirement profile.capabilities completeness := by
      funext requirement
      exact evaluateRequirement_congr hys requirement
    simp only [hsame]
  · obtain ⟨-, hevaluations, hrequired, hpreferred⟩ := evaluate_ok h
    have hscored : ∀ e ∈ analysis.evaluations, e.IsScored := by
      rw [hevaluations]
      intro e he
      obtain ⟨requirement, -, rfl⟩ := List.mem_map.mp he
      exact isScored_evaluateRequirement hranged requirement
    refine ⟨fun ys hys himproves ↦ ?_, ?_, ?_, ?_⟩
    · exact evaluate_le hranged hys (dominated_of_improves himproves) h
    · rw [hevaluations, List.forall₂_map_right_iff, List.forall₂_same]
      exact fun requirement _ hcredited ↦ exists_supports hcredited
    · rw [hrequired]
      exact isBounded_coverage hscored _ _
    · rw [hpreferred]
      exact isBounded_coverage hscored _ _

/-- A role that requires one competency and a project in another one. -/
def sampleRole : EditorialBaseline where
  occupationId := "data-engineer"
  basisVersion := "v1"
  release := ⟨none, .fixture, none⟩
  isFixture := true
  requirements := [
    ⟨"pipelines", "Pipelines", .required, "ncs:unit:pipelines", ∅, ∅⟩,
    ⟨"modeling", "Modeling", .required, "ncs:unit:modeling", {"PROJECT"}, ∅⟩]

/-- A profile that has half of one competency, and the other one without a project. -/
def sampleProfile : NormalizedProfile where
  userId := "user"
  profileVersion := 1
  capabilities := [⟨"pipelines", some "ncs:unit:pipelines", [], .resolved, 1 / 2⟩,
    ⟨"modeling", some "ncs:unit:modeling", [], .resolved, 1⟩]

/-- A partial credit for one requirement, and no input for the other. -/
theorem evaluate_monotone_sample :
    ∃ analysis, evaluate sampleRole sampleProfile ⟨"a", "data-engineer", "v1", 0⟩ ⟨true, ∅⟩ =
        .ok analysis ∧
      analysis.evaluations.map (·.status) = [.partialCredit, .needsInput] ∧
      analysis.requiredCoverage.weightedScore = some (1 / 4) ∧
      analysis.requiredCoverage.IsBounded := by
  obtain ⟨analysis, h⟩ := exists_evaluate sampleRole sampleProfile ⟨"a", "data-engineer", "v1", 0⟩
    ⟨true, ∅⟩ rfl rfl
  have hbounded := ((evaluate_monotone sampleRole sampleProfile ⟨"a", "data-engineer", "v1", 0⟩
    ⟨true, ∅⟩ (by decide +kernel)).2 analysis h).2.2.1
  obtain ⟨-, hevaluations, hrequired, -⟩ := evaluate_ok h
  refine ⟨analysis, h, ?_, ?_, hbounded⟩
  · rw [hevaluations]
    decide +kernel
  · rw [hrequired, hevaluations]
    decide +kernel

end Analysis

end Jobtology.Analyses
