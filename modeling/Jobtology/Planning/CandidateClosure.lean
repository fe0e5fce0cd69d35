import Jobtology.Planning.Candidates

/-!
# What candidate generation returns

An accepted catalog is a closed acyclic graph of uniquely named templates. On it the expansion is
the smallest closed set of activities around the open requirements, in an order that respects
prerequisites.
-/

namespace Jobtology.Planning

open Jobtology.Base Jobtology.Analyses Jobtology.Graph

/-! ### Accepted catalogs -/

section Catalog

variable {catalog templates : List ActivityTemplate}

private theorem templateOf_some {a : String} {t : ActivityTemplate}
    (h : templateOf catalog a = some t) :
    t ∈ catalog ∧ t.actionId = a :=
  ⟨List.mem_of_find?_eq_some h, by simpa using List.find?_some h⟩

private theorem templateOf_isSome {a : String} (h : a ∈ catalog.map (·.actionId)) :
    ∃ t, templateOf catalog a = some t := by
  obtain ⟨t, ht, rfl⟩ := List.mem_map.mp h
  cases hf : templateOf catalog t.actionId with
  | none => simpa using List.find?_eq_none.mp hf t ht
  | some u => exact ⟨u, rfl⟩

/-- With distinct names a template is found by its own. -/
theorem templateOf_of_mem (hn : (catalog.map (·.actionId)).Nodup) {t : ActivityTemplate}
    (ht : t ∈ catalog) : templateOf catalog t.actionId = some t := by
  obtain ⟨u, hu⟩ := templateOf_isSome (List.mem_map.mpr ⟨t, ht, rfl⟩)
  obtain ⟨hm, ha⟩ := templateOf_some hu
  rw [hu, List.inj_on_of_nodup_map hn hm ht ha]

private theorem addTemplate_ok_iff {t : ActivityTemplate} {result : List ActivityTemplate} :
    addTemplate catalog t = .ok result ↔
      t.actionId ∉ catalog.map (·.actionId) ∧ result = catalog ++ [t] := by
  unfold addTemplate
  cases h : templateOf catalog t.actionId with
  | none =>
    have hn : t.actionId ∉ catalog.map (·.actionId) := fun hm ↦ by
      obtain ⟨u, hu⟩ := templateOf_isSome hm
      simp [h] at hu
    simp [hn, eq_comm]
  | some u =>
    obtain ⟨hm, ha⟩ := templateOf_some h
    have hin : t.actionId ∈ catalog.map (·.actionId) := List.mem_map.mpr ⟨u, hm, ha⟩
    constructor
    · intro heq
      dsimp only at heq
      split at heq <;> cases heq
    · rintro ⟨hn, -⟩
      exact absurd hin hn

/-- Templates make a catalog when no action is named twice. -/
theorem catalogOf_ok_iff (templates result : List ActivityTemplate) :
    catalogOf templates = .ok result ↔
      (templates.map (·.actionId)).Nodup ∧ result = templates := by
  have hfold (ts acc : List ActivityTemplate) (hacc : (acc.map (·.actionId)).Nodup) :
      ts.foldlM addTemplate acc = .ok result ↔
        ((acc ++ ts).map (·.actionId)).Nodup ∧ result = acc ++ ts := by
    induction ts generalizing acc with
    | nil => simp [hacc, pure, Except.pure, eq_comm]
    | cons t ts ih =>
      rw [List.foldlM_cons]
      by_cases hin : t.actionId ∈ acc.map (·.actionId)
      · have hdup : ¬ ((acc ++ t :: ts).map (·.actionId)).Nodup := by
          rw [List.map_append, List.nodup_append]
          rintro ⟨-, -, hdisjoint⟩
          exact hdisjoint _ hin _ (by simp) rfl
        cases hadd : addTemplate acc t with
        | error e =>
          exact ⟨fun h ↦ by simp [bind, Except.bind] at h, fun h ↦ absurd h.1 hdup⟩
        | ok middle => exact absurd hin (addTemplate_ok_iff.mp hadd).1
      · have hadd := addTemplate_ok_iff.mpr ⟨hin, rfl⟩
        have hacc' : ((acc ++ [t]).map (·.actionId)).Nodup := by
          rw [List.map_append, List.nodup_append]
          refine ⟨hacc, by simp, ?_⟩
          rintro x hx y hy rfl
          simp only [List.map_cons, List.map_nil, List.mem_singleton] at hy
          exact hin (hy ▸ hx)
        rw [hadd]
        change ts.foldlM addTemplate (acc ++ [t]) = .ok result ↔ _
        rw [ih (acc ++ [t]) hacc', List.append_assoc, List.singleton_append]
  simpa [catalogOf] using hfold templates [] (by simp)

/-- Every prerequisite of a template names a template. -/
def ClosedCatalog (catalog : List ActivityTemplate) : Prop :=
  ∀ t ∈ catalog, ∀ a ∈ t.prerequisiteActionIds, a ∈ catalog.map (·.actionId)

/-- A prerequisite is named by a template of the catalog. -/
theorem mem_prerequisitesOf {a b : String} (h : b ∈ prerequisitesOf catalog a) :
    ∃ t ∈ catalog, t.actionId = a ∧ b ∈ t.prerequisiteActionIds := by
  unfold prerequisitesOf at h
  cases ht : templateOf catalog a with
  | none => simp [ht] at h
  | some t =>
    obtain ⟨hm, ha⟩ := templateOf_some ht
    refine ⟨t, hm, ha, ?_⟩
    simpa [ht, sortedPrerequisites] using h

/-- The checks on the dependencies of a catalog accept exactly the closed and acyclic ones. -/
theorem validateDependencies_ok_iff (catalog : List ActivityTemplate) :
    validateDependencies catalog = .ok () ↔
      ClosedCatalog catalog ∧ Acyclic (prerequisitesOf catalog) := by
  have hchecks : (catalog.forM fun t ↦ t.prerequisiteActionIds.forM fun a ↦
      if a ∈ catalog.map (·.actionId) then (.ok () : Except CatalogError Unit)
      else .error (.missingPrerequisiteTemplate t.actionId a)) = .ok () ↔
        ClosedCatalog catalog := by
    rw [forM_ok_iff]
    refine forall₂_congr fun t _ ↦ ?_
    rw [forM_ok_iff]
    refine forall₂_congr fun a _ ↦ ?_
    split <;> simp_all
  unfold validateDependencies
  cases hc : (catalog.forM fun t ↦ t.prerequisiteActionIds.forM fun a ↦
      if a ∈ catalog.map (·.actionId) then (.ok () : Except CatalogError Unit)
      else .error (.missingPrerequisiteTemplate t.actionId a)) with
  | error e =>
    have hopen : ¬ ClosedCatalog catalog := fun h ↦ by
      rw [hchecks.mpr h] at hc
      cases hc
    simp [bind, Except.bind, hopen]
  | ok u =>
    have hclosed := hchecks.mp hc
    have hgraph : ∀ a ∈ (catalog.map (·.actionId)).insertionSort (· ≤ ·),
        ∀ b ∈ prerequisitesOf catalog a,
          b ∈ (catalog.map (·.actionId)).insertionSort (· ≤ ·) := by
      intro a _ b hb
      obtain ⟨t, ht, -, hbt⟩ := mem_prerequisitesOf hb
      exact (List.mem_insertionSort _).mpr (hclosed t ht b hbt)
    have houtside (a : String) (ha : a ∉ (catalog.map (·.actionId)).insertionSort (· ≤ ·)) :
        prerequisitesOf catalog a = [] := by
      rw [List.eq_nil_iff_forall_not_mem]
      intro b hb
      obtain ⟨t, ht, hta, -⟩ := mem_prerequisitesOf hb
      exact ha ((List.mem_insertionSort _).mpr (List.mem_map.mpr ⟨t, ht, hta⟩))
    rw [← visitAll_ok_iff hgraph houtside]
    simp only [bind, Except.bind, hclosed, true_and]
    rcases visitAll_total hgraph with ⟨order, horder⟩ | ⟨c, hcycle, -⟩
    · simp [horder]
    · simp [hcycle]

/-- A generator holds uniquely named templates that form a closed acyclic graph, and every such
catalog makes a generator. -/
theorem generatorPostInit_ok_iff (templates : List ActivityTemplate) :
    generatorPostInit templates = .ok () ↔ (templates.map (·.actionId)).Nodup ∧
      ClosedCatalog templates ∧ Acyclic (prerequisitesOf templates) := by
  unfold generatorPostInit
  cases h : catalogOf templates with
  | error e =>
    have hdup : ¬ (templates.map (·.actionId)).Nodup := fun hn ↦ by
      simp [(catalogOf_ok_iff templates templates).mpr ⟨hn, rfl⟩] at h
    simp [bind, Except.bind, hdup]
  | ok catalog =>
    obtain ⟨hn, rfl⟩ := (catalogOf_ok_iff templates catalog).mp h
    simp only [bind, Except.bind, hn, true_and]
    exact validateDependencies_ok_iff catalog

end Catalog

/-! ### The expansion as a post-order walk -/

section Expansion

variable {catalog : List ActivityTemplate} {analysis : EditorialAnalysis}

/-- The unfulfilled prerequisites of an action of the catalog. -/
def openPrerequisitesOf (catalog : List ActivityTemplate) (analysis : EditorialAnalysis)
    (a : String) : List String :=
  ((templateOf catalog a).map (openPrerequisites catalog analysis)).getD []

/-- The two collections after an order of actions was included, newest first. -/
def expansionOf (catalog : List ActivityTemplate) (analysis : EditorialAnalysis)
    (included : List String) : Expansion :=
  ⟨included, included.reverse.filterMap fun a ↦
    (templateOf catalog a).map (candidateOf catalog analysis)⟩

/-- The open prerequisites are those that are not fulfilled. -/
theorem mem_openPrerequisites {t : ActivityTemplate} {a : String} :
    a ∈ openPrerequisites catalog analysis t ↔
      a ∈ t.prerequisiteActionIds ∧ a ∉ fulfilledPrerequisites catalog analysis t := by
  simp [openPrerequisites, sortedPrerequisites]

/-- Including an action is one step of a post-order walk. -/
theorem includeActivity_eq (hclosed : ClosedCatalog catalog) (rounds : Nat)
    (included : List String) (a : String) (ha : a ∈ catalog.map (·.actionId)) :
    includeActivity catalog analysis rounds (expansionOf catalog analysis included) a =
      expansionOf catalog analysis
        (postOrder (openPrerequisitesOf catalog analysis) rounds included a) := by
  induction rounds generalizing included a with
  | zero => rfl
  | succ rounds ih =>
    have hfold (targets : List String) (htargets : ∀ b ∈ targets, b ∈ catalog.map (·.actionId))
        (included : List String) :
        targets.foldl (includeActivity catalog analysis rounds)
            (expansionOf catalog analysis included) =
          expansionOf catalog analysis
            (targets.foldl (postOrder (openPrerequisitesOf catalog analysis) rounds) included) := by
      induction targets generalizing included with
      | nil => rfl
      | cons b rest ihrest =>
        rw [List.foldl_cons, List.foldl_cons, ih included b (htargets b (by simp))]
        exact ihrest (fun c hc ↦ htargets c (by simp [hc])) _
    obtain ⟨t, ht⟩ := templateOf_isSome ha
    obtain ⟨hm, -⟩ := templateOf_some ht
    unfold includeActivity postOrder
    by_cases hin : a ∈ included
    · simp [expansionOf, hin]
    · have hsucc : openPrerequisitesOf catalog analysis a =
          openPrerequisites catalog analysis t := by simp [openPrerequisitesOf, ht]
      have hpre := hfold (openPrerequisites catalog analysis t)
        (fun b hb ↦ hclosed t hm b (mem_openPrerequisites.mp hb).1) included
      rw [if_neg (by simpa [expansionOf] using hin), if_neg hin, hsucc]
      simp only [ht, hpre]
      simp [expansionOf, ht]

/-- The expansion lists the post-order walk from the roots, oldest first. -/
theorem expand_eq (analysis : EditorialAnalysis) (hclosed : ClosedCatalog catalog)
    (roots : List ActivityTemplate)    (hroots : ∀ t ∈ roots, t ∈ catalog) :
    expand roots catalog analysis =
      (postOrderAll (openPrerequisitesOf catalog analysis) (catalog.length + 1)
        (roots.map (·.actionId))).reverse.filterMap fun a ↦
          (templateOf catalog a).map (candidateOf catalog analysis) := by
  have hfold (targets : List ActivityTemplate) (htargets : ∀ t ∈ targets, t ∈ catalog)
      (included : List String) :
      targets.foldl (fun st root ↦
          includeActivity catalog analysis (catalog.length + 1) st root.actionId)
          (expansionOf catalog analysis included) =
        expansionOf catalog analysis ((targets.map (·.actionId)).foldl
          (postOrder (openPrerequisitesOf catalog analysis) (catalog.length + 1)) included) := by
    induction targets generalizing included with
    | nil => rfl
    | cons t rest ih =>
      rw [List.foldl_cons, List.map_cons, List.foldl_cons, includeActivity_eq hclosed _ _ _
        (List.mem_map.mpr ⟨t, htargets t (by simp), rfl⟩)]
      exact ih (fun u hu ↦ htargets u (by simp [hu])) _
  have h := hfold roots hroots []
  unfold expand
  rw [show (⟨[], []⟩ : Expansion) = expansionOf catalog analysis [] from rfl, h]
  rfl

/-- In an accepted catalog a rank falls along unfulfilled prerequisites. -/
theorem exists_prerequisite_rank (analysis : EditorialAnalysis) (hclosed : ClosedCatalog catalog)
    (hacyclic : Acyclic (prerequisitesOf catalog)) :
    ∃ rank : String → Nat,
      (∀ a b, b ∈ openPrerequisitesOf catalog analysis a → rank b < rank a) ∧
        ∀ a, rank a < catalog.length + 1 := by
  have hgraph : ∀ a ∈ catalog.map (·.actionId), ∀ b ∈ prerequisitesOf catalog a,
      b ∈ catalog.map (·.actionId) := by
    intro a _ b hb
    obtain ⟨t, ht, -, hbt⟩ := mem_prerequisitesOf hb
    exact hclosed t ht b hbt
  have houtside (a b : String) (hb : b ∈ prerequisitesOf catalog a) :
      a ∈ catalog.map (·.actionId) := by
    obtain ⟨t, ht, hta, -⟩ := mem_prerequisitesOf hb
    exact List.mem_map.mpr ⟨t, ht, hta⟩
  obtain ⟨order, horder⟩ := (visitAll_ok_iff hgraph fun a ha ↦
    List.eq_nil_iff_forall_not_mem.mpr fun b hb ↦ ha (houtside a b hb)).mpr hacyclic
  obtain ⟨htopological, hall, honly⟩ := visitAll_order horder
  obtain ⟨rank, hrank, hbound⟩ :=
    exists_rank htopological fun a b hb ↦ hall (houtside a b hb)
  refine ⟨rank, fun a b hb ↦ hrank a b ?_, fun a ↦ ?_⟩
  · unfold openPrerequisitesOf at hb
    cases ht : templateOf catalog a with
    | none => simp [ht] at hb
    | some t =>
      rw [ht, Option.map_some, Option.getD_some, mem_openPrerequisites] at hb
      simpa [prerequisitesOf, ht, sortedPrerequisites] using hb.1
  · have hlen := (htopological.nodup.subperm (honly hgraph)).length_le
    rw [List.length_map] at hlen
    have hle := hbound a
    omega

end Expansion

/-! ### The smallest closed set -/

/-- The template has an outcome for an UNMET or PARTIAL requirement. -/
def ServesOpenRequirement (analysis : EditorialAnalysis) (t : ActivityTemplate) : Prop :=
  ∃ r ∈ analysis.requirements, isOpen r = true ∧ r.requirementKey ∈ t.outcomeRequirementKeys

/-- The action is a foundation with outcomes, all of them SATISFIED. -/
def FulfilledAction (catalog : List ActivityTemplate) (analysis : EditorialAnalysis)
    (a : String) : Prop :=
  ∃ t ∈ catalog, t.actionId = a ∧ t.isFoundational = true ∧ t.outcomeRequirementKeys ≠ ∅ ∧
    ∀ key ∈ t.outcomeRequirementKeys, (evaluationOf analysis key).map (·.status) = some .satisfied

/-- A set of actions that contains every activity for an open requirement and, with a template,
its unfulfilled prerequisites. -/
structure ClosedAround (catalog : List ActivityTemplate) (analysis : EditorialAnalysis)
    (actions : Set String) : Prop where
  roots : ∀ t ∈ catalog, ServesOpenRequirement analysis t → t.actionId ∈ actions
  prerequisites : ∀ t ∈ catalog, t.actionId ∈ actions → ∀ a ∈ t.prerequisiteActionIds,
    ¬ FulfilledAction catalog analysis a → a ∈ actions

/-- Candidates are the smallest closed set of activities, each once, prerequisites first, and
their own prerequisites are the unfulfilled ones. -/
structure SmallestClosure (catalog : List ActivityTemplate) (analysis : EditorialAnalysis)
    (cs : List Candidate) : Prop where
  once : (cs.map (·.actionId)).Nodup
  closed : ClosedAround catalog analysis { a | a ∈ cs.map (·.actionId) }
  least : ∀ actions, ClosedAround catalog analysis actions → ∀ c ∈ cs, c.actionId ∈ actions
  fromTemplate : ∀ c ∈ cs, ∃ t ∈ catalog, c = candidateOf catalog analysis t
  prerequisites : ∀ c ∈ cs, ∀ t ∈ catalog, t.actionId = c.actionId → ∀ a,
    a ∈ c.prerequisiteActionIds ↔
      a ∈ t.prerequisiteActionIds ∧ ¬ FulfilledAction catalog analysis a
  prerequisitesPresent : ∀ c ∈ cs, ∀ a ∈ c.prerequisiteActionIds, a ∈ cs.map (·.actionId)
  prerequisitesFirst : ∀ i j : Nat, ∀ c d : Candidate, cs[i]? = some c → cs[j]? = some d →
    c.actionId ∈ d.prerequisiteActionIds → i < j

section Closure

variable {catalog : List ActivityTemplate} {analysis : EditorialAnalysis}

private theorem isSatisfiedFoundation_iff (t : ActivityTemplate) :
    isSatisfiedFoundation analysis t = true ↔
      t.isFoundational = true ∧ t.outcomeRequirementKeys ≠ ∅ ∧
        ∀ key ∈ t.outcomeRequirementKeys,
          (evaluationOf analysis key).map (·.status) = some .satisfied := by
  simp only [isSatisfiedFoundation, Bool.and_eq_true, decide_eq_true_eq, and_assoc]

private theorem mem_fulfilledPrerequisites (hn : (catalog.map (·.actionId)).Nodup)
    {t : ActivityTemplate} {a : String} :
    a ∈ fulfilledPrerequisites catalog analysis t ↔
      a ∈ t.prerequisiteActionIds ∧ FulfilledAction catalog analysis a := by
  simp only [fulfilledPrerequisites, List.mem_insertionSort, List.mem_filter]
  refine and_congr_right fun _ ↦ ?_
  constructor
  · intro h
    obtain ⟨u, hu, hsat⟩ := (Option.any_eq_true _ _).mp h
    obtain ⟨hm, ha⟩ := templateOf_some hu
    exact ⟨u, hm, ha, (isSatisfiedFoundation_iff u).mp hsat⟩
  · rintro ⟨u, hm, rfl, hsat⟩
    rw [templateOf_of_mem hn hm]
    exact (isSatisfiedFoundation_iff u).mpr hsat

private theorem mem_rootTemplates {t : ActivityTemplate} :
    t ∈ rootTemplates catalog analysis ↔ t ∈ catalog ∧ ServesOpenRequirement analysis t := by
  simp only [rootTemplates, unmetRequirements, sortedRequirements, List.mem_filter,
    List.mem_insertionSort, Bool.and_eq_true, decide_eq_true_eq, List.any_eq_true,
    ServesOpenRequirement, and_assoc]
  refine and_congr_right fun _ ↦ ⟨?_, ?_⟩
  · rintro ⟨-, r, hr, hopen, hkey⟩
    exact ⟨r, hr, hopen, hkey⟩
  · rintro ⟨r, hr, hopen, hkey⟩
    refine ⟨fun hempty ↦ ?_, r, hr, hopen, hkey⟩
    rw [hempty] at hkey
    exact absurd hkey (Finset.notMem_empty _)

private theorem map_actionId_filterMap {actions : List String}
    (h : ∀ a ∈ actions, a ∈ catalog.map (·.actionId)) :
    ((actions.filterMap fun a ↦ (templateOf catalog a).map (candidateOf catalog analysis)).map
      (·.actionId)) = actions := by
  induction actions with
  | nil => rfl
  | cons a rest ih =>
    obtain ⟨t, ht⟩ := templateOf_isSome (h a (by simp))
    rw [List.filterMap_cons, ht]
    simp only [Option.map_some, List.map_cons]
    rw [ih fun b hb ↦ h b (by simp [hb])]
    exact congrArg (· :: rest) (templateOf_some ht).2

/-- The expansion of an accepted catalog is the smallest closed set around the open
requirements. -/
theorem expand_smallestClosure (analysis : EditorialAnalysis)
    (hn : (catalog.map (·.actionId)).Nodup) (hclosed : ClosedCatalog catalog)
    (hacyclic : Acyclic (prerequisitesOf catalog)) :
    SmallestClosure catalog analysis
      (expand (rootTemplates catalog analysis) catalog analysis) := by
  obtain ⟨rank, hrank, hbound⟩ := exists_prerequisite_rank analysis hclosed hacyclic
  obtain ⟨horder, hreach⟩ := postOrderAll_spec hrank (catalog.length + 1)
    ((rootTemplates catalog analysis).map (·.actionId)) fun a _ ↦ hbound a
  have hexpand := expand_eq analysis hclosed (rootTemplates catalog analysis) fun t ht ↦
    (mem_rootTemplates.mp ht).1
  generalize hactions : postOrderAll (openPrerequisitesOf catalog analysis) (catalog.length + 1)
    ((rootTemplates catalog analysis).map (·.actionId)) = actions at horder hreach hexpand
  -- an edge of the walk is an unfulfilled prerequisite of a template
  have hedge {a b : String} : b ∈ openPrerequisitesOf catalog analysis a ↔
      ∃ t ∈ catalog, t.actionId = a ∧ b ∈ t.prerequisiteActionIds ∧
        ¬ FulfilledAction catalog analysis b := by
    unfold openPrerequisitesOf
    constructor
    · intro hb
      cases ht : templateOf catalog a with
      | none => simp [ht] at hb
      | some t =>
        obtain ⟨hm, ha⟩ := templateOf_some ht
        rw [ht, Option.map_some, Option.getD_some, mem_openPrerequisites,
          mem_fulfilledPrerequisites hn] at hb
        exact ⟨t, hm, ha, hb.1, fun hf ↦ hb.2 ⟨hb.1, hf⟩⟩
    · rintro ⟨t, hm, rfl, hb, hf⟩
      rw [templateOf_of_mem hn hm, Option.map_some, Option.getD_some, mem_openPrerequisites,
        mem_fulfilledPrerequisites hn]
      exact ⟨hb, fun h ↦ hf h.2⟩
  have hin (a : String) (ha : a ∈ actions) : a ∈ catalog.map (·.actionId) := by
    obtain ⟨root, hroot, hr⟩ := (hreach a).mp ha
    obtain ⟨t, ht, rfl⟩ := List.mem_map.mp hroot
    rcases Relation.ReflTransGen.cases_tail hr with rfl | ⟨b, -, hstep⟩
    · exact List.mem_map.mpr ⟨t, (mem_rootTemplates.mp ht).1, rfl⟩
    · obtain ⟨u, hu, -, hau, -⟩ := hedge.mp hstep
      exact hclosed u hu a hau
  have hids : (expand (rootTemplates catalog analysis) catalog analysis).map (·.actionId) =
      actions.reverse := by
    rw [hexpand]
    exact map_actionId_filterMap fun a ha ↦ hin a (List.mem_reverse.mp ha)
  have hmem (a : String) :
      a ∈ (expand (rootTemplates catalog analysis) catalog analysis).map (·.actionId) ↔
        a ∈ actions := by
    rw [hids, List.mem_reverse]
  have hfrom (c : Candidate) (hc : c ∈ expand (rootTemplates catalog analysis) catalog analysis) :
      ∃ t ∈ catalog, c = candidateOf catalog analysis t := by
    rw [hexpand] at hc
    obtain ⟨a, -, ha⟩ := List.mem_filterMap.mp hc
    obtain ⟨t, ht, rfl⟩ := Option.map_eq_some_iff.mp ha
    exact ⟨t, (templateOf_some ht).1, rfl⟩
  have hsucc {c : Candidate} (hc : c ∈ expand (rootTemplates catalog analysis) catalog analysis)
      {a : String} (ha : a ∈ c.prerequisiteActionIds) :
      a ∈ openPrerequisitesOf catalog analysis c.actionId := by
    obtain ⟨t, ht, rfl⟩ := hfrom c hc
    simpa [openPrerequisitesOf, candidateOf, templateOf_of_mem hn ht] using ha
  constructor
  case once =>
    rw [hids, List.nodup_reverse]
    exact horder.nodup
  case closed =>
    constructor
    · intro t ht hserves
      exact (hmem _).mpr ((hreach _).mpr ⟨t.actionId,
        List.mem_map.mpr ⟨t, mem_rootTemplates.mpr ⟨ht, hserves⟩, rfl⟩, .refl⟩)
    · intro t ht hta a ha hf
      exact (hmem _).mpr (horder.closed ((hmem _).mp hta) (hedge.mpr ⟨t, ht, rfl, ha, hf⟩))
  case least =>
    intro set hset c hc
    obtain ⟨root, hroot, hr⟩ := (hreach _).mp ((hmem _).mp (List.mem_map.mpr ⟨c, hc, rfl⟩))
    obtain ⟨t, ht, rfl⟩ := List.mem_map.mp hroot
    obtain ⟨hm, hserves⟩ := mem_rootTemplates.mp ht
    generalize c.actionId = reached at hr
    induction hr with
    | refl => exact hset.roots t hm hserves
    | tail _ hstep ih =>
      obtain ⟨u, hu, hua, hb, hf⟩ := hedge.mp hstep
      exact hset.prerequisites u hu (by rw [hua]; exact ih) _ hb hf
  case fromTemplate => exact hfrom
  case prerequisites =>
    intro c hc t ht hta a
    obtain ⟨u, hu, rfl⟩ := hfrom c hc
    obtain rfl := List.inj_on_of_nodup_map hn ht hu hta
    change a ∈ openPrerequisites catalog analysis t ↔ _
    rw [mem_openPrerequisites, mem_fulfilledPrerequisites hn]
    exact ⟨fun h ↦ ⟨h.1, fun hf ↦ h.2 ⟨h.1, hf⟩⟩, fun h ↦ ⟨h.1, fun hf ↦ h.2 hf.2⟩⟩
  case prerequisitesPresent =>
    intro c hc a ha
    exact (hmem _).mpr (horder.closed
      ((hmem _).mp (List.mem_map.mpr ⟨c, hc, rfl⟩)) (hsucc hc ha))
  case prerequisitesFirst =>
    intro i j c d hi hj hcd
    have hedge' := hsucc (List.mem_of_getElem? hj) hcd
    have hi' : actions.reverse[i]? = some c.actionId := by
      rw [← hids, List.getElem?_map, hi, Option.map_some]
    have hj' : actions.reverse[j]? = some d.actionId := by
      rw [← hids, List.getElem?_map, hj, Option.map_some]
    have hilt := (List.getElem?_eq_some_iff.mp hi').1
    have hjlt := (List.getElem?_eq_some_iff.mp hj').1
    rw [List.length_reverse] at hilt hjlt
    rw [List.getElem?_reverse hilt] at hi'
    rw [List.getElem?_reverse hjlt] at hj'
    have hlt := horder.index_lt hedge' hj' hi'
    omega

/-- The planner accepts the smallest closure as its candidates. -/
theorem SmallestClosure.validateCandidates {cs : List Candidate}
    (h : SmallestClosure catalog analysis cs) : Planning.validateCandidates cs = .ok () := by
  rw [validateCandidates_ok_iff]
  refine ⟨h.once, fun c hc ↦ ⟨?_, h.prerequisitesPresent c hc⟩⟩
  obtain ⟨t, -, rfl⟩ := h.fromTemplate c hc
  exact t.estimatedHours_pos

end Closure

/-! ### Building -/

/-- The outcomes are checked against the requirements of the analysis. -/
theorem validateOutcomes_ok_iff (catalog : List ActivityTemplate) (analysis : EditorialAnalysis) :
    validateOutcomes catalog analysis = .ok () ↔
      ∀ t ∈ catalog, ∀ key ∈ t.outcomeRequirementKeys,
        key ∈ analysis.requirements.map (·.requirementKey) := by
  unfold validateOutcomes
  rw [forM_ok_iff]
  refine forall₂_congr fun t _ ↦ ?_
  cases hmissing : (sortedSet t.outcomeRequirementKeys).filter fun key ↦
      key ∉ analysis.requirements.map (·.requirementKey) with
  | nil =>
    have hall := List.filter_eq_nil_iff.mp hmissing
    simp only [true_iff]
    intro key hkey
    simpa using hall key ((mem_sortedSet _ _).mpr hkey)
  | cons key rest =>
    have hm := List.mem_filter.mp (show key ∈ (sortedSet t.outcomeRequirementKeys).filter _ by
      rw [hmissing]; simp)
    simp only [reduceCtorEq, false_iff]
    intro hall
    exact absurd (hall key ((mem_sortedSet _ _).mp hm.1)) (by simpa using hm.2)

/-- For every accepted catalog and every READY analysis: when the analysis has every outcome of the
catalog, the candidates are the smallest closed set around the open requirements, each open
requirement is served by a candidate or reported, and the planner accepts the candidates; otherwise
the build raises for an unknown outcome. `src/jobtology_be/planning/candidates.py:91–140,155–245`,
`src/jobtology_be/planning/candidate_models.py:86–113`,
`src/jobtology_be/planning/cp_sat_model.py:203–212`. -/
theorem build_smallestClosure (g : CandidateGenerator) (analysis : EditorialAnalysis)
    (hready : analysis.analysisStatus = .ready) :
    ((∀ t ∈ g.templates, ∀ key ∈ t.outcomeRequirementKeys,
        key ∈ analysis.requirements.map (·.requirementKey)) →
      ∃ set, build g analysis = .ok set ∧ SmallestClosure g.templates analysis set.candidates ∧
        (∀ r ∈ analysis.requirements, isOpen r = true →
          (∃ c ∈ set.candidates, r.requirementKey ∈ c.outcomeRequirementKeys) ∨
            .noActivities r.requirementKey r.label r.supportRefs ∈ set.blockers) ∧
        validateCandidates set.candidates = .ok ()) ∧
    ((∃ t ∈ g.templates, ∃ key ∈ t.outcomeRequirementKeys,
        key ∉ analysis.requirements.map (·.requirementKey)) →
      ∃ a key, build g analysis = .error (.unknownOutcomeRequirement a key)) := by
  obtain ⟨hn, hclosed, hacyclic⟩ := (generatorPostInit_ok_iff g.templates).mp g.accepted
  have hcatalog : catalogOf g.templates = .ok g.templates :=
    (catalogOf_ok_iff _ _).mpr ⟨hn, rfl⟩
  simp only [build, hready, buildReady, hcatalog, Except.mapError, bind, Except.bind]
  constructor
  · intro hknown
    have hclosure := expand_smallestClosure analysis hn hclosed hacyclic
    rw [(validateOutcomes_ok_iff _ _).mpr hknown]
    refine ⟨_, rfl, hclosure, fun r hr hopen ↦ ?_, hclosure.validateCandidates⟩
    by_cases hserved : ∃ t ∈ g.templates, r.requirementKey ∈ t.outcomeRequirementKeys
    · obtain ⟨t, ht, hkey⟩ := hserved
      have hm := hclosure.closed.roots t ht ⟨r, hr, hopen, hkey⟩
      obtain ⟨c, hc, hca⟩ := List.mem_map.mp hm
      obtain ⟨u, hu, rfl⟩ := hclosure.fromTemplate c hc
      obtain rfl := List.inj_on_of_nodup_map hn hu ht hca
      exact .inl ⟨_, hc, hkey⟩
    · right
      simp only [candidateSet, List.mem_append, List.mem_map, List.mem_filter]
      refine .inr ⟨r, ⟨?_, ?_⟩, rfl⟩
      · simp [unmetRequirements, sortedRequirements, hr, hopen]
      · rw [List.isEmpty_iff, List.filter_eq_nil_iff]
        intro t ht hkey
        exact hserved ⟨t, (mem_rootTemplates.mp ht).1, by simpa using hkey⟩
  · rintro ⟨t, ht, key, hkey, hunknown⟩
    cases hv : validateOutcomes g.templates analysis with
    | ok u =>
      exact absurd ((validateOutcomes_ok_iff _ _).mp hv t ht key hkey) hunknown
    | error e =>
      obtain ⟨u, -, hu⟩ := exists_of_forM_error hv
      split at hu
      · cases hu
      · exact ⟨_, _, by rw [← Except.error.inj hu]⟩

/-- A one-hour template of the sample catalog. -/
def sampleTemplate (actionId : String) (outcomes : Finset String) (prerequisites : List String)
    (h : isBlank actionId = false) : ActivityTemplate where
  actionId
  revision := 1
  title := actionId
  estimatedHours := 1
  outcomeRequirementKeys := outcomes
  prerequisiteActionIds := prerequisites
  completionCriteria := ["done"]
  supportRefs := {"ref"}
  cost := .known 0
  isFoundational := false
  accepted := (ActivityTemplateData.postInit_ok_iff _).mpr ⟨h, Int.one_pos, Int.one_pos, by simp,
    by simp⟩

/-- An activity with one prerequisite. -/
def sampleGenerator : CandidateGenerator where
  templates := [sampleTemplate "b" {"r"} ["a"] (by decide), sampleTemplate "a" ∅ [] (by decide)]
  accepted := by decide

/-- A READY analysis with the given requirements. -/
def sampleAnalysis (requirements : List RequirementEvaluation) : EditorialAnalysis where
  analysisId := "analysis"
  profileVersion := 1
  occupationId := "occupation"
  basisVersion := "basis"
  corpusReleaseId := none
  isFixture := true
  referenceAt := 0
  analysisStatus := .ready
  requirements

/-- The prerequisite of a root is a candidate too. -/
theorem build_smallestClosure_sample :
    ∃ set, build sampleGenerator (sampleAnalysis [⟨"r", "label", .required, .unmet, ∅⟩]) =
        .ok set ∧
      SmallestClosure sampleGenerator.templates
        (sampleAnalysis [⟨"r", "label", .required, .unmet, ∅⟩]) set.candidates := by
  obtain ⟨set, hset, hclosure, -⟩ := (build_smallestClosure sampleGenerator
    (sampleAnalysis [⟨"r", "label", .required, .unmet, ∅⟩]) rfl).1 (by decide)
  exact ⟨set, hset, hclosure⟩

/-- An activity whose prerequisite is a foundation without outcomes. -/
def foundationGenerator : CandidateGenerator where
  templates := [sampleTemplate "b" {"r"} ["a"] (by decide),
    { sampleTemplate "a" ∅ [] (by decide) with isFoundational := true }]
  accepted := by decide

/-- A READY analysis without the outcome of an accepted template is not expanded at all; and a
foundation without outcomes, all of which are SATISFIED then, is still a prerequisite. -/
theorem build_unknown_outcome :
    ((sampleAnalysis []).analysisStatus = .ready ∧
      build sampleGenerator (sampleAnalysis []) =
        .error (.unknownOutcomeRequirement "b" "r")) ∧
    (∃ t ∈ foundationGenerator.templates, t.actionId = "a" ∧ t.isFoundational = true ∧
      ∀ key ∈ t.outcomeRequirementKeys,
        (evaluationOf (sampleAnalysis [⟨"r", "label", .required, .unmet, ∅⟩]) key).map
          (·.status) = some .satisfied) ∧
    (build foundationGenerator (sampleAnalysis [⟨"r", "label", .required, .unmet, ∅⟩])).map
      (fun set ↦ set.candidates.map fun c ↦ (c.actionId, c.prerequisiteActionIds)) =
        .ok [("a", ∅), ("b", {"a"})] :=
  ⟨⟨rfl, rfl⟩, ⟨_, List.mem_cons_of_mem _ List.mem_cons_self, rfl, rfl, by decide⟩, rfl⟩

end Jobtology.Planning
