import Jobtology.ProductRoles.Builder
import Mathlib.Data.Finset.Card

/-!
# The order of the input rows

What of the builder depends on the order of its input rows. Every collection of the draft is a
set, a count, a dictionary or rows sorted by a key; the key of the sources takes an absent run or
publication for an empty one, and is the only one that can tie.
-/

namespace Jobtology.ProductRoles

open Jobtology.Base

/-- The same rows in another order. -/
structure Reordered (a b : ProductRoleInputs) : Prop where
  sources : a.sources.Perm b.sources
  units : a.units.Perm b.units
  qualifications : a.qualifications.Perm b.qualifications
  evidence : a.evidence.Perm b.evidence
  linkedPostings : Option.Rel List.Perm a.linkedPostings b.linkedPostings

/-- One row for each unit, posting, competency with evidence and source. -/
structure OneRowEach (inputs : ProductRoleInputs) : Prop where
  units : (inputs.units.map (·.code)).Nodup
  postings : ∀ postings ∈ inputs.linkedPostings, (postings.map (·.postingKey)).Nodup
  evidence : (inputs.evidence.map (·.competencyCode)).Nodup
  sources : (inputs.sources.map fun s ↦ (s.sourceId, s.runId, s.publicationId)).Nodup

/-! ### Rows and their documents -/

private theorem str_inj {a b : String} (h : (Json.str a).sortKeys = (Json.str b).sortKeys) :
    a = b := by
  rw [Json.sortKeys, Json.sortKeys] at h
  exact Json.str.inj h

private theorem optional_str_inj {a b : Option String}
    (h : (Json.optional .str a).sortKeys = (Json.optional .str b).sortKeys) : a = b :=
  Json.optional_sortKeys_inj (fun _ h ↦ by cases h) (fun _ _ h ↦ str_inj h) h

private theorem optional_int_inj {a b : Option Int}
    (h : (Json.optional .int a).sortKeys = (Json.optional .int b).sortKeys) : a = b := by
  refine Json.optional_sortKeys_inj (fun _ h ↦ by cases h) (fun _ _ h ↦ ?_) h
  rw [Json.sortKeys, Json.sortKeys] at h
  exact Json.int.inj h

private theorem optional_bool_inj {a b : Option Bool}
    (h : (Json.optional .bool a).sortKeys = (Json.optional .bool b).sortKeys) : a = b := by
  refine Json.optional_sortKeys_inj (fun _ h ↦ by cases h) (fun _ _ h ↦ ?_) h
  rw [Json.sortKeys, Json.sortKeys] at h
  exact Json.bool.inj h

/-- The document of a qualification has all of it. -/
theorem InputQualification.json_inj {a b : InputQualification}
    (h : a.json.sortKeys = b.json.sortKeys) : a = b := by
  unfold InputQualification.json at h
  have hcompetency := Json.exists_member h (k := "competency_code")
    (v := .str a.competencyCode) (by simp)
  have hcode := Json.exists_member h (k := "qualification_code")
    (v := .str a.qualificationCode) (by simp)
  have hname := Json.exists_member h (k := "qualification_name")
    (v := .optional .str a.qualificationName) (by simp)
  have hminimum := Json.exists_member h (k := "minimum_training_hours")
    (v := .optional .int a.minimumTrainingHours) (by simp)
  have htotal := Json.exists_member h (k := "total_training_hours")
    (v := .optional .int a.totalTrainingHours) (by simp)
  simp at hcompetency hcode hname hminimum htotal
  cases a
  cases b
  congr 1
  · exact (str_inj hcompetency).symm
  · exact (str_inj hcode).symm
  · exact (optional_str_inj hname).symm
  · exact (optional_int_inj hminimum).symm
  · exact (optional_int_inj htotal).symm

/-- The document of a source has all of it. -/
theorem InputSource.json_inj {a b : InputSource} (h : a.json.sortKeys = b.json.sortKeys) :
    a = b := by
  unfold InputSource.json at h
  have hsource := Json.exists_member h (k := "source_id") (v := .str a.sourceId) (by simp)
  have hrun := Json.exists_member h (k := "run_id") (v := .optional .str a.runId) (by simp)
  have hpublication := Json.exists_member h (k := "publication_id")
    (v := .optional .str a.publicationId) (by simp)
  have hdata := Json.exists_member h (k := "data_as_of") (v := .optional .str a.dataAsOf) (by simp)
  have hcreated := Json.exists_member h (k := "created_at")
    (v := .optional .str a.createdAt) (by simp)
  have hposting := Json.exists_member h (k := "posting_source")
    (v := .optional .str a.postingSource) (by simp)
  have hlatest := Json.exists_member h (k := "is_latest_publication")
    (v := .optional .bool a.isLatestPublication) (by simp)
  simp at hsource hrun hpublication hdata hcreated hposting hlatest
  cases a
  cases b
  congr 1
  · exact (str_inj hsource).symm
  · exact (optional_str_inj hrun).symm
  · exact (optional_str_inj hpublication).symm
  · exact (optional_str_inj hdata).symm
  · exact (optional_str_inj hcreated).symm
  · exact (optional_str_inj hposting).symm
  · exact (optional_bool_inj hlatest).symm

private theorem map_json_inj {xs ys : List InputSource}
    (h : (xs.map (·.json)).map Json.sortKeys = (ys.map (·.json)).map Json.sortKeys) : xs = ys := by
  rw [List.map_map, List.map_map] at h
  exact List.map_injective_iff.mpr (fun _ _ ↦ InputSource.json_inj) h

/-! ### Sorted rows -/

private theorem qualificationSortKey_inj {a b : InputQualification}
    (h : qualificationSortKey a = qualificationSortKey b) : a = b := by
  unfold qualificationSortKey at h
  have hkey := toLex_inj.mp h
  rw [Prod.mk.injEq] at hkey
  have htext := toLex_inj.mp hkey.2
  rw [Prod.mk.injEq] at htext
  exact InputQualification.json_inj (Json.dumps_inj.mp htext.2)

variable {a b : ProductRoleInputs}

private theorem sortedQualifications_eq (h : Reordered a b) :
    sortedBy qualificationSortKey a.qualifications =
      sortedBy qualificationSortKey b.qualifications :=
  sortedBy_perm h.qualifications fun _ _ _ _ ↦ qualificationSortKey_inj

/-! ### Selected units -/

private theorem selectedUnits_perm (role : RolePolicy) (h : Reordered a b) (hone : OneRowEach a) :
    (selectedUnits role a.units).Perm (selectedUnits role b.units) := by
  unfold selectedUnits selectUnit
  refine (perm_foldl_keepGreatest (h.units.filter _) ?_).filter _
  exact List.Nodup.sublist ((List.filter_sublist).map _) hone.units

private theorem nodup_selectedUnits (role : RolePolicy) (hone : OneRowEach a) :
    ((selectedUnits role a.units).map (·.1)).Nodup := by
  have hgreatest : Greatest (·.baseCode) (·.code) (a.units.filter (role.Covers ·)) _ :=
    greatest_foldl (List.Nodup.sublist ((List.filter_sublist).map _) hone.units)
  exact List.Nodup.sublist ((List.filter_sublist).map _) hgreatest.keys

/-! ### Evidence, hours and demand -/

private theorem evidenceOf_perm (h : Reordered a b) (baseCode : String) :
    (evidenceOf a baseCode).Perm (evidenceOf b baseCode) := by
  have hversions : ∀ item : InputEvidence,
      (a.units.any fun c ↦ c.baseCode = baseCode ∧ c.code = item.competencyCode) =
        b.units.any fun c ↦ c.baseCode = baseCode ∧ c.code = item.competencyCode :=
    fun item ↦ h.units.any_eq
  unfold evidenceOf
  rw [List.filter_congr fun item _ ↦ hversions item]
  exact h.evidence.filter _

private theorem officialHours_perm (h : Reordered a b) (unit : InputUnit) :
    (officialHours a unit).Perm (officialHours b unit) :=
  (h.qualifications.filter _).filterMap _

/-- The least element does not depend on the order. -/
theorem min?_perm {xs ys : List Int} (hp : xs.Perm ys) : xs.min? = ys.min? := by
  ext x
  rw [List.min?_eq_some_iff, List.min?_eq_some_iff, hp.mem_iff]
  refine and_congr_right fun _ ↦ forall_congr' fun y ↦ ?_
  rw [hp.mem_iff]

private theorem linkedBases_perm (h : Reordered a b) (hone : OneRowEach a) {baseCodes : List String}
    {baseCodes' : List String} (hbases : ∀ c, c ∈ baseCodes ↔ c ∈ baseCodes')
    (posting : InputLinkedPosting) :
    linkedBases a.units baseCodes posting = linkedBases b.units baseCodes' posting := by
  have hunits : (a.units.filter (·.baseCode ∈ baseCodes)).Perm
      (b.units.filter (·.baseCode ∈ baseCodes')) := by
    rw [List.filter_congr fun u _ ↦ decide_eq_decide.mpr (hbases u.baseCode)]
    exact h.units.filter _
  unfold linkedBases
  refine List.filterMap_congr fun code _ ↦ ?_
  rw [lookupLast_perm hunits (List.Nodup.sublist ((List.filter_sublist).map _) hone.units)]

/-- Distinct postings are counted as they are. -/
theorem postingBases_eq {postings : List InputLinkedPosting} (inputs : ProductRoleInputs)
    (baseCodes : List String) (hn : (postings.map (·.postingKey)).Nodup) :
    postingBases inputs baseCodes postings =
      postings.filter fun p ↦ linkedBases inputs.units baseCodes p ≠ [] :=
  dictOf_eq_self (List.Nodup.sublist ((List.filter_sublist).map _) hn)

private theorem roleDemand_eq (h : Reordered a b) (hone : OneRowEach a)
    {baseCodes baseCodes' : List String}
    (hbases : ∀ c, c ∈ baseCodes ↔ c ∈ baseCodes') (baseCode : String) :
    roleDemand a baseCodes baseCode = roleDemand b baseCodes' baseCode := by
  have hlinked := linkedBases_perm h hone hbases
  unfold roleDemand
  cases hpostings : a.linkedPostings with
  | none =>
    have hrel := h.linkedPostings
    rw [hpostings] at hrel
    cases hother : b.linkedPostings with
    | none => rfl
    | some postings =>
      rw [hother] at hrel
      cases hrel
  | some postings =>
    have hrel := h.linkedPostings
    rw [hpostings] at hrel
    cases hother : b.linkedPostings with
    | none =>
      rw [hother] at hrel
      cases hrel
    | some postings' =>
      rw [hother] at hrel
      cases hrel with
      | some hp =>
        have hn := hone.postings postings (Option.mem_def.mpr hpostings)
        have hn' := (hp.map (·.postingKey)).nodup_iff.mp hn
        have hfiltered : (postingBases a baseCodes postings).Perm
            (postingBases b baseCodes' postings') := by
          rw [postingBases_eq a baseCodes hn, postingBases_eq b baseCodes' hn',
            List.filter_congr fun p _ ↦ by rw [hlinked p]]
          exact hp.filter _
        simp only [Prod.mk.injEq, Option.some.injEq]
        refine ⟨?_, hfiltered.length_eq⟩
        rw [List.countP_congr fun p _ ↦ by rw [hlinked p]]
        exact hfiltered.countP_eq _

/-! ### Documents -/

private theorem roleEntry_eq (role : RolePolicy) (runId : String) (h : Reordered a b)
    (hone : OneRowEach a) {baseCodes baseCodes' : List String}
    (hbases : ∀ c, c ∈ baseCodes ↔ c ∈ baseCodes') (baseCode : String) (unit : InputUnit) :
    roleEntry role a runId baseCodes baseCode unit =
      roleEntry role b runId baseCodes' baseCode unit := by
  have hevidence := evidenceOf_perm h baseCode
  have hsum : ((evidenceOf a baseCode).map (·.postings)).sum =
      ((evidenceOf b baseCode).map (·.postings)).sum := (hevidence.map _).sum_eq
  have hrefs : ((evidenceOf a baseCode).flatMap fun item ↦ item.publicationIds.map
        fun publicationId ↦ "evidence:" ++ publicationId ++ ":" ++ item.competencyCode).toFinset =
      ((evidenceOf b baseCode).flatMap fun item ↦ item.publicationIds.map
        fun publicationId ↦ "evidence:" ++ publicationId ++ ":" ++ item.competencyCode).toFinset :=
    List.toFinset_eq_of_perm _ _ (hevidence.flatMap_right _)
  have hhours := officialHours_perm h unit
  have hempty : officialHours a unit = [] ↔ officialHours b unit = [] := by
    rw [← List.length_eq_zero_iff, ← List.length_eq_zero_iff, hhours.length_eq]
  have hpairs : qualificationPairs a unit = qualificationPairs b unit := by
    unfold qualificationPairs
    rw [sortedQualifications_eq h]
  unfold roleEntry
  simp only [hsum, hrefs, min?_perm hhours, hempty, hpairs, roleDemand_eq h hone hbases]

private theorem roleDocument_eq (role : RolePolicy) (runId : String) (h : Reordered a b)
    (hone : OneRowEach a) : roleDocument role a runId = roleDocument role b runId := by
  have hselected := selectedUnits_perm role h hone
  have hbases : ∀ c, c ∈ (selectedUnits role a.units).map (·.1) ↔
      c ∈ (selectedUnits role b.units).map (·.1) := fun c ↦ (hselected.map _).mem_iff
  have hempty : selectedUnits role a.units = [] ↔ selectedUnits role b.units = [] := by
    rw [← List.length_eq_zero_iff, ← List.length_eq_zero_iff, hselected.length_eq]
  have hsorted := sortedBy_perm_of_nodup hselected (nodup_selectedUnits role hone)
  unfold roleDocument
  simp only [hempty, hsorted]
  split
  · rfl
  · congr 2
    exact List.map_congr_left fun e _ ↦ roleEntry_eq role runId h hone hbases e.1 e.2

private theorem ncsRuns_perm (h : Reordered a b) : (ncsRuns a.sources).Perm (ncsRuns b.sources) :=
  (h.sources.filter _).filterMap _

/-- The documents of the roles. -/
def snapshotsOf (inputs : ProductRoleInputs) (policy : ProductRolePolicy) (runId : String) :
    List RoleDocument :=
  policy.roles.filterMap fun role ↦ roleDocument role inputs runId

private theorem snapshotsOf_eq (policy : ProductRolePolicy) (runId : String) (h : Reordered a b)
    (hone : OneRowEach a) : snapshotsOf a policy runId = snapshotsOf b policy runId :=
  List.filterMap_congr fun role _ ↦ roleDocument_eq role runId h hone

private theorem artifact_eq (policy : ProductRolePolicy) (h : Reordered a b) (hone : OneRowEach a)
    (hkeys : (a.sources.map sourceSortKey).Nodup) (snapshots : List RoleDocument)
    (names : List (String × String)) (metadata : List (String × RequirementMetadata)) :
    artifact a policy snapshots names metadata = artifact b policy snapshots names metadata := by
  have hpostings : (a.linkedPostings.map fun postings ↦ sortedBy (·.postingKey) postings) =
      b.linkedPostings.map fun postings ↦ sortedBy (·.postingKey) postings := by
    have hrel := h.linkedPostings
    have hn := hone.postings
    cases hpostings : a.linkedPostings with
    | none =>
      rw [hpostings] at hrel
      cases hother : b.linkedPostings with
      | none => rfl
      | some postings =>
        rw [hother] at hrel
        cases hrel
    | some postings =>
      rw [hpostings] at hrel hn
      cases hother : b.linkedPostings with
      | none =>
        rw [hother] at hrel
        cases hrel
      | some postings' =>
        rw [hother] at hrel
        cases hrel with
        | some hp =>
          exact congrArg some (sortedBy_perm_of_nodup hp (hn postings rfl))
  have hlinked : Json.optional (fun postings : List InputLinkedPosting ↦
        .arr ((sortedBy (·.postingKey) postings).map (·.json))) a.linkedPostings =
      Json.optional (fun postings : List InputLinkedPosting ↦
        .arr ((sortedBy (·.postingKey) postings).map (·.json))) b.linkedPostings := by
    revert hpostings
    cases a.linkedPostings <;> cases b.linkedPostings <;> intro hpostings
    · rfl
    · cases hpostings
    · cases hpostings
    · have hsorted := Option.some.inj hpostings
      simp only [Json.optional, hsorted]
  unfold artifact
  rw [sortedBy_perm_of_nodup h.sources hkeys, sortedBy_perm_of_nodup h.units hone.units,
    sortedQualifications_eq h, sortedBy_perm_of_nodup h.evidence hone.evidence, hlinked]

/-! ### The draft -/

/-- The build is refused: there is not exactly one NCS run, or no role has a unit. -/
def Refused (inputs : ProductRoleInputs) (policy : ProductRolePolicy) : Prop :=
  (ncsRuns inputs.sources).length ≠ 1 ∨
    ∀ role ∈ policy.roles, selectedUnits role inputs.units = []

private theorem snapshotsOf_eq_nil {inputs : ProductRoleInputs} {policy : ProductRolePolicy}
    {runId : String} : snapshotsOf inputs policy runId = [] ↔
      ∀ role ∈ policy.roles, selectedUnits role inputs.units = [] := by
  unfold snapshotsOf roleDocument
  rw [List.filterMap_eq_nil_iff]
  refine forall_congr' fun role ↦ forall_congr' fun _ ↦ ?_
  simp

/-- The draft of inputs that are not refused. -/
def draftOf (sha256 : String → String) (inputs : ProductRoleInputs) (policy : ProductRolePolicy)
    (runId : String) : ProductRoleDraft :=
  let snapshots := snapshotsOf inputs policy runId
  let metadata := dictEntries (snapshots.flatMap fun d ↦
    d.entries.map fun e ↦ (e.requirementKey, e.metadata))
  let names := dictEntries ((policy.roles.filter fun role ↦
    snapshots.any (·.occupationId = role.occupationId)).map fun role ↦
      (role.occupationId, role.name))
  let document := Json.dumps ⟨false, false⟩ (artifact inputs policy snapshots names metadata)
  { document := document
    digest := sha256 document
    snapshots := snapshots
    snapshotJson := Json.dumps spacedText (.arr (snapshots.map (·.json)))
    names := names
    metadata := metadata }

private theorem buildProductRoles_eq (sha256 : String → String) (inputs : ProductRoleInputs)
    (policy : ProductRolePolicy) :
    buildProductRoles sha256 inputs policy =
      match ncsRuns inputs.sources with
      | [runId] =>
        if snapshotsOf inputs policy runId = [] then .error .units
        else .ok (draftOf sha256 inputs policy runId)
      | _ => .error .runs := rfl

private theorem build_of_runs (sha256 : String → String) {inputs : ProductRoleInputs}
    (policy : ProductRolePolicy) (h : (ncsRuns inputs.sources).length ≠ 1) :
    buildProductRoles sha256 inputs policy = .error .runs := by
  rw [buildProductRoles_eq]
  split
  · next runId hruns =>
    rw [hruns] at h
    exact absurd rfl h
  · rfl

private theorem buildProductRoles_reordered (sha256 : String → String) {policy : ProductRolePolicy}
    (h : Reordered a b) (hone : OneRowEach a)
    (hfree : Refused a policy ∨ (a.sources.map sourceSortKey).Nodup) :
    buildProductRoles sha256 b policy = buildProductRoles sha256 a policy := by
  have hruns := ncsRuns_perm h
  rw [buildProductRoles_eq, buildProductRoles_eq]
  by_cases hone' : (ncsRuns a.sources).length = 1
  · obtain ⟨runId, ha⟩ := List.length_eq_one_iff.mp hone'
    have hb : ncsRuns b.sources = [runId] := List.perm_singleton.mp (ha ▸ hruns.symm)
    simp only [ha, hb]
    rw [← snapshotsOf_eq policy runId h hone]
    by_cases hempty : snapshotsOf a policy runId = []
    · rw [if_pos hempty, if_pos hempty]
    · rw [if_neg hempty, if_neg hempty]
      have hkeys : (a.sources.map sourceSortKey).Nodup := by
        rcases hfree with (hlength | hnone) | hkeys
        · exact absurd hone' hlength
        · exact absurd (snapshotsOf_eq_nil.mpr hnone) hempty
        · exact hkeys
      unfold draftOf
      simp only [← snapshotsOf_eq policy runId h hone, ← artifact_eq policy h hone hkeys]
  · have hother : (ncsRuns b.sources).length ≠ 1 := by rwa [← hruns.length_eq]
    rw [← buildProductRoles_eq, ← buildProductRoles_eq, build_of_runs sha256 policy hother,
      build_of_runs sha256 policy hone']

/-- The draft shows the order of two sources that tie. -/
theorem document_ne_of_tie (sha256 : String → String) {policy : ProductRolePolicy}
    {runId runId' : String} {x y : InputSource} {rest : List InputSource}
    (ha : a.sources = x :: y :: rest) (hb : b.sources = y :: x :: rest)
    (hn : (x :: y :: rest).Nodup) (hkey : sourceSortKey x = sourceSortKey y) :
    (draftOf sha256 a policy runId).document ≠ (draftOf sha256 b policy runId').document := by
  intro heq
  have hobject := Json.dumps_inj.mp heq
  unfold artifact at hobject
  have hsources := Json.exists_member hobject (k := "sources")
    (v := .arr ((sortedBy sourceSortKey a.sources).map (·.json))) (by simp)
  simp at hsources
  have hsorted := map_json_inj (Json.map_sortKeys_eq hsources)
  rw [ha, hb] at hsorted
  exact sortedBy_swap_ne hn hkey hsorted.symm

/-- Without a reason to refuse, the build gives its draft. -/
theorem build_of_not_refused (sha256 : String → String) {inputs : ProductRoleInputs}
    {policy : ProductRolePolicy} (h : ¬ Refused inputs policy) :
    ∃ runId, buildProductRoles sha256 inputs policy =
      .ok (draftOf sha256 inputs policy runId) := by
  unfold Refused at h
  rw [not_or, not_not] at h
  obtain ⟨runId, hrun⟩ := List.length_eq_one_iff.mp h.1
  have hsome : snapshotsOf inputs policy runId ≠ [] := fun hnil ↦
    h.2 (snapshotsOf_eq_nil.mp hnil)
  refine ⟨runId, ?_⟩
  rw [buildProductRoles_eq, hrun]
  exact if_neg hsome

/-- What a build gives is the draft of its inputs. -/
theorem draft_of_build {sha256 : String → String} {inputs : ProductRoleInputs}
    {policy : ProductRolePolicy} {draft : ProductRoleDraft}
    (h : buildProductRoles sha256 inputs policy = .ok draft) :
    ∃ runId, draft = draftOf sha256 inputs policy runId := by
  rw [buildProductRoles_eq] at h
  split at h
  · next runId _ =>
    split at h
    · cases h
    · exact ⟨runId, (Except.ok.inj h).symm⟩
  · cases h

private theorem reordered_sources {sources : List InputSource} (h : a.sources.Perm sources) :
    Reordered a { a with sources := sources } :=
  ⟨h, .refl _, .refl _, .refl _, by
    cases a.linkedPostings with
    | none => exact .none
    | some postings => exact .some (.refl _)⟩

/-! ### Demand -/

/-- The demand of a unit: the postings that ask for it, out of all postings of the role, each
counted once under its key. -/
structure CountedOnce (postings : List InputLinkedPosting)
    (bases : InputLinkedPosting → List String) (baseCode : String) (count total : Nat)
    (asking ofRole : Finset String) : Prop where
  counted : count = asking.card
  totalled : total = ofRole.card
  le : count ≤ total
  asking : ∀ k, k ∈ asking ↔ ∃ p ∈ postings, baseCode ∈ bases p ∧ p.postingKey = k
  ofRole : ∀ k, k ∈ ofRole ↔ ∃ p ∈ postings, bases p ≠ [] ∧ p.postingKey = k

/-- The demand of an entry of a document, where it is known. -/
def DemandCounted (inputs : ProductRoleInputs) (d : RoleDocument) (e : RoleEntry) : Prop :=
  match inputs.linkedPostings with
  | none => e.metadata.demandPostings = none ∧ e.metadata.demandBase = none
  | some postings => ∃ count total, e.metadata.demandPostings = some count ∧
      e.metadata.demandBase = some total ∧ ∃ asking ofRole, CountedOnce postings
        (linkedBases inputs.units (d.entries.map (·.metadata.ncsBaseCode)))
        e.metadata.ncsBaseCode count total asking ofRole

private theorem countedOnce {postings : List InputLinkedPosting}
    (hn : (postings.map (·.postingKey)).Nodup) (bases : InputLinkedPosting → List String)
    (baseCode : String) :
    ∃ asking ofRole, CountedOnce postings bases baseCode
      ((postings.filter (bases · ≠ [])).countP (baseCode ∈ bases ·))
      (postings.filter (bases · ≠ [])).length asking ofRole := by
  have hasked : ∀ p, baseCode ∈ bases p → bases p ≠ [] := fun _ hmem ↦ List.ne_nil_of_mem hmem
  have hkeys (q : InputLinkedPosting → Bool) : ((postings.filter q).map (·.postingKey)).Nodup :=
    List.Nodup.sublist ((List.filter_sublist).map _) hn
  refine ⟨((postings.filter (baseCode ∈ bases ·)).map (·.postingKey)).toFinset,
    ((postings.filter (bases · ≠ [])).map (·.postingKey)).toFinset, ?_, ?_,
    List.countP_le_length, fun k ↦ ?_, fun k ↦ ?_⟩
  · rw [List.toFinset_card_of_nodup (hkeys _), List.length_map, ← List.countP_eq_length_filter,
      List.countP_filter]
    refine List.countP_congr fun p _ ↦ ?_
    rw [Bool.and_eq_true, decide_eq_true_eq, decide_eq_true_eq]
    exact ⟨fun h ↦ h.1, fun h ↦ ⟨h, hasked p h⟩⟩
  · rw [List.toFinset_card_of_nodup (hkeys _), List.length_map]
  · simp [and_assoc]
  · simp [and_assoc]

private theorem roleDemand_counted {inputs : ProductRoleInputs} (hone : OneRowEach inputs)
    {postings : List InputLinkedPosting} (hpostings : inputs.linkedPostings = some postings)
    (baseCodes : List String) (baseCode : String) :
    ∃ count total, roleDemand inputs baseCodes baseCode = (some count, some total) ∧
      ∃ asking ofRole, CountedOnce postings (linkedBases inputs.units baseCodes) baseCode count
        total asking ofRole := by
  have hn := hone.postings postings (Option.mem_def.mpr hpostings)
  unfold roleDemand
  rw [hpostings]
  simp only [postingBases_eq inputs baseCodes hn]
  exact ⟨_, _, rfl, countedOnce hn _ baseCode⟩

/-- In every document the demand counts are those of distinct postings. -/
theorem demandCounted_of_document {inputs : ProductRoleInputs} (hone : OneRowEach inputs)
    {role : RolePolicy} {runId : String} {d : RoleDocument}
    (hd : roleDocument role inputs runId = some d) {e : RoleEntry} (he : e ∈ d.entries) :
    DemandCounted inputs d e := by
  unfold roleDocument at hd
  simp only at hd
  split at hd
  · cases hd
  obtain rfl := Option.some.inj hd
  obtain ⟨x, hx, rfl⟩ := List.mem_map.mp he
  have hbases : ∀ c, c ∈ (selectedUnits role inputs.units).map (·.1) ↔
      c ∈ ((sortedBy (·.1) (selectedUnits role inputs.units)).map fun e ↦
        roleEntry role inputs runId ((selectedUnits role inputs.units).map (·.1)) e.1 e.2).map
          (·.metadata.ncsBaseCode) := by
    intro c
    rw [List.map_map]
    exact ((perm_sortedBy _ _).map _).mem_iff.symm
  have hlinked : linkedBases inputs.units ((selectedUnits role inputs.units).map (·.1)) =
      linkedBases inputs.units _ :=
    funext (linkedBases_perm (reordered_sources (.refl _)) hone hbases)
  unfold DemandCounted
  cases hpostings : inputs.linkedPostings with
  | none =>
    have hdemand : roleDemand inputs ((selectedUnits role inputs.units).map (·.1)) x.1 =
        (none, none) := by
      unfold roleDemand
      rw [hpostings]
    exact ⟨congrArg Prod.fst hdemand, congrArg Prod.snd hdemand⟩
  | some postings =>
    obtain ⟨count, total, hdemand, asking, ofRole, hcounted⟩ :=
      roleDemand_counted hone hpostings ((selectedUnits role inputs.units).map (·.1)) x.1
    rw [hlinked] at hcounted
    exact ⟨count, total, congrArg Prod.fst hdemand, congrArg Prod.snd hdemand, asking, ofRole,
      hcounted⟩

/-! ### When the order does not show -/

/-- The draft depends on the rows alone, and its demand counts distinct postings, exactly when the
build is refused anyway or no two sources tie: an absent run or publication ties with an empty one.
`src/jobtology_be/product_roles/builder.py:73–128,131–230`,
`src/jobtology_be/product_roles/qualification_display.py:45–58`. -/
theorem productRoles_order_free_iff (sha256 : String → String) (policy : ProductRolePolicy)
    (inputs : ProductRoleInputs) (hone : OneRowEach inputs) :
    ((∀ other, Reordered inputs other →
        buildProductRoles sha256 other policy = buildProductRoles sha256 inputs policy) ∧
      ∀ draft, buildProductRoles sha256 inputs policy = .ok draft →
        ∀ d ∈ draft.snapshots, ∀ e ∈ d.entries, DemandCounted inputs d e) ↔
      Refused inputs policy ∨ (inputs.sources.map sourceSortKey).Nodup := by
  constructor
  · rintro ⟨hfree, -⟩
    by_contra hties
    rw [not_or] at hties
    obtain ⟨hopen, hkeys⟩ := hties
    obtain ⟨x, y, rest, hperm, hkey⟩ := exists_tie hkeys
    have hswapped : inputs.sources.Perm (y :: x :: rest) := hperm.trans (.swap y x rest)
    have hn : (x :: y :: rest).Nodup :=
      hperm.nodup_iff.mp (List.Nodup.of_map _ hone.sources)
    have hfirst := hfree _ (reordered_sources hperm)
    have hsecond := hfree _ (reordered_sources hswapped)
    obtain ⟨runId, hbuild⟩ := build_of_not_refused sha256 hopen
    rw [hbuild] at hfirst hsecond
    obtain ⟨first, hx⟩ := draft_of_build hfirst
    obtain ⟨second, hy⟩ := draft_of_build hsecond
    exact document_ne_of_tie sha256 rfl rfl hn hkey (congrArg (·.document) (hx.symm.trans hy))
  · intro hcases
    refine ⟨fun other h ↦ buildProductRoles_reordered sha256 h hone hcases,
      fun draft hdraft d hd e he ↦ ?_⟩
    rw [buildProductRoles_eq] at hdraft
    split at hdraft
    · split at hdraft
      · cases hdraft
      · obtain rfl := Except.ok.inj hdraft
        obtain ⟨role, -, hrole⟩ := List.mem_filterMap.mp hd
        exact demandCounted_of_document hone hrole he
    · cases hdraft

/-- One role with one unit. -/
def samplePolicy : ProductRolePolicy :=
  ⟨⟨"owner", []⟩, [⟨"DATA_ANALYST", "데이터 분석가", ["20010703"], [], []⟩]⟩

/-- A unit that two postings are linked to, with the given sources. -/
def sampleInputs (sources : List InputSource) : ProductRoleInputs where
  sources := sources
  units := [⟨"2001070306_20v2", "2001070306", "데이터 분석", some 4, "20010703", none⟩]
  qualifications := []
  evidence := [⟨"2001070306_20v2", 2, 2, []⟩]
  linkedPostings := some [⟨"a", ["2001070306_20v2"]⟩, ⟨"b", ["2001070306_20v2"]⟩]

/-- The run of the units. -/
def ncsSource : InputSource := ⟨"ncs_competency", some "run", none, none, none, none, none⟩

/-- A source of postings without a run, or with the given one. -/
def postingSource (runId : Option String) : InputSource :=
  ⟨"linkareer", runId, some "publication", none, none, none, none⟩

/-- Two sources may change places. -/
theorem productRoles_order_free_iff_sample :
    buildProductRoles id (sampleInputs [postingSource none, ncsSource]) samplePolicy =
      buildProductRoles id (sampleInputs [ncsSource, postingSource none]) samplePolicy :=
  ((productRoles_order_free_iff id samplePolicy (sampleInputs [ncsSource, postingSource none])
    ⟨by decide, by rintro _ ⟨⟩; decide, by decide, by decide⟩).mpr (.inr (by decide))).1 _
      (reordered_sources (.swap _ _ _))

/-- Two sources of postings, one without a run and one with an empty run, give two digests. -/
theorem productRoles_order_shows :
    let inputs := sampleInputs [postingSource none, postingSource (some ""), ncsSource]
    let other := sampleInputs [postingSource (some ""), postingSource none, ncsSource]
    OneRowEach inputs ∧ Reordered inputs other ∧
      ∀ sha256 : String → String, Function.Injective sha256 →
        ∃ draft draft', buildProductRoles sha256 inputs samplePolicy = .ok draft ∧
          buildProductRoles sha256 other samplePolicy = .ok draft' ∧
          draft.digest ≠ draft'.digest := by
  intro inputs other
  refine ⟨⟨by decide, by rintro _ ⟨⟩; decide, by decide, by decide⟩,
    reordered_sources (.swap _ _ _), fun sha256 hinjective ↦ ?_⟩
  have hopen : ¬ Refused inputs samplePolicy := by
    rintro (hruns | hnone)
    · exact hruns (by decide)
    · exact absurd (hnone _ List.mem_cons_self) (by decide +kernel)
  have hopen' : ¬ Refused other samplePolicy := by
    rintro (hruns | hnone)
    · exact hruns (by decide)
    · exact absurd (hnone _ List.mem_cons_self) (by decide +kernel)
  obtain ⟨first, hfirst⟩ := build_of_not_refused sha256 hopen
  obtain ⟨second, hsecond⟩ := build_of_not_refused sha256 hopen'
  refine ⟨_, _, hfirst, hsecond, fun hdigest ↦ ?_⟩
  exact document_ne_of_tie sha256 rfl rfl (by decide) (by decide) (hinjective hdigest)

end Jobtology.ProductRoles
