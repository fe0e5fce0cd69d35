import Jobtology.Base.Collections
import Jobtology.Base.Text
import Jobtology.Corpus.Snapshot
import Mathlib.Data.Rat.Defs

/-!
# The profile normalizer

`modules/profiles/normalizer.py`: capabilities are resolved to the entities of a catalog. The case
folding of Unicode is a parameter.
-/

namespace Jobtology.Profiles

open Jobtology.Base Jobtology.Corpus

/-- `CapabilityInput`. -/
structure CapabilityInput where
  rawText : String
  entityId : Option String
  experienceCodes : List String
  credit : ℚ
  deriving DecidableEq

/-- The field constraints of `CapabilityInput` on its text. -/
def CapabilityInput.Valid (c : CapabilityInput) : Prop :=
  c.rawText ≠ "" ∧ c.rawText.length ≤ 500

instance (c : CapabilityInput) : Decidable c.Valid := inferInstanceAs (Decidable (_ ∧ _))

/-- The resolution of a capability. -/
inductive Resolution
  | resolved
  | unresolved
  | ambiguous
  deriving DecidableEq

/-- `NormalizedCapability`. -/
structure NormalizedCapability where
  rawText : String
  entityId : Option String
  experienceCodes : List String
  resolution : Resolution
  credit : ℚ
  deriving DecidableEq

/-- The errors of the normalizer.
`src/jobtology_be/modules/profiles/normalizer.py:22–27,31–37,41–46`. -/
inductive NormalizeError
  | unknownExperienceCode (experienceCode : String)
  | unknownEntityId (entityId : String)
  | conflictingEntityId (entityId rawText : String)
  deriving DecidableEq

/-- `CatalogProfileNormalizer`. `src/jobtology_be/modules/profiles/normalizer.py:7–12,50–132`. -/
structure CatalogProfileNormalizer where
  casefold : String → String
  entries : List CapabilityCatalogEntry
  allowedExperienceCodes : Finset String

namespace CatalogProfileNormalizer

variable (n : CatalogProfileNormalizer)

/-- `_lookup_key`. `src/jobtology_be/modules/profiles/normalizer.py:135–136`. -/
def lookupKey (value : String) : String := n.casefold (String.ofList (strip value.toList))

/-- The entity has an alias with the key. -/
def Names (key : String) (entityId : String) : Prop :=
  ∃ e ∈ n.entries, e.entityId = entityId ∧ ∃ a ∈ e.aliases, n.lookupKey a = key

instance (key entityId : String) : Decidable (n.Names key entityId) :=
  inferInstanceAs (Decidable (∃ e ∈ n.entries, _))

/-- The entities that a text may name, sorted. -/
def candidates (rawText : String) : List String :=
  if n.lookupKey rawText = "" then []
  else sortedSet ((n.entries.map (·.entityId)).filter fun e ↦
    n.Names (n.lookupKey rawText) e).toFinset

/-- `_normalize_capability`. `src/jobtology_be/modules/profiles/normalizer.py:80–132`. -/
def normalizeCapability (c : CapabilityInput) : Except NormalizeError NormalizedCapability :=
  match c.experienceCodes.find? (· ∉ n.allowedExperienceCodes) with
  | some code => .error (.unknownExperienceCode code)
  | none =>
    let candidates := n.candidates c.rawText
    match c.entityId with
    | some entityId =>
      if entityId ∉ n.entries.map (·.entityId) then .error (.unknownEntityId entityId)
      else if entityId ∉ candidates then .error (.conflictingEntityId entityId c.rawText)
      else .ok ⟨c.rawText, some entityId, c.experienceCodes, .resolved, c.credit⟩
    | none =>
      match candidates with
      | [entityId] => .ok ⟨c.rawText, some entityId, c.experienceCodes, .resolved, c.credit⟩
      | [] => .ok ⟨c.rawText, none, c.experienceCodes, .unresolved, c.credit⟩
      | _ => .ok ⟨c.rawText, none, c.experienceCodes, .ambiguous, c.credit⟩

/-- `normalize`: the capabilities of the profile.
`src/jobtology_be/modules/profiles/normalizer.py:71–78`. -/
def normalize (capabilities : List CapabilityInput) :
    Except NormalizeError (List NormalizedCapability) :=
  capabilities.mapM n.normalizeCapability

/-- The text names the entity. -/
def Labels (rawText entityId : String) : Prop :=
  n.lookupKey rawText ≠ "" ∧ n.Names (n.lookupKey rawText) entityId

instance (rawText entityId : String) : Decidable (n.Labels rawText entityId) :=
  inferInstanceAs (Decidable (_ ∧ _))

/-- The candidates of a text are the entities that it labels. -/
theorem mem_candidates {rawText entityId : String} :
    entityId ∈ n.candidates rawText ↔ n.Labels rawText entityId := by
  unfold candidates Labels
  by_cases hblank : n.lookupKey rawText = ""
  · simp [hblank]
  · rw [if_neg hblank, mem_sortedSet, List.mem_toFinset, List.mem_filter, decide_eq_true_eq]
    refine ⟨fun h ↦ ⟨hblank, h.2⟩, fun h ↦ ⟨?_, h.2⟩⟩
    obtain ⟨e, he, rfl, -⟩ := h.2
    exact List.mem_map_of_mem he

/-- What a capability needs to be normalized: known experience codes, and the entity that it
states, if any, is one that its text names. -/
def Fits (c : CapabilityInput) : Prop :=
  (∀ code ∈ c.experienceCodes, code ∈ n.allowedExperienceCodes) ∧
    ∀ entityId ∈ c.entityId, n.Labels c.rawText entityId

instance (c : CapabilityInput) : Decidable (n.Fits c) := inferInstanceAs (Decidable (_ ∧ _))

/-- A capability that fits keeps its text, codes and credit, and any entity is of the catalog. -/
structure IsNormalized (c : CapabilityInput) (d : NormalizedCapability) : Prop where
  rawText : d.rawText = c.rawText
  experienceCodes : d.experienceCodes = c.experienceCodes
  credit : d.credit = c.credit
  stated : ∀ entityId ∈ c.entityId, d.entityId = some entityId ∧ d.resolution = .resolved
  known : ∀ entityId ∈ d.entityId, entityId ∈ n.entries.map (·.entityId)
  resolved : d.resolution = .resolved ↔ d.entityId ≠ none

/-- What is normalized fits the catalog, and is normalized to it. -/
theorem normalizeCapability_fits {c : CapabilityInput} {d : NormalizedCapability}
    (h : n.normalizeCapability c = .ok d) : n.Fits c ∧ n.IsNormalized c d := by
  unfold normalizeCapability at h
  cases hcode : c.experienceCodes.find? (· ∉ n.allowedExperienceCodes) with
  | some code =>
    rw [hcode] at h
    cases h
  | none =>
    rw [hcode] at h
    have hcodes : ∀ code ∈ c.experienceCodes, code ∈ n.allowedExperienceCodes := by
      simpa using List.find?_eq_none.mp hcode
    cases hentity : c.entityId with
    | some entityId =>
      simp only [hentity] at h
      split at h
      · cases h
      split at h
      · cases h
      · next hknown hcandidate =>
        obtain rfl := Except.ok.inj h
        rw [not_not] at hknown hcandidate
        refine ⟨⟨hcodes, ?_⟩, rfl, rfl, rfl, ?_, ?_, by simp⟩
        · rw [hentity]
          rintro _ ⟨⟩
          exact n.mem_candidates.mp hcandidate
        · rw [hentity]
          rintro _ ⟨⟩
          exact ⟨rfl, rfl⟩
        · rintro _ ⟨⟩
          exact hknown
    | none =>
      simp only [hentity] at h
      refine ⟨⟨hcodes, fun _ h ↦ by rw [hentity] at h; cases h⟩, ?_⟩
      have hstated : ∀ e ∈ c.entityId, d.entityId = some e ∧ d.resolution = .resolved := by
        rw [hentity]
        rintro _ ⟨⟩
      split at h
      · next entityId hone =>
        obtain rfl := Except.ok.inj h
        refine ⟨rfl, rfl, rfl, hstated, ?_, by simp⟩
        rintro _ ⟨⟩
        have hmem : entityId ∈ n.candidates c.rawText := by
          rw [hone]
          exact List.mem_cons_self
        obtain ⟨e, he, rfl, -⟩ := (n.mem_candidates.mp hmem).2
        exact List.mem_map_of_mem he
      · obtain rfl := Except.ok.inj h
        refine ⟨rfl, rfl, rfl, hstated, ?_, by simp⟩
        rintro _ ⟨⟩
      · obtain rfl := Except.ok.inj h
        refine ⟨rfl, rfl, rfl, hstated, ?_, by simp⟩
        rintro _ ⟨⟩

private theorem normalizeCapability_ok {c : CapabilityInput} (h : n.Fits c) :
    ∃ d, n.normalizeCapability c = .ok d := by
  obtain ⟨hcodes, hentity⟩ := h
  have hcode : c.experienceCodes.find? (· ∉ n.allowedExperienceCodes) = none := by
    rw [List.find?_eq_none]
    simpa using hcodes
  unfold normalizeCapability
  rw [hcode]
  cases hstated : c.entityId with
  | some entityId =>
    have hnames := hentity entityId (Option.mem_def.mpr hstated)
    have hcandidate := n.mem_candidates.mpr hnames
    obtain ⟨e, he, hid, -⟩ := hnames.2
    have hknown : entityId ∈ n.entries.map (·.entityId) := hid ▸ List.mem_map_of_mem he
    simp only [hknown, hcandidate, not_true_eq_false, if_false]
    exact ⟨_, rfl⟩
  | none =>
    simp only
    split <;> exact ⟨_, rfl⟩

/-- A list of capabilities is normalized exactly when each of them fits. -/
theorem normalize_ok_iff {capabilities : List CapabilityInput} :
    (∃ profile, n.normalize capabilities = .ok profile) ↔ ∀ c ∈ capabilities, n.Fits c := by
  unfold normalize
  rw [exists_mapM_ok_iff]
  refine forall_congr' fun c ↦ forall_congr' fun _ ↦ ?_
  exact ⟨fun ⟨d, hd⟩ ↦ (n.normalizeCapability_fits hd).1, n.normalizeCapability_ok⟩

end CatalogProfileNormalizer

end Jobtology.Profiles
