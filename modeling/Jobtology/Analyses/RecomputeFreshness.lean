import Jobtology.Base.Collections
import Jobtology.Base.Json
import Jobtology.Base.SortedRows

/-!
# Freshness of recompute contexts

`application/recompute_freshness.py`: the fingerprint by which a repeated analysis request is
recognised, of the payload that `RecomputeContextDocument.model_dump` makes of a context.
-/

namespace Jobtology.Analyses

open Jobtology.Base

/-! ## Model -/

/-- A member of `calendar`. -/
structure CalendarSlot where
  startsAt : String
  endsAt : String
  capacityWeekKey : String
  deriving DecidableEq

/-- A slot as a document. -/
def CalendarSlot.json (s : CalendarSlot) : Json :=
  .obj [("starts_at", .str s.startsAt), ("ends_at", .str s.endsAt),
    ("capacity_week_key", .str s.capacityWeekKey)]

/-- The payload of a context. -/
structure ContextPayload where
  userId : String
  profileVersion : Int
  goalId : String
  snapshotSelection : Json
  capabilities : List Json
  entitiesComplete : Bool
  experienceCompleteEntityIds : List String
  constraints : Json
  referenceAt : String
  planningStartedAt : String
  calendar : List CalendarSlot
  candidateAvailability : Json
  solverSettings : Json
  requirementMetadata : Json
  /-- `calendar_policy` is `FLEXIBLE_WEEKLY_V1`, otherwise `EXPLICIT`. -/
  flexible : Bool

/-- `sorted(capabilities, key=lambda item: json.dumps(item, sort_keys=True))`. -/
def sortedCapabilities (capabilities : List Json) : List Json :=
  sortedBy (Json.dumps ⟨true, true⟩) capabilities

/-- `dict(sorted(capacities.items()))` of the counted weeks. -/
def weekCapacities (calendar : List CalendarSlot) : List (String × Json) :=
  let weeks := calendar.map (·.capacityWeekKey)
  (sortedBy id weeks.dedup).map fun week ↦ (week, .int (weeks.count week))

/-- `stable['reference_day']`: the UTC day of the timestamp, or the timestamp when it is none. -/
def referenceDay (utcDay : String → Option String) (reference : String) : String :=
  (utcDay reference).getD reference

/-- The members of `stable`. -/
def stableMembers (utcDay : String → Option String) (p : ContextPayload) : List (String × Json) :=
  [("user_id", .str p.userId), ("profile_version", .int p.profileVersion),
    ("goal_id", .str p.goalId), ("snapshot_selection", p.snapshotSelection),
    ("capabilities", .arr (sortedCapabilities p.capabilities)),
    ("completeness", .obj [("entities_complete", .bool p.entitiesComplete),
      ("experience_complete_entity_ids",
        .strings (sortedBy id p.experienceCompleteEntityIds))]),
    ("constraints", p.constraints), ("candidate_availability", p.candidateAvailability),
    ("solver_settings", p.solverSettings), ("requirement_metadata", p.requirementMetadata),
    ("calendar_policy", .str (if p.flexible then "FLEXIBLE_WEEKLY_V1" else "EXPLICIT")),
    ("reference_day", .str (referenceDay utcDay p.referenceAt)),
    if p.flexible then ("calendar_week_capacities", .obj (weekCapacities p.calendar))
    else ("calendar", .arr (p.calendar.map CalendarSlot.json))]

/-- `encoded`. -/
def encoded (utcDay : String → Option String) (p : ContextPayload) : String :=
  Json.dumps ⟨true, false⟩ (.obj (stableMembers utcDay p))

/-- `analysis_context_fingerprint`. `src/jobtology_be/application/recompute_freshness.py:12–39`. -/
def analysisContextFingerprint (sha256 : String → String) (utcDay : String → Option String)
    (p : ContextPayload) : String :=
  sha256 (encoded utcDay p)

/-! ## Purpose -/

/-- Documents that are equal up to the order of the members of their objects. -/
def SameJson (a b : Json) : Prop := a.sortKeys = b.sortKeys

/-- Contexts that ask for the same analysis: their capabilities agree as multisets, their complete
entities in any order, their instants up to the UTC day, and flexible calendars in their weekly
capacities. -/
structure SameAnalysis (utcDay : String → Option String) (p q : ContextPayload) : Prop where
  user : p.userId = q.userId ∧ p.profileVersion = q.profileVersion ∧ p.goalId = q.goalId
  snapshot : SameJson p.snapshotSelection q.snapshotSelection
  capabilities : (p.capabilities.map Json.sortKeys).Perm (q.capabilities.map Json.sortKeys)
  completeness : p.entitiesComplete = q.entitiesComplete ∧
    p.experienceCompleteEntityIds.Perm q.experienceCompleteEntityIds
  constraints : SameJson p.constraints q.constraints
  availability : SameJson p.candidateAvailability q.candidateAvailability
  solver : SameJson p.solverSettings q.solverSettings
  metadata : SameJson p.requirementMetadata q.requirementMetadata
  day : referenceDay utcDay p.referenceAt = referenceDay utcDay q.referenceAt
  policy : p.flexible = q.flexible
  calendar : if p.flexible then
      ∀ week, (p.calendar.map (·.capacityWeekKey)).count week =
        (q.calendar.map (·.capacityWeekKey)).count week
    else p.calendar = q.calendar

/-! ## Agreement -/

variable {utcDay : String → Option String} {p q : ContextPayload}

/-- Equal objects have equal members under one key. -/
theorem member_sortKeys {xs ys : List (String × Json)} (k : String) {v w : Json}
    (h : (Json.obj xs).sortKeys = (Json.obj ys).sortKeys) (hn : (ys.map (·.1)).Nodup)
    (hx : (k, v) ∈ xs) (hy : (k, w) ∈ ys) : v.sortKeys = w.sortKeys := by
  obtain ⟨u, hu, hsame⟩ := Json.exists_member h hx
  have huw : (k, u) = (k, w) := List.inj_on_of_nodup_map hn hu hy rfl
  rw [← hsame, (Prod.mk.inj huw).2]

/-- A slot is read back from its document. -/
theorem CalendarSlot.json_inj {s t : CalendarSlot}
    (h : s.json.sortKeys = t.json.sortKeys) : s = t := by
  have hmember (k : String) {a b : String} (hs : (k, Json.str a) ∈ [("starts_at",
      Json.str s.startsAt), ("ends_at", .str s.endsAt), ("capacity_week_key",
      .str s.capacityWeekKey)]) (ht : (k, Json.str b) ∈ [("starts_at", Json.str t.startsAt),
      ("ends_at", .str t.endsAt), ("capacity_week_key", .str t.capacityWeekKey)]) : a = b :=
    Json.str.inj (member_sortKeys k h (by simp) hs ht)
  cases s
  cases t
  rw [CalendarSlot.mk.injEq]
  exact ⟨hmember "starts_at" (by simp) (by simp), hmember "ends_at" (by simp) (by simp),
    hmember "capacity_week_key" (by simp) (by simp)⟩

end Jobtology.Analyses
