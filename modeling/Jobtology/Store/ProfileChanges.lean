import Jobtology.Store.Goals
import Jobtology.Store.Insertion
import Jobtology.Store.RoadmapSteps

/-!
# Profile changes

The operations of `store.py` that raise a profile's version and queue a recompute for it: on the
profile, its capabilities, its route preferences, its goals and the steps of its roadmap.
-/

namespace Jobtology.Store

open Jobtology.Base Jobtology.Relational
open Jobtology.Relational.Transaction
open Jobtology.Planning (WeeklyAvailabilityWindow)

/-! ### Operations -/

/-- The values that a change draws. -/
structure ChangeDraw where
  eventId : Uuid
  capabilityId : Nat → Uuid
  enqueue : EnqueueDraw

/-- `ProfileMutation`, without the columns that nothing reads. -/
structure ProfileMutation where
  userId : Uuid
  expectedVersion : Nat

/-- The event of a change about an aggregate, and the follow-up for the goal that is active. -/
def appendChange (carryForward : CarryForward) (userId aggregateId : Uuid) (version : Nat)
    (kind : EventKind) (draw : ChangeDraw) : Txn Unit := do
  appendEvent ⟨draw.eventId, userId, aggregateId, version, kind, ⟨none, none⟩⟩
  enqueueForActiveUser carryForward userId version draw.eventId draw.enqueue

/-- `mutate_profile`. `src/jobtology_be/infrastructure/persistence/store.py:134–165`. -/
def mutateProfile (carryForward : CarryForward) (request : ProfileMutation) (draw : ChangeDraw) :
    Txn ProfileSnapshot := do
  bumpProfile request.userId request.expectedVersion
  appendChange carryForward request.userId request.userId (request.expectedVersion + 1)
    .profileUpdated draw
  return ⟨request.userId, request.expectedVersion + 1⟩

/-- `CapabilityMutation`. -/
structure CapabilityMutation where
  userId : Uuid
  expectedProfileVersion : Nat
  capabilityId : Option Uuid
  category : String
  rawText : String
  entityId : Option String
  details : CapabilityDetails

/-- `CapabilitySnapshot`. -/
structure CapabilitySnapshot where
  capabilityId : Uuid
  profileVersion : Nat
  deriving DecidableEq

/-- A new capability; a completion gave it none of its columns. -/
def CapabilityMutation.row (request : CapabilityMutation) (capabilityId : Uuid) :
    CapabilityRow where
  id := capabilityId
  userId := request.userId
  category := request.category
  rawText := request.rawText
  entityId := request.entityId
  lifecycle := .active
  details := request.details
  sourceCompletionEventId := none

/-- The values that the mutation sets on a capability that exists. -/
def CapabilityMutation.set (request : CapabilityMutation) (row : CapabilityRow) : CapabilityRow :=
  { row with
    userId := request.userId, category := request.category, rawText := request.rawText
    entityId := request.entityId, details := request.details }

/-- Insert the capability, or update the row of an existing one. -/
def writeCapability (request : CapabilityMutation) (capabilityId : Uuid) : Txn Unit :=
  if request.capabilityId = none then
    statement fun db ↦ { db with capabilities := db.capabilities ++ [request.row capabilityId] }
  else do
    let count ← query fun db ↦
      db.capabilities.countP fun c ↦ c.id = capabilityId ∧ c.userId = request.userId
    statement fun db ↦ { db with
      capabilities := update (fun c ↦ c.id = capabilityId ∧ c.userId = request.userId) request.set
        db.capabilities }
    require (count = 1) (.missing "capability")

/-- `mutate_capability`. `src/jobtology_be/infrastructure/persistence/store.py:265–304`. -/
def mutateCapability (carryForward : CarryForward) (request : CapabilityMutation)
    (draw : ChangeDraw) : Txn CapabilitySnapshot := do
  let capabilityId := request.capabilityId.getD (draw.capabilityId 0)
  bumpProfile request.userId request.expectedProfileVersion
  writeCapability request capabilityId
  appendChange carryForward request.userId capabilityId (request.expectedProfileVersion + 1) .other
    draw
  return ⟨capabilityId, request.expectedProfileVersion + 1⟩

/-- `ONBOARDING_CAPABILITY_CATEGORY`. -/
def onboardingCapabilityCategory : String := "onboarding"

/-- `OnboardingCapabilityUnit`. -/
structure OnboardingCapabilityUnit where
  itemId : String
  rawText : String
  deriving DecidableEq

/-- `OnboardingCapabilityReplace`. -/
structure OnboardingCapabilityReplace where
  userId : Uuid
  expectedProfileVersion : Nat
  units : List OnboardingCapabilityUnit

/-- The capability of a checked unit. Its details name the checklist and no outcome. -/
def OnboardingCapabilityUnit.row (unit : OnboardingCapabilityUnit) (userId capabilityId : Uuid) :
    CapabilityRow where
  id := capabilityId
  userId := userId
  category := onboardingCapabilityCategory
  rawText := unit.rawText
  entityId := none
  lifecycle := .active
  details := ⟨[], [], [], none⟩
  sourceCompletionEventId := none

/-- `replace_onboarding_capabilities`.
`src/jobtology_be/infrastructure/persistence/store.py:306–358`. -/
def replaceOnboardingCapabilities (carryForward : CarryForward)
    (request : OnboardingCapabilityReplace) (draw : ChangeDraw) : Txn ProfileSnapshot := do
  let nextVersion := request.expectedProfileVersion + 1
  bumpProfile request.userId request.expectedProfileVersion
  statement fun db ↦ { db with
    capabilities := update (fun c ↦ c.userId = request.userId ∧ c.lifecycle = .active ∧
        c.category = onboardingCapabilityCategory)
      (fun c ↦ { c with lifecycle := .revoked }) db.capabilities }
  when (request.units ≠ []) <| statement fun db ↦ { db with
    capabilities := db.capabilities ++ request.units.zipIdx.map fun (unit, index) ↦
      unit.row request.userId (draw.capabilityId index) }
  appendChange carryForward request.userId request.userId nextVersion .other draw
  return ⟨request.userId, nextVersion⟩

/-- `CapabilityDelete`. -/
structure CapabilityDelete where
  userId : Uuid
  capabilityId : Uuid
  expectedProfileVersion : Nat

/-- `delete_capability`. `src/jobtology_be/infrastructure/persistence/store.py:360–385`. -/
def deleteCapability (carryForward : CarryForward) (request : CapabilityDelete)
    (draw : ChangeDraw) : Txn ProfileSnapshot := do
  bumpProfile request.userId request.expectedProfileVersion
  let count ← query fun db ↦
    db.capabilities.countP fun c ↦ c.id = request.capabilityId ∧ c.userId = request.userId
  statement fun db ↦ { db with
    capabilities := update (fun c ↦ c.id = request.capabilityId ∧ c.userId = request.userId)
      (fun c ↦ { c with lifecycle := .revoked }) db.capabilities }
  require (count = 1) (.missing "capability")
  appendChange carryForward request.userId request.capabilityId
    (request.expectedProfileVersion + 1) .other draw
  return ⟨request.userId, request.expectedProfileVersion + 1⟩

/-- `RoutePreferenceMutation`. -/
structure RoutePreferenceMutation where
  userId : Uuid
  expectedProfileVersion : Nat
  availableHoursPerWeek : Int
  lowCost : Bool
  maxOutOfPocketKrw : Option Int
  fastestPath : Bool
  needsPortfolio : Bool
  careerSwitch : Bool
  weeklyAvailability : List WeeklyAvailabilityWindow
  unavailableDates : List Int

/-- The preferences that the mutation writes. -/
def RoutePreferenceMutation.row (request : RoutePreferenceMutation) : PreferencesRow where
  userId := request.userId
  availableHoursPerWeek := request.availableHoursPerWeek
  lowCost := request.lowCost
  maxOutOfPocketKrw := request.maxOutOfPocketKrw
  fastestPath := request.fastestPath
  needsPortfolio := request.needsPortfolio
  careerSwitch := request.careerSwitch
  weeklyAvailability := request.weeklyAvailability
  unavailableDates := request.unavailableDates

/-- `set_route_preferences`. `src/jobtology_be/infrastructure/persistence/store.py:387–433`. -/
def setRoutePreferences (carryForward : CarryForward) (request : RoutePreferenceMutation)
    (draw : ChangeDraw) : Txn ProfileSnapshot := do
  bumpProfile request.userId request.expectedProfileVersion
  statement fun db ↦ { db with
    preferences :=
      if db.preferences.any (·.userId = request.userId) then
        update (·.userId = request.userId) (fun _ ↦ request.row) db.preferences
      else db.preferences ++ [request.row] }
  appendChange carryForward request.userId request.userId (request.expectedProfileVersion + 1)
    .other draw
  return ⟨request.userId, request.expectedProfileVersion + 1⟩

/-! ### One change -/

/-- An operation that changes a profile, with what it draws. -/
inductive ProfileChange
  | profile (request : ProfileMutation) (draw : ChangeDraw)
  | capability (request : CapabilityMutation) (draw : ChangeDraw)
  | onboarding (request : OnboardingCapabilityReplace) (draw : ChangeDraw)
  | capabilityDeletion (request : CapabilityDelete) (draw : ChangeDraw)
  | preferences (request : RoutePreferenceMutation) (draw : ChangeDraw)
  | goal (request : GoalMutation) (draw : GoalDraw)
  | goalDeletion (request : GoalDelete) (eventId : Uuid) (draw : EnqueueDraw)
  | step (request : StepStateMutation) (draw : StepDraw)

namespace ProfileChange

/-- Whose profile changes. -/
def userId : ProfileChange → Uuid
  | profile request _ => request.userId
  | capability request _ => request.userId
  | onboarding request _ => request.userId
  | capabilityDeletion request _ => request.userId
  | preferences request _ => request.userId
  | goal request _ => request.userId
  | goalDeletion request _ _ => request.userId
  | step request _ => request.userId

/-- The version that the change was made for. -/
def expectedVersion : ProfileChange → Nat
  | profile request _ => request.expectedVersion
  | capability request _ => request.expectedProfileVersion
  | onboarding request _ => request.expectedProfileVersion
  | capabilityDeletion request _ => request.expectedProfileVersion
  | preferences request _ => request.expectedProfileVersion
  | goal request _ => request.expectedProfileVersion
  | goalDeletion request _ _ => request.expectedProfileVersion
  | step request _ => request.expectedProfileVersion

/-- The id of the change's event. -/
def eventId : ProfileChange → Uuid
  | profile _ draw | capability _ draw | onboarding _ draw | capabilityDeletion _ draw
  | preferences _ draw => draw.eventId
  | goal _ draw => draw.eventId
  | goalDeletion _ eventId _ => eventId
  | step _ draw => draw.eventId

/-- What the follow-up draws. -/
def draw : ProfileChange → EnqueueDraw
  | profile _ draw | capability _ draw | onboarding _ draw | capabilityDeletion _ draw
  | preferences _ draw => draw.enqueue
  | goal _ draw => draw.enqueue
  | goalDeletion _ _ draw => draw
  | step _ draw => draw.enqueue

/-- The operation. -/
def perform (carryForward : CarryForward) : ProfileChange → Txn Unit
  | profile request draw => do let _ ← mutateProfile carryForward request draw
  | capability request draw => do let _ ← mutateCapability carryForward request draw
  | onboarding request draw => do let _ ← replaceOnboardingCapabilities carryForward request draw
  | capabilityDeletion request draw => do let _ ← deleteCapability carryForward request draw
  | preferences request draw => do let _ ← setRoutePreferences carryForward request draw
  | goal request draw => do let _ ← mutateGoal carryForward request draw
  | goalDeletion request eventId draw => do let _ ← deleteGoal carryForward request eventId draw
  | step request draw => do let _ ← mutateStepState carryForward request draw

end ProfileChange

end Jobtology.Store
