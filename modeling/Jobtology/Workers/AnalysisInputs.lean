import Jobtology.Store.GoalErased
import Jobtology.Store.StoredCapabilities
import Jobtology.Workers.CarryForward

/-!
# Inputs of an analysis

`application/services/analysis_inputs.py` with `analysis_context.py`, where a user asks for an
analysis, and `infrastructure/persistence/configured_recompute.py`, where a change asks for one: the
contexts that both make of the same database.
-/

namespace Jobtology.Workers

open Jobtology.Base Jobtology.Analyses Jobtology.Planning Jobtology.Profiles Jobtology.Store
  Jobtology.Time

/-! ## Model -/

/-- What both read of a capability besides the columns of its row: its proficiency, the specs in its
details, whether these have `experience_codes`, and whether `_CapabilityDetails` accepts them.
`src/jobtology_be/application/services/analysis_inputs.py:31–34`. -/
structure CapabilityColumns where
  proficiency : Option String
  spec : Option SpecDetails
  hasExperienceCodes : Bool
  isReadable : Bool

/-- What both rest on: the columns of capabilities, the setting for complete lists, `ZoneInfo`, and
the validation of stored contexts. -/
structure InputReader where
  columns : CapabilityRow → CapabilityColumns
  capabilityListAuthoritative : Bool
  zoneInfo : String → Option Zone
  validate : Store.RecomputeContext → Option StoredContext

private theorem defaultHours_range : 1 ≤ (10 : Int) ∧ (10 : Int) ≤ 60 := by decide

/-- `DEFAULT_ROUTE_PREFERENCES`, with the target. -/
def defaultRoutePreferences (targetBy : Int) : PlanningConstraints where
  targetBy := targetBy
  availableHoursPerWeek := 10
  budgetMode := .regular
  maxOutOfPocketKrw := none
  fastestPath := false
  needsPortfolio := false
  careerSwitch := false
  weeklyAvailability := []
  unavailableDates := []
  hoursRange := defaultHours_range

/-- `PlanningConstraints` of a row of `route_preferences`. -/
def constraintsOf (row : PreferencesRow) (targetBy : Int) : Option PlanningConstraints :=
  if h : 1 ≤ row.availableHoursPerWeek ∧ row.availableHoursPerWeek ≤ 60 then
    if ∀ n ∈ row.maxOutOfPocketKrw, 0 ≤ n then some
      { targetBy := targetBy
        availableHoursPerWeek := row.availableHoursPerWeek
        budgetMode := if row.lowCost then .lowCost else .regular
        maxOutOfPocketKrw := row.maxOutOfPocketKrw.map (·.toNat)
        fastestPath := row.fastestPath
        needsPortfolio := row.needsPortfolio
        careerSwitch := row.careerSwitch
        weeklyAvailability := row.weeklyAvailability
        unavailableDates := row.unavailableDates
        hoursRange := h }
    else none
  else none

/-- The active capabilities of a user. -/
def activeRows (db : Db) (userId : Uuid) : List CapabilityRow :=
  db.capabilities.filter fun c ↦ c.userId = userId ∧ c.lifecycle = .active

/-- The goal of a user. -/
def goalOf (db : Db) (userId goalId : Uuid) : Option GoalRow :=
  db.goals.find? fun g ↦ g.id = goalId ∧ g.userId = userId

/-- The preferences of a user. -/
def preferencesOf (db : Db) (userId : Uuid) : Option PreferencesRow :=
  db.preferences.find? (·.userId = userId)

/-- What reading the inputs may raise. -/
inductive InputsError
  | profileConflict
  | goalMissing
  | activeTargetedGoalRequired
  | unavailable
  /-- `ValidationError` of a capability or of the document. -/
  | invalid
  deriving DecidableEq

/-- `AnalysisContextInputs`; there are no windows, and the solver settings are the defaults.
`src/jobtology_be/application/services/analysis_context.py:31–39`. -/
structure AnalysisContextInputs where
  occupationId : String
  capabilities : List CapabilityInput
  completeness : InputCompleteness
  constraints : PlanningConstraints
  calendar : List PlanningSlot

/-- `ContextSnapshotConfiguration`, with the metadata of the snapshot that it selects.
`src/jobtology_be/application/services/analysis_context.py:24–27`. -/
structure ContextSnapshot where
  basisVersion : String
  releaseId : String
  requirementMetadata : List (String × Json)

namespace InputReader

variable (R : InputReader)

/-- A row as `capability_inputs` reads it. -/
def stored (row : CapabilityRow) : StoredCapability :=
  row.stored (R.columns row).proficiency (R.columns row).spec

/-- `InputCompleteness` of the rows and their capabilities. -/
def completenessOf (rows : List CapabilityRow) (capabilities : List CapabilityInput) :
    InputCompleteness where
  entitiesComplete := R.capabilityListAuthoritative ||
    (!capabilities.isEmpty && capabilities.all (·.entityId.isSome))
  experienceCompleteEntityIds := (rows.filterMap fun row ↦
    if (R.columns row).hasExperienceCodes then row.entityId else none).toFinset

/-! ### On request -/

/-- The constraints of a request: the saved preferences, or the defaults. -/
def requestConstraints (db : Db) (userId : Uuid) (targetBy : Int) : Option PlanningConstraints :=
  match preferencesOf db userId with
  | none => some (defaultRoutePreferences targetBy)
  | some row => constraintsOf row targetBy

/-- `load_context_inputs`, with the capability rows in the order of the query.
`src/jobtology_be/application/services/analysis_inputs.py:54–192`. -/
def loadContextInputs (db : Db) (rows : List CapabilityRow) (userId goalId : Uuid)
    (expectedProfileVersion : Nat) (referenceAt : Int) :
    Except InputsError AnalysisContextInputs :=
  if (db.profiles.find? (·.userId = userId)).map (·.version) ≠ some expectedProfileVersion then
    .error .profileConflict
  else match goalOf db userId goalId with
    | none => .error .goalMissing
    | some goal =>
      if goal.status ≠ .active ∨ goal.goalMode ≠ .targeted ∨ goal.occupationId.getD "" = "" then
        .error .activeTargetedGoalRequired
      else match R.zoneInfo goal.timezone with
        | none => .error .unavailable
        | some zone =>
          if ∃ row ∈ rows, (R.columns row).isReadable = false then .error .unavailable
          else match requestConstraints db userId goal.targetBy with
            | none => .error .unavailable
            | some constraints =>
              match carriedSlots constraints (.ofInstant zone referenceAt) with
              | .error _ => .error .unavailable
              | .ok calendar =>
                if calendar = [] then .error .unavailable
                else match Profiles.activeCapabilities (zone.date referenceAt)
                    (rows.map R.stored) with
                  | none => .error .invalid
                  | some capabilities => .ok
                    { occupationId := goal.occupationId.getD ""
                      capabilities := capabilities
                      completeness := R.completenessOf rows capabilities
                      constraints := constraints
                      calendar := calendar }

/-- The document that is made of inputs. -/
def documentOf (snapshot : ContextSnapshot) (userId goalId : Uuid) (profileVersion : Nat)
    (referenceAt : Int) (inputs : AnalysisContextInputs) (positive : 1 ≤ profileVersion) :
    StoredContext where
  requirementMetadata := snapshot.requirementMetadata
  userId := userId
  profileVersion := profileVersion
  goalId := goalId
  selection := ⟨inputs.occupationId, snapshot.basisVersion, snapshot.releaseId⟩
  source := .localJson
  capabilities := inputs.capabilities
  completeness := inputs.completeness
  constraints := inputs.constraints
  referenceAt := referenceAt
  planningStartedAt := referenceAt
  calendarPolicy := .flexibleWeeklyV1
  calendar := inputs.calendar.map (·.toPlanningSlotData)
  candidateAvailability := []
  solverSettings := .default
  positive := positive

/-- `create_context`, after its snapshot is read.
`src/jobtology_be/application/services/analysis_context.py:62–123`. -/
def createContext (snapshot : ContextSnapshot) (db : Db) (rows : List CapabilityRow)
    (userId goalId : Uuid) (expectedProfileVersion : Nat) (referenceAt : Int) :
    Except InputsError StoredContext :=
  match R.loadContextInputs db rows userId goalId expectedProfileVersion referenceAt with
  | .error e => .error e
  | .ok inputs =>
    if hversion : 1 ≤ expectedProfileVersion then
      let document :=
        documentOf snapshot userId goalId expectedProfileVersion referenceAt inputs hversion
      match document.toContext with
      | .error _ => .error .invalid
      | .ok _ => .ok document
    else .error .invalid

/-! ### On a change -/

/-- `_current_constraints`: the saved preferences, or none; the outer value is missing when they are
not valid. `src/jobtology_be/infrastructure/persistence/configured_recompute.py:168–196`. -/
def currentConstraints (db : Db) (userId : Uuid) (targetBy : Int) :
    Option (Option PlanningConstraints) :=
  match preferencesOf db userId with
  | none => some none
  | some row => (constraintsOf row targetBy).map some

/-- The context that is carried forward to an active goal, with the capability rows in the order of
the query. -/
def carriedDocument (now : Int) (db : Db) (rows : List CapabilityRow)
    (payload : Store.RecomputeContext) (goal : GoalRow) (profileVersion : Nat) :
    Option StoredContext :=
  match R.zoneInfo goal.timezone with
  | none => none
  | some zone =>
    match Profiles.activeCapabilities (zone.date now) (rows.map R.stored),
      currentConstraints db goal.userId goal.targetBy, R.validate payload with
    | some capabilities, some constraints, some previous =>
      (carryForwardRecomputeContext previous
        { userId := goal.userId
          goalId := goal.id
          goalOccupationId := goal.occupationId.getD ""
          profileVersion := profileVersion
          goalTargetBy := goal.targetBy
          capabilities := capabilities
          completeness := R.completenessOf rows capabilities
          now := .ofInstant zone now
          currentConstraints := constraints }).toOption
    | _, _, _ => none

/-- The context of `enqueue_for_goal`. -/
def automaticContext (now : Int) (db : Db) (rows : List CapabilityRow) (userId : Uuid)
    (profileVersion : Nat) (goalId : Uuid) : Option StoredContext := do
  let payload ← carriedContext db userId profileVersion goalId
  let goal ← goalOf db userId goalId
  if goal.status = .active ∧ goal.occupationId ≠ none then
    R.carriedDocument now db rows payload goal profileVersion
  else none

/-- The earlier context that a change carries forward. -/
def earlierContext (db : Db) (userId : Uuid) (profileVersion : Nat) (goalId : Uuid) :
    Option StoredContext :=
  (carriedContext db userId profileVersion goalId).bind R.validate

/-- What a change carries forward is for the goal that it is carried for, as a goal deletion
relies on. -/
theorem carriesGoal (store : StoredContext → Store.RecomputeContext)
    (hstore : ∀ context, (store context).goalId = some context.goalId) (now : Int)
    (rows : Db → GoalRow → List CapabilityRow) :
    CarriesGoal fun db payload goal version ↦
      (R.carriedDocument now db (rows db goal) payload goal version).map store := by
  intro db payload goal version next hnext
  obtain ⟨context, hcontext, rfl⟩ := Option.map_eq_some_iff.mp hnext
  rw [hstore]
  unfold carriedDocument at hcontext
  split at hcontext
  · cases hcontext
  · split at hcontext
    · obtain ⟨-, -, -, -, _, _, -, -, rfl⟩ := carryForward_ok (ok_of_toOption hcontext)
      rfl
    · cases hcontext

/-! ## Agreement -/

variable {R} {snapshot : ContextSnapshot} {db : Db} {rows rows' : List CapabilityRow}
  {userId goalId : Uuid} {expected version : Nat} {now : Int} {manual automatic : StoredContext}

/-- The capabilities of rows do not depend on their order. -/
theorem activeCapabilities_perm {today : Int} {rows rows' : List StoredCapability}
    (h : rows'.Perm rows) {capabilities : List CapabilityInput}
    (hread : Profiles.activeCapabilities today rows = some capabilities) :
    ∃ capabilities', Profiles.activeCapabilities today rows' = some capabilities' ∧
      capabilities'.Perm capabilities := by
  obtain ⟨inputs, hinputs, -⟩ := Option.bind_eq_some_iff.mp hread
  have hsome (row : StoredCapability) (hrow : row ∈ rows') :
      ∃ inputs, capabilityInputs today row = some inputs := by
    have hmem : capabilityInputs today row ∈ inputs.map some := by
      rw [← (mapM_eq_some_iff _ _ _).mp hinputs]
      exact List.mem_map_of_mem (h.subset hrow)
    obtain ⟨found, -, hfound⟩ := List.mem_map.mp hmem
    exact ⟨found, hfound.symm⟩
  have hread' : Profiles.activeCapabilities today rows' =
      some (rows'.flatMap (inputsOf today)) := by
    have hmap : rows'.mapM (capabilityInputs today) = some (rows'.map (inputsOf today)) := by
      rw [mapM_eq_some_iff, List.map_map]
      refine List.map_congr_left fun row hrow ↦ ?_
      obtain ⟨found, hfound⟩ := hsome row hrow
      rw [hfound, capabilityInputs_eq_some hfound]
      rfl
    unfold Profiles.activeCapabilities
    rw [hmap, List.flatMap_def]
    rfl
  refine ⟨_, hread', ?_⟩
  rw [activeCapabilities_eq hread]
  exact h.flatMap_right _

/-- The completeness of rows does not depend on their order. -/
theorem completenessOf_perm (h : rows'.Perm rows)
    {capabilities capabilities' : List CapabilityInput}
    (hcapabilities : capabilities'.Perm capabilities) :
    R.completenessOf rows' capabilities' = R.completenessOf rows capabilities := by
  unfold completenessOf
  have hall : capabilities'.all (·.entityId.isSome) = capabilities.all (·.entityId.isSome) := by
    rw [Bool.eq_iff_iff, List.all_eq_true, List.all_eq_true]
    exact forall_congr' fun c ↦ imp_congr_left hcapabilities.mem_iff
  have hempty : capabilities'.isEmpty = capabilities.isEmpty := by
    rw [Bool.eq_iff_iff, List.isEmpty_iff, List.isEmpty_iff]
    rw [← List.length_eq_zero_iff, ← List.length_eq_zero_iff, hcapabilities.length_eq]
  rw [hall, hempty, List.toFinset_eq_of_perm _ _ (h.filterMap _)]

/-- What inputs are loaded from. -/
theorem loadContextInputs_ok_iff {inputs : AnalysisContextInputs} :
    R.loadContextInputs db rows userId goalId expected now = .ok inputs ↔
      (db.profiles.find? (·.userId = userId)).map (·.version) = some expected ∧
      ∃ goal zone constraints calendar capabilities, goalOf db userId goalId = some goal ∧
        (goal.status = .active ∧ goal.goalMode = .targeted ∧ goal.occupationId.getD "" ≠ "") ∧
        R.zoneInfo goal.timezone = some zone ∧
        (∀ row ∈ rows, (R.columns row).isReadable ≠ false) ∧
        requestConstraints db userId goal.targetBy = some constraints ∧
        carriedSlots constraints (.ofInstant zone now) = .ok calendar ∧ calendar ≠ [] ∧
        Profiles.activeCapabilities (zone.date now) (rows.map R.stored) = some capabilities ∧
        inputs =
          { occupationId := goal.occupationId.getD ""
            capabilities := capabilities
            completeness := R.completenessOf rows capabilities
            constraints := constraints
            calendar := calendar } := by
  constructor
  · intro h
    unfold loadContextInputs at h
    split at h
    · cases h
    next hversion =>
    refine ⟨not_not.mp hversion, ?_⟩
    split at h
    · cases h
    next goal hgoal =>
    split at h
    · cases h
    next hactive =>
    rw [not_or, not_or, not_not, not_not] at hactive
    split at h
    · cases h
    next zone hzone =>
    split at h
    · cases h
    next hreadable =>
    split at h
    · cases h
    next constraints hconstraints =>
    split at h
    · cases h
    next calendar hcalendar =>
    split at h
    · cases h
    next hempty =>
    split at h
    · cases h
    next capabilities hcapabilities =>
    exact ⟨goal, zone, constraints, calendar, capabilities, hgoal, hactive, hzone,
      fun row hrow hbad ↦ hreadable ⟨row, hrow, hbad⟩, hconstraints, hcalendar, hempty,
      hcapabilities, (Except.ok.inj h).symm⟩
  · rintro ⟨hversion, goal, zone, constraints, calendar, capabilities, hgoal, hactive, hzone,
      hreadable, hconstraints, hcalendar, hempty, hcapabilities, rfl⟩
    have hactive' : ¬(goal.status ≠ .active ∨ goal.goalMode ≠ .targeted ∨
        goal.occupationId.getD "" = "") := by
      rw [not_or, not_or, not_not, not_not]
      exact hactive
    have hreadable' : ¬∃ row ∈ rows, (R.columns row).isReadable = false :=
      fun ⟨row, hrow, hbad⟩ ↦ hreadable row hrow hbad
    unfold loadContextInputs
    rw [if_neg (not_not.mpr hversion), hgoal]
    dsimp only
    rw [if_neg hactive', hzone]
    dsimp only
    rw [if_neg hreadable', hconstraints]
    dsimp only
    rw [hcalendar]
    dsimp only
    rw [if_neg hempty, hcapabilities]

/-- A request makes the document of the inputs that are loaded, when that can be read. -/
theorem createContext_ok_iff :
    R.createContext snapshot db rows userId goalId expected now = .ok manual ↔
      ∃ inputs positive, R.loadContextInputs db rows userId goalId expected now = .ok inputs ∧
        manual = documentOf snapshot userId goalId expected now inputs positive ∧
        ∃ context, manual.toContext = .ok context := by
  unfold createContext
  cases hload : R.loadContextInputs db rows userId goalId expected now with
  | error e => simp
  | ok inputs =>
    by_cases hpositive : 1 ≤ expected
    · dsimp only
      rw [dif_pos hpositive]
      cases hcontext : (documentOf snapshot userId goalId expected now inputs hpositive).toContext
        with
      | error e =>
        constructor
        · intro h
          cases h
        · rintro ⟨inputs', _, hinputs, rfl, context, hok⟩
          obtain rfl := Except.ok.inj hinputs
          rw [hcontext] at hok
          cases hok
      | ok context =>
        constructor
        · intro h
          obtain rfl := Except.ok.inj h
          exact ⟨inputs, hpositive, rfl, rfl, context, hcontext⟩
        · rintro ⟨inputs', _, hinputs, rfl, -⟩
          obtain rfl := Except.ok.inj hinputs
          rfl
    · dsimp only
      rw [dif_neg hpositive]
      constructor
      · intro h
        cases h
      · rintro ⟨-, hpos, -⟩
        exact absurd hpos hpositive

/-- A document can be read in any order of its capabilities. -/
theorem toContext_ok_of_perm {document : RecomputeContextDocument}
    {capabilities : List CapabilityInput} (h : capabilities.Perm document.capabilities)
    (hok : ∃ context, document.toContext = .ok context) :
    ∃ context, ({ document with capabilities := capabilities } :
      RecomputeContextDocument).toContext = .ok context := by
  obtain ⟨context, hcontext⟩ := hok
  have hvalid : (∃ c ∈ capabilities, ¬c.Valid) ↔ ∃ c ∈ document.capabilities, ¬c.Valid :=
    exists_congr fun c ↦ and_congr_left' h.mem_iff
  refine ⟨{ context with capabilities := capabilities }, ?_⟩
  simp only [RecomputeContextDocument.toContext] at hcontext ⊢
  split at hcontext
  · cases hcontext
  next hnamed =>
  split at hcontext
  · cases hcontext
  next hinvalid =>
  rw [if_neg hnamed, if_neg (hvalid.not.mpr hinvalid)]
  obtain ⟨calendar, hcalendar, hcontext⟩ := bind_eq_ok.mp hcontext
  obtain ⟨availability, havailability, hcontext⟩ := bind_eq_ok.mp hcontext
  obtain rfl := Except.ok.inj hcontext
  rw [hcalendar]
  change (Except.mapError _ (document.candidateAvailability.mapM buildAvailability) >>= _) = _
  rw [havailability]
  rfl

/-- What a change carries forward. -/
theorem automaticContext_ok
    (h : R.automaticContext now db rows userId version goalId = some automatic) :
    ∃ goal zone capabilities constraints previous, goalOf db userId goalId = some goal ∧
      R.zoneInfo goal.timezone = some zone ∧
      Profiles.activeCapabilities (zone.date now) (rows.map R.stored) = some capabilities ∧
      currentConstraints db userId goal.targetBy = some constraints ∧
      R.earlierContext db userId version goalId = some previous ∧
      carryForwardRecomputeContext previous
        { userId := userId
          goalId := goalId
          goalOccupationId := goal.occupationId.getD ""
          profileVersion := version
          goalTargetBy := goal.targetBy
          capabilities := capabilities
          completeness := R.completenessOf rows capabilities
          now := .ofInstant zone now
          currentConstraints := constraints } = .ok automatic := by
  obtain ⟨payload, hpayload, h⟩ := Option.bind_eq_some_iff.mp h
  obtain ⟨goal, hgoal, h⟩ := Option.bind_eq_some_iff.mp h
  have hnamed : goal.id = goalId ∧ goal.userId = userId := by
    unfold goalOf at hgoal
    simpa only [decide_eq_true_eq] using List.find?_some hgoal
  split at h
  · unfold carriedDocument at h
    rw [hnamed.1, hnamed.2] at h
    split at h
    · cases h
    next zone hzone =>
    split at h
    · next capabilities constraints previous hcapabilities hconstraints hprevious =>
      refine ⟨goal, zone, capabilities, constraints, previous, hgoal, hzone, hcapabilities,
        hconstraints, ?_, ?_⟩
      · unfold earlierContext
        rw [hpayload]
        exact hprevious
      · revert h
        cases carryForwardRecomputeContext previous _ with
        | error e => exact fun h ↦ nomatch h
        | ok result => exact fun h ↦ congrArg Except.ok (Option.some.inj h)
    · cases h
  · cases h

/-- Constraints that are saved are current on both paths. -/
theorem requestConstraints_eq {targetBy : Int} {constraints : PlanningConstraints}
    {current : Option PlanningConstraints}
    (hrequest : requestConstraints db userId targetBy = some constraints)
    (hcurrent : currentConstraints db userId targetBy = some current) :
    current = if preferencesOf db userId = none then none else some constraints := by
  unfold requestConstraints at hrequest
  unfold currentConstraints at hcurrent
  cases hrow : preferencesOf db userId with
  | none =>
    rw [hrow] at hcurrent
    exact (Option.some.inj hcurrent).symm
  | some row =>
    rw [hrow] at hrequest hcurrent
    dsimp only at hrequest hcurrent
    rw [hrequest] at hcurrent
    exact (Option.some.inj hcurrent).symm

/-- The constraints of a request keep the target. -/
theorem requestConstraints_targetBy {targetBy : Int} {constraints : PlanningConstraints}
    (h : requestConstraints db userId targetBy = some constraints) :
    constraints.targetBy = targetBy := by
  unfold requestConstraints at h
  split at h
  · exact (congrArg PlanningConstraints.targetBy (Option.some.inj h)).symm
  · unfold constraintsOf at h
    split at h
    · split at h
      · exact (congrArg PlanningConstraints.targetBy (Option.some.inj h)).symm
      · cases h
    · cases h

/-- A request and a change plan the same user with the same capabilities and the same completeness,
in any order of the rows; and they plan with the same constraints, and then with the same calendar,
exactly when preferences are saved or the earlier context has the default ones.
`src/jobtology_be/application/services/analysis_inputs.py:54–192`,
`src/jobtology_be/infrastructure/persistence/configured_recompute.py:52–166`,
`src/jobtology_be/infrastructure/persistence/context_carryforward.py:37–100`,
`src/jobtology_be/application/specs.py:132–163`. -/
theorem createContext_automaticContext {snapshot : ContextSnapshot} {db : Db}
    {rows rows' : List CapabilityRow} {userId goalId : Uuid} {expected version : Nat} {now : Int}
    {manual automatic : StoredContext}
    (hrows : rows.Perm (activeRows db userId)) (hrows' : rows'.Perm (activeRows db userId))
    (hmanual : R.createContext snapshot db rows userId goalId expected now = .ok manual)
    (hautomatic : R.automaticContext now db rows' userId version goalId = some automatic) :
    manual.capabilities.Perm automatic.capabilities ∧
      manual.completeness = automatic.completeness ∧
      (∃ previous ∈ R.earlierContext db userId version goalId,
        (manual.constraints = automatic.constraints ↔ preferencesOf db userId ≠ none ∨
          { previous.constraints with targetBy := manual.constraints.targetBy } =
            defaultRoutePreferences manual.constraints.targetBy)) ∧
      (manual.constraints = automatic.constraints → manual.calendar = automatic.calendar) ∧
      ∀ rows'' : List CapabilityRow, rows''.Perm (activeRows db userId) →
        ∃ manual', R.createContext snapshot db rows'' userId goalId expected now = .ok manual' ∧
          manual'.capabilities.Perm manual.capabilities ∧
          manual' = { manual with capabilities := manual'.capabilities } := by
  obtain ⟨inputs, hpositive, hload, rfl, hread⟩ := createContext_ok_iff.mp hmanual
  obtain ⟨hversion, goal, zone, constraints, calendar, capabilities, hgoal, hactive, hzone,
    hreadable, hconstraints, hcalendar, hempty, hcapabilities, rfl⟩ :=
    loadContextInputs_ok_iff.mp hload
  obtain ⟨goal', zone', capabilities', current, previous, hgoal', hzone', hcapabilities', hcurrent,
    hprevious, hcarried⟩ := automaticContext_ok hautomatic
  obtain rfl := Option.some.inj (hgoal.symm.trans hgoal')
  obtain rfl := Option.some.inj (hzone.symm.trans hzone')
  have hsame : rows'.Perm rows := hrows'.trans hrows.symm
  have hperm : capabilities'.Perm capabilities := by
    obtain ⟨found, hfound, hperm⟩ := activeCapabilities_perm (hsame.map R.stored) hcapabilities
    rwa [Option.some.inj (hcapabilities'.symm.trans hfound)]
  have hcurrent' := requestConstraints_eq hconstraints hcurrent
  have hdefault : preferencesOf db userId = none →
      constraints = defaultRoutePreferences goal.targetBy := by
    intro hnone
    unfold requestConstraints at hconstraints
    rw [hnone] at hconstraints
    exact (Option.some.inj hconstraints).symm
  have htarget : constraints.targetBy = goal.targetBy := requestConstraints_targetBy hconstraints
  obtain ⟨-, -, -, -, slots, -, hslots, -, rfl⟩ := carryForward_ok hcarried
  refine ⟨hperm.symm, (completenessOf_perm hsame hperm).symm, ⟨previous, hprevious, ?_⟩, ?_, ?_⟩
  · change constraints = carriedConstraints _ _ ↔ _ ∨
      { previous.constraints with targetBy := constraints.targetBy } =
        defaultRoutePreferences constraints.targetBy
    unfold carriedConstraints
    dsimp only
    rw [hcurrent', htarget]
    by_cases hnone : preferencesOf db userId = none
    · rw [if_pos hnone, Option.getD_none, hdefault hnone, or_iff_right (not_not.mpr hnone)]
      exact eq_comm
    · rw [if_neg hnone, Option.getD_some]
      exact iff_of_true rfl (.inl hnone)
  · intro hsameConstraints
    change constraints = carriedConstraints _ _ at hsameConstraints
    rw [← hsameConstraints] at hslots
    exact congrArg (List.map (·.toPlanningSlotData))
      (Except.ok.inj (hcalendar.symm.trans hslots))
  · intro rows'' hrows''
    have hsame' : rows''.Perm rows := hrows''.trans hrows.symm
    obtain ⟨found, hfound, hperm'⟩ := activeCapabilities_perm (hsame'.map R.stored) hcapabilities
    have hcompleteness := @completenessOf_perm R _ _ hsame' _ _ hperm'
    refine ⟨_, createContext_ok_iff.mpr ⟨_, hpositive, loadContextInputs_ok_iff.mpr ⟨hversion, goal,
      zone, constraints, calendar, found, hgoal, hactive, hzone,
      fun row hrow ↦ hreadable row (hsame'.subset hrow), hconstraints, hcalendar, hempty, hfound,
      rfl⟩, rfl, ?_⟩, hperm', ?_⟩
    · unfold documentOf
      dsimp only
      rw [hcompleteness]
      have hreordered := toContext_ok_of_perm hperm' hread
      exact hreordered
    · unfold documentOf
      dsimp only
      rw [hcompleteness]

end InputReader

/-! ## An earlier context without saved preferences -/

/-- A reader that finds no spec in any details, every zone to be UTC and every stored context to be
the one of five hours. -/
def fiveHoursReader : InputReader where
  columns _ := ⟨none, none, true, true⟩
  capabilityListAuthoritative := false
  zoneInfo _ := some .utc
  validate _ := some fiveHoursContext

/-- A certificate of the user. -/
def certificateRow (id : Uuid) (text : String) : CapabilityRow :=
  { id := id, userId := 1, category := "certification", rawText := text, entityId := some text
    lifecycle := .active, details := ⟨[], [], [], none⟩, sourceCompletionEventId := none }

/-- A user with two certificates, a goal eight hours from the epoch and a context that was
analysed for it before the last change of the profile. -/
def analysedDb (preferences : List PreferencesRow) : Db :=
  { profiles := [⟨1, 2, none⟩]
    capabilities := [certificateRow 40 "a", certificateRow 41 "b"]
    goals := [⟨10, 1, .targeted, some "o", 8 * hour, "UTC", .active⟩]
    preferences := preferences
    requests :=
      [{ id := 20, userId := 1, profileVersion := 1, triggerEventId := 30, state := .ready
         resultingAnalysisId := none, proposalId := none, autoRoadmapPending := false
         errorCode := none, createdAt := 0 }]
    contexts := [⟨20, ⟨some 10, none, ""⟩⟩] }

/-- Seven hours a week. -/
def sevenHoursRow : PreferencesRow :=
  { userId := 1, availableHoursPerWeek := 7, lowCost := false, maxOutOfPocketKrw := none
    fastestPath := false, needsPortfolio := false, careerSwitch := false, weeklyAvailability := []
    unavailableDates := [] }

/-- Both contexts of seven hours a week are the same. -/
theorem createContext_automaticContext_seven_hours :
    ∃ manual automatic,
      fiveHoursReader.createContext ⟨"b", "release", []⟩ (analysedDb [sevenHoursRow])
        [certificateRow 41 "b", certificateRow 40 "a"] 1 10 2 0 = .ok manual ∧
      fiveHoursReader.automaticContext 0 (analysedDb [sevenHoursRow])
        [certificateRow 40 "a", certificateRow 41 "b"] 1 2 10 = some automatic ∧
      manual.capabilities.Perm automatic.capabilities ∧
      manual.completeness = automatic.completeness ∧
      manual.constraints = automatic.constraints ∧ manual.calendar = automatic.calendar := by
  obtain ⟨manual, hmanual⟩ : ∃ manual, fiveHoursReader.createContext ⟨"b", "release", []⟩
    (analysedDb [sevenHoursRow]) [certificateRow 41 "b", certificateRow 40 "a"] 1 10 2 0 =
      .ok manual := ⟨_, rfl⟩
  obtain ⟨automatic, hautomatic⟩ : ∃ automatic, fiveHoursReader.automaticContext 0
    (analysedDb [sevenHoursRow]) [certificateRow 40 "a", certificateRow 41 "b"] 1 2 10 =
      some automatic := ⟨_, rfl⟩
  obtain ⟨hcapabilities, hcompleteness, ⟨previous, -, hconstraints⟩, hcalendar, -⟩ :=
    InputReader.createContext_automaticContext (List.Perm.swap _ _ _) (List.Perm.refl _) hmanual
      hautomatic
  have hsame := hconstraints.mpr (.inl (by decide))
  exact ⟨manual, automatic, hmanual, hautomatic, hcapabilities, hcompleteness, hsame,
    hcalendar hsame⟩

/-- Without saved preferences a request plans with the default ten hours a week, and a change with
the five hours of the earlier context. -/
theorem createContext_without_preferences :
    ∃ manual automatic,
      fiveHoursReader.createContext ⟨"b", "release", []⟩ (analysedDb [])
        (activeRows (analysedDb []) 1) 1 10 2 0 = .ok manual ∧
      fiveHoursReader.automaticContext 0 (analysedDb []) (activeRows (analysedDb []) 1) 1 2 10 =
        some automatic ∧
      manual.constraints ≠ automatic.constraints ∧ manual.calendar ≠ automatic.calendar := by
  refine ⟨_, _, rfl, rfl, fun h ↦ ?_, fun h ↦ ?_⟩
  · exact absurd (congrArg PlanningConstraints.availableHoursPerWeek h) (by decide)
  · exact absurd (congrArg List.length h) (by decide)

end Jobtology.Workers
