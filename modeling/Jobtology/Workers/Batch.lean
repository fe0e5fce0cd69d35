import Jobtology.Store.Settling
import Jobtology.Workers.Recompute

/-!
# Batches of recompute work

`LeasedRecomputeWorker.process_once` of `workers/recompute.py` over the system of the store. Other
transactions come before each transaction of the worker.
-/

namespace Jobtology.Workers

open Jobtology.Base Jobtology.Relational Jobtology.Store
open RecomputeSystem (act)

instance (db : Db) (item : RecomputeWorkItem) (now : Int) : Decidable (db.holdsLease item now) :=
  inferInstanceAs (Decidable (∃ j ∈ db.jobs, _))

/-- `load_recompute_context`. `src/jobtology_be/infrastructure/persistence/worker.py:31–61`. -/
def loadRecomputeContext (item : RecomputeWorkItem) (db : Db) (now : Int) :
    Except PersistenceError Store.RecomputeContext :=
  match lookup (·.requestId) db.contexts item.requestId with
  | some context =>
    if db.holdsLease item now ∧ db.isRunning item then .ok context.payload
    else .error (.conflict "recompute context")
  | none => .error (.conflict "recompute context")

/-- What the turn of a work item draws, what other transactions come in between, and how its
worker reads its own clock. -/
structure Turn where
  draw : RecomputeDraw
  beforeLoad : List StoreAction
  beforeFinalize : List StoreAction
  finalizeClock : Int
  beforeFail : List StoreAction
  failClock : Int

/-- How the turn of a work item ends. -/
inductive ItemOutcome
  | finalized (artifacts : RecomputeArtifacts)
  /-- `fail_recompute` returned. -/
  | recorded (errorCode : String)
  /-- A conflict: nothing is written. -/
  | left
  /-- `process_once` propagates the error. -/
  | raised (error : RecomputeError)

/-- A work item after its turn: the system that the turn started in, the database before and the
system after the last transaction of the worker. -/
structure Processed where
  item : RecomputeWorkItem
  turn : Turn
  start : RecomputeSystem
  outcome : ItemOutcome
  before : Database
  after : RecomputeSystem

section Process

variable (worker : RecomputeWorker) (carryForward : CarryForward)

/-- The `except` clauses of `process_once`, with `_fail_recompute`.
`src/jobtology_be/workers/recompute.py:300–312`. -/
def handleError (item : RecomputeWorkItem) (turn : Turn) (start s : RecomputeSystem)
    (e : RecomputeError) : Processed :=
  match e.handling with
  | .skip => ⟨item, turn, start, .left, s.db, s⟩
  | .propagate => ⟨item, turn, start, .raised e, s.db, s⟩
  | .record errorCode =>
    let t := run (act carryForward) s turn.beforeFail
    match (failRecompute item errorCode turn.failClock t.now).run t.db with
    | .ok (_, db) => ⟨item, turn, start, .recorded errorCode, t.db, { t with db := db }⟩
    | .error (.conflict _) => ⟨item, turn, start, .left, t.db, t⟩
    | .error error => ⟨item, turn, start, .raised (.persistence error), t.db, t⟩

/-- The turn of one work item. -/
def processItem (item : RecomputeWorkItem) (turn : Turn) (start : RecomputeSystem) : Processed :=
  let s := run (act carryForward) start turn.beforeLoad
  match loadRecomputeContext item s.db.1 s.now with
  | .error e => handleError carryForward item turn start s (.persistence e)
  | .ok payload =>
    match worker.recompute turn.draw item payload with
    | .error e => handleError carryForward item turn start s e
    | .ok artifacts =>
      let t := run (act carryForward) s turn.beforeFinalize
      match (finalizeRecompute item artifacts turn.finalizeClock t.now).run t.db with
      | .ok (_, db) => ⟨item, turn, start, .finalized artifacts, t.db, { t with db := db }⟩
      | .error e => handleError carryForward item turn start t (.persistence e)

/-- `process_once`, after the work is claimed. `src/jobtology_be/workers/recompute.py:251–312`. -/
def processOnce : RecomputeSystem → List (RecomputeWorkItem × Turn) → List Processed
  | _, [] => []
  | s, (item, turn) :: rest =>
    let processed := processItem worker carryForward item turn s
    match processed.outcome with
    | .raised _ => [processed]
    | _ => processed :: processOnce processed.after rest

end Process

end Jobtology.Workers
