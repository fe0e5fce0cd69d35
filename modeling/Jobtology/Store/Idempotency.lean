import Jobtology.Relational.Runs
import Jobtology.Store.Schema
import Mathlib.Data.List.Sort

/-!
# Idempotent mutations

`idempotency.py` and `execute_idempotency` of `store.py`, one statement at a time. Transactions in
progress keep their writes to themselves until they commit: an inserted record makes other
inserts of its key wait, a deleted one is locked. The rest of the database is a parameter; the
operation is a write on it that comes with a response, or it fails.
-/

namespace Jobtology.Store

open Jobtology.Base Jobtology.Relational

/-- The primary key of `idempotency_records`. -/
structure RecordKey where
  userId : Uuid
  method : String
  path : String
  key : String
  deriving DecidableEq

/-- Primary key of a record. -/
def IdempotencyRow.recordKey (r : IdempotencyRow) : RecordKey := ⟨r.userId, r.method, r.path, r.key⟩

/-- `IdempotencyAcquire`. -/
structure IdempotencyAcquire where
  recordKey : RecordKey
  requestHash : String
  expiresAt : Int
  deriving DecidableEq

/-- How far a transaction of `execute_idempotency` has come. -/
inductive Phase (σ : Type)
  /-- It was opened. -/
  | opened
  /-- It pruned expired records. -/
  | pruned
  /-- It deleted the expired record of its key. -/
  | cleared
  /-- Its key has a record, which it is going to read. -/
  | reading
  /-- It inserted the record of its key, the operation is running. -/
  | executing
  /-- The operation returned. -/
  | executed (response : ResponseDocument) (effect : σ → σ)

/-- A transaction in progress, with the keys of the records that it deleted. -/
structure Attempt (σ : Type) where
  id : Nat
  request : IdempotencyAcquire
  responseStatus : Int
  phase : Phase σ
  deleted : List RecordKey

/-- What is committed, and the transactions in progress.
`src/jobtology_be/api/idempotency.py:21–31`. -/
structure Mutations (σ : Type) where
  records : List IdempotencyRow
  data : σ
  attempts : List (Attempt σ)

/-- One statement of a transaction, its end, or other work: a cleanup of expired records, or
another transaction that leaves the records and the rest of the database as given. -/
inductive MutationEvent (σ : Type)
  | start (id : Nat) (request : IdempotencyAcquire) (responseStatus : Int)
  | prune (id : Nat) (now : Int) (skipped : List RecordKey)
  | deleteExpired (id : Nat) (now : Int)
  | insert (id : Nat)
  | replay (id : Nat)
  | execute (id : Nat) (outcome : Option (ResponseDocument × (σ → σ)))
  | complete (id : Nat)
  | abort (id : Nat)
  | cleanup (now : Int) (skipped : List RecordKey)
  | outside (records : List IdempotencyRow) (data : σ)

variable {σ : Type}

/-- The transaction holds an uncommitted record of its key. -/
def Attempt.Inserted (a : Attempt σ) : Prop :=
  match a.phase with
  | .executing => True
  | .executed _ _ => True
  | _ => False

instance : DecidablePred (Attempt.Inserted (σ := σ)) := fun a ↦ by
  unfold Attempt.Inserted
  cases a.phase <;> infer_instance

/-- The record that the transaction commits. -/
def Attempt.record (a : Attempt σ) (response : ResponseDocument) : IdempotencyRow where
  userId := a.request.recordKey.userId
  method := a.request.recordKey.method
  path := a.request.recordKey.path
  key := a.request.recordKey.key
  requestHash := a.request.requestHash
  response := some (a.responseStatus, response)
  expiresAt := a.request.expiresAt

/-- Order in which records are pruned. -/
def pruneOrder (r s : IdempotencyRow) : Prop :=
  r.expiresAt < s.expiresAt ∨ (r.expiresAt = s.expiresAt ∧ (r.userId < s.userId ∨
    (r.userId = s.userId ∧ (r.method < s.method ∨ (r.method = s.method ∧ (r.path < s.path ∨
      (r.path = s.path ∧ r.key ≤ s.key)))))))

instance : DecidableRel pruneOrder := fun _ _ ↦ inferInstanceAs (Decidable (_ ∨ _))

namespace Mutations

/-- Another transaction deleted the record of the key and is still in progress. -/
def Locked (s : Mutations σ) (id : Nat) (key : RecordKey) : Prop :=
  ∃ a ∈ s.attempts, a.id ≠ id ∧ key ∈ a.deleted

/-- Another transaction has inserted a record of the key and is still in progress. -/
def Held (s : Mutations σ) (id : Nat) (key : RecordKey) : Prop :=
  ∃ a ∈ s.attempts, a.id ≠ id ∧ a.Inserted ∧ a.request.recordKey = key

instance (s : Mutations σ) (id : Nat) (key : RecordKey) : Decidable (s.Locked id key) :=
  inferInstanceAs (Decidable (∃ a ∈ s.attempts, _))

instance (s : Mutations σ) (id : Nat) (key : RecordKey) : Decidable (s.Held id key) :=
  inferInstanceAs (Decidable (∃ a ∈ s.attempts, _))

/-- The record of a key. -/
def record (s : Mutations σ) (key : RecordKey) : Option IdempotencyRow :=
  lookup (·.recordKey) s.records key

/-- A completed record past its expiry. -/
def Expired (r : IdempotencyRow) (now : Int) : Prop := r.response ≠ none ∧ r.expiresAt ≤ now

instance (r : IdempotencyRow) (now : Int) : Decidable (Expired r now) :=
  inferInstanceAs (Decidable (_ ∧ _))

/-- `prune_idempotency_records`: at most 1000 expired records; locked rows are skipped, which are
those that transactions in progress deleted and any others.
`src/jobtology_be/infrastructure/persistence/idempotency.py:18–28`. -/
def prunable (s : Mutations σ) (now : Int) (skipped : List RecordKey) : List RecordKey :=
  (((s.records.filter fun r ↦ Expired r now ∧ r.recordKey ∉ skipped ∧
    ∀ a ∈ s.attempts, r.recordKey ∉ a.deleted).insertionSort pruneOrder).take 1000).map
      (·.recordKey)

/-- The transaction goes on. -/
def advance (s : Mutations σ) (a : Attempt σ) : Mutations σ :=
  { s with attempts := update (·.id = a.id) (fun _ ↦ a) s.attempts }

/-- The transaction is over. -/
def close (s : Mutations σ) (id : Nat) : Mutations σ :=
  { s with attempts := s.attempts.filter (·.id ≠ id) }

/-- The records without those of some keys. -/
def without (s : Mutations σ) (keys : List RecordKey) : List IdempotencyRow :=
  s.records.filter (·.recordKey ∉ keys)

/-- The record is completed and was made by the same request. -/
def answers (request : IdempotencyAcquire) (r : IdempotencyRow) : Option (Int × ResponseDocument) :=
  if r.requestHash = request.requestHash then r.response else none

/-- Another transaction may leave these records: it does not write those of keys that
transactions in progress inserted or deleted. -/
def Leaves (s : Mutations σ) (records : List IdempotencyRow) : Prop :=
  Unique (·.recordKey) records ∧
    (∀ r ∈ records, r ∈ s.records ∨ ∀ a ∈ s.attempts, r.recordKey ∉ a.deleted ∧
      (a.Inserted → a.request.recordKey ≠ r.recordKey)) ∧
    ∀ r ∈ s.records, (∃ a ∈ s.attempts, r.recordKey ∈ a.deleted) → r ∈ records

instance (s : Mutations σ) (records : List IdempotencyRow) : Decidable (s.Leaves records) :=
  inferInstanceAs (Decidable (_ ∧ _ ∧ _))

/-! A statement that has to wait for another transaction does nothing yet. One that raises ends
the transaction and takes back what it wrote. -/

/-- Prune expired records, the first statement of `acquire_idempotency`. -/
def pruneExpired (s : Mutations σ) (a : Attempt σ) (now : Int) (skipped : List RecordKey) :
    Mutations σ :=
  match a.phase with
  | .opened => s.advance { a with phase := .pruned, deleted := s.prunable now skipped }
  | _ => s

/-- Delete the record of the request's key when it is expired. -/
def deleteOwn (s : Mutations σ) (a : Attempt σ) (now : Int) : Mutations σ :=
  match a.phase with
  | .pruned =>
    if s.Locked a.id a.request.recordKey then s
    else if ∃ r ∈ s.record a.request.recordKey, Expired r now then
      s.advance { a with phase := .cleared, deleted := a.request.recordKey :: a.deleted }
    else s.advance { a with phase := .cleared }
  | _ => s

/-- Insert the record of the request unless its key has one. -/
def insertRecord (s : Mutations σ) (a : Attempt σ) : Mutations σ :=
  match a.phase with
  | .cleared =>
    if s.Locked a.id a.request.recordKey ∨ s.Held a.id a.request.recordKey then s
    else if s.record a.request.recordKey ≠ none ∧ a.request.recordKey ∉ a.deleted then
      s.advance { a with phase := .reading }
    else s.advance { a with phase := .executing }
  | _ => s

/-- The reply that the record of the request's key gives. -/
def answer (s : Mutations σ) (a : Attempt σ) : Option (Int × ResponseDocument) :=
  (s.record a.request.recordKey).bind (answers a.request)

/-- Read the record of the request's key: commit with its reply, or raise. -/
def replayRecord (s : Mutations σ) (a : Attempt σ) : Mutations σ :=
  match a.phase, s.answer a with
  | .reading, some _ => { s.close a.id with records := s.without a.deleted }
  | .reading, none => s.close a.id
  | _, _ => s

/-- The operation returns a response and its writes, or raises. -/
def executeOperation (s : Mutations σ) (a : Attempt σ)
    (outcome : Option (ResponseDocument × (σ → σ))) :
    Mutations σ :=
  match a.phase, outcome with
  | .executing, some (response, effect) => s.advance { a with phase := .executed response effect }
  | .executing, none => s.close a.id
  | _, _ => s

/-- `complete_idempotency` and the commit.
`src/jobtology_be/infrastructure/persistence/idempotency.py:83–97`,
`src/jobtology_be/infrastructure/persistence/store.py:908–910`. -/
def completeRecord (s : Mutations σ) (a : Attempt σ) : Mutations σ :=
  match a.phase with
  | .executed response effect => { s.close a.id with
      records := s.without a.deleted ++ [a.record response]
      data := effect s.data }
  | _ => s

/-- A transaction that is in progress does a step. -/
def act (s : Mutations σ) (id : Nat) (f : Attempt σ → Mutations σ) : Mutations σ :=
  ((lookup (·.id) s.attempts id).map f).getD s

/-- The state after an event. `src/jobtology_be/infrastructure/persistence/idempotency.py:31–80`,
`src/jobtology_be/infrastructure/persistence/store.py:902–906,912–937`. -/
def apply (s : Mutations σ) : MutationEvent σ → Mutations σ
  | .start id request responseStatus =>
    if (lookup (·.id) s.attempts id).isSome then s
    else { s with attempts := s.attempts ++ [⟨id, request, responseStatus, .opened, []⟩] }
  | .prune id now skipped => s.act id (s.pruneExpired · now skipped)
  | .deleteExpired id now => s.act id (s.deleteOwn · now)
  | .insert id => s.act id s.insertRecord
  | .replay id => s.act id s.replayRecord
  | .execute id outcome => s.act id (s.executeOperation · outcome)
  | .complete id => s.act id s.completeRecord
  | .abort id => s.close id
  | .cleanup now skipped => { s with records := s.without (s.prunable now skipped) }
  | .outside records data => if s.Leaves records then { s with records, data } else s

/-- Before the first transaction. -/
def initial (data : σ) : Mutations σ := ⟨[], data, []⟩

end Mutations

end Jobtology.Store
