import Jobtology.Relational.Transaction
import Jobtology.Store.Schema

/-!
# Sessions of the store

Transactions over the database, the errors they raise and the statements that several operations
share: the profile bump and the appended state event.
-/

namespace Jobtology.Store

open Jobtology.Base Jobtology.Relational
open Jobtology.Relational.Transaction

/-- The errors a transaction ends with.
`src/jobtology_be/infrastructure/persistence/admissions.py:12–15`,
`src/jobtology_be/infrastructure/persistence/compute_budget.py:19–22`,
`src/jobtology_be/infrastructure/persistence/management.py:12–13,16–17`. -/
inductive PersistenceError
  /-- `PersistenceConflictError`. -/
  | conflict (resource : String)
  /-- `MissingRecordError`. -/
  | missing (resource : String)
  /-- A statement broke a constraint of the schema. -/
  | database
  /-- `KeyError`. -/
  | keyError
  /-- A stored document does not validate. -/
  | validation
  /-- `AnalysisBudgetExceeded`. -/
  | budgetExceeded (retryAfterSeconds : Int)
  /-- `AdmissionDenied`. -/
  | admissionDenied (code : String)
  /-- `ManagementNotFound`. -/
  | managementNotFound
  /-- `ManagementConflict`. -/
  | managementConflict (message : String)
  deriving DecidableEq

/-- A database that satisfies the schema's constraints. -/
abbrev Database := { db : Db // Constraints db }

/-- The database before its first row. -/
def Database.empty : Database := ⟨{}, by decide⟩

/-- A session on the database. `src/jobtology_be/infrastructure/persistence/store.py:961–967`. -/
abbrev Txn := Transaction PersistenceError Database

/-- A query. -/
def query {α : Type} (f : Db → α) : Txn α := select fun db ↦ f db.1

/-- A statement that writes. -/
def statement (f : Db → Db) : Txn Unit := write .database f

/-- A query leaves the database. -/
@[simp] theorem yields_query {α : Type} {f : Db → α} {s t : Database} {a : α} :
    Yields (query f) s a t ↔ f s.1 = a ∧ s = t :=
  yields_select

/-- A query, and what follows it. -/
theorem yields_query_bind {α β : Type} {g : Db → α} {f : α → Txn β} {s t : Database} {b : β} :
    Yields (query g >>= f) s b t ↔ Yields (f (g s.1)) s b t :=
  yields_select_bind

/-- A statement writes what it says. -/
@[simp] theorem yields_statement {f : Db → Db} {s t : Database} {u : Unit} :
    Yields (statement f) s u t ↔ f s.1 = t.1 :=
  yields_write

section Within

variable {R : Database → Database → Prop}

/-- A query is within every reflexive relation. -/
theorem within_query [Std.Refl R] {α : Type} (f : Db → α) : Within R (query f) :=
  Within.select _

/-- A statement within a relation. -/
theorem within_statement {f : Db → Db} (h : ∀ s t : Database, f s.1 = t.1 → R s t) :
    Within R (statement f) :=
  Within.write h

end Within

/-- Version of a user's profile. -/
def Db.profileVersion (db : Db) (userId : Uuid) : Option Nat :=
  (lookup (·.userId) db.profiles userId).map (·.version)

/-- The versions after an update of profiles. -/
theorem profileVersion_update {db t : Db} {p : ProfileRow → Prop} [DecidablePred p]
    {f : ProfileRow → ProfileRow} (h : t.profiles = update p f db.profiles)
    (hkeeps : ∀ r, (f r).userId = r.userId) (userId : Uuid) :
    t.profileVersion userId = (lookup (·.userId) db.profiles userId).map fun r ↦
      if p r then (f r).version else r.version := by
  unfold Db.profileVersion
  rw [h]
  unfold lookup update
  rw [List.find?_map]
  have hcomp : ((fun r : ProfileRow ↦ decide (r.userId = userId)) ∘
      fun r ↦ if p r then f r else r) = fun r ↦ decide (r.userId = userId) := by
    funext r
    by_cases hp : p r <;> simp [hp, hkeeps]
  rw [hcomp, Option.map_map]
  congr 1
  funext r
  by_cases hp : p r <;> simp [hp]

/-- `_bump_profile`. `src/jobtology_be/infrastructure/persistence/roadmap_steps.py:170–177`,
`src/jobtology_be/infrastructure/persistence/store.py:969–976`. -/
def bumpProfile (userId : Uuid) (expectedVersion : Nat) : Txn Unit := do
  let version ← query (·.profileVersion userId)
  require (version = some expectedVersion) (.conflict "profile")
  statement fun db ↦ { db with
    profiles := update (fun p ↦ p.userId = userId ∧ p.version = expectedVersion)
      (fun p ↦ { p with version := p.version + 1 }) db.profiles }

/-- The version of a profile is raised if it is the expected one. -/
theorem bumpProfile_spec {userId : Uuid} {version : Nat} {s t : Database} {u : Unit}
    (h : Yields (bumpProfile userId version) s u t) :
    s.1.profileVersion userId = some version ∧ t.1 = { s.1 with
      profiles := update (fun p ↦ p.userId = userId ∧ p.version = version)
        (fun p ↦ { p with version := p.version + 1 }) s.1.profiles } := by
  unfold bumpProfile at h
  simp only [yields_query_bind, ↓yields_require_bind, yields_statement] at h
  exact ⟨h.1, h.2.symm⟩

/-- `_append_event`. `src/jobtology_be/infrastructure/persistence/roadmap_steps.py:179–200`,
`src/jobtology_be/infrastructure/persistence/store.py:978–999`. -/
def appendEvent (event : EventRow) : Txn Unit :=
  statement fun db ↦ { db with events := db.events ++ [event] }

end Jobtology.Store
