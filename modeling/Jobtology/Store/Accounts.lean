import Jobtology.Store.Session

/-!
# Deleting an account

`delete_account` of `accounts.py` and `resolve_session` of `auth_store.py`.
-/

namespace Jobtology.Store

open Jobtology.Base Jobtology.Relational
open Jobtology.Relational.Transaction

/-- The roadmap is one of the user's: `roadmap_ids`. -/
def Db.ownsRoadmap (db : Db) (userId roadmapId : Uuid) : Prop :=
  ∃ r ∈ db.roadmaps, r.userId = userId ∧ r.id = roadmapId

/-- The step is one of the user's: `step_ids`. -/
def Db.ownsStep (db : Db) (userId stepId : Uuid) : Prop :=
  ∃ s ∈ db.steps, db.ownsRoadmap userId s.roadmapId ∧ s.id = stepId

/-- The request is one of the user's: `request_ids`. -/
def Db.ownsRequest (db : Db) (userId requestId : Uuid) : Prop :=
  ∃ r ∈ db.requests, r.userId = userId ∧ r.id = requestId

instance (db : Db) (userId roadmapId : Uuid) : Decidable (db.ownsRoadmap userId roadmapId) :=
  inferInstanceAs (Decidable (∃ r ∈ db.roadmaps, _))

instance (db : Db) (userId stepId : Uuid) : Decidable (db.ownsStep userId stepId) :=
  inferInstanceAs (Decidable (∃ s ∈ db.steps, _))

instance (db : Db) (userId requestId : Uuid) : Decidable (db.ownsRequest userId requestId) :=
  inferInstanceAs (Decidable (∃ r ∈ db.requests, _))

/-- The job is one of a request of the user. A job without a request is none. -/
def Db.ownsJob (db : Db) (userId : Uuid) (j : JobRow) : Prop :=
  ∃ id ∈ j.recomputeRequestId, db.ownsRequest userId id

instance (db : Db) (userId : Uuid) (j : JobRow) : Decidable (db.ownsJob userId j) :=
  inferInstanceAs (Decidable (∃ id ∈ j.recomputeRequestId, _))

/-- Delete a user's row. The admissions keep their entry without the user, the rate limits go
with the user. -/
def deleteUser (userId : Uuid) (db : Db) : Db := { db with
  users := db.users.filter (·.id ≠ userId)
  accountAccess := update (·.userId = some userId) (fun a ↦ { a with userId := none })
    db.accountAccess
  rateLimits := db.rateLimits.filter (·.userId ≠ userId) }

/-- The deletions of `delete_account`, in their order: descendants come first. -/
def accountDeletions (userId : Uuid) : List (Db → Db) := [
  fun db ↦ { db with
    inheritances := db.inheritances.filter fun i ↦ ¬ db.ownsStep userId i.stepId },
  fun db ↦ { db with
    dependencies := db.dependencies.filter fun d ↦ ¬ db.ownsRoadmap userId d.roadmapId },
  fun db ↦ { db with overrides := db.overrides.filter fun o ↦ ¬ db.ownsRoadmap userId o.roadmapId },
  fun db ↦ { db with steps := db.steps.filter fun s ↦ ¬ db.ownsRoadmap userId s.roadmapId },
  fun db ↦ { db with roadmaps := db.roadmaps.filter (·.userId ≠ userId) },
  fun db ↦ { db with jobs := db.jobs.filter fun j ↦ ¬ db.ownsJob userId j },
  fun db ↦ { db with contexts := db.contexts.filter fun c ↦ ¬ db.ownsRequest userId c.requestId },
  fun db ↦ { db with requests := db.requests.filter (·.userId ≠ userId) },
  fun db ↦ { db with proposals := db.proposals.filter (·.userId ≠ userId) },
  fun db ↦ { db with traces := db.traces.filter (·.userId ≠ userId) },
  fun db ↦ { db with analyses := db.analyses.filter (·.userId ≠ userId) },
  fun db ↦ { db with capabilities := db.capabilities.filter (·.userId ≠ userId) },
  fun db ↦ { db with preferences := db.preferences.filter (·.userId ≠ userId) },
  fun db ↦ { db with idempotency := db.idempotency.filter (·.userId ≠ userId) },
  fun db ↦ { db with goals := db.goals.filter (·.userId ≠ userId) },
  fun db ↦ { db with events := db.events.filter (·.userId ≠ userId) },
  fun db ↦ { db with sessions := db.sessions.filter (·.userId ≠ userId) },
  fun db ↦ { db with rateLimits := db.rateLimits.filter (·.userId ≠ userId) },
  fun db ↦ { db with profiles := db.profiles.filter (·.userId ≠ userId) },
  fun db ↦ { db with identities := db.identities.filter (·.userId ≠ userId) },
  deleteUser userId]

/-- `delete_account`. `src/jobtology_be/api/accounts.py:29–37`,
`src/jobtology_be/infrastructure/persistence/accounts.py:15–63`. -/
def deleteAccount (userId : Uuid) : Txn Unit := do
  let existing ← query fun db ↦ lookup (·.id) db.users userId
  when (existing ≠ none) ((accountDeletions userId).forM statement)

/-- `SessionPrincipal`. -/
structure SessionPrincipal where
  userId : Uuid
  csrfHash : Digest
  displayName : Option String
  deriving DecidableEq

/-- `access_allowed`: the admission of the account is neither revoked nor expired.
`src/jobtology_be/infrastructure/persistence/admissions.py:22–30`. -/
def AccessRow.allowed (a : AccessRow) (now : Int) : Prop :=
  a.userId ≠ none ∧ a.revokedAt = none ∧ ∀ t ∈ a.expiresAt, now < t

instance (a : AccessRow) (now : Int) : Decidable (a.allowed now) :=
  inferInstanceAs (Decidable (_ ∧ _ ∧ _))

/-- `resolve_session`. `src/jobtology_be/infrastructure/persistence/auth_store.py:154–175`. -/
def resolveSession (invitationRequired : Bool) (tokenHash : Digest) (now : Int) (db : Db) :
    Option SessionPrincipal := do
  let session ← db.sessions.find? fun x ↦ x.tokenHash = tokenHash ∧ now < x.expiresAt ∧
    x.revokedAt = none
  let user ← db.users.find? fun u ↦ u.id = session.userId ∧ u.isActive = true
  if (invitationRequired = true →
      ∃ a ∈ db.accountAccess, a.userId = some user.id ∧ a.allowed now) ∧
    ∃ i ∈ db.identities, i.userId = user.id then
    return ⟨session.userId, session.csrfHash, user.displayName⟩
  else none

/-! ### What deleting an account writes -/

/-- The database without an account. -/
def Db.withoutAccount (db : Db) (userId : Uuid) : Db := { db with
  users := db.users.filter (·.id ≠ userId)
  identities := db.identities.filter (·.userId ≠ userId)
  sessions := db.sessions.filter (·.userId ≠ userId)
  accountAccess := update (·.userId = some userId) (fun a ↦ { a with userId := none })
    db.accountAccess
  profiles := db.profiles.filter (·.userId ≠ userId)
  events := db.events.filter (·.userId ≠ userId)
  capabilities := db.capabilities.filter (·.userId ≠ userId)
  goals := db.goals.filter (·.userId ≠ userId)
  preferences := db.preferences.filter (·.userId ≠ userId)
  analyses := db.analyses.filter (·.userId ≠ userId)
  traces := db.traces.filter (·.userId ≠ userId)
  proposals := db.proposals.filter (·.userId ≠ userId)
  roadmaps := db.roadmaps.filter (·.userId ≠ userId)
  overrides := db.overrides.filter fun o ↦ ¬ db.ownsRoadmap userId o.roadmapId
  steps := db.steps.filter fun s ↦ ¬ db.ownsRoadmap userId s.roadmapId
  dependencies := db.dependencies.filter fun d ↦ ¬ db.ownsRoadmap userId d.roadmapId
  inheritances := db.inheritances.filter fun i ↦ ¬ db.ownsStep userId i.stepId
  requests := db.requests.filter (·.userId ≠ userId)
  contexts := db.contexts.filter fun c ↦ ¬ db.ownsRequest userId c.requestId
  jobs := db.jobs.filter fun j ↦ ¬ db.ownsJob userId j
  rateLimits := (db.rateLimits.filter (·.userId ≠ userId)).filter (·.userId ≠ userId)
  idempotency := db.idempotency.filter (·.userId ≠ userId) }

private theorem yields_statements {fs : List (Db → Db)} {s t : Database} {u : PUnit}
    (h : Yields (fs.forM statement) s u t) : t.1 = fs.foldl (fun db f ↦ f db) s.1 := by
  induction fs generalizing s with
  | nil => rw [yields_forM_nil.mp h, List.foldl_nil]
  | cons f rest ih =>
    obtain ⟨v, hf, hrest⟩ := yields_forM_cons.mp h
    rw [ih hrest, List.foldl_cons, yields_statement.mp hf]

/-- A deletion leaves the database without the account, or unchanged when there is none. -/
theorem deleteAccount_spec {userId : Uuid} {s t : Database} {u : Unit}
    (h : Yields (deleteAccount userId) s u t) :
    (lookup (·.id) s.1.users userId = none ∧ t = s) ∨ t.1 = s.1.withoutAccount userId := by
  unfold deleteAccount at h
  rw [yields_query_bind, yields_when] at h
  rcases h with ⟨-, h⟩ | ⟨hnone, rfl⟩
  · exact .inr (yields_statements h)
  · exact .inl ⟨not_not.mp hnone, rfl⟩

end Jobtology.Store
