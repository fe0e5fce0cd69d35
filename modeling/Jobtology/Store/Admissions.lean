import Jobtology.Base.Binary64
import Jobtology.Store.Session
import Jobtology.Time.Civil
import Mathlib.Data.List.Sort
import Mathlib.Data.Rat.Floor

/-!
# Admissions and logins

`admissions.py`, `create_google_session` of `auth_store.py` and the edits of `management.py`. The
digest of a Google subject is a parameter. Locks on the identity, the invitation and the user
serialize these transactions; a transaction reads several clocks, which are parameters as well.
-/

namespace Jobtology.Store

open Jobtology.Base Jobtology.Relational Jobtology.Time
open Jobtology.Relational.Transaction

/-- `GoogleLogin`. -/
structure GoogleLogin where
  googleSubject : String
  displayName : Option String
  invitationHash : Option Digest
  tokenHash : Digest
  csrfHash : Digest
  lifetime : Int

/-- `IssuedSession`. -/
structure IssuedSession where
  userId : Uuid
  expiresAt : Int
  deriving DecidableEq

/-- The ids that a login draws, its clock readings and the sessions locked by others. -/
structure LoginDraw where
  userId : Uuid
  sessionId : Uuid
  startedAt : Int
  admissionNow : Int
  invitationNow : Int
  sessionNow : Int
  lockedSessions : List Uuid

/-- An admission found for a login, or granted by it and not stored yet. -/
inductive Admission
  | found (row : AccessRow)
  | granted (row : AccessRow)

/-- The row of an admission. -/
def Admission.row : Admission → AccessRow
  | found row => row
  | granted row => row

/-! ### `admissions.py` -/

/-- `timedelta(hours=...)` of a float: the whole hours are exact, the rest is a product of floats,
and their sum is rounded to microseconds, halves to the even side. -/
def accessPeriod (hours : ℚ) : Int :=
  roundHalfEven (⌊hours⌋ * hour + binary64 ((hours - ⌊hours⌋) * hour))

/-- The code is neither revoked nor expired nor used up. -/
def InvitationRow.Redeemable (code : InvitationRow) (now : Int) : Prop :=
  code.revokedAt = none ∧ (∀ t ∈ code.expiresAt, now < t) ∧ ∀ n ∈ code.maxUses, code.useCount < n

instance (code : InvitationRow) (now : Int) : Decidable (code.Redeemable now) :=
  inferInstanceAs (Decidable (_ ∧ _ ∧ _))

/-- The admission that an invitation grants. -/
def InvitationRow.grant (code : InvitationRow) (digest : Digest) (now : Int) : AccessRow where
  subjectHash := digest
  userId := none
  invitationId := some code.id
  source := .invitation
  grantedAt := now
  expiresAt := code.accessHours.map (now + accessPeriod ·)
  revokedAt := none

/-- The admission of an account that needs no invitation. -/
def legacyAccess (digest : Digest) (now : Int) : AccessRow :=
  ⟨digest, none, none, .legacy, now, none, none⟩

/-- Use an invitation for a new admission. -/
def redeemInvitation (digest : Digest) (invitationHash : Option Digest) (now : Int) :
    Txn Admission := do
  let hash ← demand invitationHash (.admissionDenied "INVITATION_REQUIRED")
  let found ← query fun db ↦
    (lookup (·.codeHash) db.invitations hash).filter fun code ↦ code.Redeemable now
  let code ← demand found (.admissionDenied "INVITATION_INVALID")
  statement fun db ↦ { db with
    invitations := update (·.id = code.id) (fun i ↦ { i with useCount := i.useCount + 1 })
      db.invitations }
  return .granted (code.grant digest now)

/-- `admission_for_login`. `src/jobtology_be/infrastructure/persistence/admissions.py:41–102`. -/
def admissionForLogin (digest : Digest) (invitationHash : Option Digest) (required : Bool)
    (draw : LoginDraw) : Txn Admission := do
  let admission ← query fun db ↦ lookup (·.subjectHash) db.accountAccess digest
  match admission with
  | some row => do
    require (required = true → row.revokedAt = none) (.admissionDenied "ACCESS_REVOKED")
    require (required = true → ∀ t ∈ row.expiresAt, draw.admissionNow < t)
      (.admissionDenied "ACCESS_EXPIRED")
    return .found row
  | none =>
    if required then redeemInvitation digest invitationHash draw.invitationNow
    else return .granted (legacyAccess digest draw.startedAt)

/-- `attach_admission`. `src/jobtology_be/infrastructure/persistence/admissions.py:105–115`. -/
def attachAdmission (admission : Admission) (userId : Uuid) : Txn Unit :=
  match admission with
  | .found row => statement fun db ↦ { db with
      accountAccess := update (·.subjectHash = row.subjectHash)
        (fun a ↦ { a with userId := some userId }) db.accountAccess }
  | .granted row => statement fun db ↦ { db with
      accountAccess := db.accountAccess ++ [{ row with userId := some userId }] }

/-! ### `create_google_session` -/

/-- Sessions in the order of their expiry. -/
def sessionExpiry (x y : SessionRow) : Prop :=
  x.expiresAt < y.expiresAt ∨ (x.expiresAt = y.expiresAt ∧ x.id ≤ y.id)

instance : DecidableRel sessionExpiry := fun _ _ ↦ inferInstanceAs (Decidable (_ ∨ _))

/-- `prune_auth_records` on sessions: at most 1000 that are expired or revoked and not locked.
`src/jobtology_be/infrastructure/persistence/auth_store.py:37–51`. -/
def pruneAuthRecords (now : Int) (locked : List Uuid) : Txn Unit :=
  statement fun db ↦
    let unusable := db.sessions.filter fun x ↦
      (x.expiresAt ≤ now ∨ x.revokedAt ≠ none) ∧ x.id ∉ locked
    let pruned := ((unusable.insertionSort sessionExpiry).take 1000).map (·.id)
    { db with sessions := db.sessions.filter (·.id ∉ pruned) }

/-- The identity of a subject with its user. -/
def Db.identityOf (db : Db) (subject : String) : Option (IdentityRow × UserRow) := do
  let identity ← lookup (·.subject) db.identities subject
  let user ← lookup (·.id) db.users identity.userId
  return (identity, user)

/-- Insert the user, the profile and the identity of a new account. -/
def createAccount (userId : Uuid) (subject : String) : Txn Unit := do
  statement fun db ↦ { db with users := db.users ++ [⟨userId, true, none⟩] }
  statement fun db ↦ { db with profiles := db.profiles ++ [⟨userId, 1, none⟩] }
  statement fun db ↦ { db with identities := db.identities ++ [⟨subject, userId⟩] }

/-- Open the session of an account that was admitted. -/
def openSession (login : GoogleLogin) (draw : LoginDraw) (userId : Uuid)
    (expiresAt : Option Int) : Txn IssuedSession := do
  when (login.displayName ≠ none) (statement fun db ↦ { db with
    users := update (·.id = userId) (fun u ↦ { u with displayName := login.displayName })
      db.users })
  let expiry := expiresAt.elim (draw.sessionNow + login.lifetime)
    (min (draw.sessionNow + login.lifetime))
  statement fun db ↦ { db with
    sessions := db.sessions ++
      [⟨draw.sessionId, userId, login.tokenHash, login.csrfHash, expiry, none⟩] }
  return ⟨userId, expiry⟩

/-- Admit the subject of a login and open a session. -/
def admitLogin (digest : Digest) (invitationRequired : Bool) (login : GoogleLogin)
    (draw : LoginDraw) (identity : Option (IdentityRow × UserRow)) : Txn IssuedSession := do
  let admission ← admissionForLogin digest login.invitationHash invitationRequired draw
  let userId := (identity.map (·.1.userId)).getD draw.userId
  when (identity = none) (createAccount userId login.googleSubject)
  attachAdmission admission userId
  openSession login draw userId admission.row.expiresAt

/-- `create_google_session`. `src/jobtology_be/infrastructure/persistence/auth_store.py:104–152`. -/
def createGoogleSession (subjectDigest : String → Digest) (invitationRequired : Bool)
    (login : GoogleLogin) (draw : LoginDraw) : Txn (Option IssuedSession) := do
  pruneAuthRecords draw.startedAt draw.lockedSessions
  let identity ← query (·.identityOf login.googleSubject)
  if ∃ x ∈ identity, x.2.isActive = false then do
    require (invitationRequired = false) (.admissionDenied "ACCESS_REVOKED")
    return none
  else do
    let issued ← admitLogin (subjectDigest login.googleSubject) invitationRequired login draw
      identity
    return some issued

/-! ### `management.py` -/

/-- `_audit`. `src/jobtology_be/infrastructure/persistence/management.py:25–32`. -/
def appendAudit (auditId : Uuid) (action : String) (target : Uuid) : Txn Unit :=
  statement fun db ↦ { db with audit := db.audit ++ [⟨auditId, action, target⟩] }

/-- `InvitationCreate`, without its label. `src/jobtology_be/api/management.py:48–53`. -/
structure InvitationCreate where
  expiresAt : Option Int
  accessHours : Option ℚ
  maxUses : Option Int

/-- `InvitationUpdate`: the members that are set. `src/jobtology_be/api/management.py:56–63`. -/
structure InvitationUpdate where
  expiresAt : Option (Option Int)
  accessHours : Option (Option ℚ)
  maxUses : Option (Option Int)

/-- `UserUpdate`: the members that are set. `src/jobtology_be/api/management.py:66–75`. -/
structure UserUpdate where
  isActive : Option Bool
  accessExpiresAt : Option (Option Int)

/-- `create_invitation`. `src/jobtology_be/api/management.py:93–102`,
`src/jobtology_be/infrastructure/persistence/management.py:49–69`. -/
def createInvitation (identifier : Uuid) (codeHash : Digest) (values : InvitationCreate)
    (auditId : Uuid) : Txn Unit := do
  statement fun db ↦ { db with
    invitations := db.invitations ++
      [⟨identifier, codeHash, values.expiresAt, values.accessHours, values.maxUses, 0, none⟩] }
  appendAudit auditId "invitation.create" identifier

/-- The invitation with the values that are set. -/
def InvitationRow.edited (code : InvitationRow) (values : InvitationUpdate) : InvitationRow :=
  { code with
    expiresAt := values.expiresAt.getD code.expiresAt
    accessHours := values.accessHours.getD code.accessHours
    maxUses := values.maxUses.getD code.maxUses }

/-- `update_invitation`. `src/jobtology_be/api/management.py:106–107`,
`src/jobtology_be/infrastructure/persistence/management.py:71–100`. -/
def updateInvitation (identifier : Uuid) (values : InvitationUpdate) (auditId : Uuid) :
    Txn InvitationRow := do
  let found ← query fun db ↦ lookup (·.id) db.invitations identifier
  let row ← demand found .managementNotFound
  require (∀ n ∈ (row.edited values).maxUses, row.useCount ≤ n)
    (.managementConflict "Usage limit cannot be lower than redeemed accounts")
  statement fun db ↦ { db with
    invitations := update (·.id = identifier) (·.edited values) db.invitations }
  appendAudit auditId "invitation.update" identifier
  return row.edited values

/-- `revoke_invitation`. `src/jobtology_be/api/management.py:111–113`,
`src/jobtology_be/infrastructure/persistence/management.py:102–118`. -/
def revokeInvitation (identifier : Uuid) (now : Int) (auditId : Uuid) : Txn Unit := do
  let found ← query fun db ↦ lookup (·.id) db.invitations identifier
  statement fun db ↦ { db with
    invitations := update (·.id = identifier)
      (fun i ↦ { i with revokedAt := i.revokedAt.or (some now) }) db.invitations }
  require (found ≠ none) .managementNotFound
  appendAudit auditId "invitation.revoke" identifier

/-- The admission with the values that are set. -/
def AccessRow.edited (a : AccessRow) (values : UserUpdate) (now : Int) : AccessRow :=
  { a with
    revokedAt := match values.isActive with
      | none => a.revokedAt
      | some active => if active then none else some now
    expiresAt := values.accessExpiresAt.getD a.expiresAt }

/-- Edit the admission of a user. -/
def editAccess (identifier : Uuid) (values : UserUpdate) (now : Int) : Txn Unit := do
  let found ← query fun db ↦ db.accountAccess.any (·.userId = some identifier)
  statement fun db ↦ { db with
    accountAccess := update (·.userId = some identifier) (·.edited values now)
      db.accountAccess }
  require (found = true) (.managementConflict "Account has no admission record")

/-- Shorten the sessions of a user to the end of the access. -/
def shortenSessions (identifier : Uuid) (expiresAt : Int) : Txn Unit :=
  statement fun db ↦ { db with
    sessions := update (·.userId = identifier)
      (fun x ↦ { x with expiresAt := min x.expiresAt expiresAt }) db.sessions }

/-- Revoke the sessions of a user. -/
def revokeSessionsOf (identifier : Uuid) (now : Int) : Txn Unit :=
  statement fun db ↦ { db with
    sessions := update (fun x ↦ x.userId = identifier ∧ x.revokedAt = none)
      (fun x ↦ { x with revokedAt := some now }) db.sessions }

/-- Set the status of a user. -/
def setStatus (identifier : Uuid) (active : Bool) : Txn Unit :=
  statement fun db ↦ { db with
    users := update (·.id = identifier) (fun u ↦ { u with isActive := active }) db.users }

/-- `update_user`. `src/jobtology_be/api/management.py:122–124`,
`src/jobtology_be/infrastructure/persistence/management.py:162–218`. -/
def updateUser (identifier : Uuid) (values : UserUpdate) (now : Int) (auditId : Uuid) :
    Txn Unit := do
  let user ← query fun db ↦ lookup (·.id) db.users identifier
  require (user ≠ none) .managementNotFound
  values.isActive.forM (setStatus identifier)
  when (values.isActive ≠ none ∨ values.accessExpiresAt ≠ none)
    (editAccess identifier values now)
  (values.accessExpiresAt.bind id).forM (shortenSessions identifier)
  when (values.isActive = some false) (revokeSessionsOf identifier now)
  appendAudit auditId "user.update" identifier

/-! ### What these operations write to the ledger -/

/-- Work that writes neither invitations nor admissions. -/
def LedgerKept (s t : Database) : Prop :=
  t.1.invitations = s.1.invitations ∧ t.1.accountAccess = s.1.accountAccess

instance : Std.Refl LedgerKept := ⟨fun _ ↦ ⟨rfl, rfl⟩⟩

instance : IsTrans Database LedgerKept where
  trans _ _ _ hst htu := ⟨htu.1.trans hst.1, htu.2.trans hst.2⟩

private theorem statement_kept {f : Db → Db}
    (h : ∀ db, (f db).invitations = db.invitations ∧ (f db).accountAccess = db.accountAccess) :
    Within LedgerKept (statement f) := by
  refine within_statement fun s t hst ↦ ?_
  unfold LedgerKept
  rw [← hst]
  exact h s.1

private theorem forM_kept {α : Type} {f : α → Txn Unit} (h : ∀ a, Within LedgerKept (f a))
    (x : Option α) : Within LedgerKept (x.forM f) := by
  cases x with
  | none => exact .pure ()
  | some a => exact h a

private theorem pruneAuthRecords_kept (now : Int) (locked : List Uuid) :
    Within LedgerKept (pruneAuthRecords now locked) :=
  statement_kept fun _ ↦ ⟨rfl, rfl⟩

private theorem createAccount_kept (userId : Uuid) (subject : String) :
    Within LedgerKept (createAccount userId subject) :=
  .bind (statement_kept fun _ ↦ ⟨rfl, rfl⟩) fun _ ↦
    .bind (statement_kept fun _ ↦ ⟨rfl, rfl⟩) fun _ ↦ statement_kept fun _ ↦ ⟨rfl, rfl⟩

private theorem openSession_kept (login : GoogleLogin) (draw : LoginDraw) (userId : Uuid)
    (expiresAt : Option Int) : Within LedgerKept (openSession login draw userId expiresAt) :=
  .bind (.when (statement_kept fun _ ↦ ⟨rfl, rfl⟩)) fun _ ↦
    .bind (statement_kept fun _ ↦ ⟨rfl, rfl⟩) fun _ ↦ .pure _

/-- What a login does to the ledger: nothing, attach the subject's admission to its account, or
record the subject's first admission, which may use an invitation. -/
inductive LedgerLogin (digest : Digest) (s t : Db) : Prop
  | none (invitations : t.invitations = s.invitations)
      (access : t.accountAccess = s.accountAccess)
  | attached (userId : Uuid) (known : ∃ a ∈ s.accountAccess, a.subjectHash = digest)
      (invitations : t.invitations = s.invitations)
      (access : t.accountAccess = update (·.subjectHash = digest)
        (fun a ↦ { a with userId := some userId }) s.accountAccess)
  | legacy (row : AccessRow) (unknown : ∀ a ∈ s.accountAccess, a.subjectHash ≠ digest)
      (subject : row.subjectHash = digest) (invitation : row.invitationId = .none)
      (invitations : t.invitations = s.invitations)
      (access : t.accountAccess = s.accountAccess ++ [row])
  | redeemed (code : InvitationRow) (row : AccessRow) (now : Int)
      (unknown : ∀ a ∈ s.accountAccess, a.subjectHash ≠ digest)
      (subject : row.subjectHash = digest) (invitation : row.invitationId = some code.id)
      (found : code ∈ s.invitations) (redeemable : code.Redeemable now)
      (invitations : t.invitations = update (·.id = code.id)
        (fun i ↦ { i with useCount := i.useCount + 1 }) s.invitations)
      (access : t.accountAccess = s.accountAccess ++ [row])

private theorem redeemInvitation_spec {digest : Digest} {invitationHash : Option Digest}
    {now : Int} {s t : Database} {admission : Admission}
    (h : Yields (redeemInvitation digest invitationHash now) s admission t) :
    ∃ code ∈ s.1.invitations, code.Redeemable now ∧ admission = .granted (code.grant digest now) ∧
      t.1 = { s.1 with
        invitations := update (·.id = code.id) (fun i ↦ { i with useCount := i.useCount + 1 })
          s.1.invitations } := by
  unfold redeemInvitation at h
  simp only [yields_query_bind, ↓yields_demand_bind, yields_seq, yields_statement,
    yields_pure] at h
  obtain ⟨hash, -, code, hcode, v, hv, hadmission, rfl⟩ := h
  obtain ⟨hfound, hredeemable⟩ := Option.filter_eq_some_iff.mp hcode
  exact ⟨code, (lookup_some hfound).1, by simpa using hredeemable, hadmission.symm, hv.symm⟩

/-- The admission of a login is the stored one or a new one without an account. -/
inductive AdmissionFound (digest : Digest) (s t : Db) : Admission → Prop
  | found (row : AccessRow) (known : row ∈ s.accountAccess) (subject : row.subjectHash = digest)
      (same : t = s) : AdmissionFound digest s t (.found row)
  | legacy (now : Int) (unknown : ∀ a ∈ s.accountAccess, a.subjectHash ≠ digest)
      (same : t = s) : AdmissionFound digest s t (.granted (legacyAccess digest now))
  | redeemed (code : InvitationRow) (now : Int)
      (unknown : ∀ a ∈ s.accountAccess, a.subjectHash ≠ digest)
      (stored : code ∈ s.invitations) (redeemable : code.Redeemable now)
      (used : t = { s with
        invitations := update (·.id = code.id) (fun i ↦ { i with useCount := i.useCount + 1 })
          s.invitations }) : AdmissionFound digest s t (.granted (code.grant digest now))

/-- What a login is admitted with. -/
theorem admissionForLogin_spec {digest : Digest} {invitationHash : Option Digest}
    {required : Bool} {draw : LoginDraw} {s t : Database} {admission : Admission}
    (h : Yields (admissionForLogin digest invitationHash required draw) s admission t) :
    AdmissionFound digest s.1 t.1 admission := by
  unfold admissionForLogin at h
  rw [yields_query_bind] at h
  cases hlookup : lookup (·.subjectHash) s.1.accountAccess digest with
  | some row =>
    rw [hlookup] at h
    simp only [↓yields_require_bind, yields_pure] at h
    obtain ⟨-, -, rfl, rfl⟩ := h
    obtain ⟨hmem, hsubject⟩ := lookup_some hlookup
    exact .found row hmem hsubject rfl
  | none =>
    have hunknown := lookup_eq_none.mp hlookup
    rw [hlookup] at h
    rcases yields_ite.mp h with ⟨-, h⟩ | ⟨-, h⟩
    · obtain ⟨code, hstored, hredeemable, rfl, hused⟩ := redeemInvitation_spec h
      exact .redeemed code _ hunknown hstored hredeemable hused
    · obtain ⟨rfl, rfl⟩ := yields_pure.mp h
      exact .legacy _ hunknown rfl

private theorem admitLogin_ledger {digest : Digest} {invitationRequired : Bool}
    {login : GoogleLogin} {draw : LoginDraw} {identity : Option (IdentityRow × UserRow)}
    {s t : Database} {issued : IssuedSession}
    (h : Yields (admitLogin digest invitationRequired login draw identity) s issued t) :
    LedgerLogin digest s.1 t.1 := by
  unfold admitLogin at h
  simp only [yields_bind] at h
  obtain ⟨admission, v, hadmission, _, w, haccount, _, x, hattach, hsession⟩ := h
  have hfound := admissionForLogin_spec hadmission
  obtain ⟨hi, ha⟩ := Within.when (createAccount_kept _ _) _ _ _ haccount
  obtain ⟨hi', ha'⟩ := openSession_kept _ _ _ _ _ _ _ hsession
  cases hfound with
  | found row known subject same =>
    simp only [attachAdmission, yields_statement] at hattach
    rw [← hattach] at hi' ha'
    refine .attached ((identity.map (·.1.userId)).getD draw.userId) ⟨row, known, subject⟩ ?_ ?_
    · rw [hi', hi, same]
    · rw [ha', ha, same, subject]
  | legacy now unknown same =>
    simp only [attachAdmission, yields_statement] at hattach
    rw [← hattach] at hi' ha'
    refine .legacy _ unknown ?_ ?_ ?_ (by rw [ha', ha, same])
    · rfl
    · rfl
    · rw [hi', hi, same]
  | redeemed code now unknown stored redeemable used =>
    simp only [attachAdmission, yields_statement] at hattach
    rw [← hattach] at hi' ha'
    refine .redeemed code _ now unknown ?_ ?_ stored redeemable ?_ (by rw [ha', ha, used])
    · rfl
    · rfl
    · rw [hi', hi, used]

/-- Pruning sessions comes first and does not touch the ledger. -/
theorem createGoogleSession_ledger {subjectDigest : String → Digest} {invitationRequired : Bool}
    {login : GoogleLogin} {draw : LoginDraw} {s t : Database} {issued : Option IssuedSession}
    (h : Yields (createGoogleSession subjectDigest invitationRequired login draw) s issued t) :
    LedgerLogin (subjectDigest login.googleSubject) s.1 t.1 := by
  unfold createGoogleSession at h
  rw [yields_seq] at h
  obtain ⟨v, hprune, h⟩ := h
  obtain ⟨hi, ha⟩ := pruneAuthRecords_kept _ _ _ _ _ hprune
  rw [yields_query_bind] at h
  rcases yields_ite.mp h with ⟨-, h⟩ | ⟨-, h⟩
  · simp only [↓yields_require_bind, yields_pure] at h
    obtain ⟨-, -, rfl⟩ := h
    exact .none hi ha
  · rw [yields_bind] at h
    obtain ⟨issued, w, hadmit, hpure⟩ := h
    obtain ⟨-, rfl⟩ := yields_pure.mp hpure
    cases admitLogin_ledger hadmit with
    | none hi' ha' => exact .none (hi'.trans hi) (ha'.trans ha)
    | attached userId known hi' ha' =>
      exact .attached userId (ha ▸ known) (hi'.trans hi) (ha ▸ ha')
    | legacy row unknown subject invitation hi' ha' =>
      exact .legacy row (ha ▸ unknown) subject invitation (hi'.trans hi) (ha ▸ ha')
    | redeemed code row now unknown subject invitation found redeemable hi' ha' =>
      exact .redeemed code row now (ha ▸ unknown) subject invitation (hi ▸ found) redeemable
        (hi ▸ hi') (ha ▸ ha')

private theorem appendAudit_kept (auditId : Uuid) (action : String) (target : Uuid) :
    Within LedgerKept (appendAudit auditId action target) :=
  statement_kept fun _ ↦ ⟨rfl, rfl⟩

/-- A new invitation is unused. -/
theorem createInvitation_ledger {identifier auditId : Uuid} {codeHash : Digest}
    {values : InvitationCreate} {s t : Database} {u : Unit}
    (h : Yields (createInvitation identifier codeHash values auditId) s u t) :
    t.1.accountAccess = s.1.accountAccess ∧ t.1.invitations = s.1.invitations ++
      [⟨identifier, codeHash, values.expiresAt, values.accessHours, values.maxUses, 0, none⟩] := by
  unfold createInvitation at h
  simp only [yields_seq, yields_statement] at h
  obtain ⟨v, hv, haudit⟩ := h
  obtain ⟨hi, ha⟩ := appendAudit_kept _ _ _ _ _ _ haudit
  rw [← hv] at hi ha
  exact ⟨ha, hi⟩

/-- An edit of an invitation leaves its uses. -/
theorem updateInvitation_ledger {identifier auditId : Uuid} {values : InvitationUpdate}
    {s t : Database} {row : InvitationRow}
    (h : Yields (updateInvitation identifier values auditId) s row t) :
    t.1.accountAccess = s.1.accountAccess ∧
      t.1.invitations = update (·.id = identifier) (·.edited values) s.1.invitations ∧
      ∃ i ∈ s.1.invitations, i.id = identifier ∧
        ∀ n ∈ (i.edited values).maxUses, i.useCount ≤ n := by
  unfold updateInvitation at h
  simp only [yields_query_bind, ↓yields_demand_bind, ↓yields_require_bind, yields_seq,
    yields_statement, yields_pure] at h
  obtain ⟨i, hfound, hmax, v, hv, w, haudit, -, rfl⟩ := h
  obtain ⟨hi, ha⟩ := appendAudit_kept _ _ _ _ _ _ haudit
  rw [← hv] at hi ha
  obtain ⟨hmem, hid⟩ := lookup_some hfound
  exact ⟨ha, hi, i, hmem, hid, hmax⟩

/-- A revocation of an invitation leaves its uses. -/
theorem revokeInvitation_ledger {identifier auditId : Uuid} {now : Int} {s t : Database}
    {u : Unit} (h : Yields (revokeInvitation identifier now auditId) s u t) :
    t.1.accountAccess = s.1.accountAccess ∧
      t.1.invitations = update (·.id = identifier)
        (fun i ↦ { i with revokedAt := i.revokedAt.or (some now) }) s.1.invitations := by
  unfold revokeInvitation at h
  simp only [yields_query_bind, yields_seq, yields_statement, ↓yields_require_bind] at h
  obtain ⟨v, hv, -, haudit⟩ := h
  obtain ⟨hi, ha⟩ := appendAudit_kept _ _ _ _ _ _ haudit
  rw [← hv] at hi ha
  exact ⟨ha, hi⟩

private theorem setStatus_kept (identifier : Uuid) (active : Bool) :
    Within LedgerKept (setStatus identifier active) :=
  statement_kept fun _ ↦ ⟨rfl, rfl⟩

private theorem shortenSessions_kept (identifier : Uuid) (expiresAt : Int) :
    Within LedgerKept (shortenSessions identifier expiresAt) :=
  statement_kept fun _ ↦ ⟨rfl, rfl⟩

private theorem revokeSessionsOf_kept (identifier : Uuid) (now : Int) :
    Within LedgerKept (revokeSessionsOf identifier now) :=
  statement_kept fun _ ↦ ⟨rfl, rfl⟩

private theorem editAccess_ledger {identifier : Uuid} {values : UserUpdate} {now : Int}
    {s t : Database} {u : Unit} (h : Yields (editAccess identifier values now) s u t) :
    t.1.invitations = s.1.invitations ∧ t.1.accountAccess =
      update (·.userId = some identifier) (·.edited values now) s.1.accountAccess := by
  unfold editAccess at h
  simp only [yields_query_bind, yields_seq, yields_statement, yields_require] at h
  obtain ⟨v, hv, -, rfl⟩ := h
  exact ⟨by rw [← hv], by rw [← hv]⟩

/-- An edit of a user writes that user's admission at most. -/
theorem updateUser_ledger {identifier auditId : Uuid} {values : UserUpdate} {now : Int}
    {s t : Database} {u : Unit}
    (h : Yields (updateUser identifier values now auditId) s u t) :
    t.1.invitations = s.1.invitations ∧
      (t.1.accountAccess = s.1.accountAccess ∨ t.1.accountAccess =
        update (·.userId = some identifier) (·.edited values now) s.1.accountAccess) := by
  unfold updateUser at h
  simp only [yields_query_bind, ↓yields_require_bind, yields_seq] at h
  obtain ⟨-, v, hstatus, w, hedit, x, hshorten, y, hrevoke, haudit⟩ := h
  obtain ⟨hi₁, ha₁⟩ := forM_kept (setStatus_kept _) _ _ _ _ hstatus
  obtain ⟨hi₂, ha₂⟩ := forM_kept (shortenSessions_kept _) _ _ _ _ hshorten
  obtain ⟨hi₃, ha₃⟩ := Within.when (revokeSessionsOf_kept _ _) _ _ _ hrevoke
  obtain ⟨hi₄, ha₄⟩ := appendAudit_kept _ _ _ _ _ _ haudit
  rw [hi₄, hi₃, hi₂, ha₄, ha₃, ha₂]
  rcases yields_when.mp hedit with ⟨-, hedit⟩ | ⟨-, rfl⟩
  · obtain ⟨hi, ha⟩ := editAccess_ledger hedit
    exact ⟨hi.trans hi₁, .inr (by rw [ha, ha₁])⟩
  · exact ⟨hi₁, .inl ha₁⟩

end Jobtology.Store
