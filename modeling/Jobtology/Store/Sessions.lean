import Jobtology.Store.Accounts
import Jobtology.Store.Admissions

/-!
# Sessions of accounts

`revoke_session` of `auth_store.py`, `revoke_sessions` of `management.py`,
and what logins and edits of a user do to users, identities, admissions and sessions.
-/

namespace Jobtology.Store

open Jobtology.Base Jobtology.Relational
open Jobtology.Relational.Transaction

/-- The user has an admission that is neither revoked nor expired. -/
def Db.AccessAllowed (db : Db) (userId : Uuid) (now : Int) : Prop :=
  ∃ a ∈ db.accountAccess, a.userId = some userId ∧ a.revokedAt = none ∧
    ∀ e ∈ a.expiresAt, now < e

instance (db : Db) (userId : Uuid) (now : Int) : Decidable (db.AccessAllowed userId now) :=
  inferInstanceAs (Decidable (∃ a ∈ db.accountAccess, _))

/-- `revoke_session`. `src/jobtology_be/infrastructure/persistence/auth_store.py:198–207`. -/
def revokeSession (tokenHash : Digest) (now : Int) : Txn Unit :=
  statement fun db ↦ { db with
    sessions := update (fun x ↦ x.tokenHash = tokenHash ∧ x.revokedAt = none)
      (fun x ↦ { x with revokedAt := some now }) db.sessions }

/-- `revoke_sessions`: of a user, or one session. `src/jobtology_be/api/management.py:135–137`,
`src/jobtology_be/infrastructure/persistence/management.py:247–272`. -/
def revokeSessions (sessionId userId : Option Uuid) (now : Int) (auditId : Uuid) : Txn Unit :=
  match userId with
  | some identifier => do
    let found ← query fun db ↦ lookup (·.id) db.users identifier
    require (found ≠ none) .managementNotFound
    revokeSessionsOf identifier now
    appendAudit auditId "session.revoke" identifier
  | none => do
    let found ← query fun db ↦ sessionId.bind (lookup (·.id) db.sessions)
    let target ← demand found .managementNotFound
    statement fun db ↦ { db with
      sessions := update (fun x ↦ x.id = target.id ∧ x.revokedAt = none)
        (fun x ↦ { x with revokedAt := some now }) db.sessions }
    appendAudit auditId "session.revoke" target.id

/-! ### Resolution -/

private theorem find?_eq_some_of_unique {α : Type} {rows : List α} {p : α → Bool} {x : α}
    (hx : x ∈ rows) (hp : p x = true) (hunique : ∀ y ∈ rows, p y = true → y = x) :
    rows.find? p = some x := by
  obtain ⟨y, hy⟩ := Option.isSome_iff_exists.mp (List.find?_isSome.mpr ⟨x, hx, hp⟩)
  rw [hy, hunique y (List.mem_of_find?_eq_some hy) (List.find?_some hy)]

/-- The session behind a principal is live, and so is its account. -/
theorem exists_of_resolveSession {db : Db} {invitationRequired : Bool} {tokenHash : Digest}
    {now : Int} {p : SessionPrincipal}
    (h : resolveSession invitationRequired tokenHash now db = some p) :
    ∃ x ∈ db.sessions, x.tokenHash = tokenHash ∧ now < x.expiresAt ∧ x.revokedAt = none ∧
      p.userId = x.userId ∧ ∃ u ∈ db.users, u.id = x.userId ∧ u.isActive = true := by
  unfold resolveSession at h
  simp only [Option.bind_eq_bind, Option.bind_eq_some_iff] at h
  obtain ⟨x, hx, u, hu, h⟩ := h
  have hsession := List.find?_some hx
  have huser := List.find?_some hu
  simp only [decide_eq_true_eq] at hsession huser
  obtain ⟨htoken, hnow, hrevoked⟩ := hsession
  obtain ⟨hid, hactive⟩ := huser
  split at h
  · obtain rfl := Option.some.inj h
    exact ⟨x, List.mem_of_find?_eq_some hx, htoken, hnow, hrevoked, rfl, u,
      List.mem_of_find?_eq_some hu, hid, hactive⟩
  · cases h

/-- A live session of an active account with an identity and an admission resolves. -/
theorem resolveSession_of_live {s : Database} {invitationRequired : Bool} {now : Int}
    {x : SessionRow} (hx : x ∈ s.1.sessions) (hnow : now < x.expiresAt) (hlive : x.revokedAt = none)
    {u : UserRow} (hu : u ∈ s.1.users) (hid : u.id = x.userId) (hactive : u.isActive = true)
    (hidentity : ∃ i ∈ s.1.identities, i.userId = u.id) (hallowed : s.1.AccessAllowed u.id now) :
    (resolveSession invitationRequired x.tokenHash now s.1).isSome = true := by
  have hsession : (s.1.sessions.find? fun y ↦ y.tokenHash = x.tokenHash ∧ now < y.expiresAt ∧
      y.revokedAt = none) = some x :=
    find?_eq_some_of_unique hx (decide_eq_true ⟨rfl, hnow, hlive⟩) fun y hy hmatch ↦
      s.2.credentials.token.eq_of_mem hy hx (of_decide_eq_true hmatch).1
  have huser : (s.1.users.find? fun v ↦ v.id = x.userId ∧ v.isActive = true) = some u :=
    find?_eq_some_of_unique hu (decide_eq_true ⟨hid, hactive⟩) fun v hv hmatch ↦
      s.2.accounts.usersKey.eq_of_mem hv hu ((of_decide_eq_true hmatch).1.trans hid.symm)
  obtain ⟨a, ha, haccount, hrevoked, hends⟩ := hallowed
  have haccess : a.allowed now := ⟨by rw [haccount]; exact Option.some_ne_none _, hrevoked, hends⟩
  unfold resolveSession
  simp only [hsession, huser, Option.bind_eq_bind, Option.bind_some]
  rw [if_pos ⟨fun _ ↦ ⟨a, ha, haccount, haccess⟩, hidentity⟩]
  rfl

/-! ### Sessions only end -/

/-- A later version of a session: its end does not move back up, and it stays revoked. -/
structure SessionRow.Aged (x y : SessionRow) : Prop where
  id : y.id = x.id
  userId : y.userId = x.userId
  tokenHash : y.tokenHash = x.tokenHash
  expiresAt : y.expiresAt ≤ x.expiresAt
  revokedAt : x.revokedAt ≠ none → y.revokedAt ≠ none

/-- A session ages into itself. -/
theorem SessionRow.Aged.refl (x : SessionRow) : x.Aged x := ⟨rfl, rfl, rfl, le_rfl, fun h ↦ h⟩

/-- Every session is a later version of a session. -/
def SessionsAged (s t : List SessionRow) : Prop := ∀ y ∈ t, ∃ x ∈ s, x.Aged y

/-- Sessions age into themselves. -/
theorem sessionsAged_refl (s : List SessionRow) : SessionsAged s s :=
  fun x hx ↦ ⟨x, hx, .refl x⟩

/-- An update that only ages sessions. -/
theorem sessionsAged_update {s : List SessionRow} {p : SessionRow → Prop} [DecidablePred p]
    {f : SessionRow → SessionRow} (h : ∀ x, p x → x.Aged (f x)) :
    SessionsAged s (update p f s) := by
  intro y hy
  rcases mem_update.mp hy with ⟨hmem, -⟩ | ⟨x, hx, hp, rfl⟩
  · exact ⟨y, hmem, .refl y⟩
  · exact ⟨x, hx, h x hp⟩

private theorem aged_revoked {x : SessionRow} (now : Int) :
    x.Aged { x with revokedAt := some now } :=
  ⟨rfl, rfl, rfl, le_rfl, fun _ ↦ Option.some_ne_none now⟩

/-- Work on the tables of accounts that writes sessions only. -/
structure OnlySessions (s t : Db) : Prop where
  users : t.users = s.users
  identities : t.identities = s.identities
  accountAccess : t.accountAccess = s.accountAccess

/-- An audit entry leaves the sessions. -/
theorem appendAudit_spec {auditId target : Uuid} {action : String} {s t : Database} {u : Unit}
    (h : Yields (appendAudit auditId action target) s u t) :
    OnlySessions s.1 t.1 ∧ t.1.sessions = s.1.sessions := by
  have ht := yields_statement.mp h
  rw [← ht]
  exact ⟨⟨rfl, rfl, rfl⟩, rfl⟩

/-- A revocation by the token only ages sessions. -/
theorem revokeSession_spec {tokenHash : Digest} {now : Int} {s t : Database} {u : Unit}
    (h : Yields (revokeSession tokenHash now) s u t) :
    OnlySessions s.1 t.1 ∧ SessionsAged s.1.sessions t.1.sessions := by
  have ht := yields_statement.mp h
  rw [← ht]
  exact ⟨⟨rfl, rfl, rfl⟩, sessionsAged_update fun _ _ ↦ aged_revoked now⟩

/-- A revocation by the management only ages sessions. -/
theorem revokeSessions_spec {sessionId userId : Option Uuid} {now : Int} {auditId : Uuid}
    {s t : Database} {u : Unit} (h : Yields (revokeSessions sessionId userId now auditId) s u t) :
    OnlySessions s.1 t.1 ∧ SessionsAged s.1.sessions t.1.sessions := by
  cases userId with
  | some identifier =>
    simp only [revokeSessions, revokeSessionsOf, yields_query_bind, ↓yields_require_bind,
      yields_seq, yields_statement] at h
    obtain ⟨-, v, hv, haudit⟩ := h
    obtain ⟨hkept, hsessions⟩ := appendAudit_spec haudit
    rw [← hv] at hkept hsessions
    refine ⟨⟨hkept.users, hkept.identities, hkept.accountAccess⟩, ?_⟩
    rw [hsessions]
    exact sessionsAged_update fun _ _ ↦ aged_revoked now
  | none =>
    simp only [revokeSessions, yields_query_bind, ↓yields_demand_bind, yields_seq,
      yields_statement] at h
    obtain ⟨target, -, v, hv, haudit⟩ := h
    obtain ⟨hkept, hsessions⟩ := appendAudit_spec haudit
    rw [← hv] at hkept hsessions
    refine ⟨⟨hkept.users, hkept.identities, hkept.accountAccess⟩, ?_⟩
    rw [hsessions]
    exact sessionsAged_update fun _ _ ↦ aged_revoked now

/-! ### Edits of a user -/

/-- The sessions of a user after an edit. -/
def SessionRow.edited (values : UserUpdate) (now : Int) (x : SessionRow) : SessionRow :=
  { x with
    expiresAt := values.accessExpiresAt.join.elim x.expiresAt (min x.expiresAt)
    revokedAt := if values.isActive = some false then x.revokedAt.or (some now)
      else x.revokedAt }

/-- An edit of a user only ages the sessions. -/
theorem aged_edited (values : UserUpdate) (now : Int) (x : SessionRow) :
    x.Aged (x.edited values now) := by
  refine ⟨rfl, rfl, rfl, ?_, fun h ↦ ?_⟩
  · unfold SessionRow.edited
    cases values.accessExpiresAt.join with
    | none => exact le_rfl
    | some e => exact min_le_left _ _
  · unfold SessionRow.edited
    by_cases hsuspended : values.isActive = some false
    · rw [if_pos hsuspended]
      cases hrevoked : x.revokedAt with
      | none => exact absurd hrevoked h
      | some r => exact Option.some_ne_none r
    · rw [if_neg hsuspended]
      exact h

/-- What an edit of a user does. -/
structure UserEdited (identifier : Uuid) (values : UserUpdate) (now : Int) (s t : Db) : Prop where
  users : t.users = update (·.id = identifier)
    (fun u ↦ { u with isActive := values.isActive.getD u.isActive }) s.users
  identities : t.identities = s.identities
  accountAccess : t.accountAccess =
    update (·.userId = some identifier) (·.edited values now) s.accountAccess
  admitted : values.isActive ≠ none ∨ values.accessExpiresAt ≠ none →
    ∃ a ∈ s.accountAccess, a.userId = some identifier
  sessions : t.sessions = update (·.userId = identifier) (·.edited values now) s.sessions

private theorem setStatus_spec {identifier : Uuid} {status : Option Bool} {s t : Database}
    {u : PUnit} (h : Yields (status.forM (setStatus identifier)) s u t) :
    t.1.users = update (·.id = identifier)
        (fun u ↦ { u with isActive := status.getD u.isActive }) s.1.users ∧
      t.1.identities = s.1.identities ∧ t.1.accountAccess = s.1.accountAccess ∧
      t.1.sessions = s.1.sessions := by
  cases status with
  | none =>
    obtain ⟨-, rfl⟩ := yields_pure.mp h
    refine ⟨?_, rfl, rfl, rfl⟩
    unfold update
    symm
    apply (List.map_congr_left fun x _ ↦ ?_).trans (List.map_id _)
    split <;> rfl
  | some active =>
    have hset : Yields (setStatus identifier active) s () t := h
    rw [← yields_statement.mp hset]
    exact ⟨rfl, rfl, rfl, rfl⟩

private theorem editAccess_spec {identifier : Uuid} {values : UserUpdate} {now : Int}
    {s t : Database} {u : Unit}
    (h : Yields (when (values.isActive ≠ none ∨ values.accessExpiresAt ≠ none)
      (editAccess identifier values now)) s u t) :
    t.1.accountAccess =
        update (·.userId = some identifier) (·.edited values now) s.1.accountAccess ∧
      (values.isActive ≠ none ∨ values.accessExpiresAt ≠ none →
        ∃ a ∈ s.1.accountAccess, a.userId = some identifier) ∧
      t.1.users = s.1.users ∧ t.1.identities = s.1.identities ∧
      t.1.sessions = s.1.sessions := by
  rcases yields_when.mp h with ⟨-, hedit⟩ | ⟨hnone, rfl⟩
  · unfold editAccess at hedit
    simp only [yields_query_bind, yields_seq, yields_statement, yields_require] at hedit
    obtain ⟨v, hv, hfound, rfl⟩ := hedit
    rw [← hv]
    refine ⟨rfl, fun _ ↦ ?_, rfl, rfl, rfl⟩
    obtain ⟨a, ha, huser⟩ := List.any_eq_true.mp hfound
    exact ⟨a, ha, of_decide_eq_true huser⟩
  · refine ⟨?_, fun hset ↦ absurd hset hnone, rfl, rfl, rfl⟩
    rw [not_or, not_not, not_not] at hnone
    unfold update
    symm
    apply (List.map_congr_left fun x _ ↦ ?_).trans (List.map_id _)
    unfold AccessRow.edited
    rw [hnone.1, hnone.2]
    split <;> rfl

private theorem endSessions_spec {identifier : Uuid} {values : UserUpdate} {now : Int}
    {s v t : Database} {u : PUnit} {u' : Unit}
    (hshorten : Yields (values.accessExpiresAt.join.forM (shortenSessions identifier)) s u v)
    (hrevoke : Yields (when (values.isActive = some false) (revokeSessionsOf identifier now))
      v u' t) :
    t.1.sessions = update (·.userId = identifier) (·.edited values now) s.1.sessions ∧
      t.1.users = s.1.users ∧ t.1.identities = s.1.identities ∧
      t.1.accountAccess = s.1.accountAccess := by
  have hfirst : v.1 = { s.1 with
      sessions := update (·.userId = identifier)
        (fun x ↦ { x with
          expiresAt := values.accessExpiresAt.join.elim x.expiresAt (min x.expiresAt) })
        s.1.sessions } := by
    cases hvalue : values.accessExpiresAt.join with
    | none =>
      rw [hvalue] at hshorten
      obtain ⟨-, rfl⟩ := yields_pure.mp hshorten
      have hsame : update (·.userId = identifier)
          (fun x : SessionRow ↦ { x with
            expiresAt := (none : Option Int).elim x.expiresAt (min x.expiresAt) })
          s.1.sessions = s.1.sessions := by
        unfold update
        apply (List.map_congr_left fun x _ ↦ ?_).trans (List.map_id _)
        split <;> rfl
      rw [hsame]
    | some e =>
      rw [hvalue] at hshorten
      have hset : Yields (shortenSessions identifier e) s () v := hshorten
      exact (yields_statement.mp hset).symm
  have hsecond : t.1 = { v.1 with
      sessions := update (·.userId = identifier)
        (fun x ↦ { x with
          revokedAt := if values.isActive = some false then x.revokedAt.or (some now)
            else x.revokedAt })
        v.1.sessions } := by
    rcases yields_when.mp hrevoke with ⟨hset, hrevoked⟩ | ⟨hunset, rfl⟩
    · rw [← yields_statement.mp hrevoked]
      congr 1
      unfold update
      apply List.map_congr_left
      intro x _
      by_cases huser : x.userId = identifier
      · subst huser
        cases hrevokedAt : x.revokedAt with
        | none => simp [hset, hrevokedAt]
        | some r =>
          simp only [hset, hrevokedAt, reduceCtorEq, and_false, if_true, if_false,
            Option.some_or]
          rw [← hrevokedAt]
      · simp [huser]
    · have hsame : update (·.userId = identifier)
          (fun x : SessionRow ↦ { x with
            revokedAt := if values.isActive = some false then x.revokedAt.or (some now)
              else x.revokedAt })
          v.1.sessions = v.1.sessions := by
        unfold update
        apply (List.map_congr_left fun x _ ↦ ?_).trans (List.map_id _)
        simp [hunset]
      rw [hsame]
  rw [hsecond, hfirst]
  refine ⟨?_, rfl, rfl, rfl⟩
  unfold update
  rw [List.map_map]
  apply List.map_congr_left
  intro x _
  by_cases huser : x.userId = identifier
  · simp [huser, SessionRow.edited]
  · simp [huser]

/-- What an edit of a user does. -/
theorem updateUser_spec {identifier auditId : Uuid} {values : UserUpdate} {now : Int}
    {s t : Database} {u : Unit} (h : Yields (updateUser identifier values now auditId) s u t) :
    UserEdited identifier values now s.1 t.1 := by
  unfold updateUser at h
  simp only [yields_query_bind, ↓yields_require_bind, yields_seq] at h
  obtain ⟨-, v, hstatus, w, hedit, x, hshorten, y, hrevoke, haudit⟩ := h
  obtain ⟨hu₁, hi₁, ha₁, hs₁⟩ := setStatus_spec hstatus
  obtain ⟨ha₂, hadmitted, hu₂, hi₂, hs₂⟩ := editAccess_spec hedit
  obtain ⟨hs₃, hu₃, hi₃, ha₃⟩ := endSessions_spec hshorten hrevoke
  obtain ⟨⟨hu₄, hi₄, ha₄⟩, hs₄⟩ := appendAudit_spec haudit
  constructor
  case users =>
    rw [hu₄, hu₃, hu₂, hu₁]
  case identities =>
    rw [hi₄, hi₃, hi₂, hi₁]
  case accountAccess =>
    rw [ha₄, ha₃, ha₂, ha₁]
  case admitted =>
    rw [← ha₁]
    exact hadmitted
  case sessions =>
    rw [hs₄, hs₃, hs₂, hs₁]

/-! ### Logins -/

/-- The access row of an admission once it is attached. -/
def Admission.attach (admission : Admission) (userId : Uuid) (rows : List AccessRow) :
    List AccessRow :=
  match admission with
  | .found row => update (·.subjectHash = row.subjectHash)
      (fun a ↦ { a with userId := some userId }) rows
  | .granted row => rows ++ [{ row with userId := some userId }]

/-- The user of an account that is new. -/
def newUsers (identity : Option (IdentityRow × UserRow)) (draw : LoginDraw) : List UserRow :=
  if identity = none then [⟨draw.userId, true, none⟩] else []

/-- The identity of an account that is new. -/
def newIdentities (identity : Option (IdentityRow × UserRow)) (login : GoogleLogin)
    (draw : LoginDraw) : List IdentityRow :=
  if identity = none then [⟨login.googleSubject, draw.userId⟩] else []

/-- What opening a session of an account, new or known, does. -/
structure SessionOpened (digest : Digest) (login : GoogleLogin) (draw : LoginDraw)
    (identity : Option (IdentityRow × UserRow)) (s t : Db) : Prop where
  users : ∃ named : UserRow → UserRow,
    (∀ u, (named u).id = u.id ∧ (named u).isActive = u.isActive) ∧
    t.users = (s.users ++ newUsers identity draw).map named
  identities : t.identities = s.identities ++ newIdentities identity login draw
  newUser : identity = none → ∀ u ∈ s.users, u.id ≠ draw.userId
  access : ∃ admission : Admission, ∃ expiry : Int,
    (∀ row, admission = .found row → row ∈ s.accountAccess ∧ row.subjectHash = digest) ∧
    (∀ row, admission = .granted row → row.subjectHash = digest ∧ row.revokedAt = none ∧
      ∀ a ∈ s.accountAccess, a.subjectHash ≠ digest) ∧
    (∀ e ∈ admission.row.expiresAt, expiry ≤ e) ∧
    t.accountAccess =
      admission.attach ((identity.map (·.1.userId)).getD draw.userId) s.accountAccess ∧
    t.sessions = s.sessions ++ [⟨draw.sessionId, (identity.map (·.1.userId)).getD draw.userId,
      login.tokenHash, login.csrfHash, expiry, none⟩]

private theorem admitLogin_spec {digest : Digest} {required : Bool} {login : GoogleLogin}
    {draw : LoginDraw} {identity : Option (IdentityRow × UserRow)} {s t : Database}
    {issued : IssuedSession}
    (h : Yields (admitLogin digest required login draw identity) s issued t) :
    SessionOpened digest login draw identity s.1 t.1 := by
  unfold admitLogin at h
  simp only [yields_bind] at h
  obtain ⟨admission, v, hadmission, _, w, haccount, _, x, hattach, hsession⟩ := h
  have hfound := admissionForLogin_spec hadmission
  have hv : v.1 = { s.1 with invitations := v.1.invitations } := by
    cases hfound with
    | found row known subject same => rw [same]
    | legacy now unknown same => rw [same]
    | redeemed code now unknown stored redeemable used => rw [used]
  have hw : w.1.users = s.1.users ++ newUsers identity draw ∧
      w.1.identities = s.1.identities ++ newIdentities identity login draw ∧
      w.1.accountAccess = s.1.accountAccess ∧ w.1.sessions = s.1.sessions := by
    unfold newUsers newIdentities
    rcases yields_when.mp haccount with ⟨hnone, hcreated⟩ | ⟨hsome, rfl⟩
    · unfold createAccount at hcreated
      simp only [yields_seq, yields_statement] at hcreated
      obtain ⟨a, ha, b, hb, hc⟩ := hcreated
      rw [← hc, ← hb, ← ha, hv, if_pos hnone, if_pos hnone, hnone]
      exact ⟨rfl, rfl, rfl, rfl⟩
    · rw [if_neg hsome, if_neg hsome, hv]
      exact ⟨(List.append_nil _).symm, (List.append_nil _).symm, rfl, rfl⟩
  obtain ⟨hwu, hwi, hwa, hws⟩ := hw
  have hx : x.1.users = w.1.users ∧ x.1.identities = w.1.identities ∧
      x.1.sessions = w.1.sessions ∧ x.1.accountAccess =
        admission.attach ((identity.map (·.1.userId)).getD draw.userId) w.1.accountAccess := by
    cases admission with
    | found row =>
      have hset := yields_statement.mp hattach
      rw [← hset]
      exact ⟨rfl, rfl, rfl, rfl⟩
    | granted row =>
      have hset := yields_statement.mp hattach
      rw [← hset]
      exact ⟨rfl, rfl, rfl, rfl⟩
  obtain ⟨hxu, hxi, hxs, hxa⟩ := hx
  unfold openSession at hsession
  simp only [yields_seq, yields_statement, yields_pure] at hsession
  obtain ⟨y, hname, z, hopen, -, rfl⟩ := hsession
  have hy : ∃ named : UserRow → UserRow,
      (∀ u, (named u).id = u.id ∧ (named u).isActive = u.isActive) ∧
      y.1.users = x.1.users.map named ∧ y.1.identities = x.1.identities ∧
      y.1.accountAccess = x.1.accountAccess ∧ y.1.sessions = x.1.sessions := by
    rcases yields_when.mp hname with ⟨-, hnamed⟩ | ⟨-, rfl⟩
    · rw [← yields_statement.mp hnamed]
      refine ⟨_, fun u ↦ ?_, rfl, rfl, rfl, rfl⟩
      split <;> exact ⟨rfl, rfl⟩
    · exact ⟨fun u ↦ u, fun u ↦ ⟨rfl, rfl⟩, (List.map_id _).symm, rfl, rfl, rfl⟩
  obtain ⟨named, hnamed, hyu, hyi, hya, hys⟩ := hy
  let expiry := admission.row.expiresAt.elim (draw.sessionNow + login.lifetime)
    (min (draw.sessionNow + login.lifetime))
  refine ⟨⟨named, hnamed, ?_⟩, ?_, ?_, admission, expiry, ?_, ?_, ?_, ?_, ?_⟩
  · rw [← hopen, ← hwu, ← hxu, ← hyu]
  · rw [← hopen, ← hwi, ← hxi, ← hyi]
  · intro hnone u hu hid
    have hunique := w.2.accounts.usersKey
    rw [hwu] at hunique
    unfold newUsers at hunique
    rw [if_pos hnone] at hunique
    exact (unique_append_singleton.mp hunique).2 u hu hid
  · rintro row rfl
    cases hfound with
    | found _ known subject _ => exact ⟨known, subject⟩
  · rintro row rfl
    cases hfound with
    | legacy now unknown _ => exact ⟨rfl, rfl, unknown⟩
    | redeemed code now unknown _ _ _ => exact ⟨rfl, rfl, unknown⟩
  · intro e he
    unfold expiry
    rw [Option.mem_def.mp he]
    exact min_le_right _ _
  · rw [← hopen, ← hwa, ← hxa, ← hya]
  · rw [← hopen, ← hws, ← hxs, ← hys]

/-- What a login does: it removes unusable sessions, and may open one. -/
theorem createGoogleSession_spec {subjectDigest : String → Digest} {required : Bool}
    {login : GoogleLogin} {draw : LoginDraw} {s t : Database} {issued : Option IssuedSession}
    (h : Yields (createGoogleSession subjectDigest required login draw) s issued t) :
    ∃ v : Database, OnlySessions s.1 v.1 ∧ v.1.sessions.Sublist s.1.sessions ∧
      (t = v ∨ SessionOpened (subjectDigest login.googleSubject) login draw
        (v.1.identityOf login.googleSubject) v.1 t.1 ∧
        ∀ x ∈ v.1.identityOf login.googleSubject, x.2.isActive = true) := by
  unfold createGoogleSession at h
  rw [yields_seq] at h
  obtain ⟨v, hprune, h⟩ := h
  have hv := yields_statement.mp hprune
  refine ⟨v, ?_, ?_, ?_⟩
  · rw [← hv]
    exact ⟨rfl, rfl, rfl⟩
  · rw [← hv]
    exact List.filter_sublist
  · rw [yields_query_bind] at h
    rcases yields_ite.mp h with ⟨-, h⟩ | ⟨hactive, h⟩
    · simp only [↓yields_require_bind, yields_pure] at h
      exact .inl h.2.2.symm
    · rw [yields_bind] at h
      obtain ⟨opened, w, hadmit, hpure⟩ := h
      obtain ⟨-, rfl⟩ := yields_pure.mp hpure
      refine .inr ⟨admitLogin_spec hadmit, fun x hx ↦ ?_⟩
      by_contra hinactive
      exact hactive ⟨x, hx, by simpa using hinactive⟩

end Jobtology.Store
