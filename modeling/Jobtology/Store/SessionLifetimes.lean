import Jobtology.Relational.Runs
import Jobtology.Store.Sessions

/-!
# Lifetimes of sessions

Sessions over every order of logins, revocations and edits of users. The end of a session is held
by the session and by the account; a session never outlives the account's access, and once it
stops resolving it never resolves again.
-/

namespace Jobtology.Store

open Jobtology.Base Jobtology.Relational
open Jobtology.Relational.Transaction

/-- The store, the time of the next resolution and the tokens drawn so far. -/
structure SessionStore where
  db : Database
  now : Int
  drawn : List Digest

/-- What happens next to sessions. -/
inductive SessionAction
  | tick (elapsed : Nat)
  | login (invitationRequired : Bool) (request : GoogleLogin) (draw : LoginDraw)
  | revoke (tokenHash : Digest) (now : Int)
  | revokeSessions (sessionId userId : Option Uuid) (now : Int) (auditId : Uuid)
  | updateUser (identifier : Uuid) (values : UserUpdate) (now : Int) (auditId : Uuid)
  /-- Any other transaction. It writes no user, identity, admission or session. -/
  | outside (db : Database)

/-- What chance and SHA-256 promise for a login: its token is not drawn twice, and no other Google
subject has its digest. -/
def FreshLogin (subjectDigest : String → Digest) (s : SessionStore) (request : GoogleLogin) :
    Prop :=
  request.tokenHash ∉ s.drawn ∧ ∀ i ∈ s.db.1.identities,
    subjectDigest i.subject = subjectDigest request.googleSubject →
      i.subject = request.googleSubject

instance (subjectDigest : String → Digest) (s : SessionStore) (request : GoogleLogin) :
    Decidable (FreshLogin subjectDigest s request) :=
  inferInstanceAs (Decidable (_ ∧ _))

instance (s t : Db) : Decidable (OnlySessions s t) :=
  decidable_of_iff (t.users = s.users ∧ t.identities = s.identities ∧
    t.accountAccess = s.accountAccess) ⟨fun h ↦ ⟨h.1, h.2.1, h.2.2⟩, fun h ↦ ⟨h.1, h.2, h.3⟩⟩

namespace SessionStore

/-- Before the first row. -/
def start : SessionStore := ⟨.empty, 0, []⟩

/-- Resolve a session now. -/
def resolve (s : SessionStore) (invitationRequired : Bool) (tokenHash : Digest) :
    Option SessionPrincipal :=
  resolveSession invitationRequired tokenHash s.now s.db.1

/-- One action. -/
def apply (subjectDigest : String → Digest) (s : SessionStore) : SessionAction → SessionStore
  | .tick elapsed => { s with now := s.now + elapsed }
  | .login required request draw =>
    if FreshLogin subjectDigest s request then
      { s with
        db := (createGoogleSession subjectDigest required request draw).commit s.db
        drawn := s.drawn ++ [request.tokenHash] }
    else s
  | .revoke tokenHash now => { s with db := (revokeSession tokenHash now).commit s.db }
  | .revokeSessions sessionId userId now auditId =>
    { s with db := (Store.revokeSessions sessionId userId now auditId).commit s.db }
  | .updateUser identifier values now auditId =>
    { s with db := (Store.updateUser identifier values now auditId).commit s.db }
  | .outside db =>
    if OnlySessions s.db.1 db.1 ∧ db.1.sessions = s.db.1.sessions then { s with db := db } else s

/-- Sessions end with the access of their accounts, and accounts and admissions go together. -/
structure Consistent (subjectDigest : String → Digest) (db : Db) : Prop where
  bounded : ∀ x ∈ db.sessions, ∃ a ∈ db.accountAccess, a.userId = some x.userId ∧
    ∀ e ∈ a.expiresAt, x.expiresAt ≤ e
  suspended : ∀ x ∈ db.sessions, ∀ u ∈ db.users, u.id = x.userId → u.isActive = false →
    x.revokedAt ≠ none
  revoked : ∀ a ∈ db.accountAccess, a.revokedAt ≠ none → ∀ u ∈ db.users,
    a.userId = some u.id → u.isActive = false
  attached : ∀ a ∈ db.accountAccess, ∃ i ∈ db.identities,
    subjectDigest i.subject = a.subjectHash ∧ a.userId = some i.userId
  admitted : ∀ i ∈ db.identities, ∃ a ∈ db.accountAccess,
    a.subjectHash = subjectDigest i.subject
  identified : ∀ x ∈ db.sessions, ∃ i ∈ db.identities, i.userId = x.userId

variable {subjectDigest : String → Digest}

/-- A session resolves exactly while it is neither revoked nor expired. -/
theorem resolveSession_isSome_iff {s : Database} (h : Consistent subjectDigest s.1)
    {required : Bool} {tokenHash : Digest} {now : Int} :
    (resolveSession required tokenHash now s.1).isSome ↔
      ∃ x ∈ s.1.sessions, x.tokenHash = tokenHash ∧ x.revokedAt = none ∧ now < x.expiresAt := by
  constructor
  · intro hsome
    obtain ⟨p, hp⟩ := Option.isSome_iff_exists.mp hsome
    obtain ⟨x, hx, htoken, hnow, hlive, -⟩ := exists_of_resolveSession hp
    exact ⟨x, hx, htoken, hlive, hnow⟩
  · rintro ⟨x, hx, rfl, hlive, hnow⟩
    obtain ⟨u, hu, hreference⟩ := s.2.credentials.sessionsUser x hx
    have hid : u.id = x.userId := hreference
    have hactive : u.isActive = true := by
      by_contra hinactive
      exact h.suspended x hx u hu hid (by simpa using hinactive) hlive
    obtain ⟨a, ha, haccount, hbound⟩ := h.bounded x hx
    have hallowed : s.1.AccessAllowed u.id now := by
      refine ⟨a, ha, by rw [haccount, hid], ?_, fun e he ↦ hnow.trans_le (hbound e he)⟩
      by_contra hrevoked
      have hinactive := h.revoked a ha hrevoked u hu (by rw [haccount, hid])
      rw [hactive] at hinactive
      cases hinactive
    obtain ⟨i, hi, hidentity⟩ := h.identified x hx
    exact resolveSession_of_live hx hnow hlive hu hid hactive
      ⟨i, hi, hidentity.trans hid.symm⟩ hallowed

/-! ### What an action keeps -/

/-- Sessions that only age stay consistent. -/
theorem Consistent.aged {s t : Db} (h : Consistent subjectDigest s) (hkept : OnlySessions s t)
    (haged : SessionsAged s.sessions t.sessions) : Consistent subjectDigest t := by
  constructor
  case bounded =>
    intro y hy
    obtain ⟨x, hx, hage⟩ := haged y hy
    obtain ⟨a, ha, huser, hbound⟩ := h.bounded x hx
    refine ⟨a, hkept.accountAccess ▸ ha, ?_, fun e he ↦ hage.expiresAt.trans (hbound e he)⟩
    rw [huser, hage.userId]
  case suspended =>
    intro y hy
    obtain ⟨x, hx, hage⟩ := haged y hy
    rw [hkept.users, hage.userId]
    intro u hu hid hinactive
    exact hage.revokedAt (h.suspended x hx u hu hid hinactive)
  case revoked =>
    rw [hkept.accountAccess, hkept.users]
    exact h.revoked
  case attached =>
    rw [hkept.accountAccess, hkept.identities]
    exact h.attached
  case admitted =>
    rw [hkept.accountAccess, hkept.identities]
    exact h.admitted
  case identified =>
    intro y hy
    obtain ⟨x, hx, hage⟩ := haged y hy
    rw [hkept.identities, hage.userId]
    exact h.identified x hx

/-- An edit moves the end of a session with the end of the access. -/
theorem edited_bounded {x : SessionRow} {a : AccessRow} {values : UserUpdate} {now : Int}
    (h : ∀ e ∈ a.expiresAt, x.expiresAt ≤ e) :
    ∀ e ∈ (a.edited values now).expiresAt, (x.edited values now).expiresAt ≤ e := by
  intro e he
  unfold SessionRow.edited
  unfold AccessRow.edited at he
  cases hvalue : values.accessExpiresAt with
  | none =>
    rw [hvalue] at he
    exact h e he
  | some period =>
    rw [hvalue] at he
    have hperiod : period = some e := he
    rw [hperiod]
    exact min_le_right _ _

/-- An edit of a user keeps the store consistent. -/
theorem Consistent.edited {s t : Db} {identifier : Uuid} {values : UserUpdate} {now : Int}
    (h : Consistent subjectDigest s) (hedit : UserEdited identifier values now s t) :
    Consistent subjectDigest t := by
  obtain ⟨husers, hidentities, haccess, -, hsessions⟩ := hedit
  have hsubjects : ∀ a ∈ s.accountAccess, ∃ b ∈ t.accountAccess,
      b.subjectHash = a.subjectHash := by
    intro a ha
    rw [haccess]
    exact exists_mem_update ⟨a, ha, rfl⟩ fun _ hb ↦ hb
  constructor
  case bounded =>
    intro y hy
    rw [hsessions] at hy
    rw [haccess]
    rcases mem_update.mp hy with ⟨hy, hother⟩ | ⟨x, hx, rfl, rfl⟩
    · obtain ⟨a, ha, huser, hbound⟩ := h.bounded y hy
      refine ⟨a, mem_update.mpr (.inl ⟨ha, ?_⟩), huser, hbound⟩
      rw [huser, Option.some.injEq]
      exact hother
    · obtain ⟨a, ha, huser, hbound⟩ := h.bounded x hx
      exact ⟨a.edited values now, mem_update.mpr (.inr ⟨a, ha, huser, rfl⟩), huser,
        edited_bounded hbound⟩
  case suspended =>
    intro y hy u hu hid hinactive
    rw [hsessions] at hy
    rw [husers] at hu
    rcases mem_update.mp hy with ⟨hy, hother⟩ | ⟨x, hx, rfl, rfl⟩
    · rcases mem_update.mp hu with ⟨hu, -⟩ | ⟨v, hv, hsame, rfl⟩
      · exact h.suspended y hy u hu hid hinactive
      · exact absurd (hid.symm.trans hsame) hother
    · rcases mem_update.mp hu with ⟨-, hdiffers⟩ | ⟨v, hv, hsame, rfl⟩
      · exact absurd hid hdiffers
      · unfold SessionRow.edited
        by_cases hsuspends : values.isActive = some false
        · rw [if_pos hsuspends]
          cases x.revokedAt <;> exact Option.some_ne_none _
        · rw [if_neg hsuspends]
          refine h.suspended x hx v hv hsame ?_
          cases hvalue : values.isActive with
          | none => rwa [hvalue] at hinactive
          | some active =>
            rw [hvalue] at hinactive hsuspends
            exact absurd (congrArg some hinactive) hsuspends
  case revoked =>
    intro b hb hrevoked u hu huser
    rw [haccess] at hb
    rw [husers] at hu
    rcases mem_update.mp hb with ⟨hb, hother⟩ | ⟨a, ha, haccount, rfl⟩
    · rcases mem_update.mp hu with ⟨hu, -⟩ | ⟨v, hv, hsame, rfl⟩
      · exact h.revoked b hb hrevoked u hu huser
      · exact absurd (huser.trans (congrArg some hsame)) hother
    · have hid : u.id = identifier := Option.some.inj (huser.symm.trans haccount)
      rcases mem_update.mp hu with ⟨-, hdiffers⟩ | ⟨v, hv, hsame, rfl⟩
      · exact absurd hid hdiffers
      · unfold AccessRow.edited at hrevoked
        cases hvalue : values.isActive with
        | none =>
          rw [hvalue] at hrevoked
          exact h.revoked a ha hrevoked v hv huser
        | some active =>
          rw [hvalue] at hrevoked
          cases active with
          | true => exact absurd rfl hrevoked
          | false => rfl
  case attached =>
    intro b hb
    rw [haccess] at hb
    rw [hidentities]
    rcases mem_update.mp hb with ⟨hb, -⟩ | ⟨a, ha, -, rfl⟩
    · exact h.attached b hb
    · exact h.attached a ha
  case admitted =>
    intro i hi
    rw [hidentities] at hi
    obtain ⟨a, ha, hsubject⟩ := h.admitted i hi
    obtain ⟨b, hb, hsame⟩ := hsubjects a ha
    exact ⟨b, hb, hsame.trans hsubject⟩
  case identified =>
    intro y hy
    rw [hsessions] at hy
    rw [hidentities]
    rcases mem_update.mp hy with ⟨hy, -⟩ | ⟨x, hx, -, rfl⟩
    · exact h.identified y hy
    · exact h.identified x hx

/-- A subject has no identity exactly when it is unknown. -/
theorem identityOf_eq_none {s : Database} {subject : String}
    (h : s.1.identityOf subject = none) : ∀ i ∈ s.1.identities, i.subject ≠ subject := by
  intro i hi hsubject
  have hlookup : lookup (·.subject) s.1.identities subject = some i :=
    (lookup_eq_some s.2.credentials.identitiesKey).mpr ⟨hi, hsubject⟩
  obtain ⟨u, hu, hid⟩ := s.2.credentials.identitiesUser i hi
  have huser : lookup (·.id) s.1.users i.userId = some u :=
    (lookup_eq_some s.2.accounts.usersKey).mpr ⟨hu, hid⟩
  unfold Db.identityOf at h
  simp [hlookup, huser] at h

private theorem identityOf_eq_some {s : Db} {subject : String} {i : IdentityRow} {u : UserRow}
    (h : s.identityOf subject = some (i, u)) :
    (i ∈ s.identities ∧ i.subject = subject) ∧ u ∈ s.users ∧ u.id = i.userId := by
  unfold Db.identityOf at h
  cases hlookup : lookup (·.subject) s.identities subject with
  | none => simp [hlookup] at h
  | some found =>
    cases huser : lookup (·.id) s.users found.userId with
    | none => simp [hlookup, huser] at h
    | some user =>
      simp only [hlookup, huser, Option.bind_eq_bind, Option.bind_some, Option.pure_def,
        Option.some.injEq, Prod.mk.injEq] at h
      obtain ⟨rfl, rfl⟩ := h
      exact ⟨lookup_some hlookup, lookup_some huser⟩

/-- The first login of a subject: its admission is new, and so are its user and identity. -/
theorem Consistent.admitNew {s : Database} {t : Db} {login : GoogleLogin}
    {draw : LoginDraw} (h : Consistent subjectDigest s.1)
    (hfresh : ∀ i ∈ s.1.identities, subjectDigest i.subject = subjectDigest login.googleSubject →
      i.subject = login.googleSubject)
    (hunknown : ∀ i ∈ s.1.identities, i.subject ≠ login.googleSubject)
    (hopen : SessionOpened (subjectDigest login.googleSubject) login draw none s.1 t) :
    Consistent subjectDigest t := by
  obtain ⟨⟨named, hnamed, husers⟩, hidentities, hnew, admission, expiry, hfound, hgranted, hperiod,
    haccess, hsessions⟩ := hopen
  have hunused := hnew rfl
  have hnoAccess : ∀ a ∈ s.1.accountAccess, a.subjectHash ≠ subjectDigest login.googleSubject := by
    intro a ha hdigest
    obtain ⟨i, hi, hsubject, -⟩ := h.attached a ha
    exact hunknown i hi (hfresh i hi (hsubject.trans hdigest))
  cases admission with
  | found row =>
    obtain ⟨hrow, hdigest⟩ := hfound row rfl
    exact absurd hdigest (hnoAccess row hrow)
  | granted row =>
    obtain ⟨hdigest, hlive, -⟩ := hgranted row rfl
    have hattached : ∀ a ∈ s.1.accountAccess, a.userId ≠ some draw.userId := by
      intro a ha haccount
      obtain ⟨i, hi, -, huser⟩ := h.attached a ha
      obtain ⟨u, hu, hid⟩ := s.2.credentials.identitiesUser i hi
      have hid : u.id = i.userId := hid
      exact hunused u hu (hid.trans (Option.some.inj (huser.symm.trans haccount)))
    have hsessionUser : ∀ x ∈ s.1.sessions, x.userId ≠ draw.userId := by
      intro x hx hsame
      obtain ⟨u, hu, hid⟩ := s.2.credentials.sessionsUser x hx
      have hid : u.id = x.userId := hid
      exact hunused u hu (hid.trans hsame)
    have hmem : ∀ u ∈ t.users, (∃ v ∈ s.1.users, u.id = v.id ∧ u.isActive = v.isActive) ∨
        (u.id = draw.userId ∧ u.isActive = true) := by
      intro u hu
      rw [husers] at hu
      obtain ⟨v, hv, rfl⟩ := List.mem_map.mp hu
      obtain ⟨hid, hactive⟩ := hnamed v
      rcases List.mem_append.mp hv with hv | hv
      · exact .inl ⟨v, hv, hid, hactive⟩
      · obtain rfl := List.mem_singleton.mp hv
        exact .inr ⟨hid, hactive⟩
    constructor
    case bounded =>
      intro y hy
      rw [hsessions] at hy
      rw [haccess]
      rcases List.mem_append.mp hy with hy | hy
      · obtain ⟨a, ha, hrest⟩ := h.bounded y hy
        exact ⟨a, List.mem_append_left _ ha, hrest⟩
      · obtain rfl := List.mem_singleton.mp hy
        exact ⟨_, List.mem_append_right _ List.mem_cons_self, rfl, hperiod⟩
    case suspended =>
      intro y hy u hu hid hinactive
      rw [hsessions] at hy
      rcases List.mem_append.mp hy with hy | hy
      · rcases hmem u hu with ⟨v, hv, hsame, hstatus⟩ | ⟨hdrawn, hactive⟩
        · exact h.suspended y hy v hv (hsame.symm.trans hid) (hstatus.symm.trans hinactive)
        · exact absurd (hid.symm.trans hdrawn) (hsessionUser y hy)
      · obtain rfl := List.mem_singleton.mp hy
        rcases hmem u hu with ⟨v, hv, hsame, -⟩ | ⟨-, hactive⟩
        · exact absurd (hsame.symm.trans hid) (hunused v hv)
        · rw [hactive] at hinactive
          cases hinactive
    case revoked =>
      intro b hb hrevoked u hu huser
      rw [haccess] at hb
      rcases List.mem_append.mp hb with hb | hb
      · rcases hmem u hu with ⟨v, hv, hsame, hstatus⟩ | ⟨hdrawn, -⟩
        · rw [hstatus]
          exact h.revoked b hb hrevoked v hv (huser.trans (congrArg some hsame))
        · exact absurd (huser.trans (congrArg some hdrawn)) (hattached b hb)
      · obtain rfl := List.mem_singleton.mp hb
        exact absurd hlive hrevoked
    case attached =>
      intro b hb
      rw [haccess] at hb
      rw [hidentities]
      rcases List.mem_append.mp hb with hb | hb
      · obtain ⟨i, hi, hrest⟩ := h.attached b hb
        exact ⟨i, List.mem_append_left _ hi, hrest⟩
      · obtain rfl := List.mem_singleton.mp hb
        exact ⟨⟨login.googleSubject, draw.userId⟩,
          List.mem_append_right _ List.mem_cons_self, hdigest.symm, rfl⟩
    case admitted =>
      intro i hi
      rw [hidentities] at hi
      rw [haccess]
      rcases List.mem_append.mp hi with hi | hi
      · obtain ⟨a, ha, hrest⟩ := h.admitted i hi
        exact ⟨a, List.mem_append_left _ ha, hrest⟩
      · obtain rfl := List.mem_singleton.mp hi
        exact ⟨_, List.mem_append_right _ List.mem_cons_self, hdigest⟩
    case identified =>
      intro y hy
      rw [hsessions] at hy
      rw [hidentities]
      rcases List.mem_append.mp hy with hy | hy
      · obtain ⟨i, hi, hrest⟩ := h.identified y hy
        exact ⟨i, List.mem_append_left _ hi, hrest⟩
      · obtain rfl := List.mem_singleton.mp hy
        exact ⟨⟨login.googleSubject, draw.userId⟩,
          List.mem_append_right _ List.mem_cons_self, rfl⟩

/-- A later login of a subject: its admission is attached to the account already. -/
theorem Consistent.admitKnown {s : Database} {t : Db} {login : GoogleLogin}
    {draw : LoginDraw} {i : IdentityRow} {user : UserRow} (h : Consistent subjectDigest s.1)
    (hfresh : ∀ i ∈ s.1.identities, subjectDigest i.subject = subjectDigest login.googleSubject →
      i.subject = login.googleSubject)
    (hi : i ∈ s.1.identities ∧ i.subject = login.googleSubject)
    (hu : user ∈ s.1.users ∧ user.id = i.userId) (hactive : user.isActive = true)
    (hopen : SessionOpened (subjectDigest login.googleSubject) login draw (some (i, user)) s.1 t) :
    Consistent subjectDigest t := by
  obtain ⟨⟨named, hnamed, husers⟩, hidentities, -, admission, expiry, hfound, hgranted, hperiod,
    haccess, hsessions⟩ := hopen
  have hrows : ∀ a ∈ s.1.accountAccess, a.subjectHash = subjectDigest login.googleSubject →
      a.userId = some i.userId := by
    intro a ha hdigest
    obtain ⟨j, hj, hsubject, haccount⟩ := h.attached a ha
    have hsame : j.subject = i.subject :=
      (hfresh j hj (hsubject.trans hdigest)).trans hi.2.symm
    rw [haccount, s.2.credentials.identitiesKey.eq_of_mem hj hi.1 hsame]
  cases admission with
  | granted row =>
    obtain ⟨-, -, hunknown⟩ := hgranted row rfl
    obtain ⟨a, ha, hsubject⟩ := h.admitted i hi.1
    rw [hi.2] at hsubject
    exact absurd hsubject (hunknown a ha)
  | found row =>
    obtain ⟨hrow, hdigest⟩ := hfound row rfl
    have hkept : t.accountAccess = s.1.accountAccess := by
      rw [haccess]
      unfold Admission.attach update
      apply (List.map_congr_left fun a ha ↦ ?_).trans (List.map_id _)
      by_cases hsame : a.subjectHash = row.subjectHash
      · rw [if_pos hsame]
        have huser := hrows a ha (hsame.trans hdigest)
        exact congrArg (fun userId ↦ { a with userId := userId }) huser.symm
      · rw [if_neg hsame]
        rfl
    have hknown : t.identities = s.1.identities := by
      rw [hidentities]
      exact List.append_nil _
    have hmem : ∀ u ∈ t.users, ∃ v ∈ s.1.users, u.id = v.id ∧ u.isActive = v.isActive := by
      intro u hu
      rw [husers] at hu
      obtain ⟨v, hv, rfl⟩ := List.mem_map.mp hu
      rcases List.mem_append.mp hv with hv | hv
      · exact ⟨v, hv, hnamed v⟩
      · exact absurd hv List.not_mem_nil
    constructor
    case bounded =>
      intro y hy
      rw [hsessions] at hy
      rw [hkept]
      rcases List.mem_append.mp hy with hy | hy
      · exact h.bounded y hy
      · obtain rfl := List.mem_singleton.mp hy
        exact ⟨row, hrow, hrows row hrow hdigest, hperiod⟩
    case suspended =>
      intro y hy u hu' hid hinactive
      obtain ⟨v, hv, hsame, hstatus⟩ := hmem u hu'
      rw [hsessions] at hy
      rcases List.mem_append.mp hy with hy | hy
      · exact h.suspended y hy v hv (hsame.symm.trans hid) (hstatus.symm.trans hinactive)
      · obtain rfl := List.mem_singleton.mp hy
        have huser : v.id = user.id := hsame.symm.trans (hid.trans hu.2.symm)
        rw [s.2.accounts.usersKey.eq_of_mem hv hu.1 huser, hactive] at hstatus
        rw [hstatus] at hinactive
        cases hinactive
    case revoked =>
      intro b hb hrevoked u hu' huser
      obtain ⟨v, hv, hsame, hstatus⟩ := hmem u hu'
      rw [hkept] at hb
      rw [hstatus]
      exact h.revoked b hb hrevoked v hv (huser.trans (congrArg some hsame))
    case attached =>
      rw [hkept, hknown]
      exact h.attached
    case admitted =>
      rw [hkept, hknown]
      exact h.admitted
    case identified =>
      intro y hy
      rw [hsessions] at hy
      rw [hknown]
      rcases List.mem_append.mp hy with hy | hy
      · exact h.identified y hy
      · obtain rfl := List.mem_singleton.mp hy
        exact ⟨i, hi.1, rfl⟩

/-! ### Runs -/

/-- What an action does to sessions: they age, or one is opened with a token not drawn before. -/
structure Advances (s t : SessionStore) : Prop where
  now : s.now ≤ t.now
  drawn : ∀ token ∈ s.drawn, token ∈ t.drawn
  sessions : ∀ y ∈ t.db.1.sessions, (∃ x ∈ s.db.1.sessions, x.Aged y) ∨
    (y.tokenHash ∉ s.drawn ∧ y.tokenHash ∈ t.drawn)

/-- A login, under the guards of the system. -/
theorem login_kept {s : Database} {required : Bool} {login : GoogleLogin}
    {draw : LoginDraw} (h : Consistent subjectDigest s.1)
    (hfresh : ∀ i ∈ s.1.identities, subjectDigest i.subject = subjectDigest login.googleSubject →
      i.subject = login.googleSubject) :
    let t := (createGoogleSession subjectDigest required login draw).commit s
    Consistent subjectDigest t.1 ∧
      ∀ y ∈ t.1.sessions, (∃ x ∈ s.1.sessions, x.Aged y) ∨ y.tokenHash = login.tokenHash := by
  intro t
  rcases commit_cases (createGoogleSession subjectDigest required login draw) s with
    heq | ⟨issued, hyields⟩
  · have ht : t = s := heq
    rw [ht]
    exact ⟨h, fun y hy ↦ .inl (sessionsAged_refl _ y hy)⟩
  obtain ⟨v, hkept, hpruned, heq | ⟨hopen, hactive⟩⟩ := createGoogleSession_spec hyields
  all_goals
    have haged : SessionsAged s.1.sessions v.1.sessions :=
      fun y hy ↦ ⟨y, hpruned.subset hy, .refl y⟩
    have hv : Consistent subjectDigest v.1 := h.aged hkept haged
  · have ht : t = v := heq
    rw [ht]
    exact ⟨hv, fun y hy ↦ .inl (haged y hy)⟩
  · rw [← hkept.identities] at hfresh
    constructor
    · cases hidentity : v.1.identityOf login.googleSubject with
      | none =>
        rw [hidentity] at hopen
        exact hv.admitNew hfresh (identityOf_eq_none hidentity) hopen
      | some found =>
        obtain ⟨i, user⟩ := found
        obtain ⟨hi, hu⟩ := identityOf_eq_some hidentity
        rw [hidentity] at hopen
        exact hv.admitKnown hfresh hi hu (hactive (i, user) (Option.mem_def.mpr hidentity)) hopen
    · obtain ⟨admission, expiry, -, -, -, -, hsessions⟩ := hopen.access
      intro y hy
      rw [hsessions] at hy
      rcases List.mem_append.mp hy with hy | hy
      · exact .inl (haged y hy)
      · obtain rfl := List.mem_singleton.mp hy
        exact .inr rfl

private theorem aged_kept {s : SessionStore} {t : Database}
    (h : Consistent subjectDigest s.db.1) (hkept : OnlySessions s.db.1 t.1)
    (haged : SessionsAged s.db.1.sessions t.1.sessions) :
    Consistent subjectDigest t.1 ∧ Advances s { s with db := t } :=
  ⟨h.aged hkept haged, le_rfl, fun _ hx ↦ hx, fun y hy ↦ .inl (haged y hy)⟩

private theorem advances_refl (s : SessionStore) : Advances s s :=
  ⟨le_rfl, fun _ h ↦ h, fun y hy ↦ .inl (sessionsAged_refl _ y hy)⟩

/-- One action keeps the store consistent and only advances sessions. -/
theorem apply_kept {s : SessionStore} (h : Consistent subjectDigest s.db.1)
    (action : SessionAction) :
    Consistent subjectDigest (s.apply subjectDigest action).db.1 ∧
      Advances s (s.apply subjectDigest action) := by
  cases action with
  | tick elapsed =>
    have hlater : s.now ≤ s.now + elapsed := by omega
    exact ⟨h, hlater, fun _ hx ↦ hx, fun y hy ↦ .inl (sessionsAged_refl _ y hy)⟩
  | login required request draw =>
    simp only [apply]
    by_cases hfresh : FreshLogin subjectDigest s request
    · rw [if_pos hfresh]
      obtain ⟨hconsistent, hsessions⟩ :=
        @login_kept subjectDigest s.db required request draw h hfresh.2
      refine ⟨hconsistent, le_rfl, fun token ht ↦ List.mem_append_left _ ht, fun y hy ↦ ?_⟩
      rcases hsessions y hy with haged | htoken
      · exact .inl haged
      · rw [htoken]
        exact .inr ⟨hfresh.1, List.mem_append_right _ List.mem_cons_self⟩
    · rw [if_neg hfresh]
      exact ⟨h, advances_refl s⟩
  | revoke tokenHash now =>
    simp only [apply]
    rcases commit_cases (revokeSession tokenHash now) s.db with heq | ⟨u, hyields⟩
    · rw [heq]
      exact ⟨h, advances_refl s⟩
    · obtain ⟨hkept, haged⟩ := revokeSession_spec hyields
      exact aged_kept h hkept haged
  | revokeSessions sessionId userId now auditId =>
    simp only [apply]
    rcases commit_cases (Store.revokeSessions sessionId userId now auditId) s.db with
      heq | ⟨u, hyields⟩
    · rw [heq]
      exact ⟨h, advances_refl s⟩
    · obtain ⟨hkept, haged⟩ := revokeSessions_spec hyields
      exact aged_kept h hkept haged
  | updateUser identifier values now auditId =>
    simp only [apply]
    rcases commit_cases (Store.updateUser identifier values now auditId) s.db with
      heq | ⟨u, hyields⟩
    · rw [heq]
      exact ⟨h, advances_refl s⟩
    · have hedit := updateUser_spec hyields
      refine ⟨h.edited hedit, le_rfl, fun _ hx ↦ hx, fun y hy ↦ .inl ?_⟩
      have hy : y ∈ ((Store.updateUser identifier values now auditId).commit s.db).1.sessions := hy
      rw [hedit.sessions] at hy
      exact sessionsAged_update (fun x _ ↦ aged_edited values now x) y hy
  | outside db =>
    simp only [apply]
    by_cases hsame : OnlySessions s.db.1 db.1 ∧ db.1.sessions = s.db.1.sessions
    · rw [if_pos hsame]
      refine aged_kept h hsame.1 ?_
      rw [hsame.2]
      exact sessionsAged_refl _
    · rw [if_neg hsame]
      exact ⟨h, advances_refl s⟩

/-- Every session was opened with a token that was drawn. -/
def Drawn (s : SessionStore) : Prop := ∀ x ∈ s.db.1.sessions, x.tokenHash ∈ s.drawn

private theorem Drawn.advances {s t : SessionStore} (h : Drawn s) (hstep : Advances s t) :
    Drawn t := by
  intro y hy
  rcases hstep.sessions y hy with ⟨x, hx, haged⟩ | hnew
  · rw [haged.tokenHash]
    exact hstep.drawn _ (h x hx)
  · exact hnew.2

/-- A run keeps the store consistent. -/
theorem consistent_run (subjectDigest : String → Digest) (actions : List SessionAction) :
    Consistent subjectDigest (run (apply subjectDigest) start actions).db.1 ∧
      Drawn (run (apply subjectDigest) start actions) := by
  refine run_induction (P := fun s : SessionStore ↦ Consistent subjectDigest s.db.1 ∧ Drawn s)
    (fun s action h ↦ ?_) ⟨?_, fun _ h ↦ absurd h List.not_mem_nil⟩ actions
  · obtain ⟨hconsistent, hadvances⟩ := apply_kept h.1 action
    exact ⟨hconsistent, h.2.advances hadvances⟩
  · constructor <;> exact fun _ h ↦ absurd h List.not_mem_nil

/-- A token was drawn, and no session can be resolved with it. -/
def Ended (s : SessionStore) (token : Digest) : Prop :=
  token ∈ s.drawn ∧ ∀ x ∈ s.db.1.sessions, x.tokenHash = token →
    x.revokedAt ≠ none ∨ x.expiresAt ≤ s.now

private theorem Ended.advances {s t : SessionStore} {token : Digest} (h : Ended s token)
    (hstep : Advances s t) : Ended t token := by
  refine ⟨hstep.drawn token h.1, fun y hy htoken ↦ ?_⟩
  rcases hstep.sessions y hy with ⟨x, hx, haged⟩ | hnew
  · rcases h.2 x hx (haged.tokenHash.symm.trans htoken) with hrevoked | hexpired
    · exact .inl (haged.revokedAt hrevoked)
    · exact .inr ((haged.expiresAt.trans hexpired).trans hstep.now)
  · exact absurd (htoken ▸ h.1) hnew.1

private theorem resolve_eq_none_iff {s : SessionStore} (h : Consistent subjectDigest s.db.1)
    {required : Bool} {token : Digest} (hdrawn : token ∈ s.drawn) :
    s.resolve required token = none ↔ Ended s token := by
  rw [← Option.not_isSome_iff_eq_none]
  unfold resolve Ended
  rw [resolveSession_isSome_iff h]
  constructor
  · intro hnone
    refine ⟨hdrawn, fun x hx htoken ↦ ?_⟩
    by_cases hrevoked : x.revokedAt = none
    · right
      by_contra hlive
      exact hnone ⟨x, hx, htoken, hrevoked, not_le.mp hlive⟩
    · exact .inl hrevoked
  · rintro ⟨-, hended⟩ ⟨x, hx, htoken, hlive, hnow⟩
    rcases hended x hx htoken with hrevoked | hexpired
    · exact hrevoked hlive
    · exact absurd hnow (not_lt.mpr hexpired)

/-- A token that has ended stays so. -/
theorem ended_run {s : SessionStore} {token : Digest} (h : Consistent subjectDigest s.db.1)
    (hended : Ended s token) (actions : List SessionAction) :
    Consistent subjectDigest (run (apply subjectDigest) s actions).db.1 ∧
      Ended (run (apply subjectDigest) s actions) token := by
  refine run_induction (P := fun s : SessionStore ↦
    Consistent subjectDigest s.db.1 ∧ Ended s token) (fun s action hs ↦ ?_) ⟨h, hended⟩ actions
  obtain ⟨hconsistent, hadvances⟩ := apply_kept hs.1 action
  exact ⟨hconsistent, hs.2.advances hadvances⟩

/-- Nothing that happens lets the token resolve again. -/
def NeverResolves (subjectDigest : String → Digest) (s : SessionStore) (token : Digest) : Prop :=
  ∀ future required, (run (apply subjectDigest) s future).resolve required token = none

private theorem Ended.neverResolves {s : SessionStore} {token : Digest}
    (h : Consistent subjectDigest s.db.1) (hended : Ended s token) :
    NeverResolves subjectDigest s token := by
  intro future required
  obtain ⟨hafter, hstill⟩ := ended_run h hended future
  exact (resolve_eq_none_iff hafter hstill.1).mpr hstill

/-! ### Revocations and suspensions -/

/-- Revoking a session raises nothing and revokes it. -/
theorem revokeSession_revokes (s : Database) (tokenHash : Digest) (now : Int) :
    ∀ x ∈ ((revokeSession tokenHash now).commit s).1.sessions, x.tokenHash = tokenHash →
      x.revokedAt ≠ none := by
  have hcolumns {γ : Type} {col : SessionRow → γ}
      (h : ∀ x, col { x with revokedAt := some now } = col x) :
      (update (fun x ↦ x.tokenHash = tokenHash ∧ x.revokedAt = none)
        (fun x ↦ { x with revokedAt := some now }) s.1.sessions).map col =
          s.1.sessions.map col :=
    map_update_where fun x _ ↦ h x
  have hunique {γ : Type} {col : SessionRow → γ}
      (h : ∀ x, col { x with revokedAt := some now } = col x)
      (hs : Relational.Unique col s.1.sessions) : Relational.Unique col
        (update (fun x ↦ x.tokenHash = tokenHash ∧ x.revokedAt = none)
          (fun x ↦ { x with revokedAt := some now }) s.1.sessions) := by
    unfold Relational.Unique at hs ⊢
    rwa [hcolumns h]
  have hvalid : Constraints { s.1 with
      sessions := update (fun x ↦ x.tokenHash = tokenHash ∧ x.revokedAt = none)
        (fun x ↦ { x with revokedAt := some now }) s.1.sessions } :=
    { s.2 with
      credentials := { s.2.credentials with
        sessionsKey := hunique (fun _ ↦ rfl) s.2.credentials.sessionsKey
        sessionsUser := (refers_congr (hcolumns fun _ ↦ rfl) rfl).mpr
          s.2.credentials.sessionsUser
        token := hunique (fun _ ↦ rfl) s.2.credentials.token } }
  have hyields : Yields (revokeSession tokenHash now) s () ⟨_, hvalid⟩ := yields_statement.mpr rfl
  rw [commit_of_yields hyields]
  intro x hx htoken
  rcases mem_update.mp hx with ⟨-, hother⟩ | ⟨y, -, -, rfl⟩
  · exact fun hlive ↦ hother ⟨htoken, hlive⟩
  · exact Option.some_ne_none now

/-- A revocation by the management revokes the sessions of the user, or the one session. -/
theorem revokeSessions_revokes {sessionId userId : Option Uuid} {now : Int}
    {auditId : Uuid} {s t : Database}
    (h : Yields (Store.revokeSessions sessionId userId now auditId) s () t) {x : SessionRow}
    (hx : x ∈ t.1.sessions)
    (hmeant : userId = some x.userId ∨ (userId = none ∧ sessionId = some x.id)) :
    x.revokedAt ≠ none := by
  have hrevoked {p : SessionRow → Prop} [DecidablePred p]
      (hp : ∀ y : SessionRow, y.id = x.id → y.userId = x.userId → (p y ↔ y.revokedAt = none))
      (hmem : x ∈ update p (fun y ↦ { y with revokedAt := some now }) s.1.sessions) :
      x.revokedAt ≠ none := by
    rcases mem_update.mp hmem with ⟨-, hother⟩ | ⟨y, -, -, rfl⟩
    · exact fun hlive ↦ hother ((hp x rfl rfl).mpr hlive)
    · exact Option.some_ne_none now
  cases userId with
  | some identifier =>
    obtain rfl : identifier = x.userId := by simpa using hmeant
    simp only [Store.revokeSessions, revokeSessionsOf, yields_query_bind, ↓yields_require_bind,
      yields_seq, yields_statement] at h
    obtain ⟨-, v, hv, haudit⟩ := h
    rw [(appendAudit_spec haudit).2, ← hv] at hx
    exact hrevoked (fun y _ huser ↦ by simp [huser]) hx
  | none =>
    obtain rfl : sessionId = some x.id := by simpa using hmeant
    simp only [Store.revokeSessions, yields_query_bind, ↓yields_demand_bind, yields_seq,
      yields_statement] at h
    obtain ⟨target, htarget, v, hv, haudit⟩ := h
    have hid : target.id = x.id := (lookup_some htarget).2
    rw [(appendAudit_spec haudit).2, ← hv] at hx
    exact hrevoked (fun y hsame _ ↦ by simp [hsame, hid]) hx

/-! ### Access and sessions -/

/-- A session that resolves is live, and so are its account and the access. -/
theorem live_of_resolve {s : SessionStore} (h : Consistent subjectDigest s.db.1)
    {required : Bool} {token : Digest} {p : SessionPrincipal}
    (hresolve : s.resolve required token = some p) :
    ∃ x ∈ s.db.1.sessions, x.tokenHash = token ∧ x.userId = p.userId ∧ x.revokedAt = none ∧
      s.now < x.expiresAt ∧ (∃ u ∈ s.db.1.users, u.id = p.userId ∧ u.isActive = true) ∧
      s.db.1.AccessAllowed p.userId s.now := by
  obtain ⟨x, hx, htoken, hnow, hrevoked, huser, u, hu, hid, hactive⟩ :=
    exists_of_resolveSession hresolve
  rw [huser]
  refine ⟨x, hx, htoken, rfl, hrevoked, hnow, ⟨u, hu, hid, hactive⟩, ?_⟩
  obtain ⟨a, ha, haccount, hbound⟩ := h.bounded x hx
  refine ⟨a, ha, haccount, ?_, fun e he ↦ hnow.trans_le (hbound e he)⟩
  by_contra hended
  have hsuspended := h.revoked a ha hended u hu (haccount.trans (congrArg some hid.symm))
  rw [hactive] at hsuspended
  cases hsuspended

private theorem bounded_by_access {s : Database} (h : Consistent subjectDigest s.1)
    {x : SessionRow} (hx : x ∈ s.1.sessions) {a : AccessRow} (ha : a ∈ s.1.accountAccess)
    (haccount : a.userId = some x.userId) : ∀ e ∈ a.expiresAt, x.expiresAt ≤ e := by
  obtain ⟨b, hb, hsame, hbound⟩ := h.bounded x hx
  have heq : a = b := s.2.admissions.oneAccessPerUser.eq_of_mem ha
    (by rw [haccount]; exact Option.some_ne_none _) hb
    (by rw [hsame]; exact Option.some_ne_none _) (haccount.trans hsame.symm)
  rw [heq]
  exact hbound

/-- A token whose sessions are revoked has ended. -/
theorem Ended.of_revoked {s t : SessionStore} {token : Digest}
    (hdrawn : token ∈ s.drawn) (hstep : Advances s t)
    (hrevoked : ∀ y ∈ t.db.1.sessions, y.tokenHash = token → y.revokedAt ≠ none) :
    Ended t token :=
  ⟨hstep.drawn token hdrawn, fun y hy htoken ↦ .inl (hrevoked y hy htoken)⟩

/-- The sessions with the token of a session are that session, as it is later. -/
theorem same_session {s t : Database} (haged : SessionsAged s.1.sessions t.1.sessions)
    {x y : SessionRow} (hx : x ∈ s.1.sessions) (hy : y ∈ t.1.sessions)
    (htoken : y.tokenHash = x.tokenHash) : y.id = x.id ∧ y.userId = x.userId := by
  obtain ⟨z, hz, hage⟩ := haged y hy
  obtain rfl := s.2.credentials.token.eq_of_mem hz hx (hage.tokenHash.symm.trans htoken)
  exact ⟨hage.id, hage.userId⟩

/-- A session that is revoked, alone, with its user or because the user is suspended, never
resolves again. -/
theorem revoked_for_good {s : SessionStore} (h : Consistent subjectDigest s.db.1)
    {x : SessionRow} (hdrawn : x.tokenHash ∈ s.drawn) (hx : x ∈ s.db.1.sessions) :
    (∀ now, NeverResolves subjectDigest (s.apply subjectDigest (.revoke x.tokenHash now))
      x.tokenHash) ∧
    (∀ sessionId userId now auditId t,
      userId = some x.userId ∨ (userId = none ∧ sessionId = some x.id) →
      Yields (Store.revokeSessions sessionId userId now auditId) s.db () t →
      NeverResolves subjectDigest
        (s.apply subjectDigest (.revokeSessions sessionId userId now auditId)) x.tokenHash) ∧
    ∀ values now auditId t, values.isActive = some false →
      Yields (Store.updateUser x.userId values now auditId) s.db () t →
      NeverResolves subjectDigest
        (s.apply subjectDigest (.updateUser x.userId values now auditId)) x.tokenHash := by
  have hends (action : SessionAction)
      (hrevoked : ∀ y ∈ (s.apply subjectDigest action).db.1.sessions,
        y.tokenHash = x.tokenHash → y.revokedAt ≠ none) :
      NeverResolves subjectDigest (s.apply subjectDigest action) x.tokenHash := by
    obtain ⟨hafter, hstep⟩ := apply_kept h action
    exact Ended.neverResolves hafter (.of_revoked hdrawn hstep hrevoked)
  refine ⟨fun now ↦ hends _ (revokeSession_revokes s.db x.tokenHash now), ?_, ?_⟩
  · intro sessionId userId now auditId t hmeant hyields
    refine hends _ fun y hy htoken ↦ ?_
    simp only [apply, commit_of_yields hyields] at hy
    obtain ⟨hid, huser⟩ := same_session (revokeSessions_spec hyields).2 hx hy htoken
    exact revokeSessions_revokes hyields hy (by rwa [hid, huser])
  · intro values now auditId t hsuspends hyields
    refine hends _ fun y hy htoken ↦ ?_
    simp only [apply, commit_of_yields hyields] at hy
    have hedit := updateUser_spec hyields
    have haged : SessionsAged s.db.1.sessions t.1.sessions := by
      rw [hedit.sessions]
      exact sessionsAged_update fun z _ ↦ aged_edited values now z
    obtain ⟨-, huser⟩ := same_session haged hx hy htoken
    rw [hedit.sessions] at hy
    rcases mem_update.mp hy with ⟨-, hother⟩ | ⟨z, -, -, rfl⟩
    · exact absurd huser hother
    · unfold SessionRow.edited
      rw [if_pos hsuspends]
      cases z.revokedAt <;> exact Option.some_ne_none _

/-- No session outlives its account's access. In every state reached: a session resolves only while
the account is active and before both ends; no session ends after the access; setting the end of the
access cuts the sessions there at once; a session that is revoked, alone, with its user or because
the user is suspended, never resolves again; and a token that does not resolve never does again.
`src/jobtology_be/infrastructure/persistence/auth_store.py:104–175`,
`src/jobtology_be/infrastructure/persistence/management.py:162–218`,
`src/jobtology_be/infrastructure/persistence/admissions.py:41–115`. -/
theorem sessions_end_with_access (subjectDigest : String → Digest) (past : List SessionAction)
    (required : Bool) (token : Digest) :
    let s := run (apply subjectDigest) start past
    (∀ p, s.resolve required token = some p →
      ∃ x ∈ s.db.1.sessions, x.tokenHash = token ∧ x.userId = p.userId ∧ x.revokedAt = none ∧
        s.now < x.expiresAt ∧ (∃ u ∈ s.db.1.users, u.id = p.userId ∧ u.isActive = true) ∧
        s.db.1.AccessAllowed p.userId s.now) ∧
    (∀ x ∈ s.db.1.sessions, ∀ a ∈ s.db.1.accountAccess, a.userId = some x.userId →
      ∀ e ∈ a.expiresAt, x.expiresAt ≤ e) ∧
    (∀ identifier values now auditId e t, values.accessExpiresAt = some (some e) →
      Yields (Store.updateUser identifier values now auditId) s.db () t →
      ∀ x ∈ t.1.sessions, x.userId = identifier → x.expiresAt ≤ e) ∧
    (∀ x ∈ s.db.1.sessions, x.tokenHash ∈ s.drawn) ∧
    (∀ x ∈ s.db.1.sessions,
      (∀ now, NeverResolves subjectDigest (s.apply subjectDigest (.revoke x.tokenHash now))
        x.tokenHash) ∧
      (∀ sessionId userId now auditId t,
        userId = some x.userId ∨ (userId = none ∧ sessionId = some x.id) →
        Yields (Store.revokeSessions sessionId userId now auditId) s.db () t →
        NeverResolves subjectDigest
          (s.apply subjectDigest (.revokeSessions sessionId userId now auditId)) x.tokenHash) ∧
      ∀ values now auditId t, values.isActive = some false →
        Yields (Store.updateUser x.userId values now auditId) s.db () t →
        NeverResolves subjectDigest
          (s.apply subjectDigest (.updateUser x.userId values now auditId)) x.tokenHash) ∧
    (token ∈ s.drawn → s.resolve required token = none →
      NeverResolves subjectDigest s token) := by
  intro s
  obtain ⟨hconsistent, hdrawn⟩ := consistent_run subjectDigest past
  refine ⟨fun p hp ↦ live_of_resolve hconsistent hp,
    fun x hx a ha huser ↦ bounded_by_access hconsistent hx ha huser, ?_, hdrawn,
    fun x hx ↦ ?_, ?_⟩
  · intro identifier values now auditId e t hvalue hyields x hx huser
    rw [(updateUser_spec hyields).sessions] at hx
    rcases mem_update.mp hx with ⟨-, hother⟩ | ⟨y, -, -, rfl⟩
    · exact absurd huser hother
    · unfold SessionRow.edited
      rw [hvalue]
      exact min_le_right _ _
  · exact revoked_for_good hconsistent (hdrawn x hx) hx
  · intro hknown hnone
    exact Ended.neverResolves hconsistent ((resolve_eq_none_iff hconsistent hknown).mp hnone)

end SessionStore

end Jobtology.Store
