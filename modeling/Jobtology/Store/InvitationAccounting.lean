import Jobtology.Relational.Runs
import Jobtology.Store.Accounts
import Jobtology.Store.Admissions

/-!
# Invitation accounting

The uses that invitations count and the admissions that they granted, over runs of logins,
account deletions and management edits with any other work in between.
-/

namespace Jobtology.Store

open Jobtology.Base Jobtology.Relational
open Jobtology.Relational.Transaction

instance (s t : Database) : Decidable (LedgerKept s t) :=
  inferInstanceAs (Decidable (_ ∧ _))

/-- A transaction on accounts and invitations. `outside` is any other transaction: it reaches a
state with the same invitations and admissions. -/
inductive LedgerAction
  | login (invitationRequired : Bool) (request : GoogleLogin) (draw : LoginDraw)
  | createInvitation (identifier : Uuid) (codeHash : Digest) (values : InvitationCreate)
      (auditId : Uuid)
  | updateInvitation (identifier : Uuid) (values : InvitationUpdate) (auditId : Uuid)
  | revokeInvitation (identifier : Uuid) (now : Int) (auditId : Uuid)
  | updateUser (identifier : Uuid) (values : UserUpdate) (now : Int) (auditId : Uuid)
  | deleteAccount (userId : Uuid)
  | outside (reached : Database)

namespace LedgerAction

/-- The state after an action. -/
def apply (subjectDigest : String → Digest) (s : Database) : LedgerAction → Database
  | login required request draw =>
    (createGoogleSession subjectDigest required request draw).commit s
  | createInvitation identifier codeHash values auditId =>
    (Store.createInvitation identifier codeHash values auditId).commit s
  | updateInvitation identifier values auditId =>
    (Store.updateInvitation identifier values auditId).commit s
  | revokeInvitation identifier now auditId =>
    (Store.revokeInvitation identifier now auditId).commit s
  | updateUser identifier values now auditId =>
    (Store.updateUser identifier values now auditId).commit s
  | deleteAccount userId => (Store.deleteAccount userId).commit s
  | outside reached => if LedgerKept s reached then reached else s

/-- The action is a login of the Google subject. -/
def isLoginOf (subject : String) : LedgerAction → Prop
  | login _ request _ => request.googleSubject = subject
  | _ => False

instance (subject : String) : DecidablePred (isLoginOf subject) := fun a ↦ by
  unfold isLoginOf
  split <;> infer_instance

/-- The action does not set the end of the admission's period. -/
def KeepsPeriodOf (digest : Digest) (s : Database) : LedgerAction → Prop
  | updateUser identifier values _ _ => values.accessExpiresAt ≠ none →
    ∀ a ∈ s.1.accountAccess, a.subjectHash = digest → a.userId ≠ some identifier
  | _ => True

end LedgerAction

/-- The number of admissions that an invitation granted. -/
def Db.admissionsBy (db : Db) (invitationId : Uuid) : Nat :=
  db.accountAccess.countP (·.invitationId = some invitationId)

/-- The uses counted by all invitations. -/
def Db.uses (db : Db) : Int := (db.invitations.map (·.useCount)).sum

/-- Every invitation counts the admissions it granted, and no more than it allows. -/
structure Accounted (db : Db) : Prop where
  counted : ∀ i ∈ db.invitations, i.useCount = db.admissionsBy i.id
  bounded : ∀ i ∈ db.invitations, ∀ n ∈ i.maxUses, i.useCount ≤ n

/-- The same admission: of one subject, granted by one invitation at one time. -/
structure AccessRow.SameGrant (a b : AccessRow) : Prop where
  subjectHash : b.subjectHash = a.subjectHash
  invitationId : b.invitationId = a.invitationId
  source : b.source = a.source
  grantedAt : b.grantedAt = a.grantedAt

/-- An admission has its own grant. -/
theorem AccessRow.SameGrant.refl (a : AccessRow) : a.SameGrant a := ⟨rfl, rfl, rfl, rfl⟩

/-- Grants that are the same twice are the same. -/
theorem AccessRow.SameGrant.trans {a b c : AccessRow} (hab : a.SameGrant b)
    (hbc : b.SameGrant c) : a.SameGrant c :=
  ⟨hbc.1.trans hab.1, hbc.2.trans hab.2, hbc.3.trans hab.3, hbc.4.trans hab.4⟩

/-! ### One action -/

/-- Deleting an account clears the account of its admission. -/
theorem deleteAccount_ledger {userId : Uuid} {s t : Database} {u : Unit}
    (h : Yields (deleteAccount userId) s u t) :
    t.1.invitations = s.1.invitations ∧ (t.1.accountAccess = s.1.accountAccess ∨
      t.1.accountAccess = update (·.userId = some userId) (fun a ↦ { a with userId := none })
        s.1.accountAccess) := by
  rcases deleteAccount_spec h with ⟨-, rfl⟩ | h
  · exact ⟨rfl, .inl rfl⟩
  · rw [h]
    exact ⟨rfl, .inr rfl⟩

/-- What one action writes to the ledger. -/
inductive LedgerStep (subjectDigest : String → Digest) (s t : Db) : LedgerAction → Prop
  | kept (a : LedgerAction) (invitations : t.invitations = s.invitations)
      (access : t.accountAccess = s.accountAccess) : LedgerStep subjectDigest s t a
  | login (required : Bool) (request : GoogleLogin) (draw : LoginDraw)
      (effect : LedgerLogin (subjectDigest request.googleSubject) s t) :
      LedgerStep subjectDigest s t (.login required request draw)
  | created (identifier auditId : Uuid) (codeHash : Digest) (values : InvitationCreate)
      (access : t.accountAccess = s.accountAccess)
      (invitations : t.invitations = s.invitations ++
        [⟨identifier, codeHash, values.expiresAt, values.accessHours, values.maxUses, 0, none⟩]) :
      LedgerStep subjectDigest s t (.createInvitation identifier codeHash values auditId)
  | edited (identifier auditId : Uuid) (values : InvitationUpdate)
      (access : t.accountAccess = s.accountAccess)
      (invitations : t.invitations = update (·.id = identifier) (·.edited values) s.invitations)
      (allowed : ∃ i ∈ s.invitations, i.id = identifier ∧
        ∀ n ∈ (i.edited values).maxUses, i.useCount ≤ n) :
      LedgerStep subjectDigest s t (.updateInvitation identifier values auditId)
  | revoked (identifier auditId : Uuid) (now : Int) (access : t.accountAccess = s.accountAccess)
      (invitations : t.invitations = update (·.id = identifier)
        (fun i ↦ { i with revokedAt := i.revokedAt.or (some now) }) s.invitations) :
      LedgerStep subjectDigest s t (.revokeInvitation identifier now auditId)
  | access (identifier auditId : Uuid) (values : UserUpdate) (now : Int)
      (invitations : t.invitations = s.invitations)
      (access : t.accountAccess =
        update (·.userId = some identifier) (·.edited values now) s.accountAccess) :
      LedgerStep subjectDigest s t (.updateUser identifier values now auditId)
  | deleted (userId : Uuid) (invitations : t.invitations = s.invitations)
      (access : t.accountAccess = update (·.userId = some userId)
        (fun a ↦ { a with userId := none }) s.accountAccess) :
      LedgerStep subjectDigest s t (.deleteAccount userId)

variable {subjectDigest : String → Digest}

/-- A transaction that fails writes nothing. -/
theorem ledgerStep_commit {α : Type} {x : Txn α} {s : Database} {action : LedgerAction}
    (h : ∀ a t, Yields x s a t → LedgerStep subjectDigest s.1 t.1 action) :
    LedgerStep subjectDigest s.1 (x.commit s).1 action := by
  rcases commit_cases x s with heq | ⟨a, hyields⟩
  · rw [heq]
    exact .kept action rfl rfl
  · exact h a _ hyields

private theorem ledgerStep_apply (subjectDigest : String → Digest) (s : Database)
    (action : LedgerAction) :
    LedgerStep subjectDigest s.1 (action.apply subjectDigest s).1 action := by
  cases action with
  | login required request draw =>
    unfold LedgerAction.apply
    exact ledgerStep_commit fun _ _ h ↦ .login _ _ _ (createGoogleSession_ledger h)
  | createInvitation identifier codeHash values auditId =>
    unfold LedgerAction.apply
    refine ledgerStep_commit fun _ _ h ↦ ?_
    obtain ⟨haccess, hinvitations⟩ := createInvitation_ledger h
    exact .created _ _ _ _ haccess hinvitations
  | updateInvitation identifier values auditId =>
    unfold LedgerAction.apply
    refine ledgerStep_commit fun _ _ h ↦ ?_
    obtain ⟨haccess, hinvitations, hallowed⟩ := updateInvitation_ledger h
    exact .edited _ _ _ haccess hinvitations hallowed
  | revokeInvitation identifier now auditId =>
    unfold LedgerAction.apply
    refine ledgerStep_commit fun _ _ h ↦ ?_
    obtain ⟨haccess, hinvitations⟩ := revokeInvitation_ledger h
    exact .revoked _ _ _ haccess hinvitations
  | updateUser identifier values now auditId =>
    unfold LedgerAction.apply
    refine ledgerStep_commit fun _ _ h ↦ ?_
    obtain ⟨hinvitations, hkept | haccess⟩ := updateUser_ledger h
    · exact .kept _ hinvitations hkept
    · exact .access _ _ _ _ hinvitations haccess
  | deleteAccount userId =>
    unfold LedgerAction.apply
    refine ledgerStep_commit fun _ _ h ↦ ?_
    obtain ⟨hinvitations, hkept | haccess⟩ := deleteAccount_ledger h
    · exact .kept _ hinvitations hkept
    · exact .deleted _ hinvitations haccess
  | outside reached =>
    simp only [LedgerAction.apply]
    by_cases hkept : LedgerKept s reached
    · rw [if_pos hkept]
      exact .kept _ hkept.1 hkept.2
    · rw [if_neg hkept]
      exact .kept _ rfl rfl

/-! ### Counting admissions -/

private theorem admissionsBy_eq_count (db : Db) (id : Uuid) :
    db.admissionsBy id = (db.accountAccess.map (·.invitationId)).count (some id) := by
  unfold Db.admissionsBy
  rw [List.count, List.countP_map]
  exact List.countP_congr fun a _ ↦ by simp

/-- Admissions count the same when their invitations stay. -/
theorem admissionsBy_congr {s t : Db}
    (h : t.accountAccess.map (·.invitationId) = s.accountAccess.map (·.invitationId))
    (id : Uuid) : t.admissionsBy id = s.admissionsBy id := by
  rw [admissionsBy_eq_count, admissionsBy_eq_count, h]

private theorem admissionsBy_append {s t : Db} {row : AccessRow}
    (h : t.accountAccess = s.accountAccess ++ [row]) (id : Uuid) :
    t.admissionsBy id = s.admissionsBy id + if row.invitationId = some id then 1 else 0 := by
  unfold Db.admissionsBy
  rw [h, List.countP_append, List.countP_singleton]
  simp

/-- Accounting looks at the counts and limits of invitations and at what granted admissions. -/
theorem Accounted.of_same {s t : Db} (h : Accounted s)
    (hinvitations : ∀ i ∈ t.invitations, ∃ i₀ ∈ s.invitations,
      i.id = i₀.id ∧ i.useCount = i₀.useCount ∧ i.maxUses = i₀.maxUses)
    (haccess : t.accountAccess.map (·.invitationId) = s.accountAccess.map (·.invitationId)) :
    Accounted t where
  counted i hi := by
    obtain ⟨i₀, hi₀, hid, hcount, -⟩ := hinvitations i hi
    rw [hcount, hid, h.counted i₀ hi₀, admissionsBy_congr haccess]
  bounded i hi n hn := by
    obtain ⟨i₀, hi₀, -, hcount, hmax⟩ := hinvitations i hi
    rw [hcount]
    exact h.bounded i₀ hi₀ n (hmax ▸ hn)

private theorem Accounted.login {digest : Digest} {s t : Database} (h : Accounted s.1)
    (hstep : LedgerLogin digest s.1 t.1) : Accounted t.1 := by
  cases hstep with
  | none hinvitations haccess =>
    exact h.of_same (fun i hi ↦ ⟨i, hinvitations ▸ hi, rfl, rfl, rfl⟩) (by rw [haccess])
  | attached userId known hinvitations haccess =>
    refine h.of_same (fun i hi ↦ ⟨i, hinvitations ▸ hi, rfl, rfl, rfl⟩) ?_
    rw [haccess]
    exact map_update fun _ ↦ rfl
  | legacy row unknown subject invitation hinvitations haccess =>
    constructor
    case counted =>
      intro i hi
      rw [admissionsBy_append haccess, invitation, h.counted i (hinvitations ▸ hi)]
      simp
    case bounded =>
      intro i hi
      exact h.bounded i (hinvitations ▸ hi)
  | redeemed code row now unknown subject invitation found redeemable hinvitations haccess =>
    have hunique := s.2.admissions.invitationsKey
    constructor
    case counted =>
      intro i hi
      rw [hinvitations] at hi
      rw [admissionsBy_append haccess, invitation]
      rcases mem_update.mp hi with ⟨hi, hne⟩ | ⟨j, hj, hid, rfl⟩
      · rw [if_neg fun he ↦ hne (Option.some.inj he).symm, h.counted i hi]
        omega
      · have hcount := h.counted j hj
        rw [if_pos (congrArg some hid.symm)]
        dsimp only
        omega
    case bounded =>
      intro i hi n hn
      rw [hinvitations] at hi
      rcases mem_update.mp hi with ⟨hi, -⟩ | ⟨j, hj, hid, rfl⟩
      · exact h.bounded i hi n hn
      · obtain rfl := hunique.eq_of_mem hj found hid
        have hlt := redeemable.2.2 n hn
        dsimp only
        omega

/-- A new invitation granted nothing: admissions name stored invitations only. -/
theorem Accounted.created {s t : Database} (h : Accounted s.1) {code : InvitationRow}
    (hzero : code.useCount = 0) (haccess : t.1.accountAccess = s.1.accountAccess)
    (hinvitations : t.1.invitations = s.1.invitations ++ [code]) : Accounted t.1 where
  counted i hi := by
    have hsame := admissionsBy_congr (congrArg (List.map (·.invitationId)) haccess)
    rw [hinvitations] at hi
    rw [hsame]
    rcases List.mem_append.mp hi with hi | hi
    · exact h.counted i hi
    · obtain rfl := List.mem_singleton.mp hi
      have hkey := t.2.admissions.invitationsKey
      rw [hinvitations, unique_append_singleton] at hkey
      have hnone : s.1.admissionsBy i.id = 0 := by
        refine List.countP_eq_zero.mpr fun a ha ↦ ?_
        simp only [decide_eq_true_eq]
        intro hgrant
        obtain ⟨j, hj, hid⟩ := s.2.admissions.accessInvitation a ha i.id hgrant
        exact hkey.2 j hj hid
      rw [hzero, hnone]
      rfl
  bounded i hi n hn := by
    have hpos := t.2.admissions.maxUses i hi n hn
    rw [hinvitations] at hi
    rcases List.mem_append.mp hi with hi | hi
    · exact h.bounded i hi n hn
    · obtain rfl := List.mem_singleton.mp hi
      omega

private theorem Accounted.edited {s t : Database} (h : Accounted s.1) {identifier : Uuid}
    {values : InvitationUpdate} (haccess : t.1.accountAccess = s.1.accountAccess)
    (hinvitations : t.1.invitations =
      update (·.id = identifier) (·.edited values) s.1.invitations)
    (hallowed : ∃ i ∈ s.1.invitations, i.id = identifier ∧
      ∀ n ∈ (i.edited values).maxUses, i.useCount ≤ n) : Accounted t.1 where
  counted i hi := by
    have hsame := admissionsBy_congr (congrArg (List.map (·.invitationId)) haccess)
    rw [hinvitations] at hi
    rw [hsame]
    rcases mem_update.mp hi with ⟨hi, -⟩ | ⟨j, hj, -, rfl⟩
    · exact h.counted i hi
    · exact h.counted j hj
  bounded i hi n hn := by
    rw [hinvitations] at hi
    rcases mem_update.mp hi with ⟨hi, -⟩ | ⟨j, hj, hid, rfl⟩
    · exact h.bounded i hi n hn
    · obtain ⟨k, hk, hkid, hmax⟩ := hallowed
      obtain rfl := s.2.admissions.invitationsKey.eq_of_mem hj hk (hid.trans hkid.symm)
      exact hmax n hn

/-- Every action keeps the accounts. -/
theorem Accounted.apply {s : Database} (h : Accounted s.1) (action : LedgerAction) :
    Accounted (action.apply subjectDigest s).1 := by
  have hstep := ledgerStep_apply subjectDigest s action
  generalize action.apply subjectDigest s = t at hstep
  cases hstep with
  | kept _ hinvitations haccess =>
    exact h.of_same (fun i hi ↦ ⟨i, hinvitations ▸ hi, rfl, rfl, rfl⟩) (by rw [haccess])
  | login required request draw effect => exact h.login effect
  | created identifier auditId codeHash values haccess hinvitations =>
    exact h.created rfl haccess hinvitations
  | edited identifier auditId values haccess hinvitations hallowed =>
    exact h.edited haccess hinvitations hallowed
  | revoked identifier auditId now haccess hinvitations =>
    refine h.of_same (fun i hi ↦ ?_) (by rw [haccess])
    rw [hinvitations] at hi
    rcases mem_update.mp hi with ⟨hi, -⟩ | ⟨j, hj, -, rfl⟩
    · exact ⟨i, hi, rfl, rfl, rfl⟩
    · exact ⟨j, hj, rfl, rfl, rfl⟩
  | access identifier auditId values now hinvitations haccess =>
    refine h.of_same (fun i hi ↦ ⟨i, hinvitations ▸ hi, rfl, rfl, rfl⟩) ?_
    rw [haccess]
    exact map_update fun _ ↦ rfl
  | deleted userId hinvitations haccess =>
    refine h.of_same (fun i hi ↦ ⟨i, hinvitations ▸ hi, rfl, rfl, rfl⟩) ?_
    rw [haccess]
    exact map_update fun _ ↦ rfl

/-! ### The life of an admission -/

/-- Every admission stays, and with the end of its period unless the action sets it. -/
theorem apply_sameGrant (subjectDigest : String → Digest) (s : Database)
    (action : LedgerAction) {a : AccessRow}
    (ha : a ∈ s.1.accountAccess) :
    ∃ b ∈ (action.apply subjectDigest s).1.accountAccess, a.SameGrant b ∧
      (action.KeepsPeriodOf a.subjectHash s → b.expiresAt = a.expiresAt) := by
  have hstep := ledgerStep_apply subjectDigest s action
  have hself {rows : List AccessRow} (h : a ∈ rows) : ∃ b ∈ rows, a.SameGrant b ∧
      (action.KeepsPeriodOf a.subjectHash s → b.expiresAt = a.expiresAt) :=
    ⟨a, h, .refl a, fun _ ↦ rfl⟩
  have hupdate {p : AccessRow → Prop} [DecidablePred p] {f : AccessRow → AccessRow}
      (hsame : a.SameGrant (f a))
      (hperiod : p a → action.KeepsPeriodOf a.subjectHash s → (f a).expiresAt = a.expiresAt) :
      ∃ b ∈ update p f s.1.accountAccess, a.SameGrant b ∧
        (action.KeepsPeriodOf a.subjectHash s → b.expiresAt = a.expiresAt) := by
    by_cases hp : p a
    · exact ⟨f a, mem_update.mpr (.inr ⟨a, ha, hp, rfl⟩), hsame, hperiod hp⟩
    · exact hself (mem_update.mpr (.inl ⟨ha, hp⟩))
  generalize action.apply subjectDigest s = t at hstep
  cases hstep with
  | kept _ hinvitations haccess => exact hself (haccess ▸ ha)
  | login required request draw effect =>
    cases effect with
    | none hinvitations haccess => exact hself (haccess ▸ ha)
    | attached userId known hinvitations haccess =>
      rw [haccess]
      exact hupdate ⟨rfl, rfl, rfl, rfl⟩ fun _ _ ↦ rfl
    | legacy row unknown subject invitation hinvitations haccess =>
      exact hself (haccess ▸ List.mem_append_left _ ha)
    | redeemed code row now unknown subject invitation found redeemable hinvitations haccess =>
      exact hself (haccess ▸ List.mem_append_left _ ha)
  | created identifier auditId codeHash values haccess hinvitations =>
    exact hself (haccess ▸ ha)
  | edited identifier auditId values haccess hinvitations hallowed => exact hself (haccess ▸ ha)
  | revoked identifier auditId now haccess hinvitations => exact hself (haccess ▸ ha)
  | access identifier auditId values now hinvitations haccess =>
    rw [haccess]
    refine hupdate ⟨rfl, rfl, rfl, rfl⟩ fun hp hkeeps ↦ ?_
    have hunset : values.accessExpiresAt = none := by
      by_contra hset
      exact hkeeps hset a ha rfl hp
    simp [AccessRow.edited, hunset]
  | deleted userId hinvitations haccess =>
    rw [haccess]
    exact hupdate ⟨rfl, rfl, rfl, rfl⟩ fun _ _ ↦ rfl

/-- No action takes a use back. -/
theorem apply_useCount (subjectDigest : String → Digest) (s : Database)
    (action : LedgerAction) {i : InvitationRow}
    (hi : i ∈ s.1.invitations) :
    ∃ j ∈ (action.apply subjectDigest s).1.invitations, j.id = i.id ∧
      i.useCount ≤ j.useCount := by
  have hstep := ledgerStep_apply subjectDigest s action
  have hupdate {p : InvitationRow → Prop} [DecidablePred p] {f : InvitationRow → InvitationRow}
      (hid : (f i).id = i.id) (hcount : i.useCount ≤ (f i).useCount) :
      ∃ j ∈ update p f s.1.invitations, j.id = i.id ∧ i.useCount ≤ j.useCount := by
    by_cases hp : p i
    · exact ⟨f i, mem_update.mpr (.inr ⟨i, hi, hp, rfl⟩), hid, hcount⟩
    · exact ⟨i, mem_update.mpr (.inl ⟨hi, hp⟩), rfl, le_refl _⟩
  generalize action.apply subjectDigest s = t at hstep
  cases hstep with
  | kept _ hinvitations haccess => exact ⟨i, hinvitations ▸ hi, rfl, le_refl _⟩
  | login required request draw effect =>
    cases effect with
    | none hinvitations haccess => exact ⟨i, hinvitations ▸ hi, rfl, le_refl _⟩
    | attached userId known hinvitations haccess => exact ⟨i, hinvitations ▸ hi, rfl, le_refl _⟩
    | legacy row unknown subject invitation hinvitations haccess =>
      exact ⟨i, hinvitations ▸ hi, rfl, le_refl _⟩
    | redeemed code row now unknown subject invitation found redeemable hinvitations haccess =>
      rw [hinvitations]
      exact hupdate rfl (by dsimp only; omega)
  | created identifier auditId codeHash values haccess hinvitations =>
    exact ⟨i, hinvitations ▸ List.mem_append_left _ hi, rfl, le_refl _⟩
  | edited identifier auditId values haccess hinvitations hallowed =>
    rw [hinvitations]
    exact hupdate rfl (le_refl _)
  | revoked identifier auditId now haccess hinvitations =>
    rw [hinvitations]
    exact hupdate rfl (le_refl _)
  | access identifier auditId values now hinvitations haccess =>
    exact ⟨i, hinvitations ▸ hi, rfl, le_refl _⟩
  | deleted userId hinvitations haccess => exact ⟨i, hinvitations ▸ hi, rfl, le_refl _⟩

/-! ### The uses of one subject -/

/-- The uses that the logins of a subject consume in a run. -/
def usesOf (subjectDigest : String → Digest) (subject : String) :
    Database → List LedgerAction → Int
  | _, [] => 0
  | s, action :: rest =>
    let t := action.apply subjectDigest s
    (if action.isLoginOf subject then t.1.uses - s.1.uses else 0) +
      usesOf subjectDigest subject t rest

/-- The subject has an admission. -/
def Db.admits (db : Db) (digest : Digest) : Prop :=
  ∃ a ∈ db.accountAccess, a.subjectHash = digest

private theorem admits_apply {s : Database} {digest : Digest} (h : s.1.admits digest)
    (action : LedgerAction) : (action.apply subjectDigest s).1.admits digest := by
  obtain ⟨a, ha, hdigest⟩ := h
  obtain ⟨b, hb, hsame, -⟩ := apply_sameGrant subjectDigest s action ha
  exact ⟨b, hb, hsame.subjectHash.trans hdigest⟩

/-- A login consumes nothing, or it is the subject's first admission and consumes one use. -/
theorem login_uses {digest : Digest} {s t : Database} (h : LedgerLogin digest s.1 t.1) :
    t.1.uses = s.1.uses ∨
      (¬ s.1.admits digest ∧ t.1.admits digest ∧ t.1.uses = s.1.uses + 1) := by
  cases h with
  | none hinvitations haccess => exact .inl (by rw [Db.uses, Db.uses, hinvitations])
  | attached userId known hinvitations haccess =>
    exact .inl (by rw [Db.uses, Db.uses, hinvitations])
  | legacy row unknown subject invitation hinvitations haccess =>
    exact .inl (by rw [Db.uses, Db.uses, hinvitations])
  | redeemed code row now unknown subject invitation found redeemable hinvitations haccess =>
    refine .inr ⟨fun ⟨a, ha, hdigest⟩ ↦ unknown a ha hdigest, ⟨row, ?_, subject⟩, ?_⟩
    · rw [haccess]
      exact List.mem_append_right _ List.mem_cons_self
    · unfold Db.uses
      rw [hinvitations, sum_map_update s.2.admissions.invitationsKey (·.useCount) found]
      dsimp only
      omega

private theorem apply_uses (subjectDigest : String → Digest) {subject : String} (s : Database)
    (action : LedgerAction)
    (hlogin : action.isLoginOf subject) :
    (action.apply subjectDigest s).1.uses = s.1.uses ∨
      (¬ s.1.admits (subjectDigest subject) ∧
        (action.apply subjectDigest s).1.admits (subjectDigest subject) ∧
        (action.apply subjectDigest s).1.uses = s.1.uses + 1) := by
  have hstep := ledgerStep_apply subjectDigest s action
  cases action with
  | login required request draw =>
    have hsubject : request.googleSubject = subject := hlogin
    rw [← hsubject]
    cases hstep with
    | kept _ hinvitations haccess => exact .inl (by rw [Db.uses, Db.uses, hinvitations])
    | login _ _ _ effect => exact login_uses effect
  | _ => exact absurd hlogin id

/-- A subject that is admitted consumes no further use. -/
theorem usesOf_admitted {subject : String} {s : Database}
    (h : s.1.admits (subjectDigest subject)) (actions : List LedgerAction) :
    usesOf subjectDigest subject s actions = 0 := by
  induction actions generalizing s with
  | nil => rfl
  | cons action rest ih =>
    simp only [usesOf]
    rw [ih (admits_apply h action)]
    by_cases hlogin : action.isLoginOf subject
    · rcases apply_uses subjectDigest s action hlogin with hsame | ⟨hnew, -, -⟩
      · rw [if_pos hlogin, hsame]
        omega
      · exact absurd h hnew
    · rw [if_neg hlogin]
      rfl

/-- A subject consumes at most one use in any run. -/
theorem usesOf_le_one (subject : String) (s : Database) (actions : List LedgerAction) :
    usesOf subjectDigest subject s actions ≤ 1 := by
  induction actions generalizing s with
  | nil => exact Int.one_nonneg
  | cons action rest ih =>
    simp only [usesOf]
    by_cases hlogin : action.isLoginOf subject
    · rw [if_pos hlogin]
      rcases apply_uses subjectDigest s action hlogin with
        hsame | ⟨-, hadmits, huses⟩
      · have hrest := ih (action.apply subjectDigest s)
        omega
      · have hrest := usesOf_admitted hadmits rest
        omega
    · rw [if_neg hlogin]
      have hrest := ih (action.apply subjectDigest s)
      omega

/-! ### Runs -/

/-- The state that a run from the empty database reaches. -/
def ledgerAfter (subjectDigest : String → Digest) (actions : List LedgerAction) : Database :=
  run (LedgerAction.apply subjectDigest) Database.empty actions

/-- In every run, invitations count the admissions they granted and no more than they allow; a
subject consumes at most one use of any invitation over its whole life; from any point of the run
on, an admission keeps what granted it and, unless management sets it, the end of its period,
whatever happens to its account; and no use is taken back.
`src/jobtology_be/infrastructure/persistence/admissions.py:41–115`,
`src/jobtology_be/infrastructure/persistence/management.py:71–218`,
`src/jobtology_be/infrastructure/persistence/accounts.py:15–63`,
`src/jobtology_be/infrastructure/persistence/auth_store.py:104–152`. -/
theorem invitations_accounted (subjectDigest : String → Digest)
    (before after : List LedgerAction) :
    (∀ i ∈ (ledgerAfter subjectDigest (before ++ after)).1.invitations,
      i.useCount = (ledgerAfter subjectDigest (before ++ after)).1.admissionsBy i.id ∧
        ∀ n ∈ i.maxUses, i.useCount ≤ n) ∧
    (∀ subject, usesOf subjectDigest subject Database.empty (before ++ after) ≤ 1) ∧
    (∀ a ∈ (ledgerAfter subjectDigest before).1.accountAccess,
      ∃ b ∈ (ledgerAfter subjectDigest (before ++ after)).1.accountAccess, a.SameGrant b ∧
        (Along (LedgerAction.apply subjectDigest)
            (fun s action ↦ action.KeepsPeriodOf a.subjectHash s)
            (ledgerAfter subjectDigest before) after →
          b.expiresAt = a.expiresAt)) ∧
    ∀ i ∈ (ledgerAfter subjectDigest before).1.invitations,
      ∃ j ∈ (ledgerAfter subjectDigest (before ++ after)).1.invitations,
        j.id = i.id ∧ i.useCount ≤ j.useCount := by
  have hempty : Accounted Database.empty.1 :=
    ⟨fun i hi ↦ absurd hi List.not_mem_nil, fun i hi ↦ absurd hi List.not_mem_nil⟩
  have haccounted : Accounted (ledgerAfter subjectDigest (before ++ after)).1 :=
    run_induction (P := fun s : Database ↦ Accounted s.1) (fun _ a h ↦ h.apply a) hempty _
  refine ⟨fun i hi ↦ ⟨haccounted.counted i hi, haccounted.bounded i hi⟩,
    fun subject ↦ usesOf_le_one subject _ _, ?_⟩
  clear haccounted hempty
  unfold ledgerAfter
  rw [run_append]
  generalize run (LedgerAction.apply subjectDigest) Database.empty before = s
  constructor
  · induction after generalizing s with
    | nil => exact fun a ha ↦ ⟨a, ha, .refl a, fun _ ↦ rfl⟩
    | cons action rest ih =>
      intro a ha
      obtain ⟨b, hb, hsame, hperiod⟩ := apply_sameGrant subjectDigest s action ha
      obtain ⟨c, hc, hsame', hperiod'⟩ := ih (action.apply subjectDigest s) b hb
      refine ⟨c, hc, hsame.trans hsame', fun halong ↦ ?_⟩
      rw [hperiod' (hsame.subjectHash ▸ halong.2), hperiod halong.1]
  · induction after generalizing s with
    | nil => exact fun i hi ↦ ⟨i, hi, rfl, le_refl _⟩
    | cons action rest ih =>
      intro i hi
      obtain ⟨j, hj, hid, hle⟩ := apply_useCount subjectDigest s action hi
      obtain ⟨k, hk, hid', hle'⟩ := ih (action.apply subjectDigest s) j hj
      exact ⟨k, hk, hid'.trans hid, hle.trans hle'⟩

end Jobtology.Store
