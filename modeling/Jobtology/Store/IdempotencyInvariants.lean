import Jobtology.Store.Idempotency

/-!
# Records and transactions of idempotent mutations

What every interleaving of `execute_idempotency` transactions keeps: a key is inserted by one
transaction at a time, and not while it has a record; what a transaction deleted, no other one
deletes or writes. `Change` says what each event does and replies.
-/

namespace Jobtology.Store

open Jobtology.Base Jobtology.Relational

variable {σ : Type}

/-- What holds between the records and the transactions in progress. -/
structure Mutations.Consistent (s : Mutations σ) : Prop where
  ids : Unique (·.id) s.attempts
  keys : Unique (·.recordKey) s.records
  deletedFound : ∀ a ∈ s.attempts, ∀ key ∈ a.deleted,
    ∃ r ∈ s.records, r.recordKey = key ∧ r.response ≠ none
  deletedOnce : ∀ a ∈ s.attempts, ∀ b ∈ s.attempts, ∀ key ∈ a.deleted, key ∈ b.deleted →
    a.id = b.id
  insertedOnce : ∀ a ∈ s.attempts, ∀ b ∈ s.attempts, a.Inserted → b.Inserted →
    a.request.recordKey = b.request.recordKey → a.id = b.id
  insertedFree : ∀ a ∈ s.attempts, a.Inserted → ∀ r ∈ s.records,
    r.recordKey = a.request.recordKey → r.recordKey ∈ a.deleted

namespace Mutations

variable {s : Mutations σ}

/-- The store is consistent before its first attempt. -/
theorem consistent_initial (data : σ) : (initial data).Consistent := by
  constructor <;> simp [initial, Relational.Unique]

/-! ### Rules for the changes that events are made of -/

@[simp] private theorem advance_records (s : Mutations σ) (a : Attempt σ) :
    (s.advance a).records = s.records := rfl

@[simp] private theorem advance_data (s : Mutations σ) (a : Attempt σ) :
    (s.advance a).data = s.data := rfl

@[simp] private theorem close_records (s : Mutations σ) (id : Nat) :
    (s.close id).records = s.records := rfl

@[simp] private theorem close_data (s : Mutations σ) (id : Nat) : (s.close id).data = s.data := rfl

/-- An attempt that advances replaces itself. -/
theorem mem_advance {a b : Attempt σ} (h : b ∈ (s.advance a).attempts) :
    b = a ∨ (b ∈ s.attempts ∧ b.id ≠ a.id) := by
  rcases mem_update.mp h with ⟨hb, hne⟩ | ⟨-, -, -, rfl⟩
  · exact .inr ⟨hb, hne⟩
  · exact .inl rfl

/-- An attempt that is closed is gone. -/
theorem mem_close {id : Nat} {b : Attempt σ} :
    b ∈ (s.close id).attempts ↔ b ∈ s.attempts ∧ b.id ≠ id := by
  simp [close]

/-- The records that are left have other keys. -/
theorem mem_without {keys : List RecordKey} {r : IdempotencyRow} :
    r ∈ s.without keys ↔ r ∈ s.records ∧ r.recordKey ∉ keys := by
  simp [without]

/-- A transaction goes on with new locks that others do not have, and with an insert only of a key
that others have not inserted and that has no record but one it deleted. -/
theorem Consistent.advance (h : s.Consistent) {a : Attempt σ}
    (hfound : ∀ key ∈ a.deleted, ∃ r ∈ s.records, r.recordKey = key ∧ r.response ≠ none)
    (hdeleted : ∀ key ∈ a.deleted, ¬ s.Locked a.id key)
    (hheld : a.Inserted → ¬ s.Held a.id a.request.recordKey)
    (hfree : a.Inserted → ∀ r ∈ s.records, r.recordKey = a.request.recordKey →
      r.recordKey ∈ a.deleted) : (s.advance a).Consistent where
  ids := (unique_update_where fun _ hid ↦ hid.symm).mpr h.ids
  keys := h.keys
  deletedFound b hb := by
    rcases mem_advance hb with rfl | ⟨hb, -⟩
    · exact hfound
    · exact h.deletedFound b hb
  deletedOnce b hb c hc key hbkey hckey := by
    rcases mem_advance hb with rfl | ⟨hb', hbne⟩
    · rcases mem_advance hc with rfl | ⟨hc', hcne⟩
      · rfl
      · exact absurd ⟨c, hc', hcne, hckey⟩ (hdeleted key hbkey)
    · rcases mem_advance hc with rfl | ⟨hc', -⟩
      · exact absurd ⟨b, hb', hbne, hbkey⟩ (hdeleted key hckey)
      · exact h.deletedOnce b hb' c hc' key hbkey hckey
  insertedOnce b hb c hc hbi hci hkey := by
    rcases mem_advance hb with rfl | ⟨hb', hbne⟩
    · rcases mem_advance hc with rfl | ⟨hc', hcne⟩
      · rfl
      · exact absurd ⟨c, hc', hcne, hci, hkey.symm⟩ (hheld hbi)
    · rcases mem_advance hc with rfl | ⟨hc', -⟩
      · exact absurd ⟨b, hb', hbne, hbi, hkey⟩ (hheld hci)
      · exact h.insertedOnce b hb' c hc' hbi hci hkey
  insertedFree b hb hbi := by
    rcases mem_advance hb with rfl | ⟨hb, -⟩
    · exact hfree hbi
    · exact h.insertedFree b hb hbi

/-- A transaction ends and takes back what it did. -/
theorem Consistent.close (h : s.Consistent) (id : Nat) : (s.close id).Consistent where
  ids := h.ids.sublist List.filter_sublist
  keys := h.keys
  deletedFound a ha := h.deletedFound a (mem_close.mp ha).1
  deletedOnce a ha b hb := h.deletedOnce a (mem_close.mp ha).1 b (mem_close.mp hb).1
  insertedOnce a ha b hb := h.insertedOnce a (mem_close.mp ha).1 b (mem_close.mp hb).1
  insertedFree a ha := h.insertedFree a (mem_close.mp ha).1

/-- Records go that no transaction in progress deleted. -/
theorem Consistent.without (h : s.Consistent) {keys : List RecordKey}
    (hkeys : ∀ a ∈ s.attempts, ∀ key ∈ a.deleted, key ∉ keys) :
    Consistent { s with records := s.without keys } where
  ids := h.ids
  keys := h.keys.sublist List.filter_sublist
  deletedFound a ha key hkey := by
    obtain ⟨r, hr, hrkey, hresponse⟩ := h.deletedFound a ha key hkey
    exact ⟨r, mem_without.mpr ⟨hr, hrkey ▸ hkeys a ha key hkey⟩, hrkey, hresponse⟩
  deletedOnce := h.deletedOnce
  insertedOnce := h.insertedOnce
  insertedFree a ha hi r hr := h.insertedFree a ha hi r (mem_without.mp hr).1

/-- A transaction commits its deletions. -/
theorem Consistent.commitDeleted (h : s.Consistent) {a : Attempt σ} (ha : a ∈ s.attempts) :
    Consistent { s.close a.id with records := s.without a.deleted } :=
  (h.close a.id).without fun b hb key hkey hmem ↦
    (mem_close.mp hb).2 (h.deletedOnce b (mem_close.mp hb).1 a ha key hkey hmem)

/-- A transaction commits with the record of its key. -/
theorem Consistent.commitRecord (h : s.Consistent) {a : Attempt σ} (ha : a ∈ s.attempts)
    (hinserted : a.Inserted) (response : ResponseDocument) (data : σ) :
    Consistent { s.close a.id with
      records := s.without a.deleted ++ [a.record response]
      data := data } where
  ids := (h.close a.id).ids
  keys := by
    refine unique_append_singleton.mpr ⟨(h.commitDeleted ha).keys, fun r hr hkey ↦ ?_⟩
    obtain ⟨hr, hdeleted⟩ := mem_without.mp hr
    exact hdeleted (h.insertedFree a ha hinserted r hr hkey)
  deletedFound b hb key hkey := by
    obtain ⟨r, hr, hrkey⟩ := (h.commitDeleted ha).deletedFound b hb key hkey
    exact ⟨r, List.mem_append_left _ hr, hrkey⟩
  deletedOnce := (h.close a.id).deletedOnce
  insertedOnce := (h.close a.id).insertedOnce
  insertedFree b hb hi r hr hkey := by
    rcases List.mem_append.mp hr with hr | hr
    · exact (h.commitDeleted ha).insertedFree b hb hi r hr hkey
    · obtain rfl := List.mem_singleton.mp hr
      obtain ⟨hb, hne⟩ := mem_close.mp hb
      exact absurd (h.insertedOnce b hb a ha hi hinserted hkey.symm) hne

/-! ### Every event -/

/-- What can be pruned has expired, and nobody has deleted it yet. -/
theorem prunable_found {now : Int} {skipped : List RecordKey} {key : RecordKey}
    (h : key ∈ s.prunable now skipped) :
    (∃ r ∈ s.records, r.recordKey = key ∧ Expired r now) ∧
      ∀ a ∈ s.attempts, key ∉ a.deleted := by
  obtain ⟨r, hr, rfl⟩ := List.mem_map.mp h
  have hmem := (List.perm_insertionSort _ _).mem_iff.mp (List.mem_of_mem_take hr)
  simp only [List.mem_filter, decide_eq_true_eq] at hmem
  exact ⟨⟨r, hmem.1, rfl, hmem.2.1⟩, hmem.2.2.2⟩

/-- The record of a key is one of the records. -/
theorem record_found {key : RecordKey} {r : IdempotencyRow} (h : s.record key = some r) :
    r ∈ s.records ∧ r.recordKey = key :=
  lookup_some h

private theorem record_none {key : RecordKey} (h : s.record key = none) :
    ∀ r ∈ s.records, r.recordKey ≠ key :=
  lookup_eq_none.mp h

private theorem Consistent.pruneExpired (h : s.Consistent) (a : Attempt σ) (now : Int)
    (skipped : List RecordKey) : (s.pruneExpired a now skipped).Consistent := by
  unfold Mutations.pruneExpired
  split
  · refine h.advance (fun key hkey ↦ ?_) (fun key hkey ⟨b, hb, _, hbkey⟩ ↦ ?_) False.elim
      False.elim
    · obtain ⟨⟨r, hr, hrkey, hexpired⟩, -⟩ := prunable_found hkey
      exact ⟨r, hr, hrkey, hexpired.1⟩
    · exact (prunable_found hkey).2 b hb hbkey
  · exact h

/-- What a transaction deleted is not locked by another. -/
theorem Consistent.not_locked (h : s.Consistent) {a : Attempt σ} (ha : a ∈ s.attempts) {key}
    (hkey : key ∈ a.deleted) : ¬ s.Locked a.id key :=
  fun ⟨b, hb, hne, hbkey⟩ ↦ hne (h.deletedOnce b hb a ha key hbkey hkey)

private theorem Consistent.deleteOwn (h : s.Consistent) {a : Attempt σ} (ha : a ∈ s.attempts)
    (now : Int) : (s.deleteOwn a now).Consistent := by
  unfold Mutations.deleteOwn
  split
  · by_cases hlocked : s.Locked a.id a.request.recordKey
    · rw [if_pos hlocked]
      exact h
    · rw [if_neg hlocked]
      split
      next hexpired =>
        obtain ⟨r, hr, hexpired⟩ := hexpired
        obtain ⟨hmem, hrkey⟩ := record_found hr
        refine h.advance (fun key hkey ↦ ?_) (fun key hkey ↦ ?_) False.elim False.elim
        · rcases List.mem_cons.mp hkey with rfl | hkey
          · exact ⟨r, hmem, hrkey, hexpired.1⟩
          · exact h.deletedFound a ha key hkey
        · rcases List.mem_cons.mp hkey with rfl | hkey
          · exact hlocked
          · exact h.not_locked ha hkey
      next =>
        exact h.advance (h.deletedFound a ha) (fun _ hkey ↦ h.not_locked ha hkey) False.elim
          False.elim
  · exact h

private theorem Consistent.insertRecord (h : s.Consistent) {a : Attempt σ} (ha : a ∈ s.attempts) :
    (s.insertRecord a).Consistent := by
  unfold Mutations.insertRecord
  split
  · split
    next => exact h
    next hfree =>
      obtain ⟨-, hheld⟩ := not_or.mp hfree
      split
      next =>
        exact h.advance (h.deletedFound a ha) (fun _ hkey ↦ h.not_locked ha hkey) False.elim
          False.elim
      next hvacant =>
        refine h.advance (h.deletedFound a ha) (fun _ hkey ↦ h.not_locked ha hkey)
          (fun _ ↦ hheld) (fun _ r hr hkey ↦ ?_)
        rw [hkey]
        by_contra hkept
        exact hvacant ⟨fun hnone ↦ record_none hnone r hr hkey, hkept⟩
  · exact h

private theorem Consistent.replayRecord (h : s.Consistent) {a : Attempt σ} (ha : a ∈ s.attempts) :
    (s.replayRecord a).Consistent := by
  unfold Mutations.replayRecord
  split
  · exact h.commitDeleted ha
  · exact h.close a.id
  · exact h

private theorem Consistent.executeOperation (h : s.Consistent) {a : Attempt σ}
    (ha : a ∈ s.attempts) (outcome : Option (ResponseDocument × (σ → σ))) :
    (s.executeOperation a outcome).Consistent := by
  unfold Mutations.executeOperation
  split
  next response effect hphase =>
    have hinserted : a.Inserted := by
      unfold Attempt.Inserted
      rw [hphase]
      trivial
    refine h.advance (h.deletedFound a ha) (fun _ hkey ↦ h.not_locked ha hkey) (fun _ ↦ ?_)
      (fun _ ↦ h.insertedFree a ha hinserted)
    rintro ⟨b, hb, hne, hbi, hkey⟩
    exact hne (h.insertedOnce b hb a ha hbi hinserted hkey)
  next => exact h.close a.id
  next => exact h

private theorem Consistent.completeRecord (h : s.Consistent) {a : Attempt σ}
    (ha : a ∈ s.attempts) : (s.completeRecord a).Consistent := by
  unfold Mutations.completeRecord
  split
  next response effect hphase =>
    refine h.commitRecord ha ?_ response _
    unfold Attempt.Inserted
    rw [hphase]
    trivial
  next => exact h

private theorem act_induction {P : Mutations σ → Prop} {id : Nat} {f : Attempt σ → Mutations σ}
    (hs : P s) (hf : ∀ a ∈ s.attempts, a.id = id → P (f a)) : P (s.act id f) := by
  unfold act
  cases hfound : lookup (·.id) s.attempts id with
  | none => exact hs
  | some a => exact hf a (lookup_some hfound).1 (lookup_some hfound).2

private theorem Consistent.start (h : s.Consistent) (id : Nat) (request : IdempotencyAcquire)
    (responseStatus : Int) : (s.apply (.start id request responseStatus)).Consistent := by
  simp only [Mutations.apply]
  split
  next => exact h
  next hfresh =>
    have hnew : ∀ a ∈ s.attempts, a.id ≠ id :=
      lookup_eq_none.mp (Option.not_isSome_iff_eq_none.mp hfresh)
    have hold {a : Attempt σ} (ha : a ∈ s.attempts ++ [⟨id, request, responseStatus, .opened, []⟩])
        (hne : a.deleted ≠ [] ∨ a.Inserted) : a ∈ s.attempts := by
      rcases List.mem_append.mp ha with ha | ha
      · exact ha
      · obtain rfl := List.mem_singleton.mp ha
        exact absurd hne (not_or.mpr ⟨fun hdeleted ↦ hdeleted rfl, False.elim⟩)
    constructor
    case ids => exact unique_append_singleton.mpr ⟨h.ids, hnew⟩
    case keys => exact h.keys
    case deletedFound =>
      intro a ha key hkey
      exact h.deletedFound a (hold ha (.inl (List.ne_nil_of_mem hkey))) key hkey
    case deletedOnce =>
      intro a ha b hb key hakey hbkey
      exact h.deletedOnce a (hold ha (.inl (List.ne_nil_of_mem hakey))) b
        (hold hb (.inl (List.ne_nil_of_mem hbkey))) key hakey hbkey
    case insertedOnce =>
      intro a ha b hb hai hbi hkey
      exact h.insertedOnce a (hold ha (.inr hai)) b (hold hb (.inr hbi)) hai hbi hkey
    case insertedFree =>
      intro a ha hi
      exact h.insertedFree a (hold ha (.inr hi)) hi

/-- Other transactions leave alone what transactions in progress inserted or deleted. -/
theorem Consistent.outside (h : s.Consistent) (records : List IdempotencyRow) (data : σ) :
    (s.apply (.outside records data)).Consistent := by
  simp only [Mutations.apply]
  split
  next hleaves =>
    obtain ⟨hkeys, hnew, hkept⟩ := hleaves
    refine ⟨h.ids, hkeys, fun a ha key hkey ↦ ?_, h.deletedOnce, h.insertedOnce,
      fun a ha hi r hr hkey ↦ ?_⟩
    · obtain ⟨r, hr, rfl, hresponse⟩ := h.deletedFound a ha key hkey
      exact ⟨r, hkept r hr ⟨a, ha, hkey⟩, rfl, hresponse⟩
    · rcases hnew r hr with hold | hfree
      · exact h.insertedFree a ha hi r hold hkey
      · exact absurd hkey.symm ((hfree a ha).2 hi)
  next => exact h

/-- Every event keeps records and transactions consistent. -/
theorem Consistent.apply (h : s.Consistent) (event : MutationEvent σ) :
    (s.apply event).Consistent := by
  cases event with
  | start id request responseStatus => exact h.start id request responseStatus
  | prune id now skipped => exact act_induction h fun a _ _ ↦ h.pruneExpired a now skipped
  | deleteExpired id now => exact act_induction h fun a ha _ ↦ h.deleteOwn ha now
  | insert id => exact act_induction h fun a ha _ ↦ h.insertRecord ha
  | replay id => exact act_induction h fun a ha _ ↦ h.replayRecord ha
  | execute id outcome => exact act_induction h fun a ha _ ↦ h.executeOperation ha outcome
  | complete id => exact act_induction h fun a ha _ ↦ h.completeRecord ha
  | abort id => exact h.close id
  | cleanup now skipped =>
    exact h.without fun a ha key hkey hmem ↦ (prunable_found hmem).2 a ha hkey
  | outside records data => exact h.outside records data

/-! ### Replies -/

/-- A successful reply: the response, with the key and the hash of the request it goes to. -/
structure Reply where
  recordKey : RecordKey
  requestHash : String
  response : Int × ResponseDocument
  deriving DecidableEq

/-- A reply to the request of a transaction. -/
def replyTo (a : Attempt σ) (response : Int × ResponseDocument) : Reply :=
  ⟨a.request.recordKey, a.request.requestHash, response⟩

/-- The successful reply that a transaction gives when it reads a record. -/
def replayReply (s : Mutations σ) (a : Attempt σ) : Option Reply :=
  match a.phase with
  | .reading => (s.answer a).map (replyTo a)
  | _ => none

/-- The successful reply that a transaction gives when it completes. -/
def completeReply (a : Attempt σ) : Option Reply :=
  match a.phase with
  | .executed response _ => some (replyTo a (a.responseStatus, response))
  | _ => none

/-- The successful reply of an event. -/
def reply (s : Mutations σ) : MutationEvent σ → Option Reply
  | .replay id => (lookup (·.id) s.attempts id).bind s.replayReply
  | .complete id => (lookup (·.id) s.attempts id).bind completeReply
  | _ => none

/-- The clock that an event reads to find expired records. -/
def clock : MutationEvent σ → Option Int
  | .prune _ now _ => some now
  | .deleteExpired _ now => some now
  | .cleanup now _ => some now
  | _ => none

/-- The transaction that an event is a step of. -/
def actor : MutationEvent σ → Option Nat
  | .start id _ _ => some id
  | .prune id _ _ => some id
  | .deleteExpired id _ => some id
  | .insert id => some id
  | .replay id => some id
  | .execute id _ => some id
  | .complete id => some id
  | .abort id => some id
  | .cleanup _ _ => none
  | .outside _ _ => none

/-- What an event does, with its successful reply. -/
inductive Change (s : Mutations σ) : MutationEvent σ → Option Reply → Mutations σ → Prop
  | idle (event : MutationEvent σ) : Change s event none s
  | started (id : Nat) (request : IdempotencyAcquire) (responseStatus : Int) :
      Change s (.start id request responseStatus) none
        { s with attempts := s.attempts ++ [⟨id, request, responseStatus, .opened, []⟩] }
  | moved (event : MutationEvent σ) (a : Attempt σ) (step : actor event = some a.id)
      (deleted : ∀ key ∈ a.deleted, (∃ b ∈ s.attempts, key ∈ b.deleted) ∨
        ∃ r ∈ s.records, r.recordKey = key ∧ ∃ now ∈ clock event, Expired r now) :
      Change s event none (s.advance a)
  | closed (event : MutationEvent σ) (id : Nat) (step : actor event = some id) :
      Change s event none (s.close id)
  | replayed (a : Attempt σ) (response : Int × ResponseDocument) (found : a ∈ s.attempts)
      (answered : s.answer a = some response) :
      Change s (.replay a.id) (some (replyTo a response))
        { s.close a.id with records := s.without a.deleted }
  | completed (a : Attempt σ) (response : ResponseDocument) (data : σ) (found : a ∈ s.attempts)
      (inserted : a.Inserted) :
      Change s (.complete a.id) (some (replyTo a (a.responseStatus, response)))
        { s.close a.id with records := s.without a.deleted ++ [a.record response], data := data }
  | cleaned (now : Int) (skipped : List RecordKey) : Change s (.cleanup now skipped) none
      { s with records := s.without (s.prunable now skipped) }
  | left (records : List IdempotencyRow) (data : σ) :
      Change s (.outside records data) none { s with records, data }

private theorem change_pruneExpired (a : Attempt σ) (now : Int) (skipped : List RecordKey) :
    Change s (.prune a.id now skipped) none (s.pruneExpired a now skipped) := by
  unfold pruneExpired
  split
  · refine .moved _ _ rfl fun key hkey ↦ .inr ?_
    obtain ⟨⟨r, hr, hrkey, hexpired⟩, -⟩ := prunable_found hkey
    exact ⟨r, hr, hrkey, now, rfl, hexpired⟩
  · exact .idle _

private theorem change_deleteOwn {a : Attempt σ} (ha : a ∈ s.attempts) (now : Int) :
    Change s (.deleteExpired a.id now) none (s.deleteOwn a now) := by
  unfold deleteOwn
  split
  · split
    next => exact .idle _
    next =>
      split
      next hexpired =>
        refine .moved _ _ rfl fun key hkey ↦ ?_
        rcases List.mem_cons.mp hkey with rfl | hkey
        · obtain ⟨r, hr, hexpired⟩ := hexpired
          obtain ⟨hmem, hrkey⟩ := record_found hr
          exact .inr ⟨r, hmem, hrkey, now, rfl, hexpired⟩
        · exact .inl ⟨a, ha, hkey⟩
      next => exact .moved _ _ rfl fun key hkey ↦ .inl ⟨a, ha, hkey⟩
  · exact .idle _

private theorem change_insertRecord {a : Attempt σ} (ha : a ∈ s.attempts) :
    Change s (.insert a.id) none (s.insertRecord a) := by
  unfold insertRecord
  split
  · split
    next => exact .idle _
    next =>
      split
      next => exact .moved _ _ rfl fun key hkey ↦ .inl ⟨a, ha, hkey⟩
      next => exact .moved _ _ rfl fun key hkey ↦ .inl ⟨a, ha, hkey⟩
  · exact .idle _

private theorem change_replayRecord {a : Attempt σ} (ha : a ∈ s.attempts) :
    Change s (.replay a.id) (s.replayReply a) (s.replayRecord a) := by
  unfold replayRecord replayReply
  cases hphase : a.phase with
  | reading =>
    cases hanswer : s.answer a with
    | none => exact .closed _ a.id rfl
    | some response => exact .replayed a response ha hanswer
  | _ => exact .idle _

private theorem change_executeOperation {a : Attempt σ} (ha : a ∈ s.attempts)
    (outcome : Option (ResponseDocument × (σ → σ))) :
    Change s (.execute a.id outcome) none (s.executeOperation a outcome) := by
  unfold executeOperation
  split
  next => exact .moved _ _ rfl fun key hkey ↦ .inl ⟨a, ha, hkey⟩
  next => exact .closed _ a.id rfl
  next => exact .idle _

private theorem change_completeRecord {a : Attempt σ} (ha : a ∈ s.attempts) :
    Change s (.complete a.id) (completeReply a) (s.completeRecord a) := by
  unfold completeRecord completeReply
  cases hphase : a.phase with
  | executed response effect =>
    refine .completed a response _ ha ?_
    unfold Attempt.Inserted
    rw [hphase]
    trivial
  | _ => exact .idle _

/-- Every event is one of the changes, with its reply. -/
theorem apply_change (s : Mutations σ) (event : MutationEvent σ) :
    Change s event (s.reply event) (s.apply event) := by
  have hact (id : Nat) (f : Attempt σ → Mutations σ) (g : Attempt σ → Option Reply)
      (hidle : Change s event none s)
      (hf : ∀ a ∈ s.attempts, a.id = id → Change s event (g a) (f a)) :
      Change s event ((lookup (·.id) s.attempts id).bind g) (s.act id f) := by
    unfold act
    cases hfound : lookup (·.id) s.attempts id with
    | none => exact hidle
    | some a => exact hf a (lookup_some hfound).1 (lookup_some hfound).2
  have hsilent (id : Nat) (f : Attempt σ → Mutations σ)
      (hf : ∀ a ∈ s.attempts, a.id = id → Change s event none (f a)) :
      Change s event none (s.act id f) :=
    act_induction (.idle event) hf
  cases event with
  | start id request responseStatus =>
    simp only [apply]
    split
    · exact .idle _
    · exact .started _ _ _
  | prune id now skipped => exact hsilent id _ fun a _ hid ↦ hid ▸ change_pruneExpired a now skipped
  | deleteExpired id now => exact hsilent id _ fun a ha hid ↦ hid ▸ change_deleteOwn ha now
  | insert id => exact hsilent id _ fun a ha hid ↦ hid ▸ change_insertRecord ha
  | replay id => exact hact id _ _ (.idle _) fun a ha hid ↦ hid ▸ change_replayRecord ha
  | execute id outcome => exact hsilent id _ fun a ha hid ↦
    hid ▸ change_executeOperation ha outcome
  | complete id => exact hact id _ _ (.idle _) fun a ha hid ↦ hid ▸ change_completeRecord ha
  | abort id => exact .closed _ id rfl
  | cleanup now skipped => exact .cleaned now skipped
  | outside records data =>
    simp only [apply]
    split
    · exact .left records data
    · exact .idle _

end Mutations

end Jobtology.Store
