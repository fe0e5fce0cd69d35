import Jobtology.Store.IdempotencyInvariants

/-!
# Idempotent mutations take effect once

The replies and commits of one key over its lifetime: from a state without a record of the key,
as long as every clock that looks for expired records reads a time before the record's expiry.
-/

namespace Jobtology.Store

open Jobtology.Base Jobtology.Relational

variable {σ : Type}

namespace Mutations

variable {s t : Mutations σ} {key : RecordKey}

/-- The event falls in the lifetime of the key: clocks read times before the expiry of its record,
and other transactions keep it as it is. -/
def InLifetime (key : RecordKey) (s : Mutations σ) (event : MutationEvent σ) : Prop :=
  (∀ now ∈ clock event, ∀ r ∈ s.records, r.recordKey = key → now < r.expiresAt) ∧
    match event with
    | .outside records _ => records.filter (·.recordKey = key) =
        s.records.filter (·.recordKey = key)
    | _ => True

instance (key : RecordKey) (s : Mutations σ) (event : MutationEvent σ) :
    Decidable (InLifetime key s event) := by
  unfold InLifetime
  cases event <;> infer_instance

/-- The key has no record. -/
def Vacant (s : Mutations σ) (key : RecordKey) : Prop := ∀ r ∈ s.records, r.recordKey ≠ key

instance (s : Mutations σ) (key : RecordKey) : Decidable (s.Vacant key) :=
  inferInstanceAs (Decidable (∀ r ∈ s.records, _))

/-- The key has a record with a response, and nothing in progress deleted it. -/
structure Settled (s : Mutations σ) (reply : Reply) : Prop where
  stored : ∃ r ∈ s.records, r.recordKey = reply.recordKey ∧ r.requestHash = reply.requestHash ∧
    r.response = some reply.response
  kept : ∀ a ∈ s.attempts, reply.recordKey ∉ a.deleted

/-- The replies that the requests with a key get in a run. -/
def repliesOf (key : RecordKey) : Mutations σ → List (MutationEvent σ) → List Reply
  | _, [] => []
  | s, event :: rest =>
    ((s.reply event).filter (·.recordKey = key)).toList ++ repliesOf key (s.apply event) rest

/-- The event commits the operation of a request with the key. -/
def commitsOperation (key : RecordKey) (s : Mutations σ) : MutationEvent σ → Prop
  | .complete id => ∃ r ∈ s.reply (.complete id), r.recordKey = key
  | _ => False

instance (key : RecordKey) (s : Mutations σ) (event : MutationEvent σ) :
    Decidable (commitsOperation key s event) := by
  unfold commitsOperation
  cases event <;> infer_instance

/-- The number of times that a run commits the operation of requests with a key. -/
def commitsOf (key : RecordKey) : Mutations σ → List (MutationEvent σ) → Nat
  | _, [] => 0
  | s, event :: rest =>
    (if commitsOperation key s event then 1 else 0) + commitsOf key (s.apply event) rest

/-- The write of a transaction that completes: what its operation returned. -/
def completeWrite (a : Attempt σ) : Option (Option RecordKey × (σ → σ)) :=
  match a.phase with
  | .executed _ effect => some (some a.request.recordKey, effect)
  | _ => none

/-- What an event writes to the rest of the database, with the key of the request whose operation
wrote it. Another transaction leaves the data that it gives. -/
def writes (s : Mutations σ) : MutationEvent σ → List (Option RecordKey × (σ → σ))
  | .complete id => ((lookup (·.id) s.attempts id).bind completeWrite).toList
  | .outside records data => if s.Leaves records then [(none, fun _ ↦ data)] else []
  | _ => []

/-- The writes of a run, in their order. -/
def writesOf : Mutations σ → List (MutationEvent σ) → List (Option RecordKey × (σ → σ))
  | _, [] => []
  | s, event :: rest => s.writes event ++ writesOf (s.apply event) rest

/-- The data after writes. -/
def written (data : σ) (writes : List (Option RecordKey × (σ → σ))) : σ :=
  writes.foldl (fun data write ↦ write.2 data) data

/-! ### One event -/

private theorem act_data {id : Nat} {f : Attempt σ → Mutations σ}
    (hf : ∀ a, (f a).data = s.data) : (s.act id f).data = s.data := by
  unfold act
  cases lookup (·.id) s.attempts id with
  | none => rfl
  | some a => exact hf a

/-- Of the steps of a transaction, only its completion writes to the rest of the database. -/
theorem silent_data (a : Attempt σ) (now : Int) (skipped : List RecordKey)
    (outcome : Option (ResponseDocument × (σ → σ))) :
    (s.pruneExpired a now skipped).data = s.data ∧ (s.deleteOwn a now).data = s.data ∧
      (s.insertRecord a).data = s.data ∧ (s.replayRecord a).data = s.data ∧
      (s.executeOperation a outcome).data = s.data := by
  refine ⟨?_, ?_, ?_, ?_, ?_⟩
  · unfold pruneExpired
    split <;> rfl
  · unfold deleteOwn
    repeat' split
    all_goals rfl
  · unfold insertRecord
    repeat' split
    all_goals rfl
  · unfold replayRecord
    split <;> rfl
  · unfold executeOperation
    split <;> rfl

/-- An event changes the data by its writes. -/
theorem apply_data (s : Mutations σ) (event : MutationEvent σ) :
    (s.apply event).data = written s.data (s.writes event) := by
  cases event with
  | start id request responseStatus =>
    simp only [apply]
    split <;> rfl
  | prune id now skipped => exact act_data fun a ↦ (silent_data a now skipped none).1
  | deleteExpired id now => exact act_data fun a ↦ (silent_data a now [] none).2.1
  | insert id => exact act_data fun a ↦ (silent_data a 0 [] none).2.2.1
  | replay id => exact act_data fun a ↦ (silent_data a 0 [] none).2.2.2.1
  | execute id outcome => exact act_data fun a ↦ (silent_data a 0 [] outcome).2.2.2.2
  | complete id =>
    simp only [apply, act, writes]
    cases lookup (·.id) s.attempts id with
    | none => rfl
    | some a =>
      simp only [Option.map_some, Option.getD_some, Option.bind_some, completeRecord,
        completeWrite]
      cases a.phase <;> rfl
  | abort id => rfl
  | cleanup now skipped => rfl
  | outside records data =>
    simp only [apply, writes]
    split <;> rfl

/-- The data after a run are those before it with its writes. -/
theorem run_data (s : Mutations σ) (events : List (MutationEvent σ)) :
    (run apply s events).data = written s.data (writesOf s events) := by
  induction events generalizing s with
  | nil => rfl
  | cons event rest ih =>
    rw [run_cons, ih, apply_data, writesOf]
    unfold written
    rw [List.foldl_append]

/-- The event writes for a key exactly when it commits the operation of a request with it. -/
theorem writes_of_key (key : RecordKey) (s : Mutations σ) (event : MutationEvent σ) :
    ((s.writes event).filter (·.1 = some key)).length =
      if commitsOperation key s event then 1 else 0 := by
  cases event with
  | complete id =>
    have hwrites : (s.writes (.complete id)).filter (·.1 = some key) =
        (((lookup (·.id) s.attempts id).bind completeWrite).filter (·.1 = some key)).toList :=
      Option.toList_filter.symm
    have hcommits : commitsOperation key s (.complete id) ↔
        ((lookup (·.id) s.attempts id).bind completeWrite).filter (·.1 = some key) ≠ none := by
      simp only [commitsOperation, reply]
      cases hfound : lookup (·.id) s.attempts id with
      | none => simp
      | some a =>
        cases hphase : a.phase <;> simp [completeReply, completeWrite, hphase, replyTo]
    rw [hwrites]
    cases hwrite : ((lookup (·.id) s.attempts id).bind completeWrite).filter (·.1 = some key) with
    | none => rw [if_neg fun h ↦ hcommits.mp h hwrite]; rfl
    | some write => rw [if_pos (hcommits.mpr fun h ↦ by rw [h] at hwrite; cases hwrite)]; rfl
  | outside records data =>
    simp only [writes, commitsOperation]
    split <;> simp
  | _ => rfl

/-- The writes of a run for a key are its commits. -/
theorem writesOf_key (key : RecordKey) (s : Mutations σ) (events : List (MutationEvent σ)) :
    ((writesOf s events).filter (·.1 = some key)).length = commitsOf key s events := by
  induction events generalizing s with
  | nil => rfl
  | cons event rest ih =>
    rw [writesOf, commitsOf, List.filter_append, List.length_append, ih, writes_of_key]

private theorem mem_act {id : Nat} {f : Attempt σ → Mutations σ} {a : Attempt σ}
    (ha : a ∈ (s.act id f).attempts) : a ∈ s.attempts ∨ ∃ b, b.id = id ∧ a ∈ (f b).attempts := by
  unfold act at ha
  cases hfound : lookup (·.id) s.attempts id with
  | none =>
    rw [hfound] at ha
    exact .inl ha
  | some b =>
    rw [hfound] at ha
    exact .inr ⟨b, (lookup_some hfound).2, ha⟩

private theorem silent_executed {a : Attempt σ} {response : ResponseDocument} {effect : σ → σ}
    (hphase : a.phase = .executed response effect) (b : Attempt σ) (now : Int)
    (skipped : List RecordKey) :
    (a ∈ (s.pruneExpired b now skipped).attempts → a ∈ s.attempts) ∧
      (a ∈ (s.deleteOwn b now).attempts → a ∈ s.attempts) ∧
      (a ∈ (s.insertRecord b).attempts → a ∈ s.attempts) ∧
      (a ∈ (s.replayRecord b).attempts → a ∈ s.attempts) ∧
      (a ∈ (s.completeRecord b).attempts → a ∈ s.attempts) := by
  -- what a step advances is in another phase
  have hadvance {b : Attempt σ} (hother : b.phase ≠ .executed response effect)
      (hmem : a ∈ (s.advance b).attempts) : a ∈ s.attempts := by
    rcases mem_advance hmem with rfl | ⟨hmem, -⟩
    · exact absurd hphase hother
    · exact hmem
  refine ⟨fun hb ↦ ?_, fun hb ↦ ?_, fun hb ↦ ?_, fun hb ↦ ?_, fun hb ↦ ?_⟩
  · unfold pruneExpired at hb
    split at hb
    · exact hadvance (by simp) hb
    · exact hb
  · unfold deleteOwn at hb
    split at hb
    · split at hb
      · exact hb
      · split at hb
        · exact hadvance (by simp) hb
        · exact hadvance (by simp) hb
    · exact hb
  · unfold insertRecord at hb
    split at hb
    · split at hb
      · exact hb
      · split at hb
        · exact hadvance (by simp) hb
        · exact hadvance (by simp) hb
    · exact hb
  · unfold replayRecord at hb
    split at hb
    · exact (mem_close.mp hb).1
    · exact (mem_close.mp hb).1
    · exact hb
  · unfold completeRecord at hb
    split at hb
    · exact (mem_close.mp hb).1
    · exact hb

/-- The operation of a transaction has returned what its execution gave. -/
theorem executed_step (s : Mutations σ) (event : MutationEvent σ) {a : Attempt σ}
    (ha : a ∈ (s.apply event).attempts) {response : ResponseDocument} {effect : σ → σ}
    (hphase : a.phase = .executed response effect) :
    a ∈ s.attempts ∨ event = .execute a.id (some (response, effect)) := by
  have hsilent := silent_executed (s := s) hphase
  cases event with
  | start id request responseStatus =>
    simp only [apply] at ha
    split at ha
    · exact .inl ha
    · rcases List.mem_append.mp ha with ha | ha
      · exact .inl ha
      · obtain rfl := List.mem_singleton.mp ha
        cases hphase
  | prune id now skipped =>
    rcases mem_act ha with ha | ⟨b, -, hb⟩
    · exact .inl ha
    · exact .inl ((hsilent b now skipped).1 hb)
  | deleteExpired id now =>
    rcases mem_act ha with ha | ⟨b, -, hb⟩
    · exact .inl ha
    · exact .inl ((hsilent b now []).2.1 hb)
  | insert id =>
    rcases mem_act ha with ha | ⟨b, -, hb⟩
    · exact .inl ha
    · exact .inl ((hsilent b 0 []).2.2.1 hb)
  | replay id =>
    rcases mem_act ha with ha | ⟨b, -, hb⟩
    · exact .inl ha
    · exact .inl ((hsilent b 0 []).2.2.2.1 hb)
  | execute id outcome =>
    rcases mem_act ha with ha | ⟨b, rfl, hb⟩
    · exact .inl ha
    · unfold executeOperation at hb
      split at hb
      · rcases mem_advance hb with rfl | ⟨hb, -⟩
        · obtain ⟨rfl, rfl⟩ := Phase.executed.inj hphase
          exact .inr rfl
        · exact .inl hb
      · exact .inl (mem_close.mp hb).1
      · exact .inl hb
  | complete id =>
    rcases mem_act ha with ha | ⟨b, -, hb⟩
    · exact .inl ha
    · exact .inl ((hsilent b 0 []).2.2.2.2 hb)
  | abort id => exact .inl (mem_close.mp ha).1
  | cleanup now skipped => exact .inl ha
  | outside records data =>
    simp only [apply] at ha
    split at ha
    · exact .inl ha
    · exact .inl ha

private theorem Vacant.not_deleted (h : s.Consistent) (hvacant : s.Vacant key) {a : Attempt σ}
    (ha : a ∈ s.attempts) : key ∉ a.deleted := by
  intro hkey
  obtain ⟨r, hr, hrkey, -⟩ := h.deletedFound a ha key hkey
  exact hvacant r hr hrkey

/-- While a key has a record that nothing deleted, no request with the key runs its operation. -/
theorem Settled.not_inserted {reply : Reply} (h : s.Consistent) (hsettled : s.Settled reply)
    {a : Attempt σ} (ha : a ∈ s.attempts) (hkey : a.request.recordKey = reply.recordKey) :
    ¬ a.Inserted := by
  intro hinserted
  obtain ⟨r, hr, hrkey, -⟩ := hsettled.stored
  have hdeleted := h.insertedFree a ha hinserted r hr (hrkey.trans hkey.symm)
  exact hsettled.kept a ha (hrkey ▸ hdeleted)

private theorem answer_found {a : Attempt σ} {response : Int × ResponseDocument}
    (h : s.answer a = some response) :
    ∃ r ∈ s.records, r.recordKey = a.request.recordKey ∧
      r.requestHash = a.request.requestHash ∧ r.response = some response := by
  obtain ⟨r, hr, hanswers⟩ := Option.bind_eq_some_iff.mp h
  obtain ⟨hmem, hkey⟩ := record_found hr
  unfold answers at hanswers
  by_cases hhash : r.requestHash = a.request.requestHash
  · rw [if_pos hhash] at hanswers
    exact ⟨r, hmem, hkey, hhash, hanswers⟩
  · rw [if_neg hhash] at hanswers
    cases hanswers

/-- Without a record of the key, an event gives its requests no reply and leaves the key without
one, or it commits the operation of one and settles the key with its reply. -/
theorem vacant_change {event : MutationEvent σ} {reply : Option Reply} (h : s.Consistent)
    (hlife : InLifetime key s event) (hvacant : s.Vacant key)
    (hchange : Change s event reply t) :
    (t.Vacant key ∧ ∀ r ∈ reply, r.recordKey ≠ key) ∨
      ∃ r, reply = some r ∧ r.recordKey = key ∧ t.Settled r ∧ ∃ id, event = .complete id := by
  cases hchange with
  | idle => exact .inl ⟨hvacant, fun _ hr ↦ absurd hr (Option.not_mem_none _)⟩
  | started => exact .inl ⟨hvacant, fun _ hr ↦ absurd hr (Option.not_mem_none _)⟩
  | moved => exact .inl ⟨hvacant, fun _ hr ↦ absurd hr (Option.not_mem_none _)⟩
  | closed => exact .inl ⟨hvacant, fun _ hr ↦ absurd hr (Option.not_mem_none _)⟩
  | replayed a response found answered =>
    refine .inl ⟨fun r hr ↦ hvacant r (mem_without.mp hr).1, fun r hr ↦ ?_⟩
    obtain rfl := Option.mem_some_iff.mp hr
    obtain ⟨stored, hstored, hkey, -⟩ := answer_found answered
    exact fun he ↦ hvacant stored hstored (hkey.trans he)
  | completed a response data found inserted =>
    by_cases hkey : a.request.recordKey = key
    · refine .inr ⟨_, rfl, hkey, ⟨⟨a.record response, ?_, rfl, rfl, rfl⟩, fun b hb ↦ ?_⟩, _, rfl⟩
      · exact List.mem_append_right _ List.mem_cons_self
      · have hdeleted := hvacant.not_deleted h (mem_close.mp hb).1
        rw [← hkey] at hdeleted
        exact hdeleted
    · refine .inl ⟨fun r hr ↦ ?_, fun r hr ↦ ?_⟩
      · rcases List.mem_append.mp hr with hr | hr
        · exact hvacant r (mem_without.mp hr).1
        · obtain rfl := List.mem_singleton.mp hr
          exact hkey
      · obtain rfl := Option.mem_some_iff.mp hr
        exact hkey
  | cleaned now skipped =>
    exact .inl ⟨fun r hr ↦ hvacant r (mem_without.mp hr).1,
      fun _ hr ↦ absurd hr (Option.not_mem_none _)⟩
  | left records data =>
    refine .inl ⟨fun r hr hkey ↦ ?_, fun _ hr ↦ absurd hr (Option.not_mem_none _)⟩
    have hmem : r ∈ records.filter (·.recordKey = key) := by simp [hr, hkey]
    rw [hlife.2] at hmem
    exact hvacant r (List.mem_filter.mp hmem).1 hkey

/-- A settled key stays settled, every reply to its requests is the settled one, and none of them
completes. -/
theorem settled_change {event : MutationEvent σ} {reply : Option Reply} {settled : Reply}
    (h : s.Consistent) (hlife : InLifetime settled.recordKey s event)
    (hsettled : s.Settled settled) (hchange : Change s event reply t) :
    t.Settled settled ∧ ∀ r ∈ reply, r.recordKey = settled.recordKey →
      r = settled ∧ ∀ id, event ≠ .complete id := by
  obtain ⟨stored, hstored, hkey, hhash, hresponse⟩ := hsettled.stored
  have hstays {records : List IdempotencyRow} {attempts : List (Attempt σ)} {data : σ}
      (hrecords : stored ∈ records) (hattempts : ∀ a ∈ attempts, settled.recordKey ∉ a.deleted) :
      Settled ⟨records, data, attempts⟩ settled :=
    ⟨⟨stored, hrecords, hkey, hhash, hresponse⟩, hattempts⟩
  have hnone : ∀ r ∈ (none : Option Reply), r.recordKey = settled.recordKey →
      r = settled ∧ ∀ id, event ≠ .complete id :=
    fun _ hr ↦ absurd hr (Option.not_mem_none _)
  cases hchange with
  | idle => exact ⟨hsettled, hnone⟩
  | started id request responseStatus =>
    refine ⟨hstays hstored fun a ha ↦ ?_, hnone⟩
    rcases List.mem_append.mp ha with ha | ha
    · exact hsettled.kept a ha
    · obtain rfl := List.mem_singleton.mp ha
      exact List.not_mem_nil
  | moved _ a step deleted =>
    refine ⟨hstays hstored fun b hb ↦ ?_, hnone⟩
    rcases mem_advance hb with rfl | ⟨hb, -⟩
    · intro hdeleted
      rcases deleted _ hdeleted with ⟨c, hc, hckey⟩ | ⟨r, hr, hrkey, now, hnow, hexpired⟩
      · exact hsettled.kept c hc hckey
      · exact absurd (hlife.1 now hnow r hr hrkey) (not_lt.mpr hexpired.2)
    · exact hsettled.kept b hb
  | closed => exact ⟨hstays hstored fun a ha ↦ hsettled.kept a (mem_close.mp ha).1, hnone⟩
  | replayed a response found answered =>
    refine ⟨hstays (mem_without.mpr ⟨hstored, hkey ▸ hsettled.kept a found⟩)
      fun b hb ↦ hsettled.kept b (mem_close.mp hb).1, fun r hr hrkey ↦ ⟨?_, fun id ↦ nofun⟩⟩
    obtain rfl := Option.mem_some_iff.mp hr
    obtain ⟨answering, hmem, hakey, hahash, haresponse⟩ := answer_found answered
    obtain rfl := h.keys.eq_of_mem hstored hmem (hkey.trans (hakey.trans hrkey).symm)
    have hsame : response = settled.response := Option.some.inj (haresponse.symm.trans hresponse)
    obtain ⟨key, hash, settledResponse⟩ := settled
    simp only [replyTo, Reply.mk.injEq]
    exact ⟨hrkey, hahash.symm.trans hhash, hsame⟩
  | completed a response data found inserted =>
    have hne : a.request.recordKey ≠ settled.recordKey :=
      fun he ↦ hsettled.not_inserted h found he inserted
    refine ⟨hstays (List.mem_append_left _ (mem_without.mpr
      ⟨hstored, hkey ▸ hsettled.kept a found⟩)) fun b hb ↦ hsettled.kept b (mem_close.mp hb).1,
      fun r hr hrkey ↦ ?_⟩
    obtain rfl := Option.mem_some_iff.mp hr
    exact absurd hrkey hne
  | cleaned now skipped =>
    refine ⟨hstays (mem_without.mpr ⟨hstored, fun hpruned ↦ ?_⟩) hsettled.kept, hnone⟩
    obtain ⟨⟨r, hr, hrkey, hexpired⟩, -⟩ := prunable_found hpruned
    exact absurd (hlife.1 now rfl r hr (hrkey.trans hkey)) (not_lt.mpr hexpired.2)
  | left records data =>
    refine ⟨hstays ?_ hsettled.kept, hnone⟩
    have hmem : stored ∈ s.records.filter (·.recordKey = settled.recordKey) := by
      simp [hstored, hkey]
    rw [← hlife.2] at hmem
    exact (List.mem_filter.mp hmem).1

/-! ### The lifetime of a key -/

/-- In a settled lifetime every reply is the settled one and nothing commits. -/
theorem settled_run {events : List (MutationEvent σ)} {settled : Reply} (h : s.Consistent)
    (hsettled : s.Settled settled)
    (hlife : Along apply (InLifetime settled.recordKey) s events) :
    commitsOf settled.recordKey s events = 0 ∧
      ∀ r ∈ repliesOf settled.recordKey s events, r = settled := by
  induction events generalizing s with
  | nil => exact ⟨rfl, fun r hr ↦ absurd hr List.not_mem_nil⟩
  | cons event rest ih =>
    obtain ⟨hstep, hreply⟩ := settled_change h hlife.1 hsettled (apply_change s event)
    obtain ⟨hcommits, hreplies⟩ := ih (h.apply event) hstep hlife.2
    constructor
    · have hnot : ¬ commitsOperation settled.recordKey s event := by
        cases event with
        | complete id =>
          rintro ⟨r, hr, hkey⟩
          exact (hreply r hr hkey).2 id rfl
        | _ => exact id
      rw [commitsOf, hcommits, if_neg hnot]
    · intro r hr
      rcases List.mem_append.mp hr with hr | hr
      · have hsome := Option.mem_toList.mp hr
        obtain ⟨hsome, hkey⟩ := Option.filter_eq_some_iff.mp hsome
        exact (hreply r hsome (by simpa using hkey)).1
      · exact hreplies r hr

/-- From a state without a record of the key, its lifetime commits once when it gives a reply and
never otherwise, and all replies are equal. -/
theorem vacant_run {events : List (MutationEvent σ)} (h : s.Consistent) (hvacant : s.Vacant key)
    (hlife : Along apply (InLifetime key) s events) :
    commitsOf key s events = (if repliesOf key s events = [] then 0 else 1) ∧
      ∀ x ∈ repliesOf key s events, ∀ y ∈ repliesOf key s events, x = y := by
  induction events generalizing s with
  | nil => exact ⟨rfl, fun x hx ↦ absurd hx List.not_mem_nil⟩
  | cons event rest ih =>
    rcases vacant_change h hlife.1 hvacant (apply_change s event) with
      ⟨hstill, hreply⟩ | ⟨settled, hreply, rfl, hsettled, id, rfl⟩
    · obtain ⟨hcommits, hreplies⟩ := ih (h.apply event) hstill hlife.2
      have hnone : (s.reply event).filter (·.recordKey = key) = none :=
        Option.filter_eq_none_iff.mpr fun r hr ↦ by simpa using hreply r hr
      have hnot : ¬ commitsOperation key s event := by
        cases event with
        | complete id =>
          rintro ⟨r, hr, hkey⟩
          exact hreply r hr hkey
        | _ => exact id
      rw [commitsOf, if_neg hnot, Nat.zero_add, repliesOf, hnone]
      exact ⟨hcommits, hreplies⟩
    · obtain ⟨hcommits, hreplies⟩ := settled_run (h.apply _) hsettled hlife.2
      have hfirst : (s.reply (.complete id)).filter (·.recordKey = settled.recordKey) =
          some settled := by
        rw [hreply]
        simp
      have hall : ∀ r ∈ repliesOf settled.recordKey s (.complete id :: rest), r = settled := by
        rw [repliesOf, hfirst]
        intro r hr
        rcases List.mem_append.mp hr with hr | hr
        · exact List.mem_singleton.mp hr
        · exact hreplies r hr
      constructor
      · have hcommitted : commitsOperation settled.recordKey s (.complete id) :=
          ⟨settled, hreply, rfl⟩
        have hsome : repliesOf settled.recordKey s (.complete id :: rest) ≠ [] := by
          rw [repliesOf, hfirst]
          exact List.cons_ne_nil _ _
        rw [commitsOf, hcommits, if_pos hcommitted, if_neg hsome]
      · intro x hx y hy
        rw [hall x hx, hall y hy]

/-! ### One request at a time, failures and retries -/

/-- Of the steps of transactions, only a successful reply writes anything. -/
theorem unreplied_writes_nothing (s : Mutations σ) {event : MutationEvent σ}
    (hactor : actor event ≠ none) (hreply : s.reply event = none) :
    (s.apply event).records = s.records ∧ (s.apply event).data = s.data := by
  have hchange : Change s event none (s.apply event) := hreply ▸ apply_change s event
  generalize s.apply event = t at hchange
  cases hchange with
  | idle => exact ⟨rfl, rfl⟩
  | started => exact ⟨rfl, rfl⟩
  | moved => exact ⟨rfl, rfl⟩
  | closed => exact ⟨rfl, rfl⟩
  | cleaned => exact absurd rfl hactor
  | left => exact absurd rfl hactor

/-- A record that waits for its response is removed by no event. -/
theorem pending_kept (h : s.Consistent) {event : MutationEvent σ}
    (hinside : ∀ records data, event ≠ .outside records data) {r : IdempotencyRow}
    (hr : r ∈ s.records) (hpending : r.response = none) : r ∈ (s.apply event).records := by
  have hkeep {a : Attempt σ} (ha : a ∈ s.attempts) : r ∈ s.without a.deleted := by
    refine mem_without.mpr ⟨hr, fun hdeleted ↦ ?_⟩
    obtain ⟨x, hx, hxkey, hresponse⟩ := h.deletedFound a ha _ hdeleted
    obtain rfl := h.keys.eq_of_mem hr hx hxkey.symm
    exact hresponse hpending
  have hchange := apply_change s event
  generalize s.reply event = reply, s.apply event = t at hchange
  cases hchange with
  | idle => exact hr
  | started => exact hr
  | moved => exact hr
  | closed => exact hr
  | replayed a response found => exact hkeep found
  | completed a response data found => exact List.mem_append_left _ (hkeep found)
  | cleaned now skipped =>
    refine mem_without.mpr ⟨hr, fun hpruned ↦ ?_⟩
    obtain ⟨⟨x, hx, hxkey, hexpired⟩, -⟩ := prunable_found hpruned
    obtain rfl := h.keys.eq_of_mem hr hx hxkey.symm
    exact hexpired.1 hpending
  | left records data => exact absurd rfl (hinside records data)

/-- A transaction in progress stays as it is through the events of others. -/
theorem attempt_kept {event : MutationEvent σ} {a : Attempt σ} (ha : a ∈ s.attempts)
    (hother : actor event ≠ some a.id) : a ∈ (s.apply event).attempts := by
  have hchange := apply_change s event
  generalize s.reply event = reply, s.apply event = t at hchange
  cases hchange with
  | idle => exact ha
  | started => exact List.mem_append_left _ ha
  | moved _ b step => exact mem_update.mpr (.inl ⟨ha, fun hid ↦ hother (hid ▸ step)⟩)
  | closed _ id step => exact mem_close.mpr ⟨ha, fun hid ↦ hother (hid ▸ step)⟩
  | replayed b => exact mem_close.mpr ⟨ha, fun hid ↦ hother (hid ▸ rfl)⟩
  | completed b => exact mem_close.mpr ⟨ha, fun hid ↦ hother (hid ▸ rfl)⟩
  | cleaned => exact ha
  | left => exact ha

private theorem act_of_mem (h : s.Consistent) {a : Attempt σ} (ha : a ∈ s.attempts)
    (f : Attempt σ → Mutations σ) : s.act a.id f = f a := by
  unfold act
  rw [(lookup_eq_some h.ids).mpr ⟨ha, rfl⟩]
  rfl

/-- A transaction that does not run its operation yet, of a key without a record and without
another request in progress. -/
private structure Retrying (s : Mutations σ) (a : Attempt σ) : Prop where
  consistent : s.Consistent
  vacant : s.Vacant a.request.recordKey
  found : a ∈ s.attempts
  free : ¬ s.Held a.id a.request.recordKey

private theorem Retrying.advance {a b : Attempt σ} (h : s.Retrying a)
    (hconsistent : (s.advance b).Consistent) (hid : b.id = a.id) (hrequest : b.request = a.request)
    (hwaiting : ¬ b.Inserted) : (s.advance b).Retrying b where
  consistent := hconsistent
  vacant := hrequest ▸ h.vacant
  found := mem_update.mpr (.inr ⟨a, h.found, hid.symm, rfl⟩)
  free := by
    rintro ⟨c, hc, hne, hinserted, hkey⟩
    rcases mem_advance hc with rfl | ⟨hc, -⟩
    · exact hwaiting hinserted
    · exact h.free ⟨c, hc, hid ▸ hne, hinserted, hrequest ▸ hkey⟩

private theorem Retrying.start (h : s.Consistent) {request : IdempotencyAcquire}
    (hvacant : s.Vacant request.recordKey) {id : Nat} (hfresh : ∀ a ∈ s.attempts, a.id ≠ id)
    (hfree : ¬ s.Held id request.recordKey) (responseStatus : Int) :
    (s.apply (.start id request responseStatus)).Retrying
      ⟨id, request, responseStatus, .opened, []⟩ := by
  have hconsistent := h.apply (.start id request responseStatus)
  have hstart : s.apply (.start id request responseStatus) =
      { s with attempts := s.attempts ++ [⟨id, request, responseStatus, .opened, []⟩] } := by
    simp only [apply, lookup_eq_none.mpr hfresh]
    rfl
  rw [hstart] at hconsistent ⊢
  refine ⟨hconsistent, hvacant, List.mem_append_right _ List.mem_cons_self, ?_⟩
  rintro ⟨a, ha, hne, hinserted, hkey⟩
  rcases List.mem_append.mp ha with ha | ha
  · exact hfree ⟨a, ha, hne, hinserted, hkey⟩
  · obtain rfl := List.mem_singleton.mp ha
    exact hinserted

private theorem Retrying.prune {a : Attempt σ} (h : s.Retrying a) (hphase : a.phase = .opened)
    (now : Int) (skipped : List RecordKey) :
    (s.apply (.prune a.id now skipped)).Retrying
      { a with phase := .pruned, deleted := s.prunable now skipped } := by
  have hconsistent := h.consistent.apply (.prune a.id now skipped)
  have hprune : s.apply (.prune a.id now skipped) =
      s.advance { a with phase := .pruned, deleted := s.prunable now skipped } := by
    rw [apply, act_of_mem h.consistent h.found, pruneExpired, hphase]
  rw [hprune] at hconsistent ⊢
  exact h.advance hconsistent rfl rfl False.elim

private theorem Retrying.not_locked {a : Attempt σ} (h : s.Retrying a) :
    ¬ s.Locked a.id a.request.recordKey :=
  fun ⟨_, hb, _, hkey⟩ ↦ h.vacant.not_deleted h.consistent hb hkey

private theorem Retrying.record {a : Attempt σ} (h : s.Retrying a) :
    s.record a.request.recordKey = none :=
  lookup_eq_none.mpr h.vacant

private theorem Retrying.deleteExpired {a : Attempt σ} (h : s.Retrying a)
    (hphase : a.phase = .pruned) (now : Int) :
    (s.apply (.deleteExpired a.id now)).Retrying { a with phase := .cleared } := by
  have hconsistent := h.consistent.apply (.deleteExpired a.id now)
  have hdelete : s.apply (.deleteExpired a.id now) = s.advance { a with phase := .cleared } := by
    rw [apply, act_of_mem h.consistent h.found, deleteOwn, hphase, h.record]
    simp [h.not_locked]
  rw [hdelete] at hconsistent ⊢
  exact h.advance hconsistent rfl rfl False.elim

private theorem Retrying.insert {a : Attempt σ} (h : s.Retrying a) (hphase : a.phase = .cleared) :
    s.apply (.insert a.id) = s.advance { a with phase := .executing } := by
  rw [apply, act_of_mem h.consistent h.found, insertRecord, hphase, h.record]
  simp [h.not_locked, h.free]

/-- A new request runs its operation when its key has no record and no request in progress. -/
theorem retry_executes (h : s.Consistent) (request : IdempotencyAcquire)
    (hvacant : s.Vacant request.recordKey) {id : Nat} (hfresh : ∀ a ∈ s.attempts, a.id ≠ id)
    (hfree : ¬ s.Held id request.recordKey) (responseStatus now now' : Int)
    (skipped : List RecordKey) :
    ∃ a ∈ (run apply s [.start id request responseStatus, .prune id now skipped,
        .deleteExpired id now', .insert id]).attempts,
      a.request = request ∧ a.phase = .executing := by
  have hopened := Retrying.start h hvacant hfresh hfree responseStatus
  have hpruned := hopened.prune rfl now skipped
  have hcleared := hpruned.deleteExpired rfl now'
  simp only [run_cons, run_nil]
  rw [hcleared.insert rfl]
  exact ⟨_, mem_update.mpr (.inr ⟨_, hcleared.found, rfl, rfl⟩), rfl, rfl⟩

/-! ### The law -/

/-- Requests with one key from a state on, in every interleaving with others: their operation is
committed once at most; the rest of the database has its write once when one of them got a
successful reply and never otherwise, and nothing but what operations returned and other
transactions left; all successful replies are equal, to requests with one payload; while one
of them runs its operation, the key has no record, no reply was given yet and no other of them
runs its operation, and until then a new one can; a step that is no successful reply writes
nothing; and no event removes a record without response or touches another transaction. -/
structure ExactlyOnce (s : Mutations σ) (key : RecordKey) (events : List (MutationEvent σ)) :
    Prop where
  commits : commitsOf key s events ≤ 1
  effects : (run apply s events).data = written s.data (writesOf s events)
  once : ((writesOf s events).filter (·.1 = some key)).length =
    if repliesOf key s events = [] then 0 else 1
  returned : ∀ before after event, events = before ++ event :: after →
    ∀ a ∈ (run apply s (before ++ [event])).attempts, ∀ response effect,
      a.phase = .executed response effect → a ∈ (run apply s before).attempts ∨
        event = .execute a.id (some (response, effect))
  replies : ∀ x ∈ repliesOf key s events, ∀ y ∈ repliesOf key s events, x = y
  exclusive : ∀ before after, events = before ++ after → ∀ a ∈ (run apply s before).attempts,
    a.request.recordKey = key → a.Inserted →
      (run apply s before).Vacant key ∧ repliesOf key s before = [] ∧
        ¬ (run apply s before).Held a.id key
  retries : ∀ before after, events = before ++ after → (run apply s before).Vacant key →
    ∀ id, (∀ a ∈ (run apply s before).attempts, a.id ≠ id) →
      ¬ (run apply s before).Held id key →
      ∀ request responseStatus now now' skipped, request.recordKey = key →
        ∃ a ∈ (run apply (run apply s before) [.start id request responseStatus,
            .prune id now skipped, .deleteExpired id now', .insert id]).attempts,
          a.request = request ∧ a.phase = .executing
  failures : ∀ before after event, events = before ++ event :: after → actor event ≠ none →
    (run apply s before).reply event = none →
      (run apply s (before ++ [event])).records = (run apply s before).records ∧
        (run apply s (before ++ [event])).data = (run apply s before).data
  pending : ∀ before after event, events = before ++ event :: after →
    (∀ records data, event ≠ .outside records data) →
      (∀ r ∈ (run apply s before).records, r.response = none →
        r ∈ (run apply s (before ++ [event])).records) ∧
      ∀ a ∈ (run apply s before).attempts, actor event ≠ some a.id →
        a ∈ (run apply s (before ++ [event])).attempts

/-- A run keeps the store consistent. -/
theorem consistent_run (h : s.Consistent) (events : List (MutationEvent σ)) :
    (run apply s events).Consistent :=
  run_induction (fun _ event hs ↦ hs.apply event) h events

/-- A settled key stays settled for its lifetime. -/
theorem settled_stays {events : List (MutationEvent σ)} {settled : Reply} (h : s.Consistent)
    (hsettled : s.Settled settled)
    (hlife : Along apply (InLifetime settled.recordKey) s events) :
    (run apply s events).Settled settled := by
  induction events generalizing s with
  | nil => exact hsettled
  | cons event rest ih =>
    obtain ⟨hstep, -⟩ := settled_change h hlife.1 hsettled (apply_change s event)
    exact ih (h.apply event) hstep hlife.2

/-- At each point of its lifetime the key has no record and gave no reply yet, or is settled. -/
theorem lifetime_cases {events : List (MutationEvent σ)} (h : s.Consistent)
    (hvacant : s.Vacant key) (hlife : Along apply (InLifetime key) s events) :
    ((run apply s events).Vacant key ∧ repliesOf key s events = []) ∨
      ∃ settled : Reply, settled.recordKey = key ∧ (run apply s events).Settled settled := by
  induction events generalizing s with
  | nil => exact .inl ⟨hvacant, rfl⟩
  | cons event rest ih =>
    rcases vacant_change h hlife.1 hvacant (apply_change s event) with
      ⟨hstill, hreply⟩ | ⟨settled, -, rfl, hsettled, -⟩
    · rcases ih (h.apply event) hstill hlife.2 with ⟨hlast, hreplies⟩ | hsettled
      · refine .inl ⟨hlast, ?_⟩
        have hnone : (s.reply event).filter (·.recordKey = key) = none :=
          Option.filter_eq_none_iff.mpr fun r hr ↦ by simpa using hreply r hr
        rw [repliesOf, hnone, hreplies]
        rfl
      · exact .inr hsettled
    · rw [run_cons]
      exact .inr ⟨settled, rfl, settled_stays (h.apply event) hsettled hlife.2⟩

/-- Idempotent mutations take effect once, from any reachable state without a record of the key and
over any events in the key's lifetime.
`src/jobtology_be/infrastructure/persistence/idempotency.py:18–97`,
`src/jobtology_be/infrastructure/persistence/store.py:912–967`. -/
theorem mutations_exactlyOnce (data : σ) (key : RecordKey) (before events : List (MutationEvent σ))
    (hvacant : (run apply (initial data) before).Vacant key)
    (hlife : Along apply (InLifetime key) (run apply (initial data) before) events) :
    ExactlyOnce (run apply (initial data) before) key events := by
  have h := consistent_run (consistent_initial data) before
  generalize run apply (initial data) before = s at *
  obtain ⟨hcommits, hreplies⟩ := vacant_run h hvacant hlife
  constructor
  case commits =>
    rw [hcommits]
    split
    · exact Nat.zero_le 1
    · exact le_rfl
  case effects => exact run_data s events
  case once => exact (writesOf_key key s events).trans hcommits
  case returned =>
    rintro first last event - a ha response effect hphase
    rw [run_concat] at ha
    exact executed_step _ event ha hphase
  case replies => exact hreplies
  case exclusive =>
    rintro first last rfl a ha hkey hinserted
    have ht := consistent_run h first
    rcases lifetime_cases h hvacant (along_append.mp hlife).1 with ⟨hfree, hnone⟩ | hsettled
    · refine ⟨hfree, hnone, fun ⟨b, hb, hne, hbi, hbkey⟩ ↦ ?_⟩
      exact hne (ht.insertedOnce b hb a ha hbi hinserted (hbkey.trans hkey.symm))
    · obtain ⟨settled, rfl, hsettled⟩ := hsettled
      exact absurd hinserted (hsettled.not_inserted ht ha hkey)
  case retries =>
    rintro first last - hfirst id hfresh hfree request responseStatus now now' skipped rfl
    exact retry_executes (consistent_run h first) request hfirst hfresh hfree responseStatus now
      now' skipped
  case failures =>
    intro first last event _ hactor hreply
    rw [run_append]
    exact unreplied_writes_nothing _ hactor hreply
  case pending =>
    intro first last event _ hinside
    rw [run_append]
    exact ⟨fun r hr hpending ↦ pending_kept (consistent_run h first) hinside hr hpending,
      fun a ha hother ↦ attempt_kept ha hother⟩

/-- Two requests that start together: one runs the operation and the other, which waits for it,
gets its reply. -/
theorem mutations_exactlyOnce_together :
    let key : RecordKey := ⟨1, "POST", "/goals", "k"⟩
    let request : IdempotencyAcquire := ⟨key, "hash", 86400⟩
    let response : ResponseDocument := ⟨[(.goalId, 1)], "goal"⟩
    let events : List (MutationEvent Nat) := [.start 1 request 201, .start 2 request 201,
      .prune 1 0 [], .prune 2 0 [], .deleteExpired 1 0, .deleteExpired 2 0, .insert 1, .insert 2,
      .execute 1 (some (response, (· + 1))), .insert 2, .complete 1, .insert 2, .replay 2]
    ExactlyOnce (run apply (initial 0) []) key events ∧
      (run apply (initial 0) events).data = 1 ∧
      repliesOf key (initial 0) events =
        [⟨key, "hash", (201, response)⟩, ⟨key, "hash", (201, response)⟩] :=
  ⟨mutations_exactlyOnce 0 _ [] _ (by decide) (by decide), by decide, by decide⟩

end Mutations

end Jobtology.Store
