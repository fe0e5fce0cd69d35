import Jobtology.Relational.Runs
import Mathlib.Algebra.Order.Ring.Rat
import Mathlib.Data.List.Perm.Basic
import Mathlib.Logic.Function.Basic

/-!
# Crosswalk reads

`infrastructure/persistence/live_source_feed.py`: `PostgresLiveSourceFeed.crosswalk` as tasks that
take steps in any order. Tasks for one key share a read, one read goes on at a time, and results are
kept for a while.
-/

namespace Jobtology.Sources

universe u v

/-! ### Model -/

/-- `_CrosswalkRead`. -/
structure CrosswalkRead (ρ : Type v) where
  locked : Bool := false
  result : Option ρ := none
  expires : ℚ := 0
  users : Nat := 0

/-- Where a task stands in `crosswalk`. -/
inductive CallPhase
  /-- At `async with cached.lock`. -/
  | waitsForLock
  /-- At `async with self._crosswalk_slot`. -/
  | waitsForSlot
  /-- At `await self._read`. -/
  | reads
  /-- At `finally`. -/
  | leaves
  deriving DecidableEq

/-- Whether the task is inside `async with cached.lock`. -/
def CallPhase.holdsLock : CallPhase → Bool
  | waitsForSlot | reads => true
  | waitsForLock | leaves => false

/-- A task in `crosswalk`, with its `cached` by its address.
`src/jobtology_be/infrastructure/persistence/live_source_feed.py:140–158`. -/
structure Call (κ : Type u) where
  id : Nat
  key : κ
  cached : Nat
  phase : CallPhase
  deriving DecidableEq

/-- A result for a key at a time. -/
structure Answer (κ : Type u) (ρ : Type v) where
  key : κ
  result : ρ
  time : ℚ

/-- `PostgresLiveSourceFeed`, its `_CrosswalkRead` objects by their addresses, and the tasks in
`crosswalk`; what the database answered and what tasks returned is kept as history.
`src/jobtology_be/infrastructure/persistence/live_source_feed.py:46–50,105–202`. -/
structure CrosswalkFeed (κ : Type u) (ρ : Type v) where
  heap : Nat → CrosswalkRead ρ
  next : Nat
  /-- `_crosswalk_reads`, the last used last. -/
  reads : List (κ × Nat)
  /-- `_crosswalk_inflight`. -/
  inflight : κ → Option Nat
  /-- Whether `_crosswalk_slot` can be taken. -/
  slotFree : Bool
  calls : List (Call κ)
  now : ℚ
  answered : List (Answer κ ρ)
  returned : List (Answer κ ρ)

/-- What happens next. -/
inductive FeedEvent (κ : Type u) (ρ : Type v)
  | enter (id : Nat) (key : κ)
  | lock (call : Call κ)
  | slot (call : Call κ)
  | answer (call : Call κ) (result : ρ)
  | fail (call : Call κ)
  | cancel (call : Call κ)
  /-- Time passes. -/
  | wait (now : ℚ)

namespace CrosswalkFeed

variable {κ : Type u} {ρ : Type v} [DecidableEq κ]

/-- The feed before the first call. -/
def start : CrosswalkFeed κ ρ where
  heap _ := {}
  next := 0
  reads := []
  inflight _ := none
  slotFree := true
  calls := []
  now := 0
  answered := []
  returned := []

/-- `_crosswalk_reads.get(key)`. -/
def kept (s : CrosswalkFeed κ ρ) (key : κ) : Option Nat :=
  (s.reads.find? (·.1 = key)).map (·.2)

/-- The object under a key, changed. -/
def modify (s : CrosswalkFeed κ ρ) (cached : Nat) (f : CrosswalkRead ρ → CrosswalkRead ρ) :
    CrosswalkFeed κ ρ :=
  { s with heap := Function.update s.heap cached (f (s.heap cached)) }

/-- A task at another place. -/
def moveTo (s : CrosswalkFeed κ ρ) (c : Call κ) (phase : CallPhase) : CrosswalkFeed κ ρ :=
  { s with calls := { c with phase } :: s.calls.erase c }

/-- The entry of a key at the end of `_crosswalk_reads`. -/
def toEnd (reads : List (κ × Nat)) (key : κ) (cached : Nat) : List (κ × Nat) :=
  reads.filter (·.1 ≠ key) ++ [(key, cached)]

/-- A task from the start to `async with cached.lock`. -/
def enter (s : CrosswalkFeed κ ρ) (id : Nat) (key : κ) : CrosswalkFeed κ ρ :=
  let found := (s.inflight key).or (s.kept key)
  let cached := found.getD s.next
  let s := if found = none then
      { s with heap := Function.update s.heap s.next {}, next := s.next + 1 }
    else s
  { s.modify cached fun entry ↦ { entry with users := entry.users + 1 } with
    inflight := Function.update s.inflight key (some cached)
    reads := ((s.kept key).map (toEnd s.reads key)).getD s.reads
    calls := ⟨id, key, cached, .waitsForLock⟩ :: s.calls }

/-- `finally`. -/
def leave (s : CrosswalkFeed κ ρ) (c : Call κ) : CrosswalkFeed κ ρ :=
  let users := (s.heap c.cached).users - 1
  { s.modify c.cached fun entry ↦ { entry with users } with
    inflight := if users = 0 then Function.update s.inflight c.key none else s.inflight
    calls := s.calls.erase c }

/-- A task leaves `async with cached.lock`, and the slot when it has it. -/
def release (s : CrosswalkFeed κ ρ) (c : Call κ) : CrosswalkFeed κ ρ :=
  { (s.modify c.cached fun entry ↦ { entry with locked := false }).moveTo c .leaves with
    slotFree := s.slotFree || c.phase == .reads }

/-- A task is at its end, with an exception or a result. -/
def exit (s : CrosswalkFeed κ ρ) (c : Call κ) : CrosswalkFeed κ ρ :=
  (s.release c).leave { c with phase := .leaves }

/-- A task with the lock: it returns a result that is still fresh, or waits for the slot. -/
def locked (s : CrosswalkFeed κ ρ) (c : Call κ) : CrosswalkFeed κ ρ :=
  match (s.heap c.cached).result with
  | some result =>
    if s.now < (s.heap c.cached).expires then
      { s with returned := ⟨c.key, result, s.now⟩ :: s.returned }.leave c
    else (s.modify c.cached fun entry ↦ { entry with locked := true }).moveTo c .waitsForSlot
  | none => (s.modify c.cached fun entry ↦ { entry with locked := true }).moveTo c .waitsForSlot

/-- A result is kept, and the last used results beyond 64 are not. -/
def store (s : CrosswalkFeed κ ρ) (c : Call κ) (result : ρ) : CrosswalkFeed κ ρ :=
  let reads := toEnd s.reads c.key c.cached
  { s.modify c.cached fun entry ↦ { entry with result := some result, expires := s.now + 30 } with
    reads := reads.drop (reads.length - 64)
    answered := ⟨c.key, result, s.now⟩ :: s.answered
    returned := ⟨c.key, result, s.now⟩ :: s.returned }

/-- One event. -/
def apply (s : CrosswalkFeed κ ρ) : FeedEvent κ ρ → CrosswalkFeed κ ρ
  | .enter id key => if id ∈ s.calls.map (·.id) then s else s.enter id key
  | .lock c =>
    if c ∈ s.calls ∧ c.phase = .waitsForLock ∧ (s.heap c.cached).locked = false then s.locked c
    else s
  | .slot c =>
    if c ∈ s.calls ∧ c.phase = .waitsForSlot ∧ s.slotFree = true then
      { s.moveTo c .reads with slotFree := false }
    else s
  | .answer c result =>
    if c ∈ s.calls ∧ c.phase = .reads then
      ((s.release c).store { c with phase := .leaves } result).leave { c with phase := .leaves }
    else s
  | .fail c => if c ∈ s.calls ∧ c.phase = .reads then s.exit c else s
  | .cancel c =>
    if c ∈ s.calls then
      if c.phase.holdsLock then s.exit c else s.leave c
    else s
  | .wait now => { s with now := max s.now now }

end CrosswalkFeed

end Jobtology.Sources
