import Jobtology.Base.Collections
import Jobtology.Relational.Runs
import Mathlib.Data.Finset.Card
import Mathlib.Logic.Function.Basic

/-!
# Scanning slots

`ResumeService.slot`: two slots shared by all web workers, one for an account at most. A slot is an
exclusive lock on a file, and the file names the owner. Every call that locks, reads, writes or
closes a file is a step of its own; a scan waits only for the registry. A lock is exclusive and is
dropped when the process that holds it dies.
-/

namespace Jobtology.Resume

open Jobtology.Base

/-- `ResumeError`. `src/jobtology_be/resume/service.py:42–48`. -/
structure ResumeError where
  code : String
  status : Nat
  deriving DecidableEq

/-- The account holds a slot already. -/
def scanAlreadyRunning : ResumeError := ⟨"SCAN_ALREADY_RUNNING", 409⟩

/-- No slot is free. -/
def scannerBusy : ResumeError := ⟨"SCANNER_BUSY", 503⟩

/-- How a scan ends. -/
inductive Outcome
  | completed
  | refused (error : ResumeError)
  deriving DecidableEq

/-- Where a scan is in `slot`. -/
inductive Phase
  /-- It waits for `registry.lock`. -/
  | waiting
  /-- It has slots to try, and may have reserved one. -/
  | probing (rest : List (Fin 2)) (reserved : Option (Fin 2))
  /-- A slot was locked already; its owner is to be read. -/
  | reading (index : Fin 2) (rest : List (Fin 2)) (reserved : Option (Fin 2))
  /-- A second slot was free and is to be closed. -/
  | surplus (index : Fin 2) (rest : List (Fin 2)) (reserved : Fin 2)
  /-- The account owns a slot; the reserved one is to be closed. -/
  | sameOwner (reserved : Option (Fin 2))
  /-- The file of the reserved slot is empty; the owner is to be written. -/
  | claiming (index : Fin 2)
  /-- The owner is written; the registry is to be closed. -/
  | claimed (index : Fin 2)
  /-- The body. -/
  | running (index : Fin 2)
  /-- The body is over and the file is empty; the slot is to be closed. -/
  | emptied (index : Fin 2)
  | ended (outcome : Outcome)
  | crashed
  deriving DecidableEq

/-- A scan of an account in a web worker. -/
structure Scan (π : Type) where
  process : π
  account : Uuid
  phase : Phase

/-- The locks, the texts of the slot files, and the scans.
`src/jobtology_be/resume/service.py:118–154`. -/
structure Slots (σ π : Type) where
  registry : Option σ
  holder : Fin 2 → Option σ
  content : Fin 2 → String
  scans : σ → Option (Scan π)

/-- What happens next. -/
inductive Action (σ π : Type)
  | start (s : σ) (process : π) (account : Uuid)
  /-- The next step of a scan. -/
  | advance (s : σ)
  /-- A process dies. -/
  | crash (process : π)

variable {σ π : Type} [DecidableEq σ] [DecidableEq π]

namespace Slots

/-- Before the first scan. The files hold what earlier processes left in them. -/
def fresh (content : Fin 2 → String) : Slots σ π := ⟨none, fun _ ↦ none, content, fun _ ↦ none⟩

/-- A scan goes on with its next phase. -/
def enter (st : Slots σ π) (s : σ) (x : Scan π) (phase : Phase) : Slots σ π :=
  { st with scans := Function.update st.scans s (some { x with phase := phase }) }

/-- A scan locks a slot. -/
def lock (st : Slots σ π) (k : Fin 2) (s : σ) : Slots σ π :=
  { st with holder := Function.update st.holder k (some s) }

/-- A slot is closed, and its lock dropped. -/
def close (st : Slots σ π) (k : Fin 2) : Slots σ π :=
  { st with holder := Function.update st.holder k none }

/-- The text of a slot file is replaced. -/
def write (st : Slots σ π) (k : Fin 2) (text : String) : Slots σ π :=
  { st with content := Function.update st.content k text }

/-- The registry is locked by a scan, or closed. -/
def register (st : Slots σ π) (registry : Option σ) : Slots σ π := { st with registry := registry }

/-- The next step of a scan in `slot`. -/
def advance (owner : Uuid → String) (st : Slots σ π) (s : σ) (x : Scan π) : Slots σ π :=
  match x.phase with
  | .waiting =>
    if st.registry = none then (st.register (some s)).enter s x (.probing [0, 1] none) else st
  | .probing (k :: rest) reserved =>
    if st.holder k = none then
      match reserved with
      | none => (st.lock k s).enter s x (.probing rest (some k))
      | some r => (st.lock k s).enter s x (.surplus k rest r)
    else st.enter s x (.reading k rest reserved)
  | .reading k rest reserved =>
    if st.content k = owner x.account then st.enter s x (.sameOwner reserved)
    else st.enter s x (.probing rest reserved)
  | .surplus k rest r => (st.close k).enter s x (.probing rest (some r))
  | .sameOwner (some r) => (st.close r).enter s x (.sameOwner none)
  | .sameOwner none => (st.register none).enter s x (.ended (.refused scanAlreadyRunning))
  | .probing [] none => (st.register none).enter s x (.ended (.refused scannerBusy))
  | .probing [] (some r) => (st.write r "").enter s x (.claiming r)
  | .claiming r => (st.write r (owner x.account)).enter s x (.claimed r)
  | .claimed r => (st.register none).enter s x (.running r)
  | .running r => (st.write r "").enter s x (.emptied r)
  | .emptied r => (st.close r).enter s x (.ended .completed)
  | .ended _ | .crashed => st

/-- A scan of a process that dies. -/
def crashScan (process : π) (x : Scan π) : Scan π :=
  match x.phase with
  | .ended _ => x
  | _ => if x.process = process then { x with phase := .crashed } else x

/-- Whether a lock is held by a scan of a process. -/
def HeldBy (st : Slots σ π) (process : π) (holder : Option σ) : Prop :=
  ∃ s ∈ holder, ∃ x ∈ st.scans s, x.process = process

instance (st : Slots σ π) (process : π) (holder : Option σ) :
    Decidable (st.HeldBy process holder) :=
  inferInstanceAs (Decidable (∃ s ∈ holder, ∃ x ∈ st.scans s, _))

/-- One action. -/
def step (owner : Uuid → String) (st : Slots σ π) : Action σ π → Slots σ π
  | .start s process account =>
    match st.scans s with
    | none => st.enter s ⟨process, account, .waiting⟩ .waiting
    | some _ => st
  | .advance s =>
    match st.scans s with
    | none => st
    | some x => st.advance owner s x
  | .crash process =>
    { st with
      registry := if st.HeldBy process st.registry then none else st.registry
      holder := fun k ↦ if st.HeldBy process (st.holder k) then none else st.holder k
      scans := fun s ↦ (st.scans s).map (crashScan process) }

/-! ### Observations -/

/-- Where a scan is. -/
def phaseOf (st : Slots σ π) (s : σ) : Option Phase := (st.scans s).map (·.phase)

/-- The account of a scan. -/
def accountOf (st : Slots σ π) (s : σ) : Option Uuid := (st.scans s).map (·.account)

/-- The body of a scan runs, on a slot. -/
def Runs (st : Slots σ π) (s : σ) (k : Fin 2) : Prop := st.phaseOf s = some (.running k)

/-- A scan is about to try a slot. -/
def Tries (st : Slots σ π) (s : σ) (k : Fin 2) : Prop :=
  ∃ rest reserved, st.phaseOf s = some (.probing (k :: rest) reserved)

/-- A scan is about to read the owner of a slot that it found locked. -/
def Reads (st : Slots σ π) (s : σ) (k : Fin 2) : Prop :=
  ∃ rest reserved, st.phaseOf s = some (.reading k rest reserved)

/-- The body of a scan that ran on a slot is over. -/
def BodyOver (st : Slots σ π) (s : σ) (k : Fin 2) : Prop :=
  st.phaseOf s ∈ [some (.emptied k), some (.ended .completed), some .crashed]

end Slots

end Jobtology.Resume
