import Jobtology.Planning.Problem
import Mathlib.Data.Prod.Lex

/-!
# The list schedule that seeds the route search

`_add_schedule_hint` of `planning/cp_sat_model.py`: a greedy list schedule over the calendar. It
only produces hints; the route model itself never depends on it.
-/

namespace Jobtology.Planning

open Jobtology.Base

/-- `{item.action_id: item}` of the candidate availabilities, looked up for one action. -/
def availabilityOf (p : PlanningProblem) (actionId : String) : Option CandidateAvailability :=
  lookupLast (·.actionId) p.candidateAvailability actionId

/-- `_is_available`. `src/jobtology_be/planning/cp_sat_model.py:215–218`. -/
def isAvailable (slot : PlanningSlot) : Option CandidateAvailability → Bool
  | none => true
  | some a => decide (a.availableFrom ≤ slot.startsAt) && decide (slot.endsAt ≤ a.availableUntil)

/-- Progress of the list schedule. -/
structure HintState where
  allocations : List (String × List Nat)
  used : List Nat
  weekly : String → Int
  spent : Int

namespace HintState

/-- Nothing is placed yet. -/
def initial : HintState := ⟨[], [], fun _ ↦ 0, 0⟩

/-- Slot indices placed for an action, when it is placed. -/
def allocation (st : HintState) (actionId : String) : Option (List Nat) :=
  (st.allocations.find? fun a ↦ a.1 = actionId).map Prod.snd

end HintState

/-- The scan over the calendar that picks the hours of one activity: it stops when enough hours
are chosen and returns them with the number chosen in each week. -/
def chooseSlots (p : PlanningProblem) (ready : Candidate) (st : HintState) :
    List (PlanningSlot × Nat) → List Nat → (String → Int) → List Nat × (String → Int)
  | [], chosen, chosenWeekly => (chosen, chosenWeekly)
  | (slot, index) :: rest, chosen, chosenWeekly =>
    let week := slot.capacityWeekKey
    if index ∈ st.used ∨ ¬ isAvailable slot (availabilityOf p ready.actionId) ∨
        st.weekly week + chosenWeekly week ≥ p.constraints.availableHoursPerWeek then
      chooseSlots p ready st rest chosen chosenWeekly
    else
      let chosen := chosen ++ [index]
      let chosenWeekly := Function.update chosenWeekly week (chosenWeekly week + 1)
      if (chosen.length : Int) = ready.estimatedHours then (chosen, chosenWeekly)
      else chooseSlots p ready st rest chosen chosenWeekly

/-- Earliest slot index after every prerequisite's last placed hour. -/
def earliestIndex (st : HintState) (ready : Candidate) : Nat :=
  ((ready.prerequisiteActionIds.filterMap fun key ↦
    (st.allocation key).bind fun indices ↦ indices.getLast?.map (· + 1)).max?).getD 0

/-- One activity taken from the pending list: it is placed whole or passed over. -/
def placeReady (p : PlanningProblem) (st : HintState) (ready : Candidate) : HintState :=
  let overBudget :=
    match p.constraints.maxOutOfPocketKrw with
    | none => false
    | some cap => hasUnknownCost ready || decide (st.spent + knownCost ready > cap)
  if overBudget then st
  else
    let (chosen, chosenWeekly) :=
      chooseSlots p ready st (p.calendar.zipIdx.drop (earliestIndex st ready)) [] fun _ ↦ 0
    if (chosen.length : Int) ≠ ready.estimatedHours then st
    else
      { allocations := (ready.actionId, chosen) :: st.allocations
        used := chosen ++ st.used
        weekly := fun week ↦ st.weekly week + chosenWeekly week
        spent := st.spent + knownCost ready }

/-- The loop over pending activities; each round removes the first one whose prerequisites are
all placed, so the number of rounds is bounded by the number of activities. -/
def listSchedule (p : PlanningProblem) : Nat → List Candidate → HintState → HintState
  | 0, _, st => st
  | rounds + 1, pending, st =>
    match pending.find? fun c ↦ c.prerequisiteActionIds.all fun k ↦ (st.allocation k).isSome with
    | none => st
    | some ready =>
      listSchedule p rounds (pending.eraseP fun c ↦ c.actionId = ready.actionId)
        (placeReady p st ready)

/-- The pending order: foundational activities first, then by action id. -/
def pendingOrder (p : PlanningProblem) (cs : List Candidate) : List Candidate :=
  cs.insertionSort fun a b ↦
    toLex (decide (a.actionId ∉ p.foundationalPriorityActionIds), a.actionId) ≤
      toLex (decide (b.actionId ∉ p.foundationalPriorityActionIds), b.actionId)

/-- `_add_schedule_hint`: the placed hours of every candidate, or nothing when coverage is required
and the list schedule does not reach it. `src/jobtology_be/planning/cp_sat_model.py:142–200`. -/
def scheduleHint (p : PlanningProblem) (cs : List Candidate) (requireRequiredCoverage : Bool) :
    Option (List (Candidate × List Nat)) :=
  let st := listSchedule p cs.length (pendingOrder p cs) HintState.initial
  let covered := (cs.filter fun c ↦ (st.allocation c.actionId).isSome).foldl
    (fun keys c ↦ keys ∪ c.outcomeRequirementKeys) ∅
  if requireRequiredCoverage && !decide (p.requiredRequirementKeys ⊆ covered) then none
  else some (cs.map fun c ↦ (c, (st.allocation c.actionId).getD []))

end Jobtology.Planning
