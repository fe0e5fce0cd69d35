import Jobtology.Base.Collections
import Jobtology.Base.Generator
import Jobtology.Base.Json

/-!
# Events of the provider

`response_events` of `llm/streaming.py`: lines of server-sent events are gathered into payloads,
and payloads read as events, until the response is completed. The JSON reader is a parameter.
-/

namespace Jobtology.Llm

open Jobtology.Base

/-- Why a stream fails: `ProviderStreamError`, or a payload that is not JSON.
`src/jobtology_be/llm/streaming.py:10–11`. -/
inductive StreamError
  | status (code : Nat)
  | eventTooLarge
  | notJson
  | invalidEvent
  | responseFailed
  | eventAfterCompletion
  | interrupted
  deriving DecidableEq

/-- An event: an object with a text as its type. -/
structure ProviderEvent where
  type : String
  members : List (String × Json)

/-- The value under a key of an object. -/
def memberOf (members : List (String × Json)) (key : String) : Option Json :=
  (lookupLast (fun m : String × Json ↦ m.1) members key).map (·.2)

/-- A JSON value as an event. -/
def eventOf : Json → Option ProviderEvent
  | .obj members =>
    match memberOf members "type" with
    | some (.str type) => some ⟨type, members⟩
    | _ => none
  | _ => none

/-- The types of events that end a response without completing it. -/
def failedTypes : List String := ["response.failed", "response.incomplete", "error"]

/-- The types of events that are passed on. -/
def passedTypes : List String :=
  ["response.output_text.delta", "response.output_item.done", "response.completed"]

/-- What `response_events` keeps between lines. -/
structure Decoder where
  completed : Bool := false
  data : List (List Char) := []
  size : Nat := 0

/-- The data of a line, `line[5:].lstrip(" ")` after `data:`. -/
def dataOf (line : List Char) : Option (List Char) :=
  if "data:".toList <+: line then some ((line.drop 5).dropWhile (· = ' ')) else none

/-- A payload is dispatched. -/
def Decoder.dispatch (loads : List Char → Option Json) (d : Decoder) (payload : List Char) :
    List ProviderEvent × Except StreamError Decoder :=
  let next : Decoder := { d with data := [], size := 0 }
  if payload = "[DONE]".toList then ([], .ok next)
  else
    match loads payload with
    | none => ([], .error .notJson)
    | some value =>
      match eventOf value with
      | none => ([], .error .invalidEvent)
      | some event =>
        if event.type ∈ failedTypes then ([], .error .responseFailed)
        else if d.completed then ([], .error .eventAfterCompletion)
        else (if event.type ∈ passedTypes then [event] else [],
          .ok { next with completed := decide (event.type = "response.completed") })

/-- The body of the loop over the lines. -/
def Decoder.readLine (loads : List Char → Option Json) (d : Decoder) (line : List Char) :
    List ProviderEvent × Except StreamError Decoder :=
  match dataOf line with
  | some data =>
    if 700000 < d.size + line.length then ([], .error .eventTooLarge)
    else ([], .ok { d with data := d.data ++ [data], size := d.size + line.length })
  | none =>
    if line ≠ [] ∨ d.data = [] then ([], .ok d)
    else d.dispatch loads (['\n'].intercalate d.data)

/-- `response_events`: the events that are passed on, and how the stream ends.
`src/jobtology_be/llm/streaming.py:14–52`. -/
def responseEvents (loads : List Char → Option Json) (status : Nat) (lines : List (List Char)) :
    List ProviderEvent × Except StreamError Unit :=
  if status ≠ 200 then ([], .error (.status status))
  else
    let run := produce (Decoder.readLine loads) {} lines
    (run.1, match run.2 with
      | .error e => .error e
      | .ok d => if d.completed then .ok () else .error .interrupted)

/-! ### A stream that ends normally -/

/-- The payloads that lines dispatch, after the data that are pending. -/
def payloads : List (List Char) → List (List Char) → List (List Char)
  | _, [] => []
  | pending, line :: rest =>
    match dataOf line with
    | some data => payloads (pending ++ [data]) rest
    | none =>
      if line ≠ [] ∨ pending = [] then payloads pending rest
      else ['\n'].intercalate pending :: payloads [] rest

/-- The payloads that stand for events. -/
def eventPayloads (pending lines : List (List Char)) : List (List Char) :=
  (payloads pending lines).filter (· ≠ "[DONE]".toList)

/-- The type of the event of a payload. -/
def typeOf (loads : List Char → Option Json) (payload : List Char) : Option String :=
  ((loads payload).bind eventOf).map (·.type)

/-- The last event of the lines, and no other one, is the completed event. -/
def CompletedOnce (loads : List Char → Option Json) (events : List (List Char)) : Prop :=
  ∃ before last, events = before ++ [last] ∧ typeOf loads last = some "response.completed" ∧
    ∀ payload ∈ before, ∃ type, typeOf loads payload = some type ∧ type ≠ "response.completed"

section Ends

variable {loads : List Char → Option Json}

/-- What a payload that is dispatched does: it is the end mark, or an event before completion. -/
theorem dispatch_ok {d d' : Decoder} {payload : List Char} {out : List ProviderEvent}
    (h : d.dispatch loads payload = (out, .ok d')) :
    d'.data = [] ∧ (payload = "[DONE]".toList ∧ d'.completed = d.completed ∨
      payload ≠ "[DONE]".toList ∧ d.completed = false ∧ ∃ type,
        typeOf loads payload = some type ∧
          d'.completed = decide (type = "response.completed")) := by
  unfold Decoder.dispatch at h
  dsimp only at h
  by_cases hdone : payload = "[DONE]".toList
  · rw [if_pos hdone] at h
    obtain rfl := Except.ok.inj (Prod.mk.inj h).2
    exact ⟨rfl, .inl ⟨hdone, rfl⟩⟩
  · rw [if_neg hdone] at h
    cases hloads : loads payload with
    | none =>
      rw [hloads] at h
      cases (Prod.mk.inj h).2
    | some value =>
      rw [hloads] at h
      dsimp only at h
      cases hevent : eventOf value with
      | none =>
        rw [hevent] at h
        cases (Prod.mk.inj h).2
      | some event =>
        rw [hevent] at h
        dsimp only at h
        have htype : typeOf loads payload = some event.type := by
          unfold typeOf
          rw [hloads, Option.bind_some, hevent, Option.map_some]
        split at h
        · cases (Prod.mk.inj h).2
        · split at h
          · cases (Prod.mk.inj h).2
          · next hopen =>
            obtain rfl := Except.ok.inj (Prod.mk.inj h).2
            exact ⟨rfl, .inr ⟨hdone, eq_false_of_ne_true hopen, event.type, htype, rfl⟩⟩

private theorem filter_payloads_done {payload : List Char} {rest : List (List Char)}
    (h : payload = "[DONE]".toList) :
    (payload :: rest).filter (· ≠ "[DONE]".toList) = rest.filter (· ≠ "[DONE]".toList) :=
  List.filter_cons_of_neg fun hne ↦ absurd h (of_decide_eq_true hne)

private theorem filter_payloads_event {payload : List Char} {rest : List (List Char)}
    (h : payload ≠ "[DONE]".toList) :
    (payload :: rest).filter (· ≠ "[DONE]".toList) =
      payload :: rest.filter (· ≠ "[DONE]".toList) :=
  List.filter_cons_of_pos (decide_eq_true h)

/-- The events of lines that are read to their end: the last one alone completes the response. -/
theorem eventPayloads_of_read {d d' : Decoder} {lines : List (List Char)}
    (h : (produce (Decoder.readLine loads) d lines).2 = .ok d') :
    (d.completed = true → eventPayloads d.data lines = [] ∧ d'.completed = true) ∧
      (d.completed = false → d'.completed = true →
        CompletedOnce loads (eventPayloads d.data lines)) := by
  induction lines generalizing d with
  | nil =>
    obtain rfl := Except.ok.inj h
    exact ⟨fun hc ↦ ⟨rfl, hc⟩, fun hopen hc ↦ absurd (hopen.symm.trans hc) Bool.false_ne_true⟩
  | cons line rest ih =>
    obtain ⟨out, middle, hline, hrest⟩ := produce_cons_eq_ok.mp h
    have hall := ih hrest
    unfold Decoder.readLine at hline
    unfold eventPayloads payloads
    cases hdata : dataOf line with
    | some data =>
      rw [hdata] at hline
      dsimp only at hline ⊢
      split at hline
      · cases (Prod.mk.inj hline).2
      · obtain rfl := Except.ok.inj (Prod.mk.inj hline).2
        exact hall
    | none =>
      rw [hdata] at hline
      dsimp only at hline ⊢
      by_cases hskip : line ≠ [] ∨ d.data = []
      · rw [if_pos hskip] at hline ⊢
        obtain rfl := Except.ok.inj (Prod.mk.inj hline).2
        exact hall
      · rw [if_neg hskip] at hline ⊢
        obtain ⟨hpending, hcase⟩ := dispatch_ok hline
        rw [hpending] at hall
        rcases hcase with ⟨hdone, hsame⟩ | ⟨hevent, hopen, type, htype, hcompleted⟩
        · rw [filter_payloads_done hdone, ← hsame]
          exact hall
        · rw [filter_payloads_event hevent]
          refine ⟨fun hc ↦ absurd (hopen.symm.trans hc) Bool.false_ne_true, fun _ hend ↦ ?_⟩
          by_cases hlast : type = "response.completed"
          · have hnone := (hall.1 (hcompleted.trans (decide_eq_true hlast))).1
            refine ⟨[], _, ?_, htype.trans (congrArg some hlast), nofun⟩
            rw [List.nil_append]
            exact congrArg _ hnone
          · obtain ⟨before, last, hsplit, hcompletes, hbefore⟩ :=
              hall.2 (hcompleted.trans (decide_eq_false hlast)) hend
            refine ⟨_ :: before, last, congrArg _ hsplit, hcompletes, ?_⟩
            rw [List.forall_mem_cons]
            exact ⟨⟨type, htype, hlast⟩, hbefore⟩

/-- A stream ends normally only after exactly one completed event, with no event after it. -/
theorem completedOnce_of_ends {status : Nat} {lines : List (List Char)}
    (h : (responseEvents loads status lines).2 = .ok ()) :
    CompletedOnce loads (eventPayloads [] lines) := by
  unfold responseEvents at h
  split at h
  · cases h
  · dsimp only at h
    split at h
    · cases h
    · next d hd =>
      split at h
      · next hcompleted => exact (eventPayloads_of_read hd).2 rfl hcompleted
      · cases h

/-- What a step passes on: the completed event when it completes the response. -/
theorem completed_passed {d d' : Decoder} {line : List Char} {out : List ProviderEvent}
    (h : d.readLine loads line = (out, .ok d')) (hcompleted : d'.completed = true) :
    d.completed = true ∨ ∃ event ∈ out, event.type = "response.completed" := by
  unfold Decoder.readLine at h
  split at h
  · split at h
    · cases (Prod.mk.inj h).2
    · obtain rfl := Except.ok.inj (Prod.mk.inj h).2
      exact .inl hcompleted
  · split at h
    · obtain rfl := Except.ok.inj (Prod.mk.inj h).2
      exact .inl hcompleted
    · unfold Decoder.dispatch at h
      dsimp only at h
      split at h
      · obtain rfl := Except.ok.inj (Prod.mk.inj h).2
        exact .inl hcompleted
      · split at h
        · cases (Prod.mk.inj h).2
        · split at h
          · cases (Prod.mk.inj h).2
          · next event _ =>
            split at h
            · cases (Prod.mk.inj h).2
            · split at h
              · cases (Prod.mk.inj h).2
              · obtain ⟨rfl, hd⟩ := Prod.mk.inj h
                obtain rfl := Except.ok.inj hd
                have htype : event.type = "response.completed" := of_decide_eq_true hcompleted
                have hpassed : event.type ∈ passedTypes := by
                  rw [htype]
                  decide
                rw [if_pos hpassed]
                exact .inr ⟨event, List.mem_singleton_self _, htype⟩

/-- A stream that ends normally passes the completed event on. -/
theorem exists_completed_of_ends {status : Nat} {lines : List (List Char)}
    (h : (responseEvents loads status lines).2 = .ok ()) :
    ∃ event ∈ (responseEvents loads status lines).1, event.type = "response.completed" := by
  unfold responseEvents at h ⊢
  split at h
  · cases h
  · next hstatus =>
    rw [if_neg hstatus]
    dsimp only at h ⊢
    split at h
    · cases h
    · next d hd =>
      split at h
      · next hcompleted =>
        have hstart : ({} : Decoder).completed = true →
            ∃ event ∈ ([] : List ProviderEvent), event.type = "response.completed" := nofun
        have hall := produce_invariant
          (fun _ (d : Decoder) (out : List ProviderEvent) ↦ d.completed = true →
            ∃ event ∈ out, event.type = "response.completed")
          (List.nil_append lines) hstart ?_ hd hcompleted
        · rwa [List.nil_append] at hall
        · intro _ line _ d out more d' _ hold hline hdone
          rcases completed_passed hline hdone with hbefore | ⟨event, hevent, htype⟩
          · obtain ⟨event, hevent, htype⟩ := hold hbefore
            exact ⟨event, List.mem_append_left _ hevent, htype⟩
          · exact ⟨event, List.mem_append_right _ hevent, htype⟩
      · cases h

end Ends

end Jobtology.Llm
