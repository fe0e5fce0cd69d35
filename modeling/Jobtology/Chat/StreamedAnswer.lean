import Jobtology.Chat.Workspace
import Jobtology.Llm.Streaming

/-!
# The streamed answer

The end of `_events` of `workspace.py`: the text of the answer arrives in deltas, what a partial
parser reads of its reply is emitted as it grows, and the answer follows when the whole text
validates and its reply is the one that was emitted. The parsers of `pydantic_core` are parameters.
-/

namespace Jobtology.Chat

open Jobtology.Base Jobtology.Llm

/-- What the loop reads with `from_json` and `model_validate_json`: `none` is a `ValueError`, and
a value without a text under `reply` reads as `some none`. -/
structure AnswerParser where
  /-- With `allow_partial="trailing-strings"`. -/
  trailingStrings : List Char → Option (Option (List Char))
  /-- With `allow_partial=True`. -/
  allowPartial : List Char → Option (Option (List Char))
  validate : List Char → Option {selection : AnswerSelection // selection.Valid}
  validate_nil : validate [] = none

/-- An event for the user. -/
inductive WorkspaceEvent
  | progress (stage message : String)
  | answerDelta (delta : List Char)
  | answer (data : WorkspaceAnswer)
  | done

/-- Why no answer follows. -/
inductive AnswerError
  | provider (e : StreamError)
  | invalidDelta
  | answerTooLarge
  | notPartial
  | answerInterrupted
  | invalidAnswer
  | streamedAnswerChanged

/-- What the loop keeps between events. -/
structure AnswerStream where
  text : List Char := []
  emitted : List Char := []
  completed : Bool := false
  replyComplete : Bool := false

/-- A reply that goes on from what was emitted is emitted. -/
def AnswerStream.extend (s : AnswerStream) (reply : Option (List Char)) :
    Except AnswerError (List WorkspaceEvent × AnswerStream) :=
  match reply with
  | none => .ok ([], s)
  | some reply =>
    if s.emitted <+: reply ∧ s.emitted.length < reply.length then
      if 6000 < reply.length then .error .answerTooLarge
      else .ok ([.answerDelta (reply.drop s.emitted.length)], { s with emitted := reply })
    else .ok ([], s)

/-- The reply is complete once it is read without trailing strings. -/
def AnswerStream.finalize (parser : AnswerParser) (s : AnswerStream) :
    List WorkspaceEvent × Except AnswerError AnswerStream :=
  if s.replyComplete then ([], .ok s)
  else
    match parser.allowPartial s.text with
    | none => ([], .error .notPartial)
    | some none => ([], .ok s)
    | some (some _) =>
      ([.progress "finalizing" "그래프 연결을 정리하고 있어요."], .ok { s with replyComplete := true })

/-- A delta of the text. -/
def AnswerStream.readDelta (parser : AnswerParser) (s : AnswerStream) (delta : List Char) :
    List WorkspaceEvent × Except AnswerError AnswerStream :=
  if 128000 < s.text.length + delta.length then ([], .error .invalidDelta)
  else
    let longer := { s with text := s.text ++ delta }
    match parser.trailingStrings longer.text with
    | none => ([], .ok longer)
    | some reply =>
      match longer.extend reply with
      | .error e => ([], .error e)
      | .ok (deltas, extended) =>
        (deltas ++ (extended.finalize parser).1, (extended.finalize parser).2)

/-- The delta of an event. -/
def deltaOf (event : ProviderEvent) : Option (List Char) :=
  match memberOf event.members "delta" with
  | some (.str delta) => some delta.toList
  | _ => none

/-- The body of the loop over the events of the provider. -/
def AnswerStream.readEvent (parser : AnswerParser) (s : AnswerStream) (event : ProviderEvent) :
    List WorkspaceEvent × Except AnswerError AnswerStream :=
  if event.type = "response.output_text.delta" then
    match deltaOf event with
    | none => ([], .error .invalidDelta)
    | some delta => s.readDelta parser delta
  else if event.type = "response.completed" then ([], .ok { s with completed := true })
  else ([], .ok s)

/-- The answer after the loop. -/
def AnswerStream.answer (parser : AnswerParser) (compose : AnswerSelection → WorkspaceAnswer)
    (s : AnswerStream) : Except AnswerError WorkspaceAnswer :=
  if s.completed then
    match parser.validate s.text with
    | none => .error .invalidAnswer
    | some selection =>
      if selection.1.reply.toList = s.emitted then .ok (compose selection.1)
      else .error .streamedAnswerChanged
  else .error .answerInterrupted

/-- The events of an answer, and how they end. -/
def streamAnswer (parser : AnswerParser) (compose : AnswerSelection → WorkspaceAnswer)
    (provider : List ProviderEvent × Except StreamError Unit) :
    List WorkspaceEvent × Except AnswerError Unit :=
  let run := produce (AnswerStream.readEvent parser) {} provider.1
  match run.2, provider.2 with
  | .error e, _ => (run.1, .error e)
  | .ok _, .error e => (run.1, .error (.provider e))
  | .ok s, .ok () =>
    match s.answer parser compose with
    | .error e => (run.1, .error e)
    | .ok data => (run.1 ++ [.answer data, .done], .ok ())

/-- The end of `_events`, from the lines of the provider on.
`src/jobtology_be/chat/workspace.py:74–91,93–379`. -/
def answerEvents (loads : List Char → Option Json) (parser : AnswerParser)
    (selectSuggestions : List String → List String) (initial : WorkspaceEvidence) (s : Search)
    (prompt : Prompt) (status : Nat) (lines : List (List Char)) :
    List WorkspaceEvent × Except AnswerError Unit :=
  streamAnswer parser (composeAnswer selectSuggestions initial s prompt)
    (responseEvents loads status lines)

/-! ### What the user sees -/

/-- The delta that an event shows. -/
def WorkspaceEvent.delta? : WorkspaceEvent → Option (List Char)
  | .answerDelta delta => some delta
  | _ => none

/-- The answer that an event shows. -/
def WorkspaceEvent.answer? : WorkspaceEvent → Option WorkspaceAnswer
  | .answer data => some data
  | _ => none

/-- The deltas of events. -/
def deltas (events : List WorkspaceEvent) : List (List Char) := events.filterMap (·.delta?)

/-- The answers of events. -/
def answers (events : List WorkspaceEvent) : List WorkspaceAnswer := events.filterMap (·.answer?)

/-- The text that events of the provider carry. -/
def receivedText (events : List ProviderEvent) : List Char :=
  (events.filter (·.type = "response.output_text.delta")).flatMap fun e ↦ (deltaOf e).getD []

/-- Deltas that show, one after the other, more and more of a reply: each is new, and together
with those before it it is what the parser reads of a beginning of the text. -/
def Growing (parser : AnswerParser) (text : List Char) (shown : List (List Char)) : Prop :=
  (∀ delta ∈ shown, delta ≠ []) ∧ ∀ k, 0 < k → k ≤ shown.length →
    ∃ beginning, beginning <+: text ∧
      parser.trailingStrings beginning = some (some (shown.take k).flatten)

section Loop

variable {parser : AnswerParser} {s s' : AnswerStream} {out more : List WorkspaceEvent}
  {seen : List ProviderEvent}

private theorem deltas_append (xs ys : List WorkspaceEvent) :
    deltas (xs ++ ys) = deltas xs ++ deltas ys :=
  List.filterMap_append

private theorem answers_append (xs ys : List WorkspaceEvent) :
    answers (xs ++ ys) = answers xs ++ answers ys :=
  List.filterMap_append

private theorem receivedText_append (xs ys : List ProviderEvent) :
    receivedText (xs ++ ys) = receivedText xs ++ receivedText ys := by
  unfold receivedText
  rw [List.filter_append, List.flatMap_append]

private theorem Growing.mono {text longer : List Char} {shown : List (List Char)}
    (h : Growing parser text shown) (hlonger : text <+: longer) : Growing parser longer shown := by
  refine ⟨h.1, fun k hpos hk ↦ ?_⟩
  obtain ⟨beginning, hbeginning, hread⟩ := h.2 k hpos hk
  exact ⟨beginning, hbeginning.trans hlonger, hread⟩

/-- The next delta. -/
theorem Growing.snoc {text delta : List Char} {shown : List (List Char)}
    (h : Growing parser text shown) (hdelta : delta ≠ [])
    (hread : parser.trailingStrings text = some (some (shown.flatten ++ delta))) :
    Growing parser text (shown ++ [delta]) := by
  constructor
  · intro d hd
    rcases List.mem_append.mp hd with hold | hnew
    · exact h.1 d hold
    · rw [List.mem_singleton.mp hnew]
      exact hdelta
  · intro k hpos hk
    rw [List.length_append, List.length_singleton] at hk
    by_cases hlast : k ≤ shown.length
    · rw [List.take_append_of_le_length hlast]
      exact h.2 k hpos hlast
    · refine ⟨text, List.prefix_rfl, ?_⟩
      rw [List.take_of_length_le (by rw [List.length_append, List.length_singleton]; omega), hread,
        List.flatten_append, List.flatten_singleton]

/-- What the loop keeps: the text it received, and that the deltas are what it emitted. -/
private structure Streamed (parser : AnswerParser) (seen : List ProviderEvent) (s : AnswerStream)
    (out : List WorkspaceEvent) : Prop where
  text : s.text = receivedText seen
  bounded : s.text.length ≤ 128000
  emitted : (deltas out).flatten = s.emitted
  growing : Growing parser s.text (deltas out)
  unanswered : answers out = []
  completed : (∃ event ∈ seen, event.type = "response.completed") → s.completed = true

/-- What extending the reply emits. -/
theorem extend_ok {reply : Option (List Char)} (h : s.extend reply = .ok (more, s')) :
    s'.text = s.text ∧ s'.completed = s.completed ∧ answers more = [] ∧
      (deltas more = [] ∧ s'.emitted = s.emitted ∨
      ∃ delta, delta ≠ [] ∧ deltas more = [delta] ∧ s'.emitted = s.emitted ++ delta ∧
        reply = some (s.emitted ++ delta)) := by
  unfold AnswerStream.extend at h
  cases reply with
  | none =>
    obtain ⟨rfl, rfl⟩ := Prod.mk.inj (Except.ok.inj h)
    exact ⟨rfl, rfl, rfl, .inl ⟨rfl, rfl⟩⟩
  | some reply =>
    dsimp only at h
    split at h
    · next hgrows =>
      obtain ⟨⟨delta, rfl⟩, hlonger⟩ := hgrows
      split at h
      · cases h
      · obtain ⟨rfl, rfl⟩ := Prod.mk.inj (Except.ok.inj h)
        have hdelta : delta ≠ [] := by
          rintro rfl
          rw [List.append_nil] at hlonger
          exact lt_irrefl _ hlonger
        refine ⟨rfl, rfl, rfl, .inr ⟨delta, hdelta, ?_, rfl, rfl⟩⟩
        rw [List.drop_left]
        rfl
    · obtain ⟨rfl, rfl⟩ := Prod.mk.inj (Except.ok.inj h)
      exact ⟨rfl, rfl, rfl, .inl ⟨rfl, rfl⟩⟩

/-- Finalizing shows no delta. -/
theorem finalize_spec (parser : AnswerParser) (s : AnswerStream) :
    deltas (s.finalize parser).1 = [] ∧ answers (s.finalize parser).1 = [] ∧
      ∀ t, (s.finalize parser).2 = .ok t →
        t.text = s.text ∧ t.emitted = s.emitted ∧ t.completed = s.completed := by
  unfold AnswerStream.finalize
  split
  · refine ⟨rfl, rfl, fun t ht ↦ ?_⟩
    obtain rfl := Except.ok.inj ht
    exact ⟨rfl, rfl, rfl⟩
  · split
    · exact ⟨rfl, rfl, nofun⟩
    · refine ⟨rfl, rfl, fun t ht ↦ ?_⟩
      obtain rfl := Except.ok.inj ht
      exact ⟨rfl, rfl, rfl⟩
    · refine ⟨rfl, rfl, fun t ht ↦ ?_⟩
      obtain rfl := Except.ok.inj ht
      exact ⟨rfl, rfl, rfl⟩

/-- What a delta of the text shows, also when it is the last thing that is read. -/
theorem readDelta_spec (h : Streamed parser seen s out) (delta : List Char) :
    answers (s.readDelta parser delta).1 = [] ∧
      Growing parser (s.text ++ delta) (deltas (out ++ (s.readDelta parser delta).1)) ∧
      ∀ t, (s.readDelta parser delta).2 = .ok t →
        t.text = s.text ++ delta ∧ t.text.length ≤ 128000 ∧ t.completed = s.completed ∧
          (deltas (out ++ (s.readDelta parser delta).1)).flatten = t.emitted := by
  have hold : Growing parser (s.text ++ delta) (deltas out) :=
    h.growing.mono (List.prefix_append _ _)
  unfold AnswerStream.readDelta
  dsimp only
  split
  · rw [List.append_nil]
    exact ⟨rfl, hold, nofun⟩
  · next hfits =>
    have hbound : (s.text ++ delta).length ≤ 128000 := by
      rw [List.length_append]
      omega
    split
    · rw [List.append_nil]
      refine ⟨rfl, hold, fun t ht ↦ ?_⟩
      obtain rfl := Except.ok.inj ht
      exact ⟨rfl, hbound, rfl, h.emitted⟩
    · next reply hread =>
      split
      · rw [List.append_nil]
        exact ⟨rfl, hold, nofun⟩
      · next new extended hextend =>
        obtain ⟨htext, hcompleted, hanswers, hcases⟩ := extend_ok hextend
        obtain ⟨hdeltas, hunanswered, hfinal⟩ := finalize_spec parser extended
        have hshown : deltas (out ++ (new ++ (extended.finalize parser).1)) =
            deltas out ++ deltas new := by
          rw [deltas_append, deltas_append, hdeltas, List.append_nil]
        have hflat : (deltas out ++ deltas new).flatten = extended.emitted := by
          rw [List.flatten_append, h.emitted]
          rcases hcases with ⟨hnone, hsame⟩ | ⟨d, -, hone, hemitted, -⟩
          · rw [hnone, hsame, List.flatten_nil, List.append_nil]
          · rw [hone, hemitted, List.flatten_singleton]
        refine ⟨?_, ?_, fun t ht ↦ ?_⟩
        · rw [answers_append, hanswers, hunanswered, List.append_nil]
        · rw [hshown]
          rcases hcases with ⟨hnone, -⟩ | ⟨d, hd, hone, -, hreply⟩
          · rw [hnone, List.append_nil]
            exact hold
          · rw [hone]
            apply hold.snoc hd
            rw [h.emitted, ← hreply]
            exact hread
        · obtain ⟨hsame, hemitted, hfinished⟩ := hfinal t ht
          rw [hshown, hflat, hemitted, hsame, htext]
          exact ⟨rfl, hbound, hfinished.trans hcompleted, rfl⟩

private theorem receivedText_delta (seen : List ProviderEvent) {event : ProviderEvent}
    {delta : List Char} (htype : event.type = "response.output_text.delta")
    (hdelta : deltaOf event = some delta) :
    receivedText (seen ++ [event]) = receivedText seen ++ delta := by
  rw [receivedText_append]
  congr 1
  unfold receivedText
  rw [List.filter_cons_of_pos (by simpa using htype), List.filter_nil, List.flatMap_cons, hdelta,
    List.flatMap_nil, List.append_nil, Option.getD_some]

private theorem receivedText_other (seen : List ProviderEvent) {event : ProviderEvent}
    (htype : event.type ≠ "response.output_text.delta") :
    receivedText (seen ++ [event]) = receivedText seen := by
  have hnone : receivedText [event] = [] := by
    unfold receivedText
    rw [List.filter_cons_of_neg (by simpa using htype), List.filter_nil, List.flatMap_nil]
  rw [receivedText_append, hnone, List.append_nil]

private theorem streamed_start : Streamed parser [] {} [] :=
  ⟨rfl, Nat.zero_le _, rfl, ⟨nofun, fun _ hpos hk ↦ absurd (hpos.trans_le hk) (lt_irrefl 0)⟩, rfl,
    nofun⟩

/-- One event keeps what the loop keeps. -/
theorem readEvent_ok {event : ProviderEvent} (h : Streamed parser seen s out)
    (hstep : s.readEvent parser event = (more, .ok s')) :
    Streamed parser (seen ++ [event]) s' (out ++ more) := by
  unfold AnswerStream.readEvent at hstep
  by_cases htype : event.type = "response.output_text.delta"
  · rw [if_pos htype] at hstep
    cases hdelta : deltaOf event with
    | none =>
      rw [hdelta] at hstep
      cases (Prod.mk.inj hstep).2
    | some delta =>
      rw [hdelta] at hstep
      dsimp only at hstep
      obtain ⟨hanswers, hgrowing, hok⟩ := readDelta_spec h delta
      rw [hstep] at hanswers hgrowing hok
      obtain ⟨htext, hbound, hcompleted, hemitted⟩ := hok s' rfl
      refine ⟨?_, hbound, hemitted, htext ▸ hgrowing, ?_, ?_⟩
      · rw [htext, h.text, receivedText_delta _ htype hdelta]
      · rw [answers_append, h.unanswered, hanswers, List.append_nil]
      · rintro ⟨x, hx, hxtype⟩
        rcases List.mem_append.mp hx with hold | hnew
        · exact hcompleted.trans (h.completed ⟨x, hold, hxtype⟩)
        · rw [List.mem_singleton.mp hnew, htype] at hxtype
          exact absurd hxtype (by decide)
  · rw [if_neg htype] at hstep
    have hsame : more = [] ∧ s'.text = s.text ∧ s'.emitted = s.emitted ∧
        (s.completed = true ∨ event.type = "response.completed" → s'.completed = true) := by
      split at hstep
      · obtain ⟨rfl, hs⟩ := Prod.mk.inj hstep
        obtain rfl := Except.ok.inj hs
        exact ⟨rfl, rfl, rfl, fun _ ↦ rfl⟩
      · next hother =>
        obtain ⟨rfl, hs⟩ := Prod.mk.inj hstep
        obtain rfl := Except.ok.inj hs
        exact ⟨rfl, rfl, rfl, fun h ↦ h.resolve_right hother⟩
    obtain ⟨rfl, htext, hemitted, hcompleted⟩ := hsame
    rw [List.append_nil]
    refine ⟨?_, htext ▸ h.bounded, hemitted ▸ h.emitted, htext ▸ h.growing, h.unanswered, ?_⟩
    · rw [htext, h.text, receivedText_other _ htype]
    · rintro ⟨x, hx, hxtype⟩
      rcases List.mem_append.mp hx with hold | hnew
      · exact hcompleted (.inl (h.completed ⟨x, hold, hxtype⟩))
      · exact hcompleted (.inr (List.mem_singleton.mp hnew ▸ hxtype))

/-- The event that ends the loop shows nothing else. -/
theorem readEvent_error {event : ProviderEvent} {e : AnswerError}
    (h : Streamed parser seen s out) (hstep : s.readEvent parser event = (more, .error e)) :
    answers (out ++ more) = [] ∧
      Growing parser (receivedText (seen ++ [event])) (deltas (out ++ more)) := by
  have hold : Growing parser (receivedText (seen ++ [event])) (deltas out) := by
    rw [receivedText_append, ← h.text]
    exact h.growing.mono (List.prefix_append _ _)
  unfold AnswerStream.readEvent at hstep
  by_cases htype : event.type = "response.output_text.delta"
  · rw [if_pos htype] at hstep
    cases hdelta : deltaOf event with
    | none =>
      rw [hdelta] at hstep
      obtain ⟨rfl, -⟩ := Prod.mk.inj hstep
      rw [List.append_nil]
      exact ⟨h.unanswered, hold⟩
    | some delta =>
      rw [hdelta] at hstep
      dsimp only at hstep
      obtain ⟨hanswers, hgrowing, -⟩ := readDelta_spec h delta
      rw [hstep] at hanswers hgrowing
      rw [answers_append, h.unanswered, hanswers, receivedText_delta _ htype hdelta, ← h.text]
      exact ⟨rfl, hgrowing⟩
  · rw [if_neg htype] at hstep
    split at hstep
    · cases (Prod.mk.inj hstep).2
    · cases (Prod.mk.inj hstep).2

/-- The loop over events that is read to its end. -/
theorem loop_streamed {events : List ProviderEvent}
    (h : (produce (AnswerStream.readEvent parser) {} events).2 = .ok s) :
    Streamed parser events s (produce (AnswerStream.readEvent parser) {} events).1 := by
  have hall := produce_invariant (Streamed parser) (List.nil_append events) streamed_start
    (fun _ _ _ _ _ _ _ _ ↦ readEvent_ok) h
  rwa [List.nil_append] at hall

/-- What the loop shows, however it ends. -/
theorem loop_yields (parser : AnswerParser) (events : List ProviderEvent) :
    answers (produce (AnswerStream.readEvent parser) {} events).1 = [] ∧
      Growing parser (receivedText events)
        (deltas (produce (AnswerStream.readEvent parser) {} events).1) := by
  have hall := produce_yields (Streamed parser)
    (fun out ↦ answers out = [] ∧ Growing parser (receivedText events) (deltas out))
    (List.nil_append events) streamed_start (fun _ _ _ _ _ _ _ _ ↦ readEvent_ok)
    (fun s out h ↦ ⟨h.unanswered, h.text ▸ h.growing⟩) ?_
  · rwa [List.nil_append] at hall
  · intro seen event rest s out more e hsplit h hstep
    obtain ⟨hanswers, hgrowing⟩ := readEvent_error h hstep
    refine ⟨hanswers, hgrowing.mono ?_⟩
    have hevents : events = (seen ++ [event]) ++ rest := by
      rw [List.append_assoc, List.singleton_append, hsplit]
    rw [hevents, receivedText_append (seen ++ [event])]
    exact List.prefix_append _ _

end Loop

/-! ### Independence of the split -/

/-- For each beginning of a valid answer object the parsers read the keys so far, with a beginning
of the final reply; of the whole they read the reply. -/
structure AnswerParser.ReadsBeginnings (parser : AnswerParser) (text reply : List Char) :
    Prop where
  beginning : ∀ shown, shown <+: text → ∀ read, parser.trailingStrings shown = some read →
    (∀ r ∈ read, r <+: reply) ∧ (parser.allowPartial shown).isSome
  whole : parser.trailingStrings text = some (some reply)

/-- The answer that a text stands for. -/
def answerOfText (parser : AnswerParser) (compose : AnswerSelection → WorkspaceAnswer)
    (text : List Char) : Option WorkspaceAnswer :=
  if text.length ≤ 128000 then (parser.validate text).map fun selection ↦ compose selection.1
  else none

section Split

variable {parser : AnswerParser} {s : AnswerStream} {events : List ProviderEvent}
  {text reply : List Char}

private theorem finalize_succeeds (h : (parser.allowPartial s.text).isSome) :
    ∃ t, (s.finalize parser).2 = .ok t ∧ t.text = s.text ∧ t.emitted = s.emitted := by
  have hspec := (finalize_spec parser s).2.2
  obtain ⟨t, ht⟩ : ∃ t, (s.finalize parser).2 = .ok t := by
    obtain ⟨read, hread⟩ := Option.isSome_iff_exists.mp h
    unfold AnswerStream.finalize
    split
    · exact ⟨_, rfl⟩
    · rw [hread]
      cases read with
      | none => exact ⟨_, rfl⟩
      | some r => exact ⟨_, rfl⟩
  exact ⟨t, ht, (hspec t ht).1, (hspec t ht).2.1⟩

/-- Extending by a beginning of the reply leaves a beginning of the reply emitted, and all of it
if it is read. -/
theorem extend_succeeds {read : Option (List Char)} (hemitted : s.emitted <+: reply)
    (hlength : reply.length ≤ 6000) (hread : ∀ r ∈ read, r <+: reply) :
    ∃ new t, s.extend read = .ok (new, t) ∧ t.text = s.text ∧ t.emitted <+: reply ∧
      (read = some reply → t.emitted = reply) := by
  unfold AnswerStream.extend
  cases read with
  | none => exact ⟨[], s, rfl, rfl, hemitted, nofun⟩
  | some r =>
    have hr := hread r rfl
    have hshort : ¬ 6000 < r.length := by
      have hle := hr.length_le
      omega
    dsimp only
    by_cases hgrows : s.emitted <+: r ∧ s.emitted.length < r.length
    · rw [if_pos hgrows, if_neg hshort]
      exact ⟨_, _, rfl, rfl, hr, Option.some.inj⟩
    · rw [if_neg hgrows]
      refine ⟨_, _, rfl, rfl, hemitted, fun hwhole ↦ ?_⟩
      obtain rfl := Option.some.inj hwhole
      have hle : ¬ s.emitted.length < r.length := fun hlt ↦ hgrows ⟨hemitted, hlt⟩
      exact hemitted.eq_of_length (le_antisymm hemitted.length_le (not_lt.mp hle))

/-- What the loop keeps while it reads a valid answer object. -/
private structure Reading (text reply : List Char) (seen : List ProviderEvent)
    (s : AnswerStream) : Prop where
  received : s.text = receivedText seen
  emitted : s.emitted <+: reply
  whole : s.text = text → s.text ≠ [] → s.emitted = reply

private theorem readDelta_succeeds (hreads : parser.ReadsBeginnings text reply)
    (hlength : reply.length ≤ 6000) (hbound : text.length ≤ 128000) {delta : List Char}
    (hbeginning : s.text ++ delta <+: text) (hemitted : s.emitted <+: reply) :
    ∃ t, (s.readDelta parser delta).2 = .ok t ∧ t.text = s.text ++ delta ∧
      t.emitted <+: reply ∧ (t.text = text → t.emitted = reply) := by
  have hfits : ¬ 128000 < s.text.length + delta.length := by
    have hle := hbeginning.length_le
    rw [List.length_append] at hle
    omega
  unfold AnswerStream.readDelta
  dsimp only
  rw [if_neg hfits]
  cases hread : parser.trailingStrings (s.text ++ delta) with
  | none =>
    refine ⟨_, rfl, rfl, hemitted, fun hwhole ↦ ?_⟩
    have hreadWhole := hreads.whole
    rw [← show s.text ++ delta = text from hwhole, hread] at hreadWhole
    cases hreadWhole
  | some read =>
    obtain ⟨hbefore, hpartial⟩ := hreads.beginning _ hbeginning read hread
    obtain ⟨new, extended, hextend, htext, hgrown, hwhole⟩ :=
      extend_succeeds (s := { s with text := s.text ++ delta }) hemitted hlength hbefore
    dsimp only
    rw [hextend]
    obtain ⟨t, ht, hsame, hkept⟩ := finalize_succeeds (s := extended) (by rwa [htext])
    refine ⟨t, ht, hsame.trans htext, hkept ▸ hgrown, fun hall ↦ ?_⟩
    rw [hkept]
    apply hwhole
    have hreadWhole := hreads.whole
    rw [← hall, hsame, htext, hread] at hreadWhole
    exact Option.some.inj hreadWhole

/-- A valid answer object is read to its end, and its reply is emitted. -/
theorem loop_succeeds (hreads : parser.ReadsBeginnings text reply)
    (hlength : reply.length ≤ 6000) (hbound : text.length ≤ 128000)
    (htexts : ∀ event ∈ events, event.type = "response.output_text.delta" →
      (deltaOf event).isSome) (hevents : receivedText events = text) :
    ∃ s, (produce (AnswerStream.readEvent parser) {} events).2 = .ok s ∧
      Reading text reply events s := by
  have hstart : Reading text reply [] {} :=
    ⟨rfl, List.nil_prefix, fun _ hne ↦ absurd rfl hne⟩
  apply produce_succeeds (Reading text reply) (List.nil_append events) hstart
  intro seen event rest s hsplit h
  have hseen : (seen ++ [event]) ++ rest = events := by
    rw [List.append_assoc, List.singleton_append, hsplit]
  have hbeginning : receivedText (seen ++ [event]) <+: text := by
    rw [← hevents, ← hseen, receivedText_append (seen ++ [event])]
    exact List.prefix_append _ _
  have hmem : event ∈ events := by
    rw [← hsplit]
    exact List.mem_append_right _ List.mem_cons_self
  unfold AnswerStream.readEvent
  by_cases htype : event.type = "response.output_text.delta"
  · obtain ⟨delta, hdelta⟩ := Option.isSome_iff_exists.mp (htexts event hmem htype)
    rw [if_pos htype, hdelta]
    dsimp only
    have hreceived := receivedText_delta seen htype hdelta
    rw [hreceived, ← h.received] at hbeginning
    obtain ⟨t, ht, htext, hemitted, hwhole⟩ :=
      readDelta_succeeds hreads hlength hbound hbeginning h.emitted
    refine ⟨(s.readDelta parser delta).1, t, ?_, ?_, hemitted, fun hall _ ↦ hwhole hall⟩
    · rw [← ht]
    · rw [htext, hreceived, h.received]
  · rw [if_neg htype]
    have hreceived := receivedText_other seen htype
    by_cases hcompleted : event.type = "response.completed"
    · rw [if_pos hcompleted]
      exact ⟨_, _, rfl, h.received.trans hreceived.symm, h.emitted, h.whole⟩
    · rw [if_neg hcompleted]
      exact ⟨_, _, rfl, h.received.trans hreceived.symm, h.emitted, h.whole⟩

/-- The answers of a stream are those of its text. -/
theorem answers_streamAnswer {compose : AnswerSelection → WorkspaceAnswer}
    {provider : List ProviderEvent × Except StreamError Unit} (hended : provider.2 = .ok ())
    (hcompleted : ∃ event ∈ provider.1, event.type = "response.completed")
    (htexts : ∀ event ∈ provider.1, event.type = "response.output_text.delta" →
      (deltaOf event).isSome) (hevents : receivedText provider.1 = text)
    (hreads : ∀ selection, parser.validate text = some selection →
      parser.ReadsBeginnings text selection.1.reply.toList) :
    answers (streamAnswer parser compose provider).1 =
      (answerOfText parser compose text).toList := by
  have hunanswered := (loop_yields parser provider.1).1
  -- A selection that validates within the bound is read to its end.
  have hsucceeds (selection : {selection : AnswerSelection // selection.Valid})
      (hbound : text.length ≤ 128000) (hselection : parser.validate text = some selection) :
      ∃ s, (produce (AnswerStream.readEvent parser) {} provider.1).2 = .ok s ∧
        s.emitted = selection.1.reply.toList := by
    have hlength : selection.1.reply.toList.length ≤ 6000 := selection.2.1.2
    obtain ⟨s, hs, hreading⟩ :=
      loop_succeeds (hreads selection hselection) hlength hbound htexts hevents
    have htext := hreading.received.trans hevents
    refine ⟨s, hs, hreading.whole htext ?_⟩
    rw [htext]
    rintro rfl
    rw [parser.validate_nil] at hselection
    cases hselection
  unfold streamAnswer
  dsimp only
  rw [hended]
  cases hrun : (produce (AnswerStream.readEvent parser) {} provider.1).2 with
  | error e =>
    dsimp only
    rw [hunanswered]
    unfold answerOfText
    split
    · next hbound =>
      cases hselection : parser.validate text with
      | none => rfl
      | some selection =>
        obtain ⟨s, hs, -⟩ := hsucceeds selection hbound hselection
        cases hrun.symm.trans hs
    · rfl
  | ok s =>
    have hstreamed := loop_streamed hrun
    have htext : s.text = text := hstreamed.text.trans hevents
    have hbound : text.length ≤ 128000 := htext ▸ hstreamed.bounded
    dsimp only
    unfold AnswerStream.answer answerOfText
    rw [if_pos (hstreamed.completed hcompleted), if_pos hbound, htext]
    cases hselection : parser.validate text with
    | none => exact hunanswered
    | some selection =>
      obtain ⟨t, ht, hemitted⟩ := hsucceeds selection hbound hselection
      obtain rfl := Except.ok.inj (hrun.symm.trans ht)
      dsimp only
      rw [if_pos hemitted.symm, answers_append, hunanswered]
      rfl

/-- What a stream shows: more and more of a reply, and that of the answer when there is one. -/
theorem streamAnswer_shows {compose : AnswerSelection → WorkspaceAnswer}
    (hcompose : ∀ selection, (compose selection).reply = selection.reply)
    (provider : List ProviderEvent × Except StreamError Unit) :
    Growing parser (receivedText provider.1) (deltas (streamAnswer parser compose provider).1) ∧
      ∀ data ∈ answers (streamAnswer parser compose provider).1, provider.2 = .ok () ∧
        (deltas (streamAnswer parser compose provider).1).flatten = data.reply.toList := by
  obtain ⟨hunanswered, hgrowing⟩ := loop_yields parser provider.1
  unfold streamAnswer
  dsimp only
  cases hrun : (produce (AnswerStream.readEvent parser) {} provider.1).2 with
  | error e =>
    dsimp only
    rw [hunanswered]
    exact ⟨hgrowing, nofun⟩
  | ok s =>
    have hstreamed := loop_streamed hrun
    cases hended : provider.2 with
    | error e =>
      dsimp only
      rw [hunanswered]
      exact ⟨hgrowing, nofun⟩
    | ok done =>
      dsimp only
      cases hanswer : s.answer parser compose with
      | error e =>
        dsimp only
        rw [hunanswered]
        exact ⟨hgrowing, nofun⟩
      | ok data =>
        have hdeltas : deltas [WorkspaceEvent.answer data, .done] = [] := rfl
        have hreply : s.emitted = data.reply.toList := by
          unfold AnswerStream.answer at hanswer
          split at hanswer
          · split at hanswer
            · cases hanswer
            · next selection _ =>
              split at hanswer
              · next hsame =>
                rw [← Except.ok.inj hanswer, hcompose, hsame]
              · cases hanswer
          · cases hanswer
        dsimp only
        rw [deltas_append, hdeltas, List.append_nil, answers_append, hunanswered]
        refine ⟨hgrowing, fun x hx ↦ ⟨rfl, ?_⟩⟩
        obtain rfl : x = data := List.mem_singleton.mp hx
        exact hstreamed.emitted.trans hreply

end Split

/-- Lines whose stream ends normally and whose deltas carry a text. -/
structure CarriesText (loads : List Char → Option Json) (status : Nat) (lines : List (List Char))
    (text : List Char) : Prop where
  ends : (responseEvents loads status lines).2 = .ok ()
  texts : ∀ event ∈ (responseEvents loads status lines).1,
    event.type = "response.output_text.delta" → (deltaOf event).isSome
  received : receivedText (responseEvents loads status lines).1 = text

/-- What was streamed is what was answered: a stream ends normally only after one completed event
and nothing more; the deltas show more and more of a reply, all of it when there is an answer; and
the answer depends on the text alone, however it is split.
`src/jobtology_be/chat/workspace.py:285–352`, `src/jobtology_be/llm/streaming.py:14–52`. -/
theorem streamed_answer (loads : List Char → Option Json) (parser : AnswerParser)
    (selectSuggestions : List String → List String) (initial : WorkspaceEvidence) (s : Search)
    (prompt : Prompt) :
    let events (status : Nat) (lines : List (List Char)) :=
      (answerEvents loads parser selectSuggestions initial s prompt status lines).1
    (∀ status lines, (responseEvents loads status lines).2 = .ok () →
      CompletedOnce loads (eventPayloads [] lines)) ∧
    (∀ status lines,
      Growing parser (receivedText (responseEvents loads status lines).1)
        (deltas (events status lines)) ∧
      ∀ data ∈ answers (events status lines), (responseEvents loads status lines).2 = .ok () ∧
        (deltas (events status lines)).flatten = data.reply.toList) ∧
    ∀ status lines text, CarriesText loads status lines text →
      (∀ selection, parser.validate text = some selection →
        parser.ReadsBeginnings text selection.1.reply.toList) →
      answers (events status lines) = (answerOfText parser
        (composeAnswer selectSuggestions initial s prompt) text).toList := by
  intro events
  refine ⟨fun status lines ↦ completedOnce_of_ends, fun status lines ↦ ?_,
    fun status lines text h hreads ↦ ?_⟩
  · exact streamAnswer_shows (fun _ ↦ rfl) _
  · exact answers_streamAnswer h.ends (exists_completed_of_ends h.ends) h.texts h.received hreads

/-- An answer object. -/
def shortSelection : {selection : AnswerSelection // selection.Valid} :=
  ⟨⟨"ab", "", [], [], [], [], [], []⟩, by decide⟩

/-- The text of the answer object. -/
def shortText : List Char :=
  (Json.obj [("reply", .str "ab"), ("explanation", .str ""), ("source_ids", .arr []),
    ("node_ids", .arr []), ("edge_ids", .arr []), ("filter_kinds", .arr []),
    ("suggestions", .arr []), ("proposed_connections", .arr [])]).write ⟨false, false⟩

/-- Reads objects that start with their reply, if it has no escapes. -/
def shortParser : AnswerParser where
  trailingStrings text :=
    if text = [] then none
    else if "\x7b\"reply\":\"".toList <+: text then some ((text.drop 10).takeWhile (· ≠ '"'))
    else some none
  allowPartial text :=
    if text = [] then none
    else if "\x7b\"reply\":\"".toList <+: text ∧ '"' ∈ text.drop 10 then
      some ((text.drop 10).takeWhile (· ≠ '"'))
    else some none
  validate text := if text = shortText then some shortSelection else none
  validate_nil := by decide +kernel

/-- The events of deltas, and the completed event. -/
def deltaEvents (parts : List (List Char)) : List Json :=
  parts.map (fun part ↦ .obj [("type", .str "response.output_text.delta"),
    ("delta", .str (String.ofList part))]) ++ [.obj [("type", .str "response.completed")]]

/-- The lines of events. -/
def linesOf (events : List Json) : List (List Char) :=
  events.flatMap fun event ↦ ["data: ".toList ++ event.write ⟨false, false⟩, []]

/-- The answer of a text that is split in the middle of its reply. -/
theorem streamed_answer_short :
    let provider := deltaEvents [shortText.take 11, shortText.drop 11]
    let loads (payload : List Char) :=
      provider.find? fun event ↦ event.write ⟨false, false⟩ = payload
    answers (answerEvents loads shortParser id {} (.start {}) ⟨[], []⟩ 200
      (linesOf provider)).1 = [composeAnswer id {} (.start {}) ⟨[], []⟩ shortSelection.1] := by
  intro provider loads
  have hvalid : shortParser.validate shortText = some shortSelection := by
    show (if shortText = shortText then some shortSelection else none) = _
    exact if_pos rfl
  have hreads : ∀ selection, shortParser.validate shortText = some selection →
      shortParser.ReadsBeginnings shortText selection.1.reply.toList := by
    intro selection hselection
    obtain rfl := Option.some.inj (hvalid.symm.trans hselection)
    refine ⟨fun shown hshown read hread ↦ ?_, by decide +kernel⟩
    have hall : ∀ k ≤ shortText.length, ∀ read ∈ shortParser.trailingStrings (shortText.take k),
        (∀ r ∈ read, r <+: "ab".toList) ∧
          (shortParser.allowPartial (shortText.take k)).isSome := by
      decide +kernel
    have htake := List.prefix_iff_eq_take.mp hshown
    rw [htake] at hread ⊢
    exact hall shown.length hshown.length_le read hread
  have hcarries : CarriesText loads 200 (linesOf provider) shortText :=
    ⟨by decide +kernel, by decide +kernel, by decide +kernel⟩
  have hanswer := (streamed_answer loads shortParser id {} (.start {}) ⟨[], []⟩).2.2 200
    (linesOf provider) shortText hcarries hreads
  have hlength : shortText.length ≤ 128000 := by decide +kernel
  rw [hanswer, answerOfText, if_pos hlength, hvalid]
  rfl

end Jobtology.Chat
