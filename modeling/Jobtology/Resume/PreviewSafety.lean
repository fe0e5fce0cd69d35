import Jobtology.Resume.InertStyles
import Jobtology.Resume.Preview

/-!
# Safety of the preview

What the sanitizer writes for any stream of events: tags and attributes of the lists, nothing from
inside a dropped element, and the text outside of them. It raises on the digits that `int` cannot
read and on unbounded colours.
-/

namespace Jobtology.Resume

open Jobtology.Base Jobtology.Documents

variable {L : Lowercase} {events : List HtmlEvent} {state state' : Preview}

/-! ## Purpose -/

/-- The dropped elements that are open after an event, innermost first. While one is open, an end
tag closes the innermost one if it has its name; every other end tag is ignored. -/
def openAfter (opened : List (List Char)) : HtmlEvent → List (List Char)
  | .startTag tag _ => if tag ∈ dropTags then tag :: opened else opened
  | .endTag tag =>
    match opened with
    | innermost :: outer => if tag = innermost then outer else opened
    | [] => []
  | _ => opened

/-- The dropped elements that are open after a stream of events. -/
def openDrops (events : List HtmlEvent) : List (List Char) := events.foldl openAfter []

/-- Streams in which the dropped elements are properly nested, with the texts outside of them. -/
inductive Nested : List HtmlEvent → List (List Char) → Prop
  | nil : Nested [] []
  | text {events : List HtmlEvent} {texts : List (List Char)} (data : List Char) :
    Nested events texts → Nested (.text data :: events) (data :: texts)
  | startTag {events : List HtmlEvent} {texts : List (List Char)} {tag : List Char}
    (attrs : Attributes) : tag ∉ dropTags → Nested events texts →
    Nested (.startTag tag attrs :: events) texts
  | endTag {events : List HtmlEvent} {texts : List (List Char)} {tag : List Char} :
    tag ∉ dropTags → Nested events texts → Nested (.endTag tag :: events) texts
  | startEndTag {events : List HtmlEvent} {texts : List (List Char)} (tag : List Char)
    (attrs : Attributes) : Nested events texts → Nested (.startEndTag tag attrs :: events) texts
  | dropped {inner events : List HtmlEvent} {hidden texts : List (List Char)} {tag : List Char}
    (attrs : Attributes) : tag ∈ dropTags → Nested inner hidden → Nested events texts →
    Nested (.startTag tag attrs :: (inner ++ .endTag tag :: events)) texts

/-- A part of the output. -/
inductive Markup
  | start (tag : List Char) (attrs : List (List Char × List Char))
  | stop (tag : List Char)
  | text (data : List Char)

namespace Markup

/-- What is written for a part: the values and the texts are escaped. -/
def render : Markup → List Char
  | start tag attrs => renderStart tag attrs
  | stop tag => renderEnd tag
  | text data => escape data

/-- The text of a part. -/
def text? : Markup → Option (List Char)
  | text data => some data
  | _ => none

end Markup

/-- Reading an escaped text back. -/
def unescape : List Char → List Char
  | '&' :: 'a' :: 'm' :: 'p' :: ';' :: rest => '&' :: unescape rest
  | '&' :: 'l' :: 't' :: ';' :: rest => '<' :: unescape rest
  | '&' :: 'g' :: 't' :: ';' :: rest => '>' :: unescape rest
  | '&' :: 'q' :: 'u' :: 'o' :: 't' :: ';' :: rest => '"' :: unescape rest
  | '&' :: '#' :: 'x' :: '2' :: '7' :: ';' :: rest => Char.ofNat 39 :: unescape rest
  | c :: rest => c :: unescape rest
  | [] => []

/-- What is written for a text can neither open a tag nor close a value, and stands for the
text. -/
structure Escaped (text written : List Char) : Prop where
  inert : ∀ c ∈ written, c ∉ ['<', '>', '"'] ∧ c.toNat ≠ 39
  faithful : unescape written = text

/-- The attributes that may be written, with their values. -/
inductive AllowedAttribute : List Char × List Char → Prop
  | nodeId {value : List Char} : nodeIdRe.fullmatch value →
    AllowedAttribute ("data-node-id".toList, value)
  | classes {items : List (List Char)} : items ≠ [] →
    (∀ item ∈ items, documentClassRe.fullmatch item) →
    AllowedAttribute ("class".toList, [' '].intercalate items)
  | label {value : List Char} : blockLabelRe.fullmatch value →
    AllowedAttribute ("data-label".toList, value)
  | number {name : List Char} {n : Nat} : name ∈ numberNames → 1 ≤ n → n ≤ 100 →
    AllowedAttribute (name, decimalText n)
  | style {declarations : List (List Char × List Char)} : declarations ≠ [] →
    (∀ d ∈ declarations, typedValue keptColor d.1 d.2 = true) →
    AllowedAttribute ("style".toList, renderStyle declarations)

/-- The parts that may be written. -/
inductive SafeMarkup : Markup → Prop
  | start {tag : List Char} {attrs : List (List Char × List Char)} : tag ∈ allowedTags →
    (∀ a ∈ attrs, AllowedAttribute a ∧ Escaped a.2 (escape a.2)) → SafeMarkup (.start tag attrs)
  | stop {tag : List Char} : tag ∈ allowedTags → tag ∉ voidTags → SafeMarkup (.stop tag)
  | text {data : List Char} : (∀ c ∈ data, isControl c = false) → Escaped data (escape data) →
    SafeMarkup (.text data)

/-- A text without its control characters. -/
def withoutControls (data : List Char) : List Char := data.filter fun c ↦ !isControl c

/-- What is safe about the preview of a stream of events. -/
structure SafePreview (L : Lowercase) (events : List HtmlEvent) (state : Preview) : Prop where
  /-- The output is a sequence of safe parts, with the texts outside of the dropped elements. -/
  written : ∃ parts : List Markup, state.output = parts.map Markup.render ∧
    (∀ part ∈ parts, SafeMarkup part) ∧
    ∀ texts, Nested events texts → parts.filterMap Markup.text? = texts.map withoutControls
  /-- Nothing is written while a dropped element is open. -/
  hidden : ∀ before inner after, events = before ++ inner ++ after →
    (∀ part, part <+: inner → openDrops (before ++ part) ≠ []) →
    ∃ state₁ state₂, feed L before = .ok state₁ ∧ feed L (before ++ inner) = .ok state₂ ∧
      state₂.output = state₁.output

/-- The sanitizer returns, and what it returns is the page around a safe preview. -/
def PreviewIsSafe (L : Lowercase) (reviewCss : List Char) (events : List HtmlEvent) : Prop :=
  ∃ result state, safePreview L reviewCss events = .ok result ∧ feed L events = .ok state ∧
    SafePreview L events state ∧
    ∀ page, result = some page → page = previewPage reviewCss state.output.flatten

/-- An attribute whose number or style cannot be read. -/
def UnreadableAttribute (L : Lowercase) (name value : List Char) : Prop :=
  (name ∈ numberNames ∧ value ≠ [] ∧ value.all isDigit ∧
    ¬(value.all (fun c ↦ (decimalDigit c).isSome) ∧ value.length ≤ maxStrDigits)) ∨
  (name = "style".toList ∧ UnboundedStyle L value)

/-- The attributes of an allowed tag can all be read. -/
def ReadableEvent (L : Lowercase) : HtmlEvent → Prop
  | .startTag tag attrs | .startEndTag tag attrs =>
    tag ∈ allowedTags → ∀ name value, (name, some value) ∈ attrs → ¬UnreadableAttribute L name value
  | _ => True

/-! ## Escaping -/

private theorem toNat_apostrophe {c : Char} : c.toNat = 39 ↔ c = Char.ofNat 39 := by
  constructor
  · intro h
    rw [← h, Char.ofNat_toNat]
  · rintro rfl
    rfl

private theorem escaped_char (c : Char) :
    (∀ d ∈ escapeChar c, d ∉ ['<', '>', '"'] ∧ d.toNat ≠ 39) ∧
      ∀ rest, unescape (escapeChar c ++ rest) = c :: unescape rest := by
  unfold escapeChar
  split_ifs with hamp hlt hgt hquot hsingle
  · subst hamp
    exact ⟨by simp, fun rest ↦ rfl⟩
  · subst hlt
    exact ⟨by simp, fun rest ↦ rfl⟩
  · subst hgt
    exact ⟨by simp, fun rest ↦ rfl⟩
  · subst hquot
    exact ⟨by simp, fun rest ↦ rfl⟩
  · rw [toNat_apostrophe] at hsingle
    subst hsingle
    exact ⟨by simp, fun rest ↦ rfl⟩
  · constructor
    · intro d hd
      obtain rfl := List.mem_singleton.mp hd
      simp [hlt, hgt, hquot, hsingle]
    · intro rest
      rw [List.singleton_append]
      apply unescape.eq_6 <;> grind

/-- An escaped text stands for the text and is inert. -/
theorem escape_escaped (text : List Char) : Escaped text (escape text) := by
  constructor
  · intro c hc
    obtain ⟨source, -, hmem⟩ := List.mem_flatMap.mp hc
    exact (escaped_char source).1 c hmem
  · induction text with
    | nil => rfl
    | cons c text ih =>
      unfold escape at ih ⊢
      rw [List.flatMap_cons, (escaped_char c).2, ih]

/-! ## Attributes -/

private theorem numberNames_others : ∀ name ∈ numberNames,
    name ≠ "data-node-id".toList ∧ name ≠ "class".toList ∧ name ≠ "data-label".toList ∧
      name ≠ "style".toList := by decide +kernel

private theorem style_others : "style".toList ≠ "data-node-id".toList ∧
    "style".toList ≠ "class".toList ∧ "style".toList ≠ "data-label".toList := by decide +kernel

/-- An attribute with a number. -/
theorem safeAttribute_number {name value : List Char} (h : name ∈ numberNames) :
    safeAttribute L name value =
      if value ≠ [] ∧ value.all isDigit then
        intOfDigits value >>= fun number ↦
          pure (if 1 ≤ number ∧ number ≤ 100 then some (name, decimalText number) else none)
      else pure none := by
  obtain ⟨hnode, hclass, hlabel, hstyle⟩ := numberNames_others name h
  unfold safeAttribute
  rw [if_neg fun h ↦ hnode h.1, if_neg hclass, if_neg fun h ↦ hlabel h.1]
  by_cases hdigits : value ≠ [] ∧ value.all isDigit = true
  · rw [if_pos ⟨h, hdigits⟩, if_pos hdigits]
  · rw [if_neg fun h ↦ hdigits h.2, if_neg hstyle, if_neg hdigits]

/-- A style. -/
theorem safeAttribute_style {value : List Char} :
    safeAttribute L "style".toList value =
      (safeCss L value >>= fun css ↦
        pure (if css ≠ [] then some ("style".toList, css) else none)) := by
  obtain ⟨hnode, hclass, hlabel⟩ := style_others
  unfold safeAttribute
  rw [if_neg fun h ↦ hnode h.1, if_neg hclass, if_neg fun h ↦ hlabel h.1,
    if_neg fun h ↦ (numberNames_others _ h.1).2.2.2 rfl, if_pos rfl]

private theorem safeAttribute_error_iff {name value : List Char} :
    (∃ e, safeAttribute L name value = .error e) ↔ UnreadableAttribute L name value := by
  unfold UnreadableAttribute
  by_cases hnumber : name ∈ numberNames
  · have hstyle := (numberNames_others name hnumber).2.2.2
    rw [safeAttribute_number hnumber]
    split_ifs with hdigits
    · rw [exists_bind_pure_error_iff, intOfDigits_error_iff]
      simp only [hstyle, hnumber, hdigits.1, hdigits.2, true_and, false_and, or_false, ne_eq,
        not_false_eq_true]
    · simp only [hstyle, hnumber, true_and, false_and, or_false]
      constructor
      · rintro ⟨e, h⟩
        cases h
      · rintro ⟨hne, hall, -⟩
        exact absurd ⟨hne, hall⟩ hdigits
  · by_cases hstyle : name = "style".toList
    · subst hstyle
      rw [safeAttribute_style, exists_bind_pure_error_iff, safeCss_error_iff]
      simp only [hnumber, false_and, false_or, true_and]
    · simp only [hnumber, hstyle, false_and, or_self, iff_false]
      rintro ⟨e, h⟩
      unfold safeAttribute at h
      rw [if_neg fun hdigits : name ∈ numberNames ∧ _ ↦ hnumber hdigits.1, if_neg hstyle] at h
      split_ifs at h <;> cases h

private theorem allowed_of_safeAttribute {name value : List Char} {a : List Char × List Char}
    (h : safeAttribute L name value = .ok (some a)) : AllowedAttribute a := by
  by_cases hnumber : name ∈ numberNames
  · rw [safeAttribute_number hnumber] at h
    split_ifs at h
    · obtain ⟨n, -, h⟩ := bind_eq_ok.mp h
      split_ifs at h with hrange
      · cases h
        exact .number hnumber hrange.1 hrange.2
      · cases h
    · cases h
  · by_cases hstyle : name = "style".toList
    · subst hstyle
      rw [safeAttribute_style] at h
      obtain ⟨css, hcss, h⟩ := bind_eq_ok.mp h
      split_ifs at h with hne
      · cases h
        obtain ⟨declarations, hread, hrender⟩ := bind_eq_ok.mp hcss
        cases hrender
        refine .style ?_ (typed_of_safeDeclarations hread)
        rintro rfl
        exact hne rfl
      · cases h
    · unfold safeAttribute at h
      rw [if_neg fun hdigits : name ∈ numberNames ∧ _ ↦ hnumber hdigits.1, if_neg hstyle] at h
      split_ifs at h with hnode hclass hlabel
      · cases h
        rw [hnode.1]
        exact .nodeId hnode.2
      · dsimp only at h
        split_ifs at h with hne
        · cases h
          rw [hclass]
          exact .classes hne fun item hitem ↦ (List.mem_filter.mp hitem).2
        · cases h
      · cases h
        rw [hlabel.1]
        exact .label hlabel.2
      all_goals cases h

private theorem safeAttributes_error_iff {attrs : Attributes} :
    (∃ e, safeAttributes L attrs = .error e) ↔
      ∃ name value, (name, some value) ∈ attrs ∧ UnreadableAttribute L name value := by
  refine exists_bind_pure_error_iff.trans (exists_mapM_error_iff.trans ?_)
  constructor
  · rintro ⟨⟨name, value⟩, hmem, h⟩
    cases value with
    | none =>
      obtain ⟨e, h⟩ := h
      cases h
    | some value => exact ⟨name, value, hmem, safeAttribute_error_iff.mp h⟩
  · rintro ⟨name, value, hmem, h⟩
    exact ⟨(name, some value), hmem, safeAttribute_error_iff.mpr h⟩

private theorem allowed_of_safeAttributes {attrs : Attributes} {safe : List (List Char × List Char)}
    (h : safeAttributes L attrs = .ok safe) : ∀ a ∈ safe, AllowedAttribute a := by
  obtain ⟨found, hfound, h⟩ := bind_eq_ok.mp h
  cases h
  intro a ha
  obtain ⟨kept, hkept, hsome⟩ := List.mem_filterMap.mp ha
  obtain ⟨⟨name, value⟩, -, hread⟩ := exists_of_mem_right (forall₂_of_mapM_ok hfound) hkept
  obtain rfl : kept = some a := hsome
  cases value with
  | none => cases hread
  | some value => exact allowed_of_safeAttribute hread

/-! ## One event -/

private theorem drop_not_allowed {tag : List Char} (h : tag ∈ dropTags) : tag ∉ allowedTags := by
  have hall : ∀ tag ∈ dropTags, tag ∉ allowedTags := by decide +kernel
  exact hall tag h

private theorem mem_dropTags_openAfter {opened : List (List Char)} (h : ∀ t ∈ opened, t ∈ dropTags)
    (e : HtmlEvent) : ∀ t ∈ openAfter opened e, t ∈ dropTags := by
  cases e with
  | startTag tag attrs =>
    dsimp only [openAfter]
    split_ifs with htag
    · exact List.forall_mem_cons.mpr ⟨htag, h⟩
    · exact h
  | endTag tag =>
    cases opened with
    | nil => exact h
    | cons innermost outer =>
      dsimp only [openAfter]
      split_ifs
      · exact fun t ht ↦ h t (List.mem_cons_of_mem _ ht)
      · exact h
  | startEndTag tag attrs => exact h
  | text data => exact h

private theorem mem_dropTags_openDrops (events : List HtmlEvent) :
    ∀ t ∈ openDrops events, t ∈ dropTags := by
  unfold openDrops
  suffices h : ∀ opened : List (List Char), (∀ t ∈ opened, t ∈ dropTags) →
      ∀ t ∈ events.foldl openAfter opened, t ∈ dropTags from h [] (by simp)
  induction events with
  | nil => exact fun _ h ↦ h
  | cons e events ih => exact fun opened h ↦ ih _ (mem_dropTags_openAfter h e)

/-- A start tag: a dropped element is opened, anything within one is ignored, and outside an allowed
tag is written with its safe attributes. -/
theorem handleStarttag_cases {tag : List Char} {attrs : Attributes}
    (h : handleStarttag L state tag attrs = .ok state') :
    (tag ∈ dropTags ∧ state' = { state with dropped := tag :: state.dropped }) ∨
    (tag ∉ dropTags ∧ state' = state) ∨
    (tag ∉ dropTags ∧ state.dropped = [] ∧ tag ∈ allowedTags ∧ ∃ safe,
      safeAttributes L attrs = .ok safe ∧
      state' = { state with output := state.output ++ [renderStart tag safe] }) := by
  unfold handleStarttag at h
  split_ifs at h with hdrop htag hallowed
  · cases h
    exact .inl ⟨htag, rfl⟩
  · cases h
    exact .inr (.inl ⟨htag, rfl⟩)
  · rw [not_or, not_not] at hdrop
    obtain ⟨safe, hsafe, h⟩ := bind_eq_ok.mp h
    cases h
    exact .inr (.inr ⟨hdrop.1, hdrop.2, hallowed, safe, hsafe, rfl⟩)
  · rw [not_or] at hdrop
    cases h
    exact .inr (.inl ⟨hdrop.1, rfl⟩)

private theorem handleStarttag_error_iff {tag : List Char} {attrs : Attributes} :
    (∃ e, handleStarttag L state tag attrs = .error e) ↔
      state.dropped = [] ∧ tag ∈ allowedTags ∧
        ∃ name value, (name, some value) ∈ attrs ∧ UnreadableAttribute L name value := by
  have hnever {s : Preview} : ¬∃ e, (pure s : Except NumberError Preview) = .error e := by
    rintro ⟨e, h⟩
    cases h
  unfold handleStarttag
  by_cases hdrop : tag ∈ dropTags ∨ state.dropped ≠ []
  · rw [if_pos hdrop]
    refine iff_of_false hnever fun h ↦ ?_
    rcases hdrop with htag | hopen
    · exact drop_not_allowed htag h.2.1
    · exact hopen h.1
  · rw [if_neg hdrop]
    rw [not_or, not_not] at hdrop
    by_cases hallowed : tag ∈ allowedTags
    · rw [if_neg (not_not.mpr hallowed), exists_bind_pure_error_iff, safeAttributes_error_iff]
      simp only [hdrop.2, hallowed, true_and]
    · rw [if_pos hallowed]
      exact iff_of_false hnever fun h ↦ hallowed h.2.1

/-- An event raises exactly when it cannot be read outside the dropped elements. -/
theorem handle_error_iff {e : HtmlEvent} :
    (∃ error, handle L state e = .error error) ↔ state.dropped = [] ∧ ¬ReadableEvent L e := by
  have hstart {tag : List Char} {attrs : Attributes} :
      (∃ error, handleStarttag L state tag attrs = .error error) ↔ state.dropped = [] ∧
        ¬(tag ∈ allowedTags →
          ∀ name value, (name, some value) ∈ attrs → ¬UnreadableAttribute L name value) := by
    rw [handleStarttag_error_iff]
    push Not
    rfl
  have hnever {s : Preview} : ¬∃ e, (pure s : Except NumberError Preview) = .error e := by
    rintro ⟨e, h⟩
    cases h
  cases e with
  | startTag tag attrs => exact hstart
  | endTag tag => exact iff_of_false hnever fun h ↦ h.2 trivial
  | startEndTag tag attrs => exact exists_bind_pure_error_iff.trans hstart
  | text data => exact iff_of_false hnever fun h ↦ h.2 trivial

private theorem handleEndtag_dropped (state : Preview) (tag : List Char) :
    (handleEndtag state tag).dropped = openAfter state.dropped (.endTag tag) := by
  unfold handleEndtag openAfter
  cases hopen : state.dropped with
  | nil =>
    dsimp only
    split_ifs
    · rfl
    · exact hopen
  | cons innermost outer =>
    dsimp only
    split_ifs
    · rfl
    · exact hopen

private theorem handleEndtag_output_of_open {tag : List Char} (hopen : state.dropped ≠ []) :
    (handleEndtag state tag).output = state.output := by
  unfold handleEndtag
  cases hdropped : state.dropped with
  | nil => exact absurd hdropped hopen
  | cons innermost outer =>
    dsimp only
    split_ifs
    · rfl
    · rfl

/-- The open dropped elements after an event. -/
theorem handle_dropped {e : HtmlEvent} (hdrops : ∀ t ∈ state.dropped, t ∈ dropTags)
    (h : handle L state e = .ok state') : state'.dropped = openAfter state.dropped e := by
  cases e with
  | startTag tag attrs =>
    dsimp only [openAfter]
    rcases handleStarttag_cases h with ⟨htag, rfl⟩ | ⟨htag, rfl⟩ | ⟨htag, -, -, safe, -, rfl⟩
    · rw [if_pos htag]
    · rw [if_neg htag]
    · rw [if_neg htag]
  | endTag tag =>
    cases h
    exact handleEndtag_dropped state tag
  | startEndTag tag attrs =>
    obtain ⟨middle, hstart, h⟩ := bind_eq_ok.mp h
    cases h
    rw [handleEndtag_dropped]
    rcases handleStarttag_cases hstart with
      ⟨htag, rfl⟩ | ⟨htag, rfl⟩ | ⟨htag, hnil, -, safe, -, rfl⟩
    · exact if_pos rfl
    · -- Only dropped elements are open, so that the tag closes none of them.
      cases hopen : middle.dropped with
      | nil => rfl
      | cons innermost outer =>
        refine if_neg ?_
        rintro rfl
        exact htag (hdrops tag (by rw [hopen]; exact List.mem_cons_self))
    · dsimp only
      rw [hnil]
      rfl
  | text data =>
    cases h
    dsimp only [openAfter]
    unfold handleData
    split_ifs with hopen
    · rfl
    · rfl

/-- Nothing is written inside a dropped element. -/
theorem handle_output_of_open {e : HtmlEvent} (hopen : state.dropped ≠ [])
    (h : handle L state e = .ok state') : state'.output = state.output := by
  cases e with
  | startTag tag attrs =>
    rcases handleStarttag_cases h with ⟨-, rfl⟩ | ⟨-, rfl⟩ | ⟨-, hnil, -⟩
    · rfl
    · rfl
    · exact absurd hnil hopen
  | endTag tag =>
    cases h
    exact handleEndtag_output_of_open hopen
  | startEndTag tag attrs =>
    obtain ⟨middle, hstart, h⟩ := bind_eq_ok.mp h
    cases h
    rcases handleStarttag_cases hstart with ⟨-, rfl⟩ | ⟨-, rfl⟩ | ⟨-, hnil, -⟩
    · exact handleEndtag_output_of_open (List.cons_ne_nil _ _)
    · exact handleEndtag_output_of_open hopen
    · exact absurd hnil hopen
  | text data =>
    cases h
    unfold handleData
    rw [if_neg hopen]

/-- The text of an event. -/
def HtmlEvent.text? : HtmlEvent → Option (List Char)
  | .text data => some data
  | _ => none

/-- What one step adds to the output: safe parts with certain texts. -/
structure Writes (state state' : Preview) (texts : List (List Char)) (parts : List Markup) :
    Prop where
  output : state'.output = state.output ++ parts.map Markup.render
  safe : ∀ part ∈ parts, SafeMarkup part
  texts_eq : parts.filterMap Markup.text? = texts.map withoutControls

/-- An output that stays the same is written with nothing. -/
theorem Writes.nothing (h : state'.output = state.output) : Writes state state' [] [] where
  output := h.trans (List.append_nil _).symm
  safe := List.forall_mem_nil _
  texts_eq := rfl

/-- What is written one after the other. -/
theorem Writes.trans {middle : Preview} {before after : List (List Char)} {front back : List Markup}
    (hfront : Writes state middle before front) (hback : Writes middle state' after back) :
    Writes state state' (before ++ after) (front ++ back) where
  output := by rw [hback.output, hfront.output, List.map_append, List.append_assoc]
  safe := by
    intro part hpart
    rcases List.mem_append.mp hpart with h | h
    · exact hfront.safe part h
    · exact hback.safe part h
  texts_eq := by rw [List.filterMap_append, hfront.texts_eq, hback.texts_eq, List.map_append]

private theorem writes_handleStarttag {tag : List Char} {attrs : Attributes}
    (h : handleStarttag L state tag attrs = .ok state') :
    ∃ parts, Writes state state' [] parts := by
  rcases handleStarttag_cases h with ⟨-, rfl⟩ | ⟨-, rfl⟩ | ⟨-, -, hallowed, safe, hsafe, rfl⟩
  · exact ⟨[], Writes.nothing rfl⟩
  · exact ⟨[], Writes.nothing rfl⟩
  · refine ⟨[.start tag safe], rfl, List.forall_mem_singleton.mpr (.start hallowed ?_), rfl⟩
    exact fun a ha ↦ ⟨allowed_of_safeAttributes hsafe a ha, escape_escaped a.2⟩

private theorem writes_handleEndtag (state : Preview) (tag : List Char) :
    ∃ parts, Writes state (handleEndtag state tag) [] parts := by
  unfold handleEndtag
  split
  · split_ifs
    · exact ⟨[], Writes.nothing rfl⟩
    · exact ⟨[], Writes.nothing rfl⟩
  · split_ifs with htag
    · exact ⟨[.stop tag], rfl, List.forall_mem_singleton.mpr (.stop htag.1 htag.2), rfl⟩
    · exact ⟨[], Writes.nothing rfl⟩

/-- What an event adds to the output. -/
theorem writes_handle {e : HtmlEvent} (h : handle L state e = .ok state') :
    ∃ parts, Writes state state' (if state.dropped = [] then e.text?.toList else []) parts := by
  cases e with
  | startTag tag attrs =>
    simpa [HtmlEvent.text?] using writes_handleStarttag h
  | endTag tag =>
    cases h
    simpa [HtmlEvent.text?] using writes_handleEndtag state tag
  | startEndTag tag attrs =>
    obtain ⟨middle, hstart, h⟩ := bind_eq_ok.mp h
    cases h
    obtain ⟨front, hfront⟩ := writes_handleStarttag hstart
    obtain ⟨back, hback⟩ := writes_handleEndtag middle tag
    exact ⟨front ++ back, by simpa [HtmlEvent.text?] using hfront.trans hback⟩
  | text data =>
    cases h
    unfold handleData
    split_ifs
    · refine ⟨[.text (withoutControls data)], rfl, ?_, rfl⟩
      refine List.forall_mem_singleton.mpr (.text ?_ (escape_escaped _))
      intro c hc
      simpa using (List.mem_filter.mp hc).2
    · exact ⟨[], Writes.nothing rfl⟩

/-! ## Streams of events -/

/-- The texts of a stream outside the dropped elements, some of which are open at its start. -/
def textsOutside (opened : List (List Char)) : List HtmlEvent → List (List Char)
  | [] => []
  | e :: events =>
    (if opened = [] then e.text?.toList else []) ++ textsOutside (openAfter opened e) events

private theorem textsOutside_append (opened : List (List Char)) (front back : List HtmlEvent) :
    textsOutside opened (front ++ back) =
      textsOutside opened front ++ textsOutside (front.foldl openAfter opened) back := by
  induction front generalizing opened with
  | nil => rfl
  | cons e front ih =>
    rw [List.cons_append, textsOutside, textsOutside, ih, List.foldl_cons, List.append_assoc]

/-- An event that neither opens nor closes a dropped element. -/
theorem textsOutside_neutral {opened : List (List Char)} {e : HtmlEvent}
    {texts : List (List Char)} (hneutral : openAfter opened e = opened)
    (hrest : events.foldl openAfter opened = opened ∧
      textsOutside opened events = if opened = [] then texts else []) :
    (e :: events).foldl openAfter opened = opened ∧ textsOutside opened (e :: events) =
      if opened = [] then e.text?.toList ++ texts else [] := by
  rw [List.foldl_cons, textsOutside, hneutral, hrest.2]
  refine ⟨hrest.1, ?_⟩
  split_ifs
  · rfl
  · rfl

/-- A nested stream leaves the open elements as they were; its texts are written when none is
open. -/
theorem Nested.run {texts : List (List Char)} (h : Nested events texts)
    {opened : List (List Char)} (hdrops : ∀ t ∈ opened, t ∈ dropTags) :
    events.foldl openAfter opened = opened ∧
      textsOutside opened events = if opened = [] then texts else [] := by
  induction h generalizing opened with
  | nil =>
    refine ⟨rfl, ?_⟩
    split_ifs
    · rfl
    · rfl
  | text data _ ih => exact textsOutside_neutral rfl (ih hdrops)
  | startTag attrs htag _ ih => exact textsOutside_neutral (if_neg htag) (ih hdrops)
  | @endTag events texts tag htag _ ih =>
    refine textsOutside_neutral ?_ (ih hdrops)
    cases opened with
    | nil => rfl
    | cons innermost outer =>
      refine if_neg ?_
      rintro rfl
      exact htag (hdrops tag List.mem_cons_self)
  | startEndTag tag attrs _ ih => exact textsOutside_neutral rfl (ih hdrops)
  | @dropped inner events hidden texts tag attrs htag _ _ ihInner ihOuter =>
    have hinside := ihInner (List.forall_mem_cons.mpr ⟨htag, hdrops⟩)
    have houtside := ihOuter hdrops
    have hopen : openAfter opened (.startTag tag attrs) = tag :: opened := if_pos htag
    have hclose : openAfter (tag :: opened) (.endTag tag) = opened := if_pos rfl
    constructor
    · rw [List.foldl_cons, hopen, List.foldl_append, hinside.1, List.foldl_cons, hclose, houtside.1]
    · rw [textsOutside, hopen, textsOutside_append, hinside.1, hinside.2, textsOutside, hclose,
        houtside.2]
      simp [HtmlEvent.text?]

/-- The run of the handlers from a state. -/
theorem handled_cons {e : HtmlEvent} :
    (e :: events).foldlM (handle L) state = .ok state' ↔
      ∃ middle, handle L state e = .ok middle ∧ events.foldlM (handle L) middle = .ok state' := by
  rw [List.foldlM_cons]
  exact bind_eq_ok

/-- What a run writes. -/
theorem writes_run (hdrops : ∀ t ∈ state.dropped, t ∈ dropTags)
    (h : events.foldlM (handle L) state = .ok state') :
    state'.dropped = events.foldl openAfter state.dropped ∧
      ∃ parts, Writes state state' (textsOutside state.dropped events) parts := by
  induction events generalizing state with
  | nil =>
    cases h
    exact ⟨rfl, [], Writes.nothing rfl⟩
  | cons e events ih =>
    obtain ⟨middle, hstep, hrest⟩ := handled_cons.mp h
    have hopen := handle_dropped hdrops hstep
    obtain ⟨hdropped, back, hback⟩ :=
      ih (by rw [hopen]; exact mem_dropTags_openAfter hdrops e) hrest
    obtain ⟨front, hfront⟩ := writes_handle hstep
    rw [hopen] at hdropped hback
    exact ⟨hdropped, front ++ back, hfront.trans hback⟩

/-- A run inside dropped elements writes nothing. -/
theorem output_of_open (hdrops : ∀ t ∈ state.dropped, t ∈ dropTags)
    (h : events.foldlM (handle L) state = .ok state')
    (hopen : ∀ part, part <+: events → part.foldl openAfter state.dropped ≠ []) :
    state'.output = state.output := by
  induction events generalizing state with
  | nil =>
    cases h
    rfl
  | cons e events ih =>
    obtain ⟨middle, hstep, hrest⟩ := handled_cons.mp h
    have hdropped := handle_dropped hdrops hstep
    have hmiddle := ih (by rw [hdropped]; exact mem_dropTags_openAfter hdrops e) hrest ?_
    · rw [hmiddle]
      exact handle_output_of_open (hopen [] List.nil_prefix) hstep
    · intro part hpart
      rw [hdropped]
      exact hopen (e :: part) ((List.prefix_cons_inj e).mpr hpart)

/-- A run raises exactly at an event that cannot be read outside the dropped elements. -/
theorem run_ok_iff (hdrops : ∀ t ∈ state.dropped, t ∈ dropTags) :
    (∃ state', events.foldlM (handle L) state = .ok state') ↔
      ∀ before e after, events = before ++ e :: after →
        before.foldl openAfter state.dropped = [] → ReadableEvent L e := by
  induction events generalizing state with
  | nil => exact iff_of_true ⟨state, rfl⟩ fun before e after h ↦ by simp at h
  | cons first events ih =>
    constructor
    · rintro ⟨state', h⟩ before e after hsplit hclosed
      obtain ⟨middle, hstep, hrest⟩ := handled_cons.mp h
      have hdropped := handle_dropped hdrops hstep
      cases before with
      | nil =>
        obtain ⟨rfl, rfl⟩ := List.cons_eq_cons.mp hsplit
        by_contra hunreadable
        obtain ⟨error, herror⟩ := handle_error_iff.mpr ⟨hclosed, hunreadable⟩
        rw [herror] at hstep
        cases hstep
      | cons b before =>
        obtain ⟨rfl, hrestSplit⟩ := List.cons_eq_cons.mp hsplit
        have hmiddle : ∀ t ∈ middle.dropped, t ∈ dropTags := by
          rw [hdropped]
          exact mem_dropTags_openAfter hdrops first
        apply (ih hmiddle).mp ⟨state', hrest⟩ before e after hrestSplit
        rw [hdropped]
        exact hclosed
    · intro hreadable
      cases hstep : handle L state first with
      | error error =>
        obtain ⟨hclosed, hunreadable⟩ := handle_error_iff.mp ⟨error, hstep⟩
        exact absurd (hreadable [] first events rfl hclosed) hunreadable
      | ok middle =>
        have hdropped := handle_dropped hdrops hstep
        have hmiddle : ∀ t ∈ middle.dropped, t ∈ dropTags := by
          rw [hdropped]
          exact mem_dropTags_openAfter hdrops first
        obtain ⟨state', hrest⟩ := (ih hmiddle).mpr fun before e after hsplit hclosed ↦ by
          rw [hdropped] at hclosed
          exact hreadable (first :: before) e after (by rw [hsplit]; rfl) hclosed
        exact ⟨state', handled_cons.mpr ⟨middle, hstep, hrest⟩⟩

/-! ## The preview -/

private theorem feed_append {front back : List HtmlEvent} :
    feed L (front ++ back) = .ok state' ↔
      ∃ middle, feed L front = .ok middle ∧ back.foldlM (handle L) middle = .ok state' := by
  unfold feed
  rw [List.foldlM_append]
  exact bind_eq_ok

/-- The parser raises exactly at an event that cannot be read outside the dropped elements. -/
theorem feed_ok_iff :
    (∃ state, feed L events = .ok state) ↔ ∀ before e after, events = before ++ e :: after →
      before.foldl openAfter [] = [] → ReadableEvent L e :=
  run_ok_iff (List.forall_mem_nil _)

/-- A preview that was fed is safe. -/
theorem safePreview_of_feed (h : feed L events = .ok state) : SafePreview L events state where
  written := by
    obtain ⟨-, parts, hparts⟩ := writes_run (List.forall_mem_nil _) h
    refine ⟨parts, hparts.output, hparts.safe, fun texts hnested ↦ ?_⟩
    rw [hparts.texts_eq, (hnested.run (List.forall_mem_nil _)).2, if_pos rfl]
  hidden := by
    rintro before inner after rfl hopen
    obtain ⟨state₂, hfed, -⟩ := feed_append.mp h
    obtain ⟨state₁, hbefore, hinner⟩ := feed_append.mp hfed
    refine ⟨state₁, state₂, hbefore, hfed, ?_⟩
    have hdropped : state₁.dropped = openDrops before :=
      (writes_run (List.forall_mem_nil _) hbefore).1
    apply output_of_open (by rw [hdropped]; exact mem_dropTags_openDrops before) hinner
    intro part hpart
    have hpartOpen := hopen part hpart
    unfold openDrops at hdropped hpartOpen
    rwa [List.foldl_append, ← hdropped] at hpartOpen

/-- The sanitizer is safe for the streams whose numbers and styles can be read where they would be
written, and raises on all other streams. `src/jobtology_be/resume/preview.py:64–117`. -/
theorem safePreview_safe_iff (reviewCss : List Char) (events : List HtmlEvent) :
    PreviewIsSafe L reviewCss events ↔ ∀ before e after, events = before ++ e :: after →
      openDrops before = [] → ReadableEvent L e := by
  unfold openDrops
  refine Iff.trans ?_ feed_ok_iff
  constructor
  · rintro ⟨result, state, -, hfed, -⟩
    exact ⟨state, hfed⟩
  · rintro ⟨state, hfed⟩
    refine ⟨_, state, bind_eq_ok.mpr ⟨state, hfed, rfl⟩, hfed, safePreview_of_feed hfed, ?_⟩
    intro page hpage
    split_ifs at hpage
    · exact (Option.some.inj hpage).symm

/-- A superscript two is a digit that `int` does not read. -/
theorem superscript_raises : ¬PreviewIsSafe asciiLower []
    [.startTag "td".toList [("colspan".toList, some [Char.ofNat 0xb2])]] := by
  rintro ⟨result, state, -, hfed, -⟩
  have hreadable := feed_ok_iff.mp ⟨state, hfed⟩ [] _ [] rfl rfl
  exact hreadable (by decide +kernel) _ _ List.mem_cons_self
    (.inl ⟨by decide +kernel, List.cons_ne_nil _ _, by decide +kernel, by decide +kernel⟩)

end Jobtology.Resume
