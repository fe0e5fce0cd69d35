import Jobtology.Base.Fallible
import Jobtology.Resume.Extraction
import Mathlib.Data.List.TakeWhile

/-!
# Grounded suggestions

Whatever the model answers, what is kept of it quotes the text, offers competencies of the catalog
and is kept once; and what a confirmation of it still depends on.
-/

namespace Jobtology.Resume

open Jobtology.Base

variable {digest : Identity → List Char} {block : ResumeBlock} {items : List SkillItem}
  {text : List Char}

/-! ## Purpose -/

/-- A suggestion quotes what stands in the text and offers competencies of the catalog. -/
structure Grounded (text : List Char) (items : List SkillItem) (s : ResumeSuggestion) : Prop where
  quoted : slice s.start s.stop text = s.quote
  ordered : s.start ≤ s.stop
  inRange : s.stop ≤ text.length
  offered : ∀ c ∈ s.competencies, c ∈ items

/-- Identities that `SpecDetails` accepts. -/
structure AcceptableIds (ids : List String) : Prop where
  distinct : (ids.map fun id ↦ stripWhitespace id.toList).Nodup
  bounded : ∀ id ∈ ids, stripWhitespace id.toList ≠ [] ∧ (stripWhitespace id.toList).length ≤ 128

/-- What holds of a suggestion that `validated_entries` keeps. -/
structure GroundedEntry (block : ResumeBlock) (items : List SkillItem) (s : ResumeSuggestion) :
    Prop where
  grounded : Grounded block.text items s
  /-- Every field is found in the quotation. -/
  fields : ∀ field ∈ s.fields, strip field.2 ≠ [] ∧ field.2 <:+: s.quote
  /-- Education and other information carry no competency. -/
  uncredited : s.category ∈ [.education, .other] → s.competencies = []
  /-- Confirmed unchanged, it is accepted as far as the identities of the document, of the block
  and of its competencies are. -/
  confirmable : ∀ documentSha256, (s.confirmed documentSha256 block).Accepted ↔
    IsHex 64 documentSha256 ∧ IsHex 24 block.blockId ∧
      AcceptableIds (s.competencies.map (·.entityId))

/-- What a suggestion of an entry is known by. -/
def entryIdentity (s : ResumeSuggestion) : Identity :=
  ⟨s.category, s.start, s.quote, sortedIds (s.competencies.map (·.entityId))⟩

/-- What a suggestion of a pick is known by. -/
def pickIdentity (s : ResumeSuggestion) : PickIdentity :=
  ⟨s.start, s.stop, sortedIds (s.competencies.map (·.entityId))⟩

/-! ## Stripped texts -/

private theorem infix_stripWhitespace (cs : List Char) : stripWhitespace cs <:+: cs := by
  unfold stripWhitespace
  refine List.IsInfix.trans ?_ (List.dropWhile_suffix isWhiteSpace).isInfix
  rw [← List.reverse_infix, List.reverse_reverse]
  exact (List.dropWhile_suffix isWhiteSpace).isInfix

private theorem all_of_dropWhile_nil {p : Char → Bool} {cs : List Char}
    (h : cs.dropWhile p = []) : ∀ c ∈ cs, p c = true := List.dropWhile_eq_nil_iff.mp h

/-- What `str.strip` leaves something of is not only white space. -/
theorem stripWhitespace_ne_nil {cs : List Char} (h : strip cs ≠ []) : stripWhitespace cs ≠ [] := by
  intro hnil
  apply h
  have hrest : cs.dropWhile isWhiteSpace = [] := by
    cases hdrop : cs.dropWhile isWhiteSpace with
    | nil => rfl
    | cons c rest =>
      have hblank := all_of_dropWhile_nil (List.reverse_eq_nil_iff.mp hnil) c (by simp [hdrop])
      have hfirst := List.head?_dropWhile_not isWhiteSpace cs
      rw [hdrop] at hfirst
      simp only [List.head?_cons] at hfirst
      simp [hblank] at hfirst
  have hspace : cs.dropWhile isSpace = [] := by
    rw [List.dropWhile_eq_nil_iff]
    exact fun c hc ↦ (Bool.and_eq_true_iff.mp (all_of_dropWhile_nil hrest c hc)).1
  unfold strip
  rw [hspace]
  rfl

/-! ## Competencies and fields -/

/-- The competencies of offered identities. -/
theorem competencies_of_offered {ids : List String}
    (h : ∀ key ∈ ids, key ∈ items.map (·.entityId)) :
    ∃ competencies, ids.mapM (competencyOf items) = .ok competencies ∧
      competencies.map (·.entityId) = ids ∧ ∀ c ∈ competencies, c ∈ items := by
  have hone : ∀ key ∈ ids, ∃ item, competencyOf items key = .ok item := by
    intro key hkey
    obtain ⟨item, hitem, rfl⟩ := List.mem_map.mp (h key hkey)
    unfold competencyOf
    cases hfound : lookupLast (fun item : SkillItem ↦ item.entityId) items item.entityId with
    | some found => exact ⟨found, rfl⟩
    | none => exact absurd rfl (lookupLast_eq_none.mp hfound item hitem)
  obtain ⟨competencies, hread⟩ := exists_mapM_ok_iff.mpr hone
  have hpairs := forall₂_of_mapM_ok hread
  have hspec : ∀ key item, competencyOf items key = .ok item →
      item.entityId = key ∧ item ∈ items := by
    intro key item hitem
    unfold competencyOf at hitem
    split at hitem
    · next found hfound =>
      cases hitem
      exact ⟨(lookupLast_some hfound).2, (lookupLast_some hfound).1⟩
    · cases hitem
  refine ⟨competencies, hread, ?_, ?_⟩
  · clear hread hone h
    induction hpairs with
    | nil => rfl
    | cons hitem _ ih => rw [List.map_cons, (hspec _ _ hitem).1, ih]
  · intro c hc
    obtain ⟨key, -, hkey⟩ := exists_of_mem_right hpairs hc
    exact (hspec key c hkey).2

/-- A field that is kept. -/
structure KeptField (quote : List Char) (field : ResumeFieldName × List Char) : Prop where
  visible : strip field.2 ≠ []
  found : field.2 <:+: quote
  length_le : field.2.length ≤ 500

private theorem keepField_spec {quote : List Char}
    {state : List (ResumeFieldName × List Char) × Nat} (field : Field)
    (h : ∀ f ∈ state.1, KeptField quote f) :
    (keepField quote state field).1.length ≤ state.1.length + 1 ∧
      ∀ f ∈ (keepField quote state field).1, KeptField quote f := by
  unfold keepField
  split_ifs with hrejected
  · exact ⟨Nat.le_succ _, h⟩
  · rw [not_or, not_or, not_not] at hrejected
    refine ⟨by rw [List.length_append, List.length_singleton], fun f hf ↦ ?_⟩
    rcases List.mem_append.mp hf with hold | hnew
    · exact h f hold
    · obtain rfl := List.mem_singleton.mp hnew
      exact ⟨hrejected.1, hrejected.2.2, field.value.2.2⟩

/-- The fields that are kept. -/
theorem keepFields_spec (quote : List Char) (fields : List Field) :
    (keepFields quote fields).1.length ≤ fields.length ∧
      ∀ f ∈ (keepFields quote fields).1, KeptField quote f := by
  unfold keepFields
  suffices h : ∀ state : List (ResumeFieldName × List Char) × Nat,
      (∀ f ∈ state.1, KeptField quote f) →
      (fields.foldl (keepField quote) state).1.length ≤ state.1.length + fields.length ∧
        ∀ f ∈ (fields.foldl (keepField quote) state).1, KeptField quote f by
    simpa using h ([], 0) (List.forall_mem_nil _)
  induction fields with
  | nil => exact fun state h ↦ ⟨le_refl _, h⟩
  | cons field fields ih =>
    intro state h
    obtain ⟨hlength, hkept⟩ := keepField_spec field h
    obtain ⟨hrest, hall⟩ := ih _ hkept
    refine ⟨hrest.trans ?_, hall⟩
    rw [List.length_cons]
    omega

/-! ## Entries -/

/-- What holds at each pass of the loop over the entries. -/
structure EntryLaws (block : ResumeBlock) (items : List SkillItem) (state : EntryLoop) : Prop where
  grounded : ∀ s ∈ state.found, GroundedEntry block items s
  seen : state.found.map entryIdentity = state.seen
  distinct : state.seen.Nodup

/-- A confirmation of a well formed quotation. -/
theorem confirmed_accepted_iff {s : ResumeSuggestion} (documentSha256 : List Char)
    (hblock : s.blockId = block.blockId) (hquote : 1 ≤ s.quote.length)
    (hstop : s.stop = s.start + s.quote.length)
    (hfields : ∀ f ∈ s.fields, KeptField s.quote f) :
    (s.confirmed documentSha256 block).Accepted ↔
      IsHex 64 documentSha256 ∧ IsHex 24 block.blockId ∧
        AcceptableIds (s.competencies.map (·.entityId)) := by
  constructor
  · intro h
    have hevidence := h.documentEvidence _ rfl
    refine ⟨hevidence.documentSha256, ?_, ?_, ?_⟩
    · rw [← hblock]
      exact hevidence.blockId
    · have hdistinct := h.distinct
      simpa [ResumeSuggestion.confirmed, Function.comp_def] using hdistinct
    · intro id hid
      obtain ⟨item, hitem, rfl⟩ := List.mem_map.mp hid
      exact h.identities _ (List.mem_map_of_mem hitem)
  · rintro ⟨hdocument, hhex, hids⟩
    constructor
    case competencies_length =>
      rw [ResumeSuggestion.confirmed, List.length_map]
      exact s.competencies_length
    case evidence_length =>
      exact (infix_stripWhitespace s.quote).length_le.trans s.quote_length
    case importedFields_length => exact s.fields_length
    case documentEvidence =>
      intro e he
      obtain rfl := Option.some.inj he
      refine ⟨hdocument, rfl, ?_, block.textHash_hex, hquote, s.quote_length, ?_, ?_, ?_⟩
      · rw [hblock]
        exact hhex
      · exact Int.natCast_nonneg _
      · exact Int.natCast_pos.mpr s.stop_pos
      · dsimp only
        rw [hstop]
        omega
    case provenance => exact iff_of_true rfl (Option.some_ne_none _)
    case importedFields =>
      refine fun _ ↦ ⟨_, rfl, fun f hf ↦ ?_⟩
      have hfield := hfields f hf
      have hinfix := infix_stripWhitespace f.2
      exact ⟨stripWhitespace_ne_nil hfield.visible, hinfix.length_le.trans hfield.length_le,
        hinfix.trans hfield.found⟩
    case distinct =>
      have hdistinct := hids.distinct
      simpa [ResumeSuggestion.confirmed, Function.comp_def] using hdistinct
    case identities =>
      intro id hid
      obtain ⟨item, hitem, rfl⟩ := List.mem_map.mp hid
      exact hids.bounded _ (List.mem_map_of_mem hitem)

/-- An occurrence of a text that is not empty ends inside the text. -/
theorem slice_of_occurrence {quote : List Char} {i start : Nat}
    (h : (occurrences quote text)[i]? = some start) :
    slice start (start + quote.length) text = quote ∧ start + quote.length ≤ text.length := by
  obtain ⟨hle, hprefix⟩ := mem_occurrences.mp (List.mem_of_getElem? h)
  refine ⟨slice_eq_of_isPrefix hprefix, ?_⟩
  have hlength := hprefix.length_le
  rw [List.length_drop] at hlength
  omega

private theorem mem_creditedIds {category : SpecCategory} {ids : List String} {key : String}
    (h : key ∈ creditedIds category ids) : key ∈ ids := by
  unfold creditedIds at h
  split_ifs at h
  · cases h
  · exact h

private theorem length_creditedIds (category : SpecCategory) (ids : List String) :
    (creditedIds category ids).length ≤ ids.length := by
  unfold creditedIds
  split_ifs
  · exact Nat.zero_le _
  · exact le_refl _

/-- A suggestion that is new is added to those found. -/
theorem EntryLaws.add {state : EntryLoop} (h : EntryLaws block items state)
    {s : ResumeSuggestion} (hs : GroundedEntry block items s)
    (hnew : entryIdentity s ∉ state.seen) (rejected : Nat) :
    EntryLaws block items ⟨state.found ++ [s], state.seen ++ [entryIdentity s], rejected⟩ where
  grounded := List.forall_mem_append.mpr ⟨h.grounded, List.forall_mem_singleton.mpr hs⟩
  seen := by rw [List.map_append, h.seen, List.map_singleton]
  distinct := by
    rw [List.nodup_append]
    refine ⟨h.distinct, List.nodup_singleton _, fun a ha b hb ↦ ?_⟩
    obtain rfl := List.mem_singleton.mp hb
    rintro rfl
    exact hnew ha

/-- A pass over a well formed entry. -/
theorem keepEntry_spec {state : EntryLoop} (entry : Entry) (h : EntryLaws block items state) :
    ∃ state', keepEntry digest block items state entry = .ok state' ∧
      EntryLaws block items state' := by
  have hrejected (n : Nat) : EntryLaws block items { state with rejected := n } :=
    ⟨h.grounded, h.seen, h.distinct⟩
  unfold keepEntry
  dsimp only
  split_ifs with hblank hids
  · exact ⟨_, rfl, hrejected _⟩
  · split
    · exact ⟨_, rfl, hrejected _⟩
    · exact ⟨_, rfl, hrejected _⟩
  split
  · exact ⟨_, rfl, hrejected _⟩
  next start hstart =>
  split_ifs with hseen
  · exact ⟨_, rfl, hrejected _⟩
  rw [not_or, not_not] at hids
  have hoffered : ∀ key ∈ creditedIds entry.category entry.competencyIds.1,
      key ∈ items.map (·.entityId) := fun key hkey ↦
    by_contra fun hout ↦ hids.1 ⟨key, mem_creditedIds hkey, hout⟩
  obtain ⟨competencies, hread, hkeys, hitems⟩ := competencies_of_offered hoffered
  have hcount : competencies.length ≤ 12 := by
    rw [← List.length_map (·.entityId), hkeys]
    exact (length_creditedIds _ _).trans entry.competencyIds.2.2
  obtain ⟨hquote, hrange⟩ := slice_of_occurrence hstart
  obtain ⟨hfieldCount, hfields⟩ := keepFields_spec entry.quote.1 entry.fields.1
  have htitleLength := entry.title.2.2
  have hquoteLength := entry.quote.2
  have hfieldsLength := entry.fields.2.2
  refine ⟨_, bind_eq_ok.mpr ⟨competencies, hread, bind_eq_ok.mpr ⟨_, dif_pos ⟨by omega, hcount,
    by omega, by omega, by omega⟩, rfl⟩⟩, ?_⟩
  have hidentity : (⟨entry.category, start, entry.quote.1, sortedIds
      (creditedIds entry.category entry.competencyIds.1)⟩ : Identity) =
      ⟨entry.category, start, entry.quote.1, sortedIds (competencies.map (·.entityId))⟩ := by
    rw [hkeys]
  rw [hidentity] at hseen ⊢
  refine EntryLaws.add (s := ⟨_, entry.category, entry.title.1, competencies, block.blockId,
    entry.quote.1, start, _, .aiAssisted, _, _, _, _, _, _⟩) h ?_ hseen _
  constructor
  case grounded => exact ⟨hquote, Nat.le_add_right _ _, hrange, hitems⟩
  case fields => exact fun f hf ↦ ⟨(hfields f hf).visible, (hfields f hf).found⟩
  case uncredited =>
    intro hcategory
    dsimp only at hcategory ⊢
    have hnone : creditedIds entry.category entry.competencyIds.1 = [] := if_pos hcategory
    rw [← List.map_eq_nil_iff, hkeys, hnone]
  case confirmable =>
    exact fun documentSha256 ↦
      confirmed_accepted_iff documentSha256 rfl hquoteLength.1 rfl hfields

/-- A pass over a value. -/
theorem readValue_spec {state : EntryLoop} (value : Json) (h : EntryLaws block items state) :
    ∃ state', readValue digest block items state value = .ok state' ∧
      EntryLaws block items state' := by
  unfold readValue
  split
  · exact ⟨_, rfl, h.grounded, h.seen, h.distinct⟩
  · exact keepEntry_spec _ h

/-! ## Picks -/

/-- What holds at each pass of the loop over the picks. -/
structure PickLaws (text : List Char) (items : List SkillItem) (state : PickLoop) : Prop where
  grounded : ∀ s ∈ state.found, Grounded text items s
  seen : state.found.map pickIdentity = state.seen
  distinct : state.seen.Nodup

/-- A pass over a well formed pick. -/
theorem keepPick_spec {state : PickLoop} (pick : AiPick) (h : PickLaws text items state) :
    ∃ state', keepPick text items state pick = .ok state' ∧ PickLaws text items state' := by
  unfold keepPick
  dsimp only
  split_ifs with hrejected hseen
  · exact ⟨_, rfl, h.grounded, h.seen, h.distinct⟩
  · exact ⟨state, rfl, h⟩
  rw [not_or, not_or, not_not, not_not] at hrejected
  obtain ⟨hquote, hids, -⟩ := hrejected
  have hoffered : ∀ key ∈ pick.competencyIds.1, key ∈ items.map (·.entityId) := fun key hkey ↦
    by_contra fun hout ↦ hids ⟨key, hkey, hout⟩
  obtain ⟨competencies, hread, hkeys, hitems⟩ := competencies_of_offered hoffered
  have hcount : competencies.length ≤ 12 := by
    rw [← List.length_map (·.entityId), hkeys]
    exact pick.competencyIds.2.2
  refine ⟨_, bind_eq_ok.mpr ⟨competencies, hread, bind_eq_ok.mpr ⟨_, dif_pos ⟨pick.title.2.2,
    hcount, pick.quote.2.2, pick.stop_pos, Nat.zero_le _⟩, rfl⟩⟩, ?_⟩
  have hrange : pick.start ≤ pick.stop ∧ pick.stop ≤ text.length := by
    have hspan := pick.span
    have hpos := pick.quote.2.1
    have hlength := congrArg List.length hquote
    rw [length_slice] at hlength
    omega
  have hgrounded : ∀ s ∈ state.found, Grounded text items s := h.grounded
  constructor
  case grounded =>
    refine List.forall_mem_append.mpr ⟨hgrounded, List.forall_mem_singleton.mpr ?_⟩
    exact ⟨hquote, hrange.1, hrange.2, hitems⟩
  case seen =>
    rw [List.map_append, h.seen, List.map_singleton]
    unfold pickIdentity
    rw [hkeys]
  case distinct =>
    rw [List.nodup_append]
    refine ⟨h.distinct, List.nodup_singleton _, fun a ha b hb ↦ ?_⟩
    obtain rfl := List.mem_singleton.mp hb
    rintro rfl
    exact hseen ha

/-- A pass over a value. -/
theorem readPickValue_spec {state : PickLoop} (value : Json) (h : PickLaws text items state) :
    ∃ state', readPickValue text items state value = .ok state' ∧ PickLaws text items state' := by
  unfold readPickValue
  split
  · exact ⟨_, rfl, h.grounded, h.seen, h.distinct⟩
  · exact keepPick_spec _ h

/-! ## The results -/

/-- Whatever the model answers, both functions return, and what they keep is grounded.
`src/jobtology_be/resume/extraction.py:80–120`, `src/jobtology_be/resume/matching.py:77–104`,
`src/jobtology_be/application/specs.py:42–107`. -/
theorem suggestions_grounded (digest : Identity → List Char) (raw : Json) (block : ResumeBlock)
    (text : List Char) (items : List SkillItem) :
    (∃ extraction, validatedEntries digest block items raw = .ok extraction ∧
      (∀ s ∈ extraction.suggestions, GroundedEntry block items s) ∧
      (extraction.suggestions.map entryIdentity).Nodup) ∧
    ∃ response, validatedAiPicks text items raw = .ok response ∧
      (∀ s ∈ response.suggestions, Grounded text items s) ∧
      (response.suggestions.map pickIdentity).Nodup := by
  cases raw with
  | arr raw =>
    constructor
    · have hstart : EntryLaws block items ⟨[], [], raw.length - 5⟩ :=
        ⟨List.forall_mem_nil _, rfl, List.nodup_nil⟩
      obtain ⟨state, hloop, hlaws⟩ :=
        exists_foldlM_ok (f := readValue digest block items)
          (fun _ value h ↦ readValue_spec value h) (raw.take 5) hstart
      refine ⟨_, bind_eq_ok.mpr ⟨state, hloop, rfl⟩, hlaws.grounded, ?_⟩
      rw [hlaws.seen]
      exact hlaws.distinct
    · have hstart : PickLaws text items ⟨[], [], 0⟩ :=
        ⟨List.forall_mem_nil _, rfl, List.nodup_nil⟩
      obtain ⟨state, hloop, hlaws⟩ :=
        exists_foldlM_ok (f := readPickValue text items)
          (fun _ value h ↦ readPickValue_spec value h) (raw.take 20) hstart
      refine ⟨_, bind_eq_ok.mpr ⟨state, hloop, rfl⟩, ?_, ?_⟩
      · exact fun s hs ↦ hlaws.grounded s (List.mem_of_mem_take hs)
      · have hdistinct := hlaws.distinct
        rw [← hlaws.seen] at hdistinct
        exact hdistinct.sublist ((List.take_sublist 5 state.found).map pickIdentity)
  | _ =>
    exact ⟨⟨_, rfl, List.forall_mem_nil _, List.nodup_nil⟩,
      ⟨_, rfl, List.forall_mem_nil _, List.nodup_nil⟩⟩

/-! ## Identities that are not checked -/

/-- A block about Python. -/
def pythonBlock (blockId : List Char) (h : blockId.length ≤ 128) : ResumeBlock where
  blockId := blockId
  text := "Python".toList
  textHash := List.replicate 64 'c'
  blockId_length := h
  text_length := by decide
  textHash_hex := by decide +kernel

/-- An answer about the block with one competency. -/
def pythonAnswer (competencyId : String) : Json := .arr [.obj
  [("title", .str "Python"), ("category", .str "skill"), ("quote", .str "Python"),
    ("occurrence_index", .int 0), ("competency_ids", .arr [.str competencyId]),
    ("fields", .arr [])]]

/-- A block whose identity is not the extractor's. -/
def foreignBlock : ResumeBlock := pythonBlock "paragraph-1".toList (by decide)

/-- A block with an identity of the extractor. -/
def extractedBlock : ResumeBlock := pythonBlock (List.replicate 24 'b') (by decide)

/-- A competency whose identity is longer than details allow. -/
def longItem : SkillItem :=
  ⟨"ncs:unit:" ++ String.ofList (List.replicate 120 '0'), "Python"⟩

/-- The identities of what is kept. -/
def keptIdentities (result : Except SuggestionError ParagraphExtraction) :
    List (List Char × List String) :=
  match result with
  | .ok extraction =>
    extraction.suggestions.map fun s ↦ (s.blockId, s.competencies.map (·.entityId))
  | .error _ => []

private theorem exists_of_keptIdentities {result : Except SuggestionError ParagraphExtraction}
    {kept : List Char × List String} (h : kept ∈ keptIdentities result) :
    ∃ extraction, result = .ok extraction ∧ ∃ s ∈ extraction.suggestions,
      s.blockId = kept.1 ∧ s.competencies.map (·.entityId) = kept.2 := by
  cases result with
  | error e => cases h
  | ok extraction =>
    obtain ⟨s, hs, rfl⟩ := List.mem_map.mp h
    exact ⟨extraction, rfl, s, hs, rfl, rfl⟩

/-- A suggestion is kept that details do not accept, for the identity of its block or for that of
a competency. -/
theorem kept_unconfirmable :
    (∃ extraction, validatedEntries (fun _ ↦ []) foreignBlock [⟨"ncs:unit:1", "Python"⟩]
        (pythonAnswer "ncs:unit:1") = .ok extraction ∧
      ∃ s ∈ extraction.suggestions, ∀ documentSha256,
        ¬(s.confirmed documentSha256 foreignBlock).Accepted) ∧
    ∃ extraction, validatedEntries (fun _ ↦ []) extractedBlock [longItem]
        (pythonAnswer longItem.entityId) = .ok extraction ∧
      ∃ s ∈ extraction.suggestions, ∀ documentSha256,
        ¬(s.confirmed documentSha256 extractedBlock).Accepted := by
  constructor
  · obtain ⟨extraction, hrun, s, hs, hblock, -⟩ := exists_of_keptIdentities
      (show ("paragraph-1".toList, ["ncs:unit:1"]) ∈ keptIdentities (validatedEntries (fun _ ↦ [])
        foreignBlock [⟨"ncs:unit:1", "Python"⟩] (pythonAnswer "ncs:unit:1")) by decide +kernel)
    refine ⟨extraction, hrun, s, hs, fun documentSha256 h ↦ ?_⟩
    have hhex := (h.documentEvidence _ rfl).blockId
    change IsHex 24 s.blockId at hhex
    rw [hblock] at hhex
    exact absurd hhex (by decide +kernel)
  · obtain ⟨extraction, hrun, s, hs, -, hids⟩ := exists_of_keptIdentities
      (show (List.replicate 24 'b', [longItem.entityId]) ∈ keptIdentities (validatedEntries
        (fun _ ↦ []) extractedBlock [longItem] (pythonAnswer longItem.entityId)) by decide +kernel)
    refine ⟨extraction, hrun, s, hs, fun documentSha256 h ↦ ?_⟩
    obtain ⟨item, hitem, hid⟩ : ∃ item ∈ s.competencies, item.entityId = longItem.entityId :=
      List.mem_map.mp (by rw [hids]; exact List.mem_cons_self)
    have hbound := (h.identities item.entityId.toList (List.mem_map_of_mem hitem)).2
    rw [hid] at hbound
    exact absurd hbound (by decide +kernel)

end Jobtology.Resume
