import Jobtology.Chat.EvidenceGraph
import Jobtology.Graph.LayeredSearch
import Mathlib.Data.List.MinMax

/-!
# The neighbourhood of the focus as a search

`focus_neighborhood` searches outwards from the items in focus, in three rounds, along edges in
either direction and over admissible nodes only. The bounded evidence that it returns is fair:
nearer layers come first, and nothing within reach is left out while there is room.
-/

namespace Jobtology.Chat

open Jobtology.Base Jobtology.Graph

variable {graph : EvidenceGraph} {focus : List String} {limit : Int} {a b k : String}
  {kept frontier : List String} {rootIsPosting : Bool}

/-! ### What the search is about -/

/-- Some edge joins the nodes, in either direction. -/
def EvidenceGraph.Linked (graph : EvidenceGraph) (a b : String) : Prop :=
  ∃ link ∈ graph.edges,
    (link.source = a ∧ link.target = b) ∨ (link.target = a ∧ link.source = b)

/-- An id in focus that the graph knows. -/
def KnownFocus (graph : EvidenceGraph) (focus : List String) (k : String) : Prop :=
  k ∈ focus ∧ k ∈ graph.nodeIds

/-- Some item in focus is a posting. -/
def PostingInFocus (graph : EvidenceGraph) (focus : List String) : Prop :=
  ∃ k ∈ focus, ∃ node, lookupLast (·.id) graph.nodes k = some node ∧ node.kind = .posting

/-- The search may keep the node: it is in focus, or it is in the graph and does not lead from one
posting to another. -/
def Admissible (graph : EvidenceGraph) (focus : List String) (k : String) : Prop :=
  KnownFocus graph focus k ∨ ∃ node, lookupLast (·.id) graph.nodes k = some node ∧
    ¬ (PostingInFocus graph focus ∧ node.kind ∈ [.posting, .postingEvidence])

/-- One step of the search. -/
def FocusStep (graph : EvidenceGraph) (focus : List String) (a b : String) : Prop :=
  graph.Linked a b ∧ Admissible graph focus b

/-- The admissible nodes within three edges of the focus. -/
noncomputable def nearFocus (graph : EvidenceGraph) (focus : List String) : Finset String := by
  classical
  exact graph.nodeIds.toFinset.filter (Within (KnownFocus graph focus) (FocusStep graph focus) 3)

/-- What a fair bounded search from the focus returns. -/
structure FairSearch (graph : EvidenceGraph) (focus : List String) (limit : Int)
    (result : EvidenceGraph) : Prop where
  /-- The nodes are those of the graph, each once. -/
  nodes : ∀ node ∈ result.nodes, lookupLast (·.id) graph.nodes node.id = some node
  nodup : result.nodeIds.Nodup
  /-- Each is in focus or is reached from there through kept nodes. -/
  reached : ∀ k ∈ result.nodeIds, Within (KnownFocus graph focus)
    (fun a b ↦ graph.Linked a b ∧ a ∈ result.nodeIds ∧ b ∈ result.nodeIds) 3 k
  bounded : (result.nodes.length : Int) ≤
    max limit (focus.filter (· ∈ graph.nodeIds)).toFinset.card
  /-- A layer is begun only when the layer before it is complete. -/
  layered : ∀ d a b, AtDistance (KnownFocus graph focus) (FocusStep graph focus) (d + 1) b →
    b ∈ result.nodeIds →
    AtDistance (KnownFocus graph focus) (FocusStep graph focus) d a → a ∈ result.nodeIds
  complete : ((nearFocus graph focus).card : Int) ≤ limit →
    ∀ k ∈ nearFocus graph focus, k ∈ result.nodeIds
  edges : result.edges = graph.edges.filter fun link ↦
    link.source ∈ result.nodeIds ∧ link.target ∈ result.nodeIds
  truncated : result.truncated = true ↔
    graph.truncated = true ∨ ∃ k ∈ graph.nodeIds, k ∉ result.nodeIds

/-! ### Rounds -/

private theorem exists_lookup_iff :
    (∃ node, lookupLast (·.id) graph.nodes k = some node) ↔ k ∈ graph.nodeIds := by
  constructor
  · rintro ⟨node, hnode⟩
    obtain ⟨hmem, hid⟩ := lookupLast_some hnode
    exact List.mem_map.mpr ⟨node, hmem, hid⟩
  · intro h
    cases hfound : lookupLast (fun node : GraphNode ↦ node.id) graph.nodes k with
    | some node => exact ⟨node, rfl⟩
    | none =>
      obtain ⟨node, hnode, hid⟩ := List.mem_map.mp h
      exact absurd hid (lookupLast_eq_none.mp hfound node hnode)

/-- The other end of an edge of the parent. -/
private def otherEnd (parent : String) (link : GraphEdge) : Option String :=
  if link.source = parent then some link.target
  else if link.target = parent then some link.source else none

private theorem otherEnd_eq_some {link : GraphEdge} :
    otherEnd a link = some b ↔
      (link.source = a ∧ link.target = b) ∨ (link.target = a ∧ link.source = b) := by
  unfold otherEnd
  by_cases hsource : link.source = a
  · rw [if_pos hsource, Option.some_inj]
    constructor
    · exact fun htarget ↦ .inl ⟨hsource, htarget⟩
    · rintro (⟨-, htarget⟩ | ⟨htarget, hb⟩)
      · exact htarget
      · rw [htarget, ← hsource, hb]
  · by_cases htarget : link.target = a
    · rw [if_neg hsource, if_pos htarget, Option.some_inj]
      constructor
      · exact fun hb ↦ .inr ⟨htarget, hb⟩
      · rintro (⟨hparent, -⟩ | ⟨-, hb⟩)
        · exact absurd hparent hsource
        · exact hb
    · simp [hsource, htarget]

/-- The loop over the edges, with the end of an edge chosen first. -/
theorem neighborsOf_eq :
    neighborsOf graph kept rootIsPosting a =
      (graph.edges.filterMap fun link ↦ (otherEnd a link).bind fun key ↦
        (lookupLast (·.id) graph.nodes key).bind fun node ↦
          if key ∉ kept ∧ ¬ (rootIsPosting = true ∧ node.kind ∈ [.posting, .postingEvidence])
          then some key else none).eraseDups := by
  unfold neighborsOf
  congr 2
  funext link
  unfold otherEnd
  by_cases hsource : link.source = a
  · rw [if_pos hsource, if_pos hsource]
    rfl
  · rw [if_neg hsource, if_neg hsource]
    by_cases htarget : link.target = a
    · rw [if_pos htarget, if_pos htarget]
      rfl
    · rw [if_neg htarget, if_neg htarget]
      rfl

private theorem mem_neighborsOf :
    b ∈ neighborsOf graph kept rootIsPosting a ↔
      graph.Linked a b ∧ b ∉ kept ∧ ∃ node, lookupLast (·.id) graph.nodes b = some node ∧
        ¬ (rootIsPosting = true ∧ node.kind ∈ [.posting, .postingEvidence]) := by
  rw [neighborsOf_eq, List.mem_eraseDups, List.mem_filterMap]
  constructor
  · rintro ⟨link, hlink, hsome⟩
    obtain ⟨key, hkey, hrest⟩ := Option.bind_eq_some_iff.mp hsome
    obtain ⟨node, hnode, hif⟩ := Option.bind_eq_some_iff.mp hrest
    split at hif
    · next hfree =>
      obtain rfl := Option.some.inj hif
      exact ⟨⟨link, hlink, otherEnd_eq_some.mp hkey⟩, hfree.1, node, hnode, hfree.2⟩
    · cases hif
  · rintro ⟨⟨link, hlink, hends⟩, hnew, node, hnode, hkind⟩
    refine ⟨link, hlink, Option.bind_eq_some_iff.mpr ⟨b, otherEnd_eq_some.mpr hends, ?_⟩⟩
    exact Option.bind_eq_some_iff.mpr ⟨node, hnode, if_pos ⟨hnew, hkind⟩⟩

private theorem mem_interleave {rows : List (List String)} :
    b ∈ interleave rows ↔ ∃ row ∈ rows, b ∈ row := by
  unfold interleave
  rw [List.mem_flatMap]
  constructor
  · rintro ⟨i, -, hi⟩
    obtain ⟨row, hrow, hget⟩ := List.mem_filterMap.mp hi
    exact ⟨row, hrow, List.mem_of_getElem? hget⟩
  · rintro ⟨row, hrow, hb⟩
    obtain ⟨i, hlt, hget⟩ := List.mem_iff_getElem.mp hb
    refine ⟨i, List.mem_range.mpr ?_, List.mem_filterMap.mpr ⟨row, hrow, ?_⟩⟩
    · exact Nat.lt_of_lt_of_le hlt
        (List.le_max_of_le' 0 (List.mem_map_of_mem hrow) (le_refl row.length))
    · rw [List.getElem?_eq_getElem hlt, hget]

/-- Keys are taken while there is room. -/
theorem takeFollowing_eq_take (keys : List String) :
    takeFollowing limit kept keys = keys.take (limit - kept.length).toNat := by
  induction keys generalizing kept with
  | nil => rw [List.take_nil]; rfl
  | cons key rest ih =>
    unfold takeFollowing
    by_cases hroom : (kept.length : Int) < limit
    · have hcount : (limit - kept.length).toNat =
          (limit - (kept ++ [key]).length).toNat + 1 := by
        rw [List.length_append, List.length_singleton]
        omega
      rw [if_pos hroom, ih, hcount, List.take_succ_cons]
    · have hcount : (limit - kept.length).toNat = 0 := by omega
      rw [if_neg hroom, ih, hcount, List.take_zero, List.take_zero]

/-- The posting filter of the code says that a posting is in focus. -/
theorem any_posting_iff :
    (((focus.filter (· ∈ graph.nodeIds)).eraseDups.any fun key ↦
      (lookupLast (·.id) graph.nodes key).any (·.kind = .posting)) = true) ↔
      PostingInFocus graph focus := by
  rw [List.any_eq_true]
  constructor
  · rintro ⟨key, hkey, hany⟩
    obtain ⟨node, hnode, hkind⟩ := (Option.any_eq_true _ _).mp hany
    rw [List.mem_eraseDups, List.mem_filter] at hkey
    exact ⟨key, hkey.1, node, hnode, of_decide_eq_true hkind⟩
  · rintro ⟨key, hkey, node, hnode, hkind⟩
    refine ⟨key, ?_, (Option.any_eq_true _ _).mpr ⟨node, hnode, decide_eq_true hkind⟩⟩
    rw [List.mem_eraseDups, List.mem_filter]
    exact ⟨hkey, decide_eq_true (exists_lookup_iff.mp ⟨node, hnode⟩)⟩

/-- A round of the code is a round of the search. -/
theorem round_takeFollowing (limit : Int) (frontier : List String)
    (hposting : rootIsPosting = true ↔ PostingInFocus graph focus)
    (hroots : ∀ k, KnownFocus graph focus k → k ∈ kept) :
    Round (FocusStep graph focus) limit kept frontier
      (takeFollowing limit kept
        (interleave (frontier.map (neighborsOf graph kept rootIsPosting))).eraseDups) := by
  have hfollowing : ∀ b,
      b ∈ (interleave (frontier.map (neighborsOf graph kept rootIsPosting))).eraseDups ↔
        ∃ a ∈ frontier, FocusStep graph focus a b ∧ b ∉ kept := by
    intro b
    rw [List.mem_eraseDups, mem_interleave]
    constructor
    · rintro ⟨row, hrow, hb⟩
      obtain ⟨a, ha, rfl⟩ := List.mem_map.mp hrow
      rw [mem_neighborsOf, hposting] at hb
      exact ⟨a, ha, ⟨hb.1, .inr hb.2.2⟩, hb.2.1⟩
    · rintro ⟨a, ha, ⟨hlinked, hadmissible⟩, hnew⟩
      refine ⟨_, List.mem_map_of_mem ha, ?_⟩
      rw [mem_neighborsOf, hposting]
      rcases hadmissible with hknown | hnode
      · exact absurd (hroots b hknown) hnew
      · exact ⟨hlinked, hnew, hnode⟩
  have hdistinct := nodup_eraseDups
    (interleave (frontier.map (neighborsOf graph kept rootIsPosting)))
  rw [takeFollowing_eq_take]
  generalize (interleave (frontier.map (neighborsOf graph kept rootIsPosting))).eraseDups =
    following at hfollowing hdistinct ⊢
  constructor
  · exact hdistinct.sublist (List.take_sublist _ _)
  · intro b hb
    obtain ⟨a, -, -, hnew⟩ := (hfollowing b).mp (List.mem_of_mem_take hb)
    exact hnew
  · intro b hb
    obtain ⟨a, ha, hs, -⟩ := (hfollowing b).mp (List.mem_of_mem_take hb)
    exact ⟨a, ha, hs⟩
  · intro hne
    have hroom : (limit - kept.length).toNat ≠ 0 := by
      intro hzero
      rw [hzero, List.take_zero] at hne
      exact hne rfl
    rw [List.length_append, List.length_take]
    omega
  · by_cases hall : following.length ≤ (limit - kept.length).toNat
    · left
      intro a ha b hs
      rw [List.take_of_length_le hall, List.mem_append]
      by_cases hkept : b ∈ kept
      · exact .inl hkept
      · exact .inr ((hfollowing b).mpr ⟨a, ha, hs, hkept⟩)
    · right
      rw [List.length_append, List.length_take]
      omega

/-- The rounds of the code are a run of the search. -/
theorem search_expandFocus (limit : Int) (rounds : Nat)
    (hposting : rootIsPosting = true ↔ PostingInFocus graph focus)
    (hroots : ∀ k, KnownFocus graph focus k → k ∈ kept) (frontier : List String) :
    Rounds (FocusStep graph focus) limit rounds kept frontier
      (expandFocus graph limit rootIsPosting rounds kept frontier) := by
  induction rounds generalizing kept frontier with
  | zero => exact .done
  | succ rounds ih =>
    have hround := round_takeFollowing limit frontier hposting hroots
    unfold expandFocus
    dsimp only
    split
    · next hnil =>
      rw [hnil] at hround
      exact .stop hround
    · next hne =>
      exact .round hround hne (ih (fun k hk ↦ List.mem_append_left _ (hroots k hk)) _)

/-! ### The result -/

/-- The ids of the items in focus that the graph knows, each once. -/
theorem mem_roots :
    k ∈ (focus.filter (· ∈ graph.nodeIds)).eraseDups ↔ KnownFocus graph focus k := by
  rw [List.mem_eraseDups, List.mem_filter, decide_eq_true_iff]
  rfl

/-- The nodes of known ids have these ids. -/
theorem map_id_filterMap (h : ∀ k ∈ kept, k ∈ graph.nodeIds) :
    (kept.filterMap (lookupLast (·.id) graph.nodes)).map (·.id) = kept := by
  induction kept with
  | nil => rfl
  | cons k rest ih =>
    obtain ⟨node, hnode⟩ := exists_lookup_iff.mpr (h k List.mem_cons_self)
    rw [List.filterMap_cons_some hnode, List.map_cons, (lookupLast_some hnode).2,
      ih fun j hj ↦ h j (List.mem_cons_of_mem k hj)]

/-- Fewer kept ids than ids mean that some id was left out. -/
theorem length_lt_iff (hnodup : kept.Nodup) (hsub : ∀ k ∈ kept, k ∈ graph.nodeIds) :
    kept.length < (dictOf (·.id) graph.nodes).length ↔ ∃ k ∈ graph.nodeIds, k ∉ kept := by
  have hkeys : ∀ k, k ∈ (dictOf (·.id) graph.nodes).map (·.id) ↔ k ∈ graph.nodeIds :=
    fun k ↦ mem_keys_dictOf
  have hkeysNodup : ((dictOf (·.id) graph.nodes).map (·.id)).Nodup := nodup_keys_dictOf
  have hperm : kept.Subperm ((dictOf (·.id) graph.nodes).map (·.id)) :=
    List.subperm_of_subset hnodup fun k hk ↦ (hkeys k).mpr (hsub k hk)
  rw [← List.length_map (fun node : GraphNode ↦ node.id)]
  constructor
  · intro hlt
    by_contra hall
    have hback := List.subperm_of_subset hkeysNodup fun k hk ↦
      by_contra fun hout ↦ hall ⟨k, (hkeys k).mp hk, hout⟩
    exact absurd hback.length_le (Nat.not_le_of_lt hlt)
  · rintro ⟨k, hk, hout⟩
    by_contra hge
    have hall := hperm.perm_of_length_le (Nat.le_of_not_lt hge)
    exact hout (hall.mem_iff.mpr ((hkeys k).mpr hk))

/-- The search stays in the graph. -/
theorem mem_nodeIds_of_within {d : Nat}
    (h : Within (KnownFocus graph focus) (FocusStep graph focus) d k) : k ∈ graph.nodeIds := by
  obtain ⟨e, -, hwalk⟩ := h
  apply hwalk.mem_of_closed (s := (· ∈ graph.nodeIds))
  · exact fun j hj ↦ hj.2
  · rintro j l - ⟨-, hknown | ⟨node, hnode, -⟩⟩
    · exact hknown.2
    · exact exists_lookup_iff.mp ⟨node, hnode⟩

private theorem mem_nearFocus :
    k ∈ nearFocus graph focus ↔ Within (KnownFocus graph focus) (FocusStep graph focus) 3 k := by
  classical
  unfold nearFocus
  rw [Finset.mem_filter, List.mem_toFinset, and_iff_right_iff_imp]
  exact mem_nodeIds_of_within

/-- The evidence over kept ids is fair where the ids are a layered search's. -/
theorem fair_of_layered
    (hlayered : Layered (KnownFocus graph focus) (FocusStep graph focus) limit 3 kept)
    (hnodup : kept.Nodup)
    (hlength : (kept.length : Int) ≤
      max limit (focus.filter (· ∈ graph.nodeIds)).eraseDups.length) :
    FairSearch graph focus limit
      { nodes := kept.filterMap (lookupLast (·.id) graph.nodes)
        edges := graph.edges.filter fun link ↦ link.source ∈ kept ∧ link.target ∈ kept
        warnings := graph.warnings
        truncated := graph.truncated ||
          decide (kept.length < (dictOf (·.id) graph.nodes).length) } := by
  have hsub : ∀ k ∈ kept, k ∈ graph.nodeIds :=
    fun k hk ↦ mem_nodeIds_of_within (hlayered.within k hk)
  have hids := map_id_filterMap hsub
  constructor <;> dsimp only [EvidenceGraph.nodeIds]
  case nodes =>
    intro node hnode
    obtain ⟨k, hk, hfound⟩ := List.mem_filterMap.mp hnode
    rw [(lookupLast_some hfound).2, hfound]
  case nodup =>
    rw [hids]
    exact hnodup
  case reached =>
    rw [hids]
    intro k hk
    obtain ⟨d, hd, hwalk⟩ := hlayered.reached hk
    exact ⟨d, hd, hwalk.mono fun a b h ↦ ⟨h.1.1, h.2⟩⟩
  case bounded =>
    rw [← List.length_map (fun node : GraphNode ↦ node.id), hids]
    rw [← List.toFinset_card_of_nodup (nodup_eraseDups _)] at hlength
    have hset : (focus.filter (· ∈ graph.nodeIds)).eraseDups.toFinset =
        (focus.filter (· ∈ graph.nodeIds)).toFinset := by
      ext k
      rw [List.mem_toFinset, List.mem_eraseDups, List.mem_toFinset]
    rwa [hset] at hlength
  case layered =>
    rw [hids]
    intro d a b hb hmem ha
    exact hlayered.layered d b a hb hmem ha
  case complete =>
    rw [hids]
    intro hfits k hk
    have hnear : ∀ b, b ∈ (nearFocus graph focus).toList ↔
        Within (KnownFocus graph focus) (FocusStep graph focus) 3 b :=
      fun b ↦ Finset.mem_toList.trans mem_nearFocus
    rw [← Finset.length_toList] at hfits
    exact hlayered.complete hnodup hnear hfits (Finset.mem_toList.mpr hk)
  case edges =>
    simp only [hids]
  case truncated =>
    rw [hids, Bool.or_eq_true, decide_eq_true_iff, length_lt_iff hnodup hsub]
    rfl

/-- `focus_neighborhood` is a fair bounded search from the focus.
`src/jobtology_be/chat/evidence.py:7–33`. -/
theorem focusNeighborhood_fair (graph : EvidenceGraph) (focus : List String) (limit : Int) :
    FairSearch graph focus limit (focusNeighborhood graph focus limit) := by
  have hsearch := search_expandFocus limit 3
    (any_posting_iff : _ ↔ PostingInFocus graph focus)
    (fun k hk ↦ mem_roots.mpr hk) (focus.filter (· ∈ graph.nodeIds)).eraseDups
  have hroots : (· ∈ (focus.filter (· ∈ graph.nodeIds)).eraseDups) = KnownFocus graph focus :=
    funext fun k ↦ propext mem_roots
  have hlayered := hsearch.layered full_roots
  rw [hroots, Nat.zero_add] at hlayered
  exact fair_of_layered hlayered (hsearch.nodup (nodup_eraseDups _)) hsearch.length_le

end Jobtology.Chat
