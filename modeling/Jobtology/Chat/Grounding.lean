import Jobtology.Chat.MergeLaws
import Jobtology.Chat.Workspace

/-!
# Grounded answers

What an answer refers to is in its own graph, and what the model selected was in the ledger it was
handed. The proposed edges are merged after the model has selected: at the cap they push out
selected edges or are dropped themselves, so an answer is grounded exactly if every edge that it
refers to has room.
-/

namespace Jobtology.Chat

open Jobtology.Base

/-- The answer refers to its own graph, and to what the model was handed. -/
structure Grounded (prompt : Prompt) (selection : AnswerSelection) (a : WorkspaceAnswer) :
    Prop where
  sources : ∀ s ∈ a.sources, s.id ∈ a.graph.nodeIds ∧ s.nodeIds ⊆ a.graph.nodeIds ∧
    s.edgeIds ⊆ a.graph.edgeIds
  nodes : ∀ action ∈ a.actions, action.nodeIds ⊆ a.graph.nodeIds
  edges : ∀ action ∈ a.actions, action.edgeIds ⊆ a.graph.edgeIds
  cited : ∀ s ∈ a.sources, s.id ∈ prompt.allowedIds
  selectedNodes : ∀ action ∈ a.actions, action.type ∈ [.highlight, .focus] →
    action.nodeIds ⊆ prompt.allowedIds
  selectedEdges : ∀ action ∈ a.actions, ∀ id ∈ action.edgeIds,
    id ∈ prompt.edges.map (·.id) ∨ ∃ item ∈ acceptedConnections prompt selection, item.edge.id = id
  proposed : ∀ item ∈ acceptedConnections prompt selection,
    item.source ∈ prompt.allowedIds ∧ item.target ∈ prompt.allowedIds ∧
      item.source ≠ item.target ∧ ∃ e ∈ a.graph.edges, e.id = item.edge.id ∧
        e.source = item.source ∧ e.target = item.target ∧ e.basis = .proposed
  closed : a.graph.Closed
  withinCaps : a.graph.WithinCaps
  uniqueIds : a.graph.UniqueIds

/-- What the proposed connections of an answer need before they are merged. -/
structure Composable (s : Search) (prompt : Prompt) (selection : AnswerSelection) : Prop where
  /-- Proposed connections with one id have the same ends. -/
  distinct : ∀ p ∈ acceptedConnections prompt selection,
    ∀ q ∈ acceptedConnections prompt selection, p.edge.id = q.edge.id →
      p.source = q.source ∧ p.target = q.target
  /-- Among the stored and the proposed edges, those that the answer refers to have room. -/
  room : proposedEdges prompt selection ≠ [] → ∀ before e after,
    latest (·.id) (s.graph.edges ++ proposedEdges prompt selection) = before ++ e :: after →
      e.id ∈ highlightedEdges prompt selection (proposedEdges prompt selection) →
        HasRoom s.protectedNodeIds before e after

/-! ### The ledger -/

section Ledger

variable {relevance : EvidenceSource → Nat} {focus : List String} {graph : EvidenceGraph}

private theorem id_of_mem_sourcesFor {s : EvidenceSource} (h : s ∈ sourcesFor graph) :
    s.id ∈ graph.nodeIds ∧ s.nodeIds = [s.id] ∧ s.edgeIds ⊆ graph.edgeIds := by
  obtain ⟨n, hn, rfl⟩ := List.mem_map.mp h
  refine ⟨List.mem_map_of_mem hn, rfl, fun id hid ↦ ?_⟩
  obtain ⟨e, he, rfl⟩ := List.mem_map.mp hid
  exact List.mem_map_of_mem (List.mem_of_mem_filter he)

private theorem mem_of_mem_ranked {limit : Nat} {items : List EvidenceSource} {s : EvidenceSource}
    (h : s ∈ ranked relevance limit items) : s ∈ items :=
  (List.mem_insertionSort _).mp (List.mem_of_mem_take h)

/-- The ledger holds sources of the graph only. -/
theorem allowedIds_subset : (promptOf relevance focus graph).allowedIds ⊆ graph.nodeIds := by
  intro id hid
  obtain ⟨s, hs, rfl⟩ := List.mem_map.mp hid
  obtain ⟨source, hsource, rfl⟩ := List.mem_map.mp hs
  have hmem := mem_of_mem_dictOf (List.mem_of_mem_take hsource)
  simp only [List.mem_append] at hmem
  have hin : source ∈ sourcesFor graph := by
    rcases hmem with (((hmem | hmem) | hmem) | hmem) | hmem
    · exact List.mem_of_mem_filter hmem
    · exact List.mem_of_mem_filter hmem
    · exact mem_of_mem_ranked (List.mem_of_mem_take hmem)
    · exact List.mem_of_mem_filter (List.mem_of_mem_take hmem)
    · exact mem_of_mem_ranked hmem
  exact (id_of_mem_sourcesFor hin).1

/-- The relationships are edges of the graph. -/
theorem promptEdges_subset : (promptOf relevance focus graph).edges ⊆ graph.edges := by
  intro e he
  have hmem := (List.mem_insertionSort _).mp (List.mem_of_mem_take he)
  exact List.mem_of_mem_filter hmem

end Ledger

/-! ### The graph of the answer -/

section AnswerGraph

variable {s : Search} {proposed : List GraphEdge}

private theorem nodes_mergeProposed :
    (mergeGraphs [s.graph, { edges := proposed }] s.protectedNodeIds).nodes =
      keptNodes s.protectedNodeIds (latest (·.id) s.graph.nodes) := by
  simp [mergeGraphs]

/-- Merging the proposed edges keeps every node. -/
theorem mem_answerGraph_nodeIds (hcaps : s.graph.WithinCaps) {id : String} :
    id ∈ (answerGraph s proposed).nodeIds ↔ id ∈ s.graph.nodeIds := by
  unfold answerGraph
  by_cases hnone : proposed = []
  · rw [if_pos hnone]
  · rw [if_neg hnone]
    have hnodup := nodup_latest (fun n : GraphNode ↦ n.id) s.graph.nodes
    have hfits : (latest (fun n : GraphNode ↦ n.id) s.graph.nodes).length ≤ 160 :=
      (latest_sublist _ _).length_le.trans hcaps.1
    have hkeys : id ∈ s.graph.nodeIds ↔
        id ∈ (latest (fun n : GraphNode ↦ n.id) s.graph.nodes).map (·.id) := mem_keys_latest.symm
    rw [hkeys]
    unfold EvidenceGraph.nodeIds
    rw [nodes_mergeProposed]
    constructor
    · intro hmem
      obtain ⟨n, hn, rfl⟩ := List.mem_map.mp hmem
      exact List.mem_map_of_mem (mem_of_mem_keptNodes hnodup hn)
    · intro hmem
      obtain ⟨n, hn, rfl⟩ := List.mem_map.mp hmem
      exact List.mem_map_of_mem (mem_keptNodes hnodup hfits hn)

/-- The edges of a graph into which proposed edges are merged. -/
theorem answerGraph_edges (hclosed : s.graph.Closed) (hcaps : s.graph.WithinCaps)
    (hsome : proposed ≠ [])
    (hends : ∀ e ∈ proposed, e.source ∈ s.graph.nodeIds ∧ e.target ∈ s.graph.nodeIds) :
    (answerGraph s proposed).edges =
      keptEdges s.protectedNodeIds (latest (·.id) (s.graph.edges ++ proposed)) := by
  have hnodes (id : String) : id ∈ s.graph.nodeIds →
      id ∈ (keptNodes s.protectedNodeIds (latest (·.id) s.graph.nodes)).map (·.id) := by
    intro hid
    have hmem := (@mem_answerGraph_nodeIds s proposed hcaps id).mpr hid
    unfold answerGraph EvidenceGraph.nodeIds at hmem
    rw [if_neg hsome, nodes_mergeProposed] at hmem
    exact hmem
  unfold answerGraph
  rw [if_neg hsome]
  have hall : ∀ e ∈ s.graph.edges ++ proposed,
      e.source ∈ s.graph.nodeIds ∧ e.target ∈ s.graph.nodeIds := by
    intro e he
    rcases List.mem_append.mp he with he | he
    · exact hclosed e he
    · exact hends e he
  unfold mergeGraphs
  simp only [List.flatMap_cons, List.flatMap_nil, List.append_nil]
  congr 2
  apply List.filter_eq_self.mpr
  intro e he
  apply decide_eq_true
  exact ⟨hnodes e.source (hall e he).1, hnodes e.target (hall e he).2⟩

private theorem answerGraph_wellFormed (hclosed : s.graph.Closed) (hcaps : s.graph.WithinCaps) :
    (answerGraph s proposed).Closed ∧ (answerGraph s proposed).WithinCaps ∧
      ((proposed = [] → s.graph.UniqueIds) ↔ (answerGraph s proposed).UniqueIds) := by
  unfold answerGraph
  by_cases hnone : proposed = []
  · rw [if_pos hnone]
    exact ⟨hclosed, hcaps, ⟨fun h ↦ h hnone, fun h _ ↦ h⟩⟩
  · rw [if_neg hnone]
    obtain ⟨hmerged, hwithin, hunique⟩ :=
      mergeGraphs_wellFormed [s.graph, { edges := proposed }] s.protectedNodeIds
    exact ⟨hmerged, hwithin, ⟨fun _ ↦ hunique, fun _ h ↦ absurd h hnone⟩⟩

end AnswerGraph

section Compose

variable {relevance : EvidenceSource → Nat} {focus : List String}
  {selectSuggestions : List String → List String} {initial : WorkspaceEvidence} {s : Search}
  {prompt : Prompt} {selection : AnswerSelection}

/-- The nodes and the edges that the actions of an answer name. -/
theorem mem_answerActions {graph : EvidenceGraph} {expanded : Bool} {nodeIds edgeIds : List String}
    {action : GraphAction} (h : action ∈ answerActions graph selection expanded nodeIds edgeIds) :
    ((action.type ∉ [.highlight, .focus] ∧ action.nodeIds ⊆ graph.nodeIds) ∨
      action.nodeIds = nodeIds) ∧ (action.edgeIds = [] ∨ action.edgeIds = edgeIds) := by
  unfold answerActions at h
  simp only [List.mem_append, List.mem_cons, List.not_mem_nil, or_false] at h
  rcases h with (((rfl | rfl) | h) | h) | h
  · exact ⟨.inl ⟨by simp, fun _ hn ↦ hn⟩, .inl rfl⟩
  · exact ⟨.inr rfl, .inr rfl⟩
  · split at h
    · exact absurd h List.not_mem_nil
    · rw [List.mem_singleton] at h
      exact ⟨.inr (by rw [h]), .inl (by rw [h])⟩
  · split at h
    · exact absurd h List.not_mem_nil
    · rw [List.mem_singleton] at h
      subst h
      exact ⟨.inl ⟨by simp, List.nil_subset _⟩, .inl rfl⟩
  · split at h
    · rw [List.mem_singleton] at h
      subst h
      exact ⟨.inl ⟨by simp, fun _ hn ↦ hn⟩, .inl rfl⟩
    · exact absurd h List.not_mem_nil

private theorem mem_acceptedConnections {item : ProposedConnection}
    (h : item ∈ acceptedConnections prompt selection) :
    item.source ∈ prompt.allowedIds ∧ item.target ∈ prompt.allowedIds ∧
      item.source ≠ item.target :=
  of_decide_eq_true (List.mem_filter.mp h).2

private theorem mem_proposedEdges {e : GraphEdge} (h : e ∈ proposedEdges prompt selection) :
    ∃ item ∈ acceptedConnections prompt selection, item.edge = e :=
  List.mem_map.mp h

/-- What is highlighted is in the ledger. -/
theorem highlightedNodes_subset {graph : EvidenceGraph} {cited : List EvidenceSource}
    (hcited : ∀ c ∈ cited, c ∈ sourcesFor graph ∧ c.id ∈ prompt.allowedIds) :
    highlightedNodes prompt selection cited (proposedEdges prompt selection) ⊆
      prompt.allowedIds := by
  intro id hid
  have hmem := List.mem_eraseDups.mp (List.mem_of_mem_take hid)
  rw [List.mem_append, List.mem_append] at hmem
  rcases hmem with (hmem | hmem) | hmem
  · exact of_decide_eq_true (List.mem_filter.mp hmem).2
  · obtain ⟨c, hc, hin⟩ := List.mem_flatMap.mp hmem
    obtain ⟨hsource, hallowed⟩ := hcited c hc
    rw [(id_of_mem_sourcesFor hsource).2.1, List.mem_singleton] at hin
    rw [hin]
    exact hallowed
  · obtain ⟨e, he, hin⟩ := List.mem_flatMap.mp hmem
    obtain ⟨item, hitem, rfl⟩ := mem_proposedEdges he
    obtain ⟨hsource, htarget, -⟩ := mem_acceptedConnections hitem
    rw [List.mem_cons, List.mem_singleton] at hin
    rcases hin with rfl | rfl
    · exact hsource
    · exact htarget

/-- The ends of the proposed edges are nodes. -/
theorem proposedEdges_ends {e : GraphEdge}
    (he : e ∈ proposedEdges (promptOf relevance focus s.graph) selection) :
    e.source ∈ s.graph.nodeIds ∧ e.target ∈ s.graph.nodeIds := by
  obtain ⟨item, hitem, rfl⟩ := mem_proposedEdges he
  obtain ⟨hsource, htarget, -⟩ := mem_acceptedConnections hitem
  exact ⟨allowedIds_subset hsource, allowedIds_subset htarget⟩

/-- The stored and the proposed edges, each id once. -/
abbrev offeredEdges (s : Search) (prompt : Prompt) (selection : AnswerSelection) :
    List GraphEdge :=
  latest (·.id) (s.graph.edges ++ proposedEdges prompt selection)

/-- An offered edge is in the merged graph exactly if its place has room. -/
theorem mem_answerGraph_edges_iff (hclosed : s.graph.Closed) (hcaps : s.graph.WithinCaps)
    (hsome : proposedEdges (promptOf relevance focus s.graph) selection ≠ [])
    {before after : List GraphEdge} {e : GraphEdge}
    (hsplit : offeredEdges s (promptOf relevance focus s.graph) selection =
      before ++ e :: after) :
    e.id ∈ (answerGraph s (proposedEdges (promptOf relevance focus s.graph) selection)).edgeIds ↔
      HasRoom s.protectedNodeIds before e after := by
  have hnodup := nodup_latest (fun e : GraphEdge ↦ e.id)
    (s.graph.edges ++ proposedEdges (promptOf relevance focus s.graph) selection)
  have hedges := answerGraph_edges hclosed hcaps hsome fun e he ↦ proposedEdges_ends he
  unfold offeredEdges at hsplit
  rw [hsplit] at hnodup hedges
  unfold EvidenceGraph.edgeIds
  rw [hedges, ← mem_keptEdges_iff hnodup]
  constructor
  · intro hmem
    obtain ⟨x, hx, hid⟩ := List.mem_map.mp hmem
    have hin : e ∈ before ++ e :: after := List.mem_append_right _ List.mem_cons_self
    obtain rfl := List.inj_on_of_nodup_map hnodup (keptEdges_subset hx) hin hid
    exact hx
  · exact fun hmem ↦ List.mem_map_of_mem hmem

/-- An edge with the id of a proposed connection is that of a proposed connection. -/
theorem proposed_of_offered {e : GraphEdge} (he : e ∈ offeredEdges s prompt selection)
    (hid : e.id ∈ (proposedEdges prompt selection).map (·.id)) :
    ∃ item ∈ acceptedConnections prompt selection, item.edge = e := by
  unfold offeredEdges at he
  rw [latest_append, List.mem_append] at he
  rcases he with he | he
  · exact absurd hid (of_decide_eq_true (List.mem_filter.mp he).2)
  · exact mem_proposedEdges ((latest_sublist _ _).subset he)

/-- The edges that an answer refers to are offered. -/
theorem offered_of_highlighted {id : String}
    (h : id ∈ highlightedEdges (promptOf relevance focus s.graph) selection
      (proposedEdges (promptOf relevance focus s.graph) selection)) :
    ∃ e ∈ offeredEdges s (promptOf relevance focus s.graph) selection, e.id = id := by
  have hmem : id ∈ (s.graph.edges ++
      proposedEdges (promptOf relevance focus s.graph) selection).map (·.id) := by
    rw [List.map_append, List.mem_append]
    rcases List.mem_append.mp h with h | h
    · left
      obtain ⟨e, he, rfl⟩ := List.mem_map.mp (of_decide_eq_true (List.mem_filter.mp h).2)
      exact List.mem_map_of_mem (promptEdges_subset he)
    · exact .inr h
  rw [← mem_keys_latest] at hmem
  exact List.mem_map.mp hmem

/-- With no more than 320 stored and proposed edges, every one of them has room. -/
theorem composable_of_few
    (hdistinct : ∀ p ∈ acceptedConnections prompt selection,
      ∀ q ∈ acceptedConnections prompt selection, p.edge.id = q.edge.id →
        p.source = q.source ∧ p.target = q.target)
    (hfew : s.graph.edges.length + (acceptedConnections prompt selection).length ≤ 320) :
    Composable s prompt selection := by
  refine ⟨hdistinct, fun _ before e after hsplit _ ↦ ?_⟩
  have hoffered := (latest_sublist (fun e : GraphEdge ↦ e.id)
    (s.graph.edges ++ proposedEdges prompt selection)).length_le
  have hproposed : (proposedEdges prompt selection).length =
      (acceptedConnections prompt selection).length := List.length_map _
  rw [hsplit] at hoffered
  simp only [List.length_append, List.length_cons] at hoffered
  apply hasRoom_of_few
  omega

/-- The edges that an answer refers to are in its graph if they have room. -/
theorem highlightedEdges_subset (hclosed : s.graph.Closed) (hcaps : s.graph.WithinCaps)
    (h : Composable s (promptOf relevance focus s.graph) selection) :
    highlightedEdges (promptOf relevance focus s.graph) selection
        (proposedEdges (promptOf relevance focus s.graph) selection) ⊆
      (answerGraph s (proposedEdges (promptOf relevance focus s.graph) selection)).edgeIds := by
  intro id hid
  by_cases hsome : proposedEdges (promptOf relevance focus s.graph) selection = []
  · have hstored : id ∈ selection.edgeIds.filter
        (· ∈ (promptOf relevance focus s.graph).edges.map (·.id)) := by
      rcases List.mem_append.mp hid with hmem | hmem
      · exact hmem
      · rw [hsome] at hmem
        exact absurd hmem List.not_mem_nil
    obtain ⟨e, he, rfl⟩ := List.mem_map.mp (of_decide_eq_true (List.mem_filter.mp hstored).2)
    have hgraph : answerGraph s (proposedEdges (promptOf relevance focus s.graph) selection) =
        s.graph := if_pos hsome
    rw [hgraph]
    exact List.mem_map_of_mem (promptEdges_subset he)
  · obtain ⟨e, he, rfl⟩ := offered_of_highlighted hid
    obtain ⟨before, after, hsplit⟩ := List.append_of_mem he
    exact (mem_answerGraph_edges_iff hclosed hcaps hsome hsplit).mpr
      (h.room hsome before e after hsplit hid)

/-- An accepted connection is an edge of the graph of an answer that is composable. -/
theorem exists_proposed_edge (hclosed : s.graph.Closed) (hcaps : s.graph.WithinCaps)
    (h : Composable s (promptOf relevance focus s.graph) selection) {item : ProposedConnection}
    (hitem : item ∈ acceptedConnections (promptOf relevance focus s.graph) selection) :
    ∃ e ∈ (answerGraph s (proposedEdges (promptOf relevance focus s.graph) selection)).edges,
      e.id = item.edge.id ∧ e.source = item.source ∧ e.target = item.target ∧
        e.basis = .proposed := by
  have hin : item.edge ∈ proposedEdges (promptOf relevance focus s.graph) selection :=
    List.mem_map_of_mem hitem
  have hkept := highlightedEdges_subset hclosed hcaps h
    (List.mem_append_right _ (List.mem_map_of_mem hin))
  obtain ⟨e, he, hid⟩ := List.mem_map.mp hkept
  have hoffered : e ∈ offeredEdges s (promptOf relevance focus s.graph) selection := by
    rw [answerGraph_edges hclosed hcaps (List.ne_nil_of_mem hin)
      fun e he ↦ proposedEdges_ends he] at he
    exact keptEdges_subset he
  have hproposed : e.id ∈
      (proposedEdges (promptOf relevance focus s.graph) selection).map (·.id) := by
    rw [hid]
    exact List.mem_map_of_mem hin
  -- the edge of that id that was proposed last may belong to another connection
  obtain ⟨item', hitem', rfl⟩ := proposed_of_offered hoffered hproposed
  obtain ⟨hs, ht⟩ := h.distinct item' hitem' item hitem hid
  exact ⟨_, he, hid, hs, ht, rfl⟩

/-- What a grounded answer is composed from. -/
theorem Grounded.composable (hclosed : s.graph.Closed) (hcaps : s.graph.WithinCaps)
    (h : Grounded (promptOf relevance focus s.graph) selection
      (composeAnswer selectSuggestions initial s (promptOf relevance focus s.graph) selection)) :
    Composable s (promptOf relevance focus s.graph) selection := by
  refine ⟨fun p hp q hq hid ↦ ?_, fun hsome before e after hsplit he ↦ ?_⟩
  · obtain ⟨-, -, -, x, hx, hxid, hxs, hxt, -⟩ := h.proposed p hp
    obtain ⟨-, -, -, y, hy, hyid, hys, hyt, -⟩ := h.proposed q hq
    obtain rfl := List.inj_on_of_nodup_map h.uniqueIds.2 hx hy (hxid.trans (hid.trans hyid.symm))
    exact ⟨hxs.symm.trans hys, hxt.symm.trans hyt⟩
  · have hedges := h.edges _ (List.mem_append_left _ (List.mem_append_left _
      (List.mem_append_left _ (List.mem_cons_of_mem _ List.mem_cons_self))))
    exact (mem_answerGraph_edges_iff hclosed hcaps hsome hsplit).mp (hedges he)

/-- An answer is grounded exactly if it is composable, and the graph that it is composed from has
unique ids unless proposed edges are merged into it. -/
theorem composeAnswer_grounded_iff (hclosed : s.graph.Closed) (hcaps : s.graph.WithinCaps) :
    Grounded (promptOf relevance focus s.graph) selection
        (composeAnswer selectSuggestions initial s (promptOf relevance focus s.graph) selection) ↔
      (proposedEdges (promptOf relevance focus s.graph) selection = [] → s.graph.UniqueIds) ∧
        Composable s (promptOf relevance focus s.graph) selection := by
  let prompt := promptOf relevance focus s.graph
  let proposed := proposedEdges prompt selection
  let graph := answerGraph s proposed
  let cited := (sourcesFor graph).filter fun source ↦
    source.id ∈ prompt.allowedIds ∧ source.id ∈ selection.sourceIds
  obtain ⟨hclosed', hcaps', hunique⟩ := @answerGraph_wellFormed s proposed hclosed hcaps
  constructor
  · exact fun h ↦ ⟨hunique.mpr h.uniqueIds, h.composable hclosed hcaps⟩
  · rintro ⟨hids, h⟩
    have hcited : ∀ c ∈ cited, c ∈ sourcesFor graph ∧ c.id ∈ prompt.allowedIds := by
      intro c hc
      obtain ⟨hsource, hid⟩ := List.mem_filter.mp hc
      exact ⟨hsource, (of_decide_eq_true hid).1⟩
    have hedges : highlightedEdges prompt selection proposed ⊆ graph.edgeIds :=
      highlightedEdges_subset hclosed hcaps h
    refine ⟨fun c hc ↦ ?_, fun action haction ↦ ?_, fun action haction ↦ ?_,
      fun c hc ↦ (hcited c hc).2, fun action haction htype ↦ ?_, fun action haction id hid ↦ ?_,
      fun item hitem ↦ ?_, hclosed', hcaps', hunique.mp hids⟩
    · obtain ⟨hid, hnodes, hids⟩ := id_of_mem_sourcesFor (hcited c hc).1
      refine ⟨hid, ?_, hids⟩
      rw [hnodes]
      exact List.cons_subset.mpr ⟨hid, List.nil_subset _⟩
    · rcases (mem_answerActions haction).1 with ⟨-, hnodes⟩ | hnodes
      · exact hnodes
      · rw [hnodes]
        intro id hid
        exact (mem_answerGraph_nodeIds hcaps).mpr
          (allowedIds_subset (highlightedNodes_subset hcited hid))
    · rcases (mem_answerActions haction).2 with hids | hids
      · rw [hids]
        exact List.nil_subset _
      · rw [hids]
        exact hedges
    · rcases (mem_answerActions haction).1 with ⟨hother, -⟩ | hnodes
      · exact absurd htype hother
      · rw [hnodes]
        exact highlightedNodes_subset hcited
    · rcases (mem_answerActions haction).2 with hids | hids
      · rw [hids] at hid
        exact absurd hid List.not_mem_nil
      · rw [hids] at hid
        rcases List.mem_append.mp hid with hmem | hmem
        · exact .inl (of_decide_eq_true (List.mem_filter.mp hmem).2)
        · obtain ⟨e, he, rfl⟩ := List.mem_map.mp hmem
          obtain ⟨item, hitem, rfl⟩ := mem_proposedEdges he
          exact .inr ⟨item, hitem, rfl⟩
    · obtain ⟨hsource, htarget, hne⟩ := mem_acceptedConnections hitem
      exact ⟨hsource, htarget, hne, exists_proposed_edge hclosed hcaps h hitem⟩

end Compose

/-! ### Every conversation -/

section Conversations

/-- Whether a read merges a graph into the evidence. -/
def Read.Merges : Read → Prop
  | .focused found => found.isSome
  | .automatic _ => True
  | .tool _ _ => True
  | .stopped _ => False

instance (r : Read) : Decidable r.Merges := by
  cases r <;> unfold Read.Merges <;> infer_instance

/-- A read of a conversation merges a graph into the evidence. -/
def Conversation.Merges (c : Conversation) : Prop :=
  ∃ r ∈ c.focusedReads.map .focused ++ c.reads, r.Merges

/-- A read that merges leaves a well-formed graph with unique ids, and any other one the graph as
it is. -/
theorem read_graph {hasCatalog : Bool} {focus : List String} {s : Search} (r : Read) :
    if r.Merges then (s.read hasCatalog focus r).graph.Closed ∧
        (s.read hasCatalog focus r).graph.WithinCaps ∧ (s.read hasCatalog focus r).graph.UniqueIds
    else (s.read hasCatalog focus r).graph = s.graph := by
  cases r with
  | focused found =>
    cases found with
    | none => rfl
    | some found => exact mergeGraphs_wellFormed [s.graph, found] s.protectedNodeIds
  | automatic found => exact mergeGraphs_wellFormed [s.graph, found.getD {}] s.protectedNodeIds
  | tool name found =>
    exact mergeGraphs_wellFormed [s.graph, found.getD {}]
      (s.protectedNodeIds ++
        if name = "read_personal_records" then (found.getD {}).nodeIds else [])
  | stopped warning => rfl

/-- Reads keep the graph closed and within the caps, and its ids are unique once one merges. -/
theorem reads_wellFormed {hasCatalog : Bool} {focus : List String} {s : Search}
    (reads : List Read) (h : s.graph.Closed ∧ s.graph.WithinCaps) :
    let graph := (reads.foldl (Search.read hasCatalog focus) s).graph
    (graph.Closed ∧ graph.WithinCaps) ∧
      (graph.UniqueIds ↔ ((∃ r ∈ reads, r.Merges) ∨ s.graph.UniqueIds)) := by
  induction reads generalizing s with
  | nil => exact ⟨h, by simp⟩
  | cons r rest ih =>
    have hread := @read_graph hasCatalog focus s r
    simp only [List.foldl_cons, List.exists_mem_cons_iff]
    by_cases hmerges : r.Merges
    · rw [if_pos hmerges] at hread
      obtain ⟨hclosed, hcaps, hids⟩ := hread
      obtain ⟨hkept, hunique⟩ := ih ⟨hclosed, hcaps⟩
      exact ⟨hkept, ⟨fun _ ↦ .inl (.inl hmerges), fun _ ↦ hunique.mpr (.inr hids)⟩⟩
    · rw [if_neg hmerges] at hread
      obtain ⟨hkept, hunique⟩ := @ih (s.read hasCatalog focus r) (by rw [hread]; exact h)
      rw [hread] at hunique
      refine ⟨hkept, hunique.trans ⟨fun hor ↦ ?_, fun hor ↦ ?_⟩⟩
      · rcases hor with hlater | hids
        · exact .inl (.inr hlater)
        · exact .inr hids
      · rcases hor with (hnow | hlater) | hids
        · exact absurd hnow hmerges
        · exact .inl hlater
        · exact .inr hids

/-- Whatever the reads come back with, the evidence is closed and within the caps; its ids are
unique if a read merges or those of the initial graph are. -/
theorem search_wellFormed (c : Conversation) {initial : WorkspaceEvidence}
    (hclosed : initial.graph.Closed) (hcaps : initial.graph.WithinCaps) :
    ((c.search initial).graph.Closed ∧ (c.search initial).graph.WithinCaps) ∧
      ((c.search initial).graph.UniqueIds ↔ (c.Merges ∨ initial.graph.UniqueIds)) := by
  obtain ⟨hfocused, hfocusedIds⟩ := @reads_wellFormed c.hasCatalog [] (.start initial)
    (c.focusedReads.map .focused) ⟨hclosed, hcaps⟩
  obtain ⟨hread, hids⟩ := @reads_wellFormed c.hasCatalog (c.focus initial)
    (c.focusedSearch initial) c.reads hfocused
  refine ⟨hread, hids.trans ?_⟩
  have hstart : (c.focusedSearch initial).graph.UniqueIds ↔
      ((∃ r ∈ c.focusedReads.map Read.focused, r.Merges) ∨ initial.graph.UniqueIds) := hfocusedIds
  unfold Conversation.Merges
  simp only [hstart, List.mem_append, or_and_right, exists_or]
  rw [or_left_comm, or_assoc]

/-- For every initial graph that is closed and within the caps, every sequence of reads and every
output of the model: an answer that is emitted refers to its own graph and to what the model was
handed exactly if the ids of the initial graph are unique, unless a read or a proposed edge is
merged into it; proposed connections with one id have the same ends; and every edge that the answer
refers to has room beside the proposed ones. `src/jobtology_be/chat/workspace.py:266–379`,
`src/jobtology_be/chat/workspace_models.py:109–145`. -/
theorem answer_grounded_iff (c : Conversation) (initial : WorkspaceEvidence)
    (hclosed : initial.graph.Closed) (hcaps : initial.graph.WithinCaps) (a : WorkspaceAnswer)
    (h : c.answer initial = some a) :
    Grounded (c.prompt initial) c.selection a ↔
      (initial.graph.UniqueIds ∨ c.Merges ∨
          acceptedConnections (c.prompt initial) c.selection ≠ []) ∧
        Composable (c.search initial) (c.prompt initial) c.selection := by
  unfold Conversation.answer at h
  split at h
  · cases h
    obtain ⟨⟨hclosed', hcaps'⟩, hids⟩ := search_wellFormed c hclosed hcaps
    have hproposed : proposedEdges (c.prompt initial) c.selection = [] ↔
        acceptedConnections (c.prompt initial) c.selection = [] := List.map_eq_nil_iff
    have hcompose := @composeAnswer_grounded_iff c.relevance (c.focus initial)
      c.selectSuggestions initial (c.search initial) c.selection hclosed' hcaps'
    refine hcompose.trans (and_congr_left fun _ ↦ ?_)
    show (proposedEdges (c.prompt initial) c.selection = [] → _) ↔ _
    rw [hids, hproposed]
    by_cases hnone : acceptedConnections (c.prompt initial) c.selection = []
    · simp [hnone, or_comm]
    · simp [hnone]
  · cases h

/-- A conversation without reads, whose answer proposes to connect two nodes. -/
def proposingConversation : Conversation where
  hasCatalog := false
  focusIds := []
  focusedReads := []
  reads := []
  relevance := fun _ ↦ 0
  selectSuggestions := fun suggestions ↦ suggestions
  selection := ⟨"answer", "", [], [], [], [], [], [⟨"a", "b", "proposal"⟩]⟩
  emitted := "answer"

/-- Two account nodes with a number of edges between them. -/
def pairGraph (count : Nat) : EvidenceGraph where
  nodes := [⟨"a", .profile, "a", none, .userReported, none, none⟩,
    ⟨"b", .capability, "b", none, .userReported, none, none⟩]
  edges := (List.range count).map fun i ↦
    ⟨String.ofList (List.replicate i 'e'), "a", "b", "REPORTED", .userReported, ""⟩

private theorem pairGraph_closed (count : Nat) : (pairGraph count).Closed := by
  intro e he
  obtain ⟨i, -, rfl⟩ := List.mem_map.mp he
  exact ⟨List.mem_cons_self, List.mem_cons_of_mem _ List.mem_cons_self⟩

private theorem pairGraph_withinCaps {count : Nat} (h : count ≤ 320) :
    (pairGraph count).WithinCaps := by
  refine ⟨show 2 ≤ 160 by decide, ?_⟩
  show ((List.range count).map _).length ≤ 320
  rw [List.length_map, List.length_range]
  exact h

private theorem pairGraph_uniqueIds (count : Nat) : (pairGraph count).UniqueIds := by
  refine ⟨show ["a", "b"].Nodup by decide, ?_⟩
  unfold EvidenceGraph.edgeIds pairGraph
  rw [List.map_map]
  apply List.Nodup.map
  · intro i j hij
    have hlength := congrArg String.length hij
    simpa using hlength
  · exact List.nodup_range

/-- With one edge between the two nodes, the proposed one has room. -/
theorem answer_grounded_iff_pair :
    ∃ a, proposingConversation.answer { graph := pairGraph 1 } = some a ∧
      acceptedConnections (proposingConversation.prompt { graph := pairGraph 1 })
        proposingConversation.selection ≠ [] ∧
      Grounded (proposingConversation.prompt { graph := pairGraph 1 })
        proposingConversation.selection a := by
  have haccepted : acceptedConnections (proposingConversation.prompt { graph := pairGraph 1 })
      proposingConversation.selection = [⟨"a", "b", "proposal"⟩] := by
    decide +kernel
  refine ⟨_, if_pos ⟨by decide, rfl⟩, by rw [haccepted]; exact List.cons_ne_nil _ _, ?_⟩
  refine (answer_grounded_iff proposingConversation { graph := pairGraph 1 }
    (pairGraph_closed 1) (pairGraph_withinCaps (by decide)) _ (if_pos ⟨by decide, rfl⟩)).mpr
      ⟨.inl (pairGraph_uniqueIds 1), composable_of_few ?_ ?_⟩
  · rw [haccepted]
    intro p hp q hq _
    rw [List.mem_singleton] at hp hq
    rw [hp, hq]
    exact ⟨rfl, rfl⟩
  · rw [haccepted]
    decide

/-- With 320 edges of account nodes the proposed edge is dropped, and the answer still highlights
it. -/
theorem answer_highlights_dropped_edge :
    (pairGraph 320).Closed ∧ (pairGraph 320).WithinCaps ∧ (pairGraph 320).UniqueIds ∧
      ∃ a, proposingConversation.answer { graph := pairGraph 320 } = some a ∧
        ¬ Grounded (proposingConversation.prompt { graph := pairGraph 320 })
          proposingConversation.selection a := by
  refine ⟨pairGraph_closed 320, pairGraph_withinCaps le_rfl, pairGraph_uniqueIds 320, _,
    if_pos ⟨by decide, rfl⟩, fun hgrounded ↦ ?_⟩
  have hcomposable : Composable (proposingConversation.search { graph := pairGraph 320 })
      (proposingConversation.prompt { graph := pairGraph 320 })
      proposingConversation.selection :=
    ((composeAnswer_grounded_iff (pairGraph_closed 320)
      (pairGraph_withinCaps le_rfl)).mp hgrounded).2
  let item : ProposedConnection := ⟨"a", "b", "proposal"⟩
  have haccepted : acceptedConnections
      (proposingConversation.prompt { graph := pairGraph 320 })
      proposingConversation.selection = [item] := by
    decide +kernel
  have hproposed : proposedEdges (proposingConversation.prompt { graph := pairGraph 320 })
      proposingConversation.selection = [item.edge] := by
    unfold proposedEdges
    rw [haccepted]
    rfl
  have hnew : item.edge.id ∉ (pairGraph 320).edgeIds := by
    decide +kernel
  have hsplit : latest (·.id) ((pairGraph 320).edges ++ [item.edge]) =
      (pairGraph 320).edges ++ item.edge :: [] := by
    apply latest_eq_self
    rw [List.map_append, List.nodup_append]
    refine ⟨(pairGraph_uniqueIds 320).2, List.nodup_singleton _, ?_⟩
    rintro id hid id' hid' rfl
    rw [List.map_singleton, List.mem_singleton] at hid'
    exact hnew (hid' ▸ hid)
  have hroom := hcomposable.room
  rw [hproposed] at hroom
  have hlast := hroom (List.cons_ne_nil _ _) (pairGraph 320).edges item.edge [] hsplit
    (List.mem_append_right _ List.mem_cons_self)
  have htouches : item.edge.Touches ["a", "b"] := .inl List.mem_cons_self
  have hcount : (pairGraph 320).edges.countP (fun e ↦ e.Touches ["a", "b"]) = 320 := by
    have hall : (pairGraph 320).edges.countP (fun e ↦ e.Touches ["a", "b"]) =
        (pairGraph 320).edges.length := by
      rw [List.countP_eq_length]
      intro e he
      obtain ⟨i, -, rfl⟩ := List.mem_map.mp he
      exact decide_eq_true (.inl List.mem_cons_self)
    rw [hall]
    show ((List.range 320).map _).length = 320
    rw [List.length_map, List.length_range]
  have hfew : (pairGraph 320).edges.countP (fun e ↦ e.Touches ["a", "b"]) < 320 :=
    (if_pos htouches).mp hlast
  omega

end Conversations

end Jobtology.Chat
