import Jobtology.Chat.MergeLaws

/-!
# The merge as a bounded union

What `merge_graphs` keeps of its graphs, and that it reports what it leaves out. A node carries
its last content; an edge the last content whose two ends are both kept.
-/

namespace Jobtology.Chat

open Jobtology.Base

/-- The nodes of the graphs, in order. -/
def unionNodes (graphs : List EvidenceGraph) : List GraphNode := graphs.flatMap (·.nodes)

/-- The edges of the graphs, in order. -/
def unionEdges (graphs : List EvidenceGraph) : List GraphEdge := graphs.flatMap (·.edges)

/-- Both ends are among the nodes. -/
def GraphEdge.Within (nodeIds : List String) (e : GraphEdge) : Prop :=
  e.source ∈ nodeIds ∧ e.target ∈ nodeIds

instance (nodeIds : List String) (e : GraphEdge) : Decidable (e.Within nodeIds) :=
  inferInstanceAs (Decidable (_ ∧ _))

/-- The edges whose two ends are among the nodes. -/
def edgesWithin (graphs : List EvidenceGraph) (nodeIds : List String) : List GraphEdge :=
  (unionEdges graphs).filter (·.Within nodeIds)

/-- The ids of the nodes of the graphs. -/
def unionNodeIds (graphs : List EvidenceGraph) : List String := (unionNodes graphs).map (·.id)

/-- A union that stays within the caps leaves nothing out. -/
def UnionFits (graphs : List EvidenceGraph) : Prop :=
  (unionNodeIds graphs).toFinset.card ≤ 160 ∧
    ((edgesWithin graphs (unionNodeIds graphs)).map (·.id)).toFinset.card ≤ 320

/-- The protected nodes of the graphs are at most as many as a merge keeps. -/
def ProtectedNodesFit (graphs : List EvidenceGraph) (protectedNodeIds : List String) : Prop :=
  ((unionNodeIds graphs).filter (· ∈ protectedNodeIds)).toFinset.card ≤ 160

/-- A node or an edge between nodes of the union is not in the graph. -/
def LeavesOut (graphs : List EvidenceGraph) (result : EvidenceGraph) : Prop :=
  (∃ n ∈ unionNodes graphs, n.id ∉ result.nodeIds) ∨
    ∃ e ∈ edgesWithin graphs (unionNodeIds graphs), e.id ∉ result.edgeIds

/-- The same nodes and the same edges. -/
def EvidenceGraph.SameContent (a b : EvidenceGraph) : Prop :=
  (∀ n, n ∈ a.nodes ↔ n ∈ b.nodes) ∧ ∀ e, e ∈ a.edges ↔ e ∈ b.edges

/-- The bounded union of graphs. -/
structure BoundedUnion (graphs : List EvidenceGraph) (protectedNodeIds : List String)
    (result : EvidenceGraph) : Prop where
  uniqueIds : result.UniqueIds
  closed : result.Closed
  withinCaps : result.WithinCaps
  latestNodes : ∀ n ∈ result.nodes, lookupLast (·.id) (unionNodes graphs) n.id = some n
  latestEdges : ∀ e ∈ result.edges,
    lookupLast (·.id) (edgesWithin graphs result.nodeIds) e.id = some e
  protectedKept : ProtectedNodesFit graphs protectedNodeIds →
    ∀ n ∈ unionNodes graphs, n.id ∈ protectedNodeIds → n.id ∈ result.nodeIds
  complete : UnionFits graphs → (∀ n ∈ unionNodes graphs, n.id ∈ result.nodeIds) ∧
    ∀ e ∈ edgesWithin graphs (unionNodeIds graphs), e.id ∈ result.edgeIds
  truncated : result.truncated = true ↔
    (∃ graph ∈ graphs, graph.truncated = true) ∨ LeavesOut graphs result

section Merge

variable {graphs : List EvidenceGraph} {protectedNodeIds : List String}

/-- The nodes that a merge chooses from. -/
private abbrev candidates (graphs : List EvidenceGraph) : List GraphNode :=
  latest (·.id) (unionNodes graphs)

private theorem nodup_candidates : ((candidates graphs).map (·.id)).Nodup := nodup_latest _ _

private theorem nodes_mergeGraphs :
    (mergeGraphs graphs protectedNodeIds).nodes =
      keptNodes protectedNodeIds (latest (·.id) (unionNodes graphs)) := rfl

private theorem edges_mergeGraphs :
    (mergeGraphs graphs protectedNodeIds).edges = keptEdges protectedNodeIds
      (latest (·.id) (edgesWithin graphs (mergeGraphs graphs protectedNodeIds).nodeIds)) := rfl

/-- A merged graph has nodes of the graphs only. -/
theorem nodeIds_mergeGraphs_subset :
    (mergeGraphs graphs protectedNodeIds).nodeIds ⊆ unionNodeIds graphs := by
  intro id hid
  obtain ⟨n, hn, rfl⟩ := List.mem_map.mp hid
  have hmem := mem_of_mem_keptNodes nodup_candidates hn
  exact List.mem_map_of_mem ((latest_sublist _ _).subset hmem)

/-- Nodes that fit are all kept. -/
theorem mem_nodeIds_mergeGraphs (hfits : (unionNodeIds graphs).toFinset.card ≤ 160)
    {id : String} (hid : id ∈ unionNodeIds graphs) :
    id ∈ (mergeGraphs graphs protectedNodeIds).nodeIds := by
  have hkey : id ∈ (candidates graphs).map (·.id) := mem_keys_latest.mpr hid
  obtain ⟨n, hn, rfl⟩ := List.mem_map.mp hkey
  have hlength : (candidates graphs).length ≤ 160 := by
    rw [length_latest]
    exact hfits
  exact List.mem_map_of_mem (mem_keptNodes nodup_candidates hlength hn)

/-- Edges between kept nodes that fit are all kept. -/
theorem mem_edgeIds_mergeGraphs
    (hfits : ((edgesWithin graphs (mergeGraphs graphs protectedNodeIds).nodeIds).map
      (·.id)).toFinset.card ≤ 320) {e : GraphEdge}
    (he : e ∈ edgesWithin graphs (mergeGraphs graphs protectedNodeIds).nodeIds) :
    e.id ∈ (mergeGraphs graphs protectedNodeIds).edgeIds := by
  have hkey : e.id ∈ (latest (·.id) (edgesWithin graphs
      (mergeGraphs graphs protectedNodeIds).nodeIds)).map (·.id) :=
    mem_keys_latest.mpr (List.mem_map_of_mem he)
  obtain ⟨kept, hkept, heq⟩ := List.mem_map.mp hkey
  rw [← heq]
  apply List.mem_map_of_mem (f := GraphEdge.id)
  rw [edges_mergeGraphs]
  apply mem_keptEdges (nodup_latest _ _) _ hkept
  rw [length_latest]
  exact hfits

private theorem truncated_mergeGraphs :
    (mergeGraphs graphs protectedNodeIds).truncated = true ↔
      (∃ graph ∈ graphs, graph.truncated = true) ∨
        160 < (unionNodeIds graphs).toFinset.card ∨
        320 < ((edgesWithin graphs (mergeGraphs graphs protectedNodeIds).nodeIds).map
          (·.id)).toFinset.card := by
  rw [← or_assoc, unionNodeIds, ← length_latest, ← length_latest]
  show (_ || _ || _) = true ↔ _
  rw [Bool.or_eq_true, Bool.or_eq_true, List.any_eq_true, decide_eq_true_eq, decide_eq_true_eq]
  rfl

/-- More ids than a list can hold leave one out. -/
theorem exists_missing {ids kept : List String} {cap : Nat} (hcap : kept.length ≤ cap)
    (hmany : cap < ids.toFinset.card) : ∃ id ∈ ids, id ∉ kept := by
  by_contra hnone
  push Not at hnone
  have hsubset : ids.toFinset ⊆ kept.toFinset := by
    intro id hid
    exact List.mem_toFinset.mpr (hnone id (List.mem_toFinset.mp hid))
  have hcard := Finset.card_le_card hsubset
  have hlength := List.toFinset_card_le kept
  omega

private theorem leavesOut_mergeGraphs :
    LeavesOut graphs (mergeGraphs graphs protectedNodeIds) ↔
      160 < (unionNodeIds graphs).toFinset.card ∨
        320 < ((edgesWithin graphs (mergeGraphs graphs protectedNodeIds).nodeIds).map
          (·.id)).toFinset.card := by
  have hcaps := (mergeGraphs_wellFormed graphs protectedNodeIds).2.1
  constructor
  · intro hout
    by_contra hfits
    rw [not_or, not_lt, not_lt] at hfits
    rcases hout with ⟨n, hn, hmissing⟩ | ⟨e, he, hmissing⟩
    · exact hmissing (mem_nodeIds_mergeGraphs hfits.1 (List.mem_map_of_mem hn))
    · have hin := List.mem_filter.mp he
      have hends : e.Within (unionNodeIds graphs) := of_decide_eq_true hin.2
      have hkept : e.Within (mergeGraphs graphs protectedNodeIds).nodeIds :=
        ⟨mem_nodeIds_mergeGraphs hfits.1 hends.1, mem_nodeIds_mergeGraphs hfits.1 hends.2⟩
      exact hmissing (mem_edgeIds_mergeGraphs hfits.2
        (List.mem_filter.mpr ⟨hin.1, decide_eq_true hkept⟩))
  · rintro (hnodes | hedges)
    · have hlength : (mergeGraphs graphs protectedNodeIds).nodeIds.length ≤ 160 := by
        rw [EvidenceGraph.nodeIds, List.length_map]
        exact hcaps.1
      obtain ⟨id, hid, hmissing⟩ := exists_missing hlength hnodes
      obtain ⟨n, hn, rfl⟩ := List.mem_map.mp hid
      exact .inl ⟨n, hn, hmissing⟩
    · have hlength : (mergeGraphs graphs protectedNodeIds).edgeIds.length ≤ 320 := by
        rw [EvidenceGraph.edgeIds, List.length_map]
        exact hcaps.2
      obtain ⟨id, hid, hmissing⟩ := exists_missing hlength hedges
      obtain ⟨e, he, rfl⟩ := List.mem_map.mp hid
      have hin := List.mem_filter.mp he
      have hends : e.Within (mergeGraphs graphs protectedNodeIds).nodeIds :=
        of_decide_eq_true hin.2
      have hunion : e.Within (unionNodeIds graphs) :=
        ⟨nodeIds_mergeGraphs_subset hends.1, nodeIds_mergeGraphs_subset hends.2⟩
      exact .inr ⟨e, List.mem_filter.mpr ⟨hin.1, decide_eq_true hunion⟩, hmissing⟩

/-- A graph that is well formed already is what its merge with nothing keeps. -/
theorem sameContent_merge {graph : EvidenceGraph} (hclosed : graph.Closed)
    (hcaps : graph.WithinCaps) (hunique : graph.UniqueIds)
    (hnodes : unionNodes graphs = graph.nodes) (hedges : unionEdges graphs = graph.edges) :
    (mergeGraphs graphs protectedNodeIds).SameContent graph := by
  have hlatest : latest (·.id) (unionNodes graphs) = graph.nodes := by
    rw [hnodes]
    exact latest_eq_self hunique.1
  have hkept (n : GraphNode) : n ∈ (mergeGraphs graphs protectedNodeIds).nodes ↔
      n ∈ graph.nodes := by
    rw [nodes_mergeGraphs, hlatest]
    exact ⟨mem_of_mem_keptNodes hunique.1, mem_keptNodes hunique.1 hcaps.1⟩
  have hids (id : String) : id ∈ (mergeGraphs graphs protectedNodeIds).nodeIds ↔
      id ∈ graph.nodeIds := by
    unfold EvidenceGraph.nodeIds
    rw [List.mem_map, List.mem_map]
    simp only [hkept]
  have hwithin : edgesWithin graphs (mergeGraphs graphs protectedNodeIds).nodeIds =
      graph.edges := by
    unfold edgesWithin
    rw [hedges, List.filter_eq_self]
    intro e he
    have hends := hclosed e he
    exact decide_eq_true ⟨(hids _).mpr hends.1, (hids _).mpr hends.2⟩
  refine ⟨hkept, fun e ↦ ?_⟩
  rw [edges_mergeGraphs, hwithin, latest_eq_self hunique.2]
  exact ⟨fun he ↦ keptEdges_subset he, mem_keptEdges hunique.2 hcaps.2⟩

end Merge

/-- Every merge is the bounded union of its graphs, and merging it with an empty graph changes
nothing. `src/jobtology_be/chat/workspace_models.py:109–136`. -/
theorem mergeGraphs_boundedUnion (graphs : List EvidenceGraph) (protectedNodeIds : List String) :
    let merged := mergeGraphs graphs protectedNodeIds
    BoundedUnion graphs protectedNodeIds merged ∧
      (mergeGraphs [merged, {}] protectedNodeIds).SameContent merged ∧
      (mergeGraphs [{}, merged] protectedNodeIds).SameContent merged := by
  intro merged
  obtain ⟨hclosed, hcaps, hunique⟩ := mergeGraphs_wellFormed graphs protectedNodeIds
  have hbounded : BoundedUnion graphs protectedNodeIds merged := by
    constructor
    case uniqueIds => exact hunique
    case closed => exact hclosed
    case withinCaps => exact hcaps
    case latestNodes =>
      intro n hn
      exact mem_latest_iff.mp (mem_of_mem_keptNodes nodup_candidates hn)
    case latestEdges =>
      intro e he
      exact mem_latest_iff.mp (keptEdges_subset he)
    case protectedKept =>
      intro hfits n hn hid
      refine mem_keptNodes_of_few hid ?_ (mem_keys_latest.mpr (List.mem_map_of_mem hn))
      have hnodup : (((candidates graphs).filter fun n ↦ n.id ∈ protectedNodeIds).map
        (·.id)).Nodup := nodup_candidates.sublist (List.filter_sublist.map _)
      have hsubset : (((candidates graphs).filter fun n ↦ n.id ∈ protectedNodeIds).map
          (·.id)).toFinset ⊆
          ((unionNodeIds graphs).filter (· ∈ protectedNodeIds)).toFinset := by
        intro key hkey
        obtain ⟨m, hm, rfl⟩ := List.mem_map.mp (List.mem_toFinset.mp hkey)
        have hin := List.mem_filter.mp hm
        exact List.mem_toFinset.mpr (List.mem_filter.mpr
          ⟨List.mem_map_of_mem ((latest_sublist _ _).subset hin.1), hin.2⟩)
      have hcard := Finset.card_le_card hsubset
      rw [List.toFinset_card_of_nodup hnodup, List.length_map] at hcard
      exact hcard.trans hfits
    case complete =>
      intro hfits
      have hkept : ¬ LeavesOut graphs merged := by
        rw [leavesOut_mergeGraphs, not_or, not_lt, not_lt]
        refine ⟨hfits.1, le_trans (Finset.card_le_card ?_) hfits.2⟩
        intro id hid
        obtain ⟨e, he, rfl⟩ := List.mem_map.mp (List.mem_toFinset.mp hid)
        have hin := List.mem_filter.mp he
        have hends : e.Within merged.nodeIds := of_decide_eq_true hin.2
        have hunion : e.Within (unionNodeIds graphs) :=
          ⟨nodeIds_mergeGraphs_subset hends.1, nodeIds_mergeGraphs_subset hends.2⟩
        exact List.mem_toFinset.mpr (List.mem_map_of_mem
          (List.mem_filter.mpr ⟨hin.1, decide_eq_true hunion⟩))
      unfold LeavesOut at hkept
      push Not at hkept
      exact hkept
    case truncated =>
      rw [truncated_mergeGraphs, leavesOut_mergeGraphs]
  refine ⟨hbounded, sameContent_merge hclosed hcaps hunique ?_ ?_,
    sameContent_merge hclosed hcaps hunique ?_ ?_⟩
  all_goals simp [unionNodes, unionEdges, merged]

/-- Two graphs use one edge id; the second one's edge leads to a node that no graph has. -/
private def rewiredGraphs : List EvidenceGraph :=
  let first : EvidenceGraph :=
    { nodes := [⟨"a", .role, "a", none, .reference, none, none⟩,
        ⟨"b", .role, "b", none, .reference, none, none⟩]
      edges := [⟨"e", "a", "b", "REQUIRES", .reference, ""⟩] }
  [first, { edges := [⟨"e", "a", "z", "REQUIRES", .reference, ""⟩] }]

/-- The last content of an edge is not kept when one of its ends is not. -/
theorem edge_keeps_earlier_content :
    ¬ ∀ e ∈ (mergeGraphs rewiredGraphs []).edges,
      lookupLast (·.id) (unionEdges rewiredGraphs) e.id = some e := by
  decide +kernel

end Jobtology.Chat
