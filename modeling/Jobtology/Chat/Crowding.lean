import Jobtology.Base.Text
import Jobtology.Chat.Grounding
import Mathlib.Algebra.Order.BigOperators.Group.List

/-!
# Evidence that is crowded out

Each read merges its result into the graph, which keeps 160 nodes. The account's own nodes and the
neighbourhood of an automatic read are protected; a focused item that was fetched from the catalog
is not, unless an item in focus is of a kind that is read automatically.
-/

namespace Jobtology.Chat

open Jobtology.Base

/-! ### Automatic reads -/

/-- `GraphEdge.source_freshness`, `GraphEdge.catalog_freshness`. -/
inductive Freshness
  | current
  | stale
  | unknown
  deriving DecidableEq

/-- The fields of the evidence that only the automatic reads look at. -/
structure CatalogFields where
  ncsBaseCode : GraphNode → Option String
  sourceFreshness : GraphEdge → Option Freshness
  catalogFreshness : GraphEdge → Option Freshness

/-- `catalog_lookup_id`. -/
def catalogLookupId (fields : CatalogFields) (node : GraphNode) : Option String :=
  if StartsWith node.id "requirement:" then
    (fields.ncsBaseCode node).bind fun base ↦
      if node.kind = .ncsCompetency ∧ base.length = 10 ∧ base.toList.all (·.isDigit) then
        some ("ncs:unit:" ++ base)
      else none
  else some node.id

/-- A current link from a posting to its occupation. -/
def CatalogFields.Current (fields : CatalogFields) (link : GraphEdge) : Prop :=
  (link.kind = "SOURCE_NCS_CLASSIFICATION" ∧ fields.sourceFreshness link = some .current) ∨
    (link.kind = "INFERRED_POSTING_OCCUPATION" ∧ fields.sourceFreshness link = some .current ∧
      fields.catalogFreshness link = some .current)

instance (fields : CatalogFields) : DecidablePred fields.Current :=
  fun _ ↦ inferInstanceAs (Decidable (_ ∨ _))

/-- The kinds of items whose neighbourhood is read automatically. -/
def GraphNode.ReadAutomatically (node : GraphNode) : Prop :=
  node.kind ∈ [.role, .ncsOccupation, .ncsCompetency, .onetOccupation, .onetSkill] ∨
    (node.kind = .technology ∧ StartsWith node.id "urn:jobtology:onet-detail:") ∨
    (node.kind = .postingEvidence ∧ StartsWith node.id "postings:")

instance : DecidablePred GraphNode.ReadAutomatically :=
  fun _ ↦ inferInstanceAs (Decidable (_ ∨ _))

/-- What is read for an item in focus: the occupations of a posting, or the item itself. -/
def automaticIdsOf (fields : CatalogFields) (graph : EvidenceGraph) (key : String) : List String :=
  match graph.nodes.find? (·.id = key) with
  | none => []
  | some node =>
    if node.kind = .posting then
      let current := (graph.edges.filter fun link ↦ link.source = key ∧ fields.Current link).map
        (·.target)
      [NodeKind.ncsOccupation, .onetOccupation].filterMap fun kind ↦
        ((graph.nodes.find? fun n ↦ n.id ∈ current ∧ n.kind = kind).map (·.id)).filter (· ≠ "")
    else if node.ReadAutomatically then (catalogLookupId fields node).toList
    else []

/-- The ids that are read automatically, two at most, if the catalog can expand an item. -/
def automaticIds (fields : CatalogFields) (canExpand : Bool) (focus : List String)
    (graph : EvidenceGraph) : List String :=
  if canExpand then (focus.flatMap (automaticIdsOf fields graph)).eraseDups.take 2 else []

/-- The reads of a tool round. -/
def Read.InToolRound : Read → Prop
  | .focused _ | .automatic _ => False
  | .tool _ _ | .stopped _ => True

/-- The conversation with its reads in the order of the source: the automatic ones as they
complete, then those of the tool rounds. -/
def Conversation.withReads (c : Conversation) (automatic : List (Option EvidenceGraph))
    (rounds : List Read) : Conversation :=
  { c with reads := automatic.map .automatic ++ rounds }

/-! ### What is protected -/

/-- The protected nodes have room. -/
def Search.ProtectedFit (s : Search) : Prop := s.protectedNodeIds.toFinset.card ≤ 160

instance : DecidablePred Search.ProtectedFit := fun _ ↦ inferInstanceAs (Decidable (_ ≤ _))

section Protected

variable {hasCatalog : Bool} {focus : List String} {s : Search} {k : String}

private theorem protected_subset_read (r : Read) :
    s.protectedNodeIds ⊆ (s.read hasCatalog focus r).protectedNodeIds := by
  intro key hkey
  cases r with
  | focused found =>
    cases found with
    | none => exact hkey
    | some found => exact hkey
  | automatic found => exact List.mem_append_left _ hkey
  | tool name found => exact List.mem_append_left _ hkey
  | stopped warning => exact hkey

/-- Reads add to the protected nodes. -/
theorem protected_subset_reads (reads : List Read) :
    s.protectedNodeIds ⊆ (reads.foldl (Search.read hasCatalog focus) s).protectedNodeIds := by
  induction reads generalizing s with
  | nil => exact fun _ h ↦ h
  | cons r rest ih => exact fun _ h ↦ ih (protected_subset_read r h)

/-- Protected nodes that have room after more were protected had room before. -/
theorem Search.ProtectedFit.of_subset {t : Search} (ht : t.ProtectedFit)
    (hsubset : s.protectedNodeIds ⊆ t.protectedNodeIds) : s.ProtectedFit := by
  apply le_trans (Finset.card_le_card _) ht
  intro key hkey
  exact List.mem_toFinset.mpr (hsubset (List.mem_toFinset.mp hkey))

/-- A merge keeps a protected node. -/
theorem mem_mergeGraphs_of_protected {graph found : EvidenceGraph} {protectedNodeIds : List String}
    (hfits : protectedNodeIds.toFinset.card ≤ 160) (hk : k ∈ protectedNodeIds)
    (hnode : k ∈ graph.nodeIds) : k ∈ (mergeGraphs [graph, found] protectedNodeIds).nodeIds := by
  apply mem_keptNodes_of_requested (nodup_latest _ _) hfits hk
  rw [mem_keys_latest, List.flatMap_cons, List.map_append]
  exact List.mem_append_left _ hnode

/-- One read keeps a protected node. -/
theorem mem_read_of_protected (r : Read) (hfits : (s.read hasCatalog focus r).ProtectedFit)
    (hk : k ∈ s.protectedNodeIds) (hnode : k ∈ s.graph.nodeIds) :
    k ∈ (s.read hasCatalog focus r).graph.nodeIds := by
  have hbefore : s.ProtectedFit := hfits.of_subset (protected_subset_read r)
  cases r with
  | focused found =>
    cases found with
    | none => exact hnode
    | some found => exact mem_mergeGraphs_of_protected hbefore hk hnode
  | automatic found => exact mem_mergeGraphs_of_protected hbefore hk hnode
  | tool name found =>
    exact mem_mergeGraphs_of_protected hfits (List.mem_append_left _ hk) hnode
  | stopped warning => exact hnode

/-- Every sequence of reads keeps a protected node. -/
theorem mem_reads_of_protected (reads : List Read)
    (hfits : (reads.foldl (Search.read hasCatalog focus) s).ProtectedFit)
    (hk : k ∈ s.protectedNodeIds) (hnode : k ∈ s.graph.nodeIds) :
    k ∈ (reads.foldl (Search.read hasCatalog focus) s).graph.nodeIds := by
  induction reads generalizing s with
  | nil => exact hnode
  | cons r rest ih =>
    have hstep : (s.read hasCatalog focus r).ProtectedFit :=
      hfits.of_subset (protected_subset_reads rest)
    exact ih hfits (protected_subset_read r hk) (mem_read_of_protected r hstep hk hnode)

/-- The roots of a neighbourhood stay in it. -/
theorem mem_expandFocus {graph : EvidenceGraph} {limit : Int} {rootIsPosting : Bool}
    (rounds : Nat) {kept frontier : List String} (h : k ∈ kept) :
    k ∈ expandFocus graph limit rootIsPosting rounds kept frontier := by
  induction rounds generalizing kept frontier with
  | zero => exact h
  | succ rounds ih =>
    unfold expandFocus
    dsimp only
    split
    · exact h
    · exact ih (List.mem_append_left _ h)

/-- A known node in focus is in its neighbourhood. -/
theorem mem_focusNeighborhood {graph : EvidenceGraph} (hk : k ∈ focus)
    (hnode : k ∈ graph.nodeIds) : k ∈ (focusNeighborhood graph focus).nodeIds := by
  have hroot : k ∈ (focus.filter (· ∈ graph.nodeIds)).eraseDups :=
    List.mem_eraseDups.mpr (List.mem_filter.mpr ⟨hk, decide_eq_true hnode⟩)
  cases hfound : lookupLast (fun n : GraphNode ↦ n.id) graph.nodes k with
  | none =>
    obtain ⟨n, hn, hid⟩ := List.mem_map.mp hnode
    exact absurd hid (lookupLast_eq_none.mp hfound n hn)
  | some n =>
    refine List.mem_map.mpr ⟨n, ?_, (lookupLast_some hfound).2⟩
    exact List.mem_filterMap.mpr ⟨k, mem_expandFocus 3 hroot, hfound⟩

/-- Focused reads protect nothing. -/
theorem protected_focusedReads (reads : List (Option EvidenceGraph)) :
    ((reads.map Read.focused).foldl (Search.read hasCatalog focus) s).protectedNodeIds =
      s.protectedNodeIds := by
  induction reads generalizing s with
  | nil => rfl
  | cons found rest ih =>
    cases found with
    | none => exact ih
    | some found => exact ih

end Protected

/-! ### The ledger -/

/-- The sources of the items in focus come first in the ledger. -/
theorem mem_allowedIds_of_focus {relevance : EvidenceSource → Nat} {focus : List String}
    {graph : EvidenceGraph} {k : String} (hlength : focus.length ≤ 8) (hk : k ∈ focus)
    (hnode : k ∈ graph.nodeIds) : k ∈ (promptOf relevance focus graph).allowedIds := by
  let sources := sourcesFor graph
  let ranking := ranked relevance 160 sources
  let seed := focus ++ (ranking.take 8).map (·.id)
  let neighborIds := (graph.edges.filter fun e ↦ e.source ∈ seed ∨ e.target ∈ seed).map fun e ↦
    if e.source ∈ seed then e.target else e.source
  let focusedIds := (focusNeighborhood graph focus).nodeIds
  let focusedSources := sources.filter (·.id ∈ focus)
  let others := (sources.filter fun s ↦ s.id ∈ focusedIds ∧ s.id ∉ focus) ++
    (ranking.take 8 ++ ((sources.filter (·.id ∈ neighborIds)).take 16 ++ ranking))
  have hfew : ((dictOf (·.id) focusedSources).map (·.id)).length ≤ 8 := by
    apply le_trans _ hlength
    apply List.Subperm.length_le
    apply nodup_keys_dictOf.subperm
    intro id hid
    obtain ⟨s, hs, rfl⟩ := List.mem_map.mp (mem_keys_dictOf.mp hid)
    exact of_decide_eq_true (List.mem_filter.mp hs).2
  have hfocused : k ∈ (dictOf (·.id) focusedSources).map (·.id) := by
    obtain ⟨n, hn, hid⟩ := List.mem_map.mp hnode
    rw [mem_keys_dictOf]
    refine List.mem_map.mpr ⟨_, List.mem_filter.mpr ⟨List.mem_map_of_mem hn, ?_⟩, hid⟩
    exact decide_eq_true (show n.id ∈ focus from hid ▸ hk)
  obtain ⟨rest, hrest⟩ : (dictOf (·.id) focusedSources).map (·.id) <+:
      (dictOf (·.id) (focusedSources ++ others)).map (·.id) := keys_dictOf_prefix
  have hledger : (promptOf relevance focus graph).allowedIds =
      ((dictOf (·.id) (focusedSources ++ others)).map (·.id)).take 32 := by
    unfold promptOf Prompt.allowedIds
    rw [List.map_map, List.map_take]
    simp only [List.append_assoc]
    rfl
  rw [hledger, ← hrest, List.take_append, List.mem_append,
    List.take_of_length_le (hfew.trans (by decide))]
  exact .inl hfocused

/-! ### A page that crowds out a node -/

/-- Nodes whose ids are longer than a bound. -/
def freshNodes (bound : Nat) (kind : NodeKind) (count : Nat) : List GraphNode :=
  (List.range count).map fun i ↦
    { id := String.ofList (List.replicate (bound + i) 'x'), kind := kind, label := "" }

/-- A page of the catalog: roles, an item, and technologies. -/
def crowdingPage (bound : Nat) (item : GraphNode) : EvidenceGraph where
  nodes := freshNodes bound .role 16 ++ item :: freshNodes (bound + 16) .technology 160

/-- A page of records: as many as fit, and an item after them. -/
def recordsPage (bound : Nat) (item : GraphNode) : EvidenceGraph where
  nodes := freshNodes bound .capability 160 ++ [item]

section Page

variable {bound : Nat} {item : GraphNode} {kind : NodeKind} {count : Nat}

private theorem of_mem_freshNodes {n : GraphNode} (h : n ∈ freshNodes bound kind count) :
    n.kind = kind ∧ bound ≤ n.id.length ∧ n.id.length < bound + count := by
  obtain ⟨i, hi, rfl⟩ := List.mem_map.mp h
  have hlt := List.mem_range.mp hi
  have hlength : (String.ofList (List.replicate (bound + i) 'x')).length = bound + i := by simp
  refine ⟨rfl, ?_, ?_⟩
  · show bound ≤ (String.ofList (List.replicate (bound + i) 'x')).length
    omega
  · show (String.ofList (List.replicate (bound + i) 'x')).length < bound + count
    omega

private theorem nodup_freshNodes : ((freshNodes bound kind count).map (·.id)).Nodup := by
  unfold freshNodes
  rw [List.map_map]
  apply List.Nodup.map
  · intro i j hij
    have hlength := congrArg String.length hij
    simpa using hlength
  · exact List.nodup_range

/-- No id of the page stands for two nodes. -/
theorem nodup_crowdingPage (h : item.id.length < bound) :
    (crowdingPage bound item).nodeIds.Nodup := by
  unfold EvidenceGraph.nodeIds crowdingPage
  rw [List.map_append, List.map_cons, List.nodup_append, List.nodup_cons]
  refine ⟨nodup_freshNodes, ⟨?_, nodup_freshNodes⟩, ?_⟩
  · intro hmem
    obtain ⟨n, hn, hid⟩ := List.mem_map.mp hmem
    have hbound := (of_mem_freshNodes hn).2.1
    rw [hid] at hbound
    omega
  · rintro a ha b hb rfl
    obtain ⟨n, hn, rfl⟩ := List.mem_map.mp ha
    obtain ⟨-, hlow, hhigh⟩ := of_mem_freshNodes hn
    rcases List.mem_cons.mp hb with hid | hmem
    · rw [hid] at hlow
      omega
    · obtain ⟨m, hm, hid⟩ := List.mem_map.mp hmem
      have hlow' := (of_mem_freshNodes hm).2.1
      rw [hid] at hlow'
      omega

/-- A merge with the page drops the item unless it is protected. -/
theorem notMem_merge_crowdingPage {graph : EvidenceGraph} {protectedNodeIds : List String}
    (hitem : item.id ∉ protectedNodeIds) (hlength : item.id.length < bound)
    (hbound : ∀ id ∈ protectedNodeIds, id.length < bound) :
    item.id ∉ (mergeGraphs [graph, crowdingPage bound item] protectedNodeIds).nodeIds := by
  let page := crowdingPage bound item
  let before := ((latest (·.id) graph.nodes).filter fun n ↦ n.id ∉ page.nodes.map (·.id)) ++
    freshNodes bound .role 16
  let after := freshNodes (bound + 16) .technology 160
  have hfree {n : GraphNode} (h : bound ≤ n.id.length) : n.id ∉ protectedNodeIds :=
    fun hmem ↦ absurd (hbound n.id hmem) (not_lt.mpr h)
  have hnodes : latest (·.id) ([graph, page].flatMap (·.nodes)) = before ++ item :: after := by
    rw [List.flatMap_cons, List.flatMap_singleton, latest_append,
      latest_eq_self (nodup_crowdingPage hlength)]
    show _ ++ (freshNodes bound .role 16 ++ item :: after) = _
    rw [← List.append_assoc]
  have hnodup : ((before ++ item :: after).map (·.id)).Nodup := by
    rw [← hnodes]
    exact nodup_latest _ _
  show item.id ∉ (keptNodes protectedNodeIds
    (latest (·.id) ([graph, page].flatMap (·.nodes)))).map (·.id)
  rw [hnodes]
  refine notMem_keptNodes hnodup hitem (fun _ ↦ ?_) ?_ ?_
  · have hroles : (freshNodes bound .role 16).countP (fun m ↦ m.id ∉ protectedNodeIds ∧
        m.kind ∈ [.profile, .goal, .role, .preferences]) = 16 := by
      have hall : (freshNodes bound .role 16).countP (fun m ↦ m.id ∉ protectedNodeIds ∧
          m.kind ∈ [.profile, .goal, .role, .preferences]) =
            (freshNodes bound .role 16).length := by
        rw [List.countP_eq_length]
        intro n hn
        obtain ⟨hkind, hlow, -⟩ := of_mem_freshNodes hn
        exact decide_eq_true ⟨hfree hlow, by rw [hkind]; decide⟩
      rw [hall]
      simp [freshNodes]
    rw [List.countP_append, hroles]
    omega
  · show 160 ≤ (freshNodes (bound + 16) .technology 160).length
    simp [freshNodes]
  · intro m hm
    obtain ⟨hkind, hlow, -⟩ := of_mem_freshNodes hm
    exact ⟨hfree (by omega), by rw [hkind]; decide⟩

/-- A merge with as many technologies as fit drops the last node of a graph if it is neither
protected nor an account node. -/
theorem notMem_merge_technologies {graph : EvidenceGraph} {protectedNodeIds : List String}
    {before : List GraphNode} (hnodes : graph.nodes = before ++ [item])
    (hnodup : graph.nodeIds.Nodup) (hitem : item.id ∉ protectedNodeIds)
    (hkind : item.kind ∉ [.profile, .goal, .role, .preferences])
    (hbound : ∀ id ∈ graph.nodeIds ++ protectedNodeIds, id.length < bound) :
    item.id ∉ (mergeGraphs [graph, { nodes := freshNodes bound .technology 160 }]
      protectedNodeIds).nodeIds := by
  have hfresh {n : GraphNode} (hn : n ∈ freshNodes bound .technology 160) :
      n.id ∉ graph.nodeIds ++ protectedNodeIds :=
    fun hmem ↦ absurd (hbound n.id hmem) (not_lt.mpr (of_mem_freshNodes hn).2.1)
  have hall : ((graph.nodes ++ freshNodes bound .technology 160).map (·.id)).Nodup := by
    rw [List.map_append, List.nodup_append]
    refine ⟨hnodup, nodup_freshNodes, ?_⟩
    rintro a ha b hb rfl
    obtain ⟨n, hn, rfl⟩ := List.mem_map.mp hb
    exact hfresh hn (List.mem_append_left _ ha)
  show item.id ∉ (keptNodes protectedNodeIds (latest (·.id) ([graph,
    { nodes := freshNodes bound .technology 160 }].flatMap (·.nodes)))).map (·.id)
  rw [List.flatMap_cons, List.flatMap_singleton, latest_eq_self hall]
  rw [hnodes, List.append_assoc, List.singleton_append] at hall ⊢
  refine notMem_keptNodes hall hitem (fun h ↦ absurd h hkind) ?_ fun m hm ↦ ⟨?_, ?_⟩
  · show 160 ≤ (freshNodes bound .technology 160).length
    simp [freshNodes]
  · exact fun hmem ↦ hfresh hm (List.mem_append_right _ hmem)
  · rw [(of_mem_freshNodes hm).1]
    decide

/-- A merge with the page of records drops the item even if it is protected. -/
theorem notMem_merge_recordsPage {graph : EvidenceGraph} {protectedNodeIds : List String}
    (hlength : item.id.length < bound)
    (hrecords : (freshNodes bound .capability 160).map (·.id) ⊆ protectedNodeIds) :
    item.id ∉ (mergeGraphs [graph, recordsPage bound item] protectedNodeIds).nodeIds := by
  let page := recordsPage bound item
  let records := freshNodes bound .capability 160
  let before := ((latest (·.id) graph.nodes).filter fun n ↦ n.id ∉ page.nodes.map (·.id)) ++ records
  have hpage : (page.nodes.map (·.id)).Nodup := by
    show ((records ++ [item]).map (·.id)).Nodup
    rw [List.map_append, List.nodup_append]
    refine ⟨nodup_freshNodes, by simp, ?_⟩
    rintro a ha b hb rfl
    obtain ⟨n, hn, rfl⟩ := List.mem_map.mp ha
    have hlow := (of_mem_freshNodes hn).2.1
    rw [List.map_singleton, List.mem_singleton] at hb
    rw [hb] at hlow
    omega
  have hnodes : latest (·.id) ([graph, page].flatMap (·.nodes)) = before ++ item :: [] := by
    rw [List.flatMap_cons, List.flatMap_singleton, latest_append, latest_eq_self hpage]
    show _ ++ (records ++ [item]) = _
    rw [← List.append_assoc]
  have hnodup : ((before ++ item :: []).map (·.id)).Nodup := by
    rw [← hnodes]
    exact nodup_latest _ _
  show item.id ∉ (keptNodes protectedNodeIds
    (latest (·.id) ([graph, page].flatMap (·.nodes)))).map (·.id)
  rw [hnodes]
  apply notMem_keptNodes_of_full hnodup
  have hall : records.countP (·.id ∈ protectedNodeIds) = records.length := by
    rw [List.countP_eq_length]
    intro n hn
    exact decide_eq_true (hrecords (List.mem_map_of_mem hn))
  have hcount : records.length = 160 := by simp [records, freshNodes]
  rw [List.countP_append, hall, hcount]
  omega

end Page

end Jobtology.Chat
