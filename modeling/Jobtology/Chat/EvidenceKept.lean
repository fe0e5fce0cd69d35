import Jobtology.Chat.BoundedUnion
import Jobtology.Chat.Crowding
import Jobtology.Chat.FocusSearch

/-!
# Evidence that a retrieval keeps

What the reads may come back with so that the items in focus stay: nothing is dropped while all
ids fit into the graph, and once an item is protected it stays as long as the protected nodes
have room. Other results drop any item that was fetched, and any item at all when too many
records are read.
-/

namespace Jobtology.Chat

open Jobtology.Base

/-! ### What the reads come back with -/

/-- What a read comes back with. -/
def Read.found : Read → EvidenceGraph
  | .focused result => result.getD {}
  | .automatic result => result.getD {}
  | .tool _ result => result.getD {}
  | .stopped _ => {}

/-- The records that a read comes back with. -/
def Read.personal : Read → EvidenceGraph
  | .tool name result => if name = "read_personal_records" then result.getD {} else {}
  | _ => {}

/-- The ids of the account and of all that is read. -/
def idsRead (initial : WorkspaceEvidence) (reads : List Read) : Finset String :=
  (unionNodeIds (initial.graph :: reads.map (·.found))).toFinset

/-- The ids of the account and of the records that are read. -/
def ownIds (initial : WorkspaceEvidence) (reads : List Read) : Finset String :=
  (unionNodeIds (initial.graph :: reads.map (·.personal))).toFinset

/-- The reads of a conversation, those of the focused items first. -/
def Conversation.allReads (c : Conversation) : List Read := c.focusedReads.map .focused ++ c.reads

section Found

variable {hasCatalog : Bool} {focus : List String} {s : Search} {initial : WorkspaceEvidence}
  {ids : Finset String} {reads : List Read} {k : String}

private theorem mem_unionNodeIds {graphs : List EvidenceGraph} :
    k ∈ unionNodeIds graphs ↔ ∃ graph ∈ graphs, k ∈ graph.nodeIds := by
  unfold unionNodeIds unionNodes EvidenceGraph.nodeIds
  rw [List.map_flatMap, List.mem_flatMap]

private theorem mem_unionNodeIds_map {graph : EvidenceGraph} {brought : Read → EvidenceGraph} :
    k ∈ unionNodeIds (graph :: reads.map brought) ↔
      k ∈ graph.nodeIds ∨ ∃ r ∈ reads, k ∈ (brought r).nodeIds := by
  simp [mem_unionNodeIds]

private theorem mem_idsRead :
    k ∈ idsRead initial reads ↔ k ∈ initial.graph.nodeIds ∨ ∃ r ∈ reads, k ∈ r.found.nodeIds := by
  unfold idsRead
  rw [List.mem_toFinset, mem_unionNodeIds_map]

private theorem mem_ownIds :
    k ∈ ownIds initial reads ↔
      k ∈ initial.graph.nodeIds ∨ ∃ r ∈ reads, k ∈ r.personal.nodeIds := by
  unfold ownIds
  rw [List.mem_toFinset, mem_unionNodeIds_map]

/-- A read leaves the graph as it was, or merges what it comes back with. -/
theorem graph_read (r : Read) :
    (s.read hasCatalog focus r).graph = s.graph ∨ ∃ protectedNodeIds,
      (s.read hasCatalog focus r).graph = mergeGraphs [s.graph, r.found] protectedNodeIds := by
  cases r with
  | focused found =>
    cases found with
    | none => exact .inl rfl
    | some found => exact .inr ⟨_, rfl⟩
  | automatic found => exact .inr ⟨_, rfl⟩
  | tool name found => exact .inr ⟨_, rfl⟩
  | stopped warning => exact .inl rfl

/-- A read brings in no other ids than it comes back with. -/
theorem nodeIds_read_within (r : Read) (hs : ∀ k ∈ s.graph.nodeIds, k ∈ ids)
    (hfound : ∀ k ∈ r.found.nodeIds, k ∈ ids) :
    ∀ k ∈ (s.read hasCatalog focus r).graph.nodeIds, k ∈ ids := by
  obtain heq | ⟨protectedNodeIds, heq⟩ := graph_read (s := s) r
  · rw [heq]
    exact hs
  · rw [heq]
    intro k hk
    obtain ⟨graph, hgraph, hmem⟩ := mem_unionNodeIds.mp (nodeIds_mergeGraphs_subset hk)
    rcases List.mem_pair.mp hgraph with rfl | rfl
    · exact hs k hmem
    · exact hfound k hmem

/-- A read drops nothing while the ids fit. -/
theorem mem_read_of_few (r : Read) (hcard : ids.card ≤ 160) (hs : ∀ k ∈ s.graph.nodeIds, k ∈ ids)
    (hfound : ∀ k ∈ r.found.nodeIds, k ∈ ids) (hk : k ∈ s.graph.nodeIds) :
    k ∈ (s.read hasCatalog focus r).graph.nodeIds := by
  obtain heq | ⟨protectedNodeIds, heq⟩ := graph_read (s := s) r
  · rw [heq]
    exact hk
  · rw [heq]
    apply mem_nodeIds_mergeGraphs
    · apply le_trans (Finset.card_le_card _) hcard
      intro key hkey
      obtain ⟨graph, hgraph, hmem⟩ := mem_unionNodeIds.mp (List.mem_toFinset.mp hkey)
      rcases List.mem_pair.mp hgraph with rfl | rfl
      · exact hs key hmem
      · exact hfound key hmem
    · exact mem_unionNodeIds.mpr ⟨s.graph, List.mem_cons_self, hk⟩

/-- Every sequence of reads brings in no other ids than it comes back with. -/
theorem nodeIds_reads_within (hs : ∀ k ∈ s.graph.nodeIds, k ∈ ids)
    (hreads : ∀ r ∈ reads, ∀ k ∈ r.found.nodeIds, k ∈ ids) :
    ∀ k ∈ (reads.foldl (Search.read hasCatalog focus) s).graph.nodeIds, k ∈ ids := by
  induction reads generalizing s with
  | nil => exact hs
  | cons r rest ih =>
    apply ih
    · exact nodeIds_read_within r hs (hreads r List.mem_cons_self)
    · exact fun r' hr' ↦ hreads r' (List.mem_cons_of_mem _ hr')

/-- Every sequence of reads drops nothing while the ids fit. -/
theorem mem_reads_of_few (hcard : ids.card ≤ 160) (hs : ∀ k ∈ s.graph.nodeIds, k ∈ ids)
    (hreads : ∀ r ∈ reads, ∀ k ∈ r.found.nodeIds, k ∈ ids) (hk : k ∈ s.graph.nodeIds) :
    k ∈ (reads.foldl (Search.read hasCatalog focus) s).graph.nodeIds := by
  induction reads generalizing s with
  | nil => exact hk
  | cons r rest ih =>
    have hfound := hreads r List.mem_cons_self
    apply ih
    · exact nodeIds_read_within r hs hfound
    · exact fun r' hr' ↦ hreads r' (List.mem_cons_of_mem _ hr')
    · exact mem_read_of_few r hcard hs hfound hk

end Found

/-! ### Room for what is protected -/

section Room

variable {hasCatalog : Bool} {focus : List String} {s : Search} {graph : EvidenceGraph}
  {ids : Finset String} {k : String}

private theorem focusNeighborhood_subset :
    (focusNeighborhood graph focus).nodeIds ⊆ graph.nodeIds := by
  intro k hk
  obtain ⟨n, hn, rfl⟩ := List.mem_map.mp hk
  exact List.mem_map_of_mem
    (lookupLast_some ((focusNeighborhood_fair graph focus 24).nodes n hn)).1

/-- A neighbourhood has at most 24 nodes. -/
theorem card_focusNeighborhood (hfocus : focus.length ≤ 8) :
    (focusNeighborhood graph focus).nodeIds.toFinset.card ≤ 24 := by
  have hbounded := (focusNeighborhood_fair graph focus 24).bounded
  have hroots := List.toFinset_card_le (focus.filter (· ∈ graph.nodeIds))
  have hfew := List.length_filter_le (· ∈ graph.nodeIds) focus
  apply (List.toFinset_card_le _).trans
  unfold EvidenceGraph.nodeIds
  rw [List.length_map]
  omega

/-- Each automatic read protects at most 24 more nodes, all of them read before. -/
theorem protected_automaticReads (hfocus : focus.length ≤ 8)
    (automatic : List (Option EvidenceGraph)) (hs : ∀ k ∈ s.graph.nodeIds, k ∈ ids)
    (hreads : ∀ r ∈ automatic.map Read.automatic, ∀ k ∈ r.found.nodeIds, k ∈ ids) :
    ∃ near : Finset String, near.card ≤ 24 * automatic.length ∧ near ⊆ ids ∧
      ∀ k ∈ ((automatic.map Read.automatic).foldl (Search.read hasCatalog focus)
        s).protectedNodeIds, k ∈ s.protectedNodeIds ∨ k ∈ near := by
  induction automatic generalizing s with
  | nil => exact ⟨∅, by simp, Finset.empty_subset _, fun k hk ↦ .inl hk⟩
  | cons found rest ih =>
    have hfound := hreads (.automatic found) List.mem_cons_self
    have hwithin : ∀ k ∈ (s.read hasCatalog focus (.automatic found)).graph.nodeIds, k ∈ ids :=
      nodeIds_read_within _ hs hfound
    obtain ⟨near, hcard, hsubset, hprotected⟩ :=
      ih hwithin fun r hr ↦ hreads r (List.mem_cons_of_mem _ hr)
    let graph := (s.read hasCatalog focus (.automatic found)).graph
    refine ⟨(focusNeighborhood graph focus).nodeIds.toFinset ∪ near, ?_, ?_, ?_⟩
    · have hunion := Finset.card_union_le (focusNeighborhood graph focus).nodeIds.toFinset near
      have hnear : (focusNeighborhood graph focus).nodeIds.toFinset.card ≤ 24 :=
        card_focusNeighborhood hfocus
      rw [List.length_cons]
      omega
    · apply Finset.union_subset _ hsubset
      exact fun k hk ↦ hwithin k (focusNeighborhood_subset (List.mem_toFinset.mp hk))
    · intro k hk
      rcases hprotected k hk with hmem | hmem
      · rcases List.mem_append.mp hmem with hmem | hmem
        · exact .inl hmem
        · exact .inr (Finset.mem_union_left _ (List.mem_toFinset.mpr hmem))
      · exact .inr (Finset.mem_union_right _ hmem)

/-- The tool rounds protect the records that they read. -/
theorem protected_toolReads (rounds : List Read) (hrounds : ∀ r ∈ rounds, r.InToolRound) :
    ∀ k ∈ (rounds.foldl (Search.read hasCatalog focus) s).protectedNodeIds,
      k ∈ s.protectedNodeIds ∨ ∃ r ∈ rounds, k ∈ r.personal.nodeIds := by
  induction rounds generalizing s with
  | nil => exact fun k hk ↦ .inl hk
  | cons r rest ih =>
    intro k hk
    rcases ih (fun r' hr' ↦ hrounds r' (List.mem_cons_of_mem _ hr')) k hk with hmem | hmem
    · have hround := hrounds r List.mem_cons_self
      cases r with
      | focused found => exact hround.elim
      | automatic found => exact hround.elim
      | tool name found =>
        refine (List.mem_append.mp hmem).imp_right fun hfound ↦ ⟨_, List.mem_cons_self, ?_⟩
        show k ∈ (if name = "read_personal_records" then found.getD {} else {}).nodeIds
        split at hfound
        case isTrue hname =>
          rw [if_pos hname]
          exact hfound
        case isFalse => exact absurd hfound List.not_mem_nil
      | stopped warning => exact .inl hmem
    · obtain ⟨r', hr', hmem⟩ := hmem
      exact .inr ⟨r', List.mem_cons_of_mem _ hr', hmem⟩

end Room

/-! ### Every retrieval -/

/-- When the answer is composed, the items in focus that were known when retrieval started are
nodes of the graph and sources of the ledger, and the nodes of the account are there as long as the
protected nodes have room. -/
structure EvidenceKept (c : Conversation) (initial : WorkspaceEvidence) : Prop where
  focus : ∀ k ∈ c.focusIds, k ∈ (c.focusedSearch initial).graph.nodeIds →
    k ∈ (c.search initial).graph.nodeIds ∧ k ∈ (c.prompt initial).allowedIds
  account : (c.search initial).ProtectedFit →
    initial.graph.nodeIds ⊆ (c.search initial).graph.nodeIds

/-- The results of a retrieval: one for each automatic read, and those of the tool rounds. -/
structure Conversation.Retrieved (c : Conversation) (initial : WorkspaceEvidence)
    (fields : CatalogFields) (canExpand : Bool) (automatic : List (Option EvidenceGraph))
    (rounds : List Read) : Prop where
  automatic : automatic.length = (automaticIds fields canExpand (c.focus initial)
    (c.focusedSearch initial).graph).length
  rounds : ∀ r ∈ rounds, r.InToolRound

/-- All that is read fits into the graph. -/
def Conversation.FewRead (c : Conversation) (initial : WorkspaceEvidence)
    (automatic : List (Option EvidenceGraph)) (rounds : List Read) : Prop :=
  (idsRead initial (c.withReads automatic rounds).allReads).card ≤ 160

/-- The items in focus are nodes of the account, or what is read up to the first automatic read
fits, and that read protects them. -/
def Conversation.Sheltered (c : Conversation) (initial : WorkspaceEvidence)
    (automatic : List (Option EvidenceGraph)) : Prop :=
  (∀ k ∈ c.focus initial, k ∈ initial.graph.nodeIds) ∨
    automatic ≠ [] ∧ (idsRead initial (c.withReads (automatic.take 1) []).allReads).card ≤ 160

/-- What may come to be protected fits: the account and its records, with 24 nodes of a
neighbourhood for each automatic read, or with all that is read before the tool rounds. -/
def Conversation.ProtectedRoom (c : Conversation) (initial : WorkspaceEvidence)
    (automatic : List (Option EvidenceGraph)) (rounds : List Read) : Prop :=
  (ownIds initial rounds).card + 24 * automatic.length ≤ 160 ∨
    (ownIds initial rounds ∪ idsRead initial (c.withReads automatic []).allReads).card ≤ 160

section Retrieval

variable {c : Conversation} {initial : WorkspaceEvidence}
  {automatic : List (Option EvidenceGraph)} {rounds : List Read} {k : String}

private theorem search_withReads :
    (c.withReads automatic rounds).search initial =
      rounds.foldl (Search.read c.hasCatalog (c.focus initial))
        ((automatic.map Read.automatic).foldl (Search.read c.hasCatalog (c.focus initial))
          (c.focusedSearch initial)) := by
  unfold Conversation.search Conversation.withReads
  rw [List.foldl_append]
  rfl

private theorem focus_withReads :
    (c.withReads automatic rounds).focus initial = c.focus initial := rfl

private theorem mem_focus (hlength : c.focusIds.length ≤ 8) :
    k ∈ c.focus initial ↔ k ∈ c.focusIds ∧ k ∈ (c.focusedSearch initial).graph.nodeIds := by
  unfold Conversation.focus focusOf
  rw [List.take_of_length_le ((List.length_filter_le _ _).trans hlength), List.mem_filter,
    decide_eq_true_iff]

private theorem length_focus_le : (c.focus initial).length ≤ 8 := List.length_take_le _ _

private theorem mem_focusedSearch_of_focus (hk : k ∈ c.focus initial) :
    k ∈ (c.focusedSearch initial).graph.nodeIds :=
  of_decide_eq_true (List.mem_filter.mp (List.mem_of_mem_take hk)).2

/-- Before retrieval starts, the nodes of the account are what is protected. -/
theorem protected_focusedSearch :
    (c.focusedSearch initial).protectedNodeIds = initial.graph.nodeIds :=
  protected_focusedReads _

/-- The ids known when retrieval starts are the account's or were read. -/
theorem focusedSearch_within (reads : List Read) :
    ∀ k ∈ (c.focusedSearch initial).graph.nodeIds,
      k ∈ idsRead initial (c.focusedReads.map .focused ++ reads) := by
  apply nodeIds_reads_within
  · exact fun k hk ↦ mem_idsRead.mpr (.inl hk)
  · exact fun r hr k hk ↦ mem_idsRead.mpr (.inr ⟨r, List.mem_append_left _ hr, hk⟩)

private theorem reads_within (reads : List Read) :
    ∀ r ∈ reads, ∀ k ∈ r.found.nodeIds,
      k ∈ idsRead initial (c.focusedReads.map .focused ++ reads) :=
  fun r hr _ hk ↦ mem_idsRead.mpr (.inr ⟨r, List.mem_append_right _ hr, hk⟩)

/-- While all that is read fits, nothing known when retrieval starts is dropped. -/
theorem kept_of_fewRead (hfew : c.FewRead initial automatic rounds)
    (hk : k ∈ (c.focusedSearch initial).graph.nodeIds) :
    k ∈ ((c.withReads automatic rounds).search initial).graph.nodeIds :=
  mem_reads_of_few hfew (focusedSearch_within _) (reads_within _) hk

/-- Whatever is read, the nodes of the account stay as long as the protected nodes have room. -/
theorem account_kept (hfits : (c.search initial).ProtectedFit) :
    initial.graph.nodeIds ⊆ (c.search initial).graph.nodeIds := by
  intro k hk
  have hfocused : (c.focusedSearch initial).ProtectedFit :=
    hfits.of_subset (protected_subset_reads c.reads)
  apply mem_reads_of_protected c.reads hfits
  · rw [protected_focusedSearch]
    exact hk
  · exact mem_reads_of_protected _ hfocused hk hk

/-- The protected nodes have room when the results leave it. -/
theorem protectedFit_of_room (hrounds : ∀ r ∈ rounds, r.InToolRound)
    (hroom : c.ProtectedRoom initial automatic rounds) :
    ((c.withReads automatic rounds).search initial).ProtectedFit := by
  have hreads : (c.withReads automatic []).allReads =
      c.focusedReads.map .focused ++ automatic.map .automatic :=
    congrArg _ (List.append_nil _)
  have hfocus : (c.focus initial).length ≤ 8 := length_focus_le
  obtain ⟨near, hcard, hsubset, hnear⟩ := @protected_automaticReads c.hasCatalog _ _ _ hfocus
    automatic (focusedSearch_within (automatic.map .automatic)) (reads_within _)
  have hprotected : ((c.withReads automatic rounds).search initial).protectedNodeIds.toFinset ⊆
      ownIds initial rounds ∪ near := by
    intro k hk
    rw [List.mem_toFinset, search_withReads] at hk
    rw [Finset.mem_union, mem_ownIds]
    rcases protected_toolReads rounds hrounds k hk with hmem | hmem
    · rcases hnear k hmem with hmem | hmem
      · rw [protected_focusedSearch] at hmem
        exact .inl (.inl hmem)
      · exact .inr hmem
    · exact .inl (.inr hmem)
  rcases hroom with hroom | hroom
  · calc
      _ ≤ (ownIds initial rounds ∪ near).card := Finset.card_le_card hprotected
      _ ≤ (ownIds initial rounds).card + near.card := Finset.card_union_le _ _
      _ ≤ 160 := by omega
  · rw [hreads] at hroom
    exact (Finset.card_le_card (hprotected.trans
      (Finset.union_subset_union_right hsubset))).trans hroom

/-- What is protected when retrieval starts, or with the first automatic read, stays. -/
theorem kept_of_sheltered (hsheltered : c.Sheltered initial automatic)
    (hfits : ((c.withReads automatic rounds).search initial).ProtectedFit)
    (hk : k ∈ c.focus initial) :
    k ∈ ((c.withReads automatic rounds).search initial).graph.nodeIds := by
  have hknown := mem_focusedSearch_of_focus hk
  rcases hsheltered with hown | ⟨hsome, hfew⟩
  · exact account_kept hfits (hown k hk)
  · obtain ⟨first, rest, rfl⟩ := List.exists_cons_of_ne_nil hsome
    rw [search_withReads, List.map_cons, List.foldl_cons] at hfits ⊢
    rw [← List.foldl_append] at hfits ⊢
    have hnode : k ∈ ((c.focusedSearch initial).read c.hasCatalog (c.focus initial)
        (.automatic first)).graph.nodeIds :=
      mem_read_of_few _ hfew (focusedSearch_within [.automatic first])
        (reads_within [.automatic first] _ List.mem_cons_self) hknown
    apply mem_reads_of_protected _ hfits _ hnode
    exact List.mem_append_right _ (mem_focusNeighborhood hk hnode)

/-- Some page of the catalog drops an item that is not protected. -/
theorem crowdedOut {s : Search} (hk : k ∉ s.protectedNodeIds) :
    ∃ page : EvidenceGraph, k ∉ (mergeGraphs [s.graph, page] s.protectedNodeIds).nodeIds := by
  let item : GraphNode := { id := k, kind := .qualification, label := "" }
  let bound := ((k :: s.protectedNodeIds).map (·.length)).sum + 1
  have hlonger : ∀ id ∈ k :: s.protectedNodeIds, id.length < bound := by
    intro id hid
    exact Nat.lt_succ_of_le (List.le_sum_of_mem (List.mem_map_of_mem hid))
  refine ⟨crowdingPage bound item, @notMem_merge_crowdingPage bound item s.graph
    s.protectedNodeIds hk ?_ ?_⟩
  · exact hlonger k List.mem_cons_self
  · exact fun id hid ↦ hlonger id (List.mem_cons_of_mem _ hid)

/-- Some page of records drops any item. -/
theorem recordedOut (s : Search) (k : String) :
    ∃ page : EvidenceGraph,
      k ∉ (mergeGraphs [s.graph, page] (s.protectedNodeIds ++ page.nodeIds)).nodeIds := by
  let item : GraphNode := { id := k, kind := .capability, label := "" }
  refine ⟨recordsPage (k.length + 1) item, @notMem_merge_recordsPage _ item s.graph _
    (Nat.lt_succ_self _) ?_⟩
  intro id hid
  apply List.mem_append_right
  unfold EvidenceGraph.nodeIds recordsPage
  rw [List.map_append]
  exact List.mem_append_left _ hid

/-- Reads that fail bring nothing back. -/
theorem notMem_failedReads {hasCatalog : Bool} {focus : List String} {s : Search}
    (count : Nat) (hk : k ∉ s.graph.nodeIds) :
    k ∉ (((List.replicate count none).map Read.automatic).foldl (Search.read hasCatalog focus)
      s).graph.nodeIds := by
  intro hmem
  apply hk
  rw [← List.mem_toFinset]
  refine nodeIds_reads_within (fun k hk ↦ List.mem_toFinset.mpr hk) ?_ k hmem
  intro r hr k hk
  obtain ⟨found, hfound, rfl⟩ := List.mem_map.mp hr
  rw [(List.mem_replicate.mp hfound).2] at hk
  exact absurd hk List.not_mem_nil

private theorem graph_searchCatalog (page : EvidenceGraph) :
    ((c.withReads [] [.tool "search_catalog" (some page)]).search initial).graph =
      mergeGraphs [(c.focusedSearch initial).graph, page]
        (c.focusedSearch initial).protectedNodeIds := by
  rw [search_withReads]
  simp [Search.read]

/-- Without records, some results drop an item in focus that is not the account's. -/
theorem fetched_crowded_out {fields : CatalogFields} {canExpand : Bool}
    (hfetched : k ∉ initial.graph.nodeIds) :
    ∃ automatic rounds, c.Retrieved initial fields canExpand automatic rounds ∧
      (∀ r ∈ rounds, r.personal = {}) ∧
        k ∉ ((c.withReads automatic rounds).search initial).graph.nodeIds := by
  rw [← protected_focusedSearch (c := c)] at hfetched
  obtain ⟨page, hpage⟩ := crowdedOut hfetched
  cases hcount : (automaticIds fields canExpand (c.focus initial)
    (c.focusedSearch initial).graph).length with
  | zero =>
    refine ⟨[], [.tool "search_catalog" (some page)], ⟨hcount.symm, by simp [Read.InToolRound]⟩,
      by simp [Read.personal], ?_⟩
    rw [graph_searchCatalog]
    exact hpage
  | succ count =>
    refine ⟨some page :: List.replicate count none, [], ⟨by simp [hcount], by simp⟩, by simp, ?_⟩
    rw [search_withReads]
    exact notMem_failedReads count hpage

/-- With records, some results drop any item. -/
theorem focus_recorded_out (c : Conversation) (initial : WorkspaceEvidence) (k : String)
    (automatic : List (Option EvidenceGraph)) :
    ∃ page, k ∉ ((c.withReads automatic
      [.tool "read_personal_records" (some page)]).search initial).graph.nodeIds := by
  obtain ⟨page, hpage⟩ := recordedOut ((automatic.map Read.automatic).foldl
    (Search.read c.hasCatalog (c.focus initial)) (c.focusedSearch initial)) k
  refine ⟨page, ?_⟩
  rw [search_withReads]
  exact hpage

private theorem evidenceKept_of_focus (hlength : c.focusIds.length ≤ 8)
    (hfocus : ∀ k ∈ c.focus initial,
      k ∈ ((c.withReads automatic rounds).search initial).graph.nodeIds) :
    EvidenceKept (c.withReads automatic rounds) initial := by
  refine ⟨fun k hk hknown ↦ ?_, account_kept⟩
  have hfocused : k ∈ c.focus initial := (mem_focus hlength).mpr ⟨hk, hknown⟩
  refine ⟨hfocus k hfocused, ?_⟩
  unfold Conversation.prompt
  rw [focus_withReads]
  exact mem_allowedIds_of_focus length_focus_le hfocused (hfocus k hfocused)

/-- For every conversation and all results of its retrieval: the user's evidence is kept if all that
is read fits into the graph, or if the items in focus are sheltered and what is protected has room.
The nodes of the account are kept in every case, as long as what is protected has room. Other
results drop each item in focus that had to be fetched, even without records; and after any
automatic reads some records drop each item in focus. `src/jobtology_be/chat/workspace.py:93–283`,
`src/jobtology_be/chat/workspace_models.py:109–136`, `src/jobtology_be/chat/evidence.py:7–33`. -/
theorem evidence_kept_of_room (c : Conversation) (initial : WorkspaceEvidence)
    (fields : CatalogFields) (canExpand : Bool) (hlength : c.focusIds.length ≤ 8) :
    (∀ automatic rounds, c.Retrieved initial fields canExpand automatic rounds →
      c.FewRead initial automatic rounds ∨
        c.Sheltered initial automatic ∧ c.ProtectedRoom initial automatic rounds →
      EvidenceKept (c.withReads automatic rounds) initial) ∧
    (∀ automatic rounds, ((c.withReads automatic rounds).search initial).ProtectedFit →
      initial.graph.nodeIds ⊆ ((c.withReads automatic rounds).search initial).graph.nodeIds ∧
      (c.Sheltered initial automatic → EvidenceKept (c.withReads automatic rounds) initial)) ∧
    (∀ k ∈ c.focus initial, k ∉ initial.graph.nodeIds → ∃ automatic rounds,
      c.Retrieved initial fields canExpand automatic rounds ∧ (∀ r ∈ rounds, r.personal = {}) ∧
        k ∉ ((c.withReads automatic rounds).search initial).graph.nodeIds) ∧
    ∀ k ∈ c.focus initial, ∀ automatic, c.Retrieved initial fields canExpand automatic [] →
      ∃ rounds, c.Retrieved initial fields canExpand automatic rounds ∧
        k ∉ ((c.withReads automatic rounds).search initial).graph.nodeIds := by
  refine ⟨fun automatic rounds hmade hroom ↦ evidenceKept_of_focus hlength fun k hk ↦ ?_,
    fun automatic rounds hfits ↦ ⟨account_kept hfits, fun hsheltered ↦
      evidenceKept_of_focus hlength fun k ↦ kept_of_sheltered hsheltered hfits⟩,
    fun k _ ↦ fetched_crowded_out, fun k _ automatic hmade ↦ ?_⟩
  · rcases hroom with hfew | ⟨hsheltered, hprotected⟩
    · exact kept_of_fewRead hfew (mem_focusedSearch_of_focus hk)
    · exact kept_of_sheltered hsheltered (protectedFit_of_room hmade.rounds hprotected) hk
  · obtain ⟨page, hout⟩ := focus_recorded_out c initial k automatic
    exact ⟨[.tool "read_personal_records" (some page)],
      ⟨hmade.automatic, by simp [Read.InToolRound]⟩, hout⟩

/-- A conversation about one item: the items in focus that are read come back with it. -/
def conversationAbout (item : GraphNode) : Conversation where
  hasCatalog := true
  focusIds := [item.id]
  focusedReads := [some { nodes := [item] }]
  reads := []
  relevance := fun _ ↦ 0
  selectSuggestions := fun suggestions ↦ suggestions
  selection := ⟨"answer", "", [], [], [], [], [], []⟩
  emitted := "answer"

/-- An account with a profile only. -/
def profileOnly : WorkspaceEvidence where
  graph := { nodes := [{ id := "profile", kind := .profile, label := "profile" }] }

/-- Evidence without the fields that only the automatic reads look at. -/
def noCatalogFields : CatalogFields := ⟨fun _ ↦ none, fun _ ↦ none, fun _ ↦ none⟩

/-- A page of the catalog without account nodes. -/
def technologyPage : Read :=
  .tool "search_catalog" (some { nodes := freshNodes 20 .technology 160 })

/-- A role in focus is read automatically, so the page does not crowd it out. -/
theorem evidence_kept_role :
    EvidenceKept ((conversationAbout { id := "role", kind := .role, label := "" }).withReads
      [none] [technologyPage]) profileOnly :=
  (evidence_kept_of_room (conversationAbout { id := "role", kind := .role, label := "" })
    profileOnly noCatalogFields true (by decide)).1 [none] [technologyPage]
      ⟨by decide +kernel, fun r hr ↦ by rw [List.mem_singleton.mp hr]; trivial⟩
      (.inr ⟨.inr ⟨by decide, by decide +kernel⟩, .inl (by decide +kernel)⟩)

/-- A qualification in focus is not read automatically, and the page crowds it out. -/
theorem qualification_crowded_out :
    let c := conversationAbout { id := "qualification", kind := .qualification, label := "" }
    c.Retrieved profileOnly noCatalogFields true [] [technologyPage] ∧
      ((c.withReads [] [technologyPage]).search profileOnly).ProtectedFit ∧
      "qualification" ∈ (c.focusedSearch profileOnly).graph.nodeIds ∧
      "qualification" ∉ ((c.withReads [] [technologyPage]).search profileOnly).graph.nodeIds ∧
      "qualification" ∉ ((c.withReads [] [technologyPage]).prompt profileOnly).allowedIds ∧
      ¬ EvidenceKept (c.withReads [] [technologyPage]) profileOnly := by
  have hout : "qualification" ∉ (((conversationAbout
      { id := "qualification", kind := .qualification, label := "" }).withReads []
        [technologyPage]).search profileOnly).graph.nodeIds := by
    unfold technologyPage
    rw [graph_searchCatalog]
    exact @notMem_merge_technologies 20
      { id := "qualification", kind := .qualification, label := "" } _ _ profileOnly.graph.nodes
      (by decide +kernel) (by decide +kernel) (by decide +kernel) (by decide) (by decide +kernel)
  refine ⟨⟨by decide +kernel, fun r hr ↦ by rw [List.mem_singleton.mp hr]; trivial⟩,
    by decide +kernel, by decide +kernel, hout, fun hmem ↦ hout (allowedIds_subset hmem),
    fun hkept ↦ hout ?_⟩
  exact (hkept.focus "qualification" (by decide) (by decide +kernel)).1

end Retrieval

end Jobtology.Chat
