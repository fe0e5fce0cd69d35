import Jobtology.Chat.EvidenceGraph
import Mathlib.Data.List.Sort

/-!
# Answers of the chat workspace

`_events` of `workspace.py`: the graph is merged with the result of every read, the model is handed
a ledger of sources and relationships, and the answer is composed from what it selects. Which
reads are made is up to the conversation, so their results come as they are; the relevance of a
source to the question and the choice of suggestions are functions of the texts alone.
-/

namespace Jobtology.Chat

open Jobtology.Base

/-- `GraphAction.type`. -/
inductive ActionType
  | add
  | highlight
  | focus
  | filter
  | expand
  deriving DecidableEq

/-- `GraphAction`. `src/jobtology_be/chat/workspace_models.py:75–79`. -/
structure GraphAction where
  type : ActionType
  nodeIds : List String := []
  edgeIds : List String := []
  kinds : List NodeKind := []
  deriving DecidableEq

/-- `WorkspaceEvidence`. `src/jobtology_be/chat/workspace_models.py:82–87`. -/
structure WorkspaceEvidence where
  goalId : Option Uuid := none
  occupationId : Option String := none
  graph : EvidenceGraph := {}
  sources : List EvidenceSource := []
  warnings : List String := []

/-- `WorkspaceAnswer`. `src/jobtology_be/chat/workspace_models.py:90–94`. -/
structure WorkspaceAnswer extends WorkspaceEvidence where
  reply : String
  explanation : String
  actions : List GraphAction := []
  suggestions : List String := []

/-- `ProposedConnection`. `src/jobtology_be/chat/workspace.py:36–40`. -/
structure ProposedConnection where
  source : String
  target : String
  explanation : String
  deriving DecidableEq

/-- `AnswerSelection`. `src/jobtology_be/chat/workspace.py:43–52`. -/
structure AnswerSelection where
  reply : String
  explanation : String
  sourceIds : List String
  nodeIds : List String
  edgeIds : List String
  filterKinds : List NodeKind
  suggestions : List String
  proposedConnections : List ProposedConnection

/-- The bounds that `AnswerSelection` validates. -/
def AnswerSelection.Valid (selection : AnswerSelection) : Prop :=
  (1 ≤ selection.reply.length ∧ selection.reply.length ≤ 6000) ∧
    selection.explanation.length ≤ 800 ∧ selection.sourceIds.length ≤ 12 ∧
    selection.nodeIds.length ≤ 40 ∧ selection.edgeIds.length ≤ 60 ∧
    selection.filterKinds.length ≤ 8 ∧ selection.suggestions.length ≤ 3 ∧
    selection.proposedConnections.length ≤ 4 ∧
    ∀ item ∈ selection.proposedConnections,
      1 ≤ item.explanation.length ∧ item.explanation.length ≤ 300

instance (selection : AnswerSelection) : Decidable selection.Valid :=
  inferInstanceAs (Decidable (_ ∧ _))

/-! ### Reads -/

/-- What a read comes back with. -/
inductive Read
  /-- A catalog item in focus, or its failure. -/
  | focused (found : Option EvidenceGraph)
  /-- The neighbourhood of a selected item, or its failure. -/
  | automatic (found : Option EvidenceGraph)
  /-- A tool that the model called, or its failure. -/
  | tool (name : String) (found : Option EvidenceGraph)
  /-- The search stops with a warning. -/
  | stopped (warning : String)

/-- The evidence found so far. -/
structure Search where
  graph : EvidenceGraph
  protectedNodeIds : List String
  warnings : List String
  expanded : Bool := false

/-- Before the first read. -/
def Search.start (initial : WorkspaceEvidence) : Search where
  graph := initial.graph
  protectedNodeIds := initial.graph.nodeIds
  warnings := initial.warnings

/-- The ids in focus once the focused items are read. -/
def focusOf (focusIds : List String) (graph : EvidenceGraph) : List String :=
  (focusIds.filter (· ∈ graph.nodeIds)).take 8

/-- The warning of a tool that fails. -/
def toolWarning (hasCatalog : Bool) (name : String) : String :=
  if name = "read_personal_records" then "PERSONAL_CONTEXT_UNAVAILABLE"
  else if hasCatalog then "CATALOG_PARTIALLY_UNAVAILABLE" else "CATALOG_UNAVAILABLE"

/-- One read. A failed read merges an empty graph, but for a focused item. -/
def Search.read (hasCatalog : Bool) (focus : List String) (s : Search) : Read → Search
  | .focused none => { s with warnings := s.warnings ++ ["FOCUSED_SOURCE_UNAVAILABLE"] }
  | .focused (some found) => { s with graph := mergeGraphs [s.graph, found] s.protectedNodeIds }
  | .automatic result =>
    let found := result.getD {}
    let graph := mergeGraphs [s.graph, found] s.protectedNodeIds
    { s with
      graph := graph
      protectedNodeIds := s.protectedNodeIds ++ (focusNeighborhood graph focus).nodeIds
      warnings := s.warnings ++ found.warnings ++
        if result.isNone then ["FOCUSED_SOURCE_UNAVAILABLE"] else [] }
  | .tool name result =>
    let found := result.getD {}
    let protectedNodeIds := s.protectedNodeIds ++
      if name = "read_personal_records" then found.nodeIds else []
    { graph := mergeGraphs [s.graph, found] protectedNodeIds
      protectedNodeIds := protectedNodeIds
      warnings := s.warnings ++ found.warnings ++
        if result.isNone then [toolWarning hasCatalog name] else []
      expanded := s.expanded || decide (name = "expand_connections" ∧ result.isSome) }
  | .stopped warning => { s with warnings := s.warnings ++ [warning] }

/-! ### The ledger -/

/-- What the model is handed: sources it may cite, and relationships it may select. -/
structure Prompt where
  ledger : List EvidenceSource
  edges : List GraphEdge

/-- The ids of the ledger, `allowed_ids`. -/
def Prompt.allowedIds (prompt : Prompt) : List String := prompt.ledger.map (·.id)

/-- `ranked`: the most relevant first, in their order otherwise.
`src/jobtology_be/chat/personal.py:65–67`. -/
def ranked (relevance : EvidenceSource → Nat) (limit : Nat) (items : List EvidenceSource) :
    List EvidenceSource :=
  (items.insertionSort fun a b ↦ relevance b ≤ relevance a).take limit

/-- Relationships of the focus first, then those within its neighbourhood. -/
def edgeRank (focus focusedIds : List String) (e : GraphEdge) : Nat :=
  (if e.source ∈ focus ∨ e.target ∈ focus then 0 else 2) +
    if e.source ∈ focusedIds ∧ e.target ∈ focusedIds then 0 else 1

/-- The ledger and the relationships between its sources. -/
def promptOf (relevance : EvidenceSource → Nat) (focus : List String) (graph : EvidenceGraph) :
    Prompt :=
  let sources := sourcesFor graph
  let ranking := ranked relevance 160 sources
  let seed := focus ++ (ranking.take 8).map (·.id)
  let neighborIds := (graph.edges.filter fun e ↦ e.source ∈ seed ∨ e.target ∈ seed).map fun e ↦
    if e.source ∈ seed then e.target else e.source
  let connected := sources.filter (·.id ∈ neighborIds)
  let focusedSources := sources.filter (·.id ∈ focus)
  let focusedIds := (focusNeighborhood graph focus).nodeIds
  let focusedNeighbors := sources.filter fun s ↦ s.id ∈ focusedIds ∧ s.id ∉ focus
  let selected := (dictOf (·.id) (focusedSources ++ focusedNeighbors ++ ranking.take 8 ++
    connected.take 16 ++ ranking)).take 32
  let ledger := selected.map fun s ↦ { s with text := firstCharacters 600 s.text }
  let allowedIds := ledger.map (·.id)
  { ledger := ledger
    edges := ((graph.edges.filter fun e ↦ e.source ∈ allowedIds ∧ e.target ∈ allowedIds)
      |>.insertionSort fun a b ↦
        edgeRank focus focusedIds a ≤ edgeRank focus focusedIds b).take 80 }

/-! ### The answer -/

/-- The proposed connections that join two sources of the ledger. -/
def acceptedConnections (prompt : Prompt) (selection : AnswerSelection) :
    List ProposedConnection :=
  selection.proposedConnections.filter fun item ↦
    item.source ∈ prompt.allowedIds ∧ item.target ∈ prompt.allowedIds ∧ item.source ≠ item.target

/-- The edge of a proposed connection. -/
def ProposedConnection.edge (item : ProposedConnection) : GraphEdge :=
  Chat.edge item.source item.target "SUGGESTED_LINK" .proposed item.explanation

/-- The edges of the accepted connections. -/
def proposedEdges (prompt : Prompt) (selection : AnswerSelection) : List GraphEdge :=
  (acceptedConnections prompt selection).map (·.edge)

/-- The graph with the proposed edges. -/
def answerGraph (s : Search) (proposed : List GraphEdge) : EvidenceGraph :=
  if proposed = [] then s.graph
  else mergeGraphs [s.graph, { edges := proposed }] s.protectedNodeIds

/-- The nodes that the answer highlights. -/
def highlightedNodes (prompt : Prompt) (selection : AnswerSelection)
    (cited : List EvidenceSource) (proposed : List GraphEdge) : List String :=
  ((selection.nodeIds.filter (· ∈ prompt.allowedIds) ++ cited.flatMap (·.nodeIds) ++
    proposed.flatMap fun e ↦ [e.source, e.target]).eraseDups).take 40

/-- The edges that the answer highlights. -/
def highlightedEdges (prompt : Prompt) (selection : AnswerSelection)
    (proposed : List GraphEdge) : List String :=
  selection.edgeIds.filter (· ∈ prompt.edges.map (·.id)) ++ proposed.map (·.id)

/-- The actions of an answer. -/
def answerActions (graph : EvidenceGraph) (selection : AnswerSelection) (expanded : Bool)
    (nodeIds edgeIds : List String) : List GraphAction :=
  [{ type := .add, nodeIds := graph.nodeIds },
    { type := .highlight, nodeIds := nodeIds, edgeIds := edgeIds }] ++
  (if nodeIds = [] then [] else [{ type := .focus, nodeIds := nodeIds }]) ++
  (if selection.filterKinds = [] then [] else
    [{ type := .filter, kinds := selection.filterKinds }]) ++
  if expanded then [{ type := .expand, nodeIds := graph.nodeIds }] else []

/-- The answer composed from what the model selects. -/
def composeAnswer (selectSuggestions : List String → List String) (initial : WorkspaceEvidence)
    (s : Search) (prompt : Prompt) (selection : AnswerSelection) : WorkspaceAnswer :=
  let proposed := proposedEdges prompt selection
  let graph := answerGraph s proposed
  let cited := (sourcesFor graph).filter fun source ↦
    source.id ∈ prompt.allowedIds ∧ source.id ∈ selection.sourceIds
  { goalId := initial.goalId
    occupationId := initial.occupationId
    graph := graph
    sources := cited
    warnings := s.warnings.eraseDups
    reply := selection.reply
    explanation := selection.explanation
    actions := answerActions graph selection s.expanded
      (highlightedNodes prompt selection cited proposed)
      (highlightedEdges prompt selection proposed)
    suggestions := selectSuggestions selection.suggestions }

/-- What a conversation brings: the ids in focus, what the reads come back with, and the answer
of the model with the reply that was streamed before it. -/
structure Conversation where
  hasCatalog : Bool
  focusIds : List String
  focusedReads : List (Option EvidenceGraph)
  reads : List Read
  relevance : EvidenceSource → Nat
  selectSuggestions : List String → List String
  selection : AnswerSelection
  emitted : String

namespace Conversation

/-- The evidence once the focused items are read. -/
def focusedSearch (c : Conversation) (initial : WorkspaceEvidence) : Search :=
  (c.focusedReads.map .focused).foldl (Search.read c.hasCatalog []) (.start initial)

/-- The ids in focus. -/
def focus (c : Conversation) (initial : WorkspaceEvidence) : List String :=
  focusOf c.focusIds (c.focusedSearch initial).graph

/-- The evidence that the answer is asked for with. -/
def search (c : Conversation) (initial : WorkspaceEvidence) : Search :=
  c.reads.foldl (Search.read c.hasCatalog (c.focus initial)) (c.focusedSearch initial)

/-- What the model is handed. -/
def prompt (c : Conversation) (initial : WorkspaceEvidence) : Prompt :=
  promptOf c.relevance (c.focus initial) (c.search initial).graph

/-- The answer of `_events`. None is emitted when the selection does not validate, or when its
reply is not the one that was streamed. -/
def answer (c : Conversation) (initial : WorkspaceEvidence) : Option WorkspaceAnswer :=
  if c.selection.Valid ∧ c.selection.reply = c.emitted then
    some (composeAnswer c.selectSuggestions initial (c.search initial) (c.prompt initial)
      c.selection)
  else none

end Conversation

end Jobtology.Chat
