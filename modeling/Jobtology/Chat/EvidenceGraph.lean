import Jobtology.Base.Dictionary

/-!
# Evidence graphs

The request-only evidence contracts of `workspace_models.py` and the bounded neighbourhood of
`evidence.py`. Every merge keeps at most 160 nodes and 320 edges. Fields that no step of an answer
reads are left out.
-/

namespace Jobtology.Chat

open Jobtology.Base

/-- `NodeKind`. -/
inductive NodeKind
  | role
  | ncsOccupation
  | ncsCompetency
  | onetOccupation
  | onetSkill
  | technology
  | qualification
  | examSession
  | posting
  | postingEvidence
  | publication
  | profile
  | goal
  | capability
  | analysis
  | activity
  | preferences
  deriving DecidableEq

/-- `Basis`. -/
inductive Basis
  | reference
  | metadataInferred
  | applicationContextSelection
  | userReported
  | applicationRecord
  | reviewedRequirement
  | proposed
  deriving DecidableEq

/-- `GraphNode`. `src/jobtology_be/chat/workspace_models.py:24–36`. -/
structure GraphNode where
  id : String
  kind : NodeKind
  label : String
  detail : Option String := none
  basis : Basis := .reference
  href : Option String := none
  sourcePin : Option String := none
  deriving DecidableEq

/-- `GraphEdge`. `src/jobtology_be/chat/workspace_models.py:39–54`. -/
structure GraphEdge where
  id : String
  source : String
  target : String
  kind : String
  basis : Basis
  explanation : String := ""
  deriving DecidableEq

/-- `EvidenceGraph`. `src/jobtology_be/chat/workspace_models.py:57–61`. -/
structure EvidenceGraph where
  nodes : List GraphNode := []
  edges : List GraphEdge := []
  truncated : Bool := false
  warnings : List String := []
  deriving DecidableEq

/-- The ids of the nodes. -/
def EvidenceGraph.nodeIds (graph : EvidenceGraph) : List String := graph.nodes.map (·.id)

/-- The ids of the edges. -/
def EvidenceGraph.edgeIds (graph : EvidenceGraph) : List String := graph.edges.map (·.id)

/-- `EvidenceSource`. `src/jobtology_be/chat/workspace_models.py:64–72`. -/
structure EvidenceSource where
  id : String
  title : String
  text : String
  nodeIds : List String
  edgeIds : List String := []
  basis : Basis
  href : Option String := none
  sourcePin : Option String := none
  deriving DecidableEq

/-- `edge`. `src/jobtology_be/chat/workspace_models.py:103–106`. -/
def edge (source target kind : String) (basis : Basis) (explanation : String := "") : GraphEdge :=
  ⟨"edge:" ++ source ++ "|" ++ kind ++ "|" ++ target, source, target, kind, basis, explanation⟩

/-- The last elements of a sequence, `xs[-count:]` for a positive count. -/
def lastElements {α : Type} (count : Nat) (xs : List α) : List α := xs.drop (xs.length - count)

/-- The nodes that `merge_graphs` keeps: protected ones first, then a few account nodes, then the
most recent. -/
def keptNodes (requestedIds : List String) (nodes : List GraphNode) : List GraphNode :=
  let requested := (nodes.filter fun n ↦ n.id ∈ requestedIds).take 160
  let account := (nodes.filter fun n ↦ n.id ∉ requested.map (·.id) ∧
    n.kind ∈ [.profile, .goal, .role, .preferences]).take (min 16 (160 - requested.length))
  let isProtected := requested ++ account
  let recent := lastElements (160 - isProtected.length)
    (nodes.filter fun n ↦ n.id ∉ isProtected.map (·.id))
  dictOf (·.id) (isProtected ++ recent)

/-- An edge of a protected node. -/
def GraphEdge.Touches (requestedIds : List String) (e : GraphEdge) : Prop :=
  e.source ∈ requestedIds ∨ e.target ∈ requestedIds

instance (requestedIds : List String) (e : GraphEdge) : Decidable (e.Touches requestedIds) :=
  inferInstanceAs (Decidable (_ ∨ _))

/-- The edges that `merge_graphs` keeps: the first edges of protected nodes, then the most
recent. -/
def keptEdges (requestedIds : List String) (edges : List GraphEdge) : List GraphEdge :=
  let personalEdges := (edges.filter fun e ↦ e.Touches requestedIds).take 320
  personalEdges ++ lastElements (320 - personalEdges.length)
    (edges.filter fun e ↦ e.id ∉ personalEdges.map (·.id))

/-- `merge_graphs`. `src/jobtology_be/chat/workspace_models.py:109–136`. -/
def mergeGraphs (graphs : List EvidenceGraph) (protectedNodeIds : List String) : EvidenceGraph :=
  let nodes := latest (·.id) (graphs.flatMap (·.nodes))
  let kept := keptNodes protectedNodeIds nodes
  let edges := latest (·.id) ((graphs.flatMap (·.edges)).filter fun e ↦
    e.source ∈ kept.map (·.id) ∧ e.target ∈ kept.map (·.id))
  { nodes := kept
    edges := keptEdges protectedNodeIds edges
    warnings := (graphs.flatMap (·.warnings)).eraseDups
    truncated := graphs.any (·.truncated) || decide (160 < nodes.length) ||
      decide (320 < edges.length) }

/-- The first characters of a text. -/
def firstCharacters (count : Nat) (text : String) : String := String.ofList (text.toList.take count)

/-- `sources_for`. `src/jobtology_be/chat/workspace_models.py:139–145`. -/
def sourcesFor (graph : EvidenceGraph) : List EvidenceSource :=
  graph.nodes.map fun node ↦
    { id := node.id
      title := node.label
      text := firstCharacters 1800 ((node.detail.filter (· ≠ "")).getD node.label)
      nodeIds := [node.id]
      edgeIds := (graph.edges.filter fun e ↦ node.id = e.source ∨ node.id = e.target).map (·.id)
      basis := node.basis
      href := node.href
      sourcePin := node.sourcePin }

/-! ### Neighbourhood of the focus -/

/-- The neighbours of a node that the neighbourhood may still take. -/
def neighborsOf (graph : EvidenceGraph) (kept : List String) (rootIsPosting : Bool)
    (parent : String) : List String :=
  (graph.edges.filterMap fun link ↦ do
    let key ← if link.source = parent then some link.target
      else if link.target = parent then some link.source else none
    let node ← lookupLast (·.id) graph.nodes key
    if key ∉ kept ∧ ¬ (rootIsPosting ∧ node.kind ∈ [.posting, .postingEvidence]) then some key
    else none).eraseDups

/-- The rows of neighbours read column by column, so that each parent has room. -/
def interleave (rows : List (List String)) : List String :=
  (List.range ((rows.map (·.length)).foldr max 0)).flatMap fun i ↦ rows.filterMap (·[i]?)

/-- The keys that a neighbourhood of a limited size takes next. -/
def takeFollowing (limit : Int) (kept : List String) : List String → List String
  | [] => []
  | key :: rest =>
    if kept.length < limit then key :: takeFollowing limit (kept ++ [key]) rest
    else takeFollowing limit kept rest

/-- The rounds of `focus_neighborhood`. -/
def expandFocus (graph : EvidenceGraph) (limit : Int) (rootIsPosting : Bool) :
    Nat → List String → List String → List String
  | 0, kept, _ => kept
  | rounds + 1, kept, frontier =>
    let following := interleave (frontier.map (neighborsOf graph kept rootIsPosting))
    let next := takeFollowing limit kept following.eraseDups
    if next = [] then kept else expandFocus graph limit rootIsPosting rounds (kept ++ next) next

/-- `focus_neighborhood`. `src/jobtology_be/chat/evidence.py:7–33`. -/
def focusNeighborhood (graph : EvidenceGraph) (focusIds : List String) (limit : Int := 24) :
    EvidenceGraph :=
  let roots := (focusIds.filter (· ∈ graph.nodeIds)).eraseDups
  let rootIsPosting := roots.any fun key ↦
    (lookupLast (·.id) graph.nodes key).any (·.kind = .posting)
  let kept := expandFocus graph limit rootIsPosting 3 roots roots
  { nodes := kept.filterMap (lookupLast (·.id) graph.nodes)
    edges := graph.edges.filter fun link ↦ link.source ∈ kept ∧ link.target ∈ kept
    warnings := graph.warnings
    truncated := graph.truncated ||
      decide (kept.length < (dictOf (·.id) graph.nodes).length) }

end Jobtology.Chat
