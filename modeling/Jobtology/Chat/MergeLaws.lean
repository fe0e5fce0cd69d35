import Jobtology.Chat.EvidenceGraph
import Mathlib.Data.Finset.Card

/-!
# Laws of the merge

Every merged graph is closed, has unique ids and stays within the caps, and a merge that fits
drops nothing. The edges that a merge drops beyond the cap are named by their position.
-/

namespace Jobtology.Chat

open Jobtology.Base

/-! ### Ends of a sequence -/

section Sequences

variable {α : Type} {xs ys : List α} {e : α} {count : Nat}

private theorem lastElements_sublist (count : Nat) (xs : List α) :
    (lastElements count xs).Sublist xs :=
  List.drop_sublist _ _

private theorem length_lastElements (count : Nat) (xs : List α) :
    (lastElements count xs).length = min count xs.length := by
  unfold lastElements
  rw [List.length_drop]
  omega

private theorem lastElements_eq_self (h : xs.length ≤ count) : lastElements count xs = xs := by
  unfold lastElements
  rw [Nat.sub_eq_zero_of_le h, List.drop_zero]

/-- Which first elements hold an element. -/
theorem mem_take_iff (h : e ∉ xs) : e ∈ (xs ++ e :: ys).take count ↔ xs.length < count := by
  rw [List.take_append, List.mem_append]
  constructor
  · rintro (hmem | hmem)
    · exact absurd (List.mem_of_mem_take hmem) h
    · by_contra hle
      rw [Nat.sub_eq_zero_of_le (not_lt.mp hle), List.take_zero] at hmem
      exact absurd hmem List.not_mem_nil
  · intro hlt
    obtain ⟨k, hk⟩ := Nat.exists_eq_add_of_lt hlt
    have hpos : count - xs.length = k + 1 := by omega
    rw [hpos, List.take_succ_cons]
    exact .inr List.mem_cons_self

/-- Which last elements hold an element. -/
theorem mem_lastElements_iff (h : e ∉ ys) :
    e ∈ lastElements count (xs ++ e :: ys) ↔ ys.length < count := by
  unfold lastElements
  rw [List.length_append, List.length_cons, List.drop_append, List.mem_append]
  constructor
  · rintro (hmem | hmem)
    · by_contra hle
      rw [List.drop_of_length_le (by omega)] at hmem
      exact absurd hmem List.not_mem_nil
    · by_contra hle
      obtain ⟨k, hk⟩ := Nat.exists_eq_add_of_le (not_lt.mp hle)
      have hpos : xs.length + (ys.length + 1) - count - xs.length = k + 1 := by omega
      rw [hpos, List.drop_succ_cons] at hmem
      exact h (List.mem_of_mem_drop hmem)
  · intro hlt
    right
    have hzero : xs.length + (ys.length + 1) - count - xs.length = 0 := by omega
    rw [hzero, List.drop_zero]
    exact List.mem_cons_self

end Sequences

/-! ### Well-formed graphs -/

/-- Both ends of every edge are nodes. -/
def EvidenceGraph.Closed (graph : EvidenceGraph) : Prop :=
  ∀ e ∈ graph.edges, e.source ∈ graph.nodeIds ∧ e.target ∈ graph.nodeIds

/-- At most 160 nodes and 320 edges. -/
def EvidenceGraph.WithinCaps (graph : EvidenceGraph) : Prop :=
  graph.nodes.length ≤ 160 ∧ graph.edges.length ≤ 320

/-- No id stands for two nodes or for two edges. -/
def EvidenceGraph.UniqueIds (graph : EvidenceGraph) : Prop :=
  graph.nodeIds.Nodup ∧ graph.edgeIds.Nodup

section KeptNodes

variable {requestedIds : List String} {nodes : List GraphNode}

/-- The nodes kept, before they are entered by id. -/
theorem keptNodes_segments (hnodup : (nodes.map (·.id)).Nodup) :
    ∃ requested account recent : List GraphNode,
      keptNodes requestedIds nodes = requested ++ account ++ recent ∧
      ((requested ++ account ++ recent).map (·.id)).Nodup ∧
      (∀ n ∈ requested ++ account ++ recent, n ∈ nodes) ∧
      (requested ++ account ++ recent).length ≤ 160 ∧
      recent = lastElements (160 - (requested ++ account).length)
        (nodes.filter fun n ↦ n.id ∉ (requested ++ account).map (·.id)) := by
  let requested := (nodes.filter fun n ↦ n.id ∈ requestedIds).take 160
  let account := (nodes.filter fun n ↦ n.id ∉ requested.map (·.id) ∧
    n.kind ∈ [.profile, .goal, .role, .preferences]).take (min 16 (160 - requested.length))
  let recent := lastElements (160 - (requested ++ account).length)
    (nodes.filter fun n ↦ n.id ∉ (requested ++ account).map (·.id))
  have hrequested : requested.Sublist nodes := (List.take_sublist _ _).trans List.filter_sublist
  have haccount : account.Sublist nodes := (List.take_sublist _ _).trans List.filter_sublist
  have hrecent : recent.Sublist nodes := (lastElements_sublist _ _).trans List.filter_sublist
  have hnew : ∀ n ∈ account, n.id ∉ requested.map (·.id) := by
    intro n hn
    have hmem := List.of_mem_filter (List.mem_of_mem_take hn)
    simp only [decide_eq_true_eq] at hmem
    exact hmem.1
  have hother : ∀ n ∈ recent, n.id ∉ (requested ++ account).map (·.id) := by
    intro n hn
    have hmem := List.of_mem_filter ((lastElements_sublist _ _).subset hn)
    simpa only [decide_eq_true_eq] using hmem
  have hunique : ((requested ++ account ++ recent).map (·.id)).Nodup := by
    rw [List.map_append, List.map_append, List.nodup_append, List.nodup_append]
    refine ⟨⟨(hnodup.sublist (hrequested.map _)), (hnodup.sublist (haccount.map _)), ?_⟩,
      (hnodup.sublist (hrecent.map _)), ?_⟩
    · rintro a ha b hb rfl
      obtain ⟨n, hn, rfl⟩ := List.mem_map.mp hb
      exact hnew n hn ha
    · rintro a ha b hb rfl
      obtain ⟨n, hn, rfl⟩ := List.mem_map.mp hb
      rw [← List.map_append] at ha
      exact hother n hn ha
  refine ⟨requested, account, recent, ?_, hunique, ?_, ?_, rfl⟩
  · exact dictOf_eq_self hunique
  · intro n hn
    rcases List.mem_append.mp hn with hn | hn
    · rcases List.mem_append.mp hn with hn | hn
      · exact hrequested.subset hn
      · exact haccount.subset hn
    · exact hrecent.subset hn
  · have hfirst : requested.length ≤ 160 := List.length_take_le _ _
    have hsecond : account.length ≤ min 16 (160 - requested.length) := List.length_take_le _ _
    have hthird : recent.length ≤ 160 - (requested ++ account).length := by
      rw [length_lastElements]
      exact min_le_left _ _
    rw [List.length_append] at hthird ⊢
    rw [List.length_append]
    omega

private theorem nodup_keptNodes (hnodup : (nodes.map (·.id)).Nodup) :
    ((keptNodes requestedIds nodes).map (·.id)).Nodup := by
  obtain ⟨_, _, _, heq, hunique, -⟩ := keptNodes_segments hnodup
  rw [heq]
  exact hunique

private theorem length_keptNodes (hnodup : (nodes.map (·.id)).Nodup) :
    (keptNodes requestedIds nodes).length ≤ 160 := by
  obtain ⟨_, _, _, heq, -, -, hlength, -⟩ := keptNodes_segments hnodup
  rw [heq]
  exact hlength

/-- Nodes that fit are all kept. -/
theorem mem_keptNodes (hnodup : (nodes.map (·.id)).Nodup) (hfits : nodes.length ≤ 160)
    {n : GraphNode} (hn : n ∈ nodes) : n ∈ keptNodes requestedIds nodes := by
  obtain ⟨requested, account, recent, heq, hunique, hsub, -, hrecent⟩ := keptNodes_segments hnodup
  let others := nodes.filter fun n ↦ n.id ∉ (requested ++ account).map (·.id)
  have hroom : others.length ≤ 160 - (requested ++ account).length := by
    have hall : ((requested ++ account) ++ others).Nodup := by
      refine List.Nodup.of_map (·.id) ?_
      rw [List.map_append, List.nodup_append]
      refine ⟨?_, hnodup.sublist (List.filter_sublist.map _), ?_⟩
      · rw [List.map_append, List.nodup_append] at hunique
        exact hunique.1
      · rintro a ha b hb rfl
        obtain ⟨m, hm, rfl⟩ := List.mem_map.mp hb
        have hmem := List.of_mem_filter hm
        simp only [decide_eq_true_eq] at hmem
        exact hmem ha
    have hsubset : (requested ++ account) ++ others ⊆ nodes := by
      intro m hm
      rcases List.mem_append.mp hm with hm | hm
      · exact hsub m (List.mem_append_left _ hm)
      · exact List.mem_of_mem_filter hm
    have hle := (hall.subperm hsubset).length_le
    rw [List.length_append] at hle
    omega
  rw [heq]
  by_cases hid : n.id ∈ (requested ++ account).map (·.id)
  · obtain ⟨m, hm, hmid⟩ := List.mem_map.mp hid
    obtain rfl : m = n :=
      List.inj_on_of_nodup_map hnodup (hsub m (List.mem_append_left _ hm)) hn hmid
    exact List.mem_append_left _ hm
  · refine List.mem_append_right _ ?_
    rw [hrecent, lastElements_eq_self hroom]
    exact List.mem_filter.mpr ⟨hn, decide_eq_true hid⟩

/-- Nothing else than the nodes is kept. -/
theorem mem_of_mem_keptNodes (hnodup : (nodes.map (·.id)).Nodup) {n : GraphNode}
    (hn : n ∈ keptNodes requestedIds nodes) : n ∈ nodes := by
  obtain ⟨_, _, _, heq, -, hsub, -⟩ := keptNodes_segments hnodup
  rw [heq] at hn
  exact hsub n hn

/-- Protected nodes that fit are all kept. -/
theorem mem_keptNodes_of_few {id : String} (hid : id ∈ requestedIds)
    (hfits : (nodes.filter fun n ↦ n.id ∈ requestedIds).length ≤ 160)
    (hnode : id ∈ nodes.map (·.id)) : id ∈ (keptNodes requestedIds nodes).map (·.id) := by
  obtain ⟨n, hn, rfl⟩ := List.mem_map.mp hnode
  unfold keptNodes
  rw [mem_keys_dictOf]
  apply List.mem_map_of_mem
  apply List.mem_append_left
  apply List.mem_append_left
  rw [List.take_of_length_le hfits]
  exact List.mem_filter.mpr ⟨hn, decide_eq_true hid⟩

/-- Protected nodes are all kept when no more ids are protected than fit. -/
theorem mem_keptNodes_of_requested (hnodup : (nodes.map (·.id)).Nodup)
    (hfits : requestedIds.toFinset.card ≤ 160) {id : String} (hid : id ∈ requestedIds)
    (hnode : id ∈ nodes.map (·.id)) : id ∈ (keptNodes requestedIds nodes).map (·.id) := by
  let matching := nodes.filter fun n ↦ n.id ∈ requestedIds
  have hunique : (matching.map (·.id)).Nodup := hnodup.sublist (List.filter_sublist.map _)
  have hsubset : (matching.map (·.id)).toFinset ⊆ requestedIds.toFinset := by
    intro key hkey
    obtain ⟨n, hn, rfl⟩ := List.mem_map.mp (List.mem_toFinset.mp hkey)
    exact List.mem_toFinset.mpr (of_decide_eq_true (List.mem_filter.mp hn).2)
  have hcard := Finset.card_le_card hsubset
  rw [List.toFinset_card_of_nodup hunique, List.length_map] at hcard
  exact mem_keptNodes_of_few hid (hcard.trans hfits) hnode

/-- A node that is not protected is not kept once 160 nodes that are neither protected nor account
nodes come after it, and, if it is an account node, 16 of them come before it. -/
theorem notMem_keptNodes {before after : List GraphNode} {n : GraphNode}
    (hnodup : ((before ++ n :: after).map (·.id)).Nodup) (hid : n.id ∉ requestedIds)
    (haccount : n.kind ∈ [.profile, .goal, .role, .preferences] →
      16 ≤ before.countP fun m ↦ m.id ∉ requestedIds ∧
        m.kind ∈ [.profile, .goal, .role, .preferences])
    (hafter : 160 ≤ after.length) (hothers : ∀ m ∈ after, m.id ∉ requestedIds ∧
      m.kind ∉ [.profile, .goal, .role, .preferences]) :
    n.id ∉ (keptNodes requestedIds (before ++ n :: after)).map (·.id) := by
  let nodes := before ++ n :: after
  let requested := (nodes.filter fun n ↦ n.id ∈ requestedIds).take 160
  let candidates := fun m : GraphNode ↦ decide (m.id ∉ requested.map (·.id) ∧
    m.kind ∈ [.profile, .goal, .role, .preferences])
  let account := (nodes.filter candidates).take (min 16 (160 - requested.length))
  let others := fun m : GraphNode ↦ decide (m.id ∉ (requested ++ account).map (·.id))
  have hall := hnodup
  rw [List.map_append, List.map_cons, List.nodup_append, List.nodup_cons] at hall
  have hbefore : n.id ∉ before.map (·.id) := fun h ↦ hall.2.2 _ h _ List.mem_cons_self rfl
  have hlast : n.id ∉ after.map (·.id) := hall.2.1.1
  have hrequested : ∀ m ∈ requested, m.id ∈ requestedIds := by
    intro m hm
    exact of_decide_eq_true (List.mem_filter.mp (List.mem_of_mem_take hm)).2
  have hfirst : n.id ∉ requested.map (·.id) := by
    intro h
    obtain ⟨m, hm, heq⟩ := List.mem_map.mp h
    exact hid (heq ▸ hrequested m hm)
  have hnew : ∀ m : GraphNode, m.id ∉ requestedIds → m.id ∉ requested.map (·.id) := by
    intro m hm h
    obtain ⟨m', hm', heq⟩ := List.mem_map.mp h
    exact hm (heq ▸ hrequested m' hm')
  -- The account nodes that are kept all come before the node.
  have hsecond : ∀ m ∈ account, m ∈ before := by
    have hsplit : nodes.filter candidates =
        before.filter candidates ++ (n :: after).filter candidates := List.filter_append ..
    intro m hm
    have htake : m ∈ (nodes.filter candidates).take (min 16 (160 - requested.length)) := hm
    by_cases hkind : n.kind ∈ [.profile, .goal, .role, .preferences]
    · have hcount : 16 ≤ (before.filter candidates).length := by
        rw [← List.countP_eq_length_filter]
        apply (haccount hkind).trans
        apply List.countP_mono_left
        intro m _ hm
        have hm' := of_decide_eq_true hm
        exact decide_eq_true ⟨hnew m hm'.1, hm'.2⟩
      rw [hsplit, List.take_append_of_le_length (by omega)] at htake
      exact List.mem_of_mem_filter (List.mem_of_mem_take htake)
    · have hnone : (n :: after).filter candidates = [] := by
        rw [List.filter_eq_nil_iff]
        intro m' hm' hcandidate
        have hmkind := (of_decide_eq_true hcandidate).2
        rcases List.mem_cons.mp hm' with rfl | hm'
        · exact hkind hmkind
        · exact (hothers m' hm').2 hmkind
      rw [hsplit, hnone, List.append_nil] at htake
      exact List.mem_of_mem_filter (List.mem_of_mem_take htake)
  have hthird : n ∉ lastElements (160 - (requested ++ account).length) (nodes.filter others) := by
    have hrest : after.filter others = after := by
      apply List.filter_eq_self.mpr
      intro m hm
      apply decide_eq_true
      rw [List.map_append, List.mem_append, not_or]
      refine ⟨hnew m (hothers m hm).1, fun h ↦ ?_⟩
      obtain ⟨m', hm', heq⟩ := List.mem_map.mp h
      exact hall.2.2 _ (List.mem_map_of_mem (hsecond m' hm')) _
        (List.mem_cons_of_mem _ (List.mem_map_of_mem hm)) heq
    have hself : others n = true := by
      apply decide_eq_true
      rw [List.map_append, List.mem_append, not_or]
      refine ⟨hfirst, fun h ↦ ?_⟩
      obtain ⟨m', hm', heq⟩ := List.mem_map.mp h
      exact hbefore (heq ▸ List.mem_map_of_mem (hsecond m' hm'))
    have hsplit : nodes.filter others = before.filter others ++ n :: after.filter others := by
      rw [List.filter_append, List.filter_cons_of_pos hself]
    have hnot : n ∉ after := fun h ↦ hlast (List.mem_map_of_mem h)
    rw [hsplit, hrest, mem_lastElements_iff hnot]
    omega
  show n.id ∉ (dictOf (·.id) (requested ++ account ++
    lastElements (160 - (requested ++ account).length) (nodes.filter others))).map (·.id)
  rw [mem_keys_dictOf, List.map_append, List.map_append, List.mem_append, List.mem_append]
  rintro ((h | h) | h)
  · exact hfirst h
  · obtain ⟨m, hm, heq⟩ := List.mem_map.mp h
    exact hbefore (heq ▸ List.mem_map_of_mem (hsecond m hm))
  · obtain ⟨m, hm, heq⟩ := List.mem_map.mp h
    have hmem := (lastElements_sublist _ _).subset hm
    obtain rfl : m = n := List.inj_on_of_nodup_map hnodup (List.mem_of_mem_filter hmem)
      (List.mem_append_right _ List.mem_cons_self) heq
    exact hthird hm

/-- Nor is a protected node once 160 protected nodes come before it. -/
theorem notMem_keptNodes_of_full {before after : List GraphNode} {n : GraphNode}
    (hnodup : ((before ++ n :: after).map (·.id)).Nodup)
    (hfull : 160 ≤ before.countP (·.id ∈ requestedIds)) :
    n.id ∉ (keptNodes requestedIds (before ++ n :: after)).map (·.id) := by
  let requested := (before.filter fun m ↦ m.id ∈ requestedIds).take 160
  have hcount : 160 ≤ (before.filter fun m ↦ m.id ∈ requestedIds).length := by
    rw [← List.countP_eq_length_filter]
    exact hfull
  have hrequested : ((before ++ n :: after).filter fun m ↦ m.id ∈ requestedIds).take 160 =
      requested := by
    rw [List.filter_append, List.take_append_of_le_length hcount]
  have hlength : requested.length = 160 := by
    rw [List.length_take]
    exact min_eq_left hcount
  have hkept : keptNodes requestedIds (before ++ n :: after) = dictOf (·.id) requested := by
    unfold keptNodes
    dsimp only
    rw [hrequested, hlength, Nat.sub_self, Nat.min_zero, List.take_zero, List.append_nil, hlength,
      Nat.sub_self]
    unfold lastElements
    rw [Nat.sub_zero, List.drop_length, List.append_nil]
  rw [hkept, mem_keys_dictOf]
  intro hmem
  obtain ⟨m, hm, hid⟩ := List.mem_map.mp hmem
  have hbefore : m.id ∈ before.map (·.id) :=
    List.mem_map_of_mem (List.mem_of_mem_filter (List.mem_of_mem_take hm))
  rw [List.map_append, List.map_cons, List.nodup_append] at hnodup
  exact hnodup.2.2 _ hbefore _ List.mem_cons_self hid

end KeptNodes

section KeptEdges

variable {requestedIds : List String} {edges before after : List GraphEdge} {e : GraphEdge}

/-- The place of an edge leaves it in the merged graph: an edge of a protected node among the
first 320 of these, another one among the last that these leave room for. -/
def HasRoom (requestedIds : List String) (before : List GraphEdge) (e : GraphEdge)
    (after : List GraphEdge) : Prop :=
  if e.Touches requestedIds then before.countP (·.Touches requestedIds) < 320
  else (before ++ after).countP (·.Touches requestedIds) +
    after.countP (¬ ·.Touches requestedIds) < 320

/-- Among 320 edges, every one has room. -/
theorem hasRoom_of_few (h : before.length + after.length < 320) :
    HasRoom requestedIds before e after := by
  have hbefore := List.countP_le_length (p := fun x : GraphEdge ↦ x.Touches requestedIds)
    (l := before)
  have hafter := List.length_eq_countP_add_countP (fun x : GraphEdge ↦ x.Touches requestedIds)
    (l := after)
  simp only [decide_eq_true_eq] at hafter
  unfold HasRoom
  rw [List.countP_append]
  split
  · omega
  · omega

/-- An edge that is not its own predecessor or successor. -/
theorem not_mem_around (hnodup : ((before ++ e :: after).map (·.id)).Nodup) :
    e ∉ before ∧ e ∉ after := by
  have hall := hnodup.of_map
  rw [List.nodup_append, List.nodup_cons] at hall
  exact ⟨fun hmem ↦ hall.2.2 e hmem e List.mem_cons_self rfl, hall.2.1.1⟩

/-- An edge is kept exactly if its place has room. -/
theorem mem_keptEdges_iff (hnodup : ((before ++ e :: after).map (·.id)).Nodup) :
    e ∈ keptEdges requestedIds (before ++ e :: after) ↔ HasRoom requestedIds before e after := by
  obtain ⟨hbefore, hafter⟩ := not_mem_around hnodup
  let touches : GraphEdge → Bool := fun x ↦ x.Touches requestedIds
  let personal := ((before ++ e :: after).filter touches).take 320
  let rest := (before ++ e :: after).filter fun x ↦ x.id ∉ personal.map (·.id)
  have hcount : personal.length = min 320 ((before ++ e :: after).countP touches) := by
    rw [List.length_take, ← List.countP_eq_length_filter]
  have hfull (h : 320 ≤ personal.length) : lastElements (320 - personal.length) rest = [] := by
    apply List.eq_nil_of_length_eq_zero
    rw [length_lastElements]
    omega
  show e ∈ personal ++ lastElements (320 - personal.length) rest ↔ _
  unfold HasRoom
  rw [List.mem_append]
  by_cases htouches : e.Touches requestedIds
  · have hsplit : (before ++ e :: after).filter touches =
        before.filter touches ++ e :: after.filter touches := by
      have hpos : touches e = true := decide_eq_true htouches
      rw [List.filter_append, List.filter_cons_of_pos hpos]
    have hplace : e ∈ personal ↔ before.countP touches < 320 := by
      show e ∈ ((before ++ e :: after).filter touches).take 320 ↔ _
      rw [hsplit, mem_take_iff fun hmem ↦ hbefore (List.mem_of_mem_filter hmem),
        List.countP_eq_length_filter]
    rw [if_pos htouches, hplace]
    refine ⟨fun hmem ↦ hmem.resolve_right fun hrecent ↦ ?_, .inl⟩
    by_cases hroom : before.countP touches < 320
    · have hin := List.of_mem_filter ((lastElements_sublist _ _).subset hrecent)
      simp only [decide_eq_true_eq] at hin
      exact hin (List.mem_map_of_mem (hplace.mpr hroom))
    · have hle : before.countP touches ≤ (before ++ e :: after).countP touches := by
        rw [List.countP_append]
        omega
      rw [hfull (by omega)] at hrecent
      exact absurd hrecent List.not_mem_nil
  · have htotal : (before ++ e :: after).countP touches = (before ++ after).countP touches := by
      rw [List.countP_append, List.countP_append,
        List.countP_cons_of_neg (by simpa [touches] using htouches)]
    have hnot : e ∉ personal := by
      intro hmem
      have htouch : touches e = true := (List.mem_filter.mp (List.mem_of_mem_take hmem)).2
      exact htouches (of_decide_eq_true htouch)
    rw [if_neg htouches]
    by_cases hroom : (before ++ after).countP touches < 320
    · have hall : personal = (before ++ e :: after).filter touches := by
        apply List.take_of_length_le
        rw [← List.countP_eq_length_filter]
        omega
      have hothers : rest = before.filter (¬ ·.Touches requestedIds) ++
          e :: after.filter (¬ ·.Touches requestedIds) := by
        have hsame : rest = (before ++ e :: after).filter (¬ ·.Touches requestedIds) := by
          apply List.filter_congr
          intro x hx
          apply decide_eq_decide.mpr
          rw [hall]
          constructor
          · intro hid htouch
            exact hid (List.mem_map_of_mem (List.mem_filter.mpr ⟨hx, decide_eq_true htouch⟩))
          · intro htouch hid
            obtain ⟨y, hy, hyid⟩ := List.mem_map.mp hid
            obtain rfl := List.inj_on_of_nodup_map hnodup (List.mem_of_mem_filter hy) hx hyid
            have htouches' : touches y = true := (List.mem_filter.mp hy).2
            exact htouch (of_decide_eq_true htouches')
        rw [hsame, List.filter_append, List.filter_cons_of_pos (by simpa using htouches)]
      rw [hothers, mem_lastElements_iff fun hmem ↦ hafter (List.mem_of_mem_filter hmem),
        ← List.countP_eq_length_filter]
      constructor
      · intro hmem
        have hlast := hmem.resolve_left hnot
        show (before ++ after).countP touches + _ < 320
        omega
      · intro hlast
        right
        have hlast' : (before ++ after).countP touches +
          after.countP (¬ ·.Touches requestedIds) < 320 := hlast
        omega
    · constructor
      · rintro (hmem | hmem)
        · exact absurd hmem hnot
        · rw [hfull (by omega)] at hmem
          exact absurd hmem List.not_mem_nil
      · intro hlast
        have hlast' : (before ++ after).countP touches +
          after.countP (¬ ·.Touches requestedIds) < 320 := hlast
        omega

/-- Nothing else than the edges is kept. -/
theorem keptEdges_subset : keptEdges requestedIds edges ⊆ edges := by
  intro e he
  rcases List.mem_append.mp he with hmem | hmem
  · exact List.mem_of_mem_filter (List.mem_of_mem_take hmem)
  · exact List.mem_of_mem_filter ((lastElements_sublist _ _).subset hmem)

/-- Edges that fit are all kept. -/
theorem mem_keptEdges (hnodup : (edges.map (·.id)).Nodup) (hfits : edges.length ≤ 320)
    (he : e ∈ edges) : e ∈ keptEdges requestedIds edges := by
  obtain ⟨before, after, rfl⟩ := List.append_of_mem he
  rw [mem_keptEdges_iff hnodup]
  have hbefore := List.countP_le_length (p := (·.Touches requestedIds)) (l := before)
  have hafter := List.countP_le_length (p := (¬ ·.Touches requestedIds)) (l := after)
  have hsplit := List.length_eq_countP_add_countP (·.Touches requestedIds) (l := after)
  rw [List.length_append, List.length_cons] at hfits
  unfold HasRoom
  split
  · omega
  · rw [List.countP_append]
    simp only [decide_eq_true_eq, decide_not] at hsplit ⊢
    omega

private theorem length_keptEdges : (keptEdges requestedIds edges).length ≤ 320 := by
  have hpersonal := List.length_take_le 320 (edges.filter fun e ↦ e.Touches requestedIds)
  unfold keptEdges
  rw [List.length_append, length_lastElements]
  omega

private theorem nodup_keptEdges (hnodup : (edges.map (·.id)).Nodup) :
    ((keptEdges requestedIds edges).map (·.id)).Nodup := by
  let personal := (edges.filter fun e ↦ e.Touches requestedIds).take 320
  have hpersonal : personal.Sublist edges := (List.take_sublist _ _).trans List.filter_sublist
  have hrecent := (lastElements_sublist (320 - personal.length)
    (edges.filter fun e ↦ e.id ∉ personal.map (·.id))).trans List.filter_sublist
  show ((personal ++ lastElements (320 - personal.length)
    (edges.filter fun e ↦ e.id ∉ personal.map (·.id))).map (·.id)).Nodup
  rw [List.map_append, List.nodup_append]
  refine ⟨hnodup.sublist (hpersonal.map _), hnodup.sublist (hrecent.map _), ?_⟩
  rintro a ha b hb rfl
  obtain ⟨x, hx, rfl⟩ := List.mem_map.mp hb
  have hother := List.of_mem_filter ((lastElements_sublist _ _).subset hx)
  simp only [decide_eq_true_eq] at hother
  exact hother ha

end KeptEdges

/-! ### Merged graphs -/

/-- Every merged graph is closed, within the caps, and has unique ids. -/
theorem mergeGraphs_wellFormed (graphs : List EvidenceGraph) (protectedNodeIds : List String) :
    (mergeGraphs graphs protectedNodeIds).Closed ∧
      (mergeGraphs graphs protectedNodeIds).WithinCaps ∧
      (mergeGraphs graphs protectedNodeIds).UniqueIds := by
  have hnodes := nodup_latest (fun n : GraphNode ↦ n.id) (graphs.flatMap (·.nodes))
  refine ⟨fun e he ↦ ?_, ⟨length_keptNodes hnodes, length_keptEdges⟩, nodup_keptNodes hnodes,
    nodup_keptEdges (nodup_latest (fun e : GraphEdge ↦ e.id) _)⟩
  have hmem := List.of_mem_filter ((latest_sublist _ _).subset (keptEdges_subset he))
  exact of_decide_eq_true hmem

end Jobtology.Chat
