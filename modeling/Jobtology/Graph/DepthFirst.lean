import Mathlib.Data.List.Basic
import Mathlib.Data.List.Nodup
import Mathlib.Data.List.Perm.Subperm
import Mathlib.Data.Set.Finite.Basic
import Mathlib.Data.Fintype.EquivFin
import Mathlib.Order.WellFounded
import Mathlib.Logic.Relation

/-!
# Depth-first search over a successor function

Library for recursive graph walks that carry a set of finished nodes. `visit` also carries the
nodes being visited and fails when it meets one of them again; `postOrder` does not, and needs an
acyclic graph. Recursion depth is bounded by a number of rounds, which is shown to suffice.
Finished nodes are listed newest first.
-/

namespace Jobtology.Graph

universe u

variable {α : Type u}

/-- One step of the graph. -/
def Edge (succ : α → List α) (a b : α) : Prop := b ∈ succ a

/-- Some number of steps, possibly none. -/
abbrev Reaches (succ : α → List α) : α → α → Prop := Relation.ReflTransGen (Edge succ)

/-- No node reaches itself in one or more steps. -/
def Acyclic (succ : α → List α) : Prop := ∀ a, ¬ Relation.TransGen (Edge succ) a a

/-- Every node comes once, before (that is, newer than) all of its successors. -/
def TopologicalOrder (succ : α → List α) : List α → Prop
  | [] => True
  | a :: rest => (∀ b ∈ succ a, b ∈ rest) ∧ a ∉ rest ∧ TopologicalOrder succ rest

namespace TopologicalOrder

variable {succ : α → List α}

/-- No vertex stands twice in a topological order. -/
theorem nodup {order : List α} (h : TopologicalOrder succ order) : order.Nodup := by
  induction order with
  | nil => exact List.nodup_nil
  | cons a rest ih => exact List.nodup_cons.mpr ⟨h.2.1, ih h.2.2⟩

/-- A finished node has all its successors finished. -/
theorem closed {order : List α} (h : TopologicalOrder succ order) {a b : α} (ha : a ∈ order)
    (hb : b ∈ succ a) : b ∈ order := by
  induction order with
  | nil => cases ha
  | cons c rest ih =>
    rcases List.mem_cons.mp ha with rfl | ha
    · exact List.mem_cons_of_mem _ (h.1 b hb)
    · exact List.mem_cons_of_mem _ (ih h.2.2 ha)

/-- A finished node has everything it reaches finished. -/
theorem reaches_closed {order : List α} (h : TopologicalOrder succ order) {a b : α}
    (ha : a ∈ order) (hr : Reaches succ a b) : b ∈ order := by
  induction hr with
  | refl => exact ha
  | tail _ hstep ih => exact h.closed ih hstep

/-- A graph with fewer edges has the same order. -/
theorem mono {succ' : α → List α} (hsub : ∀ a, succ' a ⊆ succ a) {order : List α}
    (h : TopologicalOrder succ order) : TopologicalOrder succ' order := by
  induction order with
  | nil => trivial
  | cons a rest ih => exact ⟨fun b hb ↦ h.1 b (hsub a hb), h.2.1, ih h.2.2⟩

/-- An edge leads from a newer to an older position. -/
theorem index_lt {order : List α} (h : TopologicalOrder succ order) {a b : α}
    (hb : b ∈ succ a) {i j : Nat} (hi : order[i]? = some a) (hj : order[j]? = some b) : i < j := by
  induction order generalizing i j with
  | nil => simp at hi
  | cons c rest ih =>
    cases i with
    | zero =>
      obtain rfl : c = a := by simpa using hi
      cases j with
      | zero =>
        obtain rfl : c = b := by simpa using hj
        exact absurd (h.1 c hb) h.2.1
      | succ j => omega
    | succ i =>
      have hi' : rest[i]? = some a := by simpa using hi
      cases j with
      | zero =>
        obtain rfl : c = b := by simpa using hj
        exact absurd (h.2.2.closed (List.mem_of_getElem? hi') hb) h.2.1
      | succ j =>
        have hlt := ih h.2.2 hi' (by simpa using hj)
        omega

end TopologicalOrder

/-- A rank that falls along every edge falls along every path. -/
theorem rank_le_of_reaches {succ : α → List α} {rank : α → Nat}
    (hrank : ∀ a b, b ∈ succ a → rank b < rank a) {a b : α} (h : Reaches succ a b) :
    rank b ≤ rank a := by
  induction h with
  | refl => exact Nat.le_refl _
  | tail _ hstep ih => exact Nat.le_trans (Nat.le_of_lt (hrank _ _ hstep)) ih

section Extends

variable {succ : α → List α}

/-- What a walk adds: the nodes it is asked for with everything they reach, in order. -/
structure Extends (succ : α → List α) (finished : List α) (targets : List α) (result : List α) :
    Prop where
  order : TopologicalOrder succ result
  keeps : finished ⊆ result
  reached : ∀ a ∈ targets, a ∈ result
  only : ∀ x ∈ result, x ∈ finished ∨ ∃ a ∈ targets, Reaches succ a x

private theorem foldl_extends {step : List α → α → List α} (targets : List α)
    (hstep : ∀ finished, TopologicalOrder succ finished → ∀ a ∈ targets,
      Extends succ finished [a] (step finished a))
    (finished : List α) (h : TopologicalOrder succ finished) :
    Extends succ finished targets (targets.foldl step finished) := by
  induction targets generalizing finished with
  | nil =>
    exact { order := h, keeps := fun _ hx ↦ hx, reached := fun _ ha ↦ absurd ha (by simp)
            only := fun x hx ↦ .inl hx }
  | cons a rest ih =>
    have hfirst := hstep finished h a (by simp)
    have hrest := ih (fun finished h b hb ↦ hstep finished h b (by simp [hb]))
      (step finished a) hfirst.order
    constructor
    case order => exact hrest.order
    case keeps => exact fun x hx ↦ hrest.keeps (hfirst.keeps hx)
    case reached =>
      intro b hb
      rcases List.mem_cons.mp hb with rfl | hb
      · exact hrest.keeps (hfirst.reached b (by simp))
      · exact hrest.reached b hb
    case only =>
      intro x hx
      rcases hrest.only x hx with hx | ⟨b, hb, hr⟩
      · rcases hfirst.only x hx with hx | ⟨b, hb, hr⟩
        · exact .inl hx
        · exact .inr ⟨b, by simp_all, hr⟩
      · exact .inr ⟨b, by simp [hb], hr⟩

end Extends

/-! ### Post-order -/

section PostOrder

variable [DecidableEq α] (succ : α → List α)

/-- Finishes the successors of a node and then the node itself, unless it is finished. -/
def postOrder : Nat → List α → α → List α
  | 0, finished, _ => finished
  | rounds + 1, finished, a =>
    if a ∈ finished then finished
    else a :: (succ a).foldl (postOrder rounds) finished

/-- Finishes several nodes in turn. -/
def postOrderAll (rounds : Nat) (roots : List α) : List α := roots.foldl (postOrder succ rounds) []

variable {succ}

/-- With a rank that falls along every edge, more rounds than the rank finish a node. -/
theorem postOrder_extends {rank : α → Nat} (hrank : ∀ a b, b ∈ succ a → rank b < rank a)
    (rounds : Nat) (finished : List α) (a : α) (ha : rank a < rounds)
    (h : TopologicalOrder succ finished) :
    Extends succ finished [a] (postOrder succ rounds finished a) := by
  induction rounds generalizing finished a with
  | zero => omega
  | succ rounds ih =>
    unfold postOrder
    split
    · next hm =>
      exact { order := h, keeps := fun _ hx ↦ hx, reached := by simpa using hm
              only := fun x hx ↦ .inl hx }
    · next hm =>
      have hsucc := foldl_extends (succ a) (fun finished h b hb ↦
        ih finished b (by have := hrank a b hb; omega) h) finished h
      have hnew : a ∉ (succ a).foldl (postOrder succ rounds) finished := by
        -- a successor that reached the node again would have a smaller rank than itself
        intro hx
        rcases hsucc.only a hx with hx | ⟨b, hb, hr⟩
        · exact hm hx
        · have hle := rank_le_of_reaches hrank hr
          have hlt := hrank a b hb
          omega
      constructor
      case order => exact ⟨hsucc.reached, hnew, hsucc.order⟩
      case keeps => exact fun x hx ↦ List.mem_cons_of_mem _ (hsucc.keeps hx)
      case reached => simp
      case only =>
        intro x hx
        rcases List.mem_cons.mp hx with rfl | hx
        · exact .inr ⟨x, by simp, .refl⟩
        · rcases hsucc.only x hx with hx | ⟨b, hb, hr⟩
          · exact .inl hx
          · exact .inr ⟨a, by simp, .head hb hr⟩

/-- A post-order walk lists exactly what its roots reach, successors before (older than) nodes. -/
theorem postOrderAll_spec {rank : α → Nat} (hrank : ∀ a b, b ∈ succ a → rank b < rank a)
    (rounds : Nat) (roots : List α) (hroots : ∀ a ∈ roots, rank a < rounds) :
    TopologicalOrder succ (postOrderAll succ rounds roots) ∧
      ∀ x, x ∈ postOrderAll succ rounds roots ↔ ∃ a ∈ roots, Reaches succ a x := by
  have h := foldl_extends roots (fun finished h a ha ↦
    postOrder_extends hrank rounds finished a (hroots a ha) h) [] trivial
  refine ⟨h.order, fun x ↦ ⟨fun hx ↦ (h.only x hx).resolve_left (by simp), ?_⟩⟩
  rintro ⟨a, ha, hr⟩
  exact h.order.reaches_closed (h.reached a ha) hr

end PostOrder

/-! ### Ranks -/

/-- A rank falls along every edge of an ordered graph. -/
theorem exists_rank [DecidableEq α] {succ : α → List α} {order : List α}
    (h : TopologicalOrder succ order) (hall : ∀ a b, b ∈ succ a → a ∈ order) :
    ∃ rank : α → Nat, (∀ a b, b ∈ succ a → rank b < rank a) ∧ ∀ a, rank a ≤ order.length := by
  refine ⟨fun a ↦ order.length - order.idxOf a, fun a b hb ↦ ?_, fun a ↦ Nat.sub_le _ _⟩
  have ha := hall a b hb
  have hbm := h.closed ha hb
  have hi := List.idxOf_lt_length_of_mem ha
  have hj := List.idxOf_lt_length_of_mem hbm
  have hlt := h.index_lt hb (i := order.idxOf a) (j := order.idxOf b)
    (List.getElem?_idxOf ha) (List.getElem?_idxOf hbm)
  change order.length - order.idxOf b < order.length - order.idxOf a
  omega

/-- A rank that falls along the edges excludes cycles. -/
theorem acyclic_of_rank {succ : α → List α} {rank : α → Nat}
    (hrank : ∀ a b, b ∈ succ a → rank b < rank a) : Acyclic succ := by
  intro a hcycle
  have hlt (b : α) (h : Relation.TransGen (Edge succ) a b) : rank b < rank a := by
    induction h with
    | single hstep => exact hrank _ _ hstep
    | tail _ hstep ih => exact Nat.lt_trans (hrank _ _ hstep) ih
  exact Nat.lt_irrefl _ (hlt a hcycle)

/-- A graph with fewer edges is acyclic as well. -/
theorem Acyclic.mono {succ succ' : α → List α} (h : Acyclic succ) (hsub : ∀ a, succ' a ⊆ succ a) :
    Acyclic succ' :=
  fun a hcycle ↦ h a (Relation.TransGen.mono (fun x _ hxy ↦ hsub x hxy) a a hcycle)

/-- Among finitely many nodes of an acyclic graph one has no successor among them. -/
theorem Acyclic.exists_sink {succ : α → List α} (h : Acyclic succ) {nodes : List α}
    (hne : nodes ≠ []) : ∃ a ∈ nodes, ∀ b ∈ succ a, b ∉ nodes := by
  let below (b a : {x // x ∈ nodes}) : Prop := Relation.TransGen (Edge succ) a.1 b.1
  have hfinite : Finite {x // x ∈ nodes} := nodes.finite_toSet.to_subtype
  have htrans : IsTrans _ below := ⟨fun a b c hab hbc ↦ hbc.trans hab⟩
  have hirrefl : Std.Irrefl below := ⟨fun a ↦ h a.1⟩
  obtain ⟨first, hfirst⟩ := List.exists_mem_of_ne_nil nodes hne
  obtain ⟨⟨a, ha⟩, -, hmin⟩ :=
    (Finite.wellFounded_of_trans_of_irrefl below).has_min Set.univ ⟨⟨first, hfirst⟩, trivial⟩
  exact ⟨a, ha, fun b hb hmem ↦ hmin ⟨b, hmem⟩ trivial (.single hb)⟩

/-! ### Cycle detection -/

/-- Why a visit fails. -/
inductive VisitError (α : Type u)
  | cycle (node : α)
  | outOfRounds

section Visit

variable [DecidableEq α] (succ : α → List α)

/-- Finishes a node after its successors, failing on a node that is still being visited. -/
def visit : Nat → List α → List α → α → Except (VisitError α) (List α)
  | 0, _, _, _ => .error .outOfRounds
  | rounds + 1, path, finished, a =>
    if a ∈ path then .error (.cycle a)
    else if a ∈ finished then .ok finished
    else do
      let finished ← (succ a).foldlM (visit rounds (a :: path)) finished
      .ok (a :: finished)

/-- Visits several nodes in turn, with as many rounds as there are nodes and one more. -/
def visitAll (nodes : List α) : Except (VisitError α) (List α) :=
  nodes.foldlM (visit succ (nodes.length + 1) []) []

variable {succ}

private theorem foldlM_extends {path : List α} {rounds : Nat} (targets : List α)
    (hstep : ∀ finished a result, a ∈ targets → visit succ rounds path finished a = .ok result →
      TopologicalOrder succ finished → (∀ x ∈ path, x ∉ finished) →
      Extends succ finished [a] result ∧ ∀ x ∈ path, x ∉ result)
    (finished result : List α)
    (h : targets.foldlM (visit succ rounds path) finished = .ok result)
    (horder : TopologicalOrder succ finished) (hpath : ∀ x ∈ path, x ∉ finished) :
    Extends succ finished targets result ∧ ∀ x ∈ path, x ∉ result := by
  induction targets generalizing finished with
  | nil =>
    obtain rfl : finished = result := by simpa [pure, Except.pure] using h
    exact ⟨{ order := horder, keeps := fun _ hx ↦ hx
             reached := fun _ ha ↦ absurd ha (by simp), only := fun x hx ↦ .inl hx }, hpath⟩
  | cons a rest ih =>
    rw [List.foldlM_cons] at h
    cases hv : visit succ rounds path finished a with
    | error e => simp [hv, bind, Except.bind] at h
    | ok middle =>
      simp only [hv, bind, Except.bind] at h
      obtain ⟨hfirst, hmiddle⟩ := hstep finished a middle (by simp) hv horder hpath
      obtain ⟨hrest, hresult⟩ := ih (fun f b r hb ↦ hstep f b r (by simp [hb])) middle h
        hfirst.order hmiddle
      refine ⟨⟨hrest.order, fun x hx ↦ hrest.keeps (hfirst.keeps hx), ?_, ?_⟩, hresult⟩
      · intro b hb
        rcases List.mem_cons.mp hb with rfl | hb
        · exact hrest.keeps (hfirst.reached b (by simp))
        · exact hrest.reached b hb
      · intro x hx
        rcases hrest.only x hx with hx | ⟨b, hb, hr⟩
        · rcases hfirst.only x hx with hx | ⟨b, hb, hr⟩
          · exact .inl hx
          · exact .inr ⟨b, by simp_all, hr⟩
        · exact .inr ⟨b, by simp [hb], hr⟩

/-- A successful visit finishes the node and what it reaches, and nothing on the path. -/
theorem visit_extends (rounds : Nat) (path finished : List α) (a : α) (result : List α)
    (h : visit succ rounds path finished a = .ok result)
    (horder : TopologicalOrder succ finished) (hpath : ∀ x ∈ path, x ∉ finished) :
    Extends succ finished [a] result ∧ ∀ x ∈ path, x ∉ result := by
  induction rounds generalizing path finished a result with
  | zero => simp [visit] at h
  | succ rounds ih =>
    unfold visit at h
    split at h
    · cases h
    split at h
    · next hm =>
      obtain rfl := Except.ok.inj h
      exact ⟨{ order := horder, keeps := fun _ hx ↦ hx, reached := by simpa using hm
               only := fun x hx ↦ .inl hx }, hpath⟩
    · next hnotpath hnew =>
      cases hf : (succ a).foldlM (visit succ rounds (a :: path)) finished with
      | error e => simp [hf, bind, Except.bind] at h
      | ok middle =>
        simp only [hf, bind, Except.bind, Except.ok.injEq] at h
        subst h
        obtain ⟨hsucc, hmiddle⟩ := foldlM_extends (succ a)
          (fun f b r _ hv ho hp ↦ ih (a :: path) f b r hv ho hp) finished middle hf horder
          (by simpa [hnew] using hpath)
        have hfresh : a ∉ middle := hmiddle a (by simp)
        refine ⟨⟨⟨hsucc.reached, hfresh, hsucc.order⟩,
          fun x hx ↦ List.mem_cons_of_mem _ (hsucc.keeps hx), by simp, ?_⟩, ?_⟩
        · intro x hx
          rcases List.mem_cons.mp hx with rfl | hx
          · exact .inr ⟨x, by simp, .refl⟩
          · rcases hsucc.only x hx with hx | ⟨b, hb, hr⟩
            · exact .inl hx
            · exact .inr ⟨a, by simp, .head hb hr⟩
        · intro x hx hm
          rcases List.mem_cons.mp hm with rfl | hm
          · exact hnotpath hx
          · exact hmiddle x (by simp [hx]) hm

/-- While a visit has a round for every node off its path, it fails only on a genuine cycle. -/
theorem visit_total {nodes : List α} (hclosed : ∀ a ∈ nodes, ∀ b ∈ succ a, b ∈ nodes)
    (rounds : Nat) (path finished : List α) (a : α) (ha : a ∈ nodes) (hnodup : path.Nodup)
    (hsub : path ⊆ nodes) (hreach : ∀ x ∈ path, Relation.TransGen (Edge succ) x a)
    (hrounds : nodes.length < rounds + path.length) :
    (∃ result, visit succ rounds path finished a = .ok result) ∨
      ∃ c, visit succ rounds path finished a = .error (.cycle c) ∧
        Relation.TransGen (Edge succ) c c := by
  induction rounds generalizing path finished a with
  | zero =>
    have hle := (hnodup.subperm hsub).length_le
    omega
  | succ rounds ih =>
    unfold visit
    split
    · next hm => exact .inr ⟨a, rfl, hreach a hm⟩
    split
    · exact .inl ⟨finished, rfl⟩
    · next hnotpath hnew =>
      have hfold (targets : List α) (htargets : ∀ b ∈ targets, b ∈ succ a) (f : List α) :
          (∃ result, targets.foldlM (visit succ rounds (a :: path)) f = .ok result) ∨
            ∃ c, targets.foldlM (visit succ rounds (a :: path)) f = .error (.cycle c) ∧
              Relation.TransGen (Edge succ) c c := by
        induction targets generalizing f with
        | nil => exact .inl ⟨f, rfl⟩
        | cons b rest ihrest =>
          have hb := htargets b (by simp)
          have hpath : ∀ x ∈ a :: path, Relation.TransGen (Edge succ) x b := by
            intro x hx
            rcases List.mem_cons.mp hx with rfl | hx
            · exact .single hb
            · exact .tail (hreach x hx) hb
          rw [List.foldlM_cons]
          rcases ih (a :: path) f b (hclosed a ha b hb) (List.nodup_cons.mpr ⟨hnotpath, hnodup⟩)
            (by simpa [ha] using hsub) hpath (by simp only [List.length_cons]; omega)
            with ⟨middle, hmiddle⟩ | ⟨c, hc, hcycle⟩
          · rw [hmiddle]
            exact ihrest (fun c hc ↦ htargets c (by simp [hc])) middle
          · exact .inr ⟨c, by simp [hc, bind, Except.bind], hcycle⟩
      rcases hfold (succ a) (fun b hb ↦ hb) finished with ⟨middle, hmiddle⟩ | ⟨c, hc, hcycle⟩
      · exact .inl ⟨a :: middle, by simp [hmiddle, bind, Except.bind]⟩
      · exact .inr ⟨c, by simp [hc, bind, Except.bind], hcycle⟩

/-- Visiting all nodes of a closed graph fails only on a genuine cycle. -/
theorem visitAll_total {nodes : List α} (hclosed : ∀ a ∈ nodes, ∀ b ∈ succ a, b ∈ nodes) :
    (∃ order, visitAll succ nodes = .ok order) ∨
      ∃ c, visitAll succ nodes = .error (.cycle c) ∧ Relation.TransGen (Edge succ) c c := by
  have hfold (targets : List α) (htargets : targets ⊆ nodes) (f : List α) :
      (∃ result, targets.foldlM (visit succ (nodes.length + 1) []) f = .ok result) ∨
        ∃ c, targets.foldlM (visit succ (nodes.length + 1) []) f = .error (.cycle c) ∧
          Relation.TransGen (Edge succ) c c := by
    induction targets generalizing f with
    | nil => exact .inl ⟨f, rfl⟩
    | cons b rest ih =>
      rw [List.foldlM_cons]
      rcases visit_total hclosed (nodes.length + 1) [] f b (htargets (by simp)) List.nodup_nil
        (by simp) (by simp) (by simp) with ⟨middle, hmiddle⟩ | ⟨c, hc, hcycle⟩
      · rw [hmiddle]
        exact ih (fun c hc ↦ htargets (by simp [hc])) middle
      · exact .inr ⟨c, by simp [hc, bind, Except.bind], hcycle⟩
  exact hfold nodes (fun _ hx ↦ hx) []

/-- Visiting all nodes of a closed graph yields an order of exactly these nodes. -/
theorem visitAll_order {nodes order : List α} (h : visitAll succ nodes = .ok order) :
    TopologicalOrder succ order ∧ nodes ⊆ order ∧
      ((∀ a ∈ nodes, ∀ b ∈ succ a, b ∈ nodes) → order ⊆ nodes) := by
  obtain ⟨hext, -⟩ := foldlM_extends nodes
    (fun f a r _ hv ho hp ↦ visit_extends _ [] f a r hv ho hp) [] order h trivial (by simp)
  refine ⟨hext.order, hext.reached, fun hclosed x hx ↦ ?_⟩
  obtain ⟨a, ha, hr⟩ := (hext.only x hx).resolve_left (by simp)
  induction hr with
  | refl => exact ha
  | tail hprefix hstep ih =>
    exact hclosed _ (ih (hext.order.reaches_closed (hext.reached a ha) hprefix)) _ hstep

/-- Visiting all nodes of a closed graph succeeds exactly when it is acyclic. -/
theorem visitAll_ok_iff {nodes : List α} (hclosed : ∀ a ∈ nodes, ∀ b ∈ succ a, b ∈ nodes)
    (houtside : ∀ a, a ∉ nodes → succ a = []) :
    (∃ order, visitAll succ nodes = .ok order) ↔ Acyclic succ := by
  constructor
  · rintro ⟨order, h⟩
    obtain ⟨horder, hall, -⟩ := visitAll_order h
    have hsource (a b : α) (hb : b ∈ succ a) : a ∈ order := by
      by_contra ha
      rw [houtside a fun hm ↦ ha (hall hm)] at hb
      cases hb
    obtain ⟨rank, hrank, -⟩ := exists_rank horder hsource
    exact acyclic_of_rank hrank
  · intro hacyclic
    refine (visitAll_total hclosed).resolve_right ?_
    rintro ⟨c, -, hcycle⟩
    exact hacyclic c hcycle

end Visit

end Jobtology.Graph
