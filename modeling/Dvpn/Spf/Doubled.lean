import Dvpn.Spf.Cspf
import Dvpn.Spf.Shortest

/-!
# The doubled graph (`cspf.c`)

A graph of peers (`PeerGraph`) has edges of the four types, at most one from a node to another, that
cost something. Its context is what `cspf_node_add` and `cspf_edge_add` build of it, in any order of
the nodes and of the edges. The address of the struct of an edge is the edge.

* `mem_context`, `mem_edges`: the halves, and the edges of each.
* `sound`: a shortest path leaves a node at most once, so the costs stay below the sum of all.
* `untied`: two halves of one node do not tie.
-/

namespace Dvpn

open Dijkstra (Least Walk)

/-- An edge of a graph of peers; `type` is what `to'` is to `from'`. -/
structure PeerEdge (N : Type) where
  from' : N
  to' : N
  type : ConfPeerType
  cost : Int
  deriving DecidableEq

/-- A finite graph of peers. -/
structure PeerGraph (N C : Type) where
  nodes : List N
  edges : List (PeerEdge N)
  id : N → NodeId
  cookie : N → Option C
  nodup : nodes.Nodup
  ids : ∀ u ∈ nodes, ∀ v ∈ nodes, id u = id v → u = v
  ends : ∀ e ∈ edges, e.from' ∈ nodes ∧ e.to' ∈ nodes
  pairs : (edges.map fun e => (e.from', e.to')).Nodup
  types : ∀ e ∈ edges, e.type ∈ [.epeer, .customer, .transit, .ipeer]
  cost_pos : ∀ e ∈ edges, 1 ≤ e.cost

/-- All edges together cost less than `INT_MAX`. -/
def PeerGraph.Bounded {N C : Type} (g : PeerGraph N C) : Prop :=
  (g.edges.map PeerEdge.cost).sum < INT_MAX

/-- The node of a half. -/
def CspfHalf.node {N : Type} : CspfHalf N → N
  | .a n => n
  | .b n => n

variable {N C : Type} [DecidableEq N]

/-- The edge that an edge of the graph adds to a half. -/
def PeerEdge.arcAt (e : PeerEdge N) (half : CspfHalf N) :
    Option (SpfEdge (CspfHalf N) (CspfArc N (PeerEdge N))) :=
  if e.from' = half.node then
    match half, e.type with
    | .a _, .epeer => some ⟨.e0 e, .b e.to', e.cost⟩
    | .a _, .transit => some ⟨.e0 e, .a e.to', e.cost⟩
    | .a _, .ipeer => some ⟨.e0 e, .a e.to', e.cost⟩
    | .b _, .customer => some ⟨.e0 e, .b e.to', e.cost⟩
    | .b _, .ipeer => some ⟨.e1 e, .b e.to', e.cost⟩
    | _, _ => none
  else none

/-- The edge inside a node. -/
def innerArc : CspfHalf N → List (SpfEdge (CspfHalf N) (CspfArc N (PeerEdge N)))
  | .a n => [⟨.ab n, .b n, 0⟩]
  | .b _ => []

/-- `cspf_edge_add` of an edge of the graph. -/
def addEdge (ctx : CspfContext N (PeerEdge N) C) (e : PeerEdge N) :
    CspfContext N (PeerEdge N) C :=
  cspfEdgeAdd ctx e e.from' e.to' e.type e.cost

/-- `cspf_node_add` of a node of the graph. -/
def PeerGraph.addNode (g : PeerGraph N C) (ctx : CspfContext N (PeerEdge N) C) (n : N) :
    CspfContext N (PeerEdge N) C :=
  cspfNodeAdd ctx n (g.id n) (g.cookie n)

/-- What is built of the graph. -/
def PeerGraph.context (g : PeerGraph N C)
    (mem : CspfHalf N → SpfNode (CspfHalf N) (CspfArc N (PeerEdge N)) C) :
    CspfContext N (PeerEdge N) C :=
  g.edges.foldl addEdge (g.nodes.foldl g.addNode (spfInit mem))

variable {g : PeerGraph N C} {ctx : CspfContext N (PeerEdge N) C} {half half' : CspfHalf N}
  {e e' : PeerEdge N} {x y : SpfEdge (CspfHalf N) (CspfArc N (PeerEdge N))} {n : N}
  {mem : CspfHalf N → SpfNode (CspfHalf N) (CspfArc N (PeerEdge N)) C}

/-! ## What is built -/

theorem spfEdgeAdd_edges {P E : Type} [DecidableEq P] {ctx : SpfContext P E C} {p q : P}
    {e : SpfEdge P E} : ((spfEdgeAdd ctx p e).node q).edges =
      (ctx.node q).edges ++ if q = p then [e] else [] := by
  unfold spfEdgeAdd
  dsimp only
  by_cases h : q = p
  · rw [h, Function.update_self, if_pos rfl]
  · rw [Function.update_of_ne h, if_neg h, List.append_nil]

theorem spfEdgeAdd_id {P E : Type} [DecidableEq P] {ctx : SpfContext P E C} {p q : P}
    {e : SpfEdge P E} : ((spfEdgeAdd ctx p e).node q).id = (ctx.node q).id ∧
      ((spfEdgeAdd ctx p e).node q).cookie = (ctx.node q).cookie := by
  unfold spfEdgeAdd
  dsimp only
  by_cases h : q = p
  · rw [h, Function.update_self]
    exact ⟨rfl, rfl⟩
  · rw [Function.update_of_ne h]
    exact ⟨rfl, rfl⟩

/-- **An edge is added to the halves that it starts from.** -/
theorem addEdge_edges : ((addEdge ctx e).node half).edges =
    (ctx.node half).edges ++ (e.arcAt half).toList := by
  obtain ⟨f, t, type, c⟩ := e
  unfold addEdge PeerEdge.arcAt
  by_cases hf : f = half.node
  · subst hf
    rw [if_pos rfl]
    cases half <;> cases type <;> simp [cspfEdgeAdd, spfEdgeAdd_edges, CspfHalf.node]
  · have hne : half ≠ .a f ∧ half ≠ .b f :=
      ⟨fun h => hf (h ▸ rfl), fun h => hf (h ▸ rfl)⟩
    rw [if_neg hf]
    cases type <;> simp [cspfEdgeAdd, spfEdgeAdd_edges, hne]

theorem addEdge_id : ((addEdge ctx e).node half).id = (ctx.node half).id ∧
    ((addEdge ctx e).node half).cookie = (ctx.node half).cookie := by
  obtain ⟨f, t, type, c⟩ := e
  unfold addEdge
  cases type <;> simp [cspfEdgeAdd, spfEdgeAdd_id]

theorem addEdge_nodes :
    (addEdge ctx e).nodes = ctx.nodes ∧ (addEdge ctx e).numNodes = ctx.numNodes := by
  obtain ⟨f, t, type, c⟩ := e
  cases type <;> exact ⟨rfl, rfl⟩

/-- **A node is added with its halves**, and nothing happens to the others. -/
theorem addNode_node : ((g.addNode ctx n).node half) =
    if half.node = n then ⟨g.id n, g.cookie n, innerArc half⟩ else ctx.node half := by
  unfold PeerGraph.addNode cspfNodeAdd cspfHalfAdd spfNodeAdd spfEdgeAdd
  by_cases h : half.node = n
  · subst h
    rw [if_pos rfl]
    cases half <;> simp [CspfHalf.node, innerArc]
  · have hne : half ≠ .a n ∧ half ≠ .b n := ⟨fun he => h (he ▸ rfl), fun he => h (he ▸ rfl)⟩
    rw [if_neg h]
    simp [hne]

theorem addNode_nodes : (g.addNode ctx n).nodes = ctx.nodes ++ [.a n, .b n] ∧
    (g.addNode ctx n).numNodes = ctx.numNodes + 2 := by
  refine ⟨List.append_assoc _ _ _, ?_⟩
  exact add_assoc ctx.numNodes 1 1

theorem foldl_addNode {l : List N} :
    (l.foldl g.addNode (spfInit mem)).nodes = l.flatMap (fun n => [.a n, .b n]) ∧
    (l.foldl g.addNode (spfInit mem)).numNodes = 2 * l.length ∧
    ∀ half : CspfHalf N, half.node ∈ l → ((l.foldl g.addNode (spfInit mem)).node half) =
      ⟨g.id half.node, g.cookie half.node, innerArc half⟩ := by
  induction l using List.reverseRecOn with
  | nil => exact ⟨rfl, rfl, fun half h => absurd h List.not_mem_nil⟩
  | append_singleton l n ih =>
    obtain ⟨hnodes, hcount, hnode⟩ := ih
    rw [List.foldl_append, List.foldl_cons, List.foldl_nil]
    refine ⟨?_, ?_, fun half h => ?_⟩
    · rw [addNode_nodes.1, hnodes, List.flatMap_append]
      rfl
    · rw [addNode_nodes.2, hcount, List.length_append, List.length_singleton]
      omega
    · rw [addNode_node]
      by_cases he : half.node = n
      · rw [if_pos he, he]
      · rw [if_neg he]
        refine hnode half ((List.mem_append.mp h).resolve_right fun hm => ?_)
        exact he (List.mem_singleton.mp hm)

theorem foldl_addEdge_nodes {l : List (PeerEdge N)} :
    (l.foldl addEdge ctx).nodes = ctx.nodes ∧ (l.foldl addEdge ctx).numNodes = ctx.numNodes := by
  induction l generalizing ctx with
  | nil => exact ⟨rfl, rfl⟩
  | cons e l ih => exact ⟨ih.1.trans addEdge_nodes.1, ih.2.trans addEdge_nodes.2⟩

theorem foldl_addEdge {l : List (PeerEdge N)} :
    ((l.foldl addEdge ctx).node half).edges =
      (ctx.node half).edges ++ l.filterMap (fun e => e.arcAt half) ∧
    ((l.foldl addEdge ctx).node half).id = (ctx.node half).id ∧
    ((l.foldl addEdge ctx).node half).cookie = (ctx.node half).cookie := by
  induction l generalizing ctx with
  | nil => exact ⟨(List.append_nil _).symm, rfl, rfl⟩
  | cons e l ih =>
    obtain ⟨hedges, hid, hcookie⟩ := @ih (addEdge ctx e)
    refine ⟨?_, hid.trans addEdge_id.1, hcookie.trans addEdge_id.2⟩
    rw [List.foldl_cons, hedges, addEdge_edges, List.append_assoc, List.filterMap_cons]
    cases e.arcAt half <;> rfl

theorem context_nodes : (g.context mem).nodes = g.nodes.flatMap fun n => [.a n, .b n] := by
  unfold PeerGraph.context
  rw [foldl_addEdge_nodes.1, foldl_addNode.1]

/-- **The halves of the nodes.** -/
theorem mem_context : half ∈ (g.context mem).nodes ↔ half.node ∈ g.nodes := by
  rw [context_nodes, List.mem_flatMap]
  constructor
  · rintro ⟨n, hn, hhalf⟩
    rcases List.mem_pair.mp hhalf with rfl | rfl <;> exact hn
  · intro h
    refine ⟨half.node, h, ?_⟩
    cases half with
    | a n => exact List.mem_cons_self
    | b n => exact List.mem_cons_of_mem _ List.mem_cons_self

theorem nodup_context : (g.context mem).nodes.Nodup := by
  rw [context_nodes, List.nodup_flatMap]
  refine ⟨fun n _ => by simp, g.nodup.imp fun {m n} hne => ?_⟩
  intro half hm hn
  simp only [List.mem_cons, List.not_mem_nil, or_false] at hm hn
  rcases hm with rfl | rfl <;> simp [hne] at hn

theorem count_context : (g.context mem).numNodes = (g.context mem).nodes.length := by
  unfold PeerGraph.context
  have hlen : (g.nodes.flatMap fun n => [CspfHalf.a n, .b n]).length = 2 * g.nodes.length := by
    simp [List.length_flatMap, Nat.mul_comm]
  rw [foldl_addEdge_nodes.1, foldl_addEdge_nodes.2, foldl_addNode.1, foldl_addNode.2.1, hlen]
  exact (Nat.cast_mul 2 _).symm

/-- **What is at a half.** -/
theorem node_context (h : half.node ∈ g.nodes) :
    ((g.context mem).node half).id = g.id half.node ∧
    ((g.context mem).node half).cookie = g.cookie half.node ∧
    ((g.context mem).node half).edges =
      innerArc half ++ g.edges.filterMap fun e => e.arcAt half := by
  obtain ⟨hedges, hid, hcookie⟩ :=
    @foldl_addEdge _ _ _ (g.nodes.foldl g.addNode (spfInit mem)) half g.edges
  rw [foldl_addNode.2.2 half h] at hedges hid hcookie
  exact ⟨hid, hcookie, hedges⟩

/-! ## The edges of a half -/

/-- The half after the peak. -/
def CspfHalf.IsB : CspfHalf N → Prop
  | .a _ => False
  | .b _ => True

/-- The edge of the graph that an edge of the context comes from. -/
def CspfArc.edge : CspfArc N (PeerEdge N) → Option (PeerEdge N)
  | .ab _ => none
  | .e0 e => some e
  | .e1 e => some e

omit [DecidableEq N] in
theorem half_eq (hnode : half.node = half'.node) (hb : half.IsB ↔ half'.IsB) : half = half' := by
  cases half <;> cases half' <;> simp_all [CspfHalf.node, CspfHalf.IsB]

theorem mem_edges (h : half.node ∈ g.nodes) : x ∈ ((g.context mem).node half).edges ↔
    x ∈ innerArc half ∨ ∃ e ∈ g.edges, e.arcAt half = some x := by
  rw [(node_context h).2.2, List.mem_append, List.mem_filterMap]

omit [DecidableEq N] in
theorem mem_innerArc : x ∈ innerArc half ↔ ∃ n, half = .a n ∧ x = ⟨.ab n, .b n, 0⟩ := by
  cases half with
  | a n =>
    refine List.mem_singleton.trans ⟨fun h => ⟨n, rfl, h⟩, ?_⟩
    rintro ⟨m, hm, rfl⟩
    cases hm
    rfl
  | b n =>
    refine iff_of_false List.not_mem_nil ?_
    rintro ⟨m, hm, -⟩
    cases hm

/-- **Where an edge of the graph leads**: before the peak it goes up, over the peak, or is one that
may go either way, and after the peak it goes down. -/
theorem arcAt_spec (h : e.arcAt half = some x) :
    e.from' = half.node ∧ x.to'.node = e.to' ∧ x.cost = e.cost ∧ x.self.edge = some e ∧
      (¬ half.IsB → (x.to'.IsB ↔ e.type = .epeer) ∧ (e.type = .epeer ∨ e.type = .transit ∨
        e.type = .ipeer)) ∧
      (half.IsB → x.to'.IsB ∧ (e.type = .customer ∨ e.type = .ipeer)) := by
  obtain ⟨f, t, type, c⟩ := e
  unfold PeerEdge.arcAt at h
  split_ifs at h with hf
  refine ⟨hf, ?_⟩
  cases half <;> cases type <;> simp at h <;> subst h <;>
    simp [CspfHalf.node, CspfHalf.IsB, CspfArc.edge]

/-! ## Walks in the doubled graph -/

variable {s : N} {c : Int}

/-- The edges of the context go between its halves. -/
theorem closed_context (h : half.node ∈ g.nodes)
    (hx : x ∈ ((g.context mem).node half).edges) : x.to'.node ∈ g.nodes := by
  rcases (mem_edges h).mp hx with hx | ⟨e, he, hx⟩
  · obtain ⟨n, rfl, rfl⟩ := mem_innerArc.mp hx
    exact h
  · rw [(arcAt_spec hx).2.1]
    exact (g.ends e he).2

theorem cost_context (h : half.node ∈ g.nodes)
    (hx : x ∈ ((g.context mem).node half).edges) : x ∈ innerArc half ∨ 1 ≤ x.cost := by
  rcases (mem_edges h).mp hx with hx | ⟨e, he, hx⟩
  · exact Or.inl hx
  · rw [(arcAt_spec hx).2.2.1]
    exact Or.inr (g.cost_pos e he)

theorem nonneg_context (h : half.node ∈ g.nodes)
    (hx : x ∈ ((g.context mem).node half).edges) : 0 ≤ x.cost := by
  rcases cost_context h hx with hx | hpos
  · obtain ⟨n, -, rfl⟩ := mem_innerArc.mp hx
    exact le_rfl
  · omega

theorem walk_context (hs : s ∈ g.nodes) (hw : Walk (g.context mem).arcs (.a s) half c) :
    half.node ∈ g.nodes := by
  induction hw with
  | nil => exact hs
  | snoc _ ha ih =>
    obtain ⟨x, hx, rfl, -⟩ := mem_arcs.mp ha
    exact closed_context ih hx

theorem walk_nonneg (hs : s ∈ g.nodes) (hw : Walk (g.context mem).arcs (.a s) half c) : 0 ≤ c := by
  induction hw with
  | nil => exact le_rfl
  | snoc hw ha ih =>
    obtain ⟨x, hx, -, rfl⟩ := mem_arcs.mp ha
    exact add_nonneg ih (nonneg_context (walk_context hs hw) hx)

/-- A walk to a half of a node goes on to the half after it. -/
theorem walk_half (hs : s ∈ g.nodes) (hw : Walk (g.context mem).arcs (.a s) half c)
    (hnode : half.node = half'.node) (hb : half.IsB → half'.IsB) :
    Walk (g.context mem).arcs (.a s) half' c := by
  by_cases heq : half.IsB ↔ half'.IsB
  · exact half_eq hnode heq ▸ hw
  · cases half with
    | b m => exact absurd (iff_of_true trivial (hb trivial)) heq
    | a m =>
      cases half' with
      | a m' => exact absurd Iff.rfl heq
      | b m' =>
        obtain rfl : m = m' := hnode
        have hm := walk_context hs hw
        have hab : (CspfHalf.b m, (0 : Int)) ∈ (g.context mem).arcs (.a m) :=
          arc_of_edge ((mem_edges hm).mpr (Or.inl (mem_innerArc.mpr ⟨m, rfl, rfl⟩)))
        have hstep := Walk.snoc hw hab
        rwa [add_zero] at hstep

/-- **A shortest path leaves a node at most once**, and where it ends it has not left yet. -/
theorem least_spends (hs : s ∈ g.nodes) (hl : Least (g.context mem).arcs (.a s) half c) :
    ∃ es : List (PeerEdge N), (∀ e ∈ es, e ∈ g.edges) ∧ (es.map PeerEdge.from').Nodup ∧
      half.node ∉ es.map PeerEdge.from' ∧ (es.map PeerEdge.cost).sum = c ∧
      ∀ f ∈ es.map PeerEdge.from', ∃ h c', h.node = f ∧
        Walk (g.context mem).arcs (.a s) h c' ∧ c' < c ∧ (h.IsB → half.IsB) := by
  obtain ⟨hw, hleast⟩ := hl
  induction hw with
  | nil =>
    exact ⟨[], fun e he => absurd he List.not_mem_nil, List.nodup_nil, List.not_mem_nil, rfl,
      fun f hf => absurd hf List.not_mem_nil⟩
  | @snoc u v c w hw ha ih =>
    have hwalk := hw
    have hu := walk_context hs hw
    obtain ⟨es, hsub, hnodup, hnot, hsum, hleft⟩ := ih fun c' hw' => by
      have hle := hleast _ (.snoc hw' ha)
      omega
    obtain ⟨x, hx, rfl, rfl⟩ := mem_arcs.mp ha
    rcases (mem_edges hu).mp hx with hx' | ⟨e, he, hx'⟩
    · -- over the edge inside a node
      obtain ⟨n, rfl, rfl⟩ := mem_innerArc.mp hx'
      refine ⟨es, hsub, hnodup, hnot, hsum.trans (add_zero c).symm, fun f hf => ?_⟩
      obtain ⟨h, c', hf, hw', hlt, -⟩ := hleft f hf
      exact ⟨h, c', hf, hw', hlt.trans_eq (add_zero c).symm, fun _ => trivial⟩
    · obtain ⟨hfrom, hto, hcost, -, hbefore, hafter⟩ := arcAt_spec hx'
      have hpos := g.cost_pos e he
      have hleft' : ∀ f ∈ (es ++ [e]).map PeerEdge.from', ∃ h c', h.node = f ∧
          Walk (g.context mem).arcs (.a s) h c' ∧ c' < c + x.cost ∧ (h.IsB → x.to'.IsB) := by
        intro f hf
        rw [List.map_append, List.map_singleton, List.mem_append, List.mem_singleton] at hf
        rcases hf with hf | rfl
        · obtain ⟨h, c', hf, hw', hlt, hb⟩ := hleft f hf
          exact ⟨h, c', hf, hw', by omega, fun hhb => (hafter (hb hhb)).1⟩
        · exact ⟨u, c, hfrom.symm, hwalk, by omega, fun hub => (hafter hub).1⟩
      refine ⟨es ++ [e], ?_, ?_, fun hmem => ?_, ?_, hleft'⟩
      · intro e' he'
        rcases List.mem_append.mp he' with he' | he'
        · exact hsub e' he'
        · exact List.mem_singleton.mp he' ▸ he
      · rw [List.map_append, List.map_singleton, List.nodup_append]
        refine ⟨hnodup, List.nodup_singleton _, fun f hf f' hf' heq => hnot ?_⟩
        rw [← hfrom, ← List.mem_singleton.mp hf', ← heq]
        exact hf
      · -- a walk that was here before was shorter
        obtain ⟨h, c', hnode, hw', hlt, hb⟩ := hleft' _ hmem
        have hwv := walk_half hs hw' hnode hb
        have hle := hleast c' hwv
        omega
      · rw [List.map_append, List.sum_append, hsum, List.map_singleton, List.sum_singleton, hcost]

omit [DecidableEq N] in
/-- Different edges cost no more than all of them. -/
theorem sum_le_total {es : List (PeerEdge N)} (hsub : ∀ e ∈ es, e ∈ g.edges) (hnodup : es.Nodup) :
    (es.map PeerEdge.cost).sum ≤ (g.edges.map PeerEdge.cost).sum := by
  obtain ⟨l, hperm, hsubl⟩ := List.subperm_of_subset hnodup hsub
  rw [← (hperm.map PeerEdge.cost).sum_eq]
  refine (hsubl.map PeerEdge.cost).sum_le_sum fun c hc => ?_
  obtain ⟨e, he, rfl⟩ := List.mem_map.mp hc
  have hpos := g.cost_pos e he
  omega

/-- **The costs stay below the sum of all edges.** -/
theorem sound (hs : s ∈ g.nodes) (ht : g.Bounded) : SpfSound (g.context mem) (.a s) where
  count := count_context
  source_mem := mem_context.mpr hs
  closed u hu x hx := mem_context.mpr (closed_context (mem_context.mp hu) hx)
  nonneg u hu x hx := nonneg_context (mem_context.mp hu) hx
  into_source u hu x hx hto := by
    rcases cost_context (mem_context.mp hu) hx with hx | hpos
    · obtain ⟨n, -, rfl⟩ := mem_innerArc.mp hx
      cases hto
    · omega
  below u c hl x hx := by
    have htotal : (g.edges.map PeerEdge.cost).sum < INT_MAX := ht
    have hu := walk_context hs hl.1
    obtain ⟨es, hsub, hnodup, hnot, hsum, -⟩ := least_spends hs hl
    rcases (mem_edges hu).mp hx with hx | ⟨e, he, hx⟩
    · obtain ⟨n, -, rfl⟩ := mem_innerArc.mp hx
      have hle := sum_le_total hsub (hnodup.of_map _)
      dsimp only
      omega
    · obtain ⟨hfrom, -, hcost, -⟩ := arcAt_spec hx
      have hsub' : ∀ e' ∈ e :: es, e' ∈ g.edges := List.forall_mem_cons.mpr ⟨he, hsub⟩
      have hnodup' : ((e :: es).map PeerEdge.from').Nodup := by
        rw [List.map_cons, List.nodup_cons, hfrom]
        exact ⟨hnot, hnodup⟩
      have hle := sum_le_total hsub' (hnodup'.of_map _)
      rw [List.map_cons, List.sum_cons, hsum] at hle
      omega

omit [DecidableEq N] in
/-- There is at most one edge from a node to another. -/
theorem edge_unique (he : e ∈ g.edges) (he' : e' ∈ g.edges) (hfrom : e.from' = e'.from')
    (hto : e.to' = e'.to') : e = e' :=
  List.inj_on_of_nodup_map g.pairs he he' (Prod.ext hfrom hto)

omit [DecidableEq N] in
theorem edges_nodup : g.edges.Nodup := g.pairs.of_map _

/-- No half has an edge twice. -/
theorem selves_nodup (h : half.node ∈ g.nodes) :
    (((g.context mem).node half).edges.map SpfEdge.self).Nodup := by
  have hself : ∀ {e x}, PeerEdge.arcAt e half = some x → CspfArc.edge x.self = some e :=
    fun hx => (arcAt_spec hx).2.2.2.1
  rw [(node_context h).2.2, List.map_append, List.nodup_append]
  refine ⟨?_, ?_, ?_⟩
  · cases half with
    | a n => exact List.nodup_singleton _
    | b n => exact List.nodup_nil
  · rw [List.map_filterMap]
    refine edges_nodup.filterMap fun e e' y hy hy' => ?_
    obtain ⟨x, hx, rfl⟩ := Option.map_eq_some_iff.mp hy
    obtain ⟨x', hx', hxx⟩ := Option.map_eq_some_iff.mp hy'
    have he := hself hx
    rw [← hxx, hself hx'] at he
    exact (Option.some.inj he).symm
  · intro y hy y' hy' heq
    obtain ⟨x, hx, rfl⟩ := List.mem_map.mp hy
    obtain ⟨x', hx', rfl⟩ := List.mem_map.mp hy'
    obtain ⟨n, -, rfl⟩ := mem_innerArc.mp hx
    obtain ⟨e, -, hx'⟩ := List.mem_filterMap.mp hx'
    have he := hself hx'
    rw [← heq] at he
    cases he

/-- **The halves of one node do not tie.** -/
theorem untied (mem : CspfHalf N → SpfNode (CspfHalf N) (CspfArc N (PeerEdge N)) C) :
    Untied (g.context mem) where
  loop_pos u hu x hx hto := by
    rcases cost_context (mem_context.mp hu) hx with hx | hpos
    · obtain ⟨n, rfl, rfl⟩ := mem_innerArc.mp hx
      cases hto
    · omega
  ids u hu p hp x hx y hy hto hxu hyp hid := by
    have hu := mem_context.mp hu
    have hp := mem_context.mp hp
    rw [(node_context hp).1, (node_context hu).1] at hid
    have hnode := g.ids _ hp _ hu hid
    rcases (mem_edges hu).mp hx with hx | ⟨e, he, hx⟩
    · -- the other edge leads from the half where this one ends, or from the same half
      obtain ⟨n, rfl, rfl⟩ := mem_innerArc.mp hx
      cases p with
      | a m => exact congrArg CspfHalf.a hnode
      | b m =>
        obtain rfl : m = n := hnode
        exact absurd rfl hyp
    · rcases (mem_edges hp).mp hy with hy | ⟨e', he', hy⟩
      · obtain ⟨n, rfl, rfl⟩ := mem_innerArc.mp hy
        cases u with
        | a m => exact congrArg CspfHalf.a hnode
        | b m =>
          obtain rfl : n = m := hnode
          exact absurd hto hxu
      · obtain ⟨hfrom, hto', -, -, hbefore, hafter⟩ := arcAt_spec hx
        obtain ⟨hfrom', hto'', -, -, hbefore', hafter'⟩ := arcAt_spec hy
        have hsame : e = e' := by
          refine edge_unique he he' ?_ ?_
          · rw [hfrom, hfrom', hnode]
          · rw [← hto', ← hto'', hto]
        subst hsame
        refine half_eq hnode ?_
        by_cases hpb : p.IsB
        · by_cases hub : u.IsB
          · exact iff_of_true hpb hub
          · have hpeer := (hbefore hub).1.mp (hto ▸ (hafter' hpb).1)
            rcases (hafter' hpb).2 with htype | htype <;> rw [hpeer] at htype <;> cases htype
        · by_cases hub : u.IsB
          · have hpeer := (hbefore' hpb).1.mp (hto ▸ (hafter hub).1)
            rcases (hafter hub).2 with htype | htype <;> rw [hpeer] at htype <;> cases htype
          · exact iff_of_false hpb hub
  nodup u hu := by
    have hu := mem_context.mp hu
    refine ((selves_nodup hu).of_map _).map_on fun x hx y hy heq => ?_
    obtain ⟨hto, hcost⟩ := Prod.mk.inj heq
    rcases (mem_edges hu).mp hx with hx | ⟨e, he, hx⟩
    · obtain ⟨n, rfl, rfl⟩ := mem_innerArc.mp hx
      rcases cost_context hu hy with hy | hpos
      · obtain ⟨m, hm, rfl⟩ := mem_innerArc.mp hy
        cases hm
        rfl
      · dsimp only at hcost
        omega
    · obtain ⟨hfrom, hto', hcost', -⟩ := arcAt_spec hx
      have hpos := g.cost_pos e he
      rcases (mem_edges hu).mp hy with hy | ⟨e', he', hy⟩
      · obtain ⟨n, rfl, rfl⟩ := mem_innerArc.mp hy
        dsimp only at hcost
        omega
      · obtain ⟨hfrom', hto'', -⟩ := arcAt_spec hy
        have hsame : e = e' := by
          refine edge_unique he he' (hfrom.trans hfrom'.symm) ?_
          rw [← hto', ← hto'', hto]
        subst hsame
        exact Option.some.inj (hx.symm.trans hy)

end Dvpn
