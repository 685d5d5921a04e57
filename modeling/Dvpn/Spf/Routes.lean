import Dvpn.Spf.ValleyFree

/-!
# The routes that `cspf_run` finds (`cspf.c:114-136`)

* `CheapestRoutes`: the costs and the parents of the nodes.
* `cheapestRoutes`, `cspfRun_spec`: they are there after `cspf_run`.
* `delete_all`: after all nodes and edges were deleted, in any order, nothing is left.
* `cspf_routes`: both for every graph of peers.
-/

namespace Dvpn

open Dijkstra (Least Walk)

variable {N C : Type} [DecidableEq N] {g : PeerGraph N C} {n m s : N}
  {mem : CspfHalf N → SpfNode (CspfHalf N) (CspfArc N (PeerEdge N)) C} {f : SpfFields (CspfHalf N)}
  {half : CspfHalf N} {x : SpfEdge (CspfHalf N) (CspfArc N (PeerEdge N))} {e : PeerEdge N}

/-- The costs of the nodes are those of the cheapest valley-free routes; the parent of a node is the
one before it on such a route. -/
structure CheapestRoutes (g : PeerGraph N C) (ctx : CspfContext N (PeerEdge N) C) (s : N)
    (f : SpfFields (CspfHalf N)) : Prop where
  le : ∀ n ∈ g.nodes, cspfNodeCost f n ≤ INT_MAX
  cost : ∀ n ∈ g.nodes, cspfNodeCost f n ≠ INT_MAX →
    IsLeast {c | ∃ es, PeerWalk g s es n ∧ ValleyFree es ∧ total es = c} (cspfNodeCost f n)
  unreachable : ∀ n ∈ g.nodes,
    cspfNodeCost f n = INT_MAX ↔ ∀ es, PeerWalk g s es n → ¬ ValleyFree es
  no_parent : ∀ n ∈ g.nodes, n = s ∨ cspfNodeCost f n = INT_MAX → cspfNodeParent ctx f n = none
  parent : ∀ n ∈ g.nodes, n ≠ s → cspfNodeCost f n ≠ INT_MAX → ∃ m ∈ g.nodes, m ≠ n ∧
    cspfNodeParent ctx f n = g.cookie m ∧ ∃ es e, e.from' = m ∧ PeerWalk g s (es ++ [e]) n ∧
      ValleyFree (es ++ [e]) ∧ total (es ++ [e]) = cspfNodeCost f n

section Parents

variable (hs : s ∈ g.nodes) (hf : Shortest (g.context mem) (.a s) f)
include hs hf

omit hs in
/-- A tight edge starts where there is a path to. -/
theorem known_of_tight (hh : half.node ∈ g.nodes) (hk : f.cost half ≠ INT_MAX) {p : CspfHalf N}
    (hp : p.node ∈ g.nodes) (hx : x ∈ ((g.context mem).node p).edges)
    (htight : f.cost p + x.cost = f.cost half) : f.cost p ≠ INT_MAX := by
  intro hinf
  have hle := hf.le half (mem_context.mpr hh)
  have hnonneg := nonneg_context hp hx
  omega

/-- **A tight edge of the graph ends a cheapest route**, to its end or on to the half after it. -/
theorem route_of_tight (hn : n ∈ g.nodes) (hh : half.node = n)
    (hcost : f.cost half = f.cost (.b n)) (hk : f.cost (.b n) ≠ INT_MAX) {p : CspfHalf N}
    (hp : p.node ∈ g.nodes) (he : e ∈ g.edges) (hx : e.arcAt p = some x) (hto : x.to' = half)
    (htight : f.cost p + x.cost = f.cost half) :
    p.node ≠ n ∧ ∃ es, e.from' = p.node ∧ PeerWalk g s (es ++ [e]) n ∧ ValleyFree (es ++ [e]) ∧
      total (es ++ [e]) = cspfNodeCost f n := by
  have hmem := (@mem_edges _ _ _ _ _ _ mem hp).mpr (Or.inr ⟨e, he, hx⟩)
  obtain ⟨hfrom, -, hxc, hself, -⟩ := arcAt_spec hx
  have hpos := g.cost_pos e he
  have hkp := known_of_tight hf (hh ▸ hn) (hcost ▸ hk) hp hmem htight
  have hl := hf.cost p (mem_context.mpr hp) hkp
  refine ⟨fun hpn => ?_, ?_⟩
  · -- the halves of one node cost the same, or the one after the peak is cheaper
    have hwn : Walk (g.context mem).arcs (.a s) (.b n) (f.cost p) :=
      walk_half hs hl.1 hpn fun _ => trivial
    have hle := (hf.cost (.b n) (mem_context.mpr hn) hk).2 _ hwn
    omega
  · obtain ⟨as, has, hsum⟩ := walk_iff.mp hl.1
    have hstep := has.snoc hmem
    -- the walk over this edge to the half after the peak
    obtain ⟨bs, hbs, hedges, htotal⟩ : ∃ bs, SpfWalk (g.context mem) (.a s) bs (.b n) ∧
        peerEdges bs = peerEdges as ++ [e] ∧ spfTotal bs = f.cost (.b n) := by
      have htot : spfTotal (as ++ [x]) = f.cost half := by
        unfold spfTotal at hsum ⊢
        rw [List.map_append, List.sum_append, hsum, List.map_singleton, List.sum_singleton]
        exact htight
      have hproj : peerEdges (as ++ [x]) = peerEdges as ++ [e] := by
        unfold peerEdges
        rw [List.filterMap_append, List.filterMap_cons, hself]
        rfl
      rw [hto] at hstep
      cases half with
      | b n' =>
        obtain rfl : n' = n := hh
        exact ⟨_, hstep, hproj, htot⟩
      | a n' =>
        obtain rfl : n' = n := hh
        have hab : (⟨.ab n', .b n', 0⟩ : SpfEdge (CspfHalf N) (CspfArc N (PeerEdge N))) ∈
            ((g.context mem).node (.a n')).edges :=
          (mem_edges hn).mpr (Or.inl (mem_innerArc.mpr ⟨n', rfl, rfl⟩))
        refine ⟨_, hstep.snoc hab, ?_, ?_⟩
        · unfold peerEdges at hproj ⊢
          rw [List.filterMap_append, hproj]
          exact List.append_nil _
        · unfold spfTotal at htot ⊢
          rw [List.map_append, List.sum_append, htot, hcost]
          exact add_zero _
    obtain ⟨hw, hvalley⟩ := (route_iff hs).mpr ⟨bs, hbs, hedges⟩
    refine ⟨peerEdges as, hfrom, hw, hvalley, ?_⟩
    have hsame := (hbs.route hs).2.1
    rw [hedges, htotal] at hsame
    exact hsame

/-- The half of the source after the peak is reached over the edge inside the source. -/
theorem parent_source : f.parent (.b s) = some (.a s) := by
  have hb : CspfHalf.b s ∈ (g.context mem).nodes := mem_context.mpr hs
  have hzero : Walk (g.context mem).arcs (.a s) (.b s) 0 := walk_half hs .nil rfl fun _ => trivial
  have hk : f.cost (.b s) ≠ INT_MAX := fun hinf => (hf.unreachable _ hb).mp hinf 0 hzero
  have hle := (hf.cost _ hb hk).2 0 hzero
  obtain ⟨p, hp, hpar, ⟨x, hx, hto, htight⟩, -⟩ := hf.parent _ hb hk fun he => by cases he
  have hp' := mem_context.mp hp
  rcases (mem_edges hp').mp hx with hx | ⟨e, he, hx'⟩
  · obtain ⟨n, rfl, rfl⟩ := mem_innerArc.mp hx
    cases hto
    exact hpar
  · have hkp := @known_of_tight _ _ _ _ _ _ _ (.b s) _ hf hs hk _ hp' hx htight
    have hnonneg := walk_nonneg hs (hf.cost p hp hkp).1
    have hpos := g.cost_pos e he
    have hcost := (arcAt_spec hx').2.2.1
    omega

/-- **The routes are those of the shortest paths.** -/
theorem cheapestRoutes : CheapestRoutes g (g.context mem) s f := by
  have hb : ∀ {n}, n ∈ g.nodes → CspfHalf.b n ∈ (g.context mem).nodes :=
    fun hn => mem_context.mpr hn
  have ha : ∀ {n}, n ∈ g.nodes → CspfHalf.a n ∈ (g.context mem).nodes :=
    fun hn => mem_context.mpr hn
  have hunreach : ∀ n ∈ g.nodes,
      cspfNodeCost f n = INT_MAX ↔ ∀ es, PeerWalk g s es n → ¬ ValleyFree es := by
    intro n hn
    refine (hf.unreachable _ (hb hn)).trans ⟨fun hno es hw hvalley => ?_, fun hno c hw => ?_⟩
    · exact hno _ ((route_cost hs).mpr ⟨es, hw, hvalley, rfl⟩)
    · obtain ⟨es, hw, hvalley, -⟩ := (route_cost hs).mp hw
      exact hno es hw hvalley
  refine ⟨fun n hn => hf.le _ (hb hn), fun n hn hk => ?_, hunreach, fun n hn hor => ?_,
    fun n hn hns hk => ?_⟩
  · obtain ⟨hw, hleast⟩ := hf.cost _ (hb hn) hk
    refine ⟨(route_cost hs).mp hw, ?_⟩
    rintro c hc
    exact hleast c ((route_cost hs).mpr hc)
  · rcases hor with rfl | hinf
    · rw [cspfNodeParent_inner (parent_source hs hf), hf.source_parent]
      rfl
    · have hnone := hf.no_parent _ (hb hn) hinf
      rw [cspfNodeParent_outer (by rw [hnone]; simp), hnone]
      rfl
  · have hcookie : ∀ {p : CspfHalf N}, p ∈ (g.context mem).nodes →
        ((g.context mem).node p).cookie = g.cookie p.node :=
      fun hp => (node_context (mem_context.mp hp)).2.1
    obtain ⟨p, hp, hpar, ⟨x, hx, hto, htight⟩, -⟩ := hf.parent _ (hb hn) hk fun he => by cases he
    rcases (mem_edges (mem_context.mp hp)).mp hx with hx | ⟨e, he, hx⟩
    · -- the route comes to the half before the peak
      obtain ⟨n', rfl, rfl⟩ := mem_innerArc.mp hx
      cases hto
      have hcost : f.cost (.a n) = f.cost (.b n) := (add_zero _).symm.trans htight
      obtain ⟨q, hq, hpar', ⟨y, hy, hto', htight'⟩, -⟩ :=
        hf.parent _ (ha hn) (hcost.trans_ne hk) fun he => hns (by cases he; rfl)
      rcases (mem_edges (mem_context.mp hq)).mp hy with hy | ⟨e, he, hy⟩
      · obtain ⟨n', rfl, rfl⟩ := mem_innerArc.mp hy
        cases hto'
      · obtain ⟨hne, es, hes⟩ :=
          route_of_tight hs hf hn rfl hcost hk (mem_context.mp hq) he hy hto' htight'
        refine ⟨q.node, mem_context.mp hq, hne, ?_, es, e, hes⟩
        rw [cspfNodeParent_inner hpar, hpar']
        exact hcookie hq
    · obtain ⟨hne, es, hes⟩ :=
        route_of_tight hs hf hn rfl rfl hk (mem_context.mp hp) he hx hto htight
      refine ⟨p.node, mem_context.mp hp, hne, ?_, es, e, hes⟩
      have hpa : f.parent (.b n) ≠ some (.a n) := by
        rw [hpar]
        exact fun h => hne (Option.some.inj h ▸ rfl)
      rw [cspfNodeParent_outer hpa, hpar]
      exact hcookie hp

end Parents

/-! ## Deletion -/

/-- A call of `cspf_node_del` or `cspf_edge_del`. -/
inductive CspfDelete (N : Type) where
  | node (n : N)
  | edge (e : PeerEdge N)
  deriving DecidableEq

/-- What the call does. -/
def CspfDelete.run (ctx : CspfContext N (PeerEdge N) C) : CspfDelete N →
    CspfContext N (PeerEdge N) C
  | .node n => cspfNodeDel ctx n
  | .edge e => cspfEdgeDel ctx e e.from' e.type

/-- The halves that the call deletes. -/
def CspfDelete.halves : CspfDelete N → List (CspfHalf N)
  | .node n => [.a n, .b n]
  | .edge _ => []

/-- The edges that the call deletes, with the halves that they start from. -/
def CspfDelete.arcs : CspfDelete N → List (CspfHalf N × CspfArc N (PeerEdge N))
  | .node n => [(.a n, .ab n)]
  | .edge e =>
    match e.type with
    | .epeer => [(.a e.from', .e0 e)]
    | .customer => [(.b e.from', .e0 e)]
    | .transit => [(.a e.from', .e0 e)]
    | .ipeer => [(.a e.from', .e0 e), (.b e.from', .e1 e)]
    | .invalid => []
    | .dbonly => []

variable {ctx : CspfContext N (PeerEdge N) C} {op : CspfDelete N} {ops : List (CspfDelete N)}

theorem mem_eraseP_self {α β : Type} [DecidableEq β] {key : α → β} {l : List α} {i : β} {x : α}
    (h : (l.map key).Nodup) : x ∈ l.eraseP (fun e => key e = i) ↔ x ∈ l ∧ key x ≠ i := by
  induction l with
  | nil => simp
  | cons y l ih =>
    rw [List.map_cons, List.nodup_cons] at h
    have hkey : ∀ z ∈ l, key z ≠ key y := fun z hz he => h.1 (he ▸ List.mem_map_of_mem hz)
    by_cases hy : key y = i
    · rw [List.eraseP_cons_of_pos (by simpa using hy)]
      constructor
      · exact fun hx => ⟨List.mem_cons_of_mem y hx, hy ▸ hkey x hx⟩
      · rintro ⟨hx, hne⟩
        exact (List.mem_cons.mp hx).resolve_left fun he => hne (he ▸ hy)
    · rw [List.eraseP_cons_of_neg (by simpa using hy), List.mem_cons, List.mem_cons, ih h.2]
      constructor
      · rintro (rfl | ⟨hx, hne⟩)
        · exact ⟨Or.inl rfl, hy⟩
        · exact ⟨Or.inr hx, hne⟩
      · rintro ⟨hx, hne⟩
        exact hx.imp_right fun hx => ⟨hx, hne⟩

/-- The edges of a half have different addresses, for the halves of the nodes `l`. -/
def SelvesNodup (l : List N) (ctx : CspfContext N (PeerEdge N) C) : Prop :=
  ∀ half : CspfHalf N, half.node ∈ l → ((ctx.node half).edges.map SpfEdge.self).Nodup

variable {l : List N}

/-- **An edge is deleted**, and the others stay. -/
theorem spfEdgeDel_spec {p : CspfHalf N} {i : CspfArc N (PeerEdge N)} (h : SelvesNodup l ctx) :
    SelvesNodup l (spfEdgeDel ctx p i) ∧ ∀ half x, half.node ∈ l →
      (x ∈ ((spfEdgeDel ctx p i).node half).edges ↔
        x ∈ (ctx.node half).edges ∧ (half, x.self) ∉ [(p, i)]) := by
  unfold SelvesNodup spfEdgeDel
  dsimp only
  refine ⟨fun half hl => ?_, fun half x hl => ?_⟩
  · by_cases hp : half = p
    · subst hp
      rw [Function.update_self]
      exact (h half hl).sublist (List.eraseP_sublist.map _)
    · rw [Function.update_of_ne hp]
      exact h half hl
  · rw [List.mem_singleton]
    by_cases hp : half = p
    · subst hp
      rw [Function.update_self]
      refine (mem_eraseP_self (h half hl)).trans (and_congr_right fun _ => not_congr ?_)
      rw [Prod.mk.injEq, and_iff_right rfl]
    · rw [Function.update_of_ne hp]
      exact (and_iff_left fun he => hp (Prod.mk.inj he).1).symm

/-- **A call deletes its halves.** -/
theorem CspfDelete.run_nodes : (op.run ctx).nodes = ctx.nodes.diff op.halves ∧
    (op.run ctx).numNodes = ctx.numNodes - op.halves.length := by
  cases op with
  | node n =>
    refine ⟨?_, sub_sub ctx.numNodes 1 1⟩
    unfold CspfDelete.halves
    rw [List.diff_cons, List.diff_cons, List.diff_nil]
    rfl
  | edge e =>
    obtain ⟨f, t, type, c⟩ := e
    have hzero : ctx.numNodes = ctx.numNodes - (([] : List (CspfHalf N)).length : Int) :=
      (sub_zero _).symm
    cases type <;> exact ⟨(List.diff_nil _).symm, hzero⟩

/-- **A call deletes its edges.** -/
theorem CspfDelete.run_edges (h : SelvesNodup l ctx) : SelvesNodup l (op.run ctx) ∧
    ∀ half x, half.node ∈ l → (x ∈ ((op.run ctx).node half).edges ↔
      x ∈ (ctx.node half).edges ∧ (half, x.self) ∉ op.arcs) := by
  cases op with
  | node n => exact @spfEdgeDel_spec _ _ _ (spfNodeDel (spfNodeDel ctx (.a n)) (.b n)) _ _ _ h
  | edge e =>
    obtain ⟨f, t, type, c⟩ := e
    cases type with
    | epeer => exact spfEdgeDel_spec h
    | customer => exact spfEdgeDel_spec h
    | transit => exact spfEdgeDel_spec h
    | ipeer =>
      obtain ⟨hnodup, hmem⟩ := spfEdgeDel_spec (p := .a f) (i := .e0 ⟨f, t, .ipeer, c⟩) h
      obtain ⟨hnodup', hmem'⟩ := spfEdgeDel_spec (p := .b f) (i := .e1 ⟨f, t, .ipeer, c⟩) hnodup
      refine ⟨hnodup', fun half x hl => (hmem' half x hl).trans ?_⟩
      rw [hmem half x hl, and_assoc, List.mem_singleton, List.mem_singleton, ← not_or]
      exact and_congr_right fun _ => not_congr (by simp [CspfDelete.arcs])
    | invalid => exact ⟨h, fun half x _ => (and_iff_left List.not_mem_nil).symm⟩
    | dbonly => exact ⟨h, fun half x _ => (and_iff_left List.not_mem_nil).symm⟩

theorem foldl_run_nodes : (ops.foldl CspfDelete.run ctx).nodes =
      ctx.nodes.diff (ops.flatMap CspfDelete.halves) ∧
    (ops.foldl CspfDelete.run ctx).numNodes =
      ctx.numNodes - (ops.flatMap CspfDelete.halves).length := by
  induction ops generalizing ctx with
  | nil => exact ⟨(List.diff_nil _).symm, (sub_zero _).symm⟩
  | cons op ops ih =>
    obtain ⟨hnodes, hcount⟩ := @CspfDelete.run_nodes _ _ _ ctx op
    rw [List.foldl_cons, ih.1, ih.2, hnodes, hcount, List.flatMap_cons, List.length_append]
    refine ⟨(List.diff_append ..).symm, ?_⟩
    push_cast
    exact sub_sub _ _ _

theorem foldl_run_edges (h : SelvesNodup l ctx) : ∀ half x, half.node ∈ l →
    (x ∈ ((ops.foldl CspfDelete.run ctx).node half).edges ↔
      x ∈ (ctx.node half).edges ∧ (half, x.self) ∉ ops.flatMap CspfDelete.arcs) := by
  induction ops generalizing ctx with
  | nil => exact fun half x _ => (and_iff_left List.not_mem_nil).symm
  | cons op ops ih =>
    intro half x hl
    obtain ⟨hnodup, hmem⟩ := @CspfDelete.run_edges _ _ _ _ op _ h
    rw [List.foldl_cons, ih hnodup half x hl, hmem half x hl, List.flatMap_cons, List.mem_append,
      not_or, and_assoc]

theorem mem_arcs_of_arcAt (h : e.arcAt half = some x) :
    (half, x.self) ∈ (CspfDelete.edge e).arcs := by
  obtain ⟨f, t, type, c⟩ := e
  unfold PeerEdge.arcAt at h
  split_ifs at h with hf
  cases half <;> cases type <;> simp at h <;> subst h <;>
    simp_all [CspfDelete.arcs, CspfHalf.node]

/-- **After all nodes and edges were deleted**, in any order, the context is empty, and so are the
nodes. -/
theorem delete_all (mem : CspfHalf N → SpfNode (CspfHalf N) (CspfArc N (PeerEdge N)) C)
    (hops : ops.Perm (g.edges.map .edge ++ g.nodes.map .node)) :
    (ops.foldl CspfDelete.run (g.context mem)).nodes = [] ∧
    (ops.foldl CspfDelete.run (g.context mem)).numNodes = 0 ∧
    ∀ half, half.node ∈ g.nodes →
      ((ops.foldl CspfDelete.run (g.context mem)).node half).edges = [] := by
  have hnode : ∀ n ∈ g.nodes, CspfDelete.node n ∈ ops := fun n hn =>
    hops.mem_iff.mpr (List.mem_append_right _ (List.mem_map_of_mem hn))
  have hedge : ∀ e ∈ g.edges, CspfDelete.edge e ∈ ops := fun e he =>
    hops.mem_iff.mpr (List.mem_append_left _ (List.mem_map_of_mem he))
  have hperm : (ops.flatMap CspfDelete.halves).Perm (g.context mem).nodes := by
    have hnil : (g.edges.map CspfDelete.edge).flatMap CspfDelete.halves = [] := by
      rw [List.flatMap_map]
      exact List.flatMap_eq_nil_iff.mpr fun e _ => rfl
    refine (hops.flatMap_right CspfDelete.halves).trans ?_
    rw [List.flatMap_append, hnil, List.nil_append, List.flatMap_map, context_nodes]
    exact .refl _
  refine ⟨?_, ?_, fun half hh => ?_⟩
  · rw [foldl_run_nodes.1, List.eq_nil_iff_forall_not_mem]
    intro half hmem
    obtain ⟨hin, hnot⟩ := nodup_context.mem_sdiff_iff.mp hmem
    exact hnot (hperm.mem_iff.mpr hin)
  · rw [foldl_run_nodes.2, count_context, hperm.length_eq]
    exact sub_self _
  · rw [List.eq_nil_iff_forall_not_mem]
    intro x hx
    obtain ⟨hx, hnot⟩ := (foldl_run_edges (fun half hh => selves_nodup hh) half x hh).mp hx
    refine hnot (List.mem_flatMap.mpr ?_)
    rcases (mem_edges hh).mp hx with hx | ⟨e, he, hx⟩
    · obtain ⟨n, rfl, rfl⟩ := mem_innerArc.mp hx
      exact ⟨.node n, hnode n hh, List.mem_singleton_self _⟩
    · exact ⟨.edge e, hedge e he, mem_arcs_of_arcAt hx⟩

/-- **`cspf_run`** ends without a crash and finds the cheapest valley-free routes. -/
theorem cspfRun_spec (ht : g.Bounded) (hs : s ∈ g.nodes)
    (mem : CspfHalf N → SpfNode (CspfHalf N) (CspfArc N (PeerEdge N)) C)
    (fields : SpfFields (CspfHalf N)) :
    ∃ f, (∀ fuel, 2 * g.nodes.length ≤ fuel →
        cspfRun fuel (g.context mem) fields s = some (.ok f)) ∧
      CheapestRoutes g (g.context mem) s f := by
  obtain ⟨f, hrun, hf⟩ := spfRun_spec (sound hs ht) (untied mem) fields
  refine ⟨f, fun fuel hfuel => hrun fuel ?_, cheapestRoutes hs hf⟩
  have hcount : ((g.context mem).nodes.length : Int) = 2 * g.nodes.length := by
    rw [← count_context]
    exact foldl_addEdge_nodes.2.trans foldl_addNode.2.1
  omega

/-- **Valley-free routing**: `cspf_run` finds the cheapest routes from every node, and the calls
that delete everything leave nothing. -/
theorem cspf_routes (g : PeerGraph N C) (ht : g.Bounded)
    (mem : CspfHalf N → SpfNode (CspfHalf N) (CspfArc N (PeerEdge N)) C)
    (fields : SpfFields (CspfHalf N)) :
    (∀ s ∈ g.nodes, ∃ f, (∀ fuel, 2 * g.nodes.length ≤ fuel →
        cspfRun fuel (g.context mem) fields s = some (.ok f)) ∧
      CheapestRoutes g (g.context mem) s f) ∧
    ∀ ops : List (CspfDelete N), ops.Perm (g.edges.map .edge ++ g.nodes.map .node) →
      (ops.foldl CspfDelete.run (g.context mem)).nodes = [] ∧
      (ops.foldl CspfDelete.run (g.context mem)).numNodes = 0 ∧
      ∀ half : CspfHalf N, half.node ∈ g.nodes →
        ((ops.foldl CspfDelete.run (g.context mem)).node half).edges = [] :=
  ⟨fun _ hs => cspfRun_spec ht hs mem fields, fun _ hops => delete_all mem hops⟩

/-- A node and its transit. -/
def transitPair : PeerGraph Bool Unit where
  nodes := [false, true]
  edges := [⟨false, true, .transit, 5⟩, ⟨true, false, .customer, 5⟩]
  id n := filledId (if n then 1 else 0)
  cookie _ := some ()
  nodup := by decide
  ids := by decide
  ends := by decide
  pairs := by decide
  types := by decide
  cost_pos := by decide

theorem transitPair_bounded : transitPair.Bounded := by
  unfold PeerGraph.Bounded
  decide

theorem cspf_routes_transitPair
    : (∀ mem fields, ∃ f, cspfRun 4 (transitPair.context mem) fields false = some (.ok f) ∧
        CheapestRoutes transitPair (transitPair.context mem) false f) ∧
      ∀ mem, ([CspfDelete.node false, .edge ⟨true, false, .customer, 5⟩, .node true,
        .edge ⟨false, true, .transit, 5⟩].foldl CspfDelete.run
          (transitPair.context mem)).nodes = [] := by
  refine ⟨fun mem fields => ?_, fun mem => ?_⟩
  · obtain ⟨f, hrun, hf⟩ :=
      (cspf_routes transitPair transitPair_bounded mem fields).1 false (by decide)
    exact ⟨f, hrun 4 (by decide), hf⟩
  · have hperm : [CspfDelete.node false, .edge ⟨true, false, .customer, 5⟩, .node true,
        .edge ⟨false, true, .transit, 5⟩].Perm
          (transitPair.edges.map .edge ++ transitPair.nodes.map .node) := by
      decide
    exact ((cspf_routes transitPair transitPair_bounded mem
      ⟨fun _ => none, fun _ => 0, fun _ => 0⟩).2 _ hperm).1

end Dvpn
