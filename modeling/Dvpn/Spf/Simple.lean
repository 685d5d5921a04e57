import Dvpn.Spf.Shortest

/-!
# Shortest paths in simple contexts (`spf.c`)

Contexts as the functions of `spf.c` build them (`SpfBuilt`), with distinct node ids, no loops, at
most one edge from a node to another, and edges that cost something (`SpfSimple`). A path is one
that `spf_run` looks at: a shortest path, and one that goes on over another edge.

* `shortest_unique`: such fields are fixed by the nodes and edges, in whatever order they were
  added.
* `spf_run_shortest`: what `spf_run` leaves in the nodes.
-/

namespace Dvpn

open Dijkstra (Least Walk)

variable {P E C : Type} [DecidableEq P] {ctx ctx' : SpfContext P E C} {source u v p : P}
  {e : SpfEdge P E} {f f' : SpfFields P}

/-- The contexts that calls of the functions of `spf.c` lead to: a node is added when it is not
there, and a node or an edge is deleted when it is there. -/
inductive SpfBuilt [DecidableEq E] : SpfContext P E C → Prop
  | init (node : P → SpfNode P E C) : SpfBuilt (spfInit node)
  | nodeAdd {ctx : SpfContext P E C} {p : P} :
      SpfBuilt ctx → p ∉ ctx.nodes → SpfBuilt (spfNodeAdd ctx p)
  | nodeDel {ctx : SpfContext P E C} {p : P} :
      SpfBuilt ctx → p ∈ ctx.nodes → SpfBuilt (spfNodeDel ctx p)
  | edgeAdd {ctx : SpfContext P E C} (p : P) (e : SpfEdge P E) :
      SpfBuilt ctx → SpfBuilt (spfEdgeAdd ctx p e)
  | edgeDel {ctx : SpfContext P E C} {p : P} {e : SpfEdge P E} :
      SpfBuilt ctx → e ∈ (ctx.node p).edges → SpfBuilt (spfEdgeDel ctx p e.self)

/-- Nodes with distinct ids, no loops, at most one edge from a node to another, and edges that cost
something; what a shortest path costs that goes on over another edge is below `INT_MAX`. -/
structure SpfSimple (ctx : SpfContext P E C) (source : P) : Prop where
  source_mem : source ∈ ctx.nodes
  ids : ∀ u ∈ ctx.nodes, ∀ v ∈ ctx.nodes, (ctx.node u).id = (ctx.node v).id → u = v
  closed : ∀ u ∈ ctx.nodes, ∀ e ∈ (ctx.node u).edges, e.to' ∈ ctx.nodes
  pairs : ∀ u ∈ ctx.nodes, ((ctx.node u).edges.map SpfEdge.to').Nodup
  no_loop : ∀ u ∈ ctx.nodes, ∀ e ∈ (ctx.node u).edges, e.to' ≠ u
  cost_pos : ∀ u ∈ ctx.nodes, ∀ e ∈ (ctx.node u).edges, 1 ≤ e.cost
  below : ∀ u c, Least ctx.arcs source u c → ∀ e ∈ (ctx.node u).edges, c + e.cost < INT_MAX

/-- The same nodes and edges, in another order. -/
structure Reordered (ctx ctx' : SpfContext P E C) : Prop where
  nodes : ctx.nodes.Perm ctx'.nodes
  ids : ∀ u ∈ ctx.nodes, (ctx.node u).id = (ctx'.node u).id
  edges : ∀ u ∈ ctx.nodes, (ctx.node u).edges.Perm (ctx'.node u).edges

/-- **`num_nodes` counts the nodes.** -/
theorem SpfBuilt.count [DecidableEq E] (h : SpfBuilt ctx) : ctx.numNodes = ctx.nodes.length := by
  induction h with
  | init node => rfl
  | nodeAdd _ _ ih =>
    dsimp only [spfNodeAdd]
    rw [ih, List.length_append, List.length_singleton, Nat.cast_add, Nat.cast_one]
  | nodeDel _ hp ih =>
    have hpos := List.length_pos_of_mem hp
    dsimp only [spfNodeDel]
    rw [ih, List.length_erase_of_mem hp]
    omega
  | edgeAdd _ _ _ ih => exact ih
  | edgeDel _ _ ih => exact ih

namespace SpfSimple

omit [DecidableEq P] in
theorem sound (h : SpfSimple ctx source) (hcount : ctx.numNodes = ctx.nodes.length) :
    SpfSound ctx source where
  count := hcount
  source_mem := h.source_mem
  closed := h.closed
  nonneg u hu e he := by
    have hpos := h.cost_pos u hu e he
    omega
  into_source u hu e he _ := by
    have hpos := h.cost_pos u hu e he
    omega
  below := h.below

omit [DecidableEq P] in
theorem untied (h : SpfSimple ctx source) : Untied ctx where
  loop_pos u hu e he _ := by
    have hpos := h.cost_pos u hu e he
    omega
  ids u hu p hp _ _ _ _ _ _ _ hid := h.ids p hp u hu hid
  nodup u hu := by
    have hnodup := h.pairs u hu
    have hfst : (ctx.node u).edges.map SpfEdge.to' = (ctx.arcs u).map Prod.fst := by
      unfold SpfContext.arcs
      rw [List.map_map]
      rfl
    rw [hfst] at hnodup
    exact hnodup.of_map _

end SpfSimple

namespace Reordered

omit [DecidableEq P] in
theorem mem_arcs_iff (h : Reordered ctx ctx') (hu : u ∈ ctx.nodes) {a : P × Int} :
    a ∈ ctx.arcs u ↔ a ∈ ctx'.arcs u := by
  unfold SpfContext.arcs
  exact ((h.edges u hu).map _).mem_iff

omit [DecidableEq P] in
theorem symm (h : Reordered ctx ctx') : Reordered ctx' ctx where
  nodes := h.nodes.symm
  ids u hu := (h.ids u (h.nodes.mem_iff.mpr hu)).symm
  edges u hu := (h.edges u (h.nodes.mem_iff.mpr hu)).symm

omit [DecidableEq P] in
theorem walk (h : Reordered ctx ctx') (hs : SpfSound ctx source) {c : Int}
    (hw : Walk ctx.arcs source v c) : Walk ctx'.arcs source v c :=
  Walk.mono (N := hs.network) hw fun _ hu _ ha => (h.mem_arcs_iff hu).mp ha

omit [DecidableEq P] in
theorem least (h : Reordered ctx ctx') (hs : SpfSound ctx source) (hs' : SpfSound ctx' source)
    {c : Int} (hl : Least ctx.arcs source v c) : Least ctx'.arcs source v c :=
  ⟨h.walk hs hl.1, fun c' hw => hl.2 c' (h.symm.walk hs' hw)⟩

omit [DecidableEq P] in
/-- The tight edges to a node are the same. -/
theorem tight (h : Reordered ctx ctx') (hp : p ∈ ctx.nodes) (hcost : ∀ u ∈ ctx.nodes,
    f.cost u = f'.cost u) (hv : v ∈ ctx.nodes)
    (ht : ∃ e ∈ (ctx.node p).edges, e.to' = v ∧ f.cost p + e.cost = f.cost v) :
    ∃ e ∈ (ctx'.node p).edges, e.to' = v ∧ f'.cost p + e.cost = f'.cost v := by
  obtain ⟨e, he, hto, htight⟩ := ht
  refine ⟨e, (h.edges p hp).mem_iff.mp he, hto, ?_⟩
  rwa [← hcost p hp, ← hcost v hv]

end Reordered

omit [DecidableEq P] in
/-- A simple context stays simple in another order. -/
theorem SpfSimple.reordered (hs : SpfSimple ctx source) (h : Reordered ctx ctx')
    (hcount : ctx.numNodes = ctx.nodes.length) : SpfSimple ctx' source := by
  have hmem : ∀ {u}, u ∈ ctx'.nodes → u ∈ ctx.nodes := fun hu => h.nodes.mem_iff.mpr hu
  have hedge : ∀ {u e}, u ∈ ctx'.nodes → e ∈ (ctx'.node u).edges → e ∈ (ctx.node u).edges :=
    fun hu he => (h.edges _ (hmem hu)).mem_iff.mpr he
  have hsound := hs.sound hcount
  -- what is walked to in `ctx'` is a node of it
  have hwalk : ∀ {u c}, Walk ctx'.arcs source u c → u ∈ ctx'.nodes ∧ Walk ctx.arcs source u c := by
    intro u c hw
    induction hw with
    | nil => exact ⟨h.nodes.mem_iff.mp hs.source_mem, .nil⟩
    | snoc _ ha ih =>
      have ha' := (h.mem_arcs_iff (hmem ih.1)).mpr ha
      obtain ⟨e, he, rfl, -⟩ := mem_arcs.mp ha'
      exact ⟨h.nodes.mem_iff.mp (hs.closed _ (hmem ih.1) e he), .snoc ih.2 ha'⟩
  exact {
    source_mem := h.nodes.mem_iff.mp hs.source_mem
    ids := by
      intro u hu v hv hid
      rw [← h.ids u (hmem hu), ← h.ids v (hmem hv)] at hid
      exact hs.ids u (hmem hu) v (hmem hv) hid
    closed := fun u hu e he => h.nodes.mem_iff.mp (hs.closed u (hmem hu) e (hedge hu he))
    pairs := fun u hu => ((h.edges u (hmem hu)).map _).nodup_iff.mp (hs.pairs u (hmem hu))
    no_loop := fun u hu e he => hs.no_loop u (hmem hu) e (hedge hu he)
    cost_pos := fun u hu e he => hs.cost_pos u (hmem hu) e (hedge hu he)
    below := by
      rintro u c ⟨hw, hleast⟩ e he
      obtain ⟨hu, hw'⟩ := hwalk hw
      exact hs.below u c ⟨hw', fun c' hc' => hleast c' (h.walk hsound hc')⟩ e (hedge hu he) }

omit [DecidableEq P] in
/-- **The order does not matter.** Two contexts with the same nodes and edges have the same shortest
paths. -/
theorem shortest_unique (hs : SpfSimple ctx source) (hsound : SpfSound ctx source)
    (hsound' : SpfSound ctx' source) (h : Reordered ctx ctx') (hf : Shortest ctx source f)
    (hf' : Shortest ctx' source f') (hv : v ∈ ctx.nodes) :
    f'.cost v = f.cost v ∧ f'.parent v = f.parent v := by
  have hmem' : ∀ {u}, u ∈ ctx.nodes → u ∈ ctx'.nodes := fun hu => h.nodes.mem_iff.mp hu
  have hinf : ∀ {u}, u ∈ ctx.nodes → (f.cost u = INT_MAX ↔ f'.cost u = INT_MAX) := by
    intro u hu
    rw [hf.unreachable u hu, hf'.unreachable u (hmem' hu)]
    exact ⟨fun hn c hw => hn c (h.symm.walk hsound' hw), fun hn c hw => hn c (h.walk hsound hw)⟩
  have hcost : ∀ u ∈ ctx.nodes, f.cost u = f'.cost u := by
    intro u hu
    by_cases hk : f.cost u = INT_MAX
    · rw [hk, (hinf hu).mp hk]
    · have hl := h.least hsound hsound' (hf.cost u hu hk)
      have hl' := hf'.cost u (hmem' hu) fun hk' => hk ((hinf hu).mpr hk')
      exact le_antisymm (hl.2 _ hl'.1) (hl'.2 _ hl.1)
  refine ⟨(hcost v hv).symm, ?_⟩
  by_cases hk : f.cost v = INT_MAX
  · rw [hf.no_parent v hv hk, hf'.no_parent v (hmem' hv) ((hinf hv).mp hk)]
  by_cases hsource : v = source
  · rw [hsource, hf.source_parent, hf'.source_parent]
  · obtain ⟨p, hp, hpar, htight, hleast⟩ := hf.parent v hv hk hsource
    obtain ⟨q, hq, hpar', htight', hleast'⟩ :=
      hf'.parent v (hmem' hv) (fun hk' => hk ((hinf hv).mpr hk')) hsource
    -- each of the two parents is tight in both contexts
    have hq' : q ∈ ctx.nodes := h.nodes.mem_iff.mpr hq
    have hle := hleast q hq' (h.symm.tight hq (fun u hu =>
      (hcost u (h.nodes.mem_iff.mpr hu)).symm) (hmem' hv) htight')
    have hle' := hleast' p (hmem' hp) (h.tight hp hcost hv htight)
    rw [← h.ids p hp, ← h.ids q hq'] at hle'
    rw [hpar, hpar', hs.ids p hp q hq' (le_antisymm hle hle')]

/-- **`spf_run`** on a simple context ends without a crash: the costs are the distances, and
`INT_MAX` where there is no path; a parent is the node of least id before the last edge of a
shortest path, and NULL for the source and for what has no path. The order in which nodes and edges
were added makes no difference. -/
theorem spf_run_shortest [DecidableEq E] (hb : SpfBuilt ctx) (hs : SpfSimple ctx source)
    (fields : SpfFields P) :
    ∃ f, (∀ fuel, ctx.nodes.length ≤ fuel → spfRun fuel ctx fields source = some (.ok f)) ∧
      Shortest ctx source f ∧
      ∀ ctx' : SpfContext P E C, SpfBuilt ctx' → Reordered ctx ctx' → ∀ fields' : SpfFields P,
        ∃ f', (∀ fuel, ctx'.nodes.length ≤ fuel →
            spfRun fuel ctx' fields' source = some (.ok f')) ∧
          ∀ v ∈ ctx.nodes, f'.cost v = f.cost v ∧ f'.parent v = f.parent v := by
  have hsound := hs.sound hb.count
  obtain ⟨f, hrun, hf⟩ := spfRun_spec hsound hs.untied fields
  refine ⟨f, hrun, hf, fun ctx' hb' h fields' => ?_⟩
  have hs' := hs.reordered h hb.count
  have hsound' := hs'.sound hb'.count
  obtain ⟨f', hrun', hf'⟩ := spfRun_spec hsound' hs'.untied fields'
  exact ⟨f', hrun', fun v hv => shortest_unique hs hsound hsound' h hf hf' hv⟩

/-- Two nodes, with an edge from the first to the second that costs 3. -/
def twoNodes : SpfContext Bool Unit Unit :=
  let ctx := spfInit fun p => ⟨filledId (if p then 1 else 0), none, []⟩
  spfEdgeAdd (spfNodeAdd (spfNodeAdd ctx false) true) false ⟨(), true, 3⟩

example : ((spfRun 2 twoNodes ⟨fun _ => none, fun _ => 0, fun _ => 0⟩ false).map fun r =>
    r.map fun f => (f.cost true, f.parent true)) = some (.ok (3, some false)) := by
  decide +kernel

theorem twoNodes_built : SpfBuilt twoNodes :=
  .edgeAdd _ _ (.nodeAdd (.nodeAdd (.init _) (by decide)) (by decide))

/-- `twoNodes` is a simple context. -/
theorem twoNodes_simple : SpfSimple twoNodes false where
  source_mem := by decide
  ids := by decide
  closed := by decide
  pairs := by decide
  no_loop := by decide
  cost_pos := by decide
  below := by
    rintro u c ⟨-, hleast⟩ e he
    cases u with
    | true => cases he
    | false =>
      obtain rfl := List.mem_singleton.mp he
      have hle := hleast 0 .nil
      change c + 3 < (INT_MAX : Int)
      unfold INT_MAX
      omega

theorem spf_run_shortest_twoNodes : ∃ f,
    (∀ fuel, 2 ≤ fuel →
        spfRun fuel twoNodes ⟨fun _ => none, fun _ => 0, fun _ => 0⟩ false = some (.ok f)) ∧
      Shortest twoNodes false f := by
  obtain ⟨f, hrun, hf, -⟩ := spf_run_shortest twoNodes_built twoNodes_simple
    ⟨fun _ => none, fun _ => 0, fun _ => 0⟩
  exact ⟨f, hrun, hf⟩

end Dvpn
