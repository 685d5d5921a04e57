import Dvpn.Basic

/-!
# Shortest paths (`spf.c`)

Nodes and edges are pointers, of types `P` and `E`; the lists of a context and of its nodes hold
what was added to them, oldest first. `SpfFields` are the fields of the nodes that `spf_run` sets,
and `SpfState` adds the heap of the run: `heap i` is `none` for a slot that was never written.

A slot that was never written, or that is outside the array, is a crash (`spfHeap`), as is a
comparison with a NULL parent. `int` is `Int`, and the one sum that can overflow wraps around.

The loop of `spf_run` takes fuel: `none` is a run that is not over. `pushDown` and `pullUp` end by
themselves.
-/

namespace Dvpn

variable {P E C : Type}

/-- `struct spf_edge`; `self` is its address. -/
structure SpfEdge (P E : Type) where
  self : E
  to' : P
  cost : Int
  deriving DecidableEq

/-- `struct spf_node`, less the fields that `spf_run` sets; `cookie` is a pointer. -/
structure SpfNode (P E C : Type) where
  id : NodeId
  cookie : Option C
  edges : List (SpfEdge P E)

/-- `struct spf_context`, and the nodes in memory. -/
structure SpfContext (P E C : Type) where
  nodes : List P
  numNodes : Int
  node : P → SpfNode P E C

/-- The fields of the nodes that `spf_run` sets; `parent` is `none` for NULL. -/
structure SpfFields (P : Type) where
  parent : P → Option P
  cost : P → Int
  heapidx : P → Int

/-- The state of `spf_run`. -/
structure SpfState (P : Type) extends SpfFields P where
  heap : Nat → Option P
  heapsize : Nat

/-! ## Contexts (`spf.c:28-57`) -/

/-- `spf_init`. -/
def spfInit (node : P → SpfNode P E C) : SpfContext P E C where
  nodes := []
  numNodes := 0
  node := node

variable [DecidableEq P]

/-- `spf_node_add`. -/
def spfNodeAdd (ctx : SpfContext P E C) (node : P) : SpfContext P E C where
  nodes := ctx.nodes ++ [node]
  numNodes := ctx.numNodes + 1
  node := Function.update ctx.node node { ctx.node node with edges := [] }

/-- `spf_node_del`. -/
def spfNodeDel (ctx : SpfContext P E C) (node : P) : SpfContext P E C :=
  { ctx with nodes := ctx.nodes.erase node, numNodes := ctx.numNodes - 1 }

/-- `spf_edge_add`. -/
def spfEdgeAdd (ctx : SpfContext P E C) (from' : P) (edge : SpfEdge P E) : SpfContext P E C :=
  let node := ctx.node from'
  { ctx with node := Function.update ctx.node from' { node with edges := node.edges ++ [edge] } }

/-- `spf_edge_del`. -/
def spfEdgeDel [DecidableEq E] (ctx : SpfContext P E C) (from' : P) (edge : E) :
    SpfContext P E C :=
  let node := ctx.node from'
  let edges := node.edges.eraseP fun e => e.self = edge
  { ctx with node := Function.update ctx.node from' { node with edges := edges } }

/-! ## The heap (`spf.c:59-112`) -/

/-- `heap[i]`. -/
def heapAt (s : SpfState P) (i : Nat) : Except Crash P :=
  match s.heap i with
  | some p => .ok p
  | none => .error .spfHeap

/-- The nodes of two slots change places, with their indices. -/
def swapSlots (s : SpfState P) (i j : Nat) : Except Crash (SpfState P) := do
  let p ← heapAt s i
  let q ← heapAt s j
  return { s with
    heap := Function.update (Function.update s.heap i (some q)) j (some p)
    heapidx := Function.update (Function.update s.heapidx q i) p j }

/-- `min` after one child. -/
def minChild (s : SpfState P) (heapsize min child : Nat) : Except Crash Nat := do
  if child < heapsize then
    let p ← heapAt s min
    let q ← heapAt s child
    return if s.cost p > s.cost q then child else min
  else return min

/-- `min` after both children. -/
def minChildren (s : SpfState P) (heapsize index : Nat) : Except Crash Nat := do
  let min ← minChild s heapsize index (2 * index + 1)
  minChild s heapsize min (2 * index + 2)

omit [DecidableEq P] in
theorem minChild_eq_ok {s : SpfState P} {heapsize min child m : Nat}
    (h : minChild s heapsize min child = .ok m) : m = min ∨ m = child ∧ child < heapsize := by
  unfold minChild at h
  split_ifs at h with hlt
  · obtain ⟨p, -, h⟩ := bind_eq_ok.mp h
    obtain ⟨q, -, h⟩ := bind_eq_ok.mp h
    obtain rfl := Except.ok.inj h
    split_ifs
    · exact Or.inr ⟨rfl, hlt⟩
    · exact Or.inl rfl
  · exact Or.inl (Except.ok.inj h).symm

omit [DecidableEq P] in
theorem minChildren_eq_ok {s : SpfState P} {heapsize index m : Nat}
    (h : minChildren s heapsize index = .ok m) :
    m = index ∨ (m = 2 * index + 1 ∨ m = 2 * index + 2) ∧ m < heapsize := by
  obtain ⟨min, hmin, h⟩ := bind_eq_ok.mp h
  rcases minChild_eq_ok h with rfl | ⟨rfl, hlt⟩
  · exact (minChild_eq_ok hmin).imp_right fun ⟨he, hlt⟩ => ⟨Or.inl he, by omega⟩
  · exact Or.inr ⟨Or.inr rfl, hlt⟩

/-- `push_down`, from `index` on. -/
def pushDown (s : SpfState P) (heapsize index : Nat) : Except Crash (SpfState P) :=
  match _h : minChildren s heapsize index with
  | .error e => .error e
  | .ok min =>
    if _hne : index = min then .ok s
    else
      match swapSlots s index min with
      | .error e => .error e
      | .ok s => pushDown s heapsize min
termination_by heapsize - index
decreasing_by
  have hmin := minChildren_eq_ok _h
  omega

/-- `pull_up`. -/
def pullUp (s : SpfState P) (index : Nat) : Except Crash (SpfState P) :=
  if h : index = 0 then .ok s
  else do
    let p ← heapAt s ((index - 1) / 2)
    let q ← heapAt s index
    if s.cost p ≤ s.cost q then return s
    else
      let s ← swapSlots s index ((index - 1) / 2)
      pullUp s ((index - 1) / 2)
termination_by index

/-! ## The run (`spf.c:114-186`) -/

/-- `nl`; `b` may be NULL. -/
def nl (ctx : SpfContext P E C) (a : P) (b : Option P) : Except Crash Bool :=
  match b with
  | none => .error .spfNlNull
  | some b =>
    let ret := memcmp (ctx.node a).id.1 (ctx.node b).id.1 NODE_ID_LEN
    if ret = 0 then .error .spfNl else .ok (ret < 0)

/-- `pull_up` of the slot of `to'`; there is no slot of a negative index. -/
def pullUpNode (s : SpfState P) (to' : P) : Except Crash (SpfState P) :=
  match s.heapidx to' with
  | .ofNat index => pullUp s index
  | .negSucc _ => .error .spfHeap

/-- `to'` is put at the end of the heap. -/
def pushBack (ctx : SpfContext P E C) (s : SpfState P) (to' : P) : Except Crash (SpfState P) :=
  if (s.heapsize : Int) < ctx.numNodes then
    .ok { s with
      heapidx := Function.update s.heapidx to' s.heapsize
      heap := Function.update s.heap s.heapsize (some to')
      heapsize := s.heapsize + 1 }
  else .error .spfHeap

/-- One round of the inner loop of `spf_run` (`spf.c:164-183`). -/
def relaxEdge (ctx : SpfContext P E C) (from' : P) (s : SpfState P) (edge : SpfEdge P E) :
    Except Crash (SpfState P) := do
  let to' := edge.to'
  let cost := toInt (s.cost from' + edge.cost)
  if cost < s.cost to' then
    let s ← if s.cost to' = INT_MAX then pushBack ctx s to' else pure s
    let s := { s with
      parent := Function.update s.parent to' (some from')
      cost := Function.update s.cost to' cost }
    pullUpNode s to'
  else if cost = s.cost to' then
    let closer ← nl ctx from' (s.parent to')
    return if closer then { s with parent := Function.update s.parent to' (some from') } else s
  else return s

/-- The root leaves the heap (`spf.c:152-162`). -/
def popRoot (s : SpfState P) : Except Crash (P × SpfState P) := do
  let from' ← heapAt s 0
  let s := { s with
    heapidx := Function.update s.heapidx from' (-1)
    heapsize := s.heapsize - 1 }
  if s.heapsize = 0 then return (from', s)
  else
    let last ← heapAt s s.heapsize
    let s := { s with
      heap := Function.update s.heap 0 (some last)
      heapidx := Function.update s.heapidx last 0 }
    return (from', ← pushDown s s.heapsize 0)

/-- One round of the outer loop of `spf_run`. -/
def spfStep (ctx : SpfContext P E C) (s : SpfState P) : Except Crash (SpfState P) := do
  let (from', s) ← popRoot s
  (ctx.node from').edges.foldlM (relaxEdge ctx from') s

/-- The outer loop of `spf_run`. -/
def spfLoop (ctx : SpfContext P E C) : Nat → SpfState P → Option (Except Crash (SpfState P))
  | fuel, s =>
    if s.heapsize = 0 then some (.ok s)
    else
      match fuel with
      | 0 => none
      | fuel + 1 =>
        match spfStep ctx s with
        | .error e => some (.error e)
        | .ok s => spfLoop ctx fuel s

/-- The fields of the nodes before the first round. -/
def resetFields (ctx : SpfContext P E C) (fields : SpfFields P) : SpfFields P :=
  ctx.nodes.foldl (fun f node => {
    parent := Function.update f.parent node none
    cost := Function.update f.cost node INT_MAX
    heapidx := Function.update f.heapidx node (-1) }) fields

/-- The state before the first round (`spf.c:134-149`). -/
def spfStart (ctx : SpfContext P E C) (fields : SpfFields P) (source : P) :
    Except Crash (SpfState P) :=
  let f := resetFields ctx fields
  if 0 < ctx.numNodes then
    .ok {
      parent := f.parent
      cost := Function.update f.cost source 0
      heapidx := Function.update f.heapidx source 0
      heap := Function.update (fun _ => none) 0 (some source)
      heapsize := 1 }
  else .error .spfHeap

/-- `spf_run`: the fields that it leaves in the nodes. -/
def spfRun (fuel : Nat) (ctx : SpfContext P E C) (fields : SpfFields P) (source : P) :
    Option (Except Crash (SpfFields P)) :=
  match spfStart ctx fields source with
  | .error e => some (.error e)
  | .ok s => (spfLoop ctx fuel s).map (Except.map SpfState.toSpfFields)

end Dvpn
