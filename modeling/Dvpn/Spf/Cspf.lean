import Dvpn.Conf.Config
import Dvpn.Spf.Basic

/-!
# Valley-free routes by shortest paths (`cspf.c`)

A node of type `N` has two halves, `a` before the peak of a route and `b` after it; an edge struct
of type `M` has two edges, `e0` and `e1`. What `cspf_edge_add` and `cspf_edge_del` print for a type
that is none of the four is left out: they do nothing then.
-/

namespace Dvpn

/-- The two `struct spf_node` of a `struct cspf_node`. -/
inductive CspfHalf (N : Type) where
  | a (node : N)
  | b (node : N)
  deriving DecidableEq

/-- The `struct spf_edge` of the nodes and the edges. -/
inductive CspfArc (N M : Type) where
  | ab (node : N)
  | e0 (edge : M)
  | e1 (edge : M)
  deriving DecidableEq

variable {N M C : Type} [DecidableEq N] [DecidableEq M]

/-- The contexts of `cspf.c`. -/
abbrev CspfContext (N M C : Type) := SpfContext (CspfHalf N) (CspfArc N M) C

/-- A half gets the id and the cookie of its node, and is added. -/
def cspfHalfAdd (ctx : CspfContext N M C) (half : CspfHalf N) (id : NodeId) (cookie : Option C) :
    CspfContext N M C :=
  let node := { ctx.node half with id := id, cookie := cookie }
  spfNodeAdd { ctx with node := Function.update ctx.node half node } half

/-- `cspf_node_add` (`cspf.c:24-37`). -/
def cspfNodeAdd (ctx : CspfContext N M C) (node : N) (id : NodeId) (cookie : Option C) :
    CspfContext N M C :=
  let ctx := cspfHalfAdd ctx (.a node) id cookie
  let ctx := cspfHalfAdd ctx (.b node) id cookie
  spfEdgeAdd ctx (.a node) ⟨.ab node, .b node, 0⟩

/-- `cspf_node_del` (`cspf.c:39-44`). -/
def cspfNodeDel (ctx : CspfContext N M C) (node : N) : CspfContext N M C :=
  let ctx := spfNodeDel ctx (.a node)
  let ctx := spfNodeDel ctx (.b node)
  spfEdgeDel ctx (.a node) (.ab node)

/-- `cspf_edge_add` (`cspf.c:46-83`). -/
def cspfEdgeAdd (ctx : CspfContext N M C) (edge : M) (from' to' : N) (toType : ConfPeerType)
    (cost : Int) : CspfContext N M C :=
  match toType with
  | .epeer => spfEdgeAdd ctx (.a from') ⟨.e0 edge, .b to', cost⟩
  | .customer => spfEdgeAdd ctx (.b from') ⟨.e0 edge, .b to', cost⟩
  | .transit => spfEdgeAdd ctx (.a from') ⟨.e0 edge, .a to', cost⟩
  | .ipeer =>
    let ctx := spfEdgeAdd ctx (.a from') ⟨.e0 edge, .a to', cost⟩
    spfEdgeAdd ctx (.b from') ⟨.e1 edge, .b to', cost⟩
  | .invalid => ctx
  | .dbonly => ctx

/-- `cspf_edge_del` (`cspf.c:85-112`). -/
def cspfEdgeDel (ctx : CspfContext N M C) (edge : M) (from' : N) (toType : ConfPeerType) :
    CspfContext N M C :=
  match toType with
  | .epeer => spfEdgeDel ctx (.a from') (.e0 edge)
  | .customer => spfEdgeDel ctx (.b from') (.e0 edge)
  | .transit => spfEdgeDel ctx (.a from') (.e0 edge)
  | .ipeer =>
    let ctx := spfEdgeDel ctx (.a from') (.e0 edge)
    spfEdgeDel ctx (.b from') (.e1 edge)
  | .invalid => ctx
  | .dbonly => ctx

/-- `cspf_run` (`cspf.c:114-117`). -/
def cspfRun (fuel : Nat) (ctx : CspfContext N M C) (fields : SpfFields (CspfHalf N)) (source : N) :
    Option (Except Crash (SpfFields (CspfHalf N))) :=
  spfRun fuel ctx fields (.a source)

omit [DecidableEq M] in
/-- `cspf_node_parent` (`cspf.c:119-131`). -/
def cspfNodeParent (ctx : CspfContext N M C) (fields : SpfFields (CspfHalf N)) (node : N) :
    Option C :=
  let parent := fields.parent (.b node)
  let parent := if parent = some (.a node) then fields.parent (.a node) else parent
  match parent with
  | some p => (ctx.node p).cookie
  | none => none

omit [DecidableEq N] [DecidableEq M] in
/-- `cspf_node_cost` (`cspf.c:133-136`). -/
def cspfNodeCost (fields : SpfFields (CspfHalf N)) (node : N) : Int := fields.cost (.b node)

section Parent

omit [DecidableEq M]

variable {ctx : CspfContext N M C} {fields : SpfFields (CspfHalf N)} {node : N}

/-- A node that is reached over its own half has the parent of that half. -/
theorem cspfNodeParent_inner (h : fields.parent (.b node) = some (.a node)) :
    cspfNodeParent ctx fields node =
      (fields.parent (.a node)).bind fun p => (ctx.node p).cookie := by
  unfold cspfNodeParent
  dsimp only
  rw [h, if_pos rfl]
  cases fields.parent (.a node) <;> rfl

theorem cspfNodeParent_outer (h : fields.parent (.b node) ≠ some (.a node)) :
    cspfNodeParent ctx fields node =
      (fields.parent (.b node)).bind fun p => (ctx.node p).cookie := by
  unfold cspfNodeParent
  dsimp only
  rw [if_neg h]
  cases fields.parent (.b node) <;> rfl

end Parent

end Dvpn
