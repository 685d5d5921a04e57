import Dvpn.Lsa.Peer
import Dvpn.Rib.Listener

/-!
# The local RIB (`loc_rib.h`, `loc_rib.c`)

For every node id that was ever seen the local RIB keeps a `LocRibId`: the LSAs that the peers
advertise for it, ordered by (version, address), the highest version seen, and the LSA and the
cost that were selected last. `recomputeRib` (an `iv_task`, run later) selects again.

* A mutation of `*rid` is `setId`; the tree of ids only grows.
* `lsa_path_cost` reads the trees of LSAs and the marks, which `recompute_rid` does not write, so
  `recomputeRib` evaluates every cost in the RIB it started from.
* `iv_avl_tree_insert` never returns an error for these trees: `compare_lsa_refs` aborts on an
  equal element before it can.
* The sum of the metrics is an `int` returned as `uint32_t`; it is taken modulo 2^32.

`locStep` is the RIB as a machine with the operations `LocOp`.
-/

namespace Dvpn

/-! ## The data -/

/-- `struct loc_rib_lsa_ref`. -/
structure LocRibLsaRef where
  lsa : LsaPtr
  cost : Nat

/-- `struct loc_rib_id`. -/
structure LocRibId where
  id : NodeId
  highestVersionSeen : Nat
  lsas : List LocRibLsaRef
  best : Option LsaPtr
  bestcost : Nat

/-- `struct loc_rib`. -/
structure LocRib where
  myid : Option NodeId
  ids : List LocRibId

/-- `loc_rib_init` (`loc_rib.c:254-263`). -/
def locRibInit (myid : Option NodeId) : LocRib := { myid := myid, ids := [] }

/-! ## Search -/

/-- `compare_ids` (`loc_rib.c:33-42`). -/
def compareIds (a b : LocRibId) : Int := memcmp a.id.1 b.id.1 NODE_ID_LEN

/-- `loc_rib_find_id` (`loc_rib.c:296-318`). -/
def locRibFindId (rib : LocRib) (id : NodeId) : Option LocRibId :=
  Avl.find (fun rid => memcmp id.1 rid.id.1 NODE_ID_LEN) rib.ids

/-- `compare_lsas` (`loc_rib.c:320-338`). -/
def compareLsas (a b : LsaPtr) : Int :=
  let aver := lsaGetVersion a.lsa
  let bver := lsaGetVersion b.lsa
  if aver < bver then -1
  else if aver > bver then 1
  else if a.addr < b.addr then -1
  else if a.addr > b.addr then 1
  else 0

/-- `compare_lsa_refs` (`loc_rib.c:340-356`), where it does not abort. -/
def compareLsaRefs (a b : LocRibLsaRef) : Int := compareLsas a.lsa b.lsa

/-- `iv_avl_tree_insert` into a tree of LSAs; `compare_lsa_refs` aborts on an equal one. -/
def insertRef (lsas : List LocRibLsaRef) (ref : LocRibLsaRef) : Except Crash (List LocRibLsaRef) :=
  match Avl.insert compareLsaRefs ref lsas with
  | none => .error .compareLsaRefs
  | some lsas => .ok lsas

/-- `find_lsa_ref` (`loc_rib.c:407-430`). -/
def findLsaRef (rid : LocRibId) (lsa : LsaPtr) : Option LocRibLsaRef :=
  Avl.find (fun ref => compareLsas lsa ref.lsa) rid.lsas

/-- `find_recent_lsa` (`loc_rib.c:63-82`). -/
def findRecentLsa (rib : LocRib) (id : NodeId) : Option LsaPtr :=
  match locRibFindId rib id with
  | none => none
  | some rid =>
    match rid.lsas.getLast? with
    | none => none
    | some ref =>
      if lsaGetVersion ref.lsa.lsa < rid.highestVersionSeen then none else some ref.lsa

/-! ## Path costs -/

/-- The loop of `lsa_path_cost` (`loc_rib.c:115-152`) over the hops that are left. -/
def pathCostLoop (rib : LocRib) : List NodeId → Option Lsa → Bool → Nat → Nat
  | [], _, _, cost => cost
  | hop :: hops, from', traversingTransits, cost =>
    match findRecentLsa rib hop with
    | none => RIB_COST_UNREACHABLE
    | some to' =>
      match from' with
      -- the first hop, in a RIB without an own id
      | none => pathCostLoop rib hops (some to'.lsa) traversingTransits cost
      | some from' =>
        match lsaGetPeerInfo from' to'.lsa.id, lsaGetPeerInfo to'.lsa from'.id with
        | some forward, some reverse =>
          let cost' := (cost + forward.metric) % 2 ^ 32
          if traversingTransits then
            let traversingTransits := forward.flags &&& LSA_PEER_FLAGS_TRANSIT != 0 &&
              reverse.flags &&& LSA_PEER_FLAGS_CUSTOMER != 0
            pathCostLoop rib hops (some to'.lsa) traversingTransits cost'
          else if forward.flags &&& LSA_PEER_FLAGS_CUSTOMER = 0 then RIB_COST_UNREACHABLE
          else if reverse.flags &&& LSA_PEER_FLAGS_TRANSIT = 0 then RIB_COST_UNREACHABLE
          else pathCostLoop rib hops (some to'.lsa) false cost'
        | _, _ => RIB_COST_UNREACHABLE

/-- `lsa_path_cost` (`loc_rib.c:84-155`). -/
def lsaPathCost (rib : LocRib) (rid : LocRibId) (lsa : Lsa) : Except Crash Nat :=
  if lsaGetVersion lsa < rid.highestVersionSeen then return RIB_COST_INELIGIBLE
  else
    match lsa.advPath with
    | none => throw .lsaPathCost
    | some pathattr =>
      let pathlen := toInt pathattr.datalen
      if pathlen % NODE_ID_LEN ≠ 0 then throw .lsaPathCost
      else
        let path := nodeIds (pathattr.pathData.take pathlen.toNat)
        match rib.myid with
        | none => return pathCostLoop rib path none true 0
        | some myid =>
          match findRecentLsa rib myid with
          | none => return RIB_COST_UNREACHABLE
          | some from' => return pathCostLoop rib path (some from'.lsa) true 0

/-- `lsa_has_shorter_adv_path` (`loc_rib.c:157-177`). -/
def lsaHasShorterAdvPath (a : Lsa) (b : Option Lsa) : Except Crash Bool :=
  match a.advPath with
  | none => throw .lsaHasShorterAdvPath
  | some apath =>
    match b with
    | none => return false
    | some b =>
      match b.advPath with
      | none => throw .lsaHasShorterAdvPath
      | some bpath => return apath.datalen < bpath.datalen

/-! ## Selection -/

/-- One round of the loop of `recompute_rid` (`loc_rib.c:200-211`), without the store to
`ref->cost`. -/
def considerRef (lsa : LsaPtr) (cost : Nat) (best : Option LsaPtr) (bestcost : Nat) :
    Except Crash (Option LsaPtr × Nat) :=
  if cost < bestcost then return (some lsa, cost)
  else if cost = bestcost then do
    let shorter ← lsaHasShorterAdvPath lsa.lsa (best.map LsaPtr.lsa)
    return (if shorter then some lsa else best, bestcost)
  else return (best, bestcost)

/-- The loop of `recompute_rid` (`loc_rib.c:196-212`): the references with their new costs, and
the best pair. -/
def selectBest (rib : LocRib) (rid : LocRibId) : List LocRibLsaRef → Option LsaPtr → Nat →
    Except Crash (List LocRibLsaRef × Option LsaPtr × Nat)
  | [], best, bestcost => return ([], best, bestcost)
  | ref :: refs, best, bestcost => do
    let cost ← lsaPathCost rib rid ref.lsa.lsa
    let (best, bestcost) ← considerRef ref.lsa cost best bestcost
    let (refs, best, bestcost) ← selectBest rib rid refs best bestcost
    return ({ ref with cost := cost } :: refs, best, bestcost)

/-- `recompute_rid` (`loc_rib.c:179-239`). -/
def recomputeRid (rib : LocRib) (rid : LocRibId) : Except Crash (LocRibId × List RibEvent) := do
  let (lsas, best, bestcost) ← selectBest rib rid rid.lsas none RIB_COST_INELIGIBLE
  if rid.best.map LsaPtr.addr = best.map LsaPtr.addr ∧ rid.bestcost = bestcost then
    return ({ rid with lsas := lsas }, [])
  else
    return ({ rid with lsas := lsas, best := best, bestcost := bestcost },
      changeEvents rid.best rid.bestcost best bestcost)

/-- The loop of `recompute_rib`. -/
def recomputeIds (rib : LocRib) : List LocRibId → Except Crash (List LocRibId × List RibEvent)
  | [] => return ([], [])
  | rid :: ids => do
    let (rid, es) ← recomputeRid rib rid
    let (ids, es') ← recomputeIds rib ids
    return (rid :: ids, es ++ es')

/-- `recompute_rib` (`loc_rib.c:241-252`). -/
def recomputeRib (rib : LocRib) : Except Crash (LocRib × List RibEvent) := do
  let (ids, es) ← recomputeIds rib rib.ids
  return ({ rib with ids := ids }, es)

/-! ## Updates -/

/-- A mutation of the entry with the id of `rid`. -/
def LocRib.setId (rib : LocRib) (rid : LocRibId) : LocRib :=
  { rib with ids := rib.ids.map fun rid' => if rid'.id = rid.id then rid else rid' }

/-- An entry that holds nothing yet (`loc_rib.c:370-374`). -/
def LocRibId.new (id : NodeId) : LocRibId :=
  { id := id, highestVersionSeen := 0, lsas := [], best := none, bestcost := RIB_COST_INELIGIBLE }

/-- `get_id` (`loc_rib.c:358-379`). -/
def getId (rib : LocRib) (id : NodeId) : LocRib × LocRibId :=
  match locRibFindId rib id with
  | some rid => (rib, rid)
  | none =>
    let rid := LocRibId.new id
    ({ rib with ids := (Avl.insert compareIds rid rib.ids).getD rib.ids }, rid)

/-- `loc_rib_add_lsa` (`loc_rib.c:381-405`). -/
def locRibAddLsa (rib : LocRib) (lsa : LsaPtr) : Except Crash LocRib := do
  let (rib, rid) := getId rib lsa.lsa.id
  let lsas ← insertRef rid.lsas { lsa := lsa, cost := 0 }
  let ver := lsaGetVersion lsa.lsa
  let rid := { rid with lsas := lsas }
  let rid :=
    if rid.highestVersionSeen < ver then { rid with highestVersionSeen := ver } else rid
  return rib.setId rid

/-- `loc_rib_mod_lsa` (`loc_rib.c:432-453`). -/
def locRibModLsa (rib : LocRib) (old new : LsaPtr) : Except Crash LocRib :=
  match locRibFindId rib old.lsa.id with
  | none => throw .locRibModLsa
  | some rid =>
    match findLsaRef rid old with
    | none => throw .locRibModLsa
    | some ref => do
      let lsas := Avl.delete compareLsaRefs ref rid.lsas
      let lsas ← insertRef lsas { ref with lsa := new }
      return rib.setId { rid with lsas := lsas }

/-- `loc_rib_del_lsa` (`loc_rib.c:455-475`). -/
def locRibDelLsa (rib : LocRib) (lsa : LsaPtr) : Except Crash LocRib :=
  match locRibFindId rib lsa.lsa.id with
  | none => throw .locRibDelLsa
  | some rid =>
    match findLsaRef rid lsa with
    | none => throw .locRibDelLsa
    | some ref => return rib.setId { rid with lsas := Avl.delete compareLsaRefs ref rid.lsas }

/-! ## The machine -/

/-- What is done to a local RIB. -/
inductive LocOp where
  | add (lsa : LsaPtr)
  | mod (old new : LsaPtr)
  | del (lsa : LsaPtr)
  | recompute

/-- One operation, and what the listeners are told. -/
def locStep (rib : LocRib) : LocOp → Except Crash (LocRib × List RibEvent)
  | .add lsa => do return (← locRibAddLsa rib lsa, [])
  | .mod old new => do return (← locRibModLsa rib old new, [])
  | .del lsa => do return (← locRibDelLsa rib lsa, [])
  | .recompute => recomputeRib rib

end Dvpn
