import Dvpn.RefCount
import Dvpn.Rib.Peers

/-!
# The references to LSAs (`lsa_get`, `lsa_put`)

An LSA object is shared: by the `adj_rib_in` that received it, the local RIB, once more by the
local RIB when it is the best one of its id, and the node's own LSA by `me`. Each of them counts
with `lsa_get` and `lsa_put`, and the last `lsa_put` frees the object, after which malloc may give
its place to another one. The functions of `Dvpn.Rib.AdjRibIn`, `Dvpn.Rib.LocRib` and
`rib_listener_to_loc.c` are written again here with the calls of these two, over the heap of the
objects.

* `lsaRead` stands before what reads objects; it fails where one of them is not there. A search in
  a tree counts as reading every LSA of the tree.
* The addresses that malloc returns are an argument, `addr`.
* The new `me` is an argument; `Own` is what the functions of `Dvpn.Daemon.Me` make.
* `dump` is what goes over the local RIB and only reads: `dgp_writer_register`, `loc_rib_print`.

`refStep` is the whole as a machine, and `lsaShutdown` the end of `dvpn`.
-/

namespace Dvpn

/-! ## Objects -/

/-- How a call that uses shared LSAs fails. -/
inductive HeapCrash where
  | crash (c : Crash)
  /-- an object is used that is not there -/
  | freed

/-- A call that does not look at the references. -/
def liftCrash {α : Type} (x : Except Crash α) : Except HeapCrash α := x.mapError .crash

/-- The LSA objects. -/
abbrev LsaHeap := RefHeap Nat Lsa

/-- The objects are read. -/
def lsaRead (heap : LsaHeap) (ps : List LsaPtr) : Except HeapCrash Unit :=
  if ∀ p ∈ ps, (heap p.addr).isSome then return () else throw .freed

/-- `lsa_get` (`lsa.c:82-88`). -/
def lsaGetRef (heap : LsaHeap) : Option LsaPtr → Except HeapCrash LsaHeap
  | none => return heap
  | some p =>
    match heap.get p.addr with
    | none => throw .freed
    | some heap => return heap

/-- `lsa_put` (`lsa.c:112-119`). -/
def lsaPutRef (heap : LsaHeap) : Option LsaPtr → Except HeapCrash LsaHeap
  | none => return heap
  | some p =>
    match heap.put p.addr with
    | none => throw .freed
    | some (heap, none) => return heap
    | some (heap, some lsa) => do
      let _ ← liftCrash (lsaPut { lsa with refcount := 1 })
      return heap

/-! ## The local RIB -/

/-- `loc_rib_add_lsa` (`loc_rib.c:381-405`). -/
def locRibAddLsaRef (heap : LsaHeap) (rib : LocRib) (lsa : LsaPtr) :
    Except HeapCrash (LsaHeap × LocRib) := do
  lsaRead heap (lsa :: (rib.entry lsa.lsa.id).ptrs)
  let heap ← lsaGetRef heap (some lsa)
  let rib ← liftCrash (locRibAddLsa rib lsa)
  return (heap, rib)

/-- `loc_rib_mod_lsa` (`loc_rib.c:432-453`). -/
def locRibModLsaRef (heap : LsaHeap) (rib : LocRib) (old new : LsaPtr) :
    Except HeapCrash (LsaHeap × LocRib) := do
  lsaRead heap (old :: new :: (rib.entry old.lsa.id).ptrs)
  let heap ← lsaGetRef heap (some new)
  let rib ← liftCrash (locRibModLsa rib old new)
  let heap ← lsaPutRef heap (some old)
  return (heap, rib)

/-- `loc_rib_del_lsa` (`loc_rib.c:455-475`). -/
def locRibDelLsaRef (heap : LsaHeap) (rib : LocRib) (lsa : LsaPtr) :
    Except HeapCrash (LsaHeap × LocRib) := do
  lsaRead heap (lsa :: (rib.entry lsa.lsa.id).ptrs)
  let rib ← liftCrash (locRibDelLsa rib lsa)
  let heap ← lsaPutRef heap (some lsa)
  return (heap, rib)

/-- The LSAs of the trees of a local RIB. -/
def LocRib.trees (rib : LocRib) : List LsaPtr := rib.ids.flatMap LocRibId.ptrs

/-- `recompute_rid` (`loc_rib.c:179-239`). The path costs are read from all trees. -/
def recomputeRidRef (heap : LsaHeap) (rib : LocRib) (rid : LocRibId) :
    Except HeapCrash (LsaHeap × LocRibId × List RibEvent) := do
  lsaRead heap (rid.ptrs ++ rib.trees)
  let (lsas, best, bestcost) ← liftCrash (selectBest rib rid rid.lsas none RIB_COST_INELIGIBLE)
  if rid.best.map LsaPtr.addr = best.map LsaPtr.addr ∧ rid.bestcost = bestcost then
    return (heap, { rid with lsas := lsas }, [])
  else
    let heap ← lsaGetRef heap best
    -- the listeners look at both
    lsaRead heap (rid.best.toList ++ best.toList)
    let heap ← lsaPutRef heap rid.best
    return (heap, { rid with lsas := lsas, best := best, bestcost := bestcost },
      changeEvents rid.best rid.bestcost best bestcost)

/-- The loop of `recompute_rib`. -/
def recomputeIdsRef (heap : LsaHeap) (rib : LocRib) :
    List LocRibId → Except HeapCrash (LsaHeap × List LocRibId × List RibEvent)
  | [] => return (heap, [], [])
  | rid :: ids => do
    let (heap, rid, es) ← recomputeRidRef heap rib rid
    let (heap, ids, es') ← recomputeIdsRef heap rib ids
    return (heap, rid :: ids, es ++ es')

/-- `recompute_rib` (`loc_rib.c:241-252`). -/
def recomputeRibRef (heap : LsaHeap) (rib : LocRib) :
    Except HeapCrash (LsaHeap × LocRib × List RibEvent) := do
  let (heap, ids, es) ← recomputeIdsRef heap rib rib.ids
  return (heap, { rib with ids := ids }, es)

/-- `lsa_add`, `lsa_mod` and `lsa_del` (`rib_listener_to_loc.c:27-47`). -/
def listenerToLocRef (heap : LsaHeap) (loc : LocRib) :
    RibEvent → Except HeapCrash (LsaHeap × LocRib)
  | .lsaAdd a _ => locRibAddLsaRef heap loc a
  | .lsaMod a _ b _ => locRibModLsaRef heap loc a b
  | .lsaDel a _ => locRibDelLsaRef heap loc a

/-- The events of one call, one after the other. -/
def forwardRef (heap : LsaHeap) (loc : LocRib) :
    List RibEvent → Except HeapCrash (LsaHeap × LocRib)
  | [] => return (heap, loc)
  | e :: es => do
    let (heap, loc) ← listenerToLocRef heap loc e
    forwardRef heap loc es

/-- `notify` (`adj_rib_in.c:179-210`), whose listener is `rib_listener_to_loc`. -/
def notifyRef (c : Crypto) (heap : LsaHeap) (loc : LocRib) (rib : AdjRibIn)
    (old new : Option LsaPtr) : Except HeapCrash (LsaHeap × LocRib × AdjRibIn) := do
  lsaRead heap (old.toList ++ new.toList)
  let (rib, es) ← liftCrash (notify c rib old new)
  let (heap, loc) ← forwardRef heap loc es
  return (heap, loc, rib)

/-- `adj_rib_in_del_lsa` (`adj_rib_in.c:212-220`). -/
def adjRibInDelLsaRef (c : Crypto) (heap : LsaHeap) (loc : LocRib) (rib : AdjRibIn)
    (ref : LsaPtr) : Except HeapCrash (LsaHeap × LocRib × AdjRibIn) := do
  let (heap, loc, rib) ← notifyRef c heap loc rib (some ref) none
  let heap ← lsaPutRef heap (some ref)
  return (heap, loc, { rib with lsas := Avl.delete compareRefs ref rib.lsas })

/-- `adj_rib_in_add_lsa` (`adj_rib_in.c:222-268`). -/
def adjRibInAddLsaRef (c : Crypto) (heap : LsaHeap) (loc : LocRib) (rib : AdjRibIn)
    (lsa : LsaPtr) : Except HeapCrash (LsaHeap × LocRib × AdjRibIn) := do
  lsaRead heap (lsa :: rib.lsas)
  let ref := adjRibInFindRef rib lsa.lsa.id
  if lsa.lsa.root.isEmpty then
    match ref with
    | none => return (heap, loc, rib)
    | some ref => adjRibInDelLsaRef c heap loc rib ref
  else if rib.overflows lsa.lsa then
    if rib.remoteid.isNone then throw (.crash .printFingerprintNull)
    else
      match ref with
      | none => return (heap, loc, rib)
      | some ref => adjRibInDelLsaRef c heap loc rib ref
  else
    match ref with
    | none => do
      let (heap, loc, rib) ← notifyRef c heap loc rib none (some lsa)
      let heap ← lsaGetRef heap (some lsa)
      let lsas := (Avl.insert compareRefs lsa rib.lsas).getD rib.lsas
      return (heap, loc, { rib with lsas := lsas })
    | some ref => do
      if (← liftCrash (lsaDiff (some ref.lsa) (some lsa.lsa))) ≠ 0 then
        let (heap, loc, rib) ← notifyRef c heap loc rib (some ref) (some lsa)
        let heap ← lsaPutRef heap (some ref)
        let heap ← lsaGetRef heap (some lsa)
        let store (p : LsaPtr) := if p.lsa.id = ref.lsa.id then lsa else p
        return (heap, loc, { rib with lsas := rib.lsas.map store })
      else return (heap, loc, rib)

/-- `adj_rib_in_truncate` (`adj_rib_in.c:270-280`), with the roots of the tree in the order in
which they are deleted. -/
def adjRibInTruncateRef (c : Crypto) (heap : LsaHeap) (loc : LocRib) (rib : AdjRibIn) :
    List LsaPtr → Except HeapCrash (LsaHeap × LocRib × AdjRibIn)
  | [] => return (heap, loc, rib)
  | root :: roots => do
    let (heap, loc, rib) ← adjRibInDelLsaRef c heap loc rib root
    adjRibInTruncateRef c heap loc rib roots

/-! ## The machine -/

variable {n : Nat}

/-- The objects, the RIBs of the peers, the local RIB and the node's own LSA. -/
structure Shared (n : Nat) where
  heap : LsaHeap
  adj : Fin n → AdjRibIn
  loc : LocRib
  me : Option LsaPtr

/-- The start of `dvpn`. -/
def sharedInit (keyid : NodeId) (remoteid : Fin n → Option NodeId) : Shared n where
  heap _ := none
  adj i := adjRibInInit (some keyid) (remoteid i)
  loc := locRibInit (some keyid)
  me := none

/-- What happens to the objects. -/
inductive RefOp (n : Nat) where
  | begin (addr : Nat) (me : Lsa)
  | renew (addr : Nat) (newme : Lsa)
  | receive (i : Fin n) (addr : Nat) (lsa : Lsa)
  | truncate (i : Fin n) (roots : List LsaPtr)
  | recompute
  | dump

/-- The own LSA is made and put into the local RIB (`dvpn.c:985-995`). -/
def beginRef (s : Shared n) (me : LsaPtr) : Except HeapCrash (Shared n) := do
  let heap := s.heap.alloc me.addr me.lsa
  let (heap, loc) ← locRibAddLsaRef heap s.loc me
  return { s with heap := heap, loc := loc, me := some me }

/-- The end of `mylsa_add_peer` and of `mylsa_del_peer` (`dvpn.c:282-285`, `dvpn.c:300-303`). -/
def renewRef (s : Shared n) (me newme : LsaPtr) : Except HeapCrash (Shared n) := do
  let heap := s.heap.alloc newme.addr newme.lsa
  let (heap, loc) ← locRibModLsaRef heap s.loc me newme
  let heap ← lsaPutRef heap (some me)
  return { s with heap := heap, loc := loc, me := some newme }

/-- One message in `dgp_reader_read` (`dgp_reader.c:95-110`). -/
def receiveRef (c : Crypto) (s : Shared n) (i : Fin n) (lsa : LsaPtr) :
    Except HeapCrash (Shared n) := do
  let heap := s.heap.alloc lsa.addr lsa.lsa
  let (heap, loc, rib) ← adjRibInAddLsaRef c heap s.loc (s.adj i) lsa
  let heap ← lsaPutRef heap (some lsa)
  return { s with heap := heap, loc := loc, adj := Function.update s.adj i rib }

/-- The reader of a peer goes away (`dgp_reader.c:122-131`). -/
def truncateRef (c : Crypto) (s : Shared n) (i : Fin n) (roots : List LsaPtr) :
    Except HeapCrash (Shared n) := do
  let (heap, loc, rib) ← adjRibInTruncateRef c s.heap s.loc (s.adj i) roots
  return { s with heap := heap, loc := loc, adj := Function.update s.adj i rib }

/-- One operation, and what the listeners of the local RIB are told. -/
def refStep (c : Crypto) (s : Shared n) : RefOp n → Except HeapCrash (Shared n × List RibEvent)
  | .begin addr me => do return (← beginRef s ⟨addr, me⟩, [])
  | .renew addr newme =>
    match s.me with
    | none => throw .freed
    | some me => do return (← renewRef s me ⟨addr, newme⟩, [])
  | .receive i addr lsa => do return (← receiveRef c s i ⟨addr, lsa⟩, [])
  | .truncate i roots => do return (← truncateRef c s i roots, [])
  | .recompute => do
    let (heap, loc, es) ← recomputeRibRef s.heap s.loc
    return ({ s with heap := heap, loc := loc }, es)
  | .dump => do
    lsaRead s.heap (s.loc.ids.flatMap LocRibId.held)
    return (s, [])

end Dvpn
