import Dvpn.Daemon.RtBuilder
import Dvpn.Rib.ReferencesRun

/-!
# The routes of the kernel (`dvpn.c:54-121`)

A connection to a peer has a tun interface, and is found in `direct_peers` by the address of the
peer. `rt_builder` tells `rt_add`, `rt_mod` and `rt_del` of next hops; they look up the interface
of the next hop and have `ip` change the routes of the kernel. An interface goes away together with
its routes, before the local RIB is recomputed and `rt_builder` hears of it.

* `KernelRoutes` is what `ip` and a tun device do to the routes.
* A change of `me` (`mylsa_add_peer`, `mylsa_del_peer`) is a step of its own, `renew`.
* `tasks` is where ivykis runs `recompute_rib`. What a DGP session registers is looked at only in
  the next round, so the first LSA of a peer comes after the `tasks` that follows its connection;
  `joined` has the addresses of the peers that wait for it.
* MTUs and the addresses of the interface are left out.

`routerStep` is the whole as a machine.

* `rtCalls_follow`: the routes of the kernel follow a log of `rt_builder`, if every next hop in it
  has an interface.
* `run_calls`, `eventsOk`: what `rt_builder` says of a recomputation.
-/

namespace Dvpn

open ChangeLog

/-! ## The kernel -/

/-- The routes and the interfaces of the kernel: `ip route add`, `chg` and `del` with the device, if
there is one, and whether they succeed, and what opening and closing a tun device does. -/
structure KernelRoutes (κ : Type) where
  route : κ → Bytes → Option String
  itfs : κ → Finset String
  add : κ → Bytes → Option String → κ × Bool
  chg : κ → Bytes → Option String → κ × Bool
  del : κ → Bytes → Option String → κ × Bool
  tunOpen : κ → String → κ
  tunClose : κ → String → κ
  add_route : ∀ {k dest itf}, route k dest = none → itf ∈ itfs k →
    route (add k dest (some itf)).1 = Function.update (route k) dest (some itf)
  add_itfs : ∀ k dest dev, itfs (add k dest dev).1 = itfs k
  chg_route : ∀ {k dest itf}, route k dest ≠ none → itf ∈ itfs k →
    (chg k dest (some itf)).2 = true ∧
      route (chg k dest (some itf)).1 = Function.update (route k) dest (some itf)
  /-- there is no route to change -/
  chg_none : ∀ {k dest}, route k dest = none → ∀ dev,
    (chg k dest dev).2 = false ∧ route (chg k dest dev).1 = route k
  chg_itfs : ∀ k dest dev, itfs (chg k dest dev).1 = itfs k
  del_route : ∀ {k dest itf}, route k dest = some itf →
    route (del k dest (some itf)).1 = Function.update (route k) dest none
  del_none : ∀ {k dest}, route k dest = none → ∀ dev, route (del k dest dev).1 = route k
  del_itfs : ∀ k dest dev, itfs (del k dest dev).1 = itfs k
  open_route : ∀ k itf, route (tunOpen k itf) = route k
  open_itfs : ∀ k itf, itfs (tunOpen k itf) = insert itf (itfs k)
  /-- the routes over an interface go away with it -/
  close_route : ∀ k itf dest,
    route (tunClose k itf) dest = if route k dest = some itf then none else route k dest
  close_itfs : ∀ k itf, itfs (tunClose k itf) = (itfs k).erase itf

/-! ## The code -/

/-- `struct direct_peer`. -/
structure DirectPeer where
  addr : Bytes
  itfname : String

namespace Router

/-- `compare_direct_peers` (`dvpn.c:123-132`). -/
def compareDirectPeers (a b : DirectPeer) : Int := memcmp a.addr b.addr 16

/-- `dp_find` (`dvpn.c:54-76`). -/
def dpFind (directPeers : List DirectPeer) (addr : Bytes) : Option DirectPeer :=
  Avl.find (fun dp => memcmp addr dp.addr 16) directPeers

/-- `peer_itfname` (`dvpn.c:78-87`). -/
def peerItfname (directPeers : List DirectPeer) (addr : Bytes) : Option String :=
  (dpFind directPeers addr).map DirectPeer.itfname

section Calls

variable {κ : Type} (K : KernelRoutes κ) (directPeers : List DirectPeer) (k : κ)

/-- `rt_add` (`dvpn.c:89-95`). -/
def rtAdd (dest : Bytes) : Option Bytes → κ
  | some nh => (K.add k dest (peerItfname directPeers nh)).1
  | none => (K.add k dest (peerItfname directPeers dest)).1

/-- `rt_mod` (`dvpn.c:97-108`). -/
def rtMod (dest : Bytes) (newnh : Option Bytes) : κ :=
  let itfname := match newnh with
    | some newnh => peerItfname directPeers newnh
    | none => peerItfname directPeers dest
  let r := K.chg k dest itfname
  if r.2 then r.1 else (K.add r.1 dest itfname).1

/-- `rt_del` (`dvpn.c:110-121`). -/
def rtDel (dest : Bytes) (nh : Option Bytes) : κ :=
  let itfname := match nh with
    | some nh => peerItfname directPeers nh
    | none => peerItfname directPeers dest
  match itfname with
  | some itfname => (K.del k dest (some itfname)).1
  | none => k

/-- A call of `rt_builder`. -/
def rtCall : RtCall → κ
  | .add dest nh => rtAdd K directPeers k dest nh
  | .mod dest _ newnh => rtMod K directPeers k dest newnh
  | .del dest nh => rtDel K directPeers k dest nh

end Calls

end Router

/-- The RIBs, the connections of the peers with their interfaces, and the kernel. -/
structure Router (κ : Type) (n : Nat) where
  shared : Shared n
  conns : Fin n → Option String
  directPeers : List DirectPeer
  /-- the addresses of the peers that connected since the tasks ran -/
  joined : Finset Bytes
  kernel : κ

inductive RouterOp (n : Nat) where
  | begin (addr : Nat) (me : Lsa)
  | renew (addr : Nat) (newme : Lsa)
  | connect (i : Fin n) (itfname : String)
  | disconnect (i : Fin n) (roots : List LsaPtr)
  | receive (i : Fin n) (addr : Nat) (lsa : Lsa)
  | reset (i : Fin n) (roots : List LsaPtr)
  | tasks

section Machine

variable {κ : Type} {n : Nat} (K : KernelRoutes κ) (c : Crypto) (keyid : NodeId)
  (remoteid : Fin n → NodeId)

/-- A step of the RIBs that `rt_builder` is not told of. -/
def Router.lsaStep (s : Router κ n) (op : RefOp n) :
    Except HeapCrash (Router κ n × List RtCall) := do
  let r ← refStep c s.shared op
  return ({ s with shared := r.1 }, [])

/-- The parts of `cce_new_conn` (`dvpn.c:347-427`) and `cle_new_conn` (`dvpn.c:502-598`). -/
def Router.newConn (s : Router κ n) (i : Fin n) (itfname : String) :
    Except HeapCrash (Router κ n × List RtCall) :=
  let addr := v6GlobalAddrFromKeyId (remoteid i)
  match Avl.insert Router.compareDirectPeers ⟨addr, itfname⟩ s.directPeers with
  | none => throw (.crash .cceNewConn)
  | some directPeers => return ({ s with
      conns := Function.update s.conns i (some itfname)
      directPeers := directPeers
      joined := insert addr s.joined
      kernel := K.tunOpen s.kernel itfname }, [])

/-- The parts of `cec_destroy` (`dvpn.c:331-345`) and `lec_destroy` (`dvpn.c:480-500`). -/
def Router.destroyConn (s : Router κ n) (i : Fin n) (roots : List LsaPtr) :
    Except HeapCrash (Router κ n × List RtCall) :=
  match s.conns i with
  | none => throw .freed
  | some itfname => do
    let r ← refStep c s.shared (.truncate i roots)
    let addr := v6GlobalAddrFromKeyId (remoteid i)
    return ({ s with
      shared := r.1
      conns := Function.update s.conns i none
      directPeers := Avl.delete Router.compareDirectPeers ⟨addr, itfname⟩ s.directPeers
      joined := s.joined.erase addr
      kernel := K.tunClose s.kernel itfname }, [])

/-- `recompute_rib`, with `rt_builder` and its listener. -/
def Router.runTasks (s : Router κ n) : Except HeapCrash (Router κ n × List RtCall) := do
  let r ← refStep c s.shared .recompute
  let calls ← liftCrash (RtBuilder.run ⟨some keyid⟩ r.2)
  return ({ s with
    shared := r.1
    joined := ∅
    kernel := calls.foldl (Router.rtCall K s.directPeers) s.kernel }, calls)

/-- One step, and what `rt_builder` says. -/
def routerStep (s : Router κ n) : RouterOp n → Except HeapCrash (Router κ n × List RtCall)
  | .begin addr me => s.lsaStep c (.begin addr me)
  | .renew addr newme => s.lsaStep c (.renew addr newme)
  | .connect i itfname => s.newConn K remoteid i itfname
  | .disconnect i roots => s.destroyConn K c remoteid i roots
  | .receive i addr lsa => s.lsaStep c (.receive i addr lsa)
  | .reset i roots => s.lsaStep c (.truncate i roots)
  | .tasks => s.runTasks K c keyid

/-- The start of `dvpn`, in a kernel. -/
def routerInit (k : κ) : Router κ n where
  shared := sharedInit keyid fun i => some (remoteid i)
  conns _ := none
  directPeers := []
  joined := ∅
  kernel := k

end Machine

/-! ## The tree of the direct peers -/

namespace Router

section Peers

variable {n : Nat} {dps dps' : List DirectPeer} {conns : Fin n → Option String}
  {remoteid : Fin n → NodeId} {a : Bytes} {itf : String} {i : Fin n}

/-- What `compare_direct_peers` compares. -/
def key (dp : DirectPeer) : Bytes := dp.addr.take 16

theorem compareDirectPeers_orders : Avl.Orders compareDirectPeers key :=
  ⟨fun a b => Dvpn.compareDirectPeers_orders.neg a.addr b.addr,
    fun a b => Dvpn.compareDirectPeers_orders.zero a.addr b.addr⟩

/-- The tree has the connections of the peers, and no two share an interface. -/
structure Enlisted (dps : List DirectPeer) (conns : Fin n → Option String)
    (remoteid : Fin n → NodeId) : Prop where
  sorted : Avl.Sorted key dps
  mem : ∀ dp, dp ∈ dps ↔
    ∃ i, conns i = some dp.itfname ∧ v6GlobalAddrFromKeyId (remoteid i) = dp.addr
  names : ∀ i j itf, conns i = some itf → conns j = some itf → i = j

/-- A peer has one connection. -/
theorem Enlisted.eq_of_addr (h : Enlisted dps conns remoteid) {j : Fin n} {itf' : String}
    (hi : conns i = some itf) (hj : conns j = some itf')
    (e : v6GlobalAddrFromKeyId (remoteid i) = v6GlobalAddrFromKeyId (remoteid j)) : i = j := by
  have heq := h.sorted.eq_of_key ((h.mem ⟨_, itf⟩).mpr ⟨i, hi, rfl⟩)
    ((h.mem ⟨_, itf'⟩).mpr ⟨j, hj, rfl⟩) (congrArg (List.take 16) e)
  obtain rfl := congrArg DirectPeer.itfname heq
  exact h.names i j _ hi hj

/-- **`peer_itfname`** finds the interface of the connection to the peer with the address. -/
theorem Enlisted.peerItfname_eq (h : Enlisted dps conns remoteid) :
    peerItfname dps a = some itf ↔
      ∃ i, conns i = some itf ∧ v6GlobalAddrFromKeyId (remoteid i) = a.take 16 := by
  have hloc : Avl.Locates (fun dp : DirectPeer => memcmp a dp.addr 16) key (a.take 16) :=
    compareDirectPeers_orders.locates ⟨a, itf⟩
  unfold peerItfname dpFind
  rw [Option.map_eq_some_iff]
  constructor
  · rintro ⟨dp, hfind, rfl⟩
    obtain ⟨hm, hkey⟩ := (Avl.find_eq_some h.sorted hloc).mp hfind
    obtain ⟨i, hi, haddr⟩ := (h.mem dp).mp hm
    exact ⟨i, hi, by rw [← hkey, key, ← haddr, take_v6GlobalAddr]⟩
  · rintro ⟨i, hi, haddr⟩
    refine ⟨⟨v6GlobalAddrFromKeyId (remoteid i), itf⟩, (Avl.find_eq_some h.sorted hloc).mpr
      ⟨(h.mem ⟨_, itf⟩).mpr ⟨i, hi, rfl⟩, ?_⟩, rfl⟩
    exact (take_v6GlobalAddr _).trans haddr

/-- **A new connection.** -/
theorem Enlisted.connect (h : Enlisted dps conns remoteid)
    (hnew : dpFind dps (v6GlobalAddrFromKeyId (remoteid i)) = none)
    (hitf : ∀ j, conns j ≠ some itf) :
    conns i = none ∧ ∃ dps', Avl.insert compareDirectPeers
        ⟨v6GlobalAddrFromKeyId (remoteid i), itf⟩ dps = some dps' ∧
      Enlisted dps' (Function.update conns i (some itf)) remoteid := by
  have hfree : ∀ j itf', conns j = some itf' →
      v6GlobalAddrFromKeyId (remoteid j) ≠ v6GlobalAddrFromKeyId (remoteid i) := by
    intro j itf' hj e
    have hfound := h.peerItfname_eq.mpr ⟨j, hj, e.trans (take_v6GlobalAddr _).symm⟩
    rw [peerItfname, hnew] at hfound
    cases hfound
  have hnone : conns i = none := by
    cases hi : conns i with
    | none => rfl
    | some itf' => exact absurd rfl (hfree i itf' hi)
  refine ⟨hnone, ?_⟩
  obtain ⟨dps', hins⟩ := Avl.exists_insert (x := ⟨v6GlobalAddrFromKeyId (remoteid i), itf⟩)
    compareDirectPeers_orders h.sorted fun dp hdp e => by
      obtain ⟨j, hj, haddr⟩ := (h.mem dp).mp hdp
      refine hfree j _ hj ?_
      rw [key, key, ← haddr, take_v6GlobalAddr, take_v6GlobalAddr] at e
      exact e
  refine ⟨dps', hins, Avl.sorted_insert compareDirectPeers_orders h.sorted hins, fun dp => ?_, ?_⟩
  · rw [Avl.mem_insert hins, h.mem]
    constructor
    · rintro (rfl | ⟨j, hj, haddr⟩)
      · exact ⟨i, Function.update_self i (some itf) conns, rfl⟩
      · have hji : j ≠ i := fun e => by rw [e, hnone] at hj; cases hj
        exact ⟨j, by rw [Function.update_of_ne hji]; exact hj, haddr⟩
    · rintro ⟨j, hj, haddr⟩
      by_cases hji : j = i
      · subst hji
        rw [Function.update_self] at hj
        cases dp
        exact Or.inl (by rw [DirectPeer.mk.injEq]; exact ⟨haddr.symm, (Option.some.inj hj).symm⟩)
      · rw [Function.update_of_ne hji] at hj
        exact Or.inr ⟨j, hj, haddr⟩
  · intro j j' itf' hj hj'
    by_cases hji : j = i <;> by_cases hji' : j' = i
    · rw [hji, hji']
    · subst hji
      rw [Function.update_self] at hj
      rw [Function.update_of_ne hji'] at hj'
      exact absurd (hj'.trans hj.symm) (hitf j')
    · subst hji'
      rw [Function.update_self] at hj'
      rw [Function.update_of_ne hji] at hj
      exact absurd (hj.trans hj'.symm) (hitf j)
    · rw [Function.update_of_ne hji] at hj
      rw [Function.update_of_ne hji'] at hj'
      exact h.names j j' itf' hj hj'

/-- **A connection goes away.** -/
theorem Enlisted.disconnect (h : Enlisted dps conns remoteid) (hi : conns i = some itf) :
    Enlisted (Avl.delete compareDirectPeers ⟨v6GlobalAddrFromKeyId (remoteid i), itf⟩ dps)
      (Function.update conns i none) remoteid := by
  have hm := (h.mem ⟨v6GlobalAddrFromKeyId (remoteid i), itf⟩).mpr ⟨i, hi, rfl⟩
  refine ⟨Avl.sorted_delete h.sorted, fun dp => ?_, fun j j' itf' hj hj' => ?_⟩
  · rw [Avl.mem_delete compareDirectPeers_orders h.sorted hm, h.mem]
    constructor
    · rintro ⟨⟨j, hj, haddr⟩, hne⟩
      have hji : j ≠ i := by
        rintro rfl
        refine hne ?_
        cases dp
        rw [DirectPeer.mk.injEq]
        exact ⟨haddr.symm, Option.some.inj (hj.symm.trans hi)⟩
      exact ⟨j, by rw [Function.update_of_ne hji]; exact hj, haddr⟩
    · rintro ⟨j, hj, haddr⟩
      have hji : j ≠ i := fun e => by rw [e, Function.update_self] at hj; cases hj
      rw [Function.update_of_ne hji] at hj
      refine ⟨⟨j, hj, haddr⟩, ?_⟩
      rintro rfl
      exact hji (h.eq_of_addr hj hi haddr)
  · have hne : ∀ {j itf'}, Function.update conns i none j = some itf' → j ≠ i :=
      fun hj e => by rw [e, Function.update_self] at hj; cases hj
    have hji := hne hj
    have hji' := hne hj'
    rw [Function.update_of_ne hji] at hj
    rw [Function.update_of_ne hji'] at hj'
    exact h.names j j' itf' hj hj'

end Peers

/-! ## The calls of `rt_builder` -/

section Calls

variable {κ : Type} {K : KernelRoutes κ} {dps : List DirectPeer} {k : κ}
  {settled : Bytes → Option String} {table table' : Bytes → Option (Option Bytes)}
  {call : RtCall} {calls : List RtCall} {dest a : Bytes} {nh : Option Bytes} {itf : String}

/-- The address of the direct peer that a call makes a route over. -/
def target : RtCall → Option Bytes
  | .add dest nh => some (nh.getD dest)
  | .mod dest _ newnh => some (newnh.getD dest)
  | .del _ _ => none

/-- The kernel has the routes of the table, each over the interface of its next hop, if that is
`settled`. -/
def Routes (K : KernelRoutes κ) (k : κ) (table : Bytes → Option (Option Bytes))
    (settled : Bytes → Option String) : Prop :=
  ∀ dest, K.route k dest = (table dest).bind fun nh => settled (nh.getD dest)

theorem rtAdd_eq : rtAdd K dps k dest nh = (K.add k dest (peerItfname dps (nh.getD dest))).1 := by
  cases nh <;> rfl

theorem rtMod_eq {r : κ × Bool} (hr : K.chg k dest (peerItfname dps (nh.getD dest)) = r) :
    rtMod K dps k dest nh =
      if r.2 then r.1 else (K.add r.1 dest (peerItfname dps (nh.getD dest))).1 := by
  subst hr
  cases nh <;> rfl

theorem rtDel_some (h : peerItfname dps (nh.getD dest) = some itf) :
    rtDel K dps k dest nh = (K.del k dest (some itf)).1 := by
  cases nh <;> simp only [Option.getD_some, Option.getD_none] at h <;> simp only [rtDel, h]

theorem rtDel_none (h : peerItfname dps (nh.getD dest) = none) :
    rtDel K dps k dest nh = k := by
  cases nh <;> simp only [Option.getD_some, Option.getD_none] at h <;> simp only [rtDel, h]

theorem Routes.update (hk : Routes K k table settled) {k' : κ} (new : Option (Option Bytes))
    (hk' : K.route k' = Function.update (K.route k) dest
      (new.bind fun nh => settled (nh.getD dest))) :
    Routes K k' (Function.update table dest new) settled := by
  intro d
  rw [hk']
  by_cases hd : d = dest
  · rw [hd, Function.update_self, Function.update_self]
  · rw [Function.update_of_ne hd, Function.update_of_ne hd]
    exact hk d

/-- **One call.** Its next hop is settled, and what is settled has an interface that is there. -/
theorem rtCall_follows (hset : ∀ a itf, settled a = some itf →
      peerItfname dps a = some itf ∧ itf ∈ K.itfs k)
    (happ : Applies table call table') (htarget : ∀ a, target call = some a → settled a ≠ none)
    (hk : Routes K k table settled) :
    Routes K (rtCall K dps k call) table' settled ∧ K.itfs (rtCall K dps k call) = K.itfs k := by
  cases happ with
  | @add dest nh hnone =>
    have hfree : K.route k dest = none := by rw [hk, hnone]; rfl
    obtain ⟨itf, hitf⟩ := Option.ne_none_iff_exists'.mp (htarget _ rfl)
    obtain ⟨hpeer, hup⟩ := hset _ _ hitf
    rw [rtCall, rtAdd_eq, hpeer]
    refine ⟨hk.update (some nh) ?_, K.add_itfs k dest _⟩
    rw [Option.bind_some, hitf]
    exact K.add_route hfree hup
  | @mod dest nh nh' hsome =>
    obtain ⟨itf, hitf⟩ := Option.ne_none_iff_exists'.mp (htarget _ rfl)
    obtain ⟨hpeer, hup⟩ := hset _ _ hitf
    rw [rtCall, rtMod_eq rfl, hpeer]
    by_cases hroute : K.route k dest = none
    · -- the route went away with its interface
      obtain ⟨hfail, hsame⟩ := K.chg_none hroute (some itf)
      rw [hfail, if_neg Bool.false_ne_true]
      refine ⟨hk.update (some nh') ?_, (K.add_itfs _ dest _).trans (K.chg_itfs k dest _)⟩
      rw [Option.bind_some, hitf, K.add_route (by rw [hsame, hroute]) (by rwa [K.chg_itfs]), hsame]
    · obtain ⟨hok, hchg⟩ := K.chg_route hroute hup
      rw [hok, if_pos rfl]
      refine ⟨hk.update (some nh') ?_, K.chg_itfs k dest _⟩
      rw [Option.bind_some, hitf, hchg]
  | @del dest nh hsome =>
    have hroute : K.route k dest = settled (nh.getD dest) := by rw [hk, hsome]; rfl
    have hgone : ∀ {k' : κ}, K.route k' = Function.update (K.route k) dest none →
        Routes K k' (Function.update table dest none) settled := fun h => hk.update none h
    have hstays : K.route k dest = none → Function.update (K.route k) dest none = K.route k :=
      fun h => h ▸ Function.update_eq_self dest (K.route k)
    rw [rtCall]
    cases hpeer : peerItfname dps (nh.getD dest) with
    | none =>
      have hnone : K.route k dest = none := by
        cases hs : settled (nh.getD dest) with
        | none => rw [hroute, hs]
        | some itf => exact absurd ((hset _ _ hs).1.symm.trans hpeer) (Option.some_ne_none itf)
      rw [rtDel_none hpeer]
      exact ⟨hgone (hstays hnone).symm, rfl⟩
    | some itf =>
      rw [rtDel_some hpeer]
      refine ⟨hgone ?_, K.del_itfs k dest _⟩
      cases hs : settled (nh.getD dest) with
      | none =>
        rw [hs] at hroute
        rw [hstays hroute]
        exact K.del_none hroute _
      | some itf' =>
        obtain rfl := Option.some.inj (hpeer.symm.trans (hset _ _ hs).1)
        exact K.del_route (hroute.trans hs)

/-- **A log.** -/
theorem rtCalls_follow (hset : ∀ a itf, settled a = some itf →
      peerItfname dps a = some itf ∧ itf ∈ K.itfs k)
    (hlog : Replays table calls table')
    (htargets : ∀ call ∈ calls, ∀ a, target call = some a → settled a ≠ none)
    (hk : Routes K k table settled) :
    Routes K (calls.foldl (rtCall K dps) k) table' settled ∧
      K.itfs (calls.foldl (rtCall K dps) k) = K.itfs k := by
  induction calls generalizing k table with
  | nil =>
    cases hlog
    exact ⟨hk, rfl⟩
  | cons call calls ih =>
    obtain ⟨htarget, htargets⟩ := List.forall_mem_cons.mp htargets
    cases hlog with
    | cons happ hlog =>
      obtain ⟨hk', hitfs⟩ := rtCall_follows hset happ htarget hk
      obtain ⟨hk'', hitfs'⟩ := ih (fun a itf hs => (hset a itf hs).imp_right (hitfs ▸ ·)) hlog
        htargets hk'
      exact ⟨hk'', hitfs'.trans hitfs⟩

end Calls

end Router

/-! ## What `rt_builder` says -/

namespace RtBuilder

variable {rb : RtBuilder} {ids : Set NodeId} {view view' : NodeId → Option (LsaPtr × Nat)}
  {es : List RibEvent} {calls : List RtCall} {a dest : Bytes}

theorem target_of_mem {old new : Option (Option Bytes)} {call : RtCall}
    (h : call ∈ changeNe dest old new) (ha : Router.target call = some a) :
    ∃ nh, new = some nh ∧ a = nh.getD dest := by
  unfold changeNe at h
  split_ifs at h with heq
  · exact absurd h List.not_mem_nil
  · cases old <;> cases new <;> simp only [change, List.mem_singleton, List.not_mem_nil] at h <;>
      subst h <;> simp only [Router.target, Option.some.injEq, reduceCtorEq] at ha
    · exact ⟨_, rfl, ha.symm⟩
    · exact ⟨_, rfl, ha.symm⟩

/-- **The events of a recomputation** can come from a consistent log, if they can after what the
RIB had. -/
theorem eventsOk (h : SoundOn ids view) (hlog : Replays view (es.map RibEvent.change) view')
    (hnews : ∀ e ∈ es, ∀ p, e.new = some p → p.lsa.id = e.id ∧ e.id ∈ ids ∧ Readable p.lsa)
    (hcosts : ∀ e ∈ es, ∀ cost ∈ e.costs, cost < RIB_COST_INELIGIBLE) :
    (∀ e ∈ es, EventOk ids e) ∧ SoundOn ids view' := by
  induction es generalizing view with
  | nil =>
    cases hlog
    exact ⟨fun e he => absurd he List.not_mem_nil, h⟩
  | cons e es ih =>
    obtain ⟨hnew, hnews⟩ := List.forall_mem_cons.mp hnews
    obtain ⟨hcost, hcosts⟩ := List.forall_mem_cons.mp hcosts
    cases hlog with
    | cons hstep hlog =>
      have he : EventOk ids e := by
        refine ⟨?_, fun p hp => (hnew p hp).1, hcost, fun p hp => (hnew p hp).2.2⟩
        cases e with
        | lsaAdd lsa cost => exact (hnew lsa rfl).2.1
        | lsaMod old oldcost new newcost => exact (hnew new rfl).2.1
        | lsaDel lsa cost =>
          cases hstep with
          | del hv => exact (h _ _ hv).1
      obtain ⟨hes, hview⟩ := ih (h.step he hstep) hlog hnews hcosts
      exact ⟨List.forall_mem_cons.mpr ⟨he, hes⟩, hview⟩

/-- **The next hops of the calls** are those of LSAs that became the best ones. -/
theorem run_calls (h : SoundOn ids view) (hes : ∀ e ∈ es, EventOk ids e)
    (hlog : Replays view (es.map RibEvent.change) view') (hrun : rb.run es = .ok calls) :
    ∀ call ∈ calls, ∀ a, Router.target call = some a → ∃ e ∈ es, ∃ p cost nh,
      e.new = some p ∧ rb.route (p, cost) = some nh ∧
        a = nh.getD (v6GlobalAddrFromKeyId e.id) := by
  induction es generalizing view calls with
  | nil =>
    obtain rfl := Except.ok.inj hrun
    exact fun call hm => absurd hm List.not_mem_nil
  | cons e es ih =>
    obtain ⟨he, hes⟩ := List.forall_mem_cons.mp hes
    cases hlog with
    | @cons _ view₁ _ _ _ hstep hlog =>
      have h₁ := h.step he hstep
      have hlisten : rb.listen e = .ok (changeNe (v6GlobalAddrFromKeyId e.id)
          (rb.routes view e.id) (rb.routes view₁ e.id)) :=
        listen_change hstep (fun best hb => (h e.id best hb).2) fun best hb => (h₁ e.id best hb).2
      rw [run, hlisten, ok_bind] at hrun
      obtain ⟨calls', hrun', hcalls⟩ := bind_eq_ok.mp hrun
      obtain rfl := Except.ok.inj hcalls
      intro call hm a ha
      rcases List.mem_append.mp hm with hm | hm
      · obtain ⟨nh, hnh, rfl⟩ := target_of_mem hm ha
        obtain ⟨-, pair, rfl, hpair⟩ := applies_event hstep
        unfold routes at hnh
        rw [Function.update_self] at hnh
        obtain ⟨⟨p, cost⟩, rfl, hroute⟩ := Option.bind_eq_some_iff.mp hnh
        exact ⟨e, List.mem_cons_self, p, cost, nh, hpair.symm, hroute, rfl⟩
      · obtain ⟨e', he', hrest⟩ := ih h₁ hes hlog hrun' call hm a ha
        exact ⟨e', List.mem_cons_of_mem e he', hrest⟩

end RtBuilder

end Dvpn
