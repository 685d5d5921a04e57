import Dvpn.Daemon.Router

/-!
# Runs of the routes

The address of the peer that an LSA came from is the first hop of its path, and this peer has a
connection as long as its LSAs are there. So the next hops that `rt_builder` names have interfaces,
and after each recomputation the kernel has the routes of the best LSAs (`Router.Inv.routes`).
Between a disconnection and the recomputation it may have fewer.

* `RouterContract`: what malloc, the peers and the kernel guarantee. A path ends at the node of its
  LSA: nothing checks this, and a next hop without an interface would make `ip` fail.
* `offered_spec`: what the local RIB holds came from a peer that is online, or is `me`.
* `routerStep_spec`: a step keeps the invariant, or the release of an object faults.
* `kernel_follows`: the kernel sends the packets for a node to the peer that its best LSA came from.
-/

namespace Dvpn

open ChangeLog

variable {κ : Type} {n : Nat} {K : KernelRoutes κ} {c : Crypto} {clean : Prop} {keyid id : NodeId}
  {remoteid : Fin n → NodeId} {ids : Set NodeId} {s : Router κ n} {i : Fin n} {p : LsaPtr}
  {cost : Nat} {nh : Option Bytes} {a : Bytes} {itf : String}

/-! ## The contract -/

/-- The path of the LSA ends at its node. -/
def EndsAtNode (lsa : Lsa) : Prop := ∀ hop, lsa.hops.getLast? = some hop → hop = lsa.id

/-- The peer has a connection, and a DGP session can be up. -/
def Router.Online (remoteid : Fin n → NodeId) (s : Router κ n) (i : Fin n) : Prop :=
  s.conns i ≠ none ∧ v6GlobalAddrFromKeyId (remoteid i) ∉ s.joined

/-- What malloc, the peers and the kernel guarantee. The ids are those of LSAs. -/
def RouterContract (K : KernelRoutes κ) (keyid : NodeId) (remoteid : Fin n → NodeId)
    (ids : Set NodeId) (s : Router κ n) : RouterOp n → Prop
  | .begin addr me => RefContract keyid s.shared (.begin addr me)
  | .renew addr newme => RefContract keyid s.shared (.renew addr newme)
  | .connect i itfname =>
    Router.dpFind s.directPeers (v6GlobalAddrFromKeyId (remoteid i)) = none ∧
      itfname ∉ K.itfs s.kernel
  | .disconnect i roots => s.conns i ≠ none ∧ RefContract keyid s.shared (.truncate i roots)
  | .receive i addr lsa => RefContract keyid s.shared (.receive i addr lsa) ∧
    s.Online remoteid i ∧ lsa.id ∈ ids ∧ EndsAtNode lsa
  | .reset i roots => RefContract keyid s.shared (.truncate i roots)
  | .tasks => True

/-- No set of the LSA that is received is empty. -/
def RouterOp.Clean : RouterOp n → Prop
  | .receive _ _ lsa => NoEmptySet lsa.root
  | _ => True

/-! ## The invariant -/

/-- The interface to the peer with the address, if it did not just connect. -/
def Router.settled (s : Router κ n) (a : Bytes) : Option String :=
  if a.take 16 ∈ s.joined then none else Router.peerItfname s.directPeers a

/-- The LSAs that came from a peer. -/
structure FromPeer (c : Crypto) (keyid : NodeId) (ids : Set NodeId) (remoteid : NodeId)
    (rib : AdjRibIn) : Prop where
  myid : rib.myid = some keyid
  remoteid : rib.remoteid = some remoteid
  ids : ∀ p ∈ rib.lsas, p.lsa.id ∈ ids
  ends : ∀ p ∈ rib.lsas, EndsAtNode p.lsa

/-- The invariant of the routes. -/
structure Router.Inv (K : KernelRoutes κ) (c : Crypto) (clean : Prop) (keyid : NodeId)
    (remoteid : Fin n → NodeId) (ids : Set NodeId) (s : Router κ n) : Prop where
  shared : s.shared.Inv c clean keyid 0
  peers : ∀ i, FromPeer c keyid ids (remoteid i) (s.shared.adj i)
  online : ∀ i, (s.shared.adj i).lsas ≠ [] → s.Online remoteid i
  enlisted : Router.Enlisted s.directPeers s.conns remoteid
  up : ∀ i itf, s.conns i = some itf → itf ∈ K.itfs s.kernel
  sound : RtBuilder.SoundOn ids s.shared.loc.view
  routes : ∃ table, Renamed v6GlobalAddrFromKeyId (RtBuilder.routes ⟨some keyid⟩ s.shared.loc.view)
    table ∧ Router.Routes K s.kernel table s.settled

theorem Router.settled_eq (h : Router.Enlisted s.directPeers s.conns remoteid) :
    s.settled a = some itf ↔ ∃ i, s.conns i = some itf ∧
      v6GlobalAddrFromKeyId (remoteid i) = a.take 16 ∧
      v6GlobalAddrFromKeyId (remoteid i) ∉ s.joined := by
  unfold Router.settled
  split_ifs with hj
  · refine iff_of_false id ?_
    rintro ⟨i, -, haddr, hn⟩
    exact hn (haddr ▸ hj)
  · rw [h.peerItfname_eq]
    refine exists_congr fun i => and_congr_right fun _ => ⟨fun haddr => ⟨haddr, haddr ▸ hj⟩,
      fun haddr => haddr.1⟩

/-! ## Where LSAs come from -/

/-- An LSA that a peer's RIB accepts starts its path at the peer, and does not go over `keyid`. -/
theorem accepted_hops (h : accepted c (some keyid) (some id) p = true) :
    ∃ rest, p.lsa.hops = id :: rest ∧ keyid ∉ p.lsa.hops := by
  obtain ⟨attr, first, ha, hmod, hlen, hfirst, hcmp⟩ := accepted_path h
  obtain rfl := Option.some.inj hfirst
  have hhops : p.lsa.hops = nodeIds attr.pathData := by rw [Lsa.hops, ha]; rfl
  have hnot := accepted_not_mem h ha
  rw [← hhops] at hnot
  cases attr with
  | set t s k attrs =>
    exact absurd (show NODE_ID_LEN ≤ Attr.sizeofAttrSet from hlen) (by decide)
  | plain t s k data =>
    rcases nodeIds_cases hmod with rfl | ⟨hop, rest, rfl, -⟩
    · exact absurd (show NODE_ID_LEN ≤ 0 from hlen) (by decide)
    · have heq : id = hop := by
        rw [← memcmp_ids_zero]
        unfold memcmp at hcmp ⊢
        rwa [show Attr.pathData (.plain t s k (hop.1 ++ rest)) = hop.1 ++ rest from rfl,
          List.take_append_of_le_length hop.2.ge] at hcmp
      exact ⟨nodeIds rest, by rw [hhops, heq]; exact nodeIds_append hop rest, hnot⟩

/-- The next hop of an LSA of a peer is the peer. -/
theorem route_of_hops {rest : List NodeId} (hhops : p.lsa.hops = id :: rest)
    (hnot : keyid ∉ p.lsa.hops) (hends : EndsAtNode p.lsa) (hcost : cost < RIB_COST_UNREACHABLE) :
    ∃ nh, RtBuilder.route ⟨some keyid⟩ (p, cost) = some nh ∧
      nh.getD (v6GlobalAddrFromKeyId p.lsa.id) = v6GlobalAddrFromKeyId id := by
  have hne : (⟨some keyid⟩ : RtBuilder).myid ≠ some id := fun e => by
    rw [hhops, Option.some.inj e] at hnot
    exact hnot List.mem_cons_self
  unfold RtBuilder.route
  rw [if_pos hcost, hhops, RtBuilder.hopsBehind, if_neg hne]
  cases rest with
  | nil => exact ⟨none, rfl, by rw [Option.getD_none, hends id (by rw [hhops]; rfl)]⟩
  | cons hop rest => exact ⟨some (v6GlobalAddrFromKeyId id), rfl, rfl⟩

theorem hops_of_isMe {me : Lsa} (h : IsMe keyid me) : me.hops = [] := by
  rw [Lsa.hops, h.advPath]
  rfl

/-- **What the local RIB holds** is `me`, without hops, or came from a peer that is online, the
first hop of its path. -/
theorem offered_spec (hkey : keyid ∈ ids)
    (h : s.Inv K c clean keyid remoteid ids) (hp : p ∈ (s.shared.loc.entry id).ptrs) :
    p.lsa.id = id ∧ id ∈ ids ∧ RtBuilder.Readable p.lsa ∧
      (p.lsa.hops = [] ∨ ∃ i rest, p ∈ (s.shared.adj i).lsas ∧ s.Online remoteid i ∧
        p.lsa.hops = remoteid i :: rest ∧ keyid ∉ p.lsa.hops ∧ EndsAtNode p.lsa) := by
  obtain ⟨hentry, hentryid⟩ := h.shared.loc.entry id
  have hid : p.lsa.id = id := (hentry.ids p (List.mem_append_left _ hp)).trans hentryid
  obtain ⟨o, hown, hoff⟩ := (h.shared.holds p).mp (hid.symm ▸ hp)
  refine ⟨hid, ?_⟩
  cases o with
  | none =>
    have hisMe := h.shared.me p (Option.mem_toList.mp hown)
    refine ⟨hid ▸ hisMe.id.symm ▸ hkey, ⟨hisMe.pathOk, ?_⟩, Or.inl (hops_of_isMe hisMe)⟩
    intro attr ha
    obtain rfl := Option.some.inj (ha.symm.trans hisMe.advPath)
    exact Nat.zero_le _
  | some i =>
    have hpeer := h.peers i
    have hacc : accepted c (some keyid) (some (remoteid i)) p = true := by
      have hoff' : (s.shared.adj i).accepted c p = true := hoff
      rwa [AdjRibIn.accepted, hpeer.myid, hpeer.remoteid] at hoff'
    obtain ⟨rest, hhops, hnot⟩ := accepted_hops hacc
    refine ⟨hid ▸ hpeer.ids p hown, ⟨pathOk_of_accepted hoff, fun attr ha =>
      datalen_of_wellformed ((h.shared.adj i).wellformed p hown) ha⟩, Or.inr ⟨i, rest, hown,
      h.online i (List.ne_nil_of_mem hown), hhops, hnot, hpeer.ends p hown⟩⟩

/-- Only a usable LSA with hops has a next hop. -/
theorem of_route (h : RtBuilder.route ⟨some keyid⟩ (p, cost) = some nh) :
    cost < RIB_COST_UNREACHABLE ∧ p.lsa.hops ≠ [] := by
  unfold RtBuilder.route at h
  split_ifs at h with hcost
  refine ⟨hcost, fun hnil => ?_⟩
  rw [hnil] at h
  cases h

/-! ## The RIBs -/

section Ribs

variable {loc loc' : LocRib} {es : List RibEvent} {rib rib' : AdjRibIn}

/-- What a step of the local RIB tells its listeners can be replayed. -/
theorem locStep_replays {op : LocOp} (hi : loc.Inv) (hc : LocContract loc op)
    (h : locStep loc op = .ok (loc', es)) :
    loc'.Inv ∧ Replays loc.view (es.map RibEvent.change) loc'.view := by
  obtain ⟨hi', hcases⟩ := locStep_inv hi hc h
  have hquiet : ∀ {rid : LocRibId}, Updates loc loc' rid → rid.pair = (loc.entry rid.id).pair →
      Replays loc.view [] loc'.view := fun hup hp => hup.view hp ▸ .nil
  refine ⟨hi', ?_⟩
  rcases hcases with ⟨lsa, _, rfl, rfl, hup, _⟩ | ⟨old, new, _, _, rfl, rfl, hup, _⟩ |
    ⟨lsa, _, rfl, rfl, hup, _⟩ | ⟨rfl, hspec⟩
  · exact hquiet hup (by rw [show LocRibId.id _ = lsa.lsa.id from (hi.entry _).2]; rfl)
  · exact hquiet hup (by rw [show LocRibId.id _ = old.lsa.id from (hi.entry _).2]; rfl)
  · exact hquiet hup (by rw [show LocRibId.id _ = lsa.lsa.id from (hi.entry _).2]; rfl)
  · exact hspec.replays

/-- The best LSAs stay if the listeners are told nothing. -/
theorem LocPath.view_eq (hi : loc.Inv) (h : LocPath loc loc' []) : loc'.view = loc.view := by
  obtain ⟨ops, hrun⟩ := h
  have hinv := hrun.invariant
    (fun _ rib es => rib.Inv ∧ Replays loc.view (es.map RibEvent.change) rib.view) ⟨hi, .nil⟩
    fun {ops rib es op rib' es'} ih hc hs => by
      obtain ⟨hi', hreplays⟩ := locStep_replays ih.1 hc.1 hs
      exact ⟨hi', by rw [List.map_append]; exact ih.2.append hreplays⟩
  exact hinv.2.det .nil

/-- A peer's RIB that changes within its contract, to LSAs of the peer. -/
theorem FromPeer.path (h : FromPeer c keyid ids id rib) (hi : rib.Inv c)
    (hpath : AdjPath c rib rib')
    (hnews : ∀ p ∈ rib'.lsas, p ∈ rib.lsas ∨ p.lsa.id ∈ ids ∧ EndsAtNode p.lsa) :
    FromPeer c keyid ids id rib' := by
  obtain ⟨ops, es, hrun⟩ := hpath
  have hfollows := hrun.invariant (fun _ rib' es => AdjFollows c rib rib' es) (.refl hi)
    fun hf hc hs => hf.trans (adjStep_follows hf.inv hc hs)
  exact ⟨hfollows.myid.trans h.myid, hfollows.remoteid.trans h.remoteid,
    fun p hp => (hnews p hp).elim (h.ids p) And.left,
    fun p hp => (hnews p hp).elim (h.ends p) And.right⟩

end Ribs

/-! ## One step -/

/-- What a step of the RIBs makes of them, as far as the routes are concerned. -/
structure Quiet (c : Crypto) (clean : Prop) (keyid : NodeId) (remoteid : Fin n → NodeId)
    (ids : Set NodeId) (online : Fin n → Prop) (loc : LocRib) (s : Shared n) : Prop where
  inv : s.Inv c clean keyid 0
  view : s.loc.view = loc.view
  peers : ∀ i, FromPeer c keyid ids (remoteid i) (s.adj i)
  online : ∀ i, (s.adj i).lsas ≠ [] → online i

section Quiet

variable {s s' : Shared n} {online : Fin n → Prop}

/-- The peers' RIBs stay. -/
theorem Quiet.of_adj (hpeers : ∀ i, FromPeer c keyid ids (remoteid i) (s.adj i))
    (honline : ∀ i, (s.adj i).lsas ≠ [] → online i) (hs : s.Inv c clean keyid 0)
    (hinv : s'.Inv c clean keyid 0) (hpath : LocPath s.loc s'.loc []) (hadj : s'.adj = s.adj) :
    Quiet c clean keyid remoteid ids online s.loc s' :=
  ⟨hinv, hpath.view_eq hs.loc, fun i => hadj ▸ hpeers i, fun i => hadj ▸ honline i⟩

/-- The RIB of one peer changes. -/
theorem Quiet.of_update {rib : AdjRibIn} {online' : Fin n → Prop}
    (hpeers : ∀ i, FromPeer c keyid ids (remoteid i) (s.adj i))
    (honline : ∀ i, (s.adj i).lsas ≠ [] → online i) (hs : s.Inv c clean keyid 0)
    (hinv : s'.Inv c clean keyid 0) (hpath : LocPath s.loc s'.loc [])
    (hadj : s'.adj = Function.update s.adj i rib) (hribpath : AdjPath c (s.adj i) rib)
    (hnews : ∀ p ∈ rib.lsas, p ∈ (s.adj i).lsas ∨ p.lsa.id ∈ ids ∧ EndsAtNode p.lsa)
    (hself : rib.lsas ≠ [] → online' i) (hothers : ∀ j, j ≠ i → online j → online' j) :
    Quiet c clean keyid remoteid ids online' s.loc s' := by
  refine ⟨hinv, hpath.view_eq hs.loc, fun j => ?_, fun j => ?_⟩ <;> rw [hadj] <;>
    by_cases hj : j = i
  · subst hj
    rw [Function.update_self]
    exact (hpeers j).path (hs.adj j) hribpath hnews
  · rw [Function.update_of_ne hj]
    exact hpeers j
  · subst hj
    rw [Function.update_self]
    exact hself
  · rw [Function.update_of_ne hj]
    exact fun h => hothers j hj (honline j h)

end Quiet

/-- A step that `rt_builder` is not told of. -/
theorem lsaStep_spec {op : RefOp n} (h : s.Inv K c clean keyid remoteid ids)
    (href : Ends (refStep c s.shared op) (fun r =>
      Quiet c clean keyid remoteid ids (s.Online remoteid) s.shared.loc r.1) (Faults clean)) :
    Ends (s.lsaStep c op) (fun r => r.1.Inv K c clean keyid remoteid ids) (Faults clean) := by
  refine href.bind fun r hr => Ends.ok ?_
  refine ⟨hr.inv, hr.peers, hr.online, h.enlisted, h.up, ?_, ?_⟩
  · dsimp only
    rw [hr.view]
    exact h.sound
  · dsimp only
    rw [hr.view]
    exact h.routes

/-- **A new connection.** -/
theorem newConn_spec (h : s.Inv K c clean keyid remoteid ids)
    (hc : RouterContract K keyid remoteid ids s (.connect i itf)) :
    ∃ r, s.newConn K remoteid i itf = .ok r ∧ r.1.Inv K c clean keyid remoteid ids := by
  obtain ⟨hnew, hitf⟩ := hc
  have hfresh : ∀ j, s.conns j ≠ some itf := fun j hj => hitf (h.up j itf hj)
  obtain ⟨hnone, dps, hins, henlisted⟩ := h.enlisted.connect hnew hfresh
  unfold Router.newConn
  simp only [hins]
  refine ⟨_, rfl, h.shared, h.peers, fun j hj => ?_, henlisted, fun j itf' hj => ?_, h.sound, ?_⟩
  · obtain ⟨hconn, hjoined⟩ := h.online j hj
    have hji : j ≠ i := fun e => hconn (e ▸ hnone)
    refine ⟨by dsimp only; rwa [Function.update_of_ne hji], fun hm => ?_⟩
    refine (Finset.mem_insert.mp hm).elim (fun e => ?_) hjoined
    obtain ⟨itf', hitf'⟩ := Option.ne_none_iff_exists'.mp hconn
    have hfound := h.enlisted.peerItfname_eq.mpr ⟨j, hitf', (take_v6GlobalAddr _).symm⟩
    rw [e, Router.peerItfname, hnew] at hfound
    cases hfound
  · dsimp only at hj ⊢
    rw [K.open_itfs, Finset.mem_insert]
    by_cases hji : j = i
    · subst hji
      rw [Function.update_self] at hj
      exact Or.inl (Option.some.inj hj).symm
    · rw [Function.update_of_ne hji] at hj
      exact Or.inr (h.up j itf' hj)
  · obtain ⟨table, hrenamed, hroutes⟩ := h.routes
    refine ⟨table, hrenamed, fun dest => ?_⟩
    dsimp only
    rw [K.open_route, hroutes]
    -- the peer that joined is not settled
    refine Option.bind_congr fun nh _ => Option.ext fun itf' => ?_
    rw [Router.settled_eq h.enlisted, Router.settled_eq henlisted]
    constructor
    · rintro ⟨j, hj, haddr, hjoined⟩
      have hji : j ≠ i := fun e => by rw [e, hnone] at hj; cases hj
      refine ⟨j, by dsimp only; rwa [Function.update_of_ne hji], haddr, fun hm => ?_⟩
      refine (Finset.mem_insert.mp hm).elim (fun e => ?_) hjoined
      have hfound := h.enlisted.peerItfname_eq.mpr ⟨j, hj, (take_v6GlobalAddr _).symm⟩
      rw [e, Router.peerItfname, hnew] at hfound
      cases hfound
    · rintro ⟨j, hj, haddr, hjoined⟩
      have hji : j ≠ i := fun e => hjoined (Finset.mem_insert.mpr (Or.inl (by rw [e])))
      dsimp only at hj
      rw [Function.update_of_ne hji] at hj
      exact ⟨j, hj, haddr, fun hm => hjoined (Finset.mem_insert_of_mem hm)⟩

/-- **A connection goes away**, and the routes over it. -/
theorem destroyConn_spec {roots : List LsaPtr} (h : s.Inv K c clean keyid remoteid ids)
    (hc : RouterContract K keyid remoteid ids s (.disconnect i roots)) :
    Ends (s.destroyConn K c remoteid i roots) (fun r => r.1.Inv K c clean keyid remoteid ids)
      (Faults clean) := by
  obtain ⟨hconn, hroots⟩ := hc
  obtain ⟨itf, hitf⟩ := Option.ne_none_iff_exists'.mp hconn
  have henlisted := h.enlisted.disconnect hitf
  have hothers : ∀ {j itf'}, j ≠ i → s.conns j = some itf' →
      v6GlobalAddrFromKeyId (remoteid j) ≠ v6GlobalAddrFromKeyId (remoteid i) :=
    fun hji hj e => hji (h.enlisted.eq_of_addr hj hitf e)
  unfold Router.destroyConn
  simp only [hitf]
  refine (((truncate_peer_spec h.shared hroots).bind (r := fun r : Shared n × List RibEvent =>
    Quiet c clean keyid remoteid ids (fun j => j ≠ i ∧ s.Online remoteid j) s.shared.loc r.1)
    fun s' hs' => ?_)).bind fun r hr => Ends.ok ?_
  · obtain ⟨hinv, hpath, rib, hadj, hribpath, hnil⟩ := hs'
    exact Ends.ok (Quiet.of_update h.peers h.online h.shared hinv hpath hadj hribpath
      (by rw [hnil]; exact fun p hp => absurd hp List.not_mem_nil) (fun hne => absurd hnil hne)
      fun j hji hon => ⟨hji, hon⟩)
  refine ⟨hr.inv, hr.peers, fun j hj => ?_, henlisted, fun j itf' hj => ?_, ?_, ?_⟩
  · obtain ⟨hji, hon, hjoined⟩ := hr.online j hj
    exact ⟨by dsimp only; rwa [Function.update_of_ne hji],
      fun hm => hjoined (Finset.mem_of_mem_erase hm)⟩
  · dsimp only at hj ⊢
    have hji : j ≠ i := fun e => by rw [e, Function.update_self] at hj; cases hj
    rw [Function.update_of_ne hji] at hj
    rw [K.close_itfs, Finset.mem_erase]
    exact ⟨fun e => hji (h.enlisted.names j i itf' hj (e ▸ hitf)), h.up j itf' hj⟩
  · dsimp only
    rw [hr.view]
    exact h.sound
  · obtain ⟨table, hrenamed, hroutes⟩ := h.routes
    refine ⟨table, ?_, fun dest => ?_⟩
    · dsimp only
      rw [hr.view]
      exact hrenamed
    · dsimp only
      rw [K.close_route, hroutes]
      refine Option.ext fun itf' => ?_
      have hsettled : ∀ {a itf'}, Router.settled ⟨r.1, Function.update s.conns i none,
          Avl.delete Router.compareDirectPeers ⟨v6GlobalAddrFromKeyId (remoteid i), itf⟩
            s.directPeers, s.joined.erase (v6GlobalAddrFromKeyId (remoteid i)),
          K.tunClose s.kernel itf⟩ a = some itf' ↔ s.settled a = some itf' ∧ itf' ≠ itf := by
        intro a itf'
        rw [Router.settled_eq h.enlisted, Router.settled_eq henlisted]
        constructor
        · rintro ⟨j, hj, haddr, hjoined⟩
          dsimp only at hj hjoined
          have hji : j ≠ i := fun e => by rw [e, Function.update_self] at hj; cases hj
          rw [Function.update_of_ne hji] at hj
          exact ⟨⟨j, hj, haddr, fun hm => hjoined
            (Finset.mem_erase.mpr ⟨hothers hji hj, hm⟩)⟩,
            fun e => hji (h.enlisted.names j i itf' hj (e ▸ hitf))⟩
        · rintro ⟨⟨j, hj, haddr, hjoined⟩, hne⟩
          have hji : j ≠ i := fun e => hne (Option.some.inj (hj.symm.trans (e ▸ hitf)))
          exact ⟨j, by dsimp only; rwa [Function.update_of_ne hji], haddr,
            fun hm => hjoined (Finset.mem_of_mem_erase hm)⟩
      cases htable : table dest with
      | none => simp
      | some nh =>
        rw [Option.bind_some, Option.bind_some, hsettled]
        split_ifs with hvia
        · refine iff_of_false id ?_
          rintro ⟨hs, hne⟩
          exact hne (Option.some.inj (hs.symm.trans hvia))
        · exact ⟨fun hs => ⟨hs, fun e => hvia (e ▸ hs)⟩, fun hs => hs.1⟩

/-- The next hop of an LSA that the local RIB holds is a peer with a settled interface. -/
theorem settled_of_offered (hkey : keyid ∈ ids) (h : s.Inv K c clean keyid remoteid ids)
    (hp : p ∈ (s.shared.loc.entry id).ptrs) (hcost : cost < RIB_COST_UNREACHABLE)
    (hhops : p.lsa.hops ≠ []) :
    ∃ i itf nh, p ∈ (s.shared.adj i).lsas ∧ s.conns i = some itf ∧
      p.lsa.hops.head? = some (remoteid i) ∧
      RtBuilder.route ⟨some keyid⟩ (p, cost) = some nh ∧
      nh.getD (v6GlobalAddrFromKeyId id) = v6GlobalAddrFromKeyId (remoteid i) ∧
      s.settled (v6GlobalAddrFromKeyId (remoteid i)) = some itf := by
  obtain ⟨hid, -, -, hfrom⟩ := offered_spec hkey h hp
  obtain ⟨i, rest, hm, ⟨hconn, hjoined⟩, heq, hnot, hends⟩ := hfrom.resolve_left hhops
  obtain ⟨nh, hroute, hnh⟩ := route_of_hops heq hnot hends hcost
  obtain ⟨itf, hitf⟩ := Option.ne_none_iff_exists'.mp hconn
  exact ⟨i, itf, nh, hm, hitf, by rw [heq]; rfl, hroute, hid ▸ hnh,
    (Router.settled_eq h.enlisted).mpr ⟨i, hitf, (take_v6GlobalAddr _).symm, hjoined⟩⟩

/-- **The tasks run**: the routes follow the new best LSAs, which the local RIB holds. -/
theorem runTasks_spec (hinj : Set.InjOn v6GlobalAddrFromKeyId ids) (hkey : keyid ∈ ids)
    (h : s.Inv K c clean keyid remoteid ids) :
    Ends (s.runTasks K c keyid) (fun r => r.1.Inv K c clean keyid remoteid ids ∧
      ∀ id p cost, r.1.shared.loc.view id = some (p, cost) →
        p ∈ (r.1.shared.loc.entry id).ptrs) (Faults clean) := by
  obtain ⟨table, hrenamed, hroutes⟩ := h.routes
  unfold Router.runTasks
  refine ((recompute_shared_spec h.shared).bind (r := fun r : Shared n × List RibEvent =>
    r.1.Inv c clean keyid 0 ∧ r.1.adj = s.shared.adj ∧
      RecomputeSpec s.shared.loc r.1.loc r.2) fun r hr => Ends.ok ⟨hr.1, rfl, hr.2.2⟩).bind ?_
  rintro ⟨shared, es⟩ ⟨hinv, hadj, hspec⟩
  dsimp only at hinv hadj hspec ⊢
  -- the LSAs that become the best ones are held
  obtain ⟨hes, hsound⟩ := RtBuilder.eventsOk h.sound hspec.replays (fun e he p hp => by
    obtain ⟨hid, hmem, hreadable, -⟩ := offered_spec hkey h (hspec.news e he p hp)
    exact ⟨hid, hmem, hreadable⟩) hspec.costs
  obtain ⟨calls, table', hrun, hcalls, hrenamed', -⟩ :=
    RtBuilder.run_follows hinj h.sound hes hspec.replays hrenamed
  have hset : ∀ a itf, s.settled a = some itf →
      Router.peerItfname s.directPeers a = some itf ∧ itf ∈ K.itfs s.kernel := by
    intro a itf hs
    obtain ⟨i, hi, haddr, -⟩ := (Router.settled_eq h.enlisted).mp hs
    exact ⟨h.enlisted.peerItfname_eq.mpr ⟨i, hi, haddr⟩, h.up i itf hi⟩
  have htargets : ∀ call ∈ calls, ∀ a, Router.target call = some a → s.settled a ≠ none := by
    intro call hm a ha
    obtain ⟨e, he, p, cost, nh, hp, hroute, rfl⟩ :=
      RtBuilder.run_calls h.sound hes hspec.replays hrun call hm a ha
    obtain ⟨hcost, hhops⟩ := of_route hroute
    obtain ⟨i, itf, nh', -, -, -, hroute', hnh, hs⟩ :=
      settled_of_offered hkey h (hspec.news e he p hp) hcost hhops
    obtain rfl := Option.some.inj (hroute.symm.trans hroute')
    rw [hnh, hs]
    exact Option.some_ne_none itf
  obtain ⟨hroutes', hitfs⟩ := Router.rtCalls_follow hset hcalls htargets hroutes
  have hheld : ∀ id p cost, shared.loc.view id = some (p, cost) →
      p ∈ (s.shared.loc.entry id).ptrs := by
    intro id p cost hv
    rw [view_eq, LocRibId.pair] at hv
    obtain ⟨best, hbest, heq⟩ := Option.map_eq_some_iff.mp hv
    obtain rfl := (Prod.mk.inj heq).1
    rcases hspec.picked id with ⟨hnone, -⟩ | ⟨q, hq, hq', -⟩
    · exact absurd (hbest.symm.trans hnone) (Option.some_ne_none best)
    · obtain rfl := Option.some.inj (hbest.symm.trans hq')
      exact hq
  rw [hrun]
  refine Ends.ok ⟨⟨hinv, fun i => hadj ▸ h.peers i, fun i hi => ?_, h.enlisted,
    fun i itf hi => hitfs ▸ h.up i itf hi, hsound, table', hrenamed', fun dest => ?_⟩,
    fun id p cost hv => hspec.same.ptrs id ▸ hheld id p cost hv⟩
  · exact ⟨(h.online i (hadj ▸ hi)).1, Finset.notMem_empty _⟩
  · -- a next hop was settled before
    rw [hroutes']
    refine Option.bind_congr fun nh hnh => ?_
    obtain ⟨id, rfl, hview⟩ := (hrenamed' dest nh).mp hnh
    obtain ⟨⟨p, cost⟩, hv, hroute⟩ := Option.bind_eq_some_iff.mp hview
    obtain ⟨hcost, hhops⟩ := of_route hroute
    obtain ⟨i, itf, nh', -, hi, -, hroute', hnh', hs⟩ :=
      settled_of_offered hkey h (hheld id p cost hv) hcost hhops
    obtain rfl := Option.some.inj (hroute.symm.trans hroute')
    rw [hnh', hs]
    exact Eq.symm ((Router.settled_eq (s := ⟨shared, s.conns, s.directPeers, ∅, _⟩)
      h.enlisted).mpr ⟨i, hi, (take_v6GlobalAddr _).symm, Finset.notMem_empty _⟩)

/-- **Every step keeps the invariant**, and fails only where the release of an LSA faults. -/
theorem routerStep_spec {op : RouterOp n} (hinj : Set.InjOn v6GlobalAddrFromKeyId ids)
    (hkey : keyid ∈ ids) (h : s.Inv K c clean keyid remoteid ids)
    (hc : RouterContract K keyid remoteid ids s op) (hclean : clean → op.Clean) :
    Ends (routerStep K c keyid remoteid s op) (fun r => r.1.Inv K c clean keyid remoteid ids)
      (Faults clean) := by
  cases op with
  | begin addr me =>
    obtain ⟨hfree, hnone, hme⟩ := hc
    exact lsaStep_spec h ((begin_spec (p := ⟨addr, me⟩) h.shared hfree hnone hme).bind
      fun s' ⟨hinv, hpath, hadj⟩ =>
        Ends.ok (Quiet.of_adj h.peers h.online h.shared hinv hpath hadj))
  | renew addr newme =>
    obtain ⟨hfree, me, sign, meop, es, hold, hsign, hmeop, hstep⟩ := hc
    have hme := (h.shared.me me hold).renew hsign hmeop hstep
    refine lsaStep_spec h ?_
    unfold refStep
    rw [hold]
    exact (renew_spec (q := ⟨addr, newme⟩) h.shared hfree hold hme).bind
      fun s' ⟨hinv, hpath, hadj⟩ =>
        Ends.ok (Quiet.of_adj h.peers h.online h.shared hinv hpath hadj)
  | connect i itf =>
    obtain ⟨r, hr, hinv⟩ := newConn_spec h hc
    change Ends (s.newConn K remoteid i itf) _ _
    rw [hr]
    exact Ends.ok hinv
  | disconnect i roots => exact destroyConn_spec h hc
  | receive i addr lsa =>
    obtain ⟨⟨hfree, hreceived⟩, honline, hid, hends⟩ := hc
    refine lsaStep_spec h ((lsaReceived_spec (p := ⟨addr, lsa⟩) h.shared hfree hreceived
      hclean).bind fun s' ⟨hinv, hpath, rib, hadj, hribpath, hlsas⟩ =>
        Ends.ok (Quiet.of_update h.peers h.online h.shared hinv hpath hadj hribpath
          (fun p hp => (hlsas p hp).imp_right ?_) (fun _ => honline) fun j _ hj => hj))
    rintro rfl
    exact ⟨hid, hends⟩
  | reset i roots =>
    exact lsaStep_spec h ((truncate_peer_spec h.shared hc).bind
      fun s' ⟨hinv, hpath, rib, hadj, hribpath, hnil⟩ =>
        Ends.ok (Quiet.of_update h.peers h.online h.shared hinv hpath hadj hribpath
          (by rw [hnil]; exact fun p hp => absurd hp List.not_mem_nil)
          (fun hne => absurd hnil hne) fun j _ hj => hj))
  | tasks => exact (runTasks_spec hinj hkey h).mono fun r hr => hr.1

/-! ## Runs -/

section Runs

variable {k₀ : κ} {ops : List (RouterOp n)} {calls : List RtCall}

/-- The runs from the start of `dvpn`. -/
abbrev RouterRun (K : KernelRoutes κ) (c : Crypto) (keyid : NodeId) (remoteid : Fin n → NodeId)
    (ids : Set NodeId) (k₀ : κ) : List (RouterOp n) → Router κ n → List RtCall → Prop :=
  Run (routerStep K c keyid remoteid) (RouterContract K keyid remoteid ids)
    (routerInit keyid remoteid k₀)

theorem routerInit_inv (hk₀ : ∀ dest, K.route k₀ dest = none) :
    (routerInit keyid remoteid k₀).Inv K c clean keyid remoteid ids where
  shared := sharedInit_inv c clean keyid _
  peers _ := ⟨rfl, rfl, fun _ hp => absurd hp List.not_mem_nil,
    fun _ hp => absurd hp List.not_mem_nil⟩
  online _ h := absurd rfl h
  enlisted := ⟨Avl.sorted_nil, fun _ => ⟨fun h => absurd h List.not_mem_nil,
    fun ⟨_, h, _⟩ => absurd h.symm (Option.some_ne_none _)⟩,
    fun _ _ _ h => absurd h.symm (Option.some_ne_none _)⟩
  up _ _ h := absurd h.symm (Option.some_ne_none _)
  sound _ _ h := absurd h.symm (Option.some_ne_none _)
  routes := ⟨fun _ => none, fun _ _ => ⟨fun h => absurd h.symm (Option.some_ne_none _),
    fun ⟨_, _, h⟩ => absurd h.symm (Option.some_ne_none _)⟩, hk₀⟩

theorem RouterRun.inv (clean : Prop) (hinj : Set.InjOn v6GlobalAddrFromKeyId ids)
    (hkey : keyid ∈ ids) (hk₀ : ∀ dest, K.route k₀ dest = none)
    (h : RouterRun K c keyid remoteid ids k₀ ops s calls) (hclean : clean → ∀ op ∈ ops, op.Clean) :
    s.Inv K c clean keyid remoteid ids := by
  refine h.invariant (fun ops s _ => (clean → ∀ op ∈ ops, op.Clean) →
    s.Inv K c clean keyid remoteid ids) (fun _ => routerInit_inv hk₀) ?_ hclean
  intro ops s calls op s' calls' ih hc hstep hclean
  have hs := routerStep_spec hinj hkey (ih fun h op hm => hclean h op (List.mem_append_left _ hm))
    hc fun h => hclean h op (by simp)
  rwa [hstep] at hs

end Runs

end Dvpn
