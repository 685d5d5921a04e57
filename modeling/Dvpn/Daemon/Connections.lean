import Dvpn.Daemon.Me
import Dvpn.Run

/-!
# The connections of the daemon (`dvpn.c:306-427`, `dvpn.c:450-598`, `util.c:255-262`)

A connection comes in through a listen entry or goes out through a connect entry. The daemon keeps
its peer in the list of the entry, in the tree `direct_peers` by its address, and, unless the entry
is `DBONLY`, as a `PEER` of its own LSA.

* `daemonStep` is the daemon as a machine: new connections and disconnections at any entries.
* What one new connection gets from outside is `NewConn`: whether the interface registers, the
  round-trip time, the segment size and the time.
* What `loc_rib_mod_lsa` is called with is an event. Interfaces, addresses, MTUs and the DGP
  sessions of a connection are left out.
* The allocations succeed.

`Enrolled keyid fixed me dps conns`: the tree and the LSA agree with the connections `conns`.
`Daemon.Inv` says that of the connections in the lists of the entries.

* `Enrolled.join_isOk`, `Enrolled.join`, `Enrolled.leave`: the part that both kinds of entries
  share.
* `daemonStep_inv`: every step that returns keeps the invariant.
* `daemonStep_isOk`: a step returns iff its condition `Within` holds.
* `registry_iff`: both over all runs.
-/

namespace Dvpn

/-! ## The code -/

/-- `v6_global_addr_from_key_id` (`util.c:255-262`). -/
def v6GlobalAddrFromKeyId (id : NodeId) : Bytes :=
  [0x20, 0x01, 0x00, 0x2f] ++ (id.1.drop ((NODE_ID_LEN - 12) / 2)).take 12

/-- `compare_direct_peers` (`dvpn.c:123-132`). -/
def compareDirectPeers (a b : Bytes) : Int := memcmp a b 16

/-- `dp_find` (`dvpn.c:52-74`). -/
def dpFind (directPeers : List Bytes) (addr : Bytes) : Option Bytes :=
  Avl.find (fun dp => memcmp addr dp 16) directPeers

/-- `struct conf_connect_entry` of a started configuration: the peers of its connections, oldest
first. -/
structure StartedConnectEntry extends ConfConnectEntry where
  connections : List NodeId

/-- `struct conf_listen_entry` of a started configuration: the peers of its connections, oldest
first. -/
structure StartedListenEntry extends ConfListenEntry where
  numConnections : Int
  connections : List NodeId

/-- The state of the daemon; `directPeers` holds the addresses of the tree. -/
structure Daemon where
  keyid : NodeId
  me : LsaObj
  directPeers : List Bytes
  connectEntries : List StartedConnectEntry
  listenEntries : List StartedListenEntry

/-- What a new connection gets from outside. -/
structure NewConn where
  id : NodeId
  /-- `tun_interface_register` succeeds -/
  tun : Bool
  rtt : Int
  maxseg : Int
  time : Nat
  /-- the time at which an old connection is destroyed -/
  evictTime : Nat

inductive DaemonEvent where
  | modLsa (lsa newlsa : Lsa)
  /-- the connection is kept, or refused with NULL -/
  | returned (conn : Bool)

/-- The test of `peer_type` around `mylsa_add_peer` (`dvpn.c:376-387`, `dvpn.c:542-553`). -/
def joinMe (sign : Bytes → Option Bytes) (me : LsaObj) (c : NewConn) (peerType : ConfPeerType)
    (cost : Int) : Except Crash (LsaObj × List DaemonEvent) := do
  if peerType = .dbonly then return (me, [])
  let cost := if cost = 0 then (if c.rtt < 1 then 1 else c.rtt) else cost
  let newme ← mylsaAddPeer sign c.time me c.id peerType cost
  return (newme, [.modLsa me.toLsa newme.toLsa])

/-- The test of `peer_type` around `mylsa_del_peer` (`dvpn.c:341-342`, `dvpn.c:496-497`). -/
def leaveMe (sign : Bytes → Option Bytes) (time : Nat) (me : LsaObj) (id : NodeId)
    (peerType : ConfPeerType) : Except Crash (LsaObj × List DaemonEvent) := do
  if peerType = .dbonly then return (me, [])
  let newme ← mylsaDelPeer sign time me id
  return (newme, [.modLsa me.toLsa newme.toLsa])

/-- What `cce_new_conn` and `cle_new_conn` do to `me` and `direct_peers` with a connection that
they take (`dvpn.c:376-416`, `dvpn.c:542-582`). -/
def joinPeer (sign : Bytes → Option Bytes) (crash : Crash) (d : Daemon) (c : NewConn)
    (peerType : ConfPeerType) (cost : Int) : Except Crash (Daemon × List DaemonEvent) := do
  let (me, es) ← joinMe sign d.me c peerType cost
  if c.maxseg < 0 then throw crash
  match Avl.insert compareDirectPeers (v6GlobalAddrFromKeyId c.id) d.directPeers with
  | none => throw crash
  | some dps => return ({ d with me := me, directPeers := dps }, es)

/-- What `cec_destroy` and `lec_destroy` do to `direct_peers` and `me`
(`dvpn.c:337-342`, `dvpn.c:492-497`). -/
def leavePeer (sign : Bytes → Option Bytes) (time : Nat) (d : Daemon) (id : NodeId)
    (peerType : ConfPeerType) : Except Crash (Daemon × List DaemonEvent) := do
  let dps := Avl.delete compareDirectPeers (v6GlobalAddrFromKeyId id) d.directPeers
  let (me, es) ← leaveMe sign time d.me id peerType
  return ({ d with me := me, directPeers := dps }, es)

/-- `cec_destroy` (`dvpn.c:331-345`) of the connection `i` of the connect entry `e`. -/
def cecDestroy (sign : Bytes → Option Bytes) (time : Nat) (d : Daemon) (e i : Nat) :
    Except Crash (Daemon × List DaemonEvent) :=
  match d.connectEntries[e]? with
  | none => return (d, [])
  | some cce =>
    match cce.connections[i]? with
    | none => return (d, [])
    | some id =>
      let d := { d with
        connectEntries := d.connectEntries.modify e fun cce =>
          { cce with connections := cce.connections.eraseIdx i } }
      leavePeer sign time d id cce.peerType

/-- `lec_destroy` (`dvpn.c:480-500`) of the connection `i` of the listen entry `e`. -/
def lecDestroy (sign : Bytes → Option Bytes) (time : Nat) (d : Daemon) (e i : Nat) :
    Except Crash (Daemon × List DaemonEvent) :=
  match d.listenEntries[e]? with
  | none => return (d, [])
  | some cle =>
    match cle.connections[i]? with
    | none => return (d, [])
    | some id =>
      let d := { d with
        listenEntries := d.listenEntries.modify e fun cle =>
          { cle with
            connections := cle.connections.eraseIdx i, numConnections := cle.numConnections - 1 } }
      leavePeer sign time d id cle.peerType

/-- `cce_new_conn` (`dvpn.c:347-427`) of the connect entry `e`. -/
def cceNewConn (sign : Bytes → Option Bytes) (d : Daemon) (e : Nat) (c : NewConn) :
    Except Crash (Daemon × List DaemonEvent) :=
  match d.connectEntries[e]? with
  | none => return (d, [])
  | some cce => do
    -- the address of the own key, not of the peer's
    if (dpFind d.directPeers (v6GlobalAddrFromKeyId d.keyid)).isSome then
      return (d, [.returned false])
    if !c.tun then return (d, [.returned false])
    let (d, es) ← joinPeer sign .cceNewConn d c cce.peerType cce.cost
    let d := { d with
      connectEntries := d.connectEntries.modify e fun cce =>
        { cce with connections := cce.connections ++ [c.id] } }
    return (d, es ++ [.returned true])

/-- The test of the connection limit in `cle_new_conn` (`dvpn.c:530-540`). -/
def evictConn (sign : Bytes → Option Bytes) (d : Daemon) (e : Nat) (cle : StartedListenEntry)
    (c : NewConn) : Except Crash (Daemon × List DaemonEvent) :=
  if cle.connLimit = cle.numConnections then
    -- `connections.prev` is the newest connection
    lecDestroy sign c.evictTime d e (cle.connections.length - 1)
  else return (d, [])

/-- `cle_new_conn` (`dvpn.c:502-598`) of the listen entry `e`. -/
def cleNewConn (sign : Bytes → Option Bytes) (d : Daemon) (e : Nat) (c : NewConn) :
    Except Crash (Daemon × List DaemonEvent) :=
  match d.listenEntries[e]? with
  | none => return (d, [])
  | some cle => do
    if (dpFind d.directPeers (v6GlobalAddrFromKeyId c.id)).isSome then
      return (d, [.returned false])
    if !c.tun then return (d, [.returned false])
    let (d, es) ← evictConn sign d e cle c
    let (d, es') ← joinPeer sign .cleNewConn d c cle.peerType cle.cost
    let d := { d with
      listenEntries := d.listenEntries.modify e fun cle =>
        { cle with
          numConnections := cle.numConnections + 1, connections := cle.connections ++ [c.id] } }
    return (d, es ++ es' ++ [.returned true])

/-! ## The machine -/

inductive DaemonOp where
  | cceNewConn (e : Nat) (c : NewConn)
  | cleNewConn (e : Nat) (c : NewConn)
  | cecDestroy (e i time : Nat)
  /-- `lec_disconnect` -/
  | lecDestroy (e i time : Nat)

/-- One step of the daemon. -/
def daemonStep (sign : Bytes → Option Bytes) (d : Daemon) :
    DaemonOp → Except Crash (Daemon × List DaemonEvent)
  | .cceNewConn e c => Dvpn.cceNewConn sign d e c
  | .cleNewConn e c => Dvpn.cleNewConn sign d e c
  | .cecDestroy e i time => Dvpn.cecDestroy sign time d e i
  | .lecDestroy e i time => Dvpn.lecDestroy sign time d e i

/-- The peers that connect are among `ids`, and the entries exist. -/
def DaemonContract (ids : Set NodeId) (d : Daemon) : DaemonOp → Prop
  | .cceNewConn e c => e < d.connectEntries.length ∧ c.id ∈ ids
  | .cleNewConn e c => e < d.listenEntries.length ∧ c.id ∈ ids
  | .cecDestroy _ _ _ => True
  | .lecDestroy _ _ _ => True

/-- The type and the peer of every connection. -/
def Daemon.live (d : Daemon) : List (ConfPeerType × NodeId) :=
  (d.connectEntries.flatMap fun cce => cce.connections.map (cce.peerType, ·)) ++
    d.listenEntries.flatMap fun cle => cle.connections.map (cle.peerType, ·)

/-- The daemon after `start_config`, with entries that the configuration parser lets through. -/
structure DaemonStart (sign : Bytes → Option Bytes) (d : Daemon) : Prop where
  me : ∃ time nodeName pubkey, (∀ name ∈ nodeName, name.length ≤ SSIZE_MAX) ∧
    (∀ buf ∈ pubkey, buf.length ≤ 65536) ∧ meInit sign time d.keyid nodeName pubkey = .ok d.me
  directPeers : d.directPeers = []
  connect : ∀ cce ∈ d.connectEntries, cce.connections = [] ∧ cce.peerType ≠ .invalid
  listen : ∀ cle ∈ d.listenEntries, cle.connections = [] ∧ cle.numConnections = 0 ∧
    1 ≤ cle.connLimit ∧ cle.peerType ≠ .invalid

/-! ## The tree of addresses -/

section Addresses

variable {id : NodeId} {dps : List Bytes} {addr : Bytes}

theorem length_v6GlobalAddr (id : NodeId) : (v6GlobalAddrFromKeyId id).length = 16 := by
  have hid : id.1.length = 32 := id.2
  unfold v6GlobalAddrFromKeyId NODE_ID_LEN
  simp only [List.length_append, List.length_cons, List.length_nil, List.length_take,
    List.length_drop, hid]
  decide

theorem take_v6GlobalAddr (id : NodeId) :
    (v6GlobalAddrFromKeyId id).take 16 = v6GlobalAddrFromKeyId id :=
  List.take_of_length_le (le_of_eq (length_v6GlobalAddr id))

/-- `memcmp` over the length of an address orders the addresses. -/
theorem compareDirectPeers_orders : Avl.Orders compareDirectPeers (List.take 16) := by
  constructor <;> intro a b <;> unfold compareDirectPeers memcmp <;> split_ifs with h h'
  · exact ⟨fun _ => h, fun _ => by decide⟩
  · exact ⟨fun hf => absurd hf (by omega), fun hf => absurd hf h⟩
  · exact ⟨fun hf => absurd hf (by omega), fun hf => absurd hf h⟩
  · exact ⟨fun hf => hf.elim, fun e => absurd (e ▸ h) (lt_irrefl _)⟩
  · exact ⟨fun _ => h', fun _ => rfl⟩
  · exact ⟨fun hf => absurd hf (by omega), fun hf => absurd hf h'⟩

/-- The addresses of a tree are addresses that were derived from key ids. -/
def Derived (dps : List Bytes) : Prop := ∀ a ∈ dps, a.take 16 = a

variable (id) in
theorem dpFind_isSome (hs : Avl.Sorted (List.take 16) dps) (hd : Derived dps) :
    (dpFind dps (v6GlobalAddrFromKeyId id)).isSome = true ↔ v6GlobalAddrFromKeyId id ∈ dps := by
  have hl := compareDirectPeers_orders.locates (v6GlobalAddrFromKeyId id)
  rw [take_v6GlobalAddr] at hl
  rw [Option.isSome_iff_exists]
  constructor
  · rintro ⟨a, ha⟩
    obtain ⟨hm, e⟩ := (Avl.find_eq_some hs hl).mp ha
    rwa [← e, hd a hm]
  · intro hm
    exact ⟨_, (Avl.find_eq_some hs hl).mpr ⟨hm, take_v6GlobalAddr id⟩⟩

variable (id) in
theorem insert_addr_eq_none (hs : Avl.Sorted (List.take 16) dps) (hd : Derived dps) :
    Avl.insert compareDirectPeers (v6GlobalAddrFromKeyId id) dps = none ↔
      v6GlobalAddrFromKeyId id ∈ dps := by
  rw [Avl.insert_eq_none compareDirectPeers_orders hs, take_v6GlobalAddr]
  constructor
  · rintro ⟨a, ha, e⟩
    rwa [← e, hd a ha]
  · intro hm
    exact ⟨_, hm, take_v6GlobalAddr id⟩

end Addresses

/-! ## The tree and the LSA agree with the connections -/

/-- The peers of the connections that are not `DBONLY`. -/
def routedPeers (conns : List (ConfPeerType × NodeId)) : List NodeId :=
  (conns.filter fun c => c.1 ≠ .dbonly).map Prod.snd

/-- The tree `dps` has one address for each of the connections `conns`, and `me` has the peers that
are not `DBONLY`. -/
structure Enrolled (keyid : NodeId) (fixed : List Attr) (me : LsaObj) (dps : List Bytes)
    (conns : List (ConfPeerType × NodeId)) : Prop where
  sorted : Avl.Sorted (List.take 16) dps
  peers : dps.Perm (conns.map fun c => v6GlobalAddrFromKeyId c.2)
  me : ∃ P, MeInv keyid fixed me P ∧ (P.map PeerEntry.id).Perm (routedPeers conns)

section Enrolled

variable {fixed : List Attr} {d d' : Daemon} {conns conns' : List (ConfPeerType × NodeId)}
  {sign : Bytes → Option Bytes} {c : NewConn} {type : ConfPeerType} {cost : Int} {crash : Crash}
  {es : List DaemonEvent} {keyid id : NodeId} {me : LsaObj} {dps : List Bytes}
  {P : List PeerEntry}

theorem Enrolled.of_perm (h : Enrolled keyid fixed me dps conns) (hp : conns.Perm conns') :
    Enrolled keyid fixed me dps conns' := by
  obtain ⟨P, hP, hids⟩ := h.me
  exact ⟨h.sorted, h.peers.trans (hp.map _), P, hP, hids.trans ((hp.filter _).map _)⟩

theorem Enrolled.derived (h : Enrolled keyid fixed me dps conns) : Derived dps := by
  intro a ha
  obtain ⟨c, _, rfl⟩ := List.mem_map.mp (h.peers.mem_iff.mp ha)
  exact take_v6GlobalAddr c.2

theorem Enrolled.mem_of_live (h : Enrolled keyid fixed me dps conns)
    (hid : id ∈ conns.map Prod.snd) :
    v6GlobalAddrFromKeyId id ∈ dps := by
  obtain ⟨c, hc, rfl⟩ := List.mem_map.mp hid
  exact h.peers.mem_iff.mpr (List.mem_map_of_mem hc)

theorem mem_of_routed (hid : id ∈ routedPeers conns) : id ∈ conns.map Prod.snd := by
  obtain ⟨c, hc, rfl⟩ := List.mem_map.mp hid
  exact List.mem_map_of_mem (List.mem_of_mem_filter hc)

theorem flags_of_type (h : type ≠ .invalid) (hd : type ≠ .dbonly) :
    ∃ flags, confPeerTypeToLsaPeerFlags type = .ok flags := by
  cases type with
  | invalid => exact absurd rfl h
  | dbonly => exact absurd rfl hd
  | epeer => exact ⟨_, rfl⟩
  | customer => exact ⟨_, rfl⟩
  | transit => exact ⟨_, rfl⟩
  | ipeer => exact ⟨_, rfl⟩

variable (cost) in
/-- **A new peer of `me`.** -/
theorem joinMe_eq (hsign : ∀ data, ∃ sig, sign data = some sig ∧ sig.length ≤ SSIZE_MAX)
    (h : MeInv keyid fixed me P) (hid : c.id ∉ P.map PeerEntry.id) (htype : type ≠ .invalid) :
    (¬ (type = .dbonly ∨ signedLength me.root + 45 ≤ MAX_SIGNED) →
      ∃ e, joinMe sign me c type cost = .error e) ∧
    (type = .dbonly ∨ signedLength me.root + 45 ≤ MAX_SIGNED →
      ∃ newme es P', joinMe sign me c type cost = .ok (newme, es) ∧ MeInv keyid fixed newme P' ∧
        P'.map PeerEntry.id = routedPeers [(type, c.id)] ++ P.map PeerEntry.id) := by
  by_cases hd : type = .dbonly
  · subst hd
    exact ⟨fun hn => absurd (Or.inl rfl) hn, fun _ => ⟨me, [], P, rfl, h, rfl⟩⟩
  · obtain ⟨flags, hflags⟩ := flags_of_type htype hd
    have hnew := fun cost => mylsaAddPeer_new c.time cost hsign h hid hflags
    have hone : routedPeers [(type, c.id)] = [c.id] := by simp [routedPeers, hd]
    unfold joinMe
    simp only [hd, if_false, false_or, pure_eq_ok]
    constructor
    · intro hbig
      exact ⟨.lsaSign, by rw [(hnew _).1 (by omega)]; rfl⟩
    · intro hle
      obtain ⟨newme, hok, h'⟩ := (hnew (if cost = 0 then (if c.rtt < 1 then 1 else c.rtt)
        else cost)).2 hle
      exact ⟨newme, _, _, by rw [hok]; rfl, h', by rw [hone]; rfl⟩

variable (c cost crash) in
/-- **A new connection is taken iff** its address is new, the LSA has room for the peer and the
segment size is known. -/
theorem Enrolled.join_isOk (hsign : ∀ data, ∃ sig, sign data = some sig ∧ sig.length ≤ SSIZE_MAX)
    (h : Enrolled d.keyid fixed d.me d.directPeers conns) (htype : type ≠ .invalid) :
    (∃ r, joinPeer sign crash d c type cost = .ok r) ↔
      v6GlobalAddrFromKeyId c.id ∉ d.directPeers ∧
        (type = .dbonly ∨ signedLength d.me.root + 45 ≤ MAX_SIGNED) ∧ 0 ≤ c.maxseg := by
  obtain ⟨P, hP, hids⟩ := h.me
  have hins := insert_addr_eq_none c.id h.sorted h.derived
  unfold joinPeer
  by_cases hdup : v6GlobalAddrFromKeyId c.id ∈ d.directPeers
  · rw [hins.mpr hdup]
    simp only [hdup, not_true_eq_false, false_and, iff_false]
    rintro ⟨r, hr⟩
    obtain ⟨⟨me, es⟩, _, hr⟩ := bind_eq_ok.mp hr
    by_cases hm : c.maxseg < 0 <;> simp [hm] at hr
  · have hnew : c.id ∉ P.map PeerEntry.id := fun hm =>
      hdup (h.mem_of_live (mem_of_routed (hids.mem_iff.mp hm)))
    obtain ⟨dps, hdps⟩ := Option.ne_none_iff_exists'.mp fun e => hdup (hins.mp e)
    obtain ⟨hbad, hgood⟩ := joinMe_eq cost hsign hP hnew htype
    rw [hdps]
    by_cases hroom : type = .dbonly ∨ signedLength d.me.root + 45 ≤ MAX_SIGNED
    · obtain ⟨newme, es, P', hok, _⟩ := hgood hroom
      by_cases hm : c.maxseg < 0
      · simp [hok, hm]
      · simp [hok, hm, hdup, hroom, not_lt.mp hm]
    · obtain ⟨e, he⟩ := hbad hroom
      simp [he, hroom]

/-- **A connection that is taken joins the others.** -/
theorem Enrolled.join (hsign : ∀ data, ∃ sig, sign data = some sig ∧ sig.length ≤ SSIZE_MAX)
    (h : Enrolled d.keyid fixed d.me d.directPeers conns) (htype : type ≠ .invalid)
    (hok : joinPeer sign crash d c type cost = .ok (d', es)) :
    Enrolled d.keyid fixed d'.me d'.directPeers ((type, c.id) :: conns) ∧
      d' = { d with me := d'.me, directPeers := d'.directPeers } := by
  obtain ⟨hdup, hroom, hm⟩ := (h.join_isOk _ _ _ hsign htype).mp ⟨_, hok⟩
  obtain ⟨P, hP, hids⟩ := h.me
  have hnew : c.id ∉ P.map PeerEntry.id := fun hm =>
    hdup (h.mem_of_live (mem_of_routed (hids.mem_iff.mp hm)))
  obtain ⟨newme, es', P', hme, hP', hids'⟩ := (joinMe_eq cost hsign hP hnew htype).2 hroom
  obtain ⟨dps, hdps⟩ := Option.ne_none_iff_exists'.mp fun e =>
    hdup ((insert_addr_eq_none _ h.sorted h.derived).mp e)
  unfold joinPeer at hok
  rw [hdps, hme] at hok
  simp only [ok_bind, not_lt.mpr hm, if_false, pure_eq_ok, Except.ok.injEq, Prod.mk.injEq] at hok
  obtain ⟨rfl, rfl⟩ := hok
  refine ⟨⟨Avl.sorted_insert compareDirectPeers_orders h.sorted hdps,
    (Avl.insert_perm hdps).trans (h.peers.cons _), P', hP', ?_⟩, rfl⟩
  have hcons : routedPeers ((type, c.id) :: conns) =
      routedPeers [(type, c.id)] ++ routedPeers conns := by
    rw [routedPeers, ← List.singleton_append, List.filter_append, List.map_append]
    rfl
  rw [hids', hcons]
  exact hids.append_left _

/-- **A connection that is there leaves the others.** -/
theorem Enrolled.leave (hsign : ∀ data, ∃ sig, sign data = some sig ∧ sig.length ≤ SSIZE_MAX)
    (time : Nat) (h : Enrolled d.keyid fixed d.me d.directPeers ((type, id) :: conns)) :
    ∃ d' es, leavePeer sign time d id type = .ok (d', es) ∧
      Enrolled d.keyid fixed d'.me d'.directPeers conns ∧
      d' = { d with me := d'.me, directPeers := d'.directPeers } ∧
      (type ≠ .dbonly → signedLength d'.me.root + 45 ≤ MAX_SIGNED) := by
  obtain ⟨P, hP, hids⟩ := h.me
  have hmem : v6GlobalAddrFromKeyId id ∈ d.directPeers := h.mem_of_live List.mem_cons_self
  have hdel := Avl.delete_perm compareDirectPeers_orders h.sorted hmem
  have hpeers := (hdel.symm.trans h.peers).cons_inv
  unfold leavePeer leaveMe
  by_cases hd : type = .dbonly
  · have hrouted : routedPeers ((type, id) :: conns) = routedPeers conns := by
      simp [routedPeers, hd]
    refine ⟨{ d with
      directPeers := Avl.delete compareDirectPeers (v6GlobalAddrFromKeyId id) d.directPeers }, [],
      by simp [hd], ⟨Avl.sorted_delete h.sorted, hpeers, P, hP, ?_⟩, rfl, fun hn => absurd hd hn⟩
    exact hrouted ▸ hids
  · have hrouted : routedPeers ((type, id) :: conns) = id :: routedPeers conns := by
      simp [routedPeers, hd]
    rw [hrouted] at hids
    obtain ⟨p, hp, rfl⟩ := List.mem_map.mp (hids.mem_iff.mpr List.mem_cons_self)
    obtain ⟨s, t, hst⟩ := List.append_of_mem hp
    have hperm : P.Perm (p :: (s ++ t)) := hst ▸ List.perm_middle
    obtain ⟨newme, hok, h'⟩ := mylsaDelPeer_ok time hsign (hP.of_perm hperm)
    have hids' : ((s ++ t).map PeerEntry.id).Perm (routedPeers conns) :=
      ((hperm.map PeerEntry.id).symm.trans hids).cons_inv
    refine ⟨{ d with
      me := newme
      directPeers := Avl.delete compareDirectPeers (v6GlobalAddrFromKeyId p.id) d.directPeers },
      [.modLsa d.me.toLsa newme.toLsa], by simp [hd, hok],
      ⟨Avl.sorted_delete h.sorted, hpeers, s ++ t, h', hids'⟩, rfl, fun _ => ?_⟩
    have hlen := hperm.length_eq
    have hsize := hP.size
    rw [hP.signedLength_eq, hlen, List.length_cons] at hsize
    rw [h'.signedLength_eq]
    omega

end Enrolled

/-! ## The lists of the entries -/

section Entries

variable {α β : Type} {l : List α} {e i : Nat} {x : α} {p : α → Prop} {f : α → α}

theorem modify_perm (h : l[e]? = some x) (f : α → α) :
    ∃ rest, l.Perm (x :: rest) ∧ (l.modify e f).Perm (f x :: rest) := by
  obtain ⟨hlt, rfl⟩ := List.getElem?_eq_some_iff.mp h
  refine ⟨l.take e ++ l.drop (e + 1), ?_, ?_⟩
  · conv_lhs => rw [← List.take_append_drop e l, List.drop_eq_getElem_cons hlt]
    exact List.perm_middle
  · rw [List.modify_eq_take_cons_drop hlt]
    exact List.perm_middle

theorem forall_modify (h : ∀ y ∈ l, p y) (hx : l[e]? = some x) (hf : p x → p (f x)) :
    ∀ y ∈ l.modify e f, p y := by
  obtain ⟨rest, hl, hm⟩ := modify_perm hx f
  intro y hy
  rcases List.mem_cons.mp (hm.mem_iff.mp hy) with rfl | hy
  · exact hf (h x (List.mem_of_getElem? hx))
  · exact h y (hl.mem_iff.mpr (List.mem_cons_of_mem x hy))

theorem eraseIdx_perm {γ : Type} {cs : List γ} {c : γ} (h : cs[i]? = some c) :
    cs.Perm (c :: cs.eraseIdx i) := by
  obtain ⟨hlt, rfl⟩ := List.getElem?_eq_some_iff.mp h
  exact (List.getElem_cons_eraseIdx_perm hlt).symm

/-- One entry of a list gets a connection more, or has one less. -/
theorem flatMap_modify_perm {g : α → List β} {b : β} (h : l[e]? = some x)
    (hf : (g (f x)).Perm (b :: g x)) :
    ((l.modify e f).flatMap g).Perm (b :: l.flatMap g) := by
  obtain ⟨rest, hl, hm⟩ := modify_perm h f
  have hmod : ((l.modify e f).flatMap g).Perm (g (f x) ++ rest.flatMap g) := hm.flatMap_right g
  have hold : (l.flatMap g).Perm (g x ++ rest.flatMap g) := hl.flatMap_right g
  exact hmod.trans ((hf.append_right _).trans ((hold.cons b).symm))

theorem flatMap_modify_perm' {g : α → List β} {b : β} (h : l[e]? = some x)
    (hf : (g x).Perm (b :: g (f x))) :
    (l.flatMap g).Perm (b :: (l.modify e f).flatMap g) := by
  obtain ⟨rest, hl, hm⟩ := modify_perm h f
  have hmod : ((l.modify e f).flatMap g).Perm (g (f x) ++ rest.flatMap g) := hm.flatMap_right g
  have hold : (l.flatMap g).Perm (g x ++ rest.flatMap g) := hl.flatMap_right g
  exact hold.trans ((hf.append_right _).trans ((hmod.cons b).symm))

end Entries

/-! ## The invariant -/

/-- The tree, the LSA and the lists of the entries agree; the peers are among `ids`. -/
structure Daemon.Inv (ids : Set NodeId) (fixed : List Attr) (d : Daemon) : Prop where
  enrolled : Enrolled d.keyid fixed d.me d.directPeers d.live
  ids : ∀ c ∈ d.live, c.2 ∈ ids
  connect : ∀ cce ∈ d.connectEntries, cce.peerType ≠ .invalid
  listen : ∀ cle ∈ d.listenEntries, cle.peerType ≠ .invalid ∧ 1 ≤ cle.connLimit ∧
    cle.numConnections = cle.connections.length ∧ cle.numConnections ≤ cle.connLimit

section Steps

variable {ids : Set NodeId} {fixed : List Attr} {d d' : Daemon} {sign : Bytes → Option Bytes}
  {c : NewConn} {e i : Nat} {cce : StartedConnectEntry} {cle : StartedListenEntry} {id : NodeId}
  {es : List DaemonEvent} {op : DaemonOp} {time : Nat}

theorem Daemon.Inv.mem_addr_iff (hinj : Set.InjOn v6GlobalAddrFromKeyId ids) (hi : d.Inv ids fixed)
    (hid : id ∈ ids) :
    v6GlobalAddrFromKeyId id ∈ d.directPeers ↔ id ∈ d.live.map Prod.snd := by
  refine ⟨fun hm => ?_, hi.enrolled.mem_of_live⟩
  obtain ⟨c, hc, e⟩ := List.mem_map.mp (hi.enrolled.peers.mem_iff.mp hm)
  exact hinj (hi.ids c hc) hid e ▸ List.mem_map_of_mem hc

variable (e i time) in
/-- A connection of a connect entry that is destroyed. -/
theorem cecDestroy_inv (hsign : ∀ data, ∃ sig, sign data = some sig ∧ sig.length ≤ SSIZE_MAX)
    (hi : d.Inv ids fixed) :
    ∃ d' es, cecDestroy sign time d e i = .ok (d', es) ∧ d'.Inv ids fixed := by
  unfold cecDestroy
  cases hcce : d.connectEntries[e]? with
  | none => exact ⟨d, [], rfl, hi⟩
  | some cce =>
    cases hid : cce.connections[i]? with
    | none => exact ⟨d, [], by simp [hid], hi⟩
    | some id =>
      simp only [hid]
      let d₁ := { d with
        connectEntries := d.connectEntries.modify e fun cce =>
          { cce with connections := cce.connections.eraseIdx i } }
      have hlive : d.live.Perm ((cce.peerType, id) :: d₁.live) :=
        (flatMap_modify_perm' hcce ((eraseIdx_perm hid).map _)).append_right _
      obtain ⟨d', es, hok, hl, he, _⟩ :=
        Enrolled.leave (d := d₁) hsign time (hi.enrolled.of_perm hlive)
      refine ⟨d', es, hok, ?_⟩
      rw [he]
      exact ⟨hl, fun c hc => hi.ids c (hlive.mem_iff.mpr (List.mem_cons_of_mem _ hc)),
        forall_modify hi.connect hcce fun h => h, hi.listen⟩

variable (time) in
/-- A connection of a listen entry that is destroyed. -/
theorem lecDestroy_conn (hsign : ∀ data, ∃ sig, sign data = some sig ∧ sig.length ≤ SSIZE_MAX)
    (hi : d.Inv ids fixed) (hcle : d.listenEntries[e]? = some cle)
    (hid : cle.connections[i]? = some id) :
    ∃ d' es, lecDestroy sign time d e i = .ok (d', es) ∧ d'.Inv ids fixed ∧
      d'.listenEntries[e]? = some { cle with
        connections := cle.connections.eraseIdx i, numConnections := cle.numConnections - 1 } ∧
      d.live.Perm ((cle.peerType, id) :: d'.live) ∧
      (cle.peerType ≠ .dbonly → signedLength d'.me.root + 45 ≤ MAX_SIGNED) := by
  let d₁ := { d with
    listenEntries := d.listenEntries.modify e fun cle =>
      { cle with
        connections := cle.connections.eraseIdx i, numConnections := cle.numConnections - 1 } }
  have hlive : d.live.Perm ((cle.peerType, id) :: d₁.live) :=
    ((flatMap_modify_perm' hcle ((eraseIdx_perm hid).map _)).append_left _).trans List.perm_middle
  obtain ⟨d', es, hok, hl, he, hroom⟩ :=
    Enrolled.leave (d := d₁) hsign time (hi.enrolled.of_perm hlive)
  refine ⟨d', es, by simp only [lecDestroy, hcle, hid]; exact hok, ?_, ?_, ?_, hroom⟩
  · rw [he]
    refine ⟨hl, fun c hc => hi.ids c (hlive.mem_iff.mpr (List.mem_cons_of_mem _ hc)),
      hi.connect, forall_modify hi.listen hcle fun ⟨ht, h1, hn, hle⟩ => ⟨ht, h1, ?_, ?_⟩⟩
    · have hlen := (eraseIdx_perm hid).length_eq
      simp only [hn, hlen, List.length_cons]
      omega
    · simp only
      omega
  · rw [he]
    simp only [d₁, List.getElem?_modify_eq, hcle]
    rfl
  · rw [he]
    exact hlive

variable (e i time) in
theorem lecDestroy_inv (hsign : ∀ data, ∃ sig, sign data = some sig ∧ sig.length ≤ SSIZE_MAX)
    (hi : d.Inv ids fixed) :
    ∃ d' es, lecDestroy sign time d e i = .ok (d', es) ∧ d'.Inv ids fixed := by
  cases hcle : d.listenEntries[e]? with
  | none => exact ⟨d, [], by simp [lecDestroy, hcle], hi⟩
  | some cle =>
    cases hid : cle.connections[i]? with
    | none => exact ⟨d, [], by simp [lecDestroy, hcle, hid], hi⟩
    | some id =>
      obtain ⟨d', es, hok, hi', _⟩ := lecDestroy_conn time hsign hi hcle hid
      exact ⟨d', es, hok, hi'⟩

/-- The connection limit leaves room in the entry, and in the LSA when it takes a peer away. -/
theorem evictConn_inv (hsign : ∀ data, ∃ sig, sign data = some sig ∧ sig.length ≤ SSIZE_MAX)
    (hi : d.Inv ids fixed) (hcle : d.listenEntries[e]? = some cle) :
    ∃ d' es cle', evictConn sign d e cle c = .ok (d', es) ∧ d'.Inv ids fixed ∧
      d'.listenEntries[e]? = some cle' ∧ cle'.peerType = cle.peerType ∧
      cle'.numConnections < cle'.connLimit ∧ (∀ a ∈ d'.live, a ∈ d.live) ∧
      ((cle.peerType = .dbonly ∨ signedLength d'.me.root + 45 ≤ MAX_SIGNED) ↔
        (cle.peerType = .dbonly ∨ cle.connLimit = cle.numConnections ∨
          signedLength d.me.root + 45 ≤ MAX_SIGNED)) := by
  obtain ⟨_, h1, hn, hle⟩ := hi.listen cle (List.mem_of_getElem? hcle)
  unfold evictConn
  by_cases hlim : cle.connLimit = cle.numConnections
  · have hlen : cle.connections.length - 1 < cle.connections.length := by omega
    obtain ⟨d', es, hok, hi', hget, hlive, hroom⟩ := lecDestroy_conn c.evictTime hsign hi
      hcle (List.getElem?_eq_getElem hlen)
    rw [if_pos hlim]
    refine ⟨d', es, _, hok, hi', hget, rfl, ?_, fun a ha => hlive.mem_iff.mpr
      (List.mem_cons_of_mem _ ha), ?_⟩
    · simp only
      omega
    · by_cases hd : cle.peerType = .dbonly
      · simp [hd]
      · simp [hlim, hroom hd]
  · rw [if_neg hlim]
    refine ⟨d, [], cle, rfl, hi, hcle, rfl, ?_, fun a ha => ha, by simp [hlim]⟩
    omega

/-! ## One step -/

/-- The peer of a new connection. -/
def DaemonOp.newPeer : DaemonOp → Option NodeId
  | .cceNewConn _ c => some c.id
  | .cleNewConn _ c => some c.id
  | .cecDestroy _ _ _ => none
  | .lecDestroy _ _ _ => none

/-- The condition under which a step returns. An outgoing connection is refused when the own
address is in the tree or the interface does not register. Otherwise its peer must not be connected
yet, the LSA must have room for it, and the segment size must be known. An incoming connection of a
peer that is connected is refused. -/
def Within (d : Daemon) : DaemonOp → Prop
  | .cceNewConn e c => ∀ cce, d.connectEntries[e]? = some cce →
      v6GlobalAddrFromKeyId d.keyid ∈ d.directPeers ∨ c.tun = false ∨
        (c.id ∉ d.live.map Prod.snd ∧
          (cce.peerType = .dbonly ∨ signedLength d.me.root + 45 ≤ MAX_SIGNED) ∧ 0 ≤ c.maxseg)
  | .cleNewConn e c => ∀ cle, d.listenEntries[e]? = some cle →
      c.id ∈ d.live.map Prod.snd ∨ c.tun = false ∨
        ((cle.peerType = .dbonly ∨ cle.connLimit = cle.numConnections ∨
          signedLength d.me.root + 45 ≤ MAX_SIGNED) ∧ 0 ≤ c.maxseg)
  | .cecDestroy _ _ _ => True
  | .lecDestroy _ _ _ => True

theorem cceNewConn_refused (hi : d.Inv ids fixed) (hcce : d.connectEntries[e]? = some cce)
    (h : v6GlobalAddrFromKeyId d.keyid ∈ d.directPeers ∨ c.tun = false) :
    cceNewConn sign d e c = .ok (d, [.returned false]) := by
  have hown := dpFind_isSome d.keyid hi.enrolled.sorted hi.enrolled.derived
  unfold cceNewConn
  by_cases hself : v6GlobalAddrFromKeyId d.keyid ∈ d.directPeers
  · simp [hcce, hown.mpr hself]
  · have htun : c.tun = false := h.resolve_left hself
    have hfind : ¬ (dpFind d.directPeers (v6GlobalAddrFromKeyId d.keyid)).isSome = true :=
      fun h => hself (hown.mp h)
    simp [hcce, hfind, htun]

theorem cceNewConn_taken (hi : d.Inv ids fixed) (hcce : d.connectEntries[e]? = some cce)
    (hself : v6GlobalAddrFromKeyId d.keyid ∉ d.directPeers) (htun : c.tun ≠ false) :
    cceNewConn sign d e c = joinPeer sign .cceNewConn d c cce.peerType cce.cost >>= fun r =>
      .ok ({ r.1 with connectEntries := r.1.connectEntries.modify e fun cce =>
        { cce with connections := cce.connections ++ [c.id] } }, r.2 ++ [.returned true]) := by
  have hown := dpFind_isSome d.keyid hi.enrolled.sorted hi.enrolled.derived
  have hfind : ¬ (dpFind d.directPeers (v6GlobalAddrFromKeyId d.keyid)).isSome = true :=
    fun h => hself (hown.mp h)
  unfold cceNewConn
  simp [hcce, hfind, htun]

/-- **An outgoing connection** returns iff it is within its condition. -/
theorem cceNewConn_isOk (hsign : ∀ data, ∃ sig, sign data = some sig ∧ sig.length ≤ SSIZE_MAX)
    (hinj : Set.InjOn v6GlobalAddrFromKeyId ids) (hi : d.Inv ids fixed) (hid : c.id ∈ ids)
    (hcce : d.connectEntries[e]? = some cce) :
    (∃ r, cceNewConn sign d e c = .ok r) ↔ Within d (.cceNewConn e c) := by
  have htype := hi.connect cce (List.mem_of_getElem? hcce)
  have hwithin : Within d (.cceNewConn e c) ↔
      v6GlobalAddrFromKeyId d.keyid ∈ d.directPeers ∨ c.tun = false ∨
        (c.id ∉ d.live.map Prod.snd ∧
          (cce.peerType = .dbonly ∨ signedLength d.me.root + 45 ≤ MAX_SIGNED) ∧ 0 ≤ c.maxseg) := by
    simp [Within, hcce]
  rw [hwithin, ← or_assoc]
  by_cases href : v6GlobalAddrFromKeyId d.keyid ∈ d.directPeers ∨ c.tun = false
  · exact ⟨fun _ => Or.inl href, fun _ => ⟨_, cceNewConn_refused hi hcce href⟩⟩
  · obtain ⟨hself, htun⟩ := not_or.mp href
    rw [cceNewConn_taken hi hcce hself htun, or_iff_right href, ← hi.mem_addr_iff hinj hid,
      ← hi.enrolled.join_isOk c cce.cost .cceNewConn hsign htype]
    constructor
    · rintro ⟨r, hr⟩
      obtain ⟨r', hok, _⟩ := bind_eq_ok.mp hr
      exact ⟨r', hok⟩
    · rintro ⟨r', hok⟩
      exact ⟨_, bind_eq_ok.mpr ⟨r', hok, rfl⟩⟩

/-- **An outgoing connection keeps the invariant**, and is refused when it is a second one. -/
theorem cceNewConn_inv (hsign : ∀ data, ∃ sig, sign data = some sig ∧ sig.length ≤ SSIZE_MAX)
    (hi : d.Inv ids fixed) (hid : c.id ∈ ids)
    (hcce : d.connectEntries[e]? = some cce) (hok : cceNewConn sign d e c = .ok (d', es)) :
    d'.Inv ids fixed ∧ (c.id ∈ d.live.map Prod.snd → (d', es) = (d, [.returned false])) := by
  have htype := hi.connect cce (List.mem_of_getElem? hcce)
  by_cases href : v6GlobalAddrFromKeyId d.keyid ∈ d.directPeers ∨ c.tun = false
  · rw [cceNewConn_refused hi hcce href] at hok
    obtain ⟨rfl, rfl⟩ := Prod.mk.inj (Except.ok.inj hok)
    exact ⟨hi, fun _ => rfl⟩
  · obtain ⟨hself, htun⟩ := not_or.mp href
    rw [cceNewConn_taken hi hcce hself htun] at hok
    obtain ⟨⟨d₁, es₁⟩, hjoin, hok⟩ := bind_eq_ok.mp hok
    obtain ⟨rfl, rfl⟩ := Prod.mk.inj (Except.ok.inj hok)
    have hnew := ((hi.enrolled.join_isOk _ _ _ hsign htype).mp ⟨_, hjoin⟩).1
    obtain ⟨hl, he⟩ := hi.enrolled.join hsign htype hjoin
    refine ⟨?_, fun hlive => absurd (hi.enrolled.mem_of_live hlive) hnew⟩
    rw [he]
    have hlive := (flatMap_modify_perm (g := fun cce => cce.connections.map (cce.peerType, ·))
      (f := fun cce => { cce with connections := cce.connections ++ [c.id] })
      (b := (cce.peerType, c.id)) hcce (by
        simp only [List.map_append, List.map_cons, List.map_nil]
        exact List.perm_append_singleton _ _)).append_right
      (d.listenEntries.flatMap fun cle => cle.connections.map (cle.peerType, ·))
    refine ⟨hl.of_perm hlive.symm, fun q hq => ?_, forall_modify hi.connect hcce fun h => h,
      hi.listen⟩
    rcases List.mem_cons.mp (hlive.mem_iff.mp hq) with rfl | hq
    · exact hid
    · exact hi.ids q hq

theorem cleNewConn_refused (hinj : Set.InjOn v6GlobalAddrFromKeyId ids) (hi : d.Inv ids fixed)
    (hid : c.id ∈ ids) (hcle : d.listenEntries[e]? = some cle)
    (h : c.id ∈ d.live.map Prod.snd ∨ c.tun = false) :
    cleNewConn sign d e c = .ok (d, [.returned false]) := by
  have hfind := (dpFind_isSome c.id hi.enrolled.sorted hi.enrolled.derived).trans
    (hi.mem_addr_iff hinj hid)
  unfold cleNewConn
  by_cases hlive : c.id ∈ d.live.map Prod.snd
  · simp only [hcle, hfind.mpr hlive, if_true, pure_eq_ok]
  · have htun : c.tun = false := h.resolve_left hlive
    have hnone : ¬ (dpFind d.directPeers (v6GlobalAddrFromKeyId c.id)).isSome = true :=
      fun h => hlive (hfind.mp h)
    simp [hcle, hnone, htun]

theorem cleNewConn_taken (hinj : Set.InjOn v6GlobalAddrFromKeyId ids) (hi : d.Inv ids fixed)
    (hid : c.id ∈ ids) (hcle : d.listenEntries[e]? = some cle)
    (hlive : c.id ∉ d.live.map Prod.snd) (htun : c.tun ≠ false) :
    cleNewConn sign d e c = evictConn sign d e cle c >>= fun q =>
      joinPeer sign .cleNewConn q.1 c cle.peerType cle.cost >>= fun r =>
        .ok ({ r.1 with listenEntries := r.1.listenEntries.modify e fun cle =>
          { cle with
            numConnections := cle.numConnections + 1, connections := cle.connections ++ [c.id] } },
          q.2 ++ r.2 ++ [.returned true]) := by
  have hfind := (dpFind_isSome c.id hi.enrolled.sorted hi.enrolled.derived).trans
    (hi.mem_addr_iff hinj hid)
  have hnone : ¬ (dpFind d.directPeers (v6GlobalAddrFromKeyId c.id)).isSome = true :=
    fun h => hlive (hfind.mp h)
  unfold cleNewConn
  simp [hcle, hnone, htun]

/-- **An incoming connection** returns iff it is within its condition. -/
theorem cleNewConn_isOk (hsign : ∀ data, ∃ sig, sign data = some sig ∧ sig.length ≤ SSIZE_MAX)
    (hinj : Set.InjOn v6GlobalAddrFromKeyId ids) (hi : d.Inv ids fixed) (hid : c.id ∈ ids)
    (hcle : d.listenEntries[e]? = some cle) :
    (∃ r, cleNewConn sign d e c = .ok r) ↔ Within d (.cleNewConn e c) := by
  have htype := (hi.listen cle (List.mem_of_getElem? hcle)).1
  have hwithin : Within d (.cleNewConn e c) ↔ c.id ∈ d.live.map Prod.snd ∨ c.tun = false ∨
      ((cle.peerType = .dbonly ∨ cle.connLimit = cle.numConnections ∨
        signedLength d.me.root + 45 ≤ MAX_SIGNED) ∧ 0 ≤ c.maxseg) := by
    simp [Within, hcle]
  rw [hwithin, ← or_assoc]
  by_cases href : c.id ∈ d.live.map Prod.snd ∨ c.tun = false
  · exact ⟨fun _ => Or.inl href, fun _ => ⟨_, cleNewConn_refused hinj hi hid hcle href⟩⟩
  · obtain ⟨hlive, htun⟩ := not_or.mp href
    obtain ⟨d₁, es₁, cle₁, hev, hi₁, _, _, _, hsub, hroom⟩ :=
      evictConn_inv (c := c) hsign hi hcle
    have hnew : v6GlobalAddrFromKeyId c.id ∉ d₁.directPeers := by
      rw [hi₁.mem_addr_iff hinj hid]
      intro hm
      obtain ⟨q, hq, e⟩ := List.mem_map.mp hm
      exact hlive (e ▸ List.mem_map_of_mem (hsub q hq))
    have hjoin := hi₁.enrolled.join_isOk c cle.cost .cleNewConn hsign
      htype
    rw [cleNewConn_taken hinj hi hid hcle hlive htun, or_iff_right href, ← hroom, hev, ok_bind]
    have hand : (cle.peerType = .dbonly ∨ signedLength d₁.me.root + 45 ≤ MAX_SIGNED) ∧
        0 ≤ c.maxseg ↔ ∃ r, joinPeer sign .cleNewConn d₁ c cle.peerType cle.cost = .ok r := by
      rw [hjoin]
      exact ⟨fun h => ⟨hnew, h⟩, fun h => h.2⟩
    rw [hand]
    constructor
    · rintro ⟨r, hr⟩
      obtain ⟨r', hok, _⟩ := bind_eq_ok.mp hr
      exact ⟨r', hok⟩
    · rintro ⟨r', hok⟩
      exact ⟨_, bind_eq_ok.mpr ⟨r', hok, rfl⟩⟩

/-- **An incoming connection keeps the invariant**, and is refused when it is a second one. -/
theorem cleNewConn_inv (hsign : ∀ data, ∃ sig, sign data = some sig ∧ sig.length ≤ SSIZE_MAX)
    (hinj : Set.InjOn v6GlobalAddrFromKeyId ids) (hi : d.Inv ids fixed) (hid : c.id ∈ ids)
    (hcle : d.listenEntries[e]? = some cle) (hok : cleNewConn sign d e c = .ok (d', es)) :
    d'.Inv ids fixed ∧ (c.id ∈ d.live.map Prod.snd → (d', es) = (d, [.returned false])) := by
  have htype := (hi.listen cle (List.mem_of_getElem? hcle)).1
  by_cases href : c.id ∈ d.live.map Prod.snd ∨ c.tun = false
  · rw [cleNewConn_refused hinj hi hid hcle href] at hok
    obtain ⟨rfl, rfl⟩ := Prod.mk.inj (Except.ok.inj hok)
    exact ⟨hi, fun _ => rfl⟩
  · obtain ⟨hlive, htun⟩ := not_or.mp href
    obtain ⟨d₁, es₁, cle₁, hev, hi₁, hget, hsame, hroom, _⟩ :=
      evictConn_inv (c := c) hsign hi hcle
    rw [cleNewConn_taken hinj hi hid hcle hlive htun, hev, ok_bind] at hok
    obtain ⟨⟨d₂, es₂⟩, hjoin, hok⟩ := bind_eq_ok.mp hok
    obtain ⟨rfl, rfl⟩ := Prod.mk.inj (Except.ok.inj hok)
    obtain ⟨hl, he⟩ := hi₁.enrolled.join hsign htype hjoin
    refine ⟨?_, fun h => absurd h hlive⟩
    rw [he]
    have hperm := ((flatMap_modify_perm (g := fun cle => cle.connections.map (cle.peerType, ·))
      (f := fun cle => { cle with
        numConnections := cle.numConnections + 1, connections := cle.connections ++ [c.id] })
      (b := (cle₁.peerType, c.id)) hget (by
        simp only [List.map_append, List.map_cons, List.map_nil]
        exact List.perm_append_singleton _ _)).append_left
      (d₁.connectEntries.flatMap fun cce => cce.connections.map (cce.peerType, ·))).trans
        List.perm_middle
    rw [hsame] at hperm
    refine ⟨hl.of_perm hperm.symm, fun q hq => ?_, hi₁.connect, ?_⟩
    · rcases List.mem_cons.mp (hperm.mem_iff.mp hq) with rfl | hq
      · exact hid
      · exact hi₁.ids q hq
    · refine forall_modify hi₁.listen hget fun ⟨ht, h1, hn, _⟩ => ⟨ht, h1, by simp [hn], ?_⟩
      simp only
      omega

/-- **Every step that returns keeps the invariant**, and refuses a second connection. -/
theorem daemonStep_inv (hsign : ∀ data, ∃ sig, sign data = some sig ∧ sig.length ≤ SSIZE_MAX)
    (hinj : Set.InjOn v6GlobalAddrFromKeyId ids) (hi : d.Inv ids fixed)
    (hc : DaemonContract ids d op) (hok : daemonStep sign d op = .ok (d', es)) :
    d'.Inv ids fixed ∧ ∀ id ∈ op.newPeer, id ∈ d.live.map Prod.snd →
      (d', es) = (d, [.returned false]) := by
  cases op with
  | cceNewConn e c =>
    obtain ⟨hi', href⟩ :=
      cceNewConn_inv hsign hi hc.2 (List.getElem?_eq_getElem hc.1) hok
    refine ⟨hi', fun id hid => ?_⟩
    obtain rfl := Option.some.inj hid
    exact href
  | cleNewConn e c =>
    obtain ⟨hi', href⟩ :=
      cleNewConn_inv hsign hinj hi hc.2 (List.getElem?_eq_getElem hc.1) hok
    refine ⟨hi', fun id hid => ?_⟩
    obtain rfl := Option.some.inj hid
    exact href
  | cecDestroy e i time =>
    obtain ⟨d₁, es₁, hok', hi'⟩ := cecDestroy_inv e i time hsign hi
    obtain ⟨rfl, rfl⟩ := Prod.mk.inj (Except.ok.inj (hok'.symm.trans hok))
    exact ⟨hi', fun id hid => absurd hid (by simp [DaemonOp.newPeer])⟩
  | lecDestroy e i time =>
    obtain ⟨d₁, es₁, hok', hi'⟩ := lecDestroy_inv e i time hsign hi
    obtain ⟨rfl, rfl⟩ := Prod.mk.inj (Except.ok.inj (hok'.symm.trans hok))
    exact ⟨hi', fun id hid => absurd hid (by simp [DaemonOp.newPeer])⟩

/-- **A step returns iff it is within its condition.** -/
theorem daemonStep_isOk (hsign : ∀ data, ∃ sig, sign data = some sig ∧ sig.length ≤ SSIZE_MAX)
    (hinj : Set.InjOn v6GlobalAddrFromKeyId ids) (hi : d.Inv ids fixed)
    (hc : DaemonContract ids d op) : (∃ r, daemonStep sign d op = .ok r) ↔ Within d op := by
  cases op with
  | cceNewConn e c => exact cceNewConn_isOk hsign hinj hi hc.2 (List.getElem?_eq_getElem hc.1)
  | cleNewConn e c => exact cleNewConn_isOk hsign hinj hi hc.2 (List.getElem?_eq_getElem hc.1)
  | cecDestroy e i time =>
    obtain ⟨d₁, es₁, hok, _⟩ := cecDestroy_inv e i time hsign hi
    exact ⟨fun _ => trivial, fun _ => ⟨_, hok⟩⟩
  | lecDestroy e i time =>
    obtain ⟨d₁, es₁, hok, _⟩ := lecDestroy_inv e i time hsign hi
    exact ⟨fun _ => trivial, fun _ => ⟨_, hok⟩⟩

/-! ## Runs -/

/-- The peers of the `PEER` attributes of an LSA. -/
def peerIds (lsa : Lsa) : List Bytes :=
  (lsa.root.filter fun a => a.type = LSA_ATTR_TYPE_PEER).map Attr.key

/-- The registry of peers: the tree has one address for each live connection, no peer has two
connections, and the LSA lists the peers that are not `DBONLY`. -/
structure Registered (d : Daemon) : Prop where
  directPeers : d.directPeers.Perm (d.live.map fun c => v6GlobalAddrFromKeyId c.2)
  peers : (d.live.map Prod.snd).Nodup
  me : (peerIds d.me.toLsa).Perm ((routedPeers d.live).map fun id => id.1)

theorem MeInv.peerIds {keyid : NodeId} {me : LsaObj} {P : List PeerEntry}
    (h : MeInv keyid fixed me P) :
    (Dvpn.peerIds me.toLsa).Perm ((P.map PeerEntry.id).map fun id => id.1) := by
  obtain ⟨v, sig, _, ha⟩ := h.attrs
  have hfixed : fixed.filter (fun a => a.type = LSA_ATTR_TYPE_PEER) = [] :=
    List.filter_eq_nil_iff.mpr fun a ha => by simpa using (h.fixed a ha).peer
  have hpeers : (P.map peerAttr).filter (fun a => a.type = LSA_ATTR_TYPE_PEER) = P.map peerAttr :=
    List.filter_eq_self.mpr fun a ha => by
      obtain ⟨p, _, rfl⟩ := List.mem_map.mp ha
      rfl
  have hmeta : (meAttrs fixed v sig P).filter (fun a => a.type = LSA_ATTR_TYPE_PEER) =
      P.map peerAttr := by
    have hv : (versionAttr v).type ≠ LSA_ATTR_TYPE_PEER :=
      (by decide : LSA_ATTR_TYPE_VERSION ≠ LSA_ATTR_TYPE_PEER)
    have hs : (signatureAttr sig).type ≠ LSA_ATTR_TYPE_PEER :=
      (by decide : LSA_ATTR_TYPE_SIGNATURE ≠ LSA_ATTR_TYPE_PEER)
    rw [meAttrs, List.filter_cons_of_neg (by simpa using hv),
      List.filter_cons_of_neg (by simpa using hs), List.filter_append, hfixed, hpeers,
      List.nil_append]
  have hperm := (ha.perm.filter fun a => a.type = LSA_ATTR_TYPE_PEER).map Attr.key
  rw [hmeta, List.map_map] at hperm
  rw [List.map_map]
  exact hperm

theorem Daemon.Inv.registered (hi : d.Inv ids fixed) : Registered d := by
  obtain ⟨P, hP, hids⟩ := hi.enrolled.me
  refine ⟨hi.enrolled.peers, ?_, hP.peerIds.trans (hids.map _)⟩
  have hnodup := hi.enrolled.peers.nodup_iff.mp hi.enrolled.sorted.nodup
  have hmap : d.live.map (fun c => v6GlobalAddrFromKeyId c.2) =
      (d.live.map Prod.snd).map v6GlobalAddrFromKeyId := by
    rw [List.map_map]
    rfl
  rw [hmap] at hnodup
  exact hnodup.of_map _

variable (ids) in
theorem DaemonStart.inv (hsign : ∀ data, ∃ sig, sign data = some sig ∧ sig.length ≤ SSIZE_MAX)
    (h : DaemonStart sign d) : ∃ fixed, d.Inv ids fixed := by
  obtain ⟨time, nodeName, pubkey, hname, hkey, hme⟩ := h.me
  obtain ⟨fixed, hinv⟩ := meInit_inv hsign hname hkey hme
  have hlive : d.live = [] := by
    unfold Daemon.live
    rw [List.append_eq_nil_iff, List.flatMap_eq_nil_iff, List.flatMap_eq_nil_iff]
    exact ⟨fun cce hm => by rw [(h.connect cce hm).1]; rfl,
      fun cle hm => by rw [(h.listen cle hm).1]; rfl⟩
  refine ⟨fixed, ?_, ?_, fun cce hm => (h.connect cce hm).2, fun cle hm => ?_⟩
  · rw [hlive, h.directPeers]
    exact ⟨Avl.sorted_nil, List.Perm.refl _, [], hinv, List.Perm.refl _⟩
  · rw [hlive]
    exact fun c hc => absurd hc List.not_mem_nil
  · obtain ⟨hconns, hnum, hlim, htype⟩ := h.listen cle hm
    exact ⟨htype, hlim, by rw [hnum, hconns]; rfl, by omega⟩

/-- **The registry of peers** is consistent in every run, and the next step does what it should iff
it is within its condition. -/
theorem registry_iff {d₀ : Daemon} {ops : List DaemonOp}
    (hsign : ∀ data, ∃ sig, sign data = some sig ∧ sig.length ≤ SSIZE_MAX)
    (hinj : Set.InjOn v6GlobalAddrFromKeyId ids) (h0 : DaemonStart sign d₀)
    (h : Run (daemonStep sign) (DaemonContract ids) d₀ ops d es) :
    Registered d ∧ ∀ op, DaemonContract ids d op →
      ((∃ r, daemonStep sign d op = .ok r ∧ ∀ id ∈ op.newPeer, id ∈ d.live.map Prod.snd →
        r = (d, [.returned false])) ↔ Within d op) := by
  obtain ⟨fixed, hi₀⟩ := h0.inv ids hsign
  have hi : d.Inv ids fixed :=
    h.invariant (fun _ d _ => d.Inv ids fixed) hi₀ fun hi hc hs =>
      (daemonStep_inv hsign hinj hi hc hs).1
  refine ⟨hi.registered, fun op hc => ?_⟩
  rw [← daemonStep_isOk hsign hinj hi hc]
  exact ⟨fun ⟨r, hok, _⟩ => ⟨r, hok⟩,
    fun ⟨r, hok⟩ => ⟨r, hok, (daemonStep_inv hsign hinj hi hc hok).2⟩⟩

end Steps

/-! ## A small run -/

/-- Signatures of the length of an RSA key of 4096 bits. -/
def sampleSign (_ : Bytes) : Option Bytes := some (List.replicate 512 0)

def sampleKeyid : NodeId := ⟨List.replicate 32 1, rfl⟩

def samplePeer : NodeId := ⟨List.replicate 32 2, rfl⟩

/-- A node without a name, with a short public key. -/
@[irreducible] def sampleMe : LsaObj :=
  (meInit sampleSign 0 sampleKeyid none (some [7])).toOption.getD (lsaAlloc sampleKeyid)

/-- One connect entry and one listen entry, both `EPEER`. -/
def sampleDaemon : Daemon :=
  ⟨sampleKeyid, sampleMe, [],
    [⟨⟨[1], [1], [1], .any, sampleKeyid, .epeer, [1], 0⟩, []⟩],
    [⟨⟨[2], .any, sampleKeyid, .epeer, [1], 0, 1⟩, 0, []⟩]⟩

def sampleConn : NewConn := ⟨samplePeer, true, 1, 1400, 0, 0⟩

theorem eq_ok_getD {χ α : Type} {x : Except χ α} {a : α} (h : x.toOption.isSome = true) :
    x = .ok (x.toOption.getD a) := by
  cases x with
  | ok b => rfl
  | error e => exact absurd h (by simp [Except.toOption])

/-- How a computation ends that does not return. -/
def crashOf {χ α : Type} : Except χ α → Option χ
  | .ok _ => none
  | .error e => some e

theorem crashOf_eq_some {χ α : Type} {x : Except χ α} {e : χ} :
    crashOf x = some e ↔ x = .error e := by
  cases x <;> simp [crashOf]

theorem sampleSign_ok (data : Bytes) :
    ∃ sig, sampleSign data = some sig ∧ sig.length ≤ SSIZE_MAX :=
  ⟨_, rfl, by rw [List.length_replicate]; decide⟩

theorem meInit_sampleMe : meInit sampleSign 0 sampleKeyid none (some [7]) = .ok sampleMe := by
  unfold sampleMe
  exact eq_ok_getD (by decide +kernel)

theorem sampleDaemon_start : DaemonStart sampleSign sampleDaemon := by
  refine ⟨⟨0, none, some [7], ?_, ?_, meInit_sampleMe⟩, rfl, ?_, ?_⟩
  · exact fun _ h => absurd h (by simp)
  · intro buf h
    obtain rfl := Option.some.inj h
    simp
  · intro cce h
    obtain rfl := List.mem_singleton.mp h
    exact ⟨rfl, by decide⟩
  · intro cle h
    obtain rfl := List.mem_singleton.mp h
    exact ⟨rfl, rfl, by decide, by decide⟩

/-- The peer connects through the listen entry. -/
theorem sampleDaemon_run : ∃ d es, Run (daemonStep sampleSign) (DaemonContract {samplePeer})
    sampleDaemon [.cleNewConn 0 sampleConn] d es ∧
    daemonStep sampleSign sampleDaemon (.cleNewConn 0 sampleConn) = .ok (d, es) := by
  have hok : (daemonStep sampleSign sampleDaemon (.cleNewConn 0 sampleConn)).toOption.isSome =
      true := by decide +kernel
  obtain ⟨⟨d, es⟩, h⟩ := Option.isSome_iff_exists.mp hok
  have hstep := eq_ok_getD (a := (d, es)) hok
  rw [h, Option.getD_some] at hstep
  exact ⟨d, es, Run.snoc .nil ⟨by decide, rfl⟩ hstep, hstep⟩

/-- The condition of the registry over the small run. -/
theorem registry_iff_sample : ∃ d es, Run (daemonStep sampleSign) (DaemonContract {samplePeer})
    sampleDaemon [.cleNewConn 0 sampleConn] d es ∧ Registered d ∧
    ∀ op, DaemonContract {samplePeer} d op →
      ((∃ r, daemonStep sampleSign d op = .ok r ∧ ∀ id ∈ op.newPeer, id ∈ d.live.map Prod.snd →
        r = (d, [.returned false])) ↔ Within d op) := by
  obtain ⟨d, es, h, _⟩ := sampleDaemon_run
  exact ⟨d, es, h, registry_iff sampleSign_ok (Set.injOn_singleton _ _) sampleDaemon_start h⟩

/-- A peer that is connected through the listen entry aborts the daemon when the connect entry
reaches it too. -/
theorem second_connection_aborts : DaemonStart sampleSign sampleDaemon ∧
    ∃ d es, Run (daemonStep sampleSign) (DaemonContract {samplePeer})
      sampleDaemon [.cleNewConn 0 sampleConn] d es ∧
      DaemonContract {samplePeer} d (.cceNewConn 0 sampleConn) ∧
      samplePeer ∈ d.live.map Prod.snd ∧
      daemonStep sampleSign d (.cceNewConn 0 sampleConn) = .error .lsaAttrSetAddAttrSet := by
  obtain ⟨d, es, h, hstep⟩ := sampleDaemon_run
  have hcheck : (match daemonStep sampleSign sampleDaemon (.cleNewConn 0 sampleConn) with
      | .ok (d, _) => decide (0 < d.connectEntries.length) &&
          decide (samplePeer ∈ d.live.map Prod.snd) &&
          decide (crashOf (daemonStep sampleSign d (.cceNewConn 0 sampleConn)) =
            some .lsaAttrSetAddAttrSet)
      | .error _ => false) = true := by decide +kernel
  simp only [hstep, Bool.and_eq_true, decide_eq_true_eq] at hcheck
  obtain ⟨⟨hlen, hlive⟩, hcrash⟩ := hcheck
  exact ⟨sampleDaemon_start, d, es, h, ⟨hlen, rfl⟩, hlive, crashOf_eq_some.mp hcrash⟩

end Dvpn
