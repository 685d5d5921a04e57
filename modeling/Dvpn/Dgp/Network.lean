import Dvpn.Dgp.Framing
import Dvpn.Dgp.Writer
import Dvpn.Rib.Held

/-!
# A network of nodes (`dgp_writer.c`, `dgp_reader.c`, `adj_rib_in.c`)

Any number of nodes, each with its local RIB, and sessions between them: on a session one node
writes and another one reads, so that a connection is two sessions. `netStep` interleaves what the
nodes do to their local RIBs, the beginning and the end of either side of a session, keepalives,
and reads of any number of the bytes in flight.

* `alloc i k` is the address of the `k`-th object that is received on the session `i`. Nothing is
  assumed of it, nor of the order in which the local RIB is told of anything.
* When the writer of a session is unregistered, any number of the last bytes may be lost.
* A node that aborts makes no step; `restart` is the node after that.
* What a node does to its local RIB by itself puts its own LSA there (`OwnLsa`), which `dvpn.c`
  makes with an empty `ADV_PATH`.

`Loopless p lsa` is what a neighbour of `p` gets to see: the `ADV_PATH` of the LSA leads from `p` to
the node of the LSA, over different nodes.

* `Relayable`: what a node holds is loopless with the node before its path.
* `writeLsa_ok`, `deliver_taken`: so every message is, and every LSA that a reader accepts can be
  relayed.
* `accepted_loopless`: the paths of accepted LSAs.
-/

namespace Dvpn

/-! ## The machine -/

/-- One side of a session: not registered yet, registered, or unregistered again. -/
inductive Endpoint (α : Type) where
  | idle
  | opened (a : α)
  | closed

/-- A stream from the writer on one node to the reader on another one. -/
structure Session where
  writer : NodeId
  reader : NodeId
  dw : Endpoint DgpWriter
  wire : Bytes
  dr : Endpoint DgpReader

/-- The local RIBs of the nodes, and the sessions. -/
structure Network where
  rib : NodeId → LocRib
  sessions : List Session

/-- The start: empty local RIBs. -/
def netInit : Network where
  rib n := locRibInit (some n)
  sessions := []

/-- A node accepts an LSA of a neighbour. -/
structure Acceptance where
  node : NodeId
  peer : NodeId
  lsa : Lsa

/-- What happens to a session; of the bytes in flight, `kept` outlive the writer. -/
inductive SessionOp where
  | writerRegister (remoteid : Option NodeId)
  | readerRegister
  | keepalive
  | read (len : Nat)
  | writerUnregister (kept : Nat)
  | readerUnregister (roots : List LsaPtr)

inductive NetOp where
  | loc (n : NodeId) (op : LocOp)
  | connect (writer reader : NodeId)
  | session (i : Nat) (op : SessionOp)
  | restart (n : NodeId)

/-- The object at the address that it has on the node. -/
def LsaPtr.readdress (alloc : Nat → Nat) (p : LsaPtr) : LsaPtr := { p with addr := alloc p.addr }

/-- The event with the addresses that the objects have on the node. -/
def RibEvent.readdress (alloc : Nat → Nat) : RibEvent → RibEvent
  | lsaAdd lsa cost => .lsaAdd (lsa.readdress alloc) cost
  | lsaMod old oldcost new newcost =>
    .lsaMod (old.readdress alloc) oldcost (new.readdress alloc) newcost
  | lsaDel lsa cost => .lsaDel (lsa.readdress alloc) cost

/-- The LSAs that the listener of a reader is told of. -/
def Session.acceptances (s : Session) (es : List RibEvent) : List Acceptance :=
  es.filterMap fun e => e.new.map fun p => ⟨s.reader, s.writer, p.lsa⟩

/-- What the session sends when the local RIB of the node `n` tells its listeners. -/
def Session.output (n : NodeId) (es : List RibEvent) (s : Session) : Except Crash Session :=
  match s.dw with
  | .opened dw =>
    if s.writer = n then do
      let bytes ← dgpWriterEvents dw es
      return { s with wire := s.wire ++ bytes }
    else return s
  | .idle | .closed => return s

/-- What the sessions send. -/
def outputAll (n : NodeId) (es : List RibEvent) : List Session → Except Crash (List Session)
  | [] => return []
  | s :: ss => do
    let s ← s.output n es
    let ss ← outputAll n es ss
    return s :: ss

/-- The session `i` becomes `s`, and the listener of its reader puts what it is told into the local
RIB. -/
def Network.receive (net : Network) (alloc : Nat → Nat) (i : Nat) (s : Session)
    (es : List RibEvent) : Except Crash (Network × List Acceptance) := do
  let loc ← forward (net.rib s.reader) (es.map (RibEvent.readdress alloc))
  return ({ rib := Function.update net.rib s.reader loc, sessions := net.sessions.set i s },
    s.acceptances es)

/-- The session without the sides that are on the node `n`. -/
def Session.lose (n : NodeId) (s : Session) : Session :=
  { s with
    dw := if s.writer = n then .closed else s.dw
    dr := if s.reader = n then .closed else s.dr }

/-- An operation on the session `i`; what does not apply to its sides does nothing. -/
def sessionStep (c : Crypto) (alloc : Nat → Nat) (net : Network) (i : Nat) (s : Session) :
    SessionOp → Except Crash (Network × List Acceptance)
  | .writerRegister remoteid =>
    match s.dw with
    | .idle => do
      let dw : DgpWriter := { myid := some s.writer, remoteid := remoteid }
      let bytes ← dgpWriterRibDump dw (net.rib s.writer)
      let s := { s with dw := .opened dw, wire := s.wire ++ bytes }
      return ({ net with sessions := net.sessions.set i s }, [])
    | .opened _ | .closed => return (net, [])
  | .readerRegister =>
    match s.dr with
    | .idle =>
      let s := { s with dr := .opened (dgpReaderRegister (some s.reader) (some s.writer)) }
      return ({ net with sessions := net.sessions.set i s }, [])
    | .opened _ | .closed => return (net, [])
  | .keepalive =>
    match s.dw with
    | .opened _ =>
      let s := { s with wire := s.wire ++ dgpWriterSendKeepalive }
      return ({ net with sessions := net.sessions.set i s }, [])
    | .idle | .closed => return (net, [])
  | .read len =>
    match s.dr with
    | .opened dr => do
      let len := min len (DGP_READER_BUFSIZE - dr.buf.length)
      let (_, dr, es) ← dgpReaderRead c dr (s.wire.take len)
      net.receive alloc i { s with wire := s.wire.drop len, dr := .opened dr } es
    | .idle | .closed => return (net, [])
  | .writerUnregister kept =>
    let s := { s with dw := .closed, wire := s.wire.take kept }
    return ({ net with sessions := net.sessions.set i s }, [])
  | .readerUnregister roots =>
    match s.dr with
    | .opened dr => do
      let (_, es) ← adjRibInTruncate c dr.adjRibIn roots
      net.receive alloc i { s with dr := .closed } es
    | .idle | .closed => return (net, [])

/-- One operation, and what is accepted by it. -/
def netStep (c : Crypto) (alloc : Nat → Nat → Nat) (net : Network) :
    NetOp → Except Crash (Network × List Acceptance)
  | .loc n op => do
    let (rib, es) ← locStep (net.rib n) op
    let sessions ← outputAll n es net.sessions
    return ({ rib := Function.update net.rib n rib, sessions := sessions }, [])
  | .connect writer reader =>
    let s : Session :=
      { writer := writer, reader := reader, dw := .idle, wire := [], dr := .idle }
    return ({ net with sessions := net.sessions ++ [s] }, [])
  | .restart n =>
    return ({ rib := Function.update net.rib n (locRibInit (some n)),
              sessions := net.sessions.map (Session.lose n) }, [])
  | .session i op =>
    match net.sessions[i]? with
    | none => return (net, [])
    | some s => sessionStep c (alloc i) net i s op

/-- The LSA that a node makes of itself: a tree of at most 2^60 bytes, without an empty set, and
with an empty `ADV_PATH`. -/
structure OwnLsa (n : NodeId) (lsa : Lsa) : Prop where
  wf : AttrsWf lsa.root
  types : TypesOk lsa.root
  depth : attrsDepth lsa.root ≤ 8
  nonempty : NoEmptySet lsa.root
  wire : (attrsWire lsa.root).length < 2 ^ 60
  path : lsa.advPath = some (.plain LSA_ATTR_TYPE_ADV_PATH false [] [])
  id : lsa.id = n

/-- What a node puts into its local RIB by itself is its own LSA; the roots of a tree come up one
after the other. -/
def NetContract (net : Network) : NetOp → Prop
  | .loc n op => ∀ p, op.put = some p → OwnLsa n p.lsa
  | .session i (.readerUnregister roots) => ∀ s dr, net.sessions[i]? = some s →
      s.dr = .opened dr → roots.Perm dr.adjRibIn.lsas
  | _ => True

/-- The runs of a network from the start. -/
abbrev NetRun (c : Crypto) (alloc : Nat → Nat → Nat) :
    List NetOp → Network → List Acceptance → Prop :=
  Run (netStep c alloc) NetContract netInit

variable {c : Crypto} {alloc : Nat → Nat → Nat} {net net' : Network} {op : NetOp}
  {ops : List NetOp} {as as' : List Acceptance} {s s' : Session} {n m : NodeId} {lsa : Lsa}
  {p : LsaPtr} {dr dr' : DgpReader} {es : List RibEvent} {msgs : List DgpMsg} {bytes : Bytes}

/-! ## Paths -/

/-- The `ADV_PATH` leads from `m` to the node of the LSA, over different nodes. -/
def Loopless (m : NodeId) (lsa : Lsa) : Prop :=
  ∃ signed key data, lsa.advPath = some (.plain LSA_ATTR_TYPE_ADV_PATH signed key data) ∧
    data.length % NODE_ID_LEN = 0 ∧ (nodeIds data).head? = some m ∧
    (nodeIds data).getLast? = some lsa.id ∧ (nodeIds data).Nodup

/-- The path of an LSA with an id before it. -/
theorem advPath_prepended (m : NodeId) {signed : Bool} {key data : Bytes}
    (h : lsa.advPath = some (.plain LSA_ATTR_TYPE_ADV_PATH signed key data)) :
    (lsa.prepended m).advPath =
      some (.plain LSA_ATTR_TYPE_ADV_PATH signed key (m.1 ++ data)) := by
  have hprobe : (fun a : Attr => lsaAttrCompareKeys LSA_ATTR_TYPE_ADV_PATH [] a.type a.key) ∘
      Attr.withPreid (some m) =
      fun a => lsaAttrCompareKeys LSA_ATTR_TYPE_ADV_PATH [] a.type a.key := by
    funext a
    have hkey : (a.withPreid (some m)).key = a.key :=
      congrArg (fun q : Int ×ₗ Bytes => (ofLex q).2) (withPreid_keeps (some m) a).1
    rw [Function.comp, type_withPreid, hkey]
  unfold Lsa.advPath lsaFindAttr lsaAttrSetFindAttr at h ⊢
  rw [if_neg (by decide)] at h ⊢
  change Avl.find _ (lsa.root.map _) = _
  rw [Avl.find_map, hprobe, h]
  rfl

/-- The LSA that a node holds: a tree that it can send, and a path that is loopless with the node
before it. -/
structure Relayable (n : NodeId) (lsa : Lsa) : Prop where
  wf : AttrsWf lsa.root
  types : TypesOk lsa.root
  depth : attrsDepth lsa.root ≤ 8
  nonempty : NoEmptySet lsa.root
  wire : (attrsWire lsa.root).length < 2 ^ 60
  path : Loopless n (lsa.prepended n)

theorem OwnLsa.relayable (h : OwnLsa n lsa) : Relayable n lsa := by
  have hid : n.1.length = NODE_ID_LEN := n.2
  have hnil : nodeIds [] = [] := rfl
  refine ⟨h.wf, h.types, h.depth, h.nonempty, h.wire, false, [], n.1 ++ [],
    advPath_prepended n h.path, by rw [List.append_nil, hid]; rfl, ?_, ?_, ?_⟩
  · rw [nodeIds_append]
    rfl
  · rw [nodeIds_append, hnil]
    exact congrArg some h.id.symm
  · rw [nodeIds_append, hnil]
    exact List.nodup_singleton n

/-! ## What is sent -/

/-- The message is a keepalive, a withdrawal, or an LSA with a path that is loopless from `m`. -/
def Carries (m : NodeId) : DgpMsg → Prop
  | .keepalive => True
  | .lsa id root => root = [] ∨ Loopless m (.ofAttrs id root)

/-- The bytes are a row of such messages. -/
def Written (m : NodeId) (bytes : Bytes) : Prop :=
  ∃ msgs, bytes = encodeAll msgs ∧ ∀ msg ∈ msgs, msg.Valid ∧ Carries m msg

theorem Written.nil (m : NodeId) : Written m [] :=
  ⟨[], rfl, fun _ h => absurd h List.not_mem_nil⟩

theorem Written.one {msg : DgpMsg} (hv : msg.Valid) (hc : Carries m msg) :
    Written m msg.encode :=
  ⟨[msg], (List.append_nil _).symm, fun msg' h => by
    rw [List.mem_singleton.mp h]
    exact ⟨hv, hc⟩⟩

theorem Written.append {bytes' : Bytes} (h : Written m bytes) (h' : Written m bytes') :
    Written m (bytes ++ bytes') := by
  obtain ⟨msgs, rfl, hm⟩ := h
  obtain ⟨msgs', rfl, hm'⟩ := h'
  exact ⟨msgs ++ msgs', encodeAll_append.symm, fun msg h =>
    (List.mem_append.mp h).elim (hm msg) (hm' msg)⟩

/-- **The write of an LSA** that does not abort writes a message. -/
theorem writeLsa_ok {remoteid : Option NodeId} (h : Relayable m lsa)
    (hrun : writeLsa ⟨some m, remoteid⟩ lsa = .ok bytes) : Written m bytes := by
  have hmax : SIZE_MAX = 2 ^ 64 - 1 := rfl
  have hlong := length_attrsWire_withPreid (some m) lsa.root
  have hwire := h.wire
  have hlen : lsaSerialiseLength lsa false (some m) =
      .ok (NODE_ID_LEN + (attrsWire (lsa.prepended m).root).length) :=
    lsaSerialiseLength_eq (by
      change (attrsWire (lsa.root.map (Attr.withPreid (some m)))).length ≤ SIZE_MAX
      omega)
  -- a longer one aborts
  have hsize : NODE_ID_LEN + (attrsWire (lsa.prepended m).root).length ≤ 65536 - 128 := by
    by_contra hgt
    unfold writeLsa at hrun
    dsimp only at hrun
    rw [hlen, ok_bind, if_pos (by omega)] at hrun
    exact nomatch hrun
  have hvalid := (Sendable.mk h.wf h.types h.depth h.nonempty hsize).valid
  rw [writeLsa_eq remoteid hvalid] at hrun
  obtain rfl := Except.ok.inj hrun
  exact Written.one hvalid (Or.inr h.path)

theorem output_written {remoteid : Option NodeId} {old new : Option Lsa}
    (hnew : ∀ lsa, new = some lsa → Relayable m lsa)
    (hrun : dgpWriterOutputLsa ⟨some m, remoteid⟩ old new = .ok bytes) : Written m bytes := by
  have hmap : ∀ {o : Option Lsa} {lsa : Lsa},
      dgpWriterMap ⟨some m, remoteid⟩ o = .ok (some lsa) → o = some lsa := by
    intro o lsa h
    rcases dgpWriterMap_isOk ⟨some m, remoteid⟩ o with hmap | hmap
    · exact nomatch hmap.symm.trans h
    · exact Except.ok.inj (hmap.symm.trans h)
  unfold dgpWriterOutputLsa at hrun
  obtain ⟨o, h1, hrun⟩ := bind_eq_ok.mp hrun
  cases o with
  | some lsa => exact writeLsa_ok (hnew lsa (hmap h1)) hrun
  | none =>
    obtain ⟨o, h2, hrun⟩ := bind_eq_ok.mp hrun
    cases o with
    | none =>
      obtain rfl := Except.ok.inj hrun
      exact Written.nil m
    | some old =>
      dsimp only at hrun
      rw [@writeLsa_eq m { bytes := 0, id := old.id, root := [] } remoteid
        (valid_withdrawal old.id)] at hrun
      obtain rfl := Except.ok.inj hrun
      exact Written.one (valid_withdrawal old.id) (Or.inl rfl)

theorem events_written {remoteid : Option NodeId}
    (hnews : ∀ e ∈ es, ∀ p, e.new = some p → Relayable m p.lsa)
    (hrun : dgpWriterEvents ⟨some m, remoteid⟩ es = .ok bytes) : Written m bytes := by
  induction es generalizing bytes with
  | nil =>
    obtain rfl := Except.ok.inj hrun
    exact Written.nil m
  | cons e es ih =>
    obtain ⟨bytes₁, h1, hrun⟩ := bind_eq_ok.mp hrun
    obtain ⟨bytes₂, h2, hrun⟩ := bind_eq_ok.mp hrun
    obtain rfl := Except.ok.inj hrun
    rw [dgpWriterEvent_eq] at h1
    refine (output_written (fun lsa h => ?_) h1).append
      (ih (fun e' he => hnews e' (List.mem_cons_of_mem e he)) h2)
    obtain ⟨p, hp, rfl⟩ := Option.map_eq_some_iff.mp h
    exact hnews e List.mem_cons_self p hp

theorem keepalive_written (m : NodeId) : Written m dgpWriterSendKeepalive :=
  @Written.one m .keepalive trivial trivial

theorem dump_written {remoteid : Option NodeId} {rib : LocRib}
    (h : rib.Holds fun p => Relayable m p.lsa)
    (hrun : dgpWriterRibDump ⟨some m, remoteid⟩ rib = .ok bytes) : Written m bytes := by
  have hids : ∀ {ids : List LocRibId} {bytes : Bytes},
      (∀ rid ∈ ids, ∀ p ∈ rid.held, Relayable m p.lsa) →
      dumpIds ⟨some m, remoteid⟩ ids = .ok bytes → Written m bytes := by
    intro ids
    induction ids with
    | nil =>
      intro bytes _ hrun
      obtain rfl := Except.ok.inj hrun
      exact Written.nil m
    | cons rid ids ih =>
      intro bytes h hrun
      have hrest := @ih
      unfold dumpIds at hrun
      cases hb : rid.best with
      | none =>
        rw [hb] at hrun
        exact hrest (fun r hm => h r (List.mem_cons_of_mem rid hm)) hrun
      | some best =>
        rw [hb] at hrun
        obtain ⟨bytes₁, h1, hrun⟩ := bind_eq_ok.mp hrun
        obtain ⟨bytes₂, h2, hrun⟩ := bind_eq_ok.mp hrun
        obtain rfl := Except.ok.inj hrun
        refine (output_written (fun lsa hl => ?_) h1).append
          (hrest (fun r hm => h r (List.mem_cons_of_mem rid hm)) h2)
        obtain rfl := Option.some.inj hl
        exact h rid List.mem_cons_self best (List.mem_append_right _ (by simp [hb]))
  unfold dgpWriterRibDump at hrun
  split_ifs at hrun
  · obtain rfl := Except.ok.inj hrun
    exact keepalive_written m
  · obtain ⟨bytes₁, h1, hrun⟩ := bind_eq_ok.mp hrun
    obtain rfl := Except.ok.inj hrun
    exact (hids h h1).append (keepalive_written m)

/-! ## What is read -/

/-- A reader on `n` that holds loopless LSAs of its neighbour `m`. -/
structure Reads (c : Crypto) (m n : NodeId) (dr : DgpReader) : Prop where
  remoteid : dr.remoteid.isSome
  inv : dr.adjRibIn.Inv c
  myid : dr.adjRibIn.myid = some n
  peer : dr.adjRibIn.remoteid = some m
  lsas : ∀ p ∈ dr.adjRibIn.lsas, NoEmptySet p.lsa.root ∧ Loopless m p.lsa

/-- An LSA of `m` that `n` accepts. -/
structure Taken (c : Crypto) (m n : NodeId) (p : LsaPtr) : Prop where
  wellformed : Wellformed p.lsa
  nonempty : NoEmptySet p.lsa.root
  loopless : Loopless m p.lsa
  accepted : accepted c (some n) (some m) p = true

/-- What the path of an accepted LSA is like. -/
structure AcceptedPath (m n : NodeId) (lsa : Lsa) : Prop where
  path : ∃ attr, lsa.advPath = some attr ∧ attr.datalen % NODE_ID_LEN = 0 ∧
    (nodeIds attr.pathData).head? = some m ∧ (nodeIds attr.pathData).getLast? = some lsa.id ∧
    (nodeIds attr.pathData).Nodup ∧ n ∉ nodeIds attr.pathData
  other : lsa.id ≠ n

theorem Taken.path (h : Taken c m n p) : AcceptedPath m n p.lsa := by
  obtain ⟨signed, key, data, ha, hmod, hhead, hlast, hnodup⟩ := h.loopless
  have hn := accepted_not_mem h.accepted ha
  refine ⟨⟨_, ha, hmod, hhead, hlast, hnodup, hn⟩, ?_⟩
  rintro rfl
  exact hn (List.mem_of_getLast? hlast)

/-- **An accepted LSA can be relayed.** -/
theorem Taken.relayable (h : Taken c m n p) : Relayable n p.lsa := by
  obtain ⟨signed, key, data, ha, hmod, hhead, hlast, hnodup⟩ := h.loopless
  have hn := accepted_not_mem h.accepted ha
  have hid : n.1.length = NODE_ID_LEN := n.2
  have hwire := h.wellformed.wire
  refine ⟨h.wellformed.wf, h.wellformed.types, h.wellformed.depth, h.nonempty, by omega, signed,
    key, n.1 ++ data, advPath_prepended n ha, ?_, ?_, ?_, ?_⟩
  · rw [List.length_append, hid, Nat.add_mod_left, hmod]
  · rw [nodeIds_append]
    rfl
  · rw [nodeIds_append, List.getLast?_cons, hlast]
    rfl
  · rw [nodeIds_append]
    exact List.nodup_cons.mpr ⟨hn, hnodup⟩

theorem dgpReaderRegister_reads (c : Crypto) (m n : NodeId) :
    Reads c m n (dgpReaderRegister (some n) (some m)) where
  remoteid := rfl
  inv := adjRibInInit_inv c _ _
  myid := rfl
  peer := rfl
  lsas := fun _ h => absurd h List.not_mem_nil

/-- What the reader is told of is accepted. -/
def News (c : Crypto) (m n : NodeId) (es : List RibEvent) : Prop :=
  ∀ e ∈ es, ∀ p, e.new = some p → Taken c m n p

theorem News.nil (c : Crypto) (m n : NodeId) : News c m n [] := fun _ h => absurd h List.not_mem_nil

theorem News.append {es' : List RibEvent} (h : News c m n es) (h' : News c m n es') :
    News c m n (es ++ es') := fun e he => (List.mem_append.mp he).elim (h e) (h' e)

/-- **One message.** -/
theorem receive_taken {msg : DgpMsg} (h : Reads c m n dr) (hv : msg.Valid) (hc : Carries m msg)
    (hrun : dgpReaderReceive c dr msg.decoded = .ok (dr', es)) :
    Reads c m n dr' ∧ News c m n es := by
  cases msg with
  | keepalive =>
    obtain ⟨rfl, rfl⟩ := Prod.mk.inj (Except.ok.inj hrun)
    exact ⟨h, .nil c m n⟩
  | lsa id root =>
    obtain ⟨heq, hrec⟩ := received_decoded hv
    obtain ⟨_, _, _, hne, _⟩ := hv
    obtain ⟨ret, rib', es₁, hadd, hout⟩ :=
      @addLsa_spec c dr.adjRibIn ⟨dr.received, (builtLsa id root).toLsa⟩ h.inv hrec.wellformed
    have hremote : ¬ dr.remoteid.isNone := by
      rw [Option.isNone_iff_eq_none]
      exact Option.isSome_iff_ne_none.mp h.remoteid
    unfold dgpReaderReceive DgpMsg.decoded at hrun
    simp only [if_neg hremote, hadd, ok_bind] at hrun
    obtain ⟨_, _, hrun⟩ := bind_eq_ok.mp hrun
    obtain ⟨rfl, rfl⟩ := Prod.mk.inj (Except.ok.inj hrun)
    have hfollows := hout.follows h.inv
    obtain ⟨hmem, hnews⟩ := hout.news h.inv
    -- the LSA of the message, when it is not a withdrawal
    have hthis : (builtLsa id root).toLsa.root ≠ [] →
        NoEmptySet (builtLsa id root).toLsa.root ∧ Loopless m (builtLsa id root).toLsa := by
      rw [heq]
      exact fun hroot => ⟨hne, hc.resolve_left hroot⟩
    refine ⟨⟨h.remoteid, hfollows.inv, hfollows.myid.trans h.myid,
      hfollows.remoteid.trans h.peer, fun p hp => ?_⟩, fun e he p hp => ?_⟩
    · rcases hmem p hp with hp | ⟨rfl, hroot⟩
      · exact h.lsas p hp
      · exact hthis hroot
    · obtain ⟨rfl, hroot, hacc⟩ := hnews e he p hp
      rw [AdjRibIn.accepted, h.myid, h.peer] at hacc
      exact ⟨hrec.wellformed, (hthis hroot).1, (hthis hroot).2, hacc⟩

/-- **A row of messages.** -/
theorem deliver_taken (h : Reads c m n dr) (hm : ∀ msg ∈ msgs, msg.Valid ∧ Carries m msg)
    (hrun : deliver c dr (msgs.map DgpMsg.decoded) = .ok (dr', es)) :
    Reads c m n dr' ∧ News c m n es := by
  induction msgs generalizing dr es with
  | nil =>
    obtain ⟨rfl, rfl⟩ := Prod.mk.inj (Except.ok.inj hrun)
    exact ⟨h, .nil c m n⟩
  | cons msg msgs ih =>
    obtain ⟨⟨dr₁, es₁⟩, h1, hrun⟩ := bind_eq_ok.mp hrun
    obtain ⟨⟨dr₂, es₂⟩, h2, hrun⟩ := bind_eq_ok.mp hrun
    obtain ⟨rfl, rfl⟩ := Prod.mk.inj (Except.ok.inj hrun)
    obtain ⟨hv, hc⟩ := hm msg List.mem_cons_self
    obtain ⟨hr₁, hn₁⟩ := receive_taken h hv hc h1
    obtain ⟨hr₂, hn₂⟩ := ih hr₁ (fun msg' h => hm msg' (List.mem_cons_of_mem msg h)) h2
    exact ⟨hr₂, hn₁.append hn₂⟩

/-- Of a row of messages, `scan` finds those that have arrived. -/
theorem scan_encodeAll {src tail : Bytes} {fuel off : Nat} (hv : ∀ msg ∈ msgs, msg.Valid)
    (hb : src ++ tail = encodeAll msgs) (hf : src.length ≤ fuel) :
    ∃ done msgs' rest, msgs = done ++ msgs' ∧
      scan fuel src off = (done.map DgpMsg.decoded, .waits rest) ∧
      rest ++ tail = encodeAll msgs' := by
  induction msgs generalizing src fuel off with
  | nil =>
    obtain rfl : src = [] := (List.append_eq_nil_iff.mp hb).1
    refine ⟨[], [], [], rfl, ?_, hb⟩
    cases fuel <;> rfl
  | cons msg msgs ih =>
    have hmsg := hv msg List.mem_cons_self
    have hlen := length_encode hmsg
    rcases encodeAll_split hb with ⟨src', rfl, hb'⟩ | ⟨⟨q, hq⟩, hlt⟩
    · -- the first message has arrived
      rw [List.length_append] at hf
      obtain ⟨fuel, rfl⟩ : ∃ k, fuel = k + 1 := ⟨fuel - 1, by omega⟩
      obtain ⟨done, msgs', rest, rfl, hscan, hrest⟩ := @ih src' fuel (off + msg.encode.length)
        (fun msg' h => hv msg' (List.mem_cons_of_mem msg h)) hb' (by omega)
      refine ⟨msg :: done, msgs', rest, rfl, ?_, hrest⟩
      have hne : ¬ (msg.encode ++ src').isEmpty := by
        rw [List.isEmpty_iff]
        exact List.append_ne_nil_of_left_ne_nil (List.ne_nil_of_length_pos hlen.1) _
      rw [scan, if_neg hne, deserialise_encode hmsg]
      dsimp only
      rw [if_neg (by omega), if_neg (by omega), Int.toNat_natCast, List.drop_left, hscan]
      rfl
    · -- a proper prefix of it
      refine ⟨[], msg :: msgs, src, rfl, ?_, hb⟩
      cases fuel with
      | zero => rfl
      | succ fuel =>
        rw [scan]
        by_cases hnil : src.isEmpty
        · rw [if_pos hnil]
          rfl
        · have hroom : ¬ (off = 0 ∧ src.length = DGP_READER_BUFSIZE) := by
            unfold DGP_READER_BUFSIZE
            omega
          rw [if_neg hnil, deserialise_short hmsg hq hlt]
          dsimp only
          rw [if_neg (lt_irrefl 0), if_pos rfl, if_neg hroom]
          rfl

/-- **A read** takes what has arrived, and keeps the rest. -/
theorem read_taken {data tail : Bytes} {ret : Int} (h : Reads c m n dr)
    (hm : ∀ msg ∈ msgs, msg.Valid ∧ Carries m msg)
    (hb : dr.buf ++ data ++ tail = encodeAll msgs)
    (hrun : dgpReaderRead c dr data = .ok (ret, dr', es)) :
    Reads c m n dr' ∧ News c m n es ∧ ∃ msgs', dr'.buf ++ tail = encodeAll msgs' ∧
      ∀ msg ∈ msgs', msg.Valid ∧ Carries m msg := by
  by_cases hd : data = []
  · rw [hd] at hrun hb
    obtain ⟨_, hpair⟩ := Prod.mk.inj (Except.ok.inj hrun)
    obtain ⟨rfl, rfl⟩ := Prod.mk.inj hpair
    exact ⟨h, .nil c m n, msgs, by rwa [List.append_nil] at hb, hm⟩
  · obtain ⟨done, msgs', rest, rfl, hscan, hrest⟩ := @scan_encodeAll msgs (dr.buf ++ data) tail
      (dr.buf ++ data).length 0 (fun msg h => (hm msg h).1) hb le_rfl
    have hread := @read_scan c dr data hd
    rw [hrun, hscan, process] at hread
    cases hdel : deliver c dr (done.map DgpMsg.decoded) with
    | error e =>
      rw [hdel] at hread
      cases hread
    | ok q =>
      obtain ⟨dr₁, es₁⟩ := q
      obtain ⟨hr, hn⟩ :=
        deliver_taken h (fun msg h => hm msg (List.mem_append_left _ h)) hdel
      rw [hdel] at hread
      obtain ⟨hret, hpair⟩ := Prod.mk.inj (Except.ok.inj hread)
      obtain ⟨hdr, rfl⟩ := Prod.mk.inj hpair
      obtain rfl : ret = 0 := hret
      obtain rfl : dr' = { dr₁ with buf := rest } := hdr
      exact ⟨⟨hr.remoteid, hr.inv, hr.myid, hr.peer, hr.lsas⟩, hn, msgs', hrest,
        fun msg h => hm msg (List.mem_append_right _ h)⟩

/-! ## The invariant -/

/-- The bytes that the reader has not taken as a message yet. -/
def Session.buf (s : Session) : Bytes :=
  match s.dr with
  | .opened dr => dr.buf
  | .idle | .closed => []

/-- What holds of a session: what the reader has in its buffer and what is in flight is a row of
messages, of which the end may be lost when the writer is gone. -/
structure Session.Inv (c : Crypto) (s : Session) : Prop where
  writes : ∀ dw, s.dw = .opened dw → dw.myid = some s.writer
  reads : ∀ dr, s.dr = .opened dr → Reads c s.writer s.reader dr
  flight : s.dr ≠ .closed → ∃ msgs lost, s.buf ++ s.wire ++ lost = encodeAll msgs ∧
    (∀ msg ∈ msgs, msg.Valid ∧ Carries s.writer msg) ∧ (s.dw ≠ .closed → lost = [])

/-- What holds of a network. -/
structure Network.Inv (c : Crypto) (net : Network) : Prop where
  rib : ∀ n, (net.rib n).Holds fun p => Relayable n p.lsa
  sessions : ∀ s ∈ net.sessions, s.Inv c

theorem netInit_inv (c : Crypto) : netInit.Inv c :=
  ⟨fun n => locRibInit_holds (some n) _, fun _ h => absurd h List.not_mem_nil⟩

theorem Network.Inv.update (hi : net.Inv c) {rib : LocRib}
    (hr : rib.Holds fun p => Relayable n p.lsa) :
    ∀ m, (Function.update net.rib n rib m).Holds fun p => Relayable m p.lsa := by
  intro m
  by_cases h : m = n
  · subst h
    rwa [Function.update_self]
  · rw [Function.update_of_ne h]
    exact hi.rib m

theorem Network.Inv.set (hi : net.Inv c) (i : Nat) (hs : s.Inv c) :
    ∀ s' ∈ net.sessions.set i s, s'.Inv c := fun s' hm =>
  (List.mem_or_eq_of_mem_set hm).elim (hi.sessions s') fun e => e ▸ hs

/-- A session on which more is written. -/
theorem Session.Inv.send {dw : DgpWriter} (h : s.Inv c) (hw : s.dw ≠ .closed)
    (hid : dw.myid = some s.writer) (hb : Written s.writer bytes) :
    Session.Inv c { s with dw := .opened dw, wire := s.wire ++ bytes } := by
  refine ⟨fun dw' e => by cases e; exact hid, h.reads, fun hr => ?_⟩
  obtain ⟨msgs, lost, hflight, hm, hlost⟩ := h.flight hr
  obtain rfl := hlost hw
  obtain ⟨msgs', rfl, hm'⟩ := hb
  rw [List.append_nil] at hflight
  refine ⟨msgs ++ msgs', [], ?_, fun msg hmem => ?_, fun _ => rfl⟩
  · rw [List.append_nil, encodeAll_append, ← hflight, List.append_assoc]
    rfl
  · exact (List.mem_append.mp hmem).elim (hm msg) (hm' msg)

theorem Session.Inv.output (h : s.Inv c)
    (hnews : ∀ e ∈ es, ∀ p, e.new = some p → Relayable n p.lsa)
    (hrun : s.output n es = .ok s') : s'.Inv c := by
  obtain ⟨writer, reader, dw, wire, dr⟩ := s
  unfold Session.output at hrun
  cases dw with
  | idle => exact Except.ok.inj hrun ▸ h
  | closed => exact Except.ok.inj hrun ▸ h
  | opened dw =>
    have hid : dw.myid = some writer := h.writes dw rfl
    dsimp only at hrun
    split_ifs at hrun with hn
    · subst hn
      obtain ⟨bytes, hb, hrun⟩ := bind_eq_ok.mp hrun
      obtain rfl := Except.ok.inj hrun
      obtain ⟨myid, remoteid⟩ := dw
      obtain rfl : myid = some writer := hid
      exact h.send (nofun) rfl (events_written hnews hb)
    · exact Except.ok.inj hrun ▸ h

theorem outputAll_inv {ss ss' : List Session} (h : ∀ s ∈ ss, s.Inv c)
    (hnews : ∀ e ∈ es, ∀ p, e.new = some p → Relayable n p.lsa)
    (hrun : outputAll n es ss = .ok ss') : ∀ s ∈ ss', s.Inv c := by
  induction ss generalizing ss' with
  | nil => exact Except.ok.inj hrun ▸ h
  | cons s ss ih =>
    obtain ⟨s₁, h1, hrun⟩ := bind_eq_ok.mp hrun
    obtain ⟨ss₁, h2, hrun⟩ := bind_eq_ok.mp hrun
    obtain rfl := Except.ok.inj hrun
    intro s' hm
    rcases List.mem_cons.mp hm with rfl | hm
    · exact (h s List.mem_cons_self).output hnews h1
    · exact ih (fun t ht => h t (List.mem_cons_of_mem s ht)) h2 s' hm

/-- **What a reader is told** goes into the local RIB. -/
theorem Network.Inv.receive (hi : net.Inv c) (hs : s.Inv c) {alloc : Nat → Nat} {i : Nat}
    (hn : News c s.writer s.reader es) (hrun : net.receive alloc i s es = .ok (net', as)) :
    net'.Inv c ∧ ∀ a ∈ as, AcceptedPath a.peer a.node a.lsa := by
  obtain ⟨loc, hfwd, hrun⟩ := bind_eq_ok.mp hrun
  obtain ⟨rfl, rfl⟩ := Prod.mk.inj (Except.ok.inj hrun)
  have hnew : ∀ e : RibEvent, (e.readdress alloc).new = e.new.map (LsaPtr.readdress alloc) := by
    intro e
    cases e <;> rfl
  refine ⟨⟨hi.update (forward_holds (hi.rib s.reader) ?_ hfwd), hi.set i hs⟩, ?_⟩
  · intro e he p hp
    obtain ⟨e, hm, rfl⟩ := List.mem_map.mp he
    rw [hnew] at hp
    obtain ⟨q, hq, rfl⟩ := Option.map_eq_some_iff.mp hp
    exact (hn e hm q hq).relayable
  · intro a ha
    obtain ⟨e, hm, ha⟩ := List.mem_filterMap.mp ha
    obtain ⟨q, hq, rfl⟩ := Option.map_eq_some_iff.mp ha
    exact (hn e hm q hq).path

theorem Session.Inv.register (h : s.Inv c) (hr : s.dr = .idle) : Session.Inv c
    { s with dr := .opened (dgpReaderRegister (some s.reader) (some s.writer)) } := by
  obtain ⟨writer, reader, dw, wire, dr⟩ := s
  obtain rfl : dr = .idle := hr
  refine ⟨h.writes, fun dr' e => ?_, fun _ => h.flight (fun e => nomatch e)⟩
  cases e
  exact dgpReaderRegister_reads c writer reader

/-- A session without its writer. -/
theorem Session.Inv.cut (h : s.Inv c) (kept : Nat) :
    Session.Inv c { s with dw := .closed, wire := s.wire.take kept } := by
  refine ⟨by simp, h.reads, fun hr => ?_⟩
  obtain ⟨msgs, lost, hflight, hm, _⟩ := h.flight hr
  refine ⟨msgs, s.wire.drop kept ++ lost, ?_, hm, fun hw => absurd rfl hw⟩
  rw [← hflight]
  simp only [Session.buf, List.append_assoc]
  rw [← List.append_assoc (List.take kept s.wire), List.take_append_drop]

/-- A session without its reader. -/
theorem Session.Inv.close (h : s.Inv c) : Session.Inv c { s with dr := .closed } :=
  ⟨h.writes, by simp, fun hr => absurd rfl hr⟩

theorem Session.Inv.read {len : Nat} {ret : Int} (h : s.Inv c) (hdr : s.dr = .opened dr)
    (hread : dgpReaderRead c dr (s.wire.take len) = .ok (ret, dr', es)) :
    Session.Inv c { s with wire := s.wire.drop len, dr := .opened dr' } ∧
      News c s.writer s.reader es := by
  obtain ⟨writer, reader, dw, wire, dr₀⟩ := s
  obtain rfl : dr₀ = .opened dr := hdr
  obtain ⟨msgs, lost, hflight, hm, hlost⟩ := h.flight (fun e => nomatch e)
  have hsplit : dr.buf ++ wire.take len ++ (wire.drop len ++ lost) = encodeAll msgs := by
    rw [← hflight, List.append_assoc, ← List.append_assoc (List.take len wire),
      List.take_append_drop, ← List.append_assoc]
    rfl
  obtain ⟨hreads, hnews, msgs', hflight', hm'⟩ := read_taken (h.reads dr rfl) hm hsplit hread
  refine ⟨⟨h.writes, fun dr₁ e => ?_, fun _ => ⟨msgs', lost, ?_, hm', hlost⟩⟩, hnews⟩
  · cases e
    exact hreads
  · rw [← hflight', List.append_assoc]
    rfl

/-- A session that loses the sides on a node. -/
theorem Session.Inv.lose (h : s.Inv c) (n : NodeId) : (s.lose n).Inv c := by
  obtain ⟨writer, reader, dw, wire, dr⟩ := s
  refine ⟨fun dw' e => ?_, fun dr' e => ?_, fun hr => ?_⟩
  · by_cases hn : writer = n
    · simp [Session.lose, hn] at e
    · exact h.writes dw' (by simpa [Session.lose, hn] using e)
  · by_cases hn : reader = n
    · simp [Session.lose, hn] at e
    · exact h.reads dr' (by simpa [Session.lose, hn] using e)
  · by_cases hn : reader = n
    · exact absurd (if_pos hn) hr
    · have hdr : (Session.lose n ⟨writer, reader, dw, wire, dr⟩).dr = dr := if_neg hn
      obtain ⟨msgs, lost, hflight, hm, hlost⟩ := h.flight (hdr ▸ hr)
      refine ⟨msgs, lost, ?_, hm, fun hw => hlost fun e => hw ?_⟩
      · rw [← hflight, Session.buf, Session.buf, hdr]
        rfl
      · obtain rfl : dw = .closed := e
        exact ite_self _

/-- What a truncation tells is nothing new. -/
theorem truncate_news {rib rib' : AdjRibIn} {roots : List LsaPtr}
    (hrun : adjRibInTruncate c rib roots = .ok (rib', es)) : News c m n es := by
  induction roots generalizing rib es with
  | nil =>
    obtain ⟨_, rfl⟩ := Prod.mk.inj (Except.ok.inj hrun)
    exact .nil c m n
  | cons root roots ih =>
    obtain ⟨⟨rib₁, es₁⟩, h1, hrun⟩ := bind_eq_ok.mp hrun
    obtain ⟨⟨rib₂, es₂⟩, h2, hrun⟩ := bind_eq_ok.mp hrun
    obtain ⟨rfl, rfl⟩ := Prod.mk.inj (Except.ok.inj hrun)
    obtain ⟨⟨rib₃, es₃⟩, h3, h1⟩ := bind_eq_ok.mp h1
    obtain ⟨_, rfl⟩ := Prod.mk.inj (Except.ok.inj h1)
    obtain ⟨old, _, h3⟩ := bind_eq_ok.mp h3
    obtain ⟨_, rfl⟩ := Prod.mk.inj (Except.ok.inj h3)
    refine News.append (fun e he p hp => ?_) (ih h2)
    exact absurd (changeEvents_news e he p hp) (by simp)

/-! ## One step -/

/-- **An operation on a session.** -/
theorem sessionStep_inv {alloc : Nat → Nat} {i : Nat} {sop : SessionOp} (hi : net.Inv c)
    (hs : s.Inv c) (hrun : sessionStep c alloc net i s sop = .ok (net', as)) :
    net'.Inv c ∧ ∀ a ∈ as, AcceptedPath a.peer a.node a.lsa := by
  -- what changes the session alone
  have hset : ∀ {s' : Session}, s'.Inv c →
      (Except.ok (⟨net.rib, net.sessions.set i s'⟩, []) : Except Crash _) = .ok (net', as) →
      net'.Inv c ∧ ∀ a ∈ as, AcceptedPath a.peer a.node a.lsa := by
    intro s' hs' hrun
    obtain ⟨rfl, rfl⟩ := Prod.mk.inj (Except.ok.inj hrun)
    exact ⟨⟨hi.rib, hi.set i hs'⟩, fun a ha => absurd ha List.not_mem_nil⟩
  have hsame : (Except.ok (net, []) : Except Crash _) = .ok (net', as) →
      net'.Inv c ∧ ∀ a ∈ as, AcceptedPath a.peer a.node a.lsa := by
    intro hrun
    obtain ⟨rfl, rfl⟩ := Prod.mk.inj (Except.ok.inj hrun)
    exact ⟨hi, fun a ha => absurd ha List.not_mem_nil⟩
  cases sop with
  | writerRegister remoteid =>
    unfold sessionStep at hrun
    cases hdw : s.dw with
    | idle =>
      simp only [hdw] at hrun
      obtain ⟨bytes, hb, hrun⟩ := bind_eq_ok.mp hrun
      exact hset (hs.send (by simp [hdw]) rfl (dump_written (hi.rib s.writer) hb)) hrun
    | opened dw => exact hsame (by simpa [hdw] using hrun)
    | closed => exact hsame (by simpa [hdw] using hrun)
  | readerRegister =>
    unfold sessionStep at hrun
    cases hdr : s.dr with
    | idle =>
      simp only [hdr] at hrun
      exact hset (hs.register hdr) hrun
    | opened dr => exact hsame (by simpa [hdr] using hrun)
    | closed => exact hsame (by simpa [hdr] using hrun)
  | keepalive =>
    unfold sessionStep at hrun
    cases hdw : s.dw with
    | opened dw =>
      have hsend := hs.send (by simp [hdw]) (hs.writes dw hdw) (keepalive_written s.writer)
      simp only [hdw] at hrun
      exact hset hsend hrun
    | idle => exact hsame (by simpa [hdw] using hrun)
    | closed => exact hsame (by simpa [hdw] using hrun)
  | read len =>
    unfold sessionStep at hrun
    cases hdr : s.dr with
    | opened dr =>
      simp only [hdr] at hrun
      obtain ⟨⟨ret, dr', es⟩, hread, hrun⟩ := bind_eq_ok.mp hrun
      obtain ⟨hs', hnews⟩ := hs.read hdr hread
      exact hi.receive hs' hnews hrun
    | idle => exact hsame (by simpa [hdr] using hrun)
    | closed => exact hsame (by simpa [hdr] using hrun)
  | writerUnregister kept => exact hset (hs.cut kept) hrun
  | readerUnregister roots =>
    unfold sessionStep at hrun
    cases hdr : s.dr with
    | opened dr =>
      simp only [hdr] at hrun
      obtain ⟨⟨rib, es⟩, htrunc, hrun⟩ := bind_eq_ok.mp hrun
      exact hi.receive hs.close (truncate_news htrunc) hrun
    | idle => exact hsame (by simpa [hdr] using hrun)
    | closed => exact hsame (by simpa [hdr] using hrun)

/-- **One step** keeps the invariant, and the paths of what it accepts are as they should be. -/
theorem netStep_inv (hi : net.Inv c) (hc : NetContract net op)
    (hrun : netStep c alloc net op = .ok (net', as)) :
    net'.Inv c ∧ ∀ a ∈ as, AcceptedPath a.peer a.node a.lsa := by
  cases op with
  | loc n lop =>
    obtain ⟨⟨rib, es⟩, hloc, hrun⟩ := bind_eq_ok.mp hrun
    obtain ⟨ss, hout, hrun⟩ := bind_eq_ok.mp hrun
    obtain ⟨rfl, rfl⟩ := Prod.mk.inj (Except.ok.inj hrun)
    obtain ⟨hrib, hnews⟩ := locStep_holds (hi.rib n) (fun p hp => (hc p hp).relayable) hloc
    exact ⟨⟨hi.update hrib, outputAll_inv hi.sessions hnews hout⟩,
      fun a ha => absurd ha List.not_mem_nil⟩
  | connect writer reader =>
    obtain ⟨rfl, rfl⟩ := Prod.mk.inj (Except.ok.inj hrun)
    refine ⟨⟨hi.rib, fun s hm => ?_⟩, fun a ha => absurd ha List.not_mem_nil⟩
    rcases List.mem_append.mp hm with hm | hm
    · exact hi.sessions s hm
    · obtain rfl := List.mem_singleton.mp hm
      exact ⟨by simp, by simp, fun _ => ⟨[], [], rfl, fun _ h => absurd h List.not_mem_nil,
        fun _ => rfl⟩⟩
  | session i sop =>
    unfold netStep at hrun
    cases hget : net.sessions[i]? with
    | none =>
      simp only [hget] at hrun
      obtain ⟨rfl, rfl⟩ := Prod.mk.inj (Except.ok.inj hrun)
      exact ⟨hi, fun a ha => absurd ha List.not_mem_nil⟩
    | some s =>
      simp only [hget] at hrun
      exact sessionStep_inv hi (hi.sessions s (List.mem_of_getElem? hget)) hrun
  | restart n =>
    obtain ⟨rfl, rfl⟩ := Prod.mk.inj (Except.ok.inj hrun)
    refine ⟨⟨hi.update (locRibInit_holds (some n) _), fun s hm => ?_⟩,
      fun a ha => absurd ha List.not_mem_nil⟩
    obtain ⟨s, hs, rfl⟩ := List.mem_map.mp hm
    exact (hi.sessions s hs).lose n

/-! ## Runs -/

theorem NetRun.inv (h : NetRun c alloc ops net as) :
    net.Inv c ∧ ∀ a ∈ as, AcceptedPath a.peer a.node a.lsa := by
  refine h.invariant (fun _ net as => net.Inv c ∧ ∀ a ∈ as, AcceptedPath a.peer a.node a.lsa)
    ⟨netInit_inv c, fun a ha => absurd ha List.not_mem_nil⟩ fun hi hc hs => ?_
  obtain ⟨hinv, has⟩ := netStep_inv hi.1 hc hs
  exact ⟨hinv, fun a ha => (List.mem_append.mp ha).elim (hi.2 a) (has a)⟩

/-- **Advertised paths are loop-free.** In every run of a network, every LSA that a node accepts
from a neighbour, at any time or held by a reader now, has an `ADV_PATH` of whole node ids that
starts with the neighbour, ends with the LSA's id, has no id twice, and does not have the node on
it; so no node accepts an LSA of its own. -/
theorem accepted_loopless (h : NetRun c alloc ops net as) :
    (∀ a ∈ as, AcceptedPath a.peer a.node a.lsa) ∧
      ∀ s ∈ net.sessions, ∀ dr, s.dr = .opened dr → ∀ p ∈ dr.adjRibIn.lsas,
        adjRibInMap c dr.adjRibIn (some p) = .ok (some p) →
          AcceptedPath s.writer s.reader p.lsa := by
  obtain ⟨hi, has⟩ := h.inv
  refine ⟨has, fun s hm dr hdr p hp hmap => ?_⟩
  have hr := (hi.sessions s hm).reads dr hdr
  obtain ⟨verdict, hacc, hmap⟩ := bind_eq_ok.mp hmap
  have htaken : accepted c (some s.reader) (some s.writer) p = true := by
    rw [hr.myid, hr.peer] at hacc
    rw [accepted, hacc]
    cases verdict with
    | true => rfl
    | false => cases hmap
  exact (Taken.mk (hr.inv.wellformed p hp) (hr.lsas p hp).1 (hr.lsas p hp).2 htaken).path

/-! ## A small run -/

/-- The LSA that X makes of itself. -/
theorem ownLsa_sampleX : OwnLsa idX (relayed 1 idX [] signedX signatureX).lsa where
  wf := by decide +kernel
  types := by decide +kernel
  depth := by decide +kernel
  nonempty := by
    unfold NoEmptySet
    decide +kernel
  wire := by decide +kernel
  path := rfl
  id := rfl

/-- X advertises itself to P, and P relays that to M. -/
def relayOps : List NetOp :=
  [.loc idX (.add (relayed 1 idX [] signedX signatureX)), .loc idX .recompute,
    .connect idX idP, .session 0 (.writerRegister (some idP)), .session 0 .readerRegister,
    .connect idP idM, .session 1 (.writerRegister (some idM)), .session 1 .readerRegister,
    .session 0 (.read 1000), .loc idP .recompute, .session 1 (.read 1000)]

theorem accepted_loopless_relayed : ∃ net as,
    NetRun sampleCrypto (fun i k => 2 * k + i) relayOps net as ∧
    as.map (fun a => (a.node, a.peer)) = [(idP, idX), (idM, idP)] ∧
    ∀ a ∈ as, AcceptedPath a.peer a.node a.lsa := by
  have hrun : (execute (netStep sampleCrypto fun i k => 2 * k + i) netInit relayOps).toOption.map
      (fun r => r.2.map fun a => (a.node, a.peer)) = some [(idP, idX), (idM, idP)] := by
    decide +kernel
  have hc : ∀ op ∈ relayOps, ∀ net, NetContract net op := by
    have hadd : ∀ net, NetContract net
        (.loc idX (.add (relayed 1 idX [] signedX signatureX))) :=
      fun net p hp => Option.some.inj hp ▸ ownLsa_sampleX
    have hrecompute : ∀ net n, NetContract net (.loc n .recompute) :=
      fun net n p hp => nomatch hp
    simp only [relayOps, List.forall_mem_cons]
    exact ⟨hadd, (hrecompute · idX), fun _ => trivial, fun _ => trivial, fun _ => trivial,
      fun _ => trivial, fun _ => trivial, fun _ => trivial, fun _ => trivial,
      (hrecompute · idP), fun _ => trivial, fun _ h => absurd h List.not_mem_nil⟩
  cases hexec : execute (netStep sampleCrypto fun i k => 2 * k + i) netInit relayOps with
  | error e =>
    rw [hexec] at hrun
    exact nomatch hrun
  | ok r =>
    rw [hexec] at hrun
    exact ⟨r.1, r.2, run_execute hc hexec, Option.some.inj hrun,
      (accepted_loopless (run_execute hc hexec)).1⟩

end Dvpn
