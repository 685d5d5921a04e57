import Dvpn.Daemon.Connections

/-!
# The peer of an outgoing connection (`tconn_connect_one.c:94-194`, `dvpn.c:347-427`)

In the TLS handshake `verify_key_ids` is given the key id of the peer and those of its role
certificates. It accepts them by the fingerprint of the connect entry, by the id in the canonical
name of the host, or without a condition, and `handshake_done` then hands `tco->id` on. Of
`struct tconn_connect_one` the model has what these two read and write; what is printed is the
`VerifyExit`.

* `verifyKeyIds_ret`: which key ids are accepted.
* `handshake_peer`: the daemon keeps the connection under the id that `handshake_done` hands on.
* `peer_identified_iff`: only the match of the fingerprint stores the key id of the peer, so that
  the daemon takes the other peers for whatever `tco->id` holds.
-/

namespace Dvpn

/-! ## The code -/

/-- What the peer presents: its key id, and those of its role certificates. -/
abbrev KeyIds := { ids : List NodeId // ids ≠ [] }

/-- `ids[0]`. -/
def KeyIds.first (ids : KeyIds) : NodeId := ids.1.head ids.2

/-- `struct tconn_connect_one`. -/
structure TconnConnectOne where
  fpType : ConfFpType
  fingerprint : NodeId
  cnameid : Option NodeId
  id : NodeId

/-- The exits of `verify_key_ids`, with what it prints there. -/
inductive VerifyExit where
  /-- " - does not match its CNAME" -/
  | noCname
  /-- " - have CNAME match" -/
  | cname
  /-- " - matches 'any'" -/
  | any
  /-- " - don't have CNAME match" -/
  | cnameMissing
  /-- " - OK", " - OK (via role certificate)" -/
  | ok (role : Bool)
  /-- " - no matches" -/
  | noMatches
  deriving DecidableEq

/-- The return value. -/
def VerifyExit.ret : VerifyExit → Int
  | noCname => 1
  | cname => 0
  | any => 0
  | cnameMissing => 1
  | ok _ => 0
  | noMatches => 1

/-- The loops of `verify_key_ids`: the index of the first key id that is `id`. -/
def findKeyId (id : NodeId) (ids : List NodeId) : Option Nat :=
  ids.findIdx? fun id' => memcmp id.1 id'.1 NODE_ID_LEN = 0

/-- The end of `verify_key_ids` (`tconn_connect_one.c:123-147`), behind the test of `cnameid`. -/
def verifyFingerprint (tco : TconnConnectOne) (ids : KeyIds) : VerifyExit × TconnConnectOne :=
  match tco.fpType with
  | .any => (.any, tco)
  | .cname => (.cnameMissing, tco)
  | .matching =>
    match findKeyId tco.fingerprint ids.1 with
    | some i => (.ok (i ≠ 0), { tco with id := ids.first })
    | none => (.noMatches, tco)

/-- `verify_key_ids` (`tconn_connect_one.c:94-148`). -/
def verifyKeyIds (tco : TconnConnectOne) (ids : KeyIds) : VerifyExit × TconnConnectOne :=
  match tco.cnameid with
  | none => verifyFingerprint tco ids
  | some cnameid =>
    if findKeyId cnameid ids.1 = none then (.noCname, tco)
    else if tco.fpType = .any ∨ tco.fpType = .cname then (.cname, tco)
    else verifyFingerprint tco ids

/-- What `handshake_done` (`tconn_connect_one.c:169-194`) hands to `connected`, which hands it to
`new_conn` (`tconn_connect.c:69-86`). -/
def TconnConnectOne.handshakeDone (tco : TconnConnectOne) : NodeId := tco.id

/-- The handshake of an attempt for the connect entry `e` of the daemon: with a return value other
than 0 GnuTLS breaks it off. The id of `c` is not looked at. -/
def handshake (sign : Bytes → Option Bytes) (d : Daemon) (e : Nat) (c : NewConn)
    (tco : TconnConnectOne) (ids : KeyIds) : Except Crash (Daemon × List DaemonEvent) :=
  if (verifyKeyIds tco ids).1.ret ≠ 0 then return (d, [])
  else cceNewConn sign d e { c with id := (verifyKeyIds tco ids).2.handshakeDone }

/-! ## Which key ids are accepted -/

variable {tco : TconnConnectOne} {ids : KeyIds} {id : NodeId}

/-- The key ids that a connect entry is meant to accept. -/
def Acceptable (tco : TconnConnectOne) (ids : KeyIds) : Prop :=
  (∀ cnameid, tco.cnameid = some cnameid → cnameid ∈ ids.1) ∧
    (tco.fpType = .any ∨ (tco.fpType = .cname ∧ tco.cnameid ≠ none) ∨
      (tco.fpType = .matching ∧ tco.fingerprint ∈ ids.1))

theorem findKeyId_eq_none {l : List NodeId} : findKeyId id l = none ↔ id ∉ l := by
  simp only [findKeyId, List.findIdx?_eq_none_iff, memcmp_ids_zero, decide_eq_false_iff_not]
  exact ⟨fun h hm => h id hm rfl, fun h x hx e => h (e ▸ hx)⟩

theorem verifyFingerprint_ret : (verifyFingerprint tco ids).1.ret = 0 ↔
    tco.fpType = .any ∨ (tco.fpType = .matching ∧ tco.fingerprint ∈ ids.1) := by
  unfold verifyFingerprint
  cases tco.fpType with
  | any => simp [VerifyExit.ret]
  | cname => simp [VerifyExit.ret]
  | matching =>
    dsimp only
    cases h : findKeyId tco.fingerprint ids.1 with
    | none => simp [VerifyExit.ret, findKeyId_eq_none.mp h]
    | some i =>
      have hm : tco.fingerprint ∈ ids.1 := by
        by_contra hn
        rw [findKeyId_eq_none.mpr hn] at h
        cases h
      simp [VerifyExit.ret, hm]

/-- **Which key ids are accepted.** -/
theorem verifyKeyIds_ret : (verifyKeyIds tco ids).1.ret = 0 ↔ Acceptable tco ids := by
  unfold verifyKeyIds Acceptable
  cases hc : tco.cnameid with
  | none =>
    dsimp only
    rw [verifyFingerprint_ret]
    simp
  | some cnameid =>
    dsimp only
    by_cases hm : cnameid ∈ ids.1
    · rw [if_neg fun h => findKeyId_eq_none.mp h hm]
      by_cases ht : tco.fpType = .any ∨ tco.fpType = .cname
      · rw [if_pos ht]
        rcases ht with ht | ht <;> simp [VerifyExit.ret, ht, hm]
      · rw [if_neg ht, verifyFingerprint_ret]
        push Not at ht
        simp [ht.1, ht.2, hm]
    · rw [if_pos (findKeyId_eq_none.mpr hm)]
      simp [VerifyExit.ret, hm]

/-! ## Which id is handed on -/

theorem verifyFingerprint_id (h : (verifyFingerprint tco ids).1.ret = 0) :
    (verifyFingerprint tco ids).2.id = if tco.fpType = .matching then ids.first else tco.id := by
  unfold verifyFingerprint at h ⊢
  cases ht : tco.fpType with
  | any => simp
  | cname => simp [ht, VerifyExit.ret] at h
  | matching =>
    simp only [ht] at h ⊢
    cases hf : findKeyId tco.fingerprint ids.1 with
    | none => simp [hf, VerifyExit.ret] at h
    | some i => simp

/-- **Only the match of the fingerprint stores the id.** -/
theorem verifyKeyIds_id (h : (verifyKeyIds tco ids).1.ret = 0) :
    (verifyKeyIds tco ids).2.handshakeDone =
      if tco.fpType = .matching then ids.first else tco.id := by
  unfold TconnConnectOne.handshakeDone
  unfold verifyKeyIds at h ⊢
  cases hc : tco.cnameid with
  | none =>
    simp only [hc] at h ⊢
    exact verifyFingerprint_id h
  | some cnameid =>
    simp only [hc] at h ⊢
    by_cases hm : findKeyId cnameid ids.1 = none
    · simp [hm, VerifyExit.ret] at h
    · by_cases ht : tco.fpType = .any ∨ tco.fpType = .cname
      · have hne : tco.fpType ≠ .matching := by
          rcases ht with ht | ht <;> simp [ht]
        simp [hm, ht, hne]
      · rw [if_neg hm, if_neg ht] at h ⊢
        exact verifyFingerprint_id h

/-! ## The peer in the daemon -/

variable {sign : Bytes → Option Bytes} {d d' : Daemon} {e : Nat} {c : NewConn}
  {es : List DaemonEvent}

/-- The daemon keeps a connection of the entry `e`, and `peer` is its peer: in the list of the
entry, by its address, and in the LSA of the node unless the entry is `DBONLY`. -/
structure Kept (sign : Bytes → Option Bytes) (time : Nat) (d d' : Daemon) (e : Nat)
    (peer : NodeId) : Prop where
  conn : ∃ cce, d.connectEntries[e]? = some cce ∧
    d'.connectEntries[e]? = some { cce with connections := cce.connections ++ [peer] } ∧
    (cce.peerType ≠ .dbonly →
      ∃ cost, mylsaAddPeer sign time d.me peer cce.peerType cost = .ok d'.me)
  route : v6GlobalAddrFromKeyId peer ∈ d'.directPeers

theorem joinPeer_ok {crash : Crash} {peerType : ConfPeerType} {cost : Int}
    (h : joinPeer sign crash d c peerType cost = .ok (d', es)) :
    d'.connectEntries = d.connectEntries ∧ v6GlobalAddrFromKeyId c.id ∈ d'.directPeers ∧
      (peerType ≠ .dbonly →
        ∃ cost, mylsaAddPeer sign c.time d.me c.id peerType cost = .ok d'.me) := by
  unfold joinPeer at h
  obtain ⟨⟨me, es'⟩, hme, h⟩ := bind_eq_ok.mp h
  dsimp only at h
  by_cases hseg : c.maxseg < 0
  · simp [hseg] at h
  · cases hi : Avl.insert compareDirectPeers (v6GlobalAddrFromKeyId c.id) d.directPeers with
    | none => simp [hseg, hi] at h
    | some dps =>
      simp only [hseg, hi, if_false] at h
      obtain ⟨rfl, rfl⟩ := Prod.mk.inj (Except.ok.inj h)
      refine ⟨rfl, (Avl.insert_perm hi).mem_iff.mpr List.mem_cons_self, fun hdb => ?_⟩
      unfold joinMe at hme
      rw [if_neg hdb] at hme
      obtain ⟨newme, hadd, hme⟩ := bind_eq_ok.mp hme
      obtain ⟨rfl, -⟩ := Prod.mk.inj (Except.ok.inj hme)
      exact ⟨_, hadd⟩

/-- `cce_new_conn` keeps a connection under the id that it is given. -/
theorem cceNewConn_kept (h : cceNewConn sign d e c = .ok (d', es)) (hk : .returned true ∈ es) :
    Kept sign c.time d d' e c.id := by
  unfold cceNewConn at h
  cases hcce : d.connectEntries[e]? with
  | none =>
    rw [hcce] at h
    obtain ⟨rfl, rfl⟩ := Prod.mk.inj (Except.ok.inj h)
    exact absurd hk List.not_mem_nil
  | some cce =>
    rw [hcce] at h
    dsimp only at h
    by_cases hself : (dpFind d.directPeers (v6GlobalAddrFromKeyId d.keyid)).isSome = true
    · rw [if_pos hself] at h
      obtain ⟨rfl, rfl⟩ := Prod.mk.inj (Except.ok.inj h)
      simp at hk
    · by_cases htun : (!c.tun) = true
      · rw [if_neg hself, if_pos htun] at h
        obtain ⟨rfl, rfl⟩ := Prod.mk.inj (Except.ok.inj h)
        simp at hk
      · rw [if_neg hself, if_neg htun] at h
        obtain ⟨⟨d₁, es₁⟩, hjoin, h⟩ := bind_eq_ok.mp h
        obtain ⟨rfl, rfl⟩ := Prod.mk.inj (Except.ok.inj h)
        obtain ⟨hentries, hroute, hme⟩ := joinPeer_ok hjoin
        refine ⟨⟨cce, hcce, ?_, hme⟩, hroute⟩
        simp [hentries, hcce]

/-- **The peer of a connection that is kept** is the id that `handshake_done` hands on. -/
theorem handshake_peer (h : handshake sign d e c tco ids = .ok (d', es))
    (hk : .returned true ∈ es) : (verifyKeyIds tco ids).1.ret = 0 ∧
      Kept sign c.time d d' e (verifyKeyIds tco ids).2.handshakeDone := by
  unfold handshake at h
  split_ifs at h with hret
  · obtain ⟨rfl, rfl⟩ := Prod.mk.inj (Except.ok.inj h)
    exact absurd hk List.not_mem_nil
  · exact ⟨not_not.mp hret, cceNewConn_kept h hk⟩

/-! ## The identity of the peer -/

/-- The key ids are accepted by the configuration, and with it the daemon takes the peer for its
own key id. -/
structure PeerIdentified (tco : TconnConnectOne) (ids : KeyIds) : Prop where
  verdict : (verifyKeyIds tco ids).1.ret = 0 ↔ Acceptable tco ids
  id : (verifyKeyIds tco ids).1.ret = 0 → (verifyKeyIds tco ids).2.handshakeDone = ids.first
  peer : ∀ sign d e c d' es, handshake sign d e c tco ids = .ok (d', es) →
    .returned true ∈ es → Kept sign c.time d d' e ids.first

/-- **When the daemon knows its peer**: key ids that are accepted otherwise than by the fingerprint
leave `tco->id` as it was. -/
theorem peer_identified_iff (tco : TconnConnectOne) (ids : KeyIds) :
    PeerIdentified tco ids ↔
      (Acceptable tco ids → tco.fpType = .matching ∨ tco.id = ids.first) := by
  have hid : (verifyKeyIds tco ids).1.ret = 0 →
      ((verifyKeyIds tco ids).2.handshakeDone = ids.first ↔
        tco.fpType = .matching ∨ tco.id = ids.first) := by
    intro hret
    rw [verifyKeyIds_id hret]
    split_ifs with ht
    · simp [ht]
    · simp [ht]
  constructor
  · intro h hacc
    have hret := verifyKeyIds_ret.mpr hacc
    exact (hid hret).mp (h.id hret)
  · intro h
    have hfirst : (verifyKeyIds tco ids).1.ret = 0 →
        (verifyKeyIds tco ids).2.handshakeDone = ids.first :=
      fun hret => (hid hret).mpr (h (verifyKeyIds_ret.mp hret))
    refine ⟨verifyKeyIds_ret, hfirst, fun sign d e c d' es hrun hk => ?_⟩
    obtain ⟨hret, hkept⟩ := handshake_peer hrun hk
    exact hfirst hret ▸ hkept

/-- A connect entry without a fingerprint, from `calloc`, and a peer with a key id: the connection
is made with the peer whose id is 0. -/
theorem peer_identified_any : ¬ ∀ tco ids, PeerIdentified tco ids := by
  intro h
  have hany := (h ⟨.any, zeroId, none, zeroId⟩ ⟨[samplePeer], by simp⟩).id rfl
  exact absurd hany (by decide)

end Dvpn
