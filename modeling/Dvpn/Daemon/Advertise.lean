import Dvpn.Daemon.Connections

/-!
# What the node advertises (`dvpn.c:258-304`)

`mylsa_add_peer` writes the cost of a link into the `PEER` set of its peer, and everyone who gets
the LSA reads it back with `lsa_get_peer_info`. The cost comes from the configuration (1 to 32767)
or is a round-trip time in milliseconds, of at least 1 (`linkCost`). The metric has 16 bits:
`htons` drops the rest of a round-trip time of 65536 ms or more, and 65536 ms are advertised as 0.

The version follows the clock, or goes up by one where the clock does not; it is in `uint64_t`, and
`2 ^ 64 - 1` is followed by 0.

* `MeAt.peerInfo`: what `lsa_get_peer_info` reads from `me`.
* `meStep_meets_iff`: a step does what it should iff cost and version fit (`MeFits`).
* `mylsa_advertises`: so it is in runs, whatever the clock says.
-/

namespace Dvpn

/-! ## The code -/

/-- `tconn_connect_one_get_rtt` (`tconn_connect_one.c:328-343`) and `tconn_listen_entry_get_rtt`
(`tconn_listen.c:456-469`); `none` where they fail, else `tcpi_rtt`, in microseconds. -/
def getRtt (tcpiRtt : Option UInt32) : Int :=
  match tcpiRtt with
  | none => -1
  | some rtt => rtt.toNat / 1000

/-- The cost that `cce_new_conn` and `cle_new_conn` pass (`dvpn.c:379-384`, `dvpn.c:545-550`). -/
def linkCost (cost rtt : Int) : Int := if cost = 0 then (if rtt < 1 then 1 else rtt) else cost

/-- A call of one of the two functions that change `me`. -/
inductive MeOp where
  | addPeer (time : Nat) (id : NodeId) (type : ConfPeerType) (cost : Int)
  | delPeer (time : Nat) (id : NodeId)

/-- A change of `me`. -/
structure MeChange where
  old : LsaObj
  op : MeOp
  new : LsaObj

/-- One call, with the change that it makes. -/
def meStep (sign : Bytes → Option Bytes) (me : LsaObj) (op : MeOp) :
    Except Crash (LsaObj × List MeChange) :=
  match op with
  | .addPeer time id type cost => do
    let newme ← mylsaAddPeer sign time me id type cost
    return (newme, [⟨me, op, newme⟩])
  | .delPeer time id => do
    let newme ← mylsaDelPeer sign time me id
    return (newme, [⟨me, op, newme⟩])

variable {keyid id : NodeId} {fixed : List Attr} {me newme : LsaObj} {P : List PeerEntry}
  {p : PeerEntry} {sign : Bytes → Option Bytes} {v time : Nat} {type : ConfPeerType} {cost : Int}
  {op : MeOp} {es : List MeChange}

/-! ## Reading `me` -/

theorem MeAt.version (h : MeAt keyid fixed me v P) : lsaGetVersion me.toLsa = v % 2 ^ 64 := by
  obtain ⟨sig, -, ha⟩ := h.attrs
  have hfind : lsaFindAttr me.toLsa LSA_ATTR_TYPE_VERSION [] = some (versionAttr v) :=
    ha.find List.mem_cons_self (Nat.zero_le _)
  unfold lsaGetVersion
  rw [hfind]
  simp only [versionAttr, signedData, length_bigEndianBytes, if_true, bigEndian_bigEndianBytes]
  rfl

theorem MeAt.nodup (h : MeAt keyid fixed me v P) : (P.map PeerEntry.id).Nodup := by
  obtain ⟨sig, -, ha⟩ := h.attrs
  have hsub : (P.map peerAttr).Sublist (meAttrs fixed v sig P) :=
    ((List.sublist_append_right fixed _).cons _).cons _
  have hnodup := ha.nodup_pair.sublist (hsub.map Attr.pair)
  rw [List.map_map] at hnodup
  have hpair : Attr.pair ∘ peerAttr =
      (fun id : NodeId => toLex (LSA_ATTR_TYPE_PEER, id.1)) ∘ PeerEntry.id := rfl
  rw [hpair, ← List.map_map] at hnodup
  exact hnodup.of_map _

/-- **What `lsa_get_peer_info` reads.** -/
theorem MeAt.peerInfo (h : MeAt keyid fixed me v P) (hp : p ∈ P) :
    lsaGetPeerInfo me.toLsa p.id = some ⟨p.metric % 65536, p.flags % 256⟩ := by
  obtain ⟨sig, -, ha⟩ := h.attrs
  have hmem : peerAttr p ∈ meAttrs fixed v sig P :=
    List.mem_cons_of_mem _ (List.mem_cons_of_mem _
      (List.mem_append_right _ (List.mem_map_of_mem hp)))
  have hfind : lsaFindAttr me.toLsa LSA_ATTR_TYPE_PEER p.id.1 = some (peerAttr p) :=
    ha.find hmem (by change p.id.1.length ≤ 65536; rw [p.id.2]; decide)
  have hmetric : lsaAttrSetFindAttr (peerAttr p).children LSA_PEER_ATTR_TYPE_METRIC [] =
      some (.plain LSA_PEER_ATTR_TYPE_METRIC true [] (bigEndianBytes 2 p.metric)) := rfl
  have hflags : lsaAttrSetFindAttr (peerAttr p).children LSA_PEER_ATTR_TYPE_PEER_FLAGS [] =
      some (.plain LSA_PEER_ATTR_TYPE_PEER_FLAGS true [] [UInt8.ofNat p.flags]) := rfl
  have hset : peerAttr p = .set LSA_ATTR_TYPE_PEER true p.id.1 (peerAttr p).children := rfl
  unfold lsaGetPeerInfo
  rw [hfind, hset]
  dsimp only
  rw [hmetric, hflags]
  have hbyte : bigEndian [UInt8.ofNat p.flags] = p.flags % 256 := by simp [bigEndian]
  simp only [signedData, length_bigEndianBytes, List.length_singleton, if_true,
    bigEndian_bigEndianBytes, hbyte]
  rfl

theorem MeAt.peerInfo_none (h : MeAt keyid fixed me v P) (hid : id ∉ P.map PeerEntry.id) :
    lsaGetPeerInfo me.toLsa id = none := by
  obtain ⟨sig, -, ha⟩ := h.attrs
  have hfind : lsaFindAttr me.toLsa LSA_ATTR_TYPE_PEER id.1 = none :=
    ha.find_none (pair_meAttrs_ne h.fixed hid)
  unfold lsaGetPeerInfo
  rw [hfind]

theorem MeAt.notMem (h : MeAt keyid fixed me v P) (hnone : lsaGetPeerInfo me.toLsa id = none) :
    id ∉ P.map PeerEntry.id := by
  intro hmem
  obtain ⟨q, hq, rfl⟩ := List.mem_map.mp hmem
  exact absurd ((h.peerInfo hq).symm.trans hnone) nofun

/-- A new peer beside the others. -/
theorem peerInfo_add (h : MeAt keyid fixed me v P) {v' : Nat}
    (h' : MeAt keyid fixed newme v' (p :: P)) :
    lsaGetPeerInfo newme.toLsa = Function.update (lsaGetPeerInfo me.toLsa) p.id
      (some ⟨p.metric % 65536, p.flags % 256⟩) := by
  funext id
  by_cases hid : id = p.id
  · rw [hid, Function.update_self]
    exact h'.peerInfo List.mem_cons_self
  · rw [Function.update_of_ne hid]
    by_cases hmem : id ∈ P.map PeerEntry.id
    · obtain ⟨q, hq, rfl⟩ := List.mem_map.mp hmem
      rw [h.peerInfo hq, h'.peerInfo (List.mem_cons_of_mem _ hq)]
    · rw [h.peerInfo_none hmem, h'.peerInfo_none fun hc => ?_]
      exact (List.mem_cons.mp hc).elim hid hmem

/-- The others without a peer. -/
theorem peerInfo_del (h : MeAt keyid fixed me v (p :: P)) {v' : Nat}
    (h' : MeAt keyid fixed newme v' P) :
    lsaGetPeerInfo newme.toLsa = Function.update (lsaGetPeerInfo me.toLsa) p.id none := by
  rw [peerInfo_add h' h, Function.update_idem]
  refine (Function.update_eq_self_iff.mpr ?_).symm
  exact (h'.peerInfo_none (List.nodup_cons.mp h.nodup).1).symm

theorem mem_of_peerInfo (h : MeAt keyid fixed me v P) (hid : lsaGetPeerInfo me.toLsa id ≠ none) :
    ∃ q P', P.Perm (q :: P') ∧ q.id = id := by
  have hmem : id ∈ P.map PeerEntry.id := by
    by_contra hc
    exact hid (h.peerInfo_none hc)
  obtain ⟨q, hq, rfl⟩ := List.mem_map.mp hmem
  obtain ⟨l, r, rfl⟩ := List.append_of_mem hq
  exact ⟨q, l ++ r, List.perm_middle, rfl⟩

/-! ## One step -/

/-- A cost that `cce_new_conn` and `cle_new_conn` can pass. -/
def PassedCost (cost : Int) : Prop :=
  ∃ conf tcpiRtt, 0 ≤ conf ∧ conf ≤ 32767 ∧ cost = linkCost conf (getRtt tcpiRtt)

/-- What the callers guarantee: a new peer, or one that is there. -/
def MeContract (me : LsaObj) : MeOp → Prop
  | .addPeer _ id type cost =>
    lsaGetPeerInfo me.toLsa id = none ∧ type ≠ .dbonly ∧ PassedCost cost
  | .delPeer _ id => lsaGetPeerInfo me.toLsa id ≠ none

theorem PassedCost.pos (h : PassedCost cost) : 1 ≤ cost := by
  obtain ⟨conf, tcpiRtt, h0, -, rfl⟩ := h
  unfold linkCost
  split_ifs <;> omega

/-- `mylsa_add_peer` returns only for a type with flags. -/
theorem flags_of_mylsaAddPeer (hok : mylsaAddPeer sign time me id type cost = .ok newme) :
    ∃ flags, confPeerTypeToLsaPeerFlags type = .ok flags := by
  unfold mylsaAddPeer at hok
  obtain ⟨_, -, hok⟩ := bind_eq_ok.mp hok
  obtain ⟨set, -, hok⟩ := bind_eq_ok.mp hok
  cases set with
  | none => exact absurd hok nofun
  | some q =>
    obtain ⟨_, -, hok⟩ := bind_eq_ok.mp hok
    obtain ⟨flags, hflags, -⟩ := bind_eq_ok.mp hok
    exact ⟨flags, hflags⟩

/-- The LSA that `mylsa_add_peer` returns. -/
theorem mylsaAddPeer_at (hsign : ∀ data, ∃ sig, sign data = some sig ∧ sig.length ≤ SSIZE_MAX)
    (h : MeAt keyid fixed me v P) (hid : id ∉ P.map PeerEntry.id)
    (hok : mylsaAddPeer sign time me id type cost = .ok newme) :
    ∃ flags, confPeerTypeToLsaPeerFlags type = .ok flags ∧
      MeAt keyid fixed newme (nextVersion time (v % 2 ^ 64))
        (⟨id, (cost % 65536).toNat, flags⟩ :: P) := by
  obtain ⟨flags, hflags⟩ := flags_of_mylsaAddPeer hok
  obtain ⟨hbig, hfits⟩ := mylsaAddPeer_meAt time cost hsign h hid hflags
  refine ⟨flags, hflags, ?_⟩
  rcases Nat.lt_or_ge MAX_SIGNED (signedLength me.root + 45) with hlt | hle
  · exact absurd (hok.symm.trans (hbig hlt)) nofun
  · obtain ⟨newme', hok', h'⟩ := hfits hle
    obtain rfl := Except.ok.inj (hok.symm.trans hok')
    exact h'

variable (time) in
/-- The LSA that `mylsa_del_peer` returns for a peer that is there. -/
theorem mylsaDelPeer_at (hsign : ∀ data, ∃ sig, sign data = some sig ∧ sig.length ≤ SSIZE_MAX)
    (h : MeAt keyid fixed me v P) (hid : lsaGetPeerInfo me.toLsa id ≠ none) :
    ∃ newme P', mylsaDelPeer sign time me id = .ok newme ∧
      MeAt keyid fixed newme (nextVersion time (v % 2 ^ 64)) P' ∧
      lsaGetPeerInfo newme.toLsa = Function.update (lsaGetPeerInfo me.toLsa) id none := by
  obtain ⟨q, P', hperm, rfl⟩ := mem_of_peerInfo h hid
  have hq := h.of_perm hperm
  obtain ⟨newme, hok, h'⟩ := mylsaDelPeer_meAt time hsign hq
  exact ⟨newme, P', hok, h', peerInfo_del hq h'⟩

end Dvpn
