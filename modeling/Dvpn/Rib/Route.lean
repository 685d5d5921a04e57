import Dvpn.Rib.AdjRibInRun
import Dvpn.Rib.LocRibRun

/-!
# Routes (`lsa_path_cost` in `loc_rib.c`)

`lsa_path_cost` walks from the node's own LSA over the hops of an `ADV_PATH`, in the most recent
LSA of each, and gives up where two neighbours on the path do not have each other as a peer. A cost
below `RIB_COST_UNREACHABLE` therefore means a chain of linked nodes (`Linked`), from `myid` to the
last hop. Neither this walk nor `map` in `adj_rib_in.c` compares the last hop with the id of the
LSA: which node a path ends at is left to the neighbour that sends it.

* `findRecentLsa_spec`: the LSA that a hop is looked up in has the highest version of its entry.
* `pathCost_chain`: a cost below `RIB_COST_UNREACHABLE` is the cost of a chain.
* `route_chain`: so it is in every run with accepted LSAs, and an empty path is the node's own.
* `route_ends_elsewhere`: a path with a usable cost that does not end at the LSA's node.
-/

namespace Dvpn

variable {rib : LocRib} {rid : LocRibId} {lsa : LsaPtr} {id : NodeId} {cost : Nat}

/-! ## Links -/

/-- A signed `PEER` set of the LSA names `id`. -/
def ListsPeer (lsa : Lsa) (id : NodeId) : Prop :=
  ∃ attrs, Attr.set LSA_ATTR_TYPE_PEER true id.1 attrs ∈ lsa.root

/-- Two nodes have each other as a peer in their most recent LSAs. -/
def Linked (rib : LocRib) (a b : NodeId) : Prop :=
  ∃ p q, findRecentLsa rib a = some p ∧ findRecentLsa rib b = some q ∧
    ListsPeer p.lsa b ∧ ListsPeer q.lsa a

/-- The hops of the `ADV_PATH`. -/
def Lsa.hops (lsa : Lsa) : List NodeId :=
  (lsa.advPath.map fun attr => nodeIds attr.pathData).getD []

theorem listsPeer_of_info {lsa : Lsa} {info : LsaPeerInfo} (h : lsaGetPeerInfo lsa id = some info) :
    ListsPeer lsa id := by
  unfold lsaGetPeerInfo at h
  cases ha : lsaFindAttr lsa LSA_ATTR_TYPE_PEER id.1 with
  | none => simp [ha] at h
  | some attr =>
    obtain ⟨hm, htype, hkey⟩ := lsaAttrSetFindAttr_sound ha
    cases attr with
    | plain => simp [ha] at h
    | set t s k attrs =>
      cases s with
      | false => simp [ha] at h
      | true =>
        simp only [Attr.type, Attr.key] at htype hkey
        exact ⟨attrs, htype ▸ hkey ▸ hm⟩

/-- **`find_recent_lsa`** finds an LSA of the node, and none there has a higher version. -/
theorem findRecentLsa_spec (hi : rib.Inv) (h : findRecentLsa rib id = some lsa) :
    lsa ∈ (rib.entry id).ptrs ∧ lsa.lsa.id = id ∧
      ∀ p ∈ (rib.entry id).ptrs, lsaGetVersion p.lsa ≤ lsaGetVersion lsa.lsa := by
  obtain ⟨hr, hid⟩ := hi.entry id
  obtain ⟨hlast, _⟩ := findRecentLsa_eq_some.mp h
  have hm := List.mem_of_getLast? hlast
  refine ⟨hm, (hr.ids lsa (List.mem_append_left _ hm)).trans hid, fun p hp => ?_⟩
  have hs : Avl.Sorted LsaPtr.key (rib.entry id).ptrs := List.pairwise_map.mpr hr.sorted
  have hle := Avl.le_of_getLast hs hlast hp
  rw [LsaPtr.key, LsaPtr.key, Prod.Lex.toLex_le_toLex] at hle
  omega

/-! ## The walk -/

theorem pathCostLoop_chain (hi : rib.Inv) {hops : List NodeId} {from' : LsaPtr} {tt : Bool}
    {cost' : Nat} (hfrom : findRecentLsa rib id = some from')
    (h : pathCostLoop rib hops (some from'.lsa) tt cost' < RIB_COST_UNREACHABLE) :
    (id :: hops).IsChain (Linked rib) := by
  induction hops generalizing id from' tt cost' with
  | nil => exact .singleton id
  | cons hop hops ih =>
    unfold pathCostLoop at h
    cases hto : findRecentLsa rib hop with
    | none =>
      rw [hto] at h
      exact absurd h (lt_irrefl _)
    | some to' =>
      have hfromid := (findRecentLsa_spec hi hfrom).2.1
      have htoid := (findRecentLsa_spec hi hto).2.1
      simp only [hto, hfromid, htoid] at h
      cases hf : lsaGetPeerInfo from'.lsa hop with
      | none =>
        simp only [hf] at h
        exact absurd h (lt_irrefl _)
      | some forward =>
        cases hr : lsaGetPeerInfo to'.lsa id with
        | none =>
          simp only [hf, hr] at h
          exact absurd h (lt_irrefl _)
        | some reverse =>
          refine List.isChain_cons_cons.mpr
            ⟨⟨from', to', hfrom, hto, listsPeer_of_info hf, listsPeer_of_info hr⟩, ?_⟩
          -- the walk goes on from `to'` unless the transit rules end it
          simp only [hf, hr] at h
          split_ifs at h
          · exact ih hto h
          · exact absurd h (lt_irrefl _)
          · exact absurd h (lt_irrefl _)
          · exact ih hto h

/-- **A cost below `RIB_COST_UNREACHABLE` is the cost of a chain** from `myid` over the hops of the
path. -/
theorem pathCost_chain {lsa : Lsa} {myid : NodeId} (hi : rib.Inv) (hmyid : rib.myid = some myid)
    (hlen : ∀ attr, lsa.advPath = some attr → attr.datalen ≤ INT_MAX)
    (h : lsaPathCost rib rid lsa = .ok cost) (hc : cost < RIB_COST_UNREACHABLE) :
    (myid :: lsa.hops).IsChain (Linked rib) := by
  unfold lsaPathCost at h
  split_ifs at h
  · obtain rfl := Except.ok.inj h
    exact absurd hc (by decide)
  · cases ha : lsa.advPath with
    | none => simp [ha] at h
    | some attr =>
      have hread : attr.pathData.take (toInt attr.datalen).toNat = attr.pathData := by
        rw [toInt_of_le (Int.natCast_nonneg _) (Int.ofNat_le.mpr (hlen attr ha)), Int.toNat_natCast]
        cases attr with
        | plain t s k d => exact List.take_length
        | set t s k l => rfl
      have hhops : lsa.hops = nodeIds attr.pathData := by rw [Lsa.hops, ha]; rfl
      simp only [ha, hmyid, hread] at h
      split_ifs at h
      cases hfrom : findRecentLsa rib myid with
      | none =>
        simp only [hfrom, pure_eq_ok, Except.ok.injEq] at h
        subst h
        exact absurd hc (lt_irrefl _)
      | some from' =>
        simp only [hfrom, pure_eq_ok, Except.ok.injEq] at h
        subst h
        exact hhops ▸ pathCostLoop_chain hi hfrom hc

/-! ## Runs -/

/-- The node's own LSA. -/
def Own (myid : NodeId) (lsa : Lsa) : Prop :=
  lsa.id = myid ∧ ∃ attr, lsa.advPath = some attr ∧ attr.datalen = 0

/-- An LSA that the `adj_rib_in` of some neighbour received and accepts. -/
def FromNeighbour (c : Crypto) (myid : NodeId) (lsa : LsaPtr) : Prop :=
  Received lsa.lsa ∧ ∃ remoteid, accepted c (some myid) (some remoteid) lsa = true

/-- The contract, with the node's own LSA and what its neighbours sent. -/
def RouteContract (c : Crypto) (myid : NodeId) (rib : LocRib) (op : LocOp) : Prop :=
  LocContract rib op ∧ ∀ lsa, op.put = some lsa → Own myid lsa.lsa ∨ FromNeighbour c myid lsa

variable {c : Crypto} {myid : NodeId} {ops : List LocOp} {es : List RibEvent}

/-- An attribute of a received LSA is short. -/
theorem datalen_of_wellformed {lsa : Lsa} {attr : Attr} (h : Wellformed lsa)
    (ha : lsa.advPath = some attr) : attr.datalen ≤ INT_MAX := by
  have hle := wire_length_le_of_mem (advPath_mem ha)
  have hwire := h.wire
  have hmax : INT_MAX = 2 ^ 31 - 1 := rfl
  cases attr with
  | set t s k l =>
    simp only [Attr.datalen, Attr.sizeofAttrSet]
    omega
  | plain t s k d =>
    simp only [Attr.wire, List.length_append] at hle
    simp only [Attr.datalen]
    omega

theorem nodeIds_ne_nil {data : Bytes} (h : NODE_ID_LEN ≤ data.length) : nodeIds data ≠ [] := by
  intro hnil
  have hlen := congrArg List.length hnil
  rw [length_nodeIds, List.length_nil] at hlen
  unfold NODE_ID_LEN at h hlen
  omega

/-- A neighbour's LSA has a path. -/
theorem hops_ne_nil (h : FromNeighbour c myid lsa) : lsa.lsa.hops ≠ [] := by
  obtain ⟨_, remoteid, hacc⟩ := h
  obtain ⟨attr, _, ha, _, hlen, _⟩ := accepted_path hacc
  rw [Lsa.hops, ha]
  cases attr with
  | plain t s k d => exact nodeIds_ne_nil hlen
  | set t s k l =>
    simp only [Attr.datalen, Attr.sizeofAttrSet, NODE_ID_LEN] at hlen
    omega

theorem run_myid {contract : LocRib → LocOp → Prop} {myid : Option NodeId}
    (hw : ∀ rib op, contract rib op → LocContract rib op)
    (h : LocRun contract myid ops rib es) : rib.myid = myid := by
  have hinv : rib.Inv ∧ rib.myid = myid :=
    h.invariant (fun _ rib _ => rib.Inv ∧ rib.myid = myid) ⟨locRibInit_inv myid, rfl⟩ ?_
  · exact hinv.2
  · intro ops rib es op rib' es' hi hc hs
    refine ⟨(locStep_inv hi.1 (hw _ _ hc) hs).1, ?_⟩
    rcases (locStep_inv hi.1 (hw _ _ hc) hs).2 with ⟨_, _, _, _, hup, _⟩ |
      ⟨_, _, _, _, _, _, hup, _⟩ | ⟨_, _, _, _, hup, _⟩ | ⟨_, hspec⟩
    · exact hup.myid.trans hi.2
    · exact hup.myid.trans hi.2
    · exact hup.myid.trans hi.2
    · exact hspec.same.myid.trans hi.2

/-- **Usable costs are costs of chains.** In every run with the node's own LSA and what its
neighbours sent, a cost below `RIB_COST_UNREACHABLE` means that `myid` and the hops of the path are
a chain of linked nodes; and only the node's own LSA has no hops. -/
theorem route_chain (h : LocRun (RouteContract c myid) (some myid) ops rib es) :
    ∀ rid ∈ rib.ids, ∀ lsa ∈ rid.ptrs, ∀ cost, lsaPathCost rib rid lsa.lsa = .ok cost →
      cost < RIB_COST_UNREACHABLE →
      (myid :: lsa.lsa.hops).IsChain (Linked rib) ∧ (lsa.lsa.hops = [] → myid = lsa.lsa.id) := by
  intro rid hrid lsa hlsa cost hcost hlt
  have hi : rib.Inv := LocRun.inv (h.mono fun _ _ hc => hc.1)
  have hput : Own myid lsa.lsa ∨ FromNeighbour c myid lsa := by
    refine LocRun.forall_held (fun _ _ hc => hc) h rid.id lsa ?_
    rw [entry_of_mem hi.sorted hrid]
    exact List.mem_append_left _ hlsa
  have hlen : ∀ attr, lsa.lsa.advPath = some attr → attr.datalen ≤ INT_MAX := by
    intro attr ha
    rcases hput with ⟨_, attr', ha', h0⟩ | ⟨hrec, _⟩
    · obtain rfl := Option.some.inj (ha.symm.trans ha')
      omega
    · exact datalen_of_wellformed hrec.wellformed ha
  refine ⟨pathCost_chain hi (run_myid (fun _ _ hc => hc.1) h) hlen hcost hlt, fun hnil => ?_⟩
  rcases hput with ⟨hid, _⟩ | hfrom
  · exact hid.symm
  · exact absurd hnil (hops_ne_nil hfrom)

/-! ## A path that ends elsewhere

M and P are neighbours. P sends the LSA of X with itself as the only hop. -/

/-- The own LSA of M. -/
def lsaM : LsaPtr where
  addr := 2
  lsa := .ofAttrs idM [.plain LSA_ATTR_TYPE_ADV_PATH false [] [],
    .set LSA_ATTR_TYPE_PEER true idP.1 [.plain LSA_PEER_ATTR_TYPE_METRIC true [] [0, 1]]]

/-- The LSA of P with P as its path. -/
def lsaP : LsaPtr := relayed 3 idP [idP] signedP signatureP

theorem fromNeighbour_lsaP : FromNeighbour sampleCrypto idM lsaP :=
  ⟨received_ofAttrs idP (by decide +kernel) (by decide +kernel) (by decide +kernel)
    (by decide +kernel), idP, by decide +kernel⟩

theorem fromNeighbour_lsaX : FromNeighbour sampleCrypto idM lsaX :=
  ⟨received_lsaX, idP, accepted_lsaX⟩

/-- An entry with one LSA that has no version. -/
def soleEntry (lsa : LsaPtr) : LocRibId :=
  { LocRibId.new lsa.lsa.id with lsas := [⟨lsa, 0⟩] }

/-- The RIB of M with entries of one LSA. -/
def ribOfM (lsas : List LsaPtr) : LocRib := { myid := some idM, ids := lsas.map soleEntry }

theorem fresh_ribOfM {lsas : List LsaPtr} (h : ∀ p ∈ lsas, p.addr ≠ lsa.addr) :
    (ribOfM lsas).Fresh lsa := by
  intro rid hm p hp
  obtain ⟨q, hq, rfl⟩ := List.mem_map.mp hm
  obtain rfl : p = q := by simpa [soleEntry, LocRibId.held, LocRibId.ptrs, LocRibId.new] using hp
  exact h p hq

/-- M has its own LSA, that of P, and that of X. -/
theorem run_ribOfM : LocRun (RouteContract sampleCrypto idM) (some idM)
    [.add lsaM, .add lsaP, .add lsaX] (ribOfM [lsaX, lsaP, lsaM]) [] := by
  have h1 : locStep (ribOfM []) (.add lsaM) = .ok (ribOfM [lsaM], []) := rfl
  have h2 : locStep (ribOfM [lsaM]) (.add lsaP) = .ok (ribOfM [lsaP, lsaM], []) := rfl
  have h3 : locStep (ribOfM [lsaP, lsaM]) (.add lsaX) = .ok (ribOfM [lsaX, lsaP, lsaM], []) := rfl
  have hown : Own idM lsaM.lsa := ⟨rfl, .plain LSA_ATTR_TYPE_ADV_PATH false [] [], rfl, rfl⟩
  have hput : ∀ {rib lsa}, rib.Fresh lsa → Own idM lsa.lsa ∨ FromNeighbour sampleCrypto idM lsa →
      RouteContract sampleCrypto idM rib (.add lsa) := fun hf ho =>
    ⟨hf, fun p hp => by
      obtain rfl := Option.some.inj hp
      exact ho⟩
  have hc1 : RouteContract sampleCrypto idM (ribOfM []) (.add lsaM) :=
    hput (fresh_ribOfM fun p hp => absurd hp List.not_mem_nil) (Or.inl hown)
  have hc2 : RouteContract sampleCrypto idM (ribOfM [lsaM]) (.add lsaP) :=
    hput (fresh_ribOfM (by simp [lsaM, lsaP, relayed])) (Or.inr fromNeighbour_lsaP)
  have hc3 : RouteContract sampleCrypto idM (ribOfM [lsaP, lsaM]) (.add lsaX) :=
    hput (fresh_ribOfM (by simp [lsaM, lsaP, lsaX, relayed])) (Or.inr fromNeighbour_lsaX)
  exact .snoc (.snoc (.snoc .nil hc1 h1) hc2 h2) hc3 h3

/-- **A usable cost for a path that ends elsewhere**: the LSA of X costs 1, and its path ends
at P. -/
theorem route_ends_elsewhere : ∃ rib es rid lsa cost,
    LocRun (RouteContract sampleCrypto idM) (some idM) [.add lsaM, .add lsaP, .add lsaX] rib es ∧
      rid ∈ rib.ids ∧ lsa ∈ rid.ptrs ∧ lsaPathCost rib rid lsa.lsa = .ok cost ∧
      cost < RIB_COST_UNREACHABLE ∧ (idM :: lsa.lsa.hops).getLast? ≠ some lsa.lsa.id :=
  ⟨_, _, soleEntry lsaX, lsaX, 1, run_ribOfM, List.mem_cons_self, List.mem_cons_self,
    by decide +kernel, by decide, by decide +kernel⟩

/-- The path of the LSA of P is a link. -/
theorem route_chain_lsaP : (idM :: lsaP.lsa.hops).IsChain (Linked (ribOfM [lsaX, lsaP, lsaM])) :=
  (route_chain run_ribOfM (soleEntry lsaP) (List.mem_cons_of_mem _ List.mem_cons_self) lsaP
    List.mem_cons_self 1 (by decide +kernel) (by decide)).1

end Dvpn
