import Dvpn.Rib.AdjRibInRun

/-!
# The quota of a peer (`ADJ_RIB_IN_MAX_BYTES` in `adj_rib_in.c`)

`adj_rib_in_add_lsa` tests an LSA against the quota with `size`, and stores it whether `map`
accepts it or not; `notify` adds to `size` only what `map` accepts (`adj_rib_in.c:185-191`). An LSA
that is stored and not accepted is not counted.

* `bytesOf_eq`: what the RIB holds is what it counts and what it does not count.
* `quota_held`: the quota holds in every run that stores accepted LSAs only (`Counted`).
* `quota_exceeded`: seventeen LSAs that are not accepted exceed it.
-/

namespace Dvpn

variable {c : Crypto} {rib rib' : AdjRibIn} {op : AdjOp} {ops : List AdjOp}
  {es es' : List RibEvent} {myid remoteid : Option NodeId} {lsa : LsaPtr}

/-- The LSAs that the RIB holds and does not count. -/
def AdjRibIn.uncounted (c : Crypto) (rib : AdjRibIn) : List LsaPtr :=
  rib.lsas.filter fun p => !rib.accepted c p

/-- What the RIB holds is what it counts and what it does not count. -/
theorem bytesOf_eq (hi : rib.Inv c) : (bytesOf rib.lsas : Int) =
    rib.size + bytesOf (rib.uncounted c) := by
  have hp := List.filter_append_perm (rib.accepted c) rib.lsas
  rw [hi.size, ← bytesOf_perm hp, bytesOf_append, Nat.cast_add]
  rfl

/-- The call stores no LSA that `map` rejects: there is nothing in the LSA, the test against the
quota refuses it, it does not differ from the one that is there, or `map` accepts it. -/
def Counted (c : Crypto) (rib : AdjRibIn) : AdjOp → Prop
  | .addLsa lsa => lsa.lsa.root = [] ∨ rib.overflows lsa.lsa ∨
      (∃ ref, adjRibInFindRef rib lsa.lsa.id = some ref ∧
        lsaDiff (some ref.lsa) (some lsa.lsa) = .ok 0) ∨
      rib.accepted c lsa = true
  | .truncate _ => True

/-- The contract, with calls that store no LSA that `map` rejects. -/
def AdjContractCounted (c : Crypto) (rib : AdjRibIn) (op : AdjOp) : Prop :=
  AdjContract rib op ∧ Counted c rib op

/-- **A counted step leaves nothing uncounted.** -/
theorem adjStep_counted (hi : rib.Inv c) (hc : AdjContractCounted c rib op)
    (h : adjStep c rib op = .ok (rib', es)) (hall : ∀ p ∈ rib.lsas, rib.accepted c p = true) :
    ∀ p ∈ rib'.lsas, rib'.accepted c p = true := by
  obtain ⟨hc, hcount⟩ := hc
  rcases adjStep_inv hi hc h with ⟨lsa, rfl, hout⟩ | ⟨_, _, _, hnil⟩
  · cases hout with
    | ignored | same => exact hall
    | removed _ hup =>
      intro p hp
      rw [hup.accepted]
      rcases (hup.mem hi).mp hp with hn | ⟨hm, _⟩
      · exact absurd hn (by simp)
      · exact hall p hm
    | @stored old rib' es hroot hover hdiff hup =>
      have hacc : rib.accepted c lsa = true := by
        rcases hcount with h | h | ⟨ref, hf, h⟩ | h
        · exact absurd h hroot
        · exact absurd h hover
        · exact absurd h (hdiff ref (hup.find.symm.trans hf))
        · exact h
      intro p hp
      rw [hup.accepted]
      rcases (hup.mem hi).mp hp with hn | ⟨hm, _⟩
      · exact Option.some.inj hn ▸ hacc
      · exact hall p hm
  · intro p hp
    rw [hnil] at hp
    exact absurd hp List.not_mem_nil

/-- **When the quota holds.** In every run whose calls store no LSA that `map` rejects, the LSAs
that the RIB holds take at most `ADJ_RIB_IN_MAX_BYTES`. -/
theorem quota_held (h : AdjRun c (AdjContractCounted c) myid remoteid ops rib es) :
    bytesOf rib.lsas ≤ ADJ_RIB_IN_MAX_BYTES := by
  have hinv : rib.Inv c ∧ ∀ p ∈ rib.lsas, rib.accepted c p = true :=
    h.invariant (fun _ rib _ => rib.Inv c ∧ ∀ p ∈ rib.lsas, rib.accepted c p = true)
      ⟨adjRibInInit_inv c myid remoteid, fun p hp => absurd hp List.not_mem_nil⟩
      fun hi hc hs => ⟨(adjStep_follows hi.1 hc.1 hs).inv, adjStep_counted hi.1 hc hs hi.2⟩
  obtain ⟨hi, hall⟩ := hinv
  have hnone : rib.uncounted c = [] :=
    List.filter_eq_nil_iff.mpr fun p hp => by simp [hall p hp]
  have heq := bytesOf_eq hi
  have hquota := hi.quota
  rw [hnone, bytesOf_nil] at heq
  omega

/-- One LSA that is accepted is within the quota. -/
theorem quota_held_lsaX : ∃ rib es,
    AdjRun sampleCrypto AdjContract (some idM) (some idP) [.addLsa lsaX] rib es ∧
      bytesOf rib.lsas ≤ ADJ_RIB_IN_MAX_BYTES := by
  have hc : AdjContract (adjRibInInit (some idM) (some idP)) (.addLsa lsaX) := received_lsaX
  have hcount : Counted sampleCrypto (adjRibInInit (some idM) (some idP)) (.addLsa lsaX) :=
    Or.inr (Or.inr (Or.inr accepted_lsaX))
  obtain ⟨⟨rib, es⟩, hrun⟩ :=
    adjStep_isOk (adjRibInInit_inv sampleCrypto (some idM) (some idP)) hc
  exact ⟨rib, _, .snoc .nil hc hrun, quota_held (.snoc .nil ⟨hc, hcount⟩ hrun)⟩

/-! ## Seventeen large LSAs -/

/-- The bytes of the attribute of a large LSA. -/
def bulk : Nat := 65400

/-- The id that is a number. -/
def smallId (k : Nat) : NodeId := ⟨List.replicate 31 0 ++ [UInt8.ofNat k], by simp [NODE_ID_LEN]⟩

/-- An LSA with one large attribute and no `ADV_PATH`. -/
def largeLsa (k : Nat) : LsaPtr where
  addr := k
  lsa := .ofAttrs (smallId k) [.plain 3 false [] (List.replicate bulk 0)]

theorem received_bulk (id : NodeId) {data : Bytes} (h : data.length = bulk) :
    Received (Lsa.ofAttrs id [.plain 3 false [] data]) := by
  have hint : (intBytes bulk).length = 3 ∧ (intBytes 65437).length = 3 := by decide
  have hhead : (headWire 3 false false []).length = 2 := by decide
  have hwire : (attrsWire [.plain 3 false [] data]).length = 65405 := by
    simp only [attrsWire, Attr.wire, List.length_append, List.length_nil, hhead, h, hint.1]
    unfold bulk
    omega
  have hid : NODE_ID_LEN = 32 := rfl
  refine received_ofAttrs id ⟨List.pairwise_singleton _ _, Avl.sorted_nil, trivial⟩
    ⟨⟨by simp [Attr.type], by simp [Attr.type, INT_MAX]⟩, trivial⟩
    (by simp [attrsDepth, Attr.setDepth]) ?_
  rw [length_lsaWire, hwire, hid, show 32 + 65405 = 65437 by omega, hint.2]
  omega

theorem bytes_bulk (id : NodeId) {data : Bytes} (h : data.length = bulk) :
    (Lsa.ofAttrs id [.plain 3 false [] data]).bytes = 65472 := by
  simp only [Lsa.ofAttrs, attrsSize, Attr.totalSize, Attr.size, Attr.key, Attr.datalen,
    Attr.dataIsAttrSet, h, List.length_nil, ne_eq, not_true_eq_false, if_false,
    Bool.false_eq_true]
  unfold bulk MAX_SERIALISED_INT_LEN NODE_ID_LEN
  omega

theorem received_largeLsa (k : Nat) : Received (largeLsa k).lsa :=
  received_bulk (smallId k) List.length_replicate

theorem bytes_largeLsa (k : Nat) : (largeLsa k).lsa.bytes = 65472 :=
  bytes_bulk (smallId k) List.length_replicate

/-- `map` accepts no LSA of more than `LSA_MAX_BYTES`. -/
theorem not_accepted_of_bytes (h : lsa.lsa.bytes + NODE_ID_LEN > LSA_MAX_BYTES) :
    accepted c myid remoteid lsa = false := by
  unfold accepted accepts
  rw [if_pos h]
  rfl

theorem not_accepted_largeLsa (c : Crypto) (myid remoteid : Option NodeId) (k : Nat) :
    accepted c myid remoteid (largeLsa k) = false := by
  refine not_accepted_of_bytes ?_
  rw [bytes_largeLsa]
  decide

theorem smallId_ne {j k : Nat} (hj : j < k) (hk : k < 256) : smallId j ≠ smallId k := by
  intro h
  have hbytes := congrArg Subtype.val h
  have hlast : UInt8.ofNat j = UInt8.ofNat k := by simpa [smallId] using hbytes
  have hnat := congrArg UInt8.toNat hlast
  rw [UInt8.toNat_ofNat', UInt8.toNat_ofNat', Nat.mod_eq_of_lt (by omega),
    Nat.mod_eq_of_lt (by omega)] at hnat
  omega

/-- A RIB takes LSAs of different ids one after the other, as long as each fits beside what is
counted of those before it. -/
theorem family_run (f : Nat → LsaPtr) (n : Nat)
    (hrec : ∀ k < n, Received (f k).lsa ∧ (f k).lsa.root ≠ [])
    (hids : ∀ k < n, ∀ j < k, (f j).lsa.id ≠ (f k).lsa.id)
    (hfits : ∀ k < n, bytesOf (((List.range k).map f).filter (accepted c myid remoteid)) +
      (f k).lsa.bytes ≤ ADJ_RIB_IN_MAX_BYTES) :
    ∃ rib es, AdjRun c AdjContract myid remoteid
        ((List.range n).map fun k => .addLsa (f k)) rib es ∧
      rib.lsas.Perm ((List.range n).map f) := by
  induction n with
  | zero => exact ⟨_, _, .nil, List.Perm.refl _⟩
  | succ n ih =>
    obtain ⟨rib, es, hr, hp⟩ := ih (fun k hk => hrec k (by omega)) (fun k hk => hids k (by omega))
      fun k hk => hfits k (by omega)
    obtain ⟨hlsa, hroot⟩ := hrec n (Nat.lt_succ_self n)
    have hfollows := AdjRun.follows hr
    have hi := hfollows.inv
    have hsize : rib.size =
        bytesOf (((List.range n).map f).filter (accepted c myid remoteid)) := by
      rw [hi.size, AdjRibIn.acceptedBytes, bytesOf_perm (hp.filter _), AdjRibIn.accepted,
        hfollows.myid, hfollows.remoteid]
      rfl
    have hnone : adjRibInFindRef rib (f n).lsa.id = none := by
      refine (findRef_eq_none hi.sorted).mpr fun p hm => ?_
      obtain ⟨k, hk, rfl⟩ := List.mem_map.mp (hp.mem_iff.mp hm)
      exact hids n (Nat.lt_succ_self n) k (List.mem_range.mp hk)
    have hover : ¬ rib.overflows (f n).lsa := by
      have hfit := hfits n (Nat.lt_succ_self n)
      unfold AdjRibIn.overflows
      rw [hsize]
      unfold ADJ_RIB_IN_MAX_BYTES at *
      omega
    have hstores : ¬ ((f n).lsa.root = [] ∨ rib.overflows (f n).lsa) := not_or.mpr ⟨hroot, hover⟩
    obtain ⟨ret, rib', es', hrun, hout⟩ := addLsa_spec hi hlsa.wellformed
    refine ⟨rib', es ++ es', ?_, ?_⟩
    · rw [List.range_succ, List.map_append]
      exact .snoc hr hlsa (by simp [adjStep, hrun])
    · rw [List.range_succ, List.map_append]
      cases hout with
      | ignored h | removed h => exact absurd h hstores
      | same _ _ hf => exact absurd (hnone.symm.trans hf) (by simp)
      | stored _ _ _ hup =>
        obtain ⟨rest, hold, hnew⟩ := hup.perm
        rw [← hup.find, hnone] at hold
        exact hnew.trans ((List.Perm.cons _ (hold.symm.trans hp)).trans
          (List.perm_append_singleton _ _).symm)

/-- A RIB that counts nothing takes one large LSA after the other. -/
theorem largeLsas_run (c : Crypto) (myid remoteid : Option NodeId) (n : Nat) (hn : n ≤ 256) :
    ∃ rib es, AdjRun c AdjContract myid remoteid
        ((List.range n).map fun k => .addLsa (largeLsa k)) rib es ∧
      rib.lsas.Perm ((List.range n).map largeLsa) := by
  refine family_run largeLsa n (fun k _ => ⟨received_largeLsa k, List.cons_ne_nil _ _⟩)
    (fun k hk j hj => smallId_ne hj (by omega)) fun k _ => ?_
  have hnone : ((List.range k).map largeLsa).filter (accepted c myid remoteid) = [] := by
    refine List.filter_eq_nil_iff.mpr fun p hm => ?_
    obtain ⟨j, -, rfl⟩ := List.mem_map.mp hm
    simp [not_accepted_largeLsa]
  rw [hnone, bytesOf_nil, bytes_largeLsa]
  decide

/-- **The quota is exceeded**: seventeen large LSAs that `map` rejects. -/
theorem quota_exceeded : ∃ rib es, AdjRun sampleCrypto AdjContract (some idM) (some idP)
      ((List.range 17).map fun k => .addLsa (largeLsa k)) rib es ∧
    ¬ bytesOf rib.lsas ≤ ADJ_RIB_IN_MAX_BYTES := by
  obtain ⟨rib, es, hr, hp⟩ :=
    largeLsas_run sampleCrypto (some idM) (some idP) 17 (by decide)
  refine ⟨rib, es, hr, ?_⟩
  have hsum : bytesOf ((List.range 17).map largeLsa) = 17 * 65472 := by
    have hconst : (fun k => (largeLsa k).lsa.bytes) = fun _ => 65472 := funext bytes_largeLsa
    rw [bytesOf, List.map_map]
    change ((List.range 17).map fun k => (largeLsa k).lsa.bytes).sum = _
    rw [hconst]
    rfl
  rw [bytesOf_perm hp, hsum]
  decide

end Dvpn
