import Dvpn.Lsa.RoundTrip
import Dvpn.Rib.AdjRibIn

/-!
# The operations of the RIB of a peer

One lemma for each operation of `Dvpn.Rib.AdjRibIn`, over the invariant `AdjRibIn.Inv`: the LSAs
are ordered by id and well formed, and `size` is the sum of the bytes of the accepted ones and
within the quota. `accepted` is the verdict of `map` on a well-formed LSA, where it does not
abort (`accepts_eq`).

* `AdjUpdates c rib rib' id old new es`: the LSA of `id` went from `old` to `new`, and the
  listeners were told the change of the accepted ones.
* `delLsa_spec`, `addLsa_spec`, `truncate_spec`: what the operations come to; they do not abort.
-/

namespace Dvpn

/-- The key that `compare_refs` orders by. -/
def LsaPtr.id (p : LsaPtr) : NodeId := p.lsa.id

variable {c : Crypto} {rib rib' : AdjRibIn} {myid remoteid : Option NodeId} {id : NodeId}
  {lsa ref : LsaPtr} {old new : Option LsaPtr} {es : List RibEvent}

/-! ## The filter -/

/-- The verdict of `map`. -/
def accepted (c : Crypto) (myid remoteid : Option NodeId) (lsa : LsaPtr) : Bool :=
  match accepts c myid remoteid lsa.lsa with
  | .ok verdict => verdict
  | .error _ => false

/-- The verdict of the `map` of a RIB. -/
abbrev AdjRibIn.accepted (c : Crypto) (rib : AdjRibIn) : LsaPtr → Bool :=
  Dvpn.accepted c rib.myid rib.remoteid

theorem acceptsPath_isOk (myid remoteid : Option NodeId) (lsa : Lsa) :
    ∃ verdict, acceptsPath myid remoteid lsa = .ok verdict := by
  unfold acceptsPath
  cases h : lsaFindAttr lsa LSA_ATTR_TYPE_ADV_PATH [] with
  | none => exact ⟨false, rfl⟩
  | some attr =>
    dsimp only
    split_ifs
    · exact ⟨false, rfl⟩
    · cases remoteid with
      | none => exact ⟨false, rfl⟩
      | some remoteid =>
        dsimp only
        split_ifs
        · exact ⟨false, rfl⟩
        · cases myid with
          | none => exact ⟨true, rfl⟩
          | some myid =>
            dsimp only
            rw [lsaPathContains_eq (advPath_type h)]
            exact ⟨_, rfl⟩

/-- The buffers of `map` are large enough for a signed part that the limit of `map` has room
for. -/
theorem acceptsSignature_isOk (c : Crypto) {lsa : Lsa}
    (h : NODE_ID_LEN + (attrsWire (rootView true none lsa.root)).length ≤ 65536 - 128) :
    ∃ verdict, acceptsSignature c lsa = .ok verdict := by
  have hmax : SIZE_MAX = 2 ^ 64 - 1 := rfl
  have hid : NODE_ID_LEN = 32 := rfl
  have htotal := length_lsaWire lsa.id (rootView true none lsa.root)
  have hint := length_intBytes_le (NODE_ID_LEN + (attrsWire (rootView true none lsa.root)).length)
  unfold acceptsSignature
  cases lsaFindAttr lsa LSA_ATTR_TYPE_PUBKEY [] with
  | none => exact ⟨false, rfl⟩
  | some pubkey =>
    dsimp only
    split_ifs
    · exact ⟨false, rfl⟩
    · exact ⟨false, rfl⟩
    · cases lsaFindAttr lsa LSA_ATTR_TYPE_SIGNATURE [] with
      | none => exact ⟨false, rfl⟩
      | some signature =>
        dsimp only
        rw [lsaSerialiseLength_eq (by omega), ok_bind, if_neg (by omega),
          lsaSerialise_take _ (by omega)]
        simp only [ok_bind]
        rw [if_neg (by omega)]
        exact ⟨_, rfl⟩

/-- `map` does not abort on an LSA whose size covers its signed part. -/
theorem accepts_isOk (c : Crypto) (myid remoteid : Option NodeId) {lsa : Lsa}
    (h : lsa.bytes + NODE_ID_LEN ≤ LSA_MAX_BYTES →
      NODE_ID_LEN + (attrsWire (rootView true none lsa.root)).length ≤ 65536 - 128) :
    ∃ verdict, accepts c myid remoteid lsa = .ok verdict := by
  unfold accepts
  split_ifs with hb
  · exact ⟨false, rfl⟩
  · obtain ⟨path, hp⟩ := acceptsPath_isOk myid remoteid lsa
    obtain ⟨signature, hs⟩ := acceptsSignature_isOk c (h (not_lt.mp hb))
    cases path with
    | false => exact ⟨false, by rw [hp]; rfl⟩
    | true => exact ⟨signature, by rw [hp, ok_bind, if_pos rfl, hs]⟩

theorem accepts_eq (c : Crypto) (myid remoteid : Option NodeId) (h : Wellformed lsa.lsa) :
    accepts c myid remoteid lsa.lsa = .ok (accepted c myid remoteid lsa) := by
  have hwire := h.wire
  have hview : (attrsWire (rootView true none lsa.lsa.root)).length ≤
      (attrsWire lsa.lsa.root).length := by
    rw [rootView_none]
    exact (signedPart_le (by omega)).2
  have hsize := (attrsSize_bounds lsa.lsa.root).1
  have hbytes := h.bytes
  obtain ⟨verdict, hv⟩ := @accepts_isOk c myid remoteid lsa.lsa fun hb => by
    unfold LSA_MAX_BYTES MAX_SERIALISED_INT_LEN NODE_ID_LEN at *
    omega
  rw [accepted, hv]

/-- `map` is a filter. -/
theorem map_eq (c : Crypto) (rib : AdjRibIn) (o : Option LsaPtr)
    (h : ∀ p, o = some p → Wellformed p.lsa) :
    adjRibInMap c rib o = .ok (o.filter (rib.accepted c)) := by
  cases o with
  | none => rfl
  | some p =>
    rw [adjRibInMap, accepts_eq c _ _ (h p rfl), ok_bind, Option.filter_some]
    split_ifs <;> rfl

theorem acceptsPath_of_accepted (h : accepted c myid remoteid lsa = true) :
    acceptsPath myid remoteid lsa.lsa = .ok true := by
  obtain ⟨path, hp⟩ := acceptsPath_isOk myid remoteid lsa.lsa
  cases path with
  | true => exact hp
  | false =>
    unfold accepted accepts at h
    rw [hp] at h
    split_ifs at h <;> exact absurd h (by simp)

/-- An accepted LSA has an `ADV_PATH` of whole node ids, which starts at the peer. -/
theorem accepted_path (h : accepted c myid remoteid lsa = true) :
    ∃ attr hops, lsa.lsa.advPath = some attr ∧ attr.datalen % NODE_ID_LEN = 0 ∧
      NODE_ID_LEN ≤ attr.datalen ∧ remoteid = some hops ∧
      memcmp hops.1 attr.pathData NODE_ID_LEN = 0 := by
  have hrun := acceptsPath_of_accepted h
  unfold acceptsPath at hrun
  change ∃ attr hops, lsaFindAttr lsa.lsa LSA_ATTR_TYPE_ADV_PATH [] = some attr ∧ _
  cases ha : lsaFindAttr lsa.lsa LSA_ATTR_TYPE_ADV_PATH [] with
  | none => simp [ha] at hrun
  | some attr =>
    simp only [ha] at hrun
    split_ifs at hrun with hlen
    · exact absurd hrun (by simp)
    · obtain ⟨hlen, hmod⟩ := not_or.mp hlen
      cases remoteid with
      | none => exact absurd hrun (by simp)
      | some remoteid =>
        dsimp only at hrun
        split_ifs at hrun with hhead
        · exact absurd hrun (by simp)
        · exact ⟨attr, remoteid, rfl, not_not.mp hmod, not_lt.mp hlen, rfl, not_not.mp hhead⟩

/-- The node is not on the path of an LSA that it accepts. -/
theorem accepted_not_mem {n : NodeId} {attr : Attr} (h : accepted c (some n) remoteid lsa = true)
    (ha : lsa.lsa.advPath = some attr) : n ∉ nodeIds attr.pathData := by
  have hrun := acceptsPath_of_accepted h
  have hfind : lsaFindAttr lsa.lsa LSA_ATTR_TYPE_ADV_PATH [] = some attr := ha
  unfold acceptsPath at hrun
  simp only [hfind] at hrun
  split_ifs at hrun
  · exact absurd hrun (by simp)
  · cases remoteid with
    | none => exact absurd hrun (by simp)
    | some remoteid =>
      dsimp only at hrun
      split_ifs at hrun
      · exact absurd hrun (by simp)
      · rw [lsaPathContains_eq (advPath_type ha)] at hrun
        simpa using hrun

/-! ## The invariant -/

theorem findRef_locates (id : NodeId) :
    Avl.Locates (fun ref : LsaPtr => memcmp id.1 ref.lsa.id.1 NODE_ID_LEN) LsaPtr.id id :=
  ⟨fun ref => memcmp_ids_neg id ref.lsa.id, fun ref => memcmp_ids_zero id ref.lsa.id⟩

theorem compareRefs_orders : Avl.Orders compareRefs LsaPtr.id :=
  ⟨fun ref => (findRef_locates ref.lsa.id).neg, fun ref => (findRef_locates ref.lsa.id).zero⟩

/-- The sum of the bytes of LSAs. -/
def bytesOf (l : List LsaPtr) : Nat := (l.map fun p => p.lsa.bytes).sum

@[simp] theorem bytesOf_nil : bytesOf [] = 0 := rfl

theorem bytesOf_append (l l' : List LsaPtr) : bytesOf (l ++ l') = bytesOf l + bytesOf l' := by
  simp [bytesOf]

theorem bytesOf_perm {l l' : List LsaPtr} (h : l.Perm l') : bytesOf l = bytesOf l' :=
  (h.map _).sum_nat

/-- The bytes of the LSAs that the RIB holds and `map` accepts. -/
def AdjRibIn.acceptedBytes (c : Crypto) (rib : AdjRibIn) : Nat :=
  bytesOf (rib.lsas.filter (rib.accepted c))

/-- What holds of the RIB of a peer. -/
structure AdjRibIn.Inv (c : Crypto) (rib : AdjRibIn) : Prop where
  sorted : Avl.Sorted LsaPtr.id rib.lsas
  wellformed : ∀ p ∈ rib.lsas, Wellformed p.lsa
  size : rib.size = rib.acceptedBytes c
  quota : rib.size ≤ ADJ_RIB_IN_MAX_BYTES

theorem adjRibInInit_inv (c : Crypto) (myid remoteid : Option NodeId) :
    (adjRibInInit myid remoteid).Inv c :=
  ⟨Avl.sorted_nil, fun _ h => absurd h List.not_mem_nil, rfl, Int.natCast_nonneg _⟩

theorem findRef_eq_some (hs : Avl.Sorted LsaPtr.id rib.lsas) :
    adjRibInFindRef rib id = some ref ↔ ref ∈ rib.lsas ∧ ref.lsa.id = id :=
  Avl.find_eq_some hs (findRef_locates id)

theorem findRef_eq_none (hs : Avl.Sorted LsaPtr.id rib.lsas) :
    adjRibInFindRef rib id = none ↔ ∀ p ∈ rib.lsas, p.lsa.id ≠ id :=
  Avl.find_eq_none hs (findRef_locates id)

/-- The table of accepted LSAs that a listener follows. -/
def AdjRibIn.view (c : Crypto) (rib : AdjRibIn) (id : NodeId) : Option (LsaPtr × Nat) :=
  ((adjRibInFindRef rib id).filter (rib.accepted c)).map (·, RIB_COST_UNREACHABLE)

/-! ## Updates of one id -/

/-- The LSA of `id` goes from `old` to `new`, and the listeners are told the change of the
accepted ones. -/
structure AdjUpdates (c : Crypto) (rib rib' : AdjRibIn) (id : NodeId) (old new : Option LsaPtr)
    (es : List RibEvent) : Prop where
  myid : rib'.myid = rib.myid
  remoteid : rib'.remoteid = rib.remoteid
  inv : rib'.Inv c
  find : adjRibInFindRef rib id = old
  ids : ∀ p, new = some p → p.lsa.id = id
  perm : ∃ rest, rib.lsas.Perm (old.toList ++ rest) ∧ rib'.lsas.Perm (new.toList ++ rest)
  events : es = changeEvents (old.filter (rib.accepted c)) RIB_COST_UNREACHABLE
    (new.filter (rib.accepted c)) RIB_COST_UNREACHABLE

theorem AdjUpdates.accepted (h : AdjUpdates c rib rib' id old new es) :
    rib'.accepted c = rib.accepted c := by
  unfold AdjRibIn.accepted
  rw [h.myid, h.remoteid]

theorem AdjUpdates.mem (h : AdjUpdates c rib rib' id old new es) (hi : rib.Inv c) {p : LsaPtr} :
    p ∈ rib'.lsas ↔ new = some p ∨ p ∈ rib.lsas ∧ p.lsa.id ≠ id := by
  obtain ⟨rest, hp, hp'⟩ := h.perm
  have hnew : p ∈ new.toList ↔ new = some p := by simp
  rw [hp'.mem_iff, List.mem_append, hnew, hp.mem_iff, List.mem_append]
  -- the LSAs of `rest` have other ids
  have hrest : p ∈ rest → p.lsa.id ≠ id := by
    intro hr e
    have hm : p ∈ rib.lsas := hp.mem_iff.mpr (List.mem_append_right _ hr)
    have hfind := (findRef_eq_some hi.sorted).mpr ⟨hm, e⟩
    rw [h.find] at hfind
    have hn := hp.nodup_iff.mp hi.sorted.nodup
    subst hfind
    exact (List.nodup_cons.mp hn).1 hr
  constructor
  · rintro (h | h)
    · exact Or.inl h
    · exact Or.inr ⟨Or.inr h, hrest h⟩
  · rintro (h' | ⟨h' | h', hne⟩)
    · exact Or.inl h'
    · have hold : old = some p := by simpa using h'
      exact absurd ((findRef_eq_some hi.sorted).mp (h.find.trans hold)).2 hne
    · exact Or.inr h'

theorem AdjUpdates.findRef (h : AdjUpdates c rib rib' id old new es) (hi : rib.Inv c)
    (id' : NodeId) :
    adjRibInFindRef rib' id' = if id' = id then new else adjRibInFindRef rib id' := by
  refine Option.ext fun p => ?_
  rw [findRef_eq_some h.inv.sorted, h.mem hi]
  split_ifs with hid
  · subst hid
    constructor
    · rintro ⟨hp | ⟨_, hne⟩, e⟩
      · exact hp
      · exact absurd e hne
    · exact fun hp => ⟨Or.inl hp, h.ids p hp⟩
  · rw [findRef_eq_some hi.sorted]
    constructor
    · rintro ⟨hp | ⟨hp, _⟩, e⟩
      · exact absurd ((h.ids p hp).symm.trans e).symm hid
      · exact ⟨hp, e⟩
    · rintro ⟨hp, rfl⟩
      exact ⟨Or.inr ⟨hp, hid⟩, rfl⟩

open ChangeLog

/-- **A listener follows an update.** -/
theorem AdjUpdates.replays (h : AdjUpdates c rib rib' id old new es) (hi : rib.Inv c) :
    Replays (rib.view c) (es.map RibEvent.change) (rib'.view c) := by
  have hview : rib'.view c = Function.update (rib.view c) id
      ((new.filter (rib.accepted c)).map (·, RIB_COST_UNREACHABLE)) := by
    funext id'
    rw [AdjRibIn.view, h.findRef hi, h.accepted, Function.update_apply]
    split_ifs <;> rfl
  have hold : rib.view c id = (old.filter (rib.accepted c)).map (·, RIB_COST_UNREACHABLE) := by
    rw [AdjRibIn.view, h.find]
  rw [hview, h.events, @changeEvents_change _ _ _ _ id, ← hold]
  · exact replays_change id _
  · intro p hp
    exact ((findRef_eq_some hi.sorted).mp (h.find.trans (Option.filter_eq_some_iff.mp hp).1)).2
  · exact fun p hp => h.ids p (Option.filter_eq_some_iff.mp hp).1

/-- What the listeners are told of is the new LSA, when it is accepted. -/
theorem AdjUpdates.news (h : AdjUpdates c rib rib' id old new es) :
    ∀ e ∈ es, ∀ p, e.new = some p → new = some p ∧ rib.accepted c p = true := by
  intro e he p hp
  rw [h.events] at he
  exact Option.filter_eq_some_iff.mp (changeEvents_news e he p hp)

/-! ## Notification -/

/-- The counter stays exact while the counted bytes fit an `int`. -/
theorem countSize_eq {n : Nat} (hold : bytesOf old.toList + n ≤ INT_MAX)
    (hnew : bytesOf new.toList + n ≤ INT_MAX) :
    countSize ((bytesOf old.toList + n : Nat) : Int) old new =
      ((bytesOf new.toList + n : Nat) : Int) := by
  have hone : ∀ p : LsaPtr, bytesOf (some p).toList = p.lsa.bytes := by simp [bytesOf]
  have hcast : ∀ m : Nat, m ≤ INT_MAX → toInt m = m := fun m h =>
    toInt_of_le (Int.natCast_nonneg m) (by omega)
  have hadd : countSize (n : Int) none new = ((bytesOf new.toList + n : Nat) : Int) := by
    cases new with
    | none => simp [countSize]
    | some p =>
      rw [hone] at hnew ⊢
      change toInt ((n : Int) + (p.lsa.bytes : Int)) = _
      rw [← Nat.cast_add, Nat.add_comm, hcast _ hnew]
  cases old with
  | none => simpa using hadd
  | some p =>
    rw [hone] at hold ⊢
    change countSize (toInt (((p.lsa.bytes + n : Nat) : Int) - p.lsa.bytes)) none new = _
    rw [show ((p.lsa.bytes + n : Nat) : Int) - p.lsa.bytes = (n : Int) by omega,
      hcast n (by omega), hadd]

/-- The bytes of an LSA that may not be there. -/
theorem bytesOf_filter_toList (p : LsaPtr → Bool) (o : Option LsaPtr) :
    bytesOf (o.toList.filter p) = bytesOf (o.filter p).toList := by
  cases o with
  | none => rfl
  | some x =>
    rw [Option.filter_some]
    simp only [Option.toList_some, List.filter_cons, List.filter_nil]
    split_ifs <;> rfl

/-- **`notify`** around a change of the tree: what is counted stays the bytes of the accepted
LSAs. -/
theorem notify_spec {lsas : List LsaPtr} (new : Option LsaPtr) (hi : rib.Inv c)
    (hfind : adjRibInFindRef rib id = old)
    (hs : Avl.Sorted LsaPtr.id lsas) (hw : ∀ p, new = some p → Wellformed p.lsa)
    (hids : ∀ p, new = some p → p.lsa.id = id)
    (hperm : ∃ rest, rib.lsas.Perm (old.toList ++ rest) ∧ lsas.Perm (new.toList ++ rest))
    (hfit : rib.size + bytesOf new.toList ≤ ADJ_RIB_IN_MAX_BYTES ∨ new = none) :
    ∃ size es, notify c rib old new = .ok ({ rib with size := size }, es) ∧
      AdjUpdates c rib { rib with lsas := lsas, size := size } id old new es := by
  obtain ⟨rest, hp, hp'⟩ := hperm
  have hold : ∀ p, old = some p → p ∈ rib.lsas := fun p e =>
    ((findRef_eq_some hi.sorted).mp (hfind.trans e)).1
  have hmax : INT_MAX = 2 ^ 31 - 1 := rfl
  have hquota : ADJ_RIB_IN_MAX_BYTES = 1048576 := rfl
  -- the bytes that are counted before and after
  have hbefore : rib.size = (bytesOf (old.filter (rib.accepted c)).toList +
      bytesOf (rest.filter (rib.accepted c)) : Nat) := by
    rw [hi.size, AdjRibIn.acceptedBytes, bytesOf_perm (hp.filter _), List.filter_append,
      bytesOf_append, bytesOf_filter_toList]
  have hafter : bytesOf (lsas.filter (rib.accepted c)) =
      bytesOf (new.filter (rib.accepted c)).toList +
        bytesOf (rest.filter (rib.accepted c)) := by
    rw [bytesOf_perm (hp'.filter _), List.filter_append, bytesOf_append, bytesOf_filter_toList]
  have hle : bytesOf (new.filter (rib.accepted c)).toList ≤ bytesOf new.toList := by
    cases new with
    | none => exact le_rfl
    | some p =>
      rw [Option.filter_some]
      split_ifs
      · exact le_rfl
      · exact Nat.zero_le _
  have hq := hi.quota
  have hsum : bytesOf (lsas.filter (rib.accepted c)) ≤ ADJ_RIB_IN_MAX_BYTES := by
    rcases hfit with h | rfl
    · omega
    · simp only [Option.filter_none, Option.toList_none, bytesOf_nil] at hafter
      omega
  refine ⟨(bytesOf (lsas.filter (rib.accepted c)) : Nat), changeEvents (old.filter (rib.accepted c))
    RIB_COST_UNREACHABLE (new.filter (rib.accepted c)) RIB_COST_UNREACHABLE, ?_, ?_⟩
  · unfold notify
    rw [map_eq c rib old fun p e => hi.wellformed p (hold p e), ok_bind, map_eq c rib new hw,
      ok_bind, hbefore, hafter, countSize_eq (by omega) (by omega)]
    rfl
  · refine ⟨rfl, rfl, ⟨hs, fun p hm => ?_, rfl, Int.ofNat_le.mpr hsum⟩, hfind, hids,
      ⟨rest, hp, hp'⟩, rfl⟩
    rcases List.mem_append.mp (hp'.mem_iff.mp hm) with hm | hm
    · exact hw p (by simpa using hm)
    · exact hi.wellformed p (hp.mem_iff.mpr (List.mem_append_right _ hm))

/-! ## Removal -/

/-- **`adj_rib_in_del_lsa`** takes an LSA out. -/
theorem delLsa_spec (hi : rib.Inv c) (hm : ref ∈ rib.lsas) :
    ∃ rib' es, adjRibInDelLsa c rib ref = .ok (rib', es) ∧
      AdjUpdates c rib rib' ref.lsa.id (some ref) none es := by
  have hp := Avl.delete_perm compareRefs_orders hi.sorted hm
  obtain ⟨size, es, hrun, hup⟩ := notify_spec none
    hi ((findRef_eq_some hi.sorted).mpr ⟨hm, rfl⟩) (Avl.sorted_delete hi.sorted) (by simp)
    (by simp) ⟨_, hp, List.Perm.refl _⟩ (Or.inr rfl)
  exact ⟨_, es, by rw [adjRibInDelLsa, hrun]; rfl, hup⟩

/-- A row of removals. -/
inductive Removals (c : Crypto) : AdjRibIn → AdjRibIn → List RibEvent → Prop
  | nil {rib : AdjRibIn} : Removals c rib rib []
  | cons {rib rib' rib'' : AdjRibIn} {ref : LsaPtr} {es es' : List RibEvent} :
      AdjUpdates c rib rib' ref.lsa.id (some ref) none es → Removals c rib' rib'' es' →
      Removals c rib rib'' (es ++ es')

/-- **`adj_rib_in_truncate`** takes all LSAs out, in whatever order they come to the root. -/
theorem truncate_spec {roots : List LsaPtr} (hi : rib.Inv c) (hp : roots.Perm rib.lsas) :
    ∃ rib' es, adjRibInTruncate c rib roots = .ok (rib', es) ∧ Removals c rib rib' es ∧
      rib'.lsas = [] := by
  induction roots generalizing rib with
  | nil => exact ⟨rib, [], rfl, .nil, List.nil_perm.mp hp⟩
  | cons root roots ih =>
    obtain ⟨rib₁, es₁, h1, hup⟩ := delLsa_spec hi (hp.mem_iff.mp List.mem_cons_self)
    obtain ⟨rest, hold, hnew⟩ := hup.perm
    have hroots : roots.Perm rib₁.lsas :=
      ((List.perm_cons root).mp (hp.trans hold)).trans hnew.symm
    obtain ⟨rib₂, es₂, h2, hrem, hnil⟩ := ih hup.inv hroots
    exact ⟨rib₂, es₁ ++ es₂, by simp [adjRibInTruncate, h1, h2], .cons hup hrem, hnil⟩

/-! ## Addition -/

/-- A RIB without a `remoteid` accepts nothing, so nothing is over its quota. -/
theorem remoteid_of_overflows (hi : rib.Inv c) (hw : Wellformed lsa.lsa)
    (h : rib.overflows lsa.lsa) : rib.remoteid.isNone = false := by
  cases hr : rib.remoteid with
  | some remoteid => rfl
  | none =>
    have hfilter : rib.lsas.filter (rib.accepted c) = [] := by
      refine List.filter_eq_nil_iff.mpr fun p _ hacc => ?_
      obtain ⟨_, _, _, _, _, hsome, _⟩ := accepted_path hacc
      exact absurd (hr.symm.trans hsome) (by simp)
    have hsize : rib.size = 0 := by
      rw [hi.size, AdjRibIn.acceptedBytes, hfilter]
      rfl
    have hwire := hw.wire
    have hbytes := hw.bytes
    have hle := (attrsSize_bounds lsa.lsa.root).2
    unfold AdjRibIn.overflows ADJ_RIB_IN_MAX_BYTES at h
    unfold MAX_SERIALISED_INT_LEN NODE_ID_LEN at hbytes
    omega

/-- What passes the test against the quota fits. -/
theorem fits_of_not_overflows (hi : rib.Inv c) (hw : Wellformed lsa.lsa)
    (h : ¬ rib.overflows lsa.lsa) : rib.size + lsa.lsa.bytes ≤ ADJ_RIB_IN_MAX_BYTES := by
  have hwire := hw.wire
  have hbytes := hw.bytes
  have hle := (attrsSize_bounds lsa.lsa.root).2
  have hsize := hi.size
  have hquota := hi.quota
  unfold AdjRibIn.overflows at h
  unfold ADJ_RIB_IN_MAX_BYTES at *
  unfold MAX_SERIALISED_INT_LEN NODE_ID_LEN at hbytes
  omega

/-- What `adj_rib_in_add_lsa` does with an LSA. -/
inductive AddOutcome (c : Crypto) (rib : AdjRibIn) (lsa : LsaPtr) :
    AdjRibIn → List RibEvent → Prop
  | ignored : lsa.lsa.root = [] ∨ rib.overflows lsa.lsa →
      adjRibInFindRef rib lsa.lsa.id = none → AddOutcome c rib lsa rib []
  | removed {ref : LsaPtr} {rib' : AdjRibIn} {es : List RibEvent} :
      lsa.lsa.root = [] ∨ rib.overflows lsa.lsa →
      AdjUpdates c rib rib' lsa.lsa.id (some ref) none es → AddOutcome c rib lsa rib' es
  | same {ref : LsaPtr} : lsa.lsa.root ≠ [] → ¬ rib.overflows lsa.lsa →
      adjRibInFindRef rib lsa.lsa.id = some ref → lsaDiff (some ref.lsa) (some lsa.lsa) = .ok 0 →
      AddOutcome c rib lsa rib []
  | stored {old : Option LsaPtr} {rib' : AdjRibIn} {es : List RibEvent} : lsa.lsa.root ≠ [] →
      ¬ rib.overflows lsa.lsa →
      (∀ ref, old = some ref → lsaDiff (some ref.lsa) (some lsa.lsa) ≠ .ok 0) →
      AdjUpdates c rib rib' lsa.lsa.id old (some lsa) es → AddOutcome c rib lsa rib' es

/-- What the RIB holds after an addition, and what the listeners are told of, is the LSA or was
there before. -/
theorem AddOutcome.news (h : AddOutcome c rib lsa rib' es) (hi : rib.Inv c) :
    (∀ p ∈ rib'.lsas, p ∈ rib.lsas ∨ p = lsa ∧ lsa.lsa.root ≠ []) ∧
      ∀ e ∈ es, ∀ p, e.new = some p → p = lsa ∧ lsa.lsa.root ≠ [] ∧ rib.accepted c p = true := by
  cases h with
  | ignored | same => exact ⟨fun p hm => Or.inl hm, fun e he => absurd he List.not_mem_nil⟩
  | removed _ hup =>
    refine ⟨fun p hm => ?_, fun e he p hp => ?_⟩
    · rcases (hup.mem hi).mp hm with hn | ⟨hm, _⟩
      · exact absurd hn (by simp)
      · exact Or.inl hm
    · exact absurd (hup.news e he p hp).1 (by simp)
  | stored hroot _ _ hup =>
    refine ⟨fun p hm => ?_, fun e he p hp => ?_⟩
    · rcases (hup.mem hi).mp hm with hn | ⟨hm, _⟩
      · exact Or.inr ⟨(Option.some.inj hn).symm, hroot⟩
      · exact Or.inl hm
    · obtain ⟨hn, hacc⟩ := hup.news e he p hp
      exact ⟨(Option.some.inj hn).symm, hroot, hacc⟩

theorem Wellformed.comparable {lsa : Lsa} (h : Wellformed lsa) : ∀ a ∈ lsa.root, a.Comparable :=
  fun _ ha => comparable_of_wire (by have := h.wire; omega) ha

/-- The LSA takes the place of `ref` in the tree. -/
theorem replace_spec (hi : rib.Inv c) (hm : ref ∈ rib.lsas) (hid : ref.lsa.id = lsa.lsa.id) :
    Avl.Sorted LsaPtr.id (rib.lsas.map fun p => if p.lsa.id = ref.lsa.id then lsa else p) ∧
      ∃ rest, rib.lsas.Perm (ref :: rest) ∧
        (rib.lsas.map fun p => if p.lsa.id = ref.lsa.id then lsa else p).Perm (lsa :: rest) := by
  have hkey : ∀ p : LsaPtr, (if p.lsa.id = ref.lsa.id then lsa else p).id = p.id := by
    intro p
    split_ifs with h
    · exact (h.trans hid).symm
    · rfl
  have hp := Avl.delete_perm compareRefs_orders hi.sorted hm
  refine ⟨List.pairwise_map.mpr (hi.sorted.imp fun hlt => ?_), _, hp, ?_⟩
  · rwa [hkey, hkey]
  · refine (hp.map _).trans ?_
    rw [List.map_cons, if_pos rfl]
    refine List.Perm.cons lsa (List.Perm.of_eq ?_)
    refine (List.map_congr_left fun p hmem => ?_).trans (List.map_id _)
    obtain ⟨hm', hne⟩ := (Avl.mem_delete compareRefs_orders hi.sorted hm).mp hmem
    exact if_neg fun e => hne (hi.sorted.eq_of_key hm' hm e)

/-- The LSA that is there is taken out. -/
theorem addLsa_removes (hi : rib.Inv c) (hw : lsa.lsa.root = [] ∨ rib.overflows lsa.lsa) (ret : Int)
    (hfind : adjRibInFindRef rib lsa.lsa.id = some ref) :
    ∃ rib' es, (do
      let (rib, es) ← adjRibInDelLsa c rib ref
      return (ret, rib, es)) = (Except.ok (ret, rib', es) : Except Crash _) ∧
      AddOutcome c rib lsa rib' es := by
  obtain ⟨hm, hid⟩ := (findRef_eq_some hi.sorted).mp hfind
  obtain ⟨rib', es, hrun, hup⟩ := delLsa_spec hi hm
  exact ⟨rib', es, by rw [hrun]; rfl, .removed hw (hid ▸ hup)⟩

/-- **`adj_rib_in_add_lsa`** does not abort on a well-formed LSA, and comes to one of the
outcomes. -/
theorem addLsa_spec (hi : rib.Inv c) (hw : Wellformed lsa.lsa) :
    ∃ ret rib' es, adjRibInAddLsa c rib lsa = .ok (ret, rib', es) ∧
      AddOutcome c rib lsa rib' es := by
  unfold adjRibInAddLsa
  by_cases hroot : lsa.lsa.root = []
  · rw [if_pos (List.isEmpty_iff.mpr hroot)]
    cases hfind : adjRibInFindRef rib lsa.lsa.id with
    | none => exact ⟨-1, rib, [], rfl, .ignored (Or.inl hroot) hfind⟩
    | some ref => exact ⟨0, addLsa_removes hi (Or.inl hroot) 0 hfind⟩
  · rw [if_neg (mt List.isEmpty_iff.mp hroot)]
    by_cases hover : rib.overflows lsa.lsa
    · rw [if_pos hover, remoteid_of_overflows hi hw hover, if_neg Bool.false_ne_true]
      cases hfind : adjRibInFindRef rib lsa.lsa.id with
      | none => exact ⟨-1, rib, [], rfl, .ignored (Or.inr hover) hfind⟩
      | some ref => exact ⟨-1, addLsa_removes hi (Or.inr hover) (-1) hfind⟩
    · rw [if_neg hover]
      have hfit := fits_of_not_overflows hi hw hover
      have hbytes : bytesOf (some lsa).toList = lsa.lsa.bytes := by simp [bytesOf]
      cases hfind : adjRibInFindRef rib lsa.lsa.id with
      | none =>
        obtain ⟨lsas, hins⟩ := Avl.exists_insert (x := lsa) compareRefs_orders hi.sorted
          ((findRef_eq_none hi.sorted).mp hfind)
        obtain ⟨size, es, hrun, hup⟩ := notify_spec (some lsa) hi hfind
          (Avl.sorted_insert compareRefs_orders hi.sorted hins)
          (fun p e => Option.some.inj e ▸ hw) (fun p e => Option.some.inj e ▸ rfl)
          ⟨rib.lsas, List.Perm.refl _, Avl.insert_perm hins⟩ (Or.inl (by rw [hbytes]; exact hfit))
        refine ⟨0, _, es, ?_, .stored hroot hover (by simp) hup⟩
        simp only [hrun, ok_bind, hins, Option.getD_some]
        rfl
      | some ref =>
        obtain ⟨hm, hid⟩ := (findRef_eq_some hi.sorted).mp hfind
        obtain ⟨n, hn⟩ := lsaDiff_isOk (hi.wellformed ref hm).comparable hw.comparable
        dsimp only
        rw [hn, ok_bind]
        by_cases h0 : n = 0
        · rw [if_neg (not_not.mpr h0)]
          exact ⟨0, rib, [], rfl, .same hroot hover hfind (h0 ▸ hn)⟩
        · rw [if_pos h0]
          obtain ⟨hs, hp⟩ := replace_spec hi hm hid
          obtain ⟨size, es, hrun, hup⟩ := notify_spec (some lsa) hi hfind hs
            (fun p e => Option.some.inj e ▸ hw) (fun p e => Option.some.inj e ▸ rfl) hp
            (Or.inl (by rw [hbytes]; exact hfit))
          refine ⟨0, _, es, by simp only [hrun, ok_bind]; rfl, .stored hroot hover ?_ hup⟩
          rintro _ ⟨⟩ h
          exact h0 (Except.ok.inj (hn.symm.trans h))

end Dvpn
