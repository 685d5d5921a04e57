import Dvpn.Lsa.Mutate
import Dvpn.Rib.Signed

/-!
# The LSA of the node itself (`dvpn.c:153-304`, `dvpn.c:985-994`)

The daemon keeps its own LSA in `me`. Each peer that it routes with adds a `PEER` set to a clone of
`me`, and takes it away when it leaves; the clone gets a new version and a new signature and
replaces `me` in the local RIB.

* The references that are counted in `me` are those outside the local RIB.
* What the program gets from outside is an argument: `time` is `time(NULL)`, `sign` the three calls
  of `gnutls_privkey_*` together (`none` when one of them fails), `pubkey` what
  `x509_privkey_to_der_pubkey` writes.
* `metric = htons(cost)` keeps the low 16 bits of the cost.

`MeInv keyid fixed me P`: apart from its version, its signature and the attributes `fixed` that were
put in at the start, `me` consists of the `PEER` sets of `P`, and its signed part fits the buffer
of `lsa_sign`.

* `meInit_inv`: so it is at the start.
* `mylsaAddPeer_new`: a new peer joins the others iff the signed part has room for it; a peer that
  is there is never added (`mylsaAddPeer_dup`).
* `mylsaDelPeer_ok`: a peer that is there leaves the others.

`MeAt` says the same of an LSA with a certain version, for what is read from it.
-/

namespace Dvpn

/-! ## The code -/

def LSA_ATTR_TYPE_NODE_NAME : Int := 3

/-- The `n` bytes of a big-endian number. -/
def bigEndianBytes (n v : Nat) : Bytes :=
  (List.range n).reverse.map fun i => UInt8.ofNat (v / 256 ^ i)

/-- `lsa_add_version` (`dvpn.c:153-160`). -/
def lsaAddVersion (lsa : LsaObj) (version : Nat) : Except Crash LsaObj :=
  lsaAddAttr lsa LSA_ATTR_TYPE_VERSION true [] (bigEndianBytes 8 version)

/-- The two words that `lsa_update_version` reads from the data of an attribute. -/
def currentVersion : Attr → Nat
  | .plain _ _ _ data => bigEndian (data.take 8)
  -- the bytes of a `struct lsa_attr_set`
  | .set _ _ _ _ => 0

/-- `lsa_update_version` (`dvpn.c:162-187`). -/
def lsaUpdateVersion (time : Nat) (lsa : LsaObj) : Except Crash LsaObj := do
  match lsaFindAttr lsa.toLsa LSA_ATTR_TYPE_VERSION [] with
  | none => throw .lsaUpdateVersion
  | some attr =>
    let curver := currentVersion attr
    let lsa ← lsaDelAttr lsa attr
    let t64 := (time <<< 8) % 2 ^ 64
    lsaAddVersion lsa (if t64 ≤ curver then (curver + 1) % 2 ^ 64 else t64)

/-- `lsa_initial_version` (`dvpn.c:189-195`). -/
def lsaInitialVersion (time : Nat) (lsa : LsaObj) : Except Crash LsaObj :=
  lsaAddVersion lsa (((time + 1) <<< 8) % 2 ^ 64)

/-- `lsa_add_pubkey` (`dvpn.c:197-207`). -/
def lsaAddPubkey (pubkey : Option Bytes) (lsa : LsaObj) : Except Crash LsaObj :=
  match pubkey with
  | none => throw .lsaAddPubkey
  | some buf => lsaAddAttr lsa LSA_ATTR_TYPE_PUBKEY true [] buf

/-- `lsa_sign` (`dvpn.c:209-256`) after the old signature is gone. -/
def lsaSignUnsigned (sign : Bytes → Option Bytes) (lsa : LsaObj) : Except Crash LsaObj := do
  let serlen ← lsaSerialiseLength lsa.toLsa true none
  if serlen > 65536 - 128 then throw .lsaSign
  let buflen := serlen + 128
  let (len, buf) ← lsaSerialise buflen serlen lsa.toLsa true none
  if len > buflen then throw .lsaSign
  match sign (buf.take len) with
  | none => throw .lsaSign
  | some sig => lsaAddAttr lsa LSA_ATTR_TYPE_SIGNATURE false [] sig

/-- `lsa_sign` (`dvpn.c:209-256`). -/
def lsaSign (sign : Bytes → Option Bytes) (lsa : LsaObj) : Except Crash LsaObj := do
  match lsaFindAttr lsa.toLsa LSA_ATTR_TYPE_SIGNATURE [] with
  | none => lsaSignUnsigned sign lsa
  | some attr => lsaSignUnsigned sign (← lsaDelAttr lsa attr)

/-- `mylsa_add_peer` (`dvpn.c:258-286`): the new `me`, for `loc_rib_mod_lsa`. -/
def mylsaAddPeer (sign : Bytes → Option Bytes) (time : Nat) (me : LsaObj) (id : NodeId)
    (type : ConfPeerType) (cost : Int) : Except Crash LsaObj := do
  let newme ← lsaClone me.toLsa
  match ← lsaAddAttrSet newme LSA_ATTR_TYPE_PEER true id.1 with
  | none => throw .attrSetNull
  | some (newme, store) =>
    let metric := bigEndianBytes 2 (cost % 65536).toNat
    let (newme, set) :=
      (← lsaAttrSetAddAttr newme [] LSA_PEER_ATTR_TYPE_METRIC true [] metric).getD (newme, [])
    let peerFlags := [UInt8.ofNat (← confPeerTypeToLsaPeerFlags type)]
    let (newme, set) :=
      (← lsaAttrSetAddAttr newme set LSA_PEER_ATTR_TYPE_PEER_FLAGS true [] peerFlags).getD
        (newme, set)
    let newme ← lsaUpdateVersion time { newme with root := store set }
    let newme ← lsaSign sign newme
    let _ ← lsaPut me
    return newme

/-- `mylsa_del_peer` (`dvpn.c:288-304`): the new `me`, for `loc_rib_mod_lsa`. -/
def mylsaDelPeer (sign : Bytes → Option Bytes) (time : Nat) (me : LsaObj) (id : NodeId) :
    Except Crash LsaObj := do
  let newme ← lsaClone me.toLsa
  let newme ← lsaDelAttrBykey newme LSA_ATTR_TYPE_PEER id.1
  let newme ← lsaUpdateVersion time newme
  let newme ← lsaSign sign newme
  let _ ← lsaPut me
  return newme

/-- The `NODE_NAME` of a node that has one (`dvpn.c:987-990`). -/
def addNodeName (nodeName : Option Bytes) (me : LsaObj) : Except Crash LsaObj :=
  match nodeName with
  | some name => lsaAddAttr me LSA_ATTR_TYPE_NODE_NAME true [] name
  | none => return me

/-- The `me` that `dvpn` makes at the start (`dvpn.c:985-994`). -/
def meInit (sign : Bytes → Option Bytes) (time : Nat) (keyid : NodeId) (nodeName : Option Bytes)
    (pubkey : Option Bytes) : Except Crash LsaObj := do
  let me ← lsaAddAttr (lsaAlloc keyid) LSA_ATTR_TYPE_ADV_PATH false [] []
  let me ← addNodeName nodeName me
  let me ← lsaInitialVersion time me
  let me ← lsaAddPubkey pubkey me
  lsaSign sign me

/-! ## The attributes of `me` -/

/-- What a `PEER` set says. -/
structure PeerEntry where
  id : NodeId
  metric : Nat
  flags : Nat

/-- The `PEER` set of `mylsa_add_peer`. -/
def peerAttr (p : PeerEntry) : Attr :=
  .set LSA_ATTR_TYPE_PEER true p.id.1
    [.plain LSA_PEER_ATTR_TYPE_METRIC true [] (bigEndianBytes 2 p.metric),
      .plain LSA_PEER_ATTR_TYPE_PEER_FLAGS true [] [UInt8.ofNat p.flags]]

/-- The `VERSION` attribute. -/
def versionAttr (version : Nat) : Attr :=
  .plain LSA_ATTR_TYPE_VERSION true [] (bigEndianBytes 8 version)

/-- The `SIGNATURE` attribute. -/
def signatureAttr (sig : Bytes) : Attr := .plain LSA_ATTR_TYPE_SIGNATURE false [] sig

/-- The attribute is plain, without a key, and of a type that does not change. -/
structure Attr.Fixed (a : Attr) : Prop where
  plain : a.dataIsAttrSet = false
  key : a.key = []
  datalen : a.datalen ≤ SSIZE_MAX
  peer : a.type ≠ LSA_ATTR_TYPE_PEER
  version : a.type ≠ LSA_ATTR_TYPE_VERSION
  signature : a.type ≠ LSA_ATTR_TYPE_SIGNATURE

/-- The most that `lsa_sign` serialises. -/
def MAX_SIGNED : Nat := 65536 - 128

/-- The length of the signed part of an LSA, as `lsa_serialise_length` counts it. -/
def signedLength (l : List Attr) : Nat := NODE_ID_LEN + (attrsWire (signedPart l)).length

/-- The attributes of `me`: the peers `P` beside the version, the signature and the attributes
`fixed`. -/
def meAttrs (fixed : List Attr) (version : Nat) (sig : Bytes) (P : List PeerEntry) : List Attr :=
  versionAttr version :: signatureAttr sig :: (fixed ++ P.map peerAttr)

/-- `me` has the attributes `fixed` and the peers `P`. -/
structure MeInv (keyid : NodeId) (fixed : List Attr) (me : LsaObj) (P : List PeerEntry) :
    Prop where
  attrs : ∃ version sig, sig.length ≤ SSIZE_MAX ∧ HasAttrs me keyid (meAttrs fixed version sig P)
  fixed : ∀ a ∈ fixed, a.Fixed
  size : signedLength me.root ≤ MAX_SIGNED

/-- `me` has the version `v` beside the attributes `fixed` and the peers `P`. -/
structure MeAt (keyid : NodeId) (fixed : List Attr) (me : LsaObj) (v : Nat)
    (P : List PeerEntry) : Prop where
  attrs : ∃ sig, sig.length ≤ SSIZE_MAX ∧ HasAttrs me keyid (meAttrs fixed v sig P)
  fixed : ∀ a ∈ fixed, a.Fixed
  size : signedLength me.root ≤ MAX_SIGNED

/-- The version that `lsa_update_version` writes. -/
def nextVersion (time curver : Nat) : Nat :=
  if (time <<< 8) % 2 ^ 64 ≤ curver then (curver + 1) % 2 ^ 64 else (time <<< 8) % 2 ^ 64

theorem MeAt.inv {keyid : NodeId} {fixed : List Attr} {me : LsaObj} {v : Nat}
    {P : List PeerEntry} (h : MeAt keyid fixed me v P) : MeInv keyid fixed me P :=
  ⟨⟨v, h.attrs⟩, h.fixed, h.size⟩

theorem MeInv.meAt {keyid : NodeId} {fixed : List Attr} {me : LsaObj} {P : List PeerEntry}
    (h : MeInv keyid fixed me P) : ∃ v, MeAt keyid fixed me v P :=
  h.attrs.imp fun _ ha => ⟨ha, h.fixed, h.size⟩

/-! ## The signed part -/

section Attributes

variable {l l' fixed : List Attr} {a : Attr} {p : PeerEntry} {P : List PeerEntry} {n v : Nat}
  {sig : Bytes}

theorem length_bigEndianBytes : (bigEndianBytes n v).length = n := by simp [bigEndianBytes]

theorem bigEndian_cons (b : UInt8) (data : Bytes) :
    bigEndian (b :: data) = b.toNat * 256 ^ data.length + bigEndian data := by
  have hfold : ∀ (data : Bytes) (acc : Nat),
      data.foldl (fun v b => v * 256 + b.toNat) acc = acc * 256 ^ data.length + bigEndian data := by
    intro data
    induction data with
    | nil => intro acc; exact (Nat.mul_one acc).symm
    | cons x data ih =>
      intro acc
      unfold bigEndian at ih ⊢
      rw [List.foldl_cons, List.foldl_cons, ih, ih (0 * 256 + x.toNat), List.length_cons]
      ring
  unfold bigEndian
  rw [List.foldl_cons, Nat.zero_mul, Nat.zero_add]
  exact hfold data b.toNat

/-- **A number that fits its bytes comes back.** -/
theorem bigEndian_bigEndianBytes (n v : Nat) : bigEndian (bigEndianBytes n v) = v % 256 ^ n := by
  induction n with
  | zero => exact (Nat.mod_one v).symm
  | succ n ih =>
    have hsucc : bigEndianBytes (n + 1) v = UInt8.ofNat (v / 256 ^ n) :: bigEndianBytes n v := by
      simp [bigEndianBytes, List.range_succ]
    have hmod : v % 256 ^ (n + 1) = v % 256 ^ n + 256 ^ n * (v / 256 ^ n % 256) :=
      Nat.mod_pow_succ
    rw [hsucc, bigEndian_cons, ih, length_bigEndianBytes, UInt8.toNat_ofNat', hmod, Nat.add_comm,
      Nat.mul_comm]

theorem signedPart_perm (h : l.Perm l') : (signedPart l).Perm (signedPart l') := by
  have hflat : ∀ l : List Attr, signedPart l = l.flatMap Attr.signedPart := by
    intro l
    induction l with
    | nil => rfl
    | cons a l ih => rw [signedPart, ih, List.flatMap_cons]
  rw [hflat, hflat]
  exact h.flatMap_right _

theorem signedLength_perm (h : l.Perm l') : signedLength l = signedLength l' := by
  unfold signedLength
  rw [length_attrsWire_perm (signedPart_perm h)]

theorem signedLength_cons : signedLength (a :: l) =
    (if a.attrSigned then a.kept.wire.length else 0) + signedLength l := by
  unfold signedLength
  rw [signedPart_cons]
  split_ifs
  · rw [attrsWire, List.length_append]
    omega
  · omega

theorem wire_versionAttr : (versionAttr v).wire.length = 11 := by
  have hlen : (bigEndianBytes 8 v).length = 8 := length_bigEndianBytes
  simp only [versionAttr, Attr.wire, List.length_append, hlen]
  decide

/-- The length of a `PEER` set in the signed part. -/
theorem wire_peerAttr : (peerAttr p).wire.length = 45 := by
  have hlen : (bigEndianBytes 2 p.metric).length = 2 := length_bigEndianBytes
  have hid : p.id.1.length = 32 := p.id.2
  have hset : (attrsWire
      [.plain LSA_PEER_ATTR_TYPE_METRIC true [] (bigEndianBytes 2 p.metric),
        .plain LSA_PEER_ATTR_TYPE_PEER_FLAGS true [] [UInt8.ofNat p.flags]]).length = 9 := by
    simp only [attrsWire, Attr.wire, List.length_append, hlen, List.length_cons, List.length_nil]
    decide
  have hhead : (headWire LSA_ATTR_TYPE_PEER true true p.id.1).length = 35 := by
    simp only [headWire, hid, List.length_append]
    rw [if_pos (by decide), List.length_append, hid]
    decide
  rw [peerAttr, Attr.wire, List.length_append, List.length_append, hset, hhead]
  decide

theorem kept_peerAttr : (peerAttr p).kept = peerAttr p := rfl

theorem signedLength_peers :
    signedLength (l ++ P.map peerAttr) = signedLength l + 45 * P.length := by
  induction P with
  | nil => simp
  | cons p P ih =>
    have hp : (l ++ peerAttr p :: P.map peerAttr).Perm (peerAttr p :: (l ++ P.map peerAttr)) :=
      List.perm_middle
    have hs : (peerAttr p).attrSigned = true := rfl
    rw [List.map_cons, signedLength_perm hp, signedLength_cons, if_pos hs, kept_peerAttr,
      wire_peerAttr, ih, List.length_cons]
    omega

variable (fixed P v) in
theorem signedLength_versioned : signedLength (versionAttr v :: (fixed ++ P.map peerAttr)) =
    signedLength fixed + 11 + 45 * P.length := by
  have hs : (versionAttr v).attrSigned = true := rfl
  have hkept : (versionAttr v).kept = versionAttr v := rfl
  rw [signedLength_cons, if_pos hs, hkept, wire_versionAttr, signedLength_peers]
  omega

/-- **Each peer adds 45 bytes to the signed part.** -/
theorem signedLength_meAttrs :
    signedLength (meAttrs fixed v sig P) = signedLength fixed + 11 + 45 * P.length := by
  have hs : ¬ (signatureAttr sig).attrSigned = true := Bool.false_ne_true
  rw [meAttrs, signedLength_perm (List.Perm.swap _ _ _), signedLength_cons, if_neg hs,
    Nat.zero_add, signedLength_versioned]

/-! ## What the mutators need of an attribute -/

/-- The attribute can be cloned and released. -/
structure Attr.Handled (a : Attr) : Prop where
  fits : a.Everywhere Attr.Fits
  nonempty : a.Everywhere Attr.Nonempty
  wf : AttrsWf a.children

theorem handled_plain {t : Int} {s : Bool} {k d : Bytes}
    (h : k.length + d.length + 128 ≤ SIZE_MAX) :
    (Attr.plain t s k d).Handled :=
  ⟨everywhere_iff.mpr ⟨h, trivial⟩, everywhere_iff.mpr ⟨by simp [Attr.Nonempty,
    Attr.dataIsAttrSet], trivial⟩, attrsWf_nil⟩

theorem handled_versionAttr : (versionAttr v).Handled :=
  handled_plain (by rw [length_bigEndianBytes]; decide)

theorem handled_signatureAttr (h : sig.length ≤ SSIZE_MAX) : (signatureAttr sig).Handled :=
  handled_plain (by unfold SSIZE_MAX at h; unfold SIZE_MAX; simp only [List.length_nil]; omega)

theorem handled_peerAttr : (peerAttr p).Handled := by
  have hid : p.id.1.length = 32 := p.id.2
  have hm : (Attr.plain LSA_PEER_ATTR_TYPE_METRIC true [] (bigEndianBytes 2 p.metric)).Handled :=
    handled_plain (by rw [length_bigEndianBytes]; decide)
  have hf : (Attr.plain LSA_PEER_ATTR_TYPE_PEER_FLAGS true [] [UInt8.ofNat p.flags]).Handled :=
    handled_plain (by simp [SIZE_MAX])
  refine ⟨everywhere_iff.mpr ⟨?_, hm.fits, hf.fits, trivial⟩,
    everywhere_iff.mpr ⟨fun _ => by simp [peerAttr, Attr.children], hm.nonempty, hf.nonempty,
      trivial⟩, ?_⟩
  · change p.id.1.length + 16 + 128 ≤ SIZE_MAX
    rw [hid]
    decide
  · refine attrsWf_cons.mpr ⟨fun b hb => ?_, attrsWf_nil, attrsWf_cons.mpr
      ⟨by simp, attrsWf_nil, attrsWf_nil⟩⟩
    rw [List.mem_singleton.mp hb]
    have htype : LSA_PEER_ATTR_TYPE_METRIC < LSA_PEER_ATTR_TYPE_PEER_FLAGS := by decide
    exact Prod.Lex.toLex_lt_toLex.mpr (Or.inl htype)

theorem Attr.Fixed.handled (h : a.Fixed) : a.Handled := by
  have hk := h.key
  have hd := h.datalen
  cases a with
  | plain t s k d =>
    obtain rfl : k = [] := hk
    refine handled_plain ?_
    unfold SSIZE_MAX at hd
    unfold SIZE_MAX
    simp only [List.length_nil]
    have : d.length ≤ 2 ^ 63 - 1 := hd
    omega
  | set t s k l => exact absurd h.plain (by simp [Attr.dataIsAttrSet])

theorem handled_meAttrs (hf : ∀ a ∈ fixed, a.Fixed) (hs : sig.length ≤ SSIZE_MAX) :
    ∀ a ∈ meAttrs fixed v sig P, a.Handled := by
  intro a ha
  rcases List.mem_cons.mp ha with rfl | ha
  · exact handled_versionAttr
  rcases List.mem_cons.mp ha with rfl | ha
  · exact handled_signatureAttr hs
  rcases List.mem_append.mp ha with ha | ha
  · exact (hf a ha).handled
  · obtain ⟨p, _, rfl⟩ := List.mem_map.mp ha
    exact handled_peerAttr

theorem pair_ne_of_type {t : Int} {k : Bytes} (h : a.type ≠ t) : a.pair ≠ toLex (t, k) :=
  fun e => h (congrArg (fun q => (ofLex q).1) e)

/-- A clone holds the same attributes. -/
theorem HasAttrs.clone {lsa : LsaObj} {id : NodeId} (h : HasAttrs lsa id l)
    (hl : ∀ a ∈ l, a.Handled) : ∃ obj, lsaClone lsa.toLsa = .ok obj ∧ HasAttrs obj id l := by
  have hall : ∀ p : Attr → Prop, (∀ a ∈ l, a.Everywhere p) → AttrsEverywhere p lsa.root :=
    fun p hp => (attrsEverywhere_perm h.perm).mpr (attrsEverywhere_iff.mpr hp)
  have hwf : AttrsWf lsa.root :=
    ⟨h.sorted, hall _ fun a ha => everywhere_iff.mpr ⟨(hl a ha).wf.1, (hl a ha).wf.2⟩⟩
  have hfit : AttrsFit lsa.root := hall _ fun a ha => (hl a ha).fits
  have hclone := lsaClone_eq hwf hfit.allocated
  exact ⟨_, hclone, h.id, rfl, h.sorted, h.perm⟩

theorem HasAttrs.put {lsa : LsaObj} {id : NodeId} (h : HasAttrs lsa id l)
    (hl : ∀ a ∈ l, a.Handled) : ∃ r, lsaPut lsa = .ok r := by
  have hall : ∀ p : Attr → Prop, (∀ a ∈ l, a.Everywhere p) → AttrsEverywhere p lsa.root :=
    fun p hp => (attrsEverywhere_perm h.perm).mpr (attrsEverywhere_iff.mpr hp)
  have hfit : AttrsFit lsa.root := hall _ fun a ha => (hl a ha).fits
  obtain ⟨n, hn⟩ := (attrTreeFree_isOk hfit lsa.bytes).mpr (hall _ fun a ha => (hl a ha).nonempty)
  unfold lsaPut
  rw [h.refcount, hn]
  by_cases he : lsa.root.isEmpty <;> simp [he]

end Attributes

/-! ## Version and signature -/

section Sign

variable {lsa : LsaObj} {id : NodeId} {l : List Attr} {sign : Bytes → Option Bytes} {sig : Bytes}

theorem currentVersion_versionAttr (v : Nat) :
    currentVersion (versionAttr v) = v % 2 ^ 64 := by
  change bigEndian ((bigEndianBytes 8 v).take 8) = _
  rw [List.take_of_length_le length_bigEndianBytes.le, bigEndian_bigEndianBytes]
  rfl

theorem lsaUpdateVersion_ok {v : Nat} (time : Nat) (h : HasAttrs lsa id (versionAttr v :: l)) :
    ∃ lsa', lsaUpdateVersion time lsa = .ok lsa' ∧
      HasAttrs lsa' id (versionAttr (nextVersion time (v % 2 ^ 64)) :: l) := by
  obtain ⟨lsa₁, hdel, h₁⟩ := h.del handled_versionAttr.fits handled_versionAttr.nonempty
  have hfind : lsaFindAttr lsa.toLsa LSA_ATTR_TYPE_VERSION [] = some (versionAttr v) :=
    h.find List.mem_cons_self (Nat.zero_le _)
  have hadd := fun v' => h₁.add (s := true) (d := bigEndianBytes 8 v') h.pair_ne
    (everywhere_iff.mp handled_versionAttr.fits).1
  unfold lsaUpdateVersion
  rw [hfind]
  simp only [hdel, ok_bind, currentVersion_versionAttr]
  exact hadd (nextVersion time (v % 2 ^ 64))

/-- **The signature is added iff the signed part fits the buffer.** -/
theorem lsaSignUnsigned_eq (hsign : ∀ data, ∃ sig, sign data = some sig ∧ sig.length ≤ SSIZE_MAX)
    (h : HasAttrs lsa id l) (hnone : ∀ a ∈ l, a.pair ≠ toLex (LSA_ATTR_TYPE_SIGNATURE, []))
    (hlen : signedLength l ≤ SIZE_MAX) :
    (MAX_SIGNED < signedLength l → lsaSignUnsigned sign lsa = .error .lsaSign) ∧
    (signedLength l ≤ MAX_SIGNED → ∃ lsa' sig, lsaSignUnsigned sign lsa = .ok lsa' ∧
      sig.length ≤ SSIZE_MAX ∧ HasAttrs lsa' id (signatureAttr sig :: l)) := by
  rw [← signedLength_perm h.perm] at hlen ⊢
  have hview : rootView true none lsa.root = signedPart lsa.root := by rw [rootView_none]; rfl
  have hser := @lsaSerialiseLength_eq lsa.toLsa true none
    (by rw [hview]; unfold signedLength at hlen; omega)
  rw [hview] at hser
  change lsaSerialiseLength lsa.toLsa true none = .ok (signedLength lsa.root) at hser
  unfold lsaSignUnsigned
  rw [hser, ok_bind]
  constructor
  · intro hbig
    have hbig' : 65408 < signedLength lsa.root := hbig
    simp [hbig']
  · intro hfits
    have hwire : (lsaWire lsa.id (signedPart lsa.root)).length ≤ signedLength lsa.root + 128 := by
      have hint := length_intBytes_le (signedLength lsa.root)
      rw [length_lsaWire]
      unfold signedLength at hint ⊢
      omega
    have hwrite := @lsaSerialise_eq lsa.toLsa true none (signedLength lsa.root + 128)
      (by rw [hview]; unfold MAX_SIGNED at hfits; unfold SIZE_MAX; omega)
      (by rw [hview]; exact hwire)
    rw [hview] at hwrite
    change lsaSerialise (signedLength lsa.root + 128) (signedLength lsa.root) lsa.toLsa true none =
      _ at hwrite
    obtain ⟨sig, hsig, hl⟩ := hsign (lsaWire lsa.id (signedPart lsa.root))
    obtain ⟨lsa', hadd, h'⟩ := h.add (s := false) (d := sig) hnone
      (everywhere_iff.mp (handled_signatureAttr hl).fits).1
    refine ⟨lsa', sig, ?_, hl, h'⟩
    have hfits' : ¬ 65408 < signedLength lsa.root := not_lt.mpr hfits
    simp [hfits', hwrite, hsig, not_lt.mpr hwire, hadd]

theorem lsaSign_eq (hsign : ∀ data, ∃ sig, sign data = some sig ∧ sig.length ≤ SSIZE_MAX)
    (hsig : sig.length ≤ SSIZE_MAX) (h : HasAttrs lsa id (signatureAttr sig :: l))
    (hlen : signedLength l ≤ SIZE_MAX) :
    (MAX_SIGNED < signedLength l → lsaSign sign lsa = .error .lsaSign) ∧
    (signedLength l ≤ MAX_SIGNED → ∃ lsa' sig, lsaSign sign lsa = .ok lsa' ∧
      sig.length ≤ SSIZE_MAX ∧ HasAttrs lsa' id (signatureAttr sig :: l)) := by
  have hs := handled_signatureAttr hsig
  obtain ⟨lsa₁, hdel, h₁⟩ := h.del hs.fits hs.nonempty
  have hfind : lsaFindAttr lsa.toLsa LSA_ATTR_TYPE_SIGNATURE [] = some (signatureAttr sig) :=
    h.find List.mem_cons_self (Nat.zero_le _)
  have heq : lsaSign sign lsa = lsaSignUnsigned sign lsa₁ := by
    unfold lsaSign
    rw [hfind]
    simp only [hdel, ok_bind]
  rw [heq]
  exact lsaSignUnsigned_eq hsign h₁ h.pair_ne hlen

end Sign

/-! ## Peers come and go -/

section Peers

variable {keyid id : NodeId} {fixed : List Attr} {me newme : LsaObj} {P : List PeerEntry}
  {p : PeerEntry} {sign : Bytes → Option Bytes} {v time : Nat} {sig : Bytes} {type : ConfPeerType}
  {cost : Int}

theorem MeInv.signedLength_eq (h : MeInv keyid fixed me P) :
    signedLength me.root = signedLength fixed + 11 + 45 * P.length := by
  obtain ⟨v, sig, _, ha⟩ := h.attrs
  rw [signedLength_perm ha.perm, signedLength_meAttrs]

variable (time) in
/-- The new version and the new signature of a clone of `me` whose peers are `P`. -/
theorem renew_eq (hsign : ∀ data, ∃ sig, sign data = some sig ∧ sig.length ≤ SSIZE_MAX)
    (hf : ∀ a ∈ fixed, a.Fixed) (hsig : sig.length ≤ SSIZE_MAX)
    (h : HasAttrs newme keyid (meAttrs fixed v sig P))
    (hlen : signedLength fixed + 11 + 45 * P.length ≤ SIZE_MAX) :
    (MAX_SIGNED < signedLength fixed + 11 + 45 * P.length →
      (lsaUpdateVersion time newme >>= lsaSign sign) = .error .lsaSign) ∧
    (signedLength fixed + 11 + 45 * P.length ≤ MAX_SIGNED →
      ∃ newme', (lsaUpdateVersion time newme >>= lsaSign sign) = .ok newme' ∧
        MeAt keyid fixed newme' (nextVersion time (v % 2 ^ 64)) P) := by
  obtain ⟨newme₁, hver, h₁⟩ := lsaUpdateVersion_ok time h
  have hswap := h₁.of_perm (List.Perm.swap _ _ _)
  have hl := signedLength_versioned fixed P (nextVersion time (v % 2 ^ 64))
  obtain ⟨hbig, hfits⟩ := lsaSign_eq hsign hsig hswap (hl ▸ hlen)
  rw [hl] at hbig hfits
  rw [hver, ok_bind]
  refine ⟨hbig, fun hle => ?_⟩
  obtain ⟨newme', sig', hok, hsig', h'⟩ := hfits hle
  have hattrs : HasAttrs newme' keyid (meAttrs fixed _ sig' P) :=
    h'.of_perm (List.Perm.swap _ _ _)
  refine ⟨newme', hok, ⟨sig', hsig', hattrs⟩, hf, ?_⟩
  rw [signedLength_perm hattrs.perm, signedLength_meAttrs]
  exact hle

/-- The peer `id` is none of the attributes of `me` before it joins. -/
theorem pair_meAttrs_ne (hf : ∀ a ∈ fixed, a.Fixed) (hid : id ∉ P.map PeerEntry.id) :
    ∀ a ∈ meAttrs fixed v sig P, a.pair ≠ toLex (LSA_ATTR_TYPE_PEER, id.1) := by
  intro a ha
  rcases List.mem_cons.mp ha with rfl | ha
  · exact pair_ne_of_type (show LSA_ATTR_TYPE_VERSION ≠ LSA_ATTR_TYPE_PEER by decide)
  rcases List.mem_cons.mp ha with rfl | ha
  · exact pair_ne_of_type (show LSA_ATTR_TYPE_SIGNATURE ≠ LSA_ATTR_TYPE_PEER by decide)
  rcases List.mem_append.mp ha with ha | ha
  · exact pair_ne_of_type (hf a ha).peer
  · obtain ⟨p, hp, rfl⟩ := List.mem_map.mp ha
    intro e
    have hkey : p.id.1 = id.1 := congrArg (fun q => (ofLex q).2) e
    exact hid (Subtype.ext hkey ▸ List.mem_map_of_mem hp)

/-- A peer that is there is not added: the program aborts. -/
theorem mylsaAddPeer_dup (h : MeInv keyid fixed me P) (hid : id ∈ P.map PeerEntry.id) :
    ∃ e, mylsaAddPeer sign time me id type cost = .error e := by
  obtain ⟨v, sig, hsig, ha⟩ := h.attrs
  obtain ⟨newme, hclone, hn⟩ := ha.clone (handled_meAttrs h.fixed hsig)
  obtain ⟨p, hp, rfl⟩ := List.mem_map.mp hid
  have hmem : peerAttr p ∈ meAttrs fixed v sig P :=
    List.mem_cons_of_mem _ (List.mem_cons_of_mem _
      (List.mem_append_right _ (List.mem_map_of_mem hp)))
  have hkey : p.id.1.length = 32 := p.id.2
  have hdup := hn.addSet_dup (s := true) hmem (by change p.id.1.length ≤ 65536; omega)
  change lsaAddAttrSet newme LSA_ATTR_TYPE_PEER true p.id.1 = _ at hdup
  refine ⟨.lsaAttrSetAddAttrSet, ?_⟩
  unfold mylsaAddPeer
  simp [hclone, hdup]

/-- The `PEER` set that `mylsa_add_peer` makes. -/
theorem peerSet_eq {lsa : LsaObj} (hr : lsa.refcount = 1) (metric flags : Nat) :
    ∃ b b', lsaAttrSetAddAttr lsa [] LSA_PEER_ATTR_TYPE_METRIC true [] (bigEndianBytes 2 metric) =
        .ok (some ({ lsa with bytes := b },
          [.plain LSA_PEER_ATTR_TYPE_METRIC true [] (bigEndianBytes 2 metric)])) ∧
      lsaAttrSetAddAttr { lsa with bytes := b }
          [.plain LSA_PEER_ATTR_TYPE_METRIC true [] (bigEndianBytes 2 metric)]
          LSA_PEER_ATTR_TYPE_PEER_FLAGS true [] [UInt8.ofNat flags] =
        .ok (some ({ lsa with bytes := b' },
          [.plain LSA_PEER_ATTR_TYPE_METRIC true [] (bigEndianBytes 2 metric),
            .plain LSA_PEER_ATTR_TYPE_PEER_FLAGS true [] [UInt8.ofNat flags]])) := by
  have hm := handled_plain (t := LSA_PEER_ATTR_TYPE_METRIC) (s := true) (k := [])
    (d := bigEndianBytes 2 metric) (by rw [length_bigEndianBytes]; decide)
  have hf := handled_plain (t := LSA_PEER_ATTR_TYPE_PEER_FLAGS) (s := true) (k := [])
    (d := [UInt8.ofNat flags]) (by simp [SIZE_MAX])
  have hins : Avl.insert compareAttrKeys
      (.plain LSA_PEER_ATTR_TYPE_PEER_FLAGS true [] [UInt8.ofNat flags])
      [.plain LSA_PEER_ATTR_TYPE_METRIC true [] (bigEndianBytes 2 metric)] =
      some [.plain LSA_PEER_ATTR_TYPE_METRIC true [] (bigEndianBytes 2 metric),
        .plain LSA_PEER_ATTR_TYPE_PEER_FLAGS true [] [UInt8.ofNat flags]] := by
    refine Avl.insert_last compareAttrKeys_orders fun z hz => ?_
    have htype : LSA_PEER_ATTR_TYPE_METRIC < LSA_PEER_ATTR_TYPE_PEER_FLAGS := by decide
    rw [List.mem_singleton.mp hz]
    exact Prod.Lex.toLex_lt_toLex.mpr (Or.inl htype)
  have hcount : ∀ b, ({ lsa with bytes := b } : LsaObj).refcount = 1 := fun _ => hr
  have hsecond := fun b => lsaAttrSetAddAttr_fresh (hcount b)
    (List.pairwise_singleton _ _) (everywhere_iff.mp hf.fits).1 hins
  exact ⟨_, _, lsaAttrSetAddAttr_fresh hr Avl.sorted_nil (everywhere_iff.mp hm.fits).1 rfl,
    hsecond _⟩

variable (time cost) in
/-- The LSA with a new peer, if the signed part has room for it. -/
theorem mylsaAddPeer_meAt (hsign : ∀ data, ∃ sig, sign data = some sig ∧ sig.length ≤ SSIZE_MAX)
    (h : MeAt keyid fixed me v P) (hid : id ∉ P.map PeerEntry.id) {flags : Nat}
    (hflags : confPeerTypeToLsaPeerFlags type = .ok flags) :
    (MAX_SIGNED < signedLength me.root + 45 →
      mylsaAddPeer sign time me id type cost = .error .lsaSign) ∧
    (signedLength me.root + 45 ≤ MAX_SIGNED →
      ∃ newme, mylsaAddPeer sign time me id type cost = .ok newme ∧
        MeAt keyid fixed newme (nextVersion time (v % 2 ^ 64))
          (⟨id, (cost % 65536).toNat, flags⟩ :: P)) := by
  obtain ⟨sig, hsig, ha⟩ := h.attrs
  have hhandled := handled_meAttrs (v := v) (P := P) h.fixed hsig
  obtain ⟨newme, hclone, hn⟩ := ha.clone hhandled
  obtain ⟨r, hput⟩ := ha.put hhandled
  have hfit : (Attr.set LSA_ATTR_TYPE_PEER true id.1 []).Fits := by
    have hlen : id.1.length = 32 := id.2
    change id.1.length + 16 + 128 ≤ SIZE_MAX
    rw [hlen]
    decide
  obtain ⟨newme₁, store, hset, _, hr, hstore⟩ :=
    hn.addSet (s := true) (pair_meAttrs_ne h.fixed hid) hfit
  obtain ⟨b, b', hm, hf⟩ := peerSet_eq hr (cost % 65536).toNat flags
  let p : PeerEntry := ⟨id, (cost % 65536).toNat, flags⟩
  have hnew := (hstore b' _).of_perm (show List.Perm _ (meAttrs fixed v sig (p :: P)) by
    have hmid : (fixed ++ peerAttr p :: P.map peerAttr).Perm
      (peerAttr p :: (fixed ++ P.map peerAttr)) := List.perm_middle
    exact ((hmid.cons _).trans (List.Perm.swap _ _ _)).cons _ |>.trans (List.Perm.swap _ _ _)
      |>.symm)
  have hsize := h.size
  have hlen := h.inv.signedLength_eq
  have hcount : (p :: P).length = P.length + 1 := rfl
  obtain ⟨hbig, hfits⟩ := renew_eq time hsign h.fixed hsig hnew (by
    rw [hcount]; unfold MAX_SIGNED at hsize; unfold SIZE_MAX; omega)
  rw [hcount] at hbig hfits
  unfold mylsaAddPeer
  simp only [hclone, hset, hm, hf, hflags, ok_bind, Option.getD_some]
  rw [← bind_assoc]
  constructor
  · intro hgt
    rw [hbig (by omega)]
    rfl
  · intro hle
    obtain ⟨newme', hok, h'⟩ := hfits (by omega)
    refine ⟨newme', ?_, h'⟩
    rw [hok]
    simp [hput]

variable (time cost) in
/-- **A new peer joins the others iff the signed part has room for it.** -/
theorem mylsaAddPeer_new (hsign : ∀ data, ∃ sig, sign data = some sig ∧ sig.length ≤ SSIZE_MAX)
    (h : MeInv keyid fixed me P) (hid : id ∉ P.map PeerEntry.id) {flags : Nat}
    (hflags : confPeerTypeToLsaPeerFlags type = .ok flags) :
    (MAX_SIGNED < signedLength me.root + 45 →
      mylsaAddPeer sign time me id type cost = .error .lsaSign) ∧
    (signedLength me.root + 45 ≤ MAX_SIGNED →
      ∃ newme, mylsaAddPeer sign time me id type cost = .ok newme ∧
        MeInv keyid fixed newme (⟨id, (cost % 65536).toNat, flags⟩ :: P)) := by
  obtain ⟨v, hat⟩ := h.meAt
  obtain ⟨hbig, hfits⟩ := mylsaAddPeer_meAt time cost hsign hat hid hflags
  exact ⟨hbig, fun hle => (hfits hle).imp fun _ hnew => ⟨hnew.1, hnew.2.inv⟩⟩

variable (time) in
/-- The LSA without a peer that is there. -/
theorem mylsaDelPeer_meAt (hsign : ∀ data, ∃ sig, sign data = some sig ∧ sig.length ≤ SSIZE_MAX)
    (h : MeAt keyid fixed me v (p :: P)) :
    ∃ newme, mylsaDelPeer sign time me p.id = .ok newme ∧
      MeAt keyid fixed newme (nextVersion time (v % 2 ^ 64)) P := by
  obtain ⟨sig, hsig, ha⟩ := h.attrs
  have hhandled := handled_meAttrs (v := v) (P := p :: P) h.fixed hsig
  obtain ⟨newme, hclone, hn⟩ := ha.clone hhandled
  obtain ⟨r, hput⟩ := ha.put hhandled
  have hfirst : (meAttrs fixed v sig (p :: P)).Perm (peerAttr p :: meAttrs fixed v sig P) :=
    ((List.perm_middle.cons _).cons _).trans
      (((List.Perm.swap _ _ _).cons _).trans (List.Perm.swap _ _ _))
  have hkey : p.id.1.length = 32 := p.id.2
  obtain ⟨newme₁, hdel, h₁⟩ := (hn.of_perm hfirst).delBykey (by
    change p.id.1.length ≤ 65536
    omega) handled_peerAttr.fits handled_peerAttr.nonempty
  change lsaDelAttrBykey newme LSA_ATTR_TYPE_PEER p.id.1 = _ at hdel
  have hsize := h.size
  have hlen := h.inv.signedLength_eq
  rw [List.length_cons] at hlen
  obtain ⟨_, hfits⟩ := renew_eq time hsign h.fixed hsig h₁ (by
    unfold MAX_SIGNED at hsize
    unfold SIZE_MAX
    omega)
  obtain ⟨newme', hok, h'⟩ := hfits (by omega)
  refine ⟨newme', ?_, h'⟩
  unfold mylsaDelPeer
  simp only [hclone, hdel, ok_bind]
  rw [← bind_assoc, hok]
  simp [hput]

variable (time) in
/-- **A peer that is there leaves the others.** -/
theorem mylsaDelPeer_ok (hsign : ∀ data, ∃ sig, sign data = some sig ∧ sig.length ≤ SSIZE_MAX)
    (h : MeInv keyid fixed me (p :: P)) :
    ∃ newme, mylsaDelPeer sign time me p.id = .ok newme ∧ MeInv keyid fixed newme P := by
  obtain ⟨v, hat⟩ := h.meAt
  exact (mylsaDelPeer_meAt time hsign hat).imp fun _ hnew => ⟨hnew.1, hnew.2.inv⟩

theorem MeAt.of_perm {P' : List PeerEntry} (h : MeAt keyid fixed me v P) (hp : P.Perm P') :
    MeAt keyid fixed me v P' := by
  obtain ⟨sig, hsig, ha⟩ := h.attrs
  exact ⟨⟨sig, hsig, ha.of_perm ((((hp.map _).append_left _).cons _).cons _)⟩, h.fixed, h.size⟩

theorem MeInv.of_perm {P' : List PeerEntry} (h : MeInv keyid fixed me P) (hp : P.Perm P') :
    MeInv keyid fixed me P' := by
  obtain ⟨v, hat⟩ := h.meAt
  exact (hat.of_perm hp).inv

end Peers

/-! ## The start -/

section Init

variable {keyid : NodeId} {me : LsaObj} {sign : Bytes → Option Bytes} {time : Nat}
  {nodeName pubkey : Option Bytes}

/-- The attributes that `dvpn` puts into `me` for good. -/
def initAttrs (nodeName : Option Bytes) (pubkey : Bytes) : List Attr :=
  .plain LSA_ATTR_TYPE_PUBKEY true [] pubkey ::
    ((nodeName.toList.map fun name => .plain LSA_ATTR_TYPE_NODE_NAME true [] name) ++
      [.plain LSA_ATTR_TYPE_ADV_PATH false [] []])

theorem fixed_plain {t : Int} {s : Bool} {d : Bytes} (hd : d.length ≤ SSIZE_MAX)
    (ht : t ≠ LSA_ATTR_TYPE_PEER ∧ t ≠ LSA_ATTR_TYPE_VERSION ∧ t ≠ LSA_ATTR_TYPE_SIGNATURE) :
    (Attr.plain t s [] d).Fixed := ⟨rfl, rfl, hd, ht.1, ht.2.1, ht.2.2⟩

theorem fixed_initAttrs (hname : ∀ name ∈ nodeName, name.length ≤ SSIZE_MAX) {key : Bytes}
    (hkey : key.length ≤ 65536) : ∀ a ∈ initAttrs nodeName key, a.Fixed := by
  intro a ha
  rcases List.mem_cons.mp ha with rfl | ha
  · exact fixed_plain (le_trans hkey (by decide)) (by decide)
  rcases List.mem_append.mp ha with ha | ha
  · obtain ⟨name, hn, rfl⟩ := List.mem_map.mp ha
    exact fixed_plain (hname name (Option.mem_toList.mp hn)) (by decide)
  · obtain rfl := List.mem_singleton.mp ha
    exact fixed_plain (Nat.zero_le _) (by decide)

theorem wire_plain_le {t : Int} {d : Bytes} (ht : (headWire t false true []).length = 2) :
    (Attr.plain t true [] d).wire.length ≤ d.length + 12 := by
  have hint := length_intBytes_le d.length
  rw [Attr.wire, List.length_append, List.length_append, ht]
  omega

theorem signedLength_initAttrs (hname : ∀ name ∈ nodeName, name.length ≤ SSIZE_MAX) {key : Bytes}
    (hkey : key.length ≤ 65536) : signedLength (initAttrs nodeName key) ≤ SSIZE_MAX + 66000 := by
  have hk := wire_plain_le (t := LSA_ATTR_TYPE_PUBKEY) (d := key) (by decide)
  have hpath : signedLength [.plain LSA_ATTR_TYPE_ADV_PATH false [] []] = 32 := by decide
  have hcons : ∀ (t : Int) (d : Bytes) (l : List Attr), signedLength (.plain t true [] d :: l) =
      (Attr.plain t true [] d).wire.length + signedLength l := fun t d l => by
    rw [signedLength_cons, if_pos (show (Attr.plain t true [] d).attrSigned = true from rfl)]
    rfl
  unfold initAttrs
  cases nodeName with
  | none =>
    simp only [Option.toList_none, List.map_nil, List.nil_append]
    rw [hcons, hpath]
    unfold SSIZE_MAX
    omega
  | some name =>
    have hn := wire_plain_le (t := LSA_ATTR_TYPE_NODE_NAME) (d := name) (by decide)
    have hle := hname name rfl
    simp only [Option.toList_some, List.map_cons, List.map_nil, List.cons_append, List.nil_append]
    rw [hcons, hcons, hpath]
    omega

/-- **The start**: the LSA of the node without a peer. -/
theorem meInit_inv (hsign : ∀ data, ∃ sig, sign data = some sig ∧ sig.length ≤ SSIZE_MAX)
    (hname : ∀ name ∈ nodeName, name.length ≤ SSIZE_MAX)
    (hkey : ∀ buf ∈ pubkey, buf.length ≤ 65536)
    (h : meInit sign time keyid nodeName pubkey = .ok me) : ∃ fixed, MeInv keyid fixed me [] := by
  have halloc : HasAttrs (lsaAlloc keyid) keyid [] :=
    ⟨rfl, rfl, Avl.sorted_nil, List.Perm.refl _⟩
  have hfit : ∀ {t : Int} {s : Bool} {d : Bytes}, d.length ≤ SSIZE_MAX →
      (Attr.plain t s [] d).Fits := fun {t s d} hd => by
    change 0 + d.length + 128 ≤ SIZE_MAX
    unfold SSIZE_MAX at hd
    unfold SIZE_MAX
    omega
  obtain ⟨me₁, hpath, h₁⟩ := halloc.add (t := LSA_ATTR_TYPE_ADV_PATH) (s := false) (k := [])
    (d := []) (fun _ ha => absurd ha List.not_mem_nil) (hfit (Nat.zero_le _))
  obtain ⟨me₂, hnode, h₂⟩ : ∃ me₂, addNodeName nodeName me₁ = .ok me₂ ∧ HasAttrs me₂ keyid
      ((nodeName.toList.map fun name => .plain LSA_ATTR_TYPE_NODE_NAME true [] name) ++
        [.plain LSA_ATTR_TYPE_ADV_PATH false [] []]) := by
    cases nodeName with
    | none => exact ⟨me₁, rfl, h₁⟩
    | some name =>
      refine h₁.add (fun a ha => pair_ne_of_type ?_) (hfit (hname name rfl))
      rw [List.mem_singleton.mp ha]
      exact (by decide : LSA_ATTR_TYPE_ADV_PATH ≠ LSA_ATTR_TYPE_NODE_NAME)
  cases pubkey with
  | none =>
    have hkey : ∀ me₃, lsaAddPubkey none me₃ = .error .lsaAddPubkey := fun _ => rfl
    rw [meInit, hpath, ok_bind, hnode, ok_bind] at h
    obtain ⟨me₃, _, h⟩ := bind_eq_ok.mp h
    rw [hkey, error_bind] at h
    exact absurd h (by simp)
  | some key =>
    have hf := fixed_initAttrs hname (hkey key rfl)
    have hrest : ∀ {t : Int}, (∀ a ∈ initAttrs nodeName key, a.type ≠ t) →
        ∀ a ∈ initAttrs nodeName key, a.pair ≠ toLex (t, []) :=
      fun ht a ha => pair_ne_of_type (ht a ha)
    obtain ⟨me₃, hver, h₃⟩ := h₂.add (s := true)
      (d := bigEndianBytes 8 (((time + 1) <<< 8) % 2 ^ 64))
      (fun a ha => hrest (fun a ha => (hf a ha).version) a (List.mem_cons_of_mem _ ha))
      (everywhere_iff.mp handled_versionAttr.fits).1
    have hpubne : ∀ a ∈ versionAttr (((time + 1) <<< 8) % 2 ^ 64) ::
        ((nodeName.toList.map fun name => .plain LSA_ATTR_TYPE_NODE_NAME true [] name) ++
          [.plain LSA_ATTR_TYPE_ADV_PATH false [] []]), a.type ≠ LSA_ATTR_TYPE_PUBKEY := by
      intro a ha
      rcases List.mem_cons.mp ha with rfl | ha
      · exact (by decide : LSA_ATTR_TYPE_VERSION ≠ LSA_ATTR_TYPE_PUBKEY)
      rcases List.mem_append.mp ha with ha | ha
      · obtain ⟨name, _, rfl⟩ := List.mem_map.mp ha
        exact (by decide : LSA_ATTR_TYPE_NODE_NAME ≠ LSA_ATTR_TYPE_PUBKEY)
      · obtain rfl := List.mem_singleton.mp ha
        exact (by decide : LSA_ATTR_TYPE_ADV_PATH ≠ LSA_ATTR_TYPE_PUBKEY)
    obtain ⟨me₄, hpub, h₄⟩ := h₃.add (s := true) (d := key)
      (fun a ha => pair_ne_of_type (hpubne a ha)) (hfit (le_trans (hkey key rfl) (by decide)))
    have hattrs : HasAttrs me₄ keyid
        (versionAttr (((time + 1) <<< 8) % 2 ^ 64) :: (initAttrs nodeName key ++ [])) := by
      rw [List.append_nil]
      exact h₄.of_perm (List.Perm.swap _ _ _)
    have hlen := signedLength_versioned (initAttrs nodeName key) []
      (((time + 1) <<< 8) % 2 ^ 64)
    have hbound := signedLength_initAttrs hname (hkey key rfl)
    rw [List.map_nil, List.length_nil] at hlen
    have hsigne : ∀ a ∈ versionAttr (((time + 1) <<< 8) % 2 ^ 64) ::
        (initAttrs nodeName key ++ []), a.pair ≠ toLex (LSA_ATTR_TYPE_SIGNATURE, []) := by
      intro a ha
      rw [List.append_nil] at ha
      rcases List.mem_cons.mp ha with rfl | ha
      · exact pair_ne_of_type (by decide : LSA_ATTR_TYPE_VERSION ≠ LSA_ATTR_TYPE_SIGNATURE)
      · exact pair_ne_of_type (hf a ha).signature
    obtain ⟨hbig, hfits⟩ := lsaSignUnsigned_eq hsign hattrs hsigne (by
      rw [hlen]
      unfold SSIZE_MAX at hbound
      unfold SIZE_MAX
      omega)
    have hunsigned : lsaSign sign me₄ = lsaSignUnsigned sign me₄ := by
      unfold lsaSign
      rw [hattrs.find_none hsigne]
    change lsaInitialVersion time me₂ = .ok me₃ at hver
    change lsaAddPubkey (some key) me₃ = .ok me₄ at hpub
    rw [meInit, hpath, ok_bind, hnode, ok_bind, hver, ok_bind, hpub, ok_bind, hunsigned] at h
    by_cases hle : signedLength (versionAttr (((time + 1) <<< 8) % 2 ^ 64) ::
        (initAttrs nodeName key ++ [])) ≤ MAX_SIGNED
    · obtain ⟨me', sig, hok, hsig, h'⟩ := hfits hle
      obtain rfl := Except.ok.inj (h.symm.trans hok)
      have hme : HasAttrs me keyid (meAttrs (initAttrs nodeName key) _ sig []) :=
        h'.of_perm (List.Perm.swap _ _ _)
      refine ⟨initAttrs nodeName key, ⟨_, sig, hsig, hme⟩, hf, ?_⟩
      rw [signedLength_perm hme.perm, signedLength_meAttrs, List.length_nil]
      omega
    · rw [hbig (not_le.mp hle)] at h
      exact absurd h (by simp)

end Init

end Dvpn
