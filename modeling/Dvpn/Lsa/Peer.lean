import Dvpn.Conf.Config
import Dvpn.Lsa.Serialise

/-!
# Reading attributes (`lsa_peer.c`, `lsa_path.c`, `loc_rib.c:44-61`, `dvpn.c:134-151`)

The attributes that routing reads: the version, the `PEER` sets and the hops of an `ADV_PATH`.
The source reads the version, the metric and the flags only from a signed attribute of the exact
length; a nested set has the length of `struct lsa_attr_set`, which is none of these.

`nodeIds data` are the node ids a path visits; a last piece of less than `NODE_ID_LEN` bytes,
where the source reads past the end of the data, is left out.
-/

namespace Dvpn

/-- A big-endian number. -/
def bigEndian (data : Bytes) : Nat := data.foldl (fun v b => v * 256 + b.toNat) 0

/-- The data of an attribute that is there, signed and of length `len`. -/
def signedData (attr : Option Attr) (len : Nat) : Option Bytes :=
  match attr with
  | some (.plain _ true _ data) => if data.length = len then some data else none
  | _ => none

/-- `lsa_get_version` (`loc_rib.c:44-61`). -/
def lsaGetVersion (lsa : Lsa) : Nat :=
  match signedData (lsaFindAttr lsa LSA_ATTR_TYPE_VERSION []) 8 with
  | some data => bigEndian data
  | none => 0

def LSA_PEER_ATTR_TYPE_METRIC : Int := 1
def LSA_PEER_ATTR_TYPE_PEER_FLAGS : Int := 2
def LSA_PEER_FLAGS_CUSTOMER : Nat := 1
def LSA_PEER_FLAGS_TRANSIT : Nat := 2

/-- `conf_peer_type_to_lsa_peer_flags` (`dvpn.c:134-151`). -/
def confPeerTypeToLsaPeerFlags : ConfPeerType → Except Crash Nat
  | .epeer => .ok 0
  | .customer => .ok LSA_PEER_FLAGS_CUSTOMER
  | .transit => .ok LSA_PEER_FLAGS_TRANSIT
  | .ipeer => .ok (LSA_PEER_FLAGS_CUSTOMER ||| LSA_PEER_FLAGS_TRANSIT)
  | .invalid => .error .confPeerTypeToLsaPeerFlags
  | .dbonly => .error .confPeerTypeToLsaPeerFlags

/-- `struct lsa_peer_info` (`lsa_peer.h`). -/
structure LsaPeerInfo where
  metric : Nat
  flags : Nat

/-- `lsa_get_peer_info` (`lsa_peer.c:28-55`): `none` is the return value -1. -/
def lsaGetPeerInfo (lsa : Lsa) (peerid : NodeId) : Option LsaPeerInfo :=
  match lsaFindAttr lsa LSA_ATTR_TYPE_PEER peerid.1 with
  | some (.set _ true _ set) =>
    some {
      metric :=
        match signedData (lsaAttrSetFindAttr set LSA_PEER_ATTR_TYPE_METRIC []) 2 with
        | some data => bigEndian data
        | none => 1
      flags :=
        match signedData (lsaAttrSetFindAttr set LSA_PEER_ATTR_TYPE_PEER_FLAGS []) 1 with
        | some data => bigEndian data
        | none => 0 }
  | _ => none

/-- The node ids that start at the multiples of `NODE_ID_LEN` of `data`. -/
def nodeIds (data : Bytes) : List NodeId :=
  List.ofFn fun i : Fin (data.length / NODE_ID_LEN) =>
    ⟨(data.drop (i * NODE_ID_LEN)).take NODE_ID_LEN, by
      have hi := i.2
      rw [List.length_take, List.length_drop]
      unfold NODE_ID_LEN at hi ⊢
      omega⟩

/-- The data of an attribute that is read as a path; the bytes of a `struct lsa_attr_set` hold
no node id. -/
def Attr.pathData : Attr → Bytes
  | .plain _ _ _ data => data
  | .set _ _ _ _ => []

/-- `lsa_path_contains` (`lsa_path.c:26-41`). -/
def lsaPathContains (attr : Attr) (id : NodeId) : Except Crash Bool :=
  if attr.type ≠ LSA_ATTR_TYPE_ADV_PATH then .error .lsaPathContains
  else .ok ((nodeIds attr.pathData).any fun hop => memcmp hop.1 id.1 NODE_ID_LEN = 0)

/-- The `ADV_PATH` attribute of an LSA. -/
def Lsa.advPath (lsa : Lsa) : Option Attr := lsaFindAttr lsa LSA_ATTR_TYPE_ADV_PATH []

theorem length_nodeIds (data : Bytes) : (nodeIds data).length = data.length / NODE_ID_LEN :=
  List.length_ofFn

theorem getElem_nodeIds {data : Bytes} {i : Nat} (h : i < (nodeIds data).length) :
    ((nodeIds data)[i]).1 = (data.drop (i * NODE_ID_LEN)).take NODE_ID_LEN := by
  unfold nodeIds
  exact congrArg Subtype.val (List.getElem_ofFn h)

/-- An id before the data of a path is its first hop. -/
theorem nodeIds_append (id : NodeId) (data : Bytes) :
    nodeIds (id.1 ++ data) = id :: nodeIds data := by
  have hid : id.1.length = NODE_ID_LEN := id.2
  have hlen : (id.1 ++ data).length / NODE_ID_LEN = data.length / NODE_ID_LEN + 1 := by
    rw [List.length_append, hid, Nat.add_div_left _ (by decide)]
  refine List.ext_getElem (by rw [length_nodeIds, hlen, List.length_cons, length_nodeIds]) ?_
  intro i h h'
  refine Subtype.ext ?_
  rw [getElem_nodeIds]
  cases i with
  | zero =>
    rw [Nat.zero_mul, List.drop_zero, List.take_append_of_le_length hid.ge,
      List.take_of_length_le hid.le, List.getElem_cons_zero]
  | succ i =>
    rw [List.getElem_cons_succ, getElem_nodeIds,
      show (i + 1) * NODE_ID_LEN = id.1.length + i * NODE_ID_LEN by rw [hid]; ring,
      ← List.drop_drop, List.drop_left]

/-- A path is empty, or an id and a path. -/
theorem nodeIds_cases {data : Bytes} (h : data.length % NODE_ID_LEN = 0) :
    data = [] ∨ ∃ (id : NodeId) (rest : Bytes), data = id.1 ++ rest ∧
      rest.length % NODE_ID_LEN = 0 := by
  by_cases hlen : data.length < NODE_ID_LEN
  · left
    rw [Nat.mod_eq_of_lt hlen] at h
    exact List.length_eq_zero_iff.mp h
  · have hle := not_lt.mp hlen
    refine Or.inr ⟨⟨data.take NODE_ID_LEN, List.length_take_of_le hle⟩, data.drop NODE_ID_LEN,
      (List.take_append_drop _ _).symm, ?_⟩
    rw [List.length_drop, ← Nat.mod_eq_sub_mod hle, h]

theorem advPath_mem {lsa : Lsa} {attr : Attr} (h : lsa.advPath = some attr) : attr ∈ lsa.root := by
  unfold Lsa.advPath lsaFindAttr at h
  exact (lsaAttrSetFindAttr_sound h).1

theorem advPath_type {lsa : Lsa} {attr : Attr} (h : lsa.advPath = some attr) :
    attr.type = LSA_ATTR_TYPE_ADV_PATH := by
  unfold Lsa.advPath lsaFindAttr at h
  exact (lsaAttrSetFindAttr_sound h).2.1

theorem lsaPathContains_eq {attr : Attr} (h : attr.type = LSA_ATTR_TYPE_ADV_PATH) (id : NodeId) :
    lsaPathContains attr id = .ok (decide (id ∈ nodeIds attr.pathData)) := by
  unfold lsaPathContains
  rw [if_neg (not_not.mpr h)]
  congr 1
  rw [Bool.eq_iff_iff, List.any_eq_true, decide_eq_true_iff]
  simp only [memcmp_ids_zero, decide_eq_true_eq]
  constructor
  · rintro ⟨hop, hm, rfl⟩
    exact hm
  · exact fun hm => ⟨id, hm, rfl⟩

end Dvpn
