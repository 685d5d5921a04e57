import Dvpn.Lsa.Diff
import Dvpn.Lsa.Peer
import Dvpn.Rib.Listener

/-!
# The RIB of a peer (`adj_rib_in.h`, `adj_rib_in.c`)

An `adj_rib_in` keeps the last LSA of every id that one peer sent, accepted or not; its listeners
are told of the ones that `map` accepts, and `size` counts the bytes of these. `map` is evaluated
again on the old and on the new LSA whenever something changes.

* What `map` asks of nettle and of gnutls is a parameter, `Crypto`. It also has the bytes of a
  `struct lsa_attr_set`, which is what `lsa_attr_data` gives for a set.
* A `struct adj_rib_in_lsa_ref` is its `lsa`. `iv_avl_tree_insert` never meets an equal element.
* `size` is an `int`; `size -= bytes` and the test against the quota are made in `size_t`.
* `adj_rib_in_truncate` deletes the root of the tree until there is none. The shape of the tree
  is not modelled: the order in which the elements come to the root is an argument.
* The references to an LSA are not counted. An LSA without references is freed, which nobody sees
  unless it has an empty set, on which `attr_tree_free` faults (`Dvpn.Lsa.Deserialise`).

`adjStep` is the RIB as a machine with the operations `AdjOp`.
-/

namespace Dvpn

/-! ## The data -/

/-- What `map` asks of nettle and gnutls. -/
structure Crypto where
  /-- `sha256_digest` -/
  sha256 : Bytes → NodeId
  /-- `gnutls_pubkey_import` of DER data succeeds -/
  pubkeyImport : Bytes → Bool
  /-- `gnutls_pubkey_verify_data2` of a public key, data and a signature succeeds -/
  pubkeyVerify : Bytes → Bytes → Bytes → Bool
  /-- the `sizeof(struct lsa_attr_set)` bytes of a set -/
  setBytes : AttrSet → Bytes

/-- `lsa_attr_data` (`lsa.h`). -/
def Crypto.attrData (c : Crypto) : Attr → Bytes
  | .plain _ _ _ data => data
  | .set _ _ _ attrs => c.setBytes attrs

def ADJ_RIB_IN_MAX_BYTES : Nat := 1048576
def LSA_MAX_BYTES : Nat := 32768

/-- `struct adj_rib_in`. -/
structure AdjRibIn where
  myid : Option NodeId
  remoteid : Option NodeId
  lsas : List LsaPtr
  size : Int

/-- `adj_rib_in_init` (`adj_rib_in.c:50-55`), after `myid` and `remoteid` were set. -/
def adjRibInInit (myid remoteid : Option NodeId) : AdjRibIn :=
  { myid := myid, remoteid := remoteid, lsas := [], size := 0 }

/-- `compare_refs` (`adj_rib_in.c:39-48`). -/
def compareRefs (a b : LsaPtr) : Int := memcmp a.lsa.id.1 b.lsa.id.1 NODE_ID_LEN

/-- `adj_rib_in_find_ref` (`adj_rib_in.c:57-80`). -/
def adjRibInFindRef (rib : AdjRibIn) (id : NodeId) : Option LsaPtr :=
  Avl.find (fun ref => memcmp id.1 ref.lsa.id.1 NODE_ID_LEN) rib.lsas

/-! ## The filter -/

/-- The tests of the path in `map` (`adj_rib_in.c:102-114`). A set is shorter than a node id. -/
def acceptsPath (myid remoteid : Option NodeId) (lsa : Lsa) : Except Crash Bool :=
  match lsaFindAttr lsa LSA_ATTR_TYPE_ADV_PATH [] with
  | none => return false
  | some attr =>
    if attr.datalen < NODE_ID_LEN ∨ attr.datalen % NODE_ID_LEN ≠ 0 then return false
    else
      match remoteid with
      | none => return false
      | some remoteid =>
        if memcmp remoteid.1 attr.pathData NODE_ID_LEN ≠ 0 then return false
        else
          match myid with
          | none => return true
          | some myid => do return !(← lsaPathContains attr myid)

/-- The tests of the public key and the signature in `map` (`adj_rib_in.c:116-174`). -/
def acceptsSignature (c : Crypto) (lsa : Lsa) : Except Crash Bool :=
  match lsaFindAttr lsa LSA_ATTR_TYPE_PUBKEY [] with
  | none => return false
  | some pubkey =>
    if memcmp lsa.id.1 (c.sha256 (c.attrData pubkey)).1 NODE_ID_LEN ≠ 0 then return false
    else if !c.pubkeyImport (c.attrData pubkey) then return false
    else
      match lsaFindAttr lsa LSA_ATTR_TYPE_SIGNATURE [] with
      | none => return false
      | some signature => do
        let serlen ← lsaSerialiseLength lsa true none
        if serlen > 65536 - 128 then throw .adjRibInMap
        let buflen := serlen + 128
        let (len, buf) ← lsaSerialise buflen serlen lsa true none
        if len > buflen then throw .adjRibInMap
        return c.pubkeyVerify (c.attrData pubkey) buf (c.attrData signature)

/-- Whether `map` (`adj_rib_in.c:82-177`) returns the LSA. -/
def accepts (c : Crypto) (myid remoteid : Option NodeId) (lsa : Lsa) : Except Crash Bool :=
  if lsa.bytes + NODE_ID_LEN > LSA_MAX_BYTES then return false
  else do
    if ← acceptsPath myid remoteid lsa then acceptsSignature c lsa else return false

/-- `map` (`adj_rib_in.c:82-177`). -/
def adjRibInMap (c : Crypto) (rib : AdjRibIn) : Option LsaPtr → Except Crash (Option LsaPtr)
  | none => return none
  | some lsa => do
    if ← accepts c rib.myid rib.remoteid lsa.lsa then return some lsa else return none

/-! ## Updates -/

/-- The accounting of `notify` (`adj_rib_in.c:188-191`). -/
def countSize (size : Int) (old new : Option LsaPtr) : Int :=
  let size :=
    match old with
    | some old => toInt (size - old.lsa.bytes)
    | none => size
  match new with
  | some new => toInt (size + new.lsa.bytes)
  | none => size

/-- `notify` (`adj_rib_in.c:179-210`). -/
def notify (c : Crypto) (rib : AdjRibIn) (old new : Option LsaPtr) :
    Except Crash (AdjRibIn × List RibEvent) := do
  let old ← adjRibInMap c rib old
  let new ← adjRibInMap c rib new
  return ({ rib with size := countSize rib.size old new },
    changeEvents old RIB_COST_UNREACHABLE new RIB_COST_UNREACHABLE)

/-- `adj_rib_in_del_lsa` (`adj_rib_in.c:212-220`). -/
def adjRibInDelLsa (c : Crypto) (rib : AdjRibIn) (ref : LsaPtr) :
    Except Crash (AdjRibIn × List RibEvent) := do
  let (rib, es) ← notify c rib (some ref) none
  return ({ rib with lsas := Avl.delete compareRefs ref rib.lsas }, es)

/-- The test of `adj_rib_in_add_lsa` against the quota (`adj_rib_in.c:236`). -/
def AdjRibIn.overflows (rib : AdjRibIn) (lsa : Lsa) : Prop :=
  (rib.size + lsa.bytes) % 2 ^ 64 > ADJ_RIB_IN_MAX_BYTES

instance (rib : AdjRibIn) (lsa : Lsa) : Decidable (rib.overflows lsa) :=
  inferInstanceAs (Decidable ((rib.size + lsa.bytes) % 2 ^ 64 > ADJ_RIB_IN_MAX_BYTES))

/-- `adj_rib_in_add_lsa` (`adj_rib_in.c:222-268`): the return value, the RIB, and what the
listeners are told. -/
def adjRibInAddLsa (c : Crypto) (rib : AdjRibIn) (lsa : LsaPtr) :
    Except Crash (Int × AdjRibIn × List RibEvent) :=
  let ref := adjRibInFindRef rib lsa.lsa.id
  if lsa.lsa.root.isEmpty then
    match ref with
    | none => return (-1, rib, [])
    | some ref => do
      let (rib, es) ← adjRibInDelLsa c rib ref
      return (0, rib, es)
  else if rib.overflows lsa.lsa then
    -- the fingerprint of remoteid is printed
    if rib.remoteid.isNone then throw .printFingerprintNull
    else
      match ref with
      | none => return (-1, rib, [])
      | some ref => do
        let (rib, es) ← adjRibInDelLsa c rib ref
        return (-1, rib, es)
  else
    match ref with
    | none => do
      let (rib, es) ← notify c rib none (some lsa)
      return (0, { rib with lsas := (Avl.insert compareRefs lsa rib.lsas).getD rib.lsas }, es)
    | some ref => do
      if (← lsaDiff (some ref.lsa) (some lsa.lsa)) ≠ 0 then
        let (rib, es) ← notify c rib (some ref) (some lsa)
        let store (p : LsaPtr) := if p.lsa.id = ref.lsa.id then lsa else p
        return (0, { rib with lsas := rib.lsas.map store }, es)
      else return (0, rib, [])

/-- `adj_rib_in_truncate` (`adj_rib_in.c:270-280`), with the roots of the tree in the order in
which they are deleted. -/
def adjRibInTruncate (c : Crypto) (rib : AdjRibIn) :
    List LsaPtr → Except Crash (AdjRibIn × List RibEvent)
  | [] => return (rib, [])
  | root :: roots => do
    let (rib, es) ← adjRibInDelLsa c rib root
    let (rib, es') ← adjRibInTruncate c rib roots
    return (rib, es ++ es')

/-! ## The machine -/

/-- What is done to the RIB of a peer. -/
inductive AdjOp where
  | addLsa (lsa : LsaPtr)
  | truncate (roots : List LsaPtr)

/-- One operation, and what the listeners are told. -/
def adjStep (c : Crypto) (rib : AdjRibIn) : AdjOp → Except Crash (AdjRibIn × List RibEvent)
  | .addLsa lsa => do
    let (_, rib, es) ← adjRibInAddLsa c rib lsa
    return (rib, es)
  | .truncate roots => adjRibInTruncate c rib roots

end Dvpn
