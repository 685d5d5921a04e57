import Dvpn.Daemon.Connections
import Dvpn.Rib.Route

/-!
# The route table (`rt_builder.c`)

`rt_builder` listens to the local RIB and tells its own listener of routes: an id whose best LSA
can be reached over other nodes has a route, to `v6_global_addr_from_key_id` of the id, over the
first hop that is not this node, or directly if there is one hop only (`route`).

`map` and `getnh` read the path of one LSA, and the three callbacks compare what they say of the
old one and of the new one. Each event comes out as the change of one route (`listen_change`); by
`ChangeLog.Renamed` the table of routes stays the image of the RIB, for addresses that tell the ids
apart.

`getnh` keeps the length of the path in an `int`. A path of 2^32 bytes is not empty for `map`, and
has no bytes for `getnh`, which then aborts (`rtBuilder_longPath`).
-/

namespace Dvpn

open ChangeLog

/-! ## The code -/

/-- `struct rt_builder`. -/
structure RtBuilder where
  myid : Option NodeId

/-- A call of `rt_add`, `rt_mod` or `rt_del`: a destination, and next hops, of which NULL says that
the destination is a neighbour. -/
abbrev RtCall := Change Bytes (Option Bytes)

/-- `v6_global_addr_from_key_id` (`util.c:255-262`) of a pointer into a path. -/
def v6GlobalAddrAt (id : Bytes) : Except Crash Bytes :=
  if id.length < (NODE_ID_LEN - 12) / 2 + 12 then throw .outside
  else return [0x20, 0x01, 0x00, 0x2f] ++ (id.drop ((NODE_ID_LEN - 12) / 2)).take 12

namespace RtBuilder

/-- `map` (`rt_builder.c:28-51`). -/
def map (rb : RtBuilder) (lsa : LsaPtr) (cost : Nat) : Except Crash (Option LsaPtr) :=
  if cost = RIB_COST_INELIGIBLE then throw .rtBuilderMap
  else if cost = RIB_COST_UNREACHABLE then return none
  else
    match lsa.lsa.advPath with
    | none => throw .rtBuilderMap
    | some attr =>
      if attr.datalen = 0 then return none
      else
        match rb.myid with
        | none => return some lsa
        | some myid =>
          if attr.datalen = NODE_ID_LEN ∧ memcmp attr.pathData myid.1 NODE_ID_LEN = 0 then
            return none
          else return some lsa

/-- The part of `getnh` that steps over `myid` (`rt_builder.c:66-70`). -/
def skipMyid (rb : RtBuilder) (advPath : Bytes) (len : Int) : Bytes × Int :=
  match rb.myid with
  | none => (advPath, len)
  | some myid =>
    if NODE_ID_LEN ≤ len ∧ memcmp advPath myid.1 NODE_ID_LEN = 0 then
      (advPath.drop NODE_ID_LEN, len - NODE_ID_LEN)
    else (advPath, len)

/-- `getnh` (`rt_builder.c:53-81`). -/
def getnh (rb : RtBuilder) (lsa : LsaPtr) : Except Crash (Option Bytes) :=
  match lsa.lsa.advPath with
  | none => throw .getnh
  | some attr => do
    let (advPath, len) := rb.skipMyid attr.pathData (toInt attr.datalen)
    if len = 0 then throw .getnh
    else if len = NODE_ID_LEN then return none
    else
      let addr ← v6GlobalAddrAt advPath
      return some addr

/-- `rt_add` (`rt_builder.c:83-91`). -/
def rtAdd (rb : RtBuilder) (lsa : LsaPtr) : Except Crash (List RtCall) := do
  let nh ← rb.getnh lsa
  return [.add (v6GlobalAddrFromKeyId lsa.lsa.id) nh]

/-- `rt_mod` (`rt_builder.c:93-114`). -/
def rtMod (rb : RtBuilder) (old new : LsaPtr) : Except Crash (List RtCall) := do
  let dest := v6GlobalAddrFromKeyId new.lsa.id
  let nhold ← rb.getnh old
  let nhnew ← rb.getnh new
  match nhold, nhnew with
  | none, none => return []
  | some a, some b => if memcmp a b 16 = 0 then return [] else return [.mod dest nhold nhnew]
  | _, _ => return [.mod dest nhold nhnew]

/-- `rt_del` (`rt_builder.c:116-124`). -/
def rtDel (rb : RtBuilder) (lsa : LsaPtr) : Except Crash (List RtCall) := do
  let nh ← rb.getnh lsa
  return [.del (v6GlobalAddrFromKeyId lsa.lsa.id) nh]

/-- `lsa_add`, `lsa_mod` and `lsa_del` (`rt_builder.c:126-158`). -/
def listen (rb : RtBuilder) : RibEvent → Except Crash (List RtCall)
  | .lsaAdd a cost => do
    match ← rb.map a cost with
    | some a => rb.rtAdd a
    | none => return []
  | .lsaMod a acost b bcost => do
    let a ← rb.map a acost
    let b ← rb.map b bcost
    match a, b with
    | none, some b => rb.rtAdd b
    | some a, some b => rb.rtMod a b
    | some a, none => rb.rtDel a
    | none, none => return []
  | .lsaDel a cost => do
    match ← rb.map a cost with
    | some a => rb.rtDel a
    | none => return []

/-- The calls that a log leads to. -/
def run (rb : RtBuilder) : List RibEvent → Except Crash (List RtCall)
  | [] => return []
  | e :: es => do
    let calls ← rb.listen e
    let calls' ← rb.run es
    return calls ++ calls'

/-! ## Routes -/

/-- The hops behind a leading `myid`. -/
def hopsBehind (rb : RtBuilder) : List NodeId → List NodeId
  | [] => []
  | hop :: hops => if rb.myid = some hop then hops else hop :: hops

/-- The next hop on the way over the hops, `some none` if the first one is the destination. -/
def nextHop : List NodeId → Option (Option Bytes)
  | [] => none
  | [_] => some none
  | hop :: _ :: _ => some (some (v6GlobalAddrFromKeyId hop))

/-- The next hop to the node of a best LSA with a cost. -/
def route (rb : RtBuilder) (best : LsaPtr × Nat) : Option (Option Bytes) :=
  if best.2 < RIB_COST_UNREACHABLE then nextHop (rb.hopsBehind best.1.lsa.hops) else none

/-- The next hops to the nodes of a RIB. -/
def routes (rb : RtBuilder) (view : NodeId → Option (LsaPtr × Nat)) (id : NodeId) :
    Option (Option Bytes) :=
  (view id).bind rb.route

variable {rb : RtBuilder} {p q : LsaPtr} {cost : Nat} {id : NodeId} {nh : Option Bytes}
  {view view' : NodeId → Option (LsaPtr × Nat)} {e : RibEvent} {es : List RibEvent}

/-! ## Reading a path -/

/-- A path that `map` and `getnh` read. -/
structure Readable (lsa : Lsa) : Prop where
  path : PathOk lsa
  /-- the length fits into the `len` of `getnh` -/
  len : ∀ attr, lsa.advPath = some attr → attr.datalen ≤ INT_MAX

theorem v6GlobalAddrAt_append (id : NodeId) (data : Bytes) :
    v6GlobalAddrAt (id.1 ++ data) = .ok (v6GlobalAddrFromKeyId id) := by
  have hid : id.1.length = 32 := id.2
  unfold v6GlobalAddrAt v6GlobalAddrFromKeyId NODE_ID_LEN
  rw [if_neg (by rw [List.length_append]; omega), List.drop_append_of_le_length (by omega),
    List.take_append_of_le_length (by rw [List.length_drop]; omega)]
  rfl

theorem length_v6GlobalAddr (id : NodeId) : (v6GlobalAddrFromKeyId id).length = 16 := by
  have hid : id.1.length = 32 := id.2
  unfold v6GlobalAddrFromKeyId NODE_ID_LEN
  rw [List.length_append, List.length_take, List.length_drop, hid]
  rfl

/-- The path of a readable LSA as bytes. -/
theorem Readable.data (h : Readable p.lsa) : ∃ attr data, p.lsa.advPath = some attr ∧
    attr.datalen = data.length ∧ attr.pathData = data ∧ p.lsa.hops = nodeIds data ∧
    data.length % NODE_ID_LEN = 0 ∧ toInt attr.datalen = data.length := by
  obtain ⟨attr, ha, hmod⟩ := h.path
  have hlen := toInt_of_le (Int.natCast_nonneg _) (Int.ofNat_le.mpr (h.len attr ha))
  have hhops : p.lsa.hops = nodeIds attr.pathData := by rw [Lsa.hops, ha]; rfl
  cases attr with
  | plain t s k data => exact ⟨_, data, ha, rfl, rfl, hhops, hmod, hlen⟩
  | set t s k attrs =>
    exact absurd (show Attr.sizeofAttrSet % NODE_ID_LEN = 0 from hmod) (by decide)

theorem id_append_ne_nil (id : NodeId) (data : Bytes) : id.1 ++ data ≠ [] := by
  intro hnil
  have hlen := id.2.symm.trans (congrArg List.length (List.append_eq_nil_iff.mp hnil).1)
  exact absurd hlen (by decide)

theorem memcmp_id_append (id myid : NodeId) (data : Bytes) :
    memcmp (id.1 ++ data) myid.1 NODE_ID_LEN = 0 ↔ id = myid := by
  rw [← memcmp_ids_zero]
  unfold memcmp
  rw [List.take_append_of_le_length id.2.ge]

/-- **`getnh` steps over `myid`.** -/
theorem skipMyid_spec {data : Bytes} (h : data.length % NODE_ID_LEN = 0) :
    ∃ rest : Bytes, rb.skipMyid data data.length = (rest, (rest.length : Int)) ∧
      rest.length % NODE_ID_LEN = 0 ∧ nodeIds rest = rb.hopsBehind (nodeIds data) := by
  unfold skipMyid
  rcases nodeIds_cases h with rfl | ⟨hop, rest, rfl, hrest⟩
  · refine ⟨[], ?_, rfl, rfl⟩
    cases rb.myid with
    | none => rfl
    | some myid => exact if_neg fun hlen => absurd hlen.1 (by decide)
  · rw [nodeIds_append, hopsBehind]
    cases rb.myid with
    | none => exact ⟨hop.1 ++ rest, rfl, h, nodeIds_append hop rest⟩
    | some myid =>
      have hlen : (hop.1 ++ rest).length = NODE_ID_LEN + rest.length := by
        rw [List.length_append, hop.2]
      simp only [Option.some.injEq, memcmp_id_append]
      by_cases heq : hop = myid
      · rw [if_pos ⟨by omega, heq⟩, if_pos heq.symm, List.drop_left' hop.2]
        exact ⟨rest, by rw [hlen]; congr 1; omega, hrest, rfl⟩
      · rw [if_neg fun hc => heq hc.2, if_neg (Ne.symm heq)]
        exact ⟨hop.1 ++ rest, rfl, h, nodeIds_append hop rest⟩

/-- **`getnh`** finds the next hop. -/
theorem getnh_eq (h : Readable p.lsa) (hnh : nextHop (rb.hopsBehind p.lsa.hops) = some nh) :
    rb.getnh p = .ok nh := by
  obtain ⟨attr, data, ha, -, hdata, hhops, hmod, hlen⟩ := h.data
  obtain ⟨rest, hskip, hrest, hids⟩ := @skipMyid_spec rb _ hmod
  rw [hhops, ← hids] at hnh
  unfold getnh
  simp only [ha, hdata, hlen, hskip]
  -- no hop, one, or more
  rcases nodeIds_cases hrest with rfl | ⟨hop, rest', rfl, hrest'⟩
  · exact absurd (show nextHop [] = some nh from hnh) nofun
  · rw [nodeIds_append] at hnh
    have hne := mt List.length_eq_zero_iff.mp (id_append_ne_nil hop rest')
    rw [if_neg (Int.natCast_ne_zero.mpr hne)]
    rcases nodeIds_cases hrest' with rfl | ⟨hop', rest, rfl, -⟩
    · rw [List.append_nil, hop.2, if_pos rfl]
      exact congrArg Except.ok (Option.some.inj hnh)
    · rw [nodeIds_append] at hnh
      have hlong : ((hop.1 ++ (hop'.1 ++ rest)).length : Int) ≠ NODE_ID_LEN := by
        rw [List.length_append, List.length_append, hop.2, hop'.2]
        unfold NODE_ID_LEN
        omega
      rw [if_neg hlong, v6GlobalAddrAt_append]
      exact congrArg Except.ok (Option.some.inj hnh)

/-- A path has no next hop if it is empty or just `myid`. -/
theorem nextHop_eq_none {data : Bytes} (h : data.length % NODE_ID_LEN = 0) :
    nextHop (rb.hopsBehind (nodeIds data)) = none ↔
      data = [] ∨ ∃ myid : NodeId, rb.myid = some myid ∧ data = myid.1 := by
  rcases nodeIds_cases h with rfl | ⟨hop, rest, rfl, hrest⟩
  · exact iff_of_true rfl (Or.inl rfl)
  · have hone : (∃ myid : NodeId, rb.myid = some myid ∧ hop.1 ++ rest = myid.1) ↔
        rb.myid = some hop ∧ rest = [] := by
      constructor
      · rintro ⟨myid, hmyid, heq⟩
        have happ : hop.1 ++ rest = myid.1 ++ [] := by rw [heq, List.append_nil]
        obtain ⟨hid, hnil⟩ := List.append_inj happ (hop.2.trans myid.2.symm)
        exact ⟨hmyid.trans (congrArg some (Subtype.ext hid.symm)), hnil⟩
      · rintro ⟨hmyid, rfl⟩
        exact ⟨hop, hmyid, List.append_nil _⟩
    rw [or_iff_right (id_append_ne_nil hop rest), hone, nodeIds_append, hopsBehind]
    rcases nodeIds_cases hrest with rfl | ⟨hop', rest, rfl, -⟩
    · split_ifs with hmyid
      · exact iff_of_true rfl ⟨hmyid, rfl⟩
      · exact iff_of_false nofun fun hc => hmyid hc.1
    · rw [nodeIds_append]
      refine iff_of_false ?_ fun hc => id_append_ne_nil hop' rest hc.2
      split_ifs
      · cases nodeIds rest <;> nofun
      · nofun

/-- **`map`** keeps the LSAs with a route. -/
theorem map_eq (h : Readable p.lsa) (hcost : cost < RIB_COST_INELIGIBLE) :
    rb.map p cost = .ok ((rb.route (p, cost)).map fun _ => p) := by
  obtain ⟨attr, data, ha, hdatalen, hdata, hhops, hmod, -⟩ := h.data
  unfold map route
  rw [if_neg hcost.ne]
  by_cases hunreach : cost = RIB_COST_UNREACHABLE
  · rw [if_pos hunreach, if_neg hunreach.not_lt]
    rfl
  · have hlt : cost < RIB_COST_UNREACHABLE := by
      unfold RIB_COST_INELIGIBLE RIB_COST_UNREACHABLE at *
      omega
    simp only [if_neg hunreach, if_pos hlt, ha, hdatalen, hdata, hhops]
    have hnone := @nextHop_eq_none rb _ hmod
    have hsame (myid : NodeId) :
        data.length = NODE_ID_LEN ∧ memcmp data myid.1 NODE_ID_LEN = 0 ↔ data = myid.1 := by
      constructor
      · rintro ⟨hlen, heq⟩
        refine (memcmp_all data myid.1 (hlen.trans myid.2.symm)).mp ?_
        rw [hlen]
        exact heq
      · rintro rfl
        exact ⟨myid.2, (memcmp_ids_zero myid myid).mpr rfl⟩
    cases hnh : nextHop (rb.hopsBehind (nodeIds data)) with
    | none =>
      rcases hnone.mp hnh with rfl | ⟨myid, hmyid, heq⟩
      · rfl
      · rw [if_neg (by rw [heq, myid.2]; decide), hmyid]
        exact if_pos ((hsame myid).mpr heq)
    | some nh =>
      have hsome := mt hnone.mpr (by rw [hnh]; exact Option.some_ne_none nh)
      rw [if_neg fun hlen => hsome (Or.inl (List.length_eq_zero_iff.mp hlen))]
      cases hmyid : rb.myid with
      | none => rfl
      | some myid => exact if_neg fun hc => hsome (Or.inr ⟨myid, hmyid, (hsame myid).mp hc⟩)

/-! ## Events -/

/-- What a pair of the log satisfies. -/
structure Sound (id : NodeId) (best : LsaPtr × Nat) : Prop where
  id : best.1.lsa.id = id
  cost : best.2 < RIB_COST_INELIGIBLE
  readable : Readable best.1.lsa

theorem Sound.map (h : Sound id (p, cost)) :
    rb.map p cost = .ok ((rb.route (p, cost)).map fun _ => p) :=
  map_eq h.readable h.cost

theorem Sound.getnh (h : Sound id (p, cost)) (hnh : rb.route (p, cost) = some nh) :
    rb.getnh p = .ok nh := by
  unfold route at hnh
  split_ifs at hnh
  exact getnh_eq h.readable hnh

/-- A next hop is an address. -/
theorem length_route {addr : Bytes} {best : LsaPtr × Nat}
    (h : rb.route best = some (some addr)) : addr.length = 16 := by
  unfold route nextHop at h
  split_ifs at h
  split at h
  · exact absurd h nofun
  · exact absurd h nofun
  · cases h
    exact length_v6GlobalAddr _

theorem rtAdd_eq (h : Sound id (p, cost)) (hnh : rb.route (p, cost) = some nh) :
    rb.rtAdd p = .ok [.add (v6GlobalAddrFromKeyId id) nh] := by
  rw [rtAdd, h.getnh hnh, ← h.id]
  rfl

theorem rtDel_eq (h : Sound id (p, cost)) (hnh : rb.route (p, cost) = some nh) :
    rb.rtDel p = .ok [.del (v6GlobalAddrFromKeyId id) nh] := by
  rw [rtDel, h.getnh hnh, ← h.id]
  rfl

/-- **`rt_mod`** says nothing of a next hop that stays. -/
theorem rtMod_eq {cost' : Nat} {nh' : Option Bytes} (h : Sound id (p, cost))
    (h' : Sound id (q, cost')) (hnh : rb.route (p, cost) = some nh)
    (hnh' : rb.route (q, cost') = some nh') :
    rb.rtMod p q = .ok (changeNe (v6GlobalAddrFromKeyId id) (some nh) (some nh')) := by
  rw [rtMod, h.getnh hnh, h'.getnh hnh', ← h'.id]
  cases nh with
  | none =>
    cases nh' with
    | none => rfl
    | some b => exact congrArg Except.ok (if_neg nofun).symm
  | some a =>
    cases nh' with
    | none => exact congrArg Except.ok (if_neg nofun).symm
    | some b =>
      have hlen := length_route hnh
      have heq : memcmp a b 16 = 0 ↔ some (some a) = some (some b) := by
        rw [← hlen, memcmp_all a b (hlen.trans (length_route hnh').symm), Option.some_inj,
          Option.some_inj]
      simp only [ok_bind, pure_eq_ok, changeNe, heq]
      split_ifs <;> rfl

/-- **An event is the change of one route.** -/
theorem listen_change (h : Applies view e.change view')
    (hold : ∀ best, view e.id = some best → Sound e.id best)
    (hnew : ∀ best, view' e.id = some best → Sound e.id best) :
    rb.listen e = .ok
      (changeNe (v6GlobalAddrFromKeyId e.id) (rb.routes view e.id) (rb.routes view' e.id)) := by
  cases e with
  | lsaAdd a cost =>
    cases h with
    | add hv =>
      have ha := hnew (a, cost) (Function.update_self ..)
      simp only [RibEvent.id, routes, hv, Function.update_self, Option.bind_none,
        Option.bind_some, listen, ha.map, ok_bind]
      cases hr : rb.route (a, cost) with
      | none => rfl
      | some nh => exact rtAdd_eq ha hr
  | lsaMod a acost b bcost =>
    cases h with
    | mod hv =>
      have ha := hold (a, acost) hv
      have hb := hnew (b, bcost) (Function.update_self ..)
      simp only [RibEvent.id, routes, hv, Function.update_self, Option.bind_some, listen, ha.map,
        hb.map, ok_bind]
      cases hr : rb.route (a, acost) with
      | none =>
        cases hr' : rb.route (b, bcost) with
        | none => rfl
        | some nh' => exact rtAdd_eq hb hr'
      | some nh =>
        cases hr' : rb.route (b, bcost) with
        | none => exact rtDel_eq ha hr
        | some nh' => exact rtMod_eq ha hb hr hr'
  | lsaDel a cost =>
    cases h with
    | del hv =>
      have ha := hold (a, cost) hv
      simp only [RibEvent.id, routes, hv, Function.update_self, Option.bind_none,
        Option.bind_some, listen, ha.map, ok_bind]
      cases hr : rb.route (a, cost) with
      | none => rfl
      | some nh => exact rtDel_eq ha hr

/-! ## Logs -/

/-- Every pair of the view is sound, and its id is one of `ids`. -/
def SoundOn (ids : Set NodeId) (view : NodeId → Option (LsaPtr × Nat)) : Prop :=
  ∀ id best, view id = some best → id ∈ ids ∧ Sound id best

/-- An event that the log may have. -/
structure EventOk (ids : Set NodeId) (e : RibEvent) : Prop where
  mem : e.id ∈ ids
  ids : ∀ p, e.new = some p → p.lsa.id = e.id
  costs : ∀ cost ∈ e.costs, cost < RIB_COST_INELIGIBLE
  readable : ∀ p, e.new = some p → Readable p.lsa

variable {ids : Set NodeId} {table : Bytes → Option (Option Bytes)}

theorem SoundOn.step (h : SoundOn ids view) (he : EventOk ids e)
    (hstep : Applies view e.change view') : SoundOn ids view' := by
  have hput (new : Option (LsaPtr × Nat)) (hnew : ∀ best, new = some best → Sound e.id best) :
      SoundOn ids (Function.update view e.id new) := by
    intro id best hbest
    by_cases hid : id = e.id
    · subst hid
      rw [Function.update_self] at hbest
      exact ⟨he.mem, hnew best hbest⟩
    · rw [Function.update_of_ne hid] at hbest
      exact h id best hbest
  cases e with
  | lsaAdd a cost =>
    cases hstep with
    | add => exact hput _ fun _ heq => Option.some.inj heq ▸
        ⟨he.ids a rfl, he.costs cost (List.mem_singleton_self cost), he.readable a rfl⟩
  | lsaMod a acost b bcost =>
    cases hstep with
    | mod => exact hput _ fun _ heq => Option.some.inj heq ▸
        ⟨he.ids b rfl, he.costs bcost (List.mem_pair.mpr (Or.inr rfl)), he.readable b rfl⟩
  | lsaDel a cost =>
    cases hstep with
    | del => exact hput none nofun

/-- A change of the RIB changes the route of its id. -/
theorem routes_update (hstep : Applies view e.change view') :
    rb.routes view' = Function.update (rb.routes view) e.id (rb.routes view' e.id) := by
  obtain ⟨-, pair, rfl, -⟩ := applies_event hstep
  funext id
  by_cases hid : id = e.id
  · rw [hid, Function.update_self]
  · unfold routes
    rw [Function.update_of_ne hid, Function.update_of_ne hid]

/-- **One event.** -/
theorem listen_follows (hinj : Set.InjOn v6GlobalAddrFromKeyId ids) (h : SoundOn ids view)
    (he : EventOk ids e) (hstep : Applies view e.change view')
    (ht : Renamed v6GlobalAddrFromKeyId (rb.routes view) table) :
    ∃ calls table', rb.listen e = .ok calls ∧ Replays table calls table' ∧
      Renamed v6GlobalAddrFromKeyId (rb.routes view') table' ∧
      ∀ dest old new, Change.mod dest old new ∈ calls → old ≠ new := by
  have h' := h.step he hstep
  have hapart (id : NodeId) (hid : rb.routes view id ≠ none)
      (heq : v6GlobalAddrFromKeyId id = v6GlobalAddrFromKeyId e.id) : id = e.id := by
    cases hv : view id with
    | none => exact absurd (congrArg (Option.bind · rb.route) hv) hid
    | some best => exact hinj (h id best hv).1 he.mem heq
  refine ⟨_, Function.update table (v6GlobalAddrFromKeyId e.id) (rb.routes view' e.id),
    listen_change hstep (fun best hb => (h e.id best hb).2) fun best hb => (h' e.id best hb).2,
    ?_, ?_, fun dest old new => ne_of_mem_changeNe⟩
  · rw [← ht.get hapart]
    exact replays_changeNe _ _
  · have ht' := ht.update hapart (rb.routes view' e.id)
    rwa [← routes_update hstep] at ht'

/-- **A log.** -/
theorem run_follows (hinj : Set.InjOn v6GlobalAddrFromKeyId ids) (h : SoundOn ids view)
    (hes : ∀ e ∈ es, EventOk ids e) (hlog : Replays view (es.map RibEvent.change) view')
    (ht : Renamed v6GlobalAddrFromKeyId (rb.routes view) table) :
    ∃ calls table', rb.run es = .ok calls ∧ Replays table calls table' ∧
      Renamed v6GlobalAddrFromKeyId (rb.routes view') table' ∧
      ∀ dest old new, Change.mod dest old new ∈ calls → old ≠ new := by
  induction es generalizing view table with
  | nil =>
    cases hlog
    exact ⟨[], table, rfl, .nil, ht, nofun⟩
  | cons e es ih =>
    obtain ⟨he, hes⟩ := List.forall_mem_cons.mp hes
    cases hlog with
    | cons hstep hlog =>
      obtain ⟨calls, table₁, hrun, hcalls, ht₁, hne⟩ := listen_follows hinj h he hstep ht
      obtain ⟨calls', table₂, hrun', hcalls', ht₂, hne'⟩ := ih (h.step he hstep) hes hlog ht₁
      refine ⟨calls ++ calls', table₂, by rw [run, hrun, ok_bind, hrun']; rfl,
        hcalls.append hcalls', ht₂, fun dest old new hm => ?_⟩
      exact (List.mem_append.mp hm).elim (hne dest old new) (hne' dest old new)

/-- A consistent log of best LSAs, from the empty RIB to `view`. -/
structure BestLog (es : List RibEvent) (view : NodeId → Option (LsaPtr × Nat)) : Prop where
  replays : Replays (fun _ => none) (es.map RibEvent.change) view
  ids : ∀ e ∈ es, ∀ p, e.new = some p → p.lsa.id = e.id
  costs : ∀ e ∈ es, ∀ cost ∈ e.costs, cost < RIB_COST_INELIGIBLE
  paths : ∀ e ∈ es, ∀ p, e.new = some p → PathOk p.lsa
  /-- addresses tell the ids of the log apart -/
  addrs : ∀ e ∈ es, ∀ e' ∈ es, v6GlobalAddrFromKeyId e.id = v6GlobalAddrFromKeyId e'.id →
    e.id = e'.id

/-- The calls of a log can be replayed, and leave the table of the next hops to the nodes of
`view`; none of them replaces a next hop by itself. -/
def FollowsRib (rb : RtBuilder) (es : List RibEvent) (view : NodeId → Option (LsaPtr × Nat)) :
    Prop :=
  ∃ calls table, rb.run es = .ok calls ∧ Replays (fun _ => none) calls table ∧
    (∀ dest nh, table dest = some nh ↔
      ∃ id, v6GlobalAddrFromKeyId id = dest ∧ (view id).bind rb.route = some nh) ∧
    ∀ dest old new, Change.mod dest old new ∈ calls → old ≠ new

/-- **The route table follows the RIB**, for paths of at most `INT_MAX` bytes. -/
theorem rtBuilder_follows (rb : RtBuilder) (h : BestLog es view)
    (hlen : ∀ e ∈ es, ∀ p, e.new = some p → ∀ attr, p.lsa.advPath = some attr →
      attr.datalen ≤ INT_MAX) : FollowsRib rb es view := by
  have hinj : Set.InjOn v6GlobalAddrFromKeyId {id | ∃ e ∈ es, e.id = id} := by
    rintro _ ⟨e, he, rfl⟩ _ ⟨e', he', rfl⟩
    exact h.addrs e he e' he'
  refine run_follows hinj (fun id best hbest => (Option.some_ne_none best hbest.symm).elim)
    (fun e he => ?_) h.replays ?_
  · exact ⟨⟨e, he, rfl⟩, h.ids e he, h.costs e he,
      fun p hp => ⟨h.paths e he p hp, hlen e he p hp⟩⟩
  · exact fun dest nh => ⟨fun hnh => (Option.some_ne_none nh hnh.symm).elim,
      fun ⟨_, _, hnh⟩ => (Option.some_ne_none nh hnh.symm).elim⟩

/-- An LSA of node 1 with a path. -/
def lsaOver (addr : Nat) (data : Bytes) : LsaPtr :=
  ⟨addr, 0, filledId 1, [.plain LSA_ATTR_TYPE_ADV_PATH false [] data]⟩

/-- A log of one LSA of node 1 that is there in the end. -/
theorem bestLog_add {data : Bytes} {cost : Nat} (hdata : data.length % NODE_ID_LEN = 0)
    (hcost : cost < RIB_COST_INELIGIBLE) : BestLog [.lsaAdd (lsaOver 0 data) cost]
      (Function.update (fun _ => none) (filledId 1) (some (lsaOver 0 data, cost))) where
  replays := (Applies.add rfl).replays
  ids e he p hp := by
    obtain rfl := List.mem_singleton.mp he
    obtain rfl := Option.some.inj hp
    rfl
  costs e he c hc := by
    obtain rfl := List.mem_singleton.mp he
    obtain rfl := List.mem_singleton.mp hc
    exact hcost
  paths e he p hp := by
    obtain rfl := List.mem_singleton.mp he
    obtain rfl := Option.some.inj hp
    exact ⟨_, rfl, hdata⟩
  addrs e he e' he' _ := by
    obtain rfl := List.mem_singleton.mp he
    obtain rfl := List.mem_singleton.mp he'
    rfl

theorem rtBuilder_follows_lsaAdd :
    FollowsRib ⟨some zeroId⟩ [.lsaAdd (lsaOver 0 (zeroId.1 ++ (filledId 1).1)) 10]
      (Function.update (fun _ => none) (filledId 1)
        (some (lsaOver 0 (zeroId.1 ++ (filledId 1).1), 10))) := by
  refine rtBuilder_follows _ (bestLog_add rfl (by decide)) fun e he p hp attr ha => ?_
  obtain rfl := List.mem_singleton.mp he
  obtain rfl := Option.some.inj hp
  obtain rfl := Option.some.inj ha
  decide

theorem run_lsaAdd_error {c : Crash} (hmap : rb.map p cost = .ok (some p))
    (hnh : rb.getnh p = .error c) : rb.run [.lsaAdd p cost] = .error c := by
  simp only [run, listen, hmap, ok_bind, rtAdd, hnh, error_bind]

/-- **A path of 2^32 bytes**: `map` finds it longer than nothing, and `getnh` finds no byte. -/
theorem rtBuilder_longPath :
    ∃ (rb : RtBuilder) (es : List RibEvent) (view : NodeId → Option (LsaPtr × Nat)),
      BestLog es view ∧ rb.run es = .error .getnh ∧ ¬ FollowsRib rb es view := by
  obtain ⟨data, hdata⟩ : ∃ data : Bytes, data.length = 2 ^ 32 :=
    ⟨List.replicate (2 ^ 32) 0, List.length_replicate⟩
  have ha : (lsaOver 0 data).lsa.advPath =
      some (.plain LSA_ATTR_TYPE_ADV_PATH false [] data) := rfl
  have hmap : map ⟨none⟩ (lsaOver 0 data) 10 = .ok (some (lsaOver 0 data)) := by
    have hne : data.length ≠ 0 := by rw [hdata]; norm_num
    simp [map, ha, Attr.datalen, hne, RIB_COST_INELIGIBLE, RIB_COST_UNREACHABLE]
  have hnh : getnh ⟨none⟩ (lsaOver 0 data) = .error .getnh := by
    have hlen : toInt data.length = 0 := by
      rw [hdata]
      norm_num [toInt, Int.bmod]
    simp only [getnh, ha, skipMyid, Attr.datalen, hlen, if_true, throw_eq_error]
  have hrun := run_lsaAdd_error hmap hnh
  refine ⟨⟨none⟩, _, _, bestLog_add (by rw [hdata]; norm_num [NODE_ID_LEN]) (by decide), hrun, ?_⟩
  rintro ⟨calls, table, hok, -⟩
  rw [hrun] at hok
  cases hok

end RtBuilder

end Dvpn
