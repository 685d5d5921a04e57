import Dvpn.Valley
import Dvpn.Rib.Route
import Dvpn.Rib.Signed

/-!
# What a path costs (`loc_rib.c:63-155`, `lsa_peer.c:28-55`)

The specification of `lsa_path_cost`: the nodes of the walk are `myid`, when there is one, and the
hops of the `ADV_PATH`; each has a most recent LSA of the highest version seen, each names the next
one as a peer and is named by it, and the walk goes over transits, at most one link of any kind,
and customers (`Routable`). The cost is the sum of the metrics.

* `pathCostLoop_spec`: the loop against the automaton of `Dvpn.Valley`.
* `path_cost_spec`: `lsa_path_cost` is that, for every LSA with a plain `ADV_PATH` of at most 32768
  bytes; and a RIB without an id finds for a path `S :: P` what the RIB of `S` finds for `P`.
-/

namespace Dvpn

variable {rib rib' : LocRib} {rid rid' : LocRibId} {a b id : NodeId} {v hops : List NodeId}

/-! ## The specification -/

/-- What two neighbours say of each other. -/
structure Hop where
  forward : LsaPeerInfo
  reverse : LsaPeerInfo

/-- The link goes to a transit. -/
def Hop.Transit (h : Hop) : Prop :=
  h.forward.flags &&& LSA_PEER_FLAGS_TRANSIT ≠ 0 ∧ h.reverse.flags &&& LSA_PEER_FLAGS_CUSTOMER ≠ 0

/-- The link goes to a customer. -/
def Hop.Customer (h : Hop) : Prop :=
  h.forward.flags &&& LSA_PEER_FLAGS_CUSTOMER ≠ 0 ∧ h.reverse.flags &&& LSA_PEER_FLAGS_TRANSIT ≠ 0

/-- The most recent LSAs of `a` and `b` have signed `PEER` attributes for each other. -/
def Joined (rib : LocRib) (a b : NodeId) (h : Hop) : Prop :=
  ∃ p q, findRecentLsa rib a = some p ∧ findRecentLsa rib b = some q ∧
    lsaGetPeerInfo p.lsa b = some h.forward ∧ lsaGetPeerInfo q.lsa a = some h.reverse

/-- The walk over the nodes `v` with the links `hs`. -/
structure Routable (rib : LocRib) (v : List NodeId) (hs : List Hop) : Prop where
  recent : ∀ n ∈ v, ∃ p ∈ (rib.entry n).ptrs, (rib.entry n).highestVersionSeen ≤ lsaGetVersion p.lsa
  joined : List.Forall₂ (fun ab h => Joined rib ab.1 ab.2 h) (v.zip v.tail) hs
  valley : ∃ k : ℕ, ∀ i h, hs[i]? = some h → (i < k → h.Transit) ∧ (k < i → h.Customer)

/-- The sum of the metrics. -/
def metrics (hs : List Hop) : Nat := (hs.map fun h => h.forward.metric).sum

/-- The nodes that `lsa_path_cost` walks over. -/
def walkOf (rib : LocRib) (lsa : Lsa) : List NodeId := rib.myid.toList ++ lsa.hops

/-- The `ADV_PATH` is plain, without a key, and of at most 1024 whole node ids. -/
def PathPlain (lsa : Lsa) : Prop :=
  ∃ t s k data, lsa.advPath = some (.plain t s k data) ∧ data.length % NODE_ID_LEN = 0 ∧
    data.length ≤ 32768

/-! ## Recent LSAs -/

theorem findRecentLsa_isSome (hi : rib.Inv) : (∃ p, findRecentLsa rib id = some p) ↔
    ∃ p ∈ (rib.entry id).ptrs, (rib.entry id).highestVersionSeen ≤ lsaGetVersion p.lsa := by
  constructor
  · rintro ⟨p, hp⟩
    obtain ⟨hlast, hv⟩ := findRecentLsa_eq_some.mp hp
    exact ⟨p, List.mem_of_getLast? hlast, hv⟩
  · rintro ⟨p, hp, hv⟩
    obtain ⟨q, hq⟩ : ∃ q, (rib.entry id).ptrs.getLast? = some q :=
      ⟨_, List.getLast?_eq_some_getLast (List.ne_nil_of_mem hp)⟩
    refine ⟨q, findRecentLsa_eq_some.mpr ⟨hq, ?_⟩⟩
    have hs : Avl.Sorted LsaPtr.key (rib.entry id).ptrs :=
      List.pairwise_map.mpr (hi.entry id).1.sorted
    have hle := Avl.le_of_getLast hs hq hp
    rw [LsaPtr.key, LsaPtr.key, Prod.Lex.toLex_le_toLex] at hle
    omega

theorem Joined.unique {h h' : Hop} (hj : Joined rib a b h) (hj' : Joined rib a b h') : h = h' := by
  obtain ⟨p, q, hp, hq, hf, hr⟩ := hj
  obtain ⟨p', q', hp', hq', hf', hr'⟩ := hj'
  obtain rfl := Option.some.inj (hp.symm.trans hp')
  obtain rfl := Option.some.inj (hq.symm.trans hq')
  obtain ⟨f, r⟩ := h
  obtain ⟨f', r'⟩ := h'
  rw [Hop.mk.injEq]
  exact ⟨Option.some.inj (hf.symm.trans hf'), Option.some.inj (hr.symm.trans hr')⟩

/-! ## The loop -/

/-- The walk from `a` over `hops`, as the loop goes through it. -/
inductive Walked (rib : LocRib) : NodeId → List NodeId → List Hop → Prop
  | done {a : NodeId} : Walked rib a [] []
  | hop {a b : NodeId} {h : Hop} {hops : List NodeId} {hs : List Hop} : Joined rib a b h →
      Walked rib b hops hs → Walked rib a (b :: hops) (h :: hs)

theorem walked_iff {hs : List Hop} :
    Walked rib a hops hs ↔
      List.Forall₂ (fun ab h => Joined rib ab.1 ab.2 h) ((a :: hops).zip hops) hs := by
  induction hops generalizing a hs with
  | nil =>
    constructor
    · rintro ⟨⟩
      exact .nil
    · intro h
      cases h
      exact .done
  | cons b hops ih =>
    constructor
    · rintro (⟨⟩ | ⟨hj, hw⟩)
      exact .cons hj (ih.mp hw)
    · intro h
      cases h with
      | cons hj hw => exact .hop hj (ih.mpr hw)

theorem signedData_length {attr : Option Attr} {n : Nat} {data : Bytes}
    (h : signedData attr n = some data) : data.length = n := by
  unfold signedData at h
  split at h
  · split_ifs at h with hlen
    exact Option.some.inj h ▸ hlen
  · cases h

/-- A metric fits 16 bits. -/
theorem metric_lt {lsa : Lsa} {info : LsaPeerInfo} (h : lsaGetPeerInfo lsa id = some info) :
    info.metric < 2 ^ 16 := by
  unfold lsaGetPeerInfo at h
  split at h
  · obtain rfl := Option.some.inj h
    dsimp only
    split
    · rename_i data hdata
      have hlen := signedData_length hdata
      obtain ⟨x, y, rfl⟩ := List.length_eq_two.mp hlen
      have hx := x.toNat_lt
      have hy := y.toNat_lt
      simp only [bigEndian, List.foldl_cons, List.foldl_nil]
      omega
    · decide
  · cases h

theorem metrics_cons (h : Hop) (hs : List Hop) :
    metrics (h :: hs) = h.forward.metric + metrics hs :=
  List.sum_cons

/-- **The loop of `lsa_path_cost`** from a node with a recent LSA: the sum of the metrics when the
walk is accepted, and `RIB_COST_UNREACHABLE` when it is not. -/
theorem pathCostLoop_spec (hi : rib.Inv) {p : LsaPtr} (tt : Bool) {cost : Nat}
    (hp : findRecentLsa rib a = some p) (hcost : cost < 2 ^ 32) :
    (∀ hs, Walked rib a hops hs → Valley.Accepts Hop.Transit Hop.Customer tt hs →
      pathCostLoop rib hops (some p.lsa) tt cost = (cost + metrics hs) % 2 ^ 32) ∧
    ((∀ hs, Walked rib a hops hs → ¬ Valley.Accepts Hop.Transit Hop.Customer tt hs) →
      pathCostLoop rib hops (some p.lsa) tt cost = RIB_COST_UNREACHABLE) := by
  induction hops generalizing a p tt cost with
  | nil =>
    refine ⟨fun hs hw _ => ?_, fun hn => absurd trivial (hn [] .done)⟩
    cases hw
    exact (Nat.mod_eq_of_lt hcost).symm
  | cons b hops ih =>
    have hpid := (findRecentLsa_spec hi hp).2.1
    rw [pathCostLoop]
    -- no walk goes over a link that is not joined
    have hstuck : (∀ h, ¬ Joined rib a b h) →
        ∀ hs, Walked rib a (b :: hops) hs → Valley.Accepts Hop.Transit Hop.Customer tt hs →
          RIB_COST_UNREACHABLE = (cost + metrics hs) % 2 ^ 32 := by
      rintro hn _ (⟨⟩ | ⟨hj, -⟩) -
      exact absurd hj (hn _)
    cases hq : findRecentLsa rib b with
    | none =>
      refine ⟨hstuck ?_, fun _ => rfl⟩
      rintro h ⟨_, q, _, hq', _⟩
      exact absurd (hq.symm.trans hq') (by simp)
    | some q =>
      have hqid := (findRecentLsa_spec hi hq).2.1
      simp only [hpid, hqid]
      cases hf : lsaGetPeerInfo p.lsa b with
      | none =>
        refine ⟨hstuck ?_, fun _ => rfl⟩
        rintro h ⟨p', _, hp', _, hf', _⟩
        obtain rfl := Option.some.inj (hp.symm.trans hp')
        exact absurd (hf.symm.trans hf') (by simp)
      | some forward =>
        cases hr : lsaGetPeerInfo q.lsa a with
        | none =>
          refine ⟨hstuck ?_, fun _ => rfl⟩
          rintro h ⟨_, q', _, hq', _, hr'⟩
          obtain rfl := Option.some.inj (hq.symm.trans hq')
          exact absurd (hr.symm.trans hr') (by simp)
        | some reverse =>
          have hj : Joined rib a b ⟨forward, reverse⟩ := ⟨p, q, hp, hq, hf, hr⟩
          have hcost' : (cost + forward.metric) % 2 ^ 32 < 2 ^ 32 := Nat.mod_lt _ (by decide)
          -- the walk goes over this link, and on in the state that the link leads to
          have hgo : ∀ tt', (∀ hs, Valley.Accepts Hop.Transit Hop.Customer tt
                (⟨forward, reverse⟩ :: hs) ↔ Valley.Accepts Hop.Transit Hop.Customer tt' hs) →
              (∀ hs, Walked rib a (b :: hops) hs → Valley.Accepts Hop.Transit Hop.Customer tt hs →
                pathCostLoop rib hops (some q.lsa) tt' ((cost + forward.metric) % 2 ^ 32) =
                  (cost + metrics hs) % 2 ^ 32) ∧
              ((∀ hs, Walked rib a (b :: hops) hs →
                  ¬ Valley.Accepts Hop.Transit Hop.Customer tt hs) →
                pathCostLoop rib hops (some q.lsa) tt' ((cost + forward.metric) % 2 ^ 32) =
                  RIB_COST_UNREACHABLE) := by
            intro tt' hstate
            obtain ⟨hgood, hbad⟩ := ih tt' hq hcost'
            constructor
            · rintro _ (⟨⟩ | ⟨hj', hw⟩) hacc
              obtain rfl := hj.unique hj'
              rw [hgood _ hw ((hstate _).mp hacc), Nat.mod_add_mod, metrics_cons, Nat.add_assoc]
            · exact fun hn => hbad fun hs hw hacc => hn _ (.hop hj hw) ((hstate hs).mpr hacc)
          cases tt with
          | true =>
            simp only [if_true]
            refine hgo _ fun hs => ?_
            by_cases ht : Hop.Transit ⟨forward, reverse⟩
            · have hflag : (forward.flags &&& LSA_PEER_FLAGS_TRANSIT != 0 &&
                  reverse.flags &&& LSA_PEER_FLAGS_CUSTOMER != 0) = true := by
                simpa [Hop.Transit] using ht
              rw [hflag, Valley.Accepts]
              tauto
            · have hflag : (forward.flags &&& LSA_PEER_FLAGS_TRANSIT != 0 &&
                  reverse.flags &&& LSA_PEER_FLAGS_CUSTOMER != 0) = false := by
                simpa [Hop.Transit] using ht
              rw [hflag, Valley.Accepts]
              tauto
          | false =>
            simp only [Bool.false_eq_true, if_false]
            by_cases hc : Hop.Customer ⟨forward, reverse⟩
            · rw [if_neg hc.1, if_neg hc.2]
              refine hgo _ fun hs => ?_
              rw [Valley.Accepts]
              exact and_iff_right hc
            · have hno : ∀ hs, Walked rib a (b :: hops) hs →
                  ¬ Valley.Accepts Hop.Transit Hop.Customer false hs := by
                rintro _ (⟨⟩ | ⟨hj', -⟩) hacc
                obtain rfl := hj.unique hj'
                exact hc hacc.1
              refine ⟨fun hs hw hacc => absurd hacc (hno hs hw), fun _ => ?_⟩
              split_ifs with h1 h2
              · rfl
              · rfl
              · exact absurd ⟨h1, h2⟩ hc

/-! ## Walks -/

theorem Walked.length {hs : List Hop} (h : Walked rib a hops hs) : hs.length = hops.length := by
  induction h with
  | done => rfl
  | hop _ _ ih => rw [List.length_cons, List.length_cons, ih]

theorem Walked.recent {hs : List Hop} (h : Walked rib a hops hs) :
    ∀ n ∈ hops, ∃ p, findRecentLsa rib n = some p := by
  induction h with
  | done => exact fun n hn => absurd hn List.not_mem_nil
  | hop hj _ ih =>
    obtain ⟨_, q, _, hq, _⟩ := hj
    exact List.forall_mem_cons.mpr ⟨⟨q, hq⟩, ih⟩

theorem Walked.unique {hs hs' : List Hop} (h : Walked rib a hops hs) (h' : Walked rib a hops hs') :
    hs = hs' := by
  induction h generalizing hs' with
  | done =>
    cases h'
    rfl
  | hop hj _ ih =>
    cases h' with
    | hop hj' hw' => rw [hj.unique hj', ih hw']

theorem Walked.metrics_le {hs : List Hop} (h : Walked rib a hops hs) :
    metrics hs ≤ hops.length * 2 ^ 16 := by
  induction h with
  | done => exact Nat.zero_le _
  | hop hj _ ih =>
    obtain ⟨_, _, _, _, hf, _⟩ := hj
    have hm := metric_lt hf
    rw [metrics_cons, List.length_cons, Nat.add_mul]
    omega

/-- A routable walk is one that the loop accepts. -/
theorem routable_cons (hi : rib.Inv) {hs : List Hop} : Routable rib (a :: hops) hs ↔
    (∃ p, findRecentLsa rib a = some p) ∧ Walked rib a hops hs ∧
      Valley.Accepts Hop.Transit Hop.Customer true hs := by
  rw [walked_iff, Valley.accepts_iff]
  constructor
  · rintro ⟨hrecent, hjoined, hvalley⟩
    exact ⟨(findRecentLsa_isSome hi).mpr (hrecent a List.mem_cons_self), hjoined, hvalley⟩
  · rintro ⟨hfirst, hjoined, hvalley⟩
    have hrest := (walked_iff.mpr hjoined).recent
    refine ⟨fun n hn => (findRecentLsa_isSome hi).mp ?_, hjoined, hvalley⟩
    rcases List.mem_cons.mp hn with rfl | hn
    · exact hfirst
    · exact hrest n hn

/-- What the loop makes of the nodes of a walk. -/
def costOf (rib : LocRib) : List NodeId → Nat
  | [] => 0
  | a :: hops =>
    match findRecentLsa rib a with
    | none => RIB_COST_UNREACHABLE
    | some p => pathCostLoop rib hops (some p.lsa) true 0

theorem costOf_spec (hi : rib.Inv) (hlen : v.length ≤ 1025) :
    costOf rib v ≤ RIB_COST_UNREACHABLE ∧
    (costOf rib v < RIB_COST_UNREACHABLE ↔ ∃ hs, Routable rib v hs) ∧
    ∀ hs, Routable rib v hs → costOf rib v = metrics hs ∧ metrics hs < 2 ^ 31 := by
  have hmax : RIB_COST_UNREACHABLE = 2 ^ 32 - 2 := rfl
  cases v with
  | nil =>
    have hnil : ∀ hs, Routable rib [] hs → hs = [] := by
      rintro hs ⟨-, hj, -⟩
      cases hj
      rfl
    have hempty : Routable rib [] [] :=
      ⟨fun n hn => absurd hn List.not_mem_nil, .nil, 0, fun i h hi => absurd hi (by simp)⟩
    have hpos : 0 < RIB_COST_UNREACHABLE := by decide
    refine ⟨Nat.zero_le _, iff_of_true hpos ⟨[], hempty⟩, fun hs h => ?_⟩
    rw [hnil hs h]
    exact ⟨rfl, by decide⟩
  | cons a hops =>
    simp only [routable_cons hi]
    have hbound : ∀ hs, Walked rib a hops hs → metrics hs < 2 ^ 31 := by
      intro hs hw
      have hle := hw.metrics_le
      rw [List.length_cons] at hlen
      omega
    rw [costOf]
    cases hp : findRecentLsa rib a with
    | none =>
      refine ⟨le_rfl, iff_of_false (lt_irrefl _) ?_, ?_⟩
      · rintro ⟨hs, ⟨p, hp'⟩, -⟩
        cases hp'
      · rintro hs ⟨⟨p, hp'⟩, -⟩
        cases hp'
    | some p =>
      obtain ⟨hgood, hbad⟩ := pathCostLoop_spec hi true hp (by decide : 0 < 2 ^ 32)
      have hcost : ∀ hs, Walked rib a hops hs → Valley.Accepts Hop.Transit Hop.Customer true hs →
          pathCostLoop rib hops (some p.lsa) true 0 = metrics hs := by
        intro hs hw hacc
        have hlt := hbound hs hw
        rw [hgood hs hw hacc, Nat.zero_add, Nat.mod_eq_of_lt (by omega)]
      by_cases h : ∃ hs, Walked rib a hops hs ∧ Valley.Accepts Hop.Transit Hop.Customer true hs
      · obtain ⟨hs, hw, hacc⟩ := h
        have hlt := hbound hs hw
        dsimp only
        rw [hcost hs hw hacc]
        refine ⟨by omega, iff_of_true (by omega) ⟨hs, ⟨p, rfl⟩, hw, hacc⟩, ?_⟩
        rintro hs' ⟨-, hw', hacc'⟩
        exact ⟨(hcost hs hw hacc).symm.trans (hcost hs' hw' hacc'), hbound hs' hw'⟩
      · have hno := hbad fun hs hw hacc => h ⟨hs, hw, hacc⟩
        dsimp only
        rw [hno]
        refine ⟨le_rfl, iff_of_false (lt_irrefl _) ?_, ?_⟩
        · rintro ⟨hs, -, hw, hacc⟩
          exact h ⟨hs, hw, hacc⟩
        · rintro hs ⟨-, hw, hacc⟩
          exact absurd ⟨hs, hw, hacc⟩ h

/-! ## `lsa_path_cost` -/

theorem PathPlain.length_hops {lsa : Lsa} (h : PathPlain lsa) : lsa.hops.length ≤ 1024 := by
  obtain ⟨t, s, k, data, ha, -, hlen⟩ := h
  unfold Lsa.hops
  rw [ha, Option.map_some, Option.getD_some, length_nodeIds]
  change data.length / 32 ≤ 1024
  omega

/-- An LSA that is not too old costs what its walk does, when an `int` holds the length of its
path. -/
theorem lsaPathCost_walk {lsa : Lsa} {t : Int} {s : Bool} {k data : Bytes}
    (ha : lsa.advPath = some (.plain t s k data)) (hmod : data.length % NODE_ID_LEN = 0)
    (hlen : data.length ≤ INT_MAX) (hv : rid.highestVersionSeen ≤ lsaGetVersion lsa) :
    lsaPathCost rib rid lsa = .ok (costOf rib (walkOf rib lsa)) := by
  have hdata : toInt (data.length : Int) = data.length :=
    toInt_of_le (Int.natCast_nonneg _) (by exact_mod_cast hlen)
  have hmod' : ¬ (data.length : Int) % (NODE_ID_LEN : Int) ≠ 0 := by
    rw [not_not, ← Int.natCast_mod, hmod]
    rfl
  have hhops : lsa.hops = nodeIds data := by
    rw [Lsa.hops, ha]
    rfl
  unfold lsaPathCost walkOf
  rw [if_neg (not_lt.mpr hv), hhops]
  simp only [ha, Attr.datalen, Attr.pathData, hdata, if_neg hmod', Int.toNat_natCast,
    List.take_length]
  cases rib.myid with
  | none =>
    cases nodeIds data with
    | nil => rfl
    | cons a hops =>
      simp only [Option.toList_none, List.nil_append, costOf, pathCostLoop]
      cases findRecentLsa rib a <;> rfl
  | some myid =>
    simp only [Option.toList_some, List.singleton_append, costOf]
    cases findRecentLsa rib myid <;> rfl

theorem lsaPathCost_eq {lsa : Lsa} (h : PathPlain lsa)
    (hv : rid.highestVersionSeen ≤ lsaGetVersion lsa) :
    lsaPathCost rib rid lsa = .ok (costOf rib (walkOf rib lsa)) := by
  obtain ⟨t, s, k, data, ha, hmod, hlen⟩ := h
  exact lsaPathCost_walk ha hmod (by unfold INT_MAX; omega) hv

/-- The loop cannot tell apart most recent LSAs that say the same of their peers. -/
theorem costOf_congr (h : ∀ id, Option.Rel SameHop (findRecentLsa rib id) (findRecentLsa rib' id))
    (v : List NodeId) : costOf rib v = costOf rib' v := by
  cases v with
  | nil => rfl
  | cons a hops =>
    have ha := h a
    simp only [costOf]
    generalize findRecentLsa rib a = p at ha
    generalize findRecentLsa rib' a = q at ha
    cases ha with
    | none => rfl
    | some hpq => exact pathCostLoop_congr h hops (.some hpq) true 0

/-- **What `lsa_path_cost` returns**: `RIB_COST_INELIGIBLE` for an LSA below the highest version
seen, else the metrics of the walk when it is routable, and `RIB_COST_UNREACHABLE` when it is not.
So a RIB without an id and the RIB of `S`, whose most recent LSAs say the same of their peers, agree
on the path `S :: P` and the path `P`. -/
theorem path_cost_spec (hi : rib.Inv) {lsa : Lsa} (h : PathPlain lsa) :
    (∃ cost, lsaPathCost rib rid lsa = .ok cost ∧
      (cost = RIB_COST_INELIGIBLE ↔ lsaGetVersion lsa < rid.highestVersionSeen) ∧
      (rid.highestVersionSeen ≤ lsaGetVersion lsa →
        (cost < RIB_COST_UNREACHABLE ↔ ∃ hs, Routable rib (walkOf rib lsa) hs) ∧
        ∀ hs, Routable rib (walkOf rib lsa) hs → cost = metrics hs ∧ metrics hs < 2 ^ 31)) ∧
    ∀ S rib' rid' lsa', rib.myid = some S → rib'.myid = none →
      (∀ id, Option.Rel SameHop (findRecentLsa rib id) (findRecentLsa rib' id)) → PathPlain lsa' →
      lsa'.hops = S :: lsa.hops → rid.highestVersionSeen ≤ lsaGetVersion lsa →
      rid'.highestVersionSeen ≤ lsaGetVersion lsa' →
      lsaPathCost rib' rid' lsa' = lsaPathCost rib rid lsa := by
  constructor
  · by_cases hv : lsaGetVersion lsa < rid.highestVersionSeen
    · exact ⟨RIB_COST_INELIGIBLE, if_pos hv, iff_of_true rfl hv,
        fun hle => absurd hv (not_lt.mpr hle)⟩
    · have hlen : (walkOf rib lsa).length ≤ 1025 := by
        have hhops := h.length_hops
        have hmyid : rib.myid.toList.length ≤ 1 := Option.length_toList_le
        rw [walkOf, List.length_append]
        omega
      obtain ⟨hle, hcost⟩ := costOf_spec hi hlen
      have hlt : RIB_COST_UNREACHABLE < RIB_COST_INELIGIBLE := by decide
      exact ⟨_, lsaPathCost_eq h (not_lt.mp hv), iff_of_false (by omega) hv, fun _ => hcost⟩
  · intro S rib' rid' lsa' hS hnone hsame h' hhops hv hv'
    rw [lsaPathCost_eq h hv, lsaPathCost_eq h' hv', costOf_congr hsame, walkOf, walkOf, hS, hnone,
      hhops]
    rfl

/-- M goes to P for 1. -/
theorem path_cost_spec_lsaP : ∃ hs, Routable (ribOfM [lsaX, lsaP, lsaM]) [idM, idP] hs ∧
    metrics hs = 1 := by
  have hi : (ribOfM [lsaX, lsaP, lsaM]).Inv := LocRun.inv (run_ribOfM.mono fun _ _ hc => hc.1)
  have hplain : PathPlain lsaP.lsa := ⟨_, _, _, idP.1, rfl, rfl, by decide⟩
  have hcost : lsaPathCost (ribOfM [lsaX, lsaP, lsaM]) (soleEntry lsaP) lsaP.lsa = .ok 1 := by
    decide +kernel
  have hwalk : walkOf (ribOfM [lsaX, lsaP, lsaM]) lsaP.lsa = [idM, idP] := by decide +kernel
  obtain ⟨⟨cost, hok, -, hspec⟩, -⟩ := @path_cost_spec _ (soleEntry lsaP) hi _ hplain
  obtain rfl := Except.ok.inj (hcost.symm.trans hok)
  rw [hwalk] at hspec
  obtain ⟨hlt, hsum⟩ := hspec (Nat.zero_le _)
  obtain ⟨hs, hroutable⟩ := hlt.mp (by decide)
  exact ⟨hs, hroutable, (hsum hs hroutable).1.symm⟩

end Dvpn
