import Dvpn.Rib.LocRibSpec

/-!
# Recomputation of the local RIB (`loc_rib.c:84-252`)

`recompute_rid` picks a best pair from the LSAs of an entry and their costs (`Picked`), and tells
the listeners when it is another one. The costs depend on the trees of LSAs and the marks alone
(`SameLsas`), which a recomputation leaves as they are.

* `lsaPathCost_isOk`, `selectBest_isOk`: nothing aborts when every LSA has an `ADV_PATH` of whole
  node ids (`PathOk`).
* `recompute_spec`: the listeners are told exactly the change of the table of best pairs, no cost
  they are told is `RIB_COST_INELIGIBLE`, and the best LSA of an entry is one of its LSAs and not
  below its mark.
* `recompute_twice`: a second recomputation tells nothing.
-/

namespace Dvpn

variable {rib rib' : LocRib} {rid rid' : LocRibId} {lsa : LsaPtr} {id : NodeId}

/-! ## Path costs -/

/-- Two RIBs that `lsa_path_cost` cannot tell apart. -/
structure SameLsas (rib rib' : LocRib) : Prop where
  myid : rib'.myid = rib.myid
  ptrs : ∀ id, (rib'.entry id).ptrs = (rib.entry id).ptrs
  mark : ∀ id, (rib'.entry id).highestVersionSeen = (rib.entry id).highestVersionSeen

/-- `find_recent_lsa` in terms of the entry. -/
theorem findRecentLsa_eq_some : findRecentLsa rib id = some lsa ↔
    (rib.entry id).ptrs.getLast? = some lsa ∧
      (rib.entry id).highestVersionSeen ≤ lsaGetVersion lsa.lsa := by
  unfold findRecentLsa LocRib.entry
  cases locRibFindId rib id with
  | none => simp [LocRibId.ptrs, LocRibId.new]
  | some rid =>
    simp only [Option.getD_some, LocRibId.ptrs, List.getLast?_map]
    cases rid.lsas.getLast? with
    | none => simp
    | some ref =>
      simp only [Option.map_some, Option.some.injEq]
      split_ifs with h
      · constructor
        · exact fun hn => absurd hn (by simp)
        · rintro ⟨rfl, hle⟩
          omega
      · rw [Option.some.injEq]
        exact ⟨fun e => ⟨e, e ▸ not_lt.mp h⟩, fun e => e.1⟩

theorem SameLsas.findRecentLsa (h : SameLsas rib rib') :
    findRecentLsa rib' = findRecentLsa rib := by
  funext id
  refine Option.ext fun lsa => ?_
  rw [findRecentLsa_eq_some, findRecentLsa_eq_some, h.ptrs, h.mark]

theorem SameLsas.pathCostLoop (h : SameLsas rib rib') : ∀ (hops : List NodeId) (from' : Option Lsa)
    (tt : Bool) (cost : Nat),
    pathCostLoop rib' hops from' tt cost = pathCostLoop rib hops from' tt cost
  | [], _, _, _ => rfl
  | hop :: hops, from', tt, cost => by
    unfold Dvpn.pathCostLoop
    rw [h.findRecentLsa]
    simp only [h.pathCostLoop hops]

theorem SameLsas.lsaPathCost (h : SameLsas rib rib')
    (hm : rid'.highestVersionSeen = rid.highestVersionSeen) (lsa : Lsa) :
    lsaPathCost rib' rid' lsa = lsaPathCost rib rid lsa := by
  unfold Dvpn.lsaPathCost
  simp only [hm, h.myid, h.findRecentLsa, h.pathCostLoop]

/-- The `ADV_PATH` that a recomputation can read. -/
def PathOk (lsa : Lsa) : Prop :=
  ∃ attr, lsa.advPath = some attr ∧ attr.datalen % NODE_ID_LEN = 0

/-- A cost below `RIB_COST_INELIGIBLE` or an error is not for an old LSA. -/
theorem mark_le_of_cost {lsa : Lsa} {cost : Nat} (h : lsaPathCost rib rid lsa = .ok cost)
    (hc : cost < RIB_COST_INELIGIBLE) : rid.highestVersionSeen ≤ lsaGetVersion lsa := by
  unfold lsaPathCost at h
  split_ifs at h with hv
  · obtain rfl := Except.ok.inj h
    exact absurd hc (lt_irrefl _)
  · exact not_lt.mp hv

theorem lsaPathCost_isOk (rib : LocRib) (rid : LocRibId) {lsa : Lsa} (h : PathOk lsa) :
    ∃ cost, lsaPathCost rib rid lsa = .ok cost := by
  obtain ⟨attr, ha, hlen⟩ := h
  have hmod : toInt attr.datalen % NODE_ID_LEN = 0 := by
    unfold toInt NODE_ID_LEN Int.bmod at *
    dsimp only
    split_ifs <;> omega
  unfold lsaPathCost
  split_ifs
  · exact ⟨_, rfl⟩
  · simp only [ha, hmod, ne_eq, not_true_eq_false, if_false]
    cases rib.myid with
    | none => exact ⟨_, rfl⟩
    | some myid =>
      dsimp only
      cases findRecentLsa rib myid with
      | none => exact ⟨_, rfl⟩
      | some from' => exact ⟨_, rfl⟩

/-! ## Recomputation -/

/-- A best pair is empty, or an LSA of `cands` at its own cost. -/
def Picked (rib : LocRib) (rid : LocRibId) (cands : List LsaPtr) (best : Option LsaPtr)
    (bestcost : Nat) : Prop :=
  best = none ∧ bestcost = RIB_COST_INELIGIBLE ∨
  ∃ p ∈ cands, best = some p ∧ lsaPathCost rib rid p.lsa = .ok bestcost ∧
    bestcost < RIB_COST_INELIGIBLE

variable {cands : List LsaPtr} {best best' : Option LsaPtr} {cost bestcost bestcost' : Nat}
  {refs refs' : List LocRibLsaRef}

theorem Picked.le (h : Picked rib rid cands best bestcost) : bestcost ≤ RIB_COST_INELIGIBLE := by
  rcases h with ⟨_, h⟩ | ⟨_, _, _, _, h⟩ <;> omega

theorem considerRef_picked (h : Picked rib rid cands best bestcost) (hm : lsa ∈ cands)
    (hc : lsaPathCost rib rid lsa.lsa = .ok cost)
    (hr : considerRef lsa cost best bestcost = .ok (best', bestcost')) :
    Picked rib rid cands best' bestcost' := by
  have hle := h.le
  unfold considerRef at hr
  split_ifs at hr with h1 h2
  · obtain ⟨rfl, rfl⟩ := Prod.mk.inj (Except.ok.inj hr)
    exact Or.inr ⟨lsa, hm, rfl, hc, by omega⟩
  · obtain ⟨shorter, hs, hr⟩ := bind_eq_ok.mp hr
    obtain ⟨rfl, rfl⟩ := Prod.mk.inj (Except.ok.inj hr)
    rcases h with ⟨rfl, rfl⟩ | ⟨p, hp, rfl, hcost, hlt⟩
    · -- without a best LSA nothing is shorter
      cases hp : lsa.lsa.advPath with
      | none => simp [lsaHasShorterAdvPath, hp] at hs
      | some apath =>
        simp only [lsaHasShorterAdvPath, hp, Option.map_none, pure_eq_ok, Except.ok.injEq] at hs
        subst hs
        exact Or.inl ⟨rfl, rfl⟩
    · cases shorter with
      | true => exact Or.inr ⟨lsa, hm, rfl, h2 ▸ hc, hlt⟩
      | false => exact Or.inr ⟨p, hp, rfl, hcost, hlt⟩
  · obtain ⟨rfl, rfl⟩ := Prod.mk.inj (Except.ok.inj hr)
    exact h

theorem selectBest_picked (cands : List LsaPtr) (hsub : ∀ ref ∈ refs, ref.lsa ∈ cands)
    (h : Picked rib rid cands best bestcost)
    (hr : selectBest rib rid refs best bestcost = .ok (refs', best', bestcost')) :
    Picked rib rid cands best' bestcost' ∧
      refs'.map LocRibLsaRef.lsa = refs.map LocRibLsaRef.lsa := by
  induction refs generalizing best bestcost refs' with
  | nil =>
    simp only [selectBest, pure_eq_ok, Except.ok.injEq, Prod.mk.injEq] at hr
    obtain ⟨rfl, rfl, rfl⟩ := hr
    exact ⟨h, rfl⟩
  | cons ref refs ih =>
    unfold selectBest at hr
    obtain ⟨cost, hc, hr⟩ := bind_eq_ok.mp hr
    obtain ⟨⟨best₁, bestcost₁⟩, h1, hr⟩ := bind_eq_ok.mp hr
    obtain ⟨⟨refs₁, best₂, bestcost₂⟩, h2, hr⟩ := bind_eq_ok.mp hr
    simp only [pure_eq_ok, Except.ok.injEq, Prod.mk.injEq] at hr
    obtain ⟨rfl, rfl, rfl⟩ := hr
    obtain ⟨hp, hmap⟩ := ih (fun r hm => hsub r (List.mem_cons_of_mem ref hm))
      (considerRef_picked h (hsub ref List.mem_cons_self) hc h1) h2
    exact ⟨hp, by rw [List.map_cons, List.map_cons, hmap]⟩

/-- The pair that is picked depends on the LSAs and their costs only. -/
theorem selectBest_congr {refs₂ : List LocRibLsaRef}
    (hcost : ∀ lsa, lsaPathCost rib' rid' lsa = lsaPathCost rib rid lsa)
    (hmap : refs₂.map LocRibLsaRef.lsa = refs.map LocRibLsaRef.lsa)
    (hr : selectBest rib rid refs best bestcost = .ok (refs', best', bestcost')) :
    ∃ refs₃, selectBest rib' rid' refs₂ best bestcost = .ok (refs₃, best', bestcost') := by
  induction refs generalizing best bestcost refs' refs₂ with
  | nil =>
    obtain rfl := List.map_eq_nil_iff.mp hmap
    simp only [selectBest, pure_eq_ok, Except.ok.injEq, Prod.mk.injEq] at hr
    obtain ⟨rfl, rfl, rfl⟩ := hr
    exact ⟨[], rfl⟩
  | cons ref refs ih =>
    obtain ⟨ref₂, refs₂, rfl, hl, hmap⟩ := List.map_eq_cons_iff.mp hmap
    unfold selectBest at hr ⊢
    obtain ⟨cost, hc, hr⟩ := bind_eq_ok.mp hr
    obtain ⟨⟨best₁, bestcost₁⟩, h1, hr⟩ := bind_eq_ok.mp hr
    obtain ⟨⟨refs₁, best₂, bestcost₂⟩, h2, hr⟩ := bind_eq_ok.mp hr
    simp only [pure_eq_ok, Except.ok.injEq, Prod.mk.injEq] at hr
    obtain ⟨rfl, rfl, rfl⟩ := hr
    obtain ⟨refs₃, h3⟩ := ih hmap h2
    exact ⟨{ ref₂ with cost := cost } :: refs₃, by simp [hcost, hl, hc, h1, h3]⟩

theorem considerRef_isOk (cost bestcost : Nat) (hl : PathOk lsa.lsa)
    (hb : ∀ p, best = some p → PathOk p.lsa) :
    ∃ best' bestcost', considerRef lsa cost best bestcost = .ok (best', bestcost') ∧
      ∀ p, best' = some p → PathOk p.lsa := by
  obtain ⟨apath, ha, _⟩ := hl
  unfold considerRef
  split_ifs
  · exact ⟨_, _, rfl, fun p e => Option.some.inj e ▸ ⟨apath, ha, ‹_›⟩⟩
  · cases best with
    | none => exact ⟨none, bestcost, by simp [lsaHasShorterAdvPath, ha], by simp⟩
    | some b =>
      obtain ⟨bpath, hbp, hlen⟩ := hb b rfl
      refine ⟨_, bestcost, by simp [lsaHasShorterAdvPath, ha, hbp]; rfl, fun p e => ?_⟩
      split_ifs at e
      · exact Option.some.inj e ▸ ⟨apath, ha, ‹_›⟩
      · exact hb p e
  · exact ⟨_, _, rfl, hb⟩

theorem selectBest_isOk (rib : LocRib) (rid : LocRibId) (bestcost : Nat)
    (hp : ∀ ref ∈ refs, PathOk ref.lsa.lsa)
    (hb : ∀ p, best = some p → PathOk p.lsa) :
    ∃ r, selectBest rib rid refs best bestcost = .ok r := by
  induction refs generalizing best bestcost with
  | nil => exact ⟨_, rfl⟩
  | cons ref refs ih =>
    obtain ⟨cost, hc⟩ := lsaPathCost_isOk rib rid (hp ref List.mem_cons_self)
    obtain ⟨best₁, bestcost₁, h1, hb₁⟩ :=
      considerRef_isOk cost bestcost (hp ref List.mem_cons_self) hb
    obtain ⟨⟨refs₂, best₂, bestcost₂⟩, h2⟩ :=
      ih bestcost₁ (fun r hm => hp r (List.mem_cons_of_mem ref hm)) hb₁
    exact ⟨_, by simp [selectBest, hc, h1, h2]; rfl⟩

/-- The best pair of an entry. -/
def LocRibId.pair (rid : LocRibId) : Option (LsaPtr × Nat) :=
  rid.best.map fun best => (best, rid.bestcost)

/-- The table of best pairs that a listener follows. -/
def LocRib.view (rib : LocRib) (id : NodeId) : Option (LsaPtr × Nat) :=
  (locRibFindId rib id).bind LocRibId.pair

theorem view_eq (rib : LocRib) (id : NodeId) : rib.view id = (rib.entry id).pair := by
  unfold LocRib.view LocRib.entry
  cases locRibFindId rib id <;> rfl

theorem picked_ext (hi : rid.Inv) (hp : Picked rib rid rid.ptrs best bestcost) :
    rid.best.map LsaPtr.addr = best.map LsaPtr.addr ↔ rid.best = best := by
  constructor
  · intro h
    cases hb : rid.best with
    | none =>
      rw [hb, Option.map_none] at h
      exact (Option.map_eq_none_iff.mp h.symm).symm
    | some b =>
      rw [hb, Option.map_some] at h
      obtain ⟨p, rfl, e⟩ := Option.map_eq_some_iff.mp h.symm
      rcases hp with ⟨hn, _⟩ | ⟨q, hq, hqe, _⟩
      · exact absurd hn (by simp)
      · obtain rfl := Option.some.inj hqe
        rw [hi.addr b (by simp [LocRibId.held, hb]) p (List.mem_append_left _ hq) e.symm]
  · exact fun h => by rw [h]

theorem pair_eq_iff (hi : rid.Inv) (hi' : rid'.Inv) :
    rid.pair = rid'.pair ↔ rid.best = rid'.best ∧ rid.bestcost = rid'.bestcost := by
  unfold LocRibId.pair
  cases hb : rid.best with
  | none =>
    cases hb' : rid'.best with
    | none => simp [hi.none hb, hi'.none hb']
    | some b' => simp
  | some b =>
    cases hb' : rid'.best with
    | none => simp
    | some b' => simp

/-- What a recomputation makes of one entry. -/
structure Recomputed (rib : LocRib) (rid rid' : LocRibId) (es : List RibEvent) : Prop where
  id : rid'.id = rid.id
  ptrs : rid'.ptrs = rid.ptrs
  mark : rid'.highestVersionSeen = rid.highestVersionSeen
  inv : rid'.Inv
  picked : Picked rib rid rid.ptrs rid'.best rid'.bestcost
  select : ∃ lsas, selectBest rib rid rid.lsas none RIB_COST_INELIGIBLE =
    .ok (lsas, rid'.best, rid'.bestcost)
  events : rid.pair = rid'.pair ∧ es = [] ∨
    rid.pair ≠ rid'.pair ∧ es = changeEvents rid.best rid.bestcost rid'.best rid'.bestcost

theorem sorted_of_map_eq (h : refs'.map LocRibLsaRef.lsa = refs.map LocRibLsaRef.lsa)
    (hs : Avl.Sorted LocRibLsaRef.key refs) : Avl.Sorted LocRibLsaRef.key refs' := by
  have hmap : ∀ l : List LocRibLsaRef, Avl.Sorted LocRibLsaRef.key l ↔
      (l.map LocRibLsaRef.lsa).Pairwise fun p q => p.key < q.key := by
    intro l
    rw [List.pairwise_map]
    exact Iff.rfl
  rwa [hmap, h, ← hmap]

/-- The entry with a newly picked pair. -/
theorem inv_of_picked (hi : rid.Inv) {lsas : List LocRibLsaRef}
    (hmap : lsas.map LocRibLsaRef.lsa = rid.lsas.map LocRibLsaRef.lsa)
    (hp : Picked rib rid rid.ptrs best bestcost) :
    LocRibId.Inv { rid with lsas := lsas, best := best, bestcost := bestcost } := by
  have hheld : ∀ p ∈ LocRibId.held { rid with lsas := lsas, best := best, bestcost := bestcost },
      p ∈ rid.held := by
    intro p hm
    refine List.mem_append_left _ ?_
    rcases List.mem_append.mp hm with hm | hm
    · exact (congrArg (p ∈ ·) hmap).mp hm
    · rcases hp with ⟨rfl, _⟩ | ⟨q, hq, rfl, _⟩
      · exact absurd hm (by simp)
      · obtain rfl : p = q := by simpa using hm
        exact hq
  refine ⟨sorted_of_map_eq hmap hi.sorted, fun p hm => hi.ids p (hheld p hm),
    fun p hm q hq => hi.addr p (hheld p hm) q (hheld q hq), ?_, ?_⟩
  · rintro p hb
    rcases hp with ⟨hn, _⟩ | ⟨_, _, _, _, hlt⟩
    · exact absurd (hn.symm.trans hb) (by simp)
    · exact hlt
  · intro hb
    rcases hp with ⟨_, he⟩ | ⟨_, _, hn, _⟩
    · exact he
    · exact absurd (hb.symm.trans hn) (by simp)

theorem recomputeRid_spec {es : List RibEvent} (hi : rid.Inv)
    (h : recomputeRid rib rid = .ok (rid', es)) : Recomputed rib rid rid' es := by
  unfold recomputeRid at h
  obtain ⟨⟨lsas, best, bestcost⟩, hsel, h⟩ := bind_eq_ok.mp h
  obtain ⟨hp, hmap⟩ := selectBest_picked rid.ptrs
    (fun ref hm => List.mem_map_of_mem hm) (Or.inl ⟨rfl, rfl⟩) hsel
  have hinv := inv_of_picked hi hmap hp
  have haddr := picked_ext hi hp
  dsimp only at h
  split_ifs at h with hsame
  · -- the pair stays as it is
    obtain ⟨he, rfl⟩ := hsame
    obtain rfl := haddr.mp he
    obtain ⟨rfl, rfl⟩ := Prod.mk.inj (Except.ok.inj h)
    exact ⟨rfl, hmap, rfl, hinv, hp, ⟨lsas, hsel⟩, Or.inl ⟨rfl, rfl⟩⟩
  · obtain ⟨rfl, rfl⟩ := Prod.mk.inj (Except.ok.inj h)
    refine ⟨rfl, hmap, rfl, hinv, hp, ⟨lsas, hsel⟩, Or.inr ⟨fun he => hsame ?_, rfl⟩⟩
    exact ((pair_eq_iff hi hinv).mp he).imp_left haddr.mpr

/-! ## The listeners -/

open ChangeLog

variable {es es' : List RibEvent} {view : NodeId → Option (LsaPtr × Nat)}

theorem bestEvents_change (hi : rid.Inv) (hi' : rid'.Inv) (hid : rid'.id = rid.id) :
    (changeEvents rid.best rid.bestcost rid'.best rid'.bestcost).map RibEvent.change =
      change rid.id rid.pair rid'.pair :=
  changeEvents_change (fun p hb => hi.ids p (List.mem_append_right _ (by simp [hb])))
    fun p hb => hid ▸ hi'.ids p (List.mem_append_right _ (by simp [hb]))

theorem Recomputed.replays (h : Recomputed rib rid rid' es) (hi : rid.Inv)
    (hv : view rid.id = rid.pair) :
    Replays view (es.map RibEvent.change) (Function.update view rid.id rid'.pair) := by
  rcases h.events with ⟨he, rfl⟩ | ⟨_, rfl⟩
  · rw [← he, ← hv, Function.update_eq_self]
    exact .nil
  · rw [bestEvents_change hi h.inv h.id, ← hv]
    exact replays_change rid.id rid'.pair

theorem Recomputed.costs (h : Recomputed rib rid rid' es) (hi : rid.Inv) :
    ∀ e ∈ es, ∀ cost ∈ e.costs, cost < RIB_COST_INELIGIBLE := by
  rcases h.events with ⟨_, rfl⟩ | ⟨_, rfl⟩
  · exact fun e he => absurd he List.not_mem_nil
  · have hold := hi.some
    have hnew := h.inv.some
    cases hb : rid.best <;> cases hb' : rid'.best <;>
      simp_all [changeEvents, RibEvent.costs]

/-- What the listeners are told of is an LSA of the entry. -/
theorem Recomputed.news (h : Recomputed rib rid rid' es) (hi : rid.Inv) :
    ∀ e ∈ es, ∀ p, e.new = some p → e.id = rid.id ∧ p ∈ rid.ptrs := by
  rcases h.events with ⟨_, rfl⟩ | ⟨_, rfl⟩
  · exact fun e he => absurd he List.not_mem_nil
  · intro e he p hp
    rcases h.picked with ⟨hn, _⟩ | ⟨q, hq, hb', _⟩
    · cases hb : rid.best with
      | none => simp [hn, hb, changeEvents] at he
      | some b =>
        obtain rfl : e = .lsaDel b rid.bestcost := by simpa [hn, hb, changeEvents] using he
        exact absurd hp (by simp [RibEvent.new])
    · cases hb : rid.best with
      | none =>
        obtain rfl : e = .lsaAdd q rid'.bestcost := by simpa [hb', hb, changeEvents] using he
        obtain rfl : q = p := Option.some.inj hp
        exact ⟨hi.ids q (List.mem_append_left _ hq), hq⟩
      | some b =>
        obtain rfl : e = .lsaMod b rid.bestcost q rid'.bestcost := by
          simpa [hb', hb, changeEvents] using he
        obtain rfl : q = p := Option.some.inj hp
        exact ⟨hi.ids b (List.mem_append_right _ (by simp [hb])), hq⟩

/-- The entries of a recomputation, one by one. -/
theorem recomputeIds_spec {ids ids' : List LocRibId} (hi : ∀ rid ∈ ids, rid.Inv)
    (h : recomputeIds rib ids = .ok (ids', es)) :
    ∃ rs : List (LocRibId × List RibEvent),
      List.Forall₂ (fun rid r => Recomputed rib rid r.1 r.2) ids rs ∧
      ids' = rs.map Prod.fst ∧ es = rs.flatMap Prod.snd := by
  induction ids generalizing ids' es with
  | nil =>
    obtain ⟨rfl, rfl⟩ := Prod.mk.inj (Except.ok.inj h)
    exact ⟨[], .nil, rfl, rfl⟩
  | cons rid ids ih =>
    unfold recomputeIds at h
    obtain ⟨⟨rid', es₁⟩, h1, h⟩ := bind_eq_ok.mp h
    obtain ⟨⟨ids₂, es₂⟩, h2, h⟩ := bind_eq_ok.mp h
    obtain ⟨rfl, rfl⟩ := Prod.mk.inj (Except.ok.inj h)
    obtain ⟨rs, hrs, rfl, rfl⟩ := ih (fun r hm => hi r (List.mem_cons_of_mem rid hm)) h2
    exact ⟨(rid', es₁) :: rs,
      .cons (recomputeRid_spec (hi rid List.mem_cons_self) h1) hrs, rfl, rfl⟩

/-- The events of all entries replay, entry by entry. -/
theorem replays_of_forall₂ {ids : List LocRibId} {rs : List (LocRibId × List RibEvent)}
    (view : NodeId → Option (LsaPtr × Nat))
    (h : List.Forall₂ (fun rid r => Recomputed rib rid r.1 r.2) ids rs)
    (hi : ∀ rid ∈ ids, rid.Inv) (hn : (ids.map LocRibId.id).Nodup)
    (hv : ∀ rid ∈ ids, view rid.id = rid.pair) :
    ∃ view', Replays view ((rs.flatMap Prod.snd).map RibEvent.change) view' ∧
      (∀ r ∈ rs, view' r.1.id = r.1.pair) ∧
      ∀ id, (∀ rid ∈ ids, rid.id ≠ id) → view' id = view id := by
  induction h generalizing view with
  | nil => exact ⟨view, .nil, fun r hr => absurd hr List.not_mem_nil, fun _ _ => rfl⟩
  | @cons rid r ids rs hr _ ih =>
    rw [List.map_cons, List.nodup_cons] at hn
    have hne : ∀ rid' ∈ ids, rid'.id ≠ rid.id := fun rid' hm e =>
      hn.1 (e ▸ List.mem_map_of_mem hm)
    have hrep := hr.replays (hi rid List.mem_cons_self) (hv rid List.mem_cons_self)
    obtain ⟨view', hrep', hin, hout⟩ := ih (Function.update view rid.id r.1.pair)
      (fun rid' hm => hi rid' (List.mem_cons_of_mem rid hm)) hn.2 fun rid' hm => by
        rw [Function.update_of_ne (hne rid' hm)]
        exact hv rid' (List.mem_cons_of_mem rid hm)
    refine ⟨view', ?_, fun r' hm => ?_, fun id hid => ?_⟩
    · rw [List.flatMap_cons, List.map_append]
      exact hrep.append hrep'
    · rcases List.mem_cons.mp hm with rfl | hm
      · rw [hr.id, hout rid.id hne, Function.update_self]
      · exact hin r' hm
    · rw [hout id fun rid' hm => hid rid' (List.mem_cons_of_mem rid hm),
        Function.update_of_ne (hid rid List.mem_cons_self).symm]

/-! ## The whole RIB -/

/-- What a recomputation makes of a RIB, and what it tells the listeners. -/
structure RecomputeSpec (rib rib' : LocRib) (es : List RibEvent) : Prop where
  inv : rib'.Inv
  ids : rib'.ids.map LocRibId.id = rib.ids.map LocRibId.id
  same : SameLsas rib rib'
  picked : ∀ id, Picked rib (rib.entry id) (rib.entry id).ptrs (rib'.entry id).best
    (rib'.entry id).bestcost
  replays : Replays rib.view (es.map RibEvent.change) rib'.view
  costs : ∀ e ∈ es, ∀ cost ∈ e.costs, cost < RIB_COST_INELIGIBLE
  news : ∀ e ∈ es, ∀ p, e.new = some p → p ∈ (rib.entry e.id).ptrs

section Entries

variable {ids : List LocRibId} {rs : List (LocRibId × List RibEvent)}

theorem map_id_recomputed (h : List.Forall₂ (fun rid r => Recomputed rib rid r.1 r.2) ids rs) :
    (rs.map Prod.fst).map LocRibId.id = ids.map LocRibId.id := by
  induction h with
  | nil => rfl
  | cons hr _ ih => simp [hr.id, ih]

theorem exists_of_mem_recomputed {r : LocRibId × List RibEvent}
    (h : List.Forall₂ (fun rid r => Recomputed rib rid r.1 r.2) ids rs) (hr : r ∈ rs) :
    ∃ rid ∈ ids, Recomputed rib rid r.1 r.2 := by
  induction h with
  | nil => exact absurd hr List.not_mem_nil
  | @cons a b as bs hab _ ih =>
    rcases List.mem_cons.mp hr with rfl | hr
    · exact ⟨a, List.mem_cons_self, hab⟩
    · obtain ⟨rid, hm, hrec⟩ := ih hr
      exact ⟨rid, List.mem_cons_of_mem a hm, hrec⟩

/-- An entry after a recomputation is the recomputed one, or there was none. -/
theorem entry_recomputed (hi : rib.Inv)
    (h : List.Forall₂ (fun rid r => Recomputed rib rid r.1 r.2) rib.ids rs) (id : NodeId) :
    Avl.Sorted LocRibId.id (rs.map Prod.fst) ∧
    ((∃ r ∈ rs, r.1.id = id ∧ Recomputed rib (rib.entry id) r.1 r.2 ∧
        LocRib.entry { rib with ids := rs.map Prod.fst } id = r.1) ∨
      (rib.entry id = LocRibId.new id ∧
        LocRib.entry { rib with ids := rs.map Prod.fst } id = LocRibId.new id ∧
        ∀ rid ∈ rib.ids, rid.id ≠ id)) := by
  have hids := map_id_recomputed h
  have hs : Avl.Sorted LocRibId.id (rs.map Prod.fst) := by
    have hp := List.pairwise_map.mpr hi.sorted
    rw [← hids] at hp
    exact List.pairwise_map.mp hp
  refine ⟨hs, ?_⟩
  rcases @entry_cases { rib with ids := rs.map Prod.fst } hs id with
    ⟨rid', hm, hid, _, he⟩ | ⟨hf, he⟩
  · obtain ⟨r, hr, rfl⟩ := List.mem_map.mp hm
    obtain ⟨rid, hrid, hrec⟩ := exists_of_mem_recomputed h hr
    refine Or.inl ⟨r, hr, hid, ?_, he⟩
    rwa [← hid, hrec.id, entry_of_mem hi.sorted hrid]
  · have hnone : ∀ rid ∈ rib.ids, rid.id ≠ id := by
      intro rid hm e
      have hmem : id ∈ (rs.map Prod.fst).map LocRibId.id := hids ▸ e ▸ List.mem_map_of_mem hm
      obtain ⟨rid', hm', e'⟩ := List.mem_map.mp hmem
      exact (Avl.find_eq_none hs (findId_locates id)).mp hf rid' hm' e'
    refine Or.inr ⟨?_, he, hnone⟩
    unfold LocRib.entry locRibFindId
    rw [(Avl.find_eq_none hi.sorted (findId_locates id)).mpr hnone]
    rfl

end Entries

/-- **`recompute_rib`.** -/
theorem recompute_spec (hi : rib.Inv) (h : recomputeRib rib = .ok (rib', es)) :
    RecomputeSpec rib rib' es := by
  unfold recomputeRib at h
  obtain ⟨⟨ids', es₁⟩, h1, h⟩ := bind_eq_ok.mp h
  obtain ⟨rs, hrs, rfl, rfl⟩ := recomputeIds_spec hi.entries h1
  obtain ⟨rfl, rfl⟩ := Prod.mk.inj (Except.ok.inj h)
  have hentry := entry_recomputed hi hrs
  obtain ⟨view', hrep, hin, hout⟩ := replays_of_forall₂ rib.view hrs hi.entries
    (List.pairwise_map.mpr (hi.sorted.imp fun hlt => ne_of_lt hlt)) fun rid hm => by
      rw [view_eq, entry_of_mem hi.sorted hm]
  have hview : view' = LocRib.view { rib with ids := rs.map Prod.fst } := by
    funext id
    rw [view_eq]
    rcases (hentry id).2 with ⟨r, hr, hid, _, he⟩ | ⟨hold, hnew, hnone⟩
    · rw [he, ← hid, hin r hr]
    · rw [hout id hnone, hnew, view_eq, hold]
  refine ⟨⟨?_, fun rid' hm => ?_⟩, map_id_recomputed hrs, ⟨rfl, fun id => ?_, fun id => ?_⟩,
    fun id => ?_, hview ▸ hrep, fun e he => ?_, fun e he p hp => ?_⟩
  · cases hids : rib.ids with
    | nil =>
      rw [hids] at hrs
      cases hrs
      exact Avl.sorted_nil
    | cons rid ids => exact (hentry rid.id).1
  · have hs := (hentry rid'.id).1
    rcases (hentry rid'.id).2 with ⟨r, _, _, hrec, he⟩ | ⟨_, hnew, _⟩
    · rw [entry_of_mem hs hm] at he
      exact he ▸ hrec.inv
    · rw [entry_of_mem hs hm] at hnew
      exact hnew ▸ LocRibId.inv_new _
  · rcases (hentry id).2 with ⟨r, _, _, hrec, he⟩ | ⟨hold, hnew, _⟩
    · rw [he, hrec.ptrs]
    · rw [hold, hnew]
  · rcases (hentry id).2 with ⟨r, _, _, hrec, he⟩ | ⟨hold, hnew, _⟩
    · rw [he, hrec.mark]
    · rw [hold, hnew]
  · rcases (hentry id).2 with ⟨r, _, _, hrec, he⟩ | ⟨hold, hnew, _⟩
    · rw [he]
      exact hrec.picked
    · rw [hnew]
      exact Or.inl ⟨rfl, rfl⟩
  · obtain ⟨r, hr, he⟩ := List.mem_flatMap.mp he
    obtain ⟨rid, hm, hrec⟩ := exists_of_mem_recomputed hrs hr
    exact hrec.costs (hi.entries rid hm) e he
  · obtain ⟨r, hr, he⟩ := List.mem_flatMap.mp he
    obtain ⟨rid, hm, hrec⟩ := exists_of_mem_recomputed hrs hr
    obtain ⟨hid, hmem⟩ := hrec.news (hi.entries rid hm) e he p hp
    rwa [hid, entry_of_mem hi.sorted hm]

/-- **A second recomputation tells nothing.** -/
theorem recompute_twice {rib'' : LocRib} (hi : rib.Inv) (h : recomputeRib rib = .ok (rib', es))
    (h' : recomputeRib rib' = .ok (rib'', es')) : es' = [] := by
  have hspec := recompute_spec hi h
  unfold recomputeRib at h h'
  obtain ⟨⟨ids, es₁⟩, h1, h⟩ := bind_eq_ok.mp h
  obtain ⟨rs, hrs, rfl, rfl⟩ := recomputeIds_spec hi.entries h1
  obtain ⟨rfl, rfl⟩ := Prod.mk.inj (Except.ok.inj h)
  obtain ⟨⟨ids', es₂⟩, h2, h'⟩ := bind_eq_ok.mp h'
  obtain ⟨rs', hrs', rfl, rfl⟩ := recomputeIds_spec hspec.inv.entries h2
  obtain ⟨rfl, rfl⟩ := Prod.mk.inj (Except.ok.inj h')
  refine List.flatMap_eq_nil_iff.mpr fun r' hr' => ?_
  -- the entry `rid` was recomputed to `r` and then to `r'`
  obtain ⟨rid', hm', hrec'⟩ := exists_of_mem_recomputed hrs' hr'
  obtain ⟨r, hr, rfl⟩ := List.mem_map.mp hm'
  obtain ⟨rid, hm, hrec⟩ := exists_of_mem_recomputed hrs hr
  obtain ⟨lsas, hsel⟩ := hrec.select
  obtain ⟨lsas', hsel'⟩ := hrec'.select
  obtain ⟨lsas₂, hsel₂⟩ := selectBest_congr (hspec.same.lsaPathCost hrec.mark) hrec.ptrs hsel
  rw [hsel₂] at hsel'
  obtain ⟨_, hb, hc⟩ := by simpa using hsel'
  rcases hrec'.events with ⟨_, he⟩ | ⟨hne, _⟩
  · exact he
  · exact absurd ((pair_eq_iff hrec.inv hrec'.inv).mpr ⟨hb, hc⟩) hne

theorem recomputeRid_isOk (rib : LocRib) (hp : ∀ p ∈ rid.ptrs, PathOk p.lsa) :
    ∃ r, recomputeRid rib rid = .ok r := by
  obtain ⟨⟨lsas, best, bestcost⟩, hsel⟩ := @selectBest_isOk none rid.lsas rib rid
    RIB_COST_INELIGIBLE (fun ref hm => hp ref.lsa (List.mem_map_of_mem hm)) (by simp)
  unfold recomputeRid
  rw [hsel, ok_bind]
  dsimp only
  split_ifs
  · exact ⟨_, rfl⟩
  · exact ⟨_, rfl⟩

/-- **A recomputation does not abort** when every LSA has an `ADV_PATH` of whole node ids. -/
theorem recomputeRib_isOk (hp : ∀ rid ∈ rib.ids, ∀ p ∈ rid.ptrs, PathOk p.lsa) :
    ∃ r, recomputeRib rib = .ok r := by
  have hids : ∀ ids : List LocRibId, (∀ rid ∈ ids, ∀ p ∈ rid.ptrs, PathOk p.lsa) →
      ∃ r, recomputeIds rib ids = .ok r := by
    intro ids
    induction ids with
    | nil => exact fun _ => ⟨_, rfl⟩
    | cons rid ids ih =>
      intro h
      obtain ⟨r, hr⟩ := ih fun rid' hm => h rid' (List.mem_cons_of_mem rid hm)
      obtain ⟨q, hq⟩ := recomputeRid_isOk rib (h rid List.mem_cons_self)
      exact ⟨_, by rw [recomputeIds, hq, ok_bind, hr]; rfl⟩
  obtain ⟨r, hr⟩ := hids rib.ids hp
  exact ⟨_, by rw [recomputeRib, hr, ok_bind]; rfl⟩

end Dvpn
