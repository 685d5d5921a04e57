import Dvpn.Rib.LocRibRun
import Mathlib.Data.List.MinMax

/-!
# Which LSA is the best one (`loc_rib.c:157-218`)

`recompute_rid` keeps the best LSA so far and compares costs first and, at equal costs, the lengths
of the `ADV_PATH`s. So it ends at the least `rank`, the first one in the order of the tree.

* `Chosen`: what the loop knows after the references that it has seen.
* `considerRef_chosen`, `selectBest_chosen`: one round, and all of them.
* `recompute_rid_best`: the best pair after `recompute_rid`.
-/

namespace Dvpn

variable {rib : LocRib} {rid rid' : LocRibId} {lsa : LsaPtr} {best best' : Option LsaPtr}
  {cost bestcost bestcost' : Nat} {refs refs' seen : List LocRibLsaRef} {es : List RibEvent}

/-- `datalen` of the `ADV_PATH`. -/
def Lsa.pathLen (lsa : Lsa) : Nat := (lsa.advPath.map Attr.datalen).getD 0

/-- What `recompute_rid` minimises. -/
def LocRibLsaRef.rank (ref : LocRibLsaRef) : Nat ×ₗ Nat := toLex (ref.cost, ref.lsa.lsa.pathLen)

/-- The best pair after the references `seen`: none of them is eligible, or the first one of the
least rank is chosen. -/
def Chosen (seen : List LocRibLsaRef) (best : Option LsaPtr) (bestcost : Nat) : Prop :=
  best = none ∧ bestcost = RIB_COST_INELIGIBLE ∧ (∀ ref ∈ seen, ref.cost = RIB_COST_INELIGIBLE) ∨
  ∃ ref, seen.argmin LocRibLsaRef.rank = some ref ∧ best = some ref.lsa ∧ bestcost = ref.cost ∧
    bestcost < RIB_COST_INELIGIBLE

/-! ## Costs -/

theorem pathCostLoop_lt (rib : LocRib) : ∀ (hops : List NodeId) (prev : Option Lsa) (tt : Bool)
    {cost : Nat}, cost < RIB_COST_INELIGIBLE + 1 →
    pathCostLoop rib hops prev tt cost < RIB_COST_INELIGIBLE + 1
  | [], _, _, _, h => h
  | hop :: hops, prev, tt, cost, h => by
    have hmod : ∀ metric, (cost + metric) % 2 ^ 32 < RIB_COST_INELIGIBLE + 1 :=
      fun metric => Nat.mod_lt _ (by decide)
    have hun : RIB_COST_UNREACHABLE < RIB_COST_INELIGIBLE + 1 := by decide
    have ih := pathCostLoop_lt rib hops
    unfold pathCostLoop
    dsimp only
    split
    · exact hun
    · split
      · exact ih _ _ h
      · split
        · split_ifs
          · exact ih _ _ (hmod _)
          · exact hun
          · exact hun
          · exact ih _ _ (hmod _)
        · exact hun

theorem lsaPathCost_le {lsa : Lsa} (h : lsaPathCost rib rid lsa = .ok cost) :
    cost ≤ RIB_COST_INELIGIBLE := by
  refine Nat.le_of_lt_succ ?_
  have hun : RIB_COST_UNREACHABLE < RIB_COST_INELIGIBLE + 1 := by decide
  have hzero : 0 < RIB_COST_INELIGIBLE + 1 := by decide
  unfold lsaPathCost at h
  dsimp only at h
  split_ifs at h
  · exact Except.ok.inj h ▸ Nat.lt_succ_self _
  · split at h
    · cases h
    · split_ifs at h
      split at h
      · exact Except.ok.inj h ▸ pathCostLoop_lt rib _ _ _ hzero
      · split at h
        · exact Except.ok.inj h ▸ hun
        · exact Except.ok.inj h ▸ pathCostLoop_lt rib _ _ _ hzero

/-! ## The loop -/

theorem rank_lt_iff {p q : LocRibLsaRef} :
    p.rank < q.rank ↔ p.cost < q.cost ∨ p.cost = q.cost ∧ p.lsa.lsa.pathLen < q.lsa.lsa.pathLen :=
  Prod.Lex.toLex_lt_toLex

/-- `List.argmin` picks the first least element. -/
theorem argmin_split {α β : Type} [LinearOrder β] {f : α → β} {xs : List α} {m : α}
    (h : xs.argmin f = some m) :
    ∃ l r, xs = l ++ m :: r ∧ (∀ q ∈ l, f m < f q) ∧ ∀ q ∈ r, f m ≤ f q := by
  induction xs generalizing m with
  | nil => cases h
  | cons a xs ih =>
    rw [List.argmin_cons] at h
    cases hmin : xs.argmin f with
    | none =>
      rw [hmin] at h
      obtain rfl := Option.some.inj h
      obtain rfl := List.argmin_eq_none.mp hmin
      refine ⟨[], [], rfl, ?_, ?_⟩
      · exact fun q hq => absurd hq List.not_mem_nil
      · exact fun q hq => absurd hq List.not_mem_nil
    | some c =>
      rw [hmin] at h
      dsimp only at h
      split_ifs at h with hlt
      · obtain rfl := Option.some.inj h
        obtain ⟨l, r, rfl, hl, hr⟩ := ih hmin
        exact ⟨a :: l, r, rfl, List.forall_mem_cons.mpr ⟨hlt, hl⟩, hr⟩
      · obtain rfl := Option.some.inj h
        refine ⟨[], xs, rfl, fun q hq => absurd hq List.not_mem_nil, fun q hq => ?_⟩
        exact (not_lt.mp hlt).trans (List.le_of_mem_argmin hq hmin)

/-- The better one of the reference chosen so far and the next one. -/
theorem argmin_snoc {ref new : LocRibLsaRef} (h : seen.argmin LocRibLsaRef.rank = some ref) :
    (seen ++ [new]).argmin LocRibLsaRef.rank =
      if new.rank < ref.rank then some new else some ref := by
  rw [List.argmin_concat, h]

theorem lsaHasShorterAdvPath_some {b : LsaPtr} {shorter : Bool}
    (h : lsaHasShorterAdvPath lsa.lsa (some b.lsa) = .ok shorter) :
    shorter = true ↔ lsa.lsa.pathLen < b.lsa.pathLen := by
  unfold lsaHasShorterAdvPath at h
  cases ha : lsa.lsa.advPath with
  | none => simp [ha] at h
  | some apath =>
    cases hb : b.lsa.advPath with
    | none => simp [ha, hb] at h
    | some bpath =>
      simp only [ha, hb, pure_eq_ok, Except.ok.injEq] at h
      rw [← h, Lsa.pathLen, Lsa.pathLen, ha, hb, decide_eq_true_iff]
      rfl

/-- **One round of `recompute_rid`** takes the next reference into account. -/
theorem considerRef_chosen (h : Chosen seen best bestcost) (hc : cost ≤ RIB_COST_INELIGIBLE)
    (hr : considerRef lsa cost best bestcost = .ok (best', bestcost')) :
    Chosen (seen ++ [⟨lsa, cost⟩]) best' bestcost' := by
  unfold considerRef at hr
  rcases h with ⟨rfl, rfl, hseen⟩ | ⟨ref, hmin, rfl, rfl, hlt⟩
  · split_ifs at hr with h1 h2
    · -- the first eligible LSA
      obtain ⟨rfl, rfl⟩ := Prod.mk.inj (Except.ok.inj hr)
      refine Or.inr ⟨⟨lsa, cost⟩, ?_, rfl, rfl, h1⟩
      rw [List.argmin_concat]
      cases hmin : seen.argmin LocRibLsaRef.rank with
      | none => rfl
      | some ref =>
        have hcost := hseen ref (List.argmin_mem hmin)
        exact if_pos (rank_lt_iff.mpr (Or.inl (hcost ▸ h1)))
    · obtain ⟨shorter, hs, hr⟩ := bind_eq_ok.mp hr
      obtain ⟨rfl, rfl⟩ := Prod.mk.inj (Except.ok.inj hr)
      have hno : shorter = false := by
        unfold lsaHasShorterAdvPath at hs
        split at hs
        · cases hs
        · exact (Except.ok.inj hs).symm
      subst hno
      refine Or.inl ⟨rfl, rfl, fun ref hm => ?_⟩
      rcases List.mem_append.mp hm with hm | hm
      · exact hseen ref hm
      · rw [List.mem_singleton.mp hm]
        exact h2
    · exact absurd (le_antisymm hc (not_lt.mp h1)) h2
  · refine Or.inr ?_
    split_ifs at hr with h1 h2
    · obtain ⟨rfl, rfl⟩ := Prod.mk.inj (Except.ok.inj hr)
      refine ⟨⟨lsa, cost⟩, ?_, rfl, rfl, h1.trans hlt⟩
      rw [argmin_snoc hmin, if_pos (rank_lt_iff.mpr (Or.inl h1))]
    · obtain ⟨shorter, hs, hr⟩ := bind_eq_ok.mp hr
      obtain ⟨rfl, rfl⟩ := Prod.mk.inj (Except.ok.inj hr)
      have hshorter := lsaHasShorterAdvPath_some hs
      by_cases hlen : lsa.lsa.pathLen < ref.lsa.lsa.pathLen
      · rw [if_pos (hshorter.mpr hlen)]
        refine ⟨⟨lsa, cost⟩, ?_, rfl, h2.symm, hlt⟩
        rw [argmin_snoc hmin, if_pos (rank_lt_iff.mpr (Or.inr ⟨h2, hlen⟩))]
      · rw [if_neg fun hs => hlen (hshorter.mp hs)]
        refine ⟨ref, ?_, rfl, rfl, hlt⟩
        rw [argmin_snoc hmin, if_neg]
        rintro hrank
        rcases rank_lt_iff.mp hrank with hlt' | ⟨-, hlen'⟩
        · exact h1 hlt'
        · exact hlen hlen'
    · obtain ⟨rfl, rfl⟩ := Prod.mk.inj (Except.ok.inj hr)
      refine ⟨ref, ?_, rfl, rfl, hlt⟩
      rw [argmin_snoc hmin, if_neg]
      rintro hrank
      rcases rank_lt_iff.mp hrank with hlt' | ⟨heq, -⟩
      · exact h1 hlt'
      · exact h2 heq

/-- All rounds, and what they store in the references. -/
theorem selectBest_chosen (h : Chosen seen best bestcost)
    (hr : selectBest rib rid refs best bestcost = .ok (refs', best', bestcost')) :
    Chosen (seen ++ refs') best' bestcost' ∧
      ∀ ref ∈ refs', lsaPathCost rib rid ref.lsa.lsa = .ok ref.cost := by
  induction refs generalizing seen best bestcost refs' with
  | nil =>
    simp only [selectBest, pure_eq_ok, Except.ok.injEq, Prod.mk.injEq] at hr
    obtain ⟨rfl, rfl, rfl⟩ := hr
    rw [List.append_nil]
    exact ⟨h, fun ref hm => absurd hm List.not_mem_nil⟩
  | cons ref refs ih =>
    unfold selectBest at hr
    obtain ⟨cost, hc, hr⟩ := bind_eq_ok.mp hr
    obtain ⟨⟨best₁, bestcost₁⟩, h1, hr⟩ := bind_eq_ok.mp hr
    obtain ⟨⟨refs₁, best₂, bestcost₂⟩, h2, hr⟩ := bind_eq_ok.mp hr
    simp only [pure_eq_ok, Except.ok.injEq, Prod.mk.injEq] at hr
    obtain ⟨rfl, rfl, rfl⟩ := hr
    obtain ⟨hchosen, hcosts⟩ := ih (considerRef_chosen h (lsaPathCost_le hc) h1) h2
    rw [List.append_assoc] at hchosen
    exact ⟨hchosen, List.forall_mem_cons.mpr ⟨hc, hcosts⟩⟩

/-! ## Selection -/

/-- What `recompute_rid` stores. -/
theorem recomputeRid_chosen (hi : rid.Inv) (h : recomputeRid rib rid = .ok (rid', es)) :
    Chosen rid'.lsas rid'.best rid'.bestcost ∧
      ∀ ref ∈ rid'.lsas, lsaPathCost rib rid ref.lsa.lsa = .ok ref.cost := by
  obtain ⟨lsas', hselect⟩ := (recomputeRid_spec hi h).select
  unfold recomputeRid at h
  obtain ⟨⟨lsas, best, bestcost⟩, hsel, h⟩ := bind_eq_ok.mp h
  have hpair := Except.ok.inj (hsel.symm.trans hselect)
  rw [Prod.mk.injEq, Prod.mk.injEq] at hpair
  obtain ⟨-, hbest, hcost⟩ := hpair
  have hlsas : rid'.lsas = lsas := by
    dsimp only at h
    split_ifs at h
    · obtain ⟨rfl, -⟩ := Prod.mk.inj (Except.ok.inj h)
      rfl
    · obtain ⟨rfl, -⟩ := Prod.mk.inj (Except.ok.inj h)
      rfl
  have hnone : Chosen [] none RIB_COST_INELIGIBLE :=
    Or.inl ⟨rfl, rfl, fun ref hm => absurd hm List.not_mem_nil⟩
  rw [hlsas, ← hbest, ← hcost]
  exact selectBest_chosen hnone hsel

theorem Chosen.none_iff (h : Chosen refs best bestcost) :
    best = none ∧ bestcost = RIB_COST_INELIGIBLE ↔
      ∀ ref ∈ refs, ref.cost = RIB_COST_INELIGIBLE := by
  rcases h with ⟨hbest, hcost, hall⟩ | ⟨ref, hmin, rfl, rfl, hlt⟩
  · exact iff_of_true ⟨hbest, hcost⟩ hall
  · refine iff_of_false (fun hn => absurd hn.1 (by simp)) fun hall => ?_
    exact absurd (hall ref (List.argmin_mem hmin)) hlt.ne

/-- The stores of `recompute_rid` change no cost. -/
theorem sameLsas_setId (hi : rib.Inv) (hm : rid ∈ rib.ids) (h : Recomputed rib rid rid' es) :
    SameLsas rib (rib.setId rid') := by
  have hfind : (locRibFindId rib rid'.id).isSome := by
    rw [h.id, (findId_eq_some hi.sorted).mpr ⟨hm, rfl⟩]
    rfl
  have hup := updates_setId hi.sorted hfind
  have hentry := entry_of_mem hi.sorted hm
  refine ⟨hup.myid, fun id => ?_, fun id => ?_⟩
  · rw [hup.entry]
    split_ifs with hid
    · rw [hid, h.id, hentry, h.ptrs]
    · rfl
  · rw [hup.entry]
    split_ifs with hid
    · rw [hid, h.id, hentry, h.mark]
    · rfl

/-- **The best pair after `recompute_rid`**: nothing at `RIB_COST_INELIGIBLE` when that is what
every LSA costs, and else the first LSA of the least cost and, among those, of the least
`ADV_PATH`. It returns when every LSA has an `ADV_PATH` of whole node ids, and every reference then
holds the cost that its LSA has. -/
theorem recompute_rid_best (hi : rib.Inv) (hm : rid ∈ rib.ids) :
    ((∀ p ∈ rid.ptrs, PathOk p.lsa) → ∃ r, recomputeRid rib rid = .ok r) ∧
    ∀ rid' es, recomputeRid rib rid = .ok (rid', es) →
      rid'.ptrs = rid.ptrs ∧
      (∀ ref ∈ rid'.lsas, lsaPathCost (rib.setId rid') rid' ref.lsa.lsa = .ok ref.cost) ∧
      (rid'.best = none ∧ rid'.bestcost = RIB_COST_INELIGIBLE ↔
        ∀ ref ∈ rid'.lsas, ref.cost = RIB_COST_INELIGIBLE) ∧
      ((∃ ref ∈ rid'.lsas, ref.cost ≠ RIB_COST_INELIGIBLE) →
        ∃ l ref r, rid'.lsas = l ++ ref :: r ∧ rid'.best = some ref.lsa ∧
          rid'.bestcost = ref.cost ∧ (∀ q ∈ l, ref.rank < q.rank) ∧
          ∀ q ∈ r, ref.rank ≤ q.rank) := by
  have hri := hi.entries rid hm
  refine ⟨recomputeRid_isOk rib, fun rid' es h => ?_⟩
  have hspec := recomputeRid_spec hri h
  obtain ⟨hchosen, hcosts⟩ := recomputeRid_chosen hri h
  have hsame := sameLsas_setId hi hm hspec
  refine ⟨hspec.ptrs, ?_, ?_, ?_⟩
  · intro ref href
    rw [hsame.lsaPathCost hspec.mark]
    exact hcosts ref href
  · exact hchosen.none_iff
  · rintro ⟨bad, hbad, hne⟩
    rcases hchosen with ⟨-, -, hall⟩ | ⟨ref, hmin, hbest, hcost, -⟩
    · exact absurd (hall bad hbad) hne
    · obtain ⟨l, r, hsplit, hl, hr⟩ := argmin_split hmin
      exact ⟨l, ref, r, hsplit, hbest, hcost, hl, hr⟩

/-- Two LSAs of the all-zero id with one version. -/
def twins : LocRibId :=
  { LocRibId.new zeroId with
    highestVersionSeen := 1
    lsas := [⟨versioned 1 1, 0⟩, ⟨versioned 2 1, 0⟩] }

/-- The first of two equal LSAs is the best one. -/
theorem recompute_rid_best_twins : ∃ rid' es l ref r,
    recomputeRid { myid := none, ids := [twins] } twins = .ok (rid', es) ∧
      rid'.lsas = l ++ ref :: r ∧ rid'.best = some ref.lsa ∧ ∀ q ∈ r, ref.rank ≤ q.rank := by
  have h1 : locStep (locRibInit none) (.add (versioned 1 1)) =
      .ok (oneEntry 1 [versioned 1 1] none RIB_COST_INELIGIBLE, []) := rfl
  have h2 : locStep (oneEntry 1 [versioned 1 1] none RIB_COST_INELIGIBLE) (.add (versioned 2 1)) =
      .ok ({ myid := none, ids := [twins] }, []) := rfl
  have hc1 : LocContract (locRibInit none) (.add (versioned 1 1)) :=
    fun rid hm => absurd hm List.not_mem_nil
  have hc2 : LocContract (oneEntry 1 [versioned 1 1] none RIB_COST_INELIGIBLE)
      (.add (versioned 2 1)) := by
    intro rid hm p hp
    obtain rfl := List.mem_singleton.mp hm
    obtain rfl : p = versioned 1 1 := by simpa [LocRibId.held, LocRibId.ptrs] using hp
    decide
  have hi : LocRib.Inv { myid := none, ids := [twins] } :=
    LocRun.inv (.snoc (.snoc .nil hc1 h1) hc2 h2)
  have hrec : recomputeRid { myid := none, ids := [twins] } twins =
      .ok ({ twins with best := some (versioned 1 1), bestcost := 0 },
        [.lsaAdd (versioned 1 1) 0]) := rfl
  obtain ⟨-, -, -, hbest⟩ := (recompute_rid_best hi List.mem_cons_self).2 _ _ hrec
  obtain ⟨l, ref, r, hsplit, hb, -, -, hr⟩ :=
    hbest ⟨⟨versioned 1 1, 0⟩, List.mem_cons_self, by decide⟩
  exact ⟨_, _, l, ref, r, hrec, hsplit, hb, hr⟩

end Dvpn
