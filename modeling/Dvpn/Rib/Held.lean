import Dvpn.Rib.Peers

/-!
# What a local RIB holds, whatever is done to it (`loc_rib.c`)

The operations of the local RIB move LSAs and make none: without any contract, and with any
addresses, an LSA that is held after an operation was held before or was put there by it. So what
holds of every LSA that is put holds of every LSA that is held, and of every LSA that the listeners
are told of.

* `locStep_holds`: one operation.
* `forward_holds`: what a peer's listener puts into the RIB.
-/

namespace Dvpn

/-- Every LSA that the RIB holds is a `q`. -/
def LocRib.Holds (rib : LocRib) (q : LsaPtr → Prop) : Prop := ∀ rid ∈ rib.ids, ∀ p ∈ rid.held, q p

variable {rib rib' : LocRib} {rid rid' : LocRibId} {q : LsaPtr → Prop} {lsa old new : LsaPtr}
  {op : LocOp} {es : List RibEvent}

theorem locRibInit_holds (myid : Option NodeId) (q : LsaPtr → Prop) : (locRibInit myid).Holds q :=
  fun _ hm => absurd hm List.not_mem_nil

theorem locRibFindId_mem {id : NodeId} (h : locRibFindId rib id = some rid) : rid ∈ rib.ids :=
  (Avl.find_mem h).1

/-! ## Updates -/

theorem LocRib.Holds.setId (h : rib.Holds q) (hr : ∀ p ∈ rid.held, q p) :
    (rib.setId rid).Holds q := by
  intro rid' hm
  obtain ⟨rid₀, hm₀, rfl⟩ := List.mem_map.mp hm
  by_cases hid : rid₀.id = rid.id
  · rw [if_pos hid]
    exact hr
  · rw [if_neg hid]
    exact h rid₀ hm₀

/-- An entry with other LSAs. -/
theorem held_withLsas {lsas : List LocRibLsaRef} {mark : Nat} (h : ∀ p ∈ rid.held, q p)
    (hl : ∀ ref ∈ lsas, ref ∈ rid.lsas ∨ q ref.lsa) :
    ∀ p ∈ LocRibId.held { rid with lsas := lsas, highestVersionSeen := mark }, q p := by
  intro p hp
  rcases List.mem_append.mp hp with hp | hp
  · obtain ⟨ref, hm, rfl⟩ := List.mem_map.mp hp
    rcases hl ref hm with hm | hq
    · exact h ref.lsa (List.mem_append_left _ (List.mem_map_of_mem hm))
    · exact hq
  · exact h p (List.mem_append_right _ hp)

theorem insertRef_mem {lsas lsas' : List LocRibLsaRef} {ref : LocRibLsaRef}
    (h : insertRef lsas ref = .ok lsas') : ∀ r ∈ lsas', r = ref ∨ r ∈ lsas := by
  unfold insertRef at h
  cases hins : Avl.insert compareLsaRefs ref lsas with
  | none => simp [hins] at h
  | some l =>
    simp only [hins, Except.ok.injEq] at h
    subst h
    exact fun r hr => (Avl.mem_insert hins).mp hr

theorem getId_holds (h : rib.Holds q) (id : NodeId) :
    (getId rib id).1.Holds q ∧ ∀ p ∈ (getId rib id).2.held, q p := by
  unfold getId
  cases hf : locRibFindId rib id with
  | some rid => exact ⟨h, h rid (locRibFindId_mem hf)⟩
  | none =>
    have hnew : ∀ p ∈ (LocRibId.new id).held, q p := fun p hp => absurd hp List.not_mem_nil
    refine ⟨fun rid hm => ?_, hnew⟩
    change rid ∈ (Avl.insert compareIds (LocRibId.new id) rib.ids).getD rib.ids at hm
    cases hins : Avl.insert compareIds (LocRibId.new id) rib.ids with
    | none =>
      rw [hins] at hm
      exact h rid hm
    | some ids =>
      rw [hins] at hm
      rcases (Avl.mem_insert hins).mp hm with rfl | hm
      · exact hnew
      · exact h rid hm

theorem addLsa_holds (h : rib.Holds q) (hq : q lsa) (hrun : locRibAddLsa rib lsa = .ok rib') :
    rib'.Holds q := by
  obtain ⟨hget, hheld⟩ := getId_holds h lsa.lsa.id
  unfold locRibAddLsa at hrun
  generalize getId rib lsa.lsa.id = r at hget hheld hrun
  obtain ⟨rib₁, rid⟩ := r
  obtain ⟨lsas, hins, hrun⟩ := bind_eq_ok.mp hrun
  obtain rfl := Except.ok.inj hrun
  have hmem : ∀ ref ∈ lsas, ref ∈ rid.lsas ∨ q ref.lsa := fun ref hr =>
    (insertRef_mem hins ref hr).elim (fun e => Or.inr (e ▸ hq)) Or.inl
  refine hget.setId ?_
  split_ifs
  · exact @held_withLsas rid q lsas _ hheld hmem
  · exact @held_withLsas rid q lsas _ hheld hmem

theorem modLsa_holds (h : rib.Holds q) (hq : q new) (hrun : locRibModLsa rib old new = .ok rib') :
    rib'.Holds q := by
  unfold locRibModLsa at hrun
  cases hf : locRibFindId rib old.lsa.id with
  | none => simp [hf] at hrun
  | some rid =>
    cases hr : findLsaRef rid old with
    | none => simp [hf, hr] at hrun
    | some ref =>
      simp only [hf, hr] at hrun
      obtain ⟨lsas, hins, hrun⟩ := bind_eq_ok.mp hrun
      obtain rfl := Except.ok.inj hrun
      refine h.setId (held_withLsas (h rid (locRibFindId_mem hf)) fun r hm => ?_)
      rcases insertRef_mem hins r hm with rfl | hm
      · exact Or.inr hq
      · exact Or.inl (Avl.delete_sublist.subset hm)

theorem delLsa_holds (h : rib.Holds q) (hrun : locRibDelLsa rib lsa = .ok rib') : rib'.Holds q := by
  unfold locRibDelLsa at hrun
  cases hf : locRibFindId rib lsa.lsa.id with
  | none => simp [hf] at hrun
  | some rid =>
    cases hr : findLsaRef rid lsa with
    | none => simp [hf, hr] at hrun
    | some ref =>
      simp only [hf, hr] at hrun
      obtain rfl := Except.ok.inj hrun
      exact h.setId (held_withLsas (h rid (locRibFindId_mem hf)) fun r hm =>
        Or.inl (Avl.delete_sublist.subset hm))

/-! ## Recomputation -/

theorem recomputeRid_holds (h : ∀ p ∈ rid.held, q p)
    (hrun : recomputeRid rib rid = .ok (rid', es)) :
    (∀ p ∈ rid'.held, q p) ∧ ∀ e ∈ es, ∀ p, e.new = some p → q p := by
  unfold recomputeRid at hrun
  obtain ⟨⟨lsas, best, bestcost⟩, hsel, hrun⟩ := bind_eq_ok.mp hrun
  obtain ⟨hp, hmap⟩ := selectBest_picked rid.ptrs
    (fun ref hm => List.mem_map_of_mem hm) (Or.inl ⟨rfl, rfl⟩) hsel
  have hptrs : ∀ p ∈ lsas.map LocRibLsaRef.lsa, q p := fun p hm =>
    h p (List.mem_append_left _ ((congrArg (p ∈ ·) hmap).mp hm))
  have hbest : ∀ p, best = some p → q p := by
    rintro p rfl
    rcases hp with ⟨hn, _⟩ | ⟨p', hm, he, _⟩
    · exact absurd hn (by simp)
    · exact Option.some.inj he ▸ h p' (List.mem_append_left _ hm)
  dsimp only at hrun
  split_ifs at hrun
  · obtain ⟨rfl, rfl⟩ := Prod.mk.inj (Except.ok.inj hrun)
    refine ⟨fun p hm => ?_, fun e he => absurd he List.not_mem_nil⟩
    rcases List.mem_append.mp hm with hm | hm
    · exact hptrs p hm
    · exact h p (List.mem_append_right _ hm)
  · obtain ⟨rfl, rfl⟩ := Prod.mk.inj (Except.ok.inj hrun)
    refine ⟨fun p hm => ?_, fun e he p hp => hbest p (changeEvents_news e he p hp)⟩
    rcases List.mem_append.mp hm with hm | hm
    · exact hptrs p hm
    · exact hbest p (by simpa using hm)

theorem recomputeIds_holds {ids ids' : List LocRibId} (h : ∀ rid ∈ ids, ∀ p ∈ rid.held, q p)
    (hrun : recomputeIds rib ids = .ok (ids', es)) :
    (∀ rid ∈ ids', ∀ p ∈ rid.held, q p) ∧ ∀ e ∈ es, ∀ p, e.new = some p → q p := by
  induction ids generalizing ids' es with
  | nil =>
    obtain ⟨rfl, rfl⟩ := Prod.mk.inj (Except.ok.inj hrun)
    exact ⟨fun rid hm => absurd hm List.not_mem_nil, fun e he => absurd he List.not_mem_nil⟩
  | cons rid ids ih =>
    obtain ⟨⟨rid', es₁⟩, h1, hrun⟩ := bind_eq_ok.mp hrun
    obtain ⟨⟨ids₂, es₂⟩, h2, hrun⟩ := bind_eq_ok.mp hrun
    obtain ⟨rfl, rfl⟩ := Prod.mk.inj (Except.ok.inj hrun)
    obtain ⟨hrid, hes₁⟩ := recomputeRid_holds (h rid List.mem_cons_self) h1
    obtain ⟨hids, hes₂⟩ := ih (fun r hm => h r (List.mem_cons_of_mem rid hm)) h2
    refine ⟨fun r hm => ?_, fun e he => ?_⟩
    · rcases List.mem_cons.mp hm with rfl | hm
      · exact hrid
      · exact hids r hm
    · exact (List.mem_append.mp he).elim (hes₁ e) (hes₂ e)

/-! ## The machine -/

/-- **One operation**: what is put is held and told of, besides what was held before. -/
theorem locStep_holds (h : rib.Holds q) (hput : ∀ p, op.put = some p → q p)
    (hrun : locStep rib op = .ok (rib', es)) :
    rib'.Holds q ∧ ∀ e ∈ es, ∀ p, e.new = some p → q p := by
  have hnone : ∀ e ∈ ([] : List RibEvent), ∀ p, e.new = some p → q p :=
    fun e he => absurd he List.not_mem_nil
  cases op with
  | add lsa =>
    obtain ⟨rib₁, h1, hrun⟩ := bind_eq_ok.mp hrun
    obtain ⟨rfl, rfl⟩ := Prod.mk.inj (Except.ok.inj hrun)
    exact ⟨addLsa_holds h (hput lsa rfl) h1, hnone⟩
  | mod old new =>
    obtain ⟨rib₁, h1, hrun⟩ := bind_eq_ok.mp hrun
    obtain ⟨rfl, rfl⟩ := Prod.mk.inj (Except.ok.inj hrun)
    exact ⟨modLsa_holds h (hput new rfl) h1, hnone⟩
  | del lsa =>
    obtain ⟨rib₁, h1, hrun⟩ := bind_eq_ok.mp hrun
    obtain ⟨rfl, rfl⟩ := Prod.mk.inj (Except.ok.inj hrun)
    exact ⟨delLsa_holds h h1, hnone⟩
  | recompute =>
    obtain ⟨⟨ids, es₁⟩, h1, hrun⟩ := bind_eq_ok.mp hrun
    obtain ⟨rfl, rfl⟩ := Prod.mk.inj (Except.ok.inj hrun)
    exact recomputeIds_holds h h1

/-- **A peer's listener** puts what it is told of into the RIB. -/
theorem forward_holds (h : rib.Holds q) (hnews : ∀ e ∈ es, ∀ p, e.new = some p → q p)
    (hrun : forward rib es = .ok rib') : rib'.Holds q := by
  induction es generalizing rib with
  | nil => exact Except.ok.inj hrun ▸ h
  | cons e es ih =>
    obtain ⟨rib₁, h1, hrun⟩ := bind_eq_ok.mp hrun
    have hq := hnews e List.mem_cons_self
    refine ih ?_ (fun e' he => hnews e' (List.mem_cons_of_mem e he)) hrun
    cases e with
    | lsaAdd a cost => exact addLsa_holds h (hq a rfl) h1
    | lsaMod a acost b bcost => exact modLsa_holds h (hq b rfl) h1
    | lsaDel a cost => exact delLsa_holds h h1

end Dvpn
