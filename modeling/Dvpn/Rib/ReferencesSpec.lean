import Dvpn.Rib.References

/-!
# What the functions do to the references

One lemma for each function of `Dvpn.Rib.References`. `RefCounted clean heap R` says that the heap
is right about the references `R`: each is a reference to an object that is there, and each object
counts them. A function is given the references of the RIBs that it works on beside others, `R`,
which it leaves alone; it ends with those of the RIBs that it returns beside `R`, so it neither
meets an object that is gone nor loses or invents a reference.

The one way to fail that is left is the release of an object with an empty set, on which
`attr_tree_free` faults; `Faults clean` says that the call failed there, and that not all objects
are `clean`.

* `lsaGetRef_ok`, `lsaPutRef_spec`: the two primitives.
* `forwardRef_change`: what a peer's RIB passes on to the local RIB.
* `adjRibInAddLsaRef_spec`, `adjRibInDelLsaRef_spec`: the RIB of a peer.
* `recomputeRibRef_spec`, `locRibDeinitRef_spec`: the selection and the end of the local RIB.
-/

namespace Dvpn

/-! ## Objects -/

/-- The release of the last reference to an LSA does not fault. -/
def Releasable (lsa : Lsa) : Prop := ∃ r, lsaPut { lsa with refcount := 1 } = .ok r

/-- The heap counts the references `refs`; if `clean`, each of the objects can be released. -/
structure RefCounted (clean : Prop) (heap : LsaHeap) (refs : Multiset LsaPtr) : Prop where
  counts : Counts LsaPtr.addr LsaPtr.lsa heap refs
  releasable : clean → ∀ p ∈ refs, Releasable p.lsa

/-- The only way to fail: the release of an object faults, so not all is `clean`. -/
def Faults (clean : Prop) (e : HeapCrash) : Prop := ¬ clean ∧ ∃ c, e = .crash c

/-- The references that a pointer is, which may be NULL. -/
def refsOf (o : Option LsaPtr) : Multiset LsaPtr := o.toList

@[simp] theorem refsOf_none : refsOf none = 0 := rfl

@[simp] theorem refsOf_some (p : LsaPtr) : refsOf (some p) = {p} := rfl

theorem mem_refsOf {o : Option LsaPtr} {p : LsaPtr} : p ∈ refsOf o ↔ o = some p := by
  cases o with
  | none => simp
  | some q => simp [eq_comm]

variable {clean : Prop} {heap heap' : LsaHeap} {R : Multiset LsaPtr} {o : Option LsaPtr}
  {p lsa : LsaPtr} {ps : List LsaPtr}

theorem liftCrash_ok {α : Type} {x : Except Crash α} {a : α} (h : x = .ok a) :
    liftCrash x = .ok a := by
  rw [h]
  rfl

theorem lsaRead_ok (h : RefCounted clean heap R) (hps : ∀ p ∈ ps, p ∈ R) :
    lsaRead heap ps = .ok () := by
  refine if_pos fun p hp => ?_
  obtain ⟨k, hk⟩ := h.counts.live p (hps p hp)
  rw [hk]
  rfl

theorem RefCounted.alloc (h : RefCounted clean heap R) (p : LsaPtr) (hfree : heap p.addr = none)
    (hrel : clean → Releasable p.lsa) : RefCounted clean (heap.alloc p.addr p.lsa) (p ::ₘ R) :=
  ⟨h.counts.alloc p hfree, fun hc q hq =>
    (Multiset.mem_cons.mp hq).elim (fun e => e ▸ hrel hc) (h.releasable hc q)⟩

/-- **`lsa_get`** copies a reference. -/
theorem lsaGetRef_ok (h : RefCounted clean heap R) (ho : ∀ p, o = some p → p ∈ R) :
    ∃ heap', lsaGetRef heap o = .ok heap' ∧ RefCounted clean heap' (refsOf o + R) := by
  cases o with
  | none => exact ⟨heap, rfl, by rwa [refsOf_none, zero_add]⟩
  | some p =>
    obtain ⟨heap', hget, hcounts⟩ := h.counts.get (ho p rfl)
    refine ⟨heap', by rw [lsaGetRef, hget]; rfl, hcounts, fun hc q hq => ?_⟩
    exact (Multiset.mem_cons.mp hq).elim (fun e => e ▸ h.releasable hc p (ho p rfl))
      (h.releasable hc q)

/-- **`lsa_put`** gives a reference back. -/
theorem lsaPutRef_spec (h : RefCounted clean heap (refsOf o + R)) :
    Ends (lsaPutRef heap o) (fun heap' => RefCounted clean heap' R) (Faults clean) := by
  cases o with
  | none => exact Ends.ok (by rwa [refsOf_none, zero_add] at h)
  | some p =>
    rw [refsOf_some, Multiset.singleton_add] at h
    obtain ⟨heap', released, hput, hcounts, hobj⟩ := h.counts.put
    have hcounted : RefCounted clean heap' R :=
      ⟨hcounts, fun hc q hq => h.releasable hc q (Multiset.mem_cons_of_mem hq)⟩
    rw [lsaPutRef, hput]
    cases released with
    | none => exact Ends.ok hcounted
    | some lsa =>
      obtain rfl := hobj lsa rfl
      dsimp only
      cases hrel : lsaPut { p.lsa with refcount := 1 } with
      | ok r => exact Ends.ok hcounted
      | error c =>
        refine ⟨fun hc => ?_, c, rfl⟩
        obtain ⟨r, hr⟩ := h.releasable hc p (Multiset.mem_cons_self p R)
        exact nomatch hrel.symm.trans hr

/-! ## The references of the local RIB -/

/-- The references that a local RIB holds. -/
def LocRib.refs (rib : LocRib) : Multiset LsaPtr := rib.ids.flatMap LocRibId.held

variable {rib rib' loc loc' : LocRib} {rid : LocRibId} {id : NodeId} {old new : Option LsaPtr}

theorem mem_locRefs : p ∈ rib.refs ↔ ∃ rid ∈ rib.ids, p ∈ rid.held :=
  List.mem_flatMap

theorem mem_locRefs_of_entry (hi : rib.Inv) (hp : p ∈ (rib.entry id).held) : p ∈ rib.refs := by
  rcases entry_cases hi.sorted id with ⟨rid, hm, _, _, he⟩ | ⟨_, he⟩
  · exact mem_locRefs.mpr ⟨rid, hm, he ▸ hp⟩
  · rw [he] at hp
    exact absurd hp List.not_mem_nil

/-- The references of the other entries. -/
def LocRib.otherRefs (rib : LocRib) (id : NodeId) : Multiset LsaPtr :=
  (rib.ids.filter fun rid => rid.id ≠ id).flatMap LocRibId.held

/-- The references of one entry and those of the others. -/
theorem locRefs_eq (hs : Avl.Sorted LocRibId.id rib.ids) (id : NodeId) :
    rib.refs = ↑(rib.entry id).held + rib.otherRefs id := by
  unfold LocRib.refs LocRib.otherRefs
  rw [Multiset.coe_add, Multiset.coe_eq_coe]
  rcases entry_cases hs id with ⟨rid, hm, rfl, _, he⟩ | ⟨hnone, he⟩
  · have hperm : rib.ids.Perm (rid :: rib.ids.filter fun rid' => rid'.id ≠ rid.id) := by
      refine (List.perm_ext_iff_of_nodup hs.nodup (List.nodup_cons.mpr ⟨?_, ?_⟩)).mpr fun x => ?_
      · simp
      · exact hs.nodup.filter _
      · rw [List.mem_cons, List.mem_filter, decide_eq_true_eq]
        constructor
        · intro hx
          by_cases hid : x.id = rid.id
          · exact Or.inl (hs.eq_of_key hx hm hid)
          · exact Or.inr ⟨hx, hid⟩
        · rintro (rfl | ⟨hx, _⟩)
          · exact hm
          · exact hx
    rw [he]
    exact hperm.flatMap_right LocRibId.held
  · have hall : rib.ids.filter (fun rid => rid.id ≠ id) = rib.ids := by
      refine List.filter_eq_self.mpr fun rid hm => decide_eq_true ?_
      exact (Avl.find_eq_none hs (findId_locates id)).mp hnone rid hm
    rw [he, hall]
    exact List.Perm.refl _

/-- An update of one entry leaves the references of the others. -/
theorem Updates.otherRefs (h : Updates rib rib' rid) (hs : Avl.Sorted LocRibId.id rib.ids) :
    rib'.otherRefs rid.id = rib.otherRefs rid.id := by
  unfold LocRib.otherRefs
  rw [Multiset.coe_eq_coe]
  refine List.Perm.flatMap_right _ ?_
  refine (List.perm_ext_iff_of_nodup (h.sorted.nodup.filter _) (hs.nodup.filter _)).mpr fun x => ?_
  rw [List.mem_filter, List.mem_filter, decide_eq_true_eq]
  refine and_congr_left fun hne => ?_
  have hfind := h.find x.id
  rw [if_neg hne] at hfind
  have hmem := @findId_eq_some rib' x x.id h.sorted
  rw [hfind, findId_eq_some hs] at hmem
  simpa using hmem.symm

/-- **The references after an update** in which `old` makes place for `new`. -/
theorem Updates.refs (old new : Option LsaPtr) (h : Updates rib rib' rid)
    (hs : Avl.Sorted LocRibId.id rib.ids)
    (hbest : rid.best = (rib.entry rid.id).best)
    (hperm : ∃ rest, (rib.entry rid.id).ptrs.Perm (old.toList ++ rest) ∧
      rid.ptrs.Perm (new.toList ++ rest)) :
    ∃ S, rib.refs = refsOf old + S ∧ rib'.refs = refsOf new + S := by
  obtain ⟨rest, hold, hnew⟩ := hperm
  have hentry : rib'.entry rid.id = rid := by rw [h.entry, if_pos rfl]
  have hheld : ∀ {rid : LocRibId} {o : Option LsaPtr}, rid.ptrs.Perm (o.toList ++ rest) →
      (rid.held : Multiset LsaPtr) = refsOf o + (↑rest + refsOf rid.best) := fun {rid o} hp => by
    change ((rid.ptrs ++ rid.best.toList : List LsaPtr) : Multiset LsaPtr) = _
    rw [← Multiset.coe_add, Multiset.coe_eq_coe.mpr hp, ← Multiset.coe_add, add_assoc]
    rfl
  refine ⟨↑rest + refsOf rid.best + rib.otherRefs rid.id, ?_, ?_⟩
  · rw [locRefs_eq hs rid.id, hheld hold, ← hbest, add_assoc]
  · rw [locRefs_eq h.sorted rid.id, hentry, h.otherRefs hs, hheld hnew, add_assoc]

/-! ## Updates of the local RIB -/

/-- The local RIB gets from `loc` to `loc'` by calls within its contract. -/
def LocPath (loc loc' : LocRib) (es : List RibEvent) : Prop :=
  ∃ ops, Run locStep LocContractPaths loc ops loc' es

theorem LocPath.refl (loc : LocRib) : LocPath loc loc [] := ⟨[], .nil⟩

theorem LocPath.trans {loc'' : LocRib} {es es' : List RibEvent} (h : LocPath loc loc' es)
    (h' : LocPath loc' loc'' es') : LocPath loc loc'' (es ++ es') := by
  obtain ⟨ops, hrun⟩ := h
  obtain ⟨ops', hrun'⟩ := h'
  exact ⟨ops ++ ops', hrun.append hrun'⟩

theorem LocPath.one (op : LocOp) {es : List RibEvent} (hc : LocContractPaths loc op)
    (h : locStep loc op = .ok (loc', es)) : LocPath loc loc' es :=
  ⟨[op], by simpa using Run.snoc .nil hc h⟩

/-- `old` made place for `new` in the local RIB, whose references are counted beside `R`. -/
structure Exchanged (clean : Prop) (loc : LocRib) (id : NodeId) (old new : Option LsaPtr)
    (R : Multiset LsaPtr) (r : LsaHeap × LocRib) : Prop where
  exchanges : Exchanges loc r.2 id old new
  path : LocPath loc r.2 []
  counted : RefCounted clean r.1 (r.2.refs + R)

section Updates

variable {R : Multiset LsaPtr} {q : LsaPtr}

theorem Present.mem_refs (hi : loc.Inv) (hp : loc.Present p) : p ∈ loc.refs :=
  mem_locRefs_of_entry hi (List.mem_append_left _ ((present_iff hi).mp hp))

theorem mem_refs_of_ptrs (hi : loc.Inv) (hp : p ∈ (loc.entry id).ptrs) : p ∈ loc.refs + R :=
  Multiset.mem_add.mpr (Or.inl (mem_locRefs_of_entry hi (List.mem_append_left _ hp)))

/-- **`loc_rib_add_lsa`** takes a reference to the new LSA. -/
theorem locRibAddLsaRef_spec (hi : loc.Inv) (hf : loc.Fresh q) (hpath : PathOk q.lsa)
    (h : RefCounted clean heap (loc.refs + R)) (hq : q ∈ R) :
    Ends (locRibAddLsaRef heap loc q) (Exchanged clean loc q.lsa.id none (some q) R)
      (Faults clean) := by
  obtain ⟨loc', lsas, hrun, hup, hperm, hi'⟩ := add_spec hi hf
  have hread : lsaRead heap (q :: (loc.entry q.lsa.id).ptrs) = .ok () := lsaRead_ok h fun p hp =>
    (List.mem_cons.mp hp).elim (fun e => e ▸ Multiset.mem_add.mpr (Or.inr hq))
      (mem_refs_of_ptrs hi)
  obtain ⟨heap', hget, hcounted⟩ := lsaGetRef_ok (o := some q) h fun p hp =>
    Option.some.inj hp ▸ Multiset.mem_add.mpr (Or.inr hq)
  have hid := (hi.entry q.lsa.id).2
  have hexch : ∃ rest, (loc.entry q.lsa.id).ptrs.Perm ((none : Option LsaPtr).toList ++ rest) ∧
      (lsas.map LocRibLsaRef.lsa).Perm ((some q).toList ++ rest) := ⟨_, List.Perm.refl _, hperm⟩
  obtain ⟨S, hold, hnew⟩ := hup.refs none (some q) hi.sorted
    (by dsimp only; rw [hid]) (by dsimp only; rw [hid]; exact hexch)
  have hstep : locStep loc (.add q) = .ok (loc', []) := by rw [locStep, hrun, ok_bind]; rfl
  have hends : locRibAddLsaRef heap loc q = .ok (heap', loc') := by
    unfold locRibAddLsaRef
    rw [hread, ok_bind, hget, ok_bind, liftCrash_ok hrun, ok_bind]
    rfl
  rw [hends]
  refine ⟨hup.exchanges hi' hid (by simp) hexch, .one (.add q) ⟨hf, ?_⟩ hstep, ?_⟩
  · exact fun p hp => Option.some.inj hp ▸ hpath
  · rw [hold, refsOf_none, zero_add] at hcounted
    rwa [hnew, add_assoc]

/-- **`loc_rib_del_lsa`** gives the reference to the LSA back. -/
theorem locRibDelLsaRef_spec (hi : loc.Inv) (hp : loc.Present p)
    (h : RefCounted clean heap (loc.refs + R)) :
    Ends (locRibDelLsaRef heap loc p) (Exchanged clean loc p.lsa.id (some p) none R)
      (Faults clean) := by
  obtain ⟨loc', lsas, hrun, hup, hperm, hi'⟩ := del_spec hi hp
  have hread : lsaRead heap (p :: (loc.entry p.lsa.id).ptrs) = .ok () := lsaRead_ok h fun q hq =>
    (List.mem_cons.mp hq).elim (fun e => e ▸ mem_refs_of_ptrs hi ((present_iff hi).mp hp))
      (mem_refs_of_ptrs hi)
  have hid := (hi.entry p.lsa.id).2
  have hexch : ∃ rest, (loc.entry p.lsa.id).ptrs.Perm ((some p).toList ++ rest) ∧
      (lsas.map LocRibLsaRef.lsa).Perm ((none : Option LsaPtr).toList ++ rest) :=
    ⟨_, hperm, List.Perm.refl _⟩
  obtain ⟨S, hold, hnew⟩ := hup.refs (some p) none hi.sorted
    (by dsimp only; rw [hid]) (by dsimp only; rw [hid]; exact hexch)
  have hstep : locStep loc (.del p) = .ok (loc', []) := by rw [locStep, hrun, ok_bind]; rfl
  rw [hold, add_assoc] at h
  unfold locRibDelLsaRef
  rw [hread, ok_bind, liftCrash_ok hrun, ok_bind]
  refine (lsaPutRef_spec (o := some p) h).bind fun heap' hcounted => Ends.ok ?_
  refine ⟨hup.exchanges hi' hid (by simp) hexch, .one (.del p) ⟨hp, by simp [LocOp.put]⟩ hstep, ?_⟩
  rwa [hnew, refsOf_none, zero_add]

/-- **`loc_rib_mod_lsa`** takes a reference to the new LSA and gives the one to the old back. -/
theorem locRibModLsaRef_spec (hi : loc.Inv) (hp : loc.Present p) (hf : loc.Fresh q)
    (hid : q.lsa.id = p.lsa.id) (hpath : PathOk q.lsa) (h : RefCounted clean heap (loc.refs + R))
    (hq : q ∈ R) :
    Ends (locRibModLsaRef heap loc p q) (Exchanged clean loc p.lsa.id (some p) (some q) R)
      (Faults clean) := by
  obtain ⟨loc', lsas, hrun, hup, hexch, hi'⟩ := mod_spec hi hp hf hid
  have hmem : q ∈ loc.refs + R := Multiset.mem_add.mpr (Or.inr hq)
  have hread : lsaRead heap (p :: q :: (loc.entry p.lsa.id).ptrs) = .ok () := by
    refine lsaRead_ok h fun p' hp' => ?_
    rcases List.mem_cons.mp hp' with rfl | hp'
    · exact mem_refs_of_ptrs hi ((present_iff hi).mp hp)
    · exact (List.mem_cons.mp hp').elim (fun e => e ▸ hmem) (mem_refs_of_ptrs hi)
  obtain ⟨heap', hget, hcounted⟩ := lsaGetRef_ok (o := some q) h fun p hp =>
    Option.some.inj hp ▸ hmem
  have hentry := (hi.entry p.lsa.id).2
  obtain ⟨S, hold, hnew⟩ := hup.refs (some p) (some q) hi.sorted
    (by dsimp only; rw [hentry]) (by dsimp only; rw [hentry]; exact hexch)
  have hstep : locStep loc (.mod p q) = .ok (loc', []) := by rw [locStep, hrun, ok_bind]; rfl
  have hswap : refsOf (some q) + (loc.refs + R) = refsOf (some p) + (loc'.refs + R) := by
    rw [hold, hnew]
    abel
  rw [hswap] at hcounted
  unfold locRibModLsaRef
  rw [hread, ok_bind, hget, ok_bind, liftCrash_ok hrun, ok_bind]
  refine (lsaPutRef_spec (o := some p) hcounted).bind fun heap'' hcounted => Ends.ok ?_
  refine ⟨hup.exchanges hi' hentry ?_ hexch, .one (.mod p q) ⟨⟨hp, hf, hid⟩, ?_⟩ hstep, hcounted⟩
  · rintro p' (hp' | hp')
    · exact Option.some.inj hp' ▸ rfl
    · exact Option.some.inj hp' ▸ hid
  · exact fun p hp => Option.some.inj hp ▸ hpath

/-- **A change is put into the local RIB** with its references, when the old LSA is there and the
new one is a fresh object that the caller has a reference to. -/
theorem forwardRef_change (hi : loc.Inv) (hids : ∀ p, old = some p ∨ new = some p → p.lsa.id = id)
    (hold : ∀ p, old = some p → loc.Present p)
    (hnew : ∀ p, new = some p → loc.Fresh p ∧ PathOk p.lsa ∧ p ∈ R)
    (h : RefCounted clean heap (loc.refs + R)) (oldcost newcost : Nat) :
    Ends (forwardRef heap loc (changeEvents old oldcost new newcost))
      (Exchanged clean loc id old new R) (Faults clean) := by
  have hone : ∀ {e : RibEvent}, Ends (listenerToLocRef heap loc e)
      (Exchanged clean loc id old new R) (Faults clean) →
      Ends (forwardRef heap loc [e]) (Exchanged clean loc id old new R) (Faults clean) :=
    fun hl => hl.bind fun _ hr => Ends.ok hr
  cases old with
  | none =>
    cases new with
    | none =>
      exact Ends.ok ⟨⟨hi, hids, ⟨_, List.Perm.refl _, List.Perm.refl _⟩, fun _ _ => rfl⟩,
        .refl loc, h⟩
    | some q =>
      obtain ⟨hf, hpath, hq⟩ := hnew q rfl
      obtain rfl := hids q (Or.inr rfl)
      exact hone (locRibAddLsaRef_spec hi hf hpath h hq)
  | some p =>
    obtain rfl := hids p (Or.inl rfl)
    cases new with
    | none => exact hone (locRibDelLsaRef_spec hi (hold p rfl) h)
    | some q =>
      obtain ⟨hf, hpath, hq⟩ := hnew q rfl
      exact hone (locRibModLsaRef_spec hi (hold p rfl) hf (hids q (Or.inr rfl)) hpath h hq)

end Updates

/-! ## Updates of a peer's RIB -/

section Peer

variable {c : Crypto} {adj adj' : AdjRibIn} {R : Multiset LsaPtr} {ref : LsaPtr}

/-- The LSA of `id` in a peer's RIB went from `old` to `new`, and the local RIB follows; their
references are counted beside `R`. -/
structure Forwarded (c : Crypto) (clean : Prop) (loc : LocRib) (adj : AdjRibIn) (id : NodeId)
    (old new : Option LsaPtr) (R : Multiset LsaPtr) (r : LsaHeap × LocRib × AdjRibIn) : Prop where
  updates : ∃ es, AdjUpdates c adj r.2.2 id old new es
  exchanged : Exchanged clean loc id (old.filter (adj.accepted c)) (new.filter (adj.accepted c))
    (↑r.2.2.lsas + R) (r.1, r.2.1)

/-- What the local RIB and the callers have to do with an LSA of a peer's RIB: an accepted one is in
the local RIB, and a new one is a fresh object, of which the caller has a reference. -/
structure Offered (c : Crypto) (loc : LocRib) (adj : AdjRibIn) (old new : Option LsaPtr)
    (R : Multiset LsaPtr) : Prop where
  old : ∀ p, old = some p → p ∈ adj.lsas ∧ (adj.accepted c p = true → loc.Present p)
  new : ∀ p, new = some p → loc.Fresh p ∧ p ∈ R

theorem pathOk_of_accepted (h : adj.accepted c p = true) : PathOk p.lsa := by
  obtain ⟨attr, _, ha, hmod, _⟩ := accepted_path h
  exact ⟨attr, ha, hmod⟩

/-- **`notify`** passes the change of the accepted LSAs on. -/
theorem notifyRef_spec {es : List RibEvent} {rib₁ : AdjRibIn} (hi : loc.Inv)
    (ho : Offered c loc adj old new R) (hup : AdjUpdates c adj adj' id old new es)
    (hids : ∀ p, old = some p → p.lsa.id = id) (hrun : notify c adj old new = .ok (rib₁, es))
    (h : RefCounted clean heap (loc.refs + (↑adj.lsas + R))) :
    Ends (notifyRef c heap loc adj old new) (fun r => r.2.2 = rib₁ ∧
      Exchanged clean loc id (old.filter (adj.accepted c)) (new.filter (adj.accepted c))
        (↑adj.lsas + R) (r.1, r.2.1)) (Faults clean) := by
  have hread : lsaRead heap (old.toList ++ new.toList) = .ok () := by
    refine lsaRead_ok h fun p hp => Multiset.mem_add.mpr (Or.inr (Multiset.mem_add.mpr ?_))
    rcases List.mem_append.mp hp with hp | hp
    · exact Or.inl (ho.old p (Option.mem_toList.mp hp)).1
    · exact Or.inr (ho.new p (Option.mem_toList.mp hp)).2
  have hchange := @forwardRef_change clean heap loc id (old.filter (adj.accepted c))
    (new.filter (adj.accepted c)) (↑adj.lsas + R) hi
    (fun p hp => hp.elim (fun hp => hids p (Option.filter_eq_some_iff.mp hp).1)
      fun hp => hup.ids p (Option.filter_eq_some_iff.mp hp).1)
    (fun p hp => (ho.old p (Option.filter_eq_some_iff.mp hp).1).2
      (Option.filter_eq_some_iff.mp hp).2)
    (fun p hp => by
      obtain ⟨hn, hacc⟩ := Option.filter_eq_some_iff.mp hp
      exact ⟨(ho.new p hn).1, pathOk_of_accepted hacc,
        Multiset.mem_add.mpr (Or.inr (ho.new p hn).2)⟩) h RIB_COST_UNREACHABLE RIB_COST_UNREACHABLE
  unfold notifyRef
  rw [hread, ok_bind, liftCrash_ok hrun, ok_bind, hup.events]
  exact hchange.bind fun r hr => Ends.ok ⟨rfl, hr⟩

/-- **`adj_rib_in_del_lsa`** gives the reference to the LSA back. -/
theorem adjRibInDelLsaRef_spec (hi : loc.Inv) (ha : adj.Inv c) (hm : ref ∈ adj.lsas)
    (hp : adj.accepted c ref = true → loc.Present ref)
    (h : RefCounted clean heap (loc.refs + (↑adj.lsas + R))) :
    Ends (adjRibInDelLsaRef c heap loc adj ref) (fun r =>
      (∃ es, adjRibInDelLsa c adj ref = .ok (r.2.2, es)) ∧
        Forwarded c clean loc adj ref.lsa.id (some ref) none R r) (Faults clean) := by
  obtain ⟨adj', es, hrun, hup⟩ := delLsa_spec ha hm
  obtain ⟨⟨rib₁, es₁⟩, hnotify, heq⟩ := bind_eq_ok.mp hrun
  obtain ⟨rfl, rfl⟩ := Prod.mk.inj (Except.ok.inj heq)
  have ho : Offered c loc adj (some ref) none R :=
    ⟨fun p e => Option.some.inj e ▸ ⟨hm, hp⟩, by simp⟩
  unfold adjRibInDelLsaRef
  refine (notifyRef_spec hi ho hup (fun p e => Option.some.inj e ▸ rfl) hnotify h).bind ?_
  rintro ⟨heap₁, loc₁, rib⟩ ⟨rfl, hex⟩
  obtain ⟨rest, hold, hnew⟩ := hup.perm
  have hlsas : (adj.lsas : Multiset LsaPtr) =
      refsOf (some ref) + ↑(Avl.delete compareRefs ref rib.lsas) :=
    Multiset.coe_eq_coe.mpr (hold.trans (hnew.symm.cons ref))
  have hcounted := hex.counted
  have hswap : loc₁.refs + (refsOf (some ref) + ↑(Avl.delete compareRefs ref rib.lsas) + R) =
      refsOf (some ref) + (loc₁.refs + (↑(Avl.delete compareRefs ref rib.lsas) + R)) := by abel
  rw [hlsas] at hcounted
  dsimp only at hcounted
  rw [hswap] at hcounted
  refine (lsaPutRef_spec hcounted).bind fun heap₂ hput => Ends.ok ⟨⟨_, hrun⟩, ⟨_, hup⟩, ?_⟩
  exact ⟨hex.exchanges, hex.path, hput⟩

/-- What `adj_rib_in_add_lsa` comes to: nothing changes, or the entry of the id does. -/
def Added (c : Crypto) (clean : Prop) (heap : LsaHeap) (loc : LocRib) (adj : AdjRibIn)
    (lsa : LsaPtr) (R : Multiset LsaPtr) (r : LsaHeap × LocRib × AdjRibIn) : Prop :=
  r = (heap, loc, adj) ∨ ∃ old new, (∀ p, new = some p → p = lsa) ∧
    Forwarded c clean loc adj lsa.lsa.id old new R r

/-- An LSA that is stored takes a reference, after the one that it replaces gave its back. -/
theorem stored_spec {es : List RibEvent} {rib₁ : AdjRibIn} (hi : loc.Inv)
    (hpres : ∀ p ∈ adj.lsas, adj.accepted c p = true → loc.Present p) (hf : loc.Fresh lsa)
    (hlsa : lsa ∈ R) (h : RefCounted clean heap (loc.refs + (↑adj.lsas + R))) {old : Option LsaPtr}
    (hold : ∀ p, old = some p → p ∈ adj.lsas ∧ p.lsa.id = lsa.lsa.id)
    (hrun : notify c adj old (some lsa) = .ok (rib₁, es)) (store : AdjRibIn → List LsaPtr)
    (hup : AdjUpdates c adj { rib₁ with lsas := store rib₁ } lsa.lsa.id old (some lsa) es) :
    Ends (do
      let (heap, loc, rib) ← notifyRef c heap loc adj old (some lsa)
      let heap ← lsaPutRef heap old
      let heap ← lsaGetRef heap (some lsa)
      return (heap, loc, { rib with lsas := store rib }))
      (fun r => r.2.2 = { rib₁ with lsas := store rib₁ } ∧
        Forwarded c clean loc adj lsa.lsa.id old (some lsa) R r) (Faults clean) := by
  have ho : Offered c loc adj old (some lsa) R :=
    ⟨fun p e => ⟨(hold p e).1, hpres p (hold p e).1⟩, fun p e => Option.some.inj e ▸ ⟨hf, hlsa⟩⟩
  refine (notifyRef_spec hi ho hup (fun p e => (hold p e).2) hrun h).bind ?_
  rintro ⟨heap₁, loc₁, rib⟩ ⟨rfl, hex⟩
  obtain ⟨rest, hrest, hrest'⟩ := hup.perm
  have hcounted := hex.counted
  have hswap : loc₁.refs + (↑adj.lsas + R) = refsOf old + (loc₁.refs + (↑rest + R)) := by
    rw [Multiset.coe_eq_coe.mpr hrest, ← Multiset.coe_add]
    change _ + (refsOf old + _ + _) = _
    abel
  dsimp only at hcounted
  rw [hswap] at hcounted
  refine (lsaPutRef_spec hcounted).bind fun heap₂ hput => ?_
  obtain ⟨heap₃, hget, hcounted⟩ := lsaGetRef_ok (o := some lsa) hput fun p e =>
    Option.some.inj e ▸ Multiset.mem_add.mpr (Or.inr (Multiset.mem_add.mpr (Or.inr hlsa)))
  rw [hget]
  refine Ends.ok ⟨rfl, ⟨es, hup⟩, hex.exchanges, hex.path, ?_⟩
  have hswap' : refsOf (some lsa) + (loc₁.refs + (↑rest + R)) =
      loc₁.refs + (↑(store rib) + R) := by
    rw [Multiset.coe_eq_coe.mpr hrest', ← Multiset.coe_add]
    change _ = _ + (refsOf (some lsa) + _ + _)
    abel
  rwa [hswap'] at hcounted

/-- **`adj_rib_in_add_lsa`** keeps the count. -/
theorem adjRibInAddLsaRef_spec (hi : loc.Inv) (ha : adj.Inv c) (hw : Wellformed lsa.lsa)
    (hpres : ∀ p ∈ adj.lsas, adj.accepted c p = true → loc.Present p) (hf : loc.Fresh lsa)
    (hlsa : lsa ∈ R) (h : RefCounted clean heap (loc.refs + (↑adj.lsas + R))) :
    Ends (adjRibInAddLsaRef c heap loc adj lsa) (fun r =>
      (∃ ret es, adjRibInAddLsa c adj lsa = .ok (ret, r.2.2, es)) ∧
        Added c clean heap loc adj lsa R r) (Faults clean) := by
  have hread : lsaRead heap (lsa :: adj.lsas) = .ok () := by
    refine lsaRead_ok h fun p hp => Multiset.mem_add.mpr (Or.inr (Multiset.mem_add.mpr ?_))
    rcases List.mem_cons.mp hp with rfl | hp
    · exact Or.inr hlsa
    · exact Or.inl hp
  -- the entry of the id goes away
  have hremove : ∀ {ref : LsaPtr}, adjRibInFindRef adj lsa.lsa.id = some ref →
      Ends (adjRibInDelLsaRef c heap loc adj ref) (fun r =>
        (∃ es, adjRibInDelLsa c adj ref = .ok (r.2.2, es)) ∧ Added c clean heap loc adj lsa R r)
        (Faults clean) := by
    intro ref hfind
    obtain ⟨hm, hid⟩ := (findRef_eq_some ha.sorted).mp hfind
    refine (adjRibInDelLsaRef_spec hi ha hm (hpres ref hm) h).mono ?_
    rintro r ⟨⟨es, hrun⟩, hforw⟩
    exact ⟨⟨es, hrun⟩, Or.inr ⟨some ref, none, by simp, hid ▸ hforw⟩⟩
  unfold adjRibInAddLsaRef adjRibInAddLsa
  rw [hread, ok_bind]
  by_cases hroot : lsa.lsa.root = []
  · simp only [List.isEmpty_iff.mpr hroot, if_true]
    cases hfind : adjRibInFindRef adj lsa.lsa.id with
    | none => exact Ends.ok ⟨⟨-1, [], rfl⟩, Or.inl rfl⟩
    | some ref =>
      refine (hremove hfind).mono ?_
      rintro r ⟨⟨es, hrun⟩, hadded⟩
      exact ⟨⟨0, es, by simp only [hrun, ok_bind]; rfl⟩, hadded⟩
  · simp only [Bool.eq_false_iff.mpr (mt List.isEmpty_iff.mp hroot), Bool.false_eq_true, if_false]
    by_cases hover : adj.overflows lsa.lsa
    · simp only [if_pos hover, remoteid_of_overflows ha hw hover, Bool.false_eq_true, if_false]
      cases hfind : adjRibInFindRef adj lsa.lsa.id with
      | none => exact Ends.ok ⟨⟨-1, [], rfl⟩, Or.inl rfl⟩
      | some ref =>
        refine (hremove hfind).mono ?_
        rintro r ⟨⟨es, hrun⟩, hadded⟩
        exact ⟨⟨-1, es, by simp only [hrun, ok_bind]; rfl⟩, hadded⟩
    · simp only [if_neg hover]
      have hfit := fits_of_not_overflows ha hw hover
      have hbytes : bytesOf (some lsa).toList = lsa.lsa.bytes := by simp [bytesOf]
      cases hfind : adjRibInFindRef adj lsa.lsa.id with
      | none =>
        obtain ⟨lsas, hins⟩ := Avl.exists_insert (x := lsa) compareRefs_orders ha.sorted
          ((findRef_eq_none ha.sorted).mp hfind)
        obtain ⟨size, es, hrun, hup⟩ := notify_spec (some lsa) ha hfind
          (Avl.sorted_insert compareRefs_orders ha.sorted hins)
          (fun p e => Option.some.inj e ▸ hw) (fun p e => Option.some.inj e ▸ rfl)
          ⟨adj.lsas, List.Perm.refl _, Avl.insert_perm hins⟩ (Or.inl (by rw [hbytes]; exact hfit))
        have hstored := stored_spec hi hpres hf hlsa h (by simp) hrun
          (fun rib => (Avl.insert compareRefs lsa rib.lsas).getD rib.lsas)
          (by simpa only [hins, Option.getD_some] using hup)
        refine Ends.mono (show Ends _ _ _ from hstored) ?_
        rintro r ⟨hr, hforw⟩
        refine ⟨⟨0, es, ?_⟩, Or.inr ⟨none, some lsa, fun p e => (Option.some.inj e).symm, hforw⟩⟩
        simp only [hrun, ok_bind, hr]
        rfl
      | some ref =>
        obtain ⟨hm, hid⟩ := (findRef_eq_some ha.sorted).mp hfind
        obtain ⟨n, hn⟩ := lsaDiff_isOk (ha.wellformed ref hm).comparable hw.comparable
        dsimp only
        rw [liftCrash_ok hn, hn, ok_bind, ok_bind]
        by_cases h0 : n = 0
        · rw [if_neg (not_not.mpr h0), if_neg (not_not.mpr h0)]
          exact Ends.ok ⟨⟨0, [], rfl⟩, Or.inl rfl⟩
        · rw [if_pos h0, if_pos h0]
          obtain ⟨hs, hp⟩ := replace_spec ha hm hid
          obtain ⟨size, es, hrun, hup⟩ := notify_spec (some lsa) ha hfind hs
            (fun p e => Option.some.inj e ▸ hw) (fun p e => Option.some.inj e ▸ rfl) hp
            (Or.inl (by rw [hbytes]; exact hfit))
          have hstored := stored_spec hi hpres hf hlsa h
            (fun p e => Option.some.inj e ▸ ⟨hm, hid⟩) hrun
            (fun rib => rib.lsas.map fun p => if p.lsa.id = ref.lsa.id then lsa else p) hup
          refine hstored.mono ?_
          rintro r ⟨hr, hforw⟩
          refine ⟨⟨0, es, ?_⟩, Or.inr ⟨some ref, some lsa, fun p e => (Option.some.inj e).symm,
            hforw⟩⟩
          simp only [hrun, ok_bind, hr]
          rfl

end Peer

/-! ## Recomputation and the end -/

section Recompute

variable {R : Multiset LsaPtr}

/-- The best LSAs of a row of entries. -/
def bestRefs (ids : List LocRibId) : Multiset LsaPtr := ids.flatMap fun rid => rid.best.toList

theorem bestRefs_cons (rid : LocRibId) (ids : List LocRibId) :
    bestRefs (rid :: ids) = refsOf rid.best + bestRefs ids := rfl

/-- A local RIB refers to the LSAs of its trees and to the best ones. -/
theorem locRefs_trees (rib : LocRib) : rib.refs = ↑rib.trees + bestRefs rib.ids := by
  unfold LocRib.refs LocRib.trees bestRefs
  rw [Multiset.coe_add, Multiset.coe_eq_coe]
  exact (List.flatMap_append_perm rib.ids LocRibId.ptrs fun rid => rid.best.toList).symm

/-- **`recompute_rid`** takes a reference to the new best LSA and gives that to the old one back,
while the trees keep theirs. -/
theorem recomputeRidRef_spec (hp : ∀ p ∈ rid.ptrs, PathOk p.lsa)
    (hptrs : ∀ p ∈ rid.ptrs, p ∈ R) (htrees : ∀ p ∈ rib.trees, p ∈ R)
    (h : RefCounted clean heap (refsOf rid.best + R)) :
    Ends (recomputeRidRef heap rib rid) (fun r => recomputeRid rib rid = .ok r.2 ∧
      r.2.1.ptrs = rid.ptrs ∧ RefCounted clean r.1 (refsOf r.2.1.best + R)) (Faults clean) := by
  have hread : lsaRead heap (rid.ptrs ++ rib.trees) = .ok () := lsaRead_ok h fun p hm =>
    Multiset.mem_add.mpr (Or.inr ((List.mem_append.mp hm).elim (hptrs p) (htrees p)))
  obtain ⟨⟨lsas, best, bestcost⟩, hsel⟩ := @selectBest_isOk none rid.lsas rib rid
    RIB_COST_INELIGIBLE (fun ref hm => hp ref.lsa (List.mem_map_of_mem hm)) (by simp)
  have hpicked := selectBest_picked rid.ptrs
    (fun ref hm => List.mem_map_of_mem hm) (Or.inl ⟨rfl, rfl⟩) hsel
  have hbest : ∀ p, best = some p → p ∈ R := by
    rintro p rfl
    rcases hpicked.1 with ⟨hnone, _⟩ | ⟨q, hq, hb, _⟩
    · exact nomatch hnone
    · exact Option.some.inj hb ▸ hptrs q hq
  unfold recomputeRidRef recomputeRid
  rw [hread, ok_bind, liftCrash_ok hsel, hsel, ok_bind, ok_bind]
  dsimp only
  split_ifs with hsame
  · exact Ends.ok ⟨rfl, hpicked.2, h⟩
  · obtain ⟨heap₁, hget, hcounted⟩ := lsaGetRef_ok h fun p e =>
      Multiset.mem_add.mpr (Or.inr (hbest p e))
    have hswap : refsOf best + (refsOf rid.best + R) = refsOf rid.best + (refsOf best + R) := by
      abel
    rw [hswap] at hcounted
    have hlook : lsaRead heap₁ (rid.best.toList ++ best.toList) = .ok () := by
      refine lsaRead_ok hcounted fun p hm => ?_
      rcases List.mem_append.mp hm with hm | hm
      · exact Multiset.mem_add.mpr (Or.inl hm)
      · exact Multiset.mem_add.mpr (Or.inr (Multiset.mem_add.mpr (Or.inl hm)))
    rw [hget, ok_bind, hlook, ok_bind]
    exact (lsaPutRef_spec hcounted).bind fun heap₂ hput => Ends.ok ⟨rfl, hpicked.2, hput⟩

theorem recomputeIdsRef_spec {ids : List LocRibId}
    (hp : ∀ rid ∈ ids, ∀ p ∈ rid.ptrs, PathOk p.lsa) (hptrs : ∀ rid ∈ ids, ∀ p ∈ rid.ptrs, p ∈ R)
    (htrees : ∀ p ∈ rib.trees, p ∈ R) (h : RefCounted clean heap (bestRefs ids + R)) :
    Ends (recomputeIdsRef heap rib ids) (fun r => recomputeIds rib ids = .ok r.2 ∧
      r.2.1.flatMap LocRibId.ptrs = ids.flatMap LocRibId.ptrs ∧
        RefCounted clean r.1 (bestRefs r.2.1 + R)) (Faults clean) := by
  induction ids generalizing heap R with
  | nil => exact Ends.ok ⟨rfl, rfl, h⟩
  | cons rid ids ih =>
    rw [bestRefs_cons, add_assoc] at h
    unfold recomputeIdsRef recomputeIds
    refine (recomputeRidRef_spec (hp rid List.mem_cons_self)
      (fun p hm => Multiset.mem_add.mpr (Or.inr (hptrs rid List.mem_cons_self p hm)))
      (fun p hm => Multiset.mem_add.mpr (Or.inr (htrees p hm))) h).bind ?_
    rintro ⟨heap₁, rid', es⟩ ⟨hrid, hsame, hcounted⟩
    rw [show refsOf rid'.best + (bestRefs ids + R) = bestRefs ids + (refsOf rid'.best + R) by abel]
      at hcounted
    refine (ih (fun r hm => hp r (List.mem_cons_of_mem rid hm))
      (fun r hm p hpm =>
        Multiset.mem_add.mpr (Or.inr (hptrs r (List.mem_cons_of_mem rid hm) p hpm)))
      (fun p hm => Multiset.mem_add.mpr (Or.inr (htrees p hm))) hcounted).bind ?_
    rintro ⟨heap₂, ids', es'⟩ ⟨hids, hrest, hcounted⟩
    refine Ends.ok ⟨?_, ?_, ?_⟩
    · rw [hrid, ok_bind]
      dsimp only
      rw [hids, ok_bind]
      rfl
    · rw [List.flatMap_cons, List.flatMap_cons, hsame, hrest]
    · rw [bestRefs_cons, show refsOf rid'.best + bestRefs ids' + R =
        bestRefs ids' + (refsOf rid'.best + R) by abel]
      exact hcounted

/-- **`recompute_rib`** keeps the count. -/
theorem recomputeRibRef_spec (hp : ∀ rid ∈ rib.ids, ∀ p ∈ rid.ptrs, PathOk p.lsa)
    (h : RefCounted clean heap (rib.refs + R)) :
    Ends (recomputeRibRef heap rib) (fun r => recomputeRib rib = .ok r.2 ∧
      RefCounted clean r.1 (r.2.1.refs + R)) (Faults clean) := by
  rw [locRefs_trees, show ↑rib.trees + bestRefs rib.ids + R =
    bestRefs rib.ids + (↑rib.trees + R) by abel] at h
  have htrees : ∀ p ∈ rib.trees, p ∈ (↑rib.trees + R : Multiset LsaPtr) := fun p hm =>
    Multiset.mem_add.mpr (Or.inl hm)
  unfold recomputeRibRef recomputeRib
  refine (recomputeIdsRef_spec hp
    (fun rid hm p hpm => htrees p (List.mem_flatMap.mpr ⟨rid, hm, hpm⟩)) htrees h).bind ?_
  rintro ⟨heap', ids, es⟩ ⟨hrun, hsame, hcounted⟩
  refine Ends.ok ⟨by rw [hrun]; rfl, ?_⟩
  rw [locRefs_trees, LocRib.trees]
  dsimp only at hsame ⊢
  rw [hsame, show ↑(rib.ids.flatMap LocRibId.ptrs) + bestRefs ids + R =
    bestRefs ids + (↑rib.trees + R) by rw [LocRib.trees]; abel]
  exact hcounted

end Recompute

end Dvpn
