import Dvpn.Daemon.Advertise
import Dvpn.Rib.ReferencesSpec

/-!
# Runs with counted LSAs

`refStep` is run from the start of `dvpn` with whatever addresses malloc returns, as long as they
are free (`RefContract`). An owner is a peer's RIB or `me`; `Shared.Inv` says that no two owners
share an LSA, that the local RIB holds what the owners offer, and that the heap counts the
references of all holders, beside those in hand.

* `Shared.Inv.exchange`: an owner exchanges an LSA, and the local RIB follows. The RIB of a peer
  (`Shared.Inv.forward`) and `me` (`Shared.Inv.newMe`) are the two kinds of owners.
* `refStep_spec`: a step keeps the invariant, or the release of an object faults.
* `lsas_counted`: so it is in runs, and nothing is left at the end.
* `lsas_distinguished`: the contracts of the RIBs, which ask for fresh objects, are met.
-/

namespace Dvpn

/-! ## The contract -/

/-- `me`, as `meInit` makes it and `mylsa_add_peer` and `mylsa_del_peer` change it. -/
def IsMe (keyid : NodeId) (me : Lsa) : Prop :=
  ∃ fixed v P, .plain LSA_ATTR_TYPE_ADV_PATH false [] [] ∈ fixed ∧
    MeAt keyid fixed { me with refcount := 1 } v P

variable {n : Nat}

/-- What malloc and the callers guarantee: a new object gets a free place, a received LSA was made
by `lsa_deserialise`, and the new `me` from the old one. -/
def RefContract (keyid : NodeId) (s : Shared n) : RefOp n → Prop
  | .begin addr me => s.heap addr = none ∧ s.me = none ∧ IsMe keyid me
  | .renew addr newme => s.heap addr = none ∧ ∃ me sign op es, s.me = some me ∧
    (∀ data, ∃ sig, sign data = some sig ∧ sig.length ≤ SSIZE_MAX) ∧
    MeContract { me.lsa with refcount := 1 } op ∧
    meStep sign { me.lsa with refcount := 1 } op = .ok ({ newme with refcount := 1 }, es)
  | .receive _ addr lsa => s.heap addr = none ∧ Received lsa
  | .truncate i roots => roots.Perm (s.adj i).lsas
  | .recompute => True
  | .dump => True

/-- No set of the LSA that is received is empty. -/
def RefOp.Clean : RefOp n → Prop
  | .receive _ _ lsa => NoEmptySet lsa.root
  | _ => True

/-! ## LSAs -/

section Lsas

variable {keyid : NodeId} {lsa me newme : Lsa}

/-- A received LSA can be released iff none of its sets is empty. -/
theorem Received.releasable_iff (h : Received lsa) : Releasable lsa ↔ NoEmptySet lsa.root := by
  have hwire := h.wellformed.wire
  have hfit := attrsFit_of_wire
    (show (attrsWire lsa.root).length + 256 ≤ SIZE_MAX by unfold SIZE_MAX; omega)
  exact (lsaPut_isOk rfl).trans (attrTreeFree_isOk hfit _)

theorem IsMe.id (h : IsMe keyid me) : me.id = keyid := by
  obtain ⟨fixed, v, P, -, hat⟩ := h
  obtain ⟨sig, -, ha⟩ := hat.attrs
  exact ha.id

/-- The path of the own LSA is empty. -/
theorem IsMe.advPath (h : IsMe keyid me) :
    me.advPath = some (.plain LSA_ATTR_TYPE_ADV_PATH false [] []) := by
  obtain ⟨fixed, v, P, hpath, hat⟩ := h
  obtain ⟨sig, -, ha⟩ := hat.attrs
  have hmem : .plain LSA_ATTR_TYPE_ADV_PATH false [] [] ∈ meAttrs fixed v sig P :=
    List.mem_cons_of_mem _ (List.mem_cons_of_mem _ (List.mem_append_left _ hpath))
  exact ha.find hmem (Nat.zero_le _)

theorem IsMe.pathOk (h : IsMe keyid me) : PathOk me := ⟨_, h.advPath, rfl⟩

theorem IsMe.releasable (h : IsMe keyid me) : Releasable me := by
  obtain ⟨fixed, v, P, -, hat⟩ := h
  obtain ⟨sig, hsig, ha⟩ := hat.attrs
  exact ha.put (handled_meAttrs hat.fixed hsig)

theorem IsMe.renew (h : IsMe keyid me) {sign : Bytes → Option Bytes} {op : MeOp}
    {es : List MeChange} (hsign : ∀ data, ∃ sig, sign data = some sig ∧ sig.length ≤ SSIZE_MAX)
    (hc : MeContract { me with refcount := 1 } op)
    (hstep : meStep sign { me with refcount := 1 } op = .ok ({ newme with refcount := 1 }, es)) :
    IsMe keyid newme := by
  obtain ⟨fixed, v, P, hpath, hat⟩ := h
  cases op with
  | addPeer time id type cost =>
    obtain ⟨newme', hadd, heq⟩ := bind_eq_ok.mp hstep
    obtain ⟨rfl, -⟩ := Prod.mk.inj (Except.ok.inj heq)
    obtain ⟨flags, -, h'⟩ := mylsaAddPeer_at hsign hat (hat.notMem hc.1) hadd
    exact ⟨fixed, _, _, hpath, h'⟩
  | delPeer time id =>
    obtain ⟨newme', hdel, heq⟩ := bind_eq_ok.mp hstep
    obtain ⟨rfl, -⟩ := Prod.mk.inj (Except.ok.inj heq)
    obtain ⟨newme', P', hok, h', -⟩ := mylsaDelPeer_at time hsign hat hc
    obtain rfl := Except.ok.inj (hdel.symm.trans hok)
    exact ⟨fixed, _, P', hpath, h'⟩

end Lsas

/-! ## The invariant -/

/-- The LSAs that the peers' RIBs hold, and `me`. -/
def Shared.owned (s : Shared n) : Option (Fin n) → List LsaPtr
  | none => s.me.toList
  | some i => (s.adj i).lsas

/-- Whether an owner puts an LSA into the local RIB. -/
def Shared.offers (c : Crypto) (s : Shared n) : Option (Fin n) → LsaPtr → Bool
  | none => fun _ => true
  | some i => (s.adj i).accepted c

/-- The references of all holders. -/
def Shared.refs (s : Shared n) : Multiset LsaPtr := s.loc.refs + ∑ o, (s.owned o : Multiset LsaPtr)

/-- The references of the other owners. -/
def Shared.others (s : Shared n) (o : Option (Fin n)) : Multiset LsaPtr :=
  ∑ o' ∈ Finset.univ.erase o, (s.owned o' : Multiset LsaPtr)

/-- What holds of the whole; `temp` are references that a function has in hand. -/
structure Shared.Inv (c : Crypto) (clean : Prop) (keyid : NodeId) (s : Shared n)
    (temp : Multiset LsaPtr) : Prop where
  loc : s.loc.Inv
  adj : ∀ i, (s.adj i).Inv c
  me : ∀ p, s.me = some p → IsMe keyid p.lsa
  addr : ∀ o o', ∀ p ∈ s.owned o, ∀ q ∈ s.owned o', p.addr = q.addr → o = o'
  holds : ∀ p, p ∈ (s.loc.entry p.lsa.id).ptrs ↔ ∃ o, p ∈ s.owned o ∧ s.offers c o p = true
  counted : RefCounted clean s.heap (s.refs + temp)

variable {c : Crypto} {clean : Prop} {keyid id : NodeId} {s s' : Shared n}
  {temp temp' : Multiset LsaPtr} {o : Option (Fin n)} {i : Fin n} {old new : Option LsaPtr}
  {p q : LsaPtr}

theorem refs_eq (s : Shared n) (o : Option (Fin n)) :
    s.refs = s.loc.refs + (↑(s.owned o) + s.others o) := by
  unfold Shared.refs Shared.others
  rw [Finset.add_sum_erase _ (fun o => (s.owned o : Multiset LsaPtr)) (Finset.mem_univ o)]

theorem mem_refs_of_owned (hp : p ∈ s.owned o) : p ∈ s.refs := by
  rw [refs_eq s o]
  exact Multiset.mem_add.mpr (Or.inr (Multiset.mem_add.mpr (Or.inl hp)))

theorem others_congr (h : ∀ o', o' ≠ o → s'.owned o' = s.owned o') : s'.others o = s.others o :=
  Finset.sum_congr rfl fun o' ho' => by rw [h o' (Finset.ne_of_mem_erase ho')]

/-- What an owner offers is in the local RIB. -/
theorem Shared.Inv.present (hs : s.Inv c clean keyid temp) (hp : p ∈ s.owned o)
    (hoff : s.offers c o p = true) : s.loc.Present p :=
  (present_iff hs.loc).mpr ((hs.holds p).mpr ⟨o, hp, hoff⟩)

/-- A free place is not that of any LSA that is held. -/
theorem Shared.Inv.fresh (hs : s.Inv c clean keyid temp) {a : Nat} (h : s.heap a = none) :
    ∀ q ∈ s.refs, q.addr ≠ a := fun q hq =>
  hs.counted.counts.fresh.mp h q (Multiset.mem_add.mpr (Or.inl hq))

theorem locFresh_of_refs (h : ∀ q ∈ s.refs, q.addr ≠ p.addr) : s.loc.Fresh p := fun rid hm q hq =>
  h q (Multiset.mem_add.mpr (Or.inl (mem_locRefs.mpr ⟨rid, hm, hq⟩)))

/-- **The exchange of an LSA** of one owner, which the local RIB follows, keeps the invariant. -/
theorem Shared.Inv.exchange (hs : s.Inv c clean keyid temp) (o : Option (Fin n))
    (hex : Exchanges s.loc s'.loc id (old.filter (s.offers c o)) (new.filter (s.offers c o)))
    (hold : ∀ p, old = some p → p ∈ s.owned o)
    (hmem : ∀ p, p ∈ s'.owned o ↔ new = some p ∨ p ∈ s.owned o ∧ old ≠ some p)
    (hother : ∀ o', o' ≠ o → s'.owned o' = s.owned o')
    (hoffers : ∀ o', s'.offers c o' = s.offers c o')
    (hfresh : ∀ p, new = some p → ∀ q ∈ s.refs, q.addr ≠ p.addr)
    (hadj : ∀ i, (s'.adj i).Inv c) (hme : ∀ p, s'.me = some p → IsMe keyid p.lsa)
    (hcounted : RefCounted clean s'.heap (s'.loc.refs + (↑(s'.owned o) + (s.others o + temp')))) :
    s'.Inv c clean keyid temp' := by
  -- what an owner has now is what it had before, or the new LSA
  have hfrom : ∀ {o' p}, p ∈ s'.owned o' → p ∈ s.owned o' ∨ o' = o ∧ new = some p := by
    intro o' p hp
    by_cases ho : o' = o
    · subst ho
      exact ((hmem p).mp hp).elim (fun h => Or.inr ⟨rfl, h⟩) fun h => Or.inl h.1
    · exact Or.inl (hother o' ho ▸ hp)
  refine ⟨hex.inv, hadj, hme, fun o₁ o₂ p hp q hq e => ?_, fun p => ?_, ?_⟩
  · rcases hfrom hp with hp | ⟨rfl, hp⟩
    · rcases hfrom hq with hq | ⟨rfl, hq⟩
      · exact hs.addr o₁ o₂ p hp q hq e
      · exact absurd e (hfresh q hq p (mem_refs_of_owned hp))
    · rcases hfrom hq with hq | ⟨rfl, _⟩
      · exact absurd e.symm (hfresh p hp q (mem_refs_of_owned hq))
      · rfl
  · rw [hex.mem hs.loc, hs.holds p]
    constructor
    · rintro (hn | ⟨⟨o', hp, hoff⟩, hne⟩)
      · obtain ⟨hn, hoff⟩ := Option.filter_eq_some_iff.mp hn
        exact ⟨o, (hmem p).mpr (Or.inl hn), (hoffers o).symm ▸ hoff⟩
      · refine ⟨o', ?_, (hoffers o').symm ▸ hoff⟩
        by_cases ho : o' = o
        · subst ho
          exact (hmem p).mpr (Or.inr ⟨hp, fun e => hne (Option.filter_eq_some_iff.mpr ⟨e, hoff⟩)⟩)
        · exact hother o' ho ▸ hp
    · rintro ⟨o', hp, hoff⟩
      rw [hoffers] at hoff
      by_cases ho : o' = o
      · subst ho
        rcases (hmem p).mp hp with hn | ⟨hp, hne⟩
        · exact Or.inl (Option.filter_eq_some_iff.mpr ⟨hn, hoff⟩)
        · exact Or.inr ⟨⟨o', hp, hoff⟩, fun e => hne (Option.filter_eq_some_iff.mp e).1⟩
      · rw [hother o' ho] at hp
        refine Or.inr ⟨⟨o', hp, hoff⟩, fun e => ho ?_⟩
        exact hs.addr o' o p hp p (hold p (Option.filter_eq_some_iff.mp e).1) rfl
  · rw [refs_eq s' o, others_congr hother, add_assoc, add_assoc]
    exact hcounted

/-! ## One step -/

/-- A peer's RIB gets from `rib` to `rib'` by calls within its contract. -/
def AdjPath (c : Crypto) (rib rib' : AdjRibIn) : Prop :=
  ∃ ops es, Run (adjStep c) AdjContract rib ops rib' es

theorem AdjPath.refl (c : Crypto) (rib : AdjRibIn) : AdjPath c rib rib := ⟨[], [], .nil⟩

theorem AdjPath.one {rib rib' : AdjRibIn} {es : List RibEvent} (op : AdjOp)
    (hc : AdjContract rib op) (h : adjStep c rib op = .ok (rib', es)) : AdjPath c rib rib' :=
  ⟨[op], [] ++ es, .snoc .nil hc h⟩

/-- A step that succeeds: the invariant holds, and the RIBs went on within their contracts. -/
structure RefGoesOn (c : Crypto) (clean : Prop) (keyid : NodeId) (s : Shared n)
    (r : Shared n × List RibEvent) : Prop where
  inv : r.1.Inv c clean keyid 0
  loc : LocPath s.loc r.1.loc r.2
  adj : ∀ i, AdjPath c (s.adj i) (r.1.adj i)

/-- An update keeps the LSAs of the other ids. -/
theorem AdjUpdates.mem_iff {rib rib' : AdjRibIn} {es : List RibEvent}
    (h : AdjUpdates c rib rib' id old new es) (hi : rib.Inv c) :
    p ∈ rib'.lsas ↔ new = some p ∨ p ∈ rib.lsas ∧ old ≠ some p := by
  rw [h.mem hi]
  refine or_congr_right (and_congr_right fun hp => not_congr ?_)
  rw [← h.find, findRef_eq_some hi.sorted]
  exact ⟨fun hid => ⟨hp, hid⟩, fun hid => hid.2⟩

/-- The state after a change of one peer's RIB. -/
abbrev Shared.withPeer (s : Shared n) (i : Fin n) (r : LsaHeap × LocRib × AdjRibIn) : Shared n :=
  { s with heap := r.1, loc := r.2.1, adj := Function.update s.adj i r.2.2 }

theorem owned_withPeer_self (s : Shared n) (i : Fin n) (r : LsaHeap × LocRib × AdjRibIn) :
    (s.withPeer i r).owned (some i) = r.2.2.lsas := by
  unfold Shared.owned
  exact congrArg AdjRibIn.lsas (Function.update_self i r.2.2 s.adj)

theorem owned_withPeer_of_ne {r : LsaHeap × LocRib × AdjRibIn} (ho : o ≠ some i) :
    (s.withPeer i r).owned o = s.owned o := by
  cases o with
  | none => rfl
  | some j =>
    have hj : j ≠ i := fun e => ho (congrArg some e)
    unfold Shared.owned
    exact congrArg AdjRibIn.lsas (Function.update_of_ne hj r.2.2 s.adj)

/-- **A change of one peer's RIB** that the local RIB follows keeps the invariant. -/
theorem Shared.Inv.forward {r : LsaHeap × LocRib × AdjRibIn} (hs : s.Inv c clean keyid temp)
    (h : Forwarded c clean s.loc (s.adj i) id old new (s.others (some i) + temp') r)
    (hfresh : ∀ p, new = some p → ∀ q ∈ s.refs, q.addr ≠ p.addr) :
    (s.withPeer i r).Inv c clean keyid temp' := by
  obtain ⟨⟨es, hup⟩, hex⟩ := h
  have hi := hs.adj i
  refine hs.exchange (some i) hex.exchanges (fun p e => ?_) (fun p => ?_)
    (fun o' ho' => owned_withPeer_of_ne ho') (fun o' => ?_) hfresh (fun j => ?_) hs.me ?_
  · exact ((findRef_eq_some hi.sorted).mp (hup.find.trans e)).1
  · rw [owned_withPeer_self]
    exact hup.mem_iff hi
  · cases o' with
    | none => rfl
    | some j =>
      by_cases hj : j = i
      · subst hj
        unfold Shared.offers
        dsimp only
        rw [Function.update_self]
        exact hup.accepted
      · unfold Shared.offers
        dsimp only
        rw [Function.update_of_ne hj]
  · by_cases hj : j = i
    · subst hj
      dsimp only
      rw [Function.update_self]
      exact hup.inv
    · dsimp only
      rw [Function.update_of_ne hj]
      exact hs.adj j
  · rw [owned_withPeer_self]
    exact hex.counted

/-- The references, with those of one peer's RIB apart. -/
theorem Shared.Inv.counted_peer (hs : s.Inv c clean keyid temp) (i : Fin n) :
    RefCounted clean s.heap (s.loc.refs + (↑(s.adj i).lsas + (s.others (some i) + temp))) := by
  have h := hs.counted
  rw [refs_eq s (some i), add_assoc, add_assoc] at h
  exact h

/-- **A peer's RIB is emptied.** -/
theorem adjRibInTruncateRef_spec {roots : List LsaPtr} (hs : s.Inv c clean keyid temp)
    (hp : roots.Perm (s.adj i).lsas) :
    Ends (adjRibInTruncateRef c s.heap s.loc (s.adj i) roots) (fun r =>
      (s.withPeer i r).Inv c clean keyid temp ∧ LocPath s.loc r.2.1 [] ∧
        ∃ es, adjRibInTruncate c (s.adj i) roots = .ok (r.2.2, es)) (Faults clean) := by
  induction roots generalizing s with
  | nil =>
    refine Ends.ok ⟨?_, .refl s.loc, [], rfl⟩
    unfold Shared.withPeer
    rwa [Function.update_eq_self]
  | cons root roots ih =>
    have hm : root ∈ (s.adj i).lsas := hp.mem_iff.mp List.mem_cons_self
    have hi := hs.adj i
    unfold adjRibInTruncateRef adjRibInTruncate
    refine (adjRibInDelLsaRef_spec hs.loc hi hm (fun hacc => hs.present (o := some i) hm hacc)
      (hs.counted_peer i)).bind ?_
    rintro r ⟨⟨es, hdel⟩, hforw⟩
    have hinv := hs.forward hforw (by simp)
    obtain ⟨es', hup⟩ := hforw.updates
    -- the roots that are left are the LSAs that are left
    have hrest : roots.Perm ((s.withPeer i r).adj i).lsas := by
      obtain ⟨rest, hold, hnew⟩ := hup.perm
      have hrib : (s.withPeer i r).adj i = r.2.2 := Function.update_self i r.2.2 s.adj
      rw [hrib]
      exact (hp.trans hold).cons_inv.trans hnew.symm
    have hih := ih hinv hrest
    have hrib : (s.withPeer i r).adj i = r.2.2 := Function.update_self i r.2.2 s.adj
    rw [hrib] at hih
    refine hih.mono ?_
    rintro r' ⟨hinv', hpath, es₁, hrun⟩
    refine ⟨?_, ?_, es ++ es₁, ?_⟩
    · have htwice : (s.withPeer i r).withPeer i r' = s.withPeer i r' := by
        unfold Shared.withPeer
        dsimp only
        rw [Function.update_idem]
      exact htwice ▸ hinv'
    · exact hforw.exchanged.path.trans hpath
    · rw [hdel, ok_bind]
      dsimp only
      rw [hrun]
      rfl

/-- The references, with those of `me` apart. -/
theorem Shared.Inv.counted_me (hs : s.Inv c clean keyid temp) :
    RefCounted clean s.heap (s.loc.refs + (refsOf s.me + (s.others none + temp))) := by
  have h := hs.counted
  rw [refs_eq s none, add_assoc, add_assoc] at h
  exact h

/-- **A new `me`** in place of the old one, which the local RIB follows. -/
theorem Shared.Inv.newMe {heap : LsaHeap} {loc : LocRib} (hs : s.Inv c clean keyid temp)
    (hex : Exchanges s.loc loc id s.me (some p)) (hme : IsMe keyid p.lsa)
    (hfresh : ∀ q ∈ s.refs, q.addr ≠ p.addr)
    (hcounted : RefCounted clean heap (loc.refs + ({p} + s.others none))) :
    Shared.Inv c clean keyid { s with heap := heap, loc := loc, me := some p } 0 := by
  have hfilter : ∀ o : Option LsaPtr, o.filter (s.offers c none) = o := fun o => by
    cases o <;> rfl
  have hex' : Exchanges s.loc loc id (s.me.filter (s.offers c none))
      ((some p).filter (s.offers c none)) := by
    rwa [hfilter, hfilter]
  refine hs.exchange none hex' (fun q e => Option.mem_toList.mpr e) (fun q => ?_)
    (fun o' ho' => ?_) (fun o' => ?_) (fun q e => Option.some.inj e ▸ hfresh) hs.adj
    (fun q e => Option.some.inj e ▸ hme) ?_
  · change q ∈ [p] ↔ _
    rw [List.mem_singleton, Option.some.injEq, eq_comm]
    exact ⟨Or.inl, fun h => h.resolve_right fun h => h.2 (Option.mem_toList.mp h.1)⟩
  · cases o' with
    | none => exact absurd rfl ho'
    | some j => rfl
  · cases o' <;> rfl
  · rw [add_zero]
    exact hcounted

/-- **The start.** -/
theorem begin_spec (hs : s.Inv c clean keyid 0) (hfree : s.heap p.addr = none) (hnone : s.me = none)
    (hme : IsMe keyid p.lsa) :
    Ends (beginRef s p) (fun s' => s'.Inv c clean keyid 0 ∧ LocPath s.loc s'.loc [] ∧
      s'.adj = s.adj) (Faults clean) := by
  have hfresh := hs.fresh hfree
  have hcounted := hs.counted_me.alloc p hfree fun _ => hme.releasable
  rw [hnone, refsOf_none, zero_add, add_zero, ← Multiset.singleton_add,
    show {p} + (s.loc.refs + s.others none) = s.loc.refs + ({p} + s.others none) by abel]
    at hcounted
  unfold beginRef
  refine (locRibAddLsaRef_spec hs.loc (locFresh_of_refs hfresh) hme.pathOk hcounted
    (Multiset.mem_add.mpr (Or.inl (Multiset.mem_singleton_self p)))).bind ?_
  rintro ⟨heap, loc⟩ hex
  exact Ends.ok ⟨hs.newMe (hnone ▸ hex.exchanges) hme hfresh hex.counted, hex.path, rfl⟩

/-- **A change of `me`.** -/
theorem renew_spec (hs : s.Inv c clean keyid 0) (hfree : s.heap q.addr = none)
    (hold : s.me = some p) (hme : IsMe keyid q.lsa) :
    Ends (renewRef s p q) (fun s' => s'.Inv c clean keyid 0 ∧ LocPath s.loc s'.loc [] ∧
      s'.adj = s.adj) (Faults clean) := by
  have hfresh := hs.fresh hfree
  have hcounted := hs.counted_me.alloc q hfree fun _ => hme.releasable
  rw [hold, refsOf_some, add_zero, ← Multiset.singleton_add,
    show {q} + (s.loc.refs + ({p} + s.others none)) =
      s.loc.refs + ({p} + ({q} + s.others none)) by abel] at hcounted
  have hpid := (hs.me p hold).id
  unfold renewRef
  refine (locRibModLsaRef_spec hs.loc
    (hs.present (o := none) (Option.mem_toList.mpr hold) rfl) (locFresh_of_refs hfresh)
    (hme.id.trans hpid.symm) hme.pathOk hcounted
    (Multiset.mem_add.mpr (Or.inr (Multiset.mem_add.mpr
      (Or.inl (Multiset.mem_singleton_self q)))))).bind ?_
  rintro ⟨heap, loc⟩ hex
  have hput := hex.counted
  dsimp only at hput
  rw [show loc.refs + ({p} + ({q} + s.others none)) =
    refsOf (some p) + (loc.refs + ({q} + s.others none)) by rw [refsOf_some]; abel] at hput
  refine (lsaPutRef_spec hput).bind fun heap' hcounted => Ends.ok ⟨?_, hex.path, rfl⟩
  exact hs.newMe (hold ▸ hex.exchanges) hme hfresh hcounted

/-- **A message of a peer.** -/
theorem lsaReceived_spec (hs : s.Inv c clean keyid 0) (hfree : s.heap p.addr = none)
    (hreceived : Received p.lsa) (hclean : clean → NoEmptySet p.lsa.root) :
    Ends (receiveRef c s i p) (fun s' => s'.Inv c clean keyid 0 ∧ LocPath s.loc s'.loc [] ∧
      ∃ rib, s'.adj = Function.update s.adj i rib ∧ AdjPath c (s.adj i) rib ∧
        ∀ q ∈ rib.lsas, q ∈ (s.adj i).lsas ∨ q = p) (Faults clean) := by
  have hfresh := hs.fresh hfree
  have hcounted := (hs.counted_peer i).alloc p hfree fun h =>
    hreceived.releasable_iff.mpr (hclean h)
  rw [add_zero, ← Multiset.singleton_add,
    show {p} + (s.loc.refs + (↑(s.adj i).lsas + s.others (some i))) =
      s.loc.refs + (↑(s.adj i).lsas + ({p} + s.others (some i))) by abel] at hcounted
  unfold receiveRef
  refine (adjRibInAddLsaRef_spec hs.loc (hs.adj i) hreceived.wellformed
    (fun q hq hacc => hs.present (o := some i) hq hacc) (locFresh_of_refs hfresh)
    (Multiset.mem_add.mpr (Or.inl (Multiset.mem_singleton_self p))) hcounted).bind ?_
  rintro ⟨heap, loc, rib⟩ ⟨⟨ret, es, hadd⟩, hadded⟩
  have hpath : AdjPath c (s.adj i) rib := .one (.addLsa p) hreceived (by
    rw [adjStep, hadd]
    rfl)
  have hlast : ∀ {loc : LocRib} {rib : AdjRibIn},
      loc.refs + (↑rib.lsas + ({p} + s.others (some i))) =
        refsOf (some p) + (loc.refs + (↑rib.lsas + (s.others (some i) + 0))) := by
    intro loc rib
    rw [refsOf_some, add_zero]
    abel
  rcases hadded with heq | ⟨old, new, hnew, hforw⟩
  · obtain ⟨rfl, rfl, rfl⟩ : heap = _ ∧ loc = _ ∧ rib = _ := by simpa using heq
    rw [hlast] at hcounted
    refine (lsaPutRef_spec hcounted).bind fun heap' hput =>
      Ends.ok ⟨?_, .refl _, _, rfl, hpath, fun q hq => Or.inl hq⟩
    rw [Function.update_eq_self]
    refine { hs with counted := ?_ }
    rw [refs_eq _ (some i), add_assoc, add_assoc]
    exact hput
  · have hput := hforw.exchanged.counted
    dsimp only at hput
    rw [hlast] at hput
    obtain ⟨es', hup⟩ := hforw.updates
    have hlsas : ∀ q ∈ rib.lsas, q ∈ (s.adj i).lsas ∨ q = p := fun q hq =>
      ((hup.mem_iff (hs.adj i)).mp hq).elim (fun e => Or.inr (hnew q e)) fun h => Or.inl h.1
    refine (lsaPutRef_spec hput).bind fun heap' hcounted =>
      Ends.ok ⟨?_, hforw.exchanged.path, rib, rfl, hpath, hlsas⟩
    exact hs.forward (r := (heap', loc, rib)) ⟨hforw.updates, hforw.exchanged.exchanges,
      hforw.exchanged.path, hcounted⟩ fun q e => hnew q e ▸ hfresh

/-- **The reader of a peer goes away.** -/
theorem truncate_peer_spec {roots : List LsaPtr} (hs : s.Inv c clean keyid 0)
    (hp : roots.Perm (s.adj i).lsas) :
    Ends (truncateRef c s i roots) (fun s' => s'.Inv c clean keyid 0 ∧ LocPath s.loc s'.loc [] ∧
      ∃ rib, s'.adj = Function.update s.adj i rib ∧ AdjPath c (s.adj i) rib ∧ rib.lsas = [])
      (Faults clean) := by
  unfold truncateRef
  refine (adjRibInTruncateRef_spec hs hp).bind ?_
  rintro ⟨heap, loc, rib⟩ ⟨hinv, hpath, es, hrun⟩
  obtain ⟨rib', es', hrun', -, hnil⟩ := truncate_spec (hs.adj i) hp
  obtain ⟨rfl, -⟩ := Prod.mk.inj (Except.ok.inj (hrun.symm.trans hrun'))
  exact Ends.ok ⟨hinv, hpath, rib, rfl, .one (.truncate roots) hp hrun, hnil⟩

/-- What the local RIB holds has a readable path. -/
theorem Shared.Inv.pathOk (hs : s.Inv c clean keyid temp) :
    ∀ rid ∈ s.loc.ids, ∀ p ∈ rid.ptrs, PathOk p.lsa := by
  intro rid hm p hp
  have hid := (hs.loc.entries rid hm).ids p (List.mem_append_left _ hp)
  have hentry : p ∈ (s.loc.entry p.lsa.id).ptrs := by
    rwa [hid, entry_of_mem hs.loc.sorted hm]
  obtain ⟨o, hown, hoff⟩ := (hs.holds p).mp hentry
  cases o with
  | none => exact (hs.me p (Option.mem_toList.mp hown)).pathOk
  | some i => exact pathOk_of_accepted hoff

/-- **A recomputation.** -/
theorem recompute_shared_spec (hs : s.Inv c clean keyid 0) :
    Ends (recomputeRibRef s.heap s.loc) (fun r =>
      Shared.Inv c clean keyid { s with heap := r.1, loc := r.2.1 } 0 ∧
        LocPath s.loc r.2.1 r.2.2 ∧ RecomputeSpec s.loc r.2.1 r.2.2) (Faults clean) := by
  have hcounted := hs.counted
  unfold Shared.refs at hcounted
  rw [add_assoc] at hcounted
  refine (recomputeRibRef_spec hs.pathOk hcounted).mono ?_
  rintro ⟨heap, loc, es⟩ ⟨hrun, hcounted⟩
  have hspec := recompute_spec hs.loc hrun
  refine ⟨⟨hspec.inv, hs.adj, hs.me, hs.addr, fun p => ?_, ?_⟩,
    .one .recompute ⟨trivial, by simp [LocOp.put]⟩ hrun, hspec⟩
  · rw [hspec.same.ptrs]
    exact hs.holds p
  · unfold Shared.refs
    rw [add_assoc]
    exact hcounted

/-- **No step meets an object that is gone**, and every step keeps the count; it fails only where
the release of an object faults. -/
theorem refStep_spec {op : RefOp n} (hs : s.Inv c clean keyid 0) (hc : RefContract keyid s op)
    (hclean : clean → op.Clean) :
    Ends (refStep c s op) (RefGoesOn c clean keyid s) (Faults clean) := by
  have hsame : ∀ {s' : Shared n}, s'.adj = s.adj → ∀ i, AdjPath c (s.adj i) (s'.adj i) :=
    fun h i => h ▸ .refl c (s.adj i)
  have hpeer : ∀ {s' : Shared n} {i : Fin n} {rib : AdjRibIn},
      s'.adj = Function.update s.adj i rib → AdjPath c (s.adj i) rib →
      ∀ j, AdjPath c (s.adj j) (s'.adj j) := by
    intro s' i rib hadj hpath j
    rw [hadj]
    by_cases hj : j = i
    · subst hj
      rwa [Function.update_self]
    · rw [Function.update_of_ne hj]
      exact .refl c (s.adj j)
  cases op with
  | begin addr me =>
    obtain ⟨hfree, hnone, hme⟩ := hc
    exact (begin_spec (p := ⟨addr, me⟩) hs hfree hnone hme).bind fun s' ⟨hinv, hpath, hadj⟩ =>
      Ends.ok ⟨hinv, hpath, hsame hadj⟩
  | renew addr newme =>
    obtain ⟨hfree, me, sign, op, es, hold, hsign, hmeop, hstep⟩ := hc
    have hme := (hs.me me hold).renew hsign hmeop hstep
    unfold refStep
    rw [hold]
    exact (renew_spec (q := ⟨addr, newme⟩) hs hfree hold hme).bind fun s' ⟨hinv, hpath, hadj⟩ =>
      Ends.ok ⟨hinv, hpath, hsame hadj⟩
  | receive i addr lsa =>
    exact (lsaReceived_spec (p := ⟨addr, lsa⟩) hs hc.1 hc.2 hclean).bind
      fun s' ⟨hinv, hpath, rib, hadj, hadjPath, _⟩ => Ends.ok ⟨hinv, hpath, hpeer hadj hadjPath⟩
  | truncate i roots =>
    exact (truncate_peer_spec hs hc).bind fun s' ⟨hinv, hpath, rib, hadj, hadjPath, _⟩ =>
      Ends.ok ⟨hinv, hpath, hpeer hadj hadjPath⟩
  | recompute =>
    exact (recompute_shared_spec hs).bind fun r ⟨hinv, hpath, _⟩ =>
      Ends.ok ⟨hinv, hpath, fun i => .refl c (s.adj i)⟩
  | dump =>
    have hread : lsaRead s.heap (s.loc.ids.flatMap LocRibId.held) = .ok () :=
      lsaRead_ok hs.counted fun p hp =>
        Multiset.mem_add.mpr (Or.inl (Multiset.mem_add.mpr (Or.inl hp)))
    unfold refStep
    rw [hread]
    exact Ends.ok ⟨hs, .refl s.loc, fun i => .refl c (s.adj i)⟩

section Runs

variable {remoteid : Fin n → Option NodeId} {ops : List (RefOp n)} {es : List RibEvent}

/-- The runs from the start of `dvpn`. -/
abbrev RefRun (c : Crypto) (keyid : NodeId) (remoteid : Fin n → Option NodeId) :
    List (RefOp n) → Shared n → List RibEvent → Prop :=
  Run (refStep c) (RefContract keyid) (sharedInit keyid remoteid)

theorem sharedInit_inv (c : Crypto) (clean : Prop) (keyid : NodeId)
    (remoteid : Fin n → Option NodeId) : (sharedInit keyid remoteid).Inv c clean keyid 0 := by
  have howned : ∀ o, (sharedInit keyid remoteid).owned o = [] := fun o => by cases o <;> rfl
  have hrefs : (sharedInit keyid remoteid).refs = 0 := by
    have hsum := Finset.sum_eq_zero (s := Finset.univ) fun o _ =>
      congrArg (fun l : List LsaPtr => (l : Multiset LsaPtr)) (howned o)
    exact (zero_add _).trans hsum
  refine ⟨locRibInit_inv _, fun i => adjRibInInit_inv c _ _, (fun p e => nomatch e), ?_, ?_, ?_⟩
  · intro o o' p hp
    exact absurd (howned o ▸ hp) List.not_mem_nil
  · refine fun p => ⟨fun h => absurd h List.not_mem_nil, ?_⟩
    rintro ⟨o, hp, -⟩
    exact absurd (howned o ▸ hp) List.not_mem_nil
  · rw [hrefs]
    exact ⟨Counts.empty, fun _ p hp => absurd hp (Multiset.notMem_zero p)⟩

/-- A run keeps the count, and the RIBs have runs of their own. -/
theorem RefRun.goesOn (clean : Prop) (h : RefRun c keyid remoteid ops s es)
    (hclean : clean → ∀ op ∈ ops, op.Clean) : s.Inv c clean keyid 0 ∧
      (∃ lops, LocRun LocContractPaths (some keyid) lops s.loc es) ∧
      ∀ i, ∃ aops aes, AdjRun c AdjContract (some keyid) (remoteid i) aops (s.adj i) aes := by
  refine h.invariant (fun ops s es => (clean → ∀ op ∈ ops, op.Clean) →
    s.Inv c clean keyid 0 ∧ (∃ lops, LocRun LocContractPaths (some keyid) lops s.loc es) ∧
      ∀ i, ∃ aops aes, AdjRun c AdjContract (some keyid) (remoteid i) aops (s.adj i) aes)
    (fun _ => ⟨sharedInit_inv c clean keyid remoteid, ⟨[], .nil⟩, fun i => ⟨[], [], .nil⟩⟩) ?_
    hclean
  intro ops s es op s' es' ih hc hstep hclean
  obtain ⟨hs, ⟨lops, hloc⟩, hadj⟩ := ih fun h op hm => hclean h op (List.mem_append_left _ hm)
  have hgoes := refStep_spec hs hc fun h => hclean h op (by simp)
  rw [hstep] at hgoes
  refine ⟨hgoes.inv, ?_, fun i => ?_⟩
  · obtain ⟨lops', hpath⟩ := hgoes.loc
    exact ⟨lops ++ lops', hloc.append hpath⟩
  · obtain ⟨aops, aes, hrun⟩ := hadj i
    obtain ⟨aops', aes', hpath⟩ := hgoes.adj i
    exact ⟨aops ++ aops', aes ++ aes', hrun.append hpath⟩

/-- One peer, which sends the LSA of X; then the local RIB selects it. -/
theorem refRun_lsaX : ∃ s es,
    RefRun sampleCrypto idM (fun _ : Fin 1 => some idP) [.receive 0 1 lsaX.lsa, .recompute] s es ∧
      (s.heap 1).map Prod.snd = some 3 ∧ es.length = 1 := by
  have hrun : ((refStep sampleCrypto (sharedInit idM fun _ : Fin 1 => some idP)
      (.receive 0 1 lsaX.lsa)).toOption.bind fun r =>
        (refStep sampleCrypto r.1 .recompute).toOption.bind fun r' =>
          (r'.1.heap 1).map fun x => (x.2, (r.2 ++ r'.2).length)) = some (3, 1) := by
    decide +kernel
  obtain ⟨r, hr, hrun⟩ := Option.bind_eq_some_iff.mp hrun
  obtain ⟨r', hr', hrun⟩ := Option.bind_eq_some_iff.mp hrun
  obtain ⟨x, hx, heq⟩ := Option.map_eq_some_iff.mp hrun
  obtain ⟨hcount, hlen⟩ := Prod.mk.inj heq
  have hok : ∀ {α : Type} {y : Except HeapCrash α} {a : α}, y.toOption = some a → y = .ok a := by
    intro α y a h
    cases y with
    | ok b => exact congrArg _ (Option.some.inj h)
    | error e => exact nomatch h
  exact ⟨r'.1, _, .snoc (.snoc .nil ⟨rfl, received_lsaX⟩ (hok hr)) trivial (hok hr'),
    by rw [hx, Option.map_some, hcount], hlen⟩

open ChangeLog

/-- **An address stands for one LSA**, although malloc may give a place to another LSA once its
object was freed: the holders of one address agree on the LSA, so the local RIB and the RIBs of
the peers, which compare addresses, are used as their contracts ask for, and a listener that
replays what it is told has the best LSA and cost of every id. -/
theorem lsas_distinguished (h : RefRun c keyid remoteid ops s es) :
    (∀ p ∈ s.refs, ∀ q ∈ s.refs, p.addr = q.addr → p.lsa = q.lsa) ∧
    (∃ lops, LocRun LocContractPaths (some keyid) lops s.loc es) ∧
    (∀ i, ∃ aops aes, AdjRun c AdjContract (some keyid) (remoteid i) aops (s.adj i) aes) ∧
    Replays (fun _ => none) (es.map RibEvent.change) s.loc.view := by
  obtain ⟨hs, ⟨lops, hloc⟩, hadj⟩ := RefRun.goesOn False h False.elim
  have hcounts := hs.counted.counts
  rw [add_zero] at hcounts
  refine ⟨fun p hp q hq e => hcounts.obj_eq hp hq e, ⟨lops, hloc⟩, hadj, ?_⟩
  have hrun : LocRun LocContract (some keyid) lops s.loc es := hloc.mono fun _ _ hc => hc.1
  have hfollowed : s.loc.Inv ∧ Followed s.loc es :=
    hrun.invariant (fun _ rib es => rib.Inv ∧ Followed rib es)
      ⟨locRibInit_inv _, ⟨.nil, fun _ he => absurd he List.not_mem_nil⟩⟩
      fun hi hc hs => ⟨(locStep_inv hi.1 hc hs).1, locStep_followed hi.1 hc hs hi.2⟩
  exact hfollowed.2.replays

/-- The listeners are told of it. -/
theorem lsas_distinguished_lsaX : ∃ s : Shared 1, ∃ es ops,
    RefRun sampleCrypto idM (fun _ : Fin 1 => some idP) ops s es ∧ es.length = 1 ∧
      Replays (fun _ => none) (es.map RibEvent.change) s.loc.view := by
  obtain ⟨s, es, hrun, -, hlen⟩ := refRun_lsaX
  exact ⟨s, es, _, hrun, hlen, (lsas_distinguished hrun).2.2.2⟩

end Runs

end Dvpn
