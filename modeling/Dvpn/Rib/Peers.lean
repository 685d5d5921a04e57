import Dvpn.Rib.AdjRibInRun
import Dvpn.Rib.LocRibRun

/-!
# The peers and the local RIB (`rib_listener_to_loc.c`)

Each of `n` peers has its own `adj_rib_in`, whose listener (`rib_listener_to_loc`) puts what it is
told into the one local RIB. `peersStep` interleaves the calls for the peers with recomputations;
`PeersContract` says that each received LSA is a fresh object that `lsa_deserialise` made.

`Peers.Inv` is the invariant of the whole: the objects that the peers hold are different, and the
local RIB holds under each id what the peers hold and accept. An update of one peer keeps it
because the events of the update are exactly the change of that peer's accepted LSAs
(`forward_change`).

* `peersStep_isOk`: no step aborts.
* `peers_agree`: nothing is lost, duplicated or left behind, whatever the interleaving.
-/

namespace Dvpn

/-! ## The code -/

/-- `lsa_add`, `lsa_mod` and `lsa_del` (`rib_listener_to_loc.c:27-47`). -/
def listenerToLoc (loc : LocRib) : RibEvent → Except Crash LocRib
  | .lsaAdd a _ => locRibAddLsa loc a
  | .lsaMod a _ b _ => locRibModLsa loc a b
  | .lsaDel a _ => locRibDelLsa loc a

/-- The events of one call, one after the other. -/
def forward (loc : LocRib) : List RibEvent → Except Crash LocRib
  | [] => return loc
  | e :: es => do forward (← listenerToLoc loc e) es

variable {n : Nat}

/-- The RIBs of the peers and the local RIB. -/
structure Peers (n : Nat) where
  adj : Fin n → AdjRibIn
  loc : LocRib

/-- The start: nothing was received, and the listeners are registered. -/
def peersInit (myid : Option NodeId) (remoteid : Fin n → Option NodeId) : Peers n where
  adj i := adjRibInInit myid (remoteid i)
  loc := locRibInit myid

/-- A call for one peer, or a recomputation. -/
inductive PeersOp (n : Nat) where
  | peer (i : Fin n) (op : AdjOp)
  | recompute

/-- One call, and what the listeners of the local RIB are told. -/
def peersStep (c : Crypto) (s : Peers n) : PeersOp n → Except Crash (Peers n × List RibEvent)
  | .peer i op => do
    let (rib, es) ← adjStep c (s.adj i) op
    let loc ← forward s.loc es
    return ({ adj := Function.update s.adj i rib, loc := loc }, [])
  | .recompute => do
    let (loc, es) ← recomputeRib s.loc
    return ({ s with loc := loc }, es)

/-! ## One event -/

variable {loc loc' : LocRib} {rid : LocRibId} {old new : Option LsaPtr} {p : LsaPtr}
  {es es' : List RibEvent} {id : NodeId}

theorem forward_append (loc : LocRib) (es es' : List RibEvent) :
    forward loc (es ++ es') = (forward loc es >>= fun loc => forward loc es') := by
  induction es generalizing loc with
  | nil => rfl
  | cons e es ih =>
    simp only [List.cons_append, forward, bind_assoc]
    cases listenerToLoc loc e with
    | error => rfl
    | ok loc' => simp only [ok_bind, ih]

theorem ptrs_nodup (h : rid.Inv) : rid.ptrs.Nodup :=
  List.pairwise_map.mpr (h.sorted.imp fun hlt e =>
    absurd (congrArg LsaPtr.key e) (ne_of_lt hlt))

/-- The LSA `old` of the entry of `id` makes place for `new`; nothing else changes. -/
structure Exchanges (loc loc' : LocRib) (id : NodeId) (old new : Option LsaPtr) : Prop where
  inv : loc'.Inv
  ids : ∀ p, old = some p ∨ new = some p → p.lsa.id = id
  perm : ∃ rest, (loc.entry id).ptrs.Perm (old.toList ++ rest) ∧
    (loc'.entry id).ptrs.Perm (new.toList ++ rest)
  frame : ∀ id', id' ≠ id → (loc'.entry id').ptrs = (loc.entry id').ptrs

theorem Exchanges.mem (h : Exchanges loc loc' id old new) (hi : loc.Inv) :
    p ∈ (loc'.entry p.lsa.id).ptrs ↔
      new = some p ∨ p ∈ (loc.entry p.lsa.id).ptrs ∧ old ≠ some p := by
  by_cases hid : p.lsa.id = id
  · obtain ⟨rest, hold, hnew⟩ := h.perm
    have hn := hold.nodup_iff.mp (ptrs_nodup (hi.entry id).1)
    have hdis : p ∈ rest → old ≠ some p := by
      rintro hr rfl
      exact (List.nodup_cons.mp hn).1 hr
    rw [hid, hnew.mem_iff, hold.mem_iff, List.mem_append, List.mem_append, Option.mem_toList,
      Option.mem_toList]
    tauto
  · rw [h.frame _ hid]
    have hold : old ≠ some p := fun e => hid (h.ids p (Or.inl e))
    have hnew : new ≠ some p := fun e => hid (h.ids p (Or.inr e))
    tauto

theorem Updates.exchanges {loc loc' : LocRib} (h : Updates loc loc' rid) (hinv : loc'.Inv)
    (hid : rid.id = id) (hids : ∀ p, old = some p ∨ new = some p → p.lsa.id = id)
    (hperm : ∃ rest, (loc.entry id).ptrs.Perm (old.toList ++ rest) ∧
      rid.ptrs.Perm (new.toList ++ rest)) : Exchanges loc loc' id old new := by
  refine ⟨hinv, hids, ?_, fun id' hne => ?_⟩
  · rw [h.entry id, if_pos hid.symm]
    exact hperm
  · rw [h.entry id', if_neg (hid ▸ hne)]

/-- **One event is put into the local RIB** without an abort, when the old LSA is there and the
new one is a fresh object. -/
theorem forward_change (hi : loc.Inv) (hids : ∀ p, old = some p ∨ new = some p → p.lsa.id = id)
    (hold : ∀ p, old = some p → loc.Present p) (hnew : ∀ p, new = some p → loc.Fresh p)
    (oldcost newcost : Nat) :
    ∃ loc', forward loc (changeEvents old oldcost new newcost) = .ok loc' ∧
      Exchanges loc loc' id old new := by
  have hentry := (hi.entry id).2
  cases old with
  | none =>
    cases new with
    | none => exact ⟨loc, rfl, hi, hids, ⟨_, List.Perm.refl _, List.Perm.refl _⟩, fun _ _ => rfl⟩
    | some q =>
      obtain rfl := hids q (Or.inr rfl)
      obtain ⟨loc', lsas, hrun, hup, hp, hi'⟩ := add_spec hi (hnew q rfl)
      exact ⟨loc', by simp [changeEvents, forward, listenerToLoc, hrun],
        hup.exchanges hi' hentry hids ⟨_, List.Perm.refl _, hp⟩⟩
  | some p =>
    obtain rfl := hids p (Or.inl rfl)
    cases new with
    | none =>
      obtain ⟨loc', lsas, hrun, hup, hp, hi'⟩ := del_spec hi (hold p rfl)
      exact ⟨loc', by simp [changeEvents, forward, listenerToLoc, hrun],
        hup.exchanges hi' hentry hids ⟨_, hp, List.Perm.refl _⟩⟩
    | some q =>
      obtain ⟨loc', lsas, hrun, hup, ⟨rest, hp, hp'⟩, hi'⟩ :=
        mod_spec hi (hold p rfl) (hnew q rfl) (hids q (Or.inr rfl))
      exact ⟨loc', by simp [changeEvents, forward, listenerToLoc, hrun],
        hup.exchanges hi' hentry hids ⟨rest, hp, hp'⟩⟩

/-! ## The invariant -/

/-- What holds of the whole. -/
structure Peers.Inv (c : Crypto) (s : Peers n) : Prop where
  loc : s.loc.Inv
  adj : ∀ i, (s.adj i).Inv c
  addr : ∀ i j, ∀ p ∈ (s.adj i).lsas, ∀ q ∈ (s.adj j).lsas, p.addr = q.addr → i = j
  holds : ∀ p, p ∈ (s.loc.entry p.lsa.id).ptrs ↔
    ∃ i, p ∈ (s.adj i).lsas ∧ (s.adj i).accepted c p = true

/-- No RIB holds an object with the address of `lsa`. -/
def Peers.Fresh (s : Peers n) (lsa : LsaPtr) : Prop :=
  (∀ i, ∀ p ∈ (s.adj i).lsas, p.addr ≠ lsa.addr) ∧ s.loc.Fresh lsa

/-- What the callers guarantee: a received LSA is a fresh object that the parser made. -/
def PeersContract (s : Peers n) : PeersOp n → Prop
  | .peer i op => AdjContract (s.adj i) op ∧ ∀ lsa, op = .addLsa lsa → s.Fresh lsa
  | .recompute => True

variable {c : Crypto} {s s' : Peers n} {i : Fin n} {rib rib' : AdjRibIn} {op : PeersOp n}

theorem peersInit_inv (c : Crypto) (myid : Option NodeId) (remoteid : Fin n → Option NodeId) :
    (peersInit myid remoteid).Inv c where
  loc := locRibInit_inv myid
  adj i := adjRibInInit_inv c myid (remoteid i)
  addr _ _ _ hp := absurd hp List.not_mem_nil
  holds _ := ⟨fun h => absurd h List.not_mem_nil, fun ⟨_, h, _⟩ => absurd h List.not_mem_nil⟩

/-- **An update of one peer's RIB**, forwarded, keeps the invariant. -/
theorem update_spec (hs : s.Inv c) (hup : AdjUpdates c (s.adj i) rib' id old new es)
    (hfresh : ∀ p, new = some p → s.Fresh p) :
    ∃ loc', forward s.loc es = .ok loc' ∧
      Peers.Inv c { adj := Function.update s.adj i rib', loc := loc' } := by
  have hi := hs.adj i
  have hmem := @AdjUpdates.mem _ _ _ _ _ _ _ hup hi
  have hold : ∀ p, old = some p → p ∈ (s.adj i).lsas ∧ p.lsa.id = id := fun p e =>
    (findRef_eq_some hi.sorted).mp (hup.find.trans e)
  obtain ⟨loc', hrun, hex⟩ := @forward_change s.loc
    (old.filter ((s.adj i).accepted c)) (new.filter ((s.adj i).accepted c)) id hs.loc
    (fun p h => h.elim (fun h => (hold p (Option.filter_eq_some_iff.mp h).1).2)
      fun h => hup.ids p (Option.filter_eq_some_iff.mp h).1)
    (fun p h => (present_iff hs.loc).mpr ((hs.holds p).mpr
      ⟨i, (hold p (Option.filter_eq_some_iff.mp h).1).1, (Option.filter_eq_some_iff.mp h).2⟩))
    (fun p h => (hfresh p (Option.filter_eq_some_iff.mp h).1).2)
    RIB_COST_UNREACHABLE RIB_COST_UNREACHABLE
  refine ⟨loc', hup.events ▸ hrun, hex.inv, fun j => ?_, ?_, fun p => ?_⟩
  · change (Function.update s.adj i rib' j).Inv c
    by_cases hj : j = i
    · subst hj
      rw [Function.update_self]
      exact hup.inv
    · rw [Function.update_of_ne hj]
      exact hs.adj j
  · -- a fresh object is not the object of any other peer
    have hfrom : ∀ j, ∀ p ∈ (Function.update s.adj i rib' j).lsas,
        p ∈ (s.adj j).lsas ∨ j = i ∧ s.Fresh p := by
      intro j p hp
      by_cases hj : j = i
      · subst hj
        rw [Function.update_self] at hp
        exact (hmem.mp hp).elim (fun h => Or.inr ⟨rfl, hfresh p h⟩) fun h => Or.inl h.1
      · rw [Function.update_of_ne hj] at hp
        exact Or.inl hp
    intro j k p hp q hq e
    rcases hfrom j p hp with hp' | ⟨rfl, hp'⟩
    · rcases hfrom k q hq with hq' | ⟨rfl, hq'⟩
      · exact hs.addr j k p hp' q hq' e
      · exact absurd e (hq'.1 j p hp')
    · rcases hfrom k q hq with hq' | ⟨rfl, _⟩
      · exact absurd e.symm (hp'.1 k q hq')
      · rfl
  · rw [hex.mem hs.loc, hs.holds p]
    dsimp only
    constructor
    · rintro (hn | ⟨⟨j, hp, hacc⟩, hne⟩)
      · obtain ⟨hn, hacc⟩ := Option.filter_eq_some_iff.mp hn
        refine ⟨i, ?_⟩
        rw [Function.update_self, hup.accepted]
        exact ⟨hmem.mpr (Or.inl hn), hacc⟩
      · refine ⟨j, ?_⟩
        by_cases hj : j = i
        · subst hj
          rw [Function.update_self, hup.accepted]
          refine ⟨hmem.mpr (Or.inr ⟨hp, fun hid => hne ?_⟩), hacc⟩
          have hfind := hup.find.symm.trans ((findRef_eq_some hi.sorted).mpr ⟨hp, hid⟩)
          exact Option.filter_eq_some_iff.mpr ⟨hfind, hacc⟩
        · rw [Function.update_of_ne hj]
          exact ⟨hp, hacc⟩
    · rintro ⟨j, hj⟩
      by_cases hji : j = i
      · subst hji
        rw [Function.update_self, hup.accepted] at hj
        rcases hmem.mp hj.1 with hn | ⟨hp, hid⟩
        · exact Or.inl (Option.filter_eq_some_iff.mpr ⟨hn, hj.2⟩)
        · refine Or.inr ⟨⟨j, hp, hj.2⟩, fun ho => hid ?_⟩
          exact (hold p (Option.filter_eq_some_iff.mp ho).1).2
      · rw [Function.update_of_ne hji] at hj
        refine Or.inr ⟨⟨j, hj⟩, fun ho => hji ?_⟩
        exact hs.addr j i p hj.1 p (hold p (Option.filter_eq_some_iff.mp ho).1).1 rfl

/-- A row of removals of one peer. -/
theorem removals_spec (hrem : Removals c rib rib' es) (hs : s.Inv c) (hi : s.adj i = rib) :
    ∃ loc', forward s.loc es = .ok loc' ∧
      Peers.Inv c { adj := Function.update s.adj i rib', loc := loc' } := by
  induction hrem generalizing s with
  | nil =>
    refine ⟨s.loc, rfl, ?_⟩
    rwa [← hi, Function.update_eq_self]
  | @cons rib rib₁ rib₂ ref es es' hup _ ih =>
    obtain ⟨loc₁, hrun₁, hinv₁⟩ := update_spec hs (hi ▸ hup) (by simp)
    obtain ⟨loc₂, hrun₂, hinv₂⟩ := ih hinv₁ (Function.update_self i rib₁ s.adj)
    rw [Function.update_idem] at hinv₂
    exact ⟨loc₂, by rw [forward_append, hrun₁, ok_bind, hrun₂], hinv₂⟩

/-- **A call for one peer** does not abort and keeps the invariant. -/
theorem peer_spec {aop : AdjOp} (hs : s.Inv c) (hc : PeersContract s (.peer i aop)) :
    ∃ s', peersStep c s (.peer i aop) = .ok (s', []) ∧ s'.Inv c := by
  obtain ⟨hc, hfresh⟩ := hc
  obtain ⟨⟨rib', es⟩, hrun⟩ := adjStep_isOk (hs.adj i) hc
  have hforward : ∃ loc', forward s.loc es = .ok loc' ∧
      Peers.Inv c { adj := Function.update s.adj i rib', loc := loc' } := by
    rcases adjStep_inv (hs.adj i) hc hrun with ⟨lsa, rfl, hout⟩ | ⟨_, _, hrem, _⟩
    · cases hout with
      | ignored | same =>
        refine ⟨s.loc, rfl, ?_⟩
        rwa [Function.update_eq_self]
      | removed _ hup => exact update_spec hs hup (by simp)
      | stored _ _ _ hup =>
        exact update_spec hs hup fun p e => Option.some.inj e ▸ hfresh lsa rfl
    · exact removals_spec hrem hs rfl
  obtain ⟨loc', hloc, hinv⟩ := hforward
  exact ⟨_, by simp [peersStep, hrun, hloc], hinv⟩

/-- What the local RIB holds has a readable path. -/
theorem pathOk_of_holds (hs : s.Inv c) : ∀ rid ∈ s.loc.ids, ∀ p ∈ rid.ptrs, PathOk p.lsa := by
  intro rid hm p hp
  have hid := (hs.loc.entries rid hm).ids p (List.mem_append_left _ hp)
  have hentry : p ∈ (s.loc.entry p.lsa.id).ptrs := by
    rwa [hid, entry_of_mem hs.loc.sorted hm]
  obtain ⟨i, _, hacc⟩ := (hs.holds p).mp hentry
  obtain ⟨attr, _, ha, hmod, _⟩ := accepted_path hacc
  exact ⟨attr, ha, hmod⟩

/-- **A recomputation** does not abort and keeps the invariant. -/
theorem recompute_peers (hs : s.Inv c) :
    ∃ s' es, peersStep c s .recompute = .ok (s', es) ∧ s'.Inv c := by
  obtain ⟨⟨loc', es⟩, hrun⟩ := recomputeRib_isOk (pathOk_of_holds hs)
  have hspec := recompute_spec hs.loc hrun
  refine ⟨{ s with loc := loc' }, es, by simp [peersStep, hrun], hspec.inv, hs.adj, hs.addr, ?_⟩
  intro p
  rw [hspec.same.ptrs]
  exact hs.holds p

/-- **No step aborts**, and every step keeps the invariant. -/
theorem peersStep_isOk (hs : s.Inv c) (hc : PeersContract s op) :
    ∃ s' es, peersStep c s op = .ok (s', es) ∧ s'.Inv c := by
  cases op with
  | peer i aop =>
    obtain ⟨s', hrun, hinv⟩ := peer_spec hs hc
    exact ⟨s', [], hrun, hinv⟩
  | recompute => exact recompute_peers hs

/-! ## Runs -/

/-- The runs of the peers and the local RIB from the start. -/
abbrev PeersRun (c : Crypto) (myid : Option NodeId) (remoteid : Fin n → Option NodeId) :
    List (PeersOp n) → Peers n → List RibEvent → Prop :=
  Run (peersStep c) PeersContract (peersInit myid remoteid)

theorem PeersRun.inv {myid : Option NodeId} {remoteid : Fin n → Option NodeId}
    {ops : List (PeersOp n)} (h : PeersRun c myid remoteid ops s es) : s.Inv c := by
  refine h.invariant (fun _ s _ => s.Inv c) (peersInit_inv c myid remoteid) ?_
  intro ops s es op s' es' hs hc hrun
  obtain ⟨s₁, es₁, hrun₁, hinv⟩ := peersStep_isOk hs hc
  obtain ⟨rfl, _⟩ := Prod.mk.inj (Except.ok.inj (hrun₁.symm.trans hrun))
  exact hinv

/-- The LSAs of an id that the peers hold and accept, peer by peer. -/
def Peers.offered (c : Crypto) (s : Peers n) (id : NodeId) : List LsaPtr :=
  (List.finRange n).flatMap fun i =>
    (s.adj i).lsas.filter fun p => (s.adj i).accepted c p && decide (p.lsa.id = id)

theorem mem_offered : p ∈ s.offered c id ↔
    (∃ i, p ∈ (s.adj i).lsas ∧ (s.adj i).accepted c p = true) ∧ p.lsa.id = id := by
  simp only [Peers.offered, List.mem_flatMap, List.mem_finRange, true_and, List.mem_filter,
    Bool.and_eq_true, decide_eq_true_eq]
  constructor
  · rintro ⟨i, hp, hacc, hid⟩
    exact ⟨⟨i, hp, hacc⟩, hid⟩
  · rintro ⟨⟨i, hp, hacc⟩, hid⟩
    exact ⟨i, hp, hacc, hid⟩

theorem nodup_offered (hs : s.Inv c) (id : NodeId) : (s.offered c id).Nodup := by
  refine List.nodup_flatMap.mpr ⟨fun i _ => ((hs.adj i).sorted.nodup).filter _, ?_⟩
  refine (List.nodup_finRange n).imp fun {i j} hne p hp hq => hne ?_
  exact hs.addr i j p (List.mem_filter.mp hp).1 p (List.mem_filter.mp hq).1 rfl

/-- **Nothing is lost, duplicated or left behind.** Whatever the interleaving of the calls for the
peers and the recomputations, the LSAs of an id in the local RIB are those that the peers hold and
accept, each once; and no further call aborts. -/
theorem peers_agree {myid : Option NodeId} {remoteid : Fin n → Option NodeId}
    {ops : List (PeersOp n)} (h : PeersRun c myid remoteid ops s es) :
    (∀ id, (s.loc.entry id).ptrs.Perm (s.offered c id)) ∧
      ∀ op, PeersContract s op → ∃ r, peersStep c s op = .ok r := by
  have hs := PeersRun.inv h
  refine ⟨fun id => ?_, fun op hc => ?_⟩
  · obtain ⟨hi, hid⟩ := hs.loc.entry id
    refine (List.perm_ext_iff_of_nodup (ptrs_nodup hi) (nodup_offered hs id)).mpr fun p => ?_
    rw [mem_offered, ← hs.holds p]
    constructor
    · intro hp
      have hpid : p.lsa.id = id := (hi.ids p (List.mem_append_left _ hp)).trans hid
      exact ⟨hpid.symm ▸ hp, hpid⟩
    · rintro ⟨hp, rfl⟩
      exact hp
  · obtain ⟨s', es', hrun, _⟩ := peersStep_isOk hs hc
    exact ⟨_, hrun⟩

/-- One peer, which sends the LSA of X. -/
theorem peers_agree_lsaX : ∃ (s : Peers 1) (es : List RibEvent),
    PeersRun sampleCrypto (some idM) (fun _ => some idP) [.peer 0 (.addLsa lsaX)] s es ∧
      (s.loc.entry idX).ptrs.Perm (s.offered sampleCrypto idX) := by
  have hc : PeersContract (peersInit (some idM) fun _ : Fin 1 => some idP)
      (.peer 0 (.addLsa lsaX)) :=
    ⟨received_lsaX, fun _ _ => ⟨fun _ _ hp => absurd hp List.not_mem_nil,
      fun _ hm => absurd hm List.not_mem_nil⟩⟩
  obtain ⟨s, es, hrun, _⟩ :=
    peersStep_isOk (peersInit_inv sampleCrypto (some idM) fun _ : Fin 1 => some idP) hc
  exact ⟨s, _, .snoc .nil hc hrun, (peers_agree (.snoc .nil hc hrun)).1 idX⟩

end Dvpn
