import Dvpn.Rib.Recompute
import Dvpn.Run

/-!
# Runs of the local RIB (`loc_rib.c`)

`LocContract` is what the callers of the local RIB guarantee: an LSA that is added, or that
replaces another one, is a fresh object, the LSA that is replaced or deleted is there, and a
replacement has the same id. `locStep_inv` inverts one step within the contract, and every
statement about a run goes through it.

* `locStep_isOk`: within the contract, and with readable paths, no step aborts.
* `listeners_follow`: a listener that is registered on the empty RIB can replay what it is told,
  and then holds the best pair of every id.
-/

namespace Dvpn

open ChangeLog

/-- What the callers guarantee. -/
def LocContract (rib : LocRib) : LocOp → Prop
  | .add lsa => rib.Fresh lsa
  | .mod old new => rib.Present old ∧ rib.Fresh new ∧ new.lsa.id = old.lsa.id
  | .del lsa => rib.Present lsa
  | .recompute => True

/-- The LSA that an operation puts into the RIB. -/
def LocOp.put : LocOp → Option LsaPtr
  | .add lsa => some lsa
  | .mod _ new => some new
  | .del _ => none
  | .recompute => none

variable {rib rib' : LocRib} {op : LocOp} {ops : List LocOp} {es es' : List RibEvent}
  {myid : Option NodeId}

/-! ## One step -/

/-- A step within the contract, by operation. -/
theorem locStep_inv (hi : rib.Inv) (hc : LocContract rib op)
    (h : locStep rib op = .ok (rib', es)) :
    rib'.Inv ∧
      ((∃ lsa lsas', op = .add lsa ∧ es = [] ∧ Updates rib rib' { rib.entry lsa.lsa.id with
          lsas := lsas'
          highestVersionSeen :=
            max (rib.entry lsa.lsa.id).highestVersionSeen (lsaGetVersion lsa.lsa) } ∧
          (lsas'.map LocRibLsaRef.lsa).Perm (lsa :: (rib.entry lsa.lsa.id).ptrs)) ∨
        (∃ old new lsas' rest, op = .mod old new ∧ es = [] ∧
          Updates rib rib' { rib.entry old.lsa.id with lsas := lsas' } ∧
          (rib.entry old.lsa.id).ptrs.Perm (old :: rest) ∧
          (lsas'.map LocRibLsaRef.lsa).Perm (new :: rest)) ∨
        (∃ lsa lsas', op = .del lsa ∧ es = [] ∧
          Updates rib rib' { rib.entry lsa.lsa.id with lsas := lsas' } ∧
          (rib.entry lsa.lsa.id).ptrs.Perm (lsa :: lsas'.map LocRibLsaRef.lsa)) ∨
        (op = .recompute ∧ RecomputeSpec rib rib' es)) := by
  cases op with
  | add lsa =>
    obtain ⟨rib₁, lsas', hrun, hup, hp, hi'⟩ := add_spec hi hc
    simp only [locStep, hrun, ok_bind, pure_eq_ok, Except.ok.injEq, Prod.mk.injEq] at h
    obtain ⟨rfl, rfl⟩ := h
    exact ⟨hi', Or.inl ⟨lsa, lsas', rfl, rfl, hup, hp⟩⟩
  | mod old new =>
    obtain ⟨hpres, hf, hid⟩ := hc
    obtain ⟨rib₁, lsas', hrun, hup, ⟨rest, hp, hp'⟩, hi'⟩ := mod_spec hi hpres hf hid
    simp only [locStep, hrun, ok_bind, pure_eq_ok, Except.ok.injEq, Prod.mk.injEq] at h
    obtain ⟨rfl, rfl⟩ := h
    exact ⟨hi', Or.inr (Or.inl ⟨old, new, lsas', rest, rfl, rfl, hup, hp, hp'⟩)⟩
  | del lsa =>
    obtain ⟨rib₁, lsas', hrun, hup, hp, hi'⟩ := del_spec hi hc
    simp only [locStep, hrun, ok_bind, pure_eq_ok, Except.ok.injEq, Prod.mk.injEq] at h
    obtain ⟨rfl, rfl⟩ := h
    exact ⟨hi', Or.inr (Or.inr (Or.inl ⟨lsa, lsas', rfl, rfl, hup, hp⟩))⟩
  | recompute =>
    have hspec := recompute_spec hi h
    exact ⟨hspec.inv, Or.inr (Or.inr (Or.inr ⟨rfl, hspec⟩))⟩

/-- **No step aborts** within the contract, when a recomputation can read every path. -/
theorem locStep_isOk (hi : rib.Inv) (hc : LocContract rib op)
    (hp : op = .recompute → ∀ rid ∈ rib.ids, ∀ p ∈ rid.ptrs, PathOk p.lsa) :
    ∃ r, locStep rib op = .ok r := by
  cases op with
  | add lsa =>
    obtain ⟨rib₁, _, hrun, _⟩ := add_spec hi hc
    exact ⟨(rib₁, []), by simp [locStep, hrun]⟩
  | mod old new =>
    obtain ⟨hpres, hf, hid⟩ := hc
    obtain ⟨rib₁, _, hrun, _⟩ := mod_spec hi hpres hf hid
    exact ⟨(rib₁, []), by simp [locStep, hrun]⟩
  | del lsa =>
    obtain ⟨rib₁, _, hrun, _⟩ := del_spec hi hc
    exact ⟨(rib₁, []), by simp [locStep, hrun]⟩
  | recompute => exact recomputeRib_isOk (hp rfl)

theorem locRibInit_inv (myid : Option NodeId) : (locRibInit myid).Inv :=
  ⟨Avl.sorted_nil, fun _ h => absurd h List.not_mem_nil⟩

/-- An update that keeps the best pair of its entry keeps the table. -/
theorem Updates.view {rid : LocRibId} (h : Updates rib rib' rid)
    (hp : rid.pair = (rib.entry rid.id).pair) : rib'.view = rib.view := by
  funext id
  rw [view_eq, view_eq, h.entry]
  split_ifs with hid
  · rw [hp, hid]
  · rfl

/-! ## Runs -/

/-- The runs of a local RIB from the start. -/
abbrev LocRun (contract : LocRib → LocOp → Prop) (myid : Option NodeId) :
    List LocOp → LocRib → List RibEvent → Prop :=
  Run locStep contract (locRibInit myid)

theorem LocRun.inv (h : LocRun LocContract myid ops rib es) : rib.Inv :=
  h.invariant (fun _ rib _ => rib.Inv) (locRibInit_inv myid)
    fun hi hc hs => (locStep_inv hi hc hs).1

/-- What an entry holds was there before, or was put. -/
theorem locStep_held (hi : rib.Inv) (hc : LocContract rib op)
    (h : locStep rib op = .ok (rib', es)) (id : NodeId) :
    ∀ p ∈ (rib'.entry id).held, p ∈ (rib.entry id).held ∨ op.put = some p := by
  -- an update of the entry of `id'`, which keeps its best LSA
  have hone : ∀ {rid : LocRibId} {id' : NodeId}, Updates rib rib' rid → rid.id = id' →
      rid.best = (rib.entry id').best →
      (∀ p ∈ rid.ptrs, p ∈ (rib.entry id').ptrs ∨ op.put = some p) →
      ∀ p ∈ (rib'.entry id).held, p ∈ (rib.entry id).held ∨ op.put = some p := by
    intro rid id' hup hid hbest hptrs p hp
    rw [hup.entry] at hp
    split_ifs at hp with he
    · rw [he, hid]
      rcases List.mem_append.mp hp with hp | hp
      · exact (hptrs p hp).imp_left (List.mem_append_left _)
      · exact Or.inl (List.mem_append_right _ (hbest ▸ hp))
    · exact Or.inl hp
  rcases (locStep_inv hi hc h).2 with ⟨lsa, lsas, rfl, _, hup, hperm⟩ |
    ⟨old, new, lsas, rest, rfl, _, hup, hold, hnew⟩ | ⟨lsa, lsas, rfl, _, hup, hperm⟩ |
    ⟨rfl, hspec⟩
  · refine hone hup (hi.entry lsa.lsa.id).2 rfl fun p hp => ?_
    rcases List.mem_cons.mp (hperm.mem_iff.mp hp) with rfl | hp
    · exact Or.inr rfl
    · exact Or.inl hp
  · refine hone hup (hi.entry old.lsa.id).2 rfl fun p hp => ?_
    rcases List.mem_cons.mp (hnew.mem_iff.mp hp) with rfl | hp
    · exact Or.inr rfl
    · exact Or.inl (hold.mem_iff.mpr (List.mem_cons_of_mem old hp))
  · exact hone hup (hi.entry lsa.lsa.id).2 rfl fun p hp =>
      Or.inl (hperm.mem_iff.mpr (List.mem_cons_of_mem lsa hp))
  · intro p hp
    refine Or.inl (List.mem_append_left _ ?_)
    rcases List.mem_append.mp hp with hp | hp
    · rwa [hspec.same.ptrs] at hp
    · rcases hspec.picked id with ⟨hn, _⟩ | ⟨q, hq, hb, _⟩
      · simp [hn] at hp
      · obtain rfl : p = q := by simpa [hb, eq_comm] using hp
        exact hq

/-- What holds of every LSA that is put holds of every LSA that is held. -/
theorem LocRun.forall_held {contract : LocRib → LocOp → Prop} {q : LsaPtr → Prop}
    (hw : ∀ rib op, contract rib op → LocContract rib op ∧ ∀ p, op.put = some p → q p)
    (h : LocRun contract myid ops rib es) : ∀ id, ∀ p ∈ (rib.entry id).held, q p := by
  have hinv : rib.Inv ∧ ∀ id, ∀ p ∈ (rib.entry id).held, q p :=
    h.invariant (fun _ rib _ => rib.Inv ∧ ∀ id, ∀ p ∈ (rib.entry id).held, q p)
      ⟨locRibInit_inv myid, fun id p hp => absurd hp List.not_mem_nil⟩
      fun hi hc hs => ⟨(locStep_inv hi.1 (hw _ _ hc).1 hs).1, fun id p hp =>
        (locStep_held hi.1 (hw _ _ hc).1 hs id p hp).elim (hi.2 id p) ((hw _ _ hc).2 p)⟩
  exact hinv.2

/-- The contract, with LSAs whose `ADV_PATH` has whole node ids. -/
def LocContractPaths (rib : LocRib) (op : LocOp) : Prop :=
  LocContract rib op ∧ ∀ lsa, op.put = some lsa → PathOk lsa.lsa

/-- What a listener from the start has been told, and what it holds. -/
structure Followed (rib : LocRib) (es : List RibEvent) : Prop where
  replays : Replays (fun _ => none) (es.map RibEvent.change) rib.view
  costs : ∀ e ∈ es, ∀ cost ∈ e.costs, cost < RIB_COST_INELIGIBLE

theorem locStep_followed (hi : rib.Inv) (hc : LocContract rib op)
    (h : locStep rib op = .ok (rib', es')) (hf : Followed rib es) : Followed rib' (es ++ es') := by
  have hquiet : rib'.view = rib.view → es' = [] → Followed rib' (es ++ es') := by
    rintro hv rfl
    rw [List.append_nil]
    exact ⟨hv ▸ hf.replays, hf.costs⟩
  rcases (locStep_inv hi hc h).2 with ⟨lsa, _, rfl, he, hup, _⟩ |
    ⟨old, new, _, _, rfl, he, hup, _⟩ | ⟨lsa, _, rfl, he, hup, _⟩ | ⟨rfl, hspec⟩
  · exact hquiet (hup.view (by rw [show LocRibId.id _ = lsa.lsa.id from (hi.entry _).2]; rfl)) he
  · exact hquiet (hup.view (by rw [show LocRibId.id _ = old.lsa.id from (hi.entry _).2]; rfl)) he
  · exact hquiet (hup.view (by rw [show LocRibId.id _ = lsa.lsa.id from (hi.entry _).2]; rfl)) he
  · refine ⟨?_, fun e hm => ?_⟩
    · rw [List.map_append]
      exact hf.replays.append hspec.replays
    · rcases List.mem_append.mp hm with hm | hm
      · exact hf.costs e hm
      · exact hspec.costs e hm

/-- **The listeners see a faithful change log.** Whatever is done to a local RIB within the
contract, replaying what a listener from the start was told gives the best pair of every id; no
cost it was told is `RIB_COST_INELIGIBLE`; and after a recomputation another one tells nothing. -/
theorem listeners_follow (h : LocRun LocContractPaths myid ops rib es) :
    Replays (fun _ => none) (es.map RibEvent.change) rib.view ∧
      (∀ e ∈ es, RIB_COST_INELIGIBLE ∉ e.costs) ∧
      ∀ rib' es', ops.getLast? = some .recompute → locStep rib .recompute = .ok (rib', es') →
        es' = [] := by
  have hrun : LocRun LocContract myid ops rib es := h.mono fun _ _ hc => hc.1
  have hf : rib.Inv ∧ Followed rib es := hrun.invariant (fun _ rib es => rib.Inv ∧ Followed rib es)
    ⟨locRibInit_inv myid, ⟨.nil, fun _ he => absurd he List.not_mem_nil⟩⟩
    fun hi hc hs => ⟨(locStep_inv hi.1 hc hs).1, locStep_followed hi.1 hc hs hi.2⟩
  refine ⟨hf.2.replays, fun e he hm => absurd (hf.2.costs e he _ hm) (lt_irrefl _), ?_⟩
  intro rib' es' hlast hs
  obtain ⟨ops, rfl⟩ := List.getLast?_eq_some_iff.mp hlast
  obtain ⟨rib₀, _, es₀, hr₀, _, hs₀, _⟩ := hrun.snoc_inv
  exact recompute_twice (LocRun.inv hr₀) hs₀ hs

/-! ## A small run -/

/-- An LSA of the all-zero id with an empty `ADV_PATH` and a signed version. -/
def versioned (addr : Nat) (version : UInt8) : LsaPtr where
  addr := addr
  lsa := {
    bytes := 0
    id := zeroId
    root := [.plain LSA_ATTR_TYPE_ADV_PATH false [] [],
      .plain LSA_ATTR_TYPE_VERSION true [] [0, 0, 0, 0, 0, 0, 0, version]] }

/-- A RIB with one entry, of the all-zero id. -/
def oneEntry (mark : Nat) (lsas : List LsaPtr) (best : Option LsaPtr) (bestcost : Nat) :
    LocRib where
  myid := none
  ids := [{
    id := zeroId
    highestVersionSeen := mark
    lsas := lsas.map fun lsa => ⟨lsa, 0⟩
    best := best
    bestcost := bestcost }]

/-- The first LSA of an id arrives and becomes its best one. -/
theorem listeners_follow_first :
    Replays (fun _ => none) ([RibEvent.lsaAdd (versioned 1 1) 0].map RibEvent.change)
      (oneEntry 1 [versioned 1 1] (some (versioned 1 1)) 0).view := by
  have h1 : locStep (locRibInit none) (.add (versioned 1 1)) =
      .ok (oneEntry 1 [versioned 1 1] none RIB_COST_INELIGIBLE, []) := rfl
  have h2 : locStep (oneEntry 1 [versioned 1 1] none RIB_COST_INELIGIBLE) .recompute =
      .ok (oneEntry 1 [versioned 1 1] (some (versioned 1 1)) 0,
        [.lsaAdd (versioned 1 1) 0]) := rfl
  have hpath : PathOk (versioned 1 1).lsa := ⟨.plain LSA_ATTR_TYPE_ADV_PATH false [] [], rfl, rfl⟩
  have hc1 : LocContractPaths (locRibInit none) (.add (versioned 1 1)) :=
    ⟨fun rid hm => absurd hm List.not_mem_nil, fun lsa hp => Option.some.inj hp ▸ hpath⟩
  have hc2 : LocContractPaths (oneEntry 1 [versioned 1 1] none RIB_COST_INELIGIBLE) .recompute :=
    ⟨trivial, fun lsa hp => absurd hp (by simp [LocOp.put])⟩
  exact (listeners_follow (.snoc (.snoc .nil hc1 h1) hc2 h2)).1

end Dvpn
