import Dvpn.Dijkstra
import Dvpn.Spf.Sift

/-!
# What holds in `spf_run` (`spf.c:128-186`)

The nodes and edges of a context are a network of `Dvpn.Dijkstra` (`SpfSound.network`), and a state
of `spf_run` has its labels, with the nodes of the heap as the queue (`SpfInv`).

* `popRoot_spec`: the root of the heap is settled.
* `relaxEdge_spec`: an edge is scanned, or two nodes with one id tie (`Tied`).
-/

namespace Dvpn

open Dijkstra (Inv Labels Least Walk)
open Heap (above above_lt Ordered)

variable {P E C : Type} {ctx : SpfContext P E C} {s s' : SpfState P} {source u v p : P}
  {e : SpfEdge P E} {scanned : Dijkstra.Arcs P} {settled : Set P}

/-- The arcs of a context. -/
def SpfContext.arcs (ctx : SpfContext P E C) : Dijkstra.Arcs P := fun p =>
  (ctx.node p).edges.map fun e => (e.to', e.cost)

/-- What keeps `spf_run` inside its arrays and its integers: edges lead to nodes of the context,
none of them costs less than nothing, one to the source costs something, and a shortest path that
goes on over another edge costs less than `INT_MAX`. -/
structure SpfSound (ctx : SpfContext P E C) (source : P) : Prop where
  count : ctx.numNodes = ctx.nodes.length
  source_mem : source ∈ ctx.nodes
  closed : ∀ u ∈ ctx.nodes, ∀ e ∈ (ctx.node u).edges, e.to' ∈ ctx.nodes
  nonneg : ∀ u ∈ ctx.nodes, ∀ e ∈ (ctx.node u).edges, 0 ≤ e.cost
  into_source : ∀ u ∈ ctx.nodes, ∀ e ∈ (ctx.node u).edges, e.to' = source → 0 < e.cost
  below : ∀ u c, Least ctx.arcs source u c → ∀ e ∈ (ctx.node u).edges, c + e.cost < INT_MAX

theorem mem_arcs {w : Int} :
    (v, w) ∈ ctx.arcs u ↔ ∃ e ∈ (ctx.node u).edges, e.to' = v ∧ e.cost = w := by
  unfold SpfContext.arcs
  rw [List.mem_map]
  exact exists_congr fun e => and_congr_right fun _ => Prod.mk.injEq .. ▸ Iff.rfl

theorem arc_of_edge (he : e ∈ (ctx.node u).edges) : (e.to', e.cost) ∈ ctx.arcs u :=
  mem_arcs.mpr ⟨e, he, rfl, rfl⟩

/-- The network of a context. -/
def SpfSound.network (h : SpfSound ctx source) : Dijkstra.Network P NodeId where
  nodes := {p | p ∈ ctx.nodes}
  arcs := ctx.arcs
  source := source
  inf := INT_MAX
  key p := (ctx.node p).id
  source_mem := h.source_mem
  closed u hu v w ha := by
    obtain ⟨e, he, rfl, -⟩ := mem_arcs.mp ha
    exact h.closed u hu e he
  nonneg u hu v w ha := by
    obtain ⟨e, he, -, rfl⟩ := mem_arcs.mp ha
    exact h.nonneg u hu e he
  into_source u hu w ha := by
    obtain ⟨e, he, hto, rfl⟩ := mem_arcs.mp ha
    exact h.into_source u hu e he hto
  inf_pos := by decide
  below u c v w hl ha := by
    obtain ⟨e, he, -, rfl⟩ := mem_arcs.mp ha
    exact h.below u c hl e he

/-- The labels in the fields of the nodes. -/
def SpfState.labels (s : SpfState P) : Labels P := ⟨s.cost, s.parent⟩

/-- The nodes in the heap. -/
def queue (s : SpfState P) : Set P := {p | InHeap s p}

/-- What holds in `spf_run`. -/
structure SpfInv (h : SpfSound ctx source) (scanned : Dijkstra.Arcs P) (settled : Set P)
    (s : SpfState P) : Prop where
  inv : Inv h.network scanned settled (queue s) s.labels
  slots : Slots s
  ordered : Ordered (slotCost s) s.heapsize
  outside : ∀ p ∈ ctx.nodes, ¬ InHeap s p → s.heapidx p = -1

/-! ## The heap in the array -/

theorem Slots.card_le (h : Slots s) {l : List P} (hl : ∀ p, InHeap s p → p ∈ l) :
    s.heapsize ≤ l.length := by
  classical
  choose f hf using h.filled
  have hinj : Function.Injective fun i : Fin s.heapsize => f i i.2 := by
    intro i j hij
    have hj : s.heap j = some (f i i.2) := (hf j j.2).trans (congrArg some hij.symm)
    exact Fin.ext (h.unique i.2 j.2 (hf i i.2) hj)
  have hsub : Finset.univ.image (fun i : Fin s.heapsize => f i i.2) ⊆ l.toFinset := by
    intro p hp
    obtain ⟨i, -, rfl⟩ := Finset.mem_image.mp hp
    exact List.mem_toFinset.mpr (hl _ ⟨i, i.2, hf i i.2⟩)
  calc s.heapsize = (Finset.univ.image fun i : Fin s.heapsize => f i i.2).card := by
        rw [Finset.card_image_of_injective _ hinj, Finset.card_univ, Fintype.card_fin]
    _ ≤ l.toFinset.card := Finset.card_le_card hsub
    _ ≤ l.length := List.toFinset_card_le l

namespace SpfInv

variable {h : SpfSound ctx source}

/-- **The heap fits its array.** -/
theorem heapsize_le (hi : SpfInv h scanned settled s) : (s.heapsize : Int) ≤ ctx.numNodes := by
  rw [h.count]
  exact_mod_cast hi.slots.card_le fun p hp => (hi.inv.queued_mem p hp).1

/-- The cost of an edge does not overflow. -/
theorem toInt_cost (hi : SpfInv h scanned settled s) (hu : u ∈ settled)
    (he : e ∈ (ctx.node u).edges) : toInt (s.cost u + e.cost) = s.cost u + e.cost := by
  obtain ⟨hmem, hk⟩ := hi.inv.settled_mem u hu
  have hpos := hi.inv.cost_nonneg hmem hk
  have hnonneg := h.nonneg u hmem e he
  have hbound := hi.inv.bounded u hu e.to' e.cost (arc_of_edge he)
  exact toInt_of_le (add_nonneg hpos hnonneg) hbound.le

/-- A state with other parents. -/
theorem with_parent {scanned' : Dijkstra.Arcs P} {parent : P → Option P}
    (hi : SpfInv h scanned settled s)
    (hinv : Inv h.network scanned' settled (queue s) ⟨s.cost, parent⟩) :
    SpfInv h scanned' settled { s with parent := parent } :=
  ⟨hinv, ⟨hi.slots.filled, hi.slots.idx⟩, hi.ordered, hi.outside⟩

end SpfInv

/-! ## The root -/

variable [DecidableEq P] {h : SpfSound ctx source} {last : P}

/-- The root `u` left the heap, and `last` took its place. -/
def lastToRoot (s : SpfState P) (u last : P) : SpfState P :=
  { s with
    heap := Function.update s.heap 0 (some last)
    heapidx := Function.update (Function.update s.heapidx u (-1)) last 0
    heapsize := s.heapsize - 1 }

section LastToRoot

variable (hs : Slots s) (hsize : 1 < s.heapsize) (hu : s.heap 0 = some u)
  (hlast : s.heap (s.heapsize - 1) = some last)
include hs hsize hu hlast

omit [DecidableEq P] in
theorem last_ne_root : last ≠ u := by
  rintro rfl
  have hzero := hs.unique (by omega) (by omega) hlast hu
  omega

theorem inHeap_lastToRoot : InHeap (lastToRoot s u last) p ↔ InHeap s p ∧ p ≠ u := by
  unfold InHeap lastToRoot
  dsimp only
  constructor
  · rintro ⟨i, hi, hp⟩
    rcases eq_or_ne i 0 with rfl | hne
    · rw [Function.update_self] at hp
      obtain rfl := Option.some.inj hp
      exact ⟨⟨_, by omega, hlast⟩, last_ne_root hs hsize hu hlast⟩
    · rw [Function.update_of_ne hne] at hp
      refine ⟨⟨i, by omega, hp⟩, fun he => hne ?_⟩
      exact hs.unique (by omega) (by omega) hp (he ▸ hu)
  · rintro ⟨⟨i, hi, hp⟩, hpu⟩
    have hzero : i ≠ 0 := by
      rintro rfl
      exact hpu (Option.some.inj (hp.symm.trans hu))
    by_cases hil : i = s.heapsize - 1
    · subst hil
      obtain rfl := Option.some.inj (hp.symm.trans hlast)
      exact ⟨0, by omega, Function.update_self ..⟩
    · exact ⟨i, by omega, (Function.update_of_ne hzero _ _).trans hp⟩

theorem slots_lastToRoot : Slots (lastToRoot s u last) := by
  constructor
  · intro i hlt
    dsimp only [lastToRoot] at hlt ⊢
    rcases eq_or_ne i 0 with rfl | hne
    · exact ⟨last, Function.update_self ..⟩
    · obtain ⟨q, hq⟩ := hs.filled i (by omega)
      exact ⟨q, (Function.update_of_ne hne _ _).trans hq⟩
  · intro i hlt q hq
    dsimp only [lastToRoot] at hlt hq ⊢
    rcases eq_or_ne i 0 with rfl | hne
    · rw [Function.update_self] at hq
      obtain rfl := Option.some.inj hq
      rw [Function.update_self]
      rfl
    · rw [Function.update_of_ne hne] at hq
      have hql : q ≠ last := by
        rintro rfl
        have hsame := hs.unique (by omega) (by omega) hq hlast
        omega
      have hqu : q ≠ u := by
        rintro rfl
        exact hne (hs.unique (by omega) (by omega) hq hu)
      rw [Function.update_of_ne hql, Function.update_of_ne hqu]
      exact hs.idx i (by omega) q hq

omit hs hsize hu hlast in
theorem down_lastToRoot (ho : Ordered (slotCost s) s.heapsize) :
    Heap.Down (slotCost (lastToRoot s u last)) (lastToRoot s u last).heapsize 0 := by
  have hcost : ∀ i ≠ 0, slotCost (lastToRoot s u last) i = slotCost s i := by
    intro i hne
    unfold slotCost lastToRoot
    dsimp only
    rw [Function.update_of_ne hne]
  constructor
  · intro j hpos hj hne
    rw [hcost _ hne, hcost _ hpos.ne']
    exact ho j hpos (Nat.lt_of_lt_of_le hj (Nat.sub_le _ _))
  · exact fun hlt => absurd hlt (lt_irrefl 0)

theorem heapidx_lastToRoot (hp : ¬ InHeap (lastToRoot s u last) p)
    (hout : ¬ InHeap s p → s.heapidx p = -1) : (lastToRoot s u last).heapidx p = -1 := by
  have hmem := @inHeap_lastToRoot _ _ _ p _ _ hs hsize hu hlast
  have hpl : p ≠ last := by
    rintro rfl
    exact hp (hmem.mpr ⟨⟨_, by omega, hlast⟩, last_ne_root hs hsize hu hlast⟩)
  unfold lastToRoot
  dsimp only
  rw [Function.update_of_ne hpl]
  by_cases he : p = u
  · rw [he, Function.update_self]
  · rw [Function.update_of_ne he]
    exact hout fun hin => hp (hmem.mpr ⟨hin, he⟩)

end LastToRoot

/-- The one node of a heap leaves it. -/
theorem popRoot_one (hsize : s.heapsize = 1) (hu : s.heap 0 = some u)
    (hout : ∀ p ∈ ctx.nodes, ¬ InHeap s p → s.heapidx p = -1) :
    ∃ s', popRoot s = .ok (u, s') ∧ s'.labels = s.labels ∧ queue s' = queue s \ {u} ∧ Slots s' ∧
      Ordered (slotCost s') s'.heapsize ∧ ∀ p ∈ ctx.nodes, ¬ InHeap s' p → s'.heapidx p = -1 := by
  have hsingle : ∀ {q}, InHeap s q ↔ q = u := by
    intro q
    constructor
    · rintro ⟨i, hlt, hq⟩
      obtain rfl : i = 0 := by omega
      exact Option.some.inj (hq.symm.trans hu)
    · rintro rfl
      exact ⟨0, by omega, hu⟩
  set t : SpfState P := { s with
    heapidx := Function.update s.heapidx u (-1), heapsize := s.heapsize - 1 } with ht
  have hzero : t.heapsize = 0 := by
    rw [ht]
    exact Nat.sub_eq_zero_of_le hsize.le
  have hempty : ∀ i, ¬ i < t.heapsize := fun i hlt => Nat.not_lt_zero i (hzero ▸ hlt)
  refine ⟨t, ?_, rfl, ?_, ⟨fun i hlt => absurd hlt (hempty i), fun i hlt => absurd hlt (hempty i)⟩,
    fun j _ hlt => absurd hlt (hempty j), ?_⟩
  · unfold popRoot
    rw [heapAt_eq hu, ok_bind]
    exact if_pos hzero
  · ext q
    exact iff_of_false (fun ⟨i, hlt, _⟩ => hempty i hlt) fun hq => hq.2 (hsingle.mp hq.1)
  · intro q hq _
    rw [ht]
    dsimp only
    by_cases he : q = u
    · rw [he, Function.update_self]
    · rw [Function.update_of_ne he]
      exact hout q hq fun hin => he (hsingle.mp hin)

/-- **`push_down`** starts with the last node in the place of the root. -/
theorem pushDown_lastToRoot (hs : Slots s) (ho : Ordered (slotCost s) s.heapsize)
    (hsize : 1 < s.heapsize) (hu : s.heap 0 = some u) :
    ∃ last s', s.heap (s.heapsize - 1) = some last ∧ popRoot s = .ok (u, s') ∧
      pushDown (lastToRoot s u last) (s.heapsize - 1) 0 = .ok s' ∧
      Shuffled (lastToRoot s u last) s' ∧ Ordered (slotCost s') s'.heapsize := by
  obtain ⟨last, hlast⟩ := hs.filled (s.heapsize - 1) (by omega)
  obtain ⟨s', hs', hsh, hordered⟩ := pushDown_spec (slots_lastToRoot hs hsize hu hlast)
    (Nat.sub_pos_of_lt hsize) (down_lastToRoot ho)
  refine ⟨last, s', hlast, ?_, hs', hsh, hordered⟩
  have hheapAt : heapAt ({ s with
      heapidx := Function.update s.heapidx u (-1), heapsize := s.heapsize - 1 })
      (s.heapsize - 1) = .ok last := heapAt_eq hlast
  have hne : s.heapsize - 1 ≠ 0 := by omega
  unfold popRoot
  rw [heapAt_eq hu, ok_bind]
  dsimp only
  rw [if_neg hne, hheapAt, ok_bind]
  change (do return (u, ← pushDown (lastToRoot s u last) (s.heapsize - 1) 0)) = _
  rw [show s.heapsize - 1 = (lastToRoot s u last).heapsize from rfl, hs']
  rfl

/-- The root leaves a heap of more nodes. -/
theorem popRoot_more (hs : Slots s) (ho : Ordered (slotCost s) s.heapsize) (hsize : 1 < s.heapsize)
    (hu : s.heap 0 = some u) (hout : ∀ p ∈ ctx.nodes, ¬ InHeap s p → s.heapidx p = -1) :
    ∃ s', popRoot s = .ok (u, s') ∧ s'.labels = s.labels ∧ queue s' = queue s \ {u} ∧ Slots s' ∧
      Ordered (slotCost s') s'.heapsize ∧ ∀ p ∈ ctx.nodes, ¬ InHeap s' p → s'.heapidx p = -1 := by
  obtain ⟨last, s', hlast, hpop, -, hsh, hordered⟩ := pushDown_lastToRoot hs ho hsize hu
  refine ⟨s', hpop, ?_, ?_, hsh.slots, hordered, ?_⟩
  · unfold SpfState.labels
    rw [hsh.cost, hsh.parent]
    rfl
  · ext q
    exact hsh.inHeap.trans (inHeap_lastToRoot hs hsize hu hlast)
  · intro q hq hnot
    have hnot' := hsh.inHeap.not.mp hnot
    rw [hsh.outside q hnot']
    exact heapidx_lastToRoot hs hsize hu hlast hnot' (hout q hq)

/-- **The root of the heap is settled.** -/
theorem popRoot_spec (hi : SpfInv h scanned settled s)
    (hfull : ∀ x ∈ settled, scanned x = ctx.arcs x) (hsize : s.heapsize ≠ 0) :
    ∃ u s', popRoot s = .ok (u, s') ∧ u ∉ settled ∧ SpfInv h scanned (insert u settled) s' ∧
      ∀ x ∈ insert u settled, s'.cost x ≤ s'.cost u := by
  have hpos : 0 < s.heapsize := Nat.pos_of_ne_zero hsize
  obtain ⟨u, hu⟩ := hi.slots.filled 0 hpos
  have hin : InHeap s u := ⟨0, hpos, hu⟩
  have hmin : ∀ y ∈ queue s, s.labels.cost u ≤ s.labels.cost y := by
    rintro y ⟨i, hy, hy'⟩
    have hle := hi.ordered.root_le hy
    rwa [slotCost_eq hu, slotCost_eq hy'] at hle
  obtain ⟨s', hs', hlabels, hqueue, hslots, hordered, hout⟩ :
      ∃ s', popRoot s = .ok (u, s') ∧ s'.labels = s.labels ∧ queue s' = queue s \ {u} ∧ Slots s' ∧
        Ordered (slotCost s') s'.heapsize ∧
          ∀ p ∈ ctx.nodes, ¬ InHeap s' p → s'.heapidx p = -1 := by
    by_cases hone : s.heapsize = 1
    · exact popRoot_one hone hu hi.outside
    · exact popRoot_more hi.slots hi.ordered (by omega) hu hi.outside
  refine ⟨u, s', hs', hi.inv.disjoint u hin, ⟨?_, hslots, hordered, hout⟩, ?_⟩
  · rw [hqueue, hlabels]
    exact hi.inv.settle hfull hin hmin
  · have hcost : s'.cost = s.cost := congrArg Labels.cost hlabels
    rw [hcost]
    rintro x (rfl | hx)
    · exact le_rfl
    · exact hi.inv.front x hx u hin

/-! ## An edge -/

/-- The cost of `v` comes from `p` and from `u`, and these have one id. -/
def Tied (ctx : SpfContext P E C) (scanned : Dijkstra.Arcs P) (s : SpfState P) (u : P)
    (e : SpfEdge P E) : Prop :=
  ∃ p w, s.parent e.to' = some p ∧ (e.to', w) ∈ scanned p ∧ s.cost p + w = s.cost e.to' ∧
    s.cost u + e.cost = s.cost e.to' ∧ (ctx.node p).id = (ctx.node u).id

/-- The node `v` is reached from `u`. -/
def relabel (s : SpfState P) (u v : P) (c : Int) : SpfState P :=
  { s with parent := Function.update s.parent v (some u), cost := Function.update s.cost v c }

/-- **A node of the heap that got cheaper is pulled up.** -/
theorem pullUpNode_spec {i : Nat} {c : Int} (hs : Slots s) (hi : i < s.heapsize)
    (hv : s.heap i = some v) (hup : Heap.Up (slotCost s) s.heapsize i) (hc : c ≤ s.cost v) :
    ∃ s', pullUpNode (relabel s u v c) v = .ok s' ∧ Shuffled (relabel s u v c) s' ∧
      Ordered (slotCost s') s'.heapsize := by
  have hs' : Slots (relabel s u v c) := ⟨hs.filled, hs.idx⟩
  have hup' : Heap.Up (slotCost (relabel s u v c)) s.heapsize i := by
    refine hup.lower ?_ fun j hj hne => ?_
    · rw [slotCost_eq hv, slotCost_eq (show (relabel s u v c).heap i = some v from hv)]
      exact (Function.update_self v c s.cost).trans_le hc
    · obtain ⟨q, hq⟩ := hs.filled j hj
      have hqv : q ≠ v := fun he => hne (hs.unique hj hi hq (he ▸ hv))
      rw [slotCost_eq hq, slotCost_eq (show (relabel s u v c).heap j = some q from hq)]
      exact Function.update_of_ne hqv c s.cost
  unfold pullUpNode
  rw [hs'.idx i hi v hv]
  exact pullUp_spec hs' hi hup'

/-- The node `v` is at the end of the heap. -/
def pushed (s : SpfState P) (v : P) : SpfState P :=
  { s with
    heapidx := Function.update s.heapidx v s.heapsize
    heap := Function.update s.heap s.heapsize (some v)
    heapsize := s.heapsize + 1 }

theorem inHeap_pushed : InHeap (pushed s v) p ↔ p = v ∨ InHeap s p := by
  unfold InHeap
  dsimp only [pushed]
  constructor
  · rintro ⟨i, hi, hp⟩
    by_cases he : i = s.heapsize
    · rw [he, Function.update_self] at hp
      exact Or.inl (Option.some.inj hp).symm
    · rw [Function.update_of_ne he] at hp
      exact Or.inr ⟨i, by omega, hp⟩
  · rintro (rfl | ⟨i, hi, hp⟩)
    · exact ⟨s.heapsize, by omega, Function.update_self ..⟩
    · exact ⟨i, by omega, (Function.update_of_ne hi.ne _ _).trans hp⟩

theorem slots_pushed (hs : Slots s) (hout : ¬ InHeap s v) : Slots (pushed s v) := by
  constructor
  · intro i hi
    dsimp only [pushed] at hi ⊢
    by_cases he : i = s.heapsize
    · rw [he, Function.update_self]
      exact ⟨v, rfl⟩
    · rw [Function.update_of_ne he]
      exact hs.filled i (by omega)
  · intro i hi p hp
    dsimp only [pushed] at hi hp ⊢
    by_cases he : i = s.heapsize
    · rw [he, Function.update_self] at hp
      rw [← Option.some.inj hp, Function.update_self, he]
    · rw [Function.update_of_ne he] at hp
      have hpv : p ≠ v := fun hpv => hout ⟨i, by omega, hpv ▸ hp⟩
      rw [Function.update_of_ne hpv]
      exact hs.idx i (by omega) p hp

theorem up_pushed (ho : Ordered (slotCost s) s.heapsize) :
    Heap.Up (slotCost (pushed s v)) (pushed s v).heapsize s.heapsize := by
  refine Heap.Up.last fun j hpos hj => ?_
  have hcost : ∀ i < s.heapsize, slotCost (pushed s v) i = slotCost s i := by
    intro i hi
    unfold slotCost
    dsimp only [pushed]
    rw [Function.update_of_ne hi.ne]
  rw [hcost _ ((above_lt hpos).trans hj), hcost _ hj]
  exact ho j hpos hj

/-- **There is room for a node that is not in the heap.** -/
theorem pushBack_eq (hi : SpfInv h scanned settled s) (hv : v ∈ ctx.nodes) (hout : ¬ InHeap s v) :
    pushBack ctx s v = .ok (pushed s v) := by
  have hroom : s.heapsize + 1 ≤ ctx.nodes.length := by
    refine (slots_pushed hi.slots hout).card_le fun p hp => ?_
    rcases inHeap_pushed.mp hp with rfl | hp
    · exact hv
    · exact (hi.inv.queued_mem p hp).1
  refine if_pos ?_
  rw [h.count]
  exact_mod_cast hroom

/-- **A node that is not settled gets a slot**: it is in the heap, or it comes to its end. `t` is
the state before the label is set. -/
theorem makeRoom_spec (hi : SpfInv h scanned settled s) (hv : v ∈ ctx.nodes) (hns : v ∉ settled) :
    ∃ t i, (if s.cost v = INT_MAX then pushBack ctx s v else pure s) = .ok t ∧
      t.labels = s.labels ∧ Slots t ∧ i < t.heapsize ∧ t.heap i = some v ∧
      Heap.Up (slotCost t) t.heapsize i ∧ (∀ p, InHeap t p ↔ p = v ∨ InHeap s p) ∧
      ∀ p ≠ v, t.heapidx p = s.heapidx p := by
  by_cases hinf : s.cost v = INT_MAX
  · have hout : ¬ InHeap s v := fun hq => (hi.inv.queued_mem _ hq).2 hinf
    refine ⟨pushed s v, s.heapsize, ?_, rfl, slots_pushed hi.slots hout, Nat.lt_succ_self _,
      Function.update_self .., up_pushed hi.ordered, fun p => inHeap_pushed,
      fun p hp => Function.update_of_ne hp ..⟩
    rw [if_pos hinf]
    exact pushBack_eq hi hv hout
  · have hq : InHeap s v := (hi.inv.known _ hv hinf).resolve_right hns
    obtain ⟨i, hlti, hti⟩ := hq
    refine ⟨s, i, if_neg hinf, rfl, hi.slots, hlti, hti, hi.ordered.up, fun p => ?_,
      fun p _ => rfl⟩
    refine ⟨Or.inr, ?_⟩
    rintro (rfl | hp)
    · exact ⟨i, hlti, hti⟩
    · exact hp

section RelaxEdge

variable (hi : SpfInv h scanned settled s) (hu : u ∈ settled)
  (htop : ∀ x ∈ settled, s.cost x ≤ s.cost u) (he : e ∈ (ctx.node u).edges)
include hi hu htop he

/-- **An edge that makes its end cheaper**: the end is in the heap, or it comes there. -/
theorem relaxEdge_cheaper (hlt : s.cost u + e.cost < s.cost e.to') :
    ∃ s', relaxEdge ctx u s e = .ok s' ∧
      SpfInv h (Dijkstra.scan scanned u e.to' e.cost) settled s' ∧
      ∀ x ∈ settled, s'.cost x = s.cost x := by
  have harc := arc_of_edge he
  obtain ⟨hns, hsource⟩ := hi.inv.cheaper hu htop harc hlt
  obtain ⟨hmem, hk⟩ := hi.inv.settled_mem u hu
  have hv := h.closed u hmem e he
  have hinv := hi.inv.relax hu htop harc
  have hlt' : s.labels.cost u + e.cost < s.labels.cost e.to' := hlt
  unfold Dijkstra.relax Dijkstra.enqueue at hinv
  rw [if_pos hlt', if_pos hlt'] at hinv
  obtain ⟨t, i, ht, hlabels, hslots, hlti, hti, hup, hin, hidx⟩ := makeRoom_spec hi hv hns
  have hcost : t.cost = s.cost := congrArg Labels.cost hlabels
  have hparent : t.parent = s.parent := congrArg Labels.parent hlabels
  have hle : s.cost u + e.cost ≤ t.cost e.to' := hlt.le.trans_eq (congrFun hcost.symm _)
  obtain ⟨s', hs', hsh, hordered⟩ := pullUpNode_spec (u := u) hslots hlti hti hup hle
  have hmem' : ∀ p, InHeap s' p ↔ p = e.to' ∨ InHeap s p := fun p => hsh.inHeap.trans (hin p)
  refine ⟨s', ?_, ⟨?_, hsh.slots, hordered, ?_⟩, ?_⟩
  · unfold relaxEdge
    dsimp only
    rw [hi.toInt_cost hu he, if_pos hlt]
    by_cases hinf : s.cost e.to' = INT_MAX
    · rw [if_pos hinf] at ht ⊢
      rw [ht]
      exact hs'
    · rw [if_neg hinf] at ht ⊢
      rw [ht]
      exact hs'
  · have hqueue : queue s' = insert e.to' (queue s) := Set.ext hmem'
    have hvia : s'.labels = s.labels.via u e.to' e.cost := by
      unfold SpfState.labels Labels.via
      rw [hsh.cost, hsh.parent]
      dsimp only [relabel]
      rw [hcost, hparent]
    rw [hqueue, hvia]
    exact hinv
  · intro p hp hnot
    have hnot' := (hmem' p).not.mp hnot
    rw [hsh.outside p fun hq => hnot' ((hin p).mp hq)]
    exact (hidx p fun hpe => hnot' (Or.inl hpe)).trans
      (hi.outside p hp fun hq => hnot' (Or.inr hq))
  · intro x hx
    have hne : x ≠ e.to' := fun hxe => hns (hxe ▸ hx)
    rw [hsh.cost]
    dsimp only [relabel]
    rw [Function.update_of_ne hne, hcost]

/-- **An edge is scanned**, or two nodes with one id tie. -/
theorem relaxEdge_spec :
    (∃ s', relaxEdge ctx u s e = .ok s' ∧
      SpfInv h (Dijkstra.scan scanned u e.to' e.cost) settled s' ∧
      ∀ x ∈ settled, s'.cost x = s.cost x) ∨
    relaxEdge ctx u s e = .error .spfNl ∧ Tied ctx scanned s u e := by
  by_cases hlt : s.cost u + e.cost < s.cost e.to'
  · exact Or.inl (relaxEdge_cheaper hi hu htop he hlt)
  have harc := arc_of_edge he
  have hinv := hi.inv.relax hu htop harc
  have hge : ¬ s.labels.cost u + e.cost < s.labels.cost e.to' := hlt
  unfold Dijkstra.relax Dijkstra.enqueue at hinv
  rw [if_neg hge, if_neg hge] at hinv
  unfold relaxEdge
  dsimp only
  rw [hi.toInt_cost hu he, if_neg hlt]
  by_cases heq : s.cost u + e.cost = s.cost e.to'
  · obtain ⟨hne, hsource⟩ := hi.inv.tight hu harc heq
    obtain ⟨hmem, -⟩ := hi.inv.settled_mem u hu
    obtain ⟨p, hp, ⟨w, ha, htight⟩, -⟩ := hi.inv.parent _ (h.closed u hmem e he) hne hsource
    have hp' : s.parent e.to' = some p := hp
    rw [if_pos heq, hp']
    unfold nl
    dsimp only
    by_cases hid : (ctx.node p).id = (ctx.node u).id
    · refine Or.inr ⟨?_, p, w, hp, ha, htight, heq, hid⟩
      rw [if_pos ((memcmp_ids_zero _ _).mpr hid.symm)]
      rfl
    · refine Or.inl ?_
      rw [if_neg fun hz => hid ((memcmp_ids_zero _ _).mp hz).symm, ok_bind]
      by_cases hless : (ctx.node u).id < (ctx.node p).id
      · have hkey : ∃ q, s.labels.parent e.to' = some q ∧ h.network.key u < h.network.key q :=
          ⟨p, hp, hless⟩
        rw [if_pos ⟨heq, hkey⟩] at hinv
        rw [decide_eq_true ((memcmp_ids_neg _ _).mpr hless), if_pos rfl]
        exact ⟨_, rfl, hi.with_parent hinv, fun _ _ => rfl⟩
      · have hkey : ¬ ∃ q, s.labels.parent e.to' = some q ∧ h.network.key u < h.network.key q := by
          rintro ⟨q, hq, hlt'⟩
          obtain rfl := Option.some.inj (hp.symm.trans hq)
          exact hless hlt'
        rw [if_neg fun hc => hkey hc.2] at hinv
        rw [decide_eq_false fun hneg => hless ((memcmp_ids_neg _ _).mp hneg)]
        exact ⟨s, rfl, hi.with_parent hinv, fun _ _ => rfl⟩
  · have heq' : ¬ s.labels.cost u + e.cost = s.labels.cost e.to' := heq
    rw [if_neg fun hc => heq' hc.1] at hinv
    rw [if_neg heq]
    exact Or.inl ⟨s, rfl, hi.with_parent hinv, fun _ _ => rfl⟩

end RelaxEdge

end Dvpn
