import Dvpn.Spf.Simple

/-!
# The heap at every iteration of `spf_run` (`spf.c:59-186`)

`SpfAt ctx fields source pt`: a run of `spf_run` comes to the point `pt`, which is the test of the
outer loop or that of the inner one. Nothing is assumed of the node ids, so a run may end in `nl`,
which aborts when two nodes with one id tie.

* `spfAt_inv`: what holds at every point.
* `spfLoop_at`: the points that the outer loop comes to are such points, and it ends without a
  crash but that of `nl`.
* `spf_run_heap`: the heap at every point, and the calls of `push_down` and `pull_up` from there.
-/

namespace Dvpn

open Heap (above Ordered)

variable {P E C : Type}

/-- Where `spf_run` is, with the edges that are still to be scanned in the inner loop. -/
inductive SpfPoint (P E : Type) where
  | outer (s : SpfState P)
  | inner (from' : P) (edges : List (SpfEdge P E)) (s : SpfState P)

/-- The state at a point. -/
def SpfPoint.state : SpfPoint P E → SpfState P
  | outer s => s
  | inner _ _ s => s

/-- The points of a run. -/
inductive SpfAt [DecidableEq P] (ctx : SpfContext P E C) (fields : SpfFields P) (source : P) :
    SpfPoint P E → Prop
  | start {s : SpfState P} : spfStart ctx fields source = .ok s →
      SpfAt ctx fields source (.outer s)
  | pop {s s' : SpfState P} {from' : P} : SpfAt ctx fields source (.outer s) → s.heapsize ≠ 0 →
      popRoot s = .ok (from', s') →
      SpfAt ctx fields source (.inner from' (ctx.node from').edges s')
  | edge {s s' : SpfState P} {from' : P} {edge : SpfEdge P E} {edges : List (SpfEdge P E)} :
      SpfAt ctx fields source (.inner from' (edge :: edges) s) →
      relaxEdge ctx from' s edge = .ok s' → SpfAt ctx fields source (.inner from' edges s')
  | next {s : SpfState P} {from' : P} : SpfAt ctx fields source (.inner from' [] s) →
      SpfAt ctx fields source (.outer s)

/-- The heap fits its array, every slot holds a node that knows it, the other nodes know that they
have no slot, and no slot costs more than the two below. -/
structure HeapOk (ctx : SpfContext P E C) (s : SpfState P) : Prop where
  size : (s.heapsize : Int) ≤ ctx.numNodes
  slots : ∀ i < s.heapsize, ∃ p ∈ ctx.nodes, s.heap i = some p ∧ s.heapidx p = i
  outside : ∀ p ∈ ctx.nodes, ¬ InHeap s p → s.heapidx p = -1
  ordered : ∀ i j, j = 2 * i + 1 ∨ j = 2 * i + 2 → j < s.heapsize → slotCost s i ≤ slotCost s j

variable [DecidableEq P]

/-- The root `u` leaves the heap, and `push_down` only permutes the slots of what is left. -/
structure PushesDown (s : SpfState P) (u last : P) (s' : SpfState P) : Prop where
  root : s.heap 0 = some u
  atEnd : s.heap (s.heapsize - 1) = some last
  push : pushDown (lastToRoot s u last) (s.heapsize - 1) 0 = .ok s'
  shuffled : Shuffled (lastToRoot s u last) s'
  pop : popRoot s = .ok (u, s')

/-- The end of the edge has the slot `i` of `t`, and `pull_up` of this slot only permutes the
slots. -/
structure PullsUp (ctx : SpfContext P E C) (from' : P) (s : SpfState P) (edge : SpfEdge P E)
    (t : SpfState P) (i : Nat) (s' : SpfState P) : Prop where
  room : (if s.cost edge.to' = INT_MAX then pushBack ctx s edge.to' else pure s) = .ok t
  lt : i < t.heapsize
  slot : t.heap i = some edge.to'
  idx : t.heapidx edge.to' = i
  pull : pullUp (relabel t from' edge.to' (s.cost from' + edge.cost)) i = .ok s'
  shuffled : Shuffled (relabel t from' edge.to' (s.cost from' + edge.cost)) s'
  relax : relaxEdge ctx from' s edge = .ok s'

/-- What is called from a point: `push_down` when the root leaves other nodes in the heap, and
`pull_up` when an edge makes its end cheaper. -/
def SpfPoint.Sifts (ctx : SpfContext P E C) : SpfPoint P E → Prop
  | outer s => 1 < s.heapsize → ∃ u last s', PushesDown s u last s'
  | inner _ [] _ => True
  | inner from' (edge :: _) s => s.cost from' + edge.cost < s.cost edge.to' →
      ∃ t i s', PullsUp ctx from' s edge t i s'

/-! ## What holds at a point -/

variable {ctx : SpfContext P E C} {fields : SpfFields P} {source u : P} {s s' : SpfState P}
  {e : SpfEdge P E} {es : List (SpfEdge P E)} {pt : SpfPoint P E} {h : SpfSound ctx source}

/-- The edges `es` of the settled node `u` are still to be scanned. -/
structure Scanning (h : SpfSound ctx source) (scanned : Dijkstra.Arcs P) (settled : Set P) (u : P)
    (es : List (SpfEdge P E)) (s : SpfState P) : Prop where
  inv : SpfInv h scanned settled s
  mem : u ∈ settled
  top : ∀ x ∈ settled, s.cost x ≤ s.cost u
  sub : ∀ e ∈ es, e ∈ (ctx.node u).edges
  rest : scanned u ++ es.map (fun e => (e.to', e.cost)) = ctx.arcs u
  full : ∀ x ∈ settled, x ≠ u → scanned x = ctx.arcs x

/-- What holds at a point. -/
def SpfPoint.Inv (h : SpfSound ctx source) : SpfPoint P E → Prop
  | outer s => ∃ scanned settled, SpfInv h scanned settled s ∧ ∀ x ∈ settled, scanned x = ctx.arcs x
  | inner u es s => ∃ scanned settled, Scanning h scanned settled u es s

/-- The root is settled, and all of its edges are to be scanned. -/
theorem scanning_pop {scanned : Dijkstra.Arcs P} {settled : Set P}
    (hi : SpfInv h scanned settled s) (hfull : ∀ x ∈ settled, scanned x = ctx.arcs x)
    (hsize : s.heapsize ≠ 0) (hpop : popRoot s = .ok (u, s')) :
    Scanning h scanned (insert u settled) u (ctx.node u).edges s' := by
  obtain ⟨u', t, ht, hu, hi', htop⟩ := popRoot_spec hi hfull hsize
  obtain ⟨rfl, rfl⟩ := Prod.mk.inj (Except.ok.inj (ht.symm.trans hpop))
  have hnil : scanned u' = [] := by
    by_contra hne
    exact hu (hi.inv.scanned_settled u' hne)
  refine ⟨hi', Or.inl rfl, htop, fun e he => he, by rw [hnil]; rfl, fun x hx hne => ?_⟩
  exact hfull x (hx.resolve_left hne)

/-- **An edge is scanned**, or `nl` aborts. -/
theorem Scanning.edge {scanned : Dijkstra.Arcs P} {settled : Set P}
    (hs : Scanning h scanned settled u (e :: es) s) :
    (∃ s', relaxEdge ctx u s e = .ok s' ∧
        Scanning h (Dijkstra.scan scanned u e.to' e.cost) settled u es s') ∨
      relaxEdge ctx u s e = .error .spfNl := by
  have he := hs.sub e List.mem_cons_self
  rcases relaxEdge_spec hs.inv hs.mem hs.top he with ⟨t, ht, hi', hcost⟩ | ⟨herr, -⟩
  · refine Or.inl ⟨t, ht, hi', hs.mem, fun x hx => ?_,
      fun e' he' => hs.sub e' (List.mem_cons_of_mem e he'), ?_, fun x hx hne => ?_⟩
    · rw [hcost x hx, hcost u hs.mem]
      exact hs.top x hx
    · unfold Dijkstra.scan
      rw [Function.update_self, List.append_assoc]
      exact hs.rest
    · unfold Dijkstra.scan
      rw [Function.update_of_ne hne]
      exact hs.full x hx hne
  · exact Or.inr herr

/-- **What holds at every point.** -/
theorem spfAt_inv (h : SpfSound ctx source) (hat : SpfAt ctx fields source pt) : pt.Inv h := by
  induction hat with
  | start hstart =>
    obtain ⟨s, hs, hi⟩ := spfStart_spec h fields
    obtain rfl := Except.ok.inj (hs.symm.trans hstart)
    exact ⟨_, _, hi, fun x hx => absurd hx (Finset.notMem_empty x)⟩
  | pop _ hsize hpop ih =>
    obtain ⟨scanned, settled, hi, hfull⟩ := ih
    exact ⟨_, _, scanning_pop hi hfull hsize hpop⟩
  | edge _ hrun ih =>
    obtain ⟨scanned, settled, hs⟩ := ih
    rcases hs.edge with ⟨t, ht, hs'⟩ | herr
    · obtain rfl := Except.ok.inj (ht.symm.trans hrun)
      exact ⟨_, _, hs'⟩
    · rw [herr] at hrun
      cases hrun
  | @next s u _ ih =>
    obtain ⟨scanned, settled, hs⟩ := ih
    refine ⟨scanned, settled, hs.inv, fun x hx => ?_⟩
    by_cases hxu : x = u
    · have hrest := hs.rest
      rwa [List.map_nil, List.append_nil, ← hxu] at hrest
    · exact hs.full x hx hxu

omit [DecidableEq P] in
theorem SpfPoint.Inv.heap (hi : pt.Inv h) :
    ∃ scanned settled, SpfInv h scanned settled pt.state := by
  cases pt with
  | outer s =>
    obtain ⟨scanned, settled, hi, -⟩ := hi
    exact ⟨scanned, settled, hi⟩
  | inner u es s =>
    obtain ⟨scanned, settled, hs⟩ := hi
    exact ⟨scanned, settled, hs.inv⟩

omit [DecidableEq P] in
theorem SpfInv.heapOk {scanned : Dijkstra.Arcs P} {settled : Set P}
    (hi : SpfInv h scanned settled s) : HeapOk ctx s where
  size := hi.heapsize_le
  slots i hlt := by
    obtain ⟨p, hp⟩ := hi.slots.filled i hlt
    exact ⟨p, (hi.inv.queued_mem p ⟨i, hlt, hp⟩).1, hp, hi.slots.idx i hlt p hp⟩
  outside := hi.outside
  ordered i j hj hlt := by
    have habove : above j = i := by
      unfold above
      omega
    exact habove ▸ hi.ordered j (by omega) hlt

/-- **The calls** of `push_down` and `pull_up`. -/
theorem SpfPoint.Inv.sifts (hi : pt.Inv h) : pt.Sifts ctx := by
  cases pt with
  | outer s =>
    obtain ⟨scanned, settled, hi, -⟩ := hi
    intro hsize
    obtain ⟨u, hu⟩ := hi.slots.filled 0 (by omega)
    obtain ⟨last, s', hlast, hpop, hpush, hsh, -⟩ :=
      pushDown_lastToRoot hi.slots hi.ordered hsize hu
    exact ⟨u, last, s', hu, hlast, hpush, hsh, hpop⟩
  | inner u es s =>
    obtain ⟨scanned, settled, hs⟩ := hi
    cases es with
    | nil => trivial
    | cons e es =>
      intro hlt
      have he := hs.sub e List.mem_cons_self
      have hmem := (hs.inv.inv.settled_mem u hs.mem).1
      have hns := (hs.inv.inv.cheaper hs.mem hs.top (arc_of_edge he) hlt).1
      obtain ⟨t, i, ht, hlabels, hslots, hlti, hti, hup, -, -⟩ :=
        makeRoom_spec hs.inv (h.closed u hmem e he) hns
      have hcost : t.cost = s.cost := congrArg Dijkstra.Labels.cost hlabels
      have hle : s.cost u + e.cost ≤ t.cost e.to' := hlt.le.trans_eq (congrFun hcost.symm _)
      obtain ⟨s', hs', hsh, -⟩ := @pullUpNode_spec _ _ u _ _ _ _ hslots hlti hti hup hle
      have hidx := hslots.idx i hlti _ hti
      refine ⟨t, i, s', ht, hlti, hti, hidx, ?_, hsh, ?_⟩
      · unfold pullUpNode at hs'
        rwa [show (relabel t u e.to' (s.cost u + e.cost)).heapidx e.to' = (i : Int) from hidx]
          at hs'
      · unfold relaxEdge
        dsimp only
        rw [hs.inv.toInt_cost hs.mem he, if_pos hlt]
        by_cases hinf : s.cost e.to' = INT_MAX
        · rw [if_pos hinf] at ht ⊢
          rw [ht]
          exact hs'
        · rw [if_neg hinf] at ht ⊢
          rw [ht]
          exact hs'

/-! ## The run -/

/-- The inner loop comes to its end, or `nl` aborts. -/
theorem foldlM_at (h : SpfSound ctx source) (hat : SpfAt ctx fields source (.inner u es s)) :
    (∃ s', es.foldlM (relaxEdge ctx u) s = .ok s' ∧ SpfAt ctx fields source (.inner u [] s')) ∨
      es.foldlM (relaxEdge ctx u) s = .error .spfNl := by
  induction es generalizing s with
  | nil => exact Or.inl ⟨s, rfl, hat⟩
  | cons e es ih =>
    obtain ⟨scanned, settled, hs⟩ := spfAt_inv h hat
    rw [List.foldlM_cons]
    rcases hs.edge with ⟨t, ht, -⟩ | herr
    · rw [ht, ok_bind]
      exact ih (.edge hat ht)
    · rw [herr]
      exact Or.inr rfl

/-- A round comes to the test of the outer loop, or `nl` aborts. -/
theorem spfStep_at (h : SpfSound ctx source) (hat : SpfAt ctx fields source (.outer s))
    (hsize : s.heapsize ≠ 0) :
    (∃ s', spfStep ctx s = .ok s' ∧ SpfAt ctx fields source (.outer s')) ∨
      spfStep ctx s = .error .spfNl := by
  obtain ⟨scanned, settled, hi, hfull⟩ := spfAt_inv h hat
  obtain ⟨u, t, hpop, -⟩ := popRoot_spec hi hfull hsize
  unfold spfStep
  rw [hpop, ok_bind]
  rcases foldlM_at h (.pop hat hsize hpop) with ⟨s', hs', hat'⟩ | herr
  · exact Or.inl ⟨s', hs', .next hat'⟩
  · exact Or.inr herr

/-- **The outer loop** goes from point to point, and no crash ends it but that of `nl`. -/
theorem spfLoop_at (h : SpfSound ctx source) {fuel : Nat} {r : Except Crash (SpfState P)}
    (hat : SpfAt ctx fields source (.outer s)) (hrun : spfLoop ctx fuel s = some r) :
    (∃ s', r = .ok s' ∧ SpfAt ctx fields source (.outer s')) ∨ r = .error .spfNl := by
  induction fuel generalizing s with
  | zero =>
    by_cases hsize : s.heapsize = 0
    · rw [spfLoop_empty hsize] at hrun
      exact Or.inl ⟨s, (Option.some.inj hrun).symm, hat⟩
    · rw [spfLoop, if_neg hsize] at hrun
      cases hrun
  | succ fuel ih =>
    by_cases hsize : s.heapsize = 0
    · rw [spfLoop_empty hsize] at hrun
      exact Or.inl ⟨s, (Option.some.inj hrun).symm, hat⟩
    · rw [spfLoop, if_neg hsize] at hrun
      rcases spfStep_at h hat hsize with ⟨s', hs', hat'⟩ | herr
      · rw [hs'] at hrun
        exact ih hat' hrun
      · rw [herr] at hrun
        exact Or.inr (Option.some.inj hrun).symm

/-- **The heap of `spf_run`**, at every point that a run comes to. A run does not leave the heap's
array, or take a slot that holds no node: it comes to the end or to the `abort` in `nl`. -/
theorem spf_run_heap (h : SpfSound ctx source) (fields : SpfFields P) :
    (∀ pt, SpfAt ctx fields source pt → HeapOk ctx pt.state ∧ pt.Sifts ctx) ∧
      ∀ fuel r, spfRun fuel ctx fields source = some r →
        (∃ s, SpfAt ctx fields source (.outer s) ∧ r = .ok s.toSpfFields) ∨
          r = .error .spfNl := by
  refine ⟨fun pt hat => ?_, fun fuel r hrun => ?_⟩
  · have hinv := spfAt_inv h hat
    obtain ⟨scanned, settled, hi⟩ := hinv.heap
    exact ⟨hi.heapOk, hinv.sifts⟩
  · obtain ⟨s, hs, -⟩ := spfStart_spec h fields
    unfold spfRun at hrun
    rw [hs] at hrun
    obtain ⟨r', hr', rfl⟩ := Option.map_eq_some_iff.mp hrun
    rcases spfLoop_at h (.start hs) hr' with ⟨s', rfl, hat⟩ | rfl
    · exact Or.inl ⟨s', hat, rfl⟩
    · exact Or.inr rfl

/-- The edge of `twoNodes` puts its end into the empty heap. -/
theorem spf_run_heap_twoNodes : ∃ s,
    SpfAt twoNodes ⟨fun _ => none, fun _ => 0, fun _ => 0⟩ false
        (.inner false [⟨(), true, 3⟩] s) ∧
      s.heapsize = 0 ∧ HeapOk twoNodes s ∧
      ∃ t i s', PullsUp twoNodes false s ⟨(), true, 3⟩ t i s' := by
  have hsound := twoNodes_simple.sound twoNodes_built.count
  obtain ⟨hpoints, -⟩ := spf_run_heap hsound ⟨fun _ => none, fun _ => 0, fun _ => 0⟩
  obtain ⟨s, hat, hsize, hnear, hfar⟩ : ∃ s,
      SpfAt twoNodes ⟨fun _ => none, fun _ => 0, fun _ => 0⟩ false
        (.inner false [⟨(), true, 3⟩] s) ∧
      s.heapsize = 0 ∧ s.cost false = 0 ∧ s.cost true = INT_MAX :=
    ⟨_, .pop (.start rfl) (by decide) rfl, rfl, rfl, rfl⟩
  obtain ⟨hheap, hsifts⟩ := hpoints _ hat
  refine ⟨s, hat, hsize, hheap, hsifts ?_⟩
  change s.cost false + 3 < s.cost true
  rw [hnear, hfar]
  decide

end Dvpn
