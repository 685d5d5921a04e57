import Dvpn.Spf.Invariant

/-!
# What `spf_run` computes (`spf.c:128-186`)

Where no two nodes with one id can tie (`Untied`), `spf_run` ends after at most one round for each
node, and leaves the least costs, with the parents of least id (`Shortest`).

* `spfStep_spec`, `spfLoop_spec`: one round, and all of them.
* `spfRun_spec`: the run.
-/

namespace Dvpn

open Dijkstra (Inv Labels Least Walk)
open Heap (Ordered)

variable {P E C : Type} {ctx : SpfContext P E C} {s s' : SpfState P} {source u v p : P}
  {e : SpfEdge P E} {scanned : Dijkstra.Arcs P}

/-- Two edges that lead to one node from two nodes with one id come from one node, unless one of
them is a loop; a loop costs something; and no node has two edges of one cost to the same node. -/
structure Untied (ctx : SpfContext P E C) : Prop where
  loop_pos : ∀ u ∈ ctx.nodes, ∀ e ∈ (ctx.node u).edges, e.to' = u → 0 < e.cost
  ids : ∀ u ∈ ctx.nodes, ∀ p ∈ ctx.nodes, ∀ e ∈ (ctx.node u).edges, ∀ e' ∈ (ctx.node p).edges,
    e.to' = e'.to' → e.to' ≠ u → e.to' ≠ p → (ctx.node p).id = (ctx.node u).id → p = u
  nodup : ∀ u ∈ ctx.nodes, (ctx.arcs u).Nodup

/-- The fields have the least costs, and the parents of least id. -/
structure Shortest (ctx : SpfContext P E C) (source : P) (f : SpfFields P) : Prop where
  cost : ∀ v ∈ ctx.nodes, f.cost v ≠ INT_MAX → Least ctx.arcs source v (f.cost v)
  unreachable : ∀ v ∈ ctx.nodes, f.cost v = INT_MAX ↔ ∀ c, ¬ Walk ctx.arcs source v c
  le : ∀ v ∈ ctx.nodes, f.cost v ≤ INT_MAX
  source_parent : f.parent source = none
  no_parent : ∀ v ∈ ctx.nodes, f.cost v = INT_MAX → f.parent v = none
  parent : ∀ v ∈ ctx.nodes, f.cost v ≠ INT_MAX → v ≠ source → ∃ p ∈ ctx.nodes,
    f.parent v = some p ∧ (∃ e ∈ (ctx.node p).edges, e.to' = v ∧ f.cost p + e.cost = f.cost v) ∧
    ∀ q ∈ ctx.nodes, (∃ e ∈ (ctx.node q).edges, e.to' = v ∧ f.cost q + e.cost = f.cost v) →
      (ctx.node p).id ≤ (ctx.node q).id

variable {settled : Set P} {h : SpfSound ctx source}

/-- **No tie.** -/
theorem Untied.not_tied (hn : Untied ctx) (hi : SpfInv h scanned settled s) (hu : u ∈ settled)
    (he : e ∈ (ctx.node u).edges) (hnew : (e.to', e.cost) ∉ scanned u) :
    ¬ Tied ctx scanned s u e := by
  rintro ⟨p, w, -, ha, htight, heq, hid⟩
  have hmem := (hi.inv.settled_mem u hu).1
  have hpset := hi.inv.scanned_settled p (List.ne_nil_of_mem ha)
  have hpmem := (hi.inv.settled_mem p hpset).1
  obtain ⟨e', he', hto, rfl⟩ := mem_arcs.mp (hi.inv.scanned_sub p _ ha)
  by_cases hpu : p = u
  · subst hpu
    have hw : e'.cost = e.cost := by omega
    exact hnew (hw ▸ ha)
  · by_cases hue : e.to' = u
    · have hpos := hn.loop_pos u hmem e he hue
      rw [hue] at heq
      omega
    · by_cases hpe : e.to' = p
      · have hpos := hn.loop_pos p hpmem e' he' (hto.trans hpe)
        rw [hpe] at htight
        omega
      · exact hpu (hn.ids u hmem p hpmem e he e' he' hto.symm hue hpe hid)

variable [DecidableEq P]

/-! ## A round -/

/-- **The edges of the node that was settled are scanned.** -/
theorem foldlM_relaxEdge (hn : Untied ctx) {es : List (SpfEdge P E)}
    (hi : SpfInv h scanned settled s) (hu : u ∈ settled)
    (htop : ∀ x ∈ settled, s.cost x ≤ s.cost u)
    (hes : scanned u ++ es.map (fun e => (e.to', e.cost)) = ctx.arcs u)
    (hsub : ∀ e ∈ es, e ∈ (ctx.node u).edges) :
    ∃ s', es.foldlM (relaxEdge ctx u) s = .ok s' ∧
      SpfInv h (Function.update scanned u (ctx.arcs u)) settled s' := by
  induction es generalizing s scanned with
  | nil =>
    rw [List.map_nil, List.append_nil] at hes
    refine ⟨s, rfl, ?_⟩
    rw [← hes, Function.update_eq_self]
    exact hi
  | cons e es ih =>
    have he := hsub e List.mem_cons_self
    have hnew : (e.to', e.cost) ∉ scanned u := by
      have hnodup := hn.nodup u (hi.inv.settled_mem u hu).1
      rw [← hes, List.map_cons] at hnodup
      exact fun ha => (List.nodup_append.mp hnodup).2.2 _ ha _ List.mem_cons_self rfl
    rcases relaxEdge_spec hi hu htop he with ⟨t, ht, hi', hcost⟩ | ⟨-, htied⟩
    · have htop' : ∀ x ∈ settled, t.cost x ≤ t.cost u := by
        intro x hx
        rw [hcost x hx, hcost u hu]
        exact htop x hx
      have hes' : Dijkstra.scan scanned u e.to' e.cost u ++ es.map (fun e => (e.to', e.cost)) =
          ctx.arcs u := by
        unfold Dijkstra.scan
        rw [Function.update_self, List.append_assoc]
        exact hes
      obtain ⟨s', hs', hinv⟩ := ih hi' htop' hes' fun x hx => hsub x (List.mem_cons_of_mem e hx)
      unfold Dijkstra.scan at hinv
      rw [Function.update_idem] at hinv
      refine ⟨s', ?_, hinv⟩
      rw [List.foldlM_cons, ht, ok_bind]
      exact hs'
    · exact absurd htied (hn.not_tied hi hu he hnew)

/-- **A round settles a node.** -/
theorem spfStep_spec (hn : Untied ctx) (hi : SpfInv h scanned settled s)
    (hfull : ∀ x ∈ settled, scanned x = ctx.arcs x) (hsize : s.heapsize ≠ 0) :
    ∃ u s', spfStep ctx s = .ok s' ∧ u ∉ settled ∧
      SpfInv h (Function.update scanned u (ctx.arcs u)) (insert u settled) s' ∧
      ∀ x ∈ insert u settled, Function.update scanned u (ctx.arcs u) x = ctx.arcs x := by
  obtain ⟨u, t, ht, hu, hi', htop⟩ := popRoot_spec hi hfull hsize
  have hnil : scanned u = [] := by
    by_contra hne
    exact hu (hi.inv.scanned_settled u hne)
  obtain ⟨s', hs', hinv⟩ :=
    @foldlM_relaxEdge _ _ _ _ _ _ _ _ _ h _ hn (ctx.node u).edges hi' (Or.inl rfl) htop
      (by rw [hnil]; rfl) fun e he => he
  refine ⟨u, s', ?_, hu, hinv, ?_⟩
  · unfold spfStep
    rw [ht, ok_bind]
    exact hs'
  · intro x hx
    by_cases hxu : x = u
    · rw [hxu, Function.update_self]
    · rw [Function.update_of_ne hxu]
      exact hfull x (hx.resolve_left hxu)

theorem card_settled {settled : Finset P} (hi : SpfInv h scanned settled s) :
    settled.card ≤ ctx.nodes.length := by
  have hsub : settled ⊆ ctx.nodes.toFinset := fun x hx =>
    List.mem_toFinset.mpr (hi.inv.settled_mem x hx).1
  exact (Finset.card_le_card hsub).trans (List.toFinset_card_le ctx.nodes)

theorem spfLoop_empty (hsize : s.heapsize = 0) (fuel : Nat) :
    spfLoop ctx fuel s = some (.ok s) := by
  cases fuel <;> rw [spfLoop, if_pos hsize]

/-- **The loop ends with an empty heap**, after at most one round for each node. -/
theorem spfLoop_spec (hn : Untied ctx) {fuel : Nat} {settled : Finset P}
    (hi : SpfInv h scanned settled s) (hfull : ∀ x ∈ settled, scanned x = ctx.arcs x)
    (hfuel : ctx.nodes.length ≤ fuel + settled.card) :
    ∃ s' scanned' settled', spfLoop ctx fuel s = some (.ok s') ∧
      SpfInv h scanned' settled' s' ∧ (∀ x ∈ settled', scanned' x = ctx.arcs x) ∧
      s'.heapsize = 0 := by
  induction fuel generalizing s scanned settled with
  | zero =>
    by_cases hsize : s.heapsize = 0
    · exact ⟨s, scanned, settled, spfLoop_empty hsize _, hi, hfull, hsize⟩
    · -- every node is settled, and the root of the heap is one more
      obtain ⟨u, t, -, hu, hi', -⟩ := spfStep_spec hn hi hfull hsize
      rw [← Finset.coe_insert] at hi'
      have hcard := card_settled hi'
      rw [Finset.card_insert_of_notMem hu] at hcard
      omega
  | succ fuel ih =>
    by_cases hsize : s.heapsize = 0
    · exact ⟨s, scanned, settled, spfLoop_empty hsize _, hi, hfull, hsize⟩
    · obtain ⟨u, t, ht, hu, hi', hfull'⟩ := spfStep_spec hn hi hfull hsize
      rw [← Finset.coe_insert] at hi' hfull'
      obtain ⟨s', scanned', settled', hs', hrest⟩ := ih hi' hfull' (by
        rw [Finset.card_insert_of_notMem hu]
        omega)
      refine ⟨s', scanned', settled', ?_, hrest⟩
      rw [spfLoop, if_neg hsize, ht]
      exact hs'

/-- More fuel makes no difference. -/
theorem spfLoop_mono {fuel fuel' : Nat} {r : Except Crash (SpfState P)}
    (h : spfLoop ctx fuel s = some r) (hle : fuel ≤ fuel') : spfLoop ctx fuel' s = some r := by
  induction fuel generalizing s fuel' with
  | zero =>
    by_cases hsize : s.heapsize = 0
    · rw [spfLoop_empty hsize] at h ⊢
      exact h
    · rw [spfLoop, if_neg hsize] at h
      cases h
  | succ fuel ih =>
    obtain ⟨k, rfl⟩ := Nat.exists_eq_add_of_lt hle
    by_cases hsize : s.heapsize = 0
    · rw [spfLoop_empty hsize] at h ⊢
      exact h
    · rw [spfLoop, if_neg hsize] at h ⊢
      cases hstep : spfStep ctx s with
      | error err => rwa [hstep] at h
      | ok t =>
        rw [hstep] at h
        exact ih h (by omega)

/-! ## The run -/

/-- The fields that the first loop sets. -/
theorem resetFields_spec (l : List P) (f : SpfFields P) (hv : v ∈ l) :
    let f' := l.foldl (fun f node => ({
      parent := Function.update f.parent node none
      cost := Function.update f.cost node INT_MAX
      heapidx := Function.update f.heapidx node (-1) } : SpfFields P)) f
    f'.parent v = none ∧ f'.cost v = INT_MAX ∧ f'.heapidx v = -1 := by
  induction l using List.reverseRecOn with
  | nil => exact absurd hv List.not_mem_nil
  | append_singleton l p ih =>
    rw [List.foldl_append]
    dsimp only [List.foldl_cons, List.foldl_nil]
    by_cases hvp : v = p
    · rw [hvp, Function.update_self, Function.update_self, Function.update_self]
      exact ⟨rfl, rfl, rfl⟩
    · rw [Function.update_of_ne hvp, Function.update_of_ne hvp, Function.update_of_ne hvp]
      exact ih ((List.mem_append.mp hv).resolve_right fun hm => hvp (List.mem_singleton.mp hm))

/-- **The start**: the source is alone in the heap. -/
theorem spfStart_spec (h : SpfSound ctx source) (fields : SpfFields P) :
    ∃ s, spfStart ctx fields source = .ok s ∧ SpfInv h (fun _ => []) (∅ : Finset P) s := by
  have hpos : 0 < ctx.numNodes := by
    rw [h.count]
    exact_mod_cast List.length_pos_of_mem h.source_mem
  have hreset : ∀ v ∈ ctx.nodes, (resetFields ctx fields).parent v = none ∧
      (resetFields ctx fields).cost v = INT_MAX ∧ (resetFields ctx fields).heapidx v = -1 :=
    fun v hv => resetFields_spec ctx.nodes fields hv
  set f := resetFields ctx fields with hf
  refine ⟨_, if_pos hpos, ?_⟩
  rw [← hf]
  set s : SpfState P := {
    parent := f.parent
    cost := Function.update f.cost source 0
    heapidx := Function.update f.heapidx source 0
    heap := Function.update (fun _ => none) 0 (some source)
    heapsize := 1 } with hs
  have hone : ∀ i, i < s.heapsize ↔ i = 0 := fun i => Nat.lt_one_iff
  have hheap : s.heap 0 = some source := by
    change Function.update (fun _ : Nat => (none : Option P)) 0 (some source) 0 = some source
    rw [Function.update_self]
  have hin : ∀ p, InHeap s p ↔ p = source := by
    intro p
    constructor
    · rintro ⟨i, hi, hp⟩
      obtain rfl := (hone i).mp hi
      exact (Option.some.inj (hheap.symm.trans hp)).symm
    · rintro rfl
      exact ⟨0, (hone 0).mpr rfl, hheap⟩
  refine ⟨?_, ⟨fun i hi => ?_, fun i hi p hp => ?_⟩, fun j hj hlt => ?_, fun p hp hnot => ?_⟩
  · have hqueue : queue s = {h.network.source} := Set.ext hin
    rw [hqueue, Finset.coe_empty]
    refine Inv.start h.network s.labels (fun v hv => ?_) fun v hv => (hreset v hv).1
    change Function.update f.cost source 0 v = if v = source then 0 else (INT_MAX : Int)
    by_cases hvs : v = source
    · rw [if_pos hvs, hvs, Function.update_self]
    · rw [if_neg hvs, Function.update_of_ne hvs]
      exact (hreset v hv).2.1
  · obtain rfl := (hone i).mp hi
    exact ⟨source, hheap⟩
  · obtain rfl := (hone i).mp hi
    rw [← Option.some.inj (hheap.symm.trans hp)]
    exact Function.update_self ..
  · have hzero := (hone j).mp hlt
    omega
  · have hne := (hin p).not.mp hnot
    exact (Function.update_of_ne hne _ _).trans (hreset p hp).2.2

omit [DecidableEq P] in
/-- **An empty heap**: the labels are final. -/
theorem SpfInv.shortest (hi : SpfInv h scanned settled s)
    (hfull : ∀ x ∈ settled, scanned x = ctx.arcs x) (hsize : s.heapsize = 0) :
    Shortest ctx source s.toSpfFields := by
  have hinv : Inv h.network scanned settled ∅ s.labels := by
    have hqueue : queue s = ∅ := by
      ext p
      refine iff_of_false ?_ (Set.notMem_empty p)
      rintro ⟨i, hlt, -⟩
      omega
    exact hqueue ▸ hi.inv
  have hle : ∀ v ∈ ctx.nodes, s.cost v ≤ INT_MAX := by
    intro v hv
    by_cases hne : s.cost v = INT_MAX
    · exact hne.le
    · exact (hinv.cost_lt hv hne).le
  refine ⟨fun v hv hne => (hinv.final_cost hfull hv).1 hne,
    fun v hv => (hinv.final_cost hfull hv).2, hle, hinv.source_parent, hinv.no_parent,
    fun v hv hne hs => ?_⟩
  obtain ⟨p, hp, hmem, ⟨w, ha, htight⟩, hleast⟩ := hinv.final_parent hfull hv hne hs
  obtain ⟨e, he, hto, rfl⟩ := mem_arcs.mp ha
  refine ⟨p, hmem, hp, ⟨e, he, hto, htight⟩, ?_⟩
  rintro q hq ⟨e', he', hto', htight'⟩
  refine hleast q hq (fun hinf => ?_) e'.cost (mem_arcs.mpr ⟨e', he', hto', rfl⟩) htight'
  have hnonneg := h.nonneg q hq e' he'
  have hlt : s.cost v < INT_MAX := hinv.cost_lt hv hne
  have hinf' : s.cost q = INT_MAX := hinf
  omega

/-- **`spf_run`** ends, without a crash, and finds the shortest paths. -/
theorem spfRun_spec (h : SpfSound ctx source) (hn : Untied ctx) (fields : SpfFields P) :
    ∃ f, (∀ fuel, ctx.nodes.length ≤ fuel → spfRun fuel ctx fields source = some (.ok f)) ∧
      Shortest ctx source f := by
  obtain ⟨s, hs, hi⟩ := spfStart_spec h fields
  obtain ⟨s', scanned', settled', hs', hi', hfull, hsize⟩ :=
    @spfLoop_spec _ _ _ _ _ _ _ h _ hn ctx.nodes.length _ hi
      (fun x hx => absurd hx (Finset.notMem_empty x)) (Nat.le_add_right _ _)
  refine ⟨s'.toSpfFields, fun fuel hfuel => ?_, hi'.shortest hfull hsize⟩
  unfold spfRun
  rw [hs]
  dsimp only
  rw [spfLoop_mono hs' hfuel]
  rfl

end Dvpn
