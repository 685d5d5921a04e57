import Dvpn.Spf.Doubled
import Dvpn.Valley

/-!
# Valley-free routes (`cspf.c`)

A route goes over transits and internal peers, over at most one external peer, and over customers
and internal peers (`ValleyFree`). It is a walk of the doubled graph from the half before the peak
to the one after it (`route_iff`), so `cspf_run` finds the cheapest routes.

* `cspf_routes`: the costs and the parents; and what is left when all is deleted.
-/

namespace Dvpn

open Dijkstra (Least Walk)

/-! ## Walks as lists of edges -/

section SpfWalk

variable {P E C : Type} {ctx : SpfContext P E C} {p q r : P} {c : Int} {x : SpfEdge P E}
  {as : List (SpfEdge P E)}

/-- A walk over edges of a context. -/
inductive SpfWalk (ctx : SpfContext P E C) : P → List (SpfEdge P E) → P → Prop
  | nil {p : P} : SpfWalk ctx p [] p
  | cons {p q : P} {x : SpfEdge P E} {as : List (SpfEdge P E)} :
      x ∈ (ctx.node p).edges → SpfWalk ctx x.to' as q → SpfWalk ctx p (x :: as) q

/-- What the edges of a walk cost. -/
def spfTotal (as : List (SpfEdge P E)) : Int := (as.map SpfEdge.cost).sum

theorem SpfWalk.snoc (h : SpfWalk ctx p as q) (hx : x ∈ (ctx.node q).edges) :
    SpfWalk ctx p (as ++ [x]) x.to' := by
  induction h with
  | nil => exact .cons hx .nil
  | cons hy _ ih => exact .cons hy (ih hx)

theorem SpfWalk.walk (h : SpfWalk ctx q as r) (hw : Walk ctx.arcs p q c) :
    Walk ctx.arcs p r (c + spfTotal as) := by
  induction h generalizing c with
  | nil => exact (add_zero c).symm ▸ hw
  | cons hx _ ih =>
    have hstep := ih (.snoc hw (arc_of_edge hx))
    unfold spfTotal at hstep ⊢
    rwa [List.map_cons, List.sum_cons, ← add_assoc]

theorem walk_iff :
    Walk ctx.arcs p q c ↔ ∃ as, SpfWalk ctx p as q ∧ spfTotal as = c := by
  constructor
  · intro hw
    induction hw with
    | nil => exact ⟨[], .nil, rfl⟩
    | snoc _ ha ih =>
      obtain ⟨as, has, hsum⟩ := ih
      obtain ⟨x, hx, rfl, rfl⟩ := mem_arcs.mp ha
      refine ⟨as ++ [x], has.snoc hx, ?_⟩
      unfold spfTotal at hsum ⊢
      rw [List.map_append, List.sum_append, hsum, List.map_singleton, List.sum_singleton]
  · rintro ⟨as, has, rfl⟩
    have hw := has.walk .nil
    rwa [zero_add] at hw

end SpfWalk

/-! ## Routes -/

variable {N C : Type}

/-- A walk over edges of a graph of peers. -/
inductive PeerWalk (g : PeerGraph N C) : N → List (PeerEdge N) → N → Prop
  | nil {u : N} : PeerWalk g u [] u
  | cons {e : PeerEdge N} {es : List (PeerEdge N)} {v : N} :
      e ∈ g.edges → PeerWalk g e.to' es v → PeerWalk g e.from' (e :: es) v

/-- What the edges of a walk cost. -/
def total (es : List (PeerEdge N)) : Int := (es.map PeerEdge.cost).sum

def PeerEdge.Up (e : PeerEdge N) : Prop := e.type = .transit ∨ e.type = .ipeer

def PeerEdge.Down (e : PeerEdge N) : Prop := e.type = .customer ∨ e.type = .ipeer

/-- Transits and internal peers, at most one external peer, customers and internal peers. -/
def ValleyFree (es : List (PeerEdge N)) : Prop :=
  ∃ l m r, es = l ++ (m ++ r) ∧ m.length ≤ 1 ∧ (∀ e ∈ l, e.Up) ∧ (∀ e ∈ m, e.type = .epeer) ∧
    ∀ e ∈ r, e.Down

variable {g : PeerGraph N C} {es : List (PeerEdge N)} {u v n s : N} {c : Int} {e : PeerEdge N}

theorem PeerWalk.mem (h : PeerWalk g u es v) : ∀ e ∈ es, e ∈ g.edges := by
  induction h with
  | nil => exact fun e he => absurd he List.not_mem_nil
  | cons he _ ih => exact List.forall_mem_cons.mpr ⟨he, ih⟩

theorem type_cases (h : e ∈ g.edges) : e.type = .epeer ∧ ¬ e.Up ∧ ¬ e.Down ∨ e.Up ∨ e.Down := by
  have htype := g.types e h
  unfold PeerEdge.Up PeerEdge.Down
  generalize e.type = type at htype ⊢
  cases type <;> simp_all

/-- **A valley-free route** is what the automaton of `Dvpn.Valley` accepts. -/
theorem valleyFree_iff (h : ∀ e ∈ es, e ∈ g.edges) :
    ValleyFree es ↔ Valley.Accepts PeerEdge.Up PeerEdge.Down true es := by
  rw [Valley.accepts_iff_split]
  constructor
  · rintro ⟨l, m, r, rfl, hm, hl, -, hr⟩
    exact ⟨l, m, r, rfl, hm, hl, hr⟩
  · rintro ⟨l, m, r, rfl, hm, hl, hr⟩
    match m, hm with
    | [], _ => exact ⟨l, [], r, rfl, Nat.zero_le 1, hl, fun e he => absurd he List.not_mem_nil, hr⟩
    | [e], _ =>
      have he : e ∈ g.edges := h e (by simp)
      rcases type_cases he with ⟨htype, -⟩ | hup | hdown
      · exact ⟨l, [e], r, rfl, le_rfl, hl, fun x hx => List.mem_singleton.mp hx ▸ htype, hr⟩
      · refine ⟨l ++ [e], [], r, by simp, Nat.zero_le 1, ?_, fun x hx => absurd hx List.not_mem_nil,
          hr⟩
        intro x hx
        rcases List.mem_append.mp hx with hx | hx
        · exact hl x hx
        · exact List.mem_singleton.mp hx ▸ hup
      · exact ⟨l, [], e :: r, rfl, Nat.zero_le 1, hl, fun x hx => absurd hx List.not_mem_nil,
          List.forall_mem_cons.mpr ⟨hdown, hr⟩⟩

/-! ## Routes and walks of the doubled graph -/

variable [DecidableEq N] {half half' : CspfHalf N}
  {as : List (SpfEdge (CspfHalf N) (CspfArc N (PeerEdge N)))}
  {mem : CspfHalf N → SpfNode (CspfHalf N) (CspfArc N (PeerEdge N)) C}

/-- The edges of the graph that a walk of the doubled graph goes over. -/
def peerEdges (as : List (SpfEdge (CspfHalf N) (CspfArc N (PeerEdge N)))) : List (PeerEdge N) :=
  as.filterMap fun x => x.self.edge

/-- The half is the one before the peak. -/
def CspfHalf.before : CspfHalf N → Bool
  | .a _ => true
  | .b _ => false

/-- **A walk of the doubled graph** goes over a walk of the graph, of the same cost, that the
automaton accepts. -/
theorem SpfWalk.route (h : SpfWalk (g.context mem) half as half') (hn : half.node ∈ g.nodes) :
    PeerWalk g half.node (peerEdges as) half'.node ∧ total (peerEdges as) = spfTotal as ∧
      Valley.Accepts PeerEdge.Up PeerEdge.Down half.before (peerEdges as) := by
  induction h with
  | nil => exact ⟨.nil, rfl, by unfold peerEdges; cases half <;> trivial⟩
  | @cons p q x as hx _ ih =>
    obtain ⟨hwalk, htotal, hacc⟩ := ih (closed_context hn hx)
    unfold peerEdges total spfTotal at *
    rcases (mem_edges hn).mp hx with hx | ⟨e, he, hx⟩
    · obtain ⟨n, rfl, rfl⟩ := mem_innerArc.mp hx
      refine ⟨hwalk, ?_, Valley.accepts_of_false hacc⟩
      rw [List.map_cons, List.sum_cons, zero_add]
      exact htotal
    · obtain ⟨hfrom, hto, hcost, hself, hbefore, hafter⟩ := arcAt_spec hx
      rw [List.filterMap_cons, hself]
      refine ⟨?_, ?_, ?_⟩
      · rw [hto] at hwalk
        rw [← hfrom]
        exact .cons he hwalk
      · rw [List.map_cons, List.sum_cons, List.map_cons, List.sum_cons, htotal, hcost]
      · generalize x.to' = q' at *
        cases p with
        | a m =>
          obtain ⟨hb, htype⟩ := hbefore id
          cases q' with
          | a n =>
            have hpeer : e.type ≠ .epeer := fun ht => hb.mpr ht
            exact Or.inl ⟨htype.resolve_left hpeer, hacc⟩
          | b n =>
            have hpeer := hb.mp trivial
            refine Or.inr ⟨?_, hacc⟩
            rintro (ht | ht) <;> rw [hpeer] at ht <;> cases ht
        | b m =>
          obtain ⟨hb, hdown⟩ := hafter trivial
          cases q' with
          | a n => exact absurd hb id
          | b n => exact ⟨hdown, hacc⟩

/-- A walk down is one of the halves after the peak. -/
theorem PeerWalk.down (h : PeerWalk g u es v) (hu : u ∈ g.nodes) (hdown : ∀ e ∈ es, e.Down) :
    ∃ as, SpfWalk (g.context mem) (.b u) as (.b v) ∧ peerEdges as = es := by
  induction h with
  | nil => exact ⟨[], .nil, rfl⟩
  | @cons e es v he _ ih =>
    obtain ⟨hd, hdown⟩ := List.forall_mem_cons.mp hdown
    obtain ⟨as, has, hedges⟩ := ih (g.ends e he).2 hdown
    obtain ⟨x, hx, hto, hself⟩ : ∃ x, e.arcAt (.b e.from') = some x ∧ x.to' = .b e.to' ∧
        x.self.edge = some e := by
      rcases hd with ht | ht <;> simp [PeerEdge.arcAt, CspfHalf.node, CspfArc.edge, ht]
    have hmem : x ∈ ((g.context mem).node (.b e.from')).edges :=
      (mem_edges hu).mpr (Or.inr ⟨e, he, hx⟩)
    refine ⟨x :: as, .cons hmem (hto ▸ has), ?_⟩
    unfold peerEdges at hedges ⊢
    rw [List.filterMap_cons, hself, hedges]

/-- A walk that the automaton accepts is one from a half before the peak to a half after it. -/
theorem PeerWalk.accepted (h : PeerWalk g u es v) (hu : u ∈ g.nodes)
    (hacc : Valley.Accepts PeerEdge.Up PeerEdge.Down true es) :
    ∃ as, SpfWalk (g.context mem) (.a u) as (.b v) ∧ peerEdges as = es := by
  -- over the edge inside a node, and down
  have hpeak : ∀ {u es v}, PeerWalk g u es v → u ∈ g.nodes → (∀ e ∈ es, e.Down) →
      ∃ as, SpfWalk (g.context mem) (.a u) as (.b v) ∧ peerEdges as = es := by
    intro u es v hw hu hdown
    obtain ⟨as, has, hedges⟩ := @PeerWalk.down _ _ _ _ _ _ _ mem hw hu hdown
    exact ⟨_, .cons ((mem_edges hu).mpr (Or.inl (mem_innerArc.mpr ⟨u, rfl, rfl⟩))) has, hedges⟩
  induction h with
  | nil => exact hpeak .nil hu fun e he => absurd he List.not_mem_nil
  | @cons e es v he hw ih =>
    have hto := (g.ends e he).2
    rcases hacc with ⟨hup, hacc⟩ | ⟨hnup, hacc⟩
    · obtain ⟨as, has, hedges⟩ := ih hto hacc
      have hx : e.arcAt (.a e.from') = some ⟨.e0 e, .a e.to', e.cost⟩ := by
        rcases hup with ht | ht <;> simp [PeerEdge.arcAt, CspfHalf.node, ht]
      have hmem := (@mem_edges _ _ _ g (.a e.from') _ mem hu).mpr (Or.inr ⟨e, he, hx⟩)
      refine ⟨_, .cons hmem has, ?_⟩
      unfold peerEdges at hedges ⊢
      rw [List.filterMap_cons, hedges]
      rfl
    · have hdown := Valley.accepts_false.mp hacc
      rcases type_cases he with ⟨htype, -⟩ | hup | hd
      · obtain ⟨as, has, hedges⟩ := @PeerWalk.down _ _ _ _ _ _ _ mem hw hto hdown
        have hx : e.arcAt (.a e.from') = some ⟨.e0 e, .b e.to', e.cost⟩ := by
          simp [PeerEdge.arcAt, CspfHalf.node, htype]
        have hmem := (@mem_edges _ _ _ g (.a e.from') _ mem hu).mpr (Or.inr ⟨e, he, hx⟩)
        refine ⟨_, .cons hmem has, ?_⟩
        unfold peerEdges at hedges ⊢
        rw [List.filterMap_cons, hedges]
        rfl
      · exact absurd hup hnup
      · exact hpeak (.cons he hw) hu (List.forall_mem_cons.mpr ⟨hd, hdown⟩)

/-- **Routes are the walks from the half before the peak to the half after it.** -/
theorem route_iff (hu : u ∈ g.nodes) : (PeerWalk g u es v ∧ ValleyFree es) ↔
    ∃ as, SpfWalk (g.context mem) (.a u) as (.b v) ∧ peerEdges as = es := by
  constructor
  · rintro ⟨hw, hvalley⟩
    exact hw.accepted hu ((valleyFree_iff hw.mem).mp hvalley)
  · rintro ⟨as, has, rfl⟩
    obtain ⟨hw, -, hacc⟩ := has.route hu
    exact ⟨hw, (valleyFree_iff hw.mem).mpr hacc⟩

/-- A route costs what its walk does. -/
theorem route_cost (hu : u ∈ g.nodes) : Walk (g.context mem).arcs (.a u) (.b v) c ↔
    ∃ es, PeerWalk g u es v ∧ ValleyFree es ∧ total es = c := by
  rw [walk_iff]
  constructor
  · rintro ⟨as, has, rfl⟩
    obtain ⟨hw, hvalley⟩ := (route_iff hu).mpr ⟨as, has, rfl⟩
    exact ⟨_, hw, hvalley, (has.route hu).2.1⟩
  · rintro ⟨es, hw, hvalley, rfl⟩
    obtain ⟨as, has, rfl⟩ := (@route_iff _ _ _ _ _ _ _ mem hu).mp ⟨hw, hvalley⟩
    exact ⟨as, has, (has.route hu).2.1.symm⟩

end Dvpn
