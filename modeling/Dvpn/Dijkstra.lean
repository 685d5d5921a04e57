import Mathlib

/-!
# Shortest paths by labels

A network has arcs with weights that are not negative, and a source. A node has a label: a cost,
which is `inf` until a path to the node is known, and a parent, which is the last node but one of
such a path. The nodes with a known cost are queued or settled. A node of the queue that costs
least is settled and its arcs are scanned one after the other (`relax`); of several arcs that give
one cost the one from the node with the least key gives the parent.

* `Inv`: what holds of the labels between two arcs; `scanned` are the arcs that were scanned.
* `Inv.least`: a queued node that costs least has its label for good.
* `Inv.settle`, `Inv.relax`: the two steps keep the invariant.
* `Inv.final_cost`, `Inv.final_parent`: without a queue the labels are the least costs, and `inf`
  without a path; the parents are the nodes of least key before a node on a shortest path.
-/

namespace Dvpn.Dijkstra

/-- The arcs of the nodes, with their ends and weights. -/
abbrev Arcs (V : Type) := V → List (V × ℤ)

/-- A walk, with its cost. -/
inductive Walk {V : Type} (arcs : Arcs V) (s : V) : V → ℤ → Prop
  | nil : Walk arcs s s 0
  | snoc {u v : V} {c w : ℤ} : Walk arcs s u c → (v, w) ∈ arcs u → Walk arcs s v (c + w)

/-- The least cost of a walk. -/
def Least {V : Type} (arcs : Arcs V) (s v : V) (c : ℤ) : Prop :=
  Walk arcs s v c ∧ ∀ c', Walk arcs s v c' → c ≤ c'

/-- A network: every shortest path that goes on over another arc costs less than `inf`. -/
structure Network (V K : Type) where
  nodes : Set V
  arcs : Arcs V
  source : V
  inf : ℤ
  key : V → K
  source_mem : source ∈ nodes
  closed : ∀ u ∈ nodes, ∀ v w, (v, w) ∈ arcs u → v ∈ nodes
  nonneg : ∀ u ∈ nodes, ∀ v w, (v, w) ∈ arcs u → 0 ≤ w
  into_source : ∀ u ∈ nodes, ∀ w, (source, w) ∈ arcs u → 0 < w
  inf_pos : 0 < inf
  below : ∀ u c v w, Least arcs source u c → (v, w) ∈ arcs u → c + w < inf

/-- The labels. -/
structure Labels (V : Type) where
  cost : V → ℤ
  parent : V → Option V

variable {V K : Type} {N : Network V K} {L : Labels V} {scanned : Arcs V} {settled queued : Set V}
  {u v : V} {w c : ℤ}

/-! ## Walks -/

theorem Walk.mem (h : Walk N.arcs N.source v c) : v ∈ N.nodes := by
  induction h with
  | nil => exact N.source_mem
  | snoc _ harc ih => exact N.closed _ ih _ _ harc

theorem Walk.nonneg (h : Walk N.arcs N.source v c) : 0 ≤ c := by
  induction h with
  | nil => exact le_rfl
  | snoc hw harc ih =>
    have hnonneg := N.nonneg _ hw.mem _ _ harc
    omega

/-- A walk stays one when arcs are added. -/
theorem Walk.mono {arcs : Arcs V} (h : Walk N.arcs N.source v c)
    (hsub : ∀ u ∈ N.nodes, ∀ a ∈ N.arcs u, a ∈ arcs u) : Walk arcs N.source v c := by
  induction h with
  | nil => exact .nil
  | snoc hw harc ih => exact .snoc ih (hsub _ hw.mem _ harc)

/-! ## The invariant -/

variable [LinearOrder K]

/-- The parent of `v` is the one of least key among the nodes with a scanned arc that gives the
cost of `v`. -/
structure ParentOk (key : V → K) (scanned : Arcs V) (L : Labels V) (v p : V) : Prop where
  tight : ∃ w, (v, w) ∈ scanned p ∧ L.cost p + w = L.cost v
  least : ∀ q w, (v, w) ∈ scanned q → L.cost q + w = L.cost v → key p ≤ key q

/-- What holds of the labels. -/
structure Inv (N : Network V K) (scanned : Arcs V) (settled queued : Set V) (L : Labels V) :
    Prop where
  scanned_sub : ∀ u, ∀ a ∈ scanned u, a ∈ N.arcs u
  scanned_settled : ∀ u, scanned u ≠ [] → u ∈ settled
  settled_mem : ∀ v ∈ settled, v ∈ N.nodes ∧ L.cost v ≠ N.inf
  queued_mem : ∀ v ∈ queued, v ∈ N.nodes ∧ L.cost v ≠ N.inf
  known : ∀ v ∈ N.nodes, L.cost v ≠ N.inf → v ∈ queued ∨ v ∈ settled
  disjoint : ∀ v ∈ queued, v ∉ settled
  source_cost : L.cost N.source = 0
  walk : ∀ v ∈ N.nodes, L.cost v ≠ N.inf → Walk N.arcs N.source v (L.cost v)
  relaxed : ∀ u v w, (v, w) ∈ scanned u → L.cost v ≤ L.cost u + w
  front : ∀ u ∈ settled, ∀ v ∈ queued, L.cost u ≤ L.cost v
  bounded : ∀ u ∈ settled, ∀ v w, (v, w) ∈ N.arcs u → L.cost u + w < N.inf
  source_parent : L.parent N.source = none
  no_parent : ∀ v ∈ N.nodes, L.cost v = N.inf → L.parent v = none
  parent : ∀ v ∈ N.nodes, L.cost v ≠ N.inf → v ≠ N.source →
    ∃ p, L.parent v = some p ∧ ParentOk N.key scanned L v p

namespace Inv

/-- A known cost is the cost of a walk. -/
theorem cost_nonneg (h : Inv N scanned settled queued L) (hv : v ∈ N.nodes)
    (hk : L.cost v ≠ N.inf) : 0 ≤ L.cost v :=
  (h.walk v hv hk).nonneg

/-- A known cost is less than `inf`. -/
theorem cost_lt (h : Inv N scanned settled queued L) (hv : v ∈ N.nodes)
    (hk : L.cost v ≠ N.inf) : L.cost v < N.inf := by
  by_cases hs : v = N.source
  · rw [hs, h.source_cost]
    exact N.inf_pos
  · obtain ⟨p, -, ⟨w, ha, htight⟩, -⟩ := h.parent v hv hk hs
    rw [← htight]
    exact h.bounded p (h.scanned_settled p (List.ne_nil_of_mem ha)) v w (h.scanned_sub p _ ha)

/-- A walk is settled with at most its cost, or it comes to the queue at no more than its cost. -/
theorem walk_reaches (h : Inv N scanned settled queued L)
    (hfull : ∀ u ∈ settled, scanned u = N.arcs u) (hw : Walk N.arcs N.source v c) :
    (v ∈ settled ∧ L.cost v ≤ c) ∨ ∃ y ∈ queued, L.cost y ≤ c := by
  induction hw with
  | nil =>
    have hne : L.cost N.source ≠ N.inf := by
      rw [h.source_cost]
      exact ne_of_lt N.inf_pos
    rcases h.known N.source N.source_mem hne with hq | hs
    · exact Or.inr ⟨_, hq, h.source_cost.le⟩
    · exact Or.inl ⟨hs, h.source_cost.le⟩
  | @snoc u v c w hw harc ih =>
    have hnonneg := N.nonneg u hw.mem v w harc
    rcases ih with ⟨hs, hle⟩ | ⟨y, hy, hle⟩
    · have harc' := h.relaxed u v w ((hfull u hs).symm ▸ harc)
      have hlt := h.bounded u hs v w harc
      have hv := N.closed u hw.mem v w harc
      rcases h.known v hv (by omega) with hq | hs'
      · exact Or.inr ⟨v, hq, by omega⟩
      · exact Or.inl ⟨hs', by omega⟩
    · exact Or.inr ⟨y, hy, by omega⟩

/-- **A queued node that costs least has its label for good.** -/
theorem least (h : Inv N scanned settled queued L) (hfull : ∀ u ∈ settled, scanned u = N.arcs u)
    (hu : u ∈ queued) (hmin : ∀ y ∈ queued, L.cost u ≤ L.cost y) :
    Least N.arcs N.source u (L.cost u) := by
  obtain ⟨hmem, hk⟩ := h.queued_mem u hu
  refine ⟨h.walk u hmem hk, fun c hw => ?_⟩
  rcases h.walk_reaches hfull hw with ⟨hs, -⟩ | ⟨y, hy, hle⟩
  · exact absurd hs (h.disjoint u hu)
  · exact (hmin y hy).trans hle

/-- **A queued node that costs least is settled.** -/
theorem settle (h : Inv N scanned settled queued L)
    (hfull : ∀ u ∈ settled, scanned u = N.arcs u) (hu : u ∈ queued)
    (hmin : ∀ y ∈ queued, L.cost u ≤ L.cost y) :
    Inv N scanned (insert u settled) (queued \ {u}) L := by
  have hleast := h.least hfull hu hmin
  exact { h with
    scanned_settled := fun x hx => Or.inr (h.scanned_settled x hx)
    settled_mem := by
      rintro v (rfl | hv)
      · exact h.queued_mem v hu
      · exact h.settled_mem v hv
    queued_mem := fun v hv => h.queued_mem v hv.1
    known := by
      intro v hv hne
      by_cases he : v = u
      · exact Or.inr (Or.inl he)
      · exact (h.known v hv hne).imp (fun hq => ⟨hq, he⟩) Or.inr
    disjoint := by
      rintro v ⟨hq, hne⟩ (he | hs)
      · exact hne he
      · exact h.disjoint v hq hs
    front := by
      rintro x (rfl | hx) v hv
      · exact hmin v hv.1
      · exact h.front x hx v hv.1
    bounded := by
      rintro x (rfl | hx) v w harc
      · exact N.below x _ v w hleast harc
      · exact h.bounded x hx v w harc }

/-- **Without a queue the labels are the least costs.** -/
theorem final_cost (h : Inv N scanned settled ∅ L) (hfull : ∀ u ∈ settled, scanned u = N.arcs u)
    (hv : v ∈ N.nodes) : (L.cost v ≠ N.inf → Least N.arcs N.source v (L.cost v)) ∧
      (L.cost v = N.inf ↔ ∀ c, ¬ Walk N.arcs N.source v c) := by
  have hreach : ∀ c, Walk N.arcs N.source v c → v ∈ settled ∧ L.cost v ≤ c := by
    intro c hw
    rcases h.walk_reaches hfull hw with hs | ⟨y, hy, -⟩
    · exact hs
    · exact absurd hy (Set.notMem_empty y)
  refine ⟨fun hne => ⟨h.walk v hv hne, fun c hw => (hreach c hw).2⟩, fun hinf c hw => ?_,
    fun hno => ?_⟩
  · exact (h.settled_mem v (hreach c hw).1).2 hinf
  · by_contra hne
    exact hno _ (h.walk v hv hne)

/-- **The parents are the nodes of least key before a node on a shortest path.** -/
theorem final_parent (h : Inv N scanned settled ∅ L)
    (hfull : ∀ u ∈ settled, scanned u = N.arcs u) (hv : v ∈ N.nodes) (hne : L.cost v ≠ N.inf)
    (hs : v ≠ N.source) : ∃ p, L.parent v = some p ∧ p ∈ N.nodes ∧
      (∃ w, (v, w) ∈ N.arcs p ∧ L.cost p + w = L.cost v) ∧
      ∀ q ∈ N.nodes, L.cost q ≠ N.inf → ∀ w, (v, w) ∈ N.arcs q → L.cost q + w = L.cost v →
        N.key p ≤ N.key q := by
  obtain ⟨p, hp, ⟨w, ha, htight⟩, hleast⟩ := h.parent v hv hne hs
  have hpset := h.scanned_settled p (List.ne_nil_of_mem ha)
  refine ⟨p, hp, (h.settled_mem p hpset).1, ⟨w, h.scanned_sub p _ ha, htight⟩, ?_⟩
  intro q hq hk w' ha' htight'
  rcases h.known q hq hk with hqueued | hqset
  · exact absurd hqueued (Set.notMem_empty q)
  · exact hleast q w' ((hfull q hqset).symm ▸ ha') htight'

/-- An arc that makes its end cheaper does not lead to a settled node, nor to the source. -/
theorem cheaper (h : Inv N scanned settled queued L) (hu : u ∈ settled)
    (htop : ∀ x ∈ settled, L.cost x ≤ L.cost u) (harc : (v, w) ∈ N.arcs u)
    (hlt : L.cost u + w < L.cost v) : v ∉ settled ∧ v ≠ N.source := by
  obtain ⟨hmem, hk⟩ := h.settled_mem u hu
  have hw := N.nonneg u hmem v w harc
  have hpos := h.cost_nonneg hmem hk
  refine ⟨fun hs => ?_, fun he => ?_⟩
  · have hle := htop v hs
    omega
  · rw [he, h.source_cost] at hlt
    omega

/-- An arc that gives the cost of its end does not lead to the source. -/
theorem tight (h : Inv N scanned settled queued L) (hu : u ∈ settled) (harc : (v, w) ∈ N.arcs u)
    (heq : L.cost u + w = L.cost v) : L.cost v ≠ N.inf ∧ v ≠ N.source := by
  obtain ⟨hmem, hk⟩ := h.settled_mem u hu
  have hbound := h.bounded u hu v w harc
  have hpos := h.cost_nonneg hmem hk
  refine ⟨by omega, ?_⟩
  rintro rfl
  have hw := N.into_source u hmem w harc
  have hcost := h.source_cost
  omega

end Inv

/-! ## The steps -/

variable [DecidableEq V]

/-- The label of `v` becomes the one by an arc from `u`. -/
def Labels.via (L : Labels V) (u v : V) (w : ℤ) : Labels V where
  cost := Function.update L.cost v (L.cost u + w)
  parent := Function.update L.parent v (some u)

theorem via_cost_self : (L.via u v w).cost v = L.cost u + w := Function.update_self ..

theorem via_cost_ne {x : V} (h : x ≠ v) : (L.via u v w).cost x = L.cost x :=
  Function.update_of_ne h _ _

theorem via_parent_self : (L.via u v w).parent v = some u := Function.update_self ..

theorem via_parent_ne {x : V} (h : x ≠ v) : (L.via u v w).parent x = L.parent x :=
  Function.update_of_ne h _ _

/-- An arc from `u` to `v` is looked at. -/
def relax (key : V → K) (u : V) (L : Labels V) (v : V) (w : ℤ) : Labels V :=
  if L.cost u + w < L.cost v then L.via u v w
  else if L.cost u + w = L.cost v ∧ ∃ p, L.parent v = some p ∧ key u < key p then
    { L with parent := Function.update L.parent v (some u) }
  else L

/-- The arcs that were scanned, with one more of `u`. -/
def scan (scanned : Arcs V) (u v : V) (w : ℤ) : Arcs V :=
  Function.update scanned u (scanned u ++ [(v, w)])

theorem mem_scan {x : V} {a : V × ℤ} :
    a ∈ scan scanned u v w x ↔ a ∈ scanned x ∨ x = u ∧ a = (v, w) := by
  unfold scan
  by_cases he : x = u
  · subst he
    rw [Function.update_self, List.mem_append, List.mem_singleton]
    simp
  · rw [Function.update_of_ne he]
    simp [he]

/-- The queue after an arc from `u` to `v` was looked at. -/
def enqueue (queued : Set V) (L : Labels V) (u v : V) (w : ℤ) : Set V :=
  if L.cost u + w < L.cost v then insert v queued else queued

namespace Inv

/-- **The start**: the source alone is queued. -/
theorem start (N : Network V K) (L : Labels V)
    (hcost : ∀ v ∈ N.nodes, L.cost v = if v = N.source then 0 else N.inf)
    (hparent : ∀ v ∈ N.nodes, L.parent v = none) :
    Inv N (fun _ => []) ∅ {N.source} L := by
  have hsource : L.cost N.source = 0 := (hcost _ N.source_mem).trans (if_pos rfl)
  have hpos := N.inf_pos
  have hknown : ∀ v ∈ N.nodes, L.cost v ≠ N.inf → v = N.source := by
    intro v hv hne
    by_contra hs
    exact hne ((hcost v hv).trans (if_neg hs))
  exact {
    scanned_sub := fun u a ha => absurd ha List.not_mem_nil
    scanned_settled := fun u hu => absurd rfl hu
    settled_mem := fun v hv => absurd hv (Set.notMem_empty v)
    queued_mem := by
      rintro v rfl
      exact ⟨N.source_mem, by omega⟩
    known := fun v hv hne => Or.inl (hknown v hv hne)
    disjoint := fun v _ => Set.notMem_empty v
    source_cost := hsource
    walk := by
      intro v hv hne
      obtain rfl := hknown v hv hne
      rw [hsource]
      exact .nil
    relaxed := fun u v w h => absurd h List.not_mem_nil
    front := fun u hu => absurd hu (Set.notMem_empty u)
    bounded := fun u hu => absurd hu (Set.notMem_empty u)
    source_parent := hparent _ N.source_mem
    no_parent := fun v hv _ => hparent v hv
    parent := fun v hv hne hs => absurd (hknown v hv hne) hs }

section Scan

variable (h : Inv N scanned settled queued L) (hu : u ∈ settled)
  (htop : ∀ x ∈ settled, L.cost x ≤ L.cost u) (harc : (v, w) ∈ N.arcs u)
include h hu htop harc

theorem scan_sub : ∀ x, ∀ a ∈ scan scanned u v w x, a ∈ N.arcs x := by
  intro x a ha
  rcases mem_scan.mp ha with ha | ⟨rfl, rfl⟩
  · exact h.scanned_sub x a ha
  · exact harc

theorem scan_settled : ∀ x, scan scanned u v w x ≠ [] → x ∈ settled := by
  intro x hx
  obtain ⟨a, ha⟩ := List.exists_mem_of_ne_nil _ hx
  rcases mem_scan.mp ha with ha | ⟨rfl, -⟩
  · exact h.scanned_settled x (List.ne_nil_of_mem ha)
  · exact hu

theorem relax_cheaper (hlt : L.cost u + w < L.cost v) :
    Inv N (scan scanned u v w) settled (insert v queued) (L.via u v w) := by
  obtain ⟨hns, hsource⟩ := h.cheaper hu htop harc hlt
  obtain ⟨hmem, hk⟩ := h.settled_mem u hu
  have hv := N.closed u hmem v w harc
  have hbound := h.bounded u hu v w harc
  have hnonneg := N.nonneg u hmem v w harc
  have hne : ∀ {x}, x ∈ settled → x ≠ v := fun hx he => hns (he ▸ hx)
  have hsettled : ∀ {x}, x ∈ settled → (L.via u v w).cost x = L.cost x :=
    fun hx => via_cost_ne (hne hx)
  have hscanned : ∀ {x a}, a ∈ scanned x → x ∈ settled :=
    fun ha => h.scanned_settled _ (List.ne_nil_of_mem ha)
  exact {
    scanned_sub := h.scan_sub hu htop harc
    scanned_settled := h.scan_settled hu htop harc
    settled_mem := by
      intro x hx
      rw [hsettled hx]
      exact h.settled_mem x hx
    queued_mem := by
      intro x hx
      by_cases he : x = v
      · subst he
        rw [via_cost_self]
        exact ⟨hv, by omega⟩
      · rw [via_cost_ne he]
        exact h.queued_mem x (hx.resolve_left he)
    known := by
      intro x hx hne'
      by_cases he : x = v
      · exact Or.inl (Or.inl he)
      · rw [via_cost_ne he] at hne'
        exact (h.known x hx hne').imp Or.inr id
    disjoint := by
      rintro x (rfl | hx)
      · exact hns
      · exact h.disjoint x hx
    source_cost := (via_cost_ne hsource.symm).trans h.source_cost
    walk := by
      intro x hx hne'
      by_cases he : x = v
      · subst he
        rw [via_cost_self]
        exact .snoc (h.walk u hmem hk) harc
      · rw [via_cost_ne he] at hne' ⊢
        exact h.walk x hx hne'
    relaxed := by
      intro x y w' ha
      rcases mem_scan.mp ha with ha | ⟨rfl, he⟩
      · have hle := h.relaxed x y w' ha
        rw [hsettled (hscanned ha)]
        by_cases he : y = v
        · subst he
          rw [via_cost_self]
          omega
        · rwa [via_cost_ne he]
      · obtain ⟨rfl, rfl⟩ := Prod.mk.inj he
        rw [via_cost_self, hsettled hu]
    front := by
      intro x hx y hy
      rw [hsettled hx]
      by_cases he : y = v
      · subst he
        have hle := htop x hx
        rw [via_cost_self]
        omega
      · rw [via_cost_ne he]
        exact h.front x hx y (hy.resolve_left he)
    bounded := by
      intro x hx y w' ha
      rw [hsettled hx]
      exact h.bounded x hx y w' ha
    source_parent := (via_parent_ne hsource.symm).trans h.source_parent
    no_parent := by
      intro x hx hinf
      have he : x ≠ v := by
        rintro rfl
        rw [via_cost_self] at hinf
        omega
      rw [via_cost_ne he] at hinf
      exact (via_parent_ne he).trans (h.no_parent x hx hinf)
    parent := by
      intro x hx hne' hs
      by_cases he : x = v
      · subst he
        refine ⟨u, via_parent_self, ⟨w, mem_scan.mpr (Or.inr ⟨rfl, rfl⟩), ?_⟩, ?_⟩
        · rw [hsettled hu, via_cost_self]
        · -- the other arcs to the node do not give the new cost
          intro q w' ha htight
          rw [via_cost_self] at htight
          rcases mem_scan.mp ha with ha | ⟨rfl, -⟩
          · have hle := h.relaxed q x w' ha
            rw [hsettled (hscanned ha)] at htight
            omega
          · exact le_rfl
      · rw [via_cost_ne he] at hne'
        obtain ⟨p, hp, ⟨w', ha, htight⟩, hleast⟩ := h.parent x hx hne' hs
        refine ⟨p, (via_parent_ne he).trans hp,
          ⟨w', mem_scan.mpr (Or.inl ha), ?_⟩, ?_⟩
        · rw [hsettled (hscanned ha), via_cost_ne he]
          exact htight
        · intro q w'' hq htight'
          rcases mem_scan.mp hq with hq | ⟨-, heq⟩
          · rw [hsettled (hscanned hq), via_cost_ne he] at htight'
            exact hleast q w'' hq htight'
          · exact absurd (Prod.mk.inj heq).1 he }

/-- An arc that does not make its end cheaper: the costs and the queue stay, and at most the parent
of `v` changes. -/
theorem relax_keeps (hge : L.cost v ≤ L.cost u + w) {parent : V → Option V}
    (hother : ∀ x ≠ v, parent x = L.parent x)
    (hloose : L.cost u + w ≠ L.cost v → parent v = L.parent v)
    (htight : L.cost u + w = L.cost v →
      ∃ p, parent v = some p ∧ ParentOk N.key (scan scanned u v w) L v p) :
    Inv N (scan scanned u v w) settled queued { L with parent := parent } := by
  have hstays : ∀ x, (x = N.source ∨ L.cost x = N.inf) → parent x = L.parent x := by
    intro x hx
    by_cases he : x = v
    · subst he
      refine hloose fun heq => ?_
      obtain ⟨hne, hs⟩ := h.tight hu harc heq
      exact hx.elim hs hne
    · exact hother x he
  exact {
    scanned_sub := h.scan_sub hu htop harc
    scanned_settled := h.scan_settled hu htop harc
    settled_mem := h.settled_mem
    queued_mem := h.queued_mem
    known := h.known
    disjoint := h.disjoint
    source_cost := h.source_cost
    walk := h.walk
    relaxed := by
      intro x y w' ha
      rcases mem_scan.mp ha with ha | ⟨rfl, he⟩
      · exact h.relaxed x y w' ha
      · obtain ⟨rfl, rfl⟩ := Prod.mk.inj he
        exact hge
    front := h.front
    bounded := h.bounded
    source_parent := (hstays _ (Or.inl rfl)).trans h.source_parent
    no_parent := fun x hx hinf => (hstays x (Or.inr hinf)).trans (h.no_parent x hx hinf)
    parent := by
      intro x hx hne hs
      obtain ⟨p, hp, ⟨w', ha, htight'⟩, hleast⟩ := h.parent x hx hne hs
      by_cases he : x = v ∧ L.cost u + w = L.cost v
      · obtain ⟨rfl, heq⟩ := he
        obtain ⟨q, hq, hok⟩ := htight heq
        exact ⟨q, hq, ⟨hok.tight, hok.least⟩⟩
      · refine ⟨p, ?_, ⟨w', mem_scan.mpr (Or.inl ha), htight'⟩, ?_⟩
        · by_cases hxv : x = v
          · subst hxv
            exact (hloose fun heq => he ⟨rfl, heq⟩).trans hp
          · exact (hother x hxv).trans hp
        · intro q w'' hq htight''
          rcases mem_scan.mp hq with hq | ⟨rfl, heq⟩
          · exact hleast q w'' hq htight''
          · obtain ⟨rfl, rfl⟩ := Prod.mk.inj heq
            exact absurd ⟨rfl, htight''⟩ he }

/-- **An arc of a node that was just settled is scanned.** -/
theorem relax : Inv N (scan scanned u v w) settled (enqueue queued L u v w)
    (Dijkstra.relax N.key u L v w) := by
  unfold Dijkstra.relax enqueue
  by_cases hlt : L.cost u + w < L.cost v
  · rw [if_pos hlt, if_pos hlt]
    exact h.relax_cheaper hu htop harc hlt
  · rw [if_neg hlt, if_neg hlt]
    by_cases heq : L.cost u + w = L.cost v
    · obtain ⟨hne, hs⟩ := h.tight hu harc heq
      have hv := N.closed u (h.settled_mem u hu).1 v w harc
      obtain ⟨p, hp, ⟨w', ha, htight⟩, hleast⟩ := h.parent v hv hne hs
      by_cases hkey : N.key u < N.key p
      · rw [if_pos ⟨heq, p, hp, hkey⟩]
        refine h.relax_keeps hu htop harc (not_lt.mp hlt)
          (fun x hx => Function.update_of_ne hx _ _) (fun hn => absurd heq hn) fun _ => ?_
        refine ⟨u, Function.update_self .., ⟨w, mem_scan.mpr (Or.inr ⟨rfl, rfl⟩), heq⟩, ?_⟩
        intro q w'' hq htight'
        rcases mem_scan.mp hq with hq | ⟨rfl, -⟩
        · exact hkey.le.trans (hleast q w'' hq htight')
        · exact le_rfl
      · have hno : ¬ (L.cost u + w = L.cost v ∧ ∃ p, L.parent v = some p ∧ N.key u < N.key p) := by
          rintro ⟨-, p', hp', hlt'⟩
          exact hkey (Option.some.inj (hp.symm.trans hp') ▸ hlt')
        rw [if_neg hno]
        refine h.relax_keeps hu htop harc (not_lt.mp hlt) (fun x _ => rfl)
          (fun hn => absurd heq hn) fun _ => ?_
        refine ⟨p, hp, ⟨w', mem_scan.mpr (Or.inl ha), htight⟩, ?_⟩
        intro q w'' hq htight'
        rcases mem_scan.mp hq with hq | ⟨rfl, -⟩
        · exact hleast q w'' hq htight'
        · exact not_lt.mp hkey
    · rw [if_neg fun ht => heq ht.1]
      exact h.relax_keeps hu htop harc (not_lt.mp hlt) (fun x _ => rfl) (fun _ => rfl)
        fun ht => absurd ht heq

end Scan

end Inv

end Dvpn.Dijkstra
