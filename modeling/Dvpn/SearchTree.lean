import Dvpn.Avl
import Mathlib.Data.Tree.Basic

/-!
# Binary search trees node by node

A hand-written search does not see the elements of a tree in order, as `Avl` has them, but
descends from the root and goes left or right at every node. Where rebalancing has put an element
is up to the library that maintains the tree. This module has the shape of the tree, the descent,
and that library as a parameter.

* `inorder`: the elements in order; `search`: the descent; `first`: the leftmost element.
* `search_eq_find`: in an ordered tree the descent is the search of `Avl`, whatever the shape.
* `first_eq`: the leftmost element is the first in order.
* `TreeOps` / `TreeOps.Lawful`: insertion and removal, and what is known of them. The comparator
  has to be an order on the elements at hand only (`OrdersOn`).
* `TreeOps.Lawful.insert_eq`, `TreeOps.Lawful.delete_eq`: they are the insertion and the removal
  of `Avl`.
* `lawful_chain`: trees that are chains to the right, as an instance.
-/

namespace Dvpn.SearchTree

open Avl (Sorted Locates Orders)

variable {α κ : Type} [LinearOrder κ]

/-- The elements of the tree, in order. -/
def inorder : BinaryTree α → List α
  | .nil => []
  | .node x left right => inorder left ++ x :: inorder right

/-- The descent to the element at which `probe` is `0`. -/
def search (probe : α → Int) : BinaryTree α → Option α
  | .nil => none
  | .node x left right =>
    if probe x = 0 then some x
    else if probe x < 0 then search probe left
    else search probe right

/-- The leftmost element. -/
def first : BinaryTree α → Option α
  | .nil => none
  | .node x left _ => (first left).or (some x)

/-- On the elements of `l`, the sign of `cmp a b` is the order of their keys. -/
structure OrdersOn (l : List α) (cmp : α → α → Int) (key : α → κ) : Prop where
  neg : ∀ a ∈ l, ∀ b ∈ l, cmp a b < 0 ↔ key a < key b
  zero : ∀ a ∈ l, ∀ b ∈ l, cmp a b = 0 ↔ key a = key b

/-- On the elements of `l`, the sign of `probe b` is the order of `k` and the key of `b`. -/
structure LocatesOn (l : List α) (probe : α → Int) (key : α → κ) (k : κ) : Prop where
  neg : ∀ b ∈ l, probe b < 0 ↔ k < key b
  zero : ∀ b ∈ l, probe b = 0 ↔ k = key b

/-- A library of search trees: insertion by the tree's comparator, refused (`none`) when an equal
element is met, and removal of an element that is there. -/
structure TreeOps (α : Type) where
  insert : α → BinaryTree α → Option (BinaryTree α)
  delete : α → BinaryTree α → BinaryTree α

/-- The library keeps a tree ordered, refuses exactly the elements that are equal to one in the
tree, and otherwise adds or takes away the one element. -/
structure TreeOps.Lawful (ops : TreeOps α) (cmp : α → α → Int) (key : α → κ) : Prop where
  insert_none : ∀ {x : α} {t : BinaryTree α}, OrdersOn (x :: inorder t) cmp key →
    Sorted key (inorder t) → (ops.insert x t = none ↔ ∃ y ∈ inorder t, cmp x y = 0)
  insert_some : ∀ {x : α} {t t' : BinaryTree α}, OrdersOn (x :: inorder t) cmp key →
    Sorted key (inorder t) → ops.insert x t = some t' →
      Sorted key (inorder t') ∧ (inorder t').Perm (x :: inorder t)
  delete : ∀ {x : α} {t : BinaryTree α}, OrdersOn (inorder t) cmp key →
    Sorted key (inorder t) → x ∈ inorder t →
      Sorted key (inorder (ops.delete x t)) ∧ (inorder t).Perm (x :: inorder (ops.delete x t))

variable {cmp cmp' : α → α → Int} {probe : α → Int} {key : α → κ} {k : κ} {l l' : List α}
  {x y : α} {t t' : BinaryTree α} {ops : TreeOps α}

theorem OrdersOn.mono (h : OrdersOn l cmp key) (hsub : ∀ a ∈ l', a ∈ l) : OrdersOn l' cmp key :=
  ⟨fun a ha b hb => h.neg a (hsub a ha) b (hsub b hb),
    fun a ha b hb => h.zero a (hsub a ha) b (hsub b hb)⟩

theorem LocatesOn.mono (h : LocatesOn l probe key k) (hsub : ∀ a ∈ l', a ∈ l) :
    LocatesOn l' probe key k :=
  ⟨fun b hb => h.neg b (hsub b hb), fun b hb => h.zero b (hsub b hb)⟩

/-! ## The descent -/

/-- A search passes over elements below the one looked for. -/
theorem find_append_right (h : ∀ a ∈ l, 0 < probe a) :
    Avl.find probe (l ++ l') = Avl.find probe l' := by
  induction l with
  | nil => rfl
  | cons a l ih =>
    have ha := h a List.mem_cons_self
    rw [List.cons_append, Avl.find, if_neg (by omega), if_neg (by omega)]
    exact ih fun b hb => h b (List.mem_cons_of_mem a hb)

/-- A search stops before elements above the one looked for. -/
theorem find_append_left (h : ∀ b ∈ l', probe b < 0) :
    Avl.find probe (l ++ l') = Avl.find probe l := by
  induction l with
  | nil =>
    cases l' with
    | nil => rfl
    | cons b l' =>
      have hb := h b List.mem_cons_self
      have hne : probe b ≠ 0 := by omega
      simp [Avl.find, hne, hb]
  | cons a l ih =>
    rw [List.cons_append, Avl.find, Avl.find, ih]

theorem find_congr {probe' : α → Int} (h : ∀ y ∈ l, probe y = probe' y) :
    Avl.find probe l = Avl.find probe' l := by
  induction l with
  | nil => rfl
  | cons y l ih =>
    rw [Avl.find, Avl.find, h y List.mem_cons_self, ih fun z hz => h z (List.mem_cons_of_mem y hz)]

/-- **The descent finds what a search in order finds**, whatever the shape of the tree. -/
theorem search_eq_find (hs : Sorted key (inorder t)) (hp : LocatesOn (inorder t) probe key k) :
    search probe t = Avl.find probe (inorder t) := by
  induction t with
  | nil => rfl
  | node x left right ihl ihr =>
    obtain ⟨hleft, hright, hlr⟩ := Avl.sorted_append.mp hs
    obtain ⟨hx, hright⟩ := Avl.sorted_cons.mp hright
    have hlx : ∀ a ∈ inorder left, key a < key x := fun a ha => hlr a ha x List.mem_cons_self
    have hmem : x ∈ inorder left ++ x :: inorder right := by simp
    have hpl := hp.mono fun a (ha : a ∈ inorder left) => List.mem_append_left _ ha
    have hpr := hp.mono fun a (ha : a ∈ inorder right) =>
      List.mem_append_right _ (List.mem_cons_of_mem x ha)
    have hneg := hp.neg x hmem
    have hzero := hp.zero x hmem
    unfold search inorder
    split_ifs with h0 h1
    · -- all elements on the left are below
      have hk := hzero.mp h0
      rw [find_append_right, Avl.find, if_pos h0]
      intro a ha
      have hlt : key a < k := hk ▸ hlx a ha
      have h1 := mt (hpl.neg a ha).mp (not_lt.mpr (le_of_lt hlt))
      have h2 := mt (hpl.zero a ha).mp (ne_of_gt hlt)
      omega
    · -- the node and all elements on the right are above
      have hk := hneg.mp h1
      rw [find_append_left, ihl hleft hpl]
      intro b hb
      rcases List.mem_cons.mp hb with rfl | hb
      · exact h1
      · exact (hpr.neg b hb).mpr (hk.trans (hx b hb))
    · -- the node and all elements on the left are below
      have hk : key x < k := lt_of_le_of_ne (not_lt.mp (mt hneg.mpr h1))
        fun e => h0 (hzero.mpr e.symm)
      rw [find_append_right, Avl.find, if_neg h0, if_neg h1, ihr hright hpr]
      intro a ha
      have hlt : key a < k := (hlx a ha).trans hk
      have h1 := mt (hpl.neg a ha).mp (not_lt.mpr (le_of_lt hlt))
      have h2 := mt (hpl.zero a ha).mp (ne_of_gt hlt)
      omega

/-- **The descent is exact.** -/
theorem search_eq_some (hs : Sorted key (inorder t)) (hp : LocatesOn (inorder t) probe key k) :
    search probe t = some y ↔ y ∈ inorder t ∧ key y = k := by
  rw [search_eq_find hs hp]
  constructor
  · intro h
    obtain ⟨hy, h0⟩ := Avl.find_mem h
    exact ⟨hy, ((hp.zero y hy).mp h0).symm⟩
  · rintro ⟨hy, rfl⟩
    generalize inorder t = l at *
    induction l with
    | nil => exact absurd hy List.not_mem_nil
    | cons z l ih =>
      obtain ⟨hlt, hs⟩ := Avl.sorted_cons.mp hs
      rcases List.mem_cons.mp hy with rfl | hy
      · rw [Avl.find, if_pos ((hp.zero y List.mem_cons_self).mpr rfl)]
      · have hzy := hlt y hy
        have h1 := mt (hp.zero z List.mem_cons_self).mp (ne_of_gt hzy)
        have h2 := mt (hp.neg z List.mem_cons_self).mp (not_lt.mpr (le_of_lt hzy))
        rw [Avl.find, if_neg h1, if_neg h2]
        exact ih hs hy (hp.mono fun a ha => List.mem_cons_of_mem z ha)

/-- **The leftmost element is the first in order.** -/
theorem first_eq (t : BinaryTree α) : first t = (inorder t).head? := by
  induction t with
  | nil => rfl
  | node x left right ihl _ =>
    rw [first, inorder, ihl]
    cases inorder left <;> rfl

@[simp] theorem inorder_map {β : Type} (f : α → β) (t : BinaryTree α) :
    inorder (t.map f) = (inorder t).map f := by
  induction t with
  | nil => rfl
  | node x left right ihl ihr => simp [BinaryTree.map, inorder, ihl, ihr]

/-! ## Insertion and removal, in order -/

/-- An insertion compares the new element with those of the tree only. -/
theorem insert_congr (h : ∀ y ∈ l, (cmp x y = 0 ↔ cmp' x y = 0) ∧ (cmp x y < 0 ↔ cmp' x y < 0)) :
    Avl.insert cmp x l = Avl.insert cmp' x l := by
  induction l with
  | nil => rfl
  | cons y l ih =>
    obtain ⟨h0, h1⟩ := h y List.mem_cons_self
    rw [Avl.insert, Avl.insert, ih fun z hz => h z (List.mem_cons_of_mem y hz)]
    simp only [h0, h1]

theorem delete_congr (h : ∀ y ∈ l, cmp x y = 0 ↔ cmp' x y = 0) :
    Avl.delete cmp x l = Avl.delete cmp' x l := by
  induction l with
  | nil => rfl
  | cons y l ih =>
    rw [Avl.delete, Avl.delete, ih fun z hz => h z (List.mem_cons_of_mem y hz)]
    simp only [h y List.mem_cons_self]

/-- A comparator that orders the elements inserts as one that orders everything. -/
theorem OrdersOn.insert_eq (h : OrdersOn (x :: l) cmp key) (ho : Orders cmp' key) :
    Avl.insert cmp x l = Avl.insert cmp' x l := by
  refine insert_congr fun y hy => ⟨?_, ?_⟩
  · rw [h.zero x List.mem_cons_self y (List.mem_cons_of_mem x hy), ho.zero]
  · rw [h.neg x List.mem_cons_self y (List.mem_cons_of_mem x hy), ho.neg]

theorem OrdersOn.delete_eq (h : OrdersOn l cmp key) (ho : Orders cmp' key) (hx : x ∈ l) :
    Avl.delete cmp x l = Avl.delete cmp' x l :=
  delete_congr fun y hy => by rw [h.zero x hx y hy, ho.zero]

theorem OrdersOn.exists_zero (h : OrdersOn (x :: l) cmp key) :
    (∃ y ∈ l, cmp x y = 0) ↔ ∃ y ∈ l, key y = key x := by
  refine exists_congr fun y => and_congr_right fun hy => ?_
  rw [h.zero x List.mem_cons_self y (List.mem_cons_of_mem x hy), eq_comm]

/-- **An insertion into the tree** is the insertion in order. -/
theorem TreeOps.Lawful.insert_eq (h : ops.Lawful cmp key) (hon : OrdersOn (x :: inorder t) cmp key)
    (ho : Orders cmp' key) (hs : Sorted key (inorder t)) :
    (ops.insert x t).map inorder = Avl.insert cmp' x (inorder t) := by
  have hdup := hon.exists_zero
  cases hi : ops.insert x t with
  | none =>
    exact ((Avl.insert_eq_none ho hs).mpr (hdup.mp ((h.insert_none hon hs).mp hi))).symm
  | some t' =>
    obtain ⟨hs', hp⟩ := h.insert_some hon hs hi
    cases hl : Avl.insert cmp' x (inorder t) with
    | none =>
      have hnone := (h.insert_none hon hs).mpr (hdup.mpr ((Avl.insert_eq_none ho hs).mp hl))
      rw [hi] at hnone
      cases hnone
    | some l =>
      have hsl := Avl.sorted_insert ho hs hl
      exact congrArg some (Avl.eq_of_perm hs' hsl (hp.trans (Avl.insert_perm hl).symm))

/-- **A removal from the tree** is the removal in order. -/
theorem TreeOps.Lawful.delete_eq (h : ops.Lawful cmp key) (hon : OrdersOn (inorder t) cmp key)
    (ho : Orders cmp' key) (hs : Sorted key (inorder t)) (hx : x ∈ inorder t) :
    inorder (ops.delete x t) = Avl.delete cmp' x (inorder t) := by
  obtain ⟨hs', hp⟩ := h.delete hon hs hx
  have hp' := hp.symm.trans (Avl.delete_perm ho hs hx)
  exact Avl.eq_of_perm hs' (Avl.sorted_delete hs) (List.Perm.cons_inv hp')

/-! ## Chains -/

/-- The tree of a list that has every element to the right of the one before. -/
def chain : List α → BinaryTree α
  | [] => .nil
  | x :: l => .node x .nil (chain l)

@[simp] theorem inorder_chain (l : List α) : inorder (chain l) = l := by
  induction l with
  | nil => rfl
  | cons x l ih => rw [chain, inorder, ih, inorder, List.nil_append]

/-- Insertion and removal in the order of the elements, with a chain as the tree. -/
def chainOps (cmp : α → α → Int) : TreeOps α where
  insert x t := (Avl.insert cmp x (inorder t)).map chain
  delete x t := chain (Avl.delete cmp x (inorder t))

/-- The comparison of the keys. -/
def compareKeys (key : α → κ) (a b : α) : Int :=
  if key a < key b then -1 else if key a = key b then 0 else 1

theorem compareKeys_orders (key : α → κ) : Orders (compareKeys key) key := by
  constructor <;> intro a b <;> unfold compareKeys
  · split_ifs with h h' <;> simp [h]
  · split_ifs with h h'
    · simp [ne_of_lt h]
    · simp [h']
    · simp [h']

theorem lawful_chain (cmp : α → α → Int) (key : α → κ) : (chainOps cmp).Lawful cmp key where
  insert_none := by
    intro x t hon hs
    have ho := compareKeys_orders key
    rw [hon.exists_zero, ← Avl.insert_eq_none ho hs, ← hon.insert_eq ho]
    exact Option.map_eq_none_iff
  insert_some := by
    intro x t t' hon hs h
    obtain ⟨l, hl, rfl⟩ := Option.map_eq_some_iff.mp h
    rw [inorder_chain]
    refine ⟨?_, Avl.insert_perm hl⟩
    rw [hon.insert_eq (compareKeys_orders key)] at hl
    exact Avl.sorted_insert (compareKeys_orders key) hs hl
  delete := by
    intro x t hon hs hx
    have ho := compareKeys_orders key
    show Sorted key (inorder (chain _)) ∧ (inorder t).Perm (x :: inorder (chain _))
    rw [inorder_chain, hon.delete_eq ho hx]
    exact ⟨Avl.sorted_delete hs, Avl.delete_perm ho hs hx⟩

end Dvpn.SearchTree
