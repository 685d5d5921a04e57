import Dvpn.Lsa.Serialise

/-!
# From records to trees

A message lists its attributes in any order; the tree that the mutators of `lsa.c` build from
them has every set ordered. `arrange l` is that tree for the list `l`: each set of it, at every
level, put in order. `AttrsUnique l` is what makes it a tree: no set of the list has two
attributes of one (type, key).

* `arrange_wf`: the arranged list is well ordered; `arrange_of_wf`: a tree is its own
  arrangement.
* `attrsSize_arrange`, `length_attrsWire_arrange`, `attrsDepth_arrange`, `noEmptySet_arrange`,
  `everywhere_arrange`: what the order does not change.
* `attrsFit_of_wire`, `attrsSize_bounds`: the wire form of a tree bounds its sizes.
-/

namespace Dvpn

/-- The order of the attributes of a set. -/
def Attr.le (a b : Attr) : Prop := a.pair ≤ b.pair

instance : DecidableRel Attr.le := fun a b => inferInstanceAs (Decidable (a.pair ≤ b.pair))

instance : Std.Total Attr.le := ⟨fun a b => le_total a.pair b.pair⟩

instance : IsTrans Attr Attr.le := ⟨fun _ _ _ h h' => le_trans h h'⟩

mutual

/-- The attribute with every set below it in order. -/
def Attr.arrange : Attr → Attr
  | .plain t s k d => .plain t s k d
  | .set t s k l => .set t s k ((arrangeEach l).insertionSort Attr.le)

/-- Each attribute of a list arranged. -/
def arrangeEach : List Attr → AttrSet
  | [] => []
  | a :: l => a.arrange :: arrangeEach l

end

/-- The tree of the attributes of a list. -/
def arrange (l : List Attr) : AttrSet := (arrangeEach l).insertionSort Attr.le

/-- No set of the list, itself included, has two attributes of one (type, key). -/
def AttrsUnique (l : List Attr) : Prop :=
  (l.map Attr.pair).Nodup ∧ AttrsEverywhere (fun a => (a.children.map Attr.pair).Nodup) l

variable {a : Attr} {l l' : List Attr} {p : Attr → Prop}

theorem arrangeEach_eq_map : arrangeEach l = l.map Attr.arrange := by
  induction l with
  | nil => rfl
  | cons a l ih => simp [arrangeEach, ih]

theorem Attr.arrange_set (t : Int) (s : Bool) (k : Bytes) (l : List Attr) :
    (Attr.set t s k l).arrange = .set t s k (Dvpn.arrange l) := rfl

@[simp] theorem Attr.type_arrange (a : Attr) : a.arrange.type = a.type := by
  cases a <;> rfl

@[simp] theorem Attr.key_arrange (a : Attr) : a.arrange.key = a.key := by
  cases a <;> rfl

@[simp] theorem Attr.pair_arrange (a : Attr) : a.arrange.pair = a.pair := by
  cases a <;> rfl

theorem arrange_perm : (arrange l).Perm (l.map Attr.arrange) := by
  rw [← arrangeEach_eq_map]
  exact List.perm_insertionSort _ _

theorem map_pair_arrange : ((arrange l).map Attr.pair).Perm (l.map Attr.pair) := by
  have h := (arrange_perm (l := l)).map Attr.pair
  rwa [List.map_map, show Attr.pair ∘ Attr.arrange = Attr.pair from funext Attr.pair_arrange] at h

/-! ## Order -/

/-- Attributes in order with distinct pairs are strictly ordered. -/
theorem sorted_arrange (h : (l.map Attr.pair).Nodup) : Avl.Sorted Attr.pair (arrange l) := by
  have hle : (arrange l).Pairwise Attr.le := List.pairwise_insertionSort _ _
  have hne : (arrange l).Pairwise fun a b => a.pair ≠ b.pair :=
    List.pairwise_map.mp (map_pair_arrange.nodup_iff.mpr h)
  exact hle.imp₂ (fun a b h1 h2 => lt_of_le_of_ne h1 h2) hne

theorem Avl.Sorted.nodup_pair (h : Avl.Sorted Attr.pair l) : (l.map Attr.pair).Nodup :=
  List.pairwise_map.mpr (h.imp fun hlt => ne_of_lt hlt)

/-- The one tree with the arranged attributes of a list. -/
theorem eq_arrange (hs : Avl.Sorted Attr.pair l') (hp : l'.Perm (l.map Attr.arrange)) :
    l' = arrange l := by
  have hn : (l.map Attr.pair).Nodup := by
    have h := (hp.map Attr.pair).nodup_iff.mp hs.nodup_pair
    rwa [List.map_map, show Attr.pair ∘ Attr.arrange = Attr.pair from funext Attr.pair_arrange] at h
  exact Avl.eq_of_perm hs (sorted_arrange hn) (hp.trans arrange_perm.symm)

theorem attrsUnique_nil : AttrsUnique [] := ⟨List.nodup_nil, trivial⟩

theorem AttrsWf.unique (h : AttrsWf l) : AttrsUnique l := by
  refine ⟨h.1.nodup_pair, ?_⟩
  have one : ∀ a : Attr, a.Everywhere (fun a => Avl.Sorted Attr.pair a.children) →
      a.Everywhere fun a => (a.children.map Attr.pair).Nodup := by
    intro a
    induction a using Attr.tree_induction with
    | plain t s k d => exact fun _ => List.nodup_nil
    | set t s k l ih =>
      rintro ⟨hs, hl⟩
      exact ⟨hs.nodup_pair, attrsEverywhere_iff.mpr fun a ha =>
        ih a ha (attrsEverywhere_iff.mp hl a ha)⟩
  exact attrsEverywhere_iff.mpr fun a ha => one a (attrsEverywhere_iff.mp h.2 a ha)

/-- **The arrangement is a tree.** -/
theorem arrange_wf (h : AttrsUnique l) : AttrsWf (arrange l) := by
  have one : ∀ a : Attr, a.Everywhere (fun a => (a.children.map Attr.pair).Nodup) →
      a.arrange.Everywhere fun a => Avl.Sorted Attr.pair a.children := by
    intro a
    induction a using Attr.tree_induction with
    | plain t s k d => exact fun _ => Avl.sorted_nil
    | set t s k l ih =>
      rintro ⟨hn, hl⟩
      refine ⟨sorted_arrange hn, (attrsEverywhere_perm arrange_perm).mpr ?_⟩
      refine attrsEverywhere_iff.mpr fun b hb => ?_
      obtain ⟨a, ha, rfl⟩ := List.mem_map.mp hb
      exact ih a ha (attrsEverywhere_iff.mp hl a ha)
  refine ⟨sorted_arrange h.1, (attrsEverywhere_perm arrange_perm).mpr ?_⟩
  refine attrsEverywhere_iff.mpr fun b hb => ?_
  obtain ⟨a, ha, rfl⟩ := List.mem_map.mp hb
  exact one a (attrsEverywhere_iff.mp h.2 a ha)

/-- **A tree is its own arrangement.** -/
theorem arrange_of_wf (h : AttrsWf l) : arrange l = l := by
  have many : ∀ l : List Attr, Avl.Sorted Attr.pair l → (∀ a ∈ l, a.arrange = a) →
      arrange l = l := by
    intro l hs h
    have hmap : l.map Attr.arrange = l :=
      (List.map_congr_left h).trans (List.map_id' l)
    exact (eq_arrange hs (by rw [hmap])).symm
  have one : ∀ a : Attr, a.Everywhere (fun a => Avl.Sorted Attr.pair a.children) →
      a.arrange = a := by
    intro a
    induction a using Attr.tree_induction with
    | plain t s k d => exact fun _ => rfl
    | set t s k l ih =>
      rintro ⟨hs, hl⟩
      rw [Attr.arrange_set, many l hs fun a ha => ih a ha (attrsEverywhere_iff.mp hl a ha)]
  exact many l h.1 fun a ha => one a (attrsEverywhere_iff.mp h.2 a ha)

/-! ## What the order does not change -/

/-- A predicate that does not look at the order holds everywhere in the arrangement iff it
holds everywhere in the list. -/
theorem everywhere_arrange (hp : ∀ a, p a.arrange ↔ p a) :
    AttrsEverywhere p (arrange l) ↔ AttrsEverywhere p l := by
  have many : ∀ l : List Attr, (∀ a ∈ l, a.arrange.Everywhere p ↔ a.Everywhere p) →
      (AttrsEverywhere p (arrange l) ↔ AttrsEverywhere p l) := by
    intro l h
    rw [attrsEverywhere_perm arrange_perm, attrsEverywhere_iff, attrsEverywhere_iff,
      List.forall_mem_map]
    exact forall₂_congr h
  have one : ∀ a : Attr, a.arrange.Everywhere p ↔ a.Everywhere p := by
    intro a
    induction a using Attr.tree_induction with
    | plain t s k d => exact Iff.rfl
    | set t s k l ih =>
      rw [everywhere_iff, everywhere_iff, hp]
      exact and_congr_right fun _ => many l ih
  exact many l fun a _ => one a

theorem noEmptySet_arrange : NoEmptySet (arrange l) ↔ NoEmptySet l := by
  refine everywhere_arrange fun a => ?_
  cases a with
  | plain t s k d => exact Iff.rfl
  | set t s k l =>
    have h := (arrange_perm (l := l)).length_eq
    rw [List.length_map] at h
    simp only [Attr.arrange_set, Attr.Nonempty, Attr.children, Attr.dataIsAttrSet,
      ← List.length_pos_iff, h]

theorem attrsFit_arrange : AttrsFit (arrange l) ↔ AttrsFit l :=
  everywhere_arrange fun a => by cases a <;> rfl

/-- A measure that adds up over a set does not see its order. -/
theorem attrsSize_arrange : attrsSize (arrange l) = attrsSize l := by
  have many : ∀ l : List Attr, (∀ a ∈ l, a.arrange.totalSize = a.totalSize) →
      attrsSize (arrange l) = attrsSize l := by
    intro l h
    rw [attrsSize_perm arrange_perm, attrsSize_eq_sum, attrsSize_eq_sum, List.map_map]
    exact congrArg List.sum (List.map_congr_left h)
  have one : ∀ a : Attr, a.arrange.totalSize = a.totalSize := by
    intro a
    induction a using Attr.tree_induction with
    | plain t s k d => rfl
    | set t s k l ih =>
      rw [Attr.arrange_set, Attr.totalSize, Attr.totalSize, many l ih]
      rfl
  exact many l fun a _ => one a

theorem length_attrsWire_eq_sum :
    (attrsWire l).length = (l.map fun a => a.wire.length).sum := by
  induction l with
  | nil => rfl
  | cons a l ih => simp [attrsWire, ih]

theorem length_attrsWire_perm (h : l'.Perm l) : (attrsWire l').length = (attrsWire l).length := by
  rw [length_attrsWire_eq_sum, length_attrsWire_eq_sum]
  exact (h.map _).sum_nat

theorem length_attrsWire_arrange : (attrsWire (arrange l)).length = (attrsWire l).length := by
  have many : ∀ l : List Attr, (∀ a ∈ l, a.arrange.wire.length = a.wire.length) →
      (attrsWire (arrange l)).length = (attrsWire l).length := by
    intro l h
    rw [length_attrsWire_perm arrange_perm, length_attrsWire_eq_sum, length_attrsWire_eq_sum,
      List.map_map]
    exact congrArg List.sum (List.map_congr_left h)
  have one : ∀ a : Attr, a.arrange.wire.length = a.wire.length := by
    intro a
    induction a using Attr.tree_induction with
    | plain t s k d => rfl
    | set t s k l ih =>
      simp only [Attr.arrange_set, Attr.wire, List.length_append, many l ih]
  exact many l fun a _ => one a

theorem attrsDepth_le {n : Nat} : attrsDepth l ≤ n ↔ ∀ a ∈ l, a.setDepth ≤ n := by
  induction l with
  | nil => simp [attrsDepth]
  | cons a l ih => simp [attrsDepth, ih]

theorem attrsDepth_append : attrsDepth (l ++ l') = max (attrsDepth l) (attrsDepth l') := by
  induction l with
  | nil => simp [attrsDepth]
  | cons a l ih => simp [attrsDepth, ih, max_assoc]

theorem attrsDepth_arrange : attrsDepth (arrange l) = attrsDepth l := by
  have many : ∀ l : List Attr, (∀ a ∈ l, a.arrange.setDepth = a.setDepth) →
      attrsDepth (arrange l) = attrsDepth l := by
    intro l h
    have hle : ∀ n, attrsDepth (arrange l) ≤ n ↔ attrsDepth l ≤ n := by
      intro n
      rw [attrsDepth_le, attrsDepth_le]
      simp only [arrange_perm.mem_iff, List.forall_mem_map]
      exact forall₂_congr fun a ha => by rw [h a ha]
    exact le_antisymm ((hle _).mpr le_rfl) ((hle _).mp le_rfl)
  have one : ∀ a : Attr, a.arrange.setDepth = a.setDepth := by
    intro a
    induction a using Attr.tree_induction with
    | plain t s k d => rfl
    | set t s k l ih => simp only [Attr.arrange_set, Attr.setDepth, many l ih]
  exact many l fun a _ => one a

/-! ## Sizes and wire lengths -/

theorem wire_length_le_of_mem (h : a ∈ l) : a.wire.length ≤ (attrsWire l).length := by
  induction l with
  | nil => exact absurd h List.not_mem_nil
  | cons b l ih =>
    rw [attrsWire, List.length_append]
    rcases List.mem_cons.mp h with rfl | h
    · omega
    · exact (ih h).trans (Nat.le_add_left _ _)

theorem length_headWire_le (k : Bytes) (t : Int) (isSet s : Bool) : (headWire t isSet s k).length ≤
    11 + (if k.length ≠ 0 then 10 + k.length else 0) := by
  have h1 := length_intBytes_le (t % 2 ^ 64).toNat
  have h2 := length_intBytes_le k.length
  have hf := length_intBytes_flags (k.length != 0) isSet s
  unfold headWire
  rw [List.length_append, List.length_append, hf]
  split_ifs
  · rw [List.length_append]
    omega
  · rw [List.length_nil]
    omega

theorem le_length_headWire (k : Bytes) (t : Int) (isSet s : Bool) :
    2 + (if k.length ≠ 0 then 1 + k.length else 0) ≤ (headWire t isSet s k).length := by
  have h1 := length_intBytes_pos (t % 2 ^ 64).toNat
  have h2 := length_intBytes_pos k.length
  have hf := length_intBytes_flags (k.length != 0) isSet s
  unfold headWire
  rw [List.length_append, List.length_append, hf]
  split_ifs
  · rw [List.length_append]
    omega
  · rw [List.length_nil]
    omega

theorem key_length_le_head (t : Int) (isSet s : Bool) (k : Bytes) :
    k.length ≤ (headWire t isSet s k).length := by
  unfold headWire
  rw [List.length_append, List.length_append]
  split_ifs
  · rw [List.length_append]
    omega
  · omega

/-- A tree with a short wire form fits. -/
theorem attrsFit_of_wire (h : (attrsWire l).length + 256 ≤ SIZE_MAX) : AttrsFit l := by
  have one : ∀ a : Attr, a.wire.length + 256 ≤ SIZE_MAX → a.Everywhere Attr.Fits := by
    intro a
    induction a using Attr.tree_induction with
    | plain t s k d =>
      intro h
      have hk := key_length_le_head t false s k
      rw [Attr.wire, List.length_append, List.length_append] at h
      simp only [Attr.Everywhere, Attr.Fits, Attr.key, Attr.datalen]
      omega
    | set t s k l ih =>
      intro h
      have hk := key_length_le_head t true s k
      rw [Attr.wire, List.length_append, List.length_append] at h
      refine ⟨?_, attrsEverywhere_iff.mpr fun a ha => ih a ha ?_⟩
      · simp only [Attr.Fits, Attr.key, Attr.datalen, Attr.sizeofAttrSet]
        omega
      · have hle := wire_length_le_of_mem ha
        omega
  exact attrsEverywhere_iff.mpr fun a ha => one a (by have := wire_length_le_of_mem ha; omega)

/-- What an attribute is charged covers its wire form, and is at most ten times as much. -/
theorem totalSize_bounds (a : Attr) :
    a.wire.length ≤ a.totalSize ∧ a.totalSize ≤ 10 * a.wire.length := by
  induction a using Attr.tree_induction with
  | plain t s k d =>
    have hb := length_headWire_le k t false s
    have hb' := le_length_headWire k t false s
    have hd := length_intBytes_le d.length
    have hd' := length_intBytes_pos d.length
    rw [Attr.wire, List.length_append, List.length_append]
    simp only [Attr.totalSize, Attr.size, Attr.key, Attr.datalen, Attr.dataIsAttrSet,
      Bool.false_eq_true, if_false]
    by_cases hk0 : k.length = 0 <;> simp only [hk0, ne_eq, not_true_eq_false,
      not_false_eq_true, if_true, if_false] at hb hb' ⊢ <;> omega
  | set t s k l ih =>
    have hb := length_headWire_le k t true s
    have hb' := le_length_headWire k t true s
    have hd := length_intBytes_le (attrsWire l).length
    have hd' := length_intBytes_pos (attrsWire l).length
    have hl : (attrsWire l).length ≤ attrsSize l ∧ attrsSize l ≤ 10 * (attrsWire l).length := by
      rw [length_attrsWire_eq_sum, attrsSize_eq_sum, ← List.sum_map_mul_left]
      exact ⟨List.sum_le_sum fun a ha => (ih a ha).1, List.sum_le_sum fun a ha => (ih a ha).2⟩
    rw [Attr.wire, List.length_append, List.length_append]
    simp only [Attr.totalSize, Attr.size, Attr.key, Attr.dataIsAttrSet, if_true]
    by_cases hk0 : k.length = 0 <;> simp only [hk0, ne_eq, not_true_eq_false,
      not_false_eq_true, if_true, if_false] at hb hb' ⊢ <;> omega

/-- **What an LSA is charged covers its wire form, and is at most ten times as much.** -/
theorem attrsSize_bounds (l : AttrSet) :
    (attrsWire l).length ≤ attrsSize l ∧ attrsSize l ≤ 10 * (attrsWire l).length := by
  rw [length_attrsWire_eq_sum, attrsSize_eq_sum, ← List.sum_map_mul_left]
  exact ⟨List.sum_le_sum fun a _ => (totalSize_bounds a).1,
    List.sum_le_sum fun a _ => (totalSize_bounds a).2⟩

end Dvpn
