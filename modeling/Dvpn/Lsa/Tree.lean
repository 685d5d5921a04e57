import Dvpn.Lsa.Basic

/-!
# Attribute trees: predicates, sizes and the mutators

`AttrsEverywhere p l` says that `p` holds of every attribute of the tree `l`, at every level.
`AttrsWf`, `NoEmptySet` and `AttrsFit` are instances of it. `attrsSize` adds up `lsa_attr_size`
over a whole tree, `setDepth` counts the levels of nested sets.

* `lsaAttrSetFindAttr_eq_some` / `lsaAttrSetFindAttr_eq_none`: the lookup in an ordered set.
* `lsaAttrSetAddAttr_dup`, `lsaAttrSetAddAttr_fresh` and the same for sets: an insertion aborts on
  a (type, key) pair that the lookup finds, and otherwise inserts the attribute and counts its
  size.
* `attrTreeFree_isOk`: the release of a tree succeeds iff no nested set is empty.
-/

namespace Dvpn

/-! ## Predicates over a tree -/

mutual

/-- `p` holds of the attribute and of everything below it. -/
def Attr.Everywhere (p : Attr → Prop) : Attr → Prop
  | .plain t s k d => p (.plain t s k d)
  | .set t s k l => p (.set t s k l) ∧ AttrsEverywhere p l

/-- `p` holds of every attribute of the tree, at every level. -/
def AttrsEverywhere (p : Attr → Prop) : AttrSet → Prop
  | [] => True
  | a :: l => a.Everywhere p ∧ AttrsEverywhere p l

end

/-- The children of a nested set; none for plain data. -/
def Attr.children : Attr → AttrSet
  | .plain _ _ _ _ => []
  | .set _ _ _ l => l

/-- Every set of the tree is strictly ordered by its (type, key) pairs. -/
def AttrsWf (l : AttrSet) : Prop :=
  Avl.Sorted Attr.pair l ∧ AttrsEverywhere (fun a => Avl.Sorted Attr.pair a.children) l

/-- The attribute is not an empty set. -/
def Attr.Nonempty (a : Attr) : Prop := a.dataIsAttrSet → a.children ≠ []

/-- No nested set of the tree is empty. -/
def NoEmptySet (l : AttrSet) : Prop := AttrsEverywhere Attr.Nonempty l

/-- The key and the data of the attribute leave room in a `size_t`. -/
def Attr.Fits (a : Attr) : Prop := a.key.length + a.datalen + 128 ≤ SIZE_MAX

/-- Every attribute of the tree fits a `size_t`. -/
def AttrsFit (l : AttrSet) : Prop := AttrsEverywhere Attr.Fits l

variable {p : Attr → Prop} {l : AttrSet} {a : Attr}

theorem everywhere_iff : a.Everywhere p ↔ p a ∧ AttrsEverywhere p a.children := by
  cases a <;> simp [Attr.Everywhere, AttrsEverywhere, Attr.children]

theorem attrsEverywhere_iff : AttrsEverywhere p l ↔ ∀ a ∈ l, a.Everywhere p := by
  induction l with
  | nil => simp [AttrsEverywhere]
  | cons b l ih => simp [AttrsEverywhere, ih]

theorem attrsEverywhere_append {l' : AttrSet} :
    AttrsEverywhere p (l ++ l') ↔ AttrsEverywhere p l ∧ AttrsEverywhere p l' := by
  simp only [attrsEverywhere_iff, List.mem_append, or_imp, forall_and]

theorem attrsEverywhere_perm {l' : AttrSet} (h : l'.Perm l) :
    AttrsEverywhere p l' ↔ AttrsEverywhere p l := by
  simp only [attrsEverywhere_iff, h.mem_iff]

/-- A stronger property of every attribute is one of every attribute. -/
theorem attrsEverywhere_imp {q : Attr → Prop} (h : ∀ a, p a → q a) (hl : AttrsEverywhere p l) :
    AttrsEverywhere q l := by
  have one : ∀ a : Attr, a.Everywhere p → a.Everywhere q := by
    intro a
    induction a using Attr.tree_induction with
    | plain t s k d => exact h _
    | set t s k l ih =>
      rintro ⟨ha, hl⟩
      exact ⟨h _ ha, attrsEverywhere_iff.mpr fun b hb => ih b hb (attrsEverywhere_iff.mp hl b hb)⟩
  exact attrsEverywhere_iff.mpr fun a ha => one a (attrsEverywhere_iff.mp hl a ha)

section Decidable

variable [DecidablePred p]

mutual

/-- `Attr.Everywhere` is decidable. -/
def decidableEverywhere : ∀ a : Attr, Decidable (a.Everywhere p)
  | .plain t s k d => inferInstanceAs (Decidable (p (.plain t s k d)))
  | .set t s k l =>
    have := decidableAttrsEverywhere l
    inferInstanceAs (Decidable (p (.set t s k l) ∧ AttrsEverywhere p l))

/-- `AttrsEverywhere` is decidable. -/
def decidableAttrsEverywhere : ∀ l : AttrSet, Decidable (AttrsEverywhere p l)
  | [] => inferInstanceAs (Decidable True)
  | a :: l =>
    have := decidableEverywhere a
    have := decidableAttrsEverywhere l
    inferInstanceAs (Decidable (a.Everywhere p ∧ AttrsEverywhere p l))

end

instance : Decidable (AttrsEverywhere p l) := decidableAttrsEverywhere l

end Decidable

instance : DecidablePred Attr.Nonempty := fun a =>
  inferInstanceAs (Decidable (a.dataIsAttrSet → a.children ≠ []))

instance : DecidablePred AttrsWf := fun l => inferInstanceAs (Decidable
  (l.Pairwise (fun a b => a.pair < b.pair) ∧
    AttrsEverywhere (fun a => a.children.Pairwise fun a b => a.pair < b.pair) l))

theorem attrsWf_nil : AttrsWf [] := ⟨Avl.sorted_nil, trivial⟩

theorem attrsWf_cons : AttrsWf (a :: l) ↔
    (∀ b ∈ l, a.pair < b.pair) ∧ AttrsWf a.children ∧ AttrsWf l := by
  unfold AttrsWf
  rw [Avl.sorted_cons, AttrsEverywhere, everywhere_iff]
  tauto

/-! ## Sizes -/

/-- The value of `lsa_attr_size`. -/
def Attr.size (a : Attr) : Nat :=
  30 + (if a.key.length ≠ 0 then 10 + a.key.length else 0) +
    (if a.dataIsAttrSet then 0 else a.datalen)

mutual

/-- The sizes of the attribute and of everything below it. -/
def Attr.totalSize : Attr → Nat
  | .plain t s k d => (Attr.plain t s k d).size
  | .set t s k l => (Attr.set t s k l).size + attrsSize l

/-- The sizes of all attributes of the tree. -/
def attrsSize : AttrSet → Nat
  | [] => 0
  | a :: l => a.totalSize + attrsSize l

end

mutual

/-- The levels of nested sets from the attribute down. -/
def Attr.setDepth : Attr → Nat
  | .plain _ _ _ _ => 0
  | .set _ _ _ l => attrsDepth l + 1

/-- The levels of nested sets below a set. -/
def attrsDepth : AttrSet → Nat
  | [] => 0
  | a :: l => max a.setDepth (attrsDepth l)

end

theorem attrsSize_eq_sum : attrsSize l = (l.map Attr.totalSize).sum := by
  induction l with
  | nil => rfl
  | cons a l ih => simp [attrsSize, ih]

theorem attrsSize_perm {l' : AttrSet} (h : l'.Perm l) : attrsSize l' = attrsSize l := by
  rw [attrsSize_eq_sum, attrsSize_eq_sum]
  exact (h.map _).sum_nat

theorem lsaAttrSize_eq (h : a.Fits) : lsaAttrSize a = .ok a.size := by
  unfold Attr.Fits at h
  unfold lsaAttrSize Attr.size MAX_SERIALISED_INT_LEN
  have h1 : ¬ SIZE_MAX - 20 < 10 := by omega
  have h2 : ¬ SIZE_MAX - 30 < a.datalen := by omega
  have h3 : ¬ SIZE_MAX - 30 < a.key.length := by omega
  have h4 : ¬ SIZE_MAX - (30 + a.key.length) < 10 := by omega
  have h5 : ¬ SIZE_MAX - (30 + a.key.length + 10) < a.datalen := by omega
  by_cases hk : a.key.length = 0 <;> cases hs : a.dataIsAttrSet
  · simp [hk, h1, h2]
  · simp [hk, h1]
  · simp [hk, h3, h4, h5]
    omega
  · simp [hk, h3, h4]
    omega

theorem attrAlloc_eq {keylen datalen : Nat} (h : keylen + datalen + 128 ≤ SIZE_MAX) :
    attrAlloc keylen datalen = .ok () := by
  have hr : roundUp keylen ≤ keylen + 7 := by unfold roundUp; omega
  unfold attrAlloc sizeofAttr
  rw [if_neg (by omega), if_neg (by omega)]

/-- `attr_alloc` and `lsa_attr_size` do not abort on the attribute. -/
structure Attr.Allocated (a : Attr) : Prop where
  alloc : attrAlloc a.key.length a.datalen = .ok ()
  size : lsaAttrSize a = .ok a.size

theorem Attr.Fits.allocated (h : a.Fits) : a.Allocated :=
  ⟨attrAlloc_eq h, lsaAttrSize_eq h⟩

/-- The contents of a set are allocated on their own. -/
theorem Attr.Allocated.set {t : Int} {s : Bool} {k : Bytes} {l' : AttrSet}
    (h : (Attr.set t s k l).Allocated) : (Attr.set t s k l').Allocated :=
  ⟨h.alloc, h.size⟩

theorem AttrsFit.allocated (h : AttrsFit l) : AttrsEverywhere Attr.Allocated l :=
  attrsEverywhere_imp (fun _ hf => hf.allocated) h

/-- What `lsa_attr_size` returns, when it does not abort. -/
theorem lsaAttrSize_ok {n : Nat} (h : lsaAttrSize a = .ok n) : n = a.size := by
  unfold lsaAttrSize MAX_SERIALISED_INT_LEN at h
  unfold Attr.size
  simp only [ok_bind, error_bind] at h
  split_ifs at h ⊢ <;> (cases h; omega)

/-! ## Lookup and insertion -/

theorem lsaAttrSetFindAttr_eq_some {t : Int} {k : Bytes} (hs : Avl.Sorted Attr.pair l)
    (hk : k.length ≤ 65536) :
    lsaAttrSetFindAttr l t k = some a ↔ a ∈ l ∧ a.type = t ∧ a.key = k := by
  unfold lsaAttrSetFindAttr
  rw [if_neg (not_lt.mpr hk), Avl.find_eq_some hs (lsaAttrCompareKeys_locates t k)]
  unfold Attr.pair
  rw [toLex_inj, Prod.mk.injEq]

/-- The attribute a lookup finds has the type and the key looked for, ordered set or not. -/
theorem lsaAttrSetFindAttr_sound {t : Int} {k : Bytes} (h : lsaAttrSetFindAttr l t k = some a) :
    a ∈ l ∧ a.type = t ∧ a.key = k := by
  unfold lsaAttrSetFindAttr at h
  split_ifs at h
  obtain ⟨hm, h0⟩ := Avl.find_mem h
  have e := ((lsaAttrCompareKeys_locates t k).zero a).mp h0
  unfold Attr.pair at e
  rw [toLex_inj, Prod.mk.injEq] at e
  exact ⟨hm, e.1.symm, e.2.symm⟩

theorem lsaAttrSetFindAttr_eq_none {t : Int} {k : Bytes} (hs : Avl.Sorted Attr.pair l)
    (h : ∀ a ∈ l, a.pair ≠ toLex (t, k)) : lsaAttrSetFindAttr l t k = none := by
  unfold lsaAttrSetFindAttr
  split_ifs
  · rfl
  · exact (Avl.find_eq_none hs (lsaAttrCompareKeys_locates t k)).mpr h

section Mutators

variable {lsa : LsaObj} {t : Int} {s : Bool} {k d : Bytes}

theorem find_isSome_of_dup (hs : Avl.Sorted Attr.pair l) (hk : k.length ≤ 65536)
    (hd : ∃ a ∈ l, a.pair = toLex (t, k)) : (lsaAttrSetFindAttr l t k).isSome = true := by
  obtain ⟨a, ha, e⟩ := hd
  unfold Attr.pair at e
  rw [toLex_inj, Prod.mk.injEq] at e
  rw [(lsaAttrSetFindAttr_eq_some hs hk).mpr ⟨ha, e⟩]
  rfl

/-- A pair that the lookup finds is not inserted again: the program aborts. -/
theorem lsaAttrSetAddAttr_dup (hr : lsa.refcount = 1) (hs : Avl.Sorted Attr.pair l)
    (hk : k.length ≤ 65536) (hd : ∃ a ∈ l, a.pair = toLex (t, k)) :
    lsaAttrSetAddAttr lsa l t s k d = .error .lsaAttrSetAddAttr := by
  simp [lsaAttrSetAddAttr, hr, find_isSome_of_dup hs hk hd]

theorem lsaAttrSetAddAttrSet_dup (hr : lsa.refcount = 1) (hs : Avl.Sorted Attr.pair l)
    (hk : k.length ≤ 65536) (hd : ∃ a ∈ l, a.pair = toLex (t, k)) :
    lsaAttrSetAddAttrSet lsa l t s k = .error .lsaAttrSetAddAttrSet := by
  simp [lsaAttrSetAddAttrSet, hr, find_isSome_of_dup hs hk hd]

/-- A new pair is inserted and its size counted. -/
theorem lsaAttrSetAddAttr_new (hr : lsa.refcount = 1) (hs : Avl.Sorted Attr.pair l)
    (ha : (Attr.plain t s k d).Allocated) {l' : AttrSet}
    (hi : Avl.insert compareAttrKeys (.plain t s k d) l = some l') :
    lsaAttrSetAddAttr lsa l t s k d =
      .ok (some ({ lsa with bytes := lsa.bytes + (Attr.plain t s k d).size }, l')) := by
  have hn : lsaAttrSetFindAttr l t k = none := by
    refine lsaAttrSetFindAttr_eq_none hs fun a ha e => ?_
    have hnone : Avl.insert compareAttrKeys (.plain t s k d) l = none :=
      (Avl.insert_eq_none compareAttrKeys_orders hs).mpr ⟨a, ha, e⟩
    rw [hnone] at hi
    exact absurd hi (by simp)
  have halloc : attrAlloc k.length d.length = .ok () := ha.alloc
  simp [lsaAttrSetAddAttr, hr, hn, hi, halloc, ha.size]

theorem lsaAttrSetAddAttr_fresh (hr : lsa.refcount = 1) (hs : Avl.Sorted Attr.pair l)
    (hf : (Attr.plain t s k d).Fits) {l' : AttrSet}
    (hi : Avl.insert compareAttrKeys (.plain t s k d) l = some l') :
    lsaAttrSetAddAttr lsa l t s k d =
      .ok (some ({ lsa with bytes := lsa.bytes + (Attr.plain t s k d).size }, l')) :=
  lsaAttrSetAddAttr_new hr hs hf.allocated hi

/-- The child set is stored where the insertion put the attribute. -/
theorem lsaAttrSetAddAttrSet_new (hr : lsa.refcount = 1) (hs : Avl.Sorted Attr.pair l)
    (ha : (Attr.set t s k []).Allocated) (hn : ∀ a ∈ l, a.pair ≠ toLex (t, k)) :
    ∃ store, lsaAttrSetAddAttrSet lsa l t s k =
        .ok (some ({ lsa with bytes := lsa.bytes + (Attr.set t s k []).size }, store)) ∧
      ∀ child, Avl.insert compareAttrKeys (.set t s k child) l = some (store child) := by
  have hins : ∀ child, ∃ l', Avl.insert compareAttrKeys (.set t s k child) l = some l' :=
    fun child => Avl.exists_insert compareAttrKeys_orders hs hn
  obtain ⟨l', hl'⟩ := hins []
  have hfind := lsaAttrSetFindAttr_eq_none hs hn
  have halloc : attrAlloc k.length Attr.sizeofAttrSet = .ok () := ha.alloc
  refine ⟨fun child => (Avl.insert compareAttrKeys (.set t s k child) l).getD l', ?_, ?_⟩
  · simp [lsaAttrSetAddAttrSet, hr, hfind, hl', halloc, ha.size]
  · intro child
    obtain ⟨l'', hl''⟩ := hins child
    simp [hl'']

theorem lsaAttrSetAddAttrSet_fresh (hr : lsa.refcount = 1) (hs : Avl.Sorted Attr.pair l)
    (hf : (Attr.set t s k []).Fits) (hn : ∀ a ∈ l, a.pair ≠ toLex (t, k)) :
    ∃ store, lsaAttrSetAddAttrSet lsa l t s k =
        .ok (some ({ lsa with bytes := lsa.bytes + (Attr.set t s k []).size }, store)) ∧
      ∀ child, Avl.insert compareAttrKeys (.set t s k child) l = some (store child) :=
  lsaAttrSetAddAttrSet_new hr hs hf.allocated hn

end Mutators

/-! ## Release -/

theorem attrFree_set_isOk {t : Int} {s : Bool} {k : Bytes} {n : Nat}
    (hf : (Attr.set t s k []).Fits) :
    attrFree (.set t s k l) n =
      if l.isEmpty then .error .attrTreeFreeNull
      else attrTreeFree l (n - (Attr.set t s k []).size) := by
  simp [attrFree, lsaAttrSize_eq hf]

/-- **A tree is released without a fault iff no nested set is empty.** -/
theorem attrTreeFree_isOk (hf : AttrsFit l) (n : Nat) :
    (∃ m, attrTreeFree l n = .ok m) ↔ NoEmptySet l := by
  have one : ∀ a : Attr, a.Everywhere Attr.Fits → ∀ n,
      (∃ m, attrFree a n = .ok m) ↔ a.Everywhere Attr.Nonempty := by
    intro a
    induction a using Attr.tree_induction with
    | plain t s k d =>
      intro hf n
      have hsz := lsaAttrSize_eq (everywhere_iff.mp hf).1
      simp [attrFree, hsz, Attr.Everywhere, Attr.Nonempty, Attr.dataIsAttrSet]
    | set t s k l ih =>
      intro hf n
      obtain ⟨hfa, hfl⟩ := everywhere_iff.mp hf
      rw [attrFree_set_isOk hfa, everywhere_iff]
      have hrest : ∀ (l' : AttrSet), (∀ a ∈ l', a ∈ l) → ∀ n,
          (∃ m, attrTreeFree l' n = .ok m) ↔ AttrsEverywhere Attr.Nonempty l' := by
        intro l'
        induction l' with
        | nil => exact fun _ n => ⟨fun _ => trivial, fun _ => ⟨n, rfl⟩⟩
        | cons b l' ih' =>
          intro hsub n
          have hb := hsub b List.mem_cons_self
          have h1 := ih b hb (attrsEverywhere_iff.mp hfl b hb)
          have h2 := ih' fun a ha => hsub a (List.mem_cons_of_mem b ha)
          simp only [attrTreeFree, AttrsEverywhere]
          rw [← h1 n]
          cases hfree : attrFree b n with
          | error e => simp
          | ok m => simp [h2 m]
      cases l with
      | nil => simp [Attr.Nonempty, Attr.dataIsAttrSet, Attr.children]
      | cons b l =>
        simpa [Attr.Nonempty, Attr.children] using hrest (b :: l) (fun _ h => h) _
  induction l generalizing n with
  | nil => exact ⟨fun _ => trivial, fun _ => ⟨n, rfl⟩⟩
  | cons b l ih =>
    obtain ⟨hfb, hfl⟩ := hf
    have h1 := one b hfb n
    simp only [attrTreeFree, NoEmptySet, AttrsEverywhere] at ih ⊢
    rw [← h1]
    cases hfree : attrFree b n with
    | error e => simp
    | ok m => simpa using ih hfl m

end Dvpn
