import Dvpn.Lsa.Tree

/-!
# Copies and changes of an LSA (`lsa.c:121-162`, `lsa.c:252-263`, `lsa.c:329-417`)

The mutators of `lsa.c` that work on the attributes of an LSA itself, and `lsa_clone`.

`HasAttrs lsa id l` says that the object is an LSA of `id` which nobody else refers to, with the
attributes `l` in some order.

* `lsaClone_eq`: a clone has the attributes of the original, in an object of its own.
* `HasAttrs.add`, `HasAttrs.addSet`, `HasAttrs.del`: an attribute with a new (type, key) pair joins
  the others, and an attribute that is there leaves them.
* `HasAttrs.find`, `HasAttrs.find_none`: the lookup sees exactly these attributes.
-/

namespace Dvpn

/-! ## The code -/

mutual

/-- One round of the loop of `lsa_attr_set_clone`. -/
def attrClone : Attr → LsaObj → AttrSet → Except Crash (LsaObj × AttrSet)
  | .plain t s k d, lsa, dst => do
    match ← lsaAttrSetAddAttr lsa dst t s k d with
    | some r => return r
    | none => return (lsa, dst)
  | .set t s k l, lsa, dst => do
    match ← lsaAttrSetAddAttrSet lsa dst t s k with
    | none => throw .attrSetNull
    | some (lsa, store) =>
      let (lsa, child) ← lsaAttrSetClone l lsa []
      return (lsa, store child)

/-- `lsa_attr_set_clone` (`lsa.c:121-147`) of a set into the set `dst`. -/
def lsaAttrSetClone : AttrSet → LsaObj → AttrSet → Except Crash (LsaObj × AttrSet)
  | [], lsa, dst => return (lsa, dst)
  | a :: l, lsa, dst => do
    let (lsa, dst) ← attrClone a lsa dst
    lsaAttrSetClone l lsa dst

end

/-- `lsa_clone` (`lsa.c:149-160`). -/
def lsaClone (lsa : Lsa) : Except Crash LsaObj := do
  let (obj, root) ← lsaAttrSetClone lsa.root (lsaAlloc lsa.id) []
  return { obj with root := root }

/-- `lsa_add_attr` (`lsa.c:252-263`); nobody looks at what it returns. -/
def lsaAddAttr (lsa : LsaObj) (type : Int) (sign : Bool) (key data : Bytes) :
    Except Crash LsaObj := do
  if lsa.refcount ≠ 1 then throw .refcount
  match ← lsaAttrSetAddAttr lsa lsa.root type sign key data with
  | some (lsa, root) => return { lsa with root := root }
  | none => return lsa

/-- `lsa_add_attr_set` (`lsa.c:329-340`), which returns as `lsa_attr_set_add_attr_set` does. -/
def lsaAddAttrSet (lsa : LsaObj) (type : Int) (sign : Bool) (key : Bytes) :
    Except Crash (Option (LsaObj × (AttrSet → AttrSet))) := do
  if lsa.refcount ≠ 1 then throw .refcount
  lsaAttrSetAddAttrSet lsa lsa.root type sign key

/-- `lsa_del_attr` (`lsa.c:379-400`). -/
def lsaDelAttr (lsa : LsaObj) (attr : Attr) : Except Crash LsaObj := do
  if lsa.refcount ≠ 1 then throw .refcount
  let bytes := lsa.bytes - (← lsaAttrSize attr)
  let root := Avl.delete compareAttrKeys attr lsa.root
  match attr with
  | .plain _ _ _ _ => return { lsa with bytes := bytes, root := root }
  | .set _ _ _ l =>
    if l.isEmpty then return { lsa with bytes := bytes, root := root }
    else return { lsa with bytes := ← attrTreeFree l bytes, root := root }

/-- `lsa_del_attr_bykey` (`lsa.c:402-417`). -/
def lsaDelAttrBykey (lsa : LsaObj) (type : Int) (key : Bytes) : Except Crash LsaObj := do
  if lsa.refcount ≠ 1 then throw .refcount
  match lsaFindAttr lsa.toLsa type key with
  | none => throw .lsaDelAttrBykey
  | some attr => lsaDelAttr lsa attr

/-! ## Clones -/

section Clone

variable {l dst : AttrSet} {lsa : LsaObj} {t : Int} {s : Bool} {k d : Bytes}

/-- A set whose elements are all above those of `dst` is cloned to the end of `dst`. -/
theorem lsaAttrSetClone_of_attrs
    (h : ∀ a ∈ l, ∀ (lsa : LsaObj) (dst : AttrSet), lsa.refcount = 1 → AttrsWf a.children →
      a.Everywhere Attr.Allocated → Avl.Sorted Attr.pair dst → (∀ z ∈ dst, z.pair < a.pair) →
      attrClone a lsa dst = .ok ({ lsa with bytes := lsa.bytes + a.totalSize }, dst ++ [a]))
    (hr : lsa.refcount = 1) (hwf : AttrsWf l) (hf : AttrsEverywhere Attr.Allocated l)
    (hs : Avl.Sorted Attr.pair dst) (hlt : ∀ z ∈ dst, ∀ a ∈ l, z.pair < a.pair) :
    lsaAttrSetClone l lsa dst =
      .ok ({ lsa with bytes := lsa.bytes + attrsSize l }, dst ++ l) := by
  induction l generalizing lsa dst with
  | nil => simp [lsaAttrSetClone, attrsSize]
  | cons a l ih =>
    obtain ⟨hal, hwa, hwl⟩ := attrsWf_cons.mp hwf
    obtain ⟨hfa, hfl⟩ := hf
    have hza : ∀ z ∈ dst, z.pair < a.pair := fun z hz => hlt z hz a List.mem_cons_self
    have hs' : Avl.Sorted Attr.pair (dst ++ [a]) := by
      refine Avl.sorted_append.mpr ⟨hs, List.pairwise_singleton _ _, fun z hz b hb => ?_⟩
      rw [List.mem_singleton.mp hb]
      exact hza z hz
    have hlt' : ∀ z ∈ dst ++ [a], ∀ b ∈ l, z.pair < b.pair := by
      intro z hz b hb
      rcases List.mem_append.mp hz with hz | hz
      · exact hlt z hz b (List.mem_cons_of_mem a hb)
      · rw [List.mem_singleton.mp hz]
        exact hal b hb
    have hr' : ({ lsa with bytes := lsa.bytes + a.totalSize } : LsaObj).refcount = 1 := hr
    have hrest := ih (fun b hb => h b (List.mem_cons_of_mem a hb)) hr' hwl hfl hs' hlt'
    rw [lsaAttrSetClone, h a List.mem_cons_self lsa dst hr hwa hfa hs hza]
    simp only [ok_bind, hrest]
    simp [attrsSize, Nat.add_assoc]

theorem attrClone_eq (a : Attr) : ∀ (lsa : LsaObj) (dst : AttrSet), lsa.refcount = 1 →
    AttrsWf a.children → a.Everywhere Attr.Allocated → Avl.Sorted Attr.pair dst →
    (∀ z ∈ dst, z.pair < a.pair) →
    attrClone a lsa dst = .ok ({ lsa with bytes := lsa.bytes + a.totalSize }, dst ++ [a]) := by
  induction a using Attr.tree_induction with
  | plain t s k d =>
    intro lsa dst hr _ hf hs hlt
    have hins := Avl.insert_last compareAttrKeys_orders hlt
    rw [attrClone, lsaAttrSetAddAttr_new hr hs (everywhere_iff.mp hf).1 hins]
    rfl
  | set t s k l ih =>
    intro lsa dst hr hwf hf hs hlt
    obtain ⟨hfa, hfl⟩ := everywhere_iff.mp hf
    have hne : ∀ z ∈ dst, z.pair ≠ toLex (t, k) := fun z hz => ne_of_lt (hlt z hz)
    obtain ⟨store, hadd, hstore⟩ := lsaAttrSetAddAttrSet_new (s := s) hr hs hfa.set hne
    have hchild := hstore l
    rw [Avl.insert_last compareAttrKeys_orders hlt] at hchild
    rw [attrClone, hadd]
    simp only [ok_bind]
    rw [lsaAttrSetClone_of_attrs ih (by exact hr) hwf hfl Avl.sorted_nil
      (fun z hz => absurd hz List.not_mem_nil)]
    have hsize : (Attr.set t s k []).size = (Attr.set t s k l).size := rfl
    simp [← Option.some.inj hchild, Attr.totalSize, hsize, Nat.add_assoc]

/-- **A clone has the attributes of the original**, in an object of its own. -/
theorem lsaClone_eq {lsa : Lsa} (hwf : AttrsWf lsa.root)
    (hf : AttrsEverywhere Attr.Allocated lsa.root) : lsaClone lsa = .ok
      { id := lsa.id, root := lsa.root, refcount := 1,
        bytes := MAX_SERIALISED_INT_LEN + NODE_ID_LEN + attrsSize lsa.root } := by
  unfold lsaClone
  rw [lsaAttrSetClone_of_attrs (fun a _ => attrClone_eq a) rfl hwf hf Avl.sorted_nil
    (fun z hz => absurd hz List.not_mem_nil)]
  rfl

end Clone

/-! ## What an object holds -/

/-- The object, which nobody else refers to, is an LSA of `id` with the attributes `l`. -/
structure HasAttrs (lsa : LsaObj) (id : NodeId) (l : List Attr) : Prop where
  id : lsa.id = id
  refcount : lsa.refcount = 1
  sorted : Avl.Sorted Attr.pair lsa.root
  perm : lsa.root.Perm l

namespace HasAttrs

variable {lsa : LsaObj} {id : NodeId} {l l' : List Attr} {a : Attr} {t : Int} {s : Bool}
  {k d : Bytes}

theorem of_perm (h : HasAttrs lsa id l) (hp : l.Perm l') : HasAttrs lsa id l' :=
  { h with perm := h.perm.trans hp }

theorem nodup_pair (h : HasAttrs lsa id l) : (l.map Attr.pair).Nodup :=
  (h.perm.map Attr.pair).nodup_iff.mp (List.pairwise_map.mpr (h.sorted.imp fun hlt => ne_of_lt hlt))

/-- The other attributes have other pairs. -/
theorem pair_ne (h : HasAttrs lsa id (a :: l)) : ∀ b ∈ l, b.pair ≠ a.pair := by
  intro b hb e
  have hn := h.nodup_pair
  rw [List.map_cons, List.nodup_cons] at hn
  exact hn.1 (e ▸ List.mem_map_of_mem hb)

theorem find (h : HasAttrs lsa id l) (ha : a ∈ l) (hk : a.key.length ≤ 65536) :
    lsaFindAttr lsa.toLsa a.type a.key = some a :=
  (lsaAttrSetFindAttr_eq_some h.sorted hk).mpr ⟨h.perm.mem_iff.mpr ha, rfl, rfl⟩

theorem find_none (h : HasAttrs lsa id l) (hn : ∀ a ∈ l, a.pair ≠ toLex (t, k)) :
    lsaFindAttr lsa.toLsa t k = none :=
  lsaAttrSetFindAttr_eq_none h.sorted fun a ha => hn a (h.perm.mem_iff.mp ha)

/-- **A new attribute joins the others.** -/
theorem add (h : HasAttrs lsa id l) (hn : ∀ a ∈ l, a.pair ≠ toLex (t, k))
    (hf : (Attr.plain t s k d).Fits) :
    ∃ lsa', lsaAddAttr lsa t s k d = .ok lsa' ∧ HasAttrs lsa' id (.plain t s k d :: l) := by
  have hfresh : ∀ a ∈ lsa.root, a.pair ≠ (Attr.plain t s k d).pair :=
    fun a ha => hn a (h.perm.mem_iff.mp ha)
  obtain ⟨root, hins⟩ := Avl.exists_insert compareAttrKeys_orders h.sorted hfresh
  have hadd := lsaAttrSetAddAttr_fresh h.refcount h.sorted hf hins
  refine ⟨{ lsa with bytes := lsa.bytes + (Attr.plain t s k d).size, root := root }, ?_,
    h.id, h.refcount, Avl.sorted_insert compareAttrKeys_orders h.sorted hins,
    (Avl.insert_perm hins).trans (h.perm.cons _)⟩
  simp [lsaAddAttr, hadd, h.refcount]

/-- **A new set joins the others**, with the contents that are stored into it. -/
theorem addSet (h : HasAttrs lsa id l) (hn : ∀ a ∈ l, a.pair ≠ toLex (t, k))
    (hf : (Attr.set t s k []).Fits) :
    ∃ lsa' store, lsaAddAttrSet lsa t s k = .ok (some (lsa', store)) ∧ lsa'.id = lsa.id ∧
      lsa'.refcount = 1 ∧ ∀ bytes child,
        HasAttrs { lsa' with bytes := bytes, root := store child } id (.set t s k child :: l) := by
  have hfresh : ∀ a ∈ lsa.root, a.pair ≠ toLex (t, k) := fun a ha => hn a (h.perm.mem_iff.mp ha)
  obtain ⟨store, hadd, hins⟩ :=
    lsaAttrSetAddAttrSet_fresh (s := s) h.refcount h.sorted hf hfresh
  refine ⟨{ lsa with bytes := lsa.bytes + (Attr.set t s k []).size }, store, ?_, rfl, h.refcount,
    fun bytes child => ?_⟩
  · simp [lsaAddAttrSet, hadd, h.refcount]
  · exact ⟨h.id, h.refcount, Avl.sorted_insert compareAttrKeys_orders h.sorted (hins child),
      (Avl.insert_perm (hins child)).trans (h.perm.cons _)⟩

/-- A set that is there is not added again: the program aborts. -/
theorem addSet_dup (h : HasAttrs lsa id l) (ha : a ∈ l) (hk : a.key.length ≤ 65536) :
    lsaAddAttrSet lsa a.type s a.key = .error .lsaAttrSetAddAttrSet := by
  unfold lsaAddAttrSet
  rw [lsaAttrSetAddAttrSet_dup h.refcount h.sorted hk ⟨a, h.perm.mem_iff.mpr ha, rfl⟩]
  simp [h.refcount]

/-- **An attribute that is there leaves the others.** -/
theorem del (h : HasAttrs lsa id (a :: l)) (hf : a.Everywhere Attr.Fits)
    (he : a.Everywhere Attr.Nonempty) :
    ∃ lsa', lsaDelAttr lsa a = .ok lsa' ∧ HasAttrs lsa' id l := by
  have ha : a ∈ lsa.root := h.perm.mem_iff.mpr List.mem_cons_self
  have hp : (Avl.delete compareAttrKeys a lsa.root).Perm l :=
    ((Avl.delete_perm compareAttrKeys_orders h.sorted ha).symm.trans h.perm).cons_inv
  have hsort : Avl.Sorted Attr.pair (Avl.delete compareAttrKeys a lsa.root) :=
    Avl.sorted_delete h.sorted
  have hres : ∀ bytes, HasAttrs
      { lsa with bytes := bytes, root := Avl.delete compareAttrKeys a lsa.root } id l :=
    fun _ => ⟨h.id, h.refcount, hsort, hp⟩
  obtain ⟨hfa, hfl⟩ := everywhere_iff.mp hf
  have hsize := lsaAttrSize_eq hfa
  cases a with
  | plain t s k d =>
    refine ⟨_, ?_, hres (lsa.bytes - (Attr.plain t s k d).size)⟩
    simp [lsaDelAttr, h.refcount, hsize]
  | set t s k child =>
    have hc : NoEmptySet child := (everywhere_iff.mp he).2
    cases child with
    | nil => exact absurd ((everywhere_iff.mp he).1 rfl) (by simp [Attr.children])
    | cons b child =>
      obtain ⟨n, hn⟩ := (attrTreeFree_isOk hfl
        (lsa.bytes - (Attr.set t s k (b :: child)).size)).mpr hc
      refine ⟨_, ?_, hres n⟩
      rw [Attr.children] at hn
      simp [lsaDelAttr, h.refcount, hsize, hn]

/-- The same by the key of the attribute. -/
theorem delBykey (h : HasAttrs lsa id (a :: l)) (hk : a.key.length ≤ 65536)
    (hf : a.Everywhere Attr.Fits) (he : a.Everywhere Attr.Nonempty) :
    ∃ lsa', lsaDelAttrBykey lsa a.type a.key = .ok lsa' ∧ HasAttrs lsa' id l := by
  obtain ⟨lsa', hdel, h'⟩ := h.del hf he
  refine ⟨lsa', ?_, h'⟩
  unfold lsaDelAttrBykey
  rw [h.find List.mem_cons_self hk]
  simp [h.refcount, hdel]

end HasAttrs

end Dvpn
