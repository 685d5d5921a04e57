import Dvpn.Basic

/-!
# Link-state advertisements (`lsa.h`, `lsa.c`)

* An attribute (`struct lsa_attr`) is `Attr`: plain data or, with `data_is_attr_set`, a nested
  attribute set. An attribute set is its tree in order, a `List Attr`. An absent key is the empty
  key (`lsa_attr_key` returns NULL exactly for `keylen == 0`).
* `Lsa` is what an LSA says: `bytes`, `id`, `root`. `LsaObj` is the heap object, which adds the
  reference count; the mutators test it and nothing else reads it.
* A mutator that takes a `struct lsa_attr_set *` takes and returns that set by value. The set that
  `lsa_attr_set_add_attr_set` returns a pointer to is returned as the function that stores its
  contents.
* `lsa_attr_compare_keys` holds `a->keylen` in an `int`, and so does this model for keys of up to
  `INT_MAX` bytes; past that its `memcmp` reads out of bounds.
* The allocations succeed.

Predicates over a whole tree are `AttrsEverywhere p`: `p` holds of every attribute at every
level. `AttrsWf` (every set strictly ordered by its keys), `NoEmptySet` and `AttrsFit` (every
`lsa_attr_size` fits a `size_t`) are instances of it.
-/

namespace Dvpn

/-! ## The data -/

/-- `struct lsa_attr`. -/
inductive Attr where
  | plain (type : Int) (attrSigned : Bool) (key data : Bytes)
  | set (type : Int) (attrSigned : Bool) (key : Bytes) (attrs : List Attr)

/-- `struct lsa_attr_set`: the tree of attributes, in order. -/
abbrev AttrSet := List Attr

namespace Attr

def type : Attr → Int
  | plain t _ _ _ => t
  | set t _ _ _ => t

def attrSigned : Attr → Bool
  | plain _ s _ _ => s
  | set _ s _ _ => s

def key : Attr → Bytes
  | plain _ _ k _ => k
  | set _ _ k _ => k

def dataIsAttrSet : Attr → Bool
  | plain _ _ _ _ => false
  | set _ _ _ _ => true

/-- `sizeof(struct lsa_attr_set)`: a comparator and a root pointer. -/
def sizeofAttrSet : Nat := 16

/-- `attr->datalen`. -/
def datalen : Attr → Nat
  | plain _ _ _ d => d.length
  | set _ _ _ _ => sizeofAttrSet

/-- The (type, key) pair that orders the attributes of a set. -/
def pair (a : Attr) : Int ×ₗ Bytes := toLex (a.type, a.key)

end Attr

/-- The contents of `struct lsa`. -/
structure Lsa where
  bytes : Nat
  id : NodeId
  root : AttrSet

/-- `struct lsa` with its reference count. -/
structure LsaObj extends Lsa where
  refcount : Int

/-- Induction over the attributes of a tree, nested sets first. -/
@[elab_as_elim]
theorem Attr.tree_induction {motive : Attr → Prop}
    (plain : ∀ t s k d, motive (.plain t s k d))
    (set : ∀ t s k (l : AttrSet), (∀ a ∈ l, motive a) → motive (.set t s k l)) :
    ∀ a, motive a
  | .plain t s k d => plain t s k d
  | .set t s k l => set t s k l (ofList l)
where
  ofList : ∀ (l : List Attr), ∀ a ∈ l, motive a
    | [], _, h => absurd h List.not_mem_nil
    | b :: l, a, h =>
      (List.mem_cons.mp h).elim (fun e => e ▸ Attr.tree_induction plain set b) (ofList l a)

/-! ## Keys and lookup -/

/-- `lsa_attr_compare_keys` (`lsa.c:29-56`), on the two types and keys it reads. -/
def lsaAttrCompareKeys (atype : Int) (akey : Bytes) (btype : Int) (bkey : Bytes) : Int :=
  if atype < btype then -1
  else if atype > btype then 1
  else
    let len := if akey.length > bkey.length then bkey.length else akey.length
    let ret := memcmp akey bkey len
    if ret < 0 then -1
    else if ret > 0 then 1
    else if akey.length < bkey.length then -1
    else if akey.length > bkey.length then 1
    else 0

/-- `compare_attr_keys` (`lsa.c:58-64`). -/
def compareAttrKeys (a b : Attr) : Int := lsaAttrCompareKeys a.type a.key b.type b.key

/-- `lsa_attr_set_find_attr` (`lsa.c:188-224`). -/
def lsaAttrSetFindAttr (set : AttrSet) (type : Int) (key : Bytes) : Option Attr :=
  if key.length > 65536 then none
  else Avl.find (fun a => lsaAttrCompareKeys type key a.type a.key) set

/-- `lsa_find_attr` (`lsa.c:182-186`). -/
def lsaFindAttr (lsa : Lsa) (type : Int) (key : Bytes) : Option Attr :=
  lsaAttrSetFindAttr lsa.root type key

/-! ## Sizes -/

/-- `MAX_SERIALISED_INT_LEN` (`lsa_serialise.h:25`). -/
def MAX_SERIALISED_INT_LEN : Nat := 10

/-- `lsa_attr_size` (`lsa.c:226-250`). -/
def lsaAttrSize (attr : Attr) : Except Crash Nat := do
  let size := 2 * MAX_SERIALISED_INT_LEN
  let size ←
    if attr.key.length ≠ 0 then
      let size := size + MAX_SERIALISED_INT_LEN
      if attr.key.length > SIZE_MAX - size then .error .lsaAttrSize
      else .ok (size + attr.key.length)
    else .ok size
  let size ←
    if MAX_SERIALISED_INT_LEN > SIZE_MAX - size then .error .lsaAttrSize
    else .ok (size + MAX_SERIALISED_INT_LEN)
  if attr.dataIsAttrSet then .ok size
  else if attr.datalen > SIZE_MAX - size then .error .lsaAttrSize
  else .ok (size + attr.datalen)

/-- `sizeof(struct lsa_attr)`. -/
def sizeofAttr : Nat := 56

/-- `ROUND_UP` (`lsa.c:164`). -/
def roundUp (size : Nat) : Nat := (size + 7) / 8 * 8

/-- The overflow tests of `attr_alloc` (`lsa.c:265-291`). -/
def attrAlloc (keylen datalen : Nat) : Except Crash Unit :=
  if roundUp keylen > SIZE_MAX - sizeofAttr then .error .attrAlloc
  else if datalen > SIZE_MAX - (sizeofAttr + roundUp keylen) then .error .attrAlloc
  else .ok ()

/-! ## Construction and release -/

/-- `lsa_alloc` (`lsa.c:66-80`). -/
def lsaAlloc (id : NodeId) : LsaObj :=
  { refcount := 1, bytes := MAX_SERIALISED_INT_LEN + NODE_ID_LEN, id := id, root := [] }

/-- `lsa_attr_set_add_attr` (`lsa.c:293-327`): `none` is the return value -1. -/
def lsaAttrSetAddAttr (lsa : LsaObj) (set : AttrSet) (type : Int) (sign : Bool) (key data : Bytes) :
    Except Crash (Option (LsaObj × AttrSet)) := do
  if lsa.refcount ≠ 1 then throw .refcount
  if (lsaAttrSetFindAttr set type key).isSome then throw .lsaAttrSetAddAttr
  attrAlloc key.length data.length
  let attr := Attr.plain type sign key data
  match Avl.insert compareAttrKeys attr set with
  | none => return none
  | some set' =>
    let size ← lsaAttrSize attr
    return some ({ lsa with bytes := lsa.bytes + size }, set')

/-- `lsa_attr_set_add_attr_set` (`lsa.c:342-377`): `none` is the return value NULL, and the child
set is returned as the function that stores its contents into the parent. -/
def lsaAttrSetAddAttrSet (lsa : LsaObj) (set : AttrSet) (type : Int) (sign : Bool) (key : Bytes) :
    Except Crash (Option (LsaObj × (AttrSet → AttrSet))) := do
  if lsa.refcount ≠ 1 then throw .refcount
  if (lsaAttrSetFindAttr set type key).isSome then throw .lsaAttrSetAddAttrSet
  attrAlloc key.length Attr.sizeofAttrSet
  let attr child := Attr.set type sign key child
  match Avl.insert compareAttrKeys (attr []) set with
  | none => return none
  | some set' =>
    let size ← lsaAttrSize (attr [])
    let store child := (Avl.insert compareAttrKeys (attr child) set).getD set'
    return some ({ lsa with bytes := lsa.bytes + size }, store)

mutual

/-- The work of `attr_tree_free` at one attribute. -/
def attrFree : Attr → Nat → Except Crash Nat
  | .plain t s k d, bytes => do
    return bytes - (← lsaAttrSize (.plain t s k d))
  | .set t s k l, bytes => do
    let bytes := bytes - (← lsaAttrSize (.set t s k []))
    -- the recursive call is made for an empty set too, whose root is NULL
    if l.isEmpty then .error .attrTreeFreeNull else attrTreeFree l bytes

/-- `attr_tree_free` (`lsa.c:90-110`), from the root of a tree; the value is `lsa->bytes`. -/
def attrTreeFree : AttrSet → Nat → Except Crash Nat
  | [], bytes => .ok bytes
  | a :: l, bytes => do attrTreeFree l (← attrFree a bytes)

end

/-- `lsa_put` (`lsa.c:112-119`): `none` when the object is freed. -/
def lsaPut (lsa : LsaObj) : Except Crash (Option LsaObj) := do
  let refcount := lsa.refcount - 1
  if refcount = 0 then
    if !lsa.root.isEmpty then
      let _ ← attrTreeFree lsa.root lsa.bytes
    return none
  else return some { lsa with refcount := refcount }

/-! ## The order of the attributes -/

theorem take_lt_of_lt {a b : Bytes} {n : Nat} (h : a.take n < b.take n) : a < b := by
  induction n generalizing a b with
  | zero => exact absurd h (by simp)
  | succ n ih =>
    cases b with
    | nil => exact absurd h (by simp)
    | cons y b =>
      cases a with
      | nil => exact List.nil_lt_cons y b
      | cons x a =>
        simp only [List.take_succ_cons, List.cons_lt_cons_iff] at h ⊢
        exact h.imp id fun ⟨e, h⟩ => ⟨e, ih h⟩

/-- Byte strings that agree on the shorter one's length are ordered by their lengths. -/
theorem lt_iff_length_of_take_eq {a b : Bytes}
    (h : a.take (min a.length b.length) = b.take (min a.length b.length)) :
    a < b ↔ a.length < b.length := by
  induction a generalizing b with
  | nil => cases b <;> simp
  | cons x a ih =>
    cases b with
    | nil => simp
    | cons y b =>
      simp only [List.length_cons, Nat.add_min_add_right, List.take_succ_cons, List.cons.injEq] at h
      obtain ⟨rfl, h⟩ := h
      simp only [List.cons_lt_cons_iff, List.length_cons, lt_irrefl, false_or, true_and, ih h]
      omega

theorem eq_of_take_eq_of_length {a b : Bytes}
    (h : a.take (min a.length b.length) = b.take (min a.length b.length))
    (hl : a.length = b.length) : a = b := by
  rwa [← hl, Nat.min_self, List.take_length, hl, List.take_length] at h

private theorem min_len (a b : Bytes) :
    (if a.length > b.length then b.length else a.length) = min a.length b.length := by
  split_ifs <;> omega

/-- `lsa_attr_compare_keys` is the lexicographic order of the (type, key) pairs. -/
theorem lsaAttrCompareKeys_locates (t : Int) (k : Bytes) :
    Avl.Locates (fun a : Attr => lsaAttrCompareKeys t k a.type a.key) Attr.pair
      (toLex (t, k) : Int ×ₗ Bytes) := by
  have key : ∀ a : Attr,
      (lsaAttrCompareKeys t k a.type a.key < 0 ↔ (toLex (t, k) : Int ×ₗ Bytes) < a.pair) ∧
      (lsaAttrCompareKeys t k a.type a.key = 0 ↔ (toLex (t, k) : Int ×ₗ Bytes) = a.pair) := by
    intro a
    have heq : (toLex (t, k) : Int ×ₗ Bytes) = a.pair ↔ t = a.type ∧ k = a.key := by
      unfold Attr.pair
      rw [toLex_inj, Prod.mk.injEq]
    rw [heq]
    unfold Attr.pair
    rw [Prod.Lex.toLex_lt_toLex]
    unfold lsaAttrCompareKeys memcmp
    simp only [min_len]
    rcases lt_trichotomy t a.type with ht | ht | ht
    · simp [ht, ne_of_lt ht]
    · rw [if_neg (by omega), if_neg (by omega)]
      simp only [ht, lt_irrefl, false_or, true_and]
      rcases lt_trichotomy (k.take (min k.length a.key.length))
        (a.key.take (min k.length a.key.length)) with h | h | h
      · have hk := take_lt_of_lt h
        simp [h, hk, ne_of_lt hk]
      · have hlt := lt_iff_length_of_take_eq h
        have heq : k = a.key ↔ k.length = a.key.length :=
          ⟨fun e => by rw [e], eq_of_take_eq_of_length h⟩
        rw [hlt, heq]
        simp only [h, lt_irrefl, if_false, if_true]
        rcases lt_trichotomy k.length a.key.length with hl | hl | hl
        · simp [hl]; omega
        · simp [hl]
        · simp [hl, not_lt.mpr (le_of_lt hl)]; omega
      · have hk := take_lt_of_lt h
        simp [not_lt.mpr (le_of_lt h), not_lt.mpr (le_of_lt hk), ne_of_gt h, ne_of_gt hk]
    · simp [ht, not_lt.mpr (le_of_lt ht), ne_of_gt ht]
  exact ⟨fun a => (key a).1, fun a => (key a).2⟩

theorem compareAttrKeys_orders : Avl.Orders compareAttrKeys Attr.pair :=
  ⟨fun a => (lsaAttrCompareKeys_locates a.type a.key).neg,
    fun a => (lsaAttrCompareKeys_locates a.type a.key).zero⟩

end Dvpn
