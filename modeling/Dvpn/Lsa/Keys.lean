import Dvpn.Lsa.Mutate
import Dvpn.Run
import Dvpn.SearchTree

/-!
# The keys of an attribute set (`lsa.c:29-64`, `lsa.c:188-224`, `lsa.c:293-417`)

`Lsa.Basic` has an attribute set in order, looks an attribute up in that order, and compares keys
by lengths that do not overflow. Here the set is the tree that the program has, whose shape is up
to the AVL library (`SearchTree.TreeOps`), the lookup descends in it by hand, and the lengths are
compared in an `int`. A key of length 0, which `lsa_attr_key` returns as NULL, is empty here too:
nothing of it is read.

* `lsaAttrCompareKeys_eq`: on keys of up to `INT_MAX` bytes the comparison is the one of
  `Lsa.Basic`, and `commonLen_le`: it reads no key past its end.
* `lsaAttrSetFindAttr_inorder`, `lsaAttrSetAddAttr_inorder`, `lsaAttrSetAddAttrSet_inorder`,
  `delete_inorder`: on such keys the operations on the tree are those of `Lsa.Basic` and
  `Lsa.Mutate` on the attributes in order.
* `attrSetStep_ordered`: what every operation keeps.
* `attrKeys_exact`: the order of the keys, the lookup, and that no (type, key) pair is there twice.
-/

namespace Dvpn.AttrTree

open SearchTree

/-! ## The code -/

/-- The conversion of an `int` to `size_t`. -/
def toSize (n : Int) : Nat := (n % 2 ^ 64).toNat

/-- The number of bytes that `lsa_attr_compare_keys` has compared (`lsa.c:40-42`). -/
def commonLen (akeylen bkeylen : Nat) : Int :=
  let len := toInt akeylen
  if toSize len > bkeylen then toInt bkeylen else len

/-- `lsa_attr_compare_keys` (`lsa.c:29-56`). -/
def lsaAttrCompareKeys (atype : Int) (akey : Bytes) (btype : Int) (bkey : Bytes) : Int :=
  if atype < btype then -1
  else if atype > btype then 1
  else
    let len := commonLen akey.length bkey.length
    let ret := memcmp akey bkey (toSize len)
    if ret < 0 then -1
    else if ret > 0 then 1
    else if akey.length < bkey.length then -1
    else if akey.length > bkey.length then 1
    else 0

/-- `compare_attr_keys` (`lsa.c:58-64`). -/
def compareAttrKeys (a b : Attr) : Int := lsaAttrCompareKeys a.type a.key b.type b.key

/-- `lsa_attr_set_find_attr` (`lsa.c:188-224`). -/
def lsaAttrSetFindAttr (set : BinaryTree Attr) (type : Int) (key : Bytes) : Option Attr :=
  if key.length > 65536 then none
  else search (fun attr => lsaAttrCompareKeys type key attr.type attr.key) set

section Operations

variable (ops : TreeOps Attr) (lsa : LsaObj) (set : BinaryTree Attr)

/-- `lsa_attr_set_add_attr` (`lsa.c:293-327`): `none` is the return value -1. -/
def lsaAttrSetAddAttr (type : Int) (sign : Bool) (key data : Bytes) :
    Except Crash (Option (LsaObj × BinaryTree Attr)) := do
  if lsa.refcount ≠ 1 then throw .refcount
  if (lsaAttrSetFindAttr set type key).isSome then throw .lsaAttrSetAddAttr
  attrAlloc key.length data.length
  let attr := Attr.plain type sign key data
  match ops.insert attr set with
  | none => return none
  | some set' =>
    let size ← lsaAttrSize attr
    return some ({ lsa with bytes := lsa.bytes + size }, set')

/-- `lsa_attr_set_add_attr_set` (`lsa.c:342-377`): `none` is the return value NULL, and the child
set, which is empty, is the contents of the new attribute. -/
def lsaAttrSetAddAttrSet (type : Int) (sign : Bool) (key : Bytes) :
    Except Crash (Option (LsaObj × BinaryTree Attr)) := do
  if lsa.refcount ≠ 1 then throw .refcount
  if (lsaAttrSetFindAttr set type key).isSome then throw .lsaAttrSetAddAttrSet
  attrAlloc key.length Attr.sizeofAttrSet
  let attr := Attr.set type sign key []
  match ops.insert attr set with
  | none => return none
  | some set' =>
    let size ← lsaAttrSize attr
    return some ({ lsa with bytes := lsa.bytes + size }, set')

/-- `lsa_del_attr` (`lsa.c:379-400`). -/
def lsaDelAttr (attr : Attr) : Except Crash (LsaObj × BinaryTree Attr) := do
  if lsa.refcount ≠ 1 then throw .refcount
  let bytes := lsa.bytes - (← lsaAttrSize attr)
  let set' := ops.delete attr set
  if attr.children.isEmpty then return ({ lsa with bytes := bytes }, set')
  else return ({ lsa with bytes := ← attrTreeFree attr.children bytes }, set')

/-- `lsa_del_attr_bykey` (`lsa.c:402-417`). -/
def lsaDelAttrBykey (type : Int) (key : Bytes) : Except Crash (LsaObj × BinaryTree Attr) := do
  if lsa.refcount ≠ 1 then throw .refcount
  match lsaAttrSetFindAttr set type key with
  | none => throw .lsaDelAttrBykey
  | some attr => lsaDelAttr ops lsa set attr

end Operations

/-- The attribute with other contents, where it holds a set. -/
def store (child : AttrSet) : Attr → Attr
  | .plain t s k d => .plain t s k d
  | .set t s k _ => .set t s k child

/-- What is done to an attribute set: the operations, in an LSA that may have changed since the
last of them, and the changes to a set that one of its attributes holds. -/
inductive AttrSetOp where
  | addAttr (lsa : LsaObj) (type : Int) (sign : Bool) (key data : Bytes)
  | addAttrSet (lsa : LsaObj) (type : Int) (sign : Bool) (key : Bytes)
  | delAttr (lsa : LsaObj) (attr : Attr)
  | delAttrBykey (lsa : LsaObj) (type : Int) (key : Bytes)
  | store (attr : Attr) (child : AttrSet)

/-- The set after an operation, and `false` when an insertion returns -1 or NULL. -/
def attrSetStep (ops : TreeOps Attr) (set : BinaryTree Attr) :
    AttrSetOp → Except Crash (BinaryTree Attr × List Bool)
  | .addAttr lsa t s k d => do
    match ← lsaAttrSetAddAttr ops lsa set t s k d with
    | none => return (set, [false])
    | some (_, set') => return (set', [true])
  | .addAttrSet lsa t s k => do
    match ← lsaAttrSetAddAttrSet ops lsa set t s k with
    | none => return (set, [false])
    | some (_, set') => return (set', [true])
  | .delAttr lsa attr => return ((← lsaDelAttr ops lsa set attr).2, [true])
  | .delAttrBykey lsa t k => return ((← lsaDelAttrBykey ops lsa set t k).2, [true])
  | .store attr child =>
    return (set.map fun a => if a.pair = attr.pair then store child a else a, [true])

/-- The keys have up to `INT_MAX` bytes, and the attribute of `lsa_del_attr` is in the set. -/
def AttrSetContract (set : BinaryTree Attr) : AttrSetOp → Prop
  | .addAttr _ _ _ k _ => k.length ≤ INT_MAX
  | .addAttrSet _ _ _ k => k.length ≤ INT_MAX
  | .delAttr _ attr => attr ∈ inorder set
  | .delAttrBykey _ _ _ => True
  | .store attr _ => attr ∈ inorder set

/-! ## The order of the keys -/

/-- The key has a length that an `int` holds. -/
def KeyFits (a : Attr) : Prop := a.key.length ≤ INT_MAX

variable {t t' : Int} {k k' d : Bytes} {s : Bool} {a b c : Attr} {set set' : BinaryTree Attr}
  {ops : TreeOps Attr} {lsa : LsaObj}

theorem commonLen_eq {m n : Nat} (hm : m ≤ INT_MAX) (hn : n ≤ INT_MAX) :
    commonLen m n = (min m n : Nat) := by
  have him : toInt m = m := toInt_of_le (by omega) (by exact_mod_cast hm)
  have hin : toInt n = n := toInt_of_le (by omega) (by exact_mod_cast hn)
  have hsize : toSize m = m := by
    unfold toSize
    unfold INT_MAX at hm
    omega
  unfold commonLen
  simp only [him, hin, hsize]
  split_ifs <;> omega

/-- No key is read past its end. -/
theorem commonLen_le {m n : Nat} (hm : m ≤ INT_MAX) (hn : n ≤ INT_MAX) :
    toSize (commonLen m n) ≤ m ∧ toSize (commonLen m n) ≤ n := by
  rw [commonLen_eq hm hn]
  unfold toSize
  omega

/-- **The comparison** is that of lengths without bound, on keys of up to `INT_MAX` bytes. -/
theorem lsaAttrCompareKeys_eq (hk : k.length ≤ INT_MAX) (hk' : k'.length ≤ INT_MAX) :
    lsaAttrCompareKeys t k t' k' = Dvpn.lsaAttrCompareKeys t k t' k' := by
  have hlen : toSize (commonLen k.length k'.length) =
      if k.length > k'.length then k'.length else k.length := by
    rw [commonLen_eq hk hk']
    unfold toSize
    unfold INT_MAX at hk hk'
    split_ifs <;> omega
  unfold lsaAttrCompareKeys Dvpn.lsaAttrCompareKeys
  simp only [hlen]

theorem compareAttrKeys_eq (ha : KeyFits a) (hb : KeyFits b) :
    compareAttrKeys a b = Dvpn.compareAttrKeys a b :=
  lsaAttrCompareKeys_eq ha hb

theorem compareAttrKeys_ordersOn {l : List Attr} (h : ∀ a ∈ l, KeyFits a) :
    OrdersOn l compareAttrKeys Attr.pair where
  neg a ha b hb := by rw [compareAttrKeys_eq (h a ha) (h b hb), compareAttrKeys_orders.neg]
  zero a ha b hb := by rw [compareAttrKeys_eq (h a ha) (h b hb), compareAttrKeys_orders.zero]

/-- A comparison is -1, 0 or 1. -/
theorem lsaAttrCompareKeys_values : lsaAttrCompareKeys t k t' k' = -1 ∨
    lsaAttrCompareKeys t k t' k' = 0 ∨ lsaAttrCompareKeys t k t' k' = 1 := by
  unfold lsaAttrCompareKeys
  dsimp only
  split_ifs <;> simp

theorem pair_eq_iff : a.pair = toLex (t, k) ↔ a.type = t ∧ a.key = k := by
  unfold Attr.pair
  rw [toLex_inj, Prod.mk.injEq]

/-- The sign of a comparison is a strict total order of the (type, key) pairs, on the keys that
fit an `int`. -/
structure KeyOrder (cmp : Attr → Attr → Int) : Prop where
  zero : ∀ a b, KeyFits a → KeyFits b → (cmp a b = 0 ↔ a.type = b.type ∧ a.key = b.key)
  antisymm : ∀ a b, KeyFits a → KeyFits b → cmp b a = -cmp a b
  trans : ∀ a b c, KeyFits a → KeyFits b → KeyFits c → cmp a b < 0 → cmp b c < 0 → cmp a c < 0

theorem compareAttrKeys_keyOrder : KeyOrder compareAttrKeys where
  zero a b ha hb := by
    rw [compareAttrKeys_eq ha hb, compareAttrKeys_orders.zero]
    exact pair_eq_iff
  antisymm a b ha hb := by
    have hon : OrdersOn [a, b] compareAttrKeys Attr.pair :=
      compareAttrKeys_ordersOn (by simp [ha, hb])
    have hab := hon.neg a (by simp) b (by simp)
    have hba := hon.neg b (by simp) a (by simp)
    have hab0 := hon.zero a (by simp) b (by simp)
    have hba0 := hon.zero b (by simp) a (by simp)
    have hv : compareAttrKeys a b = -1 ∨ compareAttrKeys a b = 0 ∨ compareAttrKeys a b = 1 :=
      lsaAttrCompareKeys_values
    have hv' : compareAttrKeys b a = -1 ∨ compareAttrKeys b a = 0 ∨ compareAttrKeys b a = 1 :=
      lsaAttrCompareKeys_values
    rcases lt_trichotomy a.pair b.pair with h | h | h
    · have h1 := hab.mpr h
      have h2 := mt hba.mp (not_lt.mpr (le_of_lt h))
      have h3 := mt hba0.mp (ne_of_gt h)
      omega
    · rw [hab0.mpr h, hba0.mpr h.symm]
      rfl
    · have h1 := hba.mpr h
      have h2 := mt hab.mp (not_lt.mpr (le_of_lt h))
      have h3 := mt hab0.mp (ne_of_gt h)
      omega
  trans a b c ha hb hc hab hbc := by
    rw [compareAttrKeys_eq ha hb, compareAttrKeys_orders.neg] at hab
    rw [compareAttrKeys_eq hb hc, compareAttrKeys_orders.neg] at hbc
    rw [compareAttrKeys_eq ha hc, compareAttrKeys_orders.neg]
    exact hab.trans hbc

/-! ## The operations, in order -/

/-- The set is ordered by its keys, and these fit. -/
structure Ordered (set : BinaryTree Attr) : Prop where
  sorted : Avl.Sorted Attr.pair (inorder set)
  fits : ∀ a ∈ inorder set, KeyFits a

theorem locatesOn (h : Ordered set) (hk : k.length ≤ INT_MAX) :
    LocatesOn (inorder set) (fun attr => lsaAttrCompareKeys t k attr.type attr.key) Attr.pair
      (toLex (t, k) : Int ×ₗ Bytes) where
  neg b hb := by
    rw [lsaAttrCompareKeys_eq hk (h.fits b hb)]
    exact (lsaAttrCompareKeys_locates t k).neg b
  zero b hb := by
    rw [lsaAttrCompareKeys_eq hk (h.fits b hb)]
    exact (lsaAttrCompareKeys_locates t k).zero b

/-- **The lookup** descends to what the lookup in order finds. -/
theorem lsaAttrSetFindAttr_inorder (h : Ordered set) :
    lsaAttrSetFindAttr set t k = Dvpn.lsaAttrSetFindAttr (inorder set) t k := by
  unfold lsaAttrSetFindAttr Dvpn.lsaAttrSetFindAttr
  split_ifs with hlen
  · rfl
  · have hk : k.length ≤ INT_MAX := by
      unfold INT_MAX
      omega
    rw [search_eq_find h.sorted (locatesOn h hk)]
    exact find_congr fun a ha => lsaAttrCompareKeys_eq hk (h.fits a ha)

theorem insert_inorder (hops : ops.Lawful compareAttrKeys Attr.pair) (h : Ordered set)
    (ha : KeyFits a) :
    (ops.insert a set).map inorder = Avl.insert Dvpn.compareAttrKeys a (inorder set) :=
  hops.insert_eq (compareAttrKeys_ordersOn (List.forall_mem_cons.mpr ⟨ha, h.fits⟩))
    compareAttrKeys_orders h.sorted

theorem delete_inorder (hops : ops.Lawful compareAttrKeys Attr.pair) (h : Ordered set)
    (ha : a ∈ inorder set) :
    inorder (ops.delete a set) = Avl.delete Dvpn.compareAttrKeys a (inorder set) :=
  hops.delete_eq (compareAttrKeys_ordersOn h.fits) compareAttrKeys_orders h.sorted ha

/-- What an insertion returns, with the set in order. -/
def inOrder (r : Option (LsaObj × BinaryTree Attr)) : Option (LsaObj × AttrSet) :=
  r.map fun r => (r.1, inorder r.2)

/-- **`lsa_attr_set_add_attr`** on the tree is the insertion in order. -/
theorem lsaAttrSetAddAttr_inorder (hops : ops.Lawful compareAttrKeys Attr.pair) (h : Ordered set)
    (hk : k.length ≤ INT_MAX) :
    (lsaAttrSetAddAttr ops lsa set t s k d).map inOrder =
      Dvpn.lsaAttrSetAddAttr lsa (inorder set) t s k d := by
  have hins := insert_inorder (a := .plain t s k d) hops h hk
  unfold lsaAttrSetAddAttr Dvpn.lsaAttrSetAddAttr
  rw [lsaAttrSetFindAttr_inorder h]
  by_cases hr : lsa.refcount = 1
  · cases (Dvpn.lsaAttrSetFindAttr (inorder set) t k).isSome with
    | true => simp [hr, Except.map]
    | false =>
      cases attrAlloc k.length d.length with
      | error e => simp [hr, Except.map]
      | ok _ =>
        cases hi : ops.insert (.plain t s k d) set with
        | none =>
          rw [hi, Option.map_none] at hins
          simp [hr, hi, Except.map, inOrder, ← hins]
        | some set' =>
          rw [hi, Option.map_some] at hins
          cases hsize : lsaAttrSize (.plain t s k d) <;>
            simp [hr, hi, hsize, Except.map, inOrder, ← hins]
  · simp [hr, Except.map]

/-- **`lsa_attr_set_add_attr_set`** on the tree is the insertion in order of an empty set. -/
theorem lsaAttrSetAddAttrSet_inorder (hops : ops.Lawful compareAttrKeys Attr.pair)
    (h : Ordered set) (hk : k.length ≤ INT_MAX) :
    (lsaAttrSetAddAttrSet ops lsa set t s k).map inOrder =
      (Dvpn.lsaAttrSetAddAttrSet lsa (inorder set) t s k).map
        (Option.map fun r => (r.1, r.2 [])) := by
  have hins := insert_inorder (a := .set t s k []) hops h hk
  unfold lsaAttrSetAddAttrSet Dvpn.lsaAttrSetAddAttrSet
  rw [lsaAttrSetFindAttr_inorder h]
  by_cases hr : lsa.refcount = 1
  · cases (Dvpn.lsaAttrSetFindAttr (inorder set) t k).isSome with
    | true => simp [hr, Except.map]
    | false =>
      cases attrAlloc k.length Attr.sizeofAttrSet with
      | error e => simp [hr, Except.map]
      | ok _ =>
        cases hi : ops.insert (.set t s k []) set with
        | none =>
          rw [hi, Option.map_none] at hins
          simp [hr, hi, Except.map, inOrder, ← hins]
        | some set' =>
          rw [hi, Option.map_some] at hins
          cases hsize : lsaAttrSize (.set t s k []) <;>
            simp [hr, hi, hsize, Except.map, inOrder, ← hins]
  · simp [hr, Except.map]

/-- **`lsa_del_attr`** on the tree is the removal in order. -/
theorem lsaDelAttr_inorder (hops : ops.Lawful compareAttrKeys Attr.pair) (h : Ordered set)
    (ha : a ∈ inorder set) (hroot : lsa.root = inorder set) :
    (lsaDelAttr ops lsa set a).map (fun r => { r.1 with root := inorder r.2 }) =
      Dvpn.lsaDelAttr lsa a := by
  have hdel := delete_inorder hops h ha
  unfold lsaDelAttr Dvpn.lsaDelAttr
  rw [hroot, ← hdel]
  by_cases hr : lsa.refcount = 1
  · cases lsaAttrSize a with
    | error e => simp [hr, Except.map]
    | ok size =>
      cases a with
      | plain t s k d => simp [hr, Except.map, Attr.children]
      | set t s k l =>
        cases hnil : l.isEmpty with
        | true => simp [hr, Except.map, Attr.children, hnil]
        | false =>
          cases hfree : attrTreeFree l (lsa.bytes - size) <;>
            simp [hr, Except.map, Attr.children, hnil, hfree]
  · simp [hr, Except.map]

/-! ## Runs -/

theorem lsaAttrSetAddAttr_some {lsa' : LsaObj}
    (h : lsaAttrSetAddAttr ops lsa set t s k d = .ok (some (lsa', set'))) :
    ops.insert (.plain t s k d) set = some set' := by
  unfold lsaAttrSetAddAttr at h
  by_cases hr : lsa.refcount = 1
  · cases hfind : (lsaAttrSetFindAttr set t k).isSome with
    | true => simp [hr, hfind] at h
    | false =>
      simp only [hr, hfind, ne_eq, not_true_eq_false, if_false, Bool.false_eq_true] at h
      obtain ⟨-, -, h⟩ := bind_eq_ok.mp h
      cases hi : ops.insert (.plain t s k d) set with
      | none => simp [hi] at h
      | some set₁ =>
        rw [hi] at h
        obtain ⟨size, -, h⟩ := bind_eq_ok.mp h
        rw [(Prod.mk.inj (Option.some.inj (Except.ok.inj h))).2]
  · simp [hr] at h

theorem lsaAttrSetAddAttrSet_some {lsa' : LsaObj}
    (h : lsaAttrSetAddAttrSet ops lsa set t s k = .ok (some (lsa', set'))) :
    ops.insert (.set t s k []) set = some set' := by
  unfold lsaAttrSetAddAttrSet at h
  by_cases hr : lsa.refcount = 1
  · cases hfind : (lsaAttrSetFindAttr set t k).isSome with
    | true => simp [hr, hfind] at h
    | false =>
      simp only [hr, hfind, ne_eq, not_true_eq_false, if_false, Bool.false_eq_true] at h
      obtain ⟨-, -, h⟩ := bind_eq_ok.mp h
      cases hi : ops.insert (.set t s k []) set with
      | none => simp [hi] at h
      | some set₁ =>
        rw [hi] at h
        obtain ⟨size, -, h⟩ := bind_eq_ok.mp h
        rw [(Prod.mk.inj (Option.some.inj (Except.ok.inj h))).2]
  · simp [hr] at h

theorem lsaDelAttr_ok {r : LsaObj × BinaryTree Attr} (h : lsaDelAttr ops lsa set a = .ok r) :
    r.2 = ops.delete a set := by
  unfold lsaDelAttr at h
  by_cases hr : lsa.refcount = 1
  · simp only [hr, ne_eq, not_true_eq_false, if_false] at h
    obtain ⟨size, -, h⟩ := bind_eq_ok.mp h
    split_ifs at h
    · rw [← Except.ok.inj h]
    · obtain ⟨bytes, -, h⟩ := bind_eq_ok.mp h
      rw [← Except.ok.inj h]
  · simp [hr] at h

theorem ordered_insert (hops : ops.Lawful compareAttrKeys Attr.pair) (h : Ordered set)
    (ha : KeyFits a) (hi : ops.insert a set = some set') : Ordered set' := by
  have hfits := List.forall_mem_cons.mpr ⟨ha, h.fits⟩
  obtain ⟨hs, hp⟩ := hops.insert_some (compareAttrKeys_ordersOn hfits) h.sorted hi
  exact ⟨hs, fun b hb => hfits b (hp.mem_iff.mp hb)⟩

theorem ordered_delete (hops : ops.Lawful compareAttrKeys Attr.pair) (h : Ordered set)
    (ha : a ∈ inorder set) : Ordered (ops.delete a set) := by
  obtain ⟨hs, hp⟩ := hops.delete (compareAttrKeys_ordersOn h.fits) h.sorted ha
  exact ⟨hs, fun b hb => h.fits b (hp.mem_iff.mpr (List.mem_cons_of_mem a hb))⟩

/-- A change to the contents of an attribute leaves the keys as they are. -/
theorem ordered_store (h : Ordered set) {p : Int ×ₗ Bytes} {child : AttrSet} :
    Ordered (set.map fun a => if a.pair = p then store child a else a) := by
  have hkeep (a : Attr) : (if a.pair = p then store child a else a).pair = a.pair ∧
      (if a.pair = p then store child a else a).key = a.key := by
    split_ifs
    · cases a <;> exact ⟨rfl, rfl⟩
    · exact ⟨rfl, rfl⟩
  refine ⟨?_, ?_⟩
  · rw [inorder_map]
    refine List.pairwise_map.mpr (h.sorted.imp fun hlt => ?_)
    rwa [(hkeep _).1, (hkeep _).1]
  · rw [inorder_map]
    intro b hb
    obtain ⟨a, ha, rfl⟩ := List.mem_map.mp hb
    unfold KeyFits
    rw [(hkeep a).2]
    exact h.fits a ha

/-- **Every operation** keeps the set ordered. -/
theorem attrSetStep_ordered (hops : ops.Lawful compareAttrKeys Attr.pair) {op : AttrSetOp}
    {rets : List Bool} (h : Ordered set) (hc : AttrSetContract set op)
    (hrun : attrSetStep ops set op = .ok (set', rets)) : Ordered set' := by
  cases op with
  | addAttr lsa t s k d =>
    obtain ⟨r, hr, hrun⟩ := bind_eq_ok.mp hrun
    cases r with
    | none =>
      obtain ⟨rfl, -⟩ := Prod.mk.inj (Except.ok.inj hrun)
      exact h
    | some r =>
      obtain ⟨rfl, -⟩ := Prod.mk.inj (Except.ok.inj hrun)
      have hfits : KeyFits (.plain t s k d) := hc
      exact ordered_insert hops h hfits (lsaAttrSetAddAttr_some hr)
  | addAttrSet lsa t s k =>
    obtain ⟨r, hr, hrun⟩ := bind_eq_ok.mp hrun
    cases r with
    | none =>
      obtain ⟨rfl, -⟩ := Prod.mk.inj (Except.ok.inj hrun)
      exact h
    | some r =>
      obtain ⟨rfl, -⟩ := Prod.mk.inj (Except.ok.inj hrun)
      have hfits : KeyFits (.set t s k []) := hc
      exact ordered_insert hops h hfits (lsaAttrSetAddAttrSet_some hr)
  | delAttr lsa a =>
    obtain ⟨r, hr, hrun⟩ := bind_eq_ok.mp hrun
    obtain ⟨rfl, -⟩ := Prod.mk.inj (Except.ok.inj hrun)
    rw [lsaDelAttr_ok hr]
    exact ordered_delete hops h hc
  | delAttrBykey lsa t k =>
    obtain ⟨r, hr, hrun⟩ := bind_eq_ok.mp hrun
    obtain ⟨rfl, -⟩ := Prod.mk.inj (Except.ok.inj hrun)
    unfold lsaDelAttrBykey at hr
    rw [lsaAttrSetFindAttr_inorder h] at hr
    by_cases href : lsa.refcount = 1
    · cases hfind : Dvpn.lsaAttrSetFindAttr (inorder set) t k with
      | none => simp [href, hfind] at hr
      | some a =>
        simp only [href, hfind, ne_eq, not_true_eq_false, if_false] at hr
        rw [lsaDelAttr_ok hr]
        exact ordered_delete hops h (lsaAttrSetFindAttr_sound hfind).1
    · simp [href] at hr
  | store a child =>
    obtain ⟨rfl, -⟩ := Prod.mk.inj (Except.ok.inj hrun)
    exact ordered_store h

/-- **The keys are totally ordered, the lookup is exact, and no pair is there twice**: in every
set that insertions and removals have built, the pairs whose key is too long to look up included. -/
theorem attrKeys_exact (hops : ops.Lawful compareAttrKeys Attr.pair) :
    KeyOrder compareAttrKeys ∧
      ∀ os set rets, Run (attrSetStep ops) AttrSetContract .nil os set rets →
        (∀ type key, key.length ≤ 65536 → ∀ a, lsaAttrSetFindAttr set type key = some a ↔
          a ∈ inorder set ∧ a.type = type ∧ a.key = key) ∧
        (inorder set).Pairwise fun a b => ¬ (a.type = b.type ∧ a.key = b.key) := by
  refine ⟨compareAttrKeys_keyOrder, fun os set rets hrun => ?_⟩
  have h : Ordered set := hrun.invariant (fun _ set _ => Ordered set)
    ⟨Avl.sorted_nil, fun a ha => absurd ha List.not_mem_nil⟩ (attrSetStep_ordered hops)
  refine ⟨fun type key hkey a => ?_, h.sorted.imp fun hlt he => ?_⟩
  · rw [lsaAttrSetFindAttr_inorder h, lsaAttrSetFindAttr_eq_some h.sorted hkey]
  · exact absurd (pair_eq_iff.mpr he) (ne_of_lt hlt)

/-- An LSA that others do not refer to. -/
def sampleLsa : LsaObj := lsaAlloc zeroId

/-- Two attributes with keys of which one begins with the other, and the shorter one is removed. -/
theorem attrKeys_exact_prefix : KeyOrder compareAttrKeys ∧
    ∃ set rets, Run (attrSetStep (chainOps compareAttrKeys)) AttrSetContract .nil
      [.addAttr sampleLsa 2 false [7] [1], .addAttrSet sampleLsa 2 false [7, 0],
        .delAttrBykey sampleLsa 2 [7]] set rets ∧
      lsaAttrSetFindAttr set 2 [7, 0] = some (.set 2 false [7, 0] []) ∧
      lsaAttrSetFindAttr set 2 [7] = none := by
  obtain ⟨horder, hruns⟩ := attrKeys_exact (lawful_chain compareAttrKeys Attr.pair)
  have hrun : Run (attrSetStep (chainOps compareAttrKeys)) AttrSetContract .nil
      [.addAttr sampleLsa 2 false [7] [1], .addAttrSet sampleLsa 2 false [7, 0],
        .delAttrBykey sampleLsa 2 [7]]
      (chain [.set 2 false [7, 0] []]) [true, true, true] :=
    run_execute (by simp [AttrSetContract, INT_MAX]) rfl
  refine ⟨horder, _, _, hrun, ?_, rfl⟩
  exact ((hruns _ _ _ hrun).1 2 [7, 0] (by simp) _).mpr ⟨by simp, rfl, rfl⟩

end Dvpn.AttrTree
