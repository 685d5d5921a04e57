import Dvpn.Avl

/-!
# Bytes, node ids and crashes

The C vocabulary of the model: byte strings as lists of `UInt8`, `memcmp` on them, node ids
(`uint8_t id[NODE_ID_LEN]`, `lsa.h:26`) as the byte strings of that length, and the ways the
program ends without returning (`Crash`): one per function with an `abort()`, and the NULL
dereferences.

`size_t` is `Nat`; the tests the source makes against `SIZE_MAX` are kept.
-/

namespace Dvpn

/-- A byte string. -/
abbrev Bytes := List UInt8

/-- Bytes are ordered as `unsigned char`. -/
instance linearOrderByte : LinearOrder UInt8 where
  le_refl := UInt8.le_refl
  le_trans _ _ _ := UInt8.le_trans
  le_antisymm _ _ := UInt8.le_antisymm
  le_total := UInt8.le_total
  lt_iff_le_not_ge a b := by
    rw [UInt8.le_iff_toNat_le, UInt8.le_iff_toNat_le, UInt8.lt_iff_toNat_lt]
    omega
  toDecidableLE := inferInstance
  toDecidableLT := inferInstance
  toDecidableEq := inferInstance
  compare_eq_compareOfLessAndEq _ _ := rfl

def INT_MAX : Nat := 2 ^ 31 - 1
def SIZE_MAX : Nat := 2 ^ 64 - 1
def SSIZE_MAX : Nat := 2 ^ 63 - 1

/-- `NODE_ID_LEN` (`lsa.h:26`). -/
def NODE_ID_LEN : Nat := 32

/-- A node id. -/
def NodeId := {b : Bytes // b.length = NODE_ID_LEN}

instance linearOrderNodeId : LinearOrder NodeId :=
  inferInstanceAs (LinearOrder {b : Bytes // b.length = NODE_ID_LEN})

/-- `memcmp` over the first `n` bytes; `-1` and `1` stand for any negative and positive result. -/
def memcmp (a b : Bytes) (n : Nat) : Int :=
  if a.take n < b.take n then -1 else if a.take n = b.take n then 0 else 1

/-- The `(int)` conversion of a wider integer. -/
def toInt (n : Int) : Int := n.bmod (2 ^ 32)

/-- The ways the program ends without returning. -/
inductive Crash where
  /-- the reference count tests of the mutators of `lsa.c` -/
  | refcount
  | lsaAttrSize
  | attrAlloc
  | lsaAttrSetAddAttr
  | lsaAttrSetAddAttrSet
  | lsaDelAttrBykey
  /-- `attr_tree_free` on the NULL root of an empty attribute set: a fault, not an `abort()` -/
  | attrTreeFreeNull
  | dstAppend
  | lsaSerialise
  | attrCmp
  | lsaPathContains
  | lsaPathCost
  | lsaHasShorterAdvPath
  | compareLsaRefs
  | locRibModLsa
  | locRibDelLsa
  /-- the length tests of `map` in `adj_rib_in.c` -/
  | adjRibInMap
  /-- `print_fingerprint` of a NULL `remoteid`: a fault, not an `abort()` -/
  | printFingerprintNull
  /-- the length tests of `dgp_writer_output_lsa` -/
  | dgpWriterOutputLsa
  /-- an attribute is added to the set NULL: a fault, not an `abort()` -/
  | attrSetNull
  | confPeerTypeToLsaPeerFlags
  | lsaUpdateVersion
  | lsaAddPubkey
  | lsaSign
  | cceNewConn
  | cleNewConn
  /-- `cce_mod` in `confdiff.c` -/
  | cceMod
  /-- `cle_mod` in `confdiff.c` -/
  | cleMod
  /-- `compare_listen_entries` in `tconn_listen.c` -/
  | compareListenEntries
  /-- a node is deleted from a tree that it is not in: a fault, not an `abort()` -/
  | ivAvlTreeDelete
  /-- `nl` in `spf.c` -/
  | spfNl
  /-- `nl` of a NULL parent: a fault, not an `abort()` -/
  | spfNlNull
  /-- a slot outside the heap of `spf_run`, or one that was never written: a fault, not an
  `abort()` -/
  | spfHeap
  /-- a byte outside an array, or behind the end of a string: a fault, not an `abort()` -/
  | outside
  /-- `verify_state` in `tconn.c` -/
  | tconnVerifyState
  | tconnFdHandlerIn
  /-- `map` in `rt_builder.c` -/
  | rtBuilderMap
  | getnh
  deriving DecidableEq, Repr

section Except

variable {χ α β : Type}

@[simp] theorem ok_bind (a : α) (f : α → Except χ β) : (Except.ok a >>= f) = f a := rfl

@[simp] theorem error_bind (e : χ) (f : α → Except χ β) : (Except.error e >>= f) = .error e := rfl

@[simp] theorem pure_eq_ok (a : α) : (pure a : Except χ α) = .ok a := rfl

@[simp] theorem throw_eq_error (e : χ) : (throw e : Except χ α) = .error e := rfl

/-- A computation that succeeds succeeds at each of its steps. -/
theorem bind_eq_ok {x : Except χ α} {f : α → Except χ β} {b : β} :
    (x >>= f) = .ok b ↔ ∃ a, x = .ok a ∧ f a = .ok b := by
  cases x <;> simp

end Except

theorem NodeId.length_val (id : NodeId) : id.1.length = 32 := id.2

/-- The all-zero id. -/
def zeroId : NodeId := ⟨List.replicate 32 0, rfl⟩

/-- The id of 32 equal bytes. -/
def filledId (b : UInt8) : NodeId := ⟨List.replicate 32 b, List.length_replicate⟩

@[simp] theorem memcmp_ids_neg (a b : NodeId) : memcmp a.1 b.1 NODE_ID_LEN < 0 ↔ a < b := by
  unfold memcmp
  rw [List.take_of_length_le (le_of_eq a.2), List.take_of_length_le (le_of_eq b.2)]
  split_ifs with h h'
  · exact ⟨fun _ => h, fun _ => by omega⟩
  · exact ⟨fun hf => absurd hf (by omega), fun hf => absurd hf h⟩
  · exact ⟨fun hf => absurd hf (by omega), fun hf => absurd hf h⟩

@[simp] theorem memcmp_ids_zero (a b : NodeId) : memcmp a.1 b.1 NODE_ID_LEN = 0 ↔ a = b := by
  unfold memcmp
  rw [List.take_of_length_le (le_of_eq a.2), List.take_of_length_le (le_of_eq b.2)]
  split_ifs with h h'
  · exact ⟨fun hf => hf.elim, fun hf => absurd (hf ▸ h) (lt_irrefl _)⟩
  · exact ⟨fun _ => Subtype.ext h', fun _ => rfl⟩
  · exact ⟨fun hf => absurd hf (by omega), fun hf => absurd (congrArg Subtype.val hf) h'⟩

theorem memcmp_all (a b : Bytes) (h : a.length = b.length) :
    memcmp a b a.length = 0 ↔ a = b := by
  unfold memcmp
  rw [List.take_length, h, List.take_length]
  split_ifs with h h'
  · exact ⟨fun hf => hf.elim, fun hf => absurd (hf ▸ h) (lt_irrefl _)⟩
  · exact ⟨fun _ => h', fun _ => rfl⟩
  · exact ⟨fun hf => absurd hf (by omega), fun hf => absurd hf h'⟩

theorem toInt_of_le {n : Int} (h0 : 0 ≤ n) (h : n ≤ INT_MAX) : toInt n = n := by
  unfold toInt INT_MAX at *
  rw [Int.bmod_eq_of_le] <;> omega

end Dvpn
