import Dvpn.Lsa.Deserialise

/-!
# Differences of LSAs (`lsa_diff.c`, `avl_diff` in `util.c`)

`lsaDiff a b` counts the differences between the root sets of two LSAs; NULL is an empty set. Two
attributes with one (type, key) differ when their kinds or their data do; the data of two sets are
compared in their wire form, which has the signed flags; those of plain attributes are not
compared. The callbacks are left out: the callers in the RIBs pass none.

* `lsaDiff_self`: an LSA does not differ from itself.
* `lsaDiff_isOk`: with root sets of at most 65520 bytes the comparison does not abort.
-/

namespace Dvpn

/-- `attr_cmp` (`lsa_diff.c:56-88`): whether it returns something other than 0. -/
def attrCmp (a b : Attr) : Except Crash Bool :=
  match a, b with
  | .plain _ _ _ adata, .plain _ _ _ bdata =>
    if adata.length ≠ bdata.length then return true
    else return memcmp adata bdata adata.length ≠ 0
  | .set _ _ _ _, .set _ _ _ _ => do
    let abuf ← lsaAttrSerialise a
    let bbuf ← lsaAttrSerialise b
    if abuf.length ≠ bbuf.length then return true
    else if abuf.length > 65536 - 16 then throw .attrCmp
    else return memcmp abuf bbuf abuf.length ≠ 0
  | _, _ => return true

/-- The number of differences that `add`, `mod` and `del` (`lsa_diff.c:45-120`) count. -/
def countDiffs : List (Avl.Diff Attr) → Except Crash Nat
  | [] => return 0
  | .add _ :: l => return (← countDiffs l) + 1
  | .mod a b :: l => do
    let differ ← attrCmp a b
    return (← countDiffs l) + if differ then 1 else 0
  | .del _ :: l => return (← countDiffs l) + 1

/-- `lsa_diff` (`lsa_diff.c:122-143`). -/
def lsaDiff (a b : Option Lsa) : Except Crash Nat :=
  countDiffs (Avl.diff compareAttrKeys ((a.map Lsa.root).getD []) ((b.map Lsa.root).getD []))

/-! ## Comparisons that do not abort -/

variable {a b : Attr} {l l' : AttrSet}

/-- The serialised length that `attr_cmp` has room for. -/
def Attr.Comparable (a : Attr) : Prop := a.wire.length ≤ 65536 - 16

theorem lsaAttrSerialise_eq (h : a.Comparable) : lsaAttrSerialise a = .ok a.wire := by
  have hone : oneWire false none a = a.wire := by
    simp [oneWire, viewOf, attrsWire]
  have hmax : SIZE_MAX = 2 ^ 64 - 1 := rfl
  unfold Attr.Comparable at h
  unfold lsaAttrSerialise
  rw [lsaAttrSerialiseDst_eq false a none [] (by rw [hone, List.length_nil]; omega), hone]
  rfl

theorem attrCmp_isOk (ha : a.Comparable) (hb : b.Comparable) :
    ∃ differ, attrCmp a b = .ok differ := by
  cases a with
  | plain t s k d =>
    cases b with
    | plain t' s' k' d' =>
      simp only [attrCmp]
      split_ifs
      · exact ⟨true, rfl⟩
      · exact ⟨_, rfl⟩
    | set t' s' k' l' => exact ⟨true, rfl⟩
  | set t s k l =>
    cases b with
    | plain t' s' k' d' => exact ⟨true, rfl⟩
    | set t' s' k' l' =>
      simp only [attrCmp]
      rw [lsaAttrSerialise_eq ha, lsaAttrSerialise_eq hb, ok_bind, ok_bind]
      split_ifs with h1 h2
      · exact ⟨true, rfl⟩
      · exact absurd ha (not_le.mpr h2)
      · exact ⟨_, rfl⟩

theorem attrCmp_self (h : a.Comparable) : attrCmp a a = .ok false := by
  have hmem : ∀ x : Bytes, decide (memcmp x x x.length ≠ 0) = false := by
    intro x
    rw [(memcmp_all x x rfl).mpr rfl]
    rfl
  cases a with
  | plain t s k d =>
    simp only [attrCmp]
    rw [if_neg (not_not.mpr rfl), hmem]
    rfl
  | set t s k l =>
    simp only [attrCmp]
    rw [lsaAttrSerialise_eq h, ok_bind, ok_bind, if_neg (not_not.mpr rfl), if_neg (not_lt.mpr h),
      hmem]
    rfl

theorem countDiffs_isOk : ∀ {ds : List (Avl.Diff Attr)},
    (∀ a b, Avl.Diff.mod a b ∈ ds → a.Comparable ∧ b.Comparable) → ∃ n, countDiffs ds = .ok n
  | [], _ => ⟨0, rfl⟩
  | d :: ds, h => by
    obtain ⟨n, hn⟩ := countDiffs_isOk fun a b hm => h a b (List.mem_cons_of_mem d hm)
    cases d with
    | add b => exact ⟨n + 1, by simp [countDiffs, hn]⟩
    | del a => exact ⟨n + 1, by simp [countDiffs, hn]⟩
    | mod a b =>
      obtain ⟨ha, hb⟩ := h a b List.mem_cons_self
      obtain ⟨differ, hc⟩ := attrCmp_isOk ha hb
      exact ⟨n + if differ then 1 else 0, by simp [countDiffs, hn, hc]⟩

/-- **The comparison does not abort** on attributes of at most 65520 bytes. -/
theorem lsaDiff_isOk {a b : Lsa} (ha : ∀ x ∈ a.root, x.Comparable)
    (hb : ∀ x ∈ b.root, x.Comparable) :
    ∃ n, lsaDiff (some a) (some b) = .ok n :=
  countDiffs_isOk fun x y h =>
    ⟨ha x (Avl.mem_diff_mod h).1, hb y (Avl.mem_diff_mod h).2⟩

/-- **Equal trees do not differ.** -/
theorem lsaDiff_self {a b : Lsa} (h : a.root = b.root) (ha : ∀ x ∈ a.root, x.Comparable) :
    lsaDiff (some a) (some b) = .ok 0 := by
  have hcount : ∀ l : AttrSet, (∀ x ∈ l, x.Comparable) →
      countDiffs (l.map fun x => Avl.Diff.mod x x) = .ok 0 := by
    intro l
    induction l with
    | nil => exact fun _ => rfl
    | cons x l ih =>
      intro hl
      simp [countDiffs, attrCmp_self (hl x List.mem_cons_self),
        ih fun y hy => hl y (List.mem_cons_of_mem x hy)]
  unfold lsaDiff
  rw [Option.map_some, Option.map_some, Option.getD_some, Option.getD_some, ← h,
    Avl.diff_self compareAttrKeys_orders]
  exact hcount a.root ha

/-- The attributes of a short tree are short enough. -/
theorem comparable_of_wire (h : (attrsWire l).length ≤ 65536 - 16) (ha : a ∈ l) : a.Comparable :=
  (wire_length_le_of_mem ha).trans h

end Dvpn
