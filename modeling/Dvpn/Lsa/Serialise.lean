import Dvpn.Lsa.Tree
import Dvpn.Lsa.Wire

/-!
# Serialisation (`lsa_serialise.c`, `lsa_type.h`)

The bottom layer is the code: `lsaSerialise` writes the length it was given, the id and the
attributes; a nested set is measured by a length pass (`lsaAttrSetSerialiseLength`) before it is
written; `preid` reaches the root attributes of type `ADV_PATH` only.

The layer over it says what the bytes are. `attrsWire l` is the wire form of the tree `l` as it
stands. `signedPart` removes every attribute without the signed flag, with its subtree, and
`withPreid` puts `preid` before the data of a plain root `ADV_PATH`. `rootView` combines the two:
the tree a receiver is meant to see.

* `lsaAttrsSerialise_eq`: the attributes are written as `attrsWire (rootView ..)`.
* `lsaSerialise_take`, `lsaSerialise_eq`: given the length that the length pass returns,
  `lsaSerialise` does not abort and writes `lsaWire id (rootView ..)`.
-/

namespace Dvpn

/-! ## The code -/

def LSA_ATTR_TYPE_ADV_PATH : Int := 1
def LSA_ATTR_TYPE_PEER : Int := 2
def LSA_ATTR_TYPE_VERSION : Int := 4
def LSA_ATTR_TYPE_PUBKEY : Int := 5
def LSA_ATTR_TYPE_SIGNATURE : Int := 6

def LSA_ATTR_FLAG_HAS_KEY : Nat := 1
def LSA_ATTR_FLAG_DATA_IS_TLV : Nat := 2
def LSA_ATTR_FLAG_SIGNED : Nat := 4

/-- The flags of `__lsa_attr_serialise` (`lsa_serialise.c:93-99`). -/
def attrFlags (keyed isSet signed : Bool) : Nat :=
  (if keyed then LSA_ATTR_FLAG_HAS_KEY else 0) ||| (if isSet then LSA_ATTR_FLAG_DATA_IS_TLV else 0)
    ||| (if signed then LSA_ATTR_FLAG_SIGNED else 0)

/-- The type, flags and key of `__lsa_attr_serialise` (`lsa_serialise.c:91-106`); the `int` type
is converted to `uint64_t`. -/
def attrHeadSerialise (dst : Bytes) (attr : Attr) : Except Crash Bytes := do
  let dst ← dstAppendInt dst (attr.type % 2 ^ 64).toNat
  let flags := attrFlags (attr.key.length != 0) attr.dataIsAttrSet attr.attrSigned
  let dst ← dstAppendInt dst flags
  if attr.key.length ≠ 0 then
    let dst ← dstAppendInt dst attr.key.length
    dstAppend dst attr.key
  else return dst

mutual

/-- `__lsa_attr_serialise` (`lsa_serialise.c:83-132`). -/
def lsaAttrSerialiseDst (signedOnly : Bool) : Attr → Option NodeId → Bytes → Except Crash Bytes
  | .plain t s k d, preid, dst =>
    if signedOnly && !s then return dst
    else do
      let dst ← attrHeadSerialise dst (.plain t s k d)
      match preid with
      | some id =>
        let dst ← dstAppendInt dst (d.length + NODE_ID_LEN)
        let dst ← dstAppend dst id.1
        dstAppend dst d
      | none =>
        let dst ← dstAppendInt dst d.length
        dstAppend dst d
  | .set t s k l, _, dst =>
    if signedOnly && !s then return dst
    else do
      let dst ← attrHeadSerialise dst (.set t s k [])
      -- lsa_attr_set_serialise_length
      let measured ← lsaAttrsSerialise signedOnly l none []
      let dst ← dstAppendInt dst measured.length
      childrenSerialise signedOnly l dst

/-- The loop of `__lsa_attr_serialise` over a nested set. -/
def childrenSerialise (signedOnly : Bool) : List Attr → Bytes → Except Crash Bytes
  | [], dst => return dst
  | a :: l, dst => do
    let dst ← lsaAttrSerialiseDst signedOnly a none dst
    childrenSerialise signedOnly l dst

/-- `lsa_attrs_serialise` (`lsa_serialise.c:134-149`). -/
def lsaAttrsSerialise (signedOnly : Bool) :
    List Attr → Option NodeId → Bytes → Except Crash Bytes
  | [], _, dst => return dst
  | a :: l, preid, dst => do
    let dst ← lsaAttrSerialiseDst signedOnly a
      (if a.type = LSA_ATTR_TYPE_ADV_PATH then preid else none) dst
    lsaAttrsSerialise signedOnly l preid dst

end

/-- `lsa_attr_set_serialise_length` (`lsa_serialise.c:151-164`). -/
def lsaAttrSetSerialiseLength (set : AttrSet) (signedOnly : Bool) (preid : Option NodeId) :
    Except Crash Nat := do
  let dst ← lsaAttrsSerialise signedOnly set preid []
  return dst.length

/-- `lsa_serialise_length` (`lsa_serialise.c:166-171`). -/
def lsaSerialiseLength (lsa : Lsa) (signedOnly : Bool) (preid : Option NodeId) :
    Except Crash Nat := do
  let len ← lsaAttrSetSerialiseLength lsa.root signedOnly preid
  return NODE_ID_LEN + len

/-- `lsa_serialise` (`lsa_serialise.c:173-197`): the return value and the contents of `buf`. -/
def lsaSerialise (buflen serlen : Nat) (lsa : Lsa) (signedOnly : Bool) (preid : Option NodeId) :
    Except Crash (Nat × Bytes) := do
  let dst ← dstAppendInt [] serlen
  let serlen := serlen + dst.length
  let dst ← dstAppend dst lsa.id.1
  let dst ← lsaAttrsSerialise signedOnly lsa.root preid dst
  if serlen ≠ dst.length then throw .lsaSerialise
  return (dst.length, dst.take buflen)

/-- `lsa_attr_serialise` (`lsa_serialise.c:204-215`), with a large enough buffer. -/
def lsaAttrSerialise (attr : Attr) : Except Crash Bytes := lsaAttrSerialiseDst false attr none []

/-! ## The wire form of a tree -/

/-- The bytes before the length of an attribute's data. -/
def headWire (type : Int) (isSet signed : Bool) (key : Bytes) : Bytes :=
  intBytes (type % 2 ^ 64).toNat ++ intBytes (attrFlags (key.length != 0) isSet signed) ++
    (if key.length ≠ 0 then intBytes key.length ++ key else [])

mutual

/-- The wire form of an attribute. -/
def Attr.wire : Attr → Bytes
  | .plain t s k d => headWire t false s k ++ intBytes d.length ++ d
  | .set t s k l => headWire t true s k ++ intBytes (attrsWire l).length ++ attrsWire l

/-- The wire form of a tree. -/
def attrsWire : AttrSet → Bytes
  | [] => []
  | a :: l => a.wire ++ attrsWire l

end

mutual

/-- The signed part of an attribute: nothing without the signed flag. -/
def Attr.signedPart : Attr → AttrSet
  | .plain t s k d => if s then [.plain t s k d] else []
  | .set t s k l => if s then [.set t s k (signedPart l)] else []

/-- The signed part of a tree: every attribute without the signed flag removed, at every level,
with its subtree. -/
def signedPart : AttrSet → AttrSet
  | [] => []
  | a :: l => a.signedPart ++ signedPart l

end

/-- The data of a plain attribute prefixed by `preid`. -/
def Attr.prefixData : Attr → Option NodeId → Attr
  | .plain t s k d, some id => .plain t s k (id.1 ++ d)
  | a, _ => a

/-- `preid` put before the data of a plain `ADV_PATH`. -/
def Attr.withPreid (preid : Option NodeId) (a : Attr) : Attr :=
  a.prefixData (if a.type = LSA_ATTR_TYPE_ADV_PATH then preid else none)

/-- The attributes a serialisation writes. -/
def viewOf (signedOnly : Bool) (l : AttrSet) : AttrSet := if signedOnly then signedPart l else l

/-- The root attributes as a serialisation writes them. -/
def rootView (signedOnly : Bool) (preid : Option NodeId) (l : AttrSet) : AttrSet :=
  (viewOf signedOnly l).map (Attr.withPreid preid)

/-- The wire form of an LSA. -/
def lsaWire (id : NodeId) (root : AttrSet) : Bytes :=
  intBytes (NODE_ID_LEN + (attrsWire root).length) ++ id.1 ++ attrsWire root

/-! ## The code writes the wire form -/

theorem length_intBytes_flags : ∀ a b c : Bool, (intBytes (attrFlags a b c)).length = 1 := by
  decide +kernel

theorem attrsWire_append (l l' : AttrSet) : attrsWire (l ++ l') = attrsWire l ++ attrsWire l' := by
  induction l with
  | nil => rfl
  | cons a l ih => simp [attrsWire, ih, List.append_assoc]

@[simp] theorem prefixData_none (a : Attr) : a.prefixData none = a := by
  cases a <;> rfl

@[simp] theorem withPreid_none (a : Attr) : a.withPreid none = a := by
  unfold Attr.withPreid
  split_ifs <;> exact prefixData_none a

theorem rootView_none (so : Bool) (l : AttrSet) : rootView so none l = viewOf so l := by
  unfold rootView
  rw [show (Attr.withPreid none) = id from funext withPreid_none, List.map_id]

theorem viewOf_cons (so : Bool) (a : Attr) (l : AttrSet) :
    viewOf so (a :: l) = viewOf so [a] ++ viewOf so l := by
  cases so <;> simp [viewOf, signedPart]

/-- The type survives the views. -/
theorem type_of_mem_viewOf {so : Bool} {a b : Attr} (h : b ∈ viewOf so [a]) : b.type = a.type := by
  have single : ∀ {c : Prop} [Decidable c] {x : Attr}, b ∈ (if c then [x] else []) → b = x := by
    intro c _ x hb
    split_ifs at hb
    · exact List.mem_singleton.mp hb
    · exact absurd hb List.not_mem_nil
  cases so with
  | false => rw [List.mem_singleton.mp h]
  | true =>
    cases a with
    | plain t s k d =>
      simp only [viewOf, signedPart, Attr.signedPart, if_true, List.append_nil] at h
      rw [single h]
    | set t s k l =>
      simp only [viewOf, signedPart, Attr.signedPart, if_true, List.append_nil] at h
      rw [single h]
      rfl

theorem dstAppend_eq {dst buf : Bytes} (h : dst.length + buf.length ≤ SIZE_MAX) :
    dstAppend dst buf = .ok (dst ++ buf) := by
  unfold dstAppend
  rw [if_neg (by omega)]

theorem dstAppendInt_eq {dst : Bytes} {v : Nat} (h : dst.length + (intBytes v).length ≤ SIZE_MAX) :
    dstAppendInt dst v = .ok (dst ++ intBytes v) :=
  dstAppend_eq h

theorem attrHeadSerialise_eq {dst : Bytes} {a : Attr}
    (h : dst.length + (headWire a.type a.dataIsAttrSet a.attrSigned a.key).length ≤ SIZE_MAX) :
    attrHeadSerialise dst a =
      .ok (dst ++ headWire a.type a.dataIsAttrSet a.attrSigned a.key) := by
  unfold headWire at h ⊢
  unfold attrHeadSerialise
  by_cases hk : a.key.length = 0
  · simp only [hk, ne_eq, not_true_eq_false, if_false, List.append_nil, List.length_append] at h ⊢
    rw [dstAppendInt_eq (by omega), ok_bind,
      dstAppendInt_eq (by simp only [List.length_append]; omega), ok_bind, pure_eq_ok,
      List.append_assoc]
  · simp only [ne_eq, hk, not_false_eq_true, if_true, List.length_append] at h ⊢
    rw [dstAppendInt_eq (by omega), ok_bind,
      dstAppendInt_eq (by simp only [List.length_append]; omega), ok_bind,
      dstAppendInt_eq (by simp only [List.length_append]; omega), ok_bind,
      dstAppend_eq (by simp only [List.length_append]; omega)]
    simp only [List.append_assoc]

theorem attrHeadSerialise_plain {dst : Bytes} {t : Int} {s : Bool} {k d : Bytes}
    (h : dst.length + (headWire t false s k).length ≤ SIZE_MAX) :
    attrHeadSerialise dst (.plain t s k d) = .ok (dst ++ headWire t false s k) :=
  attrHeadSerialise_eq h

theorem attrHeadSerialise_set {dst : Bytes} {t : Int} {s : Bool} {k : Bytes} {l : AttrSet}
    (h : dst.length + (headWire t true s k).length ≤ SIZE_MAX) :
    attrHeadSerialise dst (.set t s k l) = .ok (dst ++ headWire t true s k) :=
  attrHeadSerialise_eq h

/-- The bytes of one attribute as `__lsa_attr_serialise` writes it. -/
def oneWire (so : Bool) (preid : Option NodeId) (a : Attr) : Bytes :=
  attrsWire ((viewOf so [a]).map (·.prefixData preid))

theorem oneWire_unsigned {so : Bool} {preid : Option NodeId} {a : Attr}
    (h : (so && !a.attrSigned) = true) : oneWire so preid a = [] := by
  simp only [Bool.and_eq_true, Bool.not_eq_true'] at h
  obtain ⟨rfl, hs⟩ := h
  cases a <;> simp_all [oneWire, viewOf, signedPart, Attr.signedPart, Attr.attrSigned, attrsWire]

theorem oneWire_plain {so : Bool} {preid : Option NodeId} {t : Int} {s : Bool} {k d : Bytes}
    (h : ¬ (so && !s) = true) :
    oneWire so preid (.plain t s k d) = ((Attr.plain t s k d).prefixData preid).wire := by
  cases so <;> cases s <;>
    simp_all [oneWire, viewOf, signedPart, Attr.signedPart, attrsWire]

theorem oneWire_set {so : Bool} {preid : Option NodeId} {t : Int} {s : Bool} {k : Bytes}
    {l : AttrSet} (h : ¬ (so && !s) = true) :
    oneWire so preid (.set t s k l) = (Attr.set t s k (viewOf so l)).wire := by
  cases so <;> cases s <;>
    simp_all [oneWire, viewOf, signedPart, Attr.signedPart, attrsWire, Attr.prefixData]

theorem attrsWire_viewOf_cons (so : Bool) (a : Attr) (l : AttrSet) :
    attrsWire (viewOf so (a :: l)) = oneWire so none a ++ attrsWire (viewOf so l) := by
  rw [viewOf_cons, attrsWire_append]
  simp [oneWire]

theorem attrsWire_rootView_cons (so : Bool) (preid : Option NodeId) (a : Attr) (l : AttrSet) :
    attrsWire (rootView so preid (a :: l)) =
      oneWire so (if a.type = LSA_ATTR_TYPE_ADV_PATH then preid else none) a ++
        attrsWire (rootView so preid l) := by
  unfold rootView oneWire
  rw [viewOf_cons, List.map_append, attrsWire_append]
  congr 2
  refine List.map_congr_left fun b hb => ?_
  unfold Attr.withPreid
  rw [type_of_mem_viewOf hb]

/-- **One attribute is written in its wire form.** -/
theorem lsaAttrSerialiseDst_eq (so : Bool) (a : Attr) : ∀ (preid : Option NodeId) (dst : Bytes),
    dst.length + (oneWire so preid a).length ≤ SIZE_MAX →
      lsaAttrSerialiseDst so a preid dst = .ok (dst ++ oneWire so preid a) := by
  induction a using Attr.tree_induction with
  | plain t s k d =>
    intro preid dst h
    unfold lsaAttrSerialiseDst
    split_ifs with hs
    · rw [oneWire_unsigned hs, List.append_nil]
      rfl
    · rw [oneWire_plain hs] at h ⊢
      cases preid with
      | none =>
        simp only [Attr.prefixData, Attr.wire, List.length_append] at h ⊢
        rw [attrHeadSerialise_plain (by omega)]
        simp only [ok_bind]
        rw [dstAppendInt_eq (by simp only [List.length_append]; omega), ok_bind,
          dstAppend_eq (by simp only [List.length_append]; omega)]
        simp only [List.append_assoc]
      | some id =>
        have hid := id.2
        simp only [Attr.prefixData, Attr.wire, List.length_append, hid] at h ⊢
        rw [attrHeadSerialise_plain (by omega)]
        simp only [ok_bind, Nat.add_comm d.length]
        rw [dstAppendInt_eq (by simp only [List.length_append]; omega), ok_bind,
          dstAppend_eq (by simp only [List.length_append, hid]; omega), ok_bind,
          dstAppend_eq (by simp only [List.length_append, hid]; omega)]
        simp only [List.append_assoc]
  | set t s k l ih =>
    intro preid dst h
    unfold lsaAttrSerialiseDst
    split_ifs with hs
    · rw [oneWire_unsigned hs, List.append_nil]
      rfl
    · -- the length pass and the loop both write the wire form of the children
      have hloop : ∀ (l' : AttrSet), (∀ a ∈ l', a ∈ l) → ∀ dst : Bytes,
          dst.length + (attrsWire (viewOf so l')).length ≤ SIZE_MAX →
          childrenSerialise so l' dst = .ok (dst ++ attrsWire (viewOf so l')) ∧
          lsaAttrsSerialise so l' none dst = .ok (dst ++ attrsWire (viewOf so l')) := by
        intro l'
        induction l' with
        | nil =>
          intro _ dst _
          cases so <;> simp [childrenSerialise, lsaAttrsSerialise, viewOf, signedPart, attrsWire]
        | cons b l' ih' =>
          intro hsub dst hlen
          rw [attrsWire_viewOf_cons, List.length_append] at hlen
          have hb := ih b (hsub b List.mem_cons_self) none dst (by omega)
          obtain ⟨h1, h2⟩ := ih' (fun a ha => hsub a (List.mem_cons_of_mem b ha))
            (dst ++ oneWire so none b) (by simp only [List.length_append]; omega)
          rw [attrsWire_viewOf_cons, ← List.append_assoc]
          simp only [childrenSerialise, lsaAttrsSerialise, ite_self, hb, ok_bind]
          exact ⟨h1, h2⟩
      rw [oneWire_set hs] at h ⊢
      simp only [Attr.wire, List.length_append] at h ⊢
      rw [attrHeadSerialise_set (by omega)]
      simp only [ok_bind]
      rw [(hloop l (fun _ h => h) [] (by rw [List.length_nil]; omega)).2]
      simp only [ok_bind, List.nil_append]
      rw [dstAppendInt_eq (by simp only [List.length_append]; omega), ok_bind,
        (hloop l (fun _ h => h) _ (by simp only [List.length_append]; omega)).1]
      simp only [List.append_assoc]

/-- **The attributes are written in the wire form of their view.** -/
theorem lsaAttrsSerialise_eq (so : Bool) (preid : Option NodeId) (l : AttrSet) :
    ∀ dst : Bytes, dst.length + (attrsWire (rootView so preid l)).length ≤ SIZE_MAX →
      lsaAttrsSerialise so l preid dst = .ok (dst ++ attrsWire (rootView so preid l)) := by
  induction l with
  | nil =>
    intro dst _
    cases so <;> simp [lsaAttrsSerialise, rootView, viewOf, signedPart, attrsWire]
  | cons a l ih =>
    intro dst h
    rw [attrsWire_rootView_cons, List.length_append] at h
    simp only [lsaAttrsSerialise]
    rw [lsaAttrSerialiseDst_eq so a _ dst (by omega), ok_bind,
      ih _ (by simp only [List.length_append]; omega), attrsWire_rootView_cons, List.append_assoc]

theorem lsaSerialiseLength_eq {lsa : Lsa} {so : Bool} {preid : Option NodeId}
    (h : (attrsWire (rootView so preid lsa.root)).length ≤ SIZE_MAX) :
    lsaSerialiseLength lsa so preid =
      .ok (NODE_ID_LEN + (attrsWire (rootView so preid lsa.root)).length) := by
  unfold lsaSerialiseLength lsaAttrSetSerialiseLength
  rw [lsaAttrsSerialise_eq so preid lsa.root [] (by simpa using h)]
  rfl

theorem length_lsaWire (id : NodeId) (root : AttrSet) : (lsaWire id root).length =
    (intBytes (NODE_ID_LEN + (attrsWire root).length)).length + NODE_ID_LEN +
      (attrsWire root).length := by
  unfold lsaWire
  rw [List.length_append, List.length_append, id.2]

/-- **An LSA is written in its wire form**, when `serlen` is what the length pass returns. -/
theorem lsaSerialise_take {lsa : Lsa} {so : Bool} {preid : Option NodeId} (buflen : Nat)
    (h : (lsaWire lsa.id (rootView so preid lsa.root)).length ≤ SIZE_MAX) :
    lsaSerialise buflen (NODE_ID_LEN + (attrsWire (rootView so preid lsa.root)).length)
        lsa so preid =
      .ok ((lsaWire lsa.id (rootView so preid lsa.root)).length,
        (lsaWire lsa.id (rootView so preid lsa.root)).take buflen) := by
  rw [length_lsaWire] at h
  have hid := lsa.id.2
  have h0 : ([] : Bytes).length = 0 := rfl
  unfold lsaSerialise
  rw [dstAppendInt_eq (by omega), ok_bind, dstAppend_eq (by simp only [List.length_append]; omega),
    ok_bind, lsaAttrsSerialise_eq so preid lsa.root _ (by simp only [List.length_append]; omega),
    ok_bind, if_neg (by simp only [List.length_append, List.nil_append]; omega)]
  simp only [List.nil_append]
  rfl

/-- The same in a buffer with room for it. -/
theorem lsaSerialise_eq {lsa : Lsa} {so : Bool} {preid : Option NodeId} {buflen : Nat}
    (h : (lsaWire lsa.id (rootView so preid lsa.root)).length ≤ SIZE_MAX)
    (hbuf : (lsaWire lsa.id (rootView so preid lsa.root)).length ≤ buflen) :
    lsaSerialise buflen (NODE_ID_LEN + (attrsWire (rootView so preid lsa.root)).length)
        lsa so preid =
      .ok ((lsaWire lsa.id (rootView so preid lsa.root)).length,
        lsaWire lsa.id (rootView so preid lsa.root)) := by
  rw [lsaSerialise_take buflen h, List.take_of_length_le hbuf]

end Dvpn
