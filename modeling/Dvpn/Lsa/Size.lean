import Dvpn.Lsa.Accounting
import Dvpn.Lsa.RoundTrip

/-!
# How much a serialisation writes (`lsa.c:226-250`, `lsa_serialise.c:83-215`)

`lsa->bytes` charges every integer ten bytes, which covers the 32 bytes that `preid` adds to an
`ADV_PATH` with a key. The one without a key gets up to 7 bytes longer than it is charged, and
there is room for these in what is charged for the length of the whole message.

* `length_lsaWire_rootView_le`: what is written is at most `lsa->bytes`.
* `length_lsaWire_read_le`: an LSA that was read is written in at most as many bytes.
-/

namespace Dvpn

variable {lsa : Lsa} {l : AttrSet} {a : Attr} {so : Bool} {preid : Option NodeId} {k d : Bytes}

/-! ## An LSA within the limit -/

theorem length_oneWire_le (so : Bool) (h : a.totalSize < 2 ^ 64) :
    (oneWire so none a).length ≤ a.totalSize := by
  have hwire := (totalSize_bounds a).1
  have hone : attrsWire [a] = a.wire := by
    rw [attrsWire, attrsWire, List.append_nil]
  have hview : oneWire so none a = attrsWire (viewOf so [a]) := by
    unfold oneWire
    rw [funext prefixData_none, List.map_id']
  rw [hview]
  cases so with
  | false => exact hone ▸ hwire
  | true =>
    have hle := (signedPart_le (l := [a]) (by rw [hone]; omega)).2
    rw [hone] at hle
    exact hle.trans hwire

/-- The data of an `ADV_PATH` with `preid` before it. -/
theorem length_oneWire_path_le (so s : Bool) (id : NodeId) (h : k.length + d.length < 2 ^ 20) :
    (oneWire so (some id) (.plain LSA_ATTR_TYPE_ADV_PATH s k d)).length ≤
      (Attr.plain LSA_ATTR_TYPE_ADV_PATH s k d).totalSize + if k = [] then 7 else 0 := by
  by_cases hs : (so && !s) = true
  · rw [oneWire_unsigned hs]
    exact Nat.zero_le _
  · have hid : id.1.length = 32 := id.2
    have htype : (intBytes (LSA_ATTR_TYPE_ADV_PATH % 2 ^ 64).toNat).length = 1 := by decide
    have hflags := length_intBytes_flags (k.length != 0) false s
    have hk := length_intBytes_le_of_lt (v := k.length) (n := 3) (by omega) (by omega) (by omega)
    have hd := length_intBytes_le_of_lt (v := 32 + d.length) (n := 3) (by omega) (by omega)
      (by omega)
    rw [oneWire_plain hs]
    simp only [Attr.prefixData, Attr.wire, headWire, List.length_append, htype, hflags, hid,
      Attr.totalSize, Attr.size, Attr.key, Attr.datalen, Attr.dataIsAttrSet, Bool.false_eq_true,
      if_false]
    cases k with
    | nil =>
      simp only [List.length_nil, ne_eq, not_true_eq_false, if_false, if_true]
      omega
    | cons b k =>
      simp only [List.length_cons, ne_eq, Nat.add_eq_zero_iff, Nat.one_ne_zero, and_false,
        not_false_eq_true, if_true, List.length_append, reduceCtorEq, if_false] at hk ⊢
      omega

/-- A root attribute. -/
theorem length_oneWire_root_le (so : Bool) (preid : Option NodeId) (h : a.totalSize < 2 ^ 20) :
    (oneWire so (if a.type = LSA_ATTR_TYPE_ADV_PATH then preid else none) a).length ≤
      a.totalSize + if a.pair = toLex (LSA_ATTR_TYPE_ADV_PATH, []) then 7 else 0 := by
  have hplain := length_oneWire_le so (a := a) (by omega)
  by_cases ht : a.type = LSA_ATTR_TYPE_ADV_PATH
  · rw [if_pos ht]
    cases preid with
    | none => omega
    | some id =>
      cases a with
      | set t s k l =>
        -- a set takes no `preid`
        have hset : oneWire so (some id) (.set t s k l) = oneWire so none (.set t s k l) := by
          by_cases hs : (so && !s) = true
          · rw [oneWire_unsigned hs, oneWire_unsigned hs]
          · rw [oneWire_set hs, oneWire_set hs]
        rw [hset]
        omega
      | plain t s k d =>
        obtain rfl : t = LSA_ATTR_TYPE_ADV_PATH := ht
        have hpair : (Attr.plain LSA_ATTR_TYPE_ADV_PATH s k d).pair =
            toLex (LSA_ATTR_TYPE_ADV_PATH, []) ↔ k = [] := by
          simp [Attr.pair, Attr.type, Attr.key]
        simp only [hpair]
        refine length_oneWire_path_le so s id ?_
        simp only [Attr.totalSize, Attr.size, Attr.key, Attr.datalen, Attr.dataIsAttrSet,
          Bool.false_eq_true, if_false] at h
        by_cases hk : k.length = 0 <;> simp only [hk, ne_eq, not_true_eq_false,
          not_false_eq_true, if_true, if_false] at h <;> omega
  · rw [if_neg ht]
    omega

/-- Each root `ADV_PATH` without a key is up to 7 bytes over. -/
theorem length_rootView_le_count (so : Bool) (preid : Option NodeId) (h : attrsSize l < 2 ^ 20) :
    (attrsWire (rootView so preid l)).length ≤
      attrsSize l + 7 * (l.map Attr.pair).count (toLex (LSA_ATTR_TYPE_ADV_PATH, [])) := by
  induction l with
  | nil => cases so <;> exact Nat.le_refl 0
  | cons a l ih =>
    rw [attrsSize] at h ⊢
    have ha := length_oneWire_root_le so preid (a := a) (by omega)
    have hl := ih (by omega)
    rw [attrsWire_rootView_cons, List.length_append, List.map_cons, List.count_cons]
    simp only [beq_iff_eq]
    split_ifs at ha ⊢ <;> omega

/-- **The size covers the wire form**: there is one root `ADV_PATH` without a key at most. -/
theorem length_lsaWire_rootView_le (h : Accounted lsa) (hb : lsa.bytes < 2 ^ 20) (so : Bool)
    (preid : Option NodeId) :
    (lsaWire lsa.id (rootView so preid lsa.root)).length ≤ lsa.bytes := by
  have hbytes := h.bytes
  have hid : NODE_ID_LEN = 32 := rfl
  have hint10 : MAX_SERIALISED_INT_LEN = 10 := rfl
  have hnodup : (lsa.root.map Attr.pair).Nodup :=
    List.pairwise_map.mpr (h.wf.1.imp fun hlt => ne_of_lt hlt)
  have hcount := List.nodup_iff_count_le_one.mp hnodup (toLex (LSA_ATTR_TYPE_ADV_PATH, []))
  have hview := length_rootView_le_count so preid (l := lsa.root) (by omega)
  have hint := length_intBytes_le_of_lt
    (v := NODE_ID_LEN + (attrsWire (rootView so preid lsa.root)).length) (n := 3) (by omega)
    (by omega) (by omega)
  rw [length_lsaWire]
  omega

/-! ## An LSA that was read -/

theorem Received.accounted (h : Received lsa) : Accounted lsa := by
  obtain ⟨buf, ret, obj, -, hrun, rfl⟩ := h
  obtain ⟨id, l, rfl, hu, hf⟩ := lsaDeserialise_built hrun
  exact builtLsa_accounted hu hf

/-- **What was read is written in at most as many bytes**: the reader takes at least as many bytes
for an integer as the writer, and the order of the attributes does not count. -/
theorem length_lsaWire_read_le {buf : Bytes} {ret : Int} {obj : LsaObj}
    (hlen : buf.length ≤ 65536) (h : lsaDeserialise buf = .ok (ret, some obj)) :
    ((lsaWire obj.id obj.root).length : Int) ≤ ret := by
  obtain ⟨n, id, body, hbody, rfl, rfl, -⟩ := lsaDeserialise_some_inv hlen h
  obtain ⟨hn, hbuf⟩ := messageBody_consumes hbody
  have hrecords := (messageRecords_records hbody).length_attrsWire
  have hint := length_intBytes_mono (Nat.add_le_add_left hrecords NODE_ID_LEN) (by omega)
  rw [length_lsaWire]
  simp only [builtLsa, length_attrsWire_arrange]
  omega

end Dvpn
