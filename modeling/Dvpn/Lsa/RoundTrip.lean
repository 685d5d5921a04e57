import Dvpn.Lsa.Deserialise

/-!
# Round trips (`lsa_serialise.c` against `lsa_deserialise.c`)

The encoder writes `lsaWire id (rootView signed_only preid root)`; the decoder reads it back as
that tree, whatever follows it. With `signed_only` the tree is the signed part of the original, so
the bytes that `lsa_sign` signs (`dvpn.c:225-232`) and `map` verifies (`adj_rib_in.c:152-159`)
are the same for two LSAs exactly when their ids and their signed parts are.

* `records_attrsWire`: the records of a wire form are its tree.
* `lsaDeserialise_lsaWire`: a wire form is read back.
* `Serialisable`: an LSA of the size and the shape that the format covers, and its views.
* `serialise_deserialise`: the round trip through the code.
* `signed_bytes`: what is signed is exactly the signed part.
-/

namespace Dvpn

/-! ## One attribute -/

theorem readKey_head {k rest : Bytes} {isSet s : Bool} (hk : k.length < 2 ^ 64) :
    readKey (attrFlags (k.length != 0) isSet s)
        ((if k.length ≠ 0 then intBytes k.length ++ k else []) ++ rest) = .ok (k, rest) := by
  have hflag : ∀ b b' b'' : Bool, attrFlags b b' b'' &&& LSA_ATTR_FLAG_HAS_KEY ≠ 0 ↔ b = true := by
    decide
  unfold readKey
  by_cases h0 : k.length = 0
  · rw [if_neg (by rw [hflag]; simp [h0]), if_neg (not_not.mpr h0),
      List.eq_nil_of_length_eq_zero h0]
    rfl
  · rw [if_pos ((hflag _ _ _).mpr (by simp [h0])), if_pos h0, srcReadSizeT_eq, List.append_assoc,
      srcReadUint64_intBytes hk]
    exact srcGetPtr_append rfl

/-- A record in its wire form is read back. -/
theorem readAttr_wire {t : Int} (isSet s : Bool) {k x : Bytes} (rest : Bytes)
    (ht : 0 ≤ t ∧ t ≤ INT_MAX)
    (hk : k.length < 2 ^ 64) (hx : x.length < 2 ^ 64) :
    readAttr (headWire t isSet s k ++ intBytes x.length ++ x ++ rest) =
      .ok (⟨t.toNat, attrFlags (k.length != 0) isSet s, k, x⟩, rest) := by
  have hmax : INT_MAX = 2 ^ 31 - 1 := rfl
  have hflags : attrFlags (k.length != 0) isSet s ≤ INT_MAX := by
    cases (k.length != 0) <;> cases isSet <;> cases s <;> decide
  have htn : (t % 2 ^ 64).toNat = t.toNat := by omega
  unfold readAttr headWire
  rw [htn]
  simp only [List.append_assoc]
  rw [srcReadInt_eq (srcReadUint64_intBytes (by omega) _) (by omega), ok_bind,
    srcReadInt_eq (srcReadUint64_intBytes (by omega) _) hflags, ok_bind, readKey_head hk, ok_bind,
    srcReadSizeT_eq, srcReadUint64_intBytes hx, ok_bind]
  simp only [srcGetPtr_append rfl, ok_bind, pure_eq_ok]

theorem isTlv_wire {t : Nat} {keyed isSet s : Bool} {k x : Bytes} :
    (RawAttr.mk t (attrFlags keyed isSet s) k x).isTlv = isSet := by
  have h : ∀ keyed isSet s : Bool,
      (attrFlags keyed isSet s &&& LSA_ATTR_FLAG_DATA_IS_TLV != 0) = isSet := by decide
  exact h keyed isSet s

theorem sign_wire {t : Nat} {keyed isSet s : Bool} {k x : Bytes} :
    (RawAttr.mk t (attrFlags keyed isSet s) k x).sign = s := by
  have h : ∀ keyed isSet s : Bool,
      (attrFlags keyed isSet s &&& LSA_ATTR_FLAG_SIGNED != 0) = s := by decide
  exact h keyed isSet s

variable {l : AttrSet}

theorem wire_ne_nil (t : Int) (isSet s : Bool) (k x y : Bytes) :
    headWire t isSet s k ++ intBytes x.length ++ x ++ y ≠ [] := by
  have h1 := length_intBytes_pos (t % 2 ^ 64).toNat
  intro h
  have hlen := congrArg List.length h
  unfold headWire at hlen
  simp only [List.length_append, List.length_nil] at hlen
  omega

/-! ## A tree -/

/-- **The records of a wire form are its tree.** -/
theorem records_attrsWire {d : Nat} (ht : TypesOk l) (hd : attrsDepth l ≤ d)
    (hlen : (attrsWire l).length < 2 ^ 64) : Records d (attrsWire l) l true := by
  have many : ∀ l : List Attr, (∀ a ∈ l, ∀ (d : Nat) (rest : Bytes) (l' : List Attr),
      a.Everywhere (fun a => 0 ≤ a.type ∧ a.type ≤ INT_MAX) → a.setDepth ≤ d →
      a.wire.length < 2 ^ 64 → Records d rest l' true →
      Records d (a.wire ++ rest) (a :: l') true) →
      ∀ d, TypesOk l → attrsDepth l ≤ d → (attrsWire l).length < 2 ^ 64 →
      Records d (attrsWire l) l true := by
    intro l
    induction l with
    | nil => exact fun _ d _ _ _ => .done
    | cons a l ih =>
      intro h d ht hd hlen
      obtain ⟨hta, htl⟩ := ht
      simp only [attrsWire, attrsDepth, List.length_append] at hlen hd ⊢
      exact h a List.mem_cons_self d _ l hta (by omega) (by omega)
        (ih (fun b hb => h b (List.mem_cons_of_mem a hb)) d htl (by omega) (by omega))
  have one : ∀ a : Attr, ∀ (d : Nat) (rest : Bytes) (l' : List Attr),
      a.Everywhere (fun a => 0 ≤ a.type ∧ a.type ≤ INT_MAX) → a.setDepth ≤ d →
      a.wire.length < 2 ^ 64 → Records d rest l' true →
      Records d (a.wire ++ rest) (a :: l') true := by
    intro a
    induction a using Attr.tree_induction with
    | plain t s k x =>
      intro d rest l' ht _ hlen hrest
      have hk := key_length_le_head t false s k
      simp only [Attr.wire, List.length_append] at hlen ⊢
      have hread := readAttr_wire false s rest ht
        (by omega : k.length < 2 ^ 64) (by omega : x.length < 2 ^ 64)
      have hrec := Records.plain (wire_ne_nil _ _ _ _ _ _) hread isTlv_wire hrest
      rwa [sign_wire, Int.toNat_of_nonneg ht.1] at hrec
    | set t s k l ih =>
      intro d rest l' ht hd hlen hrest
      obtain ⟨ht, htl⟩ := ht
      have hk := key_length_le_head t true s k
      simp only [Attr.wire, Attr.setDepth, List.length_append] at hlen hd ⊢
      obtain ⟨d, rfl⟩ := Nat.exists_eq_succ_of_ne_zero (by omega : d ≠ 0)
      have hread := readAttr_wire true s rest ht
        (by omega : k.length < 2 ^ 64) (by omega : (attrsWire l).length < 2 ^ 64)
      have hin := many l ih d htl (by omega) (by omega)
      have hrec := Records.set (wire_ne_nil _ _ _ _ _ _) hread isTlv_wire hin hrest
      rwa [sign_wire, Int.toNat_of_nonneg ht.1] at hrec
  exact many l (fun a _ => one a) d ht hd hlen

theorem messageBody_lsaWire (id : NodeId) (r : Bytes) (hlen : (attrsWire l).length < 2 ^ 62) :
    messageBody (lsaWire id l ++ r) = some ((lsaWire id l).length, id, attrsWire l) := by
  have hid : id.1.length = 32 := id.2
  have hlid : NODE_ID_LEN = 32 := rfl
  have hmax : SSIZE_MAX = 2 ^ 63 - 1 := rfl
  have hlt : NODE_ID_LEN + (attrsWire l).length < 2 ^ 64 := by omega
  have hint := length_intBytes_le (NODE_ID_LEN + (attrsWire l).length)
  have hbody : (id.1 ++ attrsWire l ++ r).take (NODE_ID_LEN + (attrsWire l).length) =
      id.1 ++ attrsWire l := by
    rw [List.take_left' (by rw [List.length_append]; omega)]
  have hsplit : lsaWire id l ++ r =
      intBytes (NODE_ID_LEN + (attrsWire l).length) ++ (id.1 ++ attrsWire l ++ r) := by
    simp only [lsaWire, List.append_assoc]
  unfold messageBody
  rw [length_lsaWire, hsplit, srcReadSizeT_eq, srcReadUint64_intBytes hlt]
  simp only [hbody]
  rw [dif_neg (by simp only [List.length_append]; omega)]
  refine congrArg some (Prod.ext ?_ (Prod.ext (Subtype.ext ?_) ?_))
  · simp only [List.length_append]
    omega
  · exact List.take_left' hid
  · exact List.drop_left' hid

/-- **A wire form is read back**, whatever follows it. -/
theorem lsaDeserialise_lsaWire (id : NodeId) (r : Bytes) (hwf : AttrsWf l) (ht : TypesOk l)
    (hd : attrsDepth l ≤ 8) (hlen : (attrsWire l).length < 2 ^ 62) :
    lsaDeserialise (lsaWire id l ++ r) =
      .ok (((lsaWire id l).length : Int), some (builtLsa id l)) := by
  have hmax : SIZE_MAX = 2 ^ 64 - 1 := rfl
  exact lsaDeserialise_unique (messageBody_lsaWire id r hlen) (by omega)
    (records_attrsWire ht hd (by omega)) hwf.unique

/-- The LSA that the parser makes of an ordered tree. -/
def Lsa.ofAttrs (id : NodeId) (l : AttrSet) : Lsa :=
  { bytes := MAX_SERIALISED_INT_LEN + NODE_ID_LEN + attrsSize l, id := id, root := l }

/-- An LSA whose wire form has at most 65536 bytes can be received. -/
theorem received_ofAttrs (id : NodeId) (hwf : AttrsWf l) (ht : TypesOk l) (hd : attrsDepth l ≤ 8)
    (hlen : (lsaWire id l).length ≤ 65536) : Received (Lsa.ofAttrs id l) := by
  have hwire : (attrsWire l).length < 2 ^ 62 := by
    rw [length_lsaWire] at hlen
    omega
  have hrun := lsaDeserialise_lsaWire id [] hwf ht hd hwire
  refine ⟨lsaWire id l ++ [], _, builtLsa id l, by rwa [List.append_nil], hrun, ?_⟩
  simp only [builtLsa, Lsa.ofAttrs, arrange_of_wf hwf]

/-! ## The views of a tree -/

/-- What a view of one attribute keeps when it keeps the attribute at all. -/
theorem mem_signedPart_attr {a b : Attr} (h : b ∈ a.signedPart) :
    a.signedPart = [b] ∧ b.pair = a.pair ∧ b.attrSigned = true := by
  cases a <;>
    (simp only [Attr.signedPart] at h ⊢
     split_ifs at h ⊢ <;> simp_all [Attr.pair, Attr.type, Attr.key, Attr.attrSigned])

theorem mem_signedPart {b : Attr} (h : b ∈ signedPart l) : ∃ a ∈ l, b ∈ a.signedPart := by
  induction l with
  | nil => exact absurd h List.not_mem_nil
  | cons a l ih =>
    rcases List.mem_append.mp h with h | h
    · exact ⟨a, List.mem_cons_self, h⟩
    · obtain ⟨c, hc, hb⟩ := ih h
      exact ⟨c, List.mem_cons_of_mem a hc, hb⟩

theorem sorted_signedPart (h : Avl.Sorted Attr.pair l) : Avl.Sorted Attr.pair (signedPart l) := by
  induction l with
  | nil => exact h
  | cons a l ih =>
    obtain ⟨hlt, hs⟩ := Avl.sorted_cons.mp h
    refine Avl.sorted_append.mpr ⟨?_, ih hs, fun b hb c hc => ?_⟩
    · cases a <;> simp only [Attr.signedPart] <;> split_ifs <;> simp [Avl.Sorted]
    · obtain ⟨a', ha', hc'⟩ := mem_signedPart hc
      rw [(mem_signedPart_attr hb).2.1, (mem_signedPart_attr hc').2.1]
      exact hlt a' ha'

/-- What holds everywhere in a tree, and of a set also when its contents are cut down to their
signed part, holds everywhere in the signed part. -/
theorem everywhere_signedPart {p : Attr → Prop}
    (hp : ∀ t s k l, p (.set t s k l) → p (.set t s k (signedPart l))) (h : AttrsEverywhere p l) :
    AttrsEverywhere p (signedPart l) := by
  have many : ∀ l : List Attr, (∀ a ∈ l, a.Everywhere p → AttrsEverywhere p a.signedPart) →
      AttrsEverywhere p l → AttrsEverywhere p (signedPart l) := by
    intro l
    induction l with
    | nil => exact fun _ h => h
    | cons a l ih =>
      rintro h ⟨ha, hl⟩
      exact attrsEverywhere_append.mpr ⟨h a List.mem_cons_self ha,
        ih (fun b hb => h b (List.mem_cons_of_mem a hb)) hl⟩
  have one : ∀ a : Attr, a.Everywhere p → AttrsEverywhere p a.signedPart := by
    intro a
    induction a using Attr.tree_induction with
    | plain t s k d =>
      intro h
      rw [Attr.signedPart]
      split_ifs
      · exact ⟨h, trivial⟩
      · trivial
    | set t s k l ih =>
      rintro ⟨ha, hl⟩
      rw [Attr.signedPart]
      split_ifs
      · exact ⟨⟨hp t s k l ha, many l ih hl⟩, trivial⟩
      · trivial
  exact many l (fun a _ => one a) h

theorem attrsWf_signedPart (h : AttrsWf l) : AttrsWf (signedPart l) :=
  ⟨sorted_signedPart h.1, everywhere_signedPart (fun _ _ _ _ hs => sorted_signedPart hs) h.2⟩

theorem typesOk_signedPart (h : TypesOk l) : TypesOk (signedPart l) :=
  everywhere_signedPart (fun _ _ _ _ ht => ht) h

/-- The signed part is neither deeper nor longer. -/
theorem signedPart_le (hlen : (attrsWire l).length < 2 ^ 64) :
    attrsDepth (signedPart l) ≤ attrsDepth l ∧
      (attrsWire (signedPart l)).length ≤ (attrsWire l).length := by
  have many : ∀ l : List Attr, (∀ a ∈ l, attrsDepth a.signedPart ≤ a.setDepth ∧
      (attrsWire a.signedPart).length ≤ a.wire.length) →
      attrsDepth (signedPart l) ≤ attrsDepth l ∧
        (attrsWire (signedPart l)).length ≤ (attrsWire l).length := by
    intro l
    induction l with
    | nil => exact fun _ => ⟨le_rfl, le_rfl⟩
    | cons a l ih =>
      intro h
      have h1 := h a List.mem_cons_self
      have h2 := ih fun b hb => h b (List.mem_cons_of_mem a hb)
      rw [signedPart, attrsWire_append, attrsWire, attrsDepth, attrsDepth_append,
        List.length_append, List.length_append]
      omega
  have one : ∀ a : Attr, a.wire.length < 2 ^ 64 → attrsDepth a.signedPart ≤ a.setDepth ∧
      (attrsWire a.signedPart).length ≤ a.wire.length := by
    intro a
    induction a using Attr.tree_induction with
    | plain t s k d =>
      intro _
      rw [Attr.signedPart]
      split_ifs
      · simp [attrsDepth, attrsWire]
      · exact ⟨Nat.zero_le _, Nat.zero_le _⟩
    | set t s k l ih =>
      intro h
      simp only [Attr.wire, List.length_append] at h
      obtain ⟨hd, hw⟩ := many l fun a ha => ih a ha (by have := wire_length_le_of_mem ha; omega)
      have hmono := length_intBytes_mono hw (by omega)
      rw [Attr.signedPart]
      split_ifs
      · simp only [attrsDepth, Attr.setDepth, attrsWire, Attr.wire, List.length_append,
          List.length_nil]
        omega
      · exact ⟨Nat.zero_le _, Nat.zero_le _⟩
  exact many l fun a ha => one a (by have := wire_length_le_of_mem ha; omega)

/-- What `preid` leaves of an attribute, and how much longer it gets. -/
theorem withPreid_keeps (preid : Option NodeId) (a : Attr) :
    (a.withPreid preid).pair = a.pair ∧ (a.withPreid preid).children = a.children ∧
      (a.withPreid preid).setDepth = a.setDepth := by
  have h : ∀ o, (a.prefixData o).pair = a.pair ∧ (a.prefixData o).children = a.children ∧
      (a.prefixData o).setDepth = a.setDepth := by
    intro o
    cases a <;> cases o <;> exact ⟨rfl, rfl, rfl⟩
  exact h _

theorem length_wire_withPreid (preid : Option NodeId) (a : Attr) :
    (a.withPreid preid).wire.length ≤ 15 * a.wire.length := by
  have hone : ∀ o, (a.prefixData o).wire.length ≤ 15 * a.wire.length := by
    intro o
    cases a with
    | set t s k l => exact Nat.le_mul_of_pos_left _ (by omega)
    | plain t s k d =>
      cases o with
      | none => exact Nat.le_mul_of_pos_left _ (by omega)
      | some id =>
        have hk := key_length_le_head t false s k
        have hid : id.1.length = 32 := id.2
        have hb := le_length_headWire k t false s
        have h1 := length_intBytes_pos d.length
        have h2 := length_intBytes_le (32 + d.length)
        simp only [Attr.prefixData, Attr.wire, List.length_append, hid]
        omega
  exact hone _

theorem everywhere_withPreid {p : Attr → Prop} (preid : Option NodeId)
    (hp : ∀ a, p a → p (a.withPreid preid)) (h : AttrsEverywhere p l) :
    AttrsEverywhere p (l.map (Attr.withPreid preid)) := by
  refine attrsEverywhere_iff.mpr (List.forall_mem_map.mpr fun a ha => everywhere_iff.mpr ?_)
  obtain ⟨h1, h2⟩ := everywhere_iff.mp (attrsEverywhere_iff.mp h a ha)
  rw [(withPreid_keeps preid a).2.1]
  exact ⟨hp a h1, h2⟩

theorem type_withPreid (preid : Option NodeId) (a : Attr) : (a.withPreid preid).type = a.type :=
  congrArg (fun q : Int ×ₗ Bytes => (ofLex q).1) (withPreid_keeps preid a).1

theorem attrsWf_withPreid (preid : Option NodeId) (h : AttrsWf l) :
    AttrsWf (l.map (Attr.withPreid preid)) := by
  refine ⟨List.pairwise_map.mpr (h.1.imp fun hlt => ?_),
    everywhere_withPreid preid (fun a ha => ?_) h.2⟩
  · rwa [(withPreid_keeps preid _).1, (withPreid_keeps preid _).1]
  · rwa [(withPreid_keeps preid a).2.1]

theorem typesOk_withPreid (preid : Option NodeId) (h : TypesOk l) :
    TypesOk (l.map (Attr.withPreid preid)) :=
  everywhere_withPreid preid (fun a ha => by rwa [type_withPreid]) h

/-- `preid` makes no set empty. -/
theorem noEmptySet_withPreid (preid : Option NodeId) (h : NoEmptySet l) :
    NoEmptySet (l.map (Attr.withPreid preid)) := by
  refine everywhere_withPreid preid (fun a ha hset => ?_) h
  rw [(withPreid_keeps preid a).2.1]
  refine ha ?_
  cases a with
  | set t s k l => rfl
  | plain t s k d =>
    have hplain : ∀ o, ((Attr.plain t s k d).prefixData o).dataIsAttrSet = false := by
      intro o
      cases o <;> rfl
    exact absurd ((hplain _).symm.trans hset) Bool.false_ne_true

theorem attrsDepth_withPreid (preid : Option NodeId) :
    attrsDepth (l.map (Attr.withPreid preid)) = attrsDepth l := by
  induction l with
  | nil => rfl
  | cons a l ih => rw [List.map_cons, attrsDepth, attrsDepth, ih, (withPreid_keeps preid a).2.2]

theorem length_attrsWire_withPreid (preid : Option NodeId) (l : AttrSet) :
    (attrsWire (l.map (Attr.withPreid preid))).length ≤ 15 * (attrsWire l).length := by
  induction l with
  | nil => exact le_rfl
  | cons a l ih =>
    have ha := length_wire_withPreid preid a
    rw [List.map_cons, attrsWire, attrsWire, List.length_append, List.length_append]
    omega

/-! ## The round trip -/

/-- An LSA of the shape and the size that the wire format covers: each set ordered with unique
(type, key) pairs, types in `0..INT_MAX`, at most eight levels of sets, and less than 2^31 bytes
when it is serialised as it stands. -/
structure Serialisable (lsa : Lsa) : Prop where
  wf : AttrsWf lsa.root
  types : TypesOk lsa.root
  depth : attrsDepth lsa.root ≤ 8
  size : (lsaWire lsa.id lsa.root).length < 2 ^ 31

/-- The views of such an LSA have its shape. -/
theorem Serialisable.rootView {lsa : Lsa} (h : Serialisable lsa) (so : Bool)
    (preid : Option NodeId) :
    AttrsWf (rootView so preid lsa.root) ∧ TypesOk (rootView so preid lsa.root) ∧
      attrsDepth (rootView so preid lsa.root) ≤ 8 ∧
      (attrsWire (rootView so preid lsa.root)).length < 2 ^ 36 := by
  have hsize := h.size
  rw [length_lsaWire] at hsize
  have hview : AttrsWf (viewOf so lsa.root) ∧ TypesOk (viewOf so lsa.root) ∧
      attrsDepth (viewOf so lsa.root) ≤ 8 ∧ (attrsWire (viewOf so lsa.root)).length < 2 ^ 31 := by
    cases so with
    | false => exact ⟨h.wf, h.types, h.depth, by change (attrsWire lsa.root).length < _; omega⟩
    | true =>
      obtain ⟨hd, hw⟩ := signedPart_le (l := lsa.root) (by omega)
      exact ⟨attrsWf_signedPart h.wf, typesOk_signedPart h.types, hd.trans h.depth,
        lt_of_le_of_lt hw (by omega)⟩
  obtain ⟨hwf, ht, hd, hlen⟩ := hview
  have hlen' := length_attrsWire_withPreid preid (viewOf so lsa.root)
  exact ⟨attrsWf_withPreid preid hwf, typesOk_withPreid preid ht,
    (attrsDepth_withPreid preid).trans_le hd, by unfold Dvpn.rootView; omega⟩

/-- Both programs on one LSA: what the encoder writes, and what the decoder makes of it. -/
theorem serialise_view {lsa : Lsa} (h : Serialisable lsa) (so : Bool) (preid : Option NodeId) :
    lsaSerialiseLength lsa so preid =
        .ok (NODE_ID_LEN + (attrsWire (rootView so preid lsa.root)).length) ∧
      (∀ buflen, NODE_ID_LEN + (attrsWire (rootView so preid lsa.root)).length + 10 ≤ buflen →
        lsaSerialise buflen (NODE_ID_LEN + (attrsWire (rootView so preid lsa.root)).length)
          lsa so preid = .ok ((lsaWire lsa.id (rootView so preid lsa.root)).length,
            lsaWire lsa.id (rootView so preid lsa.root))) ∧
      ∀ r, lsaDeserialise (lsaWire lsa.id (rootView so preid lsa.root) ++ r) =
        .ok (((lsaWire lsa.id (rootView so preid lsa.root)).length : Int),
          some (builtLsa lsa.id (rootView so preid lsa.root))) := by
  obtain ⟨hwf, ht, hd, hlen⟩ := h.rootView so preid
  have hmax : SIZE_MAX = 2 ^ 64 - 1 := rfl
  have hid : NODE_ID_LEN = 32 := rfl
  have hint := length_intBytes_le
    (NODE_ID_LEN + (attrsWire (Dvpn.rootView so preid lsa.root)).length)
  have htotal := length_lsaWire lsa.id (Dvpn.rootView so preid lsa.root)
  exact ⟨lsaSerialiseLength_eq (by omega),
    fun buflen hbuf => lsaSerialise_eq (by omega) (by omega),
    fun r => lsaDeserialise_lsaWire lsa.id r hwf ht hd (by omega)⟩

/-- **The wire round trip.** With the length that the length pass returns and room for it, the
encoder does not abort, and the decoder consumes what it wrote, whatever follows, and yields the
same id and the same tree, with `preid` before the data of each plain root `ADV_PATH`. -/
theorem serialise_deserialise (lsa : Lsa) (h : Serialisable lsa) (preid : Option NodeId)
    (r : Bytes) :
    ∃ serlen n out, lsaSerialiseLength lsa false preid = .ok serlen ∧
      (∀ buflen, serlen + MAX_SERIALISED_INT_LEN ≤ buflen →
        lsaSerialise buflen serlen lsa false preid = .ok (n, out)) ∧
      n = out.length ∧
      ∃ obj, lsaDeserialise (out ++ r) = .ok ((n : Int), some obj) ∧ obj.id = lsa.id ∧
        obj.root = lsa.root.map (Attr.withPreid preid) := by
  obtain ⟨hlen, hser, hdes⟩ := serialise_view h false preid
  exact ⟨_, _, _, hlen, hser, rfl, _, hdes r, rfl, arrange_of_wf (h.rootView false preid).1⟩

/-- An LSA with an `ADV_PATH`, an unsigned attribute in a signed set, and an empty set. -/
def sampleLsa : Lsa where
  bytes := 0
  id := ⟨List.replicate 32 7, rfl⟩
  root := [.plain 1 false [] [],
    .set 2 true [5] [.plain 0 true [] [0, 1], .plain 1 false [] [9], .set 3 false [] []]]

theorem serialisable_sampleLsa : Serialisable sampleLsa :=
  ⟨by decide, by decide, by decide, by decide⟩

/-- The round trip on the sample, with its own id as `preid`. -/
theorem serialise_deserialise_sampleLsa :
    ∃ serlen n out, lsaSerialiseLength sampleLsa false (some sampleLsa.id) = .ok serlen ∧
      (∀ buflen, serlen + MAX_SERIALISED_INT_LEN ≤ buflen →
        lsaSerialise buflen serlen sampleLsa false (some sampleLsa.id) = .ok (n, out)) ∧
      n = out.length ∧
      ∃ obj, lsaDeserialise (out ++ [0]) = .ok ((n : Int), some obj) ∧ obj.id = sampleLsa.id ∧
        obj.root = sampleLsa.root.map (Attr.withPreid (some sampleLsa.id)) :=
  serialise_deserialise sampleLsa serialisable_sampleLsa (some sampleLsa.id) [0]

/-- The bytes that `lsa_sign` signs (`dvpn.c:225-232`) and `map` verifies
(`adj_rib_in.c:152-159`). -/
def signedBytes (lsa : Lsa) : Except Crash Bytes := do
  let serlen ← lsaSerialiseLength lsa true none
  let (_, buf) ← lsaSerialise (serlen + 128) serlen lsa true none
  return buf

theorem signedBytes_eq {lsa : Lsa} (h : Serialisable lsa) :
    signedBytes lsa = .ok (lsaWire lsa.id (signedPart lsa.root)) := by
  obtain ⟨hlen, hser, _⟩ := serialise_view h true none
  unfold signedBytes
  rw [hlen, ok_bind, hser _ (by omega), ok_bind, rootView_none]
  rfl

/-- **What is signed is exactly the signed part.** The signed bytes of an LSA are read back as its
id and its signed part, and two LSAs have the same signed bytes iff these are the same. -/
theorem signed_bytes (a b : Lsa) (ha : Serialisable a) (hb : Serialisable b) :
    (∃ out obj, signedBytes a = .ok out ∧
        lsaDeserialise out = .ok ((out.length : Int), some obj) ∧
        obj.id = a.id ∧ obj.root = signedPart a.root) ∧
      (signedBytes a = signedBytes b ↔ a.id = b.id ∧ signedPart a.root = signedPart b.root) := by
  have read : ∀ lsa, Serialisable lsa → lsaDeserialise (lsaWire lsa.id (signedPart lsa.root)) =
      .ok (((lsaWire lsa.id (signedPart lsa.root)).length : Int),
        some (builtLsa lsa.id (signedPart lsa.root))) := by
    intro lsa h
    have hdes := (serialise_view h true none).2.2 []
    rwa [List.append_nil, rootView_none] at hdes
  have root : ∀ lsa, Serialisable lsa →
      (builtLsa lsa.id (signedPart lsa.root)).root = signedPart lsa.root :=
    fun lsa h => arrange_of_wf (attrsWf_signedPart h.wf)
  refine ⟨⟨_, _, signedBytes_eq ha, read a ha, rfl, root a ha⟩, ?_⟩
  rw [signedBytes_eq ha, signedBytes_eq hb]
  constructor
  · intro h
    have hwire := Except.ok.inj h
    have hra := read a ha
    rw [hwire, read b hb] at hra
    simp only [Except.ok.injEq, Prod.mk.injEq, Option.some.injEq, true_and] at hra
    exact ⟨congrArg (fun o : LsaObj => o.id) hra.symm,
      (root a ha).symm.trans ((congrArg (fun o : LsaObj => o.root) hra.symm).trans (root b hb))⟩
  · rintro ⟨h1, h2⟩
    rw [h1, h2]

/-- The sample with other unsigned attributes. -/
def sampleLsa' : Lsa where
  bytes := 0
  id := ⟨List.replicate 32 7, rfl⟩
  root := [.set 2 true [5] [.plain 0 true [] [0, 1]], .plain 6 false [] [1, 2, 3]]

/-- The unsigned attributes of the sample do not reach its signed bytes. -/
theorem signed_bytes_sampleLsa : signedBytes sampleLsa = signedBytes sampleLsa' :=
  ((signed_bytes sampleLsa sampleLsa' serialisable_sampleLsa
    ⟨by decide, by decide, by decide, by decide⟩).2).mpr ⟨rfl, rfl⟩

end Dvpn
