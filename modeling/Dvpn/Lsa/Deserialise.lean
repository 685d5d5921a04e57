import Dvpn.Lsa.Arrange

/-!
# Deserialisation (`lsa_deserialise.c`)

`lsaDeserialiseAttrSet` reads attribute records until its bytes are used up, hands each to a
mutator of `lsa.c`, and recurses into the data of a set. `fuel` bounds the recursion: a record
takes at least three bytes, so the number of bytes is enough. `lsaDeserialise` returns
`(ret, *lsap)`; it is `(0, none)` for a message that is not complete, `(-1, none)` for an error.

The layer over it are the records of a message (`attrRecords`, and `Records` as a relation): what
its bytes say, set by set, up to the first malformed byte, without building anything.

* `Records.builds`: without two records of one (type, key) in a set the parser returns, and has
  built the arranged records; `Records.aborts`: with two it aborts.
* `deserialise_returns_iff`: `lsa_deserialise` returns iff no set of the message has two records
  of one (type, key) and, when the message is malformed, no set read before the error is empty.
* `Received.wellformed`: what holds of every LSA it builds.
-/

namespace Dvpn

/-! ## The code -/

/-- One record as the loop of `lsa_deserialise_attr_set` reads it. -/
structure RawAttr where
  type : Nat
  flags : Nat
  key : Bytes
  data : Bytes

/-- The key of a record, when its flags announce one (`lsa_deserialise.c:111-117`). -/
def readKey (flags : Nat) (src : Bytes) : Except ReadErr (Bytes × Bytes) :=
  if flags &&& LSA_ATTR_FLAG_HAS_KEY ≠ 0 then do
    let (keylen, src) ← srcReadSizeT src
    srcGetPtr src keylen
  else .ok ([], src)

/-- The reads of one round of the loop (`lsa_deserialise.c:107-120`). -/
def readAttr (src : Bytes) : Except ReadErr (RawAttr × Bytes) := do
  let (type, src) ← srcReadInt src
  let (flags, src) ← srcReadInt src
  let (key, src) ← readKey flags src
  let (datalen, src) ← srcReadSizeT src
  let (data, src) ← srcGetPtr src datalen
  return (⟨type, flags, key, data⟩, src)

/-- `!!(flags & LSA_ATTR_FLAG_SIGNED)` -/
def RawAttr.sign (attr : RawAttr) : Bool := attr.flags &&& LSA_ATTR_FLAG_SIGNED != 0

/-- `flags & LSA_ATTR_FLAG_DATA_IS_TLV` -/
def RawAttr.isTlv (attr : RawAttr) : Bool := attr.flags &&& LSA_ATTR_FLAG_DATA_IS_TLV != 0

/-- `lsa_deserialise_attr_set` (`lsa_deserialise.c:95-157`): the return value (`false` is -1), the
object, and the set. -/
def lsaDeserialiseAttrSet : Nat → LsaObj → AttrSet → Bytes → Nat →
    Except Crash (Bool × LsaObj × AttrSet)
  | 0, lsa, dst, _, _ => return (true, lsa, dst)
  | fuel + 1, lsa, dst, src, maxdepth =>
    if src.isEmpty then return (true, lsa, dst)
    else
      match readAttr src with
      | .error _ => return (false, lsa, dst)
      | .ok (attr, src) =>
        if attr.isTlv then
          if maxdepth = 0 then return (false, lsa, dst)
          else do
            match ← lsaAttrSetAddAttrSet lsa dst attr.type attr.sign attr.key with
            | none => return (false, lsa, dst)
            | some (lsa, store) =>
              let (ok, lsa, set) ← lsaDeserialiseAttrSet fuel lsa [] attr.data (maxdepth - 1)
              if !ok then return (false, lsa, store set)
              else lsaDeserialiseAttrSet fuel lsa (store set) src maxdepth
        else do
          match ← lsaAttrSetAddAttr lsa dst attr.type attr.sign attr.key attr.data with
          | none => return (false, lsa, dst)
          | some (lsa, dst) => lsaDeserialiseAttrSet fuel lsa dst src maxdepth

/-- `lsa_deserialise` (`lsa_deserialise.c:159-206`). -/
def lsaDeserialise (buf : Bytes) : Except Crash (Int × Option LsaObj) :=
  match srcReadSizeT buf with
  | .error .shortRead => return (0, none)
  | .error .error => return (-1, none)
  | .ok (len, rest) =>
    let off := buf.length - rest.length
    if len = 0 then return (off, none)
    else if len > SSIZE_MAX - off then return (-1, none)
    else if len + off > buf.length then return (0, none)
    else
      let src := rest.take len
      if h : src.length < NODE_ID_LEN then return (0, none)
      else do
        let lsa := lsaAlloc ⟨src.take NODE_ID_LEN, by rw [List.length_take]; omega⟩
        let body := src.drop NODE_ID_LEN
        let (ok, lsa, root) ← lsaDeserialiseAttrSet body.length lsa lsa.root body 8
        let lsa := { lsa with root := root }
        if !ok then
          let _ ← lsaPut lsa
          return (-1, none)
        else return (len + off, some lsa)

/-! ## The records of a message -/

/-- The attributes of a set in the order of the message, up to the first malformed byte, and
whether there is none. -/
def attrRecords : Nat → Bytes → Nat → List Attr × Bool
  | 0, _, _ => ([], true)
  | fuel + 1, src, maxdepth =>
    if src.isEmpty then ([], true)
    else
      match readAttr src with
      | .error _ => ([], false)
      | .ok (attr, src) =>
        if attr.isTlv then
          if maxdepth = 0 then ([], false)
          else
            let inner := attrRecords fuel attr.data (maxdepth - 1)
            let a := Attr.set attr.type attr.sign attr.key inner.1
            if !inner.2 then ([a], false)
            else
              let rest := attrRecords fuel src maxdepth
              (a :: rest.1, rest.2)
        else
          let rest := attrRecords fuel src maxdepth
          (.plain attr.type attr.sign attr.key attr.data :: rest.1, rest.2)

/-- The same as a relation, without fuel: `Records d src l complete`. -/
inductive Records : Nat → Bytes → List Attr → Bool → Prop
  | done {d : Nat} : Records d [] [] true
  | malformed {d : Nat} {src : Bytes} {e : ReadErr} : src ≠ [] → readAttr src = .error e →
      Records d src [] false
  | tooDeep {src rest : Bytes} {attr : RawAttr} : src ≠ [] → readAttr src = .ok (attr, rest) →
      attr.isTlv = true → Records 0 src [] false
  | setMalformed {d : Nat} {src rest : Bytes} {attr : RawAttr} {inner : List Attr} : src ≠ [] →
      readAttr src = .ok (attr, rest) → attr.isTlv = true → Records d attr.data inner false →
      Records (d + 1) src [.set attr.type attr.sign attr.key inner] false
  | set {d : Nat} {src rest : Bytes} {attr : RawAttr} {inner l : List Attr} {complete : Bool} :
      src ≠ [] → readAttr src = .ok (attr, rest) → attr.isTlv = true →
      Records d attr.data inner true → Records (d + 1) rest l complete →
      Records (d + 1) src (.set attr.type attr.sign attr.key inner :: l) complete
  | plain {d : Nat} {src rest : Bytes} {attr : RawAttr} {l : List Attr} {complete : Bool} :
      src ≠ [] → readAttr src = .ok (attr, rest) → attr.isTlv = false → Records d rest l complete →
      Records d src (.plain attr.type attr.sign attr.key attr.data :: l) complete

/-- The message that `buf` starts with, when it is complete: its length, its id and the bytes
after the id. -/
def messageBody (buf : Bytes) : Option (Nat × NodeId × Bytes) :=
  match srcReadSizeT buf with
  | .error _ => none
  | .ok (len, rest) =>
    let src := rest.take len
    if h : len = 0 ∨ len > SSIZE_MAX - (buf.length - rest.length) ∨
        len + (buf.length - rest.length) > buf.length ∨ src.length < NODE_ID_LEN then none
    else some (len + (buf.length - rest.length), ⟨src.take NODE_ID_LEN, by
      rw [List.length_take]
      omega⟩, src.drop NODE_ID_LEN)

/-- The attributes of the message that `buf` starts with, and whether it is well formed. -/
def messageRecords (buf : Bytes) : List Attr × Bool :=
  match messageBody buf with
  | none => ([], true)
  | some (_, _, body) => attrRecords body.length body 8

/-! ## One record -/

/-- The attribute types that the reader accepts. -/
def TypesOk (l : AttrSet) : Prop :=
  AttrsEverywhere (fun a => 0 ≤ a.type ∧ a.type ≤ INT_MAX) l

instance : DecidablePred TypesOk := fun l =>
  inferInstanceAs (Decidable (AttrsEverywhere (fun a => 0 ≤ a.type ∧ a.type ≤ INT_MAX) l))

theorem length_headWire {type : Nat} (h : type ≤ INT_MAX) (isSet signed : Bool) (key : Bytes) :
    (headWire type isSet signed key).length = (intBytes type).length + 1 +
      if key.length ≠ 0 then (intBytes key.length).length + key.length else 0 := by
  have hty : ((type : Int) % 2 ^ 64).toNat = type := by
    unfold INT_MAX at h
    omega
  unfold headWire
  rw [List.length_append, List.length_append, length_intBytes_flags, hty]
  split_ifs <;> simp

/-- A key takes at least the bytes that the writer would write for it. -/
theorem readKey_ok {flags : Nat} {src key rest : Bytes} (h : readKey flags src = .ok (key, rest)) :
    (if key.length ≠ 0 then (intBytes key.length).length + key.length else 0) + rest.length ≤
      src.length := by
  unfold readKey at h
  split_ifs at h with hf
  · obtain ⟨⟨keylen, s⟩, h1, h2⟩ := bind_eq_ok.mp h
    rw [srcReadSizeT_eq] at h1
    obtain ⟨c, rfl, _, hlen, _⟩ := srcReadUint64_ok h1
    obtain ⟨rfl, rfl⟩ := srcGetPtr_ok h2
    split_ifs <;> simp only [List.length_append] <;> omega
  · obtain ⟨rfl, rfl⟩ := Prod.mk.inj (Except.ok.inj h)
    simp

/-- **What a record takes**: its bytes are at least those of its own wire form. -/
theorem readAttr_ok {src rest : Bytes} {attr : RawAttr} (h : readAttr src = .ok (attr, rest)) :
    attr.type ≤ INT_MAX ∧ attr.data.length < 2 ^ 64 ∧
    (headWire attr.type attr.isTlv attr.sign attr.key).length +
      (intBytes attr.data.length).length + attr.data.length + rest.length ≤ src.length := by
  unfold readAttr at h
  obtain ⟨⟨type, s1⟩, h1, h⟩ := bind_eq_ok.mp h
  obtain ⟨⟨flags, s2⟩, h2, h⟩ := bind_eq_ok.mp h
  obtain ⟨⟨key, s3⟩, h3, h⟩ := bind_eq_ok.mp h
  obtain ⟨⟨datalen, s4⟩, h4, h⟩ := bind_eq_ok.mp h
  obtain ⟨⟨data, s5⟩, h5, h⟩ := bind_eq_ok.mp h
  obtain ⟨rfl, rfl⟩ := Prod.mk.inj (Except.ok.inj h)
  obtain ⟨h1, htype⟩ := srcReadInt_ok h1
  obtain ⟨c1, rfl, _, l1, _⟩ := srcReadUint64_ok h1
  obtain ⟨c2, rfl, p2, _, _⟩ := srcReadUint64_ok (srcReadInt_ok h2).1
  have hkey := readKey_ok h3
  rw [srcReadSizeT_eq] at h4
  obtain ⟨c4, rfl, _, l4, v4⟩ := srcReadUint64_ok h4
  obtain ⟨rfl, rfl⟩ := srcGetPtr_ok h5
  refine ⟨htype, v4, ?_⟩
  simp only [List.length_append] at hkey ⊢
  rw [length_headWire htype]
  omega

/-- A record takes at least three bytes. -/
theorem readAttr_length {src rest : Bytes} {attr : RawAttr} (h : readAttr src = .ok (attr, rest)) :
    attr.key.length + attr.data.length + rest.length + 3 ≤ src.length := by
  obtain ⟨htype, hd, hle⟩ := readAttr_ok h
  have h1 := length_intBytes_pos attr.type
  have h2 := length_intBytes_pos attr.data.length
  rw [length_headWire htype] at hle
  split_ifs at hle <;> omega

/-! ## What the records say -/

variable {fuel d : Nat} {src buf : Bytes} {l : List Attr} {complete : Bool}

theorem attrRecords_records : ∀ (fuel : Nat) (src : Bytes) (d : Nat), src.length ≤ fuel →
    Records d src (attrRecords fuel src d).1 (attrRecords fuel src d).2
  | 0, src, d, h => by
    obtain rfl := List.length_eq_zero_iff.mp (Nat.le_zero.mp h)
    exact .done
  | fuel + 1, [], d, _ => .done
  | fuel + 1, b :: src, d, h => by
    have hne : b :: src ≠ [] := List.cons_ne_nil b src
    cases hread : readAttr (b :: src) with
    | error e => simpa [attrRecords, hread] using Records.malformed hne hread
    | ok r =>
      obtain ⟨attr, rest⟩ := r
      have hlen := readAttr_length hread
      have hrest := attrRecords_records fuel rest d (by omega)
      cases htlv : attr.isTlv with
      | false => simpa [attrRecords, hread, htlv] using Records.plain hne hread htlv hrest
      | true =>
        cases d with
        | zero => simpa [attrRecords, hread, htlv] using Records.tooDeep hne hread htlv
        | succ d =>
          have hin := attrRecords_records fuel attr.data d (by omega)
          cases hok : (attrRecords fuel attr.data d).2 with
          | false =>
            rw [hok] at hin
            simpa [attrRecords, hread, htlv, hok] using Records.setMalformed hne hread htlv hin
          | true =>
            rw [hok] at hin
            simpa [attrRecords, hread, htlv, hok] using Records.set hne hread htlv hin hrest

/-- The records are no longer than the bytes they were read from. -/
theorem Records.length_attrsWire (h : Records d src l complete) :
    (attrsWire l).length ≤ src.length := by
  induction h with
  | done => exact le_rfl
  | malformed | tooDeep => exact Nat.zero_le _
  | setMalformed _ hread htlv _ ih =>
    obtain ⟨_, hd, hle⟩ := readAttr_ok hread
    -- the length of the set is read in at least as many bytes as it is written in
    have hmono := length_intBytes_mono ih hd
    rw [htlv] at hle
    simp only [attrsWire, Attr.wire, List.length_append, List.length_nil]
    omega
  | set _ hread htlv _ _ ih ih' =>
    obtain ⟨_, hd, hle⟩ := readAttr_ok hread
    have hmono := length_intBytes_mono ih hd
    rw [htlv] at hle
    simp only [attrsWire, Attr.wire, List.length_append]
    omega
  | plain _ hread htlv _ ih =>
    obtain ⟨_, _, hle⟩ := readAttr_ok hread
    rw [htlv] at hle
    simp only [attrsWire, Attr.wire, List.length_append]
    omega

theorem Records.typesOk (h : Records d src l complete) : TypesOk l := by
  induction h with
  | done | malformed | tooDeep => exact trivial
  | setMalformed _ hread _ _ ih =>
    have htype := (readAttr_ok hread).1
    exact ⟨⟨⟨by simp [Attr.type], by simp [Attr.type]; omega⟩, ih⟩, trivial⟩
  | set _ hread _ _ _ ih ih' =>
    have htype := (readAttr_ok hread).1
    exact ⟨⟨⟨by simp [Attr.type], by simp [Attr.type]; omega⟩, ih⟩, ih'⟩
  | plain _ hread _ _ ih =>
    have htype := (readAttr_ok hread).1
    exact ⟨⟨by simp [Attr.type], by simp [Attr.type]; omega⟩, ih⟩

theorem Records.attrsDepth_le (h : Records d src l complete) : attrsDepth l ≤ d := by
  induction h with
  | done | malformed | tooDeep => exact Nat.zero_le _
  | setMalformed => simp only [attrsDepth, Attr.setDepth]; omega
  | set => simp only [attrsDepth, Attr.setDepth]; omega
  | plain => simp only [attrsDepth, Attr.setDepth]; omega

/-! ## The parser builds the records -/

/-- The attributes `l` can join the set `dst`: no two of one (type, key) come together. -/
def Joins (dst : AttrSet) (l : List Attr) : Prop :=
  ((dst ++ l).map Attr.pair).Nodup ∧ AttrsEverywhere (fun a => (a.children.map Attr.pair).Nodup) l

variable {lsa : LsaObj} {dst dst' : AttrSet} {a b : Attr}

theorem Joins.fresh (h : Joins dst (a :: l)) : ∀ b ∈ dst, b.pair ≠ a.pair := by
  intro b hb e
  have hn := h.1
  rw [List.map_append, List.nodup_append] at hn
  exact hn.2.2 b.pair (List.mem_map_of_mem hb) a.pair (by simp) e

theorem joins_cons (hp : dst'.Perm (b :: dst)) (he : b.pair = a.pair) :
    Joins dst (a :: l) ↔ AttrsUnique a.children ∧ Joins dst' l := by
  have hn : ((dst ++ a :: l).map Attr.pair).Nodup ↔ ((dst' ++ l).map Attr.pair).Nodup := by
    have h1 := (hp.append_right l).map Attr.pair
    have h2 := (@List.perm_middle _ a dst l).map Attr.pair
    rw [List.cons_append, List.map_cons, he] at h1
    rw [List.map_cons] at h2
    exact (h2.trans h1.symm).nodup_iff
  unfold Joins AttrsUnique
  rw [hn, AttrsEverywhere, everywhere_iff]
  tauto

theorem attrsUnique_children_plain {t : Int} {s : Bool} {k x : Bytes} :
    AttrsUnique (Attr.plain t s k x).children := attrsUnique_nil

/-- What a run of the parser over records `l` that can join `dst` comes to. -/
def Builds (fuel : Nat) (lsa : LsaObj) (dst : AttrSet) (src : Bytes) (d : Nat) (l : List Attr)
    (complete : Bool) : Prop :=
  ∃ dst', lsaDeserialiseAttrSet fuel lsa dst src d =
      .ok (complete, { lsa with bytes := lsa.bytes + attrsSize l }, dst') ∧
    Avl.Sorted Attr.pair dst' ∧ dst'.Perm (dst ++ l.map Attr.arrange)

section OneRecord

variable {n : Nat} {rest : Bytes} {attr : RawAttr} {inner : List Attr} {ok : Bool}

/-- A plain record is inserted, and the loop goes on with it. -/
theorem parse_plain (hne : src ≠ []) (hread : readAttr src = .ok (attr, rest))
    (htlv : attr.isTlv = false) (hlen : src.length + 256 ≤ SIZE_MAX) (hr : lsa.refcount = 1)
    (hs : Avl.Sorted Attr.pair dst)
    (hj : ∀ b ∈ dst, b.pair ≠ (Attr.plain attr.type attr.sign attr.key attr.data).pair) :
    ∃ dst', Avl.Sorted Attr.pair dst' ∧
      dst'.Perm (.plain attr.type attr.sign attr.key attr.data :: dst) ∧
      lsaDeserialiseAttrSet (n + 1) lsa dst src d =
        lsaDeserialiseAttrSet n { lsa with bytes := lsa.bytes +
          (Attr.plain attr.type attr.sign attr.key attr.data).totalSize } dst' rest d := by
  have hrl := readAttr_length hread
  have hfit : (Attr.plain attr.type attr.sign attr.key attr.data).Fits := by
    simp only [Attr.Fits, Attr.key, Attr.datalen]
    omega
  obtain ⟨dst', hins⟩ := Avl.exists_insert compareAttrKeys_orders hs hj
  refine ⟨dst', Avl.sorted_insert compareAttrKeys_orders hs hins, Avl.insert_perm hins, ?_⟩
  simp [lsaDeserialiseAttrSet, hne, hread, htlv, lsaAttrSetAddAttr_fresh hr hs hfit hins,
    Attr.totalSize]

/-- A set is inserted with the attributes that its own records build. -/
theorem parse_set (hne : src ≠ []) (hread : readAttr src = .ok (attr, rest))
    (htlv : attr.isTlv = true) (hlen : src.length + 256 ≤ SIZE_MAX) (hr : lsa.refcount = 1)
    (hs : Avl.Sorted Attr.pair dst)
    (hj : ∀ b ∈ dst, b.pair ≠ (Attr.set attr.type attr.sign attr.key inner).pair)
    (hin : ∀ bytes, Builds n { lsa with bytes := bytes } [] attr.data d inner ok) :
    ∃ dst', Avl.Sorted Attr.pair dst' ∧
      dst'.Perm ((Attr.set attr.type attr.sign attr.key inner).arrange :: dst) ∧
      lsaDeserialiseAttrSet (n + 1) lsa dst src (d + 1) =
        let lsa := { lsa with
          bytes := lsa.bytes + (Attr.set attr.type attr.sign attr.key inner).totalSize }
        if !ok then .ok (false, lsa, dst') else lsaDeserialiseAttrSet n lsa dst' rest (d + 1) := by
  have hrl := readAttr_length hread
  have hfit : (Attr.set attr.type attr.sign attr.key []).Fits := by
    simp only [Attr.Fits, Attr.key, Attr.datalen, Attr.sizeofAttrSet]
    omega
  obtain ⟨store, hadd, hstore⟩ := lsaAttrSetAddAttrSet_fresh hr hs hfit hj
  obtain ⟨set, hrun, hss, hsp⟩ := hin
    (lsa.bytes + (Attr.set attr.type attr.sign attr.key []).size)
  obtain rfl := eq_arrange hss hsp
  refine ⟨store (arrange inner), Avl.sorted_insert compareAttrKeys_orders hs (hstore _),
    Avl.insert_perm (hstore _), ?_⟩
  have hsize : (Attr.set attr.type attr.sign attr.key inner).totalSize =
      (Attr.set attr.type attr.sign attr.key []).size + attrsSize inner := rfl
  simp only [lsaDeserialiseAttrSet, List.isEmpty_iff, hne, if_false, hread, htlv, if_true,
    Nat.succ_ne_zero, hadd, ok_bind, Nat.add_sub_cancel, hrun, hsize, Nat.add_assoc, pure_eq_ok]

/-- An abort inside a set is one of the whole. -/
theorem parse_set_aborts {e : Crash} (hne : src ≠ []) (hread : readAttr src = .ok (attr, rest))
    (htlv : attr.isTlv = true) (hlen : src.length + 256 ≤ SIZE_MAX) (hr : lsa.refcount = 1)
    (hs : Avl.Sorted Attr.pair dst)
    (hj : ∀ b ∈ dst, b.pair ≠ toLex ((attr.type : Int), attr.key))
    (hin : lsaDeserialiseAttrSet n
      { lsa with bytes := lsa.bytes + (Attr.set attr.type attr.sign attr.key []).size }
      [] attr.data d = .error e) :
    lsaDeserialiseAttrSet (n + 1) lsa dst src (d + 1) = .error e := by
  have hrl := readAttr_length hread
  have hfit : (Attr.set attr.type attr.sign attr.key []).Fits := by
    simp only [Attr.Fits, Attr.key, Attr.datalen, Attr.sizeofAttrSet]
    omega
  obtain ⟨store, hadd, _⟩ := lsaAttrSetAddAttrSet_fresh hr hs hfit hj
  simp [lsaDeserialiseAttrSet, hne, hread, htlv, hadd, hin]

end OneRecord

theorem exists_fuel (hne : src ≠ []) (h : src.length ≤ fuel) : ∃ n, fuel = n + 1 :=
  Nat.exists_eq_succ_of_ne_zero (Nat.ne_of_gt (lt_of_lt_of_le (List.length_pos_iff.mpr hne) h))

/-- **Records without a duplicate are built.** The set gains the arranged records and the object
their sizes; the return value tells whether they are all. -/
theorem Records.builds (h : Records d src l complete) : ∀ (fuel : Nat) (lsa : LsaObj)
    (dst : AttrSet), src.length ≤ fuel → src.length + 256 ≤ SIZE_MAX → lsa.refcount = 1 →
    Avl.Sorted Attr.pair dst → Joins dst l → Builds fuel lsa dst src d l complete := by
  induction h with
  | done =>
    intro fuel lsa dst _ _ _ hs _
    refine ⟨dst, ?_, hs, by simp⟩
    cases fuel <;> simp [lsaDeserialiseAttrSet, attrsSize]
  | malformed hne hread =>
    intro fuel lsa dst hf _ _ hs _
    obtain ⟨n, rfl⟩ := exists_fuel hne hf
    exact ⟨dst, by simp [lsaDeserialiseAttrSet, hne, hread, attrsSize], hs, by simp⟩
  | tooDeep hne hread htlv =>
    intro fuel lsa dst hf _ _ hs _
    obtain ⟨n, rfl⟩ := exists_fuel hne hf
    exact ⟨dst, by simp [lsaDeserialiseAttrSet, hne, hread, htlv, attrsSize], hs, by simp⟩
  | @setMalformed d src rest attr inner hne hread htlv _ ih =>
    intro fuel lsa dst hf hlen hr hs hj
    have hrl := readAttr_length hread
    obtain ⟨n, rfl⟩ := exists_fuel hne hf
    have hui : AttrsUnique inner := (joins_cons (List.Perm.refl (_ :: dst)) rfl).mp hj |>.1
    obtain ⟨dst', hs', hp, hrun⟩ := parse_set hne hread htlv hlen hr hs hj.fresh
      fun bytes => ih n _ [] (by omega) (by omega) hr Avl.sorted_nil hui
    refine ⟨dst', ?_, hs', hp.trans (List.perm_append_singleton _ dst).symm⟩
    rw [hrun]
    simp [attrsSize]
  | @set d src rest attr inner l complete hne hread htlv _ _ ih ih' =>
    intro fuel lsa dst hf hlen hr hs hj
    have hrl := readAttr_length hread
    obtain ⟨n, rfl⟩ := exists_fuel hne hf
    have hui : AttrsUnique inner := (joins_cons (List.Perm.refl (_ :: dst)) rfl).mp hj |>.1
    obtain ⟨dst₁, hs₁, hp₁, hrun₁⟩ := parse_set hne hread htlv hlen hr hs hj.fresh
      fun bytes => ih n _ [] (by omega) (by omega) hr Avl.sorted_nil hui
    have hj₁ := ((joins_cons hp₁ (Attr.pair_arrange _)).mp hj).2
    obtain ⟨dst', hrun, hs', hp⟩ := ih' n { lsa with bytes := lsa.bytes +
      (Attr.set attr.type attr.sign attr.key inner).totalSize }
      dst₁ (by omega) (by omega) hr hs₁ hj₁
    refine ⟨dst', ?_, hs', hp.trans ((hp₁.append_right _).trans List.perm_middle.symm)⟩
    rw [hrun₁]
    simp [hrun, attrsSize, Nat.add_assoc]
  | @plain d src rest attr l complete hne hread htlv _ ih =>
    intro fuel lsa dst hf hlen hr hs hj
    have hrl := readAttr_length hread
    obtain ⟨n, rfl⟩ := exists_fuel hne hf
    obtain ⟨dst₁, hs₁, hp₁, hrun₁⟩ :=
      parse_plain (n := n) (d := d) hne hread htlv hlen hr hs hj.fresh
    have hj₁ := ((joins_cons hp₁ rfl).mp hj).2
    obtain ⟨dst', hrun, hs', hp⟩ := ih n { lsa with bytes := lsa.bytes +
      (Attr.plain attr.type attr.sign attr.key attr.data).totalSize } dst₁ (by omega) (by omega) hr
      hs₁ hj₁
    refine ⟨dst', ?_, hs', hp.trans ((hp₁.append_right _).trans List.perm_middle.symm)⟩
    rw [hrun₁]
    simp [hrun, attrsSize, Nat.add_assoc]

/-- A call that ends in one of the two aborts on a duplicate. -/
def AbortsOnDup (fuel : Nat) (lsa : LsaObj) (dst : AttrSet) (src : Bytes) (d : Nat) : Prop :=
  ∃ e, (e = .lsaAttrSetAddAttr ∨ e = .lsaAttrSetAddAttrSet) ∧
    lsaDeserialiseAttrSet fuel lsa dst src d = .error e

/-- **Records with a duplicate abort the program**, in one of the two mutators. -/
theorem Records.aborts (h : Records d src l complete) : ∀ (fuel : Nat) (lsa : LsaObj)
    (dst : AttrSet), src.length ≤ fuel → src.length ≤ 65536 → lsa.refcount = 1 →
    Avl.Sorted Attr.pair dst → ¬ Joins dst l → AbortsOnDup fuel lsa dst src d := by
  have big : 65536 + 256 ≤ SIZE_MAX := by decide
  -- a set that clashes with `dst` or has a duplicate inside
  have hset : ∀ (inner : List Attr) {n d : Nat} {src rest : Bytes} {attr : RawAttr}
      {lsa : LsaObj} {dst : AttrSet}, src ≠ [] → readAttr src = .ok (attr, rest) →
      attr.isTlv = true → src.length ≤ 65536 → lsa.refcount = 1 → Avl.Sorted Attr.pair dst →
      (∀ lsa', lsa'.refcount = 1 → ¬ AttrsUnique inner → AbortsOnDup n lsa' [] attr.data d) →
      ¬ ((∀ b ∈ dst, b.pair ≠ toLex ((attr.type : Int), attr.key)) ∧ AttrsUnique inner) →
      AbortsOnDup (n + 1) lsa dst src (d + 1) := by
    intro inner n d src rest attr lsa dst hne hread htlv hlen hr hs ih hbad
    have hrl := readAttr_length hread
    by_cases hdup : ∃ b ∈ dst, b.pair = toLex ((attr.type : Int), attr.key)
    · have hadd := lsaAttrSetAddAttrSet_dup (s := attr.sign) hr hs (by omega) hdup
      exact ⟨_, Or.inr rfl, by simp [lsaDeserialiseAttrSet, hne, hread, htlv, hadd]⟩
    · push Not at hdup
      obtain ⟨e, he, hrun⟩ := ih { lsa with
        bytes := lsa.bytes + (Attr.set attr.type attr.sign attr.key []).size } hr
        fun hui => hbad ⟨hdup, hui⟩
      exact ⟨e, he, parse_set_aborts hne hread htlv (by omega) hr hs hdup hrun⟩
  induction h with
  | done | malformed | tooDeep =>
    intro fuel lsa dst _ _ _ hs hj
    exact absurd ⟨by simpa using hs.nodup_pair, trivial⟩ hj
  | @setMalformed d src rest attr inner hne hread htlv hin ih =>
    intro fuel lsa dst hf hlen hr hs hj
    have hrl := readAttr_length hread
    obtain ⟨n, rfl⟩ := exists_fuel hne hf
    refine hset inner hne hread htlv hlen hr hs (fun lsa' hr' hui =>
      ih n lsa' [] (by omega) (by omega) hr' Avl.sorted_nil hui) ?_
    rintro ⟨hfresh, hui⟩
    refine hj ((joins_cons (List.Perm.refl (_ :: dst)) rfl).mpr ⟨hui, ?_⟩)
    rw [Joins, List.append_nil, List.map_cons, List.nodup_cons]
    refine ⟨⟨fun hm => ?_, hs.nodup_pair⟩, trivial⟩
    obtain ⟨b, hb, e⟩ := List.mem_map.mp hm
    exact hfresh b hb e
  | @set d src rest attr inner l complete hne hread htlv hin _ ih ih' =>
    intro fuel lsa dst hf hlen hr hs hj
    have hrl := readAttr_length hread
    obtain ⟨n, rfl⟩ := exists_fuel hne hf
    by_cases hgood : (∀ b ∈ dst, b.pair ≠ toLex ((attr.type : Int), attr.key)) ∧ AttrsUnique inner
    · obtain ⟨hfresh, hui⟩ := hgood
      obtain ⟨dst₁, hs₁, hp₁, hrun₁⟩ := parse_set hne hread htlv (by omega) hr hs hfresh
        fun bytes => hin.builds n _ [] (by omega) (by omega) hr Avl.sorted_nil hui
      obtain ⟨e, he, hrun⟩ := ih' n { lsa with bytes := lsa.bytes +
        (Attr.set attr.type attr.sign attr.key inner).totalSize } dst₁ (by omega) (by omega) hr hs₁
        fun hj₁ => hj ((joins_cons hp₁ (Attr.pair_arrange _)).mpr ⟨hui, hj₁⟩)
      exact ⟨e, he, by rw [hrun₁]; simpa using hrun⟩
    · exact hset inner hne hread htlv hlen hr hs (fun lsa' hr' hui =>
        ih n lsa' [] (by omega) (by omega) hr' Avl.sorted_nil hui) hgood
  | @plain d src rest attr l complete hne hread htlv _ ih =>
    intro fuel lsa dst hf hlen hr hs hj
    have hrl := readAttr_length hread
    obtain ⟨n, rfl⟩ := exists_fuel hne hf
    by_cases hdup : ∃ b ∈ dst, b.pair = toLex ((attr.type : Int), attr.key)
    · have hadd := lsaAttrSetAddAttr_dup (s := attr.sign) (d := attr.data) hr hs (by omega) hdup
      exact ⟨_, Or.inl rfl, by simp [lsaDeserialiseAttrSet, hne, hread, htlv, hadd]⟩
    · push Not at hdup
      obtain ⟨dst₁, hs₁, hp₁, hrun₁⟩ :=
        parse_plain (n := n) (d := d) hne hread htlv (by omega) hr hs hdup
      obtain ⟨e, he, hrun⟩ := ih n { lsa with bytes := lsa.bytes +
        (Attr.plain attr.type attr.sign attr.key attr.data).totalSize } dst₁ (by omega) (by omega)
        hr hs₁ fun hj₁ => hj ((joins_cons hp₁ rfl).mpr ⟨attrsUnique_children_plain, hj₁⟩)
      exact ⟨e, he, by rw [hrun₁, hrun]⟩

/-! ## The whole message -/

/-- A message takes at least as many bytes as the writer would write around its attributes. -/
theorem messageBody_consumes {n : Nat} {id : NodeId} {body : Bytes}
    (h : messageBody buf = some (n, id, body)) : (intBytes (NODE_ID_LEN + body.length)).length +
      NODE_ID_LEN + body.length ≤ n ∧ n ≤ buf.length := by
  unfold messageBody at h
  cases hread : srcReadSizeT buf with
  | error e => simp [hread] at h
  | ok r =>
    obtain ⟨len, rest⟩ := r
    rw [srcReadSizeT_eq] at hread
    obtain ⟨c, rfl, hc, hint, _⟩ := srcReadUint64_ok hread
    rw [srcReadSizeT_eq, hread] at h
    simp only at h
    split_ifs at h with hbad
    simp only [Option.some.injEq, Prod.mk.injEq] at h
    obtain ⟨rfl, -, rfl⟩ := h
    have hid : NODE_ID_LEN = 32 := rfl
    simp only [List.length_append, List.length_take] at hbad
    have hlen : NODE_ID_LEN + ((rest.take len).drop NODE_ID_LEN).length = len := by
      simp only [List.length_take, List.length_drop]
      omega
    rw [hlen, List.length_append]
    omega

theorem messageBody_length {n : Nat} {id : NodeId} {body : Bytes}
    (h : messageBody buf = some (n, id, body)) : body.length + 33 ≤ n ∧ n ≤ buf.length := by
  obtain ⟨h1, h2⟩ := messageBody_consumes h
  have hint := length_intBytes_pos (NODE_ID_LEN + body.length)
  have hid : NODE_ID_LEN = 32 := rfl
  omega

/-- Without a complete message nothing is built. -/
theorem lsaDeserialise_none (h : messageBody buf = none) :
    ∃ ret : Int, lsaDeserialise buf = .ok (ret, none) ∧ -1 ≤ ret := by
  unfold messageBody at h
  unfold lsaDeserialise
  cases hread : srcReadSizeT buf with
  | error e => cases e <;> exact ⟨_, rfl, by omega⟩
  | ok r =>
    obtain ⟨len, rest⟩ := r
    rw [hread] at h
    simp only at h ⊢
    split_ifs at h with hbad
    split_ifs with h1 h2 h3 h4
    · exact ⟨_, rfl, by omega⟩
    · exact ⟨_, rfl, by omega⟩
    · exact ⟨_, rfl, by omega⟩
    · exact ⟨_, rfl, by omega⟩
    · exact absurd hbad (by tauto)

/-- With a complete message the parser runs over its body. -/
theorem lsaDeserialise_some {n : Nat} {id : NodeId} {body : Bytes}
    (h : messageBody buf = some (n, id, body)) :
    lsaDeserialise buf = (do
      let (ok, lsa, root) ← lsaDeserialiseAttrSet body.length (lsaAlloc id) [] body 8
      let lsa := { lsa with root := root }
      if !ok then
        let _ ← lsaPut lsa
        return (-1, none)
      else return (n, some lsa)) := by
  unfold messageBody at h
  unfold lsaDeserialise
  cases hread : srcReadSizeT buf with
  | error e => simp [hread] at h
  | ok r =>
    obtain ⟨len, rest⟩ := r
    rw [hread] at h
    simp only at h ⊢
    split_ifs at h with hbad
    simp only [not_or] at hbad
    obtain ⟨h1, h2, h3, h4⟩ := hbad
    simp only [Option.some.injEq, Prod.mk.injEq] at h
    obtain ⟨rfl, rfl, rfl⟩ := h
    rw [if_neg h1, if_neg h2, if_neg h3, dif_neg h4]
    rfl

theorem messageRecords_records {n : Nat} {id : NodeId} {body : Bytes}
    (h : messageBody buf = some (n, id, body)) :
    Records 8 body (messageRecords buf).1 (messageRecords buf).2 := by
  unfold messageRecords
  rw [h]
  exact attrRecords_records body.length body 8 le_rfl

/-- The object that a message's records make. -/
def builtLsa (id : NodeId) (l : List Attr) : LsaObj :=
  { refcount := 1, bytes := MAX_SERIALISED_INT_LEN + NODE_ID_LEN + attrsSize l, id := id,
    root := arrange l }

/-- **A message without a duplicate is built**, or released again when it is malformed. -/
theorem lsaDeserialise_unique {n : Nat} {id : NodeId} {body : Bytes}
    (hb : messageBody buf = some (n, id, body)) (hlen : body.length + 256 ≤ SIZE_MAX)
    (hrec : Records 8 body l complete) (hu : AttrsUnique l) :
    lsaDeserialise buf =
      if complete then .ok ((n : Int), some (builtLsa id l))
      else (lsaPut (builtLsa id l)).map fun _ => (-1, none) := by
  obtain ⟨root, hrun, hs, hp⟩ := hrec.builds body.length (lsaAlloc id) [] le_rfl hlen rfl
    Avl.sorted_nil hu
  obtain rfl := eq_arrange hs hp
  rw [lsaDeserialise_some hb, hrun]
  cases complete with
  | false =>
    change (lsaPut (builtLsa id l) >>= fun _ => _) = _
    rw [if_neg Bool.false_ne_true]
    cases lsaPut (builtLsa id l) <;> rfl
  | true => rfl

theorem lsaPut_isOk (h : lsa.refcount = 1) :
    (∃ r, lsaPut lsa = .ok r) ↔ ∃ m, attrTreeFree lsa.root lsa.bytes = .ok m := by
  obtain ⟨⟨bytes, id, root⟩, refcount⟩ := lsa
  obtain rfl : refcount = 1 := h
  cases root with
  | nil => simp [lsaPut, attrTreeFree]
  | cons a root =>
    simp only [lsaPut, sub_self, if_true, List.isEmpty_cons, Bool.not_false]
    cases attrTreeFree (a :: root) bytes with
    | error e => simp
    | ok m => simp

/-- The release of a built object succeeds iff none of its sets is empty. -/
theorem lsaPut_builtLsa (id : NodeId) (hf : AttrsFit l) :
    (∃ r, lsaPut (builtLsa id l) = .ok r) ↔ NoEmptySet l := by
  rw [lsaPut_isOk rfl]
  exact (attrTreeFree_isOk (attrsFit_arrange.mpr hf) _).trans noEmptySet_arrange

/-- A message with a duplicate aborts the program. -/
theorem lsaDeserialise_dup (hlen : buf.length ≤ 65536) (hu : ¬ AttrsUnique (messageRecords buf).1) :
    lsaDeserialise buf = .error .lsaAttrSetAddAttr ∨
      lsaDeserialise buf = .error .lsaAttrSetAddAttrSet := by
  cases hb : messageBody buf with
  | none =>
    have hnil : (messageRecords buf).1 = [] := by simp [messageRecords, hb]
    exact absurd (hnil ▸ attrsUnique_nil) hu
  | some m =>
    obtain ⟨n, id, body⟩ := m
    obtain ⟨h1, h2⟩ := messageBody_length hb
    obtain ⟨e, he, hrun⟩ := (messageRecords_records hb).aborts body.length (lsaAlloc id) [] le_rfl
      (by omega) rfl Avl.sorted_nil hu
    rw [lsaDeserialise_some hb, hrun]
    exact he.imp (congrArg _) (congrArg _)

/-- **When the parser returns.** On at most 65536 bytes `lsa_deserialise` returns a positive
length, 0 or -1 iff no attribute set of the message repeats a (type, key) and, when the message is
malformed, no set read before the error is empty. -/
theorem deserialise_returns_iff (buf : Bytes) (hlen : buf.length ≤ 65536) :
    (∃ ret lsa, lsaDeserialise buf = .ok (ret, lsa) ∧ (0 < ret ∨ ret = 0 ∨ ret = -1)) ↔
      AttrsUnique (messageRecords buf).1 ∧
        ((messageRecords buf).2 = true ∨ NoEmptySet (messageRecords buf).1) := by
  have big : 65536 + 256 ≤ SIZE_MAX := by decide
  cases hb : messageBody buf with
  | none =>
    have hnil : messageRecords buf = ([], true) := by simp [messageRecords, hb]
    obtain ⟨ret, hrun, hret⟩ := lsaDeserialise_none hb
    rw [hnil]
    exact ⟨fun _ => ⟨attrsUnique_nil, Or.inl rfl⟩, fun _ => ⟨ret, none, hrun, by omega⟩⟩
  | some m =>
    obtain ⟨n, id, body⟩ := m
    obtain ⟨h1, h2⟩ := messageBody_length hb
    by_cases hu : AttrsUnique (messageRecords buf).1
    · have hwire := (messageRecords_records hb).length_attrsWire
      have hput := lsaPut_builtLsa id (attrsFit_of_wire
        (by omega : (attrsWire (messageRecords buf).1).length + 256 ≤ SIZE_MAX))
      rw [lsaDeserialise_unique hb (by omega) (messageRecords_records hb) hu, ← hput,
        and_iff_right hu]
      cases hok : (messageRecords buf).2 with
      | true => exact ⟨fun _ => Or.inl rfl, fun _ => ⟨n, _, rfl, by omega⟩⟩
      | false =>
        rw [if_neg Bool.false_ne_true]
        cases lsaPut (builtLsa id (messageRecords buf).1) with
        | error e => simp [Except.map]
        | ok r => exact ⟨fun _ => Or.inr ⟨r, rfl⟩, fun _ => ⟨-1, none, rfl, by omega⟩⟩
    · refine ⟨?_, fun h => absurd h.1 hu⟩
      rintro ⟨ret, lsa, hrun, _⟩
      rcases lsaDeserialise_dup hlen hu with h | h <;> simp [h] at hrun

/-- A message with an all-zero id and the attribute bytes `attrs`, fewer than 96. -/
def messageOf (attrs : Bytes) : Bytes :=
  [UInt8.ofNat (32 + attrs.length)] ++ List.replicate 32 0 ++ attrs

/-- Two attributes of one type in a message: the first message the parser aborts on. -/
theorem deserialise_duplicate_aborts :
    (messageOf [1, 0, 0, 1, 0, 0]).length ≤ 65536 ∧
      ¬ ∃ ret lsa, lsaDeserialise (messageOf [1, 0, 0, 1, 0, 0]) = .ok (ret, lsa) ∧
        (0 < ret ∨ ret = 0 ∨ ret = -1) := by
  have hrun : lsaDeserialise (messageOf [1, 0, 0, 1, 0, 0]) = .error .lsaAttrSetAddAttr := rfl
  refine ⟨by decide, ?_⟩
  rintro ⟨ret, lsa, h, _⟩
  rw [hrun] at h
  exact absurd h (by simp)

/-- A message with two attributes of different types is read. -/
theorem deserialise_returns_two_types :
    ∃ ret lsa, lsaDeserialise (messageOf [1, 0, 0, 2, 0, 0]) = .ok (ret, lsa) ∧
      (0 < ret ∨ ret = 0 ∨ ret = -1) := by
  have hrecs : messageRecords (messageOf [1, 0, 0, 2, 0, 0]) =
      ([.plain 1 false [] [], .plain 2 false [] []], true) := rfl
  refine (deserialise_returns_iff (messageOf [1, 0, 0, 2, 0, 0]) (by decide)).mpr ?_
  rw [hrecs]
  refine ⟨⟨?_, List.nodup_nil, List.nodup_nil, trivial⟩, Or.inl rfl⟩
  simp [Attr.pair, Attr.type, Attr.key]

/-- An empty set and a malformed byte: the release of the object faults. -/
example : lsaDeserialise (messageOf [1, 2, 0, 0x80]) = .error .attrTreeFreeNull := rfl

/-! ## Received LSAs -/

/-- `lsa_deserialise` made the LSA from at most 65536 bytes. -/
def Received (lsa : Lsa) : Prop :=
  ∃ buf ret obj, buf.length ≤ 65536 ∧ lsaDeserialise buf = .ok (ret, some obj) ∧ obj.toLsa = lsa

/-- What holds of every received LSA. -/
structure Wellformed (lsa : Lsa) : Prop where
  wf : AttrsWf lsa.root
  types : TypesOk lsa.root
  depth : attrsDepth lsa.root ≤ 8
  bytes : lsa.bytes = MAX_SERIALISED_INT_LEN + NODE_ID_LEN + attrsSize lsa.root
  wire : (attrsWire lsa.root).length + 33 ≤ 65536

theorem typesOk_arrange : TypesOk (arrange l) ↔ TypesOk l :=
  everywhere_arrange fun a => by rw [Attr.type_arrange]

/-- What `lsa_deserialise` returns with an LSA. -/
theorem lsaDeserialise_some_inv {ret : Int} {obj : LsaObj} (hlen : buf.length ≤ 65536)
    (h : lsaDeserialise buf = .ok (ret, some obj)) : ∃ n id body,
      messageBody buf = some (n, id, body) ∧ ret = n ∧ obj = builtLsa id (messageRecords buf).1 ∧
      AttrsUnique (messageRecords buf).1 := by
  have big : 65536 + 256 ≤ SIZE_MAX := by decide
  cases hb : messageBody buf with
  | none =>
    obtain ⟨ret', hrun, _⟩ := lsaDeserialise_none hb
    simp [h] at hrun
  | some m =>
    obtain ⟨n, id, body⟩ := m
    obtain ⟨h1, h2⟩ := messageBody_length hb
    by_cases hu : AttrsUnique (messageRecords buf).1
    · rw [lsaDeserialise_unique hb (by omega) (messageRecords_records hb) hu] at h
      split_ifs at h with hok
      · simp only [Except.ok.injEq, Prod.mk.injEq, Option.some.injEq] at h
        exact ⟨n, id, body, rfl, h.1.symm, h.2.symm, hu⟩
      · cases hput : lsaPut (builtLsa id (messageRecords buf).1) <;> simp [hput, Except.map] at h
    · rcases lsaDeserialise_dup hlen hu with hd | hd <;> simp [hd] at h

/-- **Every received LSA is well formed.** -/
theorem Received.wellformed {lsa : Lsa} (h : Received lsa) : Wellformed lsa := by
  obtain ⟨buf, ret, obj, hlen, hrun, rfl⟩ := h
  obtain ⟨n, id, body, hb, -, rfl, hu⟩ := lsaDeserialise_some_inv hlen hrun
  obtain ⟨h1, h2⟩ := messageBody_length hb
  have hrec := messageRecords_records hb
  have hwire := hrec.length_attrsWire
  refine ⟨arrange_wf hu, typesOk_arrange.mpr hrec.typesOk, ?_, ?_, ?_⟩
  · exact attrsDepth_arrange.le.trans hrec.attrsDepth_le
  · exact congrArg (MAX_SERIALISED_INT_LEN + NODE_ID_LEN + ·) attrsSize_arrange.symm
  · have harrange := length_attrsWire_arrange (l := (messageRecords buf).1)
    simp only [builtLsa]
    omega

end Dvpn
