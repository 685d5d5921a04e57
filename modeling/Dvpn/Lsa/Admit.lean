import Dvpn.Lsa.Deserialise

/-!
# What the parser makes of any message (`lsa_deserialise.c:95-206`, `lsa.c:188-377`)

`lsa_attr_set_find_attr` does not look for a key of more than 65536 bytes. So a second record of
one (type, key) is refused by `iv_avl_tree_insert` when its key is longer, and is fatal when it is
not; the records that count are `admitRecords`.

* `Records.outcome`: the parser builds the records that are taken, or aborts on two of them that
  have one pair.
* `answered_iff`: which complete messages `lsa_deserialise` answers.
-/

namespace Dvpn

variable {buf src : Bytes} {lsa : LsaObj} {dst : AttrSet} {a : Attr} {l : List Attr}
  {d n : Nat} {id : NodeId} {body : Bytes} {complete : Bool} {seen : List (Int ×ₗ Bytes)}

/-! ## What the mutators take -/

mutual

/-- What `lsa.c` takes of an attribute, and whether that is all of it. -/
def Attr.admit : Attr → Attr × Bool
  | .plain t s k d => (.plain t s k d, true)
  | .set t s k l => (.set t s k (admitRecords [] l).1, (admitRecords [] l).2)

/-- The records that `lsa.c` takes into a set with the pairs `seen`, and whether they are all: a
second record of one pair stops the parser when `lsa_attr_set_find_attr` does not look for it. -/
def admitRecords : List (Int ×ₗ Bytes) → List Attr → List Attr × Bool
  | _, [] => ([], true)
  | seen, a :: l =>
    if 65536 < a.key.length ∧ a.pair ∈ seen then ([], false)
    else if a.admit.2 then
      ( a.admit.1 :: (admitRecords (a.pair :: seen) l).1, (admitRecords (a.pair :: seen) l).2)
    else ([ a.admit.1], false)

end

/-- The records of the message that `buf` starts with, as far as they are taken, and whether the
message is well formed and taken as a whole. -/
def messageAdmitted (buf : Bytes) : List Attr × Bool :=
  ((admitRecords [] (messageRecords buf).1).1,
    (messageRecords buf).2 && (admitRecords [] (messageRecords buf).1).2)

theorem Attr.pair_admit (a : Attr) : a.admit.1.pair = a.pair := by
  cases a <;> rfl

theorem attrsFit_admitRecords : ∀ (l : List Attr) (seen : List (Int ×ₗ Bytes)), AttrsFit l →
    (∀ a ∈ l, a.Everywhere Attr.Fits → a.admit.1.Everywhere Attr.Fits) →
    AttrsFit (admitRecords seen l).1
  | [], _, _, _ => trivial
  | a :: l, seen, hf, ha => by
    have hrest := attrsFit_admitRecords l (a.pair :: seen) hf.2
      fun b hb => ha b (List.mem_cons_of_mem a hb)
    have hfirst := ha a List.mem_cons_self hf.1
    rw [admitRecords]
    split_ifs
    · trivial
    · exact ⟨hfirst, hrest⟩
    · exact ⟨hfirst, trivial⟩

theorem everywhere_admit (a : Attr) :
    a.Everywhere Attr.Fits → a.admit.1.Everywhere Attr.Fits := by
  induction a using Attr.tree_induction with
  | plain t s k d => exact id
  | set t s k l ih =>
    rintro ⟨hfit, hl⟩
    exact ⟨hfit, attrsFit_admitRecords l [] hl ih⟩

/-! ## The parser over any records -/

/-- A repeated key of more than 65536 bytes is refused. -/
theorem lsaAttrSetAddAttr_refused {t : Int} {s : Bool} {k d : Bytes} (hr : lsa.refcount = 1)
    (hs : Avl.Sorted Attr.pair dst) (hf : (Attr.plain t s k d).Fits) (hk : 65536 < k.length)
    (hd : ∃ b ∈ dst, b.pair = toLex (t, k)) : lsaAttrSetAddAttr lsa dst t s k d = .ok none := by
  have hfind : lsaAttrSetFindAttr dst t k = none := if_pos hk
  have halloc : attrAlloc k.length d.length = .ok () := attrAlloc_eq hf
  have hins : Avl.insert compareAttrKeys (.plain t s k d) dst = none :=
    (Avl.insert_eq_none compareAttrKeys_orders hs).mpr hd
  simp [lsaAttrSetAddAttr, hr, hfind, halloc, hins]

theorem lsaAttrSetAddAttrSet_refused {t : Int} {s : Bool} {k : Bytes} (hr : lsa.refcount = 1)
    (hs : Avl.Sorted Attr.pair dst) (hf : (Attr.set t s k []).Fits) (hk : 65536 < k.length)
    (hd : ∃ b ∈ dst, b.pair = toLex (t, k)) : lsaAttrSetAddAttrSet lsa dst t s k = .ok none := by
  have hfind : lsaAttrSetFindAttr dst t k = none := if_pos hk
  have halloc : attrAlloc k.length Attr.sizeofAttrSet = .ok () := attrAlloc_eq hf
  have hins : Avl.insert compareAttrKeys (.set t s k []) dst = none :=
    (Avl.insert_eq_none compareAttrKeys_orders hs).mpr hd
  simp [lsaAttrSetAddAttrSet, hr, hfind, halloc, hins]

/-- What a run of the parser comes to when it takes the records `l` and no more: they are built, or
two of them have one pair and the program aborts. -/
def Comes (fuel : Nat) (lsa : LsaObj) (dst : AttrSet) (src : Bytes) (d : Nat)
    (r : List Attr × Bool) : Prop :=
  (Joins dst r.1 → Builds fuel lsa dst src d r.1 r.2) ∧
    (¬ Joins dst r.1 → ∃ e, lsaDeserialiseAttrSet fuel lsa dst src d = .error e)

/-- Nothing more is taken. -/
theorem comes_nothing {fuel : Nat} {ok : Bool} (hs : Avl.Sorted Attr.pair dst)
    (hrun : lsaDeserialiseAttrSet fuel lsa dst src d = .ok (ok, lsa, dst)) :
    Comes fuel lsa dst src d ([], ok) := by
  refine ⟨fun _ => ⟨dst, ?_, hs, ?_⟩, fun hj => absurd ⟨?_, trivial⟩ hj⟩
  · rw [hrun, attrsSize, Nat.add_zero]
  · rw [List.map_nil, List.append_nil]
  · rw [List.append_nil]
    exact hs.nodup_pair

/-- An attribute whose pair is there already does not join. -/
theorem not_joins_of_dup (hd : ∃ b ∈ dst, b.pair = a.pair) : ¬ Joins dst (a :: l) := by
  intro hj
  obtain ⟨b, hb, he⟩ := hd
  exact hj.fresh b hb he

section OneRecord

variable {rest : Bytes} {attr : RawAttr} {inner : List Attr} {ok : Bool}

/-- A plain record with a pair that is there already. -/
theorem plain_repeated (hne : src ≠ []) (hread : readAttr src = .ok (attr, rest))
    (htlv : attr.isTlv = false) (hlen : src.length + 256 ≤ SIZE_MAX) (hr : lsa.refcount = 1)
    (hs : Avl.Sorted Attr.pair dst)
    (hd : ∃ b ∈ dst, b.pair = toLex ((attr.type : Int), attr.key)) :
    if 65536 < attr.key.length then
      lsaDeserialiseAttrSet (n + 1) lsa dst src d = .ok (false, lsa, dst)
    else ∃ e, lsaDeserialiseAttrSet (n + 1) lsa dst src d = .error e := by
  have hrl := readAttr_length hread
  split_ifs with hk
  · have hfit : (Attr.plain attr.type attr.sign attr.key attr.data).Fits := by
      simp only [Attr.Fits, Attr.key, Attr.datalen]
      omega
    have hadd := lsaAttrSetAddAttr_refused hr hs hfit hk hd
    simp [lsaDeserialiseAttrSet, hne, hread, htlv, hadd]
  · have hadd := lsaAttrSetAddAttr_dup (s := attr.sign) (d := attr.data) hr hs (not_lt.mp hk) hd
    exact ⟨_, by simp [lsaDeserialiseAttrSet, hne, hread, htlv, hadd]; rfl⟩

/-- A set with a pair that is there already. -/
theorem set_repeated (hne : src ≠ []) (hread : readAttr src = .ok (attr, rest))
    (htlv : attr.isTlv = true) (hlen : src.length + 256 ≤ SIZE_MAX) (hr : lsa.refcount = 1)
    (hs : Avl.Sorted Attr.pair dst)
    (hd : ∃ b ∈ dst, b.pair = toLex ((attr.type : Int), attr.key)) :
    if 65536 < attr.key.length then
      lsaDeserialiseAttrSet (n + 1) lsa dst src (d + 1) = .ok (false, lsa, dst)
    else ∃ e, lsaDeserialiseAttrSet (n + 1) lsa dst src (d + 1) = .error e := by
  have hrl := readAttr_length hread
  split_ifs with hk
  · have hfit : (Attr.set attr.type attr.sign attr.key []).Fits := by
      simp only [Attr.Fits, Attr.key, Attr.datalen, Attr.sizeofAttrSet]
      omega
    have hadd := lsaAttrSetAddAttrSet_refused hr hs hfit hk hd
    simp [lsaDeserialiseAttrSet, hne, hread, htlv, hadd]
  · have hadd := lsaAttrSetAddAttrSet_dup (s := attr.sign) hr hs (not_lt.mp hk) hd
    exact ⟨_, by simp [lsaDeserialiseAttrSet, hne, hread, htlv, hadd]; rfl⟩

/-- A set with a pair of its own: its records come first, and then the ones after it. -/
theorem set_comes {r r' : List Attr × Bool} (hne : src ≠ [])
    (hread : readAttr src = .ok (attr, rest)) (htlv : attr.isTlv = true)
    (hlen : src.length + 256 ≤ SIZE_MAX) (hr : lsa.refcount = 1) (hs : Avl.Sorted Attr.pair dst)
    (hfresh : ∀ b ∈ dst, b.pair ≠ toLex ((attr.type : Int), attr.key))
    (hin : ∀ bytes, Comes n { lsa with bytes := bytes } [] attr.data d r)
    (hrest : r.2 = true → ∀ bytes dst', Avl.Sorted Attr.pair dst' →
      dst'.Perm ((Attr.set attr.type attr.sign attr.key r.1).arrange :: dst) →
      Comes n { lsa with bytes := bytes } dst' rest (d + 1) r') :
    Comes (n + 1) lsa dst src (d + 1)
      (if r.2 then (.set attr.type attr.sign attr.key r.1 :: r'.1, r'.2)
        else ([.set attr.type attr.sign attr.key r.1], false)) := by
  have hpair : (Attr.set attr.type attr.sign attr.key r.1).arrange.pair =
      (Attr.set attr.type attr.sign attr.key r.1).pair := Attr.pair_arrange _
  by_cases hu : AttrsUnique r.1
  · obtain ⟨dst₁, hs₁, hp₁, hrun⟩ := parse_set hne hread htlv hlen hr hs hfresh
      fun bytes => (hin bytes).1 hu
    cases hok : r.2 with
    | false =>
      rw [hok] at hrun
      rw [if_neg Bool.false_ne_true]
      have hnil : Joins dst₁ [] := by
        refine ⟨?_, trivial⟩
        rw [List.append_nil]
        exact hs₁.nodup_pair
      refine ⟨fun _ => ⟨dst₁, ?_, hs₁, ?_⟩, fun hj => absurd ((joins_cons hp₁ hpair).mpr ?_) hj⟩
      · rw [hrun]
        simp [attrsSize]
      · exact hp₁.trans (List.perm_append_singleton _ dst).symm
      · exact ⟨hu, hnil⟩
    | true =>
      rw [hok] at hrun
      rw [if_pos rfl]
      obtain ⟨hbuilds, hfails⟩ := hrest hok (lsa.bytes +
        (Attr.set attr.type attr.sign attr.key r.1).totalSize) dst₁ hs₁ hp₁
      constructor
      · intro hj
        obtain ⟨dst', hrun', hs', hp'⟩ := hbuilds ((joins_cons hp₁ hpair).mp hj).2
        refine ⟨dst', ?_, hs', hp'.trans ((hp₁.append_right _).trans List.perm_middle.symm)⟩
        rw [hrun]
        simp [hrun', attrsSize, Nat.add_assoc]
      · intro hj
        obtain ⟨e, hrun'⟩ := hfails fun hj₁ => hj ((joins_cons hp₁ hpair).mpr ⟨hu, hj₁⟩)
        exact ⟨e, by rw [hrun]; simpa using hrun'⟩
  · -- two records inside have one pair
    obtain ⟨e, hrun⟩ := (hin _).2 hu
    have hnot : ∀ l, ¬ Joins dst (Attr.set attr.type attr.sign attr.key r.1 :: l) :=
      fun l hj => hu ((joins_cons (List.Perm.refl (_ :: dst)) rfl).mp hj).1
    have herr := parse_set_aborts hne hread htlv hlen hr hs hfresh hrun
    split_ifs
    · exact ⟨fun hj => absurd hj (hnot _), fun _ => ⟨e, herr⟩⟩
    · exact ⟨fun hj => absurd hj (hnot _), fun _ => ⟨e, herr⟩⟩

end OneRecord

/-- A record with a pair that is there already stops the parser, in one of two ways. -/
theorem repeated_comes {fuel : Nat} {c : Bool} (hs : Avl.Sorted Attr.pair dst)
    (hd : ∃ b ∈ dst, b.pair = a.pair) (hseen : a.pair ∈ seen)
    (hrun : if 65536 < a.key.length then
        lsaDeserialiseAttrSet fuel lsa dst src d = .ok (false, lsa, dst)
      else ∃ e, lsaDeserialiseAttrSet fuel lsa dst src d = .error e) :
    Comes fuel lsa dst src d
      ((admitRecords seen (a :: l)).1, c && (admitRecords seen (a :: l)).2) := by
  by_cases hk : 65536 < a.key.length
  · rw [if_pos hk] at hrun
    rw [admitRecords, if_pos ⟨hk, hseen⟩, Bool.and_false]
    exact comes_nothing hs hrun
  · rw [if_neg hk] at hrun
    have hnot : ∀ l, ¬ Joins dst ( a.admit.1 :: l) :=
      fun l => not_joins_of_dup (by rwa [Attr.pair_admit])
    rw [admitRecords, if_neg fun hn => hk hn.1]
    split_ifs
    · exact ⟨fun hj => absurd hj (hnot _), fun _ => hrun⟩
    · exact ⟨fun hj => absurd hj (hnot _), fun _ => hrun⟩

theorem admitRecords_fresh (h : a.pair ∉ seen) :
    admitRecords seen (a :: l) = if a.admit.2 then
      ( a.admit.1 :: (admitRecords (a.pair :: seen) l).1, (admitRecords (a.pair :: seen) l).2)
    else ([ a.admit.1], false) := by
  rw [admitRecords, if_neg fun hn => h hn.2]

/-- The pairs that are seen after a record are those of the set after it. -/
theorem mem_seen_cons {a₁ b₁ : Attr} {dst' : AttrSet}
    (hseen : ∀ p, p ∈ seen ↔ p ∈ dst.map Attr.pair) (hp : dst'.Perm (b₁ :: dst))
    (he : b₁.pair = a₁.pair) : ∀ p, p ∈ a₁.pair :: seen ↔ p ∈ dst'.map Attr.pair := by
  intro p
  rw [(hp.map Attr.pair).mem_iff, List.map_cons, he, List.mem_cons, List.mem_cons, hseen]

/-- **What the parser makes of any records.** -/
theorem Records.outcome (h : Records d src l complete) : ∀ (fuel : Nat) (lsa : LsaObj)
    (dst : AttrSet) (seen : List (Int ×ₗ Bytes)), src.length ≤ fuel →
    src.length + 256 ≤ SIZE_MAX → lsa.refcount = 1 → Avl.Sorted Attr.pair dst →
    (∀ p, p ∈ seen ↔ p ∈ dst.map Attr.pair) →
    Comes fuel lsa dst src d ((admitRecords seen l).1, complete && (admitRecords seen l).2) := by
  induction h with
  | done =>
    intro fuel lsa dst seen _ _ _ hs _
    refine comes_nothing hs ?_
    cases fuel <;> simp [lsaDeserialiseAttrSet, admitRecords]
  | malformed hne hread =>
    intro fuel lsa dst seen hf _ _ hs _
    obtain ⟨n, rfl⟩ := exists_fuel hne hf
    exact comes_nothing hs (by simp [lsaDeserialiseAttrSet, hne, hread])
  | tooDeep hne hread htlv =>
    intro fuel lsa dst seen hf _ _ hs _
    obtain ⟨n, rfl⟩ := exists_fuel hne hf
    exact comes_nothing hs (by simp [lsaDeserialiseAttrSet, hne, hread, htlv])
  | @setMalformed d src rest attr inner hne hread htlv _ ih =>
    intro fuel lsa dst seen hf hlen hr hs hseen
    have hrl := readAttr_length hread
    obtain ⟨n, rfl⟩ := exists_fuel hne hf
    have hd := (hseen (toLex ((attr.type : Int), attr.key))).trans List.mem_map
    by_cases hmem : toLex ((attr.type : Int), attr.key) ∈ seen
    · exact repeated_comes hs (hd.mp hmem) hmem
        (set_repeated hne hread htlv hlen hr hs (hd.mp hmem))
    · have hset := @set_comes src lsa dst d n rest attr _ ([], true) hne hread htlv hlen hr hs
        (fun b hb he => hmem (hd.mpr ⟨b, hb, he⟩))
        (fun bytes => ih n { lsa with bytes := bytes } [] [] (by omega) (by omega) hr
          Avl.sorted_nil fun p => Iff.rfl)
        (fun hfalse => absurd hfalse (by simp))
      rw [admitRecords_fresh hmem]
      rw [Bool.false_and, if_neg Bool.false_ne_true] at hset
      split_ifs
      · exact hset
      · exact hset
  | @set d src rest attr inner l complete hne hread htlv _ _ ih ih' =>
    intro fuel lsa dst seen hf hlen hr hs hseen
    have hrl := readAttr_length hread
    obtain ⟨n, rfl⟩ := exists_fuel hne hf
    have hd := (hseen (toLex ((attr.type : Int), attr.key))).trans List.mem_map
    by_cases hmem : toLex ((attr.type : Int), attr.key) ∈ seen
    · exact repeated_comes hs (hd.mp hmem) hmem
        (set_repeated hne hread htlv hlen hr hs (hd.mp hmem))
    · have hset := @set_comes src lsa dst d n rest attr _
        ((admitRecords (toLex ((attr.type : Int), attr.key) :: seen) l).1,
          complete && (admitRecords (toLex ((attr.type : Int), attr.key) :: seen) l).2)
        hne hread htlv hlen hr hs
        (fun b hb he => hmem (hd.mpr ⟨b, hb, he⟩))
        (fun bytes => ih n { lsa with bytes := bytes } [] [] (by omega) (by omega) hr
          Avl.sorted_nil fun p => Iff.rfl)
        (fun _ bytes dst' hs' hp' => ih' n { lsa with bytes := bytes } dst' _ (by omega) (by omega)
          hr hs' (mem_seen_cons hseen hp' (Attr.pair_arrange _)))
      rw [admitRecords_fresh hmem]
      rw [Bool.true_and] at hset
      rw [ Attr.admit]
      split_ifs at hset ⊢
      · exact hset
      · rw [Bool.and_false]
        exact hset
  | @plain d src rest attr l complete hne hread htlv _ ih =>
    intro fuel lsa dst seen hf hlen hr hs hseen
    have hrl := readAttr_length hread
    obtain ⟨n, rfl⟩ := exists_fuel hne hf
    have hd := (hseen (toLex ((attr.type : Int), attr.key))).trans List.mem_map
    by_cases hmem : toLex ((attr.type : Int), attr.key) ∈ seen
    · exact repeated_comes hs (hd.mp hmem) hmem
        (plain_repeated hne hread htlv hlen hr hs (hd.mp hmem))
    · obtain ⟨dst₁, hs₁, hp₁, hrun₁⟩ := parse_plain (n := n) (d := d) hne hread htlv hlen hr hs
        fun b hb he => hmem (hd.mpr ⟨b, hb, he⟩)
      obtain ⟨hbuilds, hfails⟩ := ih n { lsa with bytes := lsa.bytes +
        (Attr.plain attr.type attr.sign attr.key attr.data).totalSize } dst₁ _ (by omega) (by omega)
        hr hs₁ (mem_seen_cons hseen hp₁ rfl)
      rw [admitRecords_fresh hmem, Attr.admit, if_pos rfl]
      constructor
      · intro hj
        obtain ⟨dst', hrun', hs', hp'⟩ := hbuilds ((joins_cons hp₁ rfl).mp hj).2
        refine ⟨dst', ?_, hs', hp'.trans ((hp₁.append_right _).trans List.perm_middle.symm)⟩
        rw [hrun₁, hrun']
        simp [attrsSize, Nat.add_assoc]
      · intro hj
        obtain ⟨e, hrun'⟩ := hfails fun hj₁ =>
          hj ((joins_cons hp₁ rfl).mpr ⟨attrsUnique_children_plain, hj₁⟩)
        exact ⟨e, by rw [hrun₁, hrun']⟩

/-! ## The whole message -/

theorem messageBody_le (h : messageBody buf = some (n, id, body)) : n ≤ SSIZE_MAX := by
  unfold messageBody at h
  cases hread : srcReadSizeT buf with
  | error e => simp [hread] at h
  | ok r =>
    obtain ⟨len, rest⟩ := r
    rw [hread] at h
    dsimp only at h
    split_ifs at h with hbad
    simp only [Option.some.injEq, Prod.mk.injEq] at h
    obtain ⟨rfl, -, -⟩ := h
    omega

/-- The parser over the body of a message. -/
theorem message_comes (h : messageBody buf = some (n, id, body)) :
    Comes body.length (lsaAlloc id) [] body 8 (messageAdmitted buf) ∧
      AttrsFit (messageAdmitted buf).1 := by
  have hle := messageBody_le h
  have hlen := (messageBody_length h).1
  have hmax : SSIZE_MAX + 256 ≤ SIZE_MAX := by decide
  have hrec := messageRecords_records h
  have hwire := hrec.length_attrsWire
  refine ⟨?_, attrsFit_admitRecords _ [] (attrsFit_of_wire (by omega)) fun a _ =>
    everywhere_admit a⟩
  exact hrec.outcome body.length (lsaAlloc id) [] [] le_rfl (by omega) rfl Avl.sorted_nil
    fun p => Iff.rfl

/-- **What `lsa_deserialise` hands out** is built from the records of the message. -/
theorem lsaDeserialise_built {ret : Int} {obj : LsaObj}
    (h : lsaDeserialise buf = .ok (ret, some obj)) :
    ∃ id l, obj = builtLsa id l ∧ AttrsUnique l ∧ AttrsFit l := by
  cases hbody : messageBody buf with
  | none =>
    obtain ⟨ret', hrun, -⟩ := lsaDeserialise_none hbody
    rw [hrun] at h
    cases h
  | some m =>
    obtain ⟨n, id, body⟩ := m
    obtain ⟨⟨hbuilds, hfails⟩, hfit⟩ := message_comes hbody
    rw [lsaDeserialise_some hbody] at h
    by_cases hu : AttrsUnique (messageAdmitted buf).1
    · obtain ⟨root, hrun, hs, hp⟩ := hbuilds hu
      obtain rfl := eq_arrange hs hp
      rw [hrun, ok_bind] at h
      dsimp only at h
      split_ifs at h
      · obtain ⟨x, -, h⟩ := bind_eq_ok.mp h
        cases h
      · obtain ⟨-, hobj⟩ := Prod.mk.inj (Except.ok.inj h)
        exact ⟨id, _, (Option.some.inj hobj).symm, hu, hfit⟩
    · obtain ⟨e, hrun⟩ := hfails hu
      rw [hrun] at h
      cases h

end Dvpn
