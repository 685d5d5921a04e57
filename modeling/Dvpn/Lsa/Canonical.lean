import Dvpn.Lsa.Wire

/-!
# One encoding for each integer (`lsa_serialise.c:56-77`, `lsa_deserialise.c:51-93`)

What `SRC_READ_UINT64_T` accepts, as its groups of seven bits (`srcReadUint64_groups`), and which of
it `dst_append_int` would have written. Ten groups have 70 bits: the reader counts the groups but
does not look at what it shifts out of its accumulator, so ten groups of which the first is above 1
are read as if they were not.

* `groups_value`: the groups of a number that is given by its groups.
* `one_encoding_iff`: what is read is what would be written for it iff no bits were lost.
-/

namespace Dvpn

/-! ## Numbers from their groups -/

section Groups

variable {ds : List Nat} {e k : Nat}

/-- The number with the groups `ds`, without wrapping. -/
def groupsValue (ds : List Nat) : Nat := ds.foldl (fun v d => v * 128 + d) 0

theorem groupsValue_snoc (ds : List Nat) (d : Nat) :
    groupsValue (ds ++ [d]) = groupsValue ds * 128 + d := by
  unfold groupsValue
  rw [List.foldl_append, List.foldl_cons, List.foldl_nil]

theorem groupsValue_lt (h : ∀ d ∈ ds, d < 128) : groupsValue ds < 128 ^ ds.length := by
  induction ds using List.reverseRecOn with
  | nil => exact Nat.one_pos
  | append_singleton ds d ih =>
    have hd := h d (List.mem_append_right _ (List.mem_singleton.mpr rfl))
    have hds := ih fun x hx => h x (List.mem_append_left _ hx)
    rw [groupsValue_snoc, List.length_append, List.length_singleton, Nat.pow_succ]
    omega

theorem groupsValue_cons (d : Nat) (ds : List Nat) :
    groupsValue (d :: ds) = d * 128 ^ ds.length + groupsValue ds := by
  induction ds using List.reverseRecOn with
  | nil => simp [groupsValue]
  | append_singleton ds x ih =>
    rw [← List.cons_append, groupsValue_snoc, ih, groupsValue_snoc, List.length_append,
      List.length_singleton, Nat.pow_succ]
    ring

/-- The lowest of the groups, taken out. -/
theorem groups_snoc (v : Nat) : ∀ k, groups v (k + 1) = groups (v / 128) k ++ [v / 128 % 128]
  | 0 => by simp [groups]
  | k + 1 => by
    have hdiv : v / 128 ^ (k + 1 + 1) = v / 128 / 128 ^ (k + 1) := by
      rw [Nat.div_div_eq_div_mul, ← Nat.pow_succ']
    rw [groups, groups_snoc v k, groups, hdiv, List.cons_append]

/-- **The groups of a number** that is given by its groups, with zeros for those above. -/
theorem groups_value (hds : ∀ d ∈ ds, d < 128) (he : e < 128) (hk : ds.length ≤ k) :
    groups (groupsValue ds * 128 + e) k = List.replicate (k - ds.length) 0 ++ ds := by
  induction k generalizing ds e with
  | zero =>
    obtain rfl := List.length_eq_zero_iff.mp (Nat.le_zero.mp hk)
    rfl
  | succ k ih =>
    have hdiv : (groupsValue ds * 128 + e) / 128 = groupsValue ds := by omega
    rw [groups_snoc, hdiv]
    cases ds using List.reverseRecOn with
    | nil =>
      have hzero := @ih [] 0 (fun d hd => absurd hd List.not_mem_nil)
        (by decide) k.zero_le
      have hval : groupsValue [] = 0 := rfl
      rw [hval, Nat.zero_mul, Nat.zero_add] at hzero
      rw [hval, hzero, List.append_nil, List.append_nil, List.length_nil, Nat.sub_zero,
        Nat.sub_zero, List.replicate_succ']
    | append_singleton ds d _ =>
      have hd := hds d (List.mem_append_right _ (List.mem_singleton.mpr rfl))
      rw [List.length_append, List.length_singleton] at hk ⊢
      have hmod : (groupsValue ds * 128 + d) % 128 = d := by omega
      rw [groupsValue_snoc, ih (fun x hx => hds x (List.mem_append_left _ hx)) hd (by omega), hmod,
        Nat.add_sub_add_right, List.append_assoc]

/-- The groups are those that the writer writes when the first of them is not zero. -/
theorem topGroups_value (hds : ∀ d ∈ ds, d < 128) (he : e < 128) (hlen : ds.length ≤ 9)
    (hhead : ds.head? ≠ some 0) : topGroups (groupsValue ds * 128 + e) = ds := by
  unfold topGroups
  rw [groups_value hds he hlen]
  have hzeros : ∀ n, (List.replicate n 0 ++ ds).dropWhile (· == 0) = ds.dropWhile (· == 0) := by
    intro n
    induction n with
    | zero => rfl
    | succ n ih => rw [List.replicate_succ, List.cons_append, List.dropWhile_cons_of_pos rfl, ih]
  rw [hzeros]
  cases ds with
  | nil => rfl
  | cons d ds =>
    have hd : d ≠ 0 := fun h => hhead (congrArg some h)
    exact List.dropWhile_cons_of_neg (by simpa using hd)

/-- The reader's accumulator holds the number modulo `2 ^ 64`. -/
theorem foldl_pushGroup (hds : ∀ d ∈ ds, d < 128) :
    ds.foldl pushGroup 0 = groupsValue ds % 2 ^ 64 := by
  induction ds using List.reverseRecOn with
  | nil => rfl
  | append_singleton ds d ih =>
    have hd := hds d (List.mem_append_right _ (List.mem_singleton.mpr rfl))
    rw [List.foldl_append, List.foldl_cons, List.foldl_nil,
      ih fun x hx => hds x (List.mem_append_left _ hx), pushGroup_eq hd, groupsValue_snoc]
    omega

end Groups

/-! ## What the reader accepts -/

theorem byte_groups : ∀ n : Fin 256,
    (n.1 &&& 0x80 ≠ 0 → UInt8.ofNat n.1 = contByte (n.1 &&& 0x7f)) ∧
    (n.1 &&& 0x80 = 0 → UInt8.ofNat n.1 = UInt8.ofNat (n.1 &&& 0x7f)) := by
  decide +kernel

theorem eq_contByte {b : UInt8} (h : b.toNat &&& 0x80 ≠ 0) : b = contByte (b.toNat &&& 0x7f) := by
  have hb := (byte_groups ⟨b.toNat, b.toNat_lt⟩).1 h
  rwa [UInt8.ofNat_toNat] at hb

theorem eq_lastByte {b : UInt8} (h : ¬ b.toNat &&& 0x80 ≠ 0) :
    b = UInt8.ofNat (b.toNat &&& 0x7f) := by
  have hb := (byte_groups ⟨b.toNat, b.toNat_lt⟩).2 (not_not.mp h)
  rwa [UInt8.ofNat_toNat] at hb

theorem group_lt (b : UInt8) : b.toNat &&& 0x7f < 128 :=
  lt_of_le_of_lt Nat.and_le_right (by decide)

/-- The groups that the loop reads. -/
theorem more_accepts {v : Nat} {rest : Bytes} : ∀ {src : Bytes} {cnt acc : Nat}, cnt ≤ 9 →
    srcReadUint64More cnt acc src = .ok (v, rest) →
    ∃ (ds : List Nat) (e : Nat), (∀ d ∈ ds, d < 128) ∧ e < 128 ∧ cnt + ds.length < 9 ∧
      src = ds.map contByte ++ UInt8.ofNat e :: rest ∧ v = pushGroup (ds.foldl pushGroup acc) e
  | [], cnt, acc, hc, h => by
    simp only [srcReadUint64More] at h
    split_ifs at h
  | b :: src, cnt, acc, hc, h => by
    simp only [srcReadUint64More] at h
    split_ifs at h with h0 h1
    · have hcnt : cnt + 1 ≤ 9 := by omega
      obtain ⟨ds, e, hds, he, hlen, rfl, rfl⟩ := more_accepts hcnt h
      have hall : ∀ d ∈ (b.toNat &&& 0x7f) :: ds, d < 128 :=
        List.forall_mem_cons.mpr ⟨group_lt b, hds⟩
      refine ⟨(b.toNat &&& 0x7f) :: ds, e, hall, he, ?_, ?_, rfl⟩
      · rw [List.length_cons]
        omega
      · rw [List.map_cons, List.cons_append, ← eq_contByte h1]
    · obtain ⟨rfl, rfl⟩ := Prod.mk.inj (Except.ok.inj h)
      refine ⟨[], b.toNat &&& 0x7f, fun d hd => absurd hd List.not_mem_nil, group_lt b, ?_, ?_, rfl⟩
      · rw [List.length_nil]
        omega
      · rw [List.map_nil, List.nil_append, ← eq_lastByte h1]

/-- **The groups that the reader accepts**: at most ten, and not a zero first of several. -/
theorem srcReadUint64_groups {v : Nat} {src rest : Bytes} (h : srcReadUint64 src = .ok (v, rest)) :
    ∃ (ds : List Nat) (e : Nat), (∀ d ∈ ds, d < 128) ∧ e < 128 ∧ ds.length ≤ 9 ∧ ds.head? ≠ some 0 ∧
      src = ds.map contByte ++ UInt8.ofNat e :: rest ∧
      v = (groupsValue ds * 128 + e) % 2 ^ 64 := by
  have hvalue : ∀ {ds : List Nat} {e : Nat}, (∀ d ∈ ds, d < 128) → e < 128 →
      pushGroup (ds.foldl pushGroup 0) e = (groupsValue ds * 128 + e) % 2 ^ 64 := by
    intro ds e hds he
    rw [foldl_pushGroup hds, pushGroup_eq he]
    omega
  cases src with
  | nil => simp [srcReadUint64] at h
  | cons b src =>
    simp only [srcReadUint64] at h
    split_ifs at h with h0 h1
    · obtain ⟨ds, e, hds, he, hlen, rfl, hv⟩ := more_accepts (by decide) h
      have hb := group_lt b
      have hpush : pushGroup 0 (b.toNat &&& 0x7f) = b.toNat &&& 0x7f := by
        rw [pushGroup_eq hb]
        omega
      have hall : ∀ d ∈ (b.toNat &&& 0x7f) :: ds, d < 128 := List.forall_mem_cons.mpr ⟨hb, hds⟩
      refine ⟨(b.toNat &&& 0x7f) :: ds, e, hall, he, ?_, ?_, ?_, ?_⟩
      · rw [List.length_cons]
        omega
      · intro hzero
        have hz : b.toNat &&& 0x7f = 0 := Option.some.inj hzero
        refine h0 ((eq_contByte h1).trans ?_)
        rw [hz]
        rfl
      · rw [List.map_cons, List.cons_append, ← eq_contByte h1]
      · rw [← hvalue hall he, List.foldl_cons, hpush, hv]
    · obtain ⟨rfl, rfl⟩ := Prod.mk.inj (Except.ok.inj h)
      have hb := group_lt b
      have hnone : ∀ d ∈ ([] : List Nat), d < 128 := fun d hd => absurd hd List.not_mem_nil
      refine ⟨[], b.toNat &&& 0x7f, hnone, hb, Nat.zero_le 9, by simp, ?_, ?_⟩
      · rw [List.map_nil, List.nil_append, ← eq_lastByte h1]
      · have hzero : groupsValue [] = 0 := rfl
        rw [hzero]
        omega

/-- Ten groups of which the first is above 1: a number that has no place in 64 bits. -/
def Overflowing (src : Bytes) : Prop :=
  ∃ b cs rest, src = b :: (cs ++ rest) ∧ 0x82 ≤ b ∧ cs.length = 8 ∧ ∀ c ∈ cs, 0x80 ≤ c

theorem contByte_ge : ∀ d : Fin 128, (0x80 : UInt8) ≤ contByte d.1 ∧
    ((0x82 : UInt8) ≤ contByte d.1 ↔ 2 ≤ d.1) ∧ ¬ (0x80 : UInt8) ≤ UInt8.ofNat d.1 := by
  decide +kernel

/-- The bytes of an overflowing number have the groups that make it overflow. -/
theorem overflowing_iff {ds : List Nat} {e : Nat} {rest : Bytes} (hds : ∀ d ∈ ds, d < 128)
    (he : e < 128) (hlen : ds.length ≤ 9) :
    Overflowing (ds.map contByte ++ UInt8.ofNat e :: rest) ↔
      ds.length = 9 ∧ ∃ d ds', ds = d :: ds' ∧ 2 ≤ d := by
  constructor
  · rintro ⟨b, cs, rest', hsrc, hb, hcs, hc⟩
    have hall : ∀ x ∈ b :: cs, (0x80 : UInt8) ≤ x :=
      List.forall_mem_cons.mpr ⟨le_trans (by decide) hb, hc⟩
    have h9 : ds.length = 9 := by
      by_contra hne
      have hlt : ds.length < (b :: cs).length := by
        rw [List.length_cons, hcs]
        omega
      have hget := congrArg (fun l : Bytes => l[ds.length]?) hsrc
      have hlast : (ds.map contByte ++ UInt8.ofNat e :: rest)[ds.length]? =
          some (UInt8.ofNat e) := by
        rw [List.getElem?_append_right (by rw [List.length_map]), List.length_map, Nat.sub_self]
        rfl
      simp only [hlast, ← List.cons_append] at hget
      rw [List.getElem?_append_left hlt] at hget
      exact (contByte_ge ⟨e, he⟩).2.2 (hall _ (List.mem_of_getElem? hget.symm))
    cases ds with
    | nil => exact absurd h9 (by decide)
    | cons d ds =>
      obtain ⟨rfl, -⟩ := List.cons.inj hsrc
      exact ⟨h9, d, ds, rfl, (contByte_ge ⟨d, hds d List.mem_cons_self⟩).2.1.mp hb⟩
  · rintro ⟨h9, d, ds', rfl, hd⟩
    refine ⟨contByte d, ds'.map contByte, UInt8.ofNat e :: rest, rfl, ?_, ?_, fun c hc => ?_⟩
    · exact (contByte_ge ⟨d, hds d List.mem_cons_self⟩).2.1.mpr hd
    · rw [List.length_map]
      simpa using h9
    · obtain ⟨x, hx, rfl⟩ := List.mem_map.mp hc
      exact (contByte_ge ⟨x, hds x (List.mem_cons_of_mem d hx)⟩).1

/-- A number is below `2 ^ 64` unless its groups overflow. -/
theorem groupsValue_fits {ds : List Nat} {e : Nat} (hds : ∀ d ∈ ds, d < 128) (he : e < 128)
    (hlen : ds.length ≤ 9) (h : ¬ (ds.length = 9 ∧ ∃ d ds', ds = d :: ds' ∧ 2 ≤ d)) :
    groupsValue ds * 128 + e < 2 ^ 64 := by
  by_cases h9 : ds.length = 9
  · cases ds with
    | nil => exact absurd h9 (by decide)
    | cons d ds =>
      have hd : ¬ 2 ≤ d := fun hd => h ⟨h9, d, ds, rfl, hd⟩
      have hrest := groupsValue_lt fun x hx => hds x (List.mem_cons_of_mem d hx)
      have h8 : ds.length = 8 := by simpa using h9
      rw [groupsValue_cons, h8]
      rw [h8] at hrest
      have hle : d * 128 ^ 8 ≤ 1 * 128 ^ 8 := Nat.mul_le_mul_right _ (by omega)
      omega
  · have hlt := groupsValue_lt hds
    have hpow : 128 ^ ds.length ≤ 128 ^ 8 := Nat.pow_le_pow_right (by decide) (by omega)
    omega

/-- The first of ten bytes that the writer writes. -/
theorem head_of_ten {v : Nat} {b : UInt8} {l : Bytes} (h : intBytes v = b :: l)
    (hlen : l.length = 9) : ¬ 0x82 ≤ b := by
  have hfull : ∀ {l l' : Bytes}, l.dropWhile (· == 0x80) = l' → l'.length = l.length → l = l' := by
    intro l l' hd hl
    exact (List.dropWhile_sublist _).eq_of_length (hd ▸ hl) |>.symm.trans hd
  have hval := hfull h (by rw [List.length_cons, hlen]; rfl)
  obtain ⟨rfl, -⟩ := List.cons.inj hval
  have hbit : (v >>> 63) &&& 1 < 2 := by
    rw [Nat.and_one_is_mod]
    omega
  interval_cases hv : (v >>> 63) &&& 1 <;> decide

/-- What `dst_append_int` writes into an empty buffer. -/
theorem dstAppendInt_nil (v : Nat) : dstAppendInt [] v = .ok (intBytes v) := by
  have hlen := length_intBytes_le v
  have hmax : ¬ (intBytes v).length > SIZE_MAX - 0 := by
    unfold SIZE_MAX
    omega
  exact if_neg hmax

/-- **One encoding for each integer.** What is written is at most ten bytes and is read back,
whatever follows it; and what is read is what would be written for it, exactly when it is not ten
groups with a first group above 1. -/
theorem one_encoding_iff (src : Bytes) :
    (∀ v < 2 ^ 64, ∃ c, dstAppendInt [] v = .ok c ∧ c.length ≤ 10 ∧
      ∀ rest, srcReadUint64 (c ++ rest) = .ok (v, rest)) ∧
    ∀ v rest, srcReadUint64 src = .ok (v, rest) →
      ((∃ c, dstAppendInt [] v = .ok c ∧ src = c ++ rest) ↔ ¬ Overflowing src) := by
  refine ⟨fun v hv => ⟨intBytes v, dstAppendInt_nil v, length_intBytes_le v,
    srcReadUint64_intBytes hv⟩, fun v rest h => ?_⟩
  obtain ⟨ds, e, hds, he, hlen, hhead, rfl, rfl⟩ := srcReadUint64_groups h
  have hlt : (groupsValue ds * 128 + e) % 2 ^ 64 < 2 ^ 64 := Nat.mod_lt _ (by decide)
  rw [overflowing_iff hds he hlen, dstAppendInt_nil]
  constructor
  · rintro ⟨c, hc, hsrc⟩ ⟨h9, d, ds', rfl, hd⟩
    obtain rfl := Except.ok.inj hc
    have hcut : (contByte d :: (ds'.map contByte ++ [UInt8.ofNat e])) ++ rest =
        intBytes ((groupsValue (d :: ds') * 128 + e) % 2 ^ 64) ++ rest := by
      rw [← hsrc, List.map_cons, List.cons_append, List.cons_append, List.append_assoc]
      rfl
    have hten := List.append_cancel_right hcut
    refine head_of_ten hten.symm ?_ ((contByte_ge ⟨d, hds d List.mem_cons_self⟩).2.1.mpr hd)
    rw [List.length_append, List.length_map, List.length_singleton]
    simpa using h9
  · intro hfits
    have hv := Nat.mod_eq_of_lt (groupsValue_fits hds he hlen hfits)
    refine ⟨_, rfl, ?_⟩
    have hmod : (groupsValue ds * 128 + e) % 128 = e := by omega
    rw [hv, intBytes_eq (hv ▸ hlt), topGroups_value hds he hlen hhead, hmod, List.append_assoc]
    rfl

/-- 300 in its two bytes. -/
theorem one_encoding_iff_300 : ∃ c, dstAppendInt [] 300 = .ok c ∧ [0x82, 0x2c] = c ++ [] := by
  refine ((one_encoding_iff [0x82, 0x2c]).2 300 [] rfl).mpr ?_
  rintro ⟨b, cs, rest, hsrc, -, hcs, -⟩
  have hlen := congrArg List.length hsrc
  simp only [List.length_cons, List.length_append, List.length_nil, hcs] at hlen
  omega

/-- Ten groups that are read as 0. -/
theorem ten_groups_lost : ∃ src v rest, srcReadUint64 src = .ok (v, rest) ∧
    ¬ ∃ c, dstAppendInt [] v = .ok c ∧ src = c ++ rest := by
  refine ⟨[0x82, 0x80, 0x80, 0x80, 0x80, 0x80, 0x80, 0x80, 0x80, 0x00], 0, [], rfl, ?_⟩
  rintro ⟨c, hc, hsrc⟩
  obtain rfl := Except.ok.inj hc
  exact absurd hsrc (by decide)

end Dvpn
