import Dvpn.Basic

/-!
# Integers on the wire

* The writer: `struct dst` (`lsa_serialise.c:27-54`) is read as the bytes appended so far, whose
  number is `dst->off`; the buffer holds the first `dstlen` of them. `dst_append_int`
  (`lsa_serialise.c:56-77`) writes seven bits per byte, highest first, without leading zero
  groups: `intBytes`.
* The reader: `struct src` (`lsa_deserialise.c:28-71`) is read as the bytes that are left. Its
  macros jump to `short_read` or to `error` (`ReadErr`).

Results:
* `srcReadUint64_intBytes`: what the writer wrote is read back, whatever follows it.
* `srcReadUint64_short`: a proper prefix of what the writer wrote is a short read.
* `srcReadUint64_ok`: a successful read consumes at least one byte, and no fewer bytes than the
  writer would write for the value read; `length_intBytes_mono`.
-/

namespace Dvpn

/-! ## The writer -/

/-- `dst_append` (`lsa_serialise.c:33-54`). -/
def dstAppend (dst buf : Bytes) : Except Crash Bytes :=
  if buf.length > SIZE_MAX - dst.length then .error .dstAppend else .ok (dst ++ buf)

/-- The bytes `dst_append_int` appends for a `uint64_t`. -/
def intBytes (value : Nat) : Bytes :=
  let val : Bytes := [
    UInt8.ofNat (0x80 ||| ((value >>> 63) &&& 0x1)),
    UInt8.ofNat (0x80 ||| ((value >>> 56) &&& 0x7f)),
    UInt8.ofNat (0x80 ||| ((value >>> 49) &&& 0x7f)),
    UInt8.ofNat (0x80 ||| ((value >>> 42) &&& 0x7f)),
    UInt8.ofNat (0x80 ||| ((value >>> 35) &&& 0x7f)),
    UInt8.ofNat (0x80 ||| ((value >>> 28) &&& 0x7f)),
    UInt8.ofNat (0x80 ||| ((value >>> 21) &&& 0x7f)),
    UInt8.ofNat (0x80 ||| ((value >>> 14) &&& 0x7f)),
    UInt8.ofNat (0x80 ||| ((value >>> 7) &&& 0x7f)),
    UInt8.ofNat (value &&& 0x7f)]
  val.dropWhile (· == 0x80)

/-- `dst_append_int` (`lsa_serialise.c:56-77`). -/
def dstAppendInt (dst : Bytes) (value : Nat) : Except Crash Bytes := dstAppend dst (intBytes value)

/-! ## The reader -/

/-- The two labels the reading macros jump to. -/
inductive ReadErr where
  | shortRead
  | error
  deriving DecidableEq, Repr

/-- The loop of `SRC_READ_UINT64_T`, with `cnt` and `v` as its body finds them. -/
def srcReadUint64More : Nat → Nat → Bytes → Except ReadErr (Nat × Bytes)
  | cnt, _, [] => if cnt + 1 = 10 then .error .error else .error .shortRead
  | cnt, v, val :: src =>
    if cnt + 1 = 10 then .error .error
    else
      let v := ((v <<< 7) ||| (val.toNat &&& 0x7f)) % 2 ^ 64
      if val.toNat &&& 0x80 ≠ 0 then srcReadUint64More (cnt + 1) v src else .ok (v, src)

/-- `SRC_READ_UINT64_T` (`lsa_deserialise.c:51-71`). -/
def srcReadUint64 : Bytes → Except ReadErr (Nat × Bytes)
  | [] => .error .shortRead
  | val :: src =>
    if val = 0x80 then .error .error
    else
      let v := val.toNat &&& 0x7f
      if val.toNat &&& 0x80 ≠ 0 then srcReadUint64More 0 v src else .ok (v, src)

/-- `SRC_READ_INT` (`lsa_deserialise.c:73-82`). -/
def srcReadInt (src : Bytes) : Except ReadErr (Nat × Bytes) := do
  let (v, src) ← srcReadUint64 src
  if v > INT_MAX then .error .error else .ok (v, src)

/-- `SRC_READ_SIZE_T` (`lsa_deserialise.c:84-93`). -/
def srcReadSizeT (src : Bytes) : Except ReadErr (Nat × Bytes) := do
  let (v, src) ← srcReadUint64 src
  if v > SIZE_MAX then .error .error else .ok (v, src)

/-- `SRC_GET_PTR` (`lsa_deserialise.c:34-41`). -/
def srcGetPtr (src : Bytes) (buflen : Nat) : Except ReadErr (Bytes × Bytes) :=
  if src.length < buflen then .error .shortRead else .ok (src.take buflen, src.drop buflen)

/-! ## Groups of seven bits -/

/-- The groups of seven bits of `v` above the lowest one, up to the `k`-th, highest first. -/
def groups (v : Nat) : Nat → List Nat
  | 0 => []
  | k + 1 => v / 128 ^ (k + 1) % 128 :: groups v k

/-- A byte with the continuation bit. -/
def contByte (d : Nat) : UInt8 := UInt8.ofNat (0x80 ||| d)

/-- The reader's accumulator after a group. -/
def pushGroup (v d : Nat) : Nat := ((v <<< 7) ||| d) % 2 ^ 64

theorem contByte_spec : ∀ d : Fin 128, ((contByte d).toNat &&& 0x80 ≠ 0) ∧
    (contByte d).toNat &&& 0x7f = d.1 ∧ (contByte d = 0x80 ↔ d.1 = 0) := by
  decide +kernel

theorem lastByte_spec : ∀ d : Fin 128, ((UInt8.ofNat d.1).toNat &&& 0x80 = 0) ∧
    (UInt8.ofNat d.1).toNat &&& 0x7f = d.1 ∧ UInt8.ofNat d.1 ≠ 0x80 := by
  decide +kernel

theorem pushGroup_eq {v d : Nat} (hd : d < 128) : pushGroup v d = (v * 128 + d) % 2 ^ 64 := by
  unfold pushGroup
  rw [Nat.shiftLeft_eq, Nat.mul_comm v, ← Nat.two_pow_add_eq_or_of_lt (i := 7) hd]

theorem groups_lt (v : Nat) : ∀ k, ∀ d ∈ groups v k, d < 128
  | 0, _, h => absurd h List.not_mem_nil
  | k + 1, d, h => by
    rcases List.mem_cons.mp h with rfl | h
    · exact Nat.mod_lt _ (by omega)
    · exact groups_lt v k d h

theorem groups_length (v : Nat) : ∀ k, (groups v k).length = k
  | 0 => rfl
  | k + 1 => by simp [groups, groups_length v k]

private theorem mod_mul_add_mod (a b c m : Nat) : (a % m * b + c) % m = (a * b + c) % m := by
  rw [Nat.add_mod, Nat.mod_mul_mod, ← Nat.add_mod]

/-- Pushing the groups of `v` and its lowest group appends them to the accumulator. -/
theorem foldl_groups (v : Nat) : ∀ k acc,
    pushGroup ((groups v k).foldl pushGroup acc) (v % 128) =
      (acc * 128 ^ (k + 1) + v % 128 ^ (k + 1)) % 2 ^ 64
  | 0, acc => by
    simp only [groups, List.foldl_nil]
    rw [pushGroup_eq (Nat.mod_lt _ (by omega))]
    simp
  | k + 1, acc => by
    have hd : v / 128 ^ (k + 1) % 128 < 128 := Nat.mod_lt _ (by omega)
    simp only [groups, List.foldl_cons]
    have hsplit : v % 128 ^ (k + 1 + 1) =
        v % 128 ^ (k + 1) + 128 ^ (k + 1) * (v / 128 ^ (k + 1) % 128) := Nat.mod_pow_succ
    rw [foldl_groups v k, pushGroup_eq hd, hsplit, mod_mul_add_mod]
    congr 1
    ring

theorem foldl_dropWhile_zero (l : List Nat) :
    (l.dropWhile (· == 0)).foldl pushGroup 0 = l.foldl pushGroup 0 := by
  induction l with
  | nil => rfl
  | cons d l ih =>
    by_cases hd : d = 0
    · subst hd
      simpa [pushGroup] using ih
    · simp [hd]

/-- A value below `128 ^ n` has at most `n - 1` groups above the lowest that are written. -/
theorem groups_dropWhile_length {v n : Nat} (hv : v < 128 ^ n) :
    ∀ k, ((groups v k).dropWhile (· == 0)).length ≤ n - 1
  | 0 => by simp [groups]
  | k + 1 => by
    by_cases hk : n ≤ k + 1
    · have hlt : v < 128 ^ (k + 1) := lt_of_lt_of_le hv (Nat.pow_le_pow_right (by omega) hk)
      simpa [groups, Nat.div_eq_of_lt hlt] using groups_dropWhile_length hv k
    · have h := (List.dropWhile_sublist (l := groups v (k + 1)) (· == 0)).length_le
      rw [groups_length] at h
      omega

theorem dropWhile_contByte (v : Nat) (e : UInt8) (he : e ≠ 0x80) : ∀ k,
    ((groups v k).map contByte ++ [e]).dropWhile (· == 0x80) =
      ((groups v k).dropWhile (· == 0)).map contByte ++ [e]
  | 0 => by simp [groups, he]
  | k + 1 => by
    have hd : v / 128 ^ (k + 1) % 128 < 128 := Nat.mod_lt _ (by omega)
    have hz := (contByte_spec ⟨_, hd⟩).2.2
    by_cases h0 : v / 128 ^ (k + 1) % 128 = 0
    · have hc := hz.mpr h0
      simp only [groups, List.map_cons, List.cons_append]
      rw [List.dropWhile_cons_of_pos (by simp [hc]), List.dropWhile_cons_of_pos (by simp [h0])]
      exact dropWhile_contByte v e he k
    · have hc : contByte (v / 128 ^ (k + 1) % 128) ≠ 0x80 := fun h => h0 (hz.mp h)
      simp only [groups, List.map_cons, List.cons_append]
      rw [List.dropWhile_cons_of_neg (by simp [hc]), List.dropWhile_cons_of_neg (by simp [h0])]
      rfl

/-- The groups the writer writes before the lowest one. -/
def topGroups (v : Nat) : List Nat := (groups v 9).dropWhile (· == 0)

theorem intBytes_eq {v : Nat} (hv : v < 2 ^ 64) :
    intBytes v = (topGroups v).map contByte ++ [UInt8.ofNat (v % 128)] := by
  have h7 : ∀ x, x &&& 127 = x % 128 := fun x => Nat.and_two_pow_sub_one_eq_mod x 7
  -- the topmost group has one bit
  have h1 : (v >>> 63) &&& 1 = (v >>> 63) &&& 127 := by
    have := Nat.and_two_pow_sub_one_eq_mod (v >>> 63) 1
    rw [h7, show (1 : Nat) = 2 ^ 1 - 1 from rfl, this, Nat.shiftRight_eq_div_pow]
    omega
  have hval : intBytes v =
      ((groups v 9).map contByte ++ [UInt8.ofNat (v % 128)]).dropWhile (· == 0x80) := by
    unfold intBytes
    rw [h1]
    simp only [groups, contByte, List.map_cons, List.map_nil, List.cons_append, List.nil_append,
      h7, Nat.shiftRight_eq_div_pow]
    norm_num
  rw [hval]
  exact dropWhile_contByte v _ (lastByte_spec ⟨v % 128, Nat.mod_lt _ (by omega)⟩).2.2 9

theorem topGroups_lt {v d : Nat} (h : d ∈ topGroups v) : d < 128 :=
  groups_lt v 9 d ((List.dropWhile_sublist _).subset h)

theorem topGroups_length (v : Nat) : (topGroups v).length ≤ 9 := by
  have h := (List.dropWhile_sublist (l := groups v 9) (· == 0)).length_le
  rwa [groups_length] at h

theorem topGroups_head {v d : Nat} {ds : List Nat} (h : topGroups v = d :: ds) : d ≠ 0 := by
  intro hd
  have hh := List.head?_dropWhile_not (· == 0) (groups v 9)
  unfold topGroups at h
  rw [h] at hh
  simp [hd] at hh

theorem foldl_topGroups {v : Nat} (hv : v < 2 ^ 64) :
    pushGroup ((topGroups v).foldl pushGroup 0) (v % 128) = v := by
  unfold topGroups
  rw [foldl_dropWhile_zero, foldl_groups]
  omega

theorem length_intBytes {v : Nat} (hv : v < 2 ^ 64) :
    (intBytes v).length = (topGroups v).length + 1 := by
  rw [intBytes_eq hv, List.length_append, List.length_map, List.length_singleton]

/-- The last byte has no continuation bit, so it is not dropped. -/
theorem length_intBytes_pos (v : Nat) : 1 ≤ (intBytes v).length := by
  refine List.length_pos_iff.mpr fun h => ?_
  have hall := List.dropWhile_eq_nil_iff.mp h
  have hlast := (lastByte_spec ⟨v &&& 0x7f, Nat.and_lt_two_pow v (n := 7) (by omega)⟩).2.2
  exact hlast (by simpa using hall (UInt8.ofNat (v &&& 0x7f)) (by simp))

theorem length_intBytes_le (v : Nat) : (intBytes v).length ≤ 10 :=
  (List.dropWhile_sublist _).length_le

/-! ## Reading back -/

theorem more_groups {rest : Bytes} {e : Nat} (he : e < 128) : ∀ (ds : List Nat) (cnt acc : Nat),
    (∀ d ∈ ds, d < 128) → cnt + ds.length + 1 < 10 →
    srcReadUint64More cnt acc (ds.map contByte ++ UInt8.ofNat e :: rest) =
      .ok (pushGroup (ds.foldl pushGroup acc) e, rest)
  | [], cnt, acc, _, hc => by
    obtain ⟨h1, h2, _⟩ := lastByte_spec ⟨e, he⟩
    simp only [List.length_nil] at hc
    simp only [List.map_nil, List.nil_append, srcReadUint64More, List.foldl_nil, h1, h2, pushGroup]
    rw [if_neg (by omega)]
    simp
  | d :: ds, cnt, acc, hd, hc => by
    obtain ⟨h1, h2, _⟩ := contByte_spec ⟨d, hd d List.mem_cons_self⟩
    simp only [List.length_cons] at hc
    simp only [List.map_cons, List.cons_append, srcReadUint64More, List.foldl_cons]
    rw [if_neg (by omega), if_pos h1, h2]
    exact more_groups he ds (cnt + 1) _ (fun d h => hd d (List.mem_cons_of_mem _ h)) (by omega)

/-- **What the writer wrote is read back.** -/
theorem srcReadUint64_intBytes {v : Nat} (hv : v < 2 ^ 64) (rest : Bytes) :
    srcReadUint64 (intBytes v ++ rest) = .ok (v, rest) := by
  have he : v % 128 < 128 := Nat.mod_lt _ (by omega)
  have hfold := foldl_topGroups hv
  have hlen := topGroups_length v
  rw [intBytes_eq hv, List.append_assoc, List.singleton_append]
  cases htop : topGroups v with
  | nil =>
    obtain ⟨h1, h2, h3⟩ := lastByte_spec ⟨v % 128, he⟩
    rw [htop] at hfold
    simp only [List.foldl_nil, pushGroup_eq he, Nat.zero_mul, Nat.zero_add] at hfold
    simp only [List.map_nil, List.nil_append, srcReadUint64, h1, h2]
    rw [if_neg h3]
    simp only [ne_eq, not_true_eq_false, if_false, Except.ok.injEq, Prod.mk.injEq, and_true]
    omega
  | cons d ds =>
    have hd : d < 128 := topGroups_lt (htop ▸ List.mem_cons_self)
    obtain ⟨h1, h2, h3⟩ := contByte_spec ⟨d, hd⟩
    have hds : ∀ x ∈ ds, x < 128 := fun x hx =>
      topGroups_lt (htop ▸ List.mem_cons_of_mem d hx)
    have hpush : pushGroup 0 d = d := by
      rw [pushGroup_eq hd]
      omega
    rw [htop] at hfold hlen
    simp only [List.foldl_cons, List.length_cons, hpush] at hfold hlen
    simp only [List.map_cons, List.cons_append, srcReadUint64]
    rw [if_neg (fun h => topGroups_head htop (h3.mp h)), if_pos h1, h2,
      more_groups he ds 0 d hds (by omega), hfold]

theorem more_short : ∀ (ds : List Nat) (cnt acc : Nat), (∀ d ∈ ds, d < 128) →
    cnt + ds.length + 1 < 10 → srcReadUint64More cnt acc (ds.map contByte) = .error .shortRead
  | [], cnt, acc, _, hc => by
    simp only [List.length_nil] at hc
    simp only [List.map_nil, srcReadUint64More]
    rw [if_neg (by omega)]
  | d :: ds, cnt, acc, hd, hc => by
    obtain ⟨h1, _, _⟩ := contByte_spec ⟨d, hd d List.mem_cons_self⟩
    simp only [List.length_cons] at hc
    simp only [List.map_cons, srcReadUint64More]
    rw [if_neg (by omega), if_pos h1]
    exact more_short ds (cnt + 1) _ (fun d h => hd d (List.mem_cons_of_mem _ h)) (by omega)

/-- **A proper prefix of what the writer wrote is a short read.** -/
theorem srcReadUint64_short {v : Nat} (hv : v < 2 ^ 64) {p : Bytes} (hp : p <+: intBytes v)
    (hne : p ≠ intBytes v) : srcReadUint64 p = .error .shortRead := by
  rw [intBytes_eq hv] at hp hne
  have hp' : p <+: (topGroups v).map contByte := (List.prefix_concat_iff.mp hp).resolve_left hne
  obtain ⟨n, rfl⟩ : ∃ n, p = ((topGroups v).take n).map contByte :=
    ⟨p.length, by rw [List.map_take]; exact List.prefix_iff_eq_take.mp hp'⟩
  have hsub : ∀ d ∈ (topGroups v).take n, d < 128 := fun d hd =>
    topGroups_lt (List.mem_of_mem_take hd)
  have hlen : ((topGroups v).take n).length ≤ 9 :=
    (List.length_take_le' n _).trans (topGroups_length v)
  cases htop : (topGroups v).take n with
  | nil => rfl
  | cons d ds =>
    rw [htop] at hsub hlen
    have hd0 : d ≠ 0 := by
      cases hv' : topGroups v with
      | nil => simp [hv'] at htop
      | cons d' ds' =>
        cases n with
        | zero => simp at htop
        | succ n =>
          rw [hv', List.take_succ_cons] at htop
          obtain ⟨rfl, _⟩ := List.cons.inj htop
          exact topGroups_head hv'
    obtain ⟨h1, _, h3⟩ := contByte_spec ⟨d, hsub d List.mem_cons_self⟩
    simp only [List.length_cons] at hlen
    simp only [List.map_cons, srcReadUint64]
    rw [if_neg (fun h => hd0 (h3.mp h)), if_pos h1]
    exact more_short ds 0 _ (fun d h => hsub d (List.mem_cons_of_mem _ h)) (by omega)

/-! ## What a successful read consumes -/

private theorem and127_lt (x : Nat) : x &&& 0x7f < 128 := by
  have : x &&& 0x7f = x % 128 := Nat.and_two_pow_sub_one_eq_mod x 7
  omega

theorem more_ok {v : Nat} {rest : Bytes} : ∀ {src : Bytes} {cnt acc : Nat},
    srcReadUint64More cnt acc src = .ok (v, rest) →
    ∃ c, src = c ++ rest ∧ 1 ≤ c.length ∧ v < (acc + 1) * 128 ^ c.length ∧ v < 2 ^ 64
  | [], cnt, acc, h => by
    simp only [srcReadUint64More] at h
    split_ifs at h
  | b :: src, cnt, acc, h => by
    simp only [srcReadUint64More] at h
    have hb := and127_lt b.toNat
    have hpush : ((acc <<< 7) ||| (b.toNat &&& 0x7f)) % 2 ^ 64 < (acc + 1) * 128 := by
      have h1 := pushGroup_eq (v := acc) hb
      unfold pushGroup at h1
      have h2 := Nat.mod_le (acc * 128 + (b.toNat &&& 0x7f)) (2 ^ 64)
      omega
    split_ifs at h with h0 h1
    · obtain ⟨c, rfl, _, hlt, hv⟩ := more_ok h
      refine ⟨b :: c, rfl, by simp, ?_, hv⟩
      calc v < _ := hlt
        _ ≤ (acc + 1) * 128 * 128 ^ c.length := Nat.mul_le_mul_right _ hpush
        _ = (acc + 1) * 128 ^ (b :: c).length := by
          rw [List.length_cons, Nat.pow_succ]
          ring
    · obtain ⟨rfl, rfl⟩ := Prod.mk.inj (Except.ok.inj h)
      exact ⟨[b], rfl, by simp, by simpa using hpush, Nat.mod_lt _ (by omega)⟩

/-- A value below `128 ^ n` is written in at most `n` bytes. -/
theorem length_intBytes_le_of_lt {v n : Nat} (hn : 1 ≤ n) (hv : v < 128 ^ n) (h64 : v < 2 ^ 64) :
    (intBytes v).length ≤ n := by
  have := groups_dropWhile_length hv 9
  rw [length_intBytes h64]
  unfold topGroups
  omega

theorem srcReadUint64_consumes {src rest : Bytes} {v : Nat}
    (h : srcReadUint64 src = .ok (v, rest)) :
    ∃ c, src = c ++ rest ∧ 1 ≤ c.length ∧ v < 128 ^ c.length ∧ v < 2 ^ 64 := by
  cases src with
  | nil => simp [srcReadUint64] at h
  | cons b src =>
    have hb := and127_lt b.toNat
    simp only [srcReadUint64] at h
    split_ifs at h with h0 h1
    · obtain ⟨c, rfl, hc1, hlt, hv⟩ := more_ok h
      have hlt' : v < 128 ^ (c.length + 1) := by
        calc v < _ := hlt
          _ ≤ 128 * 128 ^ c.length := Nat.mul_le_mul_right _ (by omega)
          _ = 128 ^ (c.length + 1) := by rw [Nat.pow_succ]; ring
      exact ⟨b :: c, rfl, by simp, by simpa using hlt', hv⟩
    · obtain ⟨rfl, rfl⟩ := Prod.mk.inj (Except.ok.inj h)
      exact ⟨[b], rfl, by simp, by simpa using hb, by omega⟩

/-- **What a successful read consumes**: at least one byte, and at least as many bytes as the
writer would write for the value. -/
theorem srcReadUint64_ok {src rest : Bytes} {v : Nat} (h : srcReadUint64 src = .ok (v, rest)) :
    ∃ c, src = c ++ rest ∧ 1 ≤ c.length ∧ (intBytes v).length ≤ c.length ∧ v < 2 ^ 64 := by
  obtain ⟨c, hsrc, hc, hv, h64⟩ := srcReadUint64_consumes h
  exact ⟨c, hsrc, hc, length_intBytes_le_of_lt hc hv h64, h64⟩

/-- A larger value takes no fewer bytes. -/
theorem length_intBytes_mono {v w : Nat} (h : v ≤ w) (hw : w < 2 ^ 64) :
    (intBytes v).length ≤ (intBytes w).length := by
  obtain ⟨c, hc, h1, hlt, _⟩ := srcReadUint64_consumes (srcReadUint64_intBytes hw [])
  rw [List.append_nil, List.append_nil] at hc
  rw [hc]
  exact length_intBytes_le_of_lt h1 (lt_of_le_of_lt h hlt) (lt_of_le_of_lt h hw)

theorem srcReadInt_ok {src rest : Bytes} {v : Nat} (h : srcReadInt src = .ok (v, rest)) :
    srcReadUint64 src = .ok (v, rest) ∧ v ≤ INT_MAX := by
  unfold srcReadInt at h
  obtain ⟨⟨v', src'⟩, h1, h2⟩ := bind_eq_ok.mp h
  simp only at h2
  split_ifs at h2 with hv
  obtain ⟨rfl, rfl⟩ := Prod.mk.inj (Except.ok.inj h2)
  exact ⟨h1, by omega⟩

theorem srcReadSizeT_eq (src : Bytes) : srcReadSizeT src = srcReadUint64 src := by
  unfold srcReadSizeT
  cases h : srcReadUint64 src with
  | error e => rfl
  | ok r =>
    obtain ⟨v, rest⟩ := r
    obtain ⟨c, _, _, _, hv⟩ := srcReadUint64_ok h
    simp only [ok_bind]
    rw [if_neg (by unfold SIZE_MAX; omega)]

theorem srcReadInt_eq {src rest : Bytes} {v : Nat} (h : srcReadUint64 src = .ok (v, rest))
    (hv : v ≤ INT_MAX) : srcReadInt src = .ok (v, rest) := by
  unfold srcReadInt
  rw [h]
  simp only [ok_bind]
  rw [if_neg (by omega)]

theorem srcGetPtr_append {a b : Bytes} {n : Nat} (h : a.length = n) :
    srcGetPtr (a ++ b) n = .ok (a, b) := by
  subst h
  unfold srcGetPtr
  rw [if_neg (by simp), List.take_left, List.drop_left]

theorem srcGetPtr_ok {src a rest : Bytes} {n : Nat} (h : srcGetPtr src n = .ok (a, rest)) :
    src = a ++ rest ∧ a.length = n := by
  unfold srcGetPtr at h
  split_ifs at h with hn
  obtain ⟨rfl, rfl⟩ := Prod.mk.inj (Except.ok.inj h)
  exact ⟨(List.take_append_drop n src).symm, by rw [List.length_take]; omega⟩

end Dvpn
