import Dvpn.Memory
import Dvpn.Digits
import Mathlib

/-!
# Fingerprints as text (`parse_base32_fingerprint` and `print_fingerprint` in `util.c`)

A key id is written as 52 characters of an alphabet of 32, five bits each, the low bits first. The
260 bits of the text are four more than an id has.

* An array is the memory from its pointer on, a string the characters up to its terminator and the
  terminator; what is read or written behind them is a `Crash`.
* `littleEndian` is the number that an id stands for. A group of five bits is read off it
  (`groupAt_spec`) and added to it (`storeGroup_spec`).
* `parseGroups_spec`, `parseBase32Fingerprint_spec`: the text is accepted when all its characters
  are letters, in either case, and then the number of the id is that of the text modulo `2 ^ 256`.
* `fingerprint_text`: the round trips.
-/

namespace Dvpn

open Digits

/-- The characters of a string, without its terminator. -/
def ascii (s : String) : Bytes := s.toList.map fun c => UInt8.ofNat c.toNat

/-- `base32idx`. -/
def base32idx : List Int :=
  [-1, 10, 11, 12, -1, 13, 14, 15, -1, 16, 17, 18, 19,
   20, -1, 21, 22, 23, 24, 25, 26, 27, 28, 29, 30, 31]

/-- `base32char`. -/
def base32char (c : UInt8) : Int :=
  if 48 ≤ c ∧ c ≤ 57 then 0 + (c - 48).toNat
  else if 65 ≤ c ∧ c ≤ 90 then base32idx.getD (c - 65).toNat (-1)
  else if 97 ≤ c ∧ c ≤ 122 then base32idx.getD (c - 97).toNat (-1)
  else -1

/-- The five bits `v` are put into the id at bit `j`. -/
def storeGroup (id : Bytes) (j v : Nat) : Except Crash Bytes := do
  let v := v <<< (j &&& 7)
  let byte := j >>> 3
  let id ← orByte id byte (v &&& 0xff)
  if v &&& 0xff00 ≠ 0 ∧ byte + 1 < NODE_ID_LEN then orByte id (byte + 1) (v >>> 8) else return id

/-- The loop of `parse_base32_fingerprint`, with `rounds` rounds to go. -/
def parseGroups (fp : Bytes) : (rounds i j : Nat) → Bytes → Except Crash (Bytes × Int)
  | 0, _, _, id => .ok (id, 0)
  | rounds + 1, i, j, id => do
    let v := base32char (← byteAt fp i)
    if v < 0 then return (id, -1)
    let id ← storeGroup id j v.toNat
    parseGroups fp rounds (i + 1) (j + 5) id

/-- `parse_base32_fingerprint`: the memory at `id` and the result. -/
def parseBase32Fingerprint (id fp : Bytes) : Except Crash (Bytes × Int) := do
  let id ← memset id 0 NODE_ID_LEN
  parseGroups fp 52 0 0 id

/-- `base32`. -/
def base32 : Bytes := ascii "0123456789bcdfghjklmnpqrstuvwxyz"

/-- `val` in `print_fingerprint`, before the shift. -/
def valAt (id : Bytes) (byte : Nat) : Except Crash Nat := do
  let val := (← byteAt id byte).toNat
  if byte + 1 < NODE_ID_LEN then return val ||| (← byteAt id (byte + 1)).toNat <<< 8
  else return val

/-- The character of the five bits of an id at bit `j`. -/
def groupAt (id : Bytes) (j : Nat) : Except Crash UInt8 := do
  let val ← valAt id (j >>> 3)
  byteAt base32 ((val >>> (j &&& 7)) &&& 0x1f)

/-- The loop of `print_fingerprint`. -/
def printGroups (id : Bytes) : (rounds j : Nat) → Except Crash Bytes
  | 0, _ => .ok []
  | rounds + 1, j => do
    let c ← groupAt id j
    let out ← printGroups id rounds (j + 5)
    return c :: out

/-- `print_fingerprint`: what it writes. -/
def printFingerprint (id : Bytes) : Except Crash Bytes := printGroups id 52 0

/-! ## Letters -/

/-- A character in lower case. -/
def lower (c : UInt8) : UInt8 := if 65 ≤ c ∧ c ≤ 90 then c + 32 else c

/-- The five bits of a letter. -/
def letterBits (c : UInt8) : Nat := (base32char c).toNat

/-- The letter of five bits. -/
def bitsLetter (v : Nat) : UInt8 := base32.getD v 0

/-- The letter with only the lowest bit of another. -/
def lowestBit (c : UInt8) : UInt8 := bitsLetter (letterBits c % 2)

theorem base32char_nonneg : ∀ c : UInt8, 0 ≤ base32char c ↔ lower c ∈ base32 := by
  decide +kernel

theorem letterBits_lt : ∀ c : UInt8, letterBits c < 32 := by decide +kernel

theorem letterBits_lower : ∀ c : UInt8, letterBits (lower c) = letterBits c := by decide +kernel

theorem bitsLetter_letterBits : ∀ c : UInt8, lower c ∈ base32 →
    bitsLetter (letterBits c) = lower c := by
  decide +kernel

theorem letter_bitsLetter : ∀ v < 32, lower (bitsLetter v) = bitsLetter v ∧
    bitsLetter v ∈ base32 ∧ letterBits (bitsLetter v) = v ∧
      byteAt base32 v = .ok (bitsLetter v) := by
  decide +kernel

/-! ## The number of an id -/

/-- The number that an id stands for. -/
def littleEndian (id : Bytes) : Nat := Nat.ofDigits 256 (id.map UInt8.toNat)

section Number

variable {a : Bytes} {i j v : Nat}

theorem toNat_lt : ∀ d ∈ a.map UInt8.toNat, d < 256 := by
  intro d hd
  obtain ⟨b, -, rfl⟩ := List.mem_map.mp hd
  exact b.toNat_lt

theorem littleEndian_lt (a : Bytes) : littleEndian a < 256 ^ a.length := by
  have h := Nat.ofDigits_lt_base_pow_length (by decide) (@toNat_lt a)
  rwa [List.length_map] at h

theorem littleEndian_injective {a' : Bytes} (hlen : a.length = a'.length)
    (h : littleEndian a = littleEndian a') : a = a' :=
  List.map_injective_iff.mpr (fun _ _ => UInt8.toNat_inj.mp)
    (Nat.ofDigits_inj_of_len_eq (by decide) (by simp [hlen]) toNat_lt toNat_lt h)

theorem littleEndian_zero (n : Nat) : littleEndian (List.replicate n 0) = 0 := by
  unfold littleEndian
  rw [List.map_replicate]
  exact Nat.ofDigits_replicate_zero

theorem getD_toNat (a : Bytes) (i : Nat) : (a.map UInt8.toNat).getD i 0 = (a.getD i 0).toNat := by
  simp only [List.getD_eq_getElem?_getD, List.getElem?_map]
  cases a[i]? <;> rfl

/-- A byte of an id, off its number. -/
theorem littleEndian_byte (a : Bytes) (i : Nat) :
    littleEndian a / 256 ^ i % 256 = (a.getD i 0).toNat :=
  (ofDigits_digit (by decide) toNat_lt i).trans (getD_toNat a i)

theorem byteAt_append (hi : i < a.length) (rest : Bytes) :
    byteAt (a ++ rest) i = .ok (a.getD i 0) := by
  unfold byteAt
  rw [List.getElem?_append_left hi, List.getElem?_eq_getElem hi, List.getD_eq_getElem _ _ hi]

/-- What is above `2 ^ 256` is lost. -/
theorem littleEndian_mod (ha : a.length = 32) {n k : Nat} (h : n = littleEndian a + k * 2 ^ 256) :
    littleEndian a = n % 2 ^ 256 := by
  have hlt := littleEndian_lt a
  rw [ha] at hlt
  rw [h, Nat.add_mul_mod_self_right, Nat.mod_eq_of_lt (by simpa using hlt)]

/-- Bits are put where there are none. -/
theorem orByte_spec (hi : i < a.length) (hv : (a.getD i 0).toNat ||| v = (a.getD i 0).toNat + v)
    (hlt : (a.getD i 0).toNat + v < 256) (rest : Bytes) :
    ∃ a', orByte (a ++ rest) i v = .ok (a' ++ rest) ∧ a'.length = a.length ∧
      littleEndian a' = littleEndian a + v * 256 ^ i ∧
      ∀ k, k ≠ i → a'.getD k 0 = a.getD k 0 := by
  refine ⟨a.set i (UInt8.ofNat ((a.getD i 0).toNat + v)), ?_, List.length_set, ?_, ?_⟩
  · unfold orByte
    rw [byteAt_append hi, ok_bind, pure_eq_ok, hv, List.set_append_left _ _ hi]
  · unfold littleEndian
    rw [List.map_set, UInt8.toNat_ofNat', Nat.mod_eq_of_lt hlt, ← getD_toNat,
      ofDigits_set_add (by rwa [List.length_map])]
  · intro k hk
    simp only [List.getD_eq_getElem?_getD, List.getElem?_set_ne (Ne.symm hk)]

/-- A group at bit `r` of a byte: what stays in the byte, and whether anything is left over. -/
theorem shifted_group : ∀ v < 32, ∀ r < 8, (v <<< r) &&& 0xff = 2 ^ r * (v % 2 ^ (8 - r)) ∧
    (v <<< r) &&& 0xff = v * 2 ^ r % 256 ∧ (v <<< r) >>> 8 = v * 2 ^ r / 256 ∧
      v * 2 ^ r / 256 < 256 ∧ ((v <<< r) &&& 0xff00 = 0 → v * 2 ^ r / 256 = 0) := by
  decide

/-- **A group is put into an id** whose bits from `j` on are clear. -/
theorem storeGroup_spec (ha : a.length = 32) (hj : j < 256) (hclear : littleEndian a < 2 ^ j)
    (hv : v < 32) (rest : Bytes) :
    ∃ a', storeGroup (a ++ rest) j v = .ok (a' ++ rest) ∧ a'.length = 32 ∧
      littleEndian a' = (littleEndian a + v * 2 ^ j) % 2 ^ 256 := by
  obtain ⟨b, r, hr, rfl⟩ : ∃ b r, r < 8 ∧ j = 8 * b + r :=
    ⟨j / 8, j % 8, Nat.mod_lt j (by decide), (Nat.div_add_mod j 8).symm⟩
  have hb : b < 32 := by omega
  have hbyte : (8 * b + r) >>> 3 = b := by rw [Nat.shiftRight_eq_div_pow]; omega
  have hbit : (8 * b + r) &&& 7 = r := by rw [Nat.and_two_pow_sub_one_eq_mod _ 3]; omega
  have hpow : 2 ^ (8 * b + r) = 256 ^ b * 2 ^ r := by
    rw [pow_add, pow_mul]
    norm_num
  rw [hpow] at hclear ⊢
  obtain ⟨hlow, hmod, hhigh, hbyte', hnone⟩ := shifted_group v hv r hr
  -- the byte has only bits below `r`, the next one is clear
  have htop : littleEndian a / 256 ^ b < 2 ^ r := Nat.div_lt_of_lt_mul hclear
  have hr256 : 2 ^ r * 2 ^ (8 - r) = 256 := by rw [← pow_add, Nat.add_sub_cancel' hr.le]; rfl
  have hle : 2 ^ r ≤ 256 := hr256 ▸ Nat.le_mul_of_pos_right _ (by positivity)
  have hat : (a.getD b 0).toNat < 2 ^ r :=
    (littleEndian_byte a b) ▸ (Nat.mod_le _ _).trans_lt htop
  have hnext : (a.getD (b + 1) 0).toNat = 0 := by
    rw [← littleEndian_byte, pow_succ, ← Nat.div_div_eq_div_mul,
      Nat.div_eq_of_lt (htop.trans_le hle)]
  have hor : (a.getD b 0).toNat ||| (v <<< r) &&& 0xff =
      (a.getD b 0).toNat + ((v <<< r) &&& 0xff) := by
    rw [hlow, Nat.or_comm, ← Nat.two_pow_add_eq_or_of_lt hat, Nat.add_comm]
  have hfits : (a.getD b 0).toNat + ((v <<< r) &&& 0xff) < 256 := by
    have hm : v % 2 ^ (8 - r) + 1 ≤ 2 ^ (8 - r) := Nat.mod_lt v (by positivity)
    have hmul := Nat.mul_le_mul_left (2 ^ r) hm
    rw [hr256, mul_add, mul_one] at hmul
    omega
  obtain ⟨a₁, hrun₁, hlen₁, hnum₁, hsame⟩ := orByte_spec (ha.symm ▸ hb) hor hfits rest
  have hsum : v * 2 ^ r % 256 * 256 ^ b + v * 2 ^ r / 256 * 256 ^ (b + 1) =
      v * (256 ^ b * 2 ^ r) := by
    calc v * 2 ^ r % 256 * 256 ^ b + v * 2 ^ r / 256 * 256 ^ (b + 1)
        = (v * 2 ^ r % 256 + 256 * (v * 2 ^ r / 256)) * 256 ^ b := by ring
      _ = v * (256 ^ b * 2 ^ r) := by rw [Nat.mod_add_div]; ring
  unfold storeGroup
  simp only [hbyte, hbit, hrun₁, ok_bind]
  rw [hmod] at hnum₁
  rw [← hsum]
  by_cases hmore : (v <<< r) &&& 0xff00 ≠ 0 ∧ b + 1 < NODE_ID_LEN
  · rw [if_pos hmore, hhigh]
    have hat₁ : (a₁.getD (b + 1) 0).toNat = 0 := by rw [hsame _ (Nat.succ_ne_self b), hnext]
    obtain ⟨a₂, hrun₂, hlen₂, hnum₂, -⟩ := orByte_spec (i := b + 1) (v := v * 2 ^ r / 256)
      (by rw [hlen₁, ha]; exact hmore.2) (by rw [hat₁, Nat.zero_or, Nat.zero_add])
      (by rw [hat₁, Nat.zero_add]; exact hbyte') rest
    have hlen₂' : a₂.length = 32 := by rw [hlen₂, hlen₁, ha]
    refine ⟨a₂, hrun₂, hlen₂', littleEndian_mod hlen₂' (k := 0) ?_⟩
    rw [hnum₂, hnum₁]
    ring
  · rw [if_neg hmore]
    have hlen₁' : a₁.length = 32 := by rw [hlen₁, ha]
    rw [not_and_or, not_not] at hmore
    -- what is left over is nothing, or above the last byte
    rcases hmore with hz | hlast
    · refine ⟨a₁, rfl, hlen₁', littleEndian_mod hlen₁' (k := 0) ?_⟩
      rw [hnone hz, hnum₁]
      ring
    · obtain rfl : b = 31 := by unfold NODE_ID_LEN at hlast; omega
      refine ⟨a₁, rfl, hlen₁', littleEndian_mod hlen₁' (k := v * 2 ^ r / 256) ?_⟩
      rw [hnum₁, Nat.add_assoc]
      norm_num

/-! ## Parsing -/

/-- The number that a text stands for. -/
def textNumber (t : Bytes) : Nat := Nat.ofDigits 32 (t.map letterBits)

theorem textNumber_cons (c : UInt8) (t : Bytes) :
    textNumber (c :: t) = letterBits c + 32 * textNumber t := by
  unfold textNumber
  rw [List.map_cons, Nat.ofDigits_cons]

/-- **The loop** accepts letters only, and adds their number to that of the id. -/
theorem parseGroups_spec {fp t more : Bytes} (hfp : fp.drop i = t ++ more)
    (hlen : t.length + i = 52) (ha : a.length = 32) (hclear : littleEndian a < 2 ^ (5 * i))
    (rest : Bytes) :
    ∃ a' r, parseGroups fp t.length i (5 * i) (a ++ rest) = .ok (a' ++ rest, r) ∧
      a'.length = 32 ∧ (r = 0 ∨ r = -1) ∧ (r = 0 ↔ ∀ c ∈ t, lower c ∈ base32) ∧
      (r = 0 → littleEndian a' = (littleEndian a + 2 ^ (5 * i) * textNumber t) % 2 ^ 256) := by
  induction t generalizing i a with
  | nil =>
    refine ⟨a, 0, rfl, ha, Or.inl rfl, by simp, fun _ => littleEndian_mod ha (k := 0) ?_⟩
    simp [textNumber]
  | cons c t ih =>
    have hat : byteAt fp i = .ok c := by
      have h : (fp.drop i)[0]? = some c := by rw [hfp]; rfl
      rw [List.getElem?_drop, Nat.add_zero] at h
      unfold byteAt
      rw [h]
    have hstep : parseGroups fp (c :: t).length i (5 * i) (a ++ rest) =
        if base32char c < 0 then .ok (a ++ rest, -1)
        else storeGroup (a ++ rest) (5 * i) (letterBits c) >>=
          parseGroups fp t.length (i + 1) (5 * (i + 1)) := by
      rw [List.length_cons, parseGroups, hat]
      rfl
    rw [hstep]
    by_cases hc : lower c ∈ base32
    · have hnonneg := (base32char_nonneg c).mpr hc
      rw [if_neg (not_lt.mpr hnonneg)]
      rw [List.length_cons] at hlen
      have hbits := letterBits_lt c
      obtain ⟨a₁, hrun₁, hlen₁, hnum₁⟩ := storeGroup_spec ha (by omega) hclear hbits rest
      have hpow : 2 ^ (5 * (i + 1)) = 2 ^ (5 * i) * 32 := by
        rw [Nat.mul_succ, pow_add]
        norm_num
      have hclear₁ : littleEndian a₁ < 2 ^ (5 * (i + 1)) := by
        have hmul : letterBits c * 2 ^ (5 * i) ≤ 31 * 2 ^ (5 * i) :=
          Nat.mul_le_mul_right _ (Nat.le_of_lt_succ hbits)
        have hmod := Nat.mod_le (littleEndian a + letterBits c * 2 ^ (5 * i)) (2 ^ 256)
        omega
      have hfp₁ : fp.drop (i + 1) = t ++ more := by
        rw [← List.drop_drop, hfp]
        rfl
      obtain ⟨a', r, hrun, hlen', hr, hall, hnum⟩ := ih hfp₁ (by omega) hlen₁ hclear₁
      rw [hrun₁, ok_bind]
      refine ⟨a', r, hrun, hlen', hr, hall.trans ?_, fun h => ?_⟩
      · rw [List.forall_mem_cons, and_iff_right hc]
      · rw [hnum h, hnum₁, Nat.mod_add_mod, textNumber_cons, hpow]
        congr 1
        ring
    · rw [if_pos (not_le.mp (mt (base32char_nonneg c).mp hc))]
      refine ⟨a, -1, rfl, ha, Or.inr rfl, ?_, fun h => absurd h (by decide)⟩
      exact iff_of_false (by decide) fun h => hc (h c List.mem_cons_self)

/-- **`parse_base32_fingerprint`** of a text of 52 characters. -/
theorem parseBase32Fingerprint_spec {t : Bytes} (hlen : t.length = 52) (ha : a.length = 32)
    (rest more : Bytes) :
    ∃ a' r, parseBase32Fingerprint (a ++ rest) (t ++ more) = .ok (a' ++ rest, r) ∧
      a'.length = 32 ∧ (r = 0 ∨ r = -1) ∧ (r = 0 ↔ ∀ c ∈ t, lower c ∈ base32) ∧
      (r = 0 → littleEndian a' = textNumber t % 2 ^ 256) := by
  have hset : memset (a ++ rest) 0 NODE_ID_LEN = .ok (List.replicate 32 0 ++ rest) := by
    have hle : NODE_ID_LEN ≤ (a ++ rest).length := by
      rw [List.length_append, ha]
      exact Nat.le_add_right _ _
    unfold memset
    rw [if_pos hle, List.drop_left' (show a.length = NODE_ID_LEN from ha)]
    rfl
  have hzero := littleEndian_zero 32
  obtain ⟨a', r, hrun, hlen', hr, hall, hnum⟩ := parseGroups_spec (i := 0)
    (show (t ++ more).drop 0 = t ++ more from rfl) (by rw [hlen]) (List.length_replicate (n := 32))
    (by rw [hzero]; decide) rest
  rw [hlen] at hrun
  refine ⟨a', r, ?_, hlen', hr, hall, fun h => ?_⟩
  · unfold parseBase32Fingerprint
    rw [hset, ok_bind]
    exact hrun
  · rw [hnum h, hzero, Nat.mul_zero, pow_zero, Nat.zero_add, Nat.one_mul]

/-! ## Printing -/

theorem valAt_spec (ha : a.length = 32) (hi : i < 32) :
    valAt a i = .ok (littleEndian a / 256 ^ i % 2 ^ 16) := by
  have hwindow : littleEndian a / 256 ^ i % 2 ^ 16 =
      (a.getD i 0).toNat + 256 * (a.getD (i + 1) 0).toNat := by
    have h := ofDigits_window (by decide) (@toNat_lt a) i
    rw [getD_toNat, getD_toNat] at h
    exact h
  have hat : ∀ k < 32, byteAt a k = .ok (a.getD k 0) := by
    intro k hk
    have h := byteAt_append (ha ▸ hk) []
    rwa [List.append_nil] at h
  unfold valAt
  rw [hwindow, hat i hi, ok_bind]
  by_cases hlast : i + 1 < NODE_ID_LEN
  · have hor := Nat.two_pow_add_eq_or_of_lt (a.getD i 0).toNat_lt (a.getD (i + 1) 0).toNat
    rw [if_pos hlast, hat _ hlast, ok_bind, pure_eq_ok, Nat.or_comm, Nat.shiftLeft_eq,
      Nat.mul_comm, ← hor, Nat.add_comm]
  · have hzero : a.getD (i + 1) 0 = 0 :=
      List.getD_eq_default _ _ (by rw [ha]; exact not_lt.mp hlast)
    rw [if_neg hlast, hzero]
    rfl

/-- **A group of an id**, off its number. -/
theorem groupAt_spec (ha : a.length = 32) (hj : j < 256) :
    groupAt a j = .ok (bitsLetter (littleEndian a / 2 ^ j % 32)) := by
  obtain ⟨b, r, hr, rfl⟩ : ∃ b r, r < 8 ∧ j = 8 * b + r :=
    ⟨j / 8, j % 8, Nat.mod_lt j (by decide), (Nat.div_add_mod j 8).symm⟩
  have hbyte : (8 * b + r) >>> 3 = b := by rw [Nat.shiftRight_eq_div_pow]; omega
  have hbit : (8 * b + r) &&& 7 = r := by rw [Nat.and_two_pow_sub_one_eq_mod _ 3]; omega
  have hbits : ((littleEndian a / 256 ^ b % 2 ^ 16) >>> r) &&& 0x1f =
      littleEndian a / 2 ^ (8 * b + r) % 32 := by
    have hpow : 2 ^ (8 * b + r) = 256 ^ b * 2 ^ r := by
      rw [pow_add, pow_mul]
      norm_num
    rw [Nat.and_two_pow_sub_one_eq_mod _ 5, Nat.shiftRight_eq_div_pow,
      div_pow_mod (by omega), Nat.div_div_eq_div_mul, hpow]
    rfl
  unfold groupAt
  rw [hbyte, hbit, valAt_spec ha (by omega), ok_bind, hbits]
  exact (letter_bitsLetter _ (Nat.mod_lt _ (by decide))).2.2.2

theorem printGroups_spec (ha : a.length = 32) {rounds : Nat} (hj : j + 5 * rounds ≤ 260) :
    printGroups a rounds j =
      .ok ((List.range rounds).map fun k =>
        bitsLetter (littleEndian a / 2 ^ (j + 5 * k) % 32)) := by
  induction rounds generalizing j with
  | zero => rfl
  | succ rounds ih =>
    rw [printGroups, groupAt_spec ha (by omega), ok_bind, ih (by omega), ok_bind, pure_eq_ok,
      List.range_succ_eq_map, List.map_cons, List.map_map, Nat.mul_zero, Nat.add_zero]
    refine congrArg (fun l => Except.ok (_ :: l)) (List.map_congr_left fun k _ => ?_)
    rw [Function.comp_apply, Nat.mul_succ, Nat.add_assoc, Nat.add_comm 5]

/-- **`print_fingerprint`** writes the digits of the number in base 32. -/
theorem printFingerprint_spec (ha : a.length = 32) : printFingerprint a =
    .ok ((List.range 52).map fun k => bitsLetter (littleEndian a / 32 ^ k % 32)) := by
  have h := printGroups_spec ha (show 0 + 5 * 52 ≤ 260 by decide)
  simp only [Nat.zero_add, pow_mul] at h
  exact h

/-! ## Round trips -/

/-- The text of an id, in any case, has the number of the id. -/
theorem textNumber_print {t : Bytes} (ha : a.length = 32)
    (ht : printFingerprint a = .ok (t.map lower)) :
    t.length = 52 ∧ (∀ c ∈ t, lower c ∈ base32) ∧ textNumber t = littleEndian a := by
  rw [printFingerprint_spec ha] at ht
  have hmap := (Except.ok.inj ht).symm
  have hlt := littleEndian_lt a
  rw [ha] at hlt
  refine ⟨?_, fun c hc => ?_, ?_⟩
  · have h := congrArg List.length hmap
    rwa [List.length_map, List.length_map, List.length_range] at h
  · have h := hmap ▸ List.mem_map_of_mem hc
    obtain ⟨k, -, hk⟩ := List.mem_map.mp h
    exact hk ▸ (letter_bitsLetter _ (Nat.mod_lt _ (by decide))).2.1
  · have hbits : t.map letterBits = (List.range 52).map fun k => littleEndian a / 32 ^ k % 32 := by
      calc t.map letterBits = (t.map lower).map letterBits := by
            rw [List.map_map]
            exact List.map_congr_left fun c _ => (letterBits_lower c).symm
        _ = _ := by
            rw [hmap, List.map_map]
            exact List.map_congr_left fun k _ =>
              (letter_bitsLetter _ (Nat.mod_lt _ (by decide))).2.2.1
    unfold textNumber
    rw [hbits, ofDigits_range]
    exact Nat.mod_eq_of_lt (hlt.trans (by norm_num))

/-- **The text of an id** that a text was read into: all its letters, and one bit of the last. -/
theorem print_textNumber {t : Bytes} {c : UInt8} (ht : t.length = 51)
    (hc : ∀ d ∈ t ++ [c], lower d ∈ base32) (ha : a.length = 32)
    (hnum : littleEndian a = textNumber (t ++ [c]) % 2 ^ 256) :
    printFingerprint a = .ok (t.map lower ++ [lowestBit c]) := by
  have hbits : ∀ d ∈ t.map letterBits ++ [letterBits c % 2], d < 32 := by
    intro d hd
    rcases List.mem_append.mp hd with hd | hd
    · obtain ⟨x, -, rfl⟩ := List.mem_map.mp hd
      exact letterBits_lt x
    · exact List.mem_singleton.mp hd ▸ (Nat.mod_lt _ (by decide)).trans (by decide)
  have hdigits : littleEndian a = Nat.ofDigits 32 (t.map letterBits ++ [letterBits c % 2]) := by
    have hlt := Nat.ofDigits_lt_base_pow_length (b := 32) (by decide)
      (fun d hd => hbits d (List.mem_append_left _ hd))
    have hbit := Nat.mod_lt (letterBits c) (y := 2) (by decide)
    have hdiv := Nat.mod_add_div (letterBits c) 2
    rw [List.length_map, ht] at hlt
    unfold textNumber at hnum
    rw [List.map_append, List.map_singleton, Nat.ofDigits_append, Nat.ofDigits_singleton,
      List.length_map, ht] at hnum
    rw [hnum, Nat.ofDigits_append, Nat.ofDigits_singleton, List.length_map, ht]
    norm_num at hlt ⊢
    omega
  have hget : ∀ l : List Nat, (List.range l.length).map (fun k => l.getD k 0) = l := by
    intro l
    refine List.ext_getElem (by simp) fun k _ hk => ?_
    rw [List.getElem_map, List.getElem_range, List.getD_eq_getElem _ _ hk]
  have hlen : (t.map letterBits ++ [letterBits c % 2]).length = 52 := by simp [ht]
  have hlist := hget (t.map letterBits ++ [letterBits c % 2])
  rw [hlen] at hlist
  rw [printFingerprint_spec ha, hdigits]
  simp only [ofDigits_digit (by decide) hbits]
  calc Except.ok ((List.range 52).map fun k =>
        bitsLetter ((t.map letterBits ++ [letterBits c % 2]).getD k 0))
      = .ok (((List.range 52).map fun k =>
          (t.map letterBits ++ [letterBits c % 2]).getD k 0).map bitsLetter) := by
        rw [List.map_map]
        rfl
    _ = .ok (t.map lower ++ [lowestBit c]) := by
        rw [hlist, List.map_append, List.map_map]
        refine congrArg (fun l => Except.ok (l ++ _)) (List.map_congr_left fun d hd => ?_)
        exact bitsLetter_letterBits d (hc d (List.mem_append_left _ hd))

end Number

/-- **Fingerprints**: a printed id is read back, in any case of its letters; a text that is accepted
is printed in lower case, its last character with its lowest bit only; a text with a character that
is not a letter is rejected, and the memory behind the id stays as it was. -/
theorem fingerprint_text :
    (∀ id : NodeId, ∃ fp, printFingerprint id.1 = .ok fp ∧ fp.length = 52 ∧
      ∀ t : Bytes, t.map lower = fp → ∀ (old : NodeId) (rest more : Bytes),
        parseBase32Fingerprint (old.1 ++ rest) (t ++ more) = .ok (id.1 ++ rest, 0)) ∧
    (∀ (t : Bytes) (c : UInt8), t.length = 51 → ∀ (old : NodeId) (rest more : Bytes),
      ∃ (id : NodeId) (r : Int),
        parseBase32Fingerprint (old.1 ++ rest) (t ++ [c] ++ more) = .ok (id.1 ++ rest, r) ∧
        (r = 0 ∨ r = -1) ∧ (r = 0 ↔ ∀ d ∈ t ++ [c], lower d ∈ base32) ∧
        (r = 0 → printFingerprint id.1 = .ok (t.map lower ++ [lowestBit c]))) ∧
    ∀ id id' : NodeId, printFingerprint id.1 = printFingerprint id'.1 → id = id' := by
  have hread : ∀ (id : NodeId) (t : Bytes), printFingerprint id.1 = .ok (t.map lower) →
      ∀ (old : NodeId) (rest more : Bytes),
        parseBase32Fingerprint (old.1 ++ rest) (t ++ more) = .ok (id.1 ++ rest, 0) := by
    intro id t ht old rest more
    obtain ⟨hlen, hall, hnum⟩ := textNumber_print id.length_val ht
    obtain ⟨a, r, hrun, ha, -, hr, heq⟩ := parseBase32Fingerprint_spec hlen old.length_val rest more
    obtain rfl := hr.mpr hall
    have hlt := littleEndian_lt id.1
    rw [id.length_val] at hlt
    obtain rfl : a = id.1 := littleEndian_injective (ha.trans id.length_val.symm) (by
      rw [heq rfl, hnum, Nat.mod_eq_of_lt (by simpa using hlt)])
    exact hrun
  have hlower : ∀ id : NodeId, ∃ fp : Bytes, printFingerprint id.1 = .ok fp ∧ fp.length = 52 ∧
      fp.map lower = fp := by
    intro id
    refine ⟨_, printFingerprint_spec id.length_val, by simp, ?_⟩
    rw [List.map_map]
    exact List.map_congr_left fun k _ => (letter_bitsLetter _ (Nat.mod_lt _ (by decide))).1
  refine ⟨fun id => ?_, fun t c ht old rest more => ?_, fun id id' h => ?_⟩
  · obtain ⟨fp, hfp, hlen, -⟩ := hlower id
    exact ⟨fp, hfp, hlen, fun t ht => hread id t (ht ▸ hfp)⟩
  · obtain ⟨a, r, hrun, ha, hr, hall, hnum⟩ :=
      parseBase32Fingerprint_spec (t := t ++ [c]) (by simp [ht]) old.length_val rest more
    exact ⟨⟨a, ha⟩, r, hrun, hr, hall, fun h => print_textNumber ht (hall.mp h) ha (hnum h)⟩
  · obtain ⟨fp, hfp, -, hfix⟩ := hlower id
    have hid := hread id fp (hfix.symm ▸ hfp) zeroId [] []
    have hid' := hread id' fp (hfix.symm ▸ h ▸ hfp) zeroId [] []
    have heq := congrArg Prod.fst (Except.ok.inj (hid.symm.trans hid'))
    exact Subtype.ext (List.append_cancel_right heq)

end Dvpn
