import Mathlib.Data.List.GetD
import Mathlib.Data.Nat.Digits.Lemmas
import Mathlib.Tactic.Ring

/-!
# Little-endian digits

The number with the digits `l` is `Nat.ofDigits B l`, the least digit first. What a packed array is
read and written with:

* `ofDigits_digit`, `ofDigits_window`: one digit, and two neighbours, read off the number.
* `ofDigits_set_add`: a digit grows, and so does the number.
* `ofDigits_range`: the number is put together from its digits.
* `div_pow_mod`: the bits `r .. r + w` of a number are bits of its low `m`.
-/

namespace Digits

variable {B : Nat} {l : List Nat}

/-- **One digit** of a number. -/
theorem ofDigits_digit (hB : 0 < B) (hl : ∀ d ∈ l, d < B) (i : Nat) :
    Nat.ofDigits B l / B ^ i % B = l.getD i 0 := by
  rw [Nat.ofDigits_div_pow_eq_ofDigits_drop i hB l hl]
  by_cases hi : i < l.length
  · rw [List.drop_eq_getElem_cons hi, Nat.ofDigits_cons, Nat.add_mul_mod_self_left,
      Nat.mod_eq_of_lt (hl _ (List.getElem_mem hi)), List.getD_eq_getElem _ _ hi]
  · rw [List.drop_eq_nil_of_le (not_lt.mp hi), List.getD_eq_default _ _ (not_lt.mp hi)]
    exact Nat.zero_mod B

/-- **Two neighbours** of a number. -/
theorem ofDigits_window (hB : 0 < B) (hl : ∀ d ∈ l, d < B) (i : Nat) :
    Nat.ofDigits B l / B ^ i % B ^ 2 = l.getD i 0 + B * l.getD (i + 1) 0 := by
  have hnext := ofDigits_digit hB hl (i + 1)
  rw [pow_succ, ← Nat.div_div_eq_div_mul] at hnext
  rw [pow_two, Nat.mod_mul, ofDigits_digit hB hl i, hnext]

/-- **A digit grows**, and so does the number. -/
theorem ofDigits_set_add {i : Nat} (hi : i < l.length) (x : Nat) :
    Nat.ofDigits B (l.set i (l.getD i 0 + x)) = Nat.ofDigits B l + x * B ^ i := by
  induction l generalizing i with
  | nil => exact absurd hi (Nat.not_lt_zero i)
  | cons d l ih =>
    cases i with
    | zero =>
      rw [List.set_cons_zero, List.getD_cons_zero, Nat.ofDigits_cons, Nat.ofDigits_cons]
      ring
    | succ i =>
      rw [List.set_cons_succ, List.getD_cons_succ, Nat.ofDigits_cons, Nat.ofDigits_cons,
        ih (Nat.lt_of_succ_lt_succ hi)]
      ring

/-- **A number from its digits.** -/
theorem ofDigits_range (B n k : Nat) :
    Nat.ofDigits B ((List.range k).map fun i => n / B ^ i % B) = n % B ^ k := by
  induction k with
  | zero => rw [pow_zero, Nat.mod_one]; rfl
  | succ k ih =>
    have hlen : ((List.range k).map fun i => n / B ^ i % B).length = k := by simp
    rw [Nat.mod_pow_succ, ← ih, List.range_succ, List.map_append, Nat.ofDigits_append, hlen]
    exact congrArg (_ + B ^ k * ·) Nat.ofDigits_singleton

/-- **Bits of the low bits.** -/
theorem div_pow_mod {r w m : Nat} (h : r + w ≤ m) (n : Nat) :
    n % B ^ m / B ^ r % B ^ w = n / B ^ r % B ^ w := by
  obtain ⟨k, rfl⟩ := Nat.exists_eq_add_of_le h
  rw [add_assoc, pow_add, Nat.mod_mul_right_div_self, pow_add,
    Nat.mod_mod_of_dvd _ (dvd_mul_right _ _)]

end Digits
