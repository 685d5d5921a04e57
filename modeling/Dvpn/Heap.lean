import Mathlib

/-!
# The order of a binary heap

`k i` is the key of slot `i`, and the slot above it is `(i - 1) / 2`. A heap with one slot that may
be too far up (`Down`) or too far down (`Up`) becomes ordered by swaps that move this slot.

* `Down.swap`, `Up.swap`: one swap.
* `Down.done`, `Up.done`: where the swaps end.
* `Ordered.root_le`: the root has the least key.
-/

namespace Dvpn.Heap

variable {α : Type} {k : ℕ → α} {n i m : ℕ}

/-- The slot above. -/
def above (i : ℕ) : ℕ := (i - 1) / 2

theorem above_lt {j : ℕ} (h : 0 < j) : above j < j := by
  unfold above
  omega

/-- The keys after two slots were swapped. -/
def swapped (k : ℕ → α) (i j : ℕ) : ℕ → α := k ∘ Equiv.swap i j

theorem swapped_left (j : ℕ) : swapped k i j i = k j := congrArg k (Equiv.swap_apply_left i j)

theorem swapped_right (j : ℕ) : swapped k i j j = k i := congrArg k (Equiv.swap_apply_right i j)

theorem swapped_ne {j x : ℕ} (hi : x ≠ i) (hj : x ≠ j) : swapped k i j x = k x :=
  congrArg k (Equiv.swap_apply_of_ne_of_ne hi hj)

variable [LinearOrder α]

/-- No slot has a lesser key than the one above. -/
def Ordered (k : ℕ → α) (n : ℕ) : Prop := ∀ j, 0 < j → j < n → k (above j) ≤ k j

/-- Ordered, but that the key of `i` may be greater than those below. -/
structure Down (k : ℕ → α) (n i : ℕ) : Prop where
  ordered : ∀ j, 0 < j → j < n → above j ≠ i → k (above j) ≤ k j
  skip : 0 < i → ∀ j, 0 < j → j < n → above j = i → k (above i) ≤ k j

/-- Ordered, but that the key of `i` may be less than the one above. -/
structure Up (k : ℕ → α) (n i : ℕ) : Prop where
  ordered : ∀ j, 0 < j → j < n → j ≠ i → k (above j) ≤ k j
  skip : 0 < i → ∀ j, 0 < j → j < n → above j = i → k (above i) ≤ k j

/-- **The root has the least key.** -/
theorem Ordered.root_le (h : Ordered k n) (hi : i < n) : k 0 ≤ k i := by
  induction i using Nat.strong_induction_on with
  | _ i ih =>
    rcases Nat.eq_zero_or_pos i with rfl | hpos
    · exact le_rfl
    · have hlt := above_lt hpos
      exact (ih _ hlt (hlt.trans hi)).trans (h i hpos hi)

namespace Down

theorem done (h : Down k n i) (hle : ∀ j, 0 < j → j < n → above j = i → k i ≤ k j) :
    Ordered k n := by
  intro j hpos hj
  by_cases he : above j = i
  · exact he ▸ hle j hpos hj he
  · exact h.ordered j hpos hj he

/-- The least of the keys below comes up. -/
theorem swap (h : Down k n i) (hm : 0 < m) (hlt : m < n) (hmi : above m = i) (hle : k m ≤ k i)
    (hleast : ∀ j, 0 < j → j < n → above j = i → k m ≤ k j) : Down (swapped k i m) n m := by
  have him : i < m := hmi ▸ above_lt hm
  constructor
  · intro j hpos hj hne
    by_cases hji : j = i
    · -- the slot that comes up is below the one above `i`
      subst hji
      have hup := above_lt hpos
      rw [swapped_left, swapped_ne (by omega) (by omega)]
      exact h.skip hpos m hm hlt hmi
    · by_cases hai : above j = i
      · rw [hai, swapped_left]
        by_cases hjm : j = m
        · rw [hjm, swapped_right]
          exact hle
        · rw [swapped_ne hji hjm]
          exact hleast j hpos hj hai
      · have hjm : j ≠ m := fun he => hai (he ▸ hmi)
        rw [swapped_ne hai hne, swapped_ne hji hjm]
        exact h.ordered j hpos hj hai
  · intro _ j hpos hj hjm
    have hgt := above_lt hpos
    rw [hmi, swapped_left, swapped_ne (by omega) (by omega)]
    exact hjm ▸ h.ordered j hpos hj (by omega)

end Down

theorem Ordered.up (h : Ordered k n) : Up k n i := by
  refine ⟨fun j hpos hj _ => h j hpos hj, fun hi j hpos hj hji => ?_⟩
  have hlt := above_lt hpos
  exact (h i hi (by omega)).trans (hji ▸ h j hpos hj)

namespace Up

/-- A slot at the end. -/
theorem last (h : Ordered k n) : Up k (n + 1) n := by
  refine ⟨fun j hpos hj hne => h j hpos (by omega), fun _ j hpos hj hji => ?_⟩
  have hlt := above_lt hpos
  omega

/-- The key of `i` is lowered. -/
theorem lower {k' : ℕ → α} (h : Up k n i) (hi : k' i ≤ k i) (hk : ∀ j < n, j ≠ i → k' j = k j) :
    Up k' n i := by
  constructor
  · intro j hpos hj hne
    have hlt := above_lt hpos
    rw [hk j hj hne]
    by_cases hji : above j = i
    · rw [hji]
      exact hi.trans (hji ▸ h.ordered j hpos hj hne)
    · rw [hk _ (hlt.trans hj) hji]
      exact h.ordered j hpos hj hne
  · intro hpos j hposj hj hji
    have hlt := above_lt hposj
    have hlt' := above_lt hpos
    rw [hk _ (by omega) (by omega), hk j hj (by omega)]
    exact h.skip hpos j hposj hj hji

theorem done (h : Up k n i) (hle : 0 < i → k (above i) ≤ k i) : Ordered k n := by
  intro j hpos hj
  by_cases he : j = i
  · subst he
    exact hle hpos
  · exact h.ordered j hpos hj he

/-- The key of `i` goes up. -/
theorem swap (h : Up k n i) (hpos : 0 < i) (hi : i < n) (hlt : k i ≤ k (above i)) :
    Up (swapped k i (above i)) n (above i) := by
  have hup := above_lt hpos
  have hover : 0 < above i → k (above (above i)) ≤ k (above i) :=
    fun hp => h.ordered (above i) hp (by omega) (by omega)
  constructor
  · intro j hj hjn hne
    by_cases hji : j = i
    · subst hji
      rw [swapped_left, swapped_right]
      exact hlt
    · rw [swapped_ne hji hne]
      by_cases hai : above j = i
      · rw [hai, swapped_left]
        exact h.skip hpos j hj hjn hai
      · by_cases hap : above j = above i
        · rw [hap, swapped_right]
          exact hlt.trans (hap ▸ h.ordered j hj hjn hji)
        · rw [swapped_ne hai hap]
          exact h.ordered j hj hjn hji
  · intro hp j hj hjn hjp
    have hup' := above_lt hp
    rw [swapped_ne (by omega) (by omega)]
    by_cases hji : j = i
    · subst hji
      rw [swapped_left]
      exact hover hp
    · have hgt := above_lt hj
      rw [swapped_ne hji (by omega)]
      exact (hover hp).trans (hjp ▸ h.ordered j hj hjn hji)

end Up

end Dvpn.Heap
