import Dvpn.Heap
import Dvpn.Spf.Basic

/-!
# The heap of `spf_run` (`spf.c:59-112`)

A node in the heap knows its slot (`Slots`). `push_down` and `pull_up` end, stay inside the heap, do
nothing but permute its slots (`Shuffled`), and leave it ordered by cost.

* `swapSlots_spec`: one exchange.
* `minChildren_spec`: what the two comparisons of a round of `push_down` find.
* `pushDown_spec`, `pullUp_spec`: the sifts.
-/

namespace Dvpn

open Heap (above above_lt swapped Ordered)

variable {P : Type} {s s' s'' : SpfState P} {i j m : Nat} {p q : P}

/-- The node is in the heap. -/
def InHeap (s : SpfState P) (p : P) : Prop := ∃ i < s.heapsize, s.heap i = some p

/-- Every slot holds a node that knows its slot. -/
structure Slots (s : SpfState P) : Prop where
  filled : ∀ i < s.heapsize, ∃ p, s.heap i = some p
  idx : ∀ i < s.heapsize, ∀ p, s.heap i = some p → s.heapidx p = i

/-- What the node in a slot costs. -/
def slotCost (s : SpfState P) (i : Nat) : Int := ((s.heap i).map s.cost).getD 0

/-- `s'` is `s` with its slots permuted. -/
structure Shuffled (s s' : SpfState P) : Prop where
  parent : s'.parent = s.parent
  cost : s'.cost = s.cost
  heapsize : s'.heapsize = s.heapsize
  perm : ∃ σ : Equiv.Perm Nat, (∀ i, s.heapsize ≤ i → σ i = i) ∧ s'.heap = s.heap ∘ σ
  slots : Slots s'
  outside : ∀ p, ¬ InHeap s p → s'.heapidx p = s.heapidx p

theorem slotCost_eq (h : s.heap i = some p) : slotCost s i = s.cost p := by
  unfold slotCost
  rw [h]
  rfl

theorem heapAt_eq (h : s.heap i = some p) : heapAt s i = .ok p := by
  unfold heapAt
  rw [h]

theorem Slots.unique (h : Slots s) (hi : i < s.heapsize) (hj : j < s.heapsize)
    (hp : s.heap i = some p) (hq : s.heap j = some p) : i = j := by
  have hidx := (h.idx i hi p hp).symm.trans (h.idx j hj p hq)
  exact_mod_cast hidx

namespace Shuffled

/-- The same nodes are in the heap. -/
theorem inHeap (h : Shuffled s s') : InHeap s' p ↔ InHeap s p := by
  obtain ⟨σ, hσ, hheap⟩ := h.perm
  unfold InHeap
  rw [h.heapsize, hheap]
  have hlt : ∀ (τ : Equiv.Perm Nat), (∀ i, s.heapsize ≤ i → τ i = i) → ∀ i < s.heapsize,
      τ i < s.heapsize := by
    intro τ hτ i hi
    by_contra hge
    have hfix := τ.injective (hτ (τ i) (by omega))
    omega
  have hσ' : ∀ i, s.heapsize ≤ i → σ.symm i = i := fun i hi =>
    σ.injective ((σ.apply_symm_apply i).trans (hσ i hi).symm)
  constructor
  · rintro ⟨i, hi, hp⟩
    exact ⟨σ i, hlt σ hσ i hi, hp⟩
  · rintro ⟨i, hi, hp⟩
    refine ⟨σ.symm i, hlt σ.symm hσ' i hi, ?_⟩
    rwa [Function.comp_apply, σ.apply_symm_apply]

theorem refl (h : Slots s) : Shuffled s s where
  parent := rfl
  cost := rfl
  heapsize := rfl
  perm := ⟨Equiv.refl _, fun _ _ => rfl, rfl⟩
  slots := h
  outside _ _ := rfl

theorem trans (h : Shuffled s s') (h' : Shuffled s' s'') : Shuffled s s'' where
  parent := h'.parent.trans h.parent
  cost := h'.cost.trans h.cost
  heapsize := h'.heapsize.trans h.heapsize
  perm := by
    obtain ⟨σ, hσ, hheap⟩ := h.perm
    obtain ⟨τ, hτ, hheap'⟩ := h'.perm
    refine ⟨τ.trans σ, fun i hi => ?_, ?_⟩
    · rw [Equiv.trans_apply, hτ i (h.heapsize.trans_le hi), hσ i hi]
    · rw [hheap', hheap]
      rfl
  slots := h'.slots
  outside p hp := (h'.outside p (h.inHeap.not.mpr hp)).trans (h.outside p hp)

end Shuffled

/-! ## One exchange -/

variable [DecidableEq P]

/-- **Two slots of the heap change places.** -/
theorem swapSlots_spec (h : Slots s) (hi : i < s.heapsize) (hj : j < s.heapsize) (hne : i ≠ j) :
    ∃ s', swapSlots s i j = .ok s' ∧ Shuffled s s' ∧
      slotCost s' = swapped (slotCost s) i j := by
  obtain ⟨p, hp⟩ := h.filled i hi
  obtain ⟨q, hq⟩ := h.filled j hj
  have hpq : q ≠ p := fun he => hne (h.unique hi hj hp (he ▸ hq))
  have hheap : Function.update (Function.update s.heap i (some q)) j (some p) =
      s.heap ∘ Equiv.swap i j := by
    funext x
    rcases eq_or_ne x j with rfl | hxj
    · rw [Function.update_self, Function.comp_apply, Equiv.swap_apply_right, hp]
    rw [Function.update_of_ne hxj, Function.comp_apply]
    rcases eq_or_ne x i with rfl | hxi
    · rw [Function.update_self, Equiv.swap_apply_left, hq]
    · rw [Function.update_of_ne hxi, Equiv.swap_apply_of_ne_of_ne hxi hxj]
  refine ⟨{ s with
    heap := Function.update (Function.update s.heap i (some q)) j (some p)
    heapidx := Function.update (Function.update s.heapidx q i) p j }, ?_, ?_, ?_⟩
  · unfold swapSlots
    rw [heapAt_eq hp, heapAt_eq hq]
    rfl
  · refine ⟨rfl, rfl, rfl, ⟨Equiv.swap i j, fun x hx => ?_, hheap⟩, ⟨?_, ?_⟩, ?_⟩
    · exact Equiv.swap_apply_of_ne_of_ne (by omega) (by omega)
    · intro x hx
      dsimp only
      rcases eq_or_ne x j with rfl | hxj
      · exact ⟨p, Function.update_self ..⟩
      rw [Function.update_of_ne hxj]
      rcases eq_or_ne x i with rfl | hxi
      · exact ⟨q, Function.update_self ..⟩
      rw [Function.update_of_ne hxi]
      exact h.filled x hx
    · intro x hx r hr
      dsimp only at hr ⊢
      rcases eq_or_ne x j with rfl | hxj
      · rw [Function.update_self] at hr
        obtain rfl := Option.some.inj hr
        exact Function.update_self ..
      rw [Function.update_of_ne hxj] at hr
      rcases eq_or_ne x i with rfl | hxi
      · rw [Function.update_self] at hr
        obtain rfl := Option.some.inj hr
        rw [Function.update_of_ne hpq, Function.update_self]
      rw [Function.update_of_ne hxi] at hr
      -- the node of any other slot is neither of the two
      have hrp : r ≠ p := fun he => hxi (h.unique hx hi hr (he ▸ hp))
      have hrq : r ≠ q := fun he => hxj (h.unique hx hj hr (he ▸ hq))
      rw [Function.update_of_ne hrp, Function.update_of_ne hrq]
      exact h.idx x hx r hr
    · intro r hr
      have hrp : r ≠ p := fun he => hr ⟨i, hi, he ▸ hp⟩
      have hrq : r ≠ q := fun he => hr ⟨j, hj, he ▸ hq⟩
      dsimp only
      rw [Function.update_of_ne hrp, Function.update_of_ne hrq]
  · funext x
    unfold slotCost swapped
    dsimp only
    rw [hheap]
    rfl

/-! ## `push_down` -/

omit [DecidableEq P] in
theorem minChild_spec (h : Slots s) (hi : i < s.heapsize) :
    minChild s s.heapsize i j =
      .ok (if j < s.heapsize ∧ slotCost s j < slotCost s i then j else i) := by
  unfold minChild
  by_cases hj : j < s.heapsize
  · obtain ⟨p, hp⟩ := h.filled i hi
    obtain ⟨q, hq⟩ := h.filled j hj
    rw [if_pos hj, heapAt_eq hp, heapAt_eq hq, slotCost_eq hp, slotCost_eq hq]
    by_cases hlt : s.cost q < s.cost p
    · rw [if_pos ⟨hj, hlt⟩]
      exact congrArg Except.ok (if_pos hlt)
    · rw [if_neg fun hc => hlt hc.2]
      exact congrArg Except.ok (if_neg hlt)
  · rw [if_neg hj, if_neg fun hc => hj hc.1]
    rfl

omit [DecidableEq P] in
/-- **The two comparisons** find the slot itself when no slot below costs less, and else the one
below that costs least. -/
theorem minChildren_spec (h : Slots s) (hi : i < s.heapsize) :
    ∃ m, minChildren s s.heapsize i = .ok m ∧ slotCost s m ≤ slotCost s i ∧
      (∀ j, 0 < j → j < s.heapsize → above j = i → slotCost s m ≤ slotCost s j) ∧
      (m ≠ i → 0 < m ∧ m < s.heapsize ∧ above m = i) := by
  have hbelow : ∀ j, 0 < j → above j = i → j = 2 * i + 1 ∨ j = 2 * i + 2 := by
    intro j hpos hj
    unfold above at hj
    omega
  have hfirst := @minChild_spec _ s i (2 * i + 1) h hi
  set a := if 2 * i + 1 < s.heapsize ∧ slotCost s (2 * i + 1) < slotCost s i then 2 * i + 1 else i
    with ha
  have hal : a < s.heapsize := by
    rw [ha]
    split_ifs with hc
    · exact hc.1
    · exact hi
  have hsecond := @minChild_spec _ s a (2 * i + 2) h hal
  set b := if 2 * i + 2 < s.heapsize ∧ slotCost s (2 * i + 2) < slotCost s a then 2 * i + 2 else a
    with hb
  have hai : slotCost s a ≤ slotCost s i := by
    rw [ha]
    split_ifs with hc
    · exact hc.2.le
    · exact le_rfl
  have hba : slotCost s b ≤ slotCost s a := by
    rw [hb]
    split_ifs with hc
    · exact hc.2.le
    · exact le_rfl
  refine ⟨b, ?_, hba.trans hai, ?_, ?_⟩
  · unfold minChildren
    rw [hfirst]
    exact hsecond
  · intro j hpos hj hja
    rcases hbelow j hpos hja with rfl | rfl
    · refine hba.trans ?_
      by_contra hlt
      have hgt : slotCost s (2 * i + 1) < slotCost s i := (not_le.mp hlt).trans_le hai
      rw [ha, if_pos ⟨hj, hgt⟩] at hlt
      exact hlt le_rfl
    · by_contra hlt
      have hgt : slotCost s (2 * i + 2) < slotCost s a := (not_le.mp hlt).trans_le hba
      rw [hb, if_pos ⟨hj, hgt⟩] at hlt
      exact hlt le_rfl
  · intro hne
    have hle : b = 2 * i + 2 ∧ b < s.heapsize ∨ b = 2 * i + 1 ∧ b < s.heapsize := by
      rw [hb] at hne ⊢
      split_ifs at hne ⊢ with hc
      · exact Or.inl ⟨rfl, hc.1⟩
      · refine Or.inr ⟨?_, hal⟩
        rw [ha] at hne ⊢
        exact if_pos (by by_contra hc'; exact hne (if_neg hc'))
    unfold above
    omega

/-- **`push_down` from a slot that may cost too much.** -/
theorem pushDown_spec (h : Slots s) (hi : i < s.heapsize)
    (hd : Heap.Down (slotCost s) s.heapsize i) :
    ∃ s', pushDown s s.heapsize i = .ok s' ∧ Shuffled s s' ∧
      Ordered (slotCost s') s'.heapsize := by
  induction hk : s.heapsize - i using Nat.strong_induction_on generalizing s i with
  | _ k ih =>
    obtain ⟨m, hm, hle, hleast, hbelow⟩ := minChildren_spec h hi
    rw [pushDown]
    by_cases hne : m = i
    · subst hne
      refine ⟨s, ?_, .refl h, hd.done hleast⟩
      split
      · rename_i he
        exact absurd (he.symm.trans hm) (by simp)
      · rename_i he
        obtain rfl := Except.ok.inj (he.symm.trans hm)
        exact dif_pos rfl
    · obtain ⟨hpos, hlt, habove⟩ := hbelow hne
      obtain ⟨t, hswap, ht, hcost⟩ := swapSlots_spec h hi hlt (Ne.symm hne)
      have him : i < m := habove ▸ above_lt hpos
      have hlt' : m < t.heapsize := ht.heapsize.symm ▸ hlt
      have hd' : Heap.Down (slotCost t) t.heapsize m := by
        rw [hcost, ht.heapsize]
        exact hd.swap hpos hlt habove hle hleast
      have hsize := ht.heapsize
      obtain ⟨s', hs', hshuffled, hordered⟩ := ih _ (by omega) ht.slots hlt' hd' rfl
      refine ⟨s', ?_, ht.trans hshuffled, hordered⟩
      split
      · rename_i he
        exact absurd (he.symm.trans hm) (by simp)
      · rename_i he
        obtain rfl := Except.ok.inj (he.symm.trans hm)
        rw [dif_neg (Ne.symm hne), hswap]
        exact hsize ▸ hs'

/-- **`pull_up` from a slot that may cost too little.** -/
theorem pullUp_spec (h : Slots s) (hi : i < s.heapsize) (hu : Heap.Up (slotCost s) s.heapsize i) :
    ∃ s', pullUp s i = .ok s' ∧ Shuffled s s' ∧ Ordered (slotCost s') s'.heapsize := by
  induction i using Nat.strong_induction_on generalizing s with
  | _ i ih =>
    rw [pullUp]
    by_cases hzero : i = 0
    · refine ⟨s, dif_pos hzero, .refl h, hu.done fun hpos => absurd hpos (by omega)⟩
    · have hpos : 0 < i := Nat.pos_of_ne_zero hzero
      have hlt : above i < i := above_lt hpos
      obtain ⟨p, hp⟩ := h.filled (above i) (hlt.trans hi)
      obtain ⟨q, hq⟩ := h.filled i hi
      rw [dif_neg hzero]
      change ∃ s', (do
        let p ← heapAt s (above i)
        let q ← heapAt s i
        if s.cost p ≤ s.cost q then return s
        else
          let s ← swapSlots s i (above i)
          pullUp s (above i)) = Except.ok s' ∧ _
      rw [heapAt_eq hp, heapAt_eq hq, ok_bind, ok_bind, ← slotCost_eq hp, ← slotCost_eq hq]
      by_cases hle : slotCost s (above i) ≤ slotCost s i
      · exact ⟨s, if_pos hle, .refl h, hu.done fun _ => hle⟩
      · rw [if_neg hle]
        obtain ⟨t, hswap, ht, hcost⟩ := swapSlots_spec h hi (hlt.trans hi) hlt.ne'
        have hu' : Heap.Up (slotCost t) t.heapsize (above i) := by
          rw [hcost, ht.heapsize]
          exact hu.swap hpos hi (not_le.mp hle).le
        have hsize := ht.heapsize
        obtain ⟨s', hs', hshuffled, hordered⟩ := ih _ hlt ht.slots (by omega) hu'
        refine ⟨s', ?_, ht.trans hshuffled, hordered⟩
        rw [hswap]
        exact hs'

end Dvpn
