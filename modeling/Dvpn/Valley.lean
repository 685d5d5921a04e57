import Mathlib

/-!
# Paths with one peak

A path goes up, over at most one step of any kind, and then down. `Accepts` is the automaton that
reads such a path from its start: it goes on in its first state (`true`) while the steps go up, any
other step takes it to the second one, and there every step goes down. A step may go both ways.

* `accepts_false`, `accepts_iff_split`: what the automaton accepts from each of its states.
* `accepts_of_false`: the first state accepts what the second one does.
* `accepts_iff`: the same with the place of the peak.
-/

namespace Dvpn.Valley

variable {α : Type} (up down : α → Prop)

/-- The steps are accepted from the first state (`true`) or from the second one. -/
def Accepts : Bool → List α → Prop
  | _, [] => True
  | true, h :: hs => up h ∧ Accepts true hs ∨ ¬ up h ∧ Accepts false hs
  | false, h :: hs => down h ∧ Accepts false hs

variable {up down} {h : α} {hs : List α}

theorem accepts_false : Accepts up down false hs ↔ ∀ h ∈ hs, down h := by
  induction hs with
  | nil => simp [Accepts]
  | cons h hs ih => rw [Accepts, ih, List.forall_mem_cons]

/-- **A path up, a step of any kind, and a path down.** -/
theorem accepts_iff_split : Accepts up down true hs ↔
    ∃ l m r, hs = l ++ (m ++ r) ∧ m.length ≤ 1 ∧ (∀ h ∈ l, up h) ∧ ∀ h ∈ r, down h := by
  induction hs with
  | nil =>
    refine iff_of_true trivial ⟨[], [], [], rfl, Nat.zero_le 1, ?_, ?_⟩
    · exact fun h hm => absurd hm List.not_mem_nil
    · exact fun h hm => absurd hm List.not_mem_nil
  | cons h hs ih =>
    rw [Accepts, ih, accepts_false]
    constructor
    · rintro (⟨hup, l, m, r, rfl, hm, hl, hr⟩ | ⟨-, hdown⟩)
      · exact ⟨h :: l, m, r, rfl, hm, List.forall_mem_cons.mpr ⟨hup, hl⟩, hr⟩
      · exact ⟨[], [h], hs, rfl, le_rfl, fun h hm => absurd hm List.not_mem_nil, hdown⟩
    · rintro ⟨l, m, r, he, hm, hl, hr⟩
      cases l with
      | cons x l =>
        obtain ⟨rfl, rfl⟩ := List.cons.inj he
        obtain ⟨hup, hl⟩ := List.forall_mem_cons.mp hl
        exact Or.inl ⟨hup, l, m, r, rfl, hm, hl, hr⟩
      | nil =>
        have hdown : ∀ x ∈ hs, down x := by
          intro x hx
          cases m with
          | nil =>
            obtain rfl : h :: hs = r := he
            exact hr x (List.mem_cons_of_mem h hx)
          | cons y m =>
            obtain rfl := List.eq_nil_of_length_eq_zero (Nat.le_zero.mp (Nat.le_of_succ_le_succ hm))
            obtain ⟨-, rfl⟩ := List.cons.inj he
            exact hr x hx
        by_cases hup : up h
        · -- the first step goes up, and the peak is the next one or not there
          refine Or.inl ⟨hup, [], hs.take 1, hs.drop 1, ?_, List.length_take_le 1 hs, ?_, ?_⟩
          · rw [List.nil_append, List.take_append_drop]
          · exact fun x hm => absurd hm List.not_mem_nil
          · exact fun x hx => hdown x (List.mem_of_mem_drop hx)
        · exact Or.inr ⟨hup, hdown⟩

theorem accepts_of_false (h : Accepts up down false hs) : Accepts up down true hs :=
  accepts_iff_split.mpr ⟨[], [], hs, rfl, Nat.zero_le 1, fun _ hm => absurd hm List.not_mem_nil,
    accepts_false.mp h⟩

/-- **A peak**: the steps before it go up, the steps after it go down. -/
theorem accepts_iff : Accepts up down true hs ↔
    ∃ k : ℕ, ∀ i h, hs[i]? = some h → (i < k → up h) ∧ (k < i → down h) := by
  rw [accepts_iff_split]
  constructor
  · rintro ⟨l, m, r, rfl, hm, hl, hr⟩
    refine ⟨l.length, fun i h hi => ⟨fun hlt => ?_, fun hgt => ?_⟩⟩
    · rw [List.getElem?_append_left hlt] at hi
      exact hl h (List.mem_of_getElem? hi)
    · rw [List.getElem?_append_right hgt.le, List.getElem?_append_right (by omega)] at hi
      exact hr h (List.mem_of_getElem? hi)
  · rintro ⟨k, hk⟩
    refine ⟨hs.take k, (hs.drop k).take 1, (hs.drop k).drop 1, ?_, List.length_take_le 1 _, ?_, ?_⟩
    · rw [List.take_append_drop, List.take_append_drop]
    · intro h hm
      obtain ⟨i, hi⟩ := List.mem_iff_getElem?.mp hm
      rw [List.getElem?_take] at hi
      split_ifs at hi with hlt
      exact (hk i h hi).1 hlt
    · intro h hm
      obtain ⟨i, hi⟩ := List.mem_iff_getElem?.mp hm
      rw [List.getElem?_drop, List.getElem?_drop] at hi
      exact (hk _ h hi).2 (by omega)

end Dvpn.Valley
