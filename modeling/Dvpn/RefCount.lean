import Mathlib

/-!
# Objects with reference counts

`RefHeap α β` is a heap whose objects `β`, at the addresses `α`, count the references to them:
`alloc` puts an object into a free place and gives its first reference, `get` makes one more, and
`put` gives one back and releases the object with the last one. Neither finds an object at an
address that is free.

A reference is a `P`, with its address and the object that its holder takes to be there.
`Counts heap refs` says that the heap is right about the references `refs`, all that there are:
each of them finds its object, and an object counts its references, of which there is one at least.

* `Counts.alloc`, `Counts.get`, `Counts.put`: the three operations under this reading. A reference
  that is there can be copied and given back, so no holder ever meets a free place.
* `Counts.fresh`: the free places are those that no reference points to.
* `Counts.obj_eq`: two references to one place are to one object.

`Ends x q e` is the rule for calls that may fail: `x` gives a result with `q`, or an error with
`e`.
-/

namespace Dvpn

/-! ## The heap -/

/-- What is at an address, and how many references to it there are. -/
abbrev RefHeap (α β : Type) := α → Option (β × Nat)

namespace RefHeap

variable {α β : Type} [DecidableEq α]

/-- A new object, with one reference. -/
def alloc (heap : RefHeap α β) (a : α) (b : β) : RefHeap α β := Function.update heap a (some (b, 1))

/-- One more reference to what is at `a`. -/
def get (heap : RefHeap α β) (a : α) : Option (RefHeap α β) :=
  match heap a with
  | none => none
  | some (b, k) => some (Function.update heap a (some (b, k + 1)))

/-- One reference less to what is at `a`; the object, when it was the last one. -/
def put (heap : RefHeap α β) (a : α) : Option (RefHeap α β × Option β) :=
  match heap a with
  | none => none
  | some (b, k) =>
    if k - 1 = 0 then some (Function.update heap a none, some b)
    else some (Function.update heap a (some (b, k - 1)), none)

end RefHeap

/-! ## The references that there are -/

section Counts

variable {P α β : Type} [DecidableEq α] (addr : P → α) (obj : P → β)

/-- How many of the references are to `a`. -/
def refsTo (refs : Multiset P) (a : α) : Nat := refs.countP fun p => addr p = a

/-- The heap is right about the references `refs`. -/
structure Counts (heap : RefHeap α β) (refs : Multiset P) : Prop where
  live : ∀ p ∈ refs, ∃ k, heap (addr p) = some (obj p, k)
  count : ∀ a b k, heap a = some (b, k) → 0 < k ∧ k = refsTo addr refs a

variable {addr obj} {heap : RefHeap α β} {refs : Multiset P} {p q : P} {a : α} {b : β}

theorem refsTo_cons : refsTo addr (p ::ₘ refs) a =
    refsTo addr refs a + if addr p = a then 1 else 0 :=
  Multiset.countP_cons _ _ _

theorem refsTo_eq_zero : refsTo addr refs a = 0 ↔ ∀ p ∈ refs, addr p ≠ a :=
  Multiset.countP_eq_zero

theorem Counts.empty : Counts addr obj (fun _ => none : RefHeap α β) 0 :=
  ⟨fun _ h => absurd h (Multiset.notMem_zero _), fun _ _ _ h => absurd h (by simp)⟩

/-- A place is free iff there is no reference to it. -/
theorem Counts.fresh (h : Counts addr obj heap refs) :
    heap a = none ↔ ∀ p ∈ refs, addr p ≠ a := by
  constructor
  · rintro hnone p hp rfl
    obtain ⟨k, hk⟩ := h.live p hp
    exact absurd (hnone.symm.trans hk) (by simp)
  · intro hne
    cases ha : heap a with
    | none => rfl
    | some x =>
      obtain ⟨hpos, hk⟩ := h.count a x.1 x.2 ha
      rw [hk, refsTo_eq_zero.mpr hne] at hpos
      exact absurd hpos (lt_irrefl 0)

/-- Two references to one place are to one object. -/
theorem Counts.obj_eq (h : Counts addr obj heap refs) (hp : p ∈ refs) (hq : q ∈ refs)
    (ha : addr p = addr q) : obj p = obj q := by
  obtain ⟨k, hk⟩ := h.live p hp
  obtain ⟨k', hk'⟩ := h.live q hq
  rw [ha, hk'] at hk
  exact (Prod.mk.inj (Option.some.inj hk)).1.symm

/-- **A new object** in a free place. -/
theorem Counts.alloc (h : Counts addr obj heap refs) (p : P) (hfree : heap (addr p) = none) :
    Counts addr obj (heap.alloc (addr p) (obj p)) (p ::ₘ refs) := by
  have hne := h.fresh.mp hfree
  refine ⟨fun q hq => ?_, fun a b k ha => ?_⟩
  · rcases Multiset.mem_cons.mp hq with rfl | hq
    · exact ⟨1, Function.update_self _ _ _⟩
    · rw [RefHeap.alloc, Function.update_of_ne (hne q hq)]
      exact h.live q hq
  · by_cases hap : a = addr p
    · subst hap
      rw [RefHeap.alloc, Function.update_self] at ha
      obtain ⟨rfl, rfl⟩ := Prod.mk.inj (Option.some.inj ha)
      rw [refsTo_cons, refsTo_eq_zero.mpr hne, if_pos rfl]
      exact ⟨Nat.one_pos, rfl⟩
    · rw [RefHeap.alloc, Function.update_of_ne hap] at ha
      rw [refsTo_cons, if_neg (Ne.symm hap)]
      exact h.count a b k ha

/-- **A reference is copied.** -/
theorem Counts.get (h : Counts addr obj heap refs) (hp : p ∈ refs) :
    ∃ heap', heap.get (addr p) = some heap' ∧ Counts addr obj heap' (p ::ₘ refs) := by
  obtain ⟨k, hk⟩ := h.live p hp
  refine ⟨Function.update heap (addr p) (some (obj p, k + 1)), by rw [RefHeap.get, hk],
    fun q hq => ?_, fun a b k' ha => ?_⟩
  · have hq : q ∈ refs := (Multiset.mem_cons.mp hq).elim (fun e => e ▸ hp) id
    by_cases hqp : addr q = addr p
    · rw [hqp, h.obj_eq hq hp hqp]
      exact ⟨k + 1, Function.update_self _ _ _⟩
    · rw [Function.update_of_ne hqp]
      exact h.live q hq
  · by_cases hap : a = addr p
    · subst hap
      rw [Function.update_self] at ha
      obtain ⟨-, rfl⟩ := Prod.mk.inj (Option.some.inj ha)
      rw [refsTo_cons, if_pos rfl]
      exact ⟨Nat.succ_pos k, congrArg (· + 1) (h.count _ _ _ hk).2⟩
    · rw [Function.update_of_ne hap] at ha
      rw [refsTo_cons, if_neg (Ne.symm hap)]
      exact h.count a b k' ha

/-- **A reference is given back.** What is released is what it was a reference to. -/
theorem Counts.put (h : Counts addr obj heap (p ::ₘ refs)) :
    ∃ heap' released, heap.put (addr p) = some (heap', released) ∧ Counts addr obj heap' refs ∧
      ∀ b, released = some b → b = obj p := by
  obtain ⟨k, hk⟩ := h.live p (Multiset.mem_cons_self p refs)
  have hcount := (h.count _ _ _ hk).2
  rw [refsTo_cons, if_pos rfl] at hcount
  have hlive : ∀ q ∈ refs, ∃ k, heap (addr q) = some (obj q, k) := fun q hq =>
    h.live q (Multiset.mem_cons_of_mem hq)
  have hother : ∀ a b k', a ≠ addr p → heap a = some (b, k') →
      0 < k' ∧ k' = refsTo addr refs a := by
    intro a b k' hap ha
    have hc := h.count a b k' ha
    rwa [refsTo_cons, if_neg (Ne.symm hap)] at hc
  by_cases hlast : k - 1 = 0
  · have hne := refsTo_eq_zero.mp (show refsTo addr refs (addr p) = 0 by omega)
    refine ⟨Function.update heap (addr p) none, some (obj p),
      by rw [RefHeap.put, hk]; exact if_pos hlast, ⟨fun q hq => ?_, fun a b k' ha => ?_⟩,
      fun b hb => (Option.some.inj hb).symm⟩
    · rw [Function.update_of_ne (hne q hq)]
      exact hlive q hq
    · have hap : a ≠ addr p := by
        rintro rfl
        rw [Function.update_self] at ha
        exact absurd ha (by simp)
      rw [Function.update_of_ne hap] at ha
      exact hother a b k' hap ha
  · refine ⟨Function.update heap (addr p) (some (obj p, k - 1)), none,
      by rw [RefHeap.put, hk]; exact if_neg hlast, ⟨fun q hq => ?_, fun a b k' ha => ?_⟩,
      fun b hb => absurd hb (by simp)⟩
    · by_cases hqp : addr q = addr p
      · rw [hqp, h.obj_eq (Multiset.mem_cons_of_mem hq) (Multiset.mem_cons_self p refs) hqp]
        exact ⟨k - 1, Function.update_self _ _ _⟩
      · rw [Function.update_of_ne hqp]
        exact hlive q hq
    · by_cases hap : a = addr p
      · subst hap
        rw [Function.update_self] at ha
        obtain ⟨-, rfl⟩ := Prod.mk.inj (Option.some.inj ha)
        omega
      · rw [Function.update_of_ne hap] at ha
        exact hother a b k' hap ha

end Counts

/-! ## Calls that may fail -/

section Ends

variable {χ σ τ : Type} {x : Except χ σ} {f : σ → Except χ τ} {q q' : σ → Prop} {r : τ → Prop}
  {e : χ → Prop}

/-- The call gives a result with `q`, or an error with `e`. -/
def Ends (x : Except χ σ) (q : σ → Prop) (e : χ → Prop) : Prop :=
  match x with
  | .ok a => q a
  | .error c => e c

theorem Ends.ok {a : σ} (h : q a) : Ends (.ok a : Except χ σ) q e := h

theorem Ends.mono (h : Ends x q e) (hq : ∀ a, q a → q' a) : Ends x q' e := by
  cases x with
  | ok a => exact hq a h
  | error c => exact h

/-- **One call after another.** -/
theorem Ends.bind (h : Ends x q e) (hf : ∀ a, q a → Ends (f a) r e) : Ends (x >>= f) r e := by
  cases x with
  | ok a => exact hf a h
  | error c => exact h

end Ends

end Dvpn
