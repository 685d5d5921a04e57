import Mathlib

/-!
# Blocks of memory

`Blocks α β` is the memory that `malloc` has given out: what is in the blocks, by their addresses.
`free` does not find a block at an address that is free, and so sees a second `free`.

`Owns heap blocks` says that the memory has the blocks `blocks` and no others. It is the sum of what
its owners have, so a block has one owner, and a block that nobody owns would be a leak.

* `Owns.alloc`, `Owns.free`, `Owns.write`: the operations under this reading. What the other owners
  have is the frame, the rest of the sum.
* `Owns.read`, `Owns.fresh`: what is at an address.
* `Blocks.free_store`: a block that is given back at once leaves the memory as it was.
-/

namespace Dvpn

/-- What is in the blocks. -/
abbrev Blocks (α β : Type) := α → Option β

namespace Blocks

variable {α β : Type} [DecidableEq α]

/-- What `malloc` gives at a free address, or a write to a block. -/
def store (heap : Blocks α β) (a : α) (b : β) : Blocks α β := Function.update heap a (some b)

/-- `free`, which is undefined for what is not a block. -/
def free (heap : Blocks α β) (a : α) : Option (Blocks α β) :=
  match heap a with
  | none => none
  | some _ => some (Function.update heap a none)

end Blocks

section Owns

variable {α β : Type}

/-- The memory has the blocks, and no others. -/
structure Owns (heap : Blocks α β) (blocks : Multiset (α × β)) : Prop where
  mem : ∀ a b, heap a = some b ↔ (a, b) ∈ blocks
  nodup : (blocks.map Prod.fst).Nodup

variable {heap : Blocks α β} {blocks : Multiset (α × β)} {a : α} {b : β}

theorem Owns.empty : Owns (fun _ => none : Blocks α β) 0 :=
  ⟨fun _ _ => by simp, Multiset.nodup_zero⟩

theorem Owns.read (h : Owns heap blocks) (hm : (a, b) ∈ blocks) : heap a = some b :=
  (h.mem a b).mpr hm

/-- An address is free iff no block is there. -/
theorem Owns.fresh (h : Owns heap blocks) : heap a = none ↔ a ∉ blocks.map Prod.fst := by
  rw [Option.eq_none_iff_forall_ne_some, Multiset.mem_map]
  constructor
  · rintro hne ⟨⟨a', b⟩, hm, rfl⟩
    exact hne b ((h.mem a' b).mpr hm)
  · rintro hn b hb
    exact hn ⟨(a, b), (h.mem a b).mp hb, rfl⟩

variable [DecidableEq α]

/-- **A new block.** -/
theorem Owns.alloc (h : Owns heap blocks) (b : β) (hfree : heap a = none) :
    Owns (heap.store a b) ((a, b) ::ₘ blocks) := by
  have hnot := h.fresh.mp hfree
  refine ⟨fun a' b' => ?_, by rw [Multiset.map_cons]; exact Multiset.nodup_cons.mpr ⟨hnot, h.nodup⟩⟩
  rw [Multiset.mem_cons, Blocks.store]
  by_cases ha : a' = a
  · subst ha
    rw [Function.update_self, Option.some.injEq, Prod.mk.injEq]
    refine ⟨fun e => Or.inl ⟨rfl, e.symm⟩, ?_⟩
    rintro (⟨-, rfl⟩ | hm)
    · rfl
    · exact absurd (Multiset.mem_map_of_mem Prod.fst hm) hnot
  · rw [Function.update_of_ne ha, h.mem]
    exact (or_iff_right fun e => ha (Prod.mk.inj e).1).symm

/-- **A block goes away**, and leaves the others. -/
theorem Owns.free (h : Owns heap ((a, b) ::ₘ blocks)) :
    ∃ heap', heap.free a = some heap' ∧ Owns heap' blocks := by
  have hread := h.read (Multiset.mem_cons_self _ _)
  have hnodup := h.nodup
  rw [Multiset.map_cons, Multiset.nodup_cons] at hnodup
  refine ⟨Function.update heap a none, by rw [Blocks.free, hread], fun a' b' => ?_, hnodup.2⟩
  by_cases ha : a' = a
  · subst ha
    rw [Function.update_self]
    refine iff_of_false (Option.some_ne_none b').symm fun hm => ?_
    exact hnodup.1 (Multiset.mem_map.mpr ⟨_, hm, rfl⟩)
  · rw [Function.update_of_ne ha, h.mem, Multiset.mem_cons]
    exact or_iff_right fun e => ha (Prod.mk.inj e).1

/-- **A write** to a block. -/
theorem Owns.write (h : Owns heap ((a, b) ::ₘ blocks)) (b' : β) :
    Owns (heap.store a b') ((a, b') ::ₘ blocks) := by
  obtain ⟨heap', hfree, h'⟩ := h.free
  have hread := h.read (Multiset.mem_cons_self _ _)
  rw [Blocks.free, hread, Option.some.injEq] at hfree
  have hnone : heap' a = none := by rw [← hfree, Function.update_self]
  have halloc := h'.alloc b' hnone
  rwa [← hfree, Blocks.store, Function.update_idem] at halloc

/-- What is given back at once. -/
theorem Blocks.free_store (hfree : heap a = none) : (heap.store a b).free a = some heap := by
  rw [Blocks.free, Blocks.store, Function.update_self]
  exact congrArg some (by rw [Function.update_idem, ← hfree, Function.update_eq_self])

end Owns

end Dvpn
