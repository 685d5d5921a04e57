import Mathlib

/-!
# What is registered with an event loop

An event loop keeps timers, file descriptors and the like, over any type `ρ` of names for them. It
is a misuse to register or to initialise what is registered, and to unregister what is not; a loop
complains about it and ends the program, or its lists are broken from then on. `Registry` has what
is held, and the misuses so far.

* `register_eq`, `unregister_eq`, `rearm_eq`: what proper use comes to.
* `mem_register`, `mem_unregister`: what is held after it, and `misuses_register` and the like, that
  it is no misuse.
-/

namespace Dvpn

/-- A misuse of an event loop. -/
inductive Misuse (ρ : Type) where
  | registered (r : ρ)
  | notRegistered (r : ρ)
  deriving DecidableEq, Repr

/-- What is registered, and the misuses so far. -/
@[ext] structure Registry (ρ : Type) where
  held : Finset ρ
  misuses : List (Misuse ρ)
  deriving DecidableEq

namespace Registry

variable {ρ : Type} [DecidableEq ρ] {reg : Registry ρ} {r : ρ} {held : Finset ρ}
  {misuses : List (Misuse ρ)}

/-- Nothing is registered. -/
def empty : Registry ρ := ⟨∅, []⟩

/-- Before it is registered, a timer is initialised. -/
def initialise (reg : Registry ρ) (r : ρ) : Registry ρ where
  held := reg.held
  misuses := reg.misuses ++ if r ∈ reg.held then [.registered r] else []

def register (reg : Registry ρ) (r : ρ) : Registry ρ where
  held := insert r reg.held
  misuses := reg.misuses ++ if r ∈ reg.held then [.registered r] else []

def unregister (reg : Registry ρ) (r : ρ) : Registry ρ where
  held := reg.held.erase r
  misuses := reg.misuses ++ if r ∈ reg.held then [] else [.notRegistered r]

/-- The loop removes a timer before it calls its handler. -/
def expire (reg : Registry ρ) (r : ρ) : Registry ρ := { reg with held := reg.held.erase r }

/-- A timer is set again. -/
def rearm (reg : Registry ρ) (r : ρ) : Registry ρ := (reg.unregister r).register r

theorem initialise_eq (h : r ∉ held) : initialise ⟨held, misuses⟩ r = ⟨held, misuses⟩ := by
  simp [initialise, h]

theorem register_eq (h : r ∉ held) :
    register ⟨held, misuses⟩ r = ⟨insert r held, misuses⟩ := by
  simp [register, h]

theorem unregister_eq (h : r ∈ held) :
    unregister ⟨held, misuses⟩ r = ⟨held.erase r, misuses⟩ := by
  simp [unregister, h]

theorem rearm_eq (h : r ∈ reg.held) : reg.rearm r = reg := by
  ext1
  · simp [rearm, register, unregister, Finset.insert_erase h]
  · simp [rearm, register, unregister, h]

theorem mem_register {x : ρ} : x ∈ (reg.register r).held ↔ x = r ∨ x ∈ reg.held :=
  Finset.mem_insert

theorem mem_unregister {x : ρ} : x ∈ (reg.unregister r).held ↔ x ≠ r ∧ x ∈ reg.held :=
  Finset.mem_erase

theorem misuses_register (h : r ∉ reg.held) : (reg.register r).misuses = reg.misuses := by
  simp [register, h]

theorem misuses_unregister (h : r ∈ reg.held) : (reg.unregister r).misuses = reg.misuses := by
  simp [unregister, h]

theorem initialise_of_notMem (h : r ∉ reg.held) : reg.initialise r = reg := by
  ext1
  · rfl
  · simp [initialise, h]

/-- A timer that its handler sets again. -/
theorem register_expire (h : r ∈ reg.held) : (reg.expire r).register r = reg := by
  ext1
  · simp [expire, register, Finset.insert_erase h]
  · simp [expire, register]

end Registry

end Dvpn
