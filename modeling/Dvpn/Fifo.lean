import Mathlib.Data.List.Basic

/-!
# What passes through a queue

`Passes held out inn held'`: a queue that held `held` let `out` go at its front, took `inn` at its
back, and holds `held'`. Nothing is lost, added or overtaken.

* `Passes.trans`: what passes in two stretches passes in one after the other.
* `Passes.pop`, `Passes.put`: the front goes, the back comes.
-/

namespace Fifo

variable {α : Type} {held held' held'' out out' inn inn' : List α}

/-- `out` left at the front, `inn` came at the back. -/
def Passes (held out inn held' : List α) : Prop := out ++ held' = held ++ inn

theorem Passes.refl (held : List α) : Passes held [] [] held := (List.append_nil held).symm

theorem Passes.trans (h : Passes held out inn held') (h' : Passes held' out' inn' held'') :
    Passes held (out ++ out') (inn ++ inn') held'' := by
  unfold Passes at h h' ⊢
  rw [List.append_assoc, h', ← List.append_assoc, h, List.append_assoc]

/-- The front goes. -/
theorem Passes.pop (held : List α) (n : Nat) : Passes held (held.take n) [] (held.drop n) := by
  unfold Passes
  rw [List.take_append_drop, List.append_nil]

/-- The back comes. -/
theorem Passes.put (held inn : List α) : Passes held [] inn (held ++ inn) := rfl

end Fifo
