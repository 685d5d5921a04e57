import Mathlib

/-!
# Runs of a machine under a contract

A machine is a step function `step : σ → ο → Except χ (σ × List ε)`: an operation on a state
gives a crash or a new state with the events it emitted. `contract s o` is what the caller
promises about the operation `o` in the state `s`.

`Run step contract s₀ os s es`: from `s₀` the operations `os` (oldest first), each within its
contract and none crashing, led to `s` and emitted `es`.

* `Run.invariant`: what holds at the start and is kept by every step holds of every run.
* `Run.det`: the operations fix the state and the events.
* `Run.initial`: a run passes through a state for each of its prefixes.
* `run_execute`: what `execute` computes is a run, when the operations are within the contract in
  any state.
-/

namespace Dvpn

variable {σ ο ε χ : Type}

/-- The runs of a machine within a contract. -/
inductive Run (step : σ → ο → Except χ (σ × List ε)) (contract : σ → ο → Prop) (s₀ : σ) :
    List ο → σ → List ε → Prop
  | nil : Run step contract s₀ [] s₀ []
  | snoc {os : List ο} {s s' : σ} {es es' : List ε} {o : ο} :
      Run step contract s₀ os s es → contract s o → step s o = .ok (s', es') →
      Run step contract s₀ (os ++ [o]) s' (es ++ es')

variable {step : σ → ο → Except χ (σ × List ε)} {contract contract' : σ → ο → Prop} {s₀ s s' : σ}
  {os os' : List ο} {es es' : List ε} {o : ο}

/-- **Invariants.** A relation between the operations, the state and the events that holds at
the start and is kept by every step holds of every run. -/
theorem Run.invariant (I : List ο → σ → List ε → Prop) (h0 : I [] s₀ [])
    (hstep : ∀ {os s es o s' es'}, I os s es → contract s o → step s o = .ok (s', es') →
      I (os ++ [o]) s' (es ++ es'))
    (h : Run step contract s₀ os s es) : I os s es := by
  induction h with
  | nil => exact h0
  | snoc _ hc hs ih => exact hstep ih hc hs

/-- The last step of a run. -/
theorem Run.snoc_inv (h : Run step contract s₀ (os ++ [o]) s' es) :
    ∃ s es₁ es₂, Run step contract s₀ os s es₁ ∧ contract s o ∧ step s o = .ok (s', es₂) ∧
      es = es₁ ++ es₂ := by
  generalize e : os ++ [o] = l at h
  cases h with
  | nil => exact absurd e (by simp)
  | snoc hr hc hs =>
    obtain ⟨rfl, e2⟩ := List.append_inj' e rfl
    obtain rfl := (List.cons.inj e2).1
    exact ⟨_, _, _, hr, hc, hs, rfl⟩

theorem Run.nil_inv (h : Run step contract s₀ [] s es) : s = s₀ ∧ es = [] := by
  generalize e : ([] : List ο) = l at h
  cases h with
  | nil => exact ⟨rfl, rfl⟩
  | snoc _ _ _ => exact absurd e (by simp)

/-- **Determinism.** The operations fix the state and the events. -/
theorem Run.det (h : Run step contract s₀ os s es) (h' : Run step contract' s₀ os s' es') :
    s = s' ∧ es = es' := by
  induction h generalizing s' es' with
  | nil =>
    obtain ⟨rfl, rfl⟩ := h'.nil_inv
    exact ⟨rfl, rfl⟩
  | snoc _ _ hs ih =>
    obtain ⟨t, es₁, es₂, hr, _, hs', rfl⟩ := h'.snoc_inv
    obtain ⟨rfl, rfl⟩ := ih hr
    rw [hs] at hs'
    obtain ⟨rfl, rfl⟩ := Prod.mk.inj (Except.ok.inj hs')
    exact ⟨rfl, rfl⟩

/-- **Intermediate states.** A run passes through a state for each of its prefixes. -/
theorem Run.initial (h : Run step contract s₀ os s es) (hp : os' <+: os) :
    ∃ s' es', Run step contract s₀ os' s' es' := by
  induction h with
  | nil =>
    obtain rfl := List.prefix_nil.mp hp
    exact ⟨_, _, .nil⟩
  | snoc hr hc hs ih =>
    rcases List.prefix_concat_iff.mp hp with rfl | hp
    · exact ⟨_, _, .snoc hr hc hs⟩
    · exact ih hp

/-- A run within a contract is one within any weaker contract. -/
theorem Run.mono (h : Run step contract s₀ os s es) (hw : ∀ s o, contract s o → contract' s o) :
    Run step contract' s₀ os s es := by
  induction h with
  | nil => exact .nil
  | snoc _ hc hs ih => exact .snoc ih (hw _ _ hc) hs

/-! ## Computed runs -/

/-- The operations one after the other. -/
def execute (step : σ → ο → Except χ (σ × List ε)) (s : σ) : List ο → Except χ (σ × List ε)
  | [] => .ok (s, [])
  | o :: os => do
    let (s, es) ← step s o
    let (s, es') ← execute step s os
    return (s, es ++ es')

/-- A run after a run. -/
theorem Run.append (h : Run step contract s₀ os s es) (h' : Run step contract s os' s' es') :
    Run step contract s₀ (os ++ os') s' (es ++ es') := by
  induction h' with
  | nil => rwa [List.append_nil, List.append_nil]
  | snoc _ hc hs ih =>
    rw [← List.append_assoc, ← List.append_assoc]
    exact .snoc ih hc hs

theorem run_execute (hc : ∀ o ∈ os, ∀ s, contract s o) (h : execute step s₀ os = .ok (s, es)) :
    Run step contract s₀ os s es := by
  induction os generalizing s₀ es with
  | nil =>
    obtain ⟨rfl, rfl⟩ := Prod.mk.inj (Except.ok.inj h)
    exact .nil
  | cons o os ih =>
    unfold execute at h
    cases hs : step s₀ o with
    | error e => simp [hs, bind, Except.bind] at h
    | ok r =>
      cases hos : execute step r.1 os with
      | error e => simp [hs, hos, bind, Except.bind] at h
      | ok r' =>
        simp only [hs, hos, bind, Except.bind, pure, Except.pure] at h
        obtain ⟨rfl, rfl⟩ := Prod.mk.inj (Except.ok.inj h)
        have hone : Run step contract s₀ [o] r.1 r.2 :=
          .snoc .nil (hc o List.mem_cons_self s₀) hs
        exact hone.append (ih (fun o' hm => hc o' (List.mem_cons_of_mem o hm)) hos)

end Dvpn
