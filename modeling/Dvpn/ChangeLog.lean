import Mathlib

/-!
# Change logs

A table `κ → Option β` is followed by a listener that is only told its changes: `add k v`,
`mod k old new`, `del k v`. `Applies view e view'` says that `e` is a change the listener can
make sense of: an `add` of a key that is absent from its view, a `mod` or `del` whose old value
is the one in the view. `Replays` is the same for a list of changes.

`change k old new` is the list of changes that a table makes when the value at `k` goes from
`old` to `new` and at least one of the two is there. `replays_change`: a listener that held
`old` at `k` and replays it holds `new` at `k`. `changeNe` leaves out a value that stays.

`Renamed f view table`: the table has the values of `view`, with `f k` for the key `k`.
-/

namespace Dvpn.ChangeLog

variable {κ κ' β : Type}

/-- A change of a table. -/
inductive Change (κ β : Type) where
  | add (k : κ) (v : β)
  | mod (k : κ) (old new : β)
  | del (k : κ) (v : β)

/-- The changes of the value at `k` from `old` to `new`. -/
def change (k : κ) : Option β → Option β → List (Change κ β)
  | none, none => []
  | none, some v => [.add k v]
  | some old, some new => [.mod k old new]
  | some old, none => [.del k old]

/-- The changes from `old` to `new`, where a value that stays is no change. -/
def changeNe [DecidableEq β] (k : κ) (old new : Option β) : List (Change κ β) :=
  if old = new then [] else change k old new

theorem ne_of_mem_changeNe [DecidableEq β] {k k' : κ} {old new : Option β} {v v' : β}
    (h : Change.mod k' v v' ∈ changeNe k old new) : v ≠ v' := by
  unfold changeNe at h
  split_ifs at h with heq
  · exact absurd h List.not_mem_nil
  · rcases old with - | old <;> rcases new with - | new <;> simp only [change, List.mem_singleton,
      List.not_mem_nil, reduceCtorEq, Change.mod.injEq] at h
    obtain ⟨-, rfl, rfl⟩ := h
    exact fun hv => heq (congrArg some hv)

/-- The table has the values of `view` under other keys. -/
def Renamed (f : κ → κ') (view : κ → Option β) (table : κ' → Option β) : Prop :=
  ∀ d v, table d = some v ↔ ∃ k, f k = d ∧ view k = some v

variable [DecidableEq κ]

/-- The change fits the view, and this is the view after it. -/
inductive Applies (view : κ → Option β) : Change κ β → (κ → Option β) → Prop
  | add {k : κ} {v : β} : view k = none →
      Applies view (.add k v) (Function.update view k (some v))
  | mod {k : κ} {old new : β} : view k = some old →
      Applies view (.mod k old new) (Function.update view k (some new))
  | del {k : κ} {v : β} : view k = some v →
      Applies view (.del k v) (Function.update view k none)

/-- Each change in turn fits the view the changes before it left. -/
inductive Replays : (κ → Option β) → List (Change κ β) → (κ → Option β) → Prop
  | nil {view : κ → Option β} : Replays view [] view
  | cons {view view' view'' : κ → Option β} {e : Change κ β} {es : List (Change κ β)} :
      Applies view e view' → Replays view' es view'' → Replays view (e :: es) view''

variable {view view' view'' : κ → Option β} {e : Change κ β} {es es' : List (Change κ β)}

theorem Applies.replays (h : Applies view e view') : Replays view [e] view' :=
  .cons h .nil

theorem Replays.append (h : Replays view es view') (h' : Replays view' es' view'') :
    Replays view (es ++ es') view'' := by
  induction h with
  | nil => exact h'
  | cons he _ ih => exact .cons he (ih h')

theorem Applies.det (h : Applies view e view') (h' : Applies view e view'') : view' = view'' := by
  cases h <;> cases h' <;> rfl

/-- The changes fix the view. -/
theorem Replays.det (h : Replays view es view') (h' : Replays view es view'') :
    view' = view'' := by
  induction h with
  | nil => cases h'; rfl
  | cons he _ ih =>
    cases h' with
    | cons he' hr' => exact ih (he.det he' ▸ hr')

/-- **One change of a table is followed.** -/
theorem replays_change (k : κ) (new : Option β) :
    Replays view (change k (view k) new) (Function.update view k new) := by
  cases hold : view k with
  | none =>
    cases new with
    | none =>
      have hself : Function.update view k none = view := by
        rw [← hold, Function.update_eq_self]
      rw [hself]
      exact .nil
    | some v => exact (Applies.add hold).replays
  | some old =>
    cases new with
    | none => exact (Applies.del hold).replays
    | some v => exact (Applies.mod hold).replays

theorem replays_changeNe [DecidableEq β] (k : κ) (new : Option β) :
    Replays view (changeNe k (view k) new) (Function.update view k new) := by
  unfold changeNe
  split_ifs with h
  · rw [← h, Function.update_eq_self]
    exact .nil
  · exact replays_change k new

section Renamed

variable {f : κ → κ'} {table : κ' → Option β} {k : κ}

omit [DecidableEq κ] in
/-- No other key with a value has the name of `k`. -/
theorem Renamed.get (h : Renamed f view table) (hk : ∀ k', view k' ≠ none → f k' = f k → k' = k) :
    table (f k) = view k := by
  refine Option.ext fun v => ?_
  rw [h]
  constructor
  · rintro ⟨k', hf, hv⟩
    have hne : view k' ≠ none := by rw [hv]; exact Option.some_ne_none v
    exact hk k' hne hf ▸ hv
  · exact fun hv => ⟨k, rfl, hv⟩

theorem Renamed.update [DecidableEq κ'] (h : Renamed f view table)
    (hk : ∀ k', view k' ≠ none → f k' = f k → k' = k) (new : Option β) :
    Renamed f (Function.update view k new) (Function.update table (f k) new) := by
  intro d v
  by_cases hd : d = f k
  · subst hd
    rw [Function.update_self]
    constructor
    · exact fun hv => ⟨k, rfl, by rw [Function.update_self, hv]⟩
    · rintro ⟨k', hf, hv⟩
      by_cases hkk : k' = k
      · rwa [hkk, Function.update_self] at hv
      · rw [Function.update_of_ne hkk] at hv
        exact absurd (hk k' (by rw [hv]; exact Option.some_ne_none v) hf) hkk
  · rw [Function.update_of_ne hd, h]
    refine exists_congr fun k' => and_congr_right fun hf => ?_
    have hkk : k' ≠ k := fun hkk => hd (by rw [← hf, hkk])
    rw [Function.update_of_ne hkk]

end Renamed

end Dvpn.ChangeLog
