import Dvpn.Avl

/-!
# Walking two trees while they change

A program compares two trees in a walk: it holds an element of each, takes the next ones from the
trees before it calls back, and the callbacks move elements between the very trees that it walks.
`Walk` are two trees in a state and what is done at a difference.

* `Walk.Keeps`: what is done at a difference leaves the rests of the two trees alone.
* `walk_step`: one step of such a walk is at the first difference of the two rests.
* `walk_spec`: the whole walk comes to the differences of the trees that it started from, each of
  them once and in order, unless it crashes at one of them.
-/

namespace Dvpn.Avl

variable {α κ σ χ : Type} [LinearOrder κ]

/-! ## The walk -/

/-- The ways a walk ends without returning. -/
inductive Halt (χ : Type) where
  | crash (e : χ)
  /-- the next element is asked of one that is not in the tree -/
  | stray
  | fuel

/-- Two trees in a state, and what is done at a difference between them. -/
structure Walk (α σ χ : Type) where
  left : σ → List α
  right : σ → List α
  item : Diff α → σ → Except (Halt χ) σ

/-- What a difference has of the first tree. -/
def Diff.ofLeft : Diff α → List α
  | add _ => []
  | mod a _ => [a]
  | del a => [a]

/-- What a difference has of the second tree. -/
def Diff.ofRight : Diff α → List α
  | add b => [b]
  | mod _ b => [b]
  | del _ => []

/-- The difference comes before the rests of both trees. -/
structure Diff.Front (key : α → κ) (l l' : List α) (d : Diff α) : Prop where
  left : ∀ x ∈ l, d.place key < key x
  right : ∀ y ∈ l', d.place key < key y
  same : ∀ a b, d = mod a b → key a = key b

/-- The next element of a tree. -/
def nextOf [DecidableEq α] (tree : List α) (x : α) : Except (Halt χ) (Option α) :=
  match tree.dropWhile fun y => y ≠ x with
  | [] => .error .stray
  | _ :: rest => .ok rest.head?

/-- The walk from the elements that it holds. -/
def walk [DecidableEq α] (w : Walk α σ χ) (cmp : α → α → Int) :
    Nat → Option α → Option α → σ → Except (Halt χ) σ
  | _, none, none, s => .ok s
  | 0, _, _, _ => .error .fuel
  | fuel + 1, some a, none, s => do
    let a' ← nextOf (w.left s) a
    let s ← w.item (.del a) s
    walk w cmp fuel a' none s
  | fuel + 1, none, some b, s => do
    let b' ← nextOf (w.right s) b
    let s ← w.item (.add b) s
    walk w cmp fuel none b' s
  | fuel + 1, some a, some b, s =>
    if cmp a b < 0 then do
      let a' ← nextOf (w.left s) a
      let s ← w.item (.del a) s
      walk w cmp fuel a' (some b) s
    else if cmp a b > 0 then do
      let b' ← nextOf (w.right s) b
      let s ← w.item (.add b) s
      walk w cmp fuel (some a) b' s
    else do
      let a' ← nextOf (w.left s) a
      let b' ← nextOf (w.right s) b
      let s ← w.item (.mod a b) s
      walk w cmp fuel a' b' s

/-- What is done at a difference `d` keeps `J P l l'`, which says what holds after the differences
`P` when `l` and `l'` are left of the trees, or it is a bad one and crashes. -/
structure Walk.Keeps (w : Walk α σ χ) (key : α → κ)
    (J : List (Diff α) → List α → List α → σ → Prop) (bad : Diff α → Prop) (e : χ) : Prop where
  left : ∀ {P l l' s}, J P l l' s → ∃ C, w.left s = C ++ l ∧ ∀ y ∈ C, ∀ z ∈ l, key y < key z
  right : ∀ {P l l' s}, J P l l' s → ∃ N, w.right s = N ++ l' ∧ ∀ y ∈ N, ∀ z ∈ l', key y < key z
  step : ∀ {P d l l' s}, J P (d.ofLeft ++ l) (d.ofRight ++ l') s → d.Front key l l' →
    bad d ∧ w.item d s = .error (.crash e) ∨
      ¬ bad d ∧ ∃ s', w.item d s = .ok s' ∧ J (P ++ [d]) l l' s'

/-- A walk over the differences `ds` after `P` comes to the end, or crashes at a bad one. -/
def Comes (J : List (Diff α) → List α → List α → σ → Prop) (bad : Diff α → Prop) (e : χ)
    (P ds : List (Diff α)) (r : Except (Halt χ) σ) : Prop :=
  (∃ d ∈ ds, bad d) ∧ r = .error (.crash e) ∨
    (∀ d ∈ ds, ¬ bad d) ∧ ∃ s', r = .ok s' ∧ J (P ++ ds) [] [] s'

variable {cmp : α → α → Int} {key : α → κ} {C l l' : List α} {x a b : α} {e : χ} {s : σ}
  {w : Walk α σ χ} {fuel : Nat} {d : Diff α} {J : List (Diff α) → List α → List α → σ → Prop}
  {bad : Diff α → Prop} {P : List (Diff α)}

/-! ## Trees of which the rest is known -/

/-- An element goes between those below and those above it. -/
theorem insert_between (ho : Orders cmp key) (hC : ∀ z ∈ C, key z < key x)
    (hl : ∀ z ∈ l, key x < key z) : insert cmp x (C ++ l) = some (C ++ x :: l) := by
  induction C with
  | nil =>
    cases l with
    | nil => rfl
    | cons z l =>
      have hlt := (ho.neg x z).mpr (hl z List.mem_cons_self)
      rw [List.nil_append, insert, if_neg (by omega), if_pos hlt, List.nil_append]
  | cons z C ih =>
    have hzx := hC z List.mem_cons_self
    have h0 : ¬ cmp x z = 0 := fun e => absurd ((ho.zero x z).mp e) (ne_of_gt hzx)
    have h1 : ¬ cmp x z < 0 := fun e => absurd ((ho.neg x z).mp e) (lt_asymm hzx)
    rw [List.cons_append, insert, if_neg h0, if_neg h1,
      ih fun y hy => hC y (List.mem_cons_of_mem z hy)]
    rfl

theorem notMem_of_below (h : ∀ z ∈ C, key z < key x) : x ∉ C := fun hx => lt_irrefl _ (h x hx)

omit [LinearOrder κ] in
theorem Diff.key_eq (hd : ∀ a b, d = mod a b → key a = key b) (hx : x ∈ d.ofLeft ++ d.ofRight) :
    key x = d.place key := by
  cases d with
  | add b => rw [List.mem_singleton.mp hx]; rfl
  | mod a b =>
    rcases List.mem_cons.mp hx with rfl | hx
    · rfl
    · rw [List.mem_singleton.mp hx]
      exact (hd a b rfl).symm
  | del a => rw [List.mem_singleton.mp hx]; rfl

omit [LinearOrder κ] in
theorem Diff.Of.same (h : d.Of key l l') : ∀ a b, d = mod a b → key a = key b := by
  rintro a b rfl
  exact h.2.2

omit [LinearOrder κ] in
theorem Diff.Of.mem_append (h : d.Of key l l') (hx : x ∈ d.ofLeft ++ d.ofRight) :
    x ∈ l ++ l' := by
  cases d with
  | add b => exact List.mem_append_right _ (List.mem_singleton.mp hx ▸ h.1)
  | mod a b =>
    rcases List.mem_cons.mp hx with rfl | hx
    · exact List.mem_append_left _ h.1
    · exact List.mem_append_right _ (List.mem_singleton.mp hx ▸ h.2.1)
  | del a => exact List.mem_append_left _ (List.mem_singleton.mp hx ▸ h.1)

/-- The differences have all of the first tree. -/
theorem flatMap_ofLeft (ho : Orders cmp key) (hs : Sorted key l) (hs' : Sorted key l') :
    (diff cmp l l').flatMap Diff.ofLeft = l := by
  refine diff_induction (motive := fun l l' => (diff cmp l l').flatMap Diff.ofLeft = l) ho rfl
    ?_ ?_ ?_ hs hs'
  · intro a l l' _ _ hdiff ih
    rw [hdiff, List.flatMap_cons, ih]
    rfl
  · intro b l l' _ _ hdiff ih
    rw [hdiff, List.flatMap_cons, ih]
    rfl
  · intro a b l l' _ _ _ hdiff ih
    rw [hdiff, List.flatMap_cons, ih]
    rfl

/-- The differences have all of the second tree. -/
theorem flatMap_ofRight (ho : Orders cmp key) (hs : Sorted key l) (hs' : Sorted key l') :
    (diff cmp l l').flatMap Diff.ofRight = l' := by
  refine diff_induction (motive := fun l l' => (diff cmp l l').flatMap Diff.ofRight = l') ho rfl
    ?_ ?_ ?_ hs hs'
  · intro a l l' _ _ hdiff ih
    rw [hdiff, List.flatMap_cons, ih]
    rfl
  · intro b l l' _ _ hdiff ih
    rw [hdiff, List.flatMap_cons, ih]
    rfl
  · intro a b l l' _ _ _ hdiff ih
    rw [hdiff, List.flatMap_cons, ih]
    rfl

/-- What is at the place of a difference, among what all differences have, is what it has. -/
theorem filter_flatMap_place {β : Type} {ds : List (Diff α)} (hs : Sorted (Diff.place key) ds)
    (hd : d ∈ ds) {f : Diff α → List β} {q : β → Bool}
    (hq : ∀ d' ∈ ds, ∀ x ∈ f d', q x = true ↔ d'.place key = d.place key) :
    (ds.flatMap f).filter q = f d := by
  induction ds with
  | nil => exact absurd hd List.not_mem_nil
  | cons d' ds ih =>
    obtain ⟨hlt, hs'⟩ := sorted_cons.mp hs
    have hrest : ∀ d' ∈ ds, ∀ x ∈ f d', q x = true ↔ d'.place key = d.place key :=
      fun d hd => hq d (List.mem_cons_of_mem d' hd)
    rw [List.flatMap_cons, List.filter_append]
    rcases List.mem_cons.mp hd with rfl | hd
    · have hself : (f d).filter q = f d :=
        List.filter_eq_self.mpr fun x hx => (hq d List.mem_cons_self x hx).mpr rfl
      have hnone : (ds.flatMap f).filter q = [] := by
        refine List.filter_eq_nil_iff.mpr fun x hx h => ?_
        obtain ⟨d', hd', hx⟩ := List.mem_flatMap.mp hx
        exact ne_of_gt (hlt d' hd') ((hrest d' hd' x hx).mp h)
      rw [hself, hnone, List.append_nil]
    · have hnone : (f d').filter q = [] := List.filter_eq_nil_iff.mpr fun x hx h =>
        ne_of_lt (hlt d hd) ((hq d' List.mem_cons_self x hx).mp h)
      rw [hnone, List.nil_append]
      exact ih hs' hd hrest

section DecidableEq

variable [DecidableEq α]

theorem erase_between (h : ∀ z ∈ C, key z < key x) : (C ++ x :: l).erase x = C ++ l := by
  rw [List.erase_append_right _ (notMem_of_below h), List.erase_cons_head]

/-- **The next element** is the first of the rest. -/
theorem nextOf_append (h : ∀ z ∈ C, key z < key x) :
    nextOf (χ := χ) (C ++ x :: l) x = .ok l.head? := by
  have hdrop : (C ++ x :: l).dropWhile (fun y => y ≠ x) = x :: l := by
    have hC : ∀ z ∈ C, decide (z ≠ x) = true := fun z hz =>
      decide_eq_true fun e => notMem_of_below h (e ▸ hz)
    rw [List.dropWhile_append_of_pos hC, List.dropWhile_cons_of_neg (by simp)]
  unfold nextOf
  rw [hdrop]

/-! ## The differences that a walk comes to -/

theorem Walk.Keeps.nextOf_left (h : w.Keeps key J bad e) (hJ : J P (a :: l) l' s) :
    nextOf (χ := χ) (w.left s) a = .ok l.head? := by
  obtain ⟨C, hC, hlt⟩ := h.left hJ
  rw [hC]
  exact nextOf_append fun y hy => hlt y hy a List.mem_cons_self

theorem Walk.Keeps.nextOf_right (h : w.Keeps key J bad e) (hJ : J P l (b :: l') s) :
    nextOf (χ := χ) (w.right s) b = .ok l'.head? := by
  obtain ⟨N, hN, hlt⟩ := h.right hJ
  rw [hN]
  exact nextOf_append fun y hy => hlt y hy b List.mem_cons_self

/-- **One step** of a walk is at the first difference of the two rests. -/
theorem walk_step (ho : Orders cmp key) (h : w.Keeps key J bad e)
    (hJ : J P (d.ofLeft ++ l) (d.ofRight ++ l') s) (hd : d.Front key l l') :
    walk w cmp (fuel + 1) (d.ofLeft ++ l).head? (d.ofRight ++ l').head? s =
      (w.item d s >>= walk w cmp fuel l.head? l'.head?) := by
  cases d with
  | del a =>
    have hnext := h.nextOf_left hJ
    cases l' with
    | nil =>
      show (nextOf (w.left s) a >>= _) = _
      rw [hnext]
      rfl
    | cons b l' =>
      have hneg : cmp a b < 0 := (ho.neg a b).mpr (hd.right b List.mem_cons_self)
      show (if cmp a b < 0 then _ else _) = _
      rw [if_pos hneg, hnext]
      rfl
  | add b =>
    have hnext := h.nextOf_right hJ
    cases l with
    | nil =>
      show (nextOf (w.right s) b >>= _) = _
      rw [hnext]
      rfl
    | cons a l =>
      have hlt : key b < key a := hd.left a List.mem_cons_self
      have h0 : ¬ cmp a b < 0 := fun hn => absurd ((ho.neg a b).mp hn) (lt_asymm hlt)
      have h1 : cmp a b > 0 := lt_of_le_of_ne (not_lt.mp h0)
        fun he => absurd ((ho.zero a b).mp he.symm) (ne_of_gt hlt)
      show (if cmp a b < 0 then _ else if cmp a b > 0 then _ else _) = _
      rw [if_neg h0, if_pos h1, hnext]
      rfl
  | mod a b =>
    have h0 : cmp a b = 0 := (ho.zero a b).mpr (hd.same a b rfl)
    show (if cmp a b < 0 then _ else if cmp a b > 0 then _ else _) = _
    rw [if_neg (by omega), if_neg (by omega), h.nextOf_left hJ, h.nextOf_right hJ]
    rfl

/-- The walks from `l` and `l'` come to their differences. -/
def Finishes (w : Walk α σ χ) (cmp : α → α → Int)
    (J : List (Diff α) → List α → List α → σ → Prop) (bad : Diff α → Prop) (e : χ)
    (l l' : List α) : Prop :=
  ∀ P s fuel, J P l l' s → l.length + l'.length ≤ fuel →
    Comes J bad e P (diff cmp l l') (walk w cmp fuel l.head? l'.head? s)

/-- The walks with one more difference at the front. -/
theorem Finishes.next (ho : Orders cmp key) (h : w.Keeps key J bad e) (hd : d.Front key l l')
    (hdiff : diff cmp (d.ofLeft ++ l) (d.ofRight ++ l') = d :: diff cmp l l')
    (hl : Finishes w cmp J bad e l l') :
    Finishes w cmp J bad e (d.ofLeft ++ l) (d.ofRight ++ l') := by
  intro P s fuel hJ hfuel
  have hpos : l.length + l'.length + 1 ≤ fuel := by
    cases d <;> simp [Diff.ofLeft, Diff.ofRight] at hfuel <;> omega
  obtain ⟨fuel, rfl⟩ : ∃ n, fuel = n + 1 := ⟨fuel - 1, by omega⟩
  rw [hdiff, walk_step ho h hJ hd]
  rcases h.step hJ hd with ⟨hbad, hitem⟩ | ⟨hok, s', hitem, hJ'⟩
  · rw [hitem]
    exact Or.inl ⟨⟨d, List.mem_cons_self, hbad⟩, rfl⟩
  · rw [hitem]
    rcases hl _ s' fuel hJ' (by omega) with ⟨⟨d', hd', hbad⟩, hr⟩ | ⟨hall, hr⟩
    · exact Or.inl ⟨⟨d', List.mem_cons_of_mem d hd', hbad⟩, hr⟩
    · refine Or.inr ⟨List.forall_mem_cons.mpr ⟨hok, hall⟩, ?_⟩
      rwa [List.append_assoc, List.singleton_append] at hr

/-- **A walk** comes to the differences of the two trees that it started from, each of them once
and in order, or crashes at the first bad one. -/
theorem walk_spec (ho : Orders cmp key) (h : w.Keeps key J bad e) (hs : Sorted key l)
    (hs' : Sorted key l') (hJ : J P l l' s) (hfuel : l.length + l'.length ≤ fuel) :
    Comes J bad e P (diff cmp l l') (walk w cmp fuel l.head? l'.head? s) := by
  -- the induction is along the comparison of what is left
  refine diff_induction (motive := Finishes w cmp J bad e) ho ?_ ?_ ?_ ?_ hs hs' P s fuel hJ hfuel
  · intro P s fuel hJ _
    have hP : P ++ diff cmp ([] : List α) [] = P := List.append_nil P
    refine Or.inr ⟨fun d hd => absurd hd List.not_mem_nil, s, ?_, hP.symm ▸ hJ⟩
    cases fuel <;> rfl
  · intro a l l' hl hl' hdiff ih
    exact ih.next (d := .del a) ho h ⟨hl, hl', by simp⟩ hdiff
  · intro b l l' hl hl' hdiff ih
    exact ih.next (d := .add b) ho h ⟨hl, hl', by simp⟩ hdiff
  · intro a b l l' hab hl hl' hdiff ih
    refine ih.next (d := .mod a b) ho h ⟨hl, fun y hy => lt_of_eq_of_lt hab (hl' y hy), ?_⟩ hdiff
    intro c c' e
    obtain ⟨rfl, rfl⟩ := Diff.mod.inj e
    exact hab

end DecidableEq

end Dvpn.Avl
