import Mathlib

/-!
# Ordered trees with a C comparator

A balanced search tree is read here as the list of its elements in order: its shape is never
observable, only the order of the elements, the search for a key, the insertion that refuses an
equal element, and the removal. A C comparator returns an `int` whose sign orders two elements;
`Orders cmp key` says that this sign is the order of the elements' keys in a linear order, and
`Locates probe key k` says the same of a comparison of the fixed key `k` with an element, which
is what a descent from the root evaluates at every node.

Results, for a tree `Sorted` by its key:
* `find_eq_some` / `find_eq_none`: the search is exact.
* `insert_eq_none`: an insertion is refused iff an element with the same key is there;
  `insert_perm`, `sorted_insert`: otherwise it adds exactly the element and keeps the order.
* `mem_delete`, `delete_perm`, `sorted_delete`: a removal takes exactly one element away.
* `le_of_getLast`: the last element has the greatest key.
* `eq_of_perm`: the order leaves one tree for each collection of elements.
* `diff_induction`: the comparison of two trees, difference by difference in their common order.
* `mem_diff`, `sorted_diff`: it finds exactly the differences, each of them once.
-/

namespace Dvpn.Avl

variable {α κ : Type} [LinearOrder κ]

/-- The sign of `cmp a b` is the order of the keys of `a` and `b`. -/
structure Orders (cmp : α → α → Int) (key : α → κ) : Prop where
  neg : ∀ a b, cmp a b < 0 ↔ key a < key b
  zero : ∀ a b, cmp a b = 0 ↔ key a = key b

/-- The sign of `probe b` is the order of `k` and the key of `b`. -/
structure Locates (probe : α → Int) (key : α → κ) (k : κ) : Prop where
  neg : ∀ b, probe b < 0 ↔ k < key b
  zero : ∀ b, probe b = 0 ↔ k = key b

/-- The tree is strictly increasing in the key. -/
def Sorted (key : α → κ) (l : List α) : Prop := l.Pairwise fun a b => key a < key b

/-- The search for the element at which `probe` is `0`. -/
def find (probe : α → Int) : List α → Option α
  | [] => none
  | y :: l => if probe y = 0 then some y else if probe y < 0 then none else find probe l

/-- The insertion of `x`, refused (`none`) when an equal element is met. -/
def insert (cmp : α → α → Int) (x : α) : List α → Option (List α)
  | [] => some [x]
  | y :: l =>
    if cmp x y = 0 then none
    else if cmp x y < 0 then some (x :: y :: l)
    else (insert cmp x l).map (y :: ·)

/-- The removal of the element equal to `x`. -/
def delete (cmp : α → α → Int) (x : α) : List α → List α
  | [] => []
  | y :: l => if cmp x y = 0 then l else y :: delete cmp x l

/-- A difference between two trees. -/
inductive Diff (α : Type) where
  | add (b : α)
  | mod (a b : α)
  | del (a : α)

/-- The comparison of the tree `a :: as` with another tree, where `next` compares `as` with
what is left of it. -/
def diffAt (cmp : α → α → Int) (a : α) (as : List α) (next : List α → List (Diff α)) :
    List α → List (Diff α)
  | [] => (a :: as).map .del
  | b :: bs =>
    if cmp a b < 0 then .del a :: next (b :: bs)
    else if cmp a b > 0 then .add b :: diffAt cmp a as next bs
    else .mod a b :: next bs

/-- The comparison of two trees, in their common order. -/
def diff (cmp : α → α → Int) : List α → List α → List (Diff α)
  | [] => fun bs => bs.map .add
  | a :: as => diffAt cmp a as (diff cmp as)

variable {cmp : α → α → Int} {probe : α → Int} {key : α → κ} {k : κ} {l l' : List α} {x y : α}

theorem Orders.locates (h : Orders cmp key) (a : α) : Locates (cmp a) key (key a) :=
  ⟨h.neg a, h.zero a⟩

theorem sorted_nil : Sorted key ([] : List α) := List.Pairwise.nil

theorem sorted_cons : Sorted key (y :: l) ↔ (∀ z ∈ l, key y < key z) ∧ Sorted key l :=
  List.pairwise_cons

theorem sorted_append : Sorted key (l ++ l') ↔
    Sorted key l ∧ Sorted key l' ∧ ∀ a ∈ l, ∀ b ∈ l', key a < key b :=
  List.pairwise_append

/-- Two elements with one key are one element. -/
theorem Sorted.eq_of_key (h : Sorted key l) (hx : x ∈ l) (hy : y ∈ l) (e : key x = key y) :
    x = y := by
  induction l with
  | nil => exact absurd hx List.not_mem_nil
  | cons z l ih =>
    obtain ⟨hlt, hs⟩ := sorted_cons.mp h
    rcases List.mem_cons.mp hx with rfl | hxl
    · rcases List.mem_cons.mp hy with rfl | hyl
      · rfl
      · exact absurd e (ne_of_lt (hlt y hyl))
    · rcases List.mem_cons.mp hy with rfl | hyl
      · exact absurd e.symm (ne_of_lt (hlt x hxl))
      · exact ih hs hxl hyl

theorem Sorted.nodup (h : Sorted key l) : l.Nodup :=
  List.Pairwise.imp (fun hlt e => absurd (congrArg key e) (ne_of_lt hlt)) h

/-! ## Search -/

theorem find_mem (h : find probe l = some y) : y ∈ l ∧ probe y = 0 := by
  induction l with
  | nil => exact absurd h (by simp [find])
  | cons z l ih =>
    unfold find at h
    split_ifs at h with h0 h1
    · obtain rfl := Option.some.inj h
      exact ⟨List.mem_cons_self, h0⟩
    · exact ⟨List.mem_cons_of_mem z (ih h).1, (ih h).2⟩

/-- **The search is exact.** -/
theorem find_eq_some (hs : Sorted key l) (hp : Locates probe key k) :
    find probe l = some y ↔ y ∈ l ∧ key y = k := by
  constructor
  · intro h
    exact ⟨(find_mem h).1, ((hp.zero y).mp (find_mem h).2).symm⟩
  · rintro ⟨hy, rfl⟩
    induction l with
    | nil => exact absurd hy List.not_mem_nil
    | cons z l ih =>
      obtain ⟨hlt, hs⟩ := sorted_cons.mp hs
      unfold find
      rcases List.mem_cons.mp hy with rfl | hy
      · rw [if_pos ((hp.zero y).mpr rfl)]
      · have hzy := hlt y hy
        rw [if_neg (fun h => absurd ((hp.zero z).mp h) (ne_of_gt hzy)),
          if_neg (fun h => absurd ((hp.neg z).mp h) (not_lt.mpr (le_of_lt hzy)))]
        exact ih hs hy

theorem find_eq_none (hs : Sorted key l) (hp : Locates probe key k) :
    find probe l = none ↔ ∀ z ∈ l, key z ≠ k := by
  rw [Option.eq_none_iff_forall_not_mem]
  constructor
  · intro h z hz e
    exact h z ((find_eq_some hs hp).mpr ⟨hz, e⟩)
  · intro h z hz
    obtain ⟨hm, e⟩ := (find_eq_some hs hp).mp hz
    exact h z hm e

/-- The search sees the keys only: it commutes with a map that keeps them. -/
theorem find_map {β : Type} (f : α → β) (q : β → Int) :
    find q (l.map f) = (find (q ∘ f) l).map f := by
  induction l with
  | nil => rfl
  | cons z l ih =>
    simp only [List.map_cons, find, Function.comp]
    split_ifs
    · rfl
    · rfl
    · exact ih

/-- Searches in related lists, by probes that agree on related elements. -/
theorem find_forall₂ {β : Type} {r : α → β → Prop} {l' : List β} {q : β → Int}
    (h : List.Forall₂ r l l') (hp : ∀ a b, r a b → probe a = q b) :
    Option.Rel r (find probe l) (find q l') := by
  induction h with
  | nil => exact .none
  | cons hr _ ih =>
    unfold find
    rw [hp _ _ hr]
    split_ifs
    · exact .some hr
    · exact .none
    · exact ih

/-! ## Insertion -/

theorem insert_perm (h : insert cmp x l = some l') : l'.Perm (x :: l) := by
  induction l generalizing l' with
  | nil =>
    obtain rfl := Option.some.inj h
    exact List.Perm.refl _
  | cons z l ih =>
    unfold insert at h
    split_ifs at h with h0 h1
    · obtain rfl := Option.some.inj h
      exact List.Perm.refl _
    · obtain ⟨l₁, hl₁, rfl⟩ := Option.map_eq_some_iff.mp h
      exact ((ih hl₁).cons z).trans (List.Perm.swap x z l)

theorem mem_insert (h : insert cmp x l = some l') : y ∈ l' ↔ y = x ∨ y ∈ l :=
  (insert_perm h).mem_iff.trans List.mem_cons

theorem sorted_insert (ho : Orders cmp key) (hs : Sorted key l) (h : insert cmp x l = some l') :
    Sorted key l' := by
  induction l generalizing l' with
  | nil =>
    obtain rfl := Option.some.inj h
    exact List.pairwise_singleton _ _
  | cons z l ih =>
    obtain ⟨hlt, hs'⟩ := sorted_cons.mp hs
    unfold insert at h
    split_ifs at h with h0 h1
    · obtain rfl := Option.some.inj h
      have hxz := (ho.neg x z).mp h1
      refine sorted_cons.mpr ⟨fun w hw => ?_, hs⟩
      rcases List.mem_cons.mp hw with rfl | hw
      · exact hxz
      · exact hxz.trans (hlt w hw)
    · obtain ⟨l₁, hl₁, rfl⟩ := Option.map_eq_some_iff.mp h
      refine sorted_cons.mpr ⟨fun w hw => ?_, ih hs' hl₁⟩
      rcases (mem_insert hl₁).mp hw with rfl | hw
      · exact lt_of_le_of_ne (not_lt.mp fun h => h1 ((ho.neg w z).mpr h))
          fun e => h0 ((ho.zero w z).mpr e.symm)
      · exact hlt w hw

/-- **An insertion is refused iff the key is there.** -/
theorem insert_eq_none (ho : Orders cmp key) (hs : Sorted key l) :
    insert cmp x l = none ↔ ∃ z ∈ l, key z = key x := by
  induction l with
  | nil => simp [insert]
  | cons z l ih =>
    obtain ⟨hlt, hs'⟩ := sorted_cons.mp hs
    unfold insert
    split_ifs with h0 h1
    · exact ⟨fun _ => ⟨z, List.mem_cons_self, ((ho.zero x z).mp h0).symm⟩, fun _ => rfl⟩
    · have hxz := (ho.neg x z).mp h1
      refine ⟨fun h => absurd h (by simp), ?_⟩
      rintro ⟨w, hw, e⟩
      rcases List.mem_cons.mp hw with rfl | hw
      · exact absurd e.symm (ne_of_lt hxz)
      · exact absurd e.symm (ne_of_lt (hxz.trans (hlt w hw)))
    · have hzx : key z ≠ key x := fun e => h0 ((ho.zero x z).mpr e.symm)
      rw [Option.map_eq_none_iff, ih hs']
      constructor
      · rintro ⟨w, hw, e⟩
        exact ⟨w, List.mem_cons_of_mem z hw, e⟩
      · rintro ⟨w, hw, e⟩
        rcases List.mem_cons.mp hw with rfl | hw
        · exact absurd e hzx
        · exact ⟨w, hw, e⟩

theorem exists_insert (ho : Orders cmp key) (hs : Sorted key l) (hx : ∀ z ∈ l, key z ≠ key x) :
    ∃ l', insert cmp x l = some l' := by
  rw [← Option.isSome_iff_exists, Option.isSome_iff_ne_none]
  intro h
  obtain ⟨z, hz, e⟩ := (insert_eq_none ho hs).mp h
  exact hx z hz e

/-- An element above all others goes to the end. -/
theorem insert_last (ho : Orders cmp key) (h : ∀ z ∈ l, key z < key x) :
    insert cmp x l = some (l ++ [x]) := by
  induction l with
  | nil => rfl
  | cons z l ih =>
    have hzx := h z List.mem_cons_self
    unfold insert
    rw [if_neg (fun e => absurd ((ho.zero x z).mp e) (ne_of_gt hzx)),
      if_neg (fun e => absurd ((ho.neg x z).mp e) (not_lt.mpr (le_of_lt hzx))),
      ih fun w hw => h w (List.mem_cons_of_mem z hw)]
    rfl

/-! ## Removal -/

theorem delete_sublist : (delete cmp x l).Sublist l := by
  induction l with
  | nil => exact List.Sublist.refl _
  | cons z l ih =>
    unfold delete
    split_ifs
    · exact List.sublist_cons_self z l
    · exact ih.cons_cons z

theorem sorted_delete (hs : Sorted key l) : Sorted key (delete cmp x l) :=
  List.Pairwise.sublist delete_sublist hs

/-- **A removal takes one element away.** -/
theorem delete_perm (ho : Orders cmp key) (hs : Sorted key l) (hx : x ∈ l) :
    l.Perm (x :: delete cmp x l) := by
  induction l with
  | nil => exact absurd hx List.not_mem_nil
  | cons z l ih =>
    obtain ⟨hlt, hs'⟩ := sorted_cons.mp hs
    unfold delete
    rcases List.mem_cons.mp hx with rfl | hx
    · rw [if_pos ((ho.zero x x).mpr rfl)]
    · rw [if_neg fun e => absurd ((ho.zero x z).mp e) (ne_of_gt (hlt x hx))]
      exact ((ih hs' hx).cons z).trans (List.Perm.swap x z _)

theorem mem_delete (ho : Orders cmp key) (hs : Sorted key l) (hx : x ∈ l) :
    y ∈ delete cmp x l ↔ y ∈ l ∧ y ≠ x := by
  have hp := delete_perm ho hs hx
  have hn : (x :: delete cmp x l).Nodup := hp.nodup_iff.mp hs.nodup
  rw [hp.mem_iff, List.mem_cons]
  constructor
  · intro hy
    exact ⟨Or.inr hy, fun e => (List.nodup_cons.mp hn).1 (e ▸ hy)⟩
  · rintro ⟨rfl | hy, hne⟩
    · exact absurd rfl hne
    · exact hy

/-! ## Extremes and extensionality -/

/-- The last element of the tree has the greatest key. -/
theorem le_of_getLast (hs : Sorted key l) (h : l.getLast? = some y) (hx : x ∈ l) :
    key x ≤ key y := by
  obtain ⟨l₀, rfl⟩ := List.getLast?_eq_some_iff.mp h
  rcases List.mem_append.mp hx with hx | hx
  · exact le_of_lt ((sorted_append.mp hs).2.2 x hx y (List.mem_singleton.mpr rfl))
  · rw [List.mem_singleton.mp hx]

/-- **One tree for each collection.** -/
theorem eq_of_perm (hs : Sorted key l) (hs' : Sorted key l') (hp : l.Perm l') : l = l' :=
  hp.eq_of_pairwise (fun _ _ _ _ h1 h2 => absurd h1 (lt_asymm h2)) hs hs'

/-! ## Comparison -/

/-- A tree compared with itself has each element modified to itself. -/
theorem diff_self (ho : Orders cmp key) : ∀ l : List α, diff cmp l l = l.map fun a => .mod a a
  | [] => rfl
  | a :: l => by
    have h0 : cmp a a = 0 := (ho.zero a a).mpr rfl
    simp [diff, diffAt, h0, diff_self ho l]

theorem mem_diff_mod : ∀ {l l' : List α} {a b : α}, Diff.mod a b ∈ diff cmp l l' → a ∈ l ∧ b ∈ l'
  | [], l', a, b, h => by simp [diff] at h
  | c :: l, l', a, b, h => by
    induction l' with
    | nil => simp [diff, diffAt] at h
    | cons d l' ih =>
      simp only [diff, diffAt] at h ih
      split_ifs at h with h1 h2
      · rcases List.mem_cons.mp h with h | h
        · exact absurd h (by simp)
        · exact (mem_diff_mod h).imp_left (List.mem_cons_of_mem c)
      · rcases List.mem_cons.mp h with h | h
        · exact absurd h (by simp)
        · exact (ih h).imp_right (List.mem_cons_of_mem d)
      · rcases List.mem_cons.mp h with h | h
        · obtain ⟨rfl, rfl⟩ := Diff.mod.inj h
          exact ⟨List.mem_cons_self, List.mem_cons_self⟩
        · exact (mem_diff_mod h).imp (List.mem_cons_of_mem c) (List.mem_cons_of_mem d)

theorem diff_nil_right : ∀ l : List α, diff cmp l [] = l.map .del
  | [] => rfl
  | _ :: _ => rfl

theorem diff_del (ho : Orders cmp key) (h : ∀ b ∈ l', key x < key b) :
    diff cmp (x :: l) l' = .del x :: diff cmp l l' := by
  cases l' with
  | nil => rw [diff_nil_right, diff_nil_right, List.map_cons]
  | cons b l' =>
    have hlt := (ho.neg x b).mpr (h b List.mem_cons_self)
    exact if_pos hlt

theorem diff_add (ho : Orders cmp key) (h : ∀ a ∈ l, key y < key a) :
    diff cmp l (y :: l') = .add y :: diff cmp l l' := by
  cases l with
  | nil => rfl
  | cons a l =>
    have hgt := h a List.mem_cons_self
    have h0 : ¬ cmp a y < 0 := fun hn => absurd ((ho.neg a y).mp hn) (lt_asymm hgt)
    have h1 : cmp a y > 0 := lt_of_le_of_ne (not_lt.mp h0)
      fun e => absurd ((ho.zero a y).mp e.symm) (ne_of_gt hgt)
    exact (if_neg h0).trans (if_pos h1)

theorem diff_mod (ho : Orders cmp key) (h : key x = key y) :
    diff cmp (x :: l) (y :: l') = .mod x y :: diff cmp l l' := by
  have h0 : cmp x y = 0 := (ho.zero x y).mpr h
  exact (if_neg (by omega)).trans (if_neg (by omega))

/-- **Induction along a comparison.** The trees are taken apart from their least elements: the
lesser of the two, or both when they have one key. -/
theorem diff_induction (ho : Orders cmp key) {motive : List α → List α → Prop}
    (nil : motive [] [])
    (del : ∀ a l l', (∀ c ∈ l, key a < key c) → (∀ b ∈ l', key a < key b) →
      diff cmp (a :: l) l' = .del a :: diff cmp l l' → motive l l' → motive (a :: l) l')
    (add : ∀ b l l', (∀ a ∈ l, key b < key a) → (∀ c ∈ l', key b < key c) →
      diff cmp l (b :: l') = .add b :: diff cmp l l' → motive l l' → motive l (b :: l'))
    (mod : ∀ a b l l', key a = key b → (∀ c ∈ l, key a < key c) → (∀ c ∈ l', key b < key c) →
      diff cmp (a :: l) (b :: l') = .mod a b :: diff cmp l l' → motive l l' →
      motive (a :: l) (b :: l'))
    (hs : Sorted key l) (hs' : Sorted key l') : motive l l' := by
  induction l generalizing l' with
  | nil =>
    induction l' with
    | nil => exact nil
    | cons b l' ih =>
      obtain ⟨hlt, hs'⟩ := sorted_cons.mp hs'
      exact add b [] l' (fun a ha => absurd ha List.not_mem_nil) hlt rfl (ih hs')
  | cons a l ih =>
    obtain ⟨hlt, hs⟩ := sorted_cons.mp hs
    have ih := fun l' (hs' : Sorted key l') => @ih l' hs hs'
    induction l' with
    | nil =>
      exact del a l [] hlt (fun b hb => absurd hb List.not_mem_nil)
        (diff_del ho fun b hb => absurd hb List.not_mem_nil) (ih [] sorted_nil)
    | cons b l' ih' =>
      obtain ⟨hlt', hs₁⟩ := sorted_cons.mp hs'
      rcases lt_trichotomy (key a) (key b) with h | h | h
      · have hall : ∀ c ∈ b :: l', key a < key c := fun c hc =>
          (List.mem_cons.mp hc).elim (fun e => e ▸ h) fun hc => h.trans (hlt' c hc)
        exact del a l (b :: l') hlt hall (diff_del ho hall) (ih _ hs')
      · exact mod a b l l' h hlt hlt' (diff_mod ho h) (ih _ hs₁)
      · have hall : ∀ c ∈ a :: l, key b < key c := fun c hc =>
          (List.mem_cons.mp hc).elim (fun e => e ▸ h) fun hc => h.trans (hlt c hc)
        exact add b (a :: l) l' hall hlt' (diff_add ho hall) (ih' hs₁)

/-- The key of a difference. -/
def Diff.place (key : α → κ) : Diff α → κ
  | add b => key b
  | mod a _ => key a
  | del a => key a

/-- What a difference says about the two trees. -/
def Diff.Of (key : α → κ) (l l' : List α) : Diff α → Prop
  | add b => b ∈ l' ∧ ∀ a ∈ l, key a ≠ key b
  | mod a b => a ∈ l ∧ b ∈ l' ∧ key a = key b
  | del a => a ∈ l ∧ ∀ b ∈ l', key a ≠ key b

/-- **The comparison finds exactly the differences.** -/
theorem mem_diff (ho : Orders cmp key) (hs : Sorted key l) (hs' : Sorted key l') {d : Diff α} :
    d ∈ diff cmp l l' ↔ d.Of key l l' := by
  refine diff_induction (motive := fun l l' => ∀ d, d ∈ diff cmp l l' ↔ d.Of key l l') ho
    ?_ ?_ ?_ ?_ hs hs' d
  · intro d
    cases d <;> simp [diff, Diff.Of]
  · intro a l l' hl hl' hdiff ih d
    rw [hdiff, List.mem_cons, ih d]
    cases d with
    | add b =>
      simp only [Diff.Of, reduceCtorEq, false_or, List.forall_mem_cons]
      exact ⟨fun ⟨hb, h⟩ => ⟨hb, ne_of_lt (hl' b hb), h⟩, fun ⟨hb, _, h⟩ => ⟨hb, h⟩⟩
    | mod c b =>
      simp only [Diff.Of, reduceCtorEq, false_or, List.mem_cons]
      constructor
      · exact fun ⟨hc, hb, e⟩ => ⟨Or.inr hc, hb, e⟩
      · rintro ⟨rfl | hc, hb, e⟩
        · exact absurd e (ne_of_lt (hl' b hb))
        · exact ⟨hc, hb, e⟩
    | del c =>
      simp only [Diff.Of, Diff.del.injEq, List.mem_cons]
      constructor
      · rintro (rfl | ⟨hc, h⟩)
        · exact ⟨Or.inl rfl, fun b hb => ne_of_lt (hl' b hb)⟩
        · exact ⟨Or.inr hc, h⟩
      · rintro ⟨rfl | hc, h⟩
        · exact Or.inl rfl
        · exact Or.inr ⟨hc, h⟩
  · intro b l l' hl hl' hdiff ih d
    rw [hdiff, List.mem_cons, ih d]
    cases d with
    | add c =>
      simp only [Diff.Of, Diff.add.injEq, List.mem_cons]
      constructor
      · rintro (rfl | ⟨hc, h⟩)
        · exact ⟨Or.inl rfl, fun a ha => ne_of_gt (hl a ha)⟩
        · exact ⟨Or.inr hc, h⟩
      · rintro ⟨rfl | hc, h⟩
        · exact Or.inl rfl
        · exact Or.inr ⟨hc, h⟩
    | mod a c =>
      simp only [Diff.Of, reduceCtorEq, false_or, List.mem_cons]
      constructor
      · exact fun ⟨ha, hc, e⟩ => ⟨ha, Or.inr hc, e⟩
      · rintro ⟨ha, rfl | hc, e⟩
        · exact absurd e (ne_of_gt (hl a ha))
        · exact ⟨ha, hc, e⟩
    | del a =>
      simp only [Diff.Of, reduceCtorEq, false_or, List.forall_mem_cons]
      exact ⟨fun ⟨ha, h⟩ => ⟨ha, ne_of_gt (hl a ha), h⟩, fun ⟨ha, _, h⟩ => ⟨ha, h⟩⟩
  · intro a b l l' hab hl hl' hdiff ih d
    rw [hdiff, List.mem_cons, ih d]
    cases d with
    | add c =>
      simp only [Diff.Of, reduceCtorEq, false_or, List.forall_mem_cons]
      rw [List.mem_cons]
      constructor
      · exact fun ⟨hc, h⟩ => ⟨Or.inr hc, hab ▸ ne_of_lt (hl' c hc), h⟩
      · rintro ⟨rfl | hc, hne, h⟩
        · exact absurd hab hne
        · exact ⟨hc, h⟩
    | mod c c' =>
      simp only [Diff.Of, Diff.mod.injEq, List.mem_cons]
      constructor
      · rintro (⟨rfl, rfl⟩ | ⟨hc, hc', e⟩)
        · exact ⟨Or.inl rfl, Or.inl rfl, hab⟩
        · exact ⟨Or.inr hc, Or.inr hc', e⟩
      · rintro ⟨rfl | hc, rfl | hc', e⟩
        · exact Or.inl ⟨rfl, rfl⟩
        · exact absurd (hab.symm.trans e) (ne_of_lt (hl' c' hc'))
        · exact absurd (hab.trans e.symm) (ne_of_lt (hl c hc))
        · exact Or.inr ⟨hc, hc', e⟩
    | del c =>
      simp only [Diff.Of, reduceCtorEq, false_or, List.forall_mem_cons]
      rw [List.mem_cons]
      constructor
      · exact fun ⟨hc, h⟩ => ⟨Or.inr hc, hab ▸ ne_of_gt (hl c hc), h⟩
      · rintro ⟨rfl | hc, hne, h⟩
        · exact absurd hab hne
        · exact ⟨hc, h⟩

/-- **The comparison finds each difference once**, in the order of the keys. -/
theorem sorted_diff (ho : Orders cmp key) (hs : Sorted key l) (hs' : Sorted key l') :
    Sorted (Diff.place key) (diff cmp l l') := by
  refine diff_induction (motive := fun l l' => Sorted key l → Sorted key l' →
    Sorted (Diff.place key) (diff cmp l l')) ho ?_ ?_ ?_ ?_ hs hs' hs hs'
  · exact fun _ _ => sorted_nil
  · intro a l l' hl hl' hdiff ih hs hs'
    have hs := (sorted_cons.mp hs).2
    rw [hdiff]
    refine sorted_cons.mpr ⟨fun d hd => ?_, ih hs hs'⟩
    have hof := (mem_diff ho hs hs').mp hd
    cases d with
    | add b => exact hl' b hof.1
    | mod c b => exact hl c hof.1
    | del c => exact hl c hof.1
  · intro b l l' hl hl' hdiff ih hs hs'
    have hs' := (sorted_cons.mp hs').2
    rw [hdiff]
    refine sorted_cons.mpr ⟨fun d hd => ?_, ih hs hs'⟩
    have hof := (mem_diff ho hs hs').mp hd
    cases d with
    | add c => exact hl' c hof.1
    | mod a c => exact hl a hof.1
    | del a => exact hl a hof.1
  · intro a b l l' hab hl hl' hdiff ih hs hs'
    have hs := (sorted_cons.mp hs).2
    have hs' := (sorted_cons.mp hs').2
    rw [hdiff]
    refine sorted_cons.mpr ⟨fun d hd => ?_, ih hs hs'⟩
    have hof := (mem_diff ho hs hs').mp hd
    cases d with
    | add c => exact lt_of_eq_of_lt hab (hl' c hof.1)
    | mod c c' => exact hl c hof.1
    | del c => exact hl c hof.1

end Dvpn.Avl
