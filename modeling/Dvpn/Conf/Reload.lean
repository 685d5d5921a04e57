import Dvpn.AvlWalk
import Dvpn.Conf.Diff

/-!
# Reloading a configuration (`confdiff.c`, `avl_diff` in `util.c`)

`diff_configs` over the objects in memory: an object has an address, a tree holds objects, and the
callbacks of `avl_diff` move objects between the two trees that it walks.

* A listening socket has its tree of listen entries in it, and `cls_mod` walks the trees of two
  sockets inside the walk of the sockets. Here these trees are in the state, under the address of
  the socket.
* `iv_avl_tree_delete` of a node that is not in the tree is a fault.
* `Rejects` are the objects that the `new_*` callbacks return nonzero for. A reload starts an object
  at most once, so these are all patterns of failures.
* `have_wildcard_listen_entry` is read by the parser only; `cls_mod` leaves it as it is.

Results, from trees that are in order and have no object in common:
* `connectWalk_keeps`, `entriesWalk_keeps`, `socketsWalk_keeps`: what a walk does at one difference.
* `diffConfigs_runs`: a reload comes to an end, and leaves what the walks leave, or it faults in the
  roll-back of `cle_mod`.
-/

namespace Dvpn

deriving instance DecidableEq for ConfConnectEntry, ConfListenEntry

namespace Reload

open Avl (Diff Halt Walk)

/-! ## The objects -/

/-- An object in memory: its address, and what is in it. -/
structure Object (α : Type) where
  self : Nat
  val : α
  deriving DecidableEq

/-- `struct conf_connect_entry`. -/
abbrev Cce := Object ConfConnectEntry

/-- `struct conf_listen_entry`. -/
abbrev Cle := Object ConfListenEntry

/-- `struct conf_listening_socket`, without its tree. -/
structure Cls where
  self : Nat
  listenAddress : SockAddr
  haveWildcardListenEntry : Bool
  deriving DecidableEq

/-- The objects that the `new_*` callbacks of `struct confdiff_request` reject. -/
structure Rejects where
  newConnectEntry : Cce → Bool
  newListeningSocket : Cls → Bool
  newListenEntry : Cls → Cle → Bool

/-- No callback fails. -/
def Rejects.none : Rejects where
  newConnectEntry _ := false
  newListeningSocket _ := false
  newListenEntry _ _ := false

/-- A callback, with whether it failed. -/
inductive Call (α : Type) where
  | removed (a : α)
  | new (a : α) (failed : Bool)
  deriving DecidableEq

/-- The object of a callback. -/
def Call.obj {α : Type} : Call α → α
  | removed a => a
  | new a _ => a

/-- A tree of each configuration, and the callbacks that were made for its objects. -/
structure Trees (α : Type) where
  conf : List α
  newconf : List α
  calls : List (Call α)

/-- The two configurations. -/
structure State where
  connectEntries : Trees Cce
  listeningSockets : Trees Cls
  listenEntries : Nat → List Cle
  entryCalls : List (Cls × Call Cle)

/-! ## The code -/

section Items

variable {α : Type} [DecidableEq α]

/-- `iv_avl_tree_delete`. -/
def ivAvlTreeDelete (x : α) (tree : List α) : Except (Halt Crash) (List α) :=
  if x ∈ tree then .ok (tree.erase x) else .error (.crash .ivAvlTreeDelete)

/-- What `cce_add`, `cls_add` and `cle_add` do. -/
def itemAdd (cmp : α → α → Int) (rejects : α → Bool) (a : α) (t : Trees α) :
    Except (Halt Crash) (Trees α) := do
  let newconf ← ivAvlTreeDelete a t.newconf
  let conf := treeInsert cmp a t.conf
  let calls := t.calls ++ [.new a (rejects a)]
  if rejects a then
    let conf ← ivAvlTreeDelete a conf
    return ⟨conf, treeInsert cmp a newconf, calls⟩
  else return ⟨conf, newconf, calls⟩

/-- What `cce_del`, `cls_del` and `cle_del` do. -/
def itemDel (cmp : α → α → Int) (a : α) (t : Trees α) : Except (Halt Crash) (Trees α) := do
  let conf ← ivAvlTreeDelete a t.conf
  return ⟨conf, treeInsert cmp a t.newconf, t.calls ++ [.removed a]⟩

/-- `avl_diff` (`util.c:75-122`). -/
def avlDiff {σ : Type} (w : Walk α σ Crash) (cmp : α → α → Int) (fuel : Nat) (s : σ) :
    Except (Halt Crash) σ :=
  Avl.walk w cmp fuel (w.left s).head? (w.right s).head? s

end Items

/-- The name of a connect entry. -/
def Cce.name (a : Cce) : CString := a.val.name

/-- The name of a listen entry. -/
def Cle.name (a : Cle) : CString := a.val.name

/-- What orders the listening sockets. -/
def Cls.place (a : Cls) : Nat ×ₗ (Bytes ×ₗ Bytes) := a.listenAddress.place

/-- `compare_connect_entries` in `conf.c`. -/
def compareCces (a b : Cce) : Int := compareConnectEntries a.val b.val

/-- `compare_listen_entries` in `conf.c`. -/
def compareCles (a b : Cle) : Int := compareListenEntries a.val b.val

/-- `compare_listening_sockets` in `conf.c`. -/
def compareClss (a b : Cls) : Int := addrcmp a.listenAddress b.listenAddress

/-- The comparison of `cce_mod`. -/
def sameCce (a b : Cce) : Bool := sameConnectEntry a.val b.val

/-- The comparison of `cle_mod`. -/
def sameCle (a b : Cle) : Bool := sameListenEntry a.val b.val

/-- `cce_add` (`confdiff.c:27-40`). -/
def cceAdd (rejects : Cce → Bool) : Cce → Trees Cce → Except (Halt Crash) (Trees Cce) :=
  itemAdd compareCces rejects

/-- `cce_mod` (`confdiff.c:42-75`). -/
def cceMod (rejects : Cce → Bool) (a b : Cce) (t : Trees Cce) :
    Except (Halt Crash) (Trees Cce) := do
  if sameCce a b then return t
  let conf ← ivAvlTreeDelete a t.conf
  let calls := t.calls ++ [.removed a]
  let newconf ← ivAvlTreeDelete b t.newconf
  let conf := treeInsert compareCces b conf
  let calls := calls ++ [.new b (rejects b)]
  if rejects b then
    let conf ← ivAvlTreeDelete b conf
    let newconf := treeInsert compareCces b newconf
    let conf := treeInsert compareCces a conf
    if rejects a then throw (.crash .cceMod)
    return ⟨conf, newconf, calls ++ [.new a false]⟩
  else return ⟨conf, treeInsert compareCces a newconf, calls⟩

/-- `cce_del` (`confdiff.c:77-87`). -/
def cceDel : Cce → Trees Cce → Except (Halt Crash) (Trees Cce) := itemDel compareCces

/-- `cle_add` (`confdiff.c:110-123`). -/
def cleAdd (rejects : Cle → Bool) : Cle → Trees Cle → Except (Halt Crash) (Trees Cle) :=
  itemAdd compareCles rejects

/-- `cle_mod` (`confdiff.c:125-157`). -/
def cleMod (rejects : Cle → Bool) (a b : Cle) (t : Trees Cle) :
    Except (Halt Crash) (Trees Cle) := do
  if sameCle a b then return t
  let conf ← ivAvlTreeDelete a t.conf
  let calls := t.calls ++ [.removed a]
  let newconf ← ivAvlTreeDelete b t.newconf
  let conf := treeInsert compareCles b conf
  let calls := calls ++ [.new b (rejects b)]
  if rejects b then
    let conf ← ivAvlTreeDelete b conf
    let newconf := treeInsert compareCles b newconf
    -- `iv_avl_tree_delete`, where `cce_mod` has `iv_avl_tree_insert`
    let conf ← ivAvlTreeDelete a conf
    if rejects a then throw (.crash .cleMod)
    return ⟨conf, newconf, calls ++ [.new a false]⟩
  else return ⟨conf, treeInsert compareCles a newconf, calls⟩

/-- `cle_del` (`confdiff.c:159-169`). -/
def cleDel : Cle → Trees Cle → Except (Halt Crash) (Trees Cle) := itemDel compareCles

/-- The walk of the connect entries. -/
def connectWalk (rejects : Cce → Bool) : Walk Cce (Trees Cce) Crash where
  left := Trees.conf
  right := Trees.newconf
  item
    | .add a => cceAdd rejects a
    | .mod a b => cceMod rejects a b
    | .del a => cceDel a

/-- The walk of the listen entries of two sockets. -/
def entriesWalk (rejects : Cle → Bool) : Walk Cle (Trees Cle) Crash where
  left := Trees.conf
  right := Trees.newconf
  item
    | .add a => cleAdd rejects a
    | .mod a b => cleMod rejects a b
    | .del a => cleDel a

/-- `cls_add` (`confdiff.c:89-102`). -/
def clsAdd (rejects : Cls → Bool) (a : Cls) (s : State) : Except (Halt Crash) State := do
  let t ← itemAdd compareClss rejects a s.listeningSockets
  return { s with listeningSockets := t }

/-- `cls_mod` (`confdiff.c:171-187`). -/
def clsMod (rejects : Cls → Cle → Bool) (fuel : Nat) (a b : Cls) (s : State) :
    Except (Halt Crash) State := do
  let t ← avlDiff (entriesWalk (rejects a)) compareCles fuel
    ⟨s.listenEntries a.self, s.listenEntries b.self, []⟩
  return { s with
    listenEntries :=
      Function.update (Function.update s.listenEntries a.self t.conf) b.self t.newconf
    entryCalls := s.entryCalls ++ t.calls.map fun c => (a, c) }

/-- `cls_del` (`confdiff.c:189-199`). -/
def clsDel (a : Cls) (s : State) : Except (Halt Crash) State := do
  let t ← itemDel compareClss a s.listeningSockets
  return { s with listeningSockets := t }

/-- The walk of the listening sockets. -/
def socketsWalk (rejects : Rejects) (fuel : Nat) : Walk Cls State Crash where
  left s := s.listeningSockets.conf
  right s := s.listeningSockets.newconf
  item
    | .add a => clsAdd rejects.newListeningSocket a
    | .mod a b => clsMod rejects.newListenEntry fuel a b
    | .del a => clsDel a

/-- `diff_configs` (`confdiff.c:201-210`). -/
def diffConfigs (rejects : Rejects) (fuel : Nat) (s : State) : Except (Halt Crash) State := do
  let t ← avlDiff (connectWalk rejects.newConnectEntry) compareCces fuel s.connectEntries
  avlDiff (socketsWalk rejects fuel) compareClss fuel { s with connectEntries := t }

/-! ## What a difference leaves -/

section Trees

variable {α κ : Type}

/-- What is in the first tree after a difference. -/
def keptAt (same : α → α → Bool) (rejects : α → Bool) : Diff α → List α
  | .add b => if rejects b then [] else [b]
  | .mod a b => if same a b then [a] else if rejects b then [a] else [b]
  | .del _ => []

/-- What is in the second tree after a difference. -/
def leftAt (same : α → α → Bool) (rejects : α → Bool) : Diff α → List α
  | .add b => if rejects b then [b] else []
  | .mod a b => if same a b then [b] else if rejects b then [b] else [a]
  | .del a => [a]

/-- The callbacks that are made at a difference. -/
def callsAt (same : α → α → Bool) (rejects : α → Bool) : Diff α → List (Call α)
  | .add b => [.new b (rejects b)]
  | .mod a b =>
    if same a b then []
    else if rejects b then [.removed a, .new b true, .new a false]
    else [.removed a, .new b false]
  | .del a => [.removed a]

/-- A changed entry is rejected. -/
def RejectsMod (same : α → α → Bool) (rejects : α → Bool) : Diff α → Prop
  | .mod a b => same a b = false ∧ rejects b = true
  | _ => False

variable {cmp : α → α → Int} {key : α → κ} {same : α → α → Bool} {rejects : α → Bool}
  {C N l l' : List α} {L : List (Call α)} {a b x y : α} {P : List (Diff α)} {d : Diff α}
  {t : Trees α}

theorem keptAt_perm (d : Diff α) :
    (keptAt same rejects d ++ leftAt same rejects d).Perm (d.ofLeft ++ d.ofRight) := by
  cases d with
  | add b =>
    simp only [keptAt, leftAt]
    split_ifs <;> exact .refl _
  | mod a b =>
    simp only [keptAt, leftAt]
    split_ifs
    · exact .refl _
    · exact .refl _
    · exact .swap a b []
  | del a => exact .refl _

theorem key_of_mem_keptAt (hd : ∀ a b, d = .mod a b → key a = key b)
    (hx : x ∈ keptAt same rejects d ++ leftAt same rejects d) : key x = d.place key :=
  Diff.key_eq hd ((keptAt_perm d).mem_iff.mp hx)

variable [LinearOrder κ]

/-- The place `k` is after all of `C` and before all of `l`. -/
def Between (key : α → κ) (k : κ) (C l : List α) : Prop :=
  (∀ z ∈ C, key z < k) ∧ ∀ z ∈ l, k < key z

/-- The two trees after the differences `P`, when `l` and `l'` are left of them. -/
structure Trees.After (key : α → κ) (same : α → α → Bool) (rejects : α → Bool)
    (P : List (Diff α)) (l l' : List α) (t : Trees α) : Prop where
  conf : t.conf = P.flatMap (keptAt same rejects) ++ l
  newconf : t.newconf = P.flatMap (leftAt same rejects) ++ l'
  calls : t.calls = P.flatMap (callsAt same rejects)
  below : ∀ d ∈ P, (∀ x ∈ l, d.place key < key x) ∧ ∀ x ∈ l', d.place key < key x
  keys : ∀ a b, Diff.mod a b ∈ P → key a = key b

/-- Two trees in order, before any callback. -/
structure Trees.Ordered (key : α → κ) (t : Trees α) : Prop where
  conf : Avl.Sorted key t.conf
  newconf : Avl.Sorted key t.newconf
  calls : t.calls = []

namespace Trees.After

theorem start (h : t.Ordered key) : t.After key same rejects [] t.conf t.newconf :=
  ⟨rfl, rfl, h.calls, fun _ hd => absurd hd List.not_mem_nil,
    fun _ _ hm => absurd hm List.not_mem_nil⟩

theorem place_lt (h : t.After key same rejects P l l')
    (hx : x ∈ P.flatMap (keptAt same rejects) ∨ x ∈ P.flatMap (leftAt same rejects)) :
    (∀ y ∈ l, key x < key y) ∧ ∀ y ∈ l', key x < key y := by
  obtain ⟨d, hd, hx⟩ : ∃ d ∈ P, x ∈ keptAt same rejects d ++ leftAt same rejects d := by
    rcases hx with hx | hx
    · obtain ⟨d, hd, hx⟩ := List.mem_flatMap.mp hx
      exact ⟨d, hd, List.mem_append_left _ hx⟩
    · obtain ⟨d, hd, hx⟩ := List.mem_flatMap.mp hx
      exact ⟨d, hd, List.mem_append_right _ hx⟩
  rw [key_of_mem_keptAt (fun a b e => h.keys a b (e ▸ hd)) hx]
  exact h.below d hd

/-- **The next difference** is after all that is done and before all that is left. -/
theorem next (h : t.After key same rejects P (d.ofLeft ++ l) (d.ofRight ++ l'))
    (hd : d.Front key l l') :
    ∃ C N L, t = ⟨C ++ (d.ofLeft ++ l), N ++ (d.ofRight ++ l'), L⟩ ∧
      Between key (d.place key) C l ∧ Between key (d.place key) N l' ∧
      Trees.After key same rejects (P ++ [d]) l l'
        ⟨C ++ (keptAt same rejects d ++ l), N ++ (leftAt same rejects d ++ l'),
          L ++ callsAt same rejects d⟩ := by
  have hlt : ∀ x, x ∈ P.flatMap (keptAt same rejects) ∨ x ∈ P.flatMap (leftAt same rejects) →
      key x < d.place key := by
    intro x hx
    cases d with
    | add b => exact (h.place_lt hx).2 b List.mem_cons_self
    | mod a b => exact (h.place_lt hx).1 a List.mem_cons_self
    | del a => exact (h.place_lt hx).1 a List.mem_cons_self
  refine ⟨P.flatMap (keptAt same rejects), P.flatMap (leftAt same rejects), t.calls, ?_,
    ⟨fun z hz => hlt z (Or.inl hz), hd.left⟩, ⟨fun z hz => hlt z (Or.inr hz), hd.right⟩, ?_⟩
  · obtain ⟨conf, newconf, calls⟩ := t
    rw [← h.conf, ← h.newconf]
  · refine ⟨?_, ?_, ?_, fun d' hd' => ?_, fun a b hm => ?_⟩
    · rw [List.flatMap_append, List.flatMap_singleton, List.append_assoc]
    · rw [List.flatMap_append, List.flatMap_singleton, List.append_assoc]
    · rw [List.flatMap_append, List.flatMap_singleton, h.calls]
    · rcases List.mem_append.mp hd' with hd' | hd'
      · obtain ⟨h1, h2⟩ := h.below d' hd'
        exact ⟨fun x hx => h1 x (List.mem_append_right _ hx),
          fun x hx => h2 x (List.mem_append_right _ hx)⟩
      · obtain rfl := List.mem_singleton.mp hd'
        exact ⟨hd.left, hd.right⟩
    · rcases List.mem_append.mp hm with hm | hm
      · exact h.keys a b hm
      · exact hd.same a b (List.mem_singleton.mp hm).symm

theorem left (h : t.After key same rejects P l l') :
    ∃ C, t.conf = C ++ l ∧ ∀ y ∈ C, ∀ z ∈ l, key y < key z :=
  ⟨_, h.conf, fun _ hy => (h.place_lt (Or.inl hy)).1⟩

theorem right (h : t.After key same rejects P l l') :
    ∃ N, t.newconf = N ++ l' ∧ ∀ y ∈ N, ∀ z ∈ l', key y < key z :=
  ⟨_, h.newconf, fun _ hy => (h.place_lt (Or.inr hy)).2⟩

end Trees.After

/-! ## One step of a walk -/

theorem treeInsert_between (ho : Avl.Orders cmp key) (h : Between key (key x) C l) :
    treeInsert cmp x (C ++ l) = C ++ x :: l := by
  unfold treeInsert
  rw [Avl.insert_between ho h.1 h.2, Option.getD_some]

variable [DecidableEq α]

theorem ivAvlTreeDelete_between (h : Between key (key x) C l) :
    ivAvlTreeDelete x (C ++ x :: l) = .ok (C ++ l) := by
  unfold ivAvlTreeDelete
  rw [if_pos (List.mem_append_right C List.mem_cons_self), Avl.erase_between h.1]

theorem ivAvlTreeDelete_gone (h : Between key (key x) C l) :
    ivAvlTreeDelete x (C ++ l) = .error (.crash .ivAvlTreeDelete) := by
  have hx : x ∉ C ++ l := fun hx => (List.mem_append.mp hx).elim
    (fun hC => lt_irrefl _ (h.1 x hC)) fun hl => lt_irrefl _ (h.2 x hl)
  unfold ivAvlTreeDelete
  rw [if_neg hx]

theorem itemAdd_between (ho : Avl.Orders cmp key) (hC : Between key (key b) C l)
    (hN : Between key (key b) N l') :
    itemAdd cmp rejects b ⟨C ++ l, N ++ b :: l', L⟩ =
      .ok ⟨C ++ (keptAt same rejects (.add b) ++ l), N ++ (leftAt same rejects (.add b) ++ l'),
        L ++ callsAt same rejects (.add b)⟩ := by
  simp only [itemAdd, keptAt, leftAt, callsAt, ivAvlTreeDelete_between hN,
    treeInsert_between ho hC, ok_bind]
  by_cases hr : rejects b = true
  · simp only [if_pos hr, ivAvlTreeDelete_between hC, treeInsert_between ho hN, ok_bind]
    rfl
  · simp only [if_neg hr]
    rfl

theorem itemDel_between (ho : Avl.Orders cmp key) (hC : Between key (key a) C l)
    (hN : Between key (key a) N l') :
    itemDel cmp a ⟨C ++ a :: l, N ++ l', L⟩ =
      .ok ⟨C ++ (keptAt same rejects (.del a) ++ l), N ++ (leftAt same rejects (.del a) ++ l'),
        L ++ callsAt same rejects (.del a)⟩ := by
  simp only [itemDel, keptAt, leftAt, callsAt, ivAvlTreeDelete_between hC,
    treeInsert_between ho hN, ok_bind]
  rfl

end Trees

theorem sameCce_self (a : Cce) : sameCce a a = true := by simp [sameCce, sameConnectEntry]

theorem sameCle_self (a : Cle) : sameCle a a = true := by simp [sameCle, sameListenEntry]

theorem compareCces_orders : Avl.Orders compareCces Cce.name :=
  ⟨fun _ _ => strcmp_neg, fun _ _ => strcmp_zero⟩

theorem compareCles_orders : Avl.Orders compareCles Cle.name :=
  ⟨fun _ _ => strcmp_neg, fun _ _ => strcmp_zero⟩

theorem compareClss_orders : Avl.Orders compareClss Cls.place :=
  ⟨fun _ _ => addrcmp_spec.1, fun _ _ => addrcmp_spec.2⟩

/-- `cce_mod` rolls back. -/
theorem cceMod_between {rejects : Cce → Bool} {a b : Cce} {C N l l' : List Cce}
    {L : List (Call Cce)} (hab : a.name = b.name) (ha : rejects a = false)
    (hC : Between Cce.name a.name C l)
    (hN : Between Cce.name a.name N l') :
    cceMod rejects a b ⟨C ++ a :: l, N ++ b :: l', L⟩ =
      .ok ⟨C ++ (keptAt sameCce rejects (.mod a b) ++ l),
        N ++ (leftAt sameCce rejects (.mod a b) ++ l'),
        L ++ callsAt sameCce rejects (.mod a b)⟩ := by
  have hCb : Between Cce.name b.name C l := hab ▸ hC
  have hNb : Between Cce.name b.name N l' := hab ▸ hN
  simp only [cceMod, keptAt, leftAt, callsAt]
  by_cases hs : sameCce a b = true
  · simp only [if_pos hs, List.append_nil]
    rfl
  simp only [if_neg hs, ivAvlTreeDelete_between hC, ivAvlTreeDelete_between hNb,
    treeInsert_between compareCces_orders hCb, ok_bind]
  by_cases hb : rejects b = true
  · simp only [hb, ivAvlTreeDelete_between hCb, treeInsert_between compareCces_orders hC,
      treeInsert_between compareCces_orders hNb, ok_bind, ha, List.append_assoc]
    rfl
  · simp only [hb, treeInsert_between compareCces_orders hN, List.append_assoc]
    rfl

/-- `cle_mod` faults where it should roll back. -/
theorem cleMod_between {rejects : Cle → Bool} {a b : Cle} {C N l l' : List Cle}
    {L : List (Call Cle)} (hab : a.name = b.name)
    (hC : Between Cle.name a.name C l)
    (hN : Between Cle.name a.name N l') :
    RejectsMod sameCle rejects (.mod a b) ∧
        cleMod rejects a b ⟨C ++ a :: l, N ++ b :: l', L⟩ = .error (.crash .ivAvlTreeDelete) ∨
      ¬ RejectsMod sameCle rejects (.mod a b) ∧
        cleMod rejects a b ⟨C ++ a :: l, N ++ b :: l', L⟩ =
          .ok ⟨C ++ (keptAt sameCle rejects (.mod a b) ++ l),
            N ++ (leftAt sameCle rejects (.mod a b) ++ l'),
            L ++ callsAt sameCle rejects (.mod a b)⟩ := by
  have hCb : Between Cle.name b.name C l := hab ▸ hC
  have hNb : Between Cle.name b.name N l' := hab ▸ hN
  simp only [cleMod, keptAt, leftAt, callsAt, RejectsMod]
  by_cases hs : sameCle a b = true
  · refine Or.inr ⟨by simp [hs], ?_⟩
    simp only [if_pos hs, List.append_nil]
    rfl
  simp only [if_neg hs, ivAvlTreeDelete_between hC, ivAvlTreeDelete_between hNb,
    treeInsert_between compareCles_orders hCb, ok_bind]
  by_cases hb : rejects b = true
  · refine Or.inl ⟨⟨by simpa using hs, hb⟩, ?_⟩
    simp only [hb, ivAvlTreeDelete_between hCb, ivAvlTreeDelete_gone hC, ok_bind]
    rfl
  · refine Or.inr ⟨by simp [hb], ?_⟩
    simp only [hb, treeInsert_between compareCles_orders hN, List.append_assoc]
    rfl

/-! ## The walks -/

section Walks

theorem connectWalk_keeps (rejects : Cce → Bool) :
    (connectWalk rejects).Keeps Cce.name
      (fun P l l' t => t.After Cce.name sameCce rejects P l l' ∧
        ∀ a ∈ l, rejects a = false) (fun _ => False) .cceMod := by
  refine ⟨fun h => h.1.left, fun h => h.1.right, ?_⟩
  rintro P d l l' t ⟨h, hr⟩ hd
  obtain ⟨C, N, L, rfl, hC, hN, hafter⟩ := h.next hd
  refine Or.inr ⟨id, _, ?_, hafter, fun a ha => hr a (List.mem_append_right _ ha)⟩
  cases d with
  | add b => exact itemAdd_between compareCces_orders hC hN
  | mod a b => exact cceMod_between (hd.same a b rfl) (hr a List.mem_cons_self) hC hN
  | del a => exact itemDel_between compareCces_orders hC hN

/-- **The walk of the connect entries.** -/
theorem connectWalk_spec {rejects : Cce → Bool} {t : Trees Cce} {fuel : Nat}
    (h : t.Ordered Cce.name) (hr : ∀ a ∈ t.conf, rejects a = false)
    (hfuel : t.conf.length + t.newconf.length ≤ fuel) :
    ∃ t', avlDiff (connectWalk rejects) compareCces fuel t = .ok t' ∧
      t'.After Cce.name sameCce rejects (Avl.diff compareCces t.conf t.newconf)
        [] [] := by
  rcases Avl.walk_spec compareCces_orders (connectWalk_keeps rejects) h.conf h.newconf
    ⟨Trees.After.start h, hr⟩ hfuel with ⟨⟨d, _, hbad⟩, _⟩ | ⟨_, t', ht, hafter, _⟩
  · exact hbad.elim
  · exact ⟨t', ht, hafter⟩

theorem entriesWalk_keeps (rejects : Cle → Bool) :
    (entriesWalk rejects).Keeps Cle.name (Trees.After Cle.name sameCle rejects)
      (RejectsMod sameCle rejects) .ivAvlTreeDelete := by
  refine ⟨Trees.After.left, Trees.After.right, ?_⟩
  intro P d l l' t h hd
  obtain ⟨C, N, L, rfl, hC, hN, hafter⟩ := h.next hd
  cases d with
  | add b => exact Or.inr ⟨id, _, itemAdd_between compareCles_orders hC hN, hafter⟩
  | mod a b =>
    rcases cleMod_between (hd.same a b rfl) hC hN with hbad | ⟨hok, hitem⟩
    · exact Or.inl hbad
    · exact Or.inr ⟨hok, _, hitem, hafter⟩
  | del a => exact Or.inr ⟨id, _, itemDel_between compareCles_orders hC hN, hafter⟩

/-- **The walk of the listen entries** of two sockets. -/
theorem entriesWalk_spec {rejects : Cle → Bool} {t : Trees Cle} {fuel : Nat}
    (h : t.Ordered Cle.name) (hfuel : t.conf.length + t.newconf.length ≤ fuel) :
    Avl.Comes (Trees.After Cle.name sameCle rejects) (RejectsMod sameCle rejects)
      .ivAvlTreeDelete [] (Avl.diff compareCles t.conf t.newconf)
      (avlDiff (entriesWalk rejects) compareCles fuel t) :=
  Avl.walk_spec compareCles_orders (entriesWalk_keeps rejects) h.conf h.newconf
    (Trees.After.start h) hfuel

/-- The differences of the listen entries of two sockets. -/
def entryDiff (s : State) (a b : Cls) : List (Diff Cle) :=
  Avl.diff compareCles (s.listenEntries a.self) (s.listenEntries b.self)

/-- The callbacks for listen entries that are made at a difference of the sockets. -/
def entryCallsAt (rejects : Rejects) (s : State) : Diff Cls → List (Cls × Call Cle)
  | .mod a b => ((entryDiff s a b).flatMap (callsAt sameCle (rejects.newListenEntry a))).map
      fun c => (a, c)
  | _ => []

/-- A changed listen entry of a socket in both configurations is rejected. -/
def RejectsEntry (rejects : Rejects) (s : State) : Diff Cls → Prop
  | .mod a b => ∃ d ∈ entryDiff s a b, RejectsMod sameCle (rejects.newListenEntry a) d
  | _ => False

/-- The listening sockets and their listen entries are in order, and no two sockets are one
object. -/
structure State.SocketsOrdered (s : State) : Prop where
  sockets : s.listeningSockets.Ordered Cls.place
  listenEntries : ∀ c ∈ s.listeningSockets.conf ++ s.listeningSockets.newconf,
    Avl.Sorted Cle.name (s.listenEntries c.self)
  selves : ((s.listeningSockets.conf ++ s.listeningSockets.newconf).map Cls.self).Nodup
  entryCalls : s.entryCalls = []

/-- The state after the differences `P` of the sockets of `s₀`, when `l` and `l'` are left. -/
structure State.After (rejects : Rejects) (s₀ : State) (P : List (Diff Cls)) (l l' : List Cls)
    (s : State) : Prop where
  sockets : s.listeningSockets.After Cls.place (fun _ _ => true) rejects.newListeningSocket P l l'
  left : P.flatMap Diff.ofLeft ++ l = s₀.listeningSockets.conf
  right : P.flatMap Diff.ofRight ++ l' = s₀.listeningSockets.newconf
  connect : s.connectEntries = s₀.connectEntries
  met : ∀ a b, Diff.mod a b ∈ P →
    s.listenEntries a.self =
        (entryDiff s₀ a b).flatMap (keptAt sameCle (rejects.newListenEntry a)) ∧
      s.listenEntries b.self =
        (entryDiff s₀ a b).flatMap (leftAt sameCle (rejects.newListenEntry a))
  rest : ∀ n, (∀ a b, Diff.mod a b ∈ P → n ≠ a.self ∧ n ≠ b.self) →
    s.listenEntries n = s₀.listenEntries n
  entryCalls : s.entryCalls = P.flatMap (entryCallsAt rejects s₀)

variable {rejects : Rejects} {s₀ s s' : State} {P : List (Diff Cls)} {l l' : List Cls}
  {a b c : Cls} {d : Diff Cls} {fuel : Nat}

namespace State.After

theorem start (h : s.SocketsOrdered) : State.After rejects s [] s.listeningSockets.conf
    s.listeningSockets.newconf s :=
  ⟨Trees.After.start h.sockets, rfl, rfl, rfl, fun _ _ hm => absurd hm List.not_mem_nil,
    fun _ _ => rfl, h.entryCalls⟩

theorem selves (h : s₀.After rejects P l l' s) (h₀ : s₀.SocketsOrdered) :
    ((P.flatMap Diff.ofLeft ++ l).map Cls.self).Nodup ∧
      ((P.flatMap Diff.ofRight ++ l').map Cls.self).Nodup ∧
      ∀ x ∈ P.flatMap Diff.ofLeft ++ l, ∀ y ∈ P.flatMap Diff.ofRight ++ l', x.self ≠ y.self := by
  have hn := h₀.selves
  rw [← h.left, ← h.right, List.map_append, List.nodup_append] at hn
  exact ⟨hn.1, hn.2.1, fun x hx y hy =>
    hn.2.2 _ (List.mem_map_of_mem hx) _ (List.mem_map_of_mem hy)⟩

theorem mem_ofLeft (hm : Diff.mod a b ∈ P) : a ∈ P.flatMap Diff.ofLeft :=
  List.mem_flatMap.mpr ⟨_, hm, List.mem_cons_self⟩

theorem mem_ofRight (hm : Diff.mod a b ∈ P) : b ∈ P.flatMap Diff.ofRight :=
  List.mem_flatMap.mpr ⟨_, hm, List.mem_cons_self⟩

/-- What is left is no object that has been met. -/
theorem fresh (h : s₀.After rejects P l l' s) (h₀ : s₀.SocketsOrdered) (hm : Diff.mod a b ∈ P)
    (hc : c ∈ l ∨ c ∈ l') : c.self ≠ a.self ∧ c.self ≠ b.self := by
  obtain ⟨hleft, hright, hboth⟩ := h.selves h₀
  rw [List.map_append, List.nodup_append] at hleft hright
  have ha := mem_ofLeft hm
  have hb := mem_ofRight hm
  rcases hc with hc | hc
  · exact ⟨(hleft.2.2 _ (List.mem_map_of_mem ha) _ (List.mem_map_of_mem hc)).symm,
      hboth c (List.mem_append_right _ hc) b (List.mem_append_left _ hb)⟩
  · exact ⟨(hboth a (List.mem_append_left _ ha) c (List.mem_append_right _ hc)).symm,
      (hright.2.2 _ (List.mem_map_of_mem hb) _ (List.mem_map_of_mem hc)).symm⟩

theorem listenEntries_rest (h : s₀.After rejects P l l' s) (h₀ : s₀.SocketsOrdered)
    (hc : c ∈ l ∨ c ∈ l') : s.listenEntries c.self = s₀.listenEntries c.self :=
  h.rest c.self fun _ _ hm => h.fresh h₀ hm hc

/-- A difference that is no change of a socket leaves the listen entries alone. -/
theorem next_other (h : s₀.After rejects P (d.ofLeft ++ l) (d.ofRight ++ l') s)
    (hd : ∀ a b, d ≠ .mod a b) {t : Trees Cls}
    (ht : t.After Cls.place (fun _ _ => true) rejects.newListeningSocket (P ++ [d]) l l') :
    State.After rejects s₀ (P ++ [d]) l l' { s with listeningSockets := t } := by
  have hmem : ∀ a b, Diff.mod a b ∈ P ++ [d] → Diff.mod a b ∈ P := fun a b hm =>
    (List.mem_append.mp hm).elim id fun hm => absurd (List.mem_singleton.mp hm).symm (hd a b)
  have hcalls : entryCallsAt rejects s₀ d = [] := by
    cases d with
    | mod a b => exact absurd rfl (hd a b)
    | add _ => rfl
    | del _ => rfl
  refine ⟨ht, ?_, ?_, h.connect, fun a b hm => h.met a b (hmem a b hm), fun n hn => ?_, ?_⟩
  · rw [← h.left, List.flatMap_append, List.flatMap_singleton, List.append_assoc]
  · rw [← h.right, List.flatMap_append, List.flatMap_singleton, List.append_assoc]
  · exact h.rest n fun a b hm => hn a b (List.mem_append_left _ hm)
  · rw [List.flatMap_append, List.flatMap_singleton, hcalls, List.append_nil]
    exact h.entryCalls

/-- **A change of a socket** takes its listen entries from one tree to the other. -/
theorem next_mod (h₀ : s₀.SocketsOrdered)
    (hfuel : (s₀.listenEntries a.self).length + (s₀.listenEntries b.self).length ≤ fuel)
    (h : s₀.After rejects P (a :: l) (b :: l') s) (hd : (Diff.mod a b).Front Cls.place l l') :
    RejectsEntry rejects s₀ (.mod a b) ∧
        clsMod rejects.newListenEntry fuel a b s = .error (.crash .ivAvlTreeDelete) ∨
      ¬ RejectsEntry rejects s₀ (.mod a b) ∧ ∃ s',
        clsMod rejects.newListenEntry fuel a b s = .ok s' ∧
          s₀.After rejects (P ++ [.mod a b]) l l' s' := by
  have hleft : a ∈ s₀.listeningSockets.conf := h.left ▸ List.mem_append_right _ List.mem_cons_self
  have hright : b ∈ s₀.listeningSockets.newconf :=
    h.right ▸ List.mem_append_right _ List.mem_cons_self
  have ha := h.listenEntries_rest h₀ (Or.inl List.mem_cons_self)
  have hb := h.listenEntries_rest h₀ (Or.inr List.mem_cons_self)
  have hne : a.self ≠ b.self := (h.selves h₀).2.2 a (List.mem_append_right _ List.mem_cons_self) b
    (List.mem_append_right _ List.mem_cons_self)
  unfold clsMod
  rw [ha, hb]
  rcases @entriesWalk_spec (rejects.newListenEntry a)
    ⟨s₀.listenEntries a.self, s₀.listenEntries b.self, []⟩ fuel
    ⟨h₀.listenEntries a (List.mem_append_left _ hleft),
      h₀.listenEntries b (List.mem_append_right _ hright), rfl⟩ hfuel with
    ⟨hbad, hr⟩ | ⟨hall, t, ht, hafter⟩
  · rw [hr]
    exact Or.inl ⟨hbad, rfl⟩
  rw [ht]
  refine Or.inr ⟨fun ⟨d, hd, hbad⟩ => hall d hd hbad, _, rfl, ?_⟩
  have hconf : t.conf = (entryDiff s₀ a b).flatMap (keptAt sameCle (rejects.newListenEntry a)) :=
    hafter.conf.trans (List.append_nil _)
  have hnewconf : t.newconf =
      (entryDiff s₀ a b).flatMap (leftAt sameCle (rejects.newListenEntry a)) :=
    hafter.newconf.trans (List.append_nil _)
  refine ⟨?_, ?_, ?_, h.connect, fun a' b' hm => ?_, fun n hn => ?_, ?_⟩
  · obtain ⟨C, N, L, hs, -, -, hnext⟩ := h.sockets.next hd
    show Trees.After _ _ _ _ _ _ s.listeningSockets
    rw [hs]
    simpa [keptAt, leftAt, callsAt, Diff.ofLeft, Diff.ofRight] using hnext
  · rw [← h.left, List.flatMap_append, List.flatMap_singleton, List.append_assoc]
    rfl
  · rw [← h.right, List.flatMap_append, List.flatMap_singleton, List.append_assoc]
    rfl
  · rcases List.mem_append.mp hm with hm | hm
    · -- a change that was met before
      have hfa := h.fresh h₀ hm (Or.inl List.mem_cons_self)
      have hfb := h.fresh h₀ hm (Or.inr List.mem_cons_self)
      simp only [Function.update_of_ne hfa.1.symm, Function.update_of_ne hfb.1.symm,
        Function.update_of_ne hfa.2.symm, Function.update_of_ne hfb.2.symm]
      exact h.met a' b' hm
    · obtain ⟨rfl, rfl⟩ := Diff.mod.inj (List.mem_singleton.mp hm)
      simp only [Function.update_of_ne hne, Function.update_self]
      exact ⟨hconf, hnewconf⟩
  · obtain ⟨hna, hnb⟩ := hn a b (List.mem_append_right _ (List.mem_singleton.mpr rfl))
    simp only [Function.update_of_ne hna, Function.update_of_ne hnb]
    exact h.rest n fun a b hm => hn a b (List.mem_append_left _ hm)
  · rw [List.flatMap_append, List.flatMap_singleton]
    show s.entryCalls ++ t.calls.map _ = _
    rw [h.entryCalls, hafter.calls]
    rfl

end State.After

theorem socketsWalk_keeps (h₀ : s₀.SocketsOrdered)
    (hfuel : ∀ a ∈ s₀.listeningSockets.conf, ∀ b ∈ s₀.listeningSockets.newconf,
      (s₀.listenEntries a.self).length + (s₀.listenEntries b.self).length ≤ fuel) :
    (socketsWalk rejects fuel).Keeps Cls.place (s₀.After rejects) (RejectsEntry rejects s₀)
      .ivAvlTreeDelete := by
  refine ⟨fun h => h.sockets.left, fun h => h.sockets.right, ?_⟩
  intro P d l l' s h hd
  cases d with
  | add b =>
    obtain ⟨C, N, L, hs, hC, hN, hnext⟩ := h.sockets.next hd
    refine Or.inr ⟨id, _, ?_, h.next_other (by simp) hnext⟩
    show clsAdd rejects.newListeningSocket b s = _
    unfold clsAdd
    rw [hs]
    show (itemAdd compareClss rejects.newListeningSocket b ⟨C ++ l, N ++ b :: l', L⟩ >>= _) = _
    rw [itemAdd_between compareClss_orders hC hN]
    rfl
  | mod a b =>
    exact h.next_mod h₀ (hfuel a (h.left ▸ List.mem_append_right _ List.mem_cons_self) b
      (h.right ▸ List.mem_append_right _ List.mem_cons_self)) hd
  | del a =>
    obtain ⟨C, N, L, hs, hC, hN, hnext⟩ := h.sockets.next hd
    refine Or.inr ⟨id, _, ?_, h.next_other (by simp) hnext⟩
    show clsDel a s = _
    unfold clsDel
    rw [hs]
    show (itemDel compareClss a ⟨C ++ a :: l, N ++ l', L⟩ >>= _) = _
    rw [itemDel_between compareClss_orders hC hN]
    rfl

/-! ## The reload -/

/-- The differences of the connect entries. -/
def connectDiff (s : State) : List (Diff Cce) :=
  Avl.diff compareCces s.connectEntries.conf s.connectEntries.newconf

/-- The differences of the listening sockets. -/
def socketDiff (s : State) : List (Diff Cls) :=
  Avl.diff compareClss s.listeningSockets.conf s.listeningSockets.newconf

/-- What a reload starts from. -/
structure State.Ordered (s : State) : Prop extends s.SocketsOrdered where
  connectEntries : s.connectEntries.Ordered Cce.name

/-- How many objects there are. -/
def State.size (s : State) : Nat :=
  s.connectEntries.conf.length + s.connectEntries.newconf.length +
    (s.listeningSockets.conf.length + s.listeningSockets.newconf.length) +
    ((s.listeningSockets.conf.map fun c => (s.listenEntries c.self).length).sum +
      (s.listeningSockets.newconf.map fun c => (s.listenEntries c.self).length).sum)

/-- What the walks of a reload leave. -/
structure State.Reloaded (rejects : Rejects) (s s' : State) : Prop where
  connect : s'.connectEntries.After Cce.name sameCce rejects.newConnectEntry (connectDiff s) [] []
  sockets : State.After rejects { s with connectEntries := s'.connectEntries } (socketDiff s)
    [] [] s'

/-- **A reload** comes to an end, and leaves what the walks leave, or it faults in the roll-back of
`cle_mod`. -/
theorem diffConfigs_spec (h : s.Ordered)
    (hr : ∀ a ∈ s.connectEntries.conf, rejects.newConnectEntry a = false)
    (hfuel : s.size ≤ fuel) :
    (∃ d ∈ socketDiff s, RejectsEntry rejects s d) ∧
        diffConfigs rejects fuel s = .error (.crash .ivAvlTreeDelete) ∨
      (∀ d ∈ socketDiff s, ¬ RejectsEntry rejects s d) ∧
        ∃ s', diffConfigs rejects fuel s = .ok s' ∧ s.Reloaded rejects s' := by
  unfold State.size at hfuel
  obtain ⟨t, ht, hconnect⟩ := connectWalk_spec h.connectEntries hr (by omega : _ ≤ fuel)
  have hentries : ∀ a ∈ s.listeningSockets.conf, ∀ b ∈ s.listeningSockets.newconf,
      (s.listenEntries a.self).length + (s.listenEntries b.self).length ≤ fuel := by
    intro a ha b hb
    have hle := List.le_sum_of_mem
      (List.mem_map_of_mem (f := fun c : Cls => (s.listenEntries c.self).length) ha)
    have hle' := List.le_sum_of_mem
      (List.mem_map_of_mem (f := fun c : Cls => (s.listenEntries c.self).length) hb)
    omega
  have h₁ : State.SocketsOrdered { s with connectEntries := t } :=
    ⟨h.sockets, h.listenEntries, h.selves, h.entryCalls⟩
  have hkeeps : (socketsWalk rejects fuel).Keeps Cls.place _ _ _ := socketsWalk_keeps h₁ hentries
  have hwalk := Avl.walk_spec compareClss_orders hkeeps h.sockets.conf h.sockets.newconf
    (State.After.start h₁) (by omega : _ ≤ fuel)
  unfold diffConfigs
  rw [ht, ok_bind]
  rcases hwalk with ⟨hbad, hrun⟩ | ⟨hok, s', hrun, hafter⟩
  · exact Or.inl ⟨hbad, hrun⟩
  · obtain rfl : s'.connectEntries = t := hafter.connect
    exact Or.inr ⟨hok, s', hrun, hconnect, hafter⟩

/-- The walks leave one state. -/
theorem State.Reloaded.unique {s'' : State} (h : s.Reloaded rejects s')
    (h' : s.Reloaded rejects s'') : s' = s'' := by
  obtain ⟨⟨c₁, c₂, c₃⟩, ⟨k₁, k₂, k₃⟩, entries, calls⟩ := s'
  obtain ⟨⟨c₁', c₂', c₃'⟩, ⟨k₁', k₂', k₃'⟩, entries', calls'⟩ := s''
  obtain rfl : c₁ = c₁' := h.connect.conf.trans h'.connect.conf.symm
  obtain rfl : c₂ = c₂' := h.connect.newconf.trans h'.connect.newconf.symm
  obtain rfl : c₃ = c₃' := h.connect.calls.trans h'.connect.calls.symm
  obtain rfl : k₁ = k₁' := h.sockets.sockets.conf.trans h'.sockets.sockets.conf.symm
  obtain rfl : k₂ = k₂' := h.sockets.sockets.newconf.trans h'.sockets.sockets.newconf.symm
  obtain rfl : k₃ = k₃' := h.sockets.sockets.calls.trans h'.sockets.sockets.calls.symm
  obtain rfl : calls = calls' := h.sockets.entryCalls.trans h'.sockets.entryCalls.symm
  have hentries : entries = entries' := by
    funext n
    by_cases hn : ∃ a b, Diff.mod a b ∈ socketDiff s ∧ (n = a.self ∨ n = b.self)
    · obtain ⟨a, b, hm, rfl | rfl⟩ := hn
      · exact (h.sockets.met a b hm).1.trans (h'.sockets.met a b hm).1.symm
      · exact (h.sockets.met a b hm).2.trans (h'.sockets.met a b hm).2.symm
    · have hn' : ∀ a b, Diff.mod a b ∈ socketDiff s → n ≠ a.self ∧ n ≠ b.self := fun a b hm =>
        ⟨fun e => hn ⟨a, b, hm, Or.inl e⟩, fun e => hn ⟨a, b, hm, Or.inr e⟩⟩
      exact (h.sockets.rest n hn').trans (h'.sockets.rest n hn').symm
  rw [hentries]

/-- **A run** of a reload, with any fuel that is enough. -/
theorem diffConfigs_runs (h : s.Ordered)
    (hr : ∀ a ∈ s.connectEntries.conf, rejects.newConnectEntry a = false) :
    (∃ d ∈ socketDiff s, RejectsEntry rejects s d) ∧
        (∀ fuel, s.size ≤ fuel →
          diffConfigs rejects fuel s = .error (.crash .ivAvlTreeDelete)) ∨
      (∀ d ∈ socketDiff s, ¬ RejectsEntry rejects s d) ∧ ∃ s', s.Reloaded rejects s' ∧
        ∀ fuel, s.size ≤ fuel → diffConfigs rejects fuel s = .ok s' := by
  by_cases hbad : ∃ d ∈ socketDiff s, RejectsEntry rejects s d
  · refine Or.inl ⟨hbad, fun fuel hfuel => ?_⟩
    rcases diffConfigs_spec h hr hfuel with ⟨-, hrun⟩ | ⟨hok, -⟩
    · exact hrun
    · obtain ⟨d, hd, hbad⟩ := hbad
      exact absurd hbad (hok d hd)
  · have hok : ∀ d ∈ socketDiff s, ¬ RejectsEntry rejects s d := fun d hd hb => hbad ⟨d, hd, hb⟩
    have hend : ∀ fuel, s.size ≤ fuel →
        ∃ s', diffConfigs rejects fuel s = .ok s' ∧ s.Reloaded rejects s' := by
      intro fuel hfuel
      rcases diffConfigs_spec h hr hfuel with ⟨hb, -⟩ | ⟨-, hend⟩
      · exact absurd hb hbad
      · exact hend
    obtain ⟨s', -, hs'⟩ := hend s.size (le_refl _)
    refine Or.inr ⟨hok, s', hs', fun fuel hfuel => ?_⟩
    obtain ⟨s'', hrun, hs''⟩ := hend fuel hfuel
    rw [hrun, hs''.unique hs']

end Walks

end Reload

end Dvpn
