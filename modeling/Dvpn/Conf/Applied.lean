import Dvpn.Conf.Reload

/-!
# What a reload leaves (`confdiff.c`)

`Applied` and `RolledBack` say of two trees what has become of them, place by place, in terms of
the objects and the callbacks; `State.AppliedTo` and `State.RolledBackTo` say it of the connect
entries, of the listening sockets, and of the listen entries of each socket that both
configurations have.

Results, for two parsed configurations in memory:
* `diffConfigs_applies`: a reload in which no callback fails applies the whole difference.
* `rollsBack_iff`: a reload rolls back what is rejected, unless that is a changed listen entry.
-/

namespace Dvpn.Reload

open Avl (Diff)
open scoped List

/-! ## Two trees -/

section Trees

variable {α κ : Type} [LinearOrder κ]

/-- The callbacks that were made for the objects of a place, in order. -/
def Trees.callsFor (key : α → κ) (k : κ) (t : Trees α) : List (Call α) :=
  t.calls.filter fun c => key c.obj = k

/-- The objects of the first tree at a place. -/
def Trees.confAt (key : α → κ) (k : κ) (t : Trees α) : List α := t.conf.filter fun a => key a = k

/-- The trees `t'` are what `t` should come to: the first one is what the second one was, in the
compared parameters, and the callbacks are those for the difference. -/
structure Applied (key : α → κ) (same : α → α → Bool) (t t' : Trees α) : Prop where
  described : List.Forall₂ (fun c b => key c = key b ∧ same c b = true) t'.conf t.newconf
  kept : ∀ a ∈ t.conf, ∀ b ∈ t.newconf, key a = key b → same a b = true →
    a ∈ t'.conf ∧ t'.callsFor key (key a) = []
  changed : ∀ a ∈ t.conf, ∀ b ∈ t.newconf, key a = key b → same a b = false →
    b ∈ t'.conf ∧ t'.callsFor key (key a) = [.removed a, .new b false]
  appeared : ∀ b ∈ t.newconf, (∀ a ∈ t.conf, key a ≠ key b) →
    b ∈ t'.conf ∧ t'.callsFor key (key b) = [.new b false]
  disappeared : ∀ a ∈ t.conf, (∀ b ∈ t.newconf, key a ≠ key b) →
    t'.callsFor key (key a) = [.removed a]
  calls : ∀ c ∈ t'.calls, c.obj ∈ t.conf ++ t.newconf
  perm : (t'.conf ++ t'.newconf).Perm (t.conf ++ t.newconf)
  nodup : (t'.conf ++ t'.newconf).Nodup
  sorted : Avl.Sorted key t'.conf ∧ Avl.Sorted key t'.newconf

/-- The trees `t'` have at the places of rejected objects what `t` had there. -/
structure RolledBack (key : α → κ) (same : α → α → Bool) (rejects : α → Bool) (t t' : Trees α) :
    Prop where
  added : ∀ b ∈ t.newconf, (∀ a ∈ t.conf, key a ≠ key b) → rejects b = true →
    t'.confAt key (key b) = [] ∧ b ∈ t'.newconf ∧ t'.callsFor key (key b) = [.new b true]
  changed : ∀ a ∈ t.conf, ∀ b ∈ t.newconf, key a = key b → same a b = false → rejects b = true →
    t'.confAt key (key b) = [a] ∧ b ∈ t'.newconf ∧
      t'.callsFor key (key b) = [.removed a, .new b true, .new a false]
  perm : (t'.conf ++ t'.newconf).Perm (t.conf ++ t.newconf)
  nodup : (t'.conf ++ t'.newconf).Nodup
  sorted : Avl.Sorted key t'.conf ∧ Avl.Sorted key t'.newconf

variable {cmp : α → α → Int} {key : α → κ} {same : α → α → Bool} {rejects : α → Bool}
  {d : Diff α} {t t' : Trees α} {a b x : α}

theorem obj_of_mem_callsAt {c : Call α} (hc : c ∈ callsAt same rejects d) :
    c.obj ∈ d.ofLeft ++ d.ofRight := by
  cases d with
  | add b =>
    obtain rfl := List.mem_singleton.mp hc
    exact List.mem_cons_self
  | mod a b =>
    simp only [callsAt] at hc
    split_ifs at hc <;> simp only [List.mem_cons, List.not_mem_nil, or_false] at hc
    · rcases hc with rfl | rfl | rfl <;> simp [Call.obj, Diff.ofLeft, Diff.ofRight]
    · rcases hc with rfl | rfl <;> simp [Call.obj, Diff.ofLeft, Diff.ofRight]
  | del a =>
    obtain rfl := List.mem_singleton.mp hc
    exact List.mem_cons_self

/-- The two trees that a whole walk leaves. -/
structure Walked (cmp : α → α → Int) (key : α → κ) (same : α → α → Bool) (rejects : α → Bool)
    (t t' : Trees α) : Prop where
  orders : Avl.Orders cmp key
  ordered : t.Ordered key
  after : t'.After key same rejects (Avl.diff cmp t.conf t.newconf) [] []

namespace Walked

variable (h : Walked cmp key same rejects t t')
include h

theorem conf : t'.conf = (Avl.diff cmp t.conf t.newconf).flatMap (keptAt same rejects) :=
  h.after.conf.trans (List.append_nil _)

theorem newconf : t'.newconf = (Avl.diff cmp t.conf t.newconf).flatMap (leftAt same rejects) :=
  h.after.newconf.trans (List.append_nil _)

theorem mem : d ∈ Avl.diff cmp t.conf t.newconf ↔ d.Of key t.conf t.newconf :=
  Avl.mem_diff h.orders h.ordered.conf h.ordered.newconf

theorem sorted_diff : Avl.Sorted (Diff.place key) (Avl.diff cmp t.conf t.newconf) :=
  Avl.sorted_diff h.orders h.ordered.conf h.ordered.newconf

theorem key_at (hd : d ∈ Avl.diff cmp t.conf t.newconf)
    (hx : x ∈ keptAt same rejects d ++ leftAt same rejects d) : key x = d.place key :=
  key_of_mem_keptAt (fun a b e => h.after.keys a b (e ▸ hd)) hx

/-- **At the place of a difference** is what the difference leaves there. -/
theorem confAt_place (hd : d ∈ Avl.diff cmp t.conf t.newconf) :
    t'.confAt key (d.place key) = keptAt same rejects d := by
  unfold Trees.confAt
  rw [h.conf]
  refine Avl.filter_flatMap_place h.sorted_diff hd fun d' hd' x hx => ?_
  rw [decide_eq_true_iff, h.key_at hd' (List.mem_append_left _ hx)]

theorem callsFor_place (hd : d ∈ Avl.diff cmp t.conf t.newconf) :
    t'.callsFor key (d.place key) = callsAt same rejects d := by
  unfold Trees.callsFor
  rw [h.after.calls]
  refine Avl.filter_flatMap_place h.sorted_diff hd fun d' hd' c hc => ?_
  rw [decide_eq_true_iff, Diff.key_eq (h.mem.mp hd').same (obj_of_mem_callsAt hc)]

theorem mem_conf (hd : d ∈ Avl.diff cmp t.conf t.newconf) (hx : x ∈ keptAt same rejects d) :
    x ∈ t'.conf := h.conf ▸ List.mem_flatMap.mpr ⟨d, hd, hx⟩

theorem mem_newconf (hd : d ∈ Avl.diff cmp t.conf t.newconf) (hx : x ∈ leftAt same rejects d) :
    x ∈ t'.newconf := h.newconf ▸ List.mem_flatMap.mpr ⟨d, hd, hx⟩

/-- The differences have all of both trees. -/
theorem diff_perm : ((Avl.diff cmp t.conf t.newconf).flatMap fun d => d.ofLeft ++ d.ofRight).Perm
    (t.conf ++ t.newconf) := by
  have hp := List.flatMap_append_perm (Avl.diff cmp t.conf t.newconf) Diff.ofLeft Diff.ofRight
  rw [Avl.flatMap_ofLeft h.orders h.ordered.conf h.ordered.newconf,
    Avl.flatMap_ofRight h.orders h.ordered.conf h.ordered.newconf] at hp
  exact hp.symm

/-- **Every object** is in one of the two trees. -/
theorem perm : (t'.conf ++ t'.newconf).Perm (t.conf ++ t.newconf) := by
  rw [h.conf, h.newconf]
  calc (Avl.diff cmp t.conf t.newconf).flatMap (keptAt same rejects) ++
        (Avl.diff cmp t.conf t.newconf).flatMap (leftAt same rejects)
      ~ (Avl.diff cmp t.conf t.newconf).flatMap fun d =>
          keptAt same rejects d ++ leftAt same rejects d := List.flatMap_append_perm _ _ _
    _ ~ (Avl.diff cmp t.conf t.newconf).flatMap fun d => d.ofLeft ++ d.ofRight :=
        List.Perm.flatMap_left _ fun d _ => keptAt_perm d
    _ ~ t.conf ++ t.newconf := h.diff_perm

/-- A tree with at most one object for a difference, at its place, is in order. -/
theorem sorted_flatMap {f : Diff α → List α} (hlen : ∀ d, (f d).length ≤ 1)
    (hkey : ∀ d ∈ Avl.diff cmp t.conf t.newconf, ∀ x ∈ f d, key x = d.place key) :
    Avl.Sorted key ((Avl.diff cmp t.conf t.newconf).flatMap f) := by
  refine List.pairwise_flatMap.mpr ⟨fun d _ => ?_, h.sorted_diff.imp_of_mem ?_⟩
  · match hf : f d with
    | [] => exact List.Pairwise.nil
    | [x] => exact List.pairwise_singleton _ _
    | x :: y :: l => exact absurd (hlen d) (by simp [hf])
  · intro d d' hd hd' hlt x hx y hy
    rwa [hkey d hd x hx, hkey d' hd' y hy]

theorem sorted : Avl.Sorted key t'.conf ∧ Avl.Sorted key t'.newconf := by
  rw [h.conf, h.newconf]
  refine ⟨h.sorted_flatMap (fun d => ?_) fun d hd x hx => h.key_at hd (List.mem_append_left _ hx),
    h.sorted_flatMap (fun d => ?_) fun d hd x hx => h.key_at hd (List.mem_append_right _ hx)⟩
  · cases d with
    | add b => simp only [keptAt]; split_ifs <;> simp
    | mod a b => simp only [keptAt]; split_ifs <;> simp
    | del a => exact Nat.zero_le 1
  · cases d with
    | add b => simp only [leftAt]; split_ifs <;> simp
    | mod a b => simp only [leftAt]; split_ifs <;> simp
    | del a => exact le_refl 1

theorem calls_obj : ∀ c ∈ t'.calls, c.obj ∈ t.conf ++ t.newconf := by
  intro c hc
  rw [h.after.calls] at hc
  obtain ⟨d, hd, hc⟩ := List.mem_flatMap.mp hc
  exact (h.mem.mp hd).mem_append (obj_of_mem_callsAt hc)

/-- **The roll-back** of two trees. -/
theorem rolledBack (hn : (t.conf ++ t.newconf).Nodup) : RolledBack key same rejects t t' := by
  refine ⟨fun b hb hno hr => ?_, fun a ha b hb hab hs hr => ?_, h.perm, h.perm.nodup_iff.mpr hn,
    h.sorted⟩
  · have hd : Diff.add b ∈ Avl.diff cmp t.conf t.newconf := h.mem.mpr ⟨hb, hno⟩
    refine ⟨(h.confAt_place hd).trans (if_pos hr), h.mem_newconf hd ?_,
      (h.callsFor_place hd).trans ?_⟩
    · simp [leftAt, hr]
    · simp [callsAt, hr]
  · have hd : Diff.mod a b ∈ Avl.diff cmp t.conf t.newconf := h.mem.mpr ⟨ha, hb, hab⟩
    rw [← hab]
    refine ⟨(h.confAt_place hd).trans ?_, h.mem_newconf hd ?_, (h.callsFor_place hd).trans ?_⟩
    · simp [keptAt, hs, hr]
    · simp [leftAt, hs, hr]
    · simp [callsAt, hs, hr]

end Walked

/-- With no failure the first tree comes to what the second one was. -/
theorem described_diff (ho : Avl.Orders cmp key) (hsame : ∀ b, same b b = true) {l l' : List α}
    (hs : Avl.Sorted key l) (hs' : Avl.Sorted key l') :
    List.Forall₂ (fun c b => key c = key b ∧ same c b = true)
      ((Avl.diff cmp l l').flatMap (keptAt same fun _ => false)) l' := by
  refine Avl.diff_induction (motive := fun l l' =>
    List.Forall₂ (fun c b => key c = key b ∧ same c b = true)
      ((Avl.diff cmp l l').flatMap (keptAt same fun _ => false)) l') ho .nil ?_ ?_ ?_ hs hs'
  · intro a l l' _ _ hdiff ih
    rw [hdiff]
    exact ih
  · intro b l l' _ _ hdiff ih
    rw [hdiff]
    exact .cons ⟨rfl, hsame b⟩ ih
  · intro a b l l' hab _ _ hdiff ih
    rw [hdiff, List.flatMap_cons]
    by_cases hs : same a b = true
    · have hkept : keptAt same (fun _ => false) (.mod a b) = [a] := if_pos hs
      rw [hkept]
      exact .cons ⟨hab, hs⟩ ih
    · have hkept : keptAt same (fun _ => false) (.mod a b) = [b] := if_neg hs
      rw [hkept]
      exact .cons ⟨rfl, hsame b⟩ ih

/-- **The whole difference** is applied when no callback fails. -/
theorem Walked.applied (h : Walked cmp key same (fun _ => false) t t')
    (hsame : ∀ b, same b b = true) (hn : (t.conf ++ t.newconf).Nodup) :
    Applied key same t t' := by
  refine ⟨?_, fun a ha b hb hab hs => ?_, fun a ha b hb hab hs => ?_, fun b hb hno => ?_,
    fun a ha hno => ?_, h.calls_obj, h.perm, h.perm.nodup_iff.mpr hn, h.sorted⟩
  · rw [h.conf]
    exact described_diff h.orders hsame h.ordered.conf h.ordered.newconf
  · have hd : Diff.mod a b ∈ Avl.diff cmp t.conf t.newconf := h.mem.mpr ⟨ha, hb, hab⟩
    exact ⟨h.mem_conf hd (by simp [keptAt, hs]),
      (h.callsFor_place hd).trans (by simp [callsAt, hs])⟩
  · have hd : Diff.mod a b ∈ Avl.diff cmp t.conf t.newconf := h.mem.mpr ⟨ha, hb, hab⟩
    exact ⟨h.mem_conf hd (by simp [keptAt, hs]),
      (h.callsFor_place hd).trans (by simp [callsAt, hs])⟩
  · have hd : Diff.add b ∈ Avl.diff cmp t.conf t.newconf := h.mem.mpr ⟨hb, hno⟩
    exact ⟨h.mem_conf hd (by simp [keptAt]), h.callsFor_place hd⟩
  · have hd : Diff.del a ∈ Avl.diff cmp t.conf t.newconf :=
      h.mem.mpr ⟨ha, hno⟩
    exact h.callsFor_place hd

end Trees

/-! ## The configurations -/

/-- The listen entries of two sockets, with the callbacks that were made for those of the first. -/
def State.entryTrees (s : State) (a b : Cls) : Trees Cle where
  conf := s.listenEntries a.self
  newconf := s.listenEntries b.self
  calls := (s.entryCalls.filter fun p => p.1 = a).map Prod.snd

/-- The listen entries of the sockets `l`. -/
def State.entriesOf (s : State) (l : List Cls) : List Cle :=
  l.flatMap fun c => s.listenEntries c.self

theorem State.entriesOf_perm (s : State) {l l' : List Cls} (h : l.Perm l') :
    (s.entriesOf l).Perm (s.entriesOf l') := h.flatMap_right _

theorem State.entriesOf_flatMap {β : Type} (s : State) (l : List β) (f : β → List Cls) :
    s.entriesOf (l.flatMap f) = l.flatMap fun x => s.entriesOf (f x) := List.flatMap_assoc

/-- No object is in two trees. -/
structure State.Separate (s : State) : Prop where
  connect : (s.connectEntries.conf ++ s.connectEntries.newconf).Nodup
  entries : (s.entriesOf (s.listeningSockets.conf ++ s.listeningSockets.newconf)).Nodup

/-- The state `s'` is what a reload of `s` should come to. -/
structure State.AppliedTo (s s' : State) : Prop where
  connect : Applied Cce.name sameCce s.connectEntries s'.connectEntries
  sockets : Applied Cls.place (fun _ _ => true) s.listeningSockets s'.listeningSockets
  entries : ∀ a ∈ s.listeningSockets.conf, ∀ b ∈ s.listeningSockets.newconf, a.place = b.place →
    Applied Cle.name sameCle (s.entryTrees a b) (s'.entryTrees a b)
  entryCalls : ∀ p ∈ s'.entryCalls, p.1 ∈ s.listeningSockets.conf ∧
    ∃ b ∈ s.listeningSockets.newconf, p.1.place = b.place
  described : List.Forall₂ (fun c b => c.listenAddress = b.listenAddress ∧
    List.Forall₂ (fun e e' => Cle.name e = Cle.name e' ∧ sameCle e e' = true)
      (s'.listenEntries c.self) (s.listenEntries b.self))
    s'.listeningSockets.conf s.listeningSockets.newconf
  perm : (s'.entriesOf (s'.listeningSockets.conf ++ s'.listeningSockets.newconf)).Perm
    (s.entriesOf (s.listeningSockets.conf ++ s.listeningSockets.newconf))
  nodup : (s'.entriesOf (s'.listeningSockets.conf ++ s'.listeningSockets.newconf)).Nodup
  sorted : ∀ c ∈ s'.listeningSockets.conf ++ s'.listeningSockets.newconf,
    Avl.Sorted Cle.name (s'.listenEntries c.self)

/-- The state `s'` has what `s` had where an object was rejected. -/
structure State.RolledBackTo (rejects : Rejects) (s s' : State) : Prop where
  connect : RolledBack Cce.name sameCce rejects.newConnectEntry s.connectEntries s'.connectEntries
  sockets : RolledBack Cls.place (fun _ _ => true) rejects.newListeningSocket s.listeningSockets
    s'.listeningSockets
  entries : ∀ a ∈ s.listeningSockets.conf, ∀ b ∈ s.listeningSockets.newconf, a.place = b.place →
    RolledBack Cle.name sameCle (rejects.newListenEntry a) (s.entryTrees a b) (s'.entryTrees a b)
  perm : (s'.entriesOf (s'.listeningSockets.conf ++ s'.listeningSockets.newconf)).Perm
    (s.entriesOf (s.listeningSockets.conf ++ s.listeningSockets.newconf))
  nodup : (s'.entriesOf (s'.listeningSockets.conf ++ s'.listeningSockets.newconf)).Nodup
  sorted : ∀ c ∈ s'.listeningSockets.conf ++ s'.listeningSockets.newconf,
    Avl.Sorted Cle.name (s'.listenEntries c.self)

namespace State.Reloaded

variable {rejects : Rejects} {s s' : State} {a b c : Cls} {d : Diff Cls}

section

variable (h : s.Ordered) (hr : s.Reloaded rejects s')
include h hr

theorem connectWalked : Walked compareCces Cce.name sameCce rejects.newConnectEntry
    s.connectEntries s'.connectEntries :=
  ⟨compareCces_orders, h.connectEntries, hr.connect⟩

theorem socketsWalked : Walked compareClss Cls.place (fun _ _ => true) rejects.newListeningSocket
    s.listeningSockets s'.listeningSockets :=
  ⟨compareClss_orders, h.sockets, hr.sockets.sockets⟩

theorem mem_socketDiff : d ∈ socketDiff s ↔
    d.Of Cls.place s.listeningSockets.conf s.listeningSockets.newconf :=
  (socketsWalked h hr).mem

/-- Each place has one difference. -/
theorem eq_mod (hd : d ∈ socketDiff s) (hm : Diff.mod a b ∈ socketDiff s)
    (hc : c ∈ d.ofLeft ++ d.ofRight) (hplace : c.place = a.place) : d = .mod a b := by
  have hd' := Diff.key_eq ((mem_socketDiff h hr).mp hd).same hc
  exact (socketsWalked h hr).sorted_diff.eq_of_key hd hm (hd'.symm.trans hplace)

/-- The listen entries of a socket of one configuration only stay. -/
theorem listenEntries_other (hd : d ∈ socketDiff s) (hno : ∀ a b, d ≠ .mod a b)
    (hc : c ∈ d.ofLeft ++ d.ofRight) : s'.listenEntries c.self = s.listenEntries c.self := by
  refine hr.sockets.rest c.self fun a b hm => ?_
  have hof := (mem_socketDiff h hr).mp hm
  have hinj := List.inj_on_of_nodup_map h.selves
  have hmem := ((mem_socketDiff h hr).mp hd).mem_append hc
  refine ⟨fun e => ?_, fun e => ?_⟩
  · have hca := hinj hmem (List.mem_append_left _ hof.1) e
    exact hno a b (eq_mod h hr hd hm hc (congrArg Cls.place hca))
  · have hcb := hinj hmem (List.mem_append_right _ hof.2.1) e
    exact hno a b (eq_mod h hr hd hm hc ((congrArg Cls.place hcb).trans hof.2.2.symm))

/-- The callbacks for the listen entries of a socket are those of its difference. -/
theorem entryTrees_calls (hm : Diff.mod a b ∈ socketDiff s) : (s'.entryTrees a b).calls =
    (entryDiff s a b).flatMap (callsAt sameCle (rejects.newListenEntry a)) := by
  have hat : (s'.entryCalls.filter fun p => p.1 = a) = entryCallsAt rejects s (.mod a b) := by
    rw [hr.sockets.entryCalls]
    refine Avl.filter_flatMap_place (socketsWalked h hr).sorted_diff hm fun d hd p hp => ?_
    cases d with
    | add b => exact absurd hp List.not_mem_nil
    | mod a' b' =>
      obtain ⟨c, -, rfl⟩ := List.mem_map.mp hp
      rw [decide_eq_true_iff]
      refine ⟨congrArg Cls.place, fun e => ?_⟩
      exact (Diff.mod.inj (eq_mod h hr hd hm List.mem_cons_self e)).1
    | del a => exact absurd hp List.not_mem_nil
  show (s'.entryCalls.filter fun p => p.1 = a).map Prod.snd = _
  rw [hat, entryCallsAt, List.map_map]
  exact List.map_id _

theorem entriesWalked (hm : Diff.mod a b ∈ socketDiff s) :
    Walked compareCles Cle.name sameCle (rejects.newListenEntry a) (s.entryTrees a b)
      (s'.entryTrees a b) := by
  have hof := (mem_socketDiff h hr).mp hm
  have hsa := h.listenEntries a (List.mem_append_left _ hof.1)
  have hsb := h.listenEntries b (List.mem_append_right _ hof.2.1)
  have hcalls : (s.entryTrees a b).calls = [] := by
    unfold State.entryTrees
    rw [h.entryCalls]
    rfl
  refine ⟨compareCles_orders, ⟨hsa, hsb, hcalls⟩,
    ⟨?_, ?_, entryTrees_calls h hr hm, fun _ _ => ⟨by simp, by simp⟩, fun e e' hm => ?_⟩⟩
  · exact (hr.sockets.met a b hm).1.trans (List.append_nil _).symm
  · exact (hr.sockets.met a b hm).2.trans (List.append_nil _).symm
  · exact ((Avl.mem_diff compareCles_orders hsa hsb).mp hm).2.2

/-- **Every listen entry** is in one of the two configurations. -/
theorem entries_perm :
    (s'.entriesOf (s'.listeningSockets.conf ++ s'.listeningSockets.newconf)).Perm
      (s.entriesOf (s.listeningSockets.conf ++ s.listeningSockets.newconf)) := by
  have hw := socketsWalked h hr
  have hat : ∀ d ∈ socketDiff s,
      (s'.entriesOf (d.ofLeft ++ d.ofRight)).Perm (s.entriesOf (d.ofLeft ++ d.ofRight)) := by
    intro d hd
    cases d with
    | mod a b =>
      have hp := (entriesWalked h hr hd).perm
      simpa [State.entriesOf, State.entryTrees, Diff.ofLeft, Diff.ofRight] using hp
    | add b =>
      have hb := listenEntries_other h hr hd (by simp) (c := b) List.mem_cons_self
      simp [State.entriesOf, Diff.ofLeft, Diff.ofRight, hb]
    | del a =>
      have ha := listenEntries_other h hr hd (by simp) (c := a) List.mem_cons_self
      simp [State.entriesOf, Diff.ofLeft, Diff.ofRight, ha]
  calc s'.entriesOf (s'.listeningSockets.conf ++ s'.listeningSockets.newconf)
      ~ s'.entriesOf ((socketDiff s).flatMap fun d : Diff Cls => d.ofLeft ++ d.ofRight) :=
        s'.entriesOf_perm (hw.perm.trans hw.diff_perm.symm)
    _ = (socketDiff s).flatMap fun d : Diff Cls => s'.entriesOf (d.ofLeft ++ d.ofRight) :=
        s'.entriesOf_flatMap _ _
    _ ~ (socketDiff s).flatMap fun d : Diff Cls => s.entriesOf (d.ofLeft ++ d.ofRight) :=
        List.Perm.flatMap_left _ hat
    _ = s.entriesOf ((socketDiff s).flatMap fun d : Diff Cls => d.ofLeft ++ d.ofRight) :=
        (s.entriesOf_flatMap _ _).symm
    _ ~ s.entriesOf (s.listeningSockets.conf ++ s.listeningSockets.newconf) :=
        s.entriesOf_perm hw.diff_perm

/-- The listen entries of every socket are in order. -/
theorem entries_sorted (hc : c ∈ s'.listeningSockets.conf ++ s'.listeningSockets.newconf) :
    Avl.Sorted Cle.name (s'.listenEntries c.self) := by
  have hw := socketsWalked h hr
  have hc := hw.perm.mem_iff.mp hc
  obtain ⟨d, hd, hcd⟩ := List.mem_flatMap.mp (hw.diff_perm.mem_iff.mpr hc)
  cases d with
  | mod a b =>
    have hsorted := (entriesWalked h hr hd).sorted
    rcases List.mem_cons.mp hcd with rfl | hcd
    · exact hsorted.1
    · rw [List.mem_singleton.mp hcd]
      exact hsorted.2
  | add b =>
    rw [listenEntries_other h hr hd (by simp) hcd]
    exact h.listenEntries c hc
  | del a =>
    rw [listenEntries_other h hr hd (by simp) hcd]
    exact h.listenEntries c hc

theorem entryTrees_nodup (hsep : s.Separate) (hm : Diff.mod a b ∈ socketDiff s) :
    ((s.entryTrees a b).conf ++ (s.entryTrees a b).newconf).Nodup := by
  obtain ⟨ha, hb, -⟩ := (mem_socketDiff h hr).mp hm
  have hsub : ([a] ++ [b]).Sublist (s.listeningSockets.conf ++ s.listeningSockets.newconf) :=
    (List.singleton_sublist.mpr ha).append (List.singleton_sublist.mpr hb)
  have hn := hsep.entries.sublist (hsub.flatMap fun c => s.listenEntries c.self)
  simpa [State.entryTrees] using hn

/-- **The roll-back of a reload**: what was rejected has changed nothing. -/
theorem rolledBackTo (hsep : s.Separate) : s.RolledBackTo rejects s' := by
  refine ⟨(connectWalked h hr).rolledBack hsep.connect,
    (socketsWalked h hr).rolledBack (h.selves.of_map _), fun a ha b hb hab => ?_,
    entries_perm h hr, (entries_perm h hr).nodup_iff.mpr hsep.entries,
    fun c hc => entries_sorted h hr hc⟩
  have hm : Diff.mod a b ∈ socketDiff s := (mem_socketDiff h hr).mpr ⟨ha, hb, hab⟩
  exact (entriesWalked h hr hm).rolledBack (entryTrees_nodup h hr hsep hm)

theorem entryCalls_mem : ∀ p ∈ s'.entryCalls, p.1 ∈ s.listeningSockets.conf ∧
    ∃ b ∈ s.listeningSockets.newconf, p.1.place = b.place := by
  intro p hp
  rw [hr.sockets.entryCalls] at hp
  obtain ⟨d, hd, hp⟩ := List.mem_flatMap.mp hp
  cases d with
  | add b => exact absurd hp List.not_mem_nil
  | mod a b =>
    obtain ⟨c, -, rfl⟩ := List.mem_map.mp hp
    obtain ⟨ha, hb, hab⟩ := (mem_socketDiff h hr).mp hd
    exact ⟨ha, b, hb, hab⟩
  | del a => exact absurd hp List.not_mem_nil

end

section

variable (h : s.Ordered) (hr : s.Reloaded Rejects.none s')
include h hr

theorem entries_applied (hsep : s.Separate) (hm : Diff.mod a b ∈ socketDiff s) :
    Applied Cle.name sameCle (s.entryTrees a b) (s'.entryTrees a b) :=
  (entriesWalked h hr hm).applied sameCle_self (entryTrees_nodup h hr hsep hm)

/-- A socket of the configuration has the entries of the new socket of its address. -/
theorem entries_described (hsep : s.Separate) (hc : c ∈ s'.listeningSockets.conf)
    (hb : b ∈ s.listeningSockets.newconf) (hcb : c.place = b.place) :
    List.Forall₂ (fun e e' => Cle.name e = Cle.name e' ∧ sameCle e e' = true)
      (s'.listenEntries c.self) (s.listenEntries b.self) := by
  have hw := socketsWalked h hr
  rw [hw.conf] at hc
  obtain ⟨d, hd, hcd⟩ := List.mem_flatMap.mp hc
  have hof := (mem_socketDiff h hr).mp hd
  cases d with
  | add b' =>
    obtain rfl := List.mem_singleton.mp hcd
    obtain rfl := h.sockets.newconf.eq_of_key hof.1 hb hcb
    rw [listenEntries_other h hr hd (by simp) List.mem_cons_self]
    exact List.forall₂_same.mpr fun e _ => ⟨rfl, sameCle_self e⟩
  | mod a b' =>
    obtain rfl := List.mem_singleton.mp hcd
    obtain rfl := h.sockets.newconf.eq_of_key hof.2.1 hb (hof.2.2.symm.trans hcb)
    exact (entries_applied h hr hsep hd).described
  | del a => exact absurd hcd List.not_mem_nil

/-- **A reload without a failure** applies the whole difference. -/
theorem appliedTo (hsep : s.Separate) : s.AppliedTo s' := by
  have hsockets : Applied Cls.place (fun _ _ => true) s.listeningSockets s'.listeningSockets :=
    (socketsWalked h hr).applied (fun _ => rfl) (h.selves.of_map _)
  refine ⟨(connectWalked h hr).applied sameCce_self hsep.connect, hsockets,
    fun a ha b hb hab => ?_, entryCalls_mem h hr, ?_, entries_perm h hr,
    (entries_perm h hr).nodup_iff.mpr hsep.entries, fun c hc => entries_sorted h hr hc⟩
  · exact entries_applied h hr hsep ((mem_socketDiff h hr).mpr ⟨ha, hb, hab⟩)
  · obtain ⟨hlen, hzip⟩ := List.forall₂_iff_zip.mp hsockets.described
    refine List.forall₂_iff_zip.mpr ⟨hlen, fun {c b} hcb => ?_⟩
    have hplace := (hzip hcb).1
    have hmem := List.of_mem_zip hcb
    exact ⟨SockAddr.place_injective hplace, entries_described h hr hsep hmem.1 hmem.2 hplace⟩

end

end State.Reloaded

/-! ## Parsed configurations -/

/-- The socket that an object is, with its listen entries. -/
def State.socketVal (s : State) (c : Cls) : ConfListeningSocket :=
  ⟨c.listenAddress, c.haveWildcardListenEntry, (s.listenEntries c.self).map Object.val⟩

/-- Two configurations in memory, before a reload: no object is in both. -/
structure Loaded (conf newconf : Conf) (s : State) : Prop where
  connectConf : s.connectEntries.conf.map Object.val = conf.connectEntries
  connectNewconf : s.connectEntries.newconf.map Object.val = newconf.connectEntries
  socketsConf : s.listeningSockets.conf.map s.socketVal = conf.listeningSockets
  socketsNewconf : s.listeningSockets.newconf.map s.socketVal = newconf.listeningSockets
  connectSelves : ((s.connectEntries.conf ++ s.connectEntries.newconf).map Object.self).Nodup
  socketSelves : ((s.listeningSockets.conf ++ s.listeningSockets.newconf).map Cls.self).Nodup
  entrySelves : ((s.entriesOf (s.listeningSockets.conf ++ s.listeningSockets.newconf)).map
    Object.self).Nodup
  connectCalls : s.connectEntries.calls = []
  socketCalls : s.listeningSockets.calls = []
  entryCalls : s.entryCalls = []

section Loaded

variable {conf newconf : Conf} {rejects : Rejects} {s : State}

theorem Loaded.separate (h : Loaded conf newconf s) : s.Separate :=
  ⟨h.connectSelves.of_map _, h.entrySelves.of_map _⟩

/-- Objects are in order when what is in them is. -/
theorem sorted_of_map {α β κ : Type} [LinearOrder κ] {f : α → β} {key : β → κ} {key' : α → κ}
    {l : List α} (h : Avl.Sorted key (l.map f)) (hkey : ∀ a, key' a = key (f a)) :
    Avl.Sorted key' l := by
  rw [Avl.Sorted, List.pairwise_map] at h
  refine h.imp fun {a b} hlt => ?_
  rwa [hkey, hkey]

theorem Loaded.ordered (h : Loaded conf newconf s) (hc : conf.Wf) (hn : newconf.Wf) :
    s.Ordered := by
  obtain ⟨hcc, hcs, hce⟩ := hc
  obtain ⟨hnc, hns, hne⟩ := hn
  rw [← h.connectConf] at hcc
  rw [← h.connectNewconf] at hnc
  rw [← h.socketsConf] at hcs hce
  rw [← h.socketsNewconf] at hns hne
  refine { sockets := ⟨sorted_of_map hcs fun _ => rfl, sorted_of_map hns fun _ => rfl,
             h.socketCalls⟩
           listenEntries := fun c hm => ?_
           selves := h.socketSelves
           entryCalls := h.entryCalls
           connectEntries := ⟨sorted_of_map hcc fun _ => rfl, sorted_of_map hnc fun _ => rfl,
             h.connectCalls⟩ }
  rcases List.mem_append.mp hm with hm | hm
  · exact sorted_of_map (hce _ (List.mem_map_of_mem hm)).sorted fun _ => rfl
  · exact sorted_of_map (hne _ (List.mem_map_of_mem hm)).sorted fun _ => rfl

/-- The changed listen entries of the sockets that both configurations have are accepted. -/
def AcceptsChanges (rejects : Rejects) (s : State) : Prop :=
  ∀ a ∈ s.listeningSockets.conf, ∀ b ∈ s.listeningSockets.newconf,
    a.listenAddress = b.listenAddress → ∀ e ∈ s.listenEntries a.self,
    ∀ e' ∈ s.listenEntries b.self, e.name = e'.name → sameCle e e' = false →
    rejects.newListenEntry a e' = false

/-- The changes that are accepted are those of the differences. -/
theorem acceptsChanges_iff (h : s.Ordered) :
    AcceptsChanges rejects s ↔ ∀ d ∈ socketDiff s, ¬ RejectsEntry rejects s d := by
  have hsockets : ∀ d, d ∈ socketDiff s ↔
      d.Of Cls.place s.listeningSockets.conf s.listeningSockets.newconf := fun _ =>
    Avl.mem_diff compareClss_orders h.sockets.conf h.sockets.newconf
  have hentries : ∀ a ∈ s.listeningSockets.conf, ∀ b ∈ s.listeningSockets.newconf, ∀ d,
      d ∈ entryDiff s a b ↔ d.Of Cle.name (s.listenEntries a.self) (s.listenEntries b.self) :=
    fun a ha b hb _ => Avl.mem_diff compareCles_orders
      (h.listenEntries a (List.mem_append_left _ ha))
      (h.listenEntries b (List.mem_append_right _ hb))
  constructor
  · intro hacc d hd hbad
    cases d with
    | add _ => exact hbad
    | del _ => exact hbad
    | mod a b =>
      obtain ⟨ha, hb, hab⟩ := (hsockets _).mp hd
      obtain ⟨d, hd, hbad⟩ := hbad
      cases d with
      | add _ => exact hbad
      | del _ => exact hbad
      | mod e e' =>
        obtain ⟨he, he', hee⟩ := (hentries a ha b hb _).mp hd
        have hrej := hacc a ha b hb (SockAddr.place_injective hab) e he e' he' hee hbad.1
        exact absurd hbad.2 (by simp [hrej])
  · intro hok a ha b hb hab e he e' he' hee hs
    by_contra hrej
    refine hok (.mod a b) ((hsockets _).mpr ⟨ha, hb, congrArg SockAddr.place hab⟩)
      ⟨.mod e e', (hentries a ha b hb _).mpr ⟨he, he', hee⟩, hs, ?_⟩
    simpa using hrej

/-- A reload comes to an end, and has rolled back what was rejected. -/
def RollsBack (rejects : Rejects) (s : State) : Prop :=
  ∃ n s', (∀ fuel, n ≤ fuel → diffConfigs rejects fuel s = .ok s') ∧ s.RolledBackTo rejects s'

theorem rollsBack_of_accepts (h : s.Ordered) (hsep : s.Separate)
    (hr : ∀ a ∈ s.connectEntries.conf, rejects.newConnectEntry a = false)
    (hacc : AcceptsChanges rejects s) : RollsBack rejects s := by
  rcases diffConfigs_runs h hr with ⟨⟨d, hd, hbad⟩, -⟩ | ⟨-, s', hs', hrun⟩
  · exact absurd hbad ((acceptsChanges_iff h).mp hacc d hd)
  · exact ⟨s.size, s', hrun, hs'.rolledBackTo h hsep⟩

/-- The roll-back of `cle_mod` faults. -/
theorem accepts_of_rollsBack (h : s.Ordered)
    (hr : ∀ a ∈ s.connectEntries.conf, rejects.newConnectEntry a = false)
    (hroll : RollsBack rejects s) : AcceptsChanges rejects s := by
  refine (acceptsChanges_iff h).mpr fun d hd hbad => ?_
  obtain ⟨n, s', hend, -⟩ := hroll
  have hend := hend (max n s.size) (le_max_left _ _)
  rcases diffConfigs_runs h hr with ⟨-, hrun⟩ | ⟨hok, -⟩
  · rw [hrun _ (le_max_right _ _)] at hend
    cases hend
  · exact hok d hd hbad

end Loaded

/-! ## A small reload -/

/-- A connect entry, and a socket with a listen entry. -/
def sampleConf (hostname : CString) (connLimit : Int) : Conf :=
  ⟨[⟨[1], hostname, [8], .any, filledId 5, .epeer, [1], 0⟩],
    [⟨.inet ⟨[10, 0, 0, 1], rfl⟩ ⟨[0, 9], rfl⟩, false,
      [⟨[1], .matching, filledId 5, .epeer, [1], 0, connLimit⟩]⟩]⟩

theorem sampleConf_parsed (hostname : CString) {connLimit : Int} (h : 1 ≤ connLimit) :
    (sampleConf hostname connLimit).Parsed := by
  refine ⟨[.connect ⟨[1], hostname, [8], .any, filledId 5, .epeer, [1], 0⟩,
    .listen (.inet ⟨[10, 0, 0, 1], rfl⟩ ⟨[0, 9], rfl⟩)
      ⟨[1], .matching, filledId 5, .epeer, [1], 0, connLimit⟩], ?_, rfl⟩
  intro o ho
  rcases List.mem_cons.mp ho with rfl | ho
  · exact ⟨by simp, Or.inl rfl⟩
  · obtain rfl := List.mem_singleton.mp ho
    exact ⟨by simp, by simp, Or.inl rfl, h⟩

/-- The connect entry and the listen entry are changed. -/
def sampleState : State where
  connectEntries := ⟨[⟨0, ⟨[1], [9], [8], .any, filledId 5, .epeer, [1], 0⟩⟩],
    [⟨1, ⟨[1], [7], [8], .any, filledId 5, .epeer, [1], 0⟩⟩], []⟩
  listeningSockets := ⟨[⟨2, .inet ⟨[10, 0, 0, 1], rfl⟩ ⟨[0, 9], rfl⟩, false⟩],
    [⟨3, .inet ⟨[10, 0, 0, 1], rfl⟩ ⟨[0, 9], rfl⟩, false⟩], []⟩
  listenEntries n :=
    if n = 2 then [⟨4, ⟨[1], .matching, filledId 5, .epeer, [1], 0, 1⟩⟩]
    else if n = 3 then [⟨5, ⟨[1], .matching, filledId 5, .epeer, [1], 0, 2⟩⟩]
    else []
  entryCalls := []

theorem sampleState_loaded : Loaded (sampleConf [9] 1) (sampleConf [7] 2) sampleState where
  connectConf := rfl
  connectNewconf := rfl
  socketsConf := rfl
  socketsNewconf := rfl
  connectSelves := by decide
  socketSelves := by decide
  entrySelves := by decide
  connectCalls := rfl
  socketCalls := rfl
  entryCalls := rfl

/-! ## Reloads -/

section Reloads

variable {conf newconf : Conf} {rejects : Rejects} {s : State}

/-- **A reload** of two parsed configurations without a failure applies the whole difference. -/
theorem diffConfigs_applies (hc : conf.Parsed) (hn : newconf.Parsed)
    (h : Loaded conf newconf s) :
    ∃ n s', (∀ fuel, n ≤ fuel → diffConfigs Rejects.none fuel s = .ok s') ∧ s.AppliedTo s' := by
  have ho := h.ordered hc.wf hn.wf
  have hacc : AcceptsChanges Rejects.none s := fun _ _ _ _ _ _ _ _ _ _ _ => rfl
  have hconnect : ∀ a ∈ s.connectEntries.conf, Rejects.none.newConnectEntry a = false :=
    fun _ _ => rfl
  rcases diffConfigs_runs ho hconnect with ⟨⟨d, hd, hbad⟩, -⟩ | ⟨-, s', hr, hrun⟩
  · exact absurd hbad ((acceptsChanges_iff ho).mp hacc d hd)
  · exact ⟨s.size, s', hrun, hr.appliedTo ho h.separate⟩

theorem diffConfigs_applies_sample :
    ∃ n s', (∀ fuel, n ≤ fuel → diffConfigs Rejects.none fuel sampleState = .ok s') ∧
      sampleState.AppliedTo s' :=
  diffConfigs_applies (sampleConf_parsed [9] (by decide)) (sampleConf_parsed [7] (by decide))
    sampleState_loaded

/-- **When a reload rolls back**: when no changed listen entry is rejected. -/
theorem rollsBack_iff (hc : conf.Parsed) (hn : newconf.Parsed) (h : Loaded conf newconf s)
    (hr : ∀ a ∈ s.connectEntries.conf, rejects.newConnectEntry a = false) :
    RollsBack rejects s ↔ AcceptsChanges rejects s :=
  ⟨accepts_of_rollsBack (h.ordered hc.wf hn.wf) hr,
    rollsBack_of_accepts (h.ordered hc.wf hn.wf) h.separate hr⟩

/-- The new connect entry is rejected. -/
theorem rollsBack_iff_connect :
    RollsBack ⟨fun a => a.self = 1, fun _ => false, fun _ _ => false⟩ sampleState :=
  (rollsBack_iff (sampleConf_parsed [9] (by decide)) (sampleConf_parsed [7] (by decide))
    sampleState_loaded (by decide)).mpr fun _ _ _ _ _ _ _ _ _ _ _ => rfl

/-- The new listen entry is rejected. -/
theorem reload_listenEntry_rejected :
    (sampleConf [9] 1).Parsed ∧ (sampleConf [7] 2).Parsed ∧
    Loaded (sampleConf [9] 1) (sampleConf [7] 2) sampleState ∧
    (∀ c ∈ sampleState.listeningSockets.conf, ∀ e ∈ sampleState.listenEntries c.self,
      decide (e.self = 5) = false) ∧
    ¬ RollsBack ⟨fun _ => false, fun _ => false, fun _ e => e.self = 5⟩ sampleState := by
  have h9 : (sampleConf [9] 1).Parsed := sampleConf_parsed [9] (by decide)
  have h7 : (sampleConf [7] 2).Parsed := sampleConf_parsed [7] (by decide)
  refine ⟨h9, h7, sampleState_loaded, by decide, fun hroll => ?_⟩
  have hacc := accepts_of_rollsBack (sampleState_loaded.ordered h9.wf h7.wf) (fun _ _ => rfl) hroll
  exact absurd (hacc _ List.mem_cons_self _ List.mem_cons_self rfl _ List.mem_cons_self _
    List.mem_cons_self rfl (by decide)) (by decide)

end Reloads

end Dvpn.Reload
