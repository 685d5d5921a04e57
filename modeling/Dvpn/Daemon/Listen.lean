import Dvpn.Conf.Diff

/-!
# Listening sockets of a running daemon (`dvpn.c:665-793`, `dvpn.c:800-863`,
`tconn_listen.c:342-454`)

A started listening socket keeps the entries that it admits in a tree of its own, by fingerprint
with the wildcard first. `Live` are the trees of all started sockets.

* `binds` says for which addresses `socket`, `bind` and `listen` succeed.
* Started entries have `registered` set, and so have started sockets; the sockets of `Live` are
  those that are registered.
* The nodes of a tree are told apart by the names of their entries. A node is deleted from the tree
  that it is in; anything else is a fault.
* The connections of the entries and the connect entries are in `Daemon.Connections`; here a
  connect entry always starts, as `start_conf_connect_entry` returns 0.
* The fingerprint of an entry that admits anything is whatever was on the stack of
  `parse_config_peer`. `TconnListenEntry.view` is the entry without it.

* `diffTree_spec`: what a reload does to the tree of one socket.
* `foldlM_own`: operations that each work on a place of their own.
* `reload_iff`: a reload leaves the trees of a restart iff no key moves to an entry that comes
  before its old entry in the order of the names.
-/

namespace Dvpn

/-! ## The code -/

/-- `struct tconn_listen_entry`, as far as admission reads it. -/
structure TconnListenEntry where
  name : CString
  fpType : ConfFpType
  fingerprint : NodeId

/-- The tree of every started socket. -/
abbrev Live := SockAddr → Option (List TconnListenEntry)

/-- `compare_listen_entries` (`tconn_listen.c:342-360`), where it does not abort. -/
def tconnCompareListenEntries (a b : TconnListenEntry) : Int :=
  if a.fpType = .any then (if b.fpType = .any then 0 else -1)
  else if b.fpType = .any then 1
  else memcmp a.fingerprint.1 b.fingerprint.1 NODE_ID_LEN

/-- `tconn_listen_entry_register` (`tconn_listen.c:431-439`): whether it returns -1. The comparison
of two wildcards aborts. -/
def tconnListenEntryRegister (tree : List TconnListenEntry) (tle : TconnListenEntry) :
    Except Crash (List TconnListenEntry × Bool) :=
  match Avl.insert tconnCompareListenEntries tle tree with
  | some tree => return (tree, false)
  | none => if tle.fpType = .any then throw .compareListenEntries else return (tree, true)

/-- `tconn_listen_entry_unregister` (`tconn_listen.c:441-454`) of the entry `name`. -/
def tconnListenEntryUnregister (tree : List TconnListenEntry) (name : CString) :
    Except Crash (List TconnListenEntry) :=
  if tree.any fun tle => tle.name = name then return tree.eraseP fun tle => tle.name = name
  else throw .ivAvlTreeDelete

/-- What `start_conf_listen_entry` makes of an entry. -/
def ConfListenEntry.tle (cle : ConfListenEntry) : TconnListenEntry :=
  ⟨cle.name, cle.fpType, cle.fingerprint⟩

/-- `start_conf_listen_entry` (`dvpn.c:665-685`) on the tree of the socket. -/
def startListenEntry (tree : List TconnListenEntry) (cle : ConfListenEntry) :
    Except Crash (List TconnListenEntry) := do
  -- nobody looks at whether the registration fails
  let (tree, _) ← tconnListenEntryRegister tree cle.tle
  return tree

/-- `stop_conf_listen_entry` (`dvpn.c:687-702`) on the tree of the socket. -/
def stopListenEntry (tree : List TconnListenEntry) (cle : ConfListenEntry) :
    Except Crash (List TconnListenEntry) := tconnListenEntryUnregister tree cle.name

/-- A function of the tree of a started socket. -/
def onSocket (addr : SockAddr) (f : List TconnListenEntry → Except Crash (List TconnListenEntry))
    (s : Live) : Except Crash Live :=
  match s addr with
  | none => return s
  | some tree => do
    let tree ← f tree
    return Function.update s addr (some tree)

/-- `start_conf_listening_socket` (`dvpn.c:704-726`): whether it returns 1. -/
def startListeningSocket (binds : SockAddr → Bool) (cls : ConfListeningSocket) (s : Live) :
    Except Crash (Live × Bool) := do
  if !binds cls.listenAddress then return (s, true)
  let tree ← cls.listenEntries.foldlM startListenEntry []
  return (Function.update s cls.listenAddress (some tree), false)

/-- `stop_conf_listening_socket` (`dvpn.c:728-743`). -/
def stopListeningSocket (cls : ConfListeningSocket) (s : Live) : Except Crash Live := do
  let s ← onSocket cls.listenAddress (cls.listenEntries.foldlM stopListenEntry) s
  return Function.update s cls.listenAddress none

/-- The loop of `stop_config` over the sockets (`dvpn.c:757-763`). -/
def stopSockets : List ConfListeningSocket → Live → Except Crash Live
  | [], s => return s
  | cls :: l, s => do
    let s ← if (s cls.listenAddress).isSome then stopListeningSocket cls s else pure s
    stopSockets l s

/-- The loop of `start_config` over the sockets (`dvpn.c:778-784`). -/
def startSockets (binds : SockAddr → Bool) :
    List ConfListeningSocket → Live → Except Crash (Live × Bool)
  | [], s => return (s, false)
  | cls :: l, s => do
    let (s, failed) ← startListeningSocket binds cls s
    if failed then return (s, true) else startSockets binds l s

/-- `start_config` (`dvpn.c:766-793`): whether it returns 1. -/
def startConfig (binds : SockAddr → Bool) (conf : Conf) (s : Live) :
    Except Crash (Live × Bool) := do
  let (s, failed) ← startSockets binds conf.listeningSockets s
  if failed then return (← stopSockets conf.listeningSockets s, true) else return (s, false)

/-- The callbacks of `got_sighup` (`dvpn.c:800-863`). -/
def dvpnRequest (binds : SockAddr → Bool) : ConfdiffRequest Live where
  newConnectEntry _ s := return (s, false)
  removedConnectEntry _ s := return s
  newListeningSocket := startListeningSocket binds
  removedListeningSocket := stopListeningSocket
  newListenEntry cls cle s := do
    return (← onSocket cls.listenAddress (startListenEntry · cle) s, false)
  removedListenEntry cls cle s := onSocket cls.listenAddress (stopListenEntry · cle) s

/-! ## The tree of a socket -/

namespace TconnListenEntry

/-- What orders the entries of a socket: the wildcard first, then by fingerprint. -/
def key (tle : TconnListenEntry) : WithBot NodeId :=
  if tle.fpType = .any then ⊥ else (tle.fingerprint : WithBot NodeId)

/-- The entry as it admits peers: without the fingerprint of a wildcard. -/
def view (tle : TconnListenEntry) : CString × ConfFpType × WithBot NodeId :=
  (tle.name, tle.fpType, tle.key)

end TconnListenEntry

section Tree

variable {tree tree' : List TconnListenEntry} {cle a b : ConfListenEntry}
  {l l' : List ConfListenEntry} {V : List (CString × ConfFpType × WithBot NodeId)}

theorem tconnCompareListenEntries_orders :
    Avl.Orders tconnCompareListenEntries TconnListenEntry.key := by
  constructor <;> intro a b <;> unfold tconnCompareListenEntries TconnListenEntry.key <;>
    by_cases ha : a.fpType = .any <;> by_cases hb : b.fpType = .any
  · simp [ha, hb]
  · simp [ha, hb]
  · simp [ha, hb]
  · simp [ha, hb]
  · simp [ha, hb]
  · simp [ha, hb]
  · simp [ha, hb]
  · simp [ha, hb]

/-- An entry with a new key is registered. -/
theorem startListenEntry_new (hs : Avl.Sorted TconnListenEntry.key tree)
    (hn : ∀ t ∈ tree, t.key ≠ cle.tle.key) :
    ∃ tree', startListenEntry tree cle = .ok tree' ∧ Avl.Sorted TconnListenEntry.key tree' ∧
      tree'.Perm (cle.tle :: tree) := by
  obtain ⟨tree', hi⟩ := Avl.exists_insert tconnCompareListenEntries_orders hs hn
  refine ⟨tree', ?_, Avl.sorted_insert tconnCompareListenEntries_orders hs hi, Avl.insert_perm hi⟩
  simp [startListenEntry, tconnListenEntryRegister, hi]

/-- An entry with a key that is there aborts when it is a wildcard, and is lost when not. -/
theorem startListenEntry_dup (hs : Avl.Sorted TconnListenEntry.key tree)
    (hd : ∃ t ∈ tree, t.key = cle.tle.key) :
    startListenEntry tree cle =
      if cle.fpType = .any then .error .compareListenEntries else .ok tree := by
  have hi := (Avl.insert_eq_none tconnCompareListenEntries_orders hs).mpr hd
  have ht : cle.tle.fpType = cle.fpType := rfl
  unfold startListenEntry tconnListenEntryRegister
  rw [hi]
  by_cases h : cle.fpType = .any <;> simp [ht, h]

/-- An entry that is there leaves the others. -/
theorem stopListenEntry_ok (hs : Avl.Sorted TconnListenEntry.key tree)
    (hp : (tree.map TconnListenEntry.view).Perm (a.tle.view :: V)) (hn : ∀ v ∈ V, v.1 ≠ a.name) :
    ∃ tree', stopListenEntry tree a = .ok tree' ∧ Avl.Sorted TconnListenEntry.key tree' ∧
      (tree'.map TconnListenEntry.view).Perm V := by
  obtain ⟨t, ht, hview⟩ := List.mem_map.mp (hp.mem_iff.mpr List.mem_cons_self)
  have hname : t.name = a.name := congrArg Prod.fst hview
  obtain ⟨u, l₁, l₂, -, hu, rfl, herase⟩ :=
    List.exists_of_eraseP (p := fun tle : TconnListenEntry => decide (tle.name = a.name)) ht
      (by simpa using hname)
  have hu : u.name = a.name := by simpa using hu
  have hmid : ((l₁ ++ u :: l₂).map TconnListenEntry.view).Perm
      (u.view :: (l₁ ++ l₂).map TconnListenEntry.view) := List.perm_middle.map _
  have huview : u.view = a.tle.view := by
    rcases List.mem_cons.mp (hp.mem_iff.mp (hmid.mem_iff.mpr List.mem_cons_self)) with h | h
    · exact h
    · exact absurd hu (hn _ h)
  refine ⟨l₁ ++ l₂, ?_, List.Pairwise.sublist ?_ hs, ?_⟩
  · have hany : (l₁ ++ u :: l₂).any (fun tle => decide (tle.name = a.name)) = true :=
      List.any_eq_true.mpr ⟨t, ht, by simpa using hname⟩
    unfold stopListenEntry tconnListenEntryUnregister
    rw [if_pos hany, herase]
    rfl
  · exact (List.Sublist.refl l₁).append (List.sublist_cons_self u l₂)
  · rw [huview] at hmid
    exact (hmid.symm.trans hp).cons_inv

/-- What a difference does to the tree of its socket. -/
def diffTree (tree : List TconnListenEntry) :
    Avl.Diff ConfListenEntry → Except Crash (List TconnListenEntry)
  | .add b => startListenEntry tree b
  | .mod a b => do
    if sameListenEntry a b then return tree
    let tree ← stopListenEntry tree a
    startListenEntry tree b
  | .del a => stopListenEntry tree a

/-- The key of the new entry `b` belongs to an old entry that comes after it. -/
def Clash (l : List ConfListenEntry) (b : ConfListenEntry) : Prop :=
  ∃ a ∈ l, a.tle.key = b.tle.key ∧ b.name < a.name

instance : Decidable (Clash l b) := inferInstanceAs (Decidable (∃ a ∈ l, _))

/-- `run` takes a tree with the old entries `l`, beside the entries `V`, to one with the new entries
`l'`, without those that clash, and aborts when a wildcard clashes. -/
def Reloads (l l' : List ConfListenEntry)
    (run : List TconnListenEntry → Except Crash (List TconnListenEntry)) : Prop :=
  ∀ tree (V : List (CString × ConfFpType × WithBot NodeId)),
    Avl.Sorted TconnListenEntry.key tree →
    (tree.map TconnListenEntry.view).Perm (l.map (fun a => a.tle.view) ++ V) →
    (∀ v ∈ V, ∀ b ∈ l', v.2.2 ≠ b.tle.key) → (∀ v ∈ V, ∀ a ∈ l, v.1 ≠ a.name) →
    ((∃ b ∈ l', b.fpType = .any ∧ Clash l b) → ∃ e, run tree = .error e) ∧
    ((∀ b ∈ l', b.fpType = .any → ¬ Clash l b) → ∃ tree', run tree = .ok tree' ∧
      Avl.Sorted TconnListenEntry.key tree' ∧ (tree'.map TconnListenEntry.view).Perm
        ((l'.filter fun b => ¬ Clash l b).map (fun b => b.tle.view) ++ V))

theorem Reloads.nil : Reloads [] [] (fun tree => .ok tree) :=
  fun tree _ hs hp _ _ => ⟨fun ⟨_, hb, _⟩ => absurd hb List.not_mem_nil,
    fun _ => ⟨tree, rfl, hs, hp⟩⟩

theorem clash_cons (h : ¬ b.name < a.name) : Clash (a :: l) b ↔ Clash l b := by
  unfold Clash
  simp only [List.mem_cons, exists_eq_or_imp, h, and_false, false_or]

/-- An old entry that none of the new ones comes before is stopped first. -/
theorem Reloads.stop {run : List TconnListenEntry → Except Crash (List TconnListenEntry)}
    (h : Reloads l l' run) (hl : ∀ c ∈ l, c.name ≠ a.name) (hl' : ∀ b ∈ l', ¬ b.name < a.name) :
    Reloads (a :: l) l' (fun tree => stopListenEntry tree a >>= run) := by
  intro tree V hs hp hkey hname
  have hrest : ∀ v ∈ l.map (fun a => a.tle.view) ++ V, v.1 ≠ a.name := by
    intro v hv
    rcases List.mem_append.mp hv with hv | hv
    · obtain ⟨c, hc, rfl⟩ := List.mem_map.mp hv
      exact hl c hc
    · exact hname v hv a List.mem_cons_self
  obtain ⟨tree₁, hstop, hs₁, hp₁⟩ := stopListenEntry_ok hs hp hrest
  obtain ⟨hbad, hgood⟩ := h tree₁ V hs₁ hp₁ hkey
    fun v hv c hc => hname v hv c (List.mem_cons_of_mem a hc)
  have hfilter : (l'.filter fun b => ¬ Clash (a :: l) b) = l'.filter fun b => ¬ Clash l b :=
    List.filter_congr fun b hb => decide_eq_decide.mpr (not_congr (clash_cons (hl' b hb)))
  simp only [hstop, ok_bind, hfilter]
  refine ⟨fun ⟨b, hb, ht, hc⟩ => hbad ⟨b, hb, ht, (clash_cons (hl' b hb)).mp hc⟩, fun hn => ?_⟩
  exact hgood fun b hb ht hc => hn b hb ht ((clash_cons (hl' b hb)).mpr hc)

/-- A new entry that comes before all old ones is started first. -/
theorem Reloads.start {run : List TconnListenEntry → Except Crash (List TconnListenEntry)}
    (h : Reloads l l' run) (hl : ∀ a ∈ l, b.name < a.name)
    (hl' : ∀ c ∈ l', b.tle.key ≠ c.tle.key) :
    Reloads l (b :: l') (fun tree => startListenEntry tree b >>= run) := by
  intro tree V hs hp hkey hname
  have hkeys : (tree.map TconnListenEntry.key).Perm
      (l.map (fun a => a.tle.key) ++ V.map fun v => v.2.2) := by
    have hmap := hp.map fun v => v.2.2
    rw [List.map_append, List.map_map, List.map_map] at hmap
    exact hmap
  have hclash : Clash l b ↔ ∃ t ∈ tree, t.key = b.tle.key := by
    have hmem : (∃ t ∈ tree, t.key = b.tle.key) ↔ b.tle.key ∈ tree.map TconnListenEntry.key :=
      List.mem_map.symm
    rw [hmem, hkeys.mem_iff, List.mem_append, List.mem_map, List.mem_map]
    constructor
    · rintro ⟨a, ha, hk, -⟩
      exact Or.inl ⟨a, ha, hk⟩
    · rintro (⟨a, ha, hk⟩ | ⟨v, hv, hk⟩)
      · exact ⟨a, ha, hk, hl a ha⟩
      · exact absurd hk (hkey v hv b List.mem_cons_self)
  by_cases hc : Clash l b
  · have hdup := startListenEntry_dup hs (hclash.mp hc)
    rw [List.filter_cons_of_neg (by simpa using hc)]
    by_cases hany : b.fpType = .any
    · rw [if_pos hany] at hdup
      simp only [hdup]
      exact ⟨fun _ => ⟨_, rfl⟩, fun hn => absurd hc (hn b List.mem_cons_self hany)⟩
    · rw [if_neg hany] at hdup
      simp only [hdup, ok_bind]
      obtain ⟨hbad, hgood⟩ := h tree V hs hp
        (fun v hv c hc => hkey v hv c (List.mem_cons_of_mem b hc)) hname
      refine ⟨?_, fun hn => hgood fun c hc => hn c (List.mem_cons_of_mem b hc)⟩
      rintro ⟨c, hcm, ht, hcc⟩
      rcases List.mem_cons.mp hcm with rfl | hcm
      · exact absurd ht hany
      · exact hbad ⟨c, hcm, ht, hcc⟩
  · obtain ⟨tree₁, hstart, hs₁, hp₁⟩ := startListenEntry_new hs
      fun t ht e => hc (hclash.mpr ⟨t, ht, e⟩)
    have hmid : ∀ m : List ConfListenEntry,
        (m.map (fun a => a.tle.view) ++ b.tle.view :: V).Perm
          (b.tle.view :: (m.map (fun a => a.tle.view) ++ V)) := fun _ => List.perm_middle
    obtain ⟨hbad, hgood⟩ := h tree₁ (b.tle.view :: V) hs₁
      ((hp₁.map TconnListenEntry.view).trans ((hp.cons _).trans (hmid l).symm))
      (fun v hv c hcm => by
        rcases List.mem_cons.mp hv with rfl | hv
        · exact hl' c hcm
        · exact hkey v hv c (List.mem_cons_of_mem b hcm))
      (fun v hv a ha => by
        rcases List.mem_cons.mp hv with rfl | hv
        · exact ne_of_lt (hl a ha)
        · exact hname v hv a ha)
    rw [List.filter_cons_of_pos (by simpa using hc)]
    simp only [hstart, ok_bind]
    constructor
    · rintro ⟨c, hcm, ht, hcc⟩
      rcases List.mem_cons.mp hcm with rfl | hcm
      · exact absurd hcc hc
      · exact hbad ⟨c, hcm, ht, hcc⟩
    · intro hn
      obtain ⟨tree', hrun, hs', hp'⟩ := hgood fun c hcm => hn c (List.mem_cons_of_mem b hcm)
      exact ⟨tree', hrun, hs', hp'.trans (hmid _)⟩

/-- An entry that stays is left where it is. -/
theorem Reloads.keep {run : List TconnListenEntry → Except Crash (List TconnListenEntry)}
    (h : Reloads l l' run) (hview : a.tle.view = b.tle.view) (hl : ∀ c ∈ l, a.name ≠ c.name)
    (hl' : ∀ c ∈ l', b.tle.key ≠ c.tle.key) (hafter : ∀ c ∈ l', ¬ c.name < a.name) :
    Reloads (a :: l) (b :: l') run := by
  intro tree V hs hp hkey hname
  have hname' : a.name = b.name := congrArg Prod.fst hview
  have hkey' : a.tle.key = b.tle.key := congrArg (fun v => v.2.2) hview
  have hmid : ∀ m : List ConfListenEntry, (m.map (fun a => a.tle.view) ++ a.tle.view :: V).Perm
      (a.tle.view :: (m.map (fun a => a.tle.view) ++ V)) := fun _ => List.perm_middle
  have hnodup : (tree.map TconnListenEntry.key).Nodup :=
    List.pairwise_map.mpr (hs.imp fun hlt => ne_of_lt hlt)
  have hkeys : (tree.map TconnListenEntry.key).Perm
      (a.tle.key :: (l.map (fun a => a.tle.key) ++ V.map fun v => v.2.2)) := by
    have hmap := hp.map fun v => v.2.2
    rw [List.map_append, List.map_map, List.map_map] at hmap
    exact hmap
  have hb : ¬ Clash (a :: l) b := by
    rw [clash_cons (by rw [hname']; exact lt_irrefl _)]
    rintro ⟨c, hc, hk, -⟩
    refine (List.nodup_cons.mp (hkeys.nodup_iff.mp hnodup)).1 ?_
    rw [hkey', ← hk]
    exact List.mem_append_left _ (List.mem_map_of_mem (f := fun a => a.tle.key) hc)
  have hfilter : (l'.filter fun c => ¬ Clash (a :: l) c) = l'.filter fun c => ¬ Clash l c :=
    List.filter_congr fun c hc => decide_eq_decide.mpr (not_congr (clash_cons (hafter c hc)))
  obtain ⟨hbad, hgood⟩ := h tree (a.tle.view :: V) hs (hp.trans (hmid l).symm)
    (fun v hv c hcm => by
      rcases List.mem_cons.mp hv with rfl | hv
      · exact fun e => hl' c hcm (hkey'.symm.trans e)
      · exact hkey v hv c (List.mem_cons_of_mem b hcm))
    (fun v hv c hcm => by
      rcases List.mem_cons.mp hv with rfl | hv
      · exact hl c hcm
      · exact hname v hv c (List.mem_cons_of_mem a hcm))
  rw [List.filter_cons_of_pos (by simpa using hb), hfilter, List.map_cons, ← hview]
  constructor
  · rintro ⟨c, hcm, ht, hcc⟩
    rcases List.mem_cons.mp hcm with rfl | hcm
    · exact absurd hcc hb
    · exact hbad ⟨c, hcm, ht, (clash_cons (hafter c hcm)).mp hcc⟩
  · intro hn
    obtain ⟨tree', hrun, hs', hp'⟩ := hgood fun c hcm ht hcc =>
      hn c (List.mem_cons_of_mem b hcm) ht ((clash_cons (hafter c hcm)).mpr hcc)
    exact ⟨tree', hrun, hs', hp'.trans (hmid _)⟩

/-- No two entries have one key. -/
def DistinctKeys (l : List ConfListenEntry) : Prop :=
  l.Pairwise fun a b => a.tle.key ≠ b.tle.key

/-- An entry that `cle_mod` finds unchanged is the same entry. -/
theorem view_of_same (hname : a.name = b.name) (ht : a.fpType ≠ .cname)
    (h : sameListenEntry a b = true) : a.tle.view = b.tle.view := by
  obtain ⟨htype, hfp, -⟩ := of_decide_eq_true h
  have hkey : a.tle.key = b.tle.key := by
    unfold TconnListenEntry.key ConfListenEntry.tle
    simp only [← htype]
    cases hfa : a.fpType with
    | any => rfl
    | cname => exact absurd hfa ht
    | matching =>
      have hfp' : a.fingerprint = b.fingerprint := hfp.resolve_left (by simp [hfa])
      simp [hfp']
  have htv : a.tle.fpType = b.tle.fpType := htype
  have hnv : a.tle.name = b.tle.name := hname
  unfold TconnListenEntry.view
  rw [hkey, htv, hnv]

/-- **What a reload does to the tree of one socket.** -/
theorem diffTree_spec (hs : Avl.Sorted ConfListenEntry.name l)
    (hs' : Avl.Sorted ConfListenEntry.name l') (ht : ∀ a ∈ l, a.fpType ≠ .cname)
    (hd : DistinctKeys l') :
    Reloads l l' (fun tree => (Avl.diff compareListenEntries l l').foldlM diffTree tree) := by
  refine Avl.diff_induction (motive := fun l l' => (∀ a ∈ l, a.fpType ≠ .cname) → DistinctKeys l' →
    Reloads l l' fun tree => (Avl.diff compareListenEntries l l').foldlM diffTree tree)
    compareListenEntries_orders ?_ ?_ ?_ ?_ hs hs' ht hd
  · exact fun _ _ => Reloads.nil
  · intro a l l' hl hl' hdiff ih ht hd
    have hrest := ih (fun c hc => ht c (List.mem_cons_of_mem a hc)) hd
    simp only [hdiff, List.foldlM_cons]
    exact hrest.stop (fun c hc => ne_of_gt (hl c hc)) fun b hb => lt_asymm (hl' b hb)
  · intro b l l' hl hl' hdiff ih ht hd
    obtain ⟨hb, hd⟩ := List.pairwise_cons.mp hd
    simp only [hdiff, List.foldlM_cons]
    exact (ih ht hd).start hl hb
  · intro a b l l' hab hl hl' hdiff ih ht hd
    obtain ⟨hb, hd⟩ := List.pairwise_cons.mp hd
    have hrest := ih (fun c hc => ht c (List.mem_cons_of_mem a hc)) hd
    have hafter : ∀ c ∈ l', ¬ c.name < a.name := fun c hc => lt_asymm (hab ▸ hl' c hc)
    simp only [hdiff, List.foldlM_cons]
    by_cases hsame : sameListenEntry a b = true
    · simp only [diffTree, hsame, if_true, pure_bind]
      exact hrest.keep (view_of_same hab (ht a List.mem_cons_self) hsame)
        (fun c hc => ne_of_lt (hl c hc)) hb hafter
    · simp only [diffTree, hsame, if_false, Bool.false_eq_true, bind_assoc]
      refine Reloads.stop (hrest.start (fun c hc => hab ▸ hl c hc) hb)
        (fun c hc => ne_of_gt (hl c hc)) fun c hc => ?_
      rcases List.mem_cons.mp hc with rfl | hc
      · rw [hab]
        exact lt_irrefl _
      · exact hafter c hc

/-- A socket that is started has the entries that it is configured with. -/
theorem startListenEntries_spec (hs : Avl.Sorted ConfListenEntry.name l) (hd : DistinctKeys l) :
    ∃ tree, l.foldlM startListenEntry [] = .ok tree ∧ Avl.Sorted TconnListenEntry.key tree ∧
      (tree.map TconnListenEntry.view).Perm (l.map fun a => a.tle.view) := by
  have hnone : ∀ b : ConfListenEntry, ¬ Clash [] b := fun _ ⟨_, ha, _⟩ => absurd ha List.not_mem_nil
  have h := diffTree_spec (l := []) Avl.sorted_nil hs (fun _ ha => absurd ha List.not_mem_nil) hd
  obtain ⟨tree, hrun, hst, hp⟩ := (h [] [] Avl.sorted_nil List.Perm.nil
    (fun _ hv => absurd hv List.not_mem_nil) (fun _ hv => absurd hv List.not_mem_nil)).2
    fun b _ _ => hnone b
  have hadd : Avl.diff compareListenEntries [] l = l.map .add := rfl
  refine ⟨tree, ?_, hst, ?_⟩
  · rw [← hrun]
    simp only [hadd, List.foldlM_map, diffTree]
  · simpa [hnone] using hp

end Tree

/-! ## The trees of all sockets -/

section Sockets

variable {β ο : Type} {f : (SockAddr → β) → ο → Except Crash (SockAddr → β)} {place : ο → SockAddr}
  {own : β → ο → Except Crash β} {ops : List ο} {s s' : SockAddr → β}

/-- **Operations on places of their own.** Each finds its place as it was at the start. -/
theorem foldlM_own (hf : ∀ s o, f s o = (own (s (place o)) o).map (Function.update s (place o)))
    (hp : ops.Pairwise fun o o' => place o ≠ place o') :
    ops.foldlM f s = .ok s' ↔ (∀ o ∈ ops, own (s (place o)) o = .ok (s' (place o))) ∧
      ∀ addr, (∀ o ∈ ops, place o ≠ addr) → s' addr = s addr := by
  induction ops generalizing s with
  | nil =>
    refine ⟨fun h => ?_, fun ⟨_, h⟩ => congrArg Except.ok (funext fun addr => ?_)⟩
    · obtain rfl := Except.ok.inj h
      exact ⟨fun _ ho => absurd ho List.not_mem_nil, fun _ _ => rfl⟩
    · exact (h addr fun _ ho => absurd ho List.not_mem_nil).symm
  | cons o ops ih =>
    obtain ⟨hne, hp⟩ := List.pairwise_cons.mp hp
    rw [List.foldlM_cons, hf]
    cases hown : own (s (place o)) o with
    | error e =>
      constructor
      · intro h
        cases h
      · rintro ⟨h, -⟩
        cases hown.symm.trans (h o List.mem_cons_self)
    | ok v =>
      have hself : Function.update s (place o) v (place o) = v := Function.update_self ..
      have hother : ∀ addr, place o ≠ addr → Function.update s (place o) v addr = s addr :=
        fun addr h => Function.update_of_ne h.symm v s
      have hih := ih (s := Function.update s (place o) v) hp
      have hrest : (∀ o' ∈ ops, own (Function.update s (place o) v (place o')) o' =
          .ok (s' (place o'))) ↔ ∀ o' ∈ ops, own (s (place o')) o' = .ok (s' (place o')) :=
        forall₂_congr fun o' ho' => by rw [hother _ (hne o' ho')]
      refine hih.trans ?_
      rw [hrest]
      constructor
      · rintro ⟨h, hkeep⟩
        have hv := hkeep (place o) fun o' ho' => (hne o' ho').symm
        rw [hself] at hv
        refine ⟨List.forall_mem_cons.mpr ⟨by rw [hown, hv], h⟩, fun addr ha => ?_⟩
        obtain ⟨ho, ha⟩ := List.forall_mem_cons.mp ha
        rw [hkeep addr ha, hother addr ho]
      · rintro ⟨h, hkeep⟩
        obtain ⟨ho, h⟩ := List.forall_mem_cons.mp h
        refine ⟨h, fun addr ha => ?_⟩
        by_cases haddr : place o = addr
        · subst haddr
          rw [hself]
          exact (Except.ok.inj (hown.symm.trans ho)).symm
        · rw [hother addr haddr]
          exact hkeep addr (List.forall_mem_cons.mpr ⟨haddr, ha⟩)

variable (place own s) in
theorem exists_foldlM_own
    (hf : ∀ s o, f s o = (own (s (place o)) o).map (Function.update s (place o)))
    (hp : ops.Pairwise fun o o' => place o ≠ place o')
    (hok : ∀ o ∈ ops, ∃ v, own (s (place o)) o = .ok v) : ∃ s', ops.foldlM f s = .ok s' := by
  induction ops generalizing s with
  | nil => exact ⟨s, rfl⟩
  | cons o ops ih =>
    obtain ⟨hne, hp⟩ := List.pairwise_cons.mp hp
    obtain ⟨⟨v, hv⟩, hok⟩ := List.forall_mem_cons.mp hok
    rw [List.foldlM_cons, hf, hv]
    refine ih _ hp fun o' ho' => ?_
    obtain ⟨v', hv'⟩ := hok o' ho'
    exact ⟨v', by rw [Function.update_of_ne (hne o' ho').symm, hv']⟩

end Sockets

section Reload

variable {binds : SockAddr → Bool} {conf conf' : Conf} {cls a b : ConfListeningSocket}
  {l : List ConfListenEntry} {tree : List TconnListenEntry} {s : Live}

/-- A tree with the entries that a socket is configured with. -/
def Holds (tree : List TconnListenEntry) (l : List ConfListenEntry) : Prop :=
  Avl.Sorted TconnListenEntry.key tree ∧
    (tree.map TconnListenEntry.view).Perm (l.map fun e => e.tle.view)

/-- The entries that are admitted at an address. -/
def Live.admits (s : Live) (addr : SockAddr) :
    Option (List (CString × ConfFpType × WithBot NodeId)) :=
  (s addr).map (List.map TconnListenEntry.view)

/-- A daemon in which no socket is started. -/
def Live.fresh : Live := fun _ => none

/-- No two entries of one socket match the same fingerprint. -/
def Conf.Distinct (conf : Conf) : Prop :=
  ∀ cls ∈ conf.listeningSockets, ∀ e ∈ cls.listenEntries, ∀ e' ∈ cls.listenEntries,
    e.fpType = .matching → e'.fpType = .matching → e.fingerprint = e'.fingerprint → e = e'

theorem Conf.Distinct.keys (hd : conf.Distinct) (hw : conf.Wf) (hc : cls ∈ conf.listeningSockets) :
    DistinctKeys cls.listenEntries := by
  have hcls := hw.entries cls hc
  refine hcls.sorted.nodup.imp_of_mem fun {e e'} he he' hne hkey => hne ?_
  unfold TconnListenEntry.key ConfListenEntry.tle at hkey
  simp only at hkey
  split_ifs at hkey with ha ha' ha'
  · exact hcls.wildcard e he e' he' ha ha'
  · exact absurd hkey.symm WithBot.coe_ne_bot
  · exact absurd hkey WithBot.coe_ne_bot
  · have hm : ∀ c ∈ cls.listenEntries, c.fpType ≠ .any → c.fpType = .matching := by
      intro c hc hca
      cases ht : c.fpType with
      | any => exact absurd ht hca
      | cname => exact absurd ht (hcls.types c hc)
      | matching => rfl
    exact hd cls hc e he e' he' (hm e he ha) (hm e' he' ha') (WithBot.coe_inj.mp hkey)

theorem onSocket_eq (addr : SockAddr)
    (f : List TconnListenEntry → Except Crash (List TconnListenEntry)) (s : Live) :
    onSocket addr f s = ((s addr).mapM f).map (Function.update s addr) := by
  unfold onSocket
  cases hs : s addr with
  | none =>
    have hsame : Function.update s addr none = s := by rw [← hs, Function.update_eq_self]
    exact congrArg Except.ok hsame.symm
  | some tree =>
    cases hf : f tree with
    | error e => simp [hf, Except.map]
    | ok tree' => simp [hf, Except.map]

/-- What starting a socket makes of its place. -/
def startAt (_ : Option (List TconnListenEntry)) (cls : ConfListeningSocket) :
    Except Crash (Option (List TconnListenEntry)) :=
  (cls.listenEntries.foldlM startListenEntry []).map some

theorem startListeningSocket_eq (hb : binds cls.listenAddress = true) (s : Live) :
    startListeningSocket binds cls s =
      ((startAt (s cls.listenAddress) cls).map (Function.update s cls.listenAddress)).map
        (·, false) := by
  unfold startListeningSocket startAt
  rw [hb]
  cases hf : cls.listenEntries.foldlM startListenEntry [] with
  | error e => rfl
  | ok tree => rfl

theorem startSockets_eq (hb : ∀ addr, binds addr = true) (l : List ConfListeningSocket) (s : Live) :
    startSockets binds l s = (l.foldlM (fun s cls =>
      (startAt (s cls.listenAddress) cls).map (Function.update s cls.listenAddress)) s).map
        (·, false) := by
  induction l generalizing s with
  | nil => rfl
  | cons cls l ih =>
    rw [startSockets, startListeningSocket_eq (hb _), List.foldlM_cons]
    cases (startAt (s cls.listenAddress) cls).map (Function.update s cls.listenAddress) with
    | error e => rfl
    | ok s' => exact ih s'

theorem sockets_apart (hw : conf.Wf) : conf.listeningSockets.Pairwise fun a b =>
    a.listenAddress ≠ b.listenAddress :=
  hw.sockets.imp fun hlt e => ne_of_lt hlt (congrArg SockAddr.place e)

/-- The trees of a configuration, at the addresses of its sockets and nowhere else. -/
structure Listens (conf : Conf) (s : Live) : Prop where
  live : ∀ cls ∈ conf.listeningSockets, ∃ tree, s cls.listenAddress = some tree ∧
    Holds tree cls.listenEntries
  dead : ∀ addr, (∀ cls ∈ conf.listeningSockets, cls.listenAddress ≠ addr) → s addr = none

/-- **A daemon that starts** has the trees of its configuration, at the addresses of its sockets and
nowhere else. -/
theorem startConfig_spec (hb : ∀ addr, binds addr = true) (hw : conf.Wf) (hd : conf.Distinct) :
    ∃ s, startConfig binds conf Live.fresh = .ok (s, false) ∧ Listens conf s := by
  have hstart : ∀ cls ∈ conf.listeningSockets, ∃ tree,
      (∀ o, startAt o cls = .ok (some tree)) ∧ Holds tree cls.listenEntries := by
    intro cls hc
    obtain ⟨tree, hrun, hst, hp⟩ :=
      startListenEntries_spec (hw.entries cls hc).sorted (hd.keys hw hc)
    exact ⟨tree, fun _ => congrArg (Except.map some) hrun, hst, hp⟩
  obtain ⟨s, hs⟩ := exists_foldlM_own ConfListeningSocket.listenAddress startAt Live.fresh
    (fun _ _ => rfl) (sockets_apart hw)
    fun cls hc => Exists.elim (hstart cls hc) fun tree h => ⟨some tree, h.1 _⟩
  obtain ⟨hown, hkeep⟩ := (foldlM_own (fun _ _ => rfl) (sockets_apart hw)).mp hs
  refine ⟨s, ?_, fun cls hc => ?_, hkeep⟩
  · unfold startConfig
    rw [startSockets_eq hb, hs]
    rfl
  · obtain ⟨tree, hrun, hh⟩ := hstart cls hc
    exact ⟨tree, (Except.ok.inj ((hrun _).symm.trans (hown cls hc))).symm, hh⟩

/-- The address of a difference. -/
def socketOf : Avl.Diff ConfListeningSocket → SockAddr
  | .add b => b.listenAddress
  | .mod a _ => a.listenAddress
  | .del a => a.listenAddress

/-- What a difference makes of its place. -/
def reloadAt (o : Option (List TconnListenEntry)) :
    Avl.Diff ConfListeningSocket → Except Crash (Option (List TconnListenEntry))
  | .add b => startAt o b
  | .mod a b => o.mapM ((Avl.diff compareListenEntries a.listenEntries b.listenEntries).foldlM
      diffTree ·)
  | .del a => (o.mapM (a.listenEntries.foldlM stopListenEntry ·)).map fun _ => none

theorem onSocket_bind (addr : SockAddr)
    (f g : List TconnListenEntry → Except Crash (List TconnListenEntry)) (s : Live) :
    onSocket addr f s >>= onSocket addr g = onSocket addr (fun tree => f tree >>= g) s := by
  unfold onSocket
  cases hs : s addr with
  | none => simp [hs]
  | some tree =>
    cases hf : f tree with
    | error e => simp [hf]
    | ok tree' => simp [hf]

theorem foldlM_onSocket {ο : Type} {addr : SockAddr}
    {f : List TconnListenEntry → ο → Except Crash (List TconnListenEntry)} (ops : List ο)
    (s : Live) : ops.foldlM (fun s o => onSocket addr (f · o) s) s =
      onSocket addr (ops.foldlM f ·) s := by
  induction ops generalizing s with
  | nil =>
    cases hs : s addr with
    | none => simp [onSocket, hs]
    | some tree => simp [onSocket, hs]
  | cons o ops ih =>
    simp only [List.foldlM_cons, ih, onSocket_bind]

/-- A difference of listen entries works on the tree of its socket. -/
theorem cleDiff_state (st : DiffState ConfListeningSocket Live) (o : Avl.Diff ConfListenEntry) :
    (cleDiff (dvpnRequest binds) st o).map DiffState.state =
      onSocket st.conf.listenAddress (diffTree · o) st.state := by
  cases o with
  | add b =>
    simp only [cleDiff, dvpnRequest, ConfListeningSocket.withEntries, diffTree]
    cases hf : onSocket st.conf.listenAddress (startListenEntry · b) st.state with
    | error e => rfl
    | ok s => rfl
  | del a =>
    simp only [cleDiff, dvpnRequest, ConfListeningSocket.withEntries, diffTree]
    cases hf : onSocket st.conf.listenAddress (stopListenEntry · a) st.state with
    | error e => rfl
    | ok s => rfl
  | mod a b =>
    by_cases hsame : sameListenEntry a b = true
    · have hnop : onSocket st.conf.listenAddress (fun tree => .ok tree) st.state =
          .ok st.state := by
        cases hs : st.state st.conf.listenAddress with
        | none => simp [onSocket, hs]
        | some tree => simp [onSocket, hs]
      simp only [cleDiff, diffTree, hsame, if_true]
      exact hnop.symm
    · simp only [cleDiff, dvpnRequest, ConfListeningSocket.withEntries, diffTree, hsame,
        Bool.false_eq_true, if_false, ← onSocket_bind]
      cases hf : onSocket st.conf.listenAddress (stopListenEntry · a) st.state with
      | error e => rfl
      | ok s =>
        simp only [ok_bind]
        cases hg : onSocket st.conf.listenAddress (startListenEntry · b) s with
        | error e => rfl
        | ok s' => rfl

/-- The old socket keeps its address. -/
theorem cleDiff_address {req : ConfdiffRequest Live} {st st' : DiffState ConfListeningSocket Live}
    {o : Avl.Diff ConfListenEntry} (h : cleDiff req st o = .ok st') :
    st'.conf.listenAddress = st.conf.listenAddress := by
  cases o with
  | add b =>
    obtain ⟨⟨s, failed⟩, -, h⟩ := bind_eq_ok.mp h
    cases failed <;> · obtain rfl := Except.ok.inj h; rfl
  | del a =>
    obtain ⟨s, -, h⟩ := bind_eq_ok.mp h
    obtain rfl := Except.ok.inj h
    rfl
  | mod a b =>
    simp only [cleDiff] at h
    by_cases hsame : sameListenEntry a b = true
    · rw [if_pos hsame] at h
      obtain rfl := Except.ok.inj h
      rfl
    · rw [if_neg hsame] at h
      obtain ⟨s, -, h⟩ := bind_eq_ok.mp h
      obtain ⟨⟨s', failed⟩, -, h⟩ := bind_eq_ok.mp h
      cases failed with
      | true => cases h
      | false =>
        obtain rfl := Except.ok.inj h
        rfl

/-- A difference of sockets works on the place of its socket. -/
theorem clsDiff_state (hb : ∀ addr, binds addr = true)
    (st : DiffState (List ConfListeningSocket) Live) (o : Avl.Diff ConfListeningSocket) :
    (clsDiff (dvpnRequest binds) st o).map DiffState.state =
      (reloadAt (st.state (socketOf o)) o).map (Function.update st.state (socketOf o)) := by
  cases o with
  | add b =>
    have hstart := startListeningSocket_eq (hb b.listenAddress) st.state
    simp only [clsDiff, dvpnRequest, reloadAt, socketOf, hstart]
    cases startAt (st.state b.listenAddress) b with
    | error e => rfl
    | ok tree => rfl
  | mod a b =>
    have hops := foldlM_state (f := cleDiff (dvpnRequest binds))
      (g := fun s o => onSocket a.listenAddress (diffTree · o) s)
      (fun st => st.conf.listenAddress = a.listenAddress)
      (fun st o h => h ▸ cleDiff_state st o) (fun st o st' h hst => (cleDiff_address hst).trans h)
      (Avl.diff compareListenEntries a.listenEntries b.listenEntries) ⟨a, b, st.state⟩ rfl
    have hops := hops.trans ((foldlM_onSocket _ _).trans (onSocket_eq _ _ _))
    simp only [clsDiff, reloadAt, socketOf]
    rw [← hops]
    unfold clsMod
    cases (Avl.diff compareListenEntries a.listenEntries b.listenEntries).foldlM
        (cleDiff (dvpnRequest binds)) ⟨a, b, st.state⟩ with
    | error e => rfl
    | ok r => rfl
  | del a =>
    simp only [clsDiff, dvpnRequest, reloadAt, socketOf, stopListeningSocket, onSocket_eq]
    cases (st.state a.listenAddress).mapM (a.listenEntries.foldlM stopListenEntry ·) with
    | error e => rfl
    | ok tree => exact congrArg Except.ok (Function.update_idem ..)

variable (conf conf') in
/-- A reload leaves the sockets where the differences leave their places. -/
theorem diffConfigs_state (hb : ∀ addr, binds addr = true) (s : Live) :
    (diffConfigs (dvpnRequest binds) conf conf' s).map DiffState.state =
      (Avl.diff compareListeningSockets conf.listeningSockets conf'.listeningSockets).foldlM
        (fun s o => (reloadAt (s (socketOf o)) o).map (Function.update s (socketOf o))) s := by
  have hconnect := foldlM_state (f := cceDiff (dvpnRequest binds)) (g := fun s _ => .ok s)
    (fun _ => True) (fun st o _ => by cases o with
      | add a => rfl
      | del a => rfl
      | mod a b =>
        simp only [cceDiff]
        by_cases hsame : sameConnectEntry a b = true
        · rw [if_pos hsame]
          rfl
        · rw [if_neg hsame]
          rfl)
    (fun _ _ _ _ _ => trivial)
    (Avl.diff compareConnectEntries conf.connectEntries conf'.connectEntries)
    ⟨conf.connectEntries, conf'.connectEntries, s⟩ trivial
  have hsame : ∀ ops : List (Avl.Diff ConfConnectEntry),
      ops.foldlM (fun (s : Live) _ => (.ok s : Except Crash Live)) s = .ok s := by
    intro ops
    induction ops with
    | nil => rfl
    | cons o ops ih => exact ih
  rw [hsame] at hconnect
  unfold diffConfigs
  generalize (Avl.diff compareConnectEntries conf.connectEntries conf'.connectEntries).foldlM
    (cceDiff (dvpnRequest binds)) ⟨conf.connectEntries, conf'.connectEntries, s⟩ = r at hconnect
  cases r with
  | error e => cases hconnect
  | ok r =>
    have hr : r.state = s := Except.ok.inj hconnect
    have hsockets := foldlM_state (f := clsDiff (dvpnRequest binds))
      (g := fun s o => (reloadAt (s (socketOf o)) o).map (Function.update s (socketOf o)))
      (fun _ => True)
      (fun st o _ => clsDiff_state hb st o) (fun _ _ _ _ _ => trivial)
      (Avl.diff compareListeningSockets conf.listeningSockets conf'.listeningSockets)
      ⟨conf.listeningSockets, conf'.listeningSockets, r.state⟩ trivial
    rw [hr] at hsockets
    rw [← hsockets, ok_bind, hr]
    cases (Avl.diff compareListeningSockets conf.listeningSockets conf'.listeningSockets).foldlM
        (clsDiff (dvpnRequest binds)) ⟨conf.listeningSockets, conf'.listeningSockets, s⟩ with
    | error e => rfl
    | ok r' => rfl

/-- After a reload from `conf` to `conf'` a daemon admits what a daemon admits that starts with
`conf'`, and nothing has aborted. -/
def ReloadsAsRestart (binds : SockAddr → Bool) (conf conf' : Conf) : Prop :=
  ∃ s r s', startConfig binds conf Live.fresh = .ok (s, false) ∧
    diffConfigs (dvpnRequest binds) conf conf' s = .ok r ∧
    startConfig binds conf' Live.fresh = .ok (s', false) ∧
    ∀ addr, r.state.admits addr = s'.admits addr

/-- No key of a socket moves to an entry that comes before the one that had it, in the order of the
names. -/
def KeysStay (conf conf' : Conf) : Prop :=
  ∀ a ∈ conf.listeningSockets, ∀ b ∈ conf'.listeningSockets, a.listenAddress = b.listenAddress →
    ∀ e ∈ a.listenEntries, ∀ e' ∈ b.listenEntries, e.tle.key = e'.tle.key → ¬ e'.name < e.name

theorem mem_diffSockets (hw : conf.Wf) (hw' : conf'.Wf) {o : Avl.Diff ConfListeningSocket} :
    o ∈ Avl.diff compareListeningSockets conf.listeningSockets conf'.listeningSockets ↔
      o.Of (fun cls => cls.listenAddress.place) conf.listeningSockets conf'.listeningSockets :=
  Avl.mem_diff compareListeningSockets_orders hw.sockets hw'.sockets

theorem place_socketOf (o : Avl.Diff ConfListeningSocket) :
    o.place (fun cls => cls.listenAddress.place) = (socketOf o).place := by
  cases o <;> rfl

theorem diffSockets_apart (hw : conf.Wf) (hw' : conf'.Wf) :
    (Avl.diff compareListeningSockets conf.listeningSockets conf'.listeningSockets).Pairwise
      fun o o' => socketOf o ≠ socketOf o' := by
  refine (Avl.sorted_diff compareListeningSockets_orders hw.sockets hw'.sockets).imp ?_
  intro o o' hlt e
  rw [place_socketOf, place_socketOf, e] at hlt
  exact lt_irrefl _ hlt

/-- A tree in order is known by what it admits. -/
theorem view_eq_of_perm {tree' : List TconnListenEntry}
    (hs : Avl.Sorted TconnListenEntry.key tree) (hs' : Avl.Sorted TconnListenEntry.key tree')
    (hp : (tree.map TconnListenEntry.view).Perm (tree'.map TconnListenEntry.view)) :
    tree.map TconnListenEntry.view = tree'.map TconnListenEntry.view := by
  have hview : ∀ {tree}, Avl.Sorted TconnListenEntry.key tree →
      Avl.Sorted (fun v : CString × ConfFpType × WithBot NodeId => v.2.2)
        (tree.map TconnListenEntry.view) := fun h => List.pairwise_map.mpr h
  exact Avl.eq_of_perm (hview hs) (hview hs') hp

/-- **One socket that stays.** Its tree afterwards admits what the new entries say iff no key
moves. -/
theorem reload_socket (ha : a.Wf) (hb : b.Wf) (hd : DistinctKeys b.listenEntries)
    (hh : Holds tree a.listenEntries) :
    (∃ tree', (Avl.diff compareListenEntries a.listenEntries b.listenEntries).foldlM diffTree tree =
      .ok tree' ∧ Holds tree' b.listenEntries) ↔
    ∀ e ∈ a.listenEntries, ∀ e' ∈ b.listenEntries, e.tle.key = e'.tle.key → ¬ e'.name < e.name := by
  have hclash : (∀ e ∈ a.listenEntries, ∀ e' ∈ b.listenEntries, e.tle.key = e'.tle.key →
      ¬ e'.name < e.name) ↔ ∀ e' ∈ b.listenEntries, ¬ Clash a.listenEntries e' :=
    ⟨fun h e' he' ⟨e, he, hk, hlt⟩ => h e he e' he' hk hlt,
      fun h e he e' he' hk hlt => h e' he' ⟨e, he, hk, hlt⟩⟩
  rw [hclash]
  obtain ⟨hbad, hgood⟩ := diffTree_spec ha.sorted hb.sorted ha.types hd tree [] hh.1
    (by simpa using hh.2) (fun _ hv => absurd hv List.not_mem_nil)
    fun _ hv => absurd hv List.not_mem_nil
  simp only [List.append_nil] at hgood
  constructor
  · rintro ⟨tree', hrun, hh'⟩
    by_cases hw : ∃ b' ∈ b.listenEntries, b'.fpType = .any ∧ Clash a.listenEntries b'
    · obtain ⟨e, he⟩ := hbad hw
      cases he.symm.trans hrun
    · obtain ⟨tree₁, hrun₁, -, hp⟩ := hgood fun b' hb' ht hc => hw ⟨b', hb', ht, hc⟩
      obtain rfl := Except.ok.inj (hrun.symm.trans hrun₁)
      have hlen := (hp.symm.trans hh'.2).length_eq
      rw [List.length_map, List.length_map] at hlen
      intro e' he'
      exact of_decide_eq_true (List.length_filter_eq_length_iff.mp hlen e' he')
  · intro hn
    obtain ⟨tree', hrun, hs, hp⟩ := hgood fun b' hb' _ => hn b' hb'
    rw [List.filter_eq_self.mpr fun e' he' => decide_eq_true (hn e' he')] at hp
    exact ⟨tree', hrun, hs, hp⟩

/-- A socket that goes takes its entries with it. -/
theorem stop_socket (ha : a.Wf) (hh : Holds tree a.listenEntries) :
    ∃ tree', a.listenEntries.foldlM stopListenEntry tree = .ok tree' := by
  have h := diffTree_spec ha.sorted Avl.sorted_nil ha.types
    (List.Pairwise.nil : DistinctKeys [])
  obtain ⟨tree', hrun, -⟩ := (h tree [] hh.1 (by simpa using hh.2)
    (fun _ hv => absurd hv List.not_mem_nil) fun _ hv => absurd hv List.not_mem_nil).2
    fun _ hb => absurd hb List.not_mem_nil
  refine ⟨tree', ?_⟩
  rw [← hrun, Avl.diff_nil_right]
  simp only [List.foldlM_map, diffTree]

theorem Holds.view_eq {tree' : List TconnListenEntry} (h : Holds tree l) (h' : Holds tree' l) :
    tree.map TconnListenEntry.view = tree'.map TconnListenEntry.view :=
  view_eq_of_perm h.1 h'.1 (h.2.trans h'.2.symm)

theorem Holds.of_view_eq {tree' : List TconnListenEntry} (h : Holds tree l)
    (e : tree'.map TconnListenEntry.view = tree.map TconnListenEntry.view) : Holds tree' l := by
  refine ⟨?_, by rw [e]; exact h.2⟩
  have hs : (tree.map TconnListenEntry.view).Pairwise fun v w => v.2.2 < w.2.2 :=
    List.pairwise_map.mpr h.1
  rw [← e] at hs
  have hkey := List.pairwise_map.mp hs
  exact hkey

/-- Two daemons that listen as one configuration says admit the same peers. -/
theorem Listens.admits_eq {s' : Live} (h : Listens conf s) (h' : Listens conf s')
    (addr : SockAddr) : s.admits addr = s'.admits addr := by
  unfold Live.admits
  by_cases hc : ∃ cls ∈ conf.listeningSockets, cls.listenAddress = addr
  · obtain ⟨cls, hc, rfl⟩ := hc
    obtain ⟨tree, ht, hh⟩ := h.live cls hc
    obtain ⟨tree', ht', hh'⟩ := h'.live cls hc
    rw [ht, ht', Option.map_some, Option.map_some, hh.view_eq hh']
  · have hne : ∀ cls ∈ conf.listeningSockets, cls.listenAddress ≠ addr :=
      fun cls hcls e => hc ⟨cls, hcls, e⟩
    rw [h.dead addr hne, h'.dead addr hne]

/-- What a reload makes of the place of a socket that has an old one. -/
theorem reloadAt_mod (o : List TconnListenEntry) :
    reloadAt (some o) (.mod a b) = ((Avl.diff compareListenEntries a.listenEntries
      b.listenEntries).foldlM diffTree o).map some := by
  simp only [reloadAt, Option.mapM_some]
  cases (Avl.diff compareListenEntries a.listenEntries b.listenEntries).foldlM diffTree o <;> rfl

/-- A reload in which no key moves. -/
theorem reload_listens (hw : conf.Wf) (hw' : conf'.Wf) (hd' : conf'.Distinct) (hs : Listens conf s)
    (hstay : KeysStay conf conf') :
    ∃ s', (Avl.diff compareListeningSockets conf.listeningSockets
        conf'.listeningSockets).foldlM
      (fun s o => (reloadAt (s (socketOf o)) o).map (Function.update s (socketOf o))) s = .ok s' ∧
      Listens conf' s' := by
  have hadd : ∀ (o : Option (List TconnListenEntry)), ∀ b ∈ conf'.listeningSockets, ∃ tree,
      reloadAt o (.add b) = .ok (some tree) ∧ Holds tree b.listenEntries := by
    intro o b hb
    obtain ⟨tree, hrun, hh⟩ :=
      startListenEntries_spec (hw'.entries b hb).sorted (hd'.keys hw' hb)
    exact ⟨tree, congrArg (Except.map some) hrun, hh⟩
  have hmod : ∀ a ∈ conf.listeningSockets, ∀ b ∈ conf'.listeningSockets,
      a.listenAddress = b.listenAddress → ∃ tree,
        reloadAt (s a.listenAddress) (.mod a b) = .ok (some tree) ∧ Holds tree b.listenEntries := by
    intro a ha b hb hab
    obtain ⟨tree, htree, hh⟩ := hs.live a ha
    obtain ⟨tree', hrun, hh'⟩ := (reload_socket (hw.entries a ha) (hw'.entries b hb)
      (hd'.keys hw' hb) hh).mpr (hstay a ha b hb hab)
    exact ⟨tree', by rw [htree, reloadAt_mod, hrun]; rfl, hh'⟩
  have hdel : ∀ a ∈ conf.listeningSockets,
      reloadAt (s a.listenAddress) (.del a) = .ok none := by
    intro a ha
    obtain ⟨tree, htree, hh⟩ := hs.live a ha
    obtain ⟨tree', hrun⟩ := stop_socket (hw.entries a ha) hh
    simp only [reloadAt, htree, Option.mapM_some, hrun]
    rfl
  obtain ⟨s', hrun⟩ := exists_foldlM_own socketOf reloadAt s
    (fun _ _ => rfl) (diffSockets_apart hw hw') fun o ho => by
      have hof := (mem_diffSockets hw hw').mp ho
      cases o with
      | add b => exact (hadd _ b hof.1).imp' some fun tree h => h.1
      | mod a b =>
        have hplace := SockAddr.place_injective hof.2.2
        exact (hmod a hof.1 b hof.2.1 hplace).imp' some fun tree h => h.1
      | del a => exact ⟨none, hdel a hof.1⟩
  obtain ⟨hown, hkeep⟩ := (foldlM_own (fun _ _ => rfl) (diffSockets_apart hw hw')).mp hrun
  have hmem : ∀ o, o.Of (fun cls => cls.listenAddress.place) conf.listeningSockets
      conf'.listeningSockets → reloadAt (s (socketOf o)) o = .ok (s' (socketOf o)) :=
    fun o ho => hown o ((mem_diffSockets hw hw').mpr ho)
  refine ⟨s', hrun, fun b hb => ?_, fun addr hne => ?_⟩
  · by_cases ha : ∃ a ∈ conf.listeningSockets, a.listenAddress = b.listenAddress
    · obtain ⟨a, ha, hab⟩ := ha
      obtain ⟨tree, htree, hh⟩ := hmod a ha b hb hab
      have hnew := hmem (.mod a b) ⟨ha, hb, congrArg SockAddr.place hab⟩
      refine ⟨tree, ?_, hh⟩
      rw [← hab]
      exact (Except.ok.inj (htree.symm.trans hnew)).symm
    · obtain ⟨tree, htree, hh⟩ := hadd (s b.listenAddress) b hb
      have hnew := hmem (.add b)
        ⟨hb, fun a ha' e => ha ⟨a, ha', SockAddr.place_injective e⟩⟩
      exact ⟨tree, (Except.ok.inj (htree.symm.trans hnew)).symm, hh⟩
  · by_cases ha : ∃ a ∈ conf.listeningSockets, a.listenAddress = addr
    · obtain ⟨a, ha, rfl⟩ := ha
      have hnew := hmem (.del a)
        ⟨ha, fun b hb e => hne b hb (SockAddr.place_injective e).symm⟩
      exact (Except.ok.inj ((hdel a ha).symm.trans hnew)).symm
    · have hnone : ∀ a ∈ conf.listeningSockets, a.listenAddress ≠ addr :=
        fun a ha' e => ha ⟨a, ha', e⟩
      rw [hkeep addr fun o ho => ?_, hs.dead addr hnone]
      have hof := (mem_diffSockets hw hw').mp ho
      cases o with
      | add b => exact hne b hof.1
      | mod a b => exact hnone a hof.1
      | del a => exact hnone a hof.1

/-- **Reload and restart.** With sockets that can be bound, a reload leaves the listeners of a
restart exactly when no fingerprint of a socket, and no wildcard, moves to an entry whose name comes
before that of the entry that had it: such an entry is registered while the old one is still there,
and `start_conf_listen_entry` does not look at the failure. -/
theorem reload_iff (hbinds : ∀ addr, binds addr = true) (h : conf.Parsed) (h' : conf'.Parsed)
    (hd : conf.Distinct) (hd' : conf'.Distinct) :
    ReloadsAsRestart binds conf conf' ↔ KeysStay conf conf' := by
  have hw := h.wf
  have hw' := h'.wf
  obtain ⟨s, hstart, hlive⟩ := startConfig_spec hbinds hw hd
  obtain ⟨s', hstart', hlive'⟩ := startConfig_spec hbinds hw' hd'
  have hstate := diffConfigs_state conf conf' hbinds s
  have hmod : ∀ a ∈ conf.listeningSockets, ∀ b ∈ conf'.listeningSockets,
      a.listenAddress = b.listenAddress → .mod a b ∈
        Avl.diff compareListeningSockets conf.listeningSockets conf'.listeningSockets :=
    fun a ha b hb e => (mem_diffSockets hw hw').mpr ⟨ha, hb, congrArg SockAddr.place e⟩
  constructor
  · rintro ⟨s₁, r, s₂, hs₁, hr, hs₂, hadmits⟩ a ha b hb hab
    obtain ⟨rfl, -⟩ := Prod.mk.inj (Except.ok.inj (hstart.symm.trans hs₁))
    obtain ⟨rfl, -⟩ := Prod.mk.inj (Except.ok.inj (hstart'.symm.trans hs₂))
    rw [hr] at hstate
    obtain ⟨hown, -⟩ := (foldlM_own (fun _ _ => rfl) (diffSockets_apart hw hw')).mp hstate.symm
    obtain ⟨tree, htree, hh⟩ := hlive.live a ha
    have hrun := hown _ (hmod a ha b hb hab)
    rw [show s (socketOf (.mod a b)) = some tree from htree, reloadAt_mod] at hrun
    refine (reload_socket (hw.entries a ha) (hw'.entries b hb) (hd'.keys hw' hb) hh).mp ?_
    cases hf : (Avl.diff compareListenEntries a.listenEntries b.listenEntries).foldlM
        diffTree tree with
    | error e =>
      rw [hf] at hrun
      cases hrun
    | ok tree' =>
      rw [hf] at hrun
      obtain ⟨tree'', htree'', hh''⟩ := hlive'.live b hb
      have hadmit := hadmits a.listenAddress
      have hnew : r.state a.listenAddress = some tree' := (Except.ok.inj hrun).symm
      unfold Live.admits at hadmit
      rw [hnew, hab, htree''] at hadmit
      exact ⟨tree', rfl, hh''.of_view_eq (Option.some.inj hadmit)⟩
  · intro hstay
    obtain ⟨s₁, hrun, hlistens⟩ := reload_listens hw hw' hd' hlive hstay
    rw [hrun] at hstate
    cases hr : diffConfigs (dvpnRequest binds) conf conf' s with
    | error e =>
      rw [hr] at hstate
      cases hstate
    | ok r =>
      rw [hr] at hstate
      obtain rfl := Except.ok.inj hstate
      exact ⟨s, r, s', hstart, hr, hstart', hlistens.admits_eq hlive'⟩

end Reload

/-! ## A small configuration -/

/-- One socket with one entry. -/
def listenConf (fpType : ConfFpType) (name : CString) : Conf :=
  ⟨[], [⟨.inet ⟨[127, 0, 0, 1], rfl⟩ ⟨[0, 7], rfl⟩, fpType = .any,
    [⟨name, fpType, ⟨List.replicate 32 5, rfl⟩, .epeer, [1], 0, 1⟩]⟩]⟩

theorem listenConf_parsed {fpType : ConfFpType} (h : fpType ≠ .cname) (name : CString) :
    (listenConf fpType name).Parsed := by
  refine ⟨[.listen (.inet ⟨[127, 0, 0, 1], rfl⟩ ⟨[0, 7], rfl⟩)
    ⟨name, fpType, ⟨List.replicate 32 5, rfl⟩, .epeer, [1], 0, 1⟩], fun o ho => ?_, ?_⟩
  · obtain rfl := List.mem_singleton.mp ho
    exact ⟨h, by simp, Or.inl rfl, le_refl 1⟩
  · cases fpType with
    | any => rfl
    | cname => exact absurd rfl h
    | matching => rfl

theorem listenConf_distinct (fpType : ConfFpType) (name : CString) :
    (listenConf fpType name).Distinct := by
  intro cls hc e he e' he' _ _ _
  obtain rfl := List.mem_singleton.mp hc
  exact (List.mem_singleton.mp he).trans (List.mem_singleton.mp he').symm

/-- An entry is renamed to a name that comes later. -/
theorem reload_later_name :
    ReloadsAsRestart (fun _ => true) (listenConf .matching [1]) (listenConf .matching [2]) := by
  refine (reload_iff (fun _ => rfl) (listenConf_parsed (by decide) _)
    (listenConf_parsed (by decide) _) (listenConf_distinct _ _) (listenConf_distinct _ _)).mpr ?_
  intro a ha b hb _ e he e' he' _
  obtain rfl := List.mem_singleton.mp ha
  obtain rfl := List.mem_singleton.mp hb
  obtain rfl := List.mem_singleton.mp he
  obtain rfl := List.mem_singleton.mp he'
  show ¬ ([2] : CString) < [1]
  decide

/-- An entry is renamed to a name that comes earlier: the reload loses it, and aborts when it is the
wildcard. -/
theorem reload_earlier_name :
    (listenConf .matching [2]).Parsed ∧ (listenConf .matching [1]).Parsed ∧
    (listenConf .matching [2]).Distinct ∧ (listenConf .matching [1]).Distinct ∧
    ¬ ReloadsAsRestart (fun _ => true) (listenConf .matching [2]) (listenConf .matching [1]) ∧
    (startConfig (fun _ => true) (listenConf .any [2]) Live.fresh).bind (fun r =>
      (diffConfigs (dvpnRequest fun _ => true) (listenConf .any [2]) (listenConf .any [1])
        r.1).map fun _ => ()) = .error .compareListenEntries := by
  refine ⟨listenConf_parsed (by decide) _, listenConf_parsed (by decide) _,
    listenConf_distinct _ _, listenConf_distinct _ _, ?_, by decide +kernel⟩
  rintro ⟨s, r, s', hs, hr, hs', h⟩
  have hcheck : (do
      let s ← startConfig (fun _ => true) (listenConf .matching [2]) Live.fresh
      let r ← diffConfigs (dvpnRequest fun _ => true) (listenConf .matching [2])
        (listenConf .matching [1]) s.1
      let s' ← startConfig (fun _ => true) (listenConf .matching [1]) Live.fresh
      let addr := SockAddr.inet ⟨[127, 0, 0, 1], rfl⟩ ⟨[0, 7], rfl⟩
      return decide (r.state.admits addr = s'.1.admits addr)) = .ok false := by decide +kernel
  simp [hs, hr, hs', h] at hcheck

end Dvpn
