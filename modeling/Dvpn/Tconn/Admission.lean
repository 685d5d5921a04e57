import Dvpn.Daemon.Listen
import Dvpn.SearchTree
import Dvpn.Tconn.KeyIds

/-!
# Admission on a listening socket (`tconn_listen.c:102-186`, `tconn_listen.c:342-454`)

`Daemon.Listen` has the entries of a socket in order. Here they are the tree that `verify_key_ids`
descends in, whose shape is up to the AVL library (`SearchTree.TreeOps`), with the wildcard
wherever rebalancing has put it. `TconnListenSocket` has the socket with its connections, and with
the lists that these are on; an entry or a connection is its address.

* `findListenEntry_eq_some`, `findWildcardListenEntry_eq_some`: the two searches.
* `selectListenEntry_selects`: the entry that a list of key ids is admitted by.
* `listenStep_inv`: what every operation keeps.
* `admission_exact`: the searches and `verify_key_ids` in every state of a socket.
-/

namespace Dvpn.ListenSocket

open SearchTree

/-! ## The code -/

/-- `struct tconn_listen_entry`; `self` is its address. -/
structure Tle extends TconnListenEntry where
  self : Nat

def STATE_TLS_HANDSHAKE : Int := 1
def STATE_KEY_ID_VERIFIED : Int := 2
def STATE_CONNECTED : Int := 3

/-- `struct client_conn`; `tle` is `none` for NULL. -/
structure ClientConn where
  state : Int
  tle : Option Tle
  id : NodeId

/-- `struct tconn_listen_socket`, with the connections of the entries by their addresses, and the
connections in memory. -/
structure TconnListenSocket where
  listenEntries : BinaryTree Tle
  connHandshaking : List Nat
  connections : Nat → List Nat
  conn : Nat → Option ClientConn

/-- What an operation does besides: a return value, or a call of `tle->disconnect`. -/
inductive ListenEvent where
  | ret (value : Int)
  | disconnect (cc : Nat)
  deriving DecidableEq

/-- `compare_listen_entries` (`tconn_listen.c:342-360`), where it does not abort. -/
def compareListenEntries (a b : Tle) : Int :=
  tconnCompareListenEntries a.toTconnListenEntry b.toTconnListenEntry

/-- `find_listen_entry` (`tconn_listen.c:102-130`). -/
def findListenEntry (id : NodeId) : BinaryTree Tle → Option Tle
  | .nil => none
  | .node tle left right =>
    if tle.fpType = .any then findListenEntry id right
    else
      let ret := memcmp id.1 tle.fingerprint.1 NODE_ID_LEN
      if ret = 0 then some tle
      else if ret < 0 then findListenEntry id left
      else findListenEntry id right

/-- `find_wildcard_listen_entry` (`tconn_listen.c:132-146`). -/
def findWildcardListenEntry (tree : BinaryTree Tle) : Option Tle :=
  match first tree with
  | none => none
  | some tle => if tle.fpType = .any then some tle else none

/-- The searches of `verify_key_ids` (`tconn_listen.c:157-171`). -/
def selectListenEntry (tree : BinaryTree Tle) : List NodeId → Option Tle
  | [] => findWildcardListenEntry tree
  | id :: ids =>
    match findListenEntry id tree with
    | some tle => some tle
    | none => selectListenEntry tree ids

/-- `iv_list_del` of `cc->list`, whatever list the connection is on. -/
def unlink (s : TconnListenSocket) (cc : Nat) : TconnListenSocket :=
  { s with
    connHandshaking := s.connHandshaking.erase cc
    connections := fun tle => (s.connections tle).erase cc }

/-- `verify_key_ids` (`tconn_listen.c:148-186`). -/
def verifyKeyIds (s : TconnListenSocket) (cc : Nat) (ids : KeyIds) :
    Except Crash (TconnListenSocket × Int) :=
  match s.conn cc with
  | none => throw .outside
  | some c =>
    match selectListenEntry s.listenEntries ids.1 with
    | none => return (s, 1)
    | some tle =>
      let s := unlink s cc
      return ({ s with
        connections := Function.update s.connections tle.self (s.connections tle.self ++ [cc])
        conn := Function.update s.conn cc
          (some { c with state := STATE_KEY_ID_VERIFIED, tle := some tle, id := ids.first }) }, 0)

/-- `client_conn_kill` (`tconn_listen.c:72-90`). -/
def clientConnKill (s : TconnListenSocket) (cc : Nat) (notify : Bool) :
    Except Crash (TconnListenSocket × List ListenEvent) :=
  match s.conn cc with
  | none => throw .outside
  | some c =>
    let s := unlink s cc
    return ({ s with conn := Function.update s.conn cc none },
      if c.state = STATE_CONNECTED ∧ notify then [.disconnect cc] else [])

/-- `handshake_done` (`tconn_listen.c:203-238`); `refused` when `new_conn` returns NULL. -/
def handshakeDone (s : TconnListenSocket) (cc : Nat) (refused : Bool) :
    Except Crash (TconnListenSocket × List ListenEvent) :=
  match s.conn cc with
  | none => throw .outside
  | some c =>
    match c.tle with
    | none => throw .outside
    | some _ =>
      if refused then clientConnKill s cc false
      else
        return ({ s with
          conn := Function.update s.conn cc (some { c with state := STATE_CONNECTED }) }, [])

/-- `got_connection` (`tconn_listen.c:268-340`), when `accept` succeeds. -/
def gotConnection (s : TconnListenSocket) (cc : Nat) : TconnListenSocket :=
  { s with
    connHandshaking := s.connHandshaking ++ [cc]
    conn := Function.update s.conn cc (some ⟨STATE_TLS_HANDSHAKE, none, zeroId⟩) }

/-- `tconn_listen_entry_register` (`tconn_listen.c:431-439`). The comparison of two wildcards
aborts. -/
def tconnListenEntryRegister (ops : TreeOps Tle) (s : TconnListenSocket) (tle : Tle) :
    Except Crash (TconnListenSocket × Int) :=
  match ops.insert tle s.listenEntries with
  | none => if tle.fpType = .any then throw .compareListenEntries else return (s, -1)
  | some tree =>
    return ({ s with
      listenEntries := tree
      connections := Function.update s.connections tle.self [] }, 0)

/-- The loop of `tconn_listen_entry_unregister`. -/
def killConnections (s : TconnListenSocket) (l : List Nat) : Except Crash TconnListenSocket :=
  l.foldlM (fun s cc => return (← clientConnKill s cc false).1) s

/-- `tconn_listen_entry_unregister` (`tconn_listen.c:441-454`). -/
def tconnListenEntryUnregister (ops : TreeOps Tle) (s : TconnListenSocket) (tle : Tle) :
    Except Crash TconnListenSocket := do
  let s ← killConnections s (s.connections tle.self)
  return { s with listenEntries := ops.delete tle s.listenEntries }

/-- What is done to a socket. `kill` are the timeouts, a lost connection, and
`tconn_listen_entry_disconnect`. -/
inductive ListenOp where
  | register (tle : Tle)
  | unregister (tle : Tle)
  | gotConnection (cc : Nat)
  | verifyKeyIds (cc : Nat) (ids : KeyIds)
  | handshakeDone (cc : Nat) (refused : Bool)
  | kill (cc : Nat) (notify : Bool)

/-- One operation on a socket. -/
def listenStep (ops : TreeOps Tle) (s : TconnListenSocket) :
    ListenOp → Except Crash (TconnListenSocket × List ListenEvent)
  | .register tle => do
    let (s, ret) ← tconnListenEntryRegister ops s tle
    return (s, [.ret ret])
  | .unregister tle => return (← tconnListenEntryUnregister ops s tle, [])
  | .gotConnection cc => return (gotConnection s cc, [])
  | .verifyKeyIds cc ids => do
    let (s, ret) ← verifyKeyIds s cc ids
    return (s, [.ret ret])
  | .handshakeDone cc refused => handshakeDone s cc refused
  | .kill cc notify => clientConnKill s cc notify

/-- A socket that was just registered; what the entries hold is set when they are. -/
def freshSocket : TconnListenSocket where
  listenEntries := .nil
  connHandshaking := []
  connections := fun _ => []
  conn := fun _ => none

/-- What orders the entries: the wildcard first, then by fingerprint. -/
def Tle.key (tle : Tle) : WithBot NodeId := tle.toTconnListenEntry.key

/-- An entry is registered when it is not, beside entries with other fingerprints and no second
wildcard; an operation on an entry or a connection works on one that is there. -/
def ListenContract (s : TconnListenSocket) : ListenOp → Prop
  | .register tle => ∀ p ∈ inorder s.listenEntries, p.self ≠ tle.self ∧ p.key ≠ tle.key
  | .unregister tle => tle ∈ inorder s.listenEntries
  | .gotConnection cc => s.conn cc = none
  | .verifyKeyIds cc _ => s.conn cc ≠ none
  | .handshakeDone cc _ => ∃ c, s.conn cc = some c ∧ c.tle ≠ none
  | .kill cc _ => s.conn cc ≠ none

/-! ## What is asked of a socket -/

/-- The entries that are registered after one more operation. -/
def entriesAfter (R : List Tle) : ListenOp → List Tle
  | .register tle => tle :: R
  | .unregister tle => R.filter fun p => p.self ≠ tle.self
  | _ => R

/-- The entries that are registered after the operations. -/
def registered (os : List ListenOp) : List Tle := os.foldl entriesAfter []

/-- The entry is registered for peers with the key id `id`. -/
def Exact (R : List Tle) (id : NodeId) (p : Tle) : Prop :=
  p ∈ R ∧ p.fpType ≠ .any ∧ p.fingerprint = id

/-- What a list of key ids is admitted by: the entry of the first one that has an entry, else the
wildcard, else nothing. -/
inductive Selects (R : List Tle) (ids : List NodeId) : Option Tle → Prop
  | exact {before after : List NodeId} {id : NodeId} {p : Tle} : ids = before ++ id :: after →
      (∀ id' ∈ before, ∀ q, ¬ Exact R id' q) → Exact R id p → Selects R ids (some p)
  | wildcard {p : Tle} : (∀ id ∈ ids, ∀ q, ¬ Exact R id q) → p ∈ R → p.fpType = .any →
      Selects R ids (some p)
  | none : (∀ id ∈ ids, ∀ q, ¬ Exact R id q) → (∀ q ∈ R, q.fpType ≠ .any) → Selects R ids none

/-! ## The searches -/

variable {ops : TreeOps Tle} {s s' : TconnListenSocket} {tree : BinaryTree Tle} {R : List Tle}
  {p q tle : Tle} {id : NodeId} {cc : Nat} {c : ClientConn} {es : List ListenEvent}

theorem compareListenEntries_orders : Avl.Orders compareListenEntries Tle.key :=
  ⟨fun a b => tconnCompareListenEntries_orders.neg a.toTconnListenEntry b.toTconnListenEntry,
    fun a b => tconnCompareListenEntries_orders.zero a.toTconnListenEntry b.toTconnListenEntry⟩

theorem ordersOn (l : List Tle) : OrdersOn l compareListenEntries Tle.key :=
  ⟨fun a _ b _ => compareListenEntries_orders.neg a b,
    fun a _ b _ => compareListenEntries_orders.zero a b⟩

theorem key_any (h : p.fpType = .any) : p.key = ⊥ := if_pos h

theorem key_matching (h : p.fpType ≠ .any) : p.key = (p.fingerprint : WithBot NodeId) := if_neg h

/-- The comparison of an id with an entry: a wildcard is below every id. -/
def probe (id : NodeId) (tle : Tle) : Int :=
  if tle.fpType = .any then 1 else memcmp id.1 tle.fingerprint.1 NODE_ID_LEN

theorem findListenEntry_eq (id : NodeId) (tree : BinaryTree Tle) :
    findListenEntry id tree = search (probe id) tree := by
  induction tree with
  | nil => rfl
  | node tle left right ihl ihr =>
    rw [findListenEntry, search, ihl, ihr]
    by_cases h : tle.fpType = .any
    · have hprobe : probe id tle = 1 := if_pos h
      simp [h, hprobe]
    · have hprobe : probe id tle = memcmp id.1 tle.fingerprint.1 NODE_ID_LEN := if_neg h
      simp [h, hprobe]

theorem probe_locates (id : NodeId) (l : List Tle) :
    LocatesOn l (probe id) Tle.key (id : WithBot NodeId) := by
  constructor <;> intro b _ <;> unfold probe <;> by_cases h : b.fpType = .any
  · simp [h, key_any h]
  · simp [h, key_matching h]
  · simp [h, key_any h]
  · simp [h, key_matching h]

/-- **The search for a fingerprint** stops at no wildcard, and misses no entry. -/
theorem findListenEntry_eq_some (hs : Avl.Sorted Tle.key (inorder tree)) :
    findListenEntry id tree = some p ↔
      p ∈ inorder tree ∧ p.fpType ≠ .any ∧ p.fingerprint = id := by
  rw [findListenEntry_eq, search_eq_some hs (probe_locates id _)]
  refine and_congr_right fun _ => ?_
  by_cases h : p.fpType = .any
  · simp [h, key_any h]
  · simp [h, key_matching h]

/-- **The search for the wildcard** looks at the least entry only. -/
theorem findWildcardListenEntry_eq_some (hs : Avl.Sorted Tle.key (inorder tree)) :
    findWildcardListenEntry tree = some p ↔ p ∈ inorder tree ∧ p.fpType = .any := by
  unfold findWildcardListenEntry
  rw [first_eq]
  cases hl : inorder tree with
  | nil => simp
  | cons tle l =>
    rw [hl] at hs
    obtain ⟨hlt, -⟩ := Avl.sorted_cons.mp hs
    -- no entry behind the first one is a wildcard
    have hbehind : p ∈ l → p.fpType ≠ .any := by
      intro hp hany
      exact absurd (key_any hany ▸ hlt p hp) not_lt_bot
    constructor
    · intro h
      simp only [List.head?_cons] at h
      split_ifs at h with hany
      obtain rfl := Option.some.inj h
      exact ⟨List.mem_cons_self, hany⟩
    · rintro ⟨hp, hany⟩
      obtain rfl := (List.mem_cons.mp hp).resolve_right fun hp => hbehind hp hany
      simp [hany]

theorem findListenEntry_eq_none (hs : Avl.Sorted Tle.key (inorder tree))
    (hp : (inorder tree).Perm R) (h : findListenEntry id tree = none) : ∀ q, ¬ Exact R id q := by
  rintro q ⟨hq, hany, hid⟩
  rw [(findListenEntry_eq_some hs).mpr ⟨hp.mem_iff.mpr hq, hany, hid⟩] at h
  cases h

/-- **The searches of `verify_key_ids`** go through the ids in order, and come to the wildcard
last. -/
theorem selectListenEntry_selects (hs : Avl.Sorted Tle.key (inorder tree))
    (hp : (inorder tree).Perm R) (ids : List NodeId) :
    Selects R ids (selectListenEntry tree ids) := by
  induction ids with
  | nil =>
    have hnone : ∀ id ∈ ([] : List NodeId), ∀ q, ¬ Exact R id q :=
      fun id h => absurd h List.not_mem_nil
    unfold selectListenEntry
    cases hw : findWildcardListenEntry tree with
    | some p =>
      obtain ⟨hmem, hany⟩ := (findWildcardListenEntry_eq_some hs).mp hw
      exact .wildcard hnone (hp.mem_iff.mp hmem) hany
    | none =>
      refine .none hnone fun q hq hany => ?_
      rw [(findWildcardListenEntry_eq_some hs).mpr ⟨hp.mem_iff.mpr hq, hany⟩] at hw
      cases hw
  | cons id ids ih =>
    unfold selectListenEntry
    cases hf : findListenEntry id tree with
    | some p =>
      obtain ⟨hmem, hany, hid⟩ := (findListenEntry_eq_some hs).mp hf
      exact .exact (List.nil_append _).symm (fun _ h => absurd h List.not_mem_nil)
        ⟨hp.mem_iff.mp hmem, hany, hid⟩
    | none =>
      have hid := findListenEntry_eq_none hs hp hf
      have hall {l : List NodeId} (h : ∀ id' ∈ l, ∀ q, ¬ Exact R id' q) :
          ∀ id' ∈ id :: l, ∀ q, ¬ Exact R id' q := by
        intro id' hm
        rcases List.mem_cons.mp hm with rfl | hm
        · exact hid
        · exact h id' hm
      dsimp only
      generalize selectListenEntry tree ids = r at ih
      cases ih with
      | exact he hbefore hexact => exact .exact (congrArg (id :: ·) he) (hall hbefore) hexact
      | wildcard hnone hmem hany => exact .wildcard (hall hnone) hmem hany
      | none hnone hany => exact .none (hall hnone) hany

/-! ## The lists -/

/-- Where the connections are: one that has no entry yet is on the list of the socket, and any
other one on the list of its entry. -/
structure Listed (s : TconnListenSocket) : Prop where
  handshaking_nodup : s.connHandshaking.Nodup
  connections_nodup : ∀ a, (s.connections a).Nodup
  handshaking : ∀ cc, cc ∈ s.connHandshaking ↔ ∃ c, s.conn cc = some c ∧ c.tle = none
  connections : ∀ a cc, cc ∈ s.connections a ↔
    ∃ c p, s.conn cc = some c ∧ c.tle = some p ∧ p.self = a

theorem listed_unlink (h : Listed s) :
    (unlink s cc).connHandshaking.Nodup ∧ (∀ a, ((unlink s cc).connections a).Nodup) ∧
      (∀ x, x ∈ (unlink s cc).connHandshaking ↔
        x ≠ cc ∧ ∃ c, s.conn x = some c ∧ c.tle = none) ∧
      ∀ a x, x ∈ (unlink s cc).connections a ↔
        x ≠ cc ∧ ∃ c p, s.conn x = some c ∧ c.tle = some p ∧ p.self = a := by
  refine ⟨h.handshaking_nodup.erase cc, fun a => (h.connections_nodup a).erase cc, fun x => ?_,
    fun a x => ?_⟩
  · rw [← h.handshaking x]
    exact h.handshaking_nodup.mem_erase_iff
  · rw [← h.connections a x]
    exact (h.connections_nodup a).mem_erase_iff

/-- A connection that is gone is on no list. -/
theorem listed_kill (h : Listed s) :
    Listed { unlink s cc with conn := Function.update s.conn cc none } := by
  obtain ⟨hn, hn', hh, hc⟩ := @listed_unlink s cc h
  have hconn (x : Nat) (c : ClientConn) :
      Function.update s.conn cc none x = some c ↔ x ≠ cc ∧ s.conn x = some c := by
    by_cases hx : x = cc
    · subst hx
      simp
    · simp [hx]
  refine ⟨hn, hn', fun x => ?_, fun a x => ?_⟩
  · simp only [hh, hconn, and_assoc, exists_and_left]
  · simp only [hc, hconn, and_assoc, exists_and_left]

theorem clientConnKill_spec {notify : Bool} (h : Listed s) (hc : s.conn cc ≠ none) :
    ∃ s' es, clientConnKill s cc notify = .ok (s', es) ∧ Listed s' ∧
      s'.listenEntries = s.listenEntries ∧ s'.conn = Function.update s.conn cc none := by
  obtain ⟨c, hc⟩ := Option.ne_none_iff_exists'.mp hc
  unfold clientConnKill
  rw [hc]
  exact ⟨_, _, rfl, listed_kill h, rfl, rfl⟩

/-- **The loop of `tconn_listen_entry_unregister`** leaves none of the connections. -/
theorem killConnections_spec {l : List Nat} (h : Listed s) (hl : l.Nodup)
    (hc : ∀ cc ∈ l, s.conn cc ≠ none) :
    ∃ s', killConnections s l = .ok s' ∧ Listed s' ∧ s'.listenEntries = s.listenEntries ∧
      ∀ cc, s'.conn cc = if cc ∈ l then none else s.conn cc := by
  induction l generalizing s with
  | nil => exact ⟨s, rfl, h, rfl, fun cc => by simp⟩
  | cons x l ih =>
    obtain ⟨hx, hl⟩ := List.nodup_cons.mp hl
    obtain ⟨s₁, es, hkill, h₁, htree, hconn⟩ :=
      @clientConnKill_spec s x false h (hc x List.mem_cons_self)
    have hc₁ : ∀ cc ∈ l, s₁.conn cc ≠ none := by
      intro cc hcc
      have hne : cc ≠ x := fun e => hx (e ▸ hcc)
      rw [hconn, Function.update_of_ne hne]
      exact hc cc (List.mem_cons_of_mem x hcc)
    obtain ⟨s', hrun, h', htree', hconn'⟩ := ih h₁ hl hc₁
    refine ⟨s', ?_, h', htree'.trans htree, fun cc => ?_⟩
    · unfold killConnections at hrun ⊢
      rw [List.foldlM_cons, hkill]
      exact hrun
    · rw [hconn', hconn]
      by_cases hcl : cc ∈ l
      · simp [hcl]
      · by_cases hcx : cc = x
        · subst hcx
          simp [hcl]
        · simp [hcl, hcx]

/-! ## Runs -/

/-- What holds of a socket with the entries `R`. -/
structure ListenInv (R : List Tle) (s : TconnListenSocket) : Prop where
  listed : Listed s
  sorted : Avl.Sorted Tle.key (inorder s.listenEntries)
  perm : (inorder s.listenEntries).Perm R
  selves : (R.map Tle.self).Nodup
  entry : ∀ cc c p, s.conn cc = some c → c.tle = some p → p ∈ R

/-- What a connection is after `verify_key_ids` returned 0. -/
structure Admitted (s : TconnListenSocket) (cc : Nat) (ids : KeyIds) (p : Tle) : Prop where
  conn : ∃ c, s.conn cc = some c ∧ c.state = STATE_KEY_ID_VERIFIED ∧ c.tle = some p ∧
    c.id = ids.first
  handshaking : cc ∉ s.connHandshaking
  connections : ∀ a, cc ∈ s.connections a ↔ a = p.self

/-- **`verify_key_ids`** admits the connection by an entry, or changes nothing. -/
theorem verifyKeyIds_spec {ids : KeyIds} (h : ListenInv R s) (hc : s.conn cc ≠ none) :
    ∃ r s' ret, verifyKeyIds s cc ids = .ok (s', ret) ∧ Selects R ids.1 r ∧ ListenInv R s' ∧
      match r with
      | some p => ret = 0 ∧ Admitted s' cc ids p
      | none => ret = 1 ∧ s' = s := by
  obtain ⟨c, hc⟩ := Option.ne_none_iff_exists'.mp hc
  have hsel := selectListenEntry_selects h.sorted h.perm ids.1
  unfold verifyKeyIds
  rw [hc]
  cases hp : selectListenEntry s.listenEntries ids.1 with
  | none => exact ⟨none, s, 1, rfl, hp ▸ hsel, h, rfl, rfl⟩
  | some p =>
    rw [hp] at hsel
    have hpR : p ∈ R := by
      cases hsel with
      | exact _ _ he => exact he.1
      | wildcard _ hm _ => exact hm
    obtain ⟨hn, hn', hh, hcs⟩ := @listed_unlink s cc h.listed
    set t : TconnListenSocket := { unlink s cc with
      connections := Function.update (unlink s cc).connections p.self
        ((unlink s cc).connections p.self ++ [cc])
      conn := Function.update s.conn cc
        (some { c with state := STATE_KEY_ID_VERIFIED, tle := some p, id := ids.first }) } with ht
    have hconn (x : Nat) : t.conn x = if x = cc then
        some { c with state := STATE_KEY_ID_VERIFIED, tle := some p, id := ids.first }
        else s.conn x := by
      by_cases hx : x = cc
      · subst hx
        simp [ht]
      · simp [ht, hx]
    have hmem (a x : Nat) : x ∈ t.connections a ↔
        x ∈ (unlink s cc).connections a ∨ a = p.self ∧ x = cc := by
      by_cases ha : a = p.self
      · subst ha
        simp [ht]
      · simp [ht, ha]
    have hlisted : Listed t := by
      refine ⟨hn, fun a => ?_, fun x => ?_, fun a x => ?_⟩
      · by_cases ha : a = p.self
        · subst ha
          have hout : cc ∉ (unlink s cc).connections p.self := fun hm => ((hcs _ _).mp hm).1 rfl
          simpa [ht, List.nodup_append] using ⟨hn' p.self, fun x hx e => hout (e ▸ hx)⟩
        · simpa [ht, ha] using hn' a
      · rw [show t.connHandshaking = (unlink s cc).connHandshaking from rfl, hh, hconn]
        by_cases hx : x = cc <;> simp [hx]
      · rw [hmem, hcs, hconn]
        by_cases hx : x = cc
        · simp [hx, eq_comm]
        · simp [hx]
    refine ⟨some p, t, 0, rfl, hsel, ⟨hlisted, h.sorted, h.perm, h.selves, ?_⟩, rfl, ?_⟩
    · intro x c' q hx hq
      rw [hconn] at hx
      split_ifs at hx with hxc
      · obtain rfl := Option.some.inj hx
        obtain rfl := Option.some.inj hq
        exact hpR
      · exact h.entry x c' q hx hq
    · refine ⟨⟨_, (hconn cc).trans (if_pos rfl), rfl, rfl, rfl⟩, fun hm => ?_, fun a => ?_⟩
      · exact ((hh cc).mp hm).1 rfl
      · rw [hmem, hcs]
        simp

theorem ListenInv.conn_ne_none (h : ListenInv R s) {a : Nat} (hcc : cc ∈ s.connections a) :
    s.conn cc ≠ none := by
  obtain ⟨c, p, hc, -, -⟩ := (h.listed.connections a cc).mp hcc
  simp [hc]

/-- A connection is killed. -/
theorem kill_inv {notify : Bool} (h : ListenInv R s) (hc : s.conn cc ≠ none)
    (hrun : clientConnKill s cc notify = .ok (s', es)) : ListenInv R s' := by
  obtain ⟨t, es', hkill, hlisted, htree, hconn⟩ := @clientConnKill_spec s cc notify h.listed hc
  obtain ⟨rfl, rfl⟩ := Prod.mk.inj (Except.ok.inj (hkill.symm.trans hrun))
  refine ⟨hlisted, htree ▸ h.sorted, htree ▸ h.perm, h.selves, fun x c p hx => ?_⟩
  rw [hconn] at hx
  by_cases hxc : x = cc
  · rw [hxc, Function.update_self] at hx
    cases hx
  · rw [Function.update_of_ne hxc] at hx
    exact h.entry x c p hx

/-- **An entry with a new fingerprint is registered.** -/
theorem register_inv (hops : ops.Lawful compareListenEntries Tle.key) (h : ListenInv R s)
    (hnew : ∀ p ∈ inorder s.listenEntries, p.self ≠ tle.self ∧ p.key ≠ tle.key) {ret : Int}
    (hrun : tconnListenEntryRegister ops s tle = .ok (s', ret)) :
    ret = 0 ∧ ListenInv (tle :: R) s' := by
  have hon := ordersOn (tle :: inorder s.listenEntries)
  unfold tconnListenEntryRegister at hrun
  cases hi : ops.insert tle s.listenEntries with
  | none =>
    obtain ⟨p, hp, he⟩ := hon.exists_zero.mp ((hops.insert_none hon h.sorted).mp hi)
    exact absurd he (hnew p hp).2
  | some tree =>
    rw [hi] at hrun
    obtain ⟨rfl, rfl⟩ := Prod.mk.inj (Except.ok.inj hrun)
    obtain ⟨hs, hp⟩ := hops.insert_some hon h.sorted hi
    have hself : ∀ p ∈ R, p.self ≠ tle.self := fun p hp => (hnew p (h.perm.mem_iff.mpr hp)).1
    have hempty : s.connections tle.self = [] := by
      refine List.eq_nil_iff_forall_not_mem.mpr fun cc hcc => ?_
      obtain ⟨c, p, hc, hp, he⟩ := (h.listed.connections _ cc).mp hcc
      exact hself p (h.entry cc c p hc hp) he
    have hsame : Function.update s.connections tle.self [] = s.connections := by
      rw [← hempty, Function.update_eq_self]
    refine ⟨rfl, ?_, hs, hp.trans (h.perm.cons tle), ?_, fun cc c p hc hp => ?_⟩
    · rw [hsame]
      exact ⟨h.listed.handshaking_nodup, h.listed.connections_nodup, h.listed.handshaking,
        h.listed.connections⟩
    · refine List.nodup_cons.mpr ⟨fun hm => ?_, h.selves⟩
      obtain ⟨p, hp, he⟩ := List.mem_map.mp hm
      exact hself p hp he
    · exact List.mem_cons_of_mem tle (h.entry cc c p hc hp)

/-- **An entry that is registered leaves with its connections.** -/
theorem unregister_inv (hops : ops.Lawful compareListenEntries Tle.key) (h : ListenInv R s)
    (hin : tle ∈ inorder s.listenEntries)
    (hrun : tconnListenEntryUnregister ops s tle = .ok s') :
    ListenInv (R.filter fun p => p.self ≠ tle.self) s' := by
  obtain ⟨t, ht, hlisted, htree, hconn⟩ :=
    killConnections_spec h.listed (h.listed.connections_nodup tle.self)
      fun cc hcc => h.conn_ne_none hcc
  unfold tconnListenEntryUnregister at hrun
  rw [ht] at hrun
  obtain rfl := Except.ok.inj hrun
  obtain ⟨hs, hp⟩ := hops.delete (ordersOn _) h.sorted hin
  have hR := h.perm.symm.trans hp
  -- the other entries have other addresses
  have hothers : ∀ p ∈ inorder (ops.delete tle s.listenEntries), p.self ≠ tle.self := by
    have hnodup := (hR.map Tle.self).nodup_iff.mp h.selves
    rw [List.map_cons, List.nodup_cons] at hnodup
    exact fun p hp he => hnodup.1 (he ▸ List.mem_map_of_mem hp)
  have hfilter : (R.filter fun p => p.self ≠ tle.self).Perm
      (inorder (ops.delete tle s.listenEntries)) := by
    have hall : (inorder (ops.delete tle s.listenEntries)).filter (fun p => p.self ≠ tle.self) =
        inorder (ops.delete tle s.listenEntries) :=
      List.filter_eq_self.mpr fun p hp => by simpa using hothers p hp
    have hf := hR.filter fun p => p.self ≠ tle.self
    rwa [List.filter_cons_of_neg (by simp), hall] at hf
  rw [htree]
  refine ⟨⟨hlisted.handshaking_nodup, hlisted.connections_nodup, hlisted.handshaking,
    hlisted.connections⟩, hs, hfilter.symm, ?_, fun cc c p hc hp => ?_⟩
  · exact h.selves.sublist (List.filter_sublist.map Tle.self)
  · rw [hconn] at hc
    split_ifs at hc with hcc
    refine List.mem_filter.mpr ⟨h.entry cc c p hc hp, ?_⟩
    have hne : p.self ≠ tle.self := fun he =>
      hcc ((h.listed.connections _ cc).mpr ⟨c, p, hc, hp, he⟩)
    simpa using hne

/-- A connection comes in. -/
theorem gotConnection_inv (h : ListenInv R s) (hc : s.conn cc = none) :
    ListenInv R (gotConnection s cc) := by
  have hconn (x : Nat) (c : ClientConn) : (gotConnection s cc).conn x = some c ↔
      x = cc ∧ c = ⟨STATE_TLS_HANDSHAKE, none, zeroId⟩ ∨ s.conn x = some c := by
    unfold gotConnection
    by_cases hx : x = cc
    · subst hx
      simp [hc, eq_comm]
    · simp [hx]
  have hout : cc ∉ s.connHandshaking := by
    intro hm
    obtain ⟨c, hc', -⟩ := (h.listed.handshaking cc).mp hm
    rw [hc] at hc'
    cases hc'
  refine ⟨⟨?_, h.listed.connections_nodup, fun x => ?_, fun a x => ?_⟩, h.sorted, h.perm, h.selves,
    fun x c p hx hp => ?_⟩
  · refine List.nodup_append.mpr ⟨h.listed.handshaking_nodup, List.nodup_singleton cc, ?_⟩
    rintro x hx y hy rfl
    exact hout (List.mem_singleton.mp hy ▸ hx)
  · simp only [hconn, or_and_right, exists_or]
    rw [← h.listed.handshaking x, or_comm]
    simp [gotConnection]
  · simp only [hconn, or_and_right, exists_or]
    rw [← h.listed.connections a x]
    simp [gotConnection]
  · rcases (hconn x c).mp hx with ⟨-, rfl⟩ | hx
    · cases hp
    · exact h.entry x c p hx hp

/-- A handshake is done: the connection stays where it is, or it is killed. -/
theorem handshakeDone_inv {refused : Bool} (h : ListenInv R s) (hc : s.conn cc ≠ none)
    (hrun : handshakeDone s cc refused = .ok (s', es)) : ListenInv R s' := by
  obtain ⟨c, hcc⟩ := Option.ne_none_iff_exists'.mp hc
  obtain ⟨state, tle, id⟩ := c
  unfold handshakeDone at hrun
  rw [hcc] at hrun
  cases tle with
  | none => cases hrun
  | some p =>
    dsimp only at hrun
    split_ifs at hrun with hrefused
    · exact kill_inv h hc hrun
    · obtain ⟨rfl, rfl⟩ := Prod.mk.inj (Except.ok.inj hrun)
      -- the entry of no connection changes
      have hconn (x : Nat) (r : Option Tle) :
          (∃ c, Function.update s.conn cc (some ⟨STATE_CONNECTED, some p, id⟩) x = some c ∧
            c.tle = r) ↔ ∃ c, s.conn x = some c ∧ c.tle = r := by
        by_cases hx : x = cc
        · subst hx
          simp [hcc]
        · simp [hx]
      refine ⟨⟨h.listed.handshaking_nodup, h.listed.connections_nodup, fun x => ?_, fun a x => ?_⟩,
        h.sorted, h.perm, h.selves, fun x c' q hx hq => ?_⟩
      · exact (h.listed.handshaking x).trans (hconn x none).symm
      · rw [h.listed.connections a x]
        constructor
        · rintro ⟨c', q, hx, hq, he⟩
          obtain ⟨c₁, hx₁, hq₁⟩ := (hconn x (some q)).mpr ⟨c', hx, hq⟩
          exact ⟨c₁, q, hx₁, hq₁, he⟩
        · rintro ⟨c', q, hx, hq, he⟩
          obtain ⟨c₁, hx₁, hq₁⟩ := (hconn x (some q)).mp ⟨c', hx, hq⟩
          exact ⟨c₁, q, hx₁, hq₁, he⟩
      · obtain ⟨c₁, hx₁, hq₁⟩ := (hconn x (some q)).mp ⟨c', hx, hq⟩
        exact h.entry x c₁ q hx₁ hq₁

/-- **Every operation** keeps the socket and its entries as they should be. -/
theorem listenStep_inv (hops : ops.Lawful compareListenEntries Tle.key) {op : ListenOp}
    (h : ListenInv R s) (hc : ListenContract s op) (hrun : listenStep ops s op = .ok (s', es)) :
    ListenInv (entriesAfter R op) s' := by
  cases op with
  | register tle =>
    obtain ⟨⟨t, ret⟩, hreg, hrun⟩ := bind_eq_ok.mp hrun
    obtain ⟨rfl, -⟩ := Prod.mk.inj (Except.ok.inj hrun)
    exact (register_inv hops h hc hreg).2
  | unregister tle =>
    obtain ⟨t, hunreg, hrun⟩ := bind_eq_ok.mp hrun
    obtain ⟨rfl, -⟩ := Prod.mk.inj (Except.ok.inj hrun)
    exact unregister_inv hops h hc hunreg
  | gotConnection cc =>
    obtain ⟨rfl, -⟩ := Prod.mk.inj (Except.ok.inj hrun)
    exact gotConnection_inv h hc
  | verifyKeyIds cc ids =>
    obtain ⟨⟨t, ret⟩, hver, hrun⟩ := bind_eq_ok.mp hrun
    obtain ⟨rfl, -⟩ := Prod.mk.inj (Except.ok.inj hrun)
    obtain ⟨r, t', ret', hver', -, hinv, -⟩ := @verifyKeyIds_spec _ _ _ ids h hc
    obtain ⟨rfl, -⟩ := Prod.mk.inj (Except.ok.inj (hver'.symm.trans hver))
    exact hinv
  | handshakeDone cc refused =>
    obtain ⟨c, hcc, -⟩ := hc
    exact handshakeDone_inv h (by simp [hcc]) hrun
  | kill cc notify => exact kill_inv h hc hrun

theorem freshSocket_inv : ListenInv [] freshSocket where
  listed := ⟨List.nodup_nil, fun _ => List.nodup_nil, by simp [freshSocket],
    by simp [freshSocket]⟩
  sorted := Avl.sorted_nil
  perm := List.Perm.nil
  selves := List.nodup_nil
  entry := by simp [freshSocket]

/-- **Admission is exact**: in every state of a socket the search for a fingerprint and the search
for the wildcard find what is registered, and `verify_key_ids` admits a connection by the first key
id that has an entry, else by the wildcard, else not at all. -/
theorem admission_exact (hops : ops.Lawful compareListenEntries Tle.key) {os : List ListenOp}
    (hrun : Run (listenStep ops) ListenContract freshSocket os s es) :
    (∀ id p, findListenEntry id s.listenEntries = some p ↔
      p ∈ registered os ∧ p.fpType ≠ .any ∧ p.fingerprint = id) ∧
    (∀ p, findWildcardListenEntry s.listenEntries = some p ↔
      p ∈ registered os ∧ p.fpType = .any) ∧
    ∀ cc ids, s.conn cc ≠ none →
      ∃ r s' ret, verifyKeyIds s cc ids = .ok (s', ret) ∧ Selects (registered os) ids.1 r ∧
        match r with
        | some p => ret = 0 ∧ Admitted s' cc ids p
        | none => ret = 1 ∧ s' = s := by
  have h : ListenInv (registered os) s := by
    refine hrun.invariant (fun os s _ => ListenInv (registered os) s) freshSocket_inv ?_
    intro os s es op s' es' hinv hc hstep
    have hinv' := listenStep_inv hops hinv hc hstep
    rwa [registered, List.foldl_append]
  refine ⟨fun id p => ?_, fun p => ?_, fun cc ids hc => ?_⟩
  · rw [findListenEntry_eq_some h.sorted, h.perm.mem_iff]
  · rw [findWildcardListenEntry_eq_some h.sorted, h.perm.mem_iff]
  · obtain ⟨r, s', ret, hver, hsel, -, hr⟩ := @verifyKeyIds_spec _ _ _ ids h hc
    exact ⟨r, s', ret, hver, hsel, hr⟩

/-- An entry for one fingerprint, and a wildcard. -/
def roleEntry : Tle := { name := [97], fpType := .matching, fingerprint := filledId 5, self := 1 }
def anyEntry : Tle := { name := [98], fpType := .any, fingerprint := zeroId, self := 2 }

/-- A peer with a role certificate is admitted beside a wildcard. -/
theorem admission_exact_role : ∃ s es,
    Run (listenStep (chainOps compareListenEntries)) ListenContract freshSocket
      [.register roleEntry, .register anyEntry, .gotConnection 10] s es ∧
    findListenEntry (filledId 5) s.listenEntries = some roleEntry ∧
    findWildcardListenEntry s.listenEntries = some anyEntry ∧
    ∃ s', verifyKeyIds s 10 ⟨[filledId 9, filledId 5], by simp⟩ = .ok (s', 0) := by
  have hrole : Run (listenStep (chainOps compareListenEntries)) ListenContract freshSocket
      [.register roleEntry]
      { freshSocket with
        listenEntries := chain [roleEntry]
        connections := Function.update (fun _ => []) 1 [] } [.ret 0] :=
    .snoc .nil (fun p hp => absurd hp List.not_mem_nil) rfl
  have hany : Run (listenStep (chainOps compareListenEntries)) ListenContract freshSocket
      [.register roleEntry, .register anyEntry]
      { freshSocket with
        listenEntries := chain [anyEntry, roleEntry]
        connections := Function.update (Function.update (fun _ => []) 1 []) 2 [] }
      [.ret 0, .ret 0] := by
    refine .snoc hrole (fun p hp => ?_) rfl
    obtain rfl := List.mem_singleton.mp hp
    refine ⟨by decide, ?_⟩
    rw [key_matching (by decide), key_any rfl]
    exact WithBot.coe_ne_bot
  have hrun : Run (listenStep (chainOps compareListenEntries)) ListenContract freshSocket
      [.register roleEntry, .register anyEntry, .gotConnection 10] _ [.ret 0, .ret 0] :=
    .snoc hany rfl rfl
  obtain ⟨hfind, hwildcard, hverify⟩ :=
    admission_exact (lawful_chain compareListenEntries Tle.key) hrun
  refine ⟨_, _, hrun, (hfind _ _).mpr ⟨by simp [registered, entriesAfter], by decide, rfl⟩,
    (hwildcard _).mpr ⟨by simp [registered, entriesAfter], rfl⟩, ?_⟩
  obtain ⟨r, s', ret, hv, hsel, hr⟩ := hverify 10 ⟨[filledId 9, filledId 5], by simp⟩
    (by simp [gotConnection])
  cases r with
  | some p =>
    obtain ⟨rfl, -⟩ := hr
    exact ⟨s', hv⟩
  | none =>
    cases hsel with
    | none _ hnone => exact absurd rfl (hnone anyEntry (by simp [registered, entriesAfter]))

end Dvpn.ListenSocket
