import Dvpn.Basic

/-!
# Configurations (`conf.h`, `conf.c:245-304`, `conf.c:370-661`, `util.c:25-67`)

A configuration is a tree of connect entries by name and a tree of listening sockets by address,
each with a tree of listen entries by name.

* A `struct sockaddr_storage` is one of the two kinds that `parse_listen_addr` writes.
* The names are the bytes before the NUL. `node_name` and the keys of the configuration are left
  out.
* `parse_config_peer` reads the directives of a section and ends in `add_connect_peer` or
  `add_listen_peer`. Here a section is given as the arguments of that call (`PeerObject`), and what
  `parse_config_peer` has checked of them is `PeerObject.Checked`.

`Conf.Parsed` are the configurations that `parse_config` returns.

* `Conf.Parsed.wf`: their trees are ordered, their listen entries match a fingerprint or anything,
  and no socket has two that match anything.
-/

namespace Dvpn

/-! ## The data -/

/-- `enum conf_fp_type` (`conf.h:27-31`). -/
inductive ConfFpType where
  | any
  | cname
  | matching
  deriving DecidableEq, Repr

/-- `enum conf_peer_type` (`conf.h:47-54`). -/
inductive ConfPeerType where
  | invalid
  | dbonly
  | epeer
  | customer
  | transit
  | ipeer
  deriving DecidableEq, Repr

/-- The bytes of a C string. -/
abbrev CString := Bytes

/-- `strcmp`; `-1` and `1` stand for any negative and positive result. -/
def strcmp (a b : CString) : Int := if a < b then -1 else if a = b then 0 else 1

/-- An `AF_INET` or an `AF_INET6` address with its port, in network byte order. -/
inductive SockAddr where
  | inet (addr : {b : Bytes // b.length = 4}) (port : {b : Bytes // b.length = 2})
  | inet6 (addr : {b : Bytes // b.length = 16}) (port : {b : Bytes // b.length = 2})
  deriving DecidableEq

namespace SockAddr

/-- `AF_INET` and `AF_INET6`. -/
def family : SockAddr → Nat
  | inet _ _ => 2
  | inet6 _ _ => 10

def addr : SockAddr → Bytes
  | inet a _ => a.1
  | inet6 a _ => a.1

def port : SockAddr → Bytes
  | inet _ p => p.1
  | inet6 _ p => p.1

/-- What orders the addresses. -/
def place (a : SockAddr) : Nat ×ₗ (Bytes ×ₗ Bytes) := toLex (a.family, toLex (a.addr, a.port))

end SockAddr

/-- `addrcmp` (`util.c:25-67`), for two addresses of one of its two families. -/
def addrcmp (a b : SockAddr) : Int :=
  if a.family < b.family then -1
  else if a.family > b.family then 1
  else
    let ret := memcmp a.addr b.addr a.addr.length
    if ret ≠ 0 then ret else memcmp a.port b.port 2

/-- `struct conf_connect_entry`, as it is configured. -/
structure ConfConnectEntry where
  name : CString
  hostname : CString
  port : CString
  fpType : ConfFpType
  fingerprint : NodeId
  peerType : ConfPeerType
  tunitf : CString
  cost : Int

/-- `struct conf_listen_entry`, as it is configured. -/
structure ConfListenEntry where
  name : CString
  fpType : ConfFpType
  fingerprint : NodeId
  peerType : ConfPeerType
  tunitf : CString
  cost : Int
  connLimit : Int

/-- `struct conf_listening_socket`, as it is configured. -/
structure ConfListeningSocket where
  listenAddress : SockAddr
  haveWildcardListenEntry : Bool
  listenEntries : List ConfListenEntry

/-- `struct conf`. -/
structure Conf where
  connectEntries : List ConfConnectEntry
  listeningSockets : List ConfListeningSocket

/-- `compare_connect_entries` in `conf.c`. -/
def compareConnectEntries (a b : ConfConnectEntry) : Int := strcmp a.name b.name

/-- `compare_listen_entries` in `conf.c`. -/
def compareListenEntries (a b : ConfListenEntry) : Int := strcmp a.name b.name

/-- `compare_listening_sockets` in `conf.c`. -/
def compareListeningSockets (a b : ConfListeningSocket) : Int :=
  addrcmp a.listenAddress b.listenAddress

/-! ## The parser -/

/-- `iv_avl_tree_insert`, where the result is not looked at. -/
def treeInsert {α : Type} (cmp : α → α → Int) (a : α) (l : List α) : List α :=
  (Avl.insert cmp a l).getD l

/-- The socket that `get_listening_socket` finds (`conf.c:383-403`). -/
def findListeningSocket (conf : Conf) (addr : SockAddr) : Option ConfListeningSocket :=
  Avl.find (fun cls => addrcmp addr cls.listenAddress) conf.listeningSockets

/-- `get_listening_socket` (`conf.c:383-422`): the socket, in a configuration that has it. -/
def getListeningSocket (conf : Conf) (addr : SockAddr) : ConfListeningSocket × Conf :=
  match findListeningSocket conf addr with
  | some cls => (cls, conf)
  | none =>
    let cls : ConfListeningSocket := ⟨addr, false, []⟩
    (cls, { conf with
      listeningSockets := treeInsert compareListeningSockets cls conf.listeningSockets })

/-- A socket in its tree after a change. -/
def putListeningSocket (cls : ConfListeningSocket) (l : List ConfListeningSocket) :
    List ConfListeningSocket :=
  l.map fun old => if old.listenAddress = cls.listenAddress then cls else old

/-- `add_listen_peer` (`conf.c:425-465`): `none` is the return value -1. -/
def addListenPeer (conf : Conf) (addr : SockAddr) (cle : ConfListenEntry) : Option Conf :=
  let (cls, conf) := getListeningSocket conf addr
  if cls.haveWildcardListenEntry ∧ cle.fpType = .any then none
  else
    let cls := { cls with
      listenEntries := treeInsert compareListenEntries cle cls.listenEntries
      haveWildcardListenEntry := cls.haveWildcardListenEntry || cle.fpType = .any }
    some { conf with listeningSockets := putListeningSocket cls conf.listeningSockets }

/-- `add_connect_peer` (`conf.c:245-304`), for an address that it can parse. -/
def addConnectPeer (conf : Conf) (cce : ConfConnectEntry) : Option Conf :=
  match Avl.insert compareConnectEntries cce conf.connectEntries with
  | none => none
  | some l => some { conf with connectEntries := l }

/-- The call in which `parse_config_peer` ends for a section. -/
inductive PeerObject where
  | connect (cce : ConfConnectEntry)
  | listen (addr : SockAddr) (cle : ConfListenEntry)

/-- The costs that `parse_config_peer` lets through (`conf.c:556-572`). -/
def CostOk (cost : Int) : Prop := cost = 0 ∨ (1 ≤ cost ∧ cost ≤ 32767)

/-- What `parse_config_peer` has checked (`conf.c:489-591`). -/
def PeerObject.Checked : PeerObject → Prop
  | connect cce => cce.peerType ≠ .invalid ∧ CostOk cce.cost
  | listen _ cle => cle.fpType ≠ .cname ∧ cle.peerType ≠ .invalid ∧ CostOk cle.cost ∧
      1 ≤ cle.connLimit

/-- `parse_config_peer` (`conf.c:467-602`) for one section. -/
def parseConfigPeer (conf : Conf) : PeerObject → Option Conf
  | .connect cce => addConnectPeer conf cce
  | .listen addr cle => addListenPeer conf addr cle

/-- `parse_config` (`conf.c:604-661`) over the sections. -/
def parseConfig (objs : List PeerObject) : Option Conf :=
  objs.foldlM parseConfigPeer { connectEntries := [], listeningSockets := [] }

/-- The configurations that `parse_config` returns. -/
def Conf.Parsed (conf : Conf) : Prop :=
  ∃ objs, (∀ o ∈ objs, o.Checked) ∧ parseConfig objs = some conf

/-! ## The orders of the trees -/

section Orders

variable {a b : SockAddr}

theorem strcmp_neg {a b : CString} : strcmp a b < 0 ↔ a < b := by
  unfold strcmp
  split_ifs with h h'
  · exact ⟨fun _ => h, fun _ => by decide⟩
  · exact ⟨fun hf => absurd hf (by decide), fun hf => absurd hf h⟩
  · exact ⟨fun hf => absurd hf (by decide), fun hf => absurd hf h⟩

theorem strcmp_zero {a b : CString} : strcmp a b = 0 ↔ a = b := by
  unfold strcmp
  split_ifs with h h'
  · exact ⟨fun hf => absurd hf (by decide), fun e => absurd (e ▸ h) (lt_irrefl _)⟩
  · exact ⟨fun _ => h', fun _ => rfl⟩
  · exact ⟨fun hf => absurd hf (by decide), fun hf => absurd hf h'⟩

theorem compareListenEntries_orders : Avl.Orders compareListenEntries ConfListenEntry.name :=
  ⟨fun _ _ => strcmp_neg, fun _ _ => strcmp_zero⟩

theorem compareConnectEntries_orders : Avl.Orders compareConnectEntries ConfConnectEntry.name :=
  ⟨fun _ _ => strcmp_neg, fun _ _ => strcmp_zero⟩

theorem memcmp_all_neg {x y : Bytes} (h : x.length = y.length) :
    memcmp x y x.length < 0 ↔ x < y := by
  unfold memcmp
  rw [List.take_length, h, List.take_length]
  split_ifs with hlt he
  · exact ⟨fun _ => hlt, fun _ => by decide⟩
  · exact ⟨fun hf => absurd hf (by decide), fun hf => absurd hf hlt⟩
  · exact ⟨fun hf => absurd hf (by decide), fun hf => absurd hf hlt⟩

namespace SockAddr

theorem length_port (a : SockAddr) : a.port.length = 2 := by
  cases a with
  | inet _ p => exact p.2
  | inet6 _ p => exact p.2

theorem length_addr (h : a.family = b.family) : a.addr.length = b.addr.length := by
  cases a with
  | inet x _ =>
    cases b with
    | inet y _ => exact x.2.trans y.2.symm
    | inet6 _ _ => exact absurd h (by simp [family])
  | inet6 x _ =>
    cases b with
    | inet _ _ => exact absurd h (by simp [family])
    | inet6 y _ => exact x.2.trans y.2.symm

theorem place_injective : Function.Injective place := by
  intro a b h
  obtain ⟨hf, h⟩ := Prod.mk.inj (toLex_inj.mp h)
  obtain ⟨ha, hp⟩ := Prod.mk.inj (toLex_inj.mp h)
  cases a with
  | inet x p =>
    cases b with
    | inet y q => rw [Subtype.ext (show x.1 = y.1 from ha), Subtype.ext (show p.1 = q.1 from hp)]
    | inet6 _ _ => exact absurd hf (by simp [family])
  | inet6 x p =>
    cases b with
    | inet _ _ => exact absurd hf (by simp [family])
    | inet6 y q => rw [Subtype.ext (show x.1 = y.1 from ha), Subtype.ext (show p.1 = q.1 from hp)]

end SockAddr

/-- `addrcmp` is the lexicographic order of family, address and port. -/
theorem addrcmp_spec : (addrcmp a b < 0 ↔ a.place < b.place) ∧
    (addrcmp a b = 0 ↔ a.place = b.place) := by
  have hport : a.port.length = b.port.length := a.length_port.trans b.length_port.symm
  have hpneg := memcmp_all_neg hport
  have hpzero := memcmp_all a.port b.port hport
  rw [a.length_port] at hpneg hpzero
  unfold addrcmp SockAddr.place
  rw [Prod.Lex.toLex_lt_toLex, Prod.Lex.toLex_lt_toLex, toLex_inj, Prod.mk.injEq, toLex_inj,
    Prod.mk.injEq]
  rcases lt_trichotomy a.family b.family with hf | hf | hf
  · simp [hf, ne_of_lt hf]
  · have hlen := SockAddr.length_addr hf
    have haneg := memcmp_all_neg hlen
    have hazero := memcmp_all a.addr b.addr hlen
    simp only [hf, lt_irrefl, if_false, false_or, true_and]
    by_cases he : a.addr = b.addr
    · rw [if_neg (not_not.mpr (hazero.mpr he))]
      simp only [he, lt_irrefl, false_or, true_and]
      exact ⟨hpneg, hpzero⟩
    · have h0 : memcmp a.addr b.addr a.addr.length ≠ 0 := fun h => he (hazero.mp h)
      rw [if_pos h0]
      simp only [he, false_and, or_false, iff_false]
      exact ⟨haneg, h0⟩
  · simp [not_lt.mpr (le_of_lt hf), hf, ne_of_gt hf]

theorem compareListeningSockets_orders :
    Avl.Orders compareListeningSockets fun cls => cls.listenAddress.place :=
  ⟨fun _ _ => addrcmp_spec.1, fun _ _ => addrcmp_spec.2⟩

end Orders

/-! ## Parsed configurations -/

/-- The listen entries of a socket are in order, match a fingerprint or anything, and at most one
matches anything. -/
structure ConfListeningSocket.Wf (cls : ConfListeningSocket) : Prop where
  sorted : Avl.Sorted ConfListenEntry.name cls.listenEntries
  types : ∀ e ∈ cls.listenEntries, e.fpType ≠ .cname
  wildcard : ∀ e ∈ cls.listenEntries, ∀ e' ∈ cls.listenEntries, e.fpType = .any →
    e'.fpType = .any → e = e'
  flag : ∀ e ∈ cls.listenEntries, e.fpType = .any → cls.haveWildcardListenEntry = true

/-- The trees of a configuration are in order. -/
structure Conf.Wf (conf : Conf) : Prop where
  connect : Avl.Sorted ConfConnectEntry.name conf.connectEntries
  sockets : Avl.Sorted (fun cls => cls.listenAddress.place) conf.listeningSockets
  entries : ∀ cls ∈ conf.listeningSockets, cls.Wf

section Parsed

variable {conf conf' : Conf} {addr : SockAddr} {cls : ConfListeningSocket} {cle : ConfListenEntry}
  {cce : ConfConnectEntry}

theorem mem_treeInsert {α : Type} {cmp : α → α → Int} {x y : α} {l : List α}
    (h : y ∈ treeInsert cmp x l) : y = x ∨ y ∈ l := by
  unfold treeInsert at h
  cases hi : Avl.insert cmp x l with
  | none => exact Or.inr (by simpa [hi] using h)
  | some l' => exact (Avl.mem_insert hi).mp (by simpa [hi] using h)

theorem sorted_treeInsert {α κ : Type} [LinearOrder κ] {cmp : α → α → Int} {key : α → κ} {x : α}
    {l : List α} (ho : Avl.Orders cmp key) (hs : Avl.Sorted key l) :
    Avl.Sorted key (treeInsert cmp x l) := by
  unfold treeInsert
  cases hi : Avl.insert cmp x l with
  | none => exact hs
  | some l' => exact Avl.sorted_insert ho hs hi

/-- The socket of an address, new or not, in a configuration that is in order. -/
theorem getListeningSocket_wf (h : conf.Wf) (addr : SockAddr) :
    (getListeningSocket conf addr).1.Wf ∧ (getListeningSocket conf addr).2.Wf := by
  unfold getListeningSocket
  cases hf : findListeningSocket conf addr with
  | some cls => exact ⟨h.entries cls (Avl.find_mem hf).1, h⟩
  | none =>
    have hnew : ConfListeningSocket.Wf ⟨addr, false, []⟩ :=
      ⟨Avl.sorted_nil, fun _ he => absurd he List.not_mem_nil,
        fun _ he => absurd he List.not_mem_nil, fun _ he => absurd he List.not_mem_nil⟩
    refine ⟨hnew, h.connect, sorted_treeInsert compareListeningSockets_orders h.sockets,
      fun cls hm => ?_⟩
    rcases mem_treeInsert hm with rfl | hm
    · exact hnew
    · exact h.entries cls hm

theorem putListeningSocket_wf (h : conf.Wf) (hc : cls.Wf) :
    Conf.Wf { conf with listeningSockets := putListeningSocket cls conf.listeningSockets } := by
  have hplace : ∀ l : List ConfListeningSocket,
      (putListeningSocket cls l).map ConfListeningSocket.listenAddress =
        l.map ConfListeningSocket.listenAddress := by
    intro l
    unfold putListeningSocket
    rw [List.map_map]
    refine List.map_congr_left fun old _ => ?_
    simp only [Function.comp]
    split_ifs with he
    · exact he.symm
    · rfl
  refine ⟨h.connect, ?_, fun cls' hm => ?_⟩
  · have hs : ((conf.listeningSockets.map ConfListeningSocket.listenAddress).Pairwise
        fun a b => a.place < b.place) := List.pairwise_map.mpr h.sockets
    rw [← hplace] at hs
    have hput := List.pairwise_map.mp hs
    exact hput
  · obtain ⟨old, hold, rfl⟩ := List.mem_map.mp hm
    split_ifs
    · exact hc
    · exact h.entries old hold

theorem addListenPeer_wf (h : conf.Wf) (hcle : cle.fpType ≠ .cname)
    (hadd : addListenPeer conf addr cle = some conf') : conf'.Wf := by
  obtain ⟨hcls, hconf⟩ := getListeningSocket_wf h addr
  unfold addListenPeer at hadd
  generalize getListeningSocket conf addr = r at hadd hcls hconf
  obtain ⟨cls, conf₁⟩ := r
  simp only at hadd hcls hconf
  split_ifs at hadd with hany
  obtain rfl := Option.some.inj hadd
  refine putListeningSocket_wf hconf ?_
  have hnone : cle.fpType = .any → ∀ e ∈ cls.listenEntries, e.fpType ≠ .any :=
    fun ht e he hte => hany ⟨hcls.flag e he hte, ht⟩
  refine ⟨sorted_treeInsert compareListenEntries_orders hcls.sorted, ?_, ?_, ?_⟩
  · intro e he
    rcases mem_treeInsert he with rfl | he
    · exact hcle
    · exact hcls.types e he
  · intro e he e' he' ht ht'
    rcases mem_treeInsert he with rfl | hold <;> rcases mem_treeInsert he' with rfl | hold'
    · rfl
    · exact absurd ht' (hnone ht e' hold')
    · exact absurd ht (hnone ht' e hold)
    · exact hcls.wildcard e hold e' hold' ht ht'
  · intro e he ht
    rcases mem_treeInsert he with rfl | he
    · simp [ht]
    · simp [hcls.flag e he ht]

theorem addConnectPeer_wf (h : conf.Wf) (hadd : addConnectPeer conf cce = some conf') :
    conf'.Wf := by
  unfold addConnectPeer at hadd
  cases hi : Avl.insert compareConnectEntries cce conf.connectEntries with
  | none => simp [hi] at hadd
  | some l =>
    rw [hi] at hadd
    obtain rfl := Option.some.inj hadd
    exact ⟨Avl.sorted_insert compareConnectEntries_orders h.connect hi, h.sockets, h.entries⟩

/-- **Parsed configurations are in order.** -/
theorem Conf.Parsed.wf (h : conf.Parsed) : conf.Wf := by
  obtain ⟨objs, hc, hp⟩ := h
  have hall : ∀ (objs : List PeerObject) (conf₀ : Conf), conf₀.Wf → (∀ o ∈ objs, o.Checked) →
      objs.foldlM parseConfigPeer conf₀ = some conf → conf.Wf := by
    intro objs
    induction objs with
    | nil =>
      intro conf₀ h0 _ hp
      obtain rfl := Option.some.inj hp
      exact h0
    | cons o objs ih =>
      intro conf₀ h0 hc hp
      rw [List.foldlM_cons] at hp
      obtain ⟨conf₁, h1, hp⟩ := Option.bind_eq_some_iff.mp hp
      refine ih conf₁ ?_ (fun o' ho => hc o' (List.mem_cons_of_mem o ho)) hp
      have hco := hc o List.mem_cons_self
      cases o with
      | connect cce => exact addConnectPeer_wf h0 h1
      | listen addr cle => exact addListenPeer_wf h0 hco.1 h1
  exact hall objs _ ⟨Avl.sorted_nil, Avl.sorted_nil, fun _ hm => absurd hm List.not_mem_nil⟩ hc hp

end Parsed

end Dvpn
