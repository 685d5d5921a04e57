import Dvpn.Dgp.Connect

/-!
# Connections from neighbours (`dgp_listen.c`)

A `dgp_listen_socket` accepts connections on port 173. One that comes from port 173 of the
link-local address of a neighbour is the connection of that neighbour, and takes the place of the
one before; any other one may only read, if that is permitted. A connection has its fd, and a
`dgp_reader` and a `dgp_writer` with their keepalive timers; `conn_kill` takes all of it back,
wherever it is called.

* Connections and entries are pointers. An access to what is freed, and a `close` of what is not
  open, is a `DgpListenCrash`. `Registry` has what is registered with ivykis or with a RIB.
* `Accepted`, `ReadResult`, `OutputResult` and `Dump` say what the system calls of an event return.
* A change of the RIB reaches each writer with an event of its own: `recompute_rid` goes over its
  listeners with `iv_list_for_each_safe`, and a writer that fails takes only itself off the list.

Every step emits for whom bytes were received, and from where they came.

* `connKill_spec`: what `conn_kill` leaves.
* `dgpListen_disciplined`: nothing is used that is freed, and exactly what the connections need is
  allocated, open and registered.
* `dgpListen_admits`: who can tell us something in the name of a neighbour.
-/

namespace Dvpn

/-! ## The code -/

/-- `v6_linklocal_addr_from_key_id`. -/
def v6LinklocalAddrFromKeyId (id : NodeId) : Bytes :=
  [0xfe, 0x80] ++ (id.1.drop ((NODE_ID_LEN - 14) / 2)).take 14

/-- The port of the protocol. -/
def DGP_PORT : Nat := 173

/-- The address and the port of the other side. -/
structure DgpPeer where
  addr : Bytes
  port : Nat
  deriving DecidableEq

/-- `struct conn`: the entry, the fd, and where it comes from. -/
structure DgpConn where
  dle : Option Nat
  fd : Nat
  peer : DgpPeer

/-- What is registered: the listening fd, and what belongs to a connection. -/
inductive DgpListenResource where
  | listenFd
  | conn (p : Nat) (r : DgpResource)
  deriving DecidableEq

inductive DgpListenCrash where
  | freed
  | notOpen
  deriving DecidableEq, Repr

/-- `struct dgp_listen_socket` with its entries (`remoteid` and `current` of each), and what is
allocated, open and registered. -/
structure DgpListen where
  permitReadonly : Bool
  remoteid : Nat → NodeId
  listenFd : Option Nat
  listenEntries : List Nat
  readonlyConns : List Nat
  current : Nat → Option Nat
  conns : Nat → Option DgpConn
  fds : Finset Nat
  reg : Registry DgpListenResource

/-- What `accept` gives, where `malloc` finds room for the connection, and what becomes of the
dump. -/
structure Accepted where
  fd : Nat
  inet6 : Bool
  peer : DgpPeer
  conn : Option Nat
  dump : Dump

namespace DgpListen

/-- `find_entry_by_addr`. -/
def findEntryByAddr (s : DgpListen) (addr : Bytes) : Option Nat :=
  s.listenEntries.find? fun e => addr = v6LinklocalAddrFromKeyId (s.remoteid e)

/-- What a pointer to a connection points to. -/
def deref (s : DgpListen) (p : Nat) : Except DgpListenCrash DgpConn :=
  match s.conns p with
  | some conn => .ok conn
  | none => .error .freed

/-- `dle->current = current`. -/
def setCurrent (s : DgpListen) (e : Nat) (current : Option Nat) :
    Except DgpListenCrash DgpListen :=
  if e ∈ s.listenEntries then .ok { s with current := Function.update s.current e current }
  else .error .freed

/-- `iv_list_del(&conn->list_readonly)`. -/
def unlink (s : DgpListen) (p : Nat) : Except DgpListenCrash DgpListen :=
  if p ∈ s.readonlyConns then .ok { s with readonlyConns := s.readonlyConns.erase p }
  else .error .freed

/-- `close`. -/
def close (s : DgpListen) (fd : Nat) : Except DgpListenCrash DgpListen :=
  if fd ∈ s.fds then .ok { s with fds := s.fds.erase fd } else .error .notOpen

/-- `dgp_reader_register` of a connection; `remote` says that there is a `remoteid`. -/
def readerRegister (reg : Registry DgpListenResource) (p : Nat) (remote : Bool) :
    Registry DgpListenResource :=
  let reg := if remote then reg.register (.conn p .reader) else reg
  (reg.initialise (.conn p .keepaliveTimeout)).register (.conn p .keepaliveTimeout)

/-- `dgp_reader_unregister`. -/
def readerUnregister (reg : Registry DgpListenResource) (p : Nat) (remote : Bool) :
    Registry DgpListenResource :=
  let reg := if remote then reg.unregister (.conn p .reader) else reg
  if .conn p .keepaliveTimeout ∈ reg.held then reg.unregister (.conn p .keepaliveTimeout) else reg

/-- `dgp_writer_unregister`. -/
def writerUnregister (reg : Registry DgpListenResource) (p : Nat) : Registry DgpListenResource :=
  (reg.unregister (.conn p .writer)).unregister (.conn p .keepaliveTimer)

/-- The first statement of `conn_kill`. -/
def detach (s : DgpListen) (p : Nat) (conn : DgpConn) : Except DgpListenCrash DgpListen :=
  match conn.dle with
  | some e => s.setCurrent e none
  | none => s.unlink p

/-- `conn_kill`. -/
def connKill (s : DgpListen) (p : Nat) : Except DgpListenCrash DgpListen := do
  let conn ← s.deref p
  let s ← s.detach p conn
  let s ← { s with reg := s.reg.unregister (.conn p .fd) }.close conn.fd
  return { s with
    reg := readerUnregister (writerUnregister s.reg p) p conn.dle.isSome
    conns := Function.update s.conns p none }

/-- `if (dle->current != NULL) conn_kill(dle->current)`. -/
def killCurrent (s : DgpListen) (e : Nat) : Except DgpListenCrash DgpListen :=
  match s.current e with
  | some p => s.connKill p
  | none => .ok s

/-- `dgp_writer_output_lsa`, and whether it returns 1. -/
def outputLsa (s : DgpListen) (p : Nat) (r : OutputResult) :
    Except DgpListenCrash (DgpListen × Bool) := do
  let _ ← s.deref p
  match r with
  | .kept => return (s, false)
  | .written => return ({ s with reg := s.reg.rearm (.conn p .keepaliveTimer) }, false)
  | .failed =>
    let s ← s.connKill p
    return (s, true)

/-- `dgp_writer_send_keepalive`, and whether it returns 1. -/
def sendKeepalive (s : DgpListen) (p : Nat) (written : Bool) :
    Except DgpListenCrash (DgpListen × Bool) := do
  let _ ← s.deref p
  if written then return (s, false)
  else
    let s ← s.connKill p
    return (s, true)

/-- `cork_fd` of `dw->fd`. -/
def corkFd (s : DgpListen) (p : Nat) : Except DgpListenCrash Unit := do
  let conn ← s.deref p
  if conn.fd ∈ s.fds then return () else throw .notOpen

/-- The loop of `dgp_writer_rib_dump`, and whether it returns early. -/
def dumpLoop (s : DgpListen) (p : Nat) :
    List (Option OutputResult) → Except DgpListenCrash (DgpListen × Bool)
  | [] => return (s, false)
  | none :: ids => dumpLoop s p ids
  | some r :: ids => do
    let (s, failed) ← s.outputLsa p r
    if failed then return (s, true) else dumpLoop s p ids

/-- `dgp_writer_rib_dump`. -/
def ribDump (s : DgpListen) (p : Nat) (dump : Dump) : Except DgpListenCrash DgpListen := do
  if dump.ids.isEmpty then
    let (s, _) ← s.sendKeepalive p dump.keepalive
    return s
  else
    s.corkFd p
    let (s, failed) ← s.dumpLoop p dump.ids
    if failed then return s
    else
      let (s, failed) ← s.sendKeepalive p dump.keepalive
      if failed then return s
      else
        s.corkFd p
        return s

/-- `dgp_writer_register`. -/
def writerRegister (s : DgpListen) (p : Nat) (dump : Dump) : Except DgpListenCrash DgpListen :=
  let reg := s.reg.register (.conn p .writer)
  let reg := (reg.initialise (.conn p .keepaliveTimer)).register (.conn p .keepaliveTimer)
  { s with reg := reg }.ribDump p dump

/-- A connection takes its place in `got_connection`. -/
def attach (s : DgpListen) (p : Nat) : Option Nat → Except DgpListenCrash DgpListen
  | some e => do
    let s ← s.killCurrent e
    s.setCurrent e (some p)
  | none => .ok { s with readonlyConns := s.readonlyConns ++ [p] }

/-- `got_connection`. -/
def gotConnection (s : DgpListen) : Option Accepted → Except DgpListenCrash DgpListen
  | none => return s
  | some a => do
    let s := { s with fds := insert a.fd s.fds }
    if !a.inet6 then s.close a.fd
    else
      let dle := if a.peer.port = DGP_PORT then s.findEntryByAddr a.peer.addr else none
      if dle.isNone ∧ !s.permitReadonly then s.close a.fd
      else
        match a.conn with
        | none => s.close a.fd
        | some p => do
          let s ← s.attach p dle
          let s := { s with
            conns := Function.update s.conns p (some ⟨dle, a.fd, a.peer⟩)
            reg := readerRegister (s.reg.register (.conn p .fd)) p dle.isSome }
          s.writerRegister p a.dump

/-- `dgp_listen_socket_register`, which may fail. -/
def socketRegister (s : DgpListen) : Option Nat → DgpListen
  | none => s
  | some fd =>
    { s with
      listenFd := some fd
      fds := insert fd s.fds
      reg := s.reg.register .listenFd
      listenEntries := []
      readonlyConns := [] }

/-- `dgp_listen_entry_register`. -/
def entryRegister (s : DgpListen) (e : Nat) : DgpListen :=
  { s with
    listenEntries := s.listenEntries ++ [e]
    current := Function.update s.current e none }

/-- `dgp_listen_entry_unregister`. -/
def entryUnregister (s : DgpListen) (e : Nat) : Except DgpListenCrash DgpListen := do
  let s ← s.killCurrent e
  return { s with listenEntries := s.listenEntries.erase e }

/-- `dgp_listen_entry_reset`. -/
def entryReset (s : DgpListen) (e : Nat) : Except DgpListenCrash DgpListen :=
  match s.current e with
  | some p => do
    let s ← s.connKill p
    s.setCurrent e none
  | none => return s

/-- `dgp_listen_socket_unregister`: its loops go over the lists as they are at the start, and each
turn takes its own element off. -/
def socketUnregister (s : DgpListen) : Except DgpListenCrash DgpListen :=
  match s.listenFd with
  | none => .error .notOpen
  | some fd => do
    let s ← { s with reg := s.reg.unregister .listenFd }.close fd
    let s := { s with listenFd := none }
    let s ← s.listenEntries.foldlM entryUnregister s
    s.readonlyConns.foldlM connKill s

/-- `handle_dgp_read`, with the timer of `dgp_reader_read`: whether bytes were received. -/
def handleDgpRead (s : DgpListen) (p : Nat) (r : ReadResult) :
    Except DgpListenCrash (DgpListen × Bool) := do
  let conn ← s.deref p
  if conn.fd ∉ s.fds then throw .notOpen
  match r with
  | .again => return (s, false)
  | .closed =>
    let s ← s.connKill p
    return (s, false)
  | .accepted => return ({ s with reg := s.reg.rearm (.conn p .keepaliveTimeout) }, true)
  | .rejected =>
    let s ← { s with reg := s.reg.rearm (.conn p .keepaliveTimeout) }.connKill p
    return (s, true)

/-- `dgp_writer_keepalive_timer`. -/
def writerKeepaliveTimer (s : DgpListen) (p : Nat) (written : Bool) :
    Except DgpListenCrash DgpListen := do
  let (s, _) ← { s with reg := s.reg.register (.conn p .keepaliveTimer) }.sendKeepalive p written
  return s

end DgpListen

/-- What happens to a socket: what its owner calls, and the events. -/
inductive DgpListenOp where
  | socketRegister (fd : Option Nat)
  | socketUnregister
  | entryRegister (e : Nat)
  | entryUnregister (e : Nat)
  | entryReset (e : Nat)
  | accept (a : Option Accepted)
  | read (p : Nat) (r : ReadResult)
  | keepaliveTimeout (p : Nat)
  | keepaliveTimer (p : Nat) (written : Bool)
  | change (p : Nat) (r : OutputResult)

/-- For whom bytes are received from a connection, and where they come from. A connection that may
only read has no `adj_rib_in`. -/
def DgpListen.received (s : DgpListen) (p : Nat) : List (NodeId × DgpPeer) :=
  match s.conns p with
  | some conn => conn.dle.toList.map fun e => (s.remoteid e, conn.peer)
  | none => []

/-- One step. -/
def dgpListenStep (s : DgpListen) :
    DgpListenOp → Except DgpListenCrash (DgpListen × List (NodeId × DgpPeer))
  | .socketRegister fd => return (s.socketRegister fd, [])
  | .socketUnregister => do
    let s ← s.socketUnregister
    return (s, [])
  | .entryRegister e => return (s.entryRegister e, [])
  | .entryUnregister e => do
    let s ← s.entryUnregister e
    return (s, [])
  | .entryReset e => do
    let s ← s.entryReset e
    return (s, [])
  | .accept a => do
    let s ← s.gotConnection a
    return (s, [])
  | .read p r => do
    let (s', received) ← s.handleDgpRead p r
    return (s', if received then s.received p else [])
  | .keepaliveTimeout p => do
    let s ← { s with reg := s.reg.expire (.conn p .keepaliveTimeout) }.connKill p
    return (s, [])
  | .keepaliveTimer p written => do
    let s ← { s with reg := s.reg.expire (.conn p .keepaliveTimer) }.writerKeepaliveTimer p written
    return (s, [])
  | .change p r => do
    let (s, _) ← s.outputLsa p r
    return (s, [])

/-- What can happen: the kernel and `malloc` give what is not in use, the owner registers an entry
once, on a socket that it has registered, and an event comes from what is registered. -/
def DgpListenOp.Allowed (s : DgpListen) : DgpListenOp → Prop
  | .socketRegister fd => s.listenFd = none ∧ ∀ n ∈ fd, n ∉ s.fds
  | .socketUnregister => s.listenFd ≠ none
  | .entryRegister e => s.listenFd ≠ none ∧ e ∉ s.listenEntries
  | .entryUnregister e => e ∈ s.listenEntries
  | .entryReset e => e ∈ s.listenEntries
  | .accept a =>
    .listenFd ∈ s.reg.held ∧ ∀ x ∈ a, x.fd ∉ s.fds ∧ ∀ p ∈ x.conn, s.conns p = none
  | .read p _ => .conn p .fd ∈ s.reg.held
  | .keepaliveTimeout p => .conn p .keepaliveTimeout ∈ s.reg.held
  | .keepaliveTimer p _ => .conn p .keepaliveTimer ∈ s.reg.held
  | .change p _ => .conn p .writer ∈ s.reg.held

/-- A socket before it is registered. -/
def DgpListen.initial (permitReadonly : Bool) (remoteid : Nat → NodeId) : DgpListen where
  permitReadonly := permitReadonly
  remoteid := remoteid
  listenFd := none
  listenEntries := []
  readonlyConns := []
  current _ := none
  conns _ := none
  fds := ∅
  reg := .empty

/-! ## What holds between two events -/

/-- What is registered for a connection. -/
def DgpConn.resources (c : DgpConn) : Finset DgpResource :=
  if c.dle.isSome then {.fd, .reader, .keepaliveTimeout, .writer, .keepaliveTimer}
  else {.fd, .keepaliveTimeout, .writer, .keepaliveTimer}

namespace DgpListen

/-- What a resource belongs to is there. -/
def Needs (s : DgpListen) : DgpListenResource → Prop
  | .listenFd => s.listenFd ≠ none
  | .conn p r => ∃ c, s.conns p = some c ∧ r ∈ c.resources

/-- Where a connection may come from. -/
def Admitted (s : DgpListen) (c : DgpConn) : Prop :=
  match c.dle with
  | some e => c.peer.port = DGP_PORT ∧ c.peer.addr = v6LinklocalAddrFromKeyId (s.remoteid e)
  | none => s.permitReadonly = true

/-- Every connection is in its place: it is the current one of its entry, or on the list of those
that may only read; and every open fd is that of the socket or of one connection, or it is `spare`,
which `accept` has just given. -/
structure Placed (s : DgpListen) (spare : Option Nat) : Prop where
  current : ∀ e p, s.current e = some p ↔ ∃ c, s.conns p = some c ∧ c.dle = some e
  readonly : ∀ p, p ∈ s.readonlyConns ↔ ∃ c, s.conns p = some c ∧ c.dle = none
  nodup : s.readonlyConns.Nodup ∧ s.listenEntries.Nodup
  entries : ∀ p c e, s.conns p = some c → c.dle = some e → e ∈ s.listenEntries
  fds : ∀ fd, fd ∈ s.fds ↔
    (spare = some fd ∨ s.listenFd = some fd) ∨ ∃ p c, s.conns p = some c ∧ c.fd = fd
  distinct : ∀ p c, s.conns p = some c → (spare ≠ some c.fd ∧ s.listenFd ≠ some c.fd) ∧
    ∀ q c', s.conns q = some c' → c'.fd = c.fd → q = p
  admitted : ∀ p c, s.conns p = some c → s.Admitted c

/-- And exactly what is needed is registered. -/
structure Sound (s : DgpListen) (spare : Option Nat) : Prop where
  placed : s.Placed spare
  misuses : s.reg.misuses = []
  held : ∀ r, r ∈ s.reg.held ↔ s.Needs r

/-- A socket that is not registered has nothing. -/
def Idle (s : DgpListen) : Prop :=
  s.listenFd = none → s.listenEntries = [] ∧ s.readonlyConns = []

/-- What is set up by the owner. -/
structure SameConfig (s s' : DgpListen) : Prop where
  permitReadonly : s'.permitReadonly = s.permitReadonly
  remoteid : s'.remoteid = s.remoteid

/-- What the connections do not change. -/
structure SameSocket (s s' : DgpListen) : Prop where
  permitReadonly : s'.permitReadonly = s.permitReadonly
  remoteid : s'.remoteid = s.remoteid
  listenFd : s'.listenFd = s.listenFd
  listenEntries : s'.listenEntries = s.listenEntries

variable {s s' : DgpListen} {p q e : Nat} {c : DgpConn} {reg : Registry DgpListenResource}
  {spare : Option Nat}

theorem SameConfig.trans {s'' : DgpListen} (h : SameConfig s s') (h' : SameConfig s' s'') :
    SameConfig s s'' :=
  ⟨h'.permitReadonly.trans h.permitReadonly, h'.remoteid.trans h.remoteid⟩

theorem SameSocket.config (h : SameSocket s s') : SameConfig s s' :=
  ⟨h.permitReadonly, h.remoteid⟩

theorem SameSocket.refl (s : DgpListen) : SameSocket s s := ⟨rfl, rfl, rfl, rfl⟩

theorem SameSocket.trans {s'' : DgpListen} (h : SameSocket s s') (h' : SameSocket s' s'') :
    SameSocket s s'' where
  permitReadonly := h'.permitReadonly.trans h.permitReadonly
  remoteid := h'.remoteid.trans h.remoteid
  listenFd := h'.listenFd.trans h.listenFd
  listenEntries := h'.listenEntries.trans h.listenEntries

theorem mem_resources {r : DgpResource} : r ∈ c.resources ↔
    r = .fd ∨ r = .keepaliveTimeout ∨ r = .writer ∨ r = .keepaliveTimer ∨
      r = .reader ∧ c.dle.isSome = true := by
  unfold DgpConn.resources
  cases c.dle <;> cases r <;> simp

/-- A timer that is unregistered if it is registered. -/
theorem unregister_timer (reg : Registry DgpListenResource) (r : DgpListenResource) :
    let reg' := if r ∈ reg.held then reg.unregister r else reg
    reg'.misuses = reg.misuses ∧ ∀ x, x ∈ reg'.held ↔ x ≠ r ∧ x ∈ reg.held := by
  dsimp only
  split_ifs with h
  · exact ⟨Registry.misuses_unregister h, fun x => Registry.mem_unregister⟩
  · refine ⟨rfl, fun x => ⟨fun hx => ⟨?_, hx⟩, fun hx => hx.2⟩⟩
    rintro rfl
    exact h hx

/-- What `conn_kill` unregisters: everything, whether the timer of the reader is registered or
not. -/
theorem unregister_spec (hneeds : ∀ x ∈ c.resources, x ≠ .keepaliveTimeout → .conn p x ∈ reg.held)
    (honly : ∀ x, .conn p x ∈ reg.held → x ∈ c.resources) :
    let reg' := readerUnregister (writerUnregister (reg.unregister (.conn p .fd)) p) p c.dle.isSome
    reg'.misuses = reg.misuses ∧ ∀ r, r ∈ reg'.held ↔ r ∈ reg.held ∧ ∀ x, r ≠ .conn p x := by
  have hfd := hneeds .fd (by simp [mem_resources]) (by decide)
  have hwriter := hneeds .writer (by simp [mem_resources]) (by decide)
  have htimer := hneeds .keepaliveTimer (by simp [mem_resources]) (by decide)
  obtain ⟨reg₁, hreg₁, hmisuses₁, hheld₁⟩ : ∃ reg₁,
      writerUnregister (reg.unregister (.conn p .fd)) p = reg₁ ∧ reg₁.misuses = reg.misuses ∧
        ∀ r, r ∈ reg₁.held ↔ r ≠ .conn p .keepaliveTimer ∧ r ≠ .conn p .writer ∧
          r ≠ .conn p .fd ∧ r ∈ reg.held := by
    refine ⟨_, rfl, ?_, fun r => ?_⟩
    · unfold writerUnregister
      rw [Registry.misuses_unregister, Registry.misuses_unregister,
        Registry.misuses_unregister hfd]
      · exact Registry.mem_unregister.mpr ⟨by simp, hwriter⟩
      · exact Registry.mem_unregister.mpr ⟨by simp, Registry.mem_unregister.mpr ⟨by simp, htimer⟩⟩
    · unfold writerUnregister
      rw [Registry.mem_unregister, Registry.mem_unregister, Registry.mem_unregister]
  rw [hreg₁]
  obtain ⟨reg₂, hreg₂, hmisuses₂, hheld₂⟩ : ∃ reg₂,
      (if c.dle.isSome = true then reg₁.unregister (.conn p .reader) else reg₁) = reg₂ ∧
        reg₂.misuses = reg₁.misuses ∧
        ∀ r, r ∈ reg₂.held ↔ ¬(c.dle.isSome = true ∧ r = .conn p .reader) ∧ r ∈ reg₁.held := by
    refine ⟨_, rfl, ?_, fun r => ?_⟩
    · split_ifs with hremote
      · refine Registry.misuses_unregister ((hheld₁ _).mpr ⟨by simp, by simp, by simp, ?_⟩)
        exact hneeds .reader (by simp [mem_resources, hremote]) (by decide)
      · rfl
    · split_ifs with hremote
      · rw [Registry.mem_unregister]
        simp [hremote]
      · simp [hremote]
  have htimeout := unregister_timer reg₂ (.conn p .keepaliveTimeout)
  unfold readerUnregister
  rw [hreg₂]
  refine ⟨htimeout.1.trans (hmisuses₂.trans hmisuses₁), fun r => ?_⟩
  rw [htimeout.2, hheld₂, hheld₁]
  constructor
  · rintro ⟨h1, h2, h3, h4, h5, hr⟩
    refine ⟨hr, ?_⟩
    rintro x rfl
    obtain rfl | rfl | rfl | rfl | ⟨rfl, hremote⟩ := mem_resources.mp (honly x hr)
    · exact h5 rfl
    · exact h1 rfl
    · exact h4 rfl
    · exact h3 rfl
    · exact h2 ⟨hremote, rfl⟩
  · rintro ⟨hr, hne⟩
    exact ⟨hne _, fun h => hne _ h.2, hne _, hne _, hne _, hr⟩

/-- A connection that is gone leaves the others in their places. -/
theorem Placed.gone (h : s.Placed spare) (hc : s.conns p = some c) (hsame : SameSocket s s')
    (hconns : s'.conns = Function.update s.conns p none)
    (hcurrent : ∀ e q, s'.current e = some q ↔ q ≠ p ∧ s.current e = some q)
    (hreadonly : s'.readonlyConns = s.readonlyConns.erase p)
    (hfds : s'.fds = s.fds.erase c.fd) : s'.Placed spare := by
  have hmem : ∀ q c', s'.conns q = some c' ↔ q ≠ p ∧ s.conns q = some c' := by
    intro q c'
    rw [hconns]
    by_cases hq : q = p
    · subst hq
      simp
    · simp [hq]
  refine ⟨fun e q => ?_, fun q => ?_, ⟨?_, ?_⟩, fun q c' e hq hd => ?_, fun fd => ?_,
    fun q c' hq => ?_, fun q c' hq => ?_⟩
  · rw [hcurrent, h.current]
    simp only [hmem, and_assoc, exists_and_left]
  · rw [hreadonly, h.nodup.1.mem_erase_iff, h.readonly]
    simp only [hmem, and_assoc, exists_and_left]
  · rw [hreadonly]
    exact h.nodup.1.erase p
  · rw [hsame.listenEntries]
    exact h.nodup.2
  · rw [hsame.listenEntries]
    exact h.entries q c' e ((hmem q c').mp hq).2 hd
  · rw [hfds, Finset.mem_erase, h.fds, hsame.listenFd]
    constructor
    · rintro ⟨hne, hl | ⟨q, c', hq, rfl⟩⟩
      · exact Or.inl hl
      · refine Or.inr ⟨q, c', (hmem q c').mpr ⟨?_, hq⟩, rfl⟩
        rintro rfl
        cases hc.symm.trans hq
        exact hne rfl
    · rintro (hl | ⟨q, c', hq, rfl⟩)
      · refine ⟨?_, Or.inl hl⟩
        rintro rfl
        exact hl.elim (h.distinct p c hc).1.1 (h.distinct p c hc).1.2
      · obtain ⟨hne, hq⟩ := (hmem q c').mp hq
        exact ⟨fun he => hne ((h.distinct p c hc).2 q c' hq he), Or.inr ⟨q, c', hq, rfl⟩⟩
  · obtain ⟨-, hq⟩ := (hmem q c').mp hq
    rw [hsame.listenFd]
    obtain ⟨hfree, hone⟩ := h.distinct q c' hq
    exact ⟨hfree, fun r c'' hr => hone r c'' ((hmem r c'').mp hr).2⟩
  · have ha := h.admitted q c' ((hmem q c').mp hq).2
    unfold Admitted at ha ⊢
    rw [hsame.remoteid, hsame.permitReadonly]
    exact ha

/-- **`conn_kill`** takes a connection back, with all that it has. -/
theorem connKill_spec (h : s.Placed spare) (hc : s.conns p = some c)
    (hneeds : ∀ x ∈ c.resources, x ≠ .keepaliveTimeout → .conn p x ∈ s.reg.held)
    (honly : ∀ x, .conn p x ∈ s.reg.held → x ∈ c.resources) :
    ∃ s', s.connKill p = .ok s' ∧ s'.Placed spare ∧ SameSocket s s' ∧
      s'.conns = Function.update s.conns p none ∧ s'.reg.misuses = s.reg.misuses ∧
      (∀ r, r ∈ s'.reg.held ↔ r ∈ s.reg.held ∧ ∀ x, r ≠ .conn p x) ∧
      s'.readonlyConns = s.readonlyConns.erase p := by
  obtain ⟨hmisuses, hheld⟩ := unregister_spec hneeds honly
  -- it is taken off its entry, or off the list
  obtain ⟨current, hplace, hcurrent⟩ : ∃ current,
      s.detach p c = .ok { s with current := current, readonlyConns := s.readonlyConns.erase p } ∧
        ∀ e q, current e = some q ↔ q ≠ p ∧ s.current e = some q := by
    unfold detach
    cases hdle : c.dle with
    | some e =>
      have he := h.entries p c e hc hdle
      have hp : s.current e = some p := (h.current e p).mpr ⟨c, hc, hdle⟩
      have hnot : p ∉ s.readonlyConns := fun hr => by
        obtain ⟨c', hc', hnone⟩ := (h.readonly p).mp hr
        cases hc.symm.trans hc'
        exact nomatch hdle.symm.trans hnone
      refine ⟨Function.update s.current e none, ?_, fun e' q => ?_⟩
      · rw [List.erase_of_not_mem hnot]
        exact if_pos he
      · by_cases heq : e' = e
        · subst heq
          rw [Function.update_self, hp]
          exact ⟨fun h0 => (nomatch h0), fun h0 => absurd (Option.some.inj h0.2).symm h0.1⟩
        · rw [Function.update_of_ne heq]
          refine ⟨fun hq => ⟨?_, hq⟩, fun hq => hq.2⟩
          rintro rfl
          obtain ⟨c', hc', hdle'⟩ := (h.current e' q).mp hq
          cases hc.symm.trans hc'
          exact heq (Option.some.inj (hdle'.symm.trans hdle))
    | none =>
      refine ⟨s.current, if_pos ((h.readonly p).mpr ⟨c, hc, hdle⟩), fun e' q => ?_⟩
      refine ⟨fun hq => ⟨?_, hq⟩, fun hq => hq.2⟩
      rintro rfl
      obtain ⟨c', hc', hdle'⟩ := (h.current e' q).mp hq
      cases hc.symm.trans hc'
      exact nomatch hdle'.symm.trans hdle
  have hfd : c.fd ∈ s.fds := (h.fds _).mpr (Or.inr ⟨p, c, hc, rfl⟩)
  let s' : DgpListen := { s with
    current := current
    readonlyConns := s.readonlyConns.erase p
    fds := s.fds.erase c.fd
    reg := readerUnregister (writerUnregister (s.reg.unregister (.conn p .fd)) p) p c.dle.isSome
    conns := Function.update s.conns p none }
  have hsame : SameSocket s s' := ⟨rfl, rfl, rfl, rfl⟩
  refine ⟨s', ?_, h.gone hc hsame rfl hcurrent rfl rfl, hsame, rfl, hmisuses, hheld, rfl⟩
  unfold connKill deref
  rw [hc]
  refine bind_eq_ok.mpr ⟨c, rfl, bind_eq_ok.mpr ⟨_, hplace, bind_eq_ok.mpr ⟨_, if_pos hfd, rfl⟩⟩⟩

/-- **`conn_kill`** of a connection, also while the timer of its reader has expired. -/
theorem Sound.kill (h : s.Sound spare) (hc : s.conns p = some c)
    (hreg : reg = s.reg ∨ reg = s.reg.expire (.conn p .keepaliveTimeout)) :
    ∃ s', { s with reg := reg }.connKill p = .ok s' ∧ s'.Sound spare ∧ SameSocket s s' ∧
      s'.conns = Function.update s.conns p none ∧
      s'.readonlyConns = s.readonlyConns.erase p := by
  have hmem : ∀ r, r ≠ .conn p .keepaliveTimeout → (r ∈ reg.held ↔ r ∈ s.reg.held) := by
    intro r hr
    obtain rfl | rfl := hreg
    · rfl
    · exact Finset.mem_erase.trans (and_iff_right hr)
  have hsub : ∀ r, r ∈ reg.held → r ∈ s.reg.held := by
    intro r hr
    obtain rfl | rfl := hreg
    · exact hr
    · exact (Finset.mem_erase.mp hr).2
  have hplaced : Placed { s with reg := reg } spare := ⟨h.placed.current, h.placed.readonly,
    h.placed.nodup, h.placed.entries, h.placed.fds, h.placed.distinct, h.placed.admitted⟩
  obtain ⟨s', hkill, hp, hsame, hconns, hmisuses, hheld, hreadonly⟩ := connKill_spec hplaced hc
    (fun x hx hne => (hmem _ (by simp [hne])).mpr ((h.held _).mpr ⟨c, hc, hx⟩))
    (fun x hx => by
      obtain ⟨c', hc', hx'⟩ := (h.held _).mp (hsub _ hx)
      cases hc.symm.trans hc'
      exact hx')
  refine ⟨s', hkill, ⟨hp, hmisuses.trans ?_, fun r => ?_⟩,
    ⟨hsame.permitReadonly, hsame.remoteid, hsame.listenFd, hsame.listenEntries⟩, hconns, hreadonly⟩
  · obtain rfl | rfl := hreg <;> exact h.misuses
  · rw [hheld]
    cases r with
    | listenFd =>
      rw [hmem _ (by simp), h.held]
      change s.listenFd ≠ none ∧ _ ↔ s'.listenFd ≠ none
      rw [hsame.listenFd]
      simp
    | conn q x =>
      by_cases hq : q = p
      · subst hq
        refine iff_of_false (fun h0 => h0.2 x rfl) ?_
        rintro ⟨c', hc', -⟩
        rw [hconns, Function.update_self] at hc'
        exact nomatch hc'
      · rw [hmem _ (by simp [hq]), h.held]
        simp [Needs, hconns, hq]

/-- The current connection of an entry. -/
theorem Sound.killCurrent (h : s.Sound spare) (e : Nat) :
    ∃ s', s.killCurrent e = .ok s' ∧ s'.Sound spare ∧ SameSocket s s' ∧ s'.current e = none ∧
      (∀ q, s.conns q = none → s'.conns q = none) ∧ s'.readonlyConns = s.readonlyConns := by
  unfold DgpListen.killCurrent
  cases hcur : s.current e with
  | none => exact ⟨s, rfl, h, .refl s, hcur, fun _ => id, rfl⟩
  | some p =>
    obtain ⟨c, hc, hdle⟩ := (h.placed.current e p).mp hcur
    obtain ⟨s', hkill, hsound, hsame, hconns, hreadonly⟩ := h.kill hc (Or.inl rfl)
    refine ⟨s', hkill, hsound, hsame, Option.eq_none_iff_forall_not_mem.mpr fun q hq => ?_,
      fun q hq => ?_, hreadonly.trans (List.erase_of_not_mem fun hr => ?_)⟩
    · -- another one would be the current one too
      obtain ⟨c', hc', hdle'⟩ := (hsound.placed.current e q).mp hq
      rw [hconns] at hc'
      by_cases hqp : q = p
      · subst hqp
        rw [Function.update_self] at hc'
        exact nomatch hc'
      · rw [Function.update_of_ne hqp] at hc'
        have hcur' := (h.placed.current e q).mpr ⟨c', hc', hdle'⟩
        exact hqp (Option.some.inj (hcur'.symm.trans hcur))
    · rw [hconns]
      by_cases hqp : q = p
      · rw [hqp, Function.update_self]
      · rw [Function.update_of_ne hqp, hq]
    · obtain ⟨c', hc', hnone⟩ := (h.placed.readonly p).mp hr
      cases hc.symm.trans hc'
      exact nomatch hdle.symm.trans hnone

/-! ## The writer -/

/-- What comes of writing: the connection stays as it is, or it is killed. -/
def Writes (s : DgpListen) (spare : Option Nat)
    (r : Except DgpListenCrash (DgpListen × Bool)) : Prop :=
  ∃ s' failed, r = .ok (s', failed) ∧ s'.Sound spare ∧ SameSocket s s' ∧
    (failed = false → s' = s) ∧ (∀ q, s.conns q = none → s'.conns q = none)

theorem Sound.fails (h : s.Sound spare) (hc : s.conns p = some c) :
    s.Writes spare (do
      let s ← s.connKill p
      return (s, true)) := by
  obtain ⟨s', hkill, hsound, hsame, hconns, -⟩ := h.kill hc (Or.inl rfl)
  refine ⟨s', true, bind_eq_ok.mpr ⟨s', hkill, rfl⟩, hsound, hsame, (fun h0 => nomatch h0), ?_⟩
  intro q hq
  rw [hconns]
  by_cases hqp : q = p
  · rw [hqp, Function.update_self]
  · rw [Function.update_of_ne hqp, hq]

theorem Sound.goesOn (h : s.Sound spare) : s.Writes spare (.ok (s, false)) :=
  ⟨s, false, rfl, h, .refl s, fun _ => rfl, fun _ => id⟩

theorem Sound.mem_held (h : s.Sound spare) (hc : s.conns p = some c) {r : DgpResource}
    (hr : r ∈ c.resources) : .conn p r ∈ s.reg.held :=
  (h.held _).mpr ⟨c, hc, hr⟩

theorem Sound.outputLsa (h : s.Sound spare) (hc : s.conns p = some c) (r : OutputResult) :
    s.Writes spare (s.outputLsa p r) := by
  unfold DgpListen.outputLsa deref
  rw [hc]
  cases r with
  | kept => exact h.goesOn
  | written =>
    have hrearm : s.reg.rearm (.conn p .keepaliveTimer) = s.reg :=
      Registry.rearm_eq (h.mem_held hc (by simp [mem_resources]))
    change s.Writes spare (.ok ({ s with reg := s.reg.rearm _ }, false))
    rw [hrearm]
    exact h.goesOn
  | failed => exact h.fails hc

theorem Sound.sendKeepalive (h : s.Sound spare) (hc : s.conns p = some c) (written : Bool) :
    s.Writes spare (s.sendKeepalive p written) := by
  unfold DgpListen.sendKeepalive deref
  rw [hc]
  cases written with
  | true => exact h.goesOn
  | false => exact h.fails hc

theorem Sound.dumpLoop (h : s.Sound spare) (hc : s.conns p = some c)
    (ids : List (Option OutputResult)) : s.Writes spare (s.dumpLoop p ids) := by
  induction ids with
  | nil => exact h.goesOn
  | cons r ids ih =>
    cases r with
    | none => exact ih
    | some r =>
      obtain ⟨s', failed, hrun, hsound, hsame, hkept, hgone⟩ := h.outputLsa hc r
      unfold DgpListen.dumpLoop
      rw [hrun, ok_bind]
      cases failed with
      | true => exact ⟨s', true, rfl, hsound, hsame, (fun h0 => nomatch h0), hgone⟩
      | false =>
        rw [hkept rfl]
        exact ih

theorem Sound.corkFd (h : s.Sound spare) (hc : s.conns p = some c) : s.corkFd p = .ok () := by
  unfold DgpListen.corkFd deref
  rw [hc, ok_bind]
  exact if_pos ((h.placed.fds c.fd).mpr (Or.inr ⟨p, c, hc, rfl⟩))

/-- **The initial dump** writes everything, or the connection is killed and not used again. -/
theorem Sound.ribDump (h : s.Sound spare) (hc : s.conns p = some c) (dump : Dump) :
    ∃ s', s.ribDump p dump = .ok s' ∧ s'.Sound spare ∧ SameSocket s s' ∧
      ∀ q, s.conns q = none → s'.conns q = none := by
  obtain ⟨s₂, failed₂, hrun₂, hsound₂, hsame₂, hkept₂, hgone₂⟩ := h.sendKeepalive hc dump.keepalive
  unfold DgpListen.ribDump
  by_cases hempty : dump.ids.isEmpty = true
  · rw [if_pos hempty, hrun₂]
    exact ⟨s₂, rfl, hsound₂, hsame₂, hgone₂⟩
  · rw [if_neg hempty, h.corkFd hc, ok_bind]
    obtain ⟨s₁, failed₁, hrun₁, hsound₁, hsame₁, hkept₁, hgone₁⟩ := h.dumpLoop hc dump.ids
    rw [hrun₁, ok_bind]
    cases failed₁ with
    | true => exact ⟨s₁, rfl, hsound₁, hsame₁, hgone₁⟩
    | false =>
      obtain rfl := hkept₁ rfl
      change ∃ s', (do
        let (s, failed) ← s₁.sendKeepalive p dump.keepalive
        if failed then return s
        else
          s.corkFd p
          return s) = .ok s' ∧ _
      rw [hrun₂, ok_bind]
      cases failed₂ with
      | true => exact ⟨s₂, rfl, hsound₂, hsame₂, hgone₂⟩
      | false =>
        obtain rfl := hkept₂ rfl
        refine ⟨s₂, ?_, hsound₂, hsame₂, hgone₂⟩
        change (do
          s₂.corkFd p
          return s₂) = _
        rw [h.corkFd hc]
        rfl

/-! ## A connection arrives -/

/-- A connection takes its place. -/
theorem Placed.arrive (h : s.Placed (some c.fd)) (hlisten : s.listenFd ≠ some c.fd)
    (hp : s.conns p = none) (hadmitted : s.Admitted c) (hsame : SameSocket s s')
    (hconns : s'.conns = Function.update s.conns p (some c))
    (hfds : s'.fds = s.fds) (hentry : ∀ e, c.dle = some e → e ∈ s.listenEntries)
    (hcurrent : ∀ e q, s'.current e = some q ↔ c.dle = some e ∧ q = p ∨ s.current e = some q)
    (hreadonly : ∀ q, q ∈ s'.readonlyConns ↔ c.dle = none ∧ q = p ∨ q ∈ s.readonlyConns)
    (hnodup : s'.readonlyConns.Nodup) : s'.Placed none := by
  have hmem : ∀ q c', s'.conns q = some c' ↔ q = p ∧ c' = c ∨ s.conns q = some c' := by
    intro q c'
    rw [hconns]
    by_cases hq : q = p
    · subst hq
      simp [hp, eq_comm]
    · simp [hq]
  have hnew : ∀ q c', s.conns q = some c' → c'.fd ≠ c.fd ∧ q ≠ p := by
    intro q c' hq
    refine ⟨fun he => (h.distinct q c' hq).1.1 (congrArg some he.symm), ?_⟩
    rintro rfl
    exact nomatch hp.symm.trans hq
  refine ⟨fun e q => ?_, fun q => ?_, ⟨hnodup, ?_⟩, fun q c' e hq hd => ?_, fun fd => ?_,
    fun q c' hq => ?_, fun q c' hq => ?_⟩
  · rw [hcurrent, h.current]
    constructor
    · rintro (⟨hd, rfl⟩ | ⟨c', hq, hd⟩)
      · exact ⟨c, (hmem _ _).mpr (Or.inl ⟨rfl, rfl⟩), hd⟩
      · exact ⟨c', (hmem _ _).mpr (Or.inr hq), hd⟩
    · rintro ⟨c', hq, hd⟩
      obtain ⟨rfl, rfl⟩ | hq := (hmem _ _).mp hq
      · exact Or.inl ⟨hd, rfl⟩
      · exact Or.inr ⟨c', hq, hd⟩
  · rw [hreadonly, h.readonly]
    constructor
    · rintro (⟨hd, rfl⟩ | ⟨c', hq, hd⟩)
      · exact ⟨c, (hmem _ _).mpr (Or.inl ⟨rfl, rfl⟩), hd⟩
      · exact ⟨c', (hmem _ _).mpr (Or.inr hq), hd⟩
    · rintro ⟨c', hq, hd⟩
      obtain ⟨rfl, rfl⟩ | hq := (hmem _ _).mp hq
      · exact Or.inl ⟨hd, rfl⟩
      · exact Or.inr ⟨c', hq, hd⟩
  · rw [hsame.listenEntries]
    exact h.nodup.2
  · rw [hsame.listenEntries]
    obtain ⟨rfl, rfl⟩ | hq := (hmem _ _).mp hq
    · exact hentry e hd
    · exact h.entries q c' e hq hd
  · rw [hfds, h.fds, hsame.listenFd]
    constructor
    · rintro ((hl | hl) | ⟨q, c', hq, rfl⟩)
      · exact Or.inr ⟨p, c, (hmem _ _).mpr (Or.inl ⟨rfl, rfl⟩), Option.some.inj hl⟩
      · exact Or.inl (Or.inr hl)
      · exact Or.inr ⟨q, c', (hmem _ _).mpr (Or.inr hq), rfl⟩
    · rintro ((hl | hl) | ⟨q, c', hq, rfl⟩)
      · exact nomatch hl
      · exact Or.inl (Or.inr hl)
      · obtain ⟨rfl, rfl⟩ | hq := (hmem _ _).mp hq
        · exact Or.inl (Or.inl rfl)
        · exact Or.inr ⟨q, c', hq, rfl⟩
  · rw [hsame.listenFd]
    obtain ⟨rfl, rfl⟩ | hq := (hmem _ _).mp hq
    · refine ⟨⟨(fun h0 => nomatch h0), hlisten⟩, fun r c'' hr he => ?_⟩
      obtain ⟨rfl, -⟩ | hr := (hmem _ _).mp hr
      · rfl
      · exact absurd he (hnew r c'' hr).1
    · refine ⟨⟨(fun h0 => nomatch h0), (h.distinct q c' hq).1.2⟩, fun r c'' hr he => ?_⟩
      obtain ⟨rfl, rfl⟩ | hr := (hmem _ _).mp hr
      · exact absurd he.symm (hnew q c' hq).1
      · exact (h.distinct q c' hq).2 r c'' hr he
  · unfold Admitted
    rw [hsame.remoteid, hsame.permitReadonly]
    obtain ⟨rfl, rfl⟩ | hq := (hmem _ _).mp hq
    · exact hadmitted
    · exact h.admitted q c' hq

/-- What is registered for a connection that arrives. -/
theorem register_spec (hnone : ∀ x, .conn p x ∉ reg.held) :
    let reg₁ := readerRegister (reg.register (.conn p .fd)) p c.dle.isSome
    let reg₂ := reg₁.register (.conn p .writer)
    let reg₃ := (reg₂.initialise (.conn p .keepaliveTimer)).register (.conn p .keepaliveTimer)
    reg₃.misuses = reg.misuses ∧
      ∀ r, r ∈ reg₃.held ↔ (∃ x ∈ c.resources, r = .conn p x) ∨ r ∈ reg.held := by
  obtain ⟨reg₀, hreg₀, hmisuses₀, hheld₀⟩ : ∃ reg₀,
      (if c.dle.isSome = true then (reg.register (.conn p .fd)).register (.conn p .reader)
        else reg.register (.conn p .fd)) = reg₀ ∧ reg₀.misuses = reg.misuses ∧
        ∀ r, r ∈ reg₀.held ↔ c.dle.isSome = true ∧ r = .conn p .reader ∨ r = .conn p .fd ∨
          r ∈ reg.held := by
    refine ⟨_, rfl, ?_, fun r => ?_⟩
    · split_ifs
      · rw [Registry.misuses_register, Registry.misuses_register (hnone _)]
        simp [Registry.mem_register, hnone]
      · exact Registry.misuses_register (hnone _)
    · split_ifs with hremote
      · rw [Registry.mem_register, Registry.mem_register]
        simp [hremote]
      · rw [Registry.mem_register]
        simp [hremote]
  have htimeout : .conn p .keepaliveTimeout ∉ reg₀.held := by simp [hheld₀, hnone]
  have hwriter : .conn p .writer ∉ (reg₀.register (.conn p .keepaliveTimeout)).held := by
    simp [Registry.mem_register, hheld₀, hnone]
  have htimer : .conn p .keepaliveTimer ∉
      ((reg₀.register (.conn p .keepaliveTimeout)).register (.conn p .writer)).held := by
    simp [Registry.mem_register, hheld₀, hnone]
  unfold readerRegister
  rw [hreg₀]
  dsimp only
  rw [Registry.initialise_of_notMem htimeout, Registry.initialise_of_notMem htimer]
  refine ⟨?_, fun r => ?_⟩
  · rw [Registry.misuses_register htimer, Registry.misuses_register hwriter,
      Registry.misuses_register htimeout, hmisuses₀]
  · rw [Registry.mem_register, Registry.mem_register, Registry.mem_register, hheld₀]
    constructor
    · rintro (rfl | rfl | rfl | ⟨hremote, rfl⟩ | rfl | hr)
      · exact Or.inl ⟨_, by simp [mem_resources], rfl⟩
      · exact Or.inl ⟨_, by simp [mem_resources], rfl⟩
      · exact Or.inl ⟨_, by simp [mem_resources], rfl⟩
      · exact Or.inl ⟨_, by simp [mem_resources, hremote], rfl⟩
      · exact Or.inl ⟨_, by simp [mem_resources], rfl⟩
      · exact Or.inr hr
    · rintro (⟨x, hx, rfl⟩ | hr)
      · obtain rfl | rfl | rfl | rfl | ⟨rfl, hremote⟩ := mem_resources.mp hx <;> simp_all
      · simp [hr]

theorem findEntryByAddr_spec {addr : Bytes} (h : s.findEntryByAddr addr = some e) :
    e ∈ s.listenEntries ∧ addr = v6LinklocalAddrFromKeyId (s.remoteid e) :=
  ⟨List.mem_of_find?_eq_some h, of_decide_eq_true (List.find?_some h :)⟩

/-- **`attach`**: the connection is put in the place of the one before, which is killed. -/
theorem Sound.attach (h : s.Sound spare) (hp : s.conns p = none) {dle : Option Nat}
    (hentry : ∀ e, dle = some e → e ∈ s.listenEntries) :
    ∃ s₀ current readonly, s.attach p dle =
        .ok { s₀ with current := current, readonlyConns := readonly } ∧
      s₀.Sound spare ∧ SameSocket s s₀ ∧ s₀.conns p = none ∧
      (∀ e q, current e = some q ↔ dle = some e ∧ q = p ∨ s₀.current e = some q) ∧
      (∀ q, q ∈ readonly ↔ dle = none ∧ q = p ∨ q ∈ s₀.readonlyConns) ∧ readonly.Nodup := by
  cases dle with
  | none =>
    refine ⟨s, s.current, s.readonlyConns ++ [p], rfl, h, .refl s, hp, fun e q => ?_, fun q => ?_,
      ?_⟩
    · simp
    · simp [or_comm]
    · refine List.nodup_append.mpr ⟨h.placed.nodup.1, List.nodup_singleton p, ?_⟩
      rintro q hq _ hq' rfl
      obtain rfl := List.mem_singleton.mp hq'
      obtain ⟨c, hc, -⟩ := (h.placed.readonly q).mp hq
      exact nomatch hp.symm.trans hc
  | some e =>
    obtain ⟨s₀, hkill, hsound, hsame, hcur, hgone, -⟩ := h.killCurrent e
    have he : e ∈ s₀.listenEntries := hsame.listenEntries ▸ hentry e rfl
    refine ⟨s₀, Function.update s₀.current e (some p), s₀.readonlyConns,
      bind_eq_ok.mpr ⟨s₀, hkill, if_pos he⟩, hsound, hsame, hgone p hp, fun e' q => ?_, fun q => ?_,
      hsound.placed.nodup.1⟩
    · by_cases heq : e' = e
      · subst heq
        simp [hcur, eq_comm]
      · simp [heq, Ne.symm heq]
    · simp

/-- An fd that `accept` gives. -/
theorem Sound.accepted (h : s.Sound none) {fd : Nat} (hfd : fd ∉ s.fds) :
    Sound { s with fds := insert fd s.fds } (some fd) where
  placed :=
    { current := h.placed.current
      readonly := h.placed.readonly
      nodup := h.placed.nodup
      entries := h.placed.entries
      fds := fun fd' => by
        rw [Finset.mem_insert, h.placed.fds]
        simp [or_assoc, eq_comm]
      distinct := fun p c hc => by
        refine ⟨⟨?_, (h.placed.distinct p c hc).1.2⟩, (h.placed.distinct p c hc).2⟩
        rintro h0
        obtain rfl := Option.some.inj h0
        exact hfd ((h.placed.fds _).mpr (Or.inr ⟨p, c, hc, rfl⟩))
      admitted := h.placed.admitted }
  misuses := h.misuses
  held := h.held

/-- **`got_connection`**: the fd is closed, or there is a connection in its place. -/
theorem Sound.gotConnection (h : s.Sound none) {a : Option Accepted}
    (hfresh : ∀ x ∈ a, x.fd ∉ s.fds ∧ ∀ p ∈ x.conn, s.conns p = none) :
    ∃ s', s.gotConnection a = .ok s' ∧ s'.Sound none ∧ SameSocket s s' := by
  cases a with
  | none => exact ⟨s, rfl, h, .refl s⟩
  | some a =>
    obtain ⟨hfd, hp⟩ := hfresh a rfl
    have hspare := h.accepted hfd
    have hclose : DgpListen.close { s with fds := insert a.fd s.fds } a.fd = .ok s := by
      unfold DgpListen.close
      rw [if_pos (Finset.mem_insert_self a.fd s.fds)]
      dsimp only
      rw [Finset.erase_insert hfd]
    unfold DgpListen.gotConnection
    dsimp only
    generalize hdle : (if a.peer.port = DGP_PORT then
      DgpListen.findEntryByAddr { s with fds := insert a.fd s.fds } a.peer.addr else none) = dle
    split_ifs with hfamily hnobody
    · exact ⟨s, hclose, h, .refl s⟩
    · exact ⟨s, hclose, h, .refl s⟩
    · cases hconn : a.conn with
      | none => exact ⟨s, hclose, h, .refl s⟩
      | some p =>
        have hfound : ∀ e, dle = some e → a.peer.port = DGP_PORT ∧ e ∈ s.listenEntries ∧
            a.peer.addr = v6LinklocalAddrFromKeyId (s.remoteid e) := by
          rintro e rfl
          split_ifs at hdle with hport
          exact ⟨hport, findEntryByAddr_spec hdle⟩
        obtain ⟨s₀, current, readonly, hattach, hsound₀, hsame₀, hp₀, hcurrent, hreadonly,
          hnodup⟩ := hspare.attach (hp p hconn) fun e he => (hfound e he).2.1
        let c : DgpConn := ⟨dle, a.fd, a.peer⟩
        have hnone : ∀ x, .conn p x ∉ s₀.reg.held := fun x hx => by
          obtain ⟨c', hc', -⟩ := (hsound₀.held _).mp hx
          exact nomatch hp₀.symm.trans hc'
        obtain ⟨hmisuses, hheld⟩ := register_spec (c := c) hnone
        -- everything but the dump
        let s₁ : DgpListen := { s₀ with
          current := current
          readonlyConns := readonly
          conns := Function.update s₀.conns p (some c)
          reg := ((readerRegister (s₀.reg.register (.conn p .fd)) p dle.isSome).register
            (.conn p .writer)).initialise (.conn p .keepaliveTimer) |>.register
              (.conn p .keepaliveTimer) }
        have hsame₁ : SameSocket s₀ s₁ := ⟨rfl, rfl, rfl, rfl⟩
        have hlisten : s₀.listenFd ≠ some a.fd := by
          rw [hsame₀.listenFd]
          exact fun h0 => hfd ((h.placed.fds _).mpr (Or.inl (Or.inr h0)))
        have hadmitted : s₀.Admitted c := by
          unfold Admitted
          rw [hsame₀.remoteid, hsame₀.permitReadonly]
          cases hd : dle with
          | none =>
            rw [hd] at hnobody
            simpa [c, hd] using hnobody
          | some e =>
            simpa [c, hd] using ⟨(hfound e hd).1, (hfound e hd).2.2⟩
        have hplaced : s₁.Placed none := hsound₀.placed.arrive hlisten hp₀ hadmitted hsame₁ rfl rfl
          (fun e he => hsame₀.listenEntries ▸ (hfound e he).2.1) hcurrent hreadonly hnodup
        have hsound₁ : s₁.Sound none := by
          refine ⟨hplaced, hmisuses.trans hsound₀.misuses, fun r => (hheld r).trans ?_⟩
          cases r with
          | listenFd =>
            rw [hsound₀.held]
            simp [Needs, s₁]
          | conn q x =>
            rw [hsound₀.held]
            by_cases hq : q = p
            · subst hq
              simp [Needs, s₁, hp₀]
            · simp [Needs, s₁, hq]
        have hc₁ : s₁.conns p = some c := Function.update_self p (some c) s₀.conns
        obtain ⟨s', hdump, hsound', hsame', -⟩ := hsound₁.ribDump hc₁ a.dump
        refine ⟨s', ?_, hsound', ?_⟩
        · dsimp only
          rw [hattach]
          exact hdump
        · have hsame : SameSocket s s₀ :=
            ⟨hsame₀.permitReadonly, hsame₀.remoteid, hsame₀.listenFd, hsame₀.listenEntries⟩
          exact hsame.trans (hsame₁.trans hsame')

/-! ## The owner -/

/-- `dgp_listen_entry_unregister`. -/
theorem Sound.entryUnregister (h : s.Sound none) (e : Nat) :
    ∃ s', s.entryUnregister e = .ok s' ∧ s'.Sound none ∧ s'.listenFd = s.listenFd ∧
      s'.listenEntries = s.listenEntries.erase e ∧ SameConfig s s' ∧
      s'.readonlyConns = s.readonlyConns := by
  obtain ⟨s₁, hkill, hsound, hsame, hcur, -, hreadonly⟩ := h.killCurrent e
  have hp := hsound.placed
  refine ⟨{ s₁ with listenEntries := s₁.listenEntries.erase e }, bind_eq_ok.mpr ⟨s₁, hkill, rfl⟩,
    ⟨⟨hp.current, hp.readonly, ⟨hp.nodup.1, hp.nodup.2.erase e⟩, fun q c e' hq hd => ?_, hp.fds,
      hp.distinct, hp.admitted⟩, hsound.misuses, fun r => ?_⟩, hsame.listenFd, ?_,
    ⟨hsame.permitReadonly, hsame.remoteid⟩, hreadonly⟩
  · refine (hp.nodup.2.mem_erase_iff).mpr ⟨?_, hp.entries q c e' hq hd⟩
    rintro rfl
    exact nomatch hcur.symm.trans ((hp.current e' q).mpr ⟨c, hq, hd⟩)
  · rw [hsound.held]
    cases r <;> rfl
  · exact congrArg (List.erase · e) hsame.listenEntries

/-- `dgp_listen_entry_reset`. -/
theorem Sound.entryReset (h : s.Sound none) (he : e ∈ s.listenEntries) :
    ∃ s', s.entryReset e = .ok s' ∧ s'.Sound none ∧ SameSocket s s' := by
  obtain ⟨s₁, hkill, hsound, hsame, hcur, -, -⟩ := h.killCurrent e
  unfold DgpListen.entryReset
  unfold DgpListen.killCurrent at hkill
  cases hc : s.current e with
  | none => exact ⟨s, rfl, h, .refl s⟩
  | some p =>
    rw [hc] at hkill
    have hmem : e ∈ s₁.listenEntries := hsame.listenEntries ▸ he
    have hset : s₁.setCurrent e none = .ok s₁ := by
      unfold setCurrent
      rw [if_pos hmem, ← hcur, Function.update_eq_self]
    exact ⟨s₁, bind_eq_ok.mpr ⟨s₁, hkill, hset⟩, hsound, hsame⟩

/-- `dgp_listen_entry_register`. -/
theorem Sound.entryRegister (h : s.Sound none) (he : e ∉ s.listenEntries) :
    (s.entryRegister e).Sound none := by
  have hcur : s.current e = none := by
    rw [Option.eq_none_iff_forall_not_mem]
    intro p hp
    obtain ⟨c, hc, hd⟩ := (h.placed.current e p).mp hp
    exact he (h.placed.entries p c e hc hd)
  refine ⟨⟨fun e' q => ?_, h.placed.readonly, ⟨h.placed.nodup.1, ?_⟩, fun p c e' hp hd => ?_,
    h.placed.fds, h.placed.distinct, h.placed.admitted⟩, h.misuses, fun r => ?_⟩
  · change Function.update s.current e none e' = some q ↔ _
    rw [← hcur, Function.update_eq_self]
    exact h.placed.current e' q
  · refine List.nodup_append.mpr ⟨h.placed.nodup.2, List.nodup_singleton e, ?_⟩
    rintro x hx _ hx' rfl
    obtain rfl := List.mem_singleton.mp hx'
    exact he hx
  · exact List.mem_append_left [e] (h.placed.entries p c e' hp hd)
  · change r ∈ s.reg.held ↔ _
    rw [h.held]
    cases r <;> rfl

/-- A socket that is not registered has no connections. -/
theorem Sound.idle (h : s.Sound none) (hentries : s.listenEntries = [])
    (hreadonly : s.readonlyConns = []) (p : Nat) : s.conns p = none := by
  rw [Option.eq_none_iff_forall_not_mem]
  intro c hc
  cases hd : c.dle with
  | some e =>
    have he := h.placed.entries p c e hc hd
    rw [hentries] at he
    exact nomatch he
  | none =>
    have hr := (h.placed.readonly p).mpr ⟨c, hc, hd⟩
    rw [hreadonly] at hr
    exact nomatch hr

/-- `dgp_listen_socket_register`. -/
theorem Sound.socketRegister (h : s.Sound none) (hidle : s.Idle) (hnone : s.listenFd = none)
    {fd : Option Nat} (hfd : ∀ n ∈ fd, n ∉ s.fds) : (s.socketRegister fd).Sound none := by
  cases fd with
  | none => exact h
  | some fd =>
    obtain ⟨hentries, hreadonly⟩ := hidle hnone
    have hconns := h.idle hentries hreadonly
    have hlisten : DgpListenResource.listenFd ∉ s.reg.held := fun hl => (h.held _).mp hl hnone
    have heq : s.socketRegister (some fd) = { s with
        listenFd := some fd
        fds := insert fd s.fds
        reg := s.reg.register .listenFd } := by
      simp only [DgpListen.socketRegister, hentries, hreadonly]
    rw [heq]
    refine ⟨⟨h.placed.current, h.placed.readonly, h.placed.nodup, h.placed.entries, fun fd' => ?_,
      fun p c hc => ?_, h.placed.admitted⟩, (Registry.misuses_register hlisten).trans h.misuses,
      fun r => ?_⟩
    · rw [Finset.mem_insert, h.placed.fds, hnone]
      simp [hconns, eq_comm]
    · exact nomatch (hconns p).symm.trans hc
    · rw [Registry.mem_register, h.held]
      cases r with
      | listenFd => simp [Needs]
      | conn q x => simp [Needs, hconns]

/-- The entries are unregistered one after the other. -/
theorem Sound.unregisterAll (h : s.Sound none) {es : List Nat} (hes : s.listenEntries = es) :
    ∃ s', es.foldlM DgpListen.entryUnregister s = .ok s' ∧ s'.Sound none ∧
      s'.listenFd = s.listenFd ∧ s'.listenEntries = [] ∧ SameConfig s s' ∧
      s'.readonlyConns = s.readonlyConns := by
  induction es generalizing s with
  | nil => exact ⟨s, rfl, h, rfl, hes, ⟨rfl, rfl⟩, rfl⟩
  | cons e es ih =>
    obtain ⟨s₁, hrun, hsound, hfd, hentries, hconfig, hreadonly⟩ := h.entryUnregister e
    rw [hes, List.erase_cons_head] at hentries
    obtain ⟨s', hall, hsound', hfd', hentries', hconfig', hreadonly'⟩ := ih hsound hentries
    exact ⟨s', bind_eq_ok.mpr ⟨s₁, hrun, hall⟩, hsound', hfd'.trans hfd, hentries',
      hconfig.trans hconfig', hreadonly'.trans hreadonly⟩

/-- So are the connections that may only read killed. -/
theorem Sound.killAll (h : s.Sound none) {ps : List Nat} (hps : s.readonlyConns = ps) :
    ∃ s', ps.foldlM DgpListen.connKill s = .ok s' ∧ s'.Sound none ∧ SameSocket s s' ∧
      s'.readonlyConns = [] := by
  induction ps generalizing s with
  | nil => exact ⟨s, rfl, h, .refl s, hps⟩
  | cons p ps ih =>
    obtain ⟨c, hc, -⟩ := (h.placed.readonly p).mp (hps ▸ List.mem_cons_self)
    obtain ⟨s₁, hrun, hsound, hsame, -, hreadonly⟩ := h.kill hc (Or.inl rfl)
    rw [hps, List.erase_cons_head] at hreadonly
    obtain ⟨s', hall, hsound', hsame', hreadonly'⟩ := ih hsound hreadonly
    exact ⟨s', bind_eq_ok.mpr ⟨s₁, hrun, hall⟩, hsound', hsame.trans hsame', hreadonly'⟩

/-- **`dgp_listen_socket_unregister`** leaves nothing. -/
theorem Sound.socketUnregister (h : s.Sound none) (hlisten : s.listenFd ≠ none) :
    ∃ s', s.socketUnregister = .ok s' ∧ s'.Sound none ∧ s'.listenFd = none ∧
      s'.listenEntries = [] ∧ s'.readonlyConns = [] ∧ SameConfig s s' := by
  obtain ⟨fd, hfd⟩ := Option.ne_none_iff_exists'.mp hlisten
  have hmem : fd ∈ s.fds := (h.placed.fds fd).mpr (Or.inl (Or.inr hfd))
  have hheld : DgpListenResource.listenFd ∈ s.reg.held := (h.held _).mpr hlisten
  let s₁ : DgpListen := { s with
    reg := s.reg.unregister .listenFd
    fds := s.fds.erase fd
    listenFd := none }
  have hsound₁ : s₁.Sound none := by
    refine ⟨⟨h.placed.current, h.placed.readonly, h.placed.nodup, h.placed.entries, fun fd' => ?_,
      fun p c hc =>
        ⟨⟨(fun h0 => nomatch h0), (fun h0 => nomatch h0)⟩, (h.placed.distinct p c hc).2⟩,
      h.placed.admitted⟩, (Registry.misuses_unregister hheld).trans h.misuses, fun r => ?_⟩
    · rw [Finset.mem_erase, h.placed.fds, hfd]
      constructor
      · rintro ⟨hne, (h0 | h0) | hc⟩
        · exact nomatch h0
        · exact absurd (Option.some.inj h0).symm hne
        · exact Or.inr hc
      · rintro ((h0 | h0) | ⟨p, c, hc, rfl⟩)
        · exact nomatch h0
        · exact nomatch h0
        · refine ⟨?_, Or.inr ⟨p, c, hc, rfl⟩⟩
          rintro rfl
          exact (h.placed.distinct p c hc).1.2 hfd
    · rw [Registry.mem_unregister, h.held]
      cases r with
      | listenFd => simp [Needs, s₁]
      | conn q x => simp [Needs, s₁]
  obtain ⟨s₂, hall, hsound₂, hfd₂, hentries₂, hconfig₂, -⟩ := hsound₁.unregisterAll rfl
  obtain ⟨s₃, hkill, hsound₃, hsame₃, hreadonly₃⟩ := hsound₂.killAll rfl
  refine ⟨s₃, ?_, hsound₃, hsame₃.listenFd.trans hfd₂, hsame₃.listenEntries.trans hentries₂,
    hreadonly₃, SameConfig.trans ⟨hconfig₂.permitReadonly, hconfig₂.remoteid⟩ hsame₃.config⟩
  unfold DgpListen.socketUnregister
  rw [hfd]
  exact bind_eq_ok.mpr ⟨_, if_pos hmem, bind_eq_ok.mpr ⟨s₂, hall, hkill⟩⟩

/-! ## The events -/

/-- What an event of a connection comes from. -/
theorem Sound.owner (h : s.Sound none) {r : DgpResource} (hr : .conn p r ∈ s.reg.held) :
    ∃ c, s.conns p = some c ∧ r ∈ c.resources :=
  (h.held _).mp hr

/-- `handle_dgp_read`. -/
theorem Sound.handleDgpRead (h : s.Sound none) (hc : s.conns p = some c) (r : ReadResult) :
    ∃ s' received, s.handleDgpRead p r = .ok (s', received) ∧ s'.Sound none ∧ SameSocket s s' := by
  have hfd : c.fd ∈ s.fds := (h.placed.fds c.fd).mpr (Or.inr ⟨p, c, hc, rfl⟩)
  have hrearm : s.reg.rearm (.conn p .keepaliveTimeout) = s.reg :=
    Registry.rearm_eq (h.mem_held hc (by simp [mem_resources]))
  obtain ⟨s', hkill, hsound, hsame, -⟩ := h.kill hc (Or.inl rfl)
  unfold DgpListen.handleDgpRead deref
  rw [hc, ok_bind, if_neg (not_not.mpr hfd)]
  cases r with
  | again => exact ⟨s, false, rfl, h, .refl s⟩
  | closed => exact ⟨s', false, bind_eq_ok.mpr ⟨s', hkill, rfl⟩, hsound, hsame⟩
  | accepted =>
    refine ⟨s, true, ?_, h, .refl s⟩
    change Except.ok ({ s with reg := s.reg.rearm (.conn p .keepaliveTimeout) }, true) = _
    rw [hrearm]
  | rejected =>
    refine ⟨s', true, ?_, hsound, hsame⟩
    change (do
      let s ← DgpListen.connKill { s with reg := s.reg.rearm (.conn p .keepaliveTimeout) } p
      return (s, true)) = _
    rw [hrearm]
    exact bind_eq_ok.mpr ⟨s', hkill, rfl⟩

/-- `dgp_writer_keepalive_timer`, after the timer has expired. -/
theorem Sound.writerKeepaliveTimer (h : s.Sound none) (hc : s.conns p = some c) (written : Bool) :
    ∃ s', DgpListen.writerKeepaliveTimer
        { s with reg := s.reg.expire (.conn p .keepaliveTimer) } p written = .ok s' ∧
      s'.Sound none ∧ SameSocket s s' := by
  have hback : (s.reg.expire (.conn p .keepaliveTimer)).register (.conn p .keepaliveTimer) =
      s.reg := Registry.register_expire (h.mem_held hc (by simp [mem_resources]))
  obtain ⟨s', failed, hsend, hsound, hsame, -⟩ := h.sendKeepalive hc written
  unfold DgpListen.writerKeepaliveTimer
  dsimp only
  rw [hback]
  exact ⟨s', bind_eq_ok.mpr ⟨_, hsend, rfl⟩, hsound, hsame⟩

/-- Bytes are received for a neighbour from where it may connect from. -/
theorem Sound.received (h : s.Sound none) {id : NodeId} {peer : DgpPeer}
    (hmem : (id, peer) ∈ s.received p) :
    peer.port = DGP_PORT ∧ peer.addr = v6LinklocalAddrFromKeyId id ∧ ∃ e, id = s.remoteid e := by
  unfold DgpListen.received at hmem
  cases hc : s.conns p with
  | none =>
    rw [hc] at hmem
    exact nomatch hmem
  | some c =>
    rw [hc] at hmem
    obtain ⟨e, he, heq⟩ := List.mem_map.mp hmem
    have hadmitted := h.placed.admitted p c hc
    unfold Admitted at hadmitted
    rw [Option.mem_toList.mp he] at hadmitted
    cases heq
    exact ⟨hadmitted.1, hadmitted.2, e, rfl⟩

end DgpListen

/-! ## Runs -/

open DgpListen

section Runs

variable {s s' : DgpListen} {op : DgpListenOp} {ops : List DgpListenOp}
  {es : List (NodeId × DgpPeer)}

/-- Bytes are received for a neighbour, from where that one may connect from. -/
def FromNeighbours (remoteid : Nat → NodeId) (es : List (NodeId × DgpPeer)) : Prop :=
  ∀ id peer, (id, peer) ∈ es →
    peer.port = DGP_PORT ∧ peer.addr = v6LinklocalAddrFromKeyId id ∧ ∃ e, id = remoteid e

/-- A step goes well: it is sound again, and passes bytes on only from where they may come from. -/
def DgpListenGoesOn (s : DgpListen)
    (r : Except DgpListenCrash (DgpListen × List (NodeId × DgpPeer))) : Prop :=
  ∃ s' es, r = .ok (s', es) ∧ s'.Sound none ∧ s'.Idle ∧ SameConfig s s' ∧
    FromNeighbours s.remoteid es

/-- While there is a connection, the socket is registered. -/
theorem DgpListen.Sound.listening (h : s.Sound none) (hidle : s.Idle) {p : Nat} {c : DgpConn}
    (hc : s.conns p = some c) : s.listenFd ≠ none := fun h0 => by
  obtain ⟨hentries, hreadonly⟩ := hidle h0
  exact nomatch (h.idle hentries hreadonly p).symm.trans hc

/-- A step in which nothing is received. -/
theorem dgpListenGoesOn_of {r : Except DgpListenCrash (DgpListen × List (NodeId × DgpPeer))}
    (hr : r = .ok (s', [])) (hsound : s'.Sound none) (hidle : s'.Idle) (hsame : SameConfig s s') :
    DgpListenGoesOn s r :=
  ⟨s', [], hr, hsound, hidle, hsame, fun _ _ h => nomatch h⟩

/-- **A step** goes well. -/
theorem dgpListenStep_spec (h : s.Sound none) (hidle : s.Idle) (hop : op.Allowed s) :
    DgpListenGoesOn s (dgpListenStep s op) := by
  have hstill : s.listenFd ≠ none → ∀ s' : DgpListen, s'.listenFd = s.listenFd → s'.Idle :=
    fun hl s' hfd h0 => absurd (hfd.symm.trans h0) hl
  cases op with
  | socketRegister fd =>
    have hsound := h.socketRegister hidle hop.1 hop.2
    cases fd with
    | none => exact dgpListenGoesOn_of rfl hsound hidle ⟨rfl, rfl⟩
    | some fd => exact dgpListenGoesOn_of rfl hsound (fun h0 => nomatch h0) ⟨rfl, rfl⟩
  | socketUnregister =>
    obtain ⟨s', hrun, hsound, -, hentries, hreadonly, hconfig⟩ := h.socketUnregister hop
    exact dgpListenGoesOn_of (bind_eq_ok.mpr ⟨s', hrun, rfl⟩) hsound
      (fun _ => ⟨hentries, hreadonly⟩) hconfig
  | entryRegister e =>
    exact dgpListenGoesOn_of rfl (h.entryRegister hop.2) (hstill hop.1 _ rfl) ⟨rfl, rfl⟩
  | entryUnregister e =>
    obtain ⟨s', hrun, hsound, hfd, -, hconfig, -⟩ := h.entryUnregister e
    refine dgpListenGoesOn_of (bind_eq_ok.mpr ⟨s', hrun, rfl⟩) hsound
      (hstill (fun h0 => ?_) s' hfd) hconfig
    have he : e ∈ s.listenEntries := hop
    rw [(hidle h0).1] at he
    exact nomatch he
  | entryReset e =>
    obtain ⟨s', hrun, hsound, hsame⟩ := h.entryReset hop
    refine dgpListenGoesOn_of (bind_eq_ok.mpr ⟨s', hrun, rfl⟩) hsound
      (hstill (fun h0 => ?_) s' hsame.listenFd) hsame.config
    have he : e ∈ s.listenEntries := hop
    rw [(hidle h0).1] at he
    exact nomatch he
  | accept a =>
    obtain ⟨s', hrun, hsound, hsame⟩ := h.gotConnection hop.2
    exact dgpListenGoesOn_of (bind_eq_ok.mpr ⟨s', hrun, rfl⟩) hsound
      (hstill ((h.held _).mp hop.1) s' hsame.listenFd) hsame.config
  | read p r =>
    obtain ⟨c, hc, -⟩ := h.owner hop
    obtain ⟨s', received, hrun, hsound, hsame⟩ := h.handleDgpRead hc r
    refine ⟨s', _, bind_eq_ok.mpr ⟨_, hrun, rfl⟩, hsound,
      hstill (h.listening hidle hc) s' hsame.listenFd, hsame.config, fun id peer hmem => ?_⟩
    split_ifs at hmem
    · exact h.received hmem
    · exact nomatch hmem
  | keepaliveTimeout p =>
    obtain ⟨c, hc, -⟩ := h.owner hop
    obtain ⟨s', hrun, hsound, hsame, -⟩ := h.kill hc (Or.inr rfl)
    exact dgpListenGoesOn_of (bind_eq_ok.mpr ⟨s', hrun, rfl⟩) hsound
      (hstill (h.listening hidle hc) s' hsame.listenFd) hsame.config
  | keepaliveTimer p written =>
    obtain ⟨c, hc, -⟩ := h.owner hop
    obtain ⟨s', hrun, hsound, hsame⟩ := h.writerKeepaliveTimer hc written
    exact dgpListenGoesOn_of (bind_eq_ok.mpr ⟨s', hrun, rfl⟩) hsound
      (hstill (h.listening hidle hc) s' hsame.listenFd) hsame.config
  | change p r =>
    obtain ⟨c, hc, -⟩ := h.owner hop
    obtain ⟨s', failed, hrun, hsound, hsame, -⟩ := h.outputLsa hc r
    exact dgpListenGoesOn_of (bind_eq_ok.mpr ⟨_, hrun, rfl⟩) hsound
      (hstill (h.listening hidle hc) s' hsame.listenFd) hsame.config

/-- **What holds over a run.** -/
theorem run_listens {permitReadonly : Bool} {remoteid : Nat → NodeId}
    (h : Run dgpListenStep (fun s op => DgpListenOp.Allowed s op)
      (.initial permitReadonly remoteid) ops s es) :
    s.Sound none ∧ s.Idle ∧
      (s.permitReadonly = permitReadonly ∧ s.remoteid = remoteid) ∧ FromNeighbours remoteid es := by
  refine h.invariant (fun _ s es => s.Sound none ∧ s.Idle ∧
    (s.permitReadonly = permitReadonly ∧ s.remoteid = remoteid) ∧ FromNeighbours remoteid es)
    ⟨?_, ?_, ⟨rfl, rfl⟩, ?_⟩ ?_
  · refine ⟨⟨fun e p => ?_, fun p => ?_, ⟨List.nodup_nil, List.nodup_nil⟩,
      (fun p c e hc => nomatch hc), fun fd => ?_, (fun p c hc => nomatch hc),
      (fun p c hc => nomatch hc)⟩, rfl, fun r => ?_⟩
    · simp [DgpListen.initial]
    · simp [DgpListen.initial]
    · simp [DgpListen.initial]
    · cases r <;> simp [DgpListen.initial, Needs, Registry.empty]
  · exact fun _ => ⟨rfl, rfl⟩
  · exact fun _ _ hmem => nomatch hmem
  · rintro os s es op s' es' ⟨hsound, hidle, ⟨hpermit, hid⟩, hes⟩ hop hstep
    obtain ⟨s₁, es₁, hstep₁, hsound₁, hidle₁, hconfig, hes₁⟩ :=
      dgpListenStep_spec hsound hidle hop
    cases hstep₁.symm.trans hstep
    refine ⟨hsound₁, hidle₁, ⟨hconfig.permitReadonly.trans hpermit, hconfig.remoteid.trans hid⟩,
      fun id peer hmem => ?_⟩
    rw [hid] at hes₁
    exact (List.mem_append.mp hmem).elim (hes id peer) (hes₁ id peer)

/-- **Admission**: what is received for a neighbour comes from port 173 of its link-local address;
every other connection may only read, and there is one only if that is permitted. -/
theorem dgpListen_admits {permitReadonly : Bool} {remoteid : Nat → NodeId}
    (h : Run dgpListenStep (fun s op => DgpListenOp.Allowed s op)
      (.initial permitReadonly remoteid) ops s es) :
    (∀ id peer, (id, peer) ∈ es → peer.port = 173 ∧
      peer.addr = v6LinklocalAddrFromKeyId id ∧ ∃ e, id = remoteid e) ∧
    ∀ p c, s.conns p = some c → c.dle = none → permitReadonly = true := by
  obtain ⟨hsound, -, ⟨rfl, -⟩, hes⟩ := run_listens h
  refine ⟨hes, fun p c hc hd => ?_⟩
  have hadmitted := hsound.placed.admitted p c hc
  unfold Admitted at hadmitted
  rwa [hd] at hadmitted

end Runs

/-- A socket with one neighbour, whose connection sends something. -/
theorem oneNeighbour_run : ∃ s es,
    Run dgpListenStep (fun s op => DgpListenOp.Allowed s op)
      (.initial false fun _ => ⟨List.replicate 32 0, rfl⟩)
      [.socketRegister (some 3), .entryRegister 0,
        .accept (some ⟨4, true, ⟨[0xfe, 0x80] ++ List.replicate 14 0, 173⟩, some 0, ⟨[], true⟩⟩),
        .read 0 .accepted] s es ∧
      (⟨List.replicate 32 0, rfl⟩, ⟨[0xfe, 0x80] ++ List.replicate 14 0, 173⟩) ∈ es ∧
      s.reg.held ≠ ∅ := by
  refine ⟨_, _, .snoc (.snoc (.snoc (.snoc .nil ?_ rfl) ?_ rfl) ?_ rfl) ?_ rfl, ?_, ?_⟩
  · exact ⟨rfl, by simp [DgpListen.initial]⟩
  · exact ⟨(fun h => nomatch h), List.not_mem_nil⟩
  · refine ⟨Finset.mem_insert_self _ _, ?_⟩
    rintro _ ⟨⟩
    exact ⟨by decide, fun _ _ => rfl⟩
  · exact show DgpListenResource.conn 0 .fd ∈ _ by decide
  · exact List.mem_singleton.mpr rfl
  · decide

/-- It comes from where it should. -/
theorem dgpListen_admits_neighbour : ∃ s es ops,
    Run dgpListenStep (fun s op => DgpListenOp.Allowed s op)
      (.initial false fun _ => ⟨List.replicate 32 0, rfl⟩) ops s es ∧
      es ≠ [] ∧ ∀ id peer, (id, peer) ∈ es → peer.port = 173 := by
  obtain ⟨s, es, hrun, hmem, -⟩ := oneNeighbour_run
  exact ⟨s, es, _, hrun, List.ne_nil_of_mem hmem,
    fun id peer h => ((dgpListen_admits hrun).1 id peer h).1⟩

end Dvpn
