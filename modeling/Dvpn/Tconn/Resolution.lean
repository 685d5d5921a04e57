import Dvpn.Tconn.Getaddrinfo
import Dvpn.Tconn.Retry

/-!
# The host names of the connections

All `tconn_connect`s of the program share `iv_getaddrinfo`. Here they run together: the events of
each connection, the threads, and the completions in the main thread.

* Each connection is a `TconnConnect` with its names and its `res`. What its step registers or gives
  up of `addrinfo` and `res` is what it calls `iv_getaddrinfo_submit`, `iv_getaddrinfo_cancel` and
  `freeaddrinfo` for.
* An owner frees a connection when it is destroyed, its `struct iv_getaddrinfo` with it, whatever
  the threads are doing (`ResolutionOp.free`).

`resolutionStep` is the whole as a machine.

* `run_sheds`: no event but those of the name makes a connection ask for it, or gives it addresses.
* `resolveComplete_spec`, `startResolve_spec`: the events of the name.
-/

namespace Dvpn

open Getaddrinfo

/-! ## The connections with `iv_getaddrinfo` -/

/-- A connection, with its names and the addresses that it tries. -/
structure NamedConn where
  tc : TconnConnect
  hostname : Bytes
  port : Bytes
  res : Option GaiRes

/-- What `start_resolve` asks (`tconn_connect.c:198-207`). -/
def NamedConn.query (conn : NamedConn) : GaiQuery where
  node := some conn.hostname
  service := some conn.port
  hints := some ⟨0, 1, 0, 0x2 + 0x8 + 0x20 + 0x400⟩

/-- The state of `iv_getaddrinfo`, and the connections. -/
abbrev Resolution (n : Nat) := Getaddrinfo (Fin n) × (Fin n → Option NamedConn)

inductive ResolutionCrash where
  | gai (crash : GaiCrash)
  | tconn (crash : TconnCrash)

/-- A request is submitted, its handler is called, or it is cancelled. -/
inductive GaiEvent (n : Nat) where
  | submitted (i : Fin n) (query : GaiQuery)
  | answered (i : Fin n) (query : GaiQuery) (answer : GaiAnswer)
  | cancelled (i : Fin n) (query : GaiQuery)
  deriving DecidableEq

/-- A connection starts or tries again, or something else happens to it; a thread takes a task, or
`getaddrinfo` answers; a task is completed; an owner frees a connection. -/
inductive ResolutionOp (n : Nat) where
  | start (i : Fin n) (hostname port : Bytes) (m : GaiMallocs)
  | retry (i : Fin n) (m : GaiMallocs)
  | event (i : Fin n) (e : TconnEvent)
  | begin (t : Nat)
  | work (t : Nat) (answer : GaiAnswer)
  | complete (t : Nat) (attempts : Nat → AttemptResult)
  | free (i : Fin n)

namespace Resolution

variable {n : Nat}

def liftGai {α : Type} : Except GaiCrash α → Except ResolutionCrash α
  | .ok a => .ok a
  | .error crash => .error (.gai crash)

def liftTconn {α : Type} : Except TconnCrash α → Except ResolutionCrash α
  | .ok a => .ok a
  | .error crash => .error (.tconn crash)

/-- `start_resolve` (`tconn_connect.c:192-229`); `resolve` is the rest of it. -/
def startResolve (s : Resolution n) (i : Fin n) (conn : NamedConn) (m : GaiMallocs)
    (resolve : Bool → TconnConnect) : Except GaiCrash (Resolution n × List (GaiEvent n)) := do
  let request : GaiRequest := ⟨conn.query, (s.1.requests i).bind GaiRequest.task⟩
  let gai := { s.1 with requests := Function.update s.1.requests i (some request) }
  let r ← gai.ivGetaddrinfoSubmit i m
  let submitted := decide (r.2 = 0)
  let conn := { conn with tc := resolve submitted }
  return ((r.1, Function.update s.2 i (some conn)),
    if submitted then [.submitted i conn.query] else [])

/-- A connection after a step. Where it does not hold `res` any more, `freeaddrinfo` was called. -/
def putConn (s : Resolution n) (i : Fin n) (conn : NamedConn) (tc : TconnConnect) :
    Except GaiCrash (Resolution n) :=
  if .res ∈ tc.reg.held then .ok (s.1, Function.update s.2 i (some { conn with tc := tc }))
  else do
    let gai ← s.1.freeaddrinfo conn.res
    return (gai, Function.update s.2 i (some { conn with tc := tc, res := none }))

/-- `resolve_complete` (`tconn_connect.c:137-179`). -/
def resolveComplete (attempts : Nat → AttemptResult) (i : Fin n) (answer : GaiAnswer)
    (s : Resolution n) : Except GaiCrash (Resolution n) :=
  match s.2 i with
  | none => .error .freed
  | some conn =>
    let tc := { conn.tc with reg := conn.tc.reg.expire .addrinfo }
    if answer.ret = 0 then
      match answer.res with
      | none => .error .freed
      | some res =>
        match s.1.heap res.addr with
        | some (.res addrs) =>
          putConn s i { conn with res := some res } (tc.resolveComplete (some addrs) attempts).1
        | _ => .error .freed
    else putConn s i { conn with res := answer.res } (tc.resolveComplete none attempts).1

/-- Where a step gave up the request, `iv_getaddrinfo_cancel` was called. -/
def cancelIf (s : Resolution n) (i : Fin n) (conn : NamedConn) (tc : TconnConnect) :
    Except GaiCrash (Resolution n × List (GaiEvent n)) :=
  if .addrinfo ∈ conn.tc.reg.held ∧ .addrinfo ∉ tc.reg.held then do
    let gai ← s.1.ivGetaddrinfoCancel i
    return ((gai, s.2), [.cancelled i conn.query])
  else .ok (s, [])

/-- What happens to a connection, but for its name. -/
def connEvent (s : Resolution n) (i : Fin n) (conn : NamedConn) (e : TconnEvent) :
    Except ResolutionCrash (Resolution n × List (GaiEvent n)) := do
  let r ← liftTconn (e.run conn.tc)
  let c ← liftGai (cancelIf s i conn r.1)
  let s ← liftGai (putConn c.1 i conn r.1)
  return (s, c.2)

/-- The connection that a task is for. -/
def asker (s : Resolution n) (t : Nat) : Option (Fin n × NamedConn) :=
  match s.1.heap t with
  | some (.task igt) => igt.ig.bind fun i => (s.2 i).map fun conn => (i, conn)
  | _ => none

/-- What the handler of a task is told. -/
def answerEvents (s : Resolution n) (t : Nat) : List (GaiEvent n) :=
  match s.1.heap t, asker s t with
  | some (.task igt), some (i, conn) => [.answered i conn.query ⟨igt.ret, igt.res⟩]
  | _, _ => []

/-- A step of a connection that is there. -/
def onConn {α : Type} (s : Resolution n) (i : Fin n)
    (f : NamedConn → Except ResolutionCrash α) : Except ResolutionCrash α :=
  match s.2 i with
  | none => .error (.gai .freed)
  | some conn => f conn

end Resolution

open Resolution

/-- One step. -/
def resolutionStep {n : Nat} (s : Resolution n) :
    ResolutionOp n → Except ResolutionCrash (Resolution n × List (GaiEvent n))
  | .start i hostname port m =>
    liftGai (startResolve s i ⟨(TconnConnect.start false).1, hostname, port, none⟩ m fun ok =>
      (TconnConnect.start ok).1)
  | .retry i m => onConn s i fun conn =>
    let tc := { conn.tc with reg := conn.tc.reg.expire .retryWait }
    liftGai (startResolve s i conn m fun ok => (tc.startResolve ok).1)
  | .event i e => onConn s i fun conn => connEvent s i conn e
  | .begin t => do
    let gai ← liftGai (s.1.beginWork t)
    return ((gai, s.2), [])
  | .work t answer => do
    let r ← liftGai (s.1.ivGetaddrinfoTaskWork t answer)
    return ((r.1, s.2), [])
  | .complete t attempts => do
    let s' ← liftGai (ivGetaddrinfoTaskComplete (resolveComplete attempts) s t)
    return (s', answerEvents s t)
  | .free i => .ok (({ s.1 with requests := Function.update s.1.requests i none },
      Function.update s.2 i none), [])

/-! ## What a step of a connection acquires -/

/-- Events other than those of the name. -/
def TconnEvent.Other : TconnEvent → Prop
  | .resolved _ _ => False
  | .retry _ => False
  | _ => True

namespace TconnConnect

variable {tc tc' tc'' : TconnConnect} {calls : List TconnCall} {e : TconnEvent}

/-- The step acquires neither a request nor a list of addresses. -/
def Sheds (tc tc' : TconnConnect) : Prop :=
  (.addrinfo ∈ tc'.reg.held → .addrinfo ∈ tc.reg.held) ∧ (.res ∈ tc'.reg.held → .res ∈ tc.reg.held)

theorem Sheds.refl (tc : TconnConnect) : tc.Sheds tc := ⟨id, id⟩

theorem Sheds.trans (h : tc.Sheds tc') (h' : tc'.Sheds tc'') : tc.Sheds tc'' :=
  ⟨h.1 ∘ h'.1, h.2 ∘ h'.2⟩

theorem sheds_register {r : TconnResource} (tc : TconnConnect) (hr : r ≠ .addrinfo)
    (hr' : r ≠ .res) : tc.Sheds { tc with reg := tc.reg.register r } :=
  ⟨fun h => (Registry.mem_register.mp h).resolve_left hr.symm,
    fun h => (Registry.mem_register.mp h).resolve_left hr'.symm⟩

theorem sheds_unregister (tc : TconnConnect) (r : TconnResource) :
    tc.Sheds { tc with reg := tc.reg.unregister r } :=
  ⟨fun h => (Registry.mem_unregister.mp h).2, fun h => (Registry.mem_unregister.mp h).2⟩

theorem sheds_rearm {r : TconnResource} (tc : TconnConnect) (hr : r ≠ .addrinfo) (hr' : r ≠ .res) :
    tc.Sheds { tc with reg := tc.reg.rearm r } :=
  (sheds_unregister tc r).trans (sheds_register { tc with reg := tc.reg.unregister r } hr hr')

theorem sheds_expire (tc : TconnConnect) (r : TconnResource) :
    tc.Sheds { tc with reg := tc.reg.expire r } :=
  ⟨fun h => Finset.mem_of_mem_erase h, fun h => Finset.mem_of_mem_erase h⟩

theorem sheds_scheduleRetry (tc : TconnConnect) : tc.Sheds tc.scheduleRetry.1 :=
  sheds_register { tc with reg := tc.reg.initialise .retryWait } (by decide) (by decide)

theorem sheds_if {reg reg' : Registry TconnResource} {c : Prop} [Decidable c]
    (h : { tc with reg := reg }.Sheds { tc with reg := reg' }) :
    { tc with reg := reg }.Sheds { tc with reg := if c then reg' else reg } := by
  split_ifs
  · exact h
  · exact .refl _

theorem sheds_stateDestroy (tc : TconnConnect) : tc.Sheds tc.stateDestroy.1 := by
  have hun : ∀ (c : Prop) [Decidable c] (reg : Registry TconnResource) r,
      { tc with reg := reg }.Sheds { tc with reg := if c then reg.unregister r else reg } :=
    fun c _ reg r => sheds_if (sheds_unregister { tc with reg := reg } r)
  exact ((hun _ tc.reg _).trans (hun _ _ _)).trans ((hun _ _ _).trans (hun _ _ _))

theorem sheds_startHandshake (tc : TconnConnect) (tls : Bool) :
    tc.Sheds (tc.startHandshake tls).1 := by
  cases tls with
  | false => exact .refl tc
  | true =>
    exact (sheds_register tc (r := .tconn) (by decide) (by decide)).trans
      (sheds_register { tc with reg := tc.reg.register .tconn } (r := .rxTimeout) (by decide)
        (by decide))

theorem sheds_oneConnect (tc : TconnConnect) (r : AttemptResult) :
    tc.Sheds (tc.oneConnect r).1 := by
  cases r <;>
    simp [Sheds, oneConnect, startHandshake, Registry.mem_register, Registry.mem_unregister,
      Registry.initialise]

theorem sheds_tryConnectLoop (attempts : Nat → AttemptResult) (rp : Nat) (tc : TconnConnect) :
    tc.Sheds (tryConnectLoop attempts rp tc).1 := by
  induction rp generalizing tc with
  | zero =>
    exact (sheds_unregister { tc with rp := 0 } .res).trans (sheds_scheduleRetry _)
  | succ rp ih =>
    have hone : tc.Sheds ({ tc with rp := rp + 1 }.oneConnect (attempts (rp + 1))).1 :=
      sheds_oneConnect { tc with rp := rp + 1 } _
    rw [tryConnectLoop]
    generalize { tc with rp := rp + 1 }.oneConnect (attempts (rp + 1)) = p at hone
    obtain ⟨tc₁, connecting⟩ := p
    cases connecting with
    | true => exact hone
    | false => exact hone.trans (ih tc₁)

theorem sheds_connectionFailed (tc : TconnConnect) (attempts : Nat → AttemptResult) :
    tc.Sheds (tc.connectionFailed attempts).1 := by
  have hfirst := sheds_stateDestroy tc
  unfold connectionFailed
  generalize tc.stateDestroy = p at hfirst
  obtain ⟨tc₁, calls⟩ := p
  by_cases hstate : tc₁.state = .connect
  · simp only [if_pos hstate]
    exact hfirst.trans (sheds_tryConnectLoop attempts _ { tc₁ with rp := tc₁.rp - 1 })
  · simp only [if_neg hstate]
    exact hfirst.trans (sheds_scheduleRetry tc₁)

theorem sheds_oneConnectionFailed (tc : TconnConnect) (attempts : Nat → AttemptResult) :
    tc.Sheds (tc.oneConnectionFailed attempts).1 :=
  (sheds_stateDestroy tc).trans
    (sheds_connectionFailed { tc.stateDestroy.1 with oneState := .failed } attempts)

theorem sheds_connected (tc : TconnConnect) (cookie : Option Nat) :
    tc.Sheds (tc.connected cookie).1 := by
  have hres : tc.Sheds { tc with
      reg := tc.reg.unregister .res
      state := .connected
      conncookie := cookie } := sheds_unregister tc .res
  refine hres.trans ?_
  unfold connected
  split
  · exact (sheds_stateDestroy _).trans (sheds_scheduleRetry _)
  · exact .refl _

theorem sheds_handshakeDone (tc : TconnConnect) (cookie : Option Nat) :
    tc.Sheds (tc.handshakeDone cookie).1 := by
  have hset := (sheds_rearm tc (r := .rxTimeout) (by decide) (by decide)).trans
    (sheds_register { tc with reg := (tc.reg.rearm .rxTimeout).initialise .keepaliveTimer }
      (r := .keepaliveTimer) (by decide) (by decide))
  exact Sheds.trans ⟨hset.1, hset.2⟩ (sheds_connected _ cookie)

theorem sheds_connectPollout (tc : TconnConnect) (r : PolloutResult)
    (attempts : Nat → AttemptResult) : tc.Sheds (tc.connectPollout r attempts).1 := by
  cases r with
  | failed => exact .refl tc
  | inProgress => exact .refl tc
  | error => exact (sheds_unregister tc .rxTimeout).trans (sheds_oneConnectionFailed _ attempts)
  | connected tls =>
    have hstart : tc.Sheds ({ tc with reg := tc.reg.unregister .rxTimeout }.startHandshake tls).1 :=
      (sheds_unregister tc .rxTimeout).trans (sheds_startHandshake _ tls)
    unfold connectPollout
    dsimp only
    split
    · exact hstart
    · exact hstart.trans (sheds_oneConnectionFailed _ attempts)

theorem sheds_sendKeepalive (tc : TconnConnect) (sent : Bool) (attempts : Nat → AttemptResult) :
    tc.Sheds (tc.sendKeepalive sent attempts).1 := by
  have hset := sheds_register tc (r := .keepaliveTimer) (by decide) (by decide)
  cases sent with
  | true => exact hset
  | false => exact hset.trans (sheds_oneConnectionFailed _ attempts)

theorem sheds_recordSend (tc : TconnConnect) (sent : Bool) (attempts : Nat → AttemptResult) :
    tc.Sheds (tc.recordSend sent attempts).1 := by
  have hone : tc.Sheds (tc.oneRecordSend sent attempts).1 := by
    unfold oneRecordSend
    split
    · exact .refl tc
    · refine (sheds_rearm tc (r := .keepaliveTimer) (by decide) (by decide)).trans ?_
      split
      · exact .refl _
      · exact sheds_oneConnectionFailed _ attempts
  unfold recordSend
  split
  · exact .refl tc
  · dsimp only
    split
    · exact hone.trans ((sheds_stateDestroy _).trans (sheds_scheduleRetry _))
    · exact hone

theorem sheds_destroy (tc : TconnConnect) : tc.Sheds tc.destroy.1 := by
  unfold destroy
  split
  · exact (sheds_unregister tc .addrinfo).trans
      (sheds_unregister { tc with reg := tc.reg.unregister .addrinfo } .resolveTimeout)
  · exact (sheds_stateDestroy tc).trans (sheds_unregister tc.stateDestroy.1 .res)
  · exact sheds_stateDestroy tc
  · exact sheds_unregister tc .retryWait

/-- **No other event** makes a connection ask for its name, or gives it addresses. -/
theorem run_sheds (he : e.Other) (hrun : e.run tc = .ok (tc', calls)) : tc.Sheds tc' := by
  cases e with
  | resolved addrs attempts => exact he.elim
  | retry submitted => exact he.elim
  | resolveTimeout =>
    cases hrun
    exact (sheds_expire tc .resolveTimeout).trans ((sheds_unregister _ .addrinfo).trans
      (sheds_scheduleRetry _))
  | pollout r attempts =>
    obtain ⟨rfl, -⟩ := Prod.mk.inj (Except.ok.inj hrun).symm
    exact sheds_connectPollout tc r attempts
  | rxTimeout attempts =>
    obtain ⟨rfl, -⟩ := Prod.mk.inj (Except.ok.inj hrun).symm
    exact (sheds_expire tc .rxTimeout).trans (sheds_oneConnectionFailed _ attempts)
  | handshakeDone cookie =>
    obtain ⟨rfl, -⟩ := Prod.mk.inj (Except.ok.inj hrun).symm
    exact sheds_handshakeDone tc cookie
  | recordReceived =>
    obtain ⟨rfl, -⟩ := Prod.mk.inj (Except.ok.inj hrun).symm
    exact sheds_rearm tc (by decide) (by decide)
  | connectionLost attempts =>
    obtain ⟨rfl, -⟩ := Prod.mk.inj (Except.ok.inj hrun).symm
    exact sheds_oneConnectionFailed tc attempts
  | keepalive sent attempts =>
    by_cases hone : tc.oneState ≠ .connected
    · rw [TconnEvent.run, if_pos hone] at hrun
      cases hrun
    · rw [TconnEvent.run, if_neg hone] at hrun
      obtain ⟨rfl, -⟩ := Prod.mk.inj (Except.ok.inj hrun).symm
      exact (sheds_expire tc .keepaliveTimer).trans (sheds_sendKeepalive _ sent attempts)
  | recordSend sent attempts =>
    obtain ⟨rfl, -⟩ := Prod.mk.inj (Except.ok.inj hrun).symm
    exact sheds_recordSend tc sent attempts
  | destroy =>
    obtain ⟨rfl, -⟩ := Prod.mk.inj (Except.ok.inj hrun).symm
    exact sheds_destroy tc

/-! ### What is held in a state -/

theorem Inv.addrinfo (h : tc.Inv) : .addrinfo ∈ tc.reg.held ↔ tc.state = .resolve := by
  rw [h.reg, resources]
  cases tc.state <;> simp
  split <;> simp

theorem Inv.res (h : tc.Inv) : .res ∈ tc.reg.held ↔ tc.state = .connect := by
  rw [h.reg, resources]
  cases tc.state <;> simp
  split <;> simp

theorem Inv.retryWait (h : tc.Inv) : .retryWait ∈ tc.reg.held ↔ tc.state = .waitingRetry := by
  rw [h.reg, resources]
  cases tc.state <;> simp
  split <;> simp

/-- A timer that is not registered does not abort. -/
theorem run_ok (h : tc.Inv) (he : e.Enabled tc) : ∃ r, e.run tc = .ok r := by
  cases e with
  | keepalive sent attempts =>
    have hconn : tc.state = .connected := by
      have htimer : .keepaliveTimer ∈ tc.reg.held := he.2.2
      rw [h.reg, resources] at htimer
      cases hstate : tc.state with
      | connected => rfl
      | resolve => simp [hstate] at htimer
      | connect =>
        simp only [hstate] at htimer
        split at htimer <;> simp at htimer
      | waitingRetry => simp [hstate] at htimer
    rw [TconnEvent.run, if_neg (not_not.mpr (h.connected hconn).1)]
    exact ⟨_, rfl⟩
  | _ => exact ⟨_, rfl⟩

/-- What is left of the invariant after any step. -/
theorem outcome_sound (h : tc.Inv) (hout : StepOutcome tc tc' calls) (hsheds : tc.Sheds tc') :
    (tc'.reg.misuses = [] → tc'.destroyed = false → tc'.Inv) ∧
      (tc'.destroyed = true → .addrinfo ∉ tc'.reg.held ∧ .res ∉ tc'.reg.held) := by
  have hinv : tc'.Inv → (tc'.reg.misuses = [] → tc'.destroyed = false → tc'.Inv) ∧
      (tc'.destroyed = true → .addrinfo ∉ tc'.reg.held ∧ .res ∉ tc'.reg.held) :=
    fun h' => ⟨fun _ _ => h', fun hd => absurd (hd.symm.trans h'.destroyed) (by decide)⟩
  cases hout with
  | tries _ h' => exact hinv h'
  | accepted _ h' => exact hinv h'
  | refused _ h' => exact hinv h'
  | stays _ h' => exact hinv h'
  | lost _ h' => exact hinv h'
  | sendFailed hconn _ hmisuses =>
    refine ⟨fun hnil => absurd hnil hmisuses, fun _ => ⟨fun hm => ?_, fun hm => ?_⟩⟩
    · exact nomatch hconn.symm.trans (h.addrinfo.mp (hsheds.1 hm))
    · exact nomatch hconn.symm.trans (h.res.mp (hsheds.2 hm))
  | destroyed hd hreg =>
    refine ⟨fun _ hd' => absurd (hd.symm.trans hd') (by decide), fun _ => ?_⟩
    rw [hreg]
    exact ⟨Finset.notMem_empty _, Finset.notMem_empty _⟩

/-- **A resolution is over**: there are addresses to try, or the connection waits. -/
theorem resolveComplete_spec (h : tc.Inv) (hstate : tc.state = .resolve) (addrs : Option Nat)
    (attempts : Nat → AttemptResult) :
    ({ tc with reg := tc.reg.expire .addrinfo }.resolveComplete addrs attempts).1.Inv ∧
      ({ tc with reg := tc.reg.expire .addrinfo }.resolveComplete addrs attempts).1.state ≠
        .resolve ∧
      (addrs = none →
        ({ tc with reg := tc.reg.expire .addrinfo }.resolveComplete addrs attempts).1.state ≠
          .connect) := by
  obtain ⟨hd, hreg, -, -⟩ := h
  obtain ⟨state, oneState, rp, cookie, reg, destroyed⟩ := tc
  dsimp only at hd hstate
  subst hd hstate
  obtain rfl : reg = ⟨{.resolveTimeout, .addrinfo}, []⟩ := hreg
  cases addrs with
  | none => exact ⟨⟨rfl, rfl, nofun, nofun⟩, nofun, fun _ => nofun⟩
  | some addrs =>
    obtain ⟨hinv, hafter⟩ := @tryConnect_spec
      ⟨.connect, oneState, addrs, cookie, ⟨{.res}, []⟩, false⟩ rfl rfl rfl attempts
    refine ⟨hinv, fun hresolve => ?_, nofun⟩
    rcases hafter with ⟨hconnect, -⟩ | ⟨hwaiting, -⟩
    · exact nomatch hconnect.symm.trans hresolve
    · exact nomatch hwaiting.symm.trans hresolve

/-- A connection that tries again. -/
theorem startResolve_spec (h : tc.Inv) (hstate : tc.state = .waitingRetry) (submitted : Bool) :
    ({ tc with reg := tc.reg.expire .retryWait }.startResolve submitted).1.Inv ∧
      (({ tc with reg := tc.reg.expire .retryWait }.startResolve submitted).1.state = .resolve ↔
        submitted = true) ∧
      ({ tc with reg := tc.reg.expire .retryWait }.startResolve submitted).1.state ≠ .connect := by
  obtain ⟨hd, hreg, -, -⟩ := h
  obtain ⟨state, oneState, rp, cookie, reg, destroyed⟩ := tc
  dsimp only at hd hstate
  subst hd hstate
  obtain rfl : reg = ⟨{.retryWait}, []⟩ := hreg
  cases submitted with
  | true => exact ⟨⟨rfl, rfl, nofun, nofun⟩, iff_of_true rfl rfl, nofun⟩
  | false => exact ⟨⟨rfl, rfl, nofun, nofun⟩, iff_of_false nofun Bool.false_ne_true, nofun⟩

end TconnConnect

end Dvpn
