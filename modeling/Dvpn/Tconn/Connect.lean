import Dvpn.Registry
import Dvpn.Run

/-!
# An outgoing connection (`tconn_connect.c`, `tconn_connect_one.c`)

A `tconn_connect` resolves a host name, tries the addresses one after the other, and waits before it
starts again when all have failed or an established connection is lost. A single attempt is a
`tconn_connect_one`, which connects, does the TLS handshake and watches the connection.

The model has the two states, the cookie of the owner, and what is registered or allocated
(`TconnResource`). Of the union in `struct tconn_connect` every member has its own place here:
`tco_connect` and `tco` are at one offset, and `state` of `struct tconn_connect_one` is behind the
end of `retry_wait`, so that it can still be read there. The rest (names, keys, `verify_key_ids`,
the times of the timers) is left out.

* The events carry what the system calls, GnuTLS and the callbacks of the owner return. An
  `attempts` says what becomes of the connection attempt with that many addresses left.
* ivykis aborts at the first misuse, so that no event follows one (`TconnEvent.Enabled`).

A step emits one `TconnEntry`, with the calls that were made (`TconnCall`).

* `tryConnect_spec`: the loop over the addresses.
* `step_outcome`: what a step can do (`StepOutcome`), for every event.
-/

namespace Dvpn

/-! ## The state -/

/-- The states of `struct tconn_connect` (`tconn_connect.c:33-36`). -/
inductive TconnState where
  | resolve
  | connect
  | connected
  | waitingRetry
  deriving DecidableEq, Repr

/-- The states of `struct tconn_connect_one` (`tconn_connect_one.c:36-39`). -/
inductive TconnOneState where
  | connect
  | tlsHandshake
  | connected
  | failed
  deriving DecidableEq, Repr

/-- What is registered or allocated: the `iv_getaddrinfo` request, `resolve_timeout`, the result of
the resolution, `retry_wait`; and of a `tconn_connect_one` the `rx_timeout`, the fd, the TLS session
and the `keepalive_timer`. -/
inductive TconnResource where
  | addrinfo
  | resolveTimeout
  | res
  | retryWait
  | rxTimeout
  | fd
  | tconn
  | keepaliveTimer
  deriving DecidableEq, Repr

/-- `struct tconn_connect`: `rp` is the number of addresses that are left, and `destroyed` says that
the owner has destroyed the connection. -/
structure TconnConnect where
  state : TconnState
  oneState : TconnOneState
  rp : Nat
  conncookie : Option Nat
  reg : Registry TconnResource
  destroyed : Bool

/-- The calls that matter to the owner: of its callbacks, of `schedule_retry`, of `state_destroy`
for a connection that is not torn down yet, and of `tconn_record_send` with a record of the owner.
-/
inductive TconnCall where
  | newConn (cookie : Option Nat)
  | recordReceived (cookie : Option Nat)
  | disconnect (cookie : Option Nat)
  | scheduleRetry
  | teardown
  | recordSend (sent : Bool)
  deriving DecidableEq, Repr

/-- What becomes of `tconn_connect_one_connect`: `socket` fails, `connect` fails, `connect` returns
0 and `tconn_start` fails, `connect` is in progress, or the handshake has been started. -/
inductive AttemptResult where
  | noSocket
  | refused
  | noTls
  | inProgress
  | handshaking

/-- What `getsockopt` says in `connect_pollout`: it fails, `SO_ERROR` is `EINPROGRESS` or another
error, or it is 0 and `tconn_start` succeeds or not. -/
inductive PolloutResult where
  | failed
  | inProgress
  | error
  | connected (tls : Bool)

namespace TconnConnect

/-! ## The code -/

/-- `schedule_retry` (`tconn_connect.c:52-67`). -/
def scheduleRetry (tc : TconnConnect) : TconnConnect × List TconnCall :=
  ({ tc with
    state := .waitingRetry
    reg := (tc.reg.initialise .retryWait).register .retryWait },
    (if tc.state = .connected then [.disconnect tc.conncookie] else []) ++ [.scheduleRetry])

/-- `state_destroy` (`tconn_connect_one.c:46-65`), which is `tconn_connect_one_disconnect`. -/
def stateDestroy (tc : TconnConnect) : TconnConnect × List TconnCall :=
  let reg := tc.reg
  let reg := if .rxTimeout ∈ reg.held then reg.unregister .rxTimeout else reg
  let reg := if tc.oneState = .tlsHandshake ∨ tc.oneState = .connected
    then reg.unregister .tconn else reg
  let reg := if tc.oneState = .connect ∨ tc.oneState = .tlsHandshake ∨ tc.oneState = .connected
    then reg.unregister .fd else reg
  let reg := if tc.oneState = .connected then reg.unregister .keepaliveTimer else reg
  ({ tc with reg := reg }, if tc.oneState = .failed then [] else [.teardown])

/-- `start_handshake` (`tconn_connect_one.c:217-244`), and whether it succeeds. -/
def startHandshake (tc : TconnConnect) (tls : Bool) : TconnConnect × Bool :=
  if tls then
    ({ tc with
      oneState := .tlsHandshake
      reg := (tc.reg.register .tconn).register .rxTimeout }, true)
  else (tc, false)

/-- `tconn_connect_one_connect` (`tconn_connect_one.c:275-321`), and whether it returns 0. -/
def oneConnect (tc : TconnConnect) (r : AttemptResult) : TconnConnect × Bool :=
  let tc := { tc with oneState := .connect, reg := tc.reg.initialise .rxTimeout }
  match r with
  | .noSocket => (tc, false)
  | .refused => ({ tc with reg := (tc.reg.register .fd).unregister .fd }, false)
  | .noTls =>
    let (tc, _) := { tc with reg := tc.reg.register .fd }.startHandshake false
    ({ tc with reg := tc.reg.unregister .fd }, false)
  | .handshaking => { tc with reg := tc.reg.register .fd }.startHandshake true
  | .inProgress => ({ tc with reg := (tc.reg.register .fd).register .rxTimeout }, true)

/-- The loop of `try_connect` (`tconn_connect.c:113-135`) with `rp` addresses left. -/
def tryConnectLoop (attempts : Nat → AttemptResult) :
    Nat → TconnConnect → TconnConnect × List TconnCall
  | 0, tc => { tc with rp := 0, reg := tc.reg.unregister .res }.scheduleRetry
  | rp + 1, tc =>
    let (tc, connecting) := { tc with rp := rp + 1 }.oneConnect (attempts (rp + 1))
    if connecting then (tc, []) else tryConnectLoop attempts rp tc

/-- `try_connect` (`tconn_connect.c:113-135`). -/
def tryConnect (tc : TconnConnect) (attempts : Nat → AttemptResult) :
    TconnConnect × List TconnCall :=
  tryConnectLoop attempts tc.rp tc

/-- `connection_failed` (`tconn_connect.c:95-111`). -/
def connectionFailed (tc : TconnConnect) (attempts : Nat → AttemptResult) :
    TconnConnect × List TconnCall :=
  let (tc, calls) := tc.stateDestroy
  let (tc, calls') :=
    if tc.state = .connect then { tc with rp := tc.rp - 1 }.tryConnect attempts
    else tc.scheduleRetry
  (tc, calls ++ calls')

/-- `connection_failed` (`tconn_connect_one.c:67-73`). -/
def oneConnectionFailed (tc : TconnConnect) (attempts : Nat → AttemptResult) :
    TconnConnect × List TconnCall :=
  let (tc, calls) := tc.stateDestroy
  let (tc, calls') := { tc with oneState := .failed }.connectionFailed attempts
  (tc, calls ++ calls')

/-- `connected` (`tconn_connect.c:69-86`); `cookie` is what `new_conn` returns. -/
def connected (tc : TconnConnect) (cookie : Option Nat) : TconnConnect × List TconnCall :=
  let tc := { tc with
    reg := tc.reg.unregister .res
    state := .connected
    conncookie := cookie }
  if cookie = none then
    let (tc, calls) := tc.stateDestroy
    let (tc, calls') := tc.scheduleRetry
    (tc, .newConn cookie :: (calls ++ calls'))
  else (tc, [.newConn cookie])

/-- `handshake_done` (`tconn_connect_one.c:169-194`). -/
def handshakeDone (tc : TconnConnect) (cookie : Option Nat) : TconnConnect × List TconnCall :=
  let reg := tc.reg.rearm .rxTimeout
  let reg := (reg.initialise .keepaliveTimer).register .keepaliveTimer
  { tc with oneState := .connected, reg := reg }.connected cookie

/-- `record_received` (`tconn_connect_one.c:196-208`, `tconn_connect.c:88-93`). -/
def recordReceived (tc : TconnConnect) : TconnConnect × List TconnCall :=
  ({ tc with reg := tc.reg.rearm .rxTimeout }, [.recordReceived tc.conncookie])

/-- `connect_pollout` (`tconn_connect_one.c:246-273`). -/
def connectPollout (tc : TconnConnect) (r : PolloutResult) (attempts : Nat → AttemptResult) :
    TconnConnect × List TconnCall :=
  match r with
  | .failed => (tc, [])
  | .inProgress => (tc, [])
  | .error => { tc with reg := tc.reg.unregister .rxTimeout }.oneConnectionFailed attempts
  | .connected tls =>
    let (tc, ok) := { tc with reg := tc.reg.unregister .rxTimeout }.startHandshake tls
    if ok then (tc, []) else tc.oneConnectionFailed attempts

/-- `send_keepalive` (`tconn_connect_one.c:150-167`) behind its `abort()`. -/
def sendKeepalive (tc : TconnConnect) (sent : Bool) (attempts : Nat → AttemptResult) :
    TconnConnect × List TconnCall :=
  let tc := { tc with reg := tc.reg.register .keepaliveTimer }
  if sent then (tc, []) else tc.oneConnectionFailed attempts

/-- `tconn_connect_one_record_send` (`tconn_connect_one.c:362-383`), and whether it returns -1. -/
def oneRecordSend (tc : TconnConnect) (sent : Bool) (attempts : Nat → AttemptResult) :
    TconnConnect × List TconnCall × Bool :=
  if tc.oneState ≠ .connected then (tc, [], false)
  else
    let tc := { tc with reg := tc.reg.rearm .keepaliveTimer }
    if sent then (tc, [.recordSend sent], false)
    else
      let (tc, calls) := tc.oneConnectionFailed attempts
      (tc, .recordSend sent :: calls, true)

/-- `tconn_connect_record_send` (`tconn_connect.c:273-287`). -/
def recordSend (tc : TconnConnect) (sent : Bool) (attempts : Nat → AttemptResult) :
    TconnConnect × List TconnCall :=
  if tc.state ≠ .connected then (tc, [])
  else
    let (tc, calls, failed) := tc.oneRecordSend sent attempts
    if failed then
      let (tc, calls') := tc.stateDestroy
      let (tc, calls'') := tc.scheduleRetry
      (tc, calls ++ calls' ++ calls'')
    else (tc, calls)

/-- `start_resolve` (`tconn_connect.c:192-229`); `submitted` says that `iv_getaddrinfo_submit`
returns 0. -/
def startResolve (tc : TconnConnect) (submitted : Bool) : TconnConnect × List TconnCall :=
  let tc := { tc with state := .resolve }
  if submitted then
    let reg := tc.reg.register .addrinfo
    ({ tc with reg := (reg.initialise .resolveTimeout).register .resolveTimeout }, [])
  else tc.scheduleRetry

/-- `resolve_complete` (`tconn_connect.c:137-179`): `addrs` addresses, of which there is one at
least, or an error. -/
def resolveComplete (tc : TconnConnect) (addrs : Option Nat) (attempts : Nat → AttemptResult) :
    TconnConnect × List TconnCall :=
  let tc := { tc with reg := tc.reg.unregister .resolveTimeout }
  match addrs with
  | some addrs =>
    { tc with state := .connect, rp := addrs, reg := tc.reg.register .res }.tryConnect attempts
  | none => tc.scheduleRetry

/-- `resolve_timeout_expired` (`tconn_connect.c:181-190`). -/
def resolveTimeoutExpired (tc : TconnConnect) : TconnConnect × List TconnCall :=
  { tc with reg := tc.reg.unregister .addrinfo }.scheduleRetry

/-- `tconn_connect_start` (`tconn_connect.c:231-234`). -/
def start (submitted : Bool) : TconnConnect × List TconnCall :=
  startResolve
    { state := .resolve
      oneState := .failed
      rp := 0
      conncookie := none
      reg := .empty
      destroyed := false } submitted

/-- `tconn_connect_destroy` (`tconn_connect.c:236-251`). -/
def destroy (tc : TconnConnect) : TconnConnect × List TconnCall :=
  match tc.state with
  | .resolve =>
    ({ tc with
      reg := (tc.reg.unregister .addrinfo).unregister .resolveTimeout
      destroyed := true }, [])
  | .connect =>
    let (tc, calls) := tc.stateDestroy
    ({ tc with reg := tc.reg.unregister .res, destroyed := true }, calls)
  | .connected =>
    let (tc, calls) := tc.stateDestroy
    ({ tc with destroyed := true }, calls)
  | .waitingRetry => ({ tc with reg := tc.reg.unregister .retryWait, destroyed := true }, [])

end TconnConnect

/-- The events: the resolution ends or times out, an fd or a timer is ready, GnuTLS reports a
handshake, a record or a loss, the owner sends a record or destroys the connection, or the time to
wait is over. -/
inductive TconnEvent where
  | resolved (addrs : Option Nat) (attempts : Nat → AttemptResult)
  | resolveTimeout
  | pollout (r : PolloutResult) (attempts : Nat → AttemptResult)
  | rxTimeout (attempts : Nat → AttemptResult)
  | handshakeDone (cookie : Option Nat)
  | recordReceived
  | connectionLost (attempts : Nat → AttemptResult)
  | keepalive (sent : Bool) (attempts : Nat → AttemptResult)
  | recordSend (sent : Bool) (attempts : Nat → AttemptResult)
  | retry (submitted : Bool)
  | destroy

/-- One event in the log: the state before and after it, and the calls that were made. -/
structure TconnEntry where
  before : TconnState
  after : TconnState
  calls : List TconnCall

/-- The `abort()` of `send_keepalive` (`tconn_connect_one.c:155-156`). -/
inductive TconnCrash where
  | sendKeepalive

/-- What an event does, and the calls. -/
def TconnEvent.run (tc : TconnConnect) :
    TconnEvent → Except TconnCrash (TconnConnect × List TconnCall)
  | .resolved addrs attempts =>
    return { tc with reg := tc.reg.expire .addrinfo }.resolveComplete addrs attempts
  | .resolveTimeout =>
    return { tc with reg := tc.reg.expire .resolveTimeout }.resolveTimeoutExpired
  | .pollout r attempts => return tc.connectPollout r attempts
  | .rxTimeout attempts =>
    return { tc with reg := tc.reg.expire .rxTimeout }.oneConnectionFailed attempts
  | .handshakeDone cookie => return tc.handshakeDone cookie
  | .recordReceived => return tc.recordReceived
  | .connectionLost attempts => return tc.oneConnectionFailed attempts
  | .keepalive sent attempts =>
    if tc.oneState ≠ .connected then throw .sendKeepalive
    else return { tc with reg := tc.reg.expire .keepaliveTimer }.sendKeepalive sent attempts
  | .recordSend sent attempts => return tc.recordSend sent attempts
  | .retry submitted => return { tc with reg := tc.reg.expire .retryWait }.startResolve submitted
  | .destroy => return tc.destroy

/-- One event, with its entry in the log. -/
def tconnStep (tc : TconnConnect) (e : TconnEvent) :
    Except TconnCrash (TconnConnect × List TconnEntry) := do
  let (tc', calls) ← e.run tc
  return (tc', [⟨tc.state, tc'.state, calls⟩])

/-- The events that can happen: what they come from is registered, and `getaddrinfo` succeeds with
one address at least. -/
def TconnEvent.Enabled (tc : TconnConnect) (e : TconnEvent) : Prop :=
  tc.reg.misuses = [] ∧ tc.destroyed = false ∧
    match e with
    | .resolved addrs _ => .addrinfo ∈ tc.reg.held ∧ addrs ≠ some 0
    | .resolveTimeout => .resolveTimeout ∈ tc.reg.held
    | .pollout _ _ => .fd ∈ tc.reg.held ∧ tc.oneState = .connect
    | .rxTimeout _ => .rxTimeout ∈ tc.reg.held
    | .handshakeDone _ => .tconn ∈ tc.reg.held ∧ tc.oneState = .tlsHandshake
    | .recordReceived => .tconn ∈ tc.reg.held ∧ tc.oneState = .connected
    | .connectionLost _ => .tconn ∈ tc.reg.held
    | .keepalive _ _ => .keepaliveTimer ∈ tc.reg.held
    | .recordSend _ _ => True
    | .retry _ => .retryWait ∈ tc.reg.held
    | .destroy => True

/-! ## What a step can do -/

namespace TconnConnect

variable {tc tc' : TconnConnect} {calls : List TconnCall} {attempts : Nat → AttemptResult}

/-- What is registered or allocated in a state. -/
def resources (tc : TconnConnect) : Finset TconnResource :=
  match tc.state with
  | .resolve => {.resolveTimeout, .addrinfo}
  | .connect =>
    if tc.oneState = .tlsHandshake then {.rxTimeout, .tconn, .fd, .res} else {.rxTimeout, .fd, .res}
  | .connected => {.keepaliveTimer, .rxTimeout, .tconn, .fd}
  | .waitingRetry => {.retryWait}

/-- The invariant of a connection that is not destroyed. -/
structure Inv (tc : TconnConnect) : Prop where
  destroyed : tc.destroyed = false
  reg : tc.reg = ⟨tc.resources, []⟩
  connect : tc.state = .connect → tc.oneState = .connect ∨ tc.oneState = .tlsHandshake
  connected : tc.state = .connected → tc.oneState = .connected ∧ ∃ k, tc.conncookie = some k

theorem scheduleRetry_inv (hd : tc.destroyed = false) (h : tc.reg = .empty) :
    tc.scheduleRetry.1.Inv := by
  refine ⟨hd, ?_, nofun, nofun⟩
  rw [scheduleRetry, h]
  rfl

theorem oneConnect_spec (hd : tc.destroyed = false) (hstate : tc.state = .connect)
    (h : tc.reg = ⟨{.res}, []⟩) (r : AttemptResult) :
    (tc.oneConnect r).1.state = .connect ∧ (tc.oneConnect r).1.destroyed = false ∧
      if (tc.oneConnect r).2 then (tc.oneConnect r).1.Inv
      else (tc.oneConnect r).1.reg = ⟨{.res}, []⟩ := by
  obtain ⟨state, oneState, rp, cookie, reg, destroyed⟩ := tc
  dsimp only at hd hstate h
  subst hd hstate h
  cases r with
  | noSocket => exact ⟨rfl, rfl, rfl⟩
  | refused => exact ⟨rfl, rfl, rfl⟩
  | noTls => exact ⟨rfl, rfl, rfl⟩
  | handshaking => exact ⟨rfl, rfl, ⟨rfl, rfl, fun _ => Or.inr rfl, nofun⟩⟩
  | inProgress => exact ⟨rfl, rfl, ⟨rfl, rfl, fun _ => Or.inl rfl, nofun⟩⟩

/-- **The loop over the addresses** ends in an attempt, or in the wait for another try. -/
theorem tryConnect_spec (hd : tc.destroyed = false) (hstate : tc.state = .connect)
    (h : tc.reg = ⟨{.res}, []⟩) (attempts : Nat → AttemptResult) :
    (tc.tryConnect attempts).1.Inv ∧
      ((tc.tryConnect attempts).1.state = .connect ∧ (tc.tryConnect attempts).2 = [] ∨
        (tc.tryConnect attempts).1.state = .waitingRetry ∧
          (tc.tryConnect attempts).2 = [.scheduleRetry]) := by
  have hloop : ∀ (rp : Nat) (tc : TconnConnect), tc.destroyed = false → tc.state = .connect →
      tc.reg = ⟨{.res}, []⟩ → (tryConnectLoop attempts rp tc).1.Inv ∧
      ((tryConnectLoop attempts rp tc).1.state = .connect ∧
          (tryConnectLoop attempts rp tc).2 = [] ∨
        (tryConnectLoop attempts rp tc).1.state = .waitingRetry ∧
          (tryConnectLoop attempts rp tc).2 = [.scheduleRetry]) := by
    intro rp
    induction rp with
    | zero =>
      intro tc hd hstate h
      have hreg : tc.reg.unregister .res = .empty := h ▸ rfl
      refine ⟨@scheduleRetry_inv { tc with rp := 0, reg := tc.reg.unregister .res } hd hreg,
        Or.inr ⟨rfl, ?_⟩⟩
      simp only [tryConnectLoop, scheduleRetry, hstate]
      rfl
    | succ rp ih =>
      intro tc hd hstate h
      have hone := @oneConnect_spec { tc with rp := rp + 1 } hd hstate h (attempts (rp + 1))
      rw [tryConnectLoop]
      generalize { tc with rp := rp + 1 }.oneConnect (attempts (rp + 1)) = p at hone
      obtain ⟨tc₁, connecting⟩ := p
      obtain ⟨hstate₁, hd₁, hone⟩ := hone
      cases connecting with
      | true => exact ⟨hone, Or.inl ⟨hstate₁, rfl⟩⟩
      | false => exact ih tc₁ hd₁ hstate₁ hone
  exact hloop tc.rp tc hd hstate h

/-- What a step can do. -/
inductive StepOutcome (tc tc' : TconnConnect) : List TconnCall → Prop
  /-- no connection is established, before or after -/
  | tries {calls : List TconnCall} : tc.state ≠ .connected → tc'.Inv → tc'.state ≠ .connected →
      calls.Sublist [.teardown, .scheduleRetry] → StepOutcome tc tc' calls
  | accepted {k : Nat} : tc.state ≠ .connected → tc'.Inv → tc'.state = .connected →
      tc'.conncookie = some k → StepOutcome tc tc' [.newConn (some k)]
  | refused : tc.state ≠ .connected → tc'.Inv → tc'.state = .waitingRetry →
      StepOutcome tc tc' [.newConn none, .teardown, .disconnect none, .scheduleRetry]
  | stays {calls : List TconnCall} : tc.state = .connected → tc'.Inv → tc'.state = .connected →
      tc'.conncookie = tc.conncookie →
      (∀ call ∈ calls, call = .recordReceived tc.conncookie ∨ call = .recordSend true) →
      StepOutcome tc tc' calls
  | lost : tc.state = .connected → tc'.Inv → tc'.state = .waitingRetry →
      StepOutcome tc tc' [.teardown, .disconnect tc.conncookie, .scheduleRetry]
  /-- the loss is handled twice -/
  | sendFailed : tc.state = .connected → tc'.state = .waitingRetry → tc'.reg.misuses ≠ [] →
      StepOutcome tc tc' [.recordSend false, .teardown, .disconnect tc.conncookie, .scheduleRetry,
        .scheduleRetry]
  | destroyed {calls : List TconnCall} : tc'.destroyed = true → tc'.reg = .empty →
      tc'.state = tc.state → calls.Sublist [.teardown] → StepOutcome tc tc' calls

/-- The outcome depends on the state before it alone, unless a connection was established. -/
theorem StepOutcome.before {tc₁ : TconnConnect} (h : StepOutcome tc₁ tc' calls)
    (heq : tc.state = tc₁.state) (hne : tc₁.state ≠ .connected) : StepOutcome tc tc' calls := by
  cases h with
  | tries _ hinv hafter hcalls => exact .tries (heq ▸ hne) hinv hafter hcalls
  | accepted _ hinv hafter hk => exact .accepted (heq ▸ hne) hinv hafter hk
  | refused _ hinv hafter => exact .refused (heq ▸ hne) hinv hafter
  | stays hconn => exact absurd hconn hne
  | lost hconn => exact absurd hconn hne
  | sendFailed hconn => exact absurd hconn hne
  | destroyed hd hreg hstate hcalls => exact .destroyed hd hreg (hstate.trans heq.symm) hcalls

theorem tryConnect_outcome {tc₀ : TconnConnect} (hne : tc₀.state ≠ .connected)
    (hd : tc.destroyed = false) (hstate : tc.state = .connect) (h : tc.reg = ⟨{.res}, []⟩)
    (attempts : Nat → AttemptResult) :
    StepOutcome tc₀ (tc.tryConnect attempts).1 (tc.tryConnect attempts).2 := by
  obtain ⟨hinv, ⟨hafter, hcalls⟩ | ⟨hafter, hcalls⟩⟩ := tryConnect_spec hd hstate h attempts
  · exact .tries hne hinv (by simp [hafter]) (by simp [hcalls])
  · exact .tries hne hinv (by simp [hafter]) (by simp [hcalls])

/-- An attempt that fails. -/
theorem oneConnectionFailed_connect (hd : tc.destroyed = false) (hstate : tc.state = .connect)
    (hone : tc.oneState = .connect ∨ tc.oneState = .tlsHandshake)
    (h : tc.stateDestroy.1.reg = ⟨{.res}, []⟩) (attempts : Nat → AttemptResult) :
    StepOutcome tc (tc.oneConnectionFailed attempts).1 (tc.oneConnectionFailed attempts).2 := by
  obtain ⟨state, oneState, rp, cookie, reg, destroyed⟩ := tc
  dsimp only at hd hstate hone
  subst hd hstate
  have hspec := @tryConnect_spec ⟨.connect, .failed, rp - 1, cookie, ⟨{.res}, []⟩, false⟩ rfl rfl
    rfl attempts
  have hcalls : (stateDestroy ⟨.connect, oneState, rp, cookie, reg, false⟩).2 = [.teardown] := by
    rcases hone with rfl | rfl <;> rfl
  have hfirst : stateDestroy ⟨.connect, oneState, rp, cookie, reg, false⟩ =
      (⟨.connect, oneState, rp, cookie, ⟨{.res}, []⟩, false⟩, [.teardown]) :=
    Prod.ext (by rw [← h]; rfl) hcalls
  have hrun : oneConnectionFailed ⟨.connect, oneState, rp, cookie, reg, false⟩ attempts =
      ((tryConnect ⟨.connect, .failed, rp - 1, cookie, ⟨{.res}, []⟩, false⟩ attempts).1,
        .teardown ::
          (tryConnect ⟨.connect, .failed, rp - 1, cookie, ⟨{.res}, []⟩, false⟩ attempts).2) := by
    rw [oneConnectionFailed, hfirst]
    rfl
  rw [hrun]
  obtain ⟨hinv, ⟨hstate, hnil⟩ | ⟨hstate, hone⟩⟩ := hspec
  · refine .tries nofun hinv (by simp [hstate]) ?_
    rw [hnil]
    exact .cons_cons _ (List.nil_sublist _)
  · refine .tries nofun hinv (by simp [hstate]) ?_
    rw [hone]

/-! ## The events -/

/-- The state of a connection that is established. -/
def established (rp k : Nat) : TconnConnect where
  state := .connected
  oneState := .connected
  rp := rp
  conncookie := some k
  reg := ⟨{.keepaliveTimer, .rxTimeout, .tconn, .fd}, []⟩
  destroyed := false

theorem Inv.eq_established (h : tc.Inv) (hstate : tc.state = .connected) :
    ∃ k, tc = established tc.rp k := by
  obtain ⟨hd, hreg, _, hconn⟩ := h
  obtain ⟨hone, k, hk⟩ := hconn hstate
  obtain ⟨state, oneState, rp, cookie, reg, destroyed⟩ := tc
  dsimp only at hd hone hk hstate
  subst hd hone hk hstate
  exact ⟨k, congrArg (TconnConnect.mk _ _ _ _ · _) hreg⟩

/-- A step from an established connection. -/
theorem established_outcome {e : TconnEvent} {rp k : Nat} (he : e.Enabled (established rp k))
    (hrun : e.run (established rp k) = .ok (tc', calls)) :
    StepOutcome (established rp k) tc' calls := by
  have hinv : (established rp k).Inv := ⟨rfl, rfl, nofun, fun _ => ⟨rfl, k, rfl⟩⟩
  obtain ⟨_, _, he⟩ := he
  cases e with
  | resolved addrs attempts => exact absurd he.1 (by simp [established])
  | resolveTimeout => exact absurd he (by simp [established])
  | pollout r attempts => exact nomatch he.2
  | rxTimeout attempts =>
    cases hrun
    exact .lost rfl ⟨rfl, rfl, nofun, nofun⟩ rfl
  | handshakeDone cookie => exact nomatch he.2
  | recordReceived =>
    have hrearm : (established rp k).reg.rearm .rxTimeout = (established rp k).reg :=
      Registry.rearm_eq (by simp [established])
    have hsame : (established rp k).recordReceived =
        (established rp k, [.recordReceived (some k)]) := by
      rw [recordReceived, hrearm]
      rfl
    obtain ⟨rfl, rfl⟩ := Prod.mk.inj (hsame.symm.trans (Except.ok.inj hrun))
    exact .stays rfl hinv rfl rfl (by simp [established])
  | connectionLost attempts =>
    cases hrun
    exact .lost rfl ⟨rfl, rfl, nofun, nofun⟩ rfl
  | keepalive sent attempts =>
    cases sent with
    | true =>
      cases hrun
      exact .stays rfl hinv rfl rfl (by simp)
    | false =>
      cases hrun
      exact .lost rfl ⟨rfl, rfl, nofun, nofun⟩ rfl
  | recordSend sent attempts =>
    cases sent with
    | true =>
      cases hrun
      exact .stays rfl hinv rfl rfl (by simp)
    | false =>
      cases hrun
      exact .sendFailed rfl rfl (List.cons_ne_nil _ _)
  | retry submitted => exact absurd he (by simp [established])
  | destroy =>
    cases hrun
    exact .destroyed rfl rfl rfl (List.Sublist.refl _)

/-- A step from a state in which a name is resolved. -/
theorem resolving_outcome {e : TconnEvent} (hi : tc.Inv) (hstate : tc.state = .resolve)
    (he : e.Enabled tc) (hrun : e.run tc = .ok (tc', calls)) : StepOutcome tc tc' calls := by
  obtain ⟨hd, hreg, _, _⟩ := hi
  obtain ⟨state, oneState, rp, cookie, reg, destroyed⟩ := tc
  dsimp only at hd hstate
  subst hd hstate
  obtain rfl : reg = ⟨{.resolveTimeout, .addrinfo}, []⟩ := hreg
  obtain ⟨_, _, he⟩ := he
  cases e with
  | resolved addrs attempts =>
    cases addrs with
    | none =>
      cases hrun
      exact .tries nofun ⟨rfl, rfl, nofun, nofun⟩ nofun (List.sublist_cons_self _ _)
    | some addrs =>
      obtain ⟨rfl, rfl⟩ := Prod.mk.inj (Except.ok.inj hrun).symm
      refine @tryConnect_outcome ⟨.connect, oneState, addrs, cookie, ⟨{.res}, []⟩, false⟩ _ ?_ rfl
        rfl rfl attempts
      nofun
  | resolveTimeout =>
    cases hrun
    exact .tries nofun ⟨rfl, rfl, nofun, nofun⟩ nofun (List.sublist_cons_self _ _)
  | pollout r attempts => exact absurd he.1 (by simp)
  | rxTimeout attempts => exact absurd he (by simp)
  | handshakeDone cookie => exact absurd he.1 (by simp)
  | recordReceived => exact absurd he.1 (by simp)
  | connectionLost attempts => exact absurd he (by simp)
  | keepalive sent attempts => exact absurd he (by simp)
  | recordSend sent attempts =>
    cases hrun
    exact .tries nofun ⟨rfl, rfl, nofun, nofun⟩ nofun (List.nil_sublist _)
  | retry submitted => exact absurd he (by simp)
  | destroy =>
    cases hrun
    exact .destroyed rfl rfl rfl (List.nil_sublist _)

/-- A step from a state that waits for another try. -/
theorem waiting_outcome {e : TconnEvent} (hi : tc.Inv) (hstate : tc.state = .waitingRetry)
    (he : e.Enabled tc) (hrun : e.run tc = .ok (tc', calls)) : StepOutcome tc tc' calls := by
  obtain ⟨hd, hreg, _, _⟩ := hi
  obtain ⟨state, oneState, rp, cookie, reg, destroyed⟩ := tc
  dsimp only at hd hstate
  subst hd hstate
  obtain rfl : reg = ⟨{.retryWait}, []⟩ := hreg
  obtain ⟨_, _, he⟩ := he
  cases e with
  | resolved addrs attempts => exact absurd he.1 (by simp)
  | resolveTimeout => exact absurd he (by simp)
  | pollout r attempts => exact absurd he.1 (by simp)
  | rxTimeout attempts => exact absurd he (by simp)
  | handshakeDone cookie => exact absurd he.1 (by simp)
  | recordReceived => exact absurd he.1 (by simp)
  | connectionLost attempts => exact absurd he (by simp)
  | keepalive sent attempts => exact absurd he (by simp)
  | recordSend sent attempts =>
    cases hrun
    exact .tries nofun ⟨rfl, rfl, nofun, nofun⟩ nofun (List.nil_sublist _)
  | retry submitted =>
    cases submitted with
    | true =>
      cases hrun
      exact .tries nofun ⟨rfl, rfl, nofun, nofun⟩ nofun (List.nil_sublist _)
    | false =>
      cases hrun
      exact .tries nofun ⟨rfl, rfl, nofun, nofun⟩ nofun (List.sublist_cons_self _ _)
  | destroy =>
    cases hrun
    exact .destroyed rfl rfl rfl (List.nil_sublist _)

/-- A step from a state in which `connect` is in progress. -/
theorem connecting_outcome {e : TconnEvent} (hi : tc.Inv) (hstate : tc.state = .connect)
    (hone : tc.oneState = .connect) (he : e.Enabled tc) (hrun : e.run tc = .ok (tc', calls)) :
    StepOutcome tc tc' calls := by
  obtain ⟨hd, hreg, _, _⟩ := hi
  obtain ⟨state, oneState, rp, cookie, reg, destroyed⟩ := tc
  dsimp only at hd hstate hone
  subst hd hstate hone
  obtain rfl : reg = ⟨{.rxTimeout, .fd, .res}, []⟩ := hreg
  have hinv : Inv ⟨.connect, .connect, rp, cookie, ⟨{.rxTimeout, .fd, .res}, []⟩, false⟩ :=
    ⟨rfl, rfl, fun _ => Or.inl rfl, nofun⟩
  -- the attempt fails after its timer has been unregistered, or has expired
  have hfailed : ∀ attempts, StepOutcome
      ⟨.connect, .connect, rp, cookie, ⟨{.rxTimeout, .fd, .res}, []⟩, false⟩
      (oneConnectionFailed ⟨.connect, .connect, rp, cookie, ⟨{.fd, .res}, []⟩, false⟩ attempts).1
      (oneConnectionFailed ⟨.connect, .connect, rp, cookie, ⟨{.fd, .res}, []⟩, false⟩
        attempts).2 := by
    intro attempts
    have hspec := @oneConnectionFailed_connect
      ⟨.connect, .connect, rp, cookie, ⟨{.fd, .res}, []⟩, false⟩ rfl rfl (Or.inl rfl) rfl attempts
    exact hspec.before rfl nofun
  obtain ⟨_, _, he⟩ := he
  cases e with
  | resolved addrs attempts => exact absurd he.1 (by simp)
  | resolveTimeout => exact absurd he (by simp)
  | pollout r attempts =>
    cases r with
    | failed =>
      cases hrun
      exact .tries nofun hinv nofun (List.nil_sublist _)
    | inProgress =>
      cases hrun
      exact .tries nofun hinv nofun (List.nil_sublist _)
    | error =>
      obtain ⟨rfl, rfl⟩ := Prod.mk.inj (Except.ok.inj hrun).symm
      exact hfailed attempts
    | connected tls =>
      cases tls with
      | true =>
        cases hrun
        exact .tries nofun ⟨rfl, rfl, fun _ => Or.inr rfl, nofun⟩ nofun (List.nil_sublist _)
      | false =>
        obtain ⟨rfl, rfl⟩ := Prod.mk.inj (Except.ok.inj hrun).symm
        exact hfailed attempts
  | rxTimeout attempts =>
    obtain ⟨rfl, rfl⟩ := Prod.mk.inj (Except.ok.inj hrun).symm
    exact hfailed attempts
  | handshakeDone cookie => exact absurd he.1 (by simp)
  | recordReceived => exact absurd he.1 (by simp)
  | connectionLost attempts => exact absurd he (by simp)
  | keepalive sent attempts => exact absurd he (by simp)
  | recordSend sent attempts =>
    cases hrun
    exact .tries nofun hinv nofun (List.nil_sublist _)
  | retry submitted => exact absurd he (by simp)
  | destroy =>
    cases hrun
    exact .destroyed rfl rfl rfl (List.Sublist.refl _)

/-- A step from a state in which the handshake is in progress. -/
theorem handshaking_outcome {e : TconnEvent} (hi : tc.Inv) (hstate : tc.state = .connect)
    (hone : tc.oneState = .tlsHandshake) (he : e.Enabled tc)
    (hrun : e.run tc = .ok (tc', calls)) : StepOutcome tc tc' calls := by
  obtain ⟨hd, hreg, _, _⟩ := hi
  obtain ⟨state, oneState, rp, cookie, reg, destroyed⟩ := tc
  dsimp only at hd hstate hone
  subst hd hstate hone
  obtain rfl : reg = ⟨{.rxTimeout, .tconn, .fd, .res}, []⟩ := hreg
  have hinv : Inv ⟨.connect, .tlsHandshake, rp, cookie,
      ⟨{.rxTimeout, .tconn, .fd, .res}, []⟩, false⟩ := ⟨rfl, rfl, fun _ => Or.inr rfl, nofun⟩
  obtain ⟨_, _, he⟩ := he
  cases e with
  | resolved addrs attempts => exact absurd he.1 (by simp)
  | resolveTimeout => exact absurd he (by simp)
  | pollout r attempts => exact nomatch he.2
  | rxTimeout attempts =>
    obtain ⟨rfl, rfl⟩ := Prod.mk.inj (Except.ok.inj hrun).symm
    have hspec := @oneConnectionFailed_connect
      ⟨.connect, .tlsHandshake, rp, cookie, ⟨{.tconn, .fd, .res}, []⟩, false⟩ rfl rfl (Or.inr rfl)
      rfl attempts
    exact hspec.before rfl nofun
  | handshakeDone newCookie =>
    cases newCookie with
    | none =>
      cases hrun
      exact .refused nofun ⟨rfl, rfl, nofun, nofun⟩ rfl
    | some k =>
      cases hrun
      exact .accepted nofun ⟨rfl, rfl, nofun, fun _ => ⟨rfl, k, rfl⟩⟩ rfl rfl
  | recordReceived => exact nomatch he.2
  | connectionLost attempts =>
    obtain ⟨rfl, rfl⟩ := Prod.mk.inj (Except.ok.inj hrun).symm
    exact oneConnectionFailed_connect rfl rfl (Or.inr rfl) rfl attempts
  | keepalive sent attempts => exact absurd he (by simp)
  | recordSend sent attempts =>
    cases hrun
    exact .tries nofun hinv nofun (List.nil_sublist _)
  | retry submitted => exact absurd he (by simp)
  | destroy =>
    cases hrun
    exact .destroyed rfl rfl rfl (List.Sublist.refl _)

/-- **What a step can do.** -/
theorem step_outcome {e : TconnEvent} (hi : tc.Inv) (he : e.Enabled tc)
    (hrun : e.run tc = .ok (tc', calls)) : StepOutcome tc tc' calls := by
  cases hstate : tc.state with
  | resolve => exact resolving_outcome hi hstate he hrun
  | connect =>
    rcases hi.connect hstate with hone | hone
    · exact connecting_outcome hi hstate hone he hrun
    · exact handshaking_outcome hi hstate hone he hrun
  | connected =>
    obtain ⟨k, htc⟩ := hi.eq_established hstate
    rw [htc] at he hrun ⊢
    exact established_outcome he hrun
  | waitingRetry => exact waiting_outcome hi hstate he hrun

end TconnConnect

end Dvpn
