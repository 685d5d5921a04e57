import Dvpn.Basic
import Dvpn.Registry
import Dvpn.Run

/-!
# The connection to a neighbour (`dgp_connect.c`)

`dgp_connect` connects to port 173 of a neighbour, and tries again about a second after a failure.
While a connection is established, a `dgp_reader` and a `dgp_writer` are registered. The model has
the state, the handlers of the fd, and what is registered with ivykis or with a RIB: the timer and
the fd of `struct dgp_connect`, and of the reader and the writer the listener and the keepalive
timer.

* `Attempt`, `Dump`, `ReadResult` and `OutputResult` say what the system calls of an event return.
  What is read and written is in `Dgp.Reader` and `Dgp.Writer`.
* ivykis aborts at the first misuse, so that no event follows one (`Enabled`).

Every step emits what its calls of `connect` returned.

* `ioError_eq`, `connectSuccess_holds`: the transitions that others are nested in.
* `discipline_iff`: exactly the resources of the state are registered, and none is misused, as long
  as no call of `connect` has returned 0.
-/

namespace Dvpn

/-! ## The code -/

/-- `STATE_CONNECTING`, `STATE_ESTABLISHED` and `STATE_WAITING_RETRY`. -/
inductive DgpConnectState where
  | connecting
  | established
  | waitingRetry
  deriving DecidableEq, Repr

/-- What is registered: `dc->timeout` and `dc->fd`, the listener and the keepalive timer of
`dc->dr`, and those of `dc->dw`. -/
inductive DgpResource where
  | timeout
  | fd
  | reader
  | keepaliveTimeout
  | writer
  | keepaliveTimer
  deriving DecidableEq, Repr

/-- `struct dgp_connect`: `bound` stands for `myid != NULL`; of the handlers of the fd, `handlerIn`
is `handle_dgp_read` and `handlerOut` is `connect_pollout`. -/
structure DgpConnect where
  bound : Bool
  state : DgpConnectState
  handlerIn : Bool
  handlerOut : Bool
  reg : Registry DgpResource
  stopped : Bool
  deriving DecidableEq

/-- What `connect` returns: 0, -1 with `EINPROGRESS`, or -1 with another error. -/
inductive ConnectResult where
  | success
  | inProgress
  | error
  deriving DecidableEq, Repr

/-- What `dgp_writer_output_lsa` comes to: nothing to write, a `write` that succeeds, or one that
does not. -/
inductive OutputResult where
  | kept
  | written
  | failed
  deriving DecidableEq, Repr

/-- What the initial dump comes to: for each id of the RIB with a best LSA its output, and whether
the keepalive at the end is written. -/
structure Dump where
  ids : List (Option OutputResult)
  keepalive : Bool

/-- What `try_connect` comes to. -/
structure Attempt where
  socket : Bool
  bind : Bool
  connect : ConnectResult
  dump : Dump

/-- What `dgp_reader_read` comes to: `EAGAIN`, the end of the stream or an error, messages that are
accepted, or one that is rejected. -/
inductive ReadResult where
  | again
  | closed
  | accepted
  | rejected

/-- What `getsockopt` says in `connect_pollout`: it fails, or `SO_ERROR` is `EINPROGRESS`, 0 or
another error. -/
inductive SoError where
  | failed
  | inProgress
  | none
  | error

namespace DgpConnect

/-- `dgp_reader_register` (`dgp_reader.c:36-58`). -/
def readerRegister (reg : Registry DgpResource) : Registry DgpResource :=
  ((reg.register .reader).initialise .keepaliveTimeout).register .keepaliveTimeout

/-- `dgp_reader_unregister` (`dgp_reader.c:121-130`). -/
def readerUnregister (reg : Registry DgpResource) : Registry DgpResource :=
  let reg := reg.unregister .reader
  if .keepaliveTimeout ∈ reg.held then reg.unregister .keepaliveTimeout else reg

/-- `dgp_writer_unregister` (`dgp_writer.c:197-201`). -/
def writerUnregister (reg : Registry DgpResource) : Registry DgpResource :=
  (reg.unregister .writer).unregister .keepaliveTimer

/-- `io_error` (`dgp_connect.c:32-45`). -/
def ioError (dc : DgpConnect) : DgpConnect :=
  let reg := readerUnregister (writerUnregister (dc.reg.unregister .fd))
  { dc with state := .waitingRetry, reg := reg.register .timeout }

/-- `dgp_writer_output_lsa` (`dgp_writer.c:49-94`), and whether it returns 1. -/
def outputLsa (dc : DgpConnect) : OutputResult → DgpConnect × Bool
  | .kept => (dc, false)
  | .written => ({ dc with reg := dc.reg.rearm .keepaliveTimer }, false)
  | .failed => (dc.ioError, true)

/-- `dgp_writer_send_keepalive` (`dgp_writer.c:126-134`). -/
def sendKeepalive (dc : DgpConnect) (written : Bool) : DgpConnect :=
  if written then dc else dc.ioError

/-- The loop of `dgp_writer_rib_dump` (`dgp_writer.c:147-156`), and whether it returns early. -/
def dumpLoop : DgpConnect → List (Option OutputResult) → DgpConnect × Bool
  | dc, [] => (dc, false)
  | dc, none :: ids => dumpLoop dc ids
  | dc, some r :: ids =>
    let (dc, failed) := dc.outputLsa r
    if failed then (dc, true) else dumpLoop dc ids

/-- `dgp_writer_rib_dump` (`dgp_writer.c:136-162`). -/
def ribDump (dc : DgpConnect) (dump : Dump) : DgpConnect :=
  if dump.ids.isEmpty then dc.sendKeepalive dump.keepalive
  else
    let (dc, failed) := dumpLoop dc dump.ids
    if failed then dc else dc.sendKeepalive dump.keepalive

/-- `dgp_writer_register` (`dgp_writer.c:177-195`). -/
def writerRegister (dc : DgpConnect) (dump : Dump) : DgpConnect :=
  let reg := ((dc.reg.register .writer).initialise .keepaliveTimer).register .keepaliveTimer
  { dc with reg := reg }.ribDump dump

/-- `connect_success` (`dgp_connect.c:55-68`). -/
def connectSuccess (dc : DgpConnect) (dump : Dump) : DgpConnect :=
  let dc := { dc with
    state := .established
    reg := readerRegister (dc.reg.unregister .timeout)
    handlerIn := true
    handlerOut := false }
  dc.writerRegister dump

/-- The `fail` label of `try_connect` (`dgp_connect.c:172-179`). -/
def fail (dc : DgpConnect) : DgpConnect :=
  { dc with state := .waitingRetry, reg := dc.reg.register .timeout }

/-- `try_connect` (`dgp_connect.c:106-180`), and what `connect` returned. -/
def tryConnect (dc : DgpConnect) (a : Attempt) : DgpConnect × List ConnectResult :=
  if !a.socket then (dc.fail, [])
  else if dc.bound && !a.bind then (dc.fail, [])
  else
    let dc := { dc with handlerIn := false, handlerOut := true, reg := dc.reg.register .fd }
    match a.connect with
    | .error => ({ dc with reg := dc.reg.unregister .fd }.fail, [a.connect])
    | .success => (dc.connectSuccess a.dump, [a.connect])
    | .inProgress => ({ dc with reg := dc.reg.register .timeout }, [a.connect])

/-- `dgp_connect_start` (`dgp_connect.c:209-233`). -/
def start (bound : Bool) (a : Attempt) : DgpConnect × List ConnectResult :=
  tryConnect
    { bound := bound
      state := .connecting
      handlerIn := false
      handlerOut := false
      reg := .empty
      stopped := false } a

/-- `connect_pollout` (`dgp_connect.c:70-104`). -/
def connectPollout (dc : DgpConnect) (soError : SoError) (dump : Dump) : DgpConnect :=
  match soError with
  | .failed => dc
  | .inProgress => dc
  | .none => dc.connectSuccess dump
  | .error =>
    { dc with
      state := .waitingRetry
      reg := ((dc.reg.unregister .fd).unregister .timeout).register .timeout }

/-- `rx_timeout_expired` (`dgp_connect.c:182-200`). -/
def rxTimeoutExpired (dc : DgpConnect) (a : Attempt) : DgpConnect × List ConnectResult :=
  match dc.state with
  | .connecting =>
    ({ dc with
      state := .waitingRetry
      reg := (dc.reg.unregister .fd).register .timeout }, [])
  | .waitingRetry => { dc with state := .connecting }.tryConnect a
  | .established => (dc, [])

/-- `handle_dgp_read` (`dgp_connect.c:47-53`) with the timer of `dgp_reader_read`
(`dgp_reader.c:60-119`). -/
def handleDgpRead (dc : DgpConnect) : ReadResult → DgpConnect
  | .again => dc
  | .closed => dc.ioError
  | .accepted => { dc with reg := dc.reg.rearm .keepaliveTimeout }
  | .rejected => { dc with reg := dc.reg.rearm .keepaliveTimeout }.ioError

/-- `dgp_writer_keepalive_timer` (`dgp_writer.c:164-175`). -/
def writerKeepaliveTimer (dc : DgpConnect) (written : Bool) : DgpConnect :=
  { dc with reg := dc.reg.register .keepaliveTimer }.sendKeepalive written

/-- `dgp_connect_stop` (`dgp_connect.c:235-249`). -/
def stop (dc : DgpConnect) : DgpConnect :=
  let reg := if dc.state = .established then dc.reg else dc.reg.unregister .timeout
  let reg := if dc.state = .waitingRetry then reg else reg.unregister .fd
  let reg := if dc.state = .established then readerUnregister (writerUnregister reg) else reg
  { dc with reg := reg, stopped := true }

end DgpConnect

/-- The events: a timer expires, the fd is ready, the RIB tells the writer about a change, or the
owner stops the connection. -/
inductive DgpConnectEvent where
  | timeout (a : Attempt)
  | pollout (soError : SoError) (dump : Dump)
  | pollin (r : ReadResult)
  | keepaliveTimeout
  | keepaliveTimer (written : Bool)
  | change (r : OutputResult)
  | stop

/-- One event. -/
def dgpConnectStep (dc : DgpConnect) :
    DgpConnectEvent → Except Crash (DgpConnect × List ConnectResult)
  | .timeout a => return { dc with reg := dc.reg.expire .timeout }.rxTimeoutExpired a
  | .pollout soError dump => return (dc.connectPollout soError dump, [])
  | .pollin r => return (dc.handleDgpRead r, [])
  | .keepaliveTimeout => return ({ dc with reg := dc.reg.expire .keepaliveTimeout }.ioError, [])
  | .keepaliveTimer written =>
    return ({ dc with reg := dc.reg.expire .keepaliveTimer }.writerKeepaliveTimer written, [])
  | .change r => return ((dc.outputLsa r).1, [])
  | .stop => return (dc.stop, [])

/-- The events that can happen: what they come from is registered. -/
def DgpConnectEvent.Enabled (dc : DgpConnect) (e : DgpConnectEvent) : Prop :=
  dc.reg.misuses = [] ∧
    match e with
    | .timeout _ => .timeout ∈ dc.reg.held
    | .pollout _ _ => .fd ∈ dc.reg.held ∧ dc.handlerOut
    | .pollin _ => .fd ∈ dc.reg.held ∧ dc.handlerIn
    | .keepaliveTimeout => .keepaliveTimeout ∈ dc.reg.held
    | .keepaliveTimer _ => .keepaliveTimer ∈ dc.reg.held
    | .change _ => .writer ∈ dc.reg.held
    | .stop => dc.stopped = false

/-! ## The resources of a state -/

/-- What is registered in a state. -/
def DgpConnectState.resources : DgpConnectState → Finset DgpResource
  | connecting => {.timeout, .fd}
  | established => {.fd, .reader, .keepaliveTimeout, .writer, .keepaliveTimer}
  | waitingRetry => {.timeout}

namespace DgpConnect

/-- Exactly the resources of the state are registered, with the handlers of the state, after some
misuses. -/
structure Holds (dc : DgpConnect) (misuses : List (Misuse DgpResource)) : Prop where
  reg : dc.reg = ⟨if dc.stopped then ∅ else dc.state.resources, misuses⟩
  connecting : dc.state = .connecting → dc.handlerIn = false
  established : dc.state = .established → dc.handlerOut = false

variable {dc dc' : DgpConnect} {misuses : List (Misuse DgpResource)} {e : DgpConnectEvent}

theorem ioError_eq (h : dc.reg = ⟨DgpConnectState.established.resources, misuses⟩) :
    dc.ioError = { dc with
      state := .waitingRetry
      reg := ⟨DgpConnectState.waitingRetry.resources, misuses⟩ } := by
  have hwriter : writerUnregister (dc.reg.unregister .fd) =
      ⟨{.reader, .keepaliveTimeout}, misuses⟩ := by
    rw [h, writerUnregister]
    simp (disch := decide) only [Registry.unregister_eq]
    congr 1
  have hreader : readerUnregister ⟨{.reader, .keepaliveTimeout}, misuses⟩ = ⟨∅, misuses⟩ := by
    rw [readerUnregister]
    simp (disch := decide) only [Registry.unregister_eq, if_pos]
    congr 1
  rw [ioError, hwriter, hreader, Registry.register_eq (by decide)]
  congr 1

/-- A connection that is lost after some misuses. -/
def lost (dc : DgpConnect) (misuses : List (Misuse DgpResource)) : DgpConnect :=
  { dc with state := .waitingRetry, reg := ⟨DgpConnectState.waitingRetry.resources, misuses⟩ }

theorem outputLsa_eq (h : dc.reg = ⟨DgpConnectState.established.resources, misuses⟩)
    (r : OutputResult) :
    dc.outputLsa r = if r = .failed then (dc.lost misuses, true) else (dc, false) := by
  cases r with
  | kept => rfl
  | written =>
    have hmem : .keepaliveTimer ∈ dc.reg.held := by
      rw [h]
      simp [DgpConnectState.resources]
    rw [outputLsa, Registry.rearm_eq hmem]
    rfl
  | failed => rw [outputLsa, ioError_eq h, if_pos rfl, lost]

theorem sendKeepalive_eq (h : dc.reg = ⟨DgpConnectState.established.resources, misuses⟩)
    (written : Bool) : dc.sendKeepalive written = if written then dc else dc.lost misuses := by
  rw [sendKeepalive, ioError_eq h, lost]

theorem dumpLoop_eq (h : dc.reg = ⟨DgpConnectState.established.resources, misuses⟩)
    (ids : List (Option OutputResult)) :
    dumpLoop dc ids = if some .failed ∈ ids then (dc.lost misuses, true) else (dc, false) := by
  induction ids with
  | nil => rfl
  | cons r ids ih =>
    cases r with
    | none =>
      rw [dumpLoop, ih]
      simp
    | some r =>
      rw [dumpLoop, outputLsa_eq h]
      by_cases hr : r = .failed
      · simp [hr]
      · simp [hr, ih, Ne.symm hr]

theorem ribDump_eq (h : dc.reg = ⟨DgpConnectState.established.resources, misuses⟩)
    (dump : Dump) : dc.ribDump dump = dc ∨ dc.ribDump dump = dc.lost misuses := by
  rw [ribDump, dumpLoop_eq h, sendKeepalive_eq h]
  by_cases hempty : dump.ids.isEmpty
  · rw [if_pos hempty]
    cases dump.keepalive <;> simp
  · rw [if_neg hempty]
    by_cases hfail : some .failed ∈ dump.ids
    · simp [hfail]
    · cases dump.keepalive <;> simp [hfail, sendKeepalive_eq h]

/-- **`connect_success`**, also when it fails back into `io_error`. -/
theorem connectSuccess_holds (hs : dc.stopped = false)
    (h : dc.reg.unregister .timeout = ⟨{.fd}, misuses⟩) (dump : Dump) :
    (dc.connectSuccess dump).Holds misuses ∧ (dc.connectSuccess dump).stopped = false := by
  have hreg : (((readerRegister (dc.reg.unregister .timeout)).register .writer).initialise
      .keepaliveTimer).register .keepaliveTimer =
      ⟨DgpConnectState.established.resources, misuses⟩ := by
    rw [h, readerRegister]
    simp (disch := decide) only [Registry.register_eq, Registry.initialise_eq]
    exact congrArg (Registry.mk · misuses) (by decide)
  unfold connectSuccess writerRegister
  dsimp only
  rw [hreg]
  rcases @ribDump_eq { dc with
    state := .established
    reg := ⟨DgpConnectState.established.resources, misuses⟩
    handlerIn := true
    handlerOut := false } misuses rfl dump with hd | hd
  · rw [hd]
    exact ⟨⟨by simp [hs], nofun, fun _ => rfl⟩, hs⟩
  · rw [hd]
    exact ⟨⟨by simp [lost, hs], nofun, nofun⟩, hs⟩

/-- A call of `connect` that returns 0 leaves a misuse: there is no timer to unregister. -/
def misusesOf (results : List ConnectResult) : List (Misuse DgpResource) :=
  if .success ∈ results then [.notRegistered .timeout] else []

theorem tryConnect_holds (hs : dc.stopped = false) (hstate : dc.state = .connecting)
    (h : dc.reg = .empty) (a : Attempt) :
    (dc.tryConnect a).1.Holds (misusesOf (dc.tryConnect a).2) ∧
      (dc.tryConnect a).1.stopped = false := by
  have hfail : dc.fail.Holds [] ∧ dc.fail.stopped = false :=
    ⟨⟨by simp [fail, hs, h]; rfl, nofun, nofun⟩, hs⟩
  rw [tryConnect]
  by_cases hsocket : a.socket
  swap
  · simp only [hsocket, Bool.not_false, if_true]
    exact hfail
  by_cases hbind : dc.bound && !a.bind
  · simp only [hsocket, hbind, Bool.not_true, Bool.false_eq_true, if_false, if_true]
    exact hfail
  simp only [hsocket, hbind, Bool.not_true, Bool.false_eq_true, if_false]
  cases a.connect with
  | success =>
    refine @connectSuccess_holds { dc with
      handlerIn := false
      handlerOut := true
      reg := dc.reg.register .fd } [.notRegistered .timeout] hs ?_ a.dump
    rw [h]
    rfl
  | inProgress =>
    refine ⟨⟨?_, fun _ => rfl, fun he => absurd (hstate.symm.trans he) (by decide)⟩, hs⟩
    simp only [h, hs, hstate]
    rfl
  | error =>
    refine ⟨⟨?_, nofun, nofun⟩, hs⟩
    simp only [h, hs, fail]
    rfl

/-! ## Runs -/

theorem misusesOf_eq_nil {results : List ConnectResult} (h : misusesOf results = []) :
    .success ∉ results := by
  intro hmem
  rw [misusesOf, if_pos hmem] at h
  exact nomatch h

theorem misusesOf_append {results results' : List ConnectResult} (h : misusesOf results = []) :
    misusesOf (results ++ results') = misusesOf results' := by
  have hno := misusesOf_eq_nil h
  simp [misusesOf, hno]

theorem lost_holds (hs : dc.stopped = false) (misuses : List (Misuse DgpResource)) :
    (dc.lost misuses).Holds misuses :=
  ⟨by simp [lost, hs], nofun, nofun⟩

/-- The state before an event, while the connection is not stopped. -/
structure Live (dc : DgpConnect) : Prop where
  reg : dc.reg = ⟨dc.state.resources, []⟩
  stopped : dc.stopped = false
  connecting : dc.state = .connecting → dc.handlerIn = false
  established : dc.state = .established → dc.handlerOut = false

theorem Live.holds (h : dc.Live) : dc.Holds [] :=
  ⟨by rw [h.reg, h.stopped]; rfl, h.connecting, h.established⟩

theorem Live.timeout (h : dc.Live) (he : .timeout ∈ dc.reg.held) (a : Attempt) :
    ({ dc with reg := dc.reg.expire .timeout }.rxTimeoutExpired a).1.Holds
      (misusesOf ({ dc with reg := dc.reg.expire .timeout }.rxTimeoutExpired a).2) := by
  rw [h.reg] at he ⊢
  unfold rxTimeoutExpired
  cases hstate : dc.state with
  | connecting =>
    refine ⟨?_, nofun, nofun⟩
    simp only [h.stopped]
    rfl
  | waitingRetry =>
    exact (@tryConnect_holds { dc with
      state := .connecting
      reg := Registry.expire ⟨DgpConnectState.waitingRetry.resources, []⟩ .timeout }
      h.stopped rfl rfl a).1
  | established =>
    rw [hstate] at he
    exact absurd he (by decide)

theorem Live.pollout (h : dc.Live) (he : .fd ∈ dc.reg.held ∧ dc.handlerOut) (soError : SoError)
    (dump : Dump) : (dc.connectPollout soError dump).Holds [] := by
  have hstate : dc.state = .connecting := by
    have hheld := he.1
    rw [h.reg] at hheld
    cases hstate : dc.state with
    | connecting => rfl
    | waitingRetry =>
      rw [hstate] at hheld
      exact absurd hheld (by decide)
    | established => exact absurd (h.established hstate) (by simp [he.2])
  cases soError with
  | failed => exact h.holds
  | inProgress => exact h.holds
  | none =>
    refine (connectSuccess_holds h.stopped ?_ dump).1
    rw [h.reg, hstate]
    rfl
  | error =>
    refine ⟨?_, nofun, nofun⟩
    simp only [connectPollout, h.reg, h.stopped, hstate]
    rfl

theorem Live.eq_established (h : dc.Live) {r : DgpResource} (he : r ∈ dc.reg.held)
    (hconn : r ∉ DgpConnectState.connecting.resources)
    (hwait : r ∉ DgpConnectState.waitingRetry.resources) : dc.state = .established := by
  rw [h.reg] at he
  cases hstate : dc.state with
  | connecting => exact absurd (hstate ▸ he) hconn
  | waitingRetry => exact absurd (hstate ▸ he) hwait
  | established => rfl

theorem Live.pollin (h : dc.Live) (he : .fd ∈ dc.reg.held ∧ dc.handlerIn) (r : ReadResult) :
    (dc.handleDgpRead r).Holds [] := by
  have hstate : dc.state = .established := by
    have hheld := he.1
    rw [h.reg] at hheld
    cases hstate : dc.state with
    | connecting => exact absurd (h.connecting hstate) (by simp [he.2])
    | waitingRetry =>
      rw [hstate] at hheld
      exact absurd hheld (by decide)
    | established => rfl
  have hreg := h.reg
  rw [hstate] at hreg
  have hrearm : dc.reg.rearm .keepaliveTimeout = dc.reg := by
    apply Registry.rearm_eq
    rw [hreg]
    decide
  cases r with
  | again => exact h.holds
  | closed =>
    rw [handleDgpRead, ioError_eq hreg]
    exact lost_holds h.stopped []
  | accepted =>
    rw [handleDgpRead, hrearm]
    exact h.holds
  | rejected =>
    rw [handleDgpRead, hrearm, ioError_eq hreg]
    exact lost_holds h.stopped []

theorem Live.keepaliveTimeout (h : dc.Live) (he : .keepaliveTimeout ∈ dc.reg.held) :
    { dc with reg := dc.reg.expire .keepaliveTimeout }.ioError.Holds [] := by
  have hstate := h.eq_established he (by decide) (by decide)
  refine ⟨?_, nofun, nofun⟩
  simp only [ioError, h.reg, h.stopped, hstate]
  rfl

theorem Live.keepaliveTimer (h : dc.Live) (he : .keepaliveTimer ∈ dc.reg.held) (written : Bool) :
    ({ dc with reg := dc.reg.expire .keepaliveTimer }.writerKeepaliveTimer written).Holds [] := by
  have hstate := h.eq_established he (by decide) (by decide)
  have hreg := h.reg
  rw [hstate] at hreg
  have hback : (dc.reg.expire .keepaliveTimer).register .keepaliveTimer = dc.reg := by
    rw [hreg]
    exact Registry.ext (by decide) (by decide)
  rw [writerKeepaliveTimer]
  dsimp only
  rw [hback, sendKeepalive_eq hreg]
  cases written with
  | true => exact h.holds
  | false => exact lost_holds h.stopped []

theorem Live.change (h : dc.Live) (he : .writer ∈ dc.reg.held) (r : OutputResult) :
    (dc.outputLsa r).1.Holds [] := by
  have hstate := h.eq_established he (by decide) (by decide)
  have hreg := h.reg
  rw [hstate] at hreg
  rw [outputLsa_eq hreg]
  split_ifs
  · exact lost_holds h.stopped []
  · exact h.holds

theorem Live.stop (h : dc.Live) : dc.stop.Holds [] := by
  cases hstate : dc.state with
  | connecting =>
    refine ⟨?_, h.connecting, h.established⟩
    simp only [DgpConnect.stop, h.reg, hstate]
    rfl
  | waitingRetry =>
    refine ⟨?_, h.connecting, h.established⟩
    simp only [DgpConnect.stop, h.reg, hstate]
    rfl
  | established =>
    refine ⟨?_, h.connecting, h.established⟩
    simp only [DgpConnect.stop, h.reg, hstate]
    rfl

/-- **One event** takes a state with its resources to one. -/
theorem step_holds {results : List ConnectResult} (h : dc.Holds []) (he : e.Enabled dc)
    (hrun : dgpConnectStep dc e = .ok (dc', results)) : dc'.Holds (misusesOf results) := by
  obtain ⟨hreg, hin, hout⟩ := h
  obtain ⟨_, he⟩ := he
  by_cases hs : dc.stopped
  · -- nothing is registered
    rw [hs, if_pos rfl] at hreg
    cases e <;> simp [hreg, hs] at he
  rw [Bool.not_eq_true] at hs
  rw [hs, if_neg Bool.false_ne_true] at hreg
  have hlive : dc.Live := ⟨hreg, hs, hin, hout⟩
  cases e with
  | timeout a =>
    obtain ⟨rfl, rfl⟩ := Prod.mk.inj (Except.ok.inj hrun).symm
    exact hlive.timeout he a
  | pollout soError dump =>
    cases hrun
    exact hlive.pollout he soError dump
  | pollin r =>
    cases hrun
    exact hlive.pollin he r
  | keepaliveTimeout =>
    cases hrun
    exact hlive.keepaliveTimeout he
  | keepaliveTimer written =>
    cases hrun
    exact hlive.keepaliveTimer he written
  | change r =>
    cases hrun
    exact hlive.change he r
  | stop =>
    cases hrun
    exact hlive.stop

/-- Exactly the resources of the state are registered, or none after `dgp_connect_stop`, and none
has been misused. -/
def Disciplined (dc : DgpConnect) : Prop :=
  dc.reg.held = (if dc.stopped then ∅ else dc.state.resources) ∧ dc.reg.misuses = []

theorem Holds.disciplined_iff (h : dc.Holds misuses) : dc.Disciplined ↔ misuses = [] := by
  rw [Disciplined, h.reg]
  exact and_iff_right rfl

end DgpConnect

/-- **Resource discipline**: in every run the resources of the state are registered, and none is
misused, if and only if no call of `connect` has returned 0. -/
theorem discipline_iff (bound : Bool) (a : Attempt) {dc : DgpConnect} {es : List DgpConnectEvent}
    {results : List ConnectResult}
    (h : Run dgpConnectStep (fun dc e => DgpConnectEvent.Enabled dc e)
      (DgpConnect.start bound a).1 es dc results) :
    dc.Disciplined ↔ .success ∉ (DgpConnect.start bound a).2 ++ results := by
  have hholds : dc.Holds (DgpConnect.misusesOf ((DgpConnect.start bound a).2 ++ results)) := by
    refine Run.invariant (fun _ dc results => dc.Holds
      (DgpConnect.misusesOf ((DgpConnect.start bound a).2 ++ results))) ?_ ?_ h
    · rw [List.append_nil]
      exact (DgpConnect.tryConnect_holds rfl rfl rfl a).1
    · intro _ dc results e dc' results' hdc he hrun
      have hnil : DgpConnect.misusesOf ((DgpConnect.start bound a).2 ++ results) = [] := by
        have hmisuses := he.1
        rwa [hdc.reg] at hmisuses
      rw [hnil] at hdc
      rw [← List.append_assoc, DgpConnect.misusesOf_append hnil]
      exact DgpConnect.step_holds hdc he hrun
  rw [hholds.disciplined_iff]
  refine ⟨DgpConnect.misusesOf_eq_nil, fun hmem => ?_⟩
  rw [DgpConnect.misusesOf, if_neg hmem]

/-- A connection that is established after a while, whose writer then fails. -/
theorem discipline_iff_pollout : ∃ dc,
    Run dgpConnectStep (fun dc e => DgpConnectEvent.Enabled dc e)
      (DgpConnect.start true ⟨true, true, .inProgress, ⟨[], true⟩⟩).1
      [.pollout .none ⟨[some .written, none], true⟩, .change .failed] dc [] ∧
    dc.state = .waitingRetry ∧ dc.Disciplined := by
  have hopen : Run dgpConnectStep (fun dc e => DgpConnectEvent.Enabled dc e)
      (DgpConnect.start true ⟨true, true, .inProgress, ⟨[], true⟩⟩).1
      ([] ++ [.pollout .none ⟨[some .written, none], true⟩]) _ ([] ++ []) :=
    .snoc .nil ⟨rfl, by decide, rfl⟩ rfl
  have hrun : Run dgpConnectStep (fun dc e => DgpConnectEvent.Enabled dc e)
      (DgpConnect.start true ⟨true, true, .inProgress, ⟨[], true⟩⟩).1
      ([] ++ [.pollout .none ⟨[some .written, none], true⟩] ++ [.change .failed]) _
      ([] ++ [] ++ []) :=
    .snoc hopen ⟨rfl, by decide⟩ rfl
  exact ⟨_, hrun, rfl, (discipline_iff true _ hrun).mpr (by decide)⟩

/-- A call of `connect` that returns 0: `connect_success` unregisters a timer that is not
registered. -/
theorem discipline_fails_at_once : ¬ ∀ (bound : Bool) (a : Attempt) (dc : DgpConnect)
    (es : List DgpConnectEvent) (results : List ConnectResult),
    Run dgpConnectStep (fun dc e => DgpConnectEvent.Enabled dc e)
      (DgpConnect.start bound a).1 es dc results → dc.Disciplined := by
  intro h
  have hd := h true ⟨true, true, .success, ⟨[], true⟩⟩ _ [] [] .nil
  have hmisuse : (DgpConnect.start true ⟨true, true, .success, ⟨[], true⟩⟩).1.reg.misuses =
      [.notRegistered .timeout] := rfl
  rw [hd.2] at hmisuse
  exact nomatch hmisuse

end Dvpn
