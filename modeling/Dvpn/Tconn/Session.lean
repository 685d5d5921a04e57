import Dvpn.Tconn.Lossless

/-!
# The session of a TLS connection (`tconn.c`)

`tconn.c` drives GnuTLS from an event loop. The handlers of the fd move bytes between the socket
and the transport buffers (`Dvpn.Tconn.Transport`), and two tasks call GnuTLS again when there is
something that it waits for. `verify_state` is called before and after everything, and aborts when
a handler or a task is registered that should not be, or the other way round.

* A call of GnuTLS is a `GtlsCall`: the pulls and pushes that it makes, in any order, and what it
  returns. `GtlsCall.Contract` is what GnuTLS documents of it.
* `pending` stays false: `tconn_do_record_recv` has room for any record.
* A connection is there from `tconn_start` until `tconn_destroy`, or until `tconn_start` fails.
* `setsockopt` succeeds, and so does what `tconn_start` does before the handshake. Certificates are
  in `Dvpn.Tconn.KeyIds`.

`Tconn.Settled` is what holds between two events, `Tconn.Calling` what holds inside a call.

* `gtlsCall_spec`: what a call of GnuTLS leaves.
* `doHandshake_spec`, `doRecordRecv_spec`, `doRecordSend_spec`, `tconnRecordSend_spec`: the session
  is settled again, or it is given up.
* `fdHandlerIn_spec`, `fdHandlerOut_spec`: so it is after the handlers.
-/

namespace Dvpn

/-! ## GnuTLS -/

def GNUTLS_E_AGAIN : Int := -28

def GNUTLS_E_REHANDSHAKE : Int := -37

/-- What a call of GnuTLS does with the transport. -/
inductive GtlsOp where
  | pull (len : Nat)
  | push (buf : Bytes) (answers : List SendAnswer)

/-- A call of GnuTLS: what it does with the transport, what it returns, the record that it has
received, and from then on `gnutls_record_get_direction` and `gnutls_record_check_pending`. -/
structure GtlsCall where
  ops : List GtlsOp
  ret : Int
  data : Bytes
  writing : Bool
  pending : Bool

/-- A call, the flush that may follow it, and the call that follows the flush if that fails. -/
structure GtlsCalls where
  first : GtlsCall
  flush : List SendAnswer
  second : GtlsCall

/-- `tconn_gtls_pull_func` or `tconn_gtls_push_func`, and what it returns. -/
def gtlsOp (tc : Tconn) : GtlsOp → Except Crash (Tconn × Int)
  | .pull len => do
    let (tc, ret, _) ← tconnGtlsPullFunc tc len
    return (tc, ret)
  | .push buf answers => do
    let (tc, ret, _) ← tconnGtlsPushFunc tc buf answers
    return (tc, ret)

/-- The operations of a call, one after the other: the connection, and the last operation with what
it returned. -/
def gtlsOps (tc : Tconn) (last : Option (GtlsOp × Int)) :
    List GtlsOp → Except Crash (Tconn × Option (GtlsOp × Int))
  | [] => return (tc, last)
  | op :: ops => do
    let (tc, ret) ← gtlsOp tc op
    gtlsOps tc (some (op, ret)) ops

/-- A call of GnuTLS. -/
def gtlsCall (tc : Tconn) (call : GtlsCall) : Except Crash Tconn := do
  let (tc, _) ← gtlsOps tc none call.ops
  return { tc with writing := call.writing, pending := call.pending }

def GtlsOp.isPush : GtlsOp → Bool
  | .pull _ => false
  | .push _ _ => true

/-- A push of at most `INT_MAX` bytes. -/
def GtlsOp.Short : GtlsOp → Prop
  | .pull _ => True
  | .push buf _ => buf.length ≤ INT_MAX

/-- A call has failed for good. -/
def Failed (ret : Int) : Prop := ret < 0 ∧ ret ≠ GNUTLS_E_AGAIN ∧ ret ≠ GNUTLS_E_REHANDSHAKE

/-- What a call returns, after its last operation. It is interrupted when that one says `EAGAIN`,
and then the direction is that of the operation; it fails when the operation fails, or when there
was none. -/
def GtlsCall.Answers (call : GtlsCall) (tc : Tconn) : Option (GtlsOp × Int) → Prop
  | none => Failed call.ret
  | some (op, ret) =>
    if ret = -1 then
      if tc.transportErrno = some .eagain then
        call.ret = GNUTLS_E_AGAIN ∧ call.writing = op.isPush
      else Failed call.ret
    else call.ret ≠ GNUTLS_E_AGAIN

/-- What GnuTLS promises of a call that starts in `tc`. -/
structure GtlsCall.Contract (call : GtlsCall) (tc : Tconn) : Prop where
  pending : call.pending = false
  short : ∀ op ∈ call.ops, op.Short
  answers : ∀ tc' last, gtlsOps tc none call.ops = .ok (tc', last) → call.Answers tc' last

/-! ## The code -/

/-- The callbacks, and what `tconn_record_send` returns. -/
inductive TconnOutput where
  | handshakeDone
  | recordReceived (rec : Bytes)
  | connectionLost
  | sent (ret : Int)
  deriving DecidableEq, Repr

/-- The connection as `tconn_start` sets it up, in `STATE_HANDSHAKE`. -/
def tconnInit (rxBuf txBuf : Bytes) : Tconn where
  handlerIn := true
  handlerOut := false
  writing := false
  pending := false
  transportErrno := none
  state := .handshake
  ioError := none
  rxTask := false
  rxBuf := rxBuf
  rxStart := 0
  rxEnd := 0
  rxEof := false
  txTask := false
  txBuf := txBuf
  txBytes := 0

section Verify

variable {tc tc' tc'' : Tconn}

theorem verifyStatePollin_iff : tc.verifyStatePollin = true ↔
    tc.state ≠ .dead ∧ tc.ioError = none ∧ tc.rxStart = tc.rxEnd ∧ tc.rxEof = false := by
  simp [Tconn.verifyStatePollin, and_assoc]

theorem verifyStatePollout_iff : tc.verifyStatePollout = true ↔
    tc.state ≠ .dead ∧ tc.ioError = none ∧ tc.txBytes ≠ 0 := by
  simp [Tconn.verifyStatePollout, and_assoc]

theorem readable_eq_false : tc.readable = false ↔
    tc.ioError = none ∧ tc.rxStart = tc.rxEnd ∧ tc.rxEof = false := by
  simp [Tconn.readable]

/-- The receiving task belongs to a session that waits for input. -/
theorem verifyStateRxTask_iff (h : tc.pending = false) : tc.verifyStateRxTask = true ↔
    tc.wantsRx = true ∧ tc.readable = true := by
  simp only [Tconn.verifyStateRxTask, Tconn.wantsRx, h, decide_eq_true_eq, Bool.false_eq_true,
    false_or]
  tauto

/-- There is room in the buffer, or an error to report. -/
def Tconn.writable (tc : Tconn) : Prop := tc.ioError ≠ none ∨ tc.txBytes < TCONN_BUF

theorem verifyStateTxTask_iff : tc.verifyStateTxTask = true ↔
    tc.wantsTx = true ∧ tc.writable := by
  simp only [Tconn.verifyStateTxTask, Tconn.wantsTx, Tconn.writable, decide_eq_true_eq, ne_eq,
    Option.isSome_iff_ne_none]
  tauto

/-- **`verify_state`** is content iff the handlers and the tasks are registered as they should be.
-/
theorem verifyState_ok_iff : tc.verifyState = .ok () ↔
    tc.handlerIn = tc.verifyStatePollin ∧
      (tc.handlerOut = true → tc.verifyStatePollout = true) ∧
      tc.rxTask = tc.verifyStateRxTask ∧ tc.txTask = tc.verifyStateTxTask := by
  unfold Tconn.verifyState
  rw [eq_comm (a := tc.handlerIn), eq_comm (a := tc.rxTask), eq_comm (a := tc.txTask)]
  split_ifs with h1 h2 h3 h4
  · exact ⟨fun h => (nomatch h), fun h => absurd h.1 h1⟩
  · exact ⟨fun h => (nomatch h), fun h => by simp_all⟩
  · exact ⟨fun h => (nomatch h), fun h => absurd h.2.2.1 h3⟩
  · exact ⟨fun h => (nomatch h), fun h => absurd h.2.2.2 h4⟩
  · refine ⟨fun _ => ⟨not_not.mp h1, fun ho => ?_, not_not.mp h3, not_not.mp h4⟩, fun _ => rfl⟩
    by_contra hp
    exact h2 (by simp [hp, ho])

end Verify

/-! ## Inside a call -/

/-- The session and the tasks are as they were. -/
structure SameSession (tc tc' : Tconn) : Prop where
  state : tc'.state = tc.state
  writing : tc'.writing = tc.writing
  pending : tc'.pending = tc.pending
  rxTask : tc'.rxTask = tc.rxTask
  txTask : tc'.txTask = tc.txTask
  rxEof : tc'.rxEof = tc.rxEof

/-- So is the input. -/
structure SameInput (tc tc' : Tconn) : Prop where
  session : SameSession tc tc'
  handlerIn : tc'.handlerIn = tc.handlerIn
  rxStart : tc'.rxStart = tc.rxStart
  rxEnd : tc'.rxEnd = tc.rxEnd

/-- The handlers of a connection that is alive are set as the buffers say, until there is an
error. -/
structure Tconn.Calling (tc : Tconn) : Prop where
  inside : tc.Inside
  alive : tc.state ≠ .dead
  errno : tc.ioError ≠ some .eagain
  eof : tc.rxEof = true → tc.rxStart = tc.rxEnd
  handlerIn : tc.ioError = none →
    (tc.handlerIn = true ↔ tc.rxStart = tc.rxEnd ∧ tc.rxEof = false)
  handlerOut : tc.ioError = none → tc.handlerOut = true → tc.txBytes ≠ 0
  full : tc.ioError = none → tc.txBytes = TCONN_BUF → tc.handlerOut = true

/-- The output handler is set when there is something to send. -/
def Tconn.Flushed (tc : Tconn) : Prop := tc.txBytes ≠ 0 → tc.handlerOut = true

section Calls

variable {tc tc' tc'' : Tconn} {op : GtlsOp} {ret : Int} {buf out : Bytes} {copied : Int}
  {answers : List SendAnswer} {call : GtlsCall}

theorem SameSession.refl (tc : Tconn) : SameSession tc tc := ⟨rfl, rfl, rfl, rfl, rfl, rfl⟩

theorem SameSession.trans (h : SameSession tc tc') (h' : SameSession tc' tc'') :
    SameSession tc tc'' where
  state := h'.state.trans h.state
  writing := h'.writing.trans h.writing
  pending := h'.pending.trans h.pending
  rxTask := h'.rxTask.trans h.rxTask
  txTask := h'.txTask.trans h.txTask
  rxEof := h'.rxEof.trans h.rxEof

theorem SameInput.trans (h : SameInput tc tc') (h' : SameInput tc' tc'') :
    SameInput tc tc'' where
  session := h.session.trans h'.session
  handlerIn := h'.handlerIn.trans h.handlerIn
  rxStart := h'.rxStart.trans h.rxStart
  rxEnd := h'.rxEnd.trans h.rxEnd

theorem SameInput.refl (tc : Tconn) : SameInput tc tc := ⟨.refl tc, rfl, rfl, rfl⟩

/-- A step of the output keeps what is said of the input. -/
theorem Tconn.Calling.output (h : tc.Calling) (hin : tc'.Inside) (hsame : SameInput tc tc')
    (hno : tc'.ioError = none → tc.ioError = none) (herrno : tc'.ioError ≠ some .eagain)
    (hout : tc'.ioError = none → tc'.handlerOut = true → tc'.txBytes ≠ 0)
    (hfull : tc'.ioError = none → tc'.txBytes = TCONN_BUF → tc'.handlerOut = true) :
    tc'.Calling where
  inside := hin
  alive := hsame.session.state ▸ h.alive
  errno := herrno
  eof := by
    rw [hsame.session.rxEof, hsame.rxStart, hsame.rxEnd]
    exact h.eof
  handlerIn hio := by
    rw [hsame.session.rxEof, hsame.rxStart, hsame.rxEnd, hsame.handlerIn]
    exact h.handlerIn (hno hio)
  handlerOut := hout
  full := hfull

/-- The operation waits for room, or for data. -/
def Tconn.Blocks (tc : Tconn) (op : GtlsOp) : Prop :=
  if op.isPush then tc.txBytes = TCONN_BUF else tc.rxStart = tc.rxEnd ∧ tc.rxEof = false

/-- What is left of the input when a call waits for more. -/
theorem Tconn.Blocks.input (h : tc.Blocks op) (hop : op.isPush = false) :
    tc.rxStart = tc.rxEnd ∧ tc.rxEof = false := by
  unfold Tconn.Blocks at h
  rwa [hop] at h

theorem Tconn.Blocks.output (h : tc.Blocks op) (hop : op.isPush = true) :
    tc.txBytes = TCONN_BUF := by
  unfold Tconn.Blocks at h
  rwa [hop] at h

/-- A connection with what GnuTLS says of the session after a call. -/
def Tconn.after (tc : Tconn) (call : GtlsCall) : Tconn :=
  { tc with writing := call.writing, pending := call.pending }

/-- The state and the tasks are as they were. -/
structure SameTasks (tc tc' : Tconn) : Prop where
  state : tc'.state = tc.state
  rxTask : tc'.rxTask = tc.rxTask
  txTask : tc'.txTask = tc.txTask
  rxEof : tc'.rxEof = tc.rxEof

theorem SameSession.tasks (h : SameSession (tc.after call) tc') : SameTasks tc tc' :=
  ⟨h.state, h.rxTask, h.txTask, h.rxEof⟩

theorem SameTasks.session (h : SameTasks tc tc') (h' : SameSession tc' tc'') : SameTasks tc tc'' :=
  ⟨h'.state.trans h.state, h'.rxTask.trans h.rxTask, h'.txTask.trans h.txTask,
    h'.rxEof.trans h.rxEof⟩

theorem SameTasks.trans (h : SameTasks tc tc') (h' : SameTasks tc' tc'') : SameTasks tc tc'' :=
  ⟨h'.state.trans h.state, h'.rxTask.trans h.rxTask, h'.txTask.trans h.txTask,
    h'.rxEof.trans h.rxEof⟩

/-- What GnuTLS promises of the calls of `callAndFlush`. -/
structure GtlsCalls.Contract (calls : GtlsCalls) (tc : Tconn) : Prop where
  first : calls.first.Contract tc
  second : ∀ tc₁ tc₂ ret out, gtlsCall tc calls.first = .ok tc₁ →
    tconnTxFlush tc₁ calls.flush = .ok (tc₂, ret, out) → calls.second.Contract tc₂

end Calls

/-! ## Between two events -/

/-- What holds between two events: `verify_state` is content, and there is nothing to send that
nobody waits to send, until the connection ends. -/
structure Tconn.Settled (tc : Tconn) : Prop where
  inside : tc.Inside
  pending : tc.pending = false
  verified : tc.verifyState = .ok ()
  calling : tc.state ≠ .dead → tc.Calling
  flushed : tc.state ≠ .dead → tc.ioError = none → tc.rxEof = false → tc.Flushed

section Settled

variable {tc tc' : Tconn} {calls : GtlsCalls}

/-- A connection without an error is settled when the tasks are registered as they should be. -/
theorem Tconn.Calling.settled (h : tc.Calling) (hp : tc.pending = false) (hno : tc.ioError = none)
    (hrx : tc.rxTask = true ↔ tc.wantsRx = true ∧ ¬(tc.rxStart = tc.rxEnd ∧ tc.rxEof = false))
    (htx : tc.txTask = true ↔ tc.wantsTx = true ∧ tc.txBytes < TCONN_BUF)
    (hflushed : tc.rxEof = false → tc.Flushed) : tc.Settled where
  inside := h.inside
  pending := hp
  verified := by
    have hreadable : tc.readable = true ↔ ¬(tc.rxStart = tc.rxEnd ∧ tc.rxEof = false) := by
      rw [← not_iff_not, Bool.not_eq_true, readable_eq_false, not_not, hno]
      exact and_iff_right rfl
    refine verifyState_ok_iff.mpr ⟨Bool.eq_iff_iff.mpr ?_, fun ho => ?_, Bool.eq_iff_iff.mpr ?_,
      Bool.eq_iff_iff.mpr ?_⟩
    · rw [h.handlerIn hno, verifyStatePollin_iff]
      exact ⟨fun hh => ⟨h.alive, hno, hh⟩, fun hh => hh.2.2⟩
    · exact verifyStatePollout_iff.mpr ⟨h.alive, hno, h.handlerOut hno ho⟩
    · rw [hrx, verifyStateRxTask_iff hp, hreadable]
    · rw [htx, verifyStateTxTask_iff, Tconn.writable, hno]
      simp
  calling _ := h
  flushed _ _ := hflushed

/-- What `verify_state` says of the tasks. -/
theorem Tconn.Settled.tasks (h : tc.Settled) :
    (tc.rxTask = true ↔ tc.wantsRx = true ∧ tc.readable = true) ∧
      (tc.txTask = true ↔ tc.wantsTx = true ∧ tc.writable) := by
  obtain ⟨-, -, hrx, htx⟩ := verifyState_ok_iff.mp h.verified
  exact ⟨by rw [hrx, verifyStateRxTask_iff h.pending], by rw [htx, verifyStateTxTask_iff]⟩

/-- What is so while the input handler is set. -/
theorem Tconn.Settled.input (h : tc.Settled) (hen : tc.handlerIn = true) :
    tc.Calling ∧ tc.ioError = none ∧ tc.rxStart = tc.rxEnd ∧ tc.rxEof = false ∧
      tc.rxTask = false := by
  obtain ⟨hin, -⟩ := verifyState_ok_iff.mp h.verified
  obtain ⟨halive, hno, hempty, heof⟩ := verifyStatePollin_iff.mp (hin.symm.trans hen)
  refine ⟨h.calling halive, hno, hempty, heof, Bool.eq_false_iff.mpr fun hr => ?_⟩
  have hread := (h.tasks.1.mp hr).2
  rw [readable_eq_false.mpr ⟨hno, hempty, heof⟩] at hread
  exact Bool.false_ne_true hread

/-- What is so while the output handler is set. -/
theorem Tconn.Settled.output (h : tc.Settled) (hen : tc.handlerOut = true) :
    tc.Calling ∧ tc.ioError = none ∧ tc.txBytes ≠ 0 := by
  obtain ⟨-, hout, -⟩ := verifyState_ok_iff.mp h.verified
  obtain ⟨halive, hno, hne⟩ := verifyStatePollout_iff.mp (hout hen)
  exact ⟨h.calling halive, hno, hne⟩

end Settled

end Dvpn
