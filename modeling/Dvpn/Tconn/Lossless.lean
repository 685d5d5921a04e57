import Dvpn.Tconn.Transport

/-!
# Nothing is lost in the transport buffers

The functions on the buffers of `tconn.c` in any order: GnuTLS pushes, pulls and is flushed, the
handlers are called while they are set, and in between the session and the tasks do what they like
(`TransportOp.session`) or the connection is given up (`TransportOp.abort`).

* `TransportEvent`: the bytes that went into and out of the buffers.
* `transportStep_passes`: what one step passes through them.
* `transport_lossless`: as long as no I/O error is recorded, nothing is lost, added or overtaken,
  for pushes of at most `INT_MAX` bytes.
* `transport_overflow`: a push of `2 ^ 31` bytes into a socket that takes everything returns a
  negative number, because `copied` is an `int`.
-/

namespace Dvpn

open Fifo

/-- What happens to the buffers. -/
inductive TransportOp where
  | push (buf : Bytes) (answers : List SendAnswer)
  | flush (answers : List SendAnswer)
  | fdOut (answers : List SendAnswer)
  | fdIn (answers : List RecvAnswer)
  | pull (len : Nat)
  /-- the handshake and the record layer change the session and the tasks -/
  | session (state : TconnSession) (writing pending rxTask txTask : Bool)
  /-- `tconn_connection_abort` -/
  | abort

/-- Bytes that `send` took, that a push reported as accepted, that `recv` gave, and that were
pulled. -/
inductive TransportEvent where
  | sent (b : Bytes)
  | accepted (b : Bytes)
  | received (b : Bytes)
  | pulled (b : Bytes)

def TransportEvent.sentBytes : TransportEvent → Bytes
  | .sent b => b
  | _ => []

def TransportEvent.acceptedBytes : TransportEvent → Bytes
  | .accepted b => b
  | _ => []

def TransportEvent.receivedBytes : TransportEvent → Bytes
  | .received b => b
  | _ => []

def TransportEvent.pulledBytes : TransportEvent → Bytes
  | .pulled b => b
  | _ => []

/-- One step. -/
def transportStep (tc : Tconn) : TransportOp → Except Crash (Tconn × List TransportEvent)
  | .push buf answers => do
    let (tc, ret, out) ← tconnGtlsPushFunc tc buf answers
    return (tc, [.sent out, .accepted (buf.take ret.toNat)])
  | .flush answers => do
    let (tc, _, out) ← tconnTxFlush tc answers
    return (tc, [.sent out])
  | .fdOut answers => do
    let (tc, out) ← tconnFdHandlerOut tc answers
    return (tc, [.sent out])
  | .fdIn answers => do
    let (tc, b) ← tconnFdHandlerIn tc answers
    return (tc, [.received b])
  | .pull len => do
    let (tc, _, out) ← tconnGtlsPullFunc tc len
    return (tc, [.pulled out])
  | .session state writing pending rxTask txTask =>
    .ok ({ tc with
      state := state
      writing := writing
      pending := pending
      rxTask := rxTask
      txTask := txTask }, [])
  | .abort =>
    .ok ({ tc with
      handlerIn := false
      handlerOut := false
      state := .dead
      rxTask := false
      txTask := false }, [])

/-- A handler is called while it is set. -/
def TransportOp.Enabled (tc : Tconn) : TransportOp → Prop
  | .fdOut _ => tc.handlerOut = true
  | .fdIn _ => tc.handlerIn = true
  | _ => True

/-- A push is given at most `INT_MAX` bytes. -/
def TransportOp.Short : TransportOp → Prop
  | .push buf _ => buf.length ≤ INT_MAX
  | _ => True

/-- A connection as `tconn_start` sets it up. -/
structure Tconn.Started (tc : Tconn) : Prop where
  txBuf : tc.txBuf.length = TCONN_BUF.toNat
  rxBuf : tc.rxBuf.length = TCONN_BUF.toNat
  handlerIn : tc.handlerIn = true
  handlerOut : tc.handlerOut = false
  ioError : tc.ioError = none
  rxTask : tc.rxTask = false
  rxStart : tc.rxStart = 0
  rxEnd : tc.rxEnd = 0
  rxEof : tc.rxEof = false
  txTask : tc.txTask = false
  txBytes : tc.txBytes = 0

theorem Tconn.Started.inside {tc : Tconn} (h : tc.Started) : tc.Inside where
  txBuf := h.txBuf
  txBytes := by rw [h.txBytes]; decide
  rxBuf := h.rxBuf
  rxStart := by rw [h.rxStart, h.rxEnd]; decide
  rxEnd := by rw [h.rxEnd]; decide
  idle _ := h.rxStart.trans h.rxEnd.symm

section Steps

variable {tc tc' : Tconn} {op : TransportOp} {es : List TransportEvent}

/-- A step of the output passes nothing through the input buffer. -/
theorem OutStep.passes (h : OutStep tc tc') : Passes tc.rxHeld [] [] tc'.rxHeld := by
  rw [h.rxHeld]
  exact Passes.refl _

theorem InStep.passes (h : InStep tc tc') : Passes tc.txHeld [] [] tc'.txHeld := by
  rw [h.txHeld]
  exact Passes.refl _

/-- **What a step passes through the buffers.** -/
theorem transportStep_passes (h : tc.Inside) (hen : op.Enabled tc)
    (hrun : transportStep tc op = .ok (tc', es)) :
    tc'.Inside ∧ (tc'.ioError = none → tc.ioError = none) ∧
      (op.Short → tc'.ioError = none →
        Passes tc.txHeld (es.flatMap TransportEvent.sentBytes)
          (es.flatMap TransportEvent.acceptedBytes) tc'.txHeld ∧
        Passes tc.rxHeld (es.flatMap TransportEvent.pulledBytes)
          (es.flatMap TransportEvent.receivedBytes) tc'.rxHeld) := by
  cases op with
  | push buf answers =>
    obtain ⟨t, ret, out, hpush, hstep, hres⟩ := tconnGtlsPushFunc_spec h buf answers
    obtain ⟨r, hpush', hrun⟩ := bind_eq_ok.mp hrun
    cases hpush.symm.trans hpush'
    cases hrun
    refine ⟨hstep.inside, hstep.ioError, fun hlen hno => ⟨?_, hstep.passes⟩⟩
    simpa [TransportEvent.sentBytes, TransportEvent.acceptedBytes] using (hres hno hlen).2
  | flush answers =>
    obtain ⟨t, ret, out, hflush, hstep, hres⟩ := tconnTxFlush_spec h answers
    obtain ⟨r, hflush', hrun⟩ := bind_eq_ok.mp hrun
    cases hflush.symm.trans hflush'
    cases hrun
    refine ⟨hstep.inside, hstep.ioError, fun _ hno => ⟨?_, hstep.passes⟩⟩
    simpa [TransportEvent.sentBytes, TransportEvent.acceptedBytes] using hres hno
  | fdOut answers =>
    obtain ⟨⟨t, out⟩, hout, hrun⟩ := bind_eq_ok.mp hrun
    cases hrun
    obtain ⟨hstep, hres⟩ := tconnFdHandlerOut_spec h hout
    refine ⟨hstep.inside, hstep.ioError, fun _ hno => ⟨?_, hstep.passes⟩⟩
    simpa [TransportEvent.sentBytes, TransportEvent.acceptedBytes] using hres hno
  | fdIn answers =>
    obtain ⟨⟨t, b⟩, hin, hrun⟩ := bind_eq_ok.mp hrun
    cases hrun
    obtain ⟨hstep, hres⟩ := tconnFdHandlerIn_spec h hen hin
    refine ⟨hstep.inside, hstep.ioError, fun _ _ => ⟨hstep.passes, ?_⟩⟩
    simpa [TransportEvent.pulledBytes, TransportEvent.receivedBytes] using hres
  | pull len =>
    obtain ⟨t, ret, out, hpull, hstep, hres⟩ := tconnGtlsPullFunc_spec h len
    obtain ⟨r, hpull', hrun⟩ := bind_eq_ok.mp hrun
    cases hpull.symm.trans hpull'
    cases hrun
    refine ⟨hstep.inside, hstep.ioError, fun _ _ => ⟨hstep.passes, ?_⟩⟩
    simpa [TransportEvent.pulledBytes, TransportEvent.receivedBytes] using hres
  | session state writing pending rxTask txTask =>
    cases hrun
    exact ⟨⟨h.txBuf, h.txBytes, h.rxBuf, h.rxStart, h.rxEnd, h.idle⟩, id,
      fun _ _ => ⟨Passes.refl _, Passes.refl _⟩⟩
  | abort =>
    cases hrun
    exact ⟨⟨h.txBuf, h.txBytes, h.rxBuf, h.rxStart, h.rxEnd, fun hh => nomatch hh⟩, id,
      fun _ _ => ⟨Passes.refl _, Passes.refl _⟩⟩

end Steps

section Runs

variable {tc₀ tc : Tconn} {ops : List TransportOp} {es : List TransportEvent}

/-- What passed through the buffers from the start. -/
structure Lossless (tc : Tconn) (es : List TransportEvent) : Prop where
  inside : tc.Inside
  output : tc.ioError = none → Passes [] (es.flatMap TransportEvent.sentBytes)
    (es.flatMap TransportEvent.acceptedBytes) tc.txHeld
  input : tc.ioError = none → Passes [] (es.flatMap TransportEvent.pulledBytes)
    (es.flatMap TransportEvent.receivedBytes) tc.rxHeld

/-- **The buffers over a run.** -/
theorem run_lossless (h0 : tc₀.Started)
    (h : Run transportStep (fun tc op => op.Enabled tc ∧ op.Short) tc₀ ops tc es) :
    Lossless tc es := by
  refine h.invariant (fun _ tc es => Lossless tc es) ⟨h0.inside, fun _ => ?_, fun _ => ?_⟩ ?_
  · unfold Tconn.txHeld
    rw [h0.txBytes]
    exact Passes.refl []
  · unfold Tconn.rxHeld
    rw [h0.rxStart, h0.rxEnd]
    exact Passes.refl []
  · rintro os s es op s' es' hinv ⟨hen, hshort⟩ hstep
    obtain ⟨hin', hio, hpass⟩ := transportStep_passes hinv.inside hen hstep
    refine ⟨hin', fun hno => ?_, fun hno => ?_⟩
    · rw [List.flatMap_append, List.flatMap_append]
      exact (hinv.output (hio hno)).trans (hpass hshort hno).1
    · rw [List.flatMap_append, List.flatMap_append]
      exact (hinv.input (hio hno)).trans (hpass hshort hno).2

/-- **Nothing is lost**: what `send` took and `tx_buf` still holds is what the pushes accepted, what
was pulled and `rx_buf` still holds is what was received; a push into a buffer that is not full
accepts something, and the input handler is never called on a buffer that is not empty. -/
theorem transport_lossless (h0 : tc₀.Started)
    (h : Run transportStep (fun tc op => op.Enabled tc ∧ op.Short) tc₀ ops tc es) :
    (0 ≤ tc.txBytes ∧ tc.txBytes ≤ 32768) ∧
    (0 ≤ tc.rxStart ∧ tc.rxStart ≤ tc.rxEnd ∧ tc.rxEnd ≤ 32768) ∧
    (tc.ioError = none →
      es.flatMap TransportEvent.sentBytes ++ tc.txBuf.take tc.txBytes.toNat =
        es.flatMap TransportEvent.acceptedBytes ∧
      es.flatMap TransportEvent.pulledBytes ++
          (tc.rxBuf.take tc.rxEnd.toNat).drop tc.rxStart.toNat =
        es.flatMap TransportEvent.receivedBytes) ∧
    (∀ buf answers, buf ≠ [] → buf.length ≤ INT_MAX → tc.txBytes ≠ 32768 →
      ∃ tc' ret out, tconnGtlsPushFunc tc buf answers = .ok (tc', ret, out) ∧
        (tc'.ioError = none → 0 < ret)) ∧
    (tc.handlerIn = true → tc.rxStart = tc.rxEnd ∧
      ∀ answers, tconnFdHandlerIn tc answers ≠ .error .tconnFdHandlerIn) := by
  obtain ⟨hin, hout, hinput⟩ := run_lossless h0 h
  refine ⟨hin.txBytes, ⟨hin.rxStart.1, hin.rxStart.2, hin.rxEnd⟩,
    fun hno => ⟨hout hno, hinput hno⟩, ?_, fun hh => ?_⟩
  · intro buf answers hne hlen hroom
    obtain ⟨tc', ret, out, hrun, -, hres⟩ := tconnGtlsPushFunc_spec hin buf answers
    exact ⟨tc', ret, out, hrun, fun hno => (hres hno hlen).1 hroom hne⟩
  · exact ⟨hin.idle hh, tconnFdHandlerIn_no_abort hin hh⟩

end Runs

/-- A connection that was started. -/
def startedTconn : Tconn where
  handlerIn := true
  handlerOut := false
  writing := true
  pending := false
  transportErrno := none
  state := .handshake
  ioError := none
  rxTask := false
  rxBuf := List.replicate TCONN_BUF.toNat 0
  rxStart := 0
  rxEnd := 0
  rxEof := false
  txTask := false
  txBuf := List.replicate TCONN_BUF.toNat 0
  txBytes := 0

theorem startedTconn_started : startedTconn.Started where
  txBuf := List.length_replicate
  rxBuf := List.length_replicate
  handlerIn := rfl
  handlerOut := rfl
  ioError := rfl
  rxTask := rfl
  rxStart := rfl
  rxEnd := rfl
  rxEof := rfl
  txTask := rfl
  txBytes := rfl

/-- A push of one byte. -/
theorem transport_lossless_push : ∃ tc es,
    Run transportStep (fun tc op => op.Enabled tc ∧ op.Short) startedTconn [.push [1] []] tc es ∧
      0 ≤ tc.txBytes ∧ tc.txBytes ≤ 32768 := by
  obtain ⟨tc, ret, out, hrun, -, -⟩ := tconnGtlsPushFunc_spec startedTconn_started.inside [1] []
  have hstep : transportStep startedTconn (.push [1] []) =
      .ok (tc, [.sent out, .accepted ([1].take ret.toNat)]) :=
    bind_eq_ok.mpr ⟨_, hrun, rfl⟩
  have hr : Run transportStep (fun tc op => op.Enabled tc ∧ op.Short) startedTconn
      [.push [1] []] tc _ := .snoc .nil ⟨trivial, show 1 ≤ INT_MAX by decide⟩ hstep
  exact ⟨tc, _, hr, (transport_lossless startedTconn_started hr).1⟩

/-- A push of `2 ^ 31` bytes into a socket that takes everything: all are sent, none is reported as
accepted. -/
theorem transport_overflow : ∃ buf answers tc es,
    Run transportStep (fun tc op => op.Enabled tc) startedTconn [.push buf answers] tc es ∧
      buf.length = 2 ^ 31 ∧ tc.ioError = none ∧
      es.flatMap TransportEvent.sentBytes ++ tc.txBuf.take tc.txBytes.toNat ≠
        es.flatMap TransportEvent.acceptedBytes := by
  obtain ⟨buf, hlen⟩ : ∃ buf : Bytes, buf.length = 2 ^ 31 :=
    ⟨List.replicate (2 ^ 31) 0, List.length_replicate⟩
  obtain ⟨tc, hrun, hio, hheld⟩ := pushAgain_rooms 65535 startedTconn_started.inside rfl rfl rfl
    (show buf.length = 32768 * (65535 + 1) by rw [hlen]; norm_num) 0
  have hwrap : toInt (0 + ((2 ^ 31 : Nat) : Int)) = -2 ^ 31 := by decide
  rw [hlen, hwrap] at hrun
  have hstep : transportStep startedTconn (.push buf (List.replicate (65535 + 1) (.room 32768))) =
      .ok (tc, [.sent buf, .accepted (buf.take (-2 ^ 31 : Int).toNat)]) :=
    bind_eq_ok.mpr ⟨_, hrun, rfl⟩
  refine ⟨buf, _, tc, _, .snoc .nil trivial hstep, hlen, hio, fun heq => ?_⟩
  have hsent := congrArg List.length heq
  simp [TransportEvent.sentBytes, TransportEvent.acceptedBytes, hlen] at hsent

end Dvpn
