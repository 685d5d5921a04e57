import Dvpn.Fifo
import Dvpn.Memory
import Dvpn.Run

/-!
# The transport buffers of a TLS connection (`tconn.c`)

GnuTLS reads and writes its records through two buffers of 32768 bytes. `tconn_gtls_push_func`
fills `tx_buf`, and sends it when it is full; `tconn_tx_flush` sends what is in it; once the socket
takes no more, `tconn_fd_handler_out` sends the rest whenever there is room. `tconn_fd_handler_in`
fills `rx_buf` and is then switched off until `tconn_gtls_pull_func` has emptied it.

* The model follows the source: the buffers with their counts, the handlers and tasks as what is
  registered, `verify_state` with its `abort()`s.
* The answers of the socket are a list: `send` finds room for some bytes, or fails; when the list is
  at its end there is no more room (`EAGAIN`). `recv` likewise.
* `copied` is an `int`, and wraps.
-/

namespace Dvpn

/-! ## The socket -/

/-- `errno`. -/
inductive Errno where
  | eintr
  | eagain
  | other (e : Nat)
  deriving DecidableEq, Repr

/-- What `send` finds: room for so many bytes, or an error. -/
inductive SendAnswer where
  | room (n : Nat)
  | error (e : Errno)

/-- What `recv` finds: bytes that have arrived, nothing at the end of the stream, or an error. -/
inductive RecvAnswer where
  | data (b : Bytes)
  | error (e : Errno)

/-- The loop around `send` of `len` bytes: the number that is sent, and the answers left. -/
def sendRetry (len : Nat) : List SendAnswer → Except Errno Nat × List SendAnswer
  | [] => (.error .eagain, [])
  | .error .eintr :: answers => sendRetry len answers
  | .error e :: answers => (.error e, answers)
  | .room n :: answers => (.ok (min n len), answers)

/-- The loop around `recv` of at most `len` bytes. -/
def recvRetry (len : Nat) : List RecvAnswer → Except Errno Bytes
  | [] => .error .eagain
  | .error .eintr :: answers => recvRetry len answers
  | .error e :: _ => .error e
  | .data b :: _ => .ok (b.take len)

theorem sendRetry_le {len n : Nat} {answers rest : List SendAnswer}
    (h : sendRetry len answers = (.ok n, rest)) : n ≤ len ∧ rest.length < answers.length := by
  fun_induction sendRetry len answers with
  | case1 => cases h
  | case2 answers ih => exact ⟨(ih h).1, (ih h).2.trans (Nat.lt_succ_self _)⟩
  | case3 => cases h
  | case4 m answers =>
    cases h
    exact ⟨Nat.min_le_right _ _, Nat.lt_succ_self _⟩

/-! ## The connection -/

/-- `STATE_*` in `tconn.c`. -/
inductive TconnSession where
  | handshake
  | running
  | txCongestion
  | dead
  deriving DecidableEq, Repr

/-- `sizeof(tc->rx_buf)` and `sizeof(tc->tx_buf)`. -/
def TCONN_BUF : Int := 32768

/-- `struct tconn`, with what it asks GnuTLS and the event loop. -/
structure Tconn where
  /-- `fd->handler_in` is set -/
  handlerIn : Bool
  /-- `fd->handler_out` is set -/
  handlerOut : Bool
  /-- `gnutls_record_get_direction` is 1 -/
  writing : Bool
  /-- `gnutls_record_check_pending` -/
  pending : Bool
  /-- what `gnutls_transport_set_errno` was called with last -/
  transportErrno : Option Errno
  state : TconnSession
  ioError : Option Errno
  rxTask : Bool
  rxBuf : Bytes
  rxStart : Int
  rxEnd : Int
  rxEof : Bool
  txTask : Bool
  txBuf : Bytes
  txBytes : Int

variable (tc : Tconn)

/-- `verify_state_pollin`. -/
def Tconn.verifyStatePollin : Bool :=
  !(tc.state = .dead ∨ tc.ioError.isSome) ∧ !(tc.rxStart ≠ tc.rxEnd ∨ tc.rxEof)

/-- `verify_state_pollout`. -/
def Tconn.verifyStatePollout : Bool :=
  !(tc.state = .dead ∨ tc.ioError.isSome) ∧ tc.txBytes ≠ 0

/-- There is something that the session waits for: an error, data or the end of the stream. -/
def Tconn.readable : Bool := tc.ioError.isSome ∨ tc.rxStart ≠ tc.rxEnd ∨ tc.rxEof

/-- `verify_state_rx_task`. -/
def Tconn.verifyStateRxTask : Bool :=
  (tc.state = .handshake ∧ !tc.writing ∧ tc.readable) ∨
    ((tc.state = .running ∨ tc.state = .txCongestion) ∧ (tc.pending ∨ tc.readable))

/-- `verify_state_tx_task`. -/
def Tconn.verifyStateTxTask : Bool :=
  (tc.state = .handshake ∧ tc.writing ∧ (tc.ioError.isSome ∨ tc.txBytes < TCONN_BUF)) ∨
    (tc.state = .txCongestion ∧ (tc.ioError.isSome ∨ tc.txBytes < TCONN_BUF))

/-- `verify_state`: a missing output handler is only a warning. -/
def Tconn.verifyState : Except Crash Unit :=
  if tc.verifyStatePollin ≠ tc.handlerIn then .error .tconnVerifyState
  else if !tc.verifyStatePollout ∧ tc.handlerOut then .error .tconnVerifyState
  else if tc.verifyStateRxTask ≠ tc.rxTask then .error .tconnVerifyState
  else if tc.verifyStateTxTask ≠ tc.txTask then .error .tconnVerifyState
  else .ok ()

/-- The tests before `iv_task_register(&tc->rx_task)`. -/
def Tconn.wantsRx : Bool :=
  (tc.state = .handshake ∧ !tc.writing) ∨ tc.state = .running ∨ tc.state = .txCongestion

/-- The tests before `iv_task_register(&tc->tx_task)`. -/
def Tconn.wantsTx : Bool := (tc.state = .handshake ∧ tc.writing) ∨ tc.state = .txCongestion

/-- `got_io_error`. -/
def Tconn.gotIoError : Tconn :=
  { tc with
    handlerIn := false
    handlerOut := false
    rxTask := tc.rxTask || tc.wantsRx
    txTask := tc.txTask || tc.wantsTx }

/-! ## Input -/

/-- `tconn_fd_handler_in`: the connection and the bytes received. -/
def tconnFdHandlerIn (answers : List RecvAnswer) : Except Crash (Tconn × Bytes) := do
  tc.verifyState
  if tc.rxStart ≠ tc.rxEnd then throw .tconnFdHandlerIn
  let tc := { tc with rxStart := 0, rxEnd := 0 }
  match recvRetry TCONN_BUF.toNat answers with
  | .error .eagain =>
    tc.verifyState
    return (tc, [])
  | .error e =>
    let tc := { tc with ioError := some e }.gotIoError
    tc.verifyState
    return (tc, [])
  | .ok [] =>
    let tc := { tc with rxEof := true }.gotIoError
    tc.verifyState
    return (tc, [])
  | .ok b =>
    let rxBuf ← memcpy tc.rxBuf 0 b
    let tc := { tc with
      rxBuf := rxBuf
      handlerIn := false
      rxTask := tc.rxTask || tc.wantsRx
      rxEnd := b.length }
    tc.verifyState
    return (tc, b)

/-- `tconn_gtls_pull_func`: the connection, the result and the bytes pulled. -/
def tconnGtlsPullFunc (len : Nat) : Except Crash (Tconn × Int × Bytes) :=
  match tc.ioError with
  | some e => .ok ({ tc with transportErrno := some e }, -1, [])
  | none =>
    if tc.rxStart ≠ tc.rxEnd then
      let tocopy := tc.rxEnd - tc.rxStart
      let tocopy := if tocopy > len then (len : Int) else tocopy
      let buf := (tc.rxBuf.drop tc.rxStart.toNat).take tocopy.toNat
      let tc := { tc with rxStart := tc.rxStart + tocopy }
      let tc := if tc.rxStart = tc.rxEnd then { tc with handlerIn := true } else tc
      .ok (tc, tocopy, buf)
    else if tc.rxEof then .ok (tc, 0, [])
    else .ok ({ tc with transportErrno := some .eagain }, -1, [])

/-! ## Output -/

/-- `ret` bytes are sent: they leave the buffer. -/
def Tconn.sent (ret : Nat) : Except Crash Tconn :=
  let txBytes := tc.txBytes - ret
  if txBytes ≠ 0 then do
    let txBuf ← memmove tc.txBuf ret txBytes.toNat
    return { tc with txBuf := txBuf, txBytes := txBytes }
  else .ok { tc with txBytes := txBytes }

/-- The output handler is set when there is something left to send. -/
def Tconn.armed : Tconn := if tc.txBytes ≠ 0 then { tc with handlerOut := true } else tc

/-- `tconn_fd_handler_out`: the connection and the bytes sent. -/
def tconnFdHandlerOut (answers : List SendAnswer) : Except Crash (Tconn × Bytes) := do
  tc.verifyState
  match (sendRetry tc.txBytes.toNat answers).1 with
  | .error .eagain =>
    tc.verifyState
    return (tc, [])
  | .error e =>
    let tc := { tc with ioError := some e }.gotIoError
    tc.verifyState
    return (tc, [])
  | .ok ret =>
    let out := tc.txBuf.take ret
    let tc := { tc with txTask := tc.txTask || (tc.txBytes = TCONN_BUF ∧ tc.wantsTx) }
    let tc ← tc.sent ret
    let tc := if tc.txBytes ≠ 0 then tc else { tc with handlerOut := false }
    tc.verifyState
    return (tc, out)

/-- From the label `again` to the test whether to send: the connection, what is left of `buf`, and
`copied`. -/
def pushCopy (buf : Bytes) (copied : Int) : Except Crash (Tconn × Bytes × Int) := do
  let tocopy := TCONN_BUF - tc.txBytes
  let tocopy := if tocopy > buf.length then (buf.length : Int) else tocopy
  let txBuf ← memcpy tc.txBuf tc.txBytes.toNat (buf.take tocopy.toNat)
  return ({ tc with txBuf := txBuf, txBytes := tc.txBytes + tocopy }, buf.drop tocopy.toNat,
    toInt (copied + tocopy))

/-- What follows a `send` of `tconn_gtls_push_func` that did not fail. -/
def pushSent (ret : Nat) : Except Crash Tconn := do
  let tc ← if 0 < ret then tc.sent ret else pure tc
  return tc.armed

/-- The loop of `tconn_gtls_push_func`: the connection, the result and the bytes sent. -/
def pushAgain (tc : Tconn) (buf : Bytes) (copied : Int) (answers : List SendAnswer) :
    Except Crash (Tconn × Int × Bytes) := do
  let (tc, buf, copied) ← pushCopy tc buf copied
  if tc.handlerOut = false ∧ tc.txBytes = TCONN_BUF then
    match h : sendRetry tc.txBytes.toNat answers with
    -- the buffer stays full: the handler is set, and there is no room to go on
    | (.error .eagain, _) => return (tc.armed, copied, [])
    | (.error e, _) => return ({ tc with ioError := some e, transportErrno := some e }, -1, [])
    | (.ok ret, rest) =>
      let out := tc.txBuf.take ret
      let tc ← pushSent tc ret
      if buf.length ≠ 0 ∧ tc.txBytes < TCONN_BUF then
        let (tc, copied, out') ← pushAgain tc buf copied rest
        return (tc, copied, out ++ out')
      else return (tc, copied, out)
  else return (tc, copied, [])
termination_by answers.length
decreasing_by exact (sendRetry_le h).2

/-- `tconn_gtls_push_func`. -/
def tconnGtlsPushFunc (buf : Bytes) (answers : List SendAnswer) :
    Except Crash (Tconn × Int × Bytes) :=
  match tc.ioError with
  | some e => .ok ({ tc with transportErrno := some e }, -1, [])
  | none =>
    if tc.txBytes = TCONN_BUF then .ok ({ tc with transportErrno := some .eagain }, -1, [])
    else pushAgain tc buf 0 answers

/-- `tconn_tx_flush`. -/
def tconnTxFlush (answers : List SendAnswer) : Except Crash (Tconn × Int × Bytes) := do
  if tc.ioError.isSome then return (tc, 1, [])
  if tc.handlerOut ∨ tc.txBytes = 0 then return (tc, 0, [])
  match (sendRetry tc.txBytes.toNat answers).1 with
  | .error .eagain => return ({ tc with handlerOut := true }, 0, [])
  | .error e => return ({ tc with ioError := some e }, 1, [])
  | .ok ret =>
    let out := tc.txBuf.take ret
    let tc ← tc.sent ret
    return (tc.armed, 0, out)

/-! ## What the buffers hold -/

/-- `tx_buf[0 .. tx_bytes)`. -/
def Tconn.txHeld : Bytes := tc.txBuf.take tc.txBytes.toNat

/-- `rx_buf[rx_start .. rx_end)`. -/
def Tconn.rxHeld : Bytes := (tc.rxBuf.take tc.rxEnd.toNat).drop tc.rxStart.toNat

/-- The counts stay inside the buffers, and the input handler waits for an empty one. -/
structure Tconn.Inside : Prop where
  txBuf : tc.txBuf.length = TCONN_BUF.toNat
  txBytes : 0 ≤ tc.txBytes ∧ tc.txBytes ≤ TCONN_BUF
  rxBuf : tc.rxBuf.length = TCONN_BUF.toNat
  rxStart : 0 ≤ tc.rxStart ∧ tc.rxStart ≤ tc.rxEnd
  rxEnd : tc.rxEnd ≤ TCONN_BUF
  idle : tc.handlerIn = true → tc.rxStart = tc.rxEnd

/-- A step of the output: the input side stays as it is, except that its handler may be taken away,
and an error is not forgotten. -/
structure OutStep (tc tc' : Tconn) : Prop where
  inside : tc'.Inside
  rxHeld : tc'.rxHeld = tc.rxHeld
  ioError : tc'.ioError = none → tc.ioError = none

section Output

open Fifo

variable {tc tc' tc'' : Tconn} {buf : Bytes} {answers : List SendAnswer}

theorem OutStep.trans (h : OutStep tc tc') (h' : OutStep tc' tc'') : OutStep tc tc'' where
  inside := h'.inside
  rxHeld := h'.rxHeld.trans h.rxHeld
  ioError he := h.ioError (h'.ioError he)

/-- The connection with `data` behind what `tx_buf` holds. -/
def Tconn.filled (tc : Tconn) (data : Bytes) : Tconn :=
  { tc with
    txBuf := tc.txHeld ++ data ++ tc.txBuf.drop (tc.txBytes.toNat + data.length)
    txBytes := tc.txBytes + data.length }

theorem Tconn.length_txHeld (h : tc.Inside) : (tc.txHeld.length : Int) = tc.txBytes := by
  obtain ⟨h0, h1⟩ := h.txBytes
  unfold Tconn.txHeld
  rw [List.length_take, h.txBuf]
  omega

/-- **Bytes are put behind** what the buffer holds. -/
theorem Tconn.filled_spec (h : tc.Inside) {data : Bytes}
    (hfits : tc.txBytes + data.length ≤ TCONN_BUF) :
    memcpy tc.txBuf tc.txBytes.toNat data = .ok (tc.filled data).txBuf ∧
      OutStep tc (tc.filled data) ∧ (tc.filled data).txHeld = tc.txHeld ++ data := by
  have hlen := tc.length_txHeld h
  obtain ⟨h0, h1⟩ := h.txBytes
  have hbuf := h.txBuf
  have hT : TCONN_BUF = 32768 := rfl
  have hroom : tc.txBytes.toNat + data.length ≤ tc.txBuf.length := by omega
  refine ⟨if_pos hroom, ⟨⟨?_, ?_, h.rxBuf, h.rxStart, h.rxEnd, h.idle⟩, rfl, id⟩, ?_⟩
  · simp only [Tconn.filled, List.length_append, List.length_drop]
    omega
  · simp only [Tconn.filled]
    omega
  · have htake : (tc.txBytes + data.length).toNat = (tc.txHeld ++ data).length := by
      rw [List.length_append]
      omega
    change List.take (tc.txBytes + data.length).toNat _ = _
    rw [htake]
    exact List.take_left

/-- **Bytes are sent** from the front of the buffer. -/
theorem Tconn.sent_spec (h : tc.Inside) {ret : Nat} (hret : ret ≤ tc.txBytes.toNat) :
    ∃ tc', tc.sent ret = .ok tc' ∧ OutStep tc tc' ∧ tc'.txBytes = tc.txBytes - ret ∧
      tc'.handlerOut = tc.handlerOut ∧ tc'.ioError = tc.ioError ∧
      Passes tc.txHeld (tc.txBuf.take ret) [] tc'.txHeld := by
  obtain ⟨h0, h1⟩ := h.txBytes
  have hbuf := h.txBuf
  have hT : TCONN_BUF = 32768 := rfl
  have hout : tc.txBuf.take ret = tc.txHeld.take ret := by
    unfold Tconn.txHeld
    rw [List.take_take, Nat.min_eq_left hret]
  rw [hout]
  unfold Tconn.sent
  by_cases hz : tc.txBytes - ret = 0
  · rw [if_neg (not_not.mpr hz)]
    refine ⟨_, rfl, ⟨⟨hbuf, ?_, h.rxBuf, h.rxStart, h.rxEnd, h.idle⟩, rfl, id⟩, rfl, rfl, rfl, ?_⟩
    · dsimp only
      omega
    · have hdrop : tc.txHeld.drop ret = [] := by
        have hlen := tc.length_txHeld h
        exact List.drop_eq_nil_of_le (by omega)
      have hpop := Passes.pop tc.txHeld ret
      rw [hdrop] at hpop
      unfold Tconn.txHeld at hpop ⊢
      rw [hz]
      exact hpop
  · rw [if_pos hz]
    have hmove : memmove tc.txBuf ret (tc.txBytes - ret).toNat =
        .ok (tc.txHeld.drop ret ++ tc.txBuf.drop (tc.txBytes - ret).toNat) := by
      unfold memmove Tconn.txHeld
      rw [if_pos (by omega), List.drop_take]
      congr 4
      omega
    rw [hmove]
    have hlen := tc.length_txHeld h
    have hlen' : (tc.txHeld.drop ret).length = (tc.txBytes - ret).toNat := by
      rw [List.length_drop]
      omega
    refine ⟨_, rfl, ⟨⟨?_, ?_, h.rxBuf, h.rxStart, h.rxEnd, h.idle⟩, rfl, id⟩, rfl, rfl, rfl, ?_⟩
    · dsimp only
      rw [List.length_append, hlen', List.length_drop, hbuf]
      omega
    · dsimp only
      omega
    · have hheld : Tconn.txHeld { tc with
            txBuf := tc.txHeld.drop ret ++ tc.txBuf.drop (tc.txBytes - ret).toNat
            txBytes := tc.txBytes - ret } = tc.txHeld.drop ret := List.take_left' hlen'
      rw [hheld]
      exact Passes.pop _ _

theorem Tconn.armed_spec (h : tc.Inside) :
    OutStep tc tc.armed ∧ tc.armed.txHeld = tc.txHeld ∧ tc.armed.txBytes = tc.txBytes ∧
      tc.armed.ioError = tc.ioError := by
  unfold Tconn.armed
  split_ifs
  · exact ⟨⟨⟨h.txBuf, h.txBytes, h.rxBuf, h.rxStart, h.rxEnd, h.idle⟩, rfl, id⟩, rfl, rfl, rfl⟩
  · exact ⟨⟨h, rfl, id⟩, rfl, rfl, rfl⟩

theorem pushSent_spec (h : tc.Inside) {ret : Nat} (hret : ret ≤ tc.txBytes.toNat) :
    ∃ tc', pushSent tc ret = .ok tc' ∧ OutStep tc tc' ∧ tc'.ioError = tc.ioError ∧
      tc'.txBytes = tc.txBytes - ret ∧ (tc'.txBytes = 0 → tc'.handlerOut = tc.handlerOut) ∧
      Passes tc.txHeld (tc.txBuf.take ret) [] tc'.txHeld := by
  have harmed : ∀ t : Tconn, t.armed.txBytes = 0 → t.armed.handlerOut = t.handlerOut := by
    intro t ht
    unfold Tconn.armed at ht ⊢
    split_ifs at ht ⊢ with hz
    · exact absurd ht hz
    · rfl
  unfold pushSent
  by_cases hpos : 0 < ret
  · obtain ⟨tc', hrun, hstep, hbytes, hout, hio, hpass⟩ := tc.sent_spec h hret
    obtain ⟨harm, hheld, hbytes', hio'⟩ := tc'.armed_spec hstep.inside
    rw [if_pos hpos, hrun]
    exact ⟨_, rfl, hstep.trans harm, hio'.trans hio, hbytes'.trans hbytes,
      fun hz => (harmed tc' hz).trans hout, hheld ▸ hpass⟩
  · obtain ⟨harm, hheld, hbytes, hio'⟩ := tc.armed_spec h
    obtain rfl := Nat.eq_zero_of_not_pos hpos
    rw [if_neg hpos]
    exact ⟨_, rfl, harm, hio', by rw [hbytes]; simp, harmed tc, hheld ▸ Passes.refl tc.txHeld⟩

/-- **A part of the bytes is copied**: what there is room for. -/
theorem pushCopy_spec (h : tc.Inside) (buf : Bytes) (copied : Int) :
    ∃ (tc' : Tconn) (n : Nat),
      pushCopy tc buf copied = .ok (tc', buf.drop n, toInt (copied + n)) ∧ OutStep tc tc' ∧
      (n : Int) = min (TCONN_BUF - tc.txBytes) buf.length ∧
      tc'.txBytes = tc.txBytes + n ∧ tc'.handlerOut = tc.handlerOut ∧ tc'.ioError = tc.ioError ∧
      Passes tc.txHeld [] (buf.take n) tc'.txHeld := by
  obtain ⟨h0, h1⟩ := h.txBytes
  obtain ⟨n, hn, hmin⟩ : ∃ n : Nat, (if TCONN_BUF - tc.txBytes > buf.length then (buf.length : Int)
      else TCONN_BUF - tc.txBytes) = n ∧ (n : Int) = min (TCONN_BUF - tc.txBytes) buf.length := by
    split_ifs with hgt
    · exact ⟨buf.length, rfl, by omega⟩
    · exact ⟨(TCONN_BUF - tc.txBytes).toNat, by omega, by omega⟩
  have hlen : (buf.take n).length = n := by rw [List.length_take]; omega
  have hfits : tc.txBytes + (buf.take n).length ≤ TCONN_BUF := by rw [hlen]; omega
  obtain ⟨hcopy, hstep, hheld⟩ := tc.filled_spec h hfits
  have heq : { tc with txBuf := (tc.filled (buf.take n)).txBuf, txBytes := tc.txBytes + n } =
      tc.filled (buf.take n) := by
    unfold Tconn.filled
    rw [hlen]
  refine ⟨tc.filled (buf.take n), n, ?_, hstep, hmin, ?_, rfl, rfl, hheld ▸ Passes.put _ _⟩
  · unfold pushCopy
    dsimp only
    rw [hn, Int.toNat_natCast, hcopy, ok_bind, heq]
    rfl
  · unfold Tconn.filled
    rw [hlen]

theorem toInt_toInt_add (a b : Int) : toInt (toInt a + b) = toInt (a + b) := by
  unfold toInt
  exact Int.bmod_add_bmod

/-- **The loop of `tconn_gtls_push_func`** takes a first part of its bytes, at least one if there is
room for it, and adds their number to `copied`. -/
theorem pushAgain_spec (h : tc.Inside) (hio : tc.ioError = none) (buf : Bytes) (copied : Int)
    (answers : List SendAnswer) :
    ∃ tc' ret out, pushAgain tc buf copied answers = .ok (tc', ret, out) ∧ OutStep tc tc' ∧
      (tc'.ioError = none → ∃ n : Nat, n ≤ buf.length ∧ ret = toInt (copied + n) ∧
        (tc.txBytes < TCONN_BUF → buf ≠ [] → 0 < n) ∧
        Passes tc.txHeld out (buf.take n) tc'.txHeld) := by
  induction hk : answers.length using Nat.strong_induction_on
    generalizing tc buf copied answers with
  | _ k ih =>
    obtain ⟨tc₁, n, hcopy, hstep₁, hmin, -, -, hio₁, hput⟩ := pushCopy_spec h buf copied
    have hnle : n ≤ buf.length := by omega
    have hpos : tc.txBytes < TCONN_BUF → buf ≠ [] → 0 < n := by
      intro hlt hne
      have hlen := List.length_pos_iff.mpr hne
      omega
    rw [hio] at hio₁
    rw [pushAgain, hcopy, ok_bind]
    dsimp only
    by_cases hfull : tc₁.handlerOut = false ∧ tc₁.txBytes = TCONN_BUF
    · rw [if_pos hfull]
      split
      · -- `EAGAIN`
        obtain ⟨harm, hheld, -, hioarm⟩ := tc₁.armed_spec hstep₁.inside
        exact ⟨_, _, _, rfl, hstep₁.trans harm, fun _ => ⟨n, hnle, rfl, hpos, hheld ▸ hput⟩⟩
      · -- an I/O error
        have hin := hstep₁.inside
        exact ⟨_, _, _, rfl, ⟨⟨hin.txBuf, hin.txBytes, hin.rxBuf, hin.rxStart, hin.rxEnd, hin.idle⟩,
          hstep₁.rxHeld, fun hno => nomatch hno⟩, fun hno => nomatch hno⟩
      · next ret rest hsend =>
        obtain ⟨hret, hrest⟩ := sendRetry_le hsend
        obtain ⟨tc₂, hsent, hstep₂, hio₂, -, -, hpop⟩ := pushSent_spec hstep₁.inside hret
        have hpass : Passes tc.txHeld (tc₁.txBuf.take ret) (buf.take n) tc₂.txHeld := by
          simpa using hput.trans hpop
        rw [hsent, ok_bind]
        by_cases hmore : (buf.drop n).length ≠ 0 ∧ tc₂.txBytes < TCONN_BUF
        · obtain ⟨tc₃, r, out, hrun, hstep₃, hres⟩ :=
            ih rest.length (hk ▸ hrest) hstep₂.inside (hio₂.trans hio₁) (buf.drop n)
              (toInt (copied + n)) rest rfl
          rw [if_pos hmore, hrun, ok_bind]
          refine ⟨_, _, _, rfl, (hstep₁.trans hstep₂).trans hstep₃, fun hno => ?_⟩
          obtain ⟨m, hm, rfl, -, hpass'⟩ := hres hno
          rw [List.length_drop] at hm
          refine ⟨n + m, by omega, ?_, fun hlt hne => Nat.lt_of_lt_of_le (hpos hlt hne) (by omega),
            ?_⟩
          · rw [toInt_toInt_add, add_assoc]
            rfl
          · rw [List.take_add]
            exact hpass.trans hpass'
        · rw [if_neg hmore]
          exact ⟨_, _, _, rfl, hstep₁.trans hstep₂, fun _ => ⟨n, hnle, rfl, hpos, hpass⟩⟩
    · rw [if_neg hfull]
      exact ⟨_, _, _, rfl, hstep₁, fun _ => ⟨n, hnle, rfl, hpos, hput⟩⟩

/-- A round in which a full buffer is sent as a whole. -/
theorem pushAgain_room (h : tc.Inside) (hio : tc.ioError = none) (hout : tc.handlerOut = false)
    (hz : tc.txBytes = 0) (hlen : 32768 ≤ buf.length) (copied : Int) (rest : List SendAnswer) :
    ∃ tc', tc'.Inside ∧ tc'.ioError = none ∧ tc'.handlerOut = false ∧ tc'.txBytes = 0 ∧
      pushAgain tc buf copied (.room 32768 :: rest) =
        if (buf.drop 32768).length ≠ 0 then do
          let r ← pushAgain tc' (buf.drop 32768) (toInt (copied + 32768)) rest
          return (r.1, r.2.1, buf.take 32768 ++ r.2.2)
        else .ok (tc', toInt (copied + 32768), buf.take 32768) := by
  have hT : TCONN_BUF = 32768 := rfl
  obtain ⟨tc₁, n, hcopy, hstep₁, hmin, hcount, hhandler, hio₁, hput⟩ := pushCopy_spec h buf copied
  obtain rfl : n = 32768 := by omega
  have hfull : tc₁.txBytes = 32768 := by rw [hcount, hz]; rfl
  have hnone : tc.txHeld = [] := by unfold Tconn.txHeld; rw [hz]; rfl
  have hheld : tc₁.txBuf.take 32768 = buf.take 32768 := by
    have hpass : tc₁.txHeld = [] ++ buf.take 32768 := hnone ▸ hput
    unfold Tconn.txHeld at hpass
    rwa [hfull] at hpass
  obtain ⟨tc₂, hsent, hstep₂, hio₂, hbytes₂, hout₂, -⟩ :=
    pushSent_spec hstep₁.inside (show 32768 ≤ tc₁.txBytes.toNat by rw [hfull]; rfl)
  have hzero : tc₂.txBytes = 0 := by rw [hbytes₂, hfull]; rfl
  have hsend : sendRetry tc₁.txBytes.toNat (.room 32768 :: rest) = (.ok 32768, rest) := by
    rw [hfull]
    rfl
  refine ⟨tc₂, hstep₂.inside, by rw [hio₂, hio₁, hio], by rw [hout₂ hzero, hhandler, hout], hzero,
    ?_⟩
  rw [pushAgain, hcopy, ok_bind]
  dsimp only
  rw [if_pos ⟨hhandler.trans hout, hfull⟩]
  split
  · next heq => cases hsend.symm.trans heq
  · next heq => cases hsend.symm.trans heq
  · next ret rest' heq =>
    cases hsend.symm.trans heq
    have hlt : tc₂.txBytes < TCONN_BUF := by omega
    rw [hsent, ok_bind, hheld]
    simp only [hlt, and_true]
    rfl

/-- **A socket that takes everything**: the loop goes on until all bytes are sent. -/
theorem pushAgain_rooms (k : Nat) (h : tc.Inside) (hio : tc.ioError = none)
    (hout : tc.handlerOut = false) (hz : tc.txBytes = 0) (hlen : buf.length = 32768 * (k + 1))
    (copied : Int) :
    ∃ tc', pushAgain tc buf copied (List.replicate (k + 1) (.room 32768)) =
      .ok (tc', toInt (copied + buf.length), buf) ∧ tc'.ioError = none ∧ tc'.txHeld = [] := by
  induction k generalizing tc buf copied with
  | zero =>
    obtain ⟨tc', hin, hio', hout', hz', hrun⟩ :=
      pushAgain_room h hio hout hz (show 32768 ≤ buf.length by omega) copied []
    rw [if_neg (by rw [List.length_drop]; omega), List.take_of_length_le (by omega)] at hrun
    refine ⟨tc', ?_, hio', by unfold Tconn.txHeld; rw [hz']; rfl⟩
    rw [hlen]
    exact hrun
  | succ k ih =>
    obtain ⟨tc₁, hin, hio₁, hout₁, hz₁, hrun⟩ := pushAgain_room h hio hout hz
      (show 32768 ≤ buf.length by omega) copied (List.replicate (k + 1) (.room 32768))
    obtain ⟨tc', hrun', hio', hheld⟩ := ih hin hio₁ hout₁ hz₁
      (show (buf.drop 32768).length = 32768 * (k + 1) by rw [List.length_drop]; omega)
      (toInt (copied + 32768))
    rw [if_pos (by rw [List.length_drop]; omega), hrun', ok_bind] at hrun
    refine ⟨tc', ?_, hio', hheld⟩
    have hsum : copied + 32768 + ((buf.length - 32768 : Nat) : Int) = copied + buf.length := by
      omega
    rw [List.replicate_succ, hrun, toInt_toInt_add, List.take_append_drop, List.length_drop, hsum]
    rfl

/-- **`tconn_gtls_push_func`** accepts a first part of its bytes, at least one unless the buffer is
full. -/
theorem tconnGtlsPushFunc_spec (h : tc.Inside) (buf : Bytes) (answers : List SendAnswer) :
    ∃ tc' ret out, tconnGtlsPushFunc tc buf answers = .ok (tc', ret, out) ∧ OutStep tc tc' ∧
      (tc'.ioError = none → buf.length ≤ INT_MAX →
        (tc.txBytes ≠ TCONN_BUF → buf ≠ [] → 0 < ret) ∧
        Passes tc.txHeld out (buf.take ret.toNat) tc'.txHeld) := by
  unfold tconnGtlsPushFunc
  cases hio : tc.ioError with
  | some e =>
    exact ⟨_, _, _, rfl, ⟨⟨h.txBuf, h.txBytes, h.rxBuf, h.rxStart, h.rxEnd, h.idle⟩, rfl,
      fun hno => nomatch hno⟩, fun hno => nomatch hno⟩
  | none =>
    dsimp only
    by_cases hfull : tc.txBytes = TCONN_BUF
    · rw [if_pos hfull]
      exact ⟨_, _, _, rfl, ⟨⟨h.txBuf, h.txBytes, h.rxBuf, h.rxStart, h.rxEnd, h.idle⟩, rfl,
        fun _ => hio⟩, fun _ _ => ⟨fun hne => absurd hfull hne, Passes.refl _⟩⟩
    · rw [if_neg hfull]
      obtain ⟨tc', ret, out, hrun, hstep, hres⟩ := pushAgain_spec h hio buf 0 answers
      refine ⟨tc', ret, out, hrun, hstep, fun hno hlen => ?_⟩
      obtain ⟨n, hn, hret, hpos, hpass⟩ := hres hno
      have hnn : ret = n := by
        rw [hret, Int.zero_add, toInt_of_le (Int.natCast_nonneg n)
          (Int.ofNat_le.mpr (hn.trans hlen))]
      subst hnn
      have hlt := lt_of_le_of_ne h.txBytes.2 hfull
      exact ⟨fun _ hne => Int.natCast_pos.mpr (hpos hlt hne), hpass⟩

/-- **`tconn_tx_flush`** only sends. -/
theorem tconnTxFlush_spec (h : tc.Inside) (answers : List SendAnswer) :
    ∃ tc' ret out, tconnTxFlush tc answers = .ok (tc', ret, out) ∧ OutStep tc tc' ∧
      (tc'.ioError = none → Passes tc.txHeld out [] tc'.txHeld) := by
  unfold tconnTxFlush
  by_cases hio : tc.ioError.isSome = true
  · rw [if_pos hio]
    exact ⟨_, _, _, rfl, ⟨h, rfl, id⟩, fun _ => Passes.refl _⟩
  · rw [if_neg hio]
    by_cases hidle : tc.handlerOut = true ∨ tc.txBytes = 0
    · rw [if_pos hidle]
      exact ⟨_, _, _, rfl, ⟨h, rfl, id⟩, fun _ => Passes.refl _⟩
    · rw [if_neg hidle]
      split
      · exact ⟨_, _, _, rfl, ⟨⟨h.txBuf, h.txBytes, h.rxBuf, h.rxStart, h.rxEnd, h.idle⟩, rfl, id⟩,
          fun _ => Passes.refl _⟩
      · exact ⟨_, _, _, rfl, ⟨⟨h.txBuf, h.txBytes, h.rxBuf, h.rxStart, h.rxEnd, h.idle⟩, rfl,
          fun hno => nomatch hno⟩, fun hno => nomatch hno⟩
      · next ret hr =>
        obtain ⟨tc', hrun, hstep, -, -, -, hpass⟩ :=
          tc.sent_spec h (sendRetry_le (Prod.ext hr rfl)).1
        obtain ⟨harm, hheld, -, -⟩ := tc'.armed_spec hstep.inside
        rw [hrun, ok_bind]
        exact ⟨_, _, _, rfl, hstep.trans harm, fun _ => hheld ▸ hpass⟩

/-- **`tconn_fd_handler_out`** only sends. -/
theorem tconnFdHandlerOut_spec (h : tc.Inside) {out : Bytes}
    (hrun : tconnFdHandlerOut tc answers = .ok (tc', out)) :
    OutStep tc tc' ∧ (tc'.ioError = none → Passes tc.txHeld out [] tc'.txHeld) := by
  unfold tconnFdHandlerOut at hrun
  obtain ⟨-, -, hrun⟩ := bind_eq_ok.mp hrun
  dsimp only at hrun
  split at hrun
  · obtain ⟨-, -, hrun⟩ := bind_eq_ok.mp hrun
    cases hrun
    exact ⟨⟨h, rfl, id⟩, fun _ => Passes.refl _⟩
  · obtain ⟨-, -, hrun⟩ := bind_eq_ok.mp hrun
    cases hrun
    exact ⟨⟨⟨h.txBuf, h.txBytes, h.rxBuf, h.rxStart, h.rxEnd, fun hno => nomatch hno⟩, rfl,
      fun hno => nomatch hno⟩, fun hno => nomatch hno⟩
  · next ret hr =>
    obtain ⟨tc₁, hsent, hrun⟩ := bind_eq_ok.mp hrun
    obtain ⟨-, -, hrun⟩ := bind_eq_ok.mp hrun
    cases hrun
    have h' : Tconn.Inside { tc with
        txTask := tc.txTask || (tc.txBytes = TCONN_BUF ∧ tc.wantsTx) } :=
      ⟨h.txBuf, h.txBytes, h.rxBuf, h.rxStart, h.rxEnd, h.idle⟩
    obtain ⟨tc₂, hrun₂, hstep, -, -, -, hpass⟩ :=
      Tconn.sent_spec h' (sendRetry_le (Prod.ext hr rfl)).1
    cases hsent.symm.trans hrun₂
    have hin := hstep.inside
    split_ifs
    · exact ⟨⟨hin, hstep.rxHeld, hstep.ioError⟩, fun _ => hpass⟩
    · exact ⟨⟨⟨hin.txBuf, hin.txBytes, hin.rxBuf, hin.rxStart, hin.rxEnd, hin.idle⟩, hstep.rxHeld,
        hstep.ioError⟩, fun _ => hpass⟩

end Output

/-- A step of the input: the output side stays as it is, and an error is not forgotten. -/
structure InStep (tc tc' : Tconn) : Prop where
  inside : tc'.Inside
  txHeld : tc'.txHeld = tc.txHeld
  ioError : tc'.ioError = none → tc.ioError = none

section Input

open Fifo

variable {tc tc' : Tconn} {b : Bytes}

/-- **`tconn_gtls_pull_func`** takes from the front of the buffer. -/
theorem tconnGtlsPullFunc_spec (h : tc.Inside) (len : Nat) :
    ∃ tc' ret out, tconnGtlsPullFunc tc len = .ok (tc', ret, out) ∧ InStep tc tc' ∧
      Passes tc.rxHeld out [] tc'.rxHeld := by
  obtain ⟨hs0, hse⟩ := h.rxStart
  have he := h.rxEnd
  have hT : TCONN_BUF = 32768 := rfl
  unfold tconnGtlsPullFunc
  cases hio : tc.ioError with
  | some e =>
    exact ⟨_, _, _, rfl, ⟨⟨h.txBuf, h.txBytes, h.rxBuf, h.rxStart, h.rxEnd, h.idle⟩, rfl,
      fun hno => nomatch hno⟩, Passes.refl _⟩
  | none =>
    dsimp only
    by_cases hdata : tc.rxStart ≠ tc.rxEnd
    · rw [if_pos hdata]
      obtain ⟨n, hn, hle⟩ : ∃ n : Nat, (if tc.rxEnd - tc.rxStart > len then (len : Int)
          else tc.rxEnd - tc.rxStart) = n ∧ tc.rxStart + n ≤ tc.rxEnd := by
        split_ifs
        · exact ⟨len, rfl, by omega⟩
        · exact ⟨(tc.rxEnd - tc.rxStart).toNat, by omega, by omega⟩
      have hheld : tc.rxHeld = (tc.rxBuf.drop tc.rxStart.toNat).take
          (tc.rxEnd.toNat - tc.rxStart.toNat) := List.drop_take
      have htake : (tc.rxBuf.drop tc.rxStart.toNat).take n = tc.rxHeld.take n := by
        rw [hheld, List.take_take, Nat.min_eq_left (by omega)]
      have hdrop : (tc.rxBuf.take tc.rxEnd.toNat).drop (tc.rxStart + n).toNat =
          tc.rxHeld.drop n := by
        unfold Tconn.rxHeld
        rw [List.drop_drop]
        congr 1
        omega
      have hstart : 0 ≤ tc.rxStart + n ∧ tc.rxStart + n ≤ tc.rxEnd := ⟨by omega, hle⟩
      rw [hn, Int.toNat_natCast, htake]
      refine ⟨_, _, _, rfl, ?_⟩
      split_ifs with hempty
      · refine ⟨⟨⟨h.txBuf, h.txBytes, h.rxBuf, hstart, h.rxEnd, fun _ => hempty⟩, rfl,
          fun _ => hio⟩, ?_⟩
        have hpop := Passes.pop tc.rxHeld n
        rwa [← hdrop] at hpop
      · have hidle : tc.handlerIn = true → tc.rxStart + n = tc.rxEnd := fun hh =>
          absurd (h.idle hh) hdata
        refine ⟨⟨⟨h.txBuf, h.txBytes, h.rxBuf, hstart, h.rxEnd, hidle⟩, rfl, fun _ => hio⟩, ?_⟩
        have hpop := Passes.pop tc.rxHeld n
        rwa [← hdrop] at hpop
    · rw [if_neg hdata]
      split_ifs
      · exact ⟨_, _, _, rfl, ⟨h, rfl, fun _ => hio⟩, Passes.refl _⟩
      · exact ⟨_, _, _, rfl, ⟨⟨h.txBuf, h.txBytes, h.rxBuf, h.rxStart, h.rxEnd, h.idle⟩, rfl,
          fun _ => hio⟩, Passes.refl _⟩

theorem recvRetry_length {len : Nat} {answers : List RecvAnswer}
    (h : recvRetry len answers = .ok b) : b.length ≤ len := by
  fun_induction recvRetry len answers with
  | case1 => cases h
  | case2 answers ih => exact ih h
  | case3 => cases h
  | case4 => 
    cases h
    exact List.length_take_le _ _

/-- **`tconn_fd_handler_in`** fills the buffer that it finds empty. -/
theorem tconnFdHandlerIn_spec (h : tc.Inside) (hhandler : tc.handlerIn = true)
    {answers : List RecvAnswer} (hrun : tconnFdHandlerIn tc answers = .ok (tc', b)) :
    InStep tc tc' ∧ Passes tc.rxHeld [] b tc'.rxHeld := by
  have hT : TCONN_BUF = 32768 := rfl
  have hempty := h.idle hhandler
  have hnone : tc.rxHeld = [] := by
    unfold Tconn.rxHeld
    rw [hempty]
    exact List.drop_eq_nil_of_le (List.length_take_le _ _)
  have hin : ∀ (handler eof rxTask txTask : Bool) (error : Option Errno) (handlerOut : Bool),
      Tconn.Inside { tc with
        rxStart := 0
        rxEnd := 0
        handlerIn := handler
        handlerOut := handlerOut
        rxEof := eof
        ioError := error
        rxTask := rxTask
        txTask := txTask } := fun _ _ _ _ _ _ =>
    ⟨h.txBuf, h.txBytes, h.rxBuf, ⟨le_refl 0, le_refl 0⟩, by dsimp only; omega, fun _ => rfl⟩
  rw [hnone]
  unfold tconnFdHandlerIn at hrun
  obtain ⟨-, -, hrun⟩ := bind_eq_ok.mp hrun
  rw [if_neg (not_not.mpr hempty)] at hrun
  dsimp only at hrun
  split at hrun
  · obtain ⟨-, -, hrun⟩ := bind_eq_ok.mp hrun
    cases hrun
    exact ⟨⟨hin .., rfl, id⟩, Passes.refl _⟩
  · obtain ⟨-, -, hrun⟩ := bind_eq_ok.mp hrun
    cases hrun
    exact ⟨⟨hin .., rfl, fun hno => nomatch hno⟩, Passes.refl _⟩
  · obtain ⟨-, -, hrun⟩ := bind_eq_ok.mp hrun
    cases hrun
    exact ⟨⟨hin .., rfl, id⟩, Passes.refl _⟩
  · next d hne hd =>
    have hlen := recvRetry_length hd
    have hroom : 0 + d.length ≤ tc.rxBuf.length := by rw [h.rxBuf]; omega
    unfold memcpy at hrun
    rw [if_pos hroom, ok_bind] at hrun
    obtain ⟨-, -, hrun⟩ := bind_eq_ok.mp hrun
    cases hrun
    refine ⟨⟨⟨h.txBuf, h.txBytes, ?_, ⟨le_refl 0, Int.natCast_nonneg _⟩, ?_,
      fun hno => nomatch hno⟩, rfl, id⟩, ?_⟩
    · have hbuf := h.rxBuf
      simp only [List.length_append, List.length_take, List.length_drop]
      omega
    · dsimp only
      omega
    · have hheld : (tc.rxBuf.take 0 ++ b ++ tc.rxBuf.drop (0 + b.length)).take b.length = b :=
        List.take_left' rfl
      exact congrArg (List.drop 0) hheld

/-- **The `abort()` of `tconn_fd_handler_in`** is not reached. -/
theorem tconnFdHandlerIn_no_abort (h : tc.Inside) (hhandler : tc.handlerIn = true)
    (answers : List RecvAnswer) :
    tconnFdHandlerIn tc answers ≠ .error .tconnFdHandlerIn := by
  have hverify : ∀ (t : Tconn) (r : Bytes), (t.verifyState >>= fun _ => pure (t, r)) ≠
      Except.error Crash.tconnFdHandlerIn := by
    intro t r
    unfold Tconn.verifyState
    split_ifs <;> simp
  unfold tconnFdHandlerIn
  cases hv : tc.verifyState with
  | error e =>
    have hfirst := hverify tc []
    rw [hv] at hfirst
    exact hfirst
  | ok u =>
    rw [ok_bind, if_neg (not_not.mpr (h.idle hhandler))]
    dsimp only
    split
    · exact hverify _ _
    · exact hverify _ _
    · exact hverify _ _
    · unfold memcpy
      split_ifs
      · exact hverify _ _
      · simp

end Input

end Dvpn
