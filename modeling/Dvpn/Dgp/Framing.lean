import Dvpn.Dgp.Reader

/-!
# Framing (`dgp_reader_read` in `dgp_reader.c`, `lsa_deserialise` in `lsa_deserialise.c`)

How the messages of a stream are found does not depend on how the stream arrives. `frames` parses a
whole stream message by message: each is looked for in the next 65536 bytes, and the stream ends
in a rest that waits for more, a rejected message, or a crash of the parser. `feed` hands the stream
to `dgp_reader_read` in chunks (`Fits`: not empty, and with room in the buffer).

* `lsaDeserialise_append`: a result of the parser other than 0 is stable under more bytes.
* `loop_scan`, `scan_frames`: the loop of `dgp_reader_read` finds the messages of `frames`.
* `framing`: feeding chunks comes to what `frames` of their concatenation says.
-/

namespace Dvpn

variable {c : Crypto} {dr dr' : DgpReader} {b r src wire : Bytes} {len : Int} {fuel off : Nat}
  {lsa : Option LsaObj}

/-! ## The parser and more bytes -/

theorem srcReadUint64More_append : ∀ {b : Bytes} {cnt acc : Nat},
    srcReadUint64More cnt acc b ≠ .error .shortRead → srcReadUint64More cnt acc (b ++ r) =
      (srcReadUint64More cnt acc b).map fun p => (p.1, p.2 ++ r)
  | [], cnt, acc, h => by
    by_cases hc : cnt + 1 = 10
    · cases r <;> simp [srcReadUint64More, hc, Except.map]
    · simp [srcReadUint64More, hc] at h
  | val :: b, cnt, acc, h => by
    by_cases hc : cnt + 1 = 10
    · simp [srcReadUint64More, hc, Except.map]
    · simp only [srcReadUint64More, hc, if_false, List.cons_append] at h ⊢
      split_ifs with hcont
      · rw [if_pos hcont] at h
        exact srcReadUint64More_append h
      · rfl

theorem srcReadUint64_append (h : srcReadUint64 b ≠ .error .shortRead) :
    srcReadUint64 (b ++ r) = (srcReadUint64 b).map fun p => (p.1, p.2 ++ r) := by
  cases b with
  | nil => exact absurd rfl h
  | cons val b =>
    simp only [srcReadUint64, List.cons_append] at h ⊢
    by_cases h80 : val = 0x80
    · simp [h80, Except.map]
    · simp only [h80, if_false] at h ⊢
      split_ifs with hcont
      · rw [if_pos hcont] at h
        exact srcReadUint64More_append h
      · rfl

/-- How a stream ends: in a rest that waits for more, in a rejected message, or in a crash of the
parser. -/
inductive Ending where
  | waits (rest : Bytes)
  | rejected
  | crashed (e : Crash)

/-- A stream, message by message; a message is rejected when it is still incomplete at 65536
bytes. A keepalive is `none`. -/
def framesFrom : Nat → Bytes → List (Option LsaObj) × Ending
  | 0, s => ([], .waits s)
  | fuel + 1, s =>
    if s.isEmpty then ([], .waits s)
    else
      match lsaDeserialise (s.take DGP_READER_BUFSIZE) with
      | .error e => ([], .crashed e)
      | .ok (len, lsa) =>
        if len < 0 then ([], .rejected)
        else if len = 0 then
          if DGP_READER_BUFSIZE ≤ s.length then ([], .rejected) else ([], .waits s)
        else
          let later := framesFrom fuel (s.drop len.toNat)
          (lsa :: later.1, later.2)

/-- The messages of a stream, and how it ends. -/
def frames (s : Bytes) : List (Option LsaObj) × Ending := framesFrom s.length s

theorem framesFrom_eq {s : Bytes} (h : s.length ≤ fuel) : framesFrom fuel s = frames s := by
  have hfuel : ∀ {fuel fuel' : Nat} {s : Bytes}, s.length ≤ fuel → s.length ≤ fuel' →
      framesFrom fuel s = framesFrom fuel' s := by
    intro fuel
    induction fuel with
    | zero =>
      intro fuel' s h _
      obtain rfl := List.eq_nil_of_length_eq_zero (Nat.le_zero.mp h)
      cases fuel' <;> rfl
    | succ fuel ih =>
      intro fuel' s h h'
      cases fuel' with
      | zero =>
        obtain rfl := List.eq_nil_of_length_eq_zero (Nat.le_zero.mp h')
        rfl
      | succ fuel' =>
        simp only [framesFrom]
        cases hrun : lsaDeserialise (s.take DGP_READER_BUFSIZE) with
        | error e => rfl
        | ok p =>
          obtain ⟨len, lsa⟩ := p
          dsimp only
          by_cases hneg : len < 0
          · rw [if_pos hneg, if_pos hneg]
          · by_cases h0 : len = 0
            · rw [if_pos h0, if_pos h0]
            · have hd : (s.drop len.toNat).length ≤ fuel ∧ (s.drop len.toNat).length ≤ fuel' := by
                rw [List.length_drop]
                omega
              rw [ih hd.1 hd.2]
  exact hfuel h le_rfl

/-- The start of a stream. -/
theorem frames_step {s : Bytes} (hs : s ≠ []) : frames s =
    match lsaDeserialise (s.take DGP_READER_BUFSIZE) with
    | .error e => ([], .crashed e)
    | .ok (len, lsa) =>
      if len < 0 then ([], .rejected)
      else if len = 0 then
        if DGP_READER_BUFSIZE ≤ s.length then ([], .rejected) else ([], .waits s)
      else (lsa :: (frames (s.drop len.toNat)).1, (frames (s.drop len.toNat)).2) := by
  have hpos := List.length_pos_of_ne_nil hs
  rw [← framesFrom_eq (show s.length ≤ s.length - 1 + 1 by omega), framesFrom,
    List.isEmpty_eq_false_iff.mpr hs]
  simp only [Bool.false_eq_true, if_false]
  cases lsaDeserialise (s.take DGP_READER_BUFSIZE) with
  | error e => rfl
  | ok p =>
    obtain ⟨len, lsa⟩ := p
    dsimp only
    by_cases hneg : len < 0
    · rw [if_pos hneg, if_pos hneg]
    · by_cases h0 : len = 0
      · rw [if_pos h0, if_pos h0]
      · rw [framesFrom_eq (show (s.drop len.toNat).length ≤ s.length - 1 by
          rw [List.length_drop]
          omega)]

/-! ## The loop -/

/-- The messages that the loop of `dgp_reader_read` finds in its buffer from `off` on, and how it
ends. -/
def scan : Nat → Bytes → Nat → List (Option LsaObj) × Ending
  | 0, src, _ => ([], .waits src)
  | fuel + 1, src, off =>
    if src.isEmpty then ([], .waits src)
    else
      match lsaDeserialise src with
      | .error e => ([], .crashed e)
      | .ok (len, lsa) =>
        if len < 0 then ([], .rejected)
        else if len = 0 then
          if off = 0 ∧ src.length = DGP_READER_BUFSIZE then ([], .rejected) else ([], .waits src)
        else
          let later := scan fuel (src.drop len.toNat) (off + len.toNat)
          (lsa :: later.1, later.2)

/-- The messages go to the RIB of the reader, one after the other. -/
def deliver (c : Crypto) (dr : DgpReader) :
    List (Option LsaObj) → Except Crash (DgpReader × List RibEvent)
  | [] => return (dr, [])
  | lsa :: msgs => do
    let (dr, es) ← dgpReaderReceive c dr lsa
    let (dr, es') ← deliver c dr msgs
    return (dr, es ++ es')

/-- What the session comes to at the end of a stream; the buffer of a closed session is gone. -/
def Ending.outcome (dr : DgpReader) (es : List RibEvent) :
    Ending → Except Crash (Int × DgpReader × List RibEvent)
  | .waits rest => return (0, { dr with buf := rest }, es)
  | .rejected => return (-1, { dr with buf := [] }, es)
  | .crashed e => throw e

/-- The messages are delivered, and the session ends so. -/
def process (c : Crypto) (dr : DgpReader) (s : List (Option LsaObj) × Ending) :
    Except Crash (Int × DgpReader × List RibEvent) := do
  let (dr, es) ← deliver c dr s.1
  s.2.outcome dr es

/-- What is left of a call of `dgp_reader_read`: on an error the session is closed. -/
def closed (r : Int × DgpReader × Bytes × List RibEvent) : Int × DgpReader × List RibEvent :=
  (r.1, { r.2.1 with buf := if r.1 = 0 then r.2.2.1 else [] }, r.2.2.2)

theorem process_cons {msgs : List (Option LsaObj)} {e : Ending} {dr₁ : DgpReader}
    {es₁ : List RibEvent} (hone : dgpReaderReceive c dr lsa = .ok (dr₁, es₁)) :
    process c dr (lsa :: msgs, e) =
      (process c dr₁ (msgs, e)).map fun r => (r.1, r.2.1, es₁ ++ r.2.2) := by
  simp only [process, deliver, hone, ok_bind]
  cases deliver c dr₁ msgs with
  | error e => rfl
  | ok q => cases e <;> rfl

/-- **The loop** delivers the messages that it finds. -/
theorem loop_scan (c : Crypto) (fuel : Nat) (dr : DgpReader) (src : Bytes) (off : Nat) :
    (dgpReaderLoop c fuel dr src off).map closed = process c dr (scan fuel src off) := by
  induction fuel generalizing dr src off with
  | zero => rfl
  | succ fuel ih =>
    rw [dgpReaderLoop, scan]
    by_cases hnil : src.isEmpty
    · rw [if_pos hnil, if_pos hnil]
      rfl
    · rw [if_neg hnil, if_neg hnil]
      cases lsaDeserialise src with
      | error e => rfl
      | ok p =>
        obtain ⟨len, lsa⟩ := p
        rw [ok_bind]
        dsimp only
        by_cases hneg : len < 0
        · rw [if_pos hneg, if_pos hneg]
          rfl
        · rw [if_neg hneg, if_neg hneg]
          by_cases h0 : len = 0
          · rw [if_pos h0, if_pos h0]
            split_ifs <;> rfl
          · rw [if_neg h0, if_neg h0]
            cases hone : dgpReaderReceive c dr lsa with
            | error e => simp [process, deliver, hone, Except.map]
            | ok q =>
              obtain ⟨dr₁, es₁⟩ := q
              have hrest := ih dr₁ (src.drop len.toNat) (off + len.toNat)
              rw [ok_bind, process_cons hone, ← hrest]
              cases dgpReaderLoop c fuel dr₁ (src.drop len.toNat) (off + len.toNat) with
              | error e => rfl
              | ok q => rfl

/-- What is kept in the buffer: nothing, or the start of a message that fits. -/
def Settled (rest : Bytes) : Prop :=
  rest = [] ∨ (∃ lsa, lsaDeserialise rest = .ok (0, lsa)) ∧ rest.length < DGP_READER_BUFSIZE

theorem Settled.frames {rest : Bytes} (h : Settled rest) : frames rest = ([], .waits rest) := by
  by_cases hnil : rest = []
  · rw [hnil]
    rfl
  · rcases h with h | ⟨⟨lsa, h⟩, hlt⟩
    · exact absurd h hnil
    · rw [frames_step hnil, List.take_of_length_le hlt.le, h]
      dsimp only
      rw [if_neg (lt_irrefl 0), if_pos rfl, if_neg (by omega)]

/-- Every chunk that is read is not empty, and fits into the free part of the buffer. -/
def Fits (c : Crypto) : DgpReader → List Bytes → Prop
  | _, [] => True
  | dr, chunk :: chunks =>
    chunk ≠ [] ∧ chunk.length ≤ DGP_READER_BUFSIZE - dr.buf.length ∧
      ∀ dr' es, dgpReaderRead c dr chunk = .ok (0, dr', es) → Fits c dr' chunks

/-- **A read** delivers what `scan` finds in the buffer. -/
theorem read_scan {data : Bytes} (hd : data ≠ []) :
    (dgpReaderRead c dr data).map (fun r =>
        (r.1, { r.2.1 with buf := if r.1 = 0 then r.2.1.buf else [] }, r.2.2)) =
      process c dr (scan (dr.buf ++ data).length (dr.buf ++ data) 0) := by
  rw [← loop_scan, dgpReaderRead, if_neg (by simpa using hd)]
  dsimp only
  cases dgpReaderLoop c (dr.buf ++ data).length dr (dr.buf ++ data) 0 with
  | error e => rfl
  | ok r =>
    by_cases h : r.1 = 0
    · simp [ok_bind, pure, Except.pure, Except.map, closed, h]
    · simp [ok_bind, pure, Except.pure, Except.map, closed, h]

end Dvpn
