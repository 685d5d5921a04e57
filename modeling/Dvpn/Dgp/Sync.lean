import Dvpn.Dgp.Reader
import Dvpn.Dgp.Writer

/-!
# Two neighbours (`dgp_writer.c`, `dgp_reader.c`)

A node with a local RIB and a `dgp_writer`, the stream to its neighbour, and the `dgp_reader` there.
`syncStep` interleaves what happens to the local RIB, the registration of the writer, keepalives,
and reads of any number of the bytes in flight. `SyncContract` is that of the local RIB, with LSAs
that the writer has room for, and a read of at least one byte.

`InFlight` is the invariant: the bytes in the reader's buffer and on the way are a row of messages,
which will take the table that the neighbour has to what is advertised.

* `sync_isOk`: neither the writer nor the reader aborts.
* `sync_read`: what is in flight can be read.
* `neighbours_sync`: when everything has been read, the neighbour has what is advertised.
-/

namespace Dvpn

open ChangeLog

/-! ## The machine -/

/-- The two nodes, with the bytes in flight. -/
structure Sync where
  rib : LocRib
  registered : Bool
  wire : Bytes
  reader : DgpReader

/-- The start: an empty local RIB, and no writer yet. -/
def syncInit (ribid : Option NodeId) (myid remoteid : NodeId) : Sync where
  rib := locRibInit ribid
  registered := false
  wire := []
  reader := dgpReaderRegister (some remoteid) (some myid)

inductive SyncOp where
  | loc (op : LocOp)
  | register
  | keepalive
  | read (n : Nat)

/-- What is written when the local RIB tells its listeners. -/
def Sync.output (dw : DgpWriter) (s : Sync) (es : List RibEvent) : Except Crash Bytes :=
  if s.registered then dgpWriterEvents dw es else return []

/-- One operation, and what `dgp_reader_read` returned. -/
def syncStep (c : Crypto) (dw : DgpWriter) (s : Sync) : SyncOp → Except Crash (Sync × List Int)
  | .loc op => do
    let (rib, es) ← locStep s.rib op
    let bytes ← s.output dw es
    return ({ s with rib := rib, wire := s.wire ++ bytes }, [])
  | .register => do
    let bytes ← dgpWriterRibDump dw s.rib
    return ({ s with registered := true, wire := s.wire ++ bytes }, [])
  | .keepalive => return ({ s with wire := s.wire ++ dgpWriterSendKeepalive }, [])
  | .read n => do
    let (ret, dr, _) ← dgpReaderRead c s.reader (s.wire.take n)
    return ({ s with wire := s.wire.drop n, reader := dr }, [ret])

/-- What is done to the two nodes. -/
def SyncContract (myid : NodeId) (s : Sync) : SyncOp → Prop
  | .loc op => LocContract s.rib op ∧ ∀ p, op.put = some p → Sendable myid p.lsa
  | .register => s.registered = false
  | .keepalive => s.registered = true
  | .read n => 0 < n ∧ n ≤ s.wire.length ∧ n ≤ DGP_READER_BUFSIZE - s.reader.buf.length

variable {c : Crypto} {s s' : Sync} {op : SyncOp} {ops : List SyncOp} {rets rets' : List Int}
  {ribid : Option NodeId} {myid remoteid : NodeId} {wire bytes : Bytes} {dr dr' : DgpReader}
  {t goal goal' : NodeId → Option AttrSet} {pending msgs : List DgpMsg}

/-! ## The invariant -/

/-- The messages that are pending take the table that the neighbour has to the goal. -/
structure InFlight (wire : Bytes) (dr : DgpReader) (goal t : NodeId → Option AttrSet)
    (pending : List DgpMsg) : Prop where
  bytes : dr.buf ++ wire = encodeAll pending
  waiting : Waiting dr.buf pending
  valid : ∀ msg ∈ pending, msg.Valid
  table : applyAll t pending = goal
  agrees : dr.overflowed = false → AgreesWith dr.adjRibIn t

theorem InFlight.send (h : InFlight wire dr goal t pending)
    (hs : Sent (.ok bytes) goal goal' msgs) :
    InFlight (wire ++ bytes) dr goal' t (pending ++ msgs) := by
  have hb : bytes = encodeAll msgs := Except.ok.inj hs.bytes
  refine ⟨by rw [← List.append_assoc, h.bytes, encodeAll_append, hb], ?_, fun msg hm => ?_, ?_,
    h.agrees⟩
  · intro msg rest he
    cases pending with
    | nil =>
      have hnil : dr.buf = [] := (List.append_eq_nil_iff.mp h.bytes).1
      have hlen := (length_encode (hs.valid msg (by rw [List.nil_append] at he; simp [he]))).1
      rw [hnil]
      exact hlen
    | cons first pending =>
      obtain ⟨rfl, _⟩ := List.cons.inj he
      exact h.waiting _ _ rfl
  · exact (List.mem_append.mp hm).elim (h.valid msg) (hs.valid msg)
  · rw [applyAll_append, h.table, hs.table]

theorem InFlight.read {wire' data : Bytes} (h : InFlight wire dr goal t pending)
    (hw : wire = data ++ wire') (hd : data ≠ []) (hr : dr.remoteid.isSome)
    (hi : dr.adjRibIn.Inv c) :
    ∃ dr' es t' pending', dgpReaderRead c dr data = .ok (0, dr', es) ∧
      dr'.remoteid = dr.remoteid ∧ dr'.adjRibIn.Inv c ∧ InFlight wire' dr' goal t' pending' := by
  subst hw
  obtain ⟨dr', es, done, pending', hrun, hspec⟩ := read_spec hd h.bytes h.valid hr hi
  obtain rfl := hspec.split
  refine ⟨dr', es, applyAll t done, pending', hrun, hspec.follows.remoteid, hspec.follows.inv,
    hspec.bytes, hspec.waiting, fun msg hm => h.valid msg (List.mem_append_right _ hm), ?_,
    fun hq => hspec.follows.agrees hq _ (h.agrees (hspec.follows.quiet hq))⟩
  rw [← applyAll_append, h.table]

/-- What the neighbour should have in the end. -/
def Sync.due (myid remoteid : NodeId) (s : Sync) : NodeId → Option AttrSet :=
  if s.registered then target myid remoteid s.rib.view else fun _ => none

/-- What holds of the two nodes. -/
structure SyncInv (c : Crypto) (myid remoteid : NodeId) (s : Sync) (rets : List Int) : Prop where
  rib : s.rib.Inv
  held : ∀ id, ∀ p ∈ (s.rib.entry id).held, Sendable myid p.lsa
  reader : s.reader.remoteid.isSome
  adj : s.reader.adjRibIn.Inv c
  rets : ∀ ret ∈ rets, ret = 0
  flight : ∃ t pending, InFlight s.wire s.reader (s.due myid remoteid) t pending

theorem syncInit_inv (c : Crypto) (ribid : Option NodeId) (myid remoteid : NodeId) :
    SyncInv c myid remoteid (syncInit ribid myid remoteid) [] where
  rib := locRibInit_inv ribid
  held := fun _ p hp => absurd hp List.not_mem_nil
  reader := rfl
  adj := adjRibInInit_inv c _ _
  rets := fun _ h => absurd h List.not_mem_nil
  flight := ⟨fun _ => none, [], rfl, fun _ _ h => absurd h (by simp),
    fun _ h => absurd h List.not_mem_nil, rfl, fun _ => agreesWith_init _ _⟩

/-! ## One step -/

/-- What the writer sends after a step of the local RIB. -/
theorem loc_sent {lop : LocOp} {rib' : LocRib} {es : List RibEvent}
    (hi : SyncInv c myid remoteid s rets) (hc : LocContract s.rib lop)
    (h : locStep s.rib lop = .ok (rib', es)) :
    ∃ msgs, Sent (dgpWriterEvents ⟨some myid, some remoteid⟩ es)
      (target myid remoteid s.rib.view) (target myid remoteid rib'.view) msgs := by
  have hquiet : rib'.view = s.rib.view → es = [] → ∃ msgs,
      Sent (dgpWriterEvents ⟨some myid, some remoteid⟩ es)
        (target myid remoteid s.rib.view) (target myid remoteid rib'.view) msgs := by
    rintro hv rfl
    exact ⟨[], rfl, fun _ hm => absurd hm List.not_mem_nil, by rw [hv]; rfl⟩
  have hid : ∀ id, (s.rib.entry id).id = id := fun id => (hi.rib.entry id).2
  rcases (locStep_inv hi.rib hc h).2 with ⟨lsa, _, rfl, he, hup, _⟩ |
    ⟨old, _, _, _, rfl, he, hup, _⟩ | ⟨lsa, _, rfl, he, hup, _⟩ | ⟨rfl, hspec⟩
  · exact hquiet (hup.view (by rw [show LocRibId.id _ = lsa.lsa.id from hid _]; rfl)) he
  · exact hquiet (hup.view (by rw [show LocRibId.id _ = old.lsa.id from hid _]; rfl)) he
  · exact hquiet (hup.view (by rw [show LocRibId.id _ = lsa.lsa.id from hid _]; rfl)) he
  · refine events_spec hspec.replays fun e hm p hp => ?_
    have hheld : p ∈ (s.rib.entry e.id).held := List.mem_append_left _ (hspec.news e hm p hp)
    exact ⟨((hi.rib.entry e.id).1.ids p hheld).trans (hid e.id), hi.held e.id p hheld⟩

/-- **One step** within the contract, when the local RIB makes it: it does not abort, and keeps
the invariant. -/
theorem syncStep_spec (hi : SyncInv c myid remoteid s rets) (hc : SyncContract myid s op)
    (hl : ∀ lop, op = .loc lop → ∃ r, locStep s.rib lop = .ok r) :
    ∃ s' rets', syncStep c ⟨some myid, some remoteid⟩ s op = .ok (s', rets') ∧
      SyncInv c myid remoteid s' (rets ++ rets') := by
  obtain ⟨t, pending, hf⟩ := hi.flight
  cases op with
  | loc lop =>
    obtain ⟨⟨rib', es⟩, hloc⟩ := hl lop rfl
    obtain ⟨hc, hput⟩ := hc
    obtain ⟨msgs, hsent⟩ := loc_sent hi hc hloc
    have hinv := (locStep_inv hi.rib hc hloc).1
    have hheld : ∀ id, ∀ p ∈ (rib'.entry id).held, Sendable myid p.lsa := fun id p hp =>
      (locStep_held hi.rib hc hloc id p hp).elim (hi.held id p) (hput p)
    -- only a registered writer is told
    have hout : ∃ bytes msgs, s.output ⟨some myid, some remoteid⟩ es = .ok bytes ∧
        Sent (.ok bytes) (s.due myid remoteid)
          (Sync.due myid remoteid { s with rib := rib', wire := s.wire ++ bytes }) msgs := by
      unfold Sync.output Sync.due
      cases s.registered with
      | true => exact ⟨_, msgs, hsent.bytes, hsent.bytes ▸ hsent⟩
      | false => exact ⟨[], [], rfl, rfl, fun _ hm => absurd hm List.not_mem_nil, rfl⟩
    obtain ⟨bytes, msgs, hbytes, hsent⟩ := hout
    refine ⟨{ s with rib := rib', wire := s.wire ++ bytes }, [], ?_,
      hinv, hheld, hi.reader, hi.adj, by rw [List.append_nil]; exact hi.rets, t, _, hf.send hsent⟩
    rw [syncStep, hloc, ok_bind]
    dsimp only
    rw [hbytes]
    rfl
  | register =>
    obtain ⟨msgs, hsent⟩ := @dump_spec myid remoteid s.rib hi.rib fun id p hp =>
      hi.held id p (List.mem_append_right _ (by simp [hp]))
    have hgoal : s.due myid remoteid = fun _ => none := by
      rw [Sync.due, show s.registered = false from hc]
      rfl
    rw [hgoal] at hf
    have hsent' := hsent
    rw [hsent.bytes] at hsent'
    refine ⟨{ s with registered := true, wire := s.wire ++ encodeAll msgs }, [], ?_,
      hi.rib, hi.held, hi.reader, hi.adj, by rw [List.append_nil]; exact hi.rets, t, _,
      hf.send hsent'⟩
    rw [syncStep, hsent.bytes]
    rfl
  | keepalive =>
    have hsent : Sent (.ok dgpWriterSendKeepalive) (s.due myid remoteid) (s.due myid remoteid)
        [.keepalive] := ⟨rfl, fun msg hm => List.mem_singleton.mp hm ▸ trivial, rfl⟩
    exact ⟨{ s with wire := s.wire ++ dgpWriterSendKeepalive }, [], rfl, hi.rib, hi.held, hi.reader,
      hi.adj, by rw [List.append_nil]; exact hi.rets, t, _, hf.send hsent⟩
  | read n =>
    obtain ⟨hpos, hlen, _⟩ := hc
    have hd : s.wire.take n ≠ [] := List.ne_nil_of_length_pos (by rw [List.length_take]; omega)
    obtain ⟨dr', es, t', pending', hrun, hid, hadj, hf'⟩ :=
      hf.read (List.take_append_drop n s.wire).symm hd hi.reader hi.adj
    refine ⟨{ s with wire := s.wire.drop n, reader := dr' }, [0], ?_,
      hi.rib, hi.held, hid ▸ hi.reader, hadj, fun ret hm => ?_, t', pending', hf'⟩
    · rw [syncStep, hrun]
      rfl
    · exact (List.mem_append.mp hm).elim (hi.rets ret) List.mem_singleton.mp

/-! ## Runs -/

/-- The runs of the two nodes from the start. -/
abbrev SyncRun (c : Crypto) (ribid : Option NodeId) (myid remoteid : NodeId) :
    List SyncOp → Sync → List Int → Prop :=
  Run (syncStep c ⟨some myid, some remoteid⟩) (SyncContract myid) (syncInit ribid myid remoteid)

theorem SyncRun.inv (h : SyncRun c ribid myid remoteid ops s rets) :
    SyncInv c myid remoteid s rets := by
  refine h.invariant (fun _ s rets => SyncInv c myid remoteid s rets)
    (syncInit_inv c ribid myid remoteid) fun {_ s rets op s' rets'} hi hc hs => ?_
  have hl : ∀ lop, op = .loc lop → ∃ r, locStep s.rib lop = .ok r := by
    rintro lop rfl
    obtain ⟨r, hr, _⟩ := bind_eq_ok.mp hs
    exact ⟨r, hr⟩
  obtain ⟨s₁, rets₁, hrun, hinv⟩ := syncStep_spec hi hc hl
  obtain ⟨rfl, rfl⟩ := Prod.mk.inj (Except.ok.inj (hs.symm.trans hrun))
  exact hinv

/-- **Neither the writer nor the reader aborts.** -/
theorem sync_isOk (h : SyncRun c ribid myid remoteid ops s rets) (hc : SyncContract myid s op)
    (hl : ∀ lop, op = .loc lop → ∃ r, locStep s.rib lop = .ok r) :
    ∃ r, syncStep c ⟨some myid, some remoteid⟩ s op = .ok r := by
  obtain ⟨s', rets', hrun, _⟩ := syncStep_spec h.inv hc hl
  exact ⟨_, hrun⟩

/-- **What is in flight can be read**, a byte at a time. -/
theorem sync_read (h : SyncRun c ribid myid remoteid ops s rets) :
    ∃ ops' s' rets', SyncRun c ribid myid remoteid (ops ++ ops') s' rets' ∧ s'.wire = [] ∧
      s'.rib = s.rib ∧ s'.registered = s.registered := by
  induction hn : s.wire.length generalizing s ops rets with
  | zero => exact ⟨[], s, rets, by rwa [List.append_nil], List.length_eq_zero_iff.mp hn, rfl, rfl⟩
  | succ n ih =>
    have hi := h.inv
    obtain ⟨t, pending, hf⟩ := hi.flight
    have hroom := hf.waiting.room hf.bytes hf.valid
    have hc : SyncContract myid s (.read 1) := ⟨Nat.one_pos, by omega, by omega⟩
    obtain ⟨s₁, rets₁, hrun, _⟩ := syncStep_spec hi hc (by simp)
    obtain ⟨⟨ret, dr, es⟩, _, hrest⟩ := bind_eq_ok.mp hrun
    obtain ⟨rfl, rfl⟩ := Prod.mk.inj (Except.ok.inj hrest)
    obtain ⟨ops', s', rets', hr, hnil, hrib, hreg⟩ := ih (.snoc h hc hrun)
      (by rw [List.length_drop]; omega)
    exact ⟨_, s', rets', by rwa [List.append_assoc] at hr, hnil, hrib, hreg⟩

/-- The best LSA of an id is one that the writer passes on to the neighbour. -/
def Passed (rib : LocRib) (remoteid : NodeId) (id : NodeId) (best : LsaPtr) : Prop :=
  (rib.entry id).best = some best ∧ ∃ attr, best.lsa.advPath = some attr ∧
    lsaPathContains attr remoteid = .ok false

theorem passed_iff {rib : LocRib} {id : NodeId} {best : LsaPtr} :
    Passed rib remoteid id best ↔
      (rib.entry id).best = some best ∧ passes remoteid best.lsa = true := by
  refine and_congr_right fun _ => ?_
  unfold passes
  cases ha : best.lsa.advPath with
  | none => simp
  | some attr => simp [lsaPathContains_eq (advPath_type ha)]

/-- What is advertised of an id. -/
theorem target_eq_some {rib : LocRib} {id : NodeId} {root : AttrSet} :
    target myid remoteid rib.view id = some root ↔
      ∃ best, Passed rib remoteid id best ∧ (best.lsa.prepended myid).root = root := by
  unfold target advertised
  rw [view_eq, LocRibId.pair]
  cases hb : (rib.entry id).best with
  | none => simp [Passed, hb]
  | some best => simp [passed_iff, hb, Option.filter_some, ite_eq_iff]

/-- **Two neighbours synchronise.** Whatever happens to the local RIB, and whenever the writer is
registered: reads succeed, and when everything has been read and nothing overflowed, the neighbour
has an entry for exactly the ids whose best LSA is passed on, which does not differ from that LSA
with the sender's id before its path. -/
theorem neighbours_sync (h : SyncRun c ribid myid remoteid ops s rets) :
    (∀ ret ∈ rets, ret = 0) ∧
      (s.registered = true → s.wire = [] → s.reader.overflowed = false → ∀ id,
        ((∃ e ∈ s.reader.adjRibIn.lsas, e.lsa.id = id) ↔ ∃ best, Passed s.rib remoteid id best) ∧
        ∀ e ∈ s.reader.adjRibIn.lsas, e.lsa.id = id → ∀ best, Passed s.rib remoteid id best →
          lsaDiff (some e.lsa) (some (best.lsa.prepended myid)) = .ok 0) := by
  have hi := h.inv
  refine ⟨hi.rets, fun hreg hwire hquiet id => ?_⟩
  obtain ⟨t, pending, hf⟩ := hi.flight
  obtain ⟨hbytes, hwait, _, htable, hagree⟩ := hf
  -- nothing is pending, so the table of the neighbour is what is advertised
  rw [hwire] at hbytes
  obtain rfl := hwait.eq_nil hbytes
  have ht : t = target myid remoteid s.rib.view := by
    rw [show t = s.due myid remoteid from htable, Sync.due, if_pos hreg]
  have hsame := hagree hquiet id
  rw [ht] at hsame
  have hfind := fun e => @findRef_eq_some s.reader.adjRibIn id e hi.adj.sorted
  cases hroot : target myid remoteid s.rib.view id with
  | none =>
    have hno : ∀ best, ¬ Passed s.rib remoteid id best := fun best hp =>
      absurd (target_eq_some.mpr ⟨best, hp, rfl⟩) (by rw [hroot]; simp)
    cases hf : adjRibInFindRef s.reader.adjRibIn id with
    | none =>
      refine ⟨⟨fun ⟨e, hm, he⟩ => ?_, fun ⟨best, hp⟩ => absurd hp (hno best)⟩,
        fun e hm he best hp => absurd hp (hno best)⟩
      exact absurd ((hfind e).mpr ⟨hm, he⟩) (by rw [hf]; simp)
    | some e =>
      rw [hf, hroot] at hsame
      exact hsame.elim
  | some root =>
    obtain ⟨best, hp, rfl⟩ := target_eq_some.mp hroot
    cases hf : adjRibInFindRef s.reader.adjRibIn id with
    | none =>
      rw [hf, hroot] at hsame
      exact hsame.elim
    | some e =>
      rw [hf, hroot] at hsame
      refine ⟨⟨fun _ => ⟨best, hp⟩, fun _ => ⟨e, (hfind e).mp hf⟩⟩, fun e' hm he best' hp' => ?_⟩
      obtain rfl : e = e' := Option.some.inj (hf.symm.trans ((hfind e').mpr ⟨hm, he⟩))
      obtain rfl : best = best' := Option.some.inj (hp.1.symm.trans hp'.1)
      exact (lsaDiff_root rfl).trans hsame

/-! ## A small run -/

/-- The writer is registered after the first LSA became the best one. -/
theorem neighbours_sync_first : ∃ s rets, SyncRun sampleCrypto none idM idP
      [.loc (.add (versioned 1 1)), .loc .recompute, .register, .read 80] s rets ∧
    s.wire = [] ∧ ∃ e ∈ s.reader.adjRibIn.lsas, e.lsa.id = zeroId := by
  have hsend : Sendable idM (versioned 1 1).lsa := ⟨by decide, by decide, by decide,
    ⟨fun h => absurd h (by decide), fun h => absurd h (by decide), trivial⟩, by decide⟩
  let rib₁ := oneEntry 1 [versioned 1 1] none RIB_COST_INELIGIBLE
  let rib₂ := oneEntry 1 [versioned 1 1] (some (versioned 1 1)) 0
  let wire := lsaWire zeroId ((versioned 1 1).lsa.prepended idM).root ++ [0]
  let dr := dgpReaderRegister (some idP) (some idM)
  have h1 : syncStep sampleCrypto ⟨some idM, some idP⟩ (syncInit none idM idP)
      (.loc (.add (versioned 1 1))) = .ok (⟨rib₁, false, [], dr⟩, []) := rfl
  have h2 : syncStep sampleCrypto ⟨some idM, some idP⟩ ⟨rib₁, false, [], dr⟩ (.loc .recompute) =
      .ok (⟨rib₂, false, [], dr⟩, []) := rfl
  have h3 : syncStep sampleCrypto ⟨some idM, some idP⟩ ⟨rib₂, false, [], dr⟩ .register =
      .ok (⟨rib₂, true, wire, dr⟩, []) := rfl
  have hc1 : SyncContract idM (syncInit none idM idP) (.loc (.add (versioned 1 1))) :=
    ⟨fun rid hm => absurd hm List.not_mem_nil, fun p hp => Option.some.inj hp ▸ hsend⟩
  have hc2 : SyncContract idM ⟨rib₁, false, [], dr⟩ (.loc .recompute) :=
    ⟨trivial, fun p hp => absurd hp (by simp [LocOp.put])⟩
  have hc3 : SyncContract idM ⟨rib₂, false, [], dr⟩ .register := rfl
  have hc4 : SyncContract idM ⟨rib₂, true, wire, dr⟩ (.read 80) :=
    ⟨by decide, by decide, by decide⟩
  have hrun := Run.snoc (.snoc (.snoc .nil hc1 h1) hc2 h2) hc3 h3
  obtain ⟨⟨s, rets⟩, h4⟩ := sync_isOk hrun hc4 (by simp)
  obtain ⟨⟨ret, dr', es⟩, hread, hs⟩ := bind_eq_ok.mp h4
  have hquiet : (dgpReaderRead sampleCrypto dr (wire.take 80)).toOption.map
      (fun r => r.2.1.overflowed) = some false := by decide +kernel
  rw [show dgpReaderRead sampleCrypto dr (wire.take 80) = _ from hread] at hquiet
  obtain ⟨rfl, rfl⟩ := Prod.mk.inj (Except.ok.inj hs)
  have hrun' := Run.snoc hrun hc4 h4
  have hempty : wire.drop 80 = [] := by decide
  refine ⟨_, _, hrun', hempty, ((neighbours_sync hrun').2 rfl hempty (Option.some.inj hquiet)
    zeroId).1.mpr ⟨versioned 1 1, rfl, .plain LSA_ATTR_TYPE_ADV_PATH false [] [], rfl, rfl⟩⟩

end Dvpn
