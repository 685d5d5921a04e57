import Dvpn.Dgp.Message
import Dvpn.Rib.LocRibRun

/-!
# The writer (`dgp_writer.c`)

A `dgp_writer` sends the best LSAs of the local RIB to a neighbour: all of them when it registers,
and from then on what it is told as a listener. Its `map` keeps back an LSA that the neighbour is
on the path of; an LSA that takes the place of one that was sent and is kept back itself is sent as
a withdrawal. Every `write` succeeds and writes everything; timers and the TCP cork are left out.

`advertised m r` is what a neighbour `r` should have for a best LSA, with `m` before its path.

* `output_spec`: the writer sends `advertise`, and does not abort on an LSA it has room for.
* `applyAll_advertise`: which takes the neighbour's table from the old LSA to the new one.
* `events_spec`, `dump_spec`: so what is sent for a row of events, or for the dump, takes the
  table to what is advertised.
-/

namespace Dvpn

/-! ## The code -/

/-- `struct dgp_writer`. -/
structure DgpWriter where
  myid : Option NodeId
  remoteid : Option NodeId

/-- `map` (`dgp_writer.c:32-47`). -/
def dgpWriterMap (dw : DgpWriter) : Option Lsa → Except Crash (Option Lsa)
  | none => return none
  | some lsa =>
    match lsaFindAttr lsa LSA_ATTR_TYPE_ADV_PATH [] with
    | none => return none
    | some attr =>
      match dw.remoteid with
      | none => return some lsa
      | some remoteid => do
        if ← lsaPathContains attr remoteid then return none else return some lsa

/-- The write of `dgp_writer_output_lsa` (`dgp_writer.c:70-84`). -/
def writeLsa (dw : DgpWriter) (lsa : Lsa) : Except Crash Bytes := do
  let serlen ← lsaSerialiseLength lsa false dw.myid
  if serlen > 65536 - 128 then throw .dgpWriterOutputLsa
  let buflen := serlen + 128
  let (len, buf) ← lsaSerialise buflen serlen lsa false dw.myid
  if len > buflen then throw .dgpWriterOutputLsa
  return buf.take len

/-- `dgp_writer_output_lsa` (`dgp_writer.c:49-94`): the bytes that are written. -/
def dgpWriterOutputLsa (dw : DgpWriter) (old new : Option Lsa) : Except Crash Bytes := do
  match ← dgpWriterMap dw new with
  | some lsa => writeLsa dw lsa
  | none =>
    match ← dgpWriterMap dw old with
    | none => return []
    | some old =>
      -- the bytes of the dummy are never set, and never read
      writeLsa dw { bytes := 0, id := old.id, root := [] }

/-- `dgp_writer_lsa_add`, `dgp_writer_lsa_mod` and `dgp_writer_lsa_del`
(`dgp_writer.c:96-116`). -/
def dgpWriterEvent (dw : DgpWriter) : RibEvent → Except Crash Bytes
  | .lsaAdd lsa _ => dgpWriterOutputLsa dw none (some lsa.lsa)
  | .lsaMod old _ new _ => dgpWriterOutputLsa dw (some old.lsa) (some new.lsa)
  | .lsaDel lsa _ => dgpWriterOutputLsa dw (some lsa.lsa) none

/-- The events of one call, one after the other. -/
def dgpWriterEvents (dw : DgpWriter) : List RibEvent → Except Crash Bytes
  | [] => return []
  | e :: es => do
    let bytes ← dgpWriterEvent dw e
    let bytes' ← dgpWriterEvents dw es
    return bytes ++ bytes'

/-- `dgp_writer_send_keepalive` (`dgp_writer.c:126-134`). -/
def dgpWriterSendKeepalive : Bytes := [0]

/-- The loop of `dgp_writer_rib_dump` (`dgp_writer.c:147-156`). -/
def dumpIds (dw : DgpWriter) : List LocRibId → Except Crash Bytes
  | [] => return []
  | rid :: ids => do
    match rid.best with
    | none => dumpIds dw ids
    | some best =>
      let bytes ← dgpWriterOutputLsa dw none (some best.lsa)
      let bytes' ← dumpIds dw ids
      return bytes ++ bytes'

/-- `dgp_writer_rib_dump` (`dgp_writer.c:136-162`). -/
def dgpWriterRibDump (dw : DgpWriter) (rib : LocRib) : Except Crash Bytes :=
  if rib.ids.isEmpty then return dgpWriterSendKeepalive
  else do
    let bytes ← dumpIds dw rib.ids
    return bytes ++ dgpWriterSendKeepalive

/-! ## What is advertised -/

/-- The LSA has an `ADV_PATH`, and the neighbour is not on it. -/
def passes (remoteid : NodeId) (lsa : Lsa) : Bool :=
  match lsa.advPath with
  | none => false
  | some attr => decide (remoteid ∉ nodeIds attr.pathData)

/-- The LSA with a node id before the data of its `ADV_PATH`. -/
def Lsa.prepended (myid : NodeId) (lsa : Lsa) : Lsa :=
  { lsa with root := lsa.root.map (Attr.withPreid (some myid)) }

/-- What the neighbour `remoteid` should have. -/
def advertised (myid remoteid : NodeId) (lsa : Option Lsa) : Option AttrSet :=
  (lsa.filter (passes remoteid)).map fun lsa => (lsa.prepended myid).root

/-- The messages for a change. -/
def advertise (myid remoteid : NodeId) (old new : Option Lsa) : List DgpMsg :=
  match new.filter (passes remoteid), old.filter (passes remoteid) with
  | some lsa, _ => [.lsa lsa.id (lsa.prepended myid).root]
  | none, some old => [.lsa old.id []]
  | none, none => []

/-- An LSA that the writer has room for: at most 65408 bytes as it serialises it. -/
structure Sendable (myid : NodeId) (lsa : Lsa) : Prop where
  wf : AttrsWf lsa.root
  types : TypesOk lsa.root
  depth : attrsDepth lsa.root ≤ 8
  nonempty : NoEmptySet lsa.root
  size : NODE_ID_LEN + (attrsWire (lsa.prepended myid).root).length ≤ 65536 - 128

variable {myid remoteid : NodeId} {lsa : Lsa} {old new : Option Lsa}

/-- `map` lets an LSA through or not. -/
theorem dgpWriterMap_isOk (dw : DgpWriter) (o : Option Lsa) :
    dgpWriterMap dw o = .ok none ∨ dgpWriterMap dw o = .ok o := by
  cases o with
  | none => exact Or.inl rfl
  | some lsa =>
    unfold dgpWriterMap
    dsimp only
    cases ha : lsaFindAttr lsa LSA_ATTR_TYPE_ADV_PATH [] with
    | none => exact Or.inl rfl
    | some attr =>
      cases dw.remoteid with
      | none => exact Or.inr rfl
      | some remoteid =>
        dsimp only
        rw [lsaPathContains_eq (advPath_type ha), ok_bind]
        split_ifs
        · exact Or.inl rfl
        · exact Or.inr rfl

theorem map_filter (myid : Option NodeId) (remoteid : NodeId) (lsa : Option Lsa) :
    dgpWriterMap ⟨myid, some remoteid⟩ lsa = .ok (lsa.filter (passes remoteid)) := by
  cases lsa with
  | none => rfl
  | some lsa =>
    rw [Option.filter_some]
    unfold dgpWriterMap passes
    change (match lsa.advPath with | none => _ | some attr => _) = _
    cases ha : lsa.advPath with
    | none => rfl
    | some attr =>
      dsimp only
      rw [lsaPathContains_eq (advPath_type ha), ok_bind]
      by_cases h : remoteid ∈ nodeIds attr.pathData <;> simp [h]

theorem passes_root_ne_nil (h : passes remoteid lsa = true) : (lsa.prepended myid).root ≠ [] := by
  unfold passes at h
  cases ha : lsa.advPath with
  | none => simp [ha] at h
  | some attr => exact List.ne_nil_of_mem (List.mem_map_of_mem (advPath_mem ha))

theorem Sendable.valid (h : Sendable myid lsa) :
    (DgpMsg.lsa lsa.id (lsa.prepended myid).root).Valid :=
  ⟨attrsWf_withPreid _ h.wf, typesOk_withPreid _ h.types,
    (attrsDepth_withPreid _).trans_le h.depth, noEmptySet_withPreid _ h.nonempty, h.size⟩

theorem valid_withdrawal (id : NodeId) : (DgpMsg.lsa id []).Valid :=
  ⟨attrsWf_nil, trivial, Nat.zero_le _, trivial, by simp [attrsWire, NODE_ID_LEN]⟩

/-- The writer has room for a valid message. -/
theorem writeLsa_eq (remoteid : Option NodeId)
    (h : (DgpMsg.lsa lsa.id (lsa.prepended myid).root).Valid) :
    writeLsa ⟨some myid, remoteid⟩ lsa = .ok (lsaWire lsa.id (lsa.prepended myid).root) := by
  obtain ⟨_, _, _, _, hsize⟩ := h
  have hid : NODE_ID_LEN = 32 := rfl
  have hmax : SIZE_MAX = 2 ^ 64 - 1 := rfl
  have hview : rootView false (some myid) lsa.root = (lsa.prepended myid).root := rfl
  have hint := length_intBytes_le (NODE_ID_LEN + (attrsWire (lsa.prepended myid).root).length)
  have hlen := lsaSerialiseLength_eq (hview ▸ (by omega) :
    (attrsWire (rootView false (some myid) lsa.root)).length ≤ SIZE_MAX)
  have htotal := length_lsaWire lsa.id (lsa.prepended myid).root
  have hser := fun buflen => @lsaSerialise_eq lsa false (some myid) buflen
  rw [hview] at hlen hser
  unfold writeLsa
  dsimp only
  rw [hlen, ok_bind, if_neg (by omega), hser _ (by omega) (by omega)]
  simp only [ok_bind]
  rw [if_neg (by omega), List.take_length]
  rfl

/-! ## What is sent -/

/-- **`dgp_writer_output_lsa`** sends the messages for the change. -/
theorem output_spec (old : Option Lsa) (hnew : ∀ lsa, new = some lsa → Sendable myid lsa) :
    dgpWriterOutputLsa ⟨some myid, some remoteid⟩ old new =
        .ok (encodeAll (advertise myid remoteid old new)) ∧
      ∀ msg ∈ advertise myid remoteid old new, msg.Valid := by
  unfold dgpWriterOutputLsa advertise
  rw [map_filter, ok_bind, map_filter]
  cases hn : new.filter (passes remoteid) with
  | some lsa =>
    have hvalid := (hnew lsa (Option.filter_eq_some_iff.mp hn).1).valid
    refine ⟨?_, fun msg hm => List.mem_singleton.mp hm ▸ hvalid⟩
    simp [writeLsa_eq _ hvalid, DgpMsg.encode]
  | none =>
    cases ho : old.filter (passes remoteid) with
    | some old =>
      refine ⟨?_, fun msg hm => List.mem_singleton.mp hm ▸ valid_withdrawal old.id⟩
      have hwrite := @writeLsa_eq myid { bytes := 0, id := old.id, root := [] } (some remoteid)
        (valid_withdrawal old.id)
      simp only [ok_bind, hwrite]
      simp [DgpMsg.encode, Lsa.prepended]
    | none => exact ⟨rfl, fun msg hm => absurd hm List.not_mem_nil⟩

/-- **The messages for a change** take a table from the old LSA to the new one. -/
theorem applyAll_advertise {t : NodeId → Option AttrSet} {id : NodeId}
    (hold : ∀ lsa, old = some lsa → lsa.id = id) (hnew : ∀ lsa, new = some lsa → lsa.id = id)
    (ht : t id = advertised myid remoteid old) :
    applyAll t (advertise myid remoteid old new) =
      Function.update t id (advertised myid remoteid new) := by
  unfold advertise advertised
  cases hn : new.filter (passes remoteid) with
  | some lsa =>
    obtain ⟨hnew', hp⟩ := Option.filter_eq_some_iff.mp hn
    obtain rfl := hnew lsa hnew'
    have hne : (lsa.prepended myid).root ≠ [] := passes_root_ne_nil hp
    simp [applyAll, DgpMsg.apply, hne]
  | none =>
    cases ho : old.filter (passes remoteid) with
    | some old =>
      obtain rfl := hold old (Option.filter_eq_some_iff.mp ho).1
      simp [applyAll, DgpMsg.apply]
    | none =>
      rw [advertised, ho] at ht
      change t = Function.update t id none
      rw [show none = t id from ht.symm, Function.update_eq_self]

/-! ## The events of a call, and the dump -/

open ChangeLog

/-- What the neighbour should have of a local RIB with this table of best pairs. -/
def target (myid remoteid : NodeId) (view : NodeId → Option (LsaPtr × Nat)) (id : NodeId) :
    Option AttrSet :=
  advertised myid remoteid ((view id).map fun pair => pair.1.lsa)

theorem target_update (view : NodeId → Option (LsaPtr × Nat)) (id : NodeId)
    (pair : Option (LsaPtr × Nat)) :
    target myid remoteid (Function.update view id pair) =
      Function.update (target myid remoteid view) id
        (advertised myid remoteid (pair.map fun pair => pair.1.lsa)) := by
  funext id'
  unfold target
  rw [Function.update_apply, Function.update_apply]
  split_ifs <;> rfl

theorem dgpWriterEvent_eq (dw : DgpWriter) (e : RibEvent) :
    dgpWriterEvent dw e =
      dgpWriterOutputLsa dw (e.old.map LsaPtr.lsa) (e.new.map LsaPtr.lsa) := by
  cases e <;> rfl

theorem old_id {e : RibEvent} {p : LsaPtr} (h : e.old = some p) : p.lsa.id = e.id := by
  cases e with
  | lsaAdd lsa cost => exact absurd h (by simp [RibEvent.old])
  | lsaMod old oldcost new newcost => exact Option.some.inj h ▸ rfl
  | lsaDel lsa cost => exact Option.some.inj h ▸ rfl

/-- A row of messages that takes one table to another, and what is written for it. -/
structure Sent (out : Except Crash Bytes) (t t' : NodeId → Option AttrSet)
    (msgs : List DgpMsg) : Prop where
  bytes : out = .ok (encodeAll msgs)
  valid : ∀ msg ∈ msgs, msg.Valid
  table : applyAll t msgs = t'

/-- **What is sent for a row of events** takes the neighbour along. -/
theorem events_spec {es : List RibEvent} {view view' : NodeId → Option (LsaPtr × Nat)}
    (h : Replays view (es.map RibEvent.change) view')
    (hnew : ∀ e ∈ es, ∀ p, e.new = some p → p.lsa.id = e.id ∧ Sendable myid p.lsa) :
    ∃ msgs, Sent (dgpWriterEvents ⟨some myid, some remoteid⟩ es) (target myid remoteid view)
      (target myid remoteid view') msgs := by
  induction es generalizing view with
  | nil =>
    cases h
    exact ⟨[], rfl, fun _ hm => absurd hm List.not_mem_nil, rfl⟩
  | cons e es ih =>
    cases h with
    | cons he hr =>
      obtain ⟨hold, pair, rfl, hpair⟩ := applies_event he
      obtain ⟨msgs, hsent⟩ := ih hr fun e' hm => hnew e' (List.mem_cons_of_mem e hm)
      have hids := hnew e List.mem_cons_self
      have hlsa : ∀ lsa, e.new.map LsaPtr.lsa = some lsa → ∃ p, e.new = some p ∧ p.lsa = lsa :=
        fun lsa h => Option.map_eq_some_iff.mp h
      obtain ⟨hout, hvalid⟩ := @output_spec myid remoteid (e.new.map LsaPtr.lsa)
        (e.old.map LsaPtr.lsa) fun lsa h => by
          obtain ⟨p, hp, rfl⟩ := hlsa lsa h
          exact (hids p hp).2
      have happly := @applyAll_advertise myid remoteid (e.old.map LsaPtr.lsa)
        (e.new.map LsaPtr.lsa) (target myid remoteid view) e.id
        (fun lsa h => by
          obtain ⟨p, hp, rfl⟩ := Option.map_eq_some_iff.mp h
          exact old_id hp)
        (fun lsa h => by
          obtain ⟨p, hp, rfl⟩ := hlsa lsa h
          exact (hids p hp).1)
        (by rw [target, ← hold, Option.map_map]; rfl)
      refine ⟨advertise myid remoteid (e.old.map LsaPtr.lsa) (e.new.map LsaPtr.lsa) ++ msgs,
        ?_, fun msg hm => (List.mem_append.mp hm).elim (hvalid msg) (hsent.valid msg), ?_⟩
      · simp only [dgpWriterEvents, dgpWriterEvent_eq, hout, hsent.bytes, ok_bind,
          encodeAll_append]
        rfl
      · rw [applyAll_append, happly, ← hsent.table, target_update, ← hpair, Option.map_map]
        rfl

/-- The loop of the dump, on a table without an entry for the ids that are left. -/
theorem dumpIds_spec {ids : List LocRibId} {t : NodeId → Option AttrSet}
    (hi : ∀ rid ∈ ids, rid.Inv) (hs : Avl.Sorted LocRibId.id ids)
    (hbest : ∀ rid ∈ ids, ∀ p, rid.best = some p → Sendable myid p.lsa)
    (ht : ∀ rid ∈ ids, t rid.id = none) :
    ∃ msgs t', Sent (dumpIds ⟨some myid, some remoteid⟩ ids) t t' msgs ∧
      (∀ rid ∈ ids, t' rid.id = advertised myid remoteid (rid.best.map LsaPtr.lsa)) ∧
      ∀ id, (∀ rid ∈ ids, rid.id ≠ id) → t' id = t id := by
  induction ids generalizing t with
  | nil =>
    exact ⟨[], t, ⟨rfl, fun _ hm => absurd hm List.not_mem_nil, rfl⟩,
      fun _ hm => absurd hm List.not_mem_nil, fun _ _ => rfl⟩
  | cons rid ids ih =>
    obtain ⟨hlt, hs⟩ := List.pairwise_cons.mp hs
    have hne : ∀ rid' ∈ ids, rid'.id ≠ rid.id := fun rid' hm => (hlt rid' hm).ne'
    have hid : ∀ p, rid.best = some p → p.lsa.id = rid.id := fun p hp =>
      (hi rid List.mem_cons_self).ids p (List.mem_append_right _ (by simp [hp]))
    -- the messages for this entry
    obtain ⟨hout, hvalid⟩ := @output_spec myid remoteid (rid.best.map LsaPtr.lsa) none
      fun lsa h => by
        obtain ⟨p, hp, rfl⟩ := Option.map_eq_some_iff.mp h
        exact hbest rid List.mem_cons_self p hp
    have happly := @applyAll_advertise myid remoteid none (rid.best.map LsaPtr.lsa) t rid.id
      (by simp)
      (fun lsa h => by
        obtain ⟨p, hp, rfl⟩ := Option.map_eq_some_iff.mp h
        exact hid p hp)
      (ht rid List.mem_cons_self)
    obtain ⟨msgs, t', hsent, hin, hout'⟩ := ih
      (t := Function.update t rid.id (advertised myid remoteid (rid.best.map LsaPtr.lsa)))
      (fun rid' hm => hi rid' (List.mem_cons_of_mem rid hm)) hs
      (fun rid' hm => hbest rid' (List.mem_cons_of_mem rid hm))
      fun rid' hm => by
        rw [Function.update_of_ne (hne rid' hm)]
        exact ht rid' (List.mem_cons_of_mem rid hm)
    refine ⟨advertise myid remoteid none (rid.best.map LsaPtr.lsa) ++ msgs, t', ⟨?_,
      fun msg hm => (List.mem_append.mp hm).elim (hvalid msg) (hsent.valid msg), ?_⟩, ?_, ?_⟩
    · cases hb : rid.best with
      | none => simpa [dumpIds, hb, advertise] using hsent.bytes
      | some best =>
        rw [hb] at hout
        simp only [dumpIds, hb]
        rw [show some best.lsa = Option.map LsaPtr.lsa (some best) from rfl, hout, hsent.bytes,
          encodeAll_append]
        rfl
    · rw [applyAll_append, happly, hsent.table]
    · intro rid' hm
      rcases List.mem_cons.mp hm with rfl | hm
      · rw [hout' _ hne, Function.update_self]
      · exact hin rid' hm
    · intro id hall
      rw [hout' id fun rid' hm => hall rid' (List.mem_cons_of_mem rid hm),
        Function.update_of_ne (hall rid List.mem_cons_self).symm]

/-- **The dump** takes an empty table to what is advertised of the RIB. -/
theorem dump_spec {rib : LocRib} (hi : rib.Inv)
    (hbest : ∀ id p, (rib.entry id).best = some p → Sendable myid p.lsa) :
    ∃ msgs, Sent (dgpWriterRibDump ⟨some myid, some remoteid⟩ rib) (fun _ => none)
      (target myid remoteid rib.view) msgs := by
  obtain ⟨msgs, t, hsent, hin, hout⟩ := @dumpIds_spec myid remoteid rib.ids (fun _ => none)
    hi.entries hi.sorted (fun rid hm p hp => hbest rid.id p (by rwa [entry_of_mem hi.sorted hm]))
    fun _ _ => rfl
  have htable : t = target myid remoteid rib.view := by
    funext id
    rw [target, view_eq]
    rcases entry_cases hi.sorted id with ⟨rid, hm, rfl, _, he⟩ | ⟨hf, he⟩
    · rw [he, hin rid hm, LocRibId.pair, Option.map_map]
      rfl
    · rw [he, hout id ((Avl.find_eq_none hi.sorted (findId_locates id)).mp hf)]
      rfl
  refine ⟨msgs ++ [.keepalive], ?_, fun msg hm => ?_, ?_⟩
  · unfold dgpWriterRibDump
    split_ifs with hempty
    · rw [List.isEmpty_iff.mp hempty] at hsent
      have hnil : encodeAll msgs = [] := (Except.ok.inj hsent.bytes).symm
      rw [encodeAll_append, hnil]
      rfl
    · rw [hsent.bytes, encodeAll_append]
      rfl
  · rcases List.mem_append.mp hm with hm | hm
    · exact hsent.valid msg hm
    · exact List.mem_singleton.mp hm ▸ trivial
  · rw [applyAll_append, hsent.table, htable]
    rfl

end Dvpn
