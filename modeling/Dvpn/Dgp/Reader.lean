import Dvpn.Dgp.Message
import Dvpn.Rib.AdjRibInRun

/-!
# The reader (`dgp_reader.c`)

A `dgp_reader` collects what arrives from a neighbour in a buffer of 65536 bytes, and hands every
LSA that is there as a whole to its `adj_rib_in`. What is left at the end of the buffer is kept for
the next read.

* `data` is what `read` gives, nothing at the end of the stream; `EAGAIN` is no call at all. The
  keepalive timer is left out.
* A received object gets a fresh address. References that listeners take are not counted.
* `overflowed` records that `adj_rib_in_add_lsa` complained about an overflow.

`AgreesWith c rib t` says that the RIB of the neighbour agrees with a table, up to `lsa_diff`.

* `receive_spec`: one LSA takes the RIB along, unless it overflows.
* `read_spec`: a read of bytes of valid messages succeeds, takes the RIB along with the messages
  that have arrived, and keeps a proper prefix of the next one.
-/

namespace Dvpn

/-! ## The code -/

/-- `struct dgp_reader`. -/
structure DgpReader where
  remoteid : Option NodeId
  buf : Bytes
  adjRibIn : AdjRibIn
  received : Nat
  overflowed : Bool

/-- `sizeof(dr->buf)`. -/
def DGP_READER_BUFSIZE : Nat := 65536

/-- `dgp_reader_register` (`dgp_reader.c:36-58`). -/
def dgpReaderRegister (myid remoteid : Option NodeId) : DgpReader where
  remoteid := remoteid
  buf := []
  adjRibIn := adjRibInInit myid remoteid
  received := 0
  overflowed := false

/-- Whether `adj_rib_in_add_lsa` complains about an overflow (`adj_rib_in.c:236-239`). -/
def AdjRibIn.drops (rib : AdjRibIn) (lsa : Lsa) : Bool :=
  !lsa.root.isEmpty && decide (rib.overflows lsa)

/-- What becomes of a message (`dgp_reader.c:105-110`): the LSA goes to `adj_rib_in_add_lsa`, which
may take a reference, and the reader's own reference is dropped. -/
def dgpReaderReceive (c : Crypto) (dr : DgpReader) :
    Option LsaObj → Except Crash (DgpReader × List RibEvent)
  | none => return (dr, [])
  | some lsa => do
    let p : LsaPtr := { addr := dr.received, lsa := lsa.toLsa }
    if dr.remoteid.isNone then
      let _ ← lsaPut lsa
      return ({ dr with received := dr.received + 1 }, [])
    else
      let (_, rib, es) ← adjRibInAddLsa c dr.adjRibIn p
      let stored := (adjRibInFindRef rib lsa.id).any fun ref => ref.addr = p.addr
      let _ ← lsaPut { lsa with refcount := if stored then lsa.refcount + 1 else lsa.refcount }
      return ({ dr with
        adjRibIn := rib
        received := dr.received + 1
        overflowed := dr.overflowed || dr.adjRibIn.drops p.lsa }, es)

/-- The loop of `dgp_reader_read` (`dgp_reader.c:90-113`) over the bytes from `off` on: the return
value, the reader, and the bytes that are left. -/
def dgpReaderLoop (c : Crypto) : Nat → DgpReader → Bytes → Nat →
    Except Crash (Int × DgpReader × Bytes × List RibEvent)
  | 0, dr, src, _ => return (0, dr, src, [])
  | fuel + 1, dr, src, off =>
    if src.isEmpty then return (0, dr, src, [])
    else do
      let (len, lsa) ← lsaDeserialise src
      if len < 0 then return (-1, dr, src, [])
      else if len = 0 then
        if off = 0 ∧ src.length = DGP_READER_BUFSIZE then return (-1, dr, src, [])
        else return (0, dr, src, [])
      else
        let (dr, es) ← dgpReaderReceive c dr lsa
        let (ret, dr, src, es') ← dgpReaderLoop c fuel dr (src.drop len.toNat) (off + len.toNat)
        return (ret, dr, src, es ++ es')

/-- `dgp_reader_read` (`dgp_reader.c:60-119`): the return value, the reader, and what the listeners
of its RIB are told. -/
def dgpReaderRead (c : Crypto) (dr : DgpReader) (data : Bytes) :
    Except Crash (Int × DgpReader × List RibEvent) :=
  if data.isEmpty then return (-1, dr, [])
  else do
    let buf := dr.buf ++ data
    let (ret, dr, rest, es) ← dgpReaderLoop c buf.length dr buf 0
    return (ret, { dr with buf := if ret = 0 then rest else buf }, es)

/-! ## What the RIB has -/

/-- An LSA does not differ from a set. -/
def SameAttrs (lsa : Option LsaPtr) (root : Option AttrSet) : Prop :=
  match lsa, root with
  | none, none => True
  | some p, some root => lsaDiff (some p.lsa) (some (.ofAttrs p.lsa.id root)) = .ok 0
  | _, _ => False

/-- The RIB has the LSAs of the table, up to `lsa_diff`. -/
def AgreesWith (rib : AdjRibIn) (t : NodeId → Option AttrSet) : Prop :=
  ∀ id, SameAttrs (adjRibInFindRef rib id) (t id)

/-- What every step of the reader keeps. -/
structure ReaderFollows (c : Crypto) (dr dr' : DgpReader) (msgs : List DgpMsg) : Prop where
  remoteid : dr'.remoteid = dr.remoteid
  inv : dr'.adjRibIn.Inv c
  quiet : dr'.overflowed = false → dr.overflowed = false
  agrees : dr'.overflowed = false → ∀ t, AgreesWith dr.adjRibIn t →
    AgreesWith dr'.adjRibIn (applyAll t msgs)

variable {c : Crypto} {rib rib' : AdjRibIn} {dr dr' dr'' : DgpReader} {id : NodeId}
  {root : AttrSet} {t : NodeId → Option AttrSet} {es : List RibEvent} {msg : DgpMsg}
  {msgs msgs' : List DgpMsg} {lsa : LsaPtr}

theorem ReaderFollows.refl (hi : dr.adjRibIn.Inv c) : ReaderFollows c dr dr [] :=
  ⟨rfl, hi, id, fun _ _ h => h⟩

theorem ReaderFollows.trans (h : ReaderFollows c dr dr' msgs)
    (h' : ReaderFollows c dr' dr'' msgs') : ReaderFollows c dr dr'' (msgs ++ msgs') := by
  refine ⟨h'.remoteid.trans h.remoteid, h'.inv, fun hq => h.quiet (h'.quiet hq), ?_⟩
  intro hq t ht
  rw [applyAll_append]
  exact h'.agrees hq _ (h.agrees (h'.quiet hq) t ht)

theorem lsaDiff_root {a b b' : Lsa} (h : b.root = b'.root) :
    lsaDiff (some a) (some b) = lsaDiff (some a) (some b') := by
  simp only [lsaDiff, Option.map_some, h]

theorem agreesWith_init (myid remoteid : Option NodeId) :
    AgreesWith (adjRibInInit myid remoteid) fun _ => none := fun _ => trivial

/-! ## One LSA -/

/-- An update of one id agrees with the update of the table. -/
theorem AdjUpdates.agreesWith {old new : Option LsaPtr} {r : Option AttrSet}
    (h : AdjUpdates c rib rib' id old new es) (hi : rib.Inv c) (ht : AgreesWith rib t)
    (hnew : SameAttrs new r) : AgreesWith rib' (Function.update t id r) := by
  intro id'
  rw [h.findRef hi, Function.update_apply]
  split_ifs
  · exact hnew
  · exact ht id'

/-- What the RIB has already need not be updated. -/
theorem AgreesWith.update {r : Option AttrSet} (ht : AgreesWith rib t)
    (h : SameAttrs (adjRibInFindRef rib id) r) : AgreesWith rib (Function.update t id r) := by
  intro id'
  rw [Function.update_apply]
  split_ifs with hid
  · exact hid ▸ h
  · exact ht id'

/-- **`adj_rib_in_add_lsa`** takes the RIB along, unless it overflows. -/
theorem AddOutcome.agreesWith (h : AddOutcome c rib lsa rib' es) (hi : rib.Inv c)
    (hw : Wellformed lsa.lsa) (hover : lsa.lsa.root = [] ∨ ¬ rib.overflows lsa.lsa)
    (ht : AgreesWith rib t) :
    AgreesWith rib' (DgpMsg.apply t (.lsa lsa.lsa.id lsa.lsa.root)) := by
  have hempty : lsa.lsa.root = [] ∨ rib.overflows lsa.lsa → lsa.lsa.root = [] := fun h =>
    h.elim (fun h => h) fun ho => hover.elim (fun h => h) fun hn => absurd ho hn
  change AgreesWith rib' (Function.update t lsa.lsa.id
    (if lsa.lsa.root = [] then none else some lsa.lsa.root))
  cases h with
  | ignored hr hf =>
    rw [if_pos (hempty hr)]
    exact ht.update (hf ▸ trivial)
  | removed hr hup =>
    rw [if_pos (hempty hr)]
    exact hup.agreesWith hi ht trivial
  | same hr _ hf hdiff =>
    rw [if_neg hr]
    refine ht.update ?_
    rw [hf]
    exact (lsaDiff_root rfl).trans hdiff
  | stored hr _ _ hup =>
    rw [if_neg hr]
    exact hup.agreesWith hi ht (lsaDiff_self rfl hw.comparable)

theorem received_decoded (h : (DgpMsg.lsa id root).Valid) :
    (builtLsa id root).toLsa = .ofAttrs id root ∧ Received (builtLsa id root).toLsa := by
  have hlen := (length_encode h).2
  obtain ⟨hwf, ht, hd, _, _⟩ := h
  have heq : (builtLsa id root).toLsa = .ofAttrs id root := by
    simp only [builtLsa, Lsa.ofAttrs, arrange_of_wf hwf]
  refine ⟨heq, heq ▸ received_ofAttrs id hwf ht hd ?_⟩
  simp only [DgpMsg.encode] at hlen
  omega

theorem drops_eq_false (h : rib.drops lsa.lsa = false) :
    lsa.lsa.root = [] ∨ ¬ rib.overflows lsa.lsa :=
  (Bool.and_eq_false_iff.mp h).imp (fun h => by simpa using h) of_decide_eq_false

/-- **One message** takes the RIB along, unless it overflows. -/
theorem receive_spec (h : msg.Valid) (hr : dr.remoteid.isSome) (hi : dr.adjRibIn.Inv c) :
    ∃ dr' es, dgpReaderReceive c dr msg.decoded = .ok (dr', es) ∧
      ReaderFollows c dr dr' [msg] := by
  cases msg with
  | keepalive => exact ⟨dr, [], rfl, rfl, hi, id, fun _ _ ht => ht⟩
  | lsa id root =>
    obtain ⟨heq, hrec⟩ := received_decoded h
    obtain ⟨_, _, _, hne, hsize⟩ := h
    have hmax : SIZE_MAX = 2 ^ 64 - 1 := rfl
    obtain ⟨ret, rib', es, hrun, hout⟩ :=
      @addLsa_spec c dr.adjRibIn ⟨dr.received, (builtLsa id root).toLsa⟩ hi hrec.wellformed
    -- the object is not freed, or has no empty set
    have hput : ∀ stored : Bool, ∃ r, lsaPut { builtLsa id root with
        refcount := if stored then (builtLsa id root).refcount + 1
          else (builtLsa id root).refcount } = .ok r := by
      intro stored
      cases stored with
      | true => exact ⟨_, rfl⟩
      | false => exact (lsaPut_builtLsa id (attrsFit_of_wire (by omega))).mpr hne
    obtain ⟨r, hput⟩ := hput ((adjRibInFindRef rib' (builtLsa id root).id).any fun ref =>
      ref.addr = dr.received)
    obtain ⟨remoteid, hr⟩ := Option.isSome_iff_exists.mp hr
    refine ⟨{ dr with
      adjRibIn := rib'
      received := dr.received + 1
      overflowed := dr.overflowed || dr.adjRibIn.drops (builtLsa id root).toLsa }, es, ?_, ?_⟩
    · unfold dgpReaderReceive DgpMsg.decoded
      simp only [hr, Option.isNone_some, Bool.false_eq_true, if_false, hrun, ok_bind, hput]
      rfl
    · refine ⟨rfl, (hout.follows hi).inv, fun hq => (Bool.or_eq_false_iff.mp hq).1, ?_⟩
      intro hq t ht
      have hagree := hout.agreesWith hi hrec.wellformed
        (drops_eq_false (Bool.or_eq_false_iff.mp hq).2) ht
      rw [heq] at hagree
      exact hagree

/-! ## A read -/

/-- The next message has not arrived as a whole. -/
def Waiting (buf : Bytes) (pending : List DgpMsg) : Prop :=
  ∀ msg msgs, pending = msg :: msgs → buf.length < msg.encode.length

/-- A reader with a rest of a row of messages in its buffer has room for more. -/
theorem Waiting.room {buf wire : Bytes} {pending : List DgpMsg} (h : Waiting buf pending)
    (hw : buf ++ wire = encodeAll pending) (hv : ∀ msg ∈ pending, msg.Valid) :
    buf.length < DGP_READER_BUFSIZE := by
  unfold DGP_READER_BUFSIZE
  cases pending with
  | nil =>
    have hnil : buf = [] := (List.append_eq_nil_iff.mp hw).1
    rw [hnil]
    decide
  | cons msg msgs =>
    have hlt := h msg msgs rfl
    have hlen := (length_encode (hv msg List.mem_cons_self)).2
    omega

/-- Nothing is pending when all bytes have been read. -/
theorem Waiting.eq_nil {buf : Bytes} {pending : List DgpMsg} (h : Waiting buf pending)
    (hw : buf ++ [] = encodeAll pending) : pending = [] := by
  cases pending with
  | nil => rfl
  | cons msg msgs =>
    have hlt := h msg msgs rfl
    rw [List.append_nil] at hw
    rw [hw, encodeAll_cons, List.length_append] at hlt
    omega

/-- What the loop comes to: the messages that have arrived are processed. -/
structure LoopSpec (c : Crypto) (dr : DgpReader) (wire : Bytes) (pending : List DgpMsg)
    (dr' : DgpReader) (rest : Bytes) (done pending' : List DgpMsg) : Prop where
  split : pending = done ++ pending'
  bytes : rest ++ wire = encodeAll pending'
  waiting : Waiting rest pending'
  follows : ReaderFollows c dr dr' done

/-- **The loop**, by the messages that are pending. -/
theorem loop_spec {pending : List DgpMsg} {src wire : Bytes} {fuel off : Nat}
    (hw : src ++ wire = encodeAll pending) (hv : ∀ msg ∈ pending, msg.Valid)
    (hr : dr.remoteid.isSome) (hi : dr.adjRibIn.Inv c) (hf : src.length ≤ fuel) :
    ∃ dr' rest es done pending', dgpReaderLoop c fuel dr src off = .ok (0, dr', rest, es) ∧
      LoopSpec c dr wire pending dr' rest done pending' := by
  induction pending generalizing dr src fuel off with
  | nil =>
    obtain rfl : src = [] := (List.append_eq_nil_iff.mp hw).1
    refine ⟨dr, [], [], [], [], ?_, rfl, hw, fun _ _ h => absurd h (by simp), .refl hi⟩
    cases fuel <;> rfl
  | cons msg msgs ih =>
    have hmsg := hv msg List.mem_cons_self
    have hlen := length_encode hmsg
    rcases encodeAll_split hw with ⟨src', rfl, hw'⟩ | ⟨⟨q, hq⟩, hlt⟩
    · -- the first message has arrived
      rw [List.length_append] at hf
      obtain ⟨fuel, rfl⟩ : ∃ n, fuel = n + 1 := ⟨fuel - 1, by omega⟩
      obtain ⟨dr₁, es₁, hone, hfol⟩ := receive_spec hmsg hr hi
      obtain ⟨dr', rest, es, done, pending', hrun, hspec⟩ := @ih dr₁ src' fuel
        (off + msg.encode.length) hw' (fun m hm => hv m (List.mem_cons_of_mem msg hm))
        (hfol.remoteid ▸ hr) hfol.inv (by omega)
      refine ⟨dr', rest, es₁ ++ es, msg :: done, pending', ?_, ?_, hspec.bytes, hspec.waiting,
        hfol.trans hspec.follows⟩
      · have hne : (msg.encode ++ src').isEmpty = false := by
          rw [List.isEmpty_eq_false_iff]
          exact List.append_ne_nil_of_left_ne_nil (List.ne_nil_of_length_pos hlen.1) _
        rw [dgpReaderLoop, if_neg (by simp [hne]), deserialise_encode hmsg, ok_bind]
        dsimp only
        rw [if_neg (by omega), if_neg (by omega), hone, ok_bind, Int.toNat_natCast,
          List.drop_left, hrun]
        rfl
      · rw [hspec.split]
        rfl
    · -- a proper prefix of it
      refine ⟨dr, src, [], [], msg :: msgs, ?_, rfl, hw, ?_, .refl hi⟩
      · cases fuel with
        | zero => rfl
        | succ fuel =>
          rw [dgpReaderLoop]
          by_cases hnil : src.isEmpty
          · rw [if_pos hnil, List.isEmpty_iff.mp hnil]
            rfl
          · rw [if_neg hnil, deserialise_short hmsg hq hlt, ok_bind]
            dsimp only
            have hroom : ¬ (off = 0 ∧ src.length = DGP_READER_BUFSIZE) := by
              unfold DGP_READER_BUFSIZE
              omega
            rw [if_neg (lt_irrefl 0), if_pos rfl, if_neg hroom]
            rfl
      · rintro _ _ ⟨⟩
        exact hlt

/-- **A read** of bytes of valid messages succeeds, and takes the RIB along with the messages
that have arrived. -/
theorem read_spec {pending : List DgpMsg} {data wire : Bytes} (hd : data ≠ [])
    (hw : dr.buf ++ (data ++ wire) = encodeAll pending) (hv : ∀ msg ∈ pending, msg.Valid)
    (hr : dr.remoteid.isSome) (hi : dr.adjRibIn.Inv c) :
    ∃ dr' es done pending', dgpReaderRead c dr data = .ok (0, dr', es) ∧
      LoopSpec c dr wire pending dr' dr'.buf done pending' := by
  rw [← List.append_assoc] at hw
  obtain ⟨dr', rest, es, done, pending', hrun, hspec⟩ :=
    @loop_spec c dr pending (dr.buf ++ data) wire _ 0 hw hv hr hi le_rfl
  refine ⟨{ dr' with buf := rest }, es, done, pending', ?_, hspec.split, hspec.bytes,
    hspec.waiting, ⟨hspec.follows.remoteid, hspec.follows.inv, hspec.follows.quiet,
      hspec.follows.agrees⟩⟩
  unfold dgpReaderRead
  rw [if_neg (by simpa using hd)]
  dsimp only
  rw [hrun]
  rfl

end Dvpn
