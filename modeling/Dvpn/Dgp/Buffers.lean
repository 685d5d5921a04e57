import Dvpn.Dgp.Writer
import Dvpn.Lsa.Size
import Dvpn.Rib.AdjRibInRun

/-!
# The buffers of the daemon (`adj_rib_in.c:155-161`, `dgp_writer.c:70-79`, `lsa_diff.c:71-77`)

The daemon serialises LSAs into buffers of up to 65536 bytes on its stack, and aborts when one gets
longer. `map` lets an LSA through when its size is within `LSA_MAX_BYTES`, and a message from a peer
has at most 65536 bytes.

* `serialise_within_size`: so neither `map` nor the writer aborts on what `map` lets through.
* `diff_within_message`: nor does the comparison of two LSAs from a peer.
-/

namespace Dvpn

variable {lsa : Lsa} {dw : DgpWriter} {old new : Option Lsa}

/-! ## The writer -/

theorem writeLsa_isOk
    (h : NODE_ID_LEN + (attrsWire (rootView false dw.myid lsa.root)).length ≤ 65536 - 128) :
    ∃ bytes, writeLsa dw lsa = .ok bytes := by
  have hmax : SIZE_MAX = 2 ^ 64 - 1 := rfl
  have hid : NODE_ID_LEN = 32 := rfl
  have htotal := length_lsaWire lsa.id (rootView false dw.myid lsa.root)
  have hint := length_intBytes_le
    (NODE_ID_LEN + (attrsWire (rootView false dw.myid lsa.root)).length)
  unfold writeLsa
  dsimp only
  rw [lsaSerialiseLength_eq (by omega), ok_bind, if_neg (by omega), lsaSerialise_take _ (by omega)]
  simp only [ok_bind]
  rw [if_neg (by omega)]
  exact ⟨_, rfl⟩

/-- The withdrawal of the old LSA always has room. -/
theorem withdraw_isOk (dw : DgpWriter) (old : Option Lsa) :
    ∃ bytes, dgpWriterOutputLsa dw old none = .ok bytes := by
  unfold dgpWriterOutputLsa
  rw [dgpWriterMap, pure_eq_ok, ok_bind]
  rcases dgpWriterMap_isOk dw old with hold | hold
  · exact ⟨[], by rw [hold]; rfl⟩
  · rw [hold, ok_bind]
    cases old with
    | none => exact ⟨[], rfl⟩
    | some old =>
      refine writeLsa_isOk ?_
      simp [rootView, viewOf, attrsWire, NODE_ID_LEN]

theorem output_isOk (h : ∀ lsa, new = some lsa →
    NODE_ID_LEN + (attrsWire (rootView false dw.myid lsa.root)).length ≤ 65536 - 128) :
    ∃ bytes, dgpWriterOutputLsa dw old new = .ok bytes := by
  cases new with
  | none => exact withdraw_isOk dw old
  | some lsa =>
    rcases dgpWriterMap_isOk dw (some lsa) with hnew | hnew
    · have hkept : dgpWriterOutputLsa dw old (some lsa) = dgpWriterOutputLsa dw old none := by
        rw [dgpWriterOutputLsa, dgpWriterOutputLsa, hnew, dgpWriterMap, pure_eq_ok]
        rfl
      rw [hkept]
      exact withdraw_isOk dw old
    · unfold dgpWriterOutputLsa
      rw [hnew, ok_bind]
      exact writeLsa_isOk (h lsa rfl)

/-! ## Within the size of an LSA -/

theorem room_of_size (h : Accounted lsa) (hb : lsa.bytes + NODE_ID_LEN ≤ LSA_MAX_BYTES) (so : Bool)
    (preid : Option NodeId) :
    NODE_ID_LEN + (attrsWire (rootView so preid lsa.root)).length ≤ 65536 - 128 := by
  have hmax : LSA_MAX_BYTES = 32768 := rfl
  have hle := length_lsaWire_rootView_le h (by omega) so preid
  rw [length_lsaWire] at hle
  omega

theorem bytes_of_accepts {c : Crypto} {myid remoteid : Option NodeId}
    (h : accepts c myid remoteid lsa = .ok true) : lsa.bytes + NODE_ID_LEN ≤ LSA_MAX_BYTES := by
  by_contra hgt
  unfold accepts at h
  rw [if_pos (not_le.mp hgt)] at h
  exact absurd (Except.ok.inj h) Bool.false_ne_true

/-- **The size check bounds the wire form**, whatever is serialised of the LSA and with whatever
`preid`; `map` aborts on no LSA, and the writer on none that `map` lets through. -/
theorem serialise_within_size :
    (∀ lsa : Lsa, Accounted lsa → lsa.bytes + NODE_ID_LEN ≤ LSA_MAX_BYTES → ∀ so preid,
      ∃ serlen n, ∃ wire : Bytes, lsaSerialiseLength lsa so preid = .ok serlen ∧
        (∀ buflen, lsaSerialise buflen serlen lsa so preid = .ok (n, wire.take buflen)) ∧
        n ≤ lsa.bytes + NODE_ID_LEN) ∧
    (∀ lsa : Lsa, Accounted lsa → ∀ c myid remoteid,
      ∃ verdict, accepts c myid remoteid lsa = .ok verdict) ∧
    ∀ dw old new, (∀ lsa, new = some lsa → Accounted lsa ∧
        ∃ c myid remoteid, accepts c myid remoteid lsa = .ok true) →
      ∃ bytes, dgpWriterOutputLsa dw old new = .ok bytes := by
  refine ⟨?_, ?_, ?_⟩
  · intro lsa h hb so preid
    have hmax : LSA_MAX_BYTES = 32768 := rfl
    have hsize : SIZE_MAX = 2 ^ 64 - 1 := rfl
    have hle := length_lsaWire_rootView_le h (by omega) so preid
    have htotal := length_lsaWire lsa.id (rootView so preid lsa.root)
    exact ⟨_, _, lsaWire lsa.id (rootView so preid lsa.root), lsaSerialiseLength_eq (by omega),
      fun buflen => lsaSerialise_take buflen (by omega), by omega⟩
  · exact fun lsa h c myid remoteid =>
      accepts_isOk c myid remoteid fun hb => room_of_size h hb true none
  · intro dw old new h
    refine output_isOk fun lsa hlsa => ?_
    obtain ⟨hacc, c, myid, remoteid, hmap⟩ := h lsa hlsa
    exact room_of_size hacc (bytes_of_accepts hmap) false dw.myid

/-- The LSA of X as M forwards it. -/
theorem serialise_within_size_lsaX : ∃ bytes,
    dgpWriterOutputLsa ⟨some idM, none⟩ none (some lsaX.lsa) = .ok bytes := by
  have haccepts : accepts sampleCrypto (some idM) (some idP) lsaX.lsa = .ok true := by
    rw [accepts_eq sampleCrypto _ _ received_lsaX.wellformed, accepted_lsaX]
  refine serialise_within_size.2.2 ⟨some idM, none⟩ none (some lsaX.lsa) fun lsa h => ?_
  obtain rfl := Option.some.inj h
  exact ⟨received_lsaX.accounted, _, _, _, haccepts⟩

/-! ## Within the length of a message -/

/-- **A message does not grow** when what was read of it is written again, and no attribute of it
is too long for the comparison with what the peer sent before. -/
theorem diff_within_message :
    (∀ buf ret obj, buf.length ≤ 65536 → lsaDeserialise buf = .ok (ret, some obj) →
      (∃ serlen n, ∃ wire : Bytes, lsaSerialiseLength obj.toLsa false none = .ok serlen ∧
        (∀ buflen, lsaSerialise buflen serlen obj.toLsa false none = .ok (n, wire.take buflen)) ∧
        (n : Int) ≤ ret) ∧
      ∀ a ∈ obj.root, ∃ wire, lsaAttrSerialise a = .ok wire ∧ wire.length ≤ 65520) ∧
    ∀ c myid remoteid ops rib es, AdjRun c AdjContract myid remoteid ops rib es →
      ∀ lsa : LsaPtr, Received lsa.lsa →
        (∀ ref ∈ rib.lsas, ∃ diffs, lsaDiff (some ref.lsa) (some lsa.lsa) = .ok diffs) ∧
        ∃ r, adjRibInAddLsa c rib lsa = .ok r := by
  have hcomparable : ∀ {lsa : Lsa}, Wellformed lsa → ∀ a ∈ lsa.root, a.Comparable := by
    intro lsa h a ha
    have hwire := h.wire
    exact comparable_of_wire (by omega) ha
  refine ⟨?_, ?_⟩
  · intro buf ret obj hlen hrun
    have hw := Received.wellformed ⟨buf, ret, obj, hlen, hrun, rfl⟩
    have hwire := hw.wire
    have hmax : SIZE_MAX = 2 ^ 64 - 1 := rfl
    have hid : NODE_ID_LEN = 32 := rfl
    have hint := length_intBytes_le (NODE_ID_LEN + (attrsWire obj.root).length)
    have htotal := length_lsaWire obj.id obj.root
    have hview : rootView false none obj.root = obj.root := rootView_none false obj.root
    have hlength := @lsaSerialiseLength_eq obj.toLsa false none (by rw [hview]; omega)
    have hser := fun buflen =>
      @lsaSerialise_take obj.toLsa false none buflen (by rw [hview]; omega)
    rw [hview] at hlength hser
    exact ⟨⟨_, _, _, hlength, hser, length_lsaWire_read_le hlen hrun⟩,
      fun a ha => ⟨a.wire, lsaAttrSerialise_eq (hcomparable hw a ha), hcomparable hw a ha⟩⟩
  · intro c myid remoteid ops rib es hrun lsa hlsa
    have hi := (AdjRun.follows hrun).inv
    obtain ⟨ret, rib', es', hadd, -⟩ := addLsa_spec hi hlsa.wellformed
    exact ⟨fun ref href => lsaDiff_isOk (hcomparable (hi.wellformed ref href))
      (hcomparable hlsa.wellformed), _, hadd⟩

/-- P sends the LSA of X, and sends it again. -/
theorem diff_within_message_lsaX : ∃ rib es,
    AdjRun sampleCrypto AdjContract (some idM) (some idP) [.addLsa lsaX] rib es ∧
      ∃ r, adjRibInAddLsa sampleCrypto rib lsaX = .ok r := by
  have hc : AdjContract (adjRibInInit (some idM) (some idP)) (.addLsa lsaX) := received_lsaX
  obtain ⟨⟨rib, es⟩, hrun⟩ :=
    adjStep_isOk (adjRibInInit_inv sampleCrypto (some idM) (some idP)) hc
  have hr : AdjRun sampleCrypto AdjContract (some idM) (some idP) [.addLsa lsaX] rib _ :=
    .snoc .nil hc hrun
  exact ⟨rib, _, hr, (diff_within_message.2 _ _ _ _ _ _ hr lsaX received_lsaX).2⟩

end Dvpn
