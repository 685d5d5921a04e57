import Dvpn.Lsa.RoundTrip

/-!
# The messages between neighbours

What `dgp_writer.c` sends and `dgp_reader.c` reads is a row of messages without a separator: a
keepalive is one zero byte, anything else is an LSA in its wire form. An LSA without attributes
withdraws what was sent before under its id. `DgpMsg` is a message, `encodeAll` the bytes of a row
of messages, and `applyAll` what the row makes of a table from ids to attributes.

* `deserialise_encode`: a message is read back, whatever follows it.
* `deserialise_short`: of a proper prefix of a message `lsa_deserialise` waits for more.
* `encodeAll_split`: bytes that arrive in pieces are whole messages and one such prefix.
-/

namespace Dvpn

/-- A message. -/
inductive DgpMsg where
  | keepalive
  | lsa (id : NodeId) (root : AttrSet)

namespace DgpMsg

/-- The bytes of a message. -/
def encode : DgpMsg → Bytes
  | keepalive => [0]
  | lsa id root => lsaWire id root

/-- What `lsa_deserialise` makes of a message. -/
def decoded : DgpMsg → Option LsaObj
  | keepalive => none
  | lsa id root => some (builtLsa id root)

/-- A message that the writer sends and the reader reads: a tree of the parser's shape, without an
empty set, in the room that the writer has for it. -/
def Valid : DgpMsg → Prop
  | keepalive => True
  | lsa _ root => AttrsWf root ∧ TypesOk root ∧ attrsDepth root ≤ 8 ∧ NoEmptySet root ∧
      NODE_ID_LEN + (attrsWire root).length ≤ 65536 - 128

/-- What the message makes of a table. -/
def apply (t : NodeId → Option AttrSet) : DgpMsg → NodeId → Option AttrSet
  | keepalive => t
  | lsa id root => Function.update t id (if root = [] then none else some root)

end DgpMsg

/-- The bytes of a row of messages. -/
def encodeAll (msgs : List DgpMsg) : Bytes := msgs.flatMap DgpMsg.encode

/-- What a row of messages makes of a table. -/
def applyAll (t : NodeId → Option AttrSet) (msgs : List DgpMsg) : NodeId → Option AttrSet :=
  msgs.foldl DgpMsg.apply t

variable {msg : DgpMsg} {msgs msgs' : List DgpMsg}

@[simp] theorem encodeAll_nil : encodeAll [] = [] := rfl

@[simp] theorem encodeAll_cons : encodeAll (msg :: msgs) = msg.encode ++ encodeAll msgs := rfl

theorem encodeAll_append : encodeAll (msgs ++ msgs') = encodeAll msgs ++ encodeAll msgs' :=
  List.flatMap_append

theorem applyAll_append (t : NodeId → Option AttrSet) :
    applyAll t (msgs ++ msgs') = applyAll (applyAll t msgs) msgs' :=
  List.foldl_append

/-! ## One message -/

theorem length_encode (h : msg.Valid) : 1 ≤ msg.encode.length ∧ msg.encode.length ≤ 65418 := by
  cases msg with
  | keepalive => exact ⟨le_rfl, by simp [DgpMsg.encode]⟩
  | lsa id root =>
    obtain ⟨_, _, _, _, hlen⟩ := h
    have hid : NODE_ID_LEN = 32 := rfl
    have hint := length_intBytes_le (NODE_ID_LEN + (attrsWire root).length)
    rw [DgpMsg.encode, length_lsaWire]
    omega

/-- **A message is read back.** -/
theorem deserialise_encode (h : msg.Valid) (r : Bytes) :
    lsaDeserialise (msg.encode ++ r) = .ok ((msg.encode.length : Int), msg.decoded) := by
  cases msg with
  | keepalive =>
    have hread : srcReadSizeT ([0] ++ r) = .ok (0, r) := rfl
    unfold lsaDeserialise DgpMsg.encode DgpMsg.decoded
    rw [hread]
    simp
  | lsa id root =>
    obtain ⟨hwf, ht, hd, _, hlen⟩ := h
    exact lsaDeserialise_lsaWire id r hwf ht hd (by omega)

theorem length_intBytes_of_append {v : Nat} {a b c : Bytes}
    (h : a ++ b = intBytes v ++ c) : a <+: intBytes v ∧ a ≠ intBytes v ∨
      ∃ a', a = intBytes v ++ a' := by
  rcases List.append_eq_append_iff.mp h with ⟨b', hb, _⟩ | ⟨a', ha, _⟩
  · by_cases he : a = intBytes v
    · exact Or.inr ⟨[], by rw [he, List.append_nil]⟩
    · exact Or.inl ⟨⟨b', hb.symm⟩, he⟩
  · exact Or.inr ⟨a', ha⟩

/-- **Of a proper prefix of a message `lsa_deserialise` waits for more.** -/
theorem deserialise_short (h : msg.Valid) {p q : Bytes} (hp : p ++ q = msg.encode)
    (hlen : p.length < msg.encode.length) : lsaDeserialise p = .ok (0, none) := by
  cases msg with
  | keepalive =>
    have hnil : p = [] := List.eq_nil_of_length_eq_zero (by simpa [DgpMsg.encode] using hlen)
    rw [hnil]
    rfl
  | lsa id root =>
    obtain ⟨_, _, _, _, hroot⟩ := h
    have hid : NODE_ID_LEN = 32 := rfl
    have hlt : NODE_ID_LEN + (attrsWire root).length < 2 ^ 64 := by omega
    have hmax : SSIZE_MAX = 2 ^ 63 - 1 := rfl
    have hint := length_intBytes_le (NODE_ID_LEN + (attrsWire root).length)
    simp only [DgpMsg.encode] at hp hlen
    have hsplit : p ++ q = intBytes (NODE_ID_LEN + (attrsWire root).length) ++
        (id.1 ++ attrsWire root) := by
      rw [hp, lsaWire, List.append_assoc]
    unfold lsaDeserialise
    rcases length_intBytes_of_append hsplit with ⟨hpre, hne⟩ | ⟨rest, rfl⟩
    · -- not even the length has arrived
      rw [srcReadSizeT_eq, srcReadUint64_short hlt hpre hne]
      rfl
    · rw [srcReadSizeT_eq, srcReadUint64_intBytes hlt]
      rw [length_lsaWire] at hlen
      simp only [List.length_append] at hlen ⊢
      rw [if_neg (by omega), if_neg (by omega), if_pos (by omega)]
      rfl

/-! ## A row of messages -/

/-- **Bytes that arrive in pieces**: either the first message has arrived, or a proper prefix of
it. -/
theorem encodeAll_split {src wire : Bytes} (h : src ++ wire = encodeAll (msg :: msgs)) :
    (∃ src', src = msg.encode ++ src' ∧ src' ++ wire = encodeAll msgs) ∨
      (∃ q, src ++ q = msg.encode) ∧ src.length < msg.encode.length := by
  rw [encodeAll_cons] at h
  rcases List.append_eq_append_iff.mp h with ⟨q, hq, hwire⟩ | ⟨src', hsrc, hwire⟩
  · cases q with
    | nil =>
      rw [List.append_nil] at hq
      exact Or.inl ⟨[], by rw [List.append_nil, hq], by simpa using hwire⟩
    | cons b q =>
      refine Or.inr ⟨⟨_, hq.symm⟩, ?_⟩
      rw [hq, List.length_append, List.length_cons]
      omega
  · exact Or.inl ⟨src', hsrc, hwire.symm⟩

end Dvpn
