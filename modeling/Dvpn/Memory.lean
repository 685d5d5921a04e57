import Dvpn.Basic

/-!
# Arrays

An array or a string is the memory from its pointer on, as far as it belongs to it. What is read or
written behind that is a `Crash`.
-/

namespace Dvpn

/-- Byte `i` of an array or a string. -/
def byteAt (a : Bytes) (i : Nat) : Except Crash UInt8 :=
  match a[i]? with
  | some b => .ok b
  | none => .error .outside

/-- `a[i] |= v`. -/
def orByte (a : Bytes) (i v : Nat) : Except Crash Bytes := do
  let b ← byteAt a i
  return a.set i (UInt8.ofNat (b.toNat ||| v))

/-- `memset`. -/
def memset (a : Bytes) (c : UInt8) (n : Nat) : Except Crash Bytes :=
  if n ≤ a.length then .ok (List.replicate n c ++ a.drop n) else .error .outside

/-- `memcpy` of `data` to `a + off`. -/
def memcpy (a : Bytes) (off : Nat) (data : Bytes) : Except Crash Bytes :=
  if off + data.length ≤ a.length then .ok (a.take off ++ data ++ a.drop (off + data.length))
  else .error .outside

/-- `memmove` of the `n` bytes at `a + off` to `a`. -/
def memmove (a : Bytes) (off n : Nat) : Except Crash Bytes :=
  if off + n ≤ a.length then .ok ((a.drop off).take n ++ a.drop n) else .error .outside

end Dvpn
