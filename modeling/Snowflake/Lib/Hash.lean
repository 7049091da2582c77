import Mathlib
/-
Two interfaces of Go's standard library over byte slices, at the level their documentation
states them. `hash.Hash`: a keyed MAC (as `crypto/hmac` returns) holds the bytes written to it, and
`Sum(b)` "appends the current hash to b and returns the resulting slice". The MAC function itself
is a parameter, so nothing proved here depends on SHA-256. `binary.LittleEndian.Uint64`: the first
eight bytes, least significant first; it panics on a shorter slice.

What a caller needs is `littleEndianUint64_append`: a little-endian read of a sum sees only the
first eight bytes of the slice it was given, when that has eight.
-/

set_option autoImplicit false

namespace GoHash

/-- A keyed `hash.Hash`: the key it was created with and the bytes written to it so far. -/
structure Hash where
  key : List UInt8
  written : List UInt8

/-- `hmac.New(h, key)`: nothing written yet. -/
def new (key : List UInt8) : Hash := ⟨key, []⟩

/-- `Sum(b)`, by the `hash.Hash` contract: `b` with the MAC of the written bytes under the key
appended; the state is unchanged. `mac` is the MAC function (`HMAC-SHA256` for `sha256.New`). -/
def Hash.sum (mac : List UInt8 → List UInt8 → List UInt8) (h : Hash) (b : List UInt8) :
    List UInt8 :=
  b ++ mac h.key h.written

end GoHash

namespace GoBinary

/-- The number with the little-endian bytes `b`. -/
def leValue : List UInt8 → Nat
  | [] => 0
  | x :: xs => x.toNat + 256 * leValue xs

/-- `binary.LittleEndian.Uint64(b)`: the first eight bytes, little-endian; `none` where Go panics,
on fewer than eight. -/
def littleEndianUint64 (b : List UInt8) : Option Nat :=
  if b.length < 8 then none else some (leValue (b.take 8))

/-- A little-endian read of at least eight bytes ignores what follows them. -/
theorem littleEndianUint64_append {b : List UInt8} (hb : 8 ≤ b.length) (c : List UInt8) :
    littleEndianUint64 (b ++ c) = littleEndianUint64 b := by
  have hlen : ¬ (b ++ c).length < 8 := by
    rw [List.length_append]
    omega
  rw [littleEndianUint64, littleEndianUint64, if_neg hlen, if_neg (Nat.not_lt.mpr hb),
    List.take_append_of_le_length hb]

end GoBinary
