import Mathlib
/-
Unsigned numbers as big-endian bytes, the layout of every integer field of a network header:
`toBytes n x` is the low `n` bytes of `x`, most significant first, and `ofBytes` reads a list
of bytes back. Writing then reading gives the number back modulo `256 ^ n`
(`ofBytes_toBytes`), and reading then writing gives the bytes back (`toBytes_ofBytes`); a
field read off the front of a longer list is the same with whatever follows
(`ofBytes_take_append`).
-/

set_option autoImplicit false

namespace BigEndian

/-- The low `n` bytes of `x`, most significant first. -/
def toBytes : Nat → Nat → List UInt8
  | 0, _ => []
  | n + 1, x => toBytes n (x / 256) ++ [UInt8.ofNat x]

/-- The number that a list of bytes spells, most significant first. -/
def ofBytes (l : List UInt8) : Nat := l.foldl (fun acc b => acc * 256 + b.toNat) 0

@[simp] theorem length_toBytes (n x : Nat) : (toBytes n x).length = n := by
  induction n generalizing x with
  | zero => rfl
  | succ n ih => rw [toBytes, List.length_append, ih, List.length_singleton]

@[simp] theorem ofBytes_nil : ofBytes [] = 0 := rfl

theorem ofBytes_append_singleton (l : List UInt8) (b : UInt8) :
    ofBytes (l ++ [b]) = ofBytes l * 256 + b.toNat := by
  rw [ofBytes, List.foldl_append]
  rfl

/-- Zero bytes in front change nothing. -/
theorem ofBytes_zero_cons (l : List UInt8) : ofBytes (0 :: l) = ofBytes l := by
  induction l using List.reverseRecOn with
  | nil => rfl
  | append_singleton l b ih =>
    rw [← List.cons_append, ofBytes_append_singleton, ofBytes_append_singleton, ih]

theorem ofBytes_toBytes (n x : Nat) : ofBytes (toBytes n x) = x % 256 ^ n := by
  induction n generalizing x with
  | zero => rw [toBytes, ofBytes_nil, pow_zero, Nat.mod_one]
  | succ n ih =>
    have hbyte : (UInt8.ofNat x).toNat = x % 256 := UInt8.toNat_ofNat'
    rw [toBytes, ofBytes_append_singleton, ih, hbyte, pow_succ', Nat.mod_mul]
    omega

theorem ofBytes_lt (l : List UInt8) : ofBytes l < 256 ^ l.length := by
  induction l using List.reverseRecOn with
  | nil => exact Nat.one_pos
  | append_singleton l b ih =>
    have hb := b.toNat_lt
    rw [ofBytes_append_singleton, List.length_append, List.length_singleton, pow_succ]
    omega

theorem toBytes_ofBytes (l : List UInt8) : toBytes l.length (ofBytes l) = l := by
  induction l using List.reverseRecOn with
  | nil => rfl
  | append_singleton l b ih =>
    have hb := b.toNat_lt
    have hdiv : (ofBytes l * 256 + b.toNat) / 256 = ofBytes l := by omega
    rw [List.length_append, List.length_singleton, toBytes, ofBytes_append_singleton, hdiv, ih]
    congr
    apply UInt8.toNat_inj.mp
    rw [UInt8.toNat_ofNat']
    omega

/-- Writing a number that fits gives it back when read. -/
theorem ofBytes_toBytes_of_lt {n x : Nat} (hx : x < 256 ^ n) : ofBytes (toBytes n x) = x := by
  rw [ofBytes_toBytes, Nat.mod_eq_of_lt hx]

/-- A field of `n` bytes read off the front of a longer list. -/
theorem ofBytes_take_append (n x : Nat) (rest : List UInt8) :
    ofBytes ((toBytes n x ++ rest).take n) = x % 256 ^ n := by
  rw [List.take_left' (length_toBytes n x), ofBytes_toBytes]

end BigEndian
