import Mathlib
/-
`hex.DecodeString` of Go's `encoding/hex`, over byte strings.

The decoder reads the input two digits at a time; a digit of either case is accepted. The
first byte that is not a digit is reported (`InvalidByteError`), and an input of odd length
whose digits are all valid is `ErrLength`. Only the error and the decoded bytes of a
successful call are modelled: the callers here drop the partial output of a failed one.
-/

set_option autoImplicit false

namespace GoHex

/-- `reverseHexTable`: the value of a hex digit, `0-9`, `a-f` or `A-F`. -/
def fromHexChar (c : UInt8) : Option UInt8 :=
  if 0x30 ≤ c ∧ c ≤ 0x39 then some (c - 0x30)
  else if 0x61 ≤ c ∧ c ≤ 0x66 then some (c - 0x61 + 10)
  else if 0x41 ≤ c ∧ c ≤ 0x46 then some (c - 0x41 + 10)
  else none

/-- The errors of `hex.Decode`. -/
inductive Error where
  /-- `InvalidByteError`. -/
  | invalidByte (b : UInt8)
  /-- `ErrLength`. -/
  | length
  deriving DecidableEq, Repr

/-- `hex.DecodeString`: the bytes, or the first error. -/
def decodeString : List UInt8 → Except Error (List UInt8)
  | [] => .ok []
  | [p] =>
    -- an invalid last digit is reported before the odd length
    match fromHexChar p with
    | none => .error (.invalidByte p)
    | some _ => .error .length
  | p :: q :: t =>
    match fromHexChar p, fromHexChar q with
    | none, _ => .error (.invalidByte p)
    | some _, none => .error (.invalidByte q)
    | some a, some b => (decodeString t).map (((a <<< 4) ||| b) :: ·)

/-- Every byte is a hex digit. -/
def IsHex (s : List UInt8) : Prop := ∀ c ∈ s, (fromHexChar c).isSome

instance (s : List UInt8) : Decidable (IsHex s) :=
  inferInstanceAs (Decidable (∀ c ∈ s, (fromHexChar c).isSome))

/-- Hex digits are ASCII. -/
theorem lt_of_fromHexChar : ∀ c : UInt8, (fromHexChar c).isSome → c < 0x80 := by
  decide +kernel

theorem IsHex.ascii {s : List UInt8} (h : IsHex s) : ∀ c ∈ s, c < 0x80 :=
  fun c hc => lt_of_fromHexChar c (h c hc)

theorem isHex_cons {c : UInt8} {s : List UInt8} :
    IsHex (c :: s) ↔ (fromHexChar c).isSome ∧ IsHex s := by
  simp only [IsHex, List.mem_cons, forall_eq_or_imp]

/-- A decoded string has two digits per byte. -/
theorem decodeString_length {s d : List UInt8} (h : decodeString s = .ok d) :
    s.length = 2 * d.length := by
  induction s using decodeString.induct generalizing d with
  | case1 =>
    cases h
    rfl
  | case2 p hp => simp [decodeString, hp] at h
  | case3 p _ hp => simp [decodeString, hp] at h
  | case4 p q t hp => simp [decodeString, hp] at h
  | case5 p q t _ hp hq => simp [decodeString, hp, hq] at h
  | case6 p q t a b hq hp ih =>
    rw [decodeString, hp, hq] at h
    cases ht : decodeString t with
    | error e => simp [ht, Except.map] at h
    | ok d' =>
      rw [ht] at h
      cases h
      simp only [List.length_cons, ih ht]
      omega

/-- `hex.DecodeString` succeeds exactly on strings of hex digits of even length. -/
theorem decodeString_ok_iff (s : List UInt8) :
    (∃ d, decodeString s = .ok d) ↔ Even s.length ∧ IsHex s := by
  induction s using decodeString.induct with
  | case1 => simp [decodeString, IsHex]
  | case2 p hp => simp [decodeString, hp, isHex_cons]
  | case3 p _ hp => simp [decodeString, hp]
  | case4 p q t hp => simp [decodeString, hp, isHex_cons]
  | case5 p q t _ hp hq => simp [decodeString, hp, hq, isHex_cons]
  | case6 p q t a b hq hp ih =>
    -- two valid digits: the rest decides
    have hmap : (∃ d, (decodeString t).map (((a <<< 4) ||| b) :: ·) = .ok d) ↔
        ∃ d, decodeString t = .ok d := by
      cases decodeString t with
      | error e => simp [Except.map]
      | ok d => simp [Except.map]
    simp only [decodeString, hp, hq, isHex_cons, Option.isSome_some, true_and, List.length_cons,
      Nat.even_add_one, not_not]
    exact hmap.trans ih

end GoHex
