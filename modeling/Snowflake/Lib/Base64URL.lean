import Mathlib
import Snowflake.Lib.Base64
/-
`encoding/base64` of Go, with `RawURLEncoding`: the URL alphabet `A-Z a-z 0-9 - _`, which differs
from the standard one in its last two characters, and no padding. A last group of one or two bytes
is encoded as two or three characters. `DecodeString` skips `\r` and `\n`, and accepts a last
group of two or three characters; the encoding is not strict, so the bits left over in such a
group are not checked.

`rawURLDecodeString_encode` is the round trip. `slash_not_mem_rawURLEncode`: the encoding holds no
`/`, which lets a `/` delimit it.
-/

set_option autoImplicit false

namespace GoBase64

/-! ## The alphabet -/

/-- `encodeURL`, `"ABCDEFGHIJKLMNOPQRSTUVWXYZabcdefghijklmnopqrstuvwxyz0123456789-_"`, one
position at a time. -/
def encodeURLChar (v : Nat) : UInt8 :=
  if v < 62 then encodeChar v
  else if v = 62 then 45
  else 95

/-- The `decodeMap` of `URLEncoding`. -/
def decodeURLChar (c : UInt8) : Option Nat :=
  if c = 45 then some 62
  else if c = 95 then some 63
  else if c = 43 ∨ c = 47 then none
  else decodeChar c

example : (List.range 64).map encodeURLChar =
    "ABCDEFGHIJKLMNOPQRSTUVWXYZabcdefghijklmnopqrstuvwxyz0123456789-_".toList.map
      fun c => UInt8.ofNat c.toNat := by
  decide

theorem decodeURLChar_encodeURLChar_fin : ∀ v : Fin 64, decodeURLChar (encodeURLChar v) = some v := by
  decide

theorem decodeURLChar_encodeURLChar_mod (v : Nat) :
    decodeURLChar (encodeURLChar (v % 64)) = some (v % 64) :=
  decodeURLChar_encodeURLChar_fin ⟨v % 64, Nat.mod_lt v (by decide)⟩

/-- No character of the URL alphabet is `/`, `\r` or `\n`. -/
theorem encodeURLChar_special_fin : ∀ v : Fin 64,
    encodeURLChar v ≠ 47 ∧ (encodeURLChar v != 13 && encodeURLChar v != 10) = true := by
  decide

theorem encodeURLChar_special (v : Nat) :
    encodeURLChar (v % 64) ≠ 47 ∧ (encodeURLChar (v % 64) != 13 && encodeURLChar (v % 64) != 10) = true :=
  encodeURLChar_special_fin ⟨v % 64, Nat.mod_lt v (by decide)⟩

/-! ## `EncodeToString` -/

/-- `enc.encode[val>>k&0x3F]` of `URLEncoding`. -/
def sextetURL (val k : Nat) : UInt8 := encodeURLChar (val / 2 ^ k % 64)

/-- `EncodeToString` of `RawURLEncoding`: each group of three bytes as four characters, and a last
group of one or two bytes as two or three characters, with no padding. -/
def rawURLEncode : List UInt8 → List UInt8
  | a :: b :: c :: rest =>
    let val := a.toNat * 2 ^ 16 + b.toNat * 2 ^ 8 + c.toNat
    [sextetURL val 18, sextetURL val 12, sextetURL val 6, sextetURL val 0] ++ rawURLEncode rest
  | [a, b] =>
    let val := a.toNat * 2 ^ 16 + b.toNat * 2 ^ 8
    [sextetURL val 18, sextetURL val 12, sextetURL val 6]
  | [a] =>
    let val := a.toNat * 2 ^ 16
    [sextetURL val 18, sextetURL val 12]
  | [] => []

/-- Every character of the encoding is one of the alphabet. -/
theorem mem_rawURLEncode {s : List UInt8} {c : UInt8} (hc : c ∈ rawURLEncode s) :
    ∃ v, c = encodeURLChar (v % 64) := by
  induction s using rawURLEncode.induct with
  | case1 a b d rest ih =>
    simp only [rawURLEncode, sextetURL, List.cons_append, List.nil_append, List.mem_cons] at hc
    rcases hc with rfl | rfl | rfl | rfl | hc
    all_goals first
      | exact ⟨_, rfl⟩
      | exact ih hc
  | case2 a b =>
    simp only [rawURLEncode, sextetURL, List.mem_cons, List.not_mem_nil, or_false] at hc
    rcases hc with rfl | rfl | rfl <;> exact ⟨_, rfl⟩
  | case3 a =>
    simp only [rawURLEncode, sextetURL, List.mem_cons, List.not_mem_nil, or_false] at hc
    rcases hc with rfl | rfl <;> exact ⟨_, rfl⟩
  | case4 => cases hc

theorem slash_not_mem_rawURLEncode (s : List UInt8) : (47 : UInt8) ∉ rawURLEncode s := by
  intro h
  obtain ⟨v, hv⟩ := mem_rawURLEncode h
  exact (encodeURLChar_special v).1 hv.symm

/-! ## `DecodeString` -/

/-- The decoding loop of `RawURLEncoding` on an input without line breaks: groups of four
characters, and a last group of two characters (one byte) or three (two bytes). `none` is the
`CorruptInputError`: a character outside the alphabet, `=` included, or a last group of one
character. -/
def rawURLDecodeGroups : List UInt8 → Option (List UInt8)
  | [] => some []
  | [_] => none
  | [c0, c1] =>
    match decodeURLChar c0, decodeURLChar c1 with
    | some v0, some v1 => some ((groupBytes (v0 * 2 ^ 18 + v1 * 2 ^ 12)).take 1)
    | _, _ => none
  | [c0, c1, c2] =>
    match decodeURLChar c0, decodeURLChar c1, decodeURLChar c2 with
    | some v0, some v1, some v2 =>
      some ((groupBytes (v0 * 2 ^ 18 + v1 * 2 ^ 12 + v2 * 2 ^ 6)).take 2)
    | _, _, _ => none
  | c0 :: c1 :: c2 :: c3 :: rest =>
    match decodeURLChar c0, decodeURLChar c1, decodeURLChar c2, decodeURLChar c3 with
    | some v0, some v1, some v2, some v3 =>
      (rawURLDecodeGroups rest).map (groupBytes (v0 * 2 ^ 18 + v1 * 2 ^ 12 + v2 * 2 ^ 6 + v3) ++ ·)
    | _, _, _, _ => none

/-- `RawURLEncoding.DecodeString(s)`: `\r` and `\n` are skipped wherever they are. -/
def rawURLDecodeString (s : List UInt8) : Option (List UInt8) :=
  rawURLDecodeGroups (s.filter fun c => c != 13 && c != 10)

theorem rawURLDecodeGroups_encode (s : List UInt8) :
    rawURLDecodeGroups (rawURLEncode s) = some s := by
  induction s using rawURLEncode.induct with
  | case1 a b c rest ih =>
    have ha := a.toNat_lt
    have hb := b.toNat_lt
    have hc := c.toNat_lt
    have hlt : a.toNat * 2 ^ 16 + b.toNat * 2 ^ 8 + c.toNat < 2 ^ 24 := by omega
    have hval := sextets_sum hlt
    -- the recursive call is on what follows a whole group, so the output starts with it
    have hgroup : rawURLDecodeGroups (rawURLEncode (a :: b :: c :: rest)) =
        (rawURLDecodeGroups (rawURLEncode rest)).map
          (groupBytes ((a.toNat * 2 ^ 16 + b.toNat * 2 ^ 8 + c.toNat) / 2 ^ 18 % 64 * 2 ^ 18 +
            (a.toNat * 2 ^ 16 + b.toNat * 2 ^ 8 + c.toNat) / 2 ^ 12 % 64 * 2 ^ 12 +
            (a.toNat * 2 ^ 16 + b.toNat * 2 ^ 8 + c.toNat) / 2 ^ 6 % 64 * 2 ^ 6 +
            (a.toNat * 2 ^ 16 + b.toNat * 2 ^ 8 + c.toNat) / 2 ^ 0 % 64) ++ ·) := by
      rw [rawURLEncode]
      simp only [sextetURL, List.cons_append, List.nil_append]
      rw [rawURLDecodeGroups]
      simp only [decodeURLChar_encodeURLChar_mod]
    rw [hgroup, ih, hval, groupBytes_bytes]
    rfl
  | case2 a b =>
    have ha := a.toNat_lt
    have hb := b.toNat_lt
    -- the last sextet is zero, so three sextets carry the two bytes
    have hval : (a.toNat * 2 ^ 16 + b.toNat * 2 ^ 8) / 2 ^ 18 % 64 * 2 ^ 18 +
        (a.toNat * 2 ^ 16 + b.toNat * 2 ^ 8) / 2 ^ 12 % 64 * 2 ^ 12 +
        (a.toNat * 2 ^ 16 + b.toNat * 2 ^ 8) / 2 ^ 6 % 64 * 2 ^ 6 =
        a.toNat * 2 ^ 16 + b.toNat * 2 ^ 8 + (0 : UInt8).toNat := by
      rw [UInt8.toNat_zero]
      omega
    simp only [rawURLEncode, sextetURL, rawURLDecodeGroups, decodeURLChar_encodeURLChar_mod]
    rw [hval, groupBytes_bytes]
    rfl
  | case3 a =>
    have ha := a.toNat_lt
    have hval : a.toNat * 2 ^ 16 / 2 ^ 18 % 64 * 2 ^ 18 + a.toNat * 2 ^ 16 / 2 ^ 12 % 64 * 2 ^ 12 =
        a.toNat * 2 ^ 16 + (0 : UInt8).toNat * 2 ^ 8 + (0 : UInt8).toNat := by
      rw [UInt8.toNat_zero]
      omega
    simp only [rawURLEncode, sextetURL, rawURLDecodeGroups, decodeURLChar_encodeURLChar_mod]
    rw [hval, groupBytes_bytes]
    rfl
  | case4 => rfl

theorem rawURLDecodeString_encode (s : List UInt8) :
    rawURLDecodeString (rawURLEncode s) = some s := by
  have hfilter : (rawURLEncode s).filter (fun c => c != 13 && c != 10) = rawURLEncode s := by
    rw [List.filter_eq_self]
    intro c hc
    obtain ⟨v, rfl⟩ := mem_rawURLEncode hc
    exact (encodeURLChar_special v).2
  rw [rawURLDecodeString, hfilter, rawURLDecodeGroups_encode]

end GoBase64
