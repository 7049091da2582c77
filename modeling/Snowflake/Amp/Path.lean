import Mathlib
import Snowflake.Lib.Base64URL
/-
`common/amp/path.go`: how the AMP cache rendezvous carries the client's poll request in the
request path. `EncodePath` writes the format indicator `0`, a random cache breaker and then the
data, both in `RawURLEncoding`, with a `/` between them. `DecodePath` drops everything up to the
last `/` after the indicator and decodes what follows.

`lastIndexByte_append_of_not_mem`: the last `/` is the one that comes before an encoding, because
the URL alphabet has no `/` (`slash_not_mem_rawURLEncode`). With the base64 round trip this gives
the path round trip for any text before that `/`, the cache breaker and any directory prefix
included (`decodePath_encodePath`).

Go strings are byte strings here, and `DecodeString`'s `CorruptInputError` is `corruptInput`;
`DecodePath` returns the bytes decoded before such an error too, which its caller in
`broker/amp.go` does not read.
-/

set_option autoImplicit false

namespace Snowflake.Amp

open GoBase64

/-- `strings.LastIndexByte(s, c)`: the index of the last `c` in `s`, `none` for `-1`. -/
def lastIndexByte : List UInt8 → UInt8 → Option Nat
  | [], _ => none
  | b :: s, c =>
    match lastIndexByte s c with
    | some i => some (i + 1)
    | none => if b = c then some 0 else none

theorem lastIndexByte_of_not_mem {s : List UInt8} {c : UInt8} (h : c ∉ s) :
    lastIndexByte s c = none := by
  induction s with
  | nil => rfl
  | cons b s ih =>
    have hb : b ≠ c := fun hb => h (hb ▸ List.mem_cons_self)
    rw [lastIndexByte, ih (fun hs => h (List.mem_cons_of_mem b hs)), if_neg hb]

/-- The last `c` of `s ++ c :: t`, when `t` has none, is the one after `s`. The induction is on
`s`. -/
theorem lastIndexByte_append_of_not_mem (s : List UInt8) {c : UInt8} {t : List UInt8}
    (ht : c ∉ t) : lastIndexByte (s ++ c :: t) c = some s.length := by
  induction s with
  | nil => rw [List.nil_append, lastIndexByte, lastIndexByte_of_not_mem ht, if_pos rfl, List.length_nil]
  | cons b s ih => rw [List.cons_append, lastIndexByte, ih, List.length_cons]

/-- The errors of `DecodePath`. -/
inductive PathError
  /-- `"missing format indicator"`: the path is empty. -/
  | missingFormatIndicator
  /-- `"missing data"`: no `/` after the indicator. -/
  | missingData
  /-- `"unknown format indicator %q"`. -/
  | unknownFormatIndicator (version : UInt8)
  /-- `base64.CorruptInputError`. -/
  | corruptInput
  deriving DecidableEq, Repr

/-- The nine random bytes of `EncodePath`'s `cacheBreaker`. -/
structure CacheBreaker where
  bytes : List UInt8
  length_eq : bytes.length = 9

/-- `EncodePath(data)`, with `cacheBreaker` what `rand.Read` filled it with. -/
def encodePath (cacheBreaker : CacheBreaker) (data : List UInt8) : List UInt8 :=
  [48] ++ rawURLEncode cacheBreaker.bytes ++ [47] ++ rawURLEncode data

/-- `DecodePath(path)`. -/
def decodePath (path : List UInt8) : Except PathError (List UInt8) :=
  match path with
  | [] => .error .missingFormatIndicator
  | version :: rest =>
    if version = 48 then
      match lastIndexByte rest 47 with
      | none => .error .missingData
      | some i =>
        match rawURLDecodeString (rest.drop (i + 1)) with
        | some data => .ok data
        | none => .error .corruptInput
    else .error (.unknownFormatIndicator version)

/-- After the indicator, the text before the last `/` is dropped, whatever it holds. -/
theorem decodePath_slash_rawURLEncode (s data : List UInt8) :
    decodePath ([48] ++ s ++ [47] ++ rawURLEncode data) = .ok data := by
  have hrest : [48] ++ s ++ [47] ++ rawURLEncode data = 48 :: (s ++ 47 :: rawURLEncode data) := by
    simp only [List.cons_append, List.nil_append, List.append_assoc]
  have hdrop : (s ++ 47 :: rawURLEncode data).drop (s.length + 1) = rawURLEncode data := by
    rw [List.drop_append, List.drop_of_length_le (by omega), List.nil_append,
      Nat.add_sub_cancel_left, List.drop_one, List.tail_cons]
  rw [hrest, decodePath, if_pos rfl,
    lastIndexByte_append_of_not_mem s (slash_not_mem_rawURLEncode data)]
  dsimp only
  rw [hdrop, rawURLDecodeString_encode]

theorem decodePath_encodePath (cacheBreaker : CacheBreaker) (s data : List UInt8) :
    decodePath (encodePath cacheBreaker data) = .ok data ∧
      decodePath ([48] ++ s ++ [47] ++ rawURLEncode data) = .ok data :=
  ⟨decodePath_slash_rawURLEncode (rawURLEncode cacheBreaker.bytes) data,
    decodePath_slash_rawURLEncode s data⟩

end Snowflake.Amp
