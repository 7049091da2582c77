import Mathlib
import Snowflake.Lib.Json
/-
Concrete `Codec`s: compact JSON text for objects of scalar members, and a parser for the
text it writes. They show that `Codec.Lawful` can be met, and concrete messages are
computed with them.

Strings are written byte for byte between quotes, with `"` and `\` escaped by a backslash
and the control bytes as `\u00XX`; integers in decimal; a value nothing looks into as
`[]`. The parser reads this text back (`unmarshal_marshal`), and reads `{}` as the empty
object. It accepts no whitespace, which `Marshal` never writes.

`json.Marshal` also reads each string rune by rune and writes U+FFFD for every byte that
starts no valid UTF-8 encoding; `coercingJson` does that before writing, so a string that
is not UTF-8 is read back changed (`coerceUTF8`).
-/

set_option autoImplicit false

namespace GoJson

namespace Compact

/-! ## Writing -/

/-- A hex digit, lower case. -/
def hexDigit (n : Nat) : UInt8 :=
  if n < 10 then UInt8.ofNat (48 + n) else UInt8.ofNat (87 + n)

/-- The text of one byte inside a string. -/
def escapeByte (b : UInt8) : List UInt8 :=
  if b = 0x22 then [0x5c, 0x22]
  else if b = 0x5c then [0x5c, 0x5c]
  else if b < 0x20 then [0x5c, 0x75, 0x30, 0x30, hexDigit (b.toNat / 16), hexDigit (b.toNat % 16)]
  else [b]

/-- A string between quotes. -/
def quote (s : List UInt8) : List UInt8 := 0x22 :: (s.flatMap escapeByte ++ [0x22])

/-- The decimal digits of `n`, most significant first. -/
def digitsOf (n : Nat) : List UInt8 :=
  if n = 0 then [0x30] else (Nat.digits 10 n).reverse.map fun d => UInt8.ofNat (48 + d)

def printInt : Int → List UInt8
  | .ofNat m => digitsOf m
  | .negSucc m => 0x2d :: digitsOf (m + 1)

def printValue : Value → List UInt8
  | .null => [0x6e, 0x75, 0x6c, 0x6c]
  | .bool true => [0x74, 0x72, 0x75, 0x65]
  | .bool false => [0x66, 0x61, 0x6c, 0x73, 0x65]
  | .number n => printInt n
  | .string s => quote s
  | .other => [0x5b, 0x5d]

/-- The members, separated by commas. -/
def printMembers : Object → List UInt8
  | [] => []
  | [(k, v)] => quote k ++ 0x3a :: printValue v
  | (k, v) :: m :: o => quote k ++ 0x3a :: printValue v ++ 0x2c :: printMembers (m :: o)

def marshal (o : Object) : List UInt8 := 0x7b :: (printMembers o ++ [0x7d])

/-! ## Reading -/

def hexValue (b : UInt8) : Option Nat :=
  if 48 ≤ b ∧ b ≤ 57 then some (b.toNat - 48)
  else if 97 ≤ b ∧ b ≤ 102 then some (b.toNat - 87)
  else none

/-- The escape after a backslash: `\"`, `\\` or `\u00XX`, and what follows it. -/
def parseEscape : List UInt8 → Option (UInt8 × List UInt8)
  | [] => none
  | e :: t =>
    if e = 0x22 ∨ e = 0x5c then some (e, t)
    else if e = 0x75 then
      match t with
      | z1 :: z2 :: h1 :: h2 :: t' =>
        if z1 = 0x30 ∧ z2 = 0x30 then
          match hexValue h1, hexValue h2 with
          | some a, some c => some (UInt8.ofNat (16 * a + c), t')
          | _, _ => none
        else none
      | _ => none
    else none

theorem parseEscape_length {l t : List UInt8} {c : UInt8} (h : parseEscape l = some (c, t)) :
    t.length < l.length := by
  match l, h with
  | e :: t₀, h =>
    simp only [parseEscape] at h
    split_ifs at h with h1 h2
    · cases h
      simp
    · split at h
      · split_ifs at h
        split at h
        · cases h
          simp only [List.length_cons]
          omega
        · cases h
      · cases h

/-- A string after its opening quote: its bytes up to the closing quote, and what follows. -/
def parseStringBody (l : List UInt8) : Option (List UInt8 × List UInt8) :=
  match l with
  | [] => none
  | b :: t =>
    if b = 0x22 then some ([], t)
    else if b = 0x5c then
      match h : parseEscape t with
      | some (c, t') => (parseStringBody t').map fun r => (c :: r.1, r.2)
      | none => none
    else if b < 0x20 then none
    else (parseStringBody t).map fun r => (b :: r.1, r.2)
termination_by l.length
decreasing_by
  · have := parseEscape_length h
    simp only [List.length_cons]
    omega
  · simp

def isDigit (b : UInt8) : Bool := 48 ≤ b && b ≤ 57

/-- The value of a run of digits, most significant first. -/
def digitsValue (ds : List UInt8) : Nat := ds.foldl (fun acc b => acc * 10 + (b.toNat - 48)) 0

/-- A number: an optional minus sign and a run of digits. -/
def parseNumber (l : List UInt8) : Option (Int × List UInt8) :=
  match l with
  | [] => none
  | b :: t =>
    if b = 0x2d then
      if (t.takeWhile isDigit).isEmpty then none
      else some (-(digitsValue (t.takeWhile isDigit) : Int), t.dropWhile isDigit)
    else if (l.takeWhile isDigit).isEmpty then none
    else some (digitsValue (l.takeWhile isDigit), l.dropWhile isDigit)

def parseValue (l : List UInt8) : Option (Value × List UInt8) :=
  match l with
  | [] => none
  | b :: t =>
    if b = 0x22 then (parseStringBody t).map fun r => (.string r.1, r.2)
    else if b = 0x6e ∧ t.take 3 = [0x75, 0x6c, 0x6c] then some (.null, t.drop 3)
    else if b = 0x74 ∧ t.take 3 = [0x72, 0x75, 0x65] then some (.bool true, t.drop 3)
    else if b = 0x66 ∧ t.take 4 = [0x61, 0x6c, 0x73, 0x65] then some (.bool false, t.drop 4)
    else if b = 0x5b ∧ t.take 1 = [0x5d] then some (.other, t.drop 1)
    else (parseNumber l).map fun r => (.number r.1, r.2)

/-- One member, `"key":value`. -/
def parseMember (l : List UInt8) : Option ((List UInt8 × Value) × List UInt8) :=
  match l with
  | [] => none
  | b :: t =>
    if b = 0x22 then
      match parseStringBody t with
      | some (k, c :: t') => if c = 0x3a then (parseValue t').map fun r => ((k, r.1), r.2) else none
      | _ => none
    else none

/-- Members separated by commas up to the closing brace, with `fuel` members at most. -/
def parseMembers : Nat → List UInt8 → Option (Object × List UInt8)
  | 0, _ => none
  | fuel + 1, l =>
    match parseMember l with
    | some (m, c :: t) =>
      if c = 0x2c then (parseMembers fuel t).map fun r => (m :: r.1, r.2)
      else if c = 0x7d then some ([m], t)
      else none
    | _ => none

def unmarshal (l : List UInt8) : Option Object :=
  match l with
  | [] => none
  | b :: t =>
    if b = 0x7b then
      if t = [0x7d] then some []
      else
        match parseMembers l.length t with
        | some (o, []) => some o
        | _ => none
    else none

end Compact

/-- Compact JSON text. Unlike `json.Marshal`, it writes `<`, `>` and `&` as they are, where
`Marshal` escapes them as `\u003c`, `\u003e` and `\u0026`; the text differs, the object read
back does not. -/
def compactJson : Codec := ⟨Compact.marshal, Compact.unmarshal⟩

/-- Every text it writes starts with `{`. -/
theorem compactJson_marshal_ne_nil (o : Object) : compactJson.marshal o ≠ [] :=
  List.cons_ne_nil _ _

namespace Compact

/-! ## Strings read back -/

theorem hex_escape : ∀ b : UInt8, b < 0x20 →
    hexValue (hexDigit (b.toNat / 16)) = some (b.toNat / 16) ∧
      hexValue (hexDigit (b.toNat % 16)) = some (b.toNat % 16) ∧
      UInt8.ofNat (16 * (b.toNat / 16) + b.toNat % 16) = b := by
  decide +kernel

/-- A backslash and an escape that reads as `c` stand for `c`. -/
theorem parseStringBody_of_escape {t t' : List UInt8} {c : UInt8} (h : parseEscape t = some (c, t')) :
    parseStringBody (0x5c :: t) = (parseStringBody t').map fun r => (c :: r.1, r.2) := by
  rw [parseStringBody, if_neg (by decide), if_pos rfl]
  split <;> simp_all

/-- One escaped byte is read back as that byte. -/
theorem parseStringBody_escapeByte (b : UInt8) (t : List UInt8) :
    parseStringBody (escapeByte b ++ t) = (parseStringBody t).map fun r => (b :: r.1, r.2) := by
  unfold escapeByte
  by_cases h1 : b = 0x22
  · subst h1
    rw [if_pos rfl, List.cons_append, parseStringBody_of_escape]
    simp [parseEscape]
  by_cases h2 : b = 0x5c
  · subst h2
    rw [if_neg h1, if_pos rfl, List.cons_append, parseStringBody_of_escape]
    simp [parseEscape]
  by_cases h3 : b < 0x20
  · -- a control byte, as `\u00XX`
    obtain ⟨e1, e2, e3⟩ := hex_escape b h3
    rw [if_neg h1, if_neg h2, if_pos h3, List.cons_append, parseStringBody_of_escape]
    simp [parseEscape, e1, e2, e3]
  · rw [if_neg h1, if_neg h2, if_neg h3, List.singleton_append, parseStringBody]
    simp [h1, h2, h3]

theorem parseStringBody_quote (s rest : List UInt8) :
    parseStringBody (s.flatMap escapeByte ++ 0x22 :: rest) = some (s, rest) := by
  induction s with
  | nil =>
    rw [List.flatMap_nil, List.nil_append, parseStringBody]
    simp
  | cons b s ih => rw [List.flatMap_cons, List.append_assoc, parseStringBody_escapeByte, ih]; rfl

/-! ## Numbers read back -/

theorem foldl_digits (L : List Nat) (hL : ∀ d ∈ L, d < 10) (a : Nat) :
    ((L.reverse.map fun d => UInt8.ofNat (48 + d)).foldl
        (fun acc b => acc * 10 + (b.toNat - 48)) a) = a * 10 ^ L.length + Nat.ofDigits 10 L := by
  induction L generalizing a with
  | nil => simp
  | cons d L ih =>
    have hd : d < 10 := hL d List.mem_cons_self
    have hb : (UInt8.ofNat (48 + d)).toNat - 48 = d := by
      rw [UInt8.toNat_ofNat', Nat.mod_eq_of_lt (by omega)]; omega
    rw [List.reverse_cons, List.map_append, List.foldl_append,
      ih (fun d' h => hL d' (List.mem_cons_of_mem _ h))]
    simp only [List.map_cons, List.map_nil, List.foldl_cons, List.foldl_nil, hb,
      List.length_cons, Nat.ofDigits_cons, pow_succ]
    ring

theorem digitsValue_digitsOf (n : Nat) : digitsValue (digitsOf n) = n := by
  unfold digitsOf digitsValue
  split_ifs with h
  · subst h; rfl
  · rw [foldl_digits _ (fun d hd => Nat.digits_lt_base (by norm_num) hd), Nat.zero_mul,
      Nat.zero_add, Nat.ofDigits_digits]

theorem isDigit_digitsOf (n : Nat) : ∀ b ∈ digitsOf n, isDigit b = true := by
  unfold digitsOf
  split_ifs
  · simp [isDigit]
  · intro b hb
    obtain ⟨d, hd, rfl⟩ := List.mem_map.mp hb
    have : d < 10 := Nat.digits_lt_base (by norm_num) (List.mem_reverse.mp hd)
    simp only [isDigit, Bool.and_eq_true, decide_eq_true_eq]
    -- the byte is `48 + d` with `d < 10`, so its value is below 256
    constructor <;> rw [UInt8.le_iff_toNat_le, UInt8.toNat_ofNat', Nat.mod_eq_of_lt (by omega)]
    · simp
    · simp only [UInt8.reduceToNat]
      omega

theorem digitsOf_ne_nil (n : Nat) : digitsOf n ≠ [] := by
  unfold digitsOf
  split_ifs with h
  · simp
  · rw [Ne, List.map_eq_nil_iff, List.reverse_eq_nil_iff]
    exact Nat.digits_ne_nil_iff_ne_zero.mpr h

/-- What follows a value in the text: a comma or the closing brace. -/
def Delimited (rest : List UInt8) : Prop := ∃ t, rest = 0x2c :: t ∨ rest = 0x7d :: t

theorem takeWhile_digitsOf (n : Nat) {rest : List UInt8} (hr : Delimited rest) :
    (digitsOf n ++ rest).takeWhile isDigit = digitsOf n ∧
      (digitsOf n ++ rest).dropWhile isDigit = rest := by
  have hd := isDigit_digitsOf n
  obtain ⟨t, rfl | rfl⟩ := hr <;>
  · constructor
    · rw [List.takeWhile_append_of_pos hd]; simp [isDigit]
    · rw [List.dropWhile_append_of_pos hd]; simp [isDigit]

theorem parseNumber_printInt (n : Int) {rest : List UInt8} (hr : Delimited rest) :
    parseNumber (printInt n ++ rest) = some (n, rest) := by
  cases n with
  | ofNat m =>
    obtain ⟨h1, h2⟩ := takeWhile_digitsOf m hr
    obtain ⟨b, t, hbt⟩ := List.exists_cons_of_ne_nil (digitsOf_ne_nil m)
    have hb : b ≠ 0x2d := by
      have := isDigit_digitsOf m b (by rw [hbt]; exact List.mem_cons_self)
      intro h; subst h; simp [isDigit] at this
    have hne : (digitsOf m).isEmpty = false := List.isEmpty_eq_false_iff.mpr (digitsOf_ne_nil m)
    rw [printInt, hbt, List.cons_append, parseNumber, if_neg hb, ← List.cons_append, ← hbt, h1,
      h2, hne, digitsValue_digitsOf]
    rfl
  | negSucc m =>
    obtain ⟨h1, h2⟩ := takeWhile_digitsOf (m + 1) hr
    have hne : (digitsOf (m + 1)).isEmpty = false :=
      List.isEmpty_eq_false_iff.mpr (digitsOf_ne_nil _)
    rw [printInt, List.cons_append, parseNumber, if_pos rfl, h1, h2, hne, digitsValue_digitsOf,
      Int.negSucc_eq]
    simp

/-! ## Values and members read back -/

theorem parseValue_printValue (v : Value) {rest : List UInt8} (hr : Delimited rest) :
    parseValue (printValue v ++ rest) = some (v, rest) := by
  cases v with
  | null => simp [printValue, parseValue]
  | bool b => cases b <;> simp [printValue, parseValue]
  | number n =>
    -- a number starts with a digit or a minus sign, which no other value does
    rw [printValue]
    have hp := parseNumber_printInt n hr
    cases n with
    | ofNat m =>
      obtain ⟨b, t, hbt⟩ := List.exists_cons_of_ne_nil (digitsOf_ne_nil m)
      have hb := isDigit_digitsOf m b (by rw [hbt]; exact List.mem_cons_self)
      simp only [printInt] at hp ⊢
      rw [hbt, List.cons_append] at hp
      rw [hbt]
      simp only [isDigit, Bool.and_eq_true, decide_eq_true_eq] at hb
      have n22 : b ≠ 0x22 := by rintro rfl; simp at hb
      have n6e : b ≠ 0x6e := by rintro rfl; simp at hb
      have n74 : b ≠ 0x74 := by rintro rfl; simp at hb
      have n66 : b ≠ 0x66 := by rintro rfl; simp at hb
      have n5b : b ≠ 0x5b := by rintro rfl; simp at hb
      simp only [List.cons_append, parseValue, if_neg n22, n6e, n74, n66, n5b, false_and,
        if_false, hp, Option.map_some]
    | negSucc m =>
      simp only [printInt] at hp ⊢
      simp only [List.cons_append, parseValue] at hp ⊢
      simp [hp]
  | string s =>
    simp only [printValue, quote, List.cons_append, List.append_assoc, List.nil_append, parseValue]
    rw [if_pos trivial, parseStringBody_quote]
    rfl
  | other => simp [printValue, parseValue]

theorem parseMember_print (k : List UInt8) (v : Value) {rest : List UInt8} (hr : Delimited rest) :
    parseMember (quote k ++ 0x3a :: (printValue v ++ rest)) = some ((k, v), rest) := by
  simp only [quote, List.cons_append, List.append_assoc, List.nil_append, parseMember]
  rw [if_pos trivial, parseStringBody_quote]
  simp only [if_pos, parseValue_printValue v hr, Option.map_some]

theorem parseMembers_printMembers (m : List UInt8 × Value) (o : Object) (rest : List UInt8)
    (fuel : Nat) (hf : o.length < fuel) :
    parseMembers fuel (printMembers (m :: o) ++ 0x7d :: rest) = some (m :: o, rest) := by
  induction o generalizing m fuel with
  | nil =>
    obtain ⟨k, v⟩ := m
    obtain ⟨f, rfl⟩ : ∃ f, fuel = f + 1 := ⟨fuel - 1, by simp at hf; omega⟩
    simp only [printMembers, List.append_assoc, List.cons_append, parseMembers]
    rw [parseMember_print k v ⟨rest, .inr rfl⟩]
    simp
  | cons m' o ih =>
    obtain ⟨k, v⟩ := m
    obtain ⟨f, rfl⟩ : ∃ f, fuel = f + 1 := ⟨fuel - 1, by simp at hf; omega⟩
    have hf' : o.length < f := by simp at hf; omega
    have ih' := ih m' f hf'
    simp only [printMembers, List.append_assoc, List.cons_append, parseMembers]
    rw [parseMember_print k v ⟨_, .inl rfl⟩]
    simp only [if_pos, ih']
    rfl

/-! ## The codec is lawful -/

/-- Every member takes at least one byte of text. -/
theorem length_le_printMembers (m : List UInt8 × Value) (o : Object) :
    o.length ≤ (printMembers (m :: o)).length := by
  induction o generalizing m with
  | nil => simp
  | cons m' o ih =>
    obtain ⟨k, v⟩ := m
    have := ih m'
    rw [printMembers, List.length_append, List.length_cons, List.length_cons]
    omega

theorem unmarshal_marshal (o : Object) : unmarshal (marshal o) = some o := by
  cases o with
  | nil => rfl
  | cons m o =>
    obtain ⟨k, v⟩ := m
    -- the members' text starts with the key's opening quote, so it is not `{}`
    have hne : printMembers ((k, v) :: o) ++ [0x7d] ≠ [0x7d] := by
      cases o <;> simp [printMembers, quote]
    have hlen : o.length < (0x7b :: (printMembers ((k, v) :: o) ++ [0x7d])).length := by
      have := length_le_printMembers (k, v) o
      simp only [List.length_cons, List.length_append]
      omega
    simp only [unmarshal, marshal, ↓reduceIte, hne, parseMembers_printMembers (k, v) o [] _ hlen]

theorem escapeByte_ne_newline : ∀ b : UInt8, (10 : UInt8) ∉ escapeByte b := by
  decide +kernel

theorem digitsOf_ne_newline (n : Nat) : (10 : UInt8) ∉ digitsOf n := by
  intro h
  have := isDigit_digitsOf n 10 h
  simp [isDigit] at this

theorem quote_ne_newline (s : List UInt8) : (10 : UInt8) ∉ quote s := by
  intro h
  simp only [quote, List.mem_cons, List.mem_append, List.mem_flatMap] at h
  rcases h with h | ⟨b, -, hb⟩ | h
  · simp at h
  · exact escapeByte_ne_newline b hb
  · simp at h

theorem printValue_ne_newline (v : Value) : (10 : UInt8) ∉ printValue v := by
  cases v with
  | null => simp [printValue]
  | bool b => cases b <;> simp [printValue]
  | number n =>
    cases n with
    | ofNat m => exact digitsOf_ne_newline m
    | negSucc m =>
      simp only [printValue, printInt, List.mem_cons]
      rintro (h | h)
      · simp at h
      · exact digitsOf_ne_newline _ h
  | string s => exact quote_ne_newline s
  | other => simp [printValue]

theorem printMembers_ne_newline (o : Object) : (10 : UInt8) ∉ printMembers o := by
  induction o with
  | nil => simp [printMembers]
  | cons m o ih =>
    obtain ⟨k, v⟩ := m
    cases o with
    | nil =>
      simp only [printMembers, List.mem_append, List.mem_cons, not_or]
      exact ⟨quote_ne_newline k, by decide, printValue_ne_newline v⟩
    | cons m' o =>
      simp only [printMembers, List.mem_append, List.mem_cons, not_or] at ih ⊢
      exact ⟨⟨quote_ne_newline k, by decide, printValue_ne_newline v⟩, by decide, ih⟩

end Compact

/-- **Compact JSON is a lawful codec.** -/
theorem compactJson_lawful : compactJson.Lawful where
  unmarshal_marshal o _ := Compact.unmarshal_marshal o
  newline_not_mem o h := by
    simp only [compactJson, Compact.marshal, List.mem_cons, List.mem_append] at h
    rcases h with h | h | h
    · simp at h
    · exact Compact.printMembers_ne_newline o h
    · simp at h
  marshal_nil := by
    rw [str_eq]
    decide

/-! ## Strings that are not UTF-8 -/

/-- `utf8.first` and `utf8.acceptRanges` for a byte that is not ASCII: the length of the
encoding it starts and the range its second byte must lie in, or `none` for a byte that
starts no encoding (a continuation byte, `0xC0`, `0xC1`, or `0xF5` and above). -/
def firstRange (b0 : UInt8) : Option (Nat × UInt8 × UInt8) :=
  if 0xC2 ≤ b0 ∧ b0 ≤ 0xDF then some (2, 0x80, 0xBF)
  else if b0 = 0xE0 then some (3, 0xA0, 0xBF)
  else if 0xE1 ≤ b0 ∧ b0 ≤ 0xEC then some (3, 0x80, 0xBF)
  else if b0 = 0xED then some (3, 0x80, 0x9F)
  else if 0xEE ≤ b0 ∧ b0 ≤ 0xEF then some (3, 0x80, 0xBF)
  else if b0 = 0xF0 then some (4, 0x90, 0xBF)
  else if 0xF1 ≤ b0 ∧ b0 ≤ 0xF3 then some (4, 0x80, 0xBF)
  else if b0 = 0xF4 then some (4, 0x80, 0x8F)
  else none

/-- The length of the rune `utf8.DecodeRune` reads from the byte `b0 ≥ 0x80` followed by `t`,
or `none` where it returns `RuneError` with length 1: a first byte that starts no encoding, a
second byte out of its range, a later byte that is no continuation byte, or too few bytes. -/
def runeSize (b0 : UInt8) (t : List UInt8) : Option Nat :=
  match firstRange b0, t with
  | some (size, lo, hi), b1 :: t' =>
    if b1 < lo ∨ hi < b1 then none
    else if size ≤ 2 then some 2
    else
      match t' with
      | b2 :: t'' =>
        if b2 < 0x80 ∨ 0xBF < b2 then none
        else if size ≤ 3 then some 3
        else
          match t'' with
          | b3 :: _ => if b3 < 0x80 ∨ 0xBF < b3 then none else some 4
          | [] => none
      | [] => none
  | _, _ => none

/-- The string loop of `json.Marshal`, on the bytes it stands for: ASCII and every rune that
decodes are kept, and each byte where `DecodeRuneInString` returns `RuneError` with length 1
becomes U+FFFD, `EF BF BD`, which is what `Unmarshal` reads `\ufffd` as. `pending` counts the
bytes of the current rune still to copy. -/
def coerceFrom : Nat → List UInt8 → List UInt8
  | _, [] => []
  | pending + 1, b :: t => b :: coerceFrom pending t
  | 0, b :: t =>
    if b < 0x80 then b :: coerceFrom 0 t
    else
      match runeSize b t with
      | some size => b :: coerceFrom (size - 1) t
      | none => 0xef :: 0xbf :: 0xbd :: coerceFrom 0 t

/-- The euro sign is kept, and each byte of a rune cut short is replaced. -/
example : coerceFrom 0 [0xe2, 0x82, 0xac, 0xe2, 0x82] =
    [0xe2, 0x82, 0xac, 0xef, 0xbf, 0xbd, 0xef, 0xbf, 0xbd] := by decide

/-- A string as `json.Marshal` writes it: a valid UTF-8 string as it is, which Go's loop copies
rune by rune, and any other with its invalid bytes replaced. -/
def coerceUTF8 (s : List UInt8) : List UInt8 :=
  if ValidUTF8 s then s else coerceFrom 0 s

def Value.coerceUTF8 : Value → Value
  | .string s => .string (GoJson.coerceUTF8 s)
  | v => v

/-- Every key and every string member as `json.Marshal` writes it. -/
def Object.coerceUTF8 (o : Object) : Object :=
  o.map fun m => (GoJson.coerceUTF8 m.1, m.2.coerceUTF8)

theorem coerceUTF8_of_valid {s : List UInt8} (h : ValidUTF8 s) : coerceUTF8 s = s := by
  rw [coerceUTF8, if_pos h]

theorem Object.coerceUTF8_of_valid {o : Object} (h : o.ValidUTF8) : o.coerceUTF8 = o := by
  rw [Object.coerceUTF8]
  conv => rhs; rw [← List.map_id o]
  apply List.map_congr_left
  rintro ⟨k, v⟩ hm
  obtain ⟨hk, hv⟩ := h _ hm
  rw [GoJson.coerceUTF8_of_valid hk]
  cases v with
  | string s => exact congrArg (fun w => (k, Value.string w)) (GoJson.coerceUTF8_of_valid hv)
  | _ => rfl

/-- Compact JSON text of the object `json.Marshal` writes: invalid bytes become U+FFFD. -/
def coercingJson : Codec := ⟨fun o => compactJson.marshal o.coerceUTF8, compactJson.unmarshal⟩

/-- Replacing invalid bytes keeps the laws: on valid UTF-8 it changes nothing. -/
theorem coercingJson_lawful : coercingJson.Lawful where
  unmarshal_marshal o h := by
    change compactJson.unmarshal (compactJson.marshal o.coerceUTF8) = some o
    rw [Object.coerceUTF8_of_valid h]
    exact compactJson_lawful.unmarshal_marshal o h
  newline_not_mem o := compactJson_lawful.newline_not_mem o.coerceUTF8
  marshal_nil := compactJson_lawful.marshal_nil

end GoJson
