import Mathlib
/-
`encoding/base64` of Go, with `StdEncoding`: the alphabet `A-Z a-z 0-9 + /`, and `=` to pad the
last group. `Encode` of a whole slice; `DecodeString` of a padded encoding; the encoder that
`NewEncoder` returns, which keeps a partial group of up to two bytes between writes and flushes it,
padded, on `Close`; and the decoder that `NewDecoder` returns, by what it yields when read to the
end: `DecodeString` of its input with `\r` and `\n` removed.

`decodeString_encode` is the round trip, and `Encoder.writes_close` says that the streaming encoder
writes, over any split of its input into `Write` calls, the encoding of the whole input.
-/

set_option autoImplicit false

namespace GoBase64

/-! ## The alphabet -/

/-- `encodeStd`, `"ABCDEFGHIJKLMNOPQRSTUVWXYZabcdefghijklmnopqrstuvwxyz0123456789+/"`, one
position at a time. -/
def encodeChar (v : Nat) : UInt8 :=
  if v < 26 then UInt8.ofNat (65 + v)
  else if v < 52 then UInt8.ofNat (97 + (v - 26))
  else if v < 62 then UInt8.ofNat (48 + (v - 52))
  else if v = 62 then 43
  else 47

/-- `StdPadding`, `'='`. -/
def padChar : UInt8 := 61

/-- `decodeMap`: the position of a character of the alphabet. -/
def decodeChar (c : UInt8) : Option Nat :=
  if 65 ≤ c ∧ c ≤ 90 then some (c.toNat - 65)
  else if 97 ≤ c ∧ c ≤ 122 then some (c.toNat - 71)
  else if 48 ≤ c ∧ c ≤ 57 then some (c.toNat + 4)
  else if c = 43 then some 62
  else if c = 47 then some 63
  else none

example : (List.range 64).map encodeChar =
    "ABCDEFGHIJKLMNOPQRSTUVWXYZabcdefghijklmnopqrstuvwxyz0123456789+/".toList.map
      fun c => UInt8.ofNat c.toNat := by
  decide

theorem decodeChar_encodeChar_fin : ∀ v : Fin 64, decodeChar (encodeChar v) = some v := by
  decide

theorem decodeChar_encodeChar {v : Nat} (hv : v < 64) : decodeChar (encodeChar v) = some v :=
  decodeChar_encodeChar_fin ⟨v, hv⟩

theorem encodeChar_ne_padChar_fin : ∀ v : Fin 64, encodeChar v ≠ padChar := by
  decide

theorem encodeChar_ne_padChar (v : Nat) : encodeChar (v % 64) ≠ padChar :=
  encodeChar_ne_padChar_fin ⟨v % 64, Nat.mod_lt v (by decide)⟩

/-- A byte that an encoding can hold: a character of the alphabet, or the padding. -/
def IsEncoded (c : UInt8) : Prop := (decodeChar c).isSome ∨ c = padChar

instance (c : UInt8) : Decidable (IsEncoded c) :=
  inferInstanceAs (Decidable ((decodeChar c).isSome ∨ c = padChar))

theorem isEncoded_encodeChar (v : Nat) : IsEncoded (encodeChar (v % 64)) := by
  left
  rw [decodeChar_encodeChar (Nat.mod_lt v (by decide))]
  rfl

/-! ## `Encode` -/

/-- `enc.encode[val>>k&0x3F]`. -/
def sextet (val k : Nat) : UInt8 := encodeChar (val / 2 ^ k % 64)

/-- `Encode(dst, src)` of `StdEncoding`: each group of three bytes as four characters, and a last
group of one or two bytes as two or three characters and the padding. The source computes
`val` with shifts and `|`, which on bytes is this sum. -/
def encode : List UInt8 → List UInt8
  | a :: b :: c :: rest =>
    let val := a.toNat * 2 ^ 16 + b.toNat * 2 ^ 8 + c.toNat
    [sextet val 18, sextet val 12, sextet val 6, sextet val 0] ++ encode rest
  | [a, b] =>
    let val := a.toNat * 2 ^ 16 + b.toNat * 2 ^ 8
    [sextet val 18, sextet val 12, sextet val 6, padChar]
  | [a] =>
    let val := a.toNat * 2 ^ 16
    [sextet val 18, sextet val 12, padChar, padChar]
  | [] => []

theorem encode_append {x : List UInt8} (hx : 3 ∣ x.length) (y : List UInt8) :
    encode (x ++ y) = encode x ++ encode y := by
  induction x using encode.induct with
  | case1 a b c rest ih =>
    have hrest : 3 ∣ rest.length := by
      simp only [List.length_cons] at hx
      omega
    simp only [List.cons_append, encode, ih hrest, List.append_assoc]
  | case2 a b => simp at hx
  | case3 a => simp at hx
  | case4 => rfl

theorem isEncoded_sextet (val k : Nat) : IsEncoded (sextet val k) := isEncoded_encodeChar _

theorem isEncoded_padChar : IsEncoded padChar := Or.inr rfl

theorem isEncoded_of_mem_encode {s : List UInt8} : ∀ c ∈ encode s, IsEncoded c := by
  induction s using encode.induct with
  | case1 a b c rest ih =>
    intro d hd
    simp only [encode, List.cons_append, List.nil_append, List.mem_cons] at hd
    rcases hd with rfl | rfl | rfl | rfl | hd
    · exact isEncoded_sextet _ _
    · exact isEncoded_sextet _ _
    · exact isEncoded_sextet _ _
    · exact isEncoded_sextet _ _
    · exact ih d hd
  | case2 a b =>
    intro d hd
    simp only [encode, List.mem_cons, List.not_mem_nil, or_false] at hd
    rcases hd with rfl | rfl | rfl | rfl
    · exact isEncoded_sextet _ _
    · exact isEncoded_sextet _ _
    · exact isEncoded_sextet _ _
    · exact isEncoded_padChar
  | case3 a =>
    intro d hd
    simp only [encode, List.mem_cons, List.not_mem_nil, or_false] at hd
    rcases hd with rfl | rfl | rfl | rfl
    · exact isEncoded_sextet _ _
    · exact isEncoded_sextet _ _
    · exact isEncoded_padChar
    · exact isEncoded_padChar
  | case4 =>
    intro d hd
    cases hd

/-! ## `DecodeString` -/

/-- The bytes of a decoded group, `val>>16`, `val>>8` and `val` as bytes. -/
def groupBytes (val : Nat) : List UInt8 :=
  [UInt8.ofNat (val / 2 ^ 16), UInt8.ofNat (val / 2 ^ 8), UInt8.ofNat val]

/-- `DecodeString` of `StdEncoding` on an input without line breaks: groups of four characters,
where the last group may end in `==` (one byte) or `=` (two bytes). `none` is the
`CorruptInputError`: a character outside the alphabet, padding anywhere but in the last group, or
an input that ends inside a group. -/
def decodeString : List UInt8 → Option (List UInt8)
  | [] => some []
  | c0 :: c1 :: c2 :: c3 :: rest =>
    match decodeChar c0, decodeChar c1 with
    | some v0, some v1 =>
      if c2 = padChar then
        if c3 = padChar ∧ rest = [] then some ((groupBytes (v0 * 2 ^ 18 + v1 * 2 ^ 12)).take 1)
        else none
      else
        match decodeChar c2 with
        | some v2 =>
          if c3 = padChar then
            if rest = [] then
              some ((groupBytes (v0 * 2 ^ 18 + v1 * 2 ^ 12 + v2 * 2 ^ 6)).take 2)
            else none
          else
            match decodeChar c3 with
            | some v3 =>
              (decodeString rest).map
                (groupBytes (v0 * 2 ^ 18 + v1 * 2 ^ 12 + v2 * 2 ^ 6 + v3) ++ ·)
            | none => none
        | none => none
    | _, _ => none
  | _ => none

theorem decodeChar_encodeChar_mod (v : Nat) : decodeChar (encodeChar (v % 64)) = some (v % 64) :=
  decodeChar_encodeChar (Nat.mod_lt v (by decide))

/-- The sextets of a group put back together. -/
theorem sextets_sum {val : Nat} (h : val < 2 ^ 24) :
    val / 2 ^ 18 % 64 * 2 ^ 18 + val / 2 ^ 12 % 64 * 2 ^ 12 + val / 2 ^ 6 % 64 * 2 ^ 6 +
      val / 2 ^ 0 % 64 = val := by
  omega

theorem groupBytes_bytes (a b c : UInt8) :
    groupBytes (a.toNat * 2 ^ 16 + b.toNat * 2 ^ 8 + c.toNat) = [a, b, c] := by
  have ha := a.toNat_lt
  have hb := b.toNat_lt
  have hc := c.toNat_lt
  have h₁ : UInt8.ofNat ((a.toNat * 2 ^ 16 + b.toNat * 2 ^ 8 + c.toNat) / 2 ^ 16) = a := by
    apply UInt8.toNat_inj.mp
    rw [UInt8.toNat_ofNat']
    omega
  have h₂ : UInt8.ofNat ((a.toNat * 2 ^ 16 + b.toNat * 2 ^ 8 + c.toNat) / 2 ^ 8) = b := by
    apply UInt8.toNat_inj.mp
    rw [UInt8.toNat_ofNat']
    omega
  have h₃ : UInt8.ofNat (a.toNat * 2 ^ 16 + b.toNat * 2 ^ 8 + c.toNat) = c := by
    apply UInt8.toNat_inj.mp
    rw [UInt8.toNat_ofNat']
    omega
  rw [groupBytes, h₁, h₂, h₃]

theorem decodeString_encode (s : List UInt8) : decodeString (encode s) = some s := by
  induction s using encode.induct with
  | case1 a b c rest ih =>
    have ha := a.toNat_lt
    have hb := b.toNat_lt
    have hc := c.toNat_lt
    have hlt : a.toNat * 2 ^ 16 + b.toNat * 2 ^ 8 + c.toNat < 2 ^ 24 := by omega
    have hval := sextets_sum hlt
    simp only [encode, sextet, List.cons_append, List.nil_append, decodeString,
      decodeChar_encodeChar_mod, encodeChar_ne_padChar, if_false, ih, Option.map_some]
    rw [hval, groupBytes_bytes]
    rfl
  | case2 a b =>
    have ha := a.toNat_lt
    have hb := b.toNat_lt
    -- the last sextet is zero, so three sextets carry the two bytes
    have hval : (a.toNat * 2 ^ 16 + b.toNat * 2 ^ 8) / 2 ^ 18 % 64 * 2 ^ 18 +
        (a.toNat * 2 ^ 16 + b.toNat * 2 ^ 8) / 2 ^ 12 % 64 * 2 ^ 12 +
        (a.toNat * 2 ^ 16 + b.toNat * 2 ^ 8) / 2 ^ 6 % 64 * 2 ^ 6 =
        a.toNat * 2 ^ 16 + b.toNat * 2 ^ 8 + (0 : UInt8).toNat := by
      rw [UInt8.toNat_zero]
      omega
    simp only [encode, sextet, decodeString, decodeChar_encodeChar_mod, encodeChar_ne_padChar,
      if_false, if_true, and_self]
    rw [hval, groupBytes_bytes]
    rfl
  | case3 a =>
    have ha := a.toNat_lt
    have hval : a.toNat * 2 ^ 16 / 2 ^ 18 % 64 * 2 ^ 18 + a.toNat * 2 ^ 16 / 2 ^ 12 % 64 * 2 ^ 12 =
        a.toNat * 2 ^ 16 + (0 : UInt8).toNat * 2 ^ 8 + (0 : UInt8).toNat := by
      rw [UInt8.toNat_zero]
      omega
    simp only [encode, sextet, decodeString, decodeChar_encodeChar_mod, if_true, and_self]
    rw [hval, groupBytes_bytes]
    rfl
  | case4 => rfl

/-! ## The streaming encoder -/

/-- The `encoder` that `NewEncoder` returns: the bytes of a partial group, `buf[:nbuf]`. -/
structure Encoder where
  buf : List UInt8
  buf_lt : buf.length < 3

/-- The bytes one pass of the interior loop of `encoder.Write` encodes, out of `len` left:
`len(e.out) / 4 * 3 = 768`, or all whole groups when fewer are left. -/
def chunkLen (len : Nat) : Nat := if 768 > len then len - len % 3 else 768

/-- The interior loop of `encoder.Write`: chunks of `chunkLen` bytes, each encoded into one
write; the trailing fringe is what is left. -/
def interior (p : List UInt8) : List (List UInt8) × List UInt8 :=
  if 3 ≤ p.length then
    let r := interior (p.drop (chunkLen p.length))
    (encode (p.take (chunkLen p.length)) :: r.1, r.2)
  else ([], p)
termination_by p.length
decreasing_by
  simp only [List.length_drop, chunkLen]
  split <;> omega

theorem interior_spec (p : List UInt8) :
    (interior p).1.flatten = encode (p.take (p.length / 3 * 3)) ∧
      (interior p).2 = p.drop (p.length / 3 * 3) := by
  induction p using interior.induct with
  | case1 p h ih =>
    rw [interior, if_pos h]
    -- one pass takes a whole number of groups, no more than there are
    have hnn : 3 ∣ chunkLen p.length ∧ chunkLen p.length ≤ p.length / 3 * 3 := by
      unfold chunkLen
      split <;> omega
    -- the first chunk is a whole number of groups, so its encoding is a prefix
    have htake : p.take (p.length / 3 * 3) =
        p.take (chunkLen p.length) ++ (p.drop (chunkLen p.length)).take ((p.drop (chunkLen p.length)).length / 3 * 3) := by
      rw [List.length_drop, ← List.take_add]
      congr 1
      omega
    have hdrop : p.drop (p.length / 3 * 3) = (p.drop (chunkLen p.length)).drop ((p.drop (chunkLen p.length)).length / 3 * 3) := by
      rw [List.length_drop, List.drop_drop]
      congr 1
      omega
    have hlen : (p.take (chunkLen p.length)).length = (chunkLen p.length) := List.length_take_of_le (by omega)
    refine ⟨?_, ?_⟩
    · rw [List.flatten_cons, ih.1, htake, encode_append (by rw [hlen]; exact hnn.1)]
    · rw [ih.2, hdrop]
  | case2 p h =>
    rw [interior, if_neg h]
    have h0 : p.length / 3 * 3 = 0 := by omega
    rw [h0]
    exact ⟨rfl, rfl⟩

theorem interior_rest_lt (p : List UInt8) : (interior p).2.length < 3 := by
  rw [(interior_spec p).2, List.length_drop]
  omega

def Encoder.empty : Encoder := ⟨[], by decide⟩

/-- `encoder.Write`: fill the partial group from the front of `p` (the leading fringe), encode the
whole groups that follow, and keep the rest (the trailing fringe). The writes it makes
downstream, in order. -/
def Encoder.write (e : Encoder) (p : List UInt8) : Encoder × List (List UInt8) :=
  if e.buf.length > 0 then
    let i := min (3 - e.buf.length) p.length
    let buf := e.buf ++ p.take i
    if h : buf.length < 3 then (⟨buf, h⟩, [])
    else
      let r := interior (p.drop i)
      (⟨r.2, interior_rest_lt _⟩, encode buf :: r.1)
  else
    let r := interior p
    (⟨r.2, interior_rest_lt _⟩, r.1)

/-- `encoder.Close`: the partial group, padded. -/
def Encoder.close (e : Encoder) : List (List UInt8) :=
  if e.buf.length > 0 then [encode e.buf] else []

/-- A write encodes the whole groups of what it has and keeps the rest. -/
theorem Encoder.write_spec (e : Encoder) (p : List UInt8) :
    (e.write p).2.flatten =
        encode ((e.buf ++ p).take ((e.buf ++ p).length / 3 * 3)) ∧
      (e.write p).1.buf = (e.buf ++ p).drop ((e.buf ++ p).length / 3 * 3) := by
  have hbuf := e.buf_lt
  unfold Encoder.write
  dsimp only
  split
  · split
    · -- the group is still partial: nothing is written
      rename_i h
      dsimp only
      simp only [List.length_append, List.length_take] at h
      have hp : p.take (min (3 - e.buf.length) p.length) = p := List.take_of_length_le (by omega)
      have h0 : (e.buf ++ p).length / 3 * 3 = 0 := by
        rw [List.length_append]
        omega
      rw [hp, h0]
      exact ⟨rfl, rfl⟩
    · -- the leading fringe completes a group, and the interior loop takes the rest
      rename_i h
      dsimp only
      simp only [List.length_append, List.length_take] at h
      have hi : min (3 - e.buf.length) p.length = 3 - e.buf.length := by omega
      rw [hi]
      obtain ⟨hws, hrest⟩ := interior_spec (p.drop (3 - e.buf.length))
      have hgroup : (e.buf ++ p.take (3 - e.buf.length)).length = 3 := by
        rw [List.length_append, List.length_take]
        omega
      have hsplit : e.buf ++ p =
          (e.buf ++ p.take (3 - e.buf.length)) ++ p.drop (3 - e.buf.length) := by
        rw [List.append_assoc, List.take_append_drop]
      have hk : (e.buf ++ p).length / 3 * 3 =
          3 + (p.drop (3 - e.buf.length)).length / 3 * 3 := by
        rw [List.length_append, List.length_drop]
        omega
      rw [hk, hsplit, List.take_append, List.drop_append, hgroup,
        List.take_of_length_le (l := e.buf ++ p.take (3 - e.buf.length)) (by rw [hgroup]; omega),
        List.drop_of_length_le (l := e.buf ++ p.take (3 - e.buf.length)) (by rw [hgroup]; omega),
        Nat.add_sub_cancel_left]
      refine ⟨?_, ?_⟩
      · rw [List.flatten_cons, hws,
          encode_append (x := e.buf ++ p.take (3 - e.buf.length)) (by rw [hgroup])]
      · rw [hrest, List.nil_append]
  · -- no partial group: the interior loop takes everything
    rename_i h
    have hnil : e.buf = [] := List.eq_nil_of_length_eq_zero (by omega)
    rw [hnil, List.nil_append]
    exact interior_spec p

theorem Encoder.close_flatten (e : Encoder) : e.close.flatten = encode e.buf := by
  unfold Encoder.close
  split
  · rw [List.flatten_singleton]
  · rename_i h
    rw [List.eq_nil_of_length_eq_zero (by omega : e.buf.length = 0)]
    rfl

/-- `Write` calls one after the other, with the writes they make downstream. -/
def Encoder.writeAll (e : Encoder) : List (List UInt8) → Encoder × List (List UInt8)
  | [] => (e, [])
  | p :: ps =>
    let r := (e.write p).1.writeAll ps
    (r.1, (e.write p).2 ++ r.2)

/-- Over any run of writes, what went downstream is the encoding of a whole number of groups,
and the partial group is the rest of the input. -/
theorem Encoder.writeAll_spec (e : Encoder) (ws : List (List UInt8)) :
    ∃ x, e.buf ++ ws.flatten = x ++ (e.writeAll ws).1.buf ∧ 3 ∣ x.length ∧
      (e.writeAll ws).2.flatten = encode x := by
  induction ws generalizing e with
  | nil => exact ⟨[], by rw [List.flatten_nil, List.append_nil, List.nil_append]; rfl, by simp, rfl⟩
  | cons p ps ih =>
    obtain ⟨hout, hbuf⟩ := e.write_spec p
    obtain ⟨x, hx, hdvd, henc⟩ := ih (e.write p).1
    set q := e.buf ++ p with hq
    refine ⟨q.take (q.length / 3 * 3) ++ x, ?_, ?_, ?_⟩
    · -- the input so far is the groups written by this call, those written after, and the rest
      show e.buf ++ (p ++ ps.flatten) =
        (q.take (q.length / 3 * 3) ++ x) ++ ((e.write p).1.writeAll ps).1.buf
      calc e.buf ++ (p ++ ps.flatten)
          = q.take (q.length / 3 * 3) ++ (q.drop (q.length / 3 * 3) ++ ps.flatten) := by
            rw [← List.append_assoc (List.take _ q), List.take_append_drop, hq,
              List.append_assoc]
        _ = q.take (q.length / 3 * 3) ++ (x ++ ((e.write p).1.writeAll ps).1.buf) := by
            rw [← hbuf, hx]
        _ = (q.take (q.length / 3 * 3) ++ x) ++ ((e.write p).1.writeAll ps).1.buf :=
            (List.append_assoc _ _ _).symm
    · rw [List.length_append, List.length_take]
      have : 3 ∣ min (q.length / 3 * 3) q.length := by
        rw [Nat.min_eq_left (Nat.div_mul_le_self _ _)]
        exact Nat.dvd_mul_left 3 _
      exact Nat.dvd_add this hdvd
    · show ((e.write p).2 ++ ((e.write p).1.writeAll ps).2).flatten = _
      rw [List.flatten_append, hout, henc, encode_append]
      rw [List.length_take, Nat.min_eq_left (Nat.div_mul_le_self _ _)]
      exact Nat.dvd_mul_left 3 _

/-- What the streaming encoder writes over any split of its input, `Close` included, is the
encoding of the whole input. -/
theorem Encoder.writes_close (ws : List (List UInt8)) :
    (Encoder.empty.writeAll ws).2.flatten ++ (Encoder.empty.writeAll ws).1.close.flatten =
      encode ws.flatten := by
  obtain ⟨x, hx, hdvd, henc⟩ := Encoder.empty.writeAll_spec ws
  rw [henc, Encoder.close_flatten, ← encode_append hdvd, ← hx]
  rfl

/-! ## The streaming decoder -/

/-- What the reader that `NewDecoder(StdEncoding, r)` returns yields when read to the end of `r`:
`newlineFilteringReader` drops `\r` and `\n`, and the rest is decoded. -/
def decodeStream (input : List UInt8) : Option (List UInt8) :=
  decodeString (input.filter fun c => c != 13 && c != 10)

theorem not_newline_of_isEncoded : ∀ c : UInt8, IsEncoded c → (c != 13 && c != 10) = true := by
  intro c hc
  -- neither `\r` nor `\n` is in the alphabet or the padding
  have h13 : ¬ IsEncoded 13 := by decide
  have h10 : ¬ IsEncoded 10 := by decide
  rw [Bool.and_eq_true, bne_iff_ne, bne_iff_ne]
  exact ⟨fun h => h13 (h ▸ hc), fun h => h10 (h ▸ hc)⟩

theorem decodeStream_encode (s : List UInt8) : decodeStream (encode s) = some s := by
  unfold decodeStream
  rw [List.filter_eq_self.mpr fun c hc => not_newline_of_isEncoded c (isEncoded_of_mem_encode c hc)]
  exact decodeString_encode s

end GoBase64
