import Mathlib
import Snowflake.Lib.Io
/-
The chunk format of `common/encapsulation`, as its package doc states it, and what
reading it means for a byte string.

Every chunk starts with a length prefix of one to three bytes: a first byte `dcxxxxxx`
(`d` the data bit, `c` the continuation bit, six value bits) and, while `c` is set,
bytes `cyyyyyyy` with seven value bits each. `LengthPrefix` lists the six formats of the
package doc. It allows non-minimal prefixes, as the doc says it must (`00000100` and
`01000000 00000100` both encode 4).

`viewPrefix` reads the prefix off the front of a byte string, and `decode` is what
`ReadData` is meant to compute from the bytes alone: skip complete padding chunks, then
return the body of the first data chunk, cut to the caller's buffer. The reader model
in `Read.lean` is shown to compute exactly `decode` on every reader whose `io.EOF`
comes apart from the data. This file proves the other half: `decode`'s four outcomes
are the four shapes a stream can have after its leading padding (`decode_eof_iff`,
`decode_data_iff`, `decode_tooLong_iff`, `decode_unexpectedEOF_iff`).
-/

set_option autoImplicit false

namespace Snowflake.Encapsulation

open GoIo

/-- `ErrTooLong`: a length prefix longer than three bytes, or a data length that no
three-byte prefix can encode. -/
def ErrTooLong : Error := .other "length prefix is too long"

/-! ## The grammar of the package doc -/

/-- The six valid length prefixes: `LengthPrefix d n pre` says that `pre` is a prefix
with data bit `d` encoding the length `n`. -/
inductive LengthPrefix : Bool → Nat → List UInt8 → Prop
  | one (b : UInt8) : b &&& 0x40 = 0 →
      LengthPrefix (b &&& 0x80 != 0) (b &&& 0x3f).toNat [b]
  | two (b0 b1 : UInt8) : b0 &&& 0x40 ≠ 0 → b1 &&& 0x80 = 0 →
      LengthPrefix (b0 &&& 0x80 != 0)
        ((b0 &&& 0x3f).toNat * 128 + (b1 &&& 0x7f).toNat) [b0, b1]
  | three (b0 b1 b2 : UInt8) : b0 &&& 0x40 ≠ 0 → b1 &&& 0x80 ≠ 0 → b2 &&& 0x80 = 0 →
      LengthPrefix (b0 &&& 0x80 != 0)
        (((b0 &&& 0x3f).toNat * 128 + (b1 &&& 0x7f).toNat) * 128 + (b2 &&& 0x7f).toNat)
        [b0, b1, b2]

/-- `c` is one complete chunk, data if `d`, with body `body`. -/
def IsChunk (d : Bool) (body c : List UInt8) : Prop :=
  ∃ pre, LengthPrefix d body.length pre ∧ c = pre ++ body

/-- A concatenation of complete padding chunks, possibly none. -/
inductive Paddings : List UInt8 → Prop
  | nil : Paddings []
  | cons {c s : List UInt8} (body : List UInt8) : IsChunk false body c → Paddings s →
      Paddings (c ++ s)

theorem LengthPrefix.length_pos {d : Bool} {n : Nat} {pre : List UInt8}
    (h : LengthPrefix d n pre) : 0 < pre.length := by
  cases h <;> simp

/-! ## Reading a prefix off a byte string -/

/-- What the front of a byte string holds: nothing, a prefix cut short by the end, a
prefix with a fourth byte announced, or a prefix with its data bit, its length and what
follows it. -/
inductive PrefixView where
  | empty
  | cut
  | tooLong (rest : List UInt8)
  | ok (isData : Bool) (n : Nat) (rest : List UInt8)
  deriving DecidableEq, Repr

/-- The length prefix at the front of `s`, byte by byte as the package doc's table
reads: a clear continuation bit ends the prefix, and a third byte with its
continuation bit set would announce a fourth. -/
def viewPrefix : List UInt8 → PrefixView
  | [] => .empty
  | b0 :: t =>
    if b0 &&& 0x40 = 0 then .ok (b0 &&& 0x80 != 0) (b0 &&& 0x3f).toNat t
    else match t with
      | [] => .cut
      | b1 :: t =>
        if b1 &&& 0x80 = 0 then
          .ok (b0 &&& 0x80 != 0) ((b0 &&& 0x3f).toNat * 128 + (b1 &&& 0x7f).toNat) t
        else match t with
          | [] => .cut
          | b2 :: t =>
            if b2 &&& 0x80 = 0 then
              .ok (b0 &&& 0x80 != 0)
                (((b0 &&& 0x3f).toNat * 128 + (b1 &&& 0x7f).toNat) * 128 + (b2 &&& 0x7f).toNat) t
            else .tooLong t

/-- A valid prefix is read back with its meaning, whatever follows it. -/
theorem viewPrefix_append {d : Bool} {n : Nat} {pre : List UInt8} (h : LengthPrefix d n pre)
    (rest : List UInt8) : viewPrefix (pre ++ rest) = .ok d n rest := by
  cases h with
  | one b h0 => simp [viewPrefix, h0]
  | two b0 b1 h0 h1 => simp [viewPrefix, h0, h1]
  | three b0 b1 b2 h0 h1 h2 => simp [viewPrefix, h0, h1, h2]

/-- Whatever `viewPrefix` reads as a prefix is one of the six formats. -/
theorem lengthPrefix_of_viewPrefix {s rest : List UInt8} {d : Bool} {n : Nat}
    (h : viewPrefix s = .ok d n rest) : ∃ pre, LengthPrefix d n pre ∧ s = pre ++ rest := by
  revert h
  -- the three `ok` branches of `viewPrefix` are the three formats
  fun_cases viewPrefix s with
  | case2 b0 t h0 =>
    rintro ⟨⟩
    exact ⟨[b0], .one b0 h0, rfl⟩
  | case4 b0 h0 b1 t h1 =>
    rintro ⟨⟩
    exact ⟨[b0, b1], .two b0 b1 h0 h1, rfl⟩
  | case6 b0 h0 b1 h1 b2 t h2 =>
    rintro ⟨⟩
    exact ⟨[b0, b1, b2], .three b0 b1 b2 h0 h1 h2, rfl⟩
  | _ => rintro ⟨⟩

theorem viewPrefix_chunk {d : Bool} {body c : List UInt8} (h : IsChunk d body c)
    (s : List UInt8) : viewPrefix (c ++ s) = .ok d body.length (body ++ s) := by
  obtain ⟨pre, hp, rfl⟩ := h
  rw [List.append_assoc, viewPrefix_append hp]

theorem viewPrefix_ok_length {s rest : List UInt8} {d : Bool} {n : Nat}
    (h : viewPrefix s = .ok d n rest) : rest.length < s.length := by
  obtain ⟨pre, hp, rfl⟩ := lengthPrefix_of_viewPrefix h
  have := hp.length_pos
  rw [List.length_append]
  omega

/-- The data bit is the top bit of the first byte. -/
theorem viewPrefix_isData {b : UInt8} {t rest : List UInt8} {d : Bool} {n : Nat}
    (h : viewPrefix (b :: t) = .ok d n rest) : d = (b &&& 0x80 != 0) := by
  -- each of the three formats carries the data bit in its first byte
  obtain ⟨pre, hp, hs⟩ := lengthPrefix_of_viewPrefix h
  cases hp with
  | one b0 _ => rw [(List.cons.inj hs).1]
  | two b0 b1 _ _ => rw [(List.cons.inj hs).1]
  | three b0 b1 b2 _ _ _ => rw [(List.cons.inj hs).1]

/-- A prefix that announces a fourth byte is three bytes whose continuation bits are
all set, and `viewPrefix` stops right after them. -/
theorem viewPrefix_tooLong_iff (s rest : List UInt8) :
    viewPrefix s = .tooLong rest ↔ ∃ b0 b1 b2, s = b0 :: b1 :: b2 :: rest ∧
      b0 &&& 0x40 ≠ 0 ∧ b1 &&& 0x80 ≠ 0 ∧ b2 &&& 0x80 ≠ 0 := by
  constructor
  · fun_cases viewPrefix s with
    | case7 b0 h0 b1 h1 b2 t h2 =>
      rintro ⟨⟩
      exact ⟨b0, b1, b2, rfl, h0, h1, h2⟩
    | _ => rintro ⟨⟩
  · rintro ⟨b0, b1, b2, rfl, h0, h1, h2⟩
    simp [viewPrefix, h0, h1, h2]

/-! ## Decoding a stream -/

/-- One `ReadData` call, stated on the stream's bytes: the bytes copied into the
caller's buffer, the error, and the bytes left unread. -/
structure Decoded where
  data : List UInt8
  err : Option Error
  rest : List UInt8
  deriving DecidableEq, Repr

/-- What `ReadData` is meant to compute on the byte string `s` with a buffer of `cap`
bytes: padding chunks are skipped, the first data chunk's body is cut to `cap` bytes,
and a stream that ends inside a prefix or a body is an unexpected end. -/
def decode (s : List UInt8) (cap : Nat) : Decoded :=
  match h : viewPrefix s with
  | .empty => ⟨[], some .eof, []⟩
  | .cut => ⟨[], some .unexpectedEOF, []⟩
  | .tooLong rest => ⟨[], some ErrTooLong, rest⟩
  | .ok true n rest =>
    if n ≤ rest.length then
      ⟨rest.take (min cap n), if n ≤ cap then none else some .shortBuffer, rest.drop n⟩
    else ⟨rest.take (min cap n), some .unexpectedEOF, []⟩
  | .ok false n rest =>
    if n ≤ rest.length then decode (rest.drop n) cap
    else ⟨[], some .unexpectedEOF, []⟩
termination_by s.length
decreasing_by
  have := viewPrefix_ok_length h
  simp only [List.length_drop]
  omega

theorem decode_of_empty {s : List UInt8} (h : viewPrefix s = .empty) (cap : Nat) :
    decode s cap = ⟨[], some .eof, []⟩ := by
  unfold decode
  split <;> simp_all

theorem decode_of_cut {s : List UInt8} (h : viewPrefix s = .cut) (cap : Nat) :
    decode s cap = ⟨[], some .unexpectedEOF, []⟩ := by
  unfold decode
  split <;> simp_all

theorem decode_of_tooLong {s rest : List UInt8} (h : viewPrefix s = .tooLong rest) (cap : Nat) :
    decode s cap = ⟨[], some ErrTooLong, rest⟩ := by
  unfold decode
  split <;> simp_all

theorem decode_of_data {s rest : List UInt8} {n : Nat} (h : viewPrefix s = .ok true n rest)
    (cap : Nat) :
    decode s cap = if n ≤ rest.length then
        ⟨rest.take (min cap n), if n ≤ cap then none else some .shortBuffer, rest.drop n⟩
      else ⟨rest.take (min cap n), some .unexpectedEOF, []⟩ := by
  unfold decode
  split <;> simp_all

theorem decode_of_padding {s rest : List UInt8} {n : Nat} (h : viewPrefix s = .ok false n rest)
    (cap : Nat) :
    decode s cap = if n ≤ rest.length then decode (rest.drop n) cap
      else ⟨[], some .unexpectedEOF, []⟩ := by
  rw [decode]
  split <;> simp_all

/-! ## Skipping padding -/

/-- `s` is complete padding chunks followed by a string with property `Q`. -/
def AfterPaddings (Q : List UInt8 → Prop) (s : List UInt8) : Prop :=
  ∃ P t, Paddings P ∧ s = P ++ t ∧ Q t

/-- At a complete padding chunk, what follows the leading padding is either the stream
itself or what follows the padding after this chunk. The first chunk of a padding
concatenation is the one `viewPrefix` reads, so the two readings agree. -/
theorem afterPaddings_of_padding {Q : List UInt8 → Prop} {s rest : List UInt8} {n : Nat}
    (h : viewPrefix s = .ok false n rest) (hn : n ≤ rest.length) :
    AfterPaddings Q s ↔ Q s ∨ AfterPaddings Q (rest.drop n) := by
  constructor
  · rintro ⟨P, t, hP, rfl, hQ⟩
    cases hP with
    | nil => exact .inl hQ
    | cons body hc hP' =>
      rename_i c P'
      rw [List.append_assoc, viewPrefix_chunk hc] at h
      injection h with _ hlen hrest
      subst hlen hrest
      exact .inr ⟨P', t, hP', by rw [List.drop_left], hQ⟩
  · rintro (hQ | ⟨P, t, hP, ht, hQ⟩)
    · exact ⟨[], s, .nil, rfl, hQ⟩
    · obtain ⟨pre, hp, rfl⟩ := lengthPrefix_of_viewPrefix h
      have hc : IsChunk false (rest.take n) (pre ++ rest.take n) :=
        ⟨pre, by rwa [List.length_take, Nat.min_eq_left hn], rfl⟩
      refine ⟨(pre ++ rest.take n) ++ P, t, .cons _ hc hP, ?_, hQ⟩
      rw [List.append_assoc, List.append_assoc, ← ht, List.take_append_drop]

/-- Where no complete padding chunk starts, there is no leading padding to skip. -/
theorem afterPaddings_of_not_padding {Q : List UInt8 → Prop} {s : List UInt8}
    (h : ∀ n rest, viewPrefix s = .ok false n rest → rest.length < n) :
    AfterPaddings Q s ↔ Q s := by
  constructor
  · rintro ⟨P, t, hP, rfl, hQ⟩
    cases hP with
    | nil => exact hQ
    | cons body hc hP' =>
      rename_i c P'
      have hv := viewPrefix_chunk hc (P' ++ t)
      rw [← List.append_assoc] at hv
      have := h _ _ hv
      simp only [List.length_append] at this
      omega
  · intro hQ
    exact ⟨[], s, .nil, rfl, hQ⟩

theorem paddings_iff_afterPaddings (s : List UInt8) :
    Paddings s ↔ AfterPaddings (· = []) s := by
  constructor
  · intro h
    exact ⟨s, [], h, (List.append_nil s).symm, rfl⟩
  · rintro ⟨P, t, hP, rfl, rfl⟩
    rwa [List.append_nil]

theorem viewPrefix_nil_iff (s : List UInt8) : viewPrefix s = .empty ↔ s = [] := by
  constructor
  · fun_cases viewPrefix s with
    | case1 => intro _; rfl
    | _ => rintro ⟨⟩
  · rintro rfl
    rfl

/-- A stream that ends inside a length prefix: one or two bytes with their continuation
bits set. -/
theorem viewPrefix_cut_iff (s : List UInt8) :
    viewPrefix s = .cut ↔ (∃ b0, s = [b0] ∧ b0 &&& 0x40 ≠ 0) ∨
      (∃ b0 b1, s = [b0, b1] ∧ b0 &&& 0x40 ≠ 0 ∧ b1 &&& 0x80 ≠ 0) := by
  constructor
  · -- the two `cut` branches: the stream ends after the first byte or after the second
    fun_cases viewPrefix s with
    | case3 b0 h0 => intro _; exact .inl ⟨b0, rfl, h0⟩
    | case5 b0 h0 b1 h1 => intro _; exact .inr ⟨b0, b1, rfl, h0, h1⟩
    | _ => rintro ⟨⟩
  · rintro (⟨b0, rfl, h0⟩ | ⟨b0, b1, rfl, h0, h1⟩)
    · simp [viewPrefix, h0]
    · simp [viewPrefix, h0, h1]

/-! ## The four outcomes of `decode` -/

/-- A stream that ends inside a length prefix (a non-empty proper prefix of a valid
prefix) or inside a chunk body (a valid prefix followed by fewer bytes than it
announces). -/
def EndsInside (t : List UInt8) : Prop :=
  (∃ d n pre, LengthPrefix d n pre ∧ t <+: pre ∧ t ≠ [] ∧ t.length < pre.length) ∨
  (∃ d n pre part, LengthPrefix d n pre ∧ t = pre ++ part ∧ part.length < n)

/-- The prefix view of a stream that ends inside a chunk. -/
theorem endsInside_iff (t : List UInt8) :
    EndsInside t ↔ viewPrefix t = .cut ∨
      ∃ d n rest, viewPrefix t = .ok d n rest ∧ rest.length < n := by
  rw [viewPrefix_cut_iff]
  constructor
  · rintro (⟨d, n, pre, hp, hpre, hne, hlt⟩ | ⟨d, n, pre, part, hp, rfl, hlt⟩)
    · -- a proper prefix of a prefix: one byte of a longer prefix, or two of a three-byte one
      rw [List.prefix_iff_eq_take] at hpre
      have hpos : 0 < t.length := List.length_pos_iff.mpr hne
      cases hp with
      | one b h0 =>
        simp only [List.length_singleton] at hlt
        omega
      | two b0 b1 h0 h1 =>
        simp only [List.length_cons, List.length_nil] at hlt
        have ht : t = [b0] := by rw [hpre, show t.length = 1 by omega]; rfl
        exact .inl (.inl ⟨b0, ht, h0⟩)
      | three b0 b1 b2 h0 h1 h2 =>
        simp only [List.length_cons, List.length_nil] at hlt
        by_cases h1len : t.length = 1
        · have ht : t = [b0] := by rw [hpre, h1len]; rfl
          exact .inl (.inl ⟨b0, ht, h0⟩)
        · have ht : t = [b0, b1] := by rw [hpre, show t.length = 2 by omega]; rfl
          exact .inl (.inr ⟨b0, b1, ht, h0, h1⟩)
    · exact .inr ⟨d, n, part, viewPrefix_append hp part, hlt⟩
  · rintro ((⟨b0, rfl, h0⟩ | ⟨b0, b1, rfl, h0, h1⟩) | ⟨d, n, rest, h, hlt⟩)
    · exact .inl ⟨_, _, [b0, 0], .two b0 0 h0 (by decide), ⟨[0], rfl⟩, List.cons_ne_nil _ _,
        by simp⟩
    · exact .inl ⟨_, _, [b0, b1, 0], .three b0 b1 0 h0 h1 (by decide), ⟨[0], rfl⟩,
        List.cons_ne_nil _ _, by simp⟩
    · obtain ⟨pre, hp, rfl⟩ := lengthPrefix_of_viewPrefix h
      exact .inr ⟨d, n, pre, rest, hp, rfl, hlt⟩

theorem ne_nil_of_viewPrefix {s : List UInt8} {v : PrefixView} (h : viewPrefix s = v)
    (hv : v ≠ .empty) : s ≠ [] := by
  rintro rfl
  exact hv h.symm

theorem not_padding_of_viewPrefix {s : List UInt8} {v : PrefixView} (h : viewPrefix s = v)
    (hv : ∀ n rest, v ≠ .ok false n rest) :
    ∀ n rest, viewPrefix s = .ok false n rest → rest.length < n :=
  fun n rest h' => absurd (h.symm.trans h') (hv n rest)

/-- A padding chunk whose body the stream cuts short is not a complete chunk. -/
theorem not_padding_of_short {s rest : List UInt8} {n : Nat}
    (h : viewPrefix s = .ok false n rest) (hn : ¬ n ≤ rest.length) :
    ∀ n' r', viewPrefix s = .ok false n' r' → r'.length < n' := by
  intro n' r' h'
  rw [h] at h'
  injection h' with _ h1 h2
  subst h1 h2
  omega

/-- (a) `decode` reports `io.EOF` exactly on streams of complete padding chunks. The
induction follows `decode`: at a padding chunk both sides move past it, and anywhere
else the stream would have to be empty. -/
theorem decode_eof_iff (s : List UInt8) (cap : Nat) :
    (decode s cap).err = some .eof ↔ Paddings s := by
  rw [paddings_iff_afterPaddings]
  fun_induction decode s cap with
  | case1 s h =>
    obtain rfl := (viewPrefix_nil_iff s).mp h
    exact iff_of_true rfl ⟨[], [], .nil, rfl, rfl⟩
  | case2 s h =>
    rw [afterPaddings_of_not_padding (not_padding_of_viewPrefix h (by simp))]
    exact iff_of_false (by simp) (ne_nil_of_viewPrefix h (by simp))
  | case3 s rest h =>
    rw [afterPaddings_of_not_padding (not_padding_of_viewPrefix h (by simp))]
    exact iff_of_false (by simp [ErrTooLong]) (ne_nil_of_viewPrefix h (by simp))
  | case4 s n rest h hn =>
    rw [afterPaddings_of_not_padding (not_padding_of_viewPrefix h (by simp))]
    refine iff_of_false ?_ (ne_nil_of_viewPrefix h (by simp))
    split_ifs <;> simp
  | case5 s n rest h hn =>
    rw [afterPaddings_of_not_padding (not_padding_of_viewPrefix h (by simp))]
    exact iff_of_false (by simp) (ne_nil_of_viewPrefix h (by simp))
  | case6 s n rest h hn ih =>
    rw [afterPaddings_of_padding h hn, ← ih]
    simp [ne_nil_of_viewPrefix h (by simp)]
  | case7 s n rest h hn =>
    rw [afterPaddings_of_not_padding (not_padding_of_short h hn)]
    exact iff_of_false (by simp) (ne_nil_of_viewPrefix h (by simp))

/-- The stream starts with a complete data chunk of body `body`, and `o` is its body cut
to `cap` bytes with everything after the chunk left unread. -/
def DataThen (o : Decoded) (cap : Nat) (t : List UInt8) : Prop :=
  ∃ D body rest, IsChunk true body D ∧ t = D ++ rest ∧ o.data = body.take cap ∧ o.rest = rest

theorem viewPrefix_of_dataThen {o : Decoded} {cap : Nat} {t : List UInt8}
    (h : DataThen o cap t) : ∃ body rest, viewPrefix t = .ok true body.length (body ++ rest) ∧
      o.data = body.take cap ∧ o.rest = rest := by
  obtain ⟨D, body, rest, hc, rfl, hd, hr⟩ := h
  exact ⟨body, rest, viewPrefix_chunk hc rest, hd, hr⟩

theorem not_dataThen_of_viewPrefix {o : Decoded} {cap : Nat} {s : List UInt8} {v : PrefixView}
    (h : viewPrefix s = v) (hv : ∀ n rest, v ≠ .ok true n rest) : ¬ DataThen o cap s := by
  intro hd
  obtain ⟨body, rest, hv', -⟩ := viewPrefix_of_dataThen hd
  exact hv _ _ (h.symm.trans hv')

/-- (b) `decode` returns data, whole or cut to the buffer, exactly when complete padding
chunks are followed by a complete data chunk; the data is the chunk's body cut to `cap`
bytes, and exactly the padding and the chunk are consumed. -/
theorem decode_data_iff (s : List UInt8) (cap : Nat) :
    ((decode s cap).err = none ∨ (decode s cap).err = some .shortBuffer) ↔
      AfterPaddings (DataThen (decode s cap) cap) s := by
  fun_induction decode s cap with
  | case1 s h =>
    rw [afterPaddings_of_not_padding (not_padding_of_viewPrefix h (by simp))]
    exact iff_of_false (by simp) (not_dataThen_of_viewPrefix h (by simp))
  | case2 s h =>
    rw [afterPaddings_of_not_padding (not_padding_of_viewPrefix h (by simp))]
    exact iff_of_false (by simp) (not_dataThen_of_viewPrefix h (by simp))
  | case3 s rest h =>
    rw [afterPaddings_of_not_padding (not_padding_of_viewPrefix h (by simp))]
    exact iff_of_false (by simp [ErrTooLong]) (not_dataThen_of_viewPrefix h (by simp))
  | case4 s n rest h hn =>
    rw [afterPaddings_of_not_padding (not_padding_of_viewPrefix h (by simp))]
    refine iff_of_true (by split_ifs <;> simp) ?_
    -- the chunk is the prefix `viewPrefix` read and the next `n` bytes
    obtain ⟨pre, hp, rfl⟩ := lengthPrefix_of_viewPrefix h
    have hlen : (rest.take n).length = n := by rw [List.length_take]; omega
    refine ⟨pre ++ rest.take n, rest.take n, rest.drop n, ⟨pre, by rwa [hlen], rfl⟩, ?_, ?_, rfl⟩
    · rw [List.append_assoc, List.take_append_drop]
    · rw [List.take_take, Nat.min_comm]
  | case5 s n rest h hn =>
    rw [afterPaddings_of_not_padding (not_padding_of_viewPrefix h (by simp))]
    refine iff_of_false (by simp) ?_
    intro hd
    obtain ⟨body, rest', hv, -⟩ := viewPrefix_of_dataThen hd
    rw [h] at hv
    injection hv with _ h1 h2
    subst h1 h2
    simp at hn
  | case6 s n rest h hn ih =>
    rw [afterPaddings_of_padding h hn, ← ih]
    simp [not_dataThen_of_viewPrefix h (by simp)]
  | case7 s n rest h hn =>
    rw [afterPaddings_of_not_padding (not_padding_of_short h hn)]
    exact iff_of_false (by simp) (not_dataThen_of_viewPrefix h (by simp))

/-- On complete padding chunks, a complete data chunk and anything after it, `decode` returns
the chunk's body cut to the buffer, `io.ErrShortBuffer` exactly when it was cut, and leaves
what follows the chunk. The induction is on the padding, one chunk skipped per step. -/
theorem decode_paddings_chunk {P D body : List UInt8} (hP : Paddings P)
    (hD : IsChunk true body D) (rest : List UInt8) (cap : Nat) :
    decode (P ++ D ++ rest) cap =
      ⟨body.take cap, if body.length ≤ cap then none else some .shortBuffer, rest⟩ := by
  induction hP with
  | nil =>
    rw [List.nil_append, decode_of_data (viewPrefix_chunk hD rest),
      if_pos (by simp only [List.length_append]; omega)]
    -- the data is read from the body alone, which the prefix announced in full
    have htake : (body ++ rest).take (min cap body.length) = body.take cap := by
      rw [List.take_append_of_le_length (Nat.min_le_right _ _), ← List.take_eq_take_min]
    rw [htake, List.drop_left]
  | cons body' hc hP' ih =>
    rw [List.append_assoc, List.append_assoc, decode_of_padding (viewPrefix_chunk hc _),
      if_pos (by simp only [List.length_append]; omega), List.drop_left, ← List.append_assoc]
    exact ih

/-- (c) `decode` reports `ErrTooLong` exactly when the leading padding is followed by
three bytes that all announce one more. -/
theorem decode_tooLong_iff (s : List UInt8) (cap : Nat) :
    (decode s cap).err = some ErrTooLong ↔
      AfterPaddings (fun t => ∃ rest, viewPrefix t = .tooLong rest) s := by
  fun_induction decode s cap with
  | case1 s h =>
    rw [afterPaddings_of_not_padding (not_padding_of_viewPrefix h (by simp))]
    exact iff_of_false (by simp [ErrTooLong]) (by simp [h])
  | case2 s h =>
    rw [afterPaddings_of_not_padding (not_padding_of_viewPrefix h (by simp))]
    exact iff_of_false (by simp [ErrTooLong]) (by simp [h])
  | case3 s rest h =>
    rw [afterPaddings_of_not_padding (not_padding_of_viewPrefix h (by simp))]
    exact iff_of_true rfl ⟨rest, h⟩
  | case4 s n rest h hn =>
    rw [afterPaddings_of_not_padding (not_padding_of_viewPrefix h (by simp))]
    refine iff_of_false ?_ (by simp [h])
    split_ifs <;> simp [ErrTooLong]
  | case5 s n rest h hn =>
    rw [afterPaddings_of_not_padding (not_padding_of_viewPrefix h (by simp))]
    exact iff_of_false (by simp [ErrTooLong]) (by simp [h])
  | case6 s n rest h hn ih =>
    rw [afterPaddings_of_padding h hn, ← ih]
    simp [h]
  | case7 s n rest h hn =>
    rw [afterPaddings_of_not_padding (not_padding_of_short h hn)]
    exact iff_of_false (by simp [ErrTooLong]) (by simp [h])

/-- (d) `decode` reports `io.ErrUnexpectedEOF` exactly when the stream ends inside a
length prefix or inside a chunk body after its leading padding. -/
theorem decode_unexpectedEOF_iff (s : List UInt8) (cap : Nat) :
    (decode s cap).err = some .unexpectedEOF ↔ AfterPaddings EndsInside s := by
  fun_induction decode s cap with
  | case1 s h =>
    rw [afterPaddings_of_not_padding (not_padding_of_viewPrefix h (by simp)), endsInside_iff]
    exact iff_of_false (by simp) (by simp [h])
  | case2 s h =>
    rw [afterPaddings_of_not_padding (not_padding_of_viewPrefix h (by simp)), endsInside_iff]
    exact iff_of_true rfl (.inl h)
  | case3 s rest h =>
    rw [afterPaddings_of_not_padding (not_padding_of_viewPrefix h (by simp)), endsInside_iff]
    exact iff_of_false (by simp [ErrTooLong]) (by simp [h])
  | case4 s n rest h hn =>
    rw [afterPaddings_of_not_padding (not_padding_of_viewPrefix h (by simp)), endsInside_iff]
    refine iff_of_false (by split_ifs <;> simp) ?_
    simp only [h, reduceCtorEq, PrefixView.ok.injEq, false_or, not_exists, not_and]
    rintro d n' r' ⟨-, rfl, rfl⟩
    omega
  | case5 s n rest h hn =>
    rw [afterPaddings_of_not_padding (not_padding_of_viewPrefix h (by simp)), endsInside_iff]
    exact iff_of_true rfl (.inr ⟨true, n, rest, h, by omega⟩)
  | case6 s n rest h hn ih =>
    rw [afterPaddings_of_padding h hn, ← ih, endsInside_iff]
    have : ¬ (viewPrefix s = .cut ∨ ∃ d n' r', viewPrefix s = .ok d n' r' ∧ r'.length < n') := by
      simp only [h, reduceCtorEq, PrefixView.ok.injEq, false_or, not_exists, not_and]
      rintro d n' r' ⟨-, rfl, rfl⟩
      omega
    rw [or_iff_right this]
  | case7 s n rest h hn =>
    rw [afterPaddings_of_not_padding (not_padding_of_short h hn), endsInside_iff]
    exact iff_of_true rfl (.inr ⟨false, n, rest, h, by omega⟩)

/-- `io.EOF` and `ErrTooLong` come with no data. -/
theorem decode_data_nil {s : List UInt8} {cap : Nat}
    (h : (decode s cap).err = some .eof ∨ (decode s cap).err = some ErrTooLong) :
    (decode s cap).data = [] := by
  fun_induction decode s cap with
  | case4 s n rest hv hn =>
    exfalso
    split_ifs at h <;> simp [ErrTooLong] at h
  | case5 s n rest hv hn => simp [ErrTooLong] at h
  | case6 s n rest hv hn ih => exact ih h
  | _ => rfl

/-! ## Decoding well-formed streams -/

/-- Complete padding chunks in front of a stream change nothing about what is decoded. -/
theorem decode_paddings_append {P : List UInt8} (hP : Paddings P) (t : List UInt8) (cap : Nat) :
    decode (P ++ t) cap = decode t cap := by
  induction hP with
  | nil => rfl
  | @cons c s body hc _ ih =>
    have hv := viewPrefix_chunk hc (s ++ t)
    rw [List.append_assoc, decode_of_padding hv, if_pos (by simp), List.drop_left, ih]

/-- A complete data chunk at the front of a stream is returned, cut to the buffer, and
exactly the chunk is consumed. -/
theorem decode_chunk_append {d c : List UInt8} (hc : IsChunk true d c) (t : List UInt8)
    (cap : Nat) :
    decode (c ++ t) cap =
      ⟨d.take cap, if d.length ≤ cap then none else some .shortBuffer, t⟩ := by
  rw [decode_of_data (viewPrefix_chunk hc t), if_pos (by simp),
    List.take_append_of_le_length (Nat.min_le_right _ _), ← List.take_eq_take_min,
    List.drop_left]

/-- What `viewPrefix` reads at the front of `t` it reads at the front of `t ++ u`. -/
theorem viewPrefix_ok_append {t rest : List UInt8} {d : Bool} {n : Nat}
    (h : viewPrefix t = .ok d n rest) (u : List UInt8) :
    viewPrefix (t ++ u) = .ok d n (rest ++ u) := by
  obtain ⟨pre, hp, rfl⟩ := lengthPrefix_of_viewPrefix h
  rw [List.append_assoc, viewPrefix_append hp]

/-- **Decoding is prefix-closed.** A call that succeeds on the front `t` of a stream
succeeds the same way on the whole stream, with the bytes after `t` left unread: a reader
that stopped early never made a successful call return something else. -/
theorem decode_prefix (t u : List UInt8) (cap : Nat) :
    ((decode t cap).err = none ∨ (decode t cap).err = some .shortBuffer) →
      decode (t ++ u) cap = ⟨(decode t cap).data, (decode t cap).err, (decode t cap).rest ++ u⟩ := by
  fun_induction decode t cap with
  | case1 s h => simp
  | case2 s h => simp
  | case3 s rest h => simp [ErrTooLong]
  | case4 s n rest h hn =>
    -- a complete data chunk stays the first complete data chunk
    intro _
    rw [decode_of_data (viewPrefix_ok_append h u), if_pos (by simp; omega),
      List.take_append_of_le_length (by omega), List.drop_append_of_le_length hn]
  | case5 s n rest h hn => simp
  | case6 s n rest h hn ih =>
    intro hok
    rw [decode_of_padding (viewPrefix_ok_append h u), if_pos (by simp; omega),
      List.drop_append_of_le_length hn]
    exact ih hok
  | case7 s n rest h hn => simp

end Snowflake.Encapsulation
