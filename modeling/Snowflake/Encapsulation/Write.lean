import Mathlib
import Snowflake.Lib.Io
import Snowflake.Lib.BitMask
import Snowflake.Encapsulation.Format
/-
The writing half of `common/encapsulation`: `dataPrefixForLength`, `WriteData`,
`WritePadding` and `MaxDataForSize`, over the writers of `Lib/Io.lean`.

The Go code builds prefixes with shifts and masks (`(n>>7)&0x3f`, `0xc0 | byte(...)`);
the translation keeps them, and the byte facts below turn them into the grammar of
`Format.lean`: a data prefix built for `n` is a `LengthPrefix true n`, and a padding
chunk built for a budget of `p` bytes is a complete padding chunk of exactly `p` bytes,
its own prefix included. `WritePadding` cuts a large budget into 1024-byte chunks; every
chunk size it can meet (1 to 1024) takes the one- or two-byte prefix case, so the
three-byte padding case of the `switch` (whose middle byte masks with `0x3f`, not
`0x7f`) is never reached.

Go's `int` lengths are `Nat` here: `len(data)` is never negative, and `WritePadding`
panics on a negative size, which the type excludes.
-/

set_option autoImplicit false

namespace Snowflake.Encapsulation

open GoIo

/-! ## Byte facts -/

/-- A byte below `2 ^ k` is its own low `k` bits. -/
theorem and_low_bits {u : UInt8} {k : Nat} (hu : u.toNat < 2 ^ k) (hk : (2 ^ k - 1) < 256) :
    u &&& UInt8.ofNat (2 ^ k - 1) = u := by
  apply UInt8.toNat_inj.mp
  rw [UInt8.toNat_and, UInt8.toNat_ofNat', Nat.mod_eq_of_lt hk, Nat.and_two_pow_sub_one_eq_mod,
    Nat.mod_eq_of_lt hu]

/-- A byte below `2 ^ 6` has its bits six and seven clear. -/
theorem low6_facts {u : UInt8} (hu : u.toNat < 64) :
    u &&& 0x3f = u ∧ u &&& 0x40 = 0 ∧ u &&& 0x80 = 0 := by
  have h3f : u &&& 0x3f = u := and_low_bits (k := 6) hu (by decide)
  have h40 : (0x3f : UInt8) &&& 0x40 = 0 := by decide
  have h80 : (0x3f : UInt8) &&& 0x80 = 0 := by decide
  refine ⟨h3f, ?_, ?_⟩
  · rw [← h3f, UInt8.and_assoc, h40, UInt8.and_zero]
  · rw [← h3f, UInt8.and_assoc, h80, UInt8.and_zero]

/-- High bits `c` set on a byte below `2 ^ 6`: the low six bits are the byte's, bits six and
seven are `c`'s. -/
theorem or_low6 {c u : UInt8} (hc : c &&& 0x3f = 0) (hu : u.toNat < 64) :
    (c ||| u) &&& 0x3f = u ∧ (c ||| u) &&& 0x40 = c &&& 0x40 ∧ (c ||| u) &&& 0x80 = c &&& 0x80 := by
  obtain ⟨h3f, h40, h80⟩ := low6_facts hu
  rw [BitMask.or_and_distrib, BitMask.or_and_distrib, BitMask.or_and_distrib, hc, h3f, h40, h80,
    UInt8.zero_or, UInt8.or_zero, UInt8.or_zero]
  exact ⟨rfl, rfl, rfl⟩

theorem or_c0_bits : ∀ u : UInt8, u.toNat < 64 →
    (0xc0 ||| u) &&& 0x3f = u ∧ (0xc0 ||| u) &&& 0x40 ≠ 0 ∧ ((0xc0 ||| u) &&& 0x80 != 0) = true := by
  intro u hu
  obtain ⟨h3f, h40, h80⟩ := or_low6 (c := 0xc0) (by decide) hu
  rw [h40, h80]
  exact ⟨h3f, by decide, by decide⟩

theorem or_80_low6_bits : ∀ u : UInt8, u.toNat < 64 →
    (0x80 ||| u) &&& 0x3f = u ∧ (0x80 ||| u) &&& 0x40 = 0 ∧ ((0x80 ||| u) &&& 0x80 != 0) = true := by
  intro u hu
  obtain ⟨h3f, h40, h80⟩ := or_low6 (c := 0x80) (by decide) hu
  rw [h40, h80]
  exact ⟨h3f, by decide, by decide⟩

theorem or_40_bits : ∀ u : UInt8, u.toNat < 64 →
    (0x40 ||| u) &&& 0x3f = u ∧ (0x40 ||| u) &&& 0x40 ≠ 0 ∧ ((0x40 ||| u) &&& 0x80 != 0) = false := by
  intro u hu
  obtain ⟨h3f, h40, h80⟩ := or_low6 (c := 0x40) (by decide) hu
  rw [h40, h80]
  exact ⟨h3f, by decide, by decide⟩

theorem low6_bits : ∀ u : UInt8, u.toNat < 64 →
    u &&& 0x3f = u ∧ u &&& 0x40 = 0 ∧ (u &&& 0x80 != 0) = false := by
  intro u hu
  obtain ⟨h3f, h40, h80⟩ := low6_facts hu
  rw [h80]
  exact ⟨h3f, h40, by decide⟩

theorem low7_bits : ∀ v : UInt8, v.toNat < 128 → v &&& 0x7f = v ∧ v &&& 0x80 = 0 := by
  intro v hv
  have h7f : v &&& 0x7f = v := and_low_bits (k := 7) hv (by decide)
  have h80 : (0x7f : UInt8) &&& 0x80 = 0 := by decide
  refine ⟨h7f, ?_⟩
  rw [← h7f, UInt8.and_assoc, h80, UInt8.and_zero]

theorem or_80_low7_bits : ∀ v : UInt8, v.toNat < 128 →
    (0x80 ||| v) &&& 0x7f = v ∧ (0x80 ||| v) &&& 0x80 ≠ 0 := by
  intro v hv
  obtain ⟨h7f, h80⟩ := low7_bits v hv
  have c7f : (0x80 : UInt8) &&& 0x7f = 0 := by decide
  rw [BitMask.or_and_distrib, BitMask.or_and_distrib, c7f, h7f, h80, UInt8.zero_or, UInt8.or_zero]
  exact ⟨rfl, by decide⟩

theorem toNat_ofNat_of_lt {m : Nat} (h : m < 256) : (UInt8.ofNat m).toNat = m := by
  rw [UInt8.toNat_ofNat']
  exact Nat.mod_eq_of_lt h

/-- The six value bits `(n >> k) & 0x3f` and seven value bits `(n >> k) & 0x7f`. -/
theorem shift_and_3f (n k : Nat) : (n >>> k) &&& 0x3f = n / 2 ^ k % 64 := by
  rw [Nat.shiftRight_eq_div_pow, show (0x3f : Nat) = 2 ^ 6 - 1 from rfl,
    Nat.and_two_pow_sub_one_eq_mod]

theorem shift_and_7f (n k : Nat) : (n >>> k) &&& 0x7f = n / 2 ^ k % 128 := by
  rw [Nat.shiftRight_eq_div_pow, show (0x7f : Nat) = 2 ^ 7 - 1 from rfl,
    Nat.and_two_pow_sub_one_eq_mod]

/-- The `switch` guards: `(n>>k)&0x3f == (n>>k)` says `n` fits in `k + 6` bits. -/
theorem shift_and_3f_eq_iff (n k : Nat) : (n >>> k) &&& 0x3f = n >>> k ↔ n < 2 ^ k * 64 := by
  rw [shift_and_3f, Nat.shiftRight_eq_div_pow]
  constructor
  · intro h
    have : n / 2 ^ k < 64 := by rw [← h]; exact Nat.mod_lt _ (by norm_num)
    exact (Nat.div_lt_iff_lt_mul (Nat.two_pow_pos k)).mp this |>.trans_eq (Nat.mul_comm _ _)
  · intro h
    apply Nat.mod_eq_of_lt
    exact (Nat.div_lt_iff_lt_mul (Nat.two_pow_pos k)).mpr (by rw [Nat.mul_comm]; exact h)

/-! ## `dataPrefixForLength` and `WriteData` -/

/-- `dataPrefixForLength(n)`: the shortest prefix for `n` with the data bit set, or
`ErrTooLong` past twenty bits. -/
def dataPrefixForLength (n : Nat) : Except Error (List UInt8) :=
  if (n >>> 0) &&& 0x3f = n >>> 0 then
    .ok [(0x80 : UInt8) ||| UInt8.ofNat ((n >>> 0) &&& 0x3f)]
  else if (n >>> 7) &&& 0x3f = n >>> 7 then
    .ok [(0xc0 : UInt8) ||| UInt8.ofNat ((n >>> 7) &&& 0x3f), UInt8.ofNat ((n >>> 0) &&& 0x7f)]
  else if (n >>> 14) &&& 0x3f = n >>> 14 then
    .ok [(0xc0 : UInt8) ||| UInt8.ofNat ((n >>> 14) &&& 0x3f),
      (0x80 : UInt8) ||| UInt8.ofNat ((n >>> 7) &&& 0x7f), UInt8.ofNat ((n >>> 0) &&& 0x7f)]
  else .error ErrTooLong

variable {τ : Type}

/-- `WriteData(w, data)`: the prefix, then the data, counting both; the first failing
write ends it. -/
def writeData (w : Writer τ) (st : τ) (data : List UInt8) : WriteOut τ :=
  match dataPrefixForLength data.length with
  | .error e => ⟨0, some e, st⟩
  | .ok pre =>
    match (w.write st pre).err with
    | some e => ⟨(w.write st pre).n, some e, (w.write st pre).next⟩
    | none =>
      ⟨(w.write st pre).n + (w.write (w.write st pre).next data).n,
        (w.write (w.write st pre).next data).err, (w.write (w.write st pre).next data).next⟩

/-- `MaxDataForSize(n)` for `n ≠ 0` (it panics on `0`): the longest data whose chunk
fits in `n` bytes. -/
def maxDataForSize (n : Nat) : Nat :=
  match dataPrefixForLength n with
  | .error _ => (1 <<< (6 + 7 + 7)) - 1 - 3
  | .ok pre => n - pre.length

/-- A data prefix is built for every length below `2^20`: it is a valid prefix for that
length, one, two or three bytes long as the length needs six, thirteen or twenty bits. -/
theorem dataPrefixForLength_ok {n : Nat} (hn : n < 2 ^ 20) :
    ∃ pre, dataPrefixForLength n = .ok pre ∧ LengthPrefix true n pre ∧
      pre.length = (if n < 64 then 1 else if n < 8192 then 2 else 3) := by
  unfold dataPrefixForLength
  simp only [shift_and_3f_eq_iff, Nat.pow_zero, Nat.one_mul]
  by_cases h1 : n < 64
  · rw [if_pos h1]
    refine ⟨_, rfl, ?_, by simp [h1]⟩
    -- one byte: `10xxxxxx`
    have hx : (UInt8.ofNat ((n >>> 0) &&& 0x3f)).toNat = n := by
      rw [toNat_ofNat_of_lt (by rw [shift_and_3f]; omega), shift_and_3f]; omega
    obtain ⟨e1, e2, e3⟩ := or_80_low6_bits (UInt8.ofNat ((n >>> 0) &&& 0x3f)) (by omega)
    have h := LengthPrefix.one _ e2
    rwa [e3, e1, hx] at h
  by_cases h2 : n < 2 ^ 7 * 64
  · rw [if_neg (by omega), if_pos h2]
    refine ⟨_, rfl, ?_, by simp [h1, show n < 8192 by omega]⟩
    -- two bytes: `11xxxxxx 0yyyyyyy`
    have hx : (UInt8.ofNat ((n >>> 7) &&& 0x3f)).toNat = n / 128 := by
      rw [toNat_ofNat_of_lt (by rw [shift_and_3f]; omega), shift_and_3f]; omega
    have hy : (UInt8.ofNat ((n >>> 0) &&& 0x7f)).toNat = n % 128 := by
      rw [toNat_ofNat_of_lt (by rw [shift_and_7f]; omega), shift_and_7f]; omega
    obtain ⟨e1, e2, e3⟩ := or_c0_bits (UInt8.ofNat ((n >>> 7) &&& 0x3f)) (by omega)
    obtain ⟨f1, f2⟩ := low7_bits (UInt8.ofNat ((n >>> 0) &&& 0x7f)) (by omega)
    have h := LengthPrefix.two _ _ e2 f2
    rw [e3, e1, f1, hx, hy] at h
    rwa [show n / 128 * 128 + n % 128 = n by omega] at h
  by_cases h3 : n < 2 ^ 14 * 64
  · rw [if_neg (by omega), if_neg h2, if_pos h3]
    refine ⟨_, rfl, ?_, by simp [h1, show ¬ n < 8192 by omega]⟩
    -- three bytes: `11xxxxxx 1yyyyyyy 0zzzzzzz`
    have hx : (UInt8.ofNat ((n >>> 14) &&& 0x3f)).toNat = n / 16384 := by
      rw [toNat_ofNat_of_lt (by rw [shift_and_3f]; omega), shift_and_3f]; omega
    have hy : (UInt8.ofNat ((n >>> 7) &&& 0x7f)).toNat = n / 128 % 128 := by
      rw [toNat_ofNat_of_lt (by rw [shift_and_7f]; omega), shift_and_7f]; omega
    have hz : (UInt8.ofNat ((n >>> 0) &&& 0x7f)).toNat = n % 128 := by
      rw [toNat_ofNat_of_lt (by rw [shift_and_7f]; omega), shift_and_7f]; omega
    obtain ⟨e1, e2, e3⟩ := or_c0_bits (UInt8.ofNat ((n >>> 14) &&& 0x3f)) (by omega)
    obtain ⟨g1, g2⟩ := or_80_low7_bits (UInt8.ofNat ((n >>> 7) &&& 0x7f)) (by omega)
    obtain ⟨f1, f2⟩ := low7_bits (UInt8.ofNat ((n >>> 0) &&& 0x7f)) (by omega)
    have h := LengthPrefix.three _ _ _ e2 g2 f2
    rw [e3, e1, g1, f1, hx, hy, hz] at h
    rwa [show (n / 16384 * 128 + n / 128 % 128) * 128 + n % 128 = n by omega] at h
  · exfalso
    omega

/-- Past twenty bits there is no prefix. -/
theorem dataPrefixForLength_tooLong {n : Nat} (hn : 2 ^ 20 ≤ n) :
    dataPrefixForLength n = .error ErrTooLong := by
  unfold dataPrefixForLength
  simp only [shift_and_3f_eq_iff]
  rw [if_neg (by omega), if_neg (by omega), if_neg (by omega)]

/-- Data past twenty bits is refused before anything is written. -/
theorem writeData_tooLong (w : Writer τ) (st : τ) {data : List UInt8}
    (hd : 2 ^ 20 ≤ data.length) : writeData w st data = ⟨0, some ErrTooLong, st⟩ := by
  simp only [writeData, dataPrefixForLength_tooLong hd]

/-- `WriteData` into a `bytes.Buffer`: the chunk is appended and its length returned. -/
theorem writeData_buffer (buf data : List UInt8) {pre : List UInt8}
    (h : dataPrefixForLength data.length = .ok pre) :
    writeData Writer.buffer buf data = ⟨pre.length + data.length, none, buf ++ pre ++ data⟩ := by
  simp [writeData, h, Writer.buffer]

/-- `WriteData` of at most `0xfffff` bytes into a `bytes.Buffer` appends one complete data
chunk, the same whatever the buffer holds, with the prefix `dataPrefixForLength` makes, and
returns its length. -/
theorem writeData_buffer_chunk (data : List UInt8) (hd : data.length < 2 ^ 20) :
    ∃ pre, dataPrefixForLength data.length = .ok pre ∧ IsChunk true data (pre ++ data) ∧
      ∀ buf, writeData Writer.buffer buf data = ⟨pre.length + data.length, none, buf ++ (pre ++ data)⟩ := by
  obtain ⟨pre, hpre, hp, -⟩ := dataPrefixForLength_ok hd
  refine ⟨pre, hpre, ⟨pre, hp, rfl⟩, fun buf => ?_⟩
  rw [writeData_buffer buf data hpre, List.append_assoc]

/-! ## `WritePadding` -/

/-- `paddingBuffer`: the 1024 zero bytes that padding bodies are cut from. -/
def paddingBuffer : List UInt8 := List.replicate 1024 0

@[simp] theorem paddingBuffer_length : paddingBuffer.length = 1024 :=
  List.length_replicate

/-- The `switch` of `WritePadding` for a chunk of `p` bytes, prefix included: the prefix
and the new `p`, the body length. The three-byte case masks its middle byte with `0x3f`.
A `p` that no case takes leaves `prefix` nil and `p` as it is. -/
def paddingPrefix (p : Nat) : List UInt8 × Nat :=
  if ((p - 1) >>> 0) &&& 0x3f = (p - 1) >>> 0 then
    ([UInt8.ofNat (((p - 1) >>> 0) &&& 0x3f)], p - 1)
  else if ((p - 2) >>> 7) &&& 0x3f = (p - 2) >>> 7 then
    ([(0x40 : UInt8) ||| UInt8.ofNat (((p - 2) >>> 7) &&& 0x3f),
      UInt8.ofNat (((p - 2) >>> 0) &&& 0x7f)], p - 2)
  else if ((p - 3) >>> 14) &&& 0x3f = (p - 3) >>> 14 then
    ([(0x40 : UInt8) ||| UInt8.ofNat (((p - 3) >>> 14) &&& 0x3f),
      (0x80 : UInt8) ||| UInt8.ofNat (((p - 3) >>> 7) &&& 0x3f),
      UInt8.ofNat (((p - 3) >>> 0) &&& 0x7f)], p - 3)
  else ([], p)

/-- The loop of `WritePadding`: while budget `n` is left, one chunk of at most
`len(paddingBuffer)` bytes; `total` counts what was written. -/
def writePaddingLoop (w : Writer τ) (st : τ) (n total : Nat) : WriteOut τ :=
  if 0 < n then
    let p := if paddingBuffer.length > n then n else paddingBuffer.length
    let o1 := w.write st (paddingPrefix p).1
    match o1.err with
    | some e => ⟨total + o1.n, some e, o1.next⟩
    | none =>
      let o2 := w.write o1.next (paddingBuffer.take (paddingPrefix p).2)
      match o2.err with
      | some e => ⟨total + o1.n + o2.n, some e, o2.next⟩
      | none => writePaddingLoop w o2.next (n - p) (total + o1.n + o2.n)
  else ⟨total, none, st⟩
termination_by n
decreasing_by
  simp only [paddingBuffer_length]
  split <;> omega

/-- `WritePadding(w, n)`. -/
def writePadding (w : Writer τ) (st : τ) (n : Nat) : WriteOut τ :=
  writePaddingLoop w st n 0

/-- Every chunk size up to `8193` takes the one- or two-byte case, and the prefix written
is a padding prefix for exactly the rest of the chunk. -/
theorem paddingPrefix_spec {p : Nat} (h1 : 0 < p) (h2 : p ≤ 8193) :
    LengthPrefix false (paddingPrefix p).2 (paddingPrefix p).1 ∧
      (paddingPrefix p).1.length + (paddingPrefix p).2 = p := by
  unfold paddingPrefix
  simp only [shift_and_3f_eq_iff, Nat.pow_zero, Nat.one_mul]
  by_cases h64 : p - 1 < 64
  · rw [if_pos h64]
    refine ⟨?_, by simp; omega⟩
    -- one byte: `00xxxxxx`
    have hx : (UInt8.ofNat (((p - 1) >>> 0) &&& 0x3f)).toNat = p - 1 := by
      rw [toNat_ofNat_of_lt (by rw [shift_and_3f]; omega), shift_and_3f]; omega
    obtain ⟨e1, e2, e3⟩ := low6_bits (UInt8.ofNat (((p - 1) >>> 0) &&& 0x3f)) (by omega)
    have h := LengthPrefix.one _ e2
    rwa [e3, e1, hx] at h
  · rw [if_neg h64, if_pos (by omega)]
    refine ⟨?_, by simp; omega⟩
    -- two bytes: `01xxxxxx 0yyyyyyy`, never minimal since `p - 2 ≥ 63`
    have hx : (UInt8.ofNat (((p - 2) >>> 7) &&& 0x3f)).toNat = (p - 2) / 128 := by
      rw [toNat_ofNat_of_lt (by rw [shift_and_3f]; omega), shift_and_3f]; omega
    have hy : (UInt8.ofNat (((p - 2) >>> 0) &&& 0x7f)).toNat = (p - 2) % 128 := by
      rw [toNat_ofNat_of_lt (by rw [shift_and_7f]; omega), shift_and_7f]; omega
    obtain ⟨e1, e2, e3⟩ := or_40_bits (UInt8.ofNat (((p - 2) >>> 7) &&& 0x3f)) (by omega)
    obtain ⟨f1, f2⟩ := low7_bits (UInt8.ofNat (((p - 2) >>> 0) &&& 0x7f)) (by omega)
    have h := LengthPrefix.two _ _ e2 f2
    rw [e3, e1, f1, hx, hy] at h
    rwa [show (p - 2) / 128 * 128 + (p - 2) % 128 = p - 2 by omega] at h

/-- **The three-byte padding case.** Its middle byte keeps six bits of `(p-3)>>7`, not
seven, so the prefix it writes announces the body length with bit 13 cleared: for a body
of `8192` to `16383` bytes the next chunk boundary would be read `8192` bytes early.
`WritePadding` never takes this case (`paddingPrefix_spec` covers all its chunk sizes). -/
theorem paddingPrefix_three {p : Nat} (h1 : 8194 ≤ p) (h2 : p - 3 < 2 ^ 20) :
    LengthPrefix false ((paddingPrefix p).2 - 8192 * ((paddingPrefix p).2 / 8192 % 2))
        (paddingPrefix p).1 ∧
      (paddingPrefix p).1.length + (paddingPrefix p).2 = p := by
  unfold paddingPrefix
  simp only [shift_and_3f_eq_iff, Nat.pow_zero, Nat.one_mul]
  rw [if_neg (by omega), if_neg (by omega), if_pos (by omega)]
  refine ⟨?_, by simp; omega⟩
  -- three bytes: `01xxxxxx 1yyyyyyy 0zzzzzzz`, with `y`'s top bit lost to the mask
  have hx : (UInt8.ofNat (((p - 3) >>> 14) &&& 0x3f)).toNat = (p - 3) / 16384 := by
    rw [toNat_ofNat_of_lt (by rw [shift_and_3f]; omega), shift_and_3f]; omega
  have hy : (UInt8.ofNat (((p - 3) >>> 7) &&& 0x3f)).toNat = (p - 3) / 128 % 64 := by
    rw [toNat_ofNat_of_lt (by rw [shift_and_3f]; omega), shift_and_3f]; omega
  have hz : (UInt8.ofNat (((p - 3) >>> 0) &&& 0x7f)).toNat = (p - 3) % 128 := by
    rw [toNat_ofNat_of_lt (by rw [shift_and_7f]; omega), shift_and_7f]; omega
  obtain ⟨e1, e2, e3⟩ := or_40_bits (UInt8.ofNat (((p - 3) >>> 14) &&& 0x3f)) (by omega)
  obtain ⟨g1, g2⟩ := or_80_low7_bits (UInt8.ofNat (((p - 3) >>> 7) &&& 0x3f)) (by omega)
  obtain ⟨f1, f2⟩ := low7_bits (UInt8.ofNat (((p - 3) >>> 0) &&& 0x7f)) (by omega)
  have h := LengthPrefix.three _ _ _ e2 g2 f2
  rw [e3, e1, g1, f1, hx, hy, hz] at h
  rwa [show ((p - 3) / 16384 * 128 + (p - 3) / 128 % 64) * 128 + (p - 3) % 128 =
    p - 3 - 8192 * ((p - 3) / 8192 % 2) by omega] at h

/-- The bytes one turn of the `WritePadding` loop writes for a chunk of `p` bytes: the
prefix, then the body cut from `paddingBuffer`. -/
def paddingChunk (p : Nat) : List UInt8 :=
  (paddingPrefix p).1 ++ paddingBuffer.take (paddingPrefix p).2

/-- A chunk of `1` to `1024` bytes is one complete padding chunk of exactly that length. -/
theorem paddingChunk_isChunk {p : Nat} (h1 : 0 < p) (h2 : p ≤ 1024) :
    IsChunk false (paddingBuffer.take (paddingPrefix p).2) (paddingChunk p) ∧
      (paddingChunk p).length = p := by
  obtain ⟨hp, hlen⟩ := paddingPrefix_spec h1 (by omega)
  have hb : (paddingBuffer.take (paddingPrefix p).2).length = (paddingPrefix p).2 := by
    rw [List.length_take, paddingBuffer_length]; omega
  refine ⟨⟨_, ?_, rfl⟩, ?_⟩
  · rw [hb]; exact hp
  · rw [paddingChunk, List.length_append, hb]; exact hlen

/-- One turn of the loop into a `bytes.Buffer`: both writes succeed, and the loop goes on
with `min 1024 n` bytes of the budget spent. -/
theorem writePaddingLoop_buffer_step (st : List UInt8) {n : Nat} (hn : 0 < n) (total : Nat) :
    writePaddingLoop Writer.buffer st n total =
      writePaddingLoop Writer.buffer (st ++ paddingChunk (min 1024 n)) (n - min 1024 n)
        (total + (paddingChunk (min 1024 n)).length) := by
  have hp : (if paddingBuffer.length > n then n else paddingBuffer.length) = min 1024 n := by
    rw [paddingBuffer_length]; split <;> omega
  rw [writePaddingLoop, if_pos hn]
  simp only [hp, Writer.buffer, paddingChunk, List.append_assoc, List.length_append,
    Nat.add_assoc]

theorem writePaddingLoop_zero (w : Writer τ) (st : τ) (total : Nat) :
    writePaddingLoop w st 0 total = ⟨total, none, st⟩ := by
  rw [writePaddingLoop, if_neg (Nat.lt_irrefl 0)]

/-- The `WritePadding` loop into a `bytes.Buffer`: it appends complete padding chunks of
exactly the budget's length, the same whatever the buffer holds, and adds the budget to
`total`. The induction is on the budget, one chunk per step. -/
theorem writePaddingLoop_buffer (n : Nat) :
    ∃ pad, Paddings pad ∧ pad.length = n ∧ ∀ buf total,
      writePaddingLoop Writer.buffer buf n total = ⟨total + n, none, buf ++ pad⟩ := by
  induction n using Nat.strong_induction_on with
  | _ n ih =>
    rcases Nat.eq_zero_or_pos n with rfl | hn
    · refine ⟨[], .nil, rfl, fun buf total => ?_⟩
      rw [writePaddingLoop_zero, List.append_nil, Nat.add_zero]
    · obtain ⟨hc, hcl⟩ := paddingChunk_isChunk (lt_min (by norm_num) hn) (min_le_left _ _)
      obtain ⟨pad, hpad, hlen, heq⟩ := ih (n - min 1024 n) (by omega)
      refine ⟨paddingChunk (min 1024 n) ++ pad, .cons _ hc hpad, ?_, fun buf total => ?_⟩
      · rw [List.length_append, hcl, hlen]; omega
      · rw [writePaddingLoop_buffer_step buf hn, heq, hcl, List.append_assoc]
        congr 1
        omega

/-- **`WritePadding` into a `bytes.Buffer`.** It appends `n` bytes of complete padding
chunks and returns `(n, nil)`. -/
theorem writePadding_buffer (n : Nat) :
    ∃ pad, Paddings pad ∧ pad.length = n ∧ ∀ buf,
      writePadding Writer.buffer buf n = ⟨n, none, buf ++ pad⟩ := by
  obtain ⟨pad, hpad, hlen, heq⟩ := writePaddingLoop_buffer n
  refine ⟨pad, hpad, hlen, fun buf => ?_⟩
  rw [writePadding, heq, Nat.zero_add]

/-! ## `MaxDataForSize` -/

/-- The length of the prefix `dataPrefixForLength` builds for `m < 2^20`. -/
def dataPrefixLength (m : Nat) : Nat := if m < 64 then 1 else if m < 8192 then 2 else 3

/-- The longest data whose chunk, prefix included, fits in `n ≥ 1` bytes: what `MaxDataForSize`'s
doc comment says it returns. -/
def longestDataForSize (n : Nat) : Nat :=
  if n ≤ 64 then n - 1 else if n ≤ 8193 then n - 2 else if n ≤ 2 ^ 20 + 2 then n - 3 else 2 ^ 20 - 1

/-- `WriteData` into a `bytes.Buffer` succeeds exactly below twenty bits, and then writes the
prefix and the data. -/
theorem writeData_buffer_fits (buf data : List UInt8) (n : Nat) :
    ((writeData Writer.buffer buf data).err = none ∧ (writeData Writer.buffer buf data).n ≤ n) ↔
      data.length < 2 ^ 20 ∧ dataPrefixLength data.length + data.length ≤ n := by
  by_cases hd : data.length < 2 ^ 20
  · obtain ⟨pre, hpre, -, hlen⟩ := dataPrefixForLength_ok hd
    rw [writeData_buffer buf data hpre, hlen]
    simp only [true_and, hd, dataPrefixLength]
  · rw [writeData_tooLong Writer.buffer buf (Nat.not_lt.mp hd)]
    simp only [reduceCtorEq, false_and, hd]

/-- `MaxDataForSize` from the prefix of `n` itself, and a constant past twenty bits. -/
theorem maxDataForSize_eq (n : Nat) :
    maxDataForSize n = if n < 2 ^ 20 then n - dataPrefixLength n else 2 ^ 20 - 4 := by
  by_cases hn : n < 2 ^ 20
  · obtain ⟨pre, hpre, -, hlen⟩ := dataPrefixForLength_ok hn
    rw [maxDataForSize, hpre, if_pos hn]
    dsimp only
    rw [hlen, dataPrefixLength]
  · rw [maxDataForSize, dataPrefixForLength_tooLong (Nat.not_lt.mp hn), if_neg hn]
    rfl

/-- A budget of 64 bytes: `MaxDataForSize` returns 62, from the two-byte prefix of 64 itself,
yet a 63-byte slice takes a one-byte prefix and `WriteData` writes it in exactly 64 bytes. -/
theorem maxDataForSize_sixtyFour_fits_more :
    maxDataForSize 64 = 62 ∧ (writeData Writer.buffer [] (List.replicate 63 0)).err = none ∧
      (writeData Writer.buffer [] (List.replicate 63 0)).n = 64 := by
  have hpre : dataPrefixForLength (List.replicate 63 (0 : UInt8)).length = .ok [0xbf] := by
    rw [List.length_replicate]
    rfl
  refine ⟨by rw [maxDataForSize_eq]; rfl, ?_⟩
  rw [writeData_buffer [] _ hpre]
  exact ⟨rfl, rfl⟩

/-- The lengths whose chunk fits in `n ≥ 1` bytes are those up to `longestDataForSize n`. -/
theorem fits_iff_le_longestDataForSize {n : Nat} (hn : 1 ≤ n) (m : Nat) :
    (m < 2 ^ 20 ∧ dataPrefixLength m + m ≤ n) ↔ m ≤ longestDataForSize n := by
  unfold dataPrefixLength longestDataForSize
  split_ifs <;> omega

theorem maxDataForSize_below_longest {n : Nat} (hn : 1 ≤ n) :
    (∀ (buf data : List UInt8),
      ((writeData Writer.buffer buf data).err = none ∧ (writeData Writer.buffer buf data).n ≤ n) ↔
        data.length ≤ longestDataForSize n) ∧
      maxDataForSize n ≤ longestDataForSize n ∧
      (maxDataForSize n = longestDataForSize n ↔ n < 2 ^ 20 ∧ n ≠ 64 ∧ n ≠ 8192 ∧ n ≠ 8193) := by
  refine ⟨fun buf data => ?_, ?_, ?_⟩
  · rw [writeData_buffer_fits, fits_iff_le_longestDataForSize hn]
  -- where the prefix of the answer is shorter than that of `n`, one more byte would have fitted
  · rw [maxDataForSize_eq]
    unfold dataPrefixLength longestDataForSize
    split_ifs <;> omega
  · rw [maxDataForSize_eq]
    unfold dataPrefixLength longestDataForSize
    split_ifs <;> omega

/-- A budget of 64 bytes: `MaxDataForSize` says 62, but 63 bytes take a one-byte prefix and fit. -/
theorem maxDataForSize_sixtyFour :
    1 ≤ 64 ∧ maxDataForSize 64 = 62 ∧ longestDataForSize 64 = 63 ∧
      ((writeData Writer.buffer [] (List.replicate 63 0)).err = none ∧
        (writeData Writer.buffer [] (List.replicate 63 0)).n ≤ 64) := by
  have h := maxDataForSize_below_longest (show 1 ≤ 64 by decide)
  have hmax : maxDataForSize 64 = 62 := by rw [maxDataForSize_eq]; rfl
  have hlong : longestDataForSize 64 = 63 := rfl
  refine ⟨by decide, hmax, hlong, ?_⟩
  rw [h.1, List.length_replicate, hlong]

end Snowflake.Encapsulation
