import Mathlib
import Snowflake.Lib.Io
import Snowflake.Encapsulation.Format
/-
`encapsulation.ReadData` (`common/encapsulation/encapsulation.go`), over the reader
model of `Lib/Io.lean`.

The translation keeps the shape of the Go function: `readLength` is its inner loop over
the continuation bytes of a length prefix (with the `i >= 2` cap checked before a
fourth byte is read), `readBody` its data branch (`io.ReadFull` into the caller's
buffer, cut to the chunk, then `io.CopyN` into `io.Discard` for what did not fit), and
`skipPadding` its padding branch. `readData` is the outer `for` loop, which goes round
once per padding chunk; it terminates because every round reads a byte.

The main result, `readData_of_eofApart`, says that on a reader whose `io.EOF` comes
apart from the data the model computes `decode` of the bytes still to come: the
result depends on the bytes alone, not on how the reader splits them.
-/

set_option autoImplicit false

namespace Snowflake.Encapsulation

open GoIo

variable {σ : Type}

/-! ## The model -/

/-- The outcome of the length-prefix loop: the decoded length, or the error `ReadData`
returns, with the reader afterwards either way. -/
inductive LengthOut (σ : Type) where
  | ok (n : Nat) (r : Reader σ)
  | fail (err : Error) (r : Reader σ)

/-- The reader after a length-prefix loop. -/
def LengthOut.reader : LengthOut σ → Reader σ
  | .ok _ r => r
  | .fail _ r => r

/-- The inner loop of `ReadData`, `for i := 0; moreLength; i++`: `b` is `b[0]`, the byte
read last (a read with no bytes leaves it as it was), and `n` the length so far. -/
def readLength (r : Reader σ) (b : UInt8) (n i : Nat) (moreLength : Bool) : LengthOut σ :=
  if moreLength then
    if 2 ≤ i then .fail ErrTooLong r
    else
      match (r.read 1).err with
      | some .eof => .fail .unexpectedEOF (r.read 1).next
      | some e => .fail e (r.read 1).next
      | none =>
        readLength (r.read 1).next ((r.read 1).data.headD b)
          ((n <<< 7) ||| (((r.read 1).data.headD b) &&& 0x7f).toNat) (i + 1)
          (((r.read 1).data.headD b) &&& 0x80 != 0)
  else .ok n r
termination_by 2 - i

/-- `if err == io.EOF { err = io.ErrUnexpectedEOF }` -/
def unexpectedOnEof : Option Error → Option Error
  | some .eof => some .unexpectedEOF
  | e => e

/-- The data branch of `ReadData` for a chunk of `n` bytes and a buffer of `cap`:
`p = p[:n]` if the buffer is longer, `io.ReadFull` into it, and if that filled it
without reaching the end of the chunk, discard the rest and report
`io.ErrShortBuffer`. -/
def readBody (r : Reader σ) (cap n : Nat) : ReadOut σ :=
  let f := readFull r (min cap n)
  if f.err = none ∧ f.data.length < n then
    let c := copyN f.next (n - f.data.length)
    ⟨f.data, if c.err = none then some .shortBuffer else unexpectedOnEof c.err, c.next⟩
  else ⟨f.data, unexpectedOnEof f.err, f.next⟩

/-- The padding branch of `ReadData`: `else if n > 0`, discard the `n` bytes. -/
def skipPadding (r : Reader σ) (n : Nat) : CopyOut σ :=
  if 0 < n then
    let c := copyN r n
    ⟨c.written, unexpectedOnEof c.err, c.next⟩
  else ⟨0, none, r⟩

theorem readLength_reader_rest_le (r : Reader σ) (b : UInt8) (n i : Nat) (m : Bool) :
    (readLength r b n i m).reader.rest.length ≤ r.rest.length := by
  fun_induction readLength r b n i m with
  | case1 => exact Nat.le_refl _
  | case2 r b n i hm hi => exact r.read_rest_le 1
  | case3 r b n i hm hi e hne => exact r.read_rest_le 1
  | case4 r b n i hm hi ih => exact Nat.le_trans ih (r.read_rest_le 1)
  | case5 => exact Nat.le_refl _

theorem readLength_reader_policy (r : Reader σ) (b : UInt8) (n i : Nat) (m : Bool) :
    (readLength r b n i m).reader.policy = r.policy := by
  fun_induction readLength r b n i m with
  | case1 => rfl
  | case2 r b n i hm hi => exact Reader.read_policy r 1
  | case3 r b n i hm hi e hne => exact Reader.read_policy r 1
  | case4 r b n i hm hi ih => rw [ih, Reader.read_policy]
  | case5 => rfl

theorem skipPadding_rest_le (r : Reader σ) (n : Nat) :
    (skipPadding r n).next.rest.length ≤ r.rest.length := by
  unfold skipPadding
  split_ifs
  · exact copyN_rest_le r n
  · exact Nat.le_refl _

theorem skipPadding_policy (r : Reader σ) (n : Nat) :
    (skipPadding r n).next.policy = r.policy := by
  unfold skipPadding
  split_ifs
  · exact copyN_policy r n
  · rfl

theorem readBody_policy (r : Reader σ) (cap n : Nat) :
    (readBody r cap n).next.policy = r.policy := by
  simp only [readBody]
  by_cases h : (readFull r (min cap n)).err = none ∧ (readFull r (min cap n)).data.length < n
  · rw [if_pos h]
    exact (copyN_policy _ _).trans (readFull_policy r _)
  · rw [if_neg h]
    exact readFull_policy r _

/-- `encapsulation.ReadData(r, p)` with `len(p) = cap`: the next data chunk, skipping
padding chunks before it. Each round reads one byte at least, which is what the
termination measure says. -/
def readData (r : Reader σ) (cap : Nat) : ReadOut σ :=
  match he : (r.read 1).err with
  | some e => ⟨[], some e, (r.read 1).next⟩
  | none =>
    match hl : readLength (r.read 1).next ((r.read 1).data.headD 0)
        (((r.read 1).data.headD 0) &&& 0x3f).toNat 0 (((r.read 1).data.headD 0) &&& 0x40 != 0) with
    | .fail e r' => ⟨[], some e, r'⟩
    | .ok n r' =>
      if ((r.read 1).data.headD 0) &&& 0x80 != 0 then readBody r' cap n
      else
        match hs : (skipPadding r' n).err with
        | some e => ⟨[], some e, (skipPadding r' n).next⟩
        | none => readData (skipPadding r' n).next cap
termination_by r.rest.length
decreasing_by
  have h1 := r.read_data_pos Nat.one_pos he
  have h2 := congrArg List.length (r.read_append 1)
  have h3 := readLength_reader_rest_le (r.read 1).next ((r.read 1).data.headD 0)
    (((r.read 1).data.headD 0) &&& 0x3f).toNat 0 (((r.read 1).data.headD 0) &&& 0x40 != 0)
  rw [hl] at h3
  have h4 := skipPadding_rest_le r' n
  simp only [LengthOut.reader, List.length_append] at h2 h3
  omega

/-- The length loop after the first read leaves the reader's behaviour as it was. -/
theorem readLength_first_policy (r : Reader σ) :
    (readLength (r.read 1).next ((r.read 1).data.headD 0)
      (((r.read 1).data.headD 0) &&& 0x3f).toNat 0
      (((r.read 1).data.headD 0) &&& 0x40 != 0)).reader.policy = r.policy := by
  rw [readLength_reader_policy, Reader.read_policy]

/-- `ReadData` only reads: the reader's behaviour is the same afterwards. -/
theorem readData_policy (r : Reader σ) (cap : Nat) : (readData r cap).next.policy = r.policy := by
  fun_induction readData r cap with
  | case1 r e he => exact Reader.read_policy r 1
  | case2 r he e r' hl =>
    have h := readLength_first_policy r
    rw [hl, LengthOut.reader] at h
    exact h
  | case3 r he n r' hl hdata =>
    have h := readLength_first_policy r
    rw [hl, LengthOut.reader] at h
    rw [readBody_policy, h]
  | case4 r he n r' hl hdata e hsk =>
    have h := readLength_first_policy r
    rw [hl, LengthOut.reader] at h
    rw [skipPadding_policy, h]
  | case5 r he n r' hl hdata hsk ih =>
    have h := readLength_first_policy r
    rw [hl, LengthOut.reader] at h
    rw [ih, skipPadding_policy, h]

theorem readBody_rest_le (r : Reader σ) (cap n : Nat) :
    (readBody r cap n).next.rest.length ≤ r.rest.length := by
  have hf := congrArg List.length (readFull_append r (min cap n))
  rw [List.length_append] at hf
  simp only [readBody]
  by_cases h : (readFull r (min cap n)).err = none ∧ (readFull r (min cap n)).data.length < n
  · rw [if_pos h]
    exact (copyN_rest_le _ _).trans (by omega)
  · rw [if_neg h]
    show (readFull r (min cap n)).next.rest.length ≤ r.rest.length
    omega

/-- After a first read with no error, the length loop leaves less than the reader had. -/
theorem readLength_first_rest_lt (r : Reader σ) (he : (r.read 1).err = none) :
    (readLength (r.read 1).next ((r.read 1).data.headD 0)
      (((r.read 1).data.headD 0) &&& 0x3f).toNat 0
      (((r.read 1).data.headD 0) &&& 0x40 != 0)).reader.rest.length < r.rest.length := by
  have h1 := r.read_data_pos Nat.one_pos he
  have h2 := congrArg List.length (r.read_append 1)
  have h3 := readLength_reader_rest_le (r.read 1).next ((r.read 1).data.headD 0)
    (((r.read 1).data.headD 0) &&& 0x3f).toNat 0 (((r.read 1).data.headD 0) &&& 0x40 != 0)
  rw [List.length_append] at h2
  omega

/-- A `ReadData` call that returns a chunk (nil or `io.ErrShortBuffer`) consumed at least
one byte, on any reader: its first read did not fail, since a failed read reports
`io.EOF`, which `ReadData` passes on. -/
theorem readData_rest_lt (r : Reader σ) (cap : Nat) :
    ((readData r cap).err = none ∨ (readData r cap).err = some .shortBuffer) →
      (readData r cap).next.rest.length < r.rest.length := by
  fun_induction readData r cap with
  | case1 r e he =>
    rw [Reader.read_err_eq_eof r he]
    simp
  | case2 r he e r' hl =>
    intro _
    have h := readLength_first_rest_lt r he
    rw [hl, LengthOut.reader] at h
    exact h
  | case3 r he n r' hl hdata =>
    intro _
    have h := readLength_first_rest_lt r he
    rw [hl, LengthOut.reader] at h
    exact lt_of_le_of_lt (readBody_rest_le r' cap n) h
  | case4 r he n r' hl hdata e hsk =>
    intro _
    have h := readLength_first_rest_lt r he
    rw [hl, LengthOut.reader] at h
    exact lt_of_le_of_lt (skipPadding_rest_le r' n) h
  | case5 r he n r' hl hdata hsk ih =>
    intro hok
    have h := readLength_first_rest_lt r he
    rw [hl, LengthOut.reader] at h
    exact lt_trans (ih hok) (lt_of_le_of_lt (skipPadding_rest_le r' n) h)

/-! ## The length-prefix loop on the stream -/

theorem shiftLeft_seven_or (n : Nat) (b : UInt8) :
    (n <<< 7) ||| (b &&& 0x7f).toNat = n * 128 + (b &&& 0x7f).toNat := by
  have hb : (b &&& 0x7f).toNat < 2 ^ 7 := by
    have : (b &&& 0x7f).toNat ≤ 127 := by rw [UInt8.toNat_and]; exact Nat.and_le_right
    omega
  rw [← Nat.shiftLeft_add_eq_or_of_lt hb, Nat.shiftLeft_eq]

theorem readLength_done (r : Reader σ) (b : UInt8) (n i : Nat) :
    readLength r b n i false = .ok n r := by
  rw [readLength]
  rfl

theorem readLength_cap (r : Reader σ) (b : UInt8) (n : Nat) {i : Nat} (hi : 2 ≤ i) :
    readLength r b n i true = .fail ErrTooLong r := by
  rw [readLength, if_pos rfl, if_pos hi]

/-- One continuation byte, on an `EofApart` reader with a byte to give. -/
theorem readLength_step (r : Reader σ) (hr : r.EofApart) {b' b : UInt8} {t : List UInt8}
    (hs : r.rest = b :: t) (n : Nat) {i : Nat} (hi : i < 2) :
    readLength r b' n i true =
      readLength (r.read 1).next b (n * 128 + (b &&& 0x7f).toNat) (i + 1) (b &&& 0x80 != 0) := by
  have he : (r.read 1).err = none := by
    rw [r.read_err_of_eofApart hr Nat.one_pos, if_neg (by simp [hs])]
  rw [readLength, if_pos rfl, if_neg (by omega)]
  simp only [he, (r.read_one hs).1, List.headD_cons, shiftLeft_seven_or]

/-- A continuation bit with the stream at its end. -/
theorem readLength_step_nil (r : Reader σ) (hr : r.EofApart) {b' : UInt8} (hs : r.rest = [])
    (n : Nat) {i : Nat} (hi : i < 2) :
    readLength r b' n i true = .fail .unexpectedEOF (r.read 1).next := by
  have he : (r.read 1).err = some .eof := by
    rw [r.read_err_of_eofApart hr Nat.one_pos, if_pos hs]
  rw [readLength, if_pos rfl, if_neg (by omega)]
  simp only [he]

/-- The reader-side outcome of a length-prefix loop matches the stream-side view: the
same length and the same bytes left, or the error `ReadData` turns the view into. -/
def LengthOut.Agrees (o : LengthOut σ) : PrefixView → Prop
  | .ok _ n rest => ∃ r', o = .ok n r' ∧ r'.rest = rest
  | .cut => ∃ r', o = .fail .unexpectedEOF r' ∧ r'.rest = []
  | .tooLong rest => ∃ r', o = .fail ErrTooLong r' ∧ r'.rest = rest
  | .empty => False

/-- The length-prefix loop, started after the first byte `b0` of a prefix, reads what
`viewPrefix` reads. The proof follows the prefix byte by byte: each continuation bit
either ends the prefix, meets the end of the stream, or (at the third byte) hits the
cap. -/
theorem readLength_agrees (r : Reader σ) (hr : r.EofApart) (b0 : UInt8) :
    (readLength r b0 (b0 &&& 0x3f).toNat 0 (b0 &&& 0x40 != 0)).Agrees
      (viewPrefix (b0 :: r.rest)) := by
  have hr1 : (r.read 1).next.EofApart := hr.of_policy (r.read_policy 1)
  by_cases h0 : b0 &&& 0x40 = 0
  · simp only [h0, bne_self_eq_false, readLength_done, viewPrefix, if_pos]
    exact ⟨r, rfl, rfl⟩
  have hm0 : (b0 &&& 0x40 != 0) = true := by simp [h0]
  rw [hm0]
  -- the prefix continues on the stream: one case per byte that is there or missing
  rcases hs : r.rest with _ | ⟨b1, t⟩
  · rw [readLength_step_nil r hr hs _ (by omega)]
    simp only [viewPrefix, if_neg h0]
    exact ⟨_, rfl, by rw [← List.append_eq_nil_iff.mp (hs ▸ r.read_append 1) |>.2]⟩
  · obtain ⟨-, hn1⟩ := r.read_one hs
    rw [readLength_step r hr hs _ (by omega)]
    by_cases h1 : b1 &&& 0x80 = 0
    · simp only [h1, bne_self_eq_false, readLength_done, viewPrefix, if_neg h0, if_pos]
      exact ⟨_, rfl, hn1⟩
    have hm1 : (b1 &&& 0x80 != 0) = true := by simp [h1]
    rw [hm1]
    rcases hs1 : (r.read 1).next.rest with _ | ⟨b2, t'⟩
    · rw [readLength_step_nil _ hr1 hs1 _ (by omega)]
      rw [hs1] at hn1
      subst hn1
      simp only [viewPrefix, if_neg h0, if_neg h1]
      exact ⟨_, rfl, by rw [← List.append_eq_nil_iff.mp (hs1 ▸ (r.read 1).next.read_append 1) |>.2]⟩
    · rw [hs1] at hn1
      subst hn1
      obtain ⟨-, hn2⟩ := (r.read 1).next.read_one hs1
      rw [readLength_step _ hr1 hs1 _ (by omega)]
      by_cases h2 : b2 &&& 0x80 = 0
      · simp only [h2, bne_self_eq_false, readLength_done, viewPrefix, if_neg h0, if_neg h1,
          if_pos]
        exact ⟨_, rfl, hn2⟩
      · have hm2 : (b2 &&& 0x80 != 0) = true := by simp [h2]
        rw [hm2, readLength_cap _ _ _ (by omega)]
        simp only [viewPrefix, if_neg h0, if_neg h1, if_neg h2]
        exact ⟨_, rfl, hn2⟩

/-! ## The body and padding branches on the stream -/

/-- The data branch on an `EofApart` reader, by the three cases of the chunk against the
buffer and the stream: the chunk fits the buffer, it is cut to the buffer
(`io.ErrShortBuffer`, the rest discarded), or the stream ends inside it. -/
theorem readBody_of_eofApart (r : Reader σ) (hr : r.EofApart) (cap n : Nat) :
    (readBody r cap n).data = r.rest.take (min cap n) ∧
    (readBody r cap n).err = (if n ≤ r.rest.length then
        (if n ≤ cap then none else some .shortBuffer) else some .unexpectedEOF) ∧
    (readBody r cap n).next.rest = (if n ≤ r.rest.length then r.rest.drop n else []) := by
  obtain ⟨f1, f2, f3⟩ := readFull_of_eofApart r hr (min cap n)
  have hf : (readFull r (min cap n)).next.EofApart := hr.of_policy (readFull_policy r (min cap n))
  have hflen : (readFull r (min cap n)).data.length = min (min cap n) r.rest.length := by
    rw [f1, List.length_take]
  obtain ⟨c1, c2⟩ := copyN_of_eofApart _ hf (n - (readFull r (min cap n)).data.length)
  rw [f3, List.length_drop] at c1
  rw [f3, List.drop_drop] at c2
  simp only [readBody]
  by_cases hfill : min cap n ≤ r.rest.length
  · have hfe : (readFull r (min cap n)).err = none := by rw [f2, if_pos hfill]
    by_cases hshort : (readFull r (min cap n)).data.length < n
    · -- the buffer is full before the chunk ends: discard the rest of the chunk
      rw [if_pos ⟨hfe, hshort⟩]
      refine ⟨f1, ?_, ?_⟩
      · by_cases hn : n ≤ r.rest.length
        · have hc : (copyN (readFull r (min cap n)).next
              (n - (readFull r (min cap n)).data.length)).err = none := by
            rw [c1, if_pos (by omega)]
          simp only [hc, if_pos hn, if_neg (show ¬ n ≤ cap by omega), if_true]
        · have hc : (copyN (readFull r (min cap n)).next
              (n - (readFull r (min cap n)).data.length)).err = some .eof := by
            rw [c1, if_neg (by omega)]
          simp only [hc, if_neg hn, reduceCtorEq, if_false]
          rfl
      · rw [c2]
        by_cases hn : n ≤ r.rest.length
        · rw [if_pos hn]
          congr 1
          omega
        · rw [if_neg hn]
          exact List.drop_of_length_le (by omega)
    · -- the whole chunk fit in the buffer
      rw [if_neg (fun h => hshort h.2), hfe]
      have hn : n ≤ r.rest.length := by omega
      refine ⟨f1, ?_, ?_⟩
      · rw [if_pos hn, if_pos (by omega)]
        rfl
      · rw [f3, if_pos hn]
        congr 1
        omega
  · -- the stream ends before the buffer is full
    have hfe : (readFull r (min cap n)).err ≠ none := by rw [f2, if_neg hfill]; split_ifs <;> simp
    rw [if_neg (fun h => hfe h.1)]
    have hn : ¬ n ≤ r.rest.length := by omega
    refine ⟨f1, ?_, ?_⟩
    · rw [if_neg hn, f2, if_neg hfill]
      split_ifs <;> rfl
    · rw [f3, if_neg hn]
      exact List.drop_of_length_le (by omega)

/-- The padding branch on an `EofApart` reader: the body is skipped, or the stream ends
inside it. -/
theorem skipPadding_of_eofApart (r : Reader σ) (hr : r.EofApart) (n : Nat) :
    (skipPadding r n).err = (if n ≤ r.rest.length then none else some .unexpectedEOF) ∧
    (skipPadding r n).next.rest = r.rest.drop n := by
  unfold skipPadding
  by_cases hn : 0 < n
  · obtain ⟨c1, c2⟩ := copyN_of_eofApart r hr n
    rw [if_pos hn]
    refine ⟨?_, c2⟩
    simp only [c1]
    split_ifs <;> rfl
  · rw [if_neg hn]
    have : n = 0 := by omega
    subst this
    simp

/-! ## `ReadData` computes `decode` -/

/-- A length-prefix loop that ends well has read a whole prefix. -/
theorem readLength_ok_view (r : Reader σ) (hr : r.EofApart) {b0 : UInt8} {n : Nat}
    {r' : Reader σ}
    (hl : readLength r b0 (b0 &&& 0x3f).toNat 0 (b0 &&& 0x40 != 0) = .ok n r') :
    viewPrefix (b0 :: r.rest) = .ok (b0 &&& 0x80 != 0) n r'.rest := by
  have hag := readLength_agrees r hr b0
  rw [hl] at hag
  match hv : viewPrefix (b0 :: r.rest), hag with
  | .ok d n' rest, ⟨r'', h1, h2⟩ =>
    injection h1 with h3 h4
    subst h3 h4 h2
    rw [viewPrefix_isData hv]

/-- A length-prefix loop that fails has met the end of the stream or the cap. -/
theorem readLength_fail_view (r : Reader σ) (hr : r.EofApart) {b0 : UInt8} {e : Error}
    {r' : Reader σ}
    (hl : readLength r b0 (b0 &&& 0x3f).toNat 0 (b0 &&& 0x40 != 0) = .fail e r') :
    (viewPrefix (b0 :: r.rest) = .cut ∧ e = .unexpectedEOF ∧ r'.rest = []) ∨
      (viewPrefix (b0 :: r.rest) = .tooLong r'.rest ∧ e = ErrTooLong) := by
  have hag := readLength_agrees r hr b0
  rw [hl] at hag
  match hv : viewPrefix (b0 :: r.rest), hag with
  | .cut, ⟨r'', h1, h2⟩ =>
    injection h1 with h3 h4
    subst h3 h4
    exact .inl ⟨rfl, rfl, h2⟩
  | .tooLong rest, ⟨r'', h1, h2⟩ =>
    injection h1 with h3 h4
    subst h3 h4 h2
    exact .inr ⟨rfl, rfl⟩
  | .ok d n rest, ⟨r'', h1, h2⟩ => cases h1

/-- The first byte and a length loop after it that ends well have read the prefix at the
front of the stream, and left a reader that still hands out `io.EOF` apart. -/
theorem readLength_first_ok (r : Reader σ) (hr : r.EofApart) (he : (r.read 1).err = none)
    {n : Nat} {r' : Reader σ}
    (hl : readLength (r.read 1).next ((r.read 1).data.headD 0)
      (((r.read 1).data.headD 0) &&& 0x3f).toNat 0
      (((r.read 1).data.headD 0) &&& 0x40 != 0) = .ok n r') :
    viewPrefix r.rest = .ok (((r.read 1).data.headD 0) &&& 0x80 != 0) n r'.rest ∧
      r'.EofApart := by
  have hpol := readLength_first_policy r
  rw [hl, LengthOut.reader] at hpol
  obtain ⟨b0, t, hs, hd, hn⟩ := r.read_first hr he
  rw [hd, List.headD_cons] at hl ⊢
  have hv := readLength_ok_view _ (hr.of_policy (r.read_policy 1)) hl
  rw [hn, ← hs] at hv
  exact ⟨hv, hr.of_policy hpol⟩

/-- The first byte and a length loop after it that fails: the stream ends inside the
prefix, or the prefix announces a fourth byte. -/
theorem readLength_first_fail (r : Reader σ) (hr : r.EofApart) (he : (r.read 1).err = none)
    {e : Error} {r' : Reader σ}
    (hl : readLength (r.read 1).next ((r.read 1).data.headD 0)
      (((r.read 1).data.headD 0) &&& 0x3f).toNat 0
      (((r.read 1).data.headD 0) &&& 0x40 != 0) = .fail e r') :
    (viewPrefix r.rest = .cut ∧ e = .unexpectedEOF ∧ r'.rest = []) ∨
      (viewPrefix r.rest = .tooLong r'.rest ∧ e = ErrTooLong) := by
  obtain ⟨b0, t, hs, hd, hn⟩ := r.read_first hr he
  rw [hd, List.headD_cons] at hl
  have hf := readLength_fail_view _ (hr.of_policy (r.read_policy 1)) hl
  rwa [hn, ← hs] at hf

/-- **`ReadData` reads the bytes, not the reader.** On a reader whose `io.EOF` comes apart
from the data, `readData` returns what `decode` computes from the bytes still to come,
and leaves the reader where `decode` stops. The induction is `readData`'s own: one round
per padding chunk, each shown to move the stream exactly as `decode` moves it. -/
theorem readData_of_eofApart (r : Reader σ) (hr : r.EofApart) (cap : Nat) :
    (readData r cap).data = (decode r.rest cap).data ∧
    (readData r cap).err = (decode r.rest cap).err ∧
    (readData r cap).next.rest = (decode r.rest cap).rest := by
  fun_induction readData r cap with
  | case1 r e he =>
    -- the first read fails: on this reader only an empty stream does that
    have hs : r.rest = [] := by
      by_contra hne
      rw [r.read_err_of_eofApart hr Nat.one_pos, if_neg hne] at he
      cases he
    rw [r.read_err_of_eofApart hr Nat.one_pos, if_pos hs] at he
    cases he
    have hn := r.read_append 1
    rw [hs, List.append_eq_nil_iff] at hn
    rw [hs, decode_of_empty rfl]
    exact ⟨rfl, rfl, hn.2⟩
  | case2 r he e r' hl =>
    rcases readLength_first_fail r hr he hl with ⟨hv, rfl, hr'⟩ | ⟨hv, rfl⟩
    · rw [decode_of_cut hv]
      exact ⟨rfl, rfl, hr'⟩
    · rw [decode_of_tooLong hv]
      exact ⟨rfl, rfl, rfl⟩
  | case3 r he n r' hl hdata =>
    obtain ⟨hv, hr'⟩ := readLength_first_ok r hr he hl
    rw [hdata] at hv
    obtain ⟨b1, b2, b3⟩ := readBody_of_eofApart r' hr' cap n
    rw [decode_of_data hv]
    split_ifs at b2 b3 ⊢ <;> exact ⟨b1, b2, b3⟩
  | case4 r he n r' hl hdata e hsk =>
    obtain ⟨hv, hr'⟩ := readLength_first_ok r hr he hl
    rw [Bool.not_eq_true] at hdata
    rw [hdata] at hv
    obtain ⟨k1, k2⟩ := skipPadding_of_eofApart r' hr' n
    rw [decode_of_padding hv]
    -- a failed skip is a padding body the stream cuts short
    by_cases hlen : n ≤ r'.rest.length
    · rw [k1, if_pos hlen] at hsk
      cases hsk
    · rw [k1, if_neg hlen] at hsk
      cases hsk
      rw [if_neg hlen]
      refine ⟨rfl, rfl, ?_⟩
      rw [k2]
      exact List.drop_of_length_le (by omega)
  | case5 r he n r' hl hdata hsk ih =>
    obtain ⟨hv, hr'⟩ := readLength_first_ok r hr he hl
    rw [Bool.not_eq_true] at hdata
    rw [hdata] at hv
    obtain ⟨k1, k2⟩ := skipPadding_of_eofApart r' hr' n
    have hlen : n ≤ r'.rest.length := by
      by_contra hlen
      rw [k1, if_neg hlen] at hsk
      cases hsk
    have hr'' : (skipPadding r' n).next.EofApart := hr'.of_policy (skipPadding_policy r' n)
    rw [decode_of_padding hv, if_pos hlen, ← k2]
    exact ih hr''

/-! ## The chunk grammar, read through a reader -/

/-- The four outcomes of one `ReadData` call `o` on the byte string `s` with a buffer of
`cap` bytes, as the package doc's grammar sorts streams: (a) `io.EOF` with no data
exactly on padding alone; (b) no error or `io.ErrShortBuffer` exactly on padding followed
by a complete data chunk, and for every such reading of `s` the data is the chunk's body
cut to the buffer, the error `io.ErrShortBuffer` exactly when it was cut, and exactly the
padding and the chunk are consumed; (c) `ErrTooLong` with no data exactly where the
padding is followed by three bytes that all announce one more; (d) `io.ErrUnexpectedEOF`
exactly where the stream ends inside a prefix or a body after the padding. -/
def ChunkOutcomes (s : List UInt8) (cap : Nat) (o : ReadOut σ) : Prop :=
  ((o.err = some .eof ∧ o.data = []) ↔ Paddings s) ∧
  ((o.err = none ∨ o.err = some .shortBuffer) ↔
    ∃ P D body rest, Paddings P ∧ IsChunk true body D ∧ s = P ++ D ++ rest) ∧
  (∀ P D body rest, Paddings P → IsChunk true body D → s = P ++ D ++ rest →
    o.data = body.take cap ∧
      o.err = (if body.length ≤ cap then none else some .shortBuffer) ∧ o.next.rest = rest) ∧
  ((o.err = some ErrTooLong ∧ o.data = []) ↔
    ∃ P b0 b1 b2 rest, Paddings P ∧ s = P ++ b0 :: b1 :: b2 :: rest ∧
      b0 &&& 0x40 ≠ 0 ∧ b1 &&& 0x80 ≠ 0 ∧ b2 &&& 0x80 ≠ 0) ∧
  (o.err = some .unexpectedEOF ↔ ∃ P t, Paddings P ∧ s = P ++ t ∧ EndsInside t)

/-- **`ReadData` accepts exactly the chunk grammar.** For every reader that hands out its
bytes with nil errors and reports `io.EOF` on the call after the last one, and every
buffer, the outcome of `ReadData` is the one the grammar assigns to the bytes the reader
delivers. Non-minimal prefixes are part of the grammar (`LengthPrefix`), so they read
as minimal ones do. -/
theorem readData_chunkOutcomes (r : Reader σ) (hr : r.EofApart) (cap : Nat) :
    ChunkOutcomes r.rest cap (readData r cap) := by
  obtain ⟨hd, he, hn⟩ := readData_of_eofApart r hr cap
  unfold ChunkOutcomes
  rw [hd, he, hn]
  refine ⟨?_, ?_, ?_, ?_, decode_unexpectedEOF_iff r.rest cap⟩
  · rw [← decode_eof_iff r.rest cap]
    exact ⟨fun h => h.1, fun h => ⟨h, decode_data_nil (.inl h)⟩⟩
  · constructor
    · intro h
      obtain ⟨P, t, hP, hs, D, body, rest, hc, rfl, -⟩ := (decode_data_iff r.rest cap).mp h
      exact ⟨P, D, body, rest, hP, hc, by rw [hs, List.append_assoc]⟩
    · rintro ⟨P, D, body, rest, hP, hc, hs⟩
      rw [hs, decode_paddings_chunk hP hc]
      split_ifs
      · exact .inl rfl
      · exact .inr rfl
  · -- the reading is unique: `decode` follows it chunk by chunk
    intro P D body rest hP hc hs
    rw [hs, decode_paddings_chunk hP hc]
    exact ⟨rfl, rfl, rfl⟩
  · constructor
    · rintro ⟨h, -⟩
      obtain ⟨P, t, hP, hs, rest, hv⟩ := (decode_tooLong_iff r.rest cap).mp h
      obtain ⟨b0, b1, b2, rfl, h0, h1, h2⟩ := (viewPrefix_tooLong_iff _ _).mp hv
      exact ⟨P, b0, b1, b2, rest, hP, hs, h0, h1, h2⟩
    · rintro ⟨P, b0, b1, b2, rest, hP, hs, h0, h1, h2⟩
      have h : (decode r.rest cap).err = some ErrTooLong :=
        (decode_tooLong_iff r.rest cap).mpr
          ⟨P, _, hP, hs, rest, (viewPrefix_tooLong_iff _ _).mpr ⟨b0, b1, b2, rfl, h0, h1, h2⟩⟩
      exact ⟨h, decode_data_nil (.inr h)⟩

theorem readData_chunkOutcomes_zero_length_chunk :
    (Reader.ofBuffer [0x80]).EofApart ∧
      ChunkOutcomes [0x80] 1 (readData (Reader.ofBuffer [0x80]) 1) :=
  ⟨Reader.ofBuffer_eofApart _, readData_chunkOutcomes _ (Reader.ofBuffer_eofApart _) 1⟩

/-- A zero-length data chunk, `0x80`, read from a `bytes.Buffer` and from a reader that
attaches `io.EOF` to the byte: the first `ReadData` returns the empty chunk with a nil
error, the second `io.EOF`, as if the stream had ended before the prefix. The prefix
loop returns on any error without looking at the count the read returned. -/
theorem readData_eof_with_last_byte :
    (readData (Reader.ofBuffer [0x80]) 1).err = none ∧
      (readData (Reader.eofWithLast [0x80]) 1).err = some .eof := by
  constructor
  · rw [(readData_of_eofApart _ (Reader.ofBuffer_eofApart _) 1).2.1]
    change (decode [0x80] 1).err = none
    rw [decode_of_data (show viewPrefix [0x80] = .ok true 0 [] by decide)]
    rfl
  · have he : ((Reader.eofWithLast [0x80]).read 1).err = some .eof := by
      simp [Reader.read, Reader.eofWithLast, Policy.whole]
    rw [readData]
    split
    · rename_i e h
      rw [he] at h
      cases h
      rfl
    · rename_i h
      rw [he] at h
      cases h

end Snowflake.Encapsulation
