import Mathlib
/-
Go's `io` reading and writing contract, as a byte-stream model.

A Go `io.Reader` is anything with a `Read(p []byte) (n int, err error)` method. The
programs modelled on top of this file only ever read byte streams (a `bytes.Buffer`, a
pipe, an HTTP body, a WebSocket), and what they may rely on is the contract of the
interface. What varies between readers is only *how* the bytes are handed out: how many
per call, and whether `io.EOF` comes together with the last bytes or on the call after
them. So a reader here is the bytes it still has to deliver together with a `Policy`,
an arbitrary state machine that decides each call's share. The contract is carried by
the policy's fields (`chunk_pos`, `chunk_le`), so a reader that breaks it cannot be
built, and every reader that keeps it is one of these: the policy state may be the
whole call history.

On top of `Read` the file models the library loops the encapsulation code calls:
`io.ReadFull` (through `io.ReadAtLeast`) and `io.CopyN` into `io.Discard` (through
`io.LimitReader` and `io.Discard`'s `ReadFrom`, which reads in 8192-byte pieces). Each
loop is total because a `Read` that delivers nothing reports an error, and each comes
with the one lemma its callers use: what it returns on a reader whose `io.EOF` comes
apart from the data.
-/

set_option autoImplicit false

namespace GoIo

/-! ## Errors, readers and `Read` -/

/-- The error values the readers and writers here can return. -/
inductive Error where
  /-- `io.EOF` -/
  | eof
  /-- `io.ErrUnexpectedEOF` -/
  | unexpectedEOF
  /-- `io.ErrShortBuffer` -/
  | shortBuffer
  /-- Any other error value, by its message (`errors.New(msg)`). -/
  | other (msg : String)
  deriving DecidableEq, Repr

/-- How a reader splits its bytes: at each `Read` with a buffer of `k` bytes it hands
out `chunk s k` of them, between one and `k`, and `eofWithLast s` says whether `io.EOF`
comes with the call that empties it. -/
structure Policy (σ : Type) where
  chunk : σ → Nat → Nat
  chunk_pos : ∀ s k, 0 < k → 0 < chunk s k
  chunk_le : ∀ s k, chunk s k ≤ k
  eofWithLast : σ → Bool
  next : σ → Nat → σ

/-- A reader: its policy, the policy's state, and the bytes it has not delivered yet. -/
structure Reader (σ : Type) where
  policy : Policy σ
  state : σ
  rest : List UInt8

/-- What a read returns: the bytes placed at the front of the caller's buffer (their
length is the count `n`), the error, and the reader afterwards. -/
structure ReadOut (σ : Type) where
  data : List UInt8
  err : Option Error
  next : Reader σ

variable {σ : Type}

/-- `r.Read(p)` with `len(p) = k`. An empty buffer gets `(0, nil)`, an emptied reader
`(0, io.EOF)`; otherwise the policy's share of the bytes, with `io.EOF` attached when
the policy says so and nothing is left. -/
def Reader.read (r : Reader σ) (k : Nat) : ReadOut σ :=
  if k = 0 then ⟨[], none, r⟩
  else if r.rest = [] then ⟨[], some .eof, r⟩
  else
    let m := r.policy.chunk r.state k
    ⟨r.rest.take m,
      if decide (r.rest.length ≤ m) && r.policy.eofWithLast r.state then some .eof else none,
      { r with state := r.policy.next r.state k, rest := r.rest.drop m }⟩

/-- The reader never hands out `io.EOF` together with data: it returns its last bytes
with a nil error and `(0, io.EOF)` on the next call, as `bytes.Buffer` does. -/
def Reader.EofApart (r : Reader σ) : Prop :=
  ∀ s, r.policy.eofWithLast s = false

/-- The policy of `bytes.Buffer`: as many bytes as fit, `io.EOF` only when empty. -/
def Policy.whole : Policy Unit where
  chunk _ k := k
  chunk_pos _ _ h := h
  chunk_le _ _ := Nat.le_refl _
  eofWithLast _ := false
  next _ _ := ()

/-- A `bytes.Buffer` holding `buf`, read from the front. -/
def Reader.ofBuffer (buf : List UInt8) : Reader Unit := ⟨Policy.whole, (), buf⟩

/-- A reader of `buf` that takes as much as fits, like `bytes.Buffer`, but hands out
`io.EOF` together with its last bytes, as the `io.Reader` contract also allows. -/
def Reader.eofWithLast (buf : List UInt8) : Reader Unit :=
  ⟨{ Policy.whole with eofWithLast := fun _ => true }, (), buf⟩

theorem Reader.ofBuffer_eofApart (buf : List UInt8) : (Reader.ofBuffer buf).EofApart :=
  fun _ => rfl

@[simp] theorem Reader.read_policy (r : Reader σ) (k : Nat) :
    (r.read k).next.policy = r.policy := by
  unfold Reader.read
  split_ifs <;> rfl

/-- `EofApart` is a property of the policy alone: it passes to every reader with the same one. -/
theorem Reader.EofApart.of_policy {r r' : Reader σ} (hr : r.EofApart)
    (h : r'.policy = r.policy) : r'.EofApart := fun s => by
  rw [h]
  exact hr s

/-- A read moves bytes from the stream to the caller and loses none. -/
theorem Reader.read_append (r : Reader σ) (k : Nat) :
    (r.read k).data ++ (r.read k).next.rest = r.rest := by
  unfold Reader.read
  split_ifs with h0 h1
  · rfl
  · simp [h1]
  · exact List.take_append_drop _ _

theorem Reader.read_length_le (r : Reader σ) (k : Nat) : (r.read k).data.length ≤ k := by
  unfold Reader.read
  split_ifs with h0 h1
  · simp
  · simp
  · simp only [List.length_take]
    exact Nat.le_trans (Nat.min_le_left _ _) (r.policy.chunk_le _ _)

theorem Reader.read_rest_le (r : Reader σ) (k : Nat) :
    (r.read k).next.rest.length ≤ r.rest.length := by
  have h := congrArg List.length (r.read_append k)
  rw [List.length_append] at h
  omega

/-- The progress half of the contract: a read into a non-empty buffer that reports no
error has delivered at least one byte. -/
theorem Reader.read_data_pos (r : Reader σ) {k : Nat} (hk : 0 < k)
    (he : (r.read k).err = none) : 0 < (r.read k).data.length := by
  have hk0 : k ≠ 0 := by omega
  by_cases h1 : r.rest = []
  · simp [Reader.read, hk0, h1] at he
  · simp only [Reader.read, if_neg hk0, if_neg h1, List.length_take]
    have hm := r.policy.chunk_pos r.state k hk
    have hl : 0 < r.rest.length := List.length_pos_iff.mpr h1
    omega

/-- The only error a read reports is `io.EOF`. -/
theorem Reader.read_err_eq_eof (r : Reader σ) {k : Nat} {e : Error}
    (he : (r.read k).err = some e) : e = .eof := by
  unfold Reader.read at he
  split_ifs at he <;> simp_all

/-- On an `EofApart` reader the error of a read is decided by the stream alone. -/
theorem Reader.read_err_of_eofApart (r : Reader σ) (hr : r.EofApart) {k : Nat} (hk : 0 < k) :
    (r.read k).err = if r.rest = [] then some .eof else none := by
  unfold Reader.read
  rw [if_neg (by omega)]
  split_ifs with h1
  · rfl
  · rw [hr]; simp

/-- A one-byte read on a non-empty stream takes exactly its first byte. -/
theorem Reader.read_one (r : Reader σ) {b : UInt8} {t : List UInt8} (hs : r.rest = b :: t) :
    (r.read 1).data = [b] ∧ (r.read 1).next.rest = t := by
  have hm := r.policy.chunk_pos r.state 1 Nat.one_pos
  have hm1 := r.policy.chunk_le r.state 1
  have h1 : r.policy.chunk r.state 1 = 1 := by omega
  unfold Reader.read
  simp [hs, h1]

/-- The first byte of a successful one-byte read. -/
theorem Reader.read_first (r : Reader σ) (hr : r.EofApart) (he : (r.read 1).err = none) :
    ∃ b t, r.rest = b :: t ∧ (r.read 1).data = [b] ∧ (r.read 1).next.rest = t := by
  match hs : r.rest with
  | [] =>
    rw [r.read_err_of_eofApart hr Nat.one_pos, if_pos hs] at he
    cases he
  | b :: t => exact ⟨b, t, rfl, r.read_one hs⟩

/-! ## `io.ReadFull` -/

/-- The loop of `io.ReadAtLeast(r, buf, min)`, `for n < min && err == nil`, with `want`
bytes of `buf[n:]` still to fill and `acc` the bytes `buf[:n]` read so far. -/
def readAtLeastLoop (r : Reader σ) (want : Nat) (acc : List UInt8) : ReadOut σ :=
  if hw : want = 0 then ⟨acc, none, r⟩
  else
    match he : (r.read want).err with
    | none => readAtLeastLoop (r.read want).next (want - (r.read want).data.length)
        (acc ++ (r.read want).data)
    | some e => ⟨acc ++ (r.read want).data, some e, (r.read want).next⟩
termination_by want
decreasing_by
  have := r.read_data_pos (Nat.pos_of_ne_zero hw) he
  omega

/-- `io.ReadFull(r, buf)` with `len(buf) = len`: a full buffer means no error, whatever
the last read said; a partial one turns `io.EOF` into `io.ErrUnexpectedEOF`. -/
def readFull (r : Reader σ) (len : Nat) : ReadOut σ :=
  let o := readAtLeastLoop r len []
  if len ≤ o.data.length then ⟨o.data, none, o.next⟩
  else if 0 < o.data.length ∧ o.err = some .eof then ⟨o.data, some .unexpectedEOF, o.next⟩
  else o

theorem readAtLeastLoop_policy (r : Reader σ) (want : Nat) (acc : List UInt8) :
    (readAtLeastLoop r want acc).next.policy = r.policy := by
  fun_induction readAtLeastLoop r want acc with
  | case1 => rfl
  | case2 r want acc hw he ih => rw [ih, Reader.read_policy]
  | case3 r want acc hw e he => exact Reader.read_policy r want

theorem readAtLeastLoop_append (r : Reader σ) (want : Nat) (acc : List UInt8) :
    (readAtLeastLoop r want acc).data ++ (readAtLeastLoop r want acc).next.rest
      = acc ++ r.rest := by
  fun_induction readAtLeastLoop r want acc with
  | case1 => rfl
  | case2 r want acc hw he ih => rw [ih, List.append_assoc, Reader.read_append]
  | case3 r want acc hw e he => rw [List.append_assoc, Reader.read_append]

theorem readFull_policy (r : Reader σ) (len : Nat) :
    (readFull r len).next.policy = r.policy := by
  simp only [readFull]
  split_ifs <;> exact readAtLeastLoop_policy r len []

theorem readFull_append (r : Reader σ) (len : Nat) :
    (readFull r len).data ++ (readFull r len).next.rest = r.rest := by
  have h := readAtLeastLoop_append r len []
  simp only [readFull]
  split_ifs <;> simpa using h

/-- The loop never fills more than it was asked for, and with no error it filled exactly
that. -/
theorem readAtLeastLoop_length (r : Reader σ) (want : Nat) (acc : List UInt8) :
    (readAtLeastLoop r want acc).data.length ≤ acc.length + want ∧
      ((readAtLeastLoop r want acc).err = none →
        (readAtLeastLoop r want acc).data.length = acc.length + want) := by
  fun_induction readAtLeastLoop r want acc with
  | case1 r acc => simp
  | case2 r want acc hw he ih =>
    have hle := r.read_length_le want
    rw [List.length_append] at ih
    exact ⟨by omega, fun h => by have := ih.2 h; omega⟩
  | case3 r want acc hw e he =>
    have hle := r.read_length_le want
    refine ⟨by rw [List.length_append]; omega, fun h => ?_⟩
    cases h

/-- `io.ReadFull` with no error filled the whole buffer, on any reader. -/
theorem readFull_length_of_ok (r : Reader σ) {len : Nat} (h : (readFull r len).err = none) :
    (readFull r len).data.length = len := by
  obtain ⟨hle, hok⟩ := readAtLeastLoop_length r len []
  rw [List.length_nil, Nat.zero_add] at hle hok
  simp only [readFull] at h ⊢
  split_ifs at h ⊢ with h1 h2
  · show (readAtLeastLoop r len []).data.length = len
    omega
  · exact hok h

/-- The loop on an `EofApart` reader: it takes the next `want` bytes, or all there are
with `io.EOF` if the stream is shorter. -/
theorem readAtLeastLoop_of_eofApart (r : Reader σ) (hr : r.EofApart) (want : Nat)
    (acc : List UInt8) :
    (readAtLeastLoop r want acc).data = acc ++ r.rest.take want ∧
    (readAtLeastLoop r want acc).err = (if want ≤ r.rest.length then none else some .eof) ∧
    (readAtLeastLoop r want acc).next.rest = r.rest.drop want := by
  fun_induction readAtLeastLoop r want acc with
  | case1 r acc => simp
  | case2 r want acc hw he ih =>
    have hk : 0 < want := Nat.pos_of_ne_zero hw
    have hne : r.rest ≠ [] := by
      intro h0
      rw [r.read_err_of_eofApart hr hk, if_pos h0] at he
      cases he
    have hpol : (r.read want).next.EofApart := hr.of_policy (r.read_policy want)
    obtain ⟨ih1, ih2, ih3⟩ := ih hpol
    have happ := r.read_append want
    have hle := r.read_length_le want
    -- the first read took `d`, a prefix of the stream; the rest of the loop sees the remainder
    set d := (r.read want).data
    set t := (r.read want).next.rest
    have hrest : r.rest = d ++ t := happ.symm
    refine ⟨?_, ?_, ?_⟩
    · rw [ih1, hrest, List.append_assoc, List.take_append, List.take_of_length_le hle]
    · rw [ih2, hrest, List.length_append]
      by_cases hwt : want - d.length ≤ t.length
      · rw [if_pos hwt, if_pos (by omega)]
      · rw [if_neg hwt, if_neg (by omega)]
    · rw [ih3, hrest, List.drop_append, List.drop_of_length_le hle, List.nil_append]
  | case3 r want acc hw e he =>
    have hk : 0 < want := Nat.pos_of_ne_zero hw
    have he' := he
    rw [r.read_err_of_eofApart hr hk] at he'
    split_ifs at he' with h0
    cases he'
    simp [Reader.read, hw, h0]

/-- `io.ReadFull` on an `EofApart` reader: the next `len` bytes and no error, or all
there are with `io.ErrUnexpectedEOF`, or `io.EOF` if there were none. -/
theorem readFull_of_eofApart (r : Reader σ) (hr : r.EofApart) (len : Nat) :
    (readFull r len).data = r.rest.take len ∧
    (readFull r len).err = (if len ≤ r.rest.length then none
      else if 0 < r.rest.length then some .unexpectedEOF else some .eof) ∧
    (readFull r len).next.rest = r.rest.drop len := by
  obtain ⟨h1, h2, h3⟩ := readAtLeastLoop_of_eofApart r hr len []
  rw [List.nil_append] at h1
  have hlen : (readAtLeastLoop r len []).data.length = min len r.rest.length := by
    rw [h1, List.length_take]
  simp only [readFull]
  by_cases hl : len ≤ r.rest.length
  · have hd : len ≤ (readAtLeastLoop r len []).data.length := by rw [hlen]; omega
    rw [if_pos hd, if_pos hl]
    exact ⟨h1, rfl, h3⟩
  · have hd : ¬ len ≤ (readAtLeastLoop r len []).data.length := by rw [hlen]; omega
    rw [if_neg hd, if_neg hl]
    rw [if_neg hl] at h2
    -- a partial fill reports `io.ErrUnexpectedEOF` only when some byte came at all
    by_cases h0 : 0 < r.rest.length
    · have hc : 0 < (readAtLeastLoop r len []).data.length ∧
          (readAtLeastLoop r len []).err = some .eof := ⟨by rw [hlen]; omega, h2⟩
      rw [if_pos hc, if_pos h0]
      exact ⟨h1, rfl, h3⟩
    · have hc : ¬ (0 < (readAtLeastLoop r len []).data.length ∧
          (readAtLeastLoop r len []).err = some .eof) := fun h => by rw [hlen] at h; omega
      rw [if_neg hc, if_neg h0]
      exact ⟨h1, h2, h3⟩

/-! ## `io.CopyN(io.Discard, r, n)` -/

/-- What a copy returns: the count written, the error, and the reader afterwards. -/
structure CopyOut (σ : Type) where
  written : Nat
  err : Option Error
  next : Reader σ

/-- `io.Discard`'s `ReadFrom` on `io.LimitReader(r, limit)`: it reads into its 8192-byte
buffer until an error, counting what it throws away in `thrown`. The limit reader
reports `io.EOF` by itself once `limit` bytes are gone, and `io.EOF` from either ends
the loop with a nil error. -/
def discardLoop (r : Reader σ) (limit : Nat) (thrown : Nat) : CopyOut σ :=
  if hl : limit = 0 then ⟨thrown, none, r⟩
  else
    match he : (r.read (min 8192 limit)).err with
    | none => discardLoop (r.read (min 8192 limit)).next
        (limit - (r.read (min 8192 limit)).data.length)
        (thrown + (r.read (min 8192 limit)).data.length)
    | some .eof => ⟨thrown + (r.read (min 8192 limit)).data.length, none,
        (r.read (min 8192 limit)).next⟩
    | some e => ⟨thrown + (r.read (min 8192 limit)).data.length, some e,
        (r.read (min 8192 limit)).next⟩
termination_by limit
decreasing_by
  have := r.read_data_pos (show 0 < min 8192 limit by omega) he
  have := r.read_length_le (min 8192 limit)
  omega

/-- `io.CopyN(io.Discard, r, n)`: the copy succeeds exactly when all `n` bytes went;
a source that stopped early without an error must have reached `io.EOF`. -/
def copyN (r : Reader σ) (n : Nat) : CopyOut σ :=
  let o := discardLoop r n 0
  if o.written = n then ⟨n, none, o.next⟩
  else if o.written < n ∧ o.err = none then ⟨o.written, some .eof, o.next⟩
  else o

theorem discardLoop_policy (r : Reader σ) (limit thrown : Nat) :
    (discardLoop r limit thrown).next.policy = r.policy := by
  fun_induction discardLoop r limit thrown with
  | case1 => rfl
  | case2 r limit thrown hl he ih => rw [ih, Reader.read_policy]
  | case3 r limit thrown hl he => exact Reader.read_policy r _
  | case4 r limit thrown hl e hne he => exact Reader.read_policy r _

theorem discardLoop_rest_le (r : Reader σ) (limit thrown : Nat) :
    (discardLoop r limit thrown).next.rest.length ≤ r.rest.length := by
  fun_induction discardLoop r limit thrown with
  | case1 => exact Nat.le_refl _
  | case2 r limit thrown hl he ih => exact Nat.le_trans ih (r.read_rest_le _)
  | case3 r limit thrown hl he => exact r.read_rest_le _
  | case4 r limit thrown hl e hne he => exact r.read_rest_le _

theorem copyN_policy (r : Reader σ) (n : Nat) : (copyN r n).next.policy = r.policy := by
  simp only [copyN]
  split_ifs <;> exact discardLoop_policy r n 0

theorem copyN_rest_le (r : Reader σ) (n : Nat) :
    (copyN r n).next.rest.length ≤ r.rest.length := by
  simp only [copyN]
  split_ifs <;> exact discardLoop_rest_le r n 0

/-- The discard loop on an `EofApart` reader throws away the next `limit` bytes, or all
there are, and never fails: running out is the `io.EOF` that ends it. -/
theorem discardLoop_of_eofApart (r : Reader σ) (hr : r.EofApart) (limit thrown : Nat) :
    (discardLoop r limit thrown).written = thrown + min limit r.rest.length ∧
    (discardLoop r limit thrown).err = none ∧
    (discardLoop r limit thrown).next.rest = r.rest.drop limit := by
  fun_induction discardLoop r limit thrown with
  | case1 r thrown => simp
  | case2 r limit thrown hl he ih =>
    have hpol : (r.read (min 8192 limit)).next.EofApart :=
      hr.of_policy (r.read_policy (min 8192 limit))
    obtain ⟨ih1, ih2, ih3⟩ := ih hpol
    have hle := r.read_length_le (min 8192 limit)
    set d := (r.read (min 8192 limit)).data
    set t := (r.read (min 8192 limit)).next.rest
    have hrest : r.rest = d ++ t := (r.read_append _).symm
    refine ⟨?_, ih2, ?_⟩
    · rw [ih1, hrest, List.length_append]
      omega
    · rw [ih3, hrest, List.drop_append,
        List.drop_of_length_le (show d.length ≤ limit by omega), List.nil_append]
  | case3 r limit thrown hl he =>
    -- `io.EOF` on an `EofApart` reader means the stream was already empty
    have hk : 0 < min 8192 limit := by omega
    have he' := he
    rw [r.read_err_of_eofApart hr hk] at he'
    split_ifs at he' with h0
    simp [Reader.read, hl, h0]
  | case4 r limit thrown hl e hne he =>
    have hk : 0 < min 8192 limit := by omega
    have he' := he
    rw [r.read_err_of_eofApart hr hk] at he'
    split_ifs at he' with h0
    cases he'
    exact absurd rfl hne

/-- `io.CopyN(io.Discard, r, n)` on an `EofApart` reader: all `n` bytes go and the error
is nil, or the stream runs out first and the error is `io.EOF`. -/
theorem copyN_of_eofApart (r : Reader σ) (hr : r.EofApart) (n : Nat) :
    (copyN r n).err = (if n ≤ r.rest.length then none else some .eof) ∧
    (copyN r n).next.rest = r.rest.drop n := by
  obtain ⟨h1, h2, h3⟩ := discardLoop_of_eofApart r hr n 0
  rw [Nat.zero_add] at h1
  simp only [copyN]
  by_cases hl : n ≤ r.rest.length
  · have hw : (discardLoop r n 0).written = n := by rw [h1]; omega
    rw [if_pos hw, if_pos hl]
    exact ⟨rfl, h3⟩
  · have hw : ¬ (discardLoop r n 0).written = n := by rw [h1]; omega
    have hc : (discardLoop r n 0).written < n ∧ (discardLoop r n 0).err = none :=
      ⟨by rw [h1]; omega, h2⟩
    rw [if_neg hw, if_pos hc, if_neg hl]
    exact ⟨rfl, h3⟩

/-! ## Writers -/

/-- What a write returns: the count written, the error, and the writer afterwards. -/
structure WriteOut (τ : Type) where
  n : Nat
  err : Option Error
  next : τ

/-- An `io.Writer`: its state and its `Write` method. -/
structure Writer (τ : Type) where
  write : τ → List UInt8 → WriteOut τ

/-- `bytes.Buffer` as a writer: `Write` appends everything and never fails. -/
def Writer.buffer : Writer (List UInt8) := ⟨fun buf p => ⟨p.length, none, buf ++ p⟩⟩

end GoIo
