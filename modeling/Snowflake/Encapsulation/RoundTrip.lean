import Mathlib
import Snowflake.Encapsulation.Read
import Snowflake.Encapsulation.Write
/-
The round trip of `common/encapsulation`: a sender writes a sequence of data and padding
chunks into a `bytes.Buffer` with `WriteData` and `WritePadding`, and a receiver calls
`ReadData` on the buffer's bytes again and again, with buffers of any sizes.

The two halves meet at `Chunk.Encoded`, the shape of what one call writes. The write half
(`writeChunk_valid`, `writeChunks_valid`) says that every call succeeds, returns its
documented size and appends one encoded piece, the same piece whatever the buffer held.
The read half (`decode_encode`, `readSeq_encode`) says that each `ReadData` call returns
the next data chunk cut to its buffer and leaves the reader at the next chunk boundary;
it goes through the stream decoder of `Format.lean`, which `readData_of_eofApart` ties to
the Go loop.

The limit `0xfffff` on data lengths is the only hypothesis: past it `WriteData` fails with
`ErrTooLong`. Padding budgets are `Nat`s, so `WritePadding`'s panic on a negative size is
out of the model's range.
-/

set_option autoImplicit false

namespace Snowflake.Encapsulation

open GoIo

/-! ## Chunk sequences -/

/-- One call a sender makes: `WriteData(w, d)` or `WritePadding(w, n)`. -/
inductive Chunk where
  | data (d : List UInt8)
  | padding (n : Nat)
  deriving DecidableEq, Repr

/-- How many prefix bytes `dataPrefixForLength` uses for a length of six, thirteen or
twenty bits. -/
def dataPrefixLen (n : Nat) : Nat :=
  if n < 64 then 1 else if n < 8192 then 2 else 3

/-- What a call is documented to return and to write: the data with its prefix, or exactly
the padding budget. -/
def Chunk.encodedLength : Chunk → Nat
  | .data d => dataPrefixLen d.length + d.length
  | .padding n => n

/-- A chunk `WriteData` can encode. -/
def Chunk.Valid : Chunk → Prop
  | .data d => d.length ≤ 0xfffff
  | .padding _ => True

instance (c : Chunk) : Decidable c.Valid :=
  match c with
  | .data d => inferInstanceAs (Decidable (d.length ≤ 0xfffff))
  | .padding _ => inferInstanceAs (Decidable True)

/-- The bytes of one call, as the package doc's grammar has them: one data chunk with a
prefix of `dataPrefixLen` bytes, or padding chunks filling the budget. -/
def Chunk.Encoded : Chunk → List UInt8 → Prop
  | .data d, bytes => ∃ pre, LengthPrefix true d.length pre ∧
      pre.length = dataPrefixLen d.length ∧ bytes = pre ++ d
  | .padding n, bytes => Paddings bytes ∧ bytes.length = n

/-- One call on a `bytes.Buffer` holding `buf`. -/
def writeChunk (buf : List UInt8) : Chunk → WriteOut (List UInt8)
  | .data d => writeData Writer.buffer buf d
  | .padding n => writePadding Writer.buffer buf n

/-- The calls in order on one `bytes.Buffer`: what each returns, and the bytes at the end. -/
def writeChunks (buf : List UInt8) : List Chunk → List (Nat × Option Error) × List UInt8
  | [] => ([], buf)
  | c :: cs =>
    (((writeChunk buf c).n, (writeChunk buf c).err) :: (writeChunks (writeChunk buf c).next cs).1,
      (writeChunks (writeChunk buf c).next cs).2)

/-- The bytes one call appends, read off a call on an empty buffer. -/
def encodeChunk (c : Chunk) : List UInt8 := (writeChunk [] c).next

/-- The bytes of a whole sequence of calls. -/
def encode (cs : List Chunk) : List UInt8 := (cs.map encodeChunk).flatten

/-- The data chunks of a sequence, in order: what a receiver should get back. -/
def dataOf : List Chunk → List (List UInt8)
  | [] => []
  | .data d :: cs => d :: dataOf cs
  | .padding _ :: cs => dataOf cs

/-- The calls left after the first data chunk: what one `ReadData` call leaves unread. With
no data chunk left, nothing is. -/
def dropThroughData : List Chunk → List Chunk
  | [] => []
  | .data _ :: cs => cs
  | .padding _ :: cs => dropThroughData cs

@[simp] theorem encode_nil : encode [] = [] := rfl

@[simp] theorem encode_cons (c : Chunk) (cs : List Chunk) :
    encode (c :: cs) = encodeChunk c ++ encode cs := rfl

@[simp] theorem dataOf_map_data (ds : List (List UInt8)) : dataOf (ds.map .data) = ds := by
  induction ds with
  | nil => rfl
  | cons d ds ih => simp only [List.map_cons, dataOf, ih]

theorem dataOf_dropThroughData (cs : List Chunk) :
    dataOf (dropThroughData cs) = (dataOf cs).tail := by
  induction cs with
  | nil => rfl
  | cons c cs ih =>
    cases c with
    | data d => rfl
    | padding n => exact ih

theorem valid_of_mem_dropThroughData {cs : List Chunk} (hv : ∀ c ∈ cs, c.Valid) :
    ∀ c ∈ dropThroughData cs, c.Valid := by
  induction cs with
  | nil => simp [dropThroughData]
  | cons c cs ih =>
    have hv' : ∀ c ∈ cs, c.Valid := fun c' h => hv c' (List.mem_cons_of_mem c h)
    cases c with
    | data d => exact hv'
    | padding n => exact ih hv'

/-! ## The write half -/

theorem dataPrefixLen_eq_length {n : Nat} (hn : n < 2 ^ 20) {pre : List UInt8}
    (h : dataPrefixForLength n = .ok pre) : pre.length = dataPrefixLen n := by
  obtain ⟨pre', h', -, hl⟩ := dataPrefixForLength_ok hn
  rw [h] at h'
  cases h'
  exact hl

/-- **One call.** A valid chunk is written whatever the buffer holds: the call returns its
documented size with no error and appends the same encoded bytes, as long as that size. -/
theorem writeChunk_valid {c : Chunk} (hc : c.Valid) :
    c.Encoded (encodeChunk c) ∧ (encodeChunk c).length = c.encodedLength ∧
      ∀ buf, writeChunk buf c = ⟨c.encodedLength, none, buf ++ encodeChunk c⟩ := by
  cases c with
  | data d =>
    have hd : d.length < 2 ^ 20 := by simp only [Chunk.Valid] at hc; omega
    obtain ⟨pre, hpre, ⟨pre', hp, hpd⟩, hw⟩ := writeData_buffer_chunk d hd
    have hl := dataPrefixLen_eq_length hd hpre
    have he : encodeChunk (.data d) = pre ++ d := by
      rw [encodeChunk, writeChunk, hw, List.nil_append]
    rw [← List.append_cancel_right hpd] at hp
    refine ⟨⟨pre, hp, hl, he⟩, ?_, fun buf => ?_⟩
    · rw [he, List.length_append, hl]; rfl
    · rw [writeChunk, hw, he, hl]; rfl
  | padding n =>
    obtain ⟨pad, hpad, hlen, hw⟩ := writePadding_buffer n
    have he : encodeChunk (.padding n) = pad := by
      rw [encodeChunk, writeChunk, hw, List.nil_append]
    refine ⟨⟨he ▸ hpad, he ▸ hlen⟩, he ▸ hlen, fun buf => ?_⟩
    rw [writeChunk, hw, he]; rfl

/-- **All calls.** Writing a sequence of valid chunks in order, every call returns its size
with no error and the buffer ends with the encodings of the calls one after another. -/
theorem writeChunks_valid (buf : List UInt8) {cs : List Chunk} (hv : ∀ c ∈ cs, c.Valid) :
    writeChunks buf cs = (cs.map fun c => (c.encodedLength, none), buf ++ encode cs) := by
  induction cs generalizing buf with
  | nil => simp [writeChunks]
  | cons c cs ih =>
    have hw := (writeChunk_valid (hv c List.mem_cons_self)).2.2 buf
    have ih' := ih (buf ++ encodeChunk c) (fun c' h => hv c' (List.mem_cons_of_mem c h))
    simp only [writeChunks, hw, ih', List.map_cons, encode_cons, List.append_assoc]

/-! ## The read half -/

/-- **The stream decoder on an encoded sequence.** It returns the first data chunk, cut to
the buffer, and stops right after it; with no data chunk, it reports `io.EOF` at the end.
Either way what is left is the encoding of the calls after that chunk. The induction runs
over the calls; padding calls are skipped by `decode_paddings_append`. -/
theorem decode_encode {cs : List Chunk} (hv : ∀ c ∈ cs, c.Valid) (cap : Nat) :
    (decode (encode cs) cap).rest = encode (dropThroughData cs) ∧
      match (dataOf cs).head? with
      | some d => (decode (encode cs) cap).data = d.take cap ∧
          (decode (encode cs) cap).err = if d.length ≤ cap then none else some .shortBuffer
      | none => (decode (encode cs) cap).data = [] ∧ (decode (encode cs) cap).err = some .eof := by
  induction cs with
  | nil =>
    rw [encode_nil, decode_of_empty rfl]
    exact ⟨rfl, rfl, rfl⟩
  | cons c cs ih =>
    have hv' : ∀ c ∈ cs, c.Valid := fun c' h => hv c' (List.mem_cons_of_mem c h)
    have he := (writeChunk_valid (hv c List.mem_cons_self)).1
    cases c with
    | data d =>
      -- the first data chunk: returned, and exactly it consumed
      obtain ⟨pre, hp, -, hbytes⟩ := he
      rw [encode_cons, hbytes, decode_chunk_append ⟨pre, hp, rfl⟩]
      exact ⟨rfl, rfl, rfl⟩
    | padding n =>
      rw [encode_cons, decode_paddings_append he.1]
      exact ih hv'

/-- Successive `ReadData` calls on one reader with buffers of the given sizes: what each
returns, with the reader after it. -/
def readSeq {σ : Type} (r : Reader σ) : List Nat → List (ReadOut σ)
  | [] => []
  | p :: ps => readData r p :: readSeq (readData r p).next ps

/-- What a `ReadData` call with a buffer of `p` bytes returns when the data chunk it should
meet is `d?`: the chunk cut to the buffer with `io.ErrShortBuffer` if it was cut, and
`(0, io.EOF)` when no data chunk is left. -/
def ReadsChunk {σ : Type} (d? : Option (List UInt8)) (p : Nat) (o : ReadOut σ) : Prop :=
  match d? with
  | some d => o.data = d.take p ∧ o.err = if d.length ≤ p then none else some .shortBuffer
  | none => o.data = [] ∧ o.err = some .eof

/-- One `ReadData` call on a reader positioned at an encoded sequence. -/
theorem readData_encode {σ : Type} (r : Reader σ) (hr : r.EofApart) {cs : List Chunk}
    (hv : ∀ c ∈ cs, c.Valid) (hs : r.rest = encode cs) (p : Nat) :
    ReadsChunk (dataOf cs).head? p (readData r p) ∧
      (readData r p).next.rest = encode (dropThroughData cs) := by
  obtain ⟨hd, he, hn⟩ := readData_of_eofApart r hr p
  obtain ⟨hrest, hres⟩ := decode_encode hv p
  rw [hs] at hd he hn
  refine ⟨?_, hn.trans hrest⟩
  unfold ReadsChunk
  split
  · next d h =>
    rw [h] at hres
    exact ⟨hd.trans hres.1, he.trans hres.2⟩
  · next h =>
    rw [h] at hres
    exact ⟨hd.trans hres.1, he.trans hres.2⟩

/-- **The receiver's calls.** On a reader whose `io.EOF` comes apart from the data and
that is positioned at an encoded sequence, the `j`-th of successive `ReadData` calls
returns the `j`-th data chunk cut to its buffer (or `(0, io.EOF)` past the last one) and
leaves the reader right after that chunk. The induction is on the buffer sizes, one call
at a time; the reader keeps its policy (`readData_policy`) and so stays `EofApart`. -/
theorem readSeq_encode {σ : Type} (ps : List Nat) :
    ∀ (r : Reader σ), r.EofApart → ∀ (cs : List Chunk), (∀ c ∈ cs, c.Valid) →
      r.rest = encode cs → ∀ (j p : Nat), ps[j]? = some p →
        ∃ o, (readSeq r ps)[j]? = some o ∧ ReadsChunk (dataOf cs)[j]? p o ∧
          o.next.rest = encode (dropThroughData^[j + 1] cs) := by
  induction ps with
  | nil => intro r _ cs _ _ j p hp; simp at hp
  | cons q ps ih =>
    intro r hr cs hv hs j p hp
    obtain ⟨hread, hnext⟩ := readData_encode r hr hv hs q
    cases j with
    | zero =>
      -- the first call
      simp only [List.getElem?_cons_zero, Option.some.injEq] at hp
      subst hp
      refine ⟨readData r q, rfl, ?_, hnext⟩
      rw [List.head?_eq_getElem?] at hread
      exact hread
    | succ j =>
      -- the later calls, on the reader the first one left, at the calls after its chunk
      have hr' : (readData r q).next.EofApart := hr.of_policy (readData_policy r q)
      obtain ⟨o, ho, hreads, hrest⟩ := ih (readData r q).next hr' (dropThroughData cs)
        (valid_of_mem_dropThroughData hv) hnext j p (by simpa using hp)
      refine ⟨o, by simpa [readSeq] using ho, ?_, ?_⟩
      · rw [dataOf_dropThroughData, List.getElem?_tail] at hreads
        exact hreads
      · rw [Function.iterate_succ_apply]
        exact hrest

/-! ## The round trip -/

/-- **Round trip with stream alignment.** Write valid chunks in order into an empty
`bytes.Buffer`: every call succeeds, returning and appending exactly its documented size
(`dataPrefixLen` prefix bytes plus the data, or the padding budget). Then read the bytes
back with successive `ReadData` calls and any buffer sizes: the `j`-th call returns the
`j`-th data chunk cut to its buffer, with `io.ErrShortBuffer` exactly when it was cut,
consumes exactly that chunk and the padding before it, and once the data chunks are used up
returns `(0, io.EOF)`. -/
theorem writeChunks_readSeq_roundTrip (cs : List Chunk) (hv : ∀ c ∈ cs, c.Valid) :
    (∀ c ∈ cs, ∀ buf, writeChunk buf c = ⟨c.encodedLength, none, buf ++ encodeChunk c⟩ ∧
        (encodeChunk c).length = c.encodedLength) ∧
      writeChunks [] cs = (cs.map fun c => (c.encodedLength, none), encode cs) ∧
      ∀ (ps : List Nat) (j p : Nat), ps[j]? = some p →
        ∃ o, (readSeq (Reader.ofBuffer (writeChunks [] cs).2) ps)[j]? = some o ∧
          ReadsChunk (dataOf cs)[j]? p o ∧ o.next.rest = encode (dropThroughData^[j + 1] cs) := by
  have hw := writeChunks_valid [] hv
  refine ⟨fun c hc buf => ⟨(writeChunk_valid (hv c hc)).2.2 buf, (writeChunk_valid (hv c hc)).2.1⟩,
    hw, fun ps j p hp => ?_⟩
  rw [hw]
  exact readSeq_encode ps _ (Reader.ofBuffer_eofApart _) cs hv rfl j p hp

/-- A data chunk of five bytes after a padding budget of 70, read back with buffers of two
and eight bytes: the first read is cut short, the second finds the end. -/
theorem writeChunks_readSeq_roundTrip_padded :
    (∀ c ∈ [Chunk.padding 70, .data [1, 2, 3, 4, 5]], c.Valid) ∧
      ∃ o, (readSeq (Reader.ofBuffer (writeChunks [] [.padding 70, .data [1, 2, 3, 4, 5]]).2)
          [2, 8])[0]? = some o ∧
        ReadsChunk (dataOf [.padding 70, .data [1, 2, 3, 4, 5]])[0]? 2 o ∧
        o.next.rest = encode (dropThroughData^[0 + 1] [.padding 70, .data [1, 2, 3, 4, 5]]) := by
  have hv : ∀ c ∈ [Chunk.padding 70, .data [1, 2, 3, 4, 5]], c.Valid := by decide
  exact ⟨hv, (writeChunks_readSeq_roundTrip _ hv).2.2 [2, 8] 0 2 rfl⟩

end Snowflake.Encapsulation
