import Mathlib
import Snowflake.Lib.Base64
import Snowflake.Lib.Chunks
/-
`common/amp/armor_encoder.go`: the AMP armor encoder, which carries a byte stream inside an AMP
HTML page. It writes the boilerplate, then a version byte `'0'` and the base64 encoding of the
stream through `elementEncoder`, which cuts it into lines of `bytesPerChunk` bytes and the lines
into `<pre>` elements of `chunksPerElement` lines, and then the closing boilerplate.

## The model

Writes to the underlying `io.Writer` always succeed, and a run of the encoder is the bytes it
writes. `elementEncoder.Write` also returns its count `total`; the base64 encoder that calls it
keeps only the bytes.

## What is proved

`ElementEncoder.write_spec`: from any state, `Write` writes `emit` of its input from the state's
position in its element, one input byte at a time; so a run of writes depends only on the
concatenation of what is written (`ElementEncoder.writeAll_spec`). `emit_render`: from a fresh
encoder, `emit` and `Close` lay the input out as the `<pre>` elements of `elementsOf`.
`armorOutput_eq`: whatever the split of the input into `Write` calls, the page is the boilerplate
around the elements of `elementsOf` the version byte and the base64 encoding of the whole input.
-/

set_option autoImplicit false

namespace Snowflake.Amp

open GoBase64

/-! ## Constants -/

/-- `elementSizeLimit`: the text allowed inside one element. -/
def elementSizeLimit : Nat := 32 * 1024

/-- `bytesPerChunk`: the bytes of one line. -/
def bytesPerChunk : Nat := 32

/-- `chunksPerElement`: lines per element, so that a line and its newline each, and the newline
after `<pre>`, stay within `elementSizeLimit`. -/
def chunksPerElement : Nat := (elementSizeLimit - 1) / (bytesPerChunk + 1)

/-- `[]byte(s)`. -/
def bytesOf (s : String) : List UInt8 := s.toUTF8.toList

/-- `boilerplateStart`. -/
def boilerplateStart : String :=
  "<!doctype html>\n<html amp>\n<head>\n<meta charset=\"utf-8\">\n" ++
  "<script async src=\"https://cdn.ampproject.org/v0.js\"></script>\n" ++
  "<link rel=\"canonical\" href=\"#\">\n" ++
  "<meta name=\"viewport\" content=\"width=device-width\">\n" ++
  "<style amp-boilerplate>body\x7b-webkit-animation:-amp-start 8s steps(1,end) 0s 1 normal both;" ++
  "-moz-animation:-amp-start 8s steps(1,end) 0s 1 normal both;" ++
  "-ms-animation:-amp-start 8s steps(1,end) 0s 1 normal both;" ++
  "animation:-amp-start 8s steps(1,end) 0s 1 normal both\x7d" ++
  "@-webkit-keyframes -amp-start\x7bfrom\x7bvisibility:hidden\x7dto\x7bvisibility:visible\x7d\x7d" ++
  "@-moz-keyframes -amp-start\x7bfrom\x7bvisibility:hidden\x7dto\x7bvisibility:visible\x7d\x7d" ++
  "@-ms-keyframes -amp-start\x7bfrom\x7bvisibility:hidden\x7dto\x7bvisibility:visible\x7d\x7d" ++
  "@-o-keyframes -amp-start\x7bfrom\x7bvisibility:hidden\x7dto\x7bvisibility:visible\x7d\x7d" ++
  "@keyframes -amp-start\x7bfrom\x7bvisibility:hidden\x7dto\x7bvisibility:visible\x7d\x7d</style>" ++
  "<noscript><style amp-boilerplate>body\x7b-webkit-animation:none;-moz-animation:none;" ++
  "-ms-animation:none;animation:none\x7d</style></noscript>\n</head>\n<body>\n"

/-- `boilerplateEnd`. -/
def boilerplateEnd : String := "</body>\n</html>"

/-- `"<pre>\n"`. -/
def preOpen : List UInt8 := [60, 112, 114, 101, 62, 10]

/-- `"<pre>"`, the start tag alone. -/
def preStart : List UInt8 := [60, 112, 114, 101, 62]

/-- `"\n"`. -/
def newline : List UInt8 := [10]

/-- `"</pre>\n"`. -/
def preClose : List UInt8 := [60, 47, 112, 114, 101, 62, 10]

example : preOpen = bytesOf "<pre>\n" ∧ preClose = bytesOf "</pre>\n" ∧ newline = bytesOf "\n" := by
  decide +kernel

theorem preOpen_eq : preOpen = preStart ++ newline := rfl

/-- The input bytes of one full element. -/
def bytesPerElement : Nat := bytesPerChunk * chunksPerElement

theorem chunksPerElement_eq : chunksPerElement = 992 := by decide

theorem bytesPerElement_eq : bytesPerElement = 31744 := by decide

/-! ## `elementEncoder` -/

/-- `elementEncoder`: how far the current line and the current element are. -/
structure ElementEncoder where
  chunkCounter : Nat
  elementCounter : Nat
  chunkCounter_lt : chunkCounter < bytesPerChunk
  elementCounter_lt : elementCounter < chunksPerElement

def ElementEncoder.fresh : ElementEncoder := ⟨0, 0, by decide, by decide⟩

/-- The end of one pass of the loop of `elementEncoder.Write`, after `n` more bytes of the line:
a full line gets its `"\n"`, and a full element its `"</pre>\n"`. -/
def ElementEncoder.advance (enc : ElementEncoder) (n : Nat) : ElementEncoder × List UInt8 :=
  if h : enc.chunkCounter + n < bytesPerChunk then
    (⟨enc.chunkCounter + n, enc.elementCounter, h, enc.elementCounter_lt⟩, [])
  else if h' : enc.elementCounter + 1 < chunksPerElement then
    (⟨0, enc.elementCounter + 1, by decide, h'⟩, newline)
  else (ElementEncoder.fresh, newline ++ preClose)

/-- `"<pre>\n"` when a new element starts. -/
def ElementEncoder.start (enc : ElementEncoder) : List UInt8 :=
  if enc.elementCounter = 0 ∧ enc.chunkCounter = 0 then preOpen else []

/-- What a call of `elementEncoder.Write` leaves: the encoder, the bytes it wrote to `w`, and the
count `total` it returned. -/
structure ElementWrite where
  enc : ElementEncoder
  out : List UInt8
  total : Nat

/-- `elementEncoder.Write`: each pass writes what fits in the current line, and `total` adds what
the writes of `p[:n]`, `"\n"` and `"</pre>\n"` report, but not the write of `"<pre>\n"`. -/
def ElementEncoder.write (enc : ElementEncoder) (p : List UInt8) : ElementWrite :=
  match p with
  | [] => ⟨enc, [], 0⟩
  | b :: bs =>
    let n := min (bytesPerChunk - enc.chunkCounter) (b :: bs).length
    let r := enc.advance n
    let rest := r.1.write ((b :: bs).drop n)
    ⟨rest.enc, enc.start ++ (b :: bs).take n ++ r.2 ++ rest.out, n + r.2.length + rest.total⟩
termination_by p.length
decreasing_by
  have := enc.chunkCounter_lt
  simp only [List.length_drop, List.length_cons]
  omega

/-- `elementEncoder.Close`: end the open line and element. -/
def ElementEncoder.close (enc : ElementEncoder) : List UInt8 :=
  if enc.elementCounter ≠ 0 ∨ enc.chunkCounter ≠ 0 then
    if enc.chunkCounter = 0 then preClose else newline ++ preClose
  else []

/-- Writes one after the other, as the base64 encoder makes them: the counts are dropped. -/
def ElementEncoder.writeAll (enc : ElementEncoder) :
    List (List UInt8) → ElementEncoder × List UInt8
  | [] => (enc, [])
  | p :: ps =>
    let r := (enc.write p).enc.writeAll ps
    (r.1, (enc.write p).out ++ r.2)

/-! ## One input byte at a time

The loop of `Write` writes a line's worth of input at once, but what it writes is a function of
each input byte and its position in the element. `emit` says so, and `write_spec` ties the loop
to it from any state. -/

/-- How far into its element the encoder is, in input bytes. -/
def ElementEncoder.pos (enc : ElementEncoder) : Nat :=
  enc.elementCounter * bytesPerChunk + enc.chunkCounter

theorem ElementEncoder.pos_lt (enc : ElementEncoder) : enc.pos < bytesPerElement := by
  have hc := enc.chunkCounter_lt
  have he := enc.elementCounter_lt
  unfold ElementEncoder.pos
  rw [bytesPerElement_eq]
  rw [chunksPerElement_eq] at he
  unfold bytesPerChunk at hc ⊢
  omega

/-- What follows the input byte that brings the element to `v` bytes: `"\n"` at the end of a
line, and `"</pre>\n"` after it at the end of the element. -/
def lineEnd (v : Nat) : List UInt8 :=
  if v % bytesPerChunk = 0 then newline ++ (if v = bytesPerElement then preClose else []) else []

/-- The bytes the element encoder writes for `p` from position `u` of an element: `"<pre>\n"`
before the first byte of an element, then each byte and its `lineEnd`. -/
def emit (u : Nat) : List UInt8 → List UInt8
  | [] => []
  | b :: bs =>
    (if u = 0 then preOpen else []) ++ b :: (lineEnd (u + 1) ++ emit ((u + 1) % bytesPerElement) bs)

/-- What `Close` writes at position `u` of an element. -/
def closeAt (u : Nat) : List UInt8 :=
  if u = 0 then [] else if u % bytesPerChunk = 0 then preClose else newline ++ preClose

theorem emit_append {u : Nat} (hu : u < bytesPerElement) (x y : List UInt8) :
    emit u (x ++ y) = emit u x ++ emit ((u + x.length) % bytesPerElement) y := by
  induction x generalizing u with
  | nil => rw [List.nil_append, emit, List.nil_append, List.length_nil, Nat.add_zero,
      Nat.mod_eq_of_lt hu]
  | cons b x ih =>
    rw [List.cons_append, emit, emit, ih (Nat.mod_lt _ (by decide)), Nat.mod_add_mod,
      List.length_cons]
    simp only [List.append_assoc, List.cons_append]
    rw [Nat.add_right_comm u 1, Nat.add_assoc u]

/-- Bytes that stay within one line are written as they are, with the line's `"<pre>\n"` and
`lineEnd` around them. -/
theorem emit_chunk {u : Nat} {x : List UInt8} (hx : x ≠ [])
    (hline : u % bytesPerChunk + x.length ≤ bytesPerChunk) (hu : u < bytesPerElement) :
    emit u x = (if u = 0 then preOpen else []) ++ x ++ lineEnd (u + x.length) := by
  induction x generalizing u with
  | nil => exact absurd rfl hx
  | cons b xs ih =>
    cases xs with
    | nil => simp only [emit, List.append_nil, List.length_singleton, List.append_assoc,
        List.singleton_append]
    | cons b' xs =>
      simp only [List.length_cons] at hline
      have hM := bytesPerElement_eq
      unfold bytesPerChunk at hline ih
      -- the next byte is in the same line, so nothing ends here
      have hlt : u + 1 < bytesPerElement := by omega
      have hend : lineEnd (u + 1) = [] := by
        rw [lineEnd, if_neg]
        unfold bytesPerChunk
        omega
      have hrest := ih (List.cons_ne_nil b' xs) (by rw [List.length_cons]; omega) hlt
      have hlen : u + 1 + (b' :: xs).length = u + (b :: b' :: xs).length := by
        simp only [List.length_cons]
        omega
      rw [emit, hend, Nat.mod_eq_of_lt hlt, hrest, if_neg (Nat.succ_ne_zero u), hlen]
      simp only [List.nil_append, List.append_assoc, List.cons_append]

theorem ElementEncoder.start_eq (enc : ElementEncoder) :
    enc.start = if enc.pos = 0 then preOpen else [] := by
  have h : (enc.elementCounter = 0 ∧ enc.chunkCounter = 0) ↔ enc.pos = 0 := by
    unfold ElementEncoder.pos bytesPerChunk
    omega
  simp only [ElementEncoder.start, h]

/-- One pass moves the position by its `n` bytes, and what it writes after them is their
`lineEnd`. -/
theorem ElementEncoder.advance_spec (enc : ElementEncoder) {n : Nat} (hn : 0 < n)
    (hline : enc.chunkCounter + n ≤ bytesPerChunk) :
    (enc.advance n).1.pos = (enc.pos + n) % bytesPerElement ∧
      (enc.advance n).2 = lineEnd (enc.pos + n) := by
  have he := enc.elementCounter_lt
  rw [chunksPerElement_eq] at he
  unfold ElementEncoder.advance
  split
  · -- still inside the line
    rename_i h
    refine ⟨?_, ?_⟩
    · dsimp only [ElementEncoder.pos]
      rw [bytesPerElement_eq, Nat.mod_eq_of_lt]
      · omega
      · unfold bytesPerChunk at h ⊢
        omega
    · rw [lineEnd, if_neg]
      unfold ElementEncoder.pos bytesPerChunk at *
      omega
  · split
    · -- the line is full, the element is not
      rename_i h h'
      rw [chunksPerElement_eq] at h'
      refine ⟨?_, ?_⟩
      · dsimp only [ElementEncoder.pos]
        rw [bytesPerElement_eq, Nat.mod_eq_of_lt]
        · unfold bytesPerChunk at *
          omega
        · unfold bytesPerChunk at *
          omega
      · rw [lineEnd, if_pos, if_neg, List.append_nil]
        · rw [bytesPerElement_eq]
          unfold ElementEncoder.pos bytesPerChunk at *
          omega
        · unfold ElementEncoder.pos bytesPerChunk at *
          omega
    · -- the element is full
      rename_i h h'
      rw [chunksPerElement_eq] at h'
      have hend : enc.pos + n = bytesPerElement := by
        rw [bytesPerElement_eq]
        unfold ElementEncoder.pos bytesPerChunk at *
        omega
      refine ⟨?_, ?_⟩
      · rw [hend, Nat.mod_self]
        rfl
      · rw [hend, lineEnd, if_pos rfl, if_pos]
        rw [bytesPerElement_eq]
        unfold bytesPerChunk
        omega

/-- `Write` from any state writes `emit` of its input from the state's position, and moves the
position by the input's length. -/
theorem ElementEncoder.write_spec (enc : ElementEncoder) (p : List UInt8) :
    (enc.write p).out = emit enc.pos p ∧
      (enc.write p).enc.pos = (enc.pos + p.length) % bytesPerElement := by
  induction enc, p using ElementEncoder.write.induct with
  | case1 enc =>
    rw [ElementEncoder.write, emit, List.length_nil, Nat.add_zero, Nat.mod_eq_of_lt enc.pos_lt]
    exact ⟨rfl, rfl⟩
  | case2 enc b bs n' r' ih =>
    simp only [n', r'] at ih
    -- the pass writes `n` bytes, at least one and no more than the line has left
    have hc := enc.chunkCounter_lt
    set n := min (bytesPerChunk - enc.chunkCounter) (b :: bs).length with hn
    have hn0 : 0 < n := by
      rw [hn, List.length_cons]
      unfold bytesPerChunk at *
      omega
    have hline : enc.chunkCounter + n ≤ bytesPerChunk := by omega
    have hlen : ((b :: bs).take n).length = n := List.length_take_of_le (by omega)
    obtain ⟨hpos, hout⟩ := enc.advance_spec hn0 hline
    have hsplit := emit_append enc.pos_lt ((b :: bs).take n) ((b :: bs).drop n)
    rw [List.take_append_drop, hlen] at hsplit
    have hchunk : emit enc.pos ((b :: bs).take n) =
        enc.start ++ (b :: bs).take n ++ lineEnd (enc.pos + n) := by
      rw [emit_chunk (List.ne_nil_of_length_pos (by omega)) _ enc.pos_lt, hlen, enc.start_eq]
      unfold ElementEncoder.pos
      rw [Nat.mul_comm, Nat.mul_add_mod]
      rw [Nat.mod_eq_of_lt hc]
      omega
    rw [ElementEncoder.write]
    dsimp only
    rw [← hn, ih.1, ih.2, hpos, hsplit, hchunk, hout, List.length_drop]
    refine ⟨by simp only [List.append_assoc], ?_⟩
    have hsum : enc.pos + n + ((b :: bs).length - n) = enc.pos + (b :: bs).length := by omega
    rw [Nat.mod_add_mod, hsum]

/-! ## The count `Write` returns

`total` adds what every write of the loop reports except that of `"<pre>\n"`: the bytes of `p`,
and also the `"\n"` after each full line and the `"</pre>\n"` after each full element. -/

theorem ElementEncoder.chunkCounter_eq (enc : ElementEncoder) :
    enc.chunkCounter = enc.pos % bytesPerChunk := by
  have hc := enc.chunkCounter_lt
  unfold ElementEncoder.pos bytesPerChunk at *
  omega

theorem length_lineEnd (v : Nat) :
    (lineEnd v).length =
      if v % bytesPerChunk = 0 then 1 + (if v = bytesPerElement then preClose.length else 0)
      else 0 := by
  unfold lineEnd
  split_ifs <;> rfl

/-- `Write` counts the bytes of `p`, one for each line it completes and seven for each element.
The induction follows the loop, one pass at a time. -/
theorem ElementEncoder.write_total (enc : ElementEncoder) (p : List UInt8) :
    (enc.write p).total = p.length + (enc.chunkCounter + p.length) / bytesPerChunk +
      preClose.length * ((enc.pos + p.length) / bytesPerElement) := by
  induction enc, p using ElementEncoder.write.induct with
  | case1 enc =>
    have hc := enc.chunkCounter_lt
    have hp := enc.pos_lt
    rw [ElementEncoder.write]
    unfold bytesPerChunk at hc ⊢
    rw [List.length_nil, Nat.add_zero, Nat.add_zero, Nat.div_eq_of_lt hc,
      Nat.div_eq_of_lt hp, Nat.mul_zero]
  | case2 enc b bs n' r' ih =>
    simp only [n', r'] at ih
    have hc := enc.chunkCounter_lt
    have hp := enc.pos_lt
    set n := min (bytesPerChunk - enc.chunkCounter) (b :: bs).length with hn
    have hn0 : 0 < n := by
      rw [hn, List.length_cons]
      unfold bytesPerChunk at *
      omega
    have hline : enc.chunkCounter + n ≤ bytesPerChunk := by omega
    obtain ⟨hpos, hout⟩ := enc.advance_spec hn0 hline
    have hcc := (enc.advance n).1.chunkCounter_eq
    have hcc0 := enc.chunkCounter_eq
    rw [ElementEncoder.write]
    dsimp only
    rw [← hn, ih, hout, length_lineEnd, List.length_drop, hcc, hpos]
    have hpc : preClose.length = 7 := rfl
    rw [hpc]
    rw [bytesPerElement_eq] at hp hpos ⊢
    unfold bytesPerChunk at *
    -- the arithmetic alone: the position `u`, the length `L` and the pass's `n`
    generalize enc.pos = u at *
    generalize (b :: bs).length = L at *
    generalize enc.chunkCounter = c at *
    clear hpos hout ih
    obtain ⟨m, rfl⟩ : ∃ m, L = n + m := ⟨L - n, by omega⟩
    rw [Nat.add_sub_cancel_left]
    -- the pass ends inside the line, with nothing left, or at the line's end
    have hpass : (c + n < 32 ∧ m = 0) ∨ c + n = 32 := by omega
    clear hn
    rcases hpass with ⟨hlt, rfl⟩ | heq
    · split_ifs <;> omega
    · split_ifs <;> omega

/-- The count of `Write` against the `io.Writer` contract, which asks for at most `len(p)`: it
is never less, and it is at most `len(p)` only when `p` ends inside the current line. -/
theorem ElementEncoder.write_count (enc : ElementEncoder) (p : List UInt8) :
    (enc.write p).total = p.length + (enc.chunkCounter + p.length) / bytesPerChunk +
        preClose.length * ((enc.pos + p.length) / bytesPerElement) ∧
      p.length ≤ (enc.write p).total ∧
      ((enc.write p).total ≤ p.length ↔ enc.chunkCounter + p.length < bytesPerChunk) := by
  have htotal := enc.write_total p
  have hle : p.length ≤ (enc.write p).total := by
    rw [htotal, Nat.add_assoc]
    exact Nat.le_add_right _ _
  refine ⟨htotal, hle, ?_⟩
  have hp := enc.pos_lt
  have hcc := enc.chunkCounter_eq
  rw [htotal]
  rw [bytesPerElement_eq] at hp ⊢
  unfold bytesPerChunk at *
  -- inside the line no element ends either, since elements are whole lines
  constructor
  · intro h
    omega
  · intro h
    have hline : (enc.chunkCounter + p.length) / 32 = 0 := Nat.div_eq_of_lt h
    have helem : (enc.pos + p.length) / 31744 = 0 := Nat.div_eq_of_lt (by omega)
    rw [hline, helem]
    omega

/-- A fresh encoder given one full line of 32 bytes returns 33: the line's `"\n"` is counted. -/
theorem ElementEncoder.write_count_full_line :
    (ElementEncoder.fresh.write (List.replicate 32 65)).total = 33 ∧
      (List.replicate 32 (65 : UInt8)).length = 32 := by
  rw [(ElementEncoder.write_count ElementEncoder.fresh (List.replicate 32 65)).1]
  exact ⟨by decide, List.length_replicate⟩

theorem ElementEncoder.close_eq (enc : ElementEncoder) : enc.close = closeAt enc.pos := by
  have h0 : (enc.elementCounter ≠ 0 ∨ enc.chunkCounter ≠ 0) ↔ enc.pos ≠ 0 := by
    unfold ElementEncoder.pos bytesPerChunk
    omega
  have hc := enc.chunkCounter_lt
  have h32 : enc.chunkCounter = 0 ↔ enc.pos % bytesPerChunk = 0 := by
    unfold ElementEncoder.pos
    rw [Nat.mul_comm, Nat.mul_add_mod, Nat.mod_eq_of_lt hc]
  unfold ElementEncoder.close closeAt
  by_cases hp : enc.pos = 0
  · rw [if_neg (by rw [h0]; exact not_not.mpr hp), if_pos hp]
  · rw [if_pos (h0.mpr hp), if_neg hp]
    by_cases hc0 : enc.chunkCounter = 0
    · rw [if_pos hc0, if_pos (h32.mp hc0)]
    · rw [if_neg hc0, if_neg (mt h32.mpr hc0)]

/-- A run of writes depends only on the concatenation of what is written. -/
theorem ElementEncoder.writeAll_spec (enc : ElementEncoder) (ps : List (List UInt8)) :
    (enc.writeAll ps).2 = emit enc.pos ps.flatten ∧
      (enc.writeAll ps).1.pos = (enc.pos + ps.flatten.length) % bytesPerElement := by
  induction ps generalizing enc with
  | nil =>
    rw [ElementEncoder.writeAll, List.flatten_nil, List.length_nil, Nat.add_zero,
      Nat.mod_eq_of_lt enc.pos_lt]
    exact ⟨rfl, rfl⟩
  | cons p ps ih =>
    obtain ⟨hout, hpos⟩ := enc.write_spec p
    obtain ⟨hout', hpos'⟩ := ih (enc.write p).enc
    rw [ElementEncoder.writeAll]
    dsimp only
    rw [hout', hpos', hout, hpos, List.flatten_cons, emit_append enc.pos_lt, Nat.mod_add_mod,
      List.length_append, Nat.add_assoc]
    exact ⟨rfl, rfl⟩

/-! ## The elements

What the element encoder's whole input becomes: pieces of `bytesPerElement` bytes, each in a
`<pre>` element as lines of `bytesPerChunk` bytes. -/

open Chunks

/-- The text of the `<pre>` element that holds the input bytes `E`: a newline, then each line of
`E` with its newline. -/
def elementText (E : List UInt8) : List UInt8 :=
  newline ++ (chunksOf bytesPerChunk E).flatMap (· ++ newline)

/-- The texts of the elements that the input `c` fills. -/
def elementsOf (c : List UInt8) : List (List UInt8) :=
  (chunksOf bytesPerElement c).map elementText

/-- An input of at most one line is one element of one line. -/
theorem elementsOf_of_length_le {c : List UInt8} (hc : c ≠ []) (hlen : c.length ≤ bytesPerChunk) :
    elementsOf c = [newline ++ (c ++ newline)] := by
  have hle : c.length ≤ bytesPerElement := Nat.le_trans hlen (by decide)
  rw [elementsOf, chunksOf_of_length_le hc hle, List.map_singleton, elementText,
    chunksOf_of_length_le hc hlen, List.flatMap_singleton]

/-- Each element: `<pre>`, its text, `</pre>\n`. -/
def renderElements (es : List (List UInt8)) : List UInt8 :=
  es.flatMap fun e => preStart ++ e ++ preClose

/-- An armor page: the boilerplate around the elements. -/
def armorDocument (es : List (List UInt8)) : List UInt8 :=
  bytesOf boilerplateStart ++ renderElements es ++ bytesOf boilerplateEnd

theorem start_line_eq (k : Nat) (a b : List UInt8) :
    (if k * bytesPerChunk = 0 then a else b) = if k = 0 then a else b := by
  simp only [bytesPerChunk, Nat.mul_eq_zero, OfNat.ofNat_ne_zero, or_false]

/-- A full line from the start of line `k` of an element: the line and its newline, and the end of
the element after the last line. -/
theorem emit_line {k : Nat} (hk : k < chunksPerElement) {L : List UInt8}
    (hL : L.length = bytesPerChunk) (q : List UInt8) :
    emit (k * bytesPerChunk) (L ++ q) =
      (if k = 0 then preOpen else []) ++ L ++ newline ++
        (if k + 1 = chunksPerElement then preClose ++ emit 0 q
          else emit ((k + 1) * bytesPerChunk) q) := by
  rw [chunksPerElement_eq] at hk ⊢
  have hM := bytesPerElement_eq
  have hu : k * bytesPerChunk < bytesPerElement := by
    unfold bytesPerChunk
    omega
  have hne : L ≠ [] := List.ne_nil_of_length_pos (by rw [hL]; decide)
  have hline : k * bytesPerChunk % bytesPerChunk + L.length ≤ bytesPerChunk := by
    rw [Nat.mul_mod_left, hL, Nat.zero_add]
  rw [emit_append hu, emit_chunk hne hline hu, hL, start_line_eq]
  by_cases hlast : k + 1 = 992
  · -- the line ends the element
    have hend : k * bytesPerChunk + bytesPerChunk = bytesPerElement := by
      unfold bytesPerChunk
      omega
    rw [if_pos hlast, hend, Nat.mod_self, lineEnd,
      if_pos (show bytesPerElement % bytesPerChunk = 0 by decide), if_pos rfl]
    simp only [List.append_assoc]
  · have hnext : k * bytesPerChunk + bytesPerChunk = (k + 1) * bytesPerChunk := by
      rw [Nat.succ_mul]
    have hlt : (k + 1) * bytesPerChunk < bytesPerElement := by
      unfold bytesPerChunk
      omega
    rw [if_neg hlast, hnext, Nat.mod_eq_of_lt hlt, lineEnd, if_pos (Nat.mul_mod_left _ _),
      if_neg (Nat.ne_of_lt hlt), List.append_nil]

/-- From the start of line `k` of an element, the rest of the element's input and `Close` write
the lines, each with its newline, and `</pre>\n`. The induction is on the lines of `E`. -/
theorem emit_element {k : Nat} {E : List UInt8} (hk : k < chunksPerElement)
    (hE : k * bytesPerChunk + E.length ≤ bytesPerElement) (hne : E ≠ [] ∨ 0 < k) :
    emit (k * bytesPerChunk) E ++ closeAt ((k * bytesPerChunk + E.length) % bytesPerElement) =
      (if k = 0 then preOpen else []) ++ (chunksOf bytesPerChunk E).flatMap (· ++ newline) ++
        preClose := by
  have hM := bytesPerElement_eq
  rw [chunksPerElement_eq] at hk
  induction E using chunksOf.induct bytesPerChunk generalizing k with
  | case1 E h =>
    -- no input left: `Close` ends the element
    have hE0 : E = [] := h.resolve_right (by decide)
    subst hE0
    have hk0 : 0 < k := hne.resolve_left (fun h => h rfl)
    have hlt : k * bytesPerChunk < bytesPerElement := by
      unfold bytesPerChunk
      omega
    rw [List.length_nil, Nat.add_zero, Nat.mod_eq_of_lt hlt, emit, closeAt,
      if_neg (by unfold bytesPerChunk; omega), if_pos (Nat.mul_mod_left _ _),
      if_neg (Nat.ne_of_gt hk0), chunksOf_nil, List.flatMap_nil]
    simp only [List.nil_append]
  | case2 E h ih =>
    rw [not_or] at h
    by_cases hshort : E.length < bytesPerChunk
    · -- the last, partial line: `Close` writes its newline
      have hlt : k * bytesPerChunk + E.length < bytesPerElement := by
        unfold bytesPerChunk at *
        omega
      have hu : k * bytesPerChunk < bytesPerElement := Nat.lt_of_le_of_lt (Nat.le_add_right _ _) hlt
      have hline : k * bytesPerChunk % bytesPerChunk + E.length ≤ bytesPerChunk := by
        rw [Nat.mul_mod_left]
        omega
      have hmid : (k * bytesPerChunk + E.length) % bytesPerChunk ≠ 0 := by
        have := List.length_pos_of_ne_nil h.1
        unfold bytesPerChunk at *
        omega
      have hne0 : k * bytesPerChunk + E.length ≠ 0 := by
        have := List.length_pos_of_ne_nil h.1
        omega
      rw [emit_chunk h.1 hline hu, Nat.mod_eq_of_lt hlt, lineEnd, if_neg hmid,
        closeAt, if_neg hne0, if_neg hmid, start_line_eq,
        chunksOf_of_length_le h.1 (Nat.le_of_lt hshort), List.flatMap_singleton]
      simp only [List.append_nil, List.append_assoc]
    · -- a full line, then the lines after it
      have hL : (E.take bytesPerChunk).length = bytesPerChunk :=
        List.length_take_of_le (by omega)
      have hemit := emit_line (by rw [chunksPerElement_eq]; exact hk) hL (E.drop bytesPerChunk)
      rw [List.take_append_drop, chunksPerElement_eq] at hemit
      rw [chunksOf_of_ne_nil (by decide) h.1, List.flatMap_cons, hemit]
      by_cases hlast : k + 1 = 992
      · -- the line ends the element, and with it the input
        have hrest : E.drop bytesPerChunk = [] := by
          apply List.eq_nil_of_length_eq_zero
          rw [List.length_drop]
          unfold bytesPerChunk at *
          omega
        have hend : (k * bytesPerChunk + E.length) % bytesPerElement = 0 := by
          rw [hM]
          unfold bytesPerChunk at *
          omega
        rw [if_pos hlast, hrest, emit, hend, chunksOf_nil, List.flatMap_nil, closeAt, if_pos rfl]
        simp only [List.append_nil, List.append_assoc]
      · have hmove : k * bytesPerChunk + E.length =
            (k + 1) * bytesPerChunk + (E.drop bytesPerChunk).length := by
          rw [List.length_drop, Nat.succ_mul]
          omega
        have hE' : (k + 1) * bytesPerChunk + (E.drop bytesPerChunk).length ≤ bytesPerElement := by
          rw [← hmove]
          exact hE
        rw [if_neg hlast, hmove, List.append_assoc, ih (by omega) hE' (Or.inr (Nat.succ_pos k)),
          if_neg (Nat.succ_ne_zero k)]
        simp only [List.append_assoc, List.nil_append]

/-- From a fresh encoder, `emit` of the whole input and `Close` write the `<pre>` elements of
`elementsOf` it. The induction is on the elements. -/
theorem emit_render (c : List UInt8) :
    emit 0 c ++ closeAt (c.length % bytesPerElement) = renderElements (elementsOf c) := by
  have hM := bytesPerElement_eq
  have hk : 0 < chunksPerElement := by decide
  induction c using chunksOf.induct bytesPerElement with
  | case1 c h =>
    have hc : c = [] := h.resolve_right (by decide)
    subst hc
    rw [emit, List.length_nil, Nat.zero_mod, elementsOf, chunksOf_nil, List.map_nil]
    rfl
  | case2 c h ih =>
    rw [not_or] at h
    rw [elementsOf, chunksOf_of_ne_nil (by decide) h.1, List.map_cons, renderElements,
      List.flatMap_cons, elementText]
    by_cases hshort : c.length ≤ bytesPerElement
    · -- the last element
      have hel := emit_element hk (by rw [Nat.zero_mul, Nat.zero_add]; exact hshort) (Or.inl h.1)
      rw [Nat.zero_mul, Nat.zero_add, if_pos rfl] at hel
      rw [hel, List.take_of_length_le hshort, List.drop_of_length_le hshort, chunksOf_nil,
        List.map_nil, List.flatMap_nil, preOpen_eq]
      simp only [List.append_assoc, List.append_nil]
    · -- a full element, then the elements after it
      have hE : (c.take bytesPerElement).length = bytesPerElement :=
        List.length_take_of_le (by omega)
      have hel := emit_element hk (E := c.take bytesPerElement)
        (by rw [Nat.zero_mul, Nat.zero_add, hE]) (Or.inl (List.ne_nil_of_length_pos (by omega)))
      rw [Nat.zero_mul, Nat.zero_add, if_pos rfl, hE, Nat.mod_self] at hel
      have hcl : closeAt 0 = [] := rfl
      rw [hcl, List.append_nil] at hel
      have hlen : c.length % bytesPerElement = (c.drop bytesPerElement).length % bytesPerElement := by
        rw [List.length_drop, hM]
        rw [hM] at hshort
        omega
      have hemit := emit_append (show 0 < bytesPerElement by decide) (c.take bytesPerElement)
        (c.drop bytesPerElement)
      rw [List.take_append_drop, hE, Nat.zero_add, Nat.mod_self, hel] at hemit
      rw [hemit, hlen, List.append_assoc, ih, preOpen_eq]
      simp only [List.append_assoc]
      rfl

/-! ## `armorEncoder` -/

/-- `armorEncoder`: the chain `base64 | element | w`. -/
structure ArmorEncoder where
  base64 : Encoder
  element : ElementEncoder

/-- `NewArmorEncoder(w)`: the boilerplate, then the version indicator `'0'` through the element
encoder, outside the base64 layer. -/
def newArmorEncoder : ArmorEncoder × List UInt8 :=
  let r := ElementEncoder.fresh.write [48]
  (⟨Encoder.empty, r.enc⟩, bytesOf boilerplateStart ++ r.out)

/-- `armorEncoder.Write`: into the base64 encoder, whose writes go to the element encoder. -/
def ArmorEncoder.write (enc : ArmorEncoder) (p : List UInt8) : ArmorEncoder × List UInt8 :=
  let b := enc.base64.write p
  let e := enc.element.writeAll b.2
  (⟨b.1, e.1⟩, e.2)

/-- `armorEncoder.Close`: flush the base64 encoder, close the element encoder, then the
boilerplate trailer. -/
def ArmorEncoder.close (enc : ArmorEncoder) : List UInt8 :=
  let e := enc.element.writeAll enc.base64.close
  e.2 ++ e.1.close ++ bytesOf boilerplateEnd

def ArmorEncoder.writeAll (enc : ArmorEncoder) :
    List (List UInt8) → ArmorEncoder × List UInt8
  | [] => (enc, [])
  | p :: ps =>
    let r := (enc.write p).1.writeAll ps
    (r.1, (enc.write p).2 ++ r.2)

/-- The bytes `NewArmorEncoder(w)`, a `Write` of each of `ws` and `Close` write to `w`. -/
def armorOutput (ws : List (List UInt8)) : List UInt8 :=
  let r := newArmorEncoder.1.writeAll ws
  newArmorEncoder.2 ++ r.2 ++ r.1.close

/-- Over a run of writes, the base64 encoder runs as it would alone, and the element encoder
writes `emit` of everything the base64 encoder passes on. -/
theorem ArmorEncoder.writeAll_spec (enc : ArmorEncoder) (ws : List (List UInt8)) :
    (enc.writeAll ws).1.base64 = (enc.base64.writeAll ws).1 ∧
      (enc.writeAll ws).2 = emit enc.element.pos (enc.base64.writeAll ws).2.flatten ∧
      (enc.writeAll ws).1.element.pos =
        (enc.element.pos + (enc.base64.writeAll ws).2.flatten.length) % bytesPerElement := by
  induction ws generalizing enc with
  | nil =>
    rw [ArmorEncoder.writeAll, Encoder.writeAll, List.flatten_nil, List.length_nil, Nat.add_zero,
      Nat.mod_eq_of_lt enc.element.pos_lt]
    exact ⟨rfl, rfl, rfl⟩
  | cons p ps ih =>
    obtain ⟨hout, hpos⟩ := enc.element.writeAll_spec (enc.base64.write p).2
    obtain ⟨hb, hout', hpos'⟩ := ih (enc.write p).1
    rw [ArmorEncoder.writeAll, Encoder.writeAll]
    dsimp only
    -- one `Write` feeds the base64 encoder and passes its writes on to the element encoder
    have hb1 : (enc.write p).1.base64 = (enc.base64.write p).1 := rfl
    have he1 : (enc.write p).1.element = (enc.element.writeAll (enc.base64.write p).2).1 := rfl
    have ho1 : (enc.write p).2 = (enc.element.writeAll (enc.base64.write p).2).2 := rfl
    rw [hb1] at hb hout' hpos'
    rw [he1] at hout' hpos'
    refine ⟨hb, ?_, ?_⟩
    · rw [hout', ho1, hout, hpos, List.flatten_append, emit_append enc.element.pos_lt]
    · rw [hpos', hpos, Nat.mod_add_mod, List.flatten_append, List.length_append, Nat.add_assoc]

/-- The page the armor encoder writes, whatever the split of the input into `Write` calls: the
boilerplate around the `<pre>` elements of the version byte `'0'` and the base64 encoding of the
whole input. -/
theorem armorOutput_eq (ws : List (List UInt8)) :
    armorOutput ws = armorDocument (elementsOf (48 :: encode ws.flatten)) := by
  have hM : 0 < bytesPerElement := by decide
  -- the element encoder sees the version byte, then the base64 encoder's writes, then its flush
  obtain ⟨h0out, h0pos⟩ := ElementEncoder.fresh.write_spec [48]
  set A : ArmorEncoder := ⟨Encoder.empty, (ElementEncoder.fresh.write [48]).enc⟩ with hA
  obtain ⟨hb, hout, hpos⟩ := A.writeAll_spec ws
  set r := A.writeAll ws with hr
  obtain ⟨hcout, hcpos⟩ := r.1.element.writeAll_spec r.1.base64.close
  have hAe : A.element.pos = (0 + ([48] : List UInt8).length) % bytesPerElement := h0pos
  have hAb : A.base64 = Encoder.empty := rfl
  rw [hAb] at hb hout hpos
  rw [hb] at hcout hcpos
  set X := (Encoder.empty.writeAll ws).2.flatten with hX
  set Y := (Encoder.empty.writeAll ws).1.close.flatten with hY
  have hXY : X ++ Y = encode ws.flatten := Encoder.writes_close ws
  -- the bytes written, in order
  have hpage : armorOutput ws = bytesOf boilerplateStart ++ emit 0 [48] ++ emit A.element.pos X ++
      (emit r.1.element.pos Y ++ closeAt ((r.1.element.pos + Y.length) % bytesPerElement)) ++
      bytesOf boilerplateEnd := by
    have hnew : newArmorEncoder = (A, bytesOf boilerplateStart ++ (ElementEncoder.fresh.write [48]).out) :=
      rfl
    unfold armorOutput
    rw [hnew]
    dsimp only
    rw [← hr, ArmorEncoder.close, hb]
    rw [hout, hcout, ElementEncoder.close_eq, hcpos, h0out]
    simp only [List.append_assoc]
    rfl
  -- the same bytes as one `emit` of the whole input from a fresh encoder
  have hemit : emit 0 (48 :: encode ws.flatten) =
      emit 0 [48] ++ emit A.element.pos X ++ emit r.1.element.pos Y := by
    rw [← hXY, ← List.singleton_append, emit_append hM, ← hAe,
      emit_append A.element.pos_lt, ← hpos, List.append_assoc]
  have hlen : (r.1.element.pos + Y.length) % bytesPerElement =
      (48 :: encode ws.flatten).length % bytesPerElement := by
    rw [hpos, hAe, ← hXY]
    simp only [List.length_cons, List.length_nil, List.length_append, bytesPerElement_eq]
    omega
  rw [hpage, hlen, armorDocument, ← emit_render, hemit]
  simp only [List.append_assoc]

end Snowflake.Amp
