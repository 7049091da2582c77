import Mathlib
import Snowflake.Amp.RoundTrip
/-
The framing of `elementEncoder` in `common/amp/armor_encoder.go`, read off its whole output: the
`Write` calls of a run and then `Close`, from a fresh encoder.

`elementOutput_eq`: the output is `renderElements` of `elementsOf` the concatenation of the
writes, so it depends on nothing else. Each element is `<pre>\n`, then its text, then `</pre>\n`;
the text of an element is `elementLines` of at most `bytesPerElement` input bytes, each line of
at most `bytesPerChunk` bytes followed by a newline. Such a text is at most `elementSizeLimit`
bytes (`length_elementLines_le`), since `chunksPerElement` was chosen so that the lines and their
newlines fit. With no whitespace in the input, dropping the newlines of the texts gives the input
back. `elementEncoder_framing` collects these.
-/

set_option autoImplicit false

namespace Snowflake.Amp

open Chunks

/-- The text of the element that holds the input bytes `E`, between `"<pre>\n"` and
`"</pre>\n"`: each line of `E` with its newline. -/
def elementLines (E : List UInt8) : List UInt8 := (chunksOf bytesPerChunk E).flatMap (· ++ newline)

/-- The texts of the elements for the input `c`. -/
def elementBodies (c : List UInt8) : List (List UInt8) :=
  (chunksOf bytesPerElement c).map elementLines

/-- What a fresh `elementEncoder` writes for the `Write` calls `ps` and then `Close`. -/
def elementOutput (ps : List (List UInt8)) : List UInt8 :=
  (ElementEncoder.fresh.writeAll ps).2 ++ (ElementEncoder.fresh.writeAll ps).1.close

theorem elementOutput_eq (ps : List (List UInt8)) :
    elementOutput ps = renderElements (elementsOf ps.flatten) := by
  obtain ⟨hout, hpos⟩ := ElementEncoder.fresh.writeAll_spec ps
  have hfresh : ElementEncoder.fresh.pos = 0 := rfl
  rw [elementOutput, hout, ElementEncoder.close_eq, hpos, hfresh, Nat.zero_add, emit_render]

/-- The elements as `<pre>\n`, a text, `</pre>\n`. -/
theorem renderElements_elementsOf (c : List UInt8) :
    renderElements (elementsOf c) = (elementBodies c).flatMap fun T => preOpen ++ T ++ preClose := by
  rw [renderElements, elementsOf, elementBodies, List.flatMap_map, List.flatMap_map]
  apply List.flatMap_congr
  intro E _
  rw [elementText, preOpen_eq, elementLines]
  simp only [List.append_assoc]

theorem elementBodies_eq_nil_iff (c : List UInt8) : elementBodies c = [] ↔ c = [] := by
  rw [elementBodies, List.map_eq_nil_iff, chunksOf_eq_nil_iff (by decide)]

/-- The lines of an element and their newlines fit in `elementSizeLimit`. -/
theorem length_elementLines_le {E : List UInt8} (hE : E.length ≤ bytesPerElement) :
    (elementLines E).length ≤ elementSizeLimit := by
  have hlines := length_chunksOf (show 0 < bytesPerChunk by decide) E
  rw [elementLines, length_flatMap_append, flatten_chunksOf (by decide), hlines]
  rw [bytesPerElement_eq] at hE
  have hnl : newline.length = 1 := rfl
  unfold bytesPerChunk elementSizeLimit
  rw [hnl, Nat.mul_one]
  omega

theorem mem_elementLines {E : List UInt8} {b : UInt8} (hb : b ∈ elementLines E) :
    b ∈ E ∨ b = 10 := by
  rw [elementLines, List.mem_flatMap] at hb
  obtain ⟨l, hl, hb⟩ := hb
  rcases List.mem_append.mp hb with hb | hb
  · exact Or.inl (mem_of_mem_chunksOf (by decide) hl hb)
  · exact Or.inr (List.mem_singleton.mp hb)

/-- Without its newlines, the text of an element is its input, when that has none. -/
theorem filter_elementLines {E : List UInt8} (hE : ∀ b ∈ E, b ≠ 10) :
    (elementLines E).filter (fun b => b != 10) = E := by
  have hnl : newline.filter (fun b => b != 10) = [] := by decide
  have hline : ∀ l ∈ chunksOf bytesPerChunk E, (l ++ newline).filter (fun b => b != 10) = l := by
    intro l hl
    rw [List.filter_append, List.filter_eq_self.mpr, hnl, List.append_nil]
    intro b hb
    exact bne_iff_ne.mpr (hE b (mem_of_mem_chunksOf (by decide) hl hb))
  rw [elementLines, List.filter_flatMap, List.flatMap_congr hline, List.flatMap_id',
    flatten_chunksOf (by decide)]

theorem elementEncoder_framing (ps : List (List UInt8))
    (hc : ∀ b ∈ ps.flatten, isASCIIWhitespace b = false ∧ b ≠ 60 ∧ b ≠ 38) :
    elementOutput ps = renderElements (elementsOf ps.flatten) ∧
      ∃ Ts : List (List UInt8),
        elementOutput ps = Ts.flatMap (fun T => preOpen ++ T ++ preClose) ∧
        (Ts = [] ↔ ps.flatten = []) ∧
        (∀ T ∈ Ts, T.length ≤ elementSizeLimit ∧ (60 : UInt8) ∉ T ∧
          ∃ lines : List (List UInt8), T = lines.flatMap (· ++ newline) ∧
            ∀ l ∈ lines, l.length ≤ bytesPerChunk) ∧
        Ts.flatten.filter (fun b => b != 10) = ps.flatten := by
  have hout := elementOutput_eq ps
  refine ⟨hout, elementBodies ps.flatten, by rw [hout, renderElements_elementsOf],
    elementBodies_eq_nil_iff _, ?_, ?_⟩
  · -- each text: the lines of one piece of the input
    intro T hT
    rw [elementBodies, List.mem_map] at hT
    obtain ⟨E, hE, rfl⟩ := hT
    refine ⟨length_elementLines_le (length_le_of_mem_chunksOf hE), ?_,
      chunksOf bytesPerChunk E, rfl, fun l hl => length_le_of_mem_chunksOf hl⟩
    intro h60
    rcases mem_elementLines h60 with h | h
    · exact (hc 60 (mem_of_mem_chunksOf (by decide) hE h)).2.1 rfl
    · exact absurd h (by decide)
  · -- no newline in the input: each text without its newlines is its piece
    have hpiece : ∀ E ∈ chunksOf bytesPerElement ps.flatten,
        (elementLines E).filter (fun b => b != 10) = E := by
      intro E hE
      apply filter_elementLines
      intro b hb h10
      have hws := (hc b (mem_of_mem_chunksOf (by decide) hE hb)).1
      rw [h10] at hws
      exact absurd hws (by decide)
    have hmap : (chunksOf bytesPerElement ps.flatten).map
        ((List.filter fun b => b != 10) ∘ elementLines) = (chunksOf bytesPerElement ps.flatten).map id :=
      List.map_congr_left hpiece
    rw [elementBodies, List.filter_flatten, List.map_map, hmap, List.map_id,
      flatten_chunksOf (by decide)]

/-- `"hi"` in one `Write`: one element of one line. -/
theorem elementEncoder_framing_hi :
    (∀ b ∈ ([[104, 105]] : List (List UInt8)).flatten,
        isASCIIWhitespace b = false ∧ b ≠ 60 ∧ b ≠ 38) ∧
      elementOutput [[104, 105]] = preOpen ++ [104, 105, 10] ++ preClose := by
  have hc : ∀ b ∈ ([[104, 105]] : List (List UInt8)).flatten,
      isASCIIWhitespace b = false ∧ b ≠ 60 ∧ b ≠ 38 := by
    intro b hb
    rw [List.flatten_singleton, List.mem_pair] at hb
    rcases hb with rfl | rfl <;> decide
  refine ⟨hc, ?_⟩
  have hone : elementsOf [104, 105] = [newline ++ ([104, 105] ++ newline)] :=
    elementsOf_of_length_le (by decide) (by decide)
  rw [(elementEncoder_framing [[104, 105]] hc).1, List.flatten_singleton, hone]
  rfl

end Snowflake.Amp
