import Mathlib
import Snowflake.Amp.Decoder
/-
The AMP armor round trip (`TestArmorRoundTrip` in `common/amp/armor_test.go`): what is written
through `NewArmorEncoder` is what the reader of `NewArmorDecoder` yields for the page.

## The assumption

The HTML tokenizer is not modelled, so the round trip assumes what it reports for an armor
page (`TokenizerAssumption`): around the elements, tokens that are neither errors nor `pre`
tags; for each element its start tag, text tokens of at most `elementSizeLimit` bytes whose
concatenation is the element's text verbatim, and its end tag; and `io.EOF` at the end. That is
assumed of pages whose element texts hold only base64 characters and ASCII whitespace.

## What is proved

`decodeToWriter_armorTokens`: over such tokens, `decodeToWriter` writes the elements' texts
without their whitespace. `elementsOf_filter`: for the elements the encoder writes, that is its
whole input. `armorDocument_injective`: a page determines its elements, so the assumption speaks
of one tokenization. `armor_roundTrip` assembles these with `armorOutput_eq` and
`decodeStream_encode`.
-/

set_option autoImplicit false

namespace Snowflake.Amp

open GoBase64 Chunks

/-! ## The tokens of an armor page -/

/-- The tokens of an armor page whose element texts are `es`. -/
inductive ArmorTokens : List (List UInt8) → List Token → Prop
  | done {o : List Token} (ho : ∀ t ∈ o, t.IsOutside) :
      ArmorTokens [] (o ++ [.errorToken .eof])
  | element {o : List Token} {texts : List (List UInt8)} {e : List UInt8}
      {es : List (List UInt8)} {rest : List Token}
      (ho : ∀ t ∈ o, t.IsOutside) (htexts : texts.flatten = e)
      (hsize : ∀ text ∈ texts, text.length ≤ elementSizeLimit) (hrest : ArmorTokens es rest) :
      ArmorTokens (e :: es)
        (o ++ .startTagToken preName :: (texts.map .textToken ++ .endTagToken preName :: rest))

/-- The bytes an element text may hold for the assumption: base64 characters and whitespace. -/
def ArmorText (e : List UInt8) : Prop := ∀ b ∈ e, IsEncoded b ∨ isASCIIWhitespace b = true

/-- What `golang.org/x/net/html` is assumed to report for `page`: whenever it is the armor page of
element texts that are `ArmorText`, the tokens of those elements. -/
def TokenizerAssumption (page : List UInt8) (toks : List Token) : Prop :=
  ∀ es, page = armorDocument es → (∀ e ∈ es, ArmorText e) → ArmorTokens es toks

/-- Over the tokens of an armor page, `decodeToWriter` writes the elements' texts without their
whitespace, and returns no error. The induction is on the elements. -/
theorem decodeToWriter_armorTokens {es : List (List UInt8)} {toks : List Token}
    (h : ArmorTokens es toks) :
    decodeToWriter false toks = (es.flatten.filter (fun b => !isASCIIWhitespace b), none) := by
  induction h with
  | done ho =>
    rw [decodeToWriter_outside ho, decodeToWriter, errorResult, if_neg Bool.false_ne_true]
    rfl
  | @element o texts e es rest ho htexts hsize hrest ih =>
    -- the fields of each text token, which together are the element's text without whitespace
    have hfields : (texts.map fun text => (scanTokens text).flatten).flatten =
        e.filter (fun b => !isASCIIWhitespace b) := by
      rw [← htexts, List.filter_flatten]
      congr 1
      apply List.map_congr_left
      intro text _
      exact flatten_scanTokens text
    rw [decodeToWriter_outside ho, decodeToWriter, if_pos rfl, if_neg Bool.false_ne_true,
      decodeToWriter_texts, decodeToWriter, if_pos rfl, if_pos rfl, ih, hfields,
      List.flatten_cons, List.filter_append]

/-! ## The elements the encoder writes -/

theorem isASCIIWhitespace_newline : isASCIIWhitespace 10 = true := by decide

theorem filter_newline : newline.filter (fun b => !isASCIIWhitespace b) = [] := by decide

/-- The lines of an element, with their newlines, without whitespace. -/
theorem filter_lines (L : List (List UInt8)) :
    (L.flatMap (· ++ newline)).filter (fun b => !isASCIIWhitespace b) =
      L.flatten.filter (fun b => !isASCIIWhitespace b) := by
  induction L with
  | nil => rfl
  | cons l L ih =>
    rw [List.flatMap_cons, List.filter_append, List.filter_append, ih, filter_newline,
      List.append_nil, List.flatten_cons, List.filter_append]

/-- With no whitespace in the input, the elements' texts without whitespace are the input. -/
theorem elementsOf_filter {c : List UInt8} (hc : ∀ b ∈ c, isASCIIWhitespace b = false) :
    (elementsOf c).flatten.filter (fun b => !isASCIIWhitespace b) = c := by
  have hE : ∀ E ∈ chunksOf bytesPerElement c,
      (elementText E).filter (fun b => !isASCIIWhitespace b) = E := by
    intro E hE
    rw [elementText, List.filter_append, filter_newline, List.nil_append, filter_lines,
      flatten_chunksOf (by decide), List.filter_eq_self]
    intro b hb
    rw [hc b (mem_of_mem_chunksOf (by decide) hE hb)]
    rfl
  have hmap : (chunksOf bytesPerElement c).map
      ((List.filter fun b => !isASCIIWhitespace b) ∘ elementText) =
        (chunksOf bytesPerElement c).map id :=
    List.map_congr_left hE
  rw [elementsOf, List.filter_flatten, List.map_map, hmap, List.map_id,
    flatten_chunksOf (by decide)]

/-- Each byte of an element text is a byte of the input or a newline. -/
theorem mem_elementsOf {c : List UInt8} {e : List UInt8} (he : e ∈ elementsOf c) {b : UInt8}
    (hb : b ∈ e) : b ∈ c ∨ b = 10 := by
  rw [elementsOf, List.mem_map] at he
  obtain ⟨E, hE, rfl⟩ := he
  rw [elementText, List.mem_append, List.mem_flatMap] at hb
  rcases hb with hb | ⟨l, hl, hb⟩
  · exact Or.inr (List.mem_singleton.mp hb)
  · rw [List.mem_append] at hb
    rcases hb with hb | hb
    · exact Or.inl (mem_of_mem_chunksOf (by decide) hE (mem_of_mem_chunksOf (by decide) hl hb))
    · exact Or.inr (List.mem_singleton.mp hb)

theorem isEncoded_version : IsEncoded 48 := by decide

theorem whitespace_of_isEncoded : ∀ b : UInt8, IsEncoded b → isASCIIWhitespace b = false := by
  decide +kernel

/-- The element texts of the armor encoder's output hold base64 characters and newlines. -/
theorem armorText_elementsOf (s : List UInt8) :
    ∀ e ∈ elementsOf (48 :: encode s), ArmorText e := by
  intro e he b hb
  rcases mem_elementsOf he hb with hb | rfl
  · left
    rcases List.mem_cons.mp hb with rfl | hb
    · exact isEncoded_version
    · exact isEncoded_of_mem_encode b hb
  · exact Or.inr isASCIIWhitespace_newline

/-! ## A page determines its elements -/

theorem not_isEncoded_lt : ¬ IsEncoded 60 := by decide

theorem lt_not_mem_of_armorText {e : List UInt8} (he : ArmorText e) : (60 : UInt8) ∉ e := by
  intro h
  rcases he 60 h with h | h
  · exact not_isEncoded_lt h
  · exact absurd h (by decide)

/-- Elements whose texts hold no `<` are read back from where their tags are. The induction is on
the elements. -/
theorem renderElements_injective {es es' : List (List UInt8)} (hes : ∀ e ∈ es, (60 : UInt8) ∉ e)
    (hes' : ∀ e ∈ es', (60 : UInt8) ∉ e) (h : renderElements es = renderElements es') :
    es = es' := by
  induction es generalizing es' with
  | nil =>
    cases es' with
    | nil => rfl
    | cons e' es' =>
      rw [renderElements, renderElements, List.flatMap_nil, List.flatMap_cons] at h
      exact absurd h.symm (by simp [preStart])
  | cons e es ih =>
    cases es' with
    | nil =>
      rw [renderElements, renderElements, List.flatMap_nil, List.flatMap_cons] at h
      exact absurd h (by simp [preStart])
    | cons e' es' =>
      rw [renderElements, renderElements, List.flatMap_cons, List.flatMap_cons,
        List.append_assoc, List.append_assoc, List.append_assoc, List.append_assoc] at h
      -- after `<pre>`, the text runs up to the `<` of `</pre>`
      have h' := List.append_cancel_left h
      have hsplit := append_cons_cancel (hes e List.mem_cons_self) (hes' e' List.mem_cons_self) h'
      obtain ⟨rfl, hrest⟩ := hsplit
      have hrest' := List.append_cancel_left hrest
      rw [ih (fun e he => hes e (List.mem_cons_of_mem _ he))
        (fun e he => hes' e (List.mem_cons_of_mem _ he)) hrest']

/-- Two armor pages with `ArmorText` element texts are the same page only if they have the same
elements. -/
theorem armorDocument_injective {es es' : List (List UInt8)} (hes : ∀ e ∈ es, ArmorText e)
    (hes' : ∀ e ∈ es', ArmorText e) (h : armorDocument es = armorDocument es') : es = es' := by
  unfold armorDocument at h
  have hr := List.append_cancel_left (List.append_cancel_right h)
  exact renderElements_injective (fun e he => lt_not_mem_of_armorText (hes e he))
    (fun e he => lt_not_mem_of_armorText (hes' e he)) hr

/-! ## The round trip -/

theorem armor_roundTrip (ws : List (List UInt8)) (toks : List Token)
    (h : TokenizerAssumption (armorOutput ws) toks) : armorDecode toks = .ok ws.flatten := by
  -- the page is the armor page of the encoder's elements, so these are its tokens
  have htoks := h _ (armorOutput_eq ws) (armorText_elementsOf ws.flatten)
  apply armorDecode_of_decodeToWriter
  rw [decodeToWriter_armorTokens htoks, elementsOf_filter]
  intro b hb
  rcases List.mem_cons.mp hb with rfl | hb
  · exact whitespace_of_isEncoded 48 isEncoded_version
  · exact whitespace_of_isEncoded b (isEncoded_of_mem_encode b hb)

/-- The tokens `golang.org/x/net/html` reports for `boilerplateStart`. `<script>`, `<style>` and
`<noscript>` hold raw text up to their end tags, so the `<style>` inside `<noscript>` is text, and
an empty raw text is no token. -/
def boilerplateStartTokens : List Token :=
  [.doctypeToken, .textToken newline, .startTagToken (bytesOf "html"), .textToken newline,
    .startTagToken (bytesOf "head"), .textToken newline, .startTagToken (bytesOf "meta"),
    .textToken newline, .startTagToken (bytesOf "script"), .endTagToken (bytesOf "script"),
    .textToken newline, .startTagToken (bytesOf "link"), .textToken newline,
    .startTagToken (bytesOf "meta"), .textToken newline, .startTagToken (bytesOf "style"),
    .textToken (bytesOf ("body\x7b-webkit-animation:-amp-start 8s steps(1,end) 0s 1 normal both;" ++
      "-moz-animation:-amp-start 8s steps(1,end) 0s 1 normal both;" ++
      "-ms-animation:-amp-start 8s steps(1,end) 0s 1 normal both;" ++
      "animation:-amp-start 8s steps(1,end) 0s 1 normal both\x7d" ++
      "@-webkit-keyframes -amp-start\x7bfrom\x7bvisibility:hidden\x7dto\x7bvisibility:visible\x7d\x7d" ++
      "@-moz-keyframes -amp-start\x7bfrom\x7bvisibility:hidden\x7dto\x7bvisibility:visible\x7d\x7d" ++
      "@-ms-keyframes -amp-start\x7bfrom\x7bvisibility:hidden\x7dto\x7bvisibility:visible\x7d\x7d" ++
      "@-o-keyframes -amp-start\x7bfrom\x7bvisibility:hidden\x7dto\x7bvisibility:visible\x7d\x7d" ++
      "@keyframes -amp-start\x7bfrom\x7bvisibility:hidden\x7dto\x7bvisibility:visible\x7d\x7d")),
    .endTagToken (bytesOf "style"), .startTagToken (bytesOf "noscript"),
    .textToken (bytesOf ("<style amp-boilerplate>body\x7b-webkit-animation:none;" ++
      "-moz-animation:none;-ms-animation:none;animation:none\x7d</style>")),
    .endTagToken (bytesOf "noscript"), .textToken newline, .endTagToken (bytesOf "head"),
    .textToken newline, .startTagToken (bytesOf "body"), .textToken newline]

/-- The tokens it reports after the last element's `</pre>`: the rest of that line, then
`boilerplateEnd`. -/
def boilerplateEndTokens : List Token :=
  [.textToken newline, .endTagToken (bytesOf "body"), .textToken newline,
    .endTagToken (bytesOf "html")]

/-- `"hi"` in one `Write`: the page is one element of one line, `"0aGk="`, and the tokenizer
reports the boilerplate's tokens, the element's tags around one text token, and the end's. -/
theorem armor_roundTrip_hi :
    TokenizerAssumption (armorOutput [[104, 105]])
        (boilerplateStartTokens ++ .startTagToken preName ::
          .textToken [10, 48, 97, 71, 107, 61, 10] :: .endTagToken preName ::
          (boilerplateEndTokens ++ [.errorToken .eof])) ∧
      armorDecode (boilerplateStartTokens ++ .startTagToken preName ::
          .textToken [10, 48, 97, 71, 107, 61, 10] :: .endTagToken preName ::
          (boilerplateEndTokens ++ [.errorToken .eof])) = .ok [104, 105] := by
  have hassume : TokenizerAssumption (armorOutput [[104, 105]])
      (boilerplateStartTokens ++ .startTagToken preName ::
        .textToken [10, 48, 97, 71, 107, 61, 10] :: .endTagToken preName ::
        (boilerplateEndTokens ++ [.errorToken .eof])) := by
    intro es hpage hes
    -- the page has one decomposition, into the encoder's single element
    have hes' : es = elementsOf (48 :: encode [[104, 105]].flatten) :=
      armorDocument_injective hes (armorText_elementsOf _) (hpage.symm.trans (armorOutput_eq _))
    rw [hes', elementsOf_of_length_le (List.cons_ne_nil _ _) (by decide)]
    refine @ArmorTokens.element boilerplateStartTokens [[10, 48, 97, 71, 107, 61, 10]] _ []
      (boilerplateEndTokens ++ [.errorToken .eof]) ?_ ?_ (by decide)
      (ArmorTokens.done (o := boilerplateEndTokens) ?_)
    · decide +kernel
    · decide
    · decide +kernel
  exact ⟨hassume, armor_roundTrip [[104, 105]] _ hassume⟩

end Snowflake.Amp
