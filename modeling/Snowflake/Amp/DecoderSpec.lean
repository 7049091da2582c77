import Mathlib
import Snowflake.Amp.Decoder
/-
What `decodeToWriter` extracts from any token stream, stated against a recogniser with two
states: whether a `<pre>` element is open.

## The recogniser

`preStep` is what a token does to the state: a `<pre>` start tag opens an element and a `</pre>`
end tag closes it; every other token leaves the state as it is. `openAfter a ts` is the state
after `ts` from `a`. A token `misnests` in a state when it is a `<pre>` start tag while an element
is open, or a `</pre>` end tag while none is; `NestsFrom a ts` says that no token of `ts` does, at
the state it is met in. `prePayload a ts` is the payload: the bytes of the text tokens met while
an element is open, without their ASCII whitespace. Those bytes are the concatenation of the
text's maximal runs of bytes that are not whitespace.

## What is proved

`decodeToWriter_cons`: one token that does not misnest adds its payload and moves the state as
`preStep` does, and one that misnests stops the decoder with `unexpected`. By induction on the
tokens:
- `decodeToWriter_of_nestsFrom`: over a stream that nests, ending in the tokenizer's error token,
  the decoder writes the whole payload. It returns `errorResult` of the final state: an error iff
  the stream ends inside an element or the tokenizer's error is not `io.EOF`.
- `decodeToWriter_of_misnests`: where the first misnesting token comes, the decoder writes the
  payload before it and returns `unexpected`.
Text inside an element that comes after a misnesting token is never written.
-/

set_option autoImplicit false

namespace Snowflake.Amp

/-! ## The recogniser -/

/-- A token that ends the tokenizer's stream. -/
def Token.isError : Token → Bool
  | .errorToken _ => true
  | _ => false

/-- What a token does to whether a `<pre>` element is open. -/
def preStep (a : Bool) : Token → Bool
  | .startTagToken name => if name = preName then true else a
  | .endTagToken name => if name = preName then false else a
  | _ => a

/-- Whether a `<pre>` element is open after `ts`, from `a`. -/
def openAfter (a : Bool) (ts : List Token) : Bool := ts.foldl preStep a

/-- A `<pre>` start tag while an element is open, or a `</pre>` end tag while none is. -/
def misnests (a : Bool) : Token → Bool
  | .startTagToken name => decide (name = preName) && a
  | .endTagToken name => decide (name = preName) && !a
  | _ => false

/-- No token of `ts` misnests, at the state it is met in from `a`. -/
def NestsFrom (a : Bool) (ts : List Token) : Prop :=
  ∀ pre t post, ts = pre ++ t :: post → misnests (openAfter a pre) t = false

/-- The payload of a token met in state `a`: the bytes of a text inside an element, without
whitespace. -/
def textPayload (a : Bool) : Token → List UInt8
  | .textToken text => if a then text.filter (fun b => !isASCIIWhitespace b) else []
  | _ => []

/-- The payload of the tokens `ts` from state `a`. -/
def prePayload : Bool → List Token → List UInt8
  | _, [] => []
  | a, t :: ts => textPayload a t ++ prePayload (preStep a t) ts

@[simp] theorem openAfter_nil (a : Bool) : openAfter a [] = a := rfl

@[simp] theorem openAfter_cons (a : Bool) (t : Token) (ts : List Token) :
    openAfter a (t :: ts) = openAfter (preStep a t) ts := rfl

theorem nestsFrom_nil (a : Bool) : NestsFrom a [] := by
  intro pre t post h
  exact absurd h.symm (List.append_ne_nil_of_right_ne_nil pre (List.cons_ne_nil t post))

/-- A stream nests when its first token does not misnest and the rest nests from the state that
token leaves. -/
theorem nestsFrom_cons_iff (a : Bool) (t : Token) (ts : List Token) :
    NestsFrom a (t :: ts) ↔ misnests a t = false ∧ NestsFrom (preStep a t) ts := by
  constructor
  · intro h
    refine ⟨h [] t ts rfl, ?_⟩
    intro pre t' post hts
    have hsplit : t :: ts = (t :: pre) ++ t' :: post := by rw [hts, List.cons_append]
    exact h (t :: pre) t' post hsplit
  · rintro ⟨ht, hts⟩ pre t' post hsplit
    -- the token met is the first one, or one of the rest
    cases pre with
    | nil =>
      rw [List.nil_append, List.cons.injEq] at hsplit
      rw [← hsplit.1]
      exact ht
    | cons u pre =>
      rw [List.cons_append, List.cons.injEq] at hsplit
      obtain ⟨rfl, hrest⟩ := hsplit
      exact hts pre t' post hrest

/-- A stream that does not nest has a first token that misnests. The induction is on the
stream. -/
theorem exists_first_misnests {a : Bool} {ts : List Token} (h : ¬ NestsFrom a ts) :
    ∃ pre t post, ts = pre ++ t :: post ∧ NestsFrom a pre ∧ misnests (openAfter a pre) t = true := by
  induction ts generalizing a with
  | nil => exact absurd (nestsFrom_nil a) h
  | cons t ts ih =>
    by_cases ht : misnests a t = true
    · exact ⟨[], t, ts, rfl, nestsFrom_nil a, ht⟩
    · have hts : ¬ NestsFrom (preStep a t) ts := by
        intro hts
        exact h ((nestsFrom_cons_iff a t ts).mpr ⟨Bool.eq_false_iff.mpr ht, hts⟩)
      obtain ⟨pre, t', post, rfl, hpre, ht'⟩ := ih hts
      refine ⟨t :: pre, t', post, rfl, ?_, ht'⟩
      exact (nestsFrom_cons_iff a t pre).mpr ⟨Bool.eq_false_iff.mpr ht, hpre⟩

/-! ## One token of `decodeToWriter` -/

/-- A token other than an error that does not misnest: its payload, then the rest from the state
it leaves. -/
theorem decodeToWriter_cons {a : Bool} {t : Token} (he : t.isError = false)
    (hm : misnests a t = false) (rest : List Token) :
    decodeToWriter a (t :: rest) =
      (textPayload a t ++ (decodeToWriter (preStep a t) rest).1,
        (decodeToWriter (preStep a t) rest).2) := by
  cases t with
  | errorToken err => cases he
  | textToken text =>
    simp only [decodeToWriter, textPayload, preStep]
    cases a with
    | false => rfl
    | true => rw [if_pos rfl, if_pos rfl, flatten_scanTokens]
  | startTagToken name =>
    simp only [decodeToWriter, textPayload, preStep, List.nil_append]
    by_cases hn : name = preName
    · -- a `<pre>` that does not misnest opens an element
      have ha : a = false := by simpa [misnests, hn] using hm
      rw [if_pos hn, if_pos hn, ha, if_neg Bool.false_ne_true]
    · rw [if_neg hn, if_neg hn]
  | endTagToken name =>
    simp only [decodeToWriter, textPayload, preStep, List.nil_append]
    by_cases hn : name = preName
    · -- a `</pre>` that does not misnest closes the element
      have ha : a = true := by simpa [misnests, hn] using hm
      rw [if_pos hn, if_pos hn, ha, if_pos rfl]
    · rw [if_neg hn, if_neg hn]
  | selfClosingTagToken name => rfl
  | commentToken => rfl
  | doctypeToken => rfl

/-- A token that misnests stops the decoder with nothing more written. -/
theorem decodeToWriter_misnests {a : Bool} {t : Token} (hm : misnests a t = true)
    (rest : List Token) : decodeToWriter a (t :: rest) = ([], some (.unexpected t)) := by
  cases t with
  | startTagToken name =>
    have h : name = preName ∧ a = true := by simpa [misnests] using hm
    rw [decodeToWriter, if_pos h.1, if_pos h.2]
  | endTagToken name =>
    have h : name = preName ∧ a = false := by simpa [misnests] using hm
    rw [decodeToWriter, if_pos h.1, h.2, if_neg Bool.false_ne_true]
  | errorToken err => cases hm
  | textToken text => cases hm
  | selfClosingTagToken name => cases hm
  | commentToken => cases hm
  | doctypeToken => cases hm

/-! ## Whole streams -/

theorem decodeToWriter_of_nestsFrom {a : Bool} {ts : List Token}
    (hts : ∀ t ∈ ts, t.isError = false) (hn : NestsFrom a ts) (err : TokenizerError) :
    decodeToWriter a (ts ++ [.errorToken err]) = (prePayload a ts, errorResult (openAfter a ts) err) := by
  induction ts generalizing a with
  | nil => rfl
  | cons t ts ih =>
    obtain ⟨hm, hrest⟩ := (nestsFrom_cons_iff a t ts).mp hn
    rw [List.cons_append, decodeToWriter_cons (hts t List.mem_cons_self) hm,
      ih (fun t' h => hts t' (List.mem_cons_of_mem t h)) hrest, prePayload, openAfter_cons]

theorem decodeToWriter_of_misnests {a : Bool} {pre : List Token} {t : Token}
    (hpre : ∀ t ∈ pre, t.isError = false) (hn : NestsFrom a pre)
    (hm : misnests (openAfter a pre) t = true) (rest : List Token) :
    decodeToWriter a (pre ++ t :: rest) = (prePayload a pre, some (.unexpected t)) := by
  induction pre generalizing a with
  | nil =>
    rw [openAfter_nil] at hm
    rw [List.nil_append, decodeToWriter_misnests hm]
    rfl
  | cons u pre ih =>
    obtain ⟨hu, hrest⟩ := (nestsFrom_cons_iff a u pre).mp hn
    rw [List.cons_append, decodeToWriter_cons (hpre u List.mem_cons_self) hu,
      ih (fun t' h => hpre t' (List.mem_cons_of_mem u h)) hrest hm, prePayload]

/-- `errorResult` is an error iff the stream ends inside an element or not at `io.EOF`. -/
theorem errorResult_ne_none_iff (a : Bool) (err : TokenizerError) :
    errorResult a err ≠ none ↔ (err = .eof ∧ a = true) ∨ err ≠ .eof := by
  cases err with
  | eof => cases a <;> simp [errorResult]
  | bufferExceeded => simp [errorResult]
  | reader msg => simp [errorResult]

theorem decodeToWriter_spec (ts : List Token) (err : TokenizerError)
    (hts : ∀ t ∈ ts, t.isError = false) :
    (NestsFrom false ts →
      decodeToWriter false (ts ++ [.errorToken err]) =
        (prePayload false ts, errorResult (openAfter false ts) err)) ∧
    (∀ pre t post, ts = pre ++ t :: post → NestsFrom false pre →
      misnests (openAfter false pre) t = true →
        decodeToWriter false (ts ++ [.errorToken err]) = (prePayload false pre, some (.unexpected t))) ∧
    ((decodeToWriter false (ts ++ [.errorToken err])).2 ≠ none ↔
      (∃ pre t post, ts = pre ++ t :: post ∧ misnests (openAfter false pre) t = true) ∨
        (err = .eof ∧ openAfter false ts = true) ∨ err ≠ .eof) := by
  -- the decoder at the first token that misnests, where there is one
  have hfirst : ∀ pre t post, ts = pre ++ t :: post → NestsFrom false pre →
      misnests (openAfter false pre) t = true →
        decodeToWriter false (ts ++ [.errorToken err]) = (prePayload false pre, some (.unexpected t)) := by
    intro pre t post hsplit hpre hm
    have hpreErr : ∀ u ∈ pre, u.isError = false := fun u hu =>
      hts u (hsplit ▸ List.mem_append_left _ hu)
    rw [hsplit, List.append_assoc, List.cons_append, decodeToWriter_of_misnests hpreErr hpre hm]
  refine ⟨fun hn => decodeToWriter_of_nestsFrom hts hn err, hfirst, ?_⟩
  by_cases hn : NestsFrom false ts
  · -- no token misnests: the error is `errorResult`'s
    have hno : ¬ ∃ pre t post, ts = pre ++ t :: post ∧ misnests (openAfter false pre) t = true := by
      rintro ⟨pre, t, post, hsplit, hm⟩
      rw [hn pre t post hsplit] at hm
      exact Bool.false_ne_true hm
    rw [decodeToWriter_of_nestsFrom hts hn, errorResult_ne_none_iff]
    simp only [hno, false_or]
  · -- the first token that misnests stops the decoder with an error
    obtain ⟨pre, t, post, hsplit, hpre, hm⟩ := exists_first_misnests hn
    rw [hfirst pre t post hsplit hpre hm]
    simp only [ne_eq, reduceCtorEq, not_false_eq_true, true_iff]
    exact Or.inl ⟨pre, t, post, hsplit, hm⟩

/-- An element whose text has a space: the payload is the text without it, and no error. -/
theorem decodeToWriter_spec_element :
    (∀ t ∈ [Token.startTagToken preName, .textToken [65, 32, 66], .endTagToken preName],
        t.isError = false) ∧
      decodeToWriter false
          ([.startTagToken preName, .textToken [65, 32, 66], .endTagToken preName] ++
            [.errorToken .eof]) = ([65, 66], none) := by
  have hts : ∀ t ∈ [Token.startTagToken preName, .textToken [65, 32, 66], .endTagToken preName],
      t.isError = false := by decide
  have hn : NestsFrom false [.startTagToken preName, .textToken [65, 32, 66], .endTagToken preName] := by
    rw [nestsFrom_cons_iff, nestsFrom_cons_iff, nestsFrom_cons_iff]
    exact ⟨rfl, rfl, rfl, nestsFrom_nil _⟩
  refine ⟨hts, ?_⟩
  rw [(decodeToWriter_spec _ .eof hts).1 hn]
  decide

/-- A stray `</pre>` first: the element after it is inside `<pre>` for the recogniser, but the
decoder stops at the stray tag and writes none of it. -/
theorem decodeToWriter_stray_end_tag :
    decodeToWriter false
        ([.endTagToken preName, .startTagToken preName, .textToken [65, 65, 65, 65],
          .endTagToken preName] ++ [.errorToken .eof]) =
        ([], some (.unexpected (.endTagToken preName))) ∧
      prePayload false [.endTagToken preName, .startTagToken preName, .textToken [65, 65, 65, 65],
        .endTagToken preName] = [65, 65, 65, 65] := by
  decide

end Snowflake.Amp
