import Mathlib
import Snowflake.Amp.Encoder
/-
`common/amp/armor_decoder.go`: the AMP armor decoder. `decodeToWriter` runs the HTML tokenizer
over the page and, for the text inside `<pre>` elements, writes the fields between ASCII
whitespace that `bufio.Scanner` with `splitASCIIWhitespace` finds; `NewArmorDecoder` reads the
version byte from what it writes and base64-decodes the rest.

## The model

The tokenizer is not modelled: `decodeToWriter` runs over the list of tokens it reports, each
with what the decoder reads of it (`Err()`, `Text()`, `TagName()`), and the list ends where the
tokenizer reports `io.EOF`. The scanner over a text token is modelled by the tokens the split
function finds in the whole text at EOF (`scanTokens`); a text token is at most `elementSizeLimit`
bytes by `SetMaxBuf`, well under `bufio.MaxScanTokenSize`, so the scanner never fails. The pipe
passes on the bytes `decodeToWriter` writes, in order, and then its error; reading the decoder
to the end is `armorDecode`.

## What is proved

`flatten_scanTokens`: the fields of a text are its bytes with the whitespace removed.
`decodeToWriter_outside` and `decodeToWriter_texts`: tokens outside `<pre>` write nothing, and
the text tokens inside write their fields.
-/

set_option autoImplicit false

namespace Snowflake.Amp

open GoBase64

/-! ## Tokens -/

/-- What `tokenizer.Err()` reports with an `ErrorToken`. -/
inductive TokenizerError
  /-- `io.EOF`: the end of the page. -/
  | eof
  /-- `html.ErrBufferExceeded`: a token longer than `SetMaxBuf` allows. -/
  | bufferExceeded
  /-- An error of the underlying reader. -/
  | reader (msg : String)
  deriving DecidableEq, Repr

/-- The tokens `tokenizer.Next()` reports, with what `decodeToWriter` reads of them. -/
inductive Token
  | errorToken (err : TokenizerError)
  | textToken (text : List UInt8)
  | startTagToken (name : List UInt8)
  | endTagToken (name : List UInt8)
  | selfClosingTagToken (name : List UInt8)
  | commentToken
  | doctypeToken
  deriving DecidableEq, Repr

/-- `"pre"`, compared with `TagName()`. -/
def preName : List UInt8 := [112, 114, 101]

/-- The errors `decodeToWriter` returns. -/
inductive DecodeError
  /-- `"missing </pre> tag"`: the page ends inside an element. -/
  | missingEndTag
  /-- `"unexpected %s"`: a `<pre>` inside an element, or a `</pre>` outside one. -/
  | unexpected (t : Token)
  /-- A tokenizer error other than `io.EOF`. -/
  | tokenizer (err : TokenizerError)
  deriving DecidableEq, Repr

/-! ## `splitASCIIWhitespace` and the scanner -/

/-- `isASCIIWhitespace`: tab, line feed, form feed, carriage return and space. -/
def isASCIIWhitespace (b : UInt8) : Bool :=
  match b with
  | 9 | 10 | 12 | 13 | 32 => true
  | _ => false

/-- `splitASCIIWhitespace(data, atEOF)`: the advance and the token, `none` for a `nil` token.
`i` is where the first loop stops, and `j` where the second stops or returns. -/
def splitASCIIWhitespace (data : List UInt8) (atEOF : Bool) : Nat × Option (List UInt8) :=
  let i := data.findIdx fun b => !isASCIIWhitespace b
  let j := i + (data.drop i).findIdx isASCIIWhitespace
  if j < data.length then (j + 1, some ((data.take j).drop i))
  else if atEOF && decide (i < j) then (j, some ((data.take j).drop i))
  else (i, none)

/-- A token at EOF moves the scanner forward, within the data. -/
theorem splitASCIIWhitespace_progress {data : List UInt8} {adv : Nat} {token : List UInt8}
    (h : splitASCIIWhitespace data true = (adv, some token)) :
    0 < adv ∧ adv ≤ data.length := by
  have hj : (data.findIdx fun b => !isASCIIWhitespace b) +
      (data.drop (data.findIdx fun b => !isASCIIWhitespace b)).findIdx isASCIIWhitespace ≤
        data.length := by
    have hfield : (data.drop (data.findIdx fun b => !isASCIIWhitespace b)).findIdx
        isASCIIWhitespace ≤ (data.drop (data.findIdx fun b => !isASCIIWhitespace b)).length :=
      List.findIdx_le_length
    have hskip : (data.findIdx fun b => !isASCIIWhitespace b) ≤ data.length :=
      List.findIdx_le_length
    rw [List.length_drop] at hfield
    omega
  unfold splitASCIIWhitespace at h
  dsimp only at h
  split at h
  · rw [Prod.mk.injEq] at h
    omega
  · split at h
    · rename_i hlt
      rw [Prod.mk.injEq] at h
      simp only [Bool.true_and, decide_eq_true_eq] at hlt
      omega
    · simp at h

/-- The tokens `bufio.Scanner` with `splitASCIIWhitespace` yields over `data`, which the scanner
reads to its end: the split function at EOF, from the start and then after each advance, until it
returns no token. Asking for more data before EOF changes none of them, since a token that the
split function returns before EOF ends at whitespace. -/
def scanTokens (data : List UInt8) : List (List UInt8) :=
  match _h : splitASCIIWhitespace data true with
  | (_, none) => []
  | (adv, some token) => token :: scanTokens (data.drop adv)
termination_by data.length
decreasing_by
  have := splitASCIIWhitespace_progress _h
  rw [List.length_drop]
  omega

/-- The whitespace the first loop skips. -/
theorem filter_take_skip (data : List UInt8) :
    (data.take (data.findIdx fun b => !isASCIIWhitespace b)).filter
      (fun b => !isASCIIWhitespace b) = [] := by
  rw [← List.takeWhile_eq_take_findIdx_not, List.filter_eq_nil_iff]
  intro b hb
  rw [List.mem_takeWhile_imp hb]
  decide

/-- The field the second loop passes over. -/
theorem filter_take_field (d : List UInt8) :
    (d.take (d.findIdx isASCIIWhitespace)).filter (fun b => !isASCIIWhitespace b) =
      d.take (d.findIdx isASCIIWhitespace) := by
  have hnot : (fun b => !!isASCIIWhitespace b) = isASCIIWhitespace :=
    funext fun b => Bool.not_not _
  have hw : d.takeWhile (fun b => !isASCIIWhitespace b) =
      d.take (d.findIdx fun b => !!isASCIIWhitespace b) :=
    List.takeWhile_eq_take_findIdx_not
  rw [hnot] at hw
  rw [← hw, List.filter_eq_self]
  intro b hb
  exact List.mem_takeWhile_imp (p := fun b => !isASCIIWhitespace b) hb

/-- The bytes of `data` that are not whitespace: those of the field `splitASCIIWhitespace` finds
after the whitespace it skips, and those after the field. -/
theorem filter_split (data : List UInt8) :
    data.filter (fun b => !isASCIIWhitespace b) =
      ((data.drop (data.findIdx fun b => !isASCIIWhitespace b)).take
        ((data.drop (data.findIdx fun b => !isASCIIWhitespace b)).findIdx isASCIIWhitespace)) ++
      ((data.drop (data.findIdx fun b => !isASCIIWhitespace b)).drop
        ((data.drop (data.findIdx fun b => !isASCIIWhitespace b)).findIdx isASCIIWhitespace)).filter
        (fun b => !isASCIIWhitespace b) := by
  set i := data.findIdx fun b => !isASCIIWhitespace b
  set d := data.drop i
  set k := d.findIdx isASCIIWhitespace
  calc data.filter (fun b => !isASCIIWhitespace b)
      = (data.take i).filter (fun b => !isASCIIWhitespace b) ++
          ((d.take k).filter (fun b => !isASCIIWhitespace b) ++
            (d.drop k).filter (fun b => !isASCIIWhitespace b)) := by
        rw [← List.filter_append, List.take_append_drop, ← List.filter_append,
          List.take_append_drop]
    _ = d.take k ++ (d.drop k).filter (fun b => !isASCIIWhitespace b) := by
        rw [filter_take_skip, filter_take_field, List.nil_append]

/-- No token at EOF: all of `data` is whitespace. -/
theorem filter_of_split_none {data : List UInt8} {adv : Nat}
    (h : splitASCIIWhitespace data true = (adv, none)) :
    data.filter (fun b => !isASCIIWhitespace b) = [] := by
  rw [filter_split]
  set i := data.findIdx fun b => !isASCIIWhitespace b
  unfold splitASCIIWhitespace at h
  dsimp only at h
  -- neither return of the second loop is taken, so the first loop ran to the end of `data`
  have hend : data.length ≤ i := by
    split at h
    · simp at h
    · split at h
      · simp at h
      · rename_i hlt hnot
        simp only [Bool.true_and, decide_eq_true_eq] at hnot
        omega
  rw [List.drop_of_length_le hend, List.take_nil, List.drop_nil, List.filter_nil, List.append_nil]

/-- A token at EOF: the bytes of `data` that are not whitespace are the token's, then those after
the advance. -/
theorem filter_of_split_some {data : List UInt8} {adv : Nat} {token : List UInt8}
    (h : splitASCIIWhitespace data true = (adv, some token)) :
    data.filter (fun b => !isASCIIWhitespace b) =
      token ++ (data.drop adv).filter (fun b => !isASCIIWhitespace b) := by
  rw [filter_split]
  set i := data.findIdx fun b => !isASCIIWhitespace b
  set d := data.drop i with hd
  set k := d.findIdx isASCIIWhitespace
  have hdlen : d.length = data.length - i := List.length_drop
  have hk : k ≤ d.length := List.findIdx_le_length
  have htok : (data.take (i + k)).drop i = d.take k := by
    rw [List.drop_take, Nat.add_sub_cancel_left]
  unfold splitASCIIWhitespace at h
  dsimp only at h
  rw [← hd] at h
  split at h
  · -- the field ends at the whitespace at `j = i + k`, which the advance passes
    rename_i hlt
    rw [Prod.mk.injEq, Option.some.injEq] at h
    obtain ⟨rfl, rfl⟩ := h
    have hkd : k < d.length := by omega
    have hws : isASCIIWhitespace d[k] = true := List.findIdx_getElem (w := hkd)
    have hrest : data.drop (i + k + 1) = d.drop (k + 1) := by
      rw [hd, List.drop_drop, Nat.add_assoc]
    rw [htok, hrest, List.drop_eq_getElem_cons hkd, List.filter_cons, hws]
    rfl
  · split at h
    · -- the field runs to the end of `data`
      rename_i hlt _
      rw [Prod.mk.injEq, Option.some.injEq] at h
      obtain ⟨rfl, rfl⟩ := h
      have hfield : d.length ≤ k := by omega
      have hall : data.length ≤ i + k := by omega
      rw [htok, List.drop_of_length_le hfield, List.drop_of_length_le hall]
    · simp at h

/-- The fields the scanner finds are the bytes of the text that are not whitespace. The
induction follows the scanner, one token at a time. -/
theorem flatten_scanTokens (data : List UInt8) :
    (scanTokens data).flatten = data.filter (fun b => !isASCIIWhitespace b) := by
  induction data using scanTokens.induct with
  | case1 data adv h =>
    rw [scanTokens, h, List.flatten_nil, filter_of_split_none h]
  | case2 data adv token h ih =>
    rw [scanTokens, h, List.flatten_cons, ih, filter_of_split_some h]

/-! ## `decodeToWriter` -/

/-- What `decodeToWriter` returns at an `ErrorToken`: `io.EOF` ends the page, where an open
`<pre>` is an error; any other error is returned as it is. -/
def errorResult (active : Bool) : TokenizerError → Option DecodeError
  | .eof => if active then some .missingEndTag else none
  | err => some (.tokenizer err)

/-- `decodeToWriter(w, r)` from the state `active` (inside a `<pre>` element): the bytes written to
`w`, in order, and the error returned. The count it returns is the number of those bytes, since
the writes succeed. -/
def decodeToWriter (active : Bool) : List Token → List UInt8 × Option DecodeError
  | [] => ([], errorResult active .eof)
  | .errorToken err :: _ => ([], errorResult active err)
  | .textToken text :: ts =>
    -- the fields of the text are written when inside an element
    let r := decodeToWriter active ts
    if active then ((scanTokens text).flatten ++ r.1, r.2) else r
  | .startTagToken name :: ts =>
    if name = preName then
      if active then ([], some (.unexpected (.startTagToken name)))
      else decodeToWriter true ts
    else decodeToWriter active ts
  | .endTagToken name :: ts =>
    if name = preName then
      if active then decodeToWriter false ts
      else ([], some (.unexpected (.endTagToken name)))
    else decodeToWriter active ts
  | .selfClosingTagToken _ :: ts => decodeToWriter active ts
  | .commentToken :: ts => decodeToWriter active ts
  | .doctypeToken :: ts => decodeToWriter active ts

/-- A token that `decodeToWriter` passes over outside an element: not an error, and no `pre` tag. -/
def Token.IsOutside : Token → Prop
  | .errorToken _ => False
  | .startTagToken name => name ≠ preName
  | .endTagToken name => name ≠ preName
  | _ => True

instance : DecidablePred Token.IsOutside
  | .errorToken _ => isFalse id
  | .startTagToken name => inferInstanceAs (Decidable (name ≠ preName))
  | .endTagToken name => inferInstanceAs (Decidable (name ≠ preName))
  | .textToken _ => isTrue trivial
  | .selfClosingTagToken _ => isTrue trivial
  | .commentToken => isTrue trivial
  | .doctypeToken => isTrue trivial

/-- Outside an element, tokens that are not errors and not `pre` tags write nothing. -/
theorem decodeToWriter_outside {o : List Token} (ho : ∀ t ∈ o, t.IsOutside) (rest : List Token) :
    decodeToWriter false (o ++ rest) = decodeToWriter false rest := by
  induction o with
  | nil => rw [List.nil_append]
  | cons t o ih =>
    have ht := ho t List.mem_cons_self
    have hrest := ih fun t' h => ho t' (List.mem_cons_of_mem t h)
    rw [List.cons_append]
    cases t with
    | errorToken err => exact absurd ht id
    | textToken text => rw [decodeToWriter, hrest, if_neg Bool.false_ne_true]
    | startTagToken name => rw [decodeToWriter, if_neg ht, hrest]
    | endTagToken name => rw [decodeToWriter, if_neg ht, hrest]
    | selfClosingTagToken name => rw [decodeToWriter, hrest]
    | commentToken => rw [decodeToWriter, hrest]
    | doctypeToken => rw [decodeToWriter, hrest]

/-- Inside an element, text tokens write their fields. -/
theorem decodeToWriter_texts (texts : List (List UInt8)) (rest : List Token) :
    decodeToWriter true (texts.map .textToken ++ rest) =
      ((texts.map fun text => (scanTokens text).flatten).flatten ++ (decodeToWriter true rest).1,
        (decodeToWriter true rest).2) := by
  induction texts with
  | nil => rw [List.map_nil, List.nil_append, List.map_nil, List.flatten_nil, List.nil_append]
  | cons text texts ih =>
    rw [List.map_cons, List.cons_append, decodeToWriter, if_pos rfl, ih, List.map_cons,
      List.flatten_cons, List.append_assoc]

/-! ## `NewArmorDecoder` -/

/-- The errors reading the armor decoder returns. -/
inductive ArmorError
  /-- The error `decodeToWriter` returned, which closes the pipe. -/
  | decode (err : DecodeError)
  /-- `io.EOF` on reading the version byte: the pipe was closed with nothing written. -/
  | eof
  /-- `ErrUnknownVersion`. -/
  | unknownVersion (b : UInt8)
  /-- `base64.CorruptInputError`. -/
  | corruptInput
  deriving DecidableEq, Repr

/-- `NewArmorDecoder(r)` over the tokens of `r`, and the reader it returns read to the end. The
first byte `decodeToWriter` writes is the version indicator; after `'0'`, the base64 decoder reads
the rest of the pipe, then the error `decodeToWriter` closed it with. -/
def armorDecode (toks : List Token) : Except ArmorError (List UInt8) :=
  let r := decodeToWriter false toks
  match r.1 with
  | [] =>
    match r.2 with
    | some err => .error (.decode err)
    | none => .error .eof
  | version :: rest =>
    if version = 48 then
      match r.2 with
      | some err => .error (.decode err)
      | none =>
        match decodeStream rest with
        | some s => .ok s
        | none => .error .corruptInput
    else .error (.unknownVersion version)

/-- When `decodeToWriter` writes the version byte `'0'` and the base64 encoding of `s` and returns
no error, reading the decoder gives `s`. -/
theorem armorDecode_of_decodeToWriter {toks : List Token} {s : List UInt8}
    (h : decodeToWriter false toks = (48 :: encode s, none)) : armorDecode toks = .ok s := by
  unfold armorDecode
  rw [h]
  dsimp only
  rw [if_pos rfl, decodeStream_encode]

end Snowflake.Amp
