import Mathlib
import Snowflake.Messages.Client
/-
`broker/bridge-list.go`: the broker's list of bridges, loaded from a file of JSON lines and keyed
by the fingerprints of `common/bridgefingerprint` (`Snowflake.Messages.fingerprintFromHexString`).

## The model

`LoadBridgeInfo` reads its input with `bufio.Scanner` and `ScanLines`: the input split at `\n`,
without a final empty piece, each line with a trailing `\r` dropped (`scanLines`). A line of
`bufio.MaxScanTokenSize` bytes or more does not fit the scanner's buffer, so scanning stops there
with `ErrTooLong`, which the loop sees after the lines before it. Each line is decoded by a
`json.Decoder` with `DisallowUnknownFields`. That decoder is a parameter, `decode`, of which the
results below assume only that an empty line is no bridge (`io.EOF`); `decodeBridgeInfo` is such
a decoder over a JSON codec. The fingerprint field is hex-decoded and must be 20 or 32 bytes
long. The map being built is local; only when every line and the scanner succeed is it stored in
the holder.

## What is proved

`loadLines_ok`: a loop that succeeds has decoded every line, and the map it built holds, for each
fingerprint, the last line whose fingerprint field hex-decodes to it. `loadBridgeInfo_all_or_nothing`:
a load succeeds exactly when every line fits the scanner, decodes and carries a bridge fingerprint,
and `GetBridgeInfo` then answers from the new lines alone; otherwise the error is the first failing
line's (too long, not decodable, or a bad fingerprint, an empty line among them) and every answer
of `GetBridgeInfo` is as it was.
-/

set_option autoImplicit false

namespace Snowflake.Broker

variable {ε : Type}

open Snowflake.Messages GoJson

/-! ## Fingerprints -/

/-- `bridgefingerprint.Fingerprint`, a string of raw bytes. -/
abbrev Fingerprint := List UInt8

/-- The errors of loading and looking up bridges. -/
inductive BridgeError (ε : Type)
  /-- An error of `decoder.Decode`: a line that is not JSON, empty, or with an unknown field. -/
  | decode (err : ε)
  /-- An error of `FingerprintFromHexString` on the fingerprint field. -/
  | fingerprint (err : FingerprintError)
  /-- `bufio.ErrTooLong`: a line too long for the scanner. -/
  | tooLong
  /-- `ErrBridgeNotFound`. -/
  | notFound

/-- A fingerprint read from its hex string is what the string hex-decodes to. -/
theorem decodeString_of_fingerprintFromHexString {s : List UInt8} {fp : Fingerprint}
    (h : fingerprintFromHexString s = .ok fp) : GoHex.decodeString s = .ok fp := by
  unfold fingerprintFromHexString at h
  split at h
  · cases h
  · rename_i decoded hdec
    unfold fingerprintFromBytes at h
    split_ifs at h
    cases h
    exact hdec

/-! ## The holder -/

/-- `BridgeInfo`. -/
structure BridgeInfo where
  displayName : List UInt8
  webSocketAddress : List UInt8
  fingerprint : List UInt8
  deriving DecidableEq

/-- `bridgeListHolder`: its map, `nil` in a new holder. -/
structure BridgeListHolder where
  bridgeInfo : Fingerprint → Option BridgeInfo

/-- `NewBridgeListHolder()`. -/
def newBridgeListHolder : BridgeListHolder := ⟨fun _ => none⟩

/-- `GetBridgeInfo(fingerprint)`. -/
def BridgeListHolder.getBridgeInfo (h : BridgeListHolder) (fingerprint : Fingerprint) :
    Except (BridgeError ε) BridgeInfo :=
  match h.bridgeInfo fingerprint with
  | some bridgeInfo => .ok bridgeInfo
  | none => .error .notFound

/-! ## Scanning lines -/

/-- `bufio.MaxScanTokenSize`. -/
def maxScanTokenSize : Nat := 64 * 1024

/-- The input in pieces between `\n`s; a final empty piece, after a last `\n`, is no line. -/
def rawLines (input : List UInt8) : List (List UInt8) :=
  let pieces := input.splitOn 10
  if pieces.getLast? = some [] then pieces.dropLast else pieces

/-- `dropCR`: a line without its trailing `\r`. -/
def dropCR (line : List UInt8) : List UInt8 :=
  if line.getLast? = some 13 then line.dropLast else line

/-- The tokens `ScanLines` gives for the raw lines, in order, and then `ErrTooLong` at the first
line that does not fit the scanner's buffer. -/
def scanLines : List (List UInt8) → List (List UInt8) × Option (BridgeError ε)
  | [] => ([], none)
  | line :: lines =>
    if maxScanTokenSize ≤ line.length then ([], some .tooLong)
    else
      let r := scanLines lines
      (dropCR line :: r.1, r.2)

/-! ## `LoadBridgeInfo` -/

/-- The loop of `LoadBridgeInfo` over the lines, adding to the map `m`; the first error ends it. -/
def loadLines (decode : List UInt8 → Except ε BridgeInfo) (m : Fingerprint → Option BridgeInfo) :
    List (List UInt8) → Except (BridgeError ε) (Fingerprint → Option BridgeInfo)
  | [] => .ok m
  | line :: lines =>
    match decode line with
    | .error err => .error (.decode err)
    | .ok bridgeInfo =>
      match fingerprintFromHexString bridgeInfo.fingerprint with
      | .error err => .error (.fingerprint err)
      | .ok bridgeFingerprint =>
        loadLines decode (fun f => if f = bridgeFingerprint then some bridgeInfo else m f) lines

/-- `LoadBridgeInfo(reader)` on a reader of `input`: the holder after it, and the error. -/
def BridgeListHolder.loadBridgeInfo (decode : List UInt8 → Except ε BridgeInfo)
    (h : BridgeListHolder) (input : List UInt8) : BridgeListHolder × Option (BridgeError ε) :=
  let scanned : List (List UInt8) × Option (BridgeError ε) := scanLines (rawLines input)
  match loadLines decode (fun _ => none) scanned.1 with
  | .error err => (h, some err)
  | .ok bridgeInfoMap =>
    match scanned.2 with
    | some err => (h, some err)
    | none => (⟨bridgeInfoMap⟩, none)

/-! ## Decoding a line -/

/-- The errors of `decoder.Decode(&bridgeInfo)` on one line. -/
inductive LineDecodeError where
  /-- `io.EOF`: the line holds no JSON value. -/
  | eof
  /-- A syntax error, or an `*json.UnmarshalTypeError` for a member of the wrong kind. -/
  | json (err : DecodeError)
  /-- `json: unknown field`, which `DisallowUnknownFields` makes an error. -/
  | unknownField (key : List UInt8)
  deriving DecidableEq, Repr

/-- The error a member of the object saves, if any: a key that is none of the three fields of
`BridgeInfo`, or a field that holds something other than a string or `null`. -/
def bridgeInfoMemberError (m : List UInt8 × Value) : Option LineDecodeError :=
  if m.1 = str "displayName" ∨ m.1 = str "webSocketAddress" ∨ m.1 = str "fingerprint" then
    match m.2 with
    | .string _ => none
    | .null => none
    | _ => some (.json (.type m.1))
  else some (.unknownField m.1)

/-- `json.NewDecoder(bytes.NewReader(inputLine))` with `DisallowUnknownFields`, then
`Decode(&bridgeInfo)`, over the codec `J`. An empty line is `io.EOF`, a line `J` reads as no
object a syntax error; the decoder saves the first error of a member, in order, and reports it;
otherwise the three fields are read as `string` fields. Not modelled: `Decode` reads only the
first value of the line, takes whitespace alone as `io.EOF` and `null` as the zero `BridgeInfo`,
and matches keys without regard to case. -/
def decodeBridgeInfo (J : Codec) (inputLine : List UInt8) : Except LineDecodeError BridgeInfo :=
  if inputLine = [] then .error .eof
  else
    match J.unmarshal inputLine with
    | none => .error (.json .syntaxError)
    | some o =>
      match o.findSome? bridgeInfoMemberError with
      | some err => .error err
      | none => do
        let displayName ← (o.stringField (str "displayName")).mapError .json
        let webSocketAddress ← (o.stringField (str "webSocketAddress")).mapError .json
        let fingerprint ← (o.stringField (str "fingerprint")).mapError .json
        .ok ⟨displayName, webSocketAddress, fingerprint⟩

/-- An empty line is no bridge. -/
theorem decodeBridgeInfo_nil (J : Codec) (bridgeInfo : BridgeInfo) :
    decodeBridgeInfo J [] ≠ .ok bridgeInfo := by
  rw [decodeBridgeInfo, if_pos rfl]
  intro h
  cases h

/-! ## What a load leaves -/

/-- The answer for `f` of the lines `infos`: the last whose fingerprint field hex-decodes to `f`. -/
def lastWithFingerprint (infos : List BridgeInfo) (f : Fingerprint) : Option BridgeInfo :=
  (infos.filter fun i => decide (GoHex.decodeString i.fingerprint = .ok f)).getLast?

theorem lastWithFingerprint_cons (i : BridgeInfo) (infos : List BridgeInfo) (f : Fingerprint)
    (o : Option BridgeInfo) :
    (lastWithFingerprint (i :: infos) f).or o =
      (lastWithFingerprint infos f).or
        (if GoHex.decodeString i.fingerprint = .ok f then some i else o) := by
  unfold lastWithFingerprint
  by_cases hi : GoHex.decodeString i.fingerprint = .ok f
  · -- `i` is the answer unless a later line has the same fingerprint
    rw [List.filter_cons_of_pos (by simpa using hi), if_pos hi, List.getLast?_cons]
    cases (infos.filter fun i => decide (GoHex.decodeString i.fingerprint = .ok f)).getLast? <;> rfl
  · rw [List.filter_cons_of_neg (by simpa using hi), if_neg hi]

/-- A loop that succeeds decoded every line, and its map answers each fingerprint with the last
line for it, or else as `m` did. The induction is on the lines, the map growing. -/
theorem loadLines_ok (decode : List UInt8 → Except ε BridgeInfo) (lines : List (List UInt8)) :
    ∀ (m m' : Fingerprint → Option BridgeInfo), loadLines decode m lines = .ok m' →
      ∃ infos, lines.map decode = infos.map .ok ∧
        ∀ f, m' f = (lastWithFingerprint infos f).or (m f) := by
  induction lines with
  | nil =>
    intro m m' h
    cases h
    exact ⟨[], rfl, fun f => rfl⟩
  | cons line lines ih =>
    intro m m' h
    rw [loadLines] at h
    split at h
    · cases h
    · rename_i bridgeInfo hdecode
      split at h
      · cases h
      · rename_i bridgeFingerprint hfp
        obtain ⟨infos, hmap, hm'⟩ := ih _ m' h
        refine ⟨bridgeInfo :: infos, by rw [List.map_cons, hdecode, hmap, List.map_cons], ?_⟩
        intro f
        -- the line's fingerprint is the map's new key
        have hkey : (GoHex.decodeString bridgeInfo.fingerprint = .ok f) ↔ f = bridgeFingerprint := by
          rw [decodeString_of_fingerprintFromHexString hfp]
          constructor
          · intro hf
            cases hf
            rfl
          · rintro rfl
            rfl
        rw [hm', lastWithFingerprint_cons]
        by_cases hf : f = bridgeFingerprint
        · rw [if_pos hf, if_pos (hkey.mpr hf)]
        · rw [if_neg hf, if_neg (mt hkey.mp hf)]

/-! ## Lines that load and lines that stop the load -/

/-- The token of a line decodes, and its fingerprint field is a bridge fingerprint. -/
def TokenLoads (decode : List UInt8 → Except ε BridgeInfo) (token : List UInt8) : Prop :=
  ∃ bridgeInfo fp, decode token = .ok bridgeInfo ∧
    fingerprintFromHexString bridgeInfo.fingerprint = .ok fp

/-- A raw line that `LoadBridgeInfo` gets through: it fits the scanner's buffer and its token
loads. -/
def LineLoads (decode : List UInt8 → Except ε BridgeInfo) (line : List UInt8) : Prop :=
  line.length < maxScanTokenSize ∧ TokenLoads decode (dropCR line)

/-- The error a token stops the loop with: the decoder's, or else the fingerprint's. -/
def TokenFails (decode : List UInt8 → Except ε BridgeInfo) (token : List UInt8)
    (err : BridgeError ε) : Prop :=
  (∃ e, decode token = .error e ∧ err = .decode e) ∨
    ∃ bridgeInfo e, decode token = .ok bridgeInfo ∧
      fingerprintFromHexString bridgeInfo.fingerprint = .error e ∧ err = .fingerprint e

/-- The error a raw line stops `LoadBridgeInfo` with: `bufio.ErrTooLong` for a line that does
not fit the scanner's buffer, else its token's. -/
def LineFails (decode : List UInt8 → Except ε BridgeInfo) (line : List UInt8)
    (err : BridgeError ε) : Prop :=
  (maxScanTokenSize ≤ line.length ∧ err = .tooLong) ∨
    (line.length < maxScanTokenSize ∧ TokenFails decode (dropCR line) err)

/-- The bridges the lines decode to, in order. -/
def bridgeInfos (decode : List UInt8 → Except ε BridgeInfo) (lines : List (List UInt8)) :
    List BridgeInfo :=
  lines.filterMap fun line => (decode (dropCR line)).toOption

/-- Either every element of a list has a property, or there is a first one without it. -/
theorem forall_or_exists_first {α : Type} (P : α → Prop) :
    ∀ l : List α, (∀ a ∈ l, P a) ∨
      ∃ pre a post, l = pre ++ a :: post ∧ (∀ b ∈ pre, P b) ∧ ¬ P a
  | [] => .inl fun _ h => nomatch h
  | a :: l => by
    by_cases ha : P a
    · rcases forall_or_exists_first P l with h | ⟨pre, b, post, rfl, hpre, hb⟩
      · exact .inl (List.forall_mem_cons.mpr ⟨ha, h⟩)
      · exact .inr ⟨a :: pre, b, post, rfl, List.forall_mem_cons.mpr ⟨ha, hpre⟩, hb⟩
    · exact .inr ⟨[], a, l, rfl, List.forall_mem_nil _, ha⟩

/-- A token that does not load fails with an error. -/
theorem TokenFails.of_not_loads {decode : List UInt8 → Except ε BridgeInfo} {token : List UInt8}
    (h : ¬ TokenLoads decode token) : ∃ err, TokenFails decode token err := by
  cases hd : decode token with
  | error e => exact ⟨_, .inl ⟨e, hd, rfl⟩⟩
  | ok bridgeInfo =>
    cases hf : fingerprintFromHexString bridgeInfo.fingerprint with
    | error e => exact ⟨_, .inr ⟨bridgeInfo, e, hd, hf, rfl⟩⟩
    | ok fp => exact absurd ⟨bridgeInfo, fp, hd, hf⟩ h

/-! ## The scanner and the loop, line by line -/

/-- Lines that fit are handed out as tokens, one each, before whatever follows them. -/
theorem scanLines_append_of_fits {pre : List (List UInt8)}
    (hpre : ∀ line ∈ pre, line.length < maxScanTokenSize) (rest : List (List UInt8)) :
    scanLines (ε := ε) (pre ++ rest) =
      (pre.map dropCR ++ (scanLines (ε := ε) rest).1, (scanLines (ε := ε) rest).2) := by
  induction pre with
  | nil => rfl
  | cons line pre ih =>
    rw [List.forall_mem_cons] at hpre
    rw [List.cons_append, scanLines, if_neg (Nat.not_le.mpr hpre.1), ih hpre.2]
    rfl

/-- A token that loads adds its bridge under its fingerprint and the loop goes on. -/
theorem loadLines_cons_of_loads (decode : List UInt8 → Except ε BridgeInfo)
    (m : Fingerprint → Option BridgeInfo) {token : List UInt8} {bridgeInfo : BridgeInfo}
    {fp : Fingerprint} (hd : decode token = .ok bridgeInfo)
    (hf : fingerprintFromHexString bridgeInfo.fingerprint = .ok fp) (tokens : List (List UInt8)) :
    loadLines decode m (token :: tokens) =
      loadLines decode (fun f => if f = fp then some bridgeInfo else m f) tokens := by
  rw [loadLines, hd]
  dsimp only
  rw [hf]

/-- A loop over tokens that all load succeeds. -/
theorem loadLines_ok_of_loads (decode : List UInt8 → Except ε BridgeInfo)
    {tokens : List (List UInt8)} (h : ∀ token ∈ tokens, TokenLoads decode token) :
    ∀ m, ∃ m', loadLines decode m tokens = .ok m' := by
  induction tokens with
  | nil => exact fun m => ⟨m, rfl⟩
  | cons token tokens ih =>
    intro m
    rw [List.forall_mem_cons] at h
    obtain ⟨bridgeInfo, fp, hd, hf⟩ := h.1
    obtain ⟨m', hm'⟩ := ih h.2 (fun f => if f = fp then some bridgeInfo else m f)
    exact ⟨m', (loadLines_cons_of_loads decode m hd hf tokens).trans hm'⟩

/-- A loop whose tokens load up to one that does not stops there, with that token's error. -/
theorem loadLines_error_of_fails (decode : List UInt8 → Except ε BridgeInfo)
    {pre : List (List UInt8)} (hpre : ∀ token ∈ pre, TokenLoads decode token)
    {token : List UInt8} {err : BridgeError ε} (hbad : TokenFails decode token err)
    (post : List (List UInt8)) :
    ∀ m, loadLines decode m (pre ++ token :: post) = .error err := by
  induction pre with
  | nil =>
    intro m
    rw [List.nil_append, loadLines]
    rcases hbad with ⟨e, hd, rfl⟩ | ⟨bridgeInfo, e, hd, hf, rfl⟩
    · rw [hd]
    · rw [hd]
      dsimp only
      rw [hf]
  | cons t pre ih =>
    intro m
    rw [List.forall_mem_cons] at hpre
    obtain ⟨bridgeInfo, fp, hd, hf⟩ := hpre.1
    rw [List.cons_append, loadLines_cons_of_loads decode m hd hf]
    exact ih hpre.2 _

/-- The bridges of lines whose tokens all decode are what they decode to. -/
theorem bridgeInfos_of_map (decode : List UInt8 → Except ε BridgeInfo) :
    ∀ {lines : List (List UInt8)} {infos : List BridgeInfo},
      (lines.map dropCR).map decode = infos.map .ok → bridgeInfos decode lines = infos
  | [], [], _ => rfl
  | line :: lines, i :: infos, h => by
    simp only [List.map_cons, List.cons.injEq] at h
    rw [bridgeInfos, List.filterMap_cons, h.1]
    exact congrArg (i :: ·) (bridgeInfos_of_map decode h.2)
  | [], _ :: _, h => nomatch h
  | _ :: _, [], h => nomatch h

/-! ## What a load leaves -/

/-- When every line loads, the load succeeds with the map of the lines' bridges, the last line
for each fingerprint. -/
theorem loadBridgeInfo_of_loads (decode : List UInt8 → Except ε BridgeInfo)
    (h : BridgeListHolder) {input : List UInt8}
    (hall : ∀ line ∈ rawLines input, LineLoads decode line) :
    h.loadBridgeInfo decode input =
      (⟨fun f => lastWithFingerprint (bridgeInfos decode (rawLines input)) f⟩, none) := by
  have hfit : ∀ line ∈ rawLines input, line.length < maxScanTokenSize := fun l hl => (hall l hl).1
  have hscan : scanLines (ε := ε) (rawLines input) = ((rawLines input).map dropCR, none) := by
    simpa [scanLines] using scanLines_append_of_fits (ε := ε) hfit []
  have htok : ∀ token ∈ (rawLines input).map dropCR, TokenLoads decode token := by
    intro token ht
    obtain ⟨line, hl, rfl⟩ := List.mem_map.mp ht
    exact (hall line hl).2
  obtain ⟨m, hm⟩ := loadLines_ok_of_loads decode htok (fun _ => none)
  obtain ⟨infos, hmap, hans⟩ := loadLines_ok decode _ _ _ hm
  unfold BridgeListHolder.loadBridgeInfo
  rw [hscan]
  dsimp only
  rw [hm]
  dsimp only
  rw [bridgeInfos_of_map decode hmap]
  congr
  funext f
  rw [hans f, Option.or_none]

/-- At the first line that does not load, the load fails with that line's error and leaves the
holder as it was. -/
theorem loadBridgeInfo_of_first_failure (decode : List UInt8 → Except ε BridgeInfo)
    (h : BridgeListHolder) {input : List UInt8} {pre : List (List UInt8)} {line : List UInt8}
    {post : List (List UInt8)} (hlines : rawLines input = pre ++ line :: post)
    (hpre : ∀ l ∈ pre, LineLoads decode l) (hbad : ¬ LineLoads decode line) :
    ∃ err, LineFails decode line err ∧ h.loadBridgeInfo decode input = (h, some err) := by
  have hfit : ∀ l ∈ pre, l.length < maxScanTokenSize := fun l hl => (hpre l hl).1
  have htok : ∀ token ∈ pre.map dropCR, TokenLoads decode token := by
    intro token ht
    obtain ⟨l, hl, rfl⟩ := List.mem_map.mp ht
    exact (hpre l hl).2
  unfold BridgeListHolder.loadBridgeInfo
  rw [hlines, scanLines_append_of_fits hfit]
  dsimp only
  by_cases hlong : maxScanTokenSize ≤ line.length
  · -- the scanner stops at the line, after the loop has taken the lines before it
    refine ⟨.tooLong, .inl ⟨hlong, rfl⟩, ?_⟩
    rw [scanLines, if_pos hlong]
    dsimp only
    obtain ⟨m, hm⟩ := loadLines_ok_of_loads decode htok (fun _ => none)
    rw [List.append_nil, hm]
  · -- the line is a token, and the loop stops at it
    have hfits : line.length < maxScanTokenSize := Nat.lt_of_not_le hlong
    obtain ⟨err, herr⟩ := TokenFails.of_not_loads fun ht => hbad ⟨hfits, ht⟩
    refine ⟨err, .inr ⟨hfits, herr⟩, ?_⟩
    rw [scanLines, if_neg hlong]
    dsimp only
    rw [loadLines_error_of_fails decode htok herr]

theorem loadBridgeInfo_all_or_nothing (decode : List UInt8 → Except ε BridgeInfo)
    (hEOF : ∀ bridgeInfo, decode [] ≠ .ok bridgeInfo) (h : BridgeListHolder)
    (input : List UInt8) :
    ((h.loadBridgeInfo decode input).2 = none ↔ ∀ line ∈ rawLines input, LineLoads decode line) ∧
    ((h.loadBridgeInfo decode input).2 = none → ∀ f,
      ((h.loadBridgeInfo decode input).1.getBridgeInfo f : Except (BridgeError ε) BridgeInfo) =
        match lastWithFingerprint (bridgeInfos decode (rawLines input)) f with
        | some bridgeInfo => .ok bridgeInfo
        | none => .error .notFound) ∧
    (∀ err, (h.loadBridgeInfo decode input).2 = some err →
      (∃ pre line post, rawLines input = pre ++ line :: post ∧
        (∀ l ∈ pre, LineLoads decode l) ∧ LineFails decode line err) ∧
      ∀ f, ((h.loadBridgeInfo decode input).1.getBridgeInfo f : Except (BridgeError ε) BridgeInfo) =
        h.getBridgeInfo f) ∧
    ((∃ line ∈ rawLines input, dropCR line = []) → (h.loadBridgeInfo decode input).2 ≠ none) := by
  rcases forall_or_exists_first (LineLoads decode) (rawLines input) with
    hall | ⟨pre, line, post, hlines, hpre, hbad⟩
  · -- every line loads: the new map, and no error
    rw [loadBridgeInfo_of_loads decode h hall]
    refine ⟨iff_of_true rfl hall, fun _ f => rfl, fun _ herr => (by cases herr), ?_⟩
    rintro ⟨line, hl, hempty⟩
    obtain ⟨-, bridgeInfo, fp, hd, -⟩ := hall line hl
    rw [hempty] at hd
    exact absurd hd (hEOF bridgeInfo)
  · -- the first line that does not load decides the error, and the holder is kept
    obtain ⟨err, hfail, hload⟩ := loadBridgeInfo_of_first_failure decode h hlines hpre hbad
    rw [hload]
    have hnot : ¬ ∀ l ∈ rawLines input, LineLoads decode l := fun hall =>
      hbad (hall line (by rw [hlines]; exact List.mem_append_right _ List.mem_cons_self))
    refine ⟨iff_of_false (fun hnone => by cases hnone) hnot, fun hnone => (by cases hnone), ?_,
      fun _ hnone => by cases hnone⟩
    intro err' herr'
    cases herr'
    exact ⟨⟨pre, line, post, hlines, hpre, hfail⟩, fun f => rfl⟩

set_option maxRecDepth 8192 in
/-- The default bridge of the broker's test list, as one line of compact JSON: the file loads,
and `GetBridgeInfo` answers its fingerprint with it. -/
theorem loadBridgeInfo_all_or_nothing_default :
    (∀ bridgeInfo, decodeBridgeInfo compactJson [] ≠ .ok bridgeInfo) ∧
      (newBridgeListHolder.loadBridgeInfo (decodeBridgeInfo compactJson)
        (str "\x7b\"displayName\":\"default\",\"webSocketAddress\":\"wss://snowflake.torproject.net/\",\"fingerprint\":\"2B280B23E1107BB62ABFC40DDCC8824814F80A72\"\x7d\n")).2 = none ∧
      ((newBridgeListHolder.loadBridgeInfo (decodeBridgeInfo compactJson)
        (str "\x7b\"displayName\":\"default\",\"webSocketAddress\":\"wss://snowflake.torproject.net/\",\"fingerprint\":\"2B280B23E1107BB62ABFC40DDCC8824814F80A72\"\x7d\n")).1.getBridgeInfo
          [0x2b, 0x28, 0x0b, 0x23, 0xe1, 0x10, 0x7b, 0xb6, 0x2a, 0xbf, 0xc4, 0x0d, 0xdc, 0xc8, 0x82,
            0x48, 0x14, 0xf8, 0x0a, 0x72] : Except (BridgeError LineDecodeError) BridgeInfo) =
        .ok ⟨str "default", str "wss://snowflake.torproject.net/",
          str "2B280B23E1107BB62ABFC40DDCC8824814F80A72"⟩ := by
  let o : Object := [(str "displayName", .string (str "default")),
    (str "webSocketAddress", .string (str "wss://snowflake.torproject.net/")),
    (str "fingerprint", .string (str "2B280B23E1107BB62ABFC40DDCC8824814F80A72"))]
  have hinput : str "\x7b\"displayName\":\"default\",\"webSocketAddress\":\"wss://snowflake.torproject.net/\",\"fingerprint\":\"2B280B23E1107BB62ABFC40DDCC8824814F80A72\"\x7d\n" =
      compactJson.marshal o ++ [10] := by
    simp only [o, str_eq]
    decide
  have hraw : rawLines (compactJson.marshal o ++ [10]) = [compactJson.marshal o] := by
    simp only [o, str_eq]
    decide
  have hvo : o.ValidUTF8 := by
    simp only [o, Object.validUTF8_cons, Value.ValidUTF8]
    exact ⟨validUTF8_str _, validUTF8_str _, validUTF8_str _, validUTF8_str _, validUTF8_str _,
      validUTF8_str _, Object.validUTF8_nil⟩
  have hdec : decodeBridgeInfo compactJson (compactJson.marshal o) =
      .ok ⟨str "default", str "wss://snowflake.torproject.net/",
        str "2B280B23E1107BB62ABFC40DDCC8824814F80A72"⟩ := by
    rw [decodeBridgeInfo, if_neg (compactJson_marshal_ne_nil o), compactJson_lawful.unmarshal_marshal o hvo]
    delta bridgeInfoMemberError
    simp only [o, str_eq]
    decide
  have hdrop : dropCR (compactJson.marshal o) = compactJson.marshal o := by
    simp only [o, str_eq]
    decide
  have hfp : fingerprintFromHexString (str "2B280B23E1107BB62ABFC40DDCC8824814F80A72") =
      .ok [0x2b, 0x28, 0x0b, 0x23, 0xe1, 0x10, 0x7b, 0xb6, 0x2a, 0xbf, 0xc4, 0x0d, 0xdc, 0xc8, 0x82,
        0x48, 0x14, 0xf8, 0x0a, 0x72] := by
    simp only [str_eq]
    decide
  have hloads : ∀ line ∈ rawLines (compactJson.marshal o ++ [10]),
      LineLoads (decodeBridgeInfo compactJson) line := by
    rw [hraw]
    intro line hl
    rw [List.mem_singleton] at hl
    subst hl
    refine ⟨by simp only [o, str_eq]; decide, _, _, by rw [hdrop, hdec], hfp⟩
  have ht := loadBridgeInfo_all_or_nothing (decodeBridgeInfo compactJson)
    (decodeBridgeInfo_nil compactJson) newBridgeListHolder (compactJson.marshal o ++ [10])
  have hnone := ht.1.mpr hloads
  rw [hinput]
  refine ⟨decodeBridgeInfo_nil compactJson, hnone, ?_⟩
  -- the one line is the answer for its own fingerprint
  have hinfos : bridgeInfos (decodeBridgeInfo compactJson) [compactJson.marshal o] =
      [⟨str "default", str "wss://snowflake.torproject.net/",
        str "2B280B23E1107BB62ABFC40DDCC8824814F80A72"⟩] := by
    rw [bridgeInfos, List.filterMap_cons_some (by rw [hdrop, hdec]; rfl), List.filterMap_nil]
  have hlast := decodeString_of_fingerprintFromHexString hfp
  rw [ht.2.1 hnone, hraw, hinfos, lastWithFingerprint]
  simp only [List.filter_singleton, hlast, decide_true, cond_true, List.getLast?_singleton]
end Snowflake.Broker
