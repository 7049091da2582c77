import Mathlib
import Snowflake.Lib.Json
import Snowflake.Lib.Hex
import Snowflake.Messages.Proxy
/-
The client side of the broker protocol, `common/messages/client.go`: the poll request a
client sends (a version line, then a JSON body) and the poll response it gets back, with
what the decoder checks on the way: the SDP offer through
`util.DeserializeSessionDescription`, the bridge fingerprint through
`bridgefingerprint.FingerprintFromHexString`, and the NAT type.

A request that the encoder wrote from valid UTF-8 fields reads back, its checks decided by
the offer and the NAT type alone (`decodeClientPollRequest_encode`); a response reads back
unless both its fields are empty (`decodeClientPollResponse_encode`).

`util.DeserializeSessionDescription` unmarshals into a `map[string]interface{}`; here that is
`Codec.unmarshal`, which refuses any text that is not an object. Go's `Unmarshal` leaves the
map `nil` for the text `null` and the function then fails on the missing `type` member: both
refuse, with other texts.
-/

set_option autoImplicit false

namespace Snowflake.Messages

open GoJson

/-! ## Constants -/

/-- `ClientVersion`. -/
def ClientVersion : List UInt8 := str "1.0"

/-- `defaultBridgeFingerprint`, assumed for a request without one. -/
def defaultBridgeFingerprint : List UInt8 := str "2B280B23E1107BB62ABFC40DDCC8824814F80A72"

/-- `StrTimedOut` and `StrNoProxies` of `common/messages/ipc.go`. -/
def StrTimedOut : List UInt8 := str "timed out waiting for answer!"
def StrNoProxies : List UInt8 := str "no snowflake proxies currently available"

/-- `err.Error()`, with the texts of `encoding/json`'s errors given. -/
def Error.message (jsonText : DecodeError → List UInt8) : Error → List UInt8
  | .json e => jsonText e
  | .text msg => msg

/-! ## `bridgefingerprint` -/

/-- The errors of `FingerprintFromHexString`: `encoding/hex`'s, or
`ErrBridgeFingerprintInvalid`. -/
inductive FingerprintError where
  | hex (e : GoHex.Error)
  | invalid
  deriving DecidableEq, Repr

/-- The text of `ErrBridgeFingerprintInvalid`. -/
def ErrBridgeFingerprintInvalid : List UInt8 := str "bridge fingerprint invalid"

def FingerprintError.message (hexText : GoHex.Error → List UInt8) : FingerprintError → List UInt8
  | .hex e => hexText e
  | .invalid => ErrBridgeFingerprintInvalid

/-- `FingerprintFromBytes`: 20 or 32 bytes. -/
def fingerprintFromBytes (bytes : List UInt8) : Except FingerprintError (List UInt8) :=
  if bytes.length ≠ 20 ∧ bytes.length ≠ 32 then .error .invalid else .ok bytes

/-- `FingerprintFromHexString`. -/
def fingerprintFromHexString (hexString : List UInt8) : Except FingerprintError (List UInt8) :=
  match GoHex.decodeString hexString with
  | .error e => .error (.hex e)
  | .ok decoded => fingerprintFromBytes decoded

/-! ## `util.DeserializeSessionDescription` -/

/-- `webrtc.SDPType`. -/
inductive SDPType where
  | offer
  | pranswer
  | answer
  | rollback
  deriving DecidableEq, Repr

/-- `webrtc.SessionDescription`. -/
structure SessionDescription where
  type : SDPType
  sdp : List UInt8
  deriving DecidableEq, Repr

/-- The `switch parsedType` of `DeserializeSessionDescription`. -/
def parseSDPType (t : List UInt8) : Except Error SDPType :=
  if t = str "offer" then .ok .offer
  else if t = str "pranswer" then .ok .pranswer
  else if t = str "answer" then .ok .answer
  else if t = str "rollback" then .ok .rollback
  else .error (.text (str "unknown SDP type"))

/-- `util.DeserializeSessionDescription`: both members must be there before either is
looked at. -/
def deserializeSessionDescription (J : Codec) (msg : List UInt8) :
    Except Error SessionDescription := do
  let parsed ← unmarshalObject J msg
  let some ty := parsed.get? (str "type")
    | throw (.text (str "cannot deserialize SessionDescription without type field"))
  let some sd := parsed.get? (str "sdp")
    | throw (.text (str "cannot deserialize SessionDescription without sdp field"))
  let .string parsedType := ty | throw (.text (str "invalid SDP type"))
  let .string parsedSDP := sd | throw (.text (str "invalid SDP"))
  let stype ← parseSDPType parsedType
  return ⟨stype, parsedSDP⟩

/-! ## `ClientPollRequest` -/

/-- `ClientPollRequest`. -/
structure ClientPollRequest where
  offer : List UInt8
  nat : List UInt8
  fingerprint : List UInt8
  deriving DecidableEq, Repr

/-- `json.Marshal` of a `ClientPollRequest`, under its JSON tags. -/
def ClientPollRequest.toJson (req : ClientPollRequest) : Object :=
  [(str "offer", .string req.offer), (str "nat", .string req.nat),
    (str "fingerprint", .string req.fingerprint)]

/-- `if req.Fingerprint == "" { req.Fingerprint = defaultBridgeFingerprint }`, which both the
encoder and the decoder do. -/
def withDefaultFingerprint (fingerprint : List UInt8) : List UInt8 :=
  if fingerprint = [] then defaultBridgeFingerprint else fingerprint

/-- `(*ClientPollRequest).EncodeClientPollRequest`: the version line, then the JSON body. -/
def ClientPollRequest.encodeClientPollRequest (J : Codec) (req : ClientPollRequest) :
    List UInt8 :=
  ClientVersion ++ str "\n" ++
    J.marshal { req with fingerprint := withDefaultFingerprint req.fingerprint }.toJson

/-- `bytes.SplitN(data, sep, 2)` for a one-byte separator. -/
def splitN (data : List UInt8) (sep : UInt8) : List (List UInt8) :=
  if sep ∈ data then [data.takeWhile (· ≠ sep), (data.dropWhile (· ≠ sep)).drop 1]
  else [data]

/-- `json.Unmarshal(data, &message)` for a `ClientPollRequest`. -/
def decodeClientPollRequestFields (o : Object) : Except Error ClientPollRequest := do
  let offer ← liftField (o.stringField (str "offer"))
  let nat ← liftField (o.stringField (str "nat"))
  let fingerprint ← liftField (o.stringField (str "fingerprint"))
  return ⟨offer, nat, fingerprint⟩

/-- `DecodeClientPollRequest`. -/
def decodeClientPollRequest (jsonText : DecodeError → List UInt8) (J : Codec)
    (data : List UInt8) : Except Error ClientPollRequest :=
  match splitN data 0x0a with
  | [version, body] => do
    if version ≠ ClientVersion then throw (.text (str "unsupported message version"))
    let message ← decodeClientPollRequestFields (← unmarshalObject J body)
    if message.offer = [] then throw (.text (str "no supplied offer"))
    if let .error e := deserializeSessionDescription J message.offer then
      throw (.text (str "malformed session description: " ++ e.message jsonText))
    let message := { message with fingerprint := withDefaultFingerprint message.fingerprint }
    if let .error _ := fingerprintFromHexString message.fingerprint then
      throw (.text (str "cannot decode fingerprint"))
    let nat ← normalizeNAT message.nat
    return { message with nat := nat }
  -- no newline: no version line
  | _ => throw (.text (str "unsupported message version"))

/-! ## `ClientPollResponse` -/

/-- `ClientPollResponse`. -/
structure ClientPollResponse where
  answer : List UInt8
  error : List UInt8
  deriving DecidableEq, Repr

/-- `json.Marshal` of a `ClientPollResponse`: both fields are `omitempty`. -/
def ClientPollResponse.toJson (resp : ClientPollResponse) : Object :=
  (if resp.answer = [] then [] else [(str "answer", .string resp.answer)]) ++
    (if resp.error = [] then [] else [(str "error", .string resp.error)])

/-- `(*ClientPollResponse).EncodePollResponse`. -/
def ClientPollResponse.encodePollResponse (J : Codec) (resp : ClientPollResponse) : List UInt8 :=
  J.marshal resp.toJson

/-- `DecodeClientPollResponse`. -/
def decodeClientPollResponse (J : Codec) (data : List UInt8) : Except Error ClientPollResponse := do
  let o ← unmarshalObject J data
  let answer ← liftField (o.stringField (str "answer"))
  let error ← liftField (o.stringField (str "error"))
  if error = [] ∧ answer = [] then throw (.text (str "received empty broker response"))
  return ⟨answer, error⟩

/-! ## Reading back what was written -/

theorem splitN_append (a b : List UInt8) (sep : UInt8) (ha : sep ∉ a) :
    splitN (a ++ sep :: b) sep = [a, b] := by
  have hne : ∀ x ∈ a, decide (x ≠ sep) = true := by
    intro x hx
    rw [decide_eq_true_iff]
    rintro rfl
    exact ha hx
  rw [splitN, if_pos (by simp), List.takeWhile_append_of_pos hne, List.dropWhile_append_of_pos hne]
  simp

theorem str_newline : str "\n" = [0x0a] := by
  rw [str_eq]
  decide

theorem newline_not_mem_clientVersion : (0x0a : UInt8) ∉ ClientVersion := by
  rw [ClientVersion, str_eq]
  decide

theorem ClientPollRequest.keys_nodup (req : ClientPollRequest) :
    (req.toJson.map Prod.fst).Nodup := by
  show (["offer", "nat", "fingerprint"].map str).Nodup
  exact nodup_map_str (by decide)

theorem ClientPollRequest.toJson_validUTF8 {req : ClientPollRequest} (hvo : ValidUTF8 req.offer)
    (hvn : ValidUTF8 req.nat) (hvf : ValidUTF8 req.fingerprint) : req.toJson.ValidUTF8 := by
  simp only [ClientPollRequest.toJson, Object.validUTF8_cons, Value.ValidUTF8]
  exact ⟨validUTF8_str _, hvo, validUTF8_str _, hvn, validUTF8_str _, hvf, Object.validUTF8_nil⟩

theorem decodeClientPollRequestFields_toJson (req : ClientPollRequest) :
    decodeClientPollRequestFields req.toJson = .ok req := by
  have hd := req.keys_nodup
  have h1 := stringField_of_mem req.toJson hd (str "offer") req.offer
    (by simp [ClientPollRequest.toJson])
  have h2 := stringField_of_mem req.toJson hd (str "nat") req.nat
    (by simp [ClientPollRequest.toJson])
  have h3 := stringField_of_mem req.toJson hd (str "fingerprint") req.fingerprint
    (by simp [ClientPollRequest.toJson])
  simp only [decodeClientPollRequestFields, h1, h2, h3, liftField_ok, except_bind_ok]
  rfl

theorem validUTF8_withDefaultFingerprint {fp : List UInt8} (h : ValidUTF8 fp) :
    ValidUTF8 (withDefaultFingerprint fp) := by
  unfold withDefaultFingerprint
  split_ifs
  · exact validUTF8_str _
  · exact h

theorem defaultBridgeFingerprint_ne_nil : defaultBridgeFingerprint ≠ [] := by
  rw [defaultBridgeFingerprint, Ne, str_eq_nil]
  decide

theorem withDefaultFingerprint_idem (fp : List UInt8) :
    withDefaultFingerprint (withDefaultFingerprint fp) = withDefaultFingerprint fp := by
  by_cases h : fp = []
  · simp only [withDefaultFingerprint, h, ↓reduceIte, defaultBridgeFingerprint_ne_nil]
  · simp only [withDefaultFingerprint, h, ↓reduceIte]

theorem decodeString_defaultBridgeFingerprint :
    GoHex.decodeString defaultBridgeFingerprint = .ok [0x2b, 0x28, 0x0b, 0x23, 0xe1, 0x10, 0x7b,
      0xb6, 0x2a, 0xbf, 0xc4, 0x0d, 0xdc, 0xc8, 0x82, 0x48, 0x14, 0xf8, 0x0a, 0x72] := by
  rw [defaultBridgeFingerprint, str_eq]
  rfl

theorem decodeClientPollRequest_encode (jsonText : DecodeError → List UInt8) (J : Codec)
    (hJ : J.Lawful) (req : ClientPollRequest) (hvo : ValidUTF8 req.offer)
    (hvn : ValidUTF8 req.nat) (hvf : ValidUTF8 req.fingerprint) (hoffer : req.offer ≠ [])
    (hfp : ∃ fp, fingerprintFromHexString (withDefaultFingerprint req.fingerprint) = .ok fp) :
    decodeClientPollRequest jsonText J (req.encodeClientPollRequest J) =
      match deserializeSessionDescription J req.offer with
      | .error e => .error (.text (str "malformed session description: " ++ e.message jsonText))
      | .ok _ => (normalizeNAT req.nat).map fun nat =>
          { req with fingerprint := withDefaultFingerprint req.fingerprint, nat := nat } := by
  have hv : ({ req with fingerprint := withDefaultFingerprint req.fingerprint } :
      ClientPollRequest).toJson.ValidUTF8 :=
    ClientPollRequest.toJson_validUTF8 hvo hvn (validUTF8_withDefaultFingerprint hvf)
  rw [decodeClientPollRequest, ClientPollRequest.encodeClientPollRequest, str_newline,
    List.append_assoc, List.singleton_append,
    splitN_append _ _ _ newline_not_mem_clientVersion]
  obtain ⟨fp, hfp⟩ := hfp
  dsimp only
  simp only [ne_eq, not_true_eq_false, ↓reduceIte, unmarshalObject_marshal J hJ hv,
    except_bind_ok, decodeClientPollRequestFields_toJson, hoffer, withDefaultFingerprint_idem, hfp]
  -- the two checks that the encoder does not make: the SDP offer, then the NAT type
  rcases deserializeSessionDescription J req.offer with e | sd
  · rfl
  · rcases normalizeNAT req.nat with e | nat
    · rfl
    · rfl

/-! ### The SDP offer -/

/-- An offer that is a JSON object without a `type` member is refused, whatever else it
holds. -/
theorem deserializeSessionDescription_without_type (J : Codec) (hJ : J.Lawful) {o : Object}
    (ho : o.ValidUTF8) (hty : o.get? (str "type") = none) :
    deserializeSessionDescription J (J.marshal o) =
      .error (.text (str "cannot deserialize SessionDescription without type field")) := by
  rw [deserializeSessionDescription, unmarshalObject_marshal J hJ ho, except_bind_ok]
  simp only [hty]
  rfl

/-- Every error of `DeserializeSessionDescription` has a valid UTF-8 text: its own texts are
literals, and the others are `encoding/json`'s. -/
theorem deserializeSessionDescription_error_valid (jsonText : DecodeError → List UInt8)
    (hj : ∀ d, ValidUTF8 (jsonText d)) (J : Codec) {msg : List UInt8} {e : Error}
    (h : deserializeSessionDescription J msg = .error e) : ValidUTF8 (e.message jsonText) := by
  unfold deserializeSessionDescription at h
  rcases hu : unmarshalObject J msg with e' | parsed
  · rw [hu, except_bind_error] at h
    cases h
    unfold unmarshalObject at hu
    split at hu
    · cases hu
    · cases hu
      exact hj _
  · rw [hu, except_bind_ok] at h
    -- one literal per missing or mistyped member, then the type's own
    split at h
    · split at h
      · split at h
        · split at h
          · rcases hp : parseSDPType _ with e' | st
            · rw [hp, except_bind_error] at h
              cases h
              unfold parseSDPType at hp
              split_ifs at hp
              cases hp
              exact validUTF8_str _
            · rw [hp, except_bind_ok] at h
              cases h
          · cases h
            exact validUTF8_str _
        · cases h
          exact validUTF8_str _
      · cases h
        exact validUTF8_str _
    · cases h
      exact validUTF8_str _

/-! ### The poll response -/

theorem str_error_ne_answer : str "error" ≠ str "answer" := str_injective.ne (by decide)

/-- An omitted member reads as `""`, a written one as itself. -/
theorem ClientPollResponse.stringField_answer (resp : ClientPollResponse) :
    resp.toJson.stringField (str "answer") = .ok resp.answer := by
  by_cases ha : resp.answer = [] <;> by_cases he : resp.error = [] <;>
    simp [ClientPollResponse.toJson, Object.stringField, Object.get?, ha, he, str_error_ne_answer]

theorem ClientPollResponse.stringField_error (resp : ClientPollResponse) :
    resp.toJson.stringField (str "error") = .ok resp.error := by
  by_cases ha : resp.answer = [] <;> by_cases he : resp.error = [] <;>
    simp [ClientPollResponse.toJson, Object.stringField, Object.get?, ha, he, str_error_ne_answer.symm]

theorem ClientPollResponse.toJson_validUTF8 {resp : ClientPollResponse}
    (hva : ValidUTF8 resp.answer) (hve : ValidUTF8 resp.error) : resp.toJson.ValidUTF8 := by
  intro m hm
  simp only [ClientPollResponse.toJson, List.mem_append] at hm
  rcases hm with hm | hm
  · split_ifs at hm
    · cases hm
    · rw [List.mem_singleton] at hm
      rw [hm]
      exact ⟨validUTF8_str _, hva⟩
  · split_ifs at hm
    · cases hm
    · rw [List.mem_singleton] at hm
      rw [hm]
      exact ⟨validUTF8_str _, hve⟩

/-- The response reads back, unless both fields are empty. -/
theorem decodeClientPollResponse_encode (J : Codec) (hJ : J.Lawful) (resp : ClientPollResponse)
    (hva : ValidUTF8 resp.answer) (hve : ValidUTF8 resp.error) :
    decodeClientPollResponse J (resp.encodePollResponse J) =
      if resp.error = [] ∧ resp.answer = [] then .error (.text (str "received empty broker response"))
      else .ok resp := by
  rw [decodeClientPollResponse, ClientPollResponse.encodePollResponse,
    unmarshalObject_marshal J hJ (ClientPollResponse.toJson_validUTF8 hva hve), except_bind_ok,
    resp.stringField_answer, resp.stringField_error, liftField_ok, except_bind_ok, liftField_ok,
    except_bind_ok]
  split_ifs
  · rfl
  · rfl

/-! ### Agreement on every request the decoder is meant to accept -/

/-- An offer that `DeserializeSessionDescription` accepts is not empty, since `Unmarshal`
refuses the empty text. -/
theorem offer_ne_nil_of_deserialize (J : Codec) (hJ0 : J.unmarshal [] = none) {offer : List UInt8}
    {sd : SessionDescription} (h : deserializeSessionDescription J offer = .ok sd) : offer ≠ [] := by
  rintro rfl
  simp [deserializeSessionDescription, unmarshalObject, hJ0] at h

/-- A fingerprint that is empty or decodes to 20 or 32 bytes passes `FingerprintFromHexString`
once the default is put in. -/
theorem fingerprintFromHexString_withDefault {fp : List UInt8}
    (h : fp = [] ∨ ∃ b, GoHex.decodeString fp = .ok b ∧ (b.length = 20 ∨ b.length = 32)) :
    ∃ b, fingerprintFromHexString (withDefaultFingerprint fp) = .ok b := by
  rcases h with rfl | ⟨b, hb, hlen⟩
  · rw [withDefaultFingerprint, if_pos rfl, fingerprintFromHexString,
      decodeString_defaultBridgeFingerprint]
    exact ⟨_, rfl⟩
  · have hne : fp ≠ [] := by
      rintro rfl
      simp [GoHex.decodeString] at hb
      subst hb
      simp at hlen
    refine ⟨b, ?_⟩
    rw [withDefaultFingerprint, if_neg hne, fingerprintFromHexString, hb]
    simp only [fingerprintFromBytes]
    rw [if_neg (by omega)]

/-- A hex fingerprint is ASCII, so valid UTF-8. -/
theorem validUTF8_fingerprint {fp : List UInt8}
    (h : fp = [] ∨ ∃ b, GoHex.decodeString fp = .ok b ∧ (b.length = 20 ∨ b.length = 32)) :
    ValidUTF8 fp := by
  rcases h with rfl | ⟨b, hb, -⟩
  · exact validUTF8_nil
  · exact validUTF8_of_ascii ((GoHex.decodeString_ok_iff fp).mp ⟨b, hb⟩).2.ascii

/-- **Client poll codec agreement.** A request whose offer `DeserializeSessionDescription`
accepts, whose NAT type is one of the four, and whose fingerprint is empty or decodes to 20 or
32 bytes reads back with its offer, its NAT type with `""` as `unknown`, and its fingerprint
with `""` as the default bridge's; a response with an answer or an error reads back as it
was. -/
theorem clientPoll_codec_agreement (jsonText : DecodeError → List UInt8) (J : Codec)
    (hJ : J.Lawful) (hJ0 : J.unmarshal [] = none) :
    (∀ req : ClientPollRequest, ValidUTF8 req.offer →
      (∃ sd, deserializeSessionDescription J req.offer = .ok sd) →
      (req.nat = [] ∨ req.nat = NATUnknown ∨ req.nat = NATRestricted ∨ req.nat = NATUnrestricted) →
      (req.fingerprint = [] ∨
        ∃ b, GoHex.decodeString req.fingerprint = .ok b ∧ (b.length = 20 ∨ b.length = 32)) →
      decodeClientPollRequest jsonText J (req.encodeClientPollRequest J) =
        .ok ⟨req.offer, if req.nat = [] then NATUnknown else req.nat,
          withDefaultFingerprint req.fingerprint⟩) ∧
    (∀ resp : ClientPollResponse, ValidUTF8 resp.answer → ValidUTF8 resp.error →
      (resp.answer ≠ [] ∨ resp.error ≠ []) →
      decodeClientPollResponse J (resp.encodePollResponse J) = .ok resp) := by
  constructor
  · intro req hvo ⟨sd, hsd⟩ hnat hfp
    have hdec := decodeClientPollRequest_encode jsonText J hJ req hvo (validUTF8_of_known_nat hnat)
      (validUTF8_fingerprint hfp) (offer_ne_nil_of_deserialize J hJ0 hsd)
      (fingerprintFromHexString_withDefault hfp)
    rw [hdec, hsd]
    simp only [normalizeNAT_known hnat, except_map_ok]
  · intro resp hva hve hne
    rw [decodeClientPollResponse_encode J hJ resp hva hve, if_neg]
    rintro ⟨he, ha⟩
    exact hne.elim (· ha) (· he)

/-- A response whose answer is the byte `0xff`, which is not UTF-8. `json.Marshal` writes it as
U+FFFD, so under a codec that meets every law the messages assume the response reads back with
the answer `EF BF BD`, not as it was. -/
theorem clientPollResponse_invalid_answer :
    coercingJson.Lawful ∧ coercingJson.unmarshal [] = none ∧
      decodeClientPollResponse coercingJson
          (ClientPollResponse.encodePollResponse coercingJson ⟨[0xff], []⟩) =
        .ok ⟨[0xef, 0xbf, 0xbd], []⟩ := by
  have hvalid : ValidUTF8 [0xef, 0xbf, 0xbd] := by decide +kernel
  -- the answer is written as the replacement character's bytes, as a valid answer would be
  have hwrite : ClientPollResponse.encodePollResponse coercingJson ⟨[0xff], []⟩ =
      ClientPollResponse.encodePollResponse coercingJson ⟨[0xef, 0xbf, 0xbd], []⟩ := by
    have hcoerce : coerceUTF8 [0xff] = [0xef, 0xbf, 0xbd] := by decide +kernel
    simp only [ClientPollResponse.encodePollResponse, ClientPollResponse.toJson, coercingJson,
      Object.coerceUTF8, reduceCtorEq, if_false, if_true, List.append_nil, List.map_cons,
      List.map_nil, Value.coerceUTF8, hcoerce, coerceUTF8_of_valid hvalid]
  refine ⟨coercingJson_lawful, rfl, ?_⟩
  rw [hwrite, decodeClientPollResponse_encode coercingJson coercingJson_lawful _ hvalid validUTF8_nil,
    if_neg (by simp)]

/-- The empty text is no JSON object to the compact codec. -/
theorem compactJson_unmarshal_nil : compactJson.unmarshal [] = none := rfl

theorem clientPoll_codec_agreement_offer :
    decodeClientPollRequest (fun _ => []) compactJson
        (ClientPollRequest.encodeClientPollRequest compactJson
          ⟨str "\x7b\"type\":\"offer\",\"sdp\":\"v=0\"\x7d", [], []⟩) =
      .ok ⟨str "\x7b\"type\":\"offer\",\"sdp\":\"v=0\"\x7d", NATUnknown,
        defaultBridgeFingerprint⟩ := by
  let o : Object := [(str "type", .string (str "offer")), (str "sdp", .string (str "v=0"))]
  have hbody : str "\x7b\"type\":\"offer\",\"sdp\":\"v=0\"\x7d" = compactJson.marshal o := by
    simp only [o, str_eq]
    decide
  have hvo : o.ValidUTF8 := by
    simp only [o, Object.validUTF8_cons, Value.ValidUTF8]
    exact ⟨validUTF8_str _, validUTF8_str _, validUTF8_str _, validUTF8_str _, Object.validUTF8_nil⟩
  have hsd : deserializeSessionDescription compactJson
      (str "\x7b\"type\":\"offer\",\"sdp\":\"v=0\"\x7d") = .ok ⟨.offer, str "v=0"⟩ := by
    rw [hbody, deserializeSessionDescription, unmarshalObject_marshal compactJson compactJson_lawful hvo]
    simp only [o, except_bind_ok]
    simp [Object.get?, str_eq, parseSDPType]
    decide
  exact (clientPoll_codec_agreement (fun _ => []) compactJson compactJson_lawful
    compactJson_unmarshal_nil).1 _ (validUTF8_str _) ⟨_, hsd⟩ (.inl rfl) (.inl rfl)

end Snowflake.Messages
