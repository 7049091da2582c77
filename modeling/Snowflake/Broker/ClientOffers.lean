import Mathlib
import Snowflake.Messages.Client
/-
The broker's handling of a client offer: `IPC.ClientOffers` (`broker/ipc.go`) and the HTTP
handler `clientOffers` (`broker/http.go`) in front of it.

`IPC.ClientOffers` decodes the poll request, reads the bridge fingerprint and looks it up in
the bridge list, then hands the offer to a proxy. What happens to an offer once it is handed
over (no proxy to match, an answer, or the client's deadline) is a parameter, `matching`:
the interleavings that decide it are the broker's concurrency model. Every outcome is sent
back as a `ClientPollResponse`, a refused request with the error's text in `Error`.

The handler shims a legacy request (a body that starts with `{`) into a poll request with
the `Snowflake-NAT-Type` header as the NAT type, and turns the response back into a status:
the answer, `503` for no proxies, `504` for a timeout. Every other error text reaches the
`default` branch of its `switch`, which panics. On the legacy path the request is refused
exactly when the offer is not an SDP description, the header is not a NAT type, or the
default bridge is not in the list (`IPC.clientOffer_legacy`), and then the handler panics
(`clientOffers_legacy`); an empty JSON object as the body is one such request
(`clientOffers_legacy_empty_object`).

The texts of `encoding/json`'s and `encoding/hex`'s errors are parameters too. The request's
remote address, rendezvous method and metrics are not modelled: no outcome depends on them.
-/

set_option autoImplicit false

namespace Snowflake.Broker

open GoJson Snowflake.Messages

/-- `err.Error()` for the errors of the standard library that reach a response. -/
structure ErrorTexts where
  json : DecodeError → List UInt8
  hex : GoHex.Error → List UInt8

/-- The text of `ErrBridgeNotFound`. -/
def ErrBridgeNotFound : List UInt8 := str "bridge with requested fingerprint is unknown to the broker"

/-- `ClientOffer`. -/
structure ClientOffer where
  natType : List UInt8
  sdp : List UInt8
  fingerprint : List UInt8
  deriving DecidableEq, Repr

/-- What became of an offer handed to the matching: `matchSnowflake` found no proxy, the
matched proxy's answer arrived, or the client's context was done first. -/
inductive MatchResult where
  | noSnowflake
  | answer (a : List UInt8)
  | timedOut
  deriving DecidableEq, Repr

/-- The checks of `IPC.ClientOffers` before it matches: the request, the fingerprint read as
hex and as a fingerprint, and `GetBridgeInfo` on the bridge list. An error is its text. -/
def IPC.clientOffer (texts : ErrorTexts) (J : Codec) (knownBridge : List UInt8 → Bool)
    (body : List UInt8) : Except (List UInt8) ClientOffer :=
  match decodeClientPollRequest texts.json J body with
  | .error e => .error (e.message texts.json)
  | .ok req =>
    match GoHex.decodeString req.fingerprint with
    | .error e => .error (texts.hex e)
    | .ok fingerprint =>
      match fingerprintFromBytes fingerprint with
      | .error e => .error (e.message texts.hex)
      | .ok bridgeFingerprint =>
        if knownBridge bridgeFingerprint then .ok ⟨req.nat, req.offer, bridgeFingerprint⟩
        else .error ErrBridgeNotFound

/-- `IPC.ClientOffers`: the response it encodes. Its returned error is always `nil`, since
`json.Marshal` of a `ClientPollResponse` cannot fail. -/
def IPC.clientOffers (texts : ErrorTexts) (J : Codec) (knownBridge : List UInt8 → Bool)
    (matching : ClientOffer → MatchResult) (body : List UInt8) : ClientPollResponse :=
  match IPC.clientOffer texts J knownBridge body with
  | .error msg => ⟨[], msg⟩
  | .ok offer =>
    match matching offer with
    | .noSnowflake => ⟨[], StrNoProxies⟩
    | .answer a => ⟨a, []⟩
    | .timedOut => ⟨[], StrTimedOut⟩

/-- `readLimit`, the most bytes read from a request body. -/
def readLimit : Nat := 100000

/-- What a handler does with the `http.ResponseWriter`: a status code alone, a body written
with status `200`, or a panic. -/
inductive HttpResult where
  | status (code : Nat)
  | write (body : List UInt8)
  | panic (msg : List UInt8)
  deriving DecidableEq, Repr

/-- The legacy half of `clientOffers`: the response decoded and its `Error` switched on. -/
def legacyResponse (J : Codec) (response : List UInt8) : HttpResult :=
  match decodeClientPollResponse J response with
  | .error _ => .status 500
  | .ok resp =>
    if resp.error = [] then .write resp.answer
    else if resp.error = StrNoProxies then .status 503
    else if resp.error = StrTimedOut then .status 504
    else .panic (str "unknown error")

/-- The handler `clientOffers`, given the request body and its `Snowflake-NAT-Type` header. -/
def clientOffers (texts : ErrorTexts) (J : Codec) (knownBridge : List UInt8 → Bool)
    (matching : ClientOffer → MatchResult) (body natHeader : List UInt8) : HttpResult :=
  -- `io.ReadAll` of the `http.MaxBytesReader` fails past the limit
  if body.length > readLimit then .status 400
  else
    let isLegacy := body.head? == some 0x7b
    let body := if isLegacy then ClientPollRequest.encodeClientPollRequest J ⟨body, natHeader, []⟩
      else body
    let response := (IPC.clientOffers texts J knownBridge matching body).encodePollResponse J
    if isLegacy then legacyResponse J response else .write response

/-! ## The texts on the legacy path -/

theorem normalizeNAT_eq_error {n : List UInt8} {e : Error} (h : normalizeNAT n = .error e) :
    e = .text (str "invalid NAT type") := by
  unfold normalizeNAT at h
  split_ifs at h
  cases h
  rfl

theorem malformed_head (x : List UInt8) :
    (str "malformed session description: " ++ x).head? = some 0x6d := by
  rw [str_eq]
  rfl

theorem strNoProxies_head : StrNoProxies.head? = some 0x6e := by
  rw [StrNoProxies, str_eq]
  rfl

theorem strTimedOut_head : StrTimedOut.head? = some 0x74 := by
  rw [StrTimedOut, str_eq]
  rfl

theorem strNoProxies_ne_nil : StrNoProxies ≠ [] := by
  rw [StrNoProxies, Ne, str_eq_nil]
  decide

theorem strTimedOut_ne_nil : StrTimedOut ≠ [] := by
  rw [StrTimedOut, Ne, str_eq_nil]
  decide

/-- A text the legacy `switch` has no case for: not empty, and neither of its two errors. -/
structure Unlisted (msg : List UInt8) : Prop where
  valid : ValidUTF8 msg
  ne_nil : msg ≠ []
  ne_noProxies : msg ≠ StrNoProxies
  ne_timedOut : msg ≠ StrTimedOut

theorem unlisted_of_head {msg : List UInt8} {b : UInt8} (hv : ValidUTF8 msg)
    (hb : msg.head? = some b) (h1 : b ≠ 0x6e) (h2 : b ≠ 0x74) : Unlisted msg where
  valid := hv
  ne_nil := by
    rintro rfl
    cases hb
  ne_noProxies := by
    rintro rfl
    rw [strNoProxies_head] at hb
    exact h1 (Option.some.inj hb).symm
  ne_timedOut := by
    rintro rfl
    rw [strTimedOut_head] at hb
    exact h2 (Option.some.inj hb).symm

theorem unlisted_malformed {x : List UInt8} (hx : ValidUTF8 x) :
    Unlisted (str "malformed session description: " ++ x) :=
  unlisted_of_head (validUTF8_append (validUTF8_str _) hx) (malformed_head x) (by decide)
    (by decide)

theorem unlisted_invalidNAT : Unlisted (str "invalid NAT type") :=
  unlisted_of_head (validUTF8_str _) (by rw [str_eq]; rfl) (by decide) (by decide)

theorem unlisted_bridgeNotFound : Unlisted ErrBridgeNotFound :=
  unlisted_of_head (validUTF8_str _) (by rw [ErrBridgeNotFound, str_eq]; rfl) (by decide)
    (by decide)

/-! ## The legacy `switch` -/

/-- The legacy half on an encoded response: the `switch` sees the `Error` as written. -/
theorem legacyResponse_encode (J : Codec) (hJ : J.Lawful) (resp : ClientPollResponse)
    (hva : ValidUTF8 resp.answer) (hve : ValidUTF8 resp.error) :
    legacyResponse J (resp.encodePollResponse J) =
      if resp.error = [] ∧ resp.answer = [] then .status 500
      else if resp.error = [] then .write resp.answer
      else if resp.error = StrNoProxies then .status 503
      else if resp.error = StrTimedOut then .status 504
      else .panic (str "unknown error") := by
  rw [legacyResponse, decodeClientPollResponse_encode J hJ resp hva hve]
  by_cases h0 : resp.error = [] ∧ resp.answer = []
  · rw [if_pos h0, if_pos h0]
  · rw [if_neg h0, if_neg h0]

theorem legacyResponse_unlisted (J : Codec) (hJ : J.Lawful) {msg : List UInt8}
    (hm : Unlisted msg) :
    legacyResponse J ((⟨[], msg⟩ : ClientPollResponse).encodePollResponse J) =
      .panic (str "unknown error") := by
  rw [legacyResponse_encode J hJ _ validUTF8_nil hm.valid]
  simp only [hm.ne_nil, hm.ne_noProxies, hm.ne_timedOut, false_and, ↓reduceIte]

/-- The handler on a legacy body: the shimmed request through `IPC.ClientOffers`, then the
legacy half. -/
theorem clientOffers_legacy_eq (texts : ErrorTexts) (J : Codec) (knownBridge : List UInt8 → Bool)
    (matching : ClientOffer → MatchResult) {body : List UInt8} (natHeader : List UInt8)
    (hb : body.head? = some 0x7b) (hlen : body.length ≤ readLimit) :
    clientOffers texts J knownBridge matching body natHeader =
      legacyResponse J ((IPC.clientOffers texts J knownBridge matching
        (ClientPollRequest.encodeClientPollRequest J ⟨body, natHeader, []⟩)).encodePollResponse J) := by
  rw [clientOffers, if_neg (by omega)]
  simp only [hb, beq_self_eq_true, ↓reduceIte]

/-! ## The checks on the shimmed request -/

theorem defaultBridgeFingerprint_length : defaultBridgeFingerprint.length = 40 := by
  rw [defaultBridgeFingerprint, str_eq]
  rfl

/-- The shimmed request passes or fails the checks of `IPC.ClientOffers` on its offer, its NAT
type and the default bridge alone. -/
theorem IPC.clientOffer_legacy (texts : ErrorTexts) (J : Codec) (hJ : J.Lawful)
    (knownBridge : List UInt8 → Bool) {body natHeader fp : List UInt8} (hvb : ValidUTF8 body)
    (hvh : ValidUTF8 natHeader) (hb : body ≠ [])
    (hfp : GoHex.decodeString defaultBridgeFingerprint = .ok fp) :
    IPC.clientOffer texts J knownBridge
        (ClientPollRequest.encodeClientPollRequest J ⟨body, natHeader, []⟩) =
      match deserializeSessionDescription J body with
      | .error e => .error (str "malformed session description: " ++ e.message texts.json)
      | .ok _ =>
        match normalizeNAT natHeader with
        | .error _ => .error (str "invalid NAT type")
        | .ok nat => if knownBridge fp then .ok ⟨nat, body, fp⟩ else .error ErrBridgeNotFound := by
  -- the default fingerprint is 20 bytes of hex
  have hlen : fp.length = 20 := by
    have := GoHex.decodeString_length hfp
    rw [defaultBridgeFingerprint_length] at this
    omega
  have hbytes : fingerprintFromBytes fp = .ok fp := by
    rw [fingerprintFromBytes, if_neg (by omega)]
  have hhex : fingerprintFromHexString (withDefaultFingerprint []) = .ok fp := by
    rw [withDefaultFingerprint, if_pos rfl, fingerprintFromHexString, hfp]
    exact hbytes
  rw [IPC.clientOffer, decodeClientPollRequest_encode texts.json J hJ ⟨body, natHeader, []⟩ hvb hvh
    validUTF8_nil hb ⟨fp, hhex⟩]
  rcases deserializeSessionDescription J body with e | sd
  · rfl
  · rcases hn : normalizeNAT natHeader with e | nat
    · rw [normalizeNAT_eq_error hn]
      rfl
    · simp only [Except.map, withDefaultFingerprint, ↓reduceIte, hfp, hbytes]

/-! ## The legacy path, end to end -/

/-- A legacy request that the checks refuse makes the handler panic. -/
theorem clientOffers_legacy_of_refused (texts : ErrorTexts) (J : Codec) (hJ : J.Lawful)
    (knownBridge : List UInt8 → Bool) (matching : ClientOffer → MatchResult)
    {body natHeader msg : List UInt8} (hb : body.head? = some 0x7b) (hlen : body.length ≤ readLimit)
    (hr : IPC.clientOffer texts J knownBridge
      (ClientPollRequest.encodeClientPollRequest J ⟨body, natHeader, []⟩) = .error msg)
    (hm : Unlisted msg) :
    clientOffers texts J knownBridge matching body natHeader = .panic (str "unknown error") := by
  rw [clientOffers_legacy_eq texts J knownBridge matching natHeader hb hlen, IPC.clientOffers, hr]
  exact legacyResponse_unlisted J hJ hm

/-- The legacy `switch` on the response to a matched offer. -/
theorem legacyResponse_matched (J : Codec) (hJ : J.Lawful) (r : MatchResult) :
    (∀ a, r = .answer a → ValidUTF8 a) →
    legacyResponse J ((match r with
        | .noSnowflake => (⟨[], StrNoProxies⟩ : ClientPollResponse)
        | .answer a => ⟨a, []⟩
        | .timedOut => ⟨[], StrTimedOut⟩).encodePollResponse J) =
      match r with
      | .noSnowflake => .status 503
      | .timedOut => .status 504
      | .answer a => if a = [] then .status 500 else .write a := by
  intro hr
  rcases r with _ | a | _
  · rw [legacyResponse_encode J hJ _ validUTF8_nil (validUTF8_str _)]
    simp only [strNoProxies_ne_nil, false_and, ↓reduceIte]
  · rw [legacyResponse_encode J hJ _ (hr a rfl) validUTF8_nil]
    by_cases ha : a = []
    · simp only [ha, and_self, ↓reduceIte]
    · simp only [ha, and_false, ↓reduceIte]
  · rw [legacyResponse_encode J hJ _ validUTF8_nil (validUTF8_str _)]
    have h : StrTimedOut ≠ StrNoProxies := str_injective.ne (by decide)
    simp only [strTimedOut_ne_nil, h, false_and, ↓reduceIte]

/-- **The legacy path.** For a legacy body and header of valid UTF-8, the handler answers,
or reports no proxy (`503`), a timeout (`504`) or an empty answer (`500`), exactly when the
offer is an SDP description, the header a NAT type and the default bridge in the list; in
every other case it panics. -/
theorem clientOffers_legacy (texts : ErrorTexts) (J : Codec) (hJ : J.Lawful)
    (knownBridge : List UInt8 → Bool) (matching : ClientOffer → MatchResult)
    {body natHeader fp : List UInt8} (hvb : ValidUTF8 body) (hvh : ValidUTF8 natHeader)
    (hb : body.head? = some 0x7b) (hlen : body.length ≤ readLimit)
    (hfp : GoHex.decodeString defaultBridgeFingerprint = .ok fp)
    (htexts : ∀ d, ValidUTF8 (texts.json d))
    (hanswers : ∀ o a, matching o = .answer a → ValidUTF8 a) :
    clientOffers texts J knownBridge matching body natHeader =
      match deserializeSessionDescription J body, normalizeNAT natHeader with
      | .ok _, .ok nat =>
        if knownBridge fp then
          match matching ⟨nat, body, fp⟩ with
          | .noSnowflake => .status 503
          | .timedOut => .status 504
          | .answer a => if a = [] then .status 500 else .write a
        else .panic (str "unknown error")
      | _, _ => .panic (str "unknown error") := by
  have hne : body ≠ [] := by
    rintro rfl
    cases hb
  have hc := IPC.clientOffer_legacy texts J hJ knownBridge hvb hvh hne hfp
  -- the cases of `IPC.clientOffer_legacy`: a refused offer, a refused NAT type, the bridge
  rcases hd : deserializeSessionDescription J body with e | sd
  · rw [hd] at hc
    exact clientOffers_legacy_of_refused texts J hJ knownBridge matching hb hlen hc
      (unlisted_malformed (deserializeSessionDescription_error_valid texts.json htexts J hd))
  · rcases hn : normalizeNAT natHeader with e | nat
    · rw [hd, hn] at hc
      exact clientOffers_legacy_of_refused texts J hJ knownBridge matching hb hlen hc
        unlisted_invalidNAT
    · rw [hd, hn] at hc
      dsimp only at hc
      by_cases hk : knownBridge fp = true
      · rw [if_pos hk] at hc
        rw [clientOffers_legacy_eq texts J knownBridge matching natHeader hb hlen, IPC.clientOffers,
          hc]
        dsimp only
        rw [if_pos hk]
        exact legacyResponse_matched J hJ _ (hanswers _)
      · rw [if_neg hk] at hc
        dsimp only
        rw [if_neg hk]
        exact clientOffers_legacy_of_refused texts J hJ knownBridge matching hb hlen hc
          unlisted_bridgeNotFound

/-- A legacy SDP offer with a known NAT type and an answering proxy: the answer is written. -/
theorem clientOffers_legacy_sdp_offer :
    clientOffers ⟨fun _ => [], fun _ => []⟩ compactJson (fun _ => true)
        (fun _ => .answer (str "answer")) (str "\x7b\"type\":\"offer\",\"sdp\":\"v=0\"\x7d")
        NATRestricted = .write (str "answer") := by
  let o : Object := [(str "type", .string (str "offer")), (str "sdp", .string (str "v=0"))]
  have hbody : str "\x7b\"type\":\"offer\",\"sdp\":\"v=0\"\x7d" = compactJson.marshal o := by
    simp only [o, str_eq]
    decide
  have hvo : o.ValidUTF8 := by
    simp only [o, Object.validUTF8_cons, Value.ValidUTF8]
    exact ⟨validUTF8_str _, validUTF8_str _, validUTF8_str _, validUTF8_str _, Object.validUTF8_nil⟩
  have hnodup : (o.map Prod.fst).Nodup := by
    show (["type", "sdp"].map str).Nodup
    exact nodup_map_str (by decide)
  have hsd : deserializeSessionDescription compactJson (compactJson.marshal o) =
      .ok ⟨.offer, str "v=0"⟩ := by
    rw [deserializeSessionDescription, unmarshalObject_marshal compactJson compactJson_lawful hvo,
      except_bind_ok, @Object.get?_of_mem o hnodup (str "type") (.string (str "offer")) (by simp [o]),
      @Object.get?_of_mem o hnodup (str "sdp") (.string (str "v=0")) (by simp [o])]
    dsimp only
    rw [parseSDPType, if_pos rfl]
    rfl
  have hne : str "answer" ≠ [] := by
    rw [Ne, str_eq_nil]
    decide
  rw [clientOffers_legacy ⟨fun _ => [], fun _ => []⟩ compactJson compactJson_lawful _ _
    (validUTF8_str _) (show ValidUTF8 NATRestricted from validUTF8_str _) (by rw [hbody]; rfl) (by rw [hbody]; simp only [o, str_eq]; decide)
    decodeString_defaultBridgeFingerprint (fun _ => validUTF8_nil)
    (fun _ _ h => by cases h; exact validUTF8_str _), hbody, hsd,
    normalizeNAT_known (Or.inr (Or.inr (Or.inl rfl)))]
  simp only [↓reduceIte, hne]

theorem str_empty_object_head : (str "{}").head? = some 0x7b := by
  rw [str_eq]
  rfl

theorem str_empty_object_length : (str "{}").length ≤ readLimit := by
  rw [str_eq]
  decide

/-- An empty JSON object sent as a legacy offer: `IPC.ClientOffers` answers with the error
of `DeserializeSessionDescription`, which the legacy `switch` does not list, and the handler
panics. This holds for every NAT header, bridge list and matching. -/
theorem clientOffers_legacy_empty_object (texts : ErrorTexts) (J : Codec) (hJ : J.Lawful)
    (knownBridge : List UInt8 → Bool) (matching : ClientOffer → MatchResult)
    {natHeader : List UInt8} (hvh : ValidUTF8 natHeader) :
    IPC.clientOffers texts J knownBridge matching
        (ClientPollRequest.encodeClientPollRequest J ⟨str "{}", natHeader, []⟩) =
      ⟨[], str "malformed session description: " ++
        str "cannot deserialize SessionDescription without type field"⟩ ∧
    clientOffers texts J knownBridge matching (str "{}") natHeader = .panic (str "unknown error") := by
  have hsd : deserializeSessionDescription J (str "{}") =
      .error (.text (str "cannot deserialize SessionDescription without type field")) := by
    rw [← hJ.marshal_nil]
    exact deserializeSessionDescription_without_type J hJ Object.validUTF8_nil rfl
  have hne : str "{}" ≠ [] := by
    rw [Ne, str_eq_nil]
    decide
  have hc := IPC.clientOffer_legacy texts J hJ knownBridge (validUTF8_str _) hvh hne
    decodeString_defaultBridgeFingerprint
  rw [hsd] at hc
  constructor
  · rw [IPC.clientOffers, hc]
    rfl
  · exact clientOffers_legacy_of_refused texts J hJ knownBridge matching str_empty_object_head
      str_empty_object_length hc (unlisted_malformed (validUTF8_str _))

theorem clientOffers_legacy_empty_object_compact :
    IPC.clientOffers ⟨fun _ => [], fun _ => []⟩ compactJson (fun _ => true) (fun _ => .timedOut)
        (ClientPollRequest.encodeClientPollRequest compactJson ⟨str "{}", NATRestricted, []⟩) =
      ⟨[], str "malformed session description: " ++
        str "cannot deserialize SessionDescription without type field"⟩ ∧
    clientOffers ⟨fun _ => [], fun _ => []⟩ compactJson (fun _ => true) (fun _ => .timedOut)
        (str "{}") NATRestricted = .panic (str "unknown error") :=
  clientOffers_legacy_empty_object _ compactJson compactJson_lawful _ _ (validUTF8_str _)

end Snowflake.Broker
