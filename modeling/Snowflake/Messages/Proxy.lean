import Mathlib
import Snowflake.Lib.Json
import Snowflake.Lib.JsonCompact
/-
The proxy side of the broker protocol, `common/messages/proxy.go`: the poll request a
proxy sends and the poll response the broker returns, each with its encoder and decoder.

The encoder writes `Clients` as a `uint64`, but `DecodeProxyPollRequest` reads it into an
`int64` field of an auxiliary struct (so that a negative count can be clamped to 0) and
converts back. A count of `2^63` or more is therefore a number out of the `int64` range,
which `Unmarshal` refuses: `decodeProxyPollRequest_clients_overflow`. Below that bound every
request reads back as sent, with the proxy type and NAT type normalised
(`proxyPollRequest_roundTrip`), and a matched poll response reads back with its NAT type
normalised (`proxyPollResponse_roundTrip`).

`json.Marshal` of these structs cannot fail, so the encoders return bytes. Errors are the
texts the Go code builds, or the `encoding/json` error of a field.
-/

set_option autoImplicit false

namespace Snowflake.Messages

open GoJson

/-! ## Constants -/

/-- `version`, the protocol version a proxy sends. -/
def version : List UInt8 := str "1.3"

/-- `ProxyUnknown`. -/
def ProxyUnknown : List UInt8 := str "unknown"

/-- The keys of `KnownProxyTypes`. -/
def KnownProxyTypes : List (List UInt8) :=
  [str "standalone", str "webext", str "badge", str "iptproxy", str "bloco"]

/-- `nat.NATUnknown`, `nat.NATRestricted`, `nat.NATUnrestricted`. -/
def NATUnknown : List UInt8 := str "unknown"
def NATRestricted : List UInt8 := str "restricted"
def NATUnrestricted : List UInt8 := str "unrestricted"

/-- `ProxyClientMatch` and `ProxyClientNoMatch`. -/
def ProxyClientMatch : List UInt8 := str "client match"
def ProxyClientNoMatch : List UInt8 := str "no match"

/-- The errors of the message decoders: an `encoding/json` error, or the text of the
`fmt.Errorf` or `errors.New` value. -/
inductive Error where
  | json (e : DecodeError)
  | text (msg : List UInt8)
  deriving DecidableEq, Repr

/-- `json.Unmarshal` into a struct: the object, or a syntax error. -/
def unmarshalObject (J : Codec) (data : List UInt8) : Except Error Object :=
  match J.unmarshal data with
  | some o => .ok o
  | none => .error (.json .syntaxError)

/-- A field decoder's error as a message error. -/
def liftField {α : Type} (r : Except DecodeError α) : Except Error α :=
  r.mapError Error.json

/-! ## `ProxyPollRequest` -/

/-- `ProxyPollRequest`; `AcceptedRelayPattern` is a `*string`. -/
structure ProxyPollRequest where
  sid : List UInt8
  version : List UInt8
  type : List UInt8
  nat : List UInt8
  clients : UInt64
  acceptedRelayPattern : Option (List UInt8)
  deriving DecidableEq, Repr

/-- A `*string` as a JSON member value. -/
def stringPtrValue : Option (List UInt8) → Value
  | none => .null
  | some s => .string s

/-- `json.Marshal` of a `ProxyPollRequest`: its fields by name, in declaration order. -/
def ProxyPollRequest.toJson (req : ProxyPollRequest) : Object :=
  [(str "Sid", .string req.sid), (str "Version", .string req.version),
    (str "Type", .string req.type), (str "NAT", .string req.nat),
    (str "Clients", .number req.clients.toNat),
    (str "AcceptedRelayPattern", stringPtrValue req.acceptedRelayPattern)]

/-- `EncodeProxyPollRequestWithRelayPrefix`. -/
def encodeProxyPollRequestWithRelayPrefix (J : Codec) (sid proxyType natType : List UInt8)
    (clients : UInt64) (relayPattern : List UInt8) : List UInt8 :=
  J.marshal (ProxyPollRequest.toJson ⟨sid, version, proxyType, natType, clients, some relayPattern⟩)

/-- `(*ProxyPollRequest).Encode`, which sets the version first. -/
def ProxyPollRequest.encode (J : Codec) (req : ProxyPollRequest) : List UInt8 :=
  J.marshal { req with version := Messages.version }.toJson

/-- The `auxProxyPollRequest` of `DecodeProxyPollRequest`, with `Clients` an `int64`. -/
structure AuxProxyPollRequest where
  sid : List UInt8
  version : List UInt8
  type : List UInt8
  nat : List UInt8
  clients : Int64
  acceptedRelayPattern : Option (List UInt8)

/-- `json.Unmarshal(data, &aux)`, field by field. -/
def decodeAuxProxyPollRequest (o : Object) : Except Error AuxProxyPollRequest := do
  let sid ← liftField (o.stringField (str "Sid"))
  let version ← liftField (o.stringField (str "Version"))
  let type ← liftField (o.stringField (str "Type"))
  let nat ← liftField (o.stringField (str "NAT"))
  let clients ← liftField (o.int64Field (str "Clients"))
  let acceptedRelayPattern ← liftField (o.stringPtrField (str "AcceptedRelayPattern"))
  return ⟨sid, version, type, nat, clients, acceptedRelayPattern⟩

/-- `strings.Split(v, ".")[0]`. -/
def majorVersion (v : List UInt8) : List UInt8 := v.takeWhile (· ≠ 0x2e)

/-- The NAT `switch` of the decoders: `""` means unknown, the three known types stay, and
anything else is refused. -/
def normalizeNAT (nat : List UInt8) : Except Error (List UInt8) :=
  if nat = [] then .ok NATUnknown
  else if nat = NATUnknown ∨ nat = NATRestricted ∨ nat = NATUnrestricted then .ok nat
  else .error (.text (str "invalid NAT type"))

/-- `DecodeProxyPollRequest`. -/
def decodeProxyPollRequest (J : Codec) (data : List UInt8) : Except Error ProxyPollRequest := do
  let aux ← decodeAuxProxyPollRequest (← unmarshalObject J data)
  -- `uint64(max(aux.Clients, 0))`
  let message : ProxyPollRequest :=
    ⟨aux.sid, aux.version, aux.type, aux.nat, (max aux.clients 0).toUInt64, aux.acceptedRelayPattern⟩
  if majorVersion message.version ≠ str "1" then throw (.text (str "using unknown version"))
  if message.sid = [] then throw (.text (str "no supplied session id"))
  let nat ← normalizeNAT message.nat
  -- an unknown proxy type is kept as `unknown`, not refused
  let type := if message.type ∈ KnownProxyTypes then message.type else ProxyUnknown
  return { message with nat := nat, type := type }

/-- The results of `DecodeProxyPollRequestWithRelayPrefix`; `clients` is an `int`. -/
structure ProxyPoll where
  sid : List UInt8
  proxyType : List UInt8
  natType : List UInt8
  clients : Int64
  relayPrefix : List UInt8
  relayPrefixAware : Bool
  deriving DecidableEq, Repr

/-- `DecodeProxyPollRequestWithRelayPrefix`. -/
def decodeProxyPollRequestWithRelayPrefix (J : Codec) (data : List UInt8) :
    Except Error ProxyPoll := do
  let message ← decodeProxyPollRequest J data
  return ⟨message.sid, message.type, message.nat, message.clients.toInt64,
    message.acceptedRelayPattern.getD [], message.acceptedRelayPattern.isSome⟩

/-! ## `ProxyPollResponse` -/

/-- `ProxyPollResponse`. -/
structure ProxyPollResponse where
  status : List UInt8
  offer : List UInt8
  nat : List UInt8
  nextPoll : Int64
  relayURL : List UInt8
  deriving DecidableEq, Repr

/-- `json.Marshal` of a `ProxyPollResponse`. -/
def ProxyPollResponse.toJson (resp : ProxyPollResponse) : Object :=
  [(str "Status", .string resp.status), (str "Offer", .string resp.offer),
    (str "NAT", .string resp.nat), (str "NextPoll", .number resp.nextPoll.toInt),
    (str "RelayURL", .string resp.relayURL)]

/-- `(*ProxyPollResponse).Encode`. -/
def ProxyPollResponse.encode (J : Codec) (resp : ProxyPollResponse) : List UInt8 :=
  J.marshal resp.toJson

/-- `json.Unmarshal(data, &message)` for a `ProxyPollResponse`. -/
def decodeProxyPollResponseFields (o : Object) : Except Error ProxyPollResponse := do
  let status ← liftField (o.stringField (str "Status"))
  let offer ← liftField (o.stringField (str "Offer"))
  let nat ← liftField (o.stringField (str "NAT"))
  let nextPoll ← liftField (o.int64Field (str "NextPoll"))
  let relayURL ← liftField (o.stringField (str "RelayURL"))
  return ⟨status, offer, nat, nextPoll, relayURL⟩

/-- `DecodeProxyPollResponse`, which returns the message together with an error when the
status is neither a match nor `no match`. -/
def decodeProxyPollResponse (J : Codec) (data : List UInt8) :
    Option ProxyPollResponse × Option Error :=
  match unmarshalObject J data >>= decodeProxyPollResponseFields with
  | .error e => (none, some e)
  | .ok message =>
    if message.status = [] then (none, some (.text (str "received invalid data")))
    else if message.status = ProxyClientMatch ∧ message.offer = [] then
      (none, some (.text (str "no supplied offer")))
    else
      let message := if message.status = ProxyClientMatch then message
        else { message with offer := [] }
      let err := if message.status = ProxyClientMatch ∨ message.status = ProxyClientNoMatch then none
        else some (.text message.status)
      (some { message with nat := if message.nat = [] then str "unknown" else message.nat }, err)

/-! ## Reading fields of a marshalled struct -/

theorem liftField_ok {α : Type} (a : α) : liftField (.ok a) = .ok a := rfl

section Fields

variable (o : Object) (hd : (o.map Prod.fst).Nodup)
include hd

theorem stringField_of_mem (k s : List UInt8) (hm : (k, Value.string s) ∈ o) :
    o.stringField k = .ok s := by
  rw [Object.stringField, Object.get?_of_mem hd hm]

theorem stringPtrField_of_mem (k : List UInt8) (p : Option (List UInt8))
    (hm : (k, stringPtrValue p) ∈ o) : o.stringPtrField k = .ok p := by
  rw [Object.stringPtrField, Object.get?_of_mem hd hm]
  cases p <;> rfl

theorem intField_of_mem (k : List UInt8) (n lo hi : Int) (hm : (k, Value.number n) ∈ o) :
    o.intField k lo hi = if lo ≤ n ∧ n < hi then .ok n else .error (.type k) := by
  rw [Object.intField, Object.get?_of_mem hd hm]

end Fields

/-- The keys of a marshalled request are distinct. -/
theorem ProxyPollRequest.keys_nodup (req : ProxyPollRequest) : (req.toJson.map Prod.fst).Nodup := by
  show (["Sid", "Version", "Type", "NAT", "Clients", "AcceptedRelayPattern"].map str).Nodup
  exact nodup_map_str (by decide)

theorem ProxyPollResponse.keys_nodup (resp : ProxyPollResponse) :
    (resp.toJson.map Prod.fst).Nodup := by
  show (["Status", "Offer", "NAT", "NextPoll", "RelayURL"].map str).Nodup
  exact nodup_map_str (by decide)

theorem unmarshalObject_marshal (J : Codec) (hJ : J.Lawful) {o : Object} (ho : o.ValidUTF8) :
    unmarshalObject J (J.marshal o) = .ok o := by
  rw [unmarshalObject, hJ.unmarshal_marshal o ho]

/-- Reading a marshalled request into the auxiliary struct: every field as written, unless
the count does not fit an `int64`. -/
theorem decodeAux_toJson (req : ProxyPollRequest) :
    decodeAuxProxyPollRequest req.toJson =
      if req.clients.toNat < 2 ^ 63 then
        .ok ⟨req.sid, req.version, req.type, req.nat, Int64.ofInt req.clients.toNat,
          req.acceptedRelayPattern⟩
      else .error (.json (.type (str "Clients"))) := by
  have hd := req.keys_nodup
  have h1 := stringField_of_mem req.toJson hd (str "Sid") req.sid (by simp [ProxyPollRequest.toJson])
  have h2 := stringField_of_mem req.toJson hd (str "Version") req.version
    (by simp [ProxyPollRequest.toJson])
  have h3 := stringField_of_mem req.toJson hd (str "Type") req.type
    (by simp [ProxyPollRequest.toJson])
  have h4 := stringField_of_mem req.toJson hd (str "NAT") req.nat
    (by simp [ProxyPollRequest.toJson])
  have h5 := intField_of_mem req.toJson hd (str "Clients") req.clients.toNat (-2 ^ 63) (2 ^ 63)
    (by simp [ProxyPollRequest.toJson])
  have h6 := stringPtrField_of_mem req.toJson hd (str "AcceptedRelayPattern")
    req.acceptedRelayPattern (by simp [ProxyPollRequest.toJson])
  by_cases hc : req.clients.toNat < 2 ^ 63
  · have hr : (-2 ^ 63 : Int) ≤ req.clients.toNat ∧ (req.clients.toNat : Int) < 2 ^ 63 :=
      ⟨by omega, by omega⟩
    rw [if_pos hr] at h5
    rw [if_pos hc]
    simp only [decodeAuxProxyPollRequest, Object.int64Field, h1, h2, h3, h4, h5, h6, liftField]
    rfl
  · have hr : ¬ ((-2 ^ 63 : Int) ≤ req.clients.toNat ∧ (req.clients.toNat : Int) < 2 ^ 63) := by
      omega
    rw [if_neg hr] at h5
    rw [if_neg hc]
    simp only [decodeAuxProxyPollRequest, Object.int64Field, h1, h2, h3, h4, h5, liftField]
    rfl

/-- `uint64(max(aux.Clients, 0))` gives the count back when it fits an `int64`. -/
theorem clamp_clients (c : UInt64) (hc : c.toNat < 2 ^ 63) :
    (max (Int64.ofInt (c.toNat : Int)) 0).toUInt64 = c := by
  have hmax : max (Int64.ofInt (c.toNat : Int)) 0 = Int64.ofInt c.toNat := by
    simp only [max]
    by_cases h0 : c.toNat = 0
    · rw [h0]; rfl
    · have : ¬ Int64.ofInt (c.toNat : Int) ≤ 0 := by
        rw [Int64.le_iff_toInt_le, Int64.toInt_ofInt_of_le (by omega) (by omega)]
        simp
        omega
      rw [if_neg this]
  rw [hmax, Int64.ofInt_eq_ofNat, ← UInt64.toInt64_ofNat', UInt64.ofNat_toNat,
    UInt64.toUInt64_toInt64]

theorem normalizeNAT_known {n : List UInt8}
    (hn : n = [] ∨ n = NATUnknown ∨ n = NATRestricted ∨ n = NATUnrestricted) :
    normalizeNAT n = .ok (if n = [] then NATUnknown else n) := by
  unfold normalizeNAT
  by_cases h : n = []
  · rw [if_pos h, if_pos h]
  · rw [if_neg h, if_neg h, if_pos (hn.resolve_left h)]

theorem validUTF8_of_known_nat {n : List UInt8}
    (hn : n = [] ∨ n = NATUnknown ∨ n = NATRestricted ∨ n = NATUnrestricted) : ValidUTF8 n := by
  rcases hn with rfl | rfl | rfl | rfl
  · exact validUTF8_nil
  all_goals exact validUTF8_str _

theorem majorVersion_version : majorVersion version = str "1" := by
  rw [majorVersion, version, str_eq, str_eq]
  decide

/-- The request `EncodeProxyPollRequestWithRelayPrefix` writes, with valid UTF-8 strings, is
valid UTF-8 throughout. -/
theorem toJson_validUTF8 {sid t n r : List UInt8} {c : UInt64} (hvs : ValidUTF8 sid)
    (hvt : ValidUTF8 t) (hvn : ValidUTF8 n) (hvr : ValidUTF8 r) :
    (ProxyPollRequest.toJson ⟨sid, version, t, n, c, some r⟩).ValidUTF8 := by
  simp only [ProxyPollRequest.toJson, stringPtrValue, Object.validUTF8_cons, Value.ValidUTF8]
  exact ⟨validUTF8_str _, hvs, validUTF8_str _, validUTF8_str _, validUTF8_str _, hvt,
    validUTF8_str _, hvn, validUTF8_str _, trivial, validUTF8_str _, hvr, Object.validUTF8_nil⟩

/-- **A count of `2^63` or more is refused.** Whatever the other fields, the decoder's
`int64` field cannot hold the number the encoder wrote. -/
theorem decodeProxyPollRequest_clients_overflow (J : Codec) (hJ : J.Lawful)
    {sid t n r : List UInt8} {c : UInt64} (hvs : ValidUTF8 sid) (hvt : ValidUTF8 t)
    (hvn : ValidUTF8 n) (hvr : ValidUTF8 r) (hc : 2 ^ 63 ≤ c.toNat) :
    decodeProxyPollRequestWithRelayPrefix J (encodeProxyPollRequestWithRelayPrefix J sid t n c r) =
      .error (.json (.type (str "Clients"))) := by
  have hdec := decodeAux_toJson ⟨sid, version, t, n, c, some r⟩
  rw [if_neg (by simp only; omega)] at hdec
  rw [decodeProxyPollRequestWithRelayPrefix, decodeProxyPollRequest,
    encodeProxyPollRequestWithRelayPrefix, unmarshalObject_marshal J hJ (toJson_validUTF8 hvs hvt hvn hvr),
    except_bind_ok, hdec, except_bind_error, except_bind_error]

/-- At `Clients = 2^63` the decoder refuses a request the encoder wrote. -/
theorem proxyPollRequest_clients_two_pow_63 :
    decodeProxyPollRequestWithRelayPrefix compactJson
        (encodeProxyPollRequestWithRelayPrefix compactJson (str "sid") (str "standalone")
          NATRestricted 0x8000000000000000 []) =
      .error (.json (.type (str "Clients"))) :=
  decodeProxyPollRequest_clients_overflow compactJson compactJson_lawful (validUTF8_str _)
    (validUTF8_str _) (validUTF8_str _) validUTF8_nil (by decide)

theorem proxyPollRequest_roundTrip (J : Codec) (hJ : J.Lawful) {sid t n r : List UInt8}
    {c : UInt64} (hs : sid ≠ []) (hvs : ValidUTF8 sid) (hvt : ValidUTF8 t) (hvr : ValidUTF8 r)
    (hn : n = [] ∨ n = NATUnknown ∨ n = NATRestricted ∨ n = NATUnrestricted)
    (hc : c.toNat < 2 ^ 63) :
    decodeProxyPollRequestWithRelayPrefix J (encodeProxyPollRequestWithRelayPrefix J sid t n c r) =
      .ok ⟨sid, if t ∈ KnownProxyTypes then t else ProxyUnknown,
        if n = [] then NATUnknown else n, c.toInt64, r, true⟩ := by
  have hdec := decodeAux_toJson ⟨sid, version, t, n, c, some r⟩
  rw [if_pos hc] at hdec
  rw [decodeProxyPollRequestWithRelayPrefix, decodeProxyPollRequest,
    encodeProxyPollRequestWithRelayPrefix,
    unmarshalObject_marshal J hJ (toJson_validUTF8 hvs hvt (validUTF8_of_known_nat hn) hvr),
    except_bind_ok, hdec, except_bind_ok]
  simp only [clamp_clients c hc, majorVersion_version]
  rw [if_neg (fun h => h rfl), if_neg hs, normalizeNAT_known hn]
  rfl

/-- A poll response whose strings are valid UTF-8 is marshalled from a valid object. -/
theorem ProxyPollResponse.toJson_validUTF8 {resp : ProxyPollResponse}
    (hvs : ValidUTF8 resp.status) (hvo : ValidUTF8 resp.offer) (hvn : ValidUTF8 resp.nat)
    (hvr : ValidUTF8 resp.relayURL) : resp.toJson.ValidUTF8 := by
  simp only [ProxyPollResponse.toJson, Object.validUTF8_cons, Value.ValidUTF8]
  exact ⟨validUTF8_str _, hvs, validUTF8_str _, hvo, validUTF8_str _, hvn, validUTF8_str _,
    trivial, validUTF8_str _, hvr, Object.validUTF8_nil⟩

/-- Every poll response reads back field by field: an `int64` always fits its field. -/
theorem decodeProxyPollResponseFields_toJson (resp : ProxyPollResponse) :
    decodeProxyPollResponseFields resp.toJson = .ok resp := by
  have hd := resp.keys_nodup
  have h1 := stringField_of_mem resp.toJson hd (str "Status") resp.status
    (by simp [ProxyPollResponse.toJson])
  have h2 := stringField_of_mem resp.toJson hd (str "Offer") resp.offer
    (by simp [ProxyPollResponse.toJson])
  have h3 := stringField_of_mem resp.toJson hd (str "NAT") resp.nat
    (by simp [ProxyPollResponse.toJson])
  have h4 := intField_of_mem resp.toJson hd (str "NextPoll") resp.nextPoll.toInt (-2 ^ 63) (2 ^ 63)
    (by simp [ProxyPollResponse.toJson])
  have h5 := stringField_of_mem resp.toJson hd (str "RelayURL") resp.relayURL
    (by simp [ProxyPollResponse.toJson])
  rw [if_pos ⟨Int64.le_toInt _, Int64.toInt_lt _⟩] at h4
  simp only [decodeProxyPollResponseFields, Object.int64Field, h1, h2, h3, h4, h5,
    except_map_ok, liftField_ok, except_bind_ok, Int64.ofInt_toInt]
  rfl

theorem proxyClientMatch_ne_nil : ProxyClientMatch ≠ [] := by
  rw [ProxyClientMatch, Ne, str_eq_nil]
  decide

theorem proxyPollResponse_roundTrip (J : Codec) (hJ : J.Lawful) {resp : ProxyPollResponse}
    (hs : resp.status = ProxyClientMatch) (ho : resp.offer ≠ []) (hvo : ValidUTF8 resp.offer)
    (hvn : ValidUTF8 resp.nat) (hvr : ValidUTF8 resp.relayURL) :
    decodeProxyPollResponse J (resp.encode J) =
      (some { resp with nat := if resp.nat = [] then str "unknown" else resp.nat }, none) := by
  have hvs : ValidUTF8 resp.status := hs ▸ validUTF8_str _
  rw [decodeProxyPollResponse, ProxyPollResponse.encode,
    unmarshalObject_marshal J hJ (ProxyPollResponse.toJson_validUTF8 hvs hvo hvn hvr),
    except_bind_ok, decodeProxyPollResponseFields_toJson]
  dsimp only
  rw [if_neg (hs ▸ proxyClientMatch_ne_nil), if_neg (fun h => ho h.2), if_pos hs,
    if_pos (Or.inl hs)]


/-- **The proxy poll codec below `2^63`.** A poll request with a non-empty session id, valid
UTF-8 strings, a known or empty NAT type and a count below `2^63` reads back as sent, with
an unknown proxy type as `unknown` and an empty NAT type as `unknown`; a `client match`
poll response with an offer and valid UTF-8 strings reads back with no error, its NAT type
normalised the same way. -/
theorem proxyPoll_roundTrip (J : Codec) (hJ : J.Lawful) :
    (∀ (sid t n r : List UInt8) (c : UInt64), sid ≠ [] → ValidUTF8 sid → ValidUTF8 t →
      ValidUTF8 r → (n = [] ∨ n = NATUnknown ∨ n = NATRestricted ∨ n = NATUnrestricted) →
      c.toNat < 2 ^ 63 →
      decodeProxyPollRequestWithRelayPrefix J (encodeProxyPollRequestWithRelayPrefix J sid t n c r) =
        .ok ⟨sid, if t ∈ KnownProxyTypes then t else ProxyUnknown,
          if n = [] then NATUnknown else n, c.toInt64, r, true⟩) ∧
    ∀ resp : ProxyPollResponse, resp.status = ProxyClientMatch → resp.offer ≠ [] →
      ValidUTF8 resp.offer → ValidUTF8 resp.nat → ValidUTF8 resp.relayURL →
      decodeProxyPollResponse J (resp.encode J) =
        (some { resp with nat := if resp.nat = [] then str "unknown" else resp.nat }, none) :=
  ⟨fun _ _ _ _ _ hs hvs hvt hvr hn hc => proxyPollRequest_roundTrip J hJ hs hvs hvt hvr hn hc,
    fun _ hs ho hvo hvn hvr => proxyPollResponse_roundTrip J hJ hs ho hvo hvn hvr⟩

theorem proxyPoll_roundTrip_webext :
    decodeProxyPollRequestWithRelayPrefix compactJson
        (encodeProxyPollRequestWithRelayPrefix compactJson (str "sid") (str "webext") [] 3
          (str "relay")) =
      .ok ⟨str "sid", str "webext", NATUnknown, 3, str "relay", true⟩ ∧
    decodeProxyPollResponse compactJson
        (ProxyPollResponse.encode compactJson ⟨ProxyClientMatch, str "offer", [], 10, str "relay"⟩) =
      (some ⟨ProxyClientMatch, str "offer", str "unknown", 10, str "relay"⟩, none) := by
  have h := proxyPoll_roundTrip compactJson compactJson_lawful
  have hsid : str "sid" ≠ [] := by
    rw [Ne, str_eq_nil]
    decide
  have hoffer : str "offer" ≠ [] := by
    rw [Ne, str_eq_nil]
    decide
  have hwebext : str "webext" ∈ KnownProxyTypes := by simp [KnownProxyTypes]
  constructor
  · rw [h.1 (str "sid") (str "webext") [] (str "relay") 3 hsid (validUTF8_str _) (validUTF8_str _)
      (validUTF8_str _) (Or.inl rfl) (by decide), if_pos hwebext, if_pos rfl]
    rfl
  · rw [h.2 _ rfl hoffer (validUTF8_str _) validUTF8_nil (validUTF8_str _), if_pos rfl]

end Snowflake.Messages
