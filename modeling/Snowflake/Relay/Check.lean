import Mathlib
import Snowflake.Lib.NetIP
import Snowflake.Relay.NameMatcher
/-
The two checks of a relay URL: the broker's `CheckProxyRelayPattern` (`broker/broker.go`),
which accepts a proxy whose pattern covers the broker's own, and the proxy's
`checkIsRelayURLAcceptable` (`proxy/lib/snowflake.go`), which vets the relay URL of each
offer, with `isRemoteAddress` and `util.IsLocal` (`common/util/util.go`).

`url.Parse` and `net.ParseIP` are parameters. Of a parsed URL the check reads the scheme and
`Hostname()`. The private-address test runs only when `net.ParseIP` reads the hostname as an
address, and `net.ParseIP` takes no zone: the hostname `fe80::1%eth0` of the URL
`wss://[fe80::1%25eth0]/` is no address to it, so a link-local relay passes the test
(`relayURL_zone_accepted`). Both forms of an IPv4 address are classified alike
(`isRemoteAddress_v4InV6`), so the IPv4-mapped literals are caught.

A proxy accepted by `CheckProxyRelayPattern` never turns a relay away for its hostname when
that hostname matches the broker's pattern (`nameMatcher_superset_inclusion`): the
proxy's pattern covers every such name.
-/

set_option autoImplicit false

namespace Snowflake.Relay

open GoJson GoNet

/-! ## `util.IsLocal` and `isRemoteAddress` -/

/-- `util.IsLocal`: private, link-local, or carrier-grade NAT (`100.64.0.0/10`). -/
def isLocal (ip : IP) : Bool :=
  if ip.IsPrivate then true
  else if ip.IsLinkLocalUnicast then true
  else match ip.To4 with
    | some ip4 => ip4[0]? == some 100 && (ip4[1]?.map (· &&& 0xc0)) == some 64
    | none => false

/-- `isRemoteAddress`. -/
def isRemoteAddress (ip : IP) : Bool := !isLocal ip && !ip.IsUnspecified && !ip.IsLoopback

/-! ## `checkIsRelayURLAcceptable` -/

/-- `*url.URL`, the parts the check reads: `Scheme` and `Hostname()`. -/
structure URL where
  scheme : List UInt8
  hostname : List UInt8
  deriving DecidableEq, Repr

/-- The errors of `checkIsRelayURLAcceptable`. -/
inductive RelayURLError where
  /-- `url.Parse` failed, with its error's text. -/
  | badURL (e : List UInt8)
  | privateIP
  | nonTLS
  | notWebSocket
  | hostnameMismatch (pattern : List UInt8)
  deriving DecidableEq, Repr

def RelayURLError.message : RelayURLError → List UInt8
  | .badURL e => str "bad Relay URL " ++ e
  | .privateIP => str "rejected Relay URL: private IPs are not allowed"
  | .nonTLS => str "rejected Relay URL protocol: non-TLS not allowed"
  | .notWebSocket => str "rejected Relay URL protocol: only WebSocket is allowed"
  | .hostnameMismatch p =>
    str "rejected Relay URL: hostname does not match allowed pattern \"" ++ p ++ str "\""

/-- The private-address test: only a hostname that `net.ParseIP` reads as an address is
looked at. -/
def rejectsPrivate (parseIP : List UInt8 → Option IP) (hostname : List UInt8) : Bool :=
  match parseIP hostname with
  | some ip => !isRemoteAddress ip
  | none => false

/-- `checkIsRelayURLAcceptable`: `none` is a `nil` error. -/
def checkIsRelayURLAcceptable (parseURL : List UInt8 → Except (List UInt8) URL)
    (parseIP : List UInt8 → Option IP) (allowedHostNamePattern : List UInt8)
    (allowPrivateIPs allowNonTLSRelay : Bool) (relayURL : List UInt8) : Option RelayURLError :=
  if relayURL = [] then none
  else match parseURL relayURL with
    | .error e => some (.badURL e)
    | .ok u =>
      if !allowPrivateIPs && rejectsPrivate parseIP u.hostname then some .privateIP
      else if !allowNonTLSRelay && u.scheme != str "wss" then some .nonTLS
      else if u.scheme != str "wss" && u.scheme != str "ws" then some .notWebSocket
      else if !(newNameMatcher allowedHostNamePattern).isMember u.hostname then
        some (.hostnameMismatch allowedHostNamePattern)
      else none

/-- `(*BrokerContext).CheckProxyRelayPattern`: a proxy's pattern must cover the broker's. -/
def checkProxyRelayPattern (allowedRelayPattern : List UInt8) (pattern : Option (List UInt8)) :
    Bool :=
  match pattern with
  | none => false
  | some p => (newNameMatcher p).isSupersetOf (newNameMatcher allowedRelayPattern)

/-! ## The hostname check behind the broker's -/

/-- The check turns a relay away for its hostname only when the pattern does not match it. -/
theorem checkIsRelayURLAcceptable_hostnameMismatch {parseURL : List UInt8 → Except (List UInt8) URL}
    {parseIP : List UInt8 → Option IP} {P : List UInt8} {allowPrivateIPs allowNonTLSRelay : Bool}
    {relayURL : List UInt8} {u : URL} (hu : parseURL relayURL = .ok u)
    (hm : (newNameMatcher P).isMember u.hostname = true) :
    checkIsRelayURLAcceptable parseURL parseIP P allowPrivateIPs allowNonTLSRelay relayURL ≠
      some (.hostnameMismatch P) := by
  unfold checkIsRelayURLAcceptable
  split_ifs
  · simp
  · rw [hu]
    simp only [hm, Bool.not_true, Bool.false_eq_true, ↓reduceIte]
    split_ifs <;> simp

/-- **`IsSupersetOf` is inclusion, and what the broker's check buys.** For all rules `a`
and `b`, `NewNameMatcher(a).IsSupersetOf(NewNameMatcher(b))` holds exactly when every member
of `b`'s matcher is a member of `a`'s; so when the broker accepts a proxy's pattern `P`
against its own pattern `B`, a relay URL whose hostname matches `B` is never rejected by the
proxy's hostname check. -/
theorem nameMatcher_superset_inclusion :
    (∀ a b : List UInt8, (newNameMatcher a).isSupersetOf (newNameMatcher b) = true ↔
      ∀ s, (newNameMatcher b).isMember s = true → (newNameMatcher a).isMember s = true) ∧
    (∀ (parseURL : List UInt8 → Except (List UInt8) URL) (parseIP : List UInt8 → Option IP)
      (B P : List UInt8) (allowPrivateIPs allowNonTLSRelay : Bool) (relayURL : List UInt8) (u : URL),
      checkProxyRelayPattern B (some P) = true → parseURL relayURL = .ok u →
      (newNameMatcher B).isMember u.hostname = true →
      checkIsRelayURLAcceptable parseURL parseIP P allowPrivateIPs allowNonTLSRelay relayURL ≠
        some (.hostnameMismatch P)) := by
  refine ⟨fun a b => isSupersetOf_iff _ _, ?_⟩
  intro parseURL parseIP B P allowPrivateIPs allowNonTLSRelay relayURL u hcheck hu hB
  have hsub := (isSupersetOf_iff _ _).mp hcheck
  exact checkIsRelayURLAcceptable_hostnameMismatch hu (hsub hB)

theorem str_dollar : str "$" = [0x24] := by
  rw [str_eq]
  decide

theorem str_caret : str "^" = [0x5e] := by
  rw [str_eq]
  decide

/-- The empty rule: a suffix matcher of every name. -/
theorem newNameMatcher_nil : newNameMatcher [] = ⟨false, []⟩ := by
  simp [newNameMatcher, trimSuffix, trimPrefix, hasSuffix, hasPrefix, str_dollar, str_caret]

theorem nameMatcher_superset_inclusion_relay :
    checkProxyRelayPattern [] (some []) = true ∧
      checkIsRelayURLAcceptable (fun _ => .ok ⟨str "wss", str "relay"⟩) (fun _ => none) [] false
        false (str "wss://relay/") ≠ some (.hostnameMismatch []) := by
  have hn := newNameMatcher_nil
  have hcheck : checkProxyRelayPattern [] (some []) = true := by
    simp [checkProxyRelayPattern, hn, NameMatcher.isSupersetOf, hasSuffix]
  exact ⟨hcheck, nameMatcher_superset_inclusion.2 _ _ [] [] false false _ _ hcheck rfl
    (by simp [hn, NameMatcher.isMember, hasSuffix])⟩

/-! ## Address classes -/

/-- Every class `isRemoteAddress` asks about is decided on the IPv4 address for both its
forms. -/
theorem isRemoteAddress_v4InV6 (a : IP) (ha : a.length = 4) :
    isRemoteAddress (v4InV6Prefix ++ a) = isRemoteAddress a := by
  obtain ⟨b₀, b₁, b₂, b₃, rfl⟩ : ∃ b₀ b₁ b₂ b₃, a = [b₀, b₁, b₂, b₃] := by
    rcases a with _ | ⟨b₀, _ | ⟨b₁, _ | ⟨b₂, _ | ⟨b₃, _ | ⟨b₄, t⟩⟩⟩⟩⟩
    all_goals simp at ha
    exact ⟨b₀, b₁, b₂, b₃, rfl⟩
  have h16 := To4_v4InV6 [b₀, b₁, b₂, b₃] rfl
  have h4 := To4_of_length_four (a := [b₀, b₁, b₂, b₃]) rfl
  -- `Equal` against the unspecified addresses compares the bytes; the other classes go
  -- through `To4`
  have hunspec : IP.IsUnspecified (v4InV6Prefix ++ [b₀, b₁, b₂, b₃]) =
      IP.IsUnspecified [b₀, b₁, b₂, b₃] := by
    simp [IP.IsUnspecified, IP.Equal, IPv4zero, IPv4, IPv6unspecified, v4InV6Prefix]
  simp only [isRemoteAddress, isLocal, IP.IsPrivate, IP.IsLinkLocalUnicast, IP.IsLoopback, h16,
    h4, hunspec]

/-- `::ffff:192.168.1.1` is as private as `192.168.1.1`. -/
example : isRemoteAddress (v4InV6Prefix ++ [192, 168, 1, 1]) = false := by decide

/-! ## A zone in the relay hostname -/

/-- `fe80::1`, a link-local IPv6 address. -/
def linkLocalIP : IP := [0xfe, 0x80, 0, 0, 0, 0, 0, 0, 0, 0, 0, 0, 0, 0, 0, 1]

/-- A relay URL whose host is `fe80::1` with the zone `eth0`, `%` escaped as `%25`. -/
def zoneRelayURL : List UInt8 := str "wss://[fe80::1%25eth0]/"

theorem isRemoteAddress_linkLocalIP : isRemoteAddress linkLocalIP = false := by decide

theorem percent_mem_zoneHostname : (0x25 : UInt8) ∈ str "fe80::1%eth0" := by
  rw [str_eq]
  decide

/-- **A zoned link-local relay passes.** When `url.Parse` gives the hostname with its zone,
as Go's does, and `net.ParseIP` refuses every text with a `%`, the relay URL
`wss://[fe80::1%25eth0]/` of the link-local address `fe80::1` is accepted with private
addresses disallowed, under every pattern that matches the hostname and either TLS setting. -/
theorem relayURL_zone_accepted (parseURL : List UInt8 → Except (List UInt8) URL)
    (parseIP : List UInt8 → Option IP)
    (hurl : parseURL zoneRelayURL = .ok ⟨str "wss", str "fe80::1%eth0"⟩)
    (hip : ∀ t, (0x25 : UInt8) ∈ t → parseIP t = none)
    (P : List UInt8) (hP : (newNameMatcher P).isMember (str "fe80::1%eth0") = true)
    (allowNonTLSRelay : Bool) :
    isRemoteAddress linkLocalIP = false ∧
      checkIsRelayURLAcceptable parseURL parseIP P false allowNonTLSRelay zoneRelayURL = none := by
  refine ⟨isRemoteAddress_linkLocalIP, ?_⟩
  have hne : zoneRelayURL ≠ [] := by
    rw [zoneRelayURL, Ne, str_eq_nil]
    decide
  have hpriv : rejectsPrivate parseIP (str "fe80::1%eth0") = false := by
    rw [rejectsPrivate, hip _ percent_mem_zoneHostname]
  rw [checkIsRelayURLAcceptable, if_neg hne, hurl]
  simp [hpriv, hP]

theorem relayURL_zone_accepted_empty_pattern :
    isRemoteAddress linkLocalIP = false ∧
      checkIsRelayURLAcceptable (fun _ => .ok ⟨str "wss", str "fe80::1%eth0"⟩) (fun _ => none) []
        false false zoneRelayURL = none :=
  relayURL_zone_accepted _ _ rfl (fun _ _ => rfl) []
    (by simp [newNameMatcher_nil, NameMatcher.isMember, hasSuffix]) false

end Snowflake.Relay
