import Mathlib
import Snowflake.Lib.Hash
import Snowflake.Turbotunnel.Framing
/-
`server/lib/http.go`: `lookupPacketConn`, which assigns each turbotunnel `ClientID` to one of the
`pconns` that feed the server's KCP instances. The assignment is meant to be keyed by the secret
`clientIDLookupKey`, "to avoid manipulation of hash assignments".

The code computes `hmac.New(sha256.New, key).Sum(clientID[:])`. Nothing is written to the MAC,
and `Sum` appends the MAC of the empty message to the slice it is given. The sum therefore starts
with the eight bytes of the `ClientID`, and those are what `binary.LittleEndian.Uint64` reads
(`lookupPacketConn_eq`). The key plays no part in the assignment, for every MAC function and every
number of instances (`lookupPacketConn_key_independent`).
-/

set_option autoImplicit false

namespace Snowflake.Server

open Snowflake.Turbotunnel GoHash GoBinary

variable {α : Type}

/-- `httpHandler`, with what `lookupPacketConn` reads: the `QueuePacketConn`s of the KCP
instances and the lookup key, sixteen random bytes in `newHTTPHandler`. -/
structure HTTPHandler (α : Type) where
  pconns : List α
  clientIDLookupKey : List UInt8

/-- `lookupPacketConn(clientID)`, with `mac` the MAC function of `hmac.New(sha256.New, _)`; `none`
where Go panics (a short sum, or `% 0` with no instances). -/
def HTTPHandler.lookupPacketConn (mac : List UInt8 → List UInt8 → List UInt8)
    (handler : HTTPHandler α) (clientID : ClientID) : Option α :=
  let s := (new handler.clientIDLookupKey).sum mac clientID.bytes
  match littleEndianUint64 s with
  | none => none
  | some v => if handler.pconns.length = 0 then none else handler.pconns[v % handler.pconns.length]?

/-- The element `lookupPacketConn` returns is indexed by the `ClientID`'s own bytes. -/
theorem lookupPacketConn_eq (mac : List UInt8 → List UInt8 → List UInt8) (handler : HTTPHandler α)
    (clientID : ClientID) :
    handler.lookupPacketConn mac clientID =
      if handler.pconns.length = 0 then none
      else handler.pconns[leValue clientID.bytes % handler.pconns.length]? := by
  have h8 : 8 ≤ clientID.bytes.length := clientID.length_eq.ge
  -- the sum is the `ClientID` with the MAC after it, and the read stops at the `ClientID`
  have hread : littleEndianUint64 ((new handler.clientIDLookupKey).sum mac clientID.bytes) =
      some (leValue clientID.bytes) := by
    rw [Hash.sum, littleEndianUint64_append h8, littleEndianUint64, if_neg (Nat.not_lt.mpr h8),
      List.take_of_length_le clientID.length_eq.le]
  rw [HTTPHandler.lookupPacketConn, hread]

theorem lookupPacketConn_key_independent (mac : List UInt8 → List UInt8 → List UInt8)
    (pconns : List α) (key₁ key₂ : List UInt8) (clientID : ClientID) :
    (HTTPHandler.mk pconns key₁).lookupPacketConn mac clientID =
      (HTTPHandler.mk pconns key₂).lookupPacketConn mac clientID := by
  rw [lookupPacketConn_eq, lookupPacketConn_eq]

end Snowflake.Server
