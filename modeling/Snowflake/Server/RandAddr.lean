import Mathlib
import Snowflake.Lib.NetIP
import Snowflake.Lib.BitMask
/-
`server/randaddr.go`: the source address `handleConn` in `server/server.go` dials the ORPort from
when the `orport-srcaddr` option gives a network. `parseIPCIDR` reads the option, a CIDR or a plain
address; `randIPAddr` draws an address of the network for each connection.

## The model

`randIPAddr` reads `len(ipnet.IP)` random bytes into the new `ip` with `rand.Read`; `read` is what
that call did, the bytes it read (one for each index) or its error. The loop then keeps the bits
of `ipnet.IP` under the mask and the random bits outside it, which is `BitMask.merge`.
`parseIPCIDR` is over `net.ParseCIDR` and `net.ParseIP`, which are parameters; only the network
that `ParseCIDR` returns is read, and Go strings are byte strings.

## What is proved

`randIPAddr_network`: an error exactly when the lengths differ; otherwise the address agrees with
the network number under the mask and with the fill outside it, and each such address comes from
`2 ^ (number of bits set in the mask)` fills, so the draw is uniform over them. `Contains` accepts
the address exactly when both or neither of the network number and the address are IPv4-mapped (at
16 bytes), so an IPv6 network that holds IPv4-mapped addresses, such as `::/0`, can draw an address
it does not contain (`randIPAddr_unspecified_mapped`). A plain address read by `parseIPCIDR` is a
network of one address, which `randIPAddr` always returns (`parseIPCIDR_plain`).
-/

set_option autoImplicit false

namespace Snowflake.Server

open GoNet BitMask

variable {ε : Type}

/-- The errors of `randIPAddr`. -/
inductive RandAddrError (ε : Type)
  /-- `"IP and mask have unequal lengths (%v and %v)"`, with the two lengths. -/
  | unequalLengths (ipLen maskLen : Nat)
  /-- An error of `rand.Read`. -/
  | read (err : ε)
  deriving DecidableEq, Repr

/-- `randIPAddr(ipnet)`, with `read` what `rand.Read` did to the `len(ipnet.IP)` bytes of `ip`. -/
def randIPAddr (ipnet : IPNet) (read : Except ε (Fin ipnet.IP.length → UInt8)) :
    Except (RandAddrError ε) IP :=
  if h : ipnet.IP.length ≠ ipnet.Mask.length then
    .error (.unequalLengths ipnet.IP.length ipnet.Mask.length)
  else
    match read with
    | .error err => .error (.read err)
    | .ok ip =>
      -- `ip[i] = (ipnet.IP[i] & ipnet.Mask[i]) | (ip[i] & ^ipnet.Mask[i])` at every index
      .ok (List.ofFn fun i => merge ipnet.IP[i] ipnet.Mask[i] (ip i))

/-- `parseIPCIDR(s)`: the network of a CIDR, or else a plain address with the mask of all its
bits; the error is `ParseCIDR`'s. -/
def parseIPCIDR (parseCIDR : List UInt8 → Except ε IPNet) (parseIP : List UInt8 → Option IP)
    (s : List UInt8) : Except ε IPNet :=
  match parseCIDR s with
  | .ok ipnet => .ok ipnet
  | .error err =>
    match parseIP s with
    | some ip => .ok ⟨ip, CIDRMask (ip.length * 8) (ip.length * 8)⟩
    | none => .error err

/-! ## What `randIPAddr` returns -/

section draw

variable {ipnet : IPNet}

theorem randIPAddr_unequal (h : ipnet.IP.length ≠ ipnet.Mask.length)
    (read : Except ε (Fin ipnet.IP.length → UInt8)) :
    randIPAddr ipnet read = .error (.unequalLengths ipnet.IP.length ipnet.Mask.length) := by
  rw [randIPAddr, dif_pos h]

theorem randIPAddr_ok (hlen : ipnet.IP.length = ipnet.Mask.length)
    (r : Fin ipnet.IP.length → UInt8) :
    randIPAddr ipnet (.ok r : Except ε _) =
      .ok (List.ofFn fun i => merge ipnet.IP[i] ipnet.Mask[i] (r i)) := by
  rw [randIPAddr, dif_neg (not_not.mpr hlen)]

/-- A fill gives the address `a` exactly when it merges to `a` at every index. -/
theorem randIPAddr_eq_ofFn_iff (hlen : ipnet.IP.length = ipnet.Mask.length)
    (r a : Fin ipnet.IP.length → UInt8) :
    randIPAddr ipnet (.ok r : Except ε _) = .ok (List.ofFn a) ↔
      ∀ i, merge ipnet.IP[i] ipnet.Mask[i] (r i) = a i := by
  rw [randIPAddr_ok hlen, Except.ok.injEq, List.ofFn_inj, funext_iff]

/-- The fills that give an address of the network: for each byte, one for each submask of the
mask's byte. -/
theorem card_randIPAddr_fills (hlen : ipnet.IP.length = ipnet.Mask.length)
    (a : Fin ipnet.IP.length → UInt8)
    (ha : ∀ i, a i &&& ipnet.Mask[i] = ipnet.IP[i] &&& ipnet.Mask[i]) :
    Nat.card {r : Fin ipnet.IP.length → UInt8 // randIPAddr ipnet (.ok r : Except ε _) =
      .ok (List.ofFn a)} = 2 ^ (ipnet.Mask.map popCount).sum := by
  have hsum :
      ∑ i : Fin ipnet.IP.length, popCount ipnet.Mask[i] = (ipnet.Mask.map popCount).sum := by
    rw [← List.ofFn_getElem_eq_map, List.sum_ofFn]
    exact Fin.sum_congr' (fun j => popCount ipnet.Mask[j]) hlen
  rw [Nat.card_congr (Equiv.subtypeEquivRight fun r => randIPAddr_eq_ofFn_iff hlen r a),
    card_merge_fiber_pi (fun i => ipnet.IP[i]) (fun i => ipnet.Mask[i]) a ha, hsum]

/-- Under the mask of all its bits, a network is the one address. -/
theorem randIPAddr_full_mask (hM : ipnet.Mask = List.replicate ipnet.IP.length 0xff)
    (r : Fin ipnet.IP.length → UInt8) : randIPAddr ipnet (.ok r : Except ε _) = .ok ipnet.IP := by
  have hlen : ipnet.IP.length = ipnet.Mask.length := by rw [hM, List.length_replicate]
  rw [randIPAddr_ok hlen, Except.ok.injEq]
  apply List.ext_getElem List.length_ofFn
  intro i h1 h2
  have hmi : ipnet.Mask[i] = 0xff := by simp only [hM, List.getElem_replicate]
  rw [List.getElem_ofFn, Fin.getElem_fin, Fin.getElem_fin, hmi, merge_full]

end draw

theorem randIPAddr_network (ipnet : IPNet) (r : Fin ipnet.IP.length → UInt8) :
    ((∃ e, randIPAddr ipnet (.ok r : Except ε _) = .error e) ↔
        ipnet.IP.length ≠ ipnet.Mask.length) ∧
    ∀ hlen : ipnet.IP.length = ipnet.Mask.length,
      (∃ a : Fin ipnet.IP.length → UInt8, randIPAddr ipnet (.ok r : Except ε _) = .ok (List.ofFn a) ∧
        (∀ i, a i &&& ipnet.Mask[i] = ipnet.IP[i] &&& ipnet.Mask[i] ∧
          a i &&& ~~~ipnet.Mask[i] = r i &&& ~~~ipnet.Mask[i]) ∧
        (ipnet.Contains (List.ofFn a) = true ↔ ipnet.IP.length = 0 ∨ ipnet.IP.length = 4 ∨
          (ipnet.IP.length = 16 ∧
            (ipnet.IP.take 12 = v4InV6Prefix ↔ (List.ofFn a).take 12 = v4InV6Prefix)))) ∧
      ∀ a : Fin ipnet.IP.length → UInt8,
        (∀ i, a i &&& ipnet.Mask[i] = ipnet.IP[i] &&& ipnet.Mask[i]) →
        Nat.card {r' : Fin ipnet.IP.length → UInt8 //
          randIPAddr ipnet (.ok r' : Except ε _) = .ok (List.ofFn a)} =
          2 ^ (ipnet.Mask.map popCount).sum := by
  constructor
  · -- the only error with a successful `rand.Read` is the length check
    constructor
    · rintro ⟨e, he⟩ hlen
      rw [randIPAddr_ok hlen] at he
      cases he
    · intro h
      exact ⟨_, randIPAddr_unequal h _⟩
  · intro hlen
    refine ⟨⟨fun i => merge ipnet.IP[i] ipnet.Mask[i] (r i), randIPAddr_ok hlen r,
      fun i => ⟨merge_and_mask _ _ _, merge_and_not_mask _ _ _⟩, ?_⟩,
      fun a ha => card_randIPAddr_fills hlen a ha⟩
    apply IPNet.Contains_iff_of_agree hlen List.length_ofFn
    intro i hi
    rw [List.getElem_ofFn]
    exact merge_and_mask _ _ _

/-- The test's network `2001:db8::1234/0`, which `net.ParseCIDR` gives as `::/0`, and the fill
`::ffff:1.2.3.4`: under the empty mask the address drawn is the fill, and `Contains` reads it as
the IPv4 address `1.2.3.4`, which a 16-byte network whose number is not IPv4-mapped does not
hold. -/
theorem randIPAddr_unspecified_mapped :
    let ipnet : IPNet := ⟨IPv6unspecified, CIDRMask 0 128⟩
    randIPAddr ipnet (.ok fun i : Fin ipnet.IP.length => (IPv4 1 2 3 4).getD i 0 : Except Unit _) =
        .ok (IPv4 1 2 3 4) ∧
      ipnet.Contains (IPv4 1 2 3 4) = false := by
  intro ipnet
  have hlen : ipnet.IP.length = ipnet.Mask.length := by decide
  obtain ⟨⟨a, ha, hbits, hc⟩, -⟩ := (randIPAddr_network (ε := Unit) ipnet
    fun i : Fin ipnet.IP.length => (IPv4 1 2 3 4).getD i 0).2 hlen
  -- no bit of the network number is kept, so every byte is the fill's
  have hfill : List.ofFn a = IPv4 1 2 3 4 := by
    have hm : ∀ i : Fin ipnet.IP.length, ipnet.Mask[i] = 0 := by decide
    apply List.ext_getElem (by rw [List.length_ofFn]; rfl)
    intro i h1 h2
    have hi : a ⟨i, by simpa using h1⟩ = (IPv4 1 2 3 4).getD i 0 := by
      simpa [hm] using (hbits ⟨i, by simpa using h1⟩).2
    rw [List.getElem_ofFn, hi, List.getD_eq_getElem _ _ h2]
  rw [hfill] at ha hc
  refine ⟨ha, ?_⟩
  -- `::` is not IPv4-mapped and the address is, so neither case of `Contains` holds
  rw [← Bool.not_eq_true, hc]
  decide

/-! ## A plain address -/

/-- When `ParseCIDR` fails and `ParseIP` reads an address, its network has the mask of all its
bits: every fill gives that address, which the network contains. -/
theorem parseIPCIDR_plain (parseCIDR : List UInt8 → Except ε IPNet)
    (parseIP : List UInt8 → Option IP) (s : List UInt8) (err : ε) (ip : IP)
    (hcidr : parseCIDR s = .error err) (hip : parseIP s = some ip)
    (hlen : ip.length = 4 ∨ ip.length = 16) :
    ∃ ipnet, parseIPCIDR parseCIDR parseIP s = .ok ipnet ∧ ipnet.IP = ip ∧
      ∀ r, randIPAddr ipnet (.ok r : Except ε _) = .ok ip ∧ ipnet.Contains ip = true := by
  have hmask : CIDRMask (ip.length * 8) (ip.length * 8) = List.replicate ip.length 0xff := by
    rw [CIDRMask_full (by unfold IPv4len IPv6len; omega), Nat.mul_div_cancel _ (by decide)]
  refine ⟨⟨ip, CIDRMask (ip.length * 8) (ip.length * 8)⟩, ?_, rfl, fun r => ⟨?_, ?_⟩⟩
  · rw [parseIPCIDR, hcidr]
    dsimp only
    rw [hip]
  · exact randIPAddr_full_mask hmask r
  · have hlen' : ip.length = (CIDRMask (ip.length * 8) (ip.length * 8)).length := by
      rw [hmask, List.length_replicate]
    apply (IPNet.Contains_iff_of_agree hlen' rfl fun _ _ => rfl).mpr
    rcases hlen with h | h
    · exact Or.inr (Or.inl h)
    · exact Or.inr (Or.inr ⟨h, Iff.rfl⟩)

end Snowflake.Server
