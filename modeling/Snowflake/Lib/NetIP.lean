import Mathlib
/-
Go's `net.IP` and the address classes its methods decide.

A `net.IP` is a byte slice: 4 bytes for an IPv4 address, or 16 bytes, which for an IPv4
address is the IPv4-mapped form `::ffff:a.b.c.d` that `net.ParseIP` returns. Every method
that asks about an IPv4 class first tries `To4`, so both forms of an IPv4 address answer
alike (`To4_v4InV6`). The IPv6 classes are prefix tests on the first bytes.
-/

set_option autoImplicit false

namespace GoNet

/-- A `net.IP`. -/
abbrev IP := List UInt8

/-- `v4InV6Prefix`: the first twelve bytes of an IPv4-mapped IPv6 address. -/
def v4InV6Prefix : List UInt8 := [0, 0, 0, 0, 0, 0, 0, 0, 0, 0, 0xff, 0xff]

/-- `net.IPv4(a, b, c, d)`, in its 16-byte form. -/
def IPv4 (a b c d : UInt8) : IP := v4InV6Prefix ++ [a, b, c, d]

def IPv4zero : IP := IPv4 0 0 0 0

def IPv6unspecified : IP := List.replicate 16 0

def IPv6loopback : IP := List.replicate 15 0 ++ [1]

/-- `(IP).To4`: the four bytes of an IPv4 address, in either form. -/
def IP.To4 (ip : IP) : Option IP :=
  if ip.length = 4 then some ip
  else if ip.length = 16 ∧ ip.take 12 = v4InV6Prefix then some (ip.drop 12)
  else none

/-- `(IP).Equal`: the same address, an IPv4 address matching its mapped form. -/
def IP.Equal (ip x : IP) : Bool :=
  if ip.length = x.length then ip == x
  else if ip.length = 4 ∧ x.length = 16 then x.take 12 == v4InV6Prefix && ip == x.drop 12
  else if ip.length = 16 ∧ x.length = 4 then ip.take 12 == v4InV6Prefix && ip.drop 12 == x
  else false

/-- `(IP).IsUnspecified`: `0.0.0.0` or `::`. -/
def IP.IsUnspecified (ip : IP) : Bool := ip.Equal IPv4zero || ip.Equal IPv6unspecified

/-- `(IP).IsLoopback`: `127.0.0.0/8` or `::1`. -/
def IP.IsLoopback (ip : IP) : Bool :=
  match ip.To4 with
  | some ip4 => ip4.head? == some 127
  | none => ip.Equal IPv6loopback

/-- `(IP).IsPrivate`: `10.0.0.0/8`, `172.16.0.0/12`, `192.168.0.0/16` (RFC 1918) or
`fc00::/7` (RFC 4193). -/
def IP.IsPrivate (ip : IP) : Bool :=
  match ip.To4 with
  | some ip4 =>
    ip4[0]? == some 10 || (ip4[0]? == some 172 && (ip4[1]?.map (· &&& 0xf0)) == some 16) ||
      (ip4[0]? == some 192 && ip4[1]? == some 168)
  | none => ip.length == 16 && (ip[0]?.map (· &&& 0xfe)) == some 0xfc

/-- `(IP).IsLinkLocalUnicast`: `169.254.0.0/16` or `fe80::/10`. -/
def IP.IsLinkLocalUnicast (ip : IP) : Bool :=
  match ip.To4 with
  | some ip4 => ip4[0]? == some 169 && ip4[1]? == some 254
  | none => ip.length == 16 && ip[0]? == some 0xfe && (ip[1]?.map (· &&& 0xc0)) == some 0x80

/-! ## Both forms of an IPv4 address -/

theorem v4InV6Prefix_length : v4InV6Prefix.length = 12 := rfl

/-- The mapped form of a four-byte address reads back through `To4`. -/
theorem To4_v4InV6 (a : IP) (ha : a.length = 4) : IP.To4 (v4InV6Prefix ++ a) = some a := by
  have hlen : (v4InV6Prefix ++ a).length = 16 := by simp [v4InV6Prefix_length, ha]
  rw [IP.To4, if_neg (by omega), if_pos ⟨hlen, by simp [← v4InV6Prefix_length]⟩]
  simp [← v4InV6Prefix_length]

theorem To4_of_length_four {a : IP} (ha : a.length = 4) : a.To4 = some a := by
  rw [IP.To4, if_pos ha]

/-- A sixteen-byte address that is not IPv4-mapped has no IPv4 form. -/
theorem To4_of_not_mapped {a : IP} (ha : a.length = 16) (hm : a.take 12 ≠ v4InV6Prefix) :
    a.To4 = none := by
  rw [IP.To4, if_neg (by omega), if_neg (fun h => hm h.2)]

theorem To4_of_mapped {a : IP} (ha : a.length = 16) (hm : a.take 12 = v4InV6Prefix) :
    a.To4 = some (a.drop 12) := by
  rw [IP.To4, if_neg (by omega), if_pos ⟨ha, hm⟩]

theorem To4_of_length_ne {a : IP} (h4 : a.length ≠ 4) (h16 : a.length ≠ 16) : a.To4 = none := by
  rw [IP.To4, if_neg h4, if_neg (fun h => h16 h.1)]

/-! ## Networks -/

/-- `net.IPv4len`. -/
def IPv4len : Nat := 4

/-- `net.IPv6len`. -/
def IPv6len : Nat := 16

/-- A `net.IPMask`. -/
abbrev IPMask := List UInt8

/-- A `net.IPNet`: a network number and its mask, of any lengths. -/
structure IPNet where
  IP : GoNet.IP
  Mask : IPMask

/-- The loop of `CIDRMask` over the `l` bytes of the mask, `n` of its ones still to set. -/
def cidrMaskBytes : Nat → Nat → IPMask
  | 0, _ => []
  | l + 1, n =>
    if 8 ≤ n then 0xff :: cidrMaskBytes l (n - 8)
    else ~~~((0xff : UInt8) >>> n.toUInt8) :: cidrMaskBytes l 0

/-- `CIDRMask(ones, bits)`, `nil` being `[]`. The lengths are naturals here, so the check
`ones < 0` has nothing to reject. -/
def CIDRMask (ones bits : Nat) : IPMask :=
  if bits ≠ 8 * IPv4len ∧ bits ≠ 8 * IPv6len then []
  else if ones > bits then []
  else cidrMaskBytes (bits / 8) ones

/-- `networkNumberAndMask(n)`: the network number in the form `Contains` compares, and the mask
cut to its length; `nil, nil` is `([], [])`. -/
def networkNumberAndMask (n : IPNet) : IP × IPMask :=
  let ip? : Option IP :=
    match n.IP.To4 with
    | some ip => some ip
    | none => if n.IP.length ≠ IPv6len then none else some n.IP
  match ip? with
  | none => ([], [])
  | some ip =>
    if n.Mask.length = IPv4len then
      if ip.length ≠ IPv4len then ([], []) else (ip, n.Mask)
    else if n.Mask.length = IPv6len then
      if ip.length = IPv4len then (ip, n.Mask.drop 12) else (ip, n.Mask)
    else ([], [])

/-- `(*IPNet).Contains(ip)`: the address, in its IPv4 form if it has one, is as long as the
network number and agrees with it under the mask. -/
def IPNet.Contains (n : IPNet) (ip : GoNet.IP) : Bool :=
  let nm := networkNumberAndMask n
  let ip := match ip.To4 with
    | some x => x
    | none => ip
  if ip.length ≠ nm.1.length then false
  else (List.range ip.length).all fun i =>
    nm.1.getD i 0 &&& nm.2.getD i 0 == ip.getD i 0 &&& nm.2.getD i 0

/-! ## Full masks -/

theorem cidrMaskBytes_full (l : Nat) : cidrMaskBytes l (8 * l) = List.replicate l 0xff := by
  induction l with
  | zero => rfl
  | succ l ih =>
    have hn : 8 * (l + 1) - 8 = 8 * l := by omega
    rw [cidrMaskBytes, if_pos (by omega), hn, ih, List.replicate_succ]

/-- The mask of all of an address's bits. -/
theorem CIDRMask_full {bits : Nat} (hbits : bits = 8 * IPv4len ∨ bits = 8 * IPv6len) :
    CIDRMask bits bits = List.replicate (bits / 8) 0xff := by
  have h8 : bits = 8 * (bits / 8) := by
    unfold IPv4len IPv6len at hbits
    omega
  rw [CIDRMask, if_neg (fun h => by unfold IPv4len IPv6len at h hbits; omega), if_neg (by omega)]
  nth_rewrite 2 [h8]
  rw [cidrMaskBytes_full]

/-! ## What `Contains` compares -/

theorem networkNumberAndMask_four {n : IPNet} (hIP : n.IP.length = 4) (hM : n.Mask.length = 4) :
    networkNumberAndMask n = (n.IP, n.Mask) := by
  have hM4 : n.Mask.length = IPv4len := hM
  rw [networkNumberAndMask, To4_of_length_four hIP]
  dsimp only
  rw [if_pos hM4, if_neg (fun h => h hIP)]

theorem networkNumberAndMask_mapped {n : IPNet} (hIP : n.IP.length = 16)
    (hm : n.IP.take 12 = v4InV6Prefix) (hM : n.Mask.length = 16) :
    networkNumberAndMask n = (n.IP.drop 12, n.Mask.drop 12) := by
  have hM16 : n.Mask.length = IPv6len := hM
  have hdrop : (n.IP.drop 12).length = IPv4len := by
    rw [List.length_drop, hIP]
    rfl
  rw [networkNumberAndMask, To4_of_mapped hIP hm]
  dsimp only
  rw [if_neg (by unfold IPv4len; omega), if_pos hM16, if_pos hdrop]

theorem networkNumberAndMask_unmapped {n : IPNet} (hIP : n.IP.length = 16)
    (hm : n.IP.take 12 ≠ v4InV6Prefix) (hM : n.Mask.length = 16) :
    networkNumberAndMask n = (n.IP, n.Mask) := by
  have hM16 : n.Mask.length = IPv6len := hM
  rw [networkNumberAndMask, To4_of_not_mapped hIP hm]
  dsimp only
  rw [if_neg (fun h => h hIP)]
  dsimp only
  rw [if_neg (by unfold IPv4len; omega), if_pos hM16, if_neg (by unfold IPv4len; omega)]

theorem networkNumberAndMask_other {n : IPNet} (h4 : n.IP.length ≠ 4) (h16 : n.IP.length ≠ 16) :
    networkNumberAndMask n = ([], []) := by
  have h16' : n.IP.length ≠ IPv6len := h16
  rw [networkNumberAndMask, To4_of_length_ne h4 h16]
  dsimp only
  rw [if_pos h16']

/-- The loop of `Contains` passes when the bytes agree under the mask. -/
theorem all_agree {nn m ip : List UInt8}
    (h : ∀ i < ip.length, nn.getD i 0 &&& m.getD i 0 = ip.getD i 0 &&& m.getD i 0) :
    ((List.range ip.length).all fun i =>
      nn.getD i 0 &&& m.getD i 0 == ip.getD i 0 &&& m.getD i 0) = true := by
  rw [List.all_eq_true]
  intro i hi
  rw [h i (List.mem_range.mp hi)]
  exact beq_self_eq_true _

section agree

variable {n : IPNet} {ip : GoNet.IP}

/-- `Contains`, read from the network number and mask `nn`, `m` and the address's form `x`. -/
theorem IPNet.Contains_eq {nn m x : GoNet.IP} (hnm : networkNumberAndMask n = (nn, m))
    (hx : ip.To4 = some x ∨ (ip.To4 = none ∧ x = ip)) :
    n.Contains ip = if x.length ≠ nn.length then false else
      (List.range x.length).all fun i =>
        nn.getD i 0 &&& m.getD i 0 == x.getD i 0 &&& m.getD i 0 := by
  rcases hx with hx | ⟨hx, rfl⟩
  · simp only [IPNet.Contains, hnm, hx]
  · simp only [IPNet.Contains, hnm, hx]

theorem IPNet.Contains_of_length_ne {nn m x : GoNet.IP} (hnm : networkNumberAndMask n = (nn, m))
    (hx : ip.To4 = some x ∨ (ip.To4 = none ∧ x = ip)) (hne : x.length ≠ nn.length) :
    n.Contains ip = false := by
  rw [IPNet.Contains_eq hnm hx, if_pos hne]

theorem IPNet.Contains_of_agree {nn m x : GoNet.IP} (hnm : networkNumberAndMask n = (nn, m))
    (hx : ip.To4 = some x ∨ (ip.To4 = none ∧ x = ip)) (hl : x.length = nn.length)
    (h : ∀ i < x.length, nn.getD i 0 &&& m.getD i 0 = x.getD i 0 &&& m.getD i 0) :
    n.Contains ip = true := by
  rw [IPNet.Contains_eq hnm hx, if_neg (not_not.mpr hl)]
  exact all_agree h

/-- An address that agrees with the network number under the mask, at the same length: in the
network as `Contains` sees it exactly when the IPv4 form, where one of the two has it, is
taken on both sides. Any other length is in no network but the empty one. -/
theorem IPNet.Contains_iff_of_agree (hlen : n.IP.length = n.Mask.length)
    (hip : ip.length = n.IP.length)
    (hagree : ∀ i (hi : i < n.IP.length), ip[i] &&& n.Mask[i] = n.IP[i] &&& n.Mask[i]) :
    n.Contains ip = true ↔ n.IP.length = 0 ∨ n.IP.length = 4 ∨
      (n.IP.length = 16 ∧ (n.IP.take 12 = v4InV6Prefix ↔ ip.take 12 = v4InV6Prefix)) := by
  -- the agreement as the loop reads it, from any offset
  have hgetD : ∀ k i, k + i < n.IP.length →
      n.IP.getD (k + i) 0 &&& n.Mask.getD (k + i) 0 =
        ip.getD (k + i) 0 &&& n.Mask.getD (k + i) 0 := by
    intro k i hi
    rw [List.getD_eq_getElem _ _ hi, List.getD_eq_getElem _ _ (by omega),
      List.getD_eq_getElem _ _ (by omega), hagree _ hi]
  have hdrop : ∀ (l : List UInt8) i, (l.drop 12).getD i 0 = l.getD (12 + i) 0 := by
    intro l i
    rw [List.getD_eq_getElem?_getD, List.getElem?_drop, ← List.getD_eq_getElem?_getD]
  by_cases h4 : n.IP.length = 4
  · -- IPv4: both sides are compared as they are
    refine iff_of_true (IPNet.Contains_of_agree (networkNumberAndMask_four h4 (by omega))
      (Or.inl (To4_of_length_four (by omega))) (by omega) fun i hi => ?_) (Or.inr (Or.inl h4))
    simpa using hgetD 0 i (by omega)
  by_cases h16 : n.IP.length = 16
  · have hdrop4 : ∀ l : List UInt8, l.length = 16 → (l.drop 12).length = 4 := by
      intro l hl
      rw [List.length_drop, hl]
    by_cases hm : n.IP.take 12 = v4InV6Prefix <;> by_cases hipm : ip.take 12 = v4InV6Prefix
    · -- both IPv4-mapped: compared in their IPv4 forms
      refine iff_of_true (IPNet.Contains_of_agree (networkNumberAndMask_mapped h16 hm (by omega))
        (Or.inl (To4_of_mapped (by omega) hipm)) (by rw [hdrop4 _ (by omega), hdrop4 _ h16])
        fun i hi => ?_) (Or.inr (Or.inr ⟨h16, iff_of_true hm hipm⟩))
      rw [hdrop, hdrop, hdrop]
      exact hgetD 12 i (by rw [hdrop4 _ (by omega)] at hi; omega)
    · -- a mapped network number against a sixteen-byte address
      refine iff_of_false (ne_true_of_eq_false (IPNet.Contains_of_length_ne
        (networkNumberAndMask_mapped h16 hm (by omega))
        (Or.inr ⟨To4_of_not_mapped (by omega) hipm, rfl⟩) (by rw [hdrop4 _ h16]; omega))) ?_
      rintro (h | h | ⟨-, h⟩)
      · omega
      · omega
      · exact hipm (h.mp hm)
    · -- a sixteen-byte network number against a mapped address
      refine iff_of_false (ne_true_of_eq_false (IPNet.Contains_of_length_ne
        (networkNumberAndMask_unmapped h16 hm (by omega))
        (Or.inl (To4_of_mapped (by omega) hipm)) (by rw [hdrop4 _ (by omega)]; omega))) ?_
      rintro (h | h | ⟨-, h⟩)
      · omega
      · omega
      · exact hm (h.mpr hipm)
    · -- neither mapped: compared at sixteen bytes
      refine iff_of_true (IPNet.Contains_of_agree (networkNumberAndMask_unmapped h16 hm (by omega))
        (Or.inr ⟨To4_of_not_mapped (by omega) hipm, rfl⟩) hip fun i hi => ?_)
        (Or.inr (Or.inr ⟨h16, iff_of_false hm hipm⟩))
      simpa using hgetD 0 i (by omega)
  · -- any other length: the network number is `nil`
    have hnil := networkNumberAndMask_other h4 h16
    have hx : ip.To4 = none ∧ ip = ip := ⟨To4_of_length_ne (by omega) (by omega), rfl⟩
    by_cases h0 : n.IP.length = 0
    · exact iff_of_true (IPNet.Contains_of_agree hnil (Or.inr hx)
        (by simp only [List.length_nil]; omega) fun i hi => by omega) (Or.inl h0)
    · refine iff_of_false (ne_true_of_eq_false (IPNet.Contains_of_length_ne hnil (Or.inr hx)
        (by simp only [List.length_nil]; omega))) ?_
      rintro (h | h | ⟨h, -⟩) <;> omega

end agree

end GoNet
