import Mathlib
/-
Merging two values under a bit mask, and counting what a merge can come from.

`merge a m r` takes the bits of `a` where `m` is set and those of `r` where it is clear. The
bits of `r` under `m` are lost, so the values `r` whose merge is a given `x` are as many as the
submasks of `m`: two to the number of bits set in `m` (`card_merge_fiber`), and over a word of
bytes the product of these (`card_merge_fiber_pi`).

The count of submasks is Mathlib's bijection between a natural number and the set of its bit
indices (`Finset.equivBitIndices`): a submask of `m` is a sum of powers of two over a subset of
the bits of `m` (`card_submasks`).
-/

set_option autoImplicit false

namespace BitMask

/-! ## Submasks of a natural number -/

/-- `y` has no bit set outside `m`. -/
theorem and_eq_self_iff_subset (y m : Nat) :
    y &&& m = y ↔ y.bitIndices.toFinset ⊆ m.bitIndices.toFinset := by
  constructor
  · intro h i hi
    rw [List.mem_toFinset, Nat.mem_bitIndices] at hi ⊢
    rw [← h, Nat.testBit_land] at hi
    exact (Bool.and_eq_true _ _ ▸ hi).2
  · intro h
    apply Nat.eq_of_testBit_eq
    intro i
    rw [Nat.testBit_land]
    cases hy : y.testBit i with
    | false => rfl
    | true =>
      have hm : i ∈ m.bitIndices.toFinset :=
        h (by rw [List.mem_toFinset, Nat.mem_bitIndices]; exact hy)
      rw [List.mem_toFinset, Nat.mem_bitIndices] at hm
      rw [hm]
      rfl

/-- The submasks of `m` are the sums of powers of two over the subsets of its bits, so there are
two to the number of its bits. -/
theorem card_submasks (m : Nat) :
    ((Finset.range (m + 1)).filter fun y => y &&& m = y).card = 2 ^ m.bitIndices.length := by
  have himage : ((Finset.range (m + 1)).filter fun y => y &&& m = y) =
      (m.bitIndices.toFinset.powerset).image fun s => ∑ i ∈ s, 2 ^ i := by
    ext y
    rw [Finset.mem_filter, Finset.mem_range, Finset.mem_image]
    constructor
    · rintro ⟨-, hy⟩
      exact ⟨y.bitIndices.toFinset, Finset.mem_powerset.mpr ((and_eq_self_iff_subset y m).mp hy),
        Finset.sum_toFinset_bitIndices_two_pow y⟩
    · rintro ⟨s, hs, rfl⟩
      have hsub : (∑ i ∈ s, 2 ^ i) &&& m = ∑ i ∈ s, 2 ^ i := by
        rw [and_eq_self_iff_subset, Finset.toFinset_bitIndices_sum_two_pow]
        exact Finset.mem_powerset.mp hs
      refine ⟨?_, hsub⟩
      have hle := Nat.and_le_right (n := ∑ i ∈ s, 2 ^ i) (m := m)
      rw [hsub] at hle
      omega
  rw [himage, Finset.card_image_of_injective _ (Finset.geomSum_injective le_rfl),
    Finset.card_powerset, List.toFinset_card_of_nodup Nat.bitIndices_nodup]

/-! ## Bytes -/

/-- The number of bits set in a byte. -/
def popCount (m : UInt8) : Nat := ((List.range 8).filter fun i => m.toNat.testBit i).length

/-- The bits of a byte are among the first eight. -/
theorem popCount_eq_length_bitIndices (m : UInt8) : popCount m = m.toNat.bitIndices.length := by
  have hbits : m.toNat.bitIndices.toFinset =
      ((List.range 8).filter fun i => m.toNat.testBit i).toFinset := by
    ext i
    rw [List.mem_toFinset, List.mem_toFinset, Nat.mem_bitIndices, List.mem_filter, List.mem_range]
    constructor
    · intro hi
      refine ⟨?_, hi⟩
      -- a bit at eight or above would make the byte at least `2 ^ 8`
      by_contra h8
      have hlt : m.toNat < 2 ^ i :=
        lt_of_lt_of_le m.toNat_lt (Nat.pow_le_pow_right (by decide) (by omega))
      rw [Nat.testBit_lt_two_pow hlt] at hi
      cases hi
    · exact fun hi => hi.2
  rw [popCount, ← List.toFinset_card_of_nodup (List.nodup_range.filter _), ← hbits,
    List.toFinset_card_of_nodup Nat.bitIndices_nodup]

/-- Bytes are equal when their bits are. -/
theorem ext_bits {u v : UInt8} (h : ∀ i (hi : i < 8), u.toBitVec[i] = v.toBitVec[i]) : u = v := by
  apply UInt8.toBitVec_inj.mp
  ext i hi
  exact h i hi

theorem or_and_distrib (a b m : UInt8) : (a ||| b) &&& m = (a &&& m) ||| (b &&& m) := by
  apply ext_bits
  intro i hi
  simp only [UInt8.toBitVec_and, UInt8.toBitVec_or, BitVec.getElem_and, BitVec.getElem_or]
  cases a.toBitVec[i] <;> cases b.toBitVec[i] <;> cases m.toBitVec[i] <;> rfl

/-- A byte is its bits under `m` and its bits outside `m`. -/
theorem and_or_and_not (r m : UInt8) : (r &&& m) ||| (r &&& ~~~m) = r := by
  apply ext_bits
  intro i hi
  simp only [UInt8.toBitVec_and, UInt8.toBitVec_or, UInt8.toBitVec_not, BitVec.getElem_and,
    BitVec.getElem_or, BitVec.getElem_not]
  cases r.toBitVec[i] <;> cases m.toBitVec[i] <;> rfl

/-- The submasks of a byte are the submasks of its value below `2 ^ 8`. -/
theorem card_submasks_byte (m : UInt8) :
    Fintype.card {s : UInt8 // s &&& m = s} = 2 ^ popCount m := by
  have hinj : Function.Injective UInt8.toNat := fun _ _ h => UInt8.toNat.inj h
  have hmap : ((Finset.univ.filter fun s : UInt8 => s &&& m = s).map ⟨UInt8.toNat, hinj⟩) =
      (Finset.range (m.toNat + 1)).filter fun y => y &&& m.toNat = y := by
    ext y
    rw [Finset.mem_map, Finset.mem_filter, Finset.mem_range]
    constructor
    · rintro ⟨s, hs, rfl⟩
      simp only [Function.Embedding.coeFn_mk]
      have hs' : s.toNat &&& m.toNat = s.toNat := by
        rw [← UInt8.toNat_and, (Finset.mem_filter.mp hs).2]
      have hle := Nat.and_le_right (n := s.toNat) (m := m.toNat)
      rw [hs'] at hle
      exact ⟨by omega, hs'⟩
    · rintro ⟨hle, hy⟩
      -- `y` is at most `m`, so it is a byte
      have hy8 : y < UInt8.size := lt_of_lt_of_le (by omega) m.toNat_lt
      refine ⟨UInt8.ofNat y, Finset.mem_filter.mpr ⟨Finset.mem_univ _, ?_⟩, ?_⟩
      · apply UInt8.toNat_inj.mp
        rw [UInt8.toNat_and, UInt8.toNat_ofNat_of_lt' hy8, hy]
      · exact UInt8.toNat_ofNat_of_lt' hy8
  rw [Fintype.card_subtype, ← Finset.card_map, hmap, card_submasks,
    ← popCount_eq_length_bitIndices]

/-! ## Merging under a mask -/

/-- The bits of `a` where `m` is set, and of `r` where it is clear. -/
def merge (a m r : UInt8) : UInt8 := (a &&& m) ||| (r &&& ~~~m)

@[simp] theorem merge_and_mask (a m r : UInt8) : merge a m r &&& m = a &&& m := by
  rw [merge, or_and_distrib, UInt8.and_assoc, UInt8.and_self, UInt8.and_assoc, UInt8.not_and_self,
    UInt8.and_zero, UInt8.or_zero]

@[simp] theorem merge_and_not_mask (a m r : UInt8) : merge a m r &&& ~~~m = r &&& ~~~m := by
  rw [merge, or_and_distrib, UInt8.and_assoc, UInt8.and_not_self, UInt8.and_zero, UInt8.zero_or,
    UInt8.and_assoc, UInt8.and_self]

/-- Under a full mask the merge is `a`. -/
theorem merge_full (a r : UInt8) : merge a 0xff r = a := by
  have hnot : ~~~(0xff : UInt8) = 0 := by decide
  have ha : a &&& 0xff = a := by
    have h := and_or_and_not a 0xff
    rwa [hnot, UInt8.and_zero, UInt8.or_zero] at h
  rw [merge, hnot, UInt8.and_zero, UInt8.or_zero, ha]

/-! ## What a merge comes from -/

section fiber

variable {a m x : UInt8}

/-- A submask of `m`, with the bits of `x` outside `m`, merges to `x`. -/
theorem merge_submask_or {s : UInt8} (hs : s &&& m = s) (hx : x &&& m = a &&& m) :
    merge a m (s ||| (x &&& ~~~m)) = x := by
  have hs0 : s &&& ~~~m = 0 := by
    rw [← hs, UInt8.and_assoc, UInt8.and_not_self, UInt8.and_zero]
  rw [merge, or_and_distrib, hs0, UInt8.zero_or, UInt8.and_assoc, UInt8.and_self, ← hx,
    and_or_and_not]

/-- The values whose merge with `a` under `m` is `x`, one for each submask of `m`: a value is
its bits under `m`, the others being those of `x`. -/
def fiberEquivSubmasks (hx : x &&& m = a &&& m) :
    {r : UInt8 // merge a m r = x} ≃ {s : UInt8 // s &&& m = s} where
  toFun r := ⟨r.1 &&& m, by rw [UInt8.and_assoc, UInt8.and_self]⟩
  invFun s := ⟨s.1 ||| (x &&& ~~~m), merge_submask_or s.2 hx⟩
  left_inv := by
    rintro ⟨r, rfl⟩
    apply Subtype.ext
    dsimp only
    rw [merge_and_not_mask, and_or_and_not]
  right_inv s := by
    apply Subtype.ext
    dsimp only
    rw [or_and_distrib, UInt8.and_assoc, UInt8.not_and_self, UInt8.and_zero, UInt8.or_zero, s.2]

theorem card_merge_fiber (hx : x &&& m = a &&& m) :
    Nat.card {r : UInt8 // merge a m r = x} = 2 ^ popCount m := by
  rw [Nat.card_congr (fiberEquivSubmasks hx), Nat.card_eq_fintype_card, card_submasks_byte]

end fiber

/-- Over a word of bytes the merges are bytewise, so the counts multiply. -/
theorem card_merge_fiber_pi {n : Nat} (a m x : Fin n → UInt8)
    (hx : ∀ i, x i &&& m i = a i &&& m i) :
    Nat.card {r : Fin n → UInt8 // ∀ i, merge (a i) (m i) (r i) = x i} =
      2 ^ ∑ i, popCount (m i) := by
  rw [Nat.card_congr (Equiv.subtypePiEquivPi (β := fun _ => UInt8)
      (p := fun i y => merge (a i) (m i) y = x i)), Nat.card_pi,
    Finset.prod_congr rfl fun i _ => card_merge_fiber (hx i), Finset.prod_pow_eq_pow_sum]

end BitMask
