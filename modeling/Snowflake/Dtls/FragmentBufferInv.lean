import Mathlib
import Snowflake.Lib.Transition
import Snowflake.Dtls.FragmentBuffer
/-
The invariant of the fragment buffer of `dtls/fragment_buffer.go` over every run of `push` and
`pop`, and what `pop` returns.

`FragmentBuffer.Inv` says that the two totals count what the cache holds (its bytes and its
fragments), that the `fragmentsLength` of each message is the sum of its fragments' lengths (so
that the `uint32` sum never wraps), that every fragment sits under its own message sequence and
offset with as many bytes as its header says, that nothing before the current message is held,
and that the buffer stays under `fragmentBufferMaxSize`. A fresh buffer has it and every call
keeps it, `push` also when it fails part way (`FragmentBuffer.inv_of_reachable`). The size bound
comes from the check at the top of `push`: what a record adds is at most its length less the
headers.

From a state with the invariant, the message `pop` returns is the header of its fragment at
offset zero followed by `handshakeLength` bytes, and every fragment held of the message is the
slice of those bytes at its offset (`FragmentBuffer.pop_sound`). The loop of `pop` only follows
the fragments from offset zero, one after the other; that no other fragment disagrees comes from
the lengths: the fragments it joined add up to `fragmentsLength`, which is the sum over all of
them, so any fragment it did not join is empty.
-/

set_option autoImplicit false

namespace Snowflake.Dtls

open Transition

/-! ## The invariant -/

/-- A fragment as `push` stores it under message sequence `seq` and offset `off`. -/
structure Fragment.StoredAt (fr : Fragment) (seq : UInt16) (off : UInt32) : Prop where
  messageSequence_eq : fr.handshakeHeader.messageSequence = seq
  fragmentOffset_eq : fr.handshakeHeader.fragmentOffset = off
  length_data : fr.data.length = fr.handshakeHeader.fragmentLength.toNat
  fits : fr.handshakeHeader.Fits

/-- The bytes held of one message. -/
def Fragments.bytes (frags : Fragments) : Nat :=
  frags.fragmentByOffset.sumBy fun fr => fr.data.length

/-- The number of fragments held of one message, `len(frags.fragmentByOffset)`. -/
def Fragments.count (frags : Fragments) : Nat := frags.fragmentByOffset.entries.length

/-- What holds of the entry of message `seq`. -/
structure Fragments.Inv (seq : UInt16) (frags : Fragments) : Prop where
  stored : ∀ off fr, frags.fragmentByOffset.lookup off = some fr → fr.StoredAt seq off
  fragmentsLength_eq : frags.fragmentsLength.toNat = frags.bytes
  handshakeLength_lt : frags.handshakeLength.toNat < 2 ^ 24

/-- The bytes held of all messages. -/
def FragmentBuffer.bytes (f : FragmentBuffer) : Nat := f.cache.sumBy Fragments.bytes

/-- The number of fragments held of all messages. -/
def FragmentBuffer.count (f : FragmentBuffer) : Nat := f.cache.sumBy Fragments.count

/-- The invariant of the fragment buffer. -/
structure FragmentBuffer.Inv (f : FragmentBuffer) : Prop where
  entry : ∀ seq frags, f.cache.lookup seq = some frags → frags.Inv seq
  current_le : ∀ seq, seq ∈ f.cache → f.currentMessageSequenceNumber ≤ seq
  totalBufferSize_eq : f.totalBufferSize = f.bytes
  totalFragmentCount_eq : f.totalFragmentCount = f.count
  size_lt : f.totalBufferSize < fragmentBufferMaxSize

theorem newFragmentBuffer_inv : newFragmentBuffer.Inv where
  entry seq frags h := by simp [newFragmentBuffer] at h
  current_le seq h := by simp [newFragmentBuffer] at h
  totalBufferSize_eq := by simp [newFragmentBuffer, FragmentBuffer.bytes]
  totalFragmentCount_eq := by simp [newFragmentBuffer, FragmentBuffer.count]
  size_lt := by decide

/-! ## Adding a fragment to a message -/

section Add

variable (frags : Fragments) (fr : Fragment)

@[simp] theorem Fragments.handshakeLength_add : (frags.add fr).handshakeLength = frags.handshakeLength :=
  rfl

theorem Fragments.lookup_add_self :
    (frags.add fr).fragmentByOffset.lookup fr.handshakeHeader.fragmentOffset = some fr :=
  AList.lookup_insert _

theorem Fragments.lookup_add_of_ne {off : UInt32} (h : off ≠ fr.handshakeHeader.fragmentOffset) :
    (frags.add fr).fragmentByOffset.lookup off = frags.fragmentByOffset.lookup off :=
  AList.lookup_insert_ne h

variable {frags fr}

theorem Fragments.bytes_add (h : fr.handshakeHeader.fragmentOffset ∉ frags.fragmentByOffset) :
    (frags.add fr).bytes = fr.data.length + frags.bytes :=
  AList.sumBy_insert_of_notMem _ h fr

theorem Fragments.count_add (h : fr.handshakeHeader.fragmentOffset ∉ frags.fragmentByOffset) :
    (frags.add fr).count = frags.count + 1 := by
  rw [Fragments.count, Fragments.count, Fragments.add, AList.entries_insert_of_notMem h,
    List.length_cons]

/-- Adding a fragment adds its length to `fragmentsLength`, when the sum does not reach
`2 ^ 32`. -/
theorem Fragments.fragmentsLength_add
    (hlen : fr.data.length = fr.handshakeHeader.fragmentLength.toNat)
    (hwrap : frags.fragmentsLength.toNat + fr.data.length < 2 ^ 32) :
    (frags.add fr).fragmentsLength.toNat = frags.fragmentsLength.toNat + fr.data.length := by
  rw [Fragments.add, UInt32.toNat_add, ← hlen, Nat.mod_eq_of_lt hwrap]

/-- A new fragment stored at its own offset keeps the entry's invariant, when the sum of the
lengths does not reach `2 ^ 32`. -/
theorem Fragments.Inv.add {seq : UInt16} (hi : frags.Inv seq)
    (h : fr.handshakeHeader.fragmentOffset ∉ frags.fragmentByOffset)
    (hst : fr.StoredAt seq fr.handshakeHeader.fragmentOffset)
    (hwrap : frags.bytes + fr.data.length < 2 ^ 32) : (frags.add fr).Inv seq where
  stored off fr' hfr' := by
    by_cases hoff : off = fr.handshakeHeader.fragmentOffset
    · subst hoff
      rw [Fragments.lookup_add_self, Option.some.injEq] at hfr'
      subst hfr'
      exact hst
    · rw [Fragments.lookup_add_of_ne frags fr hoff] at hfr'
      exact hi.stored off fr' hfr'
  fragmentsLength_eq := by
    have hfl := hi.fragmentsLength_eq
    rw [Fragments.bytes_add h, Fragments.fragmentsLength_add hst.length_data (by omega), hfl]
    omega
  handshakeLength_lt := hi.handshakeLength_lt

end Add

/-! ## `push` keeps the invariant -/

section Push

variable {f : FragmentBuffer} (rlh : RecordHeader)

/-- The entry a fragment goes to, new or not. -/
theorem FragmentBuffer.Inv.messageFragments (hi : f.Inv) {hh : HandshakeHeader} (hf : hh.Fits) :
    (f.messageFragments hh).Inv hh.messageSequence := by
  unfold FragmentBuffer.messageFragments
  cases h : f.cache.lookup hh.messageSequence with
  | none =>
    refine ⟨fun off fr hfr => ?_, by simp [Fragments.bytes], hf.length_lt⟩
    simp at hfr
  | some frags => exact hi.entry _ _ h

/-- A sum over the cache, with the entry a fragment goes to cut out; a new entry counts zero. -/
theorem FragmentBuffer.sumBy_erase_add_messageFragments (g : Fragments → Nat) (hh : HandshakeHeader)
    (hg : g ⟨∅, 0, hh.length⟩ = 0) :
    (f.cache.erase hh.messageSequence).sumBy g + g (f.messageFragments hh) = f.cache.sumBy g :=
  AList.sumBy_erase_add_getD g f.cache _ hg

/-- Storing a fragment of a message not before the current one keeps the invariant, when the
buffer has room for its bytes. -/
theorem FragmentBuffer.Inv.store (hi : f.Inv) {hh : HandshakeHeader} {data : List UInt8}
    (hseq : f.currentMessageSequenceNumber ≤ hh.messageSequence) (hf : hh.Fits)
    (hlen : data.length = hh.fragmentLength.toNat)
    (hroom : f.totalBufferSize + data.length < fragmentBufferMaxSize) :
    (f.store rlh hh data).Inv := by
  by_cases hmem : hh.fragmentOffset ∈ (f.messageFragments hh).fragmentByOffset
  · rw [f.store_of_mem rlh hmem]
    exact hi
  rw [f.store_of_notMem rlh hmem]
  have hbytes := f.sumBy_erase_add_messageFragments Fragments.bytes hh (by simp [Fragments.bytes])
  have hcount := f.sumBy_erase_add_messageFragments Fragments.count hh rfl
  have htotal := hi.totalBufferSize_eq
  have hnew : ((f.messageFragments hh).add ⟨rlh, hh, data⟩).Inv hh.messageSequence := by
    refine (hi.messageFragments hf).add hmem ⟨rfl, rfl, hlen, hf⟩ ?_
    show (f.messageFragments hh).bytes + data.length < 2 ^ 32
    rw [FragmentBuffer.bytes] at htotal
    have hmax : fragmentBufferMaxSize = 2000000 := rfl
    omega
  refine ⟨fun seq frags h => ?_, fun seq h => ?_, ?_, ?_, ?_⟩
  · by_cases hs : seq = hh.messageSequence
    · subst hs
      rw [AList.lookup_insert, Option.some.injEq] at h
      subst h
      exact hnew
    · rw [AList.lookup_insert_ne hs] at h
      exact hi.entry seq frags h
  · rcases (AList.mem_insert _).mp h with rfl | h
    · exact hseq
    · exact hi.current_le seq h
  · show f.totalBufferSize + _ = ((AList.sumBy _ (f.cache.insert _ _) : Nat) : Int)
    rw [AList.sumBy_insert, Fragments.bytes_add hmem, htotal, FragmentBuffer.bytes, ← hbytes]
    simp only [Nat.cast_add, ← hlen]
    omega
  · show f.totalFragmentCount + 1 = ((AList.sumBy _ (f.cache.insert _ _) : Nat) : Int)
    rw [AList.sumBy_insert, Fragments.count_add hmem, hi.totalFragmentCount_eq,
      FragmentBuffer.count, ← hcount]
    simp only [Nat.cast_add, Nat.cast_one]
    omega
  · show f.totalBufferSize + (hh.fragmentLength.toNat : Int) < fragmentBufferMaxSize
    omega

/-- `store` adds at most the fragment's length to the total. -/
theorem FragmentBuffer.totalBufferSize_store_le (hh : HandshakeHeader) (data : List UInt8) :
    (f.store rlh hh data).totalBufferSize ≤ f.totalBufferSize + hh.fragmentLength.toNat := by
  by_cases hmem : hh.fragmentOffset ∈ (f.messageFragments hh).fragmentByOffset
  · rw [f.store_of_mem rlh hmem]
    omega
  · rw [f.store_of_notMem rlh hmem]

theorem FragmentBuffer.totalBufferSize_bufferFragment_le (hh : HandshakeHeader) (data : List UInt8) :
    (f.bufferFragment rlh hh data).totalBufferSize ≤ f.totalBufferSize + hh.fragmentLength.toNat := by
  unfold FragmentBuffer.bufferFragment
  split_ifs
  · omega
  · exact f.totalBufferSize_store_le rlh hh data

theorem FragmentBuffer.Inv.bufferFragment (hi : f.Inv) {hh : HandshakeHeader} {data : List UInt8}
    (hf : hh.Fits) (hlen : data.length = hh.fragmentLength.toNat)
    (hroom : f.totalBufferSize + data.length < fragmentBufferMaxSize) :
    (f.bufferFragment rlh hh data).Inv := by
  unfold FragmentBuffer.bufferFragment
  split_ifs with hlt
  · exact hi
  · exact hi.store rlh (UInt16.not_lt.mp hlt) hf hlen hroom

/-- The loop of `push` keeps the invariant, when the buffer has room for what is left of the
record; it stops early on an error with what it stored so far. The induction follows the loop:
each fragment takes `end` bytes, of which it stores at most `end - 12`, so the room carries over. -/
theorem FragmentBuffer.Inv.pushFragments {buf : List UInt8} {r : Bool} (hi : f.Inv)
    (hroom : f.totalBufferSize + buf.length < fragmentBufferMaxSize) :
    (f.pushFragments rlh buf r).1.Inv := by
  induction f, buf, r using FragmentBuffer.pushFragments.induct rlh with
  | case1 f r =>
    rw [FragmentBuffer.pushFragments_nil]
    exact hi
  | case2 f buf r hb e hu =>
    rw [f.pushFragments_of_error rlh r hb hu]
    exact hi
  | case3 f buf r hb hh hu hend =>
    rw [f.pushFragments_of_lt rlh r hb hu hend]
    exact hi
  | case4 f buf r hb hh hu hend ih =>
    have hend' : fragmentEnd hh ≤ buf.length := Nat.not_lt.mp hend
    rw [f.pushFragments_of_le rlh r hb hu hend']
    have hf := HandshakeHeader.fits_of_unmarshal hu
    have hE := fragmentEnd_eq hf
    have hdata : ((buf.take (fragmentEnd hh)).drop headerLength).length =
        hh.fragmentLength.toNat := by
      rw [List.length_drop, List.length_take, hE, Nat.min_eq_left (by omega)]
      omega
    have hle := f.totalBufferSize_bufferFragment_le rlh hh ((buf.take (fragmentEnd hh)).drop headerLength)
    refine ih (hi.bufferFragment rlh hf hdata (by rw [hdata]; omega)) ?_
    rw [List.length_drop]
    rw [headerLength] at hE
    omega

/-- `push` keeps the invariant, whatever it returns. -/
theorem FragmentBuffer.Inv.push (hi : f.Inv) (buf : List UInt8) : (f.push buf).1.Inv := by
  rcases f.push_fst_cases buf with h | ⟨hroom, rlh, h⟩
  · rw [h]
    exact hi
  · rw [h]
    refine hi.pushFragments rlh ?_
    rw [List.length_drop]
    rw [FragmentBuffer.size] at hroom
    omega

end Push

/-! ## `pop` keeps the invariant -/

/-- Removing the current message, when it is there, and moving to the next one keeps the
invariant: every message held is after the current one, so after the next one too, also when the
sequence number wraps. -/
theorem FragmentBuffer.Inv.advance {f : FragmentBuffer} (hi : f.Inv) {frags : Fragments}
    (hl : f.cache.lookup f.currentMessageSequenceNumber = some frags) : (f.advance frags).Inv := by
  have hbytes := AList.sumBy_erase_add Fragments.bytes hl
  have hcount := AList.sumBy_erase_add Fragments.count hl
  have hfl := (hi.entry _ _ hl).fragmentsLength_eq
  have htotal := hi.totalBufferSize_eq
  have hsize := hi.size_lt
  refine ⟨fun seq fr h => ?_, fun seq h => ?_, ?_, ?_, ?_⟩
  · by_cases hs : seq = f.currentMessageSequenceNumber
    · subst hs
      rw [FragmentBuffer.advance, AList.lookup_erase] at h
      cases h
    · rw [FragmentBuffer.advance, AList.lookup_erase_ne hs] at h
      exact hi.entry seq fr h
  · obtain ⟨hne, hmem⟩ := AList.mem_erase.mp h
    have hle := hi.current_le seq hmem
    have hlt : f.currentMessageSequenceNumber.toNat < seq.toNat := by
      have hne' : f.currentMessageSequenceNumber.toNat ≠ seq.toNat :=
        fun h' => hne (UInt16.toNat_inj.mp h').symm
      rw [UInt16.le_iff_toNat_le] at hle
      omega
    show f.currentMessageSequenceNumber + 1 ≤ seq
    rw [UInt16.le_iff_toNat_le, UInt16.toNat_add, UInt16.toNat_one]
    have hs := seq.toNat_lt
    omega
  · show f.totalBufferSize - (frags.fragmentsLength.toNat : Int) =
      ((AList.sumBy _ (f.cache.erase _) : Nat) : Int)
    rw [htotal, hfl, FragmentBuffer.bytes, ← hbytes]
    push_cast
    omega
  · show f.totalFragmentCount - (frags.fragmentByOffset.entries.length : Int) =
      ((AList.sumBy _ (f.cache.erase _) : Nat) : Int)
    rw [hi.totalFragmentCount_eq, FragmentBuffer.count, ← hcount, Fragments.count]
    push_cast
    omega
  · show f.totalBufferSize - (frags.fragmentsLength.toNat : Int) < fragmentBufferMaxSize
    omega

theorem FragmentBuffer.Inv.pop {f : FragmentBuffer} (hi : f.Inv) {content : List UInt8}
    {epoch : UInt16} {next : FragmentBuffer} (hp : f.pop = .message content epoch next) : next.Inv := by
  obtain ⟨frags, -, -, hl, -, -, -, -, -, -, rfl⟩ := f.pop_eq_message_iff.mp hp
  exact hi.advance hl

/-! ## Every run -/

/-- The fragment buffer as a transition system: a fresh buffer, then any `push`, whatever it
returns, and any `pop` that returns a message. -/
def fragmentBufferSystem : System FragmentBuffer where
  init f := f = newFragmentBuffer
  step f g := (∃ buf, (f.push buf).1 = g) ∨ ∃ content epoch, f.pop = .message content epoch g

theorem fragmentBufferSystem_inductive : fragmentBufferSystem.Inductive FragmentBuffer.Inv where
  init f h := by
    rw [h]
    exact newFragmentBuffer_inv
  step f g hstep hi := by
    rcases hstep with ⟨buf, rfl⟩ | ⟨content, epoch, hp⟩
    · exact hi.push buf
    · exact hi.pop hp

/-- Every state of the fragment buffer that some run of `push` and `pop` reaches from a fresh
buffer has the invariant. -/
theorem FragmentBuffer.inv_of_reachable {f : FragmentBuffer} (h : fragmentBufferSystem.Reachable f) :
    f.Inv :=
  fragmentBufferSystem_inductive.reachable h

/-- A fresh buffer after a record with the first two bytes of a three-byte message: the push
stores the fragment, and the state it reaches has the invariant. -/
theorem inv_of_reachable_after_push :
    let f := (newFragmentBuffer.push ([22, 0xfe, 0xfd, 0, 0, 0, 0, 0, 0, 0, 1, 0, 14] ++
      HandshakeHeader.marshal ⟨1, 3, 0, 0, 2⟩ ++ [1, 2])).1
    fragmentBufferSystem.Reachable f ∧ f.Inv ∧
      f = newFragmentBuffer.bufferFragment ⟨22, 14, version1_2, 0, 1, []⟩ ⟨1, 3, 0, 0, 2⟩ [1, 2] := by
  intro f
  have hpush := newFragmentBuffer.push_record (⟨22, 14, version1_2, 0, 1, []⟩ : RecordHeader)
    (show RecordHeader.marshal ⟨22, 14, version1_2, 0, 1, []⟩ =
      .ok [22, 0xfe, 0xfd, 0, 0, 0, 0, 0, 0, 0, 1, 0, 14] from rfl)
    rfl rfl (.inr rfl) (show HandshakeHeader.Fits ⟨1, 3, 0, 0, 2⟩ from ⟨by decide, by decide, by decide⟩)
    (show ([1, 2] : List UInt8).length = (2 : UInt32).toNat from rfl) (by decide) (by decide)
  have hr : fragmentBufferSystem.Reachable f := (System.Reachable.of_init rfl).step (.inl ⟨_, rfl⟩)
  exact ⟨hr, FragmentBuffer.inv_of_reachable hr, congrArg Prod.fst hpush⟩

/-! ## What `pop` returns -/

/-- The slice of a list at the end of one of its prefixes. -/
theorem take_drop_of_prefix {raw data body : List UInt8} (h : raw ++ data <+: body) :
    (body.drop raw.length).take data.length = data := by
  obtain ⟨rest, rfl⟩ := h
  rw [List.append_assoc, List.drop_left, List.take_left]

/-- The bytes a fragment adds to a sum over offsets. -/
def Fragments.lengthAt (frags : Fragments) (k : UInt32) : Nat :=
  ((frags.fragmentByOffset.lookup k).map fun fr => fr.data.length).getD 0

/-- What the loop of `pop` joins, from a target as far on as the bytes joined so far: the
offsets of the nonempty fragments it joined, each one after the target and no two the same, with
each of those fragments the slice of the result at its offset, and the result as long as what it
started with and those fragments together. The induction follows the loop, with the target and
the bytes so far generalized; a fragment stored at its own offset moves the target by its
length, so the two stay equal, and an empty one leaves both where they are. -/
theorem Fragments.assemble_sound {frags : Fragments} {seq : UInt16}
    (hst : ∀ off fr, frags.fragmentByOffset.lookup off = some fr → fr.StoredAt seq off)
    (hL : frags.handshakeLength.toNat < 2 ^ 24) {n : Nat} {t : UInt32} {raw body : List UInt8}
    (ht : raw.length = t.toNat) (h : frags.assemble n t raw = some body) :
    ∃ ks : List UInt32, ks.Nodup ∧ (∀ k ∈ ks, t.toNat ≤ k.toNat) ∧
      (∀ k ∈ ks, ∃ fr, frags.fragmentByOffset.lookup k = some fr ∧
        (body.drop k.toNat).take fr.data.length = fr.data) ∧
      body.length = raw.length + (ks.map frags.lengthAt).sum ∧ raw <+: body := by
  induction n, t, raw using Fragments.assemble.induct frags generalizing body with
  | case1 t raw =>
    rw [Fragments.assemble, Option.some.injEq] at h
    subst h
    exact ⟨[], List.nodup_nil, by simp, by simp, by simp, List.prefix_refl _⟩
  | case2 n t raw hlt fr hfr ih =>
    rw [Fragments.assemble, if_pos hlt, hfr] at h
    obtain ⟨-, hoff, hlen, hfits⟩ := hst t fr hfr
    -- the target moves to the fragment's end without wrapping
    have hnext : (fr.handshakeHeader.fragmentOffset + fr.handshakeHeader.fragmentLength).toNat =
        t.toNat + fr.data.length := by
      have hl := hfits.fragmentLength_lt
      have htL : t.toNat < frags.handshakeLength.toNat := UInt32.lt_iff_toNat_lt.mp hlt
      rw [UInt32.toNat_add, hoff, hlen]
      omega
    obtain ⟨ks, hnd, hge, hagree, hsum, hpre⟩ :=
      ih (by rw [List.length_append, ht, hnext]) h
    have hraw : raw <+: body := (List.prefix_append raw fr.data).trans hpre
    by_cases hz : fr.data.length = 0
    · refine ⟨ks, hnd, fun k hk => ?_, hagree, ?_, hraw⟩
      · have := hge k hk
        omega
      · rw [hsum, List.length_append]
        omega
    · have hnot : t ∉ ks := fun hk => by
        have := hge t hk
        omega
      refine ⟨t :: ks, List.nodup_cons.mpr ⟨hnot, hnd⟩, fun k hk => ?_, fun k hk => ?_, ?_, hraw⟩
      · rcases List.mem_cons.mp hk with rfl | hk
        · exact le_refl _
        · have := hge k hk
          omega
      · rcases List.mem_cons.mp hk with rfl | hk
        · refine ⟨fr, hfr, ?_⟩
          rw [← ht]
          exact take_drop_of_prefix hpre
        · exact hagree k hk
      · rw [hsum, List.length_append, List.map_cons, List.sum_cons, Fragments.lengthAt, hfr]
        simp only [Option.map_some, Option.getD_some]
        omega
  | case3 n t raw hlt hnone =>
    rw [Fragments.assemble, if_pos hlt, hnone] at h
    cases h
  | case4 n t raw hge =>
    rw [Fragments.assemble, if_neg hge, Option.some.injEq] at h
    subst h
    exact ⟨[], List.nodup_nil, by simp, by simp, by simp, List.prefix_refl _⟩

/-- What `pop` returns from a state with the invariant: the header of the fragment at offset zero,
made the header of the whole message, followed by `handshakeLength` bytes of which every
fragment held of the message is the slice at its offset; the epoch of that first fragment's
record; and the state without the message, at the next one. -/
theorem FragmentBuffer.pop_sound {f : FragmentBuffer} (hi : f.Inv) {content : List UInt8}
    {epoch : UInt16} {next : FragmentBuffer} (hp : f.pop = .message content epoch next) :
    ∃ frags first body, f.cache.lookup f.currentMessageSequenceNumber = some frags ∧
      frags.fragmentByOffset.lookup 0 = some first ∧
      content = first.handshakeHeader.whole.marshal ++ body ∧
      epoch = first.recordLayerHeader.epoch ∧ body.length = frags.handshakeLength.toNat ∧
      (∀ off fr, frags.fragmentByOffset.lookup off = some fr →
        (body.drop off.toNat).take fr.data.length = fr.data) ∧
      next = f.advance frags := by
  obtain ⟨frags, raw, first, hl, heq, hraw, hlen, hfirst, rfl, rfl, rfl⟩ := f.pop_eq_message_iff.mp hp
  have hfi := hi.entry _ _ hl
  obtain ⟨ks, hnd, -, hagree, hsum, -⟩ :=
    Fragments.assemble_sound hfi.stored hfi.handshakeLength_lt (t := 0) rfl hraw
  -- the fragments joined have all the bytes held of the message
  have hall : (ks.map frags.lengthAt).sum = frags.fragmentByOffset.sumBy fun fr => fr.data.length := by
    rw [← Fragments.bytes, ← hfi.fragmentsLength_eq, heq, hlen, hsum, List.length_nil, Nat.zero_add]
  refine ⟨frags, first, raw, hl, hfirst, rfl, rfl, hlen.symm, fun off fr hfr => ?_, rfl⟩
  by_cases hk : off ∈ ks
  · obtain ⟨fr', hfr', hag⟩ := hagree off hk
    rw [hfr, Option.some.injEq] at hfr'
    subst hfr'
    exact hag
  · have hzero : fr.data.length = 0 := AList.eq_zero_of_sum_lookup_eq_sumBy _ hnd hall hk hfr
    rw [hzero, List.take_zero, List.eq_nil_of_length_eq_zero hzero]

/-- The record of a whole message of three bytes, pushed into a fresh buffer and popped. -/
theorem pop_sound_newFragmentBuffer :
    ∃ (f : FragmentBuffer) (content : List UInt8) (epoch : UInt16) (next : FragmentBuffer),
      f.Inv ∧ f.pop = .message content epoch next ∧
      ∃ frags first body, f.cache.lookup f.currentMessageSequenceNumber = some frags ∧
        frags.fragmentByOffset.lookup 0 = some first ∧
        content = first.handshakeHeader.whole.marshal ++ body ∧
        epoch = first.recordLayerHeader.epoch ∧ body.length = frags.handshakeLength.toNat ∧
        (∀ off fr, frags.fragmentByOffset.lookup off = some fr →
          (body.drop off.toNat).take fr.data.length = fr.data) ∧
        next = f.advance frags := by
  have hp : ∃ content epoch next, (newFragmentBuffer.push ([22, 0xfe, 0xfd, 0, 0, 0, 0, 0, 0, 0, 1, 0, 15] ++
      HandshakeHeader.marshal ⟨1, 3, 0, 0, 3⟩ ++ [1, 2, 3])).1.pop = .message content epoch next := by
    rw [newFragmentBuffer.push_record (⟨22, 15, version1_2, 0, 1, []⟩ : RecordHeader)
      (show RecordHeader.marshal ⟨22, 15, version1_2, 0, 1, []⟩ =
        .ok [22, 0xfe, 0xfd, 0, 0, 0, 0, 0, 0, 0, 1, 0, 15] from rfl)
      rfl rfl (.inr rfl) (show HandshakeHeader.Fits ⟨1, 3, 0, 0, 3⟩ from ⟨by decide, by decide, by decide⟩)
      (show ([1, 2, 3] : List UInt8).length = (3 : UInt32).toNat from rfl) (by decide) (by decide)]
    exact ⟨_, _, _, rfl⟩
  obtain ⟨content, epoch, next, hp⟩ := hp
  have hi := newFragmentBuffer_inv.push ([22, 0xfe, 0xfd, 0, 0, 0, 0, 0, 0, 0, 1, 0, 15] ++
    HandshakeHeader.marshal ⟨1, 3, 0, 0, 3⟩ ++ [1, 2, 3])
  exact ⟨_, content, epoch, next, hi, hp, FragmentBuffer.pop_sound hi hp⟩

/-! ## The nil dereference in `pop` -/

/-- With the target at or past the message length, the loop of `pop` stops at once. -/
theorem Fragments.assemble_of_not_lt {frags : Fragments} {t : UInt32}
    (h : ¬t < frags.handshakeLength) (n : Nat) (raw : List UInt8) :
    frags.assemble n t raw = some raw := by
  cases n with
  | zero => rfl
  | succ n => rw [Fragments.assemble, if_neg h]

/-- `pop` reads through the nil pointer `frags.fragmentByOffset[0]` exactly when the current
message is there, is of length zero by both its counts, and has no fragment at offset zero. -/
theorem FragmentBuffer.pop_eq_nilDereference_iff_empty (f : FragmentBuffer) :
    f.pop = .nilDereference ↔
      ∃ frags, f.cache.lookup f.currentMessageSequenceNumber = some frags ∧
        frags.handshakeLength = 0 ∧ frags.fragmentsLength = 0 ∧
        frags.fragmentByOffset.lookup 0 = none := by
  rw [f.pop_eq_nilDereference_iff]
  constructor
  · rintro ⟨frags, raw, hl, heq, hraw, hlen, h0⟩
    -- a message of some length makes the loop look for the fragment at offset zero first
    have hL : frags.handshakeLength = 0 := by
      by_contra hne
      have hpos : (0 : UInt32) < frags.handshakeLength := by
        rw [UInt32.lt_iff_toNat_lt, UInt32.toNat_zero]
        exact Nat.pos_of_ne_zero fun h => hne (UInt32.toNat_inj.mp h)
      cases hn : frags.fragmentByOffset.entries.length with
      | zero =>
        rw [hn, Fragments.assemble, Option.some.injEq] at hraw
        subst hraw
        exact hne (UInt32.toNat_inj.mp hlen)
      | succ n =>
        rw [hn, Fragments.assemble, if_pos hpos, h0] at hraw
        cases hraw
    exact ⟨frags, hl, hL, heq.trans hL, h0⟩
  · rintro ⟨frags, hl, hL, hfl, h0⟩
    exact ⟨frags, [], hl, hfl.trans hL.symm,
      Fragments.assemble_of_not_lt (by rw [hL]; decide) _ _, by rw [hL]; rfl, h0⟩

/-- A handshake record of 25 bytes, whose one fragment is empty and belongs to the current
message, of which nothing is held: with room, `push` opens the message's entry with it. -/
theorem FragmentBuffer.push_empty_fragment {f : FragmentBuffer} {rlh : RecordHeader}
    {hh : HandshakeHeader} {bytes : List UInt8} (hm : rlh.marshal = .ok bytes)
    (hct : rlh.contentType = contentTypeHandshake) (hcid : rlh.connectionID = [])
    (hv : rlh.version.Accepted) (hseq : hh.messageSequence = f.currentMessageSequenceNumber)
    (hf : hh.Fits) (hfl : hh.fragmentLength = 0) (hnone : f.currentMessageSequenceNumber ∉ f.cache)
    (hroom : f.size + 25 < fragmentBufferMaxSize)
    (hcount : f.totalFragmentCount < fragmentBufferMaxCount) :
    (f.push (bytes ++ hh.marshal)).1.cache.lookup
        (f.push (bytes ++ hh.marshal)).1.currentMessageSequenceNumber =
      some ((⟨∅, 0, hh.length⟩ : Fragments).add ⟨rlh, hh, []⟩) := by
  have hbl := (RecordHeader.marshal_eq_ok hm).2
  rw [RecordHeader.size, hcid, List.length_nil, fixedHeaderSize] at hbl
  have hpush := f.push_record rlh hm hct hcid hv hf
    (show ([] : List UInt8).length = hh.fragmentLength.toNat by rw [hfl]; rfl)
    (by rw [List.length_append, List.length_append, hbl, HandshakeHeader.length_marshal,
      headerLength, List.length_nil]; exact hroom) hcount
  rw [List.append_nil] at hpush
  -- the fragment opens a new entry, the first of its message
  have hmf : f.messageFragments hh = ⟨∅, 0, hh.length⟩ := by
    rw [FragmentBuffer.messageFragments, hseq, AList.lookup_eq_none.mpr hnone, Option.getD_none]
  have hnotmem : hh.fragmentOffset ∉ (f.messageFragments hh).fragmentByOffset := by
    rw [hmf]
    exact AList.notMem_empty _
  rw [hpush, f.bufferFragment_of_le rlh (by rw [hseq]; exact UInt16.le_refl _),
    f.store_of_notMem rlh hnotmem, hmf]
  show (f.cache.insert hh.messageSequence _).lookup f.currentMessageSequenceNumber = _
  rw [hseq, AList.lookup_insert]

/-- One record from the peer makes the next `pop` read through the nil pointer: a handshake
record, of an accepted version and without a connection ID, whose one fragment belongs to the
current message, has message length and fragment length zero and an offset other than zero,
pushed into any state that holds nothing of the current message and has room for it. -/
theorem FragmentBuffer.pop_push_nilDereference {f : FragmentBuffer} {rlh : RecordHeader}
    {hh : HandshakeHeader} {bytes : List UInt8} (hm : rlh.marshal = .ok bytes)
    (hct : rlh.contentType = contentTypeHandshake) (hcid : rlh.connectionID = [])
    (hv : rlh.version.Accepted) (hseq : hh.messageSequence = f.currentMessageSequenceNumber)
    (hlen : hh.length = 0) (hfl : hh.fragmentLength = 0) (hoff : hh.fragmentOffset ≠ 0)
    (hoffLt : hh.fragmentOffset.toNat < 2 ^ 24) (hnone : f.currentMessageSequenceNumber ∉ f.cache)
    (hroom : f.size + 25 < fragmentBufferMaxSize)
    (hcount : f.totalFragmentCount < fragmentBufferMaxCount) :
    (f.push (bytes ++ hh.marshal)).1.pop = .nilDereference := by
  have hf : hh.Fits := ⟨by rw [hlen]; decide, hoffLt, by rw [hfl]; decide⟩
  have hl := FragmentBuffer.push_empty_fragment hm hct hcid hv hseq hf hfl hnone hroom hcount
  -- the new entry is complete at length zero, and has nothing at offset zero
  refine (FragmentBuffer.pop_eq_nilDereference_iff_empty _).mpr ⟨_, hl, ?_, ?_, ?_⟩
  · rw [Fragments.handshakeLength_add]
    exact hlen
  · show (0 : UInt32) + hh.fragmentLength = 0
    rw [hfl]
    rfl
  · rw [Fragments.lookup_add_of_ne _ _ (Ne.symm hoff)]
    exact AList.lookup_empty _

/-- The 25 bytes of such a record, pushed into a fresh buffer. -/
theorem pop_push_nilDereference_newFragmentBuffer :
    (newFragmentBuffer.push ([22, 0xfe, 0xfd, 0, 0, 0, 0, 0, 0, 0, 0, 0, 12] ++
      [1, 0, 0, 0, 0, 0, 0, 0, 1, 0, 0, 0])).1.pop = .nilDereference := by
  have h := FragmentBuffer.pop_push_nilDereference
    (show RecordHeader.marshal ⟨22, 12, version1_2, 0, 0, []⟩ =
      .ok [22, 0xfe, 0xfd, 0, 0, 0, 0, 0, 0, 0, 0, 0, 12] from rfl) rfl rfl (.inr rfl)
    (show HandshakeHeader.messageSequence ⟨1, 0, 0, 1, 0⟩ =
      newFragmentBuffer.currentMessageSequenceNumber from rfl)
    rfl rfl (by decide) (by decide) (AList.notMem_empty _) (by decide) (by decide)
  exact h

/-! ## A message that is never popped -/

/-- The current message claims some bytes and holds at offset zero an empty fragment of length
zero, where the loop of `pop` stays. -/
def FragmentBuffer.Stuck (f : FragmentBuffer) : Prop :=
  ∃ frags fr, f.cache.lookup f.currentMessageSequenceNumber = some frags ∧
    frags.handshakeLength ≠ 0 ∧ frags.fragmentByOffset.lookup 0 = some fr ∧
    fr.handshakeHeader.fragmentOffset = 0 ∧ fr.handshakeHeader.fragmentLength = 0 ∧ fr.data = []

/-- At such a fragment the loop of `pop` joins nothing, however many rounds it has. -/
theorem Fragments.assemble_stuck {frags : Fragments} {fr : Fragment}
    (h0 : frags.fragmentByOffset.lookup 0 = some fr) (hoff : fr.handshakeHeader.fragmentOffset = 0)
    (hfl : fr.handshakeHeader.fragmentLength = 0) (hdata : fr.data = []) (n : Nat) :
    frags.assemble n 0 [] = some [] := by
  induction n with
  | zero => rfl
  | succ n ih =>
    rw [Fragments.assemble]
    split_ifs
    · rw [h0]
      dsimp only
      rw [hoff, hfl, hdata, List.append_nil, show (0 : UInt32) + 0 = 0 from rfl]
      exact ih
    · rfl

theorem FragmentBuffer.Stuck.pop_eq_none {f : FragmentBuffer} (h : f.Stuck) : f.pop = .none := by
  obtain ⟨frags, fr, hl, hL, h0, hoff, hfl, hdata⟩ := h
  cases hp : f.pop with
  | none => rfl
  | message content epoch next =>
    -- the loop joins no bytes, and the message has some
    obtain ⟨frags', raw, -, hl', -, hraw, hlen, -⟩ := f.pop_eq_message_iff.mp hp
    rw [hl, Option.some.injEq] at hl'
    subst hl'
    rw [Fragments.assemble_stuck h0 hoff hfl hdata, Option.some.injEq] at hraw
    subst hraw
    exact absurd (UInt32.toNat_inj.mp hlen) hL
  | nilDereference =>
    obtain ⟨frags', hl', hL', -⟩ := (f.pop_eq_nilDereference_iff_empty).mp hp
    rw [hl, Option.some.injEq] at hl'
    subst hl'
    exact absurd hL' hL

/-- A fragment stored later never takes offset zero of the current message, nor changes its
length. -/
theorem FragmentBuffer.Stuck.store {f : FragmentBuffer} (h : f.Stuck) (rlh : RecordHeader)
    (hh : HandshakeHeader) (data : List UInt8) : (f.store rlh hh data).Stuck := by
  by_cases hmem : hh.fragmentOffset ∈ (f.messageFragments hh).fragmentByOffset
  · rw [f.store_of_mem rlh hmem]
    exact h
  obtain ⟨frags, fr, hl, hL, h0, hoff, hfl, hdata⟩ := h
  rw [f.store_of_notMem rlh hmem]
  by_cases hs : hh.messageSequence = f.currentMessageSequenceNumber
  · -- a fragment of the current message, so at an offset other than zero
    have hmf : f.messageFragments hh = frags := by
      rw [FragmentBuffer.messageFragments, hs, hl, Option.getD_some]
    rw [hmf] at hmem ⊢
    have hne : (0 : UInt32) ≠ hh.fragmentOffset := fun h' =>
      hmem (h' ▸ AList.lookup_isSome.mp (by rw [h0]; rfl))
    refine ⟨frags.add ⟨rlh, hh, data⟩, fr, ?_, ?_, ?_, hoff, hfl, hdata⟩
    · show (f.cache.insert _ _).lookup f.currentMessageSequenceNumber = _
      rw [← hs, AList.lookup_insert]
    · rw [Fragments.handshakeLength_add]
      exact hL
    · rw [Fragments.lookup_add_of_ne _ _ hne]
      exact h0
  · refine ⟨frags, fr, ?_, hL, h0, hoff, hfl, hdata⟩
    show (f.cache.insert _ _).lookup f.currentMessageSequenceNumber = _
    rw [AList.lookup_insert_ne (Ne.symm hs)]
    exact hl

/-- Every `push` keeps the current message stuck. The induction follows the loop of `push`. -/
theorem FragmentBuffer.Stuck.push {f : FragmentBuffer} (h : f.Stuck) (buf : List UInt8) :
    (f.push buf).1.Stuck := by
  have hloop : ∀ (rlh : RecordHeader) (g : FragmentBuffer) (rest : List UInt8) (r : Bool), g.Stuck →
      (g.pushFragments rlh rest r).1.Stuck := by
    intro rlh g rest r
    induction g, rest, r using FragmentBuffer.pushFragments.induct rlh with
    | case1 g r =>
      intro hg
      rw [FragmentBuffer.pushFragments_nil]
      exact hg
    | case2 g rest r hb e hu =>
      intro hg
      rw [g.pushFragments_of_error rlh r hb hu]
      exact hg
    | case3 g rest r hb hh hu hend =>
      intro hg
      rw [g.pushFragments_of_lt rlh r hb hu hend]
      exact hg
    | case4 g rest r hb hh hu hend ih =>
      intro hg
      rw [g.pushFragments_of_le rlh r hb hu (Nat.not_lt.mp hend)]
      refine ih ?_
      unfold FragmentBuffer.bufferFragment
      split_ifs
      · exact hg
      · exact hg.store rlh hh _
  rcases f.push_fst_cases buf with he | ⟨-, rlh, he⟩
  · rw [he]
    exact h
  · rw [he]
    exact hloop rlh f _ false h

/-- Once the current message is stuck, no record ever yields a message. -/
theorem FragmentBuffer.Stuck.handleRecords {f : FragmentBuffer} (h : f.Stuck) (ds : List (List UInt8)) :
    ∃ g, f.handleRecords ds = some ([], g) ∧ g.Stuck := by
  induction ds generalizing f with
  | nil => exact ⟨f, rfl, h⟩
  | cons buf ds ih =>
    have hp := h.push buf
    obtain ⟨g, hrun, hg⟩ := ih hp
    exact ⟨g, by rw [f.handleRecords_cons (f.handleRecord_of_pop_none hp.pop_eq_none), hrun]; rfl, hg⟩

/-- One record from the peer blocks its message for good: a handshake record, of an accepted
version and without a connection ID, whose one fragment belongs to the current message, has a
message length other than zero and a fragment length of zero at offset zero, into any state that
holds nothing of the current message and has room for it. After it, whatever records follow,
the fragments that do arrive included, the buffer never yields a message: `pop` stays at offset
zero, and no later fragment can replace the one there. -/
theorem FragmentBuffer.handleRecords_zero_fragment {f : FragmentBuffer} {rlh : RecordHeader}
    {hh : HandshakeHeader} {bytes : List UInt8} (hm : rlh.marshal = .ok bytes)
    (hct : rlh.contentType = contentTypeHandshake) (hcid : rlh.connectionID = [])
    (hv : rlh.version.Accepted) (hseq : hh.messageSequence = f.currentMessageSequenceNumber)
    (hlen : hh.length ≠ 0) (hlenLt : hh.length.toNat < 2 ^ 24) (hoff : hh.fragmentOffset = 0)
    (hfl : hh.fragmentLength = 0) (hnone : f.currentMessageSequenceNumber ∉ f.cache)
    (hroom : f.size + 25 < fragmentBufferMaxSize)
    (hcount : f.totalFragmentCount < fragmentBufferMaxCount) (ds : List (List UInt8)) :
    ∃ g, f.handleRecords ((bytes ++ hh.marshal) :: ds) = some ([], g) := by
  have hf : hh.Fits := ⟨hlenLt, by rw [hoff]; decide, by rw [hfl]; decide⟩
  have hl := FragmentBuffer.push_empty_fragment hm hct hcid hv hseq hf hfl hnone hroom hcount
  -- the new entry is not empty, and holds the empty fragment at offset zero
  have hstuck : (f.push (bytes ++ hh.marshal)).1.Stuck := by
    refine ⟨_, ⟨rlh, hh, []⟩, hl, ?_, ?_, hoff, hfl, rfl⟩
    · rw [Fragments.handshakeLength_add]
      exact hlen
    · rw [← hoff]
      exact Fragments.lookup_add_self _ _
  obtain ⟨g, hrun, -⟩ := hstuck.handleRecords ds
  exact ⟨g, by rw [f.handleRecords_cons (f.handleRecord_of_pop_none hstuck.pop_eq_none), hrun]; rfl⟩

/-- The 25 bytes of such a record into a fresh buffer, then the one record of the whole message
of three bytes that it claims. -/
theorem handleRecords_zero_fragment_newFragmentBuffer :
    ∃ g, newFragmentBuffer.handleRecords
      [[22, 0xfe, 0xfd, 0, 0, 0, 0, 0, 0, 0, 0, 0, 12] ++ [1, 0, 0, 3, 0, 0, 0, 0, 0, 0, 0, 0],
        [22, 0xfe, 0xfd, 0, 0, 0, 0, 0, 0, 0, 1, 0, 15, 1, 0, 0, 3, 0, 0, 0, 0, 0, 0, 0, 3, 1, 2, 3]] =
      some ([], g) := by
  have h := FragmentBuffer.handleRecords_zero_fragment
    (show RecordHeader.marshal ⟨22, 12, version1_2, 0, 0, []⟩ =
      .ok [22, 0xfe, 0xfd, 0, 0, 0, 0, 0, 0, 0, 0, 0, 12] from rfl) rfl rfl (.inr rfl)
    (show HandshakeHeader.messageSequence ⟨1, 3, 0, 0, 0⟩ =
      newFragmentBuffer.currentMessageSequenceNumber from rfl)
    (by decide) (by decide) rfl rfl (AList.notMem_empty _) (by decide) (by decide)
    [[22, 0xfe, 0xfd, 0, 0, 0, 0, 0, 0, 0, 1, 0, 15, 1, 0, 0, 3, 0, 0, 0, 0, 0, 0, 0, 3, 1, 2, 3]]
  exact h

end Snowflake.Dtls
