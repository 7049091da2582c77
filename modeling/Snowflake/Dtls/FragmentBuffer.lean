import Mathlib
import Snowflake.Lib.AListSum
import Snowflake.Dtls.Header
/-
The fragment buffer of `dtls/fragment_buffer.go`, where a DTLS connection puts the handshake
fragments it receives until each message can be put back together, and the loop of
`handleIncomingPacket` (`dtls/conn.go`) that pushes a record into it and pops what is complete.

## The model

The buffer is a state record. A Go map is an association list (Mathlib's `AList`, one entry per
key), and a `*fragments` in the cache is its value: writing through the pointer is an `insert`
of the changed value under its key. The `int` totals are integers; the `uint32` and `uint16`
fields are `UInt32` and `UInt16`, so that `fragmentsLength += ...` and
`currentMessageSequenceNumber++` wrap as in Go. `push` returns the state with its three
results, also when it fails part way: the fragments of the record stored before the failing one
stay, and `handleIncomingPacket` discards the error and keeps the buffer. `pop` has three
outcomes: nil, a message and its epoch with the state after it, or the nil dereference of
`frags.fragmentByOffset[0]` when the message is complete by its lengths and has no fragment at
offset zero, which is a runtime panic of the connection's read loop.

The main results over this model are in `FragmentBufferInv` (the invariant over every run and
what `pop` returns) and `Fragmentation` (a message fragmented by the sender comes out whole,
once, whatever order its records arrive in).
-/

set_option autoImplicit false

namespace Snowflake.Dtls

/-- `fragmentBufferMaxSize`, two megabytes. -/
def fragmentBufferMaxSize : Int := 2000000

/-- `fragmentBufferMaxCount`. -/
def fragmentBufferMaxCount : Int := 1000

/-- `fragment`: the bytes of one handshake fragment, without its headers, and the headers it
came with. -/
structure Fragment where
  recordLayerHeader : RecordHeader
  handshakeHeader : HandshakeHeader
  data : List UInt8
  deriving DecidableEq

/-- `fragments`: what the buffer holds of one handshake message, by fragment offset. -/
structure Fragments where
  fragmentByOffset : AList (fun _ : UInt32 => Fragment)
  fragmentsLength : UInt32
  handshakeLength : UInt32

/-- `fragmentBuffer`. -/
structure FragmentBuffer where
  cache : AList (fun _ : UInt16 => Fragments)
  currentMessageSequenceNumber : UInt16
  totalBufferSize : Int
  totalFragmentCount : Int

/-- `newFragmentBuffer`. -/
def newFragmentBuffer : FragmentBuffer := ⟨∅, 0, 0, 0⟩

/-- `fragmentBuffer.size`. -/
def FragmentBuffer.size (f : FragmentBuffer) : Int := f.totalBufferSize

/-! ## `push` -/

/-- `end`: where a fragment's bytes stop, `handshake.HeaderLength + FragmentLength` computed as
a `uint32`. -/
def fragmentEnd (hh : HandshakeHeader) : Nat := (UInt32.ofNat headerLength + hh.fragmentLength).toNat

/-- The `isRetransmit` of a fragment: the start of a message already assembled. -/
def FragmentBuffer.isRetransmit (f : FragmentBuffer) (hh : HandshakeHeader) : Bool :=
  hh.fragmentOffset == 0 && decide (hh.messageSequence < f.currentMessageSequenceNumber)

/-- `messageFragments`: the entry of the fragment's message, or the empty one `push` makes for
it with the fragment's message length. -/
def FragmentBuffer.messageFragments (f : FragmentBuffer) (hh : HandshakeHeader) : Fragments :=
  (f.cache.lookup hh.messageSequence).getD ⟨∅, 0, hh.length⟩

/-- `messageFragments.fragmentByOffset[FragmentOffset] = frag` and
`messageFragments.fragmentsLength += FragmentLength`. -/
def Fragments.add (frags : Fragments) (frag : Fragment) : Fragments :=
  { frags with
    fragmentByOffset := frags.fragmentByOffset.insert frag.handshakeHeader.fragmentOffset frag
    fragmentsLength := frags.fragmentsLength + frag.handshakeHeader.fragmentLength }

/-- The end of `push`'s loop body for a fragment of a message not yet assembled: the fragment is
kept, and counted, unless one with its offset is already there. When it is, the entry existed
before, so the write of a new entry into the cache did not happen either. -/
def FragmentBuffer.store (f : FragmentBuffer) (rlh : RecordHeader) (hh : HandshakeHeader)
    (data : List UInt8) : FragmentBuffer :=
  if hh.fragmentOffset ∈ (f.messageFragments hh).fragmentByOffset then f
  else
    { f with
      cache := f.cache.insert hh.messageSequence ((f.messageFragments hh).add ⟨rlh, hh, data⟩)
      totalBufferSize := f.totalBufferSize + hh.fragmentLength.toNat
      totalFragmentCount := f.totalFragmentCount + 1 }

/-- One fragment that passed the length check: skipped when its message was already assembled
(the `continue`), stored otherwise. Both branches then go on after `end`. -/
def FragmentBuffer.bufferFragment (f : FragmentBuffer) (rlh : RecordHeader) (hh : HandshakeHeader)
    (data : List UInt8) : FragmentBuffer :=
  if hh.messageSequence < f.currentMessageSequenceNumber then f else f.store rlh hh data

/-- The `uint32` end does not wrap for a header that fits the wire. -/
theorem fragmentEnd_eq {hh : HandshakeHeader} (hf : hh.Fits) :
    fragmentEnd hh = headerLength + hh.fragmentLength.toNat := by
  have hlt := hf.fragmentLength_lt
  rw [fragmentEnd, UInt32.toNat_add, UInt32.toNat_ofNat', headerLength]
  omega

/-- The loop of `push` over the handshake fragments of one record, from the bytes `buf` not
read yet; `isRetransmit` is the flag of the fragment before. -/
def FragmentBuffer.pushFragments (rlh : RecordHeader) (f : FragmentBuffer) (buf : List UInt8)
    (isRetransmit : Bool) : FragmentBuffer × Except Error Bool :=
  if buf = [] then (f, .ok isRetransmit)
  else
    match _hu : HandshakeHeader.unmarshal buf with
    | .error e => (f, .error e)
    | .ok hh =>
      if fragmentEnd hh > buf.length then (f, .error .bufferTooSmall)
      else
        FragmentBuffer.pushFragments rlh
          (f.bufferFragment rlh hh ((buf.take (fragmentEnd hh)).drop headerLength))
          (buf.drop (fragmentEnd hh)) (f.isRetransmit hh)
termination_by buf.length
decreasing_by
  have hend := fragmentEnd_eq (HandshakeHeader.fits_of_unmarshal _hu)
  have hpos : 0 < buf.length := List.length_pos_of_ne_nil ‹_›
  rw [List.length_drop, hend, headerLength]
  omega

/-- `fragmentBuffer.push`: the state after it, and `(isHandshake, isRetransmit)` or the error.
The record header is read by a fresh `recordlayer.Header`, whose connection ID is empty. -/
def FragmentBuffer.push (f : FragmentBuffer) (buf : List UInt8) :
    FragmentBuffer × Except Error (Bool × Bool) :=
  if f.size + buf.length ≥ fragmentBufferMaxSize ∨ f.totalFragmentCount ≥ fragmentBufferMaxCount then
    (f, .error .fragmentBufferOverflow)
  else
    match RecordHeader.unmarshal 0 buf with
    | .error e => (f, .error e)
    | .ok rlh =>
      if rlh.contentType ≠ contentTypeHandshake then (f, .ok (false, false))
      else
        ((f.pushFragments rlh (buf.drop fixedHeaderSize) false).1,
          (f.pushFragments rlh (buf.drop fixedHeaderSize) false).2.map fun r => (true, r))

/-! ## `pop` -/

/-- The loop of `pop` with `rounds` rounds left before `i` reaches `len(frags.fragmentByOffset)`:
the fragment at `targetOffset` is appended and the target moves to where it ends, until the
target reaches the message length; `none` where no fragment starts at the target. -/
def Fragments.assemble (frags : Fragments) : Nat → UInt32 → List UInt8 → Option (List UInt8)
  | 0, _, rawMessage => some rawMessage
  | rounds + 1, targetOffset, rawMessage =>
    if targetOffset < frags.handshakeLength then
      match frags.fragmentByOffset.lookup targetOffset with
      | some frag =>
        frags.assemble rounds
          (frag.handshakeHeader.fragmentOffset + frag.handshakeHeader.fragmentLength)
          (rawMessage ++ frag.data)
      | none => none
    else some rawMessage

/-- `firstHeader`: the header of the fragment at offset zero, made the header of the whole
message. -/
def HandshakeHeader.whole (h : HandshakeHeader) : HandshakeHeader :=
  { h with fragmentOffset := 0, fragmentLength := h.length }

/-- The state `pop` leaves after it returns the current message, whose entry is `frags`. -/
def FragmentBuffer.advance (f : FragmentBuffer) (frags : Fragments) : FragmentBuffer where
  cache := f.cache.erase f.currentMessageSequenceNumber
  currentMessageSequenceNumber := f.currentMessageSequenceNumber + 1
  totalBufferSize := f.totalBufferSize - frags.fragmentsLength.toNat
  totalFragmentCount := f.totalFragmentCount - frags.fragmentByOffset.entries.length

/-- What `pop` does. -/
inductive Popped
  /-- `return nil, 0`; the state is unchanged. -/
  | none
  /-- The message, its epoch, and the state after it. -/
  | message (content : List UInt8) (epoch : UInt16) (next : FragmentBuffer)
  /-- `frags.fragmentByOffset[0]` is nil and its `handshakeHeader` is read: a runtime panic. -/
  | nilDereference

/-- `fragmentBuffer.pop`. -/
def FragmentBuffer.pop (f : FragmentBuffer) : Popped :=
  match f.cache.lookup f.currentMessageSequenceNumber with
  | none => .none
  | some frags =>
    if frags.fragmentsLength ≠ frags.handshakeLength then .none
    else
      match frags.assemble frags.fragmentByOffset.entries.length 0 [] with
      | none => .none
      | some rawMessage =>
        if frags.handshakeLength.toNat ≠ rawMessage.length then .none
        else
          match frags.fragmentByOffset.lookup 0 with
          | none => .nilDereference
          | some first =>
            .message (first.handshakeHeader.whole.marshal ++ rawMessage)
              first.recordLayerHeader.epoch (f.advance frags)

/-! ## What one call does

One lemma per branch of each function, so that the proofs about runs never unfold them. -/

section Calls

variable (rlh : RecordHeader) (f : FragmentBuffer) {buf : List UInt8} (r : Bool)

@[simp] theorem FragmentBuffer.pushFragments_nil : f.pushFragments rlh [] r = (f, .ok r) := by
  rw [FragmentBuffer.pushFragments, if_pos rfl]

theorem FragmentBuffer.pushFragments_of_error (hb : buf ≠ []) {e : Error}
    (hu : HandshakeHeader.unmarshal buf = .error e) : f.pushFragments rlh buf r = (f, .error e) := by
  rw [FragmentBuffer.pushFragments, if_neg hb]
  split
  · rename_i e' he'
    rw [hu] at he'
    cases he'
    rfl
  · rename_i hh' hh'
    rw [hu] at hh'
    cases hh'

/-- At a fragment header it reads, the loop checks that the fragment fits in what is left. -/
theorem FragmentBuffer.pushFragments_of_ok (hb : buf ≠ []) {hh : HandshakeHeader}
    (hu : HandshakeHeader.unmarshal buf = .ok hh) :
    f.pushFragments rlh buf r =
      if fragmentEnd hh > buf.length then (f, .error .bufferTooSmall)
      else
        (f.bufferFragment rlh hh ((buf.take (fragmentEnd hh)).drop headerLength)).pushFragments rlh
          (buf.drop (fragmentEnd hh)) (f.isRetransmit hh) := by
  rw [FragmentBuffer.pushFragments, if_neg hb]
  split
  · rename_i e' he'
    rw [hu] at he'
    cases he'
  · rename_i hh' hh'eq
    rw [hu] at hh'eq
    cases hh'eq
    rfl

theorem FragmentBuffer.pushFragments_of_lt (hb : buf ≠ []) {hh : HandshakeHeader}
    (hu : HandshakeHeader.unmarshal buf = .ok hh) (hend : buf.length < fragmentEnd hh) :
    f.pushFragments rlh buf r = (f, .error .bufferTooSmall) := by
  rw [f.pushFragments_of_ok rlh r hb hu, if_pos hend]

/-- A fragment that fits in what is left is buffered, and the loop goes on after it. -/
theorem FragmentBuffer.pushFragments_of_le (hb : buf ≠ []) {hh : HandshakeHeader}
    (hu : HandshakeHeader.unmarshal buf = .ok hh) (hend : fragmentEnd hh ≤ buf.length) :
    f.pushFragments rlh buf r =
      (f.bufferFragment rlh hh ((buf.take (fragmentEnd hh)).drop headerLength)).pushFragments rlh
        (buf.drop (fragmentEnd hh)) (f.isRetransmit hh) := by
  rw [f.pushFragments_of_ok rlh r hb hu, if_neg (Nat.not_lt.mpr hend)]

theorem FragmentBuffer.store_of_mem {hh : HandshakeHeader} {data : List UInt8}
    (h : hh.fragmentOffset ∈ (f.messageFragments hh).fragmentByOffset) :
    f.store rlh hh data = f := by
  rw [FragmentBuffer.store, if_pos h]

theorem FragmentBuffer.store_of_notMem {hh : HandshakeHeader} {data : List UInt8}
    (h : hh.fragmentOffset ∉ (f.messageFragments hh).fragmentByOffset) :
    f.store rlh hh data =
      { f with
        cache := f.cache.insert hh.messageSequence ((f.messageFragments hh).add ⟨rlh, hh, data⟩)
        totalBufferSize := f.totalBufferSize + hh.fragmentLength.toNat
        totalFragmentCount := f.totalFragmentCount + 1 } := by
  rw [FragmentBuffer.store, if_neg h]

theorem FragmentBuffer.bufferFragment_of_lt {hh : HandshakeHeader} {data : List UInt8}
    (h : hh.messageSequence < f.currentMessageSequenceNumber) : f.bufferFragment rlh hh data = f := by
  rw [FragmentBuffer.bufferFragment, if_pos h]

theorem FragmentBuffer.bufferFragment_of_le {hh : HandshakeHeader} {data : List UInt8}
    (h : f.currentMessageSequenceNumber ≤ hh.messageSequence) :
    f.bufferFragment rlh hh data = f.store rlh hh data := by
  rw [FragmentBuffer.bufferFragment, if_neg (UInt16.not_lt.mpr h)]

@[simp] theorem FragmentBuffer.currentMessageSequenceNumber_store (hh : HandshakeHeader)
    (data : List UInt8) :
    (f.store rlh hh data).currentMessageSequenceNumber = f.currentMessageSequenceNumber := by
  unfold FragmentBuffer.store
  split_ifs <;> rfl

@[simp] theorem FragmentBuffer.currentMessageSequenceNumber_bufferFragment (hh : HandshakeHeader)
    (data : List UInt8) :
    (f.bufferFragment rlh hh data).currentMessageSequenceNumber = f.currentMessageSequenceNumber := by
  unfold FragmentBuffer.bufferFragment
  split_ifs
  · rfl
  · exact FragmentBuffer.currentMessageSequenceNumber_store rlh f hh data

/-- `store` writes only the entry of the fragment's message. -/
theorem FragmentBuffer.mem_cache_store {hh : HandshakeHeader} {data : List UInt8} {x : UInt16}
    (h : x ∈ (f.store rlh hh data).cache) : x = hh.messageSequence ∨ x ∈ f.cache := by
  unfold FragmentBuffer.store at h
  split_ifs at h
  · exact .inr h
  · exact (AList.mem_insert _).mp h

/-- `push` refuses a record when the buffer is full by its size or its count. -/
theorem FragmentBuffer.push_of_overflow
    (h : f.size + buf.length ≥ fragmentBufferMaxSize ∨
      f.totalFragmentCount ≥ fragmentBufferMaxCount) :
    f.push buf = (f, .error .fragmentBufferOverflow) := by
  rw [FragmentBuffer.push, if_pos h]

/-- A handshake record with room for it goes to the loop over its fragments. -/
theorem FragmentBuffer.push_of_handshake (hroom : f.size + buf.length < fragmentBufferMaxSize)
    (hcount : f.totalFragmentCount < fragmentBufferMaxCount)
    (hu : RecordHeader.unmarshal 0 buf = .ok rlh) (ht : rlh.contentType = contentTypeHandshake) :
    f.push buf = ((f.pushFragments rlh (buf.drop fixedHeaderSize) false).1,
      (f.pushFragments rlh (buf.drop fixedHeaderSize) false).2.map fun r => (true, r)) := by
  have hfit : ¬(f.size + buf.length ≥ fragmentBufferMaxSize ∨
      f.totalFragmentCount ≥ fragmentBufferMaxCount) := by omega
  rw [FragmentBuffer.push, if_neg hfit, hu]
  simp only [ht, ne_eq, not_true_eq_false, if_false]

/-- A handshake record of one fragment: a record header with an accepted version and no
connection ID, then a handshake header that fits the wire and as many bytes as it says. With
room for it, `push` buffers the fragment. -/
theorem FragmentBuffer.push_record {hh : HandshakeHeader} {bytes data : List UInt8}
    (hm : rlh.marshal = .ok bytes) (hct : rlh.contentType = contentTypeHandshake)
    (hcid : rlh.connectionID = []) (hv : rlh.version.Accepted) (hf : hh.Fits)
    (hlen : data.length = hh.fragmentLength.toNat)
    (hroom : f.size + (bytes ++ hh.marshal ++ data).length < fragmentBufferMaxSize)
    (hcount : f.totalFragmentCount < fragmentBufferMaxCount) :
    f.push (bytes ++ hh.marshal ++ data) =
      (f.bufferFragment rlh hh data, .ok (true, f.isRetransmit hh)) := by
  have hbl := (RecordHeader.marshal_eq_ok hm).2
  have hu := RecordHeader.unmarshal_of_marshal_eq_ok hm hcid hv (hh.marshal ++ data)
  rw [← List.append_assoc] at hu
  rw [f.push_of_handshake rlh hroom hcount hu hct]
  -- the record header is `Header.Size` bytes, and the one fragment is all that follows it
  have hdrop : (bytes ++ hh.marshal ++ data).drop fixedHeaderSize = hh.marshal ++ data := by
    rw [List.append_assoc]
    apply List.drop_left'
    rw [hbl, RecordHeader.size, hcid, List.length_nil, Nat.add_zero]
  have hE : fragmentEnd hh = (hh.marshal ++ data).length := by
    rw [fragmentEnd_eq hf, List.length_append, HandshakeHeader.length_marshal, hlen]
  have hne : hh.marshal ++ data ≠ [] := by
    apply List.ne_nil_of_length_pos
    rw [← hE, fragmentEnd_eq hf, headerLength]
    omega
  rw [hdrop, f.pushFragments_of_le rlh false hne (HandshakeHeader.unmarshal_marshal hf data)
    (le_of_eq hE), hE, List.take_length, List.drop_length,
    List.drop_left' (HandshakeHeader.length_marshal hh), FragmentBuffer.pushFragments_nil]
  rfl

/-- The state after `push`: unchanged, or what the loop over the fragments of a handshake
record left, with room for all the bytes after the record header. -/
theorem FragmentBuffer.push_fst_cases (buf : List UInt8) :
    (f.push buf).1 = f ∨ (f.size + buf.length < fragmentBufferMaxSize ∧
      ∃ rlh : RecordHeader, (f.push buf).1 = (f.pushFragments rlh (buf.drop fixedHeaderSize) false).1) := by
  unfold FragmentBuffer.push
  split_ifs with hfull
  · exact .inl rfl
  · split
    · exact .inl rfl
    · rename_i rlh _
      split_ifs
      · exact .inl rfl
      · exact .inr ⟨by omega, rlh, rfl⟩

/-- The loop of `push` stays at the current message. -/
@[simp] theorem FragmentBuffer.currentMessageSequenceNumber_pushFragments :
    (f.pushFragments rlh buf r).1.currentMessageSequenceNumber = f.currentMessageSequenceNumber := by
  induction f, buf, r using FragmentBuffer.pushFragments.induct rlh with
  | case1 f r => rw [FragmentBuffer.pushFragments_nil]
  | case2 f buf r hb e hu => rw [f.pushFragments_of_error rlh r hb hu]
  | case3 f buf r hb hh hu hend => rw [f.pushFragments_of_lt rlh r hb hu hend]
  | case4 f buf r hb hh hu hend ih =>
    rw [f.pushFragments_of_le rlh r hb hu (Nat.not_lt.mp hend), ih,
      FragmentBuffer.currentMessageSequenceNumber_bufferFragment]

/-- `push` stays at the current message. -/
@[simp] theorem FragmentBuffer.currentMessageSequenceNumber_push (buf : List UInt8) :
    (f.push buf).1.currentMessageSequenceNumber = f.currentMessageSequenceNumber := by
  rcases f.push_fst_cases buf with h | ⟨-, rlh', h⟩
  · rw [h]
  · rw [h, FragmentBuffer.currentMessageSequenceNumber_pushFragments]

/-- What `pop` needs to return a message, and what it returns. -/
theorem FragmentBuffer.pop_eq_message_iff {content : List UInt8} {epoch : UInt16}
    {next : FragmentBuffer} :
    f.pop = .message content epoch next ↔
      ∃ frags raw first, f.cache.lookup f.currentMessageSequenceNumber = some frags ∧
        frags.fragmentsLength = frags.handshakeLength ∧
        frags.assemble frags.fragmentByOffset.entries.length 0 [] = some raw ∧
        frags.handshakeLength.toNat = raw.length ∧ frags.fragmentByOffset.lookup 0 = some first ∧
        content = first.handshakeHeader.whole.marshal ++ raw ∧
        epoch = first.recordLayerHeader.epoch ∧ next = f.advance frags := by
  constructor
  · intro h
    unfold FragmentBuffer.pop at h
    split at h
    · cases h
    · rename_i frags hl
      split_ifs at h with hne
      split at h
      · cases h
      · rename_i raw hraw
        split_ifs at h with hlen
        split at h
        · cases h
        · rename_i first hfirst
          cases h
          exact ⟨frags, raw, first, hl, not_not.mp hne, hraw, not_not.mp hlen, hfirst, rfl, rfl, rfl⟩
  · rintro ⟨frags, raw, first, hl, heq, hraw, hlen, hfirst, rfl, rfl, rfl⟩
    simp only [FragmentBuffer.pop, hl, heq, hraw, hlen, hfirst, ne_eq, not_true_eq_false, if_false]

/-- What makes `pop` read through the nil pointer. -/
theorem FragmentBuffer.pop_eq_nilDereference_iff :
    f.pop = .nilDereference ↔
      ∃ frags raw, f.cache.lookup f.currentMessageSequenceNumber = some frags ∧
        frags.fragmentsLength = frags.handshakeLength ∧
        frags.assemble frags.fragmentByOffset.entries.length 0 [] = some raw ∧
        frags.handshakeLength.toNat = raw.length ∧ frags.fragmentByOffset.lookup 0 = none := by
  constructor
  · intro h
    unfold FragmentBuffer.pop at h
    split at h
    · cases h
    · rename_i frags hl
      split_ifs at h with hne
      split at h
      · cases h
      · rename_i raw hraw
        split_ifs at h with hlen
        split at h
        · exact ⟨frags, raw, hl, not_not.mp hne, hraw, not_not.mp hlen, ‹_›⟩
        · cases h
  · rintro ⟨frags, raw, hl, heq, hraw, hlen, hfirst⟩
    simp only [FragmentBuffer.pop, hl, heq, hraw, hlen, hfirst, ne_eq, not_true_eq_false, if_false]

theorem FragmentBuffer.pop_of_lookup_eq_none
    (h : f.cache.lookup f.currentMessageSequenceNumber = none) : f.pop = .none := by
  rw [FragmentBuffer.pop, h]

theorem FragmentBuffer.pop_of_fragmentsLength_ne {frags : Fragments}
    (h : f.cache.lookup f.currentMessageSequenceNumber = some frags)
    (hne : frags.fragmentsLength ≠ frags.handshakeLength) : f.pop = .none := by
  rw [FragmentBuffer.pop, h]
  simp only [ne_eq, hne, not_false_eq_true, if_true]

/-- A message `pop` returns leaves one entry fewer in the cache. -/
theorem FragmentBuffer.length_cache_lt_of_pop {content : List UInt8} {epoch : UInt16}
    {next : FragmentBuffer} (h : f.pop = .message content epoch next) :
    next.cache.entries.length < f.cache.entries.length := by
  obtain ⟨frags, -, -, hl, -, -, -, -, -, -, rfl⟩ := (f.pop_eq_message_iff).mp h
  exact AList.length_entries_erase_lt hl

end Calls

/-! ## `handleIncomingPacket` -/

/-- The loop `for out, epoch := c.fragmentBuffer.pop(); out != nil; ...` of
`handleIncomingPacket`: the messages and epochs `pop` returns, in order, and the state it stops
in; `none` when `pop` panics. A message is never nil, since it starts with its header. -/
def FragmentBuffer.popAll (f : FragmentBuffer) :
    Option (List (List UInt8 × UInt16) × FragmentBuffer) :=
  match _h : f.pop with
  | .none => some ([], f)
  | .nilDereference => none
  | .message content epoch next =>
    (next.popAll).map fun r => ((content, epoch) :: r.1, r.2)
termination_by f.cache.entries.length
decreasing_by exact f.length_cache_lt_of_pop _h

/-- What `handleIncomingPacket` does with the fragment buffer for a record that passed its
checks: `push` a copy of it, discard an error, and after a handshake record `pop` until nil. -/
def FragmentBuffer.handleRecord (f : FragmentBuffer) (buf : List UInt8) :
    Option (List (List UInt8 × UInt16) × FragmentBuffer) :=
  match (f.push buf).2 with
  | .ok (true, _) => (f.push buf).1.popAll
  | _ => some ([], (f.push buf).1)

section Loop

variable (f : FragmentBuffer)

theorem FragmentBuffer.popAll_of_pop_none (h : f.pop = .none) : f.popAll = some ([], f) := by
  rw [FragmentBuffer.popAll]
  split
  · rfl
  · rename_i h'
    rw [h] at h'
    cases h'
  · rename_i h'
    rw [h] at h'
    cases h'

theorem FragmentBuffer.popAll_of_pop_message {content : List UInt8} {epoch : UInt16}
    {next : FragmentBuffer} (h : f.pop = .message content epoch next) :
    f.popAll = (next.popAll).map fun r => ((content, epoch) :: r.1, r.2) := by
  rw [FragmentBuffer.popAll]
  split
  · rename_i h'
    rw [h] at h'
    cases h'
  · rename_i h'
    rw [h] at h'
    cases h'
  · rename_i content' epoch' next' h'
    rw [h] at h'
    cases h'
    rfl

/-- When `pop` finds nothing after the push, the record yields no message, whatever `push`
returned. -/
theorem FragmentBuffer.handleRecord_of_pop_none {buf : List UInt8} (h : (f.push buf).1.pop = .none) :
    f.handleRecord buf = some ([], (f.push buf).1) := by
  rw [FragmentBuffer.handleRecord]
  split
  · exact FragmentBuffer.popAll_of_pop_none _ h
  · rfl

/-- A record yields what `popAll` yields after the push, or nothing. -/
theorem FragmentBuffer.handleRecord_cases (buf : List UInt8) :
    f.handleRecord buf = (f.push buf).1.popAll ∨ f.handleRecord buf = some ([], (f.push buf).1) := by
  rw [FragmentBuffer.handleRecord]
  split
  · exact .inl rfl
  · exact .inr rfl

theorem FragmentBuffer.handleRecord_of_ok {buf : List UInt8} {r : Bool}
    (h : (f.push buf).2 = .ok (true, r)) : f.handleRecord buf = (f.push buf).1.popAll := by
  rw [FragmentBuffer.handleRecord, h]

end Loop

/-- Records handled one after the other: the messages popped, in order, and the final state;
`none` when a `pop` panics. -/
def FragmentBuffer.handleRecords (f : FragmentBuffer) :
    List (List UInt8) → Option (List (List UInt8 × UInt16) × FragmentBuffer)
  | [] => some ([], f)
  | buf :: rest =>
    (f.handleRecord buf).bind fun r =>
      (r.2.handleRecords rest).map fun r' => (r.1 ++ r'.1, r'.2)

theorem FragmentBuffer.handleRecords_cons (f : FragmentBuffer) {buf : List UInt8}
    {rest : List (List UInt8)} {out : List (List UInt8 × UInt16)} {g : FragmentBuffer}
    (h : f.handleRecord buf = some (out, g)) :
    f.handleRecords (buf :: rest) = (g.handleRecords rest).map fun r' => (out ++ r'.1, r'.2) := by
  rw [FragmentBuffer.handleRecords, h, Option.bind_some]

end Snowflake.Dtls
