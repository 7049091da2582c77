import Mathlib
import Snowflake.Dtls.FragmentBufferInv
import Snowflake.Dtls.HandshakeCache
/-
The handshake path of `handleIncomingPacket` in `conn.go`: after the fragment buffer takes a
handshake record, the loop `for out, epoch := c.fragmentBuffer.pop(); out != nil; ...` parses the
header of each message `pop` returns and pushes the message into the handshake cache as the
peer's.

## The model

`Cache.pushPopped` is that loop over the messages `FragmentBuffer.popAll` returned. In the source
the pushes into the cache come between the pops, but the cache and the fragment buffer share
nothing, so the pushes may as well come after. A record is handled by
`FragmentBuffer.handleRecord`, a run of records by `FragmentBuffer.handleRecords`.

## What is proved

`handleRecords_pushPopped`: from any state of the fragment buffer that a run of `push` and `pop`
reaches, whatever records arrive, the messages go into the cache in the order of their message
sequence numbers, from the current one on, none left out and none twice, each with the epoch
`pop` gave it, and the buffer moves on by their number. The step is `FragmentBuffer.Inv.pop_header`:
with the invariant, the message `pop` returns is the current one.
-/

set_option autoImplicit false

open Transition

namespace Snowflake.Dtls

/-- The loop of `handleIncomingPacket` over what `pop` returned: each message whose header parses
goes into the cache as the peer's, with the epoch `pop` gave it; the others are skipped. -/
def Cache.pushPopped (h : Cache) (isClient : Bool) : List (List UInt8 × UInt16) → Cache
  | [] => h
  | (out, epoch) :: rest =>
    match HandshakeHeader.unmarshal out with
    | .error _ => h.pushPopped isClient rest
    | .ok header =>
      (h.push out epoch header.messageSequence header.type (!isClient)).pushPopped isClient rest

/-- The messages, in order, have headers whose message sequence numbers count up from `seq`. -/
inductive Sequenced : UInt16 → List (List UInt8 × UInt16) → Prop
  | nil (seq : UInt16) : Sequenced seq []
  | cons {seq : UInt16} {content : List UInt8} {epoch : UInt16} {rest : List (List UInt8 × UInt16)}
      (h : HandshakeHeader) (hu : HandshakeHeader.unmarshal content = .ok h)
      (hseq : h.messageSequence = seq) (hrest : Sequenced (seq + 1) rest) :
      Sequenced seq ((content, epoch) :: rest)

theorem uint16_add_ofNat_zero (s : UInt16) : s + UInt16.ofNat 0 = s := UInt16.add_zero s

theorem uint16_add_one_add_ofNat (s : UInt16) (n : Nat) :
    s + 1 + UInt16.ofNat n = s + UInt16.ofNat (n + 1) := by
  rw [UInt16.ofNat_add, UInt16.add_assoc, UInt16.add_comm 1]
  rfl

/-- Two runs of messages, the second from where the first stops, make one. The induction is on
the first. -/
theorem Sequenced.append {s : UInt16} {a b : List (List UInt8 × UInt16)} (ha : Sequenced s a)
    (hb : Sequenced (s + UInt16.ofNat a.length) b) : Sequenced s (a ++ b) := by
  induction ha with
  | nil seq =>
    rw [List.length_nil, uint16_add_ofNat_zero] at hb
    exact hb
  | cons h hu hseq hrest ih =>
    rw [List.length_cons, ← uint16_add_one_add_ofNat] at hb
    exact .cons h hu hseq (ih hb)

/-! ## The buffer yields the messages in order -/

section Yield

variable {f : FragmentBuffer}

/-- With the invariant, the message `pop` returns has the header of the current message, and the
buffer moves on to the next one. -/
theorem FragmentBuffer.Inv.pop_header (hi : f.Inv) {content : List UInt8} {epoch : UInt16}
    {next : FragmentBuffer} (hp : f.pop = .message content epoch next) :
    (∃ h : HandshakeHeader, HandshakeHeader.unmarshal content = .ok h ∧
      h.messageSequence = f.currentMessageSequenceNumber) ∧
      next.currentMessageSequenceNumber = f.currentMessageSequenceNumber + 1 := by
  obtain ⟨frags, raw, first, hl, -, -, -, hfirst, rfl, -, rfl⟩ := f.pop_eq_message_iff.mp hp
  -- the fragment at offset zero is one of the current message's
  obtain ⟨hseq, -, -, hfits⟩ := (hi.entry _ _ hl).stored 0 first hfirst
  have hwhole : first.handshakeHeader.whole.Fits :=
    ⟨hfits.length_lt, show (0 : UInt32).toNat < 2 ^ 24 by decide, hfits.length_lt⟩
  exact ⟨⟨_, HandshakeHeader.unmarshal_marshal hwhole raw, hseq⟩, rfl⟩

/-- With the invariant, `popAll` yields messages whose message sequence numbers count up from the
current one, and stops at the sequence number after them, with the invariant. The induction
follows `popAll`, one `pop` at a time. -/
theorem FragmentBuffer.Inv.popAll (hi : f.Inv) {out : List (List UInt8 × UInt16)}
    {g : FragmentBuffer} (h : f.popAll = some (out, g)) :
    Sequenced f.currentMessageSequenceNumber out ∧
      g.currentMessageSequenceNumber = f.currentMessageSequenceNumber + UInt16.ofNat out.length ∧
      g.Inv := by
  induction f using FragmentBuffer.popAll.induct generalizing out g with
  | case1 f hp =>
    rw [FragmentBuffer.popAll_of_pop_none f hp, Option.some.injEq, Prod.mk.injEq] at h
    obtain ⟨rfl, rfl⟩ := h
    exact ⟨.nil _, by rw [List.length_nil, uint16_add_ofNat_zero], hi⟩
  | case2 f hp =>
    rw [FragmentBuffer.popAll, hp] at h
    cases h
  | case3 f content epoch next hp ih =>
    rw [FragmentBuffer.popAll_of_pop_message f hp] at h
    obtain ⟨⟨out', g'⟩, hrest, hout⟩ := Option.map_eq_some_iff.mp h
    rw [Prod.mk.injEq] at hout
    obtain ⟨rfl, rfl⟩ := hout
    obtain ⟨⟨hh, hu, hseq⟩, hnext⟩ := hi.pop_header hp
    obtain ⟨hs, hcur, hg⟩ := ih (hi.pop hp) hrest
    rw [hnext] at hs hcur
    refine ⟨.cons hh hu hseq hs, ?_, hg⟩
    rw [hcur, List.length_cons, uint16_add_one_add_ofNat]

/-- A record, whatever `push` makes of it, yields messages that count up from the current one. -/
theorem FragmentBuffer.Inv.handleRecord (hi : f.Inv) {buf : List UInt8}
    {out : List (List UInt8 × UInt16)} {g : FragmentBuffer} (h : f.handleRecord buf = some (out, g)) :
    Sequenced f.currentMessageSequenceNumber out ∧
      g.currentMessageSequenceNumber = f.currentMessageSequenceNumber + UInt16.ofNat out.length ∧
      g.Inv := by
  have hpush := hi.push buf
  rcases f.handleRecord_cases buf with hr | hr
  · rw [hr] at h
    have := hpush.popAll h
    rwa [FragmentBuffer.currentMessageSequenceNumber_push] at this
  · rw [hr, Option.some.injEq, Prod.mk.injEq] at h
    obtain ⟨rfl, rfl⟩ := h
    refine ⟨.nil _, ?_, hpush⟩
    rw [FragmentBuffer.currentMessageSequenceNumber_push, List.length_nil, uint16_add_ofNat_zero]

/-- Over a run of records, the messages count up from the current one. The induction is on the
records, with the state generalized; each record's messages start where the last left off. -/
theorem FragmentBuffer.Inv.handleRecords (hi : f.Inv) (ds : List (List UInt8))
    {out : List (List UInt8 × UInt16)} {g : FragmentBuffer} (h : f.handleRecords ds = some (out, g)) :
    Sequenced f.currentMessageSequenceNumber out ∧
      g.currentMessageSequenceNumber = f.currentMessageSequenceNumber + UInt16.ofNat out.length ∧
      g.Inv := by
  induction ds generalizing f out g with
  | nil =>
    rw [FragmentBuffer.handleRecords, Option.some.injEq, Prod.mk.injEq] at h
    obtain ⟨rfl, rfl⟩ := h
    exact ⟨.nil _, by rw [List.length_nil, uint16_add_ofNat_zero], hi⟩
  | cons buf ds ih =>
    cases hr : f.handleRecord buf with
    | none =>
      rw [FragmentBuffer.handleRecords, hr, Option.bind_none] at h
      cases h
    | some r =>
      obtain ⟨out₁, g₁⟩ := r
      rw [f.handleRecords_cons hr] at h
      obtain ⟨⟨out₂, g₂⟩, hrest, hout⟩ := Option.map_eq_some_iff.mp h
      rw [Prod.mk.injEq] at hout
      obtain ⟨rfl, rfl⟩ := hout
      obtain ⟨hs₁, hcur₁, hi₁⟩ := hi.handleRecord hr
      obtain ⟨hs₂, hcur₂, hi₂⟩ := ih hi₁ hrest
      rw [hcur₁] at hs₂ hcur₂
      refine ⟨hs₁.append hs₂, ?_, hi₂⟩
      rw [hcur₂, List.length_append, UInt16.ofNat_add, UInt16.add_assoc]

end Yield

/-! ## The cache gets them in order -/

/-- The loop pushes every message of a run into the cache, in order, with its epoch and the
message sequence numbers of the run, as the peer's. The induction is on the run, with the cache
generalized. -/
theorem Sequenced.pushPopped {s : UInt16} {out : List (List UInt8 × UInt16)} (hs : Sequenced s out)
    (c : Cache) (isClient : Bool) :
    ∃ items : List HandshakeCacheItem, (c.pushPopped isClient out).cache = c.cache ++ items ∧
      items.map (fun it => (it.data, it.epoch)) = out ∧
      items.map HandshakeCacheItem.messageSequence =
        (List.range out.length).map (fun i => s + UInt16.ofNat i) ∧
      ∀ it ∈ items, it.isClient = !isClient := by
  induction hs generalizing c with
  | nil seq => exact ⟨[], by rw [Cache.pushPopped, List.append_nil], rfl, rfl, fun _ h => absurd h List.not_mem_nil⟩
  | @cons seq content epoch rest h hu hseq hrest ih =>
    have hstep : c.pushPopped isClient ((content, epoch) :: rest) =
        (c.push content epoch h.messageSequence h.type (!isClient)).pushPopped isClient rest := by
      simp only [Cache.pushPopped, hu]
    obtain ⟨items, hc, hd, hm, hcl⟩ :=
      ih (c.push content epoch h.messageSequence h.type (!isClient))
    refine ⟨⟨h.type, !isClient, epoch, h.messageSequence, content⟩ :: items, ?_, ?_, ?_, ?_⟩
    · rw [hstep, hc, Cache.push, List.append_assoc, List.singleton_append]
    · rw [List.map_cons, hd]
    · -- the numbers of the rest start one further on
      rw [List.map_cons, hm, List.length_cons, List.range_succ_eq_map, List.map_cons, List.map_map,
        uint16_add_ofNat_zero, hseq]
      congr 1
      refine List.map_congr_left fun i _ => ?_
      exact uint16_add_one_add_ofNat seq i
    · intro it hit
      rcases List.mem_cons.mp hit with rfl | hit
      · rfl
      · exact hcl it hit

/-- The handshake messages go into the cache in order: from any state of the fragment buffer
that a run of `push` and `pop` reaches, whatever records arrive, `handleIncomingPacket` pushes the
messages it pops into the handshake cache, as the peer's and with their epochs, with the message
sequence numbers from the current one on, one after the other, none left out and none twice, and
the buffer then waits for the number after them. -/
theorem handleRecords_pushPopped {f : FragmentBuffer} (hf : fragmentBufferSystem.Reachable f)
    {ds : List (List UInt8)} {out : List (List UInt8 × UInt16)} {g : FragmentBuffer}
    (h : f.handleRecords ds = some (out, g)) (c : Cache) (isClient : Bool) :
    ∃ items : List HandshakeCacheItem, (c.pushPopped isClient out).cache = c.cache ++ items ∧
      items.map (fun it => (it.data, it.epoch)) = out ∧
      items.map HandshakeCacheItem.messageSequence =
        (List.range out.length).map (fun i => f.currentMessageSequenceNumber + UInt16.ofNat i) ∧
      (∀ it ∈ items, it.isClient = !isClient) ∧
      g.currentMessageSequenceNumber = f.currentMessageSequenceNumber + UInt16.ofNat out.length := by
  obtain ⟨hs, hcur, -⟩ := (fragmentBufferSystem_inductive.reachable hf).handleRecords ds h
  obtain ⟨items, hc, hd, hm, hcl⟩ := hs.pushPopped c isClient
  exact ⟨items, hc, hd, hm, hcl, hcur⟩

/-- One record of a whole message of three bytes, into a fresh buffer: the message goes into the
cache with message sequence zero, and the buffer waits for message one. -/
theorem handleRecords_pushPopped_wholeMessage :
    ∃ g, newFragmentBuffer.handleRecords [[22, 0xfe, 0xfd, 0, 0, 0, 0, 0, 0, 0, 1, 0, 15] ++
        HandshakeHeader.marshal ⟨1, 3, 0, 0, 3⟩ ++ [1, 2, 3]] =
        some ([(HandshakeHeader.marshal ⟨1, 3, 0, 0, 3⟩ ++ [1, 2, 3], 0)], g) ∧
      ∃ items : List HandshakeCacheItem,
        (newCache.pushPopped false [(HandshakeHeader.marshal ⟨1, 3, 0, 0, 3⟩ ++ [1, 2, 3], 0)]).cache =
          newCache.cache ++ items ∧
        items.map (fun it => (it.data, it.epoch)) =
          [(HandshakeHeader.marshal ⟨1, 3, 0, 0, 3⟩ ++ [1, 2, 3], 0)] ∧
        items.map HandshakeCacheItem.messageSequence = (List.range 1).map
          (fun i => newFragmentBuffer.currentMessageSequenceNumber + UInt16.ofNat i) ∧
        (∀ it ∈ items, it.isClient = !false) ∧
        g.currentMessageSequenceNumber = newFragmentBuffer.currentMessageSequenceNumber +
          UInt16.ofNat [(HandshakeHeader.marshal ⟨1, 3, 0, 0, 3⟩ ++ [1, 2, 3], (0 : UInt16))].length := by
  have hpush := newFragmentBuffer.push_record (⟨22, 15, version1_2, 0, 1, []⟩ : RecordHeader)
    (show RecordHeader.marshal ⟨22, 15, version1_2, 0, 1, []⟩ =
      .ok [22, 0xfe, 0xfd, 0, 0, 0, 0, 0, 0, 0, 1, 0, 15] from rfl)
    rfl rfl (.inr rfl) (show HandshakeHeader.Fits ⟨1, 3, 0, 0, 3⟩ from ⟨by decide, by decide, by decide⟩)
    (show ([1, 2, 3] : List UInt8).length = (3 : UInt32).toNat from rfl) (by decide) (by decide)
  -- the record holds the whole message, which `pop` returns at once, and then nothing
  have hrec : ∃ g, newFragmentBuffer.handleRecord ([22, 0xfe, 0xfd, 0, 0, 0, 0, 0, 0, 0, 1, 0, 15] ++
      HandshakeHeader.marshal ⟨1, 3, 0, 0, 3⟩ ++ [1, 2, 3]) =
      some ([(HandshakeHeader.marshal ⟨1, 3, 0, 0, 3⟩ ++ [1, 2, 3], 0)], g) := by
    rw [newFragmentBuffer.handleRecord_of_ok (by rw [hpush]), hpush]
    exact ⟨_, (FragmentBuffer.popAll_of_pop_message _ rfl).trans
      (congrArg (Option.map _) (FragmentBuffer.popAll_of_pop_none _ (by rfl)))⟩
  obtain ⟨g, hrec⟩ := hrec
  have hrun : newFragmentBuffer.handleRecords [[22, 0xfe, 0xfd, 0, 0, 0, 0, 0, 0, 0, 1, 0, 15] ++
      HandshakeHeader.marshal ⟨1, 3, 0, 0, 3⟩ ++ [1, 2, 3]] =
      some ([(HandshakeHeader.marshal ⟨1, 3, 0, 0, 3⟩ ++ [1, 2, 3], 0)], g) := by
    rw [newFragmentBuffer.handleRecords_cons hrec]
    rfl
  exact ⟨g, hrun, handleRecords_pushPopped (.of_init rfl) hrun newCache false⟩

end Snowflake.Dtls
