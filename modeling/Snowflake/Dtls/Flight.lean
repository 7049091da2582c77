import Mathlib
import Snowflake.Dtls.Fragmentation
import Snowflake.Dtls.HandshakeDelivery
/-
A flight of handshake messages from end to end, in `dtls/conn.go`. The sender's `writePackets`
puts each handshake of the flight into its handshake cache and writes the records that
`processHandshakePacket` makes of it. The receiver pushes each record it gets into its fragment
buffer, pops what is complete, and puts each message it pops into its own handshake cache
(`handleIncomingPacket`).

## The model

`writeHandshakes` is the loop of `writePackets` over the packets of a flight whose content is a
handshake, neither wrapped with a connection ID nor encrypted, which is how the first flights of
a handshake go. Each packet comes with the header that `Handshake.Marshal` left on its handshake,
and the marshalled body. `pkt.Record.Marshal` sets the record's content type and length, and the
bytes after its fixed header go into the cache. `LocalSequenceNumber` is a function from the
epoch to the next record sequence number, zero where the Go slice has not grown yet. The loop is
not modelled past an error, which `writePackets` returns and which ends the handshake.

## What is proved

`handleRecords_writeHandshakes`: the records of the flight, delivered in any order, each as often
as the network likes and at least once, give the flight's messages out of the receiver's buffer.
Each comes once, whole, in the order of the flight and with the epoch of its packet, and the
receiver then waits for the message after the flight. The receiver starts at the flight's first
message, holds nothing of the flight or of the message after it, and has room for the flight.
`writeHandshakes_caches_agree`: the receiver's handshake cache then gains exactly the items the
sender's gained: the same bytes, epochs, sequence numbers, types and sides, in the same order.
Both sides hash these caches into the handshake transcript.

The argument extends the one of `Fragmentation` from one message to many. `FlightHolding` says
where the receiver is (at message `k`), what the entry of each later message holds
(`Gathering`), and what the totals are. `FlightReceiving` adds that message `k` is incomplete, so
that `pop` finds nothing. A record of a message already popped, or of a fragment held, changes
nothing. A record that brings a missing fragment stores it, and `popAll` then pops the run of
complete messages from `k` on (`FlightHolding.popAll`, by induction on the messages left).
-/

set_option autoImplicit false

namespace Snowflake.Dtls

/-! ## Sending -/

/-- A packet of a flight whose content is a handshake (`dtlsflight.Packet`), neither wrapped with
a connection ID nor encrypted: the header of its record, and its handshake, with the header that
`Handshake.Marshal` left and the marshalled body. -/
structure FlightPacket where
  record : RecordHeader
  header : HandshakeHeader
  body : List UInt8

/-- The record header after `pkt.Record.Marshal`: the content type of a handshake, and the length
of the marshalled handshake. -/
def FlightPacket.recordHeader (p : FlightPacket) : RecordHeader :=
  { p.record with
    contentType := contentTypeHandshake
    contentLen := UInt16.ofNat (headerLength + p.body.length) }

/-- The handshake branch of the loop of `writePackets`: `pkt.Record.Marshal`, the bytes after its
fixed header into the handshake cache, then `processHandshakePacket`, whose records take the
next local sequence numbers of the packet's epoch. It returns the cache and the sequence numbers
after the flight, and the records in order. -/
def writeHandshakes (mtu : Nat) (isClient : Bool) :
    Cache → (UInt16 → UInt64) → List FlightPacket →
      Except Error (Cache × (UInt16 → UInt64) × List (List UInt8))
  | cache, localSequenceNumber, [] => .ok (cache, localSequenceNumber, [])
  | cache, localSequenceNumber, p :: rest =>
    match p.recordHeader.marshal with
    | .error e => .error e
    | .ok headerRaw =>
      let handshakeRaw := headerRaw ++ p.header.marshal ++ p.body
      let epoch := p.record.epoch
      let cache := cache.push (handshakeRaw.drop fixedHeaderSize) epoch p.header.messageSequence
        p.header.type isClient
      match handshakeRecords p.recordHeader (localSequenceNumber epoch)
          (fragmentHandshake p.header p.body mtu) with
      | .error e => .error e
      | .ok rawPackets =>
        (writeHandshakes mtu isClient cache
            (Function.update localSequenceNumber epoch
              (localSequenceNumber epoch + UInt64.ofNat rawPackets.length)) rest).map
          fun r => (r.1, r.2.1, rawPackets ++ r.2.2)

/-- The item `Push` puts into the sender's cache for a packet whose record header has no
connection ID. -/
def FlightPacket.cacheItem (isClient : Bool) (p : FlightPacket) : HandshakeCacheItem :=
  ⟨p.header.type, isClient, p.record.epoch, p.header.messageSequence, p.header.marshal ++ p.body⟩

/-! ## What the receiver gets -/

/-- A message of a flight as the receiver sees it: its header and body, the epoch of its records,
the fragments it stores of them, and the records. -/
structure FlightMessage where
  header : HandshakeHeader
  content : List UInt8
  epoch : UInt16
  fragments : List Fragment
  records : List (List UInt8)
  deriving DecidableEq

/-- What `pop` returns for the message: the marshalled handshake, and the epoch. -/
def FlightMessage.output (m : FlightMessage) : List UInt8 × UInt16 :=
  (m.header.whole.marshal ++ m.content, m.epoch)

/-- The message is the packet as `processHandshakePacket` wrote it: one record per fragment, in
order, and fragments that make up the message. -/
structure FlightPacket.Wrote (mtu : Nat) (p : FlightPacket) (m : FlightMessage) : Prop where
  header_eq : m.header = p.header
  content_eq : m.content = p.body
  epoch_eq : m.epoch = p.record.epoch
  sent : SentMessage m.header m.epoch m.content m.fragments
  records_sent : List.Forall₂ Fragment.Sent m.fragments m.records
  length_fragments : m.fragments.length = (contentFragments p.body mtu).length
  declared : ∀ fr ∈ m.fragments, fr.recordLayerHeader.contentLen =
    UInt16.ofNat (headerLength + fr.data.length) ∧ fr.data.length ≤ mtu

theorem exists_of_except_map_eq_ok {ε α β : Type} {f : α → β} {x : Except ε α} {b : β}
    (h : x.map f = .ok b) : ∃ a, x = .ok a ∧ f a = b := by
  cases x with
  | error e => cases h
  | ok a => exact ⟨a, rfl, Except.ok.inj h⟩

theorem map_eq_map_of_forall₂ {α β γ : Type} {R : α → β → Prop} {f : α → γ} {g : β → γ}
    {l₁ : List α} {l₂ : List β} (h : List.Forall₂ R l₁ l₂) (hfg : ∀ a b, R a b → f a = g b) :
    l₁.map f = l₂.map g := by
  induction h with
  | nil => rfl
  | cons hab _ ih => rw [List.map_cons, List.map_cons, hfg _ _ hab, ih]

/-- The packets' record header without a connection ID is the fixed header, so what goes into
the cache is the marshalled handshake. -/
theorem FlightPacket.drop_handshakeRaw {p : FlightPacket} {headerRaw : List UInt8}
    (hcid : p.record.connectionID = []) (hm : p.recordHeader.marshal = .ok headerRaw) :
    (headerRaw ++ p.header.marshal ++ p.body).drop fixedHeaderSize = p.header.marshal ++ p.body := by
  have hlen := (RecordHeader.marshal_eq_ok hm).2
  rw [RecordHeader.size, show p.recordHeader.connectionID = [] from hcid, List.length_nil,
    Nat.add_zero] at hlen
  rw [List.append_assoc, List.drop_left' hlen]

/-- A piece of the message is at most the MTU long. -/
theorem length_le_of_mem_contentFragments {content piece : List UInt8} {mtu : Nat}
    (h : piece ∈ contentFragments content mtu) : piece.length ≤ mtu := by
  unfold contentFragments at h
  split_ifs at h
  · rw [List.mem_singleton.mp h]
    exact Nat.zero_le _
  · exact Chunks.length_le_of_mem_chunksOf h

/-- The record of a fragment declares the fragment behind its handshake header, and the
fragment is one piece, at most the MTU long. -/
theorem declared_sentFragments {rh : RecordHeader} {h : HandshakeHeader} {seq : UInt64}
    {content : List UInt8} {mtu : Nat} {fr : Fragment}
    (hfr : fr ∈ sentFragments rh h seq 0 (contentFragments content mtu)) :
    fr.recordLayerHeader.contentLen = UInt16.ofNat (headerLength + fr.data.length) ∧
      fr.data.length ≤ mtu := by
  have hpiece : fr.data ∈ contentFragments content mtu := by
    rw [← map_data_sentFragments rh h (contentFragments content mtu) seq 0]
    exact List.mem_map_of_mem hfr
  obtain ⟨s, off, piece, rfl, -, -⟩ := mem_sentFragments rh h _ hfr
  refine ⟨?_, length_le_of_mem_contentFragments hpiece⟩
  show UInt16.ofNat ((headerFragment h off piece).marshal ++ piece).length = _
  rw [List.length_append, HandshakeHeader.length_marshal]

/-- What `writeHandshakes` wrote, packet by packet: the message each packet makes, whose records
together are all the records, and the cache items, one per packet in order. The induction is on
the packets, with the cache, the sequence numbers and the records generalized. -/
theorem writeHandshakes_eq_ok {mtu : Nat} (hmtu : 0 < mtu) {isClient : Bool} {cache cache' : Cache}
    {lsn lsn' : UInt16 → UInt64} {pkts : List FlightPacket} {records : List (List UInt8)}
    (hp : ∀ p ∈ pkts, p.header.length.toNat = p.body.length ∧ p.body.length < 2 ^ 24 ∧
      p.record.version.Accepted ∧ p.record.connectionID = [])
    (hw : writeHandshakes mtu isClient cache lsn pkts = .ok (cache', lsn', records)) :
    ∃ flight : List FlightMessage, List.Forall₂ (FlightPacket.Wrote mtu) pkts flight ∧
      records = (flight.map FlightMessage.records).flatten ∧
      cache'.cache = cache.cache ++ pkts.map (FlightPacket.cacheItem isClient) := by
  induction pkts generalizing cache lsn records with
  | nil =>
    rw [writeHandshakes] at hw
    have hr := Except.ok.inj hw
    simp only [Prod.mk.injEq] at hr
    obtain ⟨rfl, -, rfl⟩ := hr
    exact ⟨[], .nil, rfl, by rw [List.map_nil, List.append_nil]⟩
  | cons p rest ih =>
    obtain ⟨hlen, hsmall, hv, hcid⟩ := hp p List.mem_cons_self
    rw [writeHandshakes] at hw
    cases hm : p.recordHeader.marshal with
    | error e =>
      rw [hm] at hw
      cases hw
    | ok headerRaw =>
      rw [hm] at hw
      dsimp only at hw
      cases hrec : handshakeRecords p.recordHeader (lsn p.record.epoch)
          (fragmentHandshake p.header p.body mtu) with
      | error e =>
        rw [hrec] at hw
        cases hw
      | ok rawPackets =>
        rw [hrec] at hw
        dsimp only at hw
        obtain ⟨⟨c'', l'', recs⟩, hrest, hr⟩ := exists_of_except_map_eq_ok hw
        simp only [Prod.mk.injEq] at hr
        obtain ⟨rfl, rfl, rfl⟩ := hr
        obtain ⟨flight, hW, hrecs, hcache⟩ :=
          ih (fun q hq => hp q (List.mem_cons_of_mem p hq)) hrest
        obtain ⟨hs, hsent⟩ := sentMessage_of_handshakeRecords hmtu hlen hsmall
          (show p.recordHeader.contentType = contentTypeHandshake from rfl)
          (show p.recordHeader.version.Accepted from hv) hrec
        have hk : (sentFragments p.recordHeader p.header (lsn p.record.epoch) 0
            (contentFragments p.body mtu)).length = (contentFragments p.body mtu).length := by
          rw [← List.length_map Fragment.data, map_data_sentFragments]
        refine ⟨⟨p.header, p.body, p.record.epoch, _, rawPackets⟩ :: flight,
          .cons ⟨rfl, rfl, rfl, hs, hsent, hk, fun fr hfr => declared_sentFragments hfr⟩ hW,
          by rw [List.map_cons, List.flatten_cons, hrecs], ?_⟩
        rw [hcache, Cache.push, List.map_cons, List.append_assoc, List.singleton_append,
          FlightPacket.drop_handshakeRaw hcid hm]
        rfl

/-! ## Receiving a flight -/

/-- A flight whose messages were each sent whole, with message sequence numbers counting up from
`s` without wrapping, and a receiver in the state `f₀` with room for all of it. -/
structure FlightSent (s : UInt16) (flight : List FlightMessage) (f₀ : FragmentBuffer) : Prop where
  sent : ∀ m ∈ flight, SentMessage m.header m.epoch m.content m.fragments
  seq_eq : ∀ i (hi : i < flight.length), flight[i].header.messageSequence = s + UInt16.ofNat i
  no_wrap : s.toNat + flight.length < 2 ^ 16
  room : f₀.totalBufferSize + (flight.map fun m => m.content.length).sum + 25 < fragmentBufferMaxSize
  count : f₀.totalFragmentCount + (flight.map fun m => m.fragments.length).sum ≤
    fragmentBufferMaxCount

/-- The receiver with the first `k` messages of the flight popped: it waits for message `k`, the
entry of each later message holds its fragments but `missing m`, nothing is held of the number
after the flight, and the totals are those of `f₀` and of what the entries hold. -/
structure FlightHolding (s : UInt16) (flight : List FlightMessage) (f₀ : FragmentBuffer) (k : Nat)
    (missing : FlightMessage → List Fragment) (g : FragmentBuffer) : Prop where
  le_length : k ≤ flight.length
  current_eq : g.currentMessageSequenceNumber = s + UInt16.ofNat k
  gathering : ∀ m ∈ flight.drop k, Gathering m.header m.fragments g (missing m)
  after_notMem : s + UInt16.ofNat flight.length ∉ g.cache
  totalBufferSize_eq : g.totalBufferSize =
    f₀.totalBufferSize + ((flight.drop k).map fun m => (entryOf m.header g).bytes).sum
  totalFragmentCount_eq : g.totalFragmentCount =
    f₀.totalFragmentCount + ((flight.drop k).map fun m => (entryOf m.header g).count).sum

/-- The same, with message `k` still incomplete. -/
structure FlightReceiving (s : UInt16) (flight : List FlightMessage) (f₀ : FragmentBuffer) (k : Nat)
    (missing : FlightMessage → List Fragment) (g : FragmentBuffer) : Prop
    extends FlightHolding s flight f₀ k missing g where
  waiting : ∀ hk : k < flight.length, missing flight[k] ≠ []

theorem uint16_add_ofNat_succ (s : UInt16) (k : Nat) :
    s + UInt16.ofNat k + 1 = s + UInt16.ofNat (k + 1) := by
  rw [UInt16.ofNat_add, ← UInt16.add_assoc]
  rfl

theorem getElem_mem_drop {α : Type} {l : List α} {k : Nat} (hk : k < l.length) : l[k] ∈ l.drop k := by
  rw [List.drop_eq_getElem_cons hk]
  exact List.mem_cons_self

/-- Storing a fragment of another message leaves the entry of `h` as it was. -/
theorem entryOf_store_of_ne {h hh : HandshakeHeader} {g : FragmentBuffer} {rlh : RecordHeader}
    {data : List UInt8} (hne : hh.messageSequence ≠ h.messageSequence) :
    entryOf h (g.store rlh hh data) = entryOf h g := by
  unfold FragmentBuffer.store
  split_ifs
  · rfl
  · rw [entryOf, entryOf]
    dsimp only
    rw [AList.lookup_insert_ne (Ne.symm hne)]

/-- `pop` moving past another message leaves the entry of `h` as it was. -/
theorem entryOf_advance_of_ne {h : HandshakeHeader} {g : FragmentBuffer} (E : Fragments)
    (hne : h.messageSequence ≠ g.currentMessageSequenceNumber) :
    entryOf h (g.advance E) = entryOf h g := by
  show ((g.cache.erase g.currentMessageSequenceNumber).lookup h.messageSequence).getD _ = _
  rw [AList.lookup_erase_ne hne]
  rfl

/-- What the entry of a message holds carries over to a state with the same entry. -/
theorem Gathering.of_entryOf_eq {h : HandshakeHeader} {frs : List Fragment} {g g' : FragmentBuffer}
    {missing : List Fragment} (hg : Gathering h frs g missing) (he : entryOf h g' = entryOf h g)
    (hmem : h.messageSequence ∈ g'.cache → h.messageSequence ∈ g.cache) :
    Gathering h frs g' missing := by
  have hheld : Held h g' = Held h g := by
    funext fr
    rw [Held, Held, he]
  refine ⟨by rw [hheld]; exact hg.held_or_missing, hg.missing_sub,
    by rw [hheld]; exact hg.missing_not_held, hg.missing_nodup, by rw [he]; exact hg.entry_stored,
    by rw [he]; exact hg.entry_handshakeLength, by rw [he]; exact hg.entry_fragmentsLength,
    fun hm => by rw [he]; exact hg.entry_count_pos (hmem hm), by rw [he]; exact hg.bytes_add,
    by rw [he]; exact hg.count_add⟩

section Flight

variable {s : UInt16} {flight : List FlightMessage} {f₀ : FragmentBuffer} {k : Nat}
  {missing : FlightMessage → List Fragment} {g : FragmentBuffer}

/-! ### Where each message stands -/

/-- The sequence numbers from `s` to the one after the flight do not wrap. -/
theorem FlightSent.toNat_seq (hF : FlightSent s flight f₀) {i : Nat} (hi : i ≤ flight.length) :
    (s + UInt16.ofNat i).toNat = s.toNat + i := by
  have hw := hF.no_wrap
  rw [UInt16.toNat_add, UInt16.toNat_ofNat', Nat.mod_eq_of_lt (by omega : i < 2 ^ 16),
    Nat.mod_eq_of_lt (by omega)]

theorem FlightSent.toNat_seq_getElem (hF : FlightSent s flight f₀) {i : Nat}
    (hi : i < flight.length) : flight[i].header.messageSequence.toNat = s.toNat + i := by
  rw [hF.seq_eq i hi, hF.toNat_seq hi.le]

/-- Messages of the flight are told apart by their sequence numbers. -/
theorem FlightSent.eq_of_seq_eq (hF : FlightSent s flight f₀) {m m' : FlightMessage}
    (hm : m ∈ flight) (hm' : m' ∈ flight)
    (h : m.header.messageSequence = m'.header.messageSequence) : m = m' := by
  obtain ⟨i, hi, rfl⟩ := List.getElem_of_mem hm
  obtain ⟨j, hj, rfl⟩ := List.getElem_of_mem hm'
  have hij := congrArg UInt16.toNat h
  rw [hF.toNat_seq_getElem hi, hF.toNat_seq_getElem hj] at hij
  have hij' : i = j := by omega
  subst hij'
  rfl

theorem FlightSent.nodup (hF : FlightSent s flight f₀) : flight.Nodup := by
  refine List.nodup_iff_injective_getElem.mpr fun i j hij => Fin.ext ?_
  have hseq := congrArg (fun m : FlightMessage => m.header.messageSequence.toNat) hij
  dsimp only at hseq
  rw [hF.toNat_seq_getElem i.isLt, hF.toNat_seq_getElem j.isLt] at hseq
  omega

/-- A message among the first `k` comes before message `k`. -/
theorem FlightSent.seq_lt_of_mem_take (hF : FlightSent s flight f₀) (hk : k ≤ flight.length)
    {m : FlightMessage} (hm : m ∈ flight.take k) : m.header.messageSequence < s + UInt16.ofNat k := by
  obtain ⟨j, hj, rfl⟩ := List.mem_take_iff_getElem.mp hm
  have hjk : j < k := lt_of_lt_of_le hj (Nat.min_le_left _ _)
  rw [UInt16.lt_iff_toNat_lt, hF.toNat_seq_getElem, hF.toNat_seq hk]
  omega

/-- A message from the `k`th on comes at or after message `k`, and before the number after the
flight. -/
theorem FlightSent.toNat_seq_of_mem_drop (hF : FlightSent s flight f₀) {m : FlightMessage}
    (hm : m ∈ flight.drop k) :
    s.toNat + k ≤ m.header.messageSequence.toNat ∧
      m.header.messageSequence.toNat < s.toNat + flight.length := by
  obtain ⟨j, hj, rfl⟩ := List.mem_drop_iff_getElem.mp hm
  rw [hF.toNat_seq_getElem]
  omega

/-- Records alike are sent for the same fragment of the same message: the record gives the
fragment, and the fragment's header its message. -/
theorem FlightSent.eq_of_sent (hF : FlightSent s flight f₀) {m m' : FlightMessage}
    (hm : m ∈ flight) (hm' : m' ∈ flight) {fr fr' : Fragment} (hfr : fr ∈ m.fragments)
    (hfr' : fr' ∈ m'.fragments) {R : List UInt8} (hR : fr.Sent R) (hR' : fr'.Sent R) :
    m' = m ∧ fr' = fr := by
  have hfr_eq : fr' = fr :=
    Fragment.eq_of_sent ((hF.sent m' hm').readable hfr') ((hF.sent m hm).readable hfr) hR' hR
  subst hfr_eq
  refine ⟨hF.eq_of_seq_eq hm' hm ?_, rfl⟩
  rw [← ((hF.sent m' hm').header fr' hfr').2.2, ((hF.sent m hm).header fr' hfr).2.2]

/-! ### One record -/

/-- While message `k` is incomplete, or the flight is done, `pop` finds nothing. -/
theorem FlightReceiving.pop_eq_none (hF : FlightSent s flight f₀)
    (hr : FlightReceiving s flight f₀ k missing g) : g.pop = .none := by
  by_cases hk : k < flight.length
  · exact (hr.gathering _ (getElem_mem_drop hk)).pop_eq_none (hF.sent _ (List.getElem_mem hk))
      (by rw [hr.current_eq, hF.seq_eq k hk]) (hr.waiting hk)
  · have hkn : k = flight.length := by
      have := hr.le_length
      omega
    refine g.pop_of_lookup_eq_none ?_
    rw [hr.current_eq, hkn]
    exact AList.lookup_eq_none.mpr hr.after_notMem

/-- While a fragment of a pending message is missing, the buffer has room for its record: what
it holds of the flight's messages, with that fragment, is at most the flight. -/
theorem FlightHolding.room (hF : FlightSent s flight f₀) (hh : FlightHolding s flight f₀ k missing g)
    {m : FlightMessage} (hm : m ∈ flight.drop k) {fr : Fragment} (hfr : fr ∈ m.fragments)
    (hmiss : fr ∈ missing m) {R : List UInt8} (hR : fr.Sent R) :
    g.size + R.length < fragmentBufferMaxSize ∧ g.totalFragmentCount < fragmentBufferMaxCount := by
  have hlen : ∀ m' ∈ flight.drop k, (entryOf m'.header g).bytes +
      ((missing m').map fun fr => fr.data.length).sum = m'.content.length := fun m' hm' => by
    rw [(hh.gathering m' hm').bytes_add, (hF.sent m' (List.mem_of_mem_drop hm')).length_eq]
  have hbytes : ((flight.drop k).map fun m' => (entryOf m'.header g).bytes).sum + fr.data.length ≤
      ((flight.drop k).map fun m' => m'.content.length).sum := by
    refine List.sum_map_add_le hm (fun m' hm' => ?_) ?_
    · have := hlen m' hm'
      omega
    · have := hlen m hm
      have hle : fr.data.length ≤ ((missing m).map fun fr => fr.data.length).sum :=
        List.le_sum_of_mem (List.mem_map_of_mem hmiss)
      omega
  have hcount : ((flight.drop k).map fun m' => (entryOf m'.header g).count).sum + 1 ≤
      ((flight.drop k).map fun m' => m'.fragments.length).sum := by
    refine List.sum_map_add_le hm (fun m' hm' => ?_) ?_
    · have := (hh.gathering m' hm').count_add
      omega
    · have := (hh.gathering m hm).count_add
      have := List.length_pos_of_mem hmiss
      omega
  have hall : ((flight.drop k).map fun m' => m'.content.length).sum ≤
      (flight.map fun m' => m'.content.length).sum :=
    ((List.drop_sublist k flight).map _).sum_le_sum fun _ _ => Nat.zero_le _
  have hallc : ((flight.drop k).map fun m' => m'.fragments.length).sum ≤
      (flight.map fun m' => m'.fragments.length).sum :=
    ((List.drop_sublist k flight).map _).sum_le_sum fun _ _ => Nat.zero_le _
  have hR' := (hF.sent m (List.mem_of_mem_drop hm)).length_record hfr hR
  have htot := hh.totalBufferSize_eq
  have hcnt := hh.totalFragmentCount_eq
  have hroom := hF.room
  have hcap := hF.count
  constructor
  · rw [FragmentBuffer.size]
    omega
  · omega

/-- After a new fragment of a pending message, the receiver still holds the flight, with that
fragment no longer missing. -/
theorem FlightHolding.store (hF : FlightSent s flight f₀) (hh : FlightHolding s flight f₀ k missing g)
    {m : FlightMessage} (hm : m ∈ flight.drop k) {fr : Fragment} (hfr : fr ∈ m.fragments)
    (hnot : ¬Held m.header g fr) :
    FlightHolding s flight f₀ k (Function.update missing m ((missing m).erase fr))
      (g.store fr.recordLayerHeader fr.handshakeHeader fr.data) := by
  have hmF : m ∈ flight := List.mem_of_mem_drop hm
  have hs := hF.sent m hmF
  have hg := hh.gathering m hm
  have hfseq : fr.handshakeHeader.messageSequence = m.header.messageSequence := (hs.header fr hfr).2.2
  -- the entries of the other pending messages are under other sequence numbers
  have hother : ∀ m' ∈ flight.drop k, m' ≠ m →
      fr.handshakeHeader.messageSequence ≠ m'.header.messageSequence := fun m' hm' hne heq =>
    hne (hF.eq_of_seq_eq (List.mem_of_mem_drop hm') hmF (heq.symm.trans hfseq))
  have hentry : ∀ m' ∈ flight.drop k, m' ≠ m →
      entryOf m'.header (g.store fr.recordLayerHeader fr.handshakeHeader fr.data) = entryOf m'.header g :=
    fun m' hm' hne => entryOf_store_of_ne (hother m' hm' hne)
  have hnodup := hF.nodup.sublist (List.drop_sublist k flight)
  have hnotmem := hg.notMem_of_not_held hs hfr hnot
  have hadd := hg.entryOf_store hs hfr hnot
  have hbytes : ((flight.drop k).map fun m' =>
      (entryOf m'.header (g.store fr.recordLayerHeader fr.handshakeHeader fr.data)).bytes).sum =
      ((flight.drop k).map fun m' => (entryOf m'.header g).bytes).sum + fr.data.length :=
    List.sum_map_eq_add_of_eq_off hnodup hm
      (by rw [hadd, Fragments.bytes_add hnotmem, Nat.add_comm])
      (fun m' hm' hne => by rw [hentry m' hm' hne])
  have hcount : ((flight.drop k).map fun m' =>
      (entryOf m'.header (g.store fr.recordLayerHeader fr.handshakeHeader fr.data)).count).sum =
      ((flight.drop k).map fun m' => (entryOf m'.header g).count).sum + 1 :=
    List.sum_map_eq_add_of_eq_off hnodup hm (by rw [hadd, Fragments.count_add hnotmem])
      (fun m' hm' hne => by rw [hentry m' hm' hne])
  refine ⟨hh.le_length, by rw [FragmentBuffer.currentMessageSequenceNumber_store]; exact hh.current_eq,
    fun m' hm' => ?_, fun hmem => ?_, ?_, ?_⟩
  · by_cases hne : m' = m
    · subst hne
      rw [Function.update_self]
      exact hg.store hs hfr hnot
    · rw [Function.update_of_ne hne]
      exact (hh.gathering m' hm').of_entryOf_eq (hentry m' hm' hne) fun hmem =>
        (FragmentBuffer.mem_cache_store _ _ hmem).resolve_left (hother m' hm' hne).symm
  · rcases FragmentBuffer.mem_cache_store _ _ hmem with heq | hmem
    · -- the stored fragment's message is in the flight, before the number after it
      have hlt := (hF.toNat_seq_of_mem_drop hm).2
      rw [← hfseq, ← heq, hF.toNat_seq le_rfl] at hlt
      omega
    · exact hh.after_notMem hmem
  · rw [hg.totalBufferSize_store hs hfr hnot, hh.totalBufferSize_eq, hbytes]
    push_cast
    omega
  · rw [hg.totalFragmentCount_store hs hfr hnot, hh.totalFragmentCount_eq, hcount]
    push_cast
    omega

/-! ### Popping the complete messages -/

/-- `pop` of message `k`, complete, leaves the receiver holding the rest of the flight. -/
theorem FlightHolding.advance (hF : FlightSent s flight f₀) (hh : FlightHolding s flight f₀ k missing g)
    (hk : k < flight.length) :
    FlightHolding s flight f₀ (k + 1) missing (g.advance (entryOf flight[k].header g)) := by
  -- the later messages are not the current one
  have hne : ∀ m ∈ flight.drop (k + 1),
      m.header.messageSequence ≠ g.currentMessageSequenceNumber := by
    intro m hm heq
    have hle := (hF.toNat_seq_of_mem_drop hm).1
    rw [heq, hh.current_eq, hF.toNat_seq hh.le_length] at hle
    omega
  have hsplit := List.drop_eq_getElem_cons hk
  have hentry : ∀ m ∈ flight.drop (k + 1),
      entryOf m.header (g.advance (entryOf flight[k].header g)) = entryOf m.header g :=
    fun m hm => entryOf_advance_of_ne _ (hne m hm)
  have hbytes : ((flight.drop (k + 1)).map fun m =>
      (entryOf m.header (g.advance (entryOf flight[k].header g))).bytes) =
      (flight.drop (k + 1)).map fun m => (entryOf m.header g).bytes :=
    List.map_congr_left fun m hm => by rw [hentry m hm]
  have hcount : ((flight.drop (k + 1)).map fun m =>
      (entryOf m.header (g.advance (entryOf flight[k].header g))).count) =
      (flight.drop (k + 1)).map fun m => (entryOf m.header g).count :=
    List.map_congr_left fun m hm => by rw [hentry m hm]
  have hfl := (hh.gathering _ (getElem_mem_drop hk)).entry_fragmentsLength
  have htot := hh.totalBufferSize_eq
  have hcnt := hh.totalFragmentCount_eq
  rw [hsplit, List.map_cons, List.sum_cons] at htot hcnt
  refine ⟨hk, ?_, fun m hm => ?_, fun hmem => hh.after_notMem (AList.mem_erase.mp hmem).2, ?_, ?_⟩
  · show g.currentMessageSequenceNumber + 1 = _
    rw [hh.current_eq, uint16_add_ofNat_succ]
  · have hmk : m ∈ flight.drop k := by
      rw [hsplit]
      exact List.mem_cons_of_mem _ hm
    exact (hh.gathering m hmk).of_entryOf_eq (hentry m hm) fun hmem => (AList.mem_erase.mp hmem).2
  · show g.totalBufferSize - (entryOf flight[k].header g).fragmentsLength.toNat = _
    rw [hbytes, htot, hfl]
    push_cast
    omega
  · show g.totalFragmentCount - (entryOf flight[k].header g).fragmentByOffset.entries.length = _
    rw [hcount, hcnt, Fragments.count]
    push_cast
    omega

/-- `popAll` returns the run of complete messages from `k` on, in order, and stops at the first
incomplete one or after the flight. The induction is on the number of messages left. -/
theorem FlightHolding.popAll (hF : FlightSent s flight f₀) (hh : FlightHolding s flight f₀ k missing g) :
    ∃ j g', g.popAll = some (((flight.drop k).take j).map FlightMessage.output, g') ∧
      FlightReceiving s flight f₀ (k + j) missing g' := by
  obtain ⟨d, hd⟩ : ∃ d, flight.length - k = d := ⟨_, rfl⟩
  induction d generalizing k g with
  | zero =>
    -- the flight is done
    have hr : FlightReceiving s flight f₀ k missing g := ⟨hh, fun hk => absurd hk (by omega)⟩
    refine ⟨0, g, ?_, hr⟩
    rw [List.take_zero, List.map_nil, FragmentBuffer.popAll_of_pop_none _ (hr.pop_eq_none hF)]
  | succ d ih =>
    have hk : k < flight.length := by omega
    by_cases hw : missing flight[k] = []
    · -- message `k` is complete: `pop` returns it and moves on to the next
      have hg := hh.gathering _ (getElem_mem_drop hk)
      rw [hw] at hg
      obtain ⟨-, hpop⟩ := hg.pop_of_complete (hF.sent _ (List.getElem_mem hk))
        (by rw [hh.current_eq, hF.seq_eq k hk])
      obtain ⟨j, g', hrun, hr⟩ := ih (hh.advance hF hk) (by omega)
      have hkj : k + 1 + j = k + (j + 1) := by omega
      refine ⟨j + 1, g', ?_, hkj ▸ hr⟩
      rw [g.popAll_of_pop_message hpop, hrun, List.drop_eq_getElem_cons hk, List.take_succ_cons,
        List.map_cons]
      rfl
    · -- message `k` is incomplete: `pop` finds nothing
      have hr : FlightReceiving s flight f₀ k missing g := ⟨hh, fun _ => hw⟩
      refine ⟨0, g, ?_, hr⟩
      rw [List.take_zero, List.map_nil, FragmentBuffer.popAll_of_pop_none _ (hr.pop_eq_none hF)]

/-! ### Runs -/

/-- At the flight's first message, holding nothing of the flight or of the number after it, the
receiver has every fragment of the flight to come. -/
theorem FlightSent.receiving (hF : FlightSent s flight f₀)
    (hcur : f₀.currentMessageSequenceNumber = s)
    (hnone : ∀ i ≤ flight.length, s + UInt16.ofNat i ∉ f₀.cache) :
    FlightReceiving s flight f₀ 0 FlightMessage.fragments f₀ := by
  have hmnone : ∀ m ∈ flight, m.header.messageSequence ∉ f₀.cache := by
    intro m hm
    obtain ⟨i, hi, rfl⟩ := List.getElem_of_mem hm
    rw [hF.seq_eq i hi]
    exact hnone i hi.le
  have hbytes : ((flight.drop 0).map fun m => (entryOf m.header f₀).bytes).sum = 0 :=
    List.sum_eq_zero fun x hx => by
      obtain ⟨m, hm, rfl⟩ := List.mem_map.mp hx
      rw [entryOf_of_notMem (hmnone m (List.mem_of_mem_drop hm))]
      rfl
  have hcount : ((flight.drop 0).map fun m => (entryOf m.header f₀).count).sum = 0 :=
    List.sum_eq_zero fun x hx => by
      obtain ⟨m, hm, rfl⟩ := List.mem_map.mp hx
      rw [entryOf_of_notMem (hmnone m (List.mem_of_mem_drop hm))]
      rfl
  refine ⟨⟨Nat.zero_le _, by rw [hcur, uint16_add_ofNat_zero],
    fun m hm => (hF.sent m (List.mem_of_mem_drop hm)).gathering (hmnone m (List.mem_of_mem_drop hm)),
    hnone _ le_rfl, by rw [hbytes]; push_cast; omega, by rw [hcount]; push_cast; omega⟩,
    fun hk => (hF.sent _ (List.getElem_mem hk)).ne_nil⟩

/-- A record of a message popped already, or of a fragment held, changes nothing and yields
nothing. -/
theorem FlightReceiving.handleRecord_of_unchanged (hF : FlightSent s flight f₀)
    (hr : FlightReceiving s flight f₀ k missing g) {m : FlightMessage} (hm : m ∈ flight)
    {fr : Fragment} (hfr : fr ∈ m.fragments) {R : List UInt8} (hR : fr.Sent R)
    (hold : ¬(m ∈ flight.drop k ∧ ¬Held m.header g fr)) : g.handleRecord R = some ([], g) := by
  have hs := hF.sent m hm
  have hsame : (g.push R).1 = g := by
    have hsplit : m ∈ flight.take k ++ flight.drop k := by
      rw [List.take_append_drop]
      exact hm
    rcases List.mem_append.mp hsplit with hmt | hmd
    · exact hs.push_fst_of_lt hfr hR
        (by rw [hr.current_eq]; exact hF.seq_lt_of_mem_take hr.le_length hmt)
    · exact hs.push_fst_of_held hfr hR (not_not.mp fun hnot => hold ⟨hmd, hnot⟩)
  rw [g.handleRecord_of_pop_none (by rw [hsame]; exact hr.pop_eq_none hF), hsame]

/-- A record that brings a missing fragment of a pending message stores it, and `popAll` then
pops the messages that are complete from message `k` on. -/
theorem FlightReceiving.handleRecord_of_new (hF : FlightSent s flight f₀)
    (hr : FlightReceiving s flight f₀ k missing g) {m : FlightMessage} (hm : m ∈ flight.drop k)
    {fr : Fragment} (hfr : fr ∈ m.fragments) {R : List UInt8} (hR : fr.Sent R)
    (hnot : ¬Held m.header g fr) :
    ∃ j g', g.handleRecord R = some (((flight.drop k).take j).map FlightMessage.output, g') ∧
      FlightReceiving s flight f₀ (k + j) (Function.update missing m ((missing m).erase fr)) g' := by
  have hmiss : fr ∈ missing m := ((hr.gathering m hm).held_or_missing fr hfr).resolve_left hnot
  obtain ⟨hroom, hcount⟩ := hr.room hF hm hfr hmiss hR
  have hstep := (hF.sent m (List.mem_of_mem_drop hm)).handleRecord_of_room hfr hR hroom hcount
    (UInt16.le_iff_toNat_le.mpr (by
      rw [hr.current_eq, hF.toNat_seq hr.le_length]
      exact (hF.toNat_seq_of_mem_drop hm).1))
  obtain ⟨j, g', hpop, hr'⟩ := (hr.store hF hm hfr hnot).popAll hF
  exact ⟨j, g', hstep.trans hpop, hr'⟩

/-- From message `k` on, records of the flight that bring each missing fragment at least once
give the rest of the flight, in order, and the receiver then waits for the number after it. The
induction is on the records, with the state, the position and the missing fragments generalized.
A record that changes nothing leaves its coverage to the rest; one that brings a missing
fragment takes it off the missing ones, and the rest cover the others. -/
theorem FlightReceiving.handleRecords (hF : FlightSent s flight f₀) (ds : List (List UInt8))
    (hds : ∀ R ∈ ds, ∃ m ∈ flight, ∃ fr ∈ m.fragments, fr.Sent R)
    (hr : FlightReceiving s flight f₀ k missing g)
    (hcov : ∀ m ∈ flight.drop k, ∀ fr ∈ missing m, ∃ R ∈ ds, fr.Sent R) :
    ∃ g', g.handleRecords ds = some ((flight.drop k).map FlightMessage.output, g') ∧
      g'.currentMessageSequenceNumber = s + UInt16.ofNat flight.length := by
  induction ds generalizing k missing g with
  | nil =>
    -- a pending message would miss a fragment that no record brings
    have hkn : k = flight.length := by
      by_contra hne
      have hk : k < flight.length := lt_of_le_of_ne hr.le_length hne
      obtain ⟨fr, hfr⟩ := List.exists_mem_of_ne_nil _ (hr.waiting hk)
      obtain ⟨R, hR, -⟩ := hcov _ (getElem_mem_drop hk) fr hfr
      cases hR
    subst hkn
    refine ⟨g, ?_, hr.current_eq⟩
    rw [List.drop_length, List.map_nil]
    rfl
  | cons R ds ih =>
    obtain ⟨m, hm, fr, hfr, hR⟩ := hds R List.mem_cons_self
    have hds' : ∀ R' ∈ ds, ∃ m ∈ flight, ∃ fr ∈ m.fragments, fr.Sent R' :=
      fun R' hR' => hds R' (List.mem_cons_of_mem R hR')
    -- what `R` does not cover, the rest of the records do
    have hcov' : ∀ m' ∈ flight.drop k, ∀ fr' ∈ missing m', ¬(m' = m ∧ fr' = fr) →
        ∃ R' ∈ ds, fr'.Sent R' := by
      intro m' hm' fr' hfr' hne
      obtain ⟨R', hR', hsent⟩ := hcov m' hm' fr' hfr'
      rcases List.mem_cons.mp hR' with rfl | hR'
      · exact absurd (hF.eq_of_sent hm (List.mem_of_mem_drop hm') hfr
          ((hr.gathering m' hm').missing_sub fr' hfr') hR hsent) hne
      · exact ⟨R', hR', hsent⟩
    by_cases hnew : m ∈ flight.drop k ∧ ¬Held m.header g fr
    · obtain ⟨hmd, hnot⟩ := hnew
      obtain ⟨j, g₂, hstep, hr₂⟩ := hr.handleRecord_of_new hF hmd hfr hR hnot
      have hdrop : ∀ m' ∈ flight.drop (k + j), m' ∈ flight.drop k := fun m' hm' => by
        rw [← List.drop_drop] at hm'
        exact List.mem_of_mem_drop hm'
      obtain ⟨g', hrun, hcur⟩ := ih hds' hr₂ fun m' hm' fr' hfr' => by
        by_cases hmm : m' = m
        · subst hmm
          rw [Function.update_self] at hfr'
          obtain ⟨hne, hfr''⟩ := ((hr.gathering m' hmd).missing_nodup.mem_erase_iff).mp hfr'
          exact hcov' m' (hdrop m' hm') fr' hfr'' fun h => hne h.2
        · rw [Function.update_of_ne hmm] at hfr'
          exact hcov' m' (hdrop m' hm') fr' hfr' fun h => hmm h.1
      refine ⟨g', ?_, hcur⟩
      rw [g.handleRecords_cons hstep, hrun, Option.map_some, ← List.drop_drop,
        ← List.map_append, List.take_append_drop]
    · have hstep := hr.handleRecord_of_unchanged hF hm hfr hR hnew
      obtain ⟨g', hrun, hcur⟩ := ih hds' hr fun m' hm' fr' hfr' => hcov' m' hm' fr' hfr' fun h => by
        obtain ⟨rfl, rfl⟩ := h
        exact hnew ⟨hm', (hr.gathering m' hm').missing_not_held fr' hfr'⟩
      exact ⟨g', by rw [g.handleRecords_cons hstep, hrun]; rfl, hcur⟩

/-- A whole flight, from its first message: records of it that bring each fragment at least
once, in any order and with repeats, give every message once, in order. -/
theorem FlightSent.handleRecords (hF : FlightSent s flight f₀)
    (hcur : f₀.currentMessageSequenceNumber = s)
    (hnone : ∀ i ≤ flight.length, s + UInt16.ofNat i ∉ f₀.cache) (ds : List (List UInt8))
    (hds : ∀ R ∈ ds, ∃ m ∈ flight, ∃ fr ∈ m.fragments, fr.Sent R)
    (hall : ∀ m ∈ flight, ∀ fr ∈ m.fragments, ∃ R ∈ ds, fr.Sent R) :
    ∃ g, f₀.handleRecords ds = some (flight.map FlightMessage.output, g) ∧
      g.currentMessageSequenceNumber = s + UInt16.ofNat flight.length := by
  obtain ⟨g, hrun, hg⟩ := (hF.receiving hcur hnone).handleRecords hF ds hds
    fun m hm fr hfr => hall m (List.mem_of_mem_drop hm) fr hfr
  exact ⟨g, by rw [hrun, List.drop_zero], hg⟩

end Flight

/-! ## From end to end -/

section EndToEnd

variable {mtu : Nat} {pkts : List FlightPacket} {flight : List FlightMessage}

/-- The messages the packets make, numbered up from `s`, with room at the receiver. -/
theorem FlightPacket.flightSent (hW : List.Forall₂ (FlightPacket.Wrote mtu) pkts flight)
    {s : UInt16} {f : FragmentBuffer}
    (hseq : ∀ i (hi : i < pkts.length), pkts[i].header.messageSequence = s + UInt16.ofNat i)
    (hwrap : s.toNat + pkts.length < 2 ^ 16)
    (hroom : f.totalBufferSize + (pkts.map fun p => p.body.length).sum + 25 < fragmentBufferMaxSize)
    (hcount : f.totalFragmentCount + (pkts.map fun p => (contentFragments p.body mtu).length).sum ≤
      fragmentBufferMaxCount) :
    FlightSent s flight f := by
  have hlen := hW.length_eq
  have hbody : pkts.map (fun p => p.body.length) = flight.map fun m => m.content.length :=
    map_eq_map_of_forall₂ hW fun p m hw => by rw [hw.content_eq]
  have hfrags : pkts.map (fun p => (contentFragments p.body mtu).length) =
      flight.map fun m => m.fragments.length :=
    map_eq_map_of_forall₂ hW fun p m hw => hw.length_fragments.symm
  refine ⟨fun m hm => ?_, fun i hi => ?_, by rw [← hlen]; exact hwrap, by rw [← hbody]; exact hroom,
    by rw [← hfrags]; exact hcount⟩
  · obtain ⟨p, -, hw⟩ := exists_of_forall₂_of_mem_right hW hm
    exact hw.sent
  · have hi' : i < pkts.length := by rw [hlen]; exact hi
    have hw := hW.get hi' hi
    rw [List.get_eq_getElem, List.get_eq_getElem] at hw
    rw [hw.header_eq]
    exact hseq i hi'

/-- Every record delivered is one of the flight's, and every record of the flight is
delivered: in the receiver's terms, each delivered record carries a fragment of a message of the
flight, and each fragment comes in a delivered record. -/
theorem FlightPacket.covers (hW : List.Forall₂ (FlightPacket.Wrote mtu) pkts flight)
    {delivered : List (List UInt8)}
    (hsub : ∀ R ∈ delivered, R ∈ (flight.map FlightMessage.records).flatten)
    (hall : ∀ R ∈ (flight.map FlightMessage.records).flatten, R ∈ delivered) :
    (∀ R ∈ delivered, ∃ m ∈ flight, ∃ fr ∈ m.fragments, fr.Sent R) ∧
      (∀ m ∈ flight, ∀ fr ∈ m.fragments, ∃ R ∈ delivered, fr.Sent R) := by
  refine ⟨fun R hR => ?_, fun m hm fr hfr => ?_⟩
  · obtain ⟨rs, hrs, hRrs⟩ := List.mem_flatten.mp (hsub R hR)
    obtain ⟨m, hm, rfl⟩ := List.mem_map.mp hrs
    obtain ⟨p, -, hw⟩ := exists_of_forall₂_of_mem_right hW hm
    obtain ⟨fr, hfr, hsent⟩ := exists_of_forall₂_of_mem_right hw.records_sent hRrs
    exact ⟨m, hm, fr, hfr, hsent⟩
  · obtain ⟨p, -, hw⟩ := exists_of_forall₂_of_mem_right hW hm
    obtain ⟨R, hR, hsent⟩ := exists_of_forall₂_of_mem_left hw.records_sent hfr
    exact ⟨R, hall R (List.mem_flatten.mpr ⟨_, List.mem_map_of_mem hm, hR⟩), hsent⟩

/-- What the buffer returns for the messages is, packet by packet, the marshalled handshake and
the epoch. -/
theorem FlightPacket.map_output (hW : List.Forall₂ (FlightPacket.Wrote mtu) pkts flight) :
    flight.map FlightMessage.output =
      pkts.map fun p => (p.header.whole.marshal ++ p.body, p.record.epoch) :=
  (map_eq_map_of_forall₂ hW fun p m hw => by
    rw [FlightMessage.output, hw.header_eq, hw.content_eq, hw.epoch_eq]).symm

/-- The sender's side and the receiver's side of a flight, together: what `writeHandshakes` puts
into the cache, and what the receiver's buffer returns for any delivery of the records. -/
theorem writeHandshakes_handleRecords (hmtu : 0 < mtu) {isClient : Bool} {cache cache' : Cache}
    {lsn lsn' : UInt16 → UInt64} {records delivered : List (List UInt8)} {s : UInt16}
    {f : FragmentBuffer}
    (hp : ∀ p ∈ pkts, p.header.length.toNat = p.body.length ∧ p.body.length < 2 ^ 24 ∧
      p.record.version.Accepted ∧ p.record.connectionID = [])
    (hw : writeHandshakes mtu isClient cache lsn pkts = .ok (cache', lsn', records))
    (hseq : ∀ i (hi : i < pkts.length), pkts[i].header.messageSequence = s + UInt16.ofNat i)
    (hwrap : s.toNat + pkts.length < 2 ^ 16) (hcur : f.currentMessageSequenceNumber = s)
    (hnone : ∀ i ≤ pkts.length, s + UInt16.ofNat i ∉ f.cache)
    (hroom : f.totalBufferSize + (pkts.map fun p => p.body.length).sum + 25 < fragmentBufferMaxSize)
    (hcount : f.totalFragmentCount + (pkts.map fun p => (contentFragments p.body mtu).length).sum ≤
      fragmentBufferMaxCount)
    (hsub : ∀ R ∈ delivered, R ∈ records) (hall : ∀ R ∈ records, R ∈ delivered) :
    ∃ flight : List FlightMessage, List.Forall₂ (FlightPacket.Wrote mtu) pkts flight ∧
      cache'.cache = cache.cache ++ pkts.map (FlightPacket.cacheItem isClient) ∧
      ∃ g, f.handleRecords delivered = some (flight.map FlightMessage.output, g) ∧
        g.currentMessageSequenceNumber = s + UInt16.ofNat pkts.length := by
  obtain ⟨flight, hW, rfl, hcache⟩ := writeHandshakes_eq_ok hmtu hp hw
  have hF := FlightPacket.flightSent hW hseq hwrap hroom hcount
  have hlen := hW.length_eq
  obtain ⟨hds, hcov⟩ := FlightPacket.covers hW hsub hall
  obtain ⟨g, hrun, hg⟩ := hF.handleRecords hcur (by rw [← hlen]; exact hnone) delivered hds hcov
  exact ⟨flight, hW, hcache, g, hrun, by rw [hlen]; exact hg⟩

/-- A flight written by `writePackets` comes out of the receiver's fragment buffer message by
message, each once and whole, in the order of the flight, whatever order its records arrive in
and however often each is repeated, as long as each arrives: the loop of `handleIncomingPacket`
returns each handshake marshalled as one message, with the epoch of its packet, and the receiver
then waits for the message after the flight. The flight's messages number up from `s` without
wrapping; the receiver is at `s`, holds nothing of the flight or of the message after it, and has
room for the flight. -/
theorem handleRecords_writeHandshakes (hmtu : 0 < mtu) {isClient : Bool} {cache cache' : Cache}
    {lsn lsn' : UInt16 → UInt64} {records delivered : List (List UInt8)} {s : UInt16}
    {f : FragmentBuffer}
    (hp : ∀ p ∈ pkts, p.header.length.toNat = p.body.length ∧ p.body.length < 2 ^ 24 ∧
      p.record.version.Accepted ∧ p.record.connectionID = [])
    (hw : writeHandshakes mtu isClient cache lsn pkts = .ok (cache', lsn', records))
    (hseq : ∀ i (hi : i < pkts.length), pkts[i].header.messageSequence = s + UInt16.ofNat i)
    (hwrap : s.toNat + pkts.length < 2 ^ 16) (hcur : f.currentMessageSequenceNumber = s)
    (hnone : ∀ i ≤ pkts.length, s + UInt16.ofNat i ∉ f.cache)
    (hroom : f.totalBufferSize + (pkts.map fun p => p.body.length).sum + 25 < fragmentBufferMaxSize)
    (hcount : f.totalFragmentCount + (pkts.map fun p => (contentFragments p.body mtu).length).sum ≤
      fragmentBufferMaxCount)
    (hsub : ∀ R ∈ delivered, R ∈ records) (hall : ∀ R ∈ records, R ∈ delivered) :
    ∃ g, f.handleRecords delivered =
        some (pkts.map fun p => (p.header.whole.marshal ++ p.body, p.record.epoch), g) ∧
      g.currentMessageSequenceNumber = s + UInt16.ofNat pkts.length := by
  obtain ⟨flight, hW, -, g, hrun, hg⟩ :=
    writeHandshakes_handleRecords hmtu hp hw hseq hwrap hcur hnone hroom hcount hsub hall
  exact ⟨g, by rw [hrun, FlightPacket.map_output hW], hg⟩

/-- The two messages of the flight below in pieces of two bytes: the first in two, the second in
one. -/
theorem contentFragments_flightOfTwo :
    contentFragments [1, 2, 3] 2 = [[1, 2], [3]] ∧ contentFragments [7] 2 = [[7]] := by
  have h1 : Chunks.chunksOf 2 ([3] : List UInt8) = [[3]] :=
    Chunks.chunksOf_of_length_le (by simp) (by simp)
  refine ⟨?_, ?_⟩
  · rw [contentFragments, splitBytes, Chunks.chunksOf_of_ne_nil (by decide) (by simp)]
    simp only [List.take, List.drop, h1]
    rfl
  · rw [contentFragments, splitBytes, Chunks.chunksOf_of_length_le (by simp) (by simp)]
    rfl

/-- The packets of the flight below: each body as long as its header says and small, of DTLS 1.2,
without a connection ID. -/
theorem flightOfTwo_packets : ∀ p ∈ ([⟨⟨22, 0, version1_2, 0, 0, []⟩, ⟨1, 3, 0, 0, 3⟩, [1, 2, 3]⟩,
    ⟨⟨22, 0, version1_2, 0, 0, []⟩, ⟨2, 1, 1, 0, 1⟩, [7]⟩] : List FlightPacket),
    p.header.length.toNat = p.body.length ∧ p.body.length < 2 ^ 24 ∧ p.record.version.Accepted ∧
      p.record.connectionID = [] := by
  intro p hp
  rcases List.mem_pair.mp hp with rfl | rfl
  · exact ⟨rfl, by decide, .inr rfl, rfl⟩
  · exact ⟨rfl, by decide, .inr rfl, rfl⟩

/-- A flight of two messages of epoch zero, numbered zero and one, as `writeHandshakes` writes it
from a fresh connection. -/
theorem writeHandshakes_flightOfTwo : ∃ cache' lsn' records, writeHandshakes 2 false newCache
    (fun _ => 0) [⟨⟨22, 0, version1_2, 0, 0, []⟩, ⟨1, 3, 0, 0, 3⟩, [1, 2, 3]⟩,
      ⟨⟨22, 0, version1_2, 0, 0, []⟩, ⟨2, 1, 1, 0, 1⟩, [7]⟩] = .ok (cache', lsn', records) :=
  ⟨_, _, _, by
    simp only [writeHandshakes, fragmentHandshake, contentFragments_flightOfTwo.1,
      contentFragments_flightOfTwo.2]
    rfl⟩

/-- Its records delivered in reverse order: the fragment of the second message comes before the
first message is complete, and is held until it is. -/
theorem handleRecords_writeHandshakes_reversed :
    ∃ cache' lsn' records, writeHandshakes 2 false newCache (fun _ => 0)
        [⟨⟨22, 0, version1_2, 0, 0, []⟩, ⟨1, 3, 0, 0, 3⟩, [1, 2, 3]⟩,
         ⟨⟨22, 0, version1_2, 0, 0, []⟩, ⟨2, 1, 1, 0, 1⟩, [7]⟩] = .ok (cache', lsn', records) ∧
      ∃ g, newFragmentBuffer.handleRecords records.reverse =
        some ([((HandshakeHeader.whole ⟨1, 3, 0, 0, 3⟩).marshal ++ [1, 2, 3], 0),
          ((HandshakeHeader.whole ⟨2, 1, 1, 0, 1⟩).marshal ++ [7], 0)], g) ∧
        g.currentMessageSequenceNumber = 2 := by
  obtain ⟨c, l, records, hw⟩ := writeHandshakes_flightOfTwo
  exact ⟨c, l, records, hw, handleRecords_writeHandshakes (by decide) flightOfTwo_packets hw
    (by decide) (by decide) rfl (fun i _ => AList.notMem_empty _) (by decide)
    (by simp only [List.map, contentFragments_flightOfTwo.1, contentFragments_flightOfTwo.2]; decide)
    (fun R hR => List.mem_reverse.mp hR) (fun R hR => List.mem_reverse.mpr hR)⟩

/-- The receiver's loop puts each message of the flight into its cache as the peer's, under the
header it parses off the message. -/
theorem Cache.pushPopped_map_output (c : Cache) (isClient : Bool) (flight : List FlightMessage)
    (hfits : ∀ m ∈ flight, m.header.whole.Fits) :
    (c.pushPopped isClient (flight.map FlightMessage.output)).cache = c.cache ++ flight.map fun m =>
      ⟨m.header.type, !isClient, m.epoch, m.header.messageSequence, m.header.whole.marshal ++ m.content⟩ := by
  induction flight generalizing c with
  | nil => rw [List.map_nil, Cache.pushPopped, List.map_nil, List.append_nil]
  | cons m rest ih =>
    rw [List.map_cons, Cache.pushPopped, FlightMessage.output]
    dsimp only
    rw [HandshakeHeader.unmarshal_marshal (hfits m List.mem_cons_self)]
    dsimp only
    rw [ih _ fun m' hm' => hfits m' (List.mem_cons_of_mem m hm'), Cache.push, List.map_cons,
      List.append_assoc, List.singleton_append]
    rfl

/-- A handshake header as `Handshake.Marshal` leaves it, of the whole body. -/
theorem HandshakeHeader.whole_eq_self {h : HandshakeHeader} (hoff : h.fragmentOffset = 0)
    (hfl : h.fragmentLength = h.length) : h.whole = h := by
  cases h
  simp only [HandshakeHeader.whole] at hoff hfl ⊢
  rw [hoff, hfl]

/-- Sender and receiver agree on a flight's transcript: when a flight written by `writePackets`
has been delivered as in `handleRecords_writeHandshakes`, and the receiver has put what its
buffer returned into its handshake cache as `handleIncomingPacket` does, the receiver's cache
has gained exactly the items the sender's gained, in the same order: the same bytes, epochs,
message sequence numbers, types, and the sender's side. The handshake headers are as
`Handshake.Marshal` leaves them, of the whole body. -/
theorem writeHandshakes_caches_agree (hmtu : 0 < mtu) {isClient : Bool} {cache cache' : Cache}
    {lsn lsn' : UInt16 → UInt64} {records delivered : List (List UInt8)} {s : UInt16}
    {f : FragmentBuffer}
    (hp : ∀ p ∈ pkts, p.header.length.toNat = p.body.length ∧ p.body.length < 2 ^ 24 ∧
      p.record.version.Accepted ∧ p.record.connectionID = [])
    (hwhole : ∀ p ∈ pkts, p.header.fragmentOffset = 0 ∧ p.header.fragmentLength = p.header.length)
    (hw : writeHandshakes mtu isClient cache lsn pkts = .ok (cache', lsn', records))
    (hseq : ∀ i (hi : i < pkts.length), pkts[i].header.messageSequence = s + UInt16.ofNat i)
    (hwrap : s.toNat + pkts.length < 2 ^ 16) (hcur : f.currentMessageSequenceNumber = s)
    (hnone : ∀ i ≤ pkts.length, s + UInt16.ofNat i ∉ f.cache)
    (hroom : f.totalBufferSize + (pkts.map fun p => p.body.length).sum + 25 < fragmentBufferMaxSize)
    (hcount : f.totalFragmentCount + (pkts.map fun p => (contentFragments p.body mtu).length).sum ≤
      fragmentBufferMaxCount)
    (hsub : ∀ R ∈ delivered, R ∈ records) (hall : ∀ R ∈ records, R ∈ delivered) (c : Cache) :
    ∃ out g items, f.handleRecords delivered = some (out, g) ∧
      cache'.cache = cache.cache ++ items ∧ (c.pushPopped (!isClient) out).cache = c.cache ++ items := by
  obtain ⟨flight, hW, hcache, g, hrun, -⟩ :=
    writeHandshakes_handleRecords hmtu hp hw hseq hwrap hcur hnone hroom hcount hsub hall
  -- each header is its own whole header, which fits the wire
  have hself : ∀ m ∈ flight, m.header.whole = m.header ∧ m.header.length.toNat < 2 ^ 24 :=
    fun m hm => by
      obtain ⟨p, hpm, hw⟩ := exists_of_forall₂_of_mem_right hW hm
      obtain ⟨hoff, hfl⟩ := hwhole p hpm
      obtain ⟨hlen, hsmall, -, -⟩ := hp p hpm
      rw [hw.header_eq, hlen]
      exact ⟨HandshakeHeader.whole_eq_self hoff hfl, hsmall⟩
  have hfits : ∀ m ∈ flight, m.header.whole.Fits := fun m hm =>
    ⟨(hself m hm).2, show (0 : UInt32).toNat < 2 ^ 24 by decide, (hself m hm).2⟩
  have hsame : ∀ m ∈ flight, (⟨m.header.type, isClient, m.epoch, m.header.messageSequence,
      m.header.whole.marshal ++ m.content⟩ : HandshakeCacheItem) =
      ⟨m.header.type, isClient, m.epoch, m.header.messageSequence, m.header.marshal ++ m.content⟩ :=
    fun m hm => by rw [(hself m hm).1]
  have hitems : (flight.map fun m => (⟨m.header.type, isClient, m.epoch, m.header.messageSequence,
      m.header.marshal ++ m.content⟩ : HandshakeCacheItem)) = pkts.map (FlightPacket.cacheItem isClient) :=
    (map_eq_map_of_forall₂ hW fun p m hw => by
      rw [FlightPacket.cacheItem, hw.header_eq, hw.content_eq, hw.epoch_eq]).symm
  refine ⟨_, g, pkts.map (FlightPacket.cacheItem isClient), hrun, hcache, ?_⟩
  rw [Cache.pushPopped_map_output c (!isClient) flight hfits, Bool.not_not,
    List.map_congr_left hsame, hitems]

/-- The same flight delivered in reverse order: both caches gain the same items. -/
theorem writeHandshakes_caches_agree_reversed :
    ∃ cache' lsn' records, writeHandshakes 2 false newCache (fun _ => 0)
        [⟨⟨22, 0, version1_2, 0, 0, []⟩, ⟨1, 3, 0, 0, 3⟩, [1, 2, 3]⟩,
         ⟨⟨22, 0, version1_2, 0, 0, []⟩, ⟨2, 1, 1, 0, 1⟩, [7]⟩] = .ok (cache', lsn', records) ∧
      ∃ out g items, newFragmentBuffer.handleRecords records.reverse = some (out, g) ∧
        cache'.cache = newCache.cache ++ items ∧
        (newCache.pushPopped true out).cache = newCache.cache ++ items := by
  obtain ⟨c, l, records, hw⟩ := writeHandshakes_flightOfTwo
  refine ⟨c, l, records, hw, writeHandshakes_caches_agree (by decide) flightOfTwo_packets ?_ hw
    (by decide) (by decide) rfl (fun i _ => AList.notMem_empty _) (by decide)
    (by simp only [List.map, contentFragments_flightOfTwo.1, contentFragments_flightOfTwo.2]; decide)
    (fun R hR => List.mem_reverse.mp hR) (fun R hR => List.mem_reverse.mpr hR) newCache⟩
  -- the headers are those of whole messages
  intro p hp
  rcases List.mem_pair.mp hp with rfl | rfl
  · exact ⟨rfl, rfl⟩
  · exact ⟨rfl, rfl⟩

end EndToEnd

end Snowflake.Dtls
