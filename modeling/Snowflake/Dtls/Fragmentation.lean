import Mathlib
import Snowflake.Lib.Chunks
import Snowflake.Dtls.FragmentBufferInv
/-
Handshake fragmentation from end to end, in `dtls/conn.go`: the sender cuts a handshake message
into fragments (`fragmentHandshake`, with `splitBytes` of `dtls/util.go`) and puts each in a record
of its own (the record loop of `processHandshakePacket`); the receiver pushes each record it gets
into its fragment buffer and pops what is complete (`handleIncomingPacket`).

## The model

The sending side is modelled for a packet that is neither wrapped with a connection ID nor
encrypted, which is how the first flights of a handshake go (epoch zero). The message is given
already marshalled, with the header that `Handshake.Marshal` left (its `Length` is the length of
the message). `processHandshakePacket` takes the record sequence numbers from a counter; here the
counter's value is an argument and each record takes the next.

## What is proved

Records delivered in any order, each as often as the network likes, as long as every record
comes at least once, give exactly one message out of the receiver's buffer: the marshalled
handshake, header and body, with the epoch it was sent in (`handleRecords_fragmentHandshake`).
The receiver starts at that message with nothing of it or of the next held, and with room for
the message and its fragments. The argument keeps two phases apart: while some fragment is
missing (`Collecting`) every record is stored or is a duplicate, and `pop` finds the message
incomplete by its byte count; the record that brings the last fragment makes `pop` return the
message; after it (`Delivered`) the current message is the next one, of which nothing is held.
-/

set_option autoImplicit false

namespace Snowflake.Dtls

open Chunks

/-! ## Sending -/

/-- `splitBytes`: `bytes[i:min(i+splitLen, len(bytes))]` for `i` from zero in steps of
`splitLen`. The caller passes `c.maximumTransmissionUnit`, which `effectiveMTU` makes positive. -/
def splitBytes (bytes : List UInt8) (splitLen : Nat) : List (List UInt8) := chunksOf splitLen bytes

/-- `contentFragments` of `fragmentHandshake`: the pieces of the message, or one empty piece
when there are none. -/
def contentFragments (content : List UInt8) (mtu : Nat) : List (List UInt8) :=
  if splitBytes content mtu = [] then [[]] else splitBytes content mtu

/-- `headerFragment`: the message's header with the offset and length of one piece. -/
def headerFragment (h : HandshakeHeader) (offset : Nat) (contentFragment : List UInt8) :
    HandshakeHeader where
  type := h.type
  length := h.length
  messageSequence := h.messageSequence
  fragmentOffset := UInt32.ofNat offset
  fragmentLength := UInt32.ofNat contentFragment.length

/-- The loop of `fragmentHandshake` from content offset `offset`: each piece behind its header. -/
def fragmentsFrom (h : HandshakeHeader) : Nat → List (List UInt8) → List (List UInt8)
  | _, [] => []
  | offset, contentFragment :: rest =>
    ((headerFragment h offset contentFragment).marshal ++ contentFragment) ::
      fragmentsFrom h (offset + contentFragment.length) rest

/-- `fragmentHandshake`, for the marshalled message `content` and the header `h` of the
handshake. -/
def fragmentHandshake (h : HandshakeHeader) (content : List UInt8) (mtu : Nat) :
    List (List UInt8) :=
  fragmentsFrom h 0 (contentFragments content mtu)

/-- `recordlayerHeader` of `processHandshakePacket`: the packet's version, content type and
epoch, the fragment's length and the record's sequence number. -/
def recordlayerHeader (rh : RecordHeader) (seq : UInt64) (handshakeFragment : List UInt8) :
    RecordHeader where
  contentType := rh.contentType
  contentLen := UInt16.ofNat handshakeFragment.length
  version := rh.version
  epoch := rh.epoch
  sequenceNumber := seq
  connectionID := []

/-- The record loop of `processHandshakePacket` for a packet that is neither wrapped with a
connection ID nor encrypted, with `seq` the next local sequence number of the epoch. -/
def handshakeRecords (rh : RecordHeader) :
    UInt64 → List (List UInt8) → Except Error (List (List UInt8))
  | _, [] => .ok []
  | seq, handshakeFragment :: rest =>
    if seq > maxSequenceNumber then .error .sequenceNumberOverflow
    else
      match (recordlayerHeader rh seq handshakeFragment).marshal with
      | .error e => .error e
      | .ok rawPacket =>
        (handshakeRecords rh (seq + 1) rest).map ((rawPacket ++ handshakeFragment) :: ·)

/-! ## What is sent -/

/-- `record` is what the sender writes for the fragment `fr`: its record header, then its
handshake header, then its bytes. -/
def Fragment.Sent (fr : Fragment) (record : List UInt8) : Prop :=
  ∃ bytes, fr.recordLayerHeader.marshal = .ok bytes ∧
    record = bytes ++ fr.handshakeHeader.marshal ++ fr.data

/-- The fragments the receiver stores of the records `handshakeRecords` sends for the pieces
from content offset `offset` on, with record sequence numbers from `seq` on. -/
def sentFragments (rh : RecordHeader) (h : HandshakeHeader) :
    UInt64 → Nat → List (List UInt8) → List Fragment
  | _, _, [] => []
  | seq, offset, piece :: rest =>
    ⟨recordlayerHeader rh seq ((headerFragment h offset piece).marshal ++ piece),
      headerFragment h offset piece, piece⟩ :: sentFragments rh h (seq + 1) (offset + piece.length) rest

/-- Fragments laid end to end from byte `t` of their message, none of them empty. -/
def Fragment.Chain : Nat → List Fragment → Prop
  | _, [] => True
  | t, fr :: rest => fr.handshakeHeader.fragmentOffset.toNat = t ∧ 0 < fr.data.length ∧
    Fragment.Chain (t + fr.data.length) rest

/-- What the receiver needs of the fragments of one message: records it accepts, headers of the
message, bytes that make up the message, one fragment per offset, and either one empty fragment
at offset zero for an empty message or fragments end to end from offset zero. -/
structure SentMessage (h : HandshakeHeader) (epoch : UInt16) (content : List UInt8)
    (frs : List Fragment) : Prop where
  record : ∀ fr ∈ frs, fr.recordLayerHeader.contentType = contentTypeHandshake ∧
    fr.recordLayerHeader.connectionID = [] ∧ fr.recordLayerHeader.version.Accepted ∧
    fr.recordLayerHeader.epoch = epoch
  header : ∀ fr ∈ frs, fr.handshakeHeader.type = h.type ∧ fr.handshakeHeader.length = h.length ∧
    fr.handshakeHeader.messageSequence = h.messageSequence
  stored : ∀ fr ∈ frs, fr.handshakeHeader.Fits ∧
    fr.data.length = fr.handshakeHeader.fragmentLength.toNat
  length_eq : h.length.toNat = content.length
  flatten_eq : (frs.map Fragment.data).flatten = content
  nodup : frs.Nodup
  offset_inj : ∀ a ∈ frs, ∀ b ∈ frs,
    a.handshakeHeader.fragmentOffset = b.handshakeHeader.fragmentOffset → a = b
  layout : (content = [] ∧ ∃ fr, frs = [fr] ∧ fr.handshakeHeader.fragmentOffset = 0) ∨
    (content ≠ [] ∧ Fragment.Chain 0 frs)

/-- In a chain every fragment starts at or after where the chain does. -/
theorem Fragment.Chain.le_offset {t : Nat} {l : List Fragment} (h : Fragment.Chain t l) :
    ∀ fr ∈ l, t ≤ fr.handshakeHeader.fragmentOffset.toNat := by
  induction l generalizing t with
  | nil => intro fr hfr; cases hfr
  | cons x l ih =>
    obtain ⟨hx, hpos, hrest⟩ := h
    intro fr hfr
    rcases List.mem_cons.mp hfr with rfl | hfr
    · omega
    · have := ih hrest fr hfr
      omega

/-- In a chain the offset of a fragment tells which one it is, and none comes twice. -/
theorem Fragment.Chain.offset_inj {t : Nat} {l : List Fragment} (h : Fragment.Chain t l) :
    (∀ a ∈ l, ∀ b ∈ l,
      a.handshakeHeader.fragmentOffset = b.handshakeHeader.fragmentOffset → a = b) ∧ l.Nodup := by
  induction l generalizing t with
  | nil => exact ⟨fun a ha => absurd ha List.not_mem_nil, List.nodup_nil⟩
  | cons x l ih =>
    obtain ⟨hx, hpos, hrest⟩ := h
    obtain ⟨hinj, hnd⟩ := ih hrest
    -- the rest starts after `x` ends
    have hafter : ∀ b ∈ l, x.handshakeHeader.fragmentOffset.toNat < b.handshakeHeader.fragmentOffset.toNat :=
      fun b hb => by
        have := hrest.le_offset b hb
        omega
    refine ⟨fun a ha b hb hab => ?_, List.nodup_cons.mpr ⟨fun hxl => by
      have := hafter x hxl
      omega, hnd⟩⟩
    rcases List.mem_cons.mp ha with rfl | ha'
    · rcases List.mem_cons.mp hb with rfl | hb'
      · rfl
      · have := hafter b hb'
        rw [hab] at this
        omega
    · rcases List.mem_cons.mp hb with rfl | hb'
      · have := hafter a ha'
        rw [hab] at this
        omega
      · exact hinj a ha' b hb' hab

/-- What `handshakeRecords` returns is the record of each fragment, one after the other. The
induction is on the pieces, with the sequence number and the offset generalized. -/
theorem forall₂_sent_of_handshakeRecords (rh : RecordHeader) (h : HandshakeHeader)
    (pieces : List (List UInt8)) :
    ∀ (seq : UInt64) (offset : Nat) (records : List (List UInt8)),
      handshakeRecords rh seq (fragmentsFrom h offset pieces) = .ok records →
        List.Forall₂ Fragment.Sent (sentFragments rh h seq offset pieces) records := by
  induction pieces with
  | nil =>
    intro seq offset records hrec
    rw [fragmentsFrom, handshakeRecords, Except.ok.injEq] at hrec
    subst hrec
    exact List.Forall₂.nil
  | cons piece rest ih =>
    intro seq offset records hrec
    rw [fragmentsFrom, handshakeRecords] at hrec
    split_ifs at hrec
    split at hrec
    · cases hrec
    · rename_i rawPacket hm
      cases hr : handshakeRecords rh (seq + 1) (fragmentsFrom h (offset + piece.length) rest) with
      | error e =>
        rw [hr] at hrec
        cases hrec
      | ok more =>
        rw [hr] at hrec
        cases hrec
        exact List.Forall₂.cons ⟨rawPacket, hm, by rw [List.append_assoc]⟩ (ih _ _ _ hr)

/-- Each fragment sent is one piece behind its header, at an offset no smaller than the first
and ending no later than the last. -/
theorem mem_sentFragments (rh : RecordHeader) (h : HandshakeHeader) (pieces : List (List UInt8)) :
    ∀ {seq : UInt64} {offset : Nat} {fr : Fragment}, fr ∈ sentFragments rh h seq offset pieces →
      ∃ s off piece, fr = ⟨recordlayerHeader rh s ((headerFragment h off piece).marshal ++ piece),
          headerFragment h off piece, piece⟩ ∧
        offset ≤ off ∧ off + piece.length ≤ offset + (pieces.map List.length).sum := by
  induction pieces with
  | nil =>
    intro seq offset fr hfr
    cases hfr
  | cons piece rest ih =>
    intro seq offset fr hfr
    rw [sentFragments, List.mem_cons] at hfr
    rcases hfr with rfl | hfr
    · refine ⟨seq, offset, piece, rfl, le_refl _, ?_⟩
      rw [List.map_cons, List.sum_cons]
      omega
    · obtain ⟨s, off, p, rfl, hlo, hhi⟩ := ih hfr
      refine ⟨s, off, p, rfl, by omega, ?_⟩
      rw [List.map_cons, List.sum_cons]
      omega

theorem map_data_sentFragments (rh : RecordHeader) (h : HandshakeHeader)
    (pieces : List (List UInt8)) :
    ∀ (seq : UInt64) (offset : Nat), (sentFragments rh h seq offset pieces).map Fragment.data = pieces := by
  induction pieces with
  | nil => intro seq offset; rfl
  | cons piece rest ih =>
    intro seq offset
    rw [sentFragments, List.map_cons, ih]

/-- Nonempty pieces that end below `2 ^ 24` are sent end to end. -/
theorem chain_sentFragments (rh : RecordHeader) (h : HandshakeHeader) (pieces : List (List UInt8))
    (hne : ∀ p ∈ pieces, p ≠ []) :
    ∀ (seq : UInt64) (offset : Nat), offset + (pieces.map List.length).sum < 2 ^ 24 →
      Fragment.Chain offset (sentFragments rh h seq offset pieces) := by
  induction pieces with
  | nil => intro seq offset _; trivial
  | cons piece rest ih =>
    intro seq offset hlt
    rw [List.map_cons, List.sum_cons] at hlt
    have hpos : 0 < piece.length := List.length_pos_of_ne_nil (hne piece List.mem_cons_self)
    refine ⟨?_, hpos, ih (fun p hp => hne p (List.mem_cons_of_mem piece hp)) _ _ (by dsimp only; omega)⟩
    show (UInt32.ofNat offset).toNat = offset
    rw [UInt32.toNat_ofNat', Nat.mod_eq_of_lt (by omega)]

theorem exists_of_forall₂_of_mem_left {α β : Type} {R : α → β → Prop} {l : List α} {l' : List β}
    (h : List.Forall₂ R l l') {a : α} (ha : a ∈ l) : ∃ b ∈ l', R a b := by
  induction h with
  | nil => cases ha
  | cons hab _ ih =>
    rcases List.mem_cons.mp ha with rfl | ha'
    · exact ⟨_, List.mem_cons_self, hab⟩
    · obtain ⟨b, hb, hr⟩ := ih ha'
      exact ⟨b, List.mem_cons_of_mem _ hb, hr⟩

theorem exists_of_forall₂_of_mem_right {α β : Type} {R : α → β → Prop} {l : List α} {l' : List β}
    (h : List.Forall₂ R l l') {b : β} (hb : b ∈ l') : ∃ a ∈ l, R a b := by
  induction h with
  | nil => cases hb
  | cons hab _ ih =>
    rcases List.mem_cons.mp hb with rfl | hb'
    · exact ⟨_, List.mem_cons_self, hab⟩
    · obtain ⟨a, ha, hr⟩ := ih hb'
      exact ⟨a, List.mem_cons_of_mem _ ha, hr⟩

/-- The pieces of `fragmentHandshake` are the message, cut. -/
theorem flatten_contentFragments {content : List UInt8} {mtu : Nat} (hmtu : 0 < mtu) :
    (contentFragments content mtu).flatten = content := by
  unfold contentFragments splitBytes
  split_ifs with h
  · rw [chunksOf_eq_nil_iff hmtu] at h
    rw [h]
    rfl
  · exact flatten_chunksOf hmtu content

/-- What `fragmentHandshake` and `handshakeRecords` send for a message shorter than `2 ^ 24`:
one record per fragment, and fragments as the receiver needs them. -/
theorem sentMessage_of_handshakeRecords {h : HandshakeHeader} {content : List UInt8} {mtu : Nat}
    {rh : RecordHeader} {seq : UInt64} {records : List (List UInt8)} (hmtu : 0 < mtu)
    (hlen : h.length.toNat = content.length) (hsmall : content.length < 2 ^ 24)
    (hct : rh.contentType = contentTypeHandshake) (hv : rh.version.Accepted)
    (hrec : handshakeRecords rh seq (fragmentHandshake h content mtu) = .ok records) :
    SentMessage h rh.epoch content (sentFragments rh h seq 0 (contentFragments content mtu)) ∧
      List.Forall₂ Fragment.Sent (sentFragments rh h seq 0 (contentFragments content mtu)) records := by
  set pieces := contentFragments content mtu with hpieces
  have hsum : (pieces.map List.length).sum = content.length := by
    rw [← List.length_flatten, flatten_contentFragments hmtu]
  -- the layout: one empty piece, or nonempty pieces end to end
  have hlayout : (content = [] ∧ ∃ fr, sentFragments rh h seq 0 pieces = [fr] ∧
      fr.handshakeHeader.fragmentOffset = 0) ∨
      (content ≠ [] ∧ Fragment.Chain 0 (sentFragments rh h seq 0 pieces)) := by
    by_cases hc : content = []
    · have hp : pieces = [[]] := by
        rw [hpieces, contentFragments, splitBytes, hc, chunksOf_nil, if_pos rfl]
      rw [hp]
      exact .inl ⟨hc, _, rfl, rfl⟩
    · refine .inr ⟨hc, chain_sentFragments rh h pieces (fun p hp => ?_) seq 0 (by omega)⟩
      rw [hpieces, contentFragments, splitBytes,
        if_neg (by rw [chunksOf_eq_nil_iff hmtu]; exact hc)] at hp
      exact ne_nil_of_mem_chunksOf hp
  have hinj : (∀ a ∈ sentFragments rh h seq 0 pieces, ∀ b ∈ sentFragments rh h seq 0 pieces,
      a.handshakeHeader.fragmentOffset = b.handshakeHeader.fragmentOffset → a = b) ∧
      (sentFragments rh h seq 0 pieces).Nodup := by
    rcases hlayout with ⟨-, fr, hone, -⟩ | ⟨-, hchain⟩
    · rw [hone]
      refine ⟨fun a ha b hb _ => ?_, List.nodup_singleton fr⟩
      rw [List.mem_singleton.mp ha, List.mem_singleton.mp hb]
    · exact hchain.offset_inj
  refine ⟨⟨fun fr hfr => ?_, fun fr hfr => ?_, fun fr hfr => ?_, hlen, ?_, hinj.2, hinj.1, hlayout⟩,
    forall₂_sent_of_handshakeRecords rh h pieces seq 0 records hrec⟩
  · obtain ⟨s, off, piece, rfl, -, -⟩ := mem_sentFragments rh h pieces hfr
    exact ⟨hct, rfl, hv, rfl⟩
  · obtain ⟨s, off, piece, rfl, -, -⟩ := mem_sentFragments rh h pieces hfr
    exact ⟨rfl, rfl, rfl⟩
  · obtain ⟨s, off, piece, rfl, -, hhi⟩ := mem_sentFragments rh h pieces hfr
    have hpiece : (UInt32.ofNat piece.length).toNat = piece.length := by
      rw [UInt32.toNat_ofNat', Nat.mod_eq_of_lt (by omega)]
    refine ⟨⟨by show h.length.toNat < 2 ^ 24; omega, ?_, ?_⟩, hpiece.symm⟩
    · show (UInt32.ofNat off).toNat < 2 ^ 24
      rw [UInt32.toNat_ofNat', Nat.mod_eq_of_lt (by omega)]
      omega
    · show (UInt32.ofNat piece.length).toNat < 2 ^ 24
      omega
  · rw [map_data_sentFragments, flatten_contentFragments hmtu]

/-! ## Receiving -/

/-- The loop of `pop` joins fragments held end to end, from its target to the message's end,
when it has rounds enough for them. The induction is on the fragments, with the target, the
bytes joined so far and the rounds left generalized. -/
theorem Fragments.assemble_chain {frags : Fragments} (hL : frags.handshakeLength.toNat < 2 ^ 24)
    (rest : List Fragment) :
    ∀ (n : Nat) (t : UInt32) (raw : List UInt8), Fragment.Chain t.toNat rest →
      (∀ fr ∈ rest, frags.fragmentByOffset.lookup fr.handshakeHeader.fragmentOffset = some fr ∧
        fr.data.length = fr.handshakeHeader.fragmentLength.toNat ∧ fr.handshakeHeader.Fits) →
      t.toNat + (rest.map fun fr => fr.data.length).sum = frags.handshakeLength.toNat →
      rest.length ≤ n → frags.assemble n t raw = some (raw ++ (rest.map Fragment.data).flatten) := by
  induction rest with
  | nil =>
    intro n t raw _ _ hend _
    rw [List.map_nil, List.sum_nil, Nat.add_zero] at hend
    rw [Fragments.assemble_of_not_lt (by rw [UInt32.lt_iff_toNat_lt]; omega), List.map_nil,
      List.flatten_nil, List.append_nil]
  | cons fr rest ih =>
    intro n t raw hchain hheld hend hn
    obtain ⟨hoff, hpos, hrest⟩ := hchain
    obtain ⟨hfr, hlen, hfits⟩ := hheld fr List.mem_cons_self
    rw [List.map_cons, List.sum_cons] at hend
    have ht : fr.handshakeHeader.fragmentOffset = t := UInt32.toNat_inj.mp hoff
    have hlt : t < frags.handshakeLength := by
      rw [UInt32.lt_iff_toNat_lt]
      omega
    -- the target moves to the fragment's end, without wrapping
    have hnext : (fr.handshakeHeader.fragmentOffset + fr.handshakeHeader.fragmentLength).toNat =
        t.toNat + fr.data.length := by
      have := hfits.fragmentLength_lt
      rw [UInt32.toNat_add, hoff, hlen]
      omega
    obtain ⟨m, rfl⟩ : ∃ m, n = m + 1 := ⟨n - 1, by rw [List.length_cons] at hn; omega⟩
    rw [Fragments.assemble, if_pos hlt, ← ht, hfr]
    dsimp only
    rw [ih m _ _ (by rw [hnext]; exact hrest)
      (fun fr' hfr' => hheld fr' (List.mem_cons_of_mem fr hfr')) (by rw [hnext]; omega)
      (by rw [List.length_cons] at hn; omega), List.map_cons, List.flatten_cons, List.append_assoc]

/-- No fragment of a chain is empty. -/
theorem Fragment.Chain.pos {t : Nat} {l : List Fragment} (h : Fragment.Chain t l) :
    ∀ fr ∈ l, 0 < fr.data.length := by
  induction l generalizing t with
  | nil => intro fr hfr; cases hfr
  | cons x l ih =>
    intro fr hfr
    rcases List.mem_cons.mp hfr with rfl | hfr
    · exact h.2.1
    · exact ih h.2.2 fr hfr

theorem UInt16.add_one_ne_self (x : UInt16) : x + 1 ≠ x := by
  intro h
  have h' := congrArg UInt16.toNat h
  rw [UInt16.toNat_add, UInt16.toNat_one] at h'
  have := x.toNat_lt
  omega

section Receiving

variable {h : HandshakeHeader} {epoch : UInt16} {content : List UInt8} {frs : List Fragment}

/-- The entry of the message `h` in the cache, or the empty one its first fragment opens. -/
def entryOf (h : HandshakeHeader) (g : FragmentBuffer) : Fragments :=
  (g.cache.lookup h.messageSequence).getD ⟨∅, 0, h.length⟩

/-- The fragment is held at its offset in the entry of the message `h`. -/
def Held (h : HandshakeHeader) (g : FragmentBuffer) (fr : Fragment) : Prop :=
  (entryOf h g).fragmentByOffset.lookup fr.handshakeHeader.fragmentOffset = some fr

/-- The entry of the message `h`, whose fragments are `frs`, while `missing` of them are still to
come: each fragment is held at its offset or missing, the entry holds nothing else, and it
counts the bytes and the fragments it holds. -/
structure Gathering (h : HandshakeHeader) (frs : List Fragment) (g : FragmentBuffer)
    (missing : List Fragment) : Prop where
  held_or_missing : ∀ fr ∈ frs, Held h g fr ∨ fr ∈ missing
  missing_sub : ∀ fr ∈ missing, fr ∈ frs
  missing_not_held : ∀ fr ∈ missing, ¬Held h g fr
  missing_nodup : missing.Nodup
  entry_stored : ∀ off fr, (entryOf h g).fragmentByOffset.lookup off = some fr →
    fr ∈ frs ∧ fr.handshakeHeader.fragmentOffset = off
  entry_handshakeLength : (entryOf h g).handshakeLength = h.length
  entry_fragmentsLength : (entryOf h g).fragmentsLength.toNat = (entryOf h g).bytes
  entry_count_pos : h.messageSequence ∈ g.cache → 0 < (entryOf h g).count
  bytes_add : (entryOf h g).bytes + (missing.map fun fr => fr.data.length).sum = h.length.toNat
  count_add : (entryOf h g).count + missing.length = frs.length

/-- The receiver part way through the message `h` whose fragments are `frs`, from the state
`f₀` it started in: `missing` are the fragments not held yet, and the entry holds the others
and counts them. -/
structure Collecting (h : HandshakeHeader) (frs : List Fragment) (f₀ g : FragmentBuffer)
    (missing : List Fragment) : Prop where
  current_eq : g.currentMessageSequenceNumber = h.messageSequence
  next_notMem : h.messageSequence + 1 ∉ g.cache
  held_or_missing : ∀ fr ∈ frs, Held h g fr ∨ fr ∈ missing
  missing_sub : ∀ fr ∈ missing, fr ∈ frs
  missing_not_held : ∀ fr ∈ missing, ¬Held h g fr
  missing_nodup : missing.Nodup
  missing_ne_nil : missing ≠ []
  entry_stored : ∀ off fr, (entryOf h g).fragmentByOffset.lookup off = some fr →
    fr ∈ frs ∧ fr.handshakeHeader.fragmentOffset = off
  entry_handshakeLength : (entryOf h g).handshakeLength = h.length
  entry_fragmentsLength : (entryOf h g).fragmentsLength.toNat = (entryOf h g).bytes
  entry_count_pos : h.messageSequence ∈ g.cache → 0 < (entryOf h g).count
  bytes_add : (entryOf h g).bytes + (missing.map fun fr => fr.data.length).sum = h.length.toNat
  count_add : (entryOf h g).count + missing.length = frs.length
  totalBufferSize_eq : g.totalBufferSize = f₀.totalBufferSize + (entryOf h g).bytes
  totalFragmentCount_eq : g.totalFragmentCount = f₀.totalFragmentCount + (entryOf h g).count

/-- The receiver after the message `h` was popped: it waits for the next one, of which it holds
nothing. -/
structure Delivered (h : HandshakeHeader) (g : FragmentBuffer) : Prop where
  current_eq : g.currentMessageSequenceNumber = h.messageSequence + 1
  current_notMem : h.messageSequence + 1 ∉ g.cache

theorem entryOf_of_notMem {g : FragmentBuffer} (hnone : h.messageSequence ∉ g.cache) :
    entryOf h g = ⟨∅, 0, h.length⟩ := by
  rw [entryOf, AList.lookup_eq_none.mpr hnone, Option.getD_none]

theorem Collecting.gathering {f₀ g : FragmentBuffer} {missing : List Fragment}
    (hc : Collecting h frs f₀ g missing) : Gathering h frs g missing :=
  ⟨hc.held_or_missing, hc.missing_sub, hc.missing_not_held, hc.missing_nodup, hc.entry_stored,
    hc.entry_handshakeLength, hc.entry_fragmentsLength, hc.entry_count_pos, hc.bytes_add,
    hc.count_add⟩

/-- The entry, with the receiver at its message and the totals those of `f₀` and the entry. -/
theorem Gathering.collecting {f₀ g : FragmentBuffer} {missing : List Fragment}
    (hg : Gathering h frs g missing) (hcur : g.currentMessageSequenceNumber = h.messageSequence)
    (hnext : h.messageSequence + 1 ∉ g.cache) (hne : missing ≠ [])
    (htot : g.totalBufferSize = f₀.totalBufferSize + (entryOf h g).bytes)
    (hcnt : g.totalFragmentCount = f₀.totalFragmentCount + (entryOf h g).count) :
    Collecting h frs f₀ g missing :=
  ⟨hcur, hnext, hg.held_or_missing, hg.missing_sub, hg.missing_not_held, hg.missing_nodup, hne,
    hg.entry_stored, hg.entry_handshakeLength, hg.entry_fragmentsLength, hg.entry_count_pos,
    hg.bytes_add, hg.count_add, htot, hcnt⟩

/-- The fragments' bytes together are as many as the message's. -/
theorem SentMessage.sum_length_data (hs : SentMessage h epoch content frs) :
    (frs.map fun fr => fr.data.length).sum = content.length := by
  rw [← hs.flatten_eq, List.length_flatten, List.map_map]
  rfl

/-- A message is sent in one fragment at least. -/
theorem SentMessage.ne_nil (hs : SentMessage h epoch content frs) : frs ≠ [] := by
  rcases hs.layout with ⟨-, fr, hone, -⟩ | ⟨hc, -⟩
  · rw [hone]
    exact List.cons_ne_nil fr []
  · rintro rfl
    exact hc hs.flatten_eq.symm

/-- Before any record of the message, its entry is empty and every fragment is missing. -/
theorem SentMessage.gathering (hs : SentMessage h epoch content frs) {g : FragmentBuffer}
    (hnone : h.messageSequence ∉ g.cache) : Gathering h frs g frs := by
  have he := entryOf_of_notMem hnone
  refine ⟨fun fr hfr => .inr hfr, fun fr hfr => hfr, fun fr hfr hheld => ?_, hs.nodup,
    fun off fr hfr => ?_, by rw [he], by rw [he]; rfl, fun hmem => absurd hmem hnone, ?_, ?_⟩
  · rw [Held, he] at hheld
    cases hheld
  · rw [he] at hfr
    cases hfr
  · rw [he, hs.sum_length_data, hs.length_eq]
    simp [Fragments.bytes]
  · rw [he]
    simp [Fragments.count]

/-- Before any record, every fragment is missing. -/
theorem SentMessage.collecting (hs : SentMessage h epoch content frs) {f₀ : FragmentBuffer}
    (hcur : f₀.currentMessageSequenceNumber = h.messageSequence) (hnone : h.messageSequence ∉ f₀.cache)
    (hnext : h.messageSequence + 1 ∉ f₀.cache) : Collecting h frs f₀ f₀ frs := by
  have he := entryOf_of_notMem hnone
  refine (hs.gathering hnone).collecting hcur hnext hs.ne_nil ?_ ?_
  · rw [he]
    simp [Fragments.bytes]
  · rw [he]
    simp [Fragments.count]

/-! ### One record -/

/-- A record sent for one of the message's fragments is its headers and its bytes. -/
theorem SentMessage.length_record (hs : SentMessage h epoch content frs) {fr : Fragment}
    (hfr : fr ∈ frs) {R : List UInt8} (hR : fr.Sent R) : R.length = 25 + fr.data.length := by
  obtain ⟨bytes, hm, rfl⟩ := hR
  have hbl := (RecordHeader.marshal_eq_ok hm).2
  rw [RecordHeader.size, (hs.record fr hfr).2.1, List.length_nil, fixedHeaderSize] at hbl
  rw [List.length_append, List.length_append, hbl, HandshakeHeader.length_marshal, headerLength]

/-- With room, `push` buffers the fragment of a record sent for the message. -/
theorem SentMessage.push (hs : SentMessage h epoch content frs) {fr : Fragment} (hfr : fr ∈ frs)
    {R : List UInt8} (hR : fr.Sent R) {g : FragmentBuffer}
    (hroom : g.size + R.length < fragmentBufferMaxSize)
    (hcount : g.totalFragmentCount < fragmentBufferMaxCount) :
    g.push R = (g.bufferFragment fr.recordLayerHeader fr.handshakeHeader fr.data,
      .ok (true, g.isRetransmit fr.handshakeHeader)) := by
  obtain ⟨bytes, hm, rfl⟩ := hR
  obtain ⟨hct, hcid, hv, -⟩ := hs.record fr hfr
  obtain ⟨hf, hlen⟩ := hs.stored fr hfr
  exact g.push_record fr.recordLayerHeader hm hct hcid hv hf hlen hroom hcount

/-- Whatever the room, `push` of such a record changes nothing or buffers its fragment. -/
theorem SentMessage.push_fst (hs : SentMessage h epoch content frs) {fr : Fragment} (hfr : fr ∈ frs)
    {R : List UInt8} (hR : fr.Sent R) (g : FragmentBuffer) :
    (g.push R).1 = g ∨
      (g.push R).1 = g.bufferFragment fr.recordLayerHeader fr.handshakeHeader fr.data := by
  by_cases hfull : g.size + R.length ≥ fragmentBufferMaxSize ∨
      g.totalFragmentCount ≥ fragmentBufferMaxCount
  · rw [g.push_of_overflow hfull]
    exact .inl rfl
  · rw [hs.push hfr hR (by omega) (by omega)]
    exact .inr rfl

/-- Two fragments sent as the same record are the same fragment, when the record carries no
connection ID and a version the receiver accepts and the handshake header fits: the record's
headers and bytes are read back off it. -/
theorem Fragment.eq_of_sent {a b : Fragment}
    (ha : a.recordLayerHeader.connectionID = [] ∧ a.recordLayerHeader.version.Accepted ∧
      a.handshakeHeader.Fits)
    (hb : b.recordLayerHeader.connectionID = [] ∧ b.recordLayerHeader.version.Accepted ∧
      b.handshakeHeader.Fits)
    {R : List UInt8} (hRa : a.Sent R) (hRb : b.Sent R) : a = b := by
  obtain ⟨ba, hma, rfl⟩ := hRa
  obtain ⟨bb, hmb, heq⟩ := hRb
  obtain ⟨hcida, hva, hfa⟩ := ha
  obtain ⟨hcidb, hvb, hfb⟩ := hb
  have hua := RecordHeader.unmarshal_of_marshal_eq_ok hma hcida hva
    (a.handshakeHeader.marshal ++ a.data)
  have hub := RecordHeader.unmarshal_of_marshal_eq_ok hmb hcidb hvb
    (b.handshakeHeader.marshal ++ b.data)
  rw [← List.append_assoc] at hua hub
  rw [heq, hub, Except.ok.injEq] at hua
  rw [hua, hma, Except.ok.injEq] at hmb
  rw [hmb, List.append_assoc, List.append_assoc, List.append_cancel_left_eq] at heq
  have hhh := HandshakeHeader.unmarshal_marshal hfa a.data
  rw [heq, HandshakeHeader.unmarshal_marshal hfb b.data, Except.ok.injEq] at hhh
  rw [hhh, List.append_cancel_left_eq] at heq
  cases a
  cases b
  simp only at hua hhh heq
  rw [hua, hhh, heq]

/-- What `Fragment.eq_of_sent` needs of a fragment of the message. -/
theorem SentMessage.readable (hs : SentMessage h epoch content frs) {fr : Fragment}
    (hfr : fr ∈ frs) :
    fr.recordLayerHeader.connectionID = [] ∧ fr.recordLayerHeader.version.Accepted ∧
      fr.handshakeHeader.Fits :=
  ⟨(hs.record fr hfr).2.1, (hs.record fr hfr).2.2.1, (hs.stored fr hfr).1⟩

/-- Two fragments of the message sent as the same record are the same fragment. -/
theorem SentMessage.sent_inj (hs : SentMessage h epoch content frs) {a b : Fragment} (ha : a ∈ frs)
    (hb : b ∈ frs) {R : List UInt8} (hRa : a.Sent R) (hRb : b.Sent R) : a = b :=
  Fragment.eq_of_sent (hs.readable ha) (hs.readable hb) hRa hRb

/-- A fragment of the message is written into the entry of the message. -/
theorem SentMessage.messageFragments (hs : SentMessage h epoch content frs) {fr : Fragment}
    (hfr : fr ∈ frs) (g : FragmentBuffer) : g.messageFragments fr.handshakeHeader = entryOf h g := by
  obtain ⟨-, hlen, hseq⟩ := hs.header fr hfr
  rw [FragmentBuffer.messageFragments, entryOf, hlen, hseq]

/-- A record whose fragment is held already leaves the buffer as it was. -/
theorem SentMessage.push_fst_of_held (hs : SentMessage h epoch content frs) {fr : Fragment}
    (hfr : fr ∈ frs) {R : List UInt8} (hR : fr.Sent R) {g : FragmentBuffer} (hheld : Held h g fr) :
    (g.push R).1 = g := by
  rcases hs.push_fst hfr hR g with he | he
  · exact he
  · have hmem : fr.handshakeHeader.fragmentOffset ∈
        (g.messageFragments fr.handshakeHeader).fragmentByOffset := by
      rw [hs.messageFragments hfr g]
      exact AList.lookup_isSome.mp (by rw [hheld]; rfl)
    rw [he]
    unfold FragmentBuffer.bufferFragment
    split_ifs
    · rfl
    · exact g.store_of_mem _ hmem

/-- A record of a message older than the current one leaves the buffer as it was. -/
theorem SentMessage.push_fst_of_lt (hs : SentMessage h epoch content frs) {fr : Fragment}
    (hfr : fr ∈ frs) {R : List UInt8} (hR : fr.Sent R) {g : FragmentBuffer}
    (hlt : h.messageSequence < g.currentMessageSequenceNumber) : (g.push R).1 = g := by
  rcases hs.push_fst hfr hR g with he | he
  · exact he
  · rw [he, g.bufferFragment_of_lt _ (by rw [(hs.header fr hfr).2.2]; exact hlt)]

/-- With room, a record of a message not older than the current one stores its fragment, and
`pop` then runs on the result. -/
theorem SentMessage.handleRecord_of_room (hs : SentMessage h epoch content frs) {fr : Fragment}
    (hfr : fr ∈ frs) {R : List UInt8} (hR : fr.Sent R) {g : FragmentBuffer}
    (hroom : g.size + R.length < fragmentBufferMaxSize)
    (hcount : g.totalFragmentCount < fragmentBufferMaxCount)
    (hle : g.currentMessageSequenceNumber ≤ h.messageSequence) :
    g.handleRecord R = (g.store fr.recordLayerHeader fr.handshakeHeader fr.data).popAll := by
  have hpush := hs.push hfr hR hroom hcount
  rw [g.handleRecord_of_ok (by rw [hpush]), hpush,
    g.bufferFragment_of_le _ (by rw [(hs.header fr hfr).2.2]; exact hle)]

/-- While a fragment is missing, `pop` at the message finds it incomplete: its entry, if there
is one, holds fewer bytes than the message, or it holds none when the message is empty. -/
theorem Gathering.pop_eq_none (hs : SentMessage h epoch content frs) {g : FragmentBuffer}
    {missing : List Fragment} (hg : Gathering h frs g missing)
    (hcur : g.currentMessageSequenceNumber = h.messageSequence) (hne : missing ≠ []) :
    g.pop = .none := by
  cases hl : g.cache.lookup h.messageSequence with
  | none => exact g.pop_of_lookup_eq_none (by rw [hcur, hl])
  | some E =>
    have hE : entryOf h g = E := by rw [entryOf, hl, Option.getD_some]
    have hpos := hg.entry_count_pos (AList.lookup_isSome.mp (by rw [hl]; rfl))
    refine g.pop_of_fragmentsLength_ne (by rw [hcur, hl]) fun heq => ?_
    have hfl := hg.entry_fragmentsLength
    have hhl := hg.entry_handshakeLength
    have hb := hg.bytes_add
    have hk := hg.count_add
    rw [hE] at hfl hhl hb hk hpos
    rw [heq, hhl] at hfl
    -- the entry would have all the bytes, so the missing fragments would have none
    have hM0 : (missing.map fun fr => fr.data.length).sum = 0 := by omega
    obtain ⟨m, hm⟩ := List.exists_mem_of_ne_nil missing hne
    rcases hs.layout with ⟨-, fr, hone, -⟩ | ⟨-, hchain⟩
    · have hlen : 0 < missing.length := List.length_pos_of_mem hm
      rw [hone, List.length_singleton] at hk
      omega
    · have hmpos := hchain.pos m (hg.missing_sub m hm)
      have := List.sum_eq_zero_iff.mp hM0 _ (List.mem_map_of_mem hm)
      omega

theorem Collecting.pop_eq_none (hs : SentMessage h epoch content frs) {f₀ g : FragmentBuffer}
    {missing : List Fragment} (hc : Collecting h frs f₀ g missing) : g.pop = .none :=
  hc.gathering.pop_eq_none hs hc.current_eq hc.missing_ne_nil

/-- A record whose fragment is held already changes nothing and yields nothing. -/
theorem Collecting.handleRecord_of_held (hs : SentMessage h epoch content frs)
    {f₀ g : FragmentBuffer} {missing : List Fragment} (hc : Collecting h frs f₀ g missing)
    {fr : Fragment} (hfr : fr ∈ frs) {R : List UInt8} (hR : fr.Sent R) (hheld : Held h g fr) :
    g.handleRecord R = some ([], g) := by
  have hsame := hs.push_fst_of_held hfr hR hheld
  rw [g.handleRecord_of_pop_none (by rw [hsame]; exact hc.pop_eq_none hs), hsame]

/-- A fragment not held is not at its offset either: what is held there is in `frs`, and in
`frs` the offset tells the fragment. -/
theorem Gathering.notMem_of_not_held (hs : SentMessage h epoch content frs) {g : FragmentBuffer}
    {missing : List Fragment} (hg : Gathering h frs g missing) {fr : Fragment} (hfr : fr ∈ frs)
    (hnot : ¬Held h g fr) : fr.handshakeHeader.fragmentOffset ∉ (entryOf h g).fragmentByOffset := by
  intro hmem
  obtain ⟨fr', hfr'⟩ := Option.isSome_iff_exists.mp (AList.lookup_isSome.mpr hmem)
  obtain ⟨hin, hoff⟩ := hg.entry_stored _ fr' hfr'
  rw [hs.offset_inj fr' hin fr hfr hoff] at hfr'
  exact hnot hfr'

/-- Storing a new fragment of the message puts it into the entry of the message. -/
theorem SentMessage.store_eq (hs : SentMessage h epoch content frs) {fr : Fragment} (hfr : fr ∈ frs)
    {g : FragmentBuffer} (hnot : fr.handshakeHeader.fragmentOffset ∉ (entryOf h g).fragmentByOffset) :
    g.store fr.recordLayerHeader fr.handshakeHeader fr.data =
      { g with
        cache := g.cache.insert h.messageSequence ((entryOf h g).add fr)
        totalBufferSize := g.totalBufferSize + fr.data.length
        totalFragmentCount := g.totalFragmentCount + 1 } := by
  rw [← hs.messageFragments hfr g] at hnot
  rw [g.store_of_notMem _ hnot, hs.messageFragments hfr g, (hs.stored fr hfr).2, (hs.header fr hfr).2.2]

/-- Storing a fragment of the message opens no entry for the next message. -/
theorem SentMessage.next_notMem_store (hs : SentMessage h epoch content frs) {fr : Fragment}
    (hfr : fr ∈ frs) {g : FragmentBuffer} (hnext : h.messageSequence + 1 ∉ g.cache) :
    h.messageSequence + 1 ∉ (g.store fr.recordLayerHeader fr.handshakeHeader fr.data).cache := by
  intro hmem
  rcases FragmentBuffer.mem_cache_store _ _ hmem with heq | hmem
  · rw [(hs.header fr hfr).2.2] at heq
    exact UInt16.add_one_ne_self _ heq
  · exact hnext hmem

/-- A missing fragment adds its bytes to the entry's `fragmentsLength`, which stays within the
message's length and so does not wrap. -/
theorem Gathering.fragmentsLength_add (hs : SentMessage h epoch content frs) {g : FragmentBuffer}
    {missing : List Fragment} (hg : Gathering h frs g missing) {fr : Fragment} (hfr : fr ∈ frs)
    (hmiss : fr ∈ missing) :
    ((entryOf h g).add fr).fragmentsLength.toNat = (entryOf h g).bytes + fr.data.length := by
  have hle : fr.data.length ≤ (missing.map fun fr => fr.data.length).sum :=
    List.le_sum_of_mem (List.mem_map_of_mem hmiss)
  have hb := hg.bytes_add
  have hlt := h.length.toNat_lt
  have hfl := hg.entry_fragmentsLength
  rw [Fragments.fragmentsLength_add (hs.stored fr hfr).2 (by omega), hfl]

/-- A new fragment of the message goes into the message's entry. -/
theorem Gathering.entryOf_store (hs : SentMessage h epoch content frs) {g : FragmentBuffer}
    {missing : List Fragment} (hg : Gathering h frs g missing) {fr : Fragment} (hfr : fr ∈ frs)
    (hnot : ¬Held h g fr) :
    entryOf h (g.store fr.recordLayerHeader fr.handshakeHeader fr.data) = (entryOf h g).add fr := by
  rw [hs.store_eq hfr (hg.notMem_of_not_held hs hfr hnot), entryOf]
  dsimp only
  rw [AList.lookup_insert, Option.getD_some]

/-- A new fragment adds its bytes to the buffer's total. -/
theorem Gathering.totalBufferSize_store (hs : SentMessage h epoch content frs) {g : FragmentBuffer}
    {missing : List Fragment} (hg : Gathering h frs g missing) {fr : Fragment} (hfr : fr ∈ frs)
    (hnot : ¬Held h g fr) :
    (g.store fr.recordLayerHeader fr.handshakeHeader fr.data).totalBufferSize =
      g.totalBufferSize + fr.data.length := by
  rw [hs.store_eq hfr (hg.notMem_of_not_held hs hfr hnot)]

/-- A new fragment adds one to the buffer's count. -/
theorem Gathering.totalFragmentCount_store (hs : SentMessage h epoch content frs)
    {g : FragmentBuffer} {missing : List Fragment} (hg : Gathering h frs g missing) {fr : Fragment}
    (hfr : fr ∈ frs) (hnot : ¬Held h g fr) :
    (g.store fr.recordLayerHeader fr.handshakeHeader fr.data).totalFragmentCount =
      g.totalFragmentCount + 1 := by
  rw [hs.store_eq hfr (hg.notMem_of_not_held hs hfr hnot)]

/-- After a new fragment, the entry holds it too and it is no longer missing. -/
theorem Gathering.store (hs : SentMessage h epoch content frs) {g : FragmentBuffer}
    {missing : List Fragment} (hg : Gathering h frs g missing) {fr : Fragment} (hfr : fr ∈ frs)
    (hnot : ¬Held h g fr) :
    Gathering h frs (g.store fr.recordLayerHeader fr.handshakeHeader fr.data) (missing.erase fr) := by
  have hnotmem := hg.notMem_of_not_held hs hfr hnot
  have hmiss : fr ∈ missing := (hg.held_or_missing fr hfr).resolve_left hnot
  have hentry := hg.entryOf_store hs hfr hnot
  have hne : ∀ fr' ∈ frs, fr' ≠ fr →
      fr'.handshakeHeader.fragmentOffset ≠ fr.handshakeHeader.fragmentOffset :=
    fun fr' hfr' hne hoff => hne (hs.offset_inj fr' hfr' fr hfr hoff)
  have hperm := List.perm_cons_erase hmiss
  have hsum : (missing.map fun fr => fr.data.length).sum =
      fr.data.length + ((missing.erase fr).map fun fr => fr.data.length).sum := by
    rw [(hperm.map _).sum_eq, List.map_cons, List.sum_cons]
  have hlen : missing.length = (missing.erase fr).length + 1 := by
    rw [hperm.length_eq, List.length_cons]
  have hbytes := Fragments.bytes_add hnotmem
  have hcount := Fragments.count_add hnotmem
  have hb := hg.bytes_add
  refine ⟨fun fr' hfr' => ?_, fun fr' hfr' => hg.missing_sub fr' (List.mem_of_mem_erase hfr'),
    fun fr' hfr' hheld => ?_, hg.missing_nodup.erase fr, fun off fr' hfr' => ?_, ?_, ?_,
    fun _ => ?_, ?_, ?_⟩
  · by_cases heq : fr' = fr
    · subst heq
      exact .inl (by rw [Held, hentry, Fragments.lookup_add_self])
    · rcases hg.held_or_missing fr' hfr' with hheld | hm
      · exact .inl (by rw [Held, hentry, Fragments.lookup_add_of_ne _ _ (hne fr' hfr' heq)]; exact hheld)
      · exact .inr ((hg.missing_nodup.mem_erase_iff).mpr ⟨heq, hm⟩)
  · obtain ⟨hne', hm⟩ := (hg.missing_nodup.mem_erase_iff).mp hfr'
    rw [Held, hentry, Fragments.lookup_add_of_ne _ _ (hne fr' (hg.missing_sub fr' hm) hne')] at hheld
    exact hg.missing_not_held fr' hm hheld
  · rw [hentry] at hfr'
    by_cases hoff : off = fr.handshakeHeader.fragmentOffset
    · rw [hoff, Fragments.lookup_add_self, Option.some.injEq] at hfr'
      subst hfr'
      exact ⟨hfr, hoff.symm⟩
    · rw [Fragments.lookup_add_of_ne _ _ hoff] at hfr'
      exact hg.entry_stored off fr' hfr'
  · rw [hentry, Fragments.handshakeLength_add]
    exact hg.entry_handshakeLength
  · rw [hentry, hbytes, hg.fragmentsLength_add hs hfr hmiss]
    omega
  · rw [hentry, hcount]
    omega
  · rw [hentry, hbytes]
    omega
  · rw [hentry, hcount]
    have hk := hg.count_add
    omega

/-- A record whose fragment is not held yet brings it in, and `pop` then runs on the result. -/
theorem Collecting.handleRecord_of_not_held (hs : SentMessage h epoch content frs)
    {f₀ g : FragmentBuffer} {missing : List Fragment} (hc : Collecting h frs f₀ g missing)
    (hroom : f₀.totalBufferSize + content.length + 25 < fragmentBufferMaxSize)
    (hcount : f₀.totalFragmentCount + frs.length ≤ fragmentBufferMaxCount)
    {fr : Fragment} (hfr : fr ∈ frs) {R : List UInt8} (hR : fr.Sent R) (hnot : ¬Held h g fr) :
    g.handleRecord R = (g.store fr.recordLayerHeader fr.handshakeHeader fr.data).popAll := by
  have hmiss : fr ∈ missing := (hc.held_or_missing fr hfr).resolve_left hnot
  -- there is room: the fragment is one of the bytes and one of the fragments still missing
  have hle : fr.data.length ≤ (missing.map fun fr => fr.data.length).sum :=
    List.le_sum_of_mem (List.mem_map_of_mem hmiss)
  have hlen : 0 < missing.length := List.length_pos_of_mem hmiss
  have hb := hc.bytes_add
  have hk := hc.count_add
  have hR' := hs.length_record hfr hR
  have htot := hc.totalBufferSize_eq
  have hcnt := hc.totalFragmentCount_eq
  have hL := hs.length_eq
  exact hs.handleRecord_of_room hfr hR (by rw [FragmentBuffer.size]; omega) (by omega)
    (by rw [hc.current_eq]; exact UInt16.le_refl _)

/-- After a new fragment that leaves others missing, the receiver is still collecting. -/
theorem Collecting.store (hs : SentMessage h epoch content frs) {f₀ g : FragmentBuffer}
    {missing : List Fragment} (hc : Collecting h frs f₀ g missing) {fr : Fragment} (hfr : fr ∈ frs)
    (hnot : ¬Held h g fr) (hrest : missing.erase fr ≠ []) :
    Collecting h frs f₀ (g.store fr.recordLayerHeader fr.handshakeHeader fr.data)
      (missing.erase fr) := by
  have hnotmem := hc.gathering.notMem_of_not_held hs hfr hnot
  have hentry := hc.gathering.entryOf_store hs hfr hnot
  refine (hc.gathering.store hs hfr hnot).collecting ?_ (hs.next_notMem_store hfr hc.next_notMem)
    hrest ?_ ?_
  · rw [FragmentBuffer.currentMessageSequenceNumber_store]
    exact hc.current_eq
  · rw [hentry, Fragments.bytes_add hnotmem, hc.gathering.totalBufferSize_store hs hfr hnot,
      hc.totalBufferSize_eq]
    push_cast
    omega
  · rw [hentry, Fragments.count_add hnotmem, hc.gathering.totalFragmentCount_store hs hfr hnot,
      hc.totalFragmentCount_eq]
    push_cast
    omega

/-- Once every fragment of the message is held, under its offset, in an entry that counts the
message's bytes, `pop` returns the marshalled handshake and the epoch of its first fragment. -/
theorem SentMessage.pop_of_all_held (hs : SentMessage h epoch content frs) {g : FragmentBuffer}
    {E : Fragments} (hcur : g.currentMessageSequenceNumber = h.messageSequence)
    (hl : g.cache.lookup h.messageSequence = some E) (hhl : E.handshakeLength = h.length)
    (hfl : E.fragmentsLength = h.length) (hcount : frs.length ≤ E.count)
    (hheld : ∀ fr ∈ frs, E.fragmentByOffset.lookup fr.handshakeHeader.fragmentOffset = some fr) :
    g.pop = .message (h.whole.marshal ++ content) epoch (g.advance E) := by
  obtain ⟨fr₀, hfr₀, hoff₀⟩ : ∃ fr₀ ∈ frs, fr₀.handshakeHeader.fragmentOffset = 0 := by
    rcases hs.layout with ⟨-, fr, hone, hoff⟩ | ⟨hne, hchain⟩
    · exact ⟨fr, by rw [hone]; exact List.mem_singleton_self fr, hoff⟩
    · cases frs with
      | nil => exact absurd hs.flatten_eq.symm hne
      | cons fr rest => exact ⟨fr, List.mem_cons_self, UInt32.toNat_inj.mp hchain.1⟩
  have hL : h.length.toNat < 2 ^ 24 := by
    rw [← (hs.header fr₀ hfr₀).2.1]
    exact (hs.stored fr₀ hfr₀).1.length_lt
  -- the loop joins the fragments from offset zero to the message's end
  have hassemble : E.assemble E.fragmentByOffset.entries.length 0 [] = some content := by
    rcases hs.layout with ⟨hc, -⟩ | ⟨-, hchain⟩
    · rw [Fragments.assemble_of_not_lt (by rw [hhl, UInt32.lt_iff_toNat_lt, hs.length_eq, hc]; simp),
        hc]
    · rw [E.assemble_chain (by rw [hhl]; exact hL) frs E.fragmentByOffset.entries.length 0 [] hchain
        (fun fr hfr => ⟨hheld fr hfr, (hs.stored fr hfr).2, (hs.stored fr hfr).1⟩)
        (by rw [UInt32.toNat_zero, Nat.zero_add, hhl, hs.length_eq, hs.sum_length_data]) hcount,
        List.nil_append, hs.flatten_eq]
  have hwhole : fr₀.handshakeHeader.whole = h.whole := by
    obtain ⟨ht, hlen, hseq⟩ := hs.header fr₀ hfr₀
    simp only [HandshakeHeader.whole, ht, hlen, hseq]
  exact g.pop_eq_message_iff.mpr ⟨E, content, fr₀, by rw [hcur]; exact hl, hfl.trans hhl.symm,
    hassemble, by rw [hhl, hs.length_eq], by rw [← hoff₀]; exact hheld fr₀ hfr₀, by rw [hwhole],
    (hs.record fr₀ hfr₀).2.2.2.symm, rfl⟩

/-- Once no fragment is missing, the entry is in the cache and `pop` at the message returns it,
dropping the entry. -/
theorem Gathering.pop_of_complete (hs : SentMessage h epoch content frs) {g : FragmentBuffer}
    (hg : Gathering h frs g []) (hcur : g.currentMessageSequenceNumber = h.messageSequence) :
    g.cache.lookup h.messageSequence = some (entryOf h g) ∧
      g.pop = .message (h.whole.marshal ++ content) epoch (g.advance (entryOf h g)) := by
  have hb := hg.bytes_add
  have hk := hg.count_add
  rw [List.map_nil, List.sum_nil, Nat.add_zero] at hb
  rw [List.length_nil, Nat.add_zero] at hk
  -- an empty entry would count none of the message's fragments, and there is one at least
  have hl : g.cache.lookup h.messageSequence = some (entryOf h g) := by
    cases hl : g.cache.lookup h.messageSequence with
    | none =>
      rw [entryOf, hl, Option.getD_none] at hk
      exact absurd (List.eq_nil_of_length_eq_zero hk.symm) hs.ne_nil
    | some E => rw [entryOf, hl, Option.getD_some]
  refine ⟨hl, hs.pop_of_all_held hcur hl hg.entry_handshakeLength ?_ hk.ge fun fr hfr => ?_⟩
  · apply UInt32.toNat_inj.mp
    rw [hg.entry_fragmentsLength, hb]
  · exact (hg.held_or_missing fr hfr).resolve_right List.not_mem_nil

/-- The record that brings the last missing fragment: `pop` returns the message, then finds
nothing of the next one. -/
theorem Collecting.popAll_store_of_last (hs : SentMessage h epoch content frs)
    {f₀ g : FragmentBuffer} {missing : List Fragment} (hc : Collecting h frs f₀ g missing)
    {fr : Fragment} (hfr : fr ∈ frs) (hnot : ¬Held h g fr) (hlast : missing.erase fr = []) :
    ∃ g', (g.store fr.recordLayerHeader fr.handshakeHeader fr.data).popAll =
      some ([(h.whole.marshal ++ content, epoch)], g') ∧ Delivered h g' := by
  have hg := hc.gathering.store hs hfr hnot
  rw [hlast] at hg
  set g' := g.store fr.recordLayerHeader fr.handshakeHeader fr.data with hg'
  have hcur : g'.currentMessageSequenceNumber = h.messageSequence := by
    rw [hg', FragmentBuffer.currentMessageSequenceNumber_store]
    exact hc.current_eq
  obtain ⟨-, hpop⟩ := hg.pop_of_complete hs hcur
  -- after it the current message is the next one, of which nothing is held
  have hnext : (g'.advance (entryOf h g')).currentMessageSequenceNumber = h.messageSequence + 1 := by
    show g'.currentMessageSequenceNumber + 1 = _
    rw [hcur]
  have hnotnext : h.messageSequence + 1 ∉ (g'.advance (entryOf h g')).cache := by
    intro hmem
    obtain ⟨-, hmem⟩ := AList.mem_erase.mp hmem
    exact hs.next_notMem_store hfr hc.next_notMem hmem
  have hpop' : (g'.advance (entryOf h g')).pop = .none :=
    FragmentBuffer.pop_of_lookup_eq_none _ (by rw [hnext]; exact AList.lookup_eq_none.mpr hnotnext)
  refine ⟨g'.advance (entryOf h g'), ?_, ⟨hnext, hnotnext⟩⟩
  rw [g'.popAll_of_pop_message hpop, FragmentBuffer.popAll_of_pop_none _ hpop']
  rfl

/-- After the message, every record of it is a retransmission or opens an entry for it again,
and the next message stays empty. -/
theorem Delivered.handleRecord (hs : SentMessage h epoch content frs) {g : FragmentBuffer}
    (hd : Delivered h g) {fr : Fragment} (hfr : fr ∈ frs) {R : List UInt8} (hR : fr.Sent R) :
    g.handleRecord R = some ([], (g.push R).1) ∧ Delivered h (g.push R).1 := by
  have hd' : Delivered h (g.push R).1 := by
    rcases hs.push_fst hfr hR g with he | he
    · rw [he]
      exact hd
    · rw [he]
      unfold FragmentBuffer.bufferFragment
      split_ifs
      · exact hd
      · exact ⟨by rw [FragmentBuffer.currentMessageSequenceNumber_store]; exact hd.current_eq,
          hs.next_notMem_store hfr hd.current_notMem⟩
  exact ⟨g.handleRecord_of_pop_none (FragmentBuffer.pop_of_lookup_eq_none _
    (by rw [hd'.current_eq]; exact AList.lookup_eq_none.mpr hd'.current_notMem)), hd'⟩

/-! ### Runs -/

/-- After the message, records of it yield nothing more. The induction is on the records. -/
theorem Delivered.handleRecords (hs : SentMessage h epoch content frs) (ds : List (List UInt8))
    (hds : ∀ R ∈ ds, ∃ fr ∈ frs, fr.Sent R) {g : FragmentBuffer} (hd : Delivered h g) :
    ∃ g', g.handleRecords ds = some ([], g') ∧ Delivered h g' := by
  induction ds generalizing g with
  | nil => exact ⟨g, rfl, hd⟩
  | cons R ds ih =>
    obtain ⟨fr, hfr, hR⟩ := hds R List.mem_cons_self
    obtain ⟨hstep, hd'⟩ := hd.handleRecord hs hfr hR
    obtain ⟨g', hrun, hd''⟩ := ih (fun R' hR' => hds R' (List.mem_cons_of_mem R hR')) hd'
    exact ⟨g', by rw [g.handleRecords_cons hstep, hrun]; rfl, hd''⟩

/-- While fragments are missing, records of the message that bring each missing one at least
once yield the message exactly once. The induction is on the records, with the state and the
missing fragments generalized; a record either repeats a fragment held, changes nothing and
leaves its coverage to the rest, or brings a missing one, which is then the last or not. -/
theorem Collecting.handleRecords (hs : SentMessage h epoch content frs) {f₀ : FragmentBuffer}
    (hroom : f₀.totalBufferSize + content.length + 25 < fragmentBufferMaxSize)
    (hcount : f₀.totalFragmentCount + frs.length ≤ fragmentBufferMaxCount)
    (ds : List (List UInt8)) (hds : ∀ R ∈ ds, ∃ fr ∈ frs, fr.Sent R) {g : FragmentBuffer}
    {missing : List Fragment} (hc : Collecting h frs f₀ g missing)
    (hcov : ∀ fr ∈ missing, ∃ R ∈ ds, fr.Sent R) :
    ∃ g', g.handleRecords ds = some ([(h.whole.marshal ++ content, epoch)], g') ∧ Delivered h g' := by
  induction ds generalizing g missing with
  | nil =>
    obtain ⟨m, hm⟩ := List.exists_mem_of_ne_nil missing hc.missing_ne_nil
    obtain ⟨R, hR, -⟩ := hcov m hm
    cases hR
  | cons R ds ih =>
    have hds' : ∀ R' ∈ ds, ∃ fr ∈ frs, fr.Sent R' := fun R' hR' => hds R' (List.mem_cons_of_mem R hR')
    obtain ⟨fr, hfr, hR⟩ := hds R List.mem_cons_self
    -- what `R` does not cover, the rest of the records do
    have hcov' : ∀ fr' ∈ missing, fr' ≠ fr → ∃ R' ∈ ds, fr'.Sent R' := by
      intro fr' hm hne
      obtain ⟨R', hR', hsent⟩ := hcov fr' hm
      rcases List.mem_cons.mp hR' with rfl | hR'
      · exact absurd (hs.sent_inj (hc.missing_sub fr' hm) hfr hsent hR) hne
      · exact ⟨R', hR', hsent⟩
    by_cases hheld : Held h g fr
    · obtain ⟨g', hrun, hd⟩ := ih hds' hc fun fr' hm =>
        hcov' fr' hm fun heq => hc.missing_not_held fr' hm (heq ▸ hheld)
      exact ⟨g', by rw [g.handleRecords_cons (hc.handleRecord_of_held hs hfr hR hheld), hrun]; rfl, hd⟩
    · have hstep := hc.handleRecord_of_not_held hs hroom hcount hfr hR hheld
      by_cases hlast : missing.erase fr = []
      · obtain ⟨g', hpop, hd⟩ := hc.popAll_store_of_last hs hfr hheld hlast
        obtain ⟨g'', hrun, hd'⟩ := hd.handleRecords hs ds hds'
        exact ⟨g'', by rw [g.handleRecords_cons (hstep.trans hpop), hrun]; rfl, hd'⟩
      · have hc' := hc.store hs hfr hheld hlast
        obtain ⟨g', hrun, hd⟩ := ih hds' hc' fun fr' hm => by
          obtain ⟨hne, hm'⟩ := (hc.missing_nodup.mem_erase_iff).mp hm
          exact hcov' fr' hm' hne
        refine ⟨g', ?_, hd⟩
        rw [g.handleRecords_cons (hstep.trans (FragmentBuffer.popAll_of_pop_none _ (hc'.pop_eq_none hs))),
          hrun]
        rfl

end Receiving

/-- A handshake message sent by `fragmentHandshake` and `processHandshakePacket` comes out of
the receiver's fragment buffer once and whole, whatever order its records arrive in and however
often each is repeated, as long as each arrives: the loop of `handleIncomingPacket` over the
records returns the marshalled handshake with the epoch it was sent in, and nothing else. The
receiver is at the message, holds nothing of it or of the next one, and has room for the
message and its fragments. -/
theorem handleRecords_fragmentHandshake {h : HandshakeHeader} {content : List UInt8} {mtu : Nat}
    {rh : RecordHeader} {seq : UInt64} {records delivered : List (List UInt8)} {f : FragmentBuffer}
    (hmtu : 0 < mtu) (hlen : h.length.toNat = content.length) (hsmall : content.length < 2 ^ 24)
    (hct : rh.contentType = contentTypeHandshake) (hv : rh.version.Accepted)
    (hrec : handshakeRecords rh seq (fragmentHandshake h content mtu) = .ok records)
    (hcur : f.currentMessageSequenceNumber = h.messageSequence) (hnone : h.messageSequence ∉ f.cache)
    (hnext : h.messageSequence + 1 ∉ f.cache)
    (hroom : f.totalBufferSize + content.length + 25 < fragmentBufferMaxSize)
    (hcount : f.totalFragmentCount + (contentFragments content mtu).length ≤ fragmentBufferMaxCount)
    (hsub : ∀ R ∈ delivered, R ∈ records) (hall : ∀ R ∈ records, R ∈ delivered) :
    ∃ g, f.handleRecords delivered = some ([(h.whole.marshal ++ content, rh.epoch)], g) ∧
      g.currentMessageSequenceNumber = h.messageSequence + 1 := by
  obtain ⟨hs, hsent⟩ := sentMessage_of_handshakeRecords hmtu hlen hsmall hct hv hrec
  have hk : (sentFragments rh h seq 0 (contentFragments content mtu)).length =
      (contentFragments content mtu).length := by
    rw [← List.length_map Fragment.data, map_data_sentFragments]
  obtain ⟨g, hrun, hd⟩ := (hs.collecting hcur hnone hnext).handleRecords hs hroom (by rw [hk]; exact hcount)
    delivered (fun R hR => exists_of_forall₂_of_mem_right hsent (hsub R hR))
    (fun fr hfr => by
      obtain ⟨R, hR, hsR⟩ := exists_of_forall₂_of_mem_left hsent hfr
      exact ⟨R, hall R hR, hsR⟩)
  exact ⟨g, hrun, hd.current_eq⟩

/-- A message of three bytes sent in pieces of two, its two records delivered in reverse order
and then both again. -/
theorem handleRecords_fragmentHandshake_reordered :
    ∃ records, handshakeRecords ⟨22, 0, version1_2, 0, 0, []⟩ 0
        (fragmentHandshake ⟨1, 3, 0, 0, 3⟩ [1, 2, 3] 2) = .ok records ∧
      ∃ g, newFragmentBuffer.handleRecords (records.reverse ++ records) =
        some ([((HandshakeHeader.whole ⟨1, 3, 0, 0, 3⟩).marshal ++ [1, 2, 3], 0)], g) ∧
        g.currentMessageSequenceNumber = 1 := by
  have h1 : chunksOf 2 ([3] : List UInt8) = [[3]] := chunksOf_of_length_le (by simp) (by simp)
  have hsplit : contentFragments [1, 2, 3] 2 = [[1, 2], [3]] := by
    rw [contentFragments, splitBytes, chunksOf_of_ne_nil (by decide) (by simp)]
    simp only [List.take, List.drop, h1]
    rfl
  obtain ⟨records, hrec⟩ : ∃ records, handshakeRecords ⟨22, 0, version1_2, 0, 0, []⟩ 0
      (fragmentHandshake ⟨1, 3, 0, 0, 3⟩ [1, 2, 3] 2) = .ok records :=
    ⟨_, by rw [fragmentHandshake, hsplit]; rfl⟩
  exact ⟨records, hrec, handleRecords_fragmentHandshake (by decide) rfl (by decide) rfl (.inr rfl)
    hrec rfl (AList.notMem_empty _) (AList.notMem_empty _) (by decide) (by rw [hsplit]; decide)
    (fun R hR => (List.mem_append.mp hR).elim List.mem_reverse.mp id)
    (fun R hR => List.mem_append_right _ hR)⟩

end Snowflake.Dtls
