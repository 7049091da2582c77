import Mathlib
import Snowflake.Lib.BigEndian
/-
The two headers in front of every DTLS handshake fragment, from the copy of pion/dtls that the
repository carries under `dtls/` (go.mod puts it in place of `github.com/pion/dtls/v3`):
`pkg/protocol/recordlayer/header.go`, the 13 bytes of a record (content type, version, epoch, a
48-bit sequence number, an optional connection ID and the content length), and
`pkg/protocol/handshake/header.go`, the 12 bytes of a handshake fragment (type, message length,
message sequence, and the fragment's offset and length, each length a 24-bit field), with the
big-endian helpers of `internal/util` and `encoding/binary` they are written with.

## The model

A `[]byte` is a list of bytes. `Marshal` builds its output with `make` and a series of `Put`
calls that cover it exactly, so it is the concatenation of the fields. `Unmarshal` fills the
receiver from the front of its argument, or fails; the record header's `Unmarshal` reads the
length of the connection ID the receiver holds before the call, which is its only input besides
the bytes. Errors are the values of `internal/errors` the code returns.

## What is proved

Each header read off the front of a longer list is the header that was written
(`HandshakeHeader.unmarshal_marshal`, `RecordHeader.unmarshal_marshal`), and whatever
`Unmarshal` accepts is the encoding of what it returns (`HandshakeHeader.marshal_unmarshal`,
`RecordHeader.marshal_unmarshal`); together, `Unmarshal` accepts exactly the encodings of the
headers it can read back (`HandshakeHeader.unmarshal_eq_ok_iff_fits`,
`RecordHeader.unmarshal_eq_ok_iff_accepted`).
For the record header this needs the connection ID to be present exactly when the content type
is `tls12_cid`: `Marshal` writes the ID whatever the type, and `Unmarshal` reads one only for
that type.
-/

set_option autoImplicit false

namespace Snowflake.Dtls

open BigEndian

/-- The errors of `internal/errors` that the record and fragment code returns. -/
inductive Error
  | bufferTooSmall
  | unsupportedProtocolVersion
  | sequenceNumberOverflow
  | invalidPacketLength
  | fragmentBufferOverflow
  deriving DecidableEq, Repr

/-! ## `encoding/binary` and `internal/util` -/

/-- `binary.BigEndian.PutUint16`. -/
def putUint16 (v : UInt16) : List UInt8 := toBytes 2 v.toNat

/-- `binary.BigEndian.Uint16`, of the first two bytes. -/
def uint16 (b : List UInt8) : UInt16 := UInt16.ofNat (ofBytes (b.take 2))

/-- `binary.BigEndian.Uint64`, of the first eight bytes. -/
def uint64 (b : List UInt8) : UInt64 := UInt64.ofNat (ofBytes (b.take 8))

/-- `util.BigEndianUint24`: the first three bytes, or zero when there are fewer. -/
def bigEndianUint24 (raw : List UInt8) : UInt32 :=
  if raw.length < 3 then 0 else UInt32.ofNat (ofBytes (raw.take 3))

/-- `util.PutBigEndianUint24`: the low three bytes of `PutUint32`. -/
def putBigEndianUint24 (v : UInt32) : List UInt8 := toBytes 3 v.toNat

/-- `util.PutBigEndianUint48`: the low six bytes of `PutUint64`. -/
def putBigEndianUint48 (v : UInt64) : List UInt8 := toBytes 6 v.toNat

theorem uint16_putUint16_append (v : UInt16) (rest : List UInt8) :
    uint16 (putUint16 v ++ rest) = v := by
  apply UInt16.toNat_inj.mp
  rw [uint16, putUint16, ofBytes_take_append, UInt16.toNat_ofNat',
    Nat.mod_eq_of_lt (show v.toNat < 256 ^ 2 from v.toNat_lt), Nat.mod_eq_of_lt v.toNat_lt]

theorem bigEndianUint24_put_append {v : UInt32} (hv : v.toNat < 2 ^ 24) (rest : List UInt8) :
    bigEndianUint24 (putBigEndianUint24 v ++ rest) = v := by
  have hlen : ¬(putBigEndianUint24 v ++ rest).length < 3 := by
    rw [List.length_append, putBigEndianUint24, length_toBytes]
    omega
  apply UInt32.toNat_inj.mp
  rw [bigEndianUint24, if_neg hlen, putBigEndianUint24, ofBytes_take_append, UInt32.toNat_ofNat',
    Nat.mod_eq_of_lt (show v.toNat < 256 ^ 3 from hv)]
  omega

theorem bigEndianUint24_lt (raw : List UInt8) : (bigEndianUint24 raw).toNat < 2 ^ 24 := by
  unfold bigEndianUint24
  split_ifs
  · exact Nat.two_pow_pos 24
  · have hlt := ofBytes_lt (raw.take 3)
    have hle : (raw.take 3).length ≤ 3 := List.length_take_le 3 raw
    have hpow : 256 ^ (raw.take 3).length ≤ 256 ^ 3 := Nat.pow_le_pow_right (by decide) hle
    rw [UInt32.toNat_ofNat', Nat.mod_eq_of_lt (by omega)]
    omega

/-- Three bytes read and written back. -/
theorem putBigEndianUint24_bigEndianUint24 {raw : List UInt8} (h : 3 ≤ raw.length) :
    putBigEndianUint24 (bigEndianUint24 raw) = raw.take 3 := by
  have hlen : (raw.take 3).length = 3 := List.length_take_of_le h
  have hlt := ofBytes_lt (raw.take 3)
  rw [hlen] at hlt
  have hback := toBytes_ofBytes (raw.take 3)
  rw [hlen] at hback
  rw [bigEndianUint24, if_neg (by omega), putBigEndianUint24, UInt32.toNat_ofNat',
    Nat.mod_eq_of_lt (by omega), hback]

theorem putUint16_uint16 {b : List UInt8} (h : 2 ≤ b.length) : putUint16 (uint16 b) = b.take 2 := by
  have hlen : (b.take 2).length = 2 := List.length_take_of_le h
  have hlt := ofBytes_lt (b.take 2)
  rw [hlen] at hlt
  have hback := toBytes_ofBytes (b.take 2)
  rw [hlen] at hback
  rw [putUint16, uint16, UInt16.toNat_ofNat', Nat.mod_eq_of_lt (by omega), hback]

/-! ## The handshake header -/

/-- `handshake.HeaderLength`. -/
def headerLength : Nat := 12

/-- `handshake.Header`. The type is a `handshake.Type`, a byte. -/
structure HandshakeHeader where
  type : UInt8
  length : UInt32
  messageSequence : UInt16
  fragmentOffset : UInt32
  fragmentLength : UInt32
  deriving DecidableEq, Repr

/-- The three fields that are `uint24` on the wire hold 24-bit values. -/
structure HandshakeHeader.Fits (h : HandshakeHeader) : Prop where
  length_lt : h.length.toNat < 2 ^ 24
  fragmentOffset_lt : h.fragmentOffset.toNat < 2 ^ 24
  fragmentLength_lt : h.fragmentLength.toNat < 2 ^ 24

/-- `Header.Marshal`; its error result is always nil. -/
def HandshakeHeader.marshal (h : HandshakeHeader) : List UInt8 :=
  [h.type] ++ putBigEndianUint24 h.length ++ putUint16 h.messageSequence ++
    putBigEndianUint24 h.fragmentOffset ++ putBigEndianUint24 h.fragmentLength

/-- `Header.Unmarshal`. -/
def HandshakeHeader.unmarshal (data : List UInt8) : Except Error HandshakeHeader :=
  if data.length < headerLength then .error .bufferTooSmall
  else .ok
    { type := data.getD 0 0
      length := bigEndianUint24 (data.drop 1)
      messageSequence := uint16 (data.drop 4)
      fragmentOffset := bigEndianUint24 (data.drop 6)
      fragmentLength := bigEndianUint24 (data.drop 9) }

@[simp] theorem HandshakeHeader.length_marshal (h : HandshakeHeader) :
    h.marshal.length = headerLength := by
  simp [HandshakeHeader.marshal, putBigEndianUint24, putUint16, headerLength]

/-- What `Unmarshal` returns fits the wire. -/
theorem HandshakeHeader.fits_of_unmarshal {data : List UInt8} {h : HandshakeHeader}
    (hu : HandshakeHeader.unmarshal data = .ok h) : h.Fits := by
  unfold HandshakeHeader.unmarshal at hu
  split_ifs at hu
  cases hu
  exact ⟨bigEndianUint24_lt _, bigEndianUint24_lt _, bigEndianUint24_lt _⟩

/-- The encoding followed by more bytes, field by field. -/
theorem HandshakeHeader.marshal_append (h : HandshakeHeader) (rest : List UInt8) :
    h.marshal ++ rest = h.type :: (putBigEndianUint24 h.length ++ (putUint16 h.messageSequence ++
      (putBigEndianUint24 h.fragmentOffset ++ (putBigEndianUint24 h.fragmentLength ++ rest)))) := by
  simp only [HandshakeHeader.marshal, List.append_assoc, List.cons_append, List.nil_append]

/-- A handshake header read off the front of a longer list is the one that was written. -/
theorem HandshakeHeader.unmarshal_marshal {h : HandshakeHeader} (hf : h.Fits) (rest : List UInt8) :
    HandshakeHeader.unmarshal (h.marshal ++ rest) = .ok h := by
  have hlen : ¬(h.marshal ++ rest).length < headerLength := by
    rw [List.length_append, HandshakeHeader.length_marshal]
    omega
  rw [HandshakeHeader.unmarshal, if_neg hlen, HandshakeHeader.marshal_append]
  -- each field starts at its offset: one byte of type, then fields of three, two, three bytes
  set D := putBigEndianUint24 h.fragmentLength ++ rest
  set C := putBigEndianUint24 h.fragmentOffset ++ D
  set B := putUint16 h.messageSequence ++ C
  have hB : (putBigEndianUint24 h.length ++ B).drop 3 = B := List.drop_left' (length_toBytes 3 _)
  have hC : B.drop 2 = C := List.drop_left' (length_toBytes 2 _)
  have hD : C.drop 3 = D := List.drop_left' (length_toBytes 3 _)
  have d4 : (h.type :: (putBigEndianUint24 h.length ++ B)).drop 4 = B := by
    rw [List.drop_succ_cons, hB]
  have d6 : (h.type :: (putBigEndianUint24 h.length ++ B)).drop 6 = C := by
    rw [List.drop_succ_cons, show (5 : Nat) = 3 + 2 from rfl, ← List.drop_drop, hB, hC]
  have d9 : (h.type :: (putBigEndianUint24 h.length ++ B)).drop 9 = D := by
    rw [List.drop_succ_cons, show (8 : Nat) = 3 + 2 + 3 from rfl, ← List.drop_drop,
      ← List.drop_drop, hB, hC, hD]
  rw [List.getD_cons_zero, List.drop_one, List.tail_cons, d4, d6, d9,
    bigEndianUint24_put_append hf.length_lt, uint16_putUint16_append,
    bigEndianUint24_put_append hf.fragmentOffset_lt, bigEndianUint24_put_append hf.fragmentLength_lt]

/-- The front twelve bytes, field by field. -/
theorem take_headerLength (data : List UInt8) (hlen : headerLength ≤ data.length) :
    data.take headerLength = [data.getD 0 0] ++ (data.drop 1).take 3 ++ (data.drop 4).take 2 ++
      (data.drop 6).take 3 ++ (data.drop 9).take 3 := by
  have h1 : data.take 1 = [data.getD 0 0] := by
    cases data with
    | nil => simp [headerLength] at hlen
    | cons b t => rfl
  -- the fields end at 1, 4, 6, 9 and 12
  rw [← h1, ← List.take_add, show (4 : Nat) = 1 + 3 from rfl, ← List.take_add,
    show (6 : Nat) = 1 + 3 + 2 from rfl, ← List.take_add, show (9 : Nat) = 1 + 3 + 2 + 3 from rfl,
    ← List.take_add]
  rfl

/-- Whatever `Unmarshal` accepts is the encoding of the header it returns. -/
theorem HandshakeHeader.marshal_unmarshal {data : List UInt8} {h : HandshakeHeader}
    (hu : HandshakeHeader.unmarshal data = .ok h) : h.marshal = data.take headerLength := by
  unfold HandshakeHeader.unmarshal at hu
  split_ifs at hu with hlen
  cases hu
  have hlen' : 12 ≤ data.length := by
    rw [headerLength] at hlen
    omega
  rw [take_headerLength data (by rw [headerLength]; omega), HandshakeHeader.marshal,
    putBigEndianUint24_bigEndianUint24 (by rw [List.length_drop]; omega),
    putUint16_uint16 (by rw [List.length_drop]; omega),
    putBigEndianUint24_bigEndianUint24 (by rw [List.length_drop]; omega),
    putBigEndianUint24_bigEndianUint24 (by rw [List.length_drop]; omega)]

/-- `Unmarshal` accepts exactly the encodings of headers whose 24-bit fields fit, followed by
anything, and returns the header encoded. -/
theorem HandshakeHeader.unmarshal_eq_ok_iff_fits (data : List UInt8) (h : HandshakeHeader) :
    HandshakeHeader.unmarshal data = .ok h ↔ h.Fits ∧ h.marshal <+: data := by
  constructor
  · intro hu
    refine ⟨HandshakeHeader.fits_of_unmarshal hu, ?_⟩
    rw [HandshakeHeader.marshal_unmarshal hu]
    exact List.take_prefix _ _
  · rintro ⟨hf, rest, rfl⟩
    exact HandshakeHeader.unmarshal_marshal hf rest

/-! ## The record header -/

/-- `protocol.ContentTypeHandshake`. -/
def contentTypeHandshake : UInt8 := 22

/-- `protocol.ContentTypeConnectionID`, `tls12_cid`. -/
def contentTypeConnectionID : UInt8 := 25

/-- `protocol.Version`. -/
structure Version where
  major : UInt8
  minor : UInt8
  deriving DecidableEq, Repr

/-- `Version.Equal`. -/
def Version.equal (v x : Version) : Bool := v.major == x.major && v.minor == x.minor

/-- `protocol.Version1_0`. -/
def version1_0 : Version := ⟨0xfe, 0xff⟩

/-- `protocol.Version1_2`. -/
def version1_2 : Version := ⟨0xfe, 0xfd⟩

/-- `recordlayer.FixedHeaderSize`, the size of a record header without a connection ID. -/
def fixedHeaderSize : Nat := 13

/-- `recordlayer.MaxSequenceNumber`, the largest 48-bit number. -/
def maxSequenceNumber : UInt64 := 0x0000FFFFFFFFFFFF

/-- `recordlayer.Header`. -/
structure RecordHeader where
  contentType : UInt8
  contentLen : UInt16
  version : Version
  epoch : UInt16
  sequenceNumber : UInt64
  connectionID : List UInt8
  deriving DecidableEq, Repr

/-- `Header.Marshal`: the connection ID is written whatever the content type. -/
def RecordHeader.marshal (h : RecordHeader) : Except Error (List UInt8) :=
  if h.sequenceNumber > maxSequenceNumber then .error .sequenceNumberOverflow
  else .ok ([h.contentType, h.version.major, h.version.minor] ++ putUint16 h.epoch ++
    putBigEndianUint48 h.sequenceNumber ++ h.connectionID ++ putUint16 h.contentLen)

/-- `Header.Unmarshal` on a receiver whose `ConnectionID` holds `cidLength` bytes: a record of
type `tls12_cid` carries that many bytes of connection ID before its content length, and the
version must be DTLS 1.0 or 1.2. -/
def RecordHeader.unmarshal (cidLength : Nat) (data : List UInt8) : Except Error RecordHeader :=
  if data.length < fixedHeaderSize then .error .bufferTooSmall
  else if data.getD 0 0 = contentTypeConnectionID ∧ data.length < fixedHeaderSize + cidLength then
    .error .bufferTooSmall
  else
    let isCID := decide (data.getD 0 0 = contentTypeConnectionID)
    let headerSize := if isCID then fixedHeaderSize + cidLength else fixedHeaderSize
    let h : RecordHeader :=
      { contentType := data.getD 0 0
        contentLen := uint16 (data.drop (headerSize - 2))
        version := ⟨data.getD 1 0, data.getD 2 0⟩
        epoch := uint16 (data.drop 3)
        sequenceNumber := uint64 ([0, 0] ++ (data.drop 5).take 6)
        connectionID := if isCID then (data.drop 11).take cidLength else [] }
    if !h.version.equal version1_0 && !h.version.equal version1_2 then
      .error .unsupportedProtocolVersion
    else .ok h

/-- `Header.Size`. -/
def RecordHeader.size (h : RecordHeader) : Nat := fixedHeaderSize + h.connectionID.length

/-- A record header whose connection ID is there exactly for `tls12_cid`. -/
def RecordHeader.CidMatches (h : RecordHeader) : Prop :=
  h.contentType = contentTypeConnectionID ∨ h.connectionID = []

/-- The versions `Unmarshal` accepts. -/
def Version.Accepted (v : Version) : Prop := v = version1_0 ∨ v = version1_2

theorem Version.equal_eq_true_iff (v x : Version) : v.equal x = true ↔ v = x := by
  cases v
  cases x
  simp [Version.equal]

theorem Version.accepted_iff (v : Version) :
    Version.Accepted v ↔ ¬(!v.equal version1_0 && !v.equal version1_2) = true := by
  rw [Version.Accepted, ← Version.equal_eq_true_iff, ← Version.equal_eq_true_iff]
  cases v.equal version1_0 <;> cases v.equal version1_2 <;> decide

theorem putBigEndianUint48_lt {v : UInt64} (hv : v ≤ maxSequenceNumber) :
    ofBytes (putBigEndianUint48 v) = v.toNat := by
  have hle : v.toNat ≤ 0x0000FFFFFFFFFFFF := UInt64.le_iff_toNat_le.mp hv
  rw [putBigEndianUint48, ofBytes_toBytes_of_lt (by omega)]

/-- The sequence number read back from its six bytes. -/
theorem uint64_zero_zero_put {v : UInt64} (hv : v ≤ maxSequenceNumber) (rest : List UInt8) :
    uint64 ([0, 0] ++ (putBigEndianUint48 v ++ rest).take 6) = v := by
  have htake : (putBigEndianUint48 v ++ rest).take 6 = putBigEndianUint48 v :=
    List.take_left' (length_toBytes 6 _)
  have h8 : ([0, 0] ++ putBigEndianUint48 v).take 8 = [0, 0] ++ putBigEndianUint48 v := by
    rw [List.take_of_length_le]
    rw [List.length_append, putBigEndianUint48, length_toBytes]
    rfl
  apply UInt64.toNat_inj.mp
  rw [htake, uint64, h8, List.cons_append, List.cons_append, List.nil_append, ofBytes_zero_cons,
    ofBytes_zero_cons, putBigEndianUint48_lt hv, UInt64.toNat_ofNat', Nat.mod_eq_of_lt v.toNat_lt]

theorem RecordHeader.marshal_ok {h : RecordHeader} (hs : h.sequenceNumber ≤ maxSequenceNumber) :
    h.marshal = .ok ([h.contentType, h.version.major, h.version.minor] ++ putUint16 h.epoch ++
      putBigEndianUint48 h.sequenceNumber ++ h.connectionID ++ putUint16 h.contentLen) := by
  have hnc : ¬h.sequenceNumber > maxSequenceNumber := by
    rw [UInt64.le_iff_toNat_le] at hs
    rw [gt_iff_lt, UInt64.lt_iff_toNat_lt]
    omega
  rw [RecordHeader.marshal, if_neg hnc]

/-- What `Marshal` succeeds on: a 48-bit sequence number, written in `Header.Size` bytes. -/
theorem RecordHeader.marshal_eq_ok {h : RecordHeader} {bytes : List UInt8}
    (hm : h.marshal = .ok bytes) : h.sequenceNumber ≤ maxSequenceNumber ∧ bytes.length = h.size := by
  unfold RecordHeader.marshal at hm
  split_ifs at hm with hgt
  cases hm
  refine ⟨?_, ?_⟩
  · rw [gt_iff_lt, UInt64.lt_iff_toNat_lt] at hgt
    rw [UInt64.le_iff_toNat_le]
    omega
  · simp only [List.length_append, List.length_cons, List.length_nil, putUint16, putBigEndianUint48,
      length_toBytes, RecordHeader.size, fixedHeaderSize]
    omega

/-- A record header read off the front of a longer list is the one that was written, when its
connection ID matches its type and its version is one `Unmarshal` accepts. -/
theorem RecordHeader.unmarshal_marshal {h : RecordHeader} (hs : h.sequenceNumber ≤ maxSequenceNumber)
    (hcid : h.CidMatches) (hv : h.version.Accepted) (rest : List UInt8) :
    ∃ bytes, h.marshal = .ok bytes ∧
      RecordHeader.unmarshal h.connectionID.length (bytes ++ rest) = .ok h := by
  refine ⟨_, RecordHeader.marshal_ok hs, ?_⟩
  obtain ⟨t, len, ⟨maj, mi⟩, ep, sq, cid⟩ := h
  dsimp only at hs hcid hv ⊢
  set tail := putUint16 ep ++ (putBigEndianUint48 sq ++ (cid ++ (putUint16 len ++ rest)))
  have hdata : [t, maj, mi] ++ putUint16 ep ++ putBigEndianUint48 sq ++ cid ++ putUint16 len ++
      rest = t :: maj :: mi :: tail := by
    simp only [tail, List.append_assoc, List.cons_append, List.nil_append]
  rw [hdata]
  have hlen : (t :: maj :: mi :: tail).length = fixedHeaderSize + cid.length + rest.length := by
    simp only [tail, List.length_cons, List.length_append, putUint16, putBigEndianUint48,
      length_toBytes, fixedHeaderSize]
    omega
  -- the fields after the first three bytes: epoch, sequence number, connection ID, length
  have d3 : (t :: maj :: mi :: tail).drop 3 =
      putUint16 ep ++ (putBigEndianUint48 sq ++ (cid ++ (putUint16 len ++ rest))) := rfl
  have d5 : (t :: maj :: mi :: tail).drop 5 = putBigEndianUint48 sq ++ (cid ++ (putUint16 len ++ rest)) := by
    rw [show (5 : Nat) = 3 + 2 from rfl, ← List.drop_drop]
    exact List.drop_left' (length_toBytes 2 _)
  have d11 : (t :: maj :: mi :: tail).drop 11 = cid ++ (putUint16 len ++ rest) := by
    rw [show (11 : Nat) = 5 + 6 from rfl, ← List.drop_drop, d5]
    exact List.drop_left' (length_toBytes 6 _)
  have dlen : (t :: maj :: mi :: tail).drop (11 + cid.length) = putUint16 len ++ rest := by
    rw [← List.drop_drop, d11]
    exact List.drop_left' rfl
  have hver : ¬(!(Version.mk maj mi).equal version1_0 && !(Version.mk maj mi).equal version1_2) = true :=
    (Version.accepted_iff _).mp hv
  unfold RecordHeader.unmarshal
  rw [if_neg (by omega), if_neg (by rw [hlen]; omega)]
  simp only [List.getD_cons_zero, List.getD_cons_succ]
  by_cases ht : t = contentTypeConnectionID
  · have hcs : fixedHeaderSize + cid.length - 2 = 11 + cid.length := by rw [fixedHeaderSize]; omega
    simp only [decide_eq_true ht, ↓reduceIte, hcs, dlen, d3, uint16_putUint16_append, d5,
      uint64_zero_zero_put hs, d11, List.take_left' rfl, if_neg hver]
  · obtain rfl : cid = [] := hcid.resolve_left ht
    have hcs : fixedHeaderSize - 2 = 11 + ([] : List UInt8).length := rfl
    simp only [decide_eq_false ht, Bool.false_eq_true, ↓reduceIte, hcs, dlen, d3,
      uint16_putUint16_append, d5, uint64_zero_zero_put hs, if_neg hver]


/-- A record header without a connection ID and of an accepted version, once written, is read
back from in front of anything by a receiver that expects no connection ID. -/
theorem RecordHeader.unmarshal_of_marshal_eq_ok {h : RecordHeader} {bytes : List UInt8}
    (hm : h.marshal = .ok bytes) (hcid : h.connectionID = []) (hv : h.version.Accepted)
    (rest : List UInt8) : RecordHeader.unmarshal 0 (bytes ++ rest) = .ok h := by
  obtain ⟨bytes', hm', hu⟩ :=
    RecordHeader.unmarshal_marshal (RecordHeader.marshal_eq_ok hm).1 (Or.inr hcid) hv rest
  rw [hm, Except.ok.injEq] at hm'
  rw [hcid, List.length_nil, ← hm'] at hu
  exact hu

/-- Six bytes of sequence number, read as `Unmarshal` does and written back. -/
theorem putBigEndianUint48_uint64 {s : List UInt8} (hs : s.length = 6) :
    putBigEndianUint48 (uint64 ([0, 0] ++ s)) = s ∧ uint64 ([0, 0] ++ s) ≤ maxSequenceNumber := by
  have hlt := ofBytes_lt s
  rw [hs] at hlt
  have h8 : ([0, 0] ++ s).take 8 = [0, 0] ++ s := by
    rw [List.take_of_length_le]
    rw [List.length_append, hs]
    rfl
  have hval : (uint64 ([0, 0] ++ s)).toNat = ofBytes s := by
    rw [uint64, h8, List.cons_append, List.cons_append, List.nil_append, ofBytes_zero_cons,
      ofBytes_zero_cons, UInt64.toNat_ofNat', Nat.mod_eq_of_lt (by omega)]
  have hback := toBytes_ofBytes s
  rw [hs] at hback
  refine ⟨?_, ?_⟩
  · rw [putBigEndianUint48, hval, hback]
  · rw [UInt64.le_iff_toNat_le, hval]
    exact Nat.le_of_lt_succ hlt

/-- The front of a record, field by field. -/
theorem take_recordHeader (data : List UInt8) (c : Nat) (hlen : fixedHeaderSize + c ≤ data.length) :
    data.take (fixedHeaderSize + c) = [data.getD 0 0, data.getD 1 0, data.getD 2 0] ++
      (data.drop 3).take 2 ++ (data.drop 5).take 6 ++ (data.drop 11).take c ++
        (data.drop (11 + c)).take 2 := by
  have h3 : data.take 3 = [data.getD 0 0, data.getD 1 0, data.getD 2 0] := by
    rcases data with _ | ⟨a, _ | ⟨b, _ | ⟨d, rest⟩⟩⟩
    all_goals simp only [List.length_nil, List.length_cons, fixedHeaderSize] at hlen
    any_goals omega
    rfl
  -- the fields end at 3, 5, 11, 11 + c and 13 + c
  rw [← h3, ← List.take_add, show (5 : Nat) = 3 + 2 from rfl, ← List.take_add,
    show (11 : Nat) = 3 + 2 + 6 from rfl, ← List.take_add, ← List.take_add]
  congr 1
  rw [fixedHeaderSize]
  omega

/-- Whatever `Unmarshal` accepts is the encoding of the header it returns: the connection ID
is there exactly for `tls12_cid`, with the length the receiver expected, the version is one it
accepts, and the header is the front `Size()` bytes. -/
theorem RecordHeader.marshal_unmarshal {cidLength : Nat} {data : List UInt8} {h : RecordHeader}
    (hu : RecordHeader.unmarshal cidLength data = .ok h) :
    h.CidMatches ∧ h.version.Accepted ∧
      (h.contentType = contentTypeConnectionID → h.connectionID.length = cidLength) ∧
      h.marshal = .ok (data.take h.size) := by
  unfold RecordHeader.unmarshal at hu
  dsimp only at hu
  split at hu
  · cases hu
  rename_i h13
  split at hu
  · cases hu
  rename_i hshort
  have hseq := putBigEndianUint48_uint64 (s := (data.drop 5).take 6)
    (List.length_take_of_le (by rw [List.length_drop, fixedHeaderSize] at *; omega))
  have h3 : putUint16 (uint16 (data.drop 3)) = (data.drop 3).take 2 :=
    putUint16_uint16 (by rw [List.length_drop, fixedHeaderSize] at *; omega)
  by_cases ht : data.getD 0 0 = contentTypeConnectionID
  · -- a `tls12_cid` record: the connection ID has the expected length
    simp only [decide_eq_true ht, ↓reduceIte] at hu
    split at hu
    · cases hu
    rename_i hver
    cases hu
    have hlen : fixedHeaderSize + cidLength ≤ data.length := Nat.le_of_not_lt (not_and.mp hshort ht)
    have hc : ((data.drop 11).take cidLength).length = cidLength := by
      rw [List.length_take_of_le]
      rw [List.length_drop, fixedHeaderSize] at *
      omega
    have hl : putUint16 (uint16 (data.drop (fixedHeaderSize + cidLength - 2))) =
        (data.drop (11 + cidLength)).take 2 := by
      rw [show fixedHeaderSize + cidLength - 2 = 11 + cidLength by rw [fixedHeaderSize]; omega]
      exact putUint16_uint16 (by rw [List.length_drop, fixedHeaderSize] at *; omega)
    refine ⟨.inl ht, (Version.accepted_iff _).mpr hver, fun _ => hc, ?_⟩
    rw [RecordHeader.marshal_ok hseq.2, RecordHeader.size]
    dsimp only
    rw [hc, take_recordHeader data cidLength hlen, h3, hseq.1, hl]
  · -- any other record: no connection ID is read
    simp only [decide_eq_false ht, Bool.false_eq_true, ↓reduceIte] at hu
    split at hu
    · cases hu
    rename_i hver
    cases hu
    have hl : putUint16 (uint16 (data.drop (fixedHeaderSize - 2))) = (data.drop (11 + 0)).take 2 :=
      putUint16_uint16 (by rw [List.length_drop, fixedHeaderSize] at *; omega)
    refine ⟨.inr rfl, (Version.accepted_iff _).mpr hver, fun h => absurd h ht, ?_⟩
    rw [RecordHeader.marshal_ok hseq.2, RecordHeader.size]
    dsimp only
    rw [List.length_nil, take_recordHeader data 0 (by rw [fixedHeaderSize] at *; omega), h3, hseq.1,
      hl, List.take_zero, List.append_nil]

/-- The connection ID length the receiver expects matters only for `tls12_cid` records. -/
theorem RecordHeader.unmarshal_of_ne_connectionID {data : List UInt8}
    (ht : data.getD 0 0 ≠ contentTypeConnectionID) (cidLength : Nat) :
    RecordHeader.unmarshal cidLength data = RecordHeader.unmarshal 0 data := by
  simp only [RecordHeader.unmarshal, ht, false_and, if_false, decide_false, Bool.false_eq_true]

/-- `Unmarshal` accepts exactly the encodings that `Marshal` writes of the headers it can read
back, followed by anything: a connection ID there exactly for `tls12_cid` and of the length the
receiver expects, and a version it accepts. -/
theorem RecordHeader.unmarshal_eq_ok_iff_accepted (cidLength : Nat) (data : List UInt8) (h : RecordHeader) :
    RecordHeader.unmarshal cidLength data = .ok h ↔
      h.CidMatches ∧ h.version.Accepted ∧
        (h.contentType = contentTypeConnectionID → h.connectionID.length = cidLength) ∧
        ∃ bytes, h.marshal = .ok bytes ∧ bytes <+: data := by
  constructor
  · intro hu
    obtain ⟨hcid, hv, hlen, hm⟩ := RecordHeader.marshal_unmarshal hu
    exact ⟨hcid, hv, hlen, _, hm, List.take_prefix _ _⟩
  · rintro ⟨hcid, hv, hlen, bytes, hm, rest, rfl⟩
    have hs := (RecordHeader.marshal_eq_ok hm).1
    obtain ⟨bytes', hm', hu⟩ := RecordHeader.unmarshal_marshal hs hcid hv rest
    rw [hm, Except.ok.injEq] at hm'
    rw [← hm'] at hu
    by_cases ht : h.contentType = contentTypeConnectionID
    · rw [← hlen ht]
      exact hu
    · -- another type: the first byte says so, and no connection ID is read
      have hfirst : (bytes ++ rest).getD 0 0 = h.contentType := by
        rw [RecordHeader.marshal_ok hs, Except.ok.injEq] at hm
        rw [← hm]
        rfl
      rw [← hfirst] at ht
      rw [RecordHeader.unmarshal_of_ne_connectionID ht,
        ← RecordHeader.unmarshal_of_ne_connectionID ht h.connectionID.length]
      exact hu

end Snowflake.Dtls
