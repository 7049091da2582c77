import Mathlib
import Snowflake.Encapsulation.RoundTrip
/-
Turbotunnel framing between a client and the server, over one WebSocket connection:
`newSession`'s `dialContext` and `encapsulationPacketConn` on the client
(`client/lib/snowflake.go`, `client/lib/turbotunnel.go`), and `ServeHTTP` with the two
goroutines of `turbotunnelMode` on the server (`server/lib/http.go`).

The client opens a connection with the token, its client ID and a random amount of
padding, then sends each packet as one data chunk. The server checks the token, reads the
client ID, and hands every data chunk to the KCP layer with `QueueIncoming`, cut to its
2048-byte buffer. Downstream the server writes data chunks and the client's `ReadFrom`
returns them, cut to the caller's buffer.

What is proved: on a connection that carries what the client wrote, possibly cut off
early (the server's write goroutine closes it when the downstream ends), the server's
`QueueIncoming` calls are the client's packets, in order and unchanged up to the 2048-byte
cut, all of them when the whole stream arrives (`turbotunnel_framing`). The read loops are
proved on readers that hand out `io.EOF` apart from their last bytes (`Reader.EofApart`),
as a WebSocket `NetConn` and an `io.Pipe` do; `readData_eof_with_last_byte` shows what
changes otherwise.

Not modelled: the WebSocket upgrade, `clientAddr`'s parsing of the `client_ip` parameter
(the address is a parameter `addr`), the hash in `lookupPacketConn` (the calls are recorded
with the client ID that selects the connection), and `bufio.Writer`, which hands its bytes
on in order and is taken as the connection's own writer.
-/

set_option autoImplicit false

namespace Snowflake.Turbotunnel

open GoIo Snowflake.Encapsulation

variable {σ τ α : Type}

/-! ## `common/turbotunnel` -/

/-- `turbotunnel.Token`: the eight bytes that open a turbotunnel stream. -/
def Token : List UInt8 := [0x12, 0x93, 0x60, 0x5d, 0x27, 0x81, 0x75, 0xf5]

/-- `turbotunnel.ClientID`, a `[8]byte`. -/
structure ClientID where
  bytes : List UInt8
  length_eq : bytes.length = 8
  deriving DecidableEq

@[simp] theorem Token_length : Token.length = 8 := rfl

/-! ## The client -/

/-- The bytes `dialContext` builds in a `bytes.Buffer` before sending them: the token, the
client ID, and `WritePadding` of `1900 + randomByte % 200` bytes. The two `buf.Write`
calls on the buffer cannot fail, and their errors are not looked at. -/
def dialPreamble (clientID : ClientID) (randomByte : UInt8) : Except Error (List UInt8) :=
  let buf := (Writer.buffer.write [] Token).next
  let buf := (Writer.buffer.write buf clientID.bytes).next
  let paddingSize := 1900 + randomByte.toNat % 200
  match (writePadding Writer.buffer buf paddingSize).err with
  | some e => .error e
  | none => .ok (writePadding Writer.buffer buf paddingSize).next

/-- `dialContext` once `snowflakes.Pop()` gave a connection `conn`: the preamble goes out
in one `conn.Write`. -/
def dialContext (w : Writer τ) (conn : τ) (clientID : ClientID) (randomByte : UInt8) :
    Except Error τ :=
  match dialPreamble clientID randomByte with
  | .error e => .error e
  | .ok buf =>
    match (w.write conn buf).err with
    | some e => .error e
    | none => .ok (w.write conn buf).next

/-- `encapsulationPacketConn.WriteTo(p, addr)`: `WriteData` then `Flush`, and
`(len(p), nil)` or `(0, err)`. -/
def writeTo (w : Writer τ) (conn : τ) (p : List UInt8) : WriteOut τ :=
  match (writeData w conn p).err with
  | some e => ⟨0, some e, (writeData w conn p).next⟩
  | none => ⟨p.length, none, (writeData w conn p).next⟩

/-- Successive `WriteTo` calls on one connection: what each returns, and the connection
afterwards. -/
def writeToSeq (w : Writer τ) (conn : τ) : List (List UInt8) → List (Nat × Option Error) × τ
  | [] => ([], conn)
  | p :: ps =>
    (((writeTo w conn p).n, (writeTo w conn p).err) :: (writeToSeq w (writeTo w conn p).next ps).1,
      (writeToSeq w (writeTo w conn p).next ps).2)

/-- `if err == io.ErrShortBuffer { err = nil }`: a packet cut to the buffer still counts
as read, in `ReadFrom` and in the server's read loop. -/
def shortBufferOk : Option Error → Option Error
  | some .shortBuffer => none
  | e => e

theorem shortBufferOk_eq_none (e : Option Error) :
    shortBufferOk e = none ↔ e = none ∨ e = some .shortBuffer := by
  rcases e with _ | ⟨_ | _ | _ | m⟩ <;> simp [shortBufferOk]

/-- `encapsulationPacketConn.ReadFrom(p)` with `len(p) = cap`. -/
def readFrom (r : Reader σ) (cap : Nat) : ReadOut σ :=
  ⟨(readData r cap).data, shortBufferOk (readData r cap).err, (readData r cap).next⟩

/-- What a `ReadFrom` call with a buffer of `cap` bytes returns when the packet it should
meet is `p?`: the packet cut to the buffer, or `(0, io.EOF)` when none is left. -/
def ReadsPacket (p? : Option (List UInt8)) (cap : Nat) (o : ReadOut σ) : Prop :=
  match p? with
  | some p => o.data = p.take cap ∧ o.err = none
  | none => o.data = [] ∧ o.err = some .eof

/-- Successive `ReadFrom` calls with buffers of the given sizes. -/
def readFromSeq (r : Reader σ) : List Nat → List (ReadOut σ)
  | [] => []
  | p :: ps => readFrom r p :: readFromSeq (readFrom r p).next ps

/-! ## The server -/

/-- What `ServeHTTP` does on one connection that the rest of the server sees. -/
structure ServeOut (α : Type) where
  /-- `turbotunnelMode` was entered: the first eight bytes were the token. -/
  turbotunnel : Bool
  /-- The `clientIDAddrMap.Set(clientID, addr)` call, made once the client ID is read. -/
  setClientID : Option (ClientID × α)
  /-- The read goroutine's `QueueIncoming(p[:n], clientID)` calls on
  `lookupPacketConn(clientID)`, in order. -/
  queued : List (List UInt8 × ClientID)

/-- The read goroutine of `turbotunnelMode`: `ReadData` into `var p [2048]byte` until the
first error other than `io.ErrShortBuffer`, each chunk passed on with `QueueIncoming`.
Every round that goes on consumed a byte at least (`readData_rest_lt`). -/
def serverReadLoop (r : Reader σ) (clientID : ClientID) : List (List UInt8 × ClientID) :=
  match h : shortBufferOk (readData r 2048).err with
  | some _ => []
  | none => ((readData r 2048).data, clientID) :: serverReadLoop (readData r 2048).next clientID
termination_by r.rest.length
decreasing_by exact readData_rest_lt r 2048 ((shortBufferOk_eq_none _).mp h)

/-- `turbotunnelMode(conn, addr)`: read the client ID, record it with the address, and run
the read goroutine. -/
def turbotunnelMode (r : Reader σ) (addr : α) : ServeOut α :=
  match h : (readFull r 8).err with
  | some _ => ⟨true, none, []⟩
  | none =>
    let clientID : ClientID := ⟨(readFull r 8).data, readFull_length_of_ok r h⟩
    ⟨true, some (clientID, addr), serverReadLoop (readFull r 8).next clientID⟩

/-- `ServeHTTP` after the WebSocket upgrade: read the token, and enter `turbotunnelMode` if
it matches; any other stream is dropped. -/
def serveHTTP (r : Reader σ) (addr : α) : ServeOut α :=
  match (readFull r 8).err with
  | some _ => ⟨false, none, []⟩
  | none =>
    if (readFull r 8).data = Token then turbotunnelMode (readFull r 8).next addr
    else ⟨false, none, []⟩

/-- The write goroutine of `turbotunnelMode`, for the packets `ps` it takes from
`OutgoingQueue(clientID)` before `done` or a closed queue stops it: each is written with
`WriteData` and flushed, and the first error ends the loop. `pconn.Restore(p)` only hands
the packet's buffer back to the queue's pool. -/
def serverWriteLoop (w : Writer τ) (conn : τ) : List (List UInt8) → τ
  | [] => conn
  | p :: ps =>
    match (writeData w conn p).err with
    | some _ => (writeData w conn p).next
    | none => serverWriteLoop w (writeData w conn p).next ps

/-! ## The client's side on a `bytes.Buffer` -/

/-- The preamble is the token, the client ID and the bytes of `WritePadding` of the drawn
size, between 1900 and 2099. -/
theorem dialPreamble_ok (clientID : ClientID) (randomByte : UInt8) :
    dialPreamble clientID randomByte =
      .ok (Token ++ clientID.bytes ++ encodeChunk (.padding (1900 + randomByte.toNat % 200))) := by
  have hb : (Writer.buffer.write (Writer.buffer.write [] Token).next clientID.bytes).next =
      Token ++ clientID.bytes := rfl
  have hw := (writeChunk_valid (c := .padding (1900 + randomByte.toNat % 200)) trivial).2.2
    (Token ++ clientID.bytes)
  simp only [writeChunk] at hw
  simp only [dialPreamble, hb, hw]

theorem dialContext_buffer (conn : List UInt8) (clientID : ClientID) (randomByte : UInt8) :
    dialContext Writer.buffer conn clientID randomByte =
      .ok (conn ++ (Token ++ clientID.bytes ++ encodeChunk (.padding (1900 + randomByte.toNat % 200)))) := by
  simp only [dialContext, dialPreamble_ok, Writer.buffer]

theorem writeTo_buffer (conn : List UInt8) {p : List UInt8} (hp : p.length ≤ 0xfffff) :
    writeTo Writer.buffer conn p = ⟨p.length, none, conn ++ encodeChunk (.data p)⟩ := by
  have hw := (writeChunk_valid (c := .data p) hp).2.2 conn
  simp only [writeChunk] at hw
  simp only [writeTo, hw]

/-- Every `WriteTo` of a packet of at most `0xfffff` bytes returns `(len(p), nil)`, and the
connection carries the packets' data chunks one after another. -/
theorem writeToSeq_buffer (conn : List UInt8) {qs : List (List UInt8)}
    (hq : ∀ q ∈ qs, q.length ≤ 0xfffff) :
    writeToSeq Writer.buffer conn qs =
      (qs.map fun q => (q.length, none), conn ++ encode (qs.map .data)) := by
  induction qs generalizing conn with
  | nil => simp [writeToSeq]
  | cons q qs ih =>
    have hw := writeTo_buffer conn (hq q List.mem_cons_self)
    have ih' := ih (conn ++ encodeChunk (.data q)) (fun q' h => hq q' (List.mem_cons_of_mem q h))
    simp only [writeToSeq, hw, ih', List.map_cons, encode_cons, List.append_assoc]

/-! ## The server's read loop -/

theorem serverReadLoop_stop (r : Reader σ) (clientID : ClientID) {e : Error}
    (h : shortBufferOk (readData r 2048).err = some e) : serverReadLoop r clientID = [] := by
  rw [serverReadLoop]
  split <;> simp_all

theorem serverReadLoop_step (r : Reader σ) (clientID : ClientID)
    (h : shortBufferOk (readData r 2048).err = none) :
    serverReadLoop r clientID =
      ((readData r 2048).data, clientID) :: serverReadLoop (readData r 2048).next clientID := by
  rw [serverReadLoop]
  split <;> simp_all

/-- **The read loop on an encoded stream.** On a reader positioned at the data chunks of
a sequence of calls, the loop queues every data chunk cut to 2048 bytes, in order, and
stops at the end. The induction follows the loop; each round is `readData_encode`. -/
theorem serverReadLoop_encode (clientID : ClientID) (r : Reader σ) :
    r.EofApart → ∀ cs : List Chunk, (∀ c ∈ cs, c.Valid) → r.rest = encode cs →
      serverReadLoop r clientID = (dataOf cs).map fun q => (q.take 2048, clientID) := by
  fun_induction serverReadLoop r clientID with
  | case1 r e he =>
    intro hr cs hv hs
    rcases readData_encode r hr hv hs 2048 with ⟨hread, -⟩
    -- the loop stopped, so no data chunk was left
    cases hd : (dataOf cs) with
    | nil => rfl
    | cons q qs =>
      rw [hd] at hread
      simp only [ReadsChunk, List.head?_cons] at hread
      rw [hread.2] at he
      split_ifs at he <;> simp [shortBufferOk] at he
  | case2 r h ih =>
    intro hr cs hv hs
    rcases readData_encode r hr hv hs 2048 with ⟨hread, hnext⟩
    have hr' : (readData r 2048).next.EofApart := hr.of_policy (readData_policy r 2048)
    rw [ih hr' (dropThroughData cs) (valid_of_mem_dropThroughData hv) hnext,
      dataOf_dropThroughData]
    cases hd : (dataOf cs) with
    | nil =>
      -- with no data chunk left the call reports `io.EOF`, which ends the loop
      rw [hd] at hread
      simp only [ReadsChunk, List.head?_nil] at hread
      rw [hread.2] at h
      simp [shortBufferOk] at h
    | cons q qs =>
      rw [hd] at hread
      simp only [ReadsChunk, List.head?_cons] at hread
      rw [hread.1]
      rfl

/-- A `ReadData` call that succeeds on a reader of the front of a stream succeeds the same
way on a reader of the whole stream. -/
theorem readData_prefix (r r' : Reader σ) (hr : r.EofApart) (hr' : r'.EofApart)
    {u : List UInt8} (hs : r'.rest ++ u = r.rest) (cap : Nat)
    (hok : (readData r' cap).err = none ∨ (readData r' cap).err = some .shortBuffer) :
    (readData r cap).data = (readData r' cap).data ∧ (readData r cap).err = (readData r' cap).err ∧
      (readData r' cap).next.rest ++ u = (readData r cap).next.rest := by
  obtain ⟨hd', he', hn'⟩ := readData_of_eofApart r' hr' cap
  obtain ⟨hd, he, hn⟩ := readData_of_eofApart r hr cap
  rw [he'] at hok
  have hp := decode_prefix r'.rest u cap hok
  rw [hs] at hp
  rw [hd, he, hn, hp, hd', he', hn']
  exact ⟨rfl, rfl, rfl⟩

/-- **The read loop is prefix-monotone.** On a connection cut off early the loop queues
an initial part of what it queues on the whole stream: nothing is shifted, merged or made
up. The induction follows the loop on the cut reader. -/
theorem serverReadLoop_prefix (clientID : ClientID) (r' : Reader σ) :
    r'.EofApart → ∀ (r : Reader σ) (u : List UInt8), r.EofApart → r'.rest ++ u = r.rest →
      serverReadLoop r' clientID <+: serverReadLoop r clientID := by
  fun_induction serverReadLoop r' clientID with
  | case1 r' e he =>
    intro _ r u _ _
    exact List.nil_prefix
  | case2 r' h ih =>
    intro hr' r u hr hs
    have hok := (shortBufferOk_eq_none _).mp h
    obtain ⟨hd, he, hn⟩ := readData_prefix r r' hr hr' hs 2048 hok
    have hstep : shortBufferOk (readData r 2048).err = none := by rw [he]; exact h
    have hnext : (readData r' 2048).next.EofApart := hr'.of_policy (readData_policy r' 2048)
    have hnext' : (readData r 2048).next.EofApart := hr.of_policy (readData_policy r 2048)
    rw [serverReadLoop_step r clientID hstep, hd]
    exact List.prefix_cons_inj _ |>.mpr (ih hnext _ u hnext' hn)

/-! ## `ServeHTTP` -/

/-- On a stream that starts with the token and a client ID, `ServeHTTP` enters
`turbotunnelMode`, records that client ID, and runs the read loop on what follows. -/
theorem serveHTTP_turbotunnel (r : Reader σ) (hr : r.EofApart) (addr : α) (clientID : ClientID)
    {t : List UInt8} (hs : r.rest = Token ++ clientID.bytes ++ t) :
    ∃ r₂ : Reader σ, r₂.EofApart ∧ r₂.rest = t ∧
      serveHTTP r addr = ⟨true, some (clientID, addr), serverReadLoop r₂ clientID⟩ := by
  obtain ⟨hd1, he1, hn1⟩ := readFull_of_eofApart r hr 8
  have hl : 8 ≤ r.rest.length := by simp [hs, clientID.length_eq]
  have htok : (readFull r 8).data = Token := by
    rw [hd1, hs, List.append_assoc, List.take_left' Token_length]
  have hrest1 : (readFull r 8).next.rest = clientID.bytes ++ t := by
    rw [hn1, hs, List.append_assoc, List.drop_left' Token_length]
  have hr1 : (readFull r 8).next.EofApart := hr.of_policy (readFull_policy r 8)
  obtain ⟨hd2, he2, hn2⟩ := readFull_of_eofApart _ hr1 8
  have hl2 : 8 ≤ (readFull r 8).next.rest.length := by simp [hrest1, clientID.length_eq]
  have hid : (readFull (readFull r 8).next 8).data = clientID.bytes := by
    rw [hd2, hrest1, List.take_left' clientID.length_eq]
  have hok2 : (readFull (readFull r 8).next 8).err = none := by rw [he2, if_pos hl2]
  refine ⟨(readFull (readFull r 8).next 8).next, fun s => ?_, ?_, ?_⟩
  · rw [readFull_policy, readFull_policy]; exact hr s
  · rw [hn2, hrest1, List.drop_left' clientID.length_eq]
  · have hok1 : (readFull r 8).err = none := by rw [he1, if_pos hl]
    unfold serveHTTP
    split
    · next e h => rw [hok1] at h; cases h
    · rw [if_pos htok]
      unfold turbotunnelMode
      split
      · next e h => rw [hok2] at h; cases h
      · -- the client ID read is the one sent
        have hc : (⟨(readFull (readFull r 8).next 8).data, readFull_length_of_ok _ hok2⟩ : ClientID)
            = clientID := by
          cases clientID
          simp only [ClientID.mk.injEq]
          exact hid
        rw [hc]

/-! ## The server's write loop and the client's reads -/

/-- Into a `bytes.Buffer` the write loop writes the data chunks of the packets up to the
first one that no prefix can encode, which ends it. -/
theorem serverWriteLoop_buffer (conn : List UInt8) (ps : List (List UInt8)) :
    serverWriteLoop Writer.buffer conn ps =
      conn ++ encode ((ps.takeWhile fun p => decide (p.length ≤ 0xfffff)).map .data) := by
  induction ps generalizing conn with
  | nil => simp [serverWriteLoop]
  | cons p ps ih =>
    by_cases hp : p.length ≤ 0xfffff
    · have hw := (writeChunk_valid (c := .data p) hp).2.2 conn
      simp only [writeChunk] at hw
      simp only [serverWriteLoop, hw, ih, List.takeWhile_cons, hp, decide_true, if_true,
        List.map_cons, encode_cons, List.append_assoc]
    · rw [serverWriteLoop, writeData_tooLong Writer.buffer conn (by omega)]
      simp [hp]

theorem readFromSeq_eq_map (r : Reader σ) (caps : List Nat) :
    readFromSeq r caps = (readSeq r caps).map fun o => ⟨o.data, shortBufferOk o.err, o.next⟩ := by
  induction caps generalizing r with
  | nil => rfl
  | cons p ps ih =>
    simp only [readFromSeq, readSeq, List.map_cons]
    rw [← ih]
    rfl

/-- **The client's reads.** On a reader positioned at an encoded sequence, the `j`-th
`ReadFrom` returns the `j`-th data chunk cut to its buffer with a nil error, and `(0,
io.EOF)` once they are used up. -/
theorem readFromSeq_encode (caps : List Nat) (r : Reader σ) (hr : r.EofApart)
    {cs : List Chunk} (hv : ∀ c ∈ cs, c.Valid) (hs : r.rest = encode cs) (j cap : Nat)
    (hc : caps[j]? = some cap) :
    ∃ o, (readFromSeq r caps)[j]? = some o ∧ ReadsPacket (dataOf cs)[j]? cap o := by
  obtain ⟨o, ho, hreads, -⟩ := readSeq_encode caps r hr cs hv hs j cap hc
  refine ⟨⟨o.data, shortBufferOk o.err, o.next⟩, by rw [readFromSeq_eq_map, List.getElem?_map, ho]; rfl, ?_⟩
  -- a data chunk is read without `io.ErrShortBuffer`; past the last one the reader ends
  rcases hd : (dataOf cs)[j]? with _ | p
  · rw [hd, ReadsChunk] at hreads
    rw [ReadsPacket]
    refine ⟨hreads.1, ?_⟩
    show shortBufferOk o.err = some .eof
    rw [hreads.2]
    rfl
  · rw [hd, ReadsChunk] at hreads
    rw [ReadsPacket]
    refine ⟨hreads.1, ?_⟩
    show shortBufferOk o.err = none
    rw [shortBufferOk_eq_none, hreads.2]
    split_ifs <;> simp

/-! ## End to end -/

/-- The server's read loop on what follows the client ID: every packet, cut to 2048
bytes, when the whole stream arrives, and an initial run of them when the connection is
closed early. -/
theorem serverReadLoop_upstream (clientID : ClientID) (s : Nat) {qs : List (List UInt8)}
    (hq : ∀ q ∈ qs, q.length ≤ 0xfffff) (r : Reader σ) (hr : r.EofApart) {u : List UInt8}
    (hs : r.rest ++ u = encode (.padding s :: qs.map .data)) :
    ∃ j ≤ qs.length, serverReadLoop r clientID = (qs.map fun q => (q.take 2048, clientID)).take j ∧
      (u = [] → j = qs.length) := by
  have hv : ∀ c ∈ (Chunk.padding s :: qs.map .data), c.Valid := by
    intro c hc
    rcases List.mem_cons.mp hc with rfl | hc
    · trivial
    · obtain ⟨q, hq', rfl⟩ := List.mem_map.mp hc
      exact hq q hq'
  -- a reader of the whole stream, behaving as `r` does
  let full : Reader σ := ⟨r.policy, r.state, encode (.padding s :: qs.map .data)⟩
  have hfull := serverReadLoop_encode clientID full hr _ hv rfl
  simp only [dataOf, dataOf_map_data] at hfull
  have hpre := serverReadLoop_prefix clientID r hr full u hr hs
  rw [hfull] at hpre
  obtain ⟨k, hk⟩ := hpre
  refine ⟨(serverReadLoop r clientID).length, ?_, ?_, fun hu => ?_⟩
  · have := congrArg List.length hk
    simp only [List.length_append, List.length_map] at this
    omega
  · rw [← hk, List.take_left]
  · subst hu
    rw [List.append_nil] at hs
    have hall := serverReadLoop_encode clientID r hr _ hv hs
    simp only [dataOf, dataOf_map_data] at hall
    rw [hall, List.length_map]

/-- Upstream framing for one connection: `dialContext` sends the token, the client ID and
padding chunks of 1900 to 2099 bytes; every `WriteTo` returns `(len(q), nil)` and adds the
packet's data chunk; and a server reading that stream, up to wherever its connection is
closed, enters `turbotunnelMode`, records the client ID with the address, and queues an
initial run of the packets, each cut to 2048 bytes, all of them when the stream is read to
its end. -/
def UpstreamFraming (σ : Type) {α : Type} (clientID : ClientID) (randomByte : UInt8)
    (qs : List (List UInt8)) (addr : α) : Prop :=
  ∃ conn pad, dialContext Writer.buffer [] clientID randomByte = .ok conn ∧
    Paddings pad ∧ 1900 ≤ pad.length ∧ pad.length ≤ 2099 ∧
    writeToSeq Writer.buffer conn qs =
      (qs.map fun q => (q.length, none), Token ++ clientID.bytes ++ (pad ++ encode (qs.map .data))) ∧
    ∀ (r : Reader σ), r.EofApart → ∀ t u, t ++ u = pad ++ encode (qs.map .data) →
      r.rest = Token ++ clientID.bytes ++ t →
      ∃ j ≤ qs.length, serveHTTP r addr =
          ⟨true, some (clientID, addr), (qs.map fun q => (q.take 2048, clientID)).take j⟩ ∧
        (u = [] → j = qs.length)

/-- Downstream framing: on the stream the server's write loop produces from the packets it
takes, the client's `j`-th `ReadFrom` returns the `j`-th packet cut to its buffer with a
nil error, and `(0, io.EOF)` after the last one the loop could encode. -/
def DownstreamFraming (σ : Type) : Prop :=
  ∀ (ps : List (List UInt8)) (caps : List Nat) (r : Reader σ), r.EofApart →
    r.rest = serverWriteLoop Writer.buffer [] ps → ∀ (j cap : Nat), caps[j]? = some cap →
      ∃ o, (readFromSeq r caps)[j]? = some o ∧
        ReadsPacket (ps.takeWhile fun p => decide (p.length ≤ 0xfffff))[j]? cap o

theorem downstreamFraming (σ : Type) : DownstreamFraming σ := by
  intro ps caps r hr hs j cap hc
  have hv : ∀ c ∈ (ps.takeWhile fun p => decide (p.length ≤ 0xfffff)).map Chunk.data, c.Valid := by
    intro c hc
    obtain ⟨p, hp, rfl⟩ := List.mem_map.mp hc
    have := List.mem_takeWhile_imp hp
    simpa [Chunk.Valid] using this
  rw [serverWriteLoop_buffer, List.nil_append] at hs
  have h := readFromSeq_encode caps r hr hv hs j cap hc
  rw [dataOf_map_data] at h
  exact h

/-- **Turbotunnel framing, end to end.** For every client ID, every random byte (so every
padding size from 1900 to 2099) and every sequence of packets of at most `0xfffff` bytes,
the server queues exactly the client's packets, in order, each cut to 2048 bytes, an
initial run of them if the connection is closed early and all of them if it is read to
its end; and downstream the client's `ReadFrom` calls return the server's packets in
order, each cut to the caller's buffer. -/
theorem turbotunnel_framing {σ σ' α : Type} (clientID : ClientID) (randomByte : UInt8)
    (qs : List (List UInt8)) (hq : ∀ q ∈ qs, q.length ≤ 0xfffff) (addr : α) :
    UpstreamFraming σ clientID randomByte qs addr ∧ DownstreamFraming σ' := by
  refine ⟨?_, downstreamFraming σ'⟩
  -- the padding block, as `WritePadding` lays it out
  obtain ⟨hpad, hlen⟩ :=
    (writeChunk_valid (c := .padding (1900 + randomByte.toNat % 200)) trivial).1
  refine ⟨_, encodeChunk (.padding (1900 + randomByte.toNat % 200)),
    dialContext_buffer [] clientID randomByte, hpad, by omega, by omega, ?_, ?_⟩
  · rw [writeToSeq_buffer _ hq, List.nil_append, List.append_assoc]
  · intro r hr t u htu hs
    obtain ⟨r₂, hr₂, hrest, hserve⟩ := serveHTTP_turbotunnel r hr addr clientID hs
    obtain ⟨j, hj, hloop, hall⟩ := serverReadLoop_upstream clientID (1900 + randomByte.toNat % 200)
      hq r₂ hr₂ (u := u) (by rw [hrest, htu, encode_cons])
    exact ⟨j, hj, by rw [hserve, hloop], hall⟩

/-- One packet of three bytes from the client with ID `0 … 7`, random byte `0`. -/
theorem turbotunnel_framing_one_packet :
    (∀ q ∈ [[(1 : UInt8), 2, 3]], q.length ≤ 0xfffff) ∧
      UpstreamFraming Unit ⟨[0, 1, 2, 3, 4, 5, 6, 7], rfl⟩ 0 [[1, 2, 3]] () ∧
      DownstreamFraming Unit := by
  have hq : ∀ q ∈ [[(1 : UInt8), 2, 3]], q.length ≤ 0xfffff := by decide
  exact ⟨hq, turbotunnel_framing ⟨[0, 1, 2, 3, 4, 5, 6, 7], rfl⟩ 0 [[1, 2, 3]] hq ()⟩

end Snowflake.Turbotunnel
