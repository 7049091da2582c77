import Mathlib
import Snowflake.Lib.Transition
/-
`common/turbotunnel/queuepacketconn.go`: `QueuePacketConn`, the `net.PacketConn` made of packet
queues that the server's KCP instances read from and write to. Its doc comments say that a
packet given to `QueueIncoming` or `WriteTo` longer than the MTU is cut to its first MTU bytes.

## The model

A Go slice is its bytes and its capacity (`Slice`). `sync.Pool` is a list of slices: `Get` takes
any of them out, or returns `New`'s `make([]byte, mtu)`, as the action chooses. `Restore` puts a
slice into the pool when its capacity is at least the MTU; it may be given any slice. The
incoming queue and one outgoing queue hold the queued packets; a full queue drops the packet and
restores its buffer. Each queued packet carries the `p` it was copied from, a ghost field that only
the statements read. A run is a list of actions from a new conn, through `Transition.stepAll`.

## What is proved

`QueueIncoming` and `WriteTo` cut `p` to the capacity of the buffer `Get` returned, not to the MTU.
`Inv` says that every slice in the pool has a capacity of at least the MTU, and that every queued
packet is its `p` cut to its own buffer's capacity. Every step keeps it (`step_inv`), so every
queued packet is a prefix of its `p` of at least `min (len p) mtu` bytes (`queued_packet_prefix`).
It can be longer: after `Restore` of a slice with a larger capacity, the next `QueueIncoming` of a
long packet keeps more than the MTU, and `ReadFrom` returns all of it (`readFrom_after_restore`).
When `Restore` is only given slices of capacity at most the MTU, the pool holds slices of exactly
the MTU and the doc comments hold (`queued_packet_of_restore_le`).
-/

set_option autoImplicit false

namespace Snowflake.Turbotunnel

open Transition

/-- `queueSize`, the capacity of the channels. -/
def queueSize : Nat := 512

/-- A Go `[]byte`: the bytes within its length, and its capacity. -/
structure Slice where
  bytes : List UInt8
  cap : Nat
  length_le : bytes.length ≤ cap

/-- A packet in a queue, with the `p` it was copied from. -/
structure Queued where
  packet : Slice
  src : List UInt8

/-- `QueuePacketConn`, with what its methods read and write. -/
structure QueuePacketConn where
  mtu : Nat
  bufPool : List Slice
  recvQueue : List Queued
  sendQueue : List Queued

/-- `NewQueuePacketConn(localAddr, timeout, mtu)`: an empty pool and empty queues. -/
def newQueuePacketConn (mtu : Nat) : QueuePacketConn := ⟨mtu, [], [], []⟩

namespace QueuePacketConn

/-- `bufPool.Get()`: the slice at `i` of the pool, taken out of it, or `New`'s
`make([]byte, mtu)` for `none` (or an index past the pool). -/
def get (c : QueuePacketConn) : Option Nat → Slice × List Slice
  | some i =>
    match c.bufPool[i]? with
    | some s => (s, c.bufPool.eraseIdx i)
    | none => (⟨List.replicate c.mtu 0, c.mtu, (List.length_replicate).le⟩, c.bufPool)
  | none => (⟨List.replicate c.mtu 0, c.mtu, (List.length_replicate).le⟩, c.bufPool)

/-- The copy of `p` that `QueueIncoming` and `WriteTo` make in `buf`: `buf` resliced to `len(p)`
if that is below `cap(buf)` and to `cap(buf)` otherwise, then `copy(buf, p)`. -/
def copyInto (buf : Slice) (p : List UInt8) : Slice :=
  if h : p.length < buf.cap then ⟨p, buf.cap, h.le⟩
  else ⟨p.take buf.cap, buf.cap, List.length_take_le _ _⟩

/-- `Restore(p)`: into the pool if `cap(p) >= mtu`. -/
def restore (c : QueuePacketConn) (p : Slice) : QueuePacketConn :=
  if c.mtu ≤ p.cap then { c with bufPool := p :: c.bufPool } else c

/-- `QueueIncoming(p, addr)`, with `i` the choice of `Get`. -/
def queueIncoming (c : QueuePacketConn) (p : List UInt8) (i : Option Nat) : QueuePacketConn :=
  let buf := copyInto (c.get i).1 p
  let c := { c with bufPool := (c.get i).2 }
  if c.recvQueue.length < queueSize then { c with recvQueue := c.recvQueue ++ [⟨buf, p⟩] }
  else c.restore buf

/-- `WriteTo(p, addr)`, with `i` the choice of `Get`: the conn after it, and the count returned. -/
def writeTo (c : QueuePacketConn) (p : List UInt8) (i : Option Nat) : QueuePacketConn × Nat :=
  let buf := copyInto (c.get i).1 p
  let c := { c with bufPool := (c.get i).2 }
  if c.sendQueue.length < queueSize then ({ c with sendQueue := c.sendQueue ++ [⟨buf, p⟩] }, buf.bytes.length)
  else (c.restore buf, p.length)

/-- `ReadFrom(p)` with `len(p) = n`: the first incoming packet, as much of it as `p` holds, and its
buffer restored; `none` while the queue is empty, where Go blocks. -/
def readFrom (c : QueuePacketConn) (n : Nat) : Option (QueuePacketConn × List UInt8) :=
  match c.recvQueue with
  | [] => none
  | q :: rest => some ({ c with recvQueue := rest }.restore q.packet, q.packet.bytes.take n)

/-- `<-OutgoingQueue(addr)`: the first outgoing packet, handed to the caller. -/
def receive (c : QueuePacketConn) : Option (QueuePacketConn × Slice) :=
  match c.sendQueue with
  | [] => none
  | q :: rest => some ({ c with sendQueue := rest }, q.packet)

end QueuePacketConn

/-- The calls a run is made of. -/
inductive Action
  | queueIncoming (p : List UInt8) (i : Option Nat)
  | writeTo (p : List UInt8) (i : Option Nat)
  | readFrom (n : Nat)
  | receive
  | restore (p : Slice)

/-- One call, with its results dropped. -/
def step (c : QueuePacketConn) : Action → Option QueuePacketConn
  | .queueIncoming p i => some (c.queueIncoming p i)
  | .writeTo p i => some (c.writeTo p i).1
  | .readFrom n => (c.readFrom n).map Prod.fst
  | .receive => c.receive.map Prod.fst
  | .restore p => some (c.restore p)

/-! ## The invariant

`Inv mtu P` says that the slices in the pool and the buffers of the queued packets have capacities
that `P` allows, and that each queued packet is its `p` cut to its buffer's capacity. `P` is
`(mtu ≤ ·)` for every run, and `(· = mtu)` for the runs that restore no slice larger than the
MTU; the step lemmas are proved once for both. -/

namespace QueuePacketConn

/-- The pool and the queued packets, with capacities that `P` allows. -/
structure Inv (mtu : Nat) (P : Nat → Prop) (c : QueuePacketConn) : Prop where
  mtu_eq : c.mtu = mtu
  pool : ∀ s ∈ c.bufPool, P s.cap
  queued : ∀ q ∈ c.recvQueue ++ c.sendQueue, P q.packet.cap ∧ q.packet.bytes = q.src.take q.packet.cap

section Steps

variable {mtu : Nat} {P : Nat → Prop} {c : QueuePacketConn}

theorem copyInto_bytes (buf : Slice) (p : List UInt8) :
    (copyInto buf p).bytes = p.take buf.cap ∧ (copyInto buf p).cap = buf.cap := by
  unfold copyInto
  split
  · rename_i h
    exact ⟨(List.take_of_length_le h.le).symm, rfl⟩
  · exact ⟨rfl, rfl⟩

/-- `Get` returns a slice that `P` allows, `New`'s included, and leaves a sub-list of the pool. -/
theorem get_spec (hP : P mtu) (hc : Inv mtu P c) (i : Option Nat) :
    P (c.get i).1.cap ∧ ∀ s ∈ (c.get i).2, s ∈ c.bufPool := by
  have hnew : P c.mtu := hc.mtu_eq ▸ hP
  cases i with
  | none => exact ⟨hnew, fun s hs => hs⟩
  | some i =>
    cases hget : c.bufPool[i]? with
    | none =>
      rw [get, hget]
      exact ⟨hnew, fun s hs => hs⟩
    | some s =>
      rw [get, hget]
      exact ⟨hc.pool s (List.mem_of_getElem? hget), fun t ht => List.mem_of_mem_eraseIdx ht⟩

/-- `Restore` keeps the invariant for a slice that `P` allows whenever it enters the pool. -/
theorem restore_inv (hc : Inv mtu P c) {p : Slice} (hp : mtu ≤ p.cap → P p.cap) :
    Inv mtu P (c.restore p) := by
  unfold restore
  split
  · rename_i hle
    refine ⟨hc.mtu_eq, ?_, hc.queued⟩
    intro s hs
    rcases List.mem_cons.mp hs with rfl | hs
    · exact hp (hc.mtu_eq ▸ hle)
    · exact hc.pool s hs
  · exact hc

/-- The conn with `Get`'s slice taken out keeps the invariant. -/
theorem take_inv (hP : P mtu) (hc : Inv mtu P c) (i : Option Nat) :
    Inv mtu P { c with bufPool := (c.get i).2 } :=
  ⟨hc.mtu_eq, fun s hs => hc.pool s ((get_spec hP hc i).2 s hs), hc.queued⟩

/-- The copy of `p` in `Get`'s slice is a packet the invariant allows. -/
theorem copyInto_get (hP : P mtu) (hc : Inv mtu P c) (p : List UInt8) (i : Option Nat) :
    P (copyInto (c.get i).1 p).cap ∧
      (copyInto (c.get i).1 p).bytes = p.take (copyInto (c.get i).1 p).cap := by
  obtain ⟨hbytes, hcap⟩ := copyInto_bytes (c.get i).1 p
  rw [hcap, hbytes]
  exact ⟨(get_spec hP hc i).1, rfl⟩

theorem queueIncoming_inv (hP : P mtu) (hc : Inv mtu P c) (p : List UInt8) (i : Option Nat) :
    Inv mtu P (c.queueIncoming p i) := by
  have ht := take_inv hP hc i
  unfold queueIncoming
  dsimp only
  split
  · refine ⟨ht.mtu_eq, ht.pool, ?_⟩
    intro q hq
    simp only [List.append_assoc, List.mem_append, List.mem_singleton] at hq
    -- the new packet sits between the earlier incoming packets and the outgoing ones
    rcases hq with hq | rfl | hq
    · exact ht.queued q (List.mem_append_left _ hq)
    · exact copyInto_get hP hc p i
    · exact ht.queued q (List.mem_append_right _ hq)
  · -- a full queue: the buffer goes back to the pool
    exact restore_inv ht fun _ => (copyInto_get hP hc p i).1

theorem writeTo_inv (hP : P mtu) (hc : Inv mtu P c) (p : List UInt8) (i : Option Nat) :
    Inv mtu P (c.writeTo p i).1 := by
  have ht := take_inv hP hc i
  unfold writeTo
  dsimp only
  split
  · refine ⟨ht.mtu_eq, ht.pool, ?_⟩
    intro q hq
    rw [← List.append_assoc, List.mem_append, List.mem_singleton] at hq
    rcases hq with hq | rfl
    · exact ht.queued q hq
    · exact copyInto_get hP hc p i
  · exact restore_inv ht fun _ => (copyInto_get hP hc p i).1

theorem readFrom_inv {c' : QueuePacketConn} {n : Nat} {out : List UInt8} (hc : Inv mtu P c)
    (h : c.readFrom n = some (c', out)) : Inv mtu P c' := by
  unfold readFrom at h
  split at h
  · cases h
  · rename_i q rest hq
    cases h
    have hrest : Inv mtu P { c with recvQueue := rest } := by
      refine ⟨hc.mtu_eq, hc.pool, fun q' hq' => hc.queued q' ?_⟩
      rw [hq]
      exact List.mem_append.mpr ((List.mem_append.mp hq').imp (List.mem_cons_of_mem q) id)
    -- the packet's buffer goes back to the pool
    have hq' : q ∈ c.recvQueue ++ c.sendQueue := by
      rw [hq]
      exact List.mem_append_left _ List.mem_cons_self
    exact restore_inv hrest fun _ => (hc.queued q hq').1

theorem receive_inv {c' : QueuePacketConn} {out : Slice} (hc : Inv mtu P c)
    (h : c.receive = some (c', out)) : Inv mtu P c' := by
  unfold receive at h
  split at h
  · cases h
  · rename_i q rest hq
    cases h
    refine ⟨hc.mtu_eq, hc.pool, fun q' hq' => hc.queued q' ?_⟩
    rw [hq]
    exact List.mem_append.mpr ((List.mem_append.mp hq').imp id (List.mem_cons_of_mem q))

end Steps

end QueuePacketConn

open QueuePacketConn

/-- A call that keeps the capacities `P` allows: a `Restore` of a slice that `P` allows whenever it
enters the pool, or any other call. -/
def Action.Keeps (mtu : Nat) (P : Nat → Prop) : Action → Prop
  | .restore p => mtu ≤ p.cap → P p.cap
  | _ => True

theorem step_inv {mtu : Nat} {P : Nat → Prop} (hP : P mtu) {c c' : QueuePacketConn}
    (hc : Inv mtu P c) (a : Action) (ha : a.Keeps mtu P) (h : step c a = some c') :
    Inv mtu P c' := by
  cases a with
  | queueIncoming p i =>
    cases h
    exact queueIncoming_inv hP hc p i
  | writeTo p i =>
    cases h
    exact writeTo_inv hP hc p i
  | readFrom n =>
    rw [step, Option.map_eq_some_iff] at h
    obtain ⟨⟨c'', out⟩, hr, rfl⟩ := h
    exact readFrom_inv hc hr
  | receive =>
    rw [step, Option.map_eq_some_iff] at h
    obtain ⟨⟨c'', out⟩, hr, rfl⟩ := h
    exact receive_inv hc hr
  | restore p =>
    cases h
    exact restore_inv hc ha

/-- Every run whose calls keep what `P` allows keeps the invariant. -/
theorem run_inv (mtu : Nat) {P : Nat → Prop} (hP : P mtu) (as : List Action)
    (has : ∀ a ∈ as, a.Keeps mtu P) {c : QueuePacketConn}
    (h : stepAll step (newQueuePacketConn mtu) as = some c) : Inv mtu P c := by
  have hinit : Inv mtu P (newQueuePacketConn mtu) :=
    ⟨rfl, fun s hs => absurd hs List.not_mem_nil, fun q hq => absurd hq List.not_mem_nil⟩
  exact stepAll_invariant (Action.Keeps mtu P) (Inv mtu P)
    (fun s a t ha hs hst => step_inv hP hs a ha hst) hinit as has h

theorem queued_packet_prefix (mtu : Nat) (as : List Action) {c : QueuePacketConn}
    (h : stepAll step (newQueuePacketConn mtu) as = some c) :
    ∀ q ∈ c.recvQueue ++ c.sendQueue, ∃ k, mtu ≤ k ∧ q.packet.bytes = q.src.take k := by
  -- every `Restore` keeps capacities of at least the MTU, since only those enter the pool
  have hkeeps : ∀ a ∈ as, a.Keeps mtu (mtu ≤ ·) := by
    intro a _
    cases a with
    | restore p => exact id
    | _ => trivial
  have hc := run_inv mtu (P := (mtu ≤ ·)) (le_refl mtu) as hkeeps h
  intro q hq
  exact ⟨q.packet.cap, (hc.queued q hq).1, (hc.queued q hq).2⟩

/-- With an MTU of 1: `Restore` of an empty slice of capacity 2, then `QueueIncoming` of two bytes
with that slice from `Get`; `ReadFrom` then returns both bytes. -/
theorem readFrom_after_restore :
    stepAll step (newQueuePacketConn 1) [.restore ⟨[], 2, Nat.zero_le 2⟩, .queueIncoming [1, 2] (some 0)] =
        some ⟨1, [], [⟨⟨[1, 2], 2, le_refl 2⟩, [1, 2]⟩], []⟩ ∧
      (∀ q ∈ ([⟨⟨[1, 2], 2, le_refl 2⟩, [1, 2]⟩] : List Queued) ++ [],
        ∃ k, 1 ≤ k ∧ q.packet.bytes = q.src.take k) ∧
      (QueuePacketConn.readFrom ⟨1, [], [⟨⟨[1, 2], 2, le_refl 2⟩, [1, 2]⟩], []⟩ 500).map Prod.snd =
        some [1, 2] := by
  have hrun : stepAll step (newQueuePacketConn 1)
      [.restore ⟨[], 2, Nat.zero_le 2⟩, .queueIncoming [1, 2] (some 0)] =
        some ⟨1, [], [⟨⟨[1, 2], 2, le_refl 2⟩, [1, 2]⟩], []⟩ := rfl
  exact ⟨hrun, queued_packet_prefix 1 _ hrun, rfl⟩

/-- When every `Restore` is given a slice of at most the MTU, every queued packet is exactly the
first `min (len p) mtu` bytes of its `p`. -/
theorem queued_packet_of_restore_le (mtu : Nat) (as : List Action)
    (has : ∀ p, Action.restore p ∈ as → p.cap ≤ mtu) {c : QueuePacketConn}
    (h : stepAll step (newQueuePacketConn mtu) as = some c) :
    ∀ q ∈ c.recvQueue ++ c.sendQueue, q.packet.bytes = q.src.take mtu := by
  have hkeeps : ∀ a ∈ as, a.Keeps mtu (· = mtu) := by
    intro a ha
    cases a with
    | restore p =>
      intro hle
      exact Nat.le_antisymm (has p ha) hle
    | _ => trivial
  have hc := run_inv mtu (P := (· = mtu)) rfl as hkeeps h
  intro q hq
  rw [(hc.queued q hq).2, (hc.queued q hq).1]

/-- With an MTU of 2: `Restore` of a slice of capacity 1, which the pool does not take, then
`QueueIncoming` of three bytes: the packet queued is the first two. -/
theorem queued_packet_of_restore_le_short :
    (∀ p, Action.restore p ∈ [Action.restore ⟨[], 1, Nat.zero_le 1⟩, .queueIncoming [1, 2, 3] none] →
        p.cap ≤ 2) ∧
      stepAll step (newQueuePacketConn 2)
          [.restore ⟨[], 1, Nat.zero_le 1⟩, .queueIncoming [1, 2, 3] none] =
        some ⟨2, [], [⟨⟨[1, 2], 2, le_refl 2⟩, [1, 2, 3]⟩], []⟩ ∧
      ∀ q ∈ ([⟨⟨[1, 2], 2, le_refl 2⟩, [1, 2, 3]⟩] : List Queued) ++ [],
        q.packet.bytes = q.src.take 2 := by
  have hrestore : ∀ p, Action.restore p ∈
      [Action.restore ⟨[], 1, Nat.zero_le 1⟩, .queueIncoming [1, 2, 3] none] → p.cap ≤ 2 := by
    intro p hp
    simp only [List.mem_cons, Action.restore.injEq, reduceCtorEq, List.not_mem_nil, or_false] at hp
    rw [hp]
    decide
  have hrun : stepAll step (newQueuePacketConn 2)
      [.restore ⟨[], 1, Nat.zero_le 1⟩, .queueIncoming [1, 2, 3] none] =
        some ⟨2, [], [⟨⟨[1, 2], 2, le_refl 2⟩, [1, 2, 3]⟩], []⟩ := rfl
  exact ⟨hrestore, hrun, queued_packet_of_restore_le 2 _ hrestore hrun⟩

end Snowflake.Turbotunnel
