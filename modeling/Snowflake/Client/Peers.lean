import Mathlib
import Snowflake.Lib.Transition
import Snowflake.Lib.Update
/-
The client's collection of WebRTC peers (`client/lib/peers.go`), driven by `connectLoop`
(`client/lib/snowflake.go`), as a transition system.

The parties are `connectLoop` with its `Collect` calls, any number of `Pop` calls, the
collected peers, each of which closes at any time (its data channel closes, or
`checkForStaleness` closes it after `SnowflakeTimeout` without messages), and one `End`
call. `snowflakeChan` is a buffered channel whose capacity is `GetMax()`, the parameter `m`
of the model, and `collectLock` has at most one holder. A step of `Collect` runs under the
lock from the lock to `Catch()`, or from `Catch()` to the send, which blocks while the
buffer is full. `Catch()` succeeds or fails; what it does with the broker is not modelled.

`Collect` admits a peer while `Count()`, the number of open peers in `activePeers`, is below
`m`. A peer that closes before it is popped leaves `activePeers` but stays in the buffer, so
the buffer can be full at a send although `Count()` was low: a full buffer at the send
always holds a closed peer (`sendBlocked_closed_peer`). `Collect` then waits at the send
holding `collectLock`, and `End`, called from `SnowflakeConn.Close`, waits for the lock
behind it until a `Pop` drains the buffer (`collect_blocks_end`, and for every capacity
`collect_blocks_end_of_max`). What the lock does guarantee: `End` closes `melt` before it
takes the lock and closes the channel under it, so `Collect` never sends on a closed
channel (`collect_send_open`).
-/

set_option autoImplicit false

namespace Snowflake.Client

open Function

abbrev PeerId := Nat
abbrev PopId := Nat

/-- Where `connectLoop` is. -/
inductive CollectPc where
  /-- between `Collect` calls -/
  | idle
  /-- inside `p.Catch()`, holding `collectLock` -/
  | catching
  /-- at `p.snowflakeChan <- connection`, holding `collectLock` -/
  | sending (p : PeerId)
  /-- `connectLoop` returned on `Melted()` -/
  | stopped
  deriving DecidableEq, Repr

/-- `Collect` holds `collectLock` here. -/
def CollectPc.locked : CollectPc → Bool
  | .catching | .sending _ => true
  | _ => false

/-- Where a `Pop` call is. -/
inductive PopPc where
  /-- `<-p.snowflakeChan` -/
  | receiving
  /-- returned: an open peer, or `nil` once the channel is closed and drained -/
  | done (peer : Option PeerId)
  deriving DecidableEq, Repr

/-- Where the `End` call is, inside `closeOnce.Do`. -/
inductive EndPc where
  | idle
  /-- `melt` is closed; at `p.collectLock.Lock()` -/
  | locking
  | done
  deriving DecidableEq, Repr

/-- Who holds `collectLock`. -/
inductive Holder where
  | collector
  | ender
  deriving DecidableEq, Repr

/-- `Peers`, with the parties that use it. -/
structure Peers where
  /-- the buffered peers of `snowflakeChan` -/
  snowflakeChan : List PeerId
  chanClosed : Bool
  activePeers : List PeerId
  /-- `WebRTCPeer.Closed()` -/
  closed : PeerId → Bool
  /-- `melt` is closed -/
  melt : Bool
  lock : Option Holder
  collect : CollectPc
  pops : PopId → Option PopPc
  endPc : EndPc
  /-- the peer the next successful `Catch()` returns -/
  next : PeerId

/-- `NewPeers`: nothing collected yet. -/
def Peers.init : Peers where
  snowflakeChan := []
  chanClosed := false
  activePeers := []
  closed _ := false
  melt := false
  lock := none
  collect := .idle
  pops _ := none
  endPc := .idle
  next := 0

/-- `purgeClosedPeers`: `activePeers` without the peers that have closed. -/
def purgeClosedPeers (closed : PeerId → Bool) (activePeers : List PeerId) : List PeerId :=
  activePeers.filter fun p => !closed p

/-- What `Pop` does with a peer it received: skip it if closed, return it if open. -/
def popOutcome (closed : PeerId → Bool) (p : PeerId) : PopPc :=
  if closed p then .receiving else .done (some p)

/-! ## Steps -/

namespace Peers

variable (st : Peers)

/-- `Count()`, which purges `activePeers`, found room; `Collect` goes on to `Catch()`. -/
def collectEnter : Peers :=
  { st with
    activePeers := purgeClosedPeers st.closed st.activePeers
    lock := some .collector
    collect := .catching }

/-- `Count()` is at capacity: `Collect` returns an error. -/
def collectFull : Peers :=
  { st with activePeers := purgeClosedPeers st.closed st.activePeers }

def collectMelted : Peers := { st with collect := .stopped }

def catchFail : Peers := { st with lock := none, collect := .idle }

/-- `Catch()` returned a peer, and `activePeers.PushBack` tracks it. -/
def catchOk : Peers :=
  { st with
    activePeers := st.activePeers ++ [st.next]
    collect := .sending st.next
    next := st.next + 1 }

def collectSend (p : PeerId) : Peers :=
  { st with snowflakeChan := st.snowflakeChan ++ [p], lock := none, collect := .idle }

def collectHandoff (p : PeerId) (q : PopId) : Peers :=
  { st with
    pops := update st.pops q (some (popOutcome st.closed p))
    lock := none
    collect := .idle }

def popStart (q : PopId) : Peers := { st with pops := update st.pops q (some .receiving) }

def popReceive (q : PopId) (p : PeerId) (rest : List PeerId) : Peers :=
  { st with snowflakeChan := rest, pops := update st.pops q (some (popOutcome st.closed p)) }

def popClosed (q : PopId) : Peers := { st with pops := update st.pops q (some (.done none)) }

def peerClose (p : PeerId) : Peers := { st with closed := update st.closed p true }

def endStart : Peers := { st with melt := true, endPc := .locking }

/-- Under `collectLock`: `close(p.snowflakeChan)`, then every active peer is closed and
removed. -/
def endLock : Peers :=
  { st with
    chanClosed := true
    closed := fun p => st.closed p || decide (p ∈ st.activePeers)
    activePeers := []
    endPc := .done }

end Peers

/-- One step of one party; `m` is `GetMax()`. -/
inductive Step (m : Nat) : Peers → Peers → Prop where
  /-- `Collect` takes `collectLock`, `melt` is open, and `Count()` is below `GetMax()`. -/
  | collectEnter (st : Peers) (hc : st.collect = .idle) (hl : st.lock = none)
      (hm : st.melt = false) (hn : (purgeClosedPeers st.closed st.activePeers).length < m) :
      Step m st st.collectEnter
  | collectFull (st : Peers) (hc : st.collect = .idle) (hl : st.lock = none)
      (hm : st.melt = false) (hn : m ≤ (purgeClosedPeers st.closed st.activePeers).length) :
      Step m st st.collectFull
  /-- `melt` is closed: `Collect` fails, and `connectLoop` returns on `Melted()`. -/
  | collectMelted (st : Peers) (hc : st.collect = .idle) (hl : st.lock = none)
      (hm : st.melt = true) :
      Step m st st.collectMelted
  | catchFail (st : Peers) (hc : st.collect = .catching) : Step m st st.catchFail
  | catchOk (st : Peers) (hc : st.collect = .catching) : Step m st st.catchOk
  /-- The send finds room in the buffer. -/
  | collectSend (st : Peers) (p : PeerId) (hc : st.collect = .sending p)
      (hr : st.snowflakeChan.length < m) :
      Step m st (st.collectSend p)
  /-- The send hands the peer straight to a `Pop` waiting on the empty buffer. -/
  | collectHandoff (st : Peers) (p : PeerId) (q : PopId) (hc : st.collect = .sending p)
      (hq : st.pops q = some .receiving) (he : st.snowflakeChan = []) :
      Step m st (st.collectHandoff p q)
  | popStart (st : Peers) (q : PopId) (hq : st.pops q = none) : Step m st (st.popStart q)
  | popReceive (st : Peers) (q : PopId) (p : PeerId) (rest : List PeerId)
      (hq : st.pops q = some .receiving) (hch : st.snowflakeChan = p :: rest) :
      Step m st (st.popReceive q p rest)
  /-- The channel is closed and drained: `Pop` returns `nil`. -/
  | popClosed (st : Peers) (q : PopId) (hq : st.pops q = some .receiving)
      (he : st.snowflakeChan = []) (hcl : st.chanClosed = true) :
      Step m st (st.popClosed q)
  /-- A collected peer closes. -/
  | peerClose (st : Peers) (p : PeerId) (hp : p < st.next) : Step m st (st.peerClose p)
  /-- `End` closes `melt`. -/
  | endStart (st : Peers) (he : st.endPc = .idle) : Step m st st.endStart
  /-- `End` gets `collectLock`. -/
  | endLock (st : Peers) (he : st.endPc = .locking) (hl : st.lock = none) :
      Step m st st.endLock

/-- The peers of one `SnowflakeConn` with `GetMax() = m`. -/
def peers (m : Nat) : Transition.System Peers := ⟨(· = Peers.init), Step m⟩

/-- The same parties without any `Pop` call moving. -/
def peersWithoutPop (m : Nat) : Transition.System Peers :=
  ⟨(· = Peers.init), fun st st' => Step m st st' ∧ st'.pops = st.pops⟩

/-! ## The buffer against `activePeers` -/

/-- The invariant: the open peers of the buffer are tracked in `activePeers`, which never
holds more than `GetMax()` peers. -/
structure PeersInv (m : Nat) (st : Peers) : Prop where
  chan_nodup : st.snowflakeChan.Nodup
  active_nodup : st.activePeers.Nodup
  chan_lt : ∀ q ∈ st.snowflakeChan, q < st.next
  active_lt : ∀ q ∈ st.activePeers, q < st.next
  chan_open : ∀ q ∈ st.snowflakeChan, st.closed q = false → q ∈ st.activePeers
  active_le : st.activePeers.length ≤ m
  catching_lt : st.collect = .catching → st.activePeers.length < m
  sending_active : ∀ p, st.collect = .sending p → p ∈ st.activePeers ∧ p ∉ st.snowflakeChan
  collect_lock : st.collect.locked = true → st.lock = some .collector
  /-- `End` closes `melt` first. -/
  end_melt : st.endPc ≠ .idle → st.melt = true
  /-- `End` closes the channel under `collectLock`, after `melt`. -/
  closed_unlocked : st.chanClosed = true → st.melt = true ∧ st.collect.locked = false

theorem PeersInv.init (m : Nat) : PeersInv m Peers.init := by
  constructor <;> simp [Peers.init, CollectPc.locked]

section Preservation

variable {m : Nat} {st : Peers}

/-- A point of `Collect` without the lock is neither `Catch()` nor a send. -/
theorem CollectPc.unlocked_cases {c : CollectPc} (hc : c.locked = false) :
    (c = .catching → False) ∧ (∀ p, c = .sending p → False) := by
  refine ⟨fun h => ?_, fun p h => ?_⟩
  · subst h
    simp [CollectPc.locked] at hc
  · subst h
    simp [CollectPc.locked] at hc

/-- At a point of `Collect` without the lock, the fields of the invariant about `Collect`
hold, whatever the rest of the state. -/
theorem collect_fields_of_unlocked (st' : Peers) (hc : st'.collect.locked = false) :
    (st'.collect = .catching → st'.activePeers.length < m) ∧
    (∀ p, st'.collect = .sending p → p ∈ st'.activePeers ∧ p ∉ st'.snowflakeChan) ∧
    (st'.collect.locked = true → st'.lock = some .collector) := by
  obtain ⟨hcatch, hsend⟩ := CollectPc.unlocked_cases hc
  refine ⟨fun h => (hcatch h).elim, fun p h => (hsend p h).elim, fun h => ?_⟩
  rw [hc] at h
  cases h

/-- Purging keeps what the invariant says of `activePeers`. -/
theorem PeersInv.purge (hI : PeersInv m st) :
    (purgeClosedPeers st.closed st.activePeers).Nodup ∧
    (∀ q ∈ purgeClosedPeers st.closed st.activePeers, q < st.next) ∧
    (∀ q ∈ st.snowflakeChan, st.closed q = false →
      q ∈ purgeClosedPeers st.closed st.activePeers) := by
  refine ⟨hI.active_nodup.filter _, fun q hq => hI.active_lt q (List.mem_of_mem_filter hq),
    fun q hq hcl => ?_⟩
  apply List.mem_filter.mpr
  exact ⟨hI.chan_open q hq hcl, by simp [hcl]⟩

theorem PeersInv.collectEnter (hI : PeersInv m st) (hm : st.melt = false)
    (hn : (purgeClosedPeers st.closed st.activePeers).length < m) :
    PeersInv m st.collectEnter := by
  obtain ⟨hnd, hlt, hopen⟩ := hI.purge
  exact { hI with
    active_nodup := hnd, active_lt := hlt, chan_open := hopen, active_le := hn.le
    catching_lt := fun _ => hn
    sending_active := fun p hp => by simp [Peers.collectEnter] at hp
    collect_lock := fun _ => rfl
    -- `melt` is open, so `End` has not closed the channel
    closed_unlocked := fun h => absurd (hI.closed_unlocked h).1 (by simp [hm]) }

theorem PeersInv.collectFull (hI : PeersInv m st) (hc : st.collect = .idle) :
    PeersInv m st.collectFull := by
  obtain ⟨hnd, hlt, hopen⟩ := hI.purge
  obtain ⟨h₁, h₂, -⟩ := collect_fields_of_unlocked (m := m) st.collectFull
    (show st.collect.locked = false by rw [hc]; rfl)
  exact { hI with
    active_nodup := hnd, active_lt := hlt, chan_open := hopen
    active_le := (List.length_filter_le _ _).trans hI.active_le
    catching_lt := h₁, sending_active := h₂ }

theorem PeersInv.collectMelted (hI : PeersInv m st) : PeersInv m st.collectMelted := by
  obtain ⟨h₁, h₂, h₃⟩ := collect_fields_of_unlocked (m := m) st.collectMelted rfl
  exact { hI with
    catching_lt := h₁, sending_active := h₂, collect_lock := h₃
    closed_unlocked := fun h => ⟨(hI.closed_unlocked h).1, rfl⟩ }

theorem PeersInv.catchFail (hI : PeersInv m st) : PeersInv m st.catchFail := by
  obtain ⟨h₁, h₂, h₃⟩ := collect_fields_of_unlocked (m := m) st.catchFail rfl
  exact { hI with
    catching_lt := h₁, sending_active := h₂, collect_lock := h₃
    closed_unlocked := fun h => ⟨(hI.closed_unlocked h).1, rfl⟩ }

theorem PeersInv.catchOk (hI : PeersInv m st) (hc : st.collect = .catching) :
    PeersInv m st.catchOk := by
  -- the new peer is fresh: in neither list yet
  have hfresh : st.next ∉ st.activePeers := fun h => lt_irrefl _ (hI.active_lt _ h)
  exact { hI with
    active_nodup := hI.active_nodup.append_singleton hfresh
    chan_lt := fun q hq => (hI.chan_lt q hq).trans (Nat.lt_succ_self _)
    active_lt := fun q hq => by
      rcases List.mem_append.mp hq with hq | hq
      · exact (hI.active_lt q hq).trans (Nat.lt_succ_self _)
      · rw [List.mem_singleton.mp hq]
        exact Nat.lt_succ_self _
    chan_open := fun q hq hcl => List.mem_append_left _ (hI.chan_open q hq hcl)
    active_le := by
      show (st.activePeers ++ [st.next]).length ≤ m
      rw [List.length_append, List.length_singleton]
      exact hI.catching_lt hc
    catching_lt := fun h => by simp [Peers.catchOk] at h
    sending_active := fun p hp => by
      obtain rfl : st.next = p := by simpa [Peers.catchOk] using hp
      exact ⟨List.mem_append_right _ (List.mem_singleton_self _),
        fun h => lt_irrefl _ (hI.chan_lt _ h)⟩
    collect_lock := fun _ => hI.collect_lock (by rw [hc]; rfl)
    closed_unlocked := fun h => by
      have := (hI.closed_unlocked h).2
      simp [hc, CollectPc.locked] at this }

theorem PeersInv.collectSend (hI : PeersInv m st) {p : PeerId} (hc : st.collect = .sending p) :
    PeersInv m (st.collectSend p) := by
  obtain ⟨hpa, hpc⟩ := hI.sending_active p hc
  obtain ⟨h₁, h₂, h₃⟩ := collect_fields_of_unlocked (m := m) (st.collectSend p) rfl
  exact { hI with
    chan_nodup := hI.chan_nodup.append_singleton hpc
    chan_lt := fun q hq => by
      rcases List.mem_append.mp hq with hq | hq
      · exact hI.chan_lt q hq
      · rw [List.mem_singleton.mp hq]
        exact hI.active_lt p hpa
    chan_open := fun q hq hcl => by
      rcases List.mem_append.mp hq with hq | hq
      · exact hI.chan_open q hq hcl
      · rw [List.mem_singleton.mp hq]
        exact hpa
    catching_lt := h₁, sending_active := h₂, collect_lock := h₃
    closed_unlocked := fun h => ⟨(hI.closed_unlocked h).1, rfl⟩ }

theorem PeersInv.collectHandoff (hI : PeersInv m st) (p : PeerId) (q : PopId) :
    PeersInv m (st.collectHandoff p q) := by
  obtain ⟨h₁, h₂, h₃⟩ := collect_fields_of_unlocked (m := m) (st.collectHandoff p q) rfl
  exact { hI with
    catching_lt := h₁, sending_active := h₂, collect_lock := h₃
    closed_unlocked := fun h => ⟨(hI.closed_unlocked h).1, rfl⟩ }

theorem PeersInv.popReceive (hI : PeersInv m st) {q : PopId} {p : PeerId} {rest : List PeerId}
    (hch : st.snowflakeChan = p :: rest) : PeersInv m (st.popReceive q p rest) := by
  -- the rest of the buffer is part of it
  have hsub : ∀ {x}, x ∈ rest → x ∈ st.snowflakeChan := fun hx => hch ▸ List.mem_cons_of_mem _ hx
  exact { hI with
    chan_nodup := (List.nodup_cons.mp (hch ▸ hI.chan_nodup)).2
    chan_lt := fun x hx => hI.chan_lt x (hsub hx)
    chan_open := fun x hx hcl => hI.chan_open x (hsub hx) hcl
    sending_active := fun p' hp' =>
      ⟨(hI.sending_active p' hp').1, fun h => (hI.sending_active p' hp').2 (hsub h)⟩ }

theorem PeersInv.peerClose (hI : PeersInv m st) (p : PeerId) : PeersInv m (st.peerClose p) :=
  { hI with
    chan_open := fun q hq hcl => hI.chan_open q hq (eq_of_update_ne hcl (by simp)) }

theorem PeersInv.endStart (hI : PeersInv m st) : PeersInv m st.endStart :=
  { hI with
    end_melt := fun _ => rfl
    closed_unlocked := fun h => ⟨rfl, (hI.closed_unlocked h).2⟩ }

theorem PeersInv.endLock (hI : PeersInv m st) (he : st.endPc = .locking) (hl : st.lock = none) :
    PeersInv m st.endLock := by
  -- `Collect` is not under the lock, since `End` took it
  have hfree : st.collect.locked = false := by
    by_contra h
    have := hI.collect_lock (by simpa using h)
    rw [hl] at this
    cases this
  obtain ⟨h₁, h₂, -⟩ := collect_fields_of_unlocked (m := m) st.endLock hfree
  exact { hI with
    active_nodup := List.nodup_nil
    active_lt := fun q hq => by simp [Peers.endLock] at hq
    chan_open := fun q hq hcl => by
      simp only [Peers.endLock, Bool.or_eq_false_iff, decide_eq_false_iff_not] at hcl
      exact absurd (hI.chan_open q hq hcl.1) hcl.2
    active_le := Nat.zero_le _
    catching_lt := h₁, sending_active := h₂
    end_melt := fun _ => hI.end_melt (by simp [he])
    closed_unlocked := fun _ => ⟨hI.end_melt (by simp [he]), hfree⟩ }

theorem PeersInv.step (hI : PeersInv m st) {st' : Peers} (h : Step m st st') :
    PeersInv m st' := by
  cases h with
  | collectEnter _ _ hm hn => exact hI.collectEnter hm hn
  | collectFull hc => exact hI.collectFull hc
  | collectMelted => exact hI.collectMelted
  | catchFail => exact hI.catchFail
  | catchOk hc => exact hI.catchOk hc
  | collectSend p hc => exact hI.collectSend hc
  | collectHandoff p q => exact hI.collectHandoff p q
  | popStart q => exact { hI with }
  | popReceive q p rest _ hch => exact hI.popReceive hch
  | popClosed q => exact { hI with }
  | peerClose p => exact hI.peerClose p
  | endStart => exact hI.endStart
  | endLock he hl => exact hI.endLock he hl

theorem peersInv (m : Nat) : (peers m).Inductive (PeersInv m) where
  init := fun _ h => h ▸ PeersInv.init m
  step := fun _ _ h hI => hI.step h

end Preservation

/-- `Collect` never tracks more than `GetMax()` peers. -/
theorem activePeers_le {m : Nat} {st : Peers} (hr : (peers m).Reachable st) :
    st.activePeers.length ≤ m :=
  ((peersInv m).reachable hr).active_le

/-- `Collect` never sends on a closed `snowflakeChan`, which would panic: `End` closes the
channel only under `collectLock` and after `melt`, and with `melt` closed `Collect` does not
start again. -/
theorem collect_send_open {m : Nat} {st : Peers} (hr : (peers m).Reachable st) {p : PeerId}
    (hc : st.collect = .sending p) : st.chanClosed = false := by
  have hI := (peersInv m).reachable hr
  by_contra h
  have hlocked := (hI.closed_unlocked (by simpa using h)).2
  simp [hc, CollectPc.locked] at hlocked

/-- A send of `Collect` that finds the buffer full finds a closed peer in it: the open peers
of the buffer are in `activePeers` with the peer being sent, and there are at most
`GetMax()` of those. -/
theorem sendBlocked_closed_peer {m : Nat} {st : Peers} (hr : (peers m).Reachable st)
    {p : PeerId} (hc : st.collect = .sending p) (hfull : m ≤ st.snowflakeChan.length) :
    ∃ q ∈ st.snowflakeChan, st.closed q = true := by
  have hI := (peersInv m).reachable hr
  obtain ⟨hpa, hpc⟩ := hI.sending_active p hc
  by_contra hno
  simp only [not_exists, not_and, Bool.not_eq_true] at hno
  -- every buffered peer is open, so tracked, and is not the one being sent
  have hsub : st.snowflakeChan ⊆ st.activePeers.erase p := by
    intro q hq
    have hq' := hI.chan_open q hq (hno q hq)
    apply (List.mem_erase_of_ne _).mpr hq'
    rintro rfl
    exact hpc hq
  have hlen := (List.subperm_of_subset hI.chan_nodup hsub).length_le
  rw [List.length_erase_of_mem hpa] at hlen
  have hpos := List.length_pos_of_mem hpa
  have hle := hI.active_le
  omega

/-! ## `End` behind a blocked send -/

/-- `End` waits for `collectLock`, which `Collect` holds at a send that the full buffer
blocks, and no `Pop` is receiving. -/
def EndBlocked (m : Nat) (st : Peers) : Prop :=
  st.endPc = .locking ∧ st.lock = some .collector ∧ (∃ p, st.collect = .sending p) ∧
    m ≤ st.snowflakeChan.length ∧ ∀ q, st.pops q ≠ some .receiving

/-- Only a `Pop` call can release `End`. -/
theorem endBlocked_stable (m : Nat) : (peersWithoutPop m).Stable (EndBlocked m) := by
  rintro st st' ⟨h, hpops⟩ hb
  obtain ⟨he, hl, ⟨p, hc⟩, hfull, hq⟩ := hb
  cases h with
  | collectEnter hc' => simp [hc] at hc'
  | collectFull hc' => simp [hc] at hc'
  | collectMelted hc' => simp [hc] at hc'
  | catchFail hc' => simp [hc] at hc'
  | catchOk hc' => simp [hc] at hc'
  | collectSend p' _ hr => omega
  | collectHandoff p' q _ hq' => exact absurd hq' (hq q)
  | popStart q =>
    -- a `Pop` that starts changes `pops`
    have := congrFun hpops q
    simp [Peers.popStart] at this
    exact absurd this.symm (hq q)
  | popReceive q p' rest hq' => exact absurd hq' (hq q)
  | popClosed q hq' => exact absurd hq' (hq q)
  | peerClose p' => exact ⟨he, hl, ⟨p, hc⟩, hfull, hq⟩
  | endStart he' => simp [he] at he'
  | endLock _ hl' => simp [hl] at hl'

/-- With `GetMax() = 1`: a peer is collected and closes before any `Pop`; the next
`Collect` finds `Count()` at 0 and catches a second peer; `End` starts. -/
def blockedRun : Peers :=
  Peers.init.collectEnter |>.catchOk |>.collectSend 0 |>.peerClose 0 |>.collectEnter
    |>.catchOk |>.endStart

theorem blockedRun_reachable : (peers 1).Reachable blockedRun := by
  have r₁ := (Transition.System.Reachable.of_init (show (peers 1).init Peers.init from rfl)).step
    (Step.collectEnter _ rfl rfl rfl (by decide))
  have r₂ := r₁.step (Step.catchOk _ rfl)
  have r₃ := r₂.step (Step.collectSend _ 0 rfl (by decide))
  have r₄ := r₃.step (Step.peerClose _ 0 (by decide))
  have r₅ := r₄.step (Step.collectEnter _ rfl rfl rfl (by decide))
  have r₆ := r₅.step (Step.catchOk _ rfl)
  exact r₆.step (Step.endStart _ rfl)

theorem sendBlocked_closed_peer_blockedRun :
    (peers 1).Reachable blockedRun ∧ blockedRun.collect = .sending 1 ∧
      1 ≤ blockedRun.snowflakeChan.length ∧
      ∃ q ∈ blockedRun.snowflakeChan, blockedRun.closed q = true :=
  ⟨blockedRun_reachable, rfl, by decide,
    sendBlocked_closed_peer blockedRun_reachable rfl (by decide)⟩

theorem collect_send_open_blockedRun :
    (peers 1).Reachable blockedRun ∧ blockedRun.collect = .sending 1 ∧
      blockedRun.chanClosed = false :=
  ⟨blockedRun_reachable, rfl, collect_send_open blockedRun_reachable rfl⟩

/-- `Collect` blocks on its send holding `collectLock`, and `End` waits behind it for as
long as no `Pop` runs. -/
theorem collect_blocks_end :
    ∃ st, (peers 1).Reachable st ∧ EndBlocked 1 st ∧
      ∀ st', Relation.ReflTransGen (peersWithoutPop 1).step st st' → EndBlocked 1 st' := by
  have hb : EndBlocked 1 blockedRun :=
    ⟨rfl, rfl, ⟨1, rfl⟩, by decide, fun _ h => Option.some_ne_none _ h.symm⟩
  exact ⟨blockedRun, blockedRun_reachable, hb,
    fun _ h => (endBlocked_stable 1).reflTransGen h hb⟩

/-! ## Every capacity

The same block for every `GetMax() = m ≥ 1`: `m` peers are collected and closed before any
`Pop`, so the buffer is full while `Count()` is 0. -/

/-- `k` rounds of `Collect`, each sending its peer into the buffer. -/
def fillRun : Nat → Peers
  | 0 => Peers.init
  | k + 1 => (fillRun k).collectEnter |>.catchOk |>.collectSend k

/-- The peers `p < k` close, in order. -/
def closeUpTo (st : Peers) : Nat → Peers
  | 0 => st
  | k + 1 => (closeUpTo st k).peerClose k

theorem fillRun_eq (k : Nat) :
    fillRun k = { Peers.init with
      snowflakeChan := List.range k, activePeers := List.range k, next := k } := by
  induction k with
  | zero => rfl
  | succ k ih =>
    rw [fillRun, ih]
    simp [Peers.collectEnter, Peers.catchOk, Peers.collectSend, purgeClosedPeers, Peers.init,
      List.range_succ]

theorem closeUpTo_eq (st : Peers) (k : Nat) :
    closeUpTo st k = { st with closed := fun (p : Nat) => st.closed p || decide (p < k) } := by
  induction k with
  | zero => simp [closeUpTo]
  | succ k ih =>
    rw [closeUpTo, ih]
    simp only [Peers.peerClose, Peers.mk.injEq, and_true, true_and]
    funext (p : Nat)
    by_cases hp : p = k
    · simp [hp]
    · have hlt : p ≤ k ↔ p < k := by omega
      simp [hp, hlt]

theorem fillRun_reachable {m k : Nat} (hk : k ≤ m) : (peers m).Reachable (fillRun k) := by
  induction k with
  | zero => exact Transition.System.Reachable.of_init rfl
  | succ k ih =>
    have hst := fillRun_eq k
    have r₁ := (ih (by omega)).step (Step.collectEnter _ (by rw [hst]; rfl) (by rw [hst]; rfl) (by rw [hst]; rfl)
      (by simp [hst, purgeClosedPeers, Peers.init]; omega))
    have r₂ := r₁.step (Step.catchOk _ rfl)
    exact r₂.step (Step.collectSend _ k (by simp [Peers.catchOk, Peers.collectEnter, hst])
      (by simp [Peers.catchOk, Peers.collectEnter, hst]; omega))

theorem closeUpTo_reachable {m k : Nat} {st : Peers} (hr : (peers m).Reachable st)
    (hk : k ≤ st.next) : (peers m).Reachable (closeUpTo st k) := by
  induction k with
  | zero => exact hr
  | succ k ih =>
    -- closing changes nothing but `closed`, so the next peer to close is still collected
    have hnext : (closeUpTo st k).next = st.next := by rw [closeUpTo_eq]
    exact (ih (by omega)).step (Step.peerClose (closeUpTo st k) k (by rw [hnext]; exact hk))

/-- After `k` rounds and the closing of the first `j` peers. -/
theorem closeUpTo_fillRun (k j : Nat) :
    closeUpTo (fillRun k) j = { Peers.init with
      snowflakeChan := List.range k, activePeers := List.range k,
      closed := fun (p : Nat) => decide (p < j), next := k } := by
  rw [closeUpTo_eq, fillRun_eq]
  simp [Peers.init]

/-- The state of `collect_blocks_end` for capacity `m`. -/
def blockedRunOf (m : Nat) : Peers :=
  closeUpTo (fillRun m) m |>.collectEnter |>.catchOk |>.endStart

theorem blockedRunOf_reachable {m : Nat} (hm : 1 ≤ m) : (peers m).Reachable (blockedRunOf m) := by
  have hst := closeUpTo_fillRun m m
  have r₀ := closeUpTo_reachable (fillRun_reachable (le_refl m)) (k := m) (by rw [fillRun_eq])
  -- every tracked peer is closed, so `Count()` is 0
  have hpurge : purgeClosedPeers (closeUpTo (fillRun m) m).closed
      (closeUpTo (fillRun m) m).activePeers = [] := by
    simp [hst, purgeClosedPeers]
  have r₁ := r₀.step (Step.collectEnter _ (by rw [hst]; rfl) (by rw [hst]; rfl) (by rw [hst]; rfl)
    (by rw [hpurge]; exact hm))
  have r₂ := r₁.step (Step.catchOk _ rfl)
  exact r₂.step (Step.endStart _ (by rw [Peers.catchOk, Peers.collectEnter, hst]; rfl))

theorem blockedRunOf_endBlocked (m : Nat) : EndBlocked m (blockedRunOf m) := by
  have hst := closeUpTo_fillRun m m
  refine ⟨rfl, rfl, ⟨_, rfl⟩, ?_, fun q h => ?_⟩
  · simp [blockedRunOf, Peers.endStart, Peers.catchOk, Peers.collectEnter, hst]
  · simp [blockedRunOf, Peers.endStart, Peers.catchOk, Peers.collectEnter, hst, Peers.init] at h

/-- For every capacity `GetMax() = m ≥ 1`, `Collect` can block on its send holding
`collectLock`, and `End` then waits behind it for as long as no `Pop` runs. -/
theorem collect_blocks_end_of_max {m : Nat} (hm : 1 ≤ m) :
    ∃ st, (peers m).Reachable st ∧ EndBlocked m st ∧
      ∀ st', Relation.ReflTransGen (peersWithoutPop m).step st st' → EndBlocked m st' :=
  ⟨blockedRunOf m, blockedRunOf_reachable hm, blockedRunOf_endBlocked m,
    fun _ h => (endBlocked_stable m).reflTransGen h (blockedRunOf_endBlocked m)⟩

theorem collect_blocks_end_of_max_two :
    1 ≤ 2 ∧ ∃ st, (peers 2).Reachable st ∧ EndBlocked 2 st ∧
      ∀ st', Relation.ReflTransGen (peersWithoutPop 2).step st st' → EndBlocked 2 st' :=
  ⟨by decide, collect_blocks_end_of_max (by decide)⟩

end Snowflake.Client
