import Mathlib
import Snowflake.Lib.Transition
import Snowflake.Turbotunnel.ClientMap
/-
Runs of `clientMapInner`: any sequence of `SendQueue(addr, now)` and
`removeExpired(now, timeout)` calls on the empty map of `NewClientMap`, with any addresses
and times. `ClientMap` makes each call under its lock, from `SendQueue` and from the expiry
goroutine, so a call is one step.

A run keeps a log of what the callers saw: the channel each `SendQueue` returned, and each
record `removeExpired` popped. `previousQueue addr log` is the channel of the last
`SendQueue(addr)` in the log, unless a record of `addr` expired after it. `ClientMapInv` ties
the state to the log: the records are the channels last handed out, every channel in the log
was made, and the closed channels are those of the expired records. `clientMap_invariant` is
what follows in every reachable state.
-/

set_option autoImplicit false

namespace Snowflake.Turbotunnel

open GoHeap Transition

variable {Addr : Type} [DecidableEq Addr]

/-! ## What the callers see -/

/-- What a caller of `clientMapInner` saw. -/
inductive Event (Addr : Type) where
  /-- `SendQueue(addr)` returned the channel `queue` -/
  | sendQueue (addr : Addr) (queue : Nat)
  /-- `removeExpired` popped `record`, and closed its channel -/
  | expired (record : ClientRecord Addr)

/-- The channel an event is about. -/
def Event.queue {Addr : Type} : Event Addr → Nat
  | .sendQueue _ q => q
  | .expired r => r.sendQueue

/-- The channel an event closed. -/
def Event.closedQueue {Addr : Type} : Event Addr → Option Nat
  | .sendQueue _ _ => none
  | .expired r => some r.sendQueue

/-- The channel last handed out for `addr`, after one more event. -/
def Event.previous (addr : Addr) (prev : Option Nat) : Event Addr → Option Nat
  | .sendQueue a q => if a = addr then some q else prev
  | .expired r => if r.addr = addr then none else prev

/-- The channel of the last `SendQueue(addr)` of the log, unless a record of `addr` expired
after it. -/
def previousQueue (addr : Addr) (log : List (Event Addr)) : Option Nat :=
  log.foldl (Event.previous addr) none

theorem previousQueue_append (addr : Addr) (log es : List (Event Addr)) :
    previousQueue addr (log ++ es) = es.foldl (Event.previous addr) (previousQueue addr log) :=
  List.foldl_append

theorem previousQueue_concat (addr : Addr) (log : List (Event Addr)) (e : Event Addr) :
    previousQueue addr (log ++ [e]) = e.previous addr (previousQueue addr log) := by
  rw [previousQueue_append]
  rfl

/-- Records expiring forget the channel of `addr` exactly when one of them is `addr`'s. -/
theorem foldl_previous_expired (addr : Addr) (popped : List (ClientRecord Addr))
    (prev : Option Nat) :
    (popped.map Event.expired).foldl (Event.previous addr) prev =
      if addr ∈ popped.map ClientRecord.addr then none else prev := by
  induction popped generalizing prev with
  | nil => simp
  | cons p popped ih =>
    rw [List.map_cons, List.foldl_cons, ih]
    by_cases hp : p.addr = addr
    · simp only [Event.previous, hp, if_true, List.map_cons, List.mem_cons, true_or]
      split <;> rfl
    · simp only [Event.previous, hp, if_false, List.map_cons, List.mem_cons]
      by_cases hmem : addr ∈ popped.map ClientRecord.addr
      · rw [if_pos hmem, if_pos (Or.inr hmem)]
      · rw [if_neg hmem, if_neg (by rintro (h | h); exacts [hp h.symm, hmem h])]

omit [DecidableEq Addr] in
theorem filterMap_closedQueue_expired (popped : List (ClientRecord Addr)) :
    (popped.map Event.expired).filterMap Event.closedQueue = popped.map ClientRecord.sendQueue := by
  induction popped with
  | nil => rfl
  | cons p popped ih =>
    rw [List.map_cons, List.filterMap_cons, List.map_cons, ← ih]
    rfl

/-! ## Runs -/

/-- A `clientMapInner`, and what its callers have seen. -/
structure ClientMapRun (Addr : Type) where
  inner : ClientMapInner Addr
  log : List (Event Addr)

/-- One call: `SendQueue(addr, now)`, or `removeExpired(now, timeout)`, at any address and
time. A call that panics makes no step. -/
inductive ClientMapStep : ClientMapRun Addr → ClientMapRun Addr → Prop
  | sendQueue {w : ClientMapRun Addr} {addr : Addr} {now : Time} {inner : ClientMapInner Addr}
      {q : Nat} (h : w.inner.sendQueue addr now = .ok (inner, q)) :
      ClientMapStep w ⟨inner, w.log ++ [.sendQueue addr q]⟩
  | removeExpired {w : ClientMapRun Addr} {now : Time} {timeout : Duration}
      {inner : ClientMapInner Addr} {popped : List (ClientRecord Addr)}
      (h : w.inner.removeExpired now timeout = .ok (inner, popped)) :
      ClientMapStep w ⟨inner, w.log ++ popped.map .expired⟩

/-- The runs from `NewClientMap`. -/
def clientMapSystem : System (ClientMapRun Addr) where
  init w := w.inner = newClientMapInner ∧ w.log = []
  step := ClientMapStep

/-- What holds in every reachable state: the representation invariant and the heap order; each
record holds the channel last handed out for its address, and an address without a record has
none; every channel in the log was made; and the closed channels are those of the expired
records, in order. -/
structure ClientMapInv (w : ClientMapRun Addr) : Prop where
  good : w.inner.Good
  ordered : IsHeap ClientRecord.lastSeen w.inner.byAge w.inner.byAge.length
  previous : ∀ r ∈ w.inner.byAge, previousQueue r.addr w.log = some r.sendQueue
  previous_none : ∀ a, a ∉ w.inner.byAge.map ClientRecord.addr → previousQueue a w.log = none
  made : ∀ e ∈ w.log, e.queue < w.inner.made
  closed : w.inner.closed = w.log.filterMap Event.closedQueue

section Inv

variable {w : ClientMapRun Addr}

theorem ClientMapInv.init (h : clientMapSystem.init w) : ClientMapInv w := by
  obtain ⟨inner, log⟩ := w
  obtain ⟨hinner, hlog⟩ := h
  dsimp only at hinner hlog
  subst hinner hlog
  refine ⟨⟨List.nodup_nil, ?_, ?_, List.nodup_nil, ?_, ?_, ?_, List.nodup_nil⟩, ?_, ?_, ?_, ?_, rfl⟩
  · intro i r hi
    simp [newClientMapInner] at hi
  · intro a ha
    exact absurd ha (AList.notMem_empty a)
  · intro r hr
    simp [newClientMapInner] at hr
  · intro r hr
    simp [newClientMapInner] at hr
  · intro q hq
    simp [newClientMapInner] at hq
  · intro c hc0 hcn
    simp [newClientMapInner] at hcn
  · intro r hr
    simp [newClientMapInner] at hr
  · intro a _
    rfl
  · intro e he
    simp at he

/-- `SendQueue` of an address with a record: the log gains the record's channel. -/
theorem ClientMapInv.sendQueue_found (hinv : ClientMapInv w) {i : Nat} {r : ClientRecord Addr}
    (hi : w.inner.byAge[i]? = some r) {now : Time} {inner : ClientMapInner Addr} {q : Nat}
    (h : w.inner.sendQueue r.addr now = .ok (inner, q)) :
    q = r.sendQueue ∧ ClientMapInv ⟨inner, w.log ++ [.sendQueue r.addr q]⟩ := by
  obtain ⟨inner', hsend, hg', hheap', hperm, hmade, hclosed⟩ :=
    ClientMapInner.sendQueue_found hinv.good hinv.ordered hi now
  rw [hsend, Except.ok.injEq, Prod.mk.injEq] at h
  obtain ⟨rfl, rfl⟩ := h
  refine ⟨rfl, hg', hheap', ?_, ?_, ?_, ?_⟩
  · -- the record at `i` is `r` seen again; any other keeps a different address
    intro r' hr'
    rw [previousQueue_concat]
    obtain ⟨k, hk⟩ := List.mem_iff_getElem?.mp (hperm.subset hr')
    rw [List.getElem?_set] at hk
    by_cases hik : i = k
    · rw [if_pos hik, if_pos (List.getElem?_eq_some_iff.mp hi).1, Option.some.injEq] at hk
      subst hk
      simp [Event.previous]
    · rw [if_neg hik] at hk
      have hne : r.addr ≠ r'.addr := fun h =>
        hik (pos_eq_of_map_nodup _ hinv.good.nodup hi hk h)
      rw [Event.previous, if_neg hne]
      exact hinv.previous r' (List.mem_of_getElem? hk)
  · intro a ha
    rw [(hperm.map _).mem_iff, map_set_of_eq ClientRecord.addr hi { r with lastSeen := now } rfl]
      at ha
    have hne : r.addr ≠ a := fun h => ha (h ▸ List.mem_map_of_mem (List.mem_of_getElem? hi))
    rw [previousQueue_concat, Event.previous, if_neg hne]
    exact hinv.previous_none a ha
  · intro e he
    rw [hmade]
    rcases List.mem_append.mp he with he | he
    · exact hinv.made e he
    · rw [List.mem_singleton.mp he]
      exact hinv.good.queue_made r (List.mem_of_getElem? hi)
  · simp [hclosed, hinv.closed, Event.closedQueue]

/-- `SendQueue` of an address without a record: the log gains the channel just made. -/
theorem ClientMapInv.sendQueue_new (hinv : ClientMapInv w) {addr : Addr}
    (haddr : addr ∉ w.inner.byAge.map ClientRecord.addr) {now : Time}
    {inner : ClientMapInner Addr} {q : Nat} (h : w.inner.sendQueue addr now = .ok (inner, q)) :
    q = w.inner.made ∧ ClientMapInv ⟨inner, w.log ++ [.sendQueue addr q]⟩ := by
  obtain ⟨inner', hsend, hg', hheap', hperm, hmade, hclosed⟩ :=
    ClientMapInner.sendQueue_new hinv.good hinv.ordered haddr now
  rw [hsend, Except.ok.injEq, Prod.mk.injEq] at h
  obtain ⟨rfl, rfl⟩ := h
  refine ⟨rfl, hg', hheap', ?_, ?_, ?_, ?_⟩
  · intro r' hr'
    rw [previousQueue_concat]
    rcases List.mem_append.mp (hperm.subset hr') with hr' | hr'
    · have hne : addr ≠ r'.addr := fun h => haddr (h ▸ List.mem_map_of_mem hr')
      rw [Event.previous, if_neg hne]
      exact hinv.previous r' hr'
    · rw [List.mem_singleton.mp hr']
      simp [Event.previous]
  · intro a ha
    rw [(hperm.map _).mem_iff, List.map_append, List.mem_append, not_or] at ha
    have hne : addr ≠ a := fun h => ha.2 (by simp [h])
    rw [previousQueue_concat, Event.previous, if_neg hne]
    exact hinv.previous_none a ha.1
  · intro e he
    rw [hmade]
    rcases List.mem_append.mp he with he | he
    · exact Nat.lt_succ_of_lt (hinv.made e he)
    · rw [List.mem_singleton.mp he]
      exact Nat.lt_succ_self _
  · simp [hclosed, hinv.closed, Event.closedQueue]

theorem ClientMapInv.sendQueue (hinv : ClientMapInv w) {addr : Addr} {now : Time}
    {inner : ClientMapInner Addr} {q : Nat} (h : w.inner.sendQueue addr now = .ok (inner, q)) :
    ClientMapInv ⟨inner, w.log ++ [.sendQueue addr q]⟩ := by
  by_cases haddr : addr ∈ w.inner.byAge.map ClientRecord.addr
  · obtain ⟨r, hr, rfl⟩ := List.mem_map.mp haddr
    obtain ⟨i, hi⟩ := List.mem_iff_getElem?.mp hr
    exact (hinv.sendQueue_found hi h).2
  · exact (hinv.sendQueue_new haddr h).2

/-- `removeExpired`: the log gains the records popped, whose addresses then have no channel. -/
theorem ClientMapInv.removeExpired (hinv : ClientMapInv w) {now : Time} {timeout : Duration}
    {inner : ClientMapInner Addr} {popped : List (ClientRecord Addr)}
    (h : w.inner.removeExpired now timeout = .ok (inner, popped)) :
    ClientMapInv ⟨inner, w.log ++ popped.map .expired⟩ := by
  obtain ⟨inner', popped', hrem, hg', hheap', hperm, hmade, hclosed, -, -⟩ :=
    ClientMapInner.removeExpired_spec hinv.good hinv.ordered now timeout
  rw [hrem, Except.ok.injEq, Prod.mk.injEq] at h
  obtain ⟨rfl, rfl⟩ := h
  -- the records left and the records popped have distinct addresses
  have hnodup : ((inner'.byAge ++ popped').map ClientRecord.addr).Nodup :=
    (hperm.map _).nodup_iff.mpr hinv.good.nodup
  rw [List.map_append] at hnodup
  refine ⟨hg', hheap', ?_, ?_, ?_, ?_⟩
  · intro r hr
    have hout : r.addr ∉ popped'.map ClientRecord.addr :=
      List.disjoint_of_nodup_append hnodup (List.mem_map_of_mem hr)
    rw [previousQueue_append, foldl_previous_expired, if_neg hout]
    exact hinv.previous r (hperm.subset (List.mem_append_left _ hr))
  · intro a ha
    rw [previousQueue_append, foldl_previous_expired]
    split
    · rfl
    · rename_i hout
      apply hinv.previous_none a
      rw [← (hperm.map _).mem_iff, List.map_append, List.mem_append, not_or]
      exact ⟨ha, hout⟩
  · intro e he
    rw [hmade]
    rcases List.mem_append.mp he with he | he
    · exact hinv.made e he
    · obtain ⟨r, hr, rfl⟩ := List.mem_map.mp he
      exact hinv.good.queue_made r (hperm.subset (List.mem_append_right _ hr))
  · rw [hclosed, hinv.closed, List.filterMap_append, filterMap_closedQueue_expired]

theorem clientMapInv_inductive :
    (clientMapSystem : System (ClientMapRun Addr)).Inductive ClientMapInv where
  init _ h := ClientMapInv.init h
  step _ _ hstep hinv := by
    cases hstep with
    | sendQueue h => exact hinv.sendQueue h
    | removeExpired h => exact hinv.removeExpired h

/-! ### What the invariant gives the callers -/

/-- `SendQueue` returns, with the channel last handed out for the address if it has one, and
otherwise with one that no caller has seen. -/
theorem ClientMapInv.sendQueue_result (hinv : ClientMapInv w) (addr : Addr) (now : Time) :
    ∃ inner q, w.inner.sendQueue addr now = .ok (inner, q) ∧
      (∀ q', previousQueue addr w.log = some q' → q = q') ∧
      (previousQueue addr w.log = none → ∀ e ∈ w.log, e.queue ≠ q) := by
  by_cases haddr : addr ∈ w.inner.byAge.map ClientRecord.addr
  · obtain ⟨r, hr, rfl⟩ := List.mem_map.mp haddr
    obtain ⟨i, hi⟩ := List.mem_iff_getElem?.mp hr
    obtain ⟨inner, hsend, -⟩ := ClientMapInner.sendQueue_found hinv.good hinv.ordered hi now
    have hprev := hinv.previous r hr
    refine ⟨inner, r.sendQueue, hsend, fun q' hq' => ?_, fun hnone => ?_⟩
    · rw [hprev, Option.some.injEq] at hq'
      exact hq'
    · rw [hprev] at hnone
      cases hnone
  · obtain ⟨inner, hsend, -⟩ := ClientMapInner.sendQueue_new hinv.good hinv.ordered haddr now
    have hprev := hinv.previous_none addr haddr
    refine ⟨inner, w.inner.made, hsend, fun q' hq' => ?_, fun _ e he => ?_⟩
    · rw [hprev] at hq'
      cases hq'
    · exact Nat.ne_of_lt (hinv.made e he)

/-- `removeExpired` returns; each record it pops had expired and has its channel, open until
then, closed once; the records left have not expired. -/
theorem ClientMapInv.removeExpired_result (hinv : ClientMapInv w) (now : Time)
    (timeout : Duration) :
    ∃ inner popped, w.inner.removeExpired now timeout = .ok (inner, popped) ∧
      (∀ r ∈ popped, timeout ≤ Time.sub now r.lastSeen ∧ r.sendQueue ∉ w.inner.closed ∧
        inner.closed.count r.sendQueue = 1) ∧
      (∀ r ∈ inner.byAge, Time.sub now r.lastSeen < timeout) := by
  obtain ⟨inner, popped, hrem, hg', -, -, -, hclosed, hexpired, hleft⟩ :=
    ClientMapInner.removeExpired_spec hinv.good hinv.ordered now timeout
  refine ⟨inner, popped, hrem, fun r hr => ⟨hexpired r hr, ?_, ?_⟩, hleft⟩
  · have hnodup := hg'.closed_nodup
    rw [hclosed] at hnodup
    exact List.disjoint_of_nodup_append hnodup |>.symm (List.mem_map_of_mem hr)
  · apply List.count_eq_one_of_mem hg'.closed_nodup
    rw [hclosed]
    exact List.mem_append_right _ (List.mem_map_of_mem hr)

end Inv

/-! ## The map over every run -/

/-- What holds of every reachable state, in the source's terms: `byAddr` and `byAge` are
inverse and `byAge` is a min-heap on `LastSeen`; `Len`, `SendQueue` and `removeExpired`
return; `SendQueue` hands out the channel it handed out before unless the record expired;
`removeExpired` pops only expired records, closes each of their channels once, and leaves
none expired; and every channel closed is an expired record's, closed once. -/
structure ClientMapSafe (w : ClientMapRun Addr) : Prop where
  index_eq : ∀ (i : Nat) r, w.inner.byAge[i]? = some r → w.inner.byAddr.lookup r.addr = some i
  size : w.inner.byAddr.keys.length = w.inner.byAge.length
  nodup : (w.inner.byAge.map ClientRecord.addr).Nodup
  minHeap : ∀ c p q, 0 < c → w.inner.byAge[(c - 1) / 2]? = some p → w.inner.byAge[c]? = some q →
    p.lastSeen ≤ q.lastSeen
  len_ok : w.inner.len = .ok w.inner.byAge.length
  sendQueue_previous : ∀ addr now, ∃ inner q, w.inner.sendQueue addr now = .ok (inner, q) ∧
    (∀ q', previousQueue addr w.log = some q' → q = q') ∧
    (previousQueue addr w.log = none → ∀ e ∈ w.log, e.queue ≠ q)
  removeExpired_expired : ∀ now timeout, ∃ inner popped,
    w.inner.removeExpired now timeout = .ok (inner, popped) ∧
    (∀ r ∈ popped, timeout ≤ Time.sub now r.lastSeen ∧ r.sendQueue ∉ w.inner.closed ∧
      inner.closed.count r.sendQueue = 1) ∧
    (∀ r ∈ inner.byAge, Time.sub now r.lastSeen < timeout)
  closed_once : w.inner.closed.Nodup ∧ w.inner.closed = w.log.filterMap Event.closedQueue

theorem ClientMapInv.clientMapSafe {w : ClientMapRun Addr} (hinv : ClientMapInv w) :
    ClientMapSafe w where
  index_eq := hinv.good.index_eq
  size := hinv.good.length_keys
  nodup := hinv.good.nodup
  minHeap c p q hc0 hp hq :=
    hinv.ordered c hc0 (List.getElem?_eq_some_iff.mp hq).1 p q hp hq
  len_ok := hinv.good.len
  sendQueue_previous := hinv.sendQueue_result
  removeExpired_expired := hinv.removeExpired_result
  closed_once := ⟨hinv.good.closed_nodup, hinv.closed⟩

theorem clientMap_invariant {w : ClientMapRun Addr} (hw : clientMapSystem.Reachable w) :
    ClientMapSafe w :=
  (clientMapInv_inductive.reachable hw).clientMapSafe

theorem clientMap_invariant_one_client :
    clientMapSystem.Reachable (⟨⟨[⟨7, 0, 0⟩], (∅ : AList fun _ : Nat => Nat).insert 7 0, 1, []⟩,
      [.sendQueue 7 0]⟩ : ClientMapRun Nat) ∧
    ClientMapSafe (⟨⟨[⟨7, 0, 0⟩], (∅ : AList fun _ : Nat => Nat).insert 7 0, 1, []⟩,
      [.sendQueue 7 0]⟩ : ClientMapRun Nat) := by
  have h₀ : clientMapSystem.Reachable (⟨newClientMapInner, []⟩ : ClientMapRun Nat) :=
    System.Reachable.of_init ⟨rfl, rfl⟩
  have hw : clientMapSystem.Reachable (⟨⟨[⟨7, 0, 0⟩], (∅ : AList fun _ : Nat => Nat).insert 7 0,
      1, []⟩, [.sendQueue 7 0]⟩ : ClientMapRun Nat) :=
    h₀.step (ClientMapStep.sendQueue (newClientMapInner_sendQueue 7 0))
  exact ⟨hw, clientMap_invariant hw⟩

end Snowflake.Turbotunnel
