import Mathlib
import Snowflake.Lib.Heap
/-
`clientMapInner` (`common/turbotunnel/clientmap.go`): the records of the clients seen
recently, in a `container/heap` ordered by `LastSeen` (`byAge`), with a map from each address
to the position of its record in the heap (`byAddr`).

## The representation

A record is its address, its `LastSeen` time and its send queue. `byAge` holds pointers and
`SendQueue` writes `LastSeen` through one, but the record it writes is `byAge[i]`, so a list
of record values is enough. A channel is told apart from the others only by which `make`
made it, so a channel is a number, and the state keeps how many channels `make` has made and
which have been closed, in order: `Pop` closes one, and a second `close` of it would panic.
A time is its reading in nanoseconds, and `Sub` saturates at the bounds of `Duration` as
Go's does. The five methods of the heap interface are `clientMapHeap`; `SendQueue` and
`removeExpired` call `heap.Fix`, `heap.Push` and `heap.Pop` of `GoHeap` on it. A panic is an
error with its message.

## What is proved

`Good` is the representation invariant: the addresses in `byAge` are distinct, `byAddr` maps
each of them to its position and has no other key, and the records' channels are distinct,
made and open. `clientMapHeap_refines` shows the five methods lawful on it, so the heap order
and which record each call takes out come from `GoHeap`. `Swap` keeps `Good` because it writes
`byAddr` for just the two records it swaps. `sendQueue_found`, `sendQueue_new` and
`removeExpired_spec` say what the two calls return from a state where `Good` and the heap
order hold. `removeExpired` may stop at the first record that has not expired because the root
has the least `LastSeen` and `Sub` is antitone in its second argument.
-/

set_option autoImplicit false

namespace Snowflake.Turbotunnel

open GoHeap

/-! ## Time -/

/-- A `time.Time`, as its reading in nanoseconds. -/
abbrev Time := Int

/-- A `time.Duration`: nanoseconds, in an `int64`. -/
abbrev Duration := Int

/-- `minDuration`. -/
def minDuration : Duration := -2 ^ 63

/-- `maxDuration`. -/
def maxDuration : Duration := 2 ^ 63 - 1

/-- `t.Sub(u)`: the difference, saturated to the range of `Duration`. -/
def Time.sub (t u : Time) : Duration := max minDuration (min maxDuration (t - u))

/-- `t.Before(u)`. -/
def Time.before (t u : Time) : Bool := decide (t < u)

/-- What was seen later was seen less long ago. -/
theorem Time.sub_le_sub_left (t : Time) {u u' : Time} (h : u ≤ u') :
    Time.sub t u' ≤ Time.sub t u := by
  unfold Time.sub
  apply max_le_max le_rfl
  apply min_le_min le_rfl
  exact Int.sub_le_sub_left h t

/-! ## The model -/

/-- `clientRecord`. -/
structure ClientRecord (Addr : Type) where
  addr : Addr
  lastSeen : Time
  /-- the `chan []byte`, told apart by the number of channels made before it -/
  sendQueue : Nat
  deriving DecidableEq

/-- `clientMapInner`, with the channels of its records: `made` channels have been made, and
`closed` lists those closed, in the order `close` was called. -/
structure ClientMapInner (Addr : Type) where
  byAge : List (ClientRecord Addr)
  byAddr : AList (fun _ : Addr => Nat)
  made : Nat
  closed : List Nat

variable {Addr : Type} [DecidableEq Addr]

/-- The `clientMapInner` of `NewClientMap`, before any channel is made. -/
def newClientMapInner : ClientMapInner Addr := ⟨[], ∅, 0, []⟩

/-- `(*clientMapInner).Len`. -/
def ClientMapInner.len (inner : ClientMapInner Addr) : Except String Nat :=
  if inner.byAge.length ≠ inner.byAddr.keys.length then .error "inconsistent clientMap"
  else .ok inner.byAge.length

/-- `(*clientMapInner).Less`. -/
def ClientMapInner.less (inner : ClientMapInner Addr) (i j : Nat) : Bool :=
  match inner.byAge[i]?, inner.byAge[j]? with
  | some r, some q => Time.before r.lastSeen q.lastSeen
  | _, _ => false

/-- `inner.byAddr[inner.byAge[i].Addr] = i`. -/
def ClientMapInner.setAddrAt (inner : ClientMapInner Addr) (i : Nat) : ClientMapInner Addr :=
  match inner.byAge[i]? with
  | some r => { inner with byAddr := inner.byAddr.insert r.addr i }
  | none => inner

/-- `(*clientMapInner).Swap`: the two cells, then the position of each in `byAddr`. -/
def ClientMapInner.swap (inner : ClientMapInner Addr) (i j : Nat) : ClientMapInner Addr :=
  ({ inner with byAge := swapAt inner.byAge i j }.setAddrAt i).setAddrAt j

/-- `(*clientMapInner).Push`. -/
def ClientMapInner.push (inner : ClientMapInner Addr) (record : ClientRecord Addr) :
    Except String (ClientMapInner Addr) :=
  if (inner.byAddr.lookup record.addr).isSome then .error "duplicate address in clientMap"
  else .ok { inner with byAddr := inner.byAddr.insert record.addr inner.byAge.length,
                        byAge := inner.byAge ++ [record] }

/-- `(*clientMapInner).Pop`: the record at `len(byAddr) - 1` goes, and its channel is closed.
`byAge[n-1]` panics when there is no such cell, and so does `close` of a closed channel. -/
def ClientMapInner.pop (inner : ClientMapInner Addr) :
    Except String (ClientMapInner Addr × ClientRecord Addr) :=
  let n := inner.byAddr.keys.length
  if n = 0 then .error "runtime error: index out of range [-1]"
  else match inner.byAge[n - 1]? with
    | none => .error "runtime error: index out of range"
    | some record =>
      if record.sendQueue ∈ inner.closed then .error "close of closed channel"
      else .ok ({ inner with byAge := inner.byAge.take (n - 1),
                             byAddr := inner.byAddr.erase record.addr,
                             closed := inner.closed ++ [record.sendQueue] }, record)

/-- `clientMapInner` as a `heap.Interface`. -/
def clientMapHeap : Interface (ClientMapInner Addr) (ClientRecord Addr) where
  len := ClientMapInner.len
  less := ClientMapInner.less
  swap := ClientMapInner.swap
  push := ClientMapInner.push
  pop := ClientMapInner.pop

/-! ## The methods on the fields -/

section Fields

variable (inner : ClientMapInner Addr)

@[simp] theorem byAge_setAddrAt (i : Nat) : (inner.setAddrAt i).byAge = inner.byAge := by
  unfold ClientMapInner.setAddrAt
  split <;> rfl

@[simp] theorem made_setAddrAt (i : Nat) : (inner.setAddrAt i).made = inner.made := by
  unfold ClientMapInner.setAddrAt
  split <;> rfl

@[simp] theorem closed_setAddrAt (i : Nat) : (inner.setAddrAt i).closed = inner.closed := by
  unfold ClientMapInner.setAddrAt
  split <;> rfl

theorem lookup_setAddrAt (i : Nat) (a : Addr) :
    (inner.setAddrAt i).byAddr.lookup a =
      if inner.byAge[i]?.map ClientRecord.addr = some a then some i
      else inner.byAddr.lookup a := by
  unfold ClientMapInner.setAddrAt
  split
  · rename_i r hr
    simp only [hr, Option.map_some, Option.some.injEq]
    by_cases ha : r.addr = a
    · rw [if_pos ha, ← ha, AList.lookup_insert]
    · rw [if_neg ha, AList.lookup_insert_ne (Ne.symm ha)]
  · rename_i hr
    simp only [hr, Option.map_none, reduceCtorEq, if_false]

@[simp] theorem byAge_swap (i j : Nat) : (inner.swap i j).byAge = swapAt inner.byAge i j := by
  simp [ClientMapInner.swap]

@[simp] theorem made_swap (i j : Nat) : (inner.swap i j).made = inner.made := by
  simp [ClientMapInner.swap]

@[simp] theorem closed_swap (i j : Nat) : (inner.swap i j).closed = inner.closed := by
  simp [ClientMapInner.swap]

/-- `Swap` writes the positions of the two addresses it swaps, and no other. -/
theorem lookup_swap (i j : Nat) (a : Addr) :
    (inner.swap i j).byAddr.lookup a =
      if (swapAt inner.byAge i j)[j]?.map ClientRecord.addr = some a then some j
      else if (swapAt inner.byAge i j)[i]?.map ClientRecord.addr = some a then some i
      else inner.byAddr.lookup a := by
  simp only [ClientMapInner.swap, lookup_setAddrAt, byAge_setAddrAt]

end Fields

/-- `Pop` takes a cell off `byAge` when it returns. -/
theorem ClientMapInner.length_pop_lt {inner inner' : ClientMapInner Addr} {record : ClientRecord Addr}
    (h : inner.pop = .ok (inner', record)) : inner'.byAge.length < inner.byAge.length := by
  unfold ClientMapInner.pop at h
  dsimp only at h
  split at h
  · cases h
  · split at h
    · cases h
    · rename_i r hr
      split at h
      · cases h
      · cases h
        have hlt := (List.getElem?_eq_some_iff.mp hr).1
        simp only [List.length_take]
        omega

/-- `heap.Pop` takes a cell off `byAge` when it returns: the sifts only swap. -/
theorem length_byAge_heapPop {inner inner' : ClientMapInner Addr} {record : ClientRecord Addr}
    (h : GoHeap.pop clientMapHeap inner = .ok (inner', record)) :
    inner'.byAge.length < inner.byAge.length := by
  obtain ⟨t, ht, hpop⟩ := pop_frame (fun t : ClientMapInner Addr => t.byAge.length = inner.byAge.length)
    (fun s i j hs => by simpa [clientMapHeap] using hs) rfl h
  rw [← ht]
  exact ClientMapInner.length_pop_lt hpop

/-- `(*clientMapInner).removeExpired`, with the records that `heap.Pop` returned, in order:
the loop drops them, and a run names by them the records that expired. -/
def ClientMapInner.removeExpired (inner : ClientMapInner Addr) (now : Time) (timeout : Duration) :
    Except String (ClientMapInner Addr × List (ClientRecord Addr)) :=
  if h0 : 0 < inner.byAge.length then
    if Time.sub now inner.byAge[0].lastSeen ≥ timeout then
      match hpop : GoHeap.pop clientMapHeap inner with
      | .ok (inner', record) =>
        (inner'.removeExpired now timeout).map fun r => (r.1, record :: r.2)
      | .error e => .error e
    else .ok (inner, [])
  else .ok (inner, [])
termination_by inner.byAge.length
decreasing_by exact length_byAge_heapPop hpop

/-- `record.LastSeen = now`, written through the pointer `byAge[i]`. -/
def ClientMapInner.setLastSeen (inner : ClientMapInner Addr) (i : Nat) (record : ClientRecord Addr)
    (now : Time) : ClientMapInner Addr :=
  { inner with byAge := inner.byAge.set i { record with lastSeen := now } }

/-- `(*clientMapInner).SendQueue`: the channel of `addr`'s record, which is now seen at
`now`, or of a new record. -/
def ClientMapInner.sendQueue (inner : ClientMapInner Addr) (addr : Addr) (now : Time) :
    Except String (ClientMapInner Addr × Nat) :=
  match inner.byAddr.lookup addr with
  | some i =>
    match inner.byAge[i]? with
    | some record => do
      let inner ← GoHeap.fix clientMapHeap (inner.setLastSeen i record now) i
      pure (inner, record.sendQueue)
    | none => .error "runtime error: index out of range"
  | none => do
    -- the channel of the new record is the next one `make` returns
    let record : ClientRecord Addr := ⟨addr, now, inner.made⟩
    let inner ← GoHeap.push clientMapHeap { inner with made := inner.made + 1 } record
    pure (inner, record.sendQueue)

/-! ## The representation invariant -/

/-- Two positions of a list whose images under `f` are distinct that hold elements of one
image are one. -/
theorem pos_eq_of_map_nodup {β γ : Type} (f : β → γ) {l : List β} (hl : (l.map f).Nodup)
    {i j : Nat} {r q : β} (hi : l[i]? = some r) (hj : l[j]? = some q) (hrq : f r = f q) :
    i = j := by
  have hi' : (l.map f)[i]? = some (f r) := by simp [hi]
  have hj' : (l.map f)[j]? = some (f r) := by simp [hj, hrq]
  exact (List.getElem?_inj (List.getElem?_eq_some_iff.mp hi').1 hl).mp (hi'.trans hj'.symm)

theorem mem_map_of_getElem? {β γ : Type} {f : β → γ} {l : List β} {i : Nat} {c : γ}
    (h : l[i]?.map f = some c) : c ∈ l.map f :=
  List.mem_of_getElem? (by rw [List.getElem?_map]; exact h)

/-- The representation invariant: `byAge` and `byAddr` are inverse, and the channels of the
records are distinct, made and open. -/
structure ClientMapInner.Good (inner : ClientMapInner Addr) : Prop where
  nodup : (inner.byAge.map ClientRecord.addr).Nodup
  index_eq : ∀ (i : Nat) r, inner.byAge[i]? = some r → inner.byAddr.lookup r.addr = some i
  keys : ∀ a ∈ inner.byAddr, a ∈ inner.byAge.map ClientRecord.addr
  queues_nodup : (inner.byAge.map ClientRecord.sendQueue).Nodup
  queue_open : ∀ r ∈ inner.byAge, r.sendQueue ∉ inner.closed
  queue_made : ∀ r ∈ inner.byAge, r.sendQueue < inner.made
  closed_made : ∀ q ∈ inner.closed, q < inner.made
  closed_nodup : inner.closed.Nodup

section Good

variable {inner : ClientMapInner Addr}

theorem ClientMapInner.Good.mem_byAddr_iff (hg : inner.Good) {a : Addr} :
    a ∈ inner.byAddr ↔ a ∈ inner.byAge.map ClientRecord.addr := by
  refine ⟨hg.keys a, fun ha => ?_⟩
  obtain ⟨r, hr, rfl⟩ := List.mem_map.mp ha
  obtain ⟨i, hi, hri⟩ := List.getElem_of_mem hr
  have hlookup := hg.index_eq i r (by rw [← hri]; exact List.getElem?_eq_getElem hi)
  exact AList.lookup_isSome.mp (by rw [hlookup]; rfl)

/-- `len(byAddr) = len(byAge)`: the keys of `byAddr` are the addresses of `byAge`. -/
theorem ClientMapInner.Good.length_keys (hg : inner.Good) :
    inner.byAddr.keys.length = inner.byAge.length := by
  have hperm : inner.byAddr.keys.Perm (inner.byAge.map ClientRecord.addr) :=
    (List.perm_ext_iff_of_nodup inner.byAddr.keys_nodup hg.nodup).mpr
      fun a => by rw [← AList.mem_keys]; exact hg.mem_byAddr_iff
  rw [hperm.length_eq, List.length_map]

theorem ClientMapInner.Good.len (hg : inner.Good) : inner.len = .ok inner.byAge.length := by
  unfold ClientMapInner.len
  rw [hg.length_keys, if_neg (not_not.mpr rfl)]

theorem ClientMapInner.Good.swap (hg : inner.Good) {i j : Nat} (hi : i < inner.byAge.length)
    (hj : j < inner.byAge.length) : (inner.swap i j).Good := by
  have hperm := swapAt_perm inner.byAge i j
  have hnodup : ((swapAt inner.byAge i j).map ClientRecord.addr).Nodup :=
    (hperm.map _).nodup_iff.mpr hg.nodup
  constructor
  · rw [byAge_swap]
    exact hnodup
  · intro k r hk
    rw [byAge_swap] at hk
    rw [lookup_swap]
    by_cases hkj : k = j
    · subst hkj
      rw [if_pos (by rw [hk]; rfl)]
    · have hj' : (swapAt inner.byAge i j)[j]?.map ClientRecord.addr ≠ some r.addr := by
        intro h
        obtain ⟨q, hq, hqa⟩ := Option.map_eq_some_iff.mp h
        exact hkj (pos_eq_of_map_nodup _ hnodup hk hq hqa.symm)
      rw [if_neg hj']
      by_cases hki : k = i
      · subst hki
        rw [if_pos (by rw [hk]; rfl)]
      · -- a cell the swap did not touch keeps its record, and `byAddr` its position
        have hi' : (swapAt inner.byAge i j)[i]?.map ClientRecord.addr ≠ some r.addr := by
          intro h
          obtain ⟨q, hq, hqa⟩ := Option.map_eq_some_iff.mp h
          exact hki (pos_eq_of_map_nodup _ hnodup hk hq hqa.symm)
        rw [if_neg hi']
        rw [getElem?_swapAt hi hj, Equiv.swap_apply_of_ne_of_ne hki hkj] at hk
        exact hg.index_eq k r hk
  · intro a ha
    have hsome := AList.lookup_isSome.mpr ha
    rw [lookup_swap] at hsome
    rw [byAge_swap]
    split at hsome
    · exact mem_map_of_getElem? ‹_›
    · split at hsome
      · exact mem_map_of_getElem? ‹_›
      · exact (hperm.map _).mem_iff.mpr (hg.keys a (AList.lookup_isSome.mp hsome))
  · rw [byAge_swap]
    exact (hperm.map _).nodup_iff.mpr hg.queues_nodup
  · intro r hr
    rw [byAge_swap] at hr
    rw [closed_swap]
    exact hg.queue_open r (hperm.subset hr)
  · intro r hr
    rw [byAge_swap] at hr
    rw [made_swap]
    exact hg.queue_made r (hperm.subset hr)
  · simpa using hg.closed_made
  · simpa using hg.closed_nodup

theorem exists_getElem?_of_mem_take {β : Type} {l : List β} {m : Nat} {r : β} (h : r ∈ l.take m) :
    ∃ k, k < m ∧ l[k]? = some r := by
  obtain ⟨k, hk⟩ := List.mem_iff_getElem?.mp h
  rw [List.getElem?_take] at hk
  split_ifs at hk with hkm
  exact ⟨k, hkm, hk⟩

/-- What `Pop` does to the channels: it closes the one of the record it returns. -/
theorem ClientMapInner.pop_eq {inner' : ClientMapInner Addr} {record : ClientRecord Addr}
    (h : inner.pop = .ok (inner', record)) :
    inner'.made = inner.made ∧ inner'.closed = inner.closed ++ [record.sendQueue] := by
  unfold ClientMapInner.pop at h
  dsimp only at h
  split at h
  · cases h
  · split at h
    · cases h
    · split at h
      · cases h
      · cases h
        exact ⟨rfl, rfl⟩

/-- `Pop` from a `Good` state: the last record goes, with its address and its channel, and
what is left is `Good`. -/
theorem ClientMapInner.Good.pop (hg : inner.Good) (hne : 0 < inner.byAge.length) :
    ∃ inner' b, inner.byAge[inner.byAge.length - 1]? = some b ∧ inner.pop = .ok (inner', b) ∧
      inner'.byAge = inner.byAge.take (inner.byAge.length - 1) ∧ inner'.Good := by
  obtain ⟨b, hlast⟩ : ∃ b, inner.byAge[inner.byAge.length - 1]? = some b :=
    ⟨_, List.getElem?_eq_getElem (by omega)⟩
  have hopen := hg.queue_open b (List.mem_of_getElem? hlast)
  -- a record left is at a position below the last, so it is not `b`
  have hleft : ∀ r ∈ inner.byAge.take (inner.byAge.length - 1),
      r ∈ inner.byAge ∧ r.addr ≠ b.addr ∧ r.sendQueue ≠ b.sendQueue := by
    intro r hr
    obtain ⟨k, hk, hkr⟩ := exists_getElem?_of_mem_take hr
    refine ⟨List.mem_of_getElem? hkr, fun h => ?_, fun h => ?_⟩
    · have := pos_eq_of_map_nodup _ hg.nodup hkr hlast h
      omega
    · have := pos_eq_of_map_nodup _ hg.queues_nodup hkr hlast h
      omega
  refine ⟨{ inner with byAge := inner.byAge.take (inner.byAge.length - 1),
                       byAddr := inner.byAddr.erase b.addr,
                       closed := inner.closed ++ [b.sendQueue] }, b, hlast, ?_, rfl, ?_⟩
  · unfold ClientMapInner.pop
    dsimp only
    rw [hg.length_keys, if_neg (by omega), hlast]
    dsimp only
    rw [if_neg hopen]
  · constructor
    · exact hg.nodup.sublist ((List.take_sublist _ _).map _)
    · intro k r hk
      have hr := hleft r (List.mem_of_getElem? hk)
      rw [List.getElem?_take] at hk
      split_ifs at hk with hkn
      · dsimp only
        rw [AList.lookup_erase_ne hr.2.1]
        exact hg.index_eq k r hk
    · intro a ha
      obtain ⟨hne, ha⟩ := AList.mem_erase.mp ha
      obtain ⟨r, hr, rfl⟩ := List.mem_map.mp (hg.keys a ha)
      obtain ⟨k, hk⟩ := List.mem_iff_getElem?.mp hr
      have hkn : k < inner.byAge.length - 1 := by
        have hklt := (List.getElem?_eq_some_iff.mp hk).1
        by_contra hge
        exact hne (by rw [show k = inner.byAge.length - 1 by omega, hlast] at hk; cases hk; rfl)
      refine List.mem_map.mpr ⟨r, List.mem_iff_getElem?.mpr ⟨k, ?_⟩, rfl⟩
      rw [List.getElem?_take, if_pos hkn]
      exact hk
    · exact hg.queues_nodup.sublist ((List.take_sublist _ _).map _)
    · intro r hr
      obtain ⟨hmem, -, hq⟩ := hleft r hr
      simp only [List.mem_append, List.mem_singleton, not_or]
      exact ⟨hg.queue_open r hmem, hq⟩
    · intro r hr
      exact hg.queue_made r (hleft r hr).1
    · intro q hq
      rcases List.mem_append.mp hq with hq | hq
      · exact hg.closed_made q hq
      · rw [List.mem_singleton.mp hq]
        exact hg.queue_made b (List.mem_of_getElem? hlast)
    · exact hg.closed_nodup.append (List.nodup_singleton _) (by simpa using hopen)

end Good

/-- **`clientMapInner` is a lawful heap on `LastSeen`**, on its `Good` states. -/
theorem clientMapHeap_refines :
    Refines (clientMapHeap : Interface (ClientMapInner Addr) (ClientRecord Addr))
      ClientMapInner.byAge ClientRecord.lastSeen id ClientMapInner.Good where
  len _ hg := hg.len
  less s i j _ hi hj := by
    have hp := List.getElem?_eq_getElem hi
    have hq := List.getElem?_eq_getElem hj
    simp only [clientMapHeap, ClientMapInner.less, hp, hq, KeyLt, Time.before, Option.some.injEq,
      decide_eq_true_eq]
    constructor
    · intro hlt
      exact ⟨_, _, rfl, rfl, hlt⟩
    · rintro ⟨a, b, rfl, rfl, hab⟩
      exact hab
  swap s i j _ _ _ := byAge_swap s i j
  swap_good _ _ _ hg hi hj := hg.swap hi hj
  pop _ hg hne := hg.pop hne

/-! ## `SendQueue` and `removeExpired` -/

/-- A write at `i` that keeps what `f` reads of the cell keeps the list as `f` sees it. -/
theorem map_set_of_eq {β γ : Type} (f : β → γ) {l : List β} {i : Nat} {r : β}
    (hi : l[i]? = some r) (x : β) (hx : f x = f r) : (l.set i x).map f = l.map f := by
  apply List.ext_getElem?
  intro k
  rw [List.getElem?_map, List.getElem?_map, List.getElem?_set]
  by_cases hik : i = k
  · subst hik
    rw [if_pos rfl, if_pos (List.getElem?_eq_some_iff.mp hi).1, hi]
    simp [hx]
  · rw [if_neg hik]

section Specs

variable {inner : ClientMapInner Addr}

omit [DecidableEq Addr] in
@[simp] theorem byAge_setLastSeen (i : Nat) (r : ClientRecord Addr) (now : Time) :
    (inner.setLastSeen i r now).byAge = inner.byAge.set i { r with lastSeen := now } := rfl

omit [DecidableEq Addr] in
@[simp] theorem made_setLastSeen (i : Nat) (r : ClientRecord Addr) (now : Time) :
    (inner.setLastSeen i r now).made = inner.made := rfl

omit [DecidableEq Addr] in
@[simp] theorem closed_setLastSeen (i : Nat) (r : ClientRecord Addr) (now : Time) :
    (inner.setLastSeen i r now).closed = inner.closed := rfl

/-- A new `LastSeen` for the record at `i` keeps `Good`: it changes neither an address nor a
channel. -/
theorem ClientMapInner.Good.setLastSeen (hg : inner.Good) {i : Nat} {r : ClientRecord Addr}
    (hi : inner.byAge[i]? = some r) (now : Time) : (inner.setLastSeen i r now).Good := by
  have haddr := map_set_of_eq ClientRecord.addr hi { r with lastSeen := now } rfl
  have hqueue := map_set_of_eq ClientRecord.sendQueue hi { r with lastSeen := now } rfl
  have hr := List.mem_of_getElem? hi
  constructor
  · rw [byAge_setLastSeen, haddr]
    exact hg.nodup
  · intro k q hk
    rw [byAge_setLastSeen, List.getElem?_set] at hk
    by_cases hik : i = k
    · subst hik
      rw [if_pos rfl, if_pos (List.getElem?_eq_some_iff.mp hi).1, Option.some.injEq] at hk
      rw [← hk]
      exact hg.index_eq i r hi
    · rw [if_neg hik] at hk
      exact hg.index_eq k q hk
  · intro a ha
    rw [byAge_setLastSeen, haddr]
    exact hg.keys a ha
  · rw [byAge_setLastSeen, hqueue]
    exact hg.queues_nodup
  · intro q hq
    rw [byAge_setLastSeen] at hq
    rcases List.mem_or_eq_of_mem_set hq with hq | rfl
    · exact hg.queue_open q hq
    · exact hg.queue_open r hr
  · intro q hq
    rw [byAge_setLastSeen] at hq
    rcases List.mem_or_eq_of_mem_set hq with hq | rfl
    · exact hg.queue_made q hq
    · exact hg.queue_made r hr
  · exact hg.closed_made
  · exact hg.closed_nodup

/-- `Push` of a record with a new address and the channel just made keeps `Good`. -/
theorem ClientMapInner.Good.push (hg : inner.Good) {addr : Addr}
    (haddr : addr ∉ inner.byAge.map ClientRecord.addr) (now : Time) :
    ∃ inner₁, ClientMapInner.push { inner with made := inner.made + 1 } ⟨addr, now, inner.made⟩ =
        .ok inner₁ ∧ inner₁.Good ∧ inner₁.byAge = inner.byAge ++ [⟨addr, now, inner.made⟩] ∧
      inner₁.made = inner.made + 1 ∧ inner₁.closed = inner.closed := by
  have hnone : inner.byAddr.lookup addr = none :=
    AList.lookup_eq_none.mpr fun h => haddr (hg.keys addr h)
  have hnew : inner.made ∉ inner.byAge.map ClientRecord.sendQueue := by
    intro h
    obtain ⟨r, hr, hrq⟩ := List.mem_map.mp h
    exact absurd (hg.queue_made r hr) (by omega)
  refine ⟨{ inner with made := inner.made + 1,
                       byAddr := inner.byAddr.insert addr inner.byAge.length,
                       byAge := inner.byAge ++ [⟨addr, now, inner.made⟩] }, ?_, ?_, rfl, rfl, rfl⟩
  · unfold ClientMapInner.push
    rw [if_neg (by simp [hnone])]
  · constructor
    · rw [List.map_append]
      exact hg.nodup.append (List.nodup_singleton _) (by simpa using haddr)
    · intro k q hk
      dsimp only at hk ⊢
      by_cases hkn : k < inner.byAge.length
      · -- an old record keeps its position: its address is not the new one
        rw [List.getElem?_append_left hkn] at hk
        have hne : q.addr ≠ addr := fun h =>
          haddr (h ▸ List.mem_map_of_mem (List.mem_of_getElem? hk))
        rw [AList.lookup_insert_ne hne]
        exact hg.index_eq k q hk
      · rw [List.getElem?_append_right (by omega)] at hk
        have hk0 : k - inner.byAge.length = 0 := by
          by_contra hne
          rw [List.getElem?_singleton, if_neg hne] at hk
          cases hk
        rw [hk0, List.getElem?_singleton, if_pos rfl, Option.some.injEq] at hk
        rw [← hk, AList.lookup_insert]
        congr 1
        omega
    · intro a ha
      rcases (AList.mem_insert _).mp ha with rfl | ha
      · simp
      · rw [List.map_append]
        exact List.mem_append_left _ (hg.keys a ha)
    · rw [List.map_append]
      exact hg.queues_nodup.append (List.nodup_singleton _) (by simpa using hnew)
    · intro q hq
      rcases List.mem_append.mp hq with hq | hq
      · exact hg.queue_open q hq
      · rw [List.mem_singleton.mp hq]
        show inner.made ∉ inner.closed
        exact fun h => absurd (hg.closed_made _ h) (by omega)
    · intro q hq
      rcases List.mem_append.mp hq with hq | hq
      · exact Nat.lt_succ_of_lt (hg.queue_made q hq)
      · rw [List.mem_singleton.mp hq]
        exact Nat.lt_succ_self _
    · intro q hq
      exact Nat.lt_succ_of_lt (hg.closed_made q hq)
    · exact hg.closed_nodup

/-- A property of the fields that neither `Swap` nor `byAge` touches. -/
theorem clientMapHeap_swap_frame (made : Nat) (closed : List Nat) (s : ClientMapInner Addr)
    (i j : Nat) (hs : s.made = made ∧ s.closed = closed) :
    (clientMapHeap.swap s i j).made = made ∧ (clientMapHeap.swap s i j).closed = closed := by
  simpa [clientMapHeap] using hs

/-- **`SendQueue` of an address that has a record**: the record's channel, with the record
now seen at `now`. -/
theorem ClientMapInner.sendQueue_found (hg : inner.Good)
    (hheap : IsHeap ClientRecord.lastSeen inner.byAge inner.byAge.length) {i : Nat}
    {r : ClientRecord Addr} (hi : inner.byAge[i]? = some r) (now : Time) :
    ∃ inner', inner.sendQueue r.addr now = .ok (inner', r.sendQueue) ∧ inner'.Good ∧
      IsHeap ClientRecord.lastSeen inner'.byAge inner'.byAge.length ∧
      inner'.byAge.Perm (inner.byAge.set i { r with lastSeen := now }) ∧
      inner'.made = inner.made ∧ inner'.closed = inner.closed := by
  have hlt : i < inner.byAge.length := (List.getElem?_eq_some_iff.mp hi).1
  -- only the cell at `i` changed, so `heap.Fix` at `i` restores the order
  have hsame : ∀ k, k ≠ i → (inner.setLastSeen i r now).byAge[k]? = inner.byAge[k]? :=
    fun k hk => by rw [byAge_setLastSeen, List.getElem?_set_ne (Ne.symm hk)]
  have hinv : FixInv ClientRecord.lastSeen (inner.setLastSeen i r now).byAge
      (inner.setLastSeen i r now).byAge.length i := by
    rw [byAge_setLastSeen, List.length_set]
    exact hheap.fixInv_of_update hlt hsame
  obtain ⟨inner', hfix, hg', hperm, hheap'⟩ := fix_spec clientMapHeap_refines
    (hg.setLastSeen hi now) (by rw [byAge_setLastSeen, List.length_set]; exact hlt) hinv
  have hframe := fix_frame _ (clientMapHeap_swap_frame inner.made inner.closed)
    (s := inner.setLastSeen i r now) ⟨rfl, rfl⟩ hfix
  refine ⟨inner', ?_, hg', hheap', hperm, hframe⟩
  unfold ClientMapInner.sendQueue
  rw [hg.index_eq i r hi]
  dsimp only
  rw [hi]
  dsimp only
  rw [hfix]
  rfl

/-- **`SendQueue` of an address with no record**: a new record with the channel just made. -/
theorem ClientMapInner.sendQueue_new (hg : inner.Good)
    (hheap : IsHeap ClientRecord.lastSeen inner.byAge inner.byAge.length) {addr : Addr}
    (haddr : addr ∉ inner.byAge.map ClientRecord.addr) (now : Time) :
    ∃ inner', inner.sendQueue addr now = .ok (inner', inner.made) ∧ inner'.Good ∧
      IsHeap ClientRecord.lastSeen inner'.byAge inner'.byAge.length ∧
      inner'.byAge.Perm (inner.byAge ++ [⟨addr, now, inner.made⟩]) ∧
      inner'.made = inner.made + 1 ∧ inner'.closed = inner.closed := by
  have hnone : inner.byAddr.lookup addr = none :=
    AList.lookup_eq_none.mpr fun h => haddr (hg.keys addr h)
  obtain ⟨inner₁, hpush, hg₁, hview, hmade, hclosed⟩ := hg.push haddr now
  obtain ⟨inner', hpush', hg', hperm, hheap'⟩ :=
    push_spec clientMapHeap_refines (s := { inner with made := inner.made + 1 }) hheap hpush hg₁ hview
  have hframe := push_frame _ (clientMapHeap_swap_frame (inner.made + 1) inner.closed) hpush
    ⟨hmade, hclosed⟩ hpush'
  refine ⟨inner', ?_, hg', hheap', hperm, hframe⟩
  unfold ClientMapInner.sendQueue
  rw [hnone]
  dsimp only
  rw [hpush']
  rfl

/-- `SendQueue` on the empty map: one record, with the first channel made. -/
theorem newClientMapInner_sendQueue (addr : Addr) (now : Time) :
    (newClientMapInner : ClientMapInner Addr).sendQueue addr now =
      .ok (⟨[⟨addr, now, 0⟩], (∅ : AList fun _ : Addr => Nat).insert addr 0, 1, []⟩, 0) := by
  have hpush : clientMapHeap.push { (newClientMapInner : ClientMapInner Addr) with made := 1 }
      ⟨addr, now, 0⟩ = .ok ⟨[⟨addr, now, 0⟩], (∅ : AList fun _ : Addr => Nat).insert addr 0, 1, []⟩ := by
    show ClientMapInner.push { (newClientMapInner : ClientMapInner Addr) with made := 1 }
      ⟨addr, now, 0⟩ = _
    unfold ClientMapInner.push
    rw [if_neg (by simp [newClientMapInner])]
    rfl
  unfold ClientMapInner.sendQueue
  rw [show (newClientMapInner : ClientMapInner Addr).byAddr.lookup addr = none from
    AList.lookup_empty addr]
  show (GoHeap.push clientMapHeap { (newClientMapInner : ClientMapInner Addr) with made := 1 }
    ⟨addr, now, 0⟩ >>= fun inner => pure (inner, 0)) = _
  unfold GoHeap.push
  rw [hpush]
  -- `up` at the root has no parent to compare with
  show (pure (up clientMapHeap _ 0) >>= fun inner => pure (inner, 0) : Except String _) = _
  rw [up, if_pos rfl]
  rfl

omit [DecidableEq Addr] in
/-- The root of the heap was seen no later than any record. -/
theorem lastSeen_root_le (hheap : IsHeap ClientRecord.lastSeen inner.byAge inner.byAge.length)
    {root r : ClientRecord Addr} (hroot : inner.byAge[0]? = some root) (hr : r ∈ inner.byAge) :
    root.lastSeen ≤ r.lastSeen := by
  obtain ⟨c, hc⟩ := List.mem_iff_getElem?.mp hr
  exact hheap.root_le le_rfl c (List.getElem?_eq_some_iff.mp hc).1 root r hroot hc

/-- **`removeExpired`** pops the records whose `now.Sub(LastSeen)` reaches `timeout`, closes
each of their channels once, and leaves only records that have not expired. -/
theorem ClientMapInner.removeExpired_spec (hg : inner.Good)
    (hheap : IsHeap ClientRecord.lastSeen inner.byAge inner.byAge.length) (now : Time)
    (timeout : Duration) :
    ∃ inner' popped, inner.removeExpired now timeout = .ok (inner', popped) ∧ inner'.Good ∧
      IsHeap ClientRecord.lastSeen inner'.byAge inner'.byAge.length ∧
      (inner'.byAge ++ popped).Perm inner.byAge ∧ inner'.made = inner.made ∧
      inner'.closed = inner.closed ++ popped.map ClientRecord.sendQueue ∧
      (∀ r ∈ popped, timeout ≤ Time.sub now r.lastSeen) ∧
      (∀ r ∈ inner'.byAge, Time.sub now r.lastSeen < timeout) := by
  induction inner using @ClientMapInner.removeExpired.induct Addr _ now timeout with
  | case1 inner h0 hexp inner₁ record hpop ih =>
    -- the root expired: `heap.Pop` takes it, and the loop goes on from what is left
    obtain ⟨s', b, hpop', hroot, hg₁, hperm₁, hheap₁⟩ := pop_spec clientMapHeap_refines hg hheap h0
    have hsame := hpop'.symm.trans hpop
    rw [Except.ok.injEq, Prod.mk.injEq] at hsame
    obtain ⟨rfl, rfl⟩ := hsame
    obtain ⟨t, ⟨htmade, htclosed⟩, htpop⟩ :=
      pop_frame _ (clientMapHeap_swap_frame inner.made inner.closed) ⟨rfl, rfl⟩ hpop
    obtain ⟨hmade₁, hclosed₁⟩ := ClientMapInner.pop_eq htpop
    obtain ⟨inner', popped, hrem, hg', hheap', hperm', hmade', hclosed', hpopped, hleft⟩ :=
      ih hg₁ hheap₁
    refine ⟨inner', b :: popped, ?_, hg', hheap', ?_, ?_, ?_, ?_, hleft⟩
    · rw [ClientMapInner.removeExpired, dif_pos h0, if_pos hexp]
      split
      · rename_i inner₂ record₂ hpop₂
        have hsame := hpop₂.symm.trans hpop
        rw [Except.ok.injEq, Prod.mk.injEq] at hsame
        obtain ⟨rfl, rfl⟩ := hsame
        rw [hrem]
        rfl
      · rename_i e hpop₂
        cases hpop₂.symm.trans hpop
    · have hlast : (inner'.byAge ++ b :: popped).Perm (inner'.byAge ++ popped ++ [b]) :=
        List.perm_middle.trans (List.perm_append_singleton b _).symm
      exact hlast.trans ((hperm'.append_right [b]).trans hperm₁)
    · rw [hmade', hmade₁, htmade]
    · rw [hclosed', hclosed₁, htclosed, List.map_cons, List.append_assoc, List.singleton_append,
        id]
    · intro r hr
      rcases List.mem_cons.mp hr with rfl | hr
      · have hb : inner.byAge[0] = r := by
          rw [List.getElem?_eq_getElem h0, Option.some.injEq] at hroot
          exact hroot
        rw [← hb]
        exact hexp
      · exact hpopped r hr
  | case2 inner h0 hexp e hpop =>
    -- `heap.Pop` of a `Good` heap returns
    obtain ⟨s', b, hpop', -⟩ := pop_spec clientMapHeap_refines hg hheap h0
    cases hpop'.symm.trans hpop
  | case3 inner h0 hstop =>
    -- the root has not expired, and it was seen first
    refine ⟨inner, [], ?_, hg, hheap, by simp, rfl, by simp, by simp, fun r hr => ?_⟩
    · rw [ClientMapInner.removeExpired, dif_pos h0, if_neg hstop]
    · have hle := lastSeen_root_le hheap (List.getElem?_eq_getElem h0) hr
      exact lt_of_le_of_lt (Time.sub_le_sub_left now hle) (lt_of_not_ge hstop)
  | case4 inner h0 =>
    refine ⟨inner, [], ?_, hg, hheap, by simp, rfl, by simp, by simp, fun r hr => ?_⟩
    · rw [ClientMapInner.removeExpired, dif_neg h0]
    · exact absurd (List.length_pos_of_mem hr) h0

end Specs

end Snowflake.Turbotunnel
