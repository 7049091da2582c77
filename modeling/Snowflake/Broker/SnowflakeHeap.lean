import Mathlib
import Snowflake.Lib.Heap
import Snowflake.Lib.Transition
/-
`broker/snowflake-heap.go`: `SnowflakePool`, the broker's pool of waiting proxies, a
`container/heap` of `*Snowflake` ordered by `clients`.

## The representation

A `*Snowflake` is a pointer into memory that the broker's handlers share, and the heap writes
the `index` field of the Snowflakes it holds. So a pool is the slice `*sp.h` together with the
two fields of every Snowflake that the heap reads and writes, as maps from pointers:
`clients`, which no method writes, and `index`. `Less`, `Swap`, `Push` and `Pop` are the
methods of `SnowflakeHeap` (`snowflakeHeap`). The pool's `Push`, `Pop` and `Remove` call
`heap.Push`, `heap.Pop` and `heap.Remove` on it, as the source does. The lock is left out:
every method runs under it, so a call is one step.

## What is proved

`snowflakeHeap_refines` reads the slice as its pointers with their `clients`, for
`GoHeap.Refines`. Its invariant `GoodWith taken` says three things: no pointer is in the
slice twice, every Snowflake in it has its position as its `index`, and every Snowflake in
`taken` is out of the slice with index `-1`. `Swap` keeps it because it writes the index of
just the two Snowflakes it swaps. The heap order on `clients`, and which Snowflake each method
takes out, then come from `GoHeap`.

A run is any sequence of three calls (`PoolStep`): `Push` of a Snowflake not pushed before,
`Pop`, and `Remove` of a Snowflake that was pushed. The Snowflakes pushed, popped and removed
are recorded beside the pool. `snowflakePool_invariant` says what holds in every reachable
state. Two of its parts are what `Broker.Matching` takes a pool to do, up to the order of the
slice: `Pop` takes a Snowflake of least `clients` (`State.PopOf`), and `Remove` takes out
exactly the Snowflake it is given (`List.erase`).

`Remove` trusts `index`, so the restriction to Snowflakes that were pushed matters:
`NewSnowflake` leaves `index` at `0`, and `Remove` of a Snowflake never pushed takes out the
root (`remove_unpushed_takes_root`).
-/

set_option autoImplicit false

namespace Snowflake.Broker

open GoHeap Transition

/-! ## The heap -/

/-- A `*Snowflake`. -/
abbrev Ptr := Nat

/-- A `SnowflakePool`: the slice `*sp.h`, and the `clients` and `index` fields of every
Snowflake. -/
structure SnowflakePool where
  heap : List Ptr
  clients : Ptr → Nat
  index : Ptr → Int

/-- `snowflake.index = i`. -/
def SnowflakePool.setIndex (s : SnowflakePool) (p : Ptr) (i : Int) : SnowflakePool :=
  { s with index := Function.update s.index p i }

/-- `(SnowflakeHeap).Less`: Snowflakes serving fewer clients sort earlier. -/
def SnowflakeHeap.less (s : SnowflakePool) (i j : Nat) : Bool :=
  match s.heap[i]?, s.heap[j]? with
  | some p, some q => decide (s.clients p < s.clients q)
  | _, _ => false

/-- `sh[i].index = i`. -/
def SnowflakePool.setIndexAt (s : SnowflakePool) (i : Nat) : SnowflakePool :=
  match s.heap[i]? with
  | some p => s.setIndex p i
  | none => s

/-- `(SnowflakeHeap).Swap`: the two cells, then the index of each. -/
def SnowflakeHeap.swap (s : SnowflakePool) (i j : Nat) : SnowflakePool :=
  ({ s with heap := swapAt s.heap i j }.setIndexAt i).setIndexAt j

/-- `(*SnowflakeHeap).Push`. -/
def SnowflakeHeap.push (s : SnowflakePool) (p : Ptr) : SnowflakePool :=
  { s.setIndex p s.heap.length with heap := s.heap ++ [p] }

/-- `(*SnowflakeHeap).Pop`: the last Snowflake, given index `-1`. On an empty slice
`flakes[n-1]` panics. -/
def SnowflakeHeap.pop (s : SnowflakePool) : Except String (SnowflakePool × Ptr) :=
  match s.heap[s.heap.length - 1]? with
  | some p => .ok ({ s.setIndex p (-1) with heap := s.heap.take (s.heap.length - 1) }, p)
  | none => .error "runtime error: index out of range [-1]"

/-- `SnowflakeHeap` as a `heap.Interface`. -/
def snowflakeHeap : Interface SnowflakePool Ptr where
  len s := .ok s.heap.length
  less := SnowflakeHeap.less
  swap := SnowflakeHeap.swap
  push s p := .ok (SnowflakeHeap.push s p)
  pop := SnowflakeHeap.pop

/-- `NewSnowflakePool`: `heap.Init` on an empty slice, over the Snowflakes' memory. -/
def newSnowflakePool (clients : Ptr → Nat) (index : Ptr → Int) : Except String SnowflakePool :=
  GoHeap.init snowflakeHeap ⟨[], clients, index⟩

/-- `(*SnowflakePool).Push`. -/
def SnowflakePool.push (sp : SnowflakePool) (s : Ptr) : Except String SnowflakePool :=
  GoHeap.push snowflakeHeap sp s

/-- `(*SnowflakePool).Pop`: `none` for `nil` on an empty pool. -/
def SnowflakePool.pop (sp : SnowflakePool) : Except String (SnowflakePool × Option Ptr) :=
  if sp.heap.length > 0 then (GoHeap.pop snowflakeHeap sp).map fun r => (r.1, some r.2)
  else .ok (sp, none)

/-- `(*SnowflakePool).Remove`: only a Snowflake whose index is not `-1`. `heap.Remove` at a
negative index would panic in `Swap`. -/
def SnowflakePool.remove (sp : SnowflakePool) (s : Ptr) : Except String SnowflakePool :=
  if sp.index s ≠ -1 then
    if 0 ≤ sp.index s then (GoHeap.remove snowflakeHeap sp (sp.index s).toNat).map Prod.fst
    else .error "runtime error: index out of range"
  else .ok sp

/-! ## The methods on the fields -/

section Fields

variable (s : SnowflakePool)

@[simp] theorem heap_setIndex (p : Ptr) (i : Int) : (s.setIndex p i).heap = s.heap := rfl

@[simp] theorem clients_setIndex (p : Ptr) (i : Int) : (s.setIndex p i).clients = s.clients := rfl

theorem index_setIndex (p : Ptr) (i : Int) (q : Ptr) :
    (s.setIndex p i).index q = if q = p then i else s.index q := by
  simp [SnowflakePool.setIndex, Function.update_apply]

@[simp] theorem heap_setIndexAt (i : Nat) : (s.setIndexAt i).heap = s.heap := by
  unfold SnowflakePool.setIndexAt
  split <;> rfl

@[simp] theorem clients_setIndexAt (i : Nat) : (s.setIndexAt i).clients = s.clients := by
  unfold SnowflakePool.setIndexAt
  split <;> rfl

theorem index_setIndexAt (i : Nat) (q : Ptr) :
    (s.setIndexAt i).index q = if s.heap[i]? = some q then (i : Int) else s.index q := by
  unfold SnowflakePool.setIndexAt
  split
  · rename_i p hp
    rw [index_setIndex, hp]
    by_cases hq : q = p
    · rw [if_pos hq, if_pos (by rw [hq])]
    · rw [if_neg hq, if_neg (fun h => hq (Option.some.inj h).symm)]
  · rename_i hp
    rw [if_neg (by rw [hp]; simp)]

@[simp] theorem heap_swap (i j : Nat) : (SnowflakeHeap.swap s i j).heap = swapAt s.heap i j := by
  simp [SnowflakeHeap.swap]

@[simp] theorem clients_swap (i j : Nat) : (SnowflakeHeap.swap s i j).clients = s.clients := by
  simp [SnowflakeHeap.swap]

/-- `Swap` writes the index of the two Snowflakes it swaps, and no other. -/
theorem index_swap (i j : Nat) (q : Ptr) :
    (SnowflakeHeap.swap s i j).index q =
      if (swapAt s.heap i j)[j]? = some q then (j : Int)
      else if (swapAt s.heap i j)[i]? = some q then (i : Int) else s.index q := by
  simp only [SnowflakeHeap.swap, index_setIndexAt, heap_setIndexAt]

end Fields

/-- Two positions of a duplicate-free list that hold the same element are one. -/
theorem pos_eq_of_nodup {l : List Ptr} (hl : l.Nodup) {i j : Nat} {p : Ptr} (hi : l[i]? = some p)
    (hj : l[j]? = some p) : i = j :=
  (List.getElem?_inj (List.getElem?_eq_some_iff.mp hi).1 hl).mp (hi.trans hj.symm)

/-! ## The refinement -/

/-- The slice as its pointers with their `clients`. -/
def SnowflakePool.view (s : SnowflakePool) : List (Ptr × Nat) :=
  s.heap.map fun p => (p, s.clients p)

@[simp] theorem length_view (s : SnowflakePool) : s.view.length = s.heap.length := by
  simp [SnowflakePool.view]

theorem getElem?_view (s : SnowflakePool) (i : Nat) :
    s.view[i]? = s.heap[i]?.map fun p => (p, s.clients p) := by
  simp [SnowflakePool.view]

/-- A cell of the view is the Snowflake in that cell of the slice, with its `clients`. -/
theorem getElem?_view_eq_some {s : SnowflakePool} {i : Nat} {b : Ptr × Nat} :
    s.view[i]? = some b ↔ s.heap[i]? = some b.1 ∧ s.clients b.1 = b.2 := by
  rw [getElem?_view, Option.map_eq_some_iff]
  constructor
  · rintro ⟨p, hp, rfl⟩
    exact ⟨hp, rfl⟩
  · rintro ⟨hp, hc⟩
    exact ⟨b.1, hp, by rw [hc]⟩

/-- The bookkeeping of `index`, with the Snowflakes of `taken` out of the slice. -/
structure GoodWith (taken : List Ptr) (s : SnowflakePool) : Prop where
  nodup : s.heap.Nodup
  index_eq : ∀ (i : Nat) p, s.heap[i]? = some p → s.index p = i
  taken_out : ∀ q ∈ taken, q ∉ s.heap ∧ s.index q = -1

section Refines

variable {taken : List Ptr}

theorem GoodWith.swap {s : SnowflakePool} (hg : GoodWith taken s) {i j : Nat}
    (hi : i < s.heap.length) (hj : j < s.heap.length) :
    GoodWith taken (SnowflakeHeap.swap s i j) := by
  have hnodup : (swapAt s.heap i j).Nodup := (swapAt_perm s.heap i j).nodup_iff.mpr hg.nodup
  constructor
  · rw [heap_swap]
    exact hnodup
  · intro k p hk
    rw [heap_swap] at hk
    rw [index_swap s i j]
    by_cases hkj : k = j
    · subst hkj
      rw [if_pos hk]
    · have hj' : (swapAt s.heap i j)[j]? ≠ some p := fun h => hkj (pos_eq_of_nodup hnodup hk h)
      rw [if_neg hj']
      by_cases hki : k = i
      · subst hki
        rw [if_pos hk]
      · -- a cell the swap did not touch keeps its Snowflake and that Snowflake's index
        have hi' : (swapAt s.heap i j)[i]? ≠ some p := fun h => hki (pos_eq_of_nodup hnodup hk h)
        rw [if_neg hi']
        rw [getElem?_swapAt hi hj, Equiv.swap_apply_of_ne_of_ne hki hkj] at hk
        exact hg.index_eq k p hk
  · intro q hq
    have hout := hg.taken_out q hq
    have hnot : q ∉ swapAt s.heap i j := fun h => hout.1 ((swapAt_perm s.heap i j).subset h)
    refine ⟨by rw [heap_swap]; exact hnot, ?_⟩
    rw [index_swap s i j, if_neg (fun h => hnot (List.mem_of_getElem? h)),
      if_neg (fun h => hnot (List.mem_of_getElem? h))]
    exact hout.2

/-- `SnowflakeHeap.Pop` gives the last Snowflake index `-1`, and writes no other index. -/
theorem SnowflakeHeap.pop_eq {s t : SnowflakePool} {p : Ptr} (h : SnowflakeHeap.pop s = .ok (t, p)) :
    s.heap[s.heap.length - 1]? = some p ∧ t.heap = s.heap.take (s.heap.length - 1) ∧
      t.clients = s.clients ∧ t.index = Function.update s.index p (-1) := by
  unfold SnowflakeHeap.pop at h
  split at h
  · rename_i p' hp'
    simp only [Except.ok.injEq, Prod.mk.injEq] at h
    obtain ⟨rfl, rfl⟩ := h
    exact ⟨hp', rfl, rfl, rfl⟩
  · cases h

/-- **`SnowflakeHeap` is a lawful heap on `clients`**, for each list of Snowflakes taken
out. -/
theorem snowflakeHeap_refines (taken : List Ptr) :
    Refines snowflakeHeap SnowflakePool.view Prod.snd Prod.fst (GoodWith taken) where
  len s _ := by simp [snowflakeHeap]
  less s i j _ hi hj := by
    rw [length_view] at hi hj
    have hp := List.getElem?_eq_getElem hi
    have hq := List.getElem?_eq_getElem hj
    simp only [snowflakeHeap, SnowflakeHeap.less, hp, hq, KeyLt, getElem?_view, Option.map_some,
      Option.some.injEq, decide_eq_true_eq]
    constructor
    · intro hlt
      exact ⟨_, _, rfl, rfl, hlt⟩
    · rintro ⟨a, b, rfl, rfl, hab⟩
      exact hab
  swap s i j _ hi hj := by
    simp only [snowflakeHeap, SnowflakePool.view, heap_swap, clients_swap]
    rw [swapAt_map]
  swap_good s i j hg hi hj := by
    rw [length_view] at hi hj
    exact hg.swap hi hj
  pop s hg hne := by
    rw [length_view] at hne
    have hp := List.getElem?_eq_getElem (show s.heap.length - 1 < s.heap.length by omega)
    refine ⟨{ s.setIndex s.heap[s.heap.length - 1] (-1) with heap := s.heap.take (s.heap.length - 1) },
      (s.heap[s.heap.length - 1], s.clients s.heap[s.heap.length - 1]), ?_, ?_, ?_, ?_⟩
    · rw [length_view, getElem?_view, hp]
      rfl
    · simp only [snowflakeHeap, SnowflakeHeap.pop, hp]
    · simp [SnowflakePool.view, List.map_take]
    · -- the Snowflakes left keep their index: none of them is the one popped
      have hlast : s.heap[s.heap.length - 1] ∈ s.heap := List.getElem_mem _
      constructor
      · exact hg.nodup.sublist (List.take_sublist _ _)
      · intro k q hk
        rw [List.getElem?_take] at hk
        split_ifs at hk with hkn
        · simp only [index_setIndex]
          rw [if_neg]
          · exact hg.index_eq k q hk
          · rintro rfl
            have := pos_eq_of_nodup hg.nodup hk hp
            omega
      · intro q hq
        have hout := hg.taken_out q hq
        refine ⟨fun h => hout.1 (List.mem_of_mem_take h), ?_⟩
        simp only [index_setIndex]
        rw [if_neg (show ¬ q = s.heap[s.heap.length - 1] from fun h => hout.1 (h ▸ hlast))]
        exact hout.2

/-- What `SnowflakeHeap.Push` leaves: the new Snowflake at the end, with its position as its
index. -/
theorem GoodWith.push {s : SnowflakePool} (hg : GoodWith taken s) {p : Ptr} (hp : p ∉ s.heap)
    (hpt : p ∉ taken) : GoodWith taken (SnowflakeHeap.push s p) := by
  constructor
  · exact hg.nodup.append (List.nodup_singleton p) (by simpa using hp)
  · intro k q hk
    simp only [SnowflakeHeap.push, index_setIndex] at hk ⊢
    by_cases hkn : k < s.heap.length
    · rw [List.getElem?_append_left hkn] at hk
      rw [if_neg (fun h : q = p => hp (h ▸ List.mem_of_getElem? hk))]
      exact hg.index_eq k q hk
    · rw [List.getElem?_append_right (by omega)] at hk
      have hk0 : k - s.heap.length = 0 := by
        by_contra hne
        rw [List.getElem?_singleton, if_neg hne] at hk
        cases hk
      rw [hk0, List.getElem?_singleton, if_pos rfl, Option.some.injEq] at hk
      rw [if_pos hk.symm]
      omega
  · intro q hq
    have hout := hg.taken_out q hq
    have hqp : q ≠ p := fun h => hpt (h ▸ hq)
    simp only [SnowflakeHeap.push, index_setIndex, List.mem_append, List.mem_singleton, hqp,
      or_false]
    exact hout

/-- A `Pop` of `snowflakeHeap` ends in `SnowflakeHeap.Pop`, which gives what it returns index
`-1`. -/
theorem index_of_pop {s t : SnowflakePool} {p : Ptr}
    (h : GoHeap.pop snowflakeHeap s = .ok (t, p)) : t.index p = -1 := by
  obtain ⟨u, hu⟩ := exists_pop_eq snowflakeHeap (s := s) rfl
  rw [hu] at h
  rw [(SnowflakeHeap.pop_eq h).2.2.2, Function.update_self]

theorem index_of_remove {s t : SnowflakePool} {i : Nat} {p : Ptr}
    (h : GoHeap.remove snowflakeHeap s i = .ok (t, p)) : t.index p = -1 := by
  obtain ⟨u, hu⟩ := exists_remove_eq snowflakeHeap (s := s) rfl i
  rw [hu] at h
  rw [(SnowflakeHeap.pop_eq h).2.2.2, Function.update_self]

end Refines

theorem map_fst_view (s : SnowflakePool) : s.view.map Prod.fst = s.heap := by
  simp [SnowflakePool.view, Function.comp_def]

/-- The pointers of two views that are permutations are permutations. -/
theorem heap_perm_of_view {s t : SnowflakePool} {b : Ptr × Nat} (h : (t.view ++ [b]).Perm s.view) :
    (t.heap ++ [b.1]).Perm s.heap := by
  have := h.map Prod.fst
  rwa [List.map_append, map_fst_view, map_fst_view, List.map_singleton] at this

/-- The heap order of the view, in the source's words: a parent serves no more clients than
its child. -/
def SnowflakePool.IsMinHeap (s : SnowflakePool) : Prop :=
  ∀ c p q, 0 < c → s.heap[(c - 1) / 2]? = some p → s.heap[c]? = some q →
    s.clients p ≤ s.clients q

theorem isMinHeap_of_isHeap {s : SnowflakePool} (h : IsHeap Prod.snd s.view s.view.length) :
    s.IsMinHeap := by
  intro c p q hc0 hp hq
  have hcn : c < s.heap.length := (List.getElem?_eq_some_iff.mp hq).1
  apply h c hc0 (by rw [length_view]; exact hcn) (p, s.clients p) (q, s.clients q)
  · rw [getElem?_view, hp]
    rfl
  · rw [getElem?_view, hq]
    rfl

/-- A root serves no more clients than any Snowflake in the heap. -/
theorem clients_root_le {s : SnowflakePool} (hheap : IsHeap Prod.snd s.view s.view.length)
    {p q : Ptr} (hp : s.heap[0]? = some p) (hq : q ∈ s.heap) : s.clients p ≤ s.clients q := by
  obtain ⟨c, hc, rfl⟩ := List.getElem_of_mem hq
  apply hheap.root_le le_rfl c (by rw [length_view]; exact hc) (p, s.clients p)
    (s.heap[c], s.clients s.heap[c])
  · exact getElem?_view_eq_some.mpr ⟨hp, rfl⟩
  · exact getElem?_view_eq_some.mpr ⟨List.getElem?_eq_getElem hc, rfl⟩

/-! ## Calls on an empty pool -/

theorem newSnowflakePool_eq (clients : Ptr → Nat) (index : Ptr → Int) :
    newSnowflakePool clients index = .ok ⟨[], clients, index⟩ :=
  init_of_len_zero snowflakeHeap rfl

/-- `Push` on an empty pool: `up` at the root has no parent to compare with. -/
theorem SnowflakePool.push_empty (clients : Ptr → Nat) (index : Ptr → Int) (p : Ptr) :
    (⟨[], clients, index⟩ : SnowflakePool).push p =
      .ok (SnowflakeHeap.push ⟨[], clients, index⟩ p) := by
  show (pure (up snowflakeHeap (SnowflakeHeap.push ⟨[], clients, index⟩ p) 0) :
    Except String SnowflakePool) = _
  rw [up, if_pos rfl]
  rfl

/-! ## Runs of the pool -/

/-- A pool, with the Snowflakes pushed, popped and removed so far. -/
structure PoolRun where
  pool : SnowflakePool
  pushed : List Ptr
  popped : List Ptr
  removed : List Ptr

/-- One call on the pool: `Push` of a Snowflake not pushed before, `Pop`, or `Remove` of a
Snowflake that was pushed, as the broker calls it. A call that panics makes no step. -/
inductive PoolStep : PoolRun → PoolRun → Prop
  | push {w : PoolRun} {s : Ptr} {pool : SnowflakePool} (hs : s ∉ w.pushed)
      (h : w.pool.push s = .ok pool) : PoolStep w ⟨pool, w.pushed ++ [s], w.popped, w.removed⟩
  | pop {w : PoolRun} {pool : SnowflakePool} {r : Option Ptr} (h : w.pool.pop = .ok (pool, r)) :
      PoolStep w ⟨pool, w.pushed, w.popped ++ r.toList, w.removed⟩
  | remove {w : PoolRun} {s : Ptr} {pool : SnowflakePool} (hs : s ∈ w.pushed)
      (h : w.pool.remove s = .ok pool) :
      PoolStep w ⟨pool, w.pushed, w.popped,
        if s ∈ w.pool.heap then w.removed ++ [s] else w.removed⟩

/-- The runs from `NewSnowflakePool`, over any memory of Snowflakes. -/
def poolSystem : System PoolRun where
  init w := (∃ clients index, newSnowflakePool clients index = .ok w.pool) ∧ w.pushed = [] ∧
    w.popped = [] ∧ w.removed = []
  step := PoolStep

/-- What holds in every reachable state: `GoodWith` for the Snowflakes taken out, the heap
order, and where every pushed Snowflake is. -/
structure PoolInv (w : PoolRun) : Prop where
  good : GoodWith (w.popped ++ w.removed) w.pool
  ordered : IsHeap Prod.snd w.pool.view w.pool.view.length
  total : (w.pool.heap : Multiset Ptr) + (w.popped : Multiset Ptr) + (w.removed : Multiset Ptr) =
    (w.pushed : Multiset Ptr)
  nodup : w.pushed.Nodup

section Inv

variable {w : PoolRun}

theorem PoolInv.mem_pushed_iff (hinv : PoolInv w) {p : Ptr} :
    p ∈ w.pushed ↔ p ∈ w.pool.heap ∨ p ∈ w.popped ++ w.removed := by
  rw [← Multiset.mem_coe, ← hinv.total]
  simp

theorem PoolInv.not_mem_heap (hinv : PoolInv w) {p : Ptr} (hp : p ∉ w.pushed) : p ∉ w.pool.heap :=
  fun h => hp (hinv.mem_pushed_iff.mpr (Or.inl h))

/-- A Snowflake that was pushed and is not in the heap was taken out. -/
theorem PoolInv.taken_of_not_mem (hinv : PoolInv w) {p : Ptr} (hp : p ∈ w.pushed)
    (hph : p ∉ w.pool.heap) : p ∈ w.popped ++ w.removed :=
  (hinv.mem_pushed_iff.mp hp).resolve_left hph

/-- Taking one Snowflake `p` out of the heap, as `Pop` and `Remove` do, keeps the invariant
with `p` recorded. -/
theorem PoolInv.takeOut (hinv : PoolInv w) {pool : SnowflakePool} {p : Ptr}
    {popped removed : List Ptr} (hgood : GoodWith (w.popped ++ w.removed) pool)
    (hheap : IsHeap Prod.snd pool.view pool.view.length)
    (hperm : (pool.heap ++ [p]).Perm w.pool.heap) (hidx : pool.index p = -1)
    (htaken : (popped ++ removed).Perm (p :: (w.popped ++ w.removed))) :
    PoolInv ⟨pool, w.pushed, popped, removed⟩ := by
  have hnodup : (pool.heap ++ [p]).Nodup := hperm.nodup_iff.mpr hinv.good.nodup
  have hpout : p ∉ pool.heap := by
    have := List.nodup_append.mp hnodup
    exact fun h => this.2.2 p h p (List.mem_singleton_self p) rfl
  refine ⟨⟨hgood.nodup, hgood.index_eq, fun q hq => ?_⟩, hheap, ?_, hinv.nodup⟩
  · rcases List.mem_cons.mp (htaken.subset hq) with rfl | hq'
    · exact ⟨hpout, hidx⟩
    · exact hgood.taken_out q hq'
  · have hms : (pool.heap : Multiset Ptr) + {p} = w.pool.heap := by
      rw [← Multiset.coe_singleton, Multiset.coe_add]
      exact Multiset.coe_eq_coe.mpr hperm
    have htk : (popped : Multiset Ptr) + (removed : Multiset Ptr) =
        {p} + (w.popped : Multiset Ptr) + (w.removed : Multiset Ptr) := by
      rw [Multiset.coe_add, Multiset.coe_eq_coe.mpr htaken, ← Multiset.cons_coe,
        ← Multiset.singleton_add, ← Multiset.coe_add, add_assoc]
    dsimp only
    calc (pool.heap : Multiset Ptr) + (popped : Multiset Ptr) + (removed : Multiset Ptr)
        = (pool.heap : Multiset Ptr) + ((popped : Multiset Ptr) + (removed : Multiset Ptr)) :=
          add_assoc _ _ _
      _ = (pool.heap : Multiset Ptr) + ({p} + (w.popped : Multiset Ptr) + (w.removed : Multiset Ptr)) := by
          rw [htk]
      _ = (pool.heap : Multiset Ptr) + {p} + (w.popped : Multiset Ptr) + (w.removed : Multiset Ptr) := by
          simp only [add_assoc]
      _ = (w.pushed : Multiset Ptr) := by rw [hms, hinv.total]

theorem PoolInv.init (h : poolSystem.init w) : PoolInv w := by
  obtain ⟨pool, pushed, popped, removed⟩ := w
  obtain ⟨⟨clients, index, hnew⟩, hpushed, hpopped, hremoved⟩ := h
  simp only at hnew hpushed hpopped hremoved
  rw [newSnowflakePool_eq, Except.ok.injEq] at hnew
  subst hnew hpushed hpopped hremoved
  refine ⟨⟨List.nodup_nil, fun i p hp => by simp at hp, fun q hq => by simp at hq⟩,
    fun c hc0 hcn => by simp [SnowflakePool.view] at hcn, by simp, List.nodup_nil⟩

/-! ### What each call returns in a state of the invariant -/

/-- `Push` of a Snowflake not pushed before: the heap with the Snowflake in it. -/
theorem PoolInv.push_result (hinv : PoolInv w) {s : Ptr} (hs : s ∉ w.pushed) :
    ∃ pool, w.pool.push s = .ok pool ∧ GoodWith (w.popped ++ w.removed) pool ∧
      IsHeap Prod.snd pool.view pool.view.length ∧ pool.heap.Perm (w.pool.heap ++ [s]) := by
  have hsout := hinv.not_mem_heap hs
  have hst : s ∉ w.popped ++ w.removed := fun h' => hs (hinv.mem_pushed_iff.mpr (Or.inr h'))
  have hcall : snowflakeHeap.push w.pool s = .ok (SnowflakeHeap.push w.pool s) := rfl
  obtain ⟨pool, hpush, hg, hperm, hheap⟩ := push_spec (snowflakeHeap_refines _) hinv.ordered
    (b := (s, w.pool.clients s)) hcall (hinv.good.push hsout hst)
    (by simp [SnowflakePool.view, SnowflakeHeap.push])
  have hp := hperm.map Prod.fst
  rw [List.map_append, map_fst_view, map_fst_view, List.map_singleton] at hp
  exact ⟨pool, hpush, hg, hheap, hp⟩

/-- `Pop` from a pool that is not empty: its root, given index `-1`. -/
theorem PoolInv.pop_result (hinv : PoolInv w) (hne : w.pool.heap ≠ []) :
    ∃ pool b, w.pool.pop = .ok (pool, some b.1) ∧ w.pool.view[0]? = some b ∧
      GoodWith (w.popped ++ w.removed) pool ∧ IsHeap Prod.snd pool.view pool.view.length ∧
      (pool.heap ++ [b.1]).Perm w.pool.heap ∧ pool.index b.1 = -1 := by
  have hlen : 0 < w.pool.heap.length := List.length_pos_iff.mpr hne
  obtain ⟨pool, b, hpop, hb, hg, hperm, hheap⟩ :=
    pop_spec (snowflakeHeap_refines _) hinv.good hinv.ordered (by rw [length_view]; exact hlen)
  refine ⟨pool, b, ?_, hb, hg, hheap, heap_perm_of_view hperm, index_of_pop hpop⟩
  unfold SnowflakePool.pop
  rw [if_pos hlen, hpop]
  rfl

/-- `Remove` of a Snowflake in the heap: the heap without it, and its index `-1`. -/
theorem PoolInv.remove_result (hinv : PoolInv w) {s : Ptr} (hsh : s ∈ w.pool.heap) :
    ∃ pool, w.pool.remove s = .ok pool ∧ GoodWith (w.popped ++ w.removed) pool ∧
      IsHeap Prod.snd pool.view pool.view.length ∧ (pool.heap ++ [s]).Perm w.pool.heap ∧
      pool.index s = -1 := by
  -- `Remove` goes to the position the Snowflake's index holds
  obtain ⟨i, hi, hsi⟩ := List.getElem_of_mem hsh
  have hidx : w.pool.index s = i :=
    hinv.good.index_eq i s (by rw [← hsi]; exact List.getElem?_eq_getElem hi)
  obtain ⟨pool, b, hremove, hb, hg, hperm, hheap⟩ := remove_spec (snowflakeHeap_refines _)
    hinv.good hinv.ordered (i := i) (by rw [length_view]; exact hi)
  have hbs : b.1 = s := by
    rw [getElem?_view, List.getElem?_eq_getElem hi, hsi] at hb
    simp only [Option.map_some, Option.some.injEq] at hb
    rw [← hb]
  refine ⟨pool, ?_, hg, hheap, hbs ▸ heap_perm_of_view hperm, hbs ▸ index_of_remove hremove⟩
  unfold SnowflakePool.remove
  rw [hidx, if_pos (by omega), if_pos (by omega), Int.toNat_natCast, hremove]
  rfl

/-- `Remove` of a Snowflake taken out before does nothing: its index is `-1`. -/
theorem PoolInv.remove_taken (hinv : PoolInv w) {s : Ptr} (hs : s ∈ w.popped ++ w.removed) :
    w.pool.remove s = .ok w.pool := by
  have hidx := (hinv.good.taken_out s hs).2
  unfold SnowflakePool.remove
  rw [if_neg (by omega)]

/-! ### Each call keeps the invariant -/

theorem PoolInv.push (hinv : PoolInv w) {s : Ptr} {pool : SnowflakePool} (hs : s ∉ w.pushed)
    (h : w.pool.push s = .ok pool) : PoolInv ⟨pool, w.pushed ++ [s], w.popped, w.removed⟩ := by
  obtain ⟨pool', hpush, hg, hheap, hp⟩ := hinv.push_result hs
  rw [hpush, Except.ok.injEq] at h
  subst h
  refine ⟨hg, hheap, ?_, hinv.nodup.append (List.nodup_singleton s) (by simpa using hs)⟩
  have hms : (pool'.heap : Multiset Ptr) = w.pool.heap + {s} := by
    rw [← Multiset.coe_singleton, Multiset.coe_add]
    exact Multiset.coe_eq_coe.mpr hp
  dsimp only
  rw [hms, ← Multiset.coe_add, ← hinv.total, Multiset.coe_singleton]
  abel

theorem PoolInv.pop (hinv : PoolInv w) {pool : SnowflakePool} {r : Option Ptr}
    (h : w.pool.pop = .ok (pool, r)) :
    PoolInv ⟨pool, w.pushed, w.popped ++ r.toList, w.removed⟩ := by
  by_cases hne : w.pool.heap = []
  · -- an empty pool answers `nil` and stays as it is
    unfold SnowflakePool.pop at h
    rw [if_neg (by simp [hne]), Except.ok.injEq, Prod.mk.injEq] at h
    obtain ⟨rfl, rfl⟩ := h
    simpa using hinv
  · obtain ⟨pool', b, hpop, -, hg, hheap, hperm, hidx⟩ := hinv.pop_result hne
    rw [hpop, Except.ok.injEq, Prod.mk.injEq] at h
    obtain ⟨rfl, rfl⟩ := h
    apply hinv.takeOut hg hheap hperm hidx
    rw [Option.toList_some, List.append_assoc, List.singleton_append]
    exact List.perm_middle

theorem PoolInv.remove (hinv : PoolInv w) {s : Ptr} {pool : SnowflakePool} (hs : s ∈ w.pushed)
    (h : w.pool.remove s = .ok pool) :
    PoolInv ⟨pool, w.pushed, w.popped,
      if s ∈ w.pool.heap then w.removed ++ [s] else w.removed⟩ := by
  by_cases hsh : s ∈ w.pool.heap
  · rw [if_pos hsh]
    obtain ⟨pool', hremove, hg, hheap, hperm, hidx⟩ := hinv.remove_result hsh
    rw [hremove, Except.ok.injEq] at h
    subst h
    apply hinv.takeOut hg hheap hperm hidx
    rw [← List.append_assoc]
    exact List.perm_append_singleton _ _
  · rw [if_neg hsh]
    rw [hinv.remove_taken (hinv.taken_of_not_mem hs hsh), Except.ok.injEq] at h
    subst h
    exact hinv

theorem poolInv_inductive : poolSystem.Inductive PoolInv where
  init _ h := PoolInv.init h
  step _ _ hstep hinv := by
    cases hstep with
    | push hs h => exact hinv.push hs h
    | pop h => exact hinv.pop h
    | remove hs h => exact hinv.remove hs h

/-! ### What the invariant gives the callers -/

/-- `Pop` answers `nil` exactly on an empty pool, and otherwise a Snowflake of least
`clients`. -/
theorem PoolInv.pop_min (hinv : PoolInv w) :
    ∃ pool r, w.pool.pop = .ok (pool, r) ∧ (r = none ↔ w.pool.heap = []) ∧
      ∀ p, r = some p → p ∈ w.pool.heap ∧ ∀ q ∈ w.pool.heap, w.pool.clients p ≤ w.pool.clients q := by
  by_cases hne : w.pool.heap = []
  · refine ⟨w.pool, none, ?_, by simp [hne], by simp⟩
    unfold SnowflakePool.pop
    rw [if_neg (by simp [hne])]
  · obtain ⟨pool, b, hpop, hb, -⟩ := hinv.pop_result hne
    have hroot : w.pool.heap[0]? = some b.1 := (getElem?_view_eq_some.mp hb).1
    refine ⟨pool, some b.1, hpop, by simp [hne], fun p hp => ?_⟩
    rw [Option.some.injEq] at hp
    subst hp
    exact ⟨List.mem_of_getElem? hroot, fun q hq => clients_root_le hinv.ordered hroot hq⟩

/-- `Remove` of a Snowflake in the heap takes out that Snowflake and no other. -/
theorem PoolInv.remove_erase (hinv : PoolInv w) {s : Ptr} (hsh : s ∈ w.pool.heap) :
    ∃ pool, w.pool.remove s = .ok pool ∧ pool.heap.Perm (w.pool.heap.erase s) := by
  obtain ⟨pool, hremove, -, -, hperm, -⟩ := hinv.remove_result hsh
  refine ⟨pool, hremove, ?_⟩
  have hcons : (s :: pool.heap).Perm w.pool.heap := (List.perm_append_singleton s _).symm.trans hperm
  simpa using hcons.erase s

/-- The pool is what was pushed less what was popped and removed. -/
theorem PoolInv.pooled (hinv : PoolInv w) :
    (w.pool.heap : Multiset Ptr) = (w.pushed : Multiset Ptr) - w.popped - w.removed := by
  rw [← hinv.total, add_right_comm, add_tsub_cancel_right, add_tsub_cancel_right]

end Inv

/-! ## The pool over every run -/

/-- What holds of every reachable pool, in the source's terms: the `index` bookkeeping, the
heap order, what `Pop` and `Remove` do, and which Snowflakes are in the pool. -/
structure PoolSafe (w : PoolRun) : Prop where
  index_eq : ∀ (i : Nat) p, w.pool.heap[i]? = some p → w.pool.index p = i
  index_taken : ∀ p ∈ w.popped ++ w.removed, w.pool.index p = -1
  minHeap : w.pool.IsMinHeap
  pop_min : ∃ pool r, w.pool.pop = .ok (pool, r) ∧ (r = none ↔ w.pool.heap = []) ∧
    ∀ p, r = some p → p ∈ w.pool.heap ∧ ∀ q ∈ w.pool.heap, w.pool.clients p ≤ w.pool.clients q
  remove_present : ∀ s ∈ w.pool.heap, ∃ pool, w.pool.remove s = .ok pool ∧
    pool.heap.Perm (w.pool.heap.erase s)
  remove_taken : ∀ s ∈ w.popped ++ w.removed, w.pool.remove s = .ok w.pool
  pooled : (w.pool.heap : Multiset Ptr) = (w.pushed : Multiset Ptr) - w.popped - w.removed

theorem PoolInv.poolSafe {w : PoolRun} (hinv : PoolInv w) : PoolSafe w where
  index_eq := hinv.good.index_eq
  index_taken p hp := (hinv.good.taken_out p hp).2
  minHeap := isMinHeap_of_isHeap hinv.ordered
  pop_min := hinv.pop_min
  remove_present _ hs := hinv.remove_erase hs
  remove_taken _ hs := hinv.remove_taken hs
  pooled := hinv.pooled

theorem snowflakePool_invariant {w : PoolRun} (hw : poolSystem.Reachable w) : PoolSafe w :=
  (poolInv_inductive.reachable hw).poolSafe

theorem snowflakePool_invariant_one_push :
    poolSystem.Reachable ⟨SnowflakeHeap.push ⟨[], fun _ => 0, fun _ => 0⟩ 1, [1], [], []⟩ ∧
      PoolSafe ⟨SnowflakeHeap.push ⟨[], fun _ => 0, fun _ => 0⟩ 1, [1], [], []⟩ := by
  have h₀ : poolSystem.Reachable ⟨⟨[], fun _ => 0, fun _ => 0⟩, [], [], []⟩ :=
    System.Reachable.of_init ⟨⟨_, _, newSnowflakePool_eq _ _⟩, rfl, rfl, rfl⟩
  have hw : poolSystem.Reachable ⟨SnowflakeHeap.push ⟨[], fun _ => 0, fun _ => 0⟩ 1, [1], [], []⟩ :=
    h₀.step (PoolStep.push List.not_mem_nil (SnowflakePool.push_empty _ _ 1))
  exact ⟨hw, snowflakePool_invariant hw⟩

/-- `Remove` of a Snowflake that was never pushed. `NewSnowflake` leaves its `index` at `0`,
so `Remove` takes out the Snowflake at the root instead: here Snowflake `1`, while Snowflake
`2` keeps index `0`. -/
theorem remove_unpushed_takes_root :
    ∃ sp₀ sp₁ sp₂ : SnowflakePool, newSnowflakePool (fun _ => 0) (fun _ => 0) = .ok sp₀ ∧
      sp₀.push 1 = .ok sp₁ ∧ sp₁.remove 2 = .ok sp₂ ∧
      sp₁.heap = [1] ∧ sp₂.heap = [] ∧ sp₂.index 2 = 0 := by
  let sp₁ := SnowflakeHeap.push ⟨[], fun _ => 0, fun _ => 0⟩ 1
  -- `heap.Remove` at index 0 of a one-cell slice pops that cell
  have hremove : sp₁.remove 2 = .ok { sp₁.setIndex 1 (-1) with heap := [] } := by
    unfold SnowflakePool.remove
    rw [if_pos (by decide), if_pos (by decide)]
    rfl
  exact ⟨_, sp₁, _, newSnowflakePool_eq _ _, SnowflakePool.push_empty _ _ 1, hremove, rfl, rfl, rfl⟩

end Snowflake.Broker
