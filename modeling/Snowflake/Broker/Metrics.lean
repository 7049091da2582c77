import Mathlib
import Snowflake.Lib.Transition
import Snowflake.Lib.Update
/-
`broker/metrics.go`: the broker's counters, each a `*uint64` in a `sync.Map`, incremented by
the handlers and read and cleared by the metrics goroutine once a day.

## The model

One map and the goroutines that use it, as a transition system whose steps are the atomic
operations: each `sync.Map` call, each `atomic.AddUint64`, and each read of a counter.
`incrementMapCounter` (and `IncrementCounter`, which calls it on `m.counters`) makes one or
two steps: `LoadOrStore` of a pointer to `1`, which is the whole increment when the key had no
counter, and otherwise `atomic.AddUint64` on the pointer `LoadOrStore` returned. Increments
run in any number, on any key, as `ProxyPolls`, `UpdateProxyStats` and `UpdateClientStats`
start them. The metrics goroutine makes one report at a time: `loadAndZero` (`LoadAndDelete`,
then `*ptr`), or `formatAndClearCountryStats` (in `Range`, for each key visited: `*countPtr`,
then `Delete`; the counts are returned when `Range` ends, before binning). Which report it
makes next is left free, so the runs of `printMetrics` are among these runs.

A run also records what the callers see, the key of each completed increment and the counts
each report returned, and two ghost maps for the proofs: for each pointer, the increments that
landed on it and the key it was stored under.

## What is proved

`increment_lost` is a run where an increment lands on a counter that `loadAndZero` has
already read and deleted: the increment is completed, but no report has it and the map does
not hold it. `metrics_no_double_count` is what holds over every run: the counts reported for
a key and the count still stored under it never exceed the increments of that key. The
invariant behind it says that a pointer holds its increments modulo `2^64`, belongs to one
key, and is read by a report only after it has left the map or right before it is deleted.
-/

set_option autoImplicit false

namespace Snowflake.Broker

open Transition

/-! ## The model -/

/-- Where the metrics goroutine is, between two atomic steps. -/
inductive ReportPc (Key : Type) where
  /-- between two reports -/
  | idle
  /-- in `loadAndZero(key)`, after `LoadAndDelete` returned `ptr`: next, `*ptr` -/
  | zeroRead (key : Key) (ptr : Nat)
  /-- in the `Range` of `formatAndClearCountryStats`, with the keys visited and the records
  appended so far -/
  | ranging (visited : List Key) (rs : List (Key × Nat))
  /-- `Range` called back with `key` and `countPtr`: next, `*countPtr` -/
  | rangeRead (visited : List Key) (rs : List (Key × Nat)) (key : Key) (ptr : Nat)
  /-- the callback read `count`: next, `m.Delete(cc)` -/
  | rangeDelete (visited : List Key) (rs : List (Key × Nat)) (key : Key) (count : Nat)

/-- A `sync.Map` of `*uint64` counters, the memory its pointers point to, and where the
goroutines that use it are. -/
structure Counters (Key : Type) where
  /-- the pointer stored under each key -/
  store : Key → Option Nat
  /-- `*p`, a `uint64`, for each pointer `p` -/
  mem : Nat → Nat
  /-- how many pointers `new` has made -/
  next : Nat
  /-- the `incrementMapCounter` calls between `LoadOrStore` and `atomic.AddUint64`, with
  their key and the pointer `LoadOrStore` returned -/
  pending : List (Key × Nat)
  report : ReportPc Key

/-- One atomic step of a goroutine. -/
inductive Action (Key : Type) where
  /-- `counters.LoadOrStore(key, &start)` of a new `incrementMapCounter(counters, key)` -/
  | loadOrStore (key : Key)
  /-- `atomic.AddUint64(ptr, 1)` of the pending increment at `i` -/
  | addUint64 (i : Nat)
  /-- `m.counters.LoadAndDelete(key)` of a new `loadAndZero(key)` -/
  | loadAndDelete (key : Key)
  /-- `*ptr` in `loadAndZero`, or `*countPtr` in the `Range` callback -/
  | read
  /-- `formatAndClearCountryStats` calls `m.Range` -/
  | range
  /-- `Range` calls back with the entry of `key` -/
  | visit (key : Key)
  /-- `m.Delete(cc)` in the callback -/
  | delete
  /-- `Range` returns -/
  | rangeDone

/-- What a step shows the callers: an increment completed, on a pointer, or a report returned
its counts. -/
inductive Seen (Key : Type) where
  | nothing
  | incremented (key : Key) (ptr : Nat)
  | reported (rs : List (Key × Nat))

variable {Key : Type} [DecidableEq Key]

/-- The atomic steps, as the source makes them; `none` when no goroutine is there. -/
def Counters.step (c : Counters Key) : Action Key → Option (Counters Key × Seen Key)
  | .loadOrStore key =>
    match c.store key with
    -- loaded: `atomic.AddUint64(ptr, 1)` comes next
    | some p => some ({ c with pending := c.pending ++ [(key, p)] }, .nothing)
    -- stored `&start`, a new pointer to `1`: the increment is done
    | none => some ({ c with store := Function.update c.store key (some c.next),
                             mem := Function.update c.mem c.next 1, next := c.next + 1 },
                    .incremented key c.next)
  | .addUint64 i =>
    match c.pending[i]? with
    | some (key, p) =>
      some ({ c with mem := Function.update c.mem p ((c.mem p + 1) % 2 ^ 64),
                     pending := c.pending.eraseIdx i }, .incremented key p)
    | none => none
  | .loadAndDelete key =>
    match c.report with
    | .idle =>
      match c.store key with
      | some p => some ({ c with store := Function.update c.store key none,
                                 report := .zeroRead key p }, .nothing)
      -- `count = new(uint64)`, which reads `0`
      | none => some (c, .reported [(key, 0)])
    | _ => none
  | .read =>
    match c.report with
    | .zeroRead key p => some ({ c with report := .idle }, .reported [(key, c.mem p)])
    | .rangeRead visited rs key p =>
      some ({ c with report := .rangeDelete visited rs key (c.mem p) }, .nothing)
    | _ => none
  | .range =>
    match c.report with
    | .idle => some ({ c with report := .ranging [] [] }, .nothing)
    | _ => none
  | .visit key =>
    match c.report with
    | .ranging visited rs =>
      if key ∈ visited then none
      else match c.store key with
        | some p => some ({ c with report := .rangeRead visited rs key p }, .nothing)
        | none => none
    | _ => none
  | .delete =>
    match c.report with
    | .rangeDelete visited rs key count =>
      some ({ c with store := Function.update c.store key none,
                     report := .ranging (visited ++ [key]) (rs ++ [(key, count)]) }, .nothing)
    | _ => none
  | .rangeDone =>
    match c.report with
    | .ranging _ rs => some ({ c with report := .idle }, .reported rs)
    | _ => none

/-! ## Runs -/

/-- A map of counters with what its callers have seen, the key of each completed increment and
the counts the reports returned, and the ghost maps: the increments that landed on each
pointer, and the key each pointer was stored under. -/
structure MetricsRun (Key : Type) where
  counters : Counters Key
  completed : List Key
  reported : List (Key × Nat)
  hits : Nat → Nat
  owner : Nat → Option Key

/-- A run after a step that shows `seen`. -/
def MetricsRun.observe (w : MetricsRun Key) (c : Counters Key) : Seen Key → MetricsRun Key
  | .nothing => { w with counters := c }
  | .incremented key p =>
    { counters := c, completed := w.completed ++ [key], reported := w.reported,
      hits := Function.update w.hits p (w.hits p + 1),
      owner := Function.update w.owner p (some key) }
  | .reported rs => { w with counters := c, reported := w.reported ++ rs }

def MetricsRun.apply (w : MetricsRun Key) (a : Action Key) : Option (MetricsRun Key) :=
  (w.counters.step a).map fun r => w.observe r.1 r.2

/-- `NewMetrics`: empty maps, and no goroutine in a step. -/
def metricsInit : MetricsRun Key :=
  ⟨⟨fun _ => none, fun _ => 0, 0, [], .idle⟩, [], [], fun _ => 0, fun _ => none⟩

/-- The runs of the counters from `NewMetrics`, in any interleaving. -/
def metricsSystem : System (MetricsRun Key) where
  init w := w = metricsInit
  step w w' := ∃ a, w.apply a = some w'

/-- A list of steps, one after the other. -/
def MetricsRun.applyAll (w : MetricsRun Key) : List (Action Key) → Option (MetricsRun Key)
  | [] => some w
  | a :: as => (w.apply a).bind fun w' => w'.applyAll as

theorem reachable_applyAll {w w' : MetricsRun Key} (hw : metricsSystem.Reachable w)
    (as : List (Action Key)) (h : w.applyAll as = some w') : metricsSystem.Reachable w' := by
  induction as generalizing w with
  | nil =>
    cases h
    exact hw
  | cons a as ih =>
    unfold MetricsRun.applyAll at h
    cases ha : w.apply a with
    | none =>
      rw [ha] at h
      cases h
    | some w₁ =>
      rw [ha] at h
      exact ih (hw.step ⟨a, ha⟩) h

/-! ## What the callers count -/

/-- The counts of `key` in a list of records. -/
def countsOf (key : Key) (rs : List (Key × Nat)) : Nat :=
  ((rs.filter fun r => r.1 = key).map Prod.snd).sum

/-- The counts of `key` that the reports have returned. -/
def MetricsRun.reportedSum (w : MetricsRun Key) (key : Key) : Nat := countsOf key w.reported

/-- The count stored under `key`. -/
def MetricsRun.storedValue (w : MetricsRun Key) (key : Key) : Nat :=
  match w.counters.store key with
  | some p => w.counters.mem p
  | none => 0

/-- The increments of `key` that have completed. -/
def MetricsRun.completedCount (w : MetricsRun Key) (key : Key) : Nat := w.completed.count key

/-- The failing run: two increments of `"client-match"`, the second of which finds the
counter with `LoadOrStore`; then `loadAndZero("client-match")` takes the counter out of the
map and reads `1`; then the second increment's `atomic.AddUint64` lands on the counter no
report will read again. -/
def lostRun : List (Action String) :=
  [.loadOrStore "client-match", .loadOrStore "client-match", .loadAndDelete "client-match",
    .read, .addUint64 0]

theorem increment_lost :
    ∃ w, metricsInit.applyAll lostRun = some w ∧ metricsSystem.Reachable w ∧
      w.reportedSum "client-match" + w.storedValue "client-match" = 1 ∧
      w.completedCount "client-match" = 2 := by
  refine ⟨_, rfl, reachable_applyAll (System.Reachable.of_init rfl) lostRun rfl, ?_, ?_⟩
  · decide
  · decide

/-! ## No increment is counted twice -/

theorem countsOf_nil (key : Key) : countsOf key [] = 0 := rfl

theorem countsOf_append (key : Key) (rs rs' : List (Key × Nat)) :
    countsOf key (rs ++ rs') = countsOf key rs + countsOf key rs' := by
  simp [countsOf, List.filter_append]

theorem countsOf_singleton (key k : Key) (v : Nat) :
    countsOf key [(k, v)] = if k = key then v else 0 := by
  by_cases hk : k = key <;> simp [countsOf, hk]

/-- The increments of `key` on the pointer stored under it. -/
def MetricsRun.storedHits (w : MetricsRun Key) (key : Key) : Nat :=
  match w.counters.store key with
  | some p => w.hits p
  | none => 0

/-- The increments of `key` a report in progress holds: those on the pointer `loadAndZero`
took out, or the counts `Range` has read and deleted. -/
def MetricsRun.heldHits (w : MetricsRun Key) (key : Key) : Nat :=
  match w.counters.report with
  | .idle => 0
  | .zeroRead k p => if k = key then w.hits p else 0
  | .ranging _ rs => countsOf key rs
  | .rangeRead _ rs _ _ => countsOf key rs
  | .rangeDelete _ rs _ _ => countsOf key rs

/-- `1` when `loadAndZero(key)` holds the pointer `p` it took out of the map: a hit on `p` is
then a hit the report holds. -/
def ReportPc.heldAt (r : ReportPc Key) (key : Key) (p : Nat) : Nat :=
  match r with
  | .zeroRead k q => if k = key ∧ q = p then 1 else 0
  | _ => 0

/-- What the metrics goroutine holds at each place it can be: the pointer `loadAndZero` took
is its key's and out of the map; the entry `Range` called back with is still in the map; and
the count the callback read is no more than the increments of the pointer it will delete. -/
def MetricsRun.ReportOk (w : MetricsRun Key) : Prop :=
  match w.counters.report with
  | .idle => True
  | .ranging _ _ => True
  | .zeroRead k p => w.owner p = some k ∧ w.counters.store k ≠ some p
  | .rangeRead _ _ k p => w.counters.store k = some p
  | .rangeDelete _ _ k count => ∃ p, w.counters.store k = some p ∧ count ≤ w.hits p

/-- What holds in every reachable state: each pointer holds its increments modulo `2^64`; the
pointers not made yet have none and no key; every pointer in the map or in a pending increment
is its key's; the metrics goroutine holds what `ReportOk` says; and for each key, what was
reported, what is stored and what a report holds add up to no more than the increments. -/
structure MetricsInv (w : MetricsRun Key) : Prop where
  mem_eq : ∀ p, w.counters.mem p = w.hits p % 2 ^ 64
  fresh : ∀ p, w.counters.next ≤ p → w.hits p = 0 ∧ w.owner p = none
  stored : ∀ k p, w.counters.store k = some p → w.owner p = some k
  pending : ∀ e ∈ w.counters.pending, w.owner e.2 = some e.1
  report : w.ReportOk
  bound : ∀ key, w.reportedSum key + w.storedHits key + w.heldHits key ≤ w.completedCount key

section Inv

variable {w : MetricsRun Key}

theorem MetricsInv.init : MetricsInv (metricsInit : MetricsRun Key) where
  mem_eq _ := rfl
  fresh _ _ := ⟨rfl, rfl⟩
  stored _ _ h := by cases h
  pending _ h := by cases h
  report := trivial
  bound _ := le_rfl

/-- A pointer with a key was made. -/
theorem MetricsInv.lt_next (hinv : MetricsInv w) {p : Nat} {k : Key} (h : w.owner p = some k) :
    p < w.counters.next := by
  by_contra hge
  rw [(hinv.fresh p (by omega)).2] at h
  cases h

/-- An update at the next pointer leaves every pointer that has a key. -/
theorem MetricsInv.update_next (hinv : MetricsInv w) {β : Type} (f : Nat → β) (v : β)
    {q : Nat} {k : Key} (h : w.owner q = some k) : Function.update f w.counters.next v q = f q :=
  Function.update_of_ne (Nat.ne_of_lt (hinv.lt_next h)) v f

theorem completedCount_concat (key k : Key) (l : List Key) :
    (l ++ [key]).count k = l.count k + if key = k then 1 else 0 := by
  rw [List.count_append, List.count_singleton]
  by_cases hk : key = k <;> simp [hk]

/-! ### One lemma for each step -/

/-- `LoadOrStore` finds the counter: the increment waits for `atomic.AddUint64`. -/
theorem MetricsInv.loaded (hinv : MetricsInv w) {key : Key} {p : Nat}
    (hp : w.counters.store key = some p) :
    MetricsInv (w.observe { w.counters with pending := w.counters.pending ++ [(key, p)] }
      .nothing) where
  mem_eq := hinv.mem_eq
  fresh := hinv.fresh
  stored := hinv.stored
  pending e he := by
    rcases List.mem_append.mp he with he | he
    · exact hinv.pending e he
    · rw [List.mem_singleton.mp he]
      exact hinv.stored key p hp
  report := hinv.report
  bound := hinv.bound

/-- `LoadOrStore` stores a new pointer to `1`: the increment is done, and the key holds it. -/
theorem MetricsInv.stored_new (hinv : MetricsInv w) {key : Key}
    (hnone : w.counters.store key = none) :
    MetricsInv (w.observe { w.counters with
        store := Function.update w.counters.store key (some w.counters.next),
        mem := Function.update w.counters.mem w.counters.next 1,
        next := w.counters.next + 1 } (.incremented key w.counters.next)) := by
  obtain ⟨hhits₀, howner₀⟩ := hinv.fresh w.counters.next le_rfl
  constructor
  · intro q
    dsimp only [MetricsRun.observe]
    by_cases hq : q = w.counters.next
    · subst hq
      simp [hhits₀]
    · rw [Function.update_of_ne hq, Function.update_of_ne hq]
      exact hinv.mem_eq q
  · intro q hq
    dsimp only [MetricsRun.observe] at hq ⊢
    rw [Function.update_of_ne (by omega), Function.update_of_ne (by omega)]
    exact hinv.fresh q (by omega)
  · intro k q hq
    dsimp only [MetricsRun.observe] at hq ⊢
    by_cases hk : k = key
    · subst hk
      rw [Function.update_self, Option.some.injEq] at hq
      rw [← hq, Function.update_self]
    · rw [Function.update_of_ne hk] at hq
      have hown := hinv.stored k q hq
      rw [hinv.update_next _ _ hown]
      exact hown
  · intro e he
    have hown := hinv.pending e he
    dsimp only [MetricsRun.observe]
    rw [hinv.update_next _ _ hown]
    exact hown
  · -- the report holds pointers with keys, which are not the new one
    have hrep := hinv.report
    unfold MetricsRun.ReportOk at hrep ⊢
    dsimp only [MetricsRun.observe]
    split at hrep
    · trivial
    · trivial
    · rename_i k q _
      refine ⟨by rw [hinv.update_next _ _ hrep.1]; exact hrep.1, ?_⟩
      by_cases hk : k = key
      · subst hk
        rw [Function.update_self, Ne, Option.some.injEq]
        exact fun h => Nat.ne_of_lt (hinv.lt_next hrep.1) h.symm
      · rw [Function.update_of_ne hk]
        exact hrep.2
    · rename_i k q _
      have hk : k ≠ key := Function.ne_of_some_of_none hrep hnone
      rw [Function.update_of_ne hk]
      exact hrep
    · rename_i k count _
      obtain ⟨q, hq, hle⟩ := hrep
      have hk : k ≠ key := Function.ne_of_some_of_none hq hnone
      refine ⟨q, by rw [Function.update_of_ne hk]; exact hq, ?_⟩
      rw [hinv.update_next _ _ (hinv.stored k q hq)]
      exact hle
  · intro k
    have hbound := hinv.bound k
    have hstored : (w.observe { w.counters with
        store := Function.update w.counters.store key (some w.counters.next),
        mem := Function.update w.counters.mem w.counters.next 1,
        next := w.counters.next + 1 } (.incremented key w.counters.next)).storedHits k =
        w.storedHits k + if key = k then 1 else 0 := by
      unfold MetricsRun.storedHits
      dsimp only [MetricsRun.observe]
      by_cases hk : key = k
      · subst hk
        simp [hnone, hhits₀]
      · rw [Function.update_of_ne (Ne.symm hk), if_neg hk]
        cases hq : w.counters.store k with
        | none => rfl
        | some q =>
          dsimp only
          rw [hinv.update_next _ _ (hinv.stored k q hq), Nat.add_zero]
    have hheld : (w.observe { w.counters with
        store := Function.update w.counters.store key (some w.counters.next),
        mem := Function.update w.counters.mem w.counters.next 1,
        next := w.counters.next + 1 } (.incremented key w.counters.next)).heldHits k =
        w.heldHits k := by
      have hrep := hinv.report
      unfold MetricsRun.ReportOk at hrep
      unfold MetricsRun.heldHits
      dsimp only [MetricsRun.observe]
      split
      · rfl
      · rename_i k' q heq
        rw [heq] at hrep
        rw [hinv.update_next _ _ hrep.1]
      · rfl
      · rfl
      · rfl
    have hrep : (w.observe { w.counters with
        store := Function.update w.counters.store key (some w.counters.next),
        mem := Function.update w.counters.mem w.counters.next 1,
        next := w.counters.next + 1 } (.incremented key w.counters.next)).reportedSum k =
        w.reportedSum k := rfl
    have hcount : (w.observe { w.counters with
        store := Function.update w.counters.store key (some w.counters.next),
        mem := Function.update w.counters.mem w.counters.next 1,
        next := w.counters.next + 1 } (.incremented key w.counters.next)).completedCount k =
        w.completedCount k + if key = k then 1 else 0 :=
      completedCount_concat key k w.completed
    rw [hrep, hstored, hheld, hcount]
    split_ifs <;> omega

/-- The steps that complete no increment: they leave the ghost maps, the memory and the pending
increments as they are, and can only take keys out of the map. The invariant then holds again
if the report is where `ReportOk` says and what the step returns and what it moves out of the
map stays within what the map and the report held. -/
theorem MetricsInv.of_no_increment (hinv : MetricsInv w) {w' : MetricsRun Key}
    (rs : List (Key × Nat)) (hhits : w'.hits = w.hits) (howner : w'.owner = w.owner)
    (hcompleted : w'.completed = w.completed) (hreported : w'.reported = w.reported ++ rs)
    (hmem : w'.counters.mem = w.counters.mem) (hnext : w'.counters.next = w.counters.next)
    (hpending : w'.counters.pending = w.counters.pending)
    (hstore : ∀ k p, w'.counters.store k = some p → w.counters.store k = some p)
    (hok : w'.ReportOk)
    (hheld : ∀ key, countsOf key rs + w'.storedHits key + w'.heldHits key ≤
      w.storedHits key + w.heldHits key) :
    MetricsInv w' where
  mem_eq p := by
    rw [hmem, hhits]
    exact hinv.mem_eq p
  fresh p hp := by
    rw [hhits, howner]
    exact hinv.fresh p (hnext ▸ hp)
  stored k p hp := by
    rw [howner]
    exact hinv.stored k p (hstore k p hp)
  pending e he := by
    rw [howner]
    exact hinv.pending e (hpending ▸ he)
  report := hok
  bound key := by
    have hb := hinv.bound key
    have hh := hheld key
    unfold MetricsRun.reportedSum MetricsRun.completedCount at hb ⊢
    rw [hreported, hcompleted, countsOf_append]
    omega

/-- Taking `key` out of the map leaves every other key's entry. -/
theorem store_erase_sub {store : Key → Option Nat} (key : Key) :
    ∀ k p, Function.update store key none k = some p → store k = some p := by
  intro k p hp
  by_cases hk : k = key
  · subst hk
    rw [Function.update_self] at hp
    cases hp
  · rwa [Function.update_of_ne hk] at hp

/-- After `key` is taken out of the map, nothing is stored under it. -/
theorem storedHits_erase (key : Key) (r : ReportPc Key) (k : Key) :
    (w.observe { w.counters with
        store := Function.update w.counters.store key none,
        report := r } .nothing).storedHits k = if key = k then 0 else w.storedHits k := by
  unfold MetricsRun.storedHits
  dsimp only [MetricsRun.observe]
  by_cases hk : key = k
  · subst hk
    rw [Function.update_self, if_pos rfl]
  · rw [Function.update_of_ne (Ne.symm hk), if_neg hk]

/-- `LoadAndDelete` finds the counter: `loadAndZero` holds it, out of the map. -/
theorem MetricsInv.loadedAndDeleted (hinv : MetricsInv w) {key : Key} {p : Nat}
    (hidle : w.counters.report = .idle) (hp : w.counters.store key = some p) :
    MetricsInv (w.observe { w.counters with
        store := Function.update w.counters.store key none,
        report := .zeroRead key p } .nothing) := by
  refine hinv.of_no_increment [] rfl rfl rfl (List.append_nil _).symm rfl rfl rfl
    (store_erase_sub key) ?_ ?_
  · unfold MetricsRun.ReportOk
    dsimp only [MetricsRun.observe]
    rw [Function.update_self]
    exact ⟨hinv.stored key p hp, (Option.some_ne_none p).symm⟩
  · intro k
    rw [storedHits_erase]
    unfold MetricsRun.heldHits
    dsimp only [MetricsRun.observe]
    rw [hidle, countsOf_nil]
    by_cases hk : key = k
    · subst hk
      have hs : w.storedHits key = w.hits p := by
        unfold MetricsRun.storedHits
        rw [hp]
      rw [if_pos rfl, if_pos rfl, hs]
      omega
    · rw [if_neg hk, if_neg hk]
      omega

/-- `LoadAndDelete` finds no counter: `loadAndZero` returns `0`. -/
theorem MetricsInv.loadedNone (hinv : MetricsInv w) (key : Key) :
    MetricsInv (w.observe w.counters (.reported [(key, 0)])) := by
  refine hinv.of_no_increment [(key, 0)] rfl rfl rfl rfl rfl rfl rfl (fun _ _ h => h)
    hinv.report ?_
  intro k
  show countsOf k [(key, 0)] + w.storedHits k + w.heldHits k ≤ _
  rw [countsOf_singleton]
  split_ifs <;> omega

/-- `*ptr` in `loadAndZero`: the report returns the count, which is at most the increments on
the pointer. -/
theorem MetricsInv.zeroReadDone (hinv : MetricsInv w) {key : Key} {p : Nat}
    (hr : w.counters.report = .zeroRead key p) :
    MetricsInv (w.observe { w.counters with report := .idle }
      (.reported [(key, w.counters.mem p)])) := by
  refine hinv.of_no_increment [(key, w.counters.mem p)] rfl rfl rfl rfl rfl rfl rfl
    (fun _ _ h => h) trivial ?_
  intro k
  have hle : w.counters.mem p ≤ w.hits p := by
    rw [hinv.mem_eq p]
    exact Nat.mod_le _ _
  show countsOf k [(key, w.counters.mem p)] + w.storedHits k + 0 ≤ w.storedHits k + w.heldHits k
  unfold MetricsRun.heldHits
  rw [hr, countsOf_singleton]
  dsimp only
  split_ifs <;> omega

/-- `*countPtr` in the `Range` callback: the count read is at most the increments on the
pointer the callback will delete. -/
theorem MetricsInv.rangeReadDone (hinv : MetricsInv w) {visited : List Key}
    {rs : List (Key × Nat)} {key : Key} {p : Nat}
    (hr : w.counters.report = .rangeRead visited rs key p) :
    MetricsInv (w.observe { w.counters with
      report := .rangeDelete visited rs key (w.counters.mem p) } .nothing) := by
  have hok := hinv.report
  unfold MetricsRun.ReportOk at hok
  rw [hr] at hok
  refine hinv.of_no_increment [] rfl rfl rfl (List.append_nil _).symm rfl rfl rfl
    (fun _ _ h => h) ?_ ?_
  · refine ⟨p, hok, ?_⟩
    rw [hinv.mem_eq p]
    exact Nat.mod_le _ _
  · intro k
    show countsOf k [] + w.storedHits k + countsOf k rs ≤ w.storedHits k + w.heldHits k
    unfold MetricsRun.heldHits
    rw [hr, countsOf_nil]
    dsimp only
    omega

/-- `m.Range` begins, with nothing read. -/
theorem MetricsInv.rangeStarted (hinv : MetricsInv w) :
    MetricsInv (w.observe { w.counters with report := .ranging [] [] } .nothing) := by
  refine hinv.of_no_increment [] rfl rfl rfl (List.append_nil _).symm rfl rfl rfl
    (fun _ _ h => h) trivial ?_
  intro k
  show countsOf k [] + w.storedHits k + countsOf k [] ≤ w.storedHits k + w.heldHits k
  rw [countsOf_nil]
  omega

/-- `Range` calls back with an entry that is in the map. -/
theorem MetricsInv.visited (hinv : MetricsInv w) {visited : List Key} {rs : List (Key × Nat)}
    {key : Key} {p : Nat} (hr : w.counters.report = .ranging visited rs)
    (hp : w.counters.store key = some p) :
    MetricsInv (w.observe { w.counters with report := .rangeRead visited rs key p } .nothing) := by
  refine hinv.of_no_increment [] rfl rfl rfl (List.append_nil _).symm rfl rfl rfl
    (fun _ _ h => h) hp ?_
  intro k
  show countsOf k [] + w.storedHits k + countsOf k rs ≤ w.storedHits k + w.heldHits k
  unfold MetricsRun.heldHits
  rw [hr, countsOf_nil]
  dsimp only
  omega

/-- `m.Delete(cc)`: the count read moves from the map to the records `Range` returns. -/
theorem MetricsInv.deleted (hinv : MetricsInv w) {visited : List Key} {rs : List (Key × Nat)}
    {key : Key} {count : Nat} (hr : w.counters.report = .rangeDelete visited rs key count) :
    MetricsInv (w.observe { w.counters with
        store := Function.update w.counters.store key none,
        report := .ranging (visited ++ [key]) (rs ++ [(key, count)]) } .nothing) := by
  have hok := hinv.report
  unfold MetricsRun.ReportOk at hok
  rw [hr] at hok
  obtain ⟨q, hq, hle⟩ := hok
  refine hinv.of_no_increment [] rfl rfl rfl (List.append_nil _).symm rfl rfl rfl
    (store_erase_sub key) trivial ?_
  intro k
  rw [storedHits_erase]
  show countsOf k [] + _ + countsOf k (rs ++ [(key, count)]) ≤ w.storedHits k + w.heldHits k
  unfold MetricsRun.heldHits
  rw [hr, countsOf_nil, countsOf_append, countsOf_singleton]
  dsimp only
  by_cases hk : key = k
  · subst hk
    have hs : w.storedHits key = w.hits q := by
      unfold MetricsRun.storedHits
      rw [hq]
    rw [if_pos rfl, if_pos rfl, hs]
    omega
  · rw [if_neg hk, if_neg hk]
    omega

/-- `Range` returns the records it read. -/
theorem MetricsInv.rangeReturned (hinv : MetricsInv w) {visited : List Key}
    {rs : List (Key × Nat)} (hr : w.counters.report = .ranging visited rs) :
    MetricsInv (w.observe { w.counters with report := .idle } (.reported rs)) := by
  refine hinv.of_no_increment rs rfl rfl rfl rfl rfl rfl rfl (fun _ _ h => h) trivial ?_
  intro k
  show countsOf k rs + w.storedHits k + 0 ≤ w.storedHits k + w.heldHits k
  unfold MetricsRun.heldHits
  rw [hr]
  dsimp only
  omega

/-! ### `atomic.AddUint64` -/

omit [DecidableEq Key] in
/-- A hit on `p` adds to the count stored under a key when the key holds `p`. -/
theorem storedHits_incremented (m : Nat → Nat) (ps : List (Key × Nat)) (key : Key) (p : Nat)
    (k : Key) :
    (w.observe { w.counters with mem := m, pending := ps } (.incremented key p)).storedHits k =
      w.storedHits k + if w.counters.store k = some p then 1 else 0 := by
  unfold MetricsRun.storedHits
  dsimp only [MetricsRun.observe]
  cases hq : w.counters.store k with
  | none => rfl
  | some q =>
    dsimp only
    by_cases hqp : q = p
    · subst hqp
      rw [Function.update_self, if_pos rfl]
    · rw [Function.update_of_ne hqp, if_neg (by rw [Option.some.injEq]; exact hqp), Nat.add_zero]

/-- A hit on `p` adds to what `loadAndZero` holds when it holds `p`. -/
theorem heldHits_incremented (m : Nat → Nat) (ps : List (Key × Nat)) (key : Key) (p : Nat)
    (k : Key) :
    (w.observe { w.counters with mem := m, pending := ps } (.incremented key p)).heldHits k =
      w.heldHits k + w.counters.report.heldAt k p := by
  unfold MetricsRun.heldHits ReportPc.heldAt
  dsimp only [MetricsRun.observe]
  cases w.counters.report with
  | idle => rfl
  | zeroRead k' q =>
    dsimp only
    by_cases hk : k' = k
    · by_cases hqp : q = p
      · subst hqp
        rw [if_pos hk, if_pos hk, if_pos ⟨hk, rfl⟩, Function.update_self]
      · rw [if_pos hk, if_pos hk, if_neg (fun h => hqp h.2), Function.update_of_ne hqp,
          Nat.add_zero]
    · rw [if_neg hk, if_neg hk, if_neg (fun h => hk h.1)]
  | ranging => rfl
  | rangeRead => rfl
  | rangeDelete => rfl

/-- A pointer of `key` is in at most one place, the map or `loadAndZero`, and only under
`key`: so a hit on it is counted once, and for `key`. -/
theorem MetricsInv.placed_le (hinv : MetricsInv w) {key : Key} {p : Nat}
    (hown : w.owner p = some key) (k : Key) :
    (if w.counters.store k = some p then 1 else 0) + w.counters.report.heldAt k p ≤
      if key = k then 1 else 0 := by
  have hstored : (if w.counters.store k = some p then 1 else 0) ≤ if key = k then 1 else 0 := by
    by_cases hs : w.counters.store k = some p
    · have h := hinv.stored k p hs
      rw [hown, Option.some.injEq] at h
      rw [if_pos hs, if_pos h]
    · rw [if_neg hs]
      exact Nat.zero_le _
  have hrep := hinv.report
  unfold MetricsRun.ReportOk at hrep
  unfold ReportPc.heldAt
  cases hr : w.counters.report with
  | zeroRead k' q =>
    rw [hr] at hrep
    dsimp only at hrep ⊢
    by_cases hkq : k' = k ∧ q = p
    · -- `loadAndZero` holds `p`, which is then out of the map
      obtain ⟨rfl, rfl⟩ := hkq
      rw [hown, Option.some.injEq] at hrep
      rw [if_neg hrep.2, if_pos ⟨rfl, rfl⟩, if_pos hrep.1]
    · rw [if_neg hkq]
      omega
  | idle | ranging _ _ | rangeRead _ _ _ _ | rangeDelete _ _ _ _ =>
    dsimp only
    omega

/-- `atomic.AddUint64` of a pending increment: the increment is done, on a pointer of its key,
and the hit is counted where the pointer is. -/
theorem MetricsInv.added (hinv : MetricsInv w) {i : Nat} {key : Key} {p : Nat}
    (hi : w.counters.pending[i]? = some (key, p)) :
    MetricsInv (w.observe { w.counters with
        mem := Function.update w.counters.mem p ((w.counters.mem p + 1) % 2 ^ 64),
        pending := w.counters.pending.eraseIdx i } (.incremented key p)) := by
  have hown : w.owner p = some key := hinv.pending (key, p) (List.mem_of_getElem? hi)
  -- the pointer is already `key`'s, so the ghost owner map does not change
  have howner : Function.update w.owner p (some key) = w.owner := by
    rw [← hown]
    exact Function.update_eq_self p w.owner
  have hhits : w.hits ≤ Function.update w.hits p (w.hits p + 1) :=
    le_update_self_iff.mpr (Nat.le_succ _)
  constructor
  · intro q
    dsimp only [MetricsRun.observe]
    by_cases hq : q = p
    · subst hq
      rw [Function.update_self, Function.update_self, hinv.mem_eq q, Nat.mod_add_mod]
    · rw [Function.update_of_ne hq, Function.update_of_ne hq]
      exact hinv.mem_eq q
  · intro q hq
    dsimp only [MetricsRun.observe] at hq ⊢
    have hqp : q ≠ p := fun h => by
      have := hinv.lt_next hown
      omega
    rw [Function.update_of_ne hqp, howner]
    exact hinv.fresh q hq
  · intro k q hq
    dsimp only [MetricsRun.observe]
    rw [howner]
    exact hinv.stored k q hq
  · intro e he
    dsimp only [MetricsRun.observe]
    rw [howner]
    exact hinv.pending e (List.mem_of_mem_eraseIdx he)
  · have hrep := hinv.report
    unfold MetricsRun.ReportOk at hrep ⊢
    dsimp only [MetricsRun.observe]
    rw [howner]
    split at hrep
    · trivial
    · trivial
    · exact hrep
    · exact hrep
    · obtain ⟨q, hq, hle⟩ := hrep
      exact ⟨q, hq, le_trans hle (hhits q)⟩
  · intro k
    have hb := hinv.bound k
    have hplaced := hinv.placed_le hown k
    have hcount := completedCount_concat key k w.completed
    unfold MetricsRun.completedCount at hb ⊢
    rw [storedHits_incremented, heldHits_incremented]
    show w.reportedSum k + _ + _ ≤ (w.completed ++ [key]).count k
    rw [hcount]
    omega

/-! ### Every step -/

/-- Every step keeps the invariant: one case for each place of the step function where a
goroutine can move. -/
theorem MetricsInv.apply (hinv : MetricsInv w) {a : Action Key} {w' : MetricsRun Key}
    (h : w.apply a = some w') : MetricsInv w' := by
  unfold MetricsRun.apply at h
  cases a with
  | loadOrStore key =>
    simp only [Counters.step] at h
    split at h
    · rename_i p hp
      rw [Option.map_some, Option.some.injEq] at h
      subst h
      exact hinv.loaded hp
    · rename_i hnone
      rw [Option.map_some, Option.some.injEq] at h
      subst h
      exact hinv.stored_new hnone
  | addUint64 i =>
    simp only [Counters.step] at h
    split at h
    · rename_i key p hi
      rw [Option.map_some, Option.some.injEq] at h
      subst h
      exact hinv.added hi
    · cases h
  | loadAndDelete key =>
    simp only [Counters.step] at h
    split at h
    · rename_i hidle
      split at h
      · rename_i p hp
        rw [Option.map_some, Option.some.injEq] at h
        subst h
        exact hinv.loadedAndDeleted hidle hp
      · rw [Option.map_some, Option.some.injEq] at h
        subst h
        exact hinv.loadedNone key
    · cases h
  | read =>
    simp only [Counters.step] at h
    split at h
    · rename_i key p hr
      rw [Option.map_some, Option.some.injEq] at h
      subst h
      exact hinv.zeroReadDone hr
    · rename_i visited rs key p hr
      rw [Option.map_some, Option.some.injEq] at h
      subst h
      exact hinv.rangeReadDone hr
    · cases h
  | range =>
    simp only [Counters.step] at h
    split at h
    · rw [Option.map_some, Option.some.injEq] at h
      subst h
      exact hinv.rangeStarted
    · cases h
  | visit key =>
    simp only [Counters.step] at h
    split at h
    · rename_i visited rs hr
      split at h
      · cases h
      · split at h
        · rename_i p hp
          rw [Option.map_some, Option.some.injEq] at h
          subst h
          exact hinv.visited hr hp
        · cases h
    · cases h
  | delete =>
    simp only [Counters.step] at h
    split at h
    · rename_i visited rs key count hr
      rw [Option.map_some, Option.some.injEq] at h
      subst h
      exact hinv.deleted hr
    · cases h
  | rangeDone =>
    simp only [Counters.step] at h
    split at h
    · rename_i visited rs hr
      rw [Option.map_some, Option.some.injEq] at h
      subst h
      exact hinv.rangeReturned hr
    · cases h

theorem metricsInv_inductive : (metricsSystem : System (MetricsRun Key)).Inductive MetricsInv where
  init w h := by
    rw [h]
    exact MetricsInv.init
  step _ _ hstep hinv := by
    obtain ⟨a, ha⟩ := hstep
    exact hinv.apply ha

/-- The stored `uint64` is at most the increments on its pointer: it holds them modulo
`2^64`. -/
theorem MetricsInv.storedValue_le (hinv : MetricsInv w) (key : Key) :
    w.storedValue key ≤ w.storedHits key := by
  unfold MetricsRun.storedValue MetricsRun.storedHits
  cases w.counters.store key with
  | none => exact le_rfl
  | some p =>
    dsimp only
    rw [hinv.mem_eq p]
    exact Nat.mod_le _ _

end Inv

/-- Over every run, the counts reported for a key and the count still stored under it never
exceed the increments of the key that completed. -/
theorem metrics_no_double_count {w : MetricsRun Key} (hw : metricsSystem.Reachable w)
    (key : Key) : w.reportedSum key + w.storedValue key ≤ w.completedCount key := by
  have hinv := metricsInv_inductive.reachable hw
  have hstored := hinv.storedValue_le key
  have hbound := hinv.bound key
  omega

theorem metrics_no_double_count_one_increment :
    ∃ w, metricsInit.applyAll [.loadOrStore "client-match"] = some w ∧
      metricsSystem.Reachable w ∧
      w.reportedSum "client-match" + w.storedValue "client-match" ≤
        w.completedCount "client-match" := by
  have hw := reachable_applyAll (System.Reachable.of_init rfl)
    [.loadOrStore "client-match"] rfl
  exact ⟨_, rfl, hw, metrics_no_double_count hw "client-match"⟩

end Snowflake.Broker
