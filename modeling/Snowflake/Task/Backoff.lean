import Mathlib
/-
`common/task/backoff.go`: `ExpBackoff`, the task the proxy retests bridge reachability with. Its
doc comment gives the schedule: "When the task succeeds, the next run occurs at MaxInterval. When
the task fails, the next run is scheduled in MinInterval. For each subsequent failure, the interval
is doubled until MaxInterval is reached".

## The model

The state is the record's fields that `checkedExecute` and `Start` read and write; `OnError` is
read only for being `nil`, and `Execute` is replaced by what it returns on each call. A run is
`Start` and then each timer firing in turn, each calling `checkedExecute`; the result of a run is
the list of delays the timers are set for. A `time.Duration` is an `int64` of nanoseconds, an
`Int` here, and the doubling wraps as `int64` multiplication does (`wrapInt64`).

## What is proved

`delays_eq`: with `OnError` set, `0 < MinInterval ≤ MaxInterval` and no overflow, the delay after
the `k`-th execution is `backoffInterval` of the last streak of failures among the first `k`
(`lastFailStreak`). The doc comment's schedule is `backoffInterval` of the failures that end the
first `k` (`failStreak`). The two differ after a success that follows failures: `checkedExecute`
clears `failed` on a success but leaves `interval` as the last failure set it, so the next run
comes after that failure's delay, not after `MaxInterval`.
-/

set_option autoImplicit false

namespace Snowflake.Task

variable {ε : Type}

/-- `x` as an `int64` holds it: two's complement wrapping. -/
def wrapInt64 (x : Int) : Int := x.bmod (2 ^ 64)

theorem wrapInt64_of_lt {x : Int} (h₁ : -2 ^ 63 ≤ x) (h₂ : x < 2 ^ 63) : wrapInt64 x = x :=
  Int.bmod_eq_of_le (by omega) (by omega)

/-! ## The task -/

/-- `ExpBackoff`, with `OnError != nil` as `hasOnError`; durations in nanoseconds. -/
structure ExpBackoff where
  MinInterval : Int
  MaxInterval : Int
  hasOnError : Bool
  failed : Bool
  interval : Int
  running : Bool

/-- The literal `ExpBackoff{MinInterval, MaxInterval, Execute, OnError}` of a caller: the other
fields are zero. -/
def ExpBackoff.new (minInterval maxInterval : Int) (hasOnError : Bool) : ExpBackoff :=
  ⟨minInterval, maxInterval, hasOnError, false, 0, false⟩

/-- The end of `checkedExecute`: a timer for `interval`, unless the task was closed. -/
def ExpBackoff.scheduleNext (t : ExpBackoff) : ExpBackoff × Option ε × Option Int :=
  if !t.running then (t, none, none) else (t, none, some t.interval)

/-- `checkedExecute`, with `err` what `Execute` returned: the new state, the error returned, and
the delay of the `time.AfterFunc` it sets. -/
def ExpBackoff.checkedExecute (t : ExpBackoff) (err : Option ε) :
    ExpBackoff × Option ε × Option Int :=
  if !t.running then (t, none, none)
  else
    match err with
    | some e =>
      if t.hasOnError then
        -- "increase interval unless we've reached MaxInterval"
        let t := if t.failed then { t with interval := min (wrapInt64 (t.interval * 2)) t.MaxInterval }
          else { t with failed := true, interval := t.MinInterval }
        t.scheduleNext
      else
        -- "default error handling is to shut down the task"
        ({ t with running := false }, some e, none)
    | none => { t with failed := false }.scheduleNext

/-- `Start`, with `err` what the first `Execute` returns. -/
def ExpBackoff.start (t : ExpBackoff) (err : Option ε) : ExpBackoff × Option ε × Option Int :=
  let t := { t with interval := t.MaxInterval }
  if t.running then (t, none, none) else { t with running := true }.checkedExecute err

/-- The delays of the timers set from `t` on as each fires, `Execute` returning `errs` in turn; the
run stops where no timer is set. -/
def ExpBackoff.runTimers (t : ExpBackoff) : List (Option ε) → List Int
  | [] => []
  | err :: errs =>
    match t.checkedExecute err with
    | (t', _, some d) => d :: t'.runTimers errs
    | (_, _, none) => []

/-- The delays of a run: `Start`, then each timer as it fires. -/
def ExpBackoff.delays (t : ExpBackoff) : List (Option ε) → List Int
  | [] => []
  | err :: errs =>
    match t.start err with
    | (t', _, some d) => d :: t'.runTimers errs
    | (_, _, none) => []

/-- `Start` of a task that is not running is the first timer firing, from `MaxInterval`. -/
theorem delays_eq_runTimers (t : ExpBackoff) (h : t.running = false) (errs : List (Option ε)) :
    t.delays errs = { t with interval := t.MaxInterval, running := true }.runTimers errs := by
  cases errs with
  | nil => rfl
  | cons err errs =>
    have hstart : t.start err = { t with interval := t.MaxInterval, running := true }.checkedExecute err := by
      rw [ExpBackoff.start]
      dsimp only
      rw [if_neg (by rw [h]; exact Bool.false_ne_true)]
    rw [ExpBackoff.delays, ExpBackoff.runTimers, hstart]

/-! ## Streaks of failures -/

/-- The failures that end `errs`. -/
def failStreak (errs : List (Option ε)) : Nat := (errs.reverse.takeWhile Option.isSome).length

/-- The length of the last streak of failures in `errs`, whether or not successes follow it. -/
def lastFailStreak (errs : List (Option ε)) : Nat :=
  ((errs.reverse.dropWhile Option.isNone).takeWhile Option.isSome).length

@[simp] theorem failStreak_concat_some (errs : List (Option ε)) (e : ε) :
    failStreak (errs ++ [some e]) = failStreak errs + 1 := by
  rw [failStreak, failStreak, List.reverse_concat, List.takeWhile_cons, Option.isSome_some,
    if_pos rfl, List.length_cons]

@[simp] theorem failStreak_concat_none (errs : List (Option ε)) :
    failStreak (errs ++ [none]) = 0 := by
  rw [failStreak, List.reverse_concat, List.takeWhile_cons, Option.isSome_none,
    if_neg Bool.false_ne_true, List.length_nil]

@[simp] theorem lastFailStreak_concat_some (errs : List (Option ε)) (e : ε) :
    lastFailStreak (errs ++ [some e]) = failStreak errs + 1 := by
  rw [lastFailStreak, List.reverse_concat, List.dropWhile_cons, Option.isNone_some,
    if_neg Bool.false_ne_true, List.takeWhile_cons, Option.isSome_some, if_pos rfl,
    List.length_cons, failStreak]

@[simp] theorem lastFailStreak_concat_none (errs : List (Option ε)) :
    lastFailStreak (errs ++ [none]) = lastFailStreak errs := by
  rw [lastFailStreak, lastFailStreak, List.reverse_concat, List.dropWhile_cons, Option.isNone_none,
    if_pos rfl]

/-- A streak that ends the list is its last one. -/
theorem lastFailStreak_of_failStreak_pos {errs : List (Option ε)} (h : 0 < failStreak errs) :
    lastFailStreak errs = failStreak errs := by
  rw [failStreak] at h
  rw [lastFailStreak, failStreak]
  cases hr : errs.reverse with
  | nil => rw [hr] at h; exact absurd h (Nat.lt_irrefl 0)
  | cons x r =>
    rw [hr, List.takeWhile_cons] at h
    -- the last outcome is a failure, which `dropWhile` stops at
    have hx : x.isSome = true := by
      by_contra hx
      rw [if_neg hx] at h
      exact Nat.lt_irrefl 0 h
    have hnone : x.isNone = false := by
      rw [Option.isNone_eq_false_iff]
      exact hx
    rw [List.dropWhile_cons, if_neg (by rw [hnone]; exact Bool.false_ne_true)]

/-! ## The schedule -/

/-- The delay after a streak of `j` failures: `MaxInterval` after none, and otherwise
`MinInterval` doubled `j - 1` times, up to `MaxInterval`. -/
def backoffInterval (minInterval maxInterval : Int) (j : Nat) : Int :=
  if j = 0 then maxInterval else min (minInterval * 2 ^ (j - 1)) maxInterval

/-- The schedule of `ExpBackoff`'s doc comment: after the `k`-th execution, `MaxInterval` if it
succeeded, and the delay of the streak of failures it ends if it failed. -/
def documentedDelays (minInterval maxInterval : Int) (errs : List (Option ε)) : List Int :=
  (List.range errs.length).map fun k =>
    backoffInterval minInterval maxInterval (failStreak (errs.take (k + 1)))

section Schedule

variable {minInterval maxInterval : Int}

/-- Doubling the delay after `j + 1` failures, up to `MaxInterval` and without overflow, gives the
delay after `j + 2`. -/
theorem backoffInterval_double (hmin : 0 < minInterval) (hle : minInterval ≤ maxInterval)
    (hmax : 2 * maxInterval < 2 ^ 63) (j : Nat) :
    min (wrapInt64 (backoffInterval minInterval maxInterval (j + 1) * 2)) maxInterval =
      backoffInterval minInterval maxInterval (j + 2) := by
  have hj : j + 2 - 1 = j + 1 := rfl
  rw [backoffInterval, backoffInterval, if_neg (Nat.succ_ne_zero j), if_neg (Nat.succ_ne_zero _),
    Nat.add_sub_cancel, hj, pow_succ, ← Int.mul_assoc]
  -- twice the capped delay is at most `2 * MaxInterval`, so the doubling does not wrap
  have hpow : 0 < minInterval * 2 ^ j := Int.mul_pos hmin (by positivity)
  have hcap : 0 < min (minInterval * 2 ^ j) maxInterval ∧
      min (minInterval * 2 ^ j) maxInterval ≤ maxInterval := by omega
  rw [wrapInt64_of_lt (by omega) (by omega)]
  omega

/-- What the state of a running task records after the executions `pre`. -/
structure Tracks (minInterval maxInterval : Int) (pre : List (Option ε)) (t : ExpBackoff) : Prop where
  min_eq : t.MinInterval = minInterval
  max_eq : t.MaxInterval = maxInterval
  hasOnError : t.hasOnError = true
  running : t.running = true
  failed : t.failed = decide (0 < failStreak pre)
  interval : t.interval = backoffInterval minInterval maxInterval (lastFailStreak pre)

/-- The state `OnError` builds after a failure: failed, with the interval of a streak one longer.
Which branch it takes is decided by the failure before. -/
theorem onError_tracks (hmin : 0 < minInterval) (hle : minInterval ≤ maxInterval)
    (hmax : 2 * maxInterval < 2 ^ 63) {pre : List (Option ε)} {t : ExpBackoff}
    (ht : Tracks minInterval maxInterval pre t) (e : ε) :
    Tracks minInterval maxInterval (pre ++ [some e])
      (if t.failed then { t with interval := min (wrapInt64 (t.interval * 2)) t.MaxInterval }
        else { t with failed := true, interval := t.MinInterval }) := by
  by_cases hf : t.failed = true
  · -- a streak goes on: the interval doubles, up to `MaxInterval`
    have hpos : 0 < failStreak pre := by simpa [ht.failed] using hf
    obtain ⟨j, hj⟩ : ∃ j, failStreak pre = j + 1 := ⟨failStreak pre - 1, by omega⟩
    rw [if_pos hf]
    refine ⟨ht.min_eq, ht.max_eq, ht.hasOnError, ht.running, ?_, ?_⟩
    · rw [failStreak_concat_some]
      exact hf.trans (decide_eq_true (Nat.succ_pos _)).symm
    · dsimp only
      rw [ht.interval, ht.max_eq, lastFailStreak_of_failStreak_pos hpos, hj,
        lastFailStreak_concat_some, hj, backoffInterval_double hmin hle hmax]
  · -- a streak starts: the interval is `MinInterval`
    have hzero : failStreak pre = 0 := by simpa [ht.failed] using hf
    rw [if_neg hf]
    refine ⟨ht.min_eq, ht.max_eq, ht.hasOnError, ht.running, ?_, ?_⟩
    · rw [failStreak_concat_some]
      exact (decide_eq_true (Nat.succ_pos _)).symm
    · dsimp only
      rw [lastFailStreak_concat_some, ht.min_eq, hzero, backoffInterval, if_neg Nat.one_ne_zero,
        Nat.sub_self, pow_zero, Int.mul_one, min_eq_left hle]

/-- One execution keeps the task running and sets its timer for the new `interval`. -/
theorem checkedExecute_tracks (hmin : 0 < minInterval) (hle : minInterval ≤ maxInterval)
    (hmax : 2 * maxInterval < 2 ^ 63) {pre : List (Option ε)} {t : ExpBackoff}
    (ht : Tracks minInterval maxInterval pre t) (err : Option ε) :
    ∃ t', t.checkedExecute err = (t', none, some t'.interval) ∧
      Tracks minInterval maxInterval (pre ++ [err]) t' := by
  have hrun : (!t.running) = false := by rw [ht.running]; rfl
  cases err with
  | none =>
    refine ⟨{ t with failed := false }, ?_, ?_⟩
    · rw [ExpBackoff.checkedExecute, if_neg (by rw [hrun]; exact Bool.false_ne_true),
        ExpBackoff.scheduleNext, if_neg (by rw [hrun]; exact Bool.false_ne_true)]
    · exact ⟨ht.min_eq, ht.max_eq, ht.hasOnError, ht.running, by simp,
        by rw [lastFailStreak_concat_none]; exact ht.interval⟩
  | some e =>
    have ht' := onError_tracks hmin hle hmax ht e
    refine ⟨_, ?_, ht'⟩
    rw [ExpBackoff.checkedExecute, if_neg (by rw [hrun]; exact Bool.false_ne_true)]
    dsimp only
    -- the new state is still running, so its timer is set
    rw [if_pos ht.hasOnError, ExpBackoff.scheduleNext, ht'.running]
    rfl

/-- The timers of a run from a tracked state: the `k`-th delay is set by the last streak of
failures up to the `k`-th execution. The induction is on the executions, the prefix growing. -/
theorem runTimers_tracks (hmin : 0 < minInterval) (hle : minInterval ≤ maxInterval)
    (hmax : 2 * maxInterval < 2 ^ 63) (errs : List (Option ε)) :
    ∀ (pre : List (Option ε)) (t : ExpBackoff), Tracks minInterval maxInterval pre t →
      t.runTimers errs = (List.range errs.length).map fun k =>
        backoffInterval minInterval maxInterval (lastFailStreak (pre ++ errs.take (k + 1))) := by
  induction errs with
  | nil =>
    intro pre t _
    rfl
  | cons err errs ih =>
    intro pre t ht
    obtain ⟨t', hexec, ht'⟩ := checkedExecute_tracks hmin hle hmax ht err
    have htail := ih (pre ++ [err]) t' ht'
    rw [ExpBackoff.runTimers, hexec]
    dsimp only
    rw [htail, List.length_cons, List.range_succ_eq_map, List.map_cons, List.map_map,
      ht'.interval]
    congr 1
    apply List.map_congr_left
    intro k _
    rw [Function.comp_apply, List.take_succ_cons, List.append_assoc, List.singleton_append]

theorem delays_eq (hmin : 0 < minInterval) (hle : minInterval ≤ maxInterval)
    (hmax : 2 * maxInterval < 2 ^ 63) (errs : List (Option ε)) :
    (ExpBackoff.new minInterval maxInterval true).delays errs =
      (List.range errs.length).map fun k =>
        backoffInterval minInterval maxInterval (lastFailStreak (errs.take (k + 1))) := by
  have hstart : Tracks minInterval maxInterval ([] : List (Option ε))
      { ExpBackoff.new minInterval maxInterval true with
        interval := maxInterval, running := true } :=
    ⟨rfl, rfl, rfl, rfl, rfl, rfl⟩
  have hrun := runTimers_tracks hmin hle hmax errs [] _ hstart
  simp only [List.nil_append] at hrun
  rw [delays_eq_runTimers _ rfl]
  exact hrun

end Schedule

/-- A failure and then a success, with `MinInterval` one second and `MaxInterval` two: both runs
come one second later, where the documented schedule has the second after `MaxInterval`. -/
theorem delays_eq_one_second :
    (0 : Int) < 1000000000 ∧ (1000000000 : Int) ≤ 2000000000 ∧ 2 * (2000000000 : Int) < 2 ^ 63 ∧
      (ExpBackoff.new 1000000000 2000000000 true).delays [some (), none] =
        [1000000000, 1000000000] ∧
      documentedDelays 1000000000 2000000000 [some (), none] = [1000000000, 2000000000] := by
  refine ⟨by decide, by decide, by decide, ?_, by decide⟩
  rw [delays_eq (by decide) (by decide) (by decide)]
  decide

end Snowflake.Task
