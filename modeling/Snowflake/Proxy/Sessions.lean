import Mathlib
import Snowflake.Lib.Transition
/-
`proxy/lib/snowflake.go`: how the proxy counts the clients it serves. One global `uint64`,
`tokens`, is incremented by the poll loop of `Start` before each `runSession`, and decremented
by the function `runSession` defers unless `connectedToClient` is set by then; each
`datachannelHandler` call increments it on entry and decrements it when it returns.
`pollOffer` sends `(tokens / 8) * 8` to the broker as `Clients`.

## The model

The goroutines that touch `tokens`, as a transition system whose steps are their atomic
steps: the poll loop of `Start`, which runs `runSession` in place; the goroutine that each
`runSession` with a poll response spawns, through `makePeerConnectionFromOffer`,
`broker.sendAnswer` and the `select` on `dataChan` and the timeout; the `OnDataChannel`
callback, which closes `dataChan` and starts a `datachannelHandler` call; and those calls.
Each `atomic.AddUint64` is one step, and so is each read and each write of
`connectedToClient`, which the source shares between two goroutines without synchronisation.

## What is proved

`tokens_eq_tally`: in every reachable state, `tokens` is, modulo `2^64`, the number of tokens
taken and not given back: the one `Start` holds while it is in `runSession`, one for each
`runSession` whose deferred function found `connectedToClient` already set, and one for each
`datachannelHandler` call between its increment and its decrement. `token_kept` is a run in
which the session goroutine connects before the deferred function reads the flag: that token
is never given back, and with the loop idle and the one handler returned, `tokens` is `1`.
`capacity_exceeded`: the loop reads no bound, so for every bound there is a run with more
`datachannelHandler` calls in progress.
-/

set_option autoImplicit false

namespace Snowflake.Proxy

open Transition

/-! ## The model -/

/-- `atomic.AddUint64(&x, delta)` on a `uint64`. -/
def addUint64 (x delta : Nat) : Nat := (x + delta) % 2 ^ 64

/-- `^uint64(0)`: adding it takes one away. -/
def uint64Max : Nat := 2 ^ 64 - 1

/-- Where the poll loop of `Start` is. -/
inductive LoopPc where
  /-- at the top of the loop: `atomic.AddUint64(&tokens, 1)` next, when the relay is
  reachable -/
  | polling
  /-- in `runSession`, after the increment: `pollOffer` next -/
  | polled
  /-- `runSession` is returning: its deferred function next, which reads the
  `connectedToClient` shared with the session goroutine it spawned, if it spawned one -/
  | deferring (session : Option Nat)
  deriving DecidableEq, Repr

/-- Where a goroutine that `runSession` spawned is. -/
inductive SessionPc where
  /-- deserializing the offer, checking the relay URL, in `makePeerConnectionFromOffer` -/
  | offered
  /-- the peer connection is made: in `broker.sendAnswer` -/
  | answering
  /-- in the `select` on `dataChan` and `time.After(dataChannelTimeout)` -/
  | waiting
  | done
  deriving DecidableEq, Repr

/-- A session goroutine, with what it shares: whether `OnDataChannel` has closed its
`dataChan`, and the `connectedToClient` of the `runSession` that spawned it. -/
structure Session where
  pc : SessionPc
  dataChanClosed : Bool
  connectedToClient : Bool
  deriving DecidableEq, Repr

/-- Where a `datachannelHandler` call is. -/
inductive HandlerPc where
  /-- started by `go handler(conn, remoteIP)`: `atomic.AddUint64(&tokens, 1)` next -/
  | called
  /-- between its increment and its deferred decrement -/
  | serving
  | returned
  deriving DecidableEq, Repr

/-- The proxy's goroutines and the counter they share. -/
structure ProxyState where
  tokens : Nat
  loop : LoopPc
  sessions : List Session
  handlers : List HandlerPc
  /-- the `Clients` value of each `pollOffer` -/
  reported : List Nat
  /-- ghost: the tokens `Start` took for the `runSession` calls whose deferred function found
  `connectedToClient` set, and which nothing gives back -/
  kept : Nat

/-- One atomic step of a goroutine. -/
inductive Action where
  /-- `atomic.AddUint64(&tokens, 1)` in the poll loop, then `runSession` -/
  | poll
  /-- `pollOffer` returns, with a response (`true`) or an error; on a response `runSession`
  spawns its goroutine -/
  | pollOffer (response : Bool)
  /-- the function `runSession` defers -/
  | runSessionDeferred
  /-- session goroutine `i`: `makePeerConnectionFromOffer` returns the peer connection -/
  | makePeerConnection (i : Nat)
  /-- session goroutine `i` returns early: no offer, a bad offer or relay URL, or an error
  making the peer connection or sending the answer -/
  | sessionFailed (i : Nat)
  /-- session goroutine `i`: `broker.sendAnswer` returns -/
  | sendAnswer (i : Nat)
  /-- the `OnDataChannel` callback of session `i`: `close(dataChan)`, `go handler(..)` -/
  | onDataChannel (i : Nat)
  /-- the `select` of session `i` receives from `dataChan`: `connectedToClient = true` -/
  | dataChanReceived (i : Nat)
  /-- the `select` of session `i` times out: `pc.Close()` -/
  | dataChannelTimeout (i : Nat)
  /-- `atomic.AddUint64(&tokens, 1)` of `datachannelHandler` call `j` -/
  | handlerEnter (j : Nat)
  /-- the deferred `atomic.AddUint64(&tokens, ^uint64(0))` of call `j` -/
  | handlerExit (j : Nat)

def ProxyState.setSession (s : ProxyState) (i : Nat) (se : Session) : ProxyState :=
  { s with sessions := s.sessions.set i se }

/-- A session goroutine moves on from `src` to `dst`. -/
def ProxyState.moveSession (s : ProxyState) (i : Nat) (src dst : SessionPc) :
    Option ProxyState :=
  match s.sessions[i]? with
  | some se => if se.pc = src then some (s.setSession i { se with pc := dst }) else none
  | none => none

/-- The atomic steps, as the source makes them; `none` when no goroutine is there. -/
def ProxyState.step (s : ProxyState) : Action → Option ProxyState
  | .poll =>
    match s.loop with
    | .polling => some { s with tokens := addUint64 s.tokens 1, loop := .polled }
    | _ => none
  | .pollOffer response =>
    match s.loop with
    | .polled =>
      -- `numClients := (tokens / 8) * 8` is sent whatever the broker answers
      if response then
        some { s with loop := .deferring (some s.sessions.length),
                      sessions := s.sessions ++ [⟨.offered, false, false⟩],
                      reported := s.reported ++ [s.tokens / 8 * 8] }
      else some { s with loop := .deferring none, reported := s.reported ++ [s.tokens / 8 * 8] }
    | _ => none
  | .runSessionDeferred =>
    match s.loop with
    | .deferring none =>
      some { s with tokens := addUint64 s.tokens uint64Max, loop := .polling }
    | .deferring (some i) =>
      match s.sessions[i]? with
      | some se =>
        -- "Otherwise we'll `tokens.ret()` when the connection finishes."
        if se.connectedToClient then some { s with loop := .polling, kept := s.kept + 1 }
        else some { s with tokens := addUint64 s.tokens uint64Max, loop := .polling }
      | none => none
    | _ => none
  | .makePeerConnection i => s.moveSession i .offered .answering
  | .sessionFailed i =>
    match s.sessions[i]? with
    | some se =>
      if se.pc = .offered ∨ se.pc = .answering then some (s.setSession i { se with pc := .done })
      else none
    | none => none
  | .sendAnswer i => s.moveSession i .answering .waiting
  | .onDataChannel i =>
    match s.sessions[i]? with
    | some se =>
      if (se.pc = .answering ∨ se.pc = .waiting) ∧ se.dataChanClosed = false then
        some { s.setSession i { se with dataChanClosed := true } with
          handlers := s.handlers ++ [.called] }
      else none
    | none => none
  | .dataChanReceived i =>
    match s.sessions[i]? with
    | some se =>
      if se.pc = .waiting ∧ se.dataChanClosed = true then
        some (s.setSession i { se with pc := .done, connectedToClient := true })
      else none
    | none => none
  | .dataChannelTimeout i => s.moveSession i .waiting .done
  | .handlerEnter j =>
    match s.handlers[j]? with
    | some .called =>
      some { s with tokens := addUint64 s.tokens 1, handlers := s.handlers.set j .serving }
    | _ => none
  | .handlerExit j =>
    match s.handlers[j]? with
    | some .serving =>
      some { s with tokens := addUint64 s.tokens uint64Max,
                    handlers := s.handlers.set j .returned }
    | _ => none

/-- `Start` after `tokens = 0`: the loop at its top, and no goroutine spawned. -/
def proxyInit : ProxyState := ⟨0, .polling, [], [], [], 0⟩

/-- The runs of the proxy from `Start`, in any interleaving. -/
def proxySystem : System ProxyState where
  init s := s = proxyInit
  step s t := ∃ a, s.step a = some t

theorem proxySystem_step (s : ProxyState) (a : Action) (t : ProxyState)
    (h : s.step a = some t) : proxySystem.step s t := ⟨a, h⟩

/-! ## The count -/

/-- The token the poll loop holds from its increment to the deferred function of
`runSession`. -/
def ProxyState.holding (s : ProxyState) : Nat :=
  match s.loop with
  | .polling => 0
  | _ => 1

/-- The `datachannelHandler` calls between their increment and their decrement. -/
def ProxyState.serving (s : ProxyState) : Nat := s.handlers.count .serving

/-- The tokens taken and not given back. -/
def ProxyState.tally (s : ProxyState) : Nat := s.holding + s.kept + s.serving

theorem addUint64_one (t : Nat) : addUint64 (t % 2 ^ 64) 1 = (t + 1) % 2 ^ 64 := by
  unfold addUint64
  rw [Nat.mod_add_mod]

/-- Adding `^uint64(0)` to a count that is not zero takes one away. -/
theorem addUint64_uint64Max {t : Nat} (ht : 1 ≤ t) :
    addUint64 (t % 2 ^ 64) uint64Max = (t - 1) % 2 ^ 64 := by
  unfold addUint64 uint64Max
  rw [Nat.mod_add_mod]
  have ht' : t + (2 ^ 64 - 1) = t - 1 + 2 ^ 64 := by omega
  rw [ht', Nat.add_mod_right]

theorem count_serving_append_called (hs : List HandlerPc) :
    (hs ++ [HandlerPc.called]).count HandlerPc.serving = hs.count HandlerPc.serving := by
  rw [List.count_append, List.count_singleton]
  rfl

theorem count_serving_set {hs : List HandlerPc} {j : Nat} {h₀ : HandlerPc}
    (hj : hs[j]? = some h₀) (h₁ : HandlerPc) :
    (hs.set j h₁).count .serving + (if h₀ = .serving then 1 else 0) =
      hs.count .serving + (if h₁ = .serving then 1 else 0) := by
  obtain ⟨hlt, hget⟩ := List.getElem?_eq_some_iff.mp hj
  have hle : (if h₀ = .serving then 1 else 0) ≤ hs.count .serving := by
    by_cases h : h₀ = .serving
    · rw [if_pos h, Nat.one_le_iff_ne_zero, ← Nat.pos_iff_ne_zero, List.count_pos_iff,
        ← h, ← hget]
      exact List.getElem_mem hlt
    · rw [if_neg h]
      exact Nat.zero_le _
  rw [List.count_set hlt, hget]
  simp only [beq_iff_eq]
  omega

/-! ## Every step keeps the count -/

section Count

variable {s t : ProxyState}

-- The counts below are stated over `handlers` itself: comparing `serving` of a state built
-- by a step with `serving` of the old one would make Lean unfold `addUint64`.
theorem tally_of_polling (h : s.loop = .polling) :
    s.tally = s.kept + s.handlers.count .serving := by
  unfold ProxyState.tally ProxyState.holding ProxyState.serving
  rw [h, Nat.zero_add]

theorem tally_of_running {f : LoopPc} (h : s.loop = f) (hf : f ≠ .polling) :
    s.tally = 1 + s.kept + s.handlers.count .serving := by
  unfold ProxyState.tally ProxyState.holding
  split
  · exact absurd (h.symm.trans ‹s.loop = .polling›) hf
  · rfl

/-- A session goroutine's steps touch only the sessions. -/
theorem tally_setSession (i : Nat) (se : Session) : (s.setSession i se).tally = s.tally := rfl

theorem ProxyState.moveSession_eq {i : Nat} {src dst : SessionPc}
    (h : s.moveSession i src dst = some t) : ∃ se, t = s.setSession i se := by
  unfold ProxyState.moveSession at h
  split at h
  · split at h
    · exact ⟨_, (Option.some.inj h).symm⟩
    · cases h
  · cases h

/-- What every step keeps: `tokens` is the count of the tokens taken and not given back,
modulo `2^64`. The increments take one, the decrements give one back, and the deferred
function of `runSession` that finds `connectedToClient` set keeps the loop's. -/
theorem ProxyState.step_tokens (hok : s.tokens = s.tally % 2 ^ 64) {a : Action}
    (h : s.step a = some t) : t.tokens = t.tally % 2 ^ 64 := by
  cases a with
  | poll =>
    simp only [ProxyState.step] at h
    split at h
    · rename_i hl
      rw [← Option.some.inj h]
      show addUint64 s.tokens 1 = (1 + s.kept + s.handlers.count .serving) % 2 ^ 64
      rw [hok, tally_of_polling hl, addUint64_one]
      congr 1
      omega
    · cases h
  | pollOffer response =>
    simp only [ProxyState.step] at h
    split at h
    · rename_i hl
      split at h
      · rw [← Option.some.inj h]
        show s.tokens = (1 + s.kept + s.handlers.count .serving) % 2 ^ 64
        rw [← tally_of_running hl nofun]
        exact hok
      · rw [← Option.some.inj h]
        show s.tokens = (1 + s.kept + s.handlers.count .serving) % 2 ^ 64
        rw [← tally_of_running hl nofun]
        exact hok
    · cases h
  | runSessionDeferred =>
    simp only [ProxyState.step] at h
    -- the loop gives its token back, unless the session goroutine has already connected
    have hdec : ∀ f, s.loop = .deferring f →
        addUint64 s.tokens uint64Max = (0 + s.kept + s.handlers.count .serving) % 2 ^ 64 := by
      intro f hl
      have hrun := tally_of_running hl nofun
      rw [hok, addUint64_uint64Max (by omega), hrun]
      congr 1
      omega
    split at h
    · rename_i hl
      rw [← Option.some.inj h]
      exact hdec none hl
    · rename_i i hl
      split at h
      · split at h
        · rw [← Option.some.inj h]
          show s.tokens = (0 + (s.kept + 1) + s.handlers.count .serving) % 2 ^ 64
          rw [hok, tally_of_running hl nofun]
          congr 1
          omega
        · rw [← Option.some.inj h]
          exact hdec (some i) hl
      · cases h
    · cases h
  | makePeerConnection i =>
    obtain ⟨se, rfl⟩ := ProxyState.moveSession_eq h
    exact hok
  | sessionFailed i =>
    simp only [ProxyState.step] at h
    split at h
    · split at h
      · rw [← Option.some.inj h]
        exact hok
      · cases h
    · cases h
  | sendAnswer i =>
    obtain ⟨se, rfl⟩ := ProxyState.moveSession_eq h
    exact hok
  | onDataChannel i =>
    simp only [ProxyState.step] at h
    split at h
    · split at h
      · rw [← Option.some.inj h]
        show s.tokens =
          (s.holding + s.kept + (s.handlers ++ [HandlerPc.called]).count .serving) % 2 ^ 64
        rw [count_serving_append_called]
        exact hok
      · cases h
    · cases h
  | dataChanReceived i =>
    simp only [ProxyState.step] at h
    split at h
    · split at h
      · rw [← Option.some.inj h]
        exact hok
      · cases h
    · cases h
  | dataChannelTimeout i =>
    obtain ⟨se, rfl⟩ := ProxyState.moveSession_eq h
    exact hok
  | handlerEnter j =>
    simp only [ProxyState.step] at h
    split at h
    · rename_i hj
      rw [← Option.some.inj h]
      have hcount := count_serving_set hj .serving
      rw [if_neg nofun, if_pos rfl] at hcount
      unfold ProxyState.tally ProxyState.holding ProxyState.serving at hok ⊢
      dsimp only
      rw [hok, addUint64_one]
      congr 1
      omega
    · cases h
  | handlerExit j =>
    simp only [ProxyState.step] at h
    split at h
    · rename_i hj
      rw [← Option.some.inj h]
      have hcount := count_serving_set hj .returned
      rw [if_pos rfl, if_neg nofun] at hcount
      unfold ProxyState.tally ProxyState.holding ProxyState.serving at hok ⊢
      dsimp only
      rw [hok, addUint64_uint64Max (by omega)]
      congr 1
      omega
    · cases h

end Count

theorem tokensOk_inductive : proxySystem.Inductive fun s => s.tokens = s.tally % 2 ^ 64 where
  init s h := by
    rw [h]
    rfl
  step _ _ hstep hok := by
    obtain ⟨a, ha⟩ := hstep
    exact ProxyState.step_tokens hok ha

/-- Over every run, `tokens` counts modulo `2^64` the tokens taken and not given back: the
loop's while it is in `runSession`, the ones kept by deferred functions that found
`connectedToClient` set, and one for each `datachannelHandler` call in progress. -/
theorem tokens_eq_tally {s : ProxyState} (hs : proxySystem.Reachable s) :
    s.tokens = s.tally % 2 ^ 64 :=
  tokensOk_inductive.reachable hs

theorem tokens_eq_tally_one_poll :
    ∃ s, stepAll ProxyState.step proxyInit [Action.poll] = some s ∧ proxySystem.Reachable s ∧
      s.tokens = s.tally % 2 ^ 64 := by
  have hs := (System.Reachable.of_init rfl : proxySystem.Reachable proxyInit).of_stepAll
    proxySystem_step [.poll] rfl
  exact ⟨_, rfl, hs, tokens_eq_tally hs⟩

/-! ## A token that is never given back -/

/-- The session goroutine gets its data channel and sets `connectedToClient` before the
function `runSession` defers reads it; then the `datachannelHandler` call runs and returns. -/
def keptRun : List Action :=
  [.poll, .pollOffer true, .makePeerConnection 0, .sendAnswer 0, .onDataChannel 0,
    .dataChanReceived 0, .runSessionDeferred, .handlerEnter 0, .handlerExit 0]

theorem token_kept :
    ∃ s, stepAll ProxyState.step proxyInit keptRun = some s ∧ proxySystem.Reachable s ∧
      s.loop = .polling ∧ s.handlers = [.returned] ∧ s.tokens = 1 := by
  have hs := (System.Reachable.of_init rfl : proxySystem.Reachable proxyInit).of_stepAll
    proxySystem_step keptRun rfl
  exact ⟨_, rfl, hs, rfl, rfl, rfl⟩

/-! ## No bound on the clients served -/

/-- One more client: a poll with an offer, the deferred function giving the loop's token
back, then the session's peer connection, answer and data channel, and the handler's
increment. -/
def serveRun (i j : Nat) : List Action :=
  [.poll, .pollOffer true, .runSessionDeferred, .makePeerConnection i, .sendAnswer i,
    .onDataChannel i, .handlerEnter j]

theorem set_concat_length {α : Type} (l : List α) (x y : α) :
    (l ++ [x]).set l.length y = l ++ [y] := by
  rw [List.set_append_right _ _ le_rfl, Nat.sub_self]
  rfl

theorem stepAll_serveRun {s : ProxyState} (hs : s.loop = .polling) :
    ∃ t, stepAll ProxyState.step s (serveRun s.sessions.length s.handlers.length) = some t ∧
      t.loop = .polling ∧ t.serving = s.serving + 1 := by
  -- each step finds the goroutine it moves at the end of its list
  simp only [serveRun, stepAll, ProxyState.step, hs, ProxyState.moveSession,
    ProxyState.setSession, List.getElem?_concat_length, set_concat_length, Option.bind_some,
    ↓reduceIte, Bool.false_eq_true, reduceCtorEq, or_true, and_self]
  refine ⟨_, rfl, rfl, ?_⟩
  show (s.handlers ++ [HandlerPc.serving]).count .serving = s.handlers.count .serving + 1
  rw [List.count_append, List.count_singleton_self]

/-- For every number of clients, a run where the loop is back at its top with that many
`datachannelHandler` calls in progress. -/
theorem exists_serving (n : Nat) :
    ∃ s, proxySystem.Reachable s ∧ s.loop = .polling ∧ s.serving = n := by
  induction n with
  | zero => exact ⟨proxyInit, System.Reachable.of_init rfl, rfl, rfl⟩
  | succ n ih =>
    obtain ⟨s, hs, hl, hn⟩ := ih
    obtain ⟨t, ht, htl, htn⟩ := stepAll_serveRun hl
    refine ⟨t, hs.of_stepAll proxySystem_step _ ht, htl, ?_⟩
    rw [htn, hn]

/-- Nothing in the poll loop reads a bound: for every `c`, some run has more than `c`
`datachannelHandler` calls in progress. -/
theorem capacity_exceeded (c : Nat) : ∃ s, proxySystem.Reachable s ∧ c < s.serving := by
  obtain ⟨s, hs, -, hn⟩ := exists_serving (c + 1)
  refine ⟨s, hs, ?_⟩
  rw [hn]
  exact Nat.lt_succ_self c

end Snowflake.Proxy
