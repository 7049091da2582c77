import Mathlib
import Snowflake.Lib.Transition
import Snowflake.Lib.Update
import Snowflake.Broker.ClientOffers
/-
The broker's matching of client offers to proxy polls, as a transition system whose steps
are the goroutines' synchronisation points (`broker/broker.go`, `broker/ipc.go`,
`broker/snowflake-heap.go`).

The parties are the `ProxyPolls` handlers inside `RequestOffer`, the `Broker` loop, the
waiter goroutine the loop starts for each snowflake, the `ClientOffers` handlers and the
`ProxyAnswers` handlers. A step is one send and receive on an unbuffered channel taken
together, one section under the pool lock or the `snowflakeLock`, or a timeout firing.
Handlers arrive at any time with any parameters; timers fire at any time. The two pools are
lists of snowflakes, and `Pop` takes one whose `clients` is least, which is what the heap
gives. A handler that fails before it reaches the broker's state is not a party.

Each party has what it was started with, which no step changes once it is there, and a
program counter, which the steps move. The last section says once, for each kind of
party, how a step can move it (`Step.clientPc_move` and its siblings); the safety invariant
(`Snowflake.Broker.MatchingSafety`) and the stuck sends (`Snowflake.Broker.MatchingStuck`)
are proved over this model.
-/

set_option autoImplicit false
-- `Snowflake` is the Go type's name inside the namespace `Snowflake.Broker`
set_option linter.dupNamespace false

namespace Snowflake.Broker

open Snowflake.Messages

/-- Indices of the parties and of the snowflakes. -/
abbrev PollId := Nat
abbrev SnowflakeId := Nat
abbrev ClientId := Nat
abbrev AnswerId := Nat

/-! ## Parties -/

/-- `ProxyPoll`: the decoded poll request. -/
structure ProxyPoll where
  id : List UInt8
  proxyType : List UInt8
  natType : List UInt8
  clients : Nat
  deriving DecidableEq, Repr

/-- Where a `ProxyPolls` handler is inside `RequestOffer`. -/
inductive PollPc where
  /-- `ctx.proxyPolls <- poll` -/
  | send
  /-- `offer := <-poll.offerChannel` -/
  | wait
  /-- returned: a client's offer, or `nil` from the closed channel -/
  | done (offer : Option ClientId)
  deriving DecidableEq, Repr

/-- `Snowflake`: what `NewSnowflake` copies from the poll, and the poll that its waiter
goroutine captured as `request`. -/
structure Snowflake where
  id : List UInt8
  proxyType : List UInt8
  natType : List UInt8
  clients : Nat
  request : PollId
  deriving DecidableEq, Repr

/-- Where the waiter goroutine of a snowflake is. -/
inductive WaiterPc where
  /-- not started: the `Broker` loop is still registering the snowflake -/
  | unstarted
  /-- the `select` on `snowflake.offerChannel` and `time.After` -/
  | select
  /-- `request.offerChannel <- offer`, with the offer of a client -/
  | forward (c : ClientId)
  /-- returned after forwarding the offer -/
  | forwarded (c : ClientId)
  /-- after the timeout: `pool.Remove(snowflake)` -/
  | remove
  /-- `delete(ctx.idToSnowflake, snowflake.id)` -/
  | delete
  /-- `close(request.offerChannel)` -/
  | close
  /-- returned after the timeout -/
  | closed
  deriving DecidableEq, Repr

/-- The waiter took the `time.After` branch of its `select`. -/
def WaiterPc.timedOut : WaiterPc → Bool
  | .remove | .delete | .close | .closed => true
  | _ => false

/-- The two pools of `BrokerContext`. -/
inductive PoolKind where
  | unrestricted
  | restricted
  deriving DecidableEq, Repr

/-- `GetPool`: the pool for a proxy's NAT type. -/
def getPool (natType : List UInt8) : PoolKind :=
  if natType = NATUnrestricted then .unrestricted else .restricted

theorem getPool_eq_unrestricted {natType : List UInt8} :
    getPool natType = .unrestricted ↔ natType = NATUnrestricted := by
  unfold getPool
  split_ifs with h <;> simp [h]

/-- What a `ClientOffers` handler ends with: no snowflake, the answer that a `ProxyAnswers`
handler sent, or the client's context done. -/
inductive ClientResult where
  | noProxies
  | answer (a : List UInt8) (h : AnswerId)
  | timedOut
  deriving DecidableEq, Repr

/-- Where a `ClientOffers` handler is, from `matchSnowflake` on. -/
inductive ClientPc where
  /-- `Pop()` on one of the pools, inside `matchSnowflake` -/
  | pop (k : PoolKind)
  /-- `snowflake.offerChannel <- offer` -/
  | send (s : SnowflakeId)
  /-- the `select` on `snowflake.answerChannel` and `arg.Context.Done()` -/
  | wait (s : SnowflakeId)
  /-- `delete(i.ctx.idToSnowflake, snowflake.id)` -/
  | delete (s : SnowflakeId) (r : ClientResult)
  /-- returned -/
  | done (r : ClientResult)
  deriving DecidableEq, Repr

/-- The snowflake a handler at this point holds. -/
def ClientPc.snowflake? : ClientPc → Option SnowflakeId
  | .send s | .wait s | .delete s _ => some s
  | _ => none

/-- The result a handler at this point has. -/
def ClientPc.result? : ClientPc → Option ClientResult
  | .delete _ r | .done r => some r
  | _ => none

/-- `ProxyAnswerRequest`: the proxy's session id and its answer. -/
structure AnswerRequest where
  sid : List UInt8
  answer : List UInt8
  deriving DecidableEq, Repr

/-- Where a `ProxyAnswers` handler is. -/
inductive AnswerPc where
  /-- `i.ctx.idToSnowflake[req.Sid]` -/
  | lookup
  /-- `snowflake.answerChannel <- req.Answer` -/
  | send (s : SnowflakeId)
  /-- returned, with `success` -/
  | done (success : Bool)
  deriving DecidableEq, Repr

/-- Where the `Broker` loop is. -/
inductive BrokerPc where
  /-- `range ctx.proxyPolls` -/
  | receive
  /-- `pool.Push(snowflake)` for the poll received -/
  | push (r : PollId)
  /-- `ctx.idToSnowflake[snowflake.id] = snowflake` -/
  | register (s : SnowflakeId)
  /-- `go func(request)` -/
  | spawn (s : SnowflakeId)
  deriving DecidableEq, Repr

/-- The broker's state: the parties, the two pools, `idToSnowflake`, and the history of the
offers delivered to polls. `popped` is the snowflake `matchSnowflake` returned to a client. -/
structure State where
  polls : PollId → Option ProxyPoll
  pollPc : PollId → Option PollPc
  snowflakes : SnowflakeId → Option Snowflake
  waiter : SnowflakeId → Option WaiterPc
  pools : PoolKind → List SnowflakeId
  idToSnowflake : List UInt8 → Option SnowflakeId
  clients : ClientId → Option ClientOffer
  popped : ClientId → Option SnowflakeId
  clientPc : ClientId → Option ClientPc
  answers : AnswerId → Option AnswerRequest
  answerPc : AnswerId → Option AnswerPc
  broker : BrokerPc
  deliveries : List (ClientId × PollId)

/-- `NewBrokerContext`: empty pools and map, and no party yet. -/
def State.init : State where
  polls _ := none
  pollPc _ := none
  snowflakes _ := none
  waiter _ := none
  pools _ := []
  idToSnowflake _ := none
  clients _ := none
  popped _ := none
  clientPc _ := none
  answers _ := none
  answerPc _ := none
  broker := .receive
  deliveries := []

/-- The `clients` of a snowflake, by which the heap orders. -/
def State.clientsOf (st : State) (s : SnowflakeId) : Nat :=
  ((st.snowflakes s).map (·.clients)).getD 0

/-- What `SnowflakePool.Pop` may return from a pool: a snowflake with the least `clients`. -/
def State.PopOf (st : State) (k : PoolKind) (s : SnowflakeId) : Prop :=
  s ∈ st.pools k ∧ ∀ s' ∈ st.pools k, st.clientsOf s ≤ st.clientsOf s'

/-! ## Steps

What each step does to the state; `Step` below says when it may be taken. -/

namespace State

open Function

variable (st : State)

def pollArrive (r : PollId) (P : ProxyPoll) : State :=
  { st with polls := update st.polls r (some P), pollPc := update st.pollPc r (some .send) }

def brokerReceive (r : PollId) : State :=
  { st with pollPc := update st.pollPc r (some .wait), broker := .push r }

/-- `NewSnowflake(request.id, request.proxyType, request.natType, request.clients)` and
`pool.Push(snowflake)` on `GetPool(request)`. -/
def brokerPush (r : PollId) (P : ProxyPoll) (s : SnowflakeId) : State :=
  { st with
    snowflakes := update st.snowflakes s (some ⟨P.id, P.proxyType, P.natType, P.clients, r⟩)
    waiter := update st.waiter s (some .unstarted)
    pools := update st.pools (getPool P.natType) (st.pools (getPool P.natType) ++ [s])
    broker := .register s }

def brokerRegister (s : SnowflakeId) (S : Snowflake) : State :=
  { st with idToSnowflake := update st.idToSnowflake S.id (some s), broker := .spawn s }

def brokerSpawn (s : SnowflakeId) : State :=
  { st with waiter := update st.waiter s (some .select), broker := .receive }

def waiterOffer (s : SnowflakeId) (c : ClientId) : State :=
  { st with
    waiter := update st.waiter s (some (.forward c))
    clientPc := update st.clientPc c (some (.wait s)) }

def waiterForward (s : SnowflakeId) (S : Snowflake) (c : ClientId) : State :=
  { st with
    waiter := update st.waiter s (some (.forwarded c))
    pollPc := update st.pollPc S.request (some (.done (some c)))
    deliveries := st.deliveries ++ [(c, S.request)] }

def waiterTimeout (s : SnowflakeId) : State :=
  { st with waiter := update st.waiter s (some .remove) }

/-- `pool.Remove(snowflake)`, on the pool `GetPool(request)` gave. -/
def waiterRemove (s : SnowflakeId) (S : Snowflake) : State :=
  { st with
    waiter := update st.waiter s (some .delete)
    pools := update st.pools (getPool S.natType) ((st.pools (getPool S.natType)).erase s) }

def waiterDelete (s : SnowflakeId) (S : Snowflake) : State :=
  { st with
    waiter := update st.waiter s (some .close)
    idToSnowflake := update st.idToSnowflake S.id none }

def waiterClose (s : SnowflakeId) (S : Snowflake) : State :=
  { st with
    waiter := update st.waiter s (some .closed)
    pollPc := update st.pollPc S.request (some (.done none)) }

/-- `matchSnowflake(offer.natType)`: an unrestricted client tries the restricted pool first. -/
def clientArrive (c : ClientId) (O : ClientOffer) : State :=
  { st with
    clients := update st.clients c (some O)
    popped := update st.popped c none
    clientPc := update st.clientPc c
      (some (.pop (if O.natType = NATUnrestricted then .restricted else .unrestricted))) }

def clientPop (c : ClientId) (k : PoolKind) (s : SnowflakeId) : State :=
  { st with
    pools := update st.pools k ((st.pools k).erase s)
    popped := update st.popped c (some s)
    clientPc := update st.clientPc c (some (.send s)) }

def clientRestrictedEmpty (c : ClientId) : State :=
  { st with clientPc := update st.clientPc c (some (.pop .unrestricted)) }

def clientNoProxies (c : ClientId) : State :=
  { st with clientPc := update st.clientPc c (some (.done .noProxies)) }

def clientAnswer (c : ClientId) (h : AnswerId) (A : AnswerRequest) (s : SnowflakeId) : State :=
  { st with
    clientPc := update st.clientPc c (some (.delete s (.answer A.answer h)))
    answerPc := update st.answerPc h (some (.done true)) }

def clientTimeout (c : ClientId) (s : SnowflakeId) : State :=
  { st with clientPc := update st.clientPc c (some (.delete s .timedOut)) }

def clientDelete (c : ClientId) (r : ClientResult) (S : Snowflake) : State :=
  { st with
    idToSnowflake := update st.idToSnowflake S.id none
    clientPc := update st.clientPc c (some (.done r)) }

def answerArrive (h : AnswerId) (A : AnswerRequest) : State :=
  { st with
    answers := update st.answers h (some A)
    answerPc := update st.answerPc h (some .lookup) }

def answerLookupHit (h : AnswerId) (s : SnowflakeId) : State :=
  { st with answerPc := update st.answerPc h (some (.send s)) }

def answerLookupMiss (h : AnswerId) : State :=
  { st with answerPc := update st.answerPc h (some (.done false)) }

end State

/-- One step of one party, or of two that meet on a channel. -/
inductive Step : State → State → Prop where
  /-- A `ProxyPolls` handler with a decoded request calls `RequestOffer`. -/
  | pollArrive (st : State) (r : PollId) (P : ProxyPoll) (hr : st.polls r = none) :
      Step st (st.pollArrive r P)
  /-- The `Broker` loop receives a poll from `ctx.proxyPolls`. -/
  | brokerReceive (st : State) (r : PollId) (hb : st.broker = .receive)
      (hp : st.pollPc r = some .send) :
      Step st (st.brokerReceive r)
  /-- `NewSnowflake`, then `pool.Push` on the pool `GetPool` picks. -/
  | brokerPush (st : State) (r : PollId) (P : ProxyPoll) (s : SnowflakeId)
      (hb : st.broker = .push r) (hP : st.polls r = some P) (hs : st.snowflakes s = none) :
      Step st (st.brokerPush r P s)
  /-- `ctx.idToSnowflake[snowflake.id] = snowflake`, under the lock. -/
  | brokerRegister (st : State) (s : SnowflakeId) (S : Snowflake) (hb : st.broker = .register s)
      (hS : st.snowflakes s = some S) :
      Step st (st.brokerRegister s S)
  /-- The waiter goroutine starts, and the loop goes back to `ctx.proxyPolls`. -/
  | brokerSpawn (st : State) (s : SnowflakeId) (hb : st.broker = .spawn s)
      (hw : st.waiter s = some .unstarted) :
      Step st (st.brokerSpawn s)
  /-- The waiter's `select` receives a client's offer: the client's send completes. -/
  | waiterOffer (st : State) (s : SnowflakeId) (c : ClientId) (hw : st.waiter s = some .select)
      (hc : st.clientPc c = some (.send s)) :
      Step st (st.waiterOffer s c)
  /-- The waiter hands the offer to the poll's `RequestOffer`: a delivery. -/
  | waiterForward (st : State) (s : SnowflakeId) (S : Snowflake) (c : ClientId)
      (hS : st.snowflakes s = some S) (hw : st.waiter s = some (.forward c))
      (hp : st.pollPc S.request = some .wait) :
      Step st (st.waiterForward s S c)
  /-- `time.After(time.Second * ProxyTimeout)` fires first. -/
  | waiterTimeout (st : State) (s : SnowflakeId) (hw : st.waiter s = some .select) :
      Step st (st.waiterTimeout s)
  /-- `pool.Remove(snowflake)`: a snowflake already popped is not in the heap. -/
  | waiterRemove (st : State) (s : SnowflakeId) (S : Snowflake) (hS : st.snowflakes s = some S)
      (hw : st.waiter s = some .remove) :
      Step st (st.waiterRemove s S)
  /-- `delete(ctx.idToSnowflake, snowflake.id)`, under the lock. -/
  | waiterDelete (st : State) (s : SnowflakeId) (S : Snowflake) (hS : st.snowflakes s = some S)
      (hw : st.waiter s = some .delete) :
      Step st (st.waiterDelete s S)
  /-- `close(request.offerChannel)`: the poll's receive returns `nil`. -/
  | waiterClose (st : State) (s : SnowflakeId) (S : Snowflake) (hS : st.snowflakes s = some S)
      (hw : st.waiter s = some .close) (hp : st.pollPc S.request = some .wait) :
      Step st (st.waiterClose s S)
  /-- A `ClientOffers` handler whose request passed its checks calls `matchSnowflake`. -/
  | clientArrive (st : State) (c : ClientId) (O : ClientOffer) (hc : st.clients c = none) :
      Step st (st.clientArrive c O)
  /-- `Pop` on a pool that is not empty. -/
  | clientPop (st : State) (c : ClientId) (k : PoolKind) (s : SnowflakeId)
      (hc : st.clientPc c = some (.pop k)) (hs : st.PopOf k s) :
      Step st (st.clientPop c k s)
  /-- The restricted pool was empty: `Pop` returned `nil`, try the other. -/
  | clientRestrictedEmpty (st : State) (c : ClientId)
      (hc : st.clientPc c = some (.pop .restricted)) (he : st.pools .restricted = []) :
      Step st (st.clientRestrictedEmpty c)
  /-- No snowflake: `StrNoProxies`. -/
  | clientNoProxies (st : State) (c : ClientId) (hc : st.clientPc c = some (.pop .unrestricted))
      (he : st.pools .unrestricted = []) :
      Step st (st.clientNoProxies c)
  /-- The client's `select` receives a `ProxyAnswers` handler's answer. -/
  | clientAnswer (st : State) (c : ClientId) (h : AnswerId) (A : AnswerRequest) (s : SnowflakeId)
      (hc : st.clientPc c = some (.wait s)) (hA : st.answers h = some A)
      (hh : st.answerPc h = some (.send s)) :
      Step st (st.clientAnswer c h A s)
  /-- `arg.Context.Done()` first: `StrTimedOut`. -/
  | clientTimeout (st : State) (c : ClientId) (s : SnowflakeId)
      (hc : st.clientPc c = some (.wait s)) :
      Step st (st.clientTimeout c s)
  /-- `delete(i.ctx.idToSnowflake, snowflake.id)`, under the lock, then return. -/
  | clientDelete (st : State) (c : ClientId) (s : SnowflakeId) (r : ClientResult) (S : Snowflake)
      (hc : st.clientPc c = some (.delete s r)) (hS : st.snowflakes s = some S) :
      Step st (st.clientDelete c r S)
  /-- A `ProxyAnswers` handler with a decoded, non-empty answer. -/
  | answerArrive (st : State) (h : AnswerId) (A : AnswerRequest) (hh : st.answers h = none) :
      Step st (st.answerArrive h A)
  /-- `idToSnowflake[req.Sid]` finds a snowflake. -/
  | answerLookupHit (st : State) (h : AnswerId) (A : AnswerRequest) (s : SnowflakeId)
      (hA : st.answers h = some A) (hh : st.answerPc h = some .lookup)
      (hm : st.idToSnowflake A.sid = some s) :
      Step st (st.answerLookupHit h s)
  /-- It finds none: `success` is false and nothing is sent. -/
  | answerLookupMiss (st : State) (h : AnswerId) (A : AnswerRequest) (hA : st.answers h = some A)
      (hh : st.answerPc h = some .lookup) (hm : st.idToSnowflake A.sid = none) :
      Step st (st.answerLookupMiss h)

/-- The broker as a transition system. -/
def broker : Transition.System State := ⟨(· = State.init), Step⟩

/-! ## What a step can do to one party

For each kind of party, the moves of its program counter that some step makes, with what
the step needs from the rest of the state. Every other step leaves it where it is. -/

/-- The moves of one `ClientOffers` handler. -/
inductive ClientMove (st : State) (c : ClientId) :
    Option ClientPc → Option ClientPc → Prop where
  | arrive (p : Option ClientPc) (k : PoolKind) (hc : st.clients c = none) :
      ClientMove st c p (some (.pop k))
  | pop (k : PoolKind) (s : SnowflakeId) (hs : s ∈ st.pools k) :
      ClientMove st c (some (.pop k)) (some (.send s))
  | restrictedEmpty : ClientMove st c (some (.pop .restricted)) (some (.pop .unrestricted))
  | noProxies : ClientMove st c (some (.pop .unrestricted)) (some (.done .noProxies))
  | offer (s : SnowflakeId) (hw : st.waiter s = some .select) :
      ClientMove st c (some (.send s)) (some (.wait s))
  | answer (s : SnowflakeId) (h : AnswerId) (a : List UInt8)
      (hh : st.answerPc h = some (.send s)) :
      ClientMove st c (some (.wait s)) (some (.delete s (.answer a h)))
  | timeout (s : SnowflakeId) : ClientMove st c (some (.wait s)) (some (.delete s .timedOut))
  | delete (s : SnowflakeId) (r : ClientResult) :
      ClientMove st c (some (.delete s r)) (some (.done r))

/-- The moves of one waiter goroutine. -/
inductive WaiterMove (st : State) (s : SnowflakeId) :
    Option WaiterPc → Option WaiterPc → Prop where
  | push (w : Option WaiterPc) (hs : st.snowflakes s = none) : WaiterMove st s w (some .unstarted)
  | spawn : WaiterMove st s (some .unstarted) (some .select)
  | offer (c : ClientId) (hc : st.clientPc c = some (.send s)) :
      WaiterMove st s (some .select) (some (.forward c))
  | forward (c : ClientId) : WaiterMove st s (some (.forward c)) (some (.forwarded c))
  | timeout : WaiterMove st s (some .select) (some .remove)
  | remove : WaiterMove st s (some .remove) (some .delete)
  | delete : WaiterMove st s (some .delete) (some .close)
  | close : WaiterMove st s (some .close) (some .closed)

/-- The moves of one `ProxyAnswers` handler. -/
inductive AnswerMove (st : State) (h : AnswerId) :
    Option AnswerPc → Option AnswerPc → Prop where
  | arrive (p : Option AnswerPc) (hh : st.answers h = none) : AnswerMove st h p (some .lookup)
  | hit (s : SnowflakeId) : AnswerMove st h (some .lookup) (some (.send s))
  | miss : AnswerMove st h (some .lookup) (some (.done false))
  | answer (s : SnowflakeId) (c : ClientId) (hc : st.clientPc c = some (.wait s)) :
      AnswerMove st h (some (.send s)) (some (.done true))

section Moves

open Function

variable {st st' : State}

theorem Step.clientPc_move (h : Step st st') (c : ClientId) :
    st'.clientPc c = st.clientPc c ∨ ClientMove st c (st.clientPc c) (st'.clientPc c) := by
  cases h with
  | waiterOffer s c₀ hw hc => exact update_move (ClientMove st) c (hc ▸ .offer s hw)
  | clientArrive c₀ O hc => exact update_move (ClientMove st) c (.arrive _ _ hc)
  | clientPop c₀ k s hc hs => exact update_move (ClientMove st) c (hc ▸ .pop k s hs.1)
  | clientRestrictedEmpty c₀ hc => exact update_move (ClientMove st) c (hc ▸ .restrictedEmpty)
  | clientNoProxies c₀ hc => exact update_move (ClientMove st) c (hc ▸ .noProxies)
  | clientAnswer c₀ h A s hc _ hh =>
    exact update_move (ClientMove st) c (hc ▸ .answer s h A.answer hh)
  | clientTimeout c₀ s hc => exact update_move (ClientMove st) c (hc ▸ .timeout s)
  | clientDelete c₀ s r S hc => exact update_move (ClientMove st) c (hc ▸ .delete s r)
  | _ => exact .inl rfl

theorem Step.waiter_move (h : Step st st') (s : SnowflakeId) :
    st'.waiter s = st.waiter s ∨ WaiterMove st s (st.waiter s) (st'.waiter s) := by
  cases h with
  | brokerPush r P s₀ _ _ hs => exact update_move (WaiterMove st) s (.push _ hs)
  | brokerSpawn s₀ _ hw => exact update_move (WaiterMove st) s (hw ▸ .spawn)
  | waiterOffer s₀ c hw hc => exact update_move (WaiterMove st) s (hw ▸ .offer c hc)
  | waiterForward s₀ S c _ hw => exact update_move (WaiterMove st) s (hw ▸ .forward c)
  | waiterTimeout s₀ hw => exact update_move (WaiterMove st) s (hw ▸ .timeout)
  | waiterRemove s₀ S _ hw => exact update_move (WaiterMove st) s (hw ▸ .remove)
  | waiterDelete s₀ S _ hw => exact update_move (WaiterMove st) s (hw ▸ .delete)
  | waiterClose s₀ S _ hw => exact update_move (WaiterMove st) s (hw ▸ .close)
  | _ => exact .inl rfl

theorem Step.answerPc_move (h : Step st st') (a : AnswerId) :
    st'.answerPc a = st.answerPc a ∨ AnswerMove st a (st.answerPc a) (st'.answerPc a) := by
  cases h with
  | clientAnswer c h₀ A s hc _ hh => exact update_move (AnswerMove st) a (hh ▸ .answer s c hc)
  | answerArrive h₀ A hh => exact update_move (AnswerMove st) a (.arrive _ hh)
  | answerLookupHit h₀ A s _ hh => exact update_move (AnswerMove st) a (hh ▸ .hit s)
  | answerLookupMiss h₀ A _ hh => exact update_move (AnswerMove st) a (hh ▸ .miss)
  | _ => exact .inl rfl

/-- A pool gains only a snowflake that did not exist. -/
theorem Step.mem_pools (h : Step st st') {k : PoolKind} {s : SnowflakeId} (hs : s ∈ st'.pools k) :
    s ∈ st.pools k ∨ st.snowflakes s = none := by
  cases h with
  | brokerPush r P s₀ _ _ hs₀ =>
    rcases mem_update_append hs with hs | ⟨-, rfl⟩
    · exact .inl hs
    · exact .inr hs₀
  | waiterRemove s₀ S => exact .inl (mem_update_erase hs)
  | clientPop c k₀ s₀ => exact .inl (mem_update_erase hs)
  | _ => exact .inl hs

/-- A snowflake, once made, stays. -/
theorem Step.snowflakes_some (h : Step st st') {s : SnowflakeId} {S : Snowflake}
    (hs : st.snowflakes s = some S) : st'.snowflakes s = some S := by
  cases h with
  | brokerPush r P s₀ _ _ hs₀ =>
    exact update_keep (by simp [hs₀]) hs
  | _ => exact hs

/-- A client's offer, once there, stays. -/
theorem Step.clients_some (h : Step st st') {c : ClientId} {O : ClientOffer}
    (hc : st.clients c = some O) : st'.clients c = some O := by
  cases h with
  | clientArrive c₀ O₀ hc₀ =>
    exact update_keep (by simp [hc₀]) hc
  | _ => exact hc

/-- A `ProxyAnswers` request, once there, stays. -/
theorem Step.answers_some (h : Step st st') {a : AnswerId} {A : AnswerRequest}
    (ha : st.answers a = some A) : st'.answers a = some A := by
  cases h with
  | answerArrive h₀ A₀ hh =>
    exact update_keep (by simp [hh]) ha
  | _ => exact ha

end Moves

end Snowflake.Broker
