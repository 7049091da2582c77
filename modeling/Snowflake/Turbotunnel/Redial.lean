import Mathlib
import Snowflake.Lib.Transition
/-
One round of `RedialPacketConn.exchange` (`common/turbotunnel/redialpacketconn.go`), with the
`conn.Close()` that `dialLoop` makes after it, as a transition system.

Three goroutines share two unbuffered channels. The reader loops on `conn.ReadFrom` and sends
its error on `readErrCh`; the writer loops on `conn.WriteTo` and sends its error on
`writeErrCh`; each closes its own channel when it returns. `exchange` returns on the first
value or close it receives on either channel, and `dialLoop` then closes `conn`. The dialed
connection is arbitrary: a call of `ReadFrom` or `WriteTo` may fail at any time, and once
`conn` is closed every call fails. `Close` of the `RedialPacketConn` may come at any time.
Packets are not modelled: the send queue may always offer one, and a read packet is queued
or dropped without blocking.

A send on an error channel has two receivers: `exchange`'s select, and the sibling's select
(`case <-writeErrCh` in the reader, `case <-readErrCh` in the writer). When one goroutine's
error has been taken by `exchange`, that goroutine has returned; the other, blocked in
`ReadFrom` or `WriteTo`, gets its error only once `conn` is closed, and by then neither
receiver is left. Its send blocks for good (`send_stranded`). Since `exchange` returns only
after one goroutine has, at most one is left per round (`exchange_returned_done`).
-/

set_option autoImplicit false

namespace Snowflake.Turbotunnel

/-- Where the reader goroutine is. -/
inductive ReaderPc where
  /-- the select on `c.closed`, `writeErrCh` and `default` -/
  | top
  /-- inside `conn.ReadFrom` -/
  | reading
  /-- at `readErrCh <- err` -/
  | sending
  /-- returned; `readErrCh` is closed -/
  | done
  deriving DecidableEq, Repr

/-- Where the writer goroutine is. -/
inductive WriterPc where
  /-- the select on `c.closed`, `readErrCh` and `c.sendQueue` -/
  | select
  /-- inside `conn.WriteTo` -/
  | writing
  /-- at `writeErrCh <- err` -/
  | sending
  /-- returned; `writeErrCh` is closed -/
  | done
  deriving DecidableEq, Repr

/-- Where `exchange`, and `dialLoop` after it, are. -/
inductive ExchangePc where
  /-- the final select on `readErrCh` and `writeErrCh` -/
  | select
  /-- `exchange` returned; `conn` is still open -/
  | returned
  /-- `dialLoop` ran `conn.Close()` -/
  | closedConn
  deriving DecidableEq, Repr

/-- One exchange: its three goroutines and whether `c.closed` is closed. -/
structure Exchange where
  reader : ReaderPc
  writer : WriterPc
  exchange : ExchangePc
  closed : Bool
  deriving DecidableEq, Repr

/-- `exchange` has started both goroutines. -/
def Exchange.init : Exchange := ⟨.top, .select, .select, false⟩

/-- `conn` is open: a call on it may still succeed. -/
def Exchange.connOpen (x : Exchange) : Bool := x.exchange != .closedConn

/-- One step of one goroutine, or of `Close`. A select takes one of its ready cases, and its
`default` only when none is ready. -/
inductive Step : Exchange → Exchange → Prop where
  | readerClosed (x : Exchange) (hr : x.reader = .top) (hc : x.closed = true) :
      Step x { x with reader := .done }
  /-- The reader's select takes the writer's error, which ends both. -/
  | readerTakesWriteErr (x : Exchange) (hr : x.reader = .top) (hw : x.writer = .sending) :
      Step x { x with reader := .done, writer := .done }
  | readerWriteErrClosed (x : Exchange) (hr : x.reader = .top) (hw : x.writer = .done) :
      Step x { x with reader := .done }
  | readerRead (x : Exchange) (hr : x.reader = .top) (hc : x.closed = false)
      (hw : x.writer ≠ .sending) (hw' : x.writer ≠ .done) :
      Step x { x with reader := .reading }
  | readOk (x : Exchange) (hr : x.reader = .reading) (ho : x.connOpen = true) :
      Step x { x with reader := .top }
  | readErr (x : Exchange) (hr : x.reader = .reading) : Step x { x with reader := .sending }
  | readErrExchange (x : Exchange) (hr : x.reader = .sending) (he : x.exchange = .select) :
      Step x { x with reader := .done, exchange := .returned }
  | readErrWriter (x : Exchange) (hr : x.reader = .sending) (hw : x.writer = .select) :
      Step x { x with reader := .done, writer := .done }
  | writerClosed (x : Exchange) (hw : x.writer = .select) (hc : x.closed = true) :
      Step x { x with writer := .done }
  | writerReadErrClosed (x : Exchange) (hw : x.writer = .select) (hr : x.reader = .done) :
      Step x { x with writer := .done }
  /-- The writer's select takes a packet from `c.sendQueue`. -/
  | writerWrite (x : Exchange) (hw : x.writer = .select) : Step x { x with writer := .writing }
  | writeOk (x : Exchange) (hw : x.writer = .writing) (ho : x.connOpen = true) :
      Step x { x with writer := .select }
  | writeErr (x : Exchange) (hw : x.writer = .writing) : Step x { x with writer := .sending }
  | writeErrExchange (x : Exchange) (hw : x.writer = .sending) (he : x.exchange = .select) :
      Step x { x with writer := .done, exchange := .returned }
  /-- `exchange` receives from a closed error channel. -/
  | exchangeReadClosed (x : Exchange) (he : x.exchange = .select) (hr : x.reader = .done) :
      Step x { x with exchange := .returned }
  | exchangeWriteClosed (x : Exchange) (he : x.exchange = .select) (hw : x.writer = .done) :
      Step x { x with exchange := .returned }
  | connClose (x : Exchange) (he : x.exchange = .returned) :
      Step x { x with exchange := .closedConn }
  /-- `RedialPacketConn.Close`. -/
  | close (x : Exchange) : Step x { x with closed := true }

def redial : Transition.System Exchange := ⟨(· = Exchange.init), Step⟩

/-! ## What `exchange`'s return means -/

/-- A goroutine that has returned stays so. -/
theorem Step.reader_done {x y : Exchange} (h : Step x y) (hr : x.reader = .done) :
    y.reader = .done := by
  cases h with
  | readerClosed hr' | readerTakesWriteErr hr' | readerWriteErrClosed hr' | readerRead hr'
    | readOk hr' | readErr hr' | readErrExchange hr' | readErrWriter hr' => simp [hr] at hr'
  | _ => exact hr

theorem Step.writer_done {x y : Exchange} (h : Step x y) (hw : x.writer = .done) :
    y.writer = .done := by
  cases h with
  | writerClosed hw' | writerReadErrClosed hw' | writerWrite hw' | writeOk hw' | writeErr hw'
    | writeErrExchange hw' => simp [hw] at hw'
  | readerTakesWriteErr _ hw' | readErrWriter _ hw' => simp [hw] at hw'
  | _ => exact hw

/-- `exchange` has returned only after one of the goroutines has. -/
def SiblingDone (x : Exchange) : Prop :=
  x.exchange ≠ .select → x.reader = .done ∨ x.writer = .done

theorem siblingDone_inductive : redial.Inductive SiblingDone where
  init := by
    rintro _ rfl he
    exact absurd rfl he
  step := by
    intro x y h hx he
    by_cases hxe : x.exchange = .select
    · -- the step is `exchange`'s own: it received a value, or a close, from one goroutine
      cases h with
      | readErrExchange => exact .inl rfl
      | writeErrExchange => exact .inr rfl
      | exchangeReadClosed _ hr => exact .inl hr
      | exchangeWriteClosed _ hw => exact .inr hw
      | connClose he' => simp [hxe] at he'
      | _ => exact absurd hxe he
    · rcases hx hxe with hr | hw
      · exact .inl (h.reader_done hr)
      · exact .inr (h.writer_done hw)

/-- **At most one goroutine left.** Once `exchange` has returned, the reader or the writer
has returned too, so at most one of them can still be blocked. -/
theorem exchange_returned_done {x : Exchange} (hr : redial.Reachable x)
    (he : x.exchange ≠ .select) : x.reader = .done ∨ x.writer = .done :=
  siblingDone_inductive.reachable hr he

/-! ## A goroutine left on its send -/

/-- The writer waits at `writeErrCh <- err`, the reader has returned and `exchange` has
returned: the send has no receiver left. -/
def WriterStranded (x : Exchange) : Prop :=
  x.writer = .sending ∧ x.reader = .done ∧ x.exchange ≠ .select

/-- The reader waits at `readErrCh <- err`, the writer has returned and `exchange` has
returned. -/
def ReaderStranded (x : Exchange) : Prop :=
  x.reader = .sending ∧ x.writer = .done ∧ x.exchange ≠ .select

/-- `exchange` never goes back to its select. -/
theorem Step.exchange_ne_select {x y : Exchange} (h : Step x y)
    (he : x.exchange ≠ .select) : y.exchange ≠ .select := by
  cases h with
  | readErrExchange _ he' => exact absurd he' he
  | writeErrExchange _ he' => exact absurd he' he
  | exchangeReadClosed he' => exact absurd he' he
  | exchangeWriteClosed he' => exact absurd he' he
  | connClose => simp
  | _ => exact he

/-- The writer's send completes only through one of its receivers: the reader's select, at
the top of its loop, and `exchange`'s. -/
theorem Step.writer_sending {x y : Exchange} (h : Step x y) (hw : x.writer = .sending)
    (hr : x.reader ≠ .top) (he : x.exchange ≠ .select) : y.writer = .sending := by
  cases h with
  | readerTakesWriteErr hr' => exact absurd hr' hr
  | writeErrExchange _ he' => exact absurd he' he
  | writerClosed hw' | writerReadErrClosed hw' | writerWrite hw' | writeOk hw' | writeErr hw' =>
    simp [hw] at hw'
  | readErrWriter _ hw' => simp [hw] at hw'
  | _ => exact hw

/-- The reader's send completes only through the writer's select or `exchange`'s. -/
theorem Step.reader_sending {x y : Exchange} (h : Step x y) (hr : x.reader = .sending)
    (hw : x.writer ≠ .select) (he : x.exchange ≠ .select) : y.reader = .sending := by
  cases h with
  | readErrWriter _ hw' => exact absurd hw' hw
  | readErrExchange _ he' => exact absurd he' he
  | readerClosed hr' | readerTakesWriteErr hr' | readerWriteErrClosed hr' | readerRead hr'
    | readOk hr' | readErr hr' => simp [hr] at hr'
  | _ => exact hr

theorem writerStranded_stable : redial.Stable WriterStranded := by
  rintro x y h ⟨hw, hr, he⟩
  exact ⟨h.writer_sending hw (by simp [hr]) he, h.reader_done hr, h.exchange_ne_select he⟩

theorem readerStranded_stable : redial.Stable ReaderStranded := by
  rintro x y h ⟨hr, hw, he⟩
  exact ⟨h.reader_sending hr (by simp [hw]) he, h.writer_done hw, h.exchange_ne_select he⟩

/-- Both goroutines are in their calls on `conn`; the reader fails first, `exchange` takes
its error and returns, `dialLoop` closes `conn`, and the write fails. -/
def writerStrandedRun : Exchange := ⟨.done, .sending, .closedConn, false⟩

theorem writerStrandedRun_reachable : redial.Reachable writerStrandedRun := by
  have r₁ := (Transition.System.Reachable.of_init (show redial.init Exchange.init from rfl)).step
    (Step.readerRead _ rfl rfl (by decide) (by decide))
  have r₂ := r₁.step (Step.writerWrite _ rfl)
  have r₃ := r₂.step (Step.readErr _ rfl)
  have r₄ := r₃.step (Step.readErrExchange _ rfl rfl)
  have r₅ := r₄.step (Step.connClose _ rfl)
  exact r₅.step (Step.writeErr _ rfl)

theorem exchange_returned_done_writerStrandedRun :
    redial.Reachable writerStrandedRun ∧ writerStrandedRun.exchange ≠ .select ∧
      (writerStrandedRun.reader = .done ∨ writerStrandedRun.writer = .done) :=
  ⟨writerStrandedRun_reachable, by decide,
    exchange_returned_done writerStrandedRun_reachable (by decide)⟩

/-- The same with the write failing first. -/
def readerStrandedRun : Exchange := ⟨.sending, .done, .closedConn, false⟩

theorem readerStrandedRun_reachable : redial.Reachable readerStrandedRun := by
  have r₁ := (Transition.System.Reachable.of_init (show redial.init Exchange.init from rfl)).step
    (Step.readerRead _ rfl rfl (by decide) (by decide))
  have r₂ := r₁.step (Step.writerWrite _ rfl)
  have r₃ := r₂.step (Step.writeErr _ rfl)
  have r₄ := r₃.step (Step.writeErrExchange _ rfl rfl)
  have r₅ := r₄.step (Step.connClose _ rfl)
  exact r₅.step (Step.readErr _ rfl)

/-- **Stranded sends.** After `exchange` has returned and `conn` is closed, the writer can
be left at its send on `writeErrCh`, and the reader at its send on `readErrCh`, with the
sibling finished; no continuation, `Close` included, releases it. -/
theorem send_stranded :
    (∃ x, redial.Reachable x ∧ x.exchange = .closedConn ∧ WriterStranded x ∧
      ∀ y, Relation.ReflTransGen redial.step x y → WriterStranded y) ∧
    (∃ x, redial.Reachable x ∧ x.exchange = .closedConn ∧ ReaderStranded x ∧
      ∀ y, Relation.ReflTransGen redial.step x y → ReaderStranded y) := by
  have hw : WriterStranded writerStrandedRun := ⟨rfl, rfl, by decide⟩
  have hr : ReaderStranded readerStrandedRun := ⟨rfl, rfl, by decide⟩
  exact ⟨⟨_, writerStrandedRun_reachable, rfl, hw,
      fun _ h => writerStranded_stable.reflTransGen h hw⟩,
    ⟨_, readerStrandedRun_reachable, rfl, hr,
      fun _ h => readerStranded_stable.reflTransGen h hr⟩⟩

end Snowflake.Turbotunnel
