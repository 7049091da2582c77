import Mathlib
import Snowflake.Broker.MatchingSafety
/-
Two sends of the broker can be left with no receiver (`send_without_receiver`).

A `ClientOffers` handler can pop a snowflake whose waiter has taken the timeout branch of
its `select` but not yet run `pool.Remove`. The handler then sends on
`snowflake.offerChannel`, which only that `select` reads.

A `ProxyAnswers` handler can look a snowflake up just before the client that popped it
leaves its `select` because its context is done, and before that client deletes the map
entry. The handler then sends on `snowflake.answerChannel`, which only that `select` reads.

Neither send is in a `select` of its own, so the handler stays blocked in every
continuation: each situation is a predicate that every step keeps.
-/

set_option autoImplicit false

namespace Snowflake.Broker

open Function

variable {st : State}

/-! ## What releases a sender -/

/-- A `ClientOffers` handler leaves its send only when the waiter's `select` receives. -/
theorem ClientMove.from_send {c : ClientId} {s : SnowflakeId} {p' : Option ClientPc}
    (h : ClientMove st c (some (.send s)) p') :
    st.clients c = none ∨ st.waiter s = some .select := by
  cases h with
  | arrive _ k hc => exact .inl hc
  | offer _ hw => exact .inr hw

/-- A handler comes to hold a snowflake only by popping it from a pool. -/
theorem ClientMove.to_send {c : ClientId} {s : SnowflakeId} {p : Option ClientPc}
    (h : ClientMove st c p (some (.send s))) : ∃ k, s ∈ st.pools k := by
  cases h with
  | pop k _ hs => exact ⟨k, hs⟩

theorem ClientMove.to_wait {c : ClientId} {s : SnowflakeId} {p : Option ClientPc}
    (h : ClientMove st c p (some (.wait s))) : p = some (.send s) := by
  cases h with
  | offer _ _ => rfl

/-- A `ProxyAnswers` handler leaves its send only when a client waiting on that snowflake
receives. -/
theorem AnswerMove.from_send {h : AnswerId} {s : SnowflakeId} {p' : Option AnswerPc}
    (hm : AnswerMove st h (some (.send s)) p') :
    st.answers h = none ∨ ∃ c, st.clientPc c = some (.wait s) := by
  cases hm with
  | arrive _ hh => exact .inl hh
  | answer _ c hc => exact .inr ⟨c, hc⟩

/-- A waiter past its timeout does not come back to its `select`. -/
theorem WaiterMove.timedOut {s : SnowflakeId} {w : WaiterPc} {w' : Option WaiterPc}
    (h : WaiterMove st s (some w) w') (hw : w.timedOut = true) (hs : st.snowflakes s ≠ none) :
    ∃ w'', w' = some w'' ∧ w''.timedOut = true := by
  cases h with
  | push _ hs' => exact absurd hs' hs
  | remove => exact ⟨.delete, rfl, rfl⟩
  | delete => exact ⟨.close, rfl, rfl⟩
  | close => exact ⟨.closed, rfl, rfl⟩
  | _ => simp [WaiterPc.timedOut] at hw

theorem Step.clients_ne_none {st' : State} (h : Step st st') {c : ClientId}
    (hc : st.clients c ≠ none) : st'.clients c ≠ none := by
  obtain ⟨O, hO⟩ := Option.ne_none_iff_exists'.mp hc
  simp [h.clients_some hO]

theorem Step.snowflakes_ne_none {st' : State} (h : Step st st') {s : SnowflakeId}
    (hs : st.snowflakes s ≠ none) : st'.snowflakes s ≠ none := by
  obtain ⟨S, hS⟩ := Option.ne_none_iff_exists'.mp hs
  simp [h.snowflakes_some hS]

theorem Step.answers_ne_none {st' : State} (h : Step st st') {a : AnswerId}
    (ha : st.answers a ≠ none) : st'.answers a ≠ none := by
  obtain ⟨A, hA⟩ := Option.ne_none_iff_exists'.mp ha
  simp [h.answers_some hA]

/-! ## A client offer sent to a snowflake that timed out -/

/-- A `ClientOffers` handler at `snowflake.offerChannel <- offer`, after the waiter of that
snowflake took its timeout branch. -/
def ClientSendStuck (c : ClientId) (s : SnowflakeId) (st : State) : Prop :=
  st.clientPc c = some (.send s) ∧ st.clients c ≠ none ∧ st.snowflakes s ≠ none ∧
    ∃ w, st.waiter s = some w ∧ w.timedOut = true

theorem clientSendStuck_stable (c : ClientId) (s : SnowflakeId) :
    broker.Stable (ClientSendStuck c s) := by
  rintro st st' h ⟨hc, hcl, hs, w, hw, hto⟩
  refine ⟨?_, h.clients_ne_none hcl, h.snowflakes_ne_none hs, ?_⟩
  · -- the only receiver is the waiter's `select`, which it has left
    rcases h.clientPc_move c with he | hm
    · rw [he, hc]
    · rw [hc] at hm
      rcases hm.from_send with hcn | hsel
      · exact absurd hcn hcl
      · rw [hw, Option.some.injEq] at hsel
        subst hsel
        simp [WaiterPc.timedOut] at hto
  · rcases h.waiter_move s with he | hm
    · exact ⟨w, he.trans hw, hto⟩
    · rw [hw] at hm
      exact hm.timedOut hto hs

/-- The snowflake's waiter times out before the client pops it. -/
def stuckOfferRun : State :=
  poppingRun.waiterTimeout 0 |>.clientPop 0 .unrestricted 0

theorem stuckOfferRun_reachable : broker.Reachable stuckOfferRun := by
  have r₁ := poppingRun_reachable.step (Step.waiterTimeout _ 0 rfl)
  exact r₁.step (Step.clientPop _ 0 .unrestricted 0 rfl poppingRun_popOf)

theorem stuckOfferRun_stuck : ClientSendStuck 0 0 stuckOfferRun :=
  ⟨rfl, Option.some_ne_none _, Option.some_ne_none _, .remove, rfl, rfl⟩

/-! ## An answer sent for a client that gave up -/

/-- A `ProxyAnswers` handler at `snowflake.answerChannel <- req.Answer`, when no handler
waits on that snowflake's answer channel or can still come to. -/
def AnswerSendStuck (h : AnswerId) (s : SnowflakeId) (st : State) : Prop :=
  st.answerPc h = some (.send s) ∧ st.answers h ≠ none ∧ st.snowflakes s ≠ none ∧
    (∀ k, s ∉ st.pools k) ∧ ∀ c, st.clientPc c ≠ some (.send s) ∧ st.clientPc c ≠ some (.wait s)

theorem answerSendStuck_stable (h : AnswerId) (s : SnowflakeId) :
    broker.Stable (AnswerSendStuck h s) := by
  rintro st st' hst ⟨hh, ha, hs, hpool, hcl⟩
  refine ⟨?_, hst.answers_ne_none ha, hst.snowflakes_ne_none hs, fun k hk => ?_, fun c => ⟨?_, ?_⟩⟩
  · -- the only receiver is the `select` of a client waiting on this snowflake
    rcases hst.answerPc_move h with he | hm
    · rw [he, hh]
    · rw [hh] at hm
      rcases hm.from_send with hn | ⟨c, hc⟩
      · exact absurd hn ha
      · exact absurd hc (hcl c).2
  · -- no pool gets the snowflake back
    rcases hst.mem_pools hk with hk | hk
    · exact hpool k hk
    · exact hs hk
  · -- holding the snowflake takes popping it
    intro hc
    rcases hst.clientPc_move c with he | hm
    · exact (hcl c).1 (he ▸ hc)
    · rw [hc] at hm
      obtain ⟨k, hk⟩ := hm.to_send
      exact hpool k hk
  · -- waiting on it takes sending to it first
    intro hc
    rcases hst.clientPc_move c with he | hm
    · exact (hcl c).2 (he ▸ hc)
    · rw [hc] at hm
      exact (hcl c).1 hm.to_wait

/-- The client's context is done before the proxy's answer, which its handler has already
looked up, reaches it. -/
def stuckAnswerRun : State :=
  answeringRun.clientTimeout 0 0

theorem stuckAnswerRun_reachable : broker.Reachable stuckAnswerRun :=
  answeringRun_reachable.step (Step.clientTimeout _ 0 0 rfl)

theorem stuckAnswerRun_stuck : AnswerSendStuck 0 0 stuckAnswerRun := by
  have hI := broker_inv.reachable stuckAnswerRun_reachable
  -- client 0 popped the snowflake and has left its `select`; no other client holds it
  have hpop : stuckAnswerRun.popped 0 = some 0 := rfl
  have hpc : stuckAnswerRun.clientPc 0 = some (.delete 0 .timedOut) := rfl
  refine ⟨rfl, Option.some_ne_none _, Option.some_ne_none _,
    fun k hk => hI.pool_unpopped k 0 0 hk hpop, fun c => ⟨fun hc => ?_, fun hc => ?_⟩⟩
  · obtain rfl := hI.holder_unique hc rfl hpop
    simp [hpc] at hc
  · obtain rfl := hI.holder_unique hc rfl hpop
    simp [hpc] at hc

/-- Both sends can be left without a receiver, and then block forever. -/
theorem send_without_receiver :
    (∃ st c s, broker.Reachable st ∧ ClientSendStuck c s st ∧
      ∀ st', Relation.ReflTransGen broker.step st st' → ClientSendStuck c s st') ∧
    (∃ st h s, broker.Reachable st ∧ AnswerSendStuck h s st ∧
      ∀ st', Relation.ReflTransGen broker.step st st' → AnswerSendStuck h s st') :=
  ⟨⟨stuckOfferRun, 0, 0, stuckOfferRun_reachable, stuckOfferRun_stuck,
      fun _ h => (clientSendStuck_stable 0 0).reflTransGen h stuckOfferRun_stuck⟩,
    ⟨stuckAnswerRun, 0, 0, stuckAnswerRun_reachable, stuckAnswerRun_stuck,
      fun _ h => (answerSendStuck_stable 0 0).reflTransGen h stuckAnswerRun_stuck⟩⟩

end Snowflake.Broker
