import Mathlib
import Snowflake.Broker.Matching
/-
Safety of the broker's matching over every interleaving (`matching_safety`). Each client
offer is delivered to at most one poll and each poll gets at most one offer; a client's
answer was sent by a `ProxyAnswers` handler whose session id is the id of the very
snowflake the client popped; and every delivered pair has an unrestricted side.

It needs no assumption on the proxies' session ids. When two live snowflakes share an id,
`idToSnowflake` maps it to the later one, and a `ProxyAnswers` handler's answer goes to the
client that popped that one: the snowflake the lookup found is the one whose id is the
request's `Sid` (`Inv.map_id`), and only the client that popped it waits on its channel.

`Inv` relates the parties' program counters to the pools, `popped`, `idToSnowflake` and the
history of deliveries. One lemma per step keeps it (`Inv.step`): each rebuilds only the
fields that mention what its step changes, and takes the others from the old state.
-/

set_option autoImplicit false

namespace Snowflake.Broker

open Function Snowflake.Messages

/-- The invariant of the broker's state. -/
structure Inv (st : State) : Prop where
  /-- A client that has not arrived has no program counter and popped nothing. -/
  clients_none : ∀ c, st.clients c = none → st.clientPc c = none ∧ st.popped c = none
  /-- A pooled snowflake sits in the pool `GetPool` gives for its NAT type. -/
  pool_nat : ∀ k s, s ∈ st.pools k → ∃ S, st.snowflakes s = some S ∧ getPool S.natType = k
  /-- A pooled snowflake has not been popped. -/
  pool_unpopped : ∀ k s c, s ∈ st.pools k → st.popped c ≠ some s
  pools_nodup : ∀ k, (st.pools k).Nodup
  popped_unique : ∀ c c' s, st.popped c = some s → st.popped c' = some s → c = c'
  /-- A handler past `matchSnowflake` holds the snowflake it popped. -/
  pc_popped : ∀ c p s, st.clientPc c = some p → p.snowflake? = some s → st.popped c = some s
  pop_unpopped : ∀ c k, st.clientPc c = some (.pop k) → st.popped c = none
  pop_restricted : ∀ c, st.clientPc c = some (.pop .restricted) →
    ∃ O, st.clients c = some O ∧ O.natType = NATUnrestricted
  /-- The restricted pool serves only unrestricted clients. -/
  popped_nat : ∀ c s, st.popped c = some s → ∃ O S, st.clients c = some O ∧
    st.snowflakes s = some S ∧ (O.natType = NATUnrestricted ∨ S.natType = NATUnrestricted)
  snowflake_poll : ∀ s S, st.snowflakes s = some S →
    ∃ P, st.polls S.request = some P ∧ P.natType = S.natType
  waiter_none : ∀ s, st.snowflakes s = none → st.waiter s = none
  /-- A waiter forwards the offer of the client that popped its snowflake. -/
  waiter_popped : ∀ s c, st.waiter s = some (.forward c) ∨ st.waiter s = some (.forwarded c) →
    st.popped c = some s
  delivery_forwarded : ∀ c r, (c, r) ∈ st.deliveries → ∃ s, st.waiter s = some (.forwarded c)
  delivery_done : ∀ c r, (c, r) ∈ st.deliveries → st.pollPc r = some (.done (some c))
  delivery_nat : ∀ c r, (c, r) ∈ st.deliveries → ∃ O P, st.clients c = some O ∧
    st.polls r = some P ∧ (O.natType = NATUnrestricted ∨ P.natType = NATUnrestricted)
  deliveries_nodup : (st.deliveries.map Prod.fst).Nodup ∧ (st.deliveries.map Prod.snd).Nodup
  /-- `idToSnowflake` maps a snowflake's id to it. -/
  map_id : ∀ k s, st.idToSnowflake k = some s → ∃ S, st.snowflakes s = some S ∧ S.id = k
  answer_send : ∀ h s, st.answerPc h = some (.send s) →
    ∃ A S, st.answers h = some A ∧ st.snowflakes s = some S ∧ S.id = A.sid
  /-- A client's answer is one a `ProxyAnswers` handler sent for the snowflake it popped. -/
  client_answer : ∀ c p a h, st.clientPc c = some p → p.result? = some (.answer a h) →
    ∃ A s S, st.answers h = some A ∧ A.answer = a ∧ st.answerPc h = some (.done true) ∧
      st.popped c = some s ∧ st.snowflakes s = some S ∧ A.sid = S.id

theorem Inv.init : Inv State.init := by
  constructor <;> simp [State.init]

namespace Inv

variable {st : State}

theorem clients_ne_none (hI : Inv st) {c : ClientId} {p : ClientPc}
    (h : st.clientPc c = some p) : st.clients c ≠ none :=
  fun hc => by simp [(hI.clients_none c hc).1] at h

theorem snowflakes_of_pool (hI : Inv st) {k : PoolKind} {s : SnowflakeId}
    (h : s ∈ st.pools k) : st.snowflakes s ≠ none := by
  obtain ⟨S, hS, -⟩ := hI.pool_nat k s h
  simp [hS]

theorem snowflakes_of_popped (hI : Inv st) {c : ClientId} {s : SnowflakeId}
    (h : st.popped c = some s) : st.snowflakes s ≠ none := by
  obtain ⟨O, S, -, hS, -⟩ := hI.popped_nat c s h
  simp [hS]

/-- The two pools hold different snowflakes. -/
theorem pool_unique (hI : Inv st) {k k' : PoolKind} {s : SnowflakeId} (h : s ∈ st.pools k)
    (h' : s ∈ st.pools k') : k = k' := by
  obtain ⟨S, hS, rfl⟩ := hI.pool_nat k s h
  obtain ⟨S', hS', rfl⟩ := hI.pool_nat k' s h'
  rw [Option.some.inj (hS.symm.trans hS')]

/-- A client whose offer a waiter is about to forward has had none delivered. -/
theorem not_delivered_of_forward (hI : Inv st) {s : SnowflakeId} {c : ClientId}
    (hw : st.waiter s = some (.forward c)) (r : PollId) : (c, r) ∉ st.deliveries := by
  intro hd
  obtain ⟨s', hs'⟩ := hI.delivery_forwarded c r hd
  have h1 := hI.waiter_popped s c (.inl hw)
  have h2 := hI.waiter_popped s' c (.inr hs')
  obtain rfl : s = s' := Option.some.inj (h1.symm.trans h2)
  simp [hw] at hs'

/-- A poll still waiting has had no offer delivered. -/
theorem not_delivered_of_wait (hI : Inv st) {r : PollId} (hp : st.pollPc r = some .wait)
    (c : ClientId) : (c, r) ∉ st.deliveries := by
  intro hd
  simp [hI.delivery_done c r hd] at hp

/-- Only the client that popped a snowflake holds it. -/
theorem holder_unique (hI : Inv st) {c c' : ClientId} {p : ClientPc} {s : SnowflakeId}
    (hc : st.clientPc c = some p) (hp : p.snowflake? = some s) (hc' : st.popped c' = some s) :
    c = c' :=
  hI.popped_unique c c' s (hI.pc_popped c p s hc hp) hc'

/-- The fields about waiters, when one waiter moves on neither to nor from forwarding. -/
theorem waiter_move (hI : Inv st) {s : SnowflakeId} {w : WaiterPc} (hw : st.waiter s = some w)
    (w' : WaiterPc) (hfw : ∀ c, w ≠ .forwarded c)
    (hw' : ∀ c, w' ≠ .forward c ∧ w' ≠ .forwarded c) :
    (∀ s', st.snowflakes s' = none → update st.waiter s (some w') s' = none) ∧
    (∀ s' c, update st.waiter s (some w') s' = some (.forward c) ∨
      update st.waiter s (some w') s' = some (.forwarded c) → st.popped c = some s') ∧
    (∀ c r, (c, r) ∈ st.deliveries →
      ∃ s', update st.waiter s (some w') s' = some (.forwarded c)) := by
  refine ⟨fun s' hs' => update_keep (by simp [hw]) (hI.waiter_none s' hs'),
    fun s' c h => ?_, fun c r hd => ?_⟩
  · rcases h with h | h
    · exact hI.waiter_popped s' c (.inl (eq_of_update_ne h (by simpa using (hw' c).1.symm)))
    · exact hI.waiter_popped s' c (.inr (eq_of_update_ne h (by simpa using (hw' c).2.symm)))
  · obtain ⟨s', hs'⟩ := hI.delivery_forwarded c r hd
    exact ⟨s', update_keep (by simp [hw, hfw c]) hs'⟩

/-- The fields about a client's program counter, when it moves and `popped` stays. -/
theorem client_move (hI : Inv st) {c : ClientId} {p : ClientPc} (hc : st.clientPc c = some p)
    (p' : ClientPc) (hs : ∀ s, p'.snowflake? = some s → st.popped c = some s)
    (hk : ∀ k, p' = .pop k → st.popped c = none)
    (hr : p' = .pop .restricted → ∃ O, st.clients c = some O ∧ O.natType = NATUnrestricted) :
    (∀ c', st.clients c' = none → update st.clientPc c (some p') c' = none ∧
      st.popped c' = none) ∧
    (∀ c' q s, update st.clientPc c (some p') c' = some q → q.snowflake? = some s →
      st.popped c' = some s) ∧
    (∀ c' k, update st.clientPc c (some p') c' = some (.pop k) → st.popped c' = none) ∧
    (∀ c', update st.clientPc c (some p') c' = some (.pop .restricted) →
      ∃ O, st.clients c' = some O ∧ O.natType = NATUnrestricted) := by
  refine ⟨fun c' h => ?_, fun c' q s h hq => ?_, fun c' k h => ?_, fun c' h => ?_⟩
  · have hne : c' ≠ c := fun he => hI.clients_ne_none hc (he ▸ h)
    rw [update_of_ne hne]
    exact hI.clients_none c' h
  · rcases update_cases h with ⟨rfl, hv⟩ | ⟨-, h⟩
    · obtain rfl := Option.some.inj hv
      exact hs s hq
    · exact hI.pc_popped c' q s h hq
  · rcases update_cases h with ⟨rfl, hv⟩ | ⟨-, h⟩
    · exact hk k (Option.some.inj hv)
    · exact hI.pop_unpopped c' k h
  · rcases update_cases h with ⟨rfl, hv⟩ | ⟨-, h⟩
    · exact hr (Option.some.inj hv)
    · exact hI.pop_restricted c' h

/-- The first condition of `client_move` for a point that holds the snowflake `s` the
client has popped. -/
theorem popped_of_holds {c : ClientId} {s : SnowflakeId} (hpop : st.popped c = some s)
    {p' : ClientPc} (hp' : p'.snowflake? = some s) :
    ∀ s', p'.snowflake? = some s' → st.popped c = some s' := fun s' hs' => by
  rw [hp', Option.some.injEq] at hs'
  exact hs' ▸ hpop

/-- `client_answer`, when a client's program counter moves to a point with the same answer
or none, and nothing else it mentions changes. -/
theorem client_answer_move (hI : Inv st) {c : ClientId} {p : ClientPc}
    (hc : st.clientPc c = some p) (p' : ClientPc)
    (hres : ∀ a h, p'.result? = some (.answer a h) → p.result? = some (.answer a h)) :
    ∀ c' q a h, update st.clientPc c (some p') c' = some q → q.result? = some (.answer a h) →
      ∃ A s S, st.answers h = some A ∧ A.answer = a ∧ st.answerPc h = some (.done true) ∧
        st.popped c' = some s ∧ st.snowflakes s = some S ∧ A.sid = S.id := by
  intro c' q a h h' hq
  rcases update_cases h' with ⟨rfl, hv⟩ | ⟨-, h'⟩
  · obtain rfl := Option.some.inj hv
    exact hI.client_answer c' p a h hc (hres a h hq)
  · exact hI.client_answer c' q a h h' hq

end Inv

/-! ## Every step keeps the invariant -/

section Preservation

variable {st : State}

theorem Inv.pollArrive (hI : Inv st) (r : PollId) (P : ProxyPoll) (hr : st.polls r = none) :
    Inv (st.pollArrive r P) := by
  -- a new poll: the entries that exist are kept
  have hpoll : ∀ {r' P'}, st.polls r' = some P' → (st.pollArrive r P).polls r' = some P' :=
    fun h => update_keep (by simp [hr]) h
  exact { hI with
    snowflake_poll := fun s S hS => by
      obtain ⟨P', hP', hn⟩ := hI.snowflake_poll s S hS
      exact ⟨P', hpoll hP', hn⟩
    delivery_nat := fun c r' hd => by
      obtain ⟨O, P', hO, hP', hu⟩ := hI.delivery_nat c r' hd
      exact ⟨O, P', hO, hpoll hP', hu⟩
    delivery_done := fun c r' hd => by
      obtain ⟨O, P', -, hP', -⟩ := hI.delivery_nat c r' hd
      exact (update_of_ne (ne_of_some_of_none hP' hr) _ _).trans (hI.delivery_done c r' hd) }

theorem Inv.brokerReceive (hI : Inv st) (r : PollId) (hp : st.pollPc r = some .send) :
    Inv (st.brokerReceive r) :=
  { hI with
    delivery_done := fun c r' hd => update_keep (by simp [hp]) (hI.delivery_done c r' hd) }

theorem Inv.brokerPush (hI : Inv st) (r : PollId) (P : ProxyPoll) (s : SnowflakeId)
    (hP : st.polls r = some P) (hs : st.snowflakes s = none) : Inv (st.brokerPush r P s) := by
  -- `s` is new: no pool, client, waiter or handler refers to it yet
  have hsf : ∀ {s' S}, st.snowflakes s' = some S → (st.brokerPush r P s).snowflakes s' = some S :=
    fun h => update_keep (by simp [hs]) h
  exact { hI with
    pool_nat := fun k s' h => by
      rcases mem_update_append h with h | ⟨rfl, rfl⟩
      · obtain ⟨S, hS, hk⟩ := hI.pool_nat k s' h
        exact ⟨S, hsf hS, hk⟩
      · exact ⟨_, update_self _ _ _, rfl⟩
    pool_unpopped := fun k s' c h => by
      rcases mem_update_append h with h | ⟨-, rfl⟩
      · exact hI.pool_unpopped k s' c h
      · exact fun hc => hI.snowflakes_of_popped hc hs
    pools_nodup := nodup_update hI.pools_nodup
      ((hI.pools_nodup _).append_singleton fun h => hI.snowflakes_of_pool h hs)
    popped_nat := fun c s' h => by
      obtain ⟨O, S, hO, hS, hn⟩ := hI.popped_nat c s' h
      exact ⟨O, S, hO, hsf hS, hn⟩
    snowflake_poll := fun s' S h => by
      rcases update_cases h with ⟨-, hv⟩ | ⟨-, h⟩
      · obtain rfl := Option.some.inj hv
        exact ⟨P, hP, rfl⟩
      · exact hI.snowflake_poll s' S h
    waiter_none := fun s' h => by
      rcases update_cases h with ⟨-, hv⟩ | ⟨hne, h⟩
      · simp at hv
      · exact (update_of_ne hne _ _).trans (hI.waiter_none s' h)
    waiter_popped := fun s' c h => by
      rcases h with h | h
      · exact hI.waiter_popped s' c (.inl (eq_of_update_ne h (by simp)))
      · exact hI.waiter_popped s' c (.inr (eq_of_update_ne h (by simp)))
    delivery_forwarded := fun c r' hd => by
      obtain ⟨s', hw⟩ := hI.delivery_forwarded c r' hd
      exact ⟨s', update_keep (by simp [hI.waiter_none s hs]) hw⟩
    map_id := fun k s' h => by
      obtain ⟨S, hS, hid⟩ := hI.map_id k s' h
      exact ⟨S, hsf hS, hid⟩
    answer_send := fun a s' h => by
      obtain ⟨A, S, hA, hS, hid⟩ := hI.answer_send a s' h
      exact ⟨A, S, hA, hsf hS, hid⟩
    client_answer := fun c p a h hc hr => by
      obtain ⟨A, s', S, hA, ha, hh, hp, hS, hid⟩ := hI.client_answer c p a h hc hr
      exact ⟨A, s', S, hA, ha, hh, hp, hsf hS, hid⟩ }

theorem Inv.brokerRegister (hI : Inv st) (s : SnowflakeId) (S : Snowflake)
    (hS : st.snowflakes s = some S) : Inv (st.brokerRegister s S) :=
  { hI with
    map_id := fun k s' h => by
      rcases update_cases h with ⟨rfl, hv⟩ | ⟨-, h⟩
      · obtain rfl := Option.some.inj hv
        exact ⟨S, hS, rfl⟩
      · exact hI.map_id k s' h }

theorem Inv.brokerSpawn (hI : Inv st) (s : SnowflakeId) (hw : st.waiter s = some .unstarted) :
    Inv (st.brokerSpawn s) := by
  obtain ⟨hn, hp, hd⟩ := hI.waiter_move hw .select (by simp) (by simp)
  exact { hI with waiter_none := hn, waiter_popped := hp, delivery_forwarded := hd }

theorem Inv.waiterOffer (hI : Inv st) (s : SnowflakeId) (c : ClientId)
    (hw : st.waiter s = some .select) (hc : st.clientPc c = some (.send s)) :
    Inv (st.waiterOffer s c) := by
  have hpop : st.popped c = some s := hI.pc_popped c _ s hc rfl
  obtain ⟨h1, h2, h3, h4⟩ := hI.client_move hc (.wait s)
    (popped_of_holds hpop rfl) (by simp) (by simp)
  exact { hI with
    clients_none := h1, pc_popped := h2, pop_unpopped := h3, pop_restricted := h4
    client_answer := hI.client_answer_move hc (.wait s) (by simp [ClientPc.result?])
    waiter_none := fun s' h => update_keep (by simp [hw]) (hI.waiter_none s' h)
    waiter_popped := fun s' c' h => by
      rcases h with h | h
      · rcases update_cases h with ⟨rfl, hv⟩ | ⟨-, h⟩
        · obtain rfl : c = c' := by simpa using hv
          exact hpop
        · exact hI.waiter_popped s' c' (.inl h)
      · exact hI.waiter_popped s' c' (.inr (eq_of_update_ne h (by simp)))
    delivery_forwarded := fun c' r hd => by
      obtain ⟨s', hs'⟩ := hI.delivery_forwarded c' r hd
      exact ⟨s', update_keep (by simp [hw]) hs'⟩ }

theorem Inv.waiterForward (hI : Inv st) (s : SnowflakeId) (S : Snowflake) (c : ClientId)
    (hS : st.snowflakes s = some S) (hw : st.waiter s = some (.forward c))
    (hp : st.pollPc S.request = some .wait) : Inv (st.waiterForward s S c) := by
  have hpop := hI.waiter_popped s c (.inl hw)
  -- the new delivery is the only new entry of the history
  have hnew : ∀ {c' r}, (c', r) ∈ st.deliveries ++ [(c, S.request)] →
      (c', r) ∈ st.deliveries ∨ (c' = c ∧ r = S.request) := fun hd => by simpa using hd
  exact { hI with
    waiter_none := fun s' h => update_keep (by simp [hw]) (hI.waiter_none s' h)
    waiter_popped := fun s' c' h => by
      rcases h with h | h
      · exact hI.waiter_popped s' c' (.inl (eq_of_update_ne h (by simp)))
      · rcases update_cases h with ⟨rfl, hv⟩ | ⟨-, h⟩
        · obtain rfl : c = c' := by simpa using hv
          exact hpop
        · exact hI.waiter_popped s' c' (.inr h)
    delivery_forwarded := fun c' r hd => by
      rcases hnew hd with hd | ⟨rfl, -⟩
      · obtain ⟨s', hs'⟩ := hI.delivery_forwarded c' r hd
        exact ⟨s', update_keep (by simp [hw]) hs'⟩
      · exact ⟨s, update_self _ _ _⟩
    delivery_done := fun c' r hd => by
      rcases hnew hd with hd | ⟨rfl, rfl⟩
      · exact update_keep (by simp [hp]) (hI.delivery_done c' r hd)
      · exact update_self _ _ _
    delivery_nat := fun c' r hd => by
      rcases hnew hd with hd | ⟨rfl, rfl⟩
      · exact hI.delivery_nat c' r hd
      · -- the client popped this snowflake, and its poll has the snowflake's NAT type
        obtain ⟨O, S', hO, hS', hn⟩ := hI.popped_nat c' s hpop
        obtain rfl : S = S' := Option.some.inj (hS.symm.trans hS')
        obtain ⟨P, hP, hPn⟩ := hI.snowflake_poll s S hS
        refine ⟨O, P, hO, hP, ?_⟩
        rw [hPn]
        exact hn
    deliveries_nodup := by
      obtain ⟨h1, h2⟩ := hI.deliveries_nodup
      simp only [State.waiterForward, List.map_append, List.map_cons, List.map_nil]
      refine ⟨h1.append_singleton fun hm => ?_, h2.append_singleton fun hm => ?_⟩
      · obtain ⟨⟨c', r⟩, hd, rfl⟩ := List.mem_map.mp hm
        exact hI.not_delivered_of_forward hw r hd
      · obtain ⟨⟨c', r⟩, hd, rfl⟩ := List.mem_map.mp hm
        exact hI.not_delivered_of_wait hp c' hd }

theorem Inv.waiterTimeout (hI : Inv st) (s : SnowflakeId) (hw : st.waiter s = some .select) :
    Inv (st.waiterTimeout s) := by
  obtain ⟨hn, hp, hd⟩ := hI.waiter_move hw .remove (by simp) (by simp)
  exact { hI with waiter_none := hn, waiter_popped := hp, delivery_forwarded := hd }

theorem Inv.waiterRemove (hI : Inv st) (s : SnowflakeId) (S : Snowflake)
    (hw : st.waiter s = some .remove) : Inv (st.waiterRemove s S) := by
  obtain ⟨hn, hp, hd⟩ := hI.waiter_move hw .delete (by simp) (by simp)
  exact { hI with
    waiter_none := hn, waiter_popped := hp, delivery_forwarded := hd
    pool_nat := fun k s' h => hI.pool_nat k s' (mem_update_erase h)
    pool_unpopped := fun k s' c h => hI.pool_unpopped k s' c (mem_update_erase h)
    pools_nodup := nodup_update hI.pools_nodup ((hI.pools_nodup _).erase s) }

theorem Inv.waiterDelete (hI : Inv st) (s : SnowflakeId) (S : Snowflake)
    (hw : st.waiter s = some .delete) : Inv (st.waiterDelete s S) := by
  obtain ⟨hn, hp, hd⟩ := hI.waiter_move hw .close (by simp) (by simp)
  exact { hI with
    waiter_none := hn, waiter_popped := hp, delivery_forwarded := hd
    map_id := fun k s' h => hI.map_id k s' (eq_of_update_ne h (by simp)) }

theorem Inv.waiterClose (hI : Inv st) (s : SnowflakeId) (S : Snowflake)
    (hw : st.waiter s = some .close) (hp : st.pollPc S.request = some .wait) :
    Inv (st.waiterClose s S) := by
  obtain ⟨hn, hwp, hd⟩ := hI.waiter_move hw .closed (by simp) (by simp)
  exact { hI with
    waiter_none := hn, waiter_popped := hwp, delivery_forwarded := hd
    delivery_done := fun c r hd => update_keep (by simp [hp]) (hI.delivery_done c r hd) }

theorem Inv.clientArrive (hI : Inv st) (c : ClientId) (O : ClientOffer)
    (hc : st.clients c = none) : Inv (st.clientArrive c O) := by
  obtain ⟨-, hpop⟩ := hI.clients_none c hc
  -- a new client has popped nothing, so `popped` is unchanged
  have hpopped : (st.clientArrive c O).popped = st.popped :=
    update_eq_self_iff.mpr hpop.symm
  have hcl : ∀ {c' O'}, st.clients c' = some O' → (st.clientArrive c O).clients c' = some O' :=
    fun h => update_keep (by simp [hc]) h
  exact { hI with
    clients_none := fun c' h => by
      rcases update_cases h with ⟨-, hv⟩ | ⟨hne, h⟩
      · simp at hv
      · rw [hpopped]
        exact ⟨(update_of_ne hne _ _).trans (hI.clients_none c' h).1, (hI.clients_none c' h).2⟩
    pool_unpopped := fun k s c' h => hpopped ▸ hI.pool_unpopped k s c' h
    popped_unique := fun c₁ c₂ s h₁ h₂ => hI.popped_unique c₁ c₂ s (hpopped ▸ h₁) (hpopped ▸ h₂)
    pc_popped := fun c' p s h hp => by
      rw [hpopped]
      rcases update_cases h with ⟨rfl, hv⟩ | ⟨-, h⟩
      · obtain rfl := Option.some.inj hv
        simp [ClientPc.snowflake?] at hp
      · exact hI.pc_popped c' p s h hp
    pop_unpopped := fun c' k h => by
      rw [hpopped]
      rcases update_cases h with ⟨rfl, -⟩ | ⟨-, h⟩
      · exact hpop
      · exact hI.pop_unpopped c' k h
    pop_restricted := fun c' h => by
      rcases update_cases h with ⟨rfl, hv⟩ | ⟨-, h⟩
      · -- `matchSnowflake` tries the restricted pool only for an unrestricted client
        refine ⟨O, update_self _ _ _, ?_⟩
        by_contra hn
        simp [hn] at hv
      · obtain ⟨O', hO', hn⟩ := hI.pop_restricted c' h
        exact ⟨O', hcl hO', hn⟩
    popped_nat := fun c' s h => by
      rw [hpopped] at h
      obtain ⟨O', S, hO', hS, hn⟩ := hI.popped_nat c' s h
      exact ⟨O', S, hcl hO', hS, hn⟩
    waiter_popped := fun s c' h => hpopped ▸ hI.waiter_popped s c' h
    delivery_nat := fun c' r hd => by
      obtain ⟨O', P, hO', hP, hn⟩ := hI.delivery_nat c' r hd
      exact ⟨O', P, hcl hO', hP, hn⟩
    client_answer := fun c' p a h hc' hr => by
      rw [hpopped]
      rcases update_cases hc' with ⟨rfl, hv⟩ | ⟨-, hc'⟩
      · obtain rfl := Option.some.inj hv
        simp [ClientPc.result?] at hr
      · exact hI.client_answer c' p a h hc' hr }

theorem Inv.clientPop (hI : Inv st) (c : ClientId) (k : PoolKind) (s : SnowflakeId)
    (hc : st.clientPc c = some (.pop k)) (hs : st.PopOf k s) : Inv (st.clientPop c k s) := by
  have hs₀ : s ∈ st.pools k := hs.1
  have hpc : st.popped c = none := hI.pop_unpopped c k hc
  exact { hI with
    clients_none := fun c' h => by
      have hne : c' ≠ c := fun he => hI.clients_ne_none hc (he ▸ h)
      exact ⟨(update_of_ne hne _ _).trans (hI.clients_none c' h).1,
        (update_of_ne hne _ _).trans (hI.clients_none c' h).2⟩
    pool_nat := fun k' s' h => hI.pool_nat k' s' (mem_update_erase h)
    pool_unpopped := fun k' s' c' h hc' => by
      have h' := mem_update_erase h
      rcases update_cases hc' with ⟨rfl, hv⟩ | ⟨-, hc'⟩
      · -- the popped snowflake is in no pool any more
        obtain rfl := Option.some.inj hv
        obtain rfl := hI.pool_unique hs₀ h'
        have hmem : s ∈ (st.pools k).erase s := by simpa [State.clientPop] using h
        exact (hI.pools_nodup k).not_mem_erase hmem
      · exact hI.pool_unpopped k' s' c' h' hc'
    pools_nodup := nodup_update hI.pools_nodup ((hI.pools_nodup k).erase s)
    popped_unique := fun c₁ c₂ s' h₁ h₂ => by
      rcases update_cases h₁ with ⟨rfl, hv₁⟩ | ⟨-, ho₁⟩ <;>
        rcases update_cases h₂ with ⟨rfl, hv₂⟩ | ⟨-, ho₂⟩
      · rfl
      · obtain rfl := Option.some.inj hv₁
        exact absurd ho₂ (hI.pool_unpopped k s c₂ hs₀)
      · obtain rfl := Option.some.inj hv₂
        exact absurd ho₁ (hI.pool_unpopped k s c₁ hs₀)
      · exact hI.popped_unique c₁ c₂ s' ho₁ ho₂
    pc_popped := fun c' p s' h hp => by
      rcases update_cases h with ⟨rfl, hv⟩ | ⟨hne, h⟩
      · obtain rfl := Option.some.inj hv
        simp only [ClientPc.snowflake?, Option.some.injEq] at hp
        subst hp
        exact update_self _ _ _
      · exact (update_of_ne hne _ _).trans (hI.pc_popped c' p s' h hp)
    pop_unpopped := fun c' k' h => by
      rcases update_cases h with ⟨-, hv⟩ | ⟨hne, h⟩
      · simp at hv
      · exact (update_of_ne hne _ _).trans (hI.pop_unpopped c' k' h)
    pop_restricted := fun c' h => by
      rcases update_cases h with ⟨-, hv⟩ | ⟨-, h⟩
      · simp at hv
      · exact hI.pop_restricted c' h
    popped_nat := fun c' s' h => by
      rcases update_cases h with ⟨rfl, hv⟩ | ⟨-, h⟩
      · obtain rfl := Option.some.inj hv
        obtain ⟨O, hO⟩ := Option.ne_none_iff_exists'.mp (hI.clients_ne_none hc)
        obtain ⟨S, hS, hk⟩ := hI.pool_nat k s hs₀
        refine ⟨O, S, hO, hS, ?_⟩
        -- the pool it came from: the restricted one only for an unrestricted client
        cases k with
        | unrestricted => exact .inr (getPool_eq_unrestricted.mp hk)
        | restricted =>
          obtain ⟨O', hO', hn⟩ := hI.pop_restricted c' hc
          obtain rfl : O = O' := Option.some.inj (hO.symm.trans hO')
          exact .inl hn
      · exact hI.popped_nat c' s' h
    waiter_popped := fun s' c' h => by
      have h' := hI.waiter_popped s' c' h
      have hne : c' ≠ c := by
        rintro rfl
        simp [hpc] at h'
      exact (update_of_ne hne _ _).trans h'
    client_answer := fun c' p a h hc' hr => by
      rcases update_cases hc' with ⟨rfl, hv⟩ | ⟨hne, hc'⟩
      · obtain rfl := Option.some.inj hv
        simp [ClientPc.result?] at hr
      · obtain ⟨A, s', S, hA, ha, hh, hp, hS, hid⟩ := hI.client_answer c' p a h hc' hr
        exact ⟨A, s', S, hA, ha, hh, (update_of_ne hne _ _).trans hp, hS, hid⟩ }

theorem Inv.clientRestrictedEmpty (hI : Inv st) (c : ClientId)
    (hc : st.clientPc c = some (.pop .restricted)) : Inv (st.clientRestrictedEmpty c) := by
  obtain ⟨h1, h2, h3, h4⟩ := hI.client_move hc (.pop .unrestricted)
    (by simp [ClientPc.snowflake?]) (fun _ _ => hI.pop_unpopped c _ hc) (by simp)
  exact { hI with
    clients_none := h1, pc_popped := h2, pop_unpopped := h3, pop_restricted := h4
    client_answer := hI.client_answer_move hc _ (by simp [ClientPc.result?]) }

theorem Inv.clientNoProxies (hI : Inv st) (c : ClientId)
    (hc : st.clientPc c = some (.pop .unrestricted)) : Inv (st.clientNoProxies c) := by
  obtain ⟨h1, h2, h3, h4⟩ := hI.client_move hc (.done .noProxies)
    (by simp [ClientPc.snowflake?]) (by simp) (by simp)
  exact { hI with
    clients_none := h1, pc_popped := h2, pop_unpopped := h3, pop_restricted := h4
    client_answer := hI.client_answer_move hc _ (by simp [ClientPc.result?]) }

theorem Inv.clientAnswer (hI : Inv st) (c : ClientId) (h : AnswerId) (A : AnswerRequest)
    (s : SnowflakeId) (hc : st.clientPc c = some (.wait s)) (hA : st.answers h = some A)
    (hh : st.answerPc h = some (.send s)) : Inv (st.clientAnswer c h A s) := by
  have hpop : st.popped c = some s := hI.pc_popped c _ s hc rfl
  obtain ⟨h1, h2, h3, h4⟩ := hI.client_move hc (.delete s (.answer A.answer h))
    (popped_of_holds hpop rfl) (by simp) (by simp)
  -- the handler that sends looked up this very snowflake
  obtain ⟨A', S, hA', hS, hid⟩ := hI.answer_send h s hh
  obtain rfl : A = A' := Option.some.inj (hA.symm.trans hA')
  exact { hI with
    clients_none := h1, pc_popped := h2, pop_unpopped := h3, pop_restricted := h4
    answer_send := fun h' s' hh' => hI.answer_send h' s' (eq_of_update_ne hh' (by simp))
    client_answer := fun c' p a h' hc' hr => by
      rcases update_cases hc' with ⟨rfl, hv⟩ | ⟨-, hc'⟩
      · obtain rfl := Option.some.inj hv
        simp only [ClientPc.result?, Option.some.injEq, ClientResult.answer.injEq] at hr
        obtain ⟨rfl, rfl⟩ := hr
        exact ⟨A, s, S, hA, rfl, update_self _ _ _, hpop, hS, hid.symm⟩
      · obtain ⟨A'', s'', S'', hA'', ha, hh'', hp, hS'', hid''⟩ :=
          hI.client_answer c' p a h' hc' hr
        exact ⟨A'', s'', S'', hA'', ha, update_keep (by simp [hh]) hh'', hp, hS'', hid''⟩ }

theorem Inv.clientTimeout (hI : Inv st) (c : ClientId) (s : SnowflakeId)
    (hc : st.clientPc c = some (.wait s)) : Inv (st.clientTimeout c s) := by
  have hpop : st.popped c = some s := hI.pc_popped c _ s hc rfl
  obtain ⟨h1, h2, h3, h4⟩ := hI.client_move hc (.delete s .timedOut)
    (popped_of_holds hpop rfl) (by simp) (by simp)
  exact { hI with
    clients_none := h1, pc_popped := h2, pop_unpopped := h3, pop_restricted := h4
    client_answer := hI.client_answer_move hc _ (by simp [ClientPc.result?]) }

theorem Inv.clientDelete (hI : Inv st) (c : ClientId) (s : SnowflakeId) (r : ClientResult)
    (S : Snowflake) (hc : st.clientPc c = some (.delete s r)) : Inv (st.clientDelete c r S) := by
  obtain ⟨h1, h2, h3, h4⟩ := hI.client_move hc (.done r)
    (by simp [ClientPc.snowflake?]) (by simp) (by simp)
  exact { hI with
    clients_none := h1, pc_popped := h2, pop_unpopped := h3, pop_restricted := h4
    client_answer := hI.client_answer_move hc (.done r)
      (fun a h hr => by simpa [ClientPc.result?] using hr)
    map_id := fun k s' h => hI.map_id k s' (eq_of_update_ne h (by simp)) }

theorem Inv.answerArrive (hI : Inv st) (h : AnswerId) (A : AnswerRequest)
    (hh : st.answers h = none) : Inv (st.answerArrive h A) :=
  { hI with
    answer_send := fun h' s hh' => by
      rcases update_cases hh' with ⟨-, hv⟩ | ⟨hne, hh'⟩
      · simp at hv
      · obtain ⟨A', S, hA', hS, hid⟩ := hI.answer_send h' s hh'
        exact ⟨A', S, (update_of_ne hne _ _).trans hA', hS, hid⟩
    client_answer := fun c p a h' hc hr => by
      obtain ⟨A', s, S, hA', ha, hh', hp, hS, hid⟩ := hI.client_answer c p a h' hc hr
      have hne : h' ≠ h := ne_of_some_of_none hA' hh
      exact ⟨A', s, S, (update_of_ne hne _ _).trans hA', ha, (update_of_ne hne _ _).trans hh',
        hp, hS, hid⟩ }

theorem Inv.answerLookupHit (hI : Inv st) (h : AnswerId) (A : AnswerRequest) (s : SnowflakeId)
    (hA : st.answers h = some A) (hh : st.answerPc h = some .lookup)
    (hm : st.idToSnowflake A.sid = some s) : Inv (st.answerLookupHit h s) :=
  { hI with
    answer_send := fun h' s' hh' => by
      rcases update_cases hh' with ⟨rfl, hv⟩ | ⟨-, hh'⟩
      · -- the snowflake found under `req.Sid` has that id
        obtain rfl : s = s' := by simpa using hv
        obtain ⟨S, hS, hid⟩ := hI.map_id A.sid s hm
        exact ⟨A, S, hA, hS, hid⟩
      · exact hI.answer_send h' s' hh'
    client_answer := fun c p a h' hc hr => by
      obtain ⟨A', s', S, hA', ha, hh', hp, hS, hid⟩ := hI.client_answer c p a h' hc hr
      exact ⟨A', s', S, hA', ha, update_keep (by simp [hh]) hh', hp, hS, hid⟩ }

theorem Inv.answerLookupMiss (hI : Inv st) (h : AnswerId) (hh : st.answerPc h = some .lookup) :
    Inv (st.answerLookupMiss h) :=
  { hI with
    answer_send := fun h' s hh' => hI.answer_send h' s (eq_of_update_ne hh' (by simp))
    client_answer := fun c p a h' hc hr => by
      obtain ⟨A', s', S, hA', ha, hh', hp, hS, hid⟩ := hI.client_answer c p a h' hc hr
      exact ⟨A', s', S, hA', ha, update_keep (by simp [hh]) hh', hp, hS, hid⟩ }

theorem Inv.step (hI : Inv st) {st' : State} (h : Step st st') : Inv st' := by
  cases h with
  | pollArrive r P hr => exact hI.pollArrive r P hr
  | brokerReceive r _ hp => exact hI.brokerReceive r hp
  | brokerPush r P s _ hP hs => exact hI.brokerPush r P s hP hs
  | brokerRegister s S _ hS => exact hI.brokerRegister s S hS
  | brokerSpawn s _ hw => exact hI.brokerSpawn s hw
  | waiterOffer s c hw hc => exact hI.waiterOffer s c hw hc
  | waiterForward s S c hS hw hp => exact hI.waiterForward s S c hS hw hp
  | waiterTimeout s hw => exact hI.waiterTimeout s hw
  | waiterRemove s S _ hw => exact hI.waiterRemove s S hw
  | waiterDelete s S _ hw => exact hI.waiterDelete s S hw
  | waiterClose s S _ hw hp => exact hI.waiterClose s S hw hp
  | clientArrive c O hc => exact hI.clientArrive c O hc
  | clientPop c k s hc hs => exact hI.clientPop c k s hc hs
  | clientRestrictedEmpty c hc _ => exact hI.clientRestrictedEmpty c hc
  | clientNoProxies c hc _ => exact hI.clientNoProxies c hc
  | clientAnswer c h A s hc hA hh => exact hI.clientAnswer c h A s hc hA hh
  | clientTimeout c s hc => exact hI.clientTimeout c s hc
  | clientDelete c s r S hc _ => exact hI.clientDelete c s r S hc
  | answerArrive h A hh => exact hI.answerArrive h A hh
  | answerLookupHit h A s hA hh hm => exact hI.answerLookupHit h A s hA hh hm
  | answerLookupMiss h A _ hh _ => exact hI.answerLookupMiss h hh

end Preservation

theorem broker_inv : broker.Inductive Inv where
  init := fun _ h => h ▸ Inv.init
  step := fun _ _ h hI => hI.step h

/-- What the matching guarantees in a state: the delivered pairs form a matching between
client offers and polls; a returned answer was sent, for the snowflake the client popped,
by a `ProxyAnswers` request under that snowflake's id; and no delivered pair has two
restricted sides. -/
def MatchingSafe (st : State) : Prop :=
  (st.deliveries.map Prod.fst).Nodup ∧ (st.deliveries.map Prod.snd).Nodup ∧
  (∀ c a h, st.clientPc c = some (.done (.answer a h)) →
    ∃ A s S, st.answers h = some A ∧ A.answer = a ∧ st.answerPc h = some (.done true) ∧
      st.popped c = some s ∧ st.snowflakes s = some S ∧ A.sid = S.id) ∧
  (∀ c r, (c, r) ∈ st.deliveries → ∃ O P, st.clients c = some O ∧ st.polls r = some P ∧
    (O.natType = NATUnrestricted ∨ P.natType = NATUnrestricted))

theorem matching_safety {st : State} (hr : broker.Reachable st) : MatchingSafe st := by
  have hI := broker_inv.reachable hr
  exact ⟨hI.deliveries_nodup.1, hI.deliveries_nodup.2,
    fun c a h hc => hI.client_answer c _ a h hc rfl, hI.delivery_nat⟩

/-! ## A matched run -/

/-- An unrestricted proxy's poll, the snowflake the broker makes of it, an unrestricted
client's offer, and the proxy's answer. -/
def samplePoll : ProxyPoll := ⟨[0x31], [], NATUnrestricted, 0⟩
def sampleSnowflake : Snowflake := ⟨[0x31], [], NATUnrestricted, 0, 0⟩
def sampleOffer : ClientOffer := ⟨NATUnrestricted, [], []⟩
def sampleAnswer : AnswerRequest := ⟨[0x31], [0x61]⟩

/-- The poll is registered and its snowflake waits in the unrestricted pool. -/
def registeredRun : State :=
  State.init.pollArrive 0 samplePoll |>.brokerReceive 0 |>.brokerPush 0 samplePoll 0
    |>.brokerRegister 0 sampleSnowflake |>.brokerSpawn 0

theorem registeredRun_reachable : broker.Reachable registeredRun := by
  have r₀ : broker.Reachable State.init := .of_init rfl
  have r₁ := r₀.step (Step.pollArrive _ 0 samplePoll rfl)
  have r₂ := r₁.step (Step.brokerReceive _ 0 rfl rfl)
  have r₃ := r₂.step (Step.brokerPush _ 0 samplePoll 0 rfl rfl rfl)
  have r₄ := r₃.step (Step.brokerRegister _ 0 sampleSnowflake rfl rfl)
  exact r₄.step (Step.brokerSpawn _ 0 rfl rfl)

/-- The unrestricted pool holds the snowflake, the restricted one nothing. -/
theorem registeredRun_pools (k : PoolKind) :
    registeredRun.pools k = if k = .unrestricted then [0] else [] := by
  cases k <;> simp [registeredRun, State.pollArrive, State.brokerReceive, State.brokerPush,
    State.brokerRegister, State.brokerSpawn, State.init, samplePoll, getPool]

/-- An unrestricted client found the restricted pool empty and is about to pop the
unrestricted one. -/
def poppingRun : State :=
  registeredRun.clientArrive 0 sampleOffer |>.clientRestrictedEmpty 0

theorem poppingRun_reachable : broker.Reachable poppingRun := by
  have r₁ := registeredRun_reachable.step (Step.clientArrive _ 0 sampleOffer rfl)
  exact r₁.step (Step.clientRestrictedEmpty _ 0 (by simp [State.clientArrive, sampleOffer])
    (by simpa [State.clientArrive] using registeredRun_pools .restricted))

theorem poppingRun_popOf : poppingRun.PopOf .unrestricted 0 := by
  simp [State.PopOf, poppingRun, State.clientRestrictedEmpty, State.clientArrive,
    registeredRun_pools]

/-- The client popped the snowflake, its offer reached the poll, and the proxy's
`ProxyAnswers` handler found the snowflake and is about to send its answer. -/
def answeringRun : State :=
  poppingRun.clientPop 0 .unrestricted 0 |>.waiterOffer 0 0 |>.waiterForward 0 sampleSnowflake 0
    |>.answerArrive 0 sampleAnswer |>.answerLookupHit 0 0

theorem answeringRun_reachable : broker.Reachable answeringRun := by
  have r₁ := poppingRun_reachable.step (Step.clientPop _ 0 .unrestricted 0 rfl poppingRun_popOf)
  have r₂ := r₁.step (Step.waiterOffer _ 0 0 rfl rfl)
  have r₃ := r₂.step (Step.waiterForward _ 0 sampleSnowflake 0 rfl rfl rfl)
  have r₄ := r₃.step (Step.answerArrive _ 0 sampleAnswer rfl)
  exact r₄.step (Step.answerLookupHit _ 0 sampleAnswer 0 rfl rfl (by decide))

/-- The answer reached the client, which then returned. -/
def answeredRun : State :=
  answeringRun.clientAnswer 0 0 sampleAnswer 0
    |>.clientDelete 0 (.answer sampleAnswer.answer 0) sampleSnowflake

theorem answeredRun_reachable : broker.Reachable answeredRun := by
  have r₁ := answeringRun_reachable.step (Step.clientAnswer _ 0 0 sampleAnswer 0 rfl rfl rfl)
  exact r₁.step (Step.clientDelete _ 0 0 _ sampleSnowflake rfl rfl)

theorem matching_safety_answeredRun :
    broker.Reachable answeredRun ∧ MatchingSafe answeredRun :=
  ⟨answeredRun_reachable, matching_safety answeredRun_reachable⟩

end Snowflake.Broker
