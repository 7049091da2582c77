import Mathlib
import Snowflake.Dtls.Header
/-
`internal/flight/cache.go`: the handshake cache, which keeps every handshake message the
connection sent or received and from which the flight handlers take the messages of a flight;
and `Handshake.Unmarshal` of `pkg/protocol/handshake/handshake.go`, which `FullPullMapItems` runs
on each message it takes.

## The model

The cache is the list of its items, oldest first; the mutex makes each method one step, and a
nil item is `none`. `Pull` and `lastCacheItemForRule` are folds over the items, with the
accumulator of their loops. `Handshake.Unmarshal` checks the header and the two lengths and
dispatches on the type; the `Unmarshal` of each message type it knows is the parameter
`parseMessage`, already given the key exchange algorithm of the cipher suite, since nothing here
reads a message body. `FullPullMapItems`' map from types to messages is an `AList`, and its
sequence counter starts at a natural number.

## What is proved

`Cache.pull_eq_argmax`: for each rule, `Pull` returns Mathlib's `List.argmax` of the message
sequence over the items that match the rule, that is the match with the greatest message
sequence, the first pushed among equals, and nil when nothing matches; `lastCacheItemForRule`
returns the same.
`Cache.fullPullMapItems_eq_some_iff`: `FullPullMapItems` succeeds exactly when every rule that
is not optional finds an item, some rule finds one, and the items found parse to handshakes
whose message sequence numbers count up from the start without a gap.
-/

set_option autoImplicit false

namespace Snowflake.Dtls

/-! ## The cache -/

/-- `HandshakeCacheItem`. -/
structure HandshakeCacheItem where
  typ : UInt8
  isClient : Bool
  epoch : UInt16
  messageSequence : UInt16
  data : List UInt8
  deriving DecidableEq, Repr

/-- `HandshakeCachePullRule`. -/
structure HandshakeCachePullRule where
  typ : UInt8
  epoch : UInt16
  isClient : Bool
  optional : Bool
  deriving DecidableEq, Repr

/-- `Cache`: the items pushed, oldest first. -/
structure Cache where
  cache : List HandshakeCacheItem

/-- `NewCache`. -/
def newCache : Cache := ⟨[]⟩

/-- `Cache.Push`. -/
def Cache.push (h : Cache) (data : List UInt8) (epoch messageSequence : UInt16) (typ : UInt8)
    (isClient : Bool) : Cache :=
  ⟨h.cache ++ [⟨typ, isClient, epoch, messageSequence, data⟩]⟩

/-- `cacheItemMatchesRule`. -/
def cacheItemMatchesRule (item : HandshakeCacheItem) (rule : HandshakeCachePullRule) : Bool :=
  item.typ == rule.typ && item.isClient == rule.isClient && item.epoch == rule.epoch

/-- One round of the inner loop of `Pull` for the rule `r`, on `out[i]` so far. -/
def pullStep (r : HandshakeCachePullRule) (out : Option HandshakeCacheItem)
    (c : HandshakeCacheItem) : Option HandshakeCacheItem :=
  if c.typ == r.typ && c.isClient == r.isClient && c.epoch == r.epoch then
    match out with
    | none => some c
    | some o => if o.messageSequence < c.messageSequence then some c else out
  else out

/-- `Cache.Pull`. -/
def Cache.pull (h : Cache) (rules : List HandshakeCachePullRule) :
    List (Option HandshakeCacheItem) :=
  rules.map fun r => h.cache.foldl (pullStep r) none

/-- One round of the loop of `lastCacheItemForRule`. -/
def lastCacheItemStep (rule : HandshakeCachePullRule) (last : Option HandshakeCacheItem)
    (c : HandshakeCacheItem) : Option HandshakeCacheItem :=
  if !cacheItemMatchesRule c rule then last
  else
    match last with
    | none => some c
    | some l => if l.messageSequence < c.messageSequence then some c else last

/-- `Cache.lastCacheItemForRule`. -/
def Cache.lastCacheItemForRule (h : Cache) (rule : HandshakeCachePullRule) :
    Option HandshakeCacheItem :=
  h.cache.foldl (lastCacheItemStep rule) none

/-- `Cache.pullLastCacheItems`; `none` is its `nil, false`. -/
def Cache.pullLastCacheItems (h : Cache) :
    List HandshakeCachePullRule → Option (List (Option HandshakeCacheItem))
  | [] => some []
  | rule :: rules =>
    if !rule.optional && (h.lastCacheItemForRule rule).isNone then none
    else (h.pullLastCacheItems rules).map (h.lastCacheItemForRule rule :: ·)

/-- `Cache.PullAndMerge`. -/
def Cache.pullAndMerge (h : Cache) (rules : List HandshakeCachePullRule) : List UInt8 :=
  (h.pull rules).foldl (fun merged p =>
    match p with
    | some p => merged ++ p.data
    | none => merged) []

/-- `handshake.TypeClientHello` and the other types `SessionHash` pulls. -/
def typeClientHello : UInt8 := 1
def typeServerHello : UInt8 := 2
def typeCertificate : UInt8 := 11
def typeServerKeyExchange : UInt8 := 12
def typeCertificateRequest : UInt8 := 13
def typeServerHelloDone : UInt8 := 14
def typeClientKeyExchange : UInt8 := 16

/-- `Cache.SessionHash`, with the hash function a function of the bytes written to it; writing to
a hash never fails. The rules are in the order of RFC 5246, section 7.3. -/
def Cache.sessionHash (h : Cache) (hf : List UInt8 → List UInt8) (epoch : UInt16)
    (additional : List (List UInt8)) : List UInt8 :=
  hf (h.pullAndMerge
    [⟨typeClientHello, epoch, true, false⟩, ⟨typeServerHello, epoch, false, false⟩,
      ⟨typeCertificate, epoch, false, false⟩, ⟨typeServerKeyExchange, epoch, false, false⟩,
      ⟨typeCertificateRequest, epoch, false, false⟩, ⟨typeServerHelloDone, epoch, false, false⟩,
      ⟨typeCertificate, epoch, true, false⟩, ⟨typeClientKeyExchange, epoch, true, false⟩] ++
    additional.flatten)

/-! ## `Handshake.Unmarshal` -/

/-- Why `Handshake.Unmarshal` refuses a message: the header, one of the two length checks, a type
it has no message for, or the message's own `Unmarshal`. -/
inductive HandshakeError (ε : Type)
  | header (e : Error)
  | lengthMismatch
  | notImplemented
  | message (e : ε)
  deriving DecidableEq, Repr

/-- `handshake.Handshake`, with its message of type `μ`. -/
structure Handshake (μ : Type) where
  header : HandshakeHeader
  message : μ

/-- The types the switch of `Handshake.Unmarshal` has a message for; `TypeHelloRequest` and the
others are `ErrNotImplemented`. -/
def messageTypes : List UInt8 := [1, 3, 2, 8, 11, 12, 13, 14, 16, 20, 15]

variable {ε μ : Type}

/-- `Handshake.Unmarshal`, with `parseMessage t` the `Unmarshal` of the message of type `t`. -/
def Handshake.unmarshal (parseMessage : UInt8 → List UInt8 → Except ε μ) (data : List UInt8) :
    Except (HandshakeError ε) (Handshake μ) :=
  match HandshakeHeader.unmarshal data with
  | .error e => .error (.header e)
  | .ok header =>
    if UInt32.ofNat (data.length - headerLength) ≠ bigEndianUint24 (data.drop 1) then
      .error .lengthMismatch
    else if bigEndianUint24 (data.drop 1) ≠ header.fragmentLength then .error .lengthMismatch
    else if data.getD 0 0 ∉ messageTypes then .error .notImplemented
    else
      match parseMessage (data.getD 0 0) (data.drop headerLength) with
      | .error e => .error (.message e)
      | .ok m => .ok ⟨header, m⟩

/-! ## `FullPullMapItems` -/

/-- The loop of `fullPullMapCacheItems` over the rules and the items found for them, from `seq`
with the map `out` and the items `items` so far; `none` is its `return startSeq, nil, nil, false`
on a message that does not parse or is not the one expected next. -/
def fullPullLoop (parseMessage : UInt8 → List UInt8 → Except ε μ) :
    Nat → AList (fun _ : UInt8 => μ) → List HandshakeCacheItem →
      List (HandshakeCachePullRule × Option HandshakeCacheItem) →
      Option (Nat × AList (fun _ : UInt8 => μ) × List HandshakeCacheItem)
  | seq, out, items, [] => some (seq, out, items)
  | seq, out, items, (_, none) :: rest => fullPullLoop parseMessage seq out items rest
  | seq, out, items, (r, some item) :: rest =>
    match Handshake.unmarshal parseMessage item.data with
    | .error _ => none
    | .ok rawHandshake =>
      if UInt16.ofNat seq ≠ rawHandshake.header.messageSequence then none
      else
        fullPullLoop parseMessage (seq + 1) (out.insert r.typ rawHandshake.message)
          (items ++ [item]) rest

/-- `fullPullMapCacheItems`: the sequence number it returns, with the map and the items when it
returns `true`. The items `ci` are those found for the rules, one for each. -/
def fullPullMapCacheItems (parseMessage : UInt8 → List UInt8 → Except ε μ) (startSeq : Nat)
    (rules : List HandshakeCachePullRule) (ci : List (Option HandshakeCacheItem)) :
    Nat × Option (AList (fun _ : UInt8 => μ) × List HandshakeCacheItem) :=
  match fullPullLoop parseMessage startSeq ∅ [] (rules.zip ci) with
  | none => (startSeq, none)
  | some (seq, out, items) => if items = [] then (seq, none) else (seq, some (out, items))

/-- `Cache.FullPullMapItems`. -/
def Cache.fullPullMapItems (h : Cache) (parseMessage : UInt8 → List UInt8 → Except ε μ)
    (startSeq : Nat) (rules : List HandshakeCachePullRule) :
    Nat × Option (AList (fun _ : UInt8 => μ) × List HandshakeCacheItem) :=
  match h.pullLastCacheItems rules with
  | none => (startSeq, none)
  | some ci => fullPullMapCacheItems parseMessage startSeq rules ci

/-- `Cache.FullPullMap`. -/
def Cache.fullPullMap (h : Cache) (parseMessage : UInt8 → List UInt8 → Except ε μ)
    (startSeq : Nat) (rules : List HandshakeCachePullRule) :
    Nat × Option (AList (fun _ : UInt8 => μ)) :=
  ((h.fullPullMapItems parseMessage startSeq rules).1,
    (h.fullPullMapItems parseMessage startSeq rules).2.map Prod.fst)

/-! ## The item a rule finds -/

section Last

variable {rule : HandshakeCachePullRule} {c : HandshakeCacheItem}

theorem lastCacheItemStep_of_not (h : cacheItemMatchesRule c rule = false)
    (last : Option HandshakeCacheItem) : lastCacheItemStep rule last c = last := by
  simp only [lastCacheItemStep, h, Bool.not_false, if_true]

theorem lastCacheItemStep_none (h : cacheItemMatchesRule c rule = true) :
    lastCacheItemStep rule none c = some c := by
  simp only [lastCacheItemStep, h, Bool.not_true, Bool.false_eq_true, if_false]

theorem lastCacheItemStep_some (h : cacheItemMatchesRule c rule = true) (o : HandshakeCacheItem) :
    lastCacheItemStep rule (some o) c =
      if o.messageSequence.toNat < c.messageSequence.toNat then some c else some o := by
  simp only [lastCacheItemStep, h, Bool.not_true, Bool.false_eq_true, if_false,
    UInt16.lt_iff_toNat_lt]

/-- The loop of `Pull` and that of `lastCacheItemForRule` take the same step. -/
theorem pullStep_eq (r : HandshakeCachePullRule) : pullStep r = lastCacheItemStep r := by
  funext out c
  by_cases hm : cacheItemMatchesRule c r = true
  · have hm' : (c.typ == r.typ && c.isClient == r.isClient && c.epoch == r.epoch) = true := hm
    simp only [pullStep, lastCacheItemStep, hm, hm', Bool.not_true, Bool.false_eq_true, if_true,
      if_false]
  · have hm' : (c.typ == r.typ && c.isClient == r.isClient && c.epoch == r.epoch) = false :=
      Bool.eq_false_iff.mpr hm
    simp only [pullStep, lastCacheItemStep, Bool.eq_false_iff.mpr hm, hm', Bool.not_false,
      Bool.false_eq_true, if_true, if_false]

/-- The loop of `lastCacheItemForRule` computes Mathlib's `List.argmax` of the message sequence
over the items that match the rule. The induction adds the items one at a time at the end, as the
loop reads them, against `List.argmax_concat`. -/
theorem Cache.lastCacheItemForRule_eq_argmax (h : Cache) (rule : HandshakeCachePullRule) :
    h.lastCacheItemForRule rule =
      (h.cache.filter fun c => cacheItemMatchesRule c rule).argmax
        fun c => c.messageSequence.toNat := by
  rw [Cache.lastCacheItemForRule]
  induction h.cache using List.reverseRecOn with
  | nil => rfl
  | append_singleton l c ih =>
    rw [List.foldl_append, List.foldl_cons, List.foldl_nil, ih, List.filter_append]
    cases hm : cacheItemMatchesRule c rule with
    | false =>
      rw [lastCacheItemStep_of_not hm, List.filter_singleton, hm, cond_false, List.append_nil]
    | true =>
      rw [List.filter_singleton, hm, cond_true, List.argmax_concat]
      cases (l.filter fun c => cacheItemMatchesRule c rule).argmax
          fun c => c.messageSequence.toNat with
      | none => exact lastCacheItemStep_none hm
      | some o => exact lastCacheItemStep_some hm o

/-- A rule finds an item exactly when some item matches it. -/
theorem Cache.lastCacheItemForRule_isSome_iff (h : Cache) (rule : HandshakeCachePullRule) :
    (h.lastCacheItemForRule rule).isSome = true ↔
      ∃ c ∈ h.cache, cacheItemMatchesRule c rule = true := by
  rw [Cache.lastCacheItemForRule_eq_argmax, Option.isSome_iff_ne_none, ne_eq, List.argmax_eq_none]
  constructor
  · intro hne
    obtain ⟨c, hc⟩ := List.exists_mem_of_ne_nil _ hne
    exact ⟨c, (List.mem_filter.mp hc).1, (List.mem_filter.mp hc).2⟩
  · rintro ⟨c, hc, hm⟩
    exact List.ne_nil_of_mem (List.mem_filter.mpr ⟨hc, hm⟩)

/-- For each rule, `Pull` returns the item of greatest message sequence among those that match
it, the first pushed among equals, and nil when none does: Mathlib's `List.argmax`. The second
loop written for the same choice, `lastCacheItemForRule`, returns the same item. -/
theorem Cache.pull_eq_argmax (h : Cache) (rules : List HandshakeCachePullRule) :
    h.pull rules = rules.map (fun r =>
      (h.cache.filter fun c => cacheItemMatchesRule c r).argmax
        fun c => c.messageSequence.toNat) ∧
    ∀ r, h.lastCacheItemForRule r =
      (h.cache.filter fun c => cacheItemMatchesRule c r).argmax
        fun c => c.messageSequence.toNat := by
  refine ⟨?_, Cache.lastCacheItemForRule_eq_argmax h⟩
  rw [Cache.pull]
  refine List.map_congr_left fun r _ => ?_
  rw [pullStep_eq, ← Cache.lastCacheItemForRule_eq_argmax]
  rfl

end Last

/-! ## What `FullPullMapItems` accepts -/

/-- The items parse, in order, to handshakes whose message sequence numbers count up from `seq`. -/
inductive ParsesFrom (parseMessage : UInt8 → List UInt8 → Except ε μ) :
    Nat → List HandshakeCacheItem → Prop
  | nil (seq : Nat) : ParsesFrom parseMessage seq []
  | cons {seq : Nat} {item : HandshakeCacheItem} {items : List HandshakeCacheItem}
      (hs : Handshake μ) (hu : Handshake.unmarshal parseMessage item.data = .ok hs)
      (hseq : hs.header.messageSequence = UInt16.ofNat seq)
      (rest : ParsesFrom parseMessage (seq + 1) items) :
      ParsesFrom parseMessage seq (item :: items)

section Full

variable (parseMessage : UInt8 → List UInt8 → Except ε μ)

theorem parsesFrom_cons_iff {seq : Nat} {item : HandshakeCacheItem}
    {items : List HandshakeCacheItem} :
    ParsesFrom parseMessage seq (item :: items) ↔
      ∃ hs : Handshake μ, Handshake.unmarshal parseMessage item.data = .ok hs ∧
        hs.header.messageSequence = UInt16.ofNat seq ∧ ParsesFrom parseMessage (seq + 1) items := by
  constructor
  · rintro (_ | ⟨hs, hu, hseq, rest⟩)
    exact ⟨hs, hu, hseq, rest⟩
  · rintro ⟨hs, hu, hseq, rest⟩
    exact .cons hs hu hseq rest

/-- What the loop of `fullPullMapCacheItems` accepts: the items found, in the order of the
rules, parse and count up from `seq`; it then returns the sequence number after them and adds
them to the items kept. The induction is on the rules, with the counter, the map and the items
kept generalized. -/
theorem fullPullLoop_eq_some_iff (pairs : List (HandshakeCachePullRule × Option HandshakeCacheItem))
    (seq : Nat) (out : AList (fun _ : UInt8 => μ)) (items : List HandshakeCacheItem) (seq' : Nat)
    (items' : List HandshakeCacheItem) :
    (∃ out', fullPullLoop parseMessage seq out items pairs = some (seq', out', items')) ↔
      ParsesFrom parseMessage seq (pairs.filterMap Prod.snd) ∧
        seq' = seq + (pairs.filterMap Prod.snd).length ∧
        items' = items ++ pairs.filterMap Prod.snd := by
  induction pairs generalizing seq out items with
  | nil =>
    simp only [fullPullLoop, Option.some.injEq, Prod.mk.injEq, List.filterMap_nil, List.length_nil,
      Nat.add_zero, List.append_nil]
    constructor
    · rintro ⟨out', rfl, -, rfl⟩
      exact ⟨.nil seq, rfl, rfl⟩
    · rintro ⟨-, rfl, rfl⟩
      exact ⟨out, rfl, rfl, rfl⟩
  | cons p rest ih =>
    obtain ⟨r, _ | item⟩ := p
    · rw [List.filterMap_cons_none (show Prod.snd (r, none) = none from rfl)]
      exact ih seq out items
    · rw [List.filterMap_cons_some (show Prod.snd (r, some item) = some item from rfl),
        parsesFrom_cons_iff, List.length_cons]
      -- the item found must parse and be the message expected next
      cases hu : Handshake.unmarshal parseMessage item.data with
      | error e =>
        simp only [fullPullLoop, hu, reduceCtorEq, false_and, exists_false]
      | ok hs =>
        by_cases hseq : UInt16.ofNat seq = hs.header.messageSequence
        · have hstep : fullPullLoop parseMessage seq out items ((r, some item) :: rest) =
              fullPullLoop parseMessage (seq + 1) (out.insert r.typ hs.message) (items ++ [item])
                rest := by
            simp only [fullPullLoop, hu, hseq, ne_eq, not_true_eq_false, if_false]
          rw [hstep, ih (seq + 1) _ (items ++ [item]), List.append_assoc, List.singleton_append]
          constructor
          · rintro ⟨hp, rfl, rfl⟩
            exact ⟨⟨hs, rfl, hseq.symm, hp⟩, by omega, rfl⟩
          · rintro ⟨⟨hs', hu', -, hp⟩, rfl, rfl⟩
            exact ⟨hp, by omega, rfl⟩
        · have hstep : fullPullLoop parseMessage seq out items ((r, some item) :: rest) = none := by
            simp only [fullPullLoop, hu, hseq, ne_eq, not_false_eq_true, if_true]
          rw [hstep]
          simp only [reduceCtorEq, exists_false, false_iff, not_and]
          rintro ⟨hs', hu', hseq', -⟩
          rw [Except.ok.injEq] at hu'
          subst hu'
          exact absurd hseq'.symm hseq

/-- `pullLastCacheItems` fails exactly when a rule that is not optional finds nothing, and
otherwise returns what each rule finds. -/
theorem Cache.pullLastCacheItems_eq_some_iff (h : Cache) (rules : List HandshakeCachePullRule)
    (ci : List (Option HandshakeCacheItem)) :
    h.pullLastCacheItems rules = some ci ↔
      (∀ r ∈ rules, r.optional = false → (h.lastCacheItemForRule r).isSome = true) ∧
        ci = rules.map h.lastCacheItemForRule := by
  induction rules generalizing ci with
  | nil =>
    simp only [Cache.pullLastCacheItems, Option.some.injEq, List.not_mem_nil, false_implies,
      implies_true, List.map_nil, true_and]
    exact eq_comm
  | cons rule rules ih =>
    rw [Cache.pullLastCacheItems, List.forall_mem_cons, List.map_cons]
    by_cases hfail : (!rule.optional && (h.lastCacheItemForRule rule).isNone) = true
    · rw [if_pos hfail]
      simp only [Bool.and_eq_true, Bool.not_eq_true', Option.isNone_iff_eq_none] at hfail
      simp only [reduceCtorEq, false_iff, not_and]
      rintro ⟨hr, -⟩
      rw [hfail.2] at hr
      exact absurd (hr hfail.1) (by simp)
    · rw [if_neg hfail]
      have hfirst : rule.optional = false → (h.lastCacheItemForRule rule).isSome = true := by
        intro ho
        simpa [ho, Option.isNone_iff_eq_none, Option.isSome_iff_ne_none] using hfail
      cases hrest : h.pullLastCacheItems rules with
      | none =>
        simp only [Option.map_none, reduceCtorEq, false_iff, not_and]
        rintro ⟨-, hall⟩ hci
        exact absurd ((ih (rules.map h.lastCacheItemForRule)).mpr ⟨hall, rfl⟩) (by rw [hrest]; simp)
      | some ci' =>
        obtain ⟨hall, rfl⟩ := (ih ci').mp hrest
        simp only [Option.map_some, Option.some.injEq]
        constructor
        · rintro rfl
          exact ⟨⟨hfirst, hall⟩, rfl⟩
        · rintro ⟨-, rfl⟩
          rfl

/-- The items a loop over the rules and what they find keeps are those the rules find. -/
theorem filterMap_snd_zip_map {α β : Type} (g : α → Option β) (l : List α) :
    (l.zip (l.map g)).filterMap Prod.snd = l.filterMap g := by
  induction l with
  | nil => rfl
  | cons a l ih =>
    rw [List.map_cons, List.zip_cons_cons, List.filterMap_cons, List.filterMap_cons, ih]

/-- `fullPullMapCacheItems` succeeds exactly when the items found for the rules parse and count up
from `startSeq`, and there is one at least. -/
theorem fullPullMapCacheItems_eq_some_iff (startSeq : Nat) (rules : List HandshakeCachePullRule)
    (ci : List (Option HandshakeCacheItem)) (seq : Nat) (items : List HandshakeCacheItem) :
    (∃ out, fullPullMapCacheItems parseMessage startSeq rules ci = (seq, some (out, items))) ↔
      items = (rules.zip ci).filterMap Prod.snd ∧ items ≠ [] ∧
        ParsesFrom parseMessage startSeq items ∧ seq = startSeq + items.length := by
  have hloop := fullPullLoop_eq_some_iff parseMessage (rules.zip ci) startSeq ∅ [] seq items
  rw [List.nil_append] at hloop
  rw [fullPullMapCacheItems]
  cases hl : fullPullLoop parseMessage startSeq ∅ [] (rules.zip ci) with
  | none =>
    -- a message does not parse or is not the one expected next
    rw [hl] at hloop
    simp only [reduceCtorEq, exists_false, false_iff] at hloop
    simp only [Prod.mk.injEq, reduceCtorEq, and_false, exists_false, false_iff, not_and]
    intro hitems _ hpf hseq
    exact hloop ⟨hitems ▸ hpf, hitems ▸ hseq, hitems⟩
  | some res =>
    obtain ⟨seq₁, out₁, items₁⟩ := res
    have hres := (fullPullLoop_eq_some_iff parseMessage _ startSeq ∅ [] seq₁ items₁).mp ⟨out₁, hl⟩
    rw [List.nil_append] at hres
    obtain ⟨hpf, rfl, rfl⟩ := hres
    dsimp only
    by_cases hne : (rules.zip ci).filterMap Prod.snd = []
    · -- no rule found anything
      rw [if_pos hne]
      simp only [Prod.mk.injEq, reduceCtorEq, and_false, exists_false, false_iff, not_and]
      intro hitems hnil
      exact absurd (hitems.trans hne) hnil
    · rw [if_neg hne]
      simp only [Prod.mk.injEq, Option.some.injEq]
      constructor
      · rintro ⟨out, rfl, -, rfl⟩
        exact ⟨rfl, hne, hpf, rfl⟩
      · rintro ⟨rfl, -, -, rfl⟩
        exact ⟨out₁, rfl, rfl, rfl⟩

/-- `FullPullMapItems` succeeds exactly when every rule that is not optional finds an item, some
rule finds one, and the items found, in the order of the rules, parse to handshakes whose
message sequence numbers count up from `startSeq` without a gap; it then returns them, and the
sequence number after the last. -/
theorem Cache.fullPullMapItems_eq_some_iff (h : Cache) (startSeq : Nat)
    (rules : List HandshakeCachePullRule) (seq : Nat) (items : List HandshakeCacheItem) :
    (∃ out, h.fullPullMapItems parseMessage startSeq rules = (seq, some (out, items))) ↔
      (∀ r ∈ rules, r.optional = false → ∃ c ∈ h.cache, cacheItemMatchesRule c r = true) ∧
        items = rules.filterMap h.lastCacheItemForRule ∧ items ≠ [] ∧
        ParsesFrom parseMessage startSeq items ∧ seq = startSeq + items.length := by
  have hfound : (∀ r ∈ rules, r.optional = false → (h.lastCacheItemForRule r).isSome = true) ↔
      ∀ r ∈ rules, r.optional = false → ∃ c ∈ h.cache, cacheItemMatchesRule c r = true := by
    simp only [Cache.lastCacheItemForRule_isSome_iff]
  rw [Cache.fullPullMapItems]
  cases hp : h.pullLastCacheItems rules with
  | none =>
    -- a rule that is not optional finds nothing
    simp only [Prod.mk.injEq, reduceCtorEq, and_false, exists_false, false_iff, not_and]
    intro hall
    have := (h.pullLastCacheItems_eq_some_iff rules _).mpr ⟨hfound.mpr hall, rfl⟩
    rw [hp] at this
    cases this
  | some ci =>
    dsimp only
    obtain ⟨hall, rfl⟩ := (h.pullLastCacheItems_eq_some_iff rules ci).mp hp
    rw [fullPullMapCacheItems_eq_some_iff, filterMap_snd_zip_map]
    exact ⟨fun hr => ⟨hfound.mp hall, hr⟩, fun hr => hr.2⟩

end Full

end Snowflake.Dtls
