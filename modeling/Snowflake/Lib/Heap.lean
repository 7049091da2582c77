import Mathlib
import Snowflake.Lib.HeapOrder
/-
Go's `container/heap`: `up`, `down`, `Init`, `Push`, `Pop`, `Remove` and `Fix`, over any
`heap.Interface`.

An interface is its five methods on a state `σ`. What the algorithms do is read off a list:
`Refines` says how a state is seen as a list of keyed elements, with `Less` comparing keys
and `Swap` swapping positions, on the states where an invariant `Good` of the instance holds,
which `Swap` keeps. On that list the sifts are the ones of `HeapOrder`. `up_spec` and
`downLoop_spec` follow the recursion of `up` and `down`, one `move` lemma a round. Each of
`push_spec`, `pop_spec`, `remove_spec` and `fix_spec` says that the method returns, keeps
`Good` and the heap order, and which element goes or comes. A proof about an instance then
only shows its own methods are lawful, and its own invariant kept by what it does around the
heap.
-/

set_option autoImplicit false

namespace GoHeap

variable {σ α : Type}

/-- `heap.Interface`: `sort.Interface`'s `Len`, `Less` and `Swap`, and `Push` and `Pop`. A
method that can panic returns the panic's message as an error. -/
structure Interface (σ α : Type) where
  len : σ → Except String Nat
  less : σ → Nat → Nat → Bool
  swap : σ → Nat → Nat → σ
  push : σ → α → Except String σ
  pop : σ → Except String (σ × α)

variable (h : Interface σ α)

/-- `up`. -/
def up (s : σ) (j : Nat) : σ :=
  -- Go's `i == j` holds only at the root, where `(0 - 1) / 2` is `0`
  if (j - 1) / 2 = j then s
  else if !h.less s j ((j - 1) / 2) then s
  else up (h.swap s ((j - 1) / 2) j) ((j - 1) / 2)
termination_by j
decreasing_by omega

/-- The child `down` compares against: the right one when it is there and less than the left
one. -/
def downChild (s : σ) (i n : Nat) : Nat :=
  if 2 * i + 2 < n ∧ h.less s (2 * i + 2) (2 * i + 1) = true then 2 * i + 2 else 2 * i + 1

/-- The loop of `down`: the state where the element stops, and its index there. -/
def downLoop (s : σ) (i n : Nat) : σ × Nat :=
  if n ≤ 2 * i + 1 then (s, i)
  else if !h.less s (downChild h s i n) i then (s, i)
  else downLoop (h.swap s i (downChild h s i n)) (downChild h s i n) n
termination_by n - i
decreasing_by simp only [downChild]; split <;> omega

/-- `down`, with whether the element moved. -/
def down (s : σ) (i0 n : Nat) : σ × Bool :=
  let r := downLoop h s i0 n
  (r.1, decide (i0 < r.2))

/-- `if !down(h, i, n) { up(h, i) }`, the step `heap.Fix` and `heap.Remove` share. -/
def downThenUp (s : σ) (i n : Nat) : σ :=
  let r := down h s i n
  if !r.2 then up h r.1 i else r.1

/-- `heap.Init`: `down` from every parent, the last one first. -/
def init (s : σ) : Except String σ := do
  let n ← h.len s
  pure ((List.range (n / 2)).reverse.foldl (fun s i => (down h s i n).1) s)

/-- `heap.Push`. -/
def push (s : σ) (x : α) : Except String σ := do
  let s ← h.push s x
  let n ← h.len s
  pure (up h s (n - 1))

/-- `heap.Pop`. -/
def pop (s : σ) : Except String (σ × α) := do
  let n := (← h.len s) - 1
  h.pop (down h (h.swap s 0 n) 0 n).1

/-- `heap.Remove`. -/
def remove (s : σ) (i : Nat) : Except String (σ × α) := do
  let n := (← h.len s) - 1
  if n ≠ i then h.pop (downThenUp h (h.swap s i n) i n) else h.pop s

/-- `heap.Fix`. -/
def fix (s : σ) (i : Nat) : Except String σ := do
  let n ← h.len s
  pure (downThenUp h s i n)

theorem lt_downChild (s : σ) (i n : Nat) : i < downChild h s i n := by
  unfold downChild
  split <;> omega

theorem le_downLoop (s : σ) (i n : Nat) : i ≤ (downLoop h s i n).2 := by
  induction s, i using downLoop.induct h n with
  | case1 s i hn =>
    rw [downLoop, if_pos hn]
  | case2 s i hn hstop =>
    rw [downLoop, if_neg hn, if_pos hstop]
  | case3 s i hn hmove ih =>
    rw [downLoop, if_neg hn, if_neg hmove]
    exact le_trans (le_of_lt (lt_downChild h s i n)) ih

/-- `heap.Pop` ends in the interface's `Pop`. -/
theorem exists_pop_eq {s : σ} {n : Nat} (hl : h.len s = .ok n) : ∃ t, pop h s = h.pop t := by
  refine ⟨(down h (h.swap s 0 (n - 1)) 0 (n - 1)).1, ?_⟩
  unfold pop
  rw [hl]
  rfl

/-- `heap.Remove` ends in the interface's `Pop`. -/
theorem exists_remove_eq {s : σ} {n : Nat} (hl : h.len s = .ok n) (i : Nat) :
    ∃ t, remove h s i = h.pop t := by
  unfold remove
  rw [hl]
  change ∃ t, (if n - 1 ≠ i then _ else _) = _
  by_cases hi : n - 1 ≠ i
  · exact ⟨downThenUp h (h.swap s i (n - 1)) i (n - 1), by rw [if_pos hi]⟩
  · exact ⟨s, by rw [if_neg hi]⟩

/-! ## What the sifts leave alone

A property of states that `Swap` keeps is kept by the sifts, which only swap; `heap.Pop`
then hands the interface's `Pop` a state that has it. -/

section Frame

variable {h} (P : σ → Prop) (hP : ∀ s i j, P s → P (h.swap s i j))
include hP

theorem up_frame {s : σ} (hs : P s) (j : Nat) : P (up h s j) := by
  induction s, j using up.induct h with
  | case1 s j hij =>
    rw [up, if_pos hij]
    exact hs
  | case2 s j hij hstop =>
    rw [up, if_neg hij, if_pos hstop]
    exact hs
  | case3 s j hij hmove ih =>
    rw [up, if_neg hij, if_neg hmove]
    exact ih (hP _ _ _ hs)

theorem downLoop_frame {s : σ} (hs : P s) (i n : Nat) : P (downLoop h s i n).1 := by
  induction s, i using downLoop.induct h n with
  | case1 s i hn =>
    rw [downLoop, if_pos hn]
    exact hs
  | case2 s i hn hstop =>
    rw [downLoop, if_neg hn, if_pos hstop]
    exact hs
  | case3 s i hn hmove ih =>
    rw [downLoop, if_neg hn, if_neg hmove]
    exact ih (hP _ _ _ hs)

theorem downThenUp_frame {s : σ} (hs : P s) (i n : Nat) : P (downThenUp h s i n) := by
  unfold downThenUp down
  dsimp only
  split
  · exact up_frame P hP (downLoop_frame P hP hs i n) i
  · exact downLoop_frame P hP hs i n

/-- A `heap.Pop` that returns is the interface's `Pop` on a state that has `P`. -/
theorem pop_frame {s : σ} {r : σ × α} (hs : P s) (hpop : pop h s = .ok r) :
    ∃ t, P t ∧ h.pop t = .ok r := by
  unfold pop at hpop
  cases hl : h.len s with
  | error e =>
    rw [hl] at hpop
    cases hpop
  | ok n =>
    rw [hl] at hpop
    exact ⟨_, downLoop_frame P hP (hP _ _ _ hs) 0 (n - 1), hpop⟩

/-- A `heap.Push` that returns ends in a state that has `P`, when the interface's `Push` does. -/
theorem push_frame {s s₁ t : σ} {x : α} (hpush : h.push s x = .ok s₁) (hs₁ : P s₁)
    (ht : push h s x = .ok t) : P t := by
  unfold push at ht
  rw [hpush] at ht
  change (h.len s₁ >>= fun n => pure (up h s₁ (n - 1))) = _ at ht
  cases hl : h.len s₁ with
  | error e =>
    rw [hl] at ht
    cases ht
  | ok n =>
    rw [hl] at ht
    cases ht
    exact up_frame P hP hs₁ (n - 1)

theorem fix_frame {s t : σ} {i : Nat} (hs : P s) (ht : fix h s i = .ok t) : P t := by
  unfold fix at ht
  cases hl : h.len s with
  | error e =>
    rw [hl] at ht
    cases ht
  | ok n =>
    rw [hl] at ht
    cases ht
    exact downThenUp_frame P hP hs i n

end Frame

/-! ## Interfaces that are lists -/

variable {β κ : Type} [LinearOrder κ]

/-- How a state of `h` is read as a list of keyed elements: on the states where `Good` holds,
`Len` is the length, `Less` compares keys, `Swap` swaps positions and keeps `Good`, and `Pop`
takes the last element, which `proj` reads as what it returns. -/
structure Refines (h : Interface σ α) (view : σ → List β) (key : β → κ) (proj : β → α)
    (Good : σ → Prop) : Prop where
  len : ∀ s, Good s → h.len s = .ok (view s).length
  less : ∀ s i j, Good s → i < (view s).length → j < (view s).length →
    (h.less s i j = true ↔ KeyLt key (view s) i j)
  swap : ∀ s i j, Good s → i < (view s).length → j < (view s).length →
    view (h.swap s i j) = swapAt (view s) i j
  swap_good : ∀ s i j, Good s → i < (view s).length → j < (view s).length →
    Good (h.swap s i j)
  pop : ∀ s, Good s → 0 < (view s).length → ∃ s' b, (view s)[(view s).length - 1]? = some b ∧
    h.pop s = .ok (s', proj b) ∧ view s' = (view s).take ((view s).length - 1) ∧ Good s'

section Spec

variable {h} {view : σ → List β} {key : β → κ} {proj : β → α} {Good : σ → Prop}
  (hR : Refines h view key proj Good)

include hR

/-- **`up` restores the order** from an `UpInv` start. -/
theorem up_spec {s : σ} {n j : Nat} (hg : Good s) (hn : n ≤ (view s).length) (hj : j < n)
    (hinv : UpInv key (view s) n j) :
    Good (up h s j) ∧ PermBelow (view s) (view (up h s j)) n ∧
      IsHeap key (view (up h s j)) n := by
  induction s, j using up.induct h with
  | case1 s j hij =>
    -- at the root
    rw [up, if_pos hij]
    exact ⟨hg, PermBelow.refl _ n, hinv.finish fun hj0 _ => absurd hij (by omega)⟩
  | case2 s j hij hstop =>
    -- not less than its parent
    rw [up, if_neg hij, if_pos hstop]
    refine ⟨hg, PermBelow.refl _ n, hinv.finish fun _ _ => keyLe_of_not_keyLt ?_⟩
    rw [← hR.less s j ((j - 1) / 2) hg (by omega) (by omega)]
    simpa using hstop
  | case3 s j hij hmove ih =>
    -- one round: swap with the parent and go on from there
    rw [up, if_neg hij, if_neg hmove]
    have hlt : KeyLt key (view s) j ((j - 1) / 2) := by
      rw [← hR.less s j ((j - 1) / 2) hg (by omega) (by omega)]
      simpa using hmove
    have hsw := hR.swap s ((j - 1) / 2) j hg (by omega) (by omega)
    have hinv' := hinv.move hn hj (by omega) hlt
    rw [← hsw] at hinv'
    obtain ⟨hg', hperm, hheap⟩ := ih (hR.swap_good s _ j hg (by omega) (by omega))
      (by rw [hsw, length_swapAt]; exact hn) (by omega) hinv'
    refine ⟨hg', ?_, hheap⟩
    apply PermBelow.trans _ hperm
    rw [hsw]
    exact permBelow_swapAt (by omega) hj hn

/-- The child `down` picks is a least child. -/
theorem minChild_spec {s : σ} {i n : Nat} (hg : Good s) (hn : n ≤ (view s).length)
    (h1 : ¬ n ≤ 2 * i + 1) : IsMinChild key (view s) n i (downChild h s i n) := by
  unfold downChild
  split_ifs with hright
  · -- the right child, less than the left one
    have hlt : KeyLt key (view s) (2 * i + 2) (2 * i + 1) :=
      (hR.less s (2 * i + 2) (2 * i + 1) hg (by omega) (by omega)).mp hright.2
    refine ⟨hright.1, by omega, by omega, fun c hc0 hcn hci => ?_⟩
    by_cases hc : c = 2 * i + 1
    · rw [hc]
      exact hlt.keyLe
    · rw [show c = 2 * i + 2 by omega]
      exact KeyLe.refl _
  · -- the left child: the only one, or not above the right one
    refine ⟨by omega, by omega, by omega, fun c hc0 hcn hci => ?_⟩
    by_cases hc : c = 2 * i + 1
    · rw [hc]
      exact KeyLe.refl _
    · rw [show c = 2 * i + 2 by omega]
      apply keyLe_of_not_keyLt
      rw [← hR.less s (2 * i + 2) (2 * i + 1) hg (by omega) (by omega)]
      intro hl
      exact hright ⟨by omega, hl⟩

/-- One round of `down`, from a `FixInv` start: `Less(j, i)` for the least child `j`, and what
the swap leaves. -/
theorem down_move {s : σ} {i n : Nat} (hg : Good s) (hn : n ≤ (view s).length)
    (hn0 : ¬ n ≤ 2 * i + 1) (hinv : FixInv key (view s) n i)
    (hmove : ¬ (!h.less s (downChild h s i n) i) = true) :
    Good (h.swap s i (downChild h s i n)) ∧
      PermBelow (view s) (view (h.swap s i (downChild h s i n))) n ∧
      (view (h.swap s i (downChild h s i n))).length = (view s).length ∧
      DownInv key (view (h.swap s i (downChild h s i n))) n (downChild h s i n) := by
  have hj := minChild_spec hR hg hn hn0
  have hjn := hj.lt_n
  have hlt : KeyLt key (view s) (downChild h s i n) i := by
    rw [← hR.less s (downChild h s i n) i hg (by omega) (by omega)]
    simpa using hmove
  have hsw := hR.swap s i (downChild h s i n) hg (by omega) (by omega)
  refine ⟨hR.swap_good s i _ hg (by omega) (by omega), ?_, by rw [hsw, length_swapAt], ?_⟩
  · rw [hsw]
    exact permBelow_swapAt (by omega) hjn hn
  · rw [hsw]
    exact hinv.move hn hj hlt

/-- Where `down` stops at once, from a `FixInv` start, the element is in place below. -/
theorem down_stop {s : σ} {i n : Nat} (hg : Good s) (hn : n ≤ (view s).length) (hi : i < n)
    (hinv : FixInv key (view s) n i)
    (hstop : n ≤ 2 * i + 1 ∨ (!h.less s (downChild h s i n) i) = true) :
    UpInv key (view s) n i := by
  rcases hstop with hn0 | hstop
  · -- no child below `n`
    exact hinv.stop fun c _ hcn hci => absurd hci (by omega)
  · by_cases hn0 : n ≤ 2 * i + 1
    · exact hinv.stop fun c _ hcn hci => absurd hci (by omega)
    have hj := minChild_spec hR hg hn hn0
    have hnlt : ¬ KeyLt key (view s) (downChild h s i n) i := by
      rw [← hR.less s (downChild h s i n) i hg (by have := hj.lt_n; omega) (by omega)]
      simpa using hstop
    exact hinv.stop (hj.stop hn hnlt)

/-- **`down` restores the order** from a `DownInv` start. -/
theorem downLoop_spec {s : σ} {i n : Nat} (hg : Good s) (hn : n ≤ (view s).length)
    (hinv : DownInv key (view s) n i) :
    Good (downLoop h s i n).1 ∧ PermBelow (view s) (view (downLoop h s i n).1) n ∧
      IsHeap key (view (downLoop h s i n).1) n := by
  induction s, i using downLoop.induct h n with
  | case1 s i hn0 =>
    -- no child below `n`
    rw [downLoop, if_pos hn0]
    exact ⟨hg, PermBelow.refl _ n, hinv.finish fun c _ hcn hci => absurd hci (by omega)⟩
  | case2 s i hn0 hstop =>
    -- not above its least child
    rw [downLoop, if_neg hn0, if_pos hstop]
    have hj := minChild_spec hR hg hn hn0
    refine ⟨hg, PermBelow.refl _ n, hinv.finish (hj.stop hn ?_)⟩
    rw [← hR.less s (downChild h s i n) i hg (by have := hj.lt_n; omega) (by omega)]
    simpa using hstop
  | case3 s i hn0 hmove ih =>
    -- one round, and on from the least child
    rw [downLoop, if_neg hn0, if_neg hmove]
    obtain ⟨hg', hperm, hlen, hinv'⟩ := down_move hR hg hn hn0 hinv.fixInv hmove
    obtain ⟨hg'', hperm', hheap⟩ := ih hg' (by rw [hlen]; exact hn) hinv'
    exact ⟨hg'', hperm.trans hperm', hheap⟩

/-- **`down` then `up` restores the order** from a `FixInv` start: either the element moves
down, and `downLoop_spec` applies after the first round, or it stays, is in place below, and
`up` moves it up. -/
theorem downThenUp_spec {s : σ} {i n : Nat} (hg : Good s) (hn : n ≤ (view s).length)
    (hi : i < n) (hinv : FixInv key (view s) n i) :
    Good (downThenUp h s i n) ∧ PermBelow (view s) (view (downThenUp h s i n)) n ∧
      IsHeap key (view (downThenUp h s i n)) n := by
  unfold downThenUp down
  dsimp only
  by_cases hstays : n ≤ 2 * i + 1 ∨ (!h.less s (downChild h s i n) i) = true
  · -- `down` does not move it, and `up` starts where it is
    have hdl : downLoop h s i n = (s, i) := by
      rw [downLoop]
      rcases hstays with hn0 | hstop
      · rw [if_pos hn0]
      · by_cases hn0 : n ≤ 2 * i + 1
        · rw [if_pos hn0]
        · rw [if_neg hn0, if_pos hstop]
    rw [hdl]
    simp only [lt_self_iff_false, decide_false, Bool.not_false, ↓reduceIte]
    exact up_spec hR hg hn hi (down_stop hR hg hn hi hinv hstays)
  · -- it moves down, past `i`
    rw [not_or] at hstays
    obtain ⟨hn0, hmove⟩ := hstays
    have hdl : downLoop h s i n = downLoop h (h.swap s i (downChild h s i n)) (downChild h s i n) n := by
      rw [downLoop, if_neg hn0, if_neg hmove]
    have hpast : i < (downLoop h s i n).2 := by
      rw [hdl]
      exact lt_of_lt_of_le (lt_downChild h s i n) (le_downLoop h _ _ n)
    simp only [hpast, decide_true, Bool.not_true, Bool.false_eq_true, ↓reduceIte]
    obtain ⟨hg', hperm, hlen, hinv'⟩ := down_move hR hg hn hn0 hinv hmove
    rw [hdl]
    obtain ⟨hg'', hperm', hheap⟩ := downLoop_spec hR hg' (by rw [hlen]; exact hn) hinv'
    exact ⟨hg'', hperm.trans hperm', hheap⟩

/-! ## The methods of `container/heap` -/

/-- What `Pop` does once the first `n` positions are a heap: the element at `n` goes, and
the heap is left. -/
theorem pop_after {t : σ} {n : Nat} (hg : Good t) (hlen : (view t).length = n + 1)
    (hheap : IsHeap key (view t) n) :
    ∃ s' b, (view t)[n]? = some b ∧ h.pop t = .ok (s', proj b) ∧ Good s' ∧
      view s' ++ [b] = view t ∧ IsHeap key (view s') (view s').length := by
  obtain ⟨s', b, hb, hpop, hview, hg'⟩ := hR.pop t hg (by omega)
  rw [hlen, Nat.add_sub_cancel] at hb hview
  have hsplit : view s' ++ [b] = view t := by
    rw [hview, ← Nat.add_sub_cancel n 1, ← hlen]
    apply take_pred_append
    rwa [hlen, Nat.add_sub_cancel]
  have hlen' : (view s').length = n := by simp [hview, hlen]
  refine ⟨s', b, hb, hpop, hg', hsplit, ?_⟩
  rw [hlen', hview]
  exact hheap.take

theorem len_bind {s : σ} (hg : Good s) {γ : Type} (f : Nat → Except String γ) :
    (h.len s >>= f) = f (view s).length := by
  rw [hR.len s hg]
  rfl

/-- **`heap.Push`** keeps the heap, with the new element in it. -/
theorem push_spec {s s₁ : σ} {x : α} {b : β} (hheap : IsHeap key (view s) (view s).length)
    (hpush : h.push s x = .ok s₁) (hg₁ : Good s₁) (hview : view s₁ = view s ++ [b]) :
    ∃ s', push h s x = .ok s' ∧ Good s' ∧ (view s').Perm (view s ++ [b]) ∧
      IsHeap key (view s') (view s').length := by
  have hlen₁ : (view s₁).length = (view s).length + 1 := by simp [hview]
  have hinv := hheap.upInv_concat rfl b
  rw [← hview, ← hlen₁] at hinv
  obtain ⟨hg', hperm, hheap'⟩ := up_spec hR hg₁ le_rfl (by omega) hinv
  refine ⟨up h s₁ (view s).length, ?_, hg', by rw [← hview]; exact hperm.1, ?_⟩
  · unfold push
    rw [hpush]
    change (h.len s₁ >>= fun n => pure (up h s₁ (n - 1))) = _
    rw [len_bind hR hg₁, hlen₁, Nat.add_sub_cancel]
    rfl
  · rw [hperm.1.length_eq, hlen₁]
    rw [hlen₁] at hheap'
    exact hheap'

/-- **`heap.Pop`** takes the root, an element with the least key, and keeps the heap. -/
theorem pop_spec {s : σ} (hg : Good s) (hheap : IsHeap key (view s) (view s).length)
    (hne : 0 < (view s).length) :
    ∃ s' b, pop h s = .ok (s', proj b) ∧ (view s)[0]? = some b ∧ Good s' ∧
      (view s' ++ [b]).Perm (view s) ∧ IsHeap key (view s') (view s').length := by
  -- the root goes to the end, and `down` from the root restores the rest
  have hsw := hR.swap s 0 ((view s).length - 1) hg hne (by omega)
  have hinv := hheap.downInv_pop rfl hne
  rw [← hsw] at hinv
  obtain ⟨hg', hperm, hheap'⟩ := downLoop_spec hR (hR.swap_good s 0 _ hg hne (by omega))
    (by rw [hsw, length_swapAt]; omega) hinv
  have hlen : (view (downLoop h (h.swap s 0 ((view s).length - 1)) 0
      ((view s).length - 1)).1).length = (view s).length - 1 + 1 := by
    rw [hperm.1.length_eq, hsw, length_swapAt]
    omega
  obtain ⟨s', b, hb, hpop, hg'', hsplit, hheap''⟩ := pop_after hR hg' hlen hheap'
  rw [hperm.2 _ le_rfl, hsw, getElem?_swapAt hne (by omega), Equiv.swap_apply_right] at hb
  refine ⟨s', b, ?_, hb, hg'', ?_, hheap''⟩
  · unfold pop
    change (h.len s >>= fun n => h.pop (down h (h.swap s 0 (n - 1)) 0 (n - 1)).1) = _
    rw [len_bind hR hg]
    exact hpop
  · rw [hsplit]
    exact hperm.1.trans (by rw [hsw]; exact swapAt_perm _ _ _)

/-- **`heap.Remove`** takes the element at `i` and keeps the heap. -/
theorem remove_spec {s : σ} {i : Nat} (hg : Good s) (hheap : IsHeap key (view s) (view s).length)
    (hi : i < (view s).length) :
    ∃ s' b, remove h s i = .ok (s', proj b) ∧ (view s)[i]? = some b ∧ Good s' ∧
      (view s' ++ [b]).Perm (view s) ∧ IsHeap key (view s') (view s').length := by
  have hrem : remove h s i = if (view s).length - 1 ≠ i then
      h.pop (downThenUp h (h.swap s i ((view s).length - 1)) i ((view s).length - 1))
      else h.pop s := by
    unfold remove
    change (h.len s >>= fun n => if n - 1 ≠ i then _ else _) = _
    rw [len_bind hR hg]
  rw [hrem]
  by_cases hlast : (view s).length - 1 = i
  · -- the last element: `Pop` alone
    rw [if_neg (not_not.mpr hlast)]
    obtain ⟨s', b, hb, hpop, hg', hsplit, hheap'⟩ :=
      pop_after hR (n := (view s).length - 1) hg (by omega) (hheap.mono (by omega))
    rw [hlast] at hb
    exact ⟨s', b, hpop, hb, hg', by rw [hsplit], hheap'⟩
  · -- swapped to the end, and `down` then `up` from `i` restores the rest
    rw [if_pos hlast]
    have hsw := hR.swap s i ((view s).length - 1) hg hi (by omega)
    have hinv := hheap.fixInv_swapAt le_rfl (show i < (view s).length - 1 by omega) (by omega)
    rw [← hsw] at hinv
    obtain ⟨hg', hperm, hheap'⟩ := downThenUp_spec hR (hR.swap_good s i _ hg hi (by omega))
      (by rw [hsw, length_swapAt]; omega) (by omega) hinv
    have hlen : (view (downThenUp h (h.swap s i ((view s).length - 1)) i
        ((view s).length - 1))).length = (view s).length - 1 + 1 := by
      rw [hperm.1.length_eq, hsw, length_swapAt]
      omega
    obtain ⟨s', b, hb, hpop, hg'', hsplit, hheap''⟩ := pop_after hR hg' hlen hheap'
    rw [hperm.2 _ le_rfl, hsw, getElem?_swapAt hi (by omega), Equiv.swap_apply_right] at hb
    refine ⟨s', b, hpop, hb, hg'', ?_, hheap''⟩
    rw [hsplit]
    exact hperm.1.trans (by rw [hsw]; exact swapAt_perm _ _ _)

/-- **`heap.Fix`** restores the heap from a `FixInv` start at `i`. -/
theorem fix_spec {s : σ} {i : Nat} (hg : Good s) (hi : i < (view s).length)
    (hinv : FixInv key (view s) (view s).length i) :
    ∃ s', fix h s i = .ok s' ∧ Good s' ∧ (view s').Perm (view s) ∧
      IsHeap key (view s') (view s').length := by
  obtain ⟨hg', hperm, hheap⟩ := downThenUp_spec hR hg le_rfl hi hinv
  refine ⟨downThenUp h s i (view s).length, ?_, hg', hperm.1, by rw [hperm.1.length_eq]; exact hheap⟩
  unfold fix
  rw [len_bind hR hg]
  rfl

end Spec

/-- `heap.Init` on an empty heap changes nothing. -/
theorem init_of_len_zero {s : σ} (hl : h.len s = .ok 0) : init h s = .ok s := by
  unfold init
  rw [hl]
  rfl

end GoHeap
