import Mathlib
/-
The order of a binary min-heap kept in a list, and what one swap does to it.

Position `c > 0` has its parent at `(c - 1) / 2`, as in Go's `container/heap`. The first `n`
positions of a list are a heap when no child among them has a key below its parent's
(`IsHeap`). The sifts restore that order from a start where one element may be out of place.
The start of each direction is an invariant with named fields: `UpInv` for `up`, `DownInv`
for `down`, and `FixInv`, the weaker start of `heap.Fix` and `heap.Remove`, where the element
may be out of place both ways. Each has a lemma for one round of its loop (`move`), which
swaps the element with a neighbour, and one for the exit (`finish`, `stop`).

A swap relabels positions by `Equiv.swap i j` (`getElem?_swapAt`). So every order fact about
a swapped list is one about the list at the relabelled positions, and each `move` proof is a
case split on where the position of a pair goes.
-/

set_option autoImplicit false

namespace GoHeap

variable {β κ : Type} [LinearOrder κ]

/-! ## Swapping two positions -/

/-- `s[i], s[j] = s[j], s[i]`. Out of range it changes nothing. -/
def swapAt (l : List β) (i j : Nat) : List β :=
  if h : i < l.length ∧ j < l.length then (l.set i l[j]).set j l[i] else l

@[simp] theorem length_swapAt (l : List β) (i j : Nat) : (swapAt l i j).length = l.length := by
  unfold swapAt
  split_ifs <;> simp

theorem getElem?_swapAt {l : List β} {i j : Nat} (hi : i < l.length) (hj : j < l.length)
    (k : Nat) : (swapAt l i j)[k]? = l[Equiv.swap i j k]? := by
  unfold swapAt
  rw [dif_pos ⟨hi, hj⟩, List.getElem?_set, List.getElem?_set, Equiv.swap_apply_def]
  by_cases hkj : k = j
  · subst hkj
    by_cases hki : k = i <;> simp [hki, hi, hj]
  · by_cases hki : k = i
    · subst hki
      simp [Ne.symm hkj, hi, hj]
    · simp [Ne.symm hkj, Ne.symm hki, hki, hkj]

theorem swapAt_perm (l : List β) (i j : Nat) : (swapAt l i j).Perm l := by
  unfold swapAt
  split_ifs with h
  · exact List.set_set_perm h.1 h.2
  · exact List.Perm.refl l

theorem swapAt_map {γ : Type} (f : β → γ) (l : List β) (i j : Nat) :
    swapAt (l.map f) i j = (swapAt l i j).map f := by
  by_cases h : i < l.length ∧ j < l.length
  · apply List.ext_getElem?
    intro k
    rw [getElem?_swapAt (by simpa using h.1) (by simpa using h.2), List.getElem?_map,
      List.getElem?_map, getElem?_swapAt h.1 h.2]
  · unfold swapAt
    rw [dif_neg (by simpa using h), dif_neg h]

/-- `l'` is `l` with only its first `n` positions permuted. -/
def PermBelow (l l' : List β) (n : Nat) : Prop :=
  l'.Perm l ∧ ∀ k, n ≤ k → l'[k]? = l[k]?

theorem PermBelow.refl (l : List β) (n : Nat) : PermBelow l l n :=
  ⟨List.Perm.refl l, fun _ _ => rfl⟩

theorem PermBelow.trans {l₁ l₂ l₃ : List β} {n : Nat} (h₁ : PermBelow l₁ l₂ n)
    (h₂ : PermBelow l₂ l₃ n) : PermBelow l₁ l₃ n :=
  ⟨h₂.1.trans h₁.1, fun k hk => (h₂.2 k hk).trans (h₁.2 k hk)⟩

theorem permBelow_swapAt {l : List β} {i j n : Nat} (hi : i < n) (hj : j < n)
    (hn : n ≤ l.length) : PermBelow l (swapAt l i j) n := by
  refine ⟨swapAt_perm l i j, fun k hk => ?_⟩
  rw [getElem?_swapAt (by omega) (by omega), Equiv.swap_apply_of_ne_of_ne (by omega) (by omega)]

/-! ## Keys at positions -/

/-- The key at `p` is at most the key at `c`, where both positions are in the list. -/
def KeyLe (key : β → κ) (l : List β) (p c : Nat) : Prop :=
  ∀ a b, l[p]? = some a → l[c]? = some b → key a ≤ key b

/-- The key at `i` is below the key at `j`: Go's `Less(i, j)` on a list. -/
def KeyLt (key : β → κ) (l : List β) (i j : Nat) : Prop :=
  ∃ a b, l[i]? = some a ∧ l[j]? = some b ∧ key a < key b

variable {key : β → κ} {l : List β}

theorem KeyLe.refl (p : Nat) : KeyLe key l p p := by
  intro a b ha hb
  rw [ha, Option.some.injEq] at hb
  rw [hb]

theorem KeyLe.trans {p q c : Nat} (h₁ : KeyLe key l p q) (h₂ : KeyLe key l q c)
    (hq : q < l.length) : KeyLe key l p c := by
  intro a b ha hb
  have hlq := List.getElem?_eq_getElem hq
  exact le_trans (h₁ a l[q] ha hlq) (h₂ l[q] b hlq hb)

theorem KeyLt.keyLe {i j : Nat} (h : KeyLt key l i j) : KeyLe key l i j := by
  obtain ⟨a, b, ha, hb, hab⟩ := h
  intro a' b' ha' hb'
  rw [ha, Option.some.injEq] at ha'
  rw [hb, Option.some.injEq] at hb'
  rw [← ha', ← hb']
  exact le_of_lt hab

/-- Where `Less(j, i)` is false the key at `i` is at most the key at `j`. -/
theorem keyLe_of_not_keyLt {i j : Nat} (h : ¬ KeyLt key l j i) : KeyLe key l i j := by
  intro a b ha hb
  apply le_of_not_gt
  intro hlt
  exact h ⟨b, a, hb, ha, hlt⟩

theorem keyLe_swapAt {i j : Nat} (hi : i < l.length) (hj : j < l.length) {p c : Nat} :
    KeyLe key (swapAt l i j) p c ↔ KeyLe key l (Equiv.swap i j p) (Equiv.swap i j c) := by
  unfold KeyLe
  rw [getElem?_swapAt hi hj, getElem?_swapAt hi hj]

/-! ## The heap order and the sifts' starts -/

/-- The first `n` positions are a min-heap. -/
def IsHeap (key : β → κ) (l : List β) (n : Nat) : Prop :=
  ∀ c, 0 < c → c < n → KeyLe key l ((c - 1) / 2) c

/-- The children of `i` below `n` are at or above `i`'s parent. -/
def GrandLe (key : β → κ) (l : List β) (n i : Nat) : Prop :=
  0 < i → ∀ c, 0 < c → c < n → (c - 1) / 2 = i → KeyLe key l ((i - 1) / 2) c

/-- What `up` needs: the element at `j` may be below its parent, and every other pair is in
order. -/
structure UpInv (key : β → κ) (l : List β) (n j : Nat) : Prop where
  except : ∀ c, 0 < c → c < n → c ≠ j → KeyLe key l ((c - 1) / 2) c
  grand : GrandLe key l n j

/-- What `down` needs: the element at `i` may be above its children, and every other pair is
in order. -/
structure DownInv (key : β → κ) (l : List β) (n i : Nat) : Prop where
  except : ∀ c, 0 < c → c < n → (c - 1) / 2 ≠ i → KeyLe key l ((c - 1) / 2) c
  grand : GrandLe key l n i

/-- What `heap.Fix` needs: the element at `i` may be out of place either way. -/
structure FixInv (key : β → κ) (l : List β) (n i : Nat) : Prop where
  except : ∀ c, 0 < c → c < n → c ≠ i → (c - 1) / 2 ≠ i → KeyLe key l ((c - 1) / 2) c
  grand : GrandLe key l n i

/-- `j` is the child of `i` that `down` compares against: one with the least key. -/
structure IsMinChild (key : β → κ) (l : List β) (n i j : Nat) : Prop where
  lt_n : j < n
  pos : 0 < j
  parent_eq : (j - 1) / 2 = i
  least : ∀ c, 0 < c → c < n → (c - 1) / 2 = i → KeyLe key l j c

theorem DownInv.fixInv {n i : Nat} (h : DownInv key l n i) : FixInv key l n i :=
  ⟨fun c hc0 hcn _ hci => h.except c hc0 hcn hci, h.grand⟩

/-- At the root the two starts of `down` agree: the root is no position's child. -/
theorem FixInv.downInv_zero {n : Nat} (h : FixInv key l n 0) : DownInv key l n 0 :=
  ⟨fun c hc0 hcn hci => h.except c hc0 hcn (by omega) hci, h.grand⟩

theorem IsHeap.mono {n n' : Nat} (h : IsHeap key l n) (hn : n' ≤ n) : IsHeap key l n' :=
  fun c hc0 hcn => h c hc0 (by omega)

theorem IsHeap.take {n : Nat} (h : IsHeap key l n) : IsHeap key (l.take n) n := by
  intro c hc0 hcn a b ha hb
  rw [List.getElem?_take, if_pos (by omega)] at ha
  rw [List.getElem?_take, if_pos hcn] at hb
  exact h c hc0 hcn a b ha hb

/-- **The root of a heap has the least key.** -/
theorem IsHeap.root_le {n : Nat} (h : IsHeap key l n) (hn : n ≤ l.length) :
    ∀ c, c < n → KeyLe key l 0 c := by
  intro c
  induction c using Nat.strong_induction_on with
  | _ c ih =>
    intro hc
    by_cases hc0 : c = 0
    · rw [hc0]
      exact KeyLe.refl 0
    · -- through the parent, which is nearer the root
      exact (ih ((c - 1) / 2) (by omega) (by omega)).trans (h c (by omega) hc) (by omega)

/-! ## `up` -/

/-- One round of `up`: the element below its parent changes place with it. -/
theorem UpInv.move {n j : Nat} (hinv : UpInv key l n j) (hn : n ≤ l.length) (hj : j < n)
    (hj0 : 0 < j) (hlt : KeyLt key l j ((j - 1) / 2)) :
    UpInv key (swapAt l ((j - 1) / 2) j) n ((j - 1) / 2) := by
  have hpl : (j - 1) / 2 < l.length := by omega
  have hjl : j < l.length := by omega
  have hup : KeyLe key l j ((j - 1) / 2) := hlt.keyLe
  constructor
  · intro c hc0 hcn hcp
    rw [keyLe_swapAt hpl hjl]
    by_cases hcj : c = j
    · -- the pair the element moved through: it is now above its old parent
      rw [hcj, Equiv.swap_apply_left, Equiv.swap_apply_right]
      exact hup
    rw [Equiv.swap_apply_of_ne_of_ne hcp hcj]
    by_cases hsib : (c - 1) / 2 = (j - 1) / 2
    · -- a sibling of `j`: at or above the old parent, so above the element
      rw [hsib, Equiv.swap_apply_left]
      have hpc := hinv.except c hc0 hcn hcj
      rw [hsib] at hpc
      exact hup.trans hpc hpl
    by_cases hchild : (c - 1) / 2 = j
    · -- a child of `j`: at or above `j`'s old parent, which now sits at `j`
      rw [hchild, Equiv.swap_apply_right]
      exact hinv.grand hj0 c hc0 hcn hchild
    rw [Equiv.swap_apply_of_ne_of_ne hsib hchild]
    exact hinv.except c hc0 hcn hcj
  · intro hp0 c hc0 hcn hcp
    rw [keyLe_swapAt hpl hjl, Equiv.swap_apply_of_ne_of_ne (by omega) (by omega)]
    have hpp := hinv.except ((j - 1) / 2) hp0 (by omega) (by omega)
    by_cases hcj : c = j
    · rw [hcj, Equiv.swap_apply_right]
      exact hpp
    rw [Equiv.swap_apply_of_ne_of_ne (by omega) hcj]
    have hpc := hinv.except c hc0 hcn hcj
    rw [hcp] at hpc
    exact hpp.trans hpc hpl

/-- `up` stops at the root or below a parent it is not less than: then the order is whole. -/
theorem UpInv.finish {n j : Nat} (hinv : UpInv key l n j)
    (hstop : 0 < j → j < n → KeyLe key l ((j - 1) / 2) j) : IsHeap key l n := by
  intro c hc0 hcn
  by_cases hcj : c = j
  · rw [hcj] at hc0 hcn ⊢
    exact hstop hc0 hcn
  · exact hinv.except c hc0 hcn hcj

/-- A heap with one more element at its end is where `heap.Push` starts `up`. -/
theorem IsHeap.upInv_concat {n : Nat} (h : IsHeap key l n) (hn : n = l.length) (x : β) :
    UpInv key (l ++ [x]) (n + 1) n := by
  constructor
  · intro c hc0 hcn hcj a b ha hb
    rw [List.getElem?_append_left (by omega)] at ha hb
    exact h c hc0 (by omega) a b ha hb
  · intro _ c _ hcn hcp
    omega

/-! ## `down` -/

/-- One round of `down`: the element above its least child changes place with it. -/
theorem FixInv.move {n i j : Nat} (hinv : FixInv key l n i) (hn : n ≤ l.length)
    (hj : IsMinChild key l n i j) (hlt : KeyLt key l j i) : DownInv key (swapAt l i j) n j := by
  have hij : i < j := by have := hj.parent_eq; have := hj.pos; omega
  have hjl : j < l.length := by have := hj.lt_n; omega
  have hil : i < l.length := by omega
  have hdown : KeyLe key l j i := hlt.keyLe
  constructor
  · intro c hc0 hcn hcj
    rw [keyLe_swapAt hil hjl]
    by_cases hcj' : c = j
    · -- the pair the element moved through: the child is now above it
      rw [hcj', hj.parent_eq, Equiv.swap_apply_left, Equiv.swap_apply_right]
      exact hdown
    by_cases hci : c = i
    · -- the element's old place, under its old parent
      rw [hci, Equiv.swap_apply_left, Equiv.swap_apply_of_ne_of_ne (by omega) (by omega)]
      exact hinv.grand (by omega) j hj.pos hj.lt_n hj.parent_eq
    rw [Equiv.swap_apply_of_ne_of_ne hci hcj']
    by_cases hsib : (c - 1) / 2 = i
    · -- a sibling of `j`: at or above the least child
      rw [hsib, Equiv.swap_apply_left]
      exact hj.least c hc0 hcn hsib
    rw [Equiv.swap_apply_of_ne_of_ne hsib hcj]
    exact hinv.except c hc0 hcn hci hsib
  · intro _ c hc0 hcn hcp
    rw [keyLe_swapAt hil hjl, hj.parent_eq, Equiv.swap_apply_left,
      Equiv.swap_apply_of_ne_of_ne (by omega) (by omega)]
    have hjc := hinv.except c hc0 hcn (by omega) (by omega)
    rwa [hcp] at hjc

/-- `down` stops where no child below `n` is less than the element: then the element is in
place below, and only its parent may be out of order. -/
theorem FixInv.stop {n i : Nat} (hinv : FixInv key l n i)
    (hstop : ∀ c, 0 < c → c < n → (c - 1) / 2 = i → KeyLe key l i c) : UpInv key l n i := by
  constructor
  · intro c hc0 hcn hci
    by_cases hp : (c - 1) / 2 = i
    · rw [hp]
      exact hstop c hc0 hcn hp
    · exact hinv.except c hc0 hcn hci hp
  · exact hinv.grand

theorem DownInv.finish {n i : Nat} (hinv : DownInv key l n i)
    (hstop : ∀ c, 0 < c → c < n → (c - 1) / 2 = i → KeyLe key l i c) : IsHeap key l n :=
  (hinv.fixInv.stop hstop).finish fun hi0 hin => hinv.except i hi0 hin (by omega)

/-- The least child's key bounds every child's, so `Less(j, i)` false stops `down`. -/
theorem IsMinChild.stop {n i j : Nat} (hj : IsMinChild key l n i j) (hn : n ≤ l.length)
    (hnlt : ¬ KeyLt key l j i) :
    ∀ c, 0 < c → c < n → (c - 1) / 2 = i → KeyLe key l i c := by
  intro c hc0 hcn hci
  have hjl : j < l.length := by have := hj.lt_n; omega
  exact (keyLe_of_not_keyLt hnlt).trans (hj.least c hc0 hcn hci) hjl

/-! ## Where `Pop`, `Remove` and `Fix` start -/

/-- Swapping the element at `i` with one at or past `n` leaves `FixInv` at `i` on the first
`n` positions. This is where `heap.Remove` starts, and at the root where `heap.Pop` starts. -/
theorem IsHeap.fixInv_swapAt {N n i : Nat} (h : IsHeap key l N) (hN : N ≤ l.length) (hi : i < n)
    (hn : n < N) : FixInv key (swapAt l i n) n i := by
  have hil : i < l.length := by omega
  have hnl : n < l.length := by omega
  constructor
  · intro c hc0 hcn hci hcp
    rw [keyLe_swapAt hil hnl, Equiv.swap_apply_of_ne_of_ne hcp (by omega),
      Equiv.swap_apply_of_ne_of_ne hci (by omega)]
    exact h c hc0 (by omega)
  · intro hi0 c hc0 hcn hcp
    rw [keyLe_swapAt hil hnl, Equiv.swap_apply_of_ne_of_ne (by omega) (by omega),
      Equiv.swap_apply_of_ne_of_ne (by omega) (by omega)]
    -- through the element that was at `i`
    have hpi := h i hi0 (by omega)
    have hic := h c hc0 (by omega)
    rw [hcp] at hic
    exact hpi.trans hic hil

/-- `heap.Pop` swaps the root to the end; `down` from the root then starts on the rest. -/
theorem IsHeap.downInv_pop {N : Nat} (h : IsHeap key l N) (hN : N = l.length) (hne : 0 < N) :
    DownInv key (swapAt l 0 (N - 1)) (N - 1) 0 := by
  by_cases h1 : N - 1 = 0
  · rw [h1]
    exact ⟨fun c _ hcn => absurd hcn (by omega), fun h0 => absurd h0 (by omega)⟩
  · exact (h.fixInv_swapAt (by omega) (by omega) (by omega)).downInv_zero

/-- A list is its first `length - 1` elements and its last one. -/
theorem take_pred_append {b : β} (hb : l[l.length - 1]? = some b) :
    l.take (l.length - 1) ++ [b] = l := by
  rcases List.eq_nil_or_concat l with hl | ⟨l', x, rfl⟩
  · rw [hl] at hb
    exact absurd hb (by simp)
  · -- the last element of `l' ++ [x]` is `x`
    simp at hb ⊢
    exact hb.symm

/-- A heap whose element at `i` was replaced, as `heap.Fix` finds it after a key changed. -/
theorem IsHeap.fixInv_of_update {l' : List β} {n i : Nat} (h : IsHeap key l n)
    (hi : i < l.length) (hsame : ∀ k, k ≠ i → l'[k]? = l[k]?) :
    FixInv key l' n i := by
  constructor
  · intro c hc0 hcn hci hcp a b ha hb
    rw [hsame _ hcp] at ha
    rw [hsame _ hci] at hb
    exact h c hc0 hcn a b ha hb
  · intro hi0 c hc0 hcn hcp a b ha hb
    rw [hsame _ (by omega)] at ha
    rw [hsame _ (by omega)] at hb
    have hic := h c hc0 hcn
    rw [hcp] at hic
    exact ((h i hi0 (by omega)).trans hic hi) a b ha hb

end GoHeap
