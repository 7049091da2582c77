import Mathlib
/-
A fixed-capacity circular buffer over a list, and the window of the most recent writes that
it holds.

The buffer is a list of `n` cells and the index `oldest` of the cell the next write
overwrites. Read from `oldest` on, `l.rotate oldest`, the cells are in the order they were
written. A write at `oldest` followed by `oldest := (oldest + 1) % n` drops the first cell of
that view and appends the new one (`rotate_set_succ`). The list being modelled keeps its last
`n` elements, `List.rtake`, and appending drops one element of it the same way once it is full
(`rtake_concat`). So a buffer refines the window as soon as the two views agree.

`lastIndex p w` finds the most recent element of a window that satisfies `p`. It is what a
lookup table next to such a buffer points to.
-/

set_option autoImplicit false

namespace RingBuffer

variable {α : Type}

/-! ## One wrap of an index -/

/-- An offset below `n` moves an index below `n` back onto itself only when it is zero. -/
theorem add_mod_eq_self_iff {k o n : Nat} (hk : k < n) (ho : o < n) :
    (k + o) % n = o ↔ k = 0 := by
  by_cases hlt : k + o < n
  · rw [Nat.mod_eq_of_lt hlt]
    omega
  · have hsub : (k + o) % n = k + o - n := by
      rw [Nat.mod_eq_sub_mod (by omega), Nat.mod_eq_of_lt (by omega)]
    rw [hsub]
    omega

/-- The cell before `(o + 1) % n`, read as the last of the `n` cells from it, is `o`. -/
theorem pred_add_succ_mod {o n : Nat} (ho : o < n) : (n - 1 + (o + 1)) % n = o := by
  rw [show n - 1 + (o + 1) = o + n by omega, Nat.add_mod_right, Nat.mod_eq_of_lt ho]

/-! ## Writing at the oldest cell -/

/-- **A write advances the view.** Overwriting cell `o` and moving on to the next cell drops
the oldest cell of the view from `o` and appends the new one. -/
theorem rotate_set_succ (l : List α) {o : Nat} (ho : o < l.length) (x : α) :
    (l.set o x).rotate ((o + 1) % l.length) = (l.rotate o).tail ++ [x] := by
  apply List.ext_getElem
  · simp only [List.length_rotate, List.length_set, List.length_append, List.length_tail,
      List.length_singleton]
    omega
  · intro k hk _
    simp only [List.length_rotate, List.length_set] at hk
    rw [List.getElem_rotate, List.getElem_set]
    simp only [List.length_set, Nat.add_mod_mod]
    by_cases hlast : k + 1 = l.length
    · -- the last cell of the new view is the one just written
      have hwrap : (k + (o + 1)) % l.length = o := by
        rw [show k = l.length - 1 by omega]
        exact pred_add_succ_mod ho
      rw [if_pos hwrap.symm, List.getElem_append_right (by simp; omega)]
      simp
    · -- every other cell is the next cell of the old view
      have hne : o ≠ (k + (o + 1)) % l.length := by
        rw [← Nat.add_assoc, Nat.add_right_comm]
        exact fun h => absurd ((add_mod_eq_self_iff (by omega) ho).mp h.symm) (by omega)
      rw [if_neg hne, List.getElem_append_left (by simp; omega), List.getElem_tail,
        List.getElem_rotate]
      congr 2
      omega

/-! ## The window of the last `n` elements -/

/-- One more element in a window of at most `n`: the oldest one goes once the window is
full. -/
def slide (n : Nat) (w : List α) (x : α) : List α :=
  (if w.length < n then w else w.tail) ++ [x]

/-- Appending to a list slides the window of its last `n` elements. -/
theorem rtake_concat (l : List α) (x : α) {n : Nat} (hn : 0 < n) :
    (l ++ [x]).rtake n = slide n (l.rtake n) x := by
  obtain ⟨m, rfl⟩ : ∃ m, n = m + 1 := ⟨n - 1, by omega⟩
  rw [List.rtake_concat_succ, slide]
  congr 1
  by_cases hlt : l.length < m + 1
  · have hall : l.rtake (m + 1) = l := by simp [List.rtake, show l.length - (m + 1) = 0 by omega]
    rw [hall, if_pos hlt]
    simp [List.rtake, show l.length - m = 0 by omega]
  · have hfull : (l.rtake (m + 1)).length = m + 1 := by simp [List.rtake]; omega
    rw [if_neg (by omega), List.rtake, List.rtake, List.tail_drop]
    congr 1
    omega

/-! ## The last element that satisfies a test -/

/-- The index of the last element of a list that satisfies `p`. -/
def lastIndex (p : α → Bool) : List α → Option Nat
  | [] => none
  | x :: t =>
    match lastIndex p t with
    | some i => some (i + 1)
    | none => if p x then some 0 else none

variable (p : α → Bool)

@[simp] theorem lastIndex_nil : lastIndex p [] = none := rfl

theorem lastIndex_cons (x : α) (t : List α) :
    lastIndex p (x :: t) = match lastIndex p t with
      | some i => some (i + 1)
      | none => if p x then some 0 else none := rfl

/-- An element appended to the end is the last one when it satisfies `p`. -/
theorem lastIndex_concat (w : List α) (x : α) :
    lastIndex p (w ++ [x]) = if p x then some w.length else lastIndex p w := by
  induction w with
  | nil => cases hx : p x <;> simp [lastIndex, hx]
  | cons y t ih =>
    rw [List.cons_append, lastIndex_cons, ih]
    cases p x <;> simp [lastIndex_cons]

theorem lastIndex_cons_eq_zero {x : α} {t : List α} :
    lastIndex p (x :: t) = some 0 ↔ lastIndex p t = none ∧ p x = true := by
  rw [lastIndex_cons]
  rcases lastIndex p t with _ | i <;> cases p x <;> simp

theorem lastIndex_cons_eq_succ {x : α} {t : List α} {i : Nat} :
    lastIndex p (x :: t) = some (i + 1) ↔ lastIndex p t = some i := by
  rw [lastIndex_cons]
  rcases lastIndex p t with _ | k <;> cases p x <;> simp

theorem lastIndex_eq_none_iff (w : List α) : lastIndex p w = none ↔ ∀ x ∈ w, p x = false := by
  induction w with
  | nil => simp
  | cons y t ih =>
    rw [lastIndex_cons]
    rcases h : lastIndex p t with _ | i
    · cases hy : p y <;> simp_all
    · simp only [reduceCtorEq, List.mem_cons, forall_eq_or_imp, false_iff, not_and]
      intro _ hall
      exact absurd (ih.mpr hall) (by simp [h])

theorem lastIndex_ne_none_iff (w : List α) : lastIndex p w ≠ none ↔ ∃ x ∈ w, p x = true := by
  simp [lastIndex_eq_none_iff]

/-- Index `i` holds an element that satisfies `p`, and no later one does. -/
def IsLast (w : List α) (i : Nat) : Prop :=
  ∃ hi : i < w.length, p w[i] = true ∧ ∀ j (hj : j < w.length), i < j → p w[j] = false

theorem isLast_cons_succ {y : α} {t : List α} {i : Nat} :
    IsLast p (y :: t) (i + 1) ↔ IsLast p t i := by
  constructor
  · rintro ⟨hi, hp, hafter⟩
    refine ⟨by simpa using hi, by simpa using hp, fun j hj hij => ?_⟩
    have h := hafter (j + 1) (by simpa using hj) (by omega)
    rwa [List.getElem_cons_succ] at h
  · rintro ⟨hi, hp, hafter⟩
    refine ⟨by simpa using hi, by simpa using hp, fun j hj hij => ?_⟩
    obtain ⟨j, rfl⟩ : ∃ j', j = j' + 1 := ⟨j - 1, by omega⟩
    simpa using hafter j (by simpa using hj) (by omega)

theorem isLast_cons_zero {y : α} {t : List α} :
    IsLast p (y :: t) 0 ↔ p y = true ∧ ∀ x ∈ t, p x = false := by
  constructor
  · rintro ⟨_, hp, hafter⟩
    refine ⟨by simpa using hp, fun x hx => ?_⟩
    obtain ⟨j, hj, rfl⟩ := List.mem_iff_getElem.mp hx
    have h := hafter (j + 1) (by simpa using hj) (by omega)
    rwa [List.getElem_cons_succ] at h
  · rintro ⟨hp, hnone⟩
    refine ⟨by simp, by simpa using hp, fun j hj hij => ?_⟩
    obtain ⟨j, rfl⟩ : ∃ j', j = j' + 1 := ⟨j - 1, by omega⟩
    simpa using hnone _ (List.getElem_mem (by simpa using hj))

/-- **What `lastIndex` finds**: an element that satisfies `p` with none after it. -/
theorem lastIndex_eq_some_iff (w : List α) (i : Nat) : lastIndex p w = some i ↔ IsLast p w i := by
  induction w generalizing i with
  | nil => simp [IsLast]
  | cons y t ih =>
    cases i with
    | zero => rw [lastIndex_cons_eq_zero, isLast_cons_zero, lastIndex_eq_none_iff, and_comm]
    | succ i => rw [lastIndex_cons_eq_succ, isLast_cons_succ, ih]

theorem lastIndex_lt {w : List α} {i : Nat} (h : lastIndex p w = some i) : i < w.length :=
  ((lastIndex_eq_some_iff p w i).mp h).1

end RingBuffer
