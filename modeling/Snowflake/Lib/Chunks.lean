import Mathlib
/-
A list cut into pieces of `n` elements, the last one possibly shorter: the layout of a stream
written in lines or blocks of a fixed size. `flatten_chunksOf` says that nothing is lost or
reordered. For reading such a layout back, `append_cons_cancel`: a separator that the pieces do
not contain marks where each ends.
-/

set_option autoImplicit false

namespace Chunks

variable {α : Type}

/-- `l` in pieces of `n`, the last one possibly shorter; no pieces when `n = 0`. -/
def chunksOf (n : Nat) (l : List α) : List (List α) :=
  if l = [] ∨ n = 0 then [] else l.take n :: chunksOf n (l.drop n)
termination_by l.length
decreasing_by
  rename_i h
  rw [not_or] at h
  have := List.length_pos_of_ne_nil h.1
  rw [List.length_drop]
  omega

@[simp]
theorem chunksOf_nil (n : Nat) : chunksOf n ([] : List α) = [] := by
  rw [chunksOf, if_pos (Or.inl rfl)]

theorem chunksOf_of_ne_nil {n : Nat} {l : List α} (hn : 0 < n) (hl : l ≠ []) :
    chunksOf n l = l.take n :: chunksOf n (l.drop n) := by
  rw [chunksOf, if_neg]
  rintro (h | h)
  · exact hl h
  · omega

theorem chunksOf_of_length_le {n : Nat} {l : List α} (hl : l ≠ []) (h : l.length ≤ n) :
    chunksOf n l = [l] := by
  have hn : 0 < n := Nat.lt_of_lt_of_le (List.length_pos_of_ne_nil hl) h
  rw [chunksOf_of_ne_nil hn hl, List.take_of_length_le h, List.drop_of_length_le h,
    chunksOf_nil]

theorem flatten_chunksOf {n : Nat} (hn : 0 < n) (l : List α) : (chunksOf n l).flatten = l := by
  induction l using chunksOf.induct n with
  | case1 l h =>
    rcases h with rfl | h
    · rw [chunksOf_nil, List.flatten_nil]
    · omega
  | case2 l h ih =>
    rw [not_or] at h
    rw [chunksOf_of_ne_nil hn h.1, List.flatten_cons, ih, List.take_append_drop]

theorem mem_of_mem_chunksOf {n : Nat} (hn : 0 < n) {l c : List α} (hc : c ∈ chunksOf n l) {a : α}
    (ha : a ∈ c) : a ∈ l := by
  rw [← flatten_chunksOf hn l]
  exact List.mem_flatten.mpr ⟨c, hc, ha⟩

theorem chunksOf_eq_nil_iff {n : Nat} (hn : 0 < n) (l : List α) : chunksOf n l = [] ↔ l = [] := by
  constructor
  · intro h
    by_contra hl
    rw [chunksOf_of_ne_nil hn hl] at h
    exact List.cons_ne_nil _ _ h
  · rintro rfl
    exact chunksOf_nil n

/-- No piece is longer than `n`. -/
theorem length_le_of_mem_chunksOf {n : Nat} {l c : List α} (hc : c ∈ chunksOf n l) :
    c.length ≤ n := by
  induction l using chunksOf.induct n with
  | case1 l h =>
    rw [chunksOf, if_pos h] at hc
    exact absurd hc List.not_mem_nil
  | case2 l h ih =>
    rw [chunksOf, if_neg h, List.mem_cons] at hc
    rcases hc with rfl | hc
    · exact List.length_take_le n l
    · exact ih hc

/-- No piece is empty. -/
theorem ne_nil_of_mem_chunksOf {n : Nat} {l c : List α} (hc : c ∈ chunksOf n l) : c ≠ [] := by
  induction l using chunksOf.induct n with
  | case1 l h =>
    rw [chunksOf, if_pos h] at hc
    exact absurd hc List.not_mem_nil
  | case2 l h ih =>
    rw [chunksOf, if_neg h, List.mem_cons] at hc
    rw [not_or] at h
    rcases hc with rfl | hc
    · intro ht
      rcases List.take_eq_nil_iff.mp ht with hn | hl
      · exact h.2 hn
      · exact h.1 hl
    · exact ih hc

/-- There are as many pieces as `n` goes into the length, rounded up. -/
theorem length_chunksOf {n : Nat} (hn : 0 < n) (l : List α) :
    (chunksOf n l).length = (l.length + n - 1) / n := by
  induction l using chunksOf.induct n with
  | case1 l h =>
    have hl : l = [] := h.resolve_right (by omega)
    rw [hl, chunksOf_nil, List.length_nil, List.length_nil, Nat.zero_add,
      Nat.div_eq_of_lt (by omega)]
  | case2 l h ih =>
    rw [not_or] at h
    have hpos : 0 < l.length := List.length_pos_of_ne_nil h.1
    rw [chunksOf_of_ne_nil hn h.1, List.length_cons, ih, List.length_drop]
    -- one piece of `n`, and the pieces of what is left
    by_cases hle : l.length ≤ n
    · rw [Nat.sub_eq_zero_of_le hle, Nat.zero_add, Nat.div_eq_of_lt (by omega)]
      have hlo : n ≤ l.length + n - 1 := by omega
      have hhi : l.length + n - 1 < 2 * n := by omega
      have h1 : (l.length + n - 1) / n = 1 := by
        apply Nat.div_eq_of_lt_le
        · rw [Nat.one_mul]
          exact hlo
        · rw [Nat.add_one_mul, Nat.one_mul, ← Nat.two_mul]
          exact hhi
      rw [h1]
    · have hsplit : l.length + n - 1 = (l.length - n + n - 1) + n := by omega
      rw [hsplit, Nat.add_div_right _ hn]

/-- Pieces each followed by a separator: their bytes and one separator per piece. -/
theorem length_flatMap_append (L : List (List α)) (sep : List α) :
    (L.flatMap (· ++ sep)).length = L.flatten.length + L.length * sep.length := by
  induction L with
  | nil => rw [List.flatMap_nil, List.flatten_nil, List.length_nil, List.length_nil, Nat.zero_mul]
  | cons l L ih =>
    rw [List.flatMap_cons, List.length_append, List.length_append, ih, List.flatten_cons,
      List.length_append, List.length_cons, Nat.succ_mul]
    omega

/-- Two lists that each go up to a first `a` split there alike. -/
theorem append_cons_cancel {a : α} {x y u v : List α} (hx : a ∉ x) (hy : a ∉ y)
    (h : x ++ a :: u = y ++ a :: v) : x = y ∧ u = v := by
  induction x generalizing y with
  | nil =>
    cases y with
    | nil => exact ⟨rfl, (List.cons.inj h).2⟩
    | cons b y =>
      rw [List.nil_append, List.cons_append, List.cons.injEq] at h
      exact absurd (h.1 ▸ List.mem_cons_self) hy
  | cons c x ih =>
    cases y with
    | nil =>
      rw [List.cons_append, List.nil_append, List.cons.injEq] at h
      exact absurd (h.1 ▸ List.mem_cons_self) hx
    | cons d y =>
      rw [List.cons_append, List.cons_append, List.cons.injEq] at h
      obtain ⟨hxy, huv⟩ := ih (fun hm => hx (List.mem_cons_of_mem c hm))
        (fun hm => hy (List.mem_cons_of_mem d hm)) h.2
      exact ⟨by rw [h.1, hxy], huv⟩

end Chunks
