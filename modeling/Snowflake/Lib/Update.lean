import Mathlib
/-
Maps as functions with point updates (`Function.update`), the way a state of several
parties keeps one entry per party: what an update leaves at the other points, the split on
whether a point is the updated one, and maps of lists whose one list gains or loses an
element. Each lemma takes the update's facts as hypotheses, so that a caller applies it to
the projection of a state record without unfolding the record first.
-/

set_option autoImplicit false

namespace Function

variable {α β : Type}

/-- A map that is `none` at one point and `some` at another separates the two. -/
theorem ne_of_some_of_none {f : α → Option β} {a b : α} {x : β} (ha : f a = some x)
    (hb : f b = none) : a ≠ b := by
  rintro rfl
  simp [ha] at hb

variable [DecidableEq α]

/-- An update elsewhere keeps a value that differs from the one at the updated point. -/
theorem update_keep {f : α → β} {a b : α} {v y : β} (ha : f a ≠ y) (hb : f b = y) :
    update f a v b = y := by
  have hne : b ≠ a := by
    rintro rfl
    exact ha hb
  rw [update_of_ne hne, hb]

/-- A value other than the new one was there before. -/
theorem eq_of_update_ne {f : α → β} {a b : α} {v y : β} (h : update f a v b = y)
    (hne : y ≠ v) : f b = y := by
  by_cases hb : b = a
  · subst hb
    rw [update_self] at h
    exact absurd h.symm hne
  · rwa [update_of_ne hb] at h

/-- What an updated map gives at a point: the new value there, the old one elsewhere. -/
theorem update_cases {f : α → β} {a b : α} {v y : β} (h : update f a v b = y) :
    (b = a ∧ v = y) ∨ (b ≠ a ∧ f b = y) := by
  by_cases hb : b = a
  · subst hb
    exact .inl ⟨rfl, by rwa [update_self] at h⟩
  · exact .inr ⟨hb, by rwa [update_of_ne hb] at h⟩

/-- The one point an update moves, by a move of that point. -/
theorem update_move (R : α → β → β → Prop) {f : α → β} {a : α} {v : β} (b : α)
    (hR : R a (f a) v) : update f a v b = f b ∨ R b (f b) (update f a v b) := by
  by_cases hb : b = a
  · subst hb
    rw [update_self]
    exact .inr hR
  · exact .inl (update_of_ne hb v f)

/-- A map of lists after one list had an element appended. -/
theorem mem_update_append {f : α → List β} {a b : α} {x y : β}
    (h : y ∈ update f a (f a ++ [x]) b) : y ∈ f b ∨ (b = a ∧ y = x) := by
  by_cases hb : b = a
  · subst hb
    rw [update_self, List.mem_append, List.mem_singleton] at h
    exact h.imp_right fun h => ⟨rfl, h⟩
  · rw [update_of_ne hb] at h
    exact .inl h

/-- A map of lists after one list had an element erased. -/
theorem mem_update_erase [DecidableEq β] {f : α → List β} {a b : α} {x y : β}
    (h : y ∈ update f a ((f a).erase x) b) : y ∈ f b := by
  by_cases hb : b = a
  · subst hb
    rw [update_self] at h
    exact List.mem_of_mem_erase h
  · rwa [update_of_ne hb] at h

theorem nodup_update {f : α → List β} (hf : ∀ a, (f a).Nodup) {a : α} {l : List β}
    (hl : l.Nodup) (b : α) : (update f a l b).Nodup := by
  by_cases hb : b = a
  · subst hb
    rw [update_self]
    exact hl
  · rw [update_of_ne hb]
    exact hf b

end Function

theorem List.Nodup.append_singleton {β : Type} {l : List β} {x : β} (hl : l.Nodup)
    (hx : x ∉ l) : (l ++ [x]).Nodup :=
  hl.append (List.nodup_singleton x) (List.disjoint_singleton.mpr hx)
