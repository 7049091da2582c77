import Mathlib
/-
Sums over the values of an association list (Mathlib's `AList`, a map with one entry per key), the
way a store keeps running totals of what it holds: how `insert` and `erase` change the sum, and
that one value is at most the sum. The number of entries is the sum of one per entry. The same
for a running total over a list of items: when one item's value changes, and when each value
is bounded.
-/

set_option autoImplicit false

namespace AList

variable {α β : Type}

/-- The sum of `f` over the values of `s`. -/
def sumBy (f : β → Nat) (s : AList (fun _ : α => β)) : Nat := (s.entries.map fun e => f e.2).sum

/-- The number of entries is the sum of one for each. -/
theorem length_entries_eq_sumBy (s : AList (fun _ : α => β)) :
    s.entries.length = sumBy (fun _ => 1) s := by
  rw [sumBy]
  induction s.entries with
  | nil => rfl
  | cons e l ih => rw [List.length_cons, List.map_cons, List.sum_cons, ih, Nat.add_comm]

@[simp] theorem sumBy_empty (f : β → Nat) : sumBy f (∅ : AList (fun _ : α => β)) = 0 := rfl

variable [DecidableEq α]

section

variable (f : β → Nat)

/-- The entry of a key that is there, cut out of the entries. -/
theorem exists_entries_of_lookup {s : AList (fun _ : α => β)} {a : α} {b : β}
    (h : s.lookup a = some b) :
    ∃ l₁ l₂, s.entries = l₁ ++ ⟨a, b⟩ :: l₂ ∧ (s.erase a).entries = l₁ ++ l₂ := by
  have hmem : a ∈ s.entries.keys := AList.mem_keys.mp (AList.lookup_isSome.mp (by rw [h]; rfl))
  obtain ⟨b', l₁, l₂, -, hs, hk⟩ := List.exists_of_kerase hmem
  -- the value cut out is the one the lookup found, since keys are unique
  have hb' : s.lookup a = some b' := AList.mem_lookup_iff.mpr (by rw [hs]; simp)
  rw [h, Option.some.injEq] at hb'
  subst hb'
  exact ⟨l₁, l₂, hs, hk⟩

theorem sumBy_erase_add {s : AList (fun _ : α => β)} {a : α} {b : β} (h : s.lookup a = some b) :
    sumBy f (s.erase a) + f b = sumBy f s := by
  obtain ⟨l₁, l₂, hs, he⟩ := exists_entries_of_lookup h
  rw [sumBy, sumBy, he, hs]
  simp only [List.map_append, List.map_cons, List.sum_append, List.sum_cons]
  omega

theorem sumBy_erase_of_notMem {s : AList (fun _ : α => β)} {a : α} (h : a ∉ s) :
    sumBy f (s.erase a) = sumBy f s := by
  have he : (s.erase a).entries = s.entries :=
    List.kerase_of_notMem_keys (AList.mem_keys.not.mp h)
  rw [sumBy, sumBy, he]

theorem sumBy_insert (s : AList (fun _ : α => β)) (a : α) (b : β) :
    sumBy f (s.insert a b) = f b + sumBy f (s.erase a) := by
  rw [sumBy, AList.entries_insert, List.map_cons, List.sum_cons]
  rfl

theorem sumBy_insert_of_notMem {s : AList (fun _ : α => β)} {a : α} (h : a ∉ s) (b : β) :
    sumBy f (s.insert a b) = f b + sumBy f s := by
  rw [sumBy_insert, sumBy_erase_of_notMem f h]

/-- The value at a key, or a default that counts zero when the key is not there, cut out of the
sum. -/
theorem sumBy_erase_add_getD (s : AList (fun _ : α => β)) (a : α) {d : β} (hd : f d = 0) :
    sumBy f (s.erase a) + f ((s.lookup a).getD d) = sumBy f s := by
  cases h : s.lookup a with
  | none =>
    rw [Option.getD_none, hd, Nat.add_zero, sumBy_erase_of_notMem f (AList.lookup_eq_none.mp h)]
  | some b => rw [Option.getD_some, sumBy_erase_add f h]

/-- Erasing a key changes nothing at the other keys. -/
theorem map_lookup_erase_of_notMem {ks : List α} {a : α} (ha : a ∉ ks) (s : AList (fun _ : α => β)) :
    (ks.map fun k => (((s.erase a).lookup k).map f).getD 0) =
      ks.map fun k => ((s.lookup k).map f).getD 0 :=
  List.map_congr_left fun k hk => by
    have hne : k ≠ a := fun h => ha (h ▸ hk)
    rw [AList.lookup_erase_ne hne]

/-- The values at distinct keys sum to at most the sum of all values. The induction is on the
keys, with the entry of the first one erased before the rest are counted. -/
theorem sum_lookup_le_sumBy {ks : List α} (hks : ks.Nodup) (s : AList (fun _ : α => β)) :
    (ks.map fun k => ((s.lookup k).map f).getD 0).sum ≤ sumBy f s := by
  induction ks generalizing s with
  | nil => exact Nat.zero_le _
  | cons a ks ih =>
    obtain ⟨ha, hks'⟩ := List.nodup_cons.mp hks
    have hrest := ih hks' (s.erase a)
    rw [map_lookup_erase_of_notMem f ha] at hrest
    rw [List.map_cons, List.sum_cons]
    cases h : s.lookup a with
    | none =>
      rw [sumBy_erase_of_notMem f (AList.lookup_eq_none.mp h)] at hrest
      rw [Option.map_none, Option.getD_none]
      omega
    | some b =>
      rw [Option.map_some, Option.getD_some, ← sumBy_erase_add f h]
      omega

/-- When the values at distinct keys make the whole sum, every other value counts zero. -/
theorem eq_zero_of_sum_lookup_eq_sumBy {ks : List α} (hks : ks.Nodup) {s : AList (fun _ : α => β)}
    (hsum : (ks.map fun k => ((s.lookup k).map f).getD 0).sum = sumBy f s) {a : α} {b : β}
    (ha : a ∉ ks) (h : s.lookup a = some b) : f b = 0 := by
  have hle := sum_lookup_le_sumBy f hks (s.erase a)
  rw [map_lookup_erase_of_notMem f ha, hsum, ← sumBy_erase_add f h] at hle
  omega

end

/-- Erasing a key that is there leaves fewer entries. -/
theorem length_entries_erase_lt {s : AList (fun _ : α => β)} {a : α} {b : β} (h : s.lookup a = some b) :
    (s.erase a).entries.length < s.entries.length := by
  have hsum := sumBy_erase_add (fun _ => 1) h
  rw [← length_entries_eq_sumBy, ← length_entries_eq_sumBy] at hsum
  omega

end AList

namespace List

variable {α : Type} [DecidableEq α]

/-- A sum over a list without repeats, of values that changed at one member only, by `x`. -/
theorem sum_map_eq_add_of_eq_off {l : List α} (hl : l.Nodup) {a : α} (ha : a ∈ l) {f g : α → Nat}
    {x : Nat} (hga : g a = f a + x) (hrest : ∀ b ∈ l, b ≠ a → g b = f b) :
    (l.map g).sum = (l.map f).sum + x := by
  have hsame : (l.erase a).map g = (l.erase a).map f :=
    map_congr_left fun b hb => hrest b (mem_of_mem_erase hb) ((hl.mem_erase_iff).mp hb).1
  rw [← sum_map_erase g ha, ← sum_map_erase f ha, hga, hsame]
  omega

/-- Values bounded member by member, with room for `x` beside the value of one member, sum to at
most the bound's sum less `x`. -/
theorem sum_map_add_le {l : List α} {a : α} (ha : a ∈ l) {f g : α → Nat} {x : Nat}
    (hle : ∀ b ∈ l, f b ≤ g b) (hx : f a + x ≤ g a) : (l.map f).sum + x ≤ (l.map g).sum := by
  have hrest : ((l.erase a).map f).sum ≤ ((l.erase a).map g).sum :=
    sum_le_sum fun b hb => hle b (mem_of_mem_erase hb)
  rw [← sum_map_erase f ha, ← sum_map_erase g ha]
  omega

end List
