import Mathlib
import Snowflake.Lib.RingBuffer
import Snowflake.Turbotunnel.Framing
/-
`server/lib/turbotunnel.go`: `clientIDMap`, the server's memory of the address each
turbotunnel `ClientID` last connected from.

The map is a circular buffer of `(ClientID, addr)` cells, the index `oldest` of the next cell
to overwrite, and `current`, which points each remembered `ClientID` at the cell of its most
recent entry. What it is for is a sliding window: it remembers the last `capacity` calls to
`Set`, and `Get` answers from the most recent of them for the `ClientID` asked about.

`Holds w m` says that the map `m` holds the window `w`. Read from `oldest`, its cells are the
zero entries a new map starts with, for as long as fewer than `capacity` Sets have been made,
and then `w`. `current` points each `ClientID` of `w` at the cell of its last entry in `w`.
A Set slides the window (`RingBuffer.rtake_concat`) the way it advances the buffer
(`RingBuffer.rotate_set_succ`). The delicate step is the guard `current[id] == oldest`. The
cell being overwritten is the oldest entry of the window, or a zero entry. Its `ClientID` is
forgotten exactly when that entry is its last one in the window (`lookup_set_ne`), never
because of an older entry that a newer one shadows, and never for the zero `ClientID` of a
zero cell (`Holds.set`). From `Holds`, `Get` answers from the last `capacity` Sets and
`len(current)` counts the distinct `ClientID`s among them, at every capacity, 0 and 1 included
(`clientIDMap_sliding_window`).
-/

set_option autoImplicit false

namespace Snowflake.Server

open Snowflake.Turbotunnel RingBuffer

variable {Addr : Type}

/-! ## The map -/

/-- The zero `ClientID`, which every cell of a new map holds. -/
def zeroClientID : ClientID := ⟨List.replicate 8 0, rfl⟩

/-- A cell of `entries`: a `ClientID` and its `net.Addr`, `none` for `nil`. -/
@[ext] structure Entry (Addr : Type) where
  clientID : ClientID
  addr : Option Addr

/-- The zero value of a cell. -/
def Entry.zero : Entry Addr := ⟨zeroClientID, none⟩

/-- `clientIDMap`, with `current` as an association list. Its last two fields are the
invariant the source relies on: `oldest < len(entries)`, which the source's comment notes
fails only at capacity 0, and every index in `current` is a cell. -/
structure ClientIDMap (Addr : Type) where
  entries : List (Entry Addr)
  oldest : Nat
  current : AList (fun _ : ClientID => Nat)
  oldest_lt : 0 < entries.length → oldest < entries.length
  current_lt : ∀ id i, current.lookup id = some i → i < entries.length

/-- `newClientIDMap`. -/
def newClientIDMap (capacity : Nat) : ClientIDMap Addr where
  entries := List.replicate capacity Entry.zero
  oldest := 0
  current := ∅
  oldest_lt := fun h => by simpa using h
  current_lt := fun id i h => by simp at h

/-- `current` after the cell at `o` is overwritten by an entry for `clientID`: the `ClientID`
`old` of that cell is deleted if `current` points to the cell. -/
def forgetAndInsert (current : AList (fun _ : ClientID => Nat)) (old : ClientID) (o : Nat)
    (clientID : ClientID) : AList (fun _ : ClientID => Nat) :=
  (if current.lookup old = some o then current.erase old else current).insert clientID o

theorem lookup_forgetAndInsert_self (current : AList (fun _ : ClientID => Nat)) (old : ClientID)
    (o : Nat) (clientID : ClientID) :
    (forgetAndInsert current old o clientID).lookup clientID = some o := by
  rw [forgetAndInsert, AList.lookup_insert]

/-- Another `ClientID` loses its cell when it pointed at the one overwritten, and keeps it
otherwise. -/
theorem lookup_forgetAndInsert_ne {current : AList (fun _ : ClientID => Nat)} {old : ClientID}
    {o : Nat} {clientID id : ClientID} (hid : id ≠ clientID)
    (hold : current.lookup id = some o → id = old) :
    (forgetAndInsert current old o clientID).lookup id =
      if current.lookup id = some o then none else current.lookup id := by
  rw [forgetAndInsert, AList.lookup_insert_ne hid]
  by_cases hio : current.lookup id = some o
  · have hold' := hold hio
    subst hold'
    rw [if_pos hio, if_pos hio, AList.lookup_erase]
  · rw [if_neg hio]
    split_ifs with hold'
    · have hne : id ≠ old := fun h => hio (by rw [h]; exact hold')
      rw [AList.lookup_erase_ne hne]
    · rfl

theorem lt_of_lookup_forgetAndInsert {current : AList (fun _ : ClientID => Nat)} {n o : Nat}
    (hc : ∀ id i, current.lookup id = some i → i < n) (ho : o < n) (old clientID id : ClientID)
    {i : Nat} (hi : (forgetAndInsert current old o clientID).lookup id = some i) : i < n := by
  rw [forgetAndInsert] at hi
  by_cases hid : id = clientID
  · rw [hid, AList.lookup_insert] at hi
    exact Option.some.inj hi ▸ ho
  · rw [AList.lookup_insert_ne hid] at hi
    split_ifs at hi
    · by_cases hold : id = old
      · rw [hold, AList.lookup_erase] at hi
        exact absurd hi (by simp)
      · exact hc id i (by rwa [AList.lookup_erase_ne hold] at hi)
    · exact hc id i hi

/-- `(*clientIDMap).Set`. -/
def ClientIDMap.set (m : ClientIDMap Addr) (clientID : ClientID) (addr : Option Addr) :
    ClientIDMap Addr :=
  if h : m.entries.length = 0 then m
  else
    have ho : m.oldest < m.entries.length := m.oldest_lt (Nat.pos_of_ne_zero h)
    { entries := m.entries.set m.oldest ⟨clientID, addr⟩
      oldest := (m.oldest + 1) % m.entries.length
      current := forgetAndInsert m.current m.entries[m.oldest].clientID m.oldest clientID
      oldest_lt := fun _ => by
        rw [List.length_set]
        exact Nat.mod_lt _ (Nat.pos_of_ne_zero h)
      current_lt := fun id i hi => by
        rw [List.length_set]
        exact lt_of_lookup_forgetAndInsert m.current_lt ho _ _ id hi }

/-- `(*clientIDMap).Get`. It only reads the map. -/
def ClientIDMap.get (m : ClientIDMap Addr) (clientID : ClientID) : Option Addr × Bool :=
  match h : m.current.lookup clientID with
  | some i =>
    have := m.current_lt clientID i h
    (m.entries[i].addr, true)
  | none => (none, false)

/-- The map after a sequence of Sets on `newClientIDMap capacity`. -/
def runSets (capacity : Nat) (calls : List (Entry Addr)) : ClientIDMap Addr :=
  calls.foldl (fun m e => m.set e.clientID e.addr) (newClientIDMap capacity)

/-! ## One Set, on the concrete fields -/

section Set

variable (m : ClientIDMap Addr) (clientID : ClientID) (addr : Option Addr)

theorem set_of_length_zero (h : m.entries.length = 0) : m.set clientID addr = m := by
  rw [ClientIDMap.set, dif_pos h]

@[simp] theorem length_entries_set : (m.set clientID addr).entries.length = m.entries.length := by
  unfold ClientIDMap.set
  split_ifs <;> simp

variable {m} (hn : 0 < m.entries.length)

include hn

theorem entries_set : (m.set clientID addr).entries = m.entries.set m.oldest ⟨clientID, addr⟩ := by
  rw [ClientIDMap.set, dif_neg (by omega)]

theorem oldest_set : (m.set clientID addr).oldest = (m.oldest + 1) % m.entries.length := by
  rw [ClientIDMap.set, dif_neg (by omega)]

theorem current_set : (m.set clientID addr).current =
    forgetAndInsert m.current (m.entries.get ⟨m.oldest, m.oldest_lt hn⟩).clientID m.oldest
      clientID := by
  rw [ClientIDMap.set, dif_neg (by omega)]
  rfl

end Set

theorem get_of_lookup {m : ClientIDMap Addr} {id : ClientID} {j : Nat}
    (h : m.current.lookup id = some j) : m.get id = (m.entries[j]?.bind Entry.addr, true) := by
  have hj := m.current_lt id j h
  unfold ClientIDMap.get
  split
  · rename_i k hk
    rw [h] at hk
    cases hk
    simp only [List.getElem?_eq_getElem hj, Option.bind_some]
  · rename_i hk
    rw [h] at hk
    cases hk

theorem get_of_lookup_none {m : ClientIDMap Addr} {id : ClientID}
    (h : m.current.lookup id = none) : m.get id = (none, false) := by
  unfold ClientIDMap.get
  split
  · rename_i k hk
    rw [h] at hk
    cases hk
  · rfl

/-! ## The window a map holds -/

/-- The test `lastIndex` looks for: an entry for `id`. -/
abbrev isFor (id : ClientID) (e : Entry Addr) : Bool := e.clientID == id

/-- The cell of the `i`-th entry of a window `w` held by `m`. -/
def cellOf (m : ClientIDMap Addr) (w : List (Entry Addr)) (i : Nat) : Nat :=
  (m.entries.length - w.length + i + m.oldest) % m.entries.length

/-- **The refinement.** `m` holds the window `w`: read from `oldest`, its cells are zero
entries and then `w`, and `current` points each `ClientID` at the cell of its last entry in
`w`. -/
structure Holds (w : List (Entry Addr)) (m : ClientIDMap Addr) : Prop where
  length_le : w.length ≤ m.entries.length
  view : m.entries.rotate m.oldest = List.replicate (m.entries.length - w.length) Entry.zero ++ w
  current : ∀ id, m.current.lookup id = (lastIndex (isFor id) w).map (cellOf m w)

theorem holds_new (capacity : Nat) : Holds [] (newClientIDMap capacity : ClientIDMap Addr) where
  length_le := by simp
  view := by simp [newClientIDMap]
  current := fun id => by simp [newClientIDMap]

section Holds

variable {w : List (Entry Addr)} {m : ClientIDMap Addr}

/-- The cell of an entry of the window holds that entry. -/
theorem Holds.getElem?_cellOf (hw : Holds w m) {i : Nat} (hi : i < w.length) :
    m.entries[cellOf m w i]? = some w[i] := by
  have hle := hw.length_le
  have hv := List.getElem?_rotate (l := m.entries) (n := m.oldest)
    (m := m.entries.length - w.length + i) (by omega)
  rw [hw.view, List.getElem?_append_right (by simp), List.length_replicate,
    Nat.add_sub_cancel_left, List.getElem?_eq_getElem hi] at hv
  rw [cellOf, ← hv]

/-- What `current` points at is an entry for its `ClientID`. -/
theorem Holds.clientID_of_lookup (hw : Holds w m) {id : ClientID} {j : Nat}
    (hj : m.current.lookup id = some j) : m.entries[j]?.map Entry.clientID = some id := by
  rw [hw.current] at hj
  obtain ⟨i, hi, rfl⟩ := Option.map_eq_some_iff.mp hj
  obtain ⟨hil, hpi, -⟩ := (lastIndex_eq_some_iff _ w i).mp hi
  rw [hw.getElem?_cellOf hil]
  simpa using hpi

/-- `Get` answers from the last entry for `id` in the window. -/
theorem Holds.get_of_lastIndex (hw : Holds w m) {id : ClientID} {i : Nat}
    (hi : lastIndex (isFor id) w = some i) : m.get id = (w[i]?.bind Entry.addr, true) := by
  have hil := lastIndex_lt _ hi
  have hlook : m.current.lookup id = some (cellOf m w i) := by rw [hw.current, hi]; rfl
  rw [get_of_lookup hlook, hw.getElem?_cellOf hil, List.getElem?_eq_getElem hil]

theorem Holds.get_of_lastIndex_none (hw : Holds w m) {id : ClientID}
    (hi : lastIndex (isFor id) w = none) : m.get id = (none, false) :=
  get_of_lookup_none (by rw [hw.current, hi]; rfl)

/-- An entry for `id` with none after it is the one `lastIndex` finds. -/
theorem lastIndex_of_entry {w : List (Entry Addr)} {id : ClientID} {i : Nat} (hi : i < w.length)
    (he : w[i].clientID = id) (hafter : ∀ j (hj : j < w.length), i < j → w[j].clientID ≠ id) :
    lastIndex (isFor id) w = some i :=
  (lastIndex_eq_some_iff _ w i).mpr
    ⟨hi, by simp [isFor, he], fun j hj hij => by simpa [isFor] using hafter j hj hij⟩

theorem Holds.get_eq_true_iff (hw : Holds w m) (id : ClientID) (a : Option Addr) :
    m.get id = (a, true) ↔ ∃ i, ∃ hi : i < w.length, w[i] = ⟨id, a⟩ ∧
      ∀ j (hj : j < w.length), i < j → w[j].clientID ≠ id := by
  rcases h : lastIndex (isFor id) w with _ | i
  · rw [hw.get_of_lastIndex_none h]
    simp only [Prod.mk.injEq, Bool.false_eq_true, and_false, false_iff, not_exists, not_and]
    intro i hi he hafter
    have hsome := lastIndex_of_entry hi (by rw [he]) hafter
    rw [h] at hsome
    cases hsome
  · obtain ⟨hi, hpi, hafter⟩ := (lastIndex_eq_some_iff _ w i).mp h
    have hid : w[i].clientID = id := by simpa [isFor] using hpi
    rw [hw.get_of_lastIndex h, List.getElem?_eq_getElem hi, Option.bind_some]
    simp only [Prod.mk.injEq, and_true]
    constructor
    · rintro rfl
      exact ⟨i, hi, Entry.ext hid rfl, fun j hj hij => by simpa [isFor] using hafter j hj hij⟩
    · -- the entry found is the last one for `id`, so it is `lastIndex`'s
      rintro ⟨i', hi', he, hafter'⟩
      have hsome := lastIndex_of_entry hi' (by rw [he]) hafter'
      rw [h] at hsome
      cases hsome
      rw [he]

theorem Holds.get_eq_false_iff (hw : Holds w m) (id : ClientID) :
    m.get id = (none, false) ↔ ∀ e ∈ w, e.clientID ≠ id := by
  rcases h : lastIndex (isFor id) w with _ | i
  · rw [hw.get_of_lastIndex_none h]
    simpa [isFor] using (lastIndex_eq_none_iff _ w).mp h
  · obtain ⟨hi, hpi, -⟩ := (lastIndex_eq_some_iff _ w i).mp h
    rw [hw.get_of_lastIndex h]
    simp only [Prod.mk.injEq, Bool.true_eq_false, and_false, false_iff]
    intro hall
    exact hall _ (List.getElem_mem hi) (by simpa [isFor] using hpi)

/-- `len(current)` is the number of distinct `ClientID`s in the window. -/
theorem Holds.length_current (hw : Holds w m) :
    m.current.entries.length = (w.map Entry.clientID).dedup.length := by
  have hperm : m.current.keys.Perm (w.map Entry.clientID).dedup := by
    rw [List.perm_ext_iff_of_nodup m.current.keys_nodup (List.nodup_dedup _)]
    intro id
    rw [← AList.mem_keys, ← AList.lookup_isSome, List.mem_dedup, hw.current, Option.isSome_map,
      Option.isSome_iff_ne_none, lastIndex_ne_none_iff]
    simp
  rw [← hperm.length_eq]
  simp [AList.keys, List.keys]

/-! ## A Set keeps the refinement -/

section Step

variable (hw : Holds w m) (hn : 0 < m.entries.length)

include hn

/-- After a Set every entry of the window keeps its cell, one place earlier in the view. -/
theorem cellOf_set (x : Entry Addr) {w' : List (Entry Addr)} {i i' : Nat}
    (h : m.entries.length - w'.length + i' + 1 = m.entries.length - w.length + i) :
    cellOf (m.set x.clientID x.addr) w' i' = cellOf m w i := by
  rw [cellOf, cellOf, length_entries_set, oldest_set _ _ hn, Nat.add_mod_mod,
    show m.entries.length - w'.length + i' + (m.oldest + 1) =
      m.entries.length - w.length + i + m.oldest by omega]

/-- The last place of the view after a Set is the cell it wrote. -/
theorem cellOf_set_last (x : Entry Addr) {w' : List (Entry Addr)} {i' : Nat}
    (h : m.entries.length - w'.length + i' + 1 = m.entries.length) :
    cellOf (m.set x.clientID x.addr) w' i' = m.oldest := by
  rw [cellOf, length_entries_set, oldest_set _ _ hn, Nat.add_mod_mod,
    show m.entries.length - w'.length + i' + (m.oldest + 1) = m.oldest + m.entries.length by omega,
    Nat.add_mod_right, Nat.mod_eq_of_lt (m.oldest_lt hn)]

include hw

/-- Only the first place of the view is the cell at `oldest`. -/
theorem Holds.cellOf_eq_oldest_iff {i : Nat} (hi : i < w.length) :
    cellOf m w i = m.oldest ↔ m.entries.length - w.length + i = 0 :=
  add_mod_eq_self_iff (by have := hw.length_le; omega) (m.oldest_lt hn)

theorem Holds.view_set (x : Entry Addr) :
    (m.set x.clientID x.addr).entries.rotate (m.set x.clientID x.addr).oldest =
      List.replicate ((m.set x.clientID x.addr).entries.length -
        (slide m.entries.length w x).length) Entry.zero ++ slide m.entries.length w x := by
  rw [entries_set _ _ hn, oldest_set _ _ hn,
    rotate_set_succ m.entries (m.oldest_lt hn), hw.view, List.length_set, slide]
  have hle := hw.length_le
  split_ifs with hlt
  · -- a zero cell is overwritten
    obtain ⟨k, hk⟩ : ∃ k, m.entries.length - w.length = k + 1 := ⟨_, (Nat.succ_pred_eq_of_pos
      (by omega)).symm⟩
    rw [hk, List.replicate_succ, List.cons_append, List.tail_cons, List.length_append,
      List.length_singleton, show m.entries.length - (w.length + 1) = k by omega,
      List.append_assoc]
  · -- the oldest entry of the full window is overwritten
    rw [show m.entries.length - w.length = 0 by omega, List.length_append, List.length_singleton,
      List.length_tail, show m.entries.length - (w.length - 1 + 1) = 0 by omega]
    simp

/-- While the window is not full the cell at `oldest` is a zero cell, which no `ClientID`
points at: the other lookups are kept, in the same cells. -/
theorem Holds.lookup_set_of_lt (x : Entry Addr) (hlt : w.length < m.entries.length)
    (id : ClientID) :
    (if (lastIndex (isFor id) w).map (cellOf m w) = some m.oldest then none
      else (lastIndex (isFor id) w).map (cellOf m w)) =
    (lastIndex (isFor id) w).map (cellOf (m.set x.clientID x.addr) (w ++ [x])) := by
  have hcell : cellOf (m.set x.clientID x.addr) (w ++ [x]) = cellOf m w :=
    funext fun i => cellOf_set hn x (by simp; omega)
  rw [hcell, if_neg]
  intro h
  obtain ⟨i, hi, hio⟩ := Option.map_eq_some_iff.mp h
  have := (hw.cellOf_eq_oldest_iff hn (lastIndex_lt _ hi)).mp hio
  omega

/-- Once the window is full the cell at `oldest` holds its first entry: the one `ClientID`
whose last entry that is loses its lookup, and the other lookups keep their cells. -/
theorem Holds.lookup_set_of_full (x : Entry Addr) (hfull : w.length = m.entries.length)
    (id : ClientID) :
    (if (lastIndex (isFor id) w).map (cellOf m w) = some m.oldest then none
      else (lastIndex (isFor id) w).map (cellOf m w)) =
    (lastIndex (isFor id) w.tail).map (cellOf (m.set x.clientID x.addr) (w.tail ++ [x])) := by
  obtain ⟨y, t, rfl⟩ : ∃ y t, w = y :: t := List.exists_cons_of_length_pos (by omega)
  have hcell : ∀ i, cellOf (m.set x.clientID x.addr) (t ++ [x]) i = cellOf m (y :: t) (i + 1) :=
    fun i => cellOf_set hn x (by simp at hfull ⊢; omega)
  rw [List.tail_cons, lastIndex_cons]
  rcases ht : lastIndex (isFor id) t with _ | k
  · -- no later entry for `id`: it is forgotten if its only entry is the oldest one
    have h0 : cellOf m (y :: t) 0 = m.oldest :=
      (hw.cellOf_eq_oldest_iff hn (by simp)).mpr (by omega)
    cases isFor id y <;> simp [h0]
  · -- a later entry shadows the oldest one: the lookup stays
    have hk := lastIndex_lt _ ht
    have hne : cellOf m (y :: t) (k + 1) ≠ m.oldest := fun h => by
      have := (hw.cellOf_eq_oldest_iff hn (by simp; omega)).mp h
      omega
    simp [hne, hcell]

/-- **A Set keeps the refinement**: the map holds the slid window. -/
theorem Holds.set (x : Entry Addr) :
    Holds (slide m.entries.length w x) (m.set x.clientID x.addr) where
  length_le := by
    have := hw.length_le
    rw [length_entries_set, slide]
    split_ifs <;> simp <;> omega
  view := hw.view_set hn x
  current := fun id => by
    rw [current_set _ _ hn]
    have hle := hw.length_le
    by_cases hid : id = x.clientID
    · -- the new entry is the last one for its `ClientID`, in the cell just written
      subst hid
      rw [lookup_forgetAndInsert_self, slide, lastIndex_concat,
        if_pos (show isFor x.clientID x = true by simp [isFor]), Option.map_some,
        cellOf_set_last hn x]
      split_ifs <;> simp <;> omega
    · have hold : m.current.lookup id = some m.oldest →
          id = (m.entries.get ⟨m.oldest, m.oldest_lt hn⟩).clientID := fun h => by
        have := hw.clientID_of_lookup h
        rw [List.getElem?_eq_getElem (m.oldest_lt hn)] at this
        simpa using this.symm
      rw [lookup_forgetAndInsert_ne hid hold, hw.current, slide, lastIndex_concat,
        if_neg (show ¬ isFor id x = true by simpa [isFor] using Ne.symm hid)]
      by_cases hlt : w.length < m.entries.length
      · rw [if_pos hlt]
        exact hw.lookup_set_of_lt hn x hlt id
      · rw [if_neg hlt]
        exact hw.lookup_set_of_full hn x (by omega) id

end Step

end Holds

/-! ## Every run -/

theorem runSets_concat (c : Nat) (calls : List (Entry Addr)) (x : Entry Addr) :
    runSets c (calls ++ [x]) = (runSets c calls).set x.clientID x.addr := by
  simp [runSets, List.foldl_append]

theorem length_entries_runSets (c : Nat) (calls : List (Entry Addr)) :
    (runSets c calls).entries.length = c := by
  induction calls using List.reverseRecOn with
  | nil => simp [runSets, newClientIDMap]
  | append_singleton calls x ih => rw [runSets_concat, length_entries_set, ih]

/-- Every map a sequence of Sets reaches holds the last `c` of them. -/
theorem holds_runSets (c : Nat) (calls : List (Entry Addr)) :
    Holds (calls.rtake c) (runSets c calls) := by
  induction calls using List.reverseRecOn with
  | nil => simpa [runSets] using holds_new c
  | append_singleton calls x ih =>
    rw [runSets_concat]
    rcases Nat.eq_zero_or_pos c with rfl | hc
    · -- capacity 0: `Set` returns at once and the window stays empty
      rw [set_of_length_zero _ _ _ (length_entries_runSets 0 calls)]
      simpa [List.rtake_zero] using ih
    · have hn : 0 < (runSets c calls).entries.length := by rwa [length_entries_runSets]
      have hstep := ih.set hn x
      rwa [length_entries_runSets, ← rtake_concat calls x hc] at hstep

/-- **`clientIDMap` is a sliding window.** For every capacity `c` and every sequence of Sets
on `newClientIDMap(c)`, `Get(id)` answers `(a, true)` exactly when one of the last `c` Sets
was for `id`, `a` being the address of the most recent of them, and `(nil, false)` otherwise;
and `len(current)` is the number of distinct `ClientID`s among those Sets. `Get` only reads
the map, so the Gets between the Sets of a sequence of calls change nothing. -/
theorem clientIDMap_sliding_window (c : Nat) (calls : List (Entry Addr)) :
    (∀ id a, (runSets c calls).get id = (a, true) ↔
      ∃ i, ∃ hi : i < (calls.rtake c).length, (calls.rtake c)[i] = ⟨id, a⟩ ∧
        ∀ j (hj : j < (calls.rtake c).length), i < j → (calls.rtake c)[j].clientID ≠ id) ∧
    (∀ id, (runSets c calls).get id = (none, false) ↔ ∀ e ∈ calls.rtake c, e.clientID ≠ id) ∧
    (runSets c calls).current.entries.length =
      ((calls.rtake c).map Entry.clientID).dedup.length := by
  have hw := holds_runSets c calls
  exact ⟨hw.get_eq_true_iff, hw.get_eq_false_iff, hw.length_current⟩

-- At capacity 2 the third Set overwrites the older, shadowed entry for one `ClientID`, which is
-- still answered from its newer entry.
example :
    (runSets 2 [⟨⟨[1, 0, 0, 0, 0, 0, 0, 0], rfl⟩, some 1⟩, ⟨⟨[1, 0, 0, 0, 0, 0, 0, 0], rfl⟩, some 2⟩,
      ⟨⟨[2, 0, 0, 0, 0, 0, 0, 0], rfl⟩, some 3⟩]).get ⟨[1, 0, 0, 0, 0, 0, 0, 0], rfl⟩ =
      (some (2 : Nat), true) := by
  decide

/-! ## What one Set forgets -/

section Forget

variable {w : List (Entry Addr)} {m : ClientIDMap Addr} (hw : Holds w m)
  (hn : 0 < m.entries.length)

include hw hn

theorem Holds.get_set_self (id : ClientID) (a : Option Addr) : (m.set id a).get id = (a, true) := by
  have hstep := hw.set hn ⟨id, a⟩
  have hlast : lastIndex (isFor id) (slide m.entries.length w ⟨id, a⟩) =
      some (slide m.entries.length w ⟨id, a⟩).length.pred := by
    rw [slide, lastIndex_concat, if_pos (by simp [isFor])]
    simp
  rw [hstep.get_of_lastIndex hlast, slide, List.length_append, List.length_singleton,
    Nat.pred_succ, List.getElem?_concat_length]
  rfl

/-- Another `ClientID` keeps its answer unless `current` pointed it at the cell overwritten:
then it is the `ClientID` of the cell at `oldest`, and is forgotten. -/
theorem Holds.get_set_ne {id id' : ClientID} (a : Option Addr) (hne : id' ≠ id)
    (hchanged : (m.set id a).get id' ≠ m.get id') :
    (m.set id a).get id' = (none, false) ∧ m.entries[m.oldest]?.map Entry.clientID = some id' := by
  have hold : m.current.lookup id' = some m.oldest →
      id' = (m.entries.get ⟨m.oldest, m.oldest_lt hn⟩).clientID := fun h => by
    have := hw.clientID_of_lookup h
    rw [List.getElem?_eq_getElem (m.oldest_lt hn)] at this
    simpa using this.symm
  have hlook := lookup_forgetAndInsert_ne hne hold
  rw [← current_set id a hn] at hlook
  by_cases ho : m.current.lookup id' = some m.oldest
  · -- `current` pointed `id'` at the overwritten cell
    rw [if_pos ho] at hlook
    exact ⟨get_of_lookup_none hlook, hw.clientID_of_lookup ho⟩
  · -- otherwise its lookup and its cell are both unchanged
    rw [if_neg ho] at hlook
    exfalso
    apply hchanged
    rcases hj : m.current.lookup id' with _ | j
    · rw [hj] at hlook
      rw [get_of_lookup_none hlook, get_of_lookup_none hj]
    · rw [hj] at hlook ho
      have hjo : m.oldest ≠ j := fun h => ho (by rw [h])
      rw [get_of_lookup hlook, get_of_lookup hj, entries_set _ _ hn, List.getElem?_set_ne hjo]

end Forget

/-- **A Set forgets at most one other mapping, the oldest one**, as `Set`'s comment says. In
every map that a sequence of Sets reaches at a capacity above 0, `Set(id, a)` makes `Get(id)`
answer `(a, true)`. Every other `ClientID` whose answer changes is the `ClientID` of the cell at
`oldest`, so there is at most one, and it is now answered `(nil, false)`. -/
theorem set_forgets_only_oldest (c : Nat) (hc : 0 < c) (calls : List (Entry Addr))
    (id : ClientID) (a : Option Addr) :
    ((runSets c calls).set id a).get id = (a, true) ∧
    ∀ id', id' ≠ id → ((runSets c calls).set id a).get id' ≠ (runSets c calls).get id' →
      ((runSets c calls).set id a).get id' = (none, false) ∧
      (runSets c calls).entries[(runSets c calls).oldest]?.map Entry.clientID = some id' := by
  have hw := holds_runSets c calls
  have hn : 0 < (runSets c calls).entries.length := by rwa [length_entries_runSets]
  exact ⟨hw.get_set_self hn id a, fun id' hne hchanged => hw.get_set_ne hn a hne hchanged⟩

/-- Capacity one, after a Set of `id₁`: a Set of `id₂` overwrites `id₁`'s cell, and `id₁` is
the one `ClientID` forgotten. -/
theorem set_forgets_only_oldest_overwrite :
    let id₁ : ClientID := ⟨List.replicate 8 1, rfl⟩
    let id₂ : ClientID := ⟨List.replicate 8 2, rfl⟩
    let m := runSets 1 [(⟨id₁, some ()⟩ : Entry Unit)]
    (m.get id₁ = (some (), true) ∧ (m.set id₂ (some ())).get id₁ = (none, false)) ∧
    0 < 1 ∧ (m.set id₂ (some ())).get id₂ = (some (), true) ∧
      ∀ id', id' ≠ id₂ → (m.set id₂ (some ())).get id' ≠ m.get id' →
        (m.set id₂ (some ())).get id' = (none, false) ∧
        m.entries[m.oldest]?.map Entry.clientID = some id' := by
  intro id₁ id₂ m
  exact ⟨by decide, by decide, set_forgets_only_oldest 1 (by decide) _ id₂ (some ())⟩

end Snowflake.Server
