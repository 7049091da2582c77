import Mathlib
/-
What the message codecs of a Go program take from `encoding/json`, at the level of JSON
objects whose members hold scalars.

A Go string is a sequence of bytes, so strings here are `List UInt8`, and `str` gives the
bytes of a literal. `json.Marshal` and `json.Unmarshal` are a `Codec`, a parameter: the
results that use one assume only `Codec.Lawful`, what the package documents (`Unmarshal`
reads back what `Marshal` wrote when every string is valid UTF-8; `Marshal` writes compact
JSON with control characters escaped, so no newline byte; the empty object is `{}`).
`JsonCompact.lean` gives a codec that has these properties.

Decoding into a Go struct is modelled field by field, as the package documents it: a
missing or `null` member leaves the zero value, a member of the wrong kind or a number out
of the field's range is an `UnmarshalTypeError`. Keys are matched exactly, and when a key
repeats the last member counts. The case-insensitive fallback of struct-field matching is
not modelled: every object decoded here comes from `Marshal` of the same struct.
-/

set_option autoImplicit false

namespace GoJson

/-- The bytes of a string literal. -/
def str (s : String) : List UInt8 := s.toUTF8.toList

/-- A byte string that is valid UTF-8. -/
def ValidUTF8 (s : List UInt8) : Prop := (ByteArray.mk s.toArray).IsValidUTF8

instance (s : List UInt8) : Decidable (ValidUTF8 s) :=
  inferInstanceAs (Decidable (ByteArray.mk s.toArray).IsValidUTF8)

/-! ### The bytes of a literal

`ByteArray.toList` is a loop, which `decide` cannot unfold; these lemmas take a literal's
bytes through its array instead, so that facts about literals reduce to facts about `String`. -/

theorem byteArray_toList_loop (bs : ByteArray) (i : Nat) (r : List UInt8) :
    ByteArray.toList.loop bs i r = r.reverse ++ bs.data.toList.drop i := by
  fun_induction ByteArray.toList.loop bs i r with
  | case1 i r h ih =>
    have hi : i < bs.data.toList.length := by simpa using h
    rw [ih, List.drop_eq_getElem_cons hi]
    simp [ByteArray.get!, getElem!_pos bs.data i (by simpa using h)]
  | case2 i r h =>
    have hi : bs.data.toList.length ≤ i := by
      rw [Array.length_toList]
      exact Nat.le_of_not_lt h
    rw [List.drop_eq_nil_of_le hi, List.append_nil]

theorem str_eq (s : String) : str s = s.toByteArray.data.toList := by
  rw [str, String.toUTF8, ByteArray.toList, byteArray_toList_loop]
  simp

/-- The bytes of a Lean string are valid UTF-8. -/
theorem validUTF8_str (s : String) : ValidUTF8 (str s) := by
  rw [ValidUTF8, str_eq, Array.toArray_toList]
  exact s.isValidUTF8

theorem str_injective : Function.Injective str := by
  intro a b h
  rw [str_eq, str_eq] at h
  exact String.toByteArray_inj.mp (ByteArray.ext (Array.ext' h))

theorem str_empty : str "" = [] := by
  rw [str_eq]
  rfl

theorem str_eq_nil {s : String} : str s = [] ↔ s = "" := by
  rw [← str_empty, str_injective.eq_iff]

theorem validUTF8_nil : ValidUTF8 [] := str_empty ▸ validUTF8_str ""

theorem validUTF8_append {a b : List UInt8} (ha : ValidUTF8 a) (hb : ValidUTF8 b) :
    ValidUTF8 (a ++ b) := by
  have h : ByteArray.mk (a ++ b).toArray = ByteArray.mk a.toArray ++ ByteArray.mk b.toArray := by
    apply ByteArray.ext
    simp
  rw [ValidUTF8, h]
  exact ha.append hb

/-- An ASCII byte is valid UTF-8 on its own. -/
theorem validUTF8_singleton : ∀ b : UInt8, b < 0x80 → ValidUTF8 [b] := by
  decide +kernel

/-- An ASCII string is valid UTF-8. -/
theorem validUTF8_of_ascii {s : List UInt8} (h : ∀ b ∈ s, b < 0x80) : ValidUTF8 s := by
  induction s with
  | nil => exact validUTF8_nil
  | cons b t ih =>
    have hb := validUTF8_singleton b (h b List.mem_cons_self)
    exact validUTF8_append (a := [b]) hb (ih fun c hc => h c (List.mem_cons_of_mem _ hc))

/-- Distinct literals have distinct bytes. -/
theorem nodup_map_str {l : List String} (h : l.Nodup) : (l.map str).Nodup :=
  h.map str_injective

/-- A JSON member value: `null`, a boolean, an integer, a string, or a value nothing here
looks into (an array, an object, a number with a fraction). -/
inductive Value where
  | null
  | bool (b : Bool)
  | number (n : Int)
  | string (s : List UInt8)
  | other
  deriving DecidableEq, Repr

/-- A JSON object: its members in order. -/
abbrev Object := List (List UInt8 × Value)

/-- Every string in the value is valid UTF-8. -/
def Value.ValidUTF8 : Value → Prop
  | .string s => GoJson.ValidUTF8 s
  | _ => True

/-- Every key and every string member of the object is valid UTF-8. -/
def Object.ValidUTF8 (o : Object) : Prop := ∀ m ∈ o, GoJson.ValidUTF8 m.1 ∧ m.2.ValidUTF8

/-! ## Codecs -/

/-- `json.Marshal` of an object, and `json.Unmarshal` of bytes into one (`none` for bytes
that are not a JSON object). -/
structure Codec where
  marshal : Object → List UInt8
  unmarshal : List UInt8 → Option Object

/-- What `encoding/json` documents and the messages rely on. -/
structure Codec.Lawful (J : Codec) : Prop where
  /-- `Unmarshal` reads back what `Marshal` wrote, when every string is valid UTF-8. -/
  unmarshal_marshal : ∀ o : Object, o.ValidUTF8 → J.unmarshal (J.marshal o) = some o
  /-- `Marshal` writes compact JSON and escapes control characters. -/
  newline_not_mem : ∀ o : Object, (10 : UInt8) ∉ J.marshal o
  /-- The empty object is written `{}`. -/
  marshal_nil : J.marshal [] = str "{}"

theorem Object.validUTF8_nil : Object.ValidUTF8 [] := by
  intro m hm
  cases hm

theorem Object.validUTF8_cons {k : List UInt8} {v : Value} {o : Object} :
    Object.ValidUTF8 ((k, v) :: o) ↔ GoJson.ValidUTF8 k ∧ v.ValidUTF8 ∧ o.ValidUTF8 := by
  constructor
  · intro h
    exact ⟨(h _ List.mem_cons_self).1, (h _ List.mem_cons_self).2,
      fun m hm => h m (List.mem_cons_of_mem _ hm)⟩
  · rintro ⟨hk, hv, ho⟩ m hm
    rcases List.mem_cons.mp hm with rfl | hm
    · exact ⟨hk, hv⟩
    · exact ho m hm

/-! ## `Except`, step by step

The decoders are `do` blocks in `Except`; these unfold one bind at a time. -/

@[simp] theorem except_bind_ok {ε α β : Type} (a : α) (f : α → Except ε β) :
    (Except.ok a >>= f) = f a := rfl

@[simp] theorem except_bind_error {ε α β : Type} (e : ε) (f : α → Except ε β) :
    (Except.error e >>= f) = Except.error e := rfl

@[simp] theorem except_map_ok {ε α β : Type} (f : α → β) (a : α) :
    (Except.ok a : Except ε α).map f = .ok (f a) := rfl

/-! ## Decoding struct fields -/

/-- Why `Unmarshal` into a struct failed. -/
inductive DecodeError where
  /-- `*json.SyntaxError`, or a JSON text that is not an object. -/
  | syntaxError
  /-- `*json.UnmarshalTypeError` for the member with this key. -/
  | type (key : List UInt8)
  deriving DecidableEq, Repr

/-- The member named `key`; when the key repeats, the last one. -/
def Object.get? : Object → List UInt8 → Option Value
  | [], _ => none
  | (k, v) :: o, key =>
    match Object.get? o key with
    | some w => some w
    | none => if k = key then some v else none

/-- A `string` field: a missing or `null` member leaves `""`. -/
def Object.stringField (o : Object) (key : List UInt8) : Except DecodeError (List UInt8) :=
  match o.get? key with
  | none => .ok []
  | some .null => .ok []
  | some (.string s) => .ok s
  | some _ => .error (.type key)

/-- A `*string` field: a missing or `null` member leaves `nil`. -/
def Object.stringPtrField (o : Object) (key : List UInt8) :
    Except DecodeError (Option (List UInt8)) :=
  match o.get? key with
  | none => .ok none
  | some .null => .ok none
  | some (.string s) => .ok (some s)
  | some _ => .error (.type key)

/-- An integer field whose type holds `lo ≤ n < hi`: a missing or `null` member leaves `0`,
a number out of range is a type error. -/
def Object.intField (o : Object) (key : List UInt8) (lo hi : Int) : Except DecodeError Int :=
  match o.get? key with
  | none => .ok 0
  | some .null => .ok 0
  | some (.number n) => if lo ≤ n ∧ n < hi then .ok n else .error (.type key)
  | some _ => .error (.type key)

/-- An `int64` field. -/
def Object.int64Field (o : Object) (key : List UInt8) : Except DecodeError Int64 :=
  (o.intField key (-2 ^ 63) (2 ^ 63)).map Int64.ofInt

/-- A `uint64` field. -/
def Object.uint64Field (o : Object) (key : List UInt8) : Except DecodeError UInt64 :=
  (o.intField key 0 (2 ^ 64)).map fun n => UInt64.ofNat n.toNat

/-! ## Reading fields back -/

/-- A key that looks something up is the key of a member. -/
theorem Object.exists_mem_of_get? {o : Object} {key : List UInt8} {v : Value}
    (h : o.get? key = some v) : ∃ m ∈ o, m.1 = key := by
  induction o generalizing v with
  | nil => cases h
  | cons m o ih =>
    obtain ⟨k, w⟩ := m
    simp only [Object.get?] at h
    split at h
    · next w' hw =>
      obtain ⟨m, hm, hmk⟩ := ih hw
      exact ⟨m, List.mem_cons_of_mem _ hm, hmk⟩
    · split_ifs at h with hk
      exact ⟨(k, w), List.mem_cons_self, hk⟩

/-- In an object whose keys are distinct, each member is what its key looks up. -/
theorem Object.get?_of_mem {o : Object} (hd : (o.map Prod.fst).Nodup) {k : List UInt8}
    {v : Value} (hm : (k, v) ∈ o) : o.get? k = some v := by
  induction o with
  | nil => cases hm
  | cons m o ih =>
    obtain ⟨k', v'⟩ := m
    rw [List.map_cons, List.nodup_cons] at hd
    rcases List.mem_cons.mp hm with h | h
    · -- the key is the head's, and no later member has it
      cases h
      have hnone : Object.get? o k = none := by
        cases hg : Object.get? o k with
        | none => rfl
        | some w =>
          exfalso
          apply hd.1
          obtain ⟨m, hm, hmk⟩ := Object.exists_mem_of_get? hg
          exact List.mem_map.mpr ⟨m, hm, hmk⟩
      rw [Object.get?, hnone, if_pos rfl]
    · rw [Object.get?, ih hd.2 h]

end GoJson
