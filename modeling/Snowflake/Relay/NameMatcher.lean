import Mathlib
import Snowflake.Lib.Json
/-
`common/namematcher/matcher.go`: the relay hostname patterns a proxy accepts and the broker
allows.

A rule is a hostname suffix, with `$` at its end and, for an exact name, `^` at its start.
`NewNameMatcher` trims one trailing `$`, and then one leading `^`, which marks the matcher
exact. A matcher's members are the one name it holds when it is exact, and every string that
ends with its suffix otherwise (`members`). `IsSupersetOf` decides inclusion of members
without looking at any string: an exact matcher contains only an exact matcher of the same
name, and a suffix matcher contains every matcher whose suffix ends with its own
(`isSupersetOf_iff`). Both directions need a witness string: the other matcher's own suffix,
and, against an exact matcher, that suffix with one more byte in front.

Strings are Go's byte strings, `List UInt8`.
-/

set_option autoImplicit false

namespace Snowflake.Relay

open GoJson

/-! ## `strings` -/

/-- `strings.HasPrefix`. -/
def hasPrefix (s pre : List UInt8) : Bool := decide (pre <+: s)

/-- `strings.HasSuffix`. -/
def hasSuffix (s suf : List UInt8) : Bool := decide (suf <:+ s)

/-- `strings.TrimPrefix`: one leading `pre`, if there is one. -/
def trimPrefix (s pre : List UInt8) : List UInt8 :=
  if hasPrefix s pre then s.drop pre.length else s

/-- `strings.TrimSuffix`: one trailing `suf`, if there is one. -/
def trimSuffix (s suf : List UInt8) : List UInt8 :=
  if hasSuffix s suf then s.take (s.length - suf.length) else s

/-! ## `NameMatcher` -/

/-- `namematcher.NameMatcher`. -/
structure NameMatcher where
  exact : Bool
  suffix : List UInt8
  deriving DecidableEq, Repr

/-- `NewNameMatcher`: the `$` goes first, so `^` marks an exact rule only in front of what is
left. -/
def newNameMatcher (rule : List UInt8) : NameMatcher :=
  let rule := trimSuffix rule (str "$")
  { suffix := trimPrefix rule (str "^"), exact := hasPrefix rule (str "^") }

/-- `IsValidRule`. -/
def isValidRule (rule : List UInt8) : Bool := hasSuffix rule (str "$")

/-- `(*NameMatcher).IsSupersetOf`. -/
def NameMatcher.isSupersetOf (m matcher : NameMatcher) : Bool :=
  if m.exact then matcher.exact && m.suffix == matcher.suffix
  else hasSuffix matcher.suffix m.suffix

/-- `(*NameMatcher).IsMember`. -/
def NameMatcher.isMember (m : NameMatcher) (s : List UInt8) : Bool :=
  if m.exact then s == m.suffix else hasSuffix s m.suffix

/-! ## What a matcher denotes -/

/-- The hostnames a matcher accepts. -/
def NameMatcher.members (m : NameMatcher) : Set (List UInt8) := {s | m.isMember s = true}

@[simp] theorem NameMatcher.mem_members {m : NameMatcher} {s : List UInt8} :
    s ∈ m.members ↔ m.isMember s = true := Iff.rfl

theorem NameMatcher.isMember_exact {m : NameMatcher} (h : m.exact = true) (s : List UInt8) :
    m.isMember s = true ↔ s = m.suffix := by
  simp [NameMatcher.isMember, h]

theorem NameMatcher.isMember_suffix {m : NameMatcher} (h : m.exact = false) (s : List UInt8) :
    m.isMember s = true ↔ m.suffix <:+ s := by
  simp [NameMatcher.isMember, h, hasSuffix]

/-- A matcher contains its own suffix. -/
theorem NameMatcher.suffix_mem (m : NameMatcher) : m.suffix ∈ m.members := by
  cases hm : m.exact
  · exact (m.isMember_suffix hm _).mpr (List.suffix_refl _)
  · exact (m.isMember_exact hm _).mpr rfl

/-- A suffix matcher has two members of different lengths, so it is contained in no exact
matcher. -/
theorem NameMatcher.members_not_subset_exact {m m' : NameMatcher} (hm : m.exact = true)
    (hm' : m'.exact = false) : ¬ m'.members ⊆ m.members := by
  intro hsub
  have h₁ : m'.suffix = m.suffix := (m.isMember_exact hm _).mp (hsub m'.suffix_mem)
  have h₂ : 0 :: m'.suffix = m.suffix :=
    (m.isMember_exact hm _).mp (hsub ((m'.isMember_suffix hm' _).mpr (List.suffix_cons _ _)))
  have hlen := congrArg List.length (h₂.trans h₁.symm)
  simp at hlen

/-- **`IsSupersetOf` is inclusion.** For all matchers, `m.IsSupersetOf(m')` holds exactly when
every member of `m'` is a member of `m`. -/
theorem isSupersetOf_iff (m m' : NameMatcher) :
    m.isSupersetOf m' = true ↔ m'.members ⊆ m.members := by
  cases hm : m.exact with
  | true =>
    cases hm' : m'.exact with
    | true =>
      -- two exact matchers: one name each
      simp only [NameMatcher.isSupersetOf, hm, hm', Bool.true_and, ↓reduceIte, beq_iff_eq]
      constructor
      · intro he s hs
        rw [NameMatcher.mem_members, m'.isMember_exact hm'] at hs
        rw [NameMatcher.mem_members, m.isMember_exact hm, hs, he]
      · intro hsub
        exact ((m.isMember_exact hm _).mp (hsub m'.suffix_mem)).symm
    | false =>
      simp only [NameMatcher.isSupersetOf, hm, hm', Bool.false_and, ↓reduceIte,
        Bool.false_eq_true, false_iff]
      exact NameMatcher.members_not_subset_exact hm hm'
  | false =>
    simp only [NameMatcher.isSupersetOf, hm, Bool.false_eq_true, ↓reduceIte, hasSuffix,
      decide_eq_true_eq]
    constructor
    · -- a suffix of `m'`'s suffix is a suffix of every member of `m'`
      intro hs s hsm
      rw [NameMatcher.mem_members, m.isMember_suffix hm]
      cases hm' : m'.exact
      · exact hs.trans ((m'.isMember_suffix hm' s).mp hsm)
      · rw [(m'.isMember_exact hm' s).mp hsm]
        exact hs
    · intro hsub
      exact (m.isMember_suffix hm _).mp (hsub m'.suffix_mem)

end Snowflake.Relay
