import Mathlib.Algebra.Order.Ring.Int
import Mathlib.Order.Basic

/-!
# Stream timestamps

`Timestamp` (timestamp.h) wraps an `int64_t` whose three lowest and three
highest values are names rather than times: `Unset`, `Unstarted`,
`PreStream` at the bottom and `PostStream`, `OneOverPostStream`, `Done` at
the top.  The field `range` keeps every value of the type inside 64 bits, so
no later definition has to restate it.

The comparison operators of the source compare the wrapped integers, which is
the `LinearOrder` instance below.  The one arithmetic operation, adding a
`TimestampDiff`, is a 64-bit addition followed by a saturation at
`Timestamp::Max()`; the addition itself is kept in two's complement by
`wrap64`.
-/

namespace GraphRuntime.Stream

/-- `INT64_MIN`. -/
def int64Min : Int := -9223372036854775808

/-- `INT64_MAX`. -/
def int64Max : Int := 9223372036854775807

/-- Two's complement reduction of an exact result to 64 bits. -/
def wrap64 (x : Int) : Int :=
  (x + 9223372036854775808) % 18446744073709551616 - 9223372036854775808

theorem wrap64_range (x : Int) : int64Min ≤ wrap64 x ∧ wrap64 x ≤ int64Max := by
  unfold wrap64 int64Min int64Max
  omega

/-- Results that already fit are left alone. -/
theorem wrap64_of_range {x : Int} (hLo : int64Min ≤ x) (hHi : x ≤ int64Max) :
    wrap64 x = x := by
  unfold wrap64 int64Min int64Max at *
  omega

@[ext]
structure Timestamp where
  value : Int
  range : int64Min ≤ value ∧ value ≤ int64Max
deriving DecidableEq

theorem Timestamp.value_injective : Function.Injective Timestamp.value :=
  fun _ _ h => Timestamp.ext h

/-- `operator<` and its relatives compare the wrapped integers. -/
instance : LinearOrder Timestamp :=
  LinearOrder.lift' Timestamp.value Timestamp.value_injective

theorem Timestamp.le_iff {a b : Timestamp} : a ≤ b ↔ a.value ≤ b.value :=
  Iff.rfl

theorem Timestamp.lt_iff {a b : Timestamp} : a < b ↔ a.value < b.value :=
  Iff.rfl

@[ext]
structure TimestampDiff where
  value : Int
  range : int64Min ≤ value ∧ value ≤ int64Max
deriving DecidableEq

theorem zero_in_range : int64Min ≤ 0 ∧ 0 ≤ int64Max := by decide

namespace Timestamp

/-- The constructor from an `int64_t`. -/
def ofValue (value : Int) : Timestamp := ⟨wrap64 value, wrap64_range value⟩

def unset : Timestamp := ⟨int64Min, by decide⟩
def unstarted : Timestamp := ⟨int64Min + 1, by decide⟩
def preStream : Timestamp := ⟨int64Min + 2, by decide⟩
def min : Timestamp := ⟨int64Min + 3, by decide⟩
def max : Timestamp := ⟨int64Max - 3, by decide⟩
def postStream : Timestamp := ⟨int64Max - 2, by decide⟩
def oneOverPostStream : Timestamp := ⟨int64Max - 1, by decide⟩
def done : Timestamp := ⟨int64Max, by decide⟩

/-- Note that `Min()` and `Max()` count as special values here. -/
def isSpecialValue (t : Timestamp) : Bool :=
  decide (t.value ≤ int64Min + 3) || decide (t.value ≥ int64Max - 3)

def isRangeValue (t : Timestamp) : Bool :=
  decide (t.value ≥ int64Min + 3) && decide (t.value ≤ int64Max - 3)

def isAllowedInStream (t : Timestamp) : Bool :=
  decide (t.value ≥ int64Min + 2) && decide (t.value ≤ int64Max - 2)

/-- From `PostStream` on the successor saturates at `OneOverPostStream`, so
no packet timestamp is ever followed by `Done`. -/
def nextAllowedInStream (t : Timestamp) : Timestamp :=
  if h : t.value ≥ int64Max - 2 then oneOverPostStream
  else ⟨t.value + 1, by have := t.range; unfold int64Min int64Max at *; omega⟩

/-- From `PreStream` down the predecessor saturates at `Unstarted`. -/
def previousAllowedInStream (t : Timestamp) : Timestamp :=
  if h : t.value ≤ int64Min + 2 then unstarted
  else ⟨t.value - 1, by have := t.range; unfold int64Min int64Max at *; omega⟩

/-- `operator+(Timestamp, TimestampDiff)`: the 64-bit sum, cut at `Max()`. -/
def add (t : Timestamp) (d : TimestampDiff) : Timestamp :=
  ⟨Min.min (wrap64 (t.value + d.value)) (int64Max - 3), by
    have h := wrap64_range (t.value + d.value)
    unfold int64Min int64Max at *
    omega⟩

theorem unset_le (t : Timestamp) : unset ≤ t := t.range.1

theorem le_done (t : Timestamp) : t ≤ done := t.range.2

theorem unset_lt_preStream : unset < preStream := by decide

/-- The successor of a timestamp is never `Done`: closing a stream is a
separate signal from its last packet. -/
theorem nextAllowedInStream_lt_done (t : Timestamp) :
    t.nextAllowedInStream < done := by
  rw [lt_iff]
  unfold nextAllowedInStream
  split
  · decide
  · rename_i h
    change t.value + 1 < int64Max
    unfold int64Max at *
    omega

/-- A timestamp that may enter a stream is below every timestamp that may not and
comes after it. -/
theorem lt_oneOverPostStream_of_isAllowedInStream {t : Timestamp}
    (h : t.isAllowedInStream = true) : t < oneOverPostStream := by
  simp only [isAllowedInStream, Bool.and_eq_true, decide_eq_true_eq] at h
  rw [lt_iff]
  show t.value < int64Max - 1
  omega

theorem oneOverPostStream_lt_done : oneOverPostStream < done := by decide

/-- The successor of a timestamp that may enter a stream is past the bound of
a fresh stream. -/
theorem preStream_lt_nextAllowedInStream {t : Timestamp}
    (h : t.isAllowedInStream = true) : preStream < t.nextAllowedInStream := by
  simp only [isAllowedInStream, Bool.and_eq_true, decide_eq_true_eq] at h
  rw [lt_iff]
  unfold nextAllowedInStream
  split
  · decide
  · change int64Min + 2 < t.value + 1
    omega

end Timestamp

end GraphRuntime.Stream
