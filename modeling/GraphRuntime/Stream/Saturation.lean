import GraphRuntime.Stream.Timestamp

/-!
# Where timestamp arithmetic saturates

`operator+` and `operator-` (timestamp.cc) compute in 64 bits and clamp the
machine result afterwards, the sum at `Max()` only and the difference at
`Min()` only.  `clamp` is what both are for: the range value closest to the
exact result.  `saturates_iff` says for which operands the code computes it.
The two sides that are not clamped are the same slip twice: a sum below
`Min()` comes out as one of the special values, and a result that leaves
64 bits is wrapped before the clamp can see it.
-/

namespace GraphRuntime.Stream

/-- The exact result of a 64-bit operation that does not overflow. -/
def Fits64 (x : Int) : Prop := int64Min ≤ x ∧ x ≤ int64Max

theorem Fits64.wrap64_eq {x : Int} (h : Fits64 x) : wrap64 x = x :=
  wrap64_of_range h.1 h.2

namespace Timestamp

/-- `operator-(Timestamp, TimestampDiff)`: the 64-bit difference, cut at
`Min()`. -/
def sub (t : Timestamp) (d : TimestampDiff) : Timestamp :=
  ⟨Max.max (wrap64 (t.value - d.value)) (int64Min + 3), by
    have h := wrap64_range (t.value - d.value)
    unfold int64Min int64Max at *
    omega⟩

theorem min_value : min.value = int64Min + 3 := rfl

theorem max_value : max.value = int64Max - 3 := rfl

/-- The range value closest to an exact result. -/
def clamp (x : Int) : Int := Max.max (int64Min + 3) (Min.min x (int64Max - 3))

theorem isRangeValue_iff {t : Timestamp} :
    t.isRangeValue = true ↔ min.value ≤ t.value ∧ t.value ≤ max.value := by
  simp [isRangeValue, min, max]

theorem isRangeValue_of_value_eq_clamp {t : Timestamp} {x : Int}
    (h : t.value = clamp x) : t.isRangeValue = true := by
  rw [isRangeValue_iff, h, min_value, max_value]
  unfold clamp int64Min int64Max
  omega

/-- `result` is the saturated form of the exact result `x`, and the machine
operation behind it did not overflow. -/
structure Saturated (x : Int) (result : Timestamp) : Prop where
  fits : Fits64 x
  value : result.value = clamp x
  isRangeValue : result.isRangeValue = true

/-- What adding `d` to `t` should do. -/
structure AddSaturates (t : Timestamp) (d : TimestampDiff) : Prop where
  sum : Saturated (t.value + d.value) (t.add d)
  le_add : 0 ≤ d.value → t ≤ t.add d

theorem add_value_of_fits {t : Timestamp} {d : TimestampDiff}
    (h : Fits64 (t.value + d.value)) :
    (t.add d).value = Min.min (t.value + d.value) (int64Max - 3) := by
  show Min.min (wrap64 (t.value + d.value)) (int64Max - 3) = _
  rw [h.wrap64_eq]

theorem sub_value_of_fits {t : Timestamp} {d : TimestampDiff}
    (h : Fits64 (t.value - d.value)) :
    (t.sub d).value = Max.max (t.value - d.value) (int64Min + 3) := by
  show Max.max (wrap64 (t.value - d.value)) (int64Min + 3) = _
  rw [h.wrap64_eq]

theorem addSaturates_iff {t : Timestamp} {d : TimestampDiff}
    (hRange : t.isRangeValue = true) :
    AddSaturates t d ↔
      min.value ≤ t.value + d.value ∧ t.value + d.value ≤ int64Max := by
  constructor
  · rintro ⟨⟨hFits, hValue, -⟩, -⟩
    have hSum := add_value_of_fits hFits
    refine ⟨?_, hFits.2⟩
    -- the sum is not clamped from below, so it has to be in range by itself
    rw [hSum] at hValue
    rw [min_value]
    unfold clamp int64Min int64Max at *
    omega
  · rintro ⟨hLo, hHi⟩
    rw [min_value] at hLo
    have hFits : Fits64 (t.value + d.value) := ⟨by omega, hHi⟩
    have hValue : (t.add d).value = clamp (t.value + d.value) := by
      rw [add_value_of_fits hFits]
      unfold clamp int64Min int64Max at *
      omega
    refine ⟨⟨hFits, hValue, isRangeValue_of_value_eq_clamp hValue⟩, ?_⟩
    intro hNonneg
    have hMax := (isRangeValue_iff.mp hRange).2
    rw [max_value] at hMax
    rw [le_iff, hValue]
    unfold clamp
    omega

theorem subSaturates_iff {t : Timestamp} {d : TimestampDiff} :
    Saturated (t.value - d.value) (t.sub d) ↔
      int64Min ≤ t.value - d.value ∧ t.value - d.value ≤ max.value := by
  constructor
  · rintro ⟨hFits, hValue, -⟩
    refine ⟨hFits.1, ?_⟩
    rw [sub_value_of_fits hFits] at hValue
    rw [max_value]
    unfold clamp int64Min int64Max at *
    omega
  · rintro ⟨hLo, hHi⟩
    rw [max_value] at hHi
    have hFits : Fits64 (t.value - d.value) := ⟨hLo, by omega⟩
    have hValue : (t.sub d).value = clamp (t.value - d.value) := by
      rw [sub_value_of_fits hFits]
      unfold clamp int64Min int64Max at *
      omega
    exact ⟨hFits, hValue, isRangeValue_of_value_eq_clamp hValue⟩

/-- **Where the arithmetic saturates.**  On a range value the sum is right
exactly when it stays above `Min()` and inside 64 bits, the difference exactly
when it stays below `Max()` and inside 64 bits. -/
theorem saturates_iff (t : Timestamp) (d : TimestampDiff)
    (hRange : t.isRangeValue = true) :
    AddSaturates t d ∧ Saturated (t.value - d.value) (t.sub d) ↔
      (min.value ≤ t.value + d.value ∧ t.value + d.value ≤ int64Max) ∧
        int64Min ≤ t.value - d.value ∧ t.value - d.value ≤ max.value :=
  and_congr (addSaturates_iff hRange) subSaturates_iff

/-- The condition is met by every small offset: here 5 and `-7`. -/
theorem saturates_small :
    AddSaturates ⟨5, by decide⟩ ⟨-7, by decide⟩ ∧
      Saturated (5 - -7) (sub ⟨5, by decide⟩ ⟨-7, by decide⟩) :=
  (saturates_iff ⟨5, by decide⟩ ⟨-7, by decide⟩ (by decide)).mpr (by decide)

/-- One step below `Min()` is `PreStream`, and one above `Max()`, reached by
subtracting, is `PostStream`. -/
theorem not_saturates :
    ¬ AddSaturates min ⟨-1, by decide⟩ ∧
      ¬ Saturated (max.value - -1) (max.sub ⟨-1, by decide⟩) :=
  ⟨fun h => absurd h.sum.isRangeValue (by decide),
    fun h => absurd h.isRangeValue (by decide)⟩

end Timestamp

end GraphRuntime.Stream
