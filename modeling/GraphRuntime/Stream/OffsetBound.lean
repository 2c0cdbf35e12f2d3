import GraphRuntime.Stream.OutputStreamHandler
import GraphRuntime.Stream.Saturation

/-!
# The two formulas for an offset bound

An output stream with an offset `d` promises, after an input at `t`, that its
next packet is not before `(t + d).NextAllowedInStream()`.  The bound is
computed twice: by `ComputeOutputTimestampBound` after an invocation, and by
`TryPropagateTimestampBound` when only the input bound has moved, which is then
`t.NextAllowedInStream()`.  `promised` is the promise, `computed` and
`announced` are the manager's bound on the two paths.

The first formula takes `t + d` itself for a positive `d`, one short of the
promise, and ignores a negative `d`; the second takes the successor before it
adds, and says nothing at all when the input bound is past `Max()`.
`offset_bounds_agree_iff` is what is left of the agreement.
-/

namespace GraphRuntime.Stream

namespace Timestamp

theorem nextAllowedInStream_value {t : Timestamp} (hRange : t.isRangeValue = true) :
    t.nextAllowedInStream.value = t.value + 1 := by
  have hMax := (isRangeValue_iff.mp hRange).2
  rw [max_value] at hMax
  unfold nextAllowedInStream
  rw [dif_neg (by omega)]

theorem add_zero_of_range {t : Timestamp} {d : TimestampDiff} (hRange : t.isRangeValue = true)
    (hZero : d.value = 0) : t.add d = t := by
  have hBounds := isRangeValue_iff.mp hRange
  rw [min_value, max_value] at hBounds
  refine Timestamp.ext ?_
  rw [add_value_of_fits (by rw [hZero]; exact ⟨by omega, by omega⟩)]
  omega

theorem add_ne_of_neg {t : Timestamp} {d : TimestampDiff} (hRange : t.isRangeValue = true)
    (hNeg : d.value < 0) : t.add d ≠ t := by
  have hBounds := isRangeValue_iff.mp hRange
  rw [min_value, max_value] at hBounds
  have hDiff := d.range
  rw [Ne, Timestamp.ext_iff]
  show ¬ Min.min (wrap64 (t.value + d.value)) (int64Max - 3) = t.value
  unfold wrap64 int64Min int64Max at *
  omega

theorem nextAllowedInStream_le_iff {t b : Timestamp} (hRange : t.isRangeValue = true) :
    t.nextAllowedInStream ≤ b ↔ t < b := by
  rw [le_iff, lt_iff, nextAllowedInStream_value hRange]
  omega

theorem nextAllowedInStream_ne {t : Timestamp} (hRange : t.isRangeValue = true) :
    t ≠ t.nextAllowedInStream := by
  rw [Ne, Timestamp.ext_iff, nextAllowedInStream_value hRange]
  omega

/-- The successor of a range value is one as well, except for that of `Max()`. -/
theorem isRangeValue_next {t : Timestamp} (hRange : t.isRangeValue = true) :
    t.nextAllowedInStream.isRangeValue = true ↔ t ≠ max := by
  have hBounds := isRangeValue_iff.mp hRange
  rw [isRangeValue_iff, nextAllowedInStream_value hRange, Ne, Timestamp.ext_iff]
  omega

/-- Adding to the successor gives at most the successor of the sum. -/
theorem next_add_le {t : Timestamp} {d : TimestampDiff} (hRange : t.isRangeValue = true)
    (hSum : (t.add d).isRangeValue = true) :
    t.nextAllowedInStream.add d ≤ (t.add d).nextAllowedInStream := by
  rw [le_iff, nextAllowedInStream_value hSum]
  show Min.min (wrap64 (t.nextAllowedInStream.value + d.value)) (int64Max - 3) ≤
    Min.min (wrap64 (t.value + d.value)) (int64Max - 3) + 1
  rw [nextAllowedInStream_value hRange]
  unfold wrap64 int64Max
  omega

end Timestamp

namespace OutputStreamManager

variable {m : OutputStreamManager} {t : Timestamp}

/-- The bound the offset promises after an input at `t`. -/
def promised (m : OutputStreamManager) (t : Timestamp) : Timestamp :=
  max m.nextTimestampBound (t.add m.spec.offset).nextAllowedInStream

/-- The bound of the first path, for a shard nothing was written to. -/
def computed (m : OutputStreamManager) (t : Timestamp) : Timestamp :=
  m.computeOutputTimestampBound
    (OutputStreamShard.reset m.nextTimestampBound m.closed) t

theorem computed_eq (hOffset : m.spec.offsetEnabled = true) :
    m.computed t = max m.nextTimestampBound
      (if m.spec.offset.value > 0 then t.add m.spec.offset else t.nextAllowedInStream) := by
  have hUnset : ¬ Timestamp.unset > max m.nextTimestampBound
      (if m.spec.offset.value > 0 then t.add m.spec.offset
        else t.nextAllowedInStream) := not_lt.mpr (Timestamp.unset_le _)
  have hMax : ∀ a b : Timestamp, (if a > b then a else b) = max b a := by
    intro a b
    rw [max_def_lt]
  simp only [computed, computeOutputTimestampBound, hOffset, if_true,
    OutputStreamShard.reset, OutputStreamShard.isEmpty, List.isEmpty_nil, Bool.not_true,
    Bool.false_eq_true, if_false, hMax]
  exact max_eq_left (Timestamp.unset_le _)

/-- The bound `TryPropagateTimestampBound` sends, when it sends one. -/
def announces (m : OutputStreamManager) (inputBound : Timestamp) : Bool :=
  inputBound.isRangeValue && m.spec.offsetEnabled && !m.closed &&
    decide (inputBound.add m.spec.offset > m.nextTimestampBound)

end OutputStreamManager

namespace Net

variable {routes : Routes}

/-- The manager's bound after `TryPropagateTimestampBound` on its handler. -/
def announced (routes : Routes) (managers : List OutId) (net : Net) (o : OutId)
    (inputBound : Timestamp) : Timestamp :=
  ((tryPropagateTimestampBound routes inputBound managers net).outputs o).nextTimestampBound

/-- One manager's turn of `TryPropagateTimestampBound`. -/
theorem tryPropagate_cons (b : Timestamp) (o : OutId) (rest : List OutId) (net : Net) :
    tryPropagateTimestampBound routes b (o :: rest) net =
      tryPropagateTimestampBound routes b rest
        (if (net.outputs o).announces b then
          net.propagate routes o (b.add (net.outputs o).spec.offset) {} else net) := rfl

theorem propagate_outputs_of_ne {net : Net} {o o' : OutId} {b : Timestamp}
    {shard : OutputStreamShard} (hNe : o ≠ o') :
    (net.propagate routes o' b shard).outputs o = net.outputs o :=
  Function.update_of_ne hNe _ _

/-- A second turn of the same manager has nothing to add. -/
theorem not_announces_propagate {net : Net} {o : OutId} {b : Timestamp}
    (hAnnounces : (net.outputs o).announces b = true) :
    ((net.propagate routes o (b.add (net.outputs o).spec.offset) {}).outputs o).announces b =
        false ∧
      ((net.propagate routes o (b.add (net.outputs o).spec.offset) {}).outputs
        o).nextTimestampBound = b.add (net.outputs o).spec.offset := by
  simp only [OutputStreamManager.announces, Bool.and_eq_true, decide_eq_true_eq] at hAnnounces
  have hSet : b.add (net.outputs o).spec.offset ≠ Timestamp.unset := fun hEq =>
    absurd (hEq ▸ hAnnounces.2) (not_lt.mpr (Timestamp.unset_le _))
  have hOutput : (net.propagate routes o (b.add (net.outputs o).spec.offset) {}).outputs o =
      { net.outputs o with
        nextTimestampBound := b.add (net.outputs o).spec.offset
        numPacketsAdded := (net.outputs o).numPacketsAdded + 0 } := by
    simp [propagate, OutputStreamManager.beginPropagate, hSet]
  rw [hOutput]
  simp [OutputStreamManager.announces]

/-- A manager that has nothing to announce keeps its bound. -/
theorem announced_of_not {managers : List OutId} {net : Net} {o : OutId} {b : Timestamp}
    (hNot : (net.outputs o).announces b = false) :
    announced routes managers net o b = (net.outputs o).nextTimestampBound := by
  induction managers generalizing net with
  | nil => rfl
  | cons o' rest ih =>
      rw [announced, tryPropagate_cons]
      by_cases hTurn : (net.outputs o').announces b = true
      · have hNe : o ≠ o' := by
          rintro rfl
          exact Bool.false_ne_true (hNot.symm.trans hTurn)
        rw [if_pos hTurn]
        have hSame : (net.propagate routes o' (b.add (net.outputs o').spec.offset) {}).outputs o =
            net.outputs o := propagate_outputs_of_ne hNe
        exact (ih (by rw [hSame]; exact hNot)).trans (by rw [hSame])
      · rw [if_neg hTurn]
        exact ih hNot

/-- **What is announced**: the manager's own formula, whatever the other
managers of the handler do. -/
theorem announced_eq {managers : List OutId} {net : Net} {o : OutId} {b : Timestamp}
    (hMem : o ∈ managers) :
    announced routes managers net o b =
      if (net.outputs o).announces b then b.add (net.outputs o).spec.offset
      else (net.outputs o).nextTimestampBound := by
  split
  · rename_i hAnnounces
    induction managers generalizing net with
    | nil => exact absurd hMem (by simp)
    | cons o' rest ih =>
        rw [announced, tryPropagate_cons]
        by_cases hEq : o' = o
        · subst hEq
          rw [if_pos hAnnounces]
          exact (announced_of_not (not_announces_propagate hAnnounces).1).trans
            (not_announces_propagate hAnnounces).2
        · have hRest : o ∈ rest := (List.mem_cons.mp hMem).resolve_left (Ne.symm hEq)
          have hSame : (if (net.outputs o').announces b then
              net.propagate routes o' (b.add (net.outputs o').spec.offset) {}
              else net).outputs o = net.outputs o := by
            split
            · exact propagate_outputs_of_ne (Ne.symm hEq)
            · rfl
          have hStill : ((if (net.outputs o').announces b then
              net.propagate routes o' (b.add (net.outputs o').spec.offset) {}
              else net).outputs o).announces b = true := by
            rw [hSame]
            exact hAnnounces
          have hNext := ih hRest hStill
          rw [hSame] at hNext
          exact hNext
  · rename_i hNot
    exact announced_of_not (by simpa using hNot)

/-- A bound past the promise makes every formula the current bound. -/
theorem announced_of_lt {managers : List OutId} {net : Net} {o : OutId} {t : Timestamp}
    (hRange : t.isRangeValue = true)
    (hSum : (t.add (net.outputs o).spec.offset).isRangeValue = true)
    (hPast : t.add (net.outputs o).spec.offset < (net.outputs o).nextTimestampBound) :
    announced routes managers net o t.nextAllowedInStream =
      (net.outputs o).nextTimestampBound := by
  have hNext : (t.add (net.outputs o).spec.offset).nextAllowedInStream ≤
      (net.outputs o).nextTimestampBound := by
    rw [Timestamp.le_iff, Timestamp.nextAllowedInStream_value hSum]
    exact hPast
  refine announced_of_not ?_
  have hLe := le_trans (Timestamp.next_add_le hRange hSum) hNext
  simp [OutputStreamManager.announces, not_lt.mpr hLe]

/-- Two maxima with one bound agree, where the arguments differ, only at the
bound. -/
theorem le_of_max_eq_max {a x y : Timestamp} (hEq : max a x = max a y) (hNe : x ≠ y) :
    x ≤ a ∧ y ≤ a := by
  rcases le_total x a with hx | hx
  · rw [max_eq_left hx] at hEq
    exact ⟨hx, hEq ▸ le_max_right a y⟩
  · rw [max_eq_right hx] at hEq
    rcases le_total y a with hy | hy
    · rw [max_eq_left hy] at hEq
      exact ⟨le_of_eq hEq, hy⟩
    · rw [max_eq_right hy] at hEq
      exact absurd hEq hNe

/-- Without an offset both formulas take the successor of the input, and the
second only where that is a range value. -/
theorem computed_eq_announced_iff {managers : List OutId} {net : Net} {o : OutId}
    {t : Timestamp} (hMem : o ∈ managers)
    (hOffset : (net.outputs o).spec.offsetEnabled = true) (hRange : t.isRangeValue = true)
    (hZero : (net.outputs o).spec.offset.value = 0) :
    max (net.outputs o).nextTimestampBound t.nextAllowedInStream =
        announced routes managers net o t.nextAllowedInStream ↔
      (t ≠ Timestamp.max ∧ (net.outputs o).closed = false) ∨
        t < (net.outputs o).nextTimestampBound := by
  rw [announced_eq hMem, ← Timestamp.nextAllowedInStream_le_iff hRange]
  by_cases hSends : t ≠ Timestamp.max ∧ (net.outputs o).closed = false
  · have hNext := (Timestamp.isRangeValue_next hRange).mpr hSends.1
    have hSame := Timestamp.add_zero_of_range hNext hZero
    refine iff_of_true ?_ (Or.inl hSends)
    simp only [OutputStreamManager.announces, hNext, hOffset, hSends.2, hSame, Bool.and_self,
      Bool.not_false, Bool.true_and, decide_eq_true_eq, gt_iff_lt]
    exact max_def_lt _ _
  · have hNot : (net.outputs o).announces t.nextAllowedInStream = false := by
      simp only [OutputStreamManager.announces]
      by_cases hLast : t = Timestamp.max
      · have hNext : ¬ t.nextAllowedInStream.isRangeValue = true := fun h =>
          (Timestamp.isRangeValue_next hRange).mp h hLast
        simp [hNext]
      · have hClosed : (net.outputs o).closed = true := by
          simpa using fun h => hSends ⟨hLast, h⟩
        simp [hClosed]
    simp [hNot, hSends]

/-- **When the two formulas keep the promise.**  For a stream with an offset
they do without an offset to add, short of `Max()` and while the stream is
open, or when the current bound is past the promise already. -/
theorem offset_bounds_agree_iff (routes : Routes) (managers : List OutId) (net : Net)
    (o : OutId) (t : Timestamp) (hMem : o ∈ managers)
    (hOffset : (net.outputs o).spec.offsetEnabled = true)
    (hRange : t.isRangeValue = true)
    (hSum : (t.add (net.outputs o).spec.offset).isRangeValue = true) :
    ((net.outputs o).computed t = (net.outputs o).promised t ∧
      (net.outputs o).computed t =
        announced routes managers net o t.nextAllowedInStream) ↔
    ((net.outputs o).spec.offset.value = 0 ∧ t ≠ Timestamp.max ∧
        (net.outputs o).closed = false) ∨
      (t.add (net.outputs o).spec.offset < (net.outputs o).nextTimestampBound ∧
        (0 < (net.outputs o).spec.offset.value ∨ t < (net.outputs o).nextTimestampBound)) := by
  rw [OutputStreamManager.computed_eq hOffset, OutputStreamManager.promised]
  rcases lt_trichotomy (net.outputs o).spec.offset.value 0 with hNeg | hZero | hPos
  · rw [if_neg (not_lt.mpr (le_of_lt hNeg))]
    constructor
    · rintro ⟨hPromised, -⟩
      have hNe : t.nextAllowedInStream ≠
          (t.add (net.outputs o).spec.offset).nextAllowedInStream := by
        rw [Ne, Timestamp.ext_iff, Timestamp.nextAllowedInStream_value hRange,
          Timestamp.nextAllowedInStream_value hSum]
        have hOther := Timestamp.add_ne_of_neg hRange hNeg
        rw [Ne, Timestamp.ext_iff] at hOther
        omega
      have hPast := le_of_max_eq_max hPromised hNe
      rw [Timestamp.nextAllowedInStream_le_iff hRange,
        Timestamp.nextAllowedInStream_le_iff hSum] at hPast
      exact Or.inr ⟨hPast.2, Or.inr hPast.1⟩
    · rintro (⟨hZero, -⟩ | ⟨hPast, hPos | hBefore⟩)
      · omega
      · omega
      · rw [announced_of_lt hRange hSum hPast,
          max_eq_left ((Timestamp.nextAllowedInStream_le_iff hRange).mpr hBefore),
          max_eq_left ((Timestamp.nextAllowedInStream_le_iff hSum).mpr hPast)]
        exact ⟨rfl, rfl⟩
  · rw [if_neg (by omega), Timestamp.add_zero_of_range hRange hZero,
      computed_eq_announced_iff hMem hOffset hRange hZero]
    simp only [true_and, hZero, lt_irrefl, false_or, and_self]
  · rw [if_pos hPos]
    constructor
    · rintro ⟨hPromised, -⟩
      have hPast := (le_of_max_eq_max hPromised (Timestamp.nextAllowedInStream_ne hSum)).2
      exact Or.inr ⟨(Timestamp.nextAllowedInStream_le_iff hSum).mp hPast, Or.inl hPos⟩
    · rintro (⟨hZero, -⟩ | ⟨hPast, -⟩)
      · omega
      · rw [announced_of_lt hRange hSum hPast, max_eq_left (le_of_lt hPast),
          max_eq_left ((Timestamp.nextAllowedInStream_le_iff hSum).mpr hPast)]
        exact ⟨rfl, rfl⟩

/-- A stream with offset `d` and current bound `b`, and no consumers. -/
private def offsetStream (b d : Int) : Net where
  outputs := fun _ =>
    { spec := { name := "out", offsetEnabled := true, offset := ⟨wrap64 d, wrap64_range d⟩ }
      nextTimestampBound := Timestamp.ofValue b }
  streams := fun _ => {}

/-- Without an offset the two paths agree, here at 5 with the bound at 3. -/
theorem offset_bounds_agree_zero :
    ((offsetStream 3 0).outputs 0).computed (Timestamp.ofValue 5) =
        ((offsetStream 3 0).outputs 0).promised (Timestamp.ofValue 5) ∧
      ((offsetStream 3 0).outputs 0).computed (Timestamp.ofValue 5) =
        announced (fun _ => []) [0] (offsetStream 3 0) 0
          (Timestamp.ofValue 5).nextAllowedInStream :=
  (offset_bounds_agree_iff (fun _ => []) [0] (offsetStream 3 0) 0 (Timestamp.ofValue 5)
    (by decide) (by decide) (by decide) (by decide)).mpr (by decide)

/-- With the offset 2 the first path stops at 7 and the second goes to 8; with
the offset `-2` the first goes to 6, past the promised 4. -/
theorem offset_bounds_disagree :
    ((offsetStream 3 2).outputs 0).computed (Timestamp.ofValue 5) = Timestamp.ofValue 7 ∧
      ((offsetStream 3 2).outputs 0).promised (Timestamp.ofValue 5) = Timestamp.ofValue 8 ∧
      announced (fun _ => []) [0] (offsetStream 3 2) 0
        (Timestamp.ofValue 5).nextAllowedInStream = Timestamp.ofValue 8 ∧
      ((offsetStream 3 (-2)).outputs 0).computed (Timestamp.ofValue 5) =
        Timestamp.ofValue 6 ∧
      ((offsetStream 3 (-2)).outputs 0).promised (Timestamp.ofValue 5) =
        Timestamp.ofValue 4 := by
  decide

end Net

end GraphRuntime.Stream
