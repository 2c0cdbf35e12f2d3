import Mathlib.Algebra.BigOperators.Ring.Finset
import Mathlib.Algebra.Order.BigOperators.Group.List
import GraphRuntime.Lib.Counting
import GraphRuntime.Stream.Saturation

/-!
# `TimeHistogram`

The class of time_histogram.cc, with its 64-bit counters and the 32-bit bucket
index.  Its operations are undefined for some arguments: `Fault` names what
would happen instead, and an operation that meets one of them stops there.

`bucketOf` is the bucket of a sample by the data model, `slot` the one the code
chooses: the quotient is narrowed to `int` before it is clamped, so a quotient
of 2^31 and more can come back negative or small.  `tally` is the histogram
after a list of samples in closed form, `addSample_tally` the step and
`addSamples_tally` the run; `counts_exact_iff` compares it with the data model.
-/

namespace GraphRuntime.Profiler

open GraphRuntime.Stream Counting

/-- `INT_MAX`. -/
def int32Max : Int := 2147483647

/-- `static_cast<int>` of a 64-bit integer. -/
def wrap32 (x : Int) : Int := (x + 2147483648) % 4294967296 - 2147483648

theorem wrap64_wrap64_add (x y : Int) : wrap64 (wrap64 x + y) = wrap64 (x + y) := by
  unfold wrap64
  omega

/-- What an operation of the histogram must not do. -/
inductive Fault
  | divisionByZero
  | negativeAllocation
  | indexOutOfRange
deriving DecidableEq

/-- A pair of `start_time_usec` and `end_time_usec`. -/
abbrev Sample := Int × Int

/-- `TimeHistogram`. -/
structure TimeHistogram where
  intervalSizeUsec : Int := 0
  numIntervals : Int := 0
  count : Int := 0
  total : Int := 0
  buckets : List Int := []
deriving DecidableEq

/-- The local `duration` of `AddSample`. -/
def machineDuration (sample : Sample) : Int :=
  let duration := wrap64 (sample.2 - sample.1)
  if duration < 0 then 0 else duration

namespace TimeHistogram

/-- `Initialize`.  `assign` takes the number of buckets as a `size_t`. -/
def initializeHistogram (intervalSizeUsec numIntervals : Int) : Except Fault TimeHistogram :=
  if numIntervals < 0 then .error .negativeAllocation
  else
    .ok
      { intervalSizeUsec
        numIntervals
        buckets := List.replicate numIntervals.toNat 0 }

/-- The local `index` of `AddSample`: narrowed, then clamped from above, then
from below. -/
def bucketIndex (h : TimeHistogram) (sample : Sample) : Int :=
  let index := wrap32 ((machineDuration sample).tdiv h.intervalSizeUsec)
  let index := if index ≥ h.numIntervals then h.numIntervals - 1 else index
  if index < 0 then 0 else index

/-- `AddSample`, with the two operations that can go wrong. -/
def addSample (h : TimeHistogram) (sample : Sample) : Except Fault TimeHistogram :=
  if h.intervalSizeUsec = 0 then .error .divisionByZero
  else if (h.bucketIndex sample).toNat < h.buckets.length then
    .ok
      { h with
        count := wrap64 (h.count + 1)
        total := wrap64 (h.total + machineDuration sample)
        buckets := h.buckets.modify (h.bucketIndex sample).toNat fun n => wrap64 (n + 1) }
  else .error .indexOutOfRange

/-- `Reset`. -/
def reset (h : TimeHistogram) : TimeHistogram :=
  { h with count := 0, total := 0, buckets := h.buckets.map fun _ => 0 }

/-- A sequence of calls of `AddSample`. -/
def addSamples (h : TimeHistogram) (samples : List Sample) : Except Fault TimeHistogram :=
  samples.foldlM addSample h

end TimeHistogram

/-! ## The data model -/

/-- The duration of a sample, not negative. -/
def sampleDuration (sample : Sample) : Int := max 0 (sample.2 - sample.1)

/-- The bucket of a sample, the last one for everything beyond. -/
def bucketOf (interval n : Int) (sample : Sample) : Int :=
  min (sampleDuration sample / interval) (n - 1)

/-- What the histogram should say about a list of samples. -/
structure CountsExact (interval n : Int) (samples : List Sample) (h : TimeHistogram) :
    Prop where
  count : h.count = samples.length
  total : h.total = (samples.map sampleDuration).sum
  length : h.buckets.length = n.toNat
  bucket : ∀ i < n.toNat, h.buckets[i]? =
    some ((samples.countP fun s => decide (bucketOf interval n s = i) : Nat) : Int)
  sum : h.buckets.sum = samples.length

/-- The narrowed quotient of the sample stays in the bucket of the exact one. -/
def Placed (interval n : Int) (sample : Sample) : Prop :=
  n = 1 ∨ sampleDuration sample / interval ≤ int32Max ∨
    (n - 1 ≤ sampleDuration sample / interval % 4294967296 ∧
      sampleDuration sample / interval % 4294967296 ≤ int32Max)

/-! ## The histogram in closed form -/

section

variable {interval n : Int} {sample : Sample} {samples : List Sample}

/-- The bucket the code chooses. -/
def slot (interval n : Int) (sample : Sample) : Int :=
  TimeHistogram.bucketIndex { intervalSizeUsec := interval, numIntervals := n } sample

theorem slot_range (hCount : 0 < n) : 0 ≤ slot interval n sample ∧ slot interval n sample < n := by
  unfold slot TimeHistogram.bucketIndex
  dsimp only
  split <;> split <;> omega

/-- The histogram after `samples`. -/
def tally (interval n : Int) (samples : List Sample) : TimeHistogram where
  intervalSizeUsec := interval
  numIntervals := n
  count := wrap64 samples.length
  total := wrap64 (samples.map machineDuration).sum
  buckets := (List.range n.toNat).map fun i : Nat =>
    wrap64 ((samples.countP fun s => decide (slot interval n s = i) : Nat) : Int)

theorem initialize_tally (hCount : 0 < n) :
    TimeHistogram.initializeHistogram interval n = .ok (tally interval n []) := by
  have hZero : wrap64 0 = 0 := by decide
  rw [TimeHistogram.initializeHistogram, if_neg (by omega)]
  simp [tally, hZero, List.map_const']

/-- **Step lemma**: one call counts one more sample. -/
theorem addSample_tally (hInterval : interval ≠ 0) (hCount : 0 < n) :
    (tally interval n samples).addSample sample =
      .ok (tally interval n (samples ++ [sample])) := by
  have hRange : 0 ≤ slot interval n sample ∧ slot interval n sample < n := slot_range hCount
  have hIndex : (tally interval n samples).bucketIndex sample = slot interval n sample := by
    simp only [slot, TimeHistogram.bucketIndex, tally]
  have hLength : (tally interval n samples).buckets.length = n.toNat := by simp [tally]
  have hDivisor : ¬ (tally interval n samples).intervalSizeUsec = 0 := hInterval
  rw [TimeHistogram.addSample, if_neg hDivisor, hIndex, hLength, if_pos (by omega)]
  refine congrArg Except.ok ?_
  simp only [tally, TimeHistogram.mk.injEq, true_and, List.map_append, List.sum_append,
    List.length_append, List.map_cons, List.map_nil, List.sum_cons, List.sum_nil, add_zero,
    List.length_cons, List.length_nil, zero_add, Nat.cast_add, Nat.cast_one,
    wrap64_wrap64_add, List.countP_append]
  refine List.ext_getElem (by simp) fun i hLeft hRight => ?_
  have hLt : i < n.toNat := by simpa using hRight
  rw [List.getElem_modify, List.getElem_map, List.getElem_map, List.getElem_range,
    List.countP_singleton]
  by_cases hHere : slot interval n sample = i
  · rw [if_pos (by omega), if_pos (by simpa using hHere), wrap64_wrap64_add]
    rfl
  · rw [if_neg (by omega), if_neg (by simpa using hHere), Nat.cast_zero, Int.add_zero]

/-- **Run lemma.** -/
theorem addSamples_tally (hInterval : interval ≠ 0) (hCount : 0 < n)
    (done samples : List Sample) :
    (tally interval n done).addSamples samples = .ok (tally interval n (done ++ samples)) := by
  induction samples generalizing done with
  | nil => simp [TimeHistogram.addSamples, pure, Except.pure]
  | cons sample rest ih =>
      have hStep : (tally interval n done).addSample sample =
          .ok (tally interval n (done ++ [sample])) := addSample_tally hInterval hCount
      have hRest := ih (done ++ [sample])
      simp only [TimeHistogram.addSamples] at hRest ⊢
      rw [List.foldlM_cons, hStep]
      simpa [bind, Except.bind] using hRest

/-- `Reset` leaves what `Initialize` did. -/
theorem reset_tally (samples : List Sample) :
    (tally interval n samples).reset = tally interval n [] := by
  have hZero : wrap64 0 = 0 := by decide
  simp [TimeHistogram.reset, tally, hZero, List.map_map, Function.comp_def]

/-! ## Where the counts are exact -/

/-- The samples the counts are about: the difference of each, and all durations
together, fit in 64 bits. -/
structure Measurable (samples : List Sample) : Prop where
  difference : ∀ s ∈ samples, Fits64 (s.2 - s.1)
  total : (samples.map sampleDuration).sum ≤ int64Max

theorem machineDuration_eq (hFits : Fits64 (sample.2 - sample.1)) :
    machineDuration sample = sampleDuration sample := by
  unfold machineDuration sampleDuration
  rw [hFits.wrap64_eq]
  dsimp only
  split <;> omega

theorem machineDuration_le (sample : Sample) : machineDuration sample ≤ int64Max := by
  have hRange := wrap64_range (sample.2 - sample.1)
  unfold machineDuration
  dsimp only
  split
  · decide
  · exact hRange.2

theorem slot_eq (hFits : Fits64 (sample.2 - sample.1)) :
    slot interval n sample =
      max 0 (if wrap32 (sampleDuration sample / interval) ≥ n then n - 1
        else wrap32 (sampleDuration sample / interval)) := by
  have hNonneg : 0 ≤ sampleDuration sample := le_max_left _ _
  unfold slot TimeHistogram.bucketIndex
  dsimp only
  rw [machineDuration_eq hFits, Int.tdiv_eq_ediv_of_nonneg hNonneg]
  split <;> split <;> omega

/-- A placed sample is counted in its own bucket. -/
theorem slot_of_placed (hInterval : 0 < interval) (hCount : 0 < n) (hMax : n ≤ int32Max)
    (hFits : Fits64 (sample.2 - sample.1)) (hPlaced : Placed interval n sample) :
    slot interval n sample = bucketOf interval n sample := by
  have hQuotient : 0 ≤ sampleDuration sample / interval :=
    Int.ediv_nonneg (le_max_left _ _) (le_of_lt hInterval)
  rw [slot_eq hFits]
  unfold Placed at hPlaced
  unfold bucketOf
  generalize sampleDuration sample / interval = q at *
  unfold wrap32 int32Max at *
  omega

/-- Any other belongs to the last bucket and is counted before it. -/
theorem slot_of_not_placed (hCount : 0 < n) (hMax : n ≤ int32Max)
    (hFits : Fits64 (sample.2 - sample.1)) (hNot : ¬ Placed interval n sample) :
    slot interval n sample < n - 1 ∧ bucketOf interval n sample = n - 1 := by
  rw [slot_eq hFits]
  unfold Placed at hNot
  unfold bucketOf
  generalize sampleDuration sample / interval = q at *
  unfold wrap32 int32Max at *
  omega

theorem bucketOf_range (hInterval : 0 < interval) (hCount : 0 < n) :
    0 ≤ bucketOf interval n sample ∧ bucketOf interval n sample < n := by
  have hQuotient : 0 ≤ sampleDuration sample / interval :=
    Int.ediv_nonneg (le_max_left _ _) (le_of_lt hInterval)
  unfold bucketOf
  omega

/-- The buckets of the data model count every sample once. -/
theorem sum_bucketOf (hInterval : 0 < interval) (hCount : 0 < n) (samples : List Sample) :
    ((List.range n.toNat).map fun i : Nat =>
      ((samples.countP fun s => decide (bucketOf interval n s = i) : Nat) : Int)).sum =
      samples.length := by
  have hSum := sum_countP_range (n := n.toNat) (c := fun s => (bucketOf interval n s).toNat)
    (l := samples) fun s _ => by
      have hRange : 0 ≤ bucketOf interval n s ∧ bucketOf interval n s < n :=
        bucketOf_range hInterval hCount
      omega
  rw [← hSum, Nat.cast_list_sum, List.map_map]
  congr 1
  refine List.map_congr_left fun i _ => ?_
  refine congrArg _ (List.countP_congr fun s _ => ?_)
  have hRange : 0 ≤ bucketOf interval n s ∧ bucketOf interval n s < n :=
    bucketOf_range hInterval hCount
  simp only [decide_eq_true_eq]
  omega

theorem wrap64_countP (hLength : (samples.length : Int) ≤ int64Max) (p : Sample → Bool) :
    wrap64 (samples.countP p : Nat) = (samples.countP p : Nat) := by
  have hLe := List.countP_le_length (p := p) (l := samples)
  refine wrap64_of_range ?_ ?_
  · unfold int64Min
    omega
  · omega

theorem tally_total (hMeasurable : Measurable samples) :
    (tally interval n samples).total = (samples.map sampleDuration).sum := by
  have hSame : samples.map machineDuration = samples.map sampleDuration :=
    List.map_congr_left fun s hMem => machineDuration_eq (hMeasurable.difference s hMem)
  have hNonneg : 0 ≤ (samples.map sampleDuration).sum := by
    refine List.sum_nonneg fun d hMem => ?_
    obtain ⟨s, -, rfl⟩ := List.mem_map.mp hMem
    exact le_max_left _ _
  show wrap64 (samples.map machineDuration).sum = _
  rw [hSame]
  refine wrap64_of_range ?_ hMeasurable.total
  unfold int64Min
  omega

/-- The tally is the data model's when every sample is placed. -/
theorem tally_exact (hInterval : 0 < interval) (hCount : 0 < n) (hMax : n ≤ int32Max)
    (hMeasurable : Measurable samples) (hLength : (samples.length : Int) ≤ int64Max)
    (hPlaced : ∀ s ∈ samples, Placed interval n s) :
    CountsExact interval n samples (tally interval n samples) := by
  have hBuckets : (tally interval n samples).buckets = (List.range n.toNat).map fun i : Nat =>
      ((samples.countP fun s => decide (bucketOf interval n s = i) : Nat) : Int) := by
    refine List.map_congr_left fun i _ => ?_
    rw [wrap64_countP hLength]
    refine congrArg _ (List.countP_congr fun s hMem => ?_)
    rw [slot_of_placed hInterval hCount hMax (hMeasurable.difference s hMem) (hPlaced s hMem)]
  refine ⟨wrap64_of_range ?_ hLength, tally_total hMeasurable, by simp [hBuckets], ?_, ?_⟩
  · unfold int64Min
    omega
  · intro i hLt
    simp [hBuckets, hLt]
  · rw [hBuckets, sum_bucketOf hInterval hCount]

/-- The last bucket alone tells whether every sample is placed: no sample is
counted there by mistake. -/
theorem placed_of_exact (hInterval : 0 < interval) (hCount : 0 < n) (hMax : n ≤ int32Max)
    (hMeasurable : Measurable samples)
    (hExact : CountsExact interval n samples (tally interval n samples)) :
    (samples.length : Int) ≤ int64Max ∧ ∀ s ∈ samples, Placed interval n s := by
  have hLength : (samples.length : Int) ≤ int64Max := by
    have hSame : wrap64 samples.length = samples.length := hExact.count
    exact hSame ▸ (wrap64_range _).2
  refine ⟨hLength, ?_⟩
  have hLast := hExact.bucket (n.toNat - 1) (by omega)
  have hIndex : ((n.toNat - 1 : Nat) : Int) = n - 1 := by omega
  simp only [tally, List.getElem?_map, List.getElem?_range (show n.toNat - 1 < n.toNat by omega),
    Option.map_some, Option.some.injEq, wrap64_countP hLength, hIndex] at hLast
  by_contra hNot
  push Not at hNot
  obtain ⟨s, hMem, hNotPlaced⟩ := hNot
  have hAside := slot_of_not_placed hCount hMax (hMeasurable.difference s hMem)
    hNotPlaced
  have hBack := imp_of_countP_le (l := samples)
    (p := fun s => decide (slot interval n s = n - 1))
    (q := fun s => decide (bucketOf interval n s = n - 1))
    (fun s hIn hSlot => ?_) (le_of_eq (by exact_mod_cast hLast.symm)) s hMem
    (by simp [hAside.2])
  · simp only [decide_eq_true_eq] at hBack
    omega
  · simp only [decide_eq_true_eq] at hSlot ⊢
    by_cases hPlaced : Placed interval n s
    · rw [← slot_of_placed hInterval hCount hMax (hMeasurable.difference s hIn) hPlaced]
      exact hSlot
    · exact (slot_of_not_placed hCount hMax (hMeasurable.difference s hIn)
        hPlaced).2

/-- **Where the counts are exact.**  For any interval size and number of
intervals, and samples that fit in 64 bits, the histogram is the data model's
exactly when it has counted fewer than 2^63 samples and the narrowed quotient
of each stays in the bucket of the exact one. -/
theorem counts_exact_iff (interval n : Int) (samples : List Sample) (hInterval : 0 < interval)
    (hCount : 0 < n) (hMax : n ≤ int32Max) (hMeasurable : Measurable samples) :
    ∃ h₀ h, TimeHistogram.initializeHistogram interval n = .ok h₀ ∧
      h₀.addSamples samples = .ok h ∧
      (CountsExact interval n samples h ↔
        (samples.length : Int) ≤ int64Max ∧ ∀ s ∈ samples, Placed interval n s) :=
  ⟨tally interval n [], tally interval n samples, initialize_tally hCount,
    addSamples_tally (ne_of_gt hInterval) hCount [] samples,
    placed_of_exact hInterval hCount hMax hMeasurable,
    fun h => tally_exact hInterval hCount hMax hMeasurable h.1 h.2⟩

/-- Two samples of 3 and 40 microseconds, in buckets of 10 microseconds. -/
theorem counts_exact_small :
    ∃ h₀ h, TimeHistogram.initializeHistogram 10 3 = .ok h₀ ∧
      h₀.addSamples [(5, 8), (0, 40)] = .ok h ∧
      CountsExact 10 3 [(5, 8), (0, 40)] h := by
  have hMeasurable : Measurable [(5, 8), (0, 40)] :=
    ⟨by simp [Fits64, int64Min, int64Max], by decide⟩
  obtain ⟨h₀, h, hInit, hRun, hIff⟩ := counts_exact_iff 10 3 [(5, 8), (0, 40)]
    (by decide) (by decide) (by decide) hMeasurable
  have hPlaced : ∀ s ∈ [((5, 8) : Sample), (0, 40)], Placed 10 3 s := by
    simp [Placed, sampleDuration, int32Max]
  exact ⟨h₀, h, hInit, hRun, hIff.mpr ⟨by decide, hPlaced⟩⟩

/-- **A long call counted as a short one.**  A sample of 2^31 microseconds, in
buckets of one microsecond, is counted in the first bucket. -/
theorem counts_not_exact :
    ∃ h₀ h, TimeHistogram.initializeHistogram 1 3 = .ok h₀ ∧
      h₀.addSamples [(0, 2147483648)] = .ok h ∧ h.buckets = [1, 0, 0] ∧
      ¬ CountsExact 1 3 [(0, 2147483648)] h := by
  refine ⟨_, _, rfl, rfl, by decide, fun hExact => ?_⟩
  have hLast := hExact.bucket 2 (by decide)
  exact absurd hLast (by decide)

end

end GraphRuntime.Profiler
