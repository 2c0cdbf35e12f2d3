import GraphRuntime.Stream.InputStreamManager

/-!
# Readiness of a synchronized set of streams

`SyncSet::GetReadiness` runs over the managers of a node with two minima, one over the
heads of the streams that hold packets and one over the bounds of those that do not.
A timestamp is settled when it is the least head and no empty stream can still receive
a packet at or below it (`getReadiness_iff`).  What producers may do to a stream
afterwards leaves that so (`getReadiness_settled`).
-/

namespace GraphRuntime.Stream

inductive Readiness
  | notReady
  | readyForProcess
  | readyForClose
deriving DecidableEq

/-- Locals of `GetReadiness`. -/
structure Minima where
  minBound : Timestamp := Timestamp.done
  minPacket : Timestamp := Timestamp.done
  anyBoundEmpty : Bool := false

namespace SyncSet

/-- One iteration of the loop over the managers. -/
def observe (s : Minima) (m : InputStreamManager) : Minima :=
  let (ts, empty) := m.minTimestampOrBound
  if empty then { s with minBound := min s.minBound ts, anyBoundEmpty := true }
  else { s with minPacket := min s.minPacket ts }

def minima (managers : List InputStreamManager) : Minima :=
  managers.foldl observe {}

/-- `GetReadiness`: the readiness and `*min_stream_timestamp`. -/
def getReadiness (managers : List InputStreamManager) : Readiness × Timestamp :=
  let s := minima managers
  let minStreamTimestamp := min s.minPacket s.minBound
  if minStreamTimestamp ≥ Timestamp.oneOverPostStream then
    (.readyForClose, minStreamTimestamp)
  else if !s.anyBoundEmpty then (.readyForProcess, minStreamTimestamp)
  else if s.minBound > s.minPacket then (.readyForProcess, minStreamTimestamp)
  else (.notReady, minStreamTimestamp)

variable {ms : List InputStreamManager} {m : InputStreamManager} {s : Minima} {t : Timestamp}

/-! ## The two minima -/

theorem observe_of_empty (hEmpty : m.queue = []) :
    observe s m =
      { s with minBound := min s.minBound m.nextTimestampBound, anyBoundEmpty := true } := by
  simp [observe, InputStreamManager.minTimestampOrBound, hEmpty]

theorem observe_of_head {p : Packet} (hHead : m.queue.head? = some p) :
    observe s m = { s with minPacket := min s.minPacket p.timestamp } := by
  obtain ⟨rest, hQueue⟩ := List.head?_eq_some_iff.mp hHead
  simp [observe, InputStreamManager.minTimestampOrBound, hQueue]

/-- A queue is empty or has a head. -/
theorem empty_or_head (m : InputStreamManager) :
    m.queue = [] ∨ ∃ p, m.queue.head? = some p := by
  cases m.queue with
  | nil => exact Or.inl rfl
  | cons p rest => exact Or.inr ⟨p, rfl⟩

theorem lt_minBound_foldl :
    t < (ms.foldl observe s).minBound ↔
      t < s.minBound ∧ ∀ m ∈ ms, m.queue = [] → t < m.nextTimestampBound := by
  induction ms generalizing s with
  | nil => simp
  | cons m ms ih =>
      rw [List.foldl_cons, ih, List.forall_mem_cons]
      rcases empty_or_head m with hEmpty | ⟨p, hHead⟩
      · rw [observe_of_empty hEmpty, lt_min_iff]
        simp only [hEmpty, true_implies, and_assoc]
      · have hNonempty : m.queue ≠ [] := by
          intro hEmpty
          simp [hEmpty] at hHead
        rw [observe_of_head hHead]
        simp only [hNonempty, false_implies, true_and]

theorem le_minPacket_foldl :
    t ≤ (ms.foldl observe s).minPacket ↔
      t ≤ s.minPacket ∧ ∀ m ∈ ms, ∀ p, m.queue.head? = some p → t ≤ p.timestamp := by
  induction ms generalizing s with
  | nil => simp
  | cons m ms ih =>
      rw [List.foldl_cons, ih, List.forall_mem_cons]
      rcases empty_or_head m with hEmpty | ⟨p, hHead⟩
      · rw [observe_of_empty hEmpty]
        simp [hEmpty]
      · rw [observe_of_head hHead, le_min_iff]
        simp [hHead, and_assoc]

/-- The least head is a head. -/
theorem minPacket_foldl_attained :
    (ms.foldl observe s).minPacket = s.minPacket ∨
      ∃ m ∈ ms, ∃ p, m.queue.head? = some p ∧
        (ms.foldl observe s).minPacket = p.timestamp := by
  induction ms generalizing s with
  | nil => exact Or.inl rfl
  | cons m ms ih =>
      rw [List.foldl_cons]
      rcases ih (s := observe s m) with hSame | ⟨m', hMem, p, hHead, hEq⟩
      · rcases empty_or_head m with hEmpty | ⟨p, hHead⟩
        · rw [hSame, observe_of_empty hEmpty]
          exact Or.inl rfl
        · rw [hSame, observe_of_head hHead]
          rcases min_choice s.minPacket p.timestamp with hLeft | hRight
          · exact Or.inl hLeft
          · exact Or.inr ⟨m, List.mem_cons_self, p, hHead, hRight⟩
      · exact Or.inr ⟨m', List.mem_cons_of_mem m hMem, p, hHead, hEq⟩

theorem anyBoundEmpty_foldl :
    (ms.foldl observe s).anyBoundEmpty = true ↔
      s.anyBoundEmpty = true ∨ ∃ m ∈ ms, m.queue = [] := by
  induction ms generalizing s with
  | nil => simp
  | cons m ms ih =>
      rw [List.foldl_cons, ih]
      rcases empty_or_head m with hEmpty | ⟨p, hHead⟩
      · rw [observe_of_empty hEmpty]
        simp [hEmpty]
      · have hNonempty : m.queue ≠ [] := by
          intro hEmpty
          simp [hEmpty] at hHead
        rw [observe_of_head hHead]
        simp [hNonempty]

/-! ## What readiness says -/

/-- `t` is settled: it is the least head, and no empty stream can still receive it. -/
structure Settled (ms : List InputStreamManager) (t : Timestamp) : Prop where
  inStream : t < Timestamp.oneOverPostStream
  head : ∃ m ∈ ms, ∃ p, m.queue.head? = some p ∧ p.timestamp = t
  heads : ∀ m ∈ ms, ∀ p, m.queue.head? = some p → t ≤ p.timestamp
  bounds : ∀ m ∈ ms, m.queue = [] → t < m.nextTimestampBound

theorem lt_minBound :
    t < (minima ms).minBound ↔
      t < Timestamp.done ∧ ∀ m ∈ ms, m.queue = [] → t < m.nextTimestampBound :=
  lt_minBound_foldl

theorem minPacket_eq (hStream : t < Timestamp.done) :
    (minima ms).minPacket = t ↔
      (∃ m ∈ ms, ∃ p, m.queue.head? = some p ∧ p.timestamp = t) ∧
        ∀ m ∈ ms, ∀ p, m.queue.head? = some p → t ≤ p.timestamp := by
  have hLower : t ≤ (minima ms).minPacket ↔
      t ≤ Timestamp.done ∧ ∀ m ∈ ms, ∀ p, m.queue.head? = some p → t ≤ p.timestamp :=
    le_minPacket_foldl
  have hAttained : (minima ms).minPacket = Timestamp.done ∨
      ∃ m ∈ ms, ∃ p, m.queue.head? = some p ∧ (minima ms).minPacket = p.timestamp :=
    minPacket_foldl_attained
  constructor
  · intro hEq
    refine ⟨?_, (hLower.mp hEq.ge).2⟩
    rcases hAttained with hDone | ⟨m, hMem, p, hHead, hLeast⟩
    · exact absurd (hEq.symm.trans hDone) hStream.ne
    · exact ⟨m, hMem, p, hHead, hLeast.symm.trans hEq⟩
  · intro ⟨⟨m, hMem, p, hHead, hAt⟩, hHeads⟩
    have hUpper : ∀ m ∈ ms, ∀ p, m.queue.head? = some p →
        (minima ms).minPacket ≤ p.timestamp := by
      have hLeast : (minima ms).minPacket ≤ Timestamp.done ∧ _ := le_minPacket_foldl.mp le_rfl
      exact hLeast.2
    exact le_antisymm (hAt ▸ hUpper m hMem p hHead) (hLower.mpr ⟨hStream.le, hHeads⟩)

/-- The three tests of the source come to two: when no stream is empty the least bound
is still `Done`. -/
theorem getReadiness_eq_process :
    getReadiness ms = (.readyForProcess, t) ↔
      t < Timestamp.oneOverPostStream ∧ (minima ms).minPacket = t ∧ t < (minima ms).minBound := by
  have hNoneEmpty : (minima ms).anyBoundEmpty = false →
      ∀ u, u < (minima ms).minBound ↔ u < Timestamp.done := by
    intro hNone u
    have hNotEmpty : ¬ ∃ m ∈ ms, m.queue = [] := by
      intro hEmpty
      have hAny : (minima ms).anyBoundEmpty = true := anyBoundEmpty_foldl.mpr (Or.inr hEmpty)
      rw [hNone] at hAny
      exact Bool.false_ne_true hAny
    rw [lt_minBound]
    exact ⟨fun h => h.1, fun h => ⟨h, fun m hMem hQueue => absurd ⟨m, hMem, hQueue⟩ hNotEmpty⟩⟩
  generalize hS : minima ms = s at hNoneEmpty
  unfold getReadiness
  simp only [hS]
  by_cases hClose : min s.minPacket s.minBound ≥ Timestamp.oneOverPostStream
  · rw [if_pos hClose]
    constructor
    · intro hReady
      simp at hReady
    · intro ⟨hStream, hPacket, hBound⟩
      have hMin : min s.minPacket s.minBound = t := by
        rw [hPacket, min_eq_left hBound.le]
      exact absurd hStream (not_lt.mpr (hMin ▸ hClose))
  · rw [if_neg hClose]
    have hOpen : min s.minPacket s.minBound < Timestamp.oneOverPostStream := not_le.mp hClose
    have hAhead : s.minPacket < s.minBound → min s.minPacket s.minBound = s.minPacket :=
      fun hLt => min_eq_left hLt.le
    by_cases hEmpty : s.anyBoundEmpty = true
    · simp only [hEmpty, Bool.not_true, Bool.false_eq_true, if_false]
      by_cases hLt : s.minPacket < s.minBound
      · rw [if_pos hLt, hAhead hLt]
        rw [hAhead hLt] at hOpen
        constructor
        · intro hReady
          obtain rfl : s.minPacket = t := (Prod.mk.inj hReady).2
          exact ⟨hOpen, rfl, hLt⟩
        · intro ⟨_, hPacket, _⟩
          rw [hPacket]
      · rw [if_neg hLt]
        constructor
        · intro hReady
          simp at hReady
        · intro ⟨_, hPacket, hBound⟩
          exact absurd (hPacket ▸ hBound) hLt
    · have hNone : s.anyBoundEmpty = false := by simpa using hEmpty
      have hBelow := hNoneEmpty hNone
      -- no stream is empty: the least bound is `Done` and the least head is below it
      have hLt : s.minPacket < s.minBound := by
        rw [hBelow]
        by_contra hNot
        have hMin : min s.minPacket s.minBound = s.minBound := by
          rw [min_eq_right]
          exact not_lt.mp (fun hLt => hNot ((hBelow _).mp hLt))
        have hBound : s.minBound < Timestamp.done :=
          (hMin ▸ hOpen).trans Timestamp.oneOverPostStream_lt_done
        exact lt_irrefl _ ((hBelow _).mpr hBound)
      simp only [hNone, Bool.not_false, if_true]
      rw [hAhead hLt]
      rw [hAhead hLt] at hOpen
      constructor
      · intro hReady
        obtain rfl : s.minPacket = t := (Prod.mk.inj hReady).2
        exact ⟨hOpen, rfl, hLt⟩
      · intro ⟨_, hPacket, _⟩
        rw [hPacket]

/-- **Ready at `t` means settled at `t`**. -/
theorem getReadiness_iff : getReadiness ms = (.readyForProcess, t) ↔ Settled ms t := by
  rw [getReadiness_eq_process]
  constructor
  · intro ⟨hStream, hPacket, hBound⟩
    have hDone : t < Timestamp.done := hStream.trans Timestamp.oneOverPostStream_lt_done
    obtain ⟨hHead, hHeads⟩ := (minPacket_eq hDone).mp hPacket
    exact ⟨hStream, hHead, hHeads, (lt_minBound.mp hBound).2⟩
  · intro ⟨hStream, hHead, hHeads, hBounds⟩
    have hDone : t < Timestamp.done := hStream.trans Timestamp.oneOverPostStream_lt_done
    exact ⟨hStream, (minPacket_eq hDone).mpr ⟨hHead, hHeads⟩, lt_minBound.mpr ⟨hDone, hBounds⟩⟩

/-! ## What producers may still do -/

/-- The operations of a producer on one stream. -/
inductive Produce
  | addPackets (packets : List Packet)
  | movePackets (packets : List Packet)
  | setNextTimestampBound (bound : Timestamp)
  | close

def Produce.apply (m : InputStreamManager) : Produce → InputStreamManager
  | .addPackets packets => (m.addPackets packets).manager
  | .movePackets packets => (m.movePackets packets).manager
  | .setNextTimestampBound bound => (m.setNextTimestampBound bound).1
  | .close => m.close.1

/-- A batch begins at or above the bound of the stream it enters; of the packets that
follow its first nothing is asked. -/
def Produce.Allowed (m : InputStreamManager) : Produce → Prop
  | .addPackets packets | .movePackets packets =>
      ∀ p, packets.head? = some p → m.nextTimestampBound ≤ p.timestamp
  | .setNextTimestampBound _ | .close => True

/-- Operation `op` on stream `i`. -/
def produce (ms : List InputStreamManager) (op : Nat × Produce) : List InputStreamManager :=
  ms.modify op.1 (Produce.apply · op.2)

def produceAll (ms : List InputStreamManager) (ops : List (Nat × Produce)) :
    List InputStreamManager :=
  ops.foldl produce ms

/-- Each operation is allowed in the state it meets. -/
def AllAllowed (ms : List InputStreamManager) : List (Nat × Produce) → Prop
  | [] => True
  | op :: ops => (∀ m, ms[op.1]? = some m → op.2.Allowed m) ∧ AllAllowed (produce ms op) ops

/-- The packet of a stream at `t`, if its head is at `t`. -/
def headAt (t : Timestamp) (m : InputStreamManager) : Option Packet :=
  m.queue.head?.filter (·.timestamp = t)

/-- Nothing at or below `t` can come in front of what the stream holds. -/
structure Later (t : Timestamp) (m m' : InputStreamManager) : Prop where
  bound : m'.queue = [] → t < m'.nextTimestampBound
  head : ∀ p, m'.queue.head? = some p → m.queue.head? = some p ∨ t < p.timestamp
  kept : ∀ p, m.queue.head? = some p → m'.queue.head? = some p

/-- A batch that enters a stream with nothing at or below `t` to come. -/
theorem later_of_addPackets {packets : List Packet}
    (hBound : m.queue = [] → t < m.nextTimestampBound)
    (hAllowed : ∀ p, packets.head? = some p → m.nextTimestampBound ≤ p.timestamp) :
    Later t m (m.addPackets packets).manager := by
  cases hClosed : m.closed with
  | true =>
      rw [(InputStreamManager.addPackets_of_closed hClosed packets).1]
      exact ⟨hBound, fun p hHead => Or.inl hHead, fun p hHead => hHead⟩
  | false =>
      rw [(InputStreamManager.addPackets_of_open hClosed packets).1]
      rcases empty_or_head m with hEmpty | ⟨first, hFirst⟩
      · refine ⟨?_, ?_, ?_⟩
        · intro hQueue
          obtain rfl : packets = [] := by simpa [hEmpty] using hQueue
          exact hBound hEmpty
        · intro p hHead
          have hPacket : packets.head? = some p := by simpa [hEmpty] using hHead
          exact Or.inr ((hBound hEmpty).trans_le (hAllowed p hPacket))
        · intro p hHead
          simp [hEmpty] at hHead
      · have hSame : (m.queue ++ packets).head? = some first := by
          rw [List.head?_append, hFirst, Option.some_or]
        refine ⟨?_, ?_, ?_⟩
        · intro hQueue
          have hNil : m.queue ++ packets = [] := hQueue
          simp [hNil] at hSame
        · intro p hHead
          exact Or.inl (hFirst.trans (hSame.symm.trans hHead))
        · intro p hHead
          exact hSame.trans (hFirst.symm.trans hHead)

/-- **One operation** on a stream. -/
theorem later_of_apply {op : Produce} (hStream : t < Timestamp.done)
    (hBound : m.queue = [] → t < m.nextTimestampBound) (hAllowed : op.Allowed m) :
    Later t m (op.apply m) := by
  have hSame : ∀ m' : InputStreamManager, m'.queue = m.queue →
      (m.queue = [] → t < m'.nextTimestampBound) → Later t m m' := by
    intro m' hQueue hRaised
    refine ⟨fun hEmpty => hRaised (hQueue ▸ hEmpty), ?_, ?_⟩
    · intro p hHead
      exact Or.inl (hQueue ▸ hHead)
    · intro p hHead
      exact hQueue.symm ▸ hHead
  cases op with
  | addPackets packets => exact later_of_addPackets hBound hAllowed
  | movePackets packets =>
      show Later t m (m.movePackets packets).manager
      rw [InputStreamManager.movePackets_manager]
      exact later_of_addPackets hBound hAllowed
  | setNextTimestampBound bound =>
      refine hSame _ (InputStreamManager.setNextTimestampBound_queue m bound) ?_
      intro hEmpty
      show t < (m.setNextTimestampBound bound).1.nextTimestampBound
      rw [InputStreamManager.setNextTimestampBound_bound]
      exact lt_max_of_lt_left (hBound hEmpty)
  | close =>
      show Later t m m.close.1
      unfold InputStreamManager.close
      by_cases hClosed : m.closed
      · rw [if_pos hClosed]
        exact hSame m rfl hBound
      · rw [if_neg hClosed]
        exact hSame _ rfl fun _ => hStream

theorem Later.headAt_eq {m' : InputStreamManager} (hLater : Later t m m') :
    headAt t m' = headAt t m := by
  rcases empty_or_head m with hEmpty | ⟨p, hHead⟩
  · have hNone : headAt t m = none := by simp [headAt, hEmpty]
    rw [hNone]
    rcases empty_or_head m' with hEmpty' | ⟨p, hHead⟩
    · simp [headAt, hEmpty']
    · have hPast : t < p.timestamp := by
        refine (hLater.head p hHead).resolve_left ?_
        simp [hEmpty]
      simp [headAt, hHead, hPast.ne']
  · simp [headAt, hHead, hLater.kept p hHead]

/-- The streams after an operation: one of them was changed, the others are as they
were. -/
theorem mem_produce {op : Nat × Produce} {m' : InputStreamManager}
    (hMem : m' ∈ produce ms op) :
    ∃ m ∈ ms, m' = m ∨ (ms[op.1]? = some m ∧ m' = op.2.apply m) := by
  obtain ⟨i, hGet⟩ := List.mem_iff_getElem?.mp hMem
  rw [produce, List.getElem?_modify] at hGet
  obtain ⟨m, hAt, hEq⟩ := Option.map_eq_some_iff.mp hGet
  refine ⟨m, List.mem_of_getElem? hAt, ?_⟩
  by_cases hIndex : op.1 = i
  · rw [if_pos hIndex] at hEq
    exact Or.inr ⟨hIndex ▸ hAt, hEq.symm⟩
  · rw [if_neg hIndex] at hEq
    exact Or.inl hEq.symm

/-- Each stream after the operation has nothing new at or below `t` in front. -/
theorem Settled.later {op : Nat × Produce} (hSettled : Settled ms t)
    (hAllowed : ∀ m, ms[op.1]? = some m → op.2.Allowed m) :
    ∀ m, ms[op.1]? = some m → Later t m (op.2.apply m) := by
  intro m hAt
  have hStream : t < Timestamp.done :=
    hSettled.inStream.trans Timestamp.oneOverPostStream_lt_done
  exact later_of_apply hStream (hSettled.bounds m (List.mem_of_getElem? hAt)) (hAllowed m hAt)

theorem Settled.headAt_produce {op : Nat × Produce} (hSettled : Settled ms t)
    (hAllowed : ∀ m, ms[op.1]? = some m → op.2.Allowed m) (i : Nat) :
    (produce ms op)[i]?.map (headAt t) = ms[i]?.map (headAt t) := by
  rw [produce, List.getElem?_modify, Option.map_eq_map, Option.map_map]
  cases hAt : ms[i]? with
  | none => rfl
  | some m =>
      show some _ = some _
      by_cases hIndex : op.1 = i
      · have hLater := hSettled.later hAllowed m (hIndex ▸ hAt)
        simp only [Function.comp_apply, if_pos hIndex, hLater.headAt_eq]
      · simp only [Function.comp_apply, if_neg hIndex]

/-- **One operation leaves a settled timestamp settled**. -/
theorem Settled.produce {op : Nat × Produce} (hSettled : Settled ms t)
    (hAllowed : ∀ m, ms[op.1]? = some m → op.2.Allowed m) :
    Settled (produce ms op) t := by
  refine ⟨hSettled.inStream, ?_, ?_, ?_⟩
  · obtain ⟨m, hMem, p, hHead, hAt⟩ := hSettled.head
    obtain ⟨i, hGet⟩ := List.mem_iff_getElem?.mp hMem
    have hBefore : headAt t m = some p := by simp [headAt, hHead, hAt]
    have hAfter := hSettled.headAt_produce hAllowed i
    rw [hGet, Option.map_some, hBefore] at hAfter
    obtain ⟨m', hGet', hSame⟩ := Option.map_eq_some_iff.mp hAfter
    exact ⟨m', List.mem_of_getElem? hGet', p, (Option.filter_eq_some_iff.mp hSame).1, hAt⟩
  · intro m' hMem p hHead
    obtain ⟨m, hIn, rfl | ⟨hAt, rfl⟩⟩ := mem_produce hMem
    · exact hSettled.heads m' hIn p hHead
    · rcases (hSettled.later hAllowed m hAt).head p hHead with hOld | hPast
      · exact hSettled.heads m hIn p hOld
      · exact hPast.le
  · intro m' hMem hEmpty
    obtain ⟨m, hIn, rfl | ⟨hAt, rfl⟩⟩ := mem_produce hMem
    · exact hSettled.bounds m' hIn hEmpty
    · exact (hSettled.later hAllowed m hAt).bound hEmpty

/-- **Any sequence of operations** leaves it settled, with the same packets. -/
theorem Settled.produceAll {ops : List (Nat × Produce)} (hSettled : Settled ms t)
    (hAllowed : AllAllowed ms ops) :
    Settled (produceAll ms ops) t ∧
      ∀ i : Nat, (SyncSet.produceAll ms ops)[i]?.map (headAt t) = ms[i]?.map (headAt t) := by
  induction ops generalizing ms with
  | nil => exact ⟨hSettled, fun _ => rfl⟩
  | cons op ops ih =>
      obtain ⟨hFirst, hRest⟩ := hAllowed
      obtain ⟨hAfter, hHeads⟩ := ih (hSettled.produce hFirst) hRest
      refine ⟨hAfter, ?_⟩
      intro i
      exact (hHeads i).trans (hSettled.headAt_produce hFirst i)

/-- **A settled timestamp stays settled.**  A set of streams is ready at `t` exactly
when `t` is below `OneOverPostStream` and the least head, and every empty stream is
bounded past it; and no later operation of the producers changes the answer or the
packets at `t`. -/
theorem getReadiness_settled (ms : List InputStreamManager) (t : Timestamp) :
    (getReadiness ms = (.readyForProcess, t) ↔
      t < Timestamp.oneOverPostStream ∧
        (∃ m ∈ ms, ∃ p, m.queue.head? = some p ∧ p.timestamp = t) ∧
        (∀ m ∈ ms, ∀ p, m.queue.head? = some p → t ≤ p.timestamp) ∧
        ∀ m ∈ ms, m.queue = [] → t < m.nextTimestampBound) ∧
      ∀ ops, getReadiness ms = (.readyForProcess, t) → AllAllowed ms ops →
        getReadiness (produceAll ms ops) = (.readyForProcess, t) ∧
          ∀ i : Nat, (produceAll ms ops)[i]?.map (headAt t) = ms[i]?.map (headAt t) := by
  refine ⟨getReadiness_iff.trans ?_, ?_⟩
  · exact ⟨fun h => ⟨h.inStream, h.head, h.heads, h.bounds⟩, fun ⟨h₁, h₂, h₃, h₄⟩ => ⟨h₁, h₂, h₃, h₄⟩⟩
  · intro ops hReady hAllowed
    obtain ⟨hAfter, hHeads⟩ := (getReadiness_iff.mp hReady).produceAll hAllowed
    exact ⟨getReadiness_iff.mpr hAfter, hHeads⟩

/-- Two streams, one with a packet at 5 and one whose bound is 7: the packet stays
alone at 5 when another arrives at 7 and the first stream is closed. -/
theorem getReadiness_settled_two :
    let ms : List InputStreamManager :=
      [{ queue := [⟨some 1, .ofValue 5⟩], nextTimestampBound := .ofValue 6 },
        { nextTimestampBound := .ofValue 7 }]
    let ops : List (Nat × Produce) :=
      [(1, .addPackets [⟨some 2, .ofValue 7⟩]), (0, .close)]
    getReadiness (produceAll ms ops) = (.readyForProcess, .ofValue 5) := by
  intro ms ops
  have hAllowed : AllAllowed ms ops := by
    refine ⟨?_, ?_, trivial⟩
    · intro m hAt p hHead
      obtain rfl : ms[1] = m := Option.some.inj hAt
      obtain rfl : (⟨some 2, .ofValue 7⟩ : Packet) = p := Option.some.inj hHead
      exact le_rfl
    · intro m _
      exact trivial
  exact ((getReadiness_settled ms (.ofValue 5)).2 ops (by decide) hAllowed).1

end SyncSet

end GraphRuntime.Stream
