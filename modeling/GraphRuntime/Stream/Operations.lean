import GraphRuntime.Lib.Runs
import GraphRuntime.Stream.Sequenced

/-!
# Runs of one input stream

The operations of a stream's producers and consumers, in any order and with any
arguments.  `SetNextTimestampBound` raises the bound, but an append sets it to the
successor of its last packet, whatever it was, and a pop at `Done` saturates below
`Done`.  So a stream that was closed by its bound alone takes packets again, and
`staysDone_iff` says when one does not.
-/

namespace GraphRuntime.Stream

open Runs

/-- The operations of producers and consumers on one stream. -/
inductive Operation
  | produce (op : SyncSet.Produce)
  | popPacketAtTimestamp (timestamp : Timestamp)
  | popQueueHead

def Operation.apply (m : InputStreamManager) : Operation → InputStreamManager
  | .produce op => op.apply m
  | .popPacketAtTimestamp timestamp => (m.popPacketAtTimestamp timestamp).manager
  | .popQueueHead => m.popQueueHead.2.2

def InputStreamManager.after (m : InputStreamManager) (ops : List Operation) :
    InputStreamManager :=
  ops.foldl Operation.apply m

variable {m : InputStreamManager} {t : Timestamp} {packets : List Packet} {op : Operation}

/-! ## What an operation does to the bound -/

theorem boundAfter_of_getLast? {b : Timestamp} {p : Packet} (hLast : packets.getLast? = some p) :
    InputStreamManager.boundAfter b packets = p.timestamp.nextAllowedInStream := by
  induction packets generalizing b with
  | nil => simp at hLast
  | cons q rest ih =>
      cases rest with
      | nil =>
          obtain rfl : q = p := by simpa using hLast
          rfl
      | cons r rest =>
          rw [List.getLast?_cons_cons] at hLast
          exact ih (b := q.timestamp.nextAllowedInStream) hLast

/-- What a pop leaves: it takes from the queue and may raise the bound. -/
theorem popPacketAtTimestamp_manager (m : InputStreamManager) (t : Timestamp) :
    (m.popPacketAtTimestamp t).manager =
      { m with
        queue := (m.takeHead t).2.queue
        nextTimestampBound :=
          if m.nextTimestampBound ≤ t then t.nextAllowedInStream else m.nextTimestampBound } := by
  have hRest : (m.takeHead t).2 = { m with queue := (m.takeHead t).2.queue } := by
    unfold InputStreamManager.takeHead
    split
    · rfl
    · split <;> rfl
  simp only [InputStreamManager.popPacketAtTimestamp]
  rw [hRest]
  split <;> rfl

/-- Past a bound that is not `Done` the successor is no step back. -/
theorem Timestamp.le_nextAllowedInStream_iff {b : Timestamp} (hLe : b ≤ t) :
    b ≤ t.nextAllowedInStream ↔ b ≠ done := by
  constructor
  · rintro hNext rfl
    exact not_lt.mpr hNext (nextAllowedInStream_lt_done t)
  · intro hNotDone
    have hBelow : b.value < int64Max := lt_iff.mp (lt_of_le_of_ne (le_done b) hNotDone)
    rw [le_iff] at hLe ⊢
    unfold nextAllowedInStream
    split
    · show b.value ≤ int64Max - 1
      omega
    · show b.value ≤ t.value + 1
      omega

/-- The operation does not lower the bound: a batch for an open stream ends at or above
it, and a stream whose bound is `Done` is not popped at `Done`. -/
def Operation.KeepsBound (m : InputStreamManager) : Operation → Prop
  | .produce (.addPackets packets) | .produce (.movePackets packets) =>
      m.closed = true ∨
        ∀ p, packets.getLast? = some p → m.nextTimestampBound ≤ p.timestamp.nextAllowedInStream
  | .popPacketAtTimestamp timestamp =>
      ¬ (m.nextTimestampBound = Timestamp.done ∧ timestamp = Timestamp.done)
  | _ => True

theorem le_addPackets_bound_iff :
    m.nextTimestampBound ≤ (m.addPackets packets).manager.nextTimestampBound ↔
      m.closed = true ∨
        ∀ p, packets.getLast? = some p →
          m.nextTimestampBound ≤ p.timestamp.nextAllowedInStream := by
  cases hClosed : m.closed with
  | true =>
      rw [(InputStreamManager.addPackets_of_closed hClosed packets).1]
      exact iff_of_true le_rfl (Or.inl rfl)
  | false =>
      rw [(InputStreamManager.addPackets_of_open hClosed packets).1]
      simp only [Bool.false_eq_true, false_or]
      cases hLast : packets.getLast? with
      | none =>
          obtain rfl : packets = [] := List.getLast?_eq_none_iff.mp hLast
          simp [InputStreamManager.boundAfter]
      | some p => simp [boundAfter_of_getLast? hLast]

theorem le_popPacketAtTimestamp_bound_iff :
    m.nextTimestampBound ≤ (m.popPacketAtTimestamp t).manager.nextTimestampBound ↔
      ¬ (m.nextTimestampBound = Timestamp.done ∧ t = Timestamp.done) := by
  rw [popPacketAtTimestamp_manager]
  show _ ≤ (if m.nextTimestampBound ≤ t then _ else _) ↔ _
  split
  · rename_i hLe
    rw [Timestamp.le_nextAllowedInStream_iff hLe]
    refine not_congr ⟨fun hDone => ⟨hDone, ?_⟩, And.left⟩
    exact le_antisymm (Timestamp.le_done t) (hDone ▸ hLe)
  · rename_i hLt
    refine iff_of_true le_rfl ?_
    rintro ⟨hDone, rfl⟩
    exact hLt hDone.le

theorem close_bound (m : InputStreamManager) :
    m.close.1.nextTimestampBound =
      if m.closed then m.nextTimestampBound else Timestamp.done := by
  unfold InputStreamManager.close
  split <;> rfl

/-- **One operation** keeps the bound exactly when `KeepsBound` says so. -/
theorem le_apply_bound_iff (m : InputStreamManager) (op : Operation) :
    m.nextTimestampBound ≤ (op.apply m).nextTimestampBound ↔ op.KeepsBound m := by
  cases op with
  | produce op =>
      cases op with
      | addPackets packets => exact le_addPackets_bound_iff
      | movePackets packets =>
          show m.nextTimestampBound ≤ (m.movePackets packets).manager.nextTimestampBound ↔ _
          rw [InputStreamManager.movePackets_manager]
          exact le_addPackets_bound_iff
      | setNextTimestampBound bound =>
          refine iff_of_true ?_ trivial
          show m.nextTimestampBound ≤ (m.setNextTimestampBound bound).1.nextTimestampBound
          rw [InputStreamManager.setNextTimestampBound_bound]
          exact le_max_left _ _
      | close =>
          refine iff_of_true ?_ trivial
          show m.nextTimestampBound ≤ m.close.1.nextTimestampBound
          rw [close_bound]
          split
          · exact le_rfl
          · exact Timestamp.le_done _
  | popPacketAtTimestamp timestamp => exact le_popPacketAtTimestamp_bound_iff
  | popQueueHead =>
      refine iff_of_true ?_ trivial
      show m.nextTimestampBound ≤ m.popQueueHead.2.2.nextTimestampBound
      rw [InputStreamManager.popQueueHead_bound]

/-! ## What an operation does to the queue -/

/-- The packet a pop takes leaves the front of the queue. -/
theorem popPacketAtTimestamp_queue (m : InputStreamManager) (t : Timestamp) :
    (m.takeHead t).1.toList ++ (m.popPacketAtTimestamp t).manager.queue = m.queue := by
  rw [popPacketAtTimestamp_manager]
  unfold InputStreamManager.takeHead
  split
  · rename_i hQueue
    rw [hQueue]
    rfl
  · rename_i p rest hQueue
    split
    · exact hQueue.symm
    · rfl

/-- It is the head, if that is not past the timestamp. -/
theorem takeHead_eq (m : InputStreamManager) (t : Timestamp) :
    (m.takeHead t).1 = m.queue.head?.filter (·.timestamp ≤ t) := by
  unfold InputStreamManager.takeHead
  cases hQueue : m.queue with
  | nil => rfl
  | cons p rest =>
      by_cases hLe : p.timestamp ≤ t <;> simp [hLe, Option.filter]

/-- The packets an operation brings. -/
def Operation.batch : Operation → List Packet
  | .produce (.addPackets packets) | .produce (.movePackets packets) => packets
  | _ => []

/-- **What an operation can do**: a batch enters an open stream whole; anything else takes
from the queue, if at all, and leaves the limit and the count of packets alone. -/
theorem Operation.apply_cases (m : InputStreamManager) (op : Operation) :
    (m.closed = false ∧ op.apply m = { m with
      nextTimestampBound := InputStreamManager.boundAfter m.nextTimestampBound op.batch
      numPacketsAdded := m.numPacketsAdded + op.batch.length
      queue := m.queue ++ op.batch }) ∨
    ∃ queue bound closed, queue <:+ m.queue ∧
      op.apply m = { m with queue, nextTimestampBound := bound, closed } := by
  have hAdd : ∀ packets, (m.closed = false ∧ (m.addPackets packets).manager = { m with
        nextTimestampBound := InputStreamManager.boundAfter m.nextTimestampBound packets
        numPacketsAdded := m.numPacketsAdded + packets.length
        queue := m.queue ++ packets }) ∨
      ∃ queue bound closed, queue <:+ m.queue ∧
        (m.addPackets packets).manager =
          { m with queue, nextTimestampBound := bound, closed } := by
    intro packets
    cases hClosed : m.closed with
    | true =>
        rw [(InputStreamManager.addPackets_of_closed hClosed packets).1]
        exact Or.inr ⟨m.queue, m.nextTimestampBound, m.closed, List.suffix_refl _, rfl⟩
    | false =>
        have hWhole := (InputStreamManager.addPackets_of_open hClosed packets).1
        exact Or.inl ⟨rfl, hClosed ▸ hWhole⟩
  cases op with
  | produce op =>
      cases op with
      | addPackets packets => exact hAdd packets
      | movePackets packets =>
          simp only [apply, SyncSet.Produce.apply, InputStreamManager.movePackets_manager]
          exact hAdd packets
      | setNextTimestampBound bound =>
          right
          simp only [apply, SyncSet.Produce.apply, InputStreamManager.setNextTimestampBound]
          split
          · exact ⟨m.queue, bound, m.closed, List.suffix_refl _, rfl⟩
          · exact ⟨m.queue, m.nextTimestampBound, m.closed, List.suffix_refl _, rfl⟩
      | close =>
          right
          simp only [apply, SyncSet.Produce.apply, InputStreamManager.close]
          split
          · exact ⟨m.queue, m.nextTimestampBound, m.closed, List.suffix_refl _, rfl⟩
          · exact ⟨m.queue, Timestamp.done, true, List.suffix_refl _, rfl⟩
  | popPacketAtTimestamp timestamp =>
      right
      have hQueue := popPacketAtTimestamp_queue m timestamp
      simp only [apply, popPacketAtTimestamp_manager] at hQueue ⊢
      exact ⟨_, _, m.closed, ⟨_, hQueue⟩, rfl⟩
  | popQueueHead =>
      right
      simp only [apply, InputStreamManager.popQueueHead]
      split
      · exact ⟨m.queue, m.nextTimestampBound, m.closed, List.suffix_refl _, rfl⟩
      · rename_i p rest hQueue
        exact ⟨rest, m.nextTimestampBound, m.closed, ⟨[p], hQueue.symm⟩, rfl⟩

/-- A packet in the queue was there before or came with the operation. -/
theorem mem_apply_queue {p : Packet} (hMem : p ∈ (op.apply m).queue) :
    p ∈ m.queue ∨ p ∈ op.batch := by
  rcases op.apply_cases m with ⟨-, hApply⟩ | ⟨queue, bound, closed, hSuffix, hApply⟩
  · rw [hApply] at hMem
    exact List.mem_append.mp hMem
  · rw [hApply] at hMem
    exact Or.inl (hSuffix.mem hMem)

/-- A queue grows by no more than the batch, and not at all when the stream is closed. -/
theorem length_apply_le (m : InputStreamManager) (op : Operation) :
    (op.apply m).queue.length ≤ m.queue.length + if m.closed then 0 else op.batch.length := by
  rcases op.apply_cases m with ⟨hOpen, hApply⟩ | ⟨queue, bound, closed, hSuffix, hApply⟩
  · rw [hApply, hOpen]
    simp
  · rw [hApply]
    exact hSuffix.length_le.trans (Nat.le_add_right _ _)

/-- No operation changes the queue size. -/
theorem apply_maxQueueSize (m : InputStreamManager) (op : Operation) :
    (op.apply m).maxQueueSize = m.maxQueueSize := by
  rcases op.apply_cases m with ⟨-, hApply⟩ | ⟨queue, bound, closed, -, hApply⟩
  · rw [hApply]
  · rw [hApply]

/-- Only the empty batch leaves a bound at `Done`. -/
theorem eq_nil_of_done_le_boundAfter {b : Timestamp}
    (hDone : Timestamp.done ≤ InputStreamManager.boundAfter b packets) : packets = [] := by
  refine List.getLast?_eq_none_iff.mp (Option.eq_none_iff_forall_ne_some.mpr ?_)
  intro p hLast
  rw [boundAfter_of_getLast? hLast] at hDone
  exact not_lt.mpr hDone (Timestamp.nextAllowedInStream_lt_done p.timestamp)

/-- A done stream takes no packet and its queue only shrinks. -/
theorem apply_of_done (hDone : m.nextTimestampBound = Timestamp.done) (hKeeps : op.KeepsBound m) :
    (op.apply m).numPacketsAdded = m.numPacketsAdded ∧ (op.apply m).queue <:+ m.queue := by
  have hLe := (le_apply_bound_iff m op).mpr hKeeps
  rcases op.apply_cases m with ⟨-, hApply⟩ | ⟨queue, bound, closed, hSuffix, hApply⟩
  · rw [hApply, hDone] at hLe
    have hNone : op.batch = [] := eq_nil_of_done_le_boundAfter hLe
    rw [hApply, hNone]
    simp
  · rw [hApply]
    exact ⟨rfl, hSuffix⟩

/-! ## Runs -/

/-- Between any two moments of the run the bound does not go back, and what is done at the
first is done at the second, with no packet accepted. -/
structure StaysDone (m : InputStreamManager) (ops : List Operation) : Prop where
  bound : ∀ pre mid, pre ++ mid <+: ops →
    (m.after pre).nextTimestampBound ≤ (m.after (pre ++ mid)).nextTimestampBound
  done : ∀ pre mid, pre ++ mid <+: ops → (m.after pre).nextTimestampBound = Timestamp.done →
    (m.after (pre ++ mid)).nextTimestampBound = Timestamp.done ∧
      (m.after (pre ++ mid)).numPacketsAdded = (m.after pre).numPacketsAdded
  isDone : ∀ pre mid, pre ++ mid <+: ops → (m.after pre).isDone = true →
    (m.after (pre ++ mid)).isDone = true

/-- What was done at some state of an allowed run is done at its end. -/
theorem after_of_done {ops : List Operation}
    (hMeet : AllMeet Operation.apply Operation.KeepsBound m ops)
    (hDone : m.nextTimestampBound = Timestamp.done) :
    (m.after ops).nextTimestampBound = Timestamp.done ∧
      (m.after ops).numPacketsAdded = m.numPacketsAdded ∧ (m.after ops).queue <:+ m.queue := by
  refine hMeet.invariant (I := fun s => s.nextTimestampBound = Timestamp.done ∧
    s.numPacketsAdded = m.numPacketsAdded ∧ s.queue <:+ m.queue)
    ⟨hDone, rfl, List.suffix_refl _⟩ ?_
  intro s op ⟨hBound, hAdded, hQueue⟩ hKeeps
  obtain ⟨hSameAdded, hLess⟩ := apply_of_done hBound hKeeps
  have hLe := (le_apply_bound_iff s op).mpr hKeeps
  exact ⟨le_antisymm (Timestamp.le_done _) (hBound ▸ hLe), hSameAdded.trans hAdded,
    hLess.trans hQueue⟩

/-- **A done stream stays done** in the runs whose steps do not lower the bound, and in
no other. -/
theorem staysDone_iff (m : InputStreamManager) (ops : List Operation) :
    StaysDone m ops ↔ AllMeet Operation.apply Operation.KeepsBound m ops := by
  constructor
  · intro hStays
    refine allMeet_iff.mpr ?_
    intro pre op hPrefix
    have hLe := hStays.bound pre [op] hPrefix
    rw [InputStreamManager.after, InputStreamManager.after, List.foldl_concat] at hLe
    exact (le_apply_bound_iff _ op).mp hLe
  · intro hMeet
    have hBetween : ∀ pre mid, pre ++ mid <+: ops →
        AllMeet Operation.apply Operation.KeepsBound (m.after pre) mid ∧
          m.after (pre ++ mid) = (m.after pre).after mid := by
      rintro pre mid ⟨rest, rfl⟩
      rw [List.append_assoc, allMeet_append, allMeet_append] at hMeet
      exact ⟨hMeet.2.1, List.foldl_append⟩
    refine ⟨?_, ?_, ?_⟩
    · intro pre mid hPrefix
      obtain ⟨hMid, hAfter⟩ := hBetween pre mid hPrefix
      rw [hAfter]
      refine hMid.invariant (I := fun s => (m.after pre).nextTimestampBound ≤ s.nextTimestampBound)
        le_rfl ?_
      intro s op hLe hKeeps
      exact hLe.trans ((le_apply_bound_iff s op).mpr hKeeps)
    · intro pre mid hPrefix hDone
      obtain ⟨hMid, hAfter⟩ := hBetween pre mid hPrefix
      obtain ⟨hBound, hAdded, -⟩ := after_of_done hMid hDone
      rw [hAfter]
      exact ⟨hBound, hAdded⟩
    · intro pre mid hPrefix hIsDone
      obtain ⟨hMid, hAfter⟩ := hBetween pre mid hPrefix
      obtain ⟨hQueue, hDone⟩ := InputStreamManager.isDone_iff.mp hIsDone
      obtain ⟨hBound, -, hSuffix⟩ := after_of_done hMid hDone
      rw [hAfter]
      refine InputStreamManager.isDone_iff.mpr ⟨?_, hBound⟩
      exact List.suffix_nil.mp (hQueue ▸ hSuffix)

/-- A producer that closes its mirror by its bound and then sends one more packet: the
packet is taken and the stream is no longer done. -/
theorem staysDone_reopened :
    let ops : List Operation :=
      [.produce (.setNextTimestampBound Timestamp.done),
        .produce (.addPackets [⟨some 1, .ofValue 5⟩]), .popQueueHead]
    (InputStreamManager.after {} (ops.take 1)).isDone = true ∧
      (InputStreamManager.after {} (ops.take 2)).numPacketsAdded = 1 ∧
      (InputStreamManager.after {} ops).isDone = false ∧ ¬ StaysDone {} ops := by
  refine ⟨by decide, by decide, by decide, ?_⟩
  intro hStays
  have hLe := hStays.bound [.produce (.setNextTimestampBound Timestamp.done)]
    [.produce (.addPackets [⟨some 1, .ofValue 5⟩])] ⟨[.popQueueHead], rfl⟩
  exact absurd hLe (by decide)

end GraphRuntime.Stream
