import GraphRuntime.Stream.SyncSet

/-!
# Streams whose timestamps increase

A stream is *sequenced* when its packets carry increasing timestamps below its
bound; a batch that begins at the bound keeps it so.  What then may come is
past whatever has been taken: `Past t` is kept by every operation on a
sequenced stream, and with heads at `t` it makes `t` settled for
`GetReadiness` (`settled_of_past`).
-/

namespace GraphRuntime.Stream

/-- Increasing timestamps that may enter a stream, all below the bound. -/
structure Sequenced (m : InputStreamManager) : Prop where
  increasing : m.queue.Pairwise (·.timestamp < ·.timestamp)
  allowed : ∀ p ∈ m.queue, p.timestamp.isAllowedInStream = true
  bounded : ∀ p ∈ m.queue, p.timestamp < m.nextTimestampBound

/-- A batch that continues the stream. -/
def InputStreamManager.follows (m : InputStreamManager) (packets : List Packet) : Bool :=
  decide (packets.Pairwise (·.timestamp < ·.timestamp)) &&
    packets.all fun p => p.timestamp.isAllowedInStream && decide (m.nextTimestampBound ≤ p.timestamp)

/-- Nothing before `t` is left in the stream, and nothing up to `t` may come. -/
structure Past (t : Timestamp) (m : InputStreamManager) : Prop where
  queued : ∀ p ∈ m.queue, t ≤ p.timestamp
  bound : t < m.nextTimestampBound

variable {m : InputStreamManager} {t : Timestamp} {packets : List Packet}

theorem Timestamp.lt_nextAllowedInStream (h : t.isAllowedInStream = true) :
    t < t.nextAllowedInStream := by
  simp only [isAllowedInStream, Bool.and_eq_true, decide_eq_true_eq] at h
  rw [lt_iff]
  unfold nextAllowedInStream
  split
  · show t.value < int64Max - 1
    omega
  · show t.value < t.value + 1
    omega

theorem InputStreamManager.follows_iff : m.follows packets = true ↔
    packets.Pairwise (·.timestamp < ·.timestamp) ∧
      ∀ p ∈ packets, p.timestamp.isAllowedInStream = true ∧ m.nextTimestampBound ≤ p.timestamp := by
  simp [follows]

/-- The bound after an increasing batch is past its packets. -/
theorem lt_boundAfter {b : Timestamp} {p : Packet} (hMem : p ∈ packets)
    (hIncreasing : packets.Pairwise (·.timestamp < ·.timestamp))
    (hAllowed : ∀ p ∈ packets, p.timestamp.isAllowedInStream = true) :
    p.timestamp < InputStreamManager.boundAfter b packets := by
  induction packets generalizing b p with
  | nil => exact absurd hMem List.not_mem_nil
  | cons q rest ih =>
      obtain ⟨hFirst, hRest⟩ := List.pairwise_cons.mp hIncreasing
      have hAllowedRest := fun r hIn => hAllowed r (List.mem_cons_of_mem q hIn)
      show p.timestamp < InputStreamManager.boundAfter q.timestamp.nextAllowedInStream rest
      rcases List.mem_cons.mp hMem with rfl | hIn
      · cases rest with
        | nil => exact Timestamp.lt_nextAllowedInStream (hAllowed p hMem)
        | cons r rest =>
            have hNext : p.timestamp < r.timestamp := hFirst r List.mem_cons_self
            exact hNext.trans (ih List.mem_cons_self hRest hAllowedRest)
      · exact ih hIn hRest hAllowedRest

namespace Sequenced

theorem popQueueHead (hSequenced : Sequenced m) : Sequenced m.popQueueHead.2.2 := by
  constructor
  · rw [InputStreamManager.popQueueHead_queue]
    exact hSequenced.increasing.tail
  · intro p hMem
    rw [InputStreamManager.popQueueHead_queue] at hMem
    exact hSequenced.allowed p (List.mem_of_mem_tail hMem)
  · intro p hMem
    rw [InputStreamManager.popQueueHead_queue] at hMem
    rw [InputStreamManager.popQueueHead_bound]
    exact hSequenced.bounded p (List.mem_of_mem_tail hMem)

theorem setNextTimestampBound (hSequenced : Sequenced m) (b : Timestamp) :
    Sequenced (m.setNextTimestampBound b).1 := by
  constructor
  · rw [InputStreamManager.setNextTimestampBound_queue]
    exact hSequenced.increasing
  · intro p hMem
    rw [InputStreamManager.setNextTimestampBound_queue] at hMem
    exact hSequenced.allowed p hMem
  · intro p hMem
    rw [InputStreamManager.setNextTimestampBound_queue] at hMem
    rw [InputStreamManager.setNextTimestampBound_bound]
    exact lt_max_of_lt_left (hSequenced.bounded p hMem)

/-- The bound does not fall when a batch follows. -/
theorem le_boundAfter {b : Timestamp} (hIncreasing : packets.Pairwise (·.timestamp < ·.timestamp))
    (hAllowed : ∀ p ∈ packets, p.timestamp.isAllowedInStream = true ∧ b ≤ p.timestamp) :
    b ≤ InputStreamManager.boundAfter b packets := by
  cases packets with
  | nil => exact le_rfl
  | cons p rest =>
      have hFirst : b ≤ p.timestamp := (hAllowed p List.mem_cons_self).2
      exact hFirst.trans (lt_boundAfter List.mem_cons_self hIncreasing
        fun q hMem => (hAllowed q hMem).1).le

theorem addPackets (hSequenced : Sequenced m) (hFollows : m.follows packets = true) :
    Sequenced (m.addPackets packets).manager := by
  obtain ⟨hIncreasing, hAllowed⟩ := InputStreamManager.follows_iff.mp hFollows
  cases hClosed : m.closed with
  | true =>
      rw [(InputStreamManager.addPackets_of_closed hClosed packets).1]
      exact hSequenced
  | false =>
      rw [(InputStreamManager.addPackets_of_open hClosed packets).1]
      constructor
      · refine List.pairwise_append.mpr ⟨hSequenced.increasing, hIncreasing, ?_⟩
        intro p hOld q hNew
        exact (hSequenced.bounded p hOld).trans_le (hAllowed q hNew).2
      · intro p hMem
        rcases List.mem_append.mp hMem with hOld | hNew
        · exact hSequenced.allowed p hOld
        · exact (hAllowed p hNew).1
      · intro p hMem
        rcases List.mem_append.mp hMem with hOld | hNew
        · exact (hSequenced.bounded p hOld).trans_le (le_boundAfter hIncreasing hAllowed)
        · exact lt_boundAfter hNew hIncreasing fun q hIn => (hAllowed q hIn).1

end Sequenced

namespace Past

theorem popQueueHead (hPast : Past t m) : Past t m.popQueueHead.2.2 := by
  constructor
  · intro p hMem
    rw [InputStreamManager.popQueueHead_queue] at hMem
    exact hPast.queued p (List.mem_of_mem_tail hMem)
  · rw [InputStreamManager.popQueueHead_bound]
    exact hPast.bound

theorem setNextTimestampBound (hPast : Past t m) (b : Timestamp) :
    Past t (m.setNextTimestampBound b).1 := by
  constructor
  · intro p hMem
    rw [InputStreamManager.setNextTimestampBound_queue] at hMem
    exact hPast.queued p hMem
  · rw [InputStreamManager.setNextTimestampBound_bound]
    exact lt_max_of_lt_left hPast.bound

theorem addPackets (hPast : Past t m) (hFollows : m.follows packets = true) :
    Past t (m.addPackets packets).manager := by
  obtain ⟨hIncreasing, hAllowed⟩ := InputStreamManager.follows_iff.mp hFollows
  cases hClosed : m.closed with
  | true =>
      rw [(InputStreamManager.addPackets_of_closed hClosed packets).1]
      exact hPast
  | false =>
      rw [(InputStreamManager.addPackets_of_open hClosed packets).1]
      constructor
      · intro p hMem
        rcases List.mem_append.mp hMem with hOld | hNew
        · exact hPast.queued p hOld
        · exact hPast.bound.le.trans (hAllowed p hNew).2
      · exact hPast.bound.trans_le (Sequenced.le_boundAfter hIncreasing hAllowed)

/-- The head of a sequenced stream comes before all that is left. -/
theorem of_head {p : Packet} (hSequenced : Sequenced m) (hHead : m.queue.head? = some p)
    (hLower : t ≤ p.timestamp) : Past t m := by
  obtain ⟨rest, hQueue⟩ := List.head?_eq_some_iff.mp hHead
  have hFirst : p ∈ m.queue := by simp [hQueue]
  constructor
  · intro q hMem
    have hIncreasing := hSequenced.increasing
    rw [hQueue] at hMem hIncreasing
    rcases List.mem_cons.mp hMem with rfl | hIn
    · exact hLower
    · exact hLower.trans ((List.pairwise_cons.mp hIncreasing).1 q hIn).le
  · exact hLower.trans_lt (hSequenced.bounded p hFirst)

end Past

/-- **A head that nothing can precede is settled.** -/
theorem settled_of_past {ms : List InputStreamManager} {p : Packet} (hMem : m ∈ ms)
    (hHead : m.queue.head? = some p) (hSequenced : Sequenced m)
    (hPast : ∀ m ∈ ms, Past p.timestamp m) : SyncSet.Settled ms p.timestamp where
  inStream := Timestamp.lt_oneOverPostStream_of_isAllowedInStream
    (hSequenced.allowed p (List.mem_of_head? hHead))
  head := ⟨m, hMem, p, hHead, rfl⟩
  heads := fun m' hIn q hFirst => (hPast m' hIn).queued q (List.mem_of_head? hFirst)
  bounds := fun m' hIn _ => (hPast m' hIn).bound

end GraphRuntime.Stream
