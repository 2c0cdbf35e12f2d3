import GraphRuntime.Stream.Operations

/-!
# The contract of `InputStreamManager`

Two of its promises, each with the exact condition under which the code keeps it.

* `PopPacketAtTimestamp(t)` is to take all packets up to `t` and to return the one at
  `t`.  The code takes the head and looks no further (`popContract_iff`).
* An append is to take a whole batch of timestamps that are allowed in a stream, or
  nothing.  `CheckTimestamp` lets every timestamp pass (`allOrNothing_iff`).
-/

namespace GraphRuntime.Stream

open InputStreamManager

variable {m : InputStreamManager} {t : Timestamp} {p : Packet} {packets rest : List Packet}

/-! ## `PopPacketAtTimestamp` -/

/-- What `PopPacketAtTimestamp(t)` promises. -/
structure PopContract (m : InputStreamManager) (t : Timestamp) : Prop where
  queue : (m.popPacketAtTimestamp t).manager.queue = m.queue.filter (t < ·.timestamp)
  packet : ∀ p ∈ m.queue, p.timestamp = t → (m.popPacketAtTimestamp t).packet = p
  absent : (∀ p ∈ m.queue, p.timestamp ≠ t) → (m.popPacketAtTimestamp t).packet.isEmpty = true
  /-- The packets that were removed and, not being at `t`, not returned. -/
  dropped : (m.popPacketAtTimestamp t).numPacketsDropped =
    (m.queue.filter fun p =>
      p ∉ (m.popPacketAtTimestamp t).manager.queue ∧ p.timestamp ≠ t).length
  isDone : (m.popPacketAtTimestamp t).streamIsDone = (m.popPacketAtTimestamp t).manager.isDone

/-- The head is up to `t`: it leaves, and is returned if it is at `t`. -/
theorem popPacketAtTimestamp_of_head (hQueue : m.queue = p :: rest) (hLe : p.timestamp ≤ t) :
    (m.popPacketAtTimestamp t).manager.queue = rest ∧
      (p.timestamp = t → (m.popPacketAtTimestamp t).packet = p ∧
        (m.popPacketAtTimestamp t).numPacketsDropped = 0) ∧
      (p.timestamp ≠ t → (m.popPacketAtTimestamp t).packet.isEmpty = true ∧
        (m.popPacketAtTimestamp t).numPacketsDropped = 1) := by
  have hTake : m.takeHead t = (some p, { m with queue := rest }) := by
    simp [takeHead, hQueue, hLe]
  refine ⟨?_, ?_, ?_⟩
  · rw [popPacketAtTimestamp_manager, hTake]
  · intro hAt
    simp [popPacketAtTimestamp, hTake, hAt]
  · intro hNe
    simp [popPacketAtTimestamp, hTake, hNe, absentPacket, Packet.isEmpty, Packet.at', Packet.empty]

/-- No head is up to `t`: nothing leaves. -/
theorem popPacketAtTimestamp_of_later (hLater : ∀ p, m.queue.head? = some p → t < p.timestamp) :
    (m.popPacketAtTimestamp t).manager.queue = m.queue ∧
      (m.popPacketAtTimestamp t).packet.isEmpty = true ∧
      (m.popPacketAtTimestamp t).numPacketsDropped = if t = Timestamp.unset then -1 else 0 := by
  have hTake : m.takeHead t = (none, m) := by
    rcases SyncSet.empty_or_head m with hEmpty | ⟨p, hHead⟩
    · simp [takeHead, hEmpty]
    · obtain ⟨rest, hQueue⟩ := List.head?_eq_some_iff.mp hHead
      simp [takeHead, hQueue, hLater p hHead]
  refine ⟨?_, ?_, ?_⟩
  · rw [popPacketAtTimestamp_manager, hTake]
  · simp only [popPacketAtTimestamp, hTake]
    split <;> rfl
  · simp only [popPacketAtTimestamp, hTake]
    by_cases hUnset : t = Timestamp.unset
    · simp [hUnset]
    · simp [hUnset, Ne.symm hUnset]

theorem streamIsDone_eq (m : InputStreamManager) (t : Timestamp) :
    (m.popPacketAtTimestamp t).streamIsDone = (m.popPacketAtTimestamp t).manager.isDone := rfl

/-- With nothing up to `t` in the queue only `Unset` goes wrong: nothing was popped, and
its timestamp equals that of no packet. -/
theorem popContract_of_later (hLater : ∀ p ∈ m.queue, t < p.timestamp) :
    PopContract m t ↔ t ≠ Timestamp.unset := by
  obtain ⟨hQueue, hEmpty, hDropped⟩ :=
    popPacketAtTimestamp_of_later fun p hHead => hLater p (List.mem_of_mem_head? hHead)
  have hNone : (m.queue.filter fun p =>
      p ∉ (m.popPacketAtTimestamp t).manager.queue ∧ p.timestamp ≠ t) = [] := by
    rw [hQueue]
    simp +contextual
  constructor
  · rintro hContract rfl
    have hCount := hContract.dropped
    rw [hNone, hDropped, if_pos rfl] at hCount
    exact absurd hCount (by decide)
  · intro hSet
    refine ⟨?_, ?_, fun _ => hEmpty, ?_, streamIsDone_eq m t⟩
    · rw [hQueue]
      exact (List.filter_eq_self.mpr fun p hMem => by simpa using hLater p hMem).symm
    · intro p hMem hAt
      exact absurd hAt (hLater p hMem).ne'
    · rw [hNone, hDropped, if_neg hSet]
      rfl

/-- With a head up to `t` the second packet decides. -/
theorem popContract_of_head (hQueue : m.queue = p :: rest) (hLe : p.timestamp ≤ t)
    (hIncreasing : m.queue.Pairwise (·.timestamp < ·.timestamp)) :
    PopContract m t ↔ ∀ q ∈ rest, t < q.timestamp := by
  obtain ⟨hLeft, hAt, hNotAt⟩ := popPacketAtTimestamp_of_head hQueue hLe
  obtain ⟨hFirst, -⟩ := List.pairwise_cons.mp (hQueue ▸ hIncreasing)
  have hFilter : m.queue.filter (t < ·.timestamp) = rest.filter (t < ·.timestamp) := by
    rw [hQueue, List.filter_cons_of_neg]
    simpa using hLe
  constructor
  · intro hContract q hMem
    have hRest := hContract.queue
    rw [hLeft, hFilter] at hRest
    have hIn : q ∈ rest.filter (t < ·.timestamp) := hRest ▸ hMem
    simpa using (List.mem_filter.mp hIn).2
  · intro hLater
    refine ⟨?_, ?_, ?_, ?_, streamIsDone_eq m t⟩
    · rw [hLeft, hFilter]
      exact (List.filter_eq_self.mpr fun q hMem => by simpa using hLater q hMem).symm
    · intro q hMem hTime
      rw [hQueue] at hMem
      rcases List.mem_cons.mp hMem with rfl | hIn
      · exact (hAt hTime).1
      · exact absurd hTime (hLater q hIn).ne'
    · intro hNone
      exact (hNotAt (hNone p (hQueue ▸ List.mem_cons_self))).1
    · -- what was removed is the head, and it is not returned unless it is at `t`
      have hOthers : (rest.filter fun q => q ∉ rest ∧ q.timestamp ≠ t) = [] := by
        simp +contextual
      have hHead : p ∉ rest := fun hIn => lt_irrefl _ (hFirst p hIn)
      rw [hLeft, hQueue]
      by_cases hTime : p.timestamp = t
      · rw [(hAt hTime).2, List.filter_cons_of_neg (by simp [hTime]), hOthers]
        rfl
      · rw [(hNotAt hTime).2, List.filter_cons_of_pos (by simp [hTime, hHead]), hOthers]
        rfl

/-- **The contract of `PopPacketAtTimestamp`** is kept exactly when at most one packet is
up to `t`, and for `Unset` when there is one. -/
theorem popContract_iff (m : InputStreamManager) (t : Timestamp)
    (hIncreasing : m.queue.Pairwise (·.timestamp < ·.timestamp)) :
    PopContract m t ↔
      (m.queue.filter (·.timestamp ≤ t)).length ≤ 1 ∧
        (t = Timestamp.unset → ∃ p ∈ m.queue, p.timestamp = Timestamp.unset) := by
  by_cases hLater : ∀ p ∈ m.queue, t < p.timestamp
  · have hNone : m.queue.filter (·.timestamp ≤ t) = [] := by
      refine List.filter_eq_nil_iff.mpr ?_
      intro p hMem
      simpa using hLater p hMem
    rw [popContract_of_later hLater, hNone]
    constructor
    · intro hSet
      exact ⟨Nat.zero_le 1, fun hUnset => absurd hUnset hSet⟩
    · rintro ⟨-, hSome⟩ rfl
      obtain ⟨p, hMem, hAt⟩ := hSome rfl
      exact (hLater p hMem).ne' hAt
  · cases hQueue : m.queue with
    | nil => simp [hQueue] at hLater
    | cons p rest =>
        rw [hQueue] at hIncreasing hLater
        obtain ⟨hFirst, -⟩ := List.pairwise_cons.mp hIncreasing
        have hLe : p.timestamp ≤ t := by
          by_contra hNot
          refine hLater ?_
          intro q hMem
          rcases List.mem_cons.mp hMem with rfl | hIn
          · exact not_le.mp hNot
          · exact (not_le.mp hNot).trans (hFirst q hIn)
        have hUnset : t = Timestamp.unset →
            ∃ q ∈ p :: rest, q.timestamp = Timestamp.unset := by
          rintro rfl
          exact ⟨p, List.mem_cons_self, le_antisymm hLe (Timestamp.unset_le _)⟩
        rw [popContract_of_head hQueue hLe (hQueue ▸ hIncreasing),
          List.filter_cons_of_pos (by simpa using hLe), List.length_cons]
        constructor
        · intro hPast
          have hNone : rest.filter (·.timestamp ≤ t) = [] := by
            refine List.filter_eq_nil_iff.mpr ?_
            intro q hMem
            simpa using hPast q hMem
          exact ⟨by simp [hNone], hUnset⟩
        · intro ⟨hCount, _⟩ q hMem
          have hNone : rest.filter (·.timestamp ≤ t) = [] :=
            List.eq_nil_of_length_eq_zero (by omega)
          simpa using List.filter_eq_nil_iff.mp hNone q hMem

/-- A pop at the second of two packets takes the first, drops it, and returns none. -/
theorem popContract_second :
    let m : InputStreamManager := { queue := [⟨some 1, .ofValue 1⟩, ⟨some 2, .ofValue 2⟩] }
    (m.popPacketAtTimestamp (.ofValue 2)).packet.isEmpty = true ∧
      (m.popPacketAtTimestamp (.ofValue 2)).manager.queue = [⟨some 2, .ofValue 2⟩] ∧
      ¬ PopContract m (.ofValue 2) := by
  refine ⟨by decide, by decide, ?_⟩
  intro hContract
  exact absurd hContract.queue (by decide)

/-- A pop at the first of them does what it promises. -/
theorem popContract_first :
    PopContract { queue := [⟨some 1, .ofValue 1⟩, ⟨some 2, .ofValue 2⟩] } (.ofValue 1) :=
  (popContract_iff _ _ (by decide)).mpr (by decide)

/-! ## `AddPackets` and `MovePackets` -/

/-- What an append promises: a batch of allowed timestamps for an open stream is taken
whole, any other is refused and changes nothing. -/
structure AllOrNothing (m : InputStreamManager) (packets : List Packet) (r : AddResult) :
    Prop where
  accepted : m.closed = false → (∀ p ∈ packets, p.timestamp.isAllowedInStream = true) →
    r.status.isOk = true ∧ r.manager.queue = m.queue ++ packets
  refused : ¬ (m.closed = false ∧ ∀ p ∈ packets, p.timestamp.isAllowedInStream = true) →
    r.status.isOk = false ∧ r.manager.queue = m.queue ∧
      r.manager.nextTimestampBound = m.nextTimestampBound ∧
      r.manager.numPacketsAdded = m.numPacketsAdded

/-- An open stream takes every batch. -/
theorem status_addPackets_of_open (hOpen : m.closed = false) (packets : List Packet) :
    (m.addPackets packets).status = Status.okStatus := by
  simp [addPackets, hOpen, appendLoop_eq]

theorem status_movePackets (m : InputStreamManager) (packets : List Packet) :
    (m.movePackets packets).status = (m.addPackets packets).status := by
  cases hClosed : m.closed with
  | false => rw [movePackets_eq_addPackets hClosed]
  | true => simp [movePackets, addPackets, hClosed]

theorem allOrNothing_movePackets :
    AllOrNothing m packets (m.movePackets packets) ↔
      AllOrNothing m packets (m.addPackets packets) := by
  constructor
  · intro ⟨hAccepted, hRefused⟩
    rw [status_movePackets, movePackets_manager] at hAccepted hRefused
    exact ⟨hAccepted, hRefused⟩
  · intro ⟨hAccepted, hRefused⟩
    rw [← status_movePackets, ← movePackets_manager] at hAccepted hRefused
    exact ⟨hAccepted, hRefused⟩

theorem allOrNothing_addPackets :
    AllOrNothing m packets (m.addPackets packets) ↔
      m.closed = true ∨ ∀ p ∈ packets, p.timestamp.isAllowedInStream = true := by
  cases hClosed : m.closed with
  | true =>
      refine iff_of_true ⟨?_, ?_⟩ (Or.inl rfl)
      · intro hOpen
        simp [hClosed] at hOpen
      · intro _
        rw [(addPackets_of_closed hClosed packets).1]
        simp [addPackets, hClosed, Status.isOk]
  | false =>
      simp only [Bool.false_eq_true, false_or]
      have hStatus : (m.addPackets packets).status.isOk = true := by
        rw [status_addPackets_of_open hClosed]
        rfl
      constructor
      · intro hAll
        by_contra hBad
        have hRefused := hAll.refused fun hBoth => hBad hBoth.2
        rw [hStatus] at hRefused
        exact absurd hRefused.1 (by decide)
      · intro hAllowed
        refine ⟨fun _ _ => ⟨hStatus, ?_⟩, fun hBad => absurd ⟨hClosed, hAllowed⟩ hBad⟩
        rw [(addPackets_of_open hClosed packets).1]

/-- **All or nothing**, and only timestamps that are allowed in a stream: exactly for closed
streams and for batches that hold no other. -/
theorem allOrNothing_iff (m : InputStreamManager) (packets : List Packet) :
    AllOrNothing m packets (m.addPackets packets) ∧
        AllOrNothing m packets (m.movePackets packets) ↔
      m.closed = true ∨ ∀ p ∈ packets, p.timestamp.isAllowedInStream = true := by
  rw [allOrNothing_movePackets, and_self]
  exact allOrNothing_addPackets

/-- A default-constructed packet, at `Unset`, is taken. -/
theorem allOrNothing_unset :
    let m : InputStreamManager := {}
    (m.addPackets [⟨some 1, .unset⟩]).status.isOk = true ∧
      (m.addPackets [⟨some 1, .unset⟩]).manager.queue = [⟨some 1, .unset⟩] ∧
      ¬ AllOrNothing m [⟨some 1, .unset⟩] (m.addPackets [⟨some 1, .unset⟩]) := by
  refine ⟨by decide, by decide, ?_⟩
  intro hAll
  exact absurd (hAll.refused (by decide)).1 (by decide)

end GraphRuntime.Stream
