import GraphRuntime.Stream.Operations

/-!
# Full streams

A stream is full when its queue has reached `max_queue_size`.  A batch fills it at once,
however far it goes beyond, and a pop makes room when it takes a packet from a stream that
is exactly at its limit (`isFull_apply`).  The callbacks report both, but `PopQueueHead`
runs none (`callback_eq`).
-/

namespace GraphRuntime.Stream

variable {m : InputStreamManager} {op : Operation} {packets : List Packet} {t : Timestamp}

/-- The queue size callback an operation runs: `becomes_full_callback_` is `true`. -/
def Operation.callback (m : InputStreamManager) : Operation → Option Bool
  | .produce (.addPackets packets) =>
      if (m.addPackets packets).becameFull then some true else none
  | .produce (.movePackets packets) =>
      if (m.movePackets packets).becameFull then some true else none
  | .popPacketAtTimestamp timestamp =>
      if (m.popPacketAtTimestamp timestamp).becameNotFull then some false else none
  | _ => none

/-! ## What an operation does to a stream's fullness -/

/-- As many packets as the limit. -/
def InputStreamManager.AtLimit (m : InputStreamManager) : Prop :=
  m.queue ≠ [] ∧ (m.queue.length : Int) = m.maxQueueSize

/-- A batch that takes an open stream to its limit, or past it. -/
def Operation.Fills (m : InputStreamManager) : Operation → Prop
  | .produce (.addPackets packets) | .produce (.movePackets packets) =>
      m.closed = false ∧ m.maxQueueSize ≠ -1 ∧
        m.maxQueueSize ≤ (m.queue.length : Int) + (packets.length : Int)
  | _ => False

/-- A pop that takes a packet from a stream at its limit. -/
def Operation.Drains (m : InputStreamManager) : Operation → Prop
  | .popPacketAtTimestamp timestamp =>
      m.AtLimit ∧ ∃ p, m.queue.head? = some p ∧ p.timestamp ≤ timestamp
  | .popQueueHead => m.AtLimit
  | _ => False

theorem isFull_iff :
    m.isFull = true ↔ m.maxQueueSize ≠ -1 ∧ m.maxQueueSize ≤ (m.queue.length : Int) := by
  simp [InputStreamManager.isFull]

theorem isFull_addPackets :
    (m.addPackets packets).manager.isFull = true ↔
      (Operation.produce (.addPackets packets)).Fills m ∨ m.isFull = true := by
  cases hClosed : m.closed with
  | true =>
      rw [(InputStreamManager.addPackets_of_closed hClosed packets).1]
      simp [Operation.Fills, hClosed]
  | false =>
      rw [(InputStreamManager.addPackets_of_open hClosed packets).1, isFull_iff, isFull_iff]
      simp only [Operation.Fills, hClosed, List.length_append, Nat.cast_add, true_and]
      omega

/-- A queue that loses its head. -/
theorem isFull_tail {m' : InputStreamManager} (hQueue : m'.queue = m.queue.tail)
    (hLimit : m'.maxQueueSize = m.maxQueueSize) :
    m'.isFull = true ↔ m.isFull = true ∧ ¬ m.AtLimit := by
  rw [isFull_iff, isFull_iff, hQueue, hLimit, InputStreamManager.AtLimit]
  cases m.queue with
  | nil => simp
  | cons p rest =>
      simp only [List.tail_cons, List.length_cons, Nat.cast_add, Nat.cast_one, ne_eq,
        reduceCtorEq, not_false_eq_true, true_and]
      omega

theorem isFull_popPacketAtTimestamp :
    (m.popPacketAtTimestamp t).manager.isFull = true ↔
      m.isFull = true ∧ ¬ (Operation.popPacketAtTimestamp t).Drains m := by
  have hQueue := popPacketAtTimestamp_queue m t
  have hLimit : (m.popPacketAtTimestamp t).manager.maxQueueSize = m.maxQueueSize :=
    apply_maxQueueSize m (.popPacketAtTimestamp t)
  by_cases hHead : ∃ p, m.queue.head? = some p ∧ p.timestamp ≤ t
  · obtain ⟨p, hHead, hLe⟩ := hHead
    rw [takeHead_eq, hHead, Option.filter_some_pos (by simpa using hLe)] at hQueue
    have hTail : (m.popPacketAtTimestamp t).manager.queue = m.queue.tail := by
      rw [← hQueue]
      rfl
    rw [isFull_tail hTail hLimit, Operation.Drains]
    refine and_congr_right fun _ => not_congr (Iff.symm (and_iff_left ?_))
    exact ⟨p, hHead, hLe⟩
  · have hNone : (m.takeHead t).1 = none := by
      rw [takeHead_eq, Option.filter_eq_none_iff]
      intro p hFirst
      simpa using fun hLe => hHead ⟨p, hFirst, hLe⟩
    have hSame : (m.popPacketAtTimestamp t).manager.queue = m.queue := by
      simpa [hNone] using hQueue
    rw [isFull_iff, isFull_iff, hSame, hLimit]
    exact (and_iff_left fun hDrains : (Operation.popPacketAtTimestamp t).Drains m =>
      hHead hDrains.2).symm

/-- **An operation and the fullness of its stream**. -/
theorem isFull_apply (m : InputStreamManager) (op : Operation) :
    (op.apply m).isFull = true ↔ op.Fills m ∨ m.isFull = true ∧ ¬ op.Drains m := by
  cases op with
  | produce op =>
      cases op with
      | addPackets packets =>
          simp only [Operation.apply, SyncSet.Produce.apply, isFull_addPackets, Operation.Drains,
            not_false_eq_true, and_true]
      | movePackets packets =>
          simp only [Operation.apply, SyncSet.Produce.apply,
            InputStreamManager.movePackets_manager, isFull_addPackets, Operation.Drains,
            not_false_eq_true, and_true]
          rfl
      | setNextTimestampBound bound =>
          have hSame : (m.setNextTimestampBound bound).1.isFull = m.isFull := by
            unfold InputStreamManager.setNextTimestampBound
            split <;> rfl
          simp [Operation.apply, SyncSet.Produce.apply, hSame, Operation.Fills, Operation.Drains]
      | close =>
          have hSame : m.close.1.isFull = m.isFull := by
            unfold InputStreamManager.close
            split <;> rfl
          simp [Operation.apply, SyncSet.Produce.apply, hSame, Operation.Fills, Operation.Drains]
  | popPacketAtTimestamp timestamp =>
      simp only [Operation.apply, isFull_popPacketAtTimestamp, Operation.Fills, false_or]
  | popQueueHead =>
      have hTail := isFull_tail (InputStreamManager.popQueueHead_queue m)
        (apply_maxQueueSize m .popQueueHead)
      simp only [Operation.apply, hTail, Operation.Fills, Operation.Drains, false_or]

theorem isFull_of_atLimit (hLimit : m.AtLimit) : m.isFull = true := by
  rw [isFull_iff, ← hLimit.2]
  exact ⟨by omega, le_rfl⟩

theorem not_fills_of_drains (hDrains : op.Drains m) : ¬ op.Fills m := by
  cases op with
  | produce op => exact hDrains.elim
  | popPacketAtTimestamp timestamp => exact id
  | popQueueHead => exact id

/-! ## What an operation reports -/

theorem becameFull_addPackets (m : InputStreamManager) (packets : List Packet) :
    (m.addPackets packets).becameFull =
      (!m.isFull && (m.addPackets packets).manager.isFull) := by
  cases hClosed : m.closed with
  | true => simp [InputStreamManager.addPackets, hClosed]
  | false => simp [InputStreamManager.addPackets, hClosed, InputStreamManager.appendLoop_eq]

theorem movePackets_becameFull (m : InputStreamManager) (packets : List Packet) :
    (m.movePackets packets).becameFull = (m.addPackets packets).becameFull := by
  cases hClosed : m.closed with
  | true => simp [InputStreamManager.movePackets, InputStreamManager.addPackets, hClosed]
  | false => rw [InputStreamManager.movePackets_eq_addPackets hClosed]

/-- A change upwards, reported. -/
theorem report_filled {before after : Bool} (hUp : before = true → after = true) :
    (if !before && after then some true else none) =
      if after = before then none else some after := by
  cases before with
  | false => cases after <;> rfl
  | true => rw [hUp rfl]; rfl

/-- A change downwards, reported. -/
theorem report_drained {before after : Bool} (hDown : after = true → before = true) :
    (if before && !after then some false else none) =
      if after = before then none else some after := by
  cases after with
  | false => cases before <;> rfl
  | true => rw [hDown rfl]; rfl

/-- **A callback runs exactly when the fullness changes**, but for a pop by
`PopQueueHead`. -/
theorem callback_eq (hTold : op.Drains m → op ≠ .popQueueHead) :
    op.callback m =
      if (op.apply m).isFull = m.isFull then none else some (op.apply m).isFull := by
  have hAdd : ∀ packets, (if (m.addPackets packets).becameFull then some true else none) =
      if (m.addPackets packets).manager.isFull = m.isFull then none
      else some (m.addPackets packets).manager.isFull := by
    intro packets
    rw [becameFull_addPackets]
    exact report_filled fun hFull => isFull_addPackets.mpr (Or.inr hFull)
  have hSame : (op.apply m).isFull = m.isFull → op.callback m = none → op.callback m =
      if (op.apply m).isFull = m.isFull then none else some (op.apply m).isFull :=
    fun hSame hNone => by rw [if_pos hSame, hNone]
  have hApply : (op.apply m).isFull = true ↔ op.Fills m ∨ m.isFull = true ∧ ¬ op.Drains m :=
    isFull_apply m op
  cases op with
  | produce op =>
      cases op with
      | addPackets packets => exact hAdd packets
      | movePackets packets =>
          show (if (m.movePackets packets).becameFull then some true else none) =
            if (m.movePackets packets).manager.isFull = m.isFull then none
            else some (m.movePackets packets).manager.isFull
          rw [movePackets_becameFull, InputStreamManager.movePackets_manager]
          exact hAdd packets
      | setNextTimestampBound bound =>
          refine hSame (Bool.eq_iff_iff.mpr ?_) rfl
          simpa [Operation.Fills, Operation.Drains] using hApply
      | close =>
          refine hSame (Bool.eq_iff_iff.mpr ?_) rfl
          simpa [Operation.Fills, Operation.Drains] using hApply
  | popPacketAtTimestamp timestamp =>
      exact report_drained fun hFull => (isFull_popPacketAtTimestamp.mp hFull).1
  | popQueueHead =>
      refine hSame (Bool.eq_iff_iff.mpr ?_) rfl
      have hKept : ¬ Operation.popQueueHead.Drains m := fun hDrains => hTold hDrains rfl
      simpa [Operation.Fills, hKept] using hApply

end GraphRuntime.Stream
