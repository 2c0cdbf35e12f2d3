import GraphRuntime.Handler.InputStreamHandler
import GraphRuntime.Stream.Operations

/-!
# What the three handlers answer

The front of a stream is what `MinTimestampOrBound` shows: its head, or else its bound.
The default handler keeps heads and bounds apart; the other two take the least front of
the streams they have looked at, the immediate handler up to the first stream that holds
a packet (`immediate_loop`), the fixed-size handler of all of them (`fixedSize_loop`).

Only the default handler ever answers `kReadyForClose` (`closeReported_iff`).
-/

namespace GraphRuntime.Handler

open GraphRuntime.Stream Runs
open GraphRuntime.Public (HandlerKind)

variable {ms : List InputStreamManager} {m : InputStreamManager} {h : InputStreamHandler}
  {t ts : Timestamp} {context : GraphContext}

/-! ## Streams and their fronts -/

theorem streams_fillInputSet :
    (h.fillInputSet t context).1.streams =
      h.streams.map fun m => (m.popPacketAtTimestamp t).manager := by
  unfold InputStreamHandler.streams InputStreamHandler.fillInputSet SyncSet.popAll
  cases h.managers with
  | none => rfl
  | some managers => simp

def front (m : InputStreamManager) : Timestamp := m.minTimestampOrBound.1

theorem front_of_empty (hEmpty : m.queue = []) : front m = m.nextTimestampBound := by
  simp [front, InputStreamManager.minTimestampOrBound, hEmpty]

theorem front_of_head {p : Packet} (hHead : m.queue.head? = some p) : front m = p.timestamp := by
  obtain ⟨rest, hQueue⟩ := List.head?_eq_some_iff.mp hHead
  simp [front, InputStreamManager.minTimestampOrBound, hQueue]

theorem minTimestampOrBound_eq (m : InputStreamManager) :
    m.minTimestampOrBound = (front m, m.isEmpty) := by
  unfold front InputStreamManager.isEmpty InputStreamManager.minTimestampOrBound
  split <;> simp_all

/-- The least front of some streams. -/
def leastFront (ts : Timestamp) (ms : List InputStreamManager) : Timestamp :=
  (ms.map front).foldl min ts

/-- From `Done` the least front of some streams is the front of one of them. -/
theorem leastFront_eq_iff (hSome : ms ≠ []) :
    leastFront Timestamp.done ms = t ↔ (∃ m ∈ ms, front m = t) ∧ ∀ m ∈ ms, t ≤ front m := by
  have hMin : (Timestamp.done :: ms.map front).min? = some (leastFront Timestamp.done ms) :=
    List.min?_cons'
  obtain ⟨hMem, hLower⟩ := List.min?_eq_some_iff.mp hMin
  have hFronts : ∀ m ∈ ms, leastFront Timestamp.done ms ≤ front m := fun m hIn =>
    hLower _ (List.mem_cons_of_mem _ (List.mem_map_of_mem hIn))
  constructor
  · rintro rfl
    refine ⟨?_, hFronts⟩
    rcases List.mem_cons.mp hMem with hDone | hFront
    · obtain ⟨m, hIn⟩ := List.exists_mem_of_ne_nil ms hSome
      refine ⟨m, hIn, le_antisymm ?_ (hFronts m hIn)⟩
      rw [hDone]
      exact Timestamp.le_done _
    · exact List.mem_map.mp hFront
  · rintro ⟨⟨m, hIn, hAt⟩, hLeast⟩
    refine le_antisymm (hAt ▸ hFronts m hIn) ?_
    rcases List.mem_cons.mp hMem with hDone | hFront
    · rw [hDone]
      exact Timestamp.le_done _
    · obtain ⟨m', hIn', hEq⟩ := List.mem_map.mp hFront
      exact hEq ▸ hLeast m' hIn'

/-! ## The loops -/

/-- The streams the immediate handler looks at: up to the first that holds a packet. -/
def upToFirst : List InputStreamManager → List InputStreamManager
  | [] => []
  | m :: ms => if m.isEmpty then m :: upToFirst ms else [m]

theorem upToFirst_sublist (ms : List InputStreamManager) : (upToFirst ms).Sublist ms := by
  induction ms with
  | nil => exact List.Sublist.slnil
  | cons m ms ih =>
      unfold upToFirst
      split
      · exact ih.cons_cons m
      · exact (List.nil_sublist ms).cons_cons m

theorem upToFirst_ne_nil (hSome : ms ≠ []) : upToFirst ms ≠ [] := by
  cases ms with
  | nil => exact absurd rfl hSome
  | cons m ms =>
      unfold upToFirst
      split <;> exact List.cons_ne_nil _ _

theorem immediate_loop :
    ImmediateInputStreamHandler.readinessLoop ts ms =
      (if ms.all (·.isEmpty) then .notReady else .readyForProcess,
        leastFront ts (upToFirst ms)) := by
  induction ms generalizing ts with
  | nil => rfl
  | cons m ms ih =>
      simp only [ImmediateInputStreamHandler.readinessLoop, minTimestampOrBound_eq, upToFirst]
      cases hEmpty : m.isEmpty with
      | true => simp [ih, hEmpty, leastFront]
      | false => simp [hEmpty, leastFront]

theorem fixedSize_loop_of_full {anyHasData : Bool} (hFull : ∃ m ∈ ms, m.isFull = true) :
    (FixedSizeInputStreamHandler.readinessLoop ts anyHasData ms).1 = .notReady := by
  induction ms generalizing ts anyHasData with
  | nil => simp at hFull
  | cons m ms ih =>
      unfold FixedSizeInputStreamHandler.readinessLoop
      by_cases hFirst : m.isFull = true
      · rw [if_pos hFirst]
      · rw [if_neg hFirst]
        obtain ⟨m', hMem, hFull'⟩ := hFull
        rcases List.mem_cons.mp hMem with rfl | hRest
        · exact absurd hFull' hFirst
        · exact ih ⟨m', hRest, hFull'⟩

theorem fixedSize_loop {anyHasData : Bool} (hRoom : ∀ m ∈ ms, m.isFull = false) :
    FixedSizeInputStreamHandler.readinessLoop ts anyHasData ms =
      (if anyHasData || !ms.all (·.isEmpty) then .readyForProcess else .notReady,
        leastFront ts ms) := by
  induction ms generalizing ts anyHasData with
  | nil => simp [FixedSizeInputStreamHandler.readinessLoop, leastFront]
  | cons m ms ih =>
      obtain ⟨hFirst, hRest⟩ := List.forall_mem_cons.mp hRoom
      simp only [FixedSizeInputStreamHandler.readinessLoop, minTimestampOrBound_eq, hFirst,
        Bool.false_eq_true, if_false]
      rw [ih hRest]
      simp [leastFront, Bool.or_assoc, Bool.not_and]

theorem not_all_isEmpty : ms.all (·.isEmpty) = false ↔ ∃ m ∈ ms, m.queue ≠ [] := by
  simp [InputStreamManager.isEmpty]

/-- **The immediate handler** is ready when some stream holds a packet. -/
theorem immediate_ready_iff :
    ImmediateInputStreamHandler.getNodeReadiness ms = (.readyForProcess, t) ↔
      (∃ m ∈ ms, m.queue ≠ []) ∧ leastFront Timestamp.done (upToFirst ms) = t := by
  rw [ImmediateInputStreamHandler.getNodeReadiness, immediate_loop, Prod.mk.injEq,
    ← not_all_isEmpty]
  cases ms.all (·.isEmpty) <;> simp

/-- **The fixed-size handler** is ready when moreover no stream is full. -/
theorem fixedSize_ready_iff :
    FixedSizeInputStreamHandler.getNodeReadiness ms = (.readyForProcess, t) ↔
      (∀ m ∈ ms, m.isFull = false) ∧ (∃ m ∈ ms, m.queue ≠ []) ∧
        leastFront Timestamp.done ms = t := by
  rw [FixedSizeInputStreamHandler.getNodeReadiness, ← not_all_isEmpty]
  by_cases hFull : ∃ m ∈ ms, m.isFull = true
  · constructor
    · intro hReady
      have hNot : (FixedSizeInputStreamHandler.readinessLoop Timestamp.done false ms).1 =
          .notReady := fixedSize_loop_of_full hFull
      simp [hReady] at hNot
    · intro ⟨hRoom, _⟩
      obtain ⟨m, hMem, hSome⟩ := hFull
      exact absurd (hRoom m hMem) (by simp [hSome])
  · have hRoom : ∀ m ∈ ms, m.isFull = false := by simpa using hFull
    rw [fixedSize_loop hRoom, Prod.mk.injEq, and_iff_right hRoom]
    cases ms.all (·.isEmpty) <;> simp

/-! ## The end of the streams -/

/-- Nothing is queued, and no packet that is allowed in a stream may come. -/
def AllEnded (ms : List InputStreamManager) : Prop :=
  ∀ m ∈ ms, m.queue = [] ∧ Timestamp.oneOverPostStream ≤ m.nextTimestampBound

instance (ms : List InputStreamManager) : Decidable (AllEnded ms) := by
  unfold AllEnded
  infer_instance

theorem postStream_lt_iff : Timestamp.postStream < t ↔ Timestamp.oneOverPostStream ≤ t := by
  rw [Timestamp.lt_iff, Timestamp.le_iff]
  show int64Max - 2 < t.value ↔ int64Max - 1 ≤ t.value
  omega

/-- **The default handler** is ready for close when all its streams have ended. -/
theorem getReadiness_close_iff
    (hAllowed : ∀ m ∈ ms, ∀ p ∈ m.queue, p.timestamp.isAllowedInStream = true) :
    (SyncSet.getReadiness ms).1 = .readyForClose ↔ AllEnded ms := by
  have hTest : (SyncSet.getReadiness ms).1 = .readyForClose ↔
      Timestamp.oneOverPostStream ≤ (SyncSet.minima ms).minPacket ∧
        Timestamp.oneOverPostStream ≤ (SyncSet.minima ms).minBound := by
    rw [← le_min_iff]
    unfold SyncSet.getReadiness
    simp only
    split
    · rename_i hClose
      exact iff_of_true rfl hClose
    · rename_i hOpen
      refine iff_of_false ?_ hOpen
      split
      · simp
      · split <;> simp
  have hHeads : Timestamp.oneOverPostStream ≤ (SyncSet.minima ms).minPacket ↔
      ∀ m ∈ ms, m.queue = [] := by
    refine SyncSet.le_minPacket_foldl.trans ?_
    constructor
    · intro ⟨_, hLater⟩ m hMem
      rcases SyncSet.empty_or_head m with hEmpty | ⟨p, hHead⟩
      · exact hEmpty
      · have hIn := hAllowed m hMem p (List.mem_of_mem_head? hHead)
        exact absurd (hLater m hMem p hHead)
          (not_le.mpr (Timestamp.lt_oneOverPostStream_of_isAllowedInStream hIn))
    · intro hEmpty
      refine ⟨Timestamp.oneOverPostStream_lt_done.le, ?_⟩
      intro m hMem p hHead
      simp [hEmpty m hMem] at hHead
  rw [hTest, hHeads, ← postStream_lt_iff, SyncSet.lt_minBound]
  constructor
  · intro ⟨hEmpty, _, hBounds⟩ m hMem
    exact ⟨hEmpty m hMem, postStream_lt_iff.mp (hBounds m hMem (hEmpty m hMem))⟩
  · intro hEnded
    refine ⟨fun m hMem => (hEnded m hMem).1, by decide, ?_⟩
    intro m hMem _
    exact postStream_lt_iff.mpr (hEnded m hMem).2

theorem immediate_ne_close :
    (ImmediateInputStreamHandler.getNodeReadiness ms).1 ≠ .readyForClose := by
  rw [ImmediateInputStreamHandler.getNodeReadiness, immediate_loop]
  cases ms.all (·.isEmpty) <;> simp

theorem fixedSize_ne_close :
    (FixedSizeInputStreamHandler.getNodeReadiness ms).1 ≠ .readyForClose := by
  rw [FixedSizeInputStreamHandler.getNodeReadiness]
  by_cases hFull : ∃ m ∈ ms, m.isFull = true
  · rw [fixedSize_loop_of_full hFull]
    decide
  · have hRoom : ∀ m ∈ ms, m.isFull = false := by simpa using hFull
    rw [fixedSize_loop hRoom]
    cases ms.all (·.isEmpty) <;> simp

/-- Operation `op.2` on stream `op.1`. -/
def operate (ms : List InputStreamManager) (op : Nat × Operation) : List InputStreamManager :=
  ms.modify op.1 (Operation.apply · op.2)

def operateAll (ms : List InputStreamManager) (ops : List (Nat × Operation)) :
    List InputStreamManager :=
  ops.foldl operate ms

/-- Streams into which only allowed timestamps are put hold no others. -/
theorem allowed_of_operateAll {ops : List (Nat × Operation)} (hFresh : ∀ m ∈ ms, m.queue = [])
    (hAllowed : ∀ op ∈ ops, ∀ p ∈ op.2.batch, p.timestamp.isAllowedInStream = true) :
    ∀ m ∈ operateAll ms ops, ∀ p ∈ m.queue, p.timestamp.isAllowedInStream = true := by
  have hInit : ∀ m ∈ ms, ∀ p ∈ m.queue, p.timestamp.isAllowedInStream = true := by
    intro m hMem p hIn
    simp [hFresh m hMem] at hIn
  clear hFresh
  unfold operateAll
  induction ops generalizing ms with
  | nil => exact hInit
  | cons op ops ih =>
      obtain ⟨hFirst, hRest⟩ := List.forall_mem_cons.mp hAllowed
      refine ih hRest ?_
      intro m' hMem' p hIn
      obtain ⟨i, hGet⟩ := List.mem_iff_getElem?.mp hMem'
      rw [operate, List.getElem?_modify] at hGet
      obtain ⟨m, hAt, rfl⟩ := Option.map_eq_some_iff.mp hGet
      have hMem := List.mem_of_getElem? hAt
      by_cases hIndex : op.1 = i
      · rw [if_pos hIndex] at hIn
        rcases mem_apply_queue hIn with hOld | hNew
        · exact hInit m hMem p hOld
        · exact hFirst p hNew
      · rw [if_neg hIndex] at hIn
        exact hInit m hMem p hIn

/-- The end of the streams is reported, and only that. -/
structure CloseReported (h : InputStreamHandler) : Prop where
  close : ∀ ts, (h.getNodeReadiness ts).1 = .readyForClose ↔ AllEnded h.streams
  notLeft : AllEnded h.streams → ∀ ts, (h.getNodeReadiness ts).1 ≠ .notReady

/-- **The end of the streams is reported** by the default handler; the other two report
it at no time, so that they are right only while some stream has not ended. -/
theorem closeReported_iff (kind : HandlerKind) (ms : List InputStreamManager)
    (ops : List (Nat × Operation)) (hFresh : ∀ m ∈ ms, m.queue = [])
    (hAllowed : ∀ op ∈ ops, ∀ p ∈ op.2.batch, p.timestamp.isAllowedInStream = true) :
    CloseReported { kind, managers := some (operateAll ms ops) } ↔
      kind = .default ∨ ¬ AllEnded (operateAll ms ops) := by
  have hQueued := allowed_of_operateAll hFresh hAllowed
  generalize operateAll ms ops = streams at hQueued
  have hNever : ∀ h : InputStreamHandler, h.streams = streams →
      (∀ ts, (h.getNodeReadiness ts).1 ≠ .readyForClose) →
      (CloseReported h ↔ ¬ AllEnded streams) := by
    rintro h rfl hNe
    constructor
    · intro hReported hEnded
      exact hNe Timestamp.unset ((hReported.close Timestamp.unset).mpr hEnded)
    · intro hNot
      exact ⟨fun ts => iff_of_false (hNe ts) hNot, fun hEnded => absurd hEnded hNot⟩
  cases kind with
  | default =>
      refine iff_of_true ⟨fun ts => getReadiness_close_iff hQueued, ?_⟩ (Or.inl rfl)
      intro hEnded ts hNot
      have hClose : (SyncSet.getReadiness streams).1 = .readyForClose :=
        (getReadiness_close_iff hQueued).mpr hEnded
      exact absurd (hClose.symm.trans hNot) (by decide)
  | immediate =>
      simpa using hNever { kind := .immediate, managers := some streams } rfl
        fun ts => immediate_ne_close
  | fixedSize maxQueueSize =>
      simpa using hNever { kind := .fixedSize maxQueueSize, managers := some streams } rfl
        fun ts => fixedSize_ne_close

/-- One stream that got a packet, lost it to its consumer and was closed. -/
private def closedStream : List (Nat × Operation) :=
  [(0, .produce (.addPackets [⟨some 1, .ofValue 5⟩])), (0, .popQueueHead),
    (0, .produce .close)]

/-- The default handler reports it. -/
theorem closeReported_default :
    CloseReported { kind := .default, managers := some (operateAll [{}] closedStream) } :=
  (closeReported_iff .default [{}] closedStream (by decide) (by decide)).mpr (Or.inl rfl)

/-- The immediate handler answers that the node is not ready. -/
theorem closeReported_immediate :
    let h : InputStreamHandler :=
      { kind := .immediate, managers := some (operateAll [{}] closedStream) }
    (h.getNodeReadiness Timestamp.unset).1 = .notReady ∧ ¬ CloseReported h := by
  refine ⟨by decide, ?_⟩
  intro hReported
  exact hReported.notLeft (by decide) Timestamp.unset (by decide)

end GraphRuntime.Handler
