import GraphRuntime.Handler.Readiness

/-!
# The bound of the fixed-size handler

`FixedSizeInputStreamHandler` gives its managers a queue size.  An append does not look
at it: a batch goes into the queue whole, and no path of the handler refuses it.  The one
place where the handler looks for a full queue is its readiness test, which then keeps
the node from emptying it.

So the queues are bounded, and the node can run while they hold something, exactly as long
as every batch leaves its stream below the limit (`bounded_iff`).
-/

namespace GraphRuntime.Handler

open GraphRuntime.Stream Runs
open GraphRuntime.Public (HandlerKind)

variable {h : InputStreamHandler} {m m' : InputStreamManager} {n : Int} {packets : List Packet}

/-- `ScheduleInvocations` with a callback that only counts its calls. -/
def scheduleRecorded (h : InputStreamHandler) (maxAllowance : Int) :
    Scheduling (InputStreamHandler × Nat) :=
  scheduleInvocations Prod.fst (some fun w => (w.1, w.2 + 1)) maxAllowance (h, 0)

/-- The operations of a handler, and of the consumer that pops its managers directly.  The
schedule callback records the node; what is run later are further operations. -/
inductive HandlerCall
  | addPacketsToStream (id : Int) (packets : List Packet)
  | movePacketsToStream (id : Int) (packets : List Packet)
  | setNextTimestampBound (id : Int) (bound : Timestamp)
  | close
  | scheduleInvocations (maxAllowance : Int)
  | fillInputSet (timestamp : Timestamp)
  | popPacketAtTimestamp (id : Int) (timestamp : Timestamp)
  | popQueueHead (id : Int)

def HandlerCall.apply (h : InputStreamHandler) : HandlerCall → InputStreamHandler
  | .addPacketsToStream id packets => (h.addPacketsToStream id packets).2
  | .movePacketsToStream id packets => (h.movePacketsToStream id packets).2
  | .setNextTimestampBound id bound => h.setNextTimestampBound id bound
  | .close => h.close
  | .scheduleInvocations maxAllowance => (scheduleRecorded h maxAllowance).world.1
  | .fillInputSet timestamp => (h.fillInputSet timestamp {}).1
  | .popPacketAtTimestamp id timestamp =>
      h.modifyManager id fun mgr => (mgr.popPacketAtTimestamp timestamp).manager
  | .popQueueHead id => h.modifyManager id fun mgr => mgr.popQueueHead.2.2

/-! ## What a call does to a stream -/

theorem scheduleLoop_record {allowance : Nat} (s : Scheduling (InputStreamHandler × Nat)) :
    (scheduleLoop Prod.fst (some fun w : InputStreamHandler × Nat => (w.1, w.2 + 1))
      allowance s).world.1 = s.world.1 := by
  induction allowance generalizing s with
  | zero => rfl
  | succ allowance ih =>
      unfold scheduleLoop
      simp only
      split
      · exact ih _
      · rfl
      · rfl

theorem scheduleRecorded_world (h : InputStreamHandler) (maxAllowance : Int) :
    (scheduleRecorded h maxAllowance).world.1 = h :=
  scheduleLoop_record _

theorem streams_close (h : InputStreamHandler) :
    h.close.streams = h.streams.map fun mgr => mgr.close.1 := by
  unfold InputStreamHandler.streams InputStreamHandler.close
  cases h.managers <;> rfl

theorem streams_modifyManager (h : InputStreamHandler) (id : Int)
    (f : InputStreamManager → InputStreamManager) :
    (h.modifyManager id f).streams = h.streams.modify id.toNat f := by
  unfold InputStreamHandler.streams InputStreamHandler.modifyManager
  cases h.managers <;> simp

theorem getElem?_of_manager? {id : Int} (hFound : h.manager? id = some m) :
    h.streams[id.toNat]? = some m := by
  unfold InputStreamHandler.manager? at hFound
  split at hFound
  · exact absurd hFound (by simp)
  · exact hFound

theorem addToStream_of_found {add : InputStreamManager → AddResult} {id : Int}
    (hFound : h.manager? id = some m) :
    (InputStreamHandler.addToStream add h id).2 =
      h.modifyManager id fun mgr => (add mgr).manager := by
  simp [InputStreamHandler.addToStream, hFound]

/-- A change to one stream leaves the others as they are. -/
theorem mem_modifyManager {id : Int} {f : InputStreamManager → InputStreamManager}
    (hMem : m' ∈ (h.modifyManager id f).streams) :
    ∃ m ∈ h.streams, h.streams[id.toNat]? = some m ∧ m' = f m ∨ m' = m := by
  rw [streams_modifyManager] at hMem
  obtain ⟨i, hGet⟩ := List.mem_iff_getElem?.mp hMem
  rw [List.getElem?_modify] at hGet
  obtain ⟨m, hAt, hEq⟩ := Option.map_eq_some_iff.mp hGet
  refine ⟨m, List.mem_of_getElem? hAt, ?_⟩
  by_cases hIndex : id.toNat = i
  · rw [if_pos hIndex] at hEq
    exact Or.inl ⟨hIndex ▸ hAt, hEq.symm⟩
  · rw [if_neg hIndex] at hEq
    exact Or.inr hEq.symm

/-- A call that puts `packets` into stream `m`. -/
def HandlerCall.AddsTo (h : InputStreamHandler) (m : InputStreamManager) (packets : List Packet)
    (call : HandlerCall) : Prop :=
  ∃ id, h.manager? id = some m ∧
    (call = .addPacketsToStream id packets ∨ call = .movePacketsToStream id packets)

/-- The streams after a call: each is as it was, or an operation was applied to it, which
brings packets only if the call adds them. -/
theorem HandlerCall.mem_apply {call : HandlerCall} (hMem : m' ∈ (call.apply h).streams) :
    ∃ m ∈ h.streams, m' = m ∨
      ∃ op : Operation, m' = op.apply m ∧ (op.batch = [] ∨ call.AddsTo h m op.batch) := by
  have hConsume : ∀ (id : Int) (op : Operation), op.batch = [] →
      m' ∈ (h.modifyManager id (Operation.apply · op)).streams →
      ∃ m ∈ h.streams, m' = m ∨
        ∃ op : Operation, m' = op.apply m ∧ (op.batch = [] ∨ call.AddsTo h m op.batch) := by
    intro id op hNone hIn
    obtain ⟨m, hOld, ⟨-, hEq⟩ | hEq⟩ := mem_modifyManager hIn
    · exact ⟨m, hOld, Or.inr ⟨op, hEq, Or.inl hNone⟩⟩
    · exact ⟨m, hOld, Or.inl hEq⟩
  have hAdd : ∀ (id : Int) (op : Operation) (add : InputStreamManager → AddResult),
      (∀ m, (add m).manager = op.apply m) →
      (∀ m, h.manager? id = some m → call.AddsTo h m op.batch) →
      m' ∈ (InputStreamHandler.addToStream add h id).2.streams →
      ∃ m ∈ h.streams, m' = m ∨
        ∃ op : Operation, m' = op.apply m ∧ (op.batch = [] ∨ call.AddsTo h m op.batch) := by
    intro id op add hApply hAdds hIn
    cases hFound : h.manager? id with
    | none =>
        simp only [InputStreamHandler.addToStream, hFound] at hIn
        exact ⟨m', hIn, Or.inl rfl⟩
    | some mgr =>
        rw [addToStream_of_found hFound, funext hApply] at hIn
        obtain ⟨m, hOld, ⟨hAt, hEq⟩ | hEq⟩ := mem_modifyManager hIn
        · obtain rfl : mgr = m :=
            Option.some.inj ((getElem?_of_manager? hFound).symm.trans hAt)
          exact ⟨mgr, hOld, Or.inr ⟨op, hEq, Or.inr (hAdds mgr hFound)⟩⟩
        · exact ⟨m, hOld, Or.inl hEq⟩
  cases call with
  | addPacketsToStream id packets =>
      exact hAdd id (.produce (.addPackets packets)) _ (fun _ => rfl)
        (fun m hFound => ⟨id, hFound, Or.inl rfl⟩) hMem
  | movePacketsToStream id packets =>
      exact hAdd id (.produce (.movePackets packets)) _ (fun _ => rfl)
        (fun m hFound => ⟨id, hFound, Or.inr rfl⟩) hMem
  | setNextTimestampBound id bound =>
      simp only [apply, InputStreamHandler.setNextTimestampBound] at hMem
      split at hMem
      · exact ⟨m', hMem, Or.inl rfl⟩
      · exact hConsume id (.produce (.setNextTimestampBound bound)) rfl hMem
  | close =>
      simp only [apply, streams_close] at hMem
      obtain ⟨m, hOld, rfl⟩ := List.mem_map.mp hMem
      exact ⟨m, hOld, Or.inr ⟨.produce .close, rfl, Or.inl rfl⟩⟩
  | scheduleInvocations maxAllowance =>
      simp only [apply, scheduleRecorded_world] at hMem
      exact ⟨m', hMem, Or.inl rfl⟩
  | fillInputSet timestamp =>
      simp only [apply, streams_fillInputSet] at hMem
      obtain ⟨m, hOld, rfl⟩ := List.mem_map.mp hMem
      exact ⟨m, hOld, Or.inr ⟨.popPacketAtTimestamp timestamp, rfl, Or.inl rfl⟩⟩
  | popPacketAtTimestamp id timestamp =>
      exact hConsume id (.popPacketAtTimestamp timestamp) rfl hMem
  | popQueueHead id => exact hConsume id .popQueueHead rfl hMem

theorem HandlerCall.kind_apply (call : HandlerCall) : (call.apply h).kind = h.kind := by
  have hAdd : ∀ (add : InputStreamManager → AddResult) id,
      (InputStreamHandler.addToStream add h id).2.kind = h.kind := by
    intro add id
    unfold InputStreamHandler.addToStream
    split <;> rfl
  cases call with
  | addPacketsToStream id packets => exact hAdd _ id
  | movePacketsToStream id packets => exact hAdd _ id
  | setNextTimestampBound id bound =>
      simp only [apply, InputStreamHandler.setNextTimestampBound]
      split <;> rfl
  | scheduleInvocations maxAllowance =>
      simp only [apply, scheduleRecorded_world]
  | close => rfl
  | fillInputSet timestamp => rfl
  | popPacketAtTimestamp id timestamp => rfl
  | popQueueHead id => rfl

/-! ## The bound -/

/-- What the handler is for: no queue exceeds the limit, and a node with something in its
queues is ready. -/
structure Bounded (n : Int) (h : InputStreamHandler) : Prop where
  bound : ∀ m ∈ h.streams, (m.queue.length : Int) ≤ n
  ready : (∃ m ∈ h.streams, m.queue ≠ []) → ∀ ts, (h.getNodeReadiness ts).1 = .readyForProcess

/-- A batch for an open stream leaves it below the limit. -/
def HandlerCall.KeepsBelow (n : Int) (h : InputStreamHandler) : HandlerCall → Prop
  | .addPacketsToStream id packets | .movePacketsToStream id packets =>
      ∀ m, h.manager? id = some m →
        m.closed = true ∨ (m.queue.length : Int) + packets.length < n
  | _ => True

theorem HandlerCall.keepsBelow_iff {call : HandlerCall} :
    call.KeepsBelow n h ↔ ∀ m packets, call.AddsTo h m packets →
      m.closed = true ∨ (m.queue.length : Int) + packets.length < n := by
  constructor
  · rintro hKeeps m packets ⟨id, hFound, rfl | rfl⟩
    · exact hKeeps m hFound
    · exact hKeeps m hFound
  · intro hAdds
    cases call with
    | addPacketsToStream id packets =>
        exact fun m hFound => hAdds m packets ⟨id, hFound, Or.inl rfl⟩
    | movePacketsToStream id packets =>
        exact fun m hFound => hAdds m packets ⟨id, hFound, Or.inr rfl⟩
    | _ => trivial

/-- A fixed-size handler all of whose streams are below the limit. -/
structure Below (n : Int) (h : InputStreamHandler) : Prop where
  kind : h.kind = .fixedSize n
  limit : ∀ m ∈ h.streams, m.maxQueueSize = n
  length : ∀ m ∈ h.streams, (m.queue.length : Int) < n

theorem getNodeReadiness_of_kind (hKind : h.kind = .fixedSize n) (ts : Timestamp) :
    h.getNodeReadiness ts = FixedSizeInputStreamHandler.getNodeReadiness h.streams := by
  simp [InputStreamHandler.getNodeReadiness, hKind]

theorem Below.bounded (hBelow : Below n h) : Bounded n h := by
  refine ⟨fun m hMem => (hBelow.length m hMem).le, ?_⟩
  intro hSome ts
  have hRoom : ∀ m ∈ h.streams, m.isFull = false := by
    intro m hMem
    simp [InputStreamManager.isFull, hBelow.limit m hMem, hBelow.length m hMem]
  have hReady := fixedSize_ready_iff.mpr ⟨hRoom, hSome, rfl⟩
  rw [getNodeReadiness_of_kind hBelow.kind, hReady]

/-- A stream that has reached the limit holds packets, and keeps its node from them. -/
theorem not_bounded_of_full (hPositive : 0 < n) (hKind : h.kind = .fixedSize n)
    (hMem : m ∈ h.streams) (hLimit : m.maxQueueSize = n) (hFull : n ≤ m.queue.length) :
    ¬ Bounded n h := by
  intro hBounded
  have hSome : m.queue ≠ [] := by
    intro hEmpty
    rw [hEmpty, List.length_nil] at hFull
    omega
  have hIsFull : m.isFull = true := by
    simp only [InputStreamManager.isFull, hLimit, Bool.and_eq_true, decide_eq_true_eq]
    omega
  have hReady := hBounded.ready ⟨m, hMem, hSome⟩ Timestamp.unset
  rw [getNodeReadiness_of_kind hKind, FixedSizeInputStreamHandler.getNodeReadiness,
    fixedSize_loop_of_full ⟨m, hMem, hIsFull⟩] at hReady
  exact absurd hReady (by decide)

/-- **One call** keeps the streams below the limit if its batch does. -/
theorem Below.apply {call : HandlerCall} (hBelow : Below n h) (hKeeps : call.KeepsBelow n h) :
    Below n (call.apply h) := by
  refine ⟨(call.kind_apply).trans hBelow.kind, ?_, ?_⟩
  · intro m' hMem
    obtain ⟨m, hOld, rfl | ⟨op, rfl, -⟩⟩ := call.mem_apply hMem
    · exact hBelow.limit m' hOld
    · exact (apply_maxQueueSize m op).trans (hBelow.limit m hOld)
  · intro m' hMem
    obtain ⟨m, hOld, rfl | ⟨op, rfl, hBatch⟩⟩ := call.mem_apply hMem
    · exact hBelow.length m' hOld
    · have hLength := length_apply_le m op
      have hRoom := hBelow.length m hOld
      rcases hBatch with hNone | hAdds
      · rw [hNone] at hLength
        have hSame : (op.apply m).queue.length ≤ m.queue.length := by
          split at hLength <;> exact hLength
        omega
      · rcases HandlerCall.keepsBelow_iff.mp hKeeps m op.batch hAdds with hClosed | hLess
        · rw [if_pos hClosed] at hLength
          omega
        · split at hLength <;> omega

/-- A call that does not fills a stream, and the handler is stuck. -/
theorem Below.not_bounded {call : HandlerCall} (hPositive : 0 < n) (hBelow : Below n h)
    (hBounded : Bounded n (call.apply h)) : call.KeepsBelow n h := by
  refine HandlerCall.keepsBelow_iff.mpr ?_
  rintro m packets ⟨id, hFound, hCall⟩
  by_contra hNot
  obtain ⟨hOpen, hFull⟩ := not_or.mp hNot
  have hAt := getElem?_of_manager? hFound
  have hApply : (m.addPackets packets).manager ∈ (call.apply h).streams := by
    have hStreams : (call.apply h).streams[id.toNat]? = some (m.addPackets packets).manager := by
      rcases hCall with rfl | rfl
      · simp only [HandlerCall.apply, InputStreamHandler.addPacketsToStream]
        rw [addToStream_of_found hFound, streams_modifyManager, List.getElem?_modify_eq, hAt]
        rfl
      · simp only [HandlerCall.apply, InputStreamHandler.movePacketsToStream]
        rw [addToStream_of_found hFound, streams_modifyManager, List.getElem?_modify_eq, hAt]
        simp
    exact List.mem_of_getElem? hStreams
  have hOld := List.mem_of_getElem? hAt
  have hManager := (InputStreamManager.addPackets_of_open
    (Bool.eq_false_of_not_eq_true hOpen) packets).1
  refine not_bounded_of_full hPositive (call.kind_apply.trans hBelow.kind) hApply ?_ ?_ hBounded
  · rw [hManager]
    exact hBelow.limit m hOld
  · rw [hManager, List.length_append]
    omega

/-- **The fixed-size handler bounds its queues and drains them** exactly in the runs in which
every batch leaves its stream below the limit. -/
theorem bounded_iff (n : Int) (ms : List InputStreamManager) (calls : List HandlerCall)
    (hPositive : 0 < n) (hEmpty : ∀ m ∈ ms, m.queue = []) :
    let h := InputStreamHandler.setInputStreamManagers { kind := .fixedSize n } ms
    (∀ pre, pre <+: calls → Bounded n (pre.foldl HandlerCall.apply h)) ↔
      AllMeet HandlerCall.apply (HandlerCall.KeepsBelow n) h calls := by
  intro h
  have hStreams : h.streams = ms.map (FixedSizeInputStreamHandler.limitManager n) := rfl
  have hInit : Below n h := by
    refine ⟨rfl, ?_, ?_⟩
    · rw [hStreams, List.forall_mem_map]
      intro m _
      simp [FixedSizeInputStreamHandler.limitManager, hPositive,
        InputStreamManager.setMaxQueueSize]
    · rw [hStreams, List.forall_mem_map]
      intro m hMem
      simp [FixedSizeInputStreamHandler.limitManager, hPositive,
        InputStreamManager.setMaxQueueSize, hEmpty m hMem]
  exact forall_prefix_iff hInit (fun _ => Below.bounded)
    (fun _ _ hBelow => hBelow.not_bounded hPositive) (fun _ _ hBelow => hBelow.apply)

/-- A limit of one and one stream. -/
private def limitOne : InputStreamHandler :=
  InputStreamHandler.setInputStreamManagers { kind := .fixedSize 1 } [{}]

/-- Three packets go in, and then the node may not run. -/
theorem bounded_overfull :
    let h := HandlerCall.apply limitOne
      (.addPacketsToStream 0 [⟨some 1, .ofValue 1⟩, ⟨some 2, .ofValue 2⟩, ⟨some 3, .ofValue 3⟩])
    h.streams.map (·.queue.length) = [3] ∧
      (h.getNodeReadiness Timestamp.unset).1 = .notReady ∧ ¬ Bounded 1 h := by
  refine ⟨by decide, by decide, ?_⟩
  intro hBounded
  exact absurd (hBounded.bound _ (List.mem_singleton_self _)) (by decide)

/-- With a limit of two a packet and its pop. -/
theorem bounded_limitTwo :
    let h := InputStreamHandler.setInputStreamManagers { kind := .fixedSize 2 } [{}]
    ∀ pre, pre <+: [.addPacketsToStream 0 [⟨some 1, .ofValue 1⟩], .popQueueHead 0] →
      Bounded 2 (pre.foldl HandlerCall.apply h) := by
  refine (bounded_iff 2 [{}] _ (by decide) (by decide)).mpr ⟨?_, trivial, trivial⟩
  intro m hFound
  obtain rfl := Option.some.inj hFound
  exact Or.inr (by decide)

end GraphRuntime.Handler
