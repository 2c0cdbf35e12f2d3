import GraphRuntime.Handler.Readiness

/-!
# What `FillInputSet` takes, and where it goes

`FillInputSet(t)` takes from each stream the head that is not past `t`.  So a handler
that is ready at `t` makes progress, and at `t` alone, exactly when `t` is the least
head (`makesProgress_iff_least`).  The default handler answers with the least head; the
other two let the bound of an empty stream come in, and the immediate handler does not
look at all streams (`progress_iff`).

What is taken is dropped: no shard of the context is filled (`conserves_iff`).
-/

namespace GraphRuntime.Handler

open GraphRuntime.Stream
open GraphRuntime.Public (HandlerKind)

variable {ms seen : List InputStreamManager} {h h' : InputStreamHandler} {t ts : Timestamp}
  {context : GraphContext}

/-! ## What is taken -/

/-- The packets stream `i` has lost from its front. -/
def removedFrom (h h' : InputStreamHandler) (i : Nat) : List Packet :=
  match h.streams[i]?, h'.streams[i]? with
  | some m, some m' => m.queue.take (m.queue.length - m'.queue.length)
  | _, _ => []

/-- The head of a stream is taken when it is not past `t`, and nothing else is. -/
theorem mem_removedFrom_fillInputSet {i : Nat} {p : Packet} :
    p ∈ removedFrom h (h.fillInputSet t context).1 i ↔
      ∃ m, h.streams[i]? = some m ∧ m.queue.head? = some p ∧ p.timestamp ≤ t := by
  unfold removedFrom
  rw [streams_fillInputSet, List.getElem?_map]
  cases hGet : h.streams[i]? with
  | none => simp
  | some m =>
      have hTaken : m.queue.take (m.queue.length -
          (m.popPacketAtTimestamp t).manager.queue.length) = (m.takeHead t).1.toList := by
        have hSplit := popPacketAtTimestamp_queue m t
        have hLength := congrArg List.length hSplit
        rw [List.length_append] at hLength
        have hCount : m.queue.length - (m.popPacketAtTimestamp t).manager.queue.length =
            (m.takeHead t).1.toList.length := by omega
        rw [hCount]
        exact List.prefix_iff_eq_take.mp ⟨_, hSplit⟩ |>.symm
      simp only [Option.map_some, hTaken, takeHead_eq, Option.mem_toList,
        Option.filter_eq_some_iff, Option.some.injEq, exists_eq_left', decide_eq_true_eq]

/-- A call takes something, and only packets at `t`. -/
structure MakesProgress (h : InputStreamHandler) (t : Timestamp) (context : GraphContext) :
    Prop where
  some : ∃ i p, p ∈ removedFrom h (h.fillInputSet t context).1 i
  only : ∀ i, ∀ p ∈ removedFrom h (h.fillInputSet t context).1 i, p.timestamp = t

/-- **Progress at `t`** means that `t` is the least head. -/
theorem makesProgress_iff_least :
    MakesProgress h t context ↔
      Merge.Least Packet.timestamp (SyncSet.queues h.streams) t := by
  have hHead : ∀ {m p}, m ∈ h.streams → m.queue.head? = some p → p.timestamp ≤ t →
      ∃ i, p ∈ removedFrom h (h.fillInputSet t context).1 i := by
    intro m p hMem hHead hLe
    obtain ⟨i, hGet⟩ := List.mem_iff_getElem?.mp hMem
    exact ⟨i, mem_removedFrom_fillInputSet.mpr ⟨m, hGet, hHead, hLe⟩⟩
  constructor
  · intro ⟨⟨i, p, hTaken⟩, hOnly⟩
    obtain ⟨m, hGet, hFront, -⟩ := mem_removedFrom_fillInputSet.mp hTaken
    refine ⟨⟨m.queue, List.mem_map_of_mem (List.mem_of_getElem? hGet), p, hFront,
      hOnly i p hTaken⟩, ?_⟩
    intro l hList q hFront'
    obtain ⟨m', hMem', rfl⟩ := List.mem_map.mp hList
    by_contra hBefore
    have hLt : q.timestamp < t := not_le.mp hBefore
    obtain ⟨j, hTaken'⟩ := hHead hMem' hFront' hLt.le
    exact hLt.ne (hOnly j q hTaken')
  · intro ⟨⟨l, hList, p, hFront, hAt⟩, hLower⟩
    obtain ⟨m, hMem, rfl⟩ := List.mem_map.mp hList
    obtain ⟨i, hTaken⟩ := hHead hMem hFront hAt.le
    refine ⟨⟨i, p, hTaken⟩, ?_⟩
    intro j q hTaken'
    obtain ⟨m', hGet', hFront', hLe⟩ := mem_removedFrom_fillInputSet.mp hTaken'
    exact le_antisymm hLe
      (hLower m'.queue (List.mem_map_of_mem (List.mem_of_getElem? hGet')) q hFront')

/-! ## Ready means progress -/

/-- The least of the fronts seen is the least head of all streams if that is among them
and no empty stream has an earlier bound. -/
theorem least_leastFront_iff (hSub : ∀ m ∈ seen, m ∈ ms) (hSeen : seen ≠ [])
    (hSome : ∃ m ∈ ms, m.queue ≠ []) :
    Merge.Least Packet.timestamp (SyncSet.queues ms) (leastFront Timestamp.done seen) ↔
      ∀ u, Merge.Least Packet.timestamp (SyncSet.queues ms) u →
        (∀ m ∈ seen, m.queue = [] → u ≤ m.nextTimestampBound) ∧ ∃ m ∈ seen, front m = u := by
  obtain ⟨hMem, hLower⟩ := (leastFront_eq_iff hSeen).mp rfl
  constructor
  · intro hLeast u hLeast'
    obtain rfl := hLeast.unique hLeast'
    refine ⟨?_, hMem⟩
    intro m hIn hEmpty
    exact front_of_empty hEmpty ▸ hLower m hIn
  · intro hFronts
    obtain ⟨u, hLeast⟩ : ∃ u, Merge.Least Packet.timestamp (SyncSet.queues ms) u := by
      obtain ⟨m, hIn, hQueue⟩ := hSome
      exact Merge.exists_least ⟨m.queue, List.mem_map_of_mem hIn, hQueue⟩
    obtain ⟨hBounds, hAt⟩ := hFronts u hLeast
    have hEq : leastFront Timestamp.done seen = u := by
      refine (leastFront_eq_iff hSeen).mpr ⟨hAt, ?_⟩
      intro m hIn
      rcases SyncSet.empty_or_head m with hEmpty | ⟨p, hHead⟩
      · exact front_of_empty hEmpty ▸ hBounds m hIn hEmpty
      · rw [front_of_head hHead]
        exact hLeast.lower m.queue (List.mem_map_of_mem (hSub m hIn)) p hHead
    exact hEq ▸ hLeast

/-- When a handler that is ready makes progress: the default handler always; the immediate
handler when the least head is among the fronts it has seen, and none of the empty streams
before it has an earlier bound; the fixed-size handler, which has seen all streams, when
none of the empty ones has. -/
def Progressing (h : InputStreamHandler) : Prop :=
  match h.kind with
  | .default => True
  | .immediate => ∀ u, Merge.Least Packet.timestamp (SyncSet.queues h.streams) u →
      (∀ m ∈ upToFirst h.streams, m.queue = [] → u ≤ m.nextTimestampBound) ∧
        ∃ m ∈ upToFirst h.streams, front m = u
  | .fixedSize _ => (∃ m ∈ h.streams, m.isFull = true) ∨
      ∀ u, Merge.Least Packet.timestamp (SyncSet.queues h.streams) u →
        ∀ m ∈ h.streams, m.queue = [] → u ≤ m.nextTimestampBound

theorem progress_default {managers : Option (List InputStreamManager)}
    (hReady : InputStreamHandler.getNodeReadiness { kind := .default, managers } ts =
      (.readyForProcess, t)) :
    MakesProgress { kind := .default, managers } t context := by
  cases managers with
  | none => simp [InputStreamHandler.getNodeReadiness] at hReady
  | some managers =>
      obtain ⟨-, ⟨m, hMem, p, hHead, hAt⟩, hHeads, -⟩ := SyncSet.getReadiness_iff.mp hReady
      refine makesProgress_iff_least.mpr ⟨⟨m.queue, List.mem_map_of_mem hMem, p, hHead, hAt⟩, ?_⟩
      intro l hList q hHead'
      obtain ⟨m', hMem', rfl⟩ := List.mem_map.mp hList
      exact hHeads m' hMem' q hHead'

/-- A stream with the least head has it in front. -/
theorem exists_front_of_least {u : Timestamp}
    (hLeast : Merge.Least Packet.timestamp (SyncSet.queues ms) u) : ∃ m ∈ ms, front m = u := by
  obtain ⟨⟨l, hList, p, hHead, hAt⟩, -⟩ := hLeast
  obtain ⟨m, hMem, rfl⟩ := List.mem_map.mp hList
  exact ⟨m, hMem, (front_of_head hHead).trans hAt⟩

theorem exists_nonempty_of_least {u : Timestamp}
    (hLeast : Merge.Least Packet.timestamp (SyncSet.queues ms) u) :
    ∃ m ∈ ms, m.queue ≠ [] := by
  obtain ⟨⟨l, hList, p, hHead, -⟩, -⟩ := hLeast
  obtain ⟨m, hMem, rfl⟩ := List.mem_map.mp hList
  exact ⟨m, hMem, List.ne_nil_of_mem (List.mem_of_mem_head? hHead)⟩

/-- **Ready means progress** for the default handler, and for the others exactly where the
bounds of the empty streams do not come before the least head. -/
theorem progress_iff (h : InputStreamHandler) (context : GraphContext) :
    (∀ ts t, h.getNodeReadiness ts = (.readyForProcess, t) → MakesProgress h t context) ↔
      Progressing h := by
  obtain ⟨kind, managers⟩ := h
  generalize hStreams : managers.getD [] = ms
  have hEq : InputStreamHandler.streams { kind, managers } = ms := hStreams
  simp only [makesProgress_iff_least, hEq, Progressing]
  cases kind with
  | default =>
      refine iff_of_true (fun ts t hReady => ?_) trivial
      have hProgress : MakesProgress _ t context := progress_default hReady
      exact hEq ▸ makesProgress_iff_least.mp hProgress
  | immediate =>
      have hAnswer : ∀ ts, InputStreamHandler.getNodeReadiness
          { kind := .immediate, managers } ts =
            ImmediateInputStreamHandler.getNodeReadiness ms := fun _ => hStreams ▸ rfl
      simp only [hAnswer, immediate_ready_iff]
      have hSub : ∀ m ∈ upToFirst ms, m ∈ ms := fun m hMem =>
        (upToFirst_sublist ms).subset hMem
      have hSeen : (∃ m ∈ ms, m.queue ≠ []) → upToFirst ms ≠ [] := fun ⟨_, hMem, _⟩ =>
        upToFirst_ne_nil (List.ne_nil_of_mem hMem)
      constructor
      · intro hProgress u hLeast
        have hSome := exists_nonempty_of_least hLeast
        exact (least_leastFront_iff hSub (hSeen hSome) hSome).mp
          (hProgress Timestamp.unset _ ⟨hSome, rfl⟩) u hLeast
      · rintro hFronts ts t ⟨hSome, rfl⟩
        exact (least_leastFront_iff hSub (hSeen hSome) hSome).mpr hFronts
  | fixedSize maxQueueSize =>
      have hAnswer : ∀ ts, InputStreamHandler.getNodeReadiness
          { kind := .fixedSize maxQueueSize, managers } ts =
            FixedSizeInputStreamHandler.getNodeReadiness ms := fun _ => hStreams ▸ rfl
      simp only [hAnswer, fixedSize_ready_iff]
      by_cases hFull : ∃ m ∈ ms, m.isFull = true
      · refine iff_of_true ?_ (Or.inl hFull)
        rintro ts t ⟨hRoom, -⟩
        obtain ⟨m, hMem, hSome⟩ := hFull
        exact absurd (hRoom m hMem) (by simp [hSome])
      · have hRoom : ∀ m ∈ ms, m.isFull = false := by simpa using hFull
        have hSeen : (∃ m ∈ ms, m.queue ≠ []) → ms ≠ [] := fun ⟨_, hMem, _⟩ =>
          List.ne_nil_of_mem hMem
        rw [or_iff_right hFull]
        constructor
        · intro hProgress u hLeast
          have hSome := exists_nonempty_of_least hLeast
          exact ((least_leastFront_iff (fun _ => id) (hSeen hSome) hSome).mp
            (hProgress Timestamp.unset _ ⟨hRoom, hSome, rfl⟩) u hLeast).1
        · rintro hBounds ts t ⟨-, hSome, rfl⟩
          refine (least_leastFront_iff (fun _ => id) (hSeen hSome) hSome).mpr ?_
          intro u hLeast
          exact ⟨hBounds u hLeast, exists_front_of_least hLeast⟩

/-- One fresh stream before one that holds a packet at 5. -/
private def freshFirst : InputStreamHandler :=
  { kind := .immediate, managers := some [{}, { queue := [⟨some 1, .ofValue 5⟩] }] }

/-- The immediate handler is ready at the bound of the fresh stream, where it takes nothing. -/
theorem progress_fresh :
    freshFirst.getNodeReadiness Timestamp.unset = (.readyForProcess, Timestamp.preStream) ∧
      ¬ MakesProgress freshFirst Timestamp.preStream {} := by
  refine ⟨by decide, ?_⟩
  intro hProgress
  obtain ⟨⟨l, hList, p, hHead, hAt⟩, -⟩ := makesProgress_iff_least.mp hProgress
  revert hAt
  have hQueues : SyncSet.queues freshFirst.streams = [[], [⟨some 1, .ofValue 5⟩]] := rfl
  rw [hQueues] at hList
  rcases List.mem_cons.mp hList with rfl | hRest
  · simp at hHead
  · obtain rfl := List.mem_singleton.mp hRest
    obtain rfl : (⟨some 1, .ofValue 5⟩ : Packet) = p := Option.some.inj hHead
    decide

/-! ## No packet disappears -/

/-- What a call takes from a stream is in the shard of that stream's port afterwards, and
the rest is still in its queue. -/
def Conserves (port : Nat → String) (h : InputStreamHandler) (t : Timestamp)
    (context : GraphContext) : Prop :=
  let (h', context') := h.fillInputSet t context
  ∀ i m, h.streams[i]? = some m → ∃ m' taken, h'.streams[i]? = some m' ∧
    m.queue = taken ++ m'.queue ∧ ∀ p ∈ taken, p ∈ (context'.inputs (port i)).packetQueue

/-- **Packets are conserved** only where none is taken, or where the shard held the packet
before. -/
theorem conserves_iff (port : Nat → String) (h : InputStreamHandler) (t : Timestamp)
    (context : GraphContext) :
    Conserves port h t context ↔
      ∀ i m p, h.streams[i]? = some m → m.queue.head? = some p → p.timestamp ≤ t →
        p ∈ (context.inputs (port i)).packetQueue := by
  have hAfter : ∀ (i : Nat) (m : InputStreamManager), h.streams[i]? = some m →
      (h.fillInputSet t context).1.streams[i]? = some (m.popPacketAtTimestamp t).manager := by
    intro i m hGet
    rw [streams_fillInputSet, List.getElem?_map, hGet, Option.map_some]
  constructor
  · intro hConserves i m p hGet hHead hLe
    obtain ⟨m', taken, hGet', hQueue, hShard⟩ := hConserves i m hGet
    obtain rfl : (m.popPacketAtTimestamp t).manager = m' :=
      Option.some.inj ((hAfter i m hGet).symm.trans hGet')
    have hTaken : taken = [p] := by
      have hSplit := popPacketAtTimestamp_queue m t
      rw [takeHead_eq, hHead, Option.filter_some_pos (by simpa using hLe)] at hSplit
      exact List.append_cancel_right (hQueue.symm.trans hSplit.symm)
    exact hShard p (by simp [hTaken])
  · intro hHeld i m hGet
    refine ⟨_, (m.takeHead t).1.toList, hAfter i m hGet, (popPacketAtTimestamp_queue m t).symm, ?_⟩
    intro p hTaken
    rw [takeHead_eq, Option.mem_toList, Option.filter_eq_some_iff] at hTaken
    exact hHeld i m p hGet hTaken.1 (by simpa using hTaken.2)

/-- One stream with a packet at 5, and a call for 5. -/
theorem conserves_one :
    let h : InputStreamHandler :=
      { kind := .default, managers := some [{ queue := [⟨some 1, .ofValue 5⟩] }] }
    (h.fillInputSet (.ofValue 5) {}).1.streams.map (·.queue) = [[]] ∧
      ¬ Conserves (fun _ => "in") h (.ofValue 5) {} := by
  intro h
  refine ⟨by decide, ?_⟩
  intro hConserves
  obtain ⟨m', taken, hAfter, hQueue, hShard⟩ :=
    hConserves 0 { queue := [⟨some 1, .ofValue 5⟩] } rfl
  have hEmpty : m'.queue = [] := congrArg InputStreamManager.queue (Option.some.inj hAfter).symm
  rw [hEmpty, List.append_nil] at hQueue
  exact absurd (hShard ⟨some 1, .ofValue 5⟩ (hQueue ▸ List.mem_singleton_self _))
    List.not_mem_nil

end GraphRuntime.Handler
