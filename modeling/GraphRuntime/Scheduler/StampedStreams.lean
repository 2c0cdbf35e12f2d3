import GraphRuntime.Scheduler.StampingSteps

/-!
# Streams of a node that stamps its outputs

As long as no worker takes up the node while an earlier call of it is closing its
outputs, the managers of the node belong to one call at a time (`stamping`), and every
step is legal for its streams (`legal_of_step`).

* `stamped_streams_legal`: the queue of a consumer has increasing timestamps, and bounds
  and packets follow each other.
* `stamped_after_done`: without the condition a packet comes after `Done`.
-/

namespace GraphRuntime.Scheduler

open GraphRuntime.Stream Interleaving

section

variable {g : Graph} {outputs : OutId → OutputStreamManager} {n : NodeId} {s s' : Shared}
  {f : Frame} {fs A B : List Frame} {x : Choice} {defaultQueue : QueueId} {callback : Bool}
  {c c' : Config Shared Frame}

/-- The node stamps its outputs, and is not taken up while an earlier call of it is
closing them. -/
def stampingGuard (g : Graph) (n : NodeId) : Guard Shared Frame Choice Call :=
  (stampsInputs n).and (closesAlone g n)

/-! ## One call at a time -/

/-- **The step of a call in its course.** -/
theorem Course.exec {below : List Frame} (hFeeder : SoleFeeder g outputs n)
    (hGrounded : Grounded g outputs n s (A ++ f :: (below ++ B)))
    (hCourse : Course g outputs n s (f :: below))
    (hGuard : (stampingGuard g n).exec s (A ++ (below ++ B)) f x = true)
    (hStep : Scheduler.exec g s f x = some (s', fs)) : Settles g outputs n s' (fs ++ below) := by
  obtain ⟨hStamps, hAlone⟩ := Bool.and_eq_true_iff.mp hGuard
  -- a frame of the stack without a part in the streams has the call below it
  have hAside : f.Aside g outputs n →
      Untouching g outputs n s s' ∧ ∀ f' ∈ fs, f'.Aside g outputs n := by
    intro hHere
    refine aside_step hFeeder hGrounded hAlone ?_ hHere hStep
    obtain ⟨r, pc, hMem, hNode, hBusy⟩ := hCourse.busy
    refine ⟨r, pc, ?_, hNode, hBusy⟩
    rcases List.mem_cons.mp hMem with rfl | hBelow
    · exact absurd ((hHere.2 hNode).symm.trans hBusy) Bool.noConfusion
    · exact List.mem_append_right _ (List.mem_append_left _ hBelow)
  obtain ⟨above, work, hStack, hAbove, hWorking⟩ := hCourse
  cases above with
  | cons h above =>
      rw [List.cons_append] at hStack
      obtain ⟨rfl, rfl⟩ := List.cons.inj hStack
      obtain ⟨hTop, hRest⟩ := List.forall_mem_cons.mp hAbove
      obtain ⟨hSame, hNew⟩ := hAside hTop
      refine Or.inr ⟨fs ++ above, work, (List.append_assoc ..).symm, ?_, hWorking.untouched hSame⟩
      rw [List.forall_mem_append]
      exact ⟨hNew, hRest⟩
  | nil =>
      rw [List.nil_append] at hStack
      subst hStack
      generalize hAll : f :: below = stack at hWorking
      cases hWorking with
      | calling r pc post hNode hStage hPost =>
          obtain ⟨rfl, rfl⟩ := List.cons.inj hAll
          exact run_step hFeeder hGrounded hNode hStage hPost hStamps hStep
      | sending h p left o r rest status post hNode hFrame hLeft hSending hPosting hPost =>
          obtain ⟨rfl, rfl⟩ := List.cons.inj hAll
          exact Or.inr (sending_step hFeeder hGrounded.high hNode hFrame hSending hPosting hLeft
            hPost hStep)
      | closing above r rest stopped post hNode hEmpty hSubset hAbove hClosing hPost =>
          exact closing_step hGrounded.wired hNode hEmpty hSubset hAbove hClosing hPost hAll hAside
            hStep

/-- **The managers of the node belong to one call at a time.** -/
theorem stamping (hFeeder : SoleFeeder g outputs n) :
    Ownership (machine g) (stampingGuard g n) (Grounded g outputs n)
      (Frame.Aside g outputs n) (Resting g outputs n) (Course g outputs n) where
  enters := by
    intro s A f below B x s' fs hGrounded hResting hAside hGuard hStep
    have hHere : f.Aside g outputs n := hAside f mem_running
    have hSame := hHere.untouching hFeeder hStep
    have hResting' := hResting.untouched hSame
    have hBelow : ∀ h ∈ below, h.Aside g outputs n := fun h hMem =>
      hAside h (List.mem_append_right _ (List.mem_cons_of_mem f (List.mem_append_left _ hMem)))
    rcases aside_of_exec hFeeder hGrounded.wired hHere hStep with hTakes | hLeaves
    · obtain ⟨q, it, queue, rfl, hPop, hNode⟩ := hTakes
      simp only [machine, exec, hPop] at hStep
      cases hStep
      refine Or.inr ⟨[], _, rfl, by simp, .calling _ _ (.onTaskFinished q :: below) hNode ?_ ?_⟩
      · exact ⟨rfl, hResting', fun _ _ => rfl⟩
      · rw [List.forall_mem_cons]
        exact ⟨trivial, hBelow⟩
    · exact Or.inl ⟨hResting', hLeaves⟩
  beside := by
    intro s A f below B x s' fs stack hGrounded hCourse hSubset hHere hGuard hStep
    obtain ⟨-, hAlone⟩ := Bool.and_eq_true_iff.mp hGuard
    obtain ⟨r, pc, hMem, hNode, hBusy⟩ := hCourse.busy
    have hOther : .run r pc ∈ A ++ (below ++ B) := by
      rcases List.mem_append.mp (hSubset hMem) with hBefore | hAfter
      · exact List.mem_append_left _ hBefore
      · exact List.mem_append_right _ (List.mem_append_right _ hAfter)
    obtain ⟨hSame, hNew⟩ :=
      aside_step hFeeder hGrounded hAlone ⟨r, pc, hOther, hNode, hBusy⟩ hHere hStep
    exact ⟨hCourse.untouched hSame, hNew⟩
  own := by
    intro s A f below B x s' fs hGrounded hCourse hGuard hStep
    exact hCourse.exec hFeeder hGrounded hGuard hStep
  spawns := by
    intro s A b s' fs _ _ hSpawn
    have hSame : Untouching g outputs n s s' := untouching_of_spawn hSpawn
    exact ⟨aside_of_spawn hSpawn, fun hResting => hResting.untouched hSame,
      fun _ hCourse => hCourse.untouched hSame⟩

theorem grounded_of_reaches (hFeeder : SoleFeeder g outputs n)
    (hReach : (machine g).Reaches (stampingGuard g n)
      (started (initial outputs defaultQueue callback)) c) :
    Grounded g outputs n c.shared c.frames := by
  have hTicks : WiredAs outputs c.shared ∧ 0 ≤ ticks g c.shared n ∧
      ticks g c.shared n ≤ 2 ^ 62 := by
    refine Machine.invariant_with (J := Placed g)
      (I := fun s _ => WiredAs outputs s ∧ 0 ≤ ticks g s n ∧ ticks g s n ≤ 2 ^ 62)
      (fun c hReach => placed_of_reaches hReach) ?_ ?_ ?_ hReach
    · refine ⟨fun o => ⟨rfl, rfl⟩, le_rfl, ?_⟩
      show (0 : Int) ≤ 2 ^ 62
      decide
    · intro s A f B x s' fs _ ⟨hWired, hLow, hHigh⟩ hGuard hStep
      obtain ⟨hStamps, -⟩ := Bool.and_eq_true_iff.mp hGuard
      refine ⟨hWired.exec hStep, ?_⟩
      rcases exec_counter (g.queue n) hStep with hSame | ⟨r, rfl, hQueue, hMore⟩
      · unfold ticks
        rw [hSame]
        exact ⟨hLow, hHigh⟩
      · have hCount := of_decide_eq_true hStamps
        rw [hQueue] at hCount
        unfold ticks at hLow ⊢
        omega
    · intro s A b s' fs _ hBefore _ hSpawn
      obtain ⟨tasks, rfl, -⟩ := spawn_frame hSpawn
      exact hBefore
  exact ⟨placed_of_reaches hReach,
    limited_of_reaches hFeeder.maxInFlight.le (by decide) hReach, hTicks.1, hTicks.2.1,
    hTicks.2.2⟩

theorem resting_initial (hFeeder : SoleFeeder g outputs n) :
    Resting g outputs n (initial outputs defaultQueue callback) := by
  refine ⟨false, hFeeder.opened, fun _ o hOut => ⟨?_, fun t _ => ?_⟩⟩
  · show (outputs o).nextTimestampBound.value ≤ 0
    rw [hFeeder.unset o hOut]
    decide
  · show Timestamp.preStream.value ≤ 0
    decide

/-- **In every run** the node is at rest or one call of it is in its course. -/
theorem owned_of_reaches (hFeeder : SoleFeeder g outputs n)
    (hReach : (machine g).Reaches (stampingGuard g n)
      (started (initial outputs defaultQueue callback)) c) :
    Owned (Frame.Aside g outputs n) (Resting g outputs n) (Course g outputs n) c := by
  refine (stamping hFeeder).owned (fun c hReach => grounded_of_reaches hFeeder hReach) ?_ hReach
  refine .free (resting_initial hFeeder) ?_
  simp [started, Config.frames, Frame.Aside]

/-! ## Legal streams -/

/-- What may happen to a stream: packets at or above the bound are appended in increasing
order, a packet is taken, or the bound is raised. -/
inductive Legal (m : InputStreamManager) : InputStreamManager → Prop
  | same : Legal m m
  | popped : Legal m m.popQueueHead.2.2
  | raised (bound : Timestamp) : Legal m (m.setNextTimestampBound bound).1
  | added (packets : List Packet) (hFollows : m.follows packets = true) :
      Legal m (m.addPackets packets).manager

namespace Legal

variable {m m' : InputStreamManager}

theorem sequenced (hLegal : Legal m m') (hSequenced : Sequenced m) : Sequenced m' := by
  cases hLegal with
  | same => exact hSequenced
  | popped => exact hSequenced.popQueueHead
  | raised bound => exact hSequenced.setNextTimestampBound bound
  | added packets hFollows => exact hSequenced.addPackets hFollows

theorem bound_le (hLegal : Legal m m') : m.nextTimestampBound ≤ m'.nextTimestampBound := by
  cases hLegal with
  | same => exact le_rfl
  | popped => exact (InputStreamManager.popQueueHead_bound m).ge
  | raised bound =>
      rw [InputStreamManager.setNextTimestampBound_bound]
      exact le_max_left _ _
  | added packets hFollows =>
      obtain ⟨hIncreasing, hAllowed⟩ := InputStreamManager.follows_iff.mp hFollows
      cases hClosed : m.closed with
      | true => rw [(InputStreamManager.addPackets_of_closed hClosed packets).1]
      | false =>
          rw [(InputStreamManager.addPackets_of_open hClosed packets).1]
          exact Sequenced.le_boundAfter hIncreasing hAllowed

/-- Whatever is appended is at or above the bound. -/
theorem bound_le_of_mem {batch : List Packet} (hLegal : Legal m m')
    (hQueue : m'.queue = m.queue ++ batch) {packet : Packet} (hMem : packet ∈ batch) :
    m.nextTimestampBound ≤ packet.timestamp := by
  have hNone : ∀ {queue : List Packet}, queue.length ≤ m.queue.length →
      queue ≠ m.queue ++ batch := by
    intro queue hLength hEq
    have hPos : 0 < batch.length := List.length_pos_of_mem hMem
    rw [hEq, List.length_append] at hLength
    omega
  cases hLegal with
  | same => exact absurd hQueue (hNone le_rfl)
  | popped =>
      rw [InputStreamManager.popQueueHead_queue] at hQueue
      exact absurd hQueue (hNone (by simp))
  | raised bound =>
      rw [InputStreamManager.setNextTimestampBound_queue] at hQueue
      exact absurd hQueue (hNone le_rfl)
  | added packets hFollows =>
      cases hClosed : m.closed with
      | true =>
          rw [(InputStreamManager.addPackets_of_closed hClosed packets).1] at hQueue
          exact absurd hQueue (hNone le_rfl)
      | false =>
          rw [(InputStreamManager.addPackets_of_open hClosed packets).1] at hQueue
          obtain rfl : packets = batch := List.append_cancel_left hQueue
          exact ((InputStreamManager.follows_iff.mp hFollows).2 packet hMem).2

end Legal

variable {o : OutId} {t : StreamId}

/-- What a propagation brings makes a step legal. -/
theorem legal_of_exec (hFollows : ∀ p, f = .propagate p → target g p = some t →
      p.packets ≠ [] → (s.stream t).follows p.packets = true)
    (hStep : exec g s f x = some (s', fs)) : Legal (s.stream t) (s'.stream t) := by
  have hChange := exec_stream t hStep
  generalize s'.stream t = m at hChange ⊢
  cases hChange with
  | same => exact .same
  | popped => exact .popped
  | added p _ hTarget hPackets => exact .added p.packets (hFollows p rfl hTarget hPackets)
  | bounded p => exact .raised p.nextBound

theorem follows_of_aside (hOut : o ∈ g.outputs n) (hConsumer : t ∈ consumers g outputs o)
    (hAside : f.Aside g outputs n) (p : Propagation) (hFrame : f = .propagate p)
    (hTarget : target g p = some t) : (s.stream t).follows p.packets = true := by
  subst hFrame
  exact absurd (mem_targets_of_target hTarget) (hAside o hOut t hConsumer)

/-- **A stamped packet is at or above the bound of its stream.** -/
theorem follows_of_course {below : List Frame} (hHigh : ticks g s n ≤ 2 ^ 62)
    (hOut : o ∈ g.outputs n) (hConsumer : t ∈ consumers g outputs o)
    (hCourse : Course g outputs n s (f :: below)) (p : Propagation) (hFrame : f = .propagate p)
    (hTarget : target g p = some t) (hPackets : p.packets ≠ []) :
    (s.stream t).follows p.packets = true := by
  obtain ⟨above, work, hStack, hAbove, hWorking⟩ := hCourse
  cases above with
  | cons h above =>
      obtain ⟨rfl, -⟩ := List.cons.inj hStack
      exact follows_of_aside hOut hConsumer (hAbove f List.mem_cons_self) p hFrame hTarget
  | nil =>
      rw [List.nil_append] at hStack
      subst hStack hFrame
      generalize hAll : Frame.propagate p :: below = stack at hWorking
      cases hWorking with
      | calling r pc post hNode hStage hPost => cases hAll
      | sending h p' left o' r rest status post hNode hIterates hLeft hSending hPosting hPost =>
          obtain ⟨rfl, -⟩ := List.cons.inj hAll
          cases hIterates with
          | packets =>
              obtain ⟨packet, hQueue, hStamp, hBounds⟩ := hSending.packets.resolve_left hPackets
              have hLow := hPosting.ticked.low
              have hNext := hPosting.ticked.high.trans_le hHigh
              rw [← hStamp] at hLow hNext
              rw [hQueue, InputStreamManager.follows_iff]
              refine ⟨List.pairwise_singleton _ _, ?_⟩
              rw [List.forall_mem_singleton]
              refine ⟨isAllowedInStream_of_ticks hLow hNext, ?_⟩
              rw [Timestamp.le_iff, hStamp]
              exact hBounds t (mem_targets_of_target hTarget)
      | closing above r rest stopped post hNode hEmpty hSubset hAbove hClosing hPost =>
          cases above with
          | nil => cases hAll
          | cons h above =>
              obtain ⟨rfl, -⟩ := List.cons.inj hAll
              cases hAbove _ List.mem_cons_self with
              | aside _ hAside => exact follows_of_aside hOut hConsumer hAside p rfl hTarget
              | packets _ hNone => exact absurd hNone hPackets

/-- **Every step is legal for the streams of the node.** -/
theorem legal_of_step (hFeeder : SoleFeeder g outputs n) (hOut : o ∈ g.outputs n)
    (hConsumer : t ∈ consumers g outputs o)
    (hReach : (machine g).Reaches (stampingGuard g n)
      (started (initial outputs defaultQueue callback)) c) {a : Action Choice Call}
    (hStep : (machine g).step c a = some c') : Legal (c.shared.stream t) (c'.shared.stream t) := by
  cases a with
  | spawn b =>
      obtain ⟨r, hSpawn, rfl⟩ := Option.map_eq_some_iff.mp hStep
      obtain ⟨tasks, hState, -⟩ := spawn_frame hSpawn
      show Legal (c.shared.stream t) (r.1.stream t)
      rw [hState]
      exact .same
  | run i x =>
      simp only [Machine.step] at hStep
      split at hStep
      next f below hThread =>
        obtain ⟨r, hExec, rfl⟩ := Option.map_eq_some_iff.mp hStep
        refine legal_of_exec (fun p hFrame hTarget hPackets => ?_) hExec
        have hHigh := (grounded_of_reaches hFeeder hReach).high
        cases owned_of_reaches hFeeder hReach with
        | free _ hAside =>
            refine follows_of_aside hOut hConsumer (hAside f ?_) p hFrame hTarget
            exact mem_frames.mpr ⟨i, _, hThread, List.mem_cons_self⟩
        | owned j stack hOwner hCourse hAside =>
            by_cases hEq : i = j
            · subst hEq
              obtain rfl := Option.some.inj (hOwner.symm.trans hThread)
              exact follows_of_course hHigh hOut hConsumer hCourse p hFrame hTarget hPackets
            · exact follows_of_aside hOut hConsumer
                (hAside i _ hEq hThread f List.mem_cons_self) p hFrame hTarget
      next => simp at hStep

/-- **Streams stamped with the input timestamp are legal** in every run in which no worker
takes up the node while an earlier call of it is closing its outputs: the queue of a consumer
has increasing timestamps, what is appended is at or above the bound, and the bound is and
stays above what has been appended. -/
theorem stamped_streams_legal (hFeeder : SoleFeeder g outputs n) (hOut : o ∈ g.outputs n)
    (hConsumer : t ∈ consumers g outputs o)
    (hReach : (machine g).Reaches (stampingGuard g n)
      (started (initial outputs defaultQueue callback)) c) :
    (c.shared.stream t).queue.Pairwise (·.timestamp < ·.timestamp) ∧
    (∀ a c', (machine g).step c a = some c' → ∀ batch,
      (c'.shared.stream t).queue = (c.shared.stream t).queue ++ batch →
        ∀ packet ∈ batch, (c.shared.stream t).nextTimestampBound ≤ packet.timestamp) ∧
    (∀ c', (machine g).Reaches (stampingGuard g n) c c' →
      ∀ packet ∈ (c.shared.stream t).queue,
        packet.timestamp < (c'.shared.stream t).nextTimestampBound) := by
  have hSequenced : Sequenced (c.shared.stream t) := by
    refine Transition.Reach.invariant_with
      (J := fun c => (machine g).Reaches (stampingGuard g n)
        (started (initial outputs defaultQueue callback)) c)
      (I := fun c => Sequenced (c.shared.stream t)) (fun _ hHere => hHere) ?_ ?_ hReach
    · exact ⟨List.Pairwise.nil, by simp [started, initial, Shared.stream],
        by simp [started, initial, Shared.stream]⟩
    · intro c a c' hHere hBefore _ hStep
      exact (legal_of_step hFeeder hOut hConsumer hHere hStep).sequenced hBefore
  refine ⟨hSequenced.increasing, ?_, ?_⟩
  · intro a c' hStep batch hQueue packet hMem
    exact (legal_of_step hFeeder hOut hConsumer hReach hStep).bound_le_of_mem hQueue hMem
  · intro c' hLater packet hMem
    have hBound : (c.shared.stream t).nextTimestampBound ≤
        (c'.shared.stream t).nextTimestampBound := by
      refine Transition.Reach.invariant_with
        (J := fun c => (machine g).Reaches (stampingGuard g n)
          (started (initial outputs defaultQueue callback)) c)
        (I := fun c' => (c.shared.stream t).nextTimestampBound ≤
          (c'.shared.stream t).nextTimestampBound)
        (fun _ hAfter => hReach.trans hAfter) le_rfl ?_ hLater
      intro c₁ a c₂ hHere hBefore _ hStep
      exact hBefore.trans (legal_of_step hFeeder hOut hConsumer hHere hStep).bound_le
    exact (hSequenced.bounded packet hMem).trans_le hBound

end

/-! ## A chain -/

section

variable {k : Nat} {queue : NodeId → QueueId} {hQueue : ∀ n < k, queue n < k}

theorem consumers_chain (o : OutId) :
    consumers (.chain k queue hQueue) (chainOutputs k) o = if o < k then [o] else [] := by
  unfold consumers chainOutputs
  by_cases hLt : o < k
  · simp [hLt, Mirror.resolve, Graph.chain]
  · simp [hLt]

theorem soleFeeder_chain (n : NodeId) :
    SoleFeeder (.chain k queue hQueue) (chainOutputs k) n := by
  have hOutput : ∀ {o m : Nat}, o ∈ (Graph.chain k queue hQueue).outputs m → o = m + 1 :=
    fun hMem => List.mem_singleton.mp hMem
  have hSelf : ∀ {o t : Nat}, t ∈ consumers (.chain k queue hQueue) (chainOutputs k) o → t = o := by
    intro o t hMem
    rw [consumers_chain] at hMem
    split at hMem
    · exact List.mem_singleton.mp hMem
    · exact absurd hMem List.not_mem_nil
  refine ⟨rfl, List.nodup_singleton _, fun o hOut => ⟨fun m hMem => ?_, fun name hLookup => ?_,
    fun o' t hConsumer hOther => ?_, rfl, rfl⟩, fun o hOut => ?_, fun _ _ => rfl, fun _ _ => rfl⟩
  · exact Nat.succ_injective ((hOutput hMem).symm.trans (hOutput hOut))
  · have hInput : o = 0 := by
      simp only [Graph.chain, List.lookup_cons, List.lookup_nil] at hLookup
      split at hLookup
      · exact (Option.some.inj hLookup).symm
      · cases hLookup
    exact absurd (hInput.symm.trans (hOutput hOut)) (Nat.succ_ne_zero n).symm
  · exact (hSelf hOther).symm.trans (hSelf hConsumer)
  · rw [consumers_chain]
    split
    · exact List.nodup_singleton _
    · exact List.nodup_nil

end

/-- A packet for the first node of a chain. -/
private def feed (k : Nat) : Call :=
  .addPacketToInputStream "in" ⟨some k, Timestamp.ofValue k⟩

/-- `Process` returns a packet stamped with `ts`. -/
private def stamps (ts : Int) : Choice :=
  .returns Status.okStatus [("out", .addPacket ⟨some 7, Timestamp.ofValue ts⟩)]

/-- Two nodes of a chain on one queue. -/
abbrev Graph.chainOnOneQueue : Graph := .chain 2 (fun _ => 0) (by simp)

/-- Two calls of the first node, with one of the second in between: the theorem for the
step that brings the second packet. -/
theorem stamped_streams_legal_chain :
    ∃ c c' : Config Shared Frame,
      (machine .chainOnOneQueue).Reaches (stampingGuard .chainOnOneQueue 0)
        (started (chainInitial 2 false)) c' ∧
      (c'.shared.stream 1).queue =
        [⟨some 7, Timestamp.ofValue 0⟩, ⟨some 7, Timestamp.ofValue 1⟩] ∧
      (c'.shared.stream 1).queue.Pairwise (·.timestamp < ·.timestamp) ∧
      (c.shared.stream 1).nextTimestampBound ≤ Timestamp.ofValue 1 ∧
      Timestamp.ofValue 1 < (c'.shared.stream 1).nextTimestampBound := by
  obtain ⟨c, hReach, hTest⟩ := (machine .chainOnOneQueue).exists_reaches
    (stampingGuard .chainOnOneQueue 0) (started (chainInitial 2 false))
    (runs 0 24 .ok ++ calls (feed 0) 1 14 .ok ++ calls (.worker 0) 2 33 (stamps 0) ++
      calls (feed 1) 3 14 .ok ++ calls (.worker 0) 4 1 .ok ++ calls (.worker 0) 5 7 (stamps 1))
    (fun c => decide ((c.shared.stream 1).queue = [⟨some 7, Timestamp.ofValue 0⟩]) &&
      (stampingGuard .chainOnOneQueue 0).allows c (.run 5 (stamps 1)) &&
      ((machine .chainOnOneQueue).step c (.run 5 (stamps 1))).any
        fun (c' : Config Shared Frame) => decide ((c'.shared.stream 1).queue =
          [⟨some 7, Timestamp.ofValue 0⟩, ⟨some 7, Timestamp.ofValue 1⟩]))
    (by decide +kernel)
  simp only [Bool.and_eq_true, decide_eq_true_eq, Option.any_eq_true] at hTest
  obtain ⟨⟨hBefore, hOk⟩, c', hStep, hAfter⟩ := hTest
  have hReach' := Transition.Reach.tail hReach hOk hStep
  have hOut : 1 ∈ Graph.chainOnOneQueue.outputs 0 := by decide
  have hConsumer : 1 ∈ consumers .chainOnOneQueue (chainOutputs 2) 1 := by decide
  obtain ⟨-, hAbove, -⟩ := stamped_streams_legal (soleFeeder_chain 0) hOut hConsumer hReach
  obtain ⟨hIncreasing, -, hBelow⟩ :=
    stamped_streams_legal (soleFeeder_chain 0) hOut hConsumer hReach'
  refine ⟨c, c', hReach', hAfter, hIncreasing, ?_, ?_⟩
  · refine hAbove _ c' hStep [⟨some 7, Timestamp.ofValue 1⟩] ?_ _ List.mem_cons_self
    rw [hBefore, hAfter]
    rfl
  · exact hBelow c' .refl ⟨some 7, Timestamp.ofValue 1⟩ (by simp [hAfter])

/-- An arrival callback that comes late takes the first node up again while its last call is
between `DecrementPending` and the end of `Close`: a packet stamped with `2` comes after
`Done`. -/
theorem stamped_after_done :
    SoleFeeder .chainOnOneQueue (chainOutputs 2) 0 ∧
      1 ∈ Graph.chainOnOneQueue.outputs 0 ∧
      1 ∈ consumers .chainOnOneQueue (chainOutputs 2) 1 ∧
      ∃ c c' a, (machine .chainOnOneQueue).Reaches (stampsInputs 0)
          (started (chainInitial 2 false)) c ∧
        (stampsInputs 0).allows c a = true ∧ (machine .chainOnOneQueue).step c a = some c' ∧
        (c'.shared.stream 1).queue =
          (c.shared.stream 1).queue ++ [⟨some 7, Timestamp.ofValue 2⟩] ∧
        (c.shared.stream 1).nextTimestampBound = Timestamp.done ∧
        (c'.shared.stream 1).nextTimestampBound < (c.shared.stream 1).nextTimestampBound := by
  refine ⟨soleFeeder_chain 0, by decide, by decide, ?_⟩
  obtain ⟨c, hReach, hTest⟩ := (machine .chainOnOneQueue).exists_reaches
    (stampsInputs 0) (started (chainInitial 2 false))
    (runs 0 24 .ok ++ calls (feed 0) 1 3 .ok ++ calls (.closeInputStream "in") 2 16 .ok ++
      calls (.worker 0) 3 32 .ok ++ calls (.worker 0) 4 16 .ok ++ runs 1 3 .ok ++
      calls (.worker 0) 5 5 .ok ++ runs 4 7 .ok ++ runs 5 2 (stamps 2))
    (fun c => (stampsInputs 0).allows c (.run 5 .ok) &&
      decide ((c.shared.stream 1).nextTimestampBound = Timestamp.done) &&
      ((machine .chainOnOneQueue).step c (.run 5 .ok)).any
        fun (c' : Config Shared Frame) => decide ((c'.shared.stream 1).queue =
          (c.shared.stream 1).queue ++ [⟨some 7, Timestamp.ofValue 2⟩]) &&
        decide ((c'.shared.stream 1).nextTimestampBound < (c.shared.stream 1).nextTimestampBound))
    (by decide +kernel)
  simp only [Bool.and_eq_true, decide_eq_true_eq, Option.any_eq_true] at hTest
  obtain ⟨⟨hOk, hDone⟩, c', hStep, hQueue, hFalls⟩ := hTest
  exact ⟨c, c', _, hReach, hOk, hStep, hQueue, hDone, hFalls⟩

end GraphRuntime.Scheduler
