import GraphRuntime.Scheduler.QueueOperations
import GraphRuntime.Scheduler.Wakeup

/-!
# Packets injected before `Start`

`AddPacketToInputStream` does not ask whether the graph has been started.  The
packet it adds makes its stream non-empty, and this is the one time the arrival
callback runs; the callback looks up the scheduler queue of the node, which
`Start` has not set yet, and does nothing.  `Start` does not look at the
streams, so the packet stays where it is, and so does every later packet of the
stream, as none of them finds the stream empty.

`injectionGuard` leaves out the steps that deliver packets to a node that has
not been assigned.  Under it a stream that holds a packet is always covered, in
the sense of `Cover`, by a node that has its queue; hence when `Start` has
returned and the queues are idle, the input queues are empty (`settled_empty`).
-/

namespace GraphRuntime.Scheduler

open GraphRuntime.Stream Interleaving

variable {g : Graph} {s s' : Shared} {f : Frame} {fs A B : List Frame} {x : Choice}
  {c : Config Shared Frame}

/-! ## The runs considered -/

/-- A step that delivers packets to an input manager finds its node assigned. -/
def deliversAssigned (g : Graph) (s : Shared) (p : Propagation) : Bool :=
  p.packets.isEmpty || writesAssigned g s p

/-- Packets are delivered to assigned nodes, no non-source node fails with a
status other than `kStop`, and no queue with work is cleaned up. -/
def injectionGuard (g : Graph) : Guard Shared Frame Choice Call where
  exec := fun s others f x =>
    match f, x with
    | .run r .inProcess, .returns status _ =>
        g.isSource r.node || status.isOk || status.isStopStatus
    | .propagate p, _ => deliversAssigned g s p
    | .cleanupAfterRun q, _ => discardable s others q
    | _, _ => true
  spawn := fun _ _ _ => true

/-- What holds in every state of these runs. -/
structure Fed (g : Graph) (s : Shared) (fs : List Frame) : Prop where
  placed : Placed g s fs
  accounted : Accounted g s fs
  counted : ∀ q, Counted s fs q
  run : ∀ r pc, .run r pc ∈ fs → g.isSource r.node = false → pc.offErrorPath = true
  covered : ∀ n, 1 ≤ g.maxInFlight n → ∀ t ∈ g.inputs n, (s.stream t).isEmpty = false →
    s.assigned n = true ∧ Cover g (RunPc.Rescans t) n s fs

/-! ## One step -/

/-- A call stays off the error path as long as `Process` does not fail. -/
theorem runStep_offErrorPath {r r' : Invocation} {pc pc' : RunPc}
    {t : Turn (Invocation × RunPc)} (hTurn : runStep g s r x pc = some t)
    (hNext : t.next = some (r', pc'))
    (hProcess : ∀ status writes, pc = .inProcess → x = .returns status writes →
      (status.isOk || status.isStopStatus) = true)
    (hOff : pc.offErrorPath = true) : pc'.offErrorPath = true := by
  revert hTurn
  fun_cases runStep g s r x pc
  case case9 status writes =>
    intro hTurn
    cases hTurn
    cases hNext
    exact hProcess status writes rfl rfl
  case case12 status =>
    intro hTurn
    cases hTurn
    cases hNext
    have hStatus : status.isOk = true ∨ status.isStopStatus = true := by
      simpa [RunPc.offErrorPath] using hOff
    unfold afterProcess
    by_cases hStop : status.isStopStatus = true
    · rw [if_pos hStop]
      rfl
    · have hOk : status.isOk = true := hStatus.resolve_right hStop
      rw [if_neg hStop, hOk]
      simp only [Bool.not_true, Bool.false_eq_true, if_false]
      split <;> rfl
  case case14 stopped =>
    intro hTurn
    cases hTurn
    cases hNext
    cases stopped <;> rfl
  all_goals
    intro hTurn
    cases hTurn <;> cases hNext
  all_goals first
    | rfl
    | exact hOff
    | (unfold afterAct; split <;> rfl)
    | (split <;> rfl)

theorem items_nil_of_discardable {q : QueueId} (hPlaced : Placed g s fs)
    (hDiscardable : discardable s A q = true) : (s.queues q).items = [] := by
  have hOpen := (discardable_iff.mp hDiscardable).1
  refine List.eq_nil_iff_forall_not_mem.mpr fun it hMem => ?_
  have hItem := (hPlaced.item q it hMem).1
  have hNotOpen : it.isOpenNode = false := by rw [hItem]; rfl
  exact absurd (hOpen it hMem) (by simp [hNotOpen])

theorem Fed.counts (hFed : Fed g s (A ++ f :: B))
    (hGuard : (injectionGuard g).exec s (A ++ B) f x = true)
    (hStep : exec g s f x = some (s', fs)) :
    Accounted g s' (A ++ (fs ++ B)) ∧ ∀ q, Counted s' (A ++ (fs ++ B)) q := by
  by_cases hCleanup : ∃ q, f = .cleanupAfterRun q
  · obtain ⟨q, rfl⟩ := hCleanup
    have hDiscardable : discardable s (A ++ B) q = true := hGuard
    cases hStep
    constructor
    · intro n
      have hBefore := hFed.accounted n
      have hBalance : balance g (s.setQueue q (s.queues q).cleanupAfterRun) n = balance g s n :=
        balance_kept rfl hDiscardable n
      unfold balance at hBalance
      simp only [List.countP_append, List.countP_cons, Frame.holdsPending,
        List.nil_append, Bool.false_eq_true, if_false] at hBefore ⊢
      omega
    · intro p
      have hBefore := hFed.counted p
      refine counted_discarded rfl hDiscardable ?_
      simpa [Counted, List.countP_append, Frame.isTask] using hBefore
  · have hNot := not_exists.mp hCleanup
    exact ⟨hFed.accounted.exec hFed.placed hNot hStep,
      fun q => (hFed.counted q).exec hNot hStep⟩

theorem Fed.exec (hFed : Fed g s (A ++ f :: B))
    (hGuard : (injectionGuard g).exec s (A ++ B) f x = true)
    (hStep : Scheduler.exec g s f x = some (s', fs)) : Fed g s' (A ++ (fs ++ B)) := by
  obtain ⟨hAccounted, hCounted⟩ := hFed.counts hGuard hStep
  refine ⟨hFed.placed.exec hStep, hAccounted, hCounted, ?_, ?_⟩
  · intro r pc hMem hSource
    rcases mem_after hMem with hNew | hOld
    · rcases run_of_exec hStep hNew with ⟨r₀, pc₀, u, rfl, hTurn, -, hNext⟩ |
        ⟨q, it, queue, -, -, -, -, rfl⟩
      · have hNode : r.node = r₀.node := (runStep_next hTurn hNext).2.1
        rw [hNode] at hSource
        refine runStep_offErrorPath hTurn hNext ?_ (hFed.run r₀ pc₀ mem_running hSource)
        rintro status writes rfl rfl
        simpa [injectionGuard, hSource] using hGuard
      · rfl
    · exact hFed.run r pc hOld hSource
  · intro n hLimit t hMem hFilled
    by_cases hEmpty : (s.stream t).isEmpty = true
    · obtain ⟨⟨p, rfl, hPackets, hTarget⟩, hArrival⟩ := exec_filled hStep hEmpty hFilled
      have hAssigned : s.assigned n = true := by
        have hDelivers : deliversAssigned g s p = true := hGuard
        simpa [deliversAssigned, writesAssigned, hTarget, hPackets,
          Graph.owner_of_mem hMem] using hDelivers
      rw [Graph.owner_of_mem hMem] at hArrival
      exact ⟨exec_assigned hStep hAssigned,
        Or.inr ⟨_, List.mem_append_right A (List.mem_append_left B hArrival), rfl⟩⟩
    · have hSource := Graph.isSource_of_mem hMem
      have hFilled' : (s.stream t).isEmpty = false := by simpa using hEmpty
      obtain ⟨hAssigned, hCover⟩ := hFed.covered n hLimit t hMem hFilled'
      refine ⟨exec_assigned hStep hAssigned, ?_⟩
      refine hCover.exec hFed.placed hFed.accounted ?_ hLimit (fun _ => hAssigned)
        (fun _ => rfl) (fun _ _ _ _ hHolds => RunPc.rescans_of_holdsPending t hHolds) ?_ hStep
      · rintro q rfl
        exact items_nil_of_discardable hFed.placed hGuard
      · rintro r pc u rfl rfl hRescans hTurn
        obtain ⟨-, hOpen, -, hPc⟩ := hFed.placed.run r pc mem_running
        exact runStep_rescans hMem hOpen hPc (hFed.run r pc mem_running hSource) hFilled'
          hRescans hTurn

theorem Fed.spawn {b : Call} (hFed : Fed g s A)
    (hSpawn : Scheduler.spawn g s b = some (s', fs)) : Fed g s' (A ++ fs) := by
  have hCounted := fun q => (hFed.counted q).spawn hSpawn
  obtain ⟨hPlaced, hAccounted, -, hRun, hCovered⟩ := hFed
  have hPlaced' := hPlaced.spawn hSpawn
  have hNotRun := not_run_of_spawn hSpawn
  obtain ⟨tasks, rfl, -⟩ := spawn_frame hSpawn
  refine ⟨hPlaced', fun n => ?_, hCounted, fun r pc hMem => ?_,
    fun n hLimit t hMem hFilled => ?_⟩
  · rw [List.countP_append, countP_of_not_run n hNotRun, Nat.add_zero]
    exact hAccounted n
  · rcases List.mem_append.mp hMem with hOld | hFrame
    · exact hRun r pc hOld
    · exact absurd rfl (hNotRun _ hFrame r pc)
  · obtain ⟨hAssigned, hCover⟩ := hCovered n hLimit t hMem hFilled
    exact ⟨hAssigned, hCover.mono⟩

theorem Fed.initial (outputs : OutId → OutputStreamManager) (defaultQueue : QueueId)
    (errorCallback : Bool) :
    Fed g (initial outputs defaultQueue errorCallback) [.start .begin] := by
  refine ⟨Placed.initial outputs defaultQueue errorCallback, ?_, ?_, by simp, ?_⟩
  · intro n
    simp [Scheduler.initial, waiting, Frame.holdsPending]
  · intro q
    simp [Counted, Scheduler.initial, Frame.isTask]
  · intro n _ t _ hFilled
    exact absurd hFilled (by simp [Scheduler.initial, Shared.stream,
      InputStreamManager.isEmpty])

/-! ## Whole runs -/

theorem fed_of_reaches {outputs : OutId → OutputStreamManager} {defaultQueue : QueueId}
    {errorCallback : Bool}
    (hReach : (machine g).Reaches (injectionGuard g)
      (started (initial outputs defaultQueue errorCallback)) c) :
    Fed g c.shared c.frames :=
  Machine.invariant (Fed.initial outputs defaultQueue errorCallback)
    (fun _ _ _ _ _ _ _ hFed hGuard hStep => hFed.exec hGuard hStep)
    (fun _ _ _ _ _ hFed _ hSpawn => hFed.spawn hSpawn) hReach

/-- `Start` has returned, the scheduler runs, all its queues are idle, and no
packet is on its way into a stream. -/
structure Settled (g : Graph) (c : Config Shared Frame) : Prop where
  started : ∀ pc, .start pc ∉ c.frames
  state : c.shared.state = .kRunning
  idle : ∀ q ∈ g.queues, (c.shared.queues q).isIdle = true
  arrival : ∀ n, .arrival n ∉ c.frames

/-- Every packet that was injected has been handed to `Process`. -/
def AllDelivered (g : Graph) (c : Config Shared Frame) : Prop :=
  Settled g c → ∀ n ∈ g.nodes, ∀ t ∈ g.inputs n, (c.shared.stream t).isEmpty = true

/-- **Nothing injected is lost** as long as packets are delivered to assigned
nodes only: once `Start` has returned and the queues are idle, the input queues
of all nodes are empty. -/
theorem settled_empty {outputs : OutId → OutputStreamManager} {defaultQueue : QueueId}
    {errorCallback : Bool}
    (hLimit : ∀ n ∈ g.nodes, g.isSource n = false → 1 ≤ g.maxInFlight n)
    (hReach : (machine g).Reaches (injectionGuard g)
      (started (initial outputs defaultQueue errorCallback)) c) : AllDelivered g c := by
  intro hSettled n hNode t hMem
  have hFed := fed_of_reaches hReach
  have hTask : ∀ r pc, .run r pc ∈ c.frames → .onTaskFinished r.queue ∈ c.frames := by
    intro r pc hRun
    obtain ⟨stack, hStack, hIn⟩ := List.mem_flatten.mp hRun
    exact List.mem_flatten.mpr
      ⟨stack, hStack, onTaskFinished_of_run (runsInTask_of_reaches hReach stack hStack) hIn⟩
  have hQuiet : Quiet c.shared c.frames (g.queue n) :=
    quiet_of_isIdle (hFed.counted _) hTask (hSettled.idle _ (g.queue_mem n hNode))
  by_contra hFilled
  have hFilled' : (c.shared.stream t).isEmpty = false := by simpa using hFilled
  have hLimit' := hLimit n hNode (Graph.isSource_of_mem hMem)
  obtain ⟨-, hCover⟩ := hFed.covered n hLimit' t hMem hFilled'
  rcases hCover with hItem | ⟨f, hFrame, hCovers⟩
  · rw [hQuiet.items] at hItem
    exact absurd hItem List.not_mem_nil
  · cases f with
    | arrival m => exact hSettled.arrival m hFrame
    | run r pc =>
        have hQueue : r.queue = g.queue r.node := (hFed.placed.run r pc hFrame).1
        rw [hCovers.1] at hQueue
        exact hQuiet.run r pc hFrame hQueue
    | _ => exact hCovers

/-- Nothing of a call of the public interface, of `Start` or of a task is left. -/
theorem settled_of_frames {g : Graph} (hFrames : c.frames = [])
    (hState : c.shared.state = .kRunning)
    (hIdle : ∀ q ∈ g.queues, (c.shared.queues q).isIdle = true) : Settled g c :=
  ⟨by simp [hFrames], hState, hIdle, by simp [hFrames]⟩

/-- The rule at work: a packet injected after `Start` is processed. -/
theorem settled_empty_chain :
    ∃ c, (machine (.chain 1 id (by simp))).Reaches (injectionGuard (.chain 1 id (by simp)))
        (started (chainInitial 1 false)) c ∧
      Settled (.chain 1 id (by simp)) c ∧ (c.shared.stream 0).isEmpty = true ∧
      ∃ inputs, .processCalled 0 inputs ∈ c.shared.log := by
  obtain ⟨c, hReach, hTest⟩ := (machine (.chain 1 id (by simp))).exists_reaches
    (injectionGuard (.chain 1 id (by simp))) (started (chainInitial 1 false))
    (runs 0 19 .ok ++
      calls (.addPacketToInputStream "in" ⟨some 1, Timestamp.ofValue 0⟩) 1 14 .ok ++
      calls (.worker 0) 2 32 .ok)
    (fun c => c.frames.isEmpty && decide (c.shared.state = .kRunning) &&
      (c.shared.queues 0).isIdle && c.shared.log.any (Event.calls 0)) (by decide +kernel)
  simp only [Bool.and_eq_true, List.isEmpty_iff, decide_eq_true_eq, List.any_eq_true] at hTest
  obtain ⟨⟨⟨hFrames, hState⟩, hIdle⟩, e, hLog, hCalled⟩ := hTest
  have hSettled : Settled (.chain 1 id (by simp)) c :=
    settled_of_frames hFrames hState (by simpa [Graph.chain] using hIdle)
  have hDelivered := settled_empty (by decide) hReach hSettled 0 (by decide)
  refine ⟨c, hReach, hSettled, hDelivered 0 (by decide), ?_⟩
  cases e with
  | processCalled n inputs =>
      have hNode : n = 0 := of_decide_eq_true hCalled
      exact ⟨inputs, hNode ▸ hLog⟩
  | _ => exact absurd hCalled Bool.false_ne_true

/-- `Start` has not begun, and another call has returned. -/
def beforeStart : List (List Frame) → Bool
  | [[.start .begin], []] => true
  | _ => false

theorem beforeStart_eq {threads : List (List Frame)} (hBefore : beforeStart threads = true) :
    threads = [[.start .begin], []] := by
  unfold beforeStart at hBefore
  split at hBefore
  · rfl
  · exact absurd hBefore Bool.false_ne_true

/-- **Injection before `Start` is lost**: the call is accepted, `Start` runs,
the queue is idle, and neither this packet nor the next one of the stream has
been handed to the node. -/
theorem injected_before_start_lost :
    ∃ c₁ c₂ c, (machine (.chain 1 id (by simp))).Reaches Guard.all
        (started (chainInitial 1 false)) c₁ ∧
      c₁.threads = [[.start .begin], []] ∧ (c₁.shared.stream 0).isEmpty = false ∧
      (machine (.chain 1 id (by simp))).step c₁ (.run 0 .ok) = some c₂ ∧
      (machine (.chain 1 id (by simp))).Reaches Guard.all c₂ c ∧
      (c.shared.stream 0).queue.length = 2 ∧ ¬ AllDelivered (.chain 1 id (by simp)) c := by
  obtain ⟨c₁, c₂, c, hBefore, hCalled, hStart, hAfter, hTest⟩ :=
    (machine (.chain 1 id (by simp))).exists_reaches_through Guard.all
      (started (chainInitial 1 false))
      (calls (.addPacketToInputStream "in" ⟨some 1, Timestamp.ofValue 0⟩) 1 13 .ok)
      (.run 0 .ok)
      (runs 0 18 .ok ++
        calls (.addPacketToInputStream "in" ⟨some 2, Timestamp.ofValue 1⟩) 2 17 .ok)
      (fun c₁ => beforeStart c₁.threads && !(c₁.shared.stream 0).isEmpty)
      (fun _ c => c.frames.isEmpty && decide (c.shared.state = .kRunning) &&
        (c.shared.queues 0).isIdle && decide ((c.shared.stream 0).queue.length = 2))
      (by decide +kernel)
  simp only [Bool.and_eq_true, Bool.not_eq_true', List.isEmpty_iff,
    decide_eq_true_eq] at hCalled hTest
  obtain ⟨hThreads, hFilled⟩ := hCalled
  obtain ⟨⟨⟨hFrames, hState⟩, hIdle⟩, hLength⟩ := hTest
  refine ⟨c₁, c₂, c, hBefore, beforeStart_eq hThreads, hFilled, hStart, hAfter, hLength,
    fun hDelivered => ?_⟩
  have hSettled : Settled (.chain 1 id (by simp)) c :=
    settled_of_frames hFrames hState (by simpa [Graph.chain] using hIdle)
  have hEmpty := hDelivered hSettled 0 (by decide) 0 (by decide)
  rw [InputStreamManager.isEmpty_iff.mp hEmpty] at hLength
  exact absurd hLength (by simp)

end GraphRuntime.Scheduler
