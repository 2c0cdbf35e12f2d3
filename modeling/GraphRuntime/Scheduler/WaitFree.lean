import Mathlib.Data.List.Perm.Subperm
import GraphRuntime.Lib.OwnSteps
import GraphRuntime.Scheduler.Delivery

/-!
# Every task and every call finishes

The loops of the runtime go over lists that are fixed when they are entered: the nodes, the
queues, the ports of a node, the mirrors of a manager, the active sources.  So a thread that is
not inside `WaitUntilDone` or `WaitForIdle` takes a bounded number of steps of its own,
however the other threads interleave with it, and until it has returned from everything it
has a next step: no thread waits for another one.

* `stepsLeft` is the number of steps a frame can still take, `exec_stepsLeft` what one step
  uses up.
* `Listed`: the nodes on the run's lists are nodes of the graph, the active sources each once;
  `Bounded` is what this keeps small.
* `every_call_returns` is the result.
-/

namespace GraphRuntime.Scheduler

open GraphRuntime.Stream Interleaving

/-- A call of `WaitUntilDone` or `WaitForIdle`. -/
def ApiPc.isWait : ApiPc → Bool
  | .waitUntilDone | .waitUntilDoneBlock | .waitUntilDoneBlocked _
  | .waitForIdle _ | .waitForIdleBlock | .waitForIdleBlocked _ => true
  | _ => false

def Frame.isWait : Frame → Bool
  | .api pc => pc.isWait
  | _ => false

/-! ## How many steps are left -/

section

variable (g : Graph) (m : Nat)

/-- `PropagateUpdatesToMirrors` and `Close` of a manager with that many mirrors. -/
def outputSteps : Nat := 20 * m + 5

/-- One pass of `DrainInputQueues` over nodes, `extra` steps for each beside its ports. -/
def sweepSteps (extra : Nat) : List NodeId → Nat
  | [] => 0
  | n :: rest => (g.inputs n).length + extra + sweepSteps extra rest

def rescheduleSteps (rest : List NodeId) : Nat := 2 + sweepSteps g 6 rest

/-- `should_quit` and what follows. -/
def quitSteps : Nat := 4 * g.nodes.length + 6

def finalizeSteps (rest : List NodeId) : Nat := quitSteps g + 5 + sweepSteps g 3 rest

/-- Both ways out of the first pass of the drain. -/
def drainSteps : Nat := rescheduleSteps g g.nodes + finalizeSteps g g.nodes

def idleSteps : IdlePc → Nat
  | .leave | .dropLeave => 1
  | .readdSources rest => 3 * rest.length + 2
  | .readActive => 3 * g.nodes.length + 3
  | .closeNodes _ rest => rest.length + 3
  | .quitReport _ => g.nodes.length + 5
  | .shouldQuit _ => quitSteps g
  | .drainFinalAdd _ => 4
  | .drainIsFinalized _ _ rest _ => finalizeSteps g rest + 1
  | .drainAllDone _ _ ports rest _ => finalizeSteps g rest + ports.length + 2
  | .drainFinalize _ rest _ => finalizeSteps g rest
  | .drainAddNode _ rest => rescheduleSteps g rest + 3
  | .drainIsRunning _ rest => rescheduleSteps g rest + 4
  | .drainHasInput _ ports rest => rescheduleSteps g rest + ports.length + 5
  | .drainReschedule rest => rescheduleSteps g rest
  | .drainIsDone _ rest _ _ => drainSteps g + 2 * rest.length + 1
  | .drainIsEmpty _ _ rest _ _ => drainSteps g + 2 * rest.length + 2
  | .checkDrain _ => drainSteps g + 2 * g.inputStreams.length + 2
  | .readSources _ => drainSteps g + 2 * g.inputStreams.length + 3
  | .sweepSources _ => drainSteps g + 2 * g.inputStreams.length + 4
  | .scanIdle _ rest => drainSteps g + 2 * g.inputStreams.length + 5 + rest.length
  | .readInputs => drainSteps g + 2 * g.inputStreams.length + 6 + g.queues.length
  | .cancelTerminate => 3
  | .readCancelled => drainSteps g + 2 * g.inputStreams.length + 7 + g.queues.length
  | .enter => drainSteps g + 2 * g.inputStreams.length + 8 + g.queues.length

/-- A whole `HandleIdle` call. -/
def handleIdleSteps : Nat := idleSteps g .enter

/-- `OutputStreamHandler::Close` over that many managers and what follows it in `RunNode`. -/
def closeSteps (n : NodeId) (managers : Nat) : Nat :=
  handleIdleSteps g + 13 + 2 * (g.inputs n).length + outputSteps m * managers

/-- What follows `PostProcess`. -/
def afterSteps (n : NodeId) : Nat :=
  closeSteps g m n (g.outputs n).length + 5 + (g.inputs n).length

def runSteps (n : NodeId) : RunPc → Nat
  | .returned | .callOpen => 1
  | .safetyAdd => 5
  | .safetyScan rest => 6 + rest.length
  | .safetyCheck _ => 7 + (g.inputs n).length
  | .sourceReAdd => 4
  | .reAdd _ => 10 + (g.inputs n).length
  | .pendingScan _ rest => 11 + (g.inputs n).length + rest.length
  | .stopNotify => handleIdleSteps g + 5
  | .stopReAdd => handleIdleSteps g + 8
  | .stopScan rest => handleIdleSteps g + 9 + rest.length
  | .stopDecrement => handleIdleSteps g + 10 + (g.inputs n).length
  | .closeOutputs rest _ => closeSteps g m n rest.length
  | .act _ => closeSteps g m n (g.outputs n).length + 1
  | .decrement _ => closeSteps g m n (g.outputs n).length + 2
  | .decide _ => closeSteps g m n (g.outputs n).length + 3
  | .scanDone rest => closeSteps g m n (g.outputs n).length + 4 + rest.length
  | .errorReport _ => 4
  | .errorDecrement _ => 5
  | .postProcess rest _ => afterSteps g m n + outputSteps m * rest.length
  | .inProcess => afterSteps g m n + 1 + outputSteps m * (g.outputs n).length
  | .prepareOutputs rest =>
      afterSteps g m n + 2 + outputSteps m * (g.outputs n).length + rest.length
  | .popInputs rest =>
      afterSteps g m n + 3 + outputSteps m * (g.outputs n).length +
        (g.outputs n).length + rest.length

def startSteps : StartPc → Nat
  | .wire rest => handleIdleSteps g + 1 + 4 * rest.length
  | .openFailed => 1
  | .openNodes rest => handleIdleSteps g + 2 + 4 * g.queues.length + 5 * rest.length
  | .insertSource _ rest => handleIdleSteps g + 6 + 4 * g.queues.length + 5 * rest.length
  | .addSource _ rest => handleIdleSteps g + 5 + 4 * g.queues.length + 5 * rest.length
  | .assign rest =>
      handleIdleSteps g + 3 + 4 * g.queues.length + 5 * g.nodes.length + rest.length
  | .begin => handleIdleSteps g + 4 + 4 * g.queues.length + 6 * g.nodes.length

/-- A public call, when it is not one that waits. -/
def apiSteps : ApiPc → Nat
  | .callHandleIdle => handleIdleSteps g + 1
  | .injectPacket _ _ => handleIdleSteps g + 3 + 10 * m
  | .addPacketToInputStream _ _ => handleIdleSteps g + 4 + 10 * m
  | .incClosedGraphInputStreams => handleIdleSteps g + 2
  | .closedStreamsInsert _ => handleIdleSteps g + 3
  | .closeInputStream _ => handleIdleSteps g + 7 + 10 * m
  | .pauseWrite => 3 * g.queues.length + 1
  | .pause => 3 * g.queues.length + 2
  | .resumeWrite => handleIdleSteps g + 2 + 6 * g.queues.length
  | .resume => handleIdleSteps g + 3 + 6 * g.queues.length
  | .cancelPaused => handleIdleSteps g + 2 + 3 * g.queues.length
  | .cancelState => handleIdleSteps g + 3 + 3 * g.queues.length
  | .cancelError => handleIdleSteps g + 4 + 3 * g.queues.length
  | .cancel => handleIdleSteps g + 5 + 3 * g.queues.length
  | .shutdownState => g.queues.length + 2
  | .shutdown => g.queues.length + 3
  | _ => 0

/-- The managers of all nodes. -/
def Graph.outputManagers : List OutId := g.nodes.flatMap g.outputs

/-- `RunNextTask`, whichever node it pops. -/
def taskSteps : Nat :=
  2 * handleIdleSteps g + 30 + 4 * g.inputStreams.length +
    (2 * outputSteps m + 1) * g.outputManagers.length

/-- **How many steps a frame can still take**, the calls it makes included, when no manager
has more than `m` mirrors. -/
def stepsLeft : Frame → Nat
  | .addTask _ | .notifyAll | .cleanupAfterRun _ | .userError _ => 1
  | .submitToExecutor _ | .queueError _ => 2
  | .arrival _ | .setRunning _ _ | .submitWaitingTasks _ => 3
  | .propagate p => 10 * p.mirrors.length + 1
  | .propagateBound p => 10 * (p.mirrors.length - 1) + 6
  | .closeManager _ => 10 * m + 3
  | .sourceStopped _ | .updateIdleState _ => handleIdleSteps g + 3
  | .dropTask _ => handleIdleSteps g + 4
  | .onTaskFinished _ => handleIdleSteps g + 6
  | .runNextTask _ => taskSteps g m
  | .run r pc => runSteps g m r.node pc
  | .handleIdle pc => idleSteps g pc
  | .start pc => startSteps g pc
  | .api pc => apiSteps g m pc

end

variable {g : Graph} {m : Nat} {s s' : Shared} {f : Frame} {fs A B : List Frame}
  {x : Choice}

/-! ## One step uses some of them up -/

theorem scheduleNode_steps (n : NodeId) :
    stackWeight (stepsLeft g m) (scheduleNode g s n).2 ≤ 2 := by
  rcases scheduleNode_cases g s n with ⟨-, hNone⟩ | ⟨-, -, -, hFrames⟩
  · rw [hNone]
    exact Nat.zero_le 2
  · rw [hFrames]
    split <;> simp [stepsLeft]

theorem idleCallback_steps (queue : SchedulerQueue) :
    stackWeight (stepsLeft g m) (idleCallback queue) ≤ handleIdleSteps g + 1 := by
  unfold idleCallback
  split
  · simp [stepsLeft, handleIdleSteps]
    omega
  · exact Nat.zero_le _

theorem arrivalCallback_steps (wake : Option StreamId) :
    stackWeight (stepsLeft g m) (arrivalCallback g wake) ≤ 3 := by
  cases wake with
  | none => exact Nat.zero_le 3
  | some t => simp [arrivalCallback, stepsLeft]

theorem map_steps {α : Type} (k : Nat) (frame : α → Frame) (l : List α)
    (hFrame : ∀ a, stepsLeft g m (frame a) = k) :
    stackWeight (stepsLeft g m) (l.map frame) = k * l.length := by
  induction l with
  | nil => rfl
  | cons a l ih =>
      rw [List.map_cons, stackWeight_cons, ih, hFrame, List.length_cons, Nat.mul_succ, Nat.add_comm]

/-- A `HandleIdle` call, with its active sources among the nodes. -/
theorem idleStep_steps (pc : IdlePc) (hActive : s.activeSources.length ≤ g.nodes.length) :
    stackWeight (stepsLeft g m) (idleStep g s pc).calls +
      stackWeight (stepsLeft g m) ((idleStep g s pc).next.map Frame.handleIdle).toList <
        idleSteps g pc := by
  fun_cases idleStep g s pc
  case case4 =>
    show stackWeight _ (g.queues.map Frame.cleanupAfterRun) + (3 + 0) < _
    rw [map_steps 1 Frame.cleanupAfterRun g.queues fun _ => rfl]
    simp only [idleSteps]
    omega
  all_goals try
    refine lt_of_le_of_lt (Nat.add_le_add_right (scheduleNode_steps _) _) ?_
  all_goals try split
  all_goals
    simp only [Option.map_some, Option.map_none, Option.toList_some, Option.toList_none,
      stackWeight_cons, stackWeight_nil, scheduleThen]
    simp only [stepsLeft, idleSteps, drainSteps, finalizeSteps, rescheduleSteps, sweepSteps,
      quitSteps, List.length_cons, List.length_nil]
    omega

theorem propagateThen_steps {π : Type} {o : OutId} {bound : Timestamp} {shard : OutputStreamShard}
    {callees : List Frame} {pc : π} (hMirrors : (s.net.outputs o).mirrors.length ≤ m) :
    stackWeight (stepsLeft g m) (propagateThen s o bound shard callees pc).calls ≤
      10 * m + 1 + stackWeight (stepsLeft g m) callees := by
  simp only [propagateThen, stackWeight_cons, stepsLeft, OutputStreamManager.beginPropagate]
  omega

theorem afterProcess_steps (n : NodeId) (status : Status) :
    runSteps g m n (afterProcess g n status) < afterSteps g m n := by
  unfold afterProcess
  repeat' split
  all_goals
    simp only [runSteps, afterSteps, closeSteps]
    omega

theorem afterAct_steps (n : NodeId) (action : FinalizeAction) :
    2 + runSteps g m n (afterAct g n action) ≤ closeSteps g m n (g.outputs n).length := by
  unfold afterAct
  split
  all_goals
    simp only [runSteps, closeSteps]
    omega

theorem sourceStoppedCallback_steps (queue : SchedulerQueue) (n : NodeId) :
    stackWeight (stepsLeft g m) (sourceStoppedCallback queue n) ≤ handleIdleSteps g + 3 := by
  unfold sourceStoppedCallback
  split
  · simp [stepsLeft]
  · exact Nat.zero_le _

theorem errorCallback_steps (queue : SchedulerQueue) (status : Status) :
    stackWeight (stepsLeft g m) (errorCallback queue status) ≤ 2 := by
  unfold errorCallback
  split
  · simp [stepsLeft]
  · exact Nat.zero_le _

/-- A `RunNode` call. -/
theorem runStep_steps {r : Invocation} {pc : RunPc} {t : Turn (Invocation × RunPc)}
    (hMirrors : ∀ o, (s.net.outputs o).mirrors.length ≤ m)
    (hTurn : runStep g s r x pc = some t) :
    stackWeight (stepsLeft g m) t.calls +
      stackWeight (stepsLeft g m)
        (t.next.map fun next => Frame.run next.1 next.2).toList < runSteps g m r.node pc := by
  have hOutput : outputSteps m = 20 * m + 5 := rfl
  have hSchedule := scheduleNode_steps (g := g) (m := m) (s := s) r.node
  revert hTurn
  fun_cases runStep g s r x pc
  all_goals intro hTurn; cases hTurn
  case case11.refl =>
    refine lt_of_le_of_lt (Nat.add_le_add_right (propagateThen_steps (hMirrors _)) _) ?_
    split
    all_goals
      simp only [stackWeight_cons, stackWeight_nil, propagateThen, Option.map_some,
        Option.toList_some]
      simp only [stepsLeft, runSteps, Invocation.clear, List.length_cons, Nat.mul_succ]
      omega
  case case12.refl status =>
    have hAfter := afterProcess_steps (g := g) (m := m) r.node status
    show 0 + (runSteps g m r.node (afterProcess g r.node status) + 0) <
      afterSteps g m r.node + _
    omega
  case case13.refl =>
    refine lt_of_le_of_lt (Nat.add_le_add_right (propagateThen_steps (hMirrors _)) _) ?_
    simp only [stackWeight_cons, stackWeight_nil, propagateThen, Option.map_some,
      Option.toList_some]
    simp only [stepsLeft, runSteps, closeSteps, Invocation.clear, List.length_cons, Nat.mul_succ]
    omega
  case case19.refl =>
    have hStopped := sourceStoppedCallback_steps (g := g) (m := m)
      (s.queues r.queue) r.node
    have hIdle := idleCallback_steps (g := g) (m := m) (s.queues r.queue)
    show stackWeight _ (if _ then _ else _) + (1 + 0) < handleIdleSteps g + 5
    split <;> omega
  case case21.refl status =>
    have hError := errorCallback_steps (g := g) (m := m) (s.queues r.queue)
      (nodeError g r.node status)
    show stackWeight _ (errorCallback (s.queues r.queue) (nodeError g r.node status)) + (1 + 0) < 4
    omega
  case case27.refl =>
    have hAfter := afterAct_steps (g := g) (m := m) r.node .kSchedule
    show stackWeight _ (scheduleNode g s r.node).2 +
      (runSteps g m r.node (afterAct g r.node .kSchedule) + 0) <
        closeSteps g m r.node _ + 1
    omega
  case case28.refl =>
    have hAfter := afterAct_steps (g := g) (m := m) r.node .kNone
    show 0 + (runSteps g m r.node (afterAct g r.node .kNone) + 0) <
      closeSteps g m r.node _ + 1
    omega
  all_goals try split
  all_goals
    simp only [Option.map_some, Option.map_none, Option.toList_some, Option.toList_none,
      stackWeight_cons, stackWeight_nil, scheduleThen]
    simp only [stepsLeft, runSteps, closeSteps, afterSteps, List.length_cons, List.length_nil,
      Invocation.prepare, Nat.mul_succ, Nat.mul_zero]
    omega

/-- `Start`. -/
theorem startStep_steps {pc : StartPc} {t : Turn StartPc} (hTurn : startStep g s x pc = some t) :
    stackWeight (stepsLeft g m) t.calls +
      stackWeight (stepsLeft g m) (t.next.map Frame.start).toList < startSteps g pc := by
  revert hTurn
  fun_cases startStep g s x pc
  all_goals intro hTurn; cases hTurn
  case case9.refl n rest =>
    have hSchedule := scheduleNode_steps (g := g) (m := m) (s := s) n
    show stackWeight _ (scheduleNode g s n).2 + (startSteps g (.openNodes rest) + 0) <
      startSteps g (.addSource n rest)
    simp only [startSteps]
    omega
  all_goals repeat' split
  all_goals
    try simp only [Option.map_some, Option.map_none, Option.toList_some, Option.toList_none,
      stackWeight_cons, stackWeight_nil]
    simp only [stepsLeft, startSteps, handleIdleSteps, List.length_cons, List.length_nil]
    omega

/-- A public call that does not wait. -/
theorem apiStep_steps {pc : ApiPc} {t : Turn ApiPc}
    (hMirrors : ∀ o, (s.net.outputs o).mirrors.length ≤ m)
    (hWait : pc.isWait = false) (hTurn : apiStep g s pc = some t) :
    stackWeight (stepsLeft g m) t.calls +
      stackWeight (stepsLeft g m) (t.next.map Frame.api).toList < apiSteps g m pc := by
  have hRunning := fun b => map_steps (g := g) (m := m) 3 (Frame.setRunning · b)
    g.queues fun _ => rfl
  have hSubmit := map_steps (g := g) (m := m) 3 Frame.submitWaitingTasks
    g.queues fun _ => rfl
  have hCleanup := map_steps (g := g) (m := m) 1 Frame.cleanupAfterRun
    g.queues fun _ => rfl
  revert hTurn
  fun_cases apiStep g s pc
  all_goals intro hTurn; cases hTurn
  all_goals try exact Bool.noConfusion hWait
  case case3.refl =>
    refine lt_of_le_of_lt (Nat.add_le_add_right (propagateThen_steps (hMirrors _)) _) ?_
    simp only [propagateThen, Option.map_some, Option.toList_some, stackWeight_cons,
      stackWeight_nil]
    simp only [stepsLeft, apiSteps]
    omega
  all_goals try split
  all_goals
    try simp only [Option.map_some, Option.map_none, Option.toList_some, Option.toList_none,
      stackWeight_cons, stackWeight_nil, stackWeight_append, hRunning, hSubmit, hCleanup]
    simp only [stepsLeft, apiSteps, handleIdleSteps]
    omega

theorem le_flatMap_length {n : NodeId} (hNode : n ∈ g.nodes) (list : NodeId → List Nat) :
    (list n).length ≤ (g.nodes.flatMap list).length := by
  rw [List.flatMap_def]
  exact (List.sublist_flatten_of_mem (List.mem_map_of_mem hNode)).length_le

/-- `RunNode` from its beginning, for a node of the graph. -/
theorem runSteps_le_taskSteps {n : NodeId} (hNode : n ∈ g.nodes) :
    runSteps g m n (.popInputs (g.inputPorts n)) + handleIdleSteps g + 6 <
      taskSteps g m := by
  have hInputs : (g.inputs n).length ≤ g.inputStreams.length := le_flatMap_length hNode g.inputs
  have hOutputs : (g.outputs n).length ≤ g.outputManagers.length :=
    le_flatMap_length hNode g.outputs
  have hPorts : (g.inputPorts n).length = (g.inputs n).length := by simp [Graph.inputs]
  have hMul : outputSteps m * (g.outputs n).length ≤
      outputSteps m * g.outputManagers.length := Nat.mul_le_mul_left _ hOutputs
  have hTask : (2 * outputSteps m + 1) * g.outputManagers.length =
      2 * (outputSteps m * g.outputManagers.length) + g.outputManagers.length := by
    rw [Nat.add_mul, Nat.one_mul, Nat.mul_assoc]
  simp only [runSteps, afterSteps, closeSteps, taskSteps]
  omega

/-! ## The lists of a run -/

/-- The nodes `Start` still goes over. -/
def StartPc.nodes : StartPc → List NodeId
  | .assign rest | .openNodes rest => rest
  | .insertSource n rest | .addSource n rest => n :: rest
  | .begin | .openFailed | .wire _ => []

/-- The nodes a run has on its lists are nodes of the graph. -/
structure Listed (g : Graph) (s : Shared) (fs : List Frame) : Prop where
  active : s.activeSources ⊆ g.nodes
  activeOnce : s.activeSources.Nodup
  assigned : ∀ n, s.assigned n = true → n ∈ g.nodes
  items : ∀ q, ∀ item ∈ (s.queues q).items, item.node ∈ g.nodes
  starting : ∀ pc, .start pc ∈ fs → pc.nodes ⊆ g.nodes

/-- A step takes active sources off the list, or `Start` adds one. -/
theorem activeSources_after (hStep : exec g s f x = some (s', fs)) :
    s'.activeSources.Sublist s.activeSources ∨
      ∃ n rest, f = .start (.insertSource n rest) ∧ n ∉ s.activeSources ∧
        s'.activeSources = s.activeSources ++ [n] := by
  cases f with
  | start pc =>
      obtain ⟨t, hTurn, rfl, -⟩ := exec_start hStep
      revert hTurn
      fun_cases startStep g s x pc
      case case8 n rest =>
        intro hTurn
        cases hTurn
        by_cases hMem : n ∈ s.activeSources
        · left
          simp [hMem]
        · right
          exact ⟨n, rest, rfl, hMem, by simp [hMem]⟩
      all_goals intro hTurn; cases hTurn
      all_goals left
      all_goals try split
      all_goals first
        | exact List.Sublist.refl _
        | rw [show (scheduleThen g s _ _).state = (scheduleNode g s _).1 from rfl, scheduleNode_eq]
  | handleIdle pc =>
      left
      obtain ⟨rfl, -⟩ := exec_handleIdle hStep
      fun_cases idleStep g s pc
      all_goals first
        | exact List.Sublist.refl _
        | (show (if _ then _ else _ : List NodeId).Sublist _
           split
           · exact List.nil_sublist _
           · exact List.Sublist.refl _)
        | (show (scheduleNode g s _).1.activeSources.Sublist _
           rw [scheduleNode_eq])
  | sourceStopped n =>
      left
      cases hStep
      exact List.filter_sublist
  | _ =>
      left
      rw [(exec_kept hStep).activeSources (by simp) (by simp) (by simp)]

/-- Only `Start` assigns a node to its queue. -/
theorem assigned_before {n : NodeId} (hStep : exec g s f x = some (s', fs))
    (hAssigned : s'.assigned n = true) :
    s.assigned n = true ∨ ∃ rest, f = .start (.assign (n :: rest)) := by
  cases f with
  | start pc =>
      obtain ⟨t, hTurn, rfl, -⟩ := exec_start hStep
      revert hTurn hAssigned
      fun_cases startStep g s x pc
      case case2 m rest =>
        intro hTurn hAssigned
        cases hTurn
        by_cases hEq : n = m
        · exact Or.inr ⟨rest, by rw [hEq]⟩
        · left
          simpa [Function.update_of_ne hEq] using hAssigned
      all_goals intro hTurn hAssigned; cases hTurn
      all_goals left
      all_goals first
        | exact hAssigned
        | (revert hAssigned; split <;> exact id)
        | (rw [show (scheduleThen g s _ _).state = (scheduleNode g s _).1 from rfl,
             scheduleNode_eq] at hAssigned
           exact hAssigned)
  | _ =>
      left
      rw [(exec_kept hStep).assigned (by simp)] at hAssigned
      exact hAssigned

/-- What `Start` goes on with is among what it had, or it begins with all nodes. -/
theorem startStep_nodes {pc pc' : StartPc} {t : Turn StartPc}
    (hTurn : startStep g s x pc = some t) (hNext : t.next = some pc') :
    pc'.nodes ⊆ pc.nodes ∨ pc'.nodes = g.nodes := by
  revert hTurn
  fun_cases startStep g s x pc
  all_goals intro hTurn; cases hTurn
  all_goals try (repeat' split at hNext)
  all_goals cases hNext
  all_goals first
    | exact Or.inr rfl
    | exact Or.inl (List.Subset.refl _)
    | exact Or.inl (List.subset_cons_self _ _)
    | exact Or.inl (List.nil_subset _)

theorem Listed.exec (hListed : Listed g s (A ++ f :: B))
    (hStep : Scheduler.exec g s f x = some (s', fs)) : Listed g s' (A ++ (fs ++ B)) := by
  have hRunning : ∀ pc, f = .start pc → pc.nodes ⊆ g.nodes := by
    rintro pc rfl
    exact hListed.starting pc mem_running
  constructor
  · rcases activeSources_after hStep with hSublist | ⟨n, rest, hFrame, -, hAdded⟩
    · exact List.Subset.trans hSublist.subset hListed.active
    · rw [hAdded, List.append_subset]
      refine ⟨hListed.active, ?_⟩
      exact List.cons_subset.mpr ⟨hRunning _ hFrame List.mem_cons_self, List.nil_subset _⟩
  · rcases activeSources_after hStep with hSublist | ⟨n, rest, -, hNew, hAdded⟩
    · exact hSublist.nodup hListed.activeOnce
    · rw [hAdded]
      exact List.Nodup.append hListed.activeOnce (List.nodup_singleton n)
        (List.disjoint_singleton.mpr hNew)
  · intro n hAssigned
    rcases assigned_before hStep hAssigned with hOld | ⟨rest, hFrame⟩
    · exact hListed.assigned n hOld
    · exact hRunning _ hFrame List.mem_cons_self
  · intro q item hItem
    rcases exec_items hStep hItem with hOld | ⟨n, rfl, -, hAssigned⟩
    · exact hListed.items q item hOld
    · exact hListed.assigned n hAssigned
  · intro pc hMem
    rcases mem_after hMem with hNew | hOld
    · cases f with
      | start pc₀ =>
          obtain ⟨t, hTurn, -, rfl⟩ := exec_start hStep
          rcases List.mem_append.mp hNew with hCall | hNext
          · exact absurd rfl ((startStep_calls hTurn _ hCall).2 pc)
          · have hSelf : t.next = some pc := by
              obtain ⟨pc', hSome, hEq⟩ := Option.map_eq_some_iff.mp (Option.mem_toList.mp hNext)
              cases hEq
              exact hSome
            rcases startStep_nodes hTurn hSelf with hSub | hAll
            · exact List.Subset.trans hSub (hRunning _ rfl)
            · rw [hAll]
              exact List.Subset.refl _
      | _ => exact absurd (exec_leaves hStep _ hNew) (by simp [Frame.Leaves])
    · exact hListed.starting pc hOld

theorem Listed.spawn {b : Call} (hListed : Listed g s A)
    (hSpawn : Scheduler.spawn g s b = some (s', fs)) : Listed g s' (A ++ fs) := by
  have hStarting : (∀ pc, .start pc ∉ fs) → ∀ pc, .start pc ∈ A ++ fs → pc.nodes ⊆ g.nodes := by
    intro hNone pc hMem
    exact hListed.starting pc ((List.mem_append.mp hMem).resolve_right (hNone pc))
  rcases spawn_cases hSpawn with ⟨q, -, -, rfl, rfl⟩ | ⟨rfl, pc, rfl, -⟩
  · exact ⟨hListed.active, hListed.activeOnce, hListed.assigned, hListed.items,
      hStarting (by simp)⟩
  · exact ⟨hListed.active, hListed.activeOnce, hListed.assigned, hListed.items,
      hStarting (by simp)⟩

theorem mirrors_started {outputs : OutId → OutputStreamManager} {q₀ : QueueId} {cb : Bool}
    {c : Config Shared Frame}
    (hReach : (machine g).Reaches Guard.all (started (initial outputs q₀ cb)) c) (o : OutId) :
    (c.shared.net.outputs o).mirrors = (outputs o).mirrors := by
  refine Machine.invariant (I := fun s _ => (s.net.outputs o).mirrors = (outputs o).mirrors)
    rfl ?_ ?_ hReach
  · intro s A f B x s' fs hSame _ hStep
    exact (exec_wiring hStep o).1.trans hSame
  · intro s A b s' fs hSame _ hSpawn
    rcases spawn_cases hSpawn with ⟨q, -, -, rfl, -⟩ | ⟨rfl, -⟩
    · exact hSame
    · exact hSame

theorem listed_started {outputs : OutId → OutputStreamManager} {q₀ : QueueId} {cb : Bool}
    {c : Config Shared Frame}
    (hReach : (machine g).Reaches Guard.all (started (initial outputs q₀ cb)) c) :
    Listed g c.shared c.frames := by
  refine Machine.invariant (I := Listed g) ?_ ?_ ?_ hReach
  · refine ⟨List.nil_subset _, List.nodup_nil, ?_, ?_, ?_⟩
    · intro n hAssigned
      exact absurd hAssigned Bool.false_ne_true
    · intro q item hItem
      exact absurd hItem List.not_mem_nil
    · intro pc hMem
      have hBegin : pc = .begin := by simpa [Config.frames, started] using hMem
      subst hBegin
      exact List.nil_subset _
  · intro s A f B x s' fs hListed _ hStep
    exact hListed.exec hStep
  · intro s A b s' fs hListed _ hSpawn
    exact hListed.spawn hSpawn

/-- What a run keeps small: the mirrors of every manager, the active sources, the items. -/
structure Bounded (g : Graph) (m : Nat) (s : Shared) : Prop where
  mirrors : ∀ o, (s.net.outputs o).mirrors.length ≤ m
  active : s.activeSources.length ≤ g.nodes.length
  items : ∀ q, ∀ item ∈ (s.queues q).items, item.node ∈ g.nodes

theorem bounded_started {outputs : OutId → OutputStreamManager} {q₀ : QueueId} {cb : Bool}
    {c : Config Shared Frame} (hMirrors : ∀ o, (outputs o).mirrors.length ≤ m)
    (hReach : (machine g).Reaches Guard.all (started (initial outputs q₀ cb)) c) :
    Bounded g m c.shared := by
  have hListed := listed_started hReach
  refine ⟨fun o => ?_, ?_, hListed.items⟩
  · rw [mirrors_started hReach o]
    exact hMirrors o
  · exact (hListed.activeOnce.subperm hListed.active).length_le

/-! ## The result -/

/-- **One step uses up one of the steps left.** -/
theorem exec_stepsLeft (hBounded : Bounded g m s) (hWait : f.isWait = false)
    (hStep : exec g s f x = some (s', fs)) :
    stackWeight (stepsLeft g m) fs < stepsLeft g m f := by
  obtain ⟨hMirrors, hActive, hItems⟩ := hBounded
  cases f with
  | run r pc =>
      obtain ⟨t, hTurn, -, rfl⟩ := exec_run hStep
      rw [stackWeight_append]
      exact runStep_steps hMirrors hTurn
  | handleIdle pc =>
      obtain ⟨-, rfl⟩ := exec_handleIdle hStep
      rw [stackWeight_append]
      exact idleStep_steps pc hActive
  | start pc =>
      obtain ⟨t, hTurn, -, rfl⟩ := exec_start hStep
      rw [stackWeight_append]
      exact startStep_steps hTurn
  | api pc =>
      obtain ⟨t, hTurn, -, rfl⟩ := exec_api hStep
      rw [stackWeight_append]
      exact apiStep_steps hMirrors hWait hTurn
  | arrival n =>
      have hFrames : fs = (scheduleNode g s n).2 :=
        (congrArg Prod.snd (Option.some.inj hStep)).symm
      have hSchedule := scheduleNode_steps (g := g) (m := m) (s := s) n
      rw [hFrames]
      show _ < 3
      omega
  | runNextTask q =>
      simp only [exec] at hStep
      split at hStep
      · cases hStep
        show handleIdleSteps g + 4 + 0 < taskSteps g m
        simp only [taskSteps]
        omega
      · rename_i item queue hPop
        cases hStep
        have hNode : item.node ∈ g.nodes := hItems q item (SchedulerQueue.tryPop_eq_some hPop).1
        have hRun := runSteps_le_taskSteps (m := m) hNode
        show runSteps g m item.node (.popInputs (g.inputPorts item.node)) +
          (handleIdleSteps g + 6 + 0) < taskSteps g m
        omega
  | propagate p =>
      simp only [exec] at hStep
      split at hStep <;> cases hStep
      · show 0 < 10 * p.mirrors.length + 1
        omega
      · rename_i hSome
        have hLength : 0 < p.mirrors.length :=
          List.length_pos_iff.mpr fun hNone => hSome (by rw [hNone]; rfl)
        have hArrival := arrivalCallback_steps (g := g) (m := m)
          (Propagation.packetStep g.routes s.net.streams p).2.2
        rw [stackWeight_append]
        show _ + (10 * ((Propagation.packetStep g.routes s.net.streams p).2.1.mirrors.length - 1) +
          6 + 0) < 10 * p.mirrors.length + 1
        rw [Propagation.packetStep_mirrors]
        omega
  | propagateBound p =>
      cases hStep
      have hArrival := arrivalCallback_steps (g := g) (m := m)
        (Propagation.boundStep g.routes s.net.streams p).2.2
      rw [stackWeight_append]
      show _ + (10 * (Propagation.boundStep g.routes s.net.streams p).2.1.mirrors.length + 1 + 0) <
        10 * (p.mirrors.length - 1) + 6
      rw [Propagation.boundStep_snd]
      show _ + (10 * p.mirrors.tail.length + 1 + 0) < _
      rw [List.length_tail]
      omega
  | closeManager o =>
      simp only [exec] at hStep
      have hSize := hMirrors o
      split at hStep <;> cases hStep
      · show 0 < 10 * m + 3
        omega
      · rename_i manager p hClose
        have hSame : p.mirrors = (s.net.outputs o).mirrors := by
          unfold OutputStreamManager.beginClose at hClose
          split at hClose <;> cases hClose
          rfl
        show 10 * p.mirrors.length + 1 + 0 < 10 * m + 3
        rw [hSame]
        omega
  | submitToExecutor q | setRunning q b =>
      simp only [exec] at hStep
      split at hStep <;> cases hStep <;> simp [stepsLeft]
  | submitWaitingTasks q =>
      cases hStep
      split <;> simp [stepsLeft]
  | onTaskFinished q =>
      cases hStep
      split
      all_goals
        simp [stepsLeft]
        try omega
  | updateIdleState q =>
      cases hStep
      have hIdle := idleCallback_steps (g := g) (m := m) (s.queues q)
      show _ < handleIdleSteps g + 3
      omega
  | dropTask q | sourceStopped n | queueError status =>
      cases hStep
      simp [stepsLeft, handleIdleSteps]
      try omega
  | addTask q | notifyAll | cleanupAfterRun q | userError status =>
      cases hStep
      exact Nat.one_pos

theorem apiStep_isWait {pc pc' : ApiPc} {t : Turn ApiPc} (hWait : pc.isWait = false)
    (hTurn : apiStep g s pc = some t) (hNext : t.next = some pc') : pc'.isWait = false := by
  revert hTurn
  fun_cases apiStep g s pc
  all_goals intro hTurn; cases hTurn
  all_goals try exact Bool.noConfusion hWait
  all_goals try split at hNext
  all_goals cases hNext <;> rfl

/-- A call that does not wait makes no call that does. -/
theorem exec_isWait (hWait : f.isWait = false) (hStep : exec g s f x = some (s', fs)) :
    ∀ f' ∈ fs, f'.isWait = false := by
  intro f' hMem
  have hLeaves := exec_leaves hStep f' hMem
  cases f' with
  | api pc' =>
      cases f with
      | api pc =>
          obtain ⟨t, hTurn, -, rfl⟩ := exec_api hStep
          rcases List.mem_append.mp hMem with hCall | hNext
          · exact absurd rfl ((apiStep_calls hTurn _ hCall).2 pc')
          · obtain ⟨pc'', hSome, hEq⟩ := Option.map_eq_some_iff.mp (Option.mem_toList.mp hNext)
            cases hEq
            exact apiStep_isWait hWait hTurn hSome
      | _ => exact absurd hLeaves (by simp [Frame.Leaves])
  | _ => rfl

/-- Nothing but a wait blocks: a call into a node returns, and every other frame has a
step. -/
theorem exec_ok (hWait : f.isWait = false) : (exec g s f .ok).isSome = true := by
  cases f with
  | run r pc =>
      show ((runStep g s r .ok pc).map _).isSome = true
      rw [Option.isSome_map]
      unfold runStep
      split <;> first | rfl | (split <;> rfl)
  | start pc =>
      show ((startStep g s .ok pc).map _).isSome = true
      rw [Option.isSome_map]
      unfold startStep
      split <;> rfl
  | api pc =>
      show ((apiStep g s pc).map _).isSome = true
      rw [Option.isSome_map]
      cases pc with
      | addPacketToInputStream stream packet | closeInputStream stream =>
          simp only [apiStep]
          split <;> rfl
      | waitUntilDone | waitUntilDoneBlock | waitUntilDoneBlocked since | waitForIdle rest
      | waitForIdleBlock | waitForIdleBlocked since => exact Bool.noConfusion hWait
      | _ => rfl
  | submitToExecutor q | runNextTask q | propagate p | closeManager o =>
      simp only [exec]
      split <;> rfl
  | _ => rfl

/-- **Every task and every call returns.**  In every run of the asynchronous runtime, a thread
that is not inside one of the two waits takes no more steps of its own than its stack weighs,
whatever the other threads do in between, and at any point it has returned from everything or
has a next step, with a call into a node, if it stands in one, returning OK. -/
theorem every_call_returns {outputs : OutId → OutputStreamManager} {q₀ : QueueId} {cb : Bool}
    {c c' : Config Shared Frame} {i : Nat} {stack : List Frame}
    {schedule : List (Action Choice Call)}
    (hMirrors : ∀ o, (outputs o).mirrors.length ≤ m)
    (hReach : (machine g).Reaches Guard.all (started (initial outputs q₀ cb)) c)
    (hThread : c.threads[i]? = some stack) (hWait : ∀ f ∈ stack, f.isWait = false)
    (hRun : (machine g).runSchedule Guard.all c schedule = some c') :
    schedule.countP (Action.isStepOf i) ≤ stackWeight (stepsLeft g m) stack ∧
      (c'.threads[i]? = some [] ∨ ((machine g).step c' (.run i .ok)).isSome = true) := by
  have hLess : ∀ s f x s' fs, Bounded g m s → f.isWait = false →
      (machine g).exec s f x = some (s', fs) → (∀ f' ∈ fs, f'.isWait = false) ∧
        stackWeight (stepsLeft g m) fs < stepsLeft g m f := by
    intro s f x s' fs hBounded hWait hStep
    exact ⟨exec_isWait hWait hStep, exec_stepsLeft hBounded hWait hStep⟩
  obtain ⟨stack', hThread', hWait', hLe⟩ := Machine.own_steps_le (w := stepsLeft g m)
    (J := Bounded g m) (P := fun f => f.isWait = false)
    (fun c hReach => bounded_started hMirrors hReach) hLess hReach hThread hWait hRun
  refine ⟨by omega, ?_⟩
  cases stack' with
  | nil => exact Or.inl hThread'
  | cons f below =>
      right
      simp only [Machine.step, hThread']
      rw [Option.isSome_map]
      exact exec_ok (hWait' f List.mem_cons_self)

/-- `Start` of a single node, followed by 19 of its own steps. -/
theorem start_returns :
    ∃ c', (machine (.chain 1 id id_lt_one)).runSchedule Guard.all
        (started (chainInitial 1 false)) (runs 0 19 .ok) = some c' ∧
      19 ≤ stackWeight (stepsLeft (.chain 1 id id_lt_one) 1) [.start .begin] ∧
      (c'.threads[0]? = some [] ∨
        ((machine (.chain 1 id id_lt_one)).step c' (.run 0 .ok)).isSome = true) := by
  have hRan : ((machine (.chain 1 id id_lt_one)).runSchedule Guard.all
      (started (chainInitial 1 false)) (runs 0 19 .ok)).isSome = true := by decide +kernel
  obtain ⟨c', hRun⟩ := Option.isSome_iff_exists.mp hRan
  refine ⟨c', hRun, ?_⟩
  have hMirrors : ∀ o, (chainOutputs 1 o).mirrors.length ≤ 1 := by
    intro o
    unfold chainOutputs
    split <;> simp
  have hThread : (started (chainInitial 1 false)).threads[0]? = some [.start .begin] := rfl
  have hWait : ∀ f ∈ [Frame.start .begin], f.isWait = false := by
    intro f hMem
    rw [List.mem_singleton.mp hMem]
    rfl
  exact every_call_returns hMirrors .refl hThread hWait hRun

end GraphRuntime.Scheduler
