import GraphRuntime.Scheduler.Machine

/-!
# What one step changes

One inversion lemma for each part of the state, over all frames at once:

* `scheduleNode_cases`: what `AddNode` does;
* `runStep_frame`, `idleStep_frame`, `startStep_frame`, `apiStep_frame`: the
  parts of the state a function leaves alone;
* `exec_queue`: what a step makes of one scheduler queue (`QueueChange`);
* `exec_stream`: what a step makes of one input manager (`StreamChange`), and
  the arrival callbacks it leaves to be run;
* `exec_leaves`: which frames a step may leave (`Frame.Leaves`, the call graph).

The invariants of the later modules look at these lists and not at the
definition of `exec`, apart from the frames they are about.
-/

namespace GraphRuntime.Scheduler

open GraphRuntime.Stream Interleaving

variable {g : Graph} {s s' : Shared} {f : Frame} {fs : List Frame} {x : Choice}

/-! ## Functions and their turns -/

/-- The frame a function leaves for itself. -/
abbrev runFrame (next : Invocation × RunPc) : Frame := .run next.1 next.2

theorem exec_run {r : Invocation} {pc : RunPc}
    (hStep : exec g s (.run r pc) x = some (s', fs)) :
    ∃ t, runStep g s r x pc = some t ∧ s' = t.state ∧
      fs = t.calls ++ (t.next.map runFrame).toList := by
  obtain ⟨t, hTurn, hOut⟩ := Option.map_eq_some_iff.mp hStep
  cases hOut
  exact ⟨t, hTurn, rfl, rfl⟩

theorem exec_handleIdle {pc : IdlePc}
    (hStep : exec g s (.handleIdle pc) x = some (s', fs)) :
    s' = (idleStep g s pc).state ∧
      fs = (idleStep g s pc).calls ++
        ((idleStep g s pc).next.map Frame.handleIdle).toList := by
  cases hStep
  exact ⟨rfl, rfl⟩

theorem exec_start {pc : StartPc}
    (hStep : exec g s (.start pc) x = some (s', fs)) :
    ∃ t, startStep g s x pc = some t ∧ s' = t.state ∧
      fs = t.calls ++ (t.next.map Frame.start).toList := by
  obtain ⟨t, hTurn, hOut⟩ := Option.map_eq_some_iff.mp hStep
  cases hOut
  exact ⟨t, hTurn, rfl, rfl⟩

theorem exec_api {pc : ApiPc} (hStep : exec g s (.api pc) x = some (s', fs)) :
    ∃ t, apiStep g s pc = some t ∧ s' = t.state ∧
      fs = t.calls ++ (t.next.map Frame.api).toList := by
  obtain ⟨t, hTurn, hOut⟩ := Option.map_eq_some_iff.mp hStep
  cases hOut
  exact ⟨t, hTurn, rfl, rfl⟩

/-! ## `AddNode` -/

/-- **What `AddNode` does**: nothing when the node has no queue yet or is at
its limit, otherwise it pushes one item and counts it. -/
theorem scheduleNode_cases (g : Graph) (s : Shared) (n : NodeId) :
    ((s.assigned n = false ∨ g.maxInFlight n ≤ s.pendingCount n) ∧
      scheduleNode g s n = (s, [])) ∨
    (s.assigned n = true ∧ s.pendingCount n < g.maxInFlight n ∧
      (scheduleNode g s n).1 = (s.incrementPending n).setQueue (g.queue n)
        ((s.queues (g.queue n)).push (g.item n)) ∧
      (scheduleNode g s n).2 =
        if (s.queues (g.queue n)).running then [.submitToExecutor (g.queue n)]
        else []) := by
  by_cases hAssigned : s.assigned n = true
  · by_cases hLimit : s.pendingCount n ≥ g.maxInFlight n
    · left
      refine ⟨Or.inr hLimit, ?_⟩
      rw [scheduleNode, if_pos hAssigned, addNode, if_pos hLimit]
    · right
      rw [scheduleNode, if_pos hAssigned, addNode, if_neg hLimit]
      exact ⟨hAssigned, not_le.mp hLimit, rfl, rfl⟩
  · left
    refine ⟨Or.inl (by simpa using hAssigned), ?_⟩
    rw [scheduleNode, if_neg hAssigned]

theorem scheduleNode_frames {n : NodeId} (hMem : f ∈ (scheduleNode g s n).2) :
    f = .submitToExecutor (g.queue n) := by
  rcases scheduleNode_cases g s n with ⟨-, hNone⟩ | ⟨-, -, -, hFrames⟩
  · rw [hNone] at hMem
    exact absurd hMem (by simp)
  · rw [hFrames] at hMem
    split at hMem
    · simpa using hMem
    · exact absurd hMem (by simp)

/-- `AddNode` touches the queues and the pending counts only. -/
theorem scheduleNode_eq (g : Graph) (s : Shared) (n : NodeId) :
    (scheduleNode g s n).1 =
      { s with
        queues := (scheduleNode g s n).1.queues
        pendingCount := (scheduleNode g s n).1.pendingCount } := by
  rcases scheduleNode_cases g s n with ⟨-, hNone⟩ | ⟨-, -, hState, -⟩
  · rw [hNone]
  · rw [hState]; rfl

/-- `AddNode` takes the request: the node has its queue and is below its
limit. -/
def accepts (g : Graph) (s : Shared) (n : NodeId) : Bool :=
  s.assigned n && decide (s.pendingCount n < g.maxInFlight n)

theorem assigned_of_accepts {n : NodeId} (hAccepts : accepts g s n = true) :
    s.assigned n = true := (Bool.and_eq_true_iff.mp hAccepts).1

/-- A queue after `AddNode` differs from before at most by one item. -/
theorem scheduleNode_queues (g : Graph) (s : Shared) (n : NodeId) (q : QueueId) :
    (scheduleNode g s n).1.queues q = s.queues q ∨
      (q = g.queue n ∧ accepts g s n = true ∧
        (scheduleNode g s n).1.queues q = (s.queues q).push (g.item n)) := by
  rcases scheduleNode_cases g s n with ⟨-, hNone⟩ | ⟨hAssigned, hLimit, hState, -⟩
  · left
    rw [hNone]
  · by_cases hQueue : q = g.queue n
    · right
      refine ⟨hQueue, by simp [accepts, hAssigned, hLimit], ?_⟩
      rw [hState, hQueue]
      simp [Shared.incrementPending]
    · left
      rw [hState]
      simp [hQueue, Shared.incrementPending]

/-! ## The parts a function leaves alone -/

/-- `RunNode` changes managers, queues, pending counts, the log and the warnings. -/
theorem runStep_frame {r : Invocation} {pc : RunPc} {t : Turn (Invocation × RunPc)}
    (hTurn : runStep g s r x pc = some t) :
    ∃ net queues pendingCount log warnings, t.state =
      { s with
        net := net, queues := queues, pendingCount := pendingCount, log := log
        warnings := warnings } := by
  revert hTurn
  fun_cases runStep g s r x pc
  all_goals intro hTurn; cases hTurn
  all_goals first
    | exact ⟨_, _, _, _, _, rfl⟩
    | exact ⟨_, _, _, _, _, scheduleNode_eq g s r.node⟩

/-- `HandleIdle` changes no manager and not `has_error_`. -/
theorem idleStep_frame (g : Graph) (s : Shared) (pc : IdlePc) :
    ∃ queues pendingCount state handlingIdle activeSources log,
      (idleStep g s pc).state =
        { s with
          queues := queues, pendingCount := pendingCount, state := state
          handlingIdle := handlingIdle, activeSources := activeSources
          log := log } := by
  fun_cases idleStep g s pc
  all_goals first
    | exact ⟨_, _, _, _, _, _, rfl⟩
    | exact ⟨_, _, _, _, _, _, scheduleNode_eq g s _⟩

theorem startStep_frame {pc : StartPc} {t : Turn StartPc}
    (hTurn : startStep g s x pc = some t) :
    ∃ queues pendingCount assigned state activeSources log, t.state =
      { s with
        queues := queues, pendingCount := pendingCount, assigned := assigned
        state := state, activeSources := activeSources, log := log } := by
  revert hTurn
  fun_cases startStep g s x pc
  case case5 =>
    intro hTurn
    cases hTurn
    split <;> exact ⟨_, _, _, _, _, _, rfl⟩
  all_goals intro hTurn; cases hTurn
  all_goals first
    | exact ⟨_, _, _, _, _, _, rfl⟩
    | exact ⟨_, _, _, _, _, _, scheduleNode_eq g s _⟩

/-- A public call changes no queue and no input manager itself. -/
theorem apiStep_frame {pc : ApiPc} {t : Turn ApiPc}
    (hTurn : apiStep g s pc = some t) :
    ∃ outputs state stopping hasError numClosed closedStreams, t.state =
      { s with
        net := { s.net with outputs := outputs }
        state := state, stopping := stopping, hasError := hasError
        numClosedGraphInputStreams := numClosed
        closedStreams := closedStreams } := by
  revert hTurn
  fun_cases apiStep g s pc
  all_goals intro hTurn; cases hTurn
  all_goals (try split) <;> exact ⟨_, _, _, _, _, _, rfl⟩

/-! ## Queues -/

/-- The node a step calls `AddNode` for. -/
def Frame.schedules : Frame → Option NodeId
  | .arrival n => some n
  | .run r .stopReAdd | .run r (.act .kSchedule) | .run r (.reAdd _)
  | .run r .sourceReAdd | .run r .safetyAdd => some r.node
  | .handleIdle (.drainAddNode n _) | .handleIdle (.drainFinalAdd n)
  | .handleIdle (.readdSources (n :: _)) => some n
  | .start (.addSource n _) => some n
  | _ => none

/-- What a step of frame `f` that leaves the frames `fs` can make of queue
`q`. -/
inductive QueueChange (g : Graph) (s : Shared) (q : QueueId) :
    Frame → List Frame → SchedulerQueue → Prop
  | same (f : Frame) (fs : List Frame) : QueueChange g s q f fs (s.queues q)
  | pushed (f : Frame) (fs : List Frame) (n : NodeId) (hQueue : q = g.queue n)
      (hSchedules : f.schedules = some n) (hAccepts : accepts g s n = true) :
      QueueChange g s q f fs ((s.queues q).push (g.item n))
  | popped (it : Item) (hMem : it ∈ (s.queues q).items) :
      QueueChange g s q (.runNextTask q)
        [.run { queue := q, node := it.node, isOpen := it.isOpenNode }
          (.popInputs (g.inputPorts it.node)), .onTaskFinished q]
        { s.queues q with items := (s.queues q).items.erase it }
  | submitted (fs : List Frame) :
      QueueChange g s q (.submitToExecutor q) fs (s.queues q).taskSubmitted
  | dropped (fs : List Frame) :
      QueueChange g s q (.dropTask q) fs (s.queues q).taskFinished
  | finished (fs : List Frame) :
      QueueChange g s q (.onTaskFinished q) fs (s.queues q).taskFinished
  | running (fs : List Frame) (b : Bool) :
      QueueChange g s q (.setRunning q b) fs ((s.queues q).setRunning b)
  | cleaned (fs : List Frame) :
      QueueChange g s q (.cleanupAfterRun q) fs (s.queues q).cleanupAfterRun
  | counted (fs : List Frame) (r : Invocation) (hQueue : q = r.queue)
      (count : Int) :
      QueueChange g s q (.run r (.popInputs [])) fs
        { s.queues q with timestampCounter := count }
  | decided (fs : List Frame) (r : Invocation) (b : Bool) (hQueue : q = r.queue) :
      QueueChange g s q (.run r (.decide b)) fs
        ((s.queues q).decideFinalize r.node b).2
  | wired (fs : List Frame) (rest : List QueueId) :
      QueueChange g s q (.start (.wire (q :: rest))) fs
        { s.queues q with idleCallback := true, sourceStoppedCallback := true }

namespace QueueChange

variable {q : QueueId}

theorem schedule {n : NodeId} (hSchedules : f.schedules = some n) :
    QueueChange g s q f fs ((scheduleNode g s n).1.queues q) := by
  rcases scheduleNode_queues g s n q with hSame | ⟨hQueue, hAccepts, hPush⟩
  · rw [hSame]
    exact .same f fs
  · rw [hPush]
    exact .pushed f fs n hQueue hSchedules hAccepts

/-- A step that writes queue `p`. -/
theorem set {p : QueueId} {queue : SchedulerQueue}
    (hChange : q = p → QueueChange g s q f fs queue) :
    QueueChange g s q f fs ((s.setQueue p queue).queues q) := by
  by_cases hEq : q = p
  · have hValue : (s.setQueue p queue).queues q = queue := by simp [hEq]
    rw [hValue]
    exact hChange hEq
  · have hValue : (s.setQueue p queue).queues q = s.queues q := by simp [hEq]
    rw [hValue]
    exact .same f fs

theorem of_runStep {r : Invocation} {pc : RunPc} {t : Turn (Invocation × RunPc)}
    (hTurn : runStep g s r x pc = some t) :
    QueueChange g s q (.run r pc) fs (t.state.queues q) := by
  revert hTurn
  fun_cases runStep g s r x pc
  all_goals intro hTurn; cases hTurn
  all_goals first
    | exact .same _ _
    | exact .schedule rfl
    | exact .set fun hEq => by subst hEq; exact .counted _ r rfl _
    | exact .set fun hEq => by subst hEq; exact .decided _ r _ rfl

theorem of_idleStep (pc : IdlePc) :
    QueueChange g s q (.handleIdle pc) fs ((idleStep g s pc).state.queues q) := by
  fun_cases idleStep g s pc
  all_goals first
    | exact .same _ _
    | exact .schedule rfl

theorem of_startStep {pc : StartPc} {t : Turn StartPc}
    (hTurn : startStep g s x pc = some t) :
    QueueChange g s q (.start pc) fs (t.state.queues q) := by
  revert hTurn
  fun_cases startStep g s x pc
  all_goals intro hTurn; cases hTurn
  all_goals first
    | exact .same _ _
    | exact .schedule rfl
    | exact .set fun hEq => hEq ▸ .wired _ _
    | (split <;> exact .same _ _)

end QueueChange

/-- **What a step makes of a queue.** -/
theorem exec_queue (q : QueueId) (hStep : exec g s f x = some (s', fs)) :
    QueueChange g s q f fs (s'.queues q) := by
  cases f with
  | run r pc =>
      obtain ⟨t, hTurn, rfl, rfl⟩ := exec_run hStep
      exact .of_runStep hTurn
  | handleIdle pc =>
      obtain ⟨rfl, rfl⟩ := exec_handleIdle hStep
      exact .of_idleStep pc
  | start pc =>
      obtain ⟨t, hTurn, rfl, rfl⟩ := exec_start hStep
      exact .of_startStep hTurn
  | api pc =>
      obtain ⟨t, hTurn, rfl, rfl⟩ := exec_api hStep
      obtain ⟨_, _, _, _, _, _, hState⟩ := apiStep_frame hTurn
      rw [hState]
      exact .same _ _
  | arrival n =>
      have hState : s' = (scheduleNode g s n).1 :=
        (congrArg Prod.fst (Option.some.inj hStep)).symm
      rw [hState]
      exact .schedule rfl
  | submitToExecutor p =>
      simp only [exec] at hStep
      split at hStep <;> cases hStep
      · exact .set fun hEq => hEq ▸ .submitted _
      · exact .same _ _
  | runNextTask p =>
      simp only [exec] at hStep
      split at hStep <;> cases hStep
      · exact .same _ _
      · rename_i hPop
        obtain ⟨hMem, rfl⟩ := SchedulerQueue.tryPop_eq_some hPop
        exact .set fun hEq => by subst hEq; exact .popped _ hMem
  | dropTask p => cases hStep; exact .set fun hEq => hEq ▸ .dropped _
  | onTaskFinished p => cases hStep; exact .set fun hEq => hEq ▸ .finished _
  | setRunning p b => cases hStep; exact .set fun hEq => hEq ▸ .running _ _
  | cleanupAfterRun p => cases hStep; exact .set fun hEq => hEq ▸ .cleaned _
  | propagate p | closeManager o | userError status =>
      simp only [exec] at hStep
      split at hStep <;> cases hStep <;> exact .same _ _
  | addTask p | updateIdleState p | submitWaitingTasks p | notifyAll
  | propagateBound p | sourceStopped n | queueError status =>
      cases hStep; exact .same _ _

/-- A node is finalized on the queue it is bound to. -/
def finalized (g : Graph) (s : Shared) (n : NodeId) : Bool :=
  (s.queues (g.queue n)).isFinalized n

/-- A finalized node stays finalized. -/
theorem exec_finalized {n : NodeId} (hStep : exec g s f x = some (s', fs))
    (hFinal : finalized g s n = true) : finalized g s' n = true := by
  unfold finalized at hFinal ⊢
  have hChange := exec_queue (g.queue n) hStep
  generalize s'.queues (g.queue n) = queue at hChange ⊢
  cases hChange with
  | decided _ r b _ =>
      unfold SchedulerQueue.decideFinalize
      repeat' split
      all_goals simp_all [SchedulerQueue.isFinalized]
  | _ => exact hFinal

/-! ## Input managers -/

/-- The manager the current iteration of a propagation is about. -/
def target (g : Graph) (p : Propagation) : Option StreamId :=
  p.mirrors.head?.bind (Mirror.resolve g.routes)

/-- What a step of frame `f` that leaves the frames `fs` can make of manager
`t`. -/
inductive StreamChange (g : Graph) (s : Shared) (t : StreamId) :
    Frame → List Frame → InputStreamManager → Prop
  | same (f : Frame) (fs : List Frame) : StreamChange g s t f fs (s.stream t)
  | popped (r : Invocation) (port : String) (rest : List (String × StreamId))
      (fs : List Frame) :
      StreamChange g s t (.run r (.popInputs ((port, t) :: rest))) fs
        (s.stream t).popQueueHead.2.2
  | added (p : Propagation) (fs : List Frame) (hTarget : target g p = some t)
      (hPackets : p.packets ≠ [])
      (hArrival : ((s.stream t).addPackets p.packets).notify = true →
        .arrival (g.owner t) ∈ fs) :
      StreamChange g s t (.propagate p) fs
        ((s.stream t).addPackets p.packets).manager
  | bounded (p : Propagation) (fs : List Frame) (hTarget : target g p = some t)
      (hArrival : (s.stream t).nextTimestampBound < p.nextBound →
        .arrival (g.owner t) ∈ fs) :
      StreamChange g s t (.propagateBound p) fs
        ((s.stream t).setNextTimestampBound p.nextBound).1

namespace StreamChange

variable {t : StreamId}

/-- A step that leaves all input managers alone. -/
theorem of_net (hNet : s'.net.streams = s.net.streams) :
    StreamChange g s t f fs (s'.stream t) := by
  have hValue : s'.stream t = s.stream t := congrFun hNet t
  rw [hValue]
  exact .same f fs

/-- A step that writes manager `u`. -/
theorem set {u : StreamId} {m : InputStreamManager}
    (hChange : t = u → StreamChange g s t f fs m) :
    StreamChange g s t f fs
      ((s.setStreams (Function.update s.net.streams u m)).stream t) := by
  by_cases hEq : t = u
  · have hValue : (s.setStreams (Function.update s.net.streams u m)).stream t = m := by
      simp [Shared.stream, hEq]
    rw [hValue]
    exact hChange hEq
  · have hValue : (s.setStreams (Function.update s.net.streams u m)).stream t =
        s.stream t := by
      simp [Shared.stream, hEq]
    rw [hValue]
    exact .same f fs

theorem of_runStep {r : Invocation} {pc : RunPc} {u : Turn (Invocation × RunPc)}
    (hTurn : runStep g s r x pc = some u) :
    StreamChange g s t (.run r pc) fs (u.state.stream t) := by
  revert hTurn
  fun_cases runStep g s r x pc
  all_goals intro hTurn; cases hTurn
  all_goals first
    | exact .same _ _
    | exact .of_net (congrArg (fun s => s.net.streams) (scheduleNode_eq g s _))
    | exact .set fun hEq => by subst hEq; exact .popped r _ _ _

theorem of_propagate {p : Propagation} (hMirrors : p.mirrors ≠ []) :
    StreamChange g s t (.propagate p)
      (arrivalCallback g (Propagation.packetStep g.routes s.net.streams p).2.2 ++
        [.propagateBound (Propagation.packetStep g.routes s.net.streams p).2.1])
      ((Propagation.packetStep g.routes s.net.streams p).1 t) := by
  obtain ⟨mirrors, packets, nextBound, setBound⟩ := p
  obtain ⟨mirror, rest, rfl⟩ := List.exists_cons_of_ne_nil hMirrors
  by_cases hPackets : packets = []
  · subst hPackets
    rw [Propagation.packetStep_of_nil]
    exact .same _ _
  · cases hResolve : mirror.resolve g.routes with
    | none =>
        simp only [Propagation.packetStep, hResolve]
        exact .same _ _
    | some u =>
        obtain ⟨hStreams, hWake⟩ := @Propagation.packetStep_of_resolve g.routes
          s.net.streams mirror rest packets nextBound setBound u hResolve hPackets
        rw [hStreams, hWake]
        refine StreamChange.set (s := s) (u := u) fun hEq => ?_
        subst hEq
        refine .added _ _ (by simp [target, hResolve]) hPackets ?_
        intro hNotify
        have hNotify' : ((s.net.streams t).addPackets packets).notify = true := hNotify
        simp [hNotify', arrivalCallback]

theorem of_propagateBound (p : Propagation) :
    StreamChange g s t (.propagateBound p)
      (arrivalCallback g (Propagation.boundStep g.routes s.net.streams p).2.2 ++
        [.propagate (Propagation.boundStep g.routes s.net.streams p).2.1])
      ((Propagation.boundStep g.routes s.net.streams p).1 t) := by
  obtain ⟨mirrors, packets, nextBound, setBound⟩ := p
  unfold Propagation.boundStep
  split
  · exact .same _ _
  · rename_i mirror rest hMirrors
    have hTarget : target g ⟨mirrors, packets, nextBound, setBound⟩ =
        mirror.resolve g.routes := by
      simp only at hMirrors
      simp [target, hMirrors]
    split
    · exact .same _ _
    · rename_i u hResolve
      split
      · refine StreamChange.set (s := s) (u := u) fun hEq => ?_
        subst hEq
        refine .bounded _ _ (hTarget.trans hResolve) ?_
        intro hBound
        have hRaise : (s.net.streams t).nextTimestampBound < nextBound := hBound
        simp [InputStreamManager.setNextTimestampBound, hRaise, arrivalCallback]
      · exact .same _ _

end StreamChange

/-- **What a step makes of an input manager.** -/
theorem exec_stream (t : StreamId) (hStep : exec g s f x = some (s', fs)) :
    StreamChange g s t f fs (s'.stream t) := by
  cases f with
  | run r pc =>
      obtain ⟨u, hTurn, rfl, rfl⟩ := exec_run hStep
      exact .of_runStep hTurn
  | handleIdle pc =>
      obtain ⟨rfl, rfl⟩ := exec_handleIdle hStep
      obtain ⟨_, _, _, _, _, _, hState⟩ := idleStep_frame g s pc
      exact .of_net (by rw [hState])
  | start pc =>
      obtain ⟨u, hTurn, rfl, rfl⟩ := exec_start hStep
      obtain ⟨_, _, _, _, _, _, hState⟩ := startStep_frame hTurn
      exact .of_net (by rw [hState])
  | api pc =>
      obtain ⟨u, hTurn, rfl, rfl⟩ := exec_api hStep
      obtain ⟨_, _, _, _, _, _, hState⟩ := apiStep_frame hTurn
      exact .of_net (by rw [hState])
  | arrival n =>
      have hState : s' = (scheduleNode g s n).1 :=
        (congrArg Prod.fst (Option.some.inj hStep)).symm
      exact .of_net (by rw [hState, scheduleNode_eq])
  | propagate p =>
      simp only [exec] at hStep
      split at hStep <;> cases hStep
      · exact .same _ _
      · rename_i hMirrors
        exact .of_propagate (by simpa using hMirrors)
  | propagateBound p => cases hStep; exact .of_propagateBound p
  | submitToExecutor p | closeManager o | userError status | runNextTask p =>
      simp only [exec] at hStep
      split at hStep <;> cases hStep <;> exact .same _ _
  | dropTask p | onTaskFinished p | setRunning p b | cleanupAfterRun p
  | addTask p | updateIdleState p | submitWaitingTasks p | notifyAll
  | sourceStopped n | queueError status =>
      cases hStep; exact .same _ _

/-! ## The scheduler's own fields -/

/-- What a step of frame `f` can make of `state_`. -/
inductive StateChange (s : Shared) : Frame → SchedulerState → Prop
  | same (f : Frame) : StateChange s f s.state
  | started : StateChange s (.start .begin) .kRunning
  | openFailed : StateChange s (.start .openFailed) .kTerminated
  | cancelled : StateChange s (.handleIdle .cancelTerminate) .kTerminated
  | quit (l : IdleLocals) : StateChange s (.handleIdle (.closeNodes l [])) .kTerminated
  | paused : StateChange s (.api .pauseWrite) .kPaused
  | resumed : StateChange s (.api .resumeWrite) .kRunning
  | cancelling : StateChange s (.api .cancelState) .kCancelling
  | shutdown : StateChange s (.api .shutdownState) .kTerminated

/-- **What a step makes of `state_`.** -/
theorem exec_state (hStep : exec g s f x = some (s', fs)) :
    StateChange s f s'.state := by
  cases f with
  | run r pc =>
      obtain ⟨t, hTurn, rfl, rfl⟩ := exec_run hStep
      obtain ⟨_, _, _, _, _, hState⟩ := runStep_frame hTurn
      rw [hState]
      exact .same _
  | handleIdle pc =>
      obtain ⟨rfl, rfl⟩ := exec_handleIdle hStep
      fun_cases idleStep g s pc
      all_goals first
        | exact .same _
        | exact .cancelled
        | exact .quit _
        | exact (congrArg (StateChange s _ ·.state) (scheduleNode_eq g s _)).mpr (.same _)
  | start pc =>
      obtain ⟨t, hTurn, rfl, rfl⟩ := exec_start hStep
      revert hTurn
      fun_cases startStep g s x pc
      all_goals intro hTurn; cases hTurn
      all_goals first
        | exact .same _
        | exact .started
        | exact .openFailed
        | exact (congrArg (StateChange s _ ·.state) (scheduleNode_eq g s _)).mpr (.same _)
        | (split <;> exact .same _)
  | api pc =>
      obtain ⟨t, hTurn, rfl, rfl⟩ := exec_api hStep
      revert hTurn
      fun_cases apiStep g s pc
      all_goals intro hTurn; cases hTurn
      all_goals try split
      all_goals first
        | exact .same _
        | exact .paused
        | exact .resumed
        | exact .cancelling
        | exact .shutdown
  | arrival n =>
      have hState : s' = (scheduleNode g s n).1 :=
        (congrArg Prod.fst (Option.some.inj hStep)).symm
      rw [hState, scheduleNode_eq]
      exact .same _
  | _ =>
      revert hStep
      unfold exec
      simp only
      repeat' split
      all_goals intro hStep; cases hStep
      all_goals exact .same _

/-- `has_error_` is set by the queues' error callback and by `Cancel`, and is
never reset. -/
theorem exec_hasError (hStep : exec g s f x = some (s', fs)) :
    s'.hasError = s.hasError ∨
      (s'.hasError = true ∧ ((∃ status, f = .queueError status) ∨ f = .api .cancelError)) := by
  cases f with
  | run r pc =>
      obtain ⟨t, hTurn, rfl, rfl⟩ := exec_run hStep
      obtain ⟨_, _, _, _, _, hState⟩ := runStep_frame hTurn
      rw [hState]
      exact Or.inl rfl
  | handleIdle pc =>
      obtain ⟨rfl, rfl⟩ := exec_handleIdle hStep
      obtain ⟨_, _, _, _, _, _, hState⟩ := idleStep_frame g s pc
      rw [hState]
      exact Or.inl rfl
  | start pc =>
      obtain ⟨t, hTurn, rfl, rfl⟩ := exec_start hStep
      obtain ⟨_, _, _, _, _, _, hState⟩ := startStep_frame hTurn
      rw [hState]
      exact Or.inl rfl
  | api pc =>
      obtain ⟨t, hTurn, rfl, rfl⟩ := exec_api hStep
      revert hTurn
      fun_cases apiStep g s pc
      all_goals intro hTurn; cases hTurn
      all_goals try split
      all_goals first
        | exact Or.inl rfl
        | exact Or.inr ⟨rfl, Or.inr rfl⟩
  | queueError status => cases hStep; exact Or.inr ⟨rfl, Or.inl ⟨status, rfl⟩⟩
  | arrival n =>
      have hState : s' = (scheduleNode g s n).1 :=
        (congrArg Prod.fst (Option.some.inj hStep)).symm
      rw [hState, scheduleNode_eq]
      exact Or.inl rfl
  | _ =>
      left
      revert hStep
      unfold exec
      simp only
      repeat' split
      all_goals intro hStep; cases hStep
      all_goals rfl

/-- What a step of frame `f` can make of the log. -/
inductive LogChange (s : Shared) : Frame → List Event → Prop
  | same (f : Frame) : LogChange s f s.log
  | openItem (r : Invocation) (status : Status) :
      LogChange s (.run r .callOpen) (s.log ++ [.opened r.node status])
  | processCalled (r : Invocation) :
      LogChange s (.run r (.prepareOutputs [])) (s.log ++ [.processCalled r.node r.inputs])
  | processReturned (r : Invocation) (status : Status) :
      LogChange s (.run r .inProcess) (s.log ++ [.processReturned r.node status])
  | opened (n : NodeId) (rest : List NodeId) (status : Status) :
      LogChange s (.start (.openNodes (n :: rest))) (s.log ++ [.opened n status])
  | closed (l : IdleLocals) (n : NodeId) (rest : List NodeId) :
      LogChange s (.handleIdle (.closeNodes l (n :: rest))) (s.log ++ [.closed n])
  | reported (status : Status) :
      LogChange s (.userError status) (s.log ++ [.errorCallback status])

theorem LogChange.schedule (n : NodeId) : LogChange s f (scheduleNode g s n).1.log := by
  rw [scheduleNode_eq]
  exact .same f

/-- The log only grows. -/
theorem LogChange.isPrefix {log : List Event} (hChange : LogChange s f log) :
    s.log <+: log := by
  cases hChange with
  | same => exact List.prefix_refl _
  | _ => exact List.prefix_append _ _

/-- **What a step makes of the log.** -/
theorem exec_log (hStep : exec g s f x = some (s', fs)) : LogChange s f s'.log := by
  cases f with
  | run r pc =>
      obtain ⟨t, hTurn, rfl, rfl⟩ := exec_run hStep
      revert hTurn
      fun_cases runStep g s r x pc
      all_goals intro hTurn; cases hTurn
      all_goals first
        | exact .same _
        | exact .schedule _
        | exact .openItem _ _
        | exact .processCalled _
        | exact .processReturned _ _
  | handleIdle pc =>
      obtain ⟨rfl, rfl⟩ := exec_handleIdle hStep
      fun_cases idleStep g s pc
      all_goals first
        | exact .same _
        | exact .schedule _
        | exact .closed _ _ _
  | start pc =>
      obtain ⟨t, hTurn, rfl, rfl⟩ := exec_start hStep
      revert hTurn
      fun_cases startStep g s x pc
      all_goals intro hTurn; cases hTurn
      all_goals try split
      all_goals first
        | exact .same _
        | exact .schedule _
        | exact .opened _ _ _
  | api pc =>
      obtain ⟨t, hTurn, rfl, rfl⟩ := exec_api hStep
      obtain ⟨_, _, _, _, _, _, hState⟩ := apiStep_frame hTurn
      rw [hState]
      exact .same _
  | arrival n =>
      have hState : s' = (scheduleNode g s n).1 :=
        (congrArg Prod.fst (Option.some.inj hStep)).symm
      rw [hState]
      exact .schedule n
  | _ =>
      revert hStep
      unfold exec
      simp only
      repeat' split
      all_goals intro hStep; cases hStep
      all_goals first
        | exact .same _
        | exact .reported _

/-- The fields that few frames write. -/
structure Kept (s : Shared) (f : Frame) (s' : Shared) : Prop where
  errorCallback : s'.errorCallback = s.errorCallback
  handlingIdle : (∀ pc, f ≠ .handleIdle pc) → s'.handlingIdle = s.handlingIdle
  assigned : (∀ pc, f ≠ .start pc) → s'.assigned = s.assigned
  tasks : (∀ q, f ≠ .addTask q) → s'.tasks = s.tasks
  activeSources : (∀ pc, f ≠ .start pc) → (∀ pc, f ≠ .handleIdle pc) →
    (∀ n, f ≠ .sourceStopped n) → s'.activeSources = s.activeSources
  numClosed : (∀ pc, f ≠ .api pc) →
    s'.numClosedGraphInputStreams = s.numClosedGraphInputStreams
  closedStreams : (∀ pc, f ≠ .api pc) → s'.closedStreams = s.closedStreams
  notifications : f ≠ .notifyAll → s'.notifications = s.notifications

/-- **What a step leaves alone**, by the kind of its frame. -/
theorem exec_kept (hStep : exec g s f x = some (s', fs)) : Kept s f s' := by
  cases f with
  | run r pc =>
      obtain ⟨t, hTurn, rfl, rfl⟩ := exec_run hStep
      obtain ⟨_, _, _, _, _, hState⟩ := runStep_frame hTurn
      rw [hState]
      exact ⟨rfl, fun _ => rfl, fun _ => rfl, fun _ => rfl, fun _ _ _ => rfl,
        fun _ => rfl, fun _ => rfl, fun _ => rfl⟩
  | handleIdle pc =>
      obtain ⟨rfl, rfl⟩ := exec_handleIdle hStep
      obtain ⟨_, _, _, _, _, _, hState⟩ := idleStep_frame g s pc
      rw [hState]
      exact ⟨rfl, fun h => absurd rfl (h pc), fun _ => rfl, fun _ => rfl,
        fun _ h => absurd rfl (h pc), fun _ => rfl, fun _ => rfl, fun _ => rfl⟩
  | start pc =>
      obtain ⟨t, hTurn, rfl, rfl⟩ := exec_start hStep
      obtain ⟨_, _, _, _, _, _, hState⟩ := startStep_frame hTurn
      rw [hState]
      exact ⟨rfl, fun _ => rfl, fun h => absurd rfl (h pc), fun _ => rfl,
        fun h => absurd rfl (h pc), fun _ => rfl, fun _ => rfl, fun _ => rfl⟩
  | api pc =>
      obtain ⟨t, hTurn, rfl, rfl⟩ := exec_api hStep
      obtain ⟨_, _, _, _, _, _, hState⟩ := apiStep_frame hTurn
      rw [hState]
      exact ⟨rfl, fun _ => rfl, fun _ => rfl, fun _ => rfl, fun _ _ _ => rfl,
        fun h => absurd rfl (h pc), fun h => absurd rfl (h pc), fun _ => rfl⟩
  | arrival n =>
      have hState : s' = (scheduleNode g s n).1 :=
        (congrArg Prod.fst (Option.some.inj hStep)).symm
      rw [hState, scheduleNode_eq]
      exact ⟨rfl, fun _ => rfl, fun _ => rfl, fun _ => rfl, fun _ _ _ => rfl,
        fun _ => rfl, fun _ => rfl, fun _ => rfl⟩
  | addTask q =>
      cases hStep
      exact ⟨rfl, fun _ => rfl, fun _ => rfl, fun h => absurd rfl (h q),
        fun _ _ _ => rfl, fun _ => rfl, fun _ => rfl, fun _ => rfl⟩
  | sourceStopped n =>
      cases hStep
      exact ⟨rfl, fun _ => rfl, fun _ => rfl, fun _ => rfl,
        fun _ _ h => absurd rfl (h n), fun _ => rfl, fun _ => rfl, fun _ => rfl⟩
  | notifyAll =>
      cases hStep
      exact ⟨rfl, fun _ => rfl, fun _ => rfl, fun _ => rfl, fun _ _ _ => rfl,
        fun _ => rfl, fun _ => rfl, fun h => absurd rfl h⟩
  | _ =>
      revert hStep
      unfold exec
      simp only
      repeat' split
      all_goals intro hStep; cases hStep
      all_goals exact ⟨rfl, fun _ => rfl, fun _ => rfl, fun _ => rfl,
        fun _ _ _ => rfl, fun _ => rfl, fun _ => rfl, fun _ => rfl⟩

/-! ## Frames -/

/-- The call graph: which frames a step of a frame may leave in its place. -/
def Frame.Leaves : Frame → Frame → Prop
  | .arrival _, .submitToExecutor _ => True
  | .submitToExecutor p, .addTask q => p = q
  | .runNextTask p, .dropTask q => p = q
  | .runNextTask p, .onTaskFinished q => p = q
  | .runNextTask p, .run r (.popInputs _) => p = r.queue
  | .dropTask p, .updateIdleState q => p = q
  | .onTaskFinished p, .submitToExecutor q => p = q
  | .onTaskFinished p, .updateIdleState q => p = q
  | .updateIdleState _, .notifyAll => True
  | .updateIdleState _, .handleIdle .enter => True
  | .setRunning p _, .submitToExecutor q => p = q
  | .submitWaitingTasks p, .submitToExecutor q => p = q
  | .propagate _, .arrival _ => True
  | .propagate _, .propagateBound _ => True
  | .propagateBound _, .arrival _ => True
  | .propagateBound _, .propagate _ => True
  | .closeManager _, .propagate _ => True
  | .sourceStopped _, .notifyAll => True
  | .sourceStopped _, .handleIdle .enter => True
  | .queueError status, .userError status' => status = status'
  | .run r _, .run r' _ =>
      r'.queue = r.queue ∧ r'.node = r.node ∧ r'.isOpen = r.isOpen
  | .run _ _, .submitToExecutor _ => True
  | .run _ _, .propagate _ => True
  | .run _ _, .closeManager _ => True
  | .run r .stopNotify, .sourceStopped n => n = r.node
  | .run _ .stopNotify, .notifyAll => True
  | .run _ .stopNotify, .handleIdle .enter => True
  | .run _ (.errorReport _), .queueError _ => True
  | .handleIdle _, .submitToExecutor _ => True
  | .handleIdle .readCancelled, .cleanupAfterRun _ => True
  | .handleIdle _, .notifyAll => True
  | .handleIdle (.quitReport _), .userError _ => True
  | .handleIdle _, .handleIdle pc => pc ≠ .enter
  | .start _, .start _ => True
  | .start _, .submitToExecutor _ => True
  | .start (.openNodes _), .userError _ => True
  | .start (.wire (p :: _)), .setRunning q _ => p = q
  | .start (.wire []), .handleIdle .enter => True
  | .api (.injectPacket _ _), .propagate _ => True
  | .api (.closeInputStream _), .closeManager _ => True
  | .api .callHandleIdle, .handleIdle .enter => True
  | .api .pauseWrite, .setRunning _ b => b = false
  | .api .resumeWrite, .setRunning _ b => b = true
  | .api .resumeWrite, .submitWaitingTasks _ => True
  | .api .cancelPaused, .setRunning _ b => b = true
  | .api .shutdownState, .cleanupAfterRun _ => True
  | .api .shutdownState, .notifyAll => True
  | .api _, .api _ => True
  | _, _ => False

theorem forall_scheduleNode {P : Frame → Prop} {n : NodeId}
    (hSubmit : P (.submitToExecutor (g.queue n))) :
    ∀ f' ∈ (scheduleNode g s n).2, P f' :=
  fun _ hMem => scheduleNode_frames hMem ▸ hSubmit

theorem forall_one {P : Frame → Prop} {f' : Frame} (hOne : P f') : ∀ f'' ∈ [f'], P f'' :=
  fun _ hMem => List.mem_singleton.mp hMem ▸ hOne

theorem forall_ite_nil {P : Frame → Prop} {b : Prop} [Decidable b]
    {l : List Frame} (hAll : ∀ f' ∈ l, P f') :
    ∀ f' ∈ if b then l else [], P f' := by
  split
  · exact hAll
  · simp

theorem forall_arrivalCallback {P : Frame → Prop} {wake : Option StreamId} {l : List Frame}
    (hArrival : ∀ n, P (.arrival n)) (hRest : ∀ f' ∈ l, P f') :
    ∀ f' ∈ arrivalCallback g wake ++ l, P f' := by
  rw [List.forall_mem_append]
  refine ⟨?_, hRest⟩
  cases wake with
  | none => exact List.forall_mem_nil _
  | some t => exact forall_one (hArrival _)

/-- What holds of the calls and of the continuation holds of the frames left. -/
theorem forall_frames {P : Frame → Prop} {calls : List Frame} {next : Option Frame}
    (hCalls : ∀ f' ∈ calls, P f') (hNext : ∀ f', next = some f' → P f') :
    ∀ f' ∈ calls ++ next.toList, P f' := by
  simp only [List.forall_mem_append, Option.mem_toList]
  exact ⟨hCalls, fun f' hMem => hNext f' hMem⟩

theorem runStep_calls {r : Invocation} {pc : RunPc} {t : Turn (Invocation × RunPc)}
    (hTurn : runStep g s r x pc = some t) :
    ∀ f' ∈ t.calls, (Frame.run r pc).Leaves f' ∧ ∀ r' pc', f' ≠ .run r' pc' := by
  revert hTurn
  fun_cases runStep g s r x pc
  case case11 =>
    intro hTurn
    cases hTurn
    simp only [propagateThen, List.forall_mem_cons]
    exact ⟨⟨True.intro, by simp⟩, forall_ite_nil (forall_one ⟨True.intro, by simp⟩)⟩
  case case13 =>
    intro hTurn
    cases hTurn
    simp only [propagateThen, List.forall_mem_cons]
    exact ⟨⟨True.intro, by simp⟩, ⟨True.intro, by simp⟩, List.forall_mem_nil _⟩
  case case19 =>
    intro hTurn
    cases hTurn
    simp only
    split
    · exact forall_ite_nil (forall_one ⟨rfl, by simp⟩)
    · exact forall_ite_nil (List.forall_mem_cons.mpr
        ⟨⟨True.intro, by simp⟩, forall_one ⟨True.intro, by simp⟩⟩)
  case case21 =>
    intro hTurn
    cases hTurn
    exact forall_ite_nil (forall_one ⟨True.intro, by simp⟩)
  all_goals intro hTurn; cases hTurn
  all_goals first
    | exact List.forall_mem_nil _
    | exact forall_scheduleNode ⟨True.intro, by simp⟩

/-- A `RunNode` call goes on as the same call. -/
theorem runStep_next {r r' : Invocation} {pc pc' : RunPc}
    {t : Turn (Invocation × RunPc)} (hTurn : runStep g s r x pc = some t)
    (hNext : t.next = some (r', pc')) :
    r'.queue = r.queue ∧ r'.node = r.node ∧ r'.isOpen = r.isOpen := by
  revert hTurn
  fun_cases runStep g s r x pc
  all_goals intro hTurn; cases hTurn
  all_goals cases hNext
  all_goals simp only [Invocation.prepare, Invocation.clear, and_self]

theorem idleStep_calls (pc : IdlePc) :
    ∀ f' ∈ (idleStep g s pc).calls, (Frame.handleIdle pc).Leaves f' ∧
      ∀ pc', f' ≠ .handleIdle pc' := by
  fun_cases idleStep g s pc
  all_goals first
    | exact List.forall_mem_nil _
    | exact forall_one ⟨True.intro, by simp⟩
    | exact forall_scheduleNode ⟨True.intro, by simp⟩
    | exact forall_ite_nil (forall_one ⟨True.intro, by simp⟩)
    | exact List.forall_mem_map.mpr fun _ _ => ⟨True.intro, by simp⟩

theorem idleStep_next {pc pc' : IdlePc} (hNext : (idleStep g s pc).next = some pc') :
    pc' ≠ .enter := by
  revert hNext
  fun_cases idleStep g s pc
  all_goals intro hNext; cases hNext
  all_goals (try split) <;> simp

theorem startStep_calls {pc : StartPc} {t : Turn StartPc}
    (hTurn : startStep g s x pc = some t) :
    ∀ f' ∈ t.calls, (Frame.start pc).Leaves f' ∧ ∀ pc', f' ≠ .start pc' := by
  revert hTurn
  fun_cases startStep g s x pc
  all_goals intro hTurn; cases hTurn
  all_goals try split
  all_goals first
    | exact List.forall_mem_nil _
    | exact forall_one ⟨True.intro, by simp⟩
    | exact forall_scheduleNode ⟨True.intro, by simp⟩
    | exact forall_one ⟨rfl, by simp⟩

theorem apiStep_calls {pc : ApiPc} {t : Turn ApiPc}
    (hTurn : apiStep g s pc = some t) :
    ∀ f' ∈ t.calls, (Frame.api pc).Leaves f' ∧ ∀ pc', f' ≠ .api pc' := by
  revert hTurn
  fun_cases apiStep g s pc
  all_goals intro hTurn; cases hTurn
  all_goals try split
  all_goals simp only [propagateThen, List.forall_mem_append, List.forall_mem_map,
    List.forall_mem_cons, List.not_mem_nil, IsEmpty.forall_iff, implies_true,
    and_true]
  case case12.refl =>
    exact ⟨fun _ _ => ⟨rfl, by simp⟩, fun _ _ => ⟨True.intro, by simp⟩⟩
  all_goals first
    | exact ⟨True.intro, by simp⟩
    | exact fun _ _ => ⟨rfl, by simp⟩
    | exact ⟨fun _ _ => ⟨True.intro, by simp⟩, True.intro, by simp⟩

/-- **What a step leaves.** -/
theorem exec_leaves (hStep : exec g s f x = some (s', fs)) :
    ∀ f' ∈ fs, f.Leaves f' := by
  cases f with
  | run r pc =>
      obtain ⟨t, hTurn, rfl, rfl⟩ := exec_run hStep
      refine forall_frames (fun f' hMem => (runStep_calls hTurn f' hMem).1) ?_
      intro f' hNext
      obtain ⟨p, hSelf, rfl⟩ := Option.map_eq_some_iff.mp hNext
      exact runStep_next hTurn hSelf
  | handleIdle pc =>
      obtain ⟨rfl, rfl⟩ := exec_handleIdle hStep
      refine forall_frames (fun f' hMem => (idleStep_calls pc f' hMem).1) ?_
      intro f' hNext
      obtain ⟨pc', hSelf, rfl⟩ := Option.map_eq_some_iff.mp hNext
      exact idleStep_next hSelf
  | start pc =>
      obtain ⟨t, hTurn, rfl, rfl⟩ := exec_start hStep
      refine forall_frames (fun f' hMem => (startStep_calls hTurn f' hMem).1) ?_
      intro f' hNext
      obtain ⟨pc', -, rfl⟩ := Option.map_eq_some_iff.mp hNext
      exact True.intro
  | api pc =>
      obtain ⟨t, hTurn, rfl, rfl⟩ := exec_api hStep
      refine forall_frames (fun f' hMem => (apiStep_calls hTurn f' hMem).1) ?_
      intro f' hNext
      obtain ⟨pc', -, rfl⟩ := Option.map_eq_some_iff.mp hNext
      cases pc <;> exact True.intro
  | arrival n =>
      have hFrames : fs = (scheduleNode g s n).2 :=
        (congrArg Prod.snd (Option.some.inj hStep)).symm
      rw [hFrames]
      exact forall_scheduleNode True.intro
  | propagate p =>
      simp only [exec] at hStep
      split at hStep <;> cases hStep
      · exact List.forall_mem_nil _
      · exact forall_arrivalCallback (fun _ => True.intro) (forall_one True.intro)
  | propagateBound p =>
      cases hStep
      exact forall_arrivalCallback (fun _ => True.intro) (forall_one True.intro)
  | runNextTask q =>
      simp only [exec] at hStep
      split at hStep <;> cases hStep
      · exact forall_one rfl
      · exact List.forall_mem_cons.mpr ⟨rfl, forall_one rfl⟩
  | submitToExecutor q | closeManager o | userError status =>
      simp only [exec] at hStep
      split at hStep <;> cases hStep
      all_goals first
        | exact List.forall_mem_nil _
        | exact forall_one rfl
        | exact forall_one True.intro
  | updateIdleState q =>
      cases hStep
      exact forall_ite_nil (List.forall_mem_cons.mpr ⟨True.intro, forall_one True.intro⟩)
  | setRunning q b | submitWaitingTasks q =>
      cases hStep
      exact forall_ite_nil (forall_one rfl)
  | onTaskFinished q =>
      cases hStep
      exact List.forall_mem_append.mpr ⟨forall_ite_nil (forall_one rfl), forall_one rfl⟩
  | sourceStopped n =>
      cases hStep
      exact List.forall_mem_cons.mpr ⟨True.intro, forall_one True.intro⟩
  | dropTask q | queueError status =>
      cases hStep
      exact forall_one rfl
  | cleanupAfterRun q | addTask q | notifyAll =>
      cases hStep
      exact List.forall_mem_nil _

/-- **A `RunNode` call among the frames a step leaves** is the one that was run, going
on, or one a task starts for the item it has popped. -/
theorem run_of_exec {r : Invocation} {pc : RunPc} (hStep : exec g s f x = some (s', fs))
    (hMem : .run r pc ∈ fs) :
    (∃ r₀ pc₀ t, f = .run r₀ pc₀ ∧ runStep g s r₀ x pc₀ = some t ∧ s' = t.state ∧
        t.next = some (r, pc)) ∨
      (∃ q it queue, f = .runNextTask q ∧ (s.queues q).tryPop g.less = some (it, queue) ∧
        s' = s.setQueue q queue ∧
        r = { queue := q, node := it.node, isOpen := it.isOpenNode } ∧
        pc = .popInputs (g.inputPorts it.node)) := by
  have hLeaves := exec_leaves hStep _ hMem
  cases f with
  | run r₀ pc₀ =>
      obtain ⟨t, hTurn, rfl, rfl⟩ := exec_run hStep
      rcases List.mem_append.mp hMem with hCall | hSelf
      · exact absurd rfl ((runStep_calls hTurn _ hCall).2 r pc)
      · rw [Option.mem_toList] at hSelf
        obtain ⟨⟨r', pc'⟩, hNext, hEq⟩ := Option.map_eq_some_iff.mp hSelf
        cases hEq
        exact Or.inl ⟨r₀, pc₀, t, rfl, hTurn, rfl, hNext⟩
  | runNextTask q =>
      simp only [exec] at hStep
      split at hStep <;> cases hStep
      · simp at hMem
      · rename_i it queue hPop
        simp only [List.mem_cons, Frame.run.injEq, reduceCtorEq, List.not_mem_nil,
          or_false] at hMem
        exact Or.inr ⟨q, it, queue, rfl, hPop, rfl, hMem⟩
  | api pc => cases pc <;> exact False.elim hLeaves
  | _ => exact False.elim hLeaves

/-- A frame other than `RunNode` and `RunNextTask` leaves no `RunNode` call. -/
theorem not_run_of_exec (hRun : ∀ r pc, f ≠ .run r pc) (hTask : ∀ q, f ≠ .runNextTask q)
    (hStep : exec g s f x = some (s', fs)) : ∀ f' ∈ fs, ∀ r pc, f' ≠ .run r pc := by
  rintro f' hMem r pc rfl
  rcases run_of_exec hStep hMem with ⟨r₀, pc₀, -, hEq, -⟩ | ⟨q, -, -, hEq, -⟩
  · exact hRun r₀ pc₀ hEq
  · exact hTask q hEq

/-- `Start` among the frames a step leaves is going on. -/
theorem start_of_exec {pc : StartPc} (hStep : exec g s f x = some (s', fs))
    (hMem : .start pc ∈ fs) :
    ∃ pc₀ t, f = .start pc₀ ∧ startStep g s x pc₀ = some t ∧ s' = t.state ∧
      t.next = some pc := by
  have hLeaves := exec_leaves hStep _ hMem
  cases f with
  | start pc₀ =>
      obtain ⟨t, hTurn, rfl, rfl⟩ := exec_start hStep
      rcases List.mem_append.mp hMem with hCall | hSelf
      · exact absurd rfl ((startStep_calls hTurn _ hCall).2 pc)
      · rw [Option.mem_toList] at hSelf
        obtain ⟨pc', hNext, hEq⟩ := Option.map_eq_some_iff.mp hSelf
        cases hEq
        exact ⟨pc₀, t, rfl, hTurn, rfl, hNext⟩
  | api pc => cases pc <;> exact False.elim hLeaves
  | _ => exact False.elim hLeaves

/-- So is a call of the user. -/
theorem api_of_exec {pc : ApiPc} (hStep : exec g s f x = some (s', fs))
    (hMem : .api pc ∈ fs) :
    ∃ pc₀ t, f = .api pc₀ ∧ apiStep g s pc₀ = some t ∧ s' = t.state ∧ t.next = some pc := by
  have hLeaves := exec_leaves hStep _ hMem
  cases f with
  | api pc₀ =>
      obtain ⟨t, hTurn, rfl, rfl⟩ := exec_api hStep
      rcases List.mem_append.mp hMem with hCall | hSelf
      · exact absurd rfl ((apiStep_calls hTurn _ hCall).2 pc)
      · rw [Option.mem_toList] at hSelf
        obtain ⟨pc', hNext, hEq⟩ := Option.map_eq_some_iff.mp hSelf
        cases hEq
        exact ⟨pc₀, t, rfl, hTurn, rfl, hNext⟩
  | _ => exact False.elim hLeaves

/-- An arrival callback comes from a propagation into a manager of its node. -/
theorem exec_arrival {n : NodeId} (hStep : exec g s f x = some (s', fs))
    (hMem : .arrival n ∈ fs) :
    ∃ p t, (f = .propagate p ∨ f = .propagateBound p) ∧ target g p = some t ∧
      n = g.owner t := by
  have hLeaves := exec_leaves hStep _ hMem
  have hCallback : ∀ {wake : Option StreamId} {l : List Frame},
      .arrival n ∉ l → .arrival n ∈ arrivalCallback g wake ++ l →
      ∃ t, wake = some t ∧ n = g.owner t := by
    intro wake l hNot hIn
    cases wake with
    | none => exact absurd hIn (by simpa [arrivalCallback] using hNot)
    | some t => exact ⟨t, rfl, by simpa [arrivalCallback, hNot] using hIn⟩
  cases f with
  | propagate p =>
      simp only [exec] at hStep
      split at hStep <;> cases hStep
      · simp at hMem
      · obtain ⟨t, hWake, hOwner⟩ := hCallback (by simp) hMem
        refine ⟨p, t, Or.inl rfl, ?_, hOwner⟩
        unfold Propagation.packetStep at hWake
        repeat' split at hWake
        all_goals simp_all [target]
  | propagateBound p =>
      cases hStep
      obtain ⟨t, hWake, hOwner⟩ := hCallback (by simp) hMem
      refine ⟨p, t, Or.inr rfl, ?_, hOwner⟩
      unfold Propagation.boundStep at hWake
      repeat' split at hWake
      all_goals simp_all [target]
  | api pc => cases pc <;> exact False.elim hLeaves
  | _ => exact False.elim hLeaves

/-- **What a new thread starts with**: a worker its task, a caller its call. -/
theorem spawn_cases {b : Call} (hSpawn : spawn g s b = some (s', fs)) :
    (∃ q, b = .worker q ∧ s.tasks q > 0 ∧
      s' = { s with tasks := Function.update s.tasks q (s.tasks q - 1) } ∧
      fs = [.runNextTask q]) ∨
    (s' = s ∧ ∃ pc, fs = [.api pc] ∧
      ((∃ stream packet, b = .addPacketToInputStream stream packet ∧
          pc = .addPacketToInputStream stream packet) ∨
        (∃ stream, b = .closeInputStream stream ∧ pc = .closeInputStream stream) ∨
        (b = .pause ∧ pc = .pause) ∨ (b = .resume ∧ pc = .resume) ∨
        (b = .cancel ∧ pc = .cancel) ∨ (b = .shutdown ∧ pc = .shutdown) ∨
        (b = .waitUntilDone ∧ pc = .waitUntilDone) ∨
        (b = .waitForIdle ∧ pc = .waitForIdle g.queues))) := by
  cases b with
  | worker q =>
      left
      simp only [spawn] at hSpawn
      split at hSpawn <;> cases hSpawn
      exact ⟨q, rfl, ‹_›, rfl, rfl⟩
  | _ =>
      right
      cases hSpawn
      exact ⟨rfl, _, rfl, by simp⟩

end GraphRuntime.Scheduler
