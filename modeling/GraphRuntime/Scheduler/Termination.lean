import GraphRuntime.Scheduler.Quiescence

/-!
# Calls of `HandleIdle` that are dropped

A call that finds `handling_idle_` taken returns at once and leaves its work to
the call that is inside.  That one may have read `inputs_remaining`, or tested
a queue, before the dropped caller's update: then nobody looks again, and the
graph stays quiescent and is never terminated (`termination_lost`).

`Frame.owes` are the frames below which a call of `HandleIdle` is still to
come, and `Frame.onCourse` says that the call inside has read nothing that
keeps it from terminating.  With `callsKept`, which lets the guard drop a call
only while one of the two can still answer for it, no quiescent state in which
the graph should quit is left over (`no_termination_lost`).
-/

namespace GraphRuntime.Scheduler

open GraphRuntime.Stream Interleaving

variable {g : Graph} {s s' : Shared} {f : Frame} {fs A B below : List Frame}
  {x : Choice} {q : QueueId}

/-! ## When the graph should quit -/

/-- Every non-source node has all its inputs done and empty, and is
finalized. -/
def drained (g : Graph) (s : Shared) : Bool :=
  g.nodes.all fun n =>
    g.isSource n || ((g.inputs n).all (fun t => (s.stream t).isDone) && finalized g s n)

/-- `inputs_remaining`, as `HandleIdle` computes it. -/
def inputsRemaining (g : Graph) (s : Shared) : Bool :=
  decide (g.totalGraphInputStreams > 0) &&
    decide (s.numClosedGraphInputStreams < g.totalGraphInputStreams)

/-- `has_error_`, or no active source, all graph inputs closed and every node
drained and finalized. -/
def quitCondition (g : Graph) (s : Shared) : Bool :=
  s.hasError || (s.activeSources.isEmpty && !inputsRemaining g s && drained g s)

/-- All queues are idle and `state_` is one of the two in which `HandleIdle`
looks further. -/
def idleAndRunning (g : Graph) (s : Shared) : Bool :=
  (g.queues.all fun q => (s.queues q).isIdle) &&
    (decide (s.state = .kRunning) || decide (s.state = .kCancelling))

/-- `HandleIdle` should terminate the graph. -/
def ready (g : Graph) (s : Shared) : Bool := idleAndRunning g s && quitCondition g s

/-! ## Who will still look -/

/-- A call of `HandleIdle` is still to come from this frame. -/
def Frame.owes : Frame → Bool
  | .handleIdle .enter | .updateIdleState _ | .onTaskFinished _ | .dropTask _
  | .runNextTask _ | .sourceStopped _ | .start _ => true
  | .api pc =>
      match pc with
      | .callHandleIdle | .injectPacket _ _ | .closedStreamsInsert _
      | .incClosedGraphInputStreams | .cancelError | .cancelState | .cancelPaused
      | .resumeWrite => true
      | _ => false
  | _ => false

/-- The locals of a pass agree with quitting. -/
def IdleLocals.quits (s : Shared) (l : IdleLocals) : Bool :=
  s.hasError || (l.noMoreSources && !l.inputsRemaining)

/-- The second pass of `DrainInputQueues` does not stop at this node. -/
def passesFinal (g : Graph) (s : Shared) (n : NodeId) : Bool :=
  g.isSource n || finalized g s n || !s.assigned n ||
    !(g.inputs n).all fun t => (s.stream t).isDone

/-- A call inside that, as things stand, goes on to terminate the graph. -/
def IdlePc.onCourse (g : Graph) (s : Shared) : IdlePc → Bool
  | .readCancelled | .readInputs | .cancelTerminate | .quitReport _
  | .closeNodes _ _ => true
  | .scanIdle ir rest => (s.hasError || !ir) && rest.all fun q => decide (q ∈ g.queues)
  | .sweepSources ir | .readSources ir => s.hasError || !ir
  | .checkDrain l | .shouldQuit l => l.quits s
  | .drainIsDone l rest _ anyNonempty =>
      !anyNonempty && (rest.all fun t => (s.stream t).isEmpty) &&
        g.nodes.all (passesFinal g s) && l.quits s
  | .drainIsEmpty l t rest _ anyNonempty =>
      !anyNonempty && ((t :: rest).all fun t => (s.stream t).isEmpty) &&
        g.nodes.all (passesFinal g s) && l.quits s
  | .drainFinalize l rest _ => rest.all (passesFinal g s) && l.quits s
  | .drainAllDone l n ports rest _ =>
      (finalized g s n || !s.assigned n || !ports.all fun t => (s.stream t).isDone) &&
        rest.all (passesFinal g s) && l.quits s
  | .drainIsFinalized l n rest _ =>
      (finalized g s n || !s.assigned n) && rest.all (passesFinal g s) && l.quits s
  | _ => false

def Frame.onCourse (g : Graph) (s : Shared) : Frame → Bool
  | .handleIdle pc => pc.onCourse g s
  | _ => false

/-- Someone will still call `HandleIdle`, or is on course to terminate. -/
def Answered (g : Graph) (s : Shared) (fs : List Frame) : Prop :=
  ∃ f ∈ fs, f.owes = true ∨ f.onCourse g s = true

/-- Every queue has its idle callback. -/
def allWired (g : Graph) (s : Shared) : Bool :=
  g.queues.all fun q => (s.queues q).idleCallback

/-- A call of `HandleIdle` is dropped when the graph should quit only while
another call is to come or the one inside is on course; and a termination is
not taken back while a queue has no idle callback or is still to be cleaned
up. -/
def callsKept (g : Graph) : Guard Shared Frame Choice Call where
  exec := fun s others f _ =>
    match f with
    | .handleIdle .enter =>
        !(decide (s.handlingIdle > 0) && ready g s) ||
          others.any fun f' => f'.owes || f'.onCourse g s
    | .api .pauseWrite | .api .resumeWrite | .api .cancelState =>
        decide (s.state ≠ .kTerminated) || allWired g s
    | .cleanupAfterRun _ =>
        decide (s.state = .kTerminated) ||
          others.any fun f' => match f' with
            | .handleIdle .cancelTerminate => true
            | _ => false
    | _ => true
  spawn := fun _ _ _ => true

/-! ## The pass on course -/

/-- What a pass on course depends on is as before. -/
structure Unmoved (s s' : Shared) : Prop where
  hasError : s'.hasError = s.hasError
  numClosed : s'.numClosedGraphInputStreams = s.numClosedGraphInputStreams
  assigned : s'.assigned = s.assigned
  streams : s'.net.streams = s.net.streams
  finalized : ∀ q, (s'.queues q).finalizedNodes = (s.queues q).finalizedNodes

namespace Unmoved

theorem stream_eq (hUnmoved : Unmoved s s') (t : StreamId) : s'.stream t = s.stream t :=
  congrFun hUnmoved.streams t

theorem finalized_eq (hUnmoved : Unmoved s s') (n : NodeId) :
    Scheduler.finalized g s' n = Scheduler.finalized g s n := by
  simp only [Scheduler.finalized, SchedulerQueue.isFinalized, hUnmoved.finalized]

theorem passesFinal_eq (hUnmoved : Unmoved s s') :
    passesFinal g s' = passesFinal g s := by
  funext n
  simp only [passesFinal, hUnmoved.finalized_eq, hUnmoved.assigned, hUnmoved.stream_eq]

theorem onCourse (hUnmoved : Unmoved s s') (pc : IdlePc) :
    pc.onCourse g s' = pc.onCourse g s := by
  cases pc
  all_goals simp only [IdlePc.onCourse, IdleLocals.quits, hUnmoved.hasError,
    hUnmoved.stream_eq, hUnmoved.passesFinal_eq, hUnmoved.finalized_eq, hUnmoved.assigned]

theorem drained_eq (hUnmoved : Unmoved s s') : drained g s' = drained g s := by
  simp only [drained, hUnmoved.finalized_eq, hUnmoved.stream_eq]

end Unmoved

theorem isIdle_of_ready (hReady : ready g s = true) (hQueue : q ∈ g.queues) :
    (s.queues q).isIdle = true := by
  simp only [ready, idleAndRunning, Bool.and_eq_true, List.all_eq_true] at hReady
  exact hReady.1.1 q hQueue

theorem state_of_ready (hReady : ready g s = true) :
    s.state = .kRunning ∨ s.state = .kCancelling := by
  simp only [ready, idleAndRunning, Bool.and_eq_true, Bool.or_eq_true,
    decide_eq_true_eq] at hReady
  exact hReady.1.2

theorem quitCondition_of_ready (hReady : ready g s = true) :
    s.hasError = true ∨
      (s.activeSources.isEmpty = true ∧ inputsRemaining g s = false ∧
        drained g s = true) := by
  simp only [ready, quitCondition, Bool.and_eq_true, Bool.or_eq_true,
    Bool.not_eq_true'] at hReady
  tauto

theorem drained_node {n : NodeId} (hDrained : drained g s = true) (hNode : n ∈ g.nodes)
    (hSource : g.isSource n = false) :
    (∀ t ∈ g.inputs n, (s.stream t).isDone = true) ∧ finalized g s n = true := by
  simp only [drained, List.all_eq_true, Bool.or_eq_true, Bool.and_eq_true] at hDrained
  exact (hDrained n hNode).resolve_left (by simp [hSource])

theorem isEmpty_of_isDone {m : InputStreamManager} (hDone : m.isDone = true) :
    m.isEmpty = true :=
  InputStreamManager.isEmpty_iff.mpr (InputStreamManager.isDone_iff.mp hDone).1

/-- A node with inputs is no source. -/
theorem isSource_of_mem {n : NodeId} {t : StreamId} (hMem : t ∈ g.inputs n) :
    g.isSource n = false := by
  obtain ⟨p, hPort, -⟩ := List.mem_map.mp hMem
  simpa [Graph.isSource] using List.ne_nil_of_mem hPort

theorem isEmpty_of_drained {t : StreamId} (hDrained : drained g s = true)
    (hMem : t ∈ g.inputStreams) : (s.stream t).isEmpty = true := by
  obtain ⟨n, hNode, hInput⟩ := List.mem_flatMap.mp hMem
  exact isEmpty_of_isDone
    ((drained_node hDrained hNode (isSource_of_mem hInput)).1 t hInput)

theorem passesFinal_of_drained {n : NodeId} (hDrained : drained g s = true)
    (hNode : n ∈ g.nodes) : passesFinal g s n = true := by
  cases hSource : g.isSource n with
  | true => simp [passesFinal, hSource]
  | false => simp [passesFinal, (drained_node hDrained hNode hSource).2]

/-- **A pass on course stays on course** as long as the graph should quit, and
ends by terminating it. -/
theorem idleStep_onCourse {pc : IdlePc} (hReady : ready g s = true)
    (hCourse : pc.onCourse g s = true) :
    (∃ pc', (idleStep g s pc).next = some pc' ∧ pc'.onCourse g s = true) ∨
      (idleStep g s pc).state.state = .kTerminated := by
  have hState := state_of_ready hReady
  have hQuit := quitCondition_of_ready hReady
  cases pc with
  | enter | dropLeave | leave | drainReschedule _ | drainHasInput _ _ _
  | drainIsRunning _ _ | drainAddNode _ _ | drainFinalAdd _ | readActive
  | readdSources _ => exact absurd hCourse Bool.false_ne_true
  | cancelTerminate => exact Or.inr rfl
  | readCancelled =>
      left
      by_cases hCancel : s.state = .kCancelling ∧ s.hasError = true
      · exact ⟨.cancelTerminate, by simp [idleStep, hCancel], rfl⟩
      · exact ⟨.readInputs, by simp [idleStep, hCancel, goto], rfl⟩
  | readInputs =>
      left
      refine ⟨.scanIdle (inputsRemaining g s) g.queues, rfl, ?_⟩
      rcases hQuit with hError | ⟨-, hClosed, -⟩
      · simp [IdlePc.onCourse, hError]
      · simp [IdlePc.onCourse, hClosed]
  | scanIdle ir rest =>
      left
      cases rest with
      | nil =>
          refine ⟨.sweepSources ir, by simp [idleStep, hState], ?_⟩
          simpa [IdlePc.onCourse] using hCourse
      | cons q rest =>
          simp only [IdlePc.onCourse, List.all_cons, Bool.and_eq_true,
            decide_eq_true_eq] at hCourse
          have hIdle := isIdle_of_ready hReady hCourse.2.1
          refine ⟨.scanIdle ir rest, by simp [idleStep, hIdle], ?_⟩
          simp only [IdlePc.onCourse, Bool.and_eq_true]
          exact ⟨hCourse.1, hCourse.2.2⟩
  | sweepSources ir => exact Or.inl ⟨.readSources ir, rfl, hCourse⟩
  | readSources ir =>
      left
      refine ⟨.checkDrain ⟨ir, s.activeSources.isEmpty, none⟩, rfl, ?_⟩
      rcases hQuit with hError | ⟨hSources, -, -⟩
      · simp [IdlePc.onCourse, IdleLocals.quits, hError]
      · simpa [IdlePc.onCourse, IdleLocals.quits, hSources] using hCourse
  | checkDrain l =>
      left
      by_cases hDrain : (l.noMoreSources && !s.hasError && !l.inputsRemaining &&
          s.state ≠ .kCancelling) = true
      · refine ⟨.drainIsDone l g.inputStreams true false,
          by simp only [idleStep]; rw [if_pos hDrain], ?_⟩
        have hNoError : s.hasError = false := by simp_all
        obtain ⟨-, -, hDrained⟩ := hQuit.resolve_left (by simp [hNoError])
        simp only [IdlePc.onCourse, Bool.and_eq_true, List.all_eq_true]
        exact ⟨⟨⟨rfl, fun t hMem => isEmpty_of_drained hDrained hMem⟩,
          fun n hNode => passesFinal_of_drained hDrained hNode⟩, hCourse⟩
      · exact ⟨.shouldQuit l, by simp only [idleStep]; rw [if_neg hDrain], hCourse⟩
  | drainIsDone l rest allDone anyNonempty =>
      left
      cases rest with
      | nil =>
          simp only [IdlePc.onCourse, Bool.and_eq_true, Bool.not_eq_true'] at hCourse
          refine ⟨.drainFinalize l g.nodes allDone, by simp [idleStep, hCourse.1.1.1], ?_⟩
          simp only [IdlePc.onCourse, Bool.and_eq_true]
          exact ⟨hCourse.1.2, hCourse.2⟩
      | cons t rest => exact ⟨_, rfl, hCourse⟩
  | drainIsEmpty l t rest allDone anyNonempty =>
      left
      refine ⟨_, rfl, ?_⟩
      simp only [IdlePc.onCourse, List.all_cons, Bool.and_eq_true] at hCourse ⊢
      obtain ⟨⟨⟨hNone, hEmpty, hRest⟩, hFinal⟩, hQuits⟩ := hCourse
      exact ⟨⟨⟨by simpa [hEmpty] using hNone, hRest⟩, hFinal⟩, hQuits⟩
  | drainFinalize l rest allDone =>
      left
      cases rest with
      | nil =>
          have hQuits : l.quits s = true := by simpa [IdlePc.onCourse] using hCourse
          exact ⟨_, rfl, hQuits⟩
      | cons n rest =>
          simp only [IdlePc.onCourse, List.all_cons, Bool.and_eq_true] at hCourse
          obtain ⟨⟨hNode, hRest⟩, hQuits⟩ := hCourse
          cases hSource : g.isSource n with
          | true =>
              refine ⟨.drainFinalize l rest allDone, by simp [idleStep, hSource], ?_⟩
              simp [IdlePc.onCourse, hRest, hQuits]
          | false =>
              refine ⟨.drainAllDone l n (g.inputs n) rest allDone,
                by simp [idleStep, hSource], ?_⟩
              simp only [IdlePc.onCourse, Bool.and_eq_true]
              exact ⟨⟨by simpa [passesFinal, hSource] using hNode, hRest⟩, hQuits⟩
  | drainAllDone l n ports rest allDone =>
      left
      simp only [IdlePc.onCourse, Bool.and_eq_true] at hCourse
      obtain ⟨⟨hNode, hRest⟩, hQuits⟩ := hCourse
      cases ports with
      | nil =>
          refine ⟨_, rfl, ?_⟩
          simp only [IdlePc.onCourse, Bool.and_eq_true]
          exact ⟨⟨by simpa using hNode, hRest⟩, hQuits⟩
      | cons t ports =>
          cases hDone : (s.stream t).isDone with
          | true =>
              refine ⟨.drainAllDone l n ports rest allDone, by simp [idleStep, hDone], ?_⟩
              simp only [IdlePc.onCourse, Bool.and_eq_true]
              exact ⟨⟨by simpa [hDone] using hNode, hRest⟩, hQuits⟩
          | false =>
              refine ⟨.drainFinalize l rest allDone, by simp [idleStep, hDone], ?_⟩
              simp [IdlePc.onCourse, hRest, hQuits]
  | drainIsFinalized l n rest allDone =>
      left
      simp only [IdlePc.onCourse, Bool.and_eq_true, Bool.or_eq_true,
        Bool.not_eq_true'] at hCourse
      obtain ⟨⟨hNode, hRest⟩, hQuits⟩ := hCourse
      refine ⟨.drainFinalize l rest allDone, ?_, by simp [IdlePc.onCourse, hRest, hQuits]⟩
      unfold finalized at hNode
      rcases hNode with hFinal | hAssigned
      · simp [idleStep, hFinal]
      · simp [idleStep, hAssigned]
  | shouldQuit l =>
      left
      unfold IdlePc.onCourse IdleLocals.quits at hCourse
      exact ⟨.quitReport l, by simp only [idleStep, hCourse, if_true], rfl⟩
  | quitReport l => exact Or.inl ⟨_, rfl, rfl⟩
  | closeNodes l rest =>
      cases rest with
      | nil => exact Or.inr rfl
      | cons n rest => exact Or.inl ⟨_, rfl, rfl⟩

/-! ## Steps of frames that owe nothing -/

/-- Run by a function that calls `HandleIdle` after it. -/
def Frame.needy : Frame → Bool
  | .run _ _ | .queueError _ | .propagate _ | .propagateBound _ | .closeManager _ => true
  | _ => false

theorem exec_finalizedNodes (hNotRun : ∀ r b, f ≠ .run r (.decide b))
    (hStep : exec g s f x = some (s', fs)) :
    (s'.queues q).finalizedNodes = (s.queues q).finalizedNodes := by
  have hChange := exec_queue q hStep
  generalize s'.queues q = queue at hChange ⊢
  cases hChange with
  | decided _ r b _ => exact absurd rfl (hNotRun r b)
  | _ => rfl

/-- Only the end of a task and a cleanup make a queue idle. -/
theorem exec_isIdle (hOwes : f.owes = false) (hCleanup : ∀ q, f ≠ .cleanupAfterRun q)
    (hStep : exec g s f x = some (s', fs)) (hIdle : (s'.queues q).isIdle = true) :
    (s.queues q).isIdle = true := by
  have hChange := exec_queue q hStep
  generalize s'.queues q = queue at hChange hIdle
  cases hChange with
  | popped | dropped | finished | wired => exact absurd hOwes (by simp [Frame.owes])
  | cleaned => exact absurd rfl (hCleanup q)
  | pushed => simp [SchedulerQueue.isIdle, SchedulerQueue.push] at hIdle
  | submitted => simp [SchedulerQueue.isIdle, SchedulerQueue.taskSubmitted] at hIdle
  | decided _ r b _ =>
      unfold SchedulerQueue.decideFinalize at hIdle
      repeat' split at hIdle
      all_goals exact hIdle
  | _ => exact hIdle

theorem exec_unmoved (hOwes : f.owes = false) (hNeedy : f.needy = false)
    (hStep : exec g s f x = some (s', fs)) : Unmoved s s' := by
  have hFinalized := fun q => exec_finalizedNodes (q := q)
    (by rintro r b rfl; exact absurd hNeedy (by simp [Frame.needy])) hStep
  cases f with
  | run r pc | queueError status | propagate p | propagateBound p | closeManager o =>
      exact absurd hNeedy (by simp [Frame.needy])
  | start pc => exact absurd hOwes (by simp [Frame.owes])
  | handleIdle pc =>
      obtain ⟨rfl, rfl⟩ := exec_handleIdle hStep
      obtain ⟨_, _, _, _, _, _, hState⟩ := idleStep_frame g s pc
      exact ⟨by rw [hState], by rw [hState], by rw [hState], by rw [hState], hFinalized⟩
  | api pc =>
      obtain ⟨t, hTurn, rfl, rfl⟩ := exec_api hStep
      revert hTurn hOwes
      fun_cases apiStep g s pc
      all_goals intro hOwes hTurn; cases hTurn
      all_goals try split
      all_goals first
        | exact ⟨rfl, rfl, rfl, rfl, fun _ => rfl⟩
        | exact absurd hOwes.symm Bool.false_ne_true
  | arrival n =>
      have hState : s' = (scheduleNode g s n).1 :=
        (congrArg Prod.fst (Option.some.inj hStep)).symm
      have hFrame := scheduleNode_eq g s n
      rw [← hState] at hFrame
      exact ⟨by rw [hFrame], by rw [hFrame], by rw [hFrame], by rw [hFrame], hFinalized⟩
  | _ =>
      revert hStep
      unfold exec
      simp only
      repeat' split
      all_goals intro hStep; cases hStep
      all_goals exact ⟨rfl, rfl, rfl, rfl, hFinalized⟩

/-- Among the frames that owe nothing only a cancelled pass of `HandleIdle`
changes `active_sources_`. -/
theorem exec_activeSources (hOwes : f.owes = false)
    (hStep : exec g s f x = some (s', fs)) :
    s'.activeSources = s.activeSources ∨ s.state = .kCancelling := by
  cases f with
  | handleIdle pc =>
      obtain ⟨rfl, rfl⟩ := exec_handleIdle hStep
      fun_cases idleStep g s pc
      case case10 =>
        by_cases hState : s.state = .kCancelling
        · exact Or.inr hState
        · exact Or.inl (if_neg hState)
      all_goals left
      all_goals first
        | rfl
        | exact (congrArg Shared.activeSources (scheduleNode_eq g s _)).trans rfl
  | start pc | sourceStopped n => exact absurd hOwes (by simp [Frame.owes])
  | _ => exact Or.inl ((exec_kept hStep).activeSources (by simp) (by simp) (by simp))

/-- `Cancel` sets `has_error_` before it writes `state_`. -/
structure Cancelled (s : Shared) (fs : List Frame) : Prop where
  state : s.state = .kCancelling → s.hasError = true
  write : .api .cancelState ∈ fs → s.hasError = true

/-- **A frame that owes nothing does not make the graph ready to quit.** -/
theorem ready_of_exec (hOwes : f.owes = false) (hNeedy : f.needy = false)
    (hCleanup : ∀ q, f ≠ .cleanupAfterRun q)
    (hCancelled : s.state = .kCancelling → s.hasError = true)
    (hStep : exec g s f x = some (s', fs)) (hReady : ready g s' = true) :
    ready g s = true := by
  have hUnmoved := exec_unmoved hOwes hNeedy hStep
  have hState : s'.state = s.state := by
    have hAfter := state_of_ready hReady
    have hChange := exec_state hStep
    generalize s'.state = state at hChange hAfter
    cases hChange with
    | same => rfl
    | started | resumed | cancelling => exact absurd hOwes (by simp [Frame.owes])
    | openFailed | cancelled | quit | paused | shutdown => simp at hAfter
  have hIdle : idleAndRunning g s = true := by
    have hAfter := state_of_ready hReady
    rw [hState] at hAfter
    simp only [idleAndRunning, Bool.and_eq_true, List.all_eq_true, Bool.or_eq_true,
      decide_eq_true_eq]
    exact ⟨fun q hQueue => exec_isIdle hOwes hCleanup hStep (isIdle_of_ready hReady hQueue),
      hAfter⟩
  have hQuit : quitCondition g s = true := by
    simp only [quitCondition, Bool.or_eq_true, Bool.and_eq_true, Bool.not_eq_true']
    rcases quitCondition_of_ready hReady with hError | ⟨hSources, hInputs, hDrained⟩
    · exact Or.inl (hUnmoved.hasError ▸ hError)
    · rcases exec_activeSources hOwes hStep with hSame | hState
      · right
        rw [hSame] at hSources
        rw [hUnmoved.drained_eq] at hDrained
        simp only [inputsRemaining, hUnmoved.numClosed] at hInputs ⊢
        exact ⟨⟨hSources, hInputs⟩, hDrained⟩
      · exact Or.inl (hCancelled hState)
  simp only [ready, hIdle, hQuit, Bool.and_self]

/-! ## Frames with a caller that will look -/

/-- Below every needy frame there is one that owes a call. -/
def Backed : List Frame → Prop
  | [] => True
  | f :: below => (f.needy = true → ∃ f' ∈ below, f'.owes = true) ∧ Backed below

theorem backed_append {l : List Frame}
    (hNew : ∀ f ∈ l, f.needy = true → ∃ f' ∈ below, f'.owes = true)
    (hBelow : Backed below) : Backed (l ++ below) := by
  induction l with
  | nil => exact hBelow
  | cons f l ih =>
      refine ⟨fun hNeedy => ?_, ih fun f' hMem => hNew f' (List.mem_cons_of_mem f hMem)⟩
      obtain ⟨f', hMem, hOwes⟩ := hNew f List.mem_cons_self hNeedy
      exact ⟨f', List.mem_append_right l hMem, hOwes⟩

theorem Backed.exec (hStack : Backed (f :: below))
    (hStep : Scheduler.exec g s f x = some (s', fs)) : Backed (fs ++ below) := by
  obtain ⟨hTop, hBelow⟩ := hStack
  by_cases hNeedy : f.needy = true
  · exact backed_append (fun _ _ _ => hTop hNeedy) hBelow
  · cases f with
    | run r pc | queueError status | propagate p | propagateBound p | closeManager o =>
        exact absurd rfl hNeedy
    | runNextTask q =>
        simp only [Scheduler.exec] at hStep
        split at hStep <;> cases hStep
        · exact backed_append (by simp [Frame.needy]) hBelow
        · exact ⟨fun _ => ⟨_, List.mem_cons_self, rfl⟩, by simp [Frame.needy], hBelow⟩
    | api pc =>
        obtain ⟨t, hTurn, rfl, rfl⟩ := exec_api hStep
        cases pc with
        | injectPacket o packet =>
            cases hTurn
            exact ⟨fun _ => ⟨_, List.mem_cons_self, rfl⟩, by simp [Frame.needy], hBelow⟩
        | closeInputStream stream =>
            simp only [apiStep] at hTurn
            split at hTurn
            · cases hTurn
              exact hBelow
            · split at hTurn <;> cases hTurn
              · exact hBelow
              · exact ⟨fun _ => ⟨_, List.mem_cons_self, rfl⟩, by simp [Frame.needy], hBelow⟩
        | _ =>
            refine backed_append (fun f' hMem hNew => ?_) hBelow
            have hLeaves := exec_leaves hStep f' hMem
            cases f' with
            | run r pc | queueError status | propagate p | propagateBound p
            | closeManager o => exact False.elim hLeaves
            | _ => exact absurd hNew Bool.false_ne_true
    | _ =>
        refine backed_append (fun f' hMem hNew => ?_) hBelow
        have hLeaves := exec_leaves hStep f' hMem
        cases f' with
        | run r pc | queueError status | propagate p | propagateBound p
        | closeManager o => exact False.elim hLeaves
        | _ => exact absurd hNew Bool.false_ne_true

theorem backed_of_reaches {G : Guard Shared Frame Choice Call}
    {c : Config Shared Frame} (hReach : (machine g).Reaches G (started s) c) :
    ∀ stack ∈ c.threads, Backed stack := by
  refine Machine.stacks_invariant ?_ ?_ ?_ hReach
  · simp [started, Backed, Frame.needy]
  · intro s f below x s' fs hStack hStep
    exact hStack.exec hStep
  · intro s b s' fs hSpawn
    obtain ⟨-, -, hNew⟩ := spawn_frame hSpawn
    rw [← List.append_nil fs]
    refine backed_append (fun f hMem hNeedy => ?_) True.intro
    rcases hNew f hMem with ⟨q, rfl⟩ | ⟨pc, rfl⟩ <;>
      exact absurd hNeedy Bool.false_ne_true

/-! ## Queues in use and their callbacks -/

/-- The queue a frame is about. -/
def Frame.onQueue : Frame → Option QueueId
  | .submitToExecutor q | .addTask q | .runNextTask q | .dropTask q
  | .onTaskFinished q | .updateIdleState q | .setRunning q _
  | .submitWaitingTasks q => some q
  | _ => none

/-- Only queues of the graph are used, and `Start` gives each its idle
callback. -/
structure Wired (g : Graph) (s : Shared) (fs : List Frame) : Prop where
  onQueue : ∀ f ∈ fs, ∀ q, f.onQueue = some q → q ∈ g.queues
  tasks : ∀ q, s.tasks q > 0 → q ∈ g.queues
  running : ∀ q, (s.queues q).running = true → q ∈ g.queues
  rest : ∀ rest, .start (.wire rest) ∈ fs → rest ⊆ g.queues
  callback : ∀ rest, .start (.wire rest) ∈ fs → ∀ q ∈ g.queues, q ∉ rest →
    (s.queues q).idleCallback = true
  all : (∃ pc, .start pc ∈ fs) ∨ allWired g s = true ∨ s.state = .kTerminated

theorem exec_idleCallback (hStep : exec g s f x = some (s', fs))
    (hSet : (s.queues q).idleCallback = true) : (s'.queues q).idleCallback = true := by
  have hChange := exec_queue q hStep
  generalize s'.queues q = queue at hChange ⊢
  cases hChange with
  | wired => rfl
  | decided _ r b _ =>
      unfold SchedulerQueue.decideFinalize
      repeat' split
      all_goals exact hSet
  | _ => exact hSet

theorem exec_allWired (hStep : exec g s f x = some (s', fs))
    (hWired : allWired g s = true) : allWired g s' = true := by
  simp only [allWired, List.all_eq_true] at hWired ⊢
  exact fun q hQueue => exec_idleCallback hStep (hWired q hQueue)

/-- A public call acts on the queues of the graph. -/
theorem apiStep_onQueue {pc : ApiPc} {t : Turn ApiPc} (hTurn : apiStep g s pc = some t) :
    ∀ f' ∈ t.calls, f'.onQueue = some q → q ∈ g.queues := by
  revert hTurn
  fun_cases apiStep g s pc
  all_goals intro hTurn; cases hTurn
  all_goals try split
  all_goals simp only [propagateThen, List.forall_mem_append, List.forall_mem_map,
    List.forall_mem_cons, List.not_mem_nil, IsEmpty.forall_iff, implies_true,
    and_true]
  all_goals simp [Frame.onQueue]
  all_goals grind

/-- `Start` wires one queue after another and ends when all are wired, or when
an `Open` has failed. -/
theorem startStep_wire {pc : StartPc} {t : Turn StartPc}
    (hTurn : startStep g s x pc = some t) :
    (∀ rest, t.next = some (.wire rest) → rest = g.queues ∨ ∃ q, pc = .wire (q :: rest) ∧
      (t.state.queues q).idleCallback = true) ∧
    (t.next = none → pc = .wire [] ∨ t.state.state = .kTerminated) := by
  revert hTurn
  fun_cases startStep g s x pc
  case case5 =>
    intro hTurn
    cases hTurn
    constructor
    · intro rest hNext
      repeat' split at hNext
      all_goals cases hNext
    · intro hNext
      split at hNext <;> cases hNext
  all_goals intro hTurn; cases hTurn
  all_goals constructor
  all_goals intro rest
  all_goals simp_all [scheduleThen]

theorem Wired.exec_onQueue (hWired : Wired g s (A ++ f :: B))
    (hStep : Scheduler.exec g s f x = some (s', fs)) :
    ∀ f' ∈ fs, ∀ q, f'.onQueue = some q → q ∈ g.queues := by
  have hTop := hWired.onQueue f (by simp)
  intro f' hMem q hQueue
  have hLeaves := exec_leaves hStep f' hMem
  cases f' with
  | submitToExecutor p =>
      obtain rfl : p = q := Option.some.inj hQueue
      rcases exec_submit hStep hMem with hRunning | rfl
      · exact hWired.running p hRunning
      · exact hTop p rfl
  | setRunning p b =>
      obtain rfl : p = q := Option.some.inj hQueue
      cases f with
      | start pc =>
          cases pc with
          | wire rest =>
              cases rest with
              | nil => exact False.elim hLeaves
              | cons p' rest =>
                  obtain rfl : p' = p := hLeaves
                  exact hWired.rest (p' :: rest) (by simp) List.mem_cons_self
          | _ => exact False.elim hLeaves
      | api pc =>
          obtain ⟨t, hTurn, rfl, rfl⟩ := exec_api hStep
          rcases List.mem_append.mp hMem with hCall | hSelf
          · exact apiStep_onQueue hTurn _ hCall rfl
          · simp at hSelf
      | _ => exact False.elim hLeaves
  | submitWaitingTasks p =>
      obtain rfl : p = q := Option.some.inj hQueue
      cases f with
      | api pc =>
          obtain ⟨t, hTurn, rfl, rfl⟩ := exec_api hStep
          rcases List.mem_append.mp hMem with hCall | hSelf
          · exact apiStep_onQueue hTurn _ hCall rfl
          · simp at hSelf
      | _ => exact False.elim hLeaves
  | addTask p | runNextTask p | dropTask p | onTaskFinished p | updateIdleState p =>
      obtain rfl : p = q := Option.some.inj hQueue
      cases f with
      | submitToExecutor p' | runNextTask p' | dropTask p' | onTaskFinished p' =>
          first
            | exact hLeaves.elim
            | (obtain rfl : p' = p := hLeaves
               exact hTop _ rfl)
      | api pc => cases pc <;> exact False.elim hLeaves
      | _ => exact False.elim hLeaves
  | _ => exact absurd hQueue (by simp [Frame.onQueue])

theorem Wired.exec_wire (hWired : Wired g s (A ++ f :: B)) {rest : List QueueId}
    (hStep : Scheduler.exec g s f x = some (s', fs)) (hMem : .start (.wire rest) ∈ fs) :
    rest ⊆ g.queues ∧ ∀ q ∈ g.queues, q ∉ rest → (s'.queues q).idleCallback = true := by
  obtain ⟨pc, t, rfl, hTurn, rfl, hNext⟩ := start_of_exec hStep hMem
  rcases (startStep_wire hTurn).1 rest hNext with rfl | ⟨q₀, rfl, hSet⟩
  · exact ⟨List.Subset.refl _, fun q hQueue hNot => absurd hQueue hNot⟩
  · refine ⟨fun q hIn => hWired.rest (q₀ :: rest) mem_running (List.mem_cons_of_mem _ hIn),
      fun q hQueue hNot => ?_⟩
    by_cases hEq : q = q₀
    · exact hEq ▸ hSet
    · exact exec_idleCallback hStep
        (hWired.callback (q₀ :: rest) mem_running q hQueue (by simp [hEq, hNot]))

theorem Wired.exec_all (hWired : Wired g s (A ++ f :: B))
    (hGuard : (callsKept g).exec s (A ++ B) f x = true)
    (hStep : Scheduler.exec g s f x = some (s', fs)) :
    (∃ pc, .start pc ∈ A ++ (fs ++ B)) ∨ allWired g s' = true ∨
      s'.state = .kTerminated := by
  rcases hWired.all with ⟨pc, hMem⟩ | hAll | hState
  · simp only [List.mem_append, List.mem_cons] at hMem
    rcases hMem with hA | rfl | hB
    · exact Or.inl ⟨pc, by simp [hA]⟩
    · have hStep' := hStep
      obtain ⟨t, hTurn, rfl, rfl⟩ := exec_start hStep
      cases hNext : t.next with
      | some pc' => exact Or.inl ⟨pc', by simp⟩
      | none =>
          rcases (startStep_wire hTurn).2 hNext with rfl | hState
          · right; left
            refine exec_allWired hStep' ?_
            simp only [allWired, List.all_eq_true]
            exact fun q hQueue => hWired.callback [] (by simp) q hQueue List.not_mem_nil
          · exact Or.inr (Or.inr hState)
    · exact Or.inl ⟨pc, by simp [hB]⟩
  · exact Or.inr (Or.inl (exec_allWired hStep hAll))
  · have hChange := exec_state hStep
    generalize hAfter : s'.state = state at hChange
    cases hChange with
    | same => exact Or.inr (Or.inr hState)
    | openFailed | cancelled | quit | shutdown => exact Or.inr (Or.inr rfl)
    | started =>
        cases hStep
        exact Or.inl ⟨.assign g.nodes, by simp⟩
    | paused | resumed | cancelling =>
        simp only [callsKept, hState] at hGuard
        exact Or.inr (Or.inl (exec_allWired hStep (by simpa using hGuard)))

theorem Wired.exec (hWired : Wired g s (A ++ f :: B))
    (hGuard : (callsKept g).exec s (A ++ B) f x = true)
    (hStep : Scheduler.exec g s f x = some (s', fs)) : Wired g s' (A ++ (fs ++ B)) := by
  have hTop := hWired.onQueue f (by simp)
  refine ⟨fun f' hMem => ?_, fun q hTasks => ?_, fun q hRunning => ?_, fun rest hMem => ?_,
    fun rest hMem => ?_, hWired.exec_all hGuard hStep⟩
  · rcases mem_after hMem with hNew | hOld
    · exact hWired.exec_onQueue hStep f' hNew
    · exact hWired.onQueue f' hOld
  · by_cases hAdd : ∃ p, f = .addTask p
    · obtain ⟨p, rfl⟩ := hAdd
      cases hStep
      by_cases hEq : q = p
      · exact hEq ▸ hTop p rfl
      · exact hWired.tasks q (by simpa [hEq] using hTasks)
    · rw [(exec_kept hStep).tasks (not_exists.mp hAdd)] at hTasks
      exact hWired.tasks q hTasks
  · by_cases hSet : f = .setRunning q true
    · exact hTop q (by rw [hSet]; rfl)
    · refine hWired.running q ?_
      by_contra hStopped
      have hAfter := exec_running hStep (by simpa using hStopped) hSet
      exact absurd hRunning (by simp [hAfter])
  · rcases mem_after hMem with hNew | hOld
    · exact (hWired.exec_wire hStep hNew).1
    · exact hWired.rest rest hOld
  · rcases mem_after hMem with hNew | hOld
    · exact (hWired.exec_wire hStep hNew).2
    · exact fun q hQueue hNot => exec_idleCallback hStep
        (hWired.callback rest hOld q hQueue hNot)

theorem Wired.spawn {b : Call} (hWired : Wired g s A)
    (hSpawn : Scheduler.spawn g s b = some (s', fs)) : Wired g s' (A ++ fs) := by
  have hStart : ∀ pc, .start pc ∈ A ++ fs → .start pc ∈ A := fun pc hMem =>
    mem_of_spawn hSpawn hMem (by simp) (by simp)
  have hAll : (∃ pc, .start pc ∈ A ++ fs) ∨ allWired g s = true ∨ s.state = .kTerminated :=
    hWired.all.imp_left fun ⟨pc, hMem⟩ => ⟨pc, List.mem_append_left fs hMem⟩
  rcases spawn_cases hSpawn with ⟨p, -, hTask, rfl, rfl⟩ | ⟨rfl, pc, rfl, -⟩
  · refine ⟨fun f hMem q hQueue => ?_, fun q hTasks => ?_, hWired.running,
      fun rest hMem => hWired.rest rest (hStart _ hMem),
      fun rest hMem => hWired.callback rest (hStart _ hMem), hAll⟩
    · rcases List.mem_append.mp hMem with hOld | hNew
      · exact hWired.onQueue f hOld q hQueue
      · rw [List.mem_singleton.mp hNew] at hQueue
        exact Option.some.inj hQueue ▸ hWired.tasks p hTask
    · by_cases hEq : q = p
      · exact hEq ▸ hWired.tasks p hTask
      · exact hWired.tasks q (by simpa [hEq] using hTasks)
  · refine ⟨fun f hMem q hQueue => ?_, hWired.tasks, hWired.running,
      fun rest hMem => hWired.rest rest (hStart _ hMem),
      fun rest hMem => hWired.callback rest (hStart _ hMem), hAll⟩
    rcases List.mem_append.mp hMem with hOld | hNew
    · exact hWired.onQueue f hOld q hQueue
    · rw [List.mem_singleton.mp hNew] at hQueue
      exact absurd hQueue (by simp [Frame.onQueue])

theorem wired_of_reaches {outputs : OutId → OutputStreamManager} {defaultQueue : QueueId}
    {errorCallback : Bool} {c : Config Shared Frame}
    (hReach : (machine g).Reaches (callsKept g)
      (started (initial outputs defaultQueue errorCallback)) c) :
    Wired g c.shared c.frames := by
  refine Machine.invariant ?_ ?_ ?_ hReach
  · exact ⟨by simp [Config.frames, started, Frame.onQueue], by simp [started, initial],
      by simp [started, initial], by simp [Config.frames, started],
      by simp [Config.frames, started], Or.inl ⟨.begin, by simp [Config.frames, started]⟩⟩
  · intro s A f B x s' fs hWired hGuard hStep
    exact hWired.exec hGuard hStep
  · intro s A b s' fs hWired _ hSpawn
    exact hWired.spawn hSpawn

/-! ## Cancelled runs -/

theorem Cancelled.exec (hCancelled : Cancelled s (A ++ f :: B))
    (hStep : Scheduler.exec g s f x = some (s', fs)) : Cancelled s' (A ++ (fs ++ B)) := by
  have hKeep : s.hasError = true → s'.hasError = true := by
    intro hError
    rcases exec_hasError hStep with hSame | ⟨hSet, -⟩
    · exact hSame ▸ hError
    · exact hSet
  constructor
  · intro hState
    have hChange := exec_state hStep
    rw [hState] at hChange
    generalize hAfter : SchedulerState.kCancelling = state at hChange
    cases hChange with
    | same => exact hKeep (hCancelled.state hAfter.symm)
    | cancelling => exact hKeep (hCancelled.write (by simp))
    | _ => exact absurd hAfter (by simp)
  · intro hMem
    rcases mem_after hMem with hNew | hOld
    · obtain ⟨pc, t, rfl, hTurn, rfl, hNext⟩ := api_of_exec hStep hNew
      revert hTurn
      fun_cases apiStep g s pc
      all_goals intro hTurn; cases hTurn
      all_goals repeat' split at hNext
      all_goals cases hNext
      rfl
    · exact hKeep (hCancelled.write hOld)

theorem Cancelled.spawn {b : Call} (hCancelled : Cancelled s A)
    (hSpawn : Scheduler.spawn g s b = some (s', fs)) : Cancelled s' (A ++ fs) := by
  rcases spawn_cases hSpawn with ⟨q, -, -, rfl, rfl⟩ | ⟨rfl, pc, rfl, hCall⟩
  · exact ⟨hCancelled.state, fun hMem => hCancelled.write (by simpa using hMem)⟩
  · refine ⟨hCancelled.state, fun hMem => hCancelled.write ?_⟩
    rcases List.mem_append.mp hMem with hOld | hNew
    · exact hOld
    · cases List.mem_singleton.mp hNew
      simp at hCall

theorem cancelled_of_reaches {G : Guard Shared Frame Choice Call}
    {outputs : OutId → OutputStreamManager} {defaultQueue : QueueId}
    {errorCallback : Bool} {c : Config Shared Frame}
    (hReach : (machine g).Reaches G
      (started (initial outputs defaultQueue errorCallback)) c) :
    Cancelled c.shared c.frames := by
  refine Machine.invariant ?_ ?_ ?_ hReach
  · exact ⟨by simp [started, initial], by simp [Config.frames, started]⟩
  · intro s A f B x s' fs hCancelled _ hStep
    exact hCancelled.exec hStep
  · intro s A b s' fs hCancelled _ hSpawn
    exact hCancelled.spawn hSpawn

/-! ## No termination is lost -/

/-- A frame that owes a call leaves one that does, unless it ends the run or
finds no idle callback. -/
theorem exec_owes (hOwes : f.owes = true) (hEnter : f ≠ .handleIdle .enter)
    (hStep : exec g s f x = some (s', fs)) :
    (∃ f' ∈ fs, f'.owes = true) ∨ s'.state = .kTerminated ∨
      ∃ q, f = .updateIdleState q ∧ (s.queues q).idleCallback = false := by
  cases f with
  | handleIdle pc =>
      cases pc with
      | enter => exact absurd rfl hEnter
      | _ => exact absurd hOwes Bool.false_ne_true
  | updateIdleState q =>
      cases hStep
      cases hSet : (s.queues q).idleCallback with
      | true => exact Or.inl ⟨.handleIdle .enter, by simp [idleCallback, hSet], rfl⟩
      | false => exact Or.inr (Or.inr ⟨q, rfl, hSet⟩)
  | onTaskFinished q => cases hStep; exact Or.inl ⟨.updateIdleState q, by simp, rfl⟩
  | dropTask q => cases hStep; exact Or.inl ⟨.updateIdleState q, by simp, rfl⟩
  | runNextTask q =>
      simp only [exec] at hStep
      split at hStep <;> cases hStep
      · exact Or.inl ⟨.dropTask q, by simp, rfl⟩
      · exact Or.inl ⟨.onTaskFinished q, by simp, rfl⟩
  | sourceStopped n => cases hStep; exact Or.inl ⟨.handleIdle .enter, by simp, rfl⟩
  | start pc =>
      obtain ⟨t, hTurn, rfl, rfl⟩ := exec_start hStep
      cases hNext : t.next with
      | some pc' => exact Or.inl ⟨.start pc', by simp, rfl⟩
      | none =>
          rcases (startStep_wire hTurn).2 hNext with rfl | hState
          · cases hTurn
            exact Or.inl ⟨.handleIdle .enter, by simp, rfl⟩
          · exact Or.inr (Or.inl hState)
  | api pc =>
      cases pc with
      | callHandleIdle => cases hStep; exact Or.inl ⟨.handleIdle .enter, by simp, rfl⟩
      | injectPacket o packet | resumeWrite | cancelPaused =>
          cases hStep
          exact Or.inl ⟨.api .callHandleIdle, List.mem_append_right _ List.mem_cons_self, rfl⟩
      | closedStreamsInsert stream | incClosedGraphInputStreams | cancelError
      | cancelState => cases hStep; exact Or.inl ⟨_, List.mem_cons_self, rfl⟩
      | _ => exact absurd hOwes Bool.false_ne_true
  | _ => exact absurd hOwes Bool.false_ne_true

theorem not_ready (hState : s.state = .kTerminated) : ready g s ≠ true := by
  intro hReady
  have hOne := state_of_ready hReady
  simp [hState] at hOne

/-- While the graph should quit, someone will look. -/
def NotLost (g : Graph) (s : Shared) (fs : List Frame) : Prop :=
  ready g s = true → Answered g s fs

/-- Frames other than the one that runs. -/
theorem answered_of_others {f' : Frame} (hMem : f' ∈ A ++ B)
    (hAnswer : f'.owes = true ∨ f'.onCourse g s = true) : Answered g s (A ++ (fs ++ B)) := by
  refine ⟨f', ?_, hAnswer⟩
  simp only [List.mem_append] at hMem ⊢
  tauto

theorem answered_of_new {f' : Frame} (hMem : f' ∈ fs)
    (hAnswer : f'.owes = true ∨ f'.onCourse g s = true) : Answered g s (A ++ (fs ++ B)) :=
  ⟨f', by simp [hMem], hAnswer⟩

/-- The entrance of `HandleIdle`. -/
theorem NotLost.enter (hGuard : (callsKept g).exec s (A ++ B) (.handleIdle .enter) x = true)
    (hStep : Scheduler.exec g s (.handleIdle .enter) x = some (s', fs)) :
    NotLost g s' (A ++ (fs ++ B)) := by
  intro hReady
  cases hStep
  by_cases hTaken : s.handlingIdle > 0
  · -- the call is dropped, and the state is the same but for the counter
    have hBefore : ready g s = true := hReady
    simp only [callsKept, hTaken, decide_true, hBefore, Bool.and_self, Bool.not_true,
      Bool.false_or, List.any_eq_true, Bool.or_eq_true] at hGuard
    obtain ⟨f', hMem, hAnswer⟩ := hGuard
    refine answered_of_others hMem (hAnswer.imp id fun hCourse => ?_)
    cases f' with
    | handleIdle pc =>
        have hUnmoved : Unmoved s { s with handlingIdle := s.handlingIdle + 1 } :=
          ⟨rfl, rfl, rfl, rfl, fun _ => rfl⟩
        exact (hUnmoved.onCourse pc).trans hCourse
    | _ => exact absurd hCourse Bool.false_ne_true
  · have hFree : ¬ s.handlingIdle + 1 > 1 := by omega
    have hMem : Frame.handleIdle .readCancelled ∈ (idleStep g s .enter).calls ++
        ((idleStep g s .enter).next.map Frame.handleIdle).toList := by
      simp [idleStep, hFree]
    exact answered_of_new hMem (Or.inr rfl)

theorem NotLost.exec (hLost : NotLost g s (A ++ f :: (below ++ B)))
    (hWired : Wired g s (A ++ f :: (below ++ B)))
    (hCancelled : Cancelled s (A ++ f :: (below ++ B))) (hBacked : Backed (f :: below))
    (hGuard : (callsKept g).exec s (A ++ (below ++ B)) f x = true)
    (hStep : Scheduler.exec g s f x = some (s', fs)) :
    NotLost g s' (A ++ (fs ++ (below ++ B))) := by
  by_cases hEnter : f = .handleIdle .enter
  · subst hEnter
    exact NotLost.enter hGuard hStep
  intro hReady
  by_cases hNeedy : f.needy = true
  · -- its caller owes a call
    obtain ⟨f', hMem, hOwes⟩ := hBacked.1 hNeedy
    exact answered_of_others (by simp [hMem]) (Or.inl hOwes)
  by_cases hCleanup : ∃ q, f = .cleanupAfterRun q
  · obtain ⟨q, rfl⟩ := hCleanup
    simp only [callsKept, Bool.or_eq_true, decide_eq_true_eq] at hGuard
    rcases hGuard with hState | hCancel
    · cases hStep
      exact absurd hReady (not_ready hState)
    · obtain ⟨f', hMem, hIs⟩ := List.any_eq_true.mp hCancel
      split at hIs
      · exact answered_of_others hMem (Or.inr rfl)
      · exact absurd hIs Bool.false_ne_true
  by_cases hOwes : f.owes = true
  · rcases exec_owes hOwes hEnter hStep with ⟨f', hMem, hNew⟩ | hState | ⟨q, rfl, hSet⟩
    · exact answered_of_new hMem (Or.inl hNew)
    · exact absurd hReady (not_ready hState)
    · -- the queue is not wired yet, so `Start` is still under way
      rcases hWired.all with ⟨pc, hMem⟩ | hAll | hState
      · have hOthers : Frame.start pc ∈ A ++ (below ++ B) := by simpa using hMem
        exact answered_of_others hOthers (Or.inl rfl)
      · have hQueue := hWired.onQueue (.updateIdleState q) (by simp) q rfl
        simp only [allWired, List.all_eq_true] at hAll
        exact absurd (hAll q hQueue) (by simp [hSet])
      · cases hStep
        exact absurd hReady (not_ready hState)
  · have hOwes' : f.owes = false := by simpa using hOwes
    have hNeedy' : f.needy = false := by simpa using hNeedy
    have hBefore := ready_of_exec hOwes' hNeedy' (not_exists.mp hCleanup) hCancelled.state
      hStep hReady
    have hUnmoved := exec_unmoved hOwes' hNeedy' hStep
    obtain ⟨f', hMem, hAnswer⟩ := hLost hBefore
    have hKeep : f'.owes = true ∨ f'.onCourse g s' = true := by
      refine hAnswer.imp id fun hCourse => ?_
      cases f' with
      | handleIdle pc => exact (hUnmoved.onCourse pc).trans hCourse
      | _ => exact absurd hCourse Bool.false_ne_true
    simp only [List.mem_append, List.mem_cons] at hMem
    rcases hMem with hA | rfl | hRest
    · exact answered_of_others (List.mem_append_left _ hA) hKeep
    · have hCourse := hAnswer.resolve_left hOwes
      cases f' with
      | handleIdle pc =>
          obtain ⟨rfl, rfl⟩ := exec_handleIdle hStep
          rcases idleStep_onCourse hBefore hCourse with ⟨pc', hNext, hNew⟩ | hState
          · have hMem : Frame.handleIdle pc' ∈
                (idleStep g s pc).calls ++
                  ((idleStep g s pc).next.map Frame.handleIdle).toList := by
              simp [hNext]
            exact answered_of_new hMem (Or.inr ((hUnmoved.onCourse pc').trans hNew))
          · exact absurd hReady (not_ready hState)
      | _ => exact absurd hCourse Bool.false_ne_true
    · exact answered_of_others (List.mem_append_right _ (List.mem_append.mpr hRest)) hKeep

theorem NotLost.spawn {b : Call} (hLost : NotLost g s A)
    (hSpawn : Scheduler.spawn g s b = some (s', fs)) : NotLost g s' (A ++ fs) := by
  obtain ⟨tasks, rfl, -⟩ := spawn_frame hSpawn
  intro hReady
  obtain ⟨f', hMem, hAnswer⟩ := hLost hReady
  have hSame : f'.onCourse g { s with tasks := tasks } = f'.onCourse g s := by
    cases f' with
    | handleIdle pc =>
        have hUnmoved : Unmoved s { s with tasks := tasks } :=
          ⟨rfl, rfl, rfl, rfl, fun _ => rfl⟩
        exact hUnmoved.onCourse pc
    | _ => rfl
  exact ⟨f', List.mem_append_left fs hMem, hSame ▸ hAnswer⟩

/-- A call of `HandleIdle` that has been entered. -/
def Frame.inHandleIdle : Frame → Bool
  | .handleIdle _ => true
  | _ => false

/-- **No termination is lost** as long as no call is dropped that nobody
answers for: when no thread is inside `HandleIdle` or still owes a call to it,
all queues are idle and the graph should quit, then `state_` is neither
`kRunning` nor `kCancelling`. -/
theorem no_termination_lost {outputs : OutId → OutputStreamManager}
    {defaultQueue : QueueId} {errorCallback : Bool} {c : Config Shared Frame}
    (hReach : (machine g).Reaches (callsKept g)
      (started (initial outputs defaultQueue errorCallback)) c)
    (hInside : ∀ f ∈ c.frames, f.inHandleIdle = false)
    (hOwes : ∀ f ∈ c.frames, f.owes = false)
    (hIdle : ∀ q ∈ g.queues, (c.shared.queues q).isIdle = true)
    (hQuit : quitCondition g c.shared = true) :
    c.shared.state ≠ .kRunning ∧ c.shared.state ≠ .kCancelling := by
  have hLost : NotLost g c.shared c.frames := by
    refine Machine.invariant_stacked (T := Backed)
      (J := fun s fs => Wired g s fs ∧ Cancelled s fs)
      (fun c hReach => ⟨⟨wired_of_reaches hReach, cancelled_of_reaches hReach⟩,
        backed_of_reaches hReach⟩) ?_ ?_ ?_ hReach
    · intro hReady
      exact ⟨.start .begin, by simp [Config.frames, started], Or.inl rfl⟩
    · rintro s A f below B x s' fs ⟨hWired, hCancelled⟩ hBacked hLost hGuard hStep
      exact hLost.exec hWired hCancelled hBacked hGuard hStep
    · intro s A b s' fs _ hLost _ hSpawn
      exact hLost.spawn hSpawn
  rw [← not_or]
  intro hState
  have hReady : ready g c.shared = true := by
    simp only [ready, idleAndRunning, hQuit, Bool.and_true, Bool.and_eq_true,
      List.all_eq_true, Bool.or_eq_true, decide_eq_true_eq]
    exact ⟨hIdle, hState⟩
  obtain ⟨f, hMem, hOwe | hCourse⟩ := hLost hReady
  · exact absurd hOwe (by simp [hOwes f hMem])
  · have hNot := hInside f hMem
    cases f with
    | handleIdle pc => exact absurd hNot.symm Bool.false_ne_true
    | _ => exact absurd hCourse Bool.false_ne_true

/-- The rule at work: a chain of one node, whose graph input is closed when
`Start` has returned, is terminated. -/
theorem no_termination_lost_chain :
    ∃ c : Config Shared Frame, c.frames = [] ∧
      quitCondition (.chain 1 id (by simp)) c.shared = true ∧
      c.shared.state ≠ .kRunning ∧ c.shared.state ≠ .kCancelling := by
  obtain ⟨c, hReach, hTest⟩ := (machine (.chain 1 id (by simp))).exists_reaches
    (callsKept (.chain 1 id (by simp))) (started (chainInitial 1 false))
    (runs 0 19 .ok ++ calls (.closeInputStream "in") 1 16 .ok ++
      calls (.worker 0) 2 30 .ok ++ calls (.worker 0) 3 31 .ok ++
      calls (.worker 0) 4 26 .ok)
    (fun c => c.frames.isEmpty && ([0].all fun q => (c.shared.queues q).isIdle) &&
      quitCondition (.chain 1 id (by simp)) c.shared) (by decide +kernel)
  simp only [Bool.and_eq_true, List.isEmpty_iff, List.all_eq_true] at hTest
  obtain ⟨⟨hNone, hIdle⟩, hQuit⟩ := hTest
  exact ⟨c, hNone, hQuit, no_termination_lost hReach (by simp [hNone]) (by simp [hNone])
    hIdle hQuit⟩

/-- **A close can be lost.**  The pass of `Start` has read that the graph input
is open; the input is closed and the node runs to its end while this pass is
inside, so that every further call of `HandleIdle` is dropped; the pass leaves
and the graph stays `kRunning`. -/
theorem termination_lost :
    ∃ c : Config Shared Frame, (machine (.chain 1 id (by simp))).Reaches Guard.all
        (started (chainInitial 1 false)) c ∧ c.frames = [] ∧
      (∀ q ∈ [0], (c.shared.queues q).isIdle = true) ∧
      quitCondition (.chain 1 id (by simp)) c.shared = true ∧
      c.shared.state = .kRunning := by
  obtain ⟨c, hReach, hTest⟩ := (machine (.chain 1 id (by simp))).exists_reaches
    Guard.all (started (chainInitial 1 false))
    (runs 0 11 .ok ++ calls (.closeInputStream "in") 1 13 .ok ++
      calls (.worker 0) 2 27 .ok ++ calls (.worker 0) 3 28 .ok ++
      calls (.worker 0) 4 6 .ok ++ runs 0 8 .ok)
    (fun c => c.frames.isEmpty && ([0].all fun q => (c.shared.queues q).isIdle) &&
      quitCondition (.chain 1 id (by simp)) c.shared &&
      decide (c.shared.state = .kRunning)) (by decide +kernel)
  simp only [Bool.and_eq_true, List.isEmpty_iff, List.all_eq_true,
    decide_eq_true_eq] at hTest
  obtain ⟨⟨⟨hNone, hIdle⟩, hQuit⟩, hState⟩ := hTest
  exact ⟨c, hReach, hNone, hIdle, hQuit, hState⟩

end GraphRuntime.Scheduler
