import Mathlib.Algebra.Order.Ring.Nat
import Mathlib.Algebra.Order.SuccPred
import Mathlib.Data.Nat.SuccPred
import GraphRuntime.Lib.Interleaving
import GraphRuntime.Scheduler.State

/-!
# The asynchronous runtime as interleaved call stacks

Every C++ function of the asynchronous path is a family of call frames, cut at
the points where another thread can act: one step is one locked section, one
access to an unsynchronized or atomic variable, or one call into a node or a
user callback.  Local computation is joined to the access before it.  The
frame on top of a thread's stack runs; a call is the callee's frame put on top
of the caller's continuation.

Sources of the frames: `SchedulerQueue` (scheduler_queue.cc), `Scheduler`
(scheduler.cc), `OutputStreamManager` (output_stream_manager.cc) and the public
calls of `GraphRuntime` (graph_runtime.cc).

* `AddNode` called by `RunNode`, `HandleIdle` and `Start` runs its locked
  section inside the caller's own step, so an `arrival` frame is always the
  arrival callback of an input manager.
* What a node does in `Process` and `Open` is the environment's choice: a
  status and a list of writes to its output shards.
* A thread of an executor's pool is started by the call `worker q` for each
  task of queue `q` it takes; the number of threads is not bounded.
* `HandleIdle`'s `while` loop runs its body at most once: every path through
  the body returns or breaks.
* Left out: counters and the profiler, log output but the warning about packet types, the
  backpressure callbacks (a full stream is recorded, and no frame reads the record) and the
  output stream callbacks of the user.
-/

namespace GraphRuntime.Scheduler

open GraphRuntime.Stream Interleaving

/-- A write of a node to one of its output shards. -/
inductive ShardWrite
  | addPacket (packet : Packet)
  | setNextTimestampBound (bound : Timestamp)
  | close
deriving DecidableEq

def ShardWrite.apply (shard : OutputStreamShard) : ShardWrite → OutputStreamShard
  | .addPacket packet => shard.addPacket packet
  | .setNextTimestampBound bound => shard.setNextTimestampBound bound
  | .close => shard.close

def applyWrites (shards : Shards) : List (String × ShardWrite) → Shards
  | [] => shards
  | (port, w) :: rest =>
      applyWrites (Function.update shards port (w.apply (shards port))) rest

/-- Choice of the environment at one step: what a call into a node returns. -/
inductive Choice
  | step
  | returns (status : Status) (writes : List (String × ShardWrite))
deriving DecidableEq

/-! ## Frames -/

/-- Locals of one `RunNode` call. -/
structure Invocation where
  queue : QueueId
  node : NodeId
  isOpen : Bool := false
  inputs : List InputShard := []
  timestamp : Timestamp := Timestamp.unset
  outputs : Shards := fun _ => {}

/-- Where a `RunNode` call stands. -/
inductive RunPc
  /-- Popping the input ports. -/
  | popInputs (rest : List (String × StreamId))
  | callOpen
  | prepareOutputs (rest : List OutId)
  | inProcess
  | postProcess (rest : List OutId) (status : Status)
  /-- `OutputStreamHandler::Close`, on the stop path or for `kClose`. -/
  | closeOutputs (rest : List OutId) (stopped : Bool)
  | stopDecrement
  /-- `HasPendingInput` on the stop path. -/
  | stopScan (rest : List StreamId)
  | stopReAdd
  | stopNotify
  | errorDecrement (status : Status)
  | errorReport (status : Status)
  /-- The computation of `all_inputs_done`. -/
  | scanDone (rest : List StreamId)
  | decide (allInputsDone : Bool)
  | decrement (action : FinalizeAction)
  | act (action : FinalizeAction)
  | pendingScan (action : FinalizeAction) (rest : List StreamId)
  | reAdd (action : FinalizeAction)
  | sourceReAdd
  | safetyCheck (action : FinalizeAction)
  | safetyScan (rest : List StreamId)
  | safetyAdd
  | returned

/-- `Scheduler::DrainStatus`, as far as it reaches the caller's loop. -/
inductive DrainStatus
  | kNotDone
  | kScheduled
  | kDrained
deriving DecidableEq

/-- Locals of one pass of `HandleIdle`; `drain` is the result of
`DrainInputQueues`, if the pass called it. -/
structure IdleLocals where
  inputsRemaining : Bool
  noMoreSources : Bool
  drain : Option DrainStatus := none
deriving DecidableEq

/-- Where a `HandleIdle` call stands. -/
inductive IdlePc
  | enter
  /-- The guard was taken: undo the increment and return. -/
  | dropLeave
  | leave
  | readCancelled
  | cancelTerminate
  | readInputs
  | scanIdle (inputsRemaining : Bool) (rest : List QueueId)
  | sweepSources (inputsRemaining : Bool)
  | readSources (inputsRemaining : Bool)
  | checkDrain (l : IdleLocals)
  | drainIsDone (l : IdleLocals) (rest : List StreamId) (allDone anyNonempty : Bool)
  | drainIsEmpty (l : IdleLocals) (t : StreamId) (rest : List StreamId)
      (allDone anyNonempty : Bool)
  | drainReschedule (rest : List NodeId)
  | drainHasInput (n : NodeId) (ports : List StreamId) (rest : List NodeId)
  | drainIsRunning (n : NodeId) (rest : List NodeId)
  | drainAddNode (n : NodeId) (rest : List NodeId)
  | drainFinalize (l : IdleLocals) (rest : List NodeId) (allDone : Bool)
  | drainAllDone (l : IdleLocals) (n : NodeId) (ports : List StreamId)
      (rest : List NodeId) (allDone : Bool)
  | drainIsFinalized (l : IdleLocals) (n : NodeId) (rest : List NodeId)
      (allDone : Bool)
  | drainFinalAdd (n : NodeId)
  | shouldQuit (l : IdleLocals)
  | quitReport (l : IdleLocals)
  | closeNodes (l : IdleLocals) (rest : List NodeId)
  | readActive
  | readdSources (rest : List NodeId)

/-- Where `Scheduler::Start` stands. -/
inductive StartPc
  | begin
  | assign (rest : List NodeId)
  | openNodes (rest : List NodeId)
  | openFailed
  | insertSource (n : NodeId) (rest : List NodeId)
  | addSource (n : NodeId) (rest : List NodeId)
  | wire (rest : List QueueId)

/-- Where a public call of `GraphRuntime` stands. -/
inductive ApiPc
  | addPacketToInputStream (stream : String) (packet : Packet)
  | injectPacket (o : OutId) (packet : Packet)
  /-- The call of `HandleIdle` that ends most of the public calls. -/
  | callHandleIdle
  | closeInputStream (stream : String)
  | closedStreamsInsert (stream : String)
  | incClosedGraphInputStreams
  | pause
  | pauseWrite
  | resume
  | resumeWrite
  | cancel
  | cancelError
  | cancelState
  | cancelPaused
  | shutdown
  | shutdownState
  | waitUntilDone
  | waitUntilDoneBlock
  | waitUntilDoneBlocked (since : Nat)
  | waitForIdle (rest : List QueueId)
  | waitForIdleBlock
  | waitForIdleBlocked (since : Nat)

inductive Frame
  | arrival (n : NodeId)
  | submitToExecutor (q : QueueId)
  | addTask (q : QueueId)
  | runNextTask (q : QueueId)
  /-- The accounting of `RunNextTask` after an unsuccessful `TryPop`. -/
  | dropTask (q : QueueId)
  | onTaskFinished (q : QueueId)
  | updateIdleState (q : QueueId)
  | setRunning (q : QueueId) (running : Bool)
  | submitWaitingTasks (q : QueueId)
  | cleanupAfterRun (q : QueueId)
  | notifyAll
  /-- One iteration of `PropagateUpdatesToMirrors`, packets then bound. -/
  | propagate (p : Propagation)
  | propagateBound (p : Propagation)
  /-- `OutputStreamManager::Close`. -/
  | closeManager (o : OutId)
  /-- The source-stopped callback. -/
  | sourceStopped (n : NodeId)
  /-- The error callback `Scheduler::SetErrorCallback` installs on a queue. -/
  | queueError (status : Status)
  /-- The user's error callback. -/
  | userError (status : Status)
  | run (r : Invocation) (pc : RunPc)
  | handleIdle (pc : IdlePc)
  | start (pc : StartPc)
  | api (pc : ApiPc)

/-- What a step leaves: the state and the frames in place of its own. -/
abbrev Outcome := Shared × List Frame

/-- What a step of a function leaves: the state, the calls it makes, and where
it goes on when they have returned, unless it returns itself. -/
structure Turn (π : Type) where
  state : Shared
  calls : List Frame := []
  next : Option π := none

def Turn.outcome {π : Type} (frame : π → Frame) (t : Turn π) : Outcome :=
  (t.state, t.calls ++ (t.next.map frame).toList)

/-- Go on at `pc`. -/
abbrev goto {π : Type} (s : Shared) (pc : π) : Turn π := ⟨s, [], some pc⟩

/-- Return. -/
abbrev ret {π : Type} (s : Shared) : Turn π := ⟨s, [], none⟩

/-! ## `AddNode` and the executor -/

/-- `SchedulerQueue::AddNode`, the locked section; a queue that is running then
submits. -/
def addNode (g : Graph) (s : Shared) (n : NodeId) : Outcome :=
  if s.pendingCount n ≥ g.maxInFlight n then (s, [])
  else
    let queue := s.queues (g.queue n)
    ((s.incrementPending n).setQueue (g.queue n) (queue.push (g.item n)),
      if queue.running then [.submitToExecutor (g.queue n)] else [])

/-- `auto* q = node->GetSchedulerQueue(); if (q) q->AddNode(node);` -/
def scheduleNode (g : Graph) (s : Shared) (n : NodeId) : Outcome :=
  if s.assigned n then addNode g s n else (s, [])

/-- `scheduleNode` in the middle of a function that goes on at `pc`. -/
def scheduleThen {π : Type} (g : Graph) (s : Shared) (n : NodeId) (pc : π) :
    Turn π :=
  ⟨(scheduleNode g s n).1, (scheduleNode g s n).2, some pc⟩

/-! The three callbacks of a queue, when they are set. -/

def idleCallback (queue : SchedulerQueue) : List Frame :=
  if queue.idleCallback then [.notifyAll, .handleIdle .enter] else []

def sourceStoppedCallback (queue : SchedulerQueue) (n : NodeId) : List Frame :=
  if queue.sourceStoppedCallback then [.sourceStopped n] else []

def errorCallback (queue : SchedulerQueue) (status : Status) : List Frame :=
  if queue.errorCallback then [.queueError status] else []

/-! ## `RunNode` -/

/-- The branch `RunNode` takes on the status of `Process`. -/
def afterProcess (g : Graph) (n : NodeId) (status : Status) : RunPc :=
  if status.isStopStatus then .closeOutputs (g.outputs n) true
  else if !status.isOk then .errorDecrement status
  else if g.isSource n then .decide false
  else .scanDone (g.inputs n)

/-- Where `RunNode` goes on after acting on the decision. -/
def afterAct (g : Graph) (n : NodeId) (action : FinalizeAction) : RunPc :=
  if g.isSource n then .sourceReAdd else .pendingScan action (g.inputs n)

/-- `absl::Status(status.code(), StrCat(node->name(), ": ", status.message()))`. -/
def nodeError (g : Graph) (n : NodeId) (status : Status) : Status :=
  ⟨status.code, g.name n ++ ": " ++ status.message⟩

/-- `PrepareOutputs` for one manager. -/
def Invocation.prepare (r : Invocation) (net : Net) (o : OutId) : Invocation :=
  { r with
    outputs := Function.update r.outputs (net.port o)
      (OutputStreamShard.reset (net.outputs o).nextTimestampBound
        (net.outputs o).closed) }

/-- What a propagation of its shard for `o` leaves of an invocation. -/
def Invocation.clear (r : Invocation) (net : Net) (o : OutId) : Invocation :=
  { r with
    outputs := Function.update r.outputs (net.port o)
      (OutputStreamManager.clearShard (r.outputs (net.port o))) }

/-- The head of `PropagateUpdatesToMirrors` for manager `o`, with what follows
it in the caller. -/
def propagateThen {π : Type} (s : Shared) (o : OutId) (bound : Timestamp)
    (shard : OutputStreamShard) (callees : List Frame) (pc : π) : Turn π :=
  let r := (s.net.outputs o).beginPropagate bound shard
  ⟨s.setOutput o r.1, .propagate r.2 :: callees, some pc⟩

/-- The check of a packet popped at a port against the contract: what `Logger::Warn` is told. -/
def typeWarning (g : Graph) (n : NodeId) (port : String) (pkt : Packet) : Option String :=
  let expected := g.inputType n port
  let typeName := pkt.debugTypeName g.payloadType
  if !pkt.isEmpty && decide (typeName ≠ "") && expected.hasType &&
      decide (expected.typeName ≠ typeName) then
    some ("Type mismatch on '" ++ port ++ "': expected " ++ expected.typeName ++ ", got " ++
      typeName)
  else none

def runStep (g : Graph) (s : Shared) (r : Invocation) (x : Choice) :
    RunPc → Option (Turn (Invocation × RunPc))
  | .popInputs ((port, t) :: rest) =>
      let pop := (s.stream t).popQueueHead
      let shard : InputShard :=
        { port
          packet := if pop.1.isEmpty then none else some pop.1
          done := pop.2.1 }
      some (goto
        ((s.setStreams (Function.update s.net.streams t pop.2.2)).warn
          (typeWarning g r.node port pop.1))
        ({ r with inputs := r.inputs ++ [shard] }, .popInputs rest))
  | .popInputs [] =>
      if r.isOpen then
        some (goto s ({ r with timestamp := Timestamp.unstarted }, .callOpen))
      else
        let count := (s.queues r.queue).timestampCounter
        some (goto
          (s.setQueue r.queue
            { s.queues r.queue with timestampCounter := count + 1 })
          ({ r with timestamp := Timestamp.ofValue count },
            .prepareOutputs (g.outputs r.node)))
  | .callOpen =>
      match x with
      | .step => none
      | .returns status _ => some (ret (s.record (.opened r.node status)))
  | .prepareOutputs (o :: rest) =>
      some (goto s (r.prepare s.net o, .prepareOutputs rest))
  | .prepareOutputs [] =>
      some (goto (s.record (.processCalled r.node r.inputs)) (r, .inProcess))
  | .inProcess =>
      match x with
      | .step => none
      | .returns status writes =>
          some (goto (s.record (.processReturned r.node status))
            ({ r with outputs := applyWrites r.outputs writes },
              .postProcess (g.outputs r.node) status))
  | .postProcess (o :: rest) status =>
      if (s.net.outputs o).closed then some (goto s (r, .postProcess rest status))
      else
        let shard := r.outputs (s.net.port o)
        let bound :=
          (s.net.outputs o).computeOutputTimestampBound shard r.timestamp
        some (propagateThen s o bound shard
          (if shard.closed then [.closeManager o] else [])
          (r.clear s.net o, .postProcess rest status))
  | .postProcess [] status => some (goto s (r, afterProcess g r.node status))
  | .closeOutputs (o :: rest) stopped =>
      some (propagateThen s o Timestamp.done (r.outputs (s.net.port o))
        [.closeManager o] (r.clear s.net o, .closeOutputs rest stopped))
  | .closeOutputs [] stopped =>
      some (goto s (r, if stopped then .stopDecrement
        else .pendingScan .kClose (g.inputs r.node)))
  -- the stop path
  | .stopDecrement =>
      some (goto (s.decrementPending r.node)
        (r, if g.isSource r.node then .stopNotify
          else .stopScan (g.inputs r.node)))
  | .stopScan (t :: rest) =>
      some (goto s (r, if (s.stream t).isEmpty then .stopScan rest else .stopReAdd))
  | .stopScan [] => some (goto s (r, .stopNotify))
  | .stopReAdd => some (scheduleThen g s r.node (r, .stopNotify))
  | .stopNotify =>
      some ⟨s, if g.isSource r.node then
          sourceStoppedCallback (s.queues r.queue) r.node
        else idleCallback (s.queues r.queue), some (r, .returned)⟩
  -- the error path
  | .errorDecrement status =>
      some (goto (s.decrementPending r.node) (r, .errorReport status))
  | .errorReport status =>
      some ⟨s, errorCallback (s.queues r.queue) (nodeError g r.node status),
        some (r, .returned)⟩
  -- the OK path
  | .scanDone (t :: rest) =>
      some (goto s (r, if (s.stream t).isDone then .scanDone rest
        else .decide false))
  | .scanDone [] => some (goto s (r, .decide true))
  | .decide allInputsDone =>
      let decision := (s.queues r.queue).decideFinalize r.node allInputsDone
      some (goto (s.setQueue r.queue decision.2) (r, .decrement decision.1))
  | .decrement action =>
      some (goto (s.decrementPending r.node) (r, .act action))
  | .act .kClose => some (goto s (r, .closeOutputs (g.outputs r.node) false))
  | .act .kSchedule =>
      some (scheduleThen g s r.node (r, afterAct g r.node .kSchedule))
  | .act .kNone => some (goto s (r, afterAct g r.node .kNone))
  | .pendingScan action (t :: rest) =>
      some (goto s (r, if (s.stream t).isEmpty then .pendingScan action rest
        else .reAdd action))
  | .pendingScan action [] => some (goto s (r, .safetyCheck action))
  | .reAdd action => some (scheduleThen g s r.node (r, .safetyCheck action))
  | .sourceReAdd => some (scheduleThen g s r.node (r, .returned))
  | .safetyCheck action =>
      some (goto s (r,
        if action ≠ .kSchedule && !(s.queues r.queue).isFinalized r.node then
          .safetyScan (g.inputs r.node) else .returned))
  | .safetyScan (t :: rest) =>
      some (goto s (r, if (s.stream t).isDone then .safetyScan rest
        else .returned))
  | .safetyScan [] => some (goto s (r, .safetyAdd))
  | .safetyAdd => some (scheduleThen g s r.node (r, .returned))
  | .returned => some (ret s)

/-! ## `HandleIdle` and `DrainInputQueues` -/

/-- The input streams of all non-source nodes, in the order of the drain. -/
def Graph.inputStreams (g : Graph) : List StreamId := g.nodes.flatMap g.inputs

def idleStep (g : Graph) (s : Shared) : IdlePc → Turn IdlePc
  | .enter =>
      goto { s with handlingIdle := s.handlingIdle + 1 }
        (if s.handlingIdle + 1 > 1 then .dropLeave else .readCancelled)
  | .dropLeave => ret { s with handlingIdle := s.handlingIdle - 1 }
  | .leave => ret { s with handlingIdle := s.handlingIdle - 1 }
  | .readCancelled =>
      if s.state = .kCancelling && s.hasError then
        ⟨s, g.queues.map .cleanupAfterRun, some .cancelTerminate⟩
      else goto s .readInputs
  | .cancelTerminate => ⟨{ s with state := .kTerminated }, [.notifyAll], some .leave⟩
  | .readInputs =>
      goto s (.scanIdle
        (decide (g.totalGraphInputStreams > 0) &&
          decide (s.numClosedGraphInputStreams < g.totalGraphInputStreams))
        g.queues)
  | .scanIdle inputsRemaining (q :: rest) =>
      goto s (if (s.queues q).isIdle then .scanIdle inputsRemaining rest
        else .leave)
  | .scanIdle inputsRemaining [] =>
      goto s (if s.state = .kRunning ∨ s.state = .kCancelling then
        .sweepSources inputsRemaining else .leave)
  | .sweepSources inputsRemaining =>
      goto
        { s with
          activeSources := if s.state = .kCancelling then [] else s.activeSources }
        (.readSources inputsRemaining)
  | .readSources inputsRemaining =>
      goto s (.checkDrain ⟨inputsRemaining, s.activeSources.isEmpty, none⟩)
  | .checkDrain l =>
      goto s (if l.noMoreSources && !s.hasError && !l.inputsRemaining &&
          s.state ≠ .kCancelling then
        .drainIsDone l g.inputStreams true false
      else .shouldQuit l)
  -- first pass: is every stream done, is some queue non-empty
  | .drainIsDone l (t :: rest) allDone anyNonempty =>
      goto s (.drainIsEmpty l t rest (allDone && (s.stream t).isDone) anyNonempty)
  | .drainIsEmpty l t rest allDone anyNonempty =>
      goto s (.drainIsDone l rest allDone (anyNonempty || !(s.stream t).isEmpty))
  | .drainIsDone l [] allDone anyNonempty =>
      goto s (if anyNonempty then .drainReschedule g.nodes
        else .drainFinalize l g.nodes allDone)
  -- some queue was non-empty: reschedule the nodes with input
  | .drainReschedule (n :: rest) =>
      goto s (if g.isSource n then .drainReschedule rest
        else .drainHasInput n (g.inputs n) rest)
  | .drainReschedule [] => goto s .leave
  | .drainHasInput n (t :: ports) rest =>
      goto s (if (s.stream t).isEmpty then .drainHasInput n ports rest
        else .drainIsRunning n rest)
  | .drainHasInput _ [] rest => goto s (.drainReschedule rest)
  | .drainIsRunning n rest =>
      goto s (if s.assigned n && (s.queues (g.queue n)).running then
        .drainAddNode n rest else .drainReschedule rest)
  | .drainAddNode n rest => scheduleThen g s n (.drainReschedule rest)
  -- all queues were empty: schedule a node that has not observed done
  | .drainFinalize l (n :: rest) allDone =>
      goto s (if g.isSource n then .drainFinalize l rest allDone
        else .drainAllDone l n (g.inputs n) rest allDone)
  | .drainFinalize l [] allDone =>
      goto s (.shouldQuit
        { l with drain := some (if allDone then .kDrained else .kNotDone) })
  | .drainAllDone l n (t :: ports) rest allDone =>
      goto s (if (s.stream t).isDone then .drainAllDone l n ports rest allDone
        else .drainFinalize l rest allDone)
  | .drainAllDone l n [] rest allDone =>
      goto s (.drainIsFinalized l n rest allDone)
  | .drainIsFinalized l n rest allDone =>
      goto s (if s.assigned n && !(s.queues (g.queue n)).isFinalized n then
        .drainFinalAdd n else .drainFinalize l rest allDone)
  | .drainFinalAdd n => scheduleThen g s n .leave
  -- `kNotDone` and `kDrained` both leave the switch and arrive here
  | .shouldQuit l =>
      goto s (if s.hasError || (l.noMoreSources && !l.inputsRemaining) then
        .quitReport l else .readActive)
  | .quitReport l =>
      ⟨s, if s.errorCallback && s.hasError then
        [.userError ⟨.internal, "Graph execution error"⟩] else [],
        some (.closeNodes l g.nodes)⟩
  | .closeNodes l (n :: rest) => goto (s.record (.closed n)) (.closeNodes l rest)
  | .closeNodes _ [] => ⟨{ s with state := .kTerminated }, [.notifyAll], some .leave⟩
  | .readActive =>
      goto s (if s.activeSources.isEmpty then .leave
        else .readdSources s.activeSources)
  | .readdSources (n :: rest) => scheduleThen g s n (.readdSources rest)
  | .readdSources [] => goto s .leave

/-! ## `Start` -/

def startStep (g : Graph) (s : Shared) (x : Choice) :
    StartPc → Option (Turn StartPc)
  | .begin => some (goto { s with state := .kRunning } (.assign g.nodes))
  | .assign (n :: rest) =>
      some (goto { s with assigned := Function.update s.assigned n true }
        (.assign rest))
  | .assign [] => some (goto s (.openNodes g.nodes))
  | .openNodes (n :: rest) =>
      match x with
      | .step => none
      | .returns status _ =>
          let s' := s.record (.opened n status)
          some (if !status.isOk then ⟨s', [.userError status], some .openFailed⟩
            else goto s' (if g.isSource n then .insertSource n rest
              else .openNodes rest))
  | .openNodes [] => some (goto s (.wire g.queues))
  | .openFailed => some (ret { s with state := .kTerminated })
  | .insertSource n rest =>
      some (goto
        { s with
          activeSources :=
            if n ∈ s.activeSources then s.activeSources
            else s.activeSources ++ [n] }
        (.addSource n rest))
  | .addSource n rest => some (scheduleThen g s n (.openNodes rest))
  | .wire (q :: rest) =>
      some ⟨s.setQueue q
          { s.queues q with idleCallback := true, sourceStoppedCallback := true },
        [.setRunning q true], some (.wire rest)⟩
  | .wire [] => some ⟨s, [.handleIdle .enter], none⟩

/-! ## The public calls -/

def apiStep (g : Graph) (s : Shared) : ApiPc → Option (Turn ApiPc)
  | .addPacketToInputStream stream packet =>
      match g.graphInputs.lookup stream with
      | none => some (ret s)
      | some o =>
          some (if (s.net.outputs o).closed then ret s
            else goto s (.injectPacket o packet))
  | .injectPacket o packet =>
      let shard := OutputStreamShard.addPacket {} packet
      let bound :=
        (s.net.outputs o).computeOutputTimestampBound shard Timestamp.min
      some (propagateThen s o bound shard [] .callHandleIdle)
  | .callHandleIdle => some ⟨s, [.handleIdle .enter], none⟩
  | .closeInputStream stream =>
      match g.graphInputs.lookup stream with
      | none => some (ret s)
      | some o =>
          some (if s.closedStreams.contains stream then ret s
            else ⟨s, [.closeManager o], some (.closedStreamsInsert stream)⟩)
  | .closedStreamsInsert stream =>
      some (goto { s with closedStreams := stream :: s.closedStreams }
        .incClosedGraphInputStreams)
  | .incClosedGraphInputStreams =>
      some (goto { s with
          numClosedGraphInputStreams := s.numClosedGraphInputStreams + 1 }
        .callHandleIdle)
  | .pause =>
      some (if s.state = .kRunning then goto s .pauseWrite else ret s)
  | .pauseWrite =>
      some ⟨{ s with state := .kPaused }, g.queues.map (.setRunning · false), none⟩
  | .resume =>
      some (if s.state = .kPaused then goto s .resumeWrite else ret s)
  | .resumeWrite =>
      some ⟨{ s with state := .kRunning },
        g.queues.map (.setRunning · true) ++ g.queues.map .submitWaitingTasks,
        some .callHandleIdle⟩
  | .cancel => some (if s.hasError then ret s else goto s .cancelError)
  | .cancelError => some (goto { s with hasError := true } .cancelState)
  | .cancelState => some (goto { s with state := .kCancelling } .cancelPaused)
  | .cancelPaused =>
      some ⟨s, if s.state = .kPaused then g.queues.map (.setRunning · true)
        else [], some .callHandleIdle⟩
  | .shutdown => some (goto { s with stopping := true } .shutdownState)
  | .shutdownState =>
      some ⟨{ s with state := .kTerminated },
        g.queues.map .cleanupAfterRun ++ [.notifyAll], none⟩
  | .waitUntilDone =>
      some (if s.state = .kTerminated then ret s else goto s .waitUntilDoneBlock)
  | .waitUntilDoneBlock => some (goto s (.waitUntilDoneBlocked s.notifications))
  | .waitUntilDoneBlocked since =>
      if s.notifications > since then some (goto s .waitUntilDone) else none
  | .waitForIdle (q :: rest) =>
      some (goto s (if (s.queues q).isIdle then .waitForIdle rest
        else .waitForIdleBlock))
  | .waitForIdle [] => some (ret s)
  | .waitForIdleBlock => some (goto s (.waitForIdleBlocked s.notifications))
  | .waitForIdleBlocked since =>
      if s.notifications > since then some (goto s (.waitForIdle g.queues))
      else none

/-! ## One step of a thread -/

/-- The arrival callback of a manager, when it runs. -/
def arrivalCallback (g : Graph) : Option StreamId → List Frame
  | none => []
  | some t => [.arrival (g.owner t)]

def exec (g : Graph) (s : Shared) (f : Frame) (x : Choice) : Option Outcome :=
  match f with
  | .arrival n => some (scheduleNode g s n)
  | .submitToExecutor q =>
      if g.hasExecutor q then
        some (s.setQueue q (s.queues q).taskSubmitted, [.addTask q])
      else some (s, [])
  | .addTask q =>
      some ({ s with tasks := Function.update s.tasks q (s.tasks q + 1) }, [])
  | .runNextTask q =>
      match (s.queues q).tryPop g.less with
      | none => some (s, [.dropTask q])
      | some (item, queue) =>
          some (s.setQueue q queue,
            [.run { queue := q, node := item.node, isOpen := item.isOpenNode }
              (.popInputs (g.inputPorts item.node)), .onTaskFinished q])
  | .dropTask q =>
      some (s.setQueue q (s.queues q).taskFinished, [.updateIdleState q])
  | .onTaskFinished q =>
      some (s.setQueue q (s.queues q).taskFinished,
        (if (s.queues q).shouldSubmit then [.submitToExecutor q] else []) ++
          [.updateIdleState q])
  | .updateIdleState q => some (s, idleCallback (s.queues q))
  | .setRunning q running =>
      let queue := (s.queues q).setRunning running
      some (s.setQueue q queue,
        if queue.shouldSubmit then [.submitToExecutor q] else [])
  | .submitWaitingTasks q =>
      some (s, if (s.queues q).shouldSubmit then [.submitToExecutor q] else [])
  | .cleanupAfterRun q =>
      some (s.setQueue q (s.queues q).cleanupAfterRun, [])
  | .notifyAll => some ({ s with notifications := s.notifications + 1 }, [])
  | .propagate p =>
      if p.mirrors.isEmpty then some (s, [])
      else
        let r := Propagation.packetStep g.routes s.net.streams p
        some (s.setStreams r.1, arrivalCallback g r.2.2 ++ [.propagateBound r.2.1])
  | .propagateBound p =>
      let r := Propagation.boundStep g.routes s.net.streams p
      some (s.setStreams r.1, arrivalCallback g r.2.2 ++ [.propagate r.2.1])
  | .closeManager o =>
      match (s.net.outputs o).beginClose with
      | none => some (s, [])
      | some (m, p) => some (s.setOutput o m, [.propagate p])
  | .sourceStopped n =>
      some ({ s with activeSources := s.activeSources.filter (· ≠ n) },
        [.notifyAll, .handleIdle .enter])
  | .queueError status => some ({ s with hasError := true }, [.userError status])
  | .userError status =>
      some (if s.errorCallback then s.record (.errorCallback status) else s, [])
  | .run r pc =>
      (runStep g s r x pc).map (Turn.outcome fun next => .run next.1 next.2)
  | .handleIdle pc => some ((idleStep g s pc).outcome .handleIdle)
  | .start pc => (startStep g s x pc).map (Turn.outcome .start)
  | .api pc => (apiStep g s pc).map (Turn.outcome .api)

/-- Calls that start a thread: a task taken by an executor's worker, or a call
of the public interface. -/
inductive Call
  | worker (q : QueueId)
  | addPacketToInputStream (stream : String) (packet : Packet)
  | closeInputStream (stream : String)
  | pause
  | resume
  | cancel
  | shutdown
  | waitUntilDone
  | waitForIdle
deriving DecidableEq

def spawn (g : Graph) (s : Shared) : Call → Option Outcome
  | .worker q =>
      if s.tasks q > 0 then
        some ({ s with tasks := Function.update s.tasks q (s.tasks q - 1) },
          [.runNextTask q])
      else none
  | .addPacketToInputStream stream packet =>
      some (s, [.api (.addPacketToInputStream stream packet)])
  | .closeInputStream stream => some (s, [.api (.closeInputStream stream)])
  | .pause => some (s, [.api .pause])
  | .resume => some (s, [.api .resume])
  | .cancel => some (s, [.api .cancel])
  | .shutdown => some (s, [.api .shutdown])
  | .waitUntilDone => some (s, [.api .waitUntilDone])
  | .waitForIdle => some (s, [.api (.waitForIdle g.queues)])

def machine (g : Graph) : Machine Shared Frame Choice Call := ⟨exec g, spawn g⟩

/-- The state `Initialize` leaves: fresh managers behind fresh mirrors, and
nothing scheduled.  `errorCallback` says whether `SetErrorCallback` was called
on this scheduler; it installs the default queue's error callback, too. -/
def initial (outputs : OutId → OutputStreamManager) (defaultQueue : QueueId)
    (errorCallback : Bool) : Shared where
  net := { outputs, streams := fun _ => {} }
  queues := fun q => { errorCallback := errorCallback && decide (q = defaultQueue) }
  pendingCount := fun _ => 0
  assigned := fun _ => false
  tasks := fun _ => 0
  state := .kNotStarted
  stopping := false
  hasError := false
  handlingIdle := 0
  activeSources := []
  numClosedGraphInputStreams := 0
  errorCallback := errorCallback
  closedStreams := []
  notifications := 0
  log := []

/-- A run is one call of `Start` with whatever happens around it. -/
def started (s : Shared) : Config Shared Frame := ⟨s, [[.start .begin]]⟩

/-! ## A chain of nodes -/

theorem id_lt_one : ∀ n < 1, id n < 1 := fun _ hLt => hLt

/-- Node `i` of a chain reads, on port `in`, what node `i - 1` writes; node 0
reads the graph input `in`.  Stream `i` is the one node `i` reads and output
manager `i` the one that feeds it. -/
def Graph.chain (k : Nat) (queue : NodeId → QueueId)
    (hQueue : ∀ n < k, queue n < k) : Graph where
  nodes := List.range k
  name := fun n => if n = 0 then "first" else "next"
  inputPorts := fun n => [("in", n)]
  outputs := fun n => [n + 1]
  maxInFlight := fun _ => 1
  sourceLayer := fun _ => 0
  address := fun n => n
  queue := queue
  queues := List.range k
  hasExecutor := fun _ => true
  owner := id
  routes := fun h => [h]
  graphInputs := [("in", 0)]
  totalGraphInputStreams := 1
  nodes_nodup := List.nodup_range
  queues_nodup := List.nodup_range
  queue_mem := by
    intro n hMem
    exact List.mem_range.mpr (hQueue n (List.mem_range.mp hMem))
  owner_port := by simp

/-- The managers behind a chain. -/
def chainOutputs (k : Nat) (o : OutId) : OutputStreamManager where
  spec := { name := "out" }
  mirrors := if o < k then [⟨some o, 0⟩] else []

/-- The state `Initialize` leaves for a chain. -/
def chainInitial (k : Nat) (errorCallback : Bool) : Shared :=
  initial (chainOutputs k) 0 errorCallback

/-- A step in which a call into a node, if it is one, returns OK. -/
def Choice.ok : Choice := .returns Status.okStatus []

/-- Thread `i` runs `k` steps under one choice. -/
def runs (i k : Nat) (x : Choice) : List (Action Choice Call) :=
  List.replicate k (.run i x)

/-- A call starts thread `i`, which then runs `k` steps under one choice. -/
def calls (b : Call) (i k : Nat) (x : Choice) : List (Action Choice Call) :=
  .spawn b :: runs i k x

end GraphRuntime.Scheduler
