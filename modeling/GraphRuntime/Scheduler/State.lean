import GraphRuntime.Scheduler.SchedulerQueue
import GraphRuntime.Stream.OutputStreamHandler

/-!
# The state of a running graph

`Graph` is what `GraphRuntime::Initialize` and `Scheduler::AssignNodeToQueue`
fix for the whole run: the nodes in the order of `all_nodes_`, the managers
behind their ports, the queue each node is bound to, the mirrors.  `Shared` is
what the threads of a run change.

The arrival callback of an input manager is bound to the node the manager was
created for; `owner` gives this node, and `owner_port` says that a manager in
a node's `InputPorts()` was created for that node.

`log` is not part of the program: it records the calls into the nodes and into
the user's error callback, which is what several results are about.  Nor are the `warnings`,
which are what `RunNode` has told the logger.
-/

namespace GraphRuntime.Scheduler

open GraphRuntime.Stream

/-- `PacketType`: the type a contract declares for a port, if it declares one. -/
structure PacketType where
  hasType : Bool := false
  typeName : String := ""
deriving DecidableEq

structure Graph where
  /-- `all_nodes_`. -/
  nodes : List NodeId
  name : NodeId → String
  /-- `InputPorts()`, in the order of the map. -/
  inputPorts : NodeId → List (String × StreamId)
  /-- The managers of the node's `OutputStreamHandler`, if it has one. -/
  outputs : NodeId → List OutId
  /-- The contract's `MaxInFlight()`. -/
  maxInFlight : NodeId → Int
  /-- The contract's `Inputs().Get(port)`. -/
  inputType : NodeId → String → PacketType := fun _ _ => {}
  /-- What `Type().name()` says of a payload. -/
  payloadType : Nat → String := fun _ => ""
  sourceLayer : NodeId → Int
  address : NodeId → Int
  /-- The queue `AssignNodeToQueue` chooses. -/
  queue : NodeId → QueueId
  /-- `all_queues_`. -/
  queues : List QueueId
  /-- Whether a queue's `executor_` is set. -/
  hasExecutor : QueueId → Bool
  /-- The node whose scheduling an input manager's arrival callback asks for. -/
  owner : StreamId → NodeId
  routes : Routes
  /-- `graph_input_outputs_`. -/
  graphInputs : List (String × OutId)
  /-- `total_graph_input_streams_`. -/
  totalGraphInputStreams : Nat
  nodes_nodup : nodes.Nodup
  queues_nodup : queues.Nodup
  queue_mem : ∀ n ∈ nodes, queue n ∈ queues
  owner_port : ∀ n, ∀ p ∈ inputPorts n, owner p.2 = n

namespace Graph

variable (g : Graph)

/-- `input_port_count() == 0`. -/
def isSource (n : NodeId) : Bool := (g.inputPorts n).isEmpty

/-- The managers behind a node's ports. -/
def inputs (n : NodeId) : List StreamId := (g.inputPorts n).map Prod.snd

theorem owner_of_mem {g : Graph} {n : NodeId} {t : StreamId}
    (hMem : t ∈ g.inputs n) : g.owner t = n := by
  obtain ⟨p, hPort, rfl⟩ := List.mem_map.mp hMem
  exact g.owner_port n p hPort

/-- The order of a queue's items. -/
def less : Item → Item → Bool := Item.less g.isSource

/-- The item `AddNode` pushes. -/
def item (n : NodeId) : Item :=
  { node := n, sourceLayer := g.sourceLayer n, nodeId := g.address n }

theorem nodup_zero : [0].Nodup := by decide

/-- All nodes on queue 0. -/
theorem zero_mem_queues : ∀ n ∈ ([0] : List NodeId), 0 ∈ ([0] : List QueueId) := by simp

end Graph

/-- What one input shard of an invocation shows: at most one packet, and
whether the stream reported done. -/
structure InputShard where
  port : String
  packet : Option Packet := none
  done : Bool := false
deriving DecidableEq

/-- Calls made into the nodes and into the user's error callback. -/
inductive Event
  | opened (n : NodeId) (status : Status)
  | processCalled (n : NodeId) (inputs : List InputShard)
  | processReturned (n : NodeId) (status : Status)
  | closed (n : NodeId)
  | errorCallback (status : Status)
deriving DecidableEq

/-- The return of OK from `Open` of node `n`. -/
def Event.opens (n : NodeId) : Event → Bool
  | .opened m status => decide (m = n) && status.isOk
  | _ => false

/-- `Open` of node `n` has returned OK. -/
def Opened (log : List Event) (n : NodeId) : Prop :=
  ∃ status, .opened n status ∈ log ∧ status.isOk = true

theorem opened_iff {log : List Event} {n : NodeId} :
    Opened log n ↔ log.any (Event.opens n) = true := by
  rw [List.any_eq_true]
  constructor
  · rintro ⟨status, hMem, hOk⟩
    exact ⟨_, hMem, by simp [Event.opens, hOk]⟩
  · rintro ⟨e, hMem, hOpens⟩
    cases e with
    | opened m status =>
        simp only [Event.opens, Bool.and_eq_true, decide_eq_true_eq] at hOpens
        obtain ⟨rfl, hOk⟩ := hOpens
        exact ⟨status, hMem, hOk⟩
    | _ => exact absurd hOpens Bool.false_ne_true

instance (log : List Event) (n : NodeId) : Decidable (Opened log n) :=
  decidable_of_iff _ opened_iff.symm

theorem Opened.mono {log log' : List Event} {n : NodeId} (hOpened : Opened log n)
    (hSubset : log ⊆ log') : Opened log' n := by
  obtain ⟨status, hMem, hOk⟩ := hOpened
  exact ⟨status, hSubset hMem, hOk⟩

/-- `SchedulerState`. -/
inductive SchedulerState
  | kNotStarted
  | kRunning
  | kPaused
  | kCancelling
  | kTerminated
deriving DecidableEq

structure Shared where
  net : Net
  queues : QueueId → SchedulerQueue
  /-- `Node::pending_count_`. -/
  pendingCount : NodeId → Int
  /-- Whether `GetSchedulerQueue()` has been set. -/
  assigned : NodeId → Bool
  /-- Tasks of each queue the executors hold. -/
  tasks : QueueId → Nat
  state : SchedulerState
  stopping : Bool
  hasError : Bool
  handlingIdle : Int
  activeSources : List NodeId
  numClosedGraphInputStreams : Nat
  /-- Whether the scheduler's `error_callback_` is set. -/
  errorCallback : Bool
  /-- `GraphRuntime::closed_streams_`. -/
  closedStreams : List String
  /-- How often `cv_.notify_all()` has run. -/
  notifications : Nat
  log : List Event
  warnings : List String := []

namespace Shared

variable (s : Shared)

def stream (t : StreamId) : InputStreamManager := s.net.streams t

def setStreams (streams : Streams) : Shared :=
  { s with net := { s.net with streams := streams } }

def setOutput (o : OutId) (m : OutputStreamManager) : Shared :=
  { s with net := { s.net with outputs := Function.update s.net.outputs o m } }

def setQueue (q : QueueId) (queue : SchedulerQueue) : Shared :=
  { s with queues := Function.update s.queues q queue }

def record (e : Event) : Shared := { s with log := s.log ++ [e] }

/-- The logger gets the warning, if there is one. -/
def warn (warning : Option String) : Shared :=
  { s with warnings := s.warnings ++ warning.toList }

def incrementPending (n : NodeId) : Shared :=
  { s with pendingCount := Function.update s.pendingCount n (s.pendingCount n + 1) }

def decrementPending (n : NodeId) : Shared :=
  { s with pendingCount := Function.update s.pendingCount n (s.pendingCount n - 1) }

section

variable {s} (q q' : QueueId) (queue : SchedulerQueue) (streams : Streams)
  (o : OutId) (m : OutputStreamManager) (e : Event) (n n' : NodeId)

@[simp] theorem setStreams_streams :
    (s.setStreams streams).net.streams = streams := rfl

@[simp] theorem setQueue_queues :
    (s.setQueue q queue).queues = Function.update s.queues q queue := rfl

@[simp] theorem setOutput_streams :
    (s.setOutput o m).net.streams = s.net.streams := rfl

end

end Shared

/-- `Process` of the node is called. -/
def Event.calls (n : NodeId) : Event → Bool
  | .processCalled m _ => decide (m = n)
  | _ => false

/-- How often `Process` of the node has been called. -/
def called (s : Shared) (n : NodeId) : Nat := s.log.countP (Event.calls n)

end GraphRuntime.Scheduler
