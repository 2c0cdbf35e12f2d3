import GraphRuntime.Lib.Renaming
import GraphRuntime.Scheduler.Effects

/-!
# What the runtime makes of the payloads

A packet is a payload with a timestamp.  One place reads a payload: `RunNode` asks for the name
of its type, compares it with the contract and warns.  Replacing every payload in a
configuration and in what the nodes and the callers hand in by its image under a function
commutes with every step of every frame (`exec_rename`), the warnings apart.  So the payloads
decide nothing but the warnings: which frames run, which nodes are scheduled, when the run ends
and which packets go where are the same.  `payloads_decide_nothing` states this for two
schedules that differ in their payloads only, and that the warnings are the same, too, when the
payloads have the same types.

The renaming is followed from the bottom up: packets, input managers, output shards,
propagations, then the frames of the scheduler.
-/

namespace GraphRuntime

namespace Stream

variable (f : Nat → Nat)

def Packet.rename (p : Packet) : Packet := { p with holder := p.holder.map f }

@[simp] theorem Packet.rename_isEmpty (p : Packet) : (p.rename f).isEmpty = p.isEmpty := by
  simp [Packet.rename, Packet.isEmpty]

@[simp] theorem Packet.rename_timestamp (p : Packet) : (p.rename f).timestamp = p.timestamp := rfl

@[simp] theorem Packet.rename_empty : Packet.empty.rename f = Packet.empty := rfl

def renameAll (packets : List Packet) : List Packet := packets.map (Packet.rename f)

@[simp] theorem renameAll_isEmpty (packets : List Packet) :
    (renameAll f packets).isEmpty = packets.isEmpty := by
  cases packets <;> rfl

@[simp] theorem renameAll_length (packets : List Packet) :
    (renameAll f packets).length = packets.length := List.length_map _

/-! ## Input managers -/

namespace InputStreamManager

def rename (m : InputStreamManager) : InputStreamManager := { m with queue := renameAll f m.queue }

variable (m : InputStreamManager) (packets : List Packet)

@[simp] theorem rename_isEmpty : (m.rename f).isEmpty = m.isEmpty := renameAll_isEmpty f m.queue

@[simp] theorem rename_isDone : (m.rename f).isDone = m.isDone := by
  show ((renameAll f m.queue).isEmpty && _) = _
  rw [renameAll_isEmpty]
  rfl

theorem boundAfter_renameAll (b : Timestamp) :
    boundAfter b (renameAll f packets) = boundAfter b packets := by
  induction packets generalizing b with
  | nil => rfl
  | cons p rest ih => exact ih p.timestamp.nextAllowedInStream

theorem addPackets_rename :
    ((m.rename f).addPackets (renameAll f packets)).manager =
        (m.addPackets packets).manager.rename f ∧
      ((m.rename f).addPackets (renameAll f packets)).notify = (m.addPackets packets).notify := by
  cases hClosed : m.closed with
  | true =>
      obtain ⟨hManager, hNotify, -, -⟩ := addPackets_of_closed hClosed packets
      obtain ⟨hManager', hNotify', -, -⟩ := addPackets_of_closed
        (show (m.rename f).closed = true from hClosed) (renameAll f packets)
      rw [hManager, hNotify, hManager', hNotify']
      exact ⟨rfl, rfl⟩
  | false =>
      obtain ⟨hManager, hNotify⟩ := addPackets_of_open hClosed packets
      obtain ⟨hManager', hNotify'⟩ := addPackets_of_open
        (show (m.rename f).closed = false from hClosed) (renameAll f packets)
      rw [hManager, hNotify, hManager', hNotify', boundAfter_renameAll]
      simp [rename, renameAll, InputStreamManager.isEmpty]

/-- What a move leaves in the caller's list. -/
theorem movePackets_rename_packets :
    ((m.rename f).movePackets (renameAll f packets)).packets =
      renameAll f (m.movePackets packets).packets := by
  have hClosed : (m.rename f).closed = m.closed := rfl
  simp only [movePackets, hClosed, appendLoop_eq]
  split <;> rfl

theorem setNextTimestampBound_rename (bound : Timestamp) :
    (m.rename f).setNextTimestampBound bound =
      ((m.setNextTimestampBound bound).1.rename f, (m.setNextTimestampBound bound).2) := by
  simp only [setNextTimestampBound]
  show (if bound > m.nextTimestampBound then _ else _) = _
  split <;> rfl

theorem popQueueHead_rename :
    (m.rename f).popQueueHead =
      (m.popQueueHead.1.rename f, m.popQueueHead.2.1, m.popQueueHead.2.2.rename f) := by
  obtain ⟨queue, added, bound, closed, limit, enabled⟩ := m
  cases queue <;> rfl

end InputStreamManager

def renameStreams (streams : Streams) : Streams := fun t => (streams t).rename f

theorem renameStreams_update (streams : Streams) (t : StreamId) (m : InputStreamManager) :
    renameStreams f (Function.update streams t m) =
      Function.update (renameStreams f streams) t (m.rename f) := by
  funext u
  by_cases hEq : u = t
  · subst hEq
    simp [renameStreams]
  · simp [renameStreams, hEq]

/-! ## Output shards and propagations -/

namespace OutputStreamShard

def rename (shard : OutputStreamShard) : OutputStreamShard :=
  { shard with outputQueue := renameAll f shard.outputQueue }

variable (shard : OutputStreamShard)

@[simp] theorem rename_lastAddedPacketTimestamp :
    (shard.rename f).lastAddedPacketTimestamp = shard.lastAddedPacketTimestamp := by
  simp only [lastAddedPacketTimestamp, rename, renameAll, List.getLast?_map]
  cases shard.outputQueue.getLast? <;> rfl

theorem addPacket_rename (p : Packet) :
    (shard.rename f).addPacket (p.rename f) = (shard.addPacket p).rename f := by
  have hClosed : (shard.rename f).closed = shard.closed := rfl
  simp only [addPacket, Packet.rename_isEmpty, hClosed]
  repeat' split
  · rfl
  · rfl
  · simp [rename, renameAll]

end OutputStreamShard

theorem computeOutputTimestampBound_rename (m : OutputStreamManager) (shard : OutputStreamShard)
    (t : Timestamp) :
    m.computeOutputTimestampBound (shard.rename f) t = m.computeOutputTimestampBound shard t := by
  have hEmpty : (shard.rename f).isEmpty = shard.isEmpty := renameAll_isEmpty f shard.outputQueue
  simp only [OutputStreamManager.computeOutputTimestampBound, hEmpty,
    OutputStreamShard.rename_lastAddedPacketTimestamp]
  rfl

namespace Propagation

def rename (p : Propagation) : Propagation := { p with packets := renameAll f p.packets }

theorem beginPropagate_rename (m : OutputStreamManager) (bound : Timestamp)
    (shard : OutputStreamShard) :
    m.beginPropagate bound (shard.rename f) =
      ((m.beginPropagate bound shard).1, (m.beginPropagate bound shard).2.rename f) := by
  simp only [OutputStreamManager.beginPropagate, rename,
    OutputStreamShard.rename_lastAddedPacketTimestamp]
  simp [OutputStreamShard.rename]

theorem packetStep_rename (routes : Routes) (streams : Streams) (p : Propagation) :
    packetStep routes (renameStreams f streams) (p.rename f) =
      (renameStreams f (packetStep routes streams p).1, (packetStep routes streams p).2.1.rename f,
        (packetStep routes streams p).2.2) := by
  obtain ⟨mirrors, packets, nextBound, setBound⟩ := p
  cases mirrors with
  | nil => rfl
  | cons mirror rest =>
      simp only [packetStep, rename]
      cases mirror.resolve routes with
      | none => rfl
      | some s =>
          obtain ⟨hManager, hNotify⟩ :=
            (streams s).addPackets_rename f packets
          have hMoved := (streams s).movePackets_rename_packets f packets
          have hStream : renameStreams f streams s = (streams s).rename f := rfl
          simp only [renameAll_isEmpty, hStream, InputStreamManager.movePackets_manager,
            InputStreamManager.movePackets_notify, hManager, hNotify, hMoved]
          repeat' split
          all_goals first
            | rfl
            | (rw [← renameStreams_update])

theorem boundStep_rename (routes : Routes) (streams : Streams) (p : Propagation) :
    boundStep routes (renameStreams f streams) (p.rename f) =
      (renameStreams f (boundStep routes streams p).1, (boundStep routes streams p).2.1.rename f,
        (boundStep routes streams p).2.2) := by
  obtain ⟨mirrors, packets, nextBound, setBound⟩ := p
  cases mirrors with
  | nil => rfl
  | cons mirror rest =>
      simp only [boundStep, rename]
      cases mirror.resolve routes with
      | none => rfl
      | some s =>
          have hStream : renameStreams f streams s = (streams s).rename f := rfl
          simp only [hStream, InputStreamManager.setNextTimestampBound_rename]
          split
          · rw [← renameStreams_update]
          · rfl

end Propagation

end Stream

namespace Scheduler

open GraphRuntime.Stream Interleaving

/-! ## The warnings -/

/-- A change of the payloads of a graph's packets. -/
structure PayloadChange (g : Graph) where
  payload : Nat → Nat
  /-- What `Type().name()` says of the new payloads. -/
  payloadType : Nat → String
  /-- What becomes of a warning about an old one. -/
  warning : String → Option String
  check : ∀ n port p, typeWarning { g with payloadType := payloadType } n port (p.rename payload) =
    (typeWarning g n port p).bind warning

/-- The graph with the types of the new payloads. -/
def PayloadChange.graph {g : Graph} (f : PayloadChange g) : Graph :=
  { g with payloadType := f.payloadType }

theorem debugTypeName_rename {payload : Nat → Nat} {type type' : Nat → String}
    (hTypes : ∀ h, type' (payload h) = type h) (p : Packet) :
    (p.rename payload).debugTypeName type' = p.debugTypeName type := by
  obtain ⟨holder, t⟩ := p
  cases holder with
  | none => rfl
  | some h => exact hTypes h

/-- A payload whose type has no name is not checked. -/
theorem typeWarning_nameless {g : Graph} (hNames : ∀ h, g.payloadType h = "") (n : NodeId)
    (port : String) (p : Packet) : typeWarning g n port p = none := by
  obtain ⟨holder, t⟩ := p
  cases holder with
  | none => rfl
  | some h => simp [typeWarning, Packet.debugTypeName, hNames h]

/-- Every payload and its type erased, and every warning. -/
def PayloadChange.erase (g : Graph) : PayloadChange g where
  payload := fun _ => 0
  payloadType := fun _ => ""
  warning := fun _ => none
  check := fun n port p => by
    rw [Option.bind_fun_none]
    exact typeWarning_nameless (fun _ => rfl) n port _

/-- Payloads replaced by others of the same types. -/
def PayloadChange.ofSameTypes {g : Graph} (payload : Nat → Nat)
    (hTypes : ∀ h, g.payloadType (payload h) = g.payloadType h) : PayloadChange g where
  payload := payload
  payloadType := g.payloadType
  warning := some
  check := fun n port p => by
    rw [Option.bind_fun_some]
    simp only [typeWarning, Packet.rename_isEmpty, debugTypeName_rename hTypes]

/-! ## The state and the frames -/

section

variable {g : Graph} (f : PayloadChange g)

def ShardWrite.rename : ShardWrite → ShardWrite
  | .addPacket packet => .addPacket (packet.rename f.payload)
  | .setNextTimestampBound bound => .setNextTimestampBound bound
  | .close => .close

def renameWrites (writes : List (String × ShardWrite)) : List (String × ShardWrite) :=
  writes.map fun w => (w.1, w.2.rename f)

def Choice.rename : Choice → Choice
  | .step => .step
  | .returns status writes => .returns status (renameWrites f writes)

def InputShard.rename (shard : InputShard) : InputShard :=
  { shard with packet := shard.packet.map (Packet.rename f.payload) }

def renameShards (shards : Shards) : Shards := fun port => (shards port).rename f.payload

def Invocation.rename (r : Invocation) : Invocation :=
  { r with inputs := r.inputs.map (InputShard.rename f), outputs := renameShards f r.outputs }

def Event.rename : Event → Event
  | .processCalled n inputs => .processCalled n (inputs.map (InputShard.rename f))
  | e => e

def Shared.rename (s : Shared) : Shared :=
  { s with
    net := { s.net with streams := renameStreams f.payload s.net.streams }
    log := s.log.map (Event.rename f)
    warnings := s.warnings.filterMap f.warning }

def ApiPc.rename : ApiPc → ApiPc
  | .addPacketToInputStream stream packet =>
      .addPacketToInputStream stream (packet.rename f.payload)
  | .injectPacket o packet => .injectPacket o (packet.rename f.payload)
  | pc => pc

def Frame.rename : Frame → Frame
  | .propagate p => .propagate (p.rename f.payload)
  | .propagateBound p => .propagateBound (p.rename f.payload)
  | .run r pc => .run (r.rename f) pc
  | .api pc => .api (pc.rename f)
  | frame => frame

def Call.rename : Call → Call
  | .addPacketToInputStream stream packet =>
      .addPacketToInputStream stream (packet.rename f.payload)
  | b => b

def Turn.rename {π : Type} (next : π → π) (t : Turn π) : Turn π :=
  ⟨t.state.rename f, t.calls.map (Frame.rename f), t.next.map next⟩

end

section

variable {g : Graph} (f : PayloadChange g) (s : Shared)

theorem Turn.outcome_rename {π : Type} {frame : π → Frame} (next : π → π)
    (hNext : ∀ pc, frame (next pc) = (frame pc).rename f) (t : Turn π) :
    (t.rename f next).outcome frame = ((t.outcome frame).1.rename f,
      (t.outcome frame).2.map (Frame.rename f)) := by
  obtain ⟨state, calls, next'⟩ := t
  cases next' with
  | none => simp [Turn.rename, Turn.outcome]
  | some pc => simp [Turn.rename, Turn.outcome, hNext]

theorem scheduleNode_rename (n : NodeId) :
    scheduleNode f.graph (s.rename f) n =
      ((scheduleNode g s n).1.rename f, (scheduleNode g s n).2.map (Frame.rename f)) := by
  have hQueues : (s.rename f).queues = s.queues := rfl
  have hPending : (s.rename f).pendingCount = s.pendingCount := rfl
  have hAssigned : (s.rename f).assigned = s.assigned := rfl
  show scheduleNode g (s.rename f) n = _
  simp only [scheduleNode, addNode, hQueues, hPending, hAssigned]
  repeat' split
  all_goals rfl

theorem renameShards_update (shards : Shards) (port : String) (shard : OutputStreamShard) :
    renameShards f (Function.update shards port shard) =
      Function.update (renameShards f shards) port (shard.rename f.payload) := by
  funext port'
  by_cases hEq : port' = port
  · subst hEq
    simp [renameShards]
  · simp [renameShards, hEq]

theorem applyWrites_rename (shards : Shards) (writes : List (String × ShardWrite)) :
    applyWrites (renameShards f shards) (renameWrites f writes) =
      renameShards f (applyWrites shards writes) := by
  induction writes generalizing shards with
  | nil => rfl
  | cons w rest ih =>
      obtain ⟨port, w⟩ := w
      have hWrite : (w.rename f).apply (renameShards f shards port) =
          (w.apply (shards port)).rename f.payload := by
        cases w with
        | addPacket packet =>
            exact OutputStreamShard.addPacket_rename f.payload (shards port) packet
        | _ => rfl
      show applyWrites (Function.update (renameShards f shards) port
        ((w.rename f).apply (renameShards f shards port))) (renameWrites f rest) = _
      rw [hWrite, ← renameShards_update]
      exact ih _

theorem scheduleThen_rename {π : Type} (next : π → π) (n : NodeId) (pc : π) :
    scheduleThen f.graph (s.rename f) n (next pc) = (scheduleThen g s n pc).rename f next := by
  simp only [scheduleThen, scheduleNode_rename]
  rfl

theorem propagateThen_rename {π : Type} (next : π → π) (o : OutId) (bound : Timestamp)
    (shard : OutputStreamShard) (callees : List Frame) (pc : π) :
    propagateThen (s.rename f) o bound (shard.rename f.payload) (callees.map (Frame.rename f))
        (next pc) =
      (propagateThen s o bound shard callees pc).rename f next := by
  have hManager : (s.rename f).net.outputs o = s.net.outputs o := rfl
  simp only [propagateThen, hManager, Propagation.beginPropagate_rename]
  rfl

theorem setStream_rename (t : StreamId) (m : InputStreamManager) :
    (s.rename f).setStreams (Function.update (s.rename f).net.streams t (m.rename f.payload)) =
      (s.setStreams (Function.update s.net.streams t m)).rename f := by
  show Shared.setStreams _
    (Function.update (renameStreams f.payload s.net.streams) t (m.rename f.payload)) = _
  rw [← renameStreams_update]
  rfl

theorem warn_rename (n : NodeId) (port : String) (p : Packet) :
    (s.rename f).warn (typeWarning f.graph n port (p.rename f.payload)) =
      (s.warn (typeWarning g n port p)).rename f := by
  have hCheck : typeWarning f.graph n port (p.rename f.payload) =
      (typeWarning g n port p).bind f.warning := f.check n port p
  rw [hCheck]
  cases typeWarning g n port p with
  | none => simp [Shared.warn, Shared.rename]
  | some w => cases hWarning : f.warning w <;> simp [Shared.warn, Shared.rename, hWarning]

/-- The frames a callback of a queue leaves carry no packet. -/
theorem callback_rename (queue : SchedulerQueue) :
    (idleCallback queue).map (Frame.rename f) = idleCallback queue ∧
      (∀ n, (sourceStoppedCallback queue n).map (Frame.rename f) = sourceStoppedCallback queue n) ∧
      ∀ status, (errorCallback queue status).map (Frame.rename f) = errorCallback queue status := by
  refine ⟨?_, fun n => ?_, fun status => ?_⟩
  · unfold idleCallback
    split <;> rfl
  · unfold sourceStoppedCallback
    split <;> rfl
  · unfold errorCallback
    split <;> rfl

/-- A `RunNode` call on renamed packets. -/
abbrev renameRun (next : Invocation × RunPc) : Invocation × RunPc := (next.1.rename f, next.2)

theorem clear_rename (r : Invocation) (o : OutId) :
    (r.rename f).clear (s.rename f).net o = (r.clear s.net o).rename f := by
  have hPort : (s.rename f).net.port o = s.net.port o := rfl
  simp only [Invocation.clear, Invocation.rename, hPort, renameShards_update]
  rfl

theorem runStep_rename (r : Invocation) (x : Choice) (pc : RunPc) :
    runStep f.graph (s.rename f) (r.rename f) (x.rename f) pc =
      (runStep g s r x pc).map (Turn.rename f (renameRun f)) := by
  have hEmpty := fun t => (s.stream t).rename_isEmpty f.payload
  have hDone := fun t => (s.stream t).rename_isDone f.payload
  have hStream : ∀ t, (s.rename f).stream t = (s.stream t).rename f.payload := fun t => rfl
  have hManager : (s.rename f).net.outputs = s.net.outputs := rfl
  have hNode : (r.rename f).node = r.node := rfl
  have hPort : ∀ o, (s.rename f).net.port o = s.net.port o := fun o => rfl
  fun_cases runStep g s r x pc
  all_goals try rfl
  case case1 port t rest pop shard =>
    simp only [runStep, hStream, InputStreamManager.popQueueHead_rename, Packet.rename_isEmpty]
    rw [setStream_rename, hNode, warn_rename]
    simp only [Option.map_some, Turn.rename, renameRun, Invocation.rename, List.map_append,
      List.map_cons, List.map_nil, InputShard.rename]
    simp only [shard, pop]
    split <;> rfl
  case case2 hOpen =>
    simp only [runStep]
    rw [if_pos (show (r.rename f).isOpen = true from hOpen)]
    rfl
  case case3 hOpen count =>
    simp only [runStep]
    rw [if_neg (show ¬ (r.rename f).isOpen = true from hOpen)]
    rfl
  case case5 status writes =>
    simp only [runStep, Choice.rename, hNode]
    simp [Turn.rename, Shared.rename, Shared.record, Event.rename]
  case case6 o rest =>
    simp only [runStep, Invocation.prepare, hManager, hPort]
    simp only [Invocation.rename, renameRun, Turn.rename, Option.map_some, renameShards_update]
    rfl
  case case7 =>
    simp only [runStep, hNode]
    simp [Turn.rename, Shared.rename, Shared.record, Event.rename, Invocation.rename]
  case case9 status writes =>
    simp only [runStep, Choice.rename, hNode]
    simp [Turn.rename, Shared.rename, Shared.record, Event.rename, Invocation.rename,
      applyWrites_rename, PayloadChange.graph]
  case case10 o rest status hClosed =>
    simp only [runStep, hManager, if_pos hClosed]
    rfl
  case case11 o rest status hOpen shard bound =>
    have hClear := clear_rename f s r o
    have hCallees : (if ((r.rename f).outputs (s.net.port o)).closed then
        [Frame.closeManager o] else []) =
          (if (r.outputs (s.net.port o)).closed then [Frame.closeManager o] else []).map
            (Frame.rename f) := by
      show (if (r.outputs (s.net.port o)).closed then _ else _) = _
      split <;> rfl
    have hBound : (s.net.outputs o).computeOutputTimestampBound
        ((r.rename f).outputs (s.net.port o)) (r.rename f).timestamp = bound :=
      computeOutputTimestampBound_rename f.payload _ _ _
    simp only [runStep, hManager, if_neg hOpen, hPort, hCallees, hClear, hBound]
    exact congrArg some (propagateThen_rename f s (renameRun f) o bound
      (r.outputs (s.net.port o)) _ (r.clear s.net o, .postProcess rest status))
  case case13 o rest stopped =>
    simp only [runStep, hPort, clear_rename f s r o]
    exact congrArg some (propagateThen_rename f s (renameRun f) o Timestamp.done
      (r.outputs (s.net.port o)) [.closeManager o] (r.clear s.net o, .closeOutputs rest stopped))
  case case18 | case27 | case31 | case32 | case36 =>
    simp only [runStep]
    exact congrArg some (scheduleThen_rename f s (renameRun f) r.node (r, _))
  case case19 =>
    obtain ⟨hIdle, hStopped, -⟩ := callback_rename f (s.queues r.queue)
    show some (Turn.mk _ (if g.isSource r.node then sourceStoppedCallback (s.queues r.queue) r.node
      else idleCallback (s.queues r.queue)) _) = _
    simp only [Option.map_some, Turn.rename]
    split
    · rw [hStopped]
    · rw [hIdle]
  case case21 status =>
    obtain ⟨-, -, hError⟩ := callback_rename f (s.queues r.queue)
    simp only [Option.map_some, Turn.rename, hError]
    rfl
  all_goals
    simp only [runStep, hStream, hEmpty, hDone]
    rfl

/-- Frames for the elements of a list, none of which carries a packet. -/
theorem map_rename {α : Type} {frame : α → Frame} (hFrame : ∀ a, (frame a).rename f = frame a)
    (l : List α) : (l.map frame).map (Frame.rename f) = l.map frame := by
  rw [List.map_map]
  exact List.map_congr_left fun a _ => hFrame a

/-- The part of the state the frames test. -/
theorem rename_fields :
    (s.rename f).state = s.state ∧ (s.rename f).hasError = s.hasError ∧
      (s.rename f).queues = s.queues ∧ (s.rename f).net.outputs = s.net.outputs ∧
      (s.rename f).closedStreams = s.closedStreams ∧
      (s.rename f).notifications = s.notifications := ⟨rfl, rfl, rfl, rfl, rfl, rfl⟩

/-- Only the check of a packet reads the types. -/
theorem idleStep_graph (pc : IdlePc) : idleStep f.graph s pc = idleStep g s pc := rfl

theorem startStep_graph (x : Choice) (pc : StartPc) :
    startStep f.graph s x pc = startStep g s x pc := rfl

theorem apiStep_graph (pc : ApiPc) : apiStep f.graph s pc = apiStep g s pc := rfl

theorem idleStep_rename (pc : IdlePc) :
    idleStep f.graph (s.rename f) pc = (idleStep g s pc).rename f id := by
  have hEmpty := fun t => (s.stream t).rename_isEmpty f.payload
  have hDone := fun t => (s.stream t).rename_isDone f.payload
  have hStream : ∀ t, (s.rename f).stream t = (s.stream t).rename f.payload := fun t => rfl
  obtain ⟨hState, hError, -⟩ := rename_fields f s
  rw [idleStep_graph]
  fun_cases idleStep g s pc
  all_goals try rfl
  case case4 hCancelled =>
    simp only [idleStep, hState, hError, if_pos hCancelled, Turn.rename]
    rw [map_rename f fun q => rfl]
    rfl
  case case5 hRunning =>
    simp only [idleStep, hState, hError, if_neg hRunning]
    rfl
  case case29 l =>
    simp only [idleStep, Turn.rename]
    show Turn.mk _ (if s.errorCallback && s.hasError then _ else _) _ = _
    split <;> rfl
  case case30 l n rest =>
    simp [idleStep, Turn.rename, Shared.rename, Shared.record, Event.rename]
  all_goals first
    | (simp only [idleStep, hStream, hEmpty, hDone]; rfl)
    | exact scheduleThen_rename f s id _ _

theorem startStep_rename (x : Choice) (pc : StartPc) :
    startStep f.graph (s.rename f) (x.rename f) pc =
      (startStep g s x pc).map (Turn.rename f id) := by
  rw [startStep_graph]
  fun_cases startStep g s x pc
  all_goals try rfl
  case case5 n rest status writes s₁ =>
    have hRecord : (s.rename f).record (.opened n status) = s₁.rename f := by
      simp [s₁, Shared.rename, Shared.record, Event.rename]
    simp only [startStep, Choice.rename, hRecord, Option.map_some]
    split <;> rfl
  case case9 n rest =>
    simp only [startStep, Option.map_some]
    exact congrArg some (scheduleThen_rename f s id n (StartPc.openNodes rest))

theorem apiStep_rename (pc : ApiPc) :
    apiStep f.graph (s.rename f) (pc.rename f) =
      (apiStep g s pc).map (Turn.rename f (ApiPc.rename f)) := by
  obtain ⟨hState, hError, hQueues, hOutputs, hClosed, hNotifications⟩ := rename_fields f s
  have hRunning : ∀ b, (g.queues.map (Frame.setRunning · b)).map (Frame.rename f) =
      g.queues.map (Frame.setRunning · b) := fun b => map_rename f (fun q => rfl) g.queues
  have hSubmit : (g.queues.map Frame.submitWaitingTasks).map (Frame.rename f) =
      g.queues.map Frame.submitWaitingTasks := map_rename f (fun q => rfl) g.queues
  have hCleanup : (g.queues.map Frame.cleanupAfterRun).map (Frame.rename f) =
      g.queues.map Frame.cleanupAfterRun := map_rename f (fun q => rfl) g.queues
  rw [apiStep_graph]
  fun_cases apiStep g s pc
  all_goals try rfl
  case case3 o packet shard bound =>
    have hShard : OutputStreamShard.addPacket {} (packet.rename f.payload) =
        shard.rename f.payload := OutputStreamShard.addPacket_rename f.payload {} packet
    have hBound : (s.net.outputs o).computeOutputTimestampBound (shard.rename f.payload)
        Timestamp.min = bound := computeOutputTimestampBound_rename f.payload _ _ _
    simp only [ApiPc.rename, apiStep, hOutputs, hShard, hBound, Option.map_some]
    exact congrArg some (propagateThen_rename f s (ApiPc.rename f) o bound shard [] .callHandleIdle)
  case case21 since hNotified | case26 since hNotified =>
    simp only [ApiPc.rename, apiStep, hNotifications, if_pos hNotified, Option.map_some]
    rfl
  case case22 since hNotified | case27 since hNotified =>
    simp only [ApiPc.rename, apiStep, hNotifications, if_neg hNotified, Option.map_none]
  case case1 stream packet hUnknown | case2 stream packet o hKnown =>
    simp only [ApiPc.rename, apiStep, Option.map_some, *]
    try split
    all_goals rfl
  all_goals simp only [ApiPc.rename, apiStep, Option.map_some, *]
  all_goals try split
  all_goals first
    | rfl
    | (simp only [Turn.rename, List.map_append, hRunning, hSubmit, hCleanup]; rfl)

theorem arrivalCallback_rename (wake : Option StreamId) :
    (arrivalCallback g wake).map (Frame.rename f) = arrivalCallback g wake := by
  cases wake <;> rfl

/-- **Every step commutes with a renaming of the payloads.** -/
theorem exec_rename (frame : Frame) (x : Choice) :
    exec f.graph (s.rename f) (frame.rename f) (x.rename f) =
      (exec g s frame x).map fun r => (r.1.rename f, r.2.map (Frame.rename f)) := by
  obtain ⟨-, -, hQueues, hOutputs, -⟩ := rename_fields f s
  cases frame with
  | run r pc =>
      show (runStep f.graph (s.rename f) (r.rename f) (x.rename f) pc).map _ =
        ((runStep g s r x pc).map _).map _
      rw [runStep_rename, Option.map_map, Option.map_map]
      congr 1
      funext t
      exact Turn.outcome_rename f (renameRun f) (fun pc => rfl) t
  | handleIdle pc =>
      show some ((idleStep f.graph (s.rename f) pc).outcome .handleIdle) = _
      rw [idleStep_rename]
      exact congrArg some (Turn.outcome_rename f id (fun pc => rfl) _)
  | start pc =>
      show (startStep f.graph (s.rename f) (x.rename f) pc).map _ =
        ((startStep g s x pc).map _).map _
      rw [startStep_rename, Option.map_map, Option.map_map]
      congr 1
      funext t
      exact Turn.outcome_rename f id (fun pc => rfl) t
  | api pc =>
      show (apiStep f.graph (s.rename f) (pc.rename f)).map _ = ((apiStep g s pc).map _).map _
      rw [apiStep_rename, Option.map_map, Option.map_map]
      congr 1
      funext t
      exact Turn.outcome_rename f (ApiPc.rename f) (fun pc => rfl) t
  | arrival n => exact congrArg some (scheduleNode_rename f s n)
  | propagate p =>
      have hMirrors : (p.rename f.payload).mirrors = p.mirrors := rfl
      simp only [exec, Frame.rename, hMirrors]
      split
      · rfl
      · have hStep : Propagation.packetStep f.graph.routes (s.rename f).net.streams
            (p.rename f.payload) = _ :=
          Propagation.packetStep_rename f.payload g.routes s.net.streams p
        simp only [hStep, Option.map_some, List.map_append, arrivalCallback_rename]
        rfl
  | propagateBound p =>
      have hStep : Propagation.boundStep f.graph.routes (s.rename f).net.streams
          (p.rename f.payload) = _ :=
        Propagation.boundStep_rename f.payload g.routes s.net.streams p
      simp only [exec, Frame.rename, hStep, Option.map_some, List.map_append,
        arrivalCallback_rename]
      rfl
  | runNextTask q =>
      have hLess : f.graph.less = g.less := rfl
      simp only [exec, Frame.rename, hQueues, hLess]
      cases (s.queues q).tryPop g.less <;> rfl
  | closeManager o =>
      -- closing a manager sends a bound and no packet
      have hNone : ∀ r, (s.net.outputs o).beginClose = some r → r.2.rename f.payload = r.2 := by
        intro r hClose
        unfold OutputStreamManager.beginClose at hClose
        split at hClose <;> cases hClose
        rfl
      simp only [exec, Frame.rename, hOutputs]
      cases hClose : (s.net.outputs o).beginClose with
      | none => rfl
      | some r =>
          simp only [Option.map_some, List.map_cons, List.map_nil, Frame.rename, hNone r hClose]
          rfl
  | submitToExecutor q =>
      have hExecutor : f.graph.hasExecutor = g.hasExecutor := rfl
      simp only [exec, Frame.rename, hExecutor]
      split <;> rfl
  | userError status =>
      simp only [exec, Frame.rename, Option.map_some]
      show some (if s.errorCallback then _ else _, _) = _
      split
      · simp [Shared.rename, Shared.record, Event.rename]
      · rfl
  | onTaskFinished q | setRunning q b | submitWaitingTasks q =>
      simp only [exec, Frame.rename, Option.map_some, hQueues]
      split <;> rfl
  | updateIdleState q =>
      simp only [exec, Frame.rename, Option.map_some, hQueues, (callback_rename f _).1]
  | _ => rfl

theorem spawn_rename (b : Call) :
    spawn f.graph (s.rename f) (b.rename f) =
      (spawn g s b).map fun r => (r.1.rename f, r.2.map (Frame.rename f)) := by
  cases b with
  | worker q =>
      simp only [spawn, Call.rename]
      show (if s.tasks q > 0 then _ else _) = _
      split <;> rfl
  | _ => rfl

end

variable {g : Graph}

/-- Replacing the payloads, as a renaming of the machine. -/
def PayloadChange.renaming (f : PayloadChange g) : Renaming (machine g) (machine f.graph) where
  state := Shared.rename f
  frame := Frame.rename f
  choice := Choice.rename f
  call := Call.rename f
  exec := exec_rename f
  spawn := spawn_rename f

/-- Every payload erased: what is left is which packets are empty, and the timestamps. -/
def erased (g : Graph) : Renaming (machine g) (machine (PayloadChange.erase g).graph) :=
  (PayloadChange.erase g).renaming

/-- Payloads that `payload` sends to the same one are identified; they have the same type. -/
def identified {payload : Nat → Nat}
    (hTypes : ∀ h, g.payloadType (payload h) = g.payloadType h) :
    Renaming (machine g) (machine (PayloadChange.ofSameTypes payload hTypes).graph) :=
  (PayloadChange.ofSameTypes payload hTypes).renaming

theorem warnings_of_identified {payload : Nat → Nat}
    {hTypes : ∀ h, g.payloadType (payload h) = g.payloadType h} {c₁ c₂ : Config Shared Frame}
    (hEqual : (identified hTypes).config c₁ = (identified hTypes).config c₂) :
    c₁.shared.warnings = c₂.shared.warnings := by
  have hWarnings : c₁.shared.warnings.filterMap some = c₂.shared.warnings.filterMap some :=
    congrArg (fun c => c.shared.warnings) hEqual
  rwa [List.filterMap_some, List.filterMap_some] at hWarnings

/-- **The payloads decide nothing but the warnings.**  From configurations that differ in
payloads only, two schedules that differ in payloads only run alike: when the first one runs
through, so does the second, and the configurations they end in, with everything the scheduler,
the queues and the log say, differ in payloads and warnings only.  Where the payloads that differ
have the same types, so that nothing of them but their types is read, the warnings are the same. -/
theorem payloads_decide_nothing {c₁ c₂ c₁' : Config Shared Frame}
    {schedule₁ schedule₂ : List (Action Choice Call)}
    (hStart : (erased g).config c₁ = (erased g).config c₂)
    (hSame : schedule₁.map (erased g).action = schedule₂.map (erased g).action)
    (hRun : (machine g).runSchedule Guard.all c₁ schedule₁ = some c₁') :
    ∃ c₂', (machine g).runSchedule Guard.all c₂ schedule₂ = some c₂' ∧
      (erased g).config c₁' = (erased g).config c₂' ∧
      ∀ (payload : Nat → Nat) (hTypes : ∀ h, g.payloadType (payload h) = g.payloadType h),
        (identified hTypes).config c₁ = (identified hTypes).config c₂ →
        schedule₁.map (identified hTypes).action = schedule₂.map (identified hTypes).action →
        c₁'.shared.warnings = c₂'.shared.warnings := by
  have hAlike := (erased g).run_alike hStart hSame
  rw [hRun, Option.map_some] at hAlike
  obtain ⟨c₂', hRun', hEnd⟩ := Option.map_eq_some_iff.mp hAlike.symm
  refine ⟨c₂', hRun', hEnd.symm, fun payload hTypes hStart' hSame' => ?_⟩
  have hAlike' := (identified hTypes).run_alike hStart' hSame'
  rw [hRun, hRun', Option.map_some, Option.map_some] at hAlike'
  exact warnings_of_identified (Option.some.inj hAlike')

/-- A node that wants doubles, and packets with integers. -/
def Graph.mistyped : Graph :=
  { Graph.chain 1 id id_lt_one with
    inputType := fun _ _ => { hasType := true, typeName := "double" }
    payloadType := fun _ => "int" }

/-- The start of a node and one packet handed in, which `Process` is called with. -/
def oneInjected (payload : Nat) : List (Action Choice Call) :=
  runs 0 19 .ok ++ calls (.addPacketToInputStream "in" ⟨some payload, Timestamp.min⟩) 1 9 .ok ++
    calls (.worker 0) 2 6 .ok

theorem payloads_decide_nothing_injected :
    ∃ c₁ c₂,
      (machine .mistyped).runSchedule Guard.all (started (chainInitial 1 false))
        (oneInjected 7) = some c₁ ∧
      (machine .mistyped).runSchedule Guard.all (started (chainInitial 1 false))
        (oneInjected 8) = some c₂ ∧
      (erased .mistyped).config c₁ = (erased .mistyped).config c₂ ∧
      c₁.shared.warnings = ["Type mismatch on 'in': expected double, got int"] ∧
      c₂.shared.warnings = ["Type mismatch on 'in': expected double, got int"] := by
  have hRan : ((machine .mistyped).runSchedule Guard.all (started (chainInitial 1 false))
      (oneInjected 7)).map (fun c => c.shared.warnings) =
        some ["Type mismatch on 'in': expected double, got int"] := by decide +kernel
  obtain ⟨c₁, hRun, hWarned⟩ := Option.map_eq_some_iff.mp hRan
  have hSame : (oneInjected 7).map (erased .mistyped).action =
      (oneInjected 8).map (erased .mistyped).action := rfl
  obtain ⟨c₂, hRun', hEnd, hWarnings⟩ := payloads_decide_nothing rfl hSame hRun
  exact ⟨c₁, c₂, hRun, hRun', hEnd, hWarned,
    (hWarnings (fun _ => 0) (fun _ => rfl) rfl rfl).symm.trans hWarned⟩

end Scheduler

end GraphRuntime
