import Mathlib.Data.List.Nodup
import GraphRuntime.Scheduler.Machine

/-!
# Output callbacks and what the consumers get

`PropagateOutputPackets` calls the callback registered under a manager's name
for each packet of its shard, just before `PropagateUpdatesToMirrors` takes the
same packets out of the shard; `OutputStreamHandler::Close` propagates the
shards once more and calls no callback.  The two agree because of what
`PrepareOutputs` makes of the shards: the shard of a closed manager is reset
closed and takes no packet, and every other shard has been emptied by the time
`Close` looks at it.

`Observed` is the net with two records: the calls of the callbacks, and the
packets by which the input managers' queues grew, each with the mirror it came
through (`Enqueue`).  A run is any sequence of invocations of the node, with the
consumers popping packets in between.

* `received_eq`: what a consumer has taken and still holds is what it held at
  first, followed by the enqueues recorded for its stream.
* `callbacks_see_enqueued`: the packets of a callback are the packets enqueued
  through each mirror that leads to an open input manager, in order.
-/

namespace GraphRuntime.Scheduler

open GraphRuntime.Stream Transition

/-! ## Enqueues of one propagation -/

/-- A packet that went into an input manager's queue: the output manager it came
from, the number of the mirror, the stream. -/
structure Enqueue where
  output : OutId
  mirror : Nat
  stream : StreamId
  packet : Packet
deriving DecidableEq

/-- What the manager behind a mirror gained between two states. -/
def gained (routes : Routes) (o : OutId) (i : Nat) (mirror : Mirror)
    (before after : Streams) : List Enqueue :=
  match mirror.resolve routes with
  | none => []
  | some s =>
      ((after s).queue.drop (before s).queue.length).map fun p => ⟨o, i, s, p⟩

/-- The loop of `PropagateUpdatesToMirrors` from mirror `i` on, with what each
iteration adds to the queue behind its mirror. -/
def enqueues (routes : Routes) (o : OutId) (nextBound : Timestamp) (setBound : Bool) :
    Nat → List Mirror → List Packet → Streams → List Enqueue
  | _, [], _, _ => []
  | i, mirror :: rest, packets, streams =>
      let r := Propagation.packetStep routes streams ⟨mirror :: rest, packets, nextBound, setBound⟩
      let r' := Propagation.boundStep routes r.1 r.2.1
      gained routes o i mirror streams r'.1 ++
        enqueues routes o nextBound setBound (i + 1) rest r'.2.1.packets r'.1

/-- The mirror leads to an input manager, and the manager is open. -/
def live (routes : Routes) (streams : Streams) (mirror : Mirror) : Bool :=
  match mirror.resolve routes with
  | none => false
  | some s => !(streams s).closed

/-- The packets enqueued through one mirror. -/
def through (o : OutId) (i : Nat) (log : List Enqueue) : List Packet :=
  (log.filter fun e => decide (e.output = o) && decide (e.mirror = i)).map Enqueue.packet

/-- The packets enqueued into one stream. -/
def into (s : StreamId) (log : List Enqueue) : List Packet :=
  (log.filter fun e => decide (e.stream = s)).map Enqueue.packet

@[simp] theorem through_append (o : OutId) (i : Nat) (log log' : List Enqueue) :
    through o i (log ++ log') = through o i log ++ through o i log' := by
  simp [through]

@[simp] theorem into_append (s : StreamId) (log log' : List Enqueue) :
    into s (log ++ log') = into s log ++ into s log' := by
  simp [into]

theorem through_map (o : OutId) (i : Nat) (s : StreamId) (packets : List Packet) :
    through o i (packets.map fun p => ⟨o, i, s, p⟩) = packets := by
  induction packets with
  | nil => rfl
  | cons p rest ih => simpa [through] using ih

theorem into_map (o : OutId) (i : Nat) (s t : StreamId) (packets : List Packet) :
    into s (packets.map fun p => ⟨o, i, t, p⟩) = if t = s then packets else [] := by
  induction packets with
  | nil => simp [into]
  | cons p rest ih =>
      by_cases hEq : t = s
      · simpa [into, hEq] using ih
      · simp [into, hEq]

section

variable {routes : Routes} {o : OutId} {nextBound : Timestamp} {setBound : Bool}
  {i : Nat} {mirror : Mirror} {rest : List Mirror} {packets : List Packet}
  {streams : Streams} {s : StreamId}

/-- A closed manager takes nothing. -/
theorem deliver_queue (m : InputStreamManager) :
    (Propagation.deliver nextBound setBound packets m).queue =
      m.queue ++ if m.closed then [] else packets := by
  have hAdded : (m.addPackets packets).manager.queue =
      m.queue ++ if m.closed then [] else packets := by
    cases hClosed : m.closed
    · rw [(InputStreamManager.addPackets_of_open hClosed packets).1]
      rfl
    · rw [(InputStreamManager.addPackets_of_closed hClosed packets).1]
      simp
  unfold Propagation.deliver
  split
  · rw [InputStreamManager.setNextTimestampBound_queue, hAdded]
  · exact hAdded

/-- The streams one iteration leaves behind. -/
def afterMirror (routes : Routes) (nextBound : Timestamp) (setBound : Bool)
    (mirror : Mirror) (packets : List Packet) (streams : Streams) : Streams :=
  match mirror.resolve routes with
  | none => streams
  | some s =>
      Function.update streams s
        (Propagation.deliver nextBound setBound packets (streams s))

theorem afterMirror_closed (t : StreamId) :
    (afterMirror routes nextBound setBound mirror packets streams t).closed =
      (streams t).closed := by
  cases hResolve : mirror.resolve routes with
  | none => simp [afterMirror, hResolve]
  | some s =>
      by_cases hEq : t = s
      · subst hEq
        simp [afterMirror, hResolve, Net.deliver_closed]
      · simp [afterMirror, hResolve, hEq]

/-- Both recursions at once, with the list handed on: it matters only while
there is a next mirror. -/
theorem enqueues_cons :
    enqueues routes o nextBound setBound i (mirror :: rest) packets streams =
        gained routes o i mirror streams
            (afterMirror routes nextBound setBound mirror packets streams) ++
          enqueues routes o nextBound setBound (i + 1) rest packets
            (afterMirror routes nextBound setBound mirror packets streams) ∧
      Propagation.run routes nextBound setBound (mirror :: rest) packets streams =
        Propagation.run routes nextBound setBound rest packets
          (afterMirror routes nextBound setBound mirror packets streams) := by
  have hIteration := Propagation.iteration routes nextBound setBound mirror rest packets streams
  simp only [enqueues, Propagation.run]
  rw [hIteration]
  cases rest with
  | nil => exact ⟨rfl, rfl⟩
  | cons next rest =>
      rw [Propagation.iteration_packets routes nextBound setBound mirror packets streams
        (by simp)]
      exact ⟨rfl, rfl⟩

/-- A resolved mirror gains the whole list unless its manager is closed. -/
theorem gained_of_resolve (hResolve : mirror.resolve routes = some s) :
    gained routes o i mirror streams
        (afterMirror routes nextBound setBound mirror packets streams) =
      (if (streams s).closed then [] else packets).map fun p => ⟨o, i, s, p⟩ := by
  simp only [gained, afterMirror, hResolve, Function.update_self, deliver_queue,
    List.drop_left]

theorem through_gained :
    through o i (gained routes o i mirror streams
        (afterMirror routes nextBound setBound mirror packets streams)) =
      if live routes streams mirror then packets else [] := by
  cases hResolve : mirror.resolve routes with
  | none => simp [gained, live, hResolve, through]
  | some s =>
      rw [gained_of_resolve hResolve, through_map]
      cases hClosed : (streams s).closed <;> simp [live, hResolve, hClosed]

theorem live_congr {streams' : Streams}
    (hClosed : ∀ s, (streams' s).closed = (streams s).closed) (mirror : Mirror) :
    live routes streams' mirror = live routes streams mirror := by
  unfold live
  split
  · rfl
  · rw [hClosed]

theorem mem_gained {before after : Streams} {e : Enqueue}
    (hMem : e ∈ gained routes o i mirror before after) : e.output = o ∧ e.mirror = i := by
  unfold gained at hMem
  split at hMem
  · exact absurd hMem List.not_mem_nil
  · obtain ⟨p, -, rfl⟩ := List.mem_map.mp hMem
    exact ⟨rfl, rfl⟩

theorem mem_enqueues {mirrors : List Mirror} {e : Enqueue}
    (hMem : e ∈ enqueues routes o nextBound setBound i mirrors packets streams) :
    e.output = o ∧ i ≤ e.mirror := by
  induction mirrors generalizing i streams with
  | nil => exact absurd hMem List.not_mem_nil
  | cons mirror rest ih =>
      rw [enqueues_cons.1] at hMem
      rcases List.mem_append.mp hMem with hGained | hRest
      · obtain ⟨hOutput, hMirror⟩ := mem_gained hGained
        exact ⟨hOutput, hMirror.ge⟩
      · obtain ⟨hOutput, hMirror⟩ := ih hRest
        exact ⟨hOutput, by omega⟩

/-- A list of enqueues that are all of other mirrors. -/
theorem through_eq_nil {log : List Enqueue} {j : Nat}
    (hOther : ∀ e ∈ log, e.output = o → e.mirror ≠ j) : through o j log = [] := by
  have hFilter : (log.filter fun e => decide (e.output = o) && decide (e.mirror = j)) = [] := by
    refine List.filter_eq_nil_iff.mpr fun e hMem hBoth => ?_
    simp only [Bool.and_eq_true, decide_eq_true_eq] at hBoth
    exact hOther e hMem hBoth.1 hBoth.2
  rw [through, hFilter, List.map_nil]

/-- **Through each mirror** that leads to an open manager, a propagation enqueues
its whole list, and through the others nothing. -/
theorem through_enqueues {mirrors : List Mirror} {k : Nat}
    (hMirror : mirrors[k]? = some mirror) :
    through o (i + k) (enqueues routes o nextBound setBound i mirrors packets streams) =
      if live routes streams mirror then packets else [] := by
  induction mirrors generalizing i k streams with
  | nil => exact absurd hMirror (by simp)
  | cons first rest ih =>
      rw [enqueues_cons.1, through_append]
      cases k with
      | zero =>
          obtain rfl : first = mirror := by simpa using hMirror
          have hLater : through o i (enqueues routes o nextBound setBound (i + 1) rest packets
              (afterMirror routes nextBound setBound first packets streams)) = [] :=
            through_eq_nil fun e hMem _ hEq => by
              have hLe := (mem_enqueues hMem).2
              omega
          rw [Nat.add_zero, through_gained, hLater, List.append_nil]
      | succ k =>
          have hFirst : through o (i + (k + 1)) (gained routes o i first streams
              (afterMirror routes nextBound setBound first packets streams)) = [] :=
            through_eq_nil fun e hMem _ hEq => by
              have hIndex := (mem_gained hMem).2
              omega
          have hIndex : i + (k + 1) = i + 1 + k := by omega
          rw [hFirst, List.nil_append, hIndex, ih (by simpa using hMirror),
            live_congr afterMirror_closed]

/-- **Into each stream**, a propagation enqueues what the stream's queue grows
by. -/
theorem run_queue (mirrors : List Mirror) :
    (Propagation.run routes nextBound setBound mirrors packets streams s).queue =
      (streams s).queue ++
        into s (enqueues routes o nextBound setBound i mirrors packets streams) := by
  induction mirrors generalizing i streams with
  | nil => simp [Propagation.run, enqueues, into]
  | cons mirror rest ih =>
      rw [enqueues_cons.1, (enqueues_cons (o := o) (i := i)).2, ih (i := i + 1), into_append,
        ← List.append_assoc]
      congr 1
      cases hResolve : mirror.resolve routes with
      | none => simp [afterMirror, gained, hResolve, into]
      | some t =>
          rw [gained_of_resolve hResolve, into_map]
          by_cases hEq : s = t
          · subst hEq
            simp only [afterMirror, hResolve, Function.update_self, deliver_queue, if_true]
          · simp only [afterMirror, hResolve, Function.update_of_ne hEq, if_neg (Ne.symm hEq),
              List.append_nil]

theorem run_closed (mirrors : List Mirror) :
    (Propagation.run routes nextBound setBound mirrors packets streams s).closed =
      (streams s).closed := by
  induction mirrors generalizing streams with
  | nil => rfl
  | cons mirror rest ih =>
      rw [(enqueues_cons (o := 0) (i := 0)).2, ih, afterMirror_closed]

theorem enqueues_nil (mirrors : List Mirror) :
    enqueues routes o nextBound setBound i mirrors [] streams = [] := by
  induction mirrors generalizing i streams with
  | nil => rfl
  | cons mirror rest ih =>
      rw [enqueues_cons.1, ih, List.append_nil]
      cases hResolve : mirror.resolve routes with
      | none => simp [gained, hResolve]
      | some s => simp [gained_of_resolve hResolve]

end

/-! ## The handler and its callbacks -/

/-- The net, and what has been seen of it: the calls of the registered callbacks
under their names, the enqueues, the packets each consumer has taken. -/
structure Observed where
  net : Net
  calls : List (String × Packet) := []
  enqueued : List Enqueue := []
  popped : StreamId → List Packet := fun _ => []

namespace Observed

/-- The packets passed to the callback of one name. -/
def callsTo (st : Observed) (name : String) : List Packet :=
  (st.calls.filter fun call => decide (call.1 = name)).map Prod.snd

/-- What a consumer has taken, then what it still holds. -/
def received (st : Observed) (s : StreamId) : List Packet :=
  st.popped s ++ (st.net.streams s).queue

/-- The callback of `name`, if one is registered, for each packet. -/
def fire (callbacks : List String) (st : Observed) (name : String)
    (packets : List Packet) : Observed :=
  if name ∈ callbacks then
    { st with calls := st.calls ++ packets.map fun p => (name, p) }
  else st

def propagate (routes : Routes) (st : Observed) (o : OutId) (nextBound : Timestamp)
    (shard : OutputStreamShard) : Observed :=
  let p := ((st.net.outputs o).beginPropagate nextBound shard).2
  { st with
    net := st.net.propagate routes o nextBound shard
    enqueued := st.enqueued ++
      enqueues routes o p.nextBound p.setBound 0 p.mirrors p.packets st.net.streams }

def closeManager (routes : Routes) (st : Observed) (o : OutId) : Observed :=
  { st with net := st.net.closeManager routes o }

end Observed

/-- `PrepareOutputs` for one manager. -/
def prepareOutput (net : Net) (shards : Shards) (o : OutId) : Shards :=
  Function.update shards (net.port o)
    (OutputStreamShard.reset (net.outputs o).nextTimestampBound (net.outputs o).closed)

def prepareOutputs (net : Net) (managers : List OutId) (shards : Shards) : Shards :=
  managers.foldl (prepareOutput net) shards

/-- `PropagateOutputPackets` for one manager. -/
def propagateOutput (routes : Routes) (callbacks : List String) (inputTimestamp : Timestamp)
    (st : Observed × Shards) (o : OutId) : Observed × Shards :=
  let m := st.1.net.outputs o
  if m.closed then st
  else
    let port := st.1.net.port o
    let shard := st.2 port
    let outputBound := m.computeOutputTimestampBound shard inputTimestamp
    let sent := (st.1.fire callbacks m.spec.name shard.outputQueue).propagate routes o
      outputBound shard
    (if shard.closed then sent.closeManager routes o else sent,
      Function.update st.2 port (OutputStreamManager.clearShard shard))

def postProcess (routes : Routes) (callbacks : List String) (managers : List OutId)
    (inputTimestamp : Timestamp) (st : Observed × Shards) : Observed × Shards :=
  managers.foldl (propagateOutput routes callbacks inputTimestamp) st

/-- `OutputStreamHandler::Close` for one manager. -/
def closeOutput (routes : Routes) (st : Observed × Shards) (o : OutId) : Observed × Shards :=
  let port := st.1.net.port o
  let shard := st.2 port
  ((st.1.propagate routes o Timestamp.done shard).closeManager routes o,
    Function.update st.2 port (OutputStreamManager.clearShard shard))

def closeOutputs (routes : Routes) (managers : List OutId) (st : Observed × Shards) :
    Observed × Shards := managers.foldl (closeOutput routes) st

/-- One invocation of the node, as its handler sees it: the shard set it is
given, what the node writes, and whether `Close` follows. -/
structure OutputInvocation where
  timestamp : Timestamp
  shards : Shards
  writes : List (String × ShardWrite)
  closes : Bool

/-- What happens to a handler's streams: an invocation of the node, or a consumer
pops. -/
inductive HandlerEvent
  | invocation (v : OutputInvocation)
  | popQueueHead (s : StreamId)

/-- The shards `PostProcess` finds. -/
def written (managers : List OutId) (net : Net) (v : OutputInvocation) : Shards :=
  applyWrites (prepareOutputs net managers v.shards) v.writes

def Observed.step (routes : Routes) (callbacks : List String) (managers : List OutId)
    (st : Observed) : HandlerEvent → Observed
  | .invocation v =>
      let sent := postProcess routes callbacks managers v.timestamp
        (st, written managers st.net v)
      if v.closes then (closeOutputs routes managers sent).1 else sent.1
  | .popQueueHead s =>
      { st with
        net := st.net.popQueueHead s
        popped := Function.update st.popped s
          (st.popped s ++ (st.net.streams s).queue.take 1) }

def Observed.run (routes : Routes) (callbacks : List String) (managers : List OutId)
    (st : Observed) (events : List HandlerEvent) : Observed :=
  events.foldl (Observed.step routes callbacks managers) st

section

variable {routes : Routes} {callbacks : List String} {managers : List OutId}
  {inputTimestamp : Timestamp} {st st' : Observed} {o : OutId}

/-! ### The record is of the same net -/

@[simp] theorem fire_net (name : String) (packets : List Packet) :
    (st.fire callbacks name packets).net = st.net := by
  unfold Observed.fire
  split <;> rfl

@[simp] theorem fire_enqueued (name : String) (packets : List Packet) :
    (st.fire callbacks name packets).enqueued = st.enqueued := by
  unfold Observed.fire
  split <;> rfl

@[simp] theorem fire_popped (name : String) (packets : List Packet) :
    (st.fire callbacks name packets).popped = st.popped := by
  unfold Observed.fire
  split <;> rfl

/-- Callbacks and records aside, this is `Net.postProcess`. -/
theorem postProcess_net (shards : Shards) :
    (postProcess routes callbacks managers inputTimestamp (st, shards)).1.net =
      Net.postProcess routes inputTimestamp managers st.net shards := by
  induction managers generalizing st shards with
  | nil => rfl
  | cons o rest ih =>
      simp only [postProcess, List.foldl_cons] at ih ⊢
      simp only [Net.postProcess]
      by_cases hClosed : (st.net.outputs o).closed = true
      · rw [propagateOutput, if_pos hClosed, if_pos hClosed]
        exact ih shards
      · rw [propagateOutput, if_neg hClosed, if_neg hClosed, ih]
        by_cases hShard : (shards (st.net.port o)).closed = true
        · simp only [hShard, if_true, Observed.closeManager, Observed.propagate, fire_net]
        · simp only [hShard, Bool.false_eq_true, if_false, Observed.propagate, fire_net]

theorem closeOutputs_net (shards : Shards) :
    (closeOutputs routes managers (st, shards)).1.net =
      Net.close routes managers st.net (some shards) := by
  induction managers generalizing st shards with
  | nil => rfl
  | cons o rest ih =>
      simp only [closeOutputs, List.foldl_cons] at ih ⊢
      exact ih _

/-! ### What an operation leaves alone -/

/-- The same streams under the same names, open or closed as before. -/
structure Unaltered (net net' : Net) : Prop where
  outputs : ∀ o, (net'.outputs o).mirrors = (net.outputs o).mirrors ∧
    (net'.outputs o).spec = (net.outputs o).spec
  closed : ∀ s, (net'.streams s).closed = (net.streams s).closed

theorem Unaltered.refl (net : Net) : Unaltered net net := ⟨fun _ => ⟨rfl, rfl⟩, fun _ => rfl⟩

theorem Unaltered.trans {net net' net'' : Net} (h : Unaltered net net')
    (h' : Unaltered net' net'') :
    Unaltered net net'' :=
  ⟨fun o => ⟨(h'.outputs o).1.trans (h.outputs o).1, (h'.outputs o).2.trans (h.outputs o).2⟩,
    fun s => (h'.closed s).trans (h.closed s)⟩

theorem Unaltered.port {net net' : Net} (h : Unaltered net net') (o : OutId) :
    net'.port o = net.port o := by
  rw [Net.port, Net.port, (h.outputs o).2]

/-- One manager changes its bound and flags, and a propagation runs. -/
theorem unaltered_run {net : Net} {m : OutputStreamManager} {nextBound : Timestamp}
    {setBound : Bool} {mirrors : List Mirror} {packets : List Packet}
    (hMirrors : m.mirrors = (net.outputs o).mirrors) (hSpec : m.spec = (net.outputs o).spec) :
    Unaltered net ⟨Function.update net.outputs o m,
      Propagation.run routes nextBound setBound mirrors packets net.streams⟩ := by
  refine ⟨fun o' => ?_, fun s => run_closed mirrors⟩
  by_cases hEq : o' = o
  · subst hEq
    simp [hMirrors, hSpec]
  · simp [Function.update_of_ne hEq]

theorem unaltered_propagate (net : Net) (o : OutId) (nextBound : Timestamp)
    (shard : OutputStreamShard) : Unaltered net (net.propagate routes o nextBound shard) := by
  refine unaltered_run (Net.beginPropagate_mirrors _ _ _) ?_
  unfold OutputStreamManager.beginPropagate
  dsimp only
  split <;> rfl

/-- `Close` of a manager: flags and bounds only. -/
theorem closeManager_spec (net : Net) (o : OutId) :
    Unaltered net (net.closeManager routes o) ∧
      ∀ s, ((net.closeManager routes o).streams s).queue = (net.streams s).queue := by
  by_cases hClosed : (net.outputs o).closed = true
  · have hSame : net.closeManager routes o = net := by
      simp [Net.closeManager, OutputStreamManager.beginClose, hClosed]
    rw [hSame]
    exact ⟨.refl net, fun _ => rfl⟩
  · simp only [Net.closeManager, OutputStreamManager.beginClose, hClosed, Bool.false_eq_true,
      if_false]
    refine ⟨unaltered_run rfl rfl, fun s => ?_⟩
    rw [run_queue (o := o) (i := 0), enqueues_nil]
    simp [into]

/-! ### The agreement, operation by operation -/

/-- What holds between operations, in terms of the net a run starts from. -/
structure Sees (routes : Routes) (callbacks : List String) (managers : List OutId)
    (net : Net) (st : Observed) : Prop where
  same : Unaltered net st.net
  queues : ∀ s, st.received s = (net.streams s).queue ++ into s st.enqueued
  calls : ∀ o ∈ managers, (net.outputs o).spec.name ∈ callbacks →
    ∀ i mirror, (net.outputs o).mirrors[i]? = some mirror →
      through o i st.enqueued =
        if live routes net.streams mirror then st.callsTo (net.outputs o).spec.name else []

theorem callsTo_fire (name name' : String) (packets : List Packet) :
    (st.fire callbacks name packets).callsTo name' = st.callsTo name' ++
      if name ∈ callbacks ∧ name = name' then packets else [] := by
  have hMap : ((packets.map fun p => (name, p)).filter fun call : String × Packet =>
      decide (call.1 = name')).map Prod.snd = if name = name' then packets else [] := by
    induction packets with
    | nil => simp
    | cons p rest ih =>
        by_cases hEq : name = name'
        · simpa [hEq] using ih
        · simp [hEq]
  unfold Observed.fire
  by_cases hMem : name ∈ callbacks
  · simp only [hMem, if_true, Observed.callsTo, List.filter_append, List.map_append, hMap,
      true_and]
  · simp [hMem]

section

variable {net : Net} {nextBound : Timestamp} {shard : OutputStreamShard}

theorem Sees.propagate_queues (h : Sees routes callbacks managers net st)
    (name : String) (packets : List Packet) (s : StreamId) :
    ((st.fire callbacks name packets).propagate routes o nextBound shard).received s =
      (net.streams s).queue ++
        into s ((st.fire callbacks name packets).propagate routes o nextBound shard).enqueued := by
  have hBefore := h.queues s
  simp only [Observed.received] at hBefore
  simp only [Observed.received, Observed.propagate, Net.propagate, fire_net, fire_popped,
    fire_enqueued, into_append]
  rw [run_queue (o := o) (i := 0), ← List.append_assoc, hBefore, List.append_assoc]

/-- What the mirrors of one manager gain from the propagation of another. -/
theorem through_propagate (o' : OutId) (i : Nat) :
    through o' i (st.propagate routes o nextBound shard).enqueued =
      through o' i st.enqueued ++
        through o' i (enqueues routes o nextBound
          ((st.net.outputs o).beginPropagate nextBound shard).2.setBound 0
          (st.net.outputs o).mirrors shard.outputQueue st.net.streams) :=
  through_append _ _ _ _

/-- **One manager**, callback and propagation: the callback's packets and those
of each mirror grow by the same list. -/
theorem Sees.send (h : Sees routes callbacks managers net st)
    (hPorts : (managers.map net.port).Nodup) (hMem : o ∈ managers) :
    Sees routes callbacks managers net
      ((st.fire callbacks (st.net.outputs o).spec.name shard.outputQueue).propagate routes o
        nextBound shard) := by
  refine ⟨?_, h.propagate_queues _ _, ?_⟩
  · refine h.same.trans ?_
    simpa only [Observed.propagate, fire_net] using unaltered_propagate st.net o nextBound shard
  · intro o' hMem' hRegistered i mirror hMirror
    have hBefore := h.calls o' hMem' hRegistered i mirror hMirror
    have hCalls : ((st.fire callbacks (st.net.outputs o).spec.name
        shard.outputQueue).propagate routes o nextBound shard).callsTo
          (net.outputs o').spec.name =
        (st.fire callbacks (st.net.outputs o).spec.name shard.outputQueue).callsTo
          (net.outputs o').spec.name := rfl
    rw [hCalls, callsTo_fire, through_propagate, (h.same.outputs o).2]
    simp only [fire_net, fire_enqueued]
    rw [hBefore]
    by_cases hEq : o' = o
    · subst hEq
      have hMirrors : (st.net.outputs o').mirrors[i]? = some mirror := by
        rw [(h.same.outputs o').1, hMirror]
      have hThrough : through o' (0 + i) (enqueues routes o' nextBound
          ((st.net.outputs o').beginPropagate nextBound shard).2.setBound 0
          (st.net.outputs o').mirrors shard.outputQueue st.net.streams) =
          if live routes st.net.streams mirror then shard.outputQueue else [] :=
        through_enqueues hMirrors
      rw [Nat.zero_add, live_congr h.same.closed] at hThrough
      have hNames : (net.outputs o').spec.name ∈ callbacks ∧
          (net.outputs o').spec.name = (net.outputs o').spec.name := ⟨hRegistered, rfl⟩
      rw [if_pos hNames, hThrough]
      cases live routes net.streams mirror <;> simp
    · have hNames : ¬ ((net.outputs o).spec.name ∈ callbacks ∧
          (net.outputs o).spec.name = (net.outputs o').spec.name) := by
        rintro ⟨-, hSame⟩
        have hPort : net.port o' = net.port o := by
          rw [Net.port, Net.port, hSame]
        exact hEq (List.inj_on_of_nodup_map hPorts hMem' hMem hPort)
      have hOther : through o' i (enqueues routes o nextBound
          ((st.net.outputs o).beginPropagate nextBound shard).2.setBound 0
          (st.net.outputs o).mirrors shard.outputQueue st.net.streams) = [] :=
        through_eq_nil fun e hIn hOutput _ => hEq (hOutput ▸ (mem_enqueues hIn).1)
      rw [if_neg hNames, hOther, List.append_nil, List.append_nil]

/-- A propagation without packets needs no callback. -/
theorem Sees.propagate_nil (h : Sees routes callbacks managers net st)
    (hEmpty : shard.outputQueue = []) :
    Sees routes callbacks managers net (st.propagate routes o nextBound shard) := by
  have hNothing : enqueues routes o nextBound
      ((st.net.outputs o).beginPropagate nextBound shard).2.setBound 0
      (st.net.outputs o).mirrors shard.outputQueue st.net.streams = [] := by
    rw [hEmpty, enqueues_nil]
  have hLog : (st.propagate routes o nextBound shard).enqueued = st.enqueued :=
    (congrArg (st.enqueued ++ ·) hNothing).trans (List.append_nil _)
  refine ⟨h.same.trans (unaltered_propagate st.net o nextBound shard), fun s => ?_, ?_⟩
  · have hGrown : ((st.fire callbacks "" []).propagate routes o nextBound shard).received s = _ :=
      h.propagate_queues "" [] s
    have hFire : (st.fire callbacks "" []) = st := by
      unfold Observed.fire
      split
      · simp
      · rfl
    rwa [hFire] at hGrown
  · intro o' hMem hRegistered i mirror hMirror
    rw [hLog]
    exact h.calls o' hMem hRegistered i mirror hMirror

theorem Sees.closeManager (h : Sees routes callbacks managers net st) :
    Sees routes callbacks managers net (st.closeManager routes o) := by
  obtain ⟨hSame, hQueue⟩ : Unaltered st.net (st.net.closeManager routes o) ∧ _ :=
    closeManager_spec st.net o
  refine ⟨h.same.trans hSame, fun s => ?_, h.calls⟩
  have hBefore := h.queues s
  simp only [Observed.received, Observed.closeManager, hQueue] at hBefore ⊢
  exact hBefore

theorem Sees.popQueueHead (h : Sees routes callbacks managers net st) (s : StreamId) :
    Sees routes callbacks managers net
      (st.step routes callbacks managers (.popQueueHead s)) := by
  refine ⟨h.same.trans ⟨fun _ => ⟨rfl, rfl⟩, fun t => ?_⟩, fun t => ?_, h.calls⟩
  · by_cases hEq : t = s
    · subst hEq
      simp [Observed.step, Net.popQueueHead]
    · simp [Observed.step, Net.popQueueHead, Function.update_of_ne hEq]
  · have hBefore := h.queues t
    simp only [Observed.received] at hBefore
    by_cases hEq : t = s
    · subst hEq
      simp only [Observed.received, Observed.step, Net.popQueueHead, Function.update_self,
        InputStreamManager.popQueueHead_queue, List.append_assoc]
      rw [← hBefore]
      cases (st.net.streams t).queue <;> simp
    · simpa only [Observed.received, Observed.step, Net.popQueueHead,
        Function.update_of_ne hEq] using hBefore

/-! ### The shards of one invocation -/

/-- `PrepareOutputs` leaves the shard of each manager empty, and closed exactly
when the manager is. -/
theorem prepareOutputs_spec (shards : Shards) (hPorts : (managers.map net.port).Nodup) :
    ∀ o ∈ managers, prepareOutputs net managers shards (net.port o) =
      OutputStreamShard.reset (net.outputs o).nextTimestampBound (net.outputs o).closed := by
  refine foldl_invariant (f := prepareOutput net) (l := managers)
    (I := fun done shards => ∀ o ∈ done, shards (net.port o) =
      OutputStreamShard.reset (net.outputs o).nextTimestampBound (net.outputs o).closed)
    (fun o hMem => absurd hMem List.not_mem_nil) ?_
  intro done o rest shards hSplit hDone o' hMem
  rcases List.mem_append.mp hMem with hEarlier | hLast
  · have hNe : net.port o' ≠ net.port o := by
      rw [hSplit, List.map_append, List.map_cons] at hPorts
      exact fun hEq => (List.nodup_append.mp hPorts).2.2 _ (List.mem_map_of_mem hEarlier) _
        List.mem_cons_self hEq
    rw [prepareOutput, Function.update_of_ne hNe]
    exact hDone o' hEarlier
  · obtain rfl := List.mem_singleton.mp hLast
    rw [prepareOutput, Function.update_self]

/-- A closed shard takes nothing, whatever the node writes. -/
theorem applyWrites_of_closed {shards : Shards} {port : String}
    (writes : List (String × ShardWrite)) (hClosed : (shards port).closed = true)
    (hEmpty : (shards port).outputQueue = []) :
    (applyWrites shards writes port).outputQueue = [] := by
  induction writes generalizing shards with
  | nil => exact hEmpty
  | cons w rest ih =>
      obtain ⟨port', write⟩ := w
      by_cases hEq : port = port'
      · subst hEq
        refine ih ?_ ?_
        · cases write <;>
            simp [ShardWrite.apply, OutputStreamShard.addPacket, hClosed,
              OutputStreamShard.setNextTimestampBound, OutputStreamShard.close]
        · cases write <;>
            simp [ShardWrite.apply, OutputStreamShard.addPacket, hClosed, hEmpty,
              OutputStreamShard.setNextTimestampBound, OutputStreamShard.close]
      · refine ih ?_ ?_
        · rwa [Function.update_of_ne hEq]
        · rwa [Function.update_of_ne hEq]

theorem written_of_closed (v : OutputInvocation) (hPorts : (managers.map net.port).Nodup)
    (hMem : o ∈ managers) (hClosed : (net.outputs o).closed = true) :
    (written managers net v (net.port o)).outputQueue = [] := by
  have hReset := prepareOutputs_spec v.shards hPorts o hMem
  refine applyWrites_of_closed v.writes ?_ ?_
  · rw [hReset]
    exact hClosed
  · rw [hReset]
    rfl

/-! ### The loops over the managers -/

theorem propagate_other {o' : OutId} (hNe : o' ≠ o) :
    (net.propagate routes o nextBound shard).outputs o' = net.outputs o' :=
  Function.update_of_ne hNe _ _

theorem closeManager_other {o' : OutId} (hNe : o' ≠ o) :
    (net.closeManager routes o).outputs o' = net.outputs o' := by
  unfold Net.closeManager
  split
  · rfl
  · exact Function.update_of_ne hNe _ _

/-- The managers the loop is done with, and those that are closed, have nothing
in their shards. -/
def Emptied (managers : List OutId) (net : Net) (done : List OutId)
    (st : Observed × Shards) : Prop :=
  ∀ o ∈ managers, o ∈ done ∨ (st.1.net.outputs o).closed = true →
    (st.2 (net.port o)).outputQueue = []

/-- One round on manager `o`: its shard is cleared, the others are as before. -/
theorem Emptied.round {done : List OutId} {shards : Shards}
    (h : Emptied managers net done (st, shards))
    (hPorts : (managers.map net.port).Nodup) (hMem : o ∈ managers)
    (hOther : ∀ o' ≠ o, (st'.net.outputs o').closed = (st.net.outputs o').closed) :
    Emptied managers net (done ++ [o])
      (st', Function.update shards (net.port o)
        (OutputStreamManager.clearShard (shards (net.port o)))) := by
  intro o' hMem' hWhich
  by_cases hEq : o' = o
  · subst hEq
    show (Function.update shards _ _ (net.port o')).outputQueue = []
    rw [Function.update_self]
    rfl
  · have hNe : net.port o' ≠ net.port o :=
      fun hSame => hEq (List.inj_on_of_nodup_map hPorts hMem' hMem hSame)
    show (Function.update shards _ _ (net.port o')).outputQueue = []
    rw [Function.update_of_ne hNe]
    refine h o' hMem' (hWhich.imp (fun hDone => ?_) fun hClosed => ?_)
    · exact (List.mem_append.mp hDone).resolve_right fun hLast =>
        hEq (List.mem_singleton.mp hLast)
    · exact (hOther o' hEq) ▸ hClosed

/-- **`PostProcess`** keeps the agreement and leaves every shard empty. -/
theorem Sees.postProcess {shards : Shards} (h : Sees routes callbacks managers net st)
    (hPorts : (managers.map net.port).Nodup)
    (hShards : Emptied managers net [] (st, shards)) :
    Sees routes callbacks managers net
        (postProcess routes callbacks managers inputTimestamp (st, shards)).1 ∧
      Emptied managers net managers
        (postProcess routes callbacks managers inputTimestamp (st, shards)) := by
  refine foldl_invariant (f := propagateOutput routes callbacks inputTimestamp)
    (I := fun done st => Sees routes callbacks managers net st.1 ∧
      Emptied managers net done st) ⟨h, hShards⟩ ?_
  rintro done o rest ⟨st, shards⟩ hSplit ⟨hSees, hEmptied⟩
  have hMem : o ∈ managers := hSplit ▸ List.mem_append_right _ List.mem_cons_self
  have hPort : st.net.port o = net.port o := hSees.same.port o
  by_cases hClosed : (st.net.outputs o).closed = true
  · rw [propagateOutput, if_pos hClosed]
    refine ⟨hSees, fun o' hMem' hWhich => hEmptied o' hMem' ?_⟩
    rcases hWhich with hDone | hClosed'
    · rcases List.mem_append.mp hDone with hEarlier | hLast
      · exact Or.inl hEarlier
      · exact Or.inr (List.mem_singleton.mp hLast ▸ hClosed)
    · exact Or.inr hClosed'
  · rw [propagateOutput, if_neg hClosed]
    simp only [hPort]
    refine ⟨?_, hEmptied.round hPorts hMem fun o' hNe => ?_⟩
    · split
      · exact (hSees.send hPorts hMem).closeManager
      · exact hSees.send hPorts hMem
    · split
      · simp only [Observed.closeManager, Observed.propagate, fire_net,
          closeManager_other hNe, propagate_other hNe]
      · simp only [Observed.propagate, fire_net, propagate_other hNe]

/-- **`Close`** after `PostProcess` finds no packet to propagate. -/
theorem Sees.close {st : Observed × Shards}
    (h : Sees routes callbacks managers net st.1) (hShards : Emptied managers net managers st) :
    Sees routes callbacks managers net (closeOutputs routes managers st).1 := by
  have hLoop : Sees routes callbacks managers net (closeOutputs routes managers st).1 ∧
      ∀ o ∈ managers, ((closeOutputs routes managers st).2 (net.port o)).outputQueue = [] := by
    refine foldl_invariant (f := closeOutput routes)
      (I := fun _ st => Sees routes callbacks managers net st.1 ∧
        ∀ o ∈ managers, (st.2 (net.port o)).outputQueue = [])
      ⟨h, fun o hMem => hShards o hMem (Or.inl hMem)⟩ ?_
    rintro done o rest ⟨st, shards⟩ hSplit ⟨hSees, hEmpty⟩
    have hMem : o ∈ managers := hSplit ▸ List.mem_append_right _ List.mem_cons_self
    have hPort : st.net.port o = net.port o := hSees.same.port o
    simp only [closeOutput, hPort]
    refine ⟨(hSees.propagate_nil (hEmpty o hMem)).closeManager, fun o' hMem' => ?_⟩
    by_cases hEq : net.port o' = net.port o
    · rw [hEq, Function.update_self]
      rfl
    · rw [Function.update_of_ne hEq]
      exact hEmpty o' hMem'
  exact hLoop.1

/-- **Step lemma**: an invocation or a pop keeps the agreement. -/
theorem Sees.step (h : Sees routes callbacks managers net st)
    (hPorts : (managers.map net.port).Nodup) (event : HandlerEvent) :
    Sees routes callbacks managers net (st.step routes callbacks managers event) := by
  cases event with
  | popQueueHead s => exact h.popQueueHead s
  | invocation v =>
      have hSame : managers.map st.net.port = managers.map net.port :=
        List.map_congr_left fun o _ => h.same.port o
      have hPrepared : Emptied managers net [] (st, written managers st.net v) := by
        intro o hMem hWhich
        have hClosed := hWhich.resolve_left List.not_mem_nil
        have hEmpty := written_of_closed v (hSame ▸ hPorts) hMem hClosed
        rwa [h.same.port o] at hEmpty
      obtain ⟨hSent, hEmptied⟩ := h.postProcess hPorts hPrepared
      simp only [Observed.step]
      split
      · exact hSent.close hEmptied
      · exact hSent

/-- **Run lemma**. -/
theorem Sees.run (h : Sees routes callbacks managers net st)
    (hPorts : (managers.map net.port).Nodup) (events : List HandlerEvent) :
    Sees routes callbacks managers net (st.run routes callbacks managers events) :=
  foldl_invariant (I := fun _ st => Sees routes callbacks managers net st) h
    fun _ event _ _ _ hSees => hSees.step hPorts event

theorem Sees.init (net : Net) : Sees routes callbacks managers net { net } :=
  ⟨.refl net, fun s => by simp [Observed.received, into],
    fun _ _ _ _ _ _ => by simp [Observed.callsTo, through]⟩

/-- **The records are of the queues**: what a consumer has taken and still holds
is what its queue held at first and the enqueues recorded for it, in order. -/
theorem received_eq (hPorts : (managers.map net.port).Nodup) (events : List HandlerEvent)
    (s : StreamId) :
    (Observed.run routes callbacks managers { net } events).received s =
      (net.streams s).queue ++
        into s (Observed.run routes callbacks managers { net } events).enqueued :=
  ((Sees.init net).run hPorts events).queues s

/-- **Callbacks see what consumers get.**  Over any sequence of invocations, the
packets enqueued through each mirror of a stream that leads to an open input
manager are those passed to the stream's callback, in order; through any other
mirror nothing is enqueued. -/
theorem callbacks_see_enqueued (hPorts : (managers.map net.port).Nodup)
    (events : List HandlerEvent) {o : OutId} (hMem : o ∈ managers)
    (hRegistered : (net.outputs o).spec.name ∈ callbacks) {i : Nat} {mirror : Mirror}
    (hMirror : (net.outputs o).mirrors[i]? = some mirror) :
    through o i (Observed.run routes callbacks managers { net } events).enqueued =
      if live routes net.streams mirror then
        (Observed.run routes callbacks managers { net } events).callsTo
          (net.outputs o).spec.name
      else [] :=
  ((Sees.init net).run hPorts events).calls o hMem hRegistered i mirror hMirror

end

end

/-! ### A consumer that has been closed -/

/-- One stream with two consumers, of which the second has been closed. -/
private def secondClosed : Net :=
  { outputs := fun _ =>
      { spec := { name := "out:frames" }
        mirrors := [⟨some 0, 0⟩, ⟨some 1, 0⟩] }
    streams := fun s => { closed := decide (s = 1) } }

/-- A packet, then the node closes its stream; the next invocation writes to a
closed shard. -/
private def writesThenCloses : List HandlerEvent :=
  [.invocation
    { timestamp := .ofValue 0, shards := fun _ => {}
      writes := [("out", .addPacket ⟨some 7, .ofValue 0⟩), ("out", .close)]
      closes := true },
    .popQueueHead 0,
    .invocation
    { timestamp := .ofValue 1, shards := fun _ => {}
      writes := [("out", .addPacket ⟨some 8, .ofValue 1⟩)]
      closes := false }]

/-- The theorem for both consumers. -/
theorem callbacks_see_enqueued_small :
    let st := Observed.run (fun h => [h]) ["out:frames"] [0] { net := secondClosed }
      writesThenCloses
    through 0 0 st.enqueued = st.callsTo "out:frames" ∧ through 0 1 st.enqueued = [] ∧
      st.callsTo "out:frames" = [⟨some 7, .ofValue 0⟩] := by
  intro st
  have hSeen : ∀ i mirror, (secondClosed.outputs 0).mirrors[i]? = some mirror →
      through 0 i st.enqueued =
        if live (fun h => [h]) secondClosed.streams mirror then
          st.callsTo (secondClosed.outputs 0).spec.name
        else [] :=
    fun i mirror hMirror =>
      callbacks_see_enqueued (by decide) writesThenCloses (by decide) (by decide) hMirror
  exact ⟨(hSeen 0 ⟨some 0, 0⟩ rfl).trans (if_pos rfl),
    (hSeen 1 ⟨some 1, 0⟩ rfl).trans (if_neg (by decide)), by decide⟩

/-- The callback sees a packet that a closed consumer does not take. -/
theorem closed_mirror_sees_less :
    let st := Observed.run (fun h => [h]) ["out:frames"] [0] { net := secondClosed }
      writesThenCloses
    st.callsTo "out:frames" ≠ through 0 1 st.enqueued := by
  decide

end GraphRuntime.Scheduler
