import GraphRuntime.Public.Executors
import Mathlib.Data.Finset.Card

/-!
# A runtime over several graphs

`Session` is a `GraphRuntime` object through its whole life: what the last successful
`Initialize` set up, the state of the managers it owns, the graph inputs that were
closed and the throttle records.  A history is any list of calls; what the scheduler and
the nodes do in between is `run`, which leaves the managers of the graph inputs to the
public calls and is otherwise arbitrary.

`Initialize` replaces the scheduler and the nodes and adds to the rest, so what earlier
graphs leave behind is still there.  `reinitialize_iff` is exact: after `Initialize` the
runtime behaves as a new one if and only if the graph inputs of the earlier configs are
among those of the new one, none of those has been closed, and no stream is recorded as
full.

Managers are numbered through all configs, nodes anew for each; a throttle record is kept
with the node's number in the graph it was made for.
-/

namespace GraphRuntime.Public

open GraphRuntime.Config GraphRuntime.Stream OrderedMap

/-- A `GraphRuntime` between the calls of its user. -/
structure Session where
  runtime : Runtime := {}
  /-- The managers the runtime owns. -/
  net : Net := ⟨fun _ => { spec := { name := "" } }, fun _ => {}⟩
  closedStreams : List String := []
  /-- `full_input_streams_`, a node with one of its streams. -/
  fullInputStreams : List (NodeId × StreamId) := []
  /-- What the scheduler has counted by `IncClosedGraphInputStreams`. -/
  numClosedGraphInputStreams : Nat := 0

namespace Runtime

/-- `SetInputStreamManagers` of a handler sets the queue size of its managers. -/
def maxQueueSize (r : Runtime) (t : StreamId) : Int :=
  r.ownedInputStreamHandlers.foldl (fun size handler =>
    match handler.kind with
    | .fixedSize maxQueueSize =>
        if maxQueueSize > 0 ∧ t ∈ handler.managers then maxQueueSize else size
    | _ => size) (-1)

/-- The managers when `r` has been made of `old`: the ones owned before, and new ones. -/
def placeManagers (old r : Runtime) (net : Net) : Net where
  outputs := fun o =>
    if o < old.ownedOutputStreamManagers.length then net.outputs o
    else (r.ownedOutputStreamManagers[o]?).getD { spec := { name := "" } }
  streams := fun t =>
    if t < old.ownedStreamManagers.length then net.streams t
    else { maxQueueSize := r.maxQueueSize t }

/-- The node with a manager among its ports. -/
def portNode (r : Runtime) (t : StreamId) : Option NodeId :=
  (List.range r.allNodes.length).find? fun n => (r.inputPorts n).toList.any (·.2 = t)

/-- Whether a manager is the virtual output of a graph input. -/
def isGraphInput (r : Runtime) (o : OutId) : Bool :=
  r.graphInputOutputs.toList.any (·.2 = o)

end Runtime

namespace Session

/-- `Initialize`; a failing one changes nothing. -/
def initializeRuntime (registered : String → Bool) (s : Session) (c : GraphConfig) :
    Except Status Session :=
  (initializeGraph registered c s.runtime).map fun r =>
    { s with
      runtime := r
      net := s.runtime.placeManagers r s.net
      numClosedGraphInputStreams := 0 }

/-- `OnInputStreamFull`. -/
def onInputStreamFull (s : Session) (t : StreamId) : Session :=
  match s.runtime.portNode t with
  | none => s
  | some n => { s with fullInputStreams := s.fullInputStreams.insert (n, t) }

/-- `OnInputStreamNotFull`. -/
def onInputStreamNotFull (s : Session) (t : StreamId) : Session :=
  { s with fullInputStreams := s.fullInputStreams.filter (·.2 ≠ t) }

/-- Every stream that is recorded gets room for one more packet. -/
def unthrottleSources (s : Session) : Session :=
  { s with
    net := { s.net with
      streams := fun t =>
        if s.fullInputStreams.any (·.2 = t) then
          { s.net.streams t with maxQueueSize := max 1 ((s.net.streams t).maxQueueSize + 1) }
        else s.net.streams t }
    fullInputStreams := [] }

/-- The streams a packet fills that is put on graph input `o`. -/
def filled (s : Session) (o : OutId) (packet : Packet) : List StreamId :=
  (s.net.targets s.runtime.routes o).filter fun t =>
    ((s.net.streams t).addPackets (OutputStreamShard.addPacket {} packet).outputQueue).becameFull

/-- `AddPacketToInputStream`, when nothing runs beside it. -/
def addPacketToInputStream (s : Session) (stream : String) (packet : Packet) :
    Status × Session :=
  match s.runtime.graphInputOutputs[stream]? with
  | none => (⟨.notFound, "Unknown input stream: " ++ stream⟩, s)
  | some o =>
      if (s.net.outputs o).closed then
        (⟨.failedPrecondition, "Input stream is closed: " ++ stream⟩, s)
      else
        (Status.okStatus, (s.filled o packet).foldl onInputStreamFull
          { s with net := s.net.addPacketToInputStream s.runtime.routes o packet })

/-- `CloseInputStream`, when nothing runs beside it. -/
def closeInputStream (s : Session) (stream : String) : Status × Session :=
  match s.runtime.graphInputOutputs[stream]? with
  | none => (⟨.notFound, "Unknown input stream: " ++ stream⟩, s)
  | some o =>
      if s.closedStreams.contains stream then (Status.okStatus, s)
      else
        (Status.okStatus,
          { s with
            net := s.net.closeManager s.runtime.routes o
            closedStreams := stream :: s.closedStreams
            numClosedGraphInputStreams := s.numClosedGraphInputStreams + 1 })

/-- The managers after `net` has come of a run. -/
def afterRun (s : Session) (net : Net) : Session :=
  { s with net :=
      { outputs := fun o => if s.runtime.isGraphInput o then s.net.outputs o else net.outputs o
        streams := net.streams } }

end Session

/-- The calls of a history. -/
inductive ApiCall
  | initializeRuntime (c : GraphConfig)
  | addPacketToInputStream (stream : String) (packet : Packet)
  | closeInputStream (stream : String)
  | onInputStreamFull (t : StreamId)
  | onInputStreamNotFull (t : StreamId)
  | unthrottleSources
  /-- Anything the scheduler and the nodes do. -/
  | run (net : Net)

namespace Session

/-- One call of a history. -/
def call (registered : String → Bool) (s : Session) : ApiCall → Session
  | .initializeRuntime c => ((s.initializeRuntime registered c).toOption).getD s
  | .addPacketToInputStream stream packet => (s.addPacketToInputStream stream packet).2
  | .closeInputStream stream => (s.closeInputStream stream).2
  | .onInputStreamFull t => s.onInputStreamFull t
  | .onInputStreamNotFull t => s.onInputStreamNotFull t
  | .unthrottleSources => s.unthrottleSources
  | .run net => s.afterRun net

/-- The runtime after a history. -/
def after (registered : String → Bool) (s : Session) (calls : List ApiCall) : Session :=
  calls.foldl (call registered) s

end Session

/-- A call that neither begins another graph nor closes `stream`. -/
def ApiCall.leavesOpen (stream : String) : ApiCall → Bool
  | .initializeRuntime _ => false
  | .closeInputStream stream' => stream' ≠ stream
  | _ => true

/-- What a `GraphRuntime` promises after `Initialize` with config `c`. -/
structure BehavesAsNew (registered : String → Bool) (c : GraphConfig) (s : Session) : Prop where
  counted : s.runtime.totalGraphInputStreams = c.inputStreams.toFinset.card
  adds : ∀ stream packet, (s.addPacketToInputStream stream packet).1.isOk = true ↔
    stream ∈ c.inputStreams
  closes : ∀ stream, (s.closeInputStream stream).1.isOk = true ↔ stream ∈ c.inputStreams
  /-- The first `CloseInputStream` of a stream closes it, whatever happens before. -/
  closing : ∀ stream ∈ c.inputStreams, ∀ calls : List ApiCall,
    (∀ a ∈ calls, a.leavesOpen stream = true) →
    let s₁ := s.after registered calls
    let s₂ := (s₁.closeInputStream stream).2
    s₂.numClosedGraphInputStreams = s₁.numClosedGraphInputStreams + 1 ∧
      ∃ o, s₁.runtime.graphInputOutputs[stream]? = some o ∧ (s₂.net.outputs o).closed = true ∧
        ∀ t ∈ s₁.net.targets s₁.runtime.routes o,
          (s₂.net.streams t).nextTimestampBound = Timestamp.done
  unthrottled : s.fullInputStreams = []

/-- Nothing that earlier graphs have left is in the way of a graph with config `c`. -/
structure Renewable (c : GraphConfig) (s : Session) : Prop where
  inputs : ∀ stream ∈ s.runtime.graphInputStreamsSet, stream ∈ c.inputStreams
  opened : ∀ stream ∈ c.inputStreams, stream ∉ s.closedStreams
  unthrottled : s.fullInputStreams = []

/-! ## What the graph inputs of a runtime are -/

/-- The count, the set and the map of the graph inputs fit, and every graph input has a
manager of its own. -/
structure Kept (r : Runtime) : Prop where
  nodup : r.graphInputStreamsSet.Nodup
  count : r.numOpenInputStreams = r.graphInputStreamsSet.length
  mapped : ∀ stream, stream ∈ r.graphInputStreamsSet ↔ ∃ o, r.graphInputOutputs[stream]? = some o
  owned : ∀ (stream : String) (o : OutId), r.graphInputOutputs[stream]? = some o →
    o < r.ownedOutputStreamManagers.length
  distinct : ∀ (stream stream' : String) (o : OutId), r.graphInputOutputs[stream]? = some o →
    r.graphInputOutputs[stream']? = some o → stream = stream'

theorem countInputs (inputs : List String) (seen : List String) (count : Nat)
    (hNodup : seen.Nodup) (hCount : count = seen.length) :
    let counted := inputs.foldl Runtime.countInput (seen, count)
    counted.1.Nodup ∧ counted.2 = counted.1.length ∧
      ∀ stream, stream ∈ counted.1 ↔ stream ∈ seen ∨ stream ∈ inputs := by
  induction inputs generalizing seen count with
  | nil => simp [hNodup, hCount]
  | cons input inputs ih =>
      intro counted
      by_cases hSeen : input ∈ seen
      · obtain ⟨hDistinct, hLength, hMem⟩ := ih seen count hNodup hCount
        have hEq : counted = inputs.foldl Runtime.countInput (seen, count) := by
          simp [counted, Runtime.countInput, hSeen]
        rw [hEq]
        refine ⟨hDistinct, hLength, fun stream => ?_⟩
        rw [hMem, List.mem_cons]
        constructor
        · exact Or.imp_right Or.inr
        · rintro (hOld | rfl | hNew)
          · exact Or.inl hOld
          · exact Or.inl hSeen
          · exact Or.inr hNew
      · obtain ⟨hDistinct, hLength, hMem⟩ := ih (input :: seen) (count + 1)
          (List.nodup_cons.mpr ⟨hSeen, hNodup⟩) (by simp [hCount])
        have hEq : counted = inputs.foldl Runtime.countInput (input :: seen, count + 1) := by
          simp [counted, Runtime.countInput, hSeen]
        rw [hEq]
        refine ⟨hDistinct, hLength, fun stream => ?_⟩
        rw [hMem, List.mem_cons, List.mem_cons]
        tauto

/-- **What a successful `Initialize` adds**: the graph inputs of the config, each with a new
manager that is open. -/
structure Renewed (c : GraphConfig) (old r : Runtime) : Prop where
  total : r.totalGraphInputStreams = r.graphInputStreamsSet.length
  set : ∀ stream, stream ∈ r.graphInputStreamsSet ↔
    stream ∈ old.graphInputStreamsSet ∨ stream ∈ c.inputStreams
  manager : ∀ stream ∈ c.inputStreams, ∃ o, r.graphInputOutputs[stream]? = some o ∧
    old.ownedOutputStreamManagers.length ≤ o ∧
    (r.ownedOutputStreamManagers[o]?).map (·.closed) = some false

theorem initializeGraph_renewed {registered : String → Bool} {c : GraphConfig}
    {old r : Runtime} (hKept : Kept old) (hInit : initializeGraph registered c old = .ok r) :
    Kept r ∧ Renewed c old r := by
  unfold initializeGraph at hInit
  cases hBuild : build registered c with
  | error status => simp [hBuild, Except.map] at hInit
  | ok built =>
      have hResult : Runtime.wire c old built = r := by simpa [hBuild, Except.map] using hInit
      obtain ⟨pairs, outputs, hKeys, hNumbers, hMore, hManagers, hRegister⟩ :=
        Runtime.wire_register c old built
      rw [hResult] at hRegister
      obtain ⟨hNodup, hCount, hMem⟩ := countInputs c.inputStreams old.graphInputStreamsSet
        old.numOpenInputStreams hKept.nodup hKept.count
      generalize c.inputStreams.foldl Runtime.countInput
        (old.graphInputStreamsSet, old.numOpenInputStreams) = counted
        at hRegister hNodup hCount hMem
      have hSet : r.graphInputStreamsSet = counted.1 :=
        congrArg Runtime.Register.graphInputStreamsSet hRegister
      have hOpen : r.numOpenInputStreams = counted.2 :=
        congrArg Runtime.Register.numOpenInputStreams hRegister
      have hTotal : r.totalGraphInputStreams = counted.2 :=
        congrArg Runtime.Register.totalGraphInputStreams hRegister
      have hMap : r.graphInputOutputs = insertAll old.graphInputOutputs pairs :=
        congrArg Runtime.Register.graphInputOutputs hRegister
      have hOutputs : r.ownedOutputStreamManagers = outputs :=
        congrArg Runtime.Register.outputs hRegister
      have hFrom : ∀ (stream : String) (o : OutId), r.graphInputOutputs[stream]? = some o →
          (stream, o) ∈ pairs ∨ old.graphInputOutputs[stream]? = some o := by
        intro stream o hFound
        rw [hMap] at hFound
        exact mem_of_getElem?_insertAll hFound
      constructor
      · refine ⟨hSet ▸ hNodup, by rw [hOpen, hSet, hCount], fun stream => ?_, ?_, ?_⟩
        · rw [hSet, hMem, ← hKeys]
          constructor
          · intro hIn
            rw [hMap]
            by_cases hNew : stream ∈ pairs.map Prod.fst
            · obtain ⟨o, -, hFound⟩ := exists_getElem?_insertAll hNew
              exact ⟨o, hFound _⟩
            · rw [getElem?_insertAll_of_not_mem hNew]
              exact (hKept.mapped stream).mp (hIn.resolve_right hNew)
          · rintro ⟨o, hFound⟩
            rcases hFrom stream o hFound with hPair | hOld
            · exact Or.inr (List.mem_map_of_mem hPair)
            · exact Or.inl ((hKept.mapped stream).mpr ⟨o, hOld⟩)
        · intro stream o hFound
          rw [hOutputs]
          rcases hFrom stream o hFound with hPair | hOld
          · have hThere := (hManagers _ hPair).2
            by_contra hBeyond
            simp [List.getElem?_eq_none (Nat.le_of_not_lt hBeyond)] at hThere
          · exact Nat.lt_of_lt_of_le (hKept.owned stream o hOld) hMore
        · intro stream stream' o hFound hFound'
          rcases hFrom stream o hFound with hPair | hOld
          · rcases hFrom stream' o hFound' with hPair' | hOld'
            · exact congrArg Prod.fst (List.inj_on_of_nodup_map hNumbers hPair hPair' rfl)
            · exact absurd (hKept.owned stream' o hOld') (Nat.not_lt.mpr (hManagers _ hPair).1)
          · rcases hFrom stream' o hFound' with hPair' | hOld'
            · exact absurd (hKept.owned stream o hOld) (Nat.not_lt.mpr (hManagers _ hPair').1)
            · exact hKept.distinct stream stream' o hOld hOld'
      · refine ⟨by rw [hTotal, hSet, hCount], by rw [hSet]; exact hMem, fun stream hIn => ?_⟩
        rw [← hKeys] at hIn
        obtain ⟨o, hPair, hFound⟩ := exists_getElem?_insertAll hIn
        rw [hMap, hOutputs]
        exact ⟨o, hFound _, hManagers _ hPair⟩

section

variable {registered : String → Bool} {c : GraphConfig} {s s' : Session}

/-! ## Histories -/

theorem runtime_onInputStreamFull (s : Session) (t : StreamId) :
    (s.onInputStreamFull t).runtime = s.runtime := by
  unfold Session.onInputStreamFull
  split <;> rfl

/-- Recording full streams touches nothing but the records. -/
theorem foldl_onInputStreamFull (ts : List StreamId) (s : Session) :
    ∃ full, ts.foldl Session.onInputStreamFull s = { s with fullInputStreams := full } := by
  induction ts generalizing s with
  | nil => exact ⟨_, rfl⟩
  | cons t ts ih =>
      obtain ⟨full, hRest⟩ := ih (s.onInputStreamFull t)
      rw [List.foldl_cons, hRest]
      unfold Session.onInputStreamFull
      split
      · exact ⟨full, rfl⟩
      · exact ⟨full, rfl⟩

theorem initializeRuntime_eq_ok (hInit : s.initializeRuntime registered c = .ok s') :
    ∃ r, initializeGraph registered c s.runtime = .ok r ∧
      s' = { s with
        runtime := r, net := s.runtime.placeManagers r s.net, numClosedGraphInputStreams := 0 } := by
  unfold Session.initializeRuntime at hInit
  cases hGraph : initializeGraph registered c s.runtime with
  | error status => simp [hGraph, Except.map] at hInit
  | ok r =>
      refine ⟨r, rfl, ?_⟩
      simpa [hGraph, Except.map, eq_comm] using hInit

/-- Only `Initialize` changes the runtime's own members. -/
theorem call_runtime (registered : String → Bool) (s : Session) (a : ApiCall) :
    (s.call registered a).runtime = s.runtime ∨
      ∃ c, initializeGraph registered c s.runtime = .ok (s.call registered a).runtime := by
  cases a with
  | initializeRuntime c =>
      cases hInit : s.initializeRuntime registered c with
      | error status =>
          left
          simp [Session.call, hInit, Except.toOption]
      | ok s' =>
          right
          obtain ⟨r, hGraph, rfl⟩ := initializeRuntime_eq_ok hInit
          exact ⟨c, by simpa [Session.call, hInit, Except.toOption] using hGraph⟩
  | addPacketToInputStream stream packet =>
      left
      show (s.addPacketToInputStream stream packet).2.runtime = s.runtime
      unfold Session.addPacketToInputStream
      repeat' split
      · rfl
      · rfl
      · obtain ⟨full, hFull⟩ := foldl_onInputStreamFull _ _
        rw [hFull]
  | closeInputStream stream =>
      left
      show (s.closeInputStream stream).2.runtime = s.runtime
      unfold Session.closeInputStream
      repeat' split
      all_goals rfl
  | onInputStreamFull t => exact Or.inl (runtime_onInputStreamFull s t)
  | onInputStreamNotFull t => exact Or.inl rfl
  | unthrottleSources => exact Or.inl rfl
  | run net => exact Or.inl rfl

/-- **After every history** the count, the set and the map of the graph inputs fit. -/
theorem kept_after (calls : List ApiCall) : Kept (Session.after registered {} calls).runtime := by
  have hInit : Kept (({} : Session).runtime) := by
    refine ⟨List.nodup_nil, rfl, ?_, ?_, ?_⟩
    · simp
    · simp
    · simp
  refine Transition.foldl_invariant (I := fun _ (s : Session) => Kept s.runtime) hInit ?_
  intro done a rest s _ hKept
  rcases call_runtime registered s a with hSame | ⟨c, hGraph⟩
  · exact hSame ▸ hKept
  · exact (initializeGraph_renewed hKept hGraph).1

/-! ## The first close of a graph input -/

/-- Graph input `stream` has an open manager, and nobody has closed it. -/
structure Awaiting (r : Runtime) (stream : String) (o : OutId) (s : Session) : Prop where
  runtime : s.runtime = r
  opened : (s.net.outputs o).closed = false
  fresh : stream ∉ s.closedStreams

theorem closed_addPacketToInputStream (routes : Routes) (net : Net) (o o' : OutId)
    (packet : Packet) :
    ((net.addPacketToInputStream routes o packet).outputs o').closed =
      (net.outputs o').closed := by
  unfold Net.addPacketToInputStream
  simp only
  split
  · rfl
  · unfold Net.propagate OutputStreamManager.beginPropagate
    by_cases hEq : o' = o
    · subst hEq
      simp only [Function.update_self]
      split <;> rfl
    · simp only [Function.update_of_ne hEq]

theorem outputs_closeManager (routes : Routes) (net : Net) {o o' : OutId} (hOther : o' ≠ o) :
    (net.closeManager routes o).outputs o' = net.outputs o' := by
  unfold Net.closeManager
  split
  · rfl
  · exact Function.update_of_ne hOther _ _

/-- A call that leaves the stream open keeps it so. -/
theorem Awaiting.call {r : Runtime} {stream : String} {o : OutId} {a : ApiCall}
    (hAwaiting : Awaiting r stream o s) (hKept : Kept r)
    (hFound : r.graphInputOutputs[stream]? = some o) (hLeaves : a.leavesOpen stream = true) :
    Awaiting r stream o (s.call registered a) := by
  obtain ⟨hRuntime, hOpened, hFresh⟩ := hAwaiting
  cases a with
  | initializeRuntime c => cases hLeaves
  | addPacketToInputStream stream' packet =>
      show Awaiting r stream o (s.addPacketToInputStream stream' packet).2
      unfold Session.addPacketToInputStream
      repeat' split
      · exact ⟨hRuntime, hOpened, hFresh⟩
      · exact ⟨hRuntime, hOpened, hFresh⟩
      · obtain ⟨full, hFull⟩ := foldl_onInputStreamFull _ _
        rw [hFull]
        exact ⟨hRuntime, (closed_addPacketToInputStream _ _ _ _ _).trans hOpened, hFresh⟩
  | closeInputStream stream' =>
      have hOther : stream' ≠ stream := of_decide_eq_true hLeaves
      show Awaiting r stream o (s.closeInputStream stream').2
      unfold Session.closeInputStream
      split
      · exact ⟨hRuntime, hOpened, hFresh⟩
      · rename_i o' hFound'
        have hManager : o ≠ o' := by
          rintro rfl
          exact hOther (hKept.distinct stream' stream o (hRuntime ▸ hFound') hFound)
        split
        · exact ⟨hRuntime, hOpened, hFresh⟩
        · refine ⟨hRuntime, ?_, ?_⟩
          · show ((s.net.closeManager _ o').outputs o).closed = false
            rw [outputs_closeManager _ _ hManager]
            exact hOpened
          · intro hMem
            rcases List.mem_cons.mp hMem with hEq | hOld
            · exact hOther hEq.symm
            · exact hFresh hOld
  | onInputStreamFull t =>
      show Awaiting r stream o (s.onInputStreamFull t)
      unfold Session.onInputStreamFull
      split
      · exact ⟨hRuntime, hOpened, hFresh⟩
      · exact ⟨hRuntime, hOpened, hFresh⟩
  | onInputStreamNotFull t => exact ⟨hRuntime, hOpened, hFresh⟩
  | unthrottleSources => exact ⟨hRuntime, hOpened, hFresh⟩
  | run net =>
      refine ⟨hRuntime, ?_, hFresh⟩
      have hInput : s.runtime.isGraphInput o = true := by
        rw [Runtime.isGraphInput, List.any_eq_true, hRuntime]
        exact ⟨(stream, o), Std.TreeMap.mem_toList_iff_getElem?_eq_some.mpr hFound, by simp⟩
      show (if s.runtime.isGraphInput o then s.net.outputs o else net.outputs o).closed = false
      rw [if_pos hInput]
      exact hOpened

theorem Awaiting.after {r : Runtime} {stream : String} {o : OutId}
    (hAwaiting : Awaiting r stream o s) (hKept : Kept r)
    (hFound : r.graphInputOutputs[stream]? = some o) (calls : List ApiCall)
    (hLeaves : ∀ a ∈ calls, a.leavesOpen stream = true) :
    Awaiting r stream o (s.after registered calls) := by
  refine Transition.foldl_invariant (I := fun _ s => Awaiting r stream o s) hAwaiting ?_
  intro done a rest s hSplit hBefore
  exact hBefore.call hKept hFound (hLeaves a (by simp [hSplit]))

/-- A broadcast of `Done` reaches every stream behind the mirrors. -/
theorem run_done (routes : Routes) (mirrors : List Mirror) (streams : Streams) (t : StreamId)
    (hReached : t ∈ mirrors.filterMap (Mirror.resolve routes) ∨
      (streams t).nextTimestampBound = Timestamp.done) :
    (Propagation.run routes Timestamp.done true mirrors [] streams t).nextTimestampBound =
      Timestamp.done := by
  induction mirrors generalizing streams with
  | nil => exact hReached.resolve_left List.not_mem_nil
  | cons mirror mirrors ih =>
      have hIteration := Propagation.iteration routes Timestamp.done true mirror mirrors [] streams
      simp only [Propagation.packetStep_of_nil] at hIteration
      simp only [Propagation.run, Propagation.packetStep_of_nil, Propagation.boundStep_snd]
      rw [hIteration]
      refine ih _ ?_
      have hDeliver : ∀ m : InputStreamManager,
          (Propagation.deliver Timestamp.done true [] m).nextTimestampBound = Timestamp.done := by
        intro m
        rw [Propagation.deliver, if_pos rfl, InputStreamManager.setNextTimestampBound_bound]
        exact max_eq_right (Timestamp.le_done _)
      cases hResolve : mirror.resolve routes with
      | none => simpa [hResolve] using hReached
      | some u =>
          by_cases hEq : t = u
          · right
            subst hEq
            simp only [Function.update_self]
            exact hDeliver _
          · simp only [Function.update_of_ne hEq]
            simpa [hResolve, hEq] using hReached

/-- **Closing an open manager** closes it and tells every stream behind it. -/
theorem closeManager_done (routes : Routes) {net : Net} {o : OutId}
    (hOpened : (net.outputs o).closed = false) :
    ((net.closeManager routes o).outputs o).closed = true ∧
      ∀ t ∈ net.targets routes o,
        ((net.closeManager routes o).streams t).nextTimestampBound = Timestamp.done := by
  unfold Net.closeManager OutputStreamManager.beginClose
  simp only [hOpened, Bool.false_eq_true, if_false, Function.update_self, true_and]
  intro t hMem
  exact run_done routes _ _ t (Or.inl hMem)

/-! ## Re-initialization -/

/-- The managers made for a graph input are open, and nobody has closed it. -/
theorem awaiting_initialize {calls : List ApiCall} {stream : String}
    (hInit : (Session.after registered {} calls).initializeRuntime registered c = .ok s)
    (hInput : stream ∈ c.inputStreams) (hFresh : stream ∉ s.closedStreams) :
    ∃ o, s.runtime.graphInputOutputs[stream]? = some o ∧ Awaiting s.runtime stream o s := by
  obtain ⟨r, hGraph, rfl⟩ := initializeRuntime_eq_ok hInit
  obtain ⟨-, hRenewed⟩ := initializeGraph_renewed (kept_after calls) hGraph
  obtain ⟨o, hFound, hNew, hOpened⟩ := hRenewed.manager stream hInput
  refine ⟨o, hFound, rfl, ?_, hFresh⟩
  obtain ⟨m, hManager, hClosed⟩ := Option.map_eq_some_iff.mp hOpened
  show (if o < _ then _ else (r.ownedOutputStreamManagers[o]?).getD _).closed = false
  rw [if_neg (Nat.not_lt.mpr hNew), hManager]
  exact hClosed

theorem isOk_closeInputStream (s : Session) (stream : String) :
    (s.closeInputStream stream).1.isOk = true ↔
      ∃ o, s.runtime.graphInputOutputs[stream]? = some o := by
  unfold Session.closeInputStream
  split
  · rename_i hNone
    simp [hNone, Status.isOk]
  · rename_i o hFound
    split <;> simp [hFound]

theorem isOk_addPacketToInputStream (s : Session) (stream : String) (packet : Packet) :
    (s.addPacketToInputStream stream packet).1.isOk = true ↔
      ∃ o, s.runtime.graphInputOutputs[stream]? = some o ∧ (s.net.outputs o).closed = false := by
  unfold Session.addPacketToInputStream
  split
  · rename_i hNone
    simp [hNone, Status.isOk]
  · rename_i o hFound
    split
    · rename_i hClosed
      simp [hFound, hClosed, Status.isOk]
    · rename_i hOpened
      simp [hFound, Bool.eq_false_of_not_eq_true hOpened]

/-- **`Initialize` makes a runtime as good as new** after whatever history, if and only if
the history has left nothing that is in the way. -/
theorem reinitialize_iff {calls : List ApiCall}
    (hInit : (Session.after registered {} calls).initializeRuntime registered c = .ok s) :
    BehavesAsNew registered c s ↔ Renewable c (Session.after registered {} calls) := by
  have hAwaiting : ∀ stream ∈ c.inputStreams, stream ∉ s.closedStreams →
      ∃ o, s.runtime.graphInputOutputs[stream]? = some o ∧ Awaiting s.runtime stream o s :=
    fun _ hInput hFresh => awaiting_initialize hInit hInput hFresh
  obtain ⟨r, hGraph, hState⟩ := initializeRuntime_eq_ok hInit
  obtain ⟨hKept, hRenewed⟩ := initializeGraph_renewed (kept_after calls) hGraph
  have hRuntime : s.runtime = r := by rw [hState]
  have hClosed : s.closedStreams = (Session.after registered {} calls).closedStreams := by
    rw [hState]
  have hFull : s.fullInputStreams = (Session.after registered {} calls).fullInputStreams := by
    rw [hState]
  have hAccepted : ∀ stream, (∃ o, s.runtime.graphInputOutputs[stream]? = some o) ↔
      stream ∈ (Session.after registered {} calls).runtime.graphInputStreamsSet ∨
        stream ∈ c.inputStreams := by
    intro stream
    rw [hRuntime, ← hKept.mapped, hRenewed.set]
  constructor
  · intro hNew
    refine ⟨fun stream hOld => ?_, fun stream hInput hGone => ?_, hFull ▸ hNew.unthrottled⟩
    · refine (hNew.closes stream).mp ?_
      rw [isOk_closeInputStream, hAccepted]
      exact Or.inl hOld
    · -- the first close of a stream that is recorded as closed does nothing
      obtain ⟨hCount, -⟩ := hNew.closing stream hInput [] (by simp)
      obtain ⟨o, hFound⟩ := (hAccepted stream).mpr (Or.inr hInput)
      have hSkip : (s.closeInputStream stream).2 = s := by
        simp [Session.closeInputStream, hFound, hClosed, hGone]
      have hSame : (s.closeInputStream stream).2.numClosedGraphInputStreams =
          s.numClosedGraphInputStreams + 1 := hCount
      rw [hSkip] at hSame
      omega
  · intro hOld
    have hAll : ∀ stream, (∃ o, s.runtime.graphInputOutputs[stream]? = some o) ↔
        stream ∈ c.inputStreams := by
      intro stream
      rw [hAccepted]
      exact or_iff_right_of_imp (hOld.inputs stream)
    refine ⟨?_, ?_, ?_, ?_, hFull ▸ hOld.unthrottled⟩
    · have hSet : s.runtime.graphInputStreamsSet.toFinset = c.inputStreams.toFinset := by
        ext stream
        rw [List.mem_toFinset, List.mem_toFinset, hRuntime, hRenewed.set]
        exact or_iff_right_of_imp (hOld.inputs stream)
      rw [hRuntime, hRenewed.total, ← hRuntime, ← hSet, List.toFinset_card_of_nodup]
      exact hRuntime ▸ hKept.nodup
    · intro stream packet
      rw [isOk_addPacketToInputStream]
      constructor
      · rintro ⟨o, hFound, -⟩
        exact (hAll stream).mp ⟨o, hFound⟩
      · intro hInput
        obtain ⟨o, hFound, hReady⟩ := hAwaiting stream hInput
          (by rw [hClosed]; exact hOld.opened stream hInput)
        exact ⟨o, hFound, hReady.opened⟩
    · intro stream
      rw [isOk_closeInputStream, hAll]
    · intro stream hInput later hLeaves
      obtain ⟨o, hFound, hReady⟩ := hAwaiting stream hInput
        (by rw [hClosed]; exact hOld.opened stream hInput)
      have hStill : Awaiting s.runtime stream o (s.after registered later) :=
        hReady.after (hRuntime ▸ hKept) hFound later hLeaves
      obtain ⟨hLater, hOpened, hFresh⟩ := hStill
      generalize s.after registered later = s₁ at hLater hOpened hFresh ⊢
      have hThere : s₁.runtime.graphInputOutputs[stream]? = some o := by
        rw [hLater]
        exact hFound
      have hCloses : (s₁.closeInputStream stream).2 = { s₁ with
          net := s₁.net.closeManager s₁.runtime.routes o
          closedStreams := stream :: s₁.closedStreams
          numClosedGraphInputStreams := s₁.numClosedGraphInputStreams + 1 } := by
        simp [Session.closeInputStream, hThere, hFresh]
      obtain ⟨hDown, hDone⟩ := closeManager_done s₁.runtime.routes hOpened
      simp only [hCloses]
      exact ⟨trivial, o, hThere, hDown, hDone⟩

end

/-- A node that reads one graph input. -/
def framesConfig : GraphConfig where
  nodes := [{ name := "decoder", type := "Decoder", inputStreams := ["in:frames"] }]
  inputStreams := ["frames"]

/-- A second `Initialize` with the same config, after a packet. -/
theorem reinitialize_frames :
    ∃ s, (Session.after (fun _ => true) {} [.initializeRuntime framesConfig,
        .addPacketToInputStream "frames" ⟨some 7, Timestamp.ofValue 1⟩]).initializeRuntime
          (fun _ => true) framesConfig = .ok s ∧
      BehavesAsNew (fun _ => true) framesConfig s := by
  obtain ⟨s, hInit⟩ := exists_eq_ok (e := (Session.after (fun _ => true) {}
    [.initializeRuntime framesConfig,
      .addPacketToInputStream "frames" ⟨some 7, Timestamp.ofValue 1⟩]).initializeRuntime
        (fun _ => true) framesConfig) (by decide +kernel)
  exact ⟨s, hInit, (reinitialize_iff hInit).mpr
    ⟨by decide +kernel, by decide +kernel, by decide +kernel⟩⟩

/-- The same with the graph input closed in between: after the second `Initialize` closing
it returns OK and does nothing. -/
theorem reinitialize_closed :
    ∃ s, (Session.after (fun _ => true) {} [.initializeRuntime framesConfig,
        .closeInputStream "frames"]).initializeRuntime (fun _ => true) framesConfig = .ok s ∧
      s.closeInputStream "frames" = (Status.okStatus, s) ∧
      ¬ BehavesAsNew (fun _ => true) framesConfig s := by
  obtain ⟨s, hInit⟩ := exists_eq_ok (e := (Session.after (fun _ => true) {}
    [.initializeRuntime framesConfig, .closeInputStream "frames"]).initializeRuntime
      (fun _ => true) framesConfig) (by decide +kernel)
  have hTest : ((((Session.after (fun _ => true) {} [.initializeRuntime framesConfig,
      .closeInputStream "frames"]).initializeRuntime (fun _ => true) framesConfig).toOption).map
        fun s => s.runtime.graphInputOutputs["frames"]?.isSome &&
          s.closedStreams.contains "frames") = some true := by decide +kernel
  rw [hInit] at hTest
  obtain ⟨hFound, hClosed⟩ := Bool.and_eq_true_iff.mp (Option.some.inj hTest)
  obtain ⟨o, hFound⟩ := Option.isSome_iff_exists.mp hFound
  have hSkip : s.closeInputStream "frames" = (Status.okStatus, s) := by
    unfold Session.closeInputStream
    rw [hFound]
    exact if_pos hClosed
  refine ⟨s, hInit, hSkip, fun hNew => ?_⟩
  have hCount : (s.closeInputStream "frames").2.numClosedGraphInputStreams =
      s.numClosedGraphInputStreams + 1 :=
    (hNew.closing "frames" (by decide) [] (by simp)).1
  rw [hSkip] at hCount
  have hSame : s.numClosedGraphInputStreams = s.numClosedGraphInputStreams + 1 := hCount
  omega

end GraphRuntime.Public
