import Mathlib.Logic.Relation
import GraphRuntime.Public.Wiring
import GraphRuntime.Scheduler.Effects

/-!
# Ports, shards and the graph of a config

`Runtime.graph` is the graph the scheduler runs after `Initialize`, and
`Runtime.initialState` the state it starts in.

The validator compares the stream parts of a node's inputs; the node's port map
and the shards of an invocation are keyed by the *port* parts.  Two inputs with
one port part leave one of their managers outside `InputPorts()`, where neither
`RunNode` nor `DrainInputQueues` looks, and two outputs with one port part have
one shard, which the first of them empties.  `unaliased_iff` is exact: all is
well, structurally and in every run, if and only if the port parts of each
node's inputs are distinct and so are those of its outputs.

For runs one call is followed through its own steps, each taken in whatever
state the other threads have left (`RunMoves`, `IdleMoves`).
-/

namespace GraphRuntime.Public

open GraphRuntime.Config GraphRuntime.Stream GraphRuntime.Scheduler
open OrderedMap Interleaving

/-! ## The graph -/

/-- What the config leaves open: what the contracts of the node classes say, where the nodes live,
and what the types of the payloads are called. -/
structure Environment where
  /-- The contract's `MaxInFlight()`. -/
  maxInFlight : NodeId → Int := fun _ => 1
  /-- The contract's `Inputs().Get(port)`. -/
  inputType : NodeId → String → PacketType := fun _ _ => {}
  address : NodeId → Int := fun n => n
  payloadType : Nat → String := fun _ => ""

namespace Runtime

/-- `Scheduler::AssignNodeToQueue`; queue 0 is the default queue. -/
def assignNodeToQueue (r : Runtime) (executorName : String) : QueueId :=
  if executorName.isEmpty then 0
  else
    match r.nonDefaultQueues.findIdx? (· == executorName) with
    | some i => i + 1
    | none => 0

theorem assignNodeToQueue_lt (r : Runtime) (executorName : String) :
    r.assignNodeToQueue executorName ∈
      List.range (r.nonDefaultQueues.length + 1) := by
  rw [List.mem_range, assignNodeToQueue]
  split
  · exact Nat.succ_pos _
  · cases hFound : r.nonDefaultQueues.findIdx? (· == executorName) with
    | none => exact Nat.succ_pos _
    | some i =>
        exact Nat.succ_lt_succ (List.findIdx?_eq_some_iff_getElem.mp hFound).1

/-- The node an input manager's arrival callback schedules. -/
def owner (r : Runtime) (t : StreamId) : NodeId :=
  ((r.ownedStreamManagers[t]?).bind (·.arrivalNode)).getD 0

variable {c : GraphConfig} {r : Runtime}

/-- A node's port map, in the order of the managers. -/
theorem ports_of_getElem? (hInit : Initialized c r) {n : Nat} {d : NodeDef}
    (hNode : c.nodes[n]? = some d) :
    r.inputPorts n = portsFrom (edgeCount (c.nodes.take n)) d.inputStreams := by
  rw [hInit.ports, portsOf, hNode]

/-- What is behind a port was made for an input with that port name. -/
theorem mem_inputPorts (hInit : Initialized c r) {n : NodeId}
    {p : String × StreamId} (hMem : p ∈ (r.inputPorts n).toList) :
    ∃ i input, c.edge n i = some input ∧ p = (portName input, edgeManager c n i) := by
  obtain ⟨port, t⟩ := p
  have hFound := Std.TreeMap.mem_toList_iff_getElem?_eq_some.mp hMem
  rw [hInit.ports, portsOf] at hFound
  cases hNode : c.nodes[n]? with
  | none => simp [hNode] at hFound
  | some d =>
      simp only [hNode, portsFrom] at hFound
      rcases mem_of_getElem?_insertAll hFound with hPair | hOld
      · simp only [List.mem_map, Prod.exists, Prod.mk.injEq,
          List.mk_mem_zipIdx_iff_le_and_getElem?_sub] at hPair
        obtain ⟨input, t', ⟨hLe, hInput⟩, hPort, rfl⟩ := hPair
        refine ⟨t' - edgeCount (c.nodes.take n), input,
          edge_eq_some.mpr ⟨d, hNode, hInput⟩, ?_⟩
        rw [edgeManager, Nat.add_sub_cancel' hLe, hPort]
      · simp at hOld

theorem owner_of_mem_inputPorts (hInit : Initialized c r) {n : NodeId}
    {p : String × StreamId} (hMem : p ∈ (r.inputPorts n).toList) :
    r.owner p.2 = n := by
  obtain ⟨i, input, hEdge, rfl⟩ := mem_inputPorts hInit hMem
  obtain ⟨d, hNode, hInput⟩ := edge_eq_some.mp hEdge
  simp [owner, hInit.edgeManagers n d hNode i input hInput]

/-- The graph of an initialized runtime. -/
def graph (hInit : Initialized c r) (env : Environment) : Graph where
  nodes := List.range r.allNodes.length
  name := fun n => ((r.allNodes[n]?).map (·.name)).getD ""
  inputPorts := fun n => (r.inputPorts n).toList
  outputs := r.outputManagers
  maxInFlight := env.maxInFlight
  inputType := env.inputType
  payloadType := env.payloadType
  sourceLayer := fun n => ((r.allNodes[n]?).map (·.sourceLayer)).getD 0
  address := env.address
  queue := fun n =>
    r.assignNodeToQueue (((r.allNodes[n]?).map (·.executorName)).getD "")
  queues := List.range (r.nonDefaultQueues.length + 1)
  hasExecutor := fun q => if q = 0 then r.hasDefaultExecutor else true
  owner := r.owner
  routes := r.routes
  graphInputs := r.graphInputOutputs.toList
  totalGraphInputStreams := r.totalGraphInputStreams
  nodes_nodup := List.nodup_range
  queues_nodup := List.nodup_range
  queue_mem := fun _ _ => r.assignNodeToQueue_lt _
  owner_port := fun _ _ hMem => owner_of_mem_inputPorts hInit hMem

/-- The state a run starts in. -/
def initialState (r : Runtime) (errorCallback : Bool) : Shared :=
  initial (fun o => (r.ownedOutputStreamManagers[o]?).getD { spec := { name := "" } })
    0 errorCallback

end Runtime

/-! ## Names stay -/

section

variable {g : Graph} {s s' : Shared} {f : Frame} {x : Choice} {fs : List Frame}

/-- No output manager's name, and so no shard's key, is different. -/
def SameNames (s s' : Shared) : Prop :=
  ∀ o, (s'.net.outputs o).spec.name = (s.net.outputs o).spec.name

theorem sameNames_of_outputs (hOutputs : s'.net.outputs = s.net.outputs) :
    SameNames s s' := fun o => by rw [hOutputs]

theorem sameNames_scheduleNode (n : NodeId) :
    SameNames s (scheduleNode g s n).1 := by
  apply sameNames_of_outputs
  rw [scheduleNode_eq]

theorem sameNames_setOutput {o : OutId} {m : OutputStreamManager}
    (hSpec : m.spec = (s.net.outputs o).spec) : SameNames s (s.setOutput o m) := by
  intro o'
  by_cases hEq : o' = o
  · subst hEq
    simp [Shared.setOutput, hSpec]
  · simp [Shared.setOutput, Function.update_of_ne hEq]

theorem spec_beginPropagate (m : OutputStreamManager) (bound : Timestamp)
    (shard : OutputStreamShard) : (m.beginPropagate bound shard).1.spec = m.spec := by
  rw [OutputStreamManager.beginPropagate]
  split <;> rfl

theorem spec_beginClose {m m' : OutputStreamManager} {p : Propagation}
    (hClose : m.beginClose = some (m', p)) : m'.spec = m.spec := by
  rw [OutputStreamManager.beginClose] at hClose
  split at hClose
  · exact absurd hClose (by simp)
  · cases hClose
    rfl

theorem sameNames_propagateThen {π : Type} (o : OutId) (bound : Timestamp)
    (shard : OutputStreamShard) (callees : List Frame) (pc : π) :
    SameNames s (propagateThen s o bound shard callees pc).state :=
  sameNames_setOutput (spec_beginPropagate _ _ _)

theorem sameNames_runStep {r : Invocation} {pc : RunPc}
    {t : Turn (Invocation × RunPc)} (hTurn : runStep g s r x pc = some t) :
    SameNames s t.state := by
  revert hTurn
  fun_cases runStep g s r x pc
  all_goals intro hTurn; cases hTurn
  all_goals first
    | exact sameNames_of_outputs rfl
    | exact sameNames_scheduleNode _
    | exact sameNames_propagateThen _ _ _ _ _

theorem sameNames_apiStep {pc : ApiPc} {t : Turn ApiPc}
    (hTurn : apiStep g s pc = some t) : SameNames s t.state := by
  revert hTurn
  fun_cases apiStep g s pc
  all_goals intro hTurn; cases hTurn
  all_goals first
    | exact sameNames_of_outputs rfl
    | exact sameNames_propagateThen _ _ _ _ _
    | (split <;> exact sameNames_of_outputs rfl)

theorem exec_sameNames (hStep : exec g s f x = some (s', fs)) :
    SameNames s s' := by
  cases f with
  | run r pc =>
      obtain ⟨t, hTurn, rfl, rfl⟩ := exec_run hStep
      exact sameNames_runStep hTurn
  | handleIdle pc =>
      obtain ⟨rfl, rfl⟩ := exec_handleIdle hStep
      obtain ⟨_, _, _, _, _, _, hState⟩ := idleStep_frame g s pc
      rw [hState]
      exact sameNames_of_outputs rfl
  | start pc =>
      obtain ⟨t, hTurn, rfl, rfl⟩ := exec_start hStep
      obtain ⟨_, _, _, _, _, _, hState⟩ := startStep_frame hTurn
      rw [hState]
      exact sameNames_of_outputs rfl
  | api pc =>
      obtain ⟨t, hTurn, rfl, rfl⟩ := exec_api hStep
      exact sameNames_apiStep hTurn
  | arrival n =>
      have hState : s' = (scheduleNode g s n).1 :=
        (congrArg Prod.fst (Option.some.inj hStep)).symm
      rw [hState]
      exact sameNames_scheduleNode n
  | closeManager o =>
      simp only [exec] at hStep
      split at hStep
      · cases hStep
        exact sameNames_of_outputs rfl
      · rename_i m p hClose
        cases hStep
        exact sameNames_setOutput (spec_beginClose hClose)
  | _ =>
      revert hStep
      unfold exec
      simp only
      repeat' split
      all_goals intro hStep; cases hStep
      all_goals exact sameNames_of_outputs rfl

/-- The states of a graph's runs. -/
def Reached (g : Graph) (s₀ s : Shared) : Prop :=
  ∃ c : Config Shared Frame,
    (machine g).Reaches Guard.all (started s₀) c ∧ c.shared = s

theorem reached_start (g : Graph) (s₀ : Shared) : Reached g s₀ s₀ :=
  ⟨_, .refl, rfl⟩

/-- **Names**: in every run every manager's name is what it was at the start. -/
theorem sameNames_of_reached {s₀ : Shared} (hReached : Reached g s₀ s) :
    SameNames s₀ s := by
  obtain ⟨c, hReach, rfl⟩ := hReached
  refine Machine.invariant (M := machine g) (I := fun s _ => SameNames s₀ s)
    (fun _ => rfl) ?_ ?_ hReach
  · intro s A f B x s' fs hNames _ hStep o
    rw [exec_sameNames hStep o, hNames o]
  · intro s A b s' fs hNames _ hSpawn o
    rw [← hNames o]
    rcases spawn_cases hSpawn with ⟨q, -, -, rfl, -⟩ | ⟨rfl, -⟩ <;> rfl

end

/-! ## One call among the others

A call's own steps are taken in states the other threads have left behind;
`P` says which states these may be. -/

/-- A step of one `RunNode` call. -/
def RunMoves (g : Graph) (P : Shared → Prop) (a b : Invocation × RunPc) : Prop :=
  ∃ s x t, P s ∧ runStep g s a.1 x a.2 = some t ∧ t.next = some b

/-- A step of one `HandleIdle` call. -/
def IdleMoves (g : Graph) (P : Shared → Prop) (a b : IdlePc) : Prop :=
  ∃ s, P s ∧ (idleStep g s a).next = some b

/-- The shard `RunNode` fills by popping a manager. -/
def popShard (port : String) (m : InputStreamManager) : InputShard :=
  { port
    packet := if m.popQueueHead.1.isEmpty then none else some m.popQueueHead.1
    done := m.popQueueHead.2.1 }

section

open Relation

variable {g : Graph} {P : Shared → Prop}

/-- Before the call reaches `Process` it pops every port it has to pop, and
what it pops is what `Process` is shown. -/
theorem pops_of_mem {port : String} {t : StreamId}
    {ports : List (String × StreamId)} (hMem : (port, t) ∈ ports)
    {r r' : Invocation}
    (hPath : ReflTransGen (RunMoves g P) (r, .popInputs ports) (r', .inProcess)) :
    ∃ s r₁ rest, P s ∧
      ReflTransGen (RunMoves g P) (r, .popInputs ports)
        (r₁, .popInputs ((port, t) :: rest)) ∧
      ReflTransGen (RunMoves g P)
        ({ r₁ with inputs := r₁.inputs ++ [popShard port (s.stream t)] },
          .popInputs rest) (r', .inProcess) := by
  induction ports generalizing r with
  | nil => simp at hMem
  | cons p rest ih =>
      rcases ReflTransGen.cases_head hPath with hEq | ⟨b, hMove, hRest⟩
      · simp at hEq
      · obtain ⟨s, x, u, hState, hTurn, hNext⟩ := hMove
        obtain rfl : ({ r with inputs := r.inputs ++ [popShard p.1 (s.stream p.2)] },
            RunPc.popInputs rest) = b := by
          cases hTurn
          exact Option.some.inj hNext
        rcases List.mem_cons.mp hMem with rfl | hMem
        · exact ⟨s, r, rest, hState, .refl, hRest⟩
        · obtain ⟨s', r₁, rest', hState', hBefore, hAfter⟩ := ih hMem hRest
          exact ⟨s', r₁, rest', hState',
            .head ⟨s, x, u, hState, hTurn, hNext⟩ hBefore, hAfter⟩

/-- One step only adds shards. -/
theorem runStep_inputs {s : Shared} {x : Choice} {r r' : Invocation}
    {pc pc' : RunPc} {u : Turn (Invocation × RunPc)}
    (hTurn : runStep g s r x pc = some u) (hNext : u.next = some (r', pc')) :
    r.inputs <+: r'.inputs := by
  revert hTurn
  fun_cases runStep g s r x pc
  all_goals
    intro hTurn
    cases hTurn <;> cases hNext <;> first
      | exact List.prefix_refl _
      | exact List.prefix_append _ _

theorem inputs_isPrefix {a b : Invocation × RunPc}
    (hPath : ReflTransGen (RunMoves g P) a b) : a.1.inputs <+: b.1.inputs := by
  induction hPath with
  | refl => exact List.prefix_refl _
  | tail _ hMove ih =>
      obtain ⟨s, x, u, -, hTurn, hNext⟩ := hMove
      exact ih.trans (runStep_inputs hTurn hNext)

/-- Places of a `HandleIdle` call that has seen, or is about to see, stream `t`
with a packet in its queue. -/
def SeesPacket (t : StreamId) : IdlePc → Prop
  | .drainIsDone _ rest _ anyNonempty => t ∈ rest ∨ anyNonempty = true
  | .drainIsEmpty _ u rest _ anyNonempty =>
      u = t ∨ t ∈ rest ∨ anyNonempty = true
  | .drainReschedule _ => True
  | .drainHasInput _ _ _ => True
  | .drainIsRunning _ _ => True
  | .drainAddNode _ _ => True
  | .leave => True
  | _ => False

theorem idleStep_seesPacket {s : Shared} {t : StreamId} {pc pc' : IdlePc}
    (hPacket : (s.stream t).isEmpty = false) (hSees : SeesPacket t pc)
    (hNext : (idleStep g s pc).next = some pc') : SeesPacket t pc' := by
  have hGoto : ∀ {next}, (goto s next : Turn IdlePc).next = some pc' →
      SeesPacket t next → SeesPacket t pc' := by
    intro next hEq hNext
    exact Option.some.inj hEq ▸ hNext
  cases pc with
  | drainIsDone l rest allDone anyNonempty =>
      cases rest with
      | nil =>
          have hAny : anyNonempty = true := by simpa [SeesPacket] using hSees
          exact hGoto hNext (by simp [hAny, SeesPacket])
      | cons u rest =>
          apply hGoto hNext
          simpa [SeesPacket, or_assoc, eq_comm] using hSees
  | drainIsEmpty l u rest allDone anyNonempty =>
      apply hGoto hNext
      rcases hSees with rfl | hRest | hAny
      · exact Or.inr (by simp [hPacket])
      · exact Or.inl hRest
      · exact Or.inr (by simp [hAny])
  | drainReschedule rest =>
      cases rest with
      | nil => exact hGoto hNext trivial
      | cons n rest =>
          apply hGoto hNext
          split <;> trivial
  | drainHasInput n ports rest =>
      cases ports with
      | nil => exact hGoto hNext trivial
      | cons u ports =>
          apply hGoto hNext
          split <;> trivial
  | drainIsRunning n rest =>
      apply hGoto hNext
      split <;> trivial
  | drainAddNode n rest => exact Option.some.inj hNext ▸ trivial
  | leave => exact absurd hNext (by simp [idleStep])
  | _ => exact hSees.elim

/-- While the stream holds a packet the drain does not lead to the decision to
quit. -/
theorem seesPacket_of_path {t : StreamId} {a b : IdlePc}
    (hPacket : ∀ s, P s → (s.stream t).isEmpty = false)
    (hStart : SeesPacket t a)
    (hPath : ReflTransGen (IdleMoves g P) a b) : SeesPacket t b := by
  induction hPath with
  | refl => exact hStart
  | tail _ hMove ih =>
      obtain ⟨s, hState, hNext⟩ := hMove
      exact idleStep_seesPacket (hPacket s hState) ih hNext

/-- Places of a `RunNode` call after `PostProcess`. -/
def pastOutputs : RunPc → Bool
  | .popInputs _ | .callOpen | .prepareOutputs _ | .inProcess => false
  | .postProcess _ _ => false
  | _ => true

theorem pastOutputs_afterProcess (n : NodeId) (status : Status) :
    pastOutputs (afterProcess g n status) = true := by
  unfold afterProcess
  repeat' split
  all_goals rfl

theorem pastOutputs_next {s : Shared} {x : Choice} {r r' : Invocation}
    {pc pc' : RunPc} {u : Turn (Invocation × RunPc)}
    (hPast : pastOutputs pc = true) (hTurn : runStep g s r x pc = some u)
    (hNext : u.next = some (r', pc')) : pastOutputs pc' = true := by
  revert hTurn hPast
  fun_cases runStep g s r x pc
  all_goals intro hPast hTurn
  all_goals first
    | exact absurd hPast Bool.false_ne_true
    | (cases hTurn
       cases hNext <;> first
         | rfl
         | (unfold afterAct; split <;> rfl)
         | (split <;> rfl))

/-- In `PostProcess` the shards of the managers still to come are as `Process`
left them. -/
def ShardsKept (port : OutId → String) (outputs : List OutId) (written : Shards)
    (b : Invocation × RunPc) : Prop :=
  (∃ rest status, b.2 = .postProcess rest status ∧ rest <:+ outputs ∧
    ∀ o ∈ rest, b.1.outputs (port o) = written (port o)) ∨
  pastOutputs b.2 = true

/-- **Separate shards**: with distinct ports the propagation of one manager
leaves the shards of the others alone. -/
theorem runStep_shardsKept {s : Shared} {x : Choice} {r r' : Invocation}
    {pc pc' : RunPc} {u : Turn (Invocation × RunPc)} {port : OutId → String}
    {outputs : List OutId} {written : Shards}
    (hPorts : (outputs.map port).Nodup) (hNames : ∀ o, s.net.port o = port o)
    (hKept : ShardsKept port outputs written (r, pc))
    (hTurn : runStep g s r x pc = some u) (hNext : u.next = some (r', pc')) :
    ShardsKept port outputs written (r', pc') := by
  rcases hKept with ⟨rest, status, hPlace, hSuffix, hSame⟩ | hPast
  · simp only at hPlace
    subst hPlace
    cases rest with
    | nil =>
        cases hTurn
        obtain ⟨rfl, rfl⟩ := Prod.mk.inj (Option.some.inj hNext)
        exact Or.inr (pastOutputs_afterProcess _ _)
    | cons o rest =>
        have hTail : rest <:+ outputs := (List.suffix_cons o rest).trans hSuffix
        have hOther : ∀ o' ∈ rest, port o' ≠ port o := by
          intro o' hMem hEq
          have hNodup := (hSuffix.sublist.map port).nodup hPorts
          rw [List.map_cons, List.nodup_cons] at hNodup
          exact hNodup.1 (hEq ▸ List.mem_map_of_mem hMem)
        simp only [runStep] at hTurn
        split at hTurn
        · cases hTurn
          obtain ⟨rfl, rfl⟩ := Prod.mk.inj (Option.some.inj hNext)
          exact Or.inl ⟨rest, status, rfl, hTail,
            fun o' hMem => hSame o' (List.mem_cons_of_mem _ hMem)⟩
        · cases hTurn
          obtain ⟨rfl, rfl⟩ := Prod.mk.inj (Option.some.inj hNext)
          refine Or.inl ⟨rest, status, rfl, hTail, ?_⟩
          intro o' hMem
          have hNe : port o' ≠ s.net.port o := by
            rw [hNames o]
            exact hOther o' hMem
          exact (Function.update_of_ne hNe _ _).trans
            (hSame o' (List.mem_cons_of_mem _ hMem))
  · exact Or.inr (pastOutputs_next hPast hTurn hNext)

theorem shardsKept_of_path {port : OutId → String} {outputs : List OutId}
    {written : Shards} (hPorts : (outputs.map port).Nodup)
    (hNames : ∀ s, P s → ∀ o, s.net.port o = port o) {a b : Invocation × RunPc}
    (hStart : ShardsKept port outputs written a)
    (hPath : ReflTransGen (RunMoves g P) a b) :
    ShardsKept port outputs written b := by
  induction hPath with
  | refl => exact hStart
  | tail _ hMove ih =>
      obtain ⟨s, x, u, hState, hTurn, hNext⟩ := hMove
      exact runStep_shardsKept hPorts (hNames s hState) ih hTurn hNext

/-! ## Aliasing -/

/-- No two inputs of a node share a port, and no two outputs a shard. -/
structure Unaliased (c : GraphConfig) (r : Runtime) (n : NodeId) (d : NodeDef) :
    Prop where
  managers : ∀ i input, d.inputStreams[i]? = some input →
    (portName input, edgeManager c n i) ∈ (r.inputPorts n).toList
  count : (r.inputPorts n).size = d.inputStreams.length
  shards : ∀ (k k' : Nat) out out', d.outputStreams[k]? = some out →
    d.outputStreams[k']? = some out' → portName out = portName out' → k = k'

/-- Nothing sent along an edge of the node is lost on the way, in any run from
`s₀`. -/
structure Lossless (c : GraphConfig) (g : Graph) (s₀ : Shared) (n : NodeId)
    (d : NodeDef) : Prop where
  /-- Every `RunNode` call that reaches `Process` has popped the edge's manager
  and shows what it popped. -/
  popped : ∀ i input, d.inputStreams[i]? = some input → ∀ r r',
    ReflTransGen (RunMoves g (Reached g s₀)) (r, .popInputs (g.inputPorts n))
      (r', .inProcess) →
    ∃ s r₁ rest, Reached g s₀ s ∧
      ReflTransGen (RunMoves g (Reached g s₀)) (r, .popInputs (g.inputPorts n))
        (r₁, .popInputs ((portName input, edgeManager c n i) :: rest)) ∧
      popShard (portName input) (s.stream (edgeManager c n i)) ∈ r'.inputs
  /-- `DrainInputQueues` does not pass while the edge's queue holds a packet. -/
  drained : ∀ i input, d.inputStreams[i]? = some input → ∀ l next,
    ReflTransGen
      (IdleMoves g fun s => (s.stream (edgeManager c n i)).isEmpty = false)
      (.drainIsDone l g.inputStreams true false) next →
    ∀ l', next ≠ .shouldQuit l'
  /-- When `PropagateOutputPackets` comes to an output, its shard is as
  `Process` left it. -/
  separate : ∀ (k : Nat) out o, d.outputStreams[k]? = some out →
    (g.outputs n)[k]? = some o →
    (∀ s, Reached g s₀ s → s.net.port o = portName out) ∧
    ∀ r r' status status' rest,
      ReflTransGen (RunMoves g (Reached g s₀))
        (r, .postProcess (g.outputs n) status)
        (r', .postProcess (o :: rest) status') →
      r'.outputs (portName out) = r.outputs (portName out)

end

section

variable {c : GraphConfig} {r : Runtime}

theorem keys_portsFrom (start : Nat) (inputs : List String) :
    ((inputs.zipIdx start).map fun p => (portName p.1, p.2)).map Prod.fst =
      inputs.map portName := by
  conv_rhs => rw [← List.zipIdx_map_fst start inputs]
  rw [List.map_map, List.map_map]
  rfl

theorem size_portsFrom (start : Nat) (inputs : List String) :
    (portsFrom start inputs).size = inputs.length ↔
      (inputs.map portName).Nodup := by
  have hSize := size_insertAll_iff (m := (∅ : NameMap StreamId))
    (l := (inputs.zipIdx start).map fun p => (portName p.1, p.2))
  rw [keys_portsFrom] at hSize
  simpa [portsFrom] using hSize

theorem mem_portsFrom {start i : Nat} {inputs : List String} {input : String}
    (hPorts : (inputs.map portName).Nodup) (hInput : inputs[i]? = some input) :
    (portName input, start + i) ∈ (portsFrom start inputs).toList := by
  rw [Std.TreeMap.mem_toList_iff_getElem?_eq_some]
  apply getElem?_insertAll_of_mem (by rwa [keys_portsFrom])
  apply List.mem_of_getElem? (i := i)
  simp [hInput]

theorem nodup_map_portName {outputs : List String} :
    (outputs.map portName).Nodup ↔
      ∀ (k k' : Nat) out out', outputs[k]? = some out → outputs[k']? = some out' →
        portName out = portName out' → k = k' := by
  constructor
  · intro hNodup k k' out out' hOut hOut' hEq
    have hLt : k < (outputs.map portName).length := by
      rw [List.length_map]
      exact lt_length_of_getElem? hOut
    apply (List.getElem?_inj hLt hNodup).mp
    rw [List.getElem?_map, List.getElem?_map, hOut, hOut']
    exact congrArg some hEq
  · intro hInjective
    rw [List.nodup_iff_getElem?_ne_getElem?]
    intro k k' hLt hBound hEq
    rw [List.length_map] at hBound
    rw [List.getElem?_map, List.getElem?_map,
      List.getElem?_eq_getElem (Nat.lt_trans hLt hBound),
      List.getElem?_eq_getElem hBound] at hEq
    have hSame := hInjective k k' _ _
      (List.getElem?_eq_getElem (Nat.lt_trans hLt hBound))
      (List.getElem?_eq_getElem hBound) (Option.some.inj hEq)
    omega

/-- The shard of an output is keyed by the output's port name, in every run. -/
theorem port_of_reached (hInit : Runtime.Initialized c r) {g : Graph}
    {errorCallback : Bool} {n k : Nat} {d : NodeDef} {out : String} {o : OutId}
    (hNode : c.nodes[n]? = some d) (hOutput : d.outputStreams[k]? = some out)
    (hManager : (r.outputManagers n)[k]? = some o) {s : Shared}
    (hReached : Reached g (r.initialState errorCallback) s) :
    s.net.port o = portName out := by
  have hEq : o = outputCount (c.nodes.take n) + k := by
    rw [hInit.outputManagers n d hNode, List.getElem?_range'
      (lt_length_of_getElem? hOutput), Nat.one_mul, Option.some.injEq] at hManager
    exact hManager.symm
  obtain ⟨m, hOwned, hName⟩ :=
    Option.map_eq_some_iff.mp (hInit.outputNames n d hNode k out hOutput)
  have hStart : ((r.initialState errorCallback).net.outputs o).spec.name = out := by
    subst hEq
    simp [Runtime.initialState, initial, hOwned, hName]
  rw [Net.port, sameNames_of_reached hReached o, hStart]

/-- The keys of a node's shards are the port names of its outputs. -/
theorem map_port_outputManagers (hInit : Runtime.Initialized c r)
    {errorCallback : Bool} {n : Nat} {d : NodeDef} (hNode : c.nodes[n]? = some d) :
    (r.outputManagers n).map (r.initialState errorCallback).net.port =
      d.outputStreams.map portName := by
  apply List.ext_getElem?
  intro k
  rw [List.getElem?_map, List.getElem?_map]
  have hLength : (r.outputManagers n).length = d.outputStreams.length := by
    rw [hInit.outputManagers n d hNode, List.length_range']
  rcases Nat.lt_or_ge k d.outputStreams.length with hLt | hGe
  · have hManager := List.getElem?_eq_getElem (hLength ▸ hLt)
    have hOutput := List.getElem?_eq_getElem hLt
    rw [hManager, hOutput, Option.map_some, Option.map_some,
      port_of_reached hInit (g := Runtime.graph hInit {}) hNode hOutput hManager
        (reached_start _ _)]
  · rw [List.getElem?_eq_none hGe, List.getElem?_eq_none (hLength ▸ hGe)]
    rfl

/-- A node with distinct ports loses nothing. -/
theorem lossless_of_nodup (hInit : Runtime.Initialized c r) (env : Environment)
    (errorCallback : Bool) {n : Nat} {d : NodeDef} (hNode : c.nodes[n]? = some d)
    (hInputs : (d.inputStreams.map portName).Nodup)
    (hOutputs : (d.outputStreams.map portName).Nodup) :
    Lossless c (Runtime.graph hInit env) (r.initialState errorCallback) n d := by
  have hPort : ∀ i input, d.inputStreams[i]? = some input →
      (portName input, edgeManager c n i) ∈ (Runtime.graph hInit env).inputPorts n := by
    intro i input hInput
    show _ ∈ (r.inputPorts n).toList
    rw [Runtime.ports_of_getElem? hInit hNode]
    exact mem_portsFrom hInputs hInput
  constructor
  · intro i input hInput q q' hPath
    obtain ⟨s, q₁, rest, hReached, hBefore, hAfter⟩ :=
      pops_of_mem (hPort i input hInput) hPath
    refine ⟨s, q₁, rest, hReached, hBefore, ?_⟩
    exact (inputs_isPrefix hAfter).mem (by simp)
  · intro i input hInput l next hPath l' hQuit
    have hStream : edgeManager c n i ∈ (Runtime.graph hInit env).inputStreams := by
      have hLt : n < r.allNodes.length := by
        rw [hInit.nodes, List.length_map]
        exact lt_length_of_getElem? hNode
      exact List.mem_flatMap.mpr ⟨n, List.mem_range.mpr hLt,
        List.mem_map_of_mem (hPort i input hInput)⟩
    have hStart : SeesPacket (edgeManager c n i) (.drainIsDone l
        (Runtime.graph hInit env).inputStreams true false) :=
      Or.inl hStream
    have hSees := seesPacket_of_path (fun _ hPacket => hPacket) hStart hPath
    rw [hQuit] at hSees
    exact hSees
  · intro k out o hOutput hManager
    have hName : ∀ s, Reached (Runtime.graph hInit env) (r.initialState errorCallback) s →
        s.net.port o = portName out :=
      fun s hReached => port_of_reached hInit hNode hOutput hManager hReached
    refine ⟨hName, ?_⟩
    intro q q' status status' rest hPath
    have hNames : ∀ s, Reached (Runtime.graph hInit env) (r.initialState errorCallback) s →
        ∀ o, s.net.port o = (r.initialState errorCallback).net.port o :=
      fun s hReached o => congrArg portName (sameNames_of_reached hReached o)
    have hPorts : ((r.outputManagers n).map
        (r.initialState errorCallback).net.port).Nodup := by
      rw [map_port_outputManagers hInit hNode]
      exact hOutputs
    have hStart : ShardsKept (r.initialState errorCallback).net.port
        (r.outputManagers n) q.outputs (q, .postProcess (r.outputManagers n) status) :=
      Or.inl ⟨_, status, rfl, List.suffix_refl _, fun _ _ => rfl⟩
    rcases shardsKept_of_path hPorts hNames hStart hPath with
      ⟨rest', status', hPlace, -, hSame⟩ | hPast
    · obtain ⟨rfl, rfl⟩ := RunPc.postProcess.inj hPlace
      rw [← hName _ (reached_start _ _)]
      exact hSame o (by simp)
    · exact absurd hPast (by simp [pastOutputs])

/-- **Port aliasing**: after `Initialize`, every input edge of every node is
behind a port of its own, every output has a shard of its own, and nothing is
lost in any run, exactly when the port names of each node's inputs are distinct
and those of its outputs are. -/
theorem unaliased_iff {registered : String → Bool}
    (hOk : initializeGraph registered c {} = .ok r) :
    (∀ n d, c.nodes[n]? = some d → Unaliased c r n d ∧
      ∀ env errorCallback,
        Lossless c (Runtime.graph (initialized_of_eq_ok hOk) env)
          (r.initialState errorCallback) n d) ↔
    ∀ d ∈ c.nodes, (d.inputStreams.map portName).Nodup ∧
      (d.outputStreams.map portName).Nodup := by
  have hInit := initialized_of_eq_ok hOk
  constructor
  · intro hServed d hMem
    obtain ⟨n, hNode⟩ := List.mem_iff_getElem?.mp hMem
    have hUnaliased := (hServed n d hNode).1
    refine ⟨?_, nodup_map_portName.mpr hUnaliased.shards⟩
    have hCount := hUnaliased.count
    rw [Runtime.ports_of_getElem? hInit hNode] at hCount
    exact (size_portsFrom _ _).mp hCount
  · intro hPorts n d hNode
    obtain ⟨hInputs, hOutputs⟩ := hPorts d (List.mem_of_getElem? hNode)
    have hManagers : ∀ i input, d.inputStreams[i]? = some input →
        (portName input, edgeManager c n i) ∈ (r.inputPorts n).toList := by
      intro i input hInput
      rw [Runtime.ports_of_getElem? hInit hNode]
      exact mem_portsFrom hInputs hInput
    constructor
    · refine ⟨hManagers, ?_, nodup_map_portName.mp hOutputs⟩
      rw [Runtime.ports_of_getElem? hInit hNode]
      exact (size_portsFrom _ _).mpr hInputs
    · intro env errorCallback
      exact lossless_of_nodup hInit env errorCallback hNode hInputs hOutputs

end

theorem exists_eq_ok {α : Type} {e : Except Status α} (hOk : e.isOk = true) :
    ∃ a, e = .ok a := by
  cases e with
  | error status => exact absurd hOk (by simp [Except.isOk, Except.toBool])
  | ok a => exact ⟨a, rfl⟩

/-- A node with two inputs on port `A` and two outputs on port `B`. -/
def aliasedConfig : GraphConfig where
  nodes := [{ name := "join", type := "Join", inputStreams := ["A:x", "A:y"],
              outputStreams := ["B:u", "B:v"] }]
  inputStreams := ["x", "y"]

/-- The validator accepts it and `Initialize` succeeds, but the node has one
port for its two inputs. -/
theorem unaliased_aliased :
    (validate aliasedConfig).isOk = true ∧
      ∃ r, initializeGraph (fun _ => true) aliasedConfig {} = .ok r ∧
        (r.inputPorts 0).size = 1 ∧
        ¬ ∀ n d, aliasedConfig.nodes[n]? = some d →
          Unaliased aliasedConfig r n d := by
  refine ⟨by decide +kernel, ?_⟩
  obtain ⟨r, hOk⟩ := exists_eq_ok
    (e := initializeGraph (fun _ => true) aliasedConfig {}) (by decide +kernel)
  have hSize : ((initializeGraph (fun _ => true) aliasedConfig {}).toOption.map
      fun r => (r.inputPorts 0).size) = some 1 := by decide +kernel
  rw [hOk] at hSize
  have hOne : (r.inputPorts 0).size = 1 := Option.some.inj hSize
  refine ⟨r, hOk, hOne, ?_⟩
  intro hUnaliased
  have hCount := (hUnaliased 0 _ rfl).count
  rw [hOne] at hCount
  exact absurd hCount (by decide)

/-- The same node with four ports. -/
def distinctConfig : GraphConfig where
  nodes := [{ name := "join", type := "Join", inputStreams := ["A:x", "B:y"],
              outputStreams := ["C:u", "D:v"] }]
  inputStreams := ["x", "y"]

theorem unaliased_distinct :
    ∃ r, ∃ hOk : initializeGraph (fun _ => true) distinctConfig {} = .ok r,
      ∀ n d, distinctConfig.nodes[n]? = some d → Unaliased distinctConfig r n d ∧
        ∀ env errorCallback,
          Lossless distinctConfig (Runtime.graph (initialized_of_eq_ok hOk) env)
            (r.initialState errorCallback) n d := by
  obtain ⟨r, hOk⟩ := exists_eq_ok
    (e := initializeGraph (fun _ => true) distinctConfig {}) (by decide +kernel)
  exact ⟨r, hOk, (unaliased_iff hOk).mpr (by decide +kernel)⟩

end GraphRuntime.Public
