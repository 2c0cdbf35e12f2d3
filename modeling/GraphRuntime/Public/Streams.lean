import GraphRuntime.Public.Ports
import GraphRuntime.Public.Producers
import GraphRuntime.Scheduler.Conservation
import GraphRuntime.Scheduler.Pipelines

/-!
# The streams of a config are the channels of its run

Above the scheduler a stream is a name in a config.  `Initialize` turns it into an output
manager, input managers and the mirrors between them, and the results about channels and lines
are about those.

* `Numbered` says which output managers are whose, and `portsApart_graph`,
  `owner_outputManagers` and `nodup_consumers` follow for the graph that is run.
* A `Link` is an edge of the config from one node's output to another node's input.  It is a
  `channel` of the graph, and nothing else writes to it (`mem_consumers`).
* So its packets are delivered (`edge_delivers`), and what comes out of a line of nodes depends
  on the streams of the config only (`placement_does_not_show`).
-/

namespace GraphRuntime.Public

open GraphRuntime.Config GraphRuntime.Stream GraphRuntime.Scheduler
open OrderedMap Interleaving

namespace Runtime

variable {c : GraphConfig} {r : Runtime}

/-- Only the config's nodes have output managers, and those of the graph inputs come after
them. -/
structure Numbered (c : GraphConfig) (r : Runtime) : Prop where
  nodes : ∀ n o, o ∈ r.outputManagers n → n < c.nodes.length
  inputs : ∀ (name : String) (o : OutId), r.graphInputOutputs[name]? = some o →
    outputCount c.nodes ≤ o

theorem numbered_wire {built : Runtime} (hNames : (c.nodes.map (·.name)).Nodup)
    (hBuilt : built.allNodes = c.nodes.map Node.ofDef) : Numbered c (wire c {} built) := by
  simp only [wire]
  have hInputs := inputsMade (r :=
    { nonDefaultQueues := built.nonDefaultQueues
      hasDefaultExecutor := built.hasDefaultExecutor
      allNodes := built.allNodes }) hNames hBuilt rfl rfl
  generalize c.nodes.foldl createInputManagers _ = made at hInputs ⊢
  obtain ⟨hMade, hManagers, -⟩ := hInputs
  obtain ⟨seen, count, hCount⟩ := countGraphInputs c.inputStreams made.1
  rw [hCount]
  obtain ⟨r₁, hR₁⟩ : ∃ r₁ : Runtime, r₁ = { made.1 with
      graphInputStreamsSet := seen
      numOpenInputStreams := count
      totalGraphInputStreams := count } := ⟨_, rfl⟩
  have hNodes : r₁.allNodes = c.nodes.map Node.ofDef := by
    rw [hR₁, hMade]
    exact hBuilt
  obtain ⟨outHandlers, outHandler, hOutputs, hOutputsFold⟩ := outputsMade (c := c) (r := r₁)
    hNames hNodes (by rw [hR₁, hMade]) (by rw [hR₁, hMade]) (by rw [hR₁, hMade])
  obtain ⟨owned, hOwnedFold, -⟩ := arrivalCallbacksSet (c := c)
    (r := c.nodes.foldl createOutputManagers r₁) hNames (by rw [hOutputsFold]; exact hNodes)
    (by rw [hOutputsFold, hR₁, hMade]) hManagers
  obtain ⟨handlers, handler, -, hHandlersFold⟩ := handlersMade (c := c)
    (r := c.nodes.foldl (setArrivalCallbacks made.2) (c.nodes.foldl createOutputManagers r₁))
    hNames (by rw [hOwnedFold, hOutputsFold]; exact hNodes) hManagers
    (by rw [hOwnedFold, hOutputsFold, hR₁, hMade]) (by rw [hOwnedFold, hOutputsFold, hR₁, hMade])
  rw [← hR₁, hHandlersFold, hOwnedFold, hOutputsFold]
  obtain ⟨r₂, hR₂⟩ : ∃ r₂ : Runtime, r₂ = { r₁ with
      ownedOutputStreamManagers := outputManagersOf c.nodes
      ownedOutputStreamHandlers := outHandlers
      outputStreamHandler := outHandler
      ownedStreamManagers := owned
      ownedInputStreamHandlers := handlers
      inputStreamHandler := handler } := ⟨_, rfl⟩
  rw [← hR₂]
  obtain ⟨pairs, -, hNumbers, hFold⟩ := foldl_createGraphInput c.inputStreams r₂
    (c.nodes.foldl r₂.collectOutputs ∅)
  obtain ⟨r₃, hR₃⟩ : ∃ r₃ : Runtime, r₃ = { r₂ with
      ownedOutputStreamManagers := r₂.ownedOutputStreamManagers ++
        c.inputStreams.map fun name => { spec := { name } }
      graphInputOutputs := insertAll r₂.graphInputOutputs pairs } := ⟨_, rfl⟩
  obtain ⟨wired, hWire, -, -⟩ := foldl_wireEdge
    (insertAll (c.nodes.foldl r₂.collectOutputs ∅) pairs)
    (edgesOf r₃.inputStreamHandler c.nodes) r₃
  rw [hFold, ← hR₃, inputsWired _ hNames (by rw [hR₃, hR₂]; exact hNodes), hWire]
  constructor
  · intro n o hMem
    have hHandler : o ∈ ((outHandler n).bind (outHandlers[·]?)).getD [] := by
      rw [hR₃, hR₂] at hMem
      exact hMem
    cases hKnown : outHandler n with
    | none => simp [hKnown] at hHandler
    | some h => exact (hOutputs.known n h hKnown).1
  · intro name o hFound
    have hPairs : (insertAll (∅ : NameMap OutId) pairs)[name]? = some o := by
      rw [hR₃, hR₂, hR₁, hMade] at hFound
      exact hFound
    rcases mem_of_getElem?_insertAll hPairs with hPair | hOld
    · have hNumber : o ∈ pairs.map Prod.snd := List.mem_map_of_mem hPair
      rw [hNumbers, List.mem_range'_1, hR₂, length_outputManagersOf] at hNumber
      exact hNumber.1
    · simp at hOld

/-! ## The graph of an initialized runtime -/

/-- The output managers a run starts with. -/
def initialOutputs (r : Runtime) (o : OutId) : OutputStreamManager :=
  (r.ownedOutputStreamManagers[o]?).getD { spec := { name := "" } }

section

variable {hInit : Initialized c r} {env : Environment}

theorem consumers_graph (o : OutId) :
    consumers (graph hInit env) r.initialOutputs o =
      (r.mirrors o).filterMap (Mirror.resolve r.routes) := by
  show (r.initialOutputs o).mirrors.filterMap (Mirror.resolve r.routes) = _
  unfold initialOutputs mirrors
  cases r.ownedOutputStreamManagers[o]? with
  | none => rfl
  | some m => rfl

/-- No manager has two mirrors that lead to one stream. -/
theorem nodup_consumers (hInit : Initialized c r) (o : OutId) :
    ((r.mirrors o).filterMap (Mirror.resolve r.routes)).Nodup := by
  obtain ⟨outputByStream, -, hMirrors⟩ := hInit.wiring
  rcases Nat.lt_or_ge o r.ownedOutputStreamManagers.length with hLt | hGe
  · have hAll : (edgesOf r.inputStreamHandler c.nodes).filterMap (fun e => e.2.resolve r.routes) =
        List.range (edgeCount c.nodes) := by
      have hResolve := congrArg (List.filterMap id) (edgesOf_resolve hInit.handlers)
      rw [List.filterMap_map, List.filterMap_map] at hResolve
      exact hResolve.trans List.filterMap_some
    have hSome : (r.mirrors o).filterMap (Mirror.resolve r.routes) =
        ((edgesOf r.inputStreamHandler c.nodes).filter fun e =>
          outputByStream[e.1]? = some o).filterMap fun e => e.2.resolve r.routes := by
      rw [hMirrors o hLt, mirrorsAdded, List.filterMap_map]
      rfl
    rw [hSome]
    refine List.Nodup.sublist (List.filter_sublist.filterMap _) ?_
    rw [hAll]
    exact List.nodup_range
  · have hNone : r.mirrors o = [] := by
      rw [mirrors, List.getElem?_eq_none hGe]
      rfl
    rw [hNone]
    exact List.nodup_nil

/-- The shards of a node's outputs are keyed by their port names. -/
theorem map_shardPort (hInit : Initialized c r) {n : Nat} {d : NodeDef}
    (hNode : c.nodes[n]? = some d) :
    (r.outputManagers n).map (shardPort r.initialOutputs) = d.outputStreams.map portName :=
  @map_port_outputManagers c r hInit false n d hNode

/-- **Nodes with distinct output ports** have shards of their own. -/
theorem portsApart_graph (hInit : Initialized c r) (env : Environment)
    (hNumbered : Numbered c r)
    (hPorts : ∀ d ∈ c.nodes, (d.outputStreams.map portName).Nodup) :
    PortsApart (graph hInit env) r.initialOutputs := by
  intro n
  show ((r.outputManagers n).map (shardPort r.initialOutputs)).Nodup
  cases hNode : c.nodes[n]? with
  | some d =>
      rw [map_shardPort hInit hNode]
      exact hPorts d (List.mem_of_getElem? hNode)
  | none =>
      have hNone : r.outputManagers n = [] := by
        refine List.eq_nil_iff_forall_not_mem.mpr fun o hMem => ?_
        have hLt := hNumbered.nodes n o hMem
        rw [List.getElem?_eq_getElem hLt] at hNode
        cases hNode
      rw [hNone]
      exact List.nodup_nil

/-- **Every output manager is one node's.** -/
theorem owner_outputManagers (hInit : Initialized c r) (hNumbered : Numbered c r) {n n' : Nat}
    {o : OutId} (hMem : o ∈ r.outputManagers n) (hMem' : o ∈ r.outputManagers n') : n' = n := by
  have hBelow : ∀ {n n' : Nat}, o ∈ r.outputManagers n → o ∈ r.outputManagers n' → ¬ n < n' := by
    intro n n' hMem hMem' hLess
    have hLt := hNumbered.nodes n o hMem
    have hLt' := hNumbered.nodes n' o hMem'
    rw [hInit.outputManagers n _ (List.getElem?_eq_getElem hLt), List.mem_range'_1] at hMem
    rw [hInit.outputManagers n' _ (List.getElem?_eq_getElem hLt'), List.mem_range'_1] at hMem'
    have hTake : (c.nodes.take n')[n]? = some c.nodes[n] := by
      rw [List.getElem?_take_of_lt hLess, List.getElem?_eq_getElem hLt]
    have hCount := output_lt_outputCount (k := o - outputCount (c.nodes.take n)) hTake (by omega)
    rw [List.take_take, Nat.min_eq_left (by omega)] at hCount
    omega
  have hNot := hBelow hMem hMem'
  have hNot' := hBelow hMem' hMem
  omega

end

end Runtime

theorem numbered_of_eq_ok {registered : String → Bool} {c : GraphConfig} {r : Runtime}
    (hInit : initializeGraph registered c {} = .ok r) : Runtime.Numbered c r := by
  unfold initializeGraph at hInit
  cases hBuild : build registered c with
  | error status => simp [hBuild, Except.map] at hInit
  | ok built =>
      obtain ⟨hValid, hNodes⟩ := build_eq_ok hBuild
      have hResult : Runtime.wire c {} built = r := by
        simpa [hBuild, Except.map] using hInit
      rw [← hResult]
      exact Runtime.numbered_wire (names_nodup_of_validate hValid) hNodes

/-! ## The streams of a config -/

/-- A stream from a node to a node: an input edge and the node output it comes from, the only
producer it has. -/
structure Link (c : GraphConfig) where
  source : Nat
  output : Nat
  node : Nat
  index : Nat
  input : String
  edge : c.edge node index = some input
  produces : Produces c (streamName input) (.nodeOutput source output)
  only : ∀ q, Produces c (streamName input) q → q = .nodeOutput source output

namespace Link

variable {c : GraphConfig} {r : Runtime} {registered : String → Bool}

/-- The output manager made for the output. -/
def manager (l : Link c) : OutId := outputCount (c.nodes.take l.source) + l.output

/-- The input manager made for the edge. -/
def stream (l : Link c) : StreamId := edgeManager c l.node l.index

variable (l : Link c)

theorem manager_getElem? (hInit : Runtime.Initialized c r) :
    (r.outputManagers l.source)[l.output]? = some l.manager := by
  obtain ⟨d, out, hNode, hOut, -⟩ := produces_nodeOutput.mp l.produces
  rw [hInit.outputManagers l.source d hNode, List.getElem?_range' (lt_length_of_getElem? hOut),
    Nat.one_mul]
  rfl

theorem manager_mem (hInit : Runtime.Initialized c r) : l.manager ∈ r.outputManagers l.source :=
  List.mem_of_getElem? (l.manager_getElem? hInit)

/-- **Wiring**: of all the mirrors of all managers one leads to the stream, and it is one of the
manager's. -/
theorem mem_consumers (hInit : Runtime.Initialized c r) (o : OutId) :
    l.stream ∈ (r.mirrors o).filterMap (Mirror.resolve r.routes) ↔ o = l.manager := by
  obtain ⟨o', h, hManager, -, hResolve, hCount, hAlone⟩ :=
    (Runtime.registered_of_unique hInit l.edge l.produces l.only).mirror
  have hSame : o' = l.manager :=
    Option.some.inj (hManager.symm.trans (l.manager_getElem? hInit))
  subst hSame
  constructor
  · intro hMem
    obtain ⟨m, hMirror, hLeads⟩ := List.mem_filterMap.mp hMem
    exact (hAlone o m hMirror hLeads).1
  · rintro rfl
    refine List.mem_filterMap.mpr ⟨_, List.count_pos_iff.mp ?_, hResolve⟩
    omega

/-- The manager is no graph input's. -/
theorem manager_inner (hNumbered : Runtime.Numbered c r) (name : String) :
    r.graphInputOutputs.toList.lookup name ≠ some l.manager := by
  intro hLookup
  obtain ⟨before, after, hList, -⟩ := List.lookup_eq_some_iff.mp hLookup
  have hMem : (name, l.manager) ∈ r.graphInputOutputs.toList := by
    rw [hList]
    simp
  have hAbove := hNumbered.inputs name l.manager
    (Std.TreeMap.mem_toList_iff_getElem?_eq_some.mp hMem)
  obtain ⟨d, out, hNode, hOut, -⟩ := produces_nodeOutput.mp l.produces
  have hBelow := Runtime.output_lt_outputCount hNode (lt_length_of_getElem? hOut)
  unfold manager at hAbove
  omega

section

variable (env : Environment)

/-- **A stream of a config is a channel** of the graph that is run, when one call of its source
is in flight at a time and the source's outputs have ports of their own. -/
def channel (hOk : initializeGraph registered c {} = .ok r) (hFlight : env.maxInFlight l.source ≤ 1)
    (hPorts : ∀ d ∈ c.nodes, (d.outputStreams.map portName).Nodup) :
    Channel (Runtime.graph (initialized_of_eq_ok hOk) env) r.initialOutputs where
  node := l.source
  manager := l.manager
  stream := l.stream
  maxInFlight := hFlight
  outputs_nodup :=
    PortsApart.nodup (Runtime.portsApart_graph (initialized_of_eq_ok hOk) env
      (numbered_of_eq_ok hOk) hPorts) l.source
  owned := l.manager_mem (initialized_of_eq_ok hOk)
  owner := fun _ hMem => Runtime.owner_outputManagers (initialized_of_eq_ok hOk)
    (numbered_of_eq_ok hOk) (l.manager_mem (initialized_of_eq_ok hOk)) hMem
  inner := l.manager_inner (numbered_of_eq_ok hOk)
  consumer := Runtime.consumers_graph l.manager ▸
    (l.mem_consumers (initialized_of_eq_ok hOk) l.manager).mpr rfl
  consumers_nodup := Runtime.consumers_graph l.manager ▸
    Runtime.nodup_consumers (initialized_of_eq_ok hOk) l.manager
  alone := fun o hMem => (l.mem_consumers (initialized_of_eq_ok hOk) o).mp
    (Runtime.consumers_graph o ▸ hMem)
  port_eq := fun _ hMem hSame =>
    PortsApart.inj (Runtime.portsApart_graph (initialized_of_eq_ok hOk) env
      (numbered_of_eq_ok hOk) hPorts) hMem
      (l.manager_mem (initialized_of_eq_ok hOk)) hSame

/-- The stream has one mirror. -/
theorem mirrorsTo_eq (hInit : Runtime.Initialized c r) (o : OutId) :
    mirrorsTo (Runtime.graph hInit env) r.initialOutputs l.stream o =
      if o = l.manager then 1 else 0 := by
  unfold mirrorsTo
  rw [Runtime.consumers_graph]
  by_cases hEq : o = l.manager
  · rw [if_pos hEq]
    exact List.count_eq_one_of_mem (Runtime.nodup_consumers hInit o)
      ((l.mem_consumers hInit o).mpr hEq)
  · rw [if_neg hEq]
    exact List.count_eq_zero.mpr fun hMem => hEq ((l.mem_consumers hInit o).mp hMem)

/-- What the source has put into the shard of the output. -/
def written (g : Graph) (outputs : OutId → OutputStreamManager) (history : List Transfer) :
    List Packet := history.flatMap (Transfer.input g l.manager (shardPort outputs l.manager))

end

end Link

/-- **What a config declares is what is delivered.**  Take any config that `Initialize` accepts,
with distinct output ports at each node, and an edge whose stream has a node's output for its
one producer.  In every run, as long as that output's manager is open: the packets the producer
has put into the output are, up to their order, those the consumer has taken from the edge,
those in the edge's queue and those on their way; and with one call of the producer at a time
they are so in this order, with nothing on the way once no call is before its
`DecrementPending`. -/
theorem edge_delivers {registered : String → Bool} {c : GraphConfig} {r : Runtime} (l : Link c)
    (hOk : initializeGraph registered c {} = .ok r)
    (hPorts : ∀ d ∈ c.nodes, (d.outputStreams.map portName).Nodup)
    (env : Environment) {callback : Bool} {cfg : Config (Recorded Shared Transfer) Frame}
    (hReach : (traced (Runtime.graph (initialized_of_eq_ok hOk) env)).Reaches Guard.all
      (started (r.initialState callback)).record cfg)
    (hOpen : (cfg.shared.state.net.outputs l.manager).closed = false) :
    (l.written (Runtime.graph (initialized_of_eq_ok hOk) env) r.initialOutputs
        cfg.shared.history).Perm
      (takenFrom l.stream cfg.shared.history ++ (cfg.shared.state.stream l.stream).queue ++
        cfg.frames.flatMap (Frame.load (Runtime.graph (initialized_of_eq_ok hOk) env)
          r.initialOutputs l.stream)) ∧
    (env.maxInFlight l.source ≤ 1 → ∃ way,
      l.written (Runtime.graph (initialized_of_eq_ok hOk) env) r.initialOutputs
          cfg.shared.history =
        takenFrom l.stream cfg.shared.history ++ (cfg.shared.state.stream l.stream).queue ++ way ∧
      ((∀ f ∈ cfg.frames, f.holdsPending l.source = false) → way = [])) := by
  have hInit := initialized_of_eq_ok hOk
  have hNumbered := numbered_of_eq_ok hOk
  have hApart : PortsApart (Runtime.graph hInit env) r.initialOutputs :=
    Runtime.portsApart_graph hInit env hNumbered hPorts
  constructor
  · have hSent := sentTo_of_sole hApart (l.mirrorsTo_eq env hInit) (l.manager_inner hNumbered)
      hReach
    have hFeeders : FeedersOpen (Runtime.graph hInit env) r.initialOutputs l.stream
        cfg.shared.state := by
      intro n o _ hConsumer
      rw [Runtime.consumers_graph, l.mem_consumers hInit] at hConsumer
      rw [hConsumer]
      exact hOpen
    rw [Link.written, ← hSent]
    exact conserved_of_reaches l.stream hApart hReach hFeeders
  · intro hFlight
    exact carries_of_reaches (l.channel env hOk hFlight hPorts) hReach hOpen

/-- The runtime of a config whose nodes' types are all registered. -/
def runtimeOf (c : GraphConfig) : Runtime :=
  (initializeGraph (fun _ => true) c {}).toOption.getD {}

theorem initialize_runtimeOf {c : GraphConfig}
    (hOk : (initializeGraph (fun _ => true) c {}).isOk = true) :
    initializeGraph (fun _ => true) c {} = .ok (runtimeOf c) := by
  obtain ⟨r, hInit⟩ := exists_eq_ok hOk
  rw [runtimeOf, hInit]
  rfl

/-- An unambiguous stream has no second producer. -/
theorem producer_eq {c : GraphConfig} {s : String} {p q : Producer} (hUnambiguous : Unambiguous c s)
    (hProduces : Produces c s p) (hOther : Produces c s q) : q = p := by
  have hConnected : s ∈ c.inputStreams ∨ s ∈ c.nodeOutputs ∨
      s ∈ c.outputStreams.map streamName := by
    cases p with
    | nodeOutput n k => exact Or.inr (Or.inl (mem_nodeOutputs.mpr ⟨n, k, hProduces⟩))
    | graphInput stream => exact Or.inl (hProduces.1 ▸ hProduces.2)
  obtain ⟨p', -, hOnly⟩ := (existsUnique_producer_iff hConnected).mpr hUnambiguous
  rw [hOnly q hOther, hOnly p hProduces]

/-- A source and a sink. -/
def sinkConfig : GraphConfig where
  nodes := [{ name := "source", type := "Source", outputStreams := ["out:a"] },
    { name := "sink", type := "Sink", inputStreams := ["in:a"] }]

theorem initialize_sink :
    initializeGraph (fun _ => true) sinkConfig {} = .ok (runtimeOf sinkConfig) :=
  initialize_runtimeOf (by decide +kernel)

theorem produces_sink : Produces sinkConfig (streamName "in:a") (.nodeOutput 0 0) := by
  show (sinkConfig.nodes[0]?.bind (·.outputStreams[0]?)).map streamName = some (streamName "in:a")
  decide +kernel

theorem only_sink (q : Producer) (hProduces : Produces sinkConfig (streamName "in:a") q) :
    q = .nodeOutput 0 0 :=
  producer_eq ⟨by decide +kernel, by decide +kernel, by decide +kernel⟩ produces_sink hProduces

/-- The edge from the source to the sink. -/
def sinkLink : Link sinkConfig where
  source := 0
  output := 0
  node := 1
  index := 0
  input := "in:a"
  edge := rfl
  produces := produces_sink
  only := only_sink

/-- The graph of the source and the sink. -/
def sinkGraph : Graph := Runtime.graph (initialized_of_eq_ok initialize_sink) {}

/-- The source writes packet `k`. -/
def sends (k : Nat) : Choice :=
  .returns Status.okStatus [("out", .addPacket ⟨some k, Timestamp.ofValue k⟩)]

/-- The source has written two packets, and the sink has taken the first. -/
theorem edge_delivers_sink :
    ∃ (cfg : Config (Recorded Shared Transfer) Frame) (way : List Packet),
      (traced sinkGraph).Reaches Guard.all
        (started ((runtimeOf sinkConfig).initialState false)).record cfg ∧
      (sinkLink.written sinkGraph (runtimeOf sinkConfig).initialOutputs
        cfg.shared.history).length = 2 ∧
      (takenFrom sinkLink.stream cfg.shared.history).length = 1 ∧
      sinkLink.written sinkGraph (runtimeOf sinkConfig).initialOutputs cfg.shared.history =
        takenFrom sinkLink.stream cfg.shared.history ++
          (cfg.shared.state.stream sinkLink.stream).queue ++ way := by
  obtain ⟨cfg, hReach, hTest⟩ := (traced sinkGraph).exists_reaches Guard.all
    (started ((runtimeOf sinkConfig).initialState false)).record
    (runs 0 17 .ok ++ calls (.worker 0) 1 4 .ok ++ runs 1 1 (sends 1) ++ runs 1 22 .ok ++
      calls (.worker 0) 2 4 .ok ++ runs 2 1 (sends 2) ++ calls (.worker 0) 3 2 .ok)
    (fun cfg => decide ((sinkLink.written sinkGraph (runtimeOf sinkConfig).initialOutputs
        cfg.shared.history).length = 2) &&
      decide ((takenFrom sinkLink.stream cfg.shared.history).length = 1) &&
      !(cfg.shared.state.net.outputs sinkLink.manager).closed)
    (by decide +kernel)
  simp only [Bool.and_eq_true, decide_eq_true_eq, Bool.not_eq_true'] at hTest
  obtain ⟨⟨hWritten, hTaken⟩, hOpen⟩ := hTest
  obtain ⟨-, hFifo⟩ := edge_delivers sinkLink initialize_sink (by decide +kernel) {} hReach hOpen
  obtain ⟨way, hEq, -⟩ := hFifo (Int.le_refl 1)
  exact ⟨cfg, way, hReach, hWritten, hTaken, hEq⟩

/-! ## Lines of nodes -/

/-- Every edge's stream is written by the node of the edge before it, which has no other
input. -/
def Chained {c : GraphConfig} : Link c → List (Link c) → Prop
  | _, [] => True
  | l, next :: rest =>
      (next.source = l.node ∧ ∃ d, c.nodes[l.node]? = some d ∧ d.inputStreams = [l.input]) ∧
        Chained next rest

/-- The two configs declare the same streams at each node, whatever the nodes' names, types,
executors, layers and input handlers. -/
structure SameStreams (c c' : GraphConfig) : Prop where
  nodes : c'.nodes.map (fun d => (d.inputStreams, d.outputStreams)) =
    c.nodes.map fun d => (d.inputStreams, d.outputStreams)
  inputs : c'.inputStreams = c.inputStreams

namespace SameStreams

variable {c c' : GraphConfig}

theorem node (hSame : SameStreams c c') (n : Nat) :
    (c'.nodes[n]?.map fun d => (d.inputStreams, d.outputStreams)) =
      c.nodes[n]?.map fun d => (d.inputStreams, d.outputStreams) := by
  have hNodes := congrArg (fun nodes => nodes[n]?) hSame.nodes
  rwa [List.getElem?_map, List.getElem?_map] at hNodes

theorem inputStreams (hSame : SameStreams c c') (n : Nat) :
    (c'.nodes[n]?.map fun d => d.inputStreams) = c.nodes[n]?.map fun d => d.inputStreams := by
  have hNode := congrArg (Option.map Prod.fst) (hSame.node n)
  rwa [Option.map_map, Option.map_map] at hNode

theorem outputStreams (hSame : SameStreams c c') (n : Nat) :
    (c'.nodes[n]?.map fun d => d.outputStreams) = c.nodes[n]?.map fun d => d.outputStreams := by
  have hNode := congrArg (Option.map Prod.snd) (hSame.node n)
  rwa [Option.map_map, Option.map_map] at hNode

theorem edge (hSame : SameStreams c c') (n i : Nat) : c'.edge n i = c.edge n i := by
  have hNode := congrArg (fun streams => streams.bind fun inputs => inputs[i]?)
    (hSame.inputStreams n)
  rwa [Option.bind_map, Option.bind_map] at hNode

theorem produces (hSame : SameStreams c c') (s : String) (p : Producer) :
    Produces c' s p ↔ Produces c s p := by
  cases p with
  | nodeOutput n k =>
      have hNode := congrArg (fun streams => streams.bind fun outputs => outputs[k]?)
        (hSame.outputStreams n)
      rw [Option.bind_map, Option.bind_map] at hNode
      unfold Produces
      exact iff_of_eq (congrArg (fun out => Option.map streamName out = some s) hNode)
  | graphInput stream =>
      unfold Produces
      rw [hSame.inputs]

theorem edgeManager (hSame : SameStreams c c') (n i : Nat) :
    Public.edgeManager c' n i = Public.edgeManager c n i := by
  have hTake := congrArg (fun nodes => ((nodes.take n).map fun d => d.1.length).sum) hSame.nodes
  simp only [← List.map_take, List.map_map] at hTake
  exact congrArg (· + i) hTake

theorem outputCount (hSame : SameStreams c c') (n : Nat) :
    Public.outputCount (c'.nodes.take n) = Public.outputCount (c.nodes.take n) := by
  have hTake := congrArg (fun nodes => ((nodes.take n).map fun d => d.2.length).sum) hSame.nodes
  simp only [← List.map_take, List.map_map] at hTake
  exact hTake

theorem ports (hSame : SameStreams c c')
    (hPorts : ∀ d ∈ c.nodes, (d.outputStreams.map portName).Nodup) :
    ∀ d ∈ c'.nodes, (d.outputStreams.map portName).Nodup := by
  intro d hMem
  obtain ⟨n, hNode⟩ := List.mem_iff_getElem?.mp hMem
  have hStreams := hSame.outputStreams n
  rw [hNode, Option.map_some] at hStreams
  obtain ⟨d', hNode', hEq⟩ := Option.map_eq_some_iff.mp hStreams.symm
  rw [← hEq]
  exact hPorts d' (List.mem_of_getElem? hNode')

/-- The same edge of the other config. -/
def link (hSame : SameStreams c c') (l : Link c) : Link c' where
  source := l.source
  output := l.output
  node := l.node
  index := l.index
  input := l.input
  edge := (hSame.edge l.node l.index).trans l.edge
  produces := (hSame.produces _ _).mpr l.produces
  only := fun q hProduces => l.only q ((hSame.produces _ q).mp hProduces)

theorem manager_link (hSame : SameStreams c c') (l : Link c) :
    (hSame.link l).manager = l.manager := congrArg (· + l.output) (hSame.outputCount l.source)

theorem stream_link (hSame : SameStreams c c') (l : Link c) :
    (hSame.link l).stream = l.stream := hSame.edgeManager l.node l.index

theorem chained (hSame : SameStreams c c') {first : Link c} {rest : List (Link c)}
    (hChained : Chained first rest) : Chained (hSame.link first) (rest.map hSame.link) := by
  induction rest generalizing first with
  | nil => trivial
  | cons next rest ih =>
      obtain ⟨⟨hNext, d, hNode, hInputs⟩, hRest⟩ := hChained
      have hStreams := hSame.inputStreams first.node
      rw [hNode, Option.map_some, hInputs] at hStreams
      obtain ⟨d', hNode', hInputs'⟩ := Option.map_eq_some_iff.mp hStreams
      exact ⟨⟨hNext, d', hNode', hInputs'⟩, ih hRest⟩

end SameStreams

section

variable {registered : String → Bool} {c : GraphConfig} {r : Runtime}
  (env : Environment)

/-- The port of a node with one input. -/
theorem inputPorts_of_single (hInit : Runtime.Initialized c r) (l : Link c) {d : NodeDef}
    (hNode : c.nodes[l.node]? = some d) (hInputs : d.inputStreams = [l.input]) :
    (r.inputPorts l.node).toList = [(portName l.input, l.stream)] := by
  obtain ⟨d', hNode', hInput⟩ := edge_eq_some.mp l.edge
  have hEq : d' = d := Option.some.inj (hNode'.symm.trans hNode)
  rw [hEq, hInputs] at hInput
  have hIndex : l.index = 0 := by
    have hLt := lt_length_of_getElem? hInput
    rw [List.length_singleton] at hLt
    omega
  have hStream : l.stream = edgeCount (c.nodes.take l.node) := by
    rw [Link.stream, edgeManager, hIndex, Nat.add_zero]
  rw [Runtime.ports_of_getElem? hInit hNode, hInputs, hStream]
  rfl

/-- The channels of some edges. -/
def channels (hOk : initializeGraph registered c {} = .ok r)
    (hPorts : ∀ d ∈ c.nodes, (d.outputStreams.map portName).Nodup) (links : List (Link c))
    (hFlight : ∀ l ∈ links, env.maxInFlight l.source ≤ 1) :
    List (Channel (Runtime.graph (initialized_of_eq_ok hOk) env) r.initialOutputs) :=
  links.pmap (fun l hOne => l.channel env hOk hOne hPorts) hFlight

variable (hOk : initializeGraph registered c {} = .ok r)
  (hPorts : ∀ d ∈ c.nodes, (d.outputStreams.map portName).Nodup) {first : Link c}
  {rest : List (Link c)}

theorem map_manager_channels (hFlight : ∀ l ∈ rest, env.maxInFlight l.source ≤ 1) :
    (channels env hOk hPorts rest hFlight).map Channel.manager =
      rest.map Link.manager := by
  rw [channels, List.map_pmap]
  exact List.pmap_eq_map hFlight

theorem line_channels (hFirst : env.maxInFlight first.source ≤ 1)
    (hFlight : ∀ l ∈ rest, env.maxInFlight l.source ≤ 1) (hChained : Chained first rest) :
    Line (first.channel env hOk hFirst hPorts) (channels env hOk hPorts rest hFlight) := by
  induction rest generalizing first with
  | nil => trivial
  | cons next rest ih =>
      obtain ⟨⟨hNext, d, hNode, hInputs⟩, hRest⟩ := hChained
      refine ⟨⟨portName first.input, ?_⟩, ih _ _ hRest⟩
      show (r.inputPorts next.source).toList = [(portName first.input, first.stream)]
      rw [hNext]
      exact inputPorts_of_single (initialized_of_eq_ok hOk) first hNode hInputs

theorem stream_getLastD_channels (hFirst : env.maxInFlight first.source ≤ 1)
    (hFlight : ∀ l ∈ rest, env.maxInFlight l.source ≤ 1) :
    ((channels env hOk hPorts rest hFlight).getLastD
      (first.channel env hOk hFirst hPorts)).stream =
        (rest.getLastD first).stream := by
  induction rest generalizing first with
  | nil => rfl
  | cons next rest ih =>
      rw [List.getLastD_cons, channels, List.pmap_cons, List.getLastD_cons]
      exact ih _ _

/-- The source of the first edge writes `produce k` in its call number `k`, and the sources of
the others compute `F`. -/
def scriptedLinks (g : Graph) (outputs : OutId → OutputStreamManager)
    (produce : Nat → List Packet) (F : OutId → List Packet → List Packet) (first : Link c)
    (rest : List (Link c)) : Guard (Recorded Shared Transfer) Frame Choice Call :=
  (answering g outputs (fun _ calls => produce calls.length) [first.manager]).and
    (computing g outputs F (rest.map Link.manager))

/-- What comes out of a line of a config, by the number of calls of its first node. -/
theorem links_scripted {produce : Nat → List Packet} {F : OutId → List Packet → List Packet}
    {callback : Bool} {cfg : Config (Recorded Shared Transfer) Frame}
    (hOk : initializeGraph registered c {} = .ok r)
    (hPorts : ∀ d ∈ c.nodes, (d.outputStreams.map portName).Nodup)
    (hFlight : ∀ l ∈ first :: rest, env.maxInFlight l.source ≤ 1) (hChained : Chained first rest)
    (hReach : (traced (Runtime.graph (initialized_of_eq_ok hOk) env)).Reaches
      (scriptedLinks (Runtime.graph (initialized_of_eq_ok hOk) env) r.initialOutputs produce F
        first rest)
      (started (r.initialState callback)).record cfg) :
    takenFrom (rest.getLastD first).stream cfg.shared.history <+:
      (rest.map Link.manager).foldl
        (fun packets o => Causal.answers (F o) (visible packets))
        (Causal.answers (fun calls => produce calls.length)
          (callsOf cfg.shared.state first.source)) := by
  rw [List.forall_mem_cons] at hFlight
  obtain ⟨hFirst, hRest⟩ := hFlight
  have hManagers := map_manager_channels env hOk hPorts hRest
  have hLine := line_channels env hOk hPorts hFirst hRest hChained
  have hScripted : (traced (Runtime.graph (initialized_of_eq_ok hOk) env)).Reaches
      (scripted _ r.initialOutputs produce F
        (first.channel env hOk hFirst hPorts) (channels env hOk hPorts rest hRest))
      (started (initial r.initialOutputs 0 callback)).record cfg := by
    unfold scripted
    rw [hManagers]
    exact hReach
  have hOut := line_scripted hLine hScripted
  rw [transform_eq_foldl, hManagers] at hOut
  rw [← stream_getLastD_channels env hOk hPorts hFirst hRest]
  exact hOut

end

/-- **Only the streams matter.**  Take two configs that declare the same streams, node by node,
whatever they say of names, types, executors, layers and input handlers; initialize a runtime
from each and run them as you like, with the nodes of a line doing the same in both.  Then of
what has been taken at the end of the line in the two runs, one is the beginning of the other. -/
theorem placement_does_not_show {registered registered' : String → Bool} {c c' : GraphConfig}
    {r r' : Runtime} (produce : Nat → List Packet) (F : OutId → List Packet → List Packet)
    (first : Link c) (rest : List (Link c)) (hChained : Chained first rest)
    (hSame : SameStreams c c') (hOk : initializeGraph registered c {} = .ok r)
    (hOk' : initializeGraph registered' c' {} = .ok r')
    (hPorts : ∀ d ∈ c.nodes, (d.outputStreams.map portName).Nodup) {env env' : Environment}
    (hFlight : ∀ l ∈ first :: rest, env.maxInFlight l.source ≤ 1)
    (hFlight' : ∀ l ∈ first :: rest, env'.maxInFlight l.source ≤ 1) {callback callback' : Bool}
    {cfg cfg' : Config (Recorded Shared Transfer) Frame}
    (hReach : (traced (Runtime.graph (initialized_of_eq_ok hOk) env)).Reaches
      (scriptedLinks (Runtime.graph (initialized_of_eq_ok hOk) env) r.initialOutputs produce F
        first rest)
      (started (r.initialState callback)).record cfg)
    (hReach' : (traced (Runtime.graph (initialized_of_eq_ok hOk') env')).Reaches
      (scriptedLinks (Runtime.graph (initialized_of_eq_ok hOk') env')
        r'.initialOutputs produce F first rest)
      (started (r'.initialState callback')).record cfg') :
    takenFrom (rest.getLastD first).stream cfg.shared.history <+:
        takenFrom (rest.getLastD first).stream cfg'.shared.history ∨
      takenFrom (rest.getLastD first).stream cfg'.shared.history <+:
        takenFrom (rest.getLastD first).stream cfg.shared.history := by
  have hManagers : (rest.map hSame.link).map Link.manager = rest.map Link.manager := by
    rw [List.map_map]
    exact List.map_congr_left fun l _ => hSame.manager_link l
  have hLast : ((rest.map hSame.link).getLastD (hSame.link first)).stream =
      (rest.getLastD first).stream := by
    rw [← hSame.stream_link, List.getLastD_map]
  have hLimits : ∀ l ∈ hSame.link first :: rest.map hSame.link, env'.maxInFlight l.source ≤ 1 := by
    intro l hMem
    obtain ⟨l', hIn, rfl⟩ := List.mem_map.mp (show l ∈ (first :: rest).map hSame.link from hMem)
    exact hFlight' l' hIn
  have hScripted : (traced (Runtime.graph (initialized_of_eq_ok hOk') env')).Reaches
        (scriptedLinks (Runtime.graph (initialized_of_eq_ok hOk') env')
          r'.initialOutputs produce F (hSame.link first) (rest.map hSame.link))
        (started (r'.initialState callback')).record cfg' := by
    unfold scriptedLinks at hReach' ⊢
    rw [hManagers, hSame.manager_link]
    exact hReach'
  have hHere := links_scripted env hOk hPorts hFlight hChained hReach
  have hThere := links_scripted env' hOk' (hSame.ports hPorts) hLimits
    (hSame.chained hChained) hScripted
  rw [hManagers, hLast] at hThere
  rcases Nat.le_total (callsOf cfg.shared.state first.source).length
    (callsOf cfg'.shared.state first.source).length with hLe | hLe
  · exact List.prefix_or_prefix_of_prefix
      (hHere.trans (foldl_answers_mono _ (Causal.answers_length_prefix produce hLe))) hThere
  · exact List.prefix_or_prefix_of_prefix hHere
      (hThere.trans (foldl_answers_mono _ (Causal.answers_length_prefix produce hLe)))

/-- A source, a filter and a sink. -/
def lineConfig : GraphConfig where
  nodes := [{ name := "source", type := "Source", outputStreams := ["out:a"] },
    { name := "filter", type := "Filter", inputStreams := ["in:a"], outputStreams := ["out:b"] },
    { name := "sink", type := "Sink", inputStreams := ["in:b"] }]

/-- The same streams between other nodes, two of which have an executor of their own. -/
def placedConfig : GraphConfig where
  nodes := [{ name := "camera", type := "Camera", outputStreams := ["out:a"], sourceLayer := 1 },
    { name := "scale", type := "Scale", inputStreams := ["in:a"], outputStreams := ["out:b"],
      executor := "io" },
    { name := "screen", type := "Screen", inputStreams := ["in:b"], executor := "io" }]
  executors := [{ name := "" }, { name := "io" }]

theorem initialize_line :
    initializeGraph (fun _ => true) lineConfig {} = .ok (runtimeOf lineConfig) :=
  initialize_runtimeOf (by decide +kernel)

theorem initialize_placed :
    initializeGraph (fun _ => true) placedConfig {} = .ok (runtimeOf placedConfig) :=
  initialize_runtimeOf (by decide +kernel)

/-- The graph of the line. -/
def lineGraph : Graph := Runtime.graph (initialized_of_eq_ok initialize_line) {}

/-- The graph of the other config. -/
def placedGraph : Graph := Runtime.graph (initialized_of_eq_ok initialize_placed) {}

theorem sameStreams_placed : SameStreams lineConfig placedConfig where
  nodes := rfl
  inputs := rfl

theorem produces_filter : Produces lineConfig (streamName "in:a") (.nodeOutput 0 0) := by
  show (lineConfig.nodes[0]?.bind (·.outputStreams[0]?)).map streamName = some (streamName "in:a")
  decide +kernel

theorem only_filter (q : Producer) (hProduces : Produces lineConfig (streamName "in:a") q) :
    q = .nodeOutput 0 0 :=
  producer_eq ⟨by decide +kernel, by decide +kernel, by decide +kernel⟩ produces_filter hProduces

theorem produces_lineEnd : Produces lineConfig (streamName "in:b") (.nodeOutput 1 0) := by
  show (lineConfig.nodes[1]?.bind (·.outputStreams[0]?)).map streamName = some (streamName "in:b")
  decide +kernel

theorem only_lineEnd (q : Producer) (hProduces : Produces lineConfig (streamName "in:b") q) :
    q = .nodeOutput 1 0 :=
  producer_eq ⟨by decide +kernel, by decide +kernel, by decide +kernel⟩ produces_lineEnd hProduces

/-- From the source to the filter. -/
def lineStart : Link lineConfig where
  source := 0
  output := 0
  node := 1
  index := 0
  input := "in:a"
  edge := rfl
  produces := produces_filter
  only := only_filter

/-- From the filter to the sink. -/
def lineEnd : Link lineConfig where
  source := 1
  output := 0
  node := 2
  index := 0
  input := "in:b"
  edge := rfl
  produces := produces_lineEnd
  only := only_lineEnd

theorem chained_line : Chained lineStart [lineEnd] := ⟨⟨rfl, _, rfl, rfl⟩, trivial⟩

/-- The filter and the sink are called on threads of their executor, and the source stops with
its second packet. -/
def placedRun : List (Action Choice Call) :=
  runs 0 23 .ok ++ calls (.worker 0) 1 4 .ok ++ runs 1 1 (writesPacket 1 1) ++ runs 1 25 .ok ++
    calls (.worker 1) 2 5 .ok ++ runs 2 1 (writesPacket 11 1) ++ runs 2 25 .ok ++
    calls (.worker 1) 3 2 .ok ++ calls (.worker 0) 4 4 .ok ++
    runs 4 1 (.returns Status.statusStop [("out", .addPacket ⟨some 2, Timestamp.ofValue 2⟩)]) ++
    runs 4 30 .ok

/-- These packets have come out of the line. -/
def lineDelivers (packets : List Packet) (cfg : Config (Recorded Shared Transfer) Frame) : Bool :=
  decide (takenFrom lineEnd.stream cfg.shared.history = packets)

/-- The sink's packet is the same in both runs, in the second of which the source has closed. -/
theorem placement_does_not_show_line :
    ∃ cfg cfg' : Config (Recorded Shared Transfer) Frame,
      (traced lineGraph).Reaches
        (scriptedLinks lineGraph (runtimeOf lineConfig).initialOutputs counts addsTen lineStart
          [lineEnd])
        (started ((runtimeOf lineConfig).initialState false)).record cfg ∧
      (traced placedGraph).Reaches
        (scriptedLinks placedGraph (runtimeOf placedConfig).initialOutputs counts addsTen lineStart
          [lineEnd])
        (started ((runtimeOf placedConfig).initialState false)).record cfg' ∧
      takenFrom lineEnd.stream cfg.shared.history = [tens 1 1] ∧
      (cfg'.shared.state.net.outputs lineStart.manager).closed = true ∧
      takenFrom lineEnd.stream cfg'.shared.history = [tens 1 1] ∧
      (takenFrom lineEnd.stream cfg.shared.history <+:
          takenFrom lineEnd.stream cfg'.shared.history ∨
        takenFrom lineEnd.stream cfg'.shared.history <+:
          takenFrom lineEnd.stream cfg.shared.history) := by
  obtain ⟨cfg, hReach, hTest⟩ := (traced lineGraph).exists_reaches
    (scriptedLinks lineGraph (runtimeOf lineConfig).initialOutputs counts addsTen lineStart
      [lineEnd])
    (started ((runtimeOf lineConfig).initialState false)).record shortRun
    (lineDelivers [tens 1 1]) (by decide +kernel)
  obtain ⟨cfg', hReach', hTest'⟩ := (traced placedGraph).exists_reaches
    (scriptedLinks placedGraph (runtimeOf placedConfig).initialOutputs counts addsTen lineStart
      [lineEnd])
    (started ((runtimeOf placedConfig).initialState false)).record placedRun
    (fun cfg => (cfg.shared.state.net.outputs lineStart.manager).closed &&
      lineDelivers [tens 1 1] cfg) (by decide +kernel)
  obtain ⟨hClosed, hPackets⟩ := Bool.and_eq_true_iff.mp hTest'
  exact ⟨cfg, cfg', hReach, hReach', of_decide_eq_true hTest, hClosed, of_decide_eq_true hPackets,
    placement_does_not_show counts addsTen lineStart [lineEnd] chained_line sameStreams_placed
      initialize_line initialize_placed (by decide +kernel)
      (fun _ _ => Int.le_refl 1) (fun _ _ => Int.le_refl 1) hReach hReach'⟩

end GraphRuntime.Public
