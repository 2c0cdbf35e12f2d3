import GraphRuntime.Config.ConfigValidator
import GraphRuntime.Lib.Transition
import GraphRuntime.Stream.OutputStreamManager

/-!
# `GraphRuntime::Initialize`

`Runtime` is what `Initialize` sets up: the nodes `GraphBuilder::Build` makes,
the managers and handlers the runtime owns, the maps of the nodes' ports, and
the bookkeeping of the graph inputs.  An object's identifier is its position in
the vector that owns it, so objects are numbered in the order they are made.

`Initialize` runs seven loops over the nodes' definitions; each is a fold of
the function that carries its name here.  Every loop finds the node of a
definition by name (`FindNode`).  The maps are ordered maps, and where two
entries have one key the later one wins: two inputs of a node with one port
name (`input_ports_`), two outputs with one stream name (`output_by_stream`).

Left out are the node options of `Options::Apply`, the profiler, the
backpressure callbacks and the output stream callbacks.  Executors are created
without failing.
-/

namespace GraphRuntime.Public

open GraphRuntime.Config GraphRuntime.Stream

/-- `std::map<std::string, T>`. -/
abbrev NameMap (β : Type) := Std.TreeMap String β

/-- A node object, as far as `Initialize` reads it. -/
structure Node where
  name : String
  executorName : String
  sourceLayer : Int
deriving DecidableEq

/-- An `InputStreamManager` with the node its arrival callback schedules. -/
structure EdgeManager where
  name : String
  arrivalNode : Option NodeId := none
deriving DecidableEq

/-- What `CreateInputStreamHandler` makes of a handler's name. -/
inductive HandlerKind
  | immediate
  | fixedSize (maxQueueSize : Int)
  | default
deriving DecidableEq

/-- An `InputStreamHandler` with its managers. -/
structure InputStreamHandler where
  kind : HandlerKind
  managers : List StreamId
deriving DecidableEq

/-- What a `GraphRuntime` owns. -/
structure Runtime where
  /-- The scheduler's queues after the default one, by executor name. -/
  nonDefaultQueues : List String := []
  hasDefaultExecutor : Bool := false
  allNodes : List Node := []
  /-- `Node::input_ports_`. -/
  inputPorts : NodeId → NameMap StreamId := fun _ => ∅
  /-- `Node::input_stream_handler_`. -/
  inputStreamHandler : NodeId → Option HandlerId := fun _ => none
  /-- `Node::output_stream_handler_`. -/
  outputStreamHandler : NodeId → Option HandlerId := fun _ => none
  ownedStreamManagers : List EdgeManager := []
  ownedOutputStreamManagers : List OutputStreamManager := []
  ownedOutputStreamHandlers : List (List OutId) := []
  ownedInputStreamHandlers : List InputStreamHandler := []
  graphInputStreamsSet : List String := []
  numOpenInputStreams : Nat := 0
  /-- What the scheduler was told by `SetTotalGraphInputStreams`. -/
  totalGraphInputStreams : Nat := 0
  graphInputOutputs : NameMap OutId := ∅

/-! ## `GraphBuilder::Build` -/

/-- The node `Build` makes of a definition. -/
def Node.ofDef (d : NodeDef) : Node := ⟨d.name, d.executor, d.sourceLayer⟩

/-- The executors of a config: an unnamed one is the default queue's, and a
config without any gets a default one. -/
def Runtime.addExecutor (r : Runtime) (e : ExecutorDef) : Runtime :=
  if e.name.isEmpty then { r with hasDefaultExecutor := true }
  else { r with nonDefaultQueues := r.nonDefaultQueues ++ [e.name] }

/-- The executors `Build` gives the scheduler. -/
def createExecutors (c : GraphConfig) (r : Runtime) : Runtime :=
  let r := c.executors.foldl Runtime.addExecutor r
  if c.executors.isEmpty then { r with hasDefaultExecutor := true } else r

/-- The nodes in the order of the config, up to a type nobody has registered. -/
def createNodes (registered : String → Bool) :
    List NodeDef → List Node → Except Status (List Node)
  | [], nodes => .ok nodes
  | d :: rest, nodes =>
      if registered d.type then
        createNodes registered rest (nodes ++ [Node.ofDef d])
      else .error ⟨.notFound, "Node type not registered: " ++ d.type ++
        " (node '" ++ d.name ++ "')"⟩

/-- `GraphBuilder::Build`: a fresh runtime with its scheduler and its nodes. -/
def build (registered : String → Bool) (c : GraphConfig) :
    Except Status Runtime :=
  let validationStatus := validate c
  if !validationStatus.isOk then .error validationStatus
  else
    (createNodes registered c.nodes []).map fun nodes =>
      { createExecutors c {} with allNodes := nodes }

namespace Runtime

/-- `FindNode`: the first node with the name. -/
def findNode (r : Runtime) (name : String) : Option NodeId :=
  r.allNodes.findIdx? (·.name == name)

/-! ## The managers of the input edges -/

/-- The body of the loop over one node's `input_streams`. -/
def addInputManager (n : NodeId) (p : Runtime × List StreamId)
    (inputStream : String) : Runtime × List StreamId :=
  let raw := p.1.ownedStreamManagers.length
  ({ p.1 with
      ownedStreamManagers := p.1.ownedStreamManagers ++ [{ name := inputStream }]
      inputPorts := Function.update p.1.inputPorts n
        ((p.1.inputPorts n).insert (portName inputStream) raw) },
    p.2 ++ [raw])

/-- The second component is `node_input_managers`. -/
def createInputManagers (p : Runtime × NameMap (List StreamId)) (d : NodeDef) :
    Runtime × NameMap (List StreamId) :=
  match p.1.findNode d.name with
  | none => p
  | some n =>
      let made := d.inputStreams.foldl (addInputManager n)
        (p.1, p.2.getD d.name [])
      (made.1, p.2.insert d.name made.2)

/-! ## The graph inputs' count -/

/-- The body of the loop over the config's `input_streams`. -/
def countGraphInput (r : Runtime) (inputStream : String) : Runtime :=
  if inputStream ∈ r.graphInputStreamsSet then r
  else
    { r with
      graphInputStreamsSet := inputStream :: r.graphInputStreamsSet
      numOpenInputStreams := r.numOpenInputStreams + 1 }

/-! ## The managers of the node outputs -/

/-- The managers of one node's outputs, with their handler. -/
def createOutputManagers (r : Runtime) (d : NodeDef) : Runtime :=
  if d.outputStreams.isEmpty then r
  else
    match r.findNode d.name with
    | none => r
    | some n =>
        let managers := List.range' r.ownedOutputStreamManagers.length
          d.outputStreams.length
        { r with
          ownedOutputStreamManagers := r.ownedOutputStreamManagers ++
            d.outputStreams.map fun name => { spec := { name } }
          ownedOutputStreamHandlers :=
            r.ownedOutputStreamHandlers ++ [managers]
          outputStreamHandler := Function.update r.outputStreamHandler n
            (some r.ownedOutputStreamHandlers.length) }

/-! ## Arrival callbacks and input stream handlers -/

/-- The callback of one manager. -/
def setArrivalCallback (n : NodeId) (r : Runtime) (mgr : StreamId) : Runtime :=
  { r with
    ownedStreamManagers := r.ownedStreamManagers.modify mgr
      ({ · with arrivalNode := some n }) }

/-- The callbacks of one node's managers. -/
def setArrivalCallbacks (nodeInputManagers : NameMap (List StreamId))
    (r : Runtime) (d : NodeDef) : Runtime :=
  match r.findNode d.name, nodeInputManagers[d.name]? with
  | some n, some managers => managers.foldl (setArrivalCallback n) r
  | _, _ => r

/-- `CreateInputStreamHandler`. -/
def createInputStreamHandler (name : String) (maxQueueSize : Int) : HandlerKind :=
  if name = "immediate" then .immediate
  else if name = "fixed_size" then .fixedSize maxQueueSize
  else .default

/-- The input stream handler of one node. -/
def createInputHandler (nodeInputManagers : NameMap (List StreamId))
    (r : Runtime) (d : NodeDef) : Runtime :=
  if d.inputStreams.isEmpty then r
  else
    match r.findNode d.name, nodeInputManagers[d.name]? with
    | some n, some managers =>
        if managers.isEmpty then r
        else
          { r with
            ownedInputStreamHandlers := r.ownedInputStreamHandlers ++
              [⟨createInputStreamHandler d.inputStreamHandler d.maxInFlight,
                managers⟩]
            inputStreamHandler := Function.update r.inputStreamHandler n
              (some r.ownedInputStreamHandlers.length) }
    | _, _ => r

/-! ## The mirrors -/

/-- `node->GetOutputStreamHandler()->managers()`. -/
def outputManagers (r : Runtime) (n : NodeId) : List OutId :=
  ((r.outputStreamHandler n).bind (r.ownedOutputStreamHandlers[·]?)).getD []

/-- The node outputs' part of `output_by_stream`. -/
def collectOutputs (r : Runtime) (outputByStream : NameMap OutId)
    (d : NodeDef) : NameMap OutId :=
  match r.findNode d.name with
  | none => outputByStream
  | some n =>
      (d.outputStreams.zip (r.outputManagers n)).foldl
        (fun map p => map.insert (streamName p.1) p.2) outputByStream

/-- A virtual output manager for a graph input. -/
def createGraphInput (p : Runtime × NameMap OutId) (stream : String) :
    Runtime × NameMap OutId :=
  let raw := p.1.ownedOutputStreamManagers.length
  ({ p.1 with
      ownedOutputStreamManagers := p.1.ownedOutputStreamManagers ++
        [{ spec := { name := stream } }]
      graphInputOutputs := p.1.graphInputOutputs.insert stream raw },
    p.2.insert stream raw)

/-- `OutputStreamManager::AddMirror`. -/
def addMirror (r : Runtime) (o : OutId) (mirror : Mirror) : Runtime :=
  { r with
    ownedOutputStreamManagers := r.ownedOutputStreamManagers.modify o
      fun m => { m with mirrors := m.mirrors ++ [mirror] } }

/-- The wiring of one edge. -/
def wireInput (outputByStream : NameMap OutId) (handler : HandlerId)
    (r : Runtime) (input : String × Nat) : Runtime :=
  match outputByStream[streamName input.1]? with
  | none => r
  | some o => r.addMirror o ⟨some handler, input.2⟩

/-- The wiring of one node's edges. -/
def wireInputs (outputByStream : NameMap OutId) (r : Runtime) (d : NodeDef) :
    Runtime :=
  if d.inputStreams.isEmpty then r
  else
    match (r.findNode d.name).bind r.inputStreamHandler with
    | none => r
    | some handler =>
        d.inputStreams.zipIdx.foldl (wireInput outputByStream handler) r

/-! ## The whole function -/

/-- What `Initialize` does with the nodes and the scheduler it has been built,
`built`, on top of what the runtime owns already. -/
def wire (c : GraphConfig) (r built : Runtime) : Runtime :=
  let r := { r with
    nonDefaultQueues := built.nonDefaultQueues
    hasDefaultExecutor := built.hasDefaultExecutor
    allNodes := built.allNodes
    inputPorts := fun _ => ∅
    inputStreamHandler := fun _ => none
    outputStreamHandler := fun _ => none }
  let made := c.nodes.foldl createInputManagers (r, ∅)
  let r := c.inputStreams.foldl countGraphInput made.1
  let r := { r with totalGraphInputStreams := r.numOpenInputStreams }
  let r := c.nodes.foldl createOutputManagers r
  let r := c.nodes.foldl (setArrivalCallbacks made.2) r
  let r := c.nodes.foldl (createInputHandler made.2) r
  let outputByStream := c.nodes.foldl r.collectOutputs ∅
  let inputs := c.inputStreams.foldl createGraphInput (r, outputByStream)
  c.nodes.foldl (wireInputs inputs.2) inputs.1

end Runtime

/-- `GraphRuntime::Initialize` on a runtime in state `r`. -/
def initializeGraph (registered : String → Bool) (c : GraphConfig) (r : Runtime) :
    Except Status Runtime :=
  (build registered c).map (r.wire c)

/-- `managers_` of every input stream handler. -/
def Runtime.routes (r : Runtime) : Routes :=
  fun h => ((r.ownedInputStreamHandlers[h]?).map (·.managers)).getD []

/-- The mirrors of an output manager. -/
def Runtime.mirrors (r : Runtime) (o : OutId) : List Mirror :=
  ((r.ownedOutputStreamManagers[o]?).map (·.mirrors)).getD []

end GraphRuntime.Public
