import Mathlib.Data.List.Nodup
import GraphRuntime.Config.StreamName
import GraphRuntime.Public.Types

/-!
# Graph configurations

`GraphConfig` as graph_config.h declares it, less what neither the validator
nor the wiring reads: node options, side packets, executor types and thread
counts, the queue size and the profiler's settings.

An *edge* is one entry of one node's `input_streams`.  `Produces` is the
relation the wiring of `GraphRuntime::Initialize` goes by: the stream part of
an entry against the stream part of a node output, and against a graph input
as it is written.  A graph input that is listed twice is still one graph
input, as it is for `graph_input_streams_set_` and `graph_input_outputs_`.
-/

namespace GraphRuntime.Config

structure NodeDef where
  name : String
  type : String
  inputStreams : List String := []
  outputStreams : List String := []
  executor : String := ""
  inputStreamHandler : String := ""
  maxInFlight : Int := 1
  sourceLayer : Int := 0
deriving DecidableEq

structure ExecutorDef where
  name : String
deriving DecidableEq

structure GraphConfig where
  nodes : List NodeDef := []
  executors : List ExecutorDef := []
  inputStreams : List String := []
  outputStreams : List String := []
deriving DecidableEq

namespace GraphConfig

/-- Entry `i` of node `n`'s `input_streams`. -/
def edge (c : GraphConfig) (n i : Nat) : Option String :=
  c.nodes[n]?.bind (·.inputStreams[i]?)

/-- The stream part of every output a node declares. -/
def nodeOutputs (c : GraphConfig) : List String :=
  c.nodes.flatMap (·.outputStreams.map streamName)

end GraphConfig

/-- What a stream can come from: output `k` of node `n`, or a graph input. -/
inductive Producer
  | nodeOutput (n k : Nat)
  | graphInput (stream : String)
deriving DecidableEq

/-- `p` is declared as a producer of stream `s`. -/
def Produces (c : GraphConfig) (s : String) : Producer → Prop
  | .nodeOutput n k =>
      (c.nodes[n]?.bind (·.outputStreams[k]?)).map streamName = some s
  | .graphInput stream => stream = s ∧ stream ∈ c.inputStreams

variable {c : GraphConfig} {s : String}

theorem edge_eq_some {n i : Nat} {input : String} :
    c.edge n i = some input ↔
      ∃ d, c.nodes[n]? = some d ∧ d.inputStreams[i]? = some input := by
  simp [GraphConfig.edge, Option.bind_eq_some_iff]

theorem produces_nodeOutput {n k : Nat} :
    Produces c s (.nodeOutput n k) ↔
      ∃ d out, c.nodes[n]? = some d ∧ d.outputStreams[k]? = some out ∧
        streamName out = s := by
  simp only [Produces, Option.map_eq_some_iff, Option.bind_eq_some_iff]
  constructor
  · rintro ⟨out, ⟨d, hNode, hOut⟩, hName⟩
    exact ⟨d, out, hNode, hOut, hName⟩
  · rintro ⟨d, out, hNode, hOut, hName⟩
    exact ⟨out, ⟨d, hNode, hOut⟩, hName⟩

theorem mem_nodeOutputs :
    s ∈ c.nodeOutputs ↔ ∃ n k, Produces c s (.nodeOutput n k) := by
  simp only [produces_nodeOutput, GraphConfig.nodeOutputs, List.mem_flatMap,
    List.mem_map]
  constructor
  · rintro ⟨d, hNode, out, hOut, hName⟩
    obtain ⟨n, hNode⟩ := List.mem_iff_getElem?.mp hNode
    obtain ⟨k, hOut⟩ := List.mem_iff_getElem?.mp hOut
    exact ⟨n, k, d, out, hNode, hOut, hName⟩
  · rintro ⟨n, k, d, out, hNode, hOut, hName⟩
    exact ⟨d, List.mem_of_getElem? hNode, out, List.mem_of_getElem? hOut, hName⟩

end GraphRuntime.Config
