import GraphRuntime.Profiler.Number

/-!
# Writing a profile

`WriteProfile` writes the records of the nodes, the configuration and the time
of the capture as one JSON object.  A literal such as `"    \"node_name\": "`
is `jsonKey 4 "node_name"` here.  The counts of a record that the source keeps
in 64 or 32 bits are integers: nothing is computed with them on the way out.
Left out is the file itself: the text is what a successful call leaves in it.
-/

namespace GraphRuntime.Profiler

/-- `ProfilerConfig`, with its defaults. -/
structure ProfilerConfig where
  enableProfiler : Bool := false
  histogramIntervalSizeUsec : Int := 1000000
  numHistogramIntervals : Int := 5
  traceLogPath : String := ""

/-- `ProfileWriterNodeData`: the record of one node. -/
structure ProfileWriterNodeData where
  nodeName : String
  openRuntimeUsec : Int := 0
  closeRuntimeUsec : Int := 0
  processCount : Int := 0
  processTimeTotalUsec : Int := 0
  processTimeMeanUsec : Double
  histogramIntervalSizeUsec : Int := 0
  histogramNumIntervals : Int := 0
  histogramBuckets : List Int := []

/-- The `switch` of `WriteJsonString`. -/
def escape (c : Char) : List Char :=
  if c = '"' then ['\\', '"']
  else if c = '\\' then ['\\', '\\']
  else if c = '\n' then ['\\', 'n']
  else if c = '\r' then ['\\', 'r']
  else if c = '\t' then ['\\', 't']
  else [c]

/-- `WriteJsonString`: the string in quotes, with escapes. -/
def writeJsonString (s : String) : List Char :=
  '"' :: (s.toList.flatMap escape ++ ['"'])

/-- A member's name with the blanks in front of it. -/
def jsonKey (indent : Nat) (key : String) : List Char :=
  List.replicate indent ' ' ++ '"' :: (key.toList ++ ['"', ':', ' '])

/-- `WriteProfilerConfigJson`. -/
def writeProfilerConfigJson (config : ProfilerConfig) : List Char :=
  "\x7b\n".toList ++
  jsonKey 4 "enable_profiler" ++
    (if config.enableProfiler then "true".toList else "false".toList) ++ ",\n".toList ++
  jsonKey 4 "histogram_interval_size_usec" ++
    writeInt config.histogramIntervalSizeUsec ++ ",\n".toList ++
  jsonKey 4 "num_histogram_intervals" ++
    writeInt config.numHistogramIntervals ++ ",\n".toList ++
  jsonKey 4 "trace_log_path" ++ writeJsonString config.traceLogPath ++ "\n  \x7d".toList

/-- The buckets, separated by commas. -/
def writeBuckets : List Int → List Char
  | [] => []
  | [bucket] => writeInt bucket
  | bucket :: rest => writeInt bucket ++ ", ".toList ++ writeBuckets rest

/-- `WriteNodeDataJson`. -/
def writeNodeDataJson (node : ProfileWriterNodeData) : List Char :=
  "  \x7b\n".toList ++
  jsonKey 4 "node_name" ++ writeJsonString node.nodeName ++ ",\n".toList ++
  jsonKey 4 "open_runtime_usec" ++ writeInt node.openRuntimeUsec ++ ",\n".toList ++
  jsonKey 4 "close_runtime_usec" ++ writeInt node.closeRuntimeUsec ++ ",\n".toList ++
  jsonKey 4 "process_count" ++ writeInt node.processCount ++ ",\n".toList ++
  jsonKey 4 "process_time_total_usec" ++ writeInt node.processTimeTotalUsec ++
    ",\n".toList ++
  jsonKey 4 "process_time_mean_usec" ++ node.processTimeMeanUsec.text ++ ",\n".toList ++
  jsonKey 4 "process_runtime" ++ "\x7b\n".toList ++
  jsonKey 6 "interval_size_usec" ++ writeInt node.histogramIntervalSizeUsec ++
    ",\n".toList ++
  jsonKey 6 "num_intervals" ++ writeInt node.histogramNumIntervals ++ ",\n".toList ++
  jsonKey 6 "count" ++ writeInt node.processCount ++ ",\n".toList ++
  jsonKey 6 "total_usec" ++ writeInt node.processTimeTotalUsec ++ ",\n".toList ++
  jsonKey 6 "buckets" ++ '[' :: writeBuckets node.histogramBuckets ++
    "]\n    \x7d\n  \x7d".toList

/-- The records, separated by commas. -/
def writeNodes : List ProfileWriterNodeData → List Char
  | [] => []
  | [node] => writeNodeDataJson node
  | node :: rest => writeNodeDataJson node ++ ",\n".toList ++ writeNodes rest

/-- `WriteProfile`, at the time `captureTime`. -/
def writeProfile (captureTime : String) (config : ProfilerConfig)
    (nodes : List ProfileWriterNodeData) : List Char :=
  "\x7b\n".toList ++
  jsonKey 2 "capture_time" ++ writeJsonString captureTime ++ ",\n".toList ++
  jsonKey 2 "node_count" ++ digits nodes.length ++ ",\n".toList ++
  jsonKey 2 "profiler_config" ++ writeProfilerConfigJson config ++ ",\n".toList ++
  jsonKey 2 "nodes" ++ "[\n".toList ++ writeNodes nodes ++ "\n  ]\n".toList ++
  "\x7d\n".toList

end GraphRuntime.Profiler
