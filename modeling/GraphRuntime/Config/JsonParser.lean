import GraphRuntime.Config.ConfigValidator
import GraphRuntime.Config.JsonLibrary

/-!
# `JsonParser::ParseFromString`

`ParseJsonText` reads a config off the JSON value of its text and hands it to the
validator; `JsonLibrary` makes that value and reads it.  Only the parse of the text is
inside a `try`, and only its `parse_error` is caught: whatever else the library throws
leaves the function.

An integer field is what the library's `get` makes of the member.  No line of the
parser looks at the result, and neither does the validator.
-/

namespace GraphRuntime.Config

open GraphRuntime.Stream GraphRuntime.Profiler

/-- What ends a parse: a status returned, or an exception that is not caught. -/
inductive ParseFailure
  | status (s : Status)
  | thrown (e : JsonException)

/-- A call of the library. -/
def thrown {α : Type} (e : Except JsonException α) : Except ParseFailure α :=
  e.mapError .thrown

/-! ## The config that is read -/

/-- A value of `NodeOptions`. -/
inductive OptionValue
  | string (s : String)
  | bool (b : Bool)
  | int (n : Int)
  | double (x : FiniteDouble)

/-- `GraphConfig::NodeDef` with the fields the validator does not read. -/
structure ParsedNode extends NodeDef where
  inputSidePackets : List String := []
  outputSidePackets : List String := []
  options : List (String × OptionValue) := []

structure ParsedExecutor extends ExecutorDef where
  type : String
  numThreads : Int

structure ParsedConfig where
  maxQueueSize : Int
  reportDeadlock : Bool
  profilerConfig : ProfilerConfig := {}
  inputStreams : List String
  outputStreams : List String
  executors : List ParsedExecutor
  nodes : List ParsedNode

/-- The part of a config that is validated and wired. -/
def ParsedConfig.graphConfig (c : ParsedConfig) : GraphConfig where
  nodes := c.nodes.map (·.toNodeDef)
  executors := c.executors.map (·.toExecutorDef)
  inputStreams := c.inputStreams
  outputStreams := c.outputStreams

/-! ## `ParseJsonText` -/

section

variable (lib : JsonLibrary)

/-- `value`, for a `get` of the type of the default. -/
def JsonLibrary.read {α : Type} (get : Json → Except JsonException α) (j : Json) (key : String)
    (defaultValue : α) : Except ParseFailure α :=
  thrown (lib.value get j key defaultValue)

/-- One pass of the loop of `ParseNodeOptions`. -/
def parseNodeOption (nodeName : String) (key : String) (v : Json) :
    Except ParseFailure (String × OptionValue) :=
  if v.isString then thrown ((lib.getString v).map fun s => (key, .string s))
  else if v.isBoolean then thrown ((lib.getBool v).map fun b => (key, .bool b))
  else if lib.isNumberInteger v then thrown ((lib.getInt v).map fun n => (key, .int n))
  else if lib.isNumberFloat v then thrown ((lib.getDouble v).map fun x => (key, .double x))
  else .error (.status (invalidArgumentError ("node '" ++ nodeName ++ "': option '" ++ key ++
      "' has an unsupported JSON value type (must be scalar)")))

def parseOptions (nodeName : String) (nj : Json) :
    Except ParseFailure (List (String × OptionValue)) :=
  match nj.find "options" with
  | none => .ok []
  | some (.object members) => members.mapM fun m => parseNodeOption lib nodeName m.1 m.2
  | some _ => .error (.status (invalidArgumentError
      ("node '" ++ nodeName ++ "': 'options' must be a JSON object")))

/-- A check that returns an error from the function. -/
def reject (condition : Bool) (message : String) : Except ParseFailure Unit :=
  if condition then .error (.status (invalidArgumentError message)) else .ok ()

def parseNode (nj : Json) : Except ParseFailure ParsedNode := do
  let name ← lib.read lib.getString nj "name" ""
  reject name.isEmpty "node name is required"
  let type ← lib.read lib.getString nj "type" ""
  reject type.isEmpty ("node '" ++ name ++ "': type is required")
  let inputStreams ← lib.read lib.getStrings nj "input_streams" []
  let outputStreams ← lib.read lib.getStrings nj "output_streams" []
  let inputSidePackets ← lib.read lib.getStrings nj "input_side_packets" []
  let outputSidePackets ← lib.read lib.getStrings nj "output_side_packets" []
  let executor ← lib.read lib.getString nj "executor" ""
  let inputStreamHandler ← lib.read lib.getString nj "input_stream_handler" ""
  let maxInFlight ← lib.read lib.getInt nj "max_in_flight" 1
  let sourceLayer ← lib.read lib.getInt nj "source_layer" 0
  let options ← parseOptions lib name nj
  return { name, type, inputStreams, outputStreams, inputSidePackets, outputSidePackets,
           executor, inputStreamHandler, maxInFlight, sourceLayer, options }

def parseExecutor (ej : Json) : Except ParseFailure ParsedExecutor := do
  let name ← lib.read lib.getString ej "name" ""
  let type ← lib.read lib.getString ej "type" "ThreadPoolExecutor"
  let numThreads ← lib.read lib.getInt ej "num_threads" 0
  return { name, type, numThreads }

/-- The section `profiler_config`. -/
def parseProfilerConfig (pc : Json) : Except ParseFailure ProfilerConfig := do
  let enableProfiler ← lib.read lib.getBool pc "enable_profiler" false
  let histogramIntervalSizeUsec ←
    lib.read lib.getLongLong pc "histogram_interval_size_usec" 1000000
  let numHistogramIntervals ← lib.read lib.getInt pc "num_histogram_intervals" 5
  let traceLogPath ← lib.read lib.getString pc "trace_log_path" ""
  return { enableProfiler, histogramIntervalSizeUsec, numHistogramIntervals, traceLogPath }

/-- `if (root.contains(key))`, with the default otherwise. -/
def parseSection {α : Type} (parse : Json → Except ParseFailure α) (defaultValue : α)
    (root : Json) (key : String) : Except ParseFailure α :=
  match root.find key with
  | none => .ok defaultValue
  | some section_ => parse section_

/-- The loop over the elements of `executors`. -/
def parseExecutors (ejs : Json) : Except ParseFailure (List ParsedExecutor) :=
  (lib.elements ejs).mapM (parseExecutor lib)

/-- The loop over the elements of `nodes`. -/
def parseNodes (njs : Json) : Except ParseFailure (List ParsedNode) :=
  (lib.elements njs).mapM (parseNode lib)

def parseRoot (root : Json) : Except ParseFailure ParsedConfig := do
  let maxQueueSize ← lib.read lib.getInt root "max_queue_size" 100
  let reportDeadlock ← lib.read lib.getBool root "report_deadlock" false
  let profilerConfig ← parseSection (parseProfilerConfig lib) {} root "profiler_config"
  let inputStreams ← lib.read lib.getStrings root "input_streams" []
  let outputStreams ← lib.read lib.getStrings root "output_streams" []
  let executors ← parseSection (parseExecutors lib) [] root "executors"
  let nodes ← parseSection (parseNodes lib) [] root "nodes"
  return { maxQueueSize, reportDeadlock, profilerConfig, inputStreams, outputStreams,
           executors, nodes }

/-- `ParseJsonText`; a failed parse of the text is `e.what()`. -/
def parseJsonText (jsonText sourceName : String) : Except ParseFailure ParsedConfig :=
  match lib.parse jsonText with
  | .error (.parseError what) => .error (.status (invalidArgumentError
      (sourceName ++ ": JSON parse error: " ++ what)))
  | .error e => .error (.thrown e)
  | .ok root => do
      let config ← parseRoot lib root
      if (validate config.graphConfig).isOk then return config
      else .error (.status (validate config.graphConfig))

def parseFromString (jsonText : String) : Except ParseFailure ParsedConfig :=
  parseJsonText lib jsonText "<json_string>"

end

/-! ## What is read of an accepted text -/

theorem bind_eq_ok {ε α β : Type} {e : Except ε α} {f : α → Except ε β} {b : β} :
    e.bind f = .ok b ↔ ∃ a, e = .ok a ∧ f a = .ok b := by
  cases e <;> simp [Except.bind]

section

variable {lib : JsonLibrary}

/-- What is returned of a call of the library. -/
theorem thrown_eq_ok {α : Type} {e : Except JsonException α} {a : α} :
    thrown e = .ok a ↔ e = .ok a := by
  cases e <;> simp [thrown, Except.mapError]

/-- An accepted text is parsed, read and valid. -/
theorem parseRoot_of_accepted {jsonText : String} {config : ParsedConfig}
    (hAccepted : parseFromString lib jsonText = .ok config) :
    ∃ root, lib.parse jsonText = .ok root ∧ parseRoot lib root = .ok config ∧
      (validate config.graphConfig).isOk = true := by
  unfold parseFromString parseJsonText at hAccepted
  split at hAccepted
  next => exact absurd hAccepted (by simp)
  next => exact absurd hAccepted (by simp)
  next root hParse =>
    obtain ⟨c, hRoot, hRest⟩ := bind_eq_ok.mp hAccepted
    split at hRest
    next hValid =>
      obtain rfl := Except.ok.inj hRest
      exact ⟨root, hParse, hRoot, hValid⟩
    next => exact absurd hRest (by simp)

/-- A member that is there is what `value` converts. -/
theorem get_of_value {α : Type} {get : Json → Except JsonException α} {defaultValue a : α}
    {j v : Json} {key : String} (hLib : lib.Documented)
    (hValue : lib.value get j key defaultValue = .ok a)
    (hFind : j.find key = some v) : get v = .ok a := by
  cases j with
  | object members =>
      have hLookup : members.lookup key = some v := hFind
      rw [hLib.value_object, hLookup] at hValue
      exact hValue
  | _ => exact absurd hFind (by simp [Json.find])

/-- A section that is there is parsed. -/
theorem section_ok {α : Type} {parse : Json → Except ParseFailure α} {defaultValue a : α}
    {root j : Json} {key : String} (hParse : parseSection parse defaultValue root key = .ok a)
    (hFind : root.find key = some j) : parse j = .ok a := by
  rw [parseSection, hFind] at hParse
  exact hParse

/-- What is read of a document into the numbers and the sections of a config. -/
structure ReadFrom (lib : JsonLibrary) (root : Json) (config : ParsedConfig) : Prop where
  maxQueueSize : lib.value lib.getInt root "max_queue_size" 100 = .ok config.maxQueueSize
  profilerConfig : parseSection (parseProfilerConfig lib) {} root "profiler_config" =
    .ok config.profilerConfig
  executors : parseSection (parseExecutors lib) [] root "executors" = .ok config.executors
  nodes : parseSection (parseNodes lib) [] root "nodes" = .ok config.nodes

theorem readFrom_of_parseRoot {root : Json} {config : ParsedConfig}
    (hRoot : parseRoot lib root = .ok config) : ReadFrom lib root config := by
  obtain ⟨maxQueueSize, hSize, hRoot⟩ := bind_eq_ok.mp hRoot
  obtain ⟨reportDeadlock, -, hRoot⟩ := bind_eq_ok.mp hRoot
  obtain ⟨profilerConfig, hProfiler, hRoot⟩ := bind_eq_ok.mp hRoot
  obtain ⟨inputStreams, -, hRoot⟩ := bind_eq_ok.mp hRoot
  obtain ⟨outputStreams, -, hRoot⟩ := bind_eq_ok.mp hRoot
  obtain ⟨executors, hExecutors, hRoot⟩ := bind_eq_ok.mp hRoot
  obtain ⟨nodes, hNodes, hRoot⟩ := bind_eq_ok.mp hRoot
  cases hRoot
  exact ⟨thrown_eq_ok.mp hSize, hProfiler, hExecutors, hNodes⟩

/-- What is read of the profiler's section into its two numbers. -/
theorem numbers_of_parseProfilerConfig {pc : Json} {config : ProfilerConfig}
    (hParse : parseProfilerConfig lib pc = .ok config) :
    lib.value lib.getLongLong pc "histogram_interval_size_usec" 1000000 =
        .ok config.histogramIntervalSizeUsec ∧
      lib.value lib.getInt pc "num_histogram_intervals" 5 =
        .ok config.numHistogramIntervals := by
  obtain ⟨enableProfiler, -, hParse⟩ := bind_eq_ok.mp hParse
  obtain ⟨interval, hInterval, hParse⟩ := bind_eq_ok.mp hParse
  obtain ⟨n, hCount, hParse⟩ := bind_eq_ok.mp hParse
  obtain ⟨path, -, hParse⟩ := bind_eq_ok.mp hParse
  cases hParse
  exact ⟨thrown_eq_ok.mp hInterval, thrown_eq_ok.mp hCount⟩

/-- A document that is read and valid is accepted. -/
theorem accepted_of_parseRoot {root : Json} {jsonText : String} {config : ParsedConfig}
    (hParse : lib.parse jsonText = .ok root) (hRoot : parseRoot lib root = .ok config)
    (hValid : (validate config.graphConfig).isOk = true) :
    parseFromString lib jsonText = .ok config := by
  simp only [parseFromString, parseJsonText, hParse, hRoot, bind, Except.bind, hValid, if_true]
  rfl

/-! ## What one pass makes of an option -/

theorem isNumberInteger_false (hLib : lib.Documented) {v : Json}
    (hNot : ¬ ∃ n, v = .integer n ∧ Kept n) : lib.isNumberInteger v = false :=
  Bool.eq_false_iff.mpr fun hTrue => hNot ((hLib.isNumberInteger_iff v).mp hTrue)

theorem isNumberFloat_false (hLib : lib.Documented) {v : Json}
    (hNot : ¬ ((∃ x, v = .float x) ∨ ∃ n, v = .integer n ∧ ¬ Kept n)) :
    lib.isNumberFloat v = false :=
  Bool.eq_false_iff.mpr fun hTrue => hNot ((hLib.isNumberFloat_iff v).mp hTrue)

/-- What one pass makes of an option, by the kind of its value. -/
inductive OptionRead : Json → OptionValue → Prop
  | string (s : String) : OptionRead (.string s) (.string s)
  | boolean (b : Bool) : OptionRead (.boolean b) (.bool b)
  | kept (n : Int) (hKept : Kept n) : OptionRead (.integer n) (.int (wrap32 n))
  | long (n : Int) (x : FiniteDouble) (hLong : ¬ Kept n)
      (hNearest : ∀ y : FiniteDouble, y.value = n → x.value = n) :
      OptionRead (.integer n) (.double x)
  | float (x : FiniteDouble) : OptionRead (.float x) (.double x)

/-- **One pass**: a scalar is read, and anything else rejected. -/
theorem parseNodeOption_cases (hLib : lib.Documented) (nodeName key : String) (v : Json) :
    (∃ option, OptionRead v option ∧
        parseNodeOption lib nodeName key v = .ok (key, option)) ∨
      v.isScalar = false ∧ parseNodeOption lib nodeName key v =
        .error (.status (invalidArgumentError ("node '" ++ nodeName ++ "': option '" ++ key ++
          "' has an unsupported JSON value type (must be scalar)"))) := by
  cases v with
  | string s =>
      refine Or.inl ⟨_, .string s, ?_⟩
      simp [parseNodeOption, Json.isString, hLib.getString_string, thrown, Except.map,
        Except.mapError]
  | boolean b =>
      refine Or.inl ⟨_, .boolean b, ?_⟩
      simp [parseNodeOption, Json.isString, Json.isBoolean, hLib.getBool_boolean, thrown,
        Except.map, Except.mapError]
  | integer n =>
      by_cases hKept : Kept n
      · refine Or.inl ⟨_, .kept n hKept, ?_⟩
        have hInteger : lib.isNumberInteger (.integer n) = true :=
          (hLib.isNumberInteger_iff _).mpr ⟨n, rfl, hKept⟩
        simp [parseNodeOption, Json.isString, Json.isBoolean, hInteger,
          hLib.getInt.integer n hKept, thrown, Except.map, Except.mapError]
      · obtain ⟨x, hGet, hNearest⟩ := hLib.getDouble_integer n
        refine Or.inl ⟨_, .long n x hKept hNearest, ?_⟩
        have hInteger : lib.isNumberInteger (.integer n) = false :=
          isNumberInteger_false hLib (by simpa using hKept)
        have hFloat : lib.isNumberFloat (.integer n) = true :=
          (hLib.isNumberFloat_iff _).mpr (Or.inr ⟨n, rfl, hKept⟩)
        simp [parseNodeOption, Json.isString, Json.isBoolean, hInteger, hFloat, hGet, thrown,
          Except.map, Except.mapError]
  | float x =>
      refine Or.inl ⟨_, .float x, ?_⟩
      have hInteger : lib.isNumberInteger (.float x) = false :=
        isNumberInteger_false hLib (by simp)
      have hFloat : lib.isNumberFloat (.float x) = true :=
        (hLib.isNumberFloat_iff _).mpr (Or.inl ⟨x, rfl⟩)
      simp [parseNodeOption, Json.isString, Json.isBoolean, hInteger, hFloat,
        hLib.getDouble_float, thrown, Except.map, Except.mapError]
  | _ =>
      refine Or.inr ⟨rfl, ?_⟩
      rw [parseNodeOption, isNumberInteger_false hLib (by simp),
        isNumberFloat_false hLib (by simp)]
      rfl

end

end GraphRuntime.Config
