import GraphRuntime.Config.JsonParser

/-!
# Profiling an accepted config

`GraphProfiler::Initialize` gives every node a histogram with the two numbers
of the config, and each profiled call of `Process` adds a sample to the
histogram of its node.  Parser, validator, profiler and histogram pass the two
numbers on and none of them checks them, so the calls are safe for the numbers
that happen to be: `profiling_safe_iff` says which, and `TakenFrom` what the two
fields take of the text.

`Uniform` is the invariant of the profiler's data: one histogram for each name
it was initialized with, all of the same shape.
-/

namespace GraphRuntime.Profiler

open GraphRuntime.Stream GraphRuntime.Config

/-- `GraphProfiler`; `nodeData` is the map `node_data_`, as far as the
histograms. -/
structure GraphProfiler where
  config : ProfilerConfig := {}
  nodeData : List (String × TimeHistogram) := []
  isInitialized : Bool := false
  isProfiling : Bool := false

/-- `node_data_[name] = data`. -/
def setNode (nodeData : List (String × TimeHistogram)) (name : String)
    (data : TimeHistogram) : List (String × TimeHistogram) :=
  (name, data) :: nodeData.filter fun entry => entry.1 ≠ name

namespace GraphProfiler

/-- The body of the loop of `Initialize`. -/
def addNodeData (intervalSizeUsec numIntervals : Int) (nodeData : List (String × TimeHistogram))
    (name : String) : Except Fault (List (String × TimeHistogram)) :=
  (TimeHistogram.initializeHistogram intervalSizeUsec numIntervals).map (setNode nodeData name)

/-- `Initialize`. -/
def initializeProfiler (config : ProfilerConfig) (nodeNames : List String) :
    Except Fault GraphProfiler :=
  if !config.enableProfiler then .ok { config }
  else
    (nodeNames.foldlM (addNodeData config.histogramIntervalSizeUsec
        config.numHistogramIntervals) []).map
      fun nodeData => { config, nodeData, isInitialized := true }

/-- `Start`. -/
def start (p : GraphProfiler) : GraphProfiler :=
  if p.config.enableProfiler && p.isInitialized then { p with isProfiling := true } else p

/-- `AddProcessSample`. -/
def addProcessSample (p : GraphProfiler) (name : String) (sample : Sample) :
    Except Fault GraphProfiler :=
  match p.nodeData.lookup name with
  | none => .ok p
  | some data =>
      (data.addSample sample).map fun data =>
        { p with nodeData := setNode p.nodeData name data }

/-- The destructor of a `Scope` around a call of `Process`. -/
def processScope (p : GraphProfiler) (call : String × Sample) : Except Fault GraphProfiler :=
  if p.isProfiling then p.addProcessSample call.1 call.2 else .ok p

/-- The profiler's part in a run: it is initialized for the nodes, started, and
called after each `Process`. -/
def profile (config : ProfilerConfig) (nodeNames : List String)
    (calls : List (String × Sample)) : Except Fault GraphProfiler :=
  (initializeProfiler config nodeNames).bind fun p => calls.foldlM processScope p.start

end GraphProfiler

/-! ## The histograms of a profiler -/

section

variable {interval n : Int} {names : List String} {h h' : TimeHistogram}

/-- What `Initialize` fixes of a histogram. -/
structure Shaped (interval n : Int) (h : TimeHistogram) : Prop where
  interval : h.intervalSizeUsec = interval
  numIntervals : h.numIntervals = n
  length : h.buckets.length = n.toNat

/-- A shaped histogram takes samples exactly if it can divide and has a bucket. -/
theorem Shaped.addSample_iff (hShaped : Shaped interval n h) (hCount : 0 ≤ n)
    (sample : Sample) :
    (∃ h', h.addSample sample = .ok h') ↔ interval ≠ 0 ∧ 0 < n := by
  have hBound : (h.bucketIndex sample).toNat < n.toNat ↔ 0 < n := by
    unfold TimeHistogram.bucketIndex
    dsimp only
    rw [hShaped.numIntervals]
    split <;> split <;> omega
  rw [TimeHistogram.addSample, hShaped.interval, hShaped.length]
  by_cases hZero : interval = 0
  · simp [hZero]
  · by_cases hPos : 0 < n <;> simp [hZero, hBound, hPos]

theorem Shaped.addSample (hShaped : Shaped interval n h) {sample : Sample}
    (hAdd : h.addSample sample = .ok h') : Shaped interval n h' := by
  unfold TimeHistogram.addSample at hAdd
  split at hAdd
  · exact absurd hAdd (by simp)
  · split at hAdd
    · obtain rfl := Except.ok.inj hAdd
      exact ⟨hShaped.interval, hShaped.numIntervals, by simpa using hShaped.length⟩
    · exact absurd hAdd (by simp)

theorem shaped_of_eq_ok (hInit : TimeHistogram.initializeHistogram interval n = .ok h) :
    0 ≤ n ∧ Shaped interval n h := by
  unfold TimeHistogram.initializeHistogram at hInit
  split at hInit
  · exact absurd hInit (by simp)
  · rename_i hCount
    obtain rfl := Except.ok.inj hInit
    exact ⟨not_lt.mp hCount, rfl, rfl, by simp⟩

/-- One shaped histogram for each of the names. -/
structure Uniform (interval n : Int) (names : List String)
    (nodeData : List (String × TimeHistogram)) : Prop where
  found : ∀ name, (nodeData.lookup name).isSome = true ↔ name ∈ names
  shaped : ∀ name data, nodeData.lookup name = some data → Shaped interval n data

theorem lookup_setNode (nodeData : List (String × TimeHistogram)) (name name' : String)
    (data : TimeHistogram) :
    (setNode nodeData name data).lookup name' =
      if name' = name then some data else nodeData.lookup name' := by
  unfold setNode
  by_cases hEq : name' = name
  · subst hEq
    simp
  · have hBeq : (name' == name) = false := by simpa using hEq
    rw [List.lookup_cons, hBeq, if_neg hEq]
    induction nodeData with
    | nil => rfl
    | cons entry rest ih =>
        obtain ⟨key, value⟩ := entry
        by_cases hKey : key = name
        · have hOther : (name' == key) = false := by simpa [hKey] using hEq
          simpa [hKey, List.lookup_cons, hBeq] using ih
        · simp only [List.filter_cons, hKey, ne_eq, not_false_eq_true, decide_true, if_true,
            List.lookup_cons]
          split
          · rfl
          · exact ih

theorem Uniform.setNode {nodeData : List (String × TimeHistogram)} {name : String}
    (hUniform : Uniform interval n names nodeData) (hShaped : Shaped interval n h) :
    Uniform interval n (names ++ [name]) (setNode nodeData name h) := by
  constructor
  · intro name'
    rw [lookup_setNode, List.mem_append, List.mem_singleton, ← hUniform.found]
    by_cases hEq : name' = name <;> simp [hEq]
  · intro name' data hData
    rw [lookup_setNode] at hData
    split at hData
    · exact Option.some.inj hData ▸ hShaped
    · exact hUniform.shaped name' data hData

/-- Adding a sample replaces a histogram by one of the same shape. -/
theorem Uniform.replace {nodeData : List (String × TimeHistogram)} {name : String}
    (hUniform : Uniform interval n names nodeData) (hMem : name ∈ names)
    (hShaped : Shaped interval n h) :
    Uniform interval n names (Profiler.setNode nodeData name h) := by
  have hSet : Uniform interval n (names ++ [name]) (Profiler.setNode nodeData name h) :=
    hUniform.setNode hShaped
  refine ⟨fun name' => ?_, hSet.shaped⟩
  rw [hSet.found, List.mem_append, List.mem_singleton]
  exact ⟨fun h => h.elim id fun hEq => hEq ▸ hMem, Or.inl⟩

/-! ## `Initialize` -/

/-- The loop over the names, as long as a histogram can be made. -/
theorem initialize_loop (names : List String) (hCount : 0 ≤ n) {done : List String}
    {nodeData : List (String × TimeHistogram)} (hUniform : Uniform interval n done nodeData) :
    ∃ nodeData', names.foldlM (GraphProfiler.addNodeData interval n) nodeData = .ok nodeData' ∧
      Uniform interval n (done ++ names) nodeData' := by
  induction names generalizing done nodeData with
  | nil => exact ⟨nodeData, rfl, by simpa using hUniform⟩
  | cons name rest ih =>
      have hInit : TimeHistogram.initializeHistogram interval n =
          .ok { intervalSizeUsec := interval, numIntervals := n,
                buckets := List.replicate n.toNat 0 } := if_neg (not_lt.mpr hCount)
      have hSet : Uniform interval n (done ++ [name]) (Profiler.setNode nodeData name _) :=
        hUniform.setNode (shaped_of_eq_ok hInit).2
      obtain ⟨nodeData', hLoop, hNext⟩ := ih hSet
      refine ⟨nodeData', ?_, by simpa using hNext⟩
      rw [List.foldlM_cons, GraphProfiler.addNodeData, hInit]
      exact hLoop

theorem initialize_negative (hCount : n < 0) (hNames : names ≠ [])
    {nodeData : List (String × TimeHistogram)} :
    names.foldlM (GraphProfiler.addNodeData interval n) nodeData =
      .error .negativeAllocation := by
  obtain ⟨name, rest, rfl⟩ := List.exists_cons_of_ne_nil hNames
  have hInit : TimeHistogram.initializeHistogram interval n = .error .negativeAllocation :=
    if_pos hCount
  rw [List.foldlM_cons, GraphProfiler.addNodeData, hInit]
  rfl

end

section

variable {config : ProfilerConfig} {names : List String} {p p' : GraphProfiler}

/-- What `Initialize` leaves of an enabled profiler. -/
structure Initialized (config : ProfilerConfig) (names : List String) (p : GraphProfiler) :
    Prop where
  config_eq : p.config = config
  initialized : p.isInitialized = true
  uniform : Uniform config.histogramIntervalSizeUsec config.numHistogramIntervals names
    p.nodeData

theorem initializeProfiler_iff (names : List String) (hEnabled : config.enableProfiler = true) :
    (∃ p, GraphProfiler.initializeProfiler config names = .ok p) ↔
      names = [] ∨ 0 ≤ config.numHistogramIntervals := by
  rw [GraphProfiler.initializeProfiler, hEnabled]
  simp only [Bool.not_true, Bool.false_eq_true, if_false]
  by_cases hNames : names = []
  · subst hNames
    exact iff_of_true ⟨_, rfl⟩ (Or.inl rfl)
  · by_cases hCount : 0 ≤ config.numHistogramIntervals
    · have hNone : Uniform config.histogramIntervalSizeUsec config.numHistogramIntervals []
          [] := ⟨by simp, by simp⟩
      obtain ⟨nodeData, hLoop, -⟩ := initialize_loop names hCount hNone
      rw [hLoop]
      exact iff_of_true ⟨_, rfl⟩ (Or.inr hCount)
    · rw [initialize_negative (not_le.mp hCount) hNames]
      simp [hNames, hCount, Except.map]

theorem initialized_of_eq_ok (hEnabled : config.enableProfiler = true)
    (hInit : GraphProfiler.initializeProfiler config names = .ok p) :
    Initialized config names p := by
  rw [GraphProfiler.initializeProfiler, hEnabled] at hInit
  simp only [Bool.not_true, Bool.false_eq_true, if_false] at hInit
  have hNone : Uniform config.histogramIntervalSizeUsec config.numHistogramIntervals [] [] :=
    ⟨by simp, by simp⟩
  by_cases hCount : 0 ≤ config.numHistogramIntervals
  · obtain ⟨nodeData, hLoop, hUniform⟩ := initialize_loop names hCount hNone
    rw [hLoop] at hInit
    obtain rfl := Except.ok.inj hInit
    exact ⟨rfl, rfl, hUniform⟩
  · by_cases hNames : names = []
    · subst hNames
      obtain rfl := Except.ok.inj hInit
      exact ⟨rfl, rfl, hNone⟩
    · rw [initialize_negative (not_le.mp hCount) hNames] at hInit
      exact absurd hInit (by simp [Except.map])

/-! ## The calls -/

/-- **Step lemma**: a call for a node of the graph goes through exactly if a
histogram can take the sample, and leaves the profiler as it was in shape; a
call for any other name does nothing. -/
theorem processScope_spec (hInit : Initialized config names p)
    (hProfiling : p.isProfiling = true)
    (hCount : names = [] ∨ 0 ≤ config.numHistogramIntervals) (call : String × Sample) :
    ((∃ p', p.processScope call = .ok p') ↔
      (call.1 ∈ names → config.histogramIntervalSizeUsec ≠ 0 ∧
        0 < config.numHistogramIntervals)) ∧
    ∀ p', p.processScope call = .ok p' →
      Initialized config names p' ∧ p'.isProfiling = true := by
  rw [GraphProfiler.processScope, if_pos hProfiling, GraphProfiler.addProcessSample]
  have hFound := hInit.uniform.found call.1
  cases hLookup : p.nodeData.lookup call.1 with
  | none =>
      have hNot : call.1 ∉ names := fun hMem => by
        simp [hLookup, hMem] at hFound
      refine ⟨iff_of_true ⟨p, rfl⟩ fun hMem => absurd hMem hNot, ?_⟩
      rintro p' hStep
      obtain rfl := Except.ok.inj hStep
      exact ⟨hInit, hProfiling⟩
  | some data =>
      have hMem : call.1 ∈ names := hFound.mp (by simp [hLookup])
      have hShaped := hInit.uniform.shaped call.1 data hLookup
      have hNonneg := hCount.resolve_left (List.ne_nil_of_mem hMem)
      have hAdd := hShaped.addSample_iff hNonneg call.2
      dsimp only
      cases hStep : data.addSample call.2 with
      | error fault =>
          rw [hStep] at hAdd
          simp only [reduceCtorEq, exists_false, false_iff] at hAdd
          simp [Except.map, hMem, hAdd]
      | ok data' =>
          have hSafe := hAdd.mp ⟨data', hStep⟩
          refine ⟨iff_of_true ⟨_, rfl⟩ fun _ => hSafe, ?_⟩
          rintro p' hEq
          obtain rfl := Except.ok.inj hEq
          exact ⟨⟨hInit.config_eq, hInit.initialized,
            hInit.uniform.replace hMem (hShaped.addSample hStep)⟩, hProfiling⟩

/-- **Run lemma.** -/
theorem calls_iff (hInit : Initialized config names p) (hProfiling : p.isProfiling = true)
    (hCount : names = [] ∨ 0 ≤ config.numHistogramIntervals)
    (calls : List (String × Sample)) :
    (∃ p', calls.foldlM GraphProfiler.processScope p = .ok p') ↔
      ∀ call ∈ calls, call.1 ∈ names → config.histogramIntervalSizeUsec ≠ 0 ∧
        0 < config.numHistogramIntervals := by
  induction calls generalizing p with
  | nil => exact iff_of_true ⟨p, rfl⟩ (by simp)
  | cons call rest ih =>
      have hStep := processScope_spec hInit hProfiling hCount call
      rw [List.foldlM_cons, List.forall_mem_cons, ← hStep.1]
      cases hCall : p.processScope call with
      | error fault => simp [bind, Except.bind]
      | ok p' =>
          obtain ⟨hNext, hNextProfiling⟩ := hStep.2 p' hCall
          simpa [bind, Except.bind] using ih hNext hNextProfiling

/-- **When profiling is safe**, for an enabled profiler: there is no node to
make a histogram for or the number of intervals is not negative, and, as soon
as a call of one of the nodes is profiled, the interval size is not zero and
there is an interval. -/
theorem profile_iff (hEnabled : config.enableProfiler = true)
    (calls : List (String × Sample)) :
    (∃ p, GraphProfiler.profile config names calls = .ok p) ↔
      (names = [] ∨ 0 ≤ config.numHistogramIntervals) ∧
        ∀ call ∈ calls, call.1 ∈ names → config.histogramIntervalSizeUsec ≠ 0 ∧
          0 < config.numHistogramIntervals := by
  have hInitIff := initializeProfiler_iff names hEnabled
  unfold GraphProfiler.profile
  cases hInit : GraphProfiler.initializeProfiler config names with
  | error fault =>
      rw [hInit] at hInitIff
      simp only [reduceCtorEq, exists_false, false_iff] at hInitIff
      simp [Except.bind, hInitIff]
  | ok p =>
      have hCount := hInitIff.mp ⟨p, hInit⟩
      have hReady := initialized_of_eq_ok hEnabled hInit
      have hStart : p.start = { p with isProfiling := true } := by
        rw [GraphProfiler.start, hReady.config_eq, hEnabled, hReady.initialized]
        rfl
      have hStarted : Initialized config names p.start := by
        rw [hStart]
        exact ⟨hReady.config_eq, hReady.initialized, hReady.uniform⟩
      have hCalls := calls_iff hStarted (by rw [hStart]) hCount calls
      simpa [Except.bind, hCount] using hCalls

end

/-! ## Accepted texts -/

/-- The names of the nodes of an accepted config, which are those of the graph. -/
def nodeNames (config : ParsedConfig) : List String := config.graphConfig.nodes.map (·.name)

/-- The section of a text whose profiler is enabled, and the two numbers it gives. -/
theorem section_of_enabled {lib : JsonLibrary} {root : Json} {config : ProfilerConfig}
    (hSection : parseSection (parseProfilerConfig lib) {} root "profiler_config" = .ok config)
    (hEnabled : config.enableProfiler = true) :
    ∃ pc, root.find "profiler_config" = some pc ∧
      lib.value lib.getLongLong pc "histogram_interval_size_usec" 1000000 =
        .ok config.histogramIntervalSizeUsec ∧
      lib.value lib.getInt pc "num_histogram_intervals" 5 = .ok config.numHistogramIntervals := by
  unfold parseSection at hSection
  split at hSection
  · obtain rfl := Except.ok.inj hSection
    exact absurd hEnabled Bool.false_ne_true
  · rename_i pc hFind
    exact ⟨pc, hFind, numbers_of_parseProfilerConfig hSection⟩

/-- `stored` is what a field of the integer type from `lo` to `hi` takes of the member of a
document: an integer of 64 bits is cast, a double that fits the type is cut, nothing is the
default; any other number is some value of the type. -/
structure TakenFrom (cast : Int → Int) (lo hi : Int) (member : Option Json)
    (defaultValue stored : Int) : Prop where
  missing : member = none → stored = defaultValue
  integer : ∀ m, member = some (.integer m) → Kept m → stored = cast m
  float : ∀ x, member = some (.float x) → lo ≤ Json.truncate x → Json.truncate x ≤ hi →
    stored = Json.truncate x
  inRange : ∀ v, member = some v → lo ≤ stored ∧ stored ≤ hi

theorem takenFrom_of_value {lib : JsonLibrary} (hLib : lib.Documented) {pc : Json} {key : String}
    {get : Json → Except JsonException Int} {cast : Int → Int} {lo hi defaultValue stored : Int}
    (hConverts : Converts get cast lo hi)
    (hValue : lib.value get pc key defaultValue = .ok stored) :
    TakenFrom cast lo hi (pc.find key) defaultValue stored := by
  have hGet : ∀ {v}, pc.find key = some v → get v = .ok stored := get_of_value hLib hValue
  refine ⟨?_, ?_, ?_, ?_⟩
  · intro hNone
    cases pc with
    | object members =>
        have hLookup : members.lookup key = none := hNone
        rw [hLib.value_object, hLookup] at hValue
        exact (Except.ok.inj hValue).symm
    | _ =>
        rw [hLib.value_other _ _ _ _ rfl] at hValue
        exact absurd hValue (by simp)
  · intro m hFind hKept
    exact Except.ok.inj ((hGet hFind).symm.trans (hConverts.integer m hKept))
  · intro x hFind hLow hHigh
    exact Except.ok.inj ((hGet hFind).symm.trans (hConverts.float x hLow hHigh))
  · intro v hFind
    have hNumeric : v.isNumeric = true := by
      by_contra hOther
      have hThrows := hConverts.other v (by simpa using hOther)
      exact absurd ((hGet hFind).symm.trans hThrows) (by simp)
    obtain ⟨n, hOk, hRange⟩ := hConverts.inRange v hNumeric
    obtain rfl : n = stored := Except.ok.inj (hOk.symm.trans (hGet hFind))
    exact hRange

/-- **Profiling an accepted config.**  The two numbers are what the fields take of the
section of the text, and profiling is safe exactly if the number of intervals is not
negative, or there is no node, and as soon as a node is profiled the interval size is not
zero and the number of intervals is positive. -/
theorem profiling_safe_iff {lib : JsonLibrary} (hLib : lib.Documented) (jsonText : String)
    (config : ParsedConfig) (hAccepted : parseFromString lib jsonText = .ok config)
    (hEnabled : config.profilerConfig.enableProfiler = true)
    (calls : List (String × Sample)) :
    ∃ root pc, lib.parse jsonText = .ok root ∧ root.find "profiler_config" = some pc ∧
      TakenFrom wrap64 int64Min int64Max (pc.find "histogram_interval_size_usec") 1000000
        config.profilerConfig.histogramIntervalSizeUsec ∧
      TakenFrom wrap32 int32Min int32Max (pc.find "num_histogram_intervals") 5
        config.profilerConfig.numHistogramIntervals ∧
      ((∃ p, GraphProfiler.profile config.profilerConfig (nodeNames config) calls = .ok p) ↔
        (nodeNames config = [] ∨ 0 ≤ config.profilerConfig.numHistogramIntervals) ∧
          ∀ call ∈ calls, call.1 ∈ nodeNames config →
            config.profilerConfig.histogramIntervalSizeUsec ≠ 0 ∧
              0 < config.profilerConfig.numHistogramIntervals) := by
  obtain ⟨root, hParse, hRoot, -⟩ := parseRoot_of_accepted hAccepted
  have hSection := (readFrom_of_parseRoot hRoot).profilerConfig
  obtain ⟨pc, hFind, hInterval, hCount⟩ := section_of_enabled hSection hEnabled
  exact ⟨root, pc, hParse, hFind, takenFrom_of_value hLib hLib.getLongLong hInterval,
    takenFrom_of_value hLib hLib.getInt hCount, profile_iff hEnabled calls⟩

/-- A config of one node that enables the profiler. -/
def profiledJson (interval n : Int) : Json :=
  .object
    [("nodes", .array [.object [("name", .string "n"), ("type", .string "T")]]),
      ("profiler_config", .object
        [("enable_profiler", .boolean true),
          ("histogram_interval_size_usec", .integer interval),
          ("num_histogram_intervals", .integer n)])]

/-- The text of it. -/
def profiledText (interval n : Int) : String :=
  "\x7b\"profiler_config\": \x7b\"enable_profiler\": true, " ++
  "\"histogram_interval_size_usec\": " ++ toString interval ++ ", " ++
  "\"num_histogram_intervals\": " ++ toString n ++ "\x7d, " ++
  "\"nodes\": [\x7b\"name\": \"n\", \"type\": \"T\"\x7d]\x7d"

/-- The parser on that text. -/
def parseProfiled (interval n : Int) : Except ParseFailure ParsedConfig :=
  parseFromString (readerOf (profiledText interval n) (profiledJson interval n))
    (profiledText interval n)

/-- What is read off it. -/
def profiledConfig (interval n : Int) : ParsedConfig where
  maxQueueSize := 100
  reportDeadlock := false
  profilerConfig :=
    { enableProfiler := true
      histogramIntervalSizeUsec := interval
      numHistogramIntervals := n }
  inputStreams := []
  outputStreams := []
  executors := []
  nodes := [{ name := "n", type := "T" }]

theorem accepted_profiledJson {interval n : Int} (hInterval : Kept interval) (hCount : Kept n) :
    parseProfiled interval n = .ok (profiledConfig (wrap64 interval) (wrap32 n)) := by
  have hRoot : parseRoot (readerOf (profiledText interval n) (profiledJson interval n))
      (profiledJson interval n) =
      .ok (profiledConfig (if Kept interval then wrap64 interval else int64Min)
        (if Kept n then wrap32 n else int32Min)) := rfl
  rw [if_pos hInterval, if_pos hCount] at hRoot
  refine accepted_of_parseRoot (parse_readerOf _ _) hRoot ?_
  show (validate { nodes := [{ name := "n", type := "T" }] }).isOk = true
  decide +kernel

/-- With an interval of 10 microseconds and 3 buckets a call is profiled. -/
theorem profiling_safe_small :
    ∃ p, GraphProfiler.profile (profiledConfig 10 3).profilerConfig
      (nodeNames (profiledConfig 10 3)) [("n", 5, 8)] = .ok p := by
  have hAccepted : parseProfiled 10 3 = .ok (profiledConfig 10 3) :=
    accepted_profiledJson (by decide) (by decide)
  obtain ⟨root, pc, -, -, -, -, hIff⟩ :=
    profiling_safe_iff (documented_readerOf _ _) (profiledText 10 3) (profiledConfig 10 3)
      hAccepted rfl [("n", 5, 8)]
  exact hIff.mpr (by decide)

/-- **Accepted texts that are not safe to profile**: an interval size of zero, a
negative number of intervals, none, and 2^32 of them, which is none as well. -/
theorem accepted_unsafe :
    (parseProfiled 0 5 = .ok (profiledConfig 0 5) ∧
      GraphProfiler.profile (profiledConfig 0 5).profilerConfig ["n"] [("n", 5, 8)] =
        .error .divisionByZero) ∧
    (parseProfiled 10 (-1) = .ok (profiledConfig 10 (-1)) ∧
      GraphProfiler.profile (profiledConfig 10 (-1)).profilerConfig ["n"] [] =
        .error .negativeAllocation) ∧
    (parseProfiled 10 0 = .ok (profiledConfig 10 0) ∧
      GraphProfiler.profile (profiledConfig 10 0).profilerConfig ["n"] [("n", 5, 8)] =
        .error .indexOutOfRange) ∧
    parseProfiled 10 4294967296 = .ok (profiledConfig 10 0) := by
  refine ⟨⟨?_, rfl⟩, ⟨?_, rfl⟩, ⟨?_, rfl⟩, ?_⟩
  all_goals exact accepted_profiledJson (by decide) (by decide)

end GraphRuntime.Profiler
