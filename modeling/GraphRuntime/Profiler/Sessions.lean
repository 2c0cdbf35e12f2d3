import GraphRuntime.Profiler.Merge
import GraphRuntime.Profiler.RoundTrip
import GraphRuntime.Profiler.Scope

/-!
# From the scopes of a run to the report

A profiled run ends in a file, and a `Reporter` reads the files of several runs.  In between
are the histograms, `GraphProfiler::WriteProfile`, the text of the file, the reader and the
merging of records; `report_measured` is about the whole way.

* `Tallied` is the invariant of a run of scopes: the histogram of a node is the tally of the
  samples recorded for it.  What has been measured and not yet recorded is with a frame.
* A `Session` is a run that has come to rest, with the profiler it started from and the file
  written of it.  The counters of its records are then known (`Session.record_eq`).
* A file adds its records to what has been read before, or is never read to its end
  (`Session.file_returns`, `Session.file_diverges`).
* The report adds the counters up (`reportsMeasured`), whatever it is that is counted
  (`Measures`).

Left out: the floating-point mean, which is any function of the histogram, and the file
system, which keeps what was written.
-/

namespace GraphRuntime.Profiler

open Fuel Interleaving GraphRuntime.Stream
open Grouping (values mem_group)

/-! ## `GraphProfiler::WriteProfile` -/

namespace Profiling

/-- `GetNodeProfiles` and the loop over it, in the order of the map.  `mean` is what
`TimeHistogram::mean` computes in floating point. -/
def nodeProfiles (mean : TimeHistogram → Double) (s : Profiling) : List ProfileWriterNodeData :=
  (s.profiler.nodeData.mergeSort fun a b => decide (a.1 ≤ b.1)).map fun entry =>
    { nodeName := entry.1
      openRuntimeUsec := s.openRuntimeUsec entry.1
      closeRuntimeUsec := s.closeRuntimeUsec entry.1
      processCount := entry.2.count
      processTimeTotalUsec := entry.2.total
      processTimeMeanUsec := mean entry.2
      histogramIntervalSizeUsec := entry.2.intervalSizeUsec
      histogramNumIntervals := entry.2.numIntervals
      histogramBuckets := entry.2.buckets }

/-- Where `WriteProfile` writes, at time `ts`. -/
def outputPath (s : Profiling) (ts path : String) : Except Status String :=
  let outputPath :=
    if path.isEmpty && !s.profiler.config.traceLogPath.isEmpty then
      s.profiler.config.traceLogPath ++ "/profile_" ++ ts ++ ".json"
    else path
  if outputPath.isEmpty then
    .error ⟨.invalidArgument, "WriteProfile requires an explicit path or trace_log_path"⟩
  else .ok outputPath

/-- `WriteProfile` at time `ts`: where it writes and what. -/
def writtenProfile (mean : TimeHistogram → Double) (ts captureTime path : String)
    (s : Profiling) : Except Status (String × List Char) :=
  (s.outputPath ts path).map fun outputPath =>
    (outputPath, writeProfile captureTime s.profiler.config (s.nodeProfiles mean))

end Profiling

/-! ## What the histograms hold -/

/-- A call of `AddProcessSample` for the node. -/
def Measurement.isProcessOf (name : String) (m : Measurement) : Bool :=
  match m.scope.type with
  | .processEvent => decide (m.scope.nodeName = name)
  | _ => false

/-- The samples of a node among some measurements. -/
def samplesOf (name : String) (measured : List Measurement) : List Sample :=
  (measured.filter (Measurement.isProcessOf name)).map Measurement.sample

/-- A measurement that has not been recorded yet. -/
def ScopeFrame.pending : ScopeFrame → Option Measurement
  | .record m => some m
  | _ => none

/-- A store of `PerNodeData`. -/
def InRange (store : String → Int) : Prop := ∀ name, 0 ≤ store name ∧ store name ≤ int64Max

/-- The measurements `done` have been recorded. -/
structure Tallied (config : ProfilerConfig) (names : List String) (s : Profiling)
    (done : List Measurement) : Prop where
  config_eq : s.profiler.config = config
  keys : (s.profiler.nodeData.map Prod.fst).Nodup
  mem_keys : ∀ name, name ∈ s.profiler.nodeData.map Prod.fst ↔ name ∈ names
  data : ∀ entry ∈ s.profiler.nodeData, entry.2 = tally config.histogramIntervalSizeUsec
    config.numHistogramIntervals (samplesOf entry.1 done)
  openRuntime : InRange s.openRuntimeUsec
  closeRuntime : InRange s.closeRuntimeUsec

section

variable {config : ProfilerConfig} {names : List String} {s s' : Profiling}
  {done : List Measurement} {m : Measurement} {name : String}
  {nodeData : List (String × TimeHistogram)} {h : TimeHistogram}

theorem samplesOf_append (name : String) (measured more : List Measurement) :
    samplesOf name (measured ++ more) = samplesOf name measured ++ samplesOf name more := by
  rw [samplesOf, List.filter_append, List.map_append]
  rfl

theorem samplesOf_perm {measured measured' : List Measurement}
    (hPerm : measured.Perm measured') (name : String) :
    (samplesOf name measured).Perm (samplesOf name measured') :=
  (hPerm.filter _).map _

/-- A measurement that is not one of the node's calls of `Process`. -/
theorem samplesOf_concat_of_not (hNot : m.isProcessOf name = false) :
    samplesOf name (done ++ [m]) = samplesOf name done := by
  rw [samplesOf_append, samplesOf, samplesOf, List.filter_cons_of_neg (by simp [hNot])]
  exact List.append_nil _

theorem samplesOf_concat (hProcess : m.isProcessOf name = true) :
    samplesOf name (done ++ [m]) = samplesOf name done ++ [m.sample] := by
  rw [samplesOf_append, samplesOf, samplesOf, List.filter_cons_of_pos hProcess]
  rfl

theorem sampleDuration_nonneg {samples : List Sample} :
    ∀ d ∈ samples.map sampleDuration, 0 ≤ d := by
  intro d hMem
  obtain ⟨sample, -, rfl⟩ := List.mem_map.mp hMem
  exact le_max_left _ _

theorem sum_sampleDuration_nonneg (samples : List Sample) :
    0 ≤ (samples.map sampleDuration).sum :=
  List.sum_nonneg sampleDuration_nonneg

theorem machineDuration_nonneg (sample : Sample) : 0 ≤ machineDuration sample := by
  unfold machineDuration
  dsimp only
  split <;> omega

theorem InRange.update {store : String → Int} (hRange : InRange store) (name : String)
    (sample : Sample) : InRange (Function.update store name (machineDuration sample)) := by
  intro other
  by_cases hEq : other = name
  · rw [hEq, Function.update_self]
    exact ⟨machineDuration_nonneg sample, machineDuration_le sample⟩
  · rw [Function.update_of_ne hEq]
    exact hRange other

/-! ### One entry of the map -/

theorem mem_setNode {entry : String × TimeHistogram} :
    entry ∈ setNode nodeData name h ↔
      entry = (name, h) ∨ (entry ∈ nodeData ∧ entry.1 ≠ name) := by
  simp [setNode]

theorem mem_keys_setNode {other : String} :
    other ∈ (setNode nodeData name h).map Prod.fst ↔
      other = name ∨ other ∈ nodeData.map Prod.fst := by
  constructor
  · intro hMem
    obtain ⟨entry, hEntry, rfl⟩ := List.mem_map.mp hMem
    rcases mem_setNode.mp hEntry with rfl | ⟨hOld, -⟩
    · exact Or.inl rfl
    · exact Or.inr (List.mem_map_of_mem hOld)
  · intro hOr
    by_cases hEq : other = name
    · exact List.mem_map.mpr ⟨_, mem_setNode.mpr (Or.inl rfl), hEq.symm⟩
    · obtain ⟨entry, hEntry, rfl⟩ := List.mem_map.mp (hOr.resolve_left hEq)
      exact List.mem_map_of_mem (mem_setNode.mpr (Or.inr ⟨hEntry, hEq⟩))

theorem nodup_keys_setNode (hKeys : (nodeData.map Prod.fst).Nodup) :
    ((setNode nodeData name h).map Prod.fst).Nodup := by
  rw [setNode, List.map_cons, List.nodup_cons]
  constructor
  · intro hMem
    obtain ⟨entry, hEntry, hName⟩ := List.mem_map.mp hMem
    simp only [ne_eq, decide_not, List.mem_filter, Bool.not_eq_true',
      decide_eq_false_iff_not] at hEntry
    exact hEntry.2 hName
  · exact hKeys.sublist (List.filter_sublist.map _)

/-! ### Initialize -/

theorem tallied_loop (interval : Int) {n : Int} (hCount : 0 < n) (names : List String)
    (nodeData : List (String × TimeHistogram)) (hKeys : (nodeData.map Prod.fst).Nodup)
    (hData : ∀ entry ∈ nodeData, entry.2 = tally interval n []) :
    ∃ nodeData', names.foldlM (GraphProfiler.addNodeData interval n) nodeData = .ok nodeData' ∧
      (nodeData'.map Prod.fst).Nodup ∧
      (∀ name, name ∈ nodeData'.map Prod.fst ↔ name ∈ nodeData.map Prod.fst ∨ name ∈ names) ∧
      ∀ entry ∈ nodeData', entry.2 = tally interval n [] := by
  induction names generalizing nodeData with
  | nil => exact ⟨nodeData, rfl, hKeys, by simp, hData⟩
  | cons name rest ih =>
      have hStep : GraphProfiler.addNodeData interval n nodeData name =
          .ok (setNode nodeData name (tally interval n [])) := by
        rw [GraphProfiler.addNodeData, initialize_tally hCount]
        rfl
      have hNext : ∀ entry ∈ setNode nodeData name (tally interval n []),
          entry.2 = tally interval n [] := by
        intro entry hMem
        rcases mem_setNode.mp hMem with rfl | ⟨hOld, -⟩
        · rfl
        · exact hData entry hOld
      obtain ⟨nodeData', hLoop, hNodup, hNames, hEntries⟩ := ih _ (nodup_keys_setNode hKeys) hNext
      refine ⟨nodeData', ?_, hNodup, fun other => ?_, hEntries⟩
      · rw [List.foldlM_cons, hStep]
        exact hLoop
      · rw [hNames, mem_keys_setNode, List.mem_cons]
        tauto

/-- `Initialize` leaves empty histograms. -/
theorem tallied_initialize {profiler : GraphProfiler} (hEnabled : config.enableProfiler = true)
    (hCount : 0 < config.numHistogramIntervals)
    (hInit : GraphProfiler.initializeProfiler config names = .ok profiler) (clock : Int) :
    Tallied config names { profiler, clock } [] := by
  obtain ⟨nodeData, hLoop, hKeys, hNames, hData⟩ := tallied_loop
    config.histogramIntervalSizeUsec hCount names [] List.nodup_nil (by simp)
  rw [GraphProfiler.initializeProfiler, hEnabled, hLoop] at hInit
  obtain rfl := Except.ok.inj hInit
  have hMax : 0 ≤ int64Max := by decide
  have hZero : InRange fun _ => 0 := fun _ => ⟨Int.le_refl 0, hMax⟩
  exact ⟨rfl, hKeys, by simpa using hNames, hData, hZero, hZero⟩

/-! ### The steps of a run -/

/-- A measurement that no histogram is for. -/
theorem Tallied.skip (hTallied : Tallied config names s done)
    (hNot : ∀ entry ∈ s.profiler.nodeData, m.isProcessOf entry.1 = false) :
    Tallied config names s (done ++ [m]) := by
  refine ⟨hTallied.config_eq, hTallied.keys, hTallied.mem_keys, fun entry hMem => ?_,
    hTallied.openRuntime, hTallied.closeRuntime⟩
  rw [samplesOf_concat_of_not (hNot entry hMem)]
  exact hTallied.data entry hMem

theorem Tallied.setOpenRuntime (hTallied : Tallied config names s done) (name : String)
    (sample : Sample) : Tallied config names (s.setOpenRuntime name sample) done := by
  unfold Profiling.setOpenRuntime
  split
  · exact ⟨hTallied.config_eq, hTallied.keys, hTallied.mem_keys, hTallied.data,
      hTallied.openRuntime.update name sample, hTallied.closeRuntime⟩
  · exact hTallied

theorem Tallied.setCloseRuntime (hTallied : Tallied config names s done) (name : String)
    (sample : Sample) : Tallied config names (s.setCloseRuntime name sample) done := by
  unfold Profiling.setCloseRuntime
  split
  · exact ⟨hTallied.config_eq, hTallied.keys, hTallied.mem_keys, hTallied.data,
      hTallied.openRuntime, hTallied.closeRuntime.update name sample⟩
  · exact hTallied

/-- **A sample is added** to the histogram of its node, if there is one. -/
theorem Tallied.addProcessSample (hTallied : Tallied config names s done)
    (hInterval : config.histogramIntervalSizeUsec ≠ 0) (hCount : 0 < config.numHistogramIntervals)
    (hProcess : ∀ name, m.isProcessOf name = decide (m.scope.nodeName = name)) {p : GraphProfiler}
    (hAdd : s.profiler.addProcessSample m.scope.nodeName m.sample = .ok p) :
    Tallied config names { s with profiler := p } (done ++ [m]) := by
  unfold GraphProfiler.addProcessSample at hAdd
  cases hLookup : s.profiler.nodeData.lookup m.scope.nodeName with
  | none =>
      rw [hLookup] at hAdd
      cases hAdd
      refine hTallied.skip fun entry hMem => ?_
      have hFound := List.lookup_eq_none_iff.mp hLookup entry hMem
      rw [hProcess]
      simpa using hFound
  | some h =>
      obtain ⟨l₁, l₂, hSplit, -⟩ := List.lookup_eq_some_iff.mp hLookup
      have hMem : (m.scope.nodeName, h) ∈ s.profiler.nodeData := by
        rw [hSplit]
        simp
      have hHere : h = tally config.histogramIntervalSizeUsec config.numHistogramIntervals
          (samplesOf m.scope.nodeName done) := hTallied.data _ hMem
      simp only [hLookup] at hAdd
      rw [hHere, addSample_tally hInterval hCount] at hAdd
      cases hAdd
      refine ⟨hTallied.config_eq, nodup_keys_setNode hTallied.keys, fun name => ?_,
        fun entry hEntry => ?_, hTallied.openRuntime, hTallied.closeRuntime⟩
      · show name ∈ (setNode _ _ _).map Prod.fst ↔ _
        rw [mem_keys_setNode, ← hTallied.mem_keys, or_iff_right_of_imp]
        rintro rfl
        exact List.mem_map_of_mem hMem
      · rcases mem_setNode.mp hEntry with rfl | ⟨hOld, hNe⟩
        · rw [samplesOf_concat (by rw [hProcess, decide_eq_true rfl])]
        · rw [samplesOf_concat_of_not (by rw [hProcess, decide_eq_false (Ne.symm hNe)])]
          exact hTallied.data entry hOld

/-- **One measurement is recorded.** -/
theorem Tallied.record (hTallied : Tallied config names s done)
    (hInterval : config.histogramIntervalSizeUsec ≠ 0) (hCount : 0 < config.numHistogramIntervals)
    (hRecord : s.record m = .ok s') : Tallied config names s' (done ++ [m]) := by
  unfold Profiling.record at hRecord
  cases hType : m.scope.type with
  | openEvent =>
      simp only [hType] at hRecord
      cases hRecord
      refine (hTallied.skip fun entry _ => ?_).setOpenRuntime _ _
      rw [Measurement.isProcessOf, hType]
  | closeEvent =>
      simp only [hType] at hRecord
      cases hRecord
      refine (hTallied.skip fun entry _ => ?_).setCloseRuntime _ _
      rw [Measurement.isProcessOf, hType]
  | processEvent =>
      have hProcess : ∀ name, m.isProcessOf name = decide (m.scope.nodeName = name) := by
        intro name
        rw [Measurement.isProcessOf, hType]
      simp only [hType] at hRecord
      cases hAdd : s.profiler.addProcessSample m.scope.nodeName m.sample with
      | error fault =>
          rw [hAdd] at hRecord
          cases hRecord
      | ok p =>
          rw [hAdd] at hRecord
          cases hRecord
          exact hTallied.addProcessSample hInterval hCount hProcess hAdd

/-- What has been measured has been recorded or is with a frame. -/
def Accounted (config : ProfilerConfig) (names : List String) (s : Profiling)
    (fs : List ScopeFrame) : Prop :=
  ∃ done, s.measured.Perm (done ++ fs.filterMap ScopeFrame.pending) ∧
    Tallied config names s done

/-- The runs in which nobody resets the profiler. -/
def Scope.unreset : Guard Profiling ScopeFrame Unit ProfilerCall where
  exec := fun _ _ _ _ => true
  spawn := fun _ _ call =>
    match call with
    | .reset => false
    | _ => true

theorem accounted_exec {f : ScopeFrame} {A B fs : List ScopeFrame} {x : Unit}
    (hInterval : config.histogramIntervalSizeUsec ≠ 0) (hCount : 0 < config.numHistogramIntervals)
    (hBefore : Accounted config names s (A ++ f :: B)) (hExec : Scope.exec s f x = some (s', fs)) :
    Accounted config names s' (A ++ (fs ++ B)) := by
  obtain ⟨done, hPerm, hTallied⟩ := hBefore
  rw [List.filterMap_append, List.filterMap_cons] at hPerm
  unfold Accounted
  rw [List.filterMap_append, List.filterMap_append]
  cases Scope.step_of_exec hExec with
  | readsEnd scope =>
      refine ⟨done, ?_, hTallied.config_eq, hTallied.keys, hTallied.mem_keys, hTallied.data,
        hTallied.openRuntime, hTallied.closeRuntime⟩
      have hMore := hPerm.append_right [Measurement.mk scope s.clock s.clock]
      refine hMore.trans ?_
      rw [List.append_assoc]
      refine List.Perm.append_left done ?_
      exact (List.perm_append_singleton _ _).trans List.perm_middle.symm
  | records m _ hRecord =>
      refine ⟨done ++ [m], ?_, hTallied.record hInterval hCount hRecord⟩
      rw [(Scope.record_spec hRecord).2.1]
      refine hPerm.trans ?_
      rw [List.append_assoc]
      exact List.Perm.append_left done List.perm_middle
  | _ => exact ⟨done, hPerm, hTallied⟩

theorem accounted_spawn {A fs : List ScopeFrame} {call : ProfilerCall}
    (hBefore : Accounted config names s A) (hUnreset : Scope.unreset.spawn s A call = true)
    (hSpawn : Scope.spawn s call = some (s', fs)) : Accounted config names s' (A ++ fs) := by
  obtain ⟨done, hPerm, hTallied⟩ := hBefore
  have hFlags : ∀ p : GraphProfiler, p.config = s.profiler.config →
      p.nodeData = s.profiler.nodeData →
      Tallied config names { s with profiler := p } done := by
    intro p hConfig hData
    refine ⟨hConfig.trans hTallied.config_eq, ?_, ?_, ?_, hTallied.openRuntime,
      hTallied.closeRuntime⟩
    · rw [hData]
      exact hTallied.keys
    · rw [hData]
      exact hTallied.mem_keys
    · rw [hData]
      exact hTallied.data
  unfold Accounted
  rw [List.filterMap_append]
  cases call with
  | reset => exact absurd hUnreset Bool.false_ne_true
  | scope type nodeName profiled =>
      cases hSpawn
      exact ⟨done, by simpa [ScopeFrame.pending, List.filterMap_cons] using hPerm, hTallied⟩
  | tick usec =>
      cases hSpawn
      exact ⟨done, by simpa using hPerm, hTallied.config_eq, hTallied.keys, hTallied.mem_keys,
        hTallied.data, hTallied.openRuntime, hTallied.closeRuntime⟩
  | start =>
      cases hSpawn
      refine ⟨done, by simpa using hPerm, hFlags _ ?_ ?_⟩ <;> unfold GraphProfiler.start <;>
        split <;> rfl
  | resume =>
      cases hSpawn
      refine ⟨done, by simpa using hPerm, hFlags _ ?_ ?_⟩ <;> unfold GraphProfiler.resume <;>
        split <;> rfl
  | _ =>
      cases hSpawn
      exact ⟨done, by simpa using hPerm, hFlags _ rfl rfl⟩

/-- **In every run** the histograms are the tallies of what has been recorded. -/
theorem accounted_of_reaches {profiler : GraphProfiler} {clock : Int}
    {c : Config Profiling ScopeFrame} (hEnabled : config.enableProfiler = true)
    (hInterval : config.histogramIntervalSizeUsec ≠ 0) (hCount : 0 < config.numHistogramIntervals)
    (hInit : GraphProfiler.initializeProfiler config names = .ok profiler)
    (hReach : Scope.machine.Reaches Scope.unreset (Scope.initial profiler clock) c) :
    Accounted config names c.shared c.frames := by
  refine Machine.invariant (I := Accounted config names) ?_ ?_ ?_ hReach
  · exact ⟨[], List.Perm.nil, tallied_initialize hEnabled hCount hInit clock⟩
  · intro s A f B x s' fs hBefore _ hExec
    exact accounted_exec hInterval hCount hBefore hExec
  · intro s A call s' fs hBefore hUnreset hSpawn
    exact accounted_spawn hBefore hUnreset hSpawn

end

/-! ## Sessions -/

/-- A run under a profiler until nobody is in a scope any more, and the profile written
of it. -/
structure Session where
  config : ProfilerConfig
  names : List String
  profiler : GraphProfiler
  clock : Int
  cfg : Config Profiling ScopeFrame
  mean : TimeHistogram → Double
  ts : String
  captureTime : String
  path : String
  file : String × List Char
  enabled : config.enableProfiler = true
  interval : config.histogramIntervalSizeUsec ≠ 0
  count : 0 < config.numHistogramIntervals
  named : ∀ name ∈ names, name ≠ ""
  distinct : names.Nodup
  made : GraphProfiler.initializeProfiler config names = .ok profiler
  reaches : Scope.machine.Reaches Scope.unreset (Scope.initial profiler clock) cfg
  settled : cfg.frames = []
  written : cfg.shared.writtenProfile mean ts captureTime path = .ok file

namespace Session

/-- The records of the file. -/
def profiles (s : Session) : List ProfileWriterNodeData := s.cfg.shared.nodeProfiles s.mean

/-- What has been measured of a node. -/
def samples (s : Session) (name : String) : List Sample := samplesOf name s.cfg.shared.measured

/-- Every mean is in the range that is written without an exponent. -/
def Plain (s : Session) : Prop :=
  ∀ node ∈ s.profiles, node.processTimeMeanUsec.InFixedRange

end Session

/-- The loop of `Run` of `print_profile`: the first status that is not OK ends it. -/
def accumulateAll (fuel : Nat) :
    List (String × Option (List Char)) → List PerNodeAccum → Option (Status × List PerNodeAccum)
  | [], data => some (Status.okStatus, data)
  | file :: files, data =>
      (accumulate fuel file.1 file.2 data).bind fun p =>
        if p.1.isOk then accumulateAll fuel files p.2 else some p

/-- The files of the sessions. -/
def filesOf (sessions : List Session) : List (String × Option (List Char)) :=
  sessions.map fun s => (s.file.1, some s.file.2)

/-- The files of the sessions read one after the other. -/
def readFiles (sessions : List Session) (fuel : Nat) : Option (Status × List PerNodeAccum) :=
  accumulateAll fuel (filesOf sessions) []

/-- What the sessions have measured of the nodes they were initialized for. -/
def allSamples (sessions : List Session) : List Sample :=
  sessions.flatMap fun s => s.names.flatMap s.samples

/-- What they have measured of one node. -/
def measuredOf (sessions : List Session) (name : String) : List Sample :=
  sessions.flatMap fun s => if name ∈ s.names then s.samples name else []

/-- The report says what has been measured. -/
structure ReportsMeasured (sessions : List Session) (r : ProfileReport) : Prop where
  found : ∀ name, (r.find name).isSome = true ↔ ∃ s ∈ sessions, name ∈ s.names
  processCount : ∀ name stats, r.find name = some stats →
    stats.processCount = (measuredOf sessions name).length
  processTime : ∀ name stats, r.find name = some stats →
    stats.processTimeTotalUsec = ((measuredOf sessions name).map sampleDuration).sum
  totalProcessCount : r.totalProcessCount = (allSamples sessions).length
  totalProcessTime : r.totalProcessTimeUsec = ((allSamples sessions).map sampleDuration).sum

/-! ## One session -/

namespace Session

variable (s : Session)

theorem tallied :
    ∃ done, s.cfg.shared.measured.Perm done ∧ Tallied s.config s.names s.cfg.shared done := by
  obtain ⟨done, hPerm, hTallied⟩ :=
    accounted_of_reaches s.enabled s.interval s.count s.made s.reaches
  rw [s.settled] at hPerm
  exact ⟨done, by simpa using hPerm, hTallied⟩

/-- Each node has a record. -/
theorem names_perm : (s.profiles.map ProfileWriterNodeData.nodeName).Perm s.names := by
  obtain ⟨done, -, hTallied⟩ := s.tallied
  have hSorted : (s.profiles.map ProfileWriterNodeData.nodeName).Perm
      (s.cfg.shared.profiler.nodeData.map Prod.fst) := by
    rw [profiles, Profiling.nodeProfiles, List.map_map]
    exact (List.mergeSort_perm _ _).map _
  refine hSorted.trans ((List.perm_ext_iff_of_nodup hTallied.keys s.distinct).mpr ?_)
  exact hTallied.mem_keys

variable {s}

theorem mem_names {node : ProfileWriterNodeData} (hNode : node ∈ s.profiles) :
    node.nodeName ∈ s.names :=
  s.names_perm.mem_iff.mp (List.mem_map_of_mem hNode)

/-- The counters of a record. -/
theorem nodeProfile_eq {node : ProfileWriterNodeData} (hNode : node ∈ s.profiles)
    (hMeasurable : Measurable (s.samples node.nodeName))
    (hLength : ((s.samples node.nodeName).length : Int) ≤ int64Max) :
    node.processCount = (s.samples node.nodeName).length ∧
      node.processTimeTotalUsec = ((s.samples node.nodeName).map sampleDuration).sum ∧
      CountersFit node := by
  obtain ⟨done, hPerm, hTallied⟩ := s.tallied
  obtain ⟨entry, hEntry, rfl⟩ := List.mem_map.mp hNode
  have hData := hTallied.data entry ((List.mergeSort_perm _ _).mem_iff.mp hEntry)
  have hSamples := samplesOf_perm hPerm entry.1
  have hDone : Measurable (samplesOf entry.1 done) :=
    ⟨fun sample hMem => hMeasurable.difference sample (hSamples.mem_iff.mpr hMem),
      (hSamples.map sampleDuration).sum_eq ▸ hMeasurable.total⟩
  have hCount : entry.2.count = (s.samples entry.1).length := by
    rw [hData]
    show wrap64 (samplesOf entry.1 done).length = _
    rw [← hSamples.length_eq]
    refine wrap64_of_range ?_ hLength
    unfold int64Min
    omega
  have hTotal : entry.2.total = ((s.samples entry.1).map sampleDuration).sum := by
    rw [hData, tally_total hDone]
    exact (hSamples.map sampleDuration).sum_eq.symm
  refine ⟨hCount, hTotal, hTallied.openRuntime entry.1, hTallied.closeRuntime entry.1, ?_, ?_⟩
  · show 0 ≤ entry.2.count ∧ entry.2.count ≤ int64Max
    rw [hCount]
    exact ⟨Int.natCast_nonneg _, hLength⟩
  · show 0 ≤ entry.2.total ∧ entry.2.total ≤ int64Max
    rw [hTotal]
    exact ⟨sum_sampleDuration_nonneg _, hMeasurable.total⟩

/-- The records of the file, as the reader takes them. -/
def records (s : Session) : List NodeFields := s.profiles.map fieldsOf

/-- The counters of the file have room. -/
def Fits (s : Session) : Prop :=
  ∀ name ∈ s.names, Measurable (s.samples name) ∧ ((s.samples name).length : Int) ≤ int64Max

theorem records_perm (s : Session) : (s.records.map NodeFields.name).Perm s.names := by
  have hNames : s.records.map NodeFields.name =
      s.profiles.map ProfileWriterNodeData.nodeName := by
    rw [records, List.map_map]
    rfl
  rw [hNames]
  exact s.names_perm

/-- The counters of a record. -/
theorem record_eq {f : NodeFields} (hFits : s.Fits) (hRecord : f ∈ s.records) :
    f.name ∈ s.names ∧ f.processCount = (s.samples f.name).length ∧
      f.processTimeTotal = ((s.samples f.name).map sampleDuration).sum := by
  obtain ⟨node, hNode, rfl⟩ := List.mem_map.mp hRecord
  have hName : node.nodeName ∈ s.names := mem_names hNode
  obtain ⟨hMeasurable, hLength⟩ := hFits node.nodeName hName
  obtain ⟨hCount, hTotal, -⟩ := nodeProfile_eq hNode hMeasurable hLength
  exact ⟨hName, hCount, hTotal⟩

/-! ## Its file -/

theorem named_profiles {node : ProfileWriterNodeData} (hNode : node ∈ s.profiles) :
    node.nodeName ≠ "" :=
  s.named _ (mem_names hNode)

theorem named_records {f : NodeFields} (hRecord : f ∈ s.records) : f.name ≠ "" := by
  obtain ⟨node, hNode, rfl⟩ := List.mem_map.mp hRecord
  exact named_profiles hNode

theorem fit_profiles (hFits : s.Fits) {node : ProfileWriterNodeData}
    (hNode : node ∈ s.profiles) : CountersFit node := by
  obtain ⟨hMeasurable, hLength⟩ := hFits node.nodeName (mem_names hNode)
  exact (nodeProfile_eq hNode hMeasurable hLength).2.2

theorem file_eq (s : Session) :
    s.file.2 = writeProfile s.captureTime s.cfg.shared.profiler.config s.profiles := by
  have hWritten := s.written
  rw [Profiling.writtenProfile] at hWritten
  cases hPath : s.cfg.shared.outputPath s.ts s.path with
  | error status =>
      rw [hPath] at hWritten
      cases hWritten
  | ok path =>
      rw [hPath] at hWritten
      obtain hFile := Except.ok.inj hWritten
      rw [← hFile]
      rfl

theorem accumulate_file (s : Session) (data : List PerNodeAccum) :
    (fun fuel => accumulate fuel s.file.1 (some s.file.2) data) = fun fuel =>
      (membersLoop fuel data
          (profileText s.captureTime s.cfg.shared.profiler.config s.profiles)).bind
        fun data => some (Status.okStatus, data) := by
  funext fuel
  rw [file_eq, writeProfile_eq]
  exact Option.map_eq_bind

/-- **The file is read**: its records are added to whatever has been read before. -/
theorem file_returns (hFits : s.Fits) (hPlain : s.Plain) (data : List PerNodeAccum) :
    Returns (fun fuel => accumulate fuel s.file.1 (some s.file.2) data)
      (Status.okStatus, accumulateFile data s.records) := by
  have hNamed : s.records.filter (fun f => !decide (f.name = "")) = s.records := by
    refine List.filter_eq_self.mpr fun f hRecord => ?_
    simp [named_records hRecord]
  have hNodes : Returns
      (fun fuel => nodesLoop fuel data
        ('\n' :: (writeNodes s.profiles ++ closing "\n\x7d\n".toList)))
      ("\n\x7d\n".toList, accumulateFile data s.records) := by
    rw [accumulateFile_eq, hNamed]
    exact nodesLoop_written (fun _ => named_profiles) (fun _ => fit_profiles hFits)
      (fun node hNode => (plain_iff _).mpr (hPlain node hNode)) (skipWhitespace_space rfl)
  have hEnd : ∀ data : List PerNodeAccum,
      Returns (fun fuel => membersLoop fuel data "\n\x7d\n".toList) data := fun data =>
    Returns.step rfl (fun _ => rfl) (Returns.pure data)
  have hMembers := (membersLoop_profile s.captureTime s.cfg.shared.profiler.config
    s.profiles).returns _ (hNodes.bind (h := fun fuel p => membersLoop fuel p.2 p.1) (hEnd _))
  rw [accumulate_file]
  exact hMembers.bind (Returns.pure _)

/-- **It is never read to its end** when a mean is not plain. -/
theorem file_diverges (hFits : s.Fits) (hPlain : ¬ s.Plain) (data : List PerNodeAccum) :
    Diverges (fun fuel => accumulate fuel s.file.1 (some s.file.2) data) := by
  obtain ⟨node, hNot⟩ := not_forall.mp hPlain
  obtain ⟨hNode, hRange⟩ := Classical.not_imp.mp hNot
  have hMean : node.processTimeMeanUsec.plain = false := by
    rw [← plain_iff] at hRange
    exact Bool.eq_false_iff.mpr hRange
  have hNodes : Diverges (fun fuel => nodesLoop fuel data
      ('\n' :: (writeNodes s.profiles ++ closing "\n\x7d\n".toList))) :=
    nodesLoop_diverges (fun _ => named_profiles) (fun _ => fit_profiles hFits)
      ⟨node, hNode, hMean⟩ (skipWhitespace_space rfl)
  have hMembers := (membersLoop_profile s.captureTime s.cfg.shared.profiler.config
    s.profiles).diverges hNodes.bind
  rw [accumulate_file]
  exact hMembers.bind

end Session

/-! ## All files -/

section

variable {sessions : List Session} {data : List PerNodeAccum} {name : String}

/-- The records of the files. -/
def recordsOf (sessions : List Session) : List (List NodeFields) := sessions.map Session.records

/-- Nothing overflows: every duration fits, and all of them together, and their number. -/
structure Bounded (sessions : List Session) : Prop where
  measurable : Measurable (allSamples sessions)
  length : ((allSamples sessions).length : Int) ≤ int64Max

theorem accumulateAll_returns (hFits : ∀ s ∈ sessions, s.Fits)
    (hPlain : ∀ s ∈ sessions, s.Plain) :
    Returns (fun fuel => accumulateAll fuel (filesOf sessions) data)
      (Status.okStatus, (recordsOf sessions).foldl accumulateFile data) := by
  induction sessions generalizing data with
  | nil => exact Returns.pure _
  | cons s sessions ih =>
      have hHere := Session.file_returns (hFits s List.mem_cons_self)
        (hPlain s List.mem_cons_self) data
      have hRest : Returns
          (fun fuel => accumulateAll fuel (filesOf sessions) (accumulateFile data s.records))
          (Status.okStatus,
            (recordsOf sessions).foldl accumulateFile (accumulateFile data s.records)) :=
        ih (fun s' hMem => hFits s' (List.mem_cons_of_mem s hMem))
          (fun s' hMem => hPlain s' (List.mem_cons_of_mem s hMem))
      exact hHere.bind (h := fun fuel p =>
        if p.1.isOk then accumulateAll fuel (filesOf sessions) p.2 else some p) hRest

theorem accumulateAll_diverges (hFits : ∀ s ∈ sessions, s.Fits)
    (hPlain : ∃ s ∈ sessions, ¬ s.Plain) :
    Diverges (fun fuel => accumulateAll fuel (filesOf sessions) data) := by
  induction sessions generalizing data with
  | nil =>
      obtain ⟨s, hMem, -⟩ := hPlain
      cases hMem
  | cons s sessions ih =>
      have hHead := hFits s List.mem_cons_self
      by_cases hHere : s.Plain
      · have hLater : ∃ s' ∈ sessions, ¬ s'.Plain := by
          obtain ⟨s', hMem, hNot⟩ := hPlain
          rcases List.mem_cons.mp hMem with rfl | hTail
          · exact absurd hHere hNot
          · exact ⟨s', hTail, hNot⟩
        have hRest : Diverges
            (fun fuel => accumulateAll fuel (filesOf sessions) (accumulateFile data s.records)) :=
          ih (fun s' hMem => hFits s' (List.mem_cons_of_mem s hMem)) hLater
        exact Diverges.after (h := fun fuel p =>
          if p.1.isOk then accumulateAll fuel (filesOf sessions) p.2 else some p)
          (Session.file_returns hHead hHere data) hRest
      · exact (Session.file_diverges hHead hHere data).bind

/-! ### What the records add up to -/

/-- The records of a node. -/
def recordsNamed (name : String) (records : List NodeFields) : List NodeFields :=
  values name (records.map fun f => (f.name, f))

theorem recordsNamed_eq (name : String) (records : List NodeFields) :
    recordsNamed name records = records.filter fun f => decide (f.name = name) := by
  rw [recordsNamed, values, List.filter_map, List.map_map]
  exact List.map_id _

theorem recordsNamed_append (name : String) (records more : List NodeFields) :
    recordsNamed name (records ++ more) = recordsNamed name records ++ recordsNamed name more := by
  rw [recordsNamed_eq, List.filter_append, ← recordsNamed_eq, ← recordsNamed_eq]

theorem mem_recordsNamed {f : NodeFields} {records : List NodeFields} :
    f ∈ recordsNamed name records ↔ f ∈ records ∧ f.name = name := by
  rw [recordsNamed_eq, List.mem_filter, decide_eq_true_eq]

/-- A session has one record of each of its nodes. -/
theorem length_recordsNamed (s : Session) (name : String) :
    (recordsNamed name s.records).length = if name ∈ s.names then 1 else 0 := by
  have hCount : (recordsNamed name s.records).length =
      (s.records.map NodeFields.name).count name := by
    rw [recordsNamed_eq, ← List.countP_eq_length_filter, List.count, List.countP_map]
    refine List.countP_congr fun f _ => ?_
    simp
  rw [hCount, s.records_perm.count_eq]
  split
  · rename_i hMem
    exact List.count_eq_one_of_mem s.distinct hMem
  · rename_i hNot
    exact List.count_eq_zero_of_not_mem hNot

/-- A counter `w` of the records of the sessions is `measure` of the node's samples. -/
structure Measures (w : NodeFields → Int) (measure : List Sample → Int) : Prop where
  nil : measure [] = 0
  append : ∀ samples more, measure (samples ++ more) = measure samples + measure more
  nonneg : ∀ samples, 0 ≤ measure samples
  record : ∀ s : Session, s.Fits → ∀ f ∈ s.records, w f = measure (s.samples f.name)

theorem measures_length :
    Measures NodeFields.processCount fun samples => (samples.length : Int) where
  nil := rfl
  append := fun samples more => by rw [List.length_append, Nat.cast_add]
  nonneg := fun samples => Int.natCast_nonneg _
  record := fun _ hFits _ hRecord => (Session.record_eq hFits hRecord).2.1

theorem measures_duration :
    Measures NodeFields.processTimeTotal fun samples => (samples.map sampleDuration).sum where
  nil := rfl
  append := fun samples more => by rw [List.map_append, List.sum_append]
  nonneg := sum_sampleDuration_nonneg
  record := fun _ hFits _ hRecord => (Session.record_eq hFits hRecord).2.2

section

variable {w : NodeFields → Int} {measure : List Sample → Int} (hMeasures : Measures w measure)
include hMeasures

theorem Measures.flatMap {α : Type} (l : List α) (part : α → List Sample) :
    measure (l.flatMap part) = (l.map fun a => measure (part a)).sum := by
  induction l with
  | nil => exact hMeasures.nil
  | cons a l ih =>
      rw [List.flatMap_cons, hMeasures.append, ih, List.map_cons, List.sum_cons]

/-- One session, one node. -/
theorem Measures.session {s : Session} (hFits : s.Fits) (name : String) :
    ((recordsNamed name s.records).map w).sum =
      measure (if name ∈ s.names then s.samples name else []) := by
  have hLength := length_recordsNamed s name
  by_cases hNode : name ∈ s.names
  · rw [if_pos hNode] at hLength
    rw [if_pos hNode]
    obtain ⟨f, hOne⟩ := List.length_eq_one_iff.mp hLength
    have hMem : f ∈ recordsNamed name s.records := by
      rw [hOne]
      exact List.mem_singleton_self f
    obtain ⟨hRecord, hName⟩ := mem_recordsNamed.mp hMem
    rw [hOne, List.map_singleton, List.sum_singleton, hMeasures.record s hFits f hRecord, hName]
  · rw [if_neg hNode] at hLength
    rw [if_neg hNode, List.eq_nil_of_length_eq_zero hLength, hMeasures.nil]
    rfl

/-- One node in all sessions. -/
theorem Measures.node (hFits : ∀ s ∈ sessions, s.Fits) (name : String) :
    ((recordsNamed name (recordsOf sessions).flatten).map w).sum =
      measure (measuredOf sessions name) := by
  induction sessions with
  | nil => exact hMeasures.nil.symm
  | cons s sessions ih =>
      have hRest := ih fun s' hMem => hFits s' (List.mem_cons_of_mem s hMem)
      rw [recordsOf, List.map_cons, List.flatten_cons, recordsNamed_append, List.map_append,
        List.sum_append, hMeasures.session (hFits s List.mem_cons_self), measuredOf,
        List.flatMap_cons, hMeasures.append]
      exact congrArg _ hRest

/-- All nodes in all sessions. -/
theorem Measures.total (hFits : ∀ s ∈ sessions, s.Fits) :
    ((recordsOf sessions).flatten.map w).sum = measure (allSamples sessions) := by
  induction sessions with
  | nil => exact hMeasures.nil.symm
  | cons s sessions ih =>
      have hRest := ih fun s' hMem => hFits s' (List.mem_cons_of_mem s hMem)
      have hHere : (s.records.map w).sum = measure (s.names.flatMap s.samples) := by
        have hEach : s.records.map w =
            (s.records.map NodeFields.name).map fun name => measure (s.samples name) := by
          rw [List.map_map]
          exact List.map_congr_left fun f hRecord =>
            hMeasures.record s (hFits s List.mem_cons_self) f hRecord
        rw [hEach, hMeasures.flatMap]
        exact (s.records_perm.map _).sum_eq
      rw [recordsOf, List.map_cons, List.flatten_cons, List.map_append, List.sum_append, hHere,
        allSamples, List.flatMap_cons, hMeasures.append]
      exact congrArg _ hRest

end

/-! ### The report -/

theorem Bounded.fits (hBounded : Bounded sessions) : ∀ s ∈ sessions, s.Fits := by
  intro s hSession name hName
  have hSession' : (s.names.flatMap s.samples).Sublist (allSamples sessions) :=
    List.sublist_flatten_of_mem (List.mem_map_of_mem hSession)
  have hNode : (s.samples name).Sublist (s.names.flatMap s.samples) :=
    List.sublist_flatten_of_mem (List.mem_map_of_mem hName)
  have hSublist := hNode.trans hSession'
  have hSum : ((s.samples name).map sampleDuration).sum ≤
      ((allSamples sessions).map sampleDuration).sum :=
    (hSublist.map sampleDuration).sum_le_sum sampleDuration_nonneg
  have hLength := hSublist.length_le
  have hAll := hBounded.length
  refine ⟨⟨fun sample hMem => ?_, hSum.trans hBounded.measurable.total⟩, by omega⟩
  exact hBounded.measurable.difference sample (hSublist.subset hMem)

theorem mem_recordsOf {f : NodeFields} :
    f ∈ (recordsOf sessions).flatten ↔ ∃ s ∈ sessions, f ∈ s.records := by
  simp [recordsOf]

/-- Every record has a name. -/
theorem namedRecords_recordsOf (sessions : List Session) :
    namedRecords (recordsOf sessions) = (recordsOf sessions).flatten := by
  refine List.filter_eq_self.mpr fun f hMem => ?_
  obtain ⟨s, -, hRecord⟩ := mem_recordsOf.mp hMem
  simp [Session.named_records hRecord]

theorem Measures.record_nonneg {w : NodeFields → Int} {measure : List Sample → Int}
    (hMeasures : Measures w measure) (hFits : ∀ s ∈ sessions, s.Fits) :
    ∀ f ∈ (recordsOf sessions).flatten, 0 ≤ w f := by
  intro f hMem
  obtain ⟨s, hSession, hRecord⟩ := mem_recordsOf.mp hMem
  rw [hMeasures.record s (hFits s hSession) f hRecord]
  exact hMeasures.nonneg _

theorem Bounded.countable (hBounded : Bounded sessions) : Countable (recordsOf sessions) := by
  have hFits := hBounded.fits
  refine ⟨?_, ?_, ?_, ?_⟩ <;> rw [namedRecords_recordsOf]
  · exact measures_length.record_nonneg hFits
  · exact measures_duration.record_nonneg hFits
  · rw [measures_length.total hFits]
    exact hBounded.length
  · rw [measures_duration.total hFits]
    exact hBounded.measurable.total

/-- A counter of the entry of a node. -/
theorem Measures.entry {get : PerNodeAccum → Int} {w : NodeFields → Int}
    {measure : List Sample → Int} (hMeasures : Measures w measure) (hCounts : Counts get w)
    (hFits : ∀ s ∈ sessions, s.Fits) (hRoom : measure (allSamples sessions) ≤ int64Max)
    (hSome : recordsNamed name (recordsOf sessions).flatten ≠ []) :
    get (mergedEntry (name, recordsNamed name (recordsOf sessions).flatten)) =
      measure (measuredOf sessions name) := by
  have hGroup : (name, recordsNamed name (recordsOf sessions).flatten) ∈
      groupsOf (recordsOf sessions).flatten := mem_group.mpr ⟨rfl, hSome⟩
  have hTotal : ((recordsOf sessions).flatten.map w).sum ≤ int64Max := by
    rw [hMeasures.total hFits]
    exact hRoom
  rw [hCounts.mergedEntry_eq (hMeasures.record_nonneg hFits) hTotal hGroup]
  exact hMeasures.node hFits name

/-- Nobody has measured a node without a record. -/
theorem recordsNamed_ne_nil :
    recordsNamed name (recordsOf sessions).flatten ≠ [] ↔ ∃ s ∈ sessions, name ∈ s.names := by
  constructor
  · intro hSome
    obtain ⟨f, hMem⟩ := List.exists_mem_of_ne_nil _ hSome
    obtain ⟨hRecord, rfl⟩ := mem_recordsNamed.mp hMem
    obtain ⟨s, hSession, hHere⟩ := mem_recordsOf.mp hRecord
    exact ⟨s, hSession, s.records_perm.mem_iff.mp (List.mem_map_of_mem hHere)⟩
  · rintro ⟨s, hSession, hName⟩
    obtain ⟨f, hRecord, rfl⟩ := List.mem_map.mp (s.records_perm.mem_iff.mpr hName)
    exact List.ne_nil_of_mem
      (mem_recordsNamed.mpr ⟨mem_recordsOf.mpr ⟨s, hSession, hRecord⟩, rfl⟩)

theorem reportsMeasured (hBounded : Bounded sessions) :
    ReportsMeasured sessions (report (accumulateFiles (recordsOf sessions))) := by
  have hFits := hBounded.fits
  have hFind : ∀ name, (report (accumulateFiles (recordsOf sessions))).find name =
      if recordsNamed name (recordsOf sessions).flatten = [] then none
      else some (mergedEntry (name, recordsNamed name (recordsOf sessions).flatten)).stats := by
    intro name
    rw [find_report, namedRecords_recordsOf]
    rfl
  have hCount := (counts_processCount.total hBounded.countable.processCount
    hBounded.countable.totalCount).2
  have hTime := (counts_processTime.total hBounded.countable.processTime
    hBounded.countable.totalTime).2
  rw [namedRecords_recordsOf] at hCount hTime
  refine ⟨fun name => ?_, fun name stats hStats => ?_, fun name stats hStats => ?_, ?_, ?_⟩
  · rw [hFind, ← recordsNamed_ne_nil]
    split <;> simp_all
  · rw [hFind] at hStats
    split at hStats
    · cases hStats
    · rename_i hSome
      obtain rfl := Option.some.inj hStats
      exact measures_length.entry counts_processCount hFits hBounded.length hSome
  · rw [hFind] at hStats
    split at hStats
    · cases hStats
    · rename_i hSome
      obtain rfl := Option.some.inj hStats
      exact measures_duration.entry counts_processTime hFits hBounded.measurable.total hSome
  · exact hCount.trans (measures_length.total hFits)
  · exact hTime.trans (measures_duration.total hFits)

/-- **The report says what has been measured**: the files of any sessions are read to their
end exactly if no mean is written with an exponent, and for ever if one is.  Once they have been
read, the report has each node of the sessions, with the number and the total duration of its
measured calls of `Process`. -/
theorem report_measured (sessions : List Session) (hBounded : Bounded sessions) :
    ((∃ result, Returns (readFiles sessions) result) ↔ ∀ s ∈ sessions, s.Plain) ∧
      ((∃ s ∈ sessions, ¬ s.Plain) → Diverges (readFiles sessions)) ∧
      ∀ status data, Returns (readFiles sessions) (status, data) →
        status = Status.okStatus ∧ ReportsMeasured sessions (report data) := by
  have hReads : (∀ s ∈ sessions, s.Plain) → Returns (readFiles sessions)
      (Status.okStatus, accumulateFiles (recordsOf sessions)) :=
    accumulateAll_returns hBounded.fits
  have hLoops : (∃ s ∈ sessions, ¬ s.Plain) → Diverges (readFiles sessions) :=
    accumulateAll_diverges hBounded.fits
  have hPlain : ∀ result, Returns (readFiles sessions) result → ∀ s ∈ sessions, s.Plain := by
    intro result hReturns s hSession
    by_contra hNot
    exact hReturns.not_diverges (hLoops ⟨s, hSession, hNot⟩)
  refine ⟨⟨fun ⟨result, hReturns⟩ => hPlain result hReturns, fun hAll => ⟨_, hReads hAll⟩⟩,
    hLoops, fun status data hReturns => ?_⟩
  obtain ⟨k, hEnough⟩ := hReturns.enough
  have hResult := (hReads (hPlain _ hReturns)).only k _ (hEnough k (Nat.le_refl k))
  obtain ⟨rfl, rfl⟩ := Prod.mk.inj hResult
  exact ⟨rfl, reportsMeasured hBounded⟩

end

/-! ### Two sessions of one node -/

/-- The profiler of a graph of one node. -/
def oneNodeProfiler : GraphProfiler where
  config := { enableProfiler := true }
  nodeData := [("n", tally 1000000 5 [])]
  isInitialized := true

theorem initialize_oneNode :
    GraphProfiler.initializeProfiler { enableProfiler := true } ["n"] = .ok oneNodeProfiler := rfl

/-- One call of `Process`, five microseconds long. -/
theorem exists_measured :
    ∃ c, Scope.machine.Reaches Scope.unreset (Scope.initial oneNodeProfiler 1000) c ∧
      c.frames = [] ∧ samplesOf "n" c.shared.measured = [(1000, 1005)] := by
  obtain ⟨c, hReach, hEnd⟩ := Scope.machine.exists_reaches Scope.unreset
    (Scope.initial oneNodeProfiler 1000)
    [.spawn .start, .spawn (.scope .processEvent "n" true), .run 1 (), .run 1 (),
      .spawn (.tick 5), .run 1 (), .run 1 (), .run 1 ()]
    (fun c => c.frames.isEmpty && decide (samplesOf "n" c.shared.measured = [(1000, 1005)]))
    (by decide)
  simp only [Bool.and_eq_true, List.isEmpty_iff, decide_eq_true_eq] at hEnd
  exact ⟨c, hReach, hEnd.1, hEnd.2⟩

theorem exists_session :
    ∃ s : Session, s.names = ["n"] ∧ s.samples "n" = [(1000, 1005)] ∧ s.Plain := by
  obtain ⟨c, hReach, hFrames, hSamples⟩ := exists_measured
  have hWritten : ∃ file, c.shared.writtenProfile
      (fun _ => .finite ⟨false, 5, 0, by decide, by decide⟩) "" "now" "/tmp/profile.json" =
        .ok file := ⟨_, rfl⟩
  obtain ⟨file, hFile⟩ := hWritten
  refine ⟨⟨_, _, _, _, c, _, _, _, _, file, rfl, by decide, by decide, by simp,
    List.nodup_singleton "n", initialize_oneNode, hReach, hFrames, hFile⟩, rfl, hSamples, ?_⟩
  intro node hNode
  obtain ⟨entry, -, rfl⟩ := List.mem_map.mp hNode
  exact Or.inr (by norm_num [FiniteDouble.magnitude])

/-- Two such sessions, and the report of their files. -/
theorem report_measured_twice :
    ∃ sessions data, Returns (readFiles sessions) (Status.okStatus, data) ∧
      ReportsMeasured sessions (report data) ∧
      measuredOf sessions "n" = [(1000, 1005), (1000, 1005)] := by
  obtain ⟨s, hNames, hSamples, hPlain⟩ := exists_session
  have hAll : allSamples [s, s] = [(1000, 1005), (1000, 1005)] := by
    simp [allSamples, hNames, hSamples]
  have hBounded : Bounded [s, s] := by
    refine ⟨⟨?_, ?_⟩, ?_⟩ <;> rw [hAll]
    · simp [Fits64, int64Min, int64Max]
    · decide
    · decide
  obtain ⟨hReads, -, hMeasured⟩ := report_measured [s, s] hBounded
  obtain ⟨⟨status, data⟩, hReturns⟩ := hReads.mpr (by simpa using hPlain)
  obtain ⟨rfl, hReport⟩ := hMeasured status data hReturns
  exact ⟨[s, s], data, hReturns, hReport, by simp [measuredOf, hNames, hSamples]⟩

end GraphRuntime.Profiler
