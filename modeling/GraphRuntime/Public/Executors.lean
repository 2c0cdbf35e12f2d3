import GraphRuntime.Public.Ports

/-!
# Executors, queues and nodes

The executors of a config, the queue `AssignNodeToQueue` chooses by a node's
executor name, and the default executor that `Build` makes for a config without
executors are decided in three places.  `executable_iff` says when they fit: a node
can be executed, on the executor it names, if and only if its name is that of a
defined executor, where the empty name also stands for the executor `Build` makes.

`wire_register` is what the loops of `Initialize` make, in whatever state they find the
runtime, of the members that no node holds (`Register`).
-/

namespace GraphRuntime.Public

open GraphRuntime.Config GraphRuntime.Stream GraphRuntime.Scheduler
open OrderedMap Interleaving

namespace Runtime

variable {c : GraphConfig}

/-! ## The register -/

/-- The members of a runtime that a node does not hold: the executors, the bookkeeping of
the graph inputs, and the output managers. -/
structure Register where
  nonDefaultQueues : List String
  hasDefaultExecutor : Bool
  graphInputStreamsSet : List String
  numOpenInputStreams : Nat
  totalGraphInputStreams : Nat
  graphInputOutputs : NameMap OutId
  outputs : List OutputStreamManager

/-- What a runtime keeps of executors and streams. -/
def register (r : Runtime) : Register where
  nonDefaultQueues := r.nonDefaultQueues
  hasDefaultExecutor := r.hasDefaultExecutor
  graphInputStreamsSet := r.graphInputStreamsSet
  numOpenInputStreams := r.numOpenInputStreams
  totalGraphInputStreams := r.totalGraphInputStreams
  graphInputOutputs := r.graphInputOutputs
  outputs := r.ownedOutputStreamManagers

/-- A loop whose body leaves the register alone leaves it alone. -/
theorem register_foldl {α : Type} {f : Runtime → α → Runtime}
    (hBody : ∀ r a, (f r a).register = r.register) (l : List α) (r : Runtime) :
    (l.foldl f r).register = r.register := by
  induction l generalizing r with
  | nil => rfl
  | cons a l ih => exact (ih (f r a)).trans (hBody r a)

theorem register_foldl_createInputManagers (nodes : List NodeDef)
    (p : Runtime × NameMap (List StreamId)) :
    (nodes.foldl createInputManagers p).1.register = p.1.register := by
  have hLoop : ∀ n (l : List String) (q : Runtime × List StreamId),
      (l.foldl (addInputManager n) q).1.register = q.1.register := by
    intro n l
    induction l with
    | nil => exact fun _ => rfl
    | cons input l ih => exact fun q => ih (addInputManager n q input)
  have hBody : ∀ (p : Runtime × NameMap (List StreamId)) d,
      (createInputManagers p d).1.register = p.1.register := by
    intro p d
    unfold createInputManagers
    split
    · rfl
    · exact hLoop _ _ _
  induction nodes generalizing p with
  | nil => rfl
  | cons d nodes ih => exact (ih _).trans (hBody p d)

/-- The managers made for the nodes' outputs join the others, open. -/
theorem register_createOutputManagers (nodes : List NodeDef) (r : Runtime) :
    ∃ made, (∀ m ∈ made, m.closed = false) ∧
      (nodes.foldl createOutputManagers r).register =
        { r.register with outputs := r.ownedOutputStreamManagers ++ made } := by
  have hBody : ∀ r d, ∃ made, (∀ m ∈ made, m.closed = false) ∧
      (createOutputManagers r d).register =
        { r.register with outputs := r.ownedOutputStreamManagers ++ made } := by
    intro r d
    unfold createOutputManagers
    repeat' split
    · exact ⟨[], by simp, by simp [register]⟩
    · exact ⟨[], by simp, by simp [register]⟩
    · exact ⟨_, by simp, rfl⟩
  induction nodes generalizing r with
  | nil => exact ⟨[], by simp, by simp [register]⟩
  | cons d nodes ih =>
      obtain ⟨first, hFirst, hRegister⟩ := hBody r d
      obtain ⟨later, hLater, hRest⟩ := ih (createOutputManagers r d)
      have hOutputs : (createOutputManagers r d).ownedOutputStreamManagers =
          r.ownedOutputStreamManagers ++ first := congrArg Register.outputs hRegister
      refine ⟨first ++ later, ?_, ?_⟩
      · intro m hMem
        exact (List.mem_append.mp hMem).elim (hFirst m) (hLater m)
      · rw [List.foldl_cons, hRest, hRegister, hOutputs, List.append_assoc]

theorem register_setArrivalCallbacks (managers : NameMap (List StreamId)) (r : Runtime)
    (d : NodeDef) : (setArrivalCallbacks managers r d).register = r.register := by
  unfold setArrivalCallbacks
  split
  · exact register_foldl (f := setArrivalCallback _) (fun _ _ => rfl) _ _
  · rfl

theorem register_createInputHandler (managers : NameMap (List StreamId)) (r : Runtime)
    (d : NodeDef) : (createInputHandler managers r d).register = r.register := by
  unfold createInputHandler
  repeat' split
  all_goals rfl

/-- The output managers may have other mirrors; none was opened or closed. -/
def SameOpen (r r' : Runtime) : Prop :=
  ∃ wired, wired.map (·.closed) = r.ownedOutputStreamManagers.map (·.closed) ∧
    r'.register = { r.register with outputs := wired }

theorem SameOpen.foldl {α : Type} {f : Runtime → α → Runtime}
    (hBody : ∀ r a, SameOpen r (f r a)) (l : List α) (r : Runtime) :
    SameOpen r (l.foldl f r) := by
  induction l generalizing r with
  | nil => exact ⟨_, rfl, rfl⟩
  | cons a l ih =>
      obtain ⟨first, hFirst, hRegister⟩ := hBody r a
      obtain ⟨wired, hWired, hRest⟩ := ih (f r a)
      have hOutputs : (f r a).ownedOutputStreamManagers = first :=
        congrArg Register.outputs hRegister
      refine ⟨wired, by rw [hWired, hOutputs, hFirst], ?_⟩
      rw [List.foldl_cons, hRest, hRegister]

theorem sameOpen_addMirror (r : Runtime) (o : OutId) (mirror : Mirror) :
    SameOpen r (r.addMirror o mirror) := by
  refine ⟨_, ?_, rfl⟩
  refine List.ext_getElem? fun k => ?_
  unfold addMirror
  rw [List.getElem?_map, List.getElem?_map, List.getElem?_modify]
  by_cases hEq : o = k
  · subst hEq
    cases r.ownedOutputStreamManagers[o]? <;> simp
  · simp [hEq]

theorem sameOpen_wireInputs (outputByStream : NameMap OutId) (r : Runtime) (d : NodeDef) :
    SameOpen r (wireInputs outputByStream r d) := by
  have hInput : ∀ h r input, SameOpen r (wireInput outputByStream h r input) := by
    intro h r input
    unfold wireInput
    split
    · exact ⟨_, rfl, rfl⟩
    · exact sameOpen_addMirror r _ _
  unfold wireInputs
  repeat' split
  · exact ⟨_, rfl, rfl⟩
  · exact ⟨_, rfl, rfl⟩
  · exact SameOpen.foldl (hInput _) _ _

/-- One graph input: the set of the inputs seen so far, and their count. -/
def countInput (p : List String × Nat) (input : String) : List String × Nat :=
  if input ∈ p.1 then p else (input :: p.1, p.2 + 1)

theorem foldl_countGraphInput (inputs : List String) (r : Runtime) :
    inputs.foldl countGraphInput r =
      { r with
        graphInputStreamsSet :=
          (inputs.foldl countInput (r.graphInputStreamsSet, r.numOpenInputStreams)).1
        numOpenInputStreams :=
          (inputs.foldl countInput (r.graphInputStreamsSet, r.numOpenInputStreams)).2 } := by
  induction inputs generalizing r with
  | nil => rfl
  | cons input inputs ih =>
      rw [List.foldl_cons, List.foldl_cons, ih]
      by_cases hSeen : input ∈ r.graphInputStreamsSet
      · simp [countGraphInput, countInput, hSeen]
      · simp [countGraphInput, countInput, hSeen]

/-- **What `Initialize` makes of the register**: the queues are those of the new
scheduler, the graph inputs are added to what was counted and mapped before, and behind
each of them stands a new manager, which is open. -/
theorem wire_register (c : GraphConfig) (r built : Runtime) :
    ∃ pairs outputs, pairs.map Prod.fst = c.inputStreams ∧ (pairs.map Prod.snd).Nodup ∧
      r.ownedOutputStreamManagers.length ≤ outputs.length ∧
      (∀ q ∈ pairs, r.ownedOutputStreamManagers.length ≤ q.2 ∧
        (outputs[q.2]?).map (·.closed) = some false) ∧
      (wire c r built).register =
        let counted := c.inputStreams.foldl countInput
          (r.graphInputStreamsSet, r.numOpenInputStreams)
        { nonDefaultQueues := built.nonDefaultQueues
          hasDefaultExecutor := built.hasDefaultExecutor
          graphInputStreamsSet := counted.1
          numOpenInputStreams := counted.2
          totalGraphInputStreams := counted.2
          graphInputOutputs := insertAll r.graphInputOutputs pairs
          outputs := outputs } := by
  simp only [wire]
  obtain ⟨r₀, hR₀⟩ : ∃ r₀ : Runtime, r₀ = { r with
    nonDefaultQueues := built.nonDefaultQueues
    hasDefaultExecutor := built.hasDefaultExecutor
    allNodes := built.allNodes
    inputPorts := fun _ => ∅
    inputStreamHandler := fun _ => none
    outputStreamHandler := fun _ => none } := ⟨_, rfl⟩
  rw [← hR₀]
  have hMade := register_foldl_createInputManagers c.nodes (r₀, ∅)
  generalize c.nodes.foldl createInputManagers (r₀, ∅) = made at hMade ⊢
  have hSet : made.1.graphInputStreamsSet = r.graphInputStreamsSet :=
    (congrArg Register.graphInputStreamsSet hMade).trans (by rw [hR₀]; rfl)
  have hCount : made.1.numOpenInputStreams = r.numOpenInputStreams :=
    (congrArg Register.numOpenInputStreams hMade).trans (by rw [hR₀]; rfl)
  have hOutputs : made.1.ownedOutputStreamManagers = r.ownedOutputStreamManagers :=
    (congrArg Register.outputs hMade).trans (by rw [hR₀]; rfl)
  rw [foldl_countGraphInput, hSet, hCount]
  generalize c.inputStreams.foldl countInput
    (r.graphInputStreamsSet, r.numOpenInputStreams) = counted
  obtain ⟨r₁, hR₁⟩ : ∃ r₁ : Runtime, r₁ = { made.1 with
    graphInputStreamsSet := counted.1
    numOpenInputStreams := counted.2
    totalGraphInputStreams := counted.2 } := ⟨_, rfl⟩
  rw [← hR₁]
  generalize hR₂ : c.nodes.foldl (createInputHandler made.2)
    (c.nodes.foldl (setArrivalCallbacks made.2) (c.nodes.foldl createOutputManagers r₁)) = r₂
  obtain ⟨nodeOutputs, -, hRegister₂⟩ := register_createOutputManagers c.nodes r₁
  rw [← register_foldl (register_setArrivalCallbacks made.2) c.nodes,
    ← register_foldl (register_createInputHandler made.2) c.nodes, hR₂] at hRegister₂
  have hOutputs₂ : r₂.ownedOutputStreamManagers = r.ownedOutputStreamManagers ++ nodeOutputs := by
    refine (congrArg Register.outputs hRegister₂).trans ?_
    rw [hR₁, ← hOutputs]
  obtain ⟨pairs, hKeys, hNumbers, hFold⟩ := foldl_createGraphInput c.inputStreams r₂
    (c.nodes.foldl r₂.collectOutputs ∅)
  rw [hFold]
  obtain ⟨r₃, hR₃⟩ : ∃ r₃ : Runtime, r₃ =
    { r₂ with
      ownedOutputStreamManagers := r₂.ownedOutputStreamManagers ++
        c.inputStreams.map fun name => { spec := { name } }
      graphInputOutputs := insertAll r₂.graphInputOutputs pairs } := ⟨_, rfl⟩
  rw [← hR₃]
  obtain ⟨wired, hClosed, hWired⟩ := SameOpen.foldl
    (sameOpen_wireInputs (insertAll (c.nodes.foldl r₂.collectOutputs ∅) pairs)) c.nodes r₃
  refine ⟨pairs, wired, hKeys, hNumbers ▸ List.nodup_range', ?_, ?_, ?_⟩
  · have hLength : wired.length = r₃.ownedOutputStreamManagers.length := by
      simpa using congrArg List.length hClosed
    rw [hLength, hR₃, List.length_append, hOutputs₂, List.length_append]
    omega
  · intro q hMem
    have hNumber : q.2 ∈ pairs.map Prod.snd := List.mem_map_of_mem hMem
    rw [hNumbers, List.mem_range'_1] at hNumber
    obtain ⟨hLow, hHigh⟩ := hNumber
    constructor
    · refine Nat.le_trans ?_ hLow
      rw [hOutputs₂, List.length_append]
      omega
    · rw [← List.getElem?_map, hClosed, hR₃, List.map_append,
        List.getElem?_append_right (by simpa using hLow)]
      simp only [List.map_map, List.length_map, List.getElem?_map]
      rw [List.getElem?_eq_getElem (Nat.sub_lt_left_of_lt_add hLow hHigh)]
      rfl
  · rw [hWired, hR₃]
    show { r₂.register with
      graphInputOutputs := insertAll r₂.register.graphInputOutputs pairs, outputs := wired } = _
    rw [hRegister₂, hR₁]
    show { made.1.register with
      graphInputStreamsSet := counted.1
      numOpenInputStreams := counted.2
      totalGraphInputStreams := counted.2
      graphInputOutputs := insertAll made.1.register.graphInputOutputs pairs
      outputs := wired } = _
    rw [hMade, hR₀]
    rfl

end Runtime

/-! ## The executors of a config -/

section

variable {registered : String → Bool} {c : GraphConfig} {r : Runtime}

/-- One executor: a queue of its own under its name, or the default queue's. -/
theorem foldl_addExecutor (executors : List ExecutorDef) (r : Runtime) :
    executors.foldl Runtime.addExecutor r =
      { r with
        nonDefaultQueues := r.nonDefaultQueues ++
          (executors.map (·.name)).filter (· ≠ "")
        hasDefaultExecutor := r.hasDefaultExecutor ||
          decide ("" ∈ executors.map (·.name)) } := by
  induction executors generalizing r with
  | nil => simp
  | cons e executors ih =>
      rw [List.foldl_cons, ih]
      by_cases hEmpty : e.name = ""
      · simp [Runtime.addExecutor, hEmpty]
      · have hSome : e.name.isEmpty = false := by simpa using hEmpty
        have hOther : "" ≠ e.name := fun hEq => hEmpty hEq.symm
        simp [Runtime.addExecutor, hSome, hEmpty, hOther]

/-- The executors `Build` leaves in the scheduler. -/
theorem build_executors (hBuild : build registered c = .ok r) :
    r.nonDefaultQueues = (c.executors.map (·.name)).filter (· ≠ "") ∧
      (r.hasDefaultExecutor = true ↔ c.executors = [] ∨ "" ∈ c.executors.map (·.name)) := by
  unfold build at hBuild
  by_cases hValid : (validate c).isOk
  · cases hNodes : createNodes registered c.nodes [] with
    | error status => simp [hValid, hNodes, Except.map] at hBuild
    | ok nodes =>
        have hResult : { createExecutors c {} with allNodes := nodes } = r := by
          simpa [hValid, hNodes, Except.map] using hBuild
        rw [← hResult]
        simp only [createExecutors, foldl_addExecutor]
        by_cases hNone : c.executors = []
        · simp [hNone]
        · have hSome : c.executors.isEmpty = false := by simpa using hNone
          simp [hSome, hNone]
  · simp [hValid] at hBuild

theorem initialize_executors (hInit : initializeGraph registered c {} = .ok r) :
    r.nonDefaultQueues = (c.executors.map (·.name)).filter (· ≠ "") ∧
      (r.hasDefaultExecutor = true ↔ c.executors = [] ∨ "" ∈ c.executors.map (·.name)) := by
  unfold initializeGraph at hInit
  cases hBuild : build registered c with
  | error status => simp [hBuild, Except.map] at hInit
  | ok built =>
      obtain ⟨pairs, outputs, -, -, -, -, hRegister⟩ := Runtime.wire_register c {} built
      have hResult : Runtime.wire c {} built = r := by simpa [hBuild, Except.map] using hInit
      rw [hResult] at hRegister
      have hQueues : r.nonDefaultQueues = built.nonDefaultQueues :=
        congrArg Runtime.Register.nonDefaultQueues hRegister
      have hDefault : r.hasDefaultExecutor = built.hasDefaultExecutor :=
        congrArg Runtime.Register.hasDefaultExecutor hRegister
      rw [hQueues, hDefault]
      exact build_executors hBuild

/-! ## Nodes that can be executed -/

/-- A request that a running queue takes is submitted to an executor. -/
structure Submits (g : Graph) (n : NodeId) : Prop where
  request : ∀ s, accepts g s n = true → (s.queues (g.queue n)).running = true →
    (scheduleNode g s n).2 = [.submitToExecutor (g.queue n)]
  task : ∀ s x, ∃ s', exec g s (.submitToExecutor (g.queue n)) x =
    some (s', [.addTask (g.queue n)])

/-- Node `n` can be executed, and on the executor its definition names. -/
structure Executable (r : Runtime) (g : Graph) (n : NodeId) (d : NodeDef) : Prop where
  executor : g.hasExecutor (g.queue n) = true
  named : d.executor ≠ "" →
    ∃ i, r.nonDefaultQueues[i]? = some d.executor ∧ g.queue n = i + 1
  submits : Submits g n

theorem submits_of_executor {g : Graph} {n : NodeId}
    (hExecutor : g.hasExecutor (g.queue n) = true) : Submits g n := by
  constructor
  · intro s hAccepts hRunning
    rcases scheduleNode_cases g s n with ⟨hRefused, -⟩ | ⟨-, -, -, hFrames⟩
    · unfold accepts at hAccepts
      rw [Bool.and_eq_true, decide_eq_true_eq] at hAccepts
      rcases hRefused with hUnassigned | hLimit
      · exact absurd hAccepts.1 (by simp [hUnassigned])
      · omega
    · rw [hFrames, if_pos hRunning]
  · intro s x
    exact ⟨_, if_pos hExecutor⟩

theorem Runtime.assignNodeToQueue_named {executor : String} (hNamed : executor ≠ "")
    (hDefined : executor ∈ r.nonDefaultQueues) :
    ∃ i, r.nonDefaultQueues[i]? = some executor ∧ r.assignNodeToQueue executor = i + 1 := by
  have hSome : executor.isEmpty = false := by simpa using hNamed
  cases hFound : r.nonDefaultQueues.findIdx? (· == executor) with
  | none =>
      have hNone := List.findIdx?_eq_none_iff.mp hFound executor hDefined
      simp at hNone
  | some i =>
      obtain ⟨hLt, hEq, -⟩ := List.findIdx?_eq_some_iff_getElem.mp hFound
      refine ⟨i, ?_, ?_⟩
      · rw [List.getElem?_eq_getElem hLt]
        simpa using hEq
      · simp [assignNodeToQueue, hSome, hFound]

/-- **Every node can be executed**, on the executor it names, if and only if every
node names an executor of the config; the empty name is also that of the executor
`Build` makes for a config that has none. -/
theorem executable_iff (hInit : initializeGraph registered c {} = .ok r) (env : Environment) :
    (∀ n d, c.nodes[n]? = some d →
      Executable r (Runtime.graph (initialized_of_eq_ok hInit) env) n d) ↔
    ∀ d ∈ c.nodes, d.executor ∈ c.executors.map (·.name) ∨
      (d.executor = "" ∧ c.executors = []) := by
  obtain ⟨hQueues, hDefault⟩ := initialize_executors hInit
  have hQueue : ∀ n d, c.nodes[n]? = some d →
      (Runtime.graph (initialized_of_eq_ok hInit) env).queue n = r.assignNodeToQueue d.executor := by
    intro n d hNode
    show r.assignNodeToQueue (((r.allNodes[n]?).map (·.executorName)).getD "") = _
    rw [(initialized_of_eq_ok hInit).nodes, List.getElem?_map, hNode]
    rfl
  have hExecutor : ∀ q, (Runtime.graph (initialized_of_eq_ok hInit) env).hasExecutor q =
      if q = 0 then r.hasDefaultExecutor else true := fun _ => rfl
  generalize Runtime.graph (initialized_of_eq_ok hInit) env = g at hQueue hExecutor ⊢
  constructor
  · intro hAll d hMem
    obtain ⟨n, hNode⟩ := List.mem_iff_getElem?.mp hMem
    obtain ⟨hServed, hNamed, -⟩ := hAll n d hNode
    by_cases hEmpty : d.executor = ""
    · have hZero : r.assignNodeToQueue d.executor = 0 := by
        simp [Runtime.assignNodeToQueue, hEmpty]
      have hHas : r.hasDefaultExecutor = true := by
        rw [hExecutor, hQueue n d hNode, hZero] at hServed
        exact hServed
      rw [hEmpty]
      exact (hDefault.mp hHas).elim (fun hNone => Or.inr ⟨rfl, hNone⟩) Or.inl
    · obtain ⟨i, hFound, -⟩ := hNamed hEmpty
      have hDefined := List.mem_of_getElem? hFound
      rw [hQueues, List.mem_filter] at hDefined
      exact Or.inl hDefined.1
  · intro hNames n d hNode
    have hDefined := hNames d (List.mem_of_getElem? hNode)
    by_cases hEmpty : d.executor = ""
    · have hZero : r.assignNodeToQueue d.executor = 0 := by
        simp [Runtime.assignNodeToQueue, hEmpty]
      have hHas : r.hasDefaultExecutor = true := by
        rw [hEmpty] at hDefined
        exact hDefault.mpr (hDefined.elim Or.inr fun hNone => Or.inl hNone.2)
      have hServed : g.hasExecutor (g.queue n) = true := by
        rw [hExecutor, hQueue n d hNode, hZero]
        exact hHas
      exact ⟨hServed, fun hNamed => absurd hEmpty hNamed, submits_of_executor hServed⟩
    · have hMem : d.executor ∈ r.nonDefaultQueues := by
        rw [hQueues, List.mem_filter]
        exact ⟨hDefined.elim id fun hNone => absurd hNone.1 hEmpty, by simpa using hEmpty⟩
      obtain ⟨i, hFound, hAssigned⟩ := Runtime.assignNodeToQueue_named hEmpty hMem
      have hServed : g.hasExecutor (g.queue n) = true := by
        rw [hExecutor, hQueue n d hNode, hAssigned]
        rfl
      refine ⟨hServed, fun _ => ⟨i, hFound, ?_⟩, submits_of_executor hServed⟩
      rw [hQueue n d hNode, hAssigned]

end

/-- A node on an executor of its own beside one on the default executor. -/
def twoExecutorsConfig : GraphConfig where
  nodes := [{ name := "camera", type := "Camera", executor := "io" },
            { name := "clock", type := "Clock" }]
  executors := [{ name := "io" }, { name := "" }]

theorem executable_twoExecutors :
    ∃ r, ∃ hInit : initializeGraph (fun _ => true) twoExecutorsConfig {} = .ok r,
      ∀ n d, twoExecutorsConfig.nodes[n]? = some d →
        Executable r (Runtime.graph (initialized_of_eq_ok hInit) {}) n d := by
  obtain ⟨r, hInit⟩ := exists_eq_ok
    (e := initializeGraph (fun _ => true) twoExecutorsConfig {}) (by decide +kernel)
  exact ⟨r, hInit, (executable_iff hInit _).mpr (by decide +kernel)⟩

/-- The second node names no executor, and the config defines only a named one. -/
def namedOnlyConfig : GraphConfig where
  nodes := [{ name := "camera", type := "Camera", executor := "io" },
            { name := "clock", type := "Clock" }]
  executors := [{ name := "io" }]

/-- `Build` accepts it; the second node's queue has no executor, and a request that the
running queue takes goes nowhere. -/
theorem executable_namedOnly :
    ∃ r, ∃ hInit : initializeGraph (fun _ => true) namedOnlyConfig {} = .ok r,
      let g := Runtime.graph (initialized_of_eq_ok hInit) {}
      g.hasExecutor (g.queue 1) = false ∧
        (∀ s x, exec g s (.submitToExecutor (g.queue 1)) x = some (s, [])) ∧
        ¬ ∀ n d, namedOnlyConfig.nodes[n]? = some d → Executable r g n d := by
  obtain ⟨r, hInit⟩ := exists_eq_ok
    (e := initializeGraph (fun _ => true) namedOnlyConfig {}) (by decide +kernel)
  refine ⟨r, hInit, ?_⟩
  intro g
  have hNone : g.hasExecutor (g.queue 1) = false := by
    have hTest : ((initializeGraph (fun _ => true) namedOnlyConfig {}).toOption.map fun r =>
        decide (r.assignNodeToQueue (((r.allNodes[1]?).map (·.executorName)).getD "") = 0) &&
          !r.hasDefaultExecutor) = some true := by decide +kernel
    rw [hInit] at hTest
    obtain ⟨hZero, hDefault⟩ := Bool.and_eq_true_iff.mp (Option.some.inj hTest)
    have hQueue : g.queue 1 = 0 := of_decide_eq_true hZero
    rw [hQueue]
    show r.hasDefaultExecutor = false
    simpa using hDefault
  refine ⟨hNone, ?_, ?_⟩
  · intro s x
    exact if_neg (by simp [hNone])
  · intro hAll
    exact absurd (hAll 1 _ rfl).executor (by simp [hNone])

end GraphRuntime.Public
