import Mathlib.Algebra.GroupWithZero.Nat
import Mathlib.Logic.Function.Basic
import GraphRuntime.Config.GraphConfig

/-!
# `ConfigValidator::Validate`

Five checks, in the source's order, each returning at its first failure.  The
three checks for repeated names are one scan (`firstRepeated`) under three
messages.

`ValidateConnectivity` compares an input's stream part with two name sets that
are not built alike: the graph inputs as they are written, and the stream parts
of the node outputs *and of the graph's own outputs*.  `connected_of_validate`
says what an accepted config therefore promises, and no more.

The cycle check is a depth-first search with an explicit stack; `Search` is its
local state and `Search.step` one iteration of its `while` loop.
-/

namespace GraphRuntime.Config

/-- `absl::InvalidArgumentError`. -/
def invalidArgumentError (message : String) : Status :=
  ⟨.invalidArgument, message⟩

/-- A loop that returns at the first element whose check fails. -/
def checkAll {α : Type} (check : α → Status) : List α → Status
  | [] => Status.okStatus
  | x :: rest => if (check x).isOk then checkAll check rest else check x

theorem isOk_checkAll {α : Type} {check : α → Status} {l : List α} :
    (checkAll check l).isOk ↔ ∀ x ∈ l, (check x).isOk := by
  induction l with
  | nil => simp [checkAll]
  | cons x rest ih =>
      rw [checkAll]
      by_cases hCheck : (check x).isOk
      · simp [hCheck, ih]
      · simp [hCheck]

/-! ## Repeated names -/

/-- The first element that is already in the set of those seen. -/
def firstRepeated (seen : List String) : List String → Option String
  | [] => none
  | x :: rest => if x ∈ seen then some x else firstRepeated (x :: seen) rest

theorem firstRepeated_eq_none {seen l : List String} :
    firstRepeated seen l = none ↔ l.Nodup ∧ ∀ x ∈ l, x ∉ seen := by
  induction l generalizing seen with
  | nil => simp [firstRepeated]
  | cons x rest ih =>
      rw [firstRepeated]
      by_cases hSeen : x ∈ seen
      · simp [hSeen]
      · rw [if_neg hSeen, ih, List.nodup_cons]
        constructor
        · rintro ⟨hRest, hNew⟩
          have hFresh : x ∉ rest := fun hMem => hNew x hMem (by simp)
          refine ⟨⟨hFresh, hRest⟩, ?_⟩
          intro y hMem
          rcases List.mem_cons.mp hMem with rfl | hMem
          · exact hSeen
          · exact fun hOld => hNew y hMem (List.mem_cons_of_mem _ hOld)
        · rintro ⟨⟨hFresh, hRest⟩, hNew⟩
          refine ⟨hRest, ?_⟩
          intro y hMem hOld
          rcases List.mem_cons.mp hOld with rfl | hOld
          · exact hFresh hMem
          · exact hNew y (List.mem_cons_of_mem _ hMem) hOld

/-- Fail with the message for the first repeated name. -/
def checkUnique (message : String → String) (names : List String) : Status :=
  match firstRepeated [] names with
  | none => Status.okStatus
  | some x => invalidArgumentError (message x)

theorem isOk_checkUnique {message : String → String} {names : List String} :
    (checkUnique message names).isOk ↔ names.Nodup := by
  have hScan : firstRepeated [] names = none ↔ names.Nodup ∧ ∀ x ∈ names, x ∉ [] :=
    firstRepeated_eq_none
  unfold checkUnique
  cases hFirst : firstRepeated [] names with
  | none => simpa [hFirst] using hScan
  | some x =>
      have hNot : ¬ names.Nodup := by simpa [hFirst] using hScan
      simp [hNot, invalidArgumentError, Status.isOk]

def validateUniqueNames (c : GraphConfig) : Status :=
  checkUnique ("duplicate node name: " ++ ·) (c.nodes.map (·.name))

def validateUniqueExecutors (c : GraphConfig) : Status :=
  checkUnique ("duplicate executor name: " ++ ·) (c.executors.map (·.name))

def validateNoDuplicateNodeInputs (c : GraphConfig) : Status :=
  checkAll
    (fun node => checkUnique
      (fun stream => "node '" ++ node.name ++ "': consumes stream '" ++ stream ++
        "' more than once (duplicate input edge)")
      (node.inputStreams.map streamName))
    c.nodes

/-! ## Connectivity -/

/-- `CollectOutputStreams`. -/
def collectOutputStreams (c : GraphConfig) : List String :=
  c.nodeOutputs ++ c.outputStreams.map streamName

/-- `CollectGraphInputStreams`. -/
def collectGraphInputStreams (c : GraphConfig) : List String := c.inputStreams

def checkInput (c : GraphConfig) (node : NodeDef) (input : String) : Status :=
  if streamName input ∈ collectGraphInputStreams c then Status.okStatus
  else if streamName input ∈ collectOutputStreams c then Status.okStatus
  else invalidArgumentError ("node '" ++ node.name ++ "': input stream '" ++
    streamName input ++ "' has no matching output stream in any node")

def validateConnectivity (c : GraphConfig) : Status :=
  checkAll (fun node => checkAll (checkInput c node) node.inputStreams) c.nodes

theorem isOk_checkInput {c : GraphConfig} {node : NodeDef} {input : String} :
    (checkInput c node input).isOk ↔
      streamName input ∈ c.inputStreams ∨ streamName input ∈ c.nodeOutputs ∨
        streamName input ∈ c.outputStreams.map streamName := by
  have hOutputs : streamName input ∈ collectOutputStreams c ↔
      streamName input ∈ c.nodeOutputs ∨
        streamName input ∈ c.outputStreams.map streamName := List.mem_append
  rw [← hOutputs]
  unfold checkInput collectGraphInputStreams
  by_cases hGraph : streamName input ∈ c.inputStreams
  · simp [hGraph]
  · by_cases hOutput : streamName input ∈ collectOutputStreams c
    · simp [hOutput]
    · simp [hGraph, hOutput, invalidArgumentError, Status.isOk]

/-! ## Cycles -/

/-- The indices of the nodes that output `stream`, one for each output entry. -/
def producerIndices (c : GraphConfig) (stream : String) : List Nat :=
  c.nodes.zipIdx.flatMap fun p =>
    (p.1.outputStreams.filter (streamName · = stream)).map fun _ => p.2

/-- `BuildDependencyGraph`: for each node the nodes it reads from. -/
def buildDependencyGraph (c : GraphConfig) : List (List Nat) :=
  c.nodes.map fun node =>
    node.inputStreams.flatMap fun input => producerIndices c (streamName input)

inductive VisitState
  | unvisited
  | inProgress
  | done
deriving DecidableEq

/-- Locals of the search: the frames `(node, next_child)`, top first, the path
from the start to the top, and the cycle once one is found. -/
structure Search where
  state : Nat → VisitState
  stack : List (Nat × Nat)
  path : List Nat
  cycle : Option (List Nat) := none

/-- One iteration of the `while` loop. -/
def Search.step (deps : List (List Nat)) (d : Search) : Search :=
  match d.stack with
  | [] => d
  | (node, nextChild) :: rest =>
      match (deps.getD node [])[nextChild]? with
      | none =>
          { d with
            state := Function.update d.state node .done
            stack := rest
            path := d.path.dropLast }
      | some child =>
          let stack := (node, nextChild + 1) :: rest
          match d.state child with
          | .inProgress =>
              { d with
                stack
                cycle := some (d.path.dropWhile (· ≠ child) ++ [child]) }
          | .unvisited =>
              { d with
                state := Function.update d.state child .inProgress
                stack := (child, 0) :: stack
                path := d.path ++ [child] }
          | .done => { d with stack }

/-- The `while` loop, for at most `fuel` iterations. -/
def Search.run (deps : List (List Nat)) : Nat → Search → Search
  | 0, d => d
  | fuel + 1, d =>
      if d.stack.isEmpty || d.cycle.isSome then d
      else Search.run deps fuel (d.step deps)

/-- Every iteration takes one entry of `deps` or closes one node. -/
def searchFuel (deps : List (List Nat)) : Nat :=
  deps.length + (deps.map List.length).sum

/-- The loop over the start nodes. -/
def findCycle (deps : List (List Nat)) :
    List Nat → (Nat → VisitState) → Option (List Nat)
  | [], _ => none
  | start :: rest, state =>
      if state start ≠ .unvisited then findCycle deps rest state
      else
        let d := Search.run deps (searchFuel deps)
          { state := Function.update state start .inProgress
            stack := [(start, 0)]
            path := [start] }
        match d.cycle with
        | some cycle => some cycle
        | none => findCycle deps rest d.state

/-- One turn of the loop that writes the cycle. -/
def appendCycleNode (c : GraphConfig) (cycleStr : String) (idx : Nat) : String :=
  (if cycleStr.isEmpty then cycleStr else cycleStr ++ " → ") ++
    ("'" ++ ((c.nodes[idx]?.map (·.name)).getD "") ++ "'")

def cycleMessage (c : GraphConfig) (cycleNodes : List Nat) : String :=
  "cycle detected: " ++ cycleNodes.foldl (appendCycleNode c) ""

def validateNoCycles (c : GraphConfig) : Status :=
  match findCycle (buildDependencyGraph c) (List.range c.nodes.length)
      fun _ => .unvisited with
  | none => Status.okStatus
  | some cycle =>
      if cycle.isEmpty then Status.okStatus
      else invalidArgumentError (cycleMessage c cycle)

/-! ## The whole check -/

def validate (c : GraphConfig) : Status :=
  let status := validateUniqueNames c
  if !status.isOk then status else
  let status := validateUniqueExecutors c
  if !status.isOk then status else
  let status := validateNoDuplicateNodeInputs c
  if !status.isOk then status else
  let status := validateConnectivity c
  if !status.isOk then status else
  validateNoCycles c

section

variable {c : GraphConfig}

/-- An accepted config passes each of the five checks. -/
theorem checks_of_validate (hValid : (validate c).isOk) :
    (validateUniqueNames c).isOk ∧ (validateUniqueExecutors c).isOk ∧
      (validateNoDuplicateNodeInputs c).isOk ∧ (validateConnectivity c).isOk ∧
      (validateNoCycles c).isOk := by
  unfold validate at hValid
  simp only [Bool.not_eq_true'] at hValid
  repeat' split at hValid
  all_goals simp_all

theorem names_nodup_of_validate (hValid : (validate c).isOk) :
    (c.nodes.map (·.name)).Nodup :=
  isOk_checkUnique.mp (checks_of_validate hValid).1

/-- **What acceptance says about an edge**: its stream part is a graph input,
a node output, or merely a declared output of the graph. -/
theorem connected_of_validate (hValid : (validate c).isOk) {n i : Nat}
    {input : String} (hEdge : c.edge n i = some input) :
    streamName input ∈ c.inputStreams ∨ streamName input ∈ c.nodeOutputs ∨
      streamName input ∈ c.outputStreams.map streamName := by
  have hConnected := (checks_of_validate hValid).2.2.2.1
  obtain ⟨node, hNode, hInput⟩ := edge_eq_some.mp hEdge
  have hChecked :=
    isOk_checkAll.mp hConnected node (List.mem_of_getElem? hNode)
  exact isOk_checkInput.mp
    (isOk_checkAll.mp hChecked input (List.mem_of_getElem? hInput))

end

example : (validate
    { nodes := [{ name := "a", type := "T", inputStreams := ["y"],
                  outputStreams := ["x"] },
                { name := "b", type := "T", inputStreams := ["x"],
                  outputStreams := ["y"] }] }).message =
    "cycle detected: 'a' → 'b' → 'a'" := by decide +kernel

end GraphRuntime.Config
