import GraphRuntime.Lib.OrderedMap
import GraphRuntime.Public.Initialize

/-!
# What `Initialize` wires
-/

namespace GraphRuntime.Public

open GraphRuntime.Config GraphRuntime.Stream Transition OrderedMap

/-! ## Positions -/

/-- How many input edges some nodes have. -/
def edgeCount (nodes : List NodeDef) : Nat :=
  (nodes.map (·.inputStreams.length)).sum

/-- How many outputs some nodes have. -/
def outputCount (nodes : List NodeDef) : Nat :=
  (nodes.map (·.outputStreams.length)).sum

/-- The `InputStreamManager` made for entry `i` of node `n`'s `input_streams`:
managers are made in the order of the nodes and of their inputs. -/
def edgeManager (c : GraphConfig) (n i : Nat) : StreamId :=
  edgeCount (c.nodes.take n) + i

@[simp] theorem edgeCount_append (xs ys : List NodeDef) :
    edgeCount (xs ++ ys) = edgeCount xs + edgeCount ys := by
  simp [edgeCount]

@[simp] theorem outputCount_append (xs ys : List NodeDef) :
    outputCount (xs ++ ys) = outputCount xs + outputCount ys := by
  simp [outputCount]

@[simp] theorem edgeCount_singleton (d : NodeDef) :
    edgeCount [d] = d.inputStreams.length := by simp [edgeCount]

/-- A fact about the nodes before the last and the last itself is one about
every node. -/
theorem forall_getElem?_concat {P : Nat → NodeDef → Prop} {done : List NodeDef}
    {d : NodeDef} (hDone : ∀ n e, done[n]? = some e → P n e)
    (hLast : P done.length d) :
    ∀ n e, (done ++ [d])[n]? = some e → P n e := by
  intro n e hNode
  rcases Nat.lt_trichotomy n done.length with hLt | hEq | hGt
  · rw [List.getElem?_append_left hLt] at hNode
    exact hDone n e hNode
  · subst hEq
    rw [List.getElem?_concat_length, Option.some.injEq] at hNode
    exact hNode ▸ hLast
  · rw [List.getElem?_eq_none (by simp; omega)] at hNode
    exact absurd hNode (by simp)

theorem lt_length_of_getElem? {α : Type} {l : List α} {n : Nat} {x : α}
    (hNode : l[n]? = some x) : n < l.length :=
  (List.getElem?_eq_some_iff.mp hNode).1

/-- Prefixes of the nodes done do not change when one more is done. -/
theorem take_concat {done : List NodeDef} {d e : NodeDef} {n : Nat}
    (hNode : done[n]? = some e) : (done ++ [d]).take n = done.take n :=
  List.take_append_of_le_length (Nat.le_of_lt (lt_length_of_getElem? hNode))

theorem split_of_getElem? {α : Type} {l : List α} {n : Nat} {x : α}
    (hNode : l[n]? = some x) : l = l.take n ++ x :: l.drop (n + 1) := by
  obtain ⟨hLt, hEq⟩ := List.getElem?_eq_some_iff.mp hNode
  rw [← hEq, ← List.drop_eq_getElem_cons hLt, List.take_append_drop]

theorem edge_lt_edgeCount {nodes : List NodeDef} {n i : Nat} {d : NodeDef}
    (hNode : nodes[n]? = some d) (hInput : i < d.inputStreams.length) :
    edgeCount (nodes.take n) + i < edgeCount nodes := by
  have hCount := congrArg edgeCount (split_of_getElem? hNode)
  have hCons : edgeCount (d :: nodes.drop (n + 1)) =
      d.inputStreams.length + edgeCount (nodes.drop (n + 1)) := by
    simp [edgeCount]
  rw [edgeCount_append, hCons] at hCount
  omega

/-- The entries of one element among those of all elements. -/
theorem getElem?_flatMap_of_split {α β : Type} {f : α → List β}
    {l done rest : List α} {x : α} (hSplit : l = done ++ x :: rest) {i : Nat}
    {y : β} (hEntry : (f x)[i]? = some y) :
    (l.flatMap f)[(done.map fun z => (f z).length).sum + i]? = some y := by
  have hLength : (done.flatMap f).length =
      (done.map fun z => (f z).length).sum := by simp [List.length_flatMap]
  rw [hSplit, List.flatMap_append, List.flatMap_cons,
    List.getElem?_append_right (by omega), hLength, Nat.add_sub_cancel_left,
    List.getElem?_append_left (lt_length_of_getElem? hEntry), hEntry]

section

variable {c : GraphConfig} {done rest : List NodeDef} {d : NodeDef} {r : Runtime}

/-- In a config with distinct node names `FindNode` finds the node that was
made for the definition. -/
theorem findNode_of_split (hNames : (c.nodes.map (·.name)).Nodup)
    (hNodes : r.allNodes = c.nodes.map Node.ofDef)
    (hSplit : c.nodes = done ++ d :: rest) :
    r.findNode d.name = some done.length := by
  have hBefore : ∀ e ∈ done, e.name ≠ d.name := by
    intro e hMem hEq
    rw [hSplit, List.map_append, List.nodup_append] at hNames
    exact hNames.2.2 e.name (List.mem_map_of_mem hMem) d.name (by simp) hEq
  have hNone : done.findIdx? (fun e => e.name == d.name) = none := by
    rw [List.findIdx?_eq_none_iff]
    intro e hMem
    simpa using hBefore e hMem
  have hMap : (c.nodes.map Node.ofDef).findIdx? (·.name == d.name) =
      c.nodes.findIdx? (·.name == d.name) := by
    rw [List.findIdx?_map]
    rfl
  rw [Runtime.findNode, hNodes, hMap, hSplit, List.findIdx?_append, hNone]
  simp [List.findIdx?_cons]

theorem name_not_mem_done (hNames : (c.nodes.map (·.name)).Nodup)
    (hSplit : c.nodes = done ++ d :: rest) : d.name ∉ done.map (·.name) := by
  rw [hSplit, List.map_append, List.nodup_append] at hNames
  intro hMem
  exact hNames.2.2 d.name hMem d.name (by simp) rfl

end

/-! ## The managers of the input edges -/

/-- `input_ports_` of a node whose managers are numbered from `start`. -/
def portsFrom (start : Nat) (inputs : List String) : NameMap StreamId :=
  insertAll ∅ ((inputs.zipIdx start).map fun p => (portName p.1, p.2))

/-- `input_ports_` of the nodes done. -/
def portsOf (nodes : List NodeDef) (n : NodeId) : NameMap StreamId :=
  match nodes[n]? with
  | none => ∅
  | some d => portsFrom (edgeCount (nodes.take n)) d.inputStreams

theorem portsOf_concat (done : List NodeDef) (d : NodeDef) :
    portsOf (done ++ [d]) = Function.update (portsOf done) done.length
      (portsFrom (edgeCount done) d.inputStreams) := by
  funext n
  rcases Nat.lt_trichotomy n done.length with hLt | hEq | hGt
  · rw [Function.update_of_ne (Nat.ne_of_lt hLt), portsOf, portsOf,
      List.getElem?_append_left hLt,
      List.take_append_of_le_length (Nat.le_of_lt hLt)]
  · subst hEq
    simp [portsOf]
  · rw [Function.update_of_ne (Nat.ne_of_gt hGt), portsOf, portsOf,
      List.getElem?_eq_none (by simp; omega), List.getElem?_eq_none (by omega)]

namespace Runtime

/-- The loop over one node's `input_streams`. -/
theorem foldl_addInputManager (n : NodeId) (inputs : List String)
    (p : Runtime × List StreamId) :
    inputs.foldl (addInputManager n) p =
      ({ p.1 with
          ownedStreamManagers :=
            p.1.ownedStreamManagers ++ inputs.map ({ name := · })
          inputPorts := Function.update p.1.inputPorts n
            (insertAll (p.1.inputPorts n)
              ((inputs.zipIdx p.1.ownedStreamManagers.length).map
                fun q => (portName q.1, q.2))) },
        p.2 ++ List.range' p.1.ownedStreamManagers.length inputs.length) := by
  induction inputs generalizing p with
  | nil => simp [insertAll]
  | cons input rest ih =>
      rw [List.foldl_cons, ih]
      simp [addInputManager, insertAll_cons, List.range'_succ,
        List.zipIdx_cons]

/-- The first loop, after the nodes `done`. -/
structure InputsMade (r₀ : Runtime) (done : List NodeDef)
    (p : Runtime × NameMap (List StreamId)) : Prop where
  runtime : p.1 =
    { r₀ with
      ownedStreamManagers := (done.flatMap (·.inputStreams)).map ({ name := · })
      inputPorts := portsOf done }
  managers : ∀ n d, done[n]? = some d →
    p.2[d.name]? =
      some (List.range' (edgeCount (done.take n)) d.inputStreams.length)
  fresh : ∀ name, name ∉ done.map (·.name) → p.2[name]? = none

theorem inputsMade {c : GraphConfig} {r : Runtime}
    (hNames : (c.nodes.map (·.name)).Nodup)
    (hNodes : r.allNodes = c.nodes.map Node.ofDef)
    (hManagers : r.ownedStreamManagers = [])
    (hPorts : r.inputPorts = fun _ => ∅) :
    InputsMade r c.nodes (c.nodes.foldl createInputManagers (r, ∅)) := by
  apply foldl_invariant
  · refine ⟨?_, by simp, by simp⟩
    have hEmpty : portsOf [] = fun _ => ∅ := rfl
    simp [hEmpty, ← hManagers, ← hPorts]
  · intro done d rest p hSplit hMade
    have hFresh : p.2[d.name]? = none :=
      hMade.fresh d.name (name_not_mem_done hNames hSplit)
    have hFind : p.1.findNode d.name = some done.length := by
      apply findNode_of_split hNames _ hSplit
      rw [hMade.runtime]
      exact hNodes
    have hCount : p.1.ownedStreamManagers.length = edgeCount done := by
      rw [hMade.runtime]
      simp [edgeCount, List.length_flatMap]
    have hHere : p.1.inputPorts done.length = ∅ := by
      rw [hMade.runtime]
      simp [portsOf]
    have hResult : createInputManagers p d =
        ({ p.1 with
            ownedStreamManagers :=
              p.1.ownedStreamManagers ++ d.inputStreams.map ({ name := · })
            inputPorts := Function.update p.1.inputPorts done.length
              (portsFrom (edgeCount done) d.inputStreams) },
          p.2.insert d.name
            (List.range' (edgeCount done) d.inputStreams.length)) := by
      have hNone : p.2.getD d.name [] = [] := by
        rw [Std.TreeMap.getD_eq_getD_getElem?, hFresh]
        rfl
      simp [createInputManagers, hFind, foldl_addInputManager, hNone, hCount,
        hHere, portsFrom]
    rw [hResult]
    constructor
    · simp [hMade.runtime, portsOf_concat]
    · apply forall_getElem?_concat
      · intro n e hNode
        have hNe : d.name ≠ e.name := by
          intro hEq
          apply name_not_mem_done hNames hSplit
          exact hEq ▸ List.mem_map_of_mem (List.mem_of_getElem? hNode)
        rw [getElem?_insert_of_ne hNe, hMade.managers n e hNode,
          take_concat hNode]
      · rw [getElem?_insert_self]
        simp
    · intro name hName
      simp only [List.map_append, List.mem_append, not_or] at hName
      rw [getElem?_insert_of_ne (by simpa [eq_comm] using hName.2)]
      exact hMade.fresh name hName.1

/-- Counting the graph inputs touches nothing else. -/
theorem countGraphInputs (inputs : List String) (r : Runtime) :
    ∃ seen count, inputs.foldl countGraphInput r =
      { r with graphInputStreamsSet := seen, numOpenInputStreams := count } := by
  induction inputs generalizing r with
  | nil => exact ⟨_, _, rfl⟩
  | cons input rest ih =>
      rw [List.foldl_cons, countGraphInput]
      split
      · exact ih r
      · exact ih _

/-! ## The managers of the node outputs -/

/-- `OutputStreamHandler`s after the nodes `done`: a node's managers are those
made for its outputs, in order. -/
structure OutputsMade (done : List NodeDef) (handlers : List (List OutId))
    (handler : NodeId → Option HandlerId) : Prop where
  managers : ∀ n d, done[n]? = some d →
    ((handler n).bind (handlers[·]?)).getD [] =
      List.range' (outputCount (done.take n)) d.outputStreams.length
  known : ∀ n h : Nat, handler n = some h →
    n < done.length ∧ h < handlers.length

theorem OutputsMade.concat {done : List NodeDef} {handlers : List (List OutId)}
    {handler : NodeId → Option HandlerId} (hMade : OutputsMade done handlers handler)
    (d : NodeDef) :
    OutputsMade (done ++ [d])
      (handlers ++ [List.range' (outputCount done) d.outputStreams.length])
      (Function.update handler done.length (some handlers.length)) := by
  constructor
  · apply forall_getElem?_concat
    · intro n e hNode
      have hNe : n ≠ done.length := Nat.ne_of_lt (lt_length_of_getElem? hNode)
      rw [Function.update_of_ne hNe, take_concat hNode,
        ← hMade.managers n e hNode]
      cases hHandler : handler n with
      | none => rfl
      | some h =>
          have hLt : h < handlers.length := (hMade.known n h hHandler).2
          simp only [Option.bind_some]
          rw [List.getElem?_append_left hLt]
    · simp
  · intro n h hHandler
    by_cases hEq : n = done.length
    · subst hEq
      rw [Function.update_self, Option.some.injEq] at hHandler
      simp [← hHandler]
    · rw [Function.update_of_ne hEq] at hHandler
      have hKnown := hMade.known n h hHandler
      simp only [List.length_append, List.length_singleton]
      omega

/-- A node without outputs gets no handler, and has no managers. -/
theorem OutputsMade.skip {done : List NodeDef} {handlers : List (List OutId)}
    {handler : NodeId → Option HandlerId} (hMade : OutputsMade done handlers handler)
    {d : NodeDef} (hNone : d.outputStreams = []) :
    OutputsMade (done ++ [d]) handlers handler := by
  constructor
  · apply forall_getElem?_concat
    · intro n e hNode
      rw [take_concat hNode]
      exact hMade.managers n e hNode
    · have hHandler : handler done.length = none := by
        cases hHandler : handler done.length with
        | none => rfl
        | some h => exact absurd (hMade.known _ h hHandler).1 (by omega)
      simp [hHandler, hNone]
  · intro n h hHandler
    have hKnown := hMade.known n h hHandler
    simp only [List.length_append, List.length_singleton]
    omega

/-- The managers made for some nodes' outputs. -/
def outputManagersOf (nodes : List NodeDef) : List OutputStreamManager :=
  (nodes.flatMap (·.outputStreams)).map fun name => { spec := { name } }

theorem outputManagersOf_concat (done : List NodeDef) (d : NodeDef) :
    outputManagersOf (done ++ [d]) = outputManagersOf done ++
      d.outputStreams.map fun name => { spec := { name } } := by
  simp [outputManagersOf]

theorem length_outputManagersOf (nodes : List NodeDef) :
    (outputManagersOf nodes).length = outputCount nodes := by
  simp [outputManagersOf, outputCount, List.length_flatMap]

theorem outputsMade {c : GraphConfig} {r : Runtime}
    (hNames : (c.nodes.map (·.name)).Nodup)
    (hNodes : r.allNodes = c.nodes.map Node.ofDef)
    (hManagers : r.ownedOutputStreamManagers = [])
    (hHandlers : r.ownedOutputStreamHandlers = [])
    (hHandler : r.outputStreamHandler = fun _ => none) :
    ∃ handlers handler, OutputsMade c.nodes handlers handler ∧
      c.nodes.foldl createOutputManagers r =
        { r with
          ownedOutputStreamManagers := outputManagersOf c.nodes
          ownedOutputStreamHandlers := handlers
          outputStreamHandler := handler } := by
  apply foldl_invariant (I := fun (done : List NodeDef) (q : Runtime) =>
    ∃ handlers handler, OutputsMade done handlers handler ∧
      q = { r with
        ownedOutputStreamManagers := outputManagersOf done
        ownedOutputStreamHandlers := handlers
        outputStreamHandler := handler })
  · refine ⟨[], fun _ => none, ⟨by simp, by simp⟩, ?_⟩
    rw [← hHandlers, ← hHandler]
    simp [outputManagersOf, ← hManagers]
  · rintro done d rest _ hSplit ⟨handlers, handler, hMade, rfl⟩
    rw [createOutputManagers]
    by_cases hNone : d.outputStreams = []
    · refine ⟨handlers, handler, hMade.skip hNone, ?_⟩
      simp [hNone, outputManagersOf]
    · refine ⟨_, _, hMade.concat d, ?_⟩
      rw [if_neg (by simpa using hNone),
        findNode_of_split hNames ?_ hSplit]
      · rw [outputManagersOf_concat, ← length_outputManagersOf]
      · exact hNodes

/-! ## Arrival callbacks -/

theorem foldl_setArrivalCallback (n : NodeId) (managers : List StreamId)
    (r : Runtime) :
    ∃ owned, managers.foldl (setArrivalCallback n) r =
        { r with ownedStreamManagers := owned } ∧
      ∀ t : Nat, owned[t]? =
        if t ∈ managers then
          (r.ownedStreamManagers[t]?).map ({ · with arrivalNode := some n })
        else r.ownedStreamManagers[t]? := by
  induction managers generalizing r with
  | nil => exact ⟨_, rfl, by simp⟩
  | cons mgr rest ih =>
      obtain ⟨owned, hFold, hOwned⟩ := ih (setArrivalCallback n r mgr)
      refine ⟨owned, hFold, ?_⟩
      intro t
      rw [hOwned t, setArrivalCallback, List.getElem?_modify]
      by_cases hHead : mgr = t
      · subst hHead
        cases r.ownedStreamManagers[mgr]? <;> simp
      · have hNe : ¬ t = mgr := fun hEq => hHead hEq.symm
        simp [hHead, hNe]

/-- **Ownership of the arrival callbacks**: the manager of an edge carries the
edge's entry as its name, and schedules the edge's own node. -/
theorem arrivalCallbacksSet {c : GraphConfig} {r : Runtime}
    {managers : NameMap (List StreamId)}
    (hNames : (c.nodes.map (·.name)).Nodup)
    (hNodes : r.allNodes = c.nodes.map Node.ofDef)
    (hOwned : r.ownedStreamManagers =
      (c.nodes.flatMap (·.inputStreams)).map ({ name := · }))
    (hManagers : ∀ n d, c.nodes[n]? = some d → managers[d.name]? =
      some (List.range' (edgeCount (c.nodes.take n)) d.inputStreams.length)) :
    ∃ owned, c.nodes.foldl (setArrivalCallbacks managers) r =
        { r with ownedStreamManagers := owned } ∧
      ∀ n d, c.nodes[n]? = some d → ∀ i input,
        d.inputStreams[i]? = some input →
          owned[edgeCount (c.nodes.take n) + i]? = some ⟨input, some n⟩ := by
  have hLoop := @foldl_invariant Runtime NodeDef r (setArrivalCallbacks managers)
    (fun (done : List NodeDef) (q : Runtime) =>
      ∃ owned, q = { r with ownedStreamManagers := owned } ∧
        (∀ n d, done[n]? = some d → ∀ i input,
          d.inputStreams[i]? = some input →
            owned[edgeCount (done.take n) + i]? = some ⟨input, some n⟩) ∧
        ∀ t ≥ edgeCount done, owned[t]? = r.ownedStreamManagers[t]?)
    c.nodes
  refine (hLoop ⟨_, rfl, by simp, by simp⟩ ?_).imp fun owned hOwned =>
    ⟨hOwned.1, hOwned.2.1⟩
  rintro done d rest _ hSplit ⟨owned, rfl, hDone, hLater⟩
  have hHere : managers[d.name]? =
      some (List.range' (edgeCount done) d.inputStreams.length) := by
    have hNode : c.nodes[done.length]? = some d := by simp [hSplit]
    simpa [hSplit] using hManagers done.length d hNode
  obtain ⟨owned', hFold, hOwned'⟩ := foldl_setArrivalCallback done.length
    (List.range' (edgeCount done) d.inputStreams.length)
    { r with ownedStreamManagers := owned }
  refine ⟨owned', ?_, ?_, ?_⟩
  · rw [setArrivalCallbacks, findNode_of_split hNames ?_ hSplit, hHere]
    · exact hFold
    · exact hNodes
  · apply forall_getElem?_concat
    · intro n e hNode i input hInput
      rw [take_concat hNode, hOwned', if_neg]
      · exact hDone n e hNode i input hInput
      · have hLt := edge_lt_edgeCount hNode (lt_length_of_getElem? hInput)
        rw [List.mem_range'_1]
        omega
    · intro i input hInput
      have hMade : (r.ownedStreamManagers)[edgeCount done + i]? =
          some { name := input } := by
        rw [hOwned, List.getElem?_map, edgeCount,
          getElem?_flatMap_of_split hSplit hInput]
        rfl
      have hLt : i < d.inputStreams.length := lt_length_of_getElem? hInput
      rw [List.take_left, hOwned', if_pos]
      · simp [hLater (edgeCount done + i) (by omega), hMade]
      · rw [List.mem_range'_1]
        omega
  · intro t hLe
    rw [edgeCount_append, edgeCount_singleton] at hLe
    rw [hOwned', if_neg]
    · exact hLater t (by omega)
    · rw [List.mem_range'_1]
      omega

/-! ## The input stream handlers -/

/-- `InputStreamHandler`s after the nodes `done`: a node with inputs has one
over the managers of its edges, in order. -/
def HandlersMade (done : List NodeDef) (handlers : List InputStreamHandler)
    (handler : NodeId → Option HandlerId) : Prop :=
  ∀ n d, done[n]? = some d → d.inputStreams ≠ [] →
    ∃ h, handler n = some h ∧ (handlers[h]?).map (·.managers) =
      some (List.range' (edgeCount (done.take n)) d.inputStreams.length)

theorem HandlersMade.concat {done : List NodeDef}
    {handlers : List InputStreamHandler} {handler : NodeId → Option HandlerId}
    (hMade : HandlersMade done handlers handler) (d : NodeDef)
    (kind : HandlerKind) :
    HandlersMade (done ++ [d])
      (handlers ++
        [⟨kind, List.range' (edgeCount done) d.inputStreams.length⟩])
      (Function.update handler done.length (some handlers.length)) := by
  unfold HandlersMade
  apply forall_getElem?_concat
  · intro n e hNode hInputs
    have hNe : n ≠ done.length := Nat.ne_of_lt (lt_length_of_getElem? hNode)
    obtain ⟨h, hHandler, hManagers⟩ := hMade n e hNode hInputs
    obtain ⟨made, hMem, hRange⟩ := Option.map_eq_some_iff.mp hManagers
    refine ⟨h, ?_, ?_⟩
    · rw [Function.update_of_ne hNe, hHandler]
    · rw [List.getElem?_append_left (lt_length_of_getElem? hMem), hManagers,
        take_concat hNode]
  · intro _
    exact ⟨handlers.length, by simp⟩

theorem HandlersMade.skip {done : List NodeDef}
    {handlers : List InputStreamHandler} {handler : NodeId → Option HandlerId}
    (hMade : HandlersMade done handlers handler) {d : NodeDef}
    (hNone : d.inputStreams = []) :
    HandlersMade (done ++ [d]) handlers handler := by
  unfold HandlersMade
  apply forall_getElem?_concat
  · intro n e hNode hInputs
    rw [take_concat hNode]
    exact hMade n e hNode hInputs
  · intro hInputs
    exact absurd hNone hInputs

theorem handlersMade {c : GraphConfig} {r : Runtime}
    {managers : NameMap (List StreamId)}
    (hNames : (c.nodes.map (·.name)).Nodup)
    (hNodes : r.allNodes = c.nodes.map Node.ofDef)
    (hManagers : ∀ n d, c.nodes[n]? = some d → managers[d.name]? =
      some (List.range' (edgeCount (c.nodes.take n)) d.inputStreams.length))
    (hHandlers : r.ownedInputStreamHandlers = [])
    (hHandler : r.inputStreamHandler = fun _ => none) :
    ∃ handlers handler, HandlersMade c.nodes handlers handler ∧
      c.nodes.foldl (createInputHandler managers) r =
        { r with
          ownedInputStreamHandlers := handlers
          inputStreamHandler := handler } := by
  apply foldl_invariant (I := fun (done : List NodeDef) (q : Runtime) =>
    ∃ handlers handler, HandlersMade done handlers handler ∧
      q = { r with
        ownedInputStreamHandlers := handlers
        inputStreamHandler := handler })
  · refine ⟨[], fun _ => none, by simp [HandlersMade], ?_⟩
    rw [← hHandlers, ← hHandler]
  · rintro done d rest _ hSplit ⟨handlers, handler, hMade, rfl⟩
    have hHere : managers[d.name]? =
        some (List.range' (edgeCount done) d.inputStreams.length) := by
      have hNode : c.nodes[done.length]? = some d := by simp [hSplit]
      simpa [hSplit] using hManagers done.length d hNode
    rw [createInputHandler]
    by_cases hNone : d.inputStreams = []
    · exact ⟨handlers, handler, hMade.skip hNone, by simp [hNone]⟩
    · refine ⟨_, _, hMade.concat d
        (createInputStreamHandler d.inputStreamHandler d.maxInFlight), ?_⟩
      rw [if_neg (by simpa using hNone), findNode_of_split hNames ?_ hSplit,
        hHere]
      · simp [hNone]
      · exact hNodes

/-! ## `output_by_stream` -/

/-- The node outputs under their stream names, after the nodes `done`. -/
structure OutputsCollected (c : GraphConfig) (r : Runtime) (done : List NodeDef)
    (outputByStream : NameMap OutId) : Prop where
  sound : ∀ s o, outputByStream[s]? = some o → ∃ n k,
    Produces c s (.nodeOutput n k) ∧ (r.outputManagers n)[k]? = some o
  complete : ∀ n k s, n < done.length → Produces c s (.nodeOutput n k) →
    (outputByStream[s]?).isSome

theorem outputsCollected {c : GraphConfig} {r : Runtime}
    (hNames : (c.nodes.map (·.name)).Nodup)
    (hNodes : r.allNodes = c.nodes.map Node.ofDef)
    (hManagers : ∀ n d, c.nodes[n]? = some d →
      (r.outputManagers n).length = d.outputStreams.length) :
    OutputsCollected c r c.nodes (c.nodes.foldl r.collectOutputs ∅) := by
  apply foldl_invariant
  · exact ⟨by simp, by simp⟩
  · intro done d rest map hSplit hMap
    have hNode : c.nodes[done.length]? = some d := by simp [hSplit]
    let pairs := (d.outputStreams.zip (r.outputManagers done.length)).map
      fun p => (streamName p.1, p.2)
    have hFold : r.collectOutputs map d = insertAll map pairs := by
      rw [collectOutputs, findNode_of_split hNames hNodes hSplit]
      simp [pairs, insertAll, List.foldl_map]
    rw [hFold]
    constructor
    · intro s o hFound
      rcases mem_of_getElem?_insertAll hFound with hMem | hOld
      · obtain ⟨⟨out, o'⟩, hZip, hPair⟩ := List.mem_map.mp hMem
        obtain ⟨k, hZip⟩ := List.mem_iff_getElem?.mp hZip
        obtain ⟨hOut, hManager⟩ := List.getElem?_zip_eq_some.mp hZip
        simp only [Prod.mk.injEq] at hPair
        refine ⟨done.length, k, ?_, hPair.2 ▸ hManager⟩
        exact produces_nodeOutput.mpr ⟨d, out, hNode, hOut, hPair.1⟩
      · exact hMap.sound s o hOld
    · intro n k s hLt hProduces
      by_cases hKey : s ∈ pairs.map Prod.fst
      · obtain ⟨o, -, hFound⟩ := exists_getElem?_insertAll hKey
        simp [hFound]
      · rw [getElem?_insertAll_of_not_mem hKey]
        apply hMap.complete n k s _ hProduces
        obtain ⟨e, out, hE, hOut, hName⟩ := produces_nodeOutput.mp hProduces
        rcases Nat.lt_or_ge n done.length with hBefore | hHere
        · exact hBefore
        · have hEq : n = done.length := by simp at hLt; omega
          subst hEq
          obtain rfl : e = d := by simpa [hE] using hNode
          refine absurd ?_ hKey
          have hLength := hManagers _ e hE
          have hIndex : k < e.outputStreams.length := lt_length_of_getElem? hOut
          have hBound : k < (r.outputManagers done.length).length := by omega
          have hMem : (out, (r.outputManagers done.length)[k]) ∈
              e.outputStreams.zip (r.outputManagers done.length) := by
            apply List.mem_of_getElem? (i := k)
            rw [List.getElem?_zip_eq_some]
            exact ⟨hOut, List.getElem?_eq_getElem _⟩
          simp only [pairs, List.map_map, List.mem_map]
          exact ⟨_, hMem, hName⟩

/-- The graph inputs' virtual managers: each joins both maps under its name. -/
theorem foldl_createGraphInput (inputs : List String) (r : Runtime)
    (map : NameMap OutId) :
    ∃ pairs : List (String × OutId), pairs.map Prod.fst = inputs ∧
      pairs.map Prod.snd = List.range' r.ownedOutputStreamManagers.length inputs.length ∧
      inputs.foldl createGraphInput (r, map) =
        ({ r with
            ownedOutputStreamManagers := r.ownedOutputStreamManagers ++
              inputs.map fun name => { spec := { name } }
            graphInputOutputs := insertAll r.graphInputOutputs pairs },
          insertAll map pairs) := by
  induction inputs generalizing r map with
  | nil => exact ⟨[], rfl, rfl, by simp [insertAll]⟩
  | cons input rest ih =>
      obtain ⟨pairs, hKeys, hManagers, hFold⟩ :=
        ih (createGraphInput (r, map) input).1 (createGraphInput (r, map) input).2
      refine ⟨(input, r.ownedOutputStreamManagers.length) :: pairs, ?_, ?_, ?_⟩
      · simp [hKeys]
      · rw [List.map_cons, hManagers, List.length_cons, List.range'_succ]
        simp [createGraphInput]
      · rw [List.foldl_cons, hFold]
        simp [createGraphInput, insertAll_cons]

/-! ## The mirrors -/

/-- The edges of one node, as the last loop meets them: the stream an edge
asks for and the mirror it registers. -/
def edgesAt (handler : Option HandlerId) (d : NodeDef) :
    List (String × Mirror) :=
  match handler with
  | none => []
  | some h => d.inputStreams.zipIdx.map fun p => (streamName p.1, ⟨some h, p.2⟩)

/-- The edges of all nodes. -/
def edgesOf (handler : NodeId → Option HandlerId) (nodes : List NodeDef) :
    List (String × Mirror) :=
  nodes.zipIdx.flatMap fun p => edgesAt (handler p.2) p.1

theorem edgesOf_concat (handler : NodeId → Option HandlerId)
    (done : List NodeDef) (d : NodeDef) :
    edgesOf handler (done ++ [d]) =
      edgesOf handler done ++ edgesAt (handler done.length) d := by
  simp [edgesOf, List.zipIdx_append]

/-- The wiring of an edge whose handler is known. -/
def wireEdge (outputByStream : NameMap OutId) (r : Runtime)
    (e : String × Mirror) : Runtime :=
  match outputByStream[e.1]? with
  | none => r
  | some o => r.addMirror o e.2

/-- The mirrors some edges add to manager `o`. -/
def mirrorsAdded (outputByStream : NameMap OutId) (edges : List (String × Mirror))
    (o : OutId) : List Mirror :=
  (edges.filter fun e => outputByStream[e.1]? = some o).map Prod.snd

theorem wireInputs_eq {r : Runtime} {d : NodeDef} {n : NodeId}
    (outputByStream : NameMap OutId) (hFind : r.findNode d.name = some n) :
    wireInputs outputByStream r d =
      (edgesAt (r.inputStreamHandler n) d).foldl (wireEdge outputByStream) r := by
  rw [wireInputs, hFind, Option.bind_some]
  cases hHandler : r.inputStreamHandler n with
  | none => simp [edgesAt]
  | some h =>
      by_cases hNone : d.inputStreams = []
      · simp [edgesAt, hNone]
      · rw [if_neg (by simpa using hNone)]
        simp only [edgesAt, List.foldl_map]
        rfl

/-- **Effect of the wiring**: every manager gets the mirrors of the edges whose
stream leads to it, in the order of the edges. -/
theorem foldl_wireEdge (outputByStream : NameMap OutId)
    (edges : List (String × Mirror)) (r : Runtime) :
    ∃ managers, edges.foldl (wireEdge outputByStream) r =
        { r with ownedOutputStreamManagers := managers } ∧
      managers.length = r.ownedOutputStreamManagers.length ∧
      ∀ o : Nat, managers[o]? = (r.ownedOutputStreamManagers[o]?).map fun m =>
        { m with mirrors := m.mirrors ++ mirrorsAdded outputByStream edges o } := by
  induction edges generalizing r with
  | nil => exact ⟨_, rfl, rfl, by simp [mirrorsAdded]⟩
  | cons e rest ih =>
      obtain ⟨managers, hFold, hLength, hManagers⟩ :=
        ih (wireEdge outputByStream r e)
      rw [List.foldl_cons, hFold]
      cases hTarget : outputByStream[e.1]? with
      | none =>
          refine ⟨managers, by simp [wireEdge, hTarget], ?_, ?_⟩
          · simpa [wireEdge, hTarget] using hLength
          · intro o
            rw [hManagers o]
            simp [wireEdge, mirrorsAdded, hTarget]
      | some target =>
          refine ⟨managers, by simp [wireEdge, hTarget, addMirror], ?_, ?_⟩
          · simpa [wireEdge, hTarget, addMirror] using hLength
          · intro o
            rw [hManagers o]
            by_cases hEq : target = o
            · subst hEq
              simp [wireEdge, mirrorsAdded, hTarget, addMirror,
                Function.comp_def]
            · simp [wireEdge, mirrorsAdded, hTarget, addMirror, hEq]

theorem inputsWired {c : GraphConfig} {r₀ : Runtime}
    (outputByStream : NameMap OutId)
    (hNames : (c.nodes.map (·.name)).Nodup)
    (hNodes : r₀.allNodes = c.nodes.map Node.ofDef) :
    c.nodes.foldl (wireInputs outputByStream) r₀ =
      (edgesOf r₀.inputStreamHandler c.nodes).foldl (wireEdge outputByStream)
        r₀ := by
  apply foldl_invariant (I := fun (done : List NodeDef) (r : Runtime) =>
    r = (edgesOf r₀.inputStreamHandler done).foldl (wireEdge outputByStream) r₀)
  · rfl
  · rintro done d rest r hSplit rfl
    obtain ⟨managers, hFold, -, -⟩ := foldl_wireEdge outputByStream
      (edgesOf r₀.inputStreamHandler done) r₀
    rw [edgesOf_concat, List.foldl_append, hFold, wireInputs_eq _
      (findNode_of_split hNames ?_ hSplit)]
    exact hNodes

/-- The output manager of a producer. -/
def producerManager (r : Runtime) : Producer → Option OutId
  | .nodeOutput n k => (r.outputManagers n)[k]?
  | .graphInput stream => r.graphInputOutputs[stream]?

/-- **What a fresh runtime is after `Initialize`**: all that later results use,
in closed form. -/
structure Initialized (c : GraphConfig) (r : Runtime) : Prop where
  nodes : r.allNodes = c.nodes.map Node.ofDef
  ports : r.inputPorts = portsOf c.nodes
  edgeManagers : ∀ n d, c.nodes[n]? = some d → ∀ i input,
    d.inputStreams[i]? = some input →
      r.ownedStreamManagers[edgeManager c n i]? = some ⟨input, some n⟩
  outputManagers : ∀ n d, c.nodes[n]? = some d → r.outputManagers n =
    List.range' (outputCount (c.nodes.take n)) d.outputStreams.length
  outputNames : ∀ n d, c.nodes[n]? = some d → ∀ k out,
    d.outputStreams[k]? = some out →
      (r.ownedOutputStreamManagers[outputCount (c.nodes.take n) + k]?).map
        (·.spec.name) = some out
  handlers : HandlersMade c.nodes r.ownedInputStreamHandlers r.inputStreamHandler
  wiring : ∃ outputByStream : NameMap OutId,
    (∀ s p, Produces c s p → (∀ q, Produces c s q → q = p) →
      ∃ o, outputByStream[s]? = some o ∧ r.producerManager p = some o ∧
        o < r.ownedOutputStreamManagers.length) ∧
    ∀ o : Nat, o < r.ownedOutputStreamManagers.length →
      r.mirrors o = mirrorsAdded outputByStream
        (edgesOf r.inputStreamHandler c.nodes) o

/-- The manager `output_by_stream` has for a stream with one producer. -/
theorem lookup_of_unique {c : GraphConfig} {r : Runtime} {map : NameMap OutId}
    (hCollected : OutputsCollected c r c.nodes map)
    {pairs : List (String × OutId)} (hKeys : pairs.map Prod.fst = c.inputStreams)
    {s : String} {p : Producer} (hProduces : Produces c s p)
    (hUnique : ∀ q, Produces c s q → q = p) :
    ∃ o, (insertAll map pairs)[s]? = some o ∧
      match p with
      | .nodeOutput n k => (r.outputManagers n)[k]? = some o
      | .graphInput stream => (stream, o) ∈ pairs ∧
          ∀ m : NameMap OutId, (insertAll m pairs)[stream]? = some o := by
  cases p with
  | graphInput stream =>
      obtain ⟨rfl, hMem⟩ := hProduces
      rw [← hKeys] at hMem
      obtain ⟨o, hPair, hFound⟩ := exists_getElem?_insertAll hMem
      exact ⟨o, hFound map, hPair, hFound⟩
  | nodeOutput n k =>
      have hNotInput : s ∉ pairs.map Prod.fst := by
        rw [hKeys]
        intro hMem
        exact absurd (hUnique (.graphInput s) ⟨rfl, hMem⟩) (by simp)
      obtain ⟨d, out, hNode, hOut, hName⟩ := produces_nodeOutput.mp hProduces
      obtain ⟨o, hFound⟩ := Option.isSome_iff_exists.mp
        (hCollected.complete n k s (lt_length_of_getElem? hNode) hProduces)
      obtain ⟨n', k', hProduces', hManager⟩ := hCollected.sound s o hFound
      obtain ⟨rfl, rfl⟩ : n' = n ∧ k' = k := by
        simpa using hUnique _ hProduces'
      rw [getElem?_insertAll_of_not_mem hNotInput]
      exact ⟨o, hFound, hManager⟩

theorem output_lt_outputCount {nodes : List NodeDef} {n k : Nat} {d : NodeDef}
    (hNode : nodes[n]? = some d) (hOutput : k < d.outputStreams.length) :
    outputCount (nodes.take n) + k < outputCount nodes := by
  have hCount := congrArg outputCount (split_of_getElem? hNode)
  have hCons : outputCount (d :: nodes.drop (n + 1)) =
      d.outputStreams.length + outputCount (nodes.drop (n + 1)) := by
    simp [outputCount]
  rw [outputCount_append, hCons] at hCount
  omega

theorem getElem?_outputManagersOf {nodes : List NodeDef} {n k : Nat} {d : NodeDef}
    {out : String} (hNode : nodes[n]? = some d)
    (hOutput : d.outputStreams[k]? = some out) :
    (outputManagersOf nodes)[outputCount (nodes.take n) + k]? =
      some { spec := { name := out } } := by
  rw [outputManagersOf, List.getElem?_map, outputCount,
    getElem?_flatMap_of_split (split_of_getElem? hNode) hOutput]
  rfl

theorem initialized_wire {c : GraphConfig} {built : Runtime}
    (hNames : (c.nodes.map (·.name)).Nodup)
    (hBuilt : built.allNodes = c.nodes.map Node.ofDef) :
    Initialized c (wire c {} built) := by
  simp only [wire]
  have hInputs := inputsMade (r :=
    { nonDefaultQueues := built.nonDefaultQueues
      hasDefaultExecutor := built.hasDefaultExecutor
      allNodes := built.allNodes }) hNames hBuilt rfl rfl
  generalize c.nodes.foldl createInputManagers _ = made at hInputs ⊢
  obtain ⟨made, managers⟩ := made
  obtain ⟨rfl, hManagers, -⟩ := hInputs
  obtain ⟨seen, count, hCount⟩ := countGraphInputs c.inputStreams _
  rw [hCount]
  obtain ⟨r₁, hR₁⟩ : ∃ r₁ : Runtime, r₁ =
    { nonDefaultQueues := built.nonDefaultQueues
      hasDefaultExecutor := built.hasDefaultExecutor
      allNodes := built.allNodes
      ownedStreamManagers := (c.nodes.flatMap (·.inputStreams)).map ({ name := · })
      inputPorts := portsOf c.nodes
      graphInputStreamsSet := seen
      numOpenInputStreams := count
      totalGraphInputStreams := count } := ⟨_, rfl⟩
  obtain ⟨outHandlers, outHandler, hOutputs, hOutputsFold⟩ :=
    outputsMade (c := c) (r := r₁) hNames (hR₁ ▸ hBuilt) (hR₁ ▸ rfl)
      (hR₁ ▸ rfl) (hR₁ ▸ rfl)
  obtain ⟨owned, hOwnedFold, hOwned⟩ :=
    arrivalCallbacksSet (c := c)
      (r := c.nodes.foldl createOutputManagers r₁) hNames
      (by rw [hOutputsFold, hR₁]; exact hBuilt) (by rw [hOutputsFold, hR₁])
      hManagers
  obtain ⟨handlers, handler, hHandlers, hHandlersFold⟩ :=
    handlersMade (c := c)
      (r := c.nodes.foldl (setArrivalCallbacks managers)
        (c.nodes.foldl createOutputManagers r₁)) hNames
      (by rw [hOwnedFold, hOutputsFold, hR₁]; exact hBuilt) hManagers
      (by rw [hOwnedFold, hOutputsFold, hR₁])
      (by rw [hOwnedFold, hOutputsFold, hR₁])
  rw [← hR₁, hHandlersFold, hOwnedFold, hOutputsFold]
  obtain ⟨r₂, hR₂⟩ : ∃ r₂ : Runtime, r₂ =
    { r₁ with
      ownedOutputStreamManagers := outputManagersOf c.nodes
      ownedOutputStreamHandlers := outHandlers
      outputStreamHandler := outHandler
      ownedStreamManagers := owned
      ownedInputStreamHandlers := handlers
      inputStreamHandler := handler } := ⟨_, rfl⟩
  rw [← hR₂]
  have hNodes : r₂.allNodes = c.nodes.map Node.ofDef := by
    rw [hR₂, hR₁]
    exact hBuilt
  have hManagersOf : ∀ n d, c.nodes[n]? = some d → r₂.outputManagers n =
      List.range' (outputCount (c.nodes.take n)) d.outputStreams.length := by
    intro n d hNode
    rw [hR₂]
    exact hOutputs.managers n d hNode
  have hCollected := outputsCollected hNames hNodes fun n d hNode => by
    rw [hManagersOf n d hNode, List.length_range']
  obtain ⟨pairs, hKeys, hNumbers, hFold⟩ := foldl_createGraphInput c.inputStreams
    r₂ (c.nodes.foldl r₂.collectOutputs ∅)
  obtain ⟨r₃, hR₃⟩ : ∃ r₃ : Runtime, r₃ =
    { r₂ with
      ownedOutputStreamManagers := r₂.ownedOutputStreamManagers ++
        c.inputStreams.map fun name => { spec := { name } }
      graphInputOutputs := insertAll r₂.graphInputOutputs pairs } := ⟨_, rfl⟩
  obtain ⟨wired, hWire, hSame, hWired⟩ := foldl_wireEdge
    (insertAll (c.nodes.foldl r₂.collectOutputs ∅) pairs)
    (edgesOf r₃.inputStreamHandler c.nodes) r₃
  rw [hFold, ← hR₃, inputsWired _ hNames (hR₃ ▸ hNodes), hWire]
  have hOwnedOutputs : r₃.ownedOutputStreamManagers = outputManagersOf c.nodes ++
      c.inputStreams.map fun name => { spec := { name } } := by
    rw [hR₃, hR₂]
  have hLength : wired.length =
      outputCount c.nodes + c.inputStreams.length := by
    rw [hSame, hOwnedOutputs, List.length_append, length_outputManagersOf,
      List.length_map]
  refine ⟨hR₃ ▸ hNodes, ?_, ?_, ?_, ?_, ?_, ?_⟩
  · rw [hR₃, hR₂, hR₁]
  · intro n d hNode i input hInput
    rw [hR₃, hR₂]
    exact hOwned n d hNode i input hInput
  · rw [hR₃]
    exact hManagersOf
  · intro n d hNode k out hOutput
    have hLt := output_lt_outputCount hNode (lt_length_of_getElem? hOutput)
    have hMade := getElem?_outputManagersOf hNode hOutput
    rw [hWired, hOwnedOutputs, List.getElem?_append_left
      (by rw [length_outputManagersOf]; exact hLt), hMade]
    rfl
  · rw [hR₃, hR₂]
    exact hHandlers
  · refine ⟨insertAll (c.nodes.foldl r₂.collectOutputs ∅) pairs, ?_, ?_⟩
    · intro s p hProduces hUnique
      obtain ⟨o, hFound, hProducer⟩ :=
        lookup_of_unique hCollected hKeys hProduces hUnique
      refine ⟨o, hFound, ?_⟩
      cases p with
      | nodeOutput n k =>
          have hManager : (r₂.outputManagers n)[k]? = some o := hProducer
          obtain ⟨d, out, hNode, hOutput, -⟩ := produces_nodeOutput.mp hProduces
          have hLt := output_lt_outputCount hNode (lt_length_of_getElem? hOutput)
          have hEq : o = outputCount (c.nodes.take n) + k := by
            rw [hManagersOf n d hNode, List.getElem?_range'
              (lt_length_of_getElem? hOutput), Nat.one_mul,
              Option.some.injEq] at hManager
            exact hManager.symm
          refine ⟨by rw [hR₃]; exact hManager, ?_⟩
          rw [hLength, hEq]
          exact Nat.lt_of_lt_of_le hLt (Nat.le_add_right _ _)
      | graphInput stream =>
          refine ⟨by rw [hR₃]; exact hProducer.2 _, ?_⟩
          have hNumber : o ∈ pairs.map Prod.snd := List.mem_map_of_mem hProducer.1
          rw [hNumbers, List.mem_range'_1] at hNumber
          have hLt := hNumber.2
          rw [hR₂, length_outputManagersOf] at hLt
          rw [hLength]
          exact hLt
    · intro o hLt
      have hFresh : ∀ m ∈ r₃.ownedOutputStreamManagers, m.mirrors = [] := by
        rw [hOwnedOutputs, outputManagersOf]
        intro m hMem
        simp only [List.mem_append, List.mem_map] at hMem
        rcases hMem with ⟨name, -, rfl⟩ | ⟨name, -, rfl⟩ <;> rfl
      have hOld : o < r₃.ownedOutputStreamManagers.length := hSame ▸ hLt
      have hHere := hWired o
      rw [List.getElem?_eq_getElem hOld] at hHere
      simp [mirrors, hHere, hFresh _ (List.getElem_mem hOld)]

end Runtime

section

variable {registered : String → Bool} {c : GraphConfig} {r : Runtime}

theorem createNodes_eq_ok {defs : List NodeDef} {nodes made : List Node}
    (hMade : createNodes registered defs nodes = .ok made) :
    made = nodes ++ defs.map Node.ofDef := by
  induction defs generalizing nodes with
  | nil =>
      simp only [createNodes, Except.ok.injEq] at hMade
      simp [hMade]
  | cons d rest ih =>
      rw [createNodes] at hMade
      split at hMade
      · simp [ih hMade]
      · exact absurd hMade (by simp)

theorem build_eq_ok (hBuild : build registered c = .ok r) :
    (validate c).isOk ∧ r.allNodes = c.nodes.map Node.ofDef := by
  unfold build at hBuild
  by_cases hValid : (validate c).isOk
  · refine ⟨hValid, ?_⟩
    cases hNodes : createNodes registered c.nodes [] with
    | error status => simp [hValid, hNodes, Except.map] at hBuild
    | ok nodes =>
        have hResult : { createExecutors c {} with allNodes := nodes } = r := by
          simpa [hValid, hNodes, Except.map] using hBuild
        rw [← hResult]
        simpa using createNodes_eq_ok hNodes
  · simp [hValid] at hBuild

/-- **`Initialize` of a new runtime**: when it succeeds, the config was valid
and the runtime is wired as `Initialized` says. -/
theorem initialized_of_eq_ok (hInit : initializeGraph registered c {} = .ok r) :
    Runtime.Initialized c r := by
  unfold initializeGraph at hInit
  cases hBuild : build registered c with
  | error status => simp [hBuild, Except.map] at hInit
  | ok built =>
      obtain ⟨hValid, hNodes⟩ := build_eq_ok hBuild
      have hResult : Runtime.wire c {} built = r := by
        simpa [hBuild, Except.map] using hInit
      rw [← hResult]
      exact Runtime.initialized_wire (names_nodup_of_validate hValid) hNodes

end

end GraphRuntime.Public
