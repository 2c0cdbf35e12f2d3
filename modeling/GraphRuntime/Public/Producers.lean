import Mathlib.Data.List.Induction
import Mathlib.Data.List.Pairwise
import GraphRuntime.Public.Wiring

/-!
# One producer for every input edge

The validator accepts an edge whose stream is only named among the *graph's*
outputs, which nothing produces; it does not look at how many nodes output a
stream, or at a node output with the name of a graph input, and of those
`output_by_stream` keeps the last.  `wiredToOneProducer_iff` is exact: in an
accepted config every edge is wired to the one producer it has, by its own
manager and its own index, if and only if every consumed stream is
`Unambiguous`.
-/

namespace GraphRuntime.Public

open GraphRuntime.Config GraphRuntime.Stream

/-! ## Producers by stream name -/

/-- Every node output with its stream name, in declaration order. -/
def outputProducers (c : GraphConfig) : List (String × Producer) :=
  c.nodes.zipIdx.flatMap fun node =>
    node.1.outputStreams.zipIdx.map fun out =>
      (streamName out.1, .nodeOutput node.2 out.2)

/-- The stream has at most one declared producer, and a graph-level output of
that name is not all there is. -/
structure Unambiguous (c : GraphConfig) (s : String) : Prop where
  declared : s ∈ c.outputStreams.map streamName →
    s ∈ c.nodeOutputs ∨ s ∈ c.inputStreams
  once : c.nodeOutputs.count s ≤ 1
  apart : s ∈ c.nodeOutputs → s ∉ c.inputStreams

section

variable {c : GraphConfig} {s : String}

theorem mem_outputProducers {p : Producer} :
    (s, p) ∈ outputProducers c ↔
      ∃ n k, p = .nodeOutput n k ∧ Produces c s (.nodeOutput n k) := by
  simp only [outputProducers, List.mem_flatMap, List.mem_map, Prod.exists,
    Prod.mk.injEq, List.mem_zipIdx_iff_getElem?, produces_nodeOutput]
  constructor
  · rintro ⟨d, n, hNode, out, k, hOut, hName, rfl⟩
    exact ⟨n, k, rfl, d, out, hNode, hOut, hName⟩
  · rintro ⟨n, k, rfl, d, out, hNode, hOut, hName⟩
    exact ⟨d, n, hNode, out, k, hOut, hName, rfl⟩

theorem nodeOutputs_eq_map :
    c.nodeOutputs = (outputProducers c).map Prod.fst := by
  have hNode : ∀ node : NodeDef × Nat,
      (node.1.outputStreams.zipIdx.map fun out =>
        (streamName out.1, Producer.nodeOutput node.2 out.2)).map Prod.fst =
      node.1.outputStreams.map streamName := by
    intro node
    calc _ = (node.1.outputStreams.zipIdx.map Prod.fst).map streamName := by
          rw [List.map_map, List.map_map]
          rfl
      _ = _ := by rw [List.zipIdx_map_fst]
  calc c.nodeOutputs
      = (c.nodes.zipIdx.map Prod.fst).flatMap
          (·.outputStreams.map streamName) := by rw [List.zipIdx_map_fst]; rfl
    _ = (outputProducers c).map Prod.fst := by
          rw [outputProducers, List.map_flatMap, List.flatMap_map]
          simp only [hNode]

theorem nodup_outputProducers : ((outputProducers c).map Prod.snd).Nodup := by
  rw [outputProducers, List.map_flatMap, List.nodup_flatMap]
  constructor
  · intro node _
    have hIndices : (node.1.outputStreams.zipIdx.map Prod.snd).Nodup := by
      rw [List.zipIdx_map_snd]
      exact List.nodup_range'
    have hMap : (node.1.outputStreams.zipIdx.map fun out =>
          (streamName out.1, Producer.nodeOutput node.2 out.2)).map Prod.snd =
        (node.1.outputStreams.zipIdx.map Prod.snd).map
          (Producer.nodeOutput node.2) := by
      rw [List.map_map, List.map_map]
      rfl
    rw [hMap]
    exact hIndices.map fun k k' hEq => by simpa using hEq
  · have hIndices : (c.nodes.zipIdx.map Prod.snd).Nodup := by
      rw [List.zipIdx_map_snd]
      exact List.nodup_range'
    rw [List.Nodup, List.pairwise_map] at hIndices
    apply hIndices.imp
    intro node node' hNe p hLeft hRight
    simp only [List.map_map, List.mem_map, Function.comp_apply] at hLeft hRight
    obtain ⟨out, -, rfl⟩ := hLeft
    obtain ⟨out', -, hEq⟩ := hRight
    simp only [Producer.nodeOutput.injEq] at hEq
    exact hNe hEq.1.symm

/-- A stream name counts once exactly when one output entry has it. -/
theorem count_nodeOutputs_le_one :
    c.nodeOutputs.count s ≤ 1 ↔
      ∀ n k n' k', Produces c s (.nodeOutput n k) →
        Produces c s (.nodeOutput n' k') → n' = n ∧ k' = k := by
  have hCount : c.nodeOutputs.count s =
      ((outputProducers c).filter (·.1 == s)).length := by
    rw [nodeOutputs_eq_map, List.count, List.countP_map,
      List.countP_eq_length_filter]
    rfl
  have hMem : ∀ n k, Produces c s (.nodeOutput n k) →
      (s, Producer.nodeOutput n k) ∈ (outputProducers c).filter (·.1 == s) := by
    intro n k hProduces
    rw [List.mem_filter]
    exact ⟨mem_outputProducers.mpr ⟨n, k, rfl, hProduces⟩, by simp⟩
  have hNodup : (((outputProducers c).filter (·.1 == s)).map Prod.snd).Nodup :=
    (List.filter_sublist.map Prod.snd).nodup nodup_outputProducers
  rw [hCount]
  constructor
  · intro hLe n k n' k' hProduces hProduces'
    have hFirst := hMem n k hProduces
    have hSecond := hMem n' k' hProduces'
    generalize (outputProducers c).filter (·.1 == s) = found at *
    match found with
    | [] => simp at hFirst
    | [p] =>
        simp only [List.mem_singleton] at hFirst hSecond
        simpa using hSecond.trans hFirst.symm
    | _ :: _ :: _ => simp at hLe
  · intro hUnique
    have hAll : ∀ p ∈ (outputProducers c).filter (·.1 == s),
        ∃ n k, p.2 = .nodeOutput n k ∧ Produces c s (.nodeOutput n k) := by
      rintro ⟨name, p⟩ hFound
      rw [List.mem_filter] at hFound
      obtain rfl : name = s := by simpa using hFound.2
      exact mem_outputProducers.mp hFound.1
    generalize (outputProducers c).filter (·.1 == s) = found at *
    match found with
    | [] => simp
    | [_] => simp
    | p :: p' :: rest =>
        obtain ⟨n, k, hFirst, hProduces⟩ := hAll p (by simp)
        obtain ⟨n', k', hSecond, hProduces'⟩ := hAll p' (by simp)
        obtain ⟨rfl, rfl⟩ := hUnique n k n' k' hProduces hProduces'
        simp [hFirst, hSecond] at hNodup

/-- A connected stream has exactly one producer exactly when it is
unambiguous. -/
theorem existsUnique_producer_iff
    (hConnected : s ∈ c.inputStreams ∨ s ∈ c.nodeOutputs ∨
      s ∈ c.outputStreams.map streamName) :
    (∃ p, Produces c s p ∧ ∀ q, Produces c s q → q = p) ↔ Unambiguous c s := by
  constructor
  · rintro ⟨p, hProduces, hUnique⟩
    refine ⟨fun _ => ?_, ?_, ?_⟩
    · cases p with
      | nodeOutput n k => exact Or.inl (mem_nodeOutputs.mpr ⟨n, k, hProduces⟩)
      | graphInput stream => exact Or.inr (hProduces.1 ▸ hProduces.2)
    · rw [count_nodeOutputs_le_one]
      intro n k n' k' hFirst hSecond
      simpa using (hUnique _ hSecond).trans (hUnique _ hFirst).symm
    · intro hOutput hInput
      obtain ⟨n, k, hNode⟩ := mem_nodeOutputs.mp hOutput
      have hGraph : Produces c s (.graphInput s) := ⟨rfl, hInput⟩
      simpa using (hUnique _ hNode).trans (hUnique _ hGraph).symm
  · rintro ⟨hDeclared, hOnce, hApart⟩
    by_cases hInput : s ∈ c.inputStreams
    · refine ⟨.graphInput s, ⟨rfl, hInput⟩, ?_⟩
      intro q hProduces
      cases q with
      | nodeOutput n k =>
          exact absurd hInput (hApart (mem_nodeOutputs.mpr ⟨n, k, hProduces⟩))
      | graphInput stream => rw [hProduces.1]
    · have hOutput : s ∈ c.nodeOutputs := by
        rcases hConnected with hIn | hOut | hGraph
        · exact absurd hIn hInput
        · exact hOut
        · exact (hDeclared hGraph).resolve_right hInput
      obtain ⟨n, k, hProduces⟩ := mem_nodeOutputs.mp hOutput
      refine ⟨.nodeOutput n k, hProduces, ?_⟩
      intro q hOther
      cases q with
      | nodeOutput n' k' =>
          obtain ⟨rfl, rfl⟩ :=
            count_nodeOutputs_le_one.mp hOnce n k n' k' hProduces hOther
          rfl
      | graphInput stream =>
          exact absurd (hOther.1 ▸ hOther.2) hInput

end

/-! ## Every mirror leads to one edge -/

namespace Runtime

variable {c : GraphConfig} {r : Runtime}

theorem routes_of_getElem? {h : HandlerId} {managers : List StreamId}
    (hHandler : (r.ownedInputStreamHandlers[h]?).map (·.managers) =
      some managers) : r.routes h = managers := by
  simp [routes, hHandler]

/-- The mirrors of one node's edges lead to the node's managers, in order. -/
theorem edgesAt_resolve {h : HandlerId} {d : NodeDef} {start : Nat}
    (hRoutes : r.routes h = List.range' start d.inputStreams.length) :
    (edgesAt (some h) d).map (fun e => e.2.resolve r.routes) =
      (List.range' start d.inputStreams.length).map some := by
  apply List.ext_getElem?
  intro i
  simp only [edgesAt, List.map_map, List.getElem?_map, List.getElem?_zipIdx,
    Option.map_map]
  rcases Nat.lt_or_ge i d.inputStreams.length with hLt | hGe
  · simp [List.getElem?_eq_getElem hLt, Mirror.resolve, hRoutes,
      List.getElem?_range' hLt]
  · simp [hGe]

theorem HandlersMade.of_concat {done : List NodeDef} {d : NodeDef}
    {handlers : List InputStreamHandler} {handler : NodeId → Option HandlerId}
    (hMade : HandlersMade (done ++ [d]) handlers handler) :
    HandlersMade done handlers handler := by
  intro n e hNode hInputs
  rw [← take_concat (d := d) hNode]
  apply hMade n e _ hInputs
  rw [List.getElem?_append_left (lt_length_of_getElem? hNode), hNode]

/-- **Routing**: the edges' mirrors lead to the managers `0, 1, 2, …`, one
each. -/
theorem edgesOf_resolve {nodes : List NodeDef}
    (hMade : HandlersMade nodes r.ownedInputStreamHandlers
      r.inputStreamHandler) :
    (edgesOf r.inputStreamHandler nodes).map (fun e => e.2.resolve r.routes) =
      (List.range (edgeCount nodes)).map some := by
  induction nodes using List.reverseRecOn with
  | nil => rfl
  | append_singleton done d ih =>
      have hNode : (edgesAt (r.inputStreamHandler done.length) d).map
            (fun e => e.2.resolve r.routes) =
          (List.range' (edgeCount done) d.inputStreams.length).map some := by
        by_cases hNone : d.inputStreams = []
        · cases r.inputStreamHandler done.length <;> simp [edgesAt, hNone]
        · obtain ⟨h, hHandler, hManagers⟩ :=
            hMade done.length d (by simp) hNone
          rw [hHandler]
          apply edgesAt_resolve
          rw [routes_of_getElem? hManagers]
          simp
      rw [edgesOf_concat, List.map_append, ih hMade.of_concat, hNode,
        ← List.map_append, edgeCount_append, edgeCount_singleton,
        List.range_eq_range', List.range_eq_range', ← List.range'_append_1,
        Nat.zero_add]

/-! ## The wiring of one edge -/

/-- Edge `i` of node `n` is wired to `p` alone: the edge has a manager of its
own, and of all the mirrors of all output managers exactly one leads to it, one
of `p`'s, with the edge's index. -/
structure Registered (c : GraphConfig) (r : Runtime) (n i : Nat) (input : String)
    (p : Producer) : Prop where
  own : r.ownedStreamManagers[edgeManager c n i]? = some ⟨input, some n⟩
  mirror : ∃ o h, r.producerManager p = some o ∧ r.inputStreamHandler n = some h ∧
    (⟨some h, i⟩ : Mirror).resolve r.routes = some (edgeManager c n i) ∧
    (r.mirrors o).count ⟨some h, i⟩ = 1 ∧
    ∀ o' m, m ∈ r.mirrors o' → m.resolve r.routes = some (edgeManager c n i) →
      o' = o ∧ m = ⟨some h, i⟩

/-- An edge with one producer is wired to it. -/
theorem registered_of_unique (hInit : Initialized c r) {n i : Nat}
    {input : String} (hEdge : c.edge n i = some input) {p : Producer}
    (hProduces : Produces c (streamName input) p)
    (hUnique : ∀ q, Produces c (streamName input) q → q = p) :
    Registered c r n i input p := by
  obtain ⟨d, hNode, hInput⟩ := edge_eq_some.mp hEdge
  obtain ⟨outputByStream, hLookup, hMirrors⟩ := hInit.wiring
  obtain ⟨o, hFound, hManager, hBound⟩ := hLookup _ p hProduces hUnique
  have hSome : d.inputStreams ≠ [] := by
    intro hNone
    simp [hNone] at hInput
  obtain ⟨h, hHandler, hRange⟩ := hInit.handlers n d hNode hSome
  have hLt : i < d.inputStreams.length := lt_length_of_getElem? hInput
  have hResolve : (⟨some h, i⟩ : Mirror).resolve r.routes =
      some (edgeManager c n i) := by
    simp [Mirror.resolve, routes_of_getElem? hRange, List.getElem?_range' hLt,
      edgeManager]
  have hResolved : ((edgesOf r.inputStreamHandler c.nodes).map
      fun e => e.2.resolve r.routes).Nodup := by
    rw [edgesOf_resolve hInit.handlers]
    exact List.nodup_range.map (Option.some_injective _)
  have hMem : (streamName input, (⟨some h, i⟩ : Mirror)) ∈
      edgesOf r.inputStreamHandler c.nodes := by
    rw [edgesOf, List.mem_flatMap]
    refine ⟨(d, n), List.mem_zipIdx_iff_getElem?.mpr hNode, ?_⟩
    rw [hHandler, edgesAt, List.mem_map]
    exact ⟨(input, i), List.mem_zipIdx_iff_getElem?.mpr hInput, rfl⟩
  refine ⟨hInit.edgeManagers n d hNode i input hInput, o, h, hManager, hHandler,
    hResolve, ?_, ?_⟩
  · have hNodup : (mirrorsAdded outputByStream
        (edgesOf r.inputStreamHandler c.nodes) o).Nodup := by
      apply (List.filter_sublist.map Prod.snd).nodup
      rw [← Function.comp_def, ← List.map_map] at hResolved
      exact hResolved.of_map _
    rw [hMirrors o hBound]
    apply List.count_eq_one_of_mem hNodup
    exact List.mem_map.mpr ⟨_, List.mem_filter.mpr ⟨hMem, by simpa using hFound⟩,
      rfl⟩
  · intro o' m hMirror hLeads
    have hBound' : o' < r.ownedOutputStreamManagers.length := by
      by_contra hGe
      have hNone := List.getElem?_eq_none (Nat.le_of_not_lt hGe)
      simp [mirrors, hNone] at hMirror
    rw [hMirrors o' hBound'] at hMirror
    obtain ⟨e, hFilter, rfl⟩ := List.mem_map.mp hMirror
    obtain ⟨hEdges, hTarget⟩ := List.mem_filter.mp hFilter
    have hSame : e = (streamName input, ⟨some h, i⟩) :=
      List.inj_on_of_nodup_map hResolved hEdges hMem (hLeads.trans hResolve.symm)
    subst hSame
    refine ⟨?_, rfl⟩
    simpa [hFound, eq_comm] using hTarget

end Runtime

/-- Edge `i` of node `n` has exactly one producer, and `Initialize` on a new
runtime wires the edge to it. -/
def WiredToOneProducer (registered : String → Bool) (c : GraphConfig) (n i : Nat)
    (input : String) : Prop :=
  ∃ p, Produces c (streamName input) p ∧
    (∀ q, Produces c (streamName input) q → q = p) ∧
    ∀ r, initializeGraph registered c {} = .ok r →
      Runtime.Registered c r n i input p

/-- **Wiring of an accepted config**: every edge is wired to the one producer it
has, exactly when every consumed stream is unambiguous. -/
theorem wiredToOneProducer_iff (registered : String → Bool) {c : GraphConfig}
    (hValid : (validate c).isOk) :
    (∀ n i input, c.edge n i = some input →
        WiredToOneProducer registered c n i input) ↔
      ∀ n i input, c.edge n i = some input →
        Unambiguous c (streamName input) := by
  constructor
  · intro hWired n i input hEdge
    obtain ⟨p, hProduces, hUnique, -⟩ := hWired n i input hEdge
    exact (existsUnique_producer_iff (connected_of_validate hValid hEdge)).mp
      ⟨p, hProduces, hUnique⟩
  · intro hUnambiguous n i input hEdge
    obtain ⟨p, hProduces, hUnique⟩ :=
      (existsUnique_producer_iff (connected_of_validate hValid hEdge)).mpr
        (hUnambiguous n i input hEdge)
    refine ⟨p, hProduces, hUnique, ?_⟩
    intro r hInit
    exact Runtime.registered_of_unique (initialized_of_eq_ok hInit) hEdge
      hProduces hUnique

/-- A node whose input is only named among the graph's outputs. -/
def danglingConfig : GraphConfig where
  nodes := [{ name := "sink", type := "Sink", inputStreams := ["x"] }]
  outputStreams := ["x"]

/-- The validator accepts it, and its edge has no producer. -/
theorem wiredToOneProducer_dangling :
    (validate danglingConfig).isOk = true ∧
      danglingConfig.edge 0 0 = some "x" ∧
      ¬ WiredToOneProducer (fun _ => true) danglingConfig 0 0 "x" := by
  refine ⟨by decide +kernel, rfl, ?_⟩
  rintro ⟨p, hProduces, -⟩
  cases p with
  | nodeOutput n k =>
      obtain ⟨d, out, hNode, hOut, -⟩ := produces_nodeOutput.mp hProduces
      match n with
      | 0 =>
          obtain rfl : { name := "sink", type := "Sink",
                         inputStreams := ["x"] } = d := by
            simpa [danglingConfig] using hNode
          simp at hOut
      | n + 1 => simp [danglingConfig] at hNode
  | graphInput stream => simpa [danglingConfig] using hProduces.2

/-- A source, a filter and a graph input, wired as declared. -/
def chainConfig : GraphConfig where
  nodes := [{ name := "source", type := "Source", outputStreams := ["out:a"] },
    { name := "filter", type := "Filter", inputStreams := ["in:a", "side:b"],
      outputStreams := ["out:c"] }]
  inputStreams := ["b"]
  outputStreams := ["c"]

theorem wiredToOneProducer_chain :
    WiredToOneProducer (fun _ => true) chainConfig 1 0 "in:a" ∧
      WiredToOneProducer (fun _ => true) chainConfig 1 1 "side:b" := by
  suffices hWired : ∀ n i input, chainConfig.edge n i = some input →
      WiredToOneProducer (fun _ => true) chainConfig n i input from
    ⟨hWired 1 0 "in:a" rfl, hWired 1 1 "side:b" rfl⟩
  apply (wiredToOneProducer_iff _ (by decide +kernel)).mpr
  intro n i input hEdge
  have hInput : input = "in:a" ∨ input = "side:b" := by
    obtain ⟨d, hNode, hInput⟩ := edge_eq_some.mp hEdge
    have hMem : input ∈ chainConfig.nodes.flatMap (·.inputStreams) :=
      List.mem_flatMap.mpr
        ⟨d, List.mem_of_getElem? hNode, List.mem_of_getElem? hInput⟩
    simpa [chainConfig] using hMem
  rcases hInput with rfl | rfl
  · exact ⟨by decide +kernel, by decide +kernel, by decide +kernel⟩
  · exact ⟨by decide +kernel, by decide +kernel, by decide +kernel⟩

end GraphRuntime.Public
