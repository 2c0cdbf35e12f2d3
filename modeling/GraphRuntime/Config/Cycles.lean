import Mathlib.Algebra.Order.BigOperators.Group.Finset
import Mathlib.Data.Set.List
import GraphRuntime.Config.ConfigValidator
import GraphRuntime.Lib.ClosedWalk

/-!
# What the cycle check decides

`ValidateNoCycles` is a depth-first search with three colours and an explicit stack.
`Search.Sound` is what holds at every turn of its loop: the stack is the path, the
path is a walk without repetition through exactly the nodes in progress, and a node
that is done has only done successors and lies on no cycle.  Each turn takes one entry
of the dependency lists or closes one node, which bounds their number (`remaining`).

From this the check accepts exactly the acyclic configs, and the text of its error is
the names along a closed walk (`validateNoCycles_decides`).
-/

namespace GraphRuntime.Config

open Relation

/-- Node `i` reads a stream that node `j` outputs. -/
def DependsOn (c : GraphConfig) (i j : Nat) : Prop :=
  ∃ a b, c.nodes[i]? = some a ∧ c.nodes[j]? = some b ∧
    ∃ input ∈ a.inputStreams, ∃ output ∈ b.outputStreams,
      streamName input = streamName output

/-- `w` is in the list of `u`. -/
def Edge (deps : List (List Nat)) (u w : Nat) : Prop := w ∈ deps.getD u []

variable {c : GraphConfig} {deps : List (List Nat)} {d : Search} {u v w : Nat}

/-! ## The dependency graph -/

theorem mem_producerIndices {stream : String} {j : Nat} :
    j ∈ producerIndices c stream ↔
      ∃ b, c.nodes[j]? = some b ∧ ∃ output ∈ b.outputStreams, streamName output = stream := by
  unfold producerIndices
  simp only [List.mem_flatMap, List.mem_map, List.mem_filter, decide_eq_true_eq, Prod.exists,
    List.mem_zipIdx_iff_getElem?]
  constructor
  · rintro ⟨b, k, hNode, output, ⟨hOutput, hName⟩, rfl⟩
    exact ⟨b, hNode, output, hOutput, hName⟩
  · rintro ⟨b, hNode, output, hOutput, hName⟩
    exact ⟨b, j, hNode, output, ⟨hOutput, hName⟩, rfl⟩

/-- The lists are the relation. -/
theorem edge_iff : Edge (buildDependencyGraph c) u w ↔ DependsOn c u w := by
  unfold Edge DependsOn buildDependencyGraph
  rw [List.getD_eq_getElem?_getD, List.getElem?_map]
  cases hNode : c.nodes[u]? with
  | none => simp
  | some a =>
      simp only [Option.map_some, Option.getD_some, List.mem_flatMap, mem_producerIndices,
        Option.some.injEq]
      constructor
      · rintro ⟨input, hInput, b, hOther, output, hOutput, hName⟩
        exact ⟨a, b, rfl, hOther, input, hInput, output, hOutput, hName.symm⟩
      · rintro ⟨_, b, rfl, hOther, input, hInput, output, hOutput, hName⟩
        exact ⟨input, hInput, b, hOther, output, hOutput, hName.symm⟩

theorem length_buildDependencyGraph : (buildDependencyGraph c).length = c.nodes.length := by
  simp [buildDependencyGraph]

theorem lt_of_edge (hEdge : Edge deps u w) : u < deps.length := by
  by_contra hNot
  rw [Edge, List.getD_eq_getElem?_getD, List.getElem?_eq_none (by omega)] at hEdge
  exact absurd hEdge List.not_mem_nil

theorem lt_of_dependsOn (hDepends : DependsOn c u w) : w < (buildDependencyGraph c).length := by
  obtain ⟨-, b, -, hOther, -⟩ := hDepends
  rw [length_buildDependencyGraph]
  exact (List.getElem?_eq_some_iff.mp hOther).1

/-! ## The invariant of the search -/

/-- What holds at every split of a list holds at its head and at every split of its tail. -/
theorem forall_split_cons {α : Type} {P : List α → α → Prop} {x : α} {rest : List α} :
    (∀ above p below, x :: rest = above ++ p :: below → P above p) ↔
      P [] x ∧ ∀ above p below, rest = above ++ p :: below → P (x :: above) p := by
  constructor
  · intro hAll
    refine ⟨hAll [] x rest rfl, ?_⟩
    intro above p below hSplit
    exact hAll (x :: above) p below (by rw [hSplit, List.cons_append])
  · intro ⟨hHead, hTail⟩ above p below hSplit
    cases above with
    | nil =>
        have hEq : x = p := (List.cons.inj hSplit).1
        exact hEq ▸ hHead
    | cons y above =>
        have hEq : x = y := (List.cons.inj hSplit).1
        exact hEq ▸ hTail above p below (List.cons.inj hSplit).2

structure Search.Sound (deps : List (List Nat)) (d : Search) : Prop where
  path : d.path = (d.stack.map Prod.fst).reverse
  active : ∀ v, d.state v = .inProgress ↔ v ∈ d.path
  distinct : d.path.Nodup
  chain : d.path.IsChain (Edge deps)
  settled : ∀ u, d.state u = .done → ∀ w, Edge deps u w → d.state w = .done
  acyclic : ∀ u, d.state u = .done → ¬ TransGen (Edge deps) u u
  /-- The children a frame has passed are done, or above it on the stack. -/
  passed : ∀ above p below, d.stack = above ++ p :: below →
    ∀ w ∈ (deps.getD p.1 []).take p.2, d.state w = .done ∨ w ∈ above.map Prod.fst
  index : ∀ p ∈ d.stack, p.2 ≤ (deps.getD p.1 []).length

/-- What a turn with frame `(v, k)` on top does: the frame's list is exhausted, or its
next entry is in progress, new or done. -/
theorem Search.step_cases {v k : Nat} {rest : List (Nat × Nat)}
    (hStack : d.stack = (v, k) :: rest) :
    (deps.getD v []).length ≤ k ∧
        d.step deps = { d with
          state := Function.update d.state v .done
          stack := rest
          path := d.path.dropLast } ∨
      ∃ w, (deps.getD v [])[k]? = some w ∧
        (d.state w = .inProgress ∧ d.step deps = { d with
            stack := (v, k + 1) :: rest
            cycle := some (d.path.dropWhile (· ≠ w) ++ [w]) } ∨
          d.state w = .unvisited ∧ d.step deps = { d with
            state := Function.update d.state w .inProgress
            stack := (w, 0) :: (v, k + 1) :: rest
            path := d.path ++ [w] } ∨
          d.state w = .done ∧ d.step deps = { d with stack := (v, k + 1) :: rest }) := by
  cases hChild : (deps.getD v [])[k]? with
  | none =>
      refine Or.inl ⟨List.getElem?_eq_none_iff.mp hChild, ?_⟩
      simp only [Search.step, hStack, hChild]
  | some w =>
      refine Or.inr ⟨w, rfl, ?_⟩
      cases hState : d.state w with
      | inProgress =>
          refine Or.inl ⟨rfl, ?_⟩
          simp only [Search.step, hStack, hChild, hState]
      | unvisited =>
          refine Or.inr (Or.inl ⟨rfl, ?_⟩)
          simp only [Search.step, hStack, hChild, hState]
      | done =>
          refine Or.inr (Or.inr ⟨rfl, ?_⟩)
          simp only [Search.step, hStack, hChild, hState]

/-- The frame on top has passed done children only. -/
theorem Search.Sound.done_of_passed {v k : Nat} {rest : List (Nat × Nat)}
    (hSound : d.Sound deps) (hStack : d.stack = (v, k) :: rest) :
    ∀ w ∈ (deps.getD v []).take k, d.state w = .done := by
  intro w hMem
  refine (hSound.passed [] (v, k) rest hStack w hMem).resolve_right ?_
  exact List.not_mem_nil

theorem Search.Sound.path_of_stack {v k : Nat} {rest : List (Nat × Nat)}
    (hSound : d.Sound deps) (hStack : d.stack = (v, k) :: rest) :
    d.path = (rest.map Prod.fst).reverse ++ [v] := by
  rw [hSound.path, hStack, List.map_cons, List.reverse_cons]

/-- **Closing a node**: all its successors are done. -/
theorem Search.Sound.close {v k : Nat} {rest : List (Nat × Nat)} (hSound : d.Sound deps)
    (hStack : d.stack = (v, k) :: rest) (hEnd : (deps.getD v []).length ≤ k) :
    Search.Sound deps { d with
      state := Function.update d.state v .done
      stack := rest
      path := d.path.dropLast } := by
  have hPath := hSound.path_of_stack hStack
  have hDrop : d.path.dropLast = (rest.map Prod.fst).reverse := by
    rw [hPath, List.dropLast_concat]
  have hActive : d.state v = .inProgress := (hSound.active v).mpr (by simp [hPath])
  have hNext : ∀ w, Edge deps v w → d.state w = .done := by
    intro w hEdge
    refine hSound.done_of_passed hStack w ?_
    rw [List.take_of_length_le hEnd]
    exact hEdge
  have hNotDone : ¬ d.state v = .done := by simp [hActive]
  have hKeep : ∀ w, d.state w = .done → Function.update d.state v .done w = .done := by
    intro w hDone
    by_cases hEq : w = v
    · simp [hEq]
    · rw [Function.update_of_ne hEq, hDone]
  have hBack : ∀ u, Function.update d.state v .done u = .done → u = v ∨ d.state u = .done := by
    intro u hDone
    by_cases hEq : u = v
    · exact Or.inl hEq
    · exact Or.inr (by rwa [Function.update_of_ne hEq] at hDone)
  constructor
  · exact hDrop
  · intro u
    have hFresh : v ∉ (rest.map Prod.fst).reverse := by
      have hDistinct := hSound.distinct
      rw [hPath, List.nodup_append] at hDistinct
      exact fun hMem => hDistinct.2.2 v hMem v (by simp) rfl
    by_cases hEq : u = v
    · subst hEq
      simp [hDrop] at hFresh ⊢
      exact hFresh
    · show Function.update d.state v .done u = .inProgress ↔ u ∈ d.path.dropLast
      rw [Function.update_of_ne hEq, hSound.active u, hDrop, hPath]
      simp [hEq]
  · exact hSound.distinct.sublist (List.dropLast_sublist _)
  · exact hSound.chain.prefix (List.dropLast_prefix _)
  · intro u hDone w hEdge
    refine hKeep w ?_
    rcases hBack u hDone with rfl | hDone
    · exact hNext w hEdge
    · exact hSound.settled u hDone w hEdge
  · intro u hDone
    rcases hBack u hDone with rfl | hDone
    · exact Walk.not_transGen_of_finished hSound.settled hNotDone hNext
    · exact hSound.acyclic u hDone
  · intro above p below hSplit w hMem
    have hBelow := (forall_split_cons.mp (hStack ▸ hSound.passed)).2
    rcases hBelow above p below hSplit w hMem with hDone | hAbove
    · exact Or.inl (hKeep w hDone)
    · rcases List.mem_cons.mp hAbove with rfl | hAbove
      · exact Or.inl (by simp)
      · exact Or.inr hAbove
  · intro p hMem
    exact hSound.index p (by rw [hStack]; exact List.mem_cons_of_mem _ hMem)

/-- **Entering a node** that has not been visited. -/
theorem Search.Sound.enter {v k w : Nat} {rest : List (Nat × Nat)} (hSound : d.Sound deps)
    (hStack : d.stack = (v, k) :: rest) (hChild : (deps.getD v [])[k]? = some w)
    (hNew : d.state w = .unvisited) :
    Search.Sound deps { d with
      state := Function.update d.state w .inProgress
      stack := (w, 0) :: (v, k + 1) :: rest
      path := d.path ++ [w] } := by
  have hPath := hSound.path_of_stack hStack
  have hOff : w ∉ d.path := fun hMem => by
    have hActive := (hSound.active w).mpr hMem
    exact absurd hActive (by simp [hNew])
  have hKeep : ∀ u, d.state u = .done → Function.update d.state w .inProgress u = .done := by
    intro u hDone
    have hNe : u ≠ w := fun hEq => by simp [hEq, hNew] at hDone
    rw [Function.update_of_ne hNe, hDone]
  have hBack : ∀ u, Function.update d.state w .inProgress u = .done → d.state u = .done := by
    intro u hDone
    by_cases hEq : u = w
    · simp [hEq] at hDone
    · rwa [Function.update_of_ne hEq] at hDone
  constructor
  · show d.path ++ [w] = _
    rw [hPath]
    simp
  · intro u
    show Function.update d.state w .inProgress u = .inProgress ↔ u ∈ d.path ++ [w]
    by_cases hEq : u = w
    · simp [hEq]
    · rw [Function.update_of_ne hEq, hSound.active u]
      simp [hEq]
  · show (d.path ++ [w]).Nodup
    rw [← List.concat_eq_append]
    exact hSound.distinct.concat hOff
  · refine List.isChain_append.mpr ⟨hSound.chain, List.isChain_singleton w, ?_⟩
    intro a ha b hb
    obtain rfl : w = b := by simpa using hb
    obtain rfl : v = a := by simpa [hPath] using ha
    exact List.mem_of_getElem? hChild
  · intro u hDone b hEdge
    exact hKeep b (hSound.settled u (hBack u hDone) b hEdge)
  · intro u hDone
    exact hSound.acyclic u (hBack u hDone)
  · have hBelow := (forall_split_cons.mp (hStack ▸ hSound.passed)).2
    refine forall_split_cons.mpr ⟨fun b hMem => absurd hMem List.not_mem_nil, ?_⟩
    refine forall_split_cons.mpr ⟨?_, ?_⟩
    · intro b hMem
      rw [List.take_add_one, hChild, List.mem_append] at hMem
      rcases hMem with hMem | hMem
      · exact Or.inl (hKeep b (hSound.done_of_passed hStack b hMem))
      · exact Or.inr hMem
    · intro above p below hSplit b hMem
      rcases hBelow above p below hSplit b hMem with hDone | hAbove
      · exact Or.inl (hKeep b hDone)
      · exact Or.inr (List.mem_cons_of_mem w hAbove)
  · have hIndex := hSound.index
    rw [hStack] at hIndex
    rw [List.forall_mem_cons, List.forall_mem_cons]
    refine ⟨Nat.zero_le _, ?_, fun p hMem => hIndex p (List.mem_cons_of_mem _ hMem)⟩
    exact (List.getElem?_eq_some_iff.mp hChild).1

/-- **Passing a child** that is done. -/
theorem Search.Sound.pass {v k w : Nat} {rest : List (Nat × Nat)} (hSound : d.Sound deps)
    (hStack : d.stack = (v, k) :: rest) (hChild : (deps.getD v [])[k]? = some w)
    (hDone : d.state w = .done) :
    Search.Sound deps { d with stack := (v, k + 1) :: rest } := by
  refine { hSound with path := ?_, passed := ?_, index := ?_ }
  · show d.path = _
    rw [hSound.path, hStack]
    simp
  · have hBelow := (forall_split_cons.mp (hStack ▸ hSound.passed)).2
    refine forall_split_cons.mpr ⟨?_, hBelow⟩
    intro b hMem
    rw [List.take_add_one, hChild, List.mem_append] at hMem
    rcases hMem with hMem | hMem
    · exact Or.inl (hSound.done_of_passed hStack b hMem)
    · obtain rfl : b = w := by simpa using hMem
      exact Or.inl hDone
  · have hIndex := hSound.index
    rw [hStack] at hIndex
    rw [List.forall_mem_cons]
    refine ⟨?_, fun p hMem => hIndex p (List.mem_cons_of_mem _ hMem)⟩
    exact (List.getElem?_eq_some_iff.mp hChild).1

/-- The path from a node in progress to the top, and back to that node. -/
theorem Search.Sound.closed {v k w : Nat} {rest : List (Nat × Nat)} (hSound : d.Sound deps)
    (hStack : d.stack = (v, k) :: rest) (hChild : (deps.getD v [])[k]? = some w)
    (hActive : d.state w = .inProgress) :
    Walk.Closed (Edge deps) (d.path.dropWhile (· ≠ w) ++ [w]) := by
  refine Walk.closed_of_back hSound.chain ((hSound.active w).mp hActive) ?_
  intro b hLast
  rw [hSound.path_of_stack hStack, List.getLast?_concat] at hLast
  obtain rfl : v = b := by simpa using hLast
  exact List.mem_of_getElem? hChild

/-- What a search has found, once it is over or goes on. -/
structure Search.Found (deps : List (List Nat)) (d : Search) : Prop where
  sound : d.cycle = none → d.Sound deps
  closed : ∀ cycle, d.cycle = some cycle → Walk.Closed (Edge deps) cycle

/-- **One turn**. -/
theorem Search.Sound.step (hSound : d.Sound deps) (hNone : d.cycle = none)
    (hStack : d.stack ≠ []) : (d.step deps).Found deps := by
  obtain ⟨⟨v, k⟩, rest, hTop⟩ := List.exists_cons_of_ne_nil hStack
  have hContinue : ∀ {e : Search}, e.Sound deps → e.cycle = none → e.Found deps := by
    intro e hNext hCycle
    exact ⟨fun _ => hNext, fun cycle hSome => by simp [hCycle] at hSome⟩
  rcases Search.step_cases hTop with ⟨hEnd, hStep⟩ | ⟨w, hChild, hVisit⟩
  · rw [hStep]
    exact hContinue (hSound.close hTop hEnd) hNone
  · rcases hVisit with ⟨hActive, hStep⟩ | ⟨hNew, hStep⟩ | ⟨hDone, hStep⟩
    · rw [hStep]
      refine ⟨fun hCycle => absurd hCycle (Option.some_ne_none _), ?_⟩
      intro cycle hSome
      obtain rfl := Option.some.inj hSome
      exact hSound.closed hTop hChild hActive
    · rw [hStep]
      exact hContinue (hSound.enter hTop hChild hNew) hNone
    · rw [hStep]
      exact hContinue (hSound.pass hTop hChild hDone) hNone

/-! ## The loop -/

/-- The condition on which the `while` loop is left. -/
def Search.Over (d : Search) : Prop := d.stack = [] ∨ d.cycle ≠ none

/-- The `while` loop, without a bound on its turns: it ends, with the locals `e`. -/
inductive Search.Ends (deps : List (List Nat)) : Search → Search → Prop
  | over (d : Search) : d.Over → Ends deps d d
  | turn (d e : Search) : ¬ d.Over → Ends deps (d.step deps) e → Ends deps d e

theorem Search.run_of_over {fuel : Nat} (hOver : d.Over) :
    Search.run deps fuel d = d := by
  cases fuel with
  | zero => rfl
  | succ fuel =>
      have hStop : (d.stack.isEmpty || d.cycle.isSome) = true := by
        rcases hOver with hStack | hCycle
        · simp [hStack]
        · simp [Option.isSome_iff_ne_none.mpr hCycle]
      simp [Search.run, hStop]

theorem Search.run_of_not_over {fuel : Nat} (hOver : ¬ d.Over) :
    Search.run deps (fuel + 1) d = Search.run deps fuel (d.step deps) := by
  have hStop : (d.stack.isEmpty || d.cycle.isSome) = false := by
    simpa [Search.Over] using hOver
  simp [Search.run, hStop]

/-- Induction over the turns of a bounded run. -/
theorem Search.run_induction {P : Search → Prop} (fuel : Nat) (hFirst : P d)
    (hStep : ∀ d : Search, ¬ d.Over → P d → P (d.step deps)) :
    P (Search.run deps fuel d) := by
  induction fuel generalizing d with
  | zero => exact hFirst
  | succ fuel ih =>
      by_cases hOver : d.Over
      · rw [Search.run_of_over hOver]
        exact hFirst
      · rw [Search.run_of_not_over hOver]
        exact ih (hStep d hOver hFirst)

/-- **The invariant of a run**. -/
theorem Search.Found.run (fuel : Nat) (hFound : d.Found deps) :
    (Search.run deps fuel d).Found deps := by
  refine Search.run_induction (P := fun d => d.Found deps) fuel hFound ?_
  intro d hOver hFound
  obtain ⟨hStack, hCycle⟩ : d.stack ≠ [] ∧ d.cycle = none := by
    simpa [Search.Over] using hOver
  exact (hFound.sound hCycle).step hCycle hStack

/-- A node once visited stays so. -/
theorem Search.visited_run (fuel : Nat) (hVisited : d.state v ≠ .unvisited) :
    (Search.run deps fuel d).state v ≠ .unvisited := by
  refine Search.run_induction (P := fun d => d.state v ≠ .unvisited) fuel hVisited ?_
  intro d hOver hVisited
  have hUpdate : ∀ u x, x ≠ VisitState.unvisited →
      Function.update d.state u x v ≠ .unvisited := by
    intro u x hNe
    by_cases hEq : v = u
    · simpa [hEq] using hNe
    · rwa [Function.update_of_ne hEq]
  obtain ⟨hStack, -⟩ : d.stack ≠ [] ∧ d.cycle = none := by simpa [Search.Over] using hOver
  obtain ⟨⟨u, k⟩, rest, hTop⟩ := List.exists_cons_of_ne_nil hStack
  rcases @Search.step_cases deps _ u k rest hTop with ⟨-, hStep⟩ |
    ⟨w, -, ⟨-, hStep⟩ | ⟨-, hStep⟩ | ⟨-, hStep⟩⟩
  · rw [hStep]
    exact hUpdate u .done (by decide)
  · rw [hStep]
    exact hVisited
  · rw [hStep]
    exact hUpdate w .inProgress (by decide)
  · rw [hStep]
    exact hVisited

/-! ## Every search ends -/

/-- What the nodes not yet visited will cost. -/
def unvisitedWork (deps : List (List Nat)) (state : Nat → VisitState) : Nat :=
  ∑ v ∈ Finset.range deps.length,
    if state v = .unvisited then (deps.getD v []).length + 1 else 0

/-- What is left of the lists on the stack. -/
def stackWork (deps : List (List Nat)) (stack : List (Nat × Nat)) : Nat :=
  (stack.map fun p => (deps.getD p.1 []).length + 1 - p.2).sum

def Search.remaining (deps : List (List Nat)) (d : Search) : Nat :=
  unvisitedWork deps d.state + stackWork deps d.stack

theorem stackWork_cons {p : Nat × Nat} {rest : List (Nat × Nat)} :
    stackWork deps (p :: rest) =
      ((deps.getD p.1 []).length + 1 - p.2) + stackWork deps rest := by
  simp [stackWork]

theorem unvisitedWork_enter {state : Nat → VisitState} (hBound : w < deps.length)
    (hNew : state w = .unvisited) :
    unvisitedWork deps (Function.update state w .inProgress) +
      ((deps.getD w []).length + 1) = unvisitedWork deps state := by
  have hMem : w ∈ Finset.range deps.length := Finset.mem_range.mpr hBound
  unfold unvisitedWork
  rw [← Finset.add_sum_erase _ _ hMem, ← Finset.add_sum_erase _ _ hMem, if_pos hNew]
  have hRest : ∀ u ∈ (Finset.range deps.length).erase w,
      (if Function.update state w .inProgress u = .unvisited
        then (deps.getD u []).length + 1 else 0) =
      if state u = .unvisited then (deps.getD u []).length + 1 else 0 := by
    intro u hErase
    rw [Function.update_of_ne (Finset.ne_of_mem_erase hErase)]
  rw [Finset.sum_congr rfl hRest]
  simp [Nat.add_comm]

theorem unvisitedWork_close {state : Nat → VisitState} (hActive : state v = .inProgress) :
    unvisitedWork deps (Function.update state v .done) = unvisitedWork deps state := by
  refine Finset.sum_congr rfl ?_
  intro u _
  by_cases hEq : u = v
  · simp [hEq, hActive]
  · rw [Function.update_of_ne hEq]

/-- All there is to do. -/
theorem unvisitedWork_le (state : Nat → VisitState) :
    unvisitedWork deps state ≤ searchFuel deps := by
  have hAll : ∀ deps : List (List Nat),
      ∑ v ∈ Finset.range deps.length, ((deps.getD v []).length + 1) = searchFuel deps := by
    intro deps
    induction deps with
    | nil => rfl
    | cons list deps ih =>
        rw [List.length_cons, Finset.sum_range_succ']
        simp only [List.getD_cons_succ, List.getD_cons_zero, ih, searchFuel, List.length_cons,
          List.map_cons, List.sum_cons]
        omega
  rw [← hAll deps]
  refine Finset.sum_le_sum ?_
  intro v _
  split
  · exact le_rfl
  · exact Nat.zero_le _

/-- **Each turn** that does not find a cycle does some of the work. -/
theorem Search.Sound.remaining_step (hSound : d.Sound deps) (hStack : d.stack ≠ [])
    (hBound : ∀ u w, Edge deps u w → w < deps.length)
    (hNone : (d.step deps).cycle = none) :
    (d.step deps).remaining deps < d.remaining deps := by
  obtain ⟨⟨v, k⟩, rest, hTop⟩ := List.exists_cons_of_ne_nil hStack
  have hIndex : k ≤ (deps.getD v []).length := hSound.index (v, k) (by simp [hTop])
  have hActive : d.state v = .inProgress :=
    (hSound.active v).mpr (by simp [hSound.path_of_stack hTop])
  rcases Search.step_cases hTop with ⟨hEnd, hStep⟩ | ⟨w, hChild, hVisit⟩
  · rw [hStep]
    simp only [Search.remaining, hTop, stackWork_cons, unvisitedWork_close hActive]
    omega
  · have hLt : k < (deps.getD v []).length := (List.getElem?_eq_some_iff.mp hChild).1
    rcases hVisit with ⟨-, hStep⟩ | ⟨hNew, hStep⟩ | ⟨-, hStep⟩
    · rw [hStep] at hNone
      exact absurd hNone (Option.some_ne_none _)
    · have hEnter := unvisitedWork_enter (hBound v w (List.mem_of_getElem? hChild)) hNew
      rw [hStep]
      simp only [Search.remaining, hTop, stackWork_cons]
      omega
    · rw [hStep]
      simp only [Search.remaining, hTop, stackWork_cons]
      omega

/-- **The bound is enough**: the loop ends, where the bounded run ends. -/
theorem Search.Found.ends (fuel : Nat) (hFound : d.Found deps)
    (hBound : ∀ u w, Edge deps u w → w < deps.length)
    (hFuel : d.cycle = none → d.remaining deps ≤ fuel) :
    Search.Ends deps d (Search.run deps fuel d) ∧ (Search.run deps fuel d).Over := by
  induction fuel generalizing d with
  | zero =>
      have hOver : d.Over := by
        by_cases hCycle : d.cycle = none
        · refine Or.inl ?_
          have hZero : d.remaining deps ≤ 0 := hFuel hCycle
          match hStack : d.stack with
          | [] => rfl
          | (v, k) :: rest =>
              have hIndex := (hFound.sound hCycle).index (v, k) (by simp [hStack])
              simp only [Search.remaining, hStack, stackWork_cons] at hZero hIndex
              omega
        · exact Or.inr hCycle
      exact ⟨Search.Ends.over d hOver, hOver⟩
  | succ fuel ih =>
      by_cases hOver : d.Over
      · rw [Search.run_of_over hOver]
        exact ⟨Search.Ends.over d hOver, hOver⟩
      · obtain ⟨hStack, hCycle⟩ : d.stack ≠ [] ∧ d.cycle = none := by
          simpa [Search.Over] using hOver
        have hSound := hFound.sound hCycle
        have hLess : (d.step deps).cycle = none → (d.step deps).remaining deps ≤ fuel := by
          intro hNone
          have hStep := hSound.remaining_step hStack hBound hNone
          have hBefore := hFuel hCycle
          omega
        obtain ⟨hEnds, hLast⟩ := ih (hSound.step hCycle hStack) hLess
        rw [Search.run_of_not_over hOver]
        exact ⟨Search.Ends.turn d _ hOver hEnds, hLast⟩

/-! ## The loop over the start nodes -/

/-- The locals when the search from `start` begins. -/
def Search.start (state : Nat → VisitState) (start : Nat) : Search :=
  { state := Function.update state start .inProgress
    stack := [(start, 0)]
    path := [start] }

/-- The loop over the start nodes, each search run to its end without a bound. -/
inductive Searches (deps : List (List Nat)) :
    List Nat → (Nat → VisitState) → Option (List Nat) → Prop
  | nil (state) : Searches deps [] state none
  | skip (start rest state result) : state start ≠ .unvisited →
      Searches deps rest state result → Searches deps (start :: rest) state result
  | found (start rest state d cycle) : state start = .unvisited →
      Search.Ends deps (Search.start state start) d → d.cycle = some cycle →
      Searches deps (start :: rest) state (some cycle)
  | next (start rest state d result) : state start = .unvisited →
      Search.Ends deps (Search.start state start) d → d.cycle = none →
      Searches deps rest d.state result → Searches deps (start :: rest) state result

/-- Between two searches nothing is in progress, and what is done is settled. -/
structure Settled (deps : List (List Nat)) (state : Nat → VisitState) : Prop where
  idle : ∀ v, state v ≠ .inProgress
  settled : ∀ u, state u = .done → ∀ w, Edge deps u w → state w = .done
  acyclic : ∀ u, state u = .done → ¬ TransGen (Edge deps) u u

variable {state : Nat → VisitState} {first : Nat}

theorem Settled.done (hSettled : Settled deps state) (hVisited : state v ≠ .unvisited) :
    state v = .done := by
  have hIdle := hSettled.idle v
  cases hState : state v with
  | unvisited => exact absurd hState hVisited
  | inProgress => exact absurd hState hIdle
  | done => rfl

theorem Settled.start (hSettled : Settled deps state) (hNew : state first = .unvisited) :
    (Search.start state first).Sound deps := by
  have hBack : ∀ u, Function.update state first .inProgress u = .done → state u = .done := by
    intro u hDone
    by_cases hEq : u = first
    · simp [hEq] at hDone
    · rwa [Function.update_of_ne hEq] at hDone
  have hKeep : ∀ u, state u = .done → Function.update state first .inProgress u = .done := by
    intro u hDone
    have hNe : u ≠ first := fun hEq => by simp [hEq, hNew] at hDone
    rw [Function.update_of_ne hNe, hDone]
  constructor
  · rfl
  · intro u
    show Function.update state first .inProgress u = .inProgress ↔ u ∈ [first]
    by_cases hEq : u = first
    · simp [hEq]
    · simp [hEq, hSettled.idle u]
  · exact List.nodup_singleton first
  · exact List.isChain_singleton first
  · intro u hDone w hEdge
    exact hKeep w (hSettled.settled u (hBack u hDone) w hEdge)
  · intro u hDone
    exact hSettled.acyclic u (hBack u hDone)
  · refine forall_split_cons.mpr ⟨fun b hMem => absurd hMem List.not_mem_nil, ?_⟩
    intro above p below hSplit
    exact absurd hSplit (by simp)
  · intro p hMem
    obtain rfl : p = (first, 0) := by simpa [Search.start] using hMem
    exact Nat.zero_le _

theorem remaining_start (hBound : first < deps.length) (hNew : state first = .unvisited) :
    (Search.start state first).remaining deps ≤ searchFuel deps := by
  have hEnter := unvisitedWork_enter hBound hNew
  have hAll : unvisitedWork deps state ≤ searchFuel deps := unvisitedWork_le state
  simp only [Search.remaining, Search.start, stackWork_cons]
  simp only [stackWork, List.map_nil, List.sum_nil]
  omega

/-- **A search that found nothing** leaves a settled state. -/
theorem Search.Sound.settle (hSound : d.Sound deps) (hStack : d.stack = []) :
    Settled deps d.state := by
  refine ⟨?_, hSound.settled, hSound.acyclic⟩
  intro v hActive
  have hMem := (hSound.active v).mp hActive
  rw [hSound.path, hStack] at hMem
  exact List.not_mem_nil hMem

theorem findCycle_of_visited {rest : List Nat} (hVisited : state first ≠ .unvisited) :
    findCycle deps (first :: rest) state = findCycle deps rest state := by
  rw [findCycle, if_pos hVisited]

theorem findCycle_of_unvisited {rest : List Nat} (hNew : state first = .unvisited)
    (hRun : Search.run deps (searchFuel deps) (Search.start state first) = d) :
    findCycle deps (first :: rest) state = d.cycle.or (findCycle deps rest d.state) := by
  subst hRun
  rw [findCycle, if_neg (not_not_intro hNew)]
  cases hCycle : (Search.run deps (searchFuel deps) (Search.start state first)).cycle with
  | some cycle => simp only [Search.start] at hCycle; simp [hCycle]
  | none => simp only [Search.start] at hCycle; simp [Search.start, hCycle]

/-- What `findCycle` decides about the starts it is given. -/
structure Decides (deps : List (List Nat)) (starts : List Nat) (state : Nat → VisitState)
    (result : Option (List Nat)) : Prop where
  searches : Searches deps starts state result
  closed : ∀ cycle, result = some cycle → Walk.Closed (Edge deps) cycle
  done : result = none → ∃ last, Settled deps last ∧
    (∀ v, state v = .done → last v = .done) ∧ ∀ v ∈ starts, last v = .done

/-- **The whole search**: it ends; what it finds is a closed walk, and when it finds
nothing every start is done. -/
theorem findCycle_decides (hBound : ∀ u w, Edge deps u w → w < deps.length)
    (starts : List Nat) (hStarts : ∀ v ∈ starts, v < deps.length)
    (hSettled : Settled deps state) :
    Decides deps starts state (findCycle deps starts state) := by
  induction starts generalizing state with
  | nil =>
      refine ⟨Searches.nil state, fun cycle hSome => absurd hSome.symm (Option.some_ne_none _), ?_⟩
      intro _
      exact ⟨state, hSettled, fun v hDone => hDone, fun v hMem => absurd hMem List.not_mem_nil⟩
  | cons first rest ih =>
      obtain ⟨hFirst, hRest⟩ := List.forall_mem_cons.mp hStarts
      by_cases hNew : state first = .unvisited
      · have hFound : (Search.start state first).Found deps :=
          ⟨fun _ => hSettled.start hNew, fun cycle hSome => by simp [Search.start] at hSome⟩
        have hLoop := hFound.ends (searchFuel deps) hBound
          (fun _ => remaining_start hFirst hNew)
        have hLast := hFound.run (searchFuel deps)
        have hStay : ∀ v, (Search.start state first).state v ≠ .unvisited →
            (Search.run deps (searchFuel deps) (Search.start state first)).state v ≠
              .unvisited := fun v => Search.visited_run (searchFuel deps)
        generalize hRun : Search.run deps (searchFuel deps) (Search.start state first) = d
          at hLoop hLast hStay
        rw [findCycle_of_unvisited hNew hRun]
        obtain ⟨hEnds, hOver⟩ := hLoop
        cases hCycle : d.cycle with
        | some cycle =>
            rw [Option.some_or]
            refine ⟨Searches.found first rest state d cycle hNew hEnds hCycle, ?_, ?_⟩
            · intro found hSome
              exact hLast.closed found (hCycle.trans hSome)
            · exact fun hNone => absurd hNone (Option.some_ne_none _)
        | none =>
            rw [Option.none_or]
            have hStack : d.stack = [] := hOver.resolve_right (not_not_intro hCycle)
            have hNext : Settled deps d.state := (hLast.sound hCycle).settle hStack
            obtain ⟨hSearches, hClosed, hDone⟩ := ih hRest hNext
            refine ⟨Searches.next first rest state d _ hNew hEnds hCycle hSearches, hClosed, ?_⟩
            intro hNone
            obtain ⟨last, hSettledLast, hKept, hAll⟩ := hDone hNone
            have hVisited : ∀ v, (Search.start state first).state v ≠ .unvisited →
                last v = .done := fun v hStart => hKept v (hNext.done (hStay v hStart))
            refine ⟨last, hSettledLast, ?_, List.forall_mem_cons.mpr ⟨?_, hAll⟩⟩
            · intro v hDone
              refine hVisited v ?_
              show Function.update state first .inProgress v ≠ .unvisited
              by_cases hEq : v = first
              · simp [hEq]
              · rw [Function.update_of_ne hEq, hDone]
                decide
            · refine hVisited first ?_
              show Function.update state first .inProgress first ≠ .unvisited
              simp
      · rw [findCycle_of_visited hNew]
        obtain ⟨hSearches, hClosed, hDone⟩ := ih hRest hSettled
        refine ⟨Searches.skip first rest state _ hNew hSearches, hClosed, ?_⟩
        intro hNone
        obtain ⟨last, hLast, hKept, hAll⟩ := hDone hNone
        refine ⟨last, hLast, hKept, List.forall_mem_cons.mpr ⟨?_, hAll⟩⟩
        exact hKept first (hSettled.done hNew)

/-! ## The decision -/

theorem edge_bounded : ∀ u w, Edge (buildDependencyGraph c) u w →
    w < (buildDependencyGraph c).length :=
  fun _ _ hEdge => lt_of_dependsOn (edge_iff.mp hEdge)

/-- Every node is a start. -/
theorem findCycle_config (c : GraphConfig) :
    Decides (buildDependencyGraph c) (List.range c.nodes.length) (fun _ => .unvisited)
      (findCycle (buildDependencyGraph c) (List.range c.nodes.length) fun _ => .unvisited) := by
  refine findCycle_decides edge_bounded _ ?_ ⟨?_, ?_, ?_⟩
  · intro v hMem
    rw [length_buildDependencyGraph]
    exact List.mem_range.mp hMem
  · exact fun v => VisitState.noConfusion
  · exact fun u hDone => VisitState.noConfusion hDone
  · exact fun u hDone => VisitState.noConfusion hDone

/-- When nothing is found, no node is on a cycle: every node is done, and a node on a
cycle is a node of the config. -/
theorem acyclic_of_none {result : Option (List Nat)}
    (hDecides : Decides (buildDependencyGraph c) (List.range c.nodes.length)
      (fun _ => .unvisited) result) (hNone : result = none) :
    ∀ n, ¬ TransGen (Edge (buildDependencyGraph c)) n n := by
  obtain ⟨last, hSettled, -, hAll⟩ := hDecides.done hNone
  intro n hCycle
  obtain ⟨w, hEdge, -⟩ := TransGen.head'_iff.mp hCycle
  have hNode : n < c.nodes.length := length_buildDependencyGraph ▸ lt_of_edge hEdge
  exact hSettled.acyclic n (hAll n (List.mem_range.mpr hNode)) hCycle

/-- The tail of `ValidateNoCycles`: what is returned for the cycle found. -/
def cycleStatus (c : GraphConfig) : Option (List Nat) → Status
  | none => Status.okStatus
  | some cycle =>
      if cycle.isEmpty then Status.okStatus else invalidArgumentError (cycleMessage c cycle)

/-- `ValidateNoCycles` with loops that have no bound: it ends and returns `status`. -/
def NoCyclesReturns (c : GraphConfig) (status : Status) : Prop :=
  ∃ result, Searches (buildDependencyGraph c) (List.range c.nodes.length)
    (fun _ => .unvisited) result ∧ status = cycleStatus c result

/-! ## The text of the error -/

/-- A node's name in quotes. -/
def quotedName (node : NodeDef) : String := "'" ++ node.name ++ "'"

/-- One turn on a node of the config. -/
theorem appendCycleNode_eq {idx : Nat} {node : NodeDef} (hNode : c.nodes[idx]? = some node)
    (cycleStr : String) : appendCycleNode c cycleStr idx =
      (if cycleStr.isEmpty then cycleStr else cycleStr ++ " → ") ++ quotedName node := by
  rw [appendCycleNode, hNode]
  rfl

theorem isEmpty_append_quotedName (s : String) (node : NodeDef) :
    (s ++ quotedName node).isEmpty = false := by
  have hQuote : quotedName node ≠ "" := by
    intro hEmpty
    have hLength := congrArg String.length hEmpty
    simp [quotedName] at hLength
  simp [hQuote]

/-- What the loop writes after a text that is not empty. -/
theorem foldl_appendCycleNode {cycle : List Nat} {nodes : List NodeDef}
    (hNodes : cycle.map (c.nodes[·]?) = nodes.map some) {cycleStr : String}
    (hText : cycleStr.isEmpty = false) :
    cycle.foldl (appendCycleNode c) cycleStr =
      " → ".intercalate (cycleStr :: nodes.map quotedName) := by
  induction cycle generalizing nodes cycleStr with
  | nil =>
      obtain rfl : nodes = [] := by simpa using hNodes.symm
      simp
  | cons idx cycle ih =>
      cases nodes with
      | nil => simp at hNodes
      | cons node nodes =>
          obtain ⟨hNode, hRest⟩ := List.cons.inj hNodes
          rw [List.foldl_cons, appendCycleNode_eq hNode, hText, if_neg Bool.false_ne_true,
            ih hRest (isEmpty_append_quotedName _ node)]
          simp [String.append_assoc]

/-- **The message** is the names of the nodes, in quotes and joined by arrows. -/
theorem cycleMessage_eq {cycle : List Nat} {nodes : List NodeDef}
    (hNodes : cycle.map (c.nodes[·]?) = nodes.map some) :
    cycleMessage c cycle =
      "cycle detected: " ++ " → ".intercalate (nodes.map fun node => "'" ++ node.name ++ "'") := by
  show "cycle detected: " ++ cycle.foldl (appendCycleNode c) "" =
    "cycle detected: " ++ " → ".intercalate (nodes.map quotedName)
  cases cycle with
  | nil =>
      obtain rfl : nodes = [] := by simpa using hNodes.symm
      simp
  | cons idx cycle =>
      cases nodes with
      | nil => simp at hNodes
      | cons node nodes =>
          obtain ⟨hNode, hRest⟩ := List.cons.inj hNodes
          have hFirst : appendCycleNode c "" idx = "" ++ quotedName node := by
            rw [appendCycleNode_eq hNode]
            simp
          rw [List.foldl_cons, hFirst,
            foldl_appendCycleNode hRest (isEmpty_append_quotedName "" node)]
          simp

/-- The nodes of the config that a closed walk goes through. -/
theorem nodes_of_closed {cycle : List Nat} (hClosed : Walk.Closed (DependsOn c) cycle) :
    ∃ nodes : List NodeDef, cycle.map (c.nodes[·]?) = nodes.map some := by
  have hNode : ∀ i ∈ cycle, ∃ node, c.nodes[i]? = some node := by
    refine hClosed.forall_mem ?_
    rintro i j ⟨a, b, hFirst, hSecond, -⟩
    exact ⟨⟨a, hFirst⟩, ⟨b, hSecond⟩⟩
  have hRange : cycle.map (c.nodes[·]?) ∈ Set.range (List.map some) := by
    rw [Set.range_list_map]
    intro found hMem
    obtain ⟨i, hIndex, rfl⟩ := List.mem_map.mp hMem
    obtain ⟨node, hSome⟩ := hNode i hIndex
    exact ⟨node, hSome.symm⟩
  obtain ⟨nodes, hEq⟩ := hRange
  exact ⟨nodes, hEq.symm⟩

/-! ## The decision -/
/-- What the check returns: OK when no node depends on itself along any number of edges,
else the names along a closed walk. -/
theorem validateNoCycles_cases (c : GraphConfig) :
    ((validateNoCycles c).isOk ∧ ∀ n, ¬ TransGen (DependsOn c) n n) ∨
      (¬ (validateNoCycles c).isOk ∧ ∃ (cycle : List Nat) (nodes : List NodeDef),
        Walk.Closed (DependsOn c) cycle ∧
        cycle.map (c.nodes[·]?) = nodes.map some ∧
        validateNoCycles c = invalidArgumentError ("cycle detected: " ++
          " → ".intercalate (nodes.map fun node => "'" ++ node.name ++ "'"))) := by
  have hDecides := findCycle_config c
  have hSame : Edge (buildDependencyGraph c) = DependsOn c := by
    funext u w
    exact propext edge_iff
  unfold validateNoCycles
  generalize findCycle (buildDependencyGraph c) (List.range c.nodes.length)
    (fun _ => .unvisited) = result at hDecides
  cases result with
  | none =>
      have hAcyclic := acyclic_of_none hDecides rfl
      rw [hSame] at hAcyclic
      exact Or.inl ⟨rfl, hAcyclic⟩
  | some cycle =>
      have hClosed : Walk.Closed (DependsOn c) cycle := hSame ▸ hDecides.closed cycle rfl
      have hNonempty : cycle.isEmpty = false := by
        obtain ⟨n, hMem, -⟩ := hClosed.transGen
        simpa using List.ne_nil_of_mem hMem
      obtain ⟨nodes, hNodes⟩ := nodes_of_closed hClosed
      right
      simp only [hNonempty, Bool.false_eq_true, if_false]
      refine ⟨Bool.false_ne_true, cycle, nodes, hClosed, hNodes, ?_⟩
      rw [cycleMessage_eq hNodes]

theorem isOk_validateNoCycles :
    (validateNoCycles c).isOk ↔ ∀ n, ¬ TransGen (DependsOn c) n n := by
  rcases validateNoCycles_cases c with ⟨hOk, hAcyclic⟩ | ⟨hError, cycle, nodes, hClosed, -⟩
  · exact iff_of_true hOk hAcyclic
  · obtain ⟨n, -, hCycle⟩ := hClosed.transGen
    exact iff_of_false hError fun hAcyclic => hAcyclic n hCycle

/-- **Cycle detection is sound and complete.**  The check ends; a config is accepted
exactly when no node depends on itself along any number of edges; and the text of an
error is the quoted names of the nodes of a closed walk along the edges, in its order
and joined by arrows. -/
theorem validateNoCycles_decides (c : GraphConfig) :
    NoCyclesReturns c (validateNoCycles c) ∧
      ((validateNoCycles c).isOk ↔ ∀ n, ¬ TransGen (DependsOn c) n n) ∧
      (¬ (validateNoCycles c).isOk → ∃ (cycle : List Nat) (nodes : List NodeDef),
        Walk.Closed (DependsOn c) cycle ∧
        cycle.map (c.nodes[·]?) = nodes.map some ∧
        validateNoCycles c = invalidArgumentError ("cycle detected: " ++
          " → ".intercalate (nodes.map fun node => "'" ++ node.name ++ "'"))) := by
  have hReturns : NoCyclesReturns c (validateNoCycles c) :=
    ⟨_, (findCycle_config c).searches, rfl⟩
  refine ⟨hReturns, isOk_validateNoCycles, ?_⟩
  intro hError
  rcases validateNoCycles_cases c with ⟨hOk, -⟩ | ⟨-, hReported⟩
  · exact absurd hOk hError
  · exact hReported

end GraphRuntime.Config
