import GraphRuntime.Scheduler.Machine

/-!
# What `RunNode` does with the packets it pops

`RunNode` takes one packet off each input queue before it looks at what it is
running.  A Process item hands the shards to `Process`; an open item calls
`Open` and returns, and the packets are gone.

`CallRun` is one call of `RunNode`, step by step, with whatever the other
threads do in between: the state before a step is any state at all.  `Phased`
is the invariant that carries the results: up to the call into the node the
shards are those of the queues looked at so far, and afterwards there has been
one call of `Process`, with all of them, or none at all.
-/

namespace GraphRuntime.Scheduler

open GraphRuntime.Stream Interleaving

variable {g : Graph}

/-! ## One call -/

/-- One step of a call: the state and the locals before it, and the state it
leaves. -/
structure CallStep where
  before : Shared
  invocation : Invocation
  pc : RunPc
  after : Shared

/-- Where a call for an item begins. -/
def startCall (q : QueueId) (item : Item) : Invocation :=
  { queue := q, node := item.node, isOpen := item.isOpenNode }

/-- The steps of a call for `item`, up to where it stands. -/
inductive CallRun (g : Graph) (q : QueueId) (item : Item) :
    List CallStep → Invocation → RunPc → Prop
  | start : CallRun g q item [] (startCall q item) (.popInputs (g.inputPorts item.node))
  | step {steps : List CallStep} {r r' : Invocation} {pc pc' : RunPc} {s : Shared}
      {x : Choice} {t : Turn (Invocation × RunPc)} (hRun : CallRun g q item steps r pc)
      (hTurn : runStep g s r x pc = some t) (hNext : t.next = some (r', pc')) :
      CallRun g q item (steps ++ [⟨s, r, pc, t.state⟩]) r' pc'

/-- The queue a step pops, with its port. -/
def CallStep.popping (c : CallStep) : Option (String × List Packet) :=
  match c.pc with
  | .popInputs ((port, t) :: _) => some (port, (c.before.stream t).queue)
  | _ => none

/-- The packet a step takes off its queue. -/
def CallStep.popped (c : CallStep) : Option (String × Packet) :=
  c.popping.bind fun p => p.2.head?.map fun packet => (p.1, packet)

/-- The shards a step hands to `Process`. -/
def CallStep.process (c : CallStep) : Option (List InputShard) :=
  match c.pc with
  | .prepareOutputs [] => some c.invocation.inputs
  | _ => none

/-- The calls of `Process`. -/
def processCalls (steps : List CallStep) : List (List InputShard) :=
  steps.filterMap CallStep.process

/-- The node has been called, or is about to be opened. -/
def Called (steps : List CallStep) (pc : RunPc) : Prop :=
  pc = .callOpen ∨ processCalls steps ≠ []

/-- The shard of the port holds the packet. -/
def Holds (inputs : List InputShard) (port : String) (packet : Packet) : Bool :=
  inputs.any fun shard => decide (shard.port = port) && decide (shard.packet = some packet)

/-- **No input is lost**: each packet popped is in the shard of its port in
exactly one call of `Process`, and an open item leaves the queues alone. -/
structure LosesNothing (item : Item) (steps : List CallStep) : Prop where
  delivered : ∀ c ∈ steps, ∀ port packet, c.popped = some (port, packet) →
    (processCalls steps).countP (Holds · port packet) = 1
  frame : item.isOpenNode = true → ∀ c ∈ steps, c.after.net.streams = c.before.net.streams

/-- An open item finds its queues empty; a Process item finds no packet without
a payload. -/
def Receivable (item : Item) (steps : List CallStep) : Prop :=
  ∀ c ∈ steps, ∀ port queue, c.popping = some (port, queue) →
    if item.isOpenNode then queue = []
    else ∀ packet, queue.head? = some packet → packet.isEmpty = false

/-! ## The phases of a call -/

/-- The shard a step makes of what it pops. -/
def CallStep.shard (c : CallStep) : Option InputShard :=
  match c.pc with
  | .popInputs ((port, t) :: _) =>
      some
        { port
          packet := if (c.before.stream t).popQueueHead.1.isEmpty then none
            else some (c.before.stream t).popQueueHead.1
          done := (c.before.stream t).popQueueHead.2.1 }
  | _ => none

/-- Where a call is once the queues have been popped. -/
inductive CallPhase
  | popping
  | opening
  | preparing
  | called
deriving DecidableEq

def RunPc.phase : RunPc → CallPhase
  | .popInputs _ => .popping
  | .callOpen => .opening
  | .prepareOutputs _ => .preparing
  | _ => .called

/-- What holds along a call. -/
structure Phased (item : Item) (steps : List CallStep) (r : Invocation) (pc : RunPc) :
    Prop where
  isOpen : r.isOpen = item.isOpenNode
  inputs : r.inputs = steps.filterMap CallStep.shard
  opening : pc.phase = .opening → item.isOpenNode = true
  past : pc.phase = .preparing ∨ pc.phase = .called → item.isOpenNode = false
  calls : processCalls steps = if pc.phase = .called then [r.inputs] else []

variable {q : QueueId} {item : Item} {steps : List CallStep} {r r' : Invocation}
  {pc pc' : RunPc} {s : Shared} {x : Choice} {t : Turn (Invocation × RunPc)}

/-- Past the call into the node nothing is popped and the shards stay. -/
theorem runStep_called (hCalled : pc.phase = .called) (hTurn : runStep g s r x pc = some t)
    (hNext : t.next = some (r', pc')) :
    pc'.phase = .called ∧ r'.inputs = r.inputs ∧ r'.isOpen = r.isOpen := by
  revert hTurn hCalled
  fun_cases runStep g s r x pc
  all_goals
    intro hCalled hTurn
    first
    | (simp [RunPc.phase] at hCalled; done)
    | (simp at hTurn; done)
    | (cases hTurn
       cases hNext
       try unfold afterProcess
       try unfold afterAct
       repeat' split
       all_goals exact ⟨rfl, rfl, rfl⟩)

/-- **Step lemma.** -/
theorem Phased.step (hPhased : Phased item steps r pc) (hTurn : runStep g s r x pc = some t)
    (hNext : t.next = some (r', pc')) :
    Phased item (steps ++ [⟨s, r, pc, t.state⟩]) r' pc' := by
  have hShards : (steps ++ [(⟨s, r, pc, t.state⟩ : CallStep)]).filterMap CallStep.shard =
      r.inputs ++ (CallStep.shard ⟨s, r, pc, t.state⟩).toList := by
    rw [List.filterMap_append, hPhased.inputs]
    cases hShard : CallStep.shard ⟨s, r, pc, t.state⟩ <;> simp [hShard]
  have hCalls : processCalls (steps ++ [⟨s, r, pc, t.state⟩]) =
      (if pc.phase = .called then [r.inputs] else []) ++
        (CallStep.process ⟨s, r, pc, t.state⟩).toList := by
    rw [processCalls, List.filterMap_append, ← processCalls, hPhased.calls]
    cases hProcess : CallStep.process ⟨s, r, pc, t.state⟩ <;> simp [hProcess]
  cases pc with
  | popInputs ports =>
      cases ports with
      | nil =>
          simp only [runStep] at hTurn
          split at hTurn
          · rename_i hOpen
            cases hTurn
            cases hNext
            exact ⟨hPhased.isOpen, by simpa [CallStep.shard] using hShards.symm,
              fun _ => hPhased.isOpen ▸ hOpen, by simp [RunPc.phase],
              by simpa [RunPc.phase, CallStep.process] using hCalls⟩
          · rename_i hNotOpen
            cases hTurn
            cases hNext
            exact ⟨hPhased.isOpen, by simpa [CallStep.shard] using hShards.symm,
              by simp [RunPc.phase],
              fun _ => hPhased.isOpen ▸ Bool.eq_false_iff.mpr hNotOpen,
              by simpa [RunPc.phase, CallStep.process] using hCalls⟩
      | cons port rest =>
          cases hTurn
          cases hNext
          exact ⟨hPhased.isOpen, by simpa [CallStep.shard] using hShards.symm,
            by simp [RunPc.phase], by simp [RunPc.phase],
            by simpa [RunPc.phase, CallStep.process] using hCalls⟩
  | callOpen =>
      simp only [runStep] at hTurn
      split at hTurn
      · exact absurd hTurn (by simp)
      · cases hTurn
        exact absurd hNext (by simp)
  | prepareOutputs rest =>
      have hProcess := hPhased.past (Or.inl rfl)
      cases rest with
      | nil =>
          cases hTurn
          cases hNext
          exact ⟨hPhased.isOpen, by simpa [CallStep.shard] using hShards.symm,
            by simp [RunPc.phase], fun _ => hProcess,
            by simpa [RunPc.phase, CallStep.process] using hCalls⟩
      | cons o rest =>
          cases hTurn
          cases hNext
          have hSame : (r.prepare s.net o).inputs = r.inputs := rfl
          exact ⟨hPhased.isOpen, hSame.trans (by simpa [CallStep.shard] using hShards.symm),
            by simp [RunPc.phase], fun _ => hProcess,
            by simpa [RunPc.phase, CallStep.process] using hCalls⟩
  | _ =>
      obtain ⟨hPhase, hInputs, hOpen⟩ := runStep_called rfl hTurn hNext
      exact ⟨hOpen.trans hPhased.isOpen,
        hInputs.trans (by simpa [CallStep.shard] using hShards.symm),
        by simp [hPhase], fun _ => hPhased.past (Or.inr rfl),
        hCalls.trans (by rw [hPhase, hInputs]; rfl)⟩

/-- **Run lemma.** -/
theorem CallRun.phased (hRun : CallRun g q item steps r pc) : Phased item steps r pc := by
  induction hRun with
  | start => exact ⟨rfl, rfl, by simp [RunPc.phase], by simp [RunPc.phase], rfl⟩
  | step _ hTurn hNext ih => exact ih.step hTurn hNext

/-! ## What is delivered -/

/-- A step of a call is one of `RunNode`, and its locals are those of the call. -/
theorem CallRun.mem (hRun : CallRun g q item steps r pc) {c : CallStep} (hMem : c ∈ steps) :
    (∃ before, Phased item before c.invocation c.pc) ∧
      ∃ x t, runStep g c.before c.invocation x c.pc = some t ∧ t.state = c.after ∧
        ∃ next, t.next = some next := by
  induction hRun with
  | start => exact absurd hMem (by simp)
  | step hRun hTurn hNext ih =>
      rcases List.mem_append.mp hMem with hBefore | hLast
      · exact ih hBefore
      · obtain rfl := List.mem_singleton.mp hLast
        exact ⟨⟨_, hRun.phased⟩, _, _, hTurn, rfl, _, hNext⟩

/-- What a popping step leaves of the streams. -/
theorem after_of_popping {c : CallStep} {x : Choice} {t : Turn (Invocation × RunPc)}
    (hTurn : runStep g c.before c.invocation x c.pc = some t) (hAfter : t.state = c.after)
    {port : String} {queue : List Packet} (hPopping : c.popping = some (port, queue)) :
    ∃ u, queue = (c.before.stream u).queue ∧
      c.after.net.streams = Function.update c.before.net.streams u
        (c.before.stream u).popQueueHead.2.2 := by
  obtain ⟨before, invocation, pc, after⟩ := c
  simp only [CallStep.popping] at hPopping
  split at hPopping
  · rename_i u rest
    cases hPopping
    cases hTurn
    exact ⟨u, rfl, (congrArg (fun s => s.net.streams) hAfter).symm⟩
  · exact absurd hPopping (by simp)

theorem streams_of_empty {m : InputStreamManager} (hEmpty : m.queue = []) :
    m.popQueueHead.2.2 = m := by
  simp [InputStreamManager.popQueueHead, hEmpty]

theorem streams_of_nonempty {m : InputStreamManager} (hQueue : m.queue ≠ []) :
    m.popQueueHead.2.2 ≠ m := by
  intro hEq
  have hLength := congrArg (fun m => m.queue.length) hEq
  cases hCases : m.queue with
  | nil => exact hQueue hCases
  | cons p rest => simp [InputStreamManager.popQueueHead, hCases] at hLength

/-- The shard of a popped packet, if it has a payload. -/
theorem shard_of_popped {c : CallStep} {port : String} {packet : Packet}
    (hPopped : c.popped = some (port, packet)) :
    ∃ done, c.shard =
      some { port, packet := if packet.isEmpty then none else some packet, done } := by
  obtain ⟨before, invocation, pc, after⟩ := c
  simp only [CallStep.popped, CallStep.popping] at hPopped
  split at hPopped
  · rename_i u rest
    simp only [Option.bind_some, Option.map_eq_some_iff] at hPopped
    obtain ⟨packet', hHead, hEq⟩ := hPopped
    cases hEq
    refine ⟨(before.stream u).popQueueHead.2.1, ?_⟩
    cases hQueue : (before.stream u).queue with
    | nil => simp [hQueue] at hHead
    | cons p rest =>
        obtain rfl : p = packet := by simpa [hQueue] using hHead
        simp [CallStep.shard, InputStreamManager.popQueueHead, hQueue]
  · exact absurd hPopped (by simp)

/-- No shard holds a packet without a payload. -/
theorem not_holds_empty {packet : Packet} (hEmpty : packet.isEmpty = true) (port : String)
    (steps : List CallStep) : Holds (steps.filterMap CallStep.shard) port packet = false := by
  rw [Holds, List.any_eq_false]
  intro shard hMem
  obtain ⟨c, -, hShard⟩ := List.mem_filterMap.mp hMem
  obtain ⟨before, invocation, pc, after⟩ := c
  simp only [CallStep.shard] at hShard
  split at hShard
  · cases hShard
    simp only [Bool.and_eq_true, decide_eq_true_eq, not_and]
    intro _ hPacket
    split at hPacket
    · exact absurd hPacket (by simp)
    · rename_i hNonempty
      exact hNonempty (Option.some.inj hPacket ▸ hEmpty)
  · exact absurd hShard (by simp)

/-- A call for a Process item whose node has been called. -/
theorem processCalls_of_process (hRun : CallRun g q item steps r pc)
    (hCalled : Called steps pc) (hProcess : item.isOpenNode = false) :
    processCalls steps = [steps.filterMap CallStep.shard] := by
  have hPhased := hRun.phased
  have hPhase : pc.phase = .called := by
    by_contra hNot
    have hNone := hPhased.calls
    rw [if_neg hNot] at hNone
    refine hCalled.elim (fun hOpening => ?_) (absurd hNone)
    have := hPhased.opening (by rw [hOpening]; rfl)
    exact Bool.false_ne_true (hProcess.symm.trans this)
  rw [hPhased.calls, if_pos hPhase, hPhased.inputs]

/-- A Process item delivers what has a payload. -/
theorem losesNothing_process (hRun : CallRun g q item steps r pc) (hCalled : Called steps pc)
    (hProcess : item.isOpenNode = false) :
    LosesNothing item steps ↔ Receivable item steps := by
  have hCalls := processCalls_of_process hRun hCalled hProcess
  constructor
  · intro hLoses c hMem port queue hPopping
    rw [if_neg (by simp [hProcess])]
    intro packet hHead
    by_contra hEmpty
    have hPopped : c.popped = some (port, packet) := by simp [CallStep.popped, hPopping, hHead]
    have hOnce := hLoses.delivered c hMem port packet hPopped
    rw [hCalls, List.countP_singleton,
      not_holds_empty (by simpa using hEmpty) port steps] at hOnce
    exact absurd hOnce (by simp)
  · intro hReceivable
    refine ⟨?_, fun hOpen => absurd (hProcess.symm.trans hOpen) Bool.false_ne_true⟩
    intro c hMem port packet hPopped
    obtain ⟨queue, hPopping, hHead⟩ : ∃ queue, c.popping = some (port, queue) ∧
        queue.head? = some packet := by
      simp only [CallStep.popped, Option.bind_eq_some_iff, Option.map_eq_some_iff] at hPopped
      obtain ⟨⟨port', queue⟩, hPopping, packet', hHead, hEq⟩ := hPopped
      cases hEq
      exact ⟨queue, hPopping, hHead⟩
    have hPayload := hReceivable c hMem port queue hPopping
    rw [if_neg (by simp [hProcess])] at hPayload
    obtain ⟨done, hShard⟩ := shard_of_popped hPopped
    rw [hPayload packet hHead] at hShard
    have hHolds : Holds (steps.filterMap CallStep.shard) port packet = true := by
      rw [Holds, List.any_eq_true]
      exact ⟨_, List.mem_filterMap.mpr ⟨c, hMem, hShard⟩, by simp⟩
    rw [hCalls, List.countP_singleton, hHolds]
    rfl

/-- Apart from popping, an open item's call changes nothing. -/
theorem streams_of_opening {c : CallStep} {before : List CallStep}
    (hOpen : item.isOpenNode = true) (hPhased : Phased item before c.invocation c.pc)
    (hTurn : runStep g c.before c.invocation x c.pc = some t) (hAfter : t.state = c.after)
    {next : Invocation × RunPc} (hNext : t.next = some next) (hPopping : c.popping = none) :
    c.after.net.streams = c.before.net.streams := by
  obtain ⟨s, r, pc, s'⟩ := c
  have hNotPast : ¬ (pc.phase = .preparing ∨ pc.phase = .called) := fun h =>
    Bool.false_ne_true ((hPhased.past h).symm.trans hOpen)
  cases pc with
  | popInputs ports =>
      cases ports with
      | nil =>
          simp only [runStep] at hTurn
          rw [if_pos (hPhased.isOpen.trans hOpen)] at hTurn
          cases hTurn
          exact (congrArg (fun s => s.net.streams) hAfter).symm
      | cons port rest => exact absurd hPopping (by simp [CallStep.popping])
  | callOpen =>
      simp only [runStep] at hTurn
      split at hTurn
      · exact absurd hTurn (by simp)
      · cases hTurn
        exact absurd hNext (by simp)
  | prepareOutputs rest => exact absurd (Or.inl rfl) hNotPast
  | _ => exact absurd (Or.inr rfl) hNotPast

/-- An open item loses whatever it finds. -/
theorem losesNothing_open (hRun : CallRun g q item steps r pc)
    (hOpen : item.isOpenNode = true) : LosesNothing item steps ↔ Receivable item steps := by
  constructor
  · intro hLoses c hMem port queue hPopping
    rw [if_pos hOpen]
    obtain ⟨x, t, hTurn, hAfter, -⟩ := (hRun.mem hMem).2
    obtain ⟨u, rfl, hStreams⟩ := after_of_popping hTurn hAfter hPopping
    by_contra hQueue
    have hSame := congrFun (hStreams.symm.trans (hLoses.frame hOpen c hMem)) u
    rw [Function.update_self] at hSame
    exact streams_of_nonempty hQueue hSame
  · intro hReceivable
    have hNothing : ∀ c ∈ steps, ∀ port queue, c.popping = some (port, queue) → queue = [] := by
      intro c hMem port queue hPopping
      have := hReceivable c hMem port queue hPopping
      rwa [if_pos hOpen] at this
    constructor
    · intro c hMem port packet hPopped
      simp only [CallStep.popped, Option.bind_eq_some_iff, Option.map_eq_some_iff] at hPopped
      obtain ⟨⟨port', queue⟩, hPopping, packet', hHead, -⟩ := hPopped
      rw [hNothing c hMem port' queue hPopping] at hHead
      exact absurd hHead (by simp)
    · intro _ c hMem
      obtain ⟨⟨before, hPhased⟩, x, t, hTurn, hAfter, next, hNext⟩ := hRun.mem hMem
      cases hPopping : c.popping with
      | some p =>
          obtain ⟨u, hQueue, hStreams⟩ := after_of_popping hTurn hAfter hPopping
          have hEmpty := hQueue.symm.trans (hNothing c hMem p.1 p.2 hPopping)
          rw [hStreams, streams_of_empty hEmpty]
          exact Function.update_eq_self u _
      | none => exact streams_of_opening hOpen hPhased hTurn hAfter hNext hPopping

/-- **When `RunNode` loses no input.**  In any call for any item that has come to
call the node: exactly if an open item finds every queue empty, and a Process
item no packet without a payload. -/
theorem losesNothing_iff (g : Graph) (q : QueueId) (item : Item) (steps : List CallStep)
    (r : Invocation) (pc : RunPc) (hRun : CallRun g q item steps r pc)
    (hCalled : Called steps pc) : LosesNothing item steps ↔ Receivable item steps := by
  cases hOpen : item.isOpenNode with
  | true => exact losesNothing_open hRun hOpen
  | false => exact losesNothing_process hRun hCalled hOpen

/-- One node, with a packet waiting at its port. -/
private abbrev loneNode : Graph := .chain 1 id id_lt_one

private def packetWaits : Shared :=
  (chainInitial 1 false).setStreams fun _ => { queue := [⟨some 7, Timestamp.min⟩] }

/-- A Process item hands the packet to `Process`. -/
theorem losesNothing_packetWaits :
    ∃ steps r pc, CallRun loneNode 0 (loneNode.item 0) steps r pc ∧
      processCalls steps = [[⟨"in", some ⟨some 7, Timestamp.min⟩, false⟩]] ∧
      LosesNothing (loneNode.item 0) steps := by
  have hPop : CallRun loneNode 0 (loneNode.item 0) _ _ (.popInputs []) :=
    CallRun.start.step (s := packetWaits) (x := .step) rfl rfl
  have hPrepare : CallRun loneNode 0 (loneNode.item 0) _ _ (.prepareOutputs []) :=
    (hPop.step (s := packetWaits) (x := .step) rfl rfl).step (s := packetWaits)
      (x := .step) rfl rfl
  have hRun := hPrepare.step (s := packetWaits) (x := .step) (t := _) rfl rfl
  refine ⟨_, _, _, hRun, rfl, ?_⟩
  refine (losesNothing_iff _ _ _ _ _ _ hRun (Or.inr (List.cons_ne_nil _ _))).mpr ?_
  intro c hMem port queue hPopping
  simp only [List.nil_append, List.mem_append, List.mem_singleton] at hMem
  rcases hMem with ((rfl | rfl) | rfl) | rfl
  · cases hPopping
    intro packet hHead
    obtain rfl := Option.some.inj hHead
    rfl
  all_goals exact absurd hPopping (by simp [CallStep.popping])

/-- **An open item eats a packet.**  The same packet is popped for a call of
`Open`, and no `Process` sees it. -/
theorem open_item_loses :
    ∃ steps r, CallRun loneNode 0 { node := 0, isOpenNode := true } steps r .callOpen ∧
      processCalls steps = [] ∧
      ¬ LosesNothing { node := 0, isOpenNode := true } steps := by
  have hPop : CallRun loneNode 0 { node := 0, isOpenNode := true } _ _ (.popInputs []) :=
    CallRun.start.step (s := packetWaits) (x := .step) rfl rfl
  have hRun := hPop.step (s := packetWaits) (x := .step) (t := _) rfl rfl
  refine ⟨_, _, hRun, rfl, fun hLoses => ?_⟩
  have hOnce := hLoses.delivered _ (by simp; exact Or.inl rfl) "in" ⟨some 7, Timestamp.min⟩ rfl
  exact absurd hOnce (by decide)

end GraphRuntime.Scheduler
