import GraphRuntime.Lib.Tracing
import GraphRuntime.Scheduler.StampedStreams

/-!
# A stream is a channel

Between the node that writes an output manager and a consumer behind one of its mirrors lie
the output shards, `PostProcess`, the propagation from mirror to mirror and the queue of the
input manager, each step of them interleaved with those of all other threads.  With
`MaxInFlight` 1 this is a channel: what the node puts into its shards comes out at
`PopQueueHead` in the same order, nothing twice and nothing left out, as long as the manager
is open.

* A run is traced with what is put in and what is taken (`Transfer`).
* `Carries` is the equation between the two; `Quiet` are the frames that bring nothing to
  the stream, and only `Process` of the node makes one that does (`quiet_of_exec`).
* `Course` follows what one call has put in until it is in the queue; with `channel`, one
  call at a time does so.
* `channel_fifo` is the result.
-/

namespace GraphRuntime.Scheduler

open GraphRuntime.Stream Interleaving

variable {g : Graph} {outputs : OutId → OutputStreamManager}

/-- An output manager of a node as `Initialize` makes it, and one of the input managers behind
its mirrors. -/
structure Channel (g : Graph) (outputs : OutId → OutputStreamManager) where
  node : NodeId
  manager : OutId
  stream : StreamId
  maxInFlight : g.maxInFlight node ≤ 1
  outputs_nodup : (g.outputs node).Nodup
  owned : manager ∈ g.outputs node
  owner : ∀ n, manager ∈ g.outputs n → n = node
  /-- The manager is no graph input. -/
  inner : ∀ name, g.graphInputs.lookup name ≠ some manager
  consumer : stream ∈ consumers g outputs manager
  consumers_nodup : (consumers g outputs manager).Nodup
  alone : ∀ o, stream ∈ consumers g outputs o → o = manager
  port_eq : ∀ o ∈ g.outputs node, shardPort outputs o = shardPort outputs manager → o = manager

/-- The port under which the node addresses the shard of the manager. -/
def Channel.port (ch : Channel g outputs) : String := shardPort outputs ch.manager

/-! ## What is put in and what is taken out -/

/-- A call of `Process` leaves packets in its output shards; `AddPacketToInputStream` injects
one; `RunNode` takes the head of a stream. -/
inductive Transfer
  | put (e : Emission)
  | injected (o : OutId) (packet : Packet)
  | taken (t : StreamId) (packet : Packet)

/-- `PopQueueHead` of a stream that holds a packet. -/
def Frame.takes (s : Shared) : Frame → Option Transfer
  | .run _ (.popInputs ((_, t) :: _)) => (s.stream t).queue.head?.map (.taken t)
  | _ => none

/-- The injection of a packet for a graph input. -/
def Frame.injects : Frame → Option Transfer
  | .api (.injectPacket o packet) => some (.injected o packet)
  | _ => none

def transfer (s : Shared) (f : Frame) (x : Choice) : Option Transfer :=
  ((f.emission x).map .put).or (f.injects.or (f.takes s))

/-- What a node puts in at manager `o`, behind `port`. -/
def Transfer.input (g : Graph) (o : OutId) (port : String) : Transfer → List Packet
  | .put e => e.packets g o port
  | _ => []

/-- What a transfer takes out of stream `t`. -/
def Transfer.output (t : StreamId) : Transfer → List Packet
  | .taken t' packet => if t' = t then [packet] else []
  | _ => []

/-- The packets that have been taken out of stream `t`. -/
def takenFrom (t : StreamId) (history : List Transfer) : List Packet :=
  history.flatMap (Transfer.output t)

/-- The packets the node has put in. -/
def Channel.input (ch : Channel g outputs) (history : List Transfer) : List Packet :=
  history.flatMap (Transfer.input g ch.manager ch.port)

/-- The packets that have been taken out. -/
def Channel.output (ch : Channel g outputs) (history : List Transfer) : List Packet :=
  takenFrom ch.stream history

/-- The machine with its transfers. -/
abbrev traced (g : Graph) : Machine (Recorded Shared Transfer) Frame Choice Call :=
  (machine g).tracing transfer

variable {ch : Channel g outputs} {s s' : Recorded Shared Transfer} {f : Frame}
  {fs A B : List Frame} {x : Choice} {way way' : List Packet}

/-- What has been put in is what has been taken out, what is queued and what is on its way. -/
def Carries (ch : Channel g outputs) (s : Recorded Shared Transfer) (way : List Packet) : Prop :=
  ch.input s.history = ch.output s.history ++ (s.state.stream ch.stream).queue ++ way

/-- No input manager has been closed. -/
def Receptive (s : Shared) : Prop := ∀ t, (s.stream t).closed = false

theorem Receptive.exec {s s' : Shared} (hReceptive : Receptive s)
    (hStep : Scheduler.exec g s f x = some (s', fs)) : Receptive s' := by
  intro t
  have hChange := exec_stream t hStep
  generalize s'.stream t = m at hChange ⊢
  cases hChange with
  | same => exact hReceptive t
  | popped =>
      rw [InputStreamManager.popQueueHead_closed]
      exact hReceptive t
  | added p =>
      rw [(InputStreamManager.addPackets_of_open (hReceptive t) p.packets).1]
      exact hReceptive t
  | bounded p =>
      show ((s.stream t).setNextTimestampBound p.nextBound).1.closed = false
      unfold InputStreamManager.setNextTimestampBound
      split <;> exact hReceptive t

/-- What a step adds to either side of the equation. -/
theorem Carries.of_step {put : List Packet} (hCarries : Carries ch s way)
    (hInput : ch.input s'.history = ch.input s.history ++ put)
    (hOutput : ch.output s'.history ++ (s'.state.stream ch.stream).queue ++ way' =
      ch.output s.history ++ (s.state.stream ch.stream).queue ++ way ++ put) :
    Carries ch s' way' := by
  unfold Carries at hCarries ⊢
  rw [hInput, hOutput, hCarries]

theorem input_of_exec (hStep : (traced g).exec s f x = some (s', fs)) :
    ch.input s'.history = ch.input s.history ++
      (f.emission x).toList.flatMap (Emission.packets g ch.manager ch.port) := by
  obtain ⟨-, hHistory⟩ := Machine.tracing_exec hStep
  rw [hHistory, Channel.input, List.flatMap_append]
  congr 1
  unfold transfer
  cases f.emission x with
  | some e => simp [Transfer.input]
  | none =>
      unfold Frame.injects
      split
      · rfl
      · unfold Frame.takes
        split
        · cases (s.state.stream _).queue with
          | nil => rfl
          | cons packet rest => rfl
        · rfl

/-- What a step adds to what has been taken out. -/
theorem takenFrom_of_exec (t : StreamId) (hStep : (traced g).exec s f x = some (s', fs)) :
    takenFrom t s'.history =
      takenFrom t s.history ++ (f.takes s.state).toList.flatMap (Transfer.output t) := by
  obtain ⟨-, hHistory⟩ := Machine.tracing_exec hStep
  rw [hHistory, takenFrom, List.flatMap_append]
  congr 1
  unfold transfer
  cases hEmission : f.emission x with
  | none =>
      unfold Frame.injects
      split
      · rfl
      · rfl
  | some e =>
      unfold Frame.emission at hEmission
      split at hEmission
      · rfl
      · cases hEmission

theorem output_of_takes (hStep : (traced g).exec s f x = some (s', fs)) :
    ch.output s'.history =
      ch.output s.history ++ (f.takes s.state).toList.flatMap (Transfer.output ch.stream) :=
  takenFrom_of_exec ch.stream hStep

/-- **What leaves the queue has been taken out.** -/
theorem takenFrom_append_queue (t : StreamId) (hStep : (traced g).exec s f x = some (s', fs))
    (hAdd : ∀ p, f = .propagate p → target g p = some t → p.packets = []) :
    takenFrom t s'.history ++ (s'.state.stream t).queue =
      takenFrom t s.history ++ (s.state.stream t).queue := by
  obtain ⟨hExec, -⟩ := Machine.tracing_exec hStep
  rw [takenFrom_of_exec t hStep, List.append_assoc]
  congr 1
  unfold Frame.takes
  split
  · rename_i r port u rest
    have hStreams : s'.state.stream =
        Function.update s.state.stream u (s.state.stream u).popQueueHead.2.2 :=
      congrArg (fun next => next.1.stream) (Option.some.inj hExec).symm
    rw [hStreams]
    by_cases hEq : u = t
    · subst hEq
      rw [Function.update_self, InputStreamManager.popQueueHead_queue]
      cases (s.state.stream u).queue with
      | nil => rfl
      | cons packet queue => simp [Transfer.output]
    · rw [Function.update_of_ne (Ne.symm hEq)]
      cases (s.state.stream u).queue with
      | nil => rfl
      | cons packet queue => simp [Transfer.output, hEq]
  · rename_i hOther
    have hChange := exec_stream t hExec
    generalize s'.state.stream t = m at hChange ⊢
    cases hChange with
    | same => rfl
    | popped r port rest => exact absurd rfl (hOther r port t rest)
    | added p _ hTarget hPackets => exact absurd (hAdd p rfl hTarget) hPackets
    | bounded p => exact InputStreamManager.setNextTimestampBound_queue ..

/-! ## Frames that bring nothing to the stream -/

/-- A call of the node with an empty shard for the manager, a propagation without packets or
to other streams. -/
def Frame.Quiet (ch : Channel g outputs) : Frame → Prop
  | .run r pc => (∀ o ∈ pc.outputsLeft, o ∈ g.outputs r.node) ∧
      (r.node = ch.node → (r.outputs ch.port).outputQueue = [])
  | .propagate p | .propagateBound p => ch.stream ∈ p.targets g.routes → p.packets = []
  | .api (.injectPacket o _) => o ≠ ch.manager
  | _ => True

theorem runStep_outputQueue {s : Shared} {r r' : Invocation} {pc pc' : RunPc} {port : String}
    {t : Turn (Invocation × RunPc)} (hTurn : runStep g s r x pc = some t)
    (hNext : t.next = some (r', pc')) (hProcess : pc ≠ .inProcess)
    (hEmpty : (r.outputs port).outputQueue = []) : (r'.outputs port).outputQueue = [] := by
  have hUpdate : ∀ {port' : String} {shard : OutputStreamShard}, shard.outputQueue = [] →
      (Function.update r.outputs port' shard port).outputQueue = [] := by
    intro port' shard hShard
    rw [Function.update_apply]
    split
    · exact hShard
    · exact hEmpty
  revert hTurn
  fun_cases runStep g s r x pc
  case case9 => exact absurd rfl hProcess
  all_goals intro hTurn; cases hTurn
  all_goals cases hNext
  all_goals first
    | exact hEmpty
    | exact hUpdate rfl

/-- A propagation that a quiet frame sends. -/
theorem quiet_of_sent {s : Shared} {p : Propagation} (hWired : WiredAs outputs s)
    (hQuiet : f.Quiet ch) (hSent : Sent g s p f) (hTarget : ch.stream ∈ p.targets g.routes) :
    p.packets = [] := by
  have hManager : ∀ {o : OutId}, p.mirrors = (s.net.outputs o).mirrors → o = ch.manager := by
    intro o hMirrors
    refine ch.alone o ?_
    rwa [← hWired.targets o, ← hMirrors]
  cases hSent with
  | onward p₀ hMirrors hPackets _ hFrame =>
      have hBefore : p₀.packets = [] := by
        have hIn : ch.stream ∈ p₀.targets g.routes := List.filterMap_subset _ hMirrors hTarget
        rcases hFrame with rfl | rfl
        · exact hQuiet hIn
        · exact hQuiet hIn
      rw [hBefore] at hPackets
      exact List.subset_nil.mp hPackets
  | shard r pc o hLeft hMirrors hPackets =>
      obtain rfl := hManager hMirrors
      rw [hPackets, hWired.port]
      exact hQuiet.2 (ch.owner _ (hQuiet.1 _ hLeft))
  | closed o _ hPackets => exact hPackets
  | injected o packet hMirrors => exact absurd (hManager hMirrors) hQuiet

/-- **A quiet frame leaves quiet frames**, unless it is the node that writes its shards. -/
theorem quiet_of_exec {s s' : Shared} (hWired : WiredAs outputs s) (hQuiet : f.Quiet ch)
    (hProcess : ∀ r, f = .run r .inProcess → r.node ≠ ch.node)
    (hStep : exec g s f x = some (s', fs)) : ∀ f' ∈ fs, f'.Quiet ch := by
  intro f' hMem
  cases f' with
  | run r' pc' =>
      rcases run_of_exec hStep hMem with
        ⟨r, pc, t, rfl, hTurn, -, hNext⟩ | ⟨q, it, queue, rfl, -, -, rfl, rfl⟩
      · obtain ⟨-, hNode, -⟩ := runStep_next hTurn hNext
        constructor
        · intro o hLeft
          rcases runStep_outputsLeft hTurn hNext hLeft with hOld | hNew
          · exact hNode ▸ hQuiet.1 o hOld
          · exact hNew
        · intro hSame
          rw [hNode] at hSame
          refine runStep_outputQueue hTurn hNext ?_ (hQuiet.2 hSame)
          rintro rfl
          exact hProcess r rfl hSame
      · exact ⟨fun o hLeft => absurd hLeft List.not_mem_nil, fun _ => rfl⟩
  | propagate p => exact quiet_of_sent hWired hQuiet (exec_sent hStep (Or.inl hMem))
  | propagateBound p => exact quiet_of_sent hWired hQuiet (exec_sent hStep (Or.inr hMem))
  | api pc =>
      cases pc with
      | injectPacket o packet =>
          obtain ⟨name, hLookup⟩ := inject_of_exec hStep hMem
          rintro rfl
          exact ch.inner name hLookup
      | _ => trivial
  | _ => trivial

/-- **What keeps the equation**: a step that puts nothing in and brings nothing to the
stream. -/
theorem Carries.exec (hCarries : Carries ch s way)
    (hPut : ∀ e, f.emission x = some e → e.packets g ch.manager ch.port = [])
    (hAdd : ∀ p, f = .propagate p → target g p = some ch.stream → p.packets = [])
    (hStep : (traced g).exec s f x = some (s', fs)) : Carries ch s' way := by
  have hInput : ch.input s'.history = ch.input s.history ++ [] := by
    rw [input_of_exec hStep]
    congr 1
    cases hEmission : f.emission x with
    | none => rfl
    | some e => simp [hPut e hEmission]
  have hOutput : ch.output s'.history ++ (s'.state.stream ch.stream).queue =
      ch.output s.history ++ (s.state.stream ch.stream).queue :=
    takenFrom_append_queue _ hStep hAdd
  refine hCarries.of_step hInput ?_
  rw [hOutput, List.append_nil]

theorem Carries.call {r : Invocation} {pc : RunPc} (hCarries : Carries ch s way)
    (hProcess : pc = .inProcess → r.node ≠ ch.node)
    (hStep : (traced g).exec s (.run r pc) x = some (s', fs)) : Carries ch s' way := by
  refine hCarries.exec (fun e hEmission => ?_) (fun p hFrame => by cases hFrame) hStep
  cases pc with
  | inProcess =>
      have hOther : ch.manager ∉ g.outputs r.node := fun hOut => hProcess rfl (ch.owner _ hOut)
      cases x with
      | step => cases hEmission
      | returns status writes =>
          cases hEmission
          exact if_neg hOther
  | _ => cases hEmission

/-- **A quiet step keeps the equation.** -/
theorem Carries.quiet (hCarries : Carries ch s way) (hQuiet : f.Quiet ch)
    (hProcess : ∀ r, f = .run r .inProcess → r.node ≠ ch.node)
    (hStep : (traced g).exec s f x = some (s', fs)) : Carries ch s' way := by
  cases f with
  | run r pc => exact hCarries.call (fun hPc => hProcess r (hPc ▸ rfl)) hStep
  | propagate p =>
      refine hCarries.exec (fun e hEmission => by cases hEmission) (fun p' hFrame hTarget => ?_)
        hStep
      cases hFrame
      exact hQuiet (mem_targets_of_target hTarget)
  | _ =>
      exact hCarries.exec (fun e hEmission => by cases hEmission) (fun p hFrame => by cases hFrame)
        hStep

/-! ## One call at a time -/

/-- The frame has no part in the stream: it is quiet, and no call of the node before its
`DecrementPending`. -/
structure Frame.Apart (ch : Channel g outputs) (f : Frame) : Prop where
  quiet : f.Quiet ch
  idle : f.holdsPending ch.node = false

/-- What every configuration of a run meets. -/
structure Plumbed (ch : Channel g outputs) (s : Recorded Shared Transfer) (fs : List Frame) :
    Prop where
  placed : Placed g s.state fs
  limited : Limited g s.state fs ch.node 1
  wired : WiredAs outputs s.state
  receptive : Receptive s.state

/-- A worker that takes up the node finds no call of it before its `DecrementPending`. -/
theorem Plumbed.idle_of_takesUp (hPlumbed : Plumbed ch s (A ++ f :: B))
    (hTakes : TakesUp g s.state ch.node f) {h : Frame} (hMem : h ∈ A ++ B) :
    h.holdsPending ch.node = false := by
  obtain ⟨q, it, queue, rfl, hPop, hNode⟩ := hTakes
  obtain ⟨hItem, -⟩ := SchedulerQueue.tryPop_eq_some hPop
  obtain ⟨hIs, hQueue, -⟩ := hPlumbed.placed.item q it hItem
  have hBefore : h ∈ A ++ .runNextTask q :: B := mem_of_others hMem
  have hWaiting : 0 < waiting g s.state ch.node := by
    unfold waiting
    rw [← hNode, hQueue, ← hIs]
    exact List.count_pos_iff.mpr hItem
  have hNone : (A ++ .runNextTask q :: B).countP (Frame.inFlight ch.node) = 0 := by
    have hCovers := hPlumbed.limited.covers
    have hBounded := hPlumbed.limited.bounded
    unfold balance at hCovers
    omega
  have hNot := List.countP_eq_zero.mp hNone _ hBefore
  cases h with
  | run r pc =>
      have hOpen := (hPlumbed.placed.run r pc hBefore).2.1
      simpa [Frame.inFlight, Frame.holdsPending, hOpen] using hNot
  | _ => rfl

/-- What holds its count is one call or the next place of it. -/
theorem holds_of_exec {s s' : Shared} {n : NodeId} (hPlaced : Placed g s (A ++ f :: B))
    (hStep : exec g s f x = some (s', fs)) {f' : Frame} (hMem : f' ∈ fs)
    (hHolds : f'.holdsPending n = true) : f.holdsPending n = true ∨ TakesUp g s n f := by
  cases f' with
  | run r' pc' =>
      simp only [Frame.holdsPending, Bool.and_eq_true, decide_eq_true_eq] at hHolds
      obtain ⟨hNode', hPc'⟩ := hHolds
      rcases run_of_exec hStep hMem with
        ⟨r, pc, t, rfl, hTurn, -, hNext⟩ | ⟨q, it, queue, rfl, hPop, -, rfl, rfl⟩
      · obtain ⟨-, hNode, -⟩ := runStep_next hTurn hNext
        obtain ⟨-, hOpen, -, hPc⟩ := hPlaced.run r pc mem_running
        have hAny := runStep_holdsPending hOpen hPc.ne_callOpen hTurn
        rw [hNext, Option.any_some, hPc'] at hAny
        have hBefore : pc.holdsPending = true := (Bool.and_eq_true_iff.mp hAny.symm).1
        left
        simp [Frame.holdsPending, hBefore, ← hNode, hNode']
      · exact Or.inr ⟨q, it, queue, rfl, hPop, hNode'⟩
  | _ => exact absurd hHolds Bool.false_ne_true

/-- **What a frame apart leaves**: frames apart, unless a worker takes up the node. -/
theorem apart_of_exec (hPlumbed : Plumbed ch s (A ++ f :: B)) (hApart : f.Apart ch)
    (hStep : (traced g).exec s f x = some (s', fs)) :
    (∀ way, Carries ch s way → Carries ch s' way) ∧
      (TakesUp g s.state ch.node f ∨ ∀ f' ∈ fs, f'.Apart ch) := by
  obtain ⟨hExec, -⟩ := Machine.tracing_exec hStep
  have hProcess : ∀ r, f = .run r .inProcess → r.node ≠ ch.node := by
    rintro r rfl hNode
    have hIdle := hApart.idle
    simp [Frame.holdsPending, RunPc.holdsPending, hNode] at hIdle
  refine ⟨fun way hCarries => hCarries.quiet hApart.quiet hProcess hStep, ?_⟩
  by_cases hTakes : TakesUp g s.state ch.node f
  · exact Or.inl hTakes
  refine Or.inr fun f' hMem => ⟨quiet_of_exec hPlumbed.wired hApart.quiet hProcess hExec f' hMem, ?_⟩
  by_contra hHolds
  rw [Bool.not_eq_false] at hHolds
  rcases holds_of_exec hPlumbed.placed hExec hMem hHolds with hBefore | hTook
  · rw [hApart.idle] at hBefore
    exact Bool.false_ne_true hBefore
  · exact hTakes hTook

/-! ## The course of a call -/

/-- `PostProcess` has still to send for manager `o`. -/
def RunPc.Unsent (o : OutId) (pc : RunPc) : Prop :=
  ∃ rest status, pc = .postProcess rest status ∧ rest.Nodup ∧ o ∈ rest

/-- A call of the node before its `DecrementPending`: what its shard holds is on its way. -/
structure Calling (ch : Channel g outputs) (s : Recorded Shared Transfer) (r : Invocation)
    (pc : RunPc) : Prop where
  holds : (Frame.run r pc).holdsPending ch.node = true
  left : ∀ o ∈ pc.outputsLeft, o ∈ g.outputs r.node
  shard : (r.outputs ch.port).outputQueue = [] ∨ pc.Unsent ch.manager
  carries : Carries ch s (r.outputs ch.port).outputQueue

/-- A propagation: what it carries is on its way until it has visited the stream. -/
structure Passing (ch : Channel g outputs) (s : Recorded Shared Transfer) (p : Propagation)
    (left : List StreamId) : Prop where
  nodup : (p.targets g.routes).Nodup
  carries : Carries ch s (if ch.stream ∈ left then p.packets else [])

/-- The stack of a call of the node, from its topmost frame that has a part in the stream. -/
inductive Channel.Working (ch : Channel g outputs) (s : Recorded Shared Transfer) :
    List Frame → Prop
  | calling (r : Invocation) (pc : RunPc) (post : List Frame) (hCalling : Calling ch s r pc)
      (hPost : ∀ f ∈ post, f.Apart ch) : ch.Working s (.run r pc :: post)
  | passing (f : Frame) (p : Propagation) (left : List StreamId) (mid : List Frame)
      (call : Frame) (post : List Frame) (hFrame : Iterates g p left f)
      (hPassing : Passing ch s p left) (hMid : ∀ f ∈ mid, f.Apart ch)
      (hHolds : call.holdsPending ch.node = true) (hQuiet : call.Quiet ch)
      (hPost : ∀ f ∈ post, f.Apart ch) : ch.Working s (f :: (mid ++ call :: post))

def Channel.Course (ch : Channel g outputs) (s : Recorded Shared Transfer)
    (stack : List Frame) : Prop :=
  ∃ above work, stack = above ++ work ∧ (∀ f ∈ above, f.Apart ch) ∧ ch.Working s work

/-- Nothing is on its way and no part of the stack has to do with the stream, or the stack is
in the course of a call. -/
def Channel.Settles (ch : Channel g outputs) (s : Recorded Shared Transfer)
    (stack : List Frame) : Prop :=
  (Carries ch s [] ∧ ∀ f ∈ stack, f.Apart ch) ∨ ch.Course s stack

/-- The course depends on the state through the equation. -/
theorem Channel.Course.keep {stack : List Frame} (hCourse : ch.Course s stack)
    (hKeep : ∀ way, Carries ch s way → Carries ch s' way) : ch.Course s' stack := by
  obtain ⟨above, work, hStack, hAbove, hWorking⟩ := hCourse
  refine ⟨above, work, hStack, hAbove, ?_⟩
  cases hWorking with
  | calling r pc post hCalling hPost =>
      exact .calling r pc post
        ⟨hCalling.holds, hCalling.left, hCalling.shard, hKeep _ hCalling.carries⟩ hPost
  | passing f p left mid call post hFrame hPassing hMid hHolds hQuiet hPost =>
      exact .passing f p left mid call post hFrame ⟨hPassing.nodup, hKeep _ hPassing.carries⟩ hMid
        hHolds hQuiet hPost

/-- A call of the node holds its count. -/
theorem Channel.Course.holds {stack : List Frame} (hCourse : ch.Course s stack) :
    ∃ h ∈ stack, h.holdsPending ch.node = true := by
  obtain ⟨above, work, rfl, -, hWorking⟩ := hCourse
  cases hWorking with
  | calling r pc post hCalling hPost => exact ⟨.run r pc, by simp, hCalling.holds⟩
  | passing f p left mid call post hFrame hPassing hMid hHolds hQuiet hPost =>
      exact ⟨call, by simp, hHolds⟩

/-- A quiet call under frames apart, when nothing is on its way. -/
theorem settles_of_quiet {above post : List Frame} {call : Frame} (hCarries : Carries ch s [])
    (hAbove : ∀ f ∈ above, f.Apart ch) (hQuiet : call.Quiet ch)
    (hPost : ∀ f ∈ post, f.Apart ch) : ch.Settles s (above ++ call :: post) := by
  cases hHolds : call.holdsPending ch.node with
  | false =>
      left
      rw [List.forall_mem_append, List.forall_mem_cons]
      exact ⟨hCarries, hAbove, ⟨hQuiet, hHolds⟩, hPost⟩
  | true =>
      cases call with
      | run r pc =>
          have hNode : r.node = ch.node := by
            simp only [Frame.holdsPending, Bool.and_eq_true, decide_eq_true_eq] at hHolds
            exact hHolds.1
          have hEmpty := hQuiet.2 hNode
          refine Or.inr ⟨above, _, rfl, hAbove, .calling r pc post ⟨hHolds, hQuiet.1, Or.inl hEmpty,
            ?_⟩ hPost⟩
          rw [hEmpty]
          exact hCarries
      | _ => exact absurd hHolds Bool.false_ne_true

/-! ### The packets and the bounds of a propagation -/

theorem packetStep_queue {routes : Routes} {streams : Streams} {p : Propagation} {t : StreamId}
    (hReceptive : ∀ t, (streams t).closed = false) :
    ((Propagation.packetStep routes streams p).1 t).queue = (streams t).queue ++
      if p.mirrors.head?.bind (Mirror.resolve routes) = some t then p.packets else [] := by
  obtain ⟨mirrors, packets, nextBound, setBound⟩ := p
  cases mirrors with
  | nil => simp [Propagation.packetStep]
  | cons mirror rest =>
      by_cases hPackets : packets = []
      · subst hPackets
        rw [Propagation.packetStep_of_nil, ite_self, List.append_nil]
      · cases hResolve : mirror.resolve routes with
        | none => simp [Propagation.packetStep, hResolve]
        | some u =>
            rw [(Propagation.packetStep_of_resolve hResolve hPackets).1, Function.update_apply]
            by_cases hEq : t = u
            · subst hEq
              rw [(InputStreamManager.addPackets_of_open (hReceptive t) packets).1]
              simp [hResolve]
            · simp [hResolve, hEq, Ne.symm hEq]

/-- The packets are moved out at the last mirror. -/
theorem packetStep_packets_of_mem {routes : Routes} {streams : Streams} {p : Propagation}
    {t : StreamId} (hMem : t ∈ ({ p with mirrors := p.mirrors.tail } : Propagation).targets routes) :
    (Propagation.packetStep routes streams p).2.1.packets = p.packets := by
  obtain ⟨mirrors, packets, nextBound, setBound⟩ := p
  cases mirrors with
  | nil => exact absurd hMem List.not_mem_nil
  | cons mirror rest =>
      rw [Propagation.packetStep_packets]
      rintro rfl
      exact absurd hMem List.not_mem_nil

/-- A step of a propagation takes nothing and puts nothing in. -/
theorem history_of_iterates {p : Propagation} {left : List StreamId} (hFrame : Iterates g p left f)
    (hStep : (traced g).exec s f x = some (s', fs)) : s'.history = s.history := by
  obtain ⟨-, hHistory⟩ := Machine.tracing_exec hStep
  rw [hHistory]
  cases hFrame
  all_goals exact List.append_nil _

/-- **The packet half of an iteration.** -/
theorem Passing.packets {p : Propagation} (hReceptive : Receptive s.state)
    (hPassing : Passing ch s p (p.targets g.routes))
    (hState : s'.state = s.state.setStreams
      (Propagation.packetStep g.routes s.state.net.streams p).1)
    (hHistory : s'.history = s.history) :
    Passing ch s' (Propagation.packetStep g.routes s.state.net.streams p).2.1
      ({ p with mirrors := p.mirrors.tail }.targets g.routes) := by
  obtain ⟨hNodup, hCarries⟩ := hPassing
  constructor
  · rwa [Propagation.targets, Propagation.packetStep_mirrors]
  unfold Carries at hCarries ⊢
  have hQueue : (s'.state.stream ch.stream).queue = (s.state.stream ch.stream).queue ++
      if target g p = some ch.stream then p.packets else [] := by
    rw [hState]
    exact packetStep_queue hReceptive
  rw [hHistory, hCarries, hQueue]
  by_cases hTarget : target g p = some ch.stream
  · -- the stream is the current one, and is not visited again
    have hTargets := targets_of_target hTarget
    rw [hTargets] at hNodup ⊢
    rw [if_pos List.mem_cons_self, if_pos hTarget, if_neg (List.nodup_cons.mp hNodup).1]
    simp
  · rw [if_neg hTarget, List.append_nil]
    have hMem : ch.stream ∈ p.targets g.routes ↔
        ch.stream ∈ ({ p with mirrors := p.mirrors.tail } : Propagation).targets g.routes := by
      cases hHead : target g p with
      | some u =>
          rw [targets_of_target hHead, List.mem_cons, or_iff_right]
          rintro rfl
          exact hTarget hHead
      | none =>
          obtain ⟨mirrors, packets, nextBound, setBound⟩ := p
          cases mirrors with
          | nil => exact Iff.rfl
          | cons mirror rest =>
              have hResolve : mirror.resolve g.routes = none := hHead
              simp [Propagation.targets, hResolve]
    by_cases hIn : ch.stream ∈ p.targets g.routes
    · rw [if_pos hIn, if_pos (hMem.mp hIn), packetStep_packets_of_mem (hMem.mp hIn)]
    · rw [if_neg hIn, if_neg (mt hMem.mpr hIn)]

/-- **The bound half of an iteration.** -/
theorem Passing.bound {p : Propagation}
    (hPassing : Passing ch s p ({ p with mirrors := p.mirrors.tail }.targets g.routes))
    (hQueue : (s'.state.stream ch.stream).queue = (s.state.stream ch.stream).queue)
    (hHistory : s'.history = s.history) :
    Passing ch s' { p with mirrors := p.mirrors.tail }
      ({ p with mirrors := p.mirrors.tail }.targets g.routes) := by
  obtain ⟨hNodup, hCarries⟩ := hPassing
  have hTail : ({ p with mirrors := p.mirrors.tail }.targets g.routes).Sublist
      (p.targets g.routes) := (List.tail_sublist _).filterMap _
  refine ⟨hNodup.sublist hTail, ?_⟩
  unfold Carries at hCarries ⊢
  rw [hHistory, hCarries, hQueue]

/-- **The step of a propagation in `PostProcess`.** -/
theorem passing_step {p : Propagation} {left : List StreamId} {mid post : List Frame}
    {call : Frame} (hReceptive : Receptive s.state) (hFrame : Iterates g p left f)
    (hPassing : Passing ch s p left) (hMid : ∀ f ∈ mid, f.Apart ch)
    (hHolds : call.holdsPending ch.node = true) (hQuiet : call.Quiet ch)
    (hPost : ∀ f ∈ post, f.Apart ch) (hStep : (traced g).exec s f x = some (s', fs)) :
    ch.Settles s' (fs ++ (mid ++ call :: post)) := by
  have hHistory := history_of_iterates hFrame hStep
  have hExec : exec g s.state f x = some (s'.state, fs) := (Machine.tracing_exec hStep).1
  have hArrival : ∀ {wake : Option StreamId}, ∀ f ∈ arrivalCallback g wake, f.Apart ch := by
    intro wake f hMem
    cases wake with
    | none => exact absurd hMem List.not_mem_nil
    | some t =>
        rw [List.mem_singleton.mp hMem]
        exact ⟨trivial, rfl⟩
  cases hFrame with
  | packets =>
      simp only [exec] at hExec
      split at hExec
      · rename_i hDone
        obtain ⟨hState, rfl⟩ := Prod.mk.inj (Option.some.inj hExec)
        refine settles_of_quiet ?_ hMid hQuiet hPost
        have hCarries := hPassing.carries
        have hNone : p.targets g.routes = [] := by
          rw [Propagation.targets, List.isEmpty_iff.mp hDone]
          rfl
        rw [hNone, if_neg List.not_mem_nil] at hCarries
        unfold Carries at hCarries ⊢
        rw [hHistory, ← hState]
        exact hCarries
      · obtain ⟨hState, rfl⟩ := Prod.mk.inj (Option.some.inj hExec)
        refine Or.inr ⟨_, _, by rw [List.append_assoc]; rfl, hArrival, .passing _ _ _ mid call post
          .bound ?_ hMid hHolds hQuiet hPost⟩
        have hNext := hPassing.packets hReceptive hState.symm hHistory
        simpa only [Propagation.targets, Propagation.packetStep_mirrors] using hNext
  | bound =>
      have hQueue : (s'.state.stream ch.stream).queue = (s.state.stream ch.stream).queue := by
        have hChange := exec_stream ch.stream hExec
        generalize s'.state.stream ch.stream = m at hChange ⊢
        cases hChange with
        | same => rfl
        | bounded => exact InputStreamManager.setNextTimestampBound_queue ..
      obtain ⟨-, rfl⟩ := Prod.mk.inj (Option.some.inj hExec)
      refine Or.inr ⟨_, _, by rw [List.append_assoc]; rfl, hArrival, .passing _ _ _ mid call post
        .packets ?_ hMid hHolds hQuiet hPost⟩
      rw [Propagation.boundStep_snd]
      exact hPassing.bound hQueue hHistory

/-! ### The steps of a call -/

variable {r : Invocation} {pc : RunPc} {post : List Frame}

theorem Calling.node (hCalling : Calling ch s r pc) : r.node = ch.node := by
  have hHolds := hCalling.holds
  simp only [Frame.holdsPending, Bool.and_eq_true, decide_eq_true_eq] at hHolds
  exact hHolds.1

/-- A step of a call whose shard is empty. -/
theorem Calling.quiet_step (hPlumbed : Plumbed ch s (A ++ .run r pc :: B))
    (hCalling : Calling ch s r pc) (hProcess : pc ≠ .inProcess)
    (hEmpty : (r.outputs ch.port).outputQueue = []) (hPost : ∀ f ∈ post, f.Apart ch)
    (hStep : (traced g).exec s (.run r pc) x = some (s', fs)) : ch.Settles s' (fs ++ post) := by
  obtain ⟨hExec, -⟩ := Machine.tracing_exec hStep
  have hCarries : Carries ch s' [] := by
    have hBefore := hCalling.carries
    rw [hEmpty] at hBefore
    exact hBefore.call (fun hPc => absurd hPc hProcess) hStep
  have hQuiet : (Frame.run r pc).Quiet ch := ⟨hCalling.left, fun _ => hEmpty⟩
  have hNext := quiet_of_exec hPlumbed.wired hQuiet
    (fun r' hFrame => absurd (Frame.run.inj hFrame).2 hProcess) hExec
  obtain ⟨t, hTurn, -, rfl⟩ := exec_run hExec
  rw [List.forall_mem_append] at hNext
  have hCalls : ∀ f ∈ t.calls, f.Apart ch := by
    intro f hMem
    refine ⟨hNext.1 f hMem, ?_⟩
    cases f with
    | run r' pc' => exact absurd rfl ((runStep_calls hTurn _ hMem).2 r' pc')
    | _ => rfl
  cases hSelf : t.next with
  | none =>
      left
      simp only [Option.map_none, Option.toList_none, List.append_nil, List.forall_mem_append]
      exact ⟨hCarries, hCalls, hPost⟩
  | some p =>
      rw [hSelf] at hNext
      simp only [Option.map_some, Option.toList_some, List.append_assoc, List.singleton_append]
      exact settles_of_quiet hCarries hCalls (hNext.2 _ (List.mem_singleton_self _)) hPost

/-- **`Process` returns**: what it has written is on its way. -/
theorem Calling.returns (hCalling : Calling ch s r .inProcess) (hPost : ∀ f ∈ post, f.Apart ch)
    (hStep : (traced g).exec s (.run r .inProcess) x = some (s', fs)) :
    ch.Settles s' (fs ++ post) := by
  have hNode := hCalling.node
  have hEmpty : (r.outputs ch.port).outputQueue = [] := by
    refine hCalling.shard.resolve_right ?_
    rintro ⟨rest, status, hPc, -⟩
    cases hPc
  have hInput : ch.input s'.history = ch.input s.history ++
      (Frame.emission (.run r .inProcess) x).toList.flatMap
        (Emission.packets g ch.manager ch.port) := input_of_exec hStep
  have hOutput : ch.output s'.history ++ (s'.state.stream ch.stream).queue =
      ch.output s.history ++ (s.state.stream ch.stream).queue :=
    takenFrom_append_queue _ hStep fun p hFrame => by cases hFrame
  have hExec : exec g s.state (.run r .inProcess) x = some (s'.state, fs) :=
    (Machine.tracing_exec hStep).1
  cases x with
  | step => cases hExec
  | returns status writes =>
      obtain ⟨-, rfl⟩ := Prod.mk.inj (Option.some.inj hExec)
      have hOwned : ch.manager ∈ g.outputs r.node := hNode ▸ ch.owned
      refine Or.inr ⟨[], _, rfl, by simp, .calling _ _ post ⟨?_, fun _ hMem => hMem, ?_, ?_⟩ hPost⟩
      · simp [Frame.holdsPending, RunPc.holdsPending, hNode]
      · exact Or.inr ⟨g.outputs r.node, status, rfl, hNode ▸ ch.outputs_nodup, hOwned⟩
      · refine hCalling.carries.of_step hInput ?_
        rw [hOutput, hEmpty, List.append_nil]
        simp [Frame.emission, Emission.packets, hOwned]

theorem apart_closeManager {o : OutId} {closed : Bool} :
    ∀ f ∈ (if closed then [Frame.closeManager o] else []), f.Apart ch := by
  intro f hMem
  cases closed with
  | false => exact absurd hMem List.not_mem_nil
  | true =>
      rw [List.mem_singleton.mp hMem]
      exact ⟨trivial, rfl⟩

/-- The shards `PostProcess` leaves when it has sent for manager `o`. -/
theorem clear_port {s : Shared} (hWired : WiredAs outputs s) (o : OutId) :
    (r.clear s.net o).outputs ch.port =
      if ch.port = shardPort outputs o then
        OutputStreamManager.clearShard (r.outputs ch.port)
      else r.outputs ch.port := clear_outputs hWired r o ch.manager

/-- **`PostProcess` sends what the shard holds.** -/
theorem Calling.sends {rest : List OutId} {status : Status}
    (hPlumbed : Plumbed ch s (A ++ .run r (.postProcess (ch.manager :: rest) status) :: B))
    (hCalling : Calling ch s r (.postProcess (ch.manager :: rest) status))
    (hOpen : (s.state.net.outputs ch.manager).closed = false) (hPost : ∀ f ∈ post, f.Apart ch)
    (hStep : (traced g).exec s (.run r (.postProcess (ch.manager :: rest) status)) x =
      some (s', fs)) : ch.Settles s' (fs ++ post) := by
  have hCarries := hCalling.carries.call (fun hPc => by cases hPc) hStep
  obtain ⟨hExec, -⟩ := Machine.tracing_exec hStep
  obtain ⟨t, hTurn, -, rfl⟩ := exec_run hExec
  simp only [runStep, hOpen, Bool.false_eq_true, if_false, hPlumbed.wired.port] at hTurn
  cases hTurn
  have hTargets : (s.state.net.outputs ch.manager).mirrors.filterMap (Mirror.resolve g.routes) =
      consumers g outputs ch.manager := hPlumbed.wired.targets ch.manager
  rw [List.append_assoc]
  refine Or.inr ⟨[], _, rfl, by simp, .passing _ _ _ _ _ post .packets ⟨?_, ?_⟩
    apart_closeManager ?_ ⟨?_, ?_⟩ hPost⟩
  · show ((s.state.net.outputs ch.manager).mirrors.filterMap _).Nodup
    rw [hTargets]
    exact ch.consumers_nodup
  · have hMem : ch.stream ∈ Propagation.targets g.routes
        ((s.state.net.outputs ch.manager).beginPropagate
          ((s.state.net.outputs ch.manager).computeOutputTimestampBound
            (r.outputs (shardPort outputs ch.manager)) r.timestamp)
          (r.outputs (shardPort outputs ch.manager))).2 := by
      show ch.stream ∈ (s.state.net.outputs ch.manager).mirrors.filterMap _
      rw [hTargets]
      exact ch.consumer
    rw [if_pos hMem]
    exact hCarries
  · exact hCalling.holds
  · exact fun o hIn => hCalling.left o (List.mem_cons_of_mem _ hIn)
  · intro _
    rw [clear_port hPlumbed.wired]
    exact congrArg OutputStreamShard.outputQueue (if_pos rfl)

/-- `PostProcess` goes on to another manager. -/
theorem Calling.passes {o : OutId} {rest : List OutId} {status : Status}
    (hPlumbed : Plumbed ch s (A ++ .run r (.postProcess (o :: rest) status) :: B))
    (hCalling : Calling ch s r (.postProcess (o :: rest) status)) (hOther : o ≠ ch.manager)
    (hNodup : rest.Nodup) (hMem : ch.manager ∈ rest) (hPost : ∀ f ∈ post, f.Apart ch)
    (hStep : (traced g).exec s (.run r (.postProcess (o :: rest) status)) x = some (s', fs)) :
    ch.Settles s' (fs ++ post) := by
  have hNode := hCalling.node
  have hCarries := hCalling.carries.call (fun hPc => by cases hPc) hStep
  have hLeft : ∀ o ∈ rest, o ∈ g.outputs r.node :=
    fun o hIn => hCalling.left o (List.mem_cons_of_mem _ hIn)
  have hUnsent : (RunPc.postProcess rest status).Unsent ch.manager :=
    ⟨rest, status, rfl, hNodup, hMem⟩
  obtain ⟨hExec, -⟩ := Machine.tracing_exec hStep
  obtain ⟨t, hTurn, -, rfl⟩ := exec_run hExec
  simp only [runStep] at hTurn
  split at hTurn
  · cases hTurn
    exact Or.inr ⟨[], _, rfl, by simp, .calling _ _ post ⟨hCalling.holds, hLeft, Or.inr hUnsent,
      hCarries⟩ hPost⟩
  · cases hTurn
    have hTargets : (s.state.net.outputs o).mirrors.filterMap (Mirror.resolve g.routes) =
        consumers g outputs o := hPlumbed.wired.targets o
    have hClear : (r.clear s.state.net o).outputs ch.port = r.outputs ch.port := by
      rw [clear_port hPlumbed.wired, if_neg]
      intro hPort
      exact hOther (ch.port_eq o (hNode ▸ hCalling.left o List.mem_cons_self) hPort.symm)
    refine Or.inr ⟨_ :: _, _, by rw [List.append_assoc]; rfl, ?_,
      .calling (r.clear s.state.net o) (.postProcess rest status) post
        ⟨hCalling.holds, hLeft, Or.inr hUnsent, ?_⟩ hPost⟩
    · rw [List.forall_mem_cons]
      refine ⟨⟨fun hTarget => ?_, rfl⟩, apart_closeManager⟩
      have hConsumer : ch.stream ∈ (s.state.net.outputs o).mirrors.filterMap
        (Mirror.resolve g.routes) := hTarget
      rw [hTargets] at hConsumer
      exact absurd (ch.alone o hConsumer) hOther
    · rw [hClear]
      exact hCarries

/-- **The step of a call of the node** before its `DecrementPending`. -/
theorem Calling.step (hPlumbed : Plumbed ch s (A ++ .run r pc :: B))
    (hCalling : Calling ch s r pc) (hOpen : (s.state.net.outputs ch.manager).closed = false)
    (hPost : ∀ f ∈ post, f.Apart ch)
    (hStep : (traced g).exec s (.run r pc) x = some (s', fs)) : ch.Settles s' (fs ++ post) := by
  rcases hCalling.shard with hEmpty | ⟨left, status, rfl, hNodup, hMem⟩
  · by_cases hProcess : pc = .inProcess
    · subst hProcess
      exact hCalling.returns hPost hStep
    · exact hCalling.quiet_step hPlumbed hProcess hEmpty hPost hStep
  · cases left with
    | nil => exact absurd hMem List.not_mem_nil
    | cons o rest =>
        by_cases hEq : o = ch.manager
        · subst hEq
          exact hCalling.sends hPlumbed hOpen hPost hStep
        · have hRest : ch.manager ∈ rest := (List.mem_cons.mp hMem).resolve_left (Ne.symm hEq)
          exact hCalling.passes hPlumbed hEq (List.nodup_cons.mp hNodup).2 hRest hPost hStep

/-! ## In every run -/

/-- A frame apart, while a call of the node holds its count. -/
theorem Plumbed.beside (hPlumbed : Plumbed ch s (A ++ f :: B)) (hApart : f.Apart ch)
    (hHolds : ∃ h ∈ A ++ B, h.holdsPending ch.node = true)
    (hStep : (traced g).exec s f x = some (s', fs)) :
    (∀ way, Carries ch s way → Carries ch s' way) ∧ ∀ f' ∈ fs, f'.Apart ch := by
  obtain ⟨hKeep, hTakes | hNew⟩ := apart_of_exec hPlumbed hApart hStep
  · obtain ⟨h, hMem, hHere⟩ := hHolds
    rw [hPlumbed.idle_of_takesUp hTakes hMem] at hHere
    exact absurd hHere Bool.false_ne_true
  · exact ⟨hKeep, hNew⟩

/-- **The step of a call in its course.** -/
theorem Channel.Course.exec {below : List Frame} (hPlumbed : Plumbed ch s (A ++ f :: (below ++ B)))
    (hCourse : ch.Course s (f :: below)) (hOpen : (s.state.net.outputs ch.manager).closed = false)
    (hStep : (traced g).exec s f x = some (s', fs)) : ch.Settles s' (fs ++ below) := by
  have hHolds := hCourse.holds
  obtain ⟨above, work, hStack, hAbove, hWorking⟩ := hCourse
  cases above with
  | cons h above =>
      rw [List.cons_append] at hStack
      obtain ⟨rfl, rfl⟩ := List.cons.inj hStack
      obtain ⟨hTop, hRest⟩ := List.forall_mem_cons.mp hAbove
      have hBelow : ∃ h ∈ A ++ ((above ++ work) ++ B), h.holdsPending ch.node = true := by
        obtain ⟨h, hMem, hHere⟩ := hHolds
        rcases List.mem_cons.mp hMem with rfl | hIn
        · rw [hTop.idle] at hHere
          exact absurd hHere Bool.false_ne_true
        · exact ⟨h, List.mem_append_right _ (List.mem_append_left _ hIn), hHere⟩
      obtain ⟨hKeep, hNew⟩ := hPlumbed.beside hTop hBelow hStep
      have hCourse : ch.Course s' work := by
        refine Channel.Course.keep ⟨[], work, rfl, by simp, hWorking⟩ hKeep
      obtain ⟨above', work', rfl, hAbove', hWorking'⟩ := hCourse
      refine Or.inr ⟨fs ++ above ++ above', work', by simp [List.append_assoc], ?_, hWorking'⟩
      rw [List.forall_mem_append, List.forall_mem_append]
      exact ⟨⟨hNew, hRest⟩, hAbove'⟩
  | nil =>
      rw [List.nil_append] at hStack
      subst hStack
      generalize hAll : f :: below = stack at hWorking
      cases hWorking with
      | calling r pc post hCalling hPost =>
          obtain ⟨rfl, rfl⟩ := List.cons.inj hAll
          exact hCalling.step hPlumbed hOpen hPost hStep
      | passing h p left mid call post hFrame hPassing hMid hCall hQuiet hPost =>
          obtain ⟨rfl, rfl⟩ := List.cons.inj hAll
          exact passing_step hPlumbed.receptive hFrame hPassing hMid hCall hQuiet hPost hStep

/-- The manager of the channel is open. -/
def Channel.opened (ch : Channel g outputs) (s : Recorded Shared Transfer) : Bool :=
  !(s.state.net.outputs ch.manager).closed

/-- **One call at a time has packets on their way**, as long as the manager is open. -/
theorem channel (ch : Channel g outputs) :
    Ownership (traced g) (Guard.whilst ch.opened) (Plumbed ch) (Frame.Apart ch)
      (fun s => Carries ch s []) ch.Course where
  enters := by
    intro s A f below B x s' fs hPlumbed hRest hApart _ hStep
    have hBelow : ∀ h ∈ below, h.Apart ch := fun h hMem =>
      hApart h (List.mem_append_right _ (List.mem_cons_of_mem f (List.mem_append_left _ hMem)))
    obtain ⟨hKeep, hTakes | hNew⟩ := apart_of_exec hPlumbed (hApart f mem_running) hStep
    · obtain ⟨q, it, queue, rfl, hPop, hNode⟩ := hTakes
      have hCarries := hKeep [] hRest
      obtain ⟨hExec, -⟩ := Machine.tracing_exec hStep
      simp only [machine, exec, hPop] at hExec
      obtain ⟨-, rfl⟩ := Prod.mk.inj (Option.some.inj hExec)
      refine Or.inr ⟨[], _, rfl, by simp, .calling _ _ (.onTaskFinished q :: below)
        ⟨?_, fun _ hLeft => absurd hLeft List.not_mem_nil, Or.inl rfl, hCarries⟩ ?_⟩
      · simp [Frame.holdsPending, RunPc.holdsPending, hNode]
      · rw [List.forall_mem_cons]
        exact ⟨⟨trivial, rfl⟩, hBelow⟩
    · exact Or.inl ⟨hKeep [] hRest, hNew⟩
  beside := by
    intro s A f below B x s' fs stack hPlumbed hCourse hSubset hApart _ hStep
    obtain ⟨h, hMem, hHolds⟩ := hCourse.holds
    have hOther : h ∈ A ++ (below ++ B) := by
      rcases List.mem_append.mp (hSubset hMem) with hBefore | hAfter
      · exact List.mem_append_left _ hBefore
      · exact List.mem_append_right _ (List.mem_append_right _ hAfter)
    obtain ⟨hKeep, hNew⟩ := hPlumbed.beside hApart ⟨h, hOther, hHolds⟩ hStep
    exact ⟨hCourse.keep hKeep, hNew⟩
  own := by
    intro s A f below B x s' fs hPlumbed hCourse hGuard hStep
    have hOpen : (s.state.net.outputs ch.manager).closed = false := by
      simpa [Guard.whilst, Channel.opened] using hGuard
    rcases hCourse.exec hPlumbed hOpen hStep with ⟨hRest, hApart⟩ | hNext
    · exact Or.inl ⟨hRest, hApart⟩
    · exact Or.inr hNext
  spawns := by
    intro s A b s' fs _ _ hSpawn
    obtain ⟨hState, hHistory⟩ := Machine.tracing_spawn hSpawn
    obtain ⟨tasks, hTasks, -⟩ := spawn_frame hState
    have hKeep : ∀ way, Carries ch s way → Carries ch s' way := by
      intro way hCarries
      unfold Carries at hCarries ⊢
      rw [hHistory, hTasks]
      exact hCarries
    refine ⟨?_, hKeep [], fun stack hCourse => hCourse.keep hKeep⟩
    rcases spawn_cases hState with ⟨q, -, -, -, rfl⟩ | ⟨-, pc, rfl, hCall⟩
    · rw [List.forall_mem_singleton]
      exact ⟨trivial, rfl⟩
    · rw [List.forall_mem_singleton]
      refine ⟨?_, rfl⟩
      rcases hCall with ⟨_, _, _, rfl⟩ | ⟨_, _, rfl⟩ | ⟨_, rfl⟩ | ⟨_, rfl⟩ | ⟨_, rfl⟩ |
        ⟨_, rfl⟩ | ⟨_, rfl⟩ | ⟨_, rfl⟩
      all_goals trivial

/-- **A manager stays closed.** -/
theorem exec_stays_closed {s s' : Shared} {o : OutId} (hStep : exec g s f x = some (s', fs))
    (hClosed : (s.net.outputs o).closed = true) : (s'.net.outputs o).closed = true := by
  have hPropagate : ∀ {π : Type} {o' : OutId} {bound : Timestamp} {shard : OutputStreamShard}
      {callees : List Frame} {pc : π},
      ((propagateThen s o' bound shard callees pc).state.net.outputs o).closed = true := by
    intro π o' bound shard callees pc
    by_cases hEq : o = o'
    · subst hEq
      show ((s.setOutput o _).net.outputs o).closed = true
      rw [setOutput_self, (beginPropagate_manager _ _ _).1]
      exact hClosed
    · rw [propagateThen_of_ne hEq]
      exact hClosed
  rcases exec_output hStep with hSame | hWrites
  · rw [hSame]
    exact hClosed
  cases f with
  | run r pc =>
      obtain ⟨t, hTurn, rfl, -⟩ := exec_run hStep
      revert hTurn
      fun_cases runStep g s r x pc
      all_goals intro hTurn; cases hTurn
      all_goals first
        | exact hClosed
        | exact hPropagate
        | exact absurd hWrites List.not_mem_nil
  | closeManager o' =>
      obtain rfl : o' = o := hWrites
      simp only [exec, OutputStreamManager.beginClose, hClosed, if_true] at hStep
      cases hStep
      exact hClosed
  | api pc =>
      obtain ⟨t, hTurn, rfl, -⟩ := exec_api hStep
      cases pc with
      | injectPacket o' packet =>
          cases hTurn
          exact hPropagate
      | _ => exact hWrites.elim
  | _ => exact hWrites.elim

section

variable {defaultQueue : QueueId} {callback : Bool} {c : Config (Recorded Shared Transfer) Frame}

theorem plumbed_of_reaches
    (hReach : (traced g).Reaches Guard.all
      (started (initial outputs defaultQueue callback)).record c) :
    Plumbed ch c.shared c.frames := by
  have hRun : (machine g).Reaches Guard.all (started (initial outputs defaultQueue callback))
      c.forget := Machine.reaches_of_tracing (G := Guard.all) hReach
  have hSound : WiredAs outputs c.forget.shared ∧ Receptive c.forget.shared := by
    refine Machine.invariant (I := fun s _ => WiredAs outputs s ∧ Receptive s) ?_ ?_ ?_ hRun
    · exact ⟨fun o => ⟨rfl, rfl⟩, fun t => rfl⟩
    · intro s A f B x s' fs hBefore _ hStep
      exact ⟨hBefore.1.exec hStep, hBefore.2.exec hStep⟩
    · intro s A b s' fs hBefore _ hSpawn
      obtain ⟨tasks, rfl, -⟩ := spawn_frame hSpawn
      exact hBefore
  exact ⟨placed_of_reaches hRun, limited_of_reaches ch.maxInFlight (by decide) hRun, hSound.1,
    hSound.2⟩

/-- The manager has been open all along. -/
theorem opened_of_step {c c' : Config (Recorded Shared Transfer) Frame} {a : Action Choice Call}
    (hStep : (traced g).step c a = some c') (hOpen : ch.opened c'.shared = true) :
    ch.opened c.shared = true := by
  cases a with
  | spawn b =>
      obtain ⟨r, hSpawn, rfl⟩ := Option.map_eq_some_iff.mp hStep
      obtain ⟨hState, -⟩ := Machine.tracing_spawn hSpawn
      obtain ⟨tasks, hTasks, -⟩ := spawn_frame hState
      rw [Channel.opened, hTasks] at hOpen
      exact hOpen
  | run i x =>
      obtain ⟨A, f, below, B, fs, -, hExec, -⟩ := Machine.step_run hStep
      obtain ⟨hExec, -⟩ := Machine.tracing_exec hExec
      rw [Channel.opened, Bool.not_eq_true'] at hOpen ⊢
      by_contra hClosed
      rw [Bool.not_eq_false] at hClosed
      rw [exec_stays_closed hExec hClosed] at hOpen
      exact Bool.false_ne_true hOpen.symm

/-- In every run, as long as the manager is open, one call at a time has a part in the
stream. -/
theorem Channel.owned_of_reaches (ch : Channel g outputs)
    (hReach : (traced g).Reaches Guard.all
      (started (initial outputs defaultQueue callback)).record c)
    (hOpen : (c.shared.state.net.outputs ch.manager).closed = false) :
    Owned (Frame.Apart ch) (fun s => Carries ch s []) ch.Course c := by
  have hWhilst : (traced g).Reaches (Guard.whilst ch.opened)
      (started (initial outputs defaultQueue callback)).record c := by
    refine Machine.reaches_while (fun _ _ _ hStep => opened_of_step hStep) hReach ?_
    rw [Channel.opened, hOpen]
    rfl
  refine (channel ch).owned (fun c hHere => plumbed_of_reaches (Machine.reaches_all _ hHere)) ?_
    hWhilst
  refine .free rfl ?_
  intro f hMem
  rw [List.mem_singleton.mp hMem]
  exact ⟨trivial, rfl⟩

/-- The equation holds then, and nothing is on its way when no call of the node is before its
`DecrementPending`. -/
theorem carries_of_reaches (ch : Channel g outputs)
    (hReach : (traced g).Reaches Guard.all
      (started (initial outputs defaultQueue callback)).record c)
    (hOpen : (c.shared.state.net.outputs ch.manager).closed = false) :
    ∃ way, Carries ch c.shared way ∧
      ((∀ f ∈ c.frames, f.holdsPending ch.node = false) → way = []) := by
  cases ch.owned_of_reaches hReach hOpen with
  | free hRest _ => exact ⟨[], hRest, fun _ => rfl⟩
  | owned i stack hThread hCourse _ =>
      obtain ⟨h, hMem, hHolds⟩ := hCourse.holds
      have hCarries : ∃ way, Carries ch c.shared way := by
        obtain ⟨above, work, -, -, hWorking⟩ := hCourse
        cases hWorking with
        | calling r pc post hCalling => exact ⟨_, hCalling.carries⟩
        | passing f p left mid call post hFrame hPassing => exact ⟨_, hPassing.carries⟩
      obtain ⟨way, hEq⟩ := hCarries
      refine ⟨way, hEq, fun hIdle => ?_⟩
      rw [hIdle h (mem_frames.mpr ⟨i, stack, hThread, hMem⟩)] at hHolds
      exact absurd hHolds Bool.false_ne_true

/-- **A stream is a channel.**  In every run, as long as the output manager is open: what the
node has put into its shards for it is, in this order, what has been taken from the stream of
the consumer, what is in its queue and what the call of the node at work has still to bring; and
nothing is missing when no call of the node is before its `DecrementPending`. -/
theorem channel_fifo (ch : Channel g outputs)
    (hReach : (traced g).Reaches Guard.all
      (started (initial outputs defaultQueue callback)).record c)
    (hOpen : (c.shared.state.net.outputs ch.manager).closed = false) :
    ∃ way, ch.input c.shared.history =
        ch.output c.shared.history ++ (c.shared.state.stream ch.stream).queue ++ way ∧
      ((∀ f ∈ c.frames, f.holdsPending ch.node = false) → way = []) :=
  carries_of_reaches ch hReach hOpen

end

/-! ## A chain -/

/-- From the first node of a chain to the second one. -/
def Channel.chain : Channel .chainOnOneQueue (chainOutputs 2) where
  node := 0
  manager := 1
  stream := 1
  maxInFlight := le_refl 1
  outputs_nodup := List.nodup_singleton 1
  owned := List.mem_singleton_self 1
  owner := (soleFeeder_chain 0).feeds 1 (List.mem_singleton_self 1) |>.owner
  inner := (soleFeeder_chain 0).feeds 1 (List.mem_singleton_self 1) |>.inner
  consumer := List.mem_singleton_self 1
  consumers_nodup := List.nodup_singleton 1
  alone := fun o hMem =>
    ((soleFeeder_chain 0).feeds 1 (List.mem_singleton_self 1)).alone o 1
      (List.mem_singleton_self 1) hMem
  port_eq := fun _ hMem _ => List.mem_singleton.mp hMem

/-- The packet the first node writes at `ts`. -/
def stampedAt (ts : Int) : Packet := ⟨some 7, Timestamp.ofValue ts⟩

/-- A packet for the first node and its return from `Process`. -/
def fed (ts : Int) : Call := .addPacketToInputStream "in" ⟨some 1, Timestamp.ofValue ts⟩

def writesAt (ts : Int) : Choice := .returns Status.okStatus [("out", .addPacket (stampedAt ts))]

/-- Two packets have been put in, and one has been taken out: the other one is on its way. -/
theorem channel_fifo_chain :
    ∃ (c : Config (Recorded Shared Transfer) Frame) (way : List Packet),
      (traced .chainOnOneQueue).Reaches Guard.all (started (chainInitial 2 false)).record c ∧
      Channel.chain.input c.shared.history = [stampedAt 0, stampedAt 1] ∧
      Channel.chain.output c.shared.history = [stampedAt 0] ∧ way = [stampedAt 1] ∧
      Channel.chain.input c.shared.history = Channel.chain.output c.shared.history ++
        (c.shared.state.stream 1).queue ++ way := by
  obtain ⟨c, hReach, hTest⟩ := (traced .chainOnOneQueue).exists_reaches Guard.all
    (started (chainInitial 2 false)).record
    (runs 0 24 .ok ++ calls (fed 0) 1 14 .ok ++ calls (.worker 0) 2 33 (writesAt 0) ++
      calls (fed 1) 3 14 .ok ++ calls (.worker 0) 4 4 .ok ++ calls (.worker 0) 5 7 (writesAt 1))
    (fun c => decide (Channel.chain.input c.shared.history = [stampedAt 0, stampedAt 1]) &&
      decide (Channel.chain.output c.shared.history = [stampedAt 0]) &&
      decide ((c.shared.state.stream 1).queue = []) &&
      !(c.shared.state.net.outputs 1).closed)
    (by decide +kernel)
  simp only [Bool.and_eq_true, decide_eq_true_eq, Bool.not_eq_true'] at hTest
  obtain ⟨⟨⟨hInput, hOutput⟩, hQueue⟩, hOpen⟩ := hTest
  obtain ⟨way, hFifo, -⟩ := channel_fifo Channel.chain hReach hOpen
  refine ⟨c, way, hReach, hInput, hOutput, ?_, hFifo⟩
  rw [hInput, hOutput] at hFifo
  have hWay : [stampedAt 1] = (c.shared.state.stream 1).queue ++ way := List.cons.inj hFifo |>.2
  rw [hQueue] at hWay
  exact hWay.symm

end GraphRuntime.Scheduler
