import GraphRuntime.Scheduler.Accounting
import Mathlib.Data.List.Forall2

/-!
# Outputs close after the finalize run

`RunNode` is meant to close the outputs of a node when the node has seen all its
inputs done: the first invocation that finds them done enters the node into
`close_pending_` and asks for one more, and this one closes.  Two things go wrong
(`closes_too_early`).  The stop path closes without a look at the inputs and then
schedules the node for what is still buffered.  And with several invocations in
flight, one that was started before the inputs were done takes the second step.

`finalizesAlone` says when neither happens: `Stop` comes from an invocation that
has seen all inputs done, the other invocations of the node that are still to
take their decision have seen the same when the node is first found done, and no
packet comes after that.  With it, `OutputStreamHandler::Close` is called only by
an invocation that has seen all inputs done, when they still are, and no
invocation that has consumed a packet is under way then or later
(`outputs_close_after_finalize`).
-/

namespace GraphRuntime.Scheduler

open GraphRuntime.Stream Interleaving

variable {g : Graph} {s s' : Shared} {f : Frame} {fs A B : List Frame} {x : Choice}

/-! ## What an invocation has seen -/

/-- The invocation has not taken its decision on the finalize protocol. -/
def RunPc.undecided : RunPc → Bool
  | .popInputs _ | .prepareOutputs _ | .inProcess | .postProcess _ _ | .scanDone _
  | .decide _ => true
  | _ => false

/-- Every shard popped so far is done. -/
def Invocation.seesDone (r : Invocation) : Bool := r.inputs.all fun shard => shard.done

/-- All input shards are there and done. -/
def Invocation.observesDone (g : Graph) (r : Invocation) : Prop :=
  r.inputs.map InputShard.port = (g.inputPorts r.node).map Prod.fst ∧ r.seesDone = true

/-- `Process` of the node has returned `Stop`. -/
def stopped (s : Shared) (n : NodeId) : Bool :=
  s.log.any fun e =>
    match e with
    | .processReturned m status => decide (m = n) && status.isStopStatus
    | _ => false

/-- `RunNode` has decided to close the outputs of the node. -/
def closes (g : Graph) (s : Shared) (n : NodeId) : Bool := finalized g s n || stopped s n

/-- An invocation has found the node done, or has stopped it. -/
def noted (g : Graph) (s : Shared) (n : NodeId) : Bool :=
  decide (n ∈ (s.queues (g.queue n)).closePending) || closes g s n

/-- Not an undecided invocation of node `n`, or one that has seen done only. -/
def Frame.agrees (n : NodeId) : Frame → Bool
  | .run r pc => !(decide (r.node = n) && pc.undecided) || r.seesDone
  | _ => true

/-- No invocation of node `n`. -/
def Frame.runsOther (n : NodeId) : Frame → Bool
  | .run r _ => decide (r.node ≠ n)
  | _ => true

/-- `Stop` is returned by an invocation that has seen all inputs done; then, and
when a node is first found done, all other undecided invocations of it have seen
done only; and from then on, and while the node runs, no packet is delivered to an
input that is done. -/
def finalizesAlone (g : Graph) : Guard Shared Frame Choice Call where
  exec := fun s others f x =>
    match f, x with
    | .run r .inProcess, .returns status _ =>
        !status.isStopStatus || g.isSource r.node ||
          (r.seesDone && others.all (Frame.agrees r.node))
    | .run r (.decide true), _ => noted g s r.node || others.all (Frame.agrees r.node)
    | .propagate p, _ =>
        match target g p with
        | some t => !(s.stream t).isDone || p.packets.isEmpty ||
            (!noted g s (g.owner t) && others.all (Frame.runsOther (g.owner t)))
        | none => true
    | _, _ => true
  spawn := fun _ _ _ => true

/-! ## Done inputs stay done -/

theorem isDone_popQueueHead {m : InputStreamManager} (hDone : m.isDone = true) :
    m.popQueueHead.2.2.isDone = true := by
  obtain ⟨hQueue, hBound⟩ := InputStreamManager.isDone_iff.mp hDone
  exact InputStreamManager.isDone_iff.mpr ⟨by simp [hQueue], by simp [hBound]⟩

theorem isDone_setNextTimestampBound {m : InputStreamManager} (b : Timestamp)
    (hDone : m.isDone = true) : (m.setNextTimestampBound b).1.isDone = true := by
  obtain ⟨hQueue, hBound⟩ := InputStreamManager.isDone_iff.mp hDone
  refine InputStreamManager.isDone_iff.mpr ⟨by simp [hQueue], ?_⟩
  rw [InputStreamManager.setNextTimestampBound_bound, hBound]
  exact max_eq_left (Timestamp.le_done b)

/-- A done stream stays done, unless packets are added to it. -/
theorem isDone_of_exec {t : StreamId} (hStep : exec g s f x = some (s', fs))
    (hDone : (s.stream t).isDone = true)
    (hNone : ∀ p, f = .propagate p → target g p = some t → p.packets = []) :
    (s'.stream t).isDone = true := by
  have hChange := exec_stream t hStep
  generalize s'.stream t = m at hChange ⊢
  cases hChange with
  | same => exact hDone
  | popped => exact isDone_popQueueHead hDone
  | bounded p => exact isDone_setNextTimestampBound _ hDone
  | added p _ hTarget hPackets => exact absurd (hNone p rfl hTarget) hPackets

/-- A done input of a node that runs or has been found done stays done. -/
theorem exec_isDone {t : StreamId}
    (hGuard : (finalizesAlone g).exec s (A ++ B) f x = true)
    (hStep : exec g s f x = some (s', fs)) (hDone : (s.stream t).isDone = true)
    (hHeld : noted g s (g.owner t) = true ∨
      ∃ r pc, .run r pc ∈ A ++ f :: B ∧ r.node = g.owner t) :
    (s'.stream t).isDone = true := by
  refine isDone_of_exec hStep hDone ?_
  rintro p rfl hTarget
  by_contra hPackets
  simp only [finalizesAlone, hTarget, hDone, Bool.not_true, Bool.false_or,
    Bool.or_eq_true, List.isEmpty_iff, Bool.and_eq_true, Bool.not_eq_true',
    List.all_eq_true] at hGuard
  obtain ⟨hNotNoted, hOther⟩ := hGuard.resolve_left hPackets
  rcases hHeld with hNoted | ⟨r, pc, hMem, hNode⟩
  · exact Bool.false_ne_true (hNotNoted.symm.trans hNoted)
  · have hIn : .run r pc ∈ A ++ B := by
      simpa using hMem
    simpa [Frame.runsOther, hNode] using hOther _ hIn

/-! ## The marks of a node -/

theorem stopped_append {n : NodeId} {es : List Event} (hLog : s'.log = s.log ++ es)
    (hStopped : stopped s n = true) : stopped s' n = true := by
  unfold stopped at hStopped ⊢
  rw [hLog, List.any_append, hStopped, Bool.true_or]

/-- What a step makes of the two sets of a queue. -/
theorem exec_marks (q : QueueId) (hStep : exec g s f x = some (s', fs)) :
    ((s'.queues q).closePending = (s.queues q).closePending ∧
      (s'.queues q).finalizedNodes = (s.queues q).finalizedNodes) ∨
    ∃ r b, f = .run r (.decide b) ∧ q = r.queue ∧
      s'.queues q = ((s.queues q).decideFinalize r.node b).2 := by
  have hChange := exec_queue q hStep
  generalize s'.queues q = queue at hChange ⊢
  cases hChange with
  | decided _ r b hQueue => exact Or.inr ⟨r, b, rfl, hQueue, rfl⟩
  | _ => exact Or.inl ⟨rfl, rfl⟩

/-- A node entered into one of the sets stays in one of them, and is entered by its
own decision. -/
theorem decideFinalize_marks (queue : SchedulerQueue) (m : NodeId) (b : Bool) (n : NodeId) :
    (n ∈ (queue.decideFinalize m b).2.closePending ∨
        n ∈ (queue.decideFinalize m b).2.finalizedNodes) ↔
      (n ∈ queue.closePending ∨ n ∈ queue.finalizedNodes) ∨ (n = m ∧ b = true) := by
  unfold SchedulerQueue.decideFinalize SchedulerQueue.isFinalized
  cases b
  · simp
  · by_cases hFinal : m ∈ queue.finalizedNodes
    · simp only [hFinal, decide_true, Bool.not_true, Bool.and_false, Bool.false_eq_true, if_false]
      constructor
      · exact Or.inl
      · rintro (hOld | ⟨rfl, -⟩)
        · exact hOld
        · exact Or.inr hFinal
    · by_cases hPending : m ∈ queue.closePending
      · simp only [hFinal, hPending, decide_false, Bool.not_false, Bool.and_self, if_true,
          List.mem_filter, List.mem_cons, decide_eq_true_eq]
        by_cases hEq : n = m
        · simp [hEq]
        · simp [hEq]
      · simp only [hFinal, hPending, decide_false, Bool.not_false, Bool.and_self, if_true,
          if_false, List.mem_cons]
        tauto

/-- Only a node that is pending is closed, and it is finalized then. -/
theorem decideFinalize_kClose {queue : SchedulerQueue} {n : NodeId} {b : Bool}
    (hClose : (queue.decideFinalize n b).1 = .kClose) :
    n ∈ queue.closePending ∧ n ∈ (queue.decideFinalize n b).2.finalizedNodes := by
  unfold SchedulerQueue.decideFinalize at hClose ⊢
  split
  · split
    · rename_i hPending
      exact ⟨hPending, List.mem_cons_self⟩
    · simp_all
  · simp_all

theorem noted_iff {n : NodeId} : noted g s n = true ↔
    (n ∈ (s.queues (g.queue n)).closePending ∨ n ∈ (s.queues (g.queue n)).finalizedNodes) ∨
      stopped s n = true := by
  simp [noted, closes, finalized, SchedulerQueue.isFinalized, or_assoc]

theorem exec_stopped {n : NodeId} (hStep : exec g s f x = some (s', fs))
    (hAfter : stopped s' n = true) : stopped s n = true ∨
      ∃ r status writes, f = .run r .inProcess ∧ x = .returns status writes ∧ r.node = n ∧
        status.isStopStatus = true := by
  by_cases hProcess : ∃ r, f = .run r .inProcess
  · obtain ⟨r, rfl⟩ := hProcess
    obtain ⟨t, hTurn, rfl, rfl⟩ := exec_run hStep
    cases x with
    | step => cases hTurn
    | returns status writes =>
        cases hTurn
        simp only [stopped, Shared.record, List.any_append, Bool.or_eq_true, List.any_cons,
          List.any_nil, Bool.or_false, Bool.and_eq_true, decide_eq_true_eq] at hAfter
        rcases hAfter with hOld | ⟨hNode, hStop⟩
        · exact Or.inl hOld
        · exact Or.inr ⟨r, status, writes, rfl, rfl, hNode, hStop⟩
  · left
    have hChange := exec_log hStep
    unfold stopped at hAfter ⊢
    generalize s'.log = log at hChange hAfter
    cases hChange with
    | same => exact hAfter
    | processReturned r status => exact absurd ⟨r, rfl⟩ hProcess
    | _ => simpa using hAfter

/-- A node is found done by its own invocation. -/
theorem noted_cases {n : NodeId} (hStep : exec g s f x = some (s', fs))
    (hAfter : noted g s' n = true) : noted g s n = true ∨
      (∃ r, f = .run r (.decide true) ∧ r.node = n) ∨
      ∃ r status writes, f = .run r .inProcess ∧ x = .returns status writes ∧ r.node = n ∧
        status.isStopStatus = true := by
  rw [noted_iff] at hAfter ⊢
  rcases hAfter with hMarks | hStopped
  · rcases exec_marks (g.queue n) hStep with ⟨hPending, hFinal⟩ | ⟨r, b, rfl, -, hQueue⟩
    · rw [hPending, hFinal] at hMarks
      exact Or.inl (Or.inl hMarks)
    · rw [hQueue, decideFinalize_marks] at hMarks
      rcases hMarks with hOld | ⟨rfl, rfl⟩
      · exact Or.inl (Or.inl hOld)
      · exact Or.inr (Or.inl ⟨r, rfl, rfl⟩)
  · rcases exec_stopped hStep hStopped with hOld | hStop
    · exact Or.inl (Or.inr hOld)
    · exact Or.inr (Or.inr hStop)

theorem exec_stopped_mono {n : NodeId} (hStep : exec g s f x = some (s', fs))
    (hBefore : stopped s n = true) : stopped s' n = true := by
  obtain ⟨es, hLog⟩ := (exec_log hStep).isPrefix
  exact stopped_append hLog.symm hBefore

theorem exec_closes {n : NodeId} (hStep : exec g s f x = some (s', fs))
    (hBefore : closes g s n = true) : closes g s' n = true := by
  simp only [closes, Bool.or_eq_true] at hBefore ⊢
  exact hBefore.imp (exec_finalized hStep) (exec_stopped_mono hStep)

theorem exec_noted {n : NodeId} (hStep : exec g s f x = some (s', fs))
    (hBefore : noted g s n = true) : noted g s' n = true := by
  rw [noted_iff] at hBefore ⊢
  refine hBefore.imp (fun hMarks => ?_) (exec_stopped_mono hStep)
  rcases exec_marks (g.queue n) hStep with ⟨hPending, hFinal⟩ | ⟨r, b, rfl, -, hQueue⟩
  · rwa [hPending, hFinal]
  · rw [hQueue, decideFinalize_marks]
    exact Or.inl hMarks

/-! ## What a call knows -/

/-- The part of a call that follows a decision to close. -/
def RunPc.closing : RunPc → Bool
  | .postProcess _ status => status.isStopStatus
  | .closeOutputs _ _ | .decrement .kClose | .act .kClose => true
  | _ => false

/-- The ports still to be popped. -/
def RunPc.toPop : RunPc → List (String × StreamId)
  | .popInputs rest => rest
  | _ => []

/-- The streams whose done state has still to be looked at, in the computation of
`all_inputs_done` and after it. -/
def RunPc.toScan : RunPc → Option (List StreamId)
  | .scanDone rest => some rest
  | .decide true => some []
  | _ => none

/-- What a shard says of its port: done means that the stream is done. -/
def Shows (s : Shared) (p : String × StreamId) (shard : InputShard) : Prop :=
  shard.port = p.1 ∧
    (shard.done = true → shard.packet = none ∧ (s.stream p.2).isDone = true)

/-- What a `RunNode` call knows of the inputs of its node. -/
structure Informed (g : Graph) (s : Shared) (r : Invocation) (pc : RunPc) : Prop where
  popped : ∃ ports, ports ++ pc.toPop = g.inputPorts r.node ∧
    List.Forall₂ (Shows s) ports r.inputs
  scanned : ∀ rest, pc.toScan = some rest →
    ∀ t ∈ g.inputs r.node, t ∈ rest ∨ (s.stream t).isDone = true
  closing : pc.closing = true → g.isSource r.node = false →
    r.seesDone = true ∧ closes g s r.node = true

theorem Informed.mono {r : Invocation} {pc : RunPc} (hInformed : Informed g s r pc)
    (hDone : ∀ t ∈ g.inputs r.node, (s.stream t).isDone = true → (s'.stream t).isDone = true)
    (hCloses : closes g s r.node = true → closes g s' r.node = true) : Informed g s' r pc := by
  obtain ⟨⟨ports, hPorts, hShows⟩, hScanned, hClosing⟩ := hInformed
  refine ⟨⟨ports, hPorts, ?_⟩, fun rest hRest t hMem => ?_, fun hPc hNode => ?_⟩
  · have hIn : ∀ p ∈ ports, p.2 ∈ g.inputs r.node := by
      intro p hMem
      refine List.mem_map.mpr ⟨p, ?_, rfl⟩
      rw [← hPorts]
      exact List.mem_append_left _ hMem
    refine ((List.forall₂_and_left _ _).mpr ⟨hIn, hShows⟩).imp fun p shard hShow => ?_
    obtain ⟨hMem, hPort, hShard⟩ := hShow
    exact ⟨hPort, fun hIsDone => ⟨(hShard hIsDone).1, hDone _ hMem (hShard hIsDone).2⟩⟩
  · exact (hScanned rest hRest t hMem).imp_right (hDone t hMem)
  · exact (hClosing hPc hNode).imp_right hCloses

/-- A call that is neither looking at its inputs nor closing. -/
theorem Informed.of_popped {r : Invocation} {pc : RunPc}
    (hPopped : ∃ ports, ports ++ pc.toPop = g.inputPorts r.node ∧
      List.Forall₂ (Shows s) ports r.inputs)
    (hScan : pc.toScan = none) (hClosing : pc.closing = false) : Informed g s r pc :=
  ⟨hPopped, by simp [hScan], by simp [hClosing]⟩

theorem shows_popQueueHead {p : String × StreamId} :
    Shows (s.setStreams (Function.update s.net.streams p.2 (s.stream p.2).popQueueHead.2.2)) p
      { port := p.1
        packet := if (s.stream p.2).popQueueHead.1.isEmpty then none
          else some (s.stream p.2).popQueueHead.1
        done := (s.stream p.2).popQueueHead.2.1 } := by
  refine ⟨rfl, fun hDone => ?_⟩
  have hValue : ∀ m : InputStreamManager, m.popQueueHead.2.1 = true →
      m.popQueueHead.1.isEmpty = true ∧ m.popQueueHead.2.2.isDone = true := by
    intro m hFlag
    unfold InputStreamManager.popQueueHead at hFlag ⊢
    split at hFlag
    · rename_i hQueue
      simp only
      exact ⟨rfl, InputStreamManager.isDone_iff.mpr ⟨hQueue, of_decide_eq_true hFlag⟩⟩
    · exact absurd hFlag Bool.false_ne_true
  obtain ⟨hEmpty, hLeft⟩ := hValue _ hDone
  refine ⟨by simp [hEmpty], ?_⟩
  simpa [Shared.stream] using hLeft

/-- What the call knows after its own step, from what it knew about the state the
step leaves. -/
theorem runStep_informed {r r' : Invocation} {pc pc' : RunPc} {t : Turn (Invocation × RunPc)}
    (hTurn : runStep g s r x pc = some t) (hNext : t.next = some (r', pc'))
    (hInformed : Informed g t.state r pc)
    (hStop : ∀ status writes, pc = .inProcess → x = .returns status writes →
      status.isStopStatus = true → g.isSource r.node = false →
      r.seesDone = true ∧ closes g t.state r.node = true)
    (hDecide : pc = .decide true → g.isSource r.node = false →
      ((s.queues r.queue).decideFinalize r.node true).1 = .kClose →
      r.seesDone = true ∧ closes g t.state r.node = true) : Informed g t.state r' pc' := by
  obtain ⟨⟨ports, hPorts, hShows⟩, hScanned, hClosing⟩ := hInformed
  revert hTurn
  fun_cases runStep g s r x pc
  case case1 port u rest pop shard =>
    intro hTurn
    cases hTurn
    cases hNext
    refine .of_popped ⟨ports ++ [(port, u)], ?_, ?_⟩ rfl rfl
    · rw [List.append_assoc]
      exact hPorts
    · exact List.rel_append hShows (.cons (shows_popQueueHead (s := s) (p := (port, u))) .nil)
  case case9 status writes =>
    intro hTurn
    cases hTurn
    cases hNext
    exact ⟨⟨ports, hPorts, hShows⟩, by simp [RunPc.toScan],
      fun hStatus hNode => hStop status writes rfl rfl hStatus hNode⟩
  case case12 status =>
    intro hTurn
    cases hTurn
    cases hNext
    unfold afterProcess
    repeat' split
    · rename_i hStatus
      exact ⟨⟨ports, hPorts, hShows⟩, by simp [RunPc.toScan], fun _ => hClosing hStatus⟩
    · exact .of_popped ⟨ports, hPorts, hShows⟩ rfl rfl
    · exact .of_popped ⟨ports, hPorts, hShows⟩ rfl rfl
    · refine ⟨⟨ports, hPorts, hShows⟩, fun rest hRest t hMem => ?_, by simp [RunPc.closing]⟩
      cases hRest
      exact Or.inl hMem
  case case22 u rest =>
    intro hTurn
    cases hTurn
    cases hNext
    split
    · rename_i hDone
      refine ⟨⟨ports, hPorts, hShows⟩, fun rest' hRest t hMem => ?_, by simp [RunPc.closing]⟩
      cases hRest
      rcases hScanned (u :: rest) rfl t hMem with hIn | hOld
      · rcases List.mem_cons.mp hIn with rfl | hLater
        · exact Or.inr hDone
        · exact Or.inl hLater
      · exact Or.inr hOld
    · exact .of_popped ⟨ports, hPorts, hShows⟩ rfl rfl
  case case23 =>
    intro hTurn
    cases hTurn
    cases hNext
    refine ⟨⟨ports, hPorts, hShows⟩, fun rest hRest t hMem => ?_, by simp [RunPc.closing]⟩
    cases hRest
    exact hScanned [] rfl t hMem
  case case24 b decision =>
    intro hTurn
    cases hTurn
    cases hNext
    refine ⟨⟨ports, hPorts, hShows⟩, by simp [RunPc.toScan], fun hPc hNode => ?_⟩
    have hAction : decision.1 = .kClose := by
      cases hIs : decision.1 <;> simp_all [RunPc.closing]
    cases b with
    | true => exact hDecide rfl hNode hAction
    | false =>
        have hNone : decision.1 = .kNone := by
          simp [decision, SchedulerQueue.decideFinalize]
        exact absurd (hNone.symm.trans hAction) (by simp)
  case case25 action =>
    intro hTurn
    cases hTurn
    cases hNext
    refine ⟨⟨ports, hPorts, hShows⟩, by simp [RunPc.toScan], fun hPc hNode => ?_⟩
    cases action with
    | kClose => exact hClosing rfl hNode
    | _ => exact absurd hPc Bool.false_ne_true
  all_goals
    intro hTurn
    cases hTurn <;> cases hNext
  all_goals try unfold afterAct
  all_goals try unfold Invocation.prepare
  all_goals try unfold Invocation.clear
  all_goals repeat' split
  all_goals first
    | exact .of_popped ⟨ports, hPorts, hShows⟩ rfl rfl
    | exact ⟨⟨ports, hPorts, hShows⟩, by simp [RunPc.toScan], hClosing⟩

/-! ## The invariant -/

/-- What the calls know, and what all undecided calls of a node know once the node
has been found done. -/
structure Finalizing (g : Graph) (s : Shared) (fs : List Frame) : Prop where
  informed : ∀ r pc, .run r pc ∈ fs → Informed g s r pc
  done : ∀ n, g.isSource n = false → noted g s n = true →
    ∀ t ∈ g.inputs n, (s.stream t).isDone = true
  agreed : ∀ n, g.isSource n = false → noted g s n = true → ∀ f ∈ fs, f.agrees n = true

theorem Frame.agrees_of_undecided {n : NodeId} {r : Invocation} {pc : RunPc}
    (hAgrees : (Frame.run r pc).agrees n = true) (hNode : r.node = n)
    (hUndecided : pc.undecided = true) : r.seesDone = true := by
  simpa [Frame.agrees, hNode, hUndecided] using hAgrees

theorem popQueueHead_of_isDone {m : InputStreamManager} (hDone : m.isDone = true) :
    m.popQueueHead.2.1 = true := by
  obtain ⟨hQueue, hBound⟩ := InputStreamManager.isDone_iff.mp hDone
  simp [InputStreamManager.popQueueHead, hQueue, hBound]

/-- A call that is still undecided was so before, and has popped at most one more
port. -/
theorem runStep_undecided {r r' : Invocation} {pc pc' : RunPc} {t : Turn (Invocation × RunPc)}
    (hTurn : runStep g s r x pc = some t) (hNext : t.next = some (r', pc'))
    (hUndecided : pc'.undecided = true) : pc.undecided = true ∧ (r'.inputs = r.inputs ∨
      ∃ port u rest shard, pc = .popInputs ((port, u) :: rest) ∧
        r'.inputs = r.inputs ++ [shard] ∧ shard.done = (s.stream u).popQueueHead.2.1) := by
  revert hTurn
  fun_cases runStep g s r x pc
  case case1 port u rest pop shard =>
    intro hTurn
    cases hTurn
    cases hNext
    exact ⟨rfl, Or.inr ⟨port, u, rest, shard, rfl, rfl, rfl⟩⟩
  all_goals
    intro hTurn
    cases hTurn <;> cases hNext
  all_goals first
    | exact ⟨rfl, Or.inl rfl⟩
    | exact absurd hUndecided Bool.false_ne_true
    | skip
  all_goals try unfold afterAct at hUndecided
  all_goals repeat' split at hUndecided
  all_goals exact absurd hUndecided Bool.false_ne_true

/-- What an invocation leaves agrees when it does. -/
theorem runStep_agrees {n : NodeId} {r r' : Invocation} {pc pc' : RunPc}
    {t : Turn (Invocation × RunPc)} (hTurn : runStep g s r x pc = some t)
    (hNext : t.next = some (r', pc')) (hPlaced : pc.Placed g r.node)
    (hAgrees : (Frame.run r pc).agrees n = true)
    (hDone : ∀ t ∈ g.inputs n, (s.stream t).isDone = true) :
    (Frame.run r' pc').agrees n = true := by
  have hNode : r'.node = r.node := (runStep_next hTurn hNext).2.1
  by_cases hIs : r'.node = n ∧ pc'.undecided = true
  · obtain ⟨rfl, hUndecided⟩ := hIs
    obtain ⟨hBefore, hInputs⟩ := runStep_undecided hTurn hNext hUndecided
    have hSees : r.seesDone = true := Frame.agrees_of_undecided hAgrees hNode.symm hBefore
    have hSees' : r'.seesDone = true := by
      unfold Invocation.seesDone at hSees ⊢
      rcases hInputs with hSame | ⟨port, u, rest, shard, rfl, hMore, hShard⟩
      · rw [hSame]
        exact hSees
      · have hPort : u ∈ g.inputs r'.node := by
          rw [hNode]
          exact List.mem_map.mpr ⟨(port, u), hPlaced _ List.mem_cons_self, rfl⟩
        rw [hMore, List.all_append, hSees]
        simp [hShard, popQueueHead_of_isDone (hDone u hPort)]
    simp [Frame.agrees, hSees']
  · have hNot : (decide (r'.node = n) && pc'.undecided) = false := by
      simpa using hIs
    simp [Frame.agrees, hNot]

/-- The frames a step leaves agree when the one it replaces did. -/
theorem exec_agrees {n : NodeId} (hPlaced : Placed g s (A ++ f :: B))
    (hAgrees : f.agrees n = true)
    (hDone : ∀ t ∈ g.inputs n, (s.stream t).isDone = true)
    (hStep : exec g s f x = some (s', fs)) : ∀ f' ∈ fs, f'.agrees n = true := by
  intro f' hMem
  cases f' with
  | run r' pc' =>
      rcases run_of_exec hStep hMem with ⟨r, pc, t, rfl, hTurn, -, hNext⟩ |
        ⟨q, it, queue, -, -, -, rfl, rfl⟩
      · exact runStep_agrees hTurn hNext (hPlaced.run r pc mem_running).2.2.2 hAgrees hDone
      · simp [Frame.agrees, Invocation.seesDone]
  | _ => rfl

/-- Shards that are all done hold no packet, and their streams are done. -/
theorem shows_done {ports : List (String × StreamId)} {shards : List InputShard}
    (hShows : List.Forall₂ (Shows s) ports shards)
    (hSees : ∀ shard ∈ shards, shard.done = true) :
    shards.map InputShard.port = ports.map Prod.fst ∧
      (∀ p ∈ ports, (s.stream p.2).isDone = true) ∧ ∀ shard ∈ shards, shard.packet = none := by
  induction hShows with
  | nil => exact ⟨rfl, by simp, by simp⟩
  | @cons p shard ports shards hShow _ ih =>
      obtain ⟨hHead, hTail⟩ := List.forall_mem_cons.mp hSees
      obtain ⟨hPorts, hDone, hPackets⟩ := ih hTail
      obtain ⟨hPacket, hStream⟩ := hShow.2 hHead
      exact ⟨by rw [List.map_cons, List.map_cons, hPorts, hShow.1],
        List.forall_mem_cons.mpr ⟨hStream, hDone⟩, List.forall_mem_cons.mpr ⟨hPacket, hPackets⟩⟩

/-- An invocation that has seen all its inputs done tells that they are. -/
theorem Informed.isDone {r : Invocation} {pc : RunPc} (hInformed : Informed g s r pc)
    (hPopped : pc.toPop = []) (hSees : r.seesDone = true) :
    r.observesDone g ∧ ∀ t ∈ g.inputs r.node, (s.stream t).isDone = true := by
  obtain ⟨ports, hPorts, hShows⟩ := hInformed.popped
  rw [hPopped, List.append_nil] at hPorts
  subst hPorts
  obtain ⟨hNames, hDone, -⟩ := shows_done hShows (List.all_eq_true.mp hSees)
  refine ⟨⟨hNames, hSees⟩, fun t hMem => ?_⟩
  obtain ⟨p, hPort, rfl⟩ := List.mem_map.mp hMem
  exact hDone p hPort

/-- What has been popped by the frames a step leaves. -/
theorem exec_informed (hPlaced : Placed g s (A ++ f :: B))
    (hFinalizing : Finalizing g s (A ++ f :: B))
    (hGuard : (finalizesAlone g).exec s (A ++ B) f x = true)
    (hStep : exec g s f x = some (s', fs)) {r : Invocation} {pc : RunPc}
    (hMem : .run r pc ∈ fs) : Informed g s' r pc := by
  rcases run_of_exec hStep hMem with ⟨r₀, pc₀, t, rfl, hTurn, rfl, hNext⟩ |
    ⟨q, it, queue, -, -, -, rfl, rfl⟩
  · have hKeep : Informed g t.state r₀ pc₀ := by
      refine (hFinalizing.informed r₀ pc₀ mem_running).mono (fun u hIn hDone => ?_)
        (exec_closes hStep)
      exact exec_isDone hGuard hStep hDone
        (Or.inr ⟨r₀, pc₀, mem_running, (Graph.owner_of_mem hIn).symm⟩)
    obtain ⟨hQueue, -, -, -⟩ := hPlaced.run r₀ pc₀ mem_running
    have hSelf := hFinalizing.agreed r₀.node
    refine runStep_informed hTurn hNext hKeep ?_ ?_
    · rintro status writes rfl rfl hStop hNode
      simp only [finalizesAlone, hStop, hNode, Bool.not_true, Bool.false_or,
        Bool.and_eq_true] at hGuard
      refine ⟨hGuard.1, ?_⟩
      cases hTurn
      simp [closes, stopped, Shared.record, hStop]
    · rintro rfl hNode hClose
      obtain ⟨hPending, hFinal⟩ := decideFinalize_kClose hClose
      have hMarks : r₀.node ∈ (s.queues (g.queue r₀.node)).closePending ∧
          closes g t.state r₀.node = true := by
        rw [← hQueue]
        refine ⟨hPending, ?_⟩
        cases hTurn
        simp [closes, finalized, SchedulerQueue.isFinalized, ← hQueue, hFinal]
      have hNoted : noted g s r₀.node = true := noted_iff.mpr (Or.inl (Or.inl hMarks.1))
      have hAgreed := hSelf hNode hNoted (.run r₀ (.decide true)) mem_running
      exact ⟨Frame.agrees_of_undecided hAgreed rfl rfl, hMarks.2⟩
  · exact .of_popped ⟨[], rfl, .nil⟩ rfl rfl

theorem Finalizing.exec (hPlaced : Placed g s (A ++ f :: B))
    (hFinalizing : Finalizing g s (A ++ f :: B))
    (hGuard : (finalizesAlone g).exec s (A ++ B) f x = true)
    (hStep : exec g s f x = some (s', fs)) : Finalizing g s' (A ++ (fs ++ B)) := by
  have hInformed : ∀ r pc, .run r pc ∈ A ++ (fs ++ B) → Informed g s' r pc := by
    intro r pc hMem
    have hOld : .run r pc ∈ A ++ f :: B → Informed g s' r pc := by
      intro hIn
      refine (hFinalizing.informed r pc hIn).mono (fun t hPort hDone => ?_) (exec_closes hStep)
      exact exec_isDone hGuard hStep hDone
        (Or.inr ⟨r, pc, hIn, (Graph.owner_of_mem hPort).symm⟩)
    rcases mem_after hMem with hNew | hBefore
    · exact exec_informed hPlaced hFinalizing hGuard hStep hNew
    · exact hOld hBefore
  -- in which state a node is found done, and by whom
  have hFound : ∀ n, g.isSource n = false → noted g s' n = true →
      (∀ t ∈ g.inputs n, (s'.stream t).isDone = true) ∧
        (∀ f' ∈ A ++ B, f'.agrees n = true) ∧ ∀ f' ∈ fs, f'.agrees n = true := by
    intro n hNode hNoted
    have hOfDone : (∀ t ∈ g.inputs n, (s.stream t).isDone = true) →
        (noted g s n = true ∨ ∃ r pc, .run r pc ∈ A ++ f :: B ∧ r.node = n) →
        ∀ t ∈ g.inputs n, (s'.stream t).isDone = true := by
      intro hDone hHeld t hMem
      refine exec_isDone hGuard hStep (hDone t hMem) ?_
      rwa [Graph.owner_of_mem hMem]
    by_cases hBefore : noted g s n = true
    · have hDone := hFinalizing.done n hNode hBefore
      have hAll := hFinalizing.agreed n hNode hBefore
      exact ⟨hOfDone hDone (Or.inl hBefore), fun f' hMem => hAll f' (mem_of_others hMem),
        exec_agrees hPlaced (hAll f mem_running) hDone hStep⟩
    · rcases noted_cases hStep hNoted with hOld | ⟨r, rfl, rfl⟩ | ⟨r, status, writes, rfl, rfl, rfl, hStop⟩
      · exact absurd hOld hBefore
      · -- the first decision
        have hDone : ∀ t ∈ g.inputs r.node, (s.stream t).isDone = true := fun t hMem =>
          ((hFinalizing.informed r (.decide true) (by simp)).scanned [] rfl t hMem).resolve_left
            List.not_mem_nil
        simp only [finalizesAlone, Bool.or_eq_true, List.all_eq_true] at hGuard
        refine ⟨hOfDone hDone (Or.inr ⟨r, .decide true, by simp, rfl⟩),
          hGuard.resolve_left hBefore, ?_⟩
        cases hStep
        simp [Frame.agrees, RunPc.undecided]
      · -- the first stop
        simp only [finalizesAlone, hStop, hNode, Bool.not_true, Bool.false_or,
          Bool.and_eq_true, List.all_eq_true] at hGuard
        obtain ⟨hSees, hOthers⟩ := hGuard
        obtain ⟨-, hDone⟩ := (hFinalizing.informed r .inProcess (by simp)).isDone rfl hSees
        refine ⟨hOfDone hDone (Or.inr ⟨r, .inProcess, by simp, rfl⟩), hOthers,
          exec_agrees hPlaced (by simp [Frame.agrees, hSees]) hDone hStep⟩
  refine ⟨hInformed, fun n hNode hNoted => (hFound n hNode hNoted).1, fun n hNode hNoted => ?_⟩
  obtain ⟨-, hOthers, hNew⟩ := hFound n hNode hNoted
  intro f' hMem
  rcases mem_new_or_others hMem with hFs | hOther
  · exact hNew f' hFs
  · exact hOthers f' hOther

theorem Finalizing.spawn {b : Call} (hFinalizing : Finalizing g s A)
    (hSpawn : Scheduler.spawn g s b = some (s', fs)) : Finalizing g s' (A ++ fs) := by
  have hBefore : ∀ r pc, .run r pc ∈ A ++ fs → .run r pc ∈ A := fun r pc hMem =>
    mem_of_spawn hSpawn hMem (by simp) (by simp)
  obtain ⟨tasks, rfl, hNew⟩ := spawn_frame hSpawn
  refine ⟨fun r pc hMem => ?_, hFinalizing.done, fun n hNode hNoted f hMem => ?_⟩
  · exact (hFinalizing.informed r pc (hBefore r pc hMem)).mono (fun _ _ hDone => hDone) id
  · rcases List.mem_append.mp hMem with hOld | hFrame
    · exact hFinalizing.agreed n hNode hNoted f hOld
    · rcases hNew _ hFrame with ⟨q, rfl⟩ | ⟨pc', rfl⟩ <;> rfl

theorem finalizing_of_reaches {outputs : OutId → OutputStreamManager} {defaultQueue : QueueId}
    {errorCallback : Bool} {c : Config Shared Frame}
    (hReach : (machine g).Reaches (finalizesAlone g)
      (started (initial outputs defaultQueue errorCallback)) c) :
    Finalizing g c.shared c.frames := by
  refine Machine.invariant_with (J := Placed g) (I := Finalizing g)
    (fun c hReach => placed_of_reaches hReach) ?_ ?_ ?_ hReach
  · refine ⟨by simp [Config.frames, started], fun n _ hNoted => ?_, fun n _ hNoted => ?_⟩
    all_goals
      exact absurd hNoted (by
        simp [started, initial, noted, closes, finalized, SchedulerQueue.isFinalized, stopped])
  · intro s A f B x s' fs hPlaced hFinalizing hGuard hStep
    exact hFinalizing.exec hPlaced hGuard hStep
  · intro s A b s' fs _ hFinalizing _ hSpawn
    exact hFinalizing.spawn hSpawn

/-- **Outputs close only after the finalize run.**  A `RunNode` call that is in
`OutputStreamHandler::Close` of a node with inputs has itself seen all inputs
done, and they are done and empty; and once the decision to close has been taken
no invocation that has consumed a packet is under way, so nothing it writes is
dropped. -/
theorem outputs_close_after_finalize {outputs : OutId → OutputStreamManager}
    {defaultQueue : QueueId} {errorCallback : Bool} {c : Config Shared Frame}
    (hReach : (machine g).Reaches (finalizesAlone g)
      (started (initial outputs defaultQueue errorCallback)) c)
    (n : NodeId) (hNode : g.isSource n = false) :
    (∀ r rest stop, .run r (.closeOutputs rest stop) ∈ c.frames → r.node = n →
      closes g c.shared n = true ∧ r.observesDone g ∧
        ∀ t ∈ g.inputs n, (c.shared.stream t).isDone = true) ∧
    (closes g c.shared n = true → ∀ r pc, .run r pc ∈ c.frames → r.node = n →
      pc.undecided = true → ∀ shard ∈ r.inputs, shard.packet = none) := by
  have hFinalizing := finalizing_of_reaches hReach
  constructor
  · rintro r rest stop hMem rfl
    have hInformed := hFinalizing.informed r _ hMem
    obtain ⟨hSees, hCloses⟩ := hInformed.closing rfl hNode
    exact ⟨hCloses, hInformed.isDone rfl hSees⟩
  · intro hCloses r pc hMem hIs hUndecided
    have hNoted : noted g c.shared n = true := by simp [noted, hCloses]
    have hSees := Frame.agrees_of_undecided (hFinalizing.agreed n hNode hNoted _ hMem) hIs
      hUndecided
    obtain ⟨ports, -, hShows⟩ := (hFinalizing.informed r pc hMem).popped
    exact (shows_done hShows (List.all_eq_true.mp hSees)).2.2

/-- In `OutputStreamHandler::Close` for the node. -/
def Frame.closesOutputs (n : NodeId) : Frame → Bool
  | .run r (.closeOutputs _ _) => decide (r.node = n)
  | _ => false

theorem Frame.closesOutputs_eq {n : NodeId} (hCloses : Frame.closesOutputs n f = true) :
    ∃ r rest stop, f = .run r (.closeOutputs rest stop) ∧ r.node = n := by
  unfold Frame.closesOutputs at hCloses
  split at hCloses
  · exact ⟨_, _, _, rfl, of_decide_eq_true hCloses⟩
  · exact absurd hCloses Bool.false_ne_true

/-- The rule at work: the second invocation of a node whose input is closed. -/
theorem outputs_close_after_finalize_chain :
    ∃ (c : Config Shared Frame) (r : Invocation) (rest : List OutId) (stop : Bool),
      .run r (.closeOutputs rest stop) ∈ c.frames ∧
      r.observesDone (.chain 1 id (by simp)) ∧ (c.shared.stream 0).isDone = true := by
  obtain ⟨c, hReach, hTest⟩ := (machine (.chain 1 id (by simp))).exists_reaches
    (finalizesAlone (.chain 1 id (by simp))) (started (chainInitial 1 false))
    (runs 0 19 .ok ++ calls (.closeInputStream "in") 1 16 .ok ++ calls (.worker 0) 2 30 .ok ++
      calls (.worker 0) 3 14 .ok)
    (fun c => c.frames.any (Frame.closesOutputs 0)) (by decide +kernel)
  obtain ⟨f, hMem, hIs⟩ := List.any_eq_true.mp hTest
  obtain ⟨r, rest, stop, rfl, hNode⟩ := Frame.closesOutputs_eq hIs
  have hClosing := (outputs_close_after_finalize hReach 0 rfl).1 r rest stop hMem hNode
  exact ⟨c, r, rest, stop, hMem, hClosing.2.1, hClosing.2.2 0 (by simp [Graph.inputs, Graph.chain])⟩

/-- In `OutputStreamHandler::Close`, though some input was not seen done. -/
def Frame.closesEarly : Frame → Bool
  | .run r (.closeOutputs _ _) => !r.seesDone
  | _ => false

/-- In `Process` with a packet, and with an output that drops what is written. -/
def Frame.writesInVain (port : String) : Frame → Bool
  | .run r .inProcess => (r.inputs.any fun shard => shard.packet.isSome) &&
      (r.outputs port).closed
  | _ => false

/-- A chain of one node, two invocations of which may be in flight. -/
def Graph.twoInFlight : Graph := { Graph.chain 1 id id_lt_one with maxInFlight := fun _ => 2 }

/-- **Outputs can close too early.**  The node returns `Stop` on the first of two
packets: its outputs are closed with the second still buffered, and the invocation
that consumes it writes to a closed shard.  And with two invocations in flight when
the input is closed, the second to finish closes the outputs, with the finalize run
still waiting in the queue. -/
theorem closes_too_early :
    (∃ c : Config Shared Frame,
      (machine (.chain 1 id (by simp))).Reaches Guard.all (started (chainInitial 1 false)) c ∧
      c.frames.any Frame.closesEarly = true ∧ (c.shared.stream 0).isEmpty = false) ∧
    (∃ c : Config Shared Frame,
      (machine (.chain 1 id (by simp))).Reaches Guard.all (started (chainInitial 1 false)) c ∧
      c.frames.any (Frame.writesInVain "out") = true) ∧
    ∃ c : Config Shared Frame,
      (machine .twoInFlight).Reaches Guard.all (started (chainInitial 1 false)) c ∧
      c.frames.any Frame.closesEarly = true ∧ (c.shared.queues 0).items.length = 1 := by
  refine ⟨?_, ?_, ?_⟩
  · obtain ⟨c, hReach, hTest⟩ := (machine (.chain 1 id (by simp))).exists_reaches
      Guard.all (started (chainInitial 1 false))
      (runs 0 19 .ok ++
        calls (.addPacketToInputStream "in" ⟨some 1, Timestamp.ofValue 0⟩) 1 14 .ok ++
        calls (.addPacketToInputStream "in" ⟨some 2, Timestamp.ofValue 1⟩) 2 11 .ok ++
        calls (.worker 0) 3 9 (.returns Status.statusStop []))
      (fun c => c.frames.any Frame.closesEarly && !(c.shared.stream 0).isEmpty)
      (by decide +kernel)
    simp only [Bool.and_eq_true, Bool.not_eq_true'] at hTest
    exact ⟨c, hReach, hTest⟩
  · exact (machine (.chain 1 id (by simp))).exists_reaches
      Guard.all (started (chainInitial 1 false))
      (runs 0 19 .ok ++
        calls (.addPacketToInputStream "in" ⟨some 1, Timestamp.ofValue 0⟩) 1 14 .ok ++
        calls (.addPacketToInputStream "in" ⟨some 2, Timestamp.ofValue 1⟩) 2 11 .ok ++
        calls (.worker 0) 3 37 (.returns Status.statusStop []) ++ calls (.worker 0) 4 5 .ok)
      (fun c => c.frames.any (Frame.writesInVain "out")) (by decide +kernel)
  · obtain ⟨c, hReach, hTest⟩ := (machine .twoInFlight).exists_reaches
      Guard.all (started (chainInitial 1 false))
      (runs 0 19 .ok ++
        calls (.addPacketToInputStream "in" ⟨some 1, Timestamp.ofValue 0⟩) 1 14 .ok ++
        calls (.worker 0) 2 5 .ok ++
        calls (.addPacketToInputStream "in" ⟨some 2, Timestamp.ofValue 1⟩) 3 14 .ok ++
        calls (.worker 0) 4 5 .ok ++ calls (.closeInputStream "in") 5 14 .ok ++
        runs 2 9 .ok ++ runs 4 9 .ok)
      (fun c => c.frames.any Frame.closesEarly &&
        decide ((c.shared.queues 0).items.length = 1)) (by decide +kernel)
    simp only [Bool.and_eq_true, decide_eq_true_eq] at hTest
    exact ⟨c, hReach, hTest⟩

end GraphRuntime.Scheduler
