import GraphRuntime.Scheduler.Accounting

/-!
# No lost wakeup

`AddNode` silently drops a request when the node is at its `MaxInFlight`
limit.  That is harmless as long as whoever keeps the node at its limit still
has to look at what the request was about.  `Awake` says so for the two things
a request can be about:

* a stream that holds a packet is *covered*: there is an item for its node, or
  an arrival callback about to run, or a `RunNode` call that has not tested
  that stream with `HasPendingInput` yet;
* a node whose inputs are all done and which is not finalized is covered by an
  item, an arrival callback, or a `RunNode` call that still comes to the
  finalize decision or to the end of the safety net.

Each step hands the cover on (`Awake.exec`); the two places where `AddNode`
gives up are closed by `exists_work`.  In a state without items, arrival
callbacks and `RunNode` calls of a node nothing covers, hence
`no_lost_wakeup`.
-/

namespace GraphRuntime.Scheduler

open GraphRuntime.Stream Interleaving

variable {g : Graph} {s s' : Shared} {f : Frame} {fs A B : List Frame}
  {x : Choice}

/-! ## The runs considered -/

/-- Not on the stop path and not on the error path. -/
def RunPc.onOkPath : RunPc → Bool
  | .postProcess _ status => status.isOk
  | .closeOutputs _ stopped => !stopped
  | .stopDecrement | .stopScan _ | .stopReAdd | .stopNotify
  | .errorDecrement _ | .errorReport _ => false
  | _ => true

/-- A step that writes an input manager finds its node assigned. -/
def writesAssigned (g : Graph) (s : Shared) (p : Propagation) : Bool :=
  match target g p with
  | none => true
  | some t => s.assigned (g.owner t)

/-- Non-source nodes return OK, streams are written once their node has been
assigned, and no queue is cleaned up (`CleanupAfterRun` stops the queue). -/
def wakeupGuard (g : Graph) : Guard Shared Frame Choice Call where
  exec := fun s _ f x =>
    match f, x with
    | .run r .inProcess, .returns status _ => g.isSource r.node || status.isOk
    | .propagate p, _ | .propagateBound p, _ => writesAssigned g s p
    | .cleanupAfterRun _, _ => false
    | _, _ => true
  spawn := fun _ _ _ => true

structure Calm (g : Graph) (s : Shared) (fs : List Frame) : Prop where
  run : ∀ r pc, .run r pc ∈ fs → g.isSource r.node = false → pc.onOkPath = true
  arrival : ∀ n, .arrival n ∈ fs → s.assigned n = true

theorem afterProcess_onOkPath (n : NodeId) {status : Status}
    (hOk : status.isOk = true) : (afterProcess g n status).onOkPath = true := by
  have hStop := Status.isStopStatus_of_isOk hOk
  unfold afterProcess
  rw [hStop, hOk]
  simp only [Bool.false_eq_true, if_false, Bool.not_true]
  split <;> rfl

/-- A call stays on the OK path as long as `Process` returns OK. -/
theorem runStep_onOkPath {r r' : Invocation} {pc pc' : RunPc}
    {t : Turn (Invocation × RunPc)} (hTurn : runStep g s r x pc = some t)
    (hNext : t.next = some (r', pc'))
    (hProcess : ∀ status writes, pc = .inProcess → x = .returns status writes →
      status.isOk = true)
    (hOk : pc.onOkPath = true) : pc'.onOkPath = true := by
  revert hTurn
  fun_cases runStep g s r x pc
  case case9 status writes =>
    intro hTurn
    cases hTurn
    cases hNext
    exact hProcess status writes rfl rfl
  case case12 status =>
    intro hTurn
    cases hTurn
    cases hNext
    exact afterProcess_onOkPath r.node hOk
  case case14 stopped =>
    intro hTurn
    cases hTurn
    cases hNext
    cases stopped
    · rfl
    · exact absurd hOk (by simp [RunPc.onOkPath])
  all_goals
    intro hTurn
    cases hTurn <;> cases hNext
  all_goals first
    | rfl
    | exact hOk
    | (unfold afterAct; split <;> rfl)
    | (split <;> rfl)
    | exact absurd hOk (by simp [RunPc.onOkPath])

theorem Calm.exec (hCalm : Calm g s (A ++ f :: B))
    (hGuard : (wakeupGuard g).exec s (A ++ B) f x = true)
    (hStep : exec g s f x = some (s', fs)) : Calm g s' (A ++ (fs ++ B)) := by
  constructor
  · intro r pc hMem hSource
    rcases mem_after hMem with hNew | hOld
    · rcases run_of_exec hStep hNew with ⟨r₀, pc₀, t, rfl, hTurn, -, hNext⟩ |
        ⟨q, it, queue, rfl, -, -, rfl, rfl⟩
      · have hNode := (runStep_next hTurn hNext).2.1
        rw [hNode] at hSource
        refine runStep_onOkPath hTurn hNext ?_ (hCalm.run r₀ pc₀ mem_running hSource)
        intro status writes hPc hChoice
        subst hPc hChoice
        simpa [wakeupGuard, hSource] using hGuard
      · rfl
    · exact hCalm.run r pc hOld hSource
  · intro n hMem
    rcases mem_after hMem with hNew | hOld
    · obtain ⟨p, t, hTop, hTarget, rfl⟩ := exec_arrival hStep hNew
      refine exec_assigned hStep ?_
      rcases hTop with rfl | rfl
      · simpa [wakeupGuard, writesAssigned, hTarget] using hGuard
      · simpa [wakeupGuard, writesAssigned, hTarget] using hGuard
    · exact exec_assigned hStep (hCalm.arrival n hOld)

/-! ## Covers -/

/-- A frame that stands for a request about node `n`: an arrival callback, or a
`RunNode` call at a point in `P`. -/
def Frame.covers (P : RunPc → Prop) (n : NodeId) : Frame → Prop
  | .arrival m => m = n
  | .run r pc => r.node = n ∧ P pc
  | _ => False

/-- A request about node `n` is taken care of. -/
def Cover (g : Graph) (P : RunPc → Prop) (n : NodeId) (s : Shared)
    (fs : List Frame) : Prop :=
  g.item n ∈ (s.queues (g.queue n)).items ∨ Covered (Frame.covers P n) fs

/-- An item leaves its queue only as a `RunNode` call. -/
theorem exec_item {n : NodeId} (hPlaced : Placed g s (A ++ f :: B))
    (hCleanup : ∀ q, f = .cleanupAfterRun q → (s.queues q).items = [])
    (hStep : exec g s f x = some (s', fs))
    (hItem : g.item n ∈ (s.queues (g.queue n)).items) :
    g.item n ∈ (s'.queues (g.queue n)).items ∨
      ∃ r, .run r (.popInputs (g.inputPorts n)) ∈ fs ∧ r.node = n := by
  have hChange := exec_queue (g.queue n) hStep
  generalize s'.queues (g.queue n) = queue at hChange ⊢
  cases hChange with
  | pushed _ _ m _ _ _ =>
      left
      simp [SchedulerQueue.push, hItem]
  | popped it hMem =>
      by_cases hEq : it = g.item n
      · subst hEq
        exact Or.inr ⟨_, List.mem_cons_self, rfl⟩
      · left
        exact (List.mem_erase_of_ne (Ne.symm hEq)).mpr hItem
  | cleaned => simp [hCleanup _ rfl] at hItem
  | decided _ r b _ =>
      left
      rwa [decideFinalize_items]
  | same | submitted | dropped | finished | running | counted | wired =>
      exact Or.inl hItem

/-- **`AddNode` covers**: when it gives up, an item or an unfinished call
covers. -/
theorem schedule_cover {P : RunPc → Prop} {n : NodeId}
    (hAccounted : Accounted g s (A ++ f :: B))
    (hHolds : ∀ r pc, .run r pc ∈ A ++ f :: B → r.node = n →
      pc.holdsPending = true → P pc)
    (hLimit : 1 ≤ g.maxInFlight n) (hAssigned : s.assigned n = true)
    (hTop : f.holdsPending n = false) (hState : s' = (scheduleNode g s n).1) :
    Cover g P n s' (A ++ (fs ++ B)) := by
  rcases scheduleNode_cases g s n with ⟨hGaveUp, hNone⟩ | ⟨-, -, hPushed, -⟩
  · have hFull : g.maxInFlight n ≤ s.pendingCount n := by
      rcases hGaveUp with hNot | hFull
      · exact absurd hAssigned (by simp [hNot])
      · exact hFull
    rw [hState, hNone]
    rcases exists_work hAccounted hLimit hFull with hItem | ⟨r, pc, hMem, hNode, hPc⟩
    · exact Or.inl hItem
    · right
      refine ⟨.run r pc, mem_of_before fs hMem ?_, hNode, hHolds r pc hMem hNode hPc⟩
      rintro rfl
      exact absurd hTop (by simp [Frame.holdsPending, hNode, hPc])
  · left
    rw [hState, hPushed]
    simp [SchedulerQueue.push]

/-- **Cover step.**  What covers a request is replaced by something that covers
it, if a `RunNode` call at a point in `P` stays in `P` or calls `AddNode`. -/
theorem Cover.exec {P : RunPc → Prop} {n : NodeId}
    (hCover : Cover g P n s (A ++ f :: B))
    (hPlaced : Placed g s (A ++ f :: B)) (hAccounted : Accounted g s (A ++ f :: B))
    (hCleanup : ∀ q, f = .cleanupAfterRun q → (s.queues q).items = [])
    (hLimit : 1 ≤ g.maxInFlight n)
    (hArrival : .arrival n ∈ A ++ f :: B → s.assigned n = true)
    (hPop : ∀ rest, P (.popInputs rest))
    (hHolds : ∀ r pc, .run r pc ∈ A ++ f :: B → r.node = n →
      pc.holdsPending = true → P pc)
    (hHand : ∀ r pc t, f = .run r pc → r.node = n → P pc →
      runStep g s r x pc = some t →
      (∃ p, t.next = some p ∧ P p.2) ∨
        (t.state = (scheduleNode g s n).1 ∧ pc.holdsPending = false))
    (hStep : Scheduler.exec g s f x = some (s', fs)) :
    Cover g P n s' (A ++ (fs ++ B)) := by
  rcases hCover with hItem | ⟨f', hMem, hCovers⟩
  · rcases exec_item hPlaced hCleanup hStep hItem with hKept | ⟨r, hRun, hNode⟩
    · exact Or.inl hKept
    · exact Or.inr ⟨_, List.mem_append_right A (List.mem_append_left B hRun), hNode, hPop _⟩
  · by_cases hOther : f' ≠ f
    · exact Or.inr ⟨f', mem_of_before fs hMem hOther, hCovers⟩
    · obtain rfl : f' = f := not_not.mp hOther
      cases f' with
      | arrival m =>
          obtain rfl : m = n := hCovers
          have hState : s' = (scheduleNode g s m).1 :=
            (congrArg Prod.fst (Option.some.inj hStep)).symm
          exact schedule_cover hAccounted hHolds hLimit (hArrival hMem) rfl hState
      | run r pc =>
          obtain ⟨hNode, hPc⟩ := hCovers
          obtain ⟨t, hTurn, rfl, rfl⟩ := exec_run hStep
          rcases hHand r pc t rfl hNode hPc hTurn with ⟨p, hNext, hP⟩ | ⟨hState, hHeld⟩
          · right
            refine ⟨runFrame p, by simp [hNext], ?_, hP⟩
            exact (runStep_next hTurn hNext).2.1.trans hNode
          · have hAssigned : s.assigned n = true :=
              hNode ▸ (hPlaced.run r pc hMem).2.2.1
            exact schedule_cover hAccounted hHolds hLimit hAssigned
              (by simp [Frame.holdsPending, hHeld]) hState
      | _ => exact hCovers.elim

/-! ## The two requests -/

/-- The call still tests stream `t` for packets, or schedules its node. -/
def RunPc.Drains (t : StreamId) : RunPc → Prop
  | .pendingScan _ rest => t ∈ rest
  | .act _ | .reAdd _ => True
  | .closeOutputs _ _ => True
  | pc => pc.holdsPending = true

/-- The call still comes to the finalize decision, to the run that decision
asked for, or to the end of the safety net. -/
def RunPc.Observes : RunPc → Prop
  | .pendingScan action _ | .reAdd action | .safetyCheck action =>
      action ≠ .kSchedule
  | .act _ | .closeOutputs _ _ | .safetyScan _ | .safetyAdd => True
  | pc => pc.holdsPending = true

theorem RunPc.drains_of_holdsPending {pc : RunPc} (t : StreamId)
    (hHolds : pc.holdsPending = true) : pc.Drains t := by
  cases pc <;> first | exact True.intro | exact hHolds | simp [holdsPending] at hHolds

theorem RunPc.observes_of_holdsPending {pc : RunPc}
    (hHolds : pc.holdsPending = true) : pc.Observes := by
  cases pc <;> first | exact True.intro | exact hHolds | simp [holdsPending] at hHolds

theorem Graph.isSource_of_mem {n : NodeId} {t : StreamId} (hMem : t ∈ g.inputs n) :
    g.isSource n = false := by
  unfold Graph.isSource
  cases hPorts : g.inputPorts n with
  | nil => simp [Graph.inputs, hPorts] at hMem
  | cons => rfl

theorem afterAct_of_not_source {n : NodeId} (hSource : g.isSource n = false)
    (action : FinalizeAction) : afterAct g n action = .pendingScan action (g.inputs n) := by
  simp [afterAct, hSource]

/-- Not on the error path. -/
def RunPc.offErrorPath : RunPc → Bool
  | .postProcess _ status => status.isOk || status.isStopStatus
  | .errorDecrement _ | .errorReport _ => false
  | _ => true

/-- On the stop path the call tests the streams, too. -/
def RunPc.Rescans (t : StreamId) : RunPc → Prop
  | .pendingScan _ rest | .stopScan rest => t ∈ rest
  | .act _ | .reAdd _ | .stopReAdd => True
  | .closeOutputs _ _ => True
  | pc => pc.holdsPending = true

theorem RunPc.rescans_of_holdsPending {pc : RunPc} (t : StreamId)
    (hHolds : pc.holdsPending = true) : pc.Rescans t := by
  cases pc <;> first | exact True.intro | exact hHolds | simp [holdsPending] at hHolds

/-- A call that owes a test of a non-empty stream keeps owing it until it
schedules its node. -/
theorem runStep_rescans {r : Invocation} {pc : RunPc} {t : StreamId}
    {u : Turn (Invocation × RunPc)} (hMem : t ∈ g.inputs r.node)
    (hOpen : r.isOpen = false) (hPlaced : pc.Placed g r.node)
    (hOff : pc.offErrorPath = true) (hFilled : (s.stream t).isEmpty = false)
    (hRescans : pc.Rescans t) (hTurn : runStep g s r x pc = some u) :
    (∃ p, u.next = some p ∧ p.2.Rescans t) ∨
      (u.state = (scheduleNode g s r.node).1 ∧ pc.holdsPending = false) := by
  have hSource : g.isSource r.node = false := Graph.isSource_of_mem hMem
  have hPast : ∀ {u : StreamId} {rest : List StreamId}, t ∈ u :: rest →
      (s.stream u).isEmpty = true → t ∈ rest := by
    intro u rest hIn hEmpty
    refine List.mem_of_ne_of_mem ?_ hIn
    rintro rfl
    exact absurd hEmpty (by simp [hFilled])
  revert hTurn
  fun_cases runStep g s r x pc
  case case2 hIsOpen => exact absurd hIsOpen (by simp [hOpen])
  case case5 => exact hPlaced.elim
  case case12 status =>
    intro hTurn
    cases hTurn
    exact Or.inl ⟨_, rfl, RunPc.rescans_of_holdsPending t (afterProcess_holdsPending _ _)⟩
  case case14 stopped =>
    intro hTurn
    cases hTurn
    cases stopped with
    | false => exact Or.inl ⟨_, rfl, hMem⟩
    | true => exact Or.inl ⟨_, rfl, rfl⟩
  case case15 =>
    intro hTurn
    cases hTurn
    refine Or.inl ⟨_, rfl, ?_⟩
    rw [hSource]
    exact hMem
  case case16 u rest =>
    intro hTurn
    cases hTurn
    refine Or.inl ⟨_, rfl, ?_⟩
    by_cases hEmpty : (s.stream u).isEmpty = true
    · rw [if_pos hEmpty]
      exact hPast hRescans hEmpty
    · rw [if_neg hEmpty]
      exact True.intro
  case case17 => exact absurd hRescans List.not_mem_nil
  case case22 u rest =>
    intro hTurn
    cases hTurn
    refine Or.inl ⟨_, rfl, ?_⟩
    split <;> rfl
  case case28 =>
    intro hTurn
    cases hTurn
    refine Or.inl ⟨_, rfl, ?_⟩
    rw [afterAct_of_not_source hSource]
    exact hMem
  case case29 action u rest =>
    intro hTurn
    cases hTurn
    refine Or.inl ⟨_, rfl, ?_⟩
    by_cases hEmpty : (s.stream u).isEmpty = true
    · rw [if_pos hEmpty]
      exact hPast hRescans hEmpty
    · rw [if_neg hEmpty]
      exact True.intro
  case case30 => exact absurd hRescans List.not_mem_nil
  all_goals intro hTurn; cases hTurn
  all_goals first
    | exact Or.inl ⟨_, rfl, rfl⟩
    | exact Or.inl ⟨_, rfl, True.intro⟩
    | exact Or.inr ⟨rfl, rfl⟩
    | exact absurd hOff Bool.false_ne_true
    | exact absurd hRescans Bool.false_ne_true

/-- A call on the OK path does not come to the scan of the stop path. -/
theorem RunPc.drains_iff {pc : RunPc} (t : StreamId) :
    pc.Drains t ↔ pc.Rescans t ∧ (∀ rest, pc ≠ .stopScan rest) ∧ pc ≠ .stopReAdd := by
  cases pc <;> simp [Drains, Rescans, holdsPending]

theorem runStep_drains {r : Invocation} {pc : RunPc} {t : StreamId}
    {u : Turn (Invocation × RunPc)} (hMem : t ∈ g.inputs r.node)
    (hOpen : r.isOpen = false) (hPlaced : pc.Placed g r.node)
    (hOk : pc.onOkPath = true) (hFilled : (s.stream t).isEmpty = false)
    (hDrains : pc.Drains t) (hTurn : runStep g s r x pc = some u) :
    (∃ p, u.next = some p ∧ p.2.Drains t) ∨
      (u.state = (scheduleNode g s r.node).1 ∧ pc.holdsPending = false) := by
  have hOff : pc.offErrorPath = true := by
    cases pc <;> simp_all [RunPc.onOkPath, RunPc.offErrorPath]
  have hRescans := ((RunPc.drains_iff t).mp hDrains).1
  rcases runStep_rescans hMem hOpen hPlaced hOff hFilled hRescans hTurn with
    ⟨p, hNext, hP⟩ | hScheduled
  · left
    refine ⟨p, hNext, (RunPc.drains_iff t).mpr ⟨hP, ?_⟩⟩
    revert hTurn
    fun_cases runStep g s r x pc
    all_goals
      intro hTurn
      cases hTurn <;> cases hNext
    all_goals try unfold afterProcess
    all_goals try unfold afterAct
    all_goals repeat' split
    all_goals first
      | exact absurd hOk Bool.false_ne_true
      | exact ⟨by simp, by simp⟩
  · exact Or.inr hScheduled

/-- A call that owes an observation of done inputs keeps owing it until the
node is finalized or scheduled. -/
theorem runStep_observes {r : Invocation} {pc : RunPc}
    {u : Turn (Invocation × RunPc)} (hSource : g.isSource r.node = false)
    (hOpen : r.isOpen = false) (hPlaced : pc.Placed g r.node)
    (hOk : pc.onOkPath = true)
    (hDone : ∀ t ∈ g.inputs r.node, (s.stream t).isDone = true)
    (hFinal : (s.queues r.queue).isFinalized r.node = false)
    (hObserves : pc.Observes) (hTurn : runStep g s r x pc = some u) :
    (∃ p, u.next = some p ∧ p.2.Observes) ∨
      (u.state = (scheduleNode g s r.node).1 ∧ pc.holdsPending = false) := by
  revert hTurn
  fun_cases runStep g s r x pc
  case case2 hIsOpen => exact absurd hIsOpen (by simp [hOpen])
  case case5 => exact hPlaced.elim
  case case12 status =>
    intro hTurn
    cases hTurn
    exact Or.inl ⟨_, rfl, RunPc.observes_of_holdsPending (afterProcess_holdsPending _ _)⟩
  case case14 stopped =>
    intro hTurn
    cases hTurn
    cases stopped with
    | false => exact Or.inl ⟨_, rfl, by simp [RunPc.Observes]⟩
    | true => exact absurd hOk Bool.false_ne_true
  case case22 u rest =>
    intro hTurn
    cases hTurn
    refine Or.inl ⟨_, rfl, ?_⟩
    split <;> rfl
  case case28 =>
    intro hTurn
    cases hTurn
    refine Or.inl ⟨_, rfl, ?_⟩
    rw [afterAct_of_not_source hSource]
    simp [RunPc.Observes]
  case case29 action u rest =>
    intro hTurn
    cases hTurn
    refine Or.inl ⟨_, rfl, ?_⟩
    split
    · exact hObserves
    · exact hObserves
  case case33 action =>
    intro hTurn
    cases hTurn
    refine Or.inl ⟨_, rfl, ?_⟩
    have hAction : action ≠ .kSchedule := hObserves
    simp [hAction, hFinal, RunPc.Observes]
  case case34 u rest =>
    intro hTurn
    cases hTurn
    refine Or.inl ⟨_, rfl, ?_⟩
    rw [if_pos (hDone u (hPlaced u List.mem_cons_self))]
    exact True.intro
  all_goals intro hTurn; cases hTurn
  all_goals first
    | exact Or.inl ⟨_, rfl, rfl⟩
    | exact Or.inl ⟨_, rfl, True.intro⟩
    | exact Or.inl ⟨_, rfl, hObserves⟩
    | exact Or.inr ⟨rfl, rfl⟩
    | exact absurd hOk Bool.false_ne_true
    | exact absurd hObserves Bool.false_ne_true

/-! ## The invariant -/

structure Awake (g : Graph) (s : Shared) (fs : List Frame) : Prop where
  pending : ∀ n, 1 ≤ g.maxInFlight n → ∀ t ∈ g.inputs n,
    (s.stream t).isEmpty = false → Cover g (RunPc.Drains t) n s fs
  finalize : ∀ n, 1 ≤ g.maxInFlight n → g.isSource n = false →
    (∀ t ∈ g.inputs n, (s.stream t).isDone = true) → finalized g s n = false →
    Cover g RunPc.Observes n s fs

/-- A stream that a step fills gets its packets from a propagation, and its node
an arrival callback. -/
theorem exec_filled {t : StreamId} (hStep : exec g s f x = some (s', fs))
    (hEmpty : (s.stream t).isEmpty = true) (hFilled : (s'.stream t).isEmpty = false) :
    (∃ p, f = .propagate p ∧ p.packets ≠ [] ∧ target g p = some t) ∧
      .arrival (g.owner t) ∈ fs := by
  have hQueue : (s.stream t).queue = [] := InputStreamManager.isEmpty_iff.mp hEmpty
  have hChange := exec_stream t hStep
  generalize s'.stream t = m at hChange hFilled
  cases hChange with
  | same => exact absurd hEmpty (by simp [hFilled])
  | popped => simp [InputStreamManager.isEmpty, hQueue] at hFilled
  | added p _ hTarget hPackets hArrival =>
      have hNotify := InputStreamManager.notify_of_addPackets hQueue
        (by simpa [InputStreamManager.isEmpty] using hFilled)
      exact ⟨⟨p, rfl, hPackets, hTarget⟩, hArrival hNotify⟩
  | bounded => simp [InputStreamManager.isEmpty, hQueue] at hFilled

/-- A stream that a step makes done was popped by its node, or has an arrival
callback about to run. -/
theorem exec_done {t : StreamId} (hStep : exec g s f x = some (s', fs))
    (hBefore : (s.stream t).isDone = false) (hDone : (s'.stream t).isDone = true) :
    .arrival (g.owner t) ∈ fs ∨
      ∃ r port rest, f = .run r (.popInputs ((port, t) :: rest)) := by
  have hChange := exec_stream t hStep
  generalize s'.stream t = m at hChange hDone
  cases hChange with
  | same => exact absurd hDone (by simp [hBefore])
  | popped r port rest => exact Or.inr ⟨r, port, rest, rfl⟩
  | added p _ _ hPackets _ =>
      exact absurd (InputStreamManager.isDone_of_addPackets hPackets hDone)
        (by simp [hBefore])
  | bounded p _ _ hArrival =>
      left
      refine hArrival ?_
      by_contra hBound
      have hSame : ((s.stream t).setNextTimestampBound p.nextBound).1 = s.stream t := by
        unfold InputStreamManager.setNextTimestampBound
        rw [if_neg hBound]
      rw [hSame] at hDone
      exact absurd hDone (by simp [hBefore])

theorem Awake.exec (hAwake : Awake g s (A ++ f :: B))
    (hPlaced : Placed g s (A ++ f :: B)) (hAccounted : Accounted g s (A ++ f :: B))
    (hCalm : Calm g s (A ++ f :: B)) (hCleanup : ∀ q, f ≠ .cleanupAfterRun q)
    (hStep : Scheduler.exec g s f x = some (s', fs)) :
    Awake g s' (A ++ (fs ++ B)) := by
  have hKeeps : ∀ q, f = .cleanupAfterRun q → (s.queues q).items = [] :=
    fun q hEq => absurd hEq (hCleanup q)
  constructor
  · intro n hLimit t hMem hFilled
    by_cases hEmpty : (s.stream t).isEmpty = true
    · have hArrival := (exec_filled hStep hEmpty hFilled).2
      rw [Graph.owner_of_mem hMem] at hArrival
      exact Or.inr ⟨_, List.mem_append_right A (List.mem_append_left B hArrival), rfl⟩
    · have hSource := Graph.isSource_of_mem hMem
      have hFilled' : (s.stream t).isEmpty = false := by simpa using hEmpty
      refine (hAwake.pending n hLimit t hMem hFilled').exec hPlaced hAccounted
        hKeeps hLimit (hCalm.arrival n) (fun _ => rfl)
        (fun _ _ _ _ hHolds => RunPc.drains_of_holdsPending t hHolds) ?_ hStep
      rintro r pc u rfl rfl hDrains hTurn
      obtain ⟨-, hOpen, -, hPc⟩ := hPlaced.run r pc (by simp)
      exact runStep_drains hMem hOpen hPc (hCalm.run r pc (by simp) hSource) hFilled'
        hDrains hTurn
  · intro n hLimit hSource hDone hFinal
    have hFinal' : finalized g s n = false := by
      by_contra hBefore
      exact absurd (exec_finalized hStep (by simpa using hBefore)) (by simp [hFinal])
    by_cases hBefore : ∀ t ∈ g.inputs n, (s.stream t).isDone = true
    · refine (hAwake.finalize n hLimit hSource hBefore hFinal').exec hPlaced hAccounted
        hKeeps hLimit (hCalm.arrival n) (fun _ => rfl)
        (fun _ _ _ _ hHolds => RunPc.observes_of_holdsPending hHolds) ?_ hStep
      rintro r pc u rfl rfl hObserves hTurn
      obtain ⟨hQueue, hOpen, -, hPc⟩ := hPlaced.run r pc (by simp)
      exact runStep_observes hSource hOpen hPc (hCalm.run r pc (by simp) hSource)
        hBefore (hQueue ▸ hFinal') hObserves hTurn
    · -- some input has become done in this step
      simp only [not_forall, Bool.not_eq_true] at hBefore
      obtain ⟨t, hMem, hNotDone⟩ := hBefore
      right
      rcases exec_done hStep hNotDone (hDone t hMem) with hArrival | ⟨r, port, rest, rfl⟩
      · rw [Graph.owner_of_mem hMem] at hArrival
        exact ⟨_, List.mem_append_right A (List.mem_append_left B hArrival), rfl⟩
      · obtain ⟨-, -, -, hPorts⟩ :=
          hPlaced.run r (.popInputs ((port, t) :: rest)) (by simp)
        have hNode : r.node = n := by
          have hOwner := g.owner_port r.node (port, t) (hPorts _ List.mem_cons_self)
          exact hOwner.symm.trans (Graph.owner_of_mem hMem)
        obtain ⟨u, hTurn, rfl, rfl⟩ := exec_run hStep
        cases hTurn
        exact ⟨_, List.mem_append_right A (List.mem_append_left B List.mem_cons_self),
          hNode, rfl⟩

/-! ## Whole runs -/

/-- What holds in every state of the runs considered. -/
structure Watched (g : Graph) (s : Shared) (fs : List Frame) : Prop where
  placed : Placed g s fs
  accounted : Accounted g s fs
  calm : Calm g s fs
  awake : Awake g s fs

theorem not_cleanup_of_guard (hGuard : (wakeupGuard g).exec s A f x = true)
    (q : QueueId) : f ≠ .cleanupAfterRun q := by
  rintro rfl
  simp [wakeupGuard] at hGuard

theorem Watched.exec (hWatched : Watched g s (A ++ f :: B))
    (hGuard : (wakeupGuard g).exec s (A ++ B) f x = true)
    (hStep : Scheduler.exec g s f x = some (s', fs)) :
    Watched g s' (A ++ (fs ++ B)) := by
  obtain ⟨hPlaced, hAccounted, hCalm, hAwake⟩ := hWatched
  have hCleanup := not_cleanup_of_guard hGuard
  exact ⟨hPlaced.exec hStep, hAccounted.exec hPlaced hCleanup hStep,
    hCalm.exec hGuard hStep, hAwake.exec hPlaced hAccounted hCalm hCleanup hStep⟩

theorem Cover.mono {P : RunPc → Prop} {n : NodeId} (hCover : Cover g P n s A) :
    Cover g P n s (A ++ fs) := by
  rcases hCover with hItem | ⟨f, hMem, hCovers⟩
  · exact Or.inl hItem
  · exact Or.inr ⟨f, List.mem_append_left fs hMem, hCovers⟩

theorem Watched.spawn {b : Call} (hWatched : Watched g s A)
    (hSpawn : Scheduler.spawn g s b = some (s', fs)) : Watched g s' (A ++ fs) := by
  obtain ⟨hPlaced, hAccounted, hCalm, hAwake⟩ := hWatched
  have hNoRun : ∀ r pc, .run r pc ∈ A ++ fs → .run r pc ∈ A := fun r pc hMem =>
    mem_of_spawn hSpawn hMem (by simp) (by simp)
  have hNoArrival : ∀ n, .arrival n ∈ A ++ fs → .arrival n ∈ A := fun n hMem =>
    mem_of_spawn hSpawn hMem (by simp) (by simp)
  obtain ⟨tasks, rfl, -⟩ := spawn_frame hSpawn
  refine ⟨hPlaced.spawn hSpawn, ?_,
    ⟨fun r pc hMem => hCalm.run r pc (hNoRun r pc hMem), ?_⟩, ?_, ?_⟩
  · intro n
    have hNone : fs.countP (Frame.holdsPending n) = 0 :=
      countP_of_not_run n (not_run_of_spawn hSpawn)
    rw [List.countP_append, hNone, Nat.add_zero]
    exact hAccounted n
  · exact fun n hMem => hCalm.arrival n (hNoArrival n hMem)
  · intro n hLimit t hMem hFilled
    exact (hAwake.pending n hLimit t hMem hFilled).mono
  · intro n hLimit hSource hDone hFinal
    exact (hAwake.finalize n hLimit hSource hDone hFinal).mono

/-- Fresh streams have nothing to be covered. -/
theorem Watched.initial (outputs : OutId → OutputStreamManager)
    (defaultQueue : QueueId) (errorCallback : Bool) :
    Watched g (initial outputs defaultQueue errorCallback) [.start .begin] := by
  refine ⟨Placed.initial outputs defaultQueue errorCallback, ?_, ⟨?_, ?_⟩, ?_, ?_⟩
  · intro n
    simp [Scheduler.initial, waiting, Frame.holdsPending]
  · simp
  · simp
  · intro n _ t _ hFilled
    exact absurd hFilled (by simp [Scheduler.initial, Shared.stream,
      InputStreamManager.isEmpty])
  · intro n _ hSource hDone _
    cases hPorts : g.inputPorts n with
    | nil => simp [Graph.isSource, hPorts] at hSource
    | cons p rest =>
        -- a fresh stream is not done
        have hFirst := hDone p.2 (by simp [Graph.inputs, hPorts])
        change ({} : InputStreamManager).isDone = true at hFirst
        exact absurd hFirst (by decide)

theorem watched_of_reaches {outputs : OutId → OutputStreamManager}
    {defaultQueue : QueueId} {errorCallback : Bool} {c : Config Shared Frame}
    (hReach : (machine g).Reaches (wakeupGuard g)
      (started (initial outputs defaultQueue errorCallback)) c) :
    Watched g c.shared c.frames :=
  Machine.invariant (Watched.initial outputs defaultQueue errorCallback)
    (fun _ _ _ _ _ _ _ hWatched hGuard hStep => hWatched.exec hGuard hStep)
    (fun _ _ _ _ _ hWatched _ hSpawn => hWatched.spawn hSpawn) hReach

/-- **No lost wakeup.**  In every state in which no arrival callback is in
flight, no item of node `n` waits and no `RunNode` of `n` is in progress, the
input queues of `n` are empty, and `n` is finalized if its inputs are done. -/
theorem no_lost_wakeup {outputs : OutId → OutputStreamManager}
    {defaultQueue : QueueId} {errorCallback : Bool} {c : Config Shared Frame}
    (hReach : (machine g).Reaches (wakeupGuard g)
      (started (initial outputs defaultQueue errorCallback)) c)
    {n : NodeId} (hLimit : 1 ≤ g.maxInFlight n)
    (hArrival : ∀ m, .arrival m ∉ c.frames)
    (hItem : ∀ it ∈ (c.shared.queues (g.queue n)).items, it.node ≠ n)
    (hRun : ∀ r pc, .run r pc ∈ c.frames → r.node ≠ n) :
    (∀ t ∈ g.inputs n, (c.shared.stream t).isEmpty = true) ∧
      (g.isSource n = false →
        (∀ t ∈ g.inputs n, (c.shared.stream t).isDone = true) →
        finalized g c.shared n = true) := by
  have hAwake := (watched_of_reaches hReach).awake
  have hNotCovered : ∀ P, ¬ Cover g P n c.shared c.frames := by
    rintro P (hMem | ⟨f, hMem, hCovers⟩)
    · exact hItem _ hMem rfl
    · cases f with
      | arrival m => exact hArrival m hMem
      | run r pc => exact hRun r pc hMem hCovers.1
      | _ => exact hCovers
  constructor
  · intro t hMem
    by_contra hFilled
    exact hNotCovered _ (hAwake.pending n hLimit t hMem (by simpa using hFilled))
  · intro hSource hDone
    by_contra hFinal
    exact hNotCovered _ (hAwake.finalize n hLimit hSource hDone (by simpa using hFinal))

/-- The rule at work: a packet and the close of the graph input reach one node,
which three workers run to the end. -/
theorem no_lost_wakeup_chain :
    ∃ c, (machine (.chain 1 id (by simp))).Reaches (wakeupGuard (.chain 1 id (by simp)))
        (started (chainInitial 1 false)) c ∧
      (c.shared.stream 0).isEmpty = true ∧
      finalized (.chain 1 id (by simp)) c.shared 0 = true := by
  obtain ⟨c, hReach, hTest⟩ := (machine (.chain 1 id (by simp))).exists_reaches
    (wakeupGuard (.chain 1 id (by simp))) (started (chainInitial 1 false))
    (runs 0 19 .ok ++
      calls (.addPacketToInputStream "in" ⟨some 1, Timestamp.ofValue 0⟩) 1 14 .ok ++
      calls (.closeInputStream "in") 2 14 .ok ++ calls (.worker 0) 3 30 .ok ++
      calls (.worker 0) 4 31 .ok ++ calls (.worker 0) 5 26 .ok)
    (fun c => c.frames.isEmpty && (c.shared.queues 0).items.isEmpty &&
      (c.shared.stream 0).isDone) (by decide +kernel)
  simp only [Bool.and_eq_true, List.isEmpty_iff] at hTest
  obtain ⟨⟨hFrames, hItems⟩, hDone⟩ := hTest
  have hQuiet := no_lost_wakeup hReach (n := 0) (by decide) (by simp [hFrames])
    (by simp [Graph.chain, hItems]) (by simp [hFrames])
  refine ⟨c, hReach, hQuiet.1 0 (by decide), hQuiet.2 (by decide) ?_⟩
  simpa [Graph.chain, Graph.inputs] using hDone

end GraphRuntime.Scheduler
