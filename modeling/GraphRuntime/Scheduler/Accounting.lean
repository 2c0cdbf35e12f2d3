import GraphRuntime.Scheduler.Effects

/-!
# Placement of work and the accounting of `pending_count_`

Two invariants of every run in which no queue is cleaned up.

`Placed`: an item of a node waits in the node's own queue, a `RunNode` call
runs on it and pops the node's own managers, and the node had been assigned
before either existed.

`Accounted`: `pending_count_` of a node is the number of its items plus the
number of its `RunNode` calls that have not run `DecrementPending` yet.  The
step lemma is a conservation law, `exec_balance`: a step changes both sides of
the equation by the same amount.  `exists_work` is the use made of it: when
`AddNode` finds a node at its limit and gives up, there is an item or an
unfinished call to rely on.
-/

namespace GraphRuntime.Scheduler

open GraphRuntime.Stream Interleaving

variable {g : Graph} {s s' : Shared} {f : Frame} {fs A B : List Frame}
  {x : Choice}

theorem Graph.item_injective (g : Graph) : Function.Injective g.item :=
  fun _ _ h => congrArg Item.node h

/-! ## Placement -/

/-- A `RunNode` call pops and scans the managers of its node only and never
executes an open item. -/
def RunPc.Placed (g : Graph) (n : NodeId) : RunPc → Prop
  | .popInputs rest => ∀ p ∈ rest, p ∈ g.inputPorts n
  | .scanDone rest | .pendingScan _ rest | .safetyScan rest | .stopScan rest =>
      ∀ t ∈ rest, t ∈ g.inputs n
  | .callOpen => False
  | _ => True

structure Placed (g : Graph) (s : Shared) (fs : List Frame) : Prop where
  item : ∀ q, ∀ it ∈ (s.queues q).items,
    it = g.item it.node ∧ g.queue it.node = q ∧ s.assigned it.node = true
  run : ∀ r pc, .run r pc ∈ fs → r.queue = g.queue r.node ∧ r.isOpen = false ∧
    s.assigned r.node = true ∧ pc.Placed g r.node

/-- A node stays assigned. -/
theorem exec_assigned {n : NodeId} (hStep : exec g s f x = some (s', fs))
    (hAssigned : s.assigned n = true) : s'.assigned n = true := by
  cases f with
  | start pc =>
      obtain ⟨t, hTurn, rfl, rfl⟩ := exec_start hStep
      revert hTurn
      fun_cases startStep g s x pc
      all_goals intro hTurn; cases hTurn
      all_goals try split
      all_goals first
        | exact hAssigned
        | exact (congrArg (Shared.assigned · n) (scheduleNode_eq g s _)).trans hAssigned
        | simp [Function.update_apply, hAssigned]
  | _ =>
      have hSame := (exec_kept hStep).assigned (by simp)
      rw [hSame]
      exact hAssigned

/-- The items of a queue after a step. -/
theorem exec_items {q : QueueId} {it : Item} (hStep : exec g s f x = some (s', fs))
    (hMem : it ∈ (s'.queues q).items) :
    it ∈ (s.queues q).items ∨
      ∃ n, it = g.item n ∧ q = g.queue n ∧ s.assigned n = true := by
  have hChange := exec_queue q hStep
  generalize s'.queues q = queue at hChange hMem
  cases hChange with
  | pushed _ _ n hQueue _ hAccepts =>
      simp only [SchedulerQueue.push, List.mem_append, List.mem_singleton] at hMem
      rcases hMem with hOld | rfl
      · exact Or.inl hOld
      · exact Or.inr ⟨n, rfl, hQueue, assigned_of_accepts hAccepts⟩
  | popped it' _ => exact Or.inl (List.mem_of_mem_erase hMem)
  | cleaned => simp [SchedulerQueue.cleanupAfterRun] at hMem
  | decided _ r b _ =>
      left
      unfold SchedulerQueue.decideFinalize at hMem
      repeat' split at hMem
      all_goals exact hMem
  | same | submitted | dropped | finished | running | counted | wired =>
      exact Or.inl hMem

theorem runStep_placed {r r' : Invocation} {pc pc' : RunPc}
    {t : Turn (Invocation × RunPc)} (hTurn : runStep g s r x pc = some t)
    (hNext : t.next = some (r', pc')) (hOpen : r.isOpen = false)
    (hPlaced : pc.Placed g r.node) : pc'.Placed g r.node := by
  revert hTurn
  fun_cases runStep g s r x pc
  case case1 =>
    intro hTurn
    cases hTurn
    cases hNext
    intro p hPort
    exact hPlaced p (List.mem_cons_of_mem _ hPort)
  case case2 hIsOpen => exact absurd hIsOpen (by simp [hOpen])
  case case5 => exact hPlaced.elim
  all_goals
    intro hTurn
    cases hTurn <;> cases hNext
  all_goals try unfold afterProcess
  all_goals try unfold afterAct
  all_goals repeat' split
  all_goals first
    | exact True.intro
    | exact fun t hMem => hMem
    | exact fun t hMem => hPlaced t (List.mem_cons_of_mem _ hMem)

theorem Placed.exec (hPlaced : Placed g s (A ++ f :: B))
    (hStep : exec g s f x = some (s', fs)) : Placed g s' (A ++ (fs ++ B)) := by
  have hKeep : ∀ n, s.assigned n = true → s'.assigned n = true :=
    fun n => exec_assigned hStep
  constructor
  · intro q it hMem
    rcases exec_items hStep hMem with hOld | ⟨n, rfl, rfl, hAssigned⟩
    · obtain ⟨hItem, hQueue, hAssigned⟩ := hPlaced.item q it hOld
      exact ⟨hItem, hQueue, hKeep _ hAssigned⟩
    · exact ⟨rfl, rfl, hKeep _ hAssigned⟩
  · intro r pc hMem
    have hOld : .run r pc ∈ A ++ f :: B → r.queue = g.queue r.node ∧
        r.isOpen = false ∧ s'.assigned r.node = true ∧ pc.Placed g r.node := by
      intro h
      obtain ⟨hQueue, hOpen, hAssigned, hPc⟩ := hPlaced.run r pc h
      exact ⟨hQueue, hOpen, hKeep _ hAssigned, hPc⟩
    rcases mem_after hMem with hNew | hBefore
    · rcases run_of_exec hStep hNew with ⟨r₀, pc₀, t, rfl, hTurn, -, hNext⟩ |
        ⟨q, it, queue, rfl, hPop, -, rfl, rfl⟩
      · obtain ⟨hQueue₀, hOpen₀, hAssigned₀, hPc₀⟩ := hPlaced.run r₀ pc₀ mem_running
        obtain ⟨hQueue, hNode, hOpen⟩ := runStep_next hTurn hNext
        rw [hQueue, hNode, hOpen]
        exact ⟨hQueue₀, hOpen₀, hKeep _ hAssigned₀, runStep_placed hTurn hNext hOpen₀ hPc₀⟩
      · obtain ⟨hItem, hQueue, hAssigned⟩ :=
          hPlaced.item q it (SchedulerQueue.tryPop_eq_some hPop).1
        refine ⟨hQueue.symm, ?_, hKeep _ hAssigned, fun p hPort => hPort⟩
        show it.isOpenNode = false
        rw [hItem]
        rfl
    · exact hOld hBefore

/-- A new thread changes nothing but the tasks, and runs no node yet. -/
theorem spawn_frame {b : Call} (hSpawn : spawn g s b = some (s', fs)) :
    ∃ tasks, s' = { s with tasks := tasks } ∧
      ∀ f ∈ fs, (∃ q, f = .runNextTask q) ∨ ∃ pc, f = .api pc := by
  rcases spawn_cases hSpawn with ⟨q, -, -, rfl, rfl⟩ | ⟨rfl, pc, rfl, -⟩
  · exact ⟨_, rfl, by simp⟩
  · exact ⟨s'.tasks, rfl, by simp⟩

/-- Any other frame was there before. -/
theorem mem_of_spawn {b : Call} {f' : Frame} (hSpawn : spawn g s b = some (s', fs))
    (hMem : f' ∈ A ++ fs) (hTask : ∀ q, f' ≠ .runNextTask q) (hApi : ∀ pc, f' ≠ .api pc) :
    f' ∈ A := by
  obtain ⟨-, -, hNew⟩ := spawn_frame hSpawn
  rcases List.mem_append.mp hMem with hOld | hFrame
  · exact hOld
  · rcases hNew _ hFrame with ⟨q, hEq⟩ | ⟨pc, hEq⟩
    · exact absurd hEq (hTask q)
    · exact absurd hEq (hApi pc)

theorem not_run_of_spawn {b : Call} (hSpawn : spawn g s b = some (s', fs)) :
    ∀ f ∈ fs, ∀ r pc, f ≠ .run r pc := by
  rintro f hMem r pc rfl
  obtain ⟨-, -, hNew⟩ := spawn_frame hSpawn
  rcases hNew _ hMem with ⟨q, hEq⟩ | ⟨pc', hEq⟩
  · cases hEq
  · cases hEq

theorem Placed.spawn {b : Call} (hPlaced : Placed g s A)
    (hSpawn : Scheduler.spawn g s b = some (s', fs)) : Placed g s' (A ++ fs) := by
  have hBefore : ∀ r pc, .run r pc ∈ A ++ fs → .run r pc ∈ A := fun r pc hMem =>
    mem_of_spawn hSpawn hMem (by simp) (by simp)
  obtain ⟨tasks, rfl, -⟩ := spawn_frame hSpawn
  exact ⟨hPlaced.item, fun r pc hMem => hPlaced.run r pc (hBefore r pc hMem)⟩

theorem Placed.initial (outputs : OutId → OutputStreamManager)
    (defaultQueue : QueueId) (errorCallback : Bool) :
    Placed g (initial outputs defaultQueue errorCallback) [.start .begin] := by
  constructor
  · intro q it hMem
    exact absurd hMem List.not_mem_nil
  · simp

theorem placed_of_reaches {G : Guard Shared Frame Choice Call}
    {outputs : OutId → OutputStreamManager} {defaultQueue : QueueId}
    {errorCallback : Bool} {c : Config Shared Frame}
    (hReach : (machine g).Reaches G
      (started (initial outputs defaultQueue errorCallback)) c) :
    Placed g c.shared c.frames :=
  Machine.invariant (Placed.initial outputs defaultQueue errorCallback)
    (fun _ _ _ _ _ _ _ hPlaced _ hStep => hPlaced.exec hStep)
    (fun _ _ _ _ _ hPlaced _ hSpawn => hPlaced.spawn hSpawn) hReach

/-! ## The pending count -/

theorem RunPc.Placed.ne_callOpen {pc : RunPc} {n : NodeId} (hPlaced : pc.Placed g n) :
    pc ≠ .callOpen := by
  rintro rfl
  exact hPlaced

/-- The `RunNode` call has not run `DecrementPending` yet. -/
def RunPc.holdsPending : RunPc → Bool
  | .popInputs _ | .prepareOutputs _ | .inProcess | .postProcess _ _
  | .stopDecrement | .errorDecrement _ | .scanDone _ | .decide _
  | .decrement _ => true
  | .closeOutputs _ stopped => stopped
  | _ => false

def Frame.holdsPending (n : NodeId) : Frame → Bool
  | .run r pc => decide (r.node = n) && pc.holdsPending
  | _ => false

/-- The items of a node in its queue. -/
def waiting (g : Graph) (s : Shared) (n : NodeId) : Nat :=
  (s.queues (g.queue n)).items.count (g.item n)

/-- `pending_count_` counts the items and the unfinished calls. -/
def Accounted (g : Graph) (s : Shared) (fs : List Frame) : Prop :=
  ∀ n, s.pendingCount n = waiting g s n + fs.countP (Frame.holdsPending n)

/-- The part of the pending count that is not waiting in the queue. -/
def balance (g : Graph) (s : Shared) (n : NodeId) : Int :=
  s.pendingCount n - waiting g s n

theorem balance_congr {n : NodeId} (hPending : s'.pendingCount n = s.pendingCount n)
    (hItems : ∀ q, (s'.queues q).items = (s.queues q).items) :
    balance g s' n = balance g s n := by
  unfold balance waiting
  rw [hPending, hItems]

theorem balance_decrementPending (n m : NodeId) :
    balance g (s.decrementPending n) m =
      balance g s m - if n = m then 1 else 0 := by
  unfold balance Shared.decrementPending waiting
  by_cases hEq : n = m
  · subst hEq
    simp
    omega
  · simp [hEq, Ne.symm hEq]

/-- `AddNode` counts what it pushes. -/
theorem balance_pushed (n m : NodeId) :
    balance g ((s.incrementPending n).setQueue (g.queue n)
      ((s.queues (g.queue n)).push (g.item n))) m = balance g s m := by
  unfold balance waiting Shared.setQueue Shared.incrementPending SchedulerQueue.push
  by_cases hEq : n = m
  · subst hEq
    simp
  · by_cases hQueue : g.queue m = g.queue n
    · simp [hQueue, Ne.symm hEq, g.item_injective.eq_iff, hEq]
    · simp [hQueue, Ne.symm hEq]

theorem balance_scheduleNode (n m : NodeId) :
    balance g (scheduleNode g s n).1 m = balance g s m := by
  rcases scheduleNode_cases g s n with ⟨-, hNone⟩ | ⟨-, -, hState, -⟩
  · rw [hNone]
  · rw [hState]
    exact balance_pushed n m

theorem balance_setQueue {q : QueueId} {queue : SchedulerQueue} (n : NodeId)
    (hItems : queue.items = (s.queues q).items) :
    balance g (s.setQueue q queue) n = balance g s n := by
  refine balance_congr rfl fun p => ?_
  by_cases hEq : p = q
  · subst hEq
    simpa using hItems
  · simp [hEq]

theorem decideFinalize_items (queue : SchedulerQueue) (n : NodeId) (b : Bool) :
    (queue.decideFinalize n b).2.items = queue.items := by
  unfold SchedulerQueue.decideFinalize
  repeat' split
  all_goals rfl

theorem afterProcess_holdsPending (n : NodeId) (status : Status) :
    (afterProcess g n status).holdsPending = true := by
  unfold afterProcess
  repeat' split
  all_goals rfl

theorem afterAct_holdsPending (n : NodeId) (action : FinalizeAction) :
    (afterAct g n action).holdsPending = false := by
  unfold afterAct
  split <;> rfl

/-- Only `RunNode` calls hold a count. -/
theorem countP_of_not_run {l : List Frame} (n : NodeId)
    (hNotRun : ∀ f ∈ l, ∀ r pc, f ≠ .run r pc) :
    l.countP (Frame.holdsPending n) = 0 := by
  rw [List.countP_eq_zero]
  intro f hMem
  cases f with
  | run r pc => exact absurd rfl (hNotRun _ hMem r pc)
  | _ => simp [Frame.holdsPending]

/-- Whether a step of `RunNode` is `DecrementPending`. -/
def RunPc.decrements : RunPc → Bool
  | .stopDecrement | .errorDecrement _ | .decrement _ => true
  | _ => false

/-- A step other than `DecrementPending` leaves the balance alone. -/
theorem runStep_balance {r : Invocation} {pc : RunPc}
    {t : Turn (Invocation × RunPc)} (hTurn : runStep g s r x pc = some t)
    (n : NodeId) :
    balance g t.state n =
      balance g s n - if r.node = n ∧ pc.decrements then 1 else 0 := by
  revert hTurn
  fun_cases runStep g s r x pc
  all_goals intro hTurn; cases hTurn
  all_goals simp only [scheduleThen, balance_scheduleNode, balance_decrementPending,
    RunPc.decrements, and_true, Bool.false_eq_true, and_false, if_false, sub_zero]
  all_goals first
    | rfl
    | exact balance_setQueue n rfl
    | exact balance_setQueue n (decideFinalize_items _ _ _)

/-- A call holds its count until it decrements it. -/
theorem runStep_holdsPending {r : Invocation} {pc : RunPc}
    {t : Turn (Invocation × RunPc)} (hOpen : r.isOpen = false)
    (hCall : pc ≠ .callOpen) (hTurn : runStep g s r x pc = some t) :
    t.next.any (fun p => p.2.holdsPending) = (pc.holdsPending && !pc.decrements) := by
  revert hTurn
  fun_cases runStep g s r x pc
  case case2 hIsOpen => exact absurd hIsOpen (by simp [hOpen])
  case case5 => exact absurd rfl hCall
  case case13 o rest stopped =>
    intro hTurn
    cases hTurn
    cases stopped <;> rfl
  case case14 stopped =>
    intro hTurn
    cases hTurn
    cases stopped <;> rfl
  all_goals intro hTurn; cases hTurn
  all_goals simp only [scheduleThen, propagateThen, Option.any_some, Option.any_none]
  all_goals first
    | rfl
    | exact afterProcess_holdsPending _ _
    | exact afterAct_holdsPending _ _
    | (split <;> rfl)

theorem RunPc.holdsPending_of_decrements {pc : RunPc} (hDecrements : pc.decrements = true) :
    pc.holdsPending = true := by
  cases pc <;> first | rfl | simp [RunPc.decrements] at hDecrements

theorem countP_holdsPending {r : Invocation} {pc : RunPc}
    {t : Turn (Invocation × RunPc)} (hOpen : r.isOpen = false)
    (hCall : pc ≠ .callOpen) (hTurn : runStep g s r x pc = some t) (n : NodeId) :
    (t.calls ++ (t.next.map runFrame).toList).countP (Frame.holdsPending n) =
      if r.node = n ∧ (pc.holdsPending && !pc.decrements) = true then 1 else 0 := by
  have hCalls : t.calls.countP (Frame.holdsPending n) = 0 :=
    countP_of_not_run n fun f hMem => (runStep_calls hTurn f hMem).2
  rw [List.countP_append, hCalls, zero_add,
    ← runStep_holdsPending hOpen hCall hTurn]
  cases hNext : t.next with
  | none => simp
  | some p =>
      have hNode : p.1.node = r.node := (runStep_next hTurn hNext).2.1
      simp [runFrame, Frame.holdsPending, hNode]

/-- The balance is moved by `RunNode` and by workers only. -/
theorem exec_balance_of_not_run (hRun : ∀ r pc, f ≠ .run r pc)
    (hTask : ∀ q, f ≠ .runNextTask q) (hCleanup : ∀ q, f ≠ .cleanupAfterRun q)
    (hStep : exec g s f x = some (s', fs)) (n : NodeId) :
    balance g s' n = balance g s n := by
  cases f with
  | run r pc => exact absurd rfl (hRun r pc)
  | runNextTask q => exact absurd rfl (hTask q)
  | cleanupAfterRun q => exact absurd rfl (hCleanup q)
  | handleIdle pc =>
      obtain ⟨rfl, rfl⟩ := exec_handleIdle hStep
      fun_cases idleStep g s pc
      all_goals first
        | rfl
        | exact balance_scheduleNode _ _
  | start pc =>
      obtain ⟨t, hTurn, rfl, rfl⟩ := exec_start hStep
      revert hTurn
      fun_cases startStep g s x pc
      all_goals intro hTurn; cases hTurn
      all_goals first
        | rfl
        | exact balance_scheduleNode _ _
        | (split <;> rfl)
        | exact balance_setQueue n rfl
  | api pc =>
      obtain ⟨t, hTurn, rfl, rfl⟩ := exec_api hStep
      obtain ⟨_, _, _, _, _, _, hState⟩ := apiStep_frame hTurn
      rw [hState]
      rfl
  | arrival m =>
      have hState : s' = (scheduleNode g s m).1 :=
        (congrArg Prod.fst (Option.some.inj hStep)).symm
      rw [hState]
      exact balance_scheduleNode m n
  | _ =>
      revert hStep
      unfold exec
      simp only
      repeat' split
      all_goals intro hStep; cases hStep
      all_goals first
        | rfl
        | exact balance_setQueue n rfl

/-- A worker turns an item into an unfinished call. -/
theorem balance_popped {q : QueueId} {it : Item} (hMem : it ∈ (s.queues q).items)
    (hItem : it = g.item it.node) (hQueue : g.queue it.node = q) (n : NodeId) :
    balance g (s.setQueue q
        { s.queues q with items := (s.queues q).items.erase it }) n =
      balance g s n + if it.node = n then 1 else 0 := by
  unfold balance waiting
  by_cases hNode : it.node = n
  · subst hNode
    have hPos : 0 < (s.queues q).items.count it := List.count_pos_iff.mpr hMem
    rw [hQueue, ← hItem]
    simp only [Shared.setQueue, Function.update_self, List.count_erase_self, if_true]
    omega
  · have hNe : it ≠ g.item n := by
      intro hEq
      exact hNode (congrArg Item.node hEq)
    by_cases hSame : g.queue n = q
    · simp [Shared.setQueue, hSame, List.count_erase_of_ne (Ne.symm hNe), hNode]
    · simp [Shared.setQueue, hSame, hNode]

/-- **Conservation**: a step changes the balance of a node and the number of its
unfinished calls by the same amount. -/
theorem exec_balance (hPlaced : Placed g s (A ++ f :: B))
    (hCleanup : ∀ q, f ≠ .cleanupAfterRun q)
    (hStep : exec g s f x = some (s', fs)) (n : NodeId) :
    balance g s' n - fs.countP (Frame.holdsPending n) =
      balance g s n - [f].countP (Frame.holdsPending n) := by
  by_cases hRun : ∃ r pc, f = .run r pc
  · obtain ⟨r, pc, rfl⟩ := hRun
    obtain ⟨-, hOpen, -, hPc⟩ := hPlaced.run r pc (by simp)
    obtain ⟨t, hTurn, rfl, rfl⟩ := exec_run hStep
    rw [countP_holdsPending hOpen hPc.ne_callOpen hTurn, runStep_balance hTurn]
    by_cases hNode : r.node = n
    · by_cases hDecrements : pc.decrements = true
      · have hHolds := pc.holdsPending_of_decrements hDecrements
        simp [Frame.holdsPending, hNode, hDecrements, hHolds]
      · simp [Frame.holdsPending, hNode, hDecrements]
    · simp [Frame.holdsPending, hNode]
  · by_cases hTask : ∃ q, f = .runNextTask q
    · obtain ⟨q, rfl⟩ := hTask
      simp only [exec] at hStep
      split at hStep <;> cases hStep
      · simp [Frame.holdsPending]
      · rename_i it queue hPop
        obtain ⟨hMem, rfl⟩ := SchedulerQueue.tryPop_eq_some hPop
        obtain ⟨hItem, hQueue, -⟩ := hPlaced.item q it hMem
        rw [balance_popped hMem hItem hQueue]
        simp [Frame.holdsPending, RunPc.holdsPending, List.countP_cons]
    · simp only [not_exists] at hRun hTask
      have hLeft : fs.countP (Frame.holdsPending n) = 0 :=
        countP_of_not_run n (not_run_of_exec hRun hTask hStep)
      have hTop : [f].countP (Frame.holdsPending n) = 0 :=
        countP_of_not_run n fun f' hMem r pc hEq =>
          hRun r pc (List.mem_singleton.mp hMem ▸ hEq)
      rw [hLeft, hTop, exec_balance_of_not_run hRun hTask hCleanup hStep]

theorem Accounted.exec (hPlaced : Placed g s (A ++ f :: B))
    (hAccounted : Accounted g s (A ++ f :: B))
    (hCleanup : ∀ q, f ≠ .cleanupAfterRun q)
    (hStep : exec g s f x = some (s', fs)) : Accounted g s' (A ++ (fs ++ B)) := by
  intro n
  have hBefore := hAccounted n
  have hBalance := exec_balance hPlaced hCleanup hStep n
  unfold balance at hBalance
  simp only [List.countP_append, List.countP_cons, List.countP_nil] at hBefore hBalance ⊢
  omega

/-- **When `AddNode` gives up there is work**: a node at its limit has an item
or an unfinished call. -/
theorem exists_work (hAccounted : Accounted g s fs) {n : NodeId}
    (hLimit : 1 ≤ g.maxInFlight n) (hFull : g.maxInFlight n ≤ s.pendingCount n) :
    g.item n ∈ (s.queues (g.queue n)).items ∨
      ∃ r pc, .run r pc ∈ fs ∧ r.node = n ∧ pc.holdsPending = true := by
  have hCount := hAccounted n
  by_cases hWaiting : waiting g s n = 0
  · right
    have hPos : 0 < fs.countP (Frame.holdsPending n) := by omega
    obtain ⟨f, hMem, hHolds⟩ := List.countP_pos_iff.mp hPos
    cases f with
    | run r pc =>
        simp only [Frame.holdsPending, Bool.and_eq_true, decide_eq_true_eq] at hHolds
        exact ⟨r, pc, hMem, hHolds.1, hHolds.2⟩
    | _ => simp [Frame.holdsPending] at hHolds
  · left
    exact List.count_pos_iff.mp (Nat.pos_of_ne_zero hWaiting)

end GraphRuntime.Scheduler
