import GraphRuntime.Scheduler.Quiescence

/-!
# The operations of `SchedulerQueue`, called by anybody

`queueMachine` is the machine of `Machine.lean` in which any thread may also
call the public operations of a queue at any moment: `AddNode`,
`AddNodeForOpen`, `SetRunning`, `SubmitWaitingTasksToExecutor`, `Reset` and
`CleanupAfterRun`.  Three results, each about every run of it:

* `pending_count_` bounds the items and the unfinished calls of a node, and
  `MaxInFlight` bounds `pending_count_` (`maxInFlight_respected`), whatever is
  discarded;
* when nothing is discarded, `num_pending_tasks_` counts the unfinished tasks,
  an idle queue is quiet, and a running queue with items has a task to come
  (`queue_progress`);
* when items and tasks are discarded only if there are none, `pending_count_`
  is exact (`accounting_exact`); discarding loses counts for good
  (`discarding_loses_counts`).
-/

namespace GraphRuntime.Scheduler

open GraphRuntime.Stream Interleaving

variable {g : Graph} {s s' : Shared} {f : Frame} {fs A B : List Frame} {x : Choice}

/-! ## The operations -/

/-- `SchedulerQueue::Reset`. -/
def SchedulerQueue.reset (q : SchedulerQueue) : SchedulerQueue :=
  { q with items := [], numPendingTasks := 0 }

/-- The item `AddNodeForOpen` pushes. -/
def Graph.openItem (g : Graph) (n : NodeId) : Item :=
  { node := n, isOpenNode := true, sourceLayer := g.sourceLayer n, nodeId := g.address n }

/-- `SchedulerQueue::AddNodeForOpen`, the locked section. -/
def addNodeForOpen (g : Graph) (s : Shared) (n : NodeId) : Outcome :=
  let queue := s.queues (g.queue n)
  (s.setQueue (g.queue n) (queue.push (g.openItem n)),
    if queue.running then [.submitToExecutor (g.queue n)] else [])

/-- A thread started by the runtime, or a call of a queue's operation; the nodes
are added to the queue they are bound to. -/
inductive QueueCall
  | start
  | call (b : Call)
  | addNode (n : NodeId)
  | addNodeForOpen (n : NodeId)
  | setRunning (q : QueueId) (running : Bool)
  | submitWaitingTasks (q : QueueId)
  | reset (q : QueueId)
  | cleanupAfterRun (q : QueueId)
deriving DecidableEq

def queueSpawn (g : Graph) (s : Shared) : QueueCall → Option Outcome
  | .start => some (s, [.start .begin])
  | .call b => spawn g s b
  | .addNode n => some (addNode g s n)
  | .addNodeForOpen n => some (addNodeForOpen g s n)
  | .setRunning q running => some (s, [.setRunning q running])
  | .submitWaitingTasks q => some (s, [.submitWaitingTasks q])
  | .reset q => some (s.setQueue q (s.queues q).reset, [])
  | .cleanupAfterRun q => some (s, [.cleanupAfterRun q])

def queueMachine (g : Graph) : Machine Shared Frame Choice QueueCall :=
  ⟨exec g, queueSpawn g⟩

/-- Thread `i` runs `k` steps; calls into a node return OK. -/
def queueRuns (i k : Nat) : List (Action Choice QueueCall) :=
  List.replicate k (.run i .ok)

/-- Nothing has been called yet. -/
def atRest (s : Shared) : Config Shared Frame := ⟨s, []⟩

/-- What `AddNode` does when anybody calls it. -/
theorem addNode_cases (g : Graph) (s : Shared) (n : NodeId) :
    (g.maxInFlight n ≤ s.pendingCount n ∧ addNode g s n = (s, [])) ∨
    (s.pendingCount n < g.maxInFlight n ∧
      addNode g s n = ((s.incrementPending n).setQueue (g.queue n)
          ((s.queues (g.queue n)).push (g.item n)),
        if (s.queues (g.queue n)).running then [.submitToExecutor (g.queue n)] else [])) := by
  unfold addNode
  by_cases hLimit : s.pendingCount n ≥ g.maxInFlight n
  · exact Or.inl ⟨hLimit, if_pos hLimit⟩
  · exact Or.inr ⟨not_le.mp hLimit, if_neg hLimit⟩

/-! ## Process items and open items -/

/-- Where a `RunNode` call for an open item stands. -/
def RunPc.opening : RunPc → Bool
  | .popInputs _ | .callOpen => true
  | _ => false

/-- The items of a queue belong to it, and an open item is executed as one. -/
structure Stocked (g : Graph) (s : Shared) (fs : List Frame) : Prop where
  item : ∀ q, ∀ it ∈ (s.queues q).items, g.queue it.node = q ∧
    (it = g.item it.node ∨ it = g.openItem it.node)
  opening : ∀ r pc, .run r pc ∈ fs → r.isOpen = true → pc.opening = true
  process : ∀ r pc, .run r pc ∈ fs → r.isOpen = false → pc ≠ .callOpen

theorem runStep_opening {r r' : Invocation} {pc pc' : RunPc} {t : Turn (Invocation × RunPc)}
    (hTurn : runStep g s r x pc = some t) (hNext : t.next = some (r', pc'))
    (hOpen : r.isOpen = true → pc.opening = true) :
    (r.isOpen = true → pc'.opening = true) ∧ (r.isOpen = false → pc' ≠ .callOpen) := by
  revert hTurn
  fun_cases runStep g s r x pc
  case case2 hIsOpen =>
    intro hTurn
    cases hTurn
    cases hNext
    exact ⟨fun _ => rfl, fun hNot => absurd hIsOpen (by simp [hNot])⟩
  case case3 hNotOpen count =>
    intro hTurn
    cases hTurn
    cases hNext
    exact ⟨fun h => absurd h hNotOpen, by simp⟩
  all_goals
    intro hTurn
    cases hTurn <;> cases hNext
  all_goals try unfold afterProcess
  all_goals try unfold afterAct
  all_goals repeat' split
  all_goals first
    | exact ⟨fun _ => rfl, by simp⟩
    | exact ⟨fun h => absurd (hOpen h) Bool.false_ne_true, by simp⟩

theorem Stocked.exec (hStocked : Stocked g s (A ++ f :: B))
    (hStep : exec g s f x = some (s', fs)) : Stocked g s' (A ++ (fs ++ B)) := by
  have hAll : ∀ r pc, .run r pc ∈ A ++ (fs ++ B) →
      (r.isOpen = true → pc.opening = true) ∧ (r.isOpen = false → pc ≠ .callOpen) := by
    intro r pc hMem
    rcases mem_after hMem with hNew | hOld
    · rcases run_of_exec hStep hNew with ⟨r₀, pc₀, t, rfl, hTurn, -, hNext⟩ |
        ⟨q, it, queue, rfl, -, -, -, rfl⟩
      · rw [(runStep_next hTurn hNext).2.2]
        exact runStep_opening hTurn hNext (hStocked.opening r₀ pc₀ mem_running)
      · exact ⟨fun _ => rfl, by simp⟩
    · exact ⟨hStocked.opening r pc hOld, hStocked.process r pc hOld⟩
  refine ⟨fun q it hMem => ?_, fun r pc hMem => (hAll r pc hMem).1,
    fun r pc hMem => (hAll r pc hMem).2⟩
  rcases exec_items hStep hMem with hBefore | ⟨n, rfl, rfl, -⟩
  · exact hStocked.item q it hBefore
  · exact ⟨rfl, Or.inl rfl⟩

/-- What the call `b` of a new thread does. -/
inductive Spawned (g : Graph) (s : Shared) (b : QueueCall) : Shared → List Frame → Prop
  /-- The call begins with a frame that neither runs a node nor is a task. -/
  | called (f : Frame) (hRun : ∀ r pc, f ≠ .run r pc) (hTask : ∀ q, f.isTask q = false) :
      Spawned g s b s [f]
  | worker (q : QueueId) (hTask : s.tasks q > 0) :
      Spawned g s b { s with tasks := Function.update s.tasks q (s.tasks q - 1) }
        [.runNextTask q]
  | refused : Spawned g s b s []
  | added (n : NodeId) (hLimit : s.pendingCount n < g.maxInFlight n) :
      Spawned g s b ((s.incrementPending n).setQueue (g.queue n)
          ((s.queues (g.queue n)).push (g.item n)))
        (if (s.queues (g.queue n)).running then [.submitToExecutor (g.queue n)] else [])
  | addedForOpen (n : NodeId) :
      Spawned g s b (s.setQueue (g.queue n) ((s.queues (g.queue n)).push (g.openItem n)))
        (if (s.queues (g.queue n)).running then [.submitToExecutor (g.queue n)] else [])
  | reset (q : QueueId) (hCall : b = .reset q) :
      Spawned g s b (s.setQueue q (s.queues q).reset) []

theorem spawned_of_queueSpawn {b : QueueCall} (hSpawn : queueSpawn g s b = some (s', fs)) :
    Spawned g s b s' fs := by
  cases b with
  | call b =>
      rcases spawn_cases hSpawn with ⟨q, -, hTask, rfl, rfl⟩ | ⟨rfl, pc, rfl, -⟩
      · exact .worker q hTask
      · exact .called _ (by simp) (fun _ => rfl)
  | addNode n =>
      have hOutcome : addNode g s n = (s', fs) := Option.some.inj hSpawn
      rcases addNode_cases g s n with ⟨-, hNone⟩ | ⟨hLimit, hPush⟩
      · rw [hNone] at hOutcome
        cases hOutcome
        exact .refused
      · rw [hPush] at hOutcome
        cases hOutcome
        exact .added n hLimit
  | addNodeForOpen n =>
      cases hSpawn
      exact .addedForOpen n
  | reset q =>
      cases hSpawn
      exact .reset q rfl
  | start | setRunning q b | submitWaitingTasks q | cleanupAfterRun q =>
      cases hSpawn
      exact .called _ (by simp) (fun _ => rfl)

/-- No new thread is inside a node. -/
theorem Spawned.not_run {b : QueueCall} (hSpawned : Spawned g s b s' fs) :
    ∀ f ∈ fs, ∀ r pc, f ≠ .run r pc := by
  have hSubmit : ∀ {q : QueueId} {running : Bool}, ∀ f ∈ (if running then
      [Frame.submitToExecutor q] else []), ∀ r pc, f ≠ .run r pc := by
    intro q running
    exact forall_ite_nil (by simp)
  cases hSpawned with
  | called f hRun => simpa using hRun
  | worker q => simp
  | refused | reset => simp
  | added n | addedForOpen n => exact hSubmit

theorem Stocked.spawn {b : QueueCall} (hStocked : Stocked g s A)
    (hSpawned : Spawned g s b s' fs) : Stocked g s' (A ++ fs) := by
  have hOld : ∀ r pc, .run r pc ∈ A ++ fs → .run r pc ∈ A := by
    intro r pc hMem
    refine (List.mem_append.mp hMem).resolve_right fun hNew => ?_
    exact hSpawned.not_run _ hNew r pc rfl
  refine ⟨?_, fun r pc hMem => hStocked.opening r pc (hOld r pc hMem),
    fun r pc hMem => hStocked.process r pc (hOld r pc hMem)⟩
  have hPushed : ∀ n it, g.queue it.node = g.queue n → (it = g.item it.node ∨ it = g.openItem it.node) →
      ∀ q, ∀ it' ∈ ((s.setQueue (g.queue n) ((s.queues (g.queue n)).push it)).queues q).items,
        g.queue it'.node = q ∧ (it' = g.item it'.node ∨ it' = g.openItem it'.node) := by
    intro n it hQueue hKind q it' hMem
    by_cases hEq : q = g.queue n
    · subst hEq
      simp only [Shared.setQueue_queues, Function.update_self, SchedulerQueue.push,
        List.mem_append, List.mem_singleton] at hMem
      rcases hMem with hIn | rfl
      · exact hStocked.item _ it' hIn
      · exact ⟨hQueue, hKind⟩
    · rw [Shared.setQueue_queues, Function.update_of_ne hEq] at hMem
      exact hStocked.item q it' hMem
  cases hSpawned with
  | called | worker | refused => exact hStocked.item
  | added n => exact hPushed n (g.item n) rfl (Or.inl rfl)
  | addedForOpen n => exact hPushed n (g.openItem n) rfl (Or.inr rfl)
  | reset q =>
      intro p it hMem
      by_cases hEq : p = q
      · subst hEq
        simp [SchedulerQueue.reset] at hMem
      · rw [Shared.setQueue_queues, Function.update_of_ne hEq] at hMem
        exact hStocked.item p it hMem

/-! ## `pending_count_` -/

/-- A `RunNode` call for a Process item that has not run `DecrementPending`. -/
def Frame.inFlight (n : NodeId) : Frame → Bool
  | .run r pc => decide (r.node = n) && !r.isOpen && pc.holdsPending
  | _ => false

/-- `Process` of the node is running. -/
def Frame.inProcess (n : NodeId) : Frame → Bool
  | .run r .inProcess => decide (r.node = n)
  | _ => false

theorem Frame.inProcess_le (n : NodeId) (fs : List Frame)
    (hProcess : ∀ r pc, .run r pc ∈ fs → r.isOpen = true → pc.opening = true) :
    fs.countP (Frame.inProcess n) ≤ fs.countP (Frame.inFlight n) := by
  refine List.countP_mono_left fun f hMem hIs => ?_
  cases f with
  | run r pc =>
      cases pc with
      | inProcess =>
          have hOpen : r.isOpen = false := by
            by_contra hNot
            exact Bool.false_ne_true (hProcess r .inProcess hMem (by simpa using hNot))
          simpa [Frame.inFlight, RunPc.holdsPending, hOpen, Frame.inProcess] using hIs
      | _ => exact absurd hIs Bool.false_ne_true
  | _ => exact absurd hIs Bool.false_ne_true

theorem countP_inFlight_of_not_run {l : List Frame} (n : NodeId)
    (hNotRun : ∀ f ∈ l, ∀ r pc, f ≠ .run r pc) : l.countP (Frame.inFlight n) = 0 := by
  rw [List.countP_eq_zero]
  intro f hMem
  cases f with
  | run r pc => exact absurd rfl (hNotRun _ hMem r pc)
  | _ => simp [Frame.inFlight]

/-- A call for a Process item holds a count until it decrements it; a call for an
open item holds none. -/
theorem countP_inFlight {r : Invocation} {pc : RunPc} {t : Turn (Invocation × RunPc)}
    (hProcess : r.isOpen = false → pc ≠ .callOpen) (hTurn : runStep g s r x pc = some t)
    (n : NodeId) :
    (t.calls ++ (t.next.map runFrame).toList).countP (Frame.inFlight n) =
      if r.node = n ∧ r.isOpen = false ∧ (pc.holdsPending && !pc.decrements) = true
        then 1 else 0 := by
  have hCalls : t.calls.countP (Frame.inFlight n) = 0 :=
    countP_inFlight_of_not_run n fun f hMem => (runStep_calls hTurn f hMem).2
  rw [List.countP_append, hCalls, zero_add]
  cases hOpen : r.isOpen with
  | true =>
      cases hNext : t.next with
      | none => simp
      | some p =>
          have hSame : p.1.isOpen = true := (runStep_next hTurn hNext).2.2.trans hOpen
          simp [runFrame, Frame.inFlight, hSame]
  | false =>
      rw [← runStep_holdsPending hOpen (hProcess hOpen) hTurn]
      cases hNext : t.next with
      | none => simp
      | some p =>
          obtain ⟨-, hNode, hSame⟩ := runStep_next hTurn hNext
          simp [runFrame, Frame.inFlight, hNode, hSame, hOpen]

/-- Executing an open item leaves the Process items alone. -/
theorem balance_popped_open {q : QueueId} {it : Item} (hItem : it = g.openItem it.node)
    (n : NodeId) :
    balance g (s.setQueue q
        { s.queues q with items := (s.queues q).items.erase it }) n = balance g s n := by
  have hNe : it ≠ g.item n := by
    intro hEq
    have hKinds : it.isOpenNode = true := by rw [hItem]; rfl
    rw [hEq] at hKinds
    exact Bool.false_ne_true hKinds
  unfold balance waiting
  by_cases hSame : g.queue n = q
  · simp [Shared.setQueue, hSame, List.count_erase_of_ne (Ne.symm hNe)]
  · simp [Shared.setQueue, hSame]

/-- **Conservation**, with open items: a step that cleans up no queue changes the
balance of a node and the number of its unfinished calls by the same amount. -/
theorem exec_inFlight (hStocked : Stocked g s (A ++ f :: B))
    (hCleanup : ∀ q, f ≠ .cleanupAfterRun q)
    (hStep : exec g s f x = some (s', fs)) (n : NodeId) :
    balance g s' n - fs.countP (Frame.inFlight n) =
      balance g s n - [f].countP (Frame.inFlight n) := by
  by_cases hRun : ∃ r pc, f = .run r pc
  · obtain ⟨r, pc, rfl⟩ := hRun
    have hOpening := hStocked.opening r pc (by simp)
    have hProcess := hStocked.process r pc (by simp)
    obtain ⟨t, hTurn, rfl, rfl⟩ := exec_run hStep
    rw [countP_inFlight hProcess hTurn, runStep_balance hTurn]
    by_cases hNode : r.node = n
    · by_cases hDecrements : pc.decrements = true
      · have hHolds := pc.holdsPending_of_decrements hDecrements
        have hOpen : r.isOpen = false := by
          by_contra hNot
          have hPc := hOpening (by simpa using hNot)
          cases pc <;> first
            | exact absurd hPc Bool.false_ne_true
            | exact absurd hDecrements Bool.false_ne_true
        simp [Frame.inFlight, hNode, hDecrements, hHolds, hOpen]
      · cases hOpen : r.isOpen <;> simp [Frame.inFlight, hNode, hDecrements, hOpen]
    · simp [Frame.inFlight, hNode]
  by_cases hTask : ∃ q, f = .runNextTask q
  · obtain ⟨q, rfl⟩ := hTask
    simp only [exec] at hStep
    split at hStep <;> cases hStep
    · simp [Frame.inFlight]
    · rename_i it queue hPop
      obtain ⟨hMem, rfl⟩ := SchedulerQueue.tryPop_eq_some hPop
      obtain ⟨hQueue, hItem | hItem⟩ := hStocked.item q it hMem
      · have hKind : it.isOpenNode = false := by rw [hItem]; rfl
        rw [balance_popped hMem hItem hQueue]
        simp [Frame.inFlight, RunPc.holdsPending, List.countP_cons, hKind]
      · have hKind : it.isOpenNode = true := by rw [hItem]; rfl
        rw [balance_popped_open hItem]
        simp [Frame.inFlight, hKind]
  simp only [not_exists] at hRun hTask
  have hLeft : fs.countP (Frame.inFlight n) = 0 :=
    countP_inFlight_of_not_run n (not_run_of_exec hRun hTask hStep)
  have hTop : [f].countP (Frame.inFlight n) = 0 :=
    countP_inFlight_of_not_run n fun f' hMem r pc hEq =>
      hRun r pc (List.mem_singleton.mp hMem ▸ hEq)
  rw [hLeft, hTop, exec_balance_of_not_run hRun hTask hCleanup hStep]

/-- Discarding items leaves the counts too high, not too low. -/
theorem balance_discarded {q : QueueId} {queue : SchedulerQueue} (hItems : queue.items = [])
    (n : NodeId) : balance g s n ≤ balance g (s.setQueue q queue) n := by
  unfold balance waiting
  by_cases hSame : g.queue n = q
  · simp [Shared.setQueue, hSame, hItems]
  · simp [Shared.setQueue, hSame]

/-! ## `MaxInFlight` -/

theorem scheduleNode_bounded {m : NodeId} {k : Int} (n : NodeId) (hMax : g.maxInFlight m ≤ k)
    (hBounded : s.pendingCount m ≤ k) : (scheduleNode g s n).1.pendingCount m ≤ k := by
  rcases scheduleNode_cases g s n with ⟨-, hNone⟩ | ⟨-, hLimit, hState, -⟩
  · rw [hNone]
    exact hBounded
  · rw [hState]
    by_cases hEq : m = n
    · subst hEq
      simp [Shared.setQueue, Shared.incrementPending]
      omega
    · simpa [Shared.setQueue, Shared.incrementPending, hEq] using hBounded

theorem decrementPending_bounded {m : NodeId} {k : Int} (n : NodeId)
    (hBounded : s.pendingCount m ≤ k) : (s.decrementPending n).pendingCount m ≤ k := by
  by_cases hEq : m = n
  · subst hEq
    simp [Shared.decrementPending]
    omega
  · simpa [Shared.decrementPending, hEq] using hBounded

/-- `pending_count_` stays within `MaxInFlight`, and within everything above it. -/
theorem exec_bounded {n : NodeId} {k : Int} (hMax : g.maxInFlight n ≤ k)
    (hBounded : s.pendingCount n ≤ k) (hStep : exec g s f x = some (s', fs)) :
    s'.pendingCount n ≤ k := by
  cases f with
  | run r pc =>
      obtain ⟨t, hTurn, rfl, rfl⟩ := exec_run hStep
      revert hTurn
      fun_cases runStep g s r x pc
      all_goals intro hTurn; cases hTurn
      all_goals first
        | exact hBounded
        | exact scheduleNode_bounded _ hMax hBounded
        | exact decrementPending_bounded _ hBounded
  | handleIdle pc =>
      obtain ⟨rfl, rfl⟩ := exec_handleIdle hStep
      fun_cases idleStep g s pc
      all_goals first
        | exact hBounded
        | exact scheduleNode_bounded _ hMax hBounded
  | start pc =>
      obtain ⟨t, hTurn, rfl, rfl⟩ := exec_start hStep
      revert hTurn
      fun_cases startStep g s x pc
      all_goals intro hTurn; cases hTurn
      all_goals first
        | exact hBounded
        | exact scheduleNode_bounded _ hMax hBounded
        | (split <;> exact hBounded)
  | api pc =>
      obtain ⟨t, hTurn, rfl, rfl⟩ := exec_api hStep
      obtain ⟨_, _, _, _, _, _, hState⟩ := apiStep_frame hTurn
      rw [hState]
      exact hBounded
  | arrival m =>
      have hState : s' = (scheduleNode g s m).1 :=
        (congrArg Prod.fst (Option.some.inj hStep)).symm
      rw [hState]
      exact scheduleNode_bounded m hMax hBounded
  | _ =>
      revert hStep
      unfold exec
      simp only
      repeat' split
      all_goals intro hStep; cases hStep
      all_goals exact hBounded

theorem incrementPending_bounded {m : NodeId} (n : NodeId)
    (hLimit : s.pendingCount n < g.maxInFlight n)
    (hBounded : s.pendingCount m ≤ g.maxInFlight m) :
    (s.incrementPending n).pendingCount m ≤ g.maxInFlight m := by
  by_cases hEq : m = n
  · subst hEq
    simp [Shared.incrementPending]
    omega
  · simpa [Shared.incrementPending, hEq] using hBounded

/-- An open item is no Process item. -/
theorem balance_pushed_open (n m : NodeId) :
    balance g (s.setQueue (g.queue n) ((s.queues (g.queue n)).push (g.openItem n))) m =
      balance g s m := by
  have hNe : g.openItem n ≠ g.item m := fun hEq =>
    Bool.false_ne_true (congrArg Item.isOpenNode hEq).symm
  unfold balance waiting
  by_cases hSame : g.queue m = g.queue n
  · simp [Shared.setQueue, SchedulerQueue.push, hSame, hNe]
  · simp [Shared.setQueue, hSame]

/-- `pending_count_` covers what it counts. -/
structure Held (g : Graph) (s : Shared) (fs : List Frame) (n : NodeId) : Prop where
  covers : (fs.countP (Frame.inFlight n) : Int) ≤ balance g s n
  bounded : s.pendingCount n ≤ g.maxInFlight n

/-- The count of a node goes on covering its items and its unfinished calls. -/
theorem covers_exec {n : NodeId} (hStocked : Stocked g s (A ++ f :: B))
    (hCovers : ((A ++ f :: B).countP (Frame.inFlight n) : Int) ≤ balance g s n)
    (hStep : exec g s f x = some (s', fs)) :
    ((A ++ (fs ++ B)).countP (Frame.inFlight n) : Int) ≤ balance g s' n := by
  by_cases hCleanup : ∃ q, f = .cleanupAfterRun q
  · obtain ⟨q, rfl⟩ := hCleanup
    cases hStep
    have hEmptied : ((s.queues q).cleanupAfterRun).items = [] := rfl
    have hDiscarded : balance g s n ≤ balance g (s.setQueue q (s.queues q).cleanupAfterRun) n :=
      balance_discarded hEmptied n
    simp only [List.countP_append, List.countP_cons, List.nil_append] at hCovers ⊢
    omega
  · have hBalance := exec_inFlight hStocked (not_exists.mp hCleanup) hStep n
    simp only [List.countP_append, List.countP_cons, List.countP_nil] at hCovers hBalance ⊢
    omega

theorem Held.exec {n : NodeId} (hStocked : Stocked g s (A ++ f :: B))
    (hHeld : Held g s (A ++ f :: B) n) (hStep : exec g s f x = some (s', fs)) :
    Held g s' (A ++ (fs ++ B)) n :=
  ⟨covers_exec hStocked hHeld.covers hStep, exec_bounded le_rfl hHeld.bounded hStep⟩

theorem Held.spawn {n : NodeId} {b : QueueCall} (hHeld : Held g s A n)
    (hSpawned : Spawned g s b s' fs) : Held g s' (A ++ fs) n := by
  have hNone := countP_inFlight_of_not_run n hSpawned.not_run
  have hCovers := hHeld.covers
  constructor
  · rw [List.countP_append, hNone, Nat.add_zero]
    cases hSpawned with
    | called | worker | refused => exact hCovers
    | added m hLimit => rwa [balance_pushed]
    | addedForOpen m => rwa [balance_pushed_open]
    | reset q => exact le_trans hCovers (balance_discarded rfl n)
  · cases hSpawned with
    | added m hLimit => exact incrementPending_bounded m hLimit hHeld.bounded
    | _ => exact hHeld.bounded

section

variable {G : Guard Shared Frame Choice QueueCall} {outputs : OutId → OutputStreamManager}
  {defaultQueue : QueueId} {errorCallback : Bool} {c : Config Shared Frame}

theorem stocked_of_reaches (hReach : (queueMachine g).Reaches G
      (atRest (initial outputs defaultQueue errorCallback)) c) :
    Stocked g c.shared c.frames := by
  refine Machine.invariant ?_ ?_ ?_ hReach
  · exact ⟨fun q it hMem => absurd hMem List.not_mem_nil, by simp [Config.frames, atRest],
      by simp [Config.frames, atRest]⟩
  · intro s A f B x s' fs hStocked _ hStep
    exact hStocked.exec hStep
  · intro s A b s' fs hStocked _ hSpawn
    exact hStocked.spawn (spawned_of_queueSpawn hSpawn)

/-- **`MaxInFlight` is never exceeded**, whatever is called and discarded when:
the Process items of a node and its unfinished calls are covered by
`pending_count_`, and this is at most `MaxInFlight`; with `MaxInFlight` 1, two
invocations of `Process` do not overlap. -/
theorem maxInFlight_respected (hReach : (queueMachine g).Reaches G
      (atRest (initial outputs defaultQueue errorCallback)) c)
    (n : NodeId) (hLimit : 1 ≤ g.maxInFlight n) :
    waiting g c.shared n + c.frames.countP (Frame.inFlight n) ≤ c.shared.pendingCount n ∧
      c.shared.pendingCount n ≤ g.maxInFlight n ∧
      (g.maxInFlight n = 1 → c.frames.countP (Frame.inProcess n) ≤ 1) := by
  have hHeld : Held g c.shared c.frames n := by
    refine Machine.invariant_with (J := Stocked g) (I := fun s fs => Held g s fs n)
      (fun c hReach => stocked_of_reaches hReach) ?_ ?_ ?_ hReach
    · refine ⟨?_, ?_⟩
      · simp [Config.frames, atRest, balance, waiting, initial]
      · simp only [atRest, initial]
        omega
    · intro s A f B x s' fs hStocked hHeld _ hStep
      exact hHeld.exec hStocked hStep
    · intro s A b s' fs _ hHeld _ hSpawn
      exact hHeld.spawn (spawned_of_queueSpawn hSpawn)
  obtain ⟨hCovers, hBounded⟩ := hHeld
  unfold balance at hCovers
  refine ⟨by omega, hBounded, fun hOne => ?_⟩
  have hProcess := Frame.inProcess_le n c.frames (stocked_of_reaches hReach).opening
  omega

/-- The rule at work: the queue is reset while the node runs, and the node is
not added again. -/
theorem maxInFlight_respected_chain :
    ∃ c : Config Shared Frame, c.frames.countP (Frame.inProcess 0) = 1 ∧
      c.shared.pendingCount 0 = 1 := by
  obtain ⟨c, hReach, hTest⟩ := (queueMachine (.chain 1 id (by simp))).exists_reaches
    Guard.all (atRest (chainInitial 1 false))
    (.spawn (.setRunning 0 true) :: queueRuns 0 1 ++ .spawn (.addNode 0) :: queueRuns 1 2 ++
      .spawn (.call (.worker 0)) :: queueRuns 2 5 ++ [.spawn (.reset 0), .spawn (.addNode 0)])
    (fun c => decide (c.frames.countP (Frame.inProcess 0) = 1)) (by decide +kernel)
  have hRunning : c.frames.countP (Frame.inProcess 0) = 1 := by simpa using hTest
  obtain ⟨hCovers, hBounded, hAlone⟩ := maxInFlight_respected hReach 0 (by decide)
  refine ⟨c, hRunning, ?_⟩
  have hProcess := Frame.inProcess_le 0 c.frames (stocked_of_reaches hReach).opening
  have hLimit : (Graph.chain 1 id (by simp)).maxInFlight 0 = 1 := rfl
  omega

end

/-! ## Progress -/

/-- What `AddNode` leaves is left by the step that calls it. -/
theorem exec_schedules {n : NodeId} (hSchedules : f.schedules = some n)
    (hStep : exec g s f x = some (s', fs)) : ∀ f' ∈ (scheduleNode g s n).2, f' ∈ fs := by
  unfold Frame.schedules at hSchedules
  split at hSchedules
  all_goals cases hSchedules
  case h_1 =>
    have hFrames : fs = (scheduleNode g s n).2 :=
      (congrArg Prod.snd (Option.some.inj hStep)).symm
    exact fun f' hMem => hFrames ▸ hMem
  all_goals
    cases hStep
    exact fun f' hMem => List.mem_append_left _ hMem

/-- A queue that comes to have something to submit is submitted. -/
theorem exec_shouldSubmit {q : QueueId} (hStep : exec g s f x = some (s', fs))
    (hAfter : (s'.queues q).shouldSubmit = true) :
    .submitToExecutor q ∈ fs ∨ (s.queues q).shouldSubmit = true := by
  have hChange := exec_queue q hStep
  generalize hQueue : s'.queues q = queue at hChange hAfter
  cases hChange with
  | pushed _ _ n hBound hSchedules hAccepts =>
      left
      have hRunning : (s.queues (g.queue n)).running = true := by
        rw [← hBound]
        exact (Bool.and_eq_true_iff.mp hAfter).1
      refine exec_schedules hSchedules hStep _ ?_
      simp only [accepts, Bool.and_eq_true, decide_eq_true_eq] at hAccepts
      rcases scheduleNode_cases g s n with ⟨hRefused | hRefused, -⟩ | ⟨-, -, -, hFrames⟩
      · exact absurd hAccepts.1 (by simp [hRefused])
      · omega
      · rw [hFrames, if_pos hRunning, hBound]
        exact List.mem_singleton_self _
  | popped it hMem =>
      right
      obtain ⟨hRunning, -⟩ := Bool.and_eq_true_iff.mp hAfter
      have hSome : (s.queues q).items ≠ [] := List.ne_nil_of_mem hMem
      simpa [SchedulerQueue.shouldSubmit, hSome] using hRunning
  | running _ b =>
      left
      cases hStep
      have hShould : ((s.queues q).setRunning b).shouldSubmit = true := hAfter
      simp [hShould]
  | cleaned => exact absurd hAfter (by simp [SchedulerQueue.shouldSubmit,
      SchedulerQueue.cleanupAfterRun])
  | decided _ r b =>
      right
      unfold SchedulerQueue.decideFinalize at hAfter
      repeat' split at hAfter
      all_goals exact hAfter
  | same | submitted | dropped | finished | counted | wired => exact Or.inr hAfter

/-- A thread that looks at the queue again, or hands a task to the executor. -/
def Frame.provides (q : QueueId) : Frame → Bool
  | .submitToExecutor p | .addTask p | .runNextTask p | .onTaskFinished p => decide (p = q)
  | _ => false

/-- A running queue with items has somebody to look after them. -/
def Provided (s : Shared) (fs : List Frame) (q : QueueId) : Prop :=
  (s.queues q).shouldSubmit = true → s.tasks q > 0 ∨ ∃ f ∈ fs, f.provides q = true

/-- A frame that looks after a queue leaves another, or a task. -/
theorem exec_provides {q : QueueId} (hExecutor : g.hasExecutor q = true)
    (hProvides : f.provides q = true) (hBefore : (s.queues q).shouldSubmit = true)
    (hStep : exec g s f x = some (s', fs)) :
    s'.tasks q > 0 ∨ ∃ f' ∈ fs, f'.provides q = true := by
  obtain ⟨-, hItems⟩ := Bool.and_eq_true_iff.mp hBefore
  cases f with
  | submitToExecutor p =>
      obtain rfl : p = q := of_decide_eq_true hProvides
      simp only [exec, hExecutor, if_true] at hStep
      cases hStep
      exact Or.inr ⟨.addTask p, by simp, by simp [Frame.provides]⟩
  | addTask p =>
      obtain rfl : p = q := of_decide_eq_true hProvides
      cases hStep
      left
      simp
  | runNextTask p =>
      obtain rfl : p = q := of_decide_eq_true hProvides
      simp only [exec] at hStep
      split at hStep <;> cases hStep
      · rename_i hNone
        rw [SchedulerQueue.tryPop_eq_none] at hNone
        simp [hNone] at hItems
      · exact Or.inr ⟨.onTaskFinished p, by simp, by simp [Frame.provides]⟩
  | onTaskFinished p =>
      obtain rfl : p = q := of_decide_eq_true hProvides
      cases hStep
      exact Or.inr ⟨.submitToExecutor p, by simp [hBefore], by simp [Frame.provides]⟩
  | _ => exact absurd hProvides Bool.false_ne_true

theorem exec_tasks {q : QueueId} (hStep : exec g s f x = some (s', fs)) :
    s.tasks q ≤ s'.tasks q := by
  by_cases hAdd : ∃ p, f = .addTask p
  · obtain ⟨p, rfl⟩ := hAdd
    cases hStep
    by_cases hEq : q = p
    · subst hEq
      simp
    · simp [hEq]
  · rw [(exec_kept hStep).tasks (not_exists.mp hAdd)]

theorem Provided.exec {q : QueueId} (hExecutor : g.hasExecutor q = true)
    (hProvided : Provided s (A ++ f :: B) q) (hStep : exec g s f x = some (s', fs)) :
    Provided s' (A ++ (fs ++ B)) q := by
  intro hAfter
  rcases exec_shouldSubmit hStep hAfter with hSubmit | hBefore
  · exact Or.inr ⟨.submitToExecutor q, by simp [hSubmit], by simp [Frame.provides]⟩
  · rcases hProvided hBefore with hTasks | ⟨f', hMem, hProvides⟩
    · exact Or.inl (lt_of_lt_of_le hTasks (exec_tasks hStep))
    · by_cases hEq : f' = f
      · subst hEq
        rcases exec_provides hExecutor hProvides hBefore hStep with hTasks | ⟨f₁, hNew, hIs⟩
        · exact Or.inl hTasks
        · exact Or.inr ⟨f₁, by simp [hNew], hIs⟩
      · exact Or.inr ⟨f', mem_of_before fs hMem hEq, hProvides⟩

/-- Somebody who pushes onto a running queue submits. -/
theorem pushed_provided {q p : QueueId} {it : Item} (hProvided : Provided s A q)
    (hTasks : s'.tasks = s.tasks)
    (hQueues : s'.queues = (s.setQueue p ((s.queues p).push it)).queues)
    (hFrames : fs = if (s.queues p).running then [.submitToExecutor p] else []) :
    Provided s' (A ++ fs) q := by
  intro hAfter
  rw [hQueues, Shared.setQueue_queues] at hAfter
  by_cases hEq : q = p
  · subst hEq
    rw [Function.update_self] at hAfter
    have hRunning : (s.queues q).running = true := (Bool.and_eq_true_iff.mp hAfter).1
    exact Or.inr ⟨.submitToExecutor q, by simp [hFrames, hRunning], by simp [Frame.provides]⟩
  · rw [Function.update_of_ne hEq] at hAfter
    rcases hProvided hAfter with hSome | ⟨f', hMem, hProvides⟩
    · exact Or.inl (hTasks ▸ hSome)
    · exact Or.inr ⟨f', List.mem_append_left _ hMem, hProvides⟩

theorem Provided.spawn {q : QueueId} {b : QueueCall} (hProvided : Provided s A q)
    (hSpawned : Spawned g s b s' fs) : Provided s' (A ++ fs) q := by
  have hKeep : s'.queues = s.queues → s'.tasks = s.tasks → Provided s' (A ++ fs) q := by
    intro hQueues hTasks hAfter
    rw [hQueues] at hAfter
    rcases hProvided hAfter with hSome | ⟨f', hMem, hProvides⟩
    · exact Or.inl (hTasks ▸ hSome)
    · exact Or.inr ⟨f', List.mem_append_left _ hMem, hProvides⟩
  cases hSpawned with
  | called f => exact hKeep rfl rfl
  | refused => exact hKeep rfl rfl
  | worker p hTask =>
      intro hAfter
      by_cases hEq : p = q
      · exact Or.inr ⟨.runNextTask p, by simp, by simp [Frame.provides, hEq]⟩
      · rcases hProvided hAfter with hSome | ⟨f', hMem, hProvides⟩
        · left
          simpa [Ne.symm hEq] using hSome
        · exact Or.inr ⟨f', List.mem_append_left _ hMem, hProvides⟩
  | added n => exact pushed_provided hProvided rfl rfl rfl
  | addedForOpen n => exact pushed_provided hProvided rfl rfl rfl
  | reset p =>
      intro hAfter
      by_cases hEq : q = p
      · subst hEq
        simp [SchedulerQueue.shouldSubmit, SchedulerQueue.reset] at hAfter
      · rw [Shared.setQueue_queues, Function.update_of_ne hEq] at hAfter
        rcases hProvided hAfter with hSome | ⟨f', hMem, hProvides⟩
        · exact Or.inl hSome
        · exact Or.inr ⟨f', List.mem_append_left _ hMem, hProvides⟩

/-! ## Discarding nothing -/

/-- Queue `q` has no Process item and no unfinished task. -/
def discardable (s : Shared) (fs : List Frame) (q : QueueId) : Bool :=
  (s.queues q).items.all (fun it => it.isOpenNode) && decide (s.tasks q = 0) &&
    fs.all fun f => !f.isTask q

/-- `Reset` and `CleanupAfterRun` are not called. -/
def discardsNothing : Guard Shared Frame Choice QueueCall where
  exec := fun _ _ f _ =>
    match f with
    | .cleanupAfterRun _ => false
    | _ => true
  spawn := fun _ _ b =>
    match b with
    | .reset _ => false
    | _ => true

/-- `Reset` and `CleanupAfterRun` are called only when the queue has no Process
item and no unfinished task. -/
def discardsNoWork : Guard Shared Frame Choice QueueCall where
  exec := fun s others f _ =>
    match f with
    | .cleanupAfterRun q => discardable s others q
    | _ => true
  spawn := fun s fs b =>
    match b with
    | .reset q => discardable s fs q
    | _ => true

/-- A guard under which no work is discarded. -/
structure Careful (G : Guard Shared Frame Choice QueueCall) : Prop where
  cleanup : ∀ s others q x, G.exec s others (.cleanupAfterRun q) x = true →
    discardable s others q = true
  reset : ∀ s fs q, G.spawn s fs (.reset q) = true → discardable s fs q = true

theorem careful_discardsNothing : Careful discardsNothing where
  cleanup := fun _ _ _ _ hGuard => absurd hGuard Bool.false_ne_true
  reset := fun _ _ _ hGuard => absurd hGuard Bool.false_ne_true

theorem careful_discardsNoWork : Careful discardsNoWork where
  cleanup := fun _ _ _ _ hGuard => hGuard
  reset := fun _ _ _ hGuard => hGuard

theorem discardable_iff {q : QueueId} : discardable s fs q = true ↔
    (∀ it ∈ (s.queues q).items, it.isOpenNode = true) ∧ s.tasks q = 0 ∧
      fs.countP (Frame.isTask q) = 0 := by
  simp [discardable, List.countP_eq_zero, and_assoc]

/-- Emptying a queue without work discards nothing that is counted. -/
theorem counted_discarded {p q : QueueId} {queue : SchedulerQueue}
    (hPending : queue.numPendingTasks = 0) (hDiscardable : discardable s fs q = true)
    (hCounted : Counted s fs p) : Counted (s.setQueue q queue) fs p := by
  obtain ⟨-, hTasks, hNone⟩ := discardable_iff.mp hDiscardable
  unfold Counted at hCounted ⊢
  by_cases hEq : p = q
  · subst hEq
    simp [Shared.setQueue, hPending, hTasks, hNone]
  · simpa [Shared.setQueue, hEq] using hCounted

theorem balance_kept {q : QueueId} {queue : SchedulerQueue} (hItems : queue.items = [])
    (hDiscardable : discardable s fs q = true) (n : NodeId) :
    balance g (s.setQueue q queue) n = balance g s n := by
  obtain ⟨hOpen, -, -⟩ := discardable_iff.mp hDiscardable
  unfold balance waiting
  by_cases hSame : g.queue n = q
  · have hNone : (s.queues q).items.count (g.item n) = 0 := by
      refine List.count_eq_zero_of_not_mem fun hMem => ?_
      exact Bool.false_ne_true (hOpen _ hMem)
    simp [Shared.setQueue, hSame, hItems, hNone]
  · simp [Shared.setQueue, hSame]

/-- The two counts of a queue machine in which no work is discarded. -/
structure Exact (g : Graph) (s : Shared) (fs : List Frame) : Prop where
  tasks : ∀ q, Counted s fs q
  pending : ∀ n, balance g s n = fs.countP (Frame.inFlight n)

theorem Exact.exec {G : Guard Shared Frame Choice QueueCall} (hCareful : Careful G)
    (hStocked : Stocked g s (A ++ f :: B)) (hExact : Exact g s (A ++ f :: B))
    (hGuard : G.exec s (A ++ B) f x = true) (hStep : exec g s f x = some (s', fs)) :
    Exact g s' (A ++ (fs ++ B)) := by
  by_cases hCleanup : ∃ q, f = .cleanupAfterRun q
  · obtain ⟨q, rfl⟩ := hCleanup
    have hDiscardable := hCareful.cleanup s (A ++ B) q x hGuard
    cases hStep
    refine ⟨fun p => counted_discarded rfl hDiscardable ?_, fun n => ?_⟩
    · have hBefore := hExact.tasks p
      simpa [Counted, List.countP_append, Frame.isTask] using hBefore
    · have hBefore := hExact.pending n
      rw [balance_kept rfl hDiscardable, hBefore]
      simp [List.countP_append, Frame.inFlight]
  · have hNot := not_exists.mp hCleanup
    refine ⟨fun q => (hExact.tasks q).exec hNot hStep, fun n => ?_⟩
    have hBalance := exec_inFlight hStocked hNot hStep n
    have hBefore := hExact.pending n
    simp only [List.countP_append, List.countP_cons, List.countP_nil] at hBefore hBalance ⊢
    omega

theorem Exact.spawn {G : Guard Shared Frame Choice QueueCall} (hCareful : Careful G)
    {b : QueueCall} (hExact : Exact g s A) (hGuard : G.spawn s A b = true)
    (hSpawned : Spawned g s b s' fs) : Exact g s' (A ++ fs) := by
  have hNone : ∀ n, fs.countP (Frame.inFlight n) = 0 :=
    fun n => countP_inFlight_of_not_run n hSpawned.not_run
  have hSubmit : ∀ {p : QueueId} {b : Bool} (q : QueueId),
      (if b then [Frame.submitToExecutor p] else []).countP (Frame.isTask q) = 0 := by
    intro p b q
    split <;> simp [Frame.isTask]
  constructor
  · intro q
    have hBefore := hExact.tasks q
    cases hSpawned with
    | called f _ hTask => simpa [Counted, List.countP_append, hTask q] using hBefore
    | refused => simpa [Counted] using hBefore
    | reset p hCall =>
        rw [List.append_nil]
        exact counted_discarded rfl (hCareful.reset s A p (hCall ▸ hGuard)) hBefore
    | worker p hTask =>
        unfold Counted at hBefore ⊢
        rw [List.countP_append]
        by_cases hEq : p = q
        · subst hEq
          simp [Frame.isTask]
          omega
        · simpa [Frame.isTask, hEq, Ne.symm hEq] using hBefore
    | added n | addedForOpen n =>
        unfold Counted at hBefore ⊢
        rw [List.countP_append, hSubmit q]
        by_cases hEq : q = g.queue n
        · subst hEq
          simpa [Shared.setQueue, Shared.incrementPending, SchedulerQueue.push] using hBefore
        · simpa [Shared.setQueue, Shared.incrementPending, hEq] using hBefore
  · intro n
    have hBefore := hExact.pending n
    rw [List.countP_append, hNone n, Nat.add_zero, ← hBefore]
    cases hSpawned with
    | called | worker | refused => rfl
    | added m => exact balance_pushed m n
    | addedForOpen m => exact balance_pushed_open m n
    | reset p hCall => exact balance_kept rfl (hCareful.reset s A p (hCall ▸ hGuard)) n

section

variable {G : Guard Shared Frame Choice QueueCall} {outputs : OutId → OutputStreamManager}
  {defaultQueue : QueueId} {errorCallback : Bool} {c : Config Shared Frame}

theorem exact_of_reaches (hCareful : Careful G) (hReach : (queueMachine g).Reaches G
      (atRest (initial outputs defaultQueue errorCallback)) c) :
    Exact g c.shared c.frames := by
  refine Machine.invariant_with (J := Stocked g) (I := Exact g)
    (fun c hReach => stocked_of_reaches hReach) ?_ ?_ ?_ hReach
  · refine ⟨fun q => ?_, fun n => ?_⟩
    · simp [Counted, Config.frames, atRest, initial]
    · simp [Config.frames, atRest, balance, waiting, initial]
  · intro s A f B x s' fs hStocked hExact hGuard hStep
    exact hExact.exec hCareful hStocked hGuard hStep
  · intro s A b s' fs _ hExact hGuard hSpawn
    exact hExact.spawn hCareful hGuard (spawned_of_queueSpawn hSpawn)

/-- A `RunNode` call is made by a task, whoever calls what else. -/
theorem task_of_run (hReach : (queueMachine g).Reaches G
      (atRest (initial outputs defaultQueue errorCallback)) c) :
    ∀ r pc, .run r pc ∈ c.frames → .onTaskFinished r.queue ∈ c.frames := by
  have hStacks : ∀ stack ∈ c.threads, RunsInTask stack := by
    refine Machine.stacks_invariant ?_ ?_ ?_ hReach
    · simp [atRest]
    · intro s f below x s' fs hStack hStep
      exact hStack.exec hStep
    · intro s b s' fs hSpawn
      rw [← List.append_nil fs, runsInTask_append (spawned_of_queueSpawn hSpawn).not_run]
      exact True.intro
  intro r pc hMem
  obtain ⟨stack, hStack, hIn⟩ := List.mem_flatten.mp hMem
  exact List.mem_flatten.mpr ⟨stack, hStack, onTaskFinished_of_run (hStacks stack hStack) hIn⟩

/-- An idle queue is quiet as long as no work is discarded. -/
theorem quiet_of_careful (hCareful : Careful G) (hReach : (queueMachine g).Reaches G
      (atRest (initial outputs defaultQueue errorCallback)) c) {q : QueueId}
    (hIdle : (c.shared.queues q).isIdle = true) : Quiet c.shared c.frames q :=
  quiet_of_isIdle ((exact_of_reaches hCareful hReach).tasks q) (task_of_run hReach) hIdle

/-- **A queue makes progress and knows when it is idle**, as long as nothing is
discarded: `num_pending_tasks_` counts the tasks submitted and not finished, in
the executor and outside; an idle queue has no item and no running node; and
when the queue is running and has items, and nobody is about to submit, a task
is outstanding. -/
theorem queue_progress (hReach : (queueMachine g).Reaches discardsNothing
      (atRest (initial outputs defaultQueue errorCallback)) c)
    (q : QueueId) (hExecutor : g.hasExecutor q = true) :
    (c.shared.queues q).numPendingTasks =
        c.shared.tasks q + c.frames.countP (Frame.isTask q) ∧
      ((c.shared.queues q).isIdle = true → (c.shared.queues q).items = [] ∧
        ∀ r pc, .run r pc ∈ c.frames → r.queue ≠ q) ∧
      ((c.shared.queues q).running = true → (c.shared.queues q).items ≠ [] →
        .submitToExecutor q ∉ c.frames →
        0 < c.shared.tasks q + c.frames.countP (Frame.isTask q)) := by
  have hExact := exact_of_reaches careful_discardsNothing hReach
  refine ⟨hExact.tasks q, fun hIdle => ?_, fun hRunning hItems hNoSubmit => ?_⟩
  · have hQuiet := quiet_of_careful careful_discardsNothing hReach hIdle
    exact ⟨hQuiet.items, hQuiet.run⟩
  · have hProvided : Provided c.shared c.frames q := by
      refine Machine.invariant (I := fun s fs => Provided s fs q) ?_ ?_ ?_ hReach
      · intro hShould
        simp [atRest, initial, SchedulerQueue.shouldSubmit] at hShould
      · intro s A f B x s' fs hProvided _ hStep
        exact hProvided.exec hExecutor hStep
      · intro s A b s' fs hProvided _ hSpawn
        exact hProvided.spawn (spawned_of_queueSpawn hSpawn)
    have hShould : (c.shared.queues q).shouldSubmit = true := by
      simp [SchedulerQueue.shouldSubmit, hRunning, hItems]
    rcases hProvided hShould with hTasks | ⟨f, hMem, hProvides⟩
    · omega
    · have hIsTask : f.isTask q = true := by
        cases f with
        | submitToExecutor p =>
            obtain rfl : p = q := of_decide_eq_true hProvides
            exact absurd hMem hNoSubmit
        | addTask p | runNextTask p | onTaskFinished p => exact hProvides
        | _ => exact absurd hProvides Bool.false_ne_true
      have hPos := List.countP_pos_iff.mpr ⟨f, hMem, hIsTask⟩
      omega

/-- The rule at work: a node is added while the queue is paused, and the queue is
resumed. -/
theorem queue_progress_chain :
    ∃ c : Config Shared Frame, (c.shared.queues 0).items ≠ [] ∧
      0 < c.shared.tasks 0 + c.frames.countP (Frame.isTask 0) := by
  obtain ⟨c, hReach, hTest⟩ := (queueMachine (.chain 1 id (by simp))).exists_reaches
    discardsNothing (atRest (chainInitial 1 false))
    (.spawn (.addNode 0) :: .spawn (.setRunning 0 true) :: queueRuns 1 3)
    (fun c => (c.shared.queues 0).running && !(c.shared.queues 0).items.isEmpty &&
      c.frames.isEmpty) (by decide +kernel)
  simp only [Bool.and_eq_true, Bool.not_eq_true', List.isEmpty_iff, List.isEmpty_eq_false_iff]
    at hTest
  obtain ⟨⟨hRunning, hItems⟩, hNone⟩ := hTest
  exact ⟨c, hItems, (queue_progress hReach 0 rfl).2.2 hRunning hItems (by simp [hNone])⟩

/-- **The accounting is exact** as long as no work is discarded: `pending_count_`
of a node is the number of its Process items and unfinished calls, so that a
node with none of either is taken by `AddNode`, and no queue is idle while it
runs a node. -/
theorem accounting_exact (hReach : (queueMachine g).Reaches discardsNoWork
      (atRest (initial outputs defaultQueue errorCallback)) c) :
    (∀ n, c.shared.pendingCount n =
        waiting g c.shared n + c.frames.countP (Frame.inFlight n)) ∧
      (∀ n, 1 ≤ g.maxInFlight n → waiting g c.shared n = 0 →
        c.frames.countP (Frame.inFlight n) = 0 →
        waiting g (addNode g c.shared n).1 n = 1) ∧
      ∀ q, (c.shared.queues q).isIdle = true →
        ∀ r pc, .run r pc ∈ c.frames → r.queue ≠ q := by
  have hPending : ∀ n, c.shared.pendingCount n =
      waiting g c.shared n + c.frames.countP (Frame.inFlight n) := by
    intro n
    have hBalance := (exact_of_reaches careful_discardsNoWork hReach).pending n
    unfold balance at hBalance
    omega
  refine ⟨hPending, fun n hLimit hWaiting hFree => ?_, fun q hIdle => ?_⟩
  · have hZero := hPending n
    rcases addNode_cases g c.shared n with ⟨hFull, -⟩ | ⟨-, hPush⟩
    · omega
    · rw [hPush]
      unfold waiting at hWaiting ⊢
      simp [SchedulerQueue.push, hWaiting]
  · exact (quiet_of_careful careful_discardsNoWork hReach hIdle).run

/-- The rule at work: an empty queue is reset, and then its node runs. -/
theorem accounting_exact_chain :
    ∃ c : Config Shared Frame, c.frames.countP (Frame.inFlight 0) = 1 ∧
      c.shared.pendingCount 0 = 1 := by
  obtain ⟨c, hReach, hTest⟩ := (queueMachine (.chain 1 id (by simp))).exists_reaches
    discardsNoWork (atRest (chainInitial 1 false))
    (.spawn (.reset 0) :: .spawn (.setRunning 0 true) :: queueRuns 1 1 ++
      .spawn (.addNode 0) :: queueRuns 2 2 ++ .spawn (.call (.worker 0)) :: queueRuns 3 5)
    (fun c => decide (c.frames.countP (Frame.inFlight 0) = 1) &&
      decide (waiting (.chain 1 id (by simp)) c.shared 0 = 0)) (by decide +kernel)
  simp only [Bool.and_eq_true, decide_eq_true_eq] at hTest
  obtain ⟨hRunning, hWaiting⟩ := hTest
  refine ⟨c, hRunning, ?_⟩
  rw [(accounting_exact hReach).1 0, hWaiting, hRunning]
  rfl

/-- **Discarding loses counts**: `Reset` discards the item of a node, whose
`pending_count_` stays, so that `AddNode` refuses the node from then on; and after
`CleanupAfterRun` under a running node the queue is idle. -/
theorem discarding_loses_counts :
    (∃ c : Config Shared Frame,
      (queueMachine (.chain 1 id (by simp))).Reaches Guard.all (atRest (chainInitial 1 false)) c ∧
      c.frames = [] ∧ waiting (.chain 1 id (by simp)) c.shared 0 = 0 ∧
      c.shared.pendingCount 0 = 1 ∧
      addNode (.chain 1 id (by simp)) c.shared 0 = (c.shared, [])) ∧
    ∃ c : Config Shared Frame,
      (queueMachine (.chain 1 id (by simp))).Reaches Guard.all (atRest (chainInitial 1 false)) c ∧
      (c.shared.queues 0).isIdle = true ∧ c.frames.countP (Frame.inProcess 0) = 1 := by
  constructor
  · obtain ⟨c, hReach, hTest⟩ := (queueMachine (.chain 1 id (by simp))).exists_reaches
      Guard.all (atRest (chainInitial 1 false)) [.spawn (.addNode 0), .spawn (.reset 0)]
      (fun c => c.frames.isEmpty && decide (waiting (.chain 1 id (by simp)) c.shared 0 = 0) &&
        decide (c.shared.pendingCount 0 = 1)) (by decide +kernel)
    simp only [Bool.and_eq_true, decide_eq_true_eq, List.isEmpty_iff] at hTest
    obtain ⟨⟨hNone, hWaiting⟩, hPending⟩ := hTest
    refine ⟨c, hReach, hNone, hWaiting, hPending, ?_⟩
    have hLimit : (Graph.chain 1 id (by simp)).maxInFlight 0 = 1 := rfl
    unfold addNode
    rw [if_pos (by omega)]
  · obtain ⟨c, hReach, hTest⟩ := (queueMachine (.chain 1 id (by simp))).exists_reaches
      Guard.all (atRest (chainInitial 1 false))
      (.spawn (.setRunning 0 true) :: queueRuns 0 1 ++ .spawn (.addNode 0) :: queueRuns 1 2 ++
        .spawn (.call (.worker 0)) :: queueRuns 2 5 ++
        .spawn (.cleanupAfterRun 0) :: queueRuns 3 1)
      (fun c => (c.shared.queues 0).isIdle && decide (c.frames.countP (Frame.inProcess 0) = 1))
      (by decide +kernel)
    simp only [Bool.and_eq_true, decide_eq_true_eq] at hTest
    exact ⟨c, hReach, hTest.1, hTest.2⟩

end

end GraphRuntime.Scheduler
