import GraphRuntime.Scheduler.Accounting

/-!
# Who is inside `HandleIdle`, and what an idle queue says

Three facts about every run, on which the results about termination rest:

* `RunsInTask`: a `RunNode` call is made by a task, so that below it on its
  stack `OnTaskFinished` of the same queue is still to come;
* `Exclusive`: `handling_idle_` counts the `HandleIdle` calls that have passed
  the increment, and at most one of them got past the guard;
* `Counted`: `num_pending_tasks_` of a queue counts its tasks, from
  `SubmitToExecutor` to `OnTaskFinished`.

`CleanupAfterRun` resets `num_pending_tasks_` under tasks that still run, so
the last one holds in the form of `Sound`: until the scheduler is terminated,
or the pass that cleans up is about to do so.  This needs that no call moves
`state_` out of `kTerminated` again (`staysTerminated`).
-/

namespace GraphRuntime.Scheduler

open GraphRuntime.Stream Interleaving

variable {g : Graph} {s s' : Shared} {f : Frame} {fs A B below : List Frame}
  {x : Choice}

/-! ## Calls run inside tasks -/

/-- Every `RunNode` call has its task's `OnTaskFinished` right below it. -/
def RunsInTask : List Frame → Prop
  | [] => True
  | .run r _ :: below =>
      below.head? = some (.onTaskFinished r.queue) ∧ RunsInTask below
  | _ :: below => RunsInTask below

theorem runsInTask_cons (hNotRun : ∀ r pc, f ≠ .run r pc) :
    RunsInTask (f :: below) ↔ RunsInTask below := by
  cases f with
  | run r pc => exact absurd rfl (hNotRun r pc)
  | _ => exact Iff.rfl

theorem runsInTask_append {l : List Frame} (hNotRun : ∀ f ∈ l, ∀ r pc, f ≠ .run r pc) :
    RunsInTask (l ++ below) ↔ RunsInTask below := by
  induction l with
  | nil => exact Iff.rfl
  | cons f l ih =>
      rw [List.cons_append, runsInTask_cons (hNotRun f List.mem_cons_self)]
      exact ih fun f' hMem => hNotRun f' (List.mem_cons_of_mem f hMem)

theorem RunsInTask.exec (hStack : RunsInTask (f :: below))
    (hStep : exec g s f x = some (s', fs)) : RunsInTask (fs ++ below) := by
  cases f with
  | run r pc =>
      obtain ⟨hTask, hBelow⟩ := hStack
      obtain ⟨t, hTurn, rfl, rfl⟩ := exec_run hStep
      rw [List.append_assoc,
        runsInTask_append fun f' hMem => (runStep_calls hTurn f' hMem).2]
      cases hNext : t.next with
      | none => exact hBelow
      | some p =>
          have hQueue : p.1.queue = r.queue := (runStep_next hTurn hNext).1
          exact ⟨by simpa [hQueue] using hTask, hBelow⟩
  | runNextTask q =>
      simp only [Scheduler.exec] at hStep
      split at hStep <;> cases hStep
      · exact hStack
      · exact ⟨rfl, hStack⟩
  | _ =>
      rw [runsInTask_append (not_run_of_exec (by simp) (by simp) hStep)]
      exact (runsInTask_cons (by simp)).mp hStack

theorem onTaskFinished_of_run {stack : List Frame} {r : Invocation} {pc : RunPc}
    (hStack : RunsInTask stack) (hMem : .run r pc ∈ stack) :
    .onTaskFinished r.queue ∈ stack := by
  induction stack with
  | nil => exact absurd hMem List.not_mem_nil
  | cons f stack ih =>
      by_cases hRun : ∃ r' pc', f = .run r' pc'
      · obtain ⟨r', pc', rfl⟩ := hRun
        rcases List.mem_cons.mp hMem with hTop | hBelow
        · cases hTop
          exact List.mem_cons_of_mem _ (List.mem_of_head? hStack.1)
        · exact List.mem_cons_of_mem _ (ih hStack.2 hBelow)
      · simp only [not_exists] at hRun
        rcases List.mem_cons.mp hMem with hTop | hBelow
        · exact absurd hTop.symm (hRun r pc)
        · exact List.mem_cons_of_mem _ (ih ((runsInTask_cons hRun).mp hStack) hBelow)

/-- **A running node has an unfinished task**, on the same queue. -/
theorem runsInTask_of_reaches {G : Guard Shared Frame Choice Call}
    {c : Config Shared Frame} (hReach : (machine g).Reaches G (started s) c) :
    ∀ stack ∈ c.threads, RunsInTask stack := by
  refine Machine.stacks_invariant ?_ ?_ ?_ hReach
  · simp [started, RunsInTask]
  · intro s f below x s' fs hStack hStep
    exact hStack.exec hStep
  · intro s b s' fs hSpawn
    obtain ⟨-, -, hNew⟩ := spawn_frame hSpawn
    rw [← List.append_nil fs, runsInTask_append]
    · exact True.intro
    · intro f hMem r pc hEq
      rcases hNew f hMem with ⟨q, hFrame⟩ | ⟨pc', hFrame⟩ <;> simp_all

/-! ## One call at a time -/

/-- The call has passed the increment. -/
def IdlePc.entered : IdlePc → Bool
  | .enter => false
  | _ => true

/-- The call has passed the guard. -/
def IdlePc.holds : IdlePc → Bool
  | .enter | .dropLeave => false
  | _ => true

def Frame.entered : Frame → Bool
  | .handleIdle pc => pc.entered
  | _ => false

def Frame.holdsIdle : Frame → Bool
  | .handleIdle pc => pc.holds
  | _ => false

structure Exclusive (s : Shared) (fs : List Frame) : Prop where
  count : s.handlingIdle = fs.countP Frame.entered
  holder : fs.countP Frame.holdsIdle ≤ 1

theorem entered_of_holdsIdle (hHolds : f.holdsIdle = true) : f.entered = true := by
  cases f with
  | handleIdle pc => cases pc <;> first | rfl | exact absurd hHolds Bool.false_ne_true
  | _ => exact absurd hHolds Bool.false_ne_true

/-- How a call changes the counter, and whether it is still entered. -/
theorem idleStep_entered (g : Graph) (s : Shared) (pc : IdlePc) :
    (idleStep g s pc).state.handlingIdle -
        ((idleStep g s pc).next.map Frame.handleIdle).toList.countP Frame.entered =
      s.handlingIdle - [Frame.handleIdle pc].countP Frame.entered := by
  fun_cases idleStep g s pc
  all_goals try (simp only [scheduleThen]; rw [scheduleNode_eq])
  all_goals try split
  all_goals simp [Frame.entered, IdlePc.entered, Shared.record]

/-- A call that is past the guard stays there; only the first one gets past. -/
theorem idleStep_holds {pc pc' : IdlePc} (hNext : (idleStep g s pc).next = some pc')
    (hHolds : pc'.holds = true) :
    pc.holds = true ∨ (pc = .enter ∧ pc' = .readCancelled ∧ s.handlingIdle ≤ 0) := by
  cases pc with
  | enter =>
      have hTurn : (idleStep g s .enter).next =
          some (if s.handlingIdle + 1 > 1 then .dropLeave else .readCancelled) := rfl
      rw [hTurn] at hNext
      split at hNext <;> cases hNext
      · exact absurd hHolds Bool.false_ne_true
      · exact Or.inr ⟨rfl, rfl, by omega⟩
  | dropLeave => cases hNext
  | _ => exact Or.inl rfl

theorem countP_of_not_idle {P : Frame → Bool} {l : List Frame}
    (hIdle : ∀ f, P f = true → ∃ pc, f = .handleIdle pc ∧ pc ≠ .enter)
    (hNone : ∀ f ∈ l, ∀ pc, f = .handleIdle pc → pc = .enter) : l.countP P = 0 := by
  rw [List.countP_eq_zero]
  intro f hMem hP
  obtain ⟨pc, rfl, hNe⟩ := hIdle f hP
  exact hNe (hNone _ hMem pc rfl)

theorem pc_of_entered (hEntered : f.entered = true) :
    ∃ pc, f = .handleIdle pc ∧ pc ≠ .enter := by
  cases f with
  | handleIdle pc =>
      refine ⟨pc, rfl, ?_⟩
      rintro rfl
      exact absurd hEntered Bool.false_ne_true
  | _ => exact absurd hEntered Bool.false_ne_true

/-- Other functions only ever start a call of `HandleIdle`. -/
theorem Frame.Leaves.enter {pc : IdlePc} (hLeaves : f.Leaves (.handleIdle pc))
    (hNotIdle : ∀ pc', f ≠ .handleIdle pc') : pc = .enter := by
  cases pc with
  | enter => rfl
  | _ =>
      exfalso
      cases f with
      | handleIdle pc' => exact hNotIdle pc' rfl
      | run r pc' => cases pc' <;> exact hLeaves
      | start pc' =>
          cases pc' with
          | wire rest => cases rest <;> exact hLeaves
          | _ => exact hLeaves
      | api pc' => cases pc' <;> exact hLeaves
      | _ => exact hLeaves

theorem enter_of_leaves (hNotIdle : ∀ pc, f ≠ .handleIdle pc)
    (hStep : exec g s f x = some (s', fs)) :
    ∀ f' ∈ fs, ∀ pc, f' = .handleIdle pc → pc = .enter := by
  rintro f' hMem pc rfl
  exact (exec_leaves hStep _ hMem).enter hNotIdle

theorem Exclusive.exec (hExclusive : Exclusive s (A ++ f :: B))
    (hStep : exec g s f x = some (s', fs)) : Exclusive s' (A ++ (fs ++ B)) := by
  obtain ⟨hCount, hHolder⟩ := hExclusive
  simp only [List.countP_append, List.countP_cons] at hCount hHolder
  by_cases hIdle : ∃ pc, f = .handleIdle pc
  · obtain ⟨pc, rfl⟩ := hIdle
    have hEntered := idleStep_entered g s pc
    have hCalls := fun f' hMem => (idleStep_calls (g := g) (s := s) pc f' hMem).2
    have hNoEntered : (idleStep g s pc).calls.countP Frame.entered = 0 :=
      countP_of_not_idle (fun _ => pc_of_entered)
        fun f' hMem pc' hEq => absurd hEq (hCalls f' hMem pc')
    have hNoHolder : (idleStep g s pc).calls.countP Frame.holdsIdle = 0 :=
      countP_of_not_idle (fun _ hHolds => pc_of_entered (entered_of_holdsIdle hHolds))
        fun f' hMem pc' hEq => absurd hEq (hCalls f' hMem pc')
    have hOthers : (A ++ B).countP Frame.holdsIdle ≤ (A ++ B).countP Frame.entered :=
      List.countP_mono_left fun f _ hHolds => entered_of_holdsIdle hHolds
    simp only [List.countP_append] at hOthers
    obtain ⟨rfl, rfl⟩ := exec_handleIdle hStep
    constructor
    · simp only [List.countP_append, hNoEntered]
      simp only [List.countP_cons, List.countP_nil] at hEntered
      omega
    · simp only [List.countP_append, hNoHolder]
      cases hNext : (idleStep g s pc).next with
      | none => simp only [Option.map_none, Option.toList_none, List.countP_nil]; omega
      | some pc' =>
          simp only [Option.map_some, Option.toList_some, List.countP_cons,
            List.countP_nil, zero_add]
          by_cases hHolds : pc'.holds = true
          · rcases idleStep_holds hNext hHolds with hBefore | ⟨rfl, -, hFree⟩
            · simp only [Frame.holdsIdle, hBefore, hHolds] at hHolder ⊢
              omega
            · -- nobody else has entered
              have hTop : Frame.entered (.handleIdle .enter) = false := rfl
              simp only [hTop] at hCount
              simp only [Frame.holdsIdle, hHolds, if_true]
              omega
          · simp only [Frame.holdsIdle, hHolds]
            simp only [Bool.false_eq_true, if_false]
            omega
  · simp only [not_exists] at hIdle
    have hEnter := enter_of_leaves hIdle hStep
    have hTop : f.entered = false := by
      cases f with
      | handleIdle pc => exact absurd rfl (hIdle pc)
      | _ => rfl
    have hNoEntered : fs.countP Frame.entered = 0 :=
      countP_of_not_idle (fun _ => pc_of_entered) hEnter
    have hNoHolder : fs.countP Frame.holdsIdle = 0 :=
      countP_of_not_idle (fun _ hHolds => pc_of_entered (entered_of_holdsIdle hHolds)) hEnter
    constructor
    · rw [(exec_kept hStep).handlingIdle hIdle, hCount]
      simp only [List.countP_append, hNoEntered, hTop]
      simp
    · simp only [List.countP_append, hNoHolder]
      omega

theorem Exclusive.spawn {b : Call} (hExclusive : Exclusive s A)
    (hSpawn : Scheduler.spawn g s b = some (s', fs)) : Exclusive s' (A ++ fs) := by
  obtain ⟨tasks, rfl, hNew⟩ := spawn_frame hSpawn
  have hNone : ∀ f ∈ fs, ∀ pc, f = .handleIdle pc → pc = .enter := by
    rintro f hMem pc rfl
    rcases hNew _ hMem with ⟨q, hEq⟩ | ⟨pc', hEq⟩ <;> cases hEq
  have hNoEntered : fs.countP Frame.entered = 0 :=
    countP_of_not_idle (fun _ => pc_of_entered) hNone
  have hNoHolder : fs.countP Frame.holdsIdle = 0 :=
    countP_of_not_idle (fun _ hHolds => pc_of_entered (entered_of_holdsIdle hHolds)) hNone
  constructor
  · rw [List.countP_append, hNoEntered]
    exact hExclusive.count
  · rw [List.countP_append, hNoHolder]
    exact hExclusive.holder

/-- **One call at a time**: of the calls under way at most one is past the
guard. -/
theorem exclusive_of_reaches {G : Guard Shared Frame Choice Call}
    {outputs : OutId → OutputStreamManager} {defaultQueue : QueueId}
    {errorCallback : Bool} {c : Config Shared Frame}
    (hReach : (machine g).Reaches G
      (started (initial outputs defaultQueue errorCallback)) c) :
    Exclusive c.shared c.frames := by
  refine Machine.invariant ?_ ?_ ?_ hReach
  · exact ⟨rfl, by simp [Config.frames, started, Frame.holdsIdle]⟩
  · intro s A f B x s' fs hExclusive _ hStep
    exact hExclusive.exec hStep
  · intro s A b s' fs hExclusive _ hSpawn
    exact hExclusive.spawn hSpawn

/-! ## The count of tasks -/

/-- The places of a task of queue `q` outside the executor. -/
def Frame.isTask (q : QueueId) : Frame → Bool
  | .addTask p | .runNextTask p | .dropTask p | .onTaskFinished p => decide (p = q)
  | _ => false

def Counted (s : Shared) (fs : List Frame) (q : QueueId) : Prop :=
  (s.queues q).numPendingTasks = s.tasks q + fs.countP (Frame.isTask q)

theorem countP_isTask_of_leaves {q : QueueId} (hNone : ∀ f' ∈ fs, f'.isTask q = false) :
    fs.countP (Frame.isTask q) = 0 := by
  rw [List.countP_eq_zero]
  intro f' hMem
  simp [hNone f' hMem]

/-- The steps outside the life of a task. -/
theorem exec_untasked {q : QueueId} (hTask : f.isTask q = false)
    (hSubmit : f ≠ .submitToExecutor q) (hCleanup : ∀ q, f ≠ .cleanupAfterRun q)
    (hStep : exec g s f x = some (s', fs)) :
    (s'.queues q).numPendingTasks = (s.queues q).numPendingTasks ∧
      s'.tasks q = s.tasks q ∧ fs.countP (Frame.isTask q) = 0 := by
  refine ⟨?_, ?_, countP_isTask_of_leaves fun f' hMem => ?_⟩
  · have hChange := exec_queue q hStep
    generalize s'.queues q = queue at hChange ⊢
    cases hChange with
    | submitted => exact absurd rfl hSubmit
    | dropped | finished => simp [Frame.isTask] at hTask
    | cleaned => exact absurd rfl (hCleanup q)
    | decided _ r b _ =>
        unfold SchedulerQueue.decideFinalize
        repeat' split
        all_goals rfl
    | _ => rfl
  · by_cases hAdd : ∃ p, f = .addTask p
    · obtain ⟨p, rfl⟩ := hAdd
      cases hStep
      have hNe : p ≠ q := by simpa [Frame.isTask] using hTask
      simp [Ne.symm hNe]
    · rw [(exec_kept hStep).tasks (not_exists.mp hAdd)]
  · have hLeaves := exec_leaves hStep f' hMem
    cases f' with
    | addTask p =>
        cases f with
        | submitToExecutor p' =>
            have hSame : p' = p := hLeaves
            exact decide_eq_false fun hEq => hSubmit (by rw [hSame, hEq])
        | api pc => cases pc <;> exact False.elim hLeaves
        | _ => exact False.elim hLeaves
    | runNextTask p =>
        cases f with
        | api pc => cases pc <;> exact False.elim hLeaves
        | _ => exact False.elim hLeaves
    | dropTask p | onTaskFinished p =>
        cases f with
        | runNextTask p' =>
            have hSame : p' = p := hLeaves
            exact hSame ▸ hTask
        | api pc => cases pc <;> exact False.elim hLeaves
        | _ => exact False.elim hLeaves
    | _ => rfl

theorem Counted.exec {q : QueueId} (hCounted : Counted s (A ++ f :: B) q)
    (hCleanup : ∀ q, f ≠ .cleanupAfterRun q)
    (hStep : exec g s f x = some (s', fs)) : Counted s' (A ++ (fs ++ B)) q := by
  unfold Counted at hCounted ⊢
  simp only [List.countP_append, List.countP_cons] at hCounted ⊢
  by_cases hSubmit : f = .submitToExecutor q
  · subst hSubmit
    have hTop : Frame.isTask q (.submitToExecutor q) = false := rfl
    simp only [Scheduler.exec] at hStep
    split at hStep <;> cases hStep
    · simp only [hTop, Bool.false_eq_true, if_false] at hCounted
      simp [Frame.isTask, Shared.setQueue, SchedulerQueue.taskSubmitted]
      omega
    · simp only [hTop, Bool.false_eq_true, if_false] at hCounted
      simp
      omega
  · by_cases hTask : f.isTask q = true
    · rw [hTask] at hCounted
      cases f with
      | addTask p =>
          obtain rfl : p = q := by simpa [Frame.isTask] using hTask
          cases hStep
          simp only [Function.update_self, List.countP_nil]
          simp at hCounted
          omega
      | runNextTask p =>
          obtain rfl : p = q := by simpa [Frame.isTask] using hTask
          simp only [Scheduler.exec] at hStep
          split at hStep <;> cases hStep
          · simp only [List.countP_cons, List.countP_nil, Frame.isTask] at hCounted ⊢
            simp at hCounted ⊢
            omega
          · rename_i hPop
            obtain ⟨-, rfl⟩ := SchedulerQueue.tryPop_eq_some hPop
            simp only [List.countP_cons, List.countP_nil, Frame.isTask] at hCounted ⊢
            simp [Shared.setQueue] at hCounted ⊢
            omega
      | dropTask p =>
          obtain rfl : p = q := by simpa [Frame.isTask] using hTask
          cases hStep
          simp [Frame.isTask, Shared.setQueue, SchedulerQueue.taskFinished] at hCounted ⊢
          omega
      | onTaskFinished p =>
          obtain rfl : p = q := by simpa [Frame.isTask] using hTask
          cases hStep
          split <;>
            simp [Frame.isTask, Shared.setQueue, SchedulerQueue.taskFinished] at hCounted ⊢ <;>
            omega
      | _ => simp [Frame.isTask] at hTask
    · have hTop : f.isTask q = false := by simpa using hTask
      obtain ⟨hPending, hTasks, hNone⟩ := exec_untasked hTop hSubmit hCleanup hStep
      rw [hPending, hTasks, hNone]
      simp only [hTop, Bool.false_eq_true, if_false] at hCounted
      omega

theorem Counted.spawn {q : QueueId} {b : Call} (hCounted : Counted s A q)
    (hSpawn : spawn g s b = some (s', fs)) : Counted s' (A ++ fs) q := by
  unfold Counted at hCounted ⊢
  rw [List.countP_append]
  rcases spawn_cases hSpawn with ⟨p, -, hTasks, rfl, rfl⟩ | ⟨rfl, pc, rfl, -⟩
  · by_cases hEq : p = q
    · subst hEq
      simp [Frame.isTask]
      omega
    · simpa [Frame.isTask, hEq, Ne.symm hEq] using hCounted
  · simpa [Frame.isTask] using hCounted

/-- No call moves `state_` out of `kTerminated`. -/
def staysTerminated : Guard Shared Frame Choice Call where
  exec := fun s _ f _ =>
    match f with
    | .start .begin | .api .pauseWrite | .api .resumeWrite | .api .cancelState =>
        s.state ≠ .kTerminated
    | _ => true
  spawn := fun _ _ _ => true

theorem exec_terminated (hGuard : staysTerminated.exec s A f x = true)
    (hStep : exec g s f x = some (s', fs)) (hState : s.state = .kTerminated) :
    s'.state = .kTerminated := by
  have hChange := exec_state hStep
  generalize s'.state = state at hChange ⊢
  cases hChange with
  | same => exact hState
  | started | paused | resumed | cancelling => simp [staysTerminated, hState] at hGuard
  | openFailed | cancelled | quit | shutdown => rfl

/-- The counts are right, until a cleanup under way terminates the scheduler. -/
def Sound (s : Shared) (fs : List Frame) : Prop :=
  s.state = .kTerminated ∨ .handleIdle .cancelTerminate ∈ fs ∨
    ((∀ q, .cleanupAfterRun q ∉ fs) ∧ ∀ q, Counted s fs q)

/-- A cleanup starts in the cancelled pass of `HandleIdle` and in `Shutdown`. -/
theorem exec_cleanup {q : QueueId} (hStep : exec g s f x = some (s', fs))
    (hMem : .cleanupAfterRun q ∈ fs) :
    .handleIdle .cancelTerminate ∈ fs ∨ s'.state = .kTerminated := by
  have hLeaves := exec_leaves hStep _ hMem
  cases f with
  | handleIdle pc =>
      obtain ⟨rfl, rfl⟩ := exec_handleIdle hStep
      cases pc with
      | readCancelled =>
          left
          have hTurn : idleStep g s .readCancelled =
              if s.state = .kCancelling && s.hasError then
                ⟨s, g.queues.map .cleanupAfterRun, some .cancelTerminate⟩
              else goto s .readInputs := rfl
          rw [hTurn] at hMem ⊢
          split at hMem
          · rw [if_pos ‹_›]
            simp
          · simp at hMem
      | _ => exact False.elim hLeaves
  | api pc =>
      obtain ⟨t, hTurn, rfl, rfl⟩ := exec_api hStep
      cases pc with
      | shutdownState =>
          cases hTurn
          exact Or.inr rfl
      | _ => exact False.elim hLeaves
  | _ => exact False.elim hLeaves

theorem Sound.exec (hSound : Sound s (A ++ f :: B))
    (hGuard : staysTerminated.exec s (A ++ B) f x = true)
    (hStep : exec g s f x = some (s', fs)) : Sound s' (A ++ (fs ++ B)) := by
  rcases hSound with hState | hCancel | ⟨hNone, hCounted⟩
  · exact Or.inl (exec_terminated hGuard hStep hState)
  · simp only [List.mem_append, List.mem_cons] at hCancel
    rcases hCancel with hA | rfl | hB
    · exact Or.inr (Or.inl (by simp [hA]))
    · left
      obtain ⟨rfl, -⟩ := exec_handleIdle hStep
      rfl
    · exact Or.inr (Or.inl (by simp [hB]))
  · by_cases hNew : ∃ q, .cleanupAfterRun q ∈ fs
    · obtain ⟨q, hMem⟩ := hNew
      rcases exec_cleanup hStep hMem with hCancel | hState
      · exact Or.inr (Or.inl (by simp [hCancel]))
      · exact Or.inl hState
    · simp only [not_exists] at hNew
      right; right
      refine ⟨fun q => ?_, fun q => ?_⟩
      · have hBefore := hNone q
        simp only [List.mem_append, List.mem_cons, not_or] at hBefore ⊢
        exact ⟨hBefore.1, hNew q, hBefore.2.2⟩
      · refine (hCounted q).exec (fun q' hEq => hNone q' ?_) hStep
        simp [hEq]

theorem Sound.spawn {b : Call} (hSound : Sound s A)
    (hSpawn : spawn g s b = some (s', fs)) : Sound s' (A ++ fs) := by
  rcases hSound with hState | hCancel | ⟨hNone, hCounted⟩
  · obtain ⟨tasks, rfl, -⟩ := spawn_frame hSpawn
    exact Or.inl hState
  · exact Or.inr (Or.inl (by simp [hCancel]))
  · right; right
    refine ⟨fun q hMem => ?_, fun q => (hCounted q).spawn hSpawn⟩
    exact hNone q (mem_of_spawn hSpawn hMem (by simp) (by simp))

/-! ## Nodes that are scheduled belong to the graph -/

structure Known (g : Graph) (s : Shared) (fs : List Frame) : Prop where
  assigned : ∀ n, s.assigned n = true → n ∈ g.nodes
  assign : ∀ rest, .start (.assign rest) ∈ fs → ∀ n ∈ rest, n ∈ g.nodes

/-- `Start` assigns the nodes, one after another. -/
theorem exec_newly_assigned {n : NodeId} (hStep : exec g s f x = some (s', fs))
    (hAssigned : s'.assigned n = true) :
    s.assigned n = true ∨ ∃ rest, f = .start (.assign (n :: rest)) := by
  cases f with
  | start pc =>
      obtain ⟨t, hTurn, rfl, rfl⟩ := exec_start hStep
      revert hTurn
      fun_cases startStep g s x pc
      case case2 m rest =>
        intro hTurn
        cases hTurn
        by_cases hEq : n = m
        · exact Or.inr ⟨rest, by rw [hEq]⟩
        · exact Or.inl (by simpa [hEq] using hAssigned)
      all_goals intro hTurn; cases hTurn
      all_goals left
      all_goals try split at hAssigned
      all_goals first
        | exact hAssigned
        | exact (congrArg (Shared.assigned · n) (scheduleNode_eq g s _)).symm.trans hAssigned
  | _ =>
      have hSame := (exec_kept hStep).assigned (by simp)
      rw [hSame] at hAssigned
      exact Or.inl hAssigned

theorem Known.exec (hKnown : Known g s (A ++ f :: B))
    (hStep : exec g s f x = some (s', fs)) : Known g s' (A ++ (fs ++ B)) := by
  constructor
  · intro n hAssigned
    rcases exec_newly_assigned hStep hAssigned with hOld | ⟨rest, rfl⟩
    · exact hKnown.assigned n hOld
    · exact hKnown.assign (n :: rest) (by simp) n List.mem_cons_self
  · intro rest hMem
    rcases mem_after hMem with hNew | hOld
    · obtain ⟨pc, t, rfl, hTurn, -, hNext⟩ := start_of_exec hStep hNew
      revert hTurn
      fun_cases startStep g s x pc
      all_goals intro hTurn; cases hTurn
      all_goals repeat' split at hNext
      all_goals cases hNext
      · exact fun n hIn => hIn
      · exact fun n hIn => hKnown.assign _ mem_running n (List.mem_cons_of_mem _ hIn)
    · exact hKnown.assign rest hOld

theorem Known.spawn {b : Call} (hKnown : Known g s A)
    (hSpawn : spawn g s b = some (s', fs)) : Known g s' (A ++ fs) := by
  have hBefore : ∀ rest, .start (.assign rest) ∈ A ++ fs → .start (.assign rest) ∈ A :=
    fun rest hMem => mem_of_spawn hSpawn hMem (by simp) (by simp)
  obtain ⟨tasks, rfl, -⟩ := spawn_frame hSpawn
  exact ⟨hKnown.assigned, fun rest hMem => hKnown.assign rest (hBefore rest hMem)⟩

theorem known_of_reaches {G : Guard Shared Frame Choice Call}
    {outputs : OutId → OutputStreamManager} {defaultQueue : QueueId}
    {errorCallback : Bool} {c : Config Shared Frame}
    (hReach : (machine g).Reaches G
      (started (initial outputs defaultQueue errorCallback)) c) :
    Known g c.shared c.frames := by
  refine Machine.invariant ?_ ?_ ?_ hReach
  · exact ⟨by simp [started, initial], by simp [Config.frames, started]⟩
  · intro s A f B x s' fs hKnown _ hStep
    exact hKnown.exec hStep
  · intro s A b s' fs hKnown _ hSpawn
    exact hKnown.spawn hSpawn

end GraphRuntime.Scheduler
