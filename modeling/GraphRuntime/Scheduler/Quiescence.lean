import GraphRuntime.Scheduler.Idle

/-!
# When `HandleIdle` may close the nodes

`Scheduler::IsIdle` looks at one queue after another.  A pass that goes on to
`CloseAllNodes` has found every queue idle, but not at one moment: a node of a
queue not yet looked at can still push onto one that was.  `detectionGuard`
rules out just this, and `close_when_quiescent` says that then no item is
queued and no `RunNode` is running anywhere when the nodes are closed;
`close_while_running` is a run in which the push happens.

The second half is about the whole life of the nodes.  With `lifecycleGuard`,
which keeps `AddNode` away once the nodes are being closed and keeps `Pause`,
`Resume` and `Cancel` from starting a queue before every node is open,
`Process` is called between a node's `Open` and its `Close` only
(`process_between_open_and_close`); `process_after_close` is a run in which a
packet is injected after an error has ended the graph.
-/

namespace GraphRuntime.Scheduler

open GraphRuntime.Stream Interleaving

variable {g : Graph} {s s' : Shared} {f : Frame} {fs A B below : List Frame}
  {x : Choice} {q : QueueId}

/-! ## A pass and the queues it has found idle -/

/-- The pass is under way to `CloseAllNodes`, not there yet, and has found
queue `q` idle. -/
def IdlePc.found (g : Graph) (q : QueueId) : IdlePc → Bool
  | .scanIdle _ rest => decide (q ∉ rest)
  | .sweepSources _ | .readSources _ | .checkDrain _ | .drainIsDone _ _ _ _
  | .drainIsEmpty _ _ _ _ _ | .drainFinalize _ _ _ | .drainAllDone _ _ _ _ _
  | .drainIsFinalized _ _ _ _ | .shouldQuit _ | .quitReport _ => true
  | .closeNodes _ rest => decide (rest = g.nodes)
  | _ => false

def Frame.found (g : Graph) (q : QueueId) : Frame → Bool
  | .handleIdle pc => pc.found g q
  | _ => false

/-- The pass has not tested `state_` since it began to scan. -/
def IdlePc.scans : IdlePc → Bool
  | .scanIdle _ _ => true
  | _ => false

/-- Nothing is pushed onto a queue that a pass under way to `CloseAllNodes` has
already found idle, and no call moves `state_` out of `kTerminated`. -/
def detectionGuard (g : Graph) : Guard Shared Frame Choice Call :=
  staysTerminated.and
    { exec := fun s others f _ =>
        match f.schedules with
        | some n => !accepts g s n || others.all fun f' => !f'.found g (g.queue n)
        | none => true
      spawn := fun _ _ _ => true }

/-- Nothing queued and nothing running on queue `q`. -/
structure Quiet (s : Shared) (fs : List Frame) (q : QueueId) : Prop where
  items : (s.queues q).items = []
  run : ∀ r pc, .run r pc ∈ fs → r.queue ≠ q

theorem Quiet.exec (hQuiet : Quiet s (A ++ f :: B) q)
    (hPush : ∀ n, f.schedules = some n → accepts g s n = true → g.queue n ≠ q)
    (hStep : Scheduler.exec g s f x = some (s', fs)) : Quiet s' (A ++ (fs ++ B)) q := by
  constructor
  · have hItems := hQuiet.items
    have hChange := exec_queue q hStep
    generalize s'.queues q = queue at hChange ⊢
    cases hChange with
    | pushed _ _ n hQueue hSchedules hAccepts =>
        exact absurd hQueue.symm (hPush n hSchedules hAccepts)
    | popped it hMem => simp [hItems] at hMem
    | cleaned => rfl
    | decided => rw [decideFinalize_items]; exact hItems
    | _ => exact hItems
  · intro r pc hMem
    rcases mem_after hMem with hNew | hOld
    · rcases run_of_exec hStep hNew with ⟨r₀, pc₀, t, rfl, hTurn, -, hNext⟩ |
        ⟨p, it, queue, rfl, hPop, -, rfl, -⟩
      · rw [(runStep_next hTurn hNext).1]
        exact hQuiet.run r₀ pc₀ mem_running
      · rintro rfl
        have hItem := (SchedulerQueue.tryPop_eq_some hPop).1
        rw [hQuiet.items] at hItem
        exact absurd hItem List.not_mem_nil
    · exact hQuiet.run r pc hOld

theorem Quiet.spawn {b : Call} (hQuiet : Quiet s A q)
    (hSpawn : Scheduler.spawn g s b = some (s', fs)) : Quiet s' (A ++ fs) q := by
  have hBefore : ∀ r pc, .run r pc ∈ A ++ fs → .run r pc ∈ A := fun r pc hMem =>
    mem_of_spawn hSpawn hMem (by simp) (by simp)
  obtain ⟨tasks, rfl, -⟩ := spawn_frame hSpawn
  exact ⟨hQuiet.items, fun r pc hMem => hQuiet.run r pc (hBefore r pc hMem)⟩

/-- What the pass has found so far is quiet, unless the scheduler was
terminated under its scan. -/
structure Detected (g : Graph) (s : Shared) (fs : List Frame) : Prop where
  found : ∀ pc, .handleIdle pc ∈ fs → ∀ q ∈ g.queues, pc.found g q = true →
    Quiet s fs q ∨ (pc.scans = true ∧ s.state = .kTerminated)
  closing : ∀ l rest, .handleIdle (.closeNodes l rest) ∈ fs → rest <:+ g.nodes

/-- A pass on its way has nothing to push. -/
theorem schedules_of_found {pc : IdlePc} (hFound : pc.found g q = true) :
    (Frame.handleIdle pc).schedules = none := by
  cases pc <;> first | rfl | exact absurd hFound Bool.false_ne_true

/-- **One step of a pass**: it finds a further queue idle, or it has found `q`
before; it leaves the scan only in a state that is not `kTerminated`. -/
theorem idleStep_found {pc pc' : IdlePc} (hNext : (idleStep g s pc).next = some pc')
    (hMem : q ∈ g.queues) (hFound : pc'.found g q = true)
    (hSuffix : ∀ l rest, pc = .closeNodes l rest → rest <:+ g.nodes) :
    (pc.found g q = true ∧
      (pc.scans = true → pc'.scans = false → s.state ≠ .kTerminated)) ∨
      (pc'.scans = true ∧ ∃ ir rest, pc = .scanIdle ir (q :: rest) ∧
        (s.queues q).isIdle = true) := by
  revert hNext
  fun_cases idleStep g s pc
  case case7 =>
    intro hNext
    cases hNext
    exact absurd hMem (of_decide_eq_true hFound)
  case case8 ir p rest =>
    intro hNext
    by_cases hIdle : (s.queues p).isIdle = true
    · rw [if_pos hIdle] at hNext
      cases hNext
      by_cases hEq : q = p
      · subst hEq
        exact Or.inr ⟨rfl, ir, rest, rfl, hIdle⟩
      · left
        have hRest : q ∉ rest := of_decide_eq_true hFound
        exact ⟨by simp [IdlePc.found, hEq, hRest], by simp [IdlePc.scans]⟩
    · rw [if_neg hIdle] at hNext
      cases hNext
      exact absurd hFound Bool.false_ne_true
  case case9 ir =>
    intro hNext
    by_cases hState : s.state = .kRunning ∨ s.state = .kCancelling
    · left
      refine ⟨by simp [IdlePc.found], fun _ _ hTerminated => ?_⟩
      simp [hTerminated] at hState
    · rw [if_neg hState] at hNext
      cases hNext
      exact absurd hFound Bool.false_ne_true
  case case30 l n rest =>
    intro hNext
    cases hNext
    -- the nodes have begun to be closed
    have hRest : rest = g.nodes := of_decide_eq_true hFound
    have hLength := (hSuffix l (n :: rest) rfl).length_le
    rw [hRest, List.length_cons] at hLength
    omega
  all_goals intro hNext
  all_goals try split at hNext
  all_goals cases hNext
  all_goals first
    | exact Or.inl ⟨rfl, fun h => absurd h Bool.false_ne_true⟩
    | exact absurd hFound Bool.false_ne_true

/-- What the scan of a queue may rely on. -/
structure Scannable (s : Shared) (fs : List Frame) : Prop where
  exclusive : Exclusive s fs
  sound : Sound s fs
  task : ∀ r pc, .run r pc ∈ fs → .onTaskFinished r.queue ∈ fs

/-- **An idle queue is quiet**, when no cleanup has spoilt the counts. -/
theorem quiet_of_isIdle (hCounted : Counted s fs q)
    (hTask : ∀ r pc, .run r pc ∈ fs → .onTaskFinished r.queue ∈ fs)
    (hIdle : (s.queues q).isIdle = true) : Quiet s fs q := by
  simp only [SchedulerQueue.isIdle, Bool.and_eq_true, List.isEmpty_iff,
    beq_iff_eq] at hIdle
  obtain ⟨hItems, hPending⟩ := hIdle
  refine ⟨hItems, fun r pc hMem hQueue => ?_⟩
  have hNone : fs.countP (Frame.isTask q) = 0 := by
    unfold Counted at hCounted
    omega
  have hFinished := hTask r pc hMem
  rw [hQueue] at hFinished
  exact absurd (List.countP_eq_zero.mp hNone _ hFinished) (by simp [Frame.isTask])

/-- A frame of a pass that is under way was left by the pass itself. -/
theorem idleStep_of_leaves {pc : IdlePc} (hStep : Scheduler.exec g s f x = some (s', fs))
    (hMem : .handleIdle pc ∈ fs) (hEnter : pc ≠ .enter) :
    ∃ pc₀, f = .handleIdle pc₀ ∧ (idleStep g s pc₀).next = some pc := by
  by_cases hIdle : ∃ pc₀, f = .handleIdle pc₀
  · obtain ⟨pc₀, rfl⟩ := hIdle
    refine ⟨pc₀, rfl, ?_⟩
    obtain ⟨rfl, rfl⟩ := exec_handleIdle hStep
    rcases List.mem_append.mp hMem with hCall | hSelf
    · exact absurd rfl ((idleStep_calls pc₀ _ hCall).2 pc)
    · rw [Option.mem_toList] at hSelf
      obtain ⟨pc', hNext, hEq⟩ := Option.map_eq_some_iff.mp hSelf
      cases hEq
      exact hNext
  · simp only [not_exists] at hIdle
    exact absurd (enter_of_leaves hIdle hStep _ hMem pc rfl) hEnter

theorem Detected.closing_exec (hDetected : Detected g s (A ++ f :: B))
    (hStep : Scheduler.exec g s f x = some (s', fs)) :
    ∀ l rest, .handleIdle (.closeNodes l rest) ∈ A ++ (fs ++ B) → rest <:+ g.nodes := by
  intro l rest hMem
  rcases mem_after hMem with hNew | hOld
  · obtain ⟨pc₀, rfl, hNext⟩ := idleStep_of_leaves hStep hNew (by simp)
    have hBefore := fun l rest => hDetected.closing l rest
    revert hNext
    fun_cases idleStep g s pc₀
    case case30 _ n _ =>
      intro hNext
      cases hNext
      exact (List.suffix_cons n rest).trans (hBefore l (n :: rest) (by simp))
    all_goals intro hNext
    all_goals try split at hNext
    all_goals cases hNext
    all_goals exact List.suffix_refl _
  · exact hDetected.closing l rest hOld

theorem Detected.exec (hDetected : Detected g s (A ++ f :: B))
    (hScannable : Scannable s (A ++ f :: B))
    (hGuard : (detectionGuard g).exec s (A ++ B) f x = true)
    (hStep : Scheduler.exec g s f x = some (s', fs)) :
    Detected g s' (A ++ (fs ++ B)) := by
  obtain ⟨hStays, hPushes⟩ := Bool.and_eq_true_iff.mp hGuard
  refine ⟨fun pc hMem q hQueue hFound => ?_, hDetected.closing_exec hStep⟩
  have hTerminated := exec_terminated hStays hStep
  by_cases hOld : .handleIdle pc ∈ A ++ B
  · rcases hDetected.found pc (mem_of_others hOld) q hQueue hFound with hQuiet | ⟨hScans, hState⟩
    · left
      refine hQuiet.exec (fun n hSchedules hAccepts hEq => ?_) hStep
      -- the guard keeps others off a queue this pass has found idle
      simp only [hSchedules, hAccepts, Bool.not_true, Bool.false_or,
        List.all_eq_true] at hPushes
      have hNotFound := hPushes _ hOld
      simp [Frame.found, hEq, hFound] at hNotFound
    · exact Or.inr ⟨hScans, hTerminated hState⟩
  · have hNew : .handleIdle pc ∈ fs := by
      simp only [List.mem_append, not_or] at hMem hOld
      tauto
    have hEnter : pc ≠ .enter := by
      rintro rfl
      exact absurd hFound Bool.false_ne_true
    obtain ⟨pc₀, rfl, hNext⟩ := idleStep_of_leaves hStep hNew hEnter
    have hSuffix : ∀ l rest, pc₀ = .closeNodes l rest → rest <:+ g.nodes := by
      rintro l rest rfl
      exact hDetected.closing l rest (by simp)
    rcases idleStep_found hNext hQueue hFound hSuffix with
      ⟨hFound₀, hLeaves⟩ | ⟨hScans, ir, rest, rfl, hIdle⟩
    · rcases hDetected.found pc₀ (by simp) q hQueue hFound₀ with hQuiet | ⟨hScans, hState⟩
      · left
        refine hQuiet.exec (fun n hSchedules => ?_) hStep
        rw [schedules_of_found hFound₀] at hSchedules
        exact absurd hSchedules (by simp)
      · right
        refine ⟨?_, hTerminated hState⟩
        by_contra hLeft
        exact hLeaves hScans (by simpa using hLeft) hState
    · rcases hScannable.sound with hState | hCancel | ⟨-, hCounted⟩
      · exact Or.inr ⟨hScans, hTerminated hState⟩
      · -- the pass that cleans up would be a second one past the guard
        have hHolder := hScannable.exclusive.holder
        simp only [List.mem_append, List.mem_cons, reduceCtorEq, Frame.handleIdle.injEq,
          false_or] at hCancel
        have hOther : 0 < (A ++ B).countP Frame.holdsIdle :=
          List.countP_pos_iff.mpr ⟨_, List.mem_append.mpr hCancel, rfl⟩
        have hTop : Frame.holdsIdle (.handleIdle (.scanIdle ir (q :: rest))) = true := rfl
        simp only [List.countP_append, List.countP_cons, hTop, if_true] at hHolder hOther
        omega
      · left
        refine (quiet_of_isIdle (hCounted q) hScannable.task hIdle).exec ?_ hStep
        intro n hSchedules
        exact absurd hSchedules (by simp [Frame.schedules])

theorem Detected.spawn {b : Call} (hDetected : Detected g s A)
    (hSpawn : Scheduler.spawn g s b = some (s', fs)) : Detected g s' (A ++ fs) := by
  obtain ⟨tasks, hState, -⟩ := spawn_frame hSpawn
  have hOld : ∀ pc, .handleIdle pc ∈ A ++ fs → .handleIdle pc ∈ A := fun pc hMem =>
    mem_of_spawn hSpawn hMem (by simp) (by simp)
  refine ⟨fun pc hMem q hQueue hFound => ?_, fun l rest hMem =>
    hDetected.closing l rest (hOld _ hMem)⟩
  rcases hDetected.found pc (hOld pc hMem) q hQueue hFound with hQuiet | ⟨hScans, hTerm⟩
  · exact Or.inl (hQuiet.spawn hSpawn)
  · exact Or.inr ⟨hScans, by rw [hState]; exact hTerm⟩

theorem sound_of_reaches {G : Guard Shared Frame Choice Call}
    (hStays : ∀ s fs f x, G.exec s fs f x = true → staysTerminated.exec s fs f x = true)
    {outputs : OutId → OutputStreamManager} {defaultQueue : QueueId}
    {errorCallback : Bool} {c : Config Shared Frame}
    (hReach : (machine g).Reaches G
      (started (initial outputs defaultQueue errorCallback)) c) :
    Sound c.shared c.frames := by
  refine Machine.invariant ?_ ?_ ?_ hReach
  · refine Or.inr (Or.inr ⟨fun q hMem => ?_, fun q => ?_⟩)
    · simp [Config.frames, started] at hMem
    · simp [Counted, Config.frames, started, initial, Frame.isTask]
  · intro s A f B x s' fs hSound hGuard hStep
    exact hSound.exec (hStays _ _ _ _ hGuard) hStep
  · intro s A b s' fs hSound _ hSpawn
    exact hSound.spawn hSpawn

theorem scannable_of_reaches {G : Guard Shared Frame Choice Call}
    (hStays : ∀ s fs f x, G.exec s fs f x = true → staysTerminated.exec s fs f x = true)
    {outputs : OutId → OutputStreamManager} {defaultQueue : QueueId}
    {errorCallback : Bool} {c : Config Shared Frame}
    (hReach : (machine g).Reaches G
      (started (initial outputs defaultQueue errorCallback)) c) :
    Scannable c.shared c.frames := by
  refine ⟨exclusive_of_reaches hReach, sound_of_reaches hStays hReach, fun r pc hMem => ?_⟩
  obtain ⟨stack, hStack, hIn⟩ := List.mem_flatten.mp hMem
  exact List.mem_flatten.mpr ⟨stack, hStack,
    onTaskFinished_of_run (runsInTask_of_reaches hReach stack hStack) hIn⟩

/-- The guard `G` is at least as strict as `detectionGuard`. -/
theorem detected_of_reaches {G : Guard Shared Frame Choice Call}
    (hGuard : ∀ s fs f x, G.exec s fs f x = true → (detectionGuard g).exec s fs f x = true)
    {outputs : OutId → OutputStreamManager} {defaultQueue : QueueId}
    {errorCallback : Bool} {c : Config Shared Frame}
    (hReach : (machine g).Reaches G
      (started (initial outputs defaultQueue errorCallback)) c) :
    Detected g c.shared c.frames := by
  refine Machine.invariant_with (J := Scannable) (fun c hReach =>
    scannable_of_reaches (fun s fs f x h =>
      (Bool.and_eq_true_iff.mp (hGuard s fs f x h)).1) hReach) ?_ ?_ ?_ hReach
  · exact ⟨by simp [Config.frames, started], by simp [Config.frames, started]⟩
  · intro s A f B x s' fs hScannable hDetected hAllowed hStep
    exact hDetected.exec hScannable (hGuard _ _ _ _ hAllowed) hStep
  · intro s A b s' fs _ hDetected _ hSpawn
    exact hDetected.spawn hSpawn

/-- Quiet queues of the graph leave nothing anywhere. -/
theorem quiet_everywhere (hPlaced : Placed g s fs) (hKnown : Known g s fs)
    (hQuiet : ∀ q ∈ g.queues, Quiet s fs q) :
    (∀ q, (s.queues q).items = []) ∧ ∀ r pc, .run r pc ∉ fs := by
  have hQueue : ∀ n, s.assigned n = true → g.queue n ∈ g.queues :=
    fun n hAssigned => g.queue_mem n (hKnown.assigned n hAssigned)
  constructor
  · intro q
    by_contra hItems
    obtain ⟨it, hMem⟩ := List.exists_mem_of_ne_nil _ hItems
    obtain ⟨-, rfl, hAssigned⟩ := hPlaced.item q it hMem
    rw [(hQuiet _ (hQueue _ hAssigned)).items] at hMem
    exact absurd hMem List.not_mem_nil
  · intro r pc hMem
    obtain ⟨hRun, -, hAssigned, -⟩ := hPlaced.run r pc hMem
    exact (hQuiet _ (hQueue _ hAssigned)).run r pc hMem hRun

/-- **Termination detection is sound** as long as nothing is pushed onto a queue
behind the scan: when `HandleIdle` goes on to close the nodes, no item is
queued and no `RunNode` is running in any queue. -/
theorem close_when_quiescent {outputs : OutId → OutputStreamManager}
    {defaultQueue : QueueId} {errorCallback : Bool} {c : Config Shared Frame}
    (hReach : (machine g).Reaches (detectionGuard g)
      (started (initial outputs defaultQueue errorCallback)) c)
    {l : IdleLocals} (hClose : .handleIdle (.quitReport l) ∈ c.frames ∨
      .handleIdle (.closeNodes l g.nodes) ∈ c.frames) :
    (∀ q, (c.shared.queues q).items = []) ∧ ∀ r pc, .run r pc ∉ c.frames := by
  have hDetected := detected_of_reaches (fun _ _ _ _ h => h) hReach
  refine quiet_everywhere (placed_of_reaches hReach) (known_of_reaches hReach) ?_
  intro q hQueue
  rcases hClose with hReport | hNodes
  · exact (hDetected.found _ hReport q hQueue rfl).resolve_right (by simp [IdlePc.scans])
  · exact (hDetected.found _ hNodes q hQueue (decide_eq_true rfl)).resolve_right
      (by simp [IdlePc.scans])

/-- A pass that has gone on to `CloseAllNodes` and has not begun yet. -/
def Frame.closes (g : Graph) : Frame → Bool
  | .handleIdle (.closeNodes _ rest) => decide (rest = g.nodes)
  | _ => false

theorem exists_closeNodes {c : Config Shared Frame}
    (hClose : c.frames.any (Frame.closes g) = true) :
    ∃ l, .handleIdle (.closeNodes l g.nodes) ∈ c.frames := by
  obtain ⟨f, hMem, hCloses⟩ := List.any_eq_true.mp hClose
  unfold Frame.closes at hCloses
  split at hCloses
  · rename_i l rest
    have hRest : rest = g.nodes := of_decide_eq_true hCloses
    exact ⟨l, hRest ▸ hMem⟩
  · exact absurd hCloses Bool.false_ne_true

/-- The rule at work: a chain of one node runs to its end. -/
theorem close_when_quiescent_chain :
    ∃ c : Config Shared Frame,
      (∃ l, .handleIdle (.closeNodes l [0]) ∈ c.frames) ∧
        (∀ q, (c.shared.queues q).items = []) ∧ ∀ r pc, .run r pc ∉ c.frames := by
  obtain ⟨c, hReach, hTest⟩ := (machine (.chain 1 id (by simp))).exists_reaches
    (detectionGuard (.chain 1 id (by simp))) (started (chainInitial 1 false))
    (runs 0 19 .ok ++
      calls (.addPacketToInputStream "in" ⟨some 1, Timestamp.ofValue 0⟩) 1 14 .ok ++
      calls (.closeInputStream "in") 2 14 .ok ++ calls (.worker 0) 3 30 .ok ++
      calls (.worker 0) 4 31 .ok ++ calls (.worker 0) 5 22 .ok)
    (fun c => c.frames.any (Frame.closes (.chain 1 id (by simp)))) (by decide +kernel)
  obtain ⟨l, hMem⟩ := exists_closeNodes hTest
  exact ⟨c, ⟨l, hMem⟩, close_when_quiescent hReach (Or.inr hMem)⟩

/-- The frames of running nodes. -/
def Frame.runs : Frame → Bool
  | .run _ _ => true
  | _ => false

/-- **The scan can be overtaken.**  Node 0 runs on queue 1, which the scan looks
at last; after queue 0 has been found idle it hands a packet to node 1 on queue
0 and finishes.  `Cancel` has set `has_error_` and not `state_` yet, so the pass
closes the nodes, while node 1 is running. -/
theorem close_while_running :
    ∃ c : Config Shared Frame,
      (machine (.chain 2 (1 - ·) (by decide))).Reaches Guard.all
        (started (chainInitial 2 false)) c ∧
      (∃ l, .handleIdle (.closeNodes l [0, 1]) ∈ c.frames) ∧
        ∃ r pc, .run r pc ∈ c.frames := by
  obtain ⟨c, hReach, hTest⟩ := (machine (.chain 2 (1 - ·) (by decide))).exists_reaches
    Guard.all (started (chainInitial 2 false))
    (runs 0 15 .ok ++
      calls (.addPacketToInputStream "in" ⟨some 1, Timestamp.ofValue 0⟩) 1 11 .ok ++
      calls .cancel 2 2 .ok ++ calls (.worker 1) 3 5 .ok ++ runs 0 1 .ok ++
      runs 3 1 (.returns Status.okStatus
        [("out", .addPacket ⟨some 1, Timestamp.ofValue 0⟩)]) ++
      runs 3 18 .step ++ calls (.worker 0) 4 1 .ok ++ runs 0 7 .ok)
    (fun c => c.frames.any (Frame.closes (.chain 2 (1 - ·) (by decide))) &&
      c.frames.any Frame.runs) (by decide +kernel)
  obtain ⟨hCloses, hRuns⟩ := Bool.and_eq_true_iff.mp hTest
  refine ⟨c, hReach, exists_closeNodes hCloses, ?_⟩
  obtain ⟨f, hMem, hRun⟩ := List.any_eq_true.mp hRuns
  cases f with
  | run r pc => exact ⟨r, pc, hMem⟩
  | _ => exact absurd hRun Bool.false_ne_true

/-! ## From `Open` to `Close` -/

/-- Every node's `Open` has returned OK. -/
def allOpened (g : Graph) (s : Shared) : Bool :=
  g.nodes.all fun n => decide (Opened s.log n)

/-- Some node's `Close` has been called. -/
def someClosed (g : Graph) (s : Shared) : Bool :=
  g.nodes.any fun n => decide (.closed n ∈ s.log)

/-- The pass is in `CloseAllNodes`. -/
def Frame.closing : Frame → Bool
  | .handleIdle (.closeNodes _ _) => true
  | _ => false

/-- In addition to `detectionGuard`: nothing is pushed once the nodes are being
closed, and a queue is set running only when every node is open. -/
def lifecycleGuard (g : Graph) : Guard Shared Frame Choice Call :=
  (detectionGuard g).and
    { exec := fun s others f _ =>
        match f with
        | .setRunning _ true => allOpened g s
        | f =>
            match f.schedules with
            | some n => !accepts g s n || (!someClosed g s && !others.any Frame.closing)
            | none => true
      spawn := fun _ _ _ => true }

/-- A push is not made while the nodes are being closed. -/
theorem open_of_schedules {n : NodeId} (hGuard : (lifecycleGuard g).exec s A f x = true)
    (hSchedules : f.schedules = some n) (hAccepts : accepts g s n = true) :
    someClosed g s = false ∧ A.any Frame.closing = false := by
  obtain ⟨-, hLife⟩ := Bool.and_eq_true_iff.mp hGuard
  dsimp only at hLife
  split at hLife
  · cases hSchedules
  · rw [hSchedules] at hLife
    simpa only [hAccepts, Bool.not_true, Bool.false_or, Bool.and_eq_true,
      Bool.not_eq_true'] using hLife

/-- A queue that is running, a task or a `RunNode` call. -/
def Frame.active : Frame → Bool
  | .submitToExecutor _ | .addTask _ | .runNextTask _ | .run _ _ => true
  | _ => false

/-- Nothing has been started. -/
structure Dormant (s : Shared) (fs : List Frame) : Prop where
  running : ∀ q, (s.queues q).running = false
  tasks : ∀ q, s.tasks q = 0
  frame : ∀ f ∈ fs, f.active = false

/-- Tasks are submitted for running queues. -/
theorem exec_submit {q : QueueId} (hStep : Scheduler.exec g s f x = some (s', fs))
    (hMem : .submitToExecutor q ∈ fs) :
    (s.queues q).running = true ∨ f = .setRunning q true := by
  have hSchedule : ∀ n, .submitToExecutor q ∈ (scheduleNode g s n).2 →
      (s.queues q).running = true := by
    intro n hIn
    rcases scheduleNode_cases g s n with ⟨-, hNone⟩ | ⟨-, -, -, hFrames⟩
    · rw [hNone] at hIn
      exact absurd hIn List.not_mem_nil
    · rw [hFrames] at hIn
      split at hIn
      · rename_i hRunning
        simp only [List.mem_singleton, Frame.submitToExecutor.injEq] at hIn
        rw [hIn]
        exact hRunning
      · exact absurd hIn List.not_mem_nil
  cases f with
  | arrival n =>
      have hFrames : fs = (scheduleNode g s n).2 :=
        (congrArg Prod.snd (Option.some.inj hStep)).symm
      exact Or.inl (hSchedule n (hFrames ▸ hMem))
  | run r pc =>
      obtain ⟨t, hTurn, rfl, rfl⟩ := exec_run hStep
      left
      revert hTurn hMem
      fun_cases runStep g s r x pc
      all_goals intro hTurn hMem; cases hTurn
      all_goals first
        | exact hSchedule _ (by simpa [scheduleThen] using hMem)
        | (exfalso; revert hMem; simp [propagateThen]; done)
        | (exfalso; revert hMem; simp [errorCallback]; done)
        | (exfalso; revert hMem; simp only; split <;>
            simp [sourceStoppedCallback, idleCallback])
  | handleIdle pc =>
      obtain ⟨rfl, rfl⟩ := exec_handleIdle hStep
      left
      revert hMem
      fun_cases idleStep g s pc
      all_goals intro hMem
      all_goals first
        | exact hSchedule _ (by simpa [scheduleThen] using hMem)
        | (exfalso; revert hMem; simp)
  | start pc =>
      obtain ⟨t, hTurn, rfl, rfl⟩ := exec_start hStep
      left
      revert hTurn hMem
      fun_cases startStep g s x pc
      all_goals intro hTurn hMem; cases hTurn
      all_goals first
        | exact hSchedule _ (by simpa [scheduleThen] using hMem)
        | (exfalso; revert hMem; simp; done)
        | (exfalso; revert hMem; split <;> simp)
  | api pc =>
      obtain ⟨t, hTurn, rfl, rfl⟩ := exec_api hStep
      rcases List.mem_append.mp hMem with hCall | hSelf
      · have hLeaves := (apiStep_calls hTurn _ hCall).1
        cases pc <;> exact False.elim hLeaves
      · rw [Option.mem_toList] at hSelf
        obtain ⟨pc', -, hEq⟩ := Option.map_eq_some_iff.mp hSelf
        cases hEq
  | onTaskFinished p | submitWaitingTasks p =>
      cases hStep
      simp_all [SchedulerQueue.shouldSubmit]
  | setRunning p b =>
      cases hStep
      cases b with
      | false => simp [SchedulerQueue.shouldSubmit, SchedulerQueue.setRunning] at hMem
      | true => simp_all
  | _ =>
      have hLeaves := exec_leaves hStep _ hMem
      exact False.elim hLeaves

/-- No queue starts to run but by `SetRunning(true)`. -/
theorem exec_running (hStep : Scheduler.exec g s f x = some (s', fs))
    (hStopped : (s.queues q).running = false) (hSet : f ≠ .setRunning q true) :
    (s'.queues q).running = false := by
  have hChange := exec_queue q hStep
  generalize s'.queues q = queue at hChange ⊢
  cases hChange with
  | running _ b =>
      cases b with
      | false => rfl
      | true => exact absurd rfl hSet
  | cleaned => rfl
  | decided _ r b _ =>
      unfold SchedulerQueue.decideFinalize
      repeat' split
      all_goals exact hStopped
  | _ => exact hStopped

theorem Dormant.exec (hDormant : Dormant s (A ++ f :: B))
    (hSet : ∀ q, f ≠ .setRunning q true)
    (hStep : Scheduler.exec g s f x = some (s', fs)) : Dormant s' (A ++ (fs ++ B)) := by
  have hTop : f.active = false := hDormant.frame f (by simp)
  refine ⟨fun q => exec_running hStep (hDormant.running q) (hSet q), fun q => ?_, ?_⟩
  · by_cases hTask : f.isTask q = true
    · cases f with
      | addTask p | runNextTask p => exact absurd hTop (by simp [Frame.active])
      | dropTask p | onTaskFinished p => cases hStep; exact hDormant.tasks q
      | _ => exact absurd hTask Bool.false_ne_true
    · have hTask' : f.isTask q = false := by simpa using hTask
      by_cases hSubmit : f = .submitToExecutor q
      · rw [hSubmit] at hTop
        exact absurd hTop (by simp [Frame.active])
      · by_cases hCleanup : ∃ p, f = .cleanupAfterRun p
        · obtain ⟨p, rfl⟩ := hCleanup
          cases hStep
          exact hDormant.tasks q
        · rw [(exec_untasked hTask' hSubmit (not_exists.mp hCleanup) hStep).2.1]
          exact hDormant.tasks q
  · intro f' hMem
    rcases mem_after hMem with hNew | hOld
    · have hLeaves := exec_leaves hStep f' hNew
      cases f' with
      | submitToExecutor p =>
          rcases exec_submit hStep hNew with hRunning | hEq
          · exact absurd hRunning (by simp [hDormant.running p])
          · exact absurd hEq (hSet p)
      | run r pc =>
          rcases run_of_exec hStep hNew with ⟨r₀, pc₀, -, rfl, -⟩ | ⟨q, -, -, rfl, -⟩
          · cases hTop
          · cases hTop
      | addTask p | runNextTask p =>
          cases f with
          | submitToExecutor q => cases hTop
          | api pc => cases pc <;> exact False.elim hLeaves
          | _ => exact False.elim hLeaves
      | _ => rfl
    · exact hDormant.frame f' hOld

theorem Dormant.spawn {b : Call} (hDormant : Dormant s A)
    (hSpawn : Scheduler.spawn g s b = some (s', fs)) : Dormant s' (A ++ fs) := by
  rcases spawn_cases hSpawn with ⟨q, -, hTask, -⟩ | ⟨rfl, pc, rfl, -⟩
  · exact absurd hTask (by simp [hDormant.tasks q])
  · refine ⟨hDormant.running, hDormant.tasks, fun f hMem => ?_⟩
    rcases List.mem_append.mp hMem with hOld | hNew
    · exact hDormant.frame f hOld
    · rw [List.mem_singleton.mp hNew]
      rfl

/-- `Process` is called after the node's `Open` has returned OK and before its
`Close`. -/
def OnlyWhileOpen (log : List Event) : Prop :=
  ∀ before n inputs after, log = before ++ .processCalled n inputs :: after →
    Opened before n ∧ .closed n ∉ before

theorem OnlyWhileOpen.append {log : List Event} {e : Event} (hLog : OnlyWhileOpen log)
    (hEvent : ∀ n inputs, e = .processCalled n inputs →
      Opened log n ∧ .closed n ∉ log) : OnlyWhileOpen (log ++ [e]) := by
  intro before n inputs after hEq
  rcases List.eq_nil_or_concat after with rfl | ⟨after', last, rfl⟩
  · obtain ⟨rfl, hLast⟩ := List.append_inj' hEq rfl
    exact hEvent n inputs (List.cons.inj hLast).1
  · have hSplit : log ++ [e] = (before ++ .processCalled n inputs :: after') ++ [last] := by
      simpa using hEq
    exact hLog before n inputs after' (List.append_inj' hSplit rfl).1

structure Lawful (g : Graph) (s : Shared) (fs : List Frame) : Prop where
  opened : allOpened g s = true ∨ Dormant s fs
  closed : someClosed g s = true ∨ fs.any Frame.closing = true → ∀ q, Quiet s fs q
  log : OnlyWhileOpen s.log

theorem allOpened_mono (hPrefix : s.log <+: s'.log) (hOpened : allOpened g s = true) :
    allOpened g s' = true := by
  simp only [allOpened, List.all_eq_true, decide_eq_true_eq] at hOpened ⊢
  exact fun n hMem => (hOpened n hMem).mono hPrefix.subset

/-- Only `CloseAllNodes` closes nodes. -/
theorem exec_someClosed (hStep : Scheduler.exec g s f x = some (s', fs))
    (hBefore : f.closing = false) (hSome : someClosed g s' = true) :
    someClosed g s = true := by
  simp only [someClosed, List.any_eq_true, decide_eq_true_eq] at hSome ⊢
  obtain ⟨n, hNode, hMem⟩ := hSome
  refine ⟨n, hNode, ?_⟩
  have hChange := exec_log hStep
  generalize s'.log = log at hChange hMem
  cases hChange with
  | closed => exact absurd hBefore (by simp [Frame.closing])
  | same => exact hMem
  | _ => simpa using hMem

/-- The nodes begin to be closed by the step that leaves `quitReport`. -/
theorem exec_closing (hStep : Scheduler.exec g s f x = some (s', fs))
    (hBefore : f.closing = false)
    (hAfter : fs.any Frame.closing = true) : ∃ l, f = .handleIdle (.quitReport l) := by
  obtain ⟨f', hMem, hClosing⟩ := List.any_eq_true.mp hAfter
  cases f' with
  | handleIdle pc =>
      cases pc with
      | closeNodes l rest =>
          obtain ⟨pc₀, rfl, hNext⟩ := idleStep_of_leaves hStep hMem (by simp)
          revert hNext
          fun_cases idleStep g s pc₀
          all_goals intro hNext
          all_goals try split at hNext
          all_goals cases hNext
          all_goals first
            | exact ⟨_, rfl⟩
            | exact absurd hBefore (by simp [Frame.closing])
      | _ => exact absurd hClosing Bool.false_ne_true
  | _ => exact absurd hClosing Bool.false_ne_true

/-- The pass that closes the nodes has found everything quiet. -/
theorem Detected.quiet {pc : IdlePc} (hDetected : Detected g s fs)
    (hPlaced : Placed g s fs) (hKnown : Known g s fs) (hMem : .handleIdle pc ∈ fs)
    (hFound : ∀ q, pc.found g q = true) (hScans : pc.scans = false) :
    ∀ q, Quiet s fs q := by
  obtain ⟨hItems, hRun⟩ := quiet_everywhere hPlaced hKnown fun q hQueue =>
    (hDetected.found pc hMem q hQueue (hFound q)).resolve_right (by simp [hScans])
  exact fun q => ⟨hItems q, fun r pc hIn => absurd hIn (hRun r pc)⟩

theorem Lawful.exec (hLawful : Lawful g s (A ++ f :: B))
    (hPlaced : Placed g s (A ++ f :: B)) (hKnown : Known g s (A ++ f :: B))
    (hDetected : Detected g s (A ++ f :: B))
    (hGuard : (lifecycleGuard g).exec s (A ++ B) f x = true)
    (hStep : Scheduler.exec g s f x = some (s', fs)) : Lawful g s' (A ++ (fs ++ B)) := by
  obtain ⟨hDetection, hLife⟩ := Bool.and_eq_true_iff.mp hGuard
  have hLogChange := exec_log hStep
  have hPrefix := hLogChange.isPrefix
  refine ⟨?_, fun hClosed => ?_, ?_⟩
  · rcases hLawful.opened with hOpened | hDormant
    · exact Or.inl (allOpened_mono hPrefix hOpened)
    · by_cases hSet : ∃ q, f = .setRunning q true
      · obtain ⟨q, rfl⟩ := hSet
        exact Or.inl (allOpened_mono hPrefix hLife)
      · exact Or.inr (hDormant.exec (not_exists.mp hSet) hStep)
  · by_cases hBefore : someClosed g s = true ∨ (A ++ f :: B).any Frame.closing = true
    · -- closing is under way or over: nothing is pushed any more
      refine fun q => (hLawful.closed hBefore q).exec (fun n hSchedules hAccepts _ => ?_) hStep
      have hTop : f.closing = false := by
        cases f with
        | handleIdle pc => cases pc <;> first | rfl | simp [Frame.schedules] at hSchedules
        | _ => rfl
      obtain ⟨hOpen, hNone⟩ := open_of_schedules hGuard hSchedules hAccepts
      rw [List.any_append, Bool.or_eq_false_iff] at hNone
      rcases hBefore with hSome | hFrames
      · exact absurd hSome (by simp [hOpen])
      · exact absurd hFrames (by simp [hNone, hTop])
    · -- it begins with this step
      simp only [not_or, Bool.not_eq_true, List.any_append, List.any_cons,
        Bool.or_eq_false_iff] at hBefore
      obtain ⟨hOpen, hA, hTop, hB⟩ := hBefore
      have hReport : ∃ l, f = .handleIdle (.quitReport l) := by
        rcases hClosed with hSome | hFrames
        · exact absurd (exec_someClosed hStep hTop hSome) (by simp [hOpen])
        · simp only [List.any_append, hA, hB, Bool.false_or, Bool.or_false] at hFrames
          exact exec_closing hStep hTop hFrames
      obtain ⟨l, rfl⟩ := hReport
      have hMem : Frame.handleIdle (.quitReport l) ∈
          A ++ Frame.handleIdle (.quitReport l) :: B := by
        simp
      have hQuiet := hDetected.quiet hPlaced hKnown hMem (fun _ => rfl) rfl
      refine fun q => (hQuiet q).exec (fun n hSchedules => ?_) hStep
      exact absurd hSchedules (by simp [Frame.schedules])
  · have hBefore := hLawful.log
    generalize s'.log = log at hLogChange ⊢
    cases hLogChange with
    | same => exact hBefore
    | processCalled r =>
        refine hBefore.append fun n inputs hEq => ?_
        obtain ⟨rfl, -⟩ := Event.processCalled.inj hEq
        have hMem : .run r (.prepareOutputs []) ∈ A ++ .run r (.prepareOutputs []) :: B := by
          simp
        obtain ⟨-, -, hAssigned, -⟩ := hPlaced.run r _ hMem
        have hNode := hKnown.assigned _ hAssigned
        constructor
        · rcases hLawful.opened with hOpened | hDormant
          · simp only [allOpened, List.all_eq_true, decide_eq_true_eq] at hOpened
            exact hOpened _ hNode
          · exact absurd (hDormant.frame _ hMem) (by simp [Frame.active])
        · intro hIn
          have hSome : someClosed g s = true := by
            simp only [someClosed, List.any_eq_true, decide_eq_true_eq]
            exact ⟨_, hNode, hIn⟩
          exact (hLawful.closed (Or.inl hSome) r.queue).run r _ hMem rfl
    | _ => exact hBefore.append (by simp)

/-- **`Process` is called between `Open` and `Close` only**, for every node and
in every order of calls the guard leaves. -/
theorem process_between_open_and_close {outputs : OutId → OutputStreamManager}
    {defaultQueue : QueueId} {errorCallback : Bool} {c : Config Shared Frame}
    (hReach : (machine g).Reaches (lifecycleGuard g)
      (started (initial outputs defaultQueue errorCallback)) c) :
    OnlyWhileOpen c.shared.log := by
  have hLawful : Lawful g c.shared c.frames := by
    refine Machine.invariant_with (J := fun s fs => Placed g s fs ∧ Known g s fs ∧
      Detected g s fs) (fun c hReach => ⟨placed_of_reaches hReach, known_of_reaches hReach,
        detected_of_reaches (fun _ _ _ _ h => (Bool.and_eq_true_iff.mp h).1) hReach⟩)
      ?_ ?_ ?_ hReach
    · refine ⟨Or.inr ⟨fun _ => rfl, fun _ => rfl, ?_⟩, ?_, ?_⟩
      · simp [Config.frames, started, Frame.active]
      · simp [Config.frames, started, initial, someClosed, Frame.closing]
      · intro before n inputs after hEq
        simp [started, initial] at hEq
    · rintro s A f B x s' fs ⟨hPlaced, hKnown, hDetected⟩ hLawful hGuard hStep
      exact hLawful.exec hPlaced hKnown hDetected hGuard hStep
    · intro s A b s' fs _ hLawful _ hSpawn
      obtain ⟨tasks, hState, hNew⟩ := spawn_frame hSpawn
      refine ⟨?_, fun hClosed q => ?_, by rw [hState]; exact hLawful.log⟩
      · rcases hLawful.opened with hOpened | hDormant
        · exact Or.inl (by rw [hState]; exact hOpened)
        · exact Or.inr (hDormant.spawn hSpawn)
      · refine (hLawful.closed ?_ q).spawn hSpawn
        rcases hClosed with hSome | hFrames
        · rw [hState] at hSome
          exact Or.inl hSome
        · right
          rw [List.any_append, Bool.or_eq_true] at hFrames
          refine hFrames.resolve_right fun hAny => ?_
          obtain ⟨f, hMem, hClosing⟩ := List.any_eq_true.mp hAny
          rcases hNew f hMem with ⟨p, rfl⟩ | ⟨pc, rfl⟩ <;>
            exact absurd hClosing Bool.false_ne_true
  exact hLawful.log

/-- The log ends with `Process` of a node that has been closed. -/
def endsAfterClose (log : List Event) : Bool :=
  match log.getLast? with
  | some (.processCalled n _) => decide (.closed n ∈ log.dropLast)
  | _ => false

theorem not_onlyWhileOpen {log : List Event} (hEnds : endsAfterClose log = true) :
    ¬ OnlyWhileOpen log := by
  intro hLog
  unfold endsAfterClose at hEnds
  split at hEnds
  · rename_i n inputs hLast
    obtain ⟨before, rfl⟩ := List.getLast?_eq_some_iff.mp hLast
    rw [List.dropLast_concat] at hEnds
    exact (hLog before n inputs [] rfl).2 (of_decide_eq_true hEnds)
  · exact absurd hEnds Bool.false_ne_true

/-- The rule at work: a chain of one node processes a packet, is finalized and
closed. -/
theorem process_between_open_and_close_chain :
    ∃ c : Config Shared Frame, c.shared.state = .kTerminated ∧
      .closed 0 ∈ c.shared.log ∧ OnlyWhileOpen c.shared.log := by
  obtain ⟨c, hReach, hTest⟩ := (machine (.chain 1 id (by simp))).exists_reaches
    (lifecycleGuard (.chain 1 id (by simp))) (started (chainInitial 1 false))
    (runs 0 19 .ok ++
      calls (.addPacketToInputStream "in" ⟨some 1, Timestamp.ofValue 0⟩) 1 14 .ok ++
      calls (.closeInputStream "in") 2 14 .ok ++ calls (.worker 0) 3 30 .ok ++
      calls (.worker 0) 4 31 .ok ++ calls (.worker 0) 5 26 .ok)
    (fun c => decide (c.shared.state = .kTerminated) &&
      decide (.closed 0 ∈ c.shared.log)) (by decide +kernel)
  simp only [Bool.and_eq_true, decide_eq_true_eq] at hTest
  exact ⟨c, hTest.1, hTest.2, process_between_open_and_close hReach⟩

/-- **`Process` after `Close`**: the node fails, `HandleIdle` closes it and
terminates the graph, and a packet is injected into the graph input, which is
still open. -/
theorem process_after_close :
    ∃ c : Config Shared Frame, (machine (.chain 1 id (by simp))).Reaches Guard.all
        (started (chainInitial 1 true)) c ∧ ¬ OnlyWhileOpen c.shared.log := by
  obtain ⟨c, hReach, hTest⟩ := (machine (.chain 1 id (by simp))).exists_reaches
    Guard.all (started (chainInitial 1 true))
    (runs 0 19 .ok ++
      calls (.addPacketToInputStream "in" ⟨some 1, Timestamp.ofValue 0⟩) 1 14 .ok ++
      calls (.worker 0) 2 5 .ok ++ runs 2 1 (.returns ⟨.internal, "broken"⟩ []) ++
      runs 2 26 .step ++
      calls (.addPacketToInputStream "in" ⟨some 2, Timestamp.ofValue 1⟩) 3 14 .ok ++
      calls (.worker 0) 4 5 .ok)
    (fun c => endsAfterClose c.shared.log) (by decide +kernel)
  exact ⟨c, hReach, not_onlyWhileOpen hTest⟩

end GraphRuntime.Scheduler
