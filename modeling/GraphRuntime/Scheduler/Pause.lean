import GraphRuntime.Lib.Projection
import GraphRuntime.Scheduler.Reschedule
import GraphRuntime.Scheduler.Termination

/-!
# What `Pause` stops

`Pause` writes `kPaused` and calls `SetRunning(false)` on every queue.  From then on
nothing is submitted, whatever is queued.  But neither `RunNextTask` nor `TryPop` nor
`RunNode` looks at `running_`: a task that an executor already has, and a call of
`RunNode` that has popped its item, go on to `Process` while the graph is paused.

Each of them makes at most one call, so while the graph is paused no more calls of
`Process` are made than there were tasks and calls under way when `Pause` returned
(`calls_while_paused`).  The graph stops exactly where there were none
(`pause_stops_processing`).  Items are lost in no case: each is queued, on its way to
`Process`, or has been processed once (`items_conserved`).
-/

namespace GraphRuntime.Scheduler

open GraphRuntime.Stream Interleaving

variable {g : Graph} {s s' : Shared} {f : Frame} {fs A B : List Frame} {x : Choice}
  {n : NodeId} {q : QueueId}

/-! ## The calls that are made -/

/-- `Cancel` and `Shutdown` are not called. -/
def neverCancelled : Guard Shared Frame Choice Call where
  exec := fun _ _ _ _ => true
  spawn := fun _ _ b => decide (b ≠ .cancel) && decide (b ≠ .shutdown)

/-- Neither is `Resume`. -/
def untilResumed : Guard Shared Frame Choice Call where
  exec := fun _ _ _ _ => true
  spawn := fun _ _ b => decide (b ≠ .resume) && decide (b ≠ .cancel) && decide (b ≠ .shutdown)

/-- No queue is set running: no call of `Start`, `Resume` or `Cancel` gets that far. -/
def neverRestarted : Guard Shared Frame Choice Call where
  exec := fun _ _ f _ =>
    match f with
    | .setRunning _ true => false
    | _ => true
  spawn := fun _ _ _ => true

theorem ne_setRunning (hGuard : neverRestarted.exec s A f x = true) (q : QueueId) :
    f ≠ .setRunning q true := by
  rintro rfl
  cases hGuard

/-! ## The queues of the graph -/

/-- Only queues of the graph are set running. -/
structure InUse (g : Graph) (s : Shared) (fs : List Frame) : Prop where
  running : ∀ q, (s.queues q).running = true → q ∈ g.queues
  set : ∀ q b, .setRunning q b ∈ fs → q ∈ g.queues
  wire : ∀ rest, .start (.wire rest) ∈ fs → rest ⊆ g.queues

theorem InUse.exec (hInUse : InUse g s (A ++ f :: B))
    (hStep : Scheduler.exec g s f x = some (s', fs)) : InUse g s' (A ++ (fs ++ B)) := by
  refine ⟨fun q hRunning => ?_, fun q b hMem => ?_, fun rest hMem => ?_⟩
  · by_cases hBefore : (s.queues q).running = true
    · exact hInUse.running q hBefore
    · have hSet : f = .setRunning q true := by
        by_contra hOther
        have hStopped := exec_running hStep (by simpa using hBefore) hOther
        simp [hStopped] at hRunning
      exact hInUse.set q true (hSet ▸ mem_running)
  · rcases mem_after hMem with hNew | hOld
    · have hLeaves := exec_leaves hStep _ hNew
      cases f with
      | start pc =>
          cases pc with
          | wire rest =>
              cases rest with
              | nil => exact False.elim hLeaves
              | cons p rest =>
                  have hSame : p = q := hLeaves
                  exact hInUse.wire (p :: rest) mem_running (hSame ▸ List.mem_cons_self)
          | _ => exact False.elim hLeaves
      | api pc =>
          obtain ⟨t, hTurn, rfl, rfl⟩ := exec_api hStep
          rcases List.mem_append.mp hNew with hCall | hSelf
          · exact apiStep_onQueue hTurn _ hCall rfl
          · rw [Option.mem_toList] at hSelf
            obtain ⟨pc', -, hEq⟩ := Option.map_eq_some_iff.mp hSelf
            cases hEq
      | _ => exact False.elim hLeaves
    · exact hInUse.set q b hOld
  · rcases mem_after hMem with hNew | hOld
    · obtain ⟨pc₀, t, rfl, hTurn, -, hNext⟩ := start_of_exec hStep hNew
      rcases (startStep_wire hTurn).1 rest hNext with rfl | ⟨q, rfl, -⟩
      · exact fun q hQueue => hQueue
      · exact fun p hQueue =>
          hInUse.wire (q :: rest) mem_running (List.mem_cons_of_mem q hQueue)
    · exact hInUse.wire rest hOld

theorem InUse.spawn {b : Call} (hInUse : InUse g s A)
    (hSpawn : Scheduler.spawn g s b = some (s', fs)) : InUse g s' (A ++ fs) := by
  have hSet : ∀ q b, .setRunning q b ∈ A ++ fs → .setRunning q b ∈ A := fun q b hMem =>
    mem_of_spawn hSpawn hMem (by simp) (by simp)
  have hWire : ∀ rest, .start (.wire rest) ∈ A ++ fs → .start (.wire rest) ∈ A :=
    fun rest hMem => mem_of_spawn hSpawn hMem (by simp) (by simp)
  obtain ⟨tasks, rfl, -⟩ := spawn_frame hSpawn
  exact ⟨hInUse.running, fun q b hMem => hInUse.set q b (hSet q b hMem),
    fun rest hMem => hInUse.wire rest (hWire rest hMem)⟩

theorem inUse_of_reaches {G : Guard Shared Frame Choice Call}
    {outputs : OutId → OutputStreamManager} {defaultQueue : QueueId} {errorCallback : Bool}
    {c : Config Shared Frame}
    (hReach : (machine g).Reaches G (started (initial outputs defaultQueue errorCallback)) c) :
    InUse g c.shared c.frames := by
  refine Machine.invariant (I := InUse g) ?_ ?_ ?_ hReach
  · exact ⟨by simp [started, initial], by simp [Config.frames, started],
      by simp [Config.frames, started]⟩
  · intro s A f B x s' fs hInUse _ hStep
    exact hInUse.exec hStep
  · intro s A b s' fs hInUse _ hSpawn
    exact hInUse.spawn hSpawn

/-! ## `Pause` returns -/

/-- Where a call of `Pause` that has found the graph running stands. -/
def Pausing (g : Graph) (s : Shared) (above : List Frame) : Prop :=
  (above = [.api .pauseWrite] ∧ ∀ q, q ∉ g.queues → (s.queues q).running = false) ∨
    ∀ q, (s.queues q).running = false ∨ .setRunning q false ∈ above

theorem running_of_moves (hMoves : (machine g).MovesUnder neverRestarted s s')
    (hStopped : (s.queues q).running = false) : (s'.queues q).running = false := by
  rcases hMoves with ⟨others, f, x, fs, hGuard, hStep⟩ | ⟨others, b, fs, -, hSpawn⟩
  · exact exec_running hStep hStopped (ne_setRunning hGuard q)
  · obtain ⟨tasks, rfl, -⟩ := spawn_frame hSpawn
    exact hStopped

theorem Pausing.exec {others above : List Frame} (hPausing : Pausing g s (f :: above))
    (hGuard : neverRestarted.exec s others f x = true)
    (hStep : Scheduler.exec g s f x = some (s', fs)) : Pausing g s' (fs ++ above) := by
  right
  rcases hPausing with ⟨hStart, hUnused⟩ | hStopped
  · obtain ⟨rfl, rfl⟩ := List.cons.inj hStart
    cases hStep
    intro q
    by_cases hQueue : q ∈ g.queues
    · right
      simp [hQueue]
    · exact Or.inl (hUnused q hQueue)
  · intro q
    rcases hStopped q with hRunning | hMem
    · exact Or.inl (exec_running hStep hRunning (ne_setRunning hGuard q))
    · rcases List.mem_cons.mp hMem with rfl | hBelow
      · left
        cases hStep
        simp [SchedulerQueue.setRunning]
      · exact Or.inr (List.mem_append_right _ hBelow)

/-- **When `Pause` has returned, no queue is running.** -/
theorem stopped_of_pause {c₀ c₁ : Config Shared Frame} {i : Nat}
    (hInUse : InUse g c₀.shared c₀.frames)
    (hPause : c₀.threads[i]? = some [.api .pauseWrite])
    (hRun : (machine g).Reaches neverRestarted c₀ c₁) (hReturned : c₁.threads[i]? = some []) :
    ∀ q, (c₁.shared.queues q).running = false := by
  have hStart : Machine.Pending (Pausing g) i [] c₀ := by
    refine ⟨[.api .pauseWrite], by simp, hPause, Or.inl ⟨rfl, fun q hQueue => ?_⟩⟩
    by_contra hRunning
    exact hQueue (hInUse.running q (by simpa using hRunning))
  have hOther : ∀ s above s', Pausing g s above → (machine g).MovesUnder neverRestarted s s' →
      Pausing g s' above := by
    rintro s above s' (⟨rfl, hUnused⟩ | hStopped) hMoves
    · exact Or.inl ⟨rfl, fun q hQueue => running_of_moves hMoves (hUnused q hQueue)⟩
    · exact Or.inr fun q => (hStopped q).imp_left (running_of_moves hMoves)
  have hDone : ∀ s, Pausing g s [] → ∀ q, (s.queues q).running = false := by
    rintro s (⟨hEmpty, -⟩ | hStopped) q
    · cases hEmpty
    · exact (hStopped q).resolve_right List.not_mem_nil
  rcases Machine.call_returns_under hStart
    (fun _ _ _ _ _ _ _ hPausing hGuard hStep => hPausing.exec hGuard hStep) hOther hDone
    (fun _ _ hStopped hMoves q => running_of_moves hMoves (hStopped q)) hRun
    with ⟨above, hSome, hThread, -⟩ | hStopped
  · rw [List.append_nil, hReturned] at hThread
    exact absurd (Option.some.inj hThread).symm hSome
  · exact hStopped

/-! ## No queue is set running again -/

/-- The public calls that set queues running or empty them. -/
inductive PublicCall
  | resume
  | cancel
  | shutdown
  | other
deriving DecidableEq

/-- The call that a place belongs to. -/
def ApiPc.call : ApiPc → PublicCall
  | .resume | .resumeWrite => .resume
  | .cancel | .cancelError | .cancelState | .cancelPaused => .cancel
  | .shutdown | .shutdownState => .shutdown
  | _ => .other

theorem apiStep_call {pc pc' : ApiPc} {t : Turn ApiPc} (hTurn : apiStep g s pc = some t)
    (hNext : t.next = some pc') : pc'.call = pc.call ∨ pc'.call = .other := by
  revert hTurn
  fun_cases apiStep g s pc
  all_goals intro hTurn; cases hTurn
  all_goals try split at hNext
  all_goals cases hNext
  all_goals first
    | exact Or.inl rfl
    | exact Or.inr rfl

/-- A call that may yet set a queue running. -/
def Frame.restarts : Frame → Bool
  | .setRunning _ running => running
  | .start _ => true
  | .api pc => decide (pc.call = .resume ∨ pc.call = .cancel)
  | _ => false

structure Stopped (s : Shared) (fs : List Frame) : Prop where
  running : ∀ q, (s.queues q).running = false
  frame : ∀ f ∈ fs, f.restarts = false

theorem exec_restarts {f' : Frame} (hStep : exec g s f x = some (s', fs)) (hMem : f' ∈ fs)
    (hQuiet : f.restarts = false) : f'.restarts = false := by
  have hLeaves := exec_leaves hStep _ hMem
  cases f' with
  | setRunning q running =>
      cases f with
      | api pc =>
          cases pc with
          | pauseWrite => exact hLeaves
          | resumeWrite | cancelPaused => cases hQuiet
          | _ => exact False.elim hLeaves
      | start pc => cases hQuiet
      | _ => exact False.elim hLeaves
  | start pc =>
      obtain ⟨pc₀, -, rfl, -⟩ := start_of_exec hStep hMem
      cases hQuiet
  | api pc =>
      obtain ⟨pc₀, t, rfl, hTurn, -, hNext⟩ := api_of_exec hStep hMem
      rcases apiStep_call hTurn hNext with hSame | hOther
      · simpa [Frame.restarts, hSame] using hQuiet
      · simp [Frame.restarts, hOther]
  | _ => rfl

theorem Stopped.exec (hStopped : Stopped s (A ++ f :: B))
    (hStep : Scheduler.exec g s f x = some (s', fs)) : Stopped s' (A ++ (fs ++ B)) := by
  have hTop : f.restarts = false := hStopped.frame f mem_running
  refine ⟨fun q => exec_running hStep (hStopped.running q) ?_, fun f' hMem => ?_⟩
  · rintro rfl
    cases hTop
  · rcases mem_after hMem with hNew | hOld
    · exact exec_restarts hStep hNew hTop
    · exact hStopped.frame f' hOld

theorem Stopped.spawn {b : Call} (hStopped : Stopped s A)
    (hGuard : untilResumed.spawn s A b = true)
    (hSpawn : Scheduler.spawn g s b = some (s', fs)) : Stopped s' (A ++ fs) := by
  simp only [untilResumed, Bool.and_eq_true, decide_eq_true_eq] at hGuard
  obtain ⟨⟨hResume, hCancel⟩, -⟩ := hGuard
  refine ⟨?_, fun f' hMem => ?_⟩
  · obtain ⟨tasks, rfl, -⟩ := spawn_frame hSpawn
    exact hStopped.running
  · rcases List.mem_append.mp hMem with hOld | hNew
    · exact hStopped.frame f' hOld
    · cases b with
      | resume => exact absurd rfl hResume
      | cancel => exact absurd rfl hCancel
      | worker q =>
          rcases spawn_cases hSpawn with ⟨p, -, -, -, rfl⟩ | ⟨-, pc, -, hOther⟩
          · rw [List.mem_singleton.mp hNew]
            rfl
          · simp at hOther
      | _ =>
          cases hSpawn
          rw [List.mem_singleton.mp hNew]
          rfl

/-! ## What is on its way to `Process` -/

/-- A task of the queue, or a call of `RunNode` before its call of `Process`. -/
def Frame.approaches (q : QueueId) : Frame → Bool
  | .submitToExecutor p | .addTask p | .runNextTask p => decide (p = q)
  | .run r pc => decide (r.queue = q) && pc.starting
  | _ => false

/-- The tasks of a queue that have not come to an end, and the calls of `RunNode` that
have not come to `Process`. -/
def outstanding (s : Shared) (fs : List Frame) (q : QueueId) : Nat :=
  s.tasks q + fs.countP (Frame.approaches q)

theorem countP_approaches_zero {l : List Frame} (hNone : ∀ f ∈ l, f.approaches q = false) :
    l.countP (Frame.approaches q) = 0 := by
  rw [List.countP_eq_zero]
  intro f hMem
  simp [hNone f hMem]

/-- A queue that is not running is not submitted. -/
theorem not_submitted (hStopped : Stopped s (A ++ f :: B))
    (hStep : exec g s f x = some (s', fs)) : .submitToExecutor q ∉ fs := by
  intro hMem
  rcases exec_submit hStep hMem with hRunning | rfl
  · simp [hStopped.running q] at hRunning
  · exact absurd (hStopped.frame _ mem_running) (by simp [Frame.restarts])

/-- A step of `RunNode` goes on starting, or calls `Process`, or had done so. -/
theorem runStep_outstanding {r : Invocation} {pc : RunPc} {t : Turn (Invocation × RunPc)}
    (hTurn : runStep g s r x pc = some t) (hQueue : r.queue = g.queue r.node)
    (hSubmit : ∀ q, .submitToExecutor q ∉ t.calls) :
    called t.state n + (t.calls ++ (t.next.map runFrame).toList).countP
        (Frame.approaches (g.queue n)) ≤
      called s n + [Frame.run r pc].countP (Frame.approaches (g.queue n)) := by
  have hStep : exec g s (.run r pc) x = some (t.outcome runFrame) :=
    Option.map_eq_some_iff.mpr ⟨t, hTurn, rfl⟩
  have hCalls : t.calls.countP (Frame.approaches (g.queue n)) = 0 := by
    refine countP_approaches_zero fun f' hMem => ?_
    obtain ⟨hLeaves, hNotRun⟩ := runStep_calls hTurn f' hMem
    cases f' with
    | submitToExecutor q => exact absurd hMem (hSubmit q)
    | run r' pc' => exact absurd rfl (hNotRun r' pc')
    | addTask q | runNextTask q => exact False.elim hLeaves
    | _ => rfl
  have hCalled : called t.state n ≤ called s n ∨ pc = .prepareOutputs [] ∧ r.node = n ∧
      called t.state n = called s n + 1 := by
    refine (exec_called (n := n) hStep).imp_right ?_
    rintro ⟨r', hEq, hNode, hMore⟩
    cases hEq
    exact ⟨rfl, hNode, hMore⟩
  have hCounted : pc = .prepareOutputs [] → r.node = n →
      [Frame.run r pc].countP (Frame.approaches (g.queue n)) = 1 := by
    rintro rfl rfl
    simp [Frame.approaches, hQueue, RunPc.starting]
  rw [List.countP_append, hCalls, Nat.zero_add]
  by_cases hGoes : ∃ r' pc', t.next = some (r', pc') ∧
      Frame.approaches (g.queue n) (.run r' pc') = true
  · obtain ⟨r', pc', hNext, hApproaches⟩ := hGoes
    simp only [Frame.approaches, Bool.and_eq_true, decide_eq_true_eq] at hApproaches
    obtain ⟨hStarting, hNot⟩ := runStep_starting hTurn hNext hApproaches.2
    have hSame : r.queue = g.queue n := (runStep_next hTurn hNext).1 ▸ hApproaches.1
    have hBefore : [Frame.run r pc].countP (Frame.approaches (g.queue n)) = 1 := by
      simp [Frame.approaches, hSame, hStarting]
    have hAfter : (t.next.map runFrame).toList.countP (Frame.approaches (g.queue n)) = 1 := by
      simp [hNext, runFrame, Frame.approaches, hApproaches]
    have hQuiet := hCalled.resolve_right fun hCalls => hNot hCalls.1
    omega
  · have hAfter : (t.next.map runFrame).toList.countP (Frame.approaches (g.queue n)) = 0 := by
      refine countP_approaches_zero fun f' hMem => ?_
      rw [Option.mem_toList] at hMem
      obtain ⟨⟨r', pc'⟩, hNext, rfl⟩ := Option.map_eq_some_iff.mp hMem
      by_contra hApproaches
      exact hGoes ⟨r', pc', hNext, by simpa using hApproaches⟩
    rcases hCalled with hSame | ⟨hPc, hNode, hMore⟩
    · omega
    · rw [hCounted hPc hNode]
      omega

/-- A task becomes a call of `RunNode`, or comes to its end. -/
theorem runNextTask_approaches {p : QueueId} (hStep : exec g s (.runNextTask p) x = some (s', fs)) :
    fs.countP (Frame.approaches q) ≤ [Frame.runNextTask p].countP (Frame.approaches q) := by
  simp only [exec] at hStep
  split at hStep
  · cases hStep
    simp [Frame.approaches]
  · cases hStep
    simp [List.countP_cons, Frame.approaches, RunPc.starting]

/-- A submission goes on to `AddTask`; the other functions bring no new one up. -/
theorem exec_approaches (hStopped : Stopped s (A ++ f :: B))
    (hStep : exec g s f x = some (s', fs)) (hRun : ∀ r pc, f ≠ .run r pc)
    (hTask : ∀ q, f ≠ .runNextTask q) :
    fs.countP (Frame.approaches q) ≤ [f].countP (Frame.approaches q) := by
  by_cases hSend : ∃ p, f = .submitToExecutor p
  · obtain ⟨p, rfl⟩ := hSend
    simp only [exec] at hStep
    split at hStep
    · cases hStep
      simp [Frame.approaches]
    · cases hStep
      simp
  · have hNone : fs.countP (Frame.approaches q) = 0 := by
      refine countP_approaches_zero fun f' hMem => ?_
      have hLeaves := exec_leaves hStep _ hMem
      cases f' with
      | submitToExecutor p => exact absurd hMem (not_submitted hStopped hStep)
      | run r pc => exact absurd rfl (not_run_of_exec hRun hTask hStep _ hMem r pc)
      | addTask p =>
          cases f with
          | submitToExecutor p' => exact absurd ⟨p', rfl⟩ hSend
          | api pc => cases pc <;> exact False.elim hLeaves
          | _ => exact False.elim hLeaves
      | runNextTask p =>
          cases f with
          | api pc => cases pc <;> exact False.elim hLeaves
          | _ => exact False.elim hLeaves
      | _ => rfl
    omega

/-- **Each of them makes at most one call**, and no more come up. -/
theorem exec_outstanding (hPlaced : Placed g s (A ++ f :: B)) (hStopped : Stopped s (A ++ f :: B))
    (hStep : exec g s f x = some (s', fs)) :
    called s' n + outstanding s' fs (g.queue n) ≤
      called s n + outstanding s [f] (g.queue n) := by
  unfold outstanding
  by_cases hRun : ∃ r pc, f = .run r pc
  · obtain ⟨r, pc, rfl⟩ := hRun
    obtain ⟨hQueue, -⟩ := hPlaced.run r pc mem_running
    have hTasks : s'.tasks = s.tasks := (exec_kept hStep).tasks (by simp)
    have hSubmit := fun q => not_submitted (q := q) hStopped hStep
    obtain ⟨t, hTurn, rfl, rfl⟩ := exec_run hStep
    have hLess := runStep_outstanding (n := n) hTurn hQueue fun q hMem =>
      hSubmit q (List.mem_append_left _ hMem)
    rw [hTasks]
    omega
  simp only [not_exists] at hRun
  have hQuiet : called s' n ≤ called s n := by
    refine (exec_called (n := n) hStep).resolve_right ?_
    rintro ⟨r, rfl, -⟩
    exact hRun r _ rfl
  by_cases hAdd : ∃ q, f = .addTask q
  · obtain ⟨q, rfl⟩ := hAdd
    cases hStep
    by_cases hSame : q = g.queue n
    · subst hSame
      simp [Frame.approaches]
      omega
    · simpa [Frame.approaches, hSame, Ne.symm hSame] using hQuiet
  simp only [not_exists] at hAdd
  have hTasks : s'.tasks = s.tasks := (exec_kept hStep).tasks hAdd
  have hFrames : fs.countP (Frame.approaches (g.queue n)) ≤
      [f].countP (Frame.approaches (g.queue n)) := by
    by_cases hTask : ∃ q, f = .runNextTask q
    · obtain ⟨q, rfl⟩ := hTask
      exact runNextTask_approaches hStep
    · exact exec_approaches hStopped hStep hRun (by simpa using hTask)
  rw [hTasks]
  omega

theorem spawn_outstanding {b : Call} (hSpawn : spawn g s b = some (s', fs)) :
    called s' n = called s n ∧ outstanding s' (A ++ fs) q = outstanding s A q := by
  unfold outstanding
  rw [List.countP_append]
  rcases spawn_cases hSpawn with ⟨p, -, hTask, rfl, rfl⟩ | ⟨rfl, pc, rfl, -⟩
  · refine ⟨rfl, ?_⟩
    by_cases hSame : p = q
    · subst hSame
      simp [Frame.approaches]
      omega
    · simp [Frame.approaches, hSame, Ne.symm hSame]
  · exact ⟨rfl, by simp [Frame.approaches]⟩

/-- **While the graph is paused** a node is called at most once for each task of its queue,
and each call of `RunNode`, that was under way when `Pause` returned. -/
theorem calls_while_paused {c c' : Config Shared Frame}
    (hPlaced : ∀ d, (machine g).Reaches untilResumed c d → Placed g d.shared d.frames)
    (hStopped : Stopped c.shared c.frames) (hReach : (machine g).Reaches untilResumed c c') :
    called c'.shared n + outstanding c'.shared c'.frames (g.queue n) ≤
      called c.shared n + outstanding c.shared c.frames (g.queue n) := by
  have hBoth : Stopped c'.shared c'.frames ∧
      called c'.shared n + outstanding c'.shared c'.frames (g.queue n) ≤
        called c.shared n + outstanding c.shared c.frames (g.queue n) := by
    refine Machine.invariant_with (J := Placed g)
      (I := fun s fs => Stopped s fs ∧ called s n + outstanding s fs (g.queue n) ≤
        called c.shared n + outstanding c.shared c.frames (g.queue n))
      hPlaced ⟨hStopped, Nat.le_refl _⟩ ?_ ?_ hReach
    · rintro s A f B x s' fs hHere ⟨hStopped, hBound⟩ - hStep
      refine ⟨hStopped.exec hStep, ?_⟩
      have hLess := exec_outstanding (n := n) hHere hStopped hStep
      simp only [outstanding, List.countP_append, List.countP_cons, List.countP_nil]
        at hBound hLess ⊢
      omega
    · rintro s A b s' fs - ⟨hStopped, hBound⟩ hGuard hSpawn
      obtain ⟨hSame, hCount⟩ := spawn_outstanding (n := n) (q := g.queue n) (A := A) hSpawn
      refine ⟨hStopped.spawn hGuard hSpawn, ?_⟩
      rw [hSame, hCount]
      exact hBound
  exact hBoth.2

/-- A call of `Process` is not taken back. -/
theorem called_mono {G : Guard Shared Frame Choice Call} {c c' : Config Shared Frame}
    (hReach : (machine g).Reaches G c c') : called c.shared n ≤ called c'.shared n := by
  refine Machine.invariant (I := fun s _ => called c.shared n ≤ called s n) (Nat.le_refl _)
    ?_ ?_ hReach
  · intro s A f B x s' fs hBefore _ hStep
    exact hBefore.trans (exec_log hStep).isPrefix.sublist.countP_le
  · intro s A b s' fs hBefore _ hSpawn
    obtain ⟨tasks, rfl, -⟩ := spawn_frame hSpawn
    exact hBefore

/-! ## No item is lost -/

/-- A step that empties queues, or a call that comes to one. -/
def Frame.discards : Frame → Bool
  | .cleanupAfterRun _ => true
  | .api pc => decide (pc.call = .cancel ∨ pc.call = .shutdown)
  | _ => false

structure Undisturbed (s : Shared) (fs : List Frame) : Prop where
  state : s.state ≠ .kCancelling
  frame : ∀ f ∈ fs, f.discards = false

theorem Undisturbed.exec (hUndisturbed : Undisturbed s (A ++ f :: B))
    (hStep : Scheduler.exec g s f x = some (s', fs)) : Undisturbed s' (A ++ (fs ++ B)) := by
  have hTop : f.discards = false := hUndisturbed.frame f mem_running
  constructor
  · have hChange := exec_state hStep
    generalize s'.state = state at hChange ⊢
    cases hChange with
    | same => exact hUndisturbed.state
    | cancelling => exact absurd hTop (by simp [Frame.discards, ApiPc.call])
    | _ => simp
  · intro f' hMem
    rcases mem_after hMem with hNew | hOld
    · have hLeaves := exec_leaves hStep _ hNew
      cases f' with
      | cleanupAfterRun q =>
          cases f with
          | api pc =>
              cases pc with
              | shutdownState => cases hTop
              | _ => exact False.elim hLeaves
          | handleIdle pc =>
              cases pc with
              | readCancelled =>
                  -- the pass cleans up only when the graph is being cancelled
                  obtain ⟨-, hFrames⟩ := exec_handleIdle hStep
                  have hTurn : idleStep g s .readCancelled = goto s .readInputs := by
                    simp [idleStep, hUndisturbed.state]
                  rw [hFrames, hTurn] at hNew
                  simp at hNew
              | _ => exact False.elim hLeaves
          | _ => exact False.elim hLeaves
      | api pc =>
          obtain ⟨pc₀, t, rfl, hTurn, -, hNext⟩ := api_of_exec hStep hNew
          rcases apiStep_call hTurn hNext with hSame | hOther
          · simpa [Frame.discards, hSame] using hTop
          · simp [Frame.discards, hOther]
      | _ => rfl
    · exact hUndisturbed.frame f' hOld

theorem Undisturbed.spawn {b : Call} (hUndisturbed : Undisturbed s A)
    (hGuard : neverCancelled.spawn s A b = true)
    (hSpawn : Scheduler.spawn g s b = some (s', fs)) : Undisturbed s' (A ++ fs) := by
  simp only [neverCancelled, Bool.and_eq_true, decide_eq_true_eq] at hGuard
  obtain ⟨hCancel, hShutdown⟩ := hGuard
  refine ⟨?_, fun f' hMem => ?_⟩
  · obtain ⟨tasks, rfl, -⟩ := spawn_frame hSpawn
    exact hUndisturbed.state
  · rcases List.mem_append.mp hMem with hOld | hNew
    · exact hUndisturbed.frame f' hOld
    · cases b with
      | cancel => exact absurd rfl hCancel
      | shutdown => exact absurd rfl hShutdown
      | worker q =>
          rcases spawn_cases hSpawn with ⟨p, -, -, -, rfl⟩ | ⟨-, pc, -, hOther⟩
          · rw [List.mem_singleton.mp hNew]
            rfl
          · simp at hOther
      | _ =>
          cases hSpawn
          rw [List.mem_singleton.mp hNew]
          rfl

/-- The item that a step queues for the node. -/
def addedItem (g : Graph) (s : Shared) (n : NodeId) (f : Frame) : Nat :=
  if f.schedules = some n ∧ accepts g s n = true then 1 else 0

theorem exec_schedules_state (hSchedules : f.schedules = some n)
    (hStep : exec g s f x = some (s', fs)) : s' = (scheduleNode g s n).1 := by
  unfold Frame.schedules at hSchedules
  split at hSchedules
  all_goals cases hSchedules
  case h_1 => exact (congrArg Prod.fst (Option.some.inj hStep)).symm
  all_goals
    cases hStep
    rfl

/-- An item stays until it is popped. -/
theorem waiting_kept (hTask : ∀ q, f ≠ .runNextTask q) (hCleanup : ∀ q, f ≠ .cleanupAfterRun q)
    (hStep : exec g s f x = some (s', fs)) :
    waiting g s n + addedItem g s n f ≤ waiting g s' n := by
  unfold addedItem
  split
  · rename_i hAdds
    obtain ⟨hSchedules, hAccepts⟩ := hAdds
    simp only [accepts, Bool.and_eq_true, decide_eq_true_eq] at hAccepts
    rw [exec_schedules_state hSchedules hStep]
    rcases scheduleNode_cases g s n with ⟨hRefused | hRefused, -⟩ | ⟨-, -, hState, -⟩
    · exact absurd hAccepts.1 (by simp [hRefused])
    · omega
    · rw [hState]
      simp [waiting, SchedulerQueue.push]
  · unfold waiting
    have hChange := exec_queue (g.queue n) hStep
    generalize s'.queues (g.queue n) = queue at hChange ⊢
    cases hChange with
    | pushed _ _ m => exact (List.sublist_append_left _ _).count_le _
    | popped => exact absurd rfl (hTask _)
    | cleaned => exact absurd rfl (hCleanup _)
    | decided => rw [decideFinalize_items]; exact Nat.le_refl _
    | _ => exact Nat.le_refl _

/-- A call that is starting goes on or calls `Process`. -/
theorem starts_kept {r : Invocation} {pc : RunPc} (hOpen : r.isOpen = false)
    (hStep : exec g s (.run r pc) x = some (s', fs)) :
    called s n + [Frame.run r pc].countP (Frame.starts n) ≤
      called s' n + fs.countP (Frame.starts n) := by
  have hMore : called s n ≤ called s' n := (exec_log hStep).isPrefix.sublist.countP_le
  have hOne : [Frame.run r pc].countP (Frame.starts n) ≤ 1 := List.countP_le_length
  by_cases hStarts : r.node = n ∧ pc.starting = true
  · obtain ⟨hNode, hStarting⟩ := hStarts
    by_cases hLast : pc = .prepareOutputs []
    · subst hLast
      cases hStep
      have hCalled : called (s.record (.processCalled r.node r.inputs)) n = called s n + 1 := by
        simp [called, Shared.record, Event.calls, hNode]
      show called s n + _ ≤ called (s.record (.processCalled r.node r.inputs)) n + _
      omega
    · have hAfter : fs.countP (Frame.starts n) = 1 := by
        cases pc with
        | popInputs rest =>
            cases rest with
            | nil =>
                simp only [exec, runStep, hOpen] at hStep
                cases hStep
                simp [Frame.starts, Frame.runsWith, hNode, RunPc.starting]
            | cons p rest =>
                cases hStep
                simp [Frame.starts, Frame.runsWith, hNode, RunPc.starting]
        | prepareOutputs rest =>
            cases rest with
            | nil => exact absurd rfl hLast
            | cons o rest =>
                cases hStep
                simp [Invocation.prepare, Frame.starts, Frame.runsWith, hNode, RunPc.starting]
        | _ => cases hStarting
      omega
  · have hNone : [Frame.run r pc].countP (Frame.starts n) = 0 := by
      simp only [List.countP_singleton, Frame.starts, Frame.runsWith]
      simpa using hStarts
    omega

theorem popped_kept (hPlaced : Placed g s (A ++ .runNextTask q :: B))
    (hStep : exec g s (.runNextTask q) x = some (s', fs)) :
    waiting g s n ≤ waiting g s' n + fs.countP (Frame.starts n) := by
  simp only [exec] at hStep
  split at hStep
  · cases hStep
    exact Nat.le_add_right _ _
  · rename_i it queue hPop
    obtain ⟨hMem, rfl⟩ := SchedulerQueue.tryPop_eq_some hPop
    obtain ⟨hItem, hQueue, -⟩ := hPlaced.item q it hMem
    cases hStep
    unfold waiting
    by_cases hNode : it.node = n
    · subst hNode
      rw [hQueue, ← hItem]
      simp [Frame.starts, Frame.runsWith, RunPc.starting]
      omega
    · have hOther : it ≠ g.item n := fun hEq => hNode (congrArg Item.node hEq)
      by_cases hSame : g.queue n = q
      · simp [hSame, List.count_erase_of_ne hOther.symm]
      · simp [hSame]

theorem exec_not_lost (hPlaced : Placed g s (A ++ f :: B))
    (hCleanup : ∀ q, f ≠ .cleanupAfterRun q) (hStep : exec g s f x = some (s', fs)) :
    called s n + waiting g s n + [f].countP (Frame.starts n) + addedItem g s n f ≤
      called s' n + waiting g s' n + fs.countP (Frame.starts n) := by
  have hMore : called s n ≤ called s' n := (exec_log hStep).isPrefix.sublist.countP_le
  by_cases hTask : ∃ q, f = .runNextTask q
  · obtain ⟨q, rfl⟩ := hTask
    have hPopped := popped_kept (n := n) hPlaced hStep
    have hTop : [Frame.runNextTask q].countP (Frame.starts n) = 0 := rfl
    have hNone : addedItem g s n (.runNextTask q) = 0 := if_neg (by simp [Frame.schedules])
    omega
  · simp only [not_exists] at hTask
    have hWaiting := waiting_kept (n := n) hTask hCleanup hStep
    by_cases hRun : ∃ r pc, f = .run r pc
    · obtain ⟨r, pc, rfl⟩ := hRun
      have hStarts := starts_kept (n := n) (hPlaced.run r pc mem_running).2.1 hStep
      omega
    · have hTop : [f].countP (Frame.starts n) = 0 :=
        countP_runs_of_not_run fun f' hMem r pc hEq =>
          hRun ⟨r, pc, List.mem_singleton.mp hMem ▸ hEq⟩
      omega

/-- **An item is queued, or on its way to `Process`, or has been processed**: a step moves
it from one to the next, and only `AddNode` makes one. -/
theorem exec_conserved (hPlaced : Placed g s (A ++ f :: B))
    (hCleanup : ∀ q, f ≠ .cleanupAfterRun q) (hStep : exec g s f x = some (s', fs)) :
    called s' n + waiting g s' n + fs.countP (Frame.starts n) =
      called s n + waiting g s n + [f].countP (Frame.starts n) + addedItem g s n f := by
  have hLost := exec_not_lost (n := n) hPlaced hCleanup hStep
  rcases exec_potential (n := n) hPlaced hStep with hSame | ⟨hSchedules, hAccepts, hBound⟩
  · omega
  · have hOne : addedItem g s n f = 1 := if_pos ⟨hSchedules, hAccepts⟩
    omega

/-! ## A run with a count of the items -/

/-- A state with the number of items queued for a node so far. -/
structure Tally where
  shared : Shared
  queued : Nat := 0

def tallied (g : Graph) (n : NodeId) : Machine Tally Frame Choice Call where
  exec := fun t f x =>
    match exec g t.shared f x with
    | none => none
    | some (s', fs) => some (⟨s', t.queued + addedItem g t.shared n f⟩, fs)
  spawn := fun t b =>
    match spawn g t.shared b with
    | none => none
    | some (s', fs) => some (⟨s', t.queued⟩, fs)

/-- The count begins. -/
def tally (c : Config Shared Frame) : Config Tally Frame := ⟨⟨c.shared, 0⟩, c.threads⟩

theorem tallied_exec {t t' : Tally} (hStep : (tallied g n).exec t f x = some (t', fs)) :
    exec g t.shared f x = some (t'.shared, fs) ∧
      t'.queued = t.queued + addedItem g t.shared n f := by
  simp only [tallied] at hStep
  split at hStep <;> cases hStep
  exact ⟨‹_›, rfl⟩

theorem tallied_spawn {t t' : Tally} {b : Call}
    (hSpawn : (tallied g n).spawn t b = some (t', fs)) :
    spawn g t.shared b = some (t'.shared, fs) ∧ t'.queued = t.queued := by
  simp only [tallied] at hSpawn
  split at hSpawn <;> cases hSpawn
  exact ⟨‹_›, rfl⟩

theorem projects_tallied : Projects (tallied g n) (machine g) Tally.shared id :=
  ⟨fun hStep => (tallied_exec hStep).1, fun hSpawn => (tallied_spawn hSpawn).1⟩

/-- The items of the node: processed, queued, and on their way. -/
def itemsOf (g : Graph) (s : Shared) (fs : List Frame) (n : NodeId) : Nat :=
  called s n + waiting g s n + fs.countP (Frame.starts n)

/-- **No item is lost and none is made**, in whatever order the calls come. -/
theorem items_conserved {c : Config Shared Frame} {d : Config Tally Frame}
    (hPlaced : ∀ d, (machine g).Reaches neverCancelled c d → Placed g d.shared d.frames)
    (hUndisturbed : Undisturbed c.shared c.frames)
    (hReach : (tallied g n).Reaches (neverCancelled.along Tally.shared id) (tally c) d) :
    itemsOf g d.shared.shared d.frames n = itemsOf g c.shared c.frames n + d.shared.queued := by
  have hBoth : Undisturbed d.shared.shared d.frames ∧
      itemsOf g d.shared.shared d.frames n = itemsOf g c.shared c.frames n + d.shared.queued := by
    refine Machine.invariant_with (J := fun t fs => Placed g t.shared fs)
      (I := fun t fs => Undisturbed t.shared fs ∧
        itemsOf g t.shared fs n = itemsOf g c.shared c.frames n + t.queued)
      (fun d hReach => hPlaced _ (projects_tallied.reaches hReach)) ⟨hUndisturbed, rfl⟩ ?_ ?_
      hReach
    · rintro t A f B x t' fs hHere ⟨hUndisturbed, hCount⟩ - hStep
      obtain ⟨hExec, hQueued⟩ := tallied_exec hStep
      refine ⟨hUndisturbed.exec hExec, ?_⟩
      have hCleanup : ∀ q, f ≠ .cleanupAfterRun q := by
        rintro q rfl
        exact absurd (hUndisturbed.frame _ mem_running) (by simp [Frame.discards])
      have hSame := exec_conserved (n := n) hHere hCleanup hExec
      simp only [itemsOf, List.countP_append, List.countP_cons, List.countP_nil]
        at hCount hSame ⊢
      omega
    · rintro t A b t' fs - ⟨hUndisturbed, hCount⟩ hGuard hStep
      obtain ⟨hSpawn, hQueued⟩ := tallied_spawn hStep
      refine ⟨hUndisturbed.spawn hGuard hSpawn, ?_⟩
      have hNone : fs.countP (Frame.starts n) = 0 :=
        countP_runs_of_not_run (not_run_of_spawn hSpawn)
      obtain ⟨tasks, hShared, -⟩ := spawn_frame hSpawn
      rw [hQueued, hShared]
      simp only [itemsOf, List.countP_append] at hCount ⊢
      rw [hNone]
      exact hCount
  exact hBoth.2

/-! ## `Pause` -/

/-- No task and no call of `RunNode` is on its way to `Process`, and no `Start`, `Resume`
or `Cancel` on its way to the queues. -/
structure Halted (g : Graph) (s : Shared) (fs : List Frame) : Prop where
  outstanding : ∀ q ∈ g.queues, outstanding s fs q = 0
  frame : ∀ f ∈ fs, f.restarts = false

/-- A call that starts is on its way to `Process`. -/
theorem starts_le_outstanding (hPlaced : Placed g s fs) :
    fs.countP (Frame.starts n) ≤ outstanding s fs (g.queue n) := by
  have hLe : fs.countP (Frame.starts n) ≤ fs.countP (Frame.approaches (g.queue n)) := by
    refine List.countP_mono_left fun f hMem hStarts => ?_
    cases f with
    | run r pc =>
        simp only [Frame.starts, Frame.runsWith, Bool.and_eq_true, decide_eq_true_eq] at hStarts
        obtain ⟨hQueue, -⟩ := hPlaced.run r pc hMem
        simp [Frame.approaches, hQueue, hStarts]
    | _ => cases hStarts
  exact hLe.trans (Nat.le_add_left _ _)

theorem Undisturbed.reaches {c c' : Config Shared Frame}
    (hUndisturbed : Undisturbed c.shared c.frames)
    (hReach : (machine g).Reaches neverCancelled c c') : Undisturbed c'.shared c'.frames := by
  refine Machine.invariant (I := Undisturbed) hUndisturbed ?_ ?_ hReach
  · intro s A f B x s' fs hUndisturbed _ hStep
    exact hUndisturbed.exec hStep
  · intro s A b s' fs hUndisturbed hGuard hSpawn
    exact hUndisturbed.spawn hGuard hSpawn

theorem neverCancelled_of_untilResumed {c c' : Config Shared Frame}
    (hReach : (machine g).Reaches untilResumed c c') :
    (machine g).Reaches neverCancelled c c' := by
  refine (machine g).reaches_mono (fun _ _ _ _ _ => rfl) (fun s fs b hOk => ?_) hReach
  simp only [untilResumed, Bool.and_eq_true] at hOk
  simp only [neverCancelled, Bool.and_eq_true]
  exact ⟨hOk.1.2, hOk.2⟩

/-- **`Pause` stops a graph that has come to a halt when it returns.**  Whatever happens
then, short of `Resume`, `Cancel` and `Shutdown`, no call of `Process` starts.  And unless
one of the last two was under way, each item that was queued then or since is, `Resume` or
not, still queued, on its way to `Process`, or has been processed. -/
theorem pause_stops_processing {outputs : OutId → OutputStreamManager} {defaultQueue : QueueId}
    {errorCallback : Bool} {c₀ c₁ c₂ : Config Shared Frame} {i : Nat}
    (hBefore : (machine g).Reaches Guard.all
      (started (initial outputs defaultQueue errorCallback)) c₀)
    (hPause : c₀.threads[i]? = some [.api .pauseWrite])
    (hPausing : (machine g).Reaches neverRestarted c₀ c₁)
    (hReturned : c₁.threads[i]? = some [])
    (hHalted : Halted g c₁.shared c₁.frames)
    (hPaused : (machine g).Reaches untilResumed c₁ c₂) :
    ∀ n ∈ g.nodes, called c₂.shared n = called c₁.shared n ∧
      (Undisturbed c₁.shared c₁.frames →
        ∀ d, (tallied g n).Reaches (neverCancelled.along Tally.shared id) (tally c₂) d →
          called d.shared.shared n + d.frames.countP (Frame.starts n) +
              waiting g d.shared.shared n =
            called c₂.shared n + waiting g c₂.shared n + d.shared.queued) := by
  intro n hNode
  have hFirst := hBefore.trans ((machine g).reaches_all hPausing)
  have hWhole := hFirst.trans ((machine g).reaches_all hPaused)
  have hStopped : Stopped c₁.shared c₁.frames :=
    ⟨stopped_of_pause (inUse_of_reaches hBefore) hPause hPausing hReturned, hHalted.frame⟩
  have hBound := calls_while_paused (n := n)
    (fun d hRun => placed_of_reaches (hFirst.trans ((machine g).reaches_all hRun)))
    hStopped hPaused
  rw [hHalted.outstanding _ (g.queue_mem n hNode)] at hBound
  have hMore := called_mono (n := n) hPaused
  refine ⟨by omega, fun hUndisturbed d hRun => ?_⟩
  have hItems := items_conserved
    (fun d hRun => placed_of_reaches (hWhole.trans ((machine g).reaches_all hRun)))
    (hUndisturbed.reaches (neverCancelled_of_untilResumed hPaused)) hRun
  have hStarts := starts_le_outstanding (n := n) (placed_of_reaches hWhole)
  simp only [itemsOf] at hItems
  omega

/-- `Pause`, called by thread `i`, has found the graph running. -/
def pauseFound (c : Config Shared Frame) (i : Nat) : Bool :=
  match c.threads[i]? with
  | some [.api .pauseWrite] => true
  | _ => false

def hasReturned (c : Config Shared Frame) (i : Nat) : Bool :=
  match c.threads[i]? with
  | some [] => true
  | _ => false

theorem thread_of_pauseFound {c : Config Shared Frame} {i : Nat} (hFound : pauseFound c i = true) :
    c.threads[i]? = some [.api .pauseWrite] := by
  unfold pauseFound at hFound
  split at hFound
  · assumption
  · cases hFound

theorem thread_of_hasReturned {c : Config Shared Frame} {i : Nat}
    (hReturned : hasReturned c i = true) : c.threads[i]? = some [] := by
  unfold hasReturned at hReturned
  split at hReturned
  · assumption
  · cases hReturned

instance {c : Config Shared Frame} : Decidable (Halted g c.shared c.frames) :=
  decidable_of_iff ((∀ q ∈ g.queues, outstanding c.shared c.frames q = 0) ∧
      ∀ f ∈ c.frames, f.restarts = false)
    ⟨fun h => ⟨h.1, h.2⟩, fun h => ⟨h.outstanding, h.frame⟩⟩

instance {c : Config Shared Frame} : Decidable (Undisturbed c.shared c.frames) :=
  decidable_of_iff (c.shared.state ≠ .kCancelling ∧ ∀ f ∈ c.frames, f.discards = false)
    ⟨fun h => ⟨h.1, h.2⟩, fun h => ⟨h.state, h.frame⟩⟩

/-- A chain of one node. -/
def pausedChain : Graph := .chain 1 id id_lt_one

/-- The rule at work: a chain of one node is paused, gets a packet, which stays queued, and is
resumed; then the packet is processed once. -/
theorem pause_stops_processing_chain :
    ∃ (c₁ c₂ : Config Shared Frame) (d : Config Tally Frame),
      c₂.shared.state = .kPaused ∧ waiting pausedChain c₂.shared 0 = 1 ∧
      called c₂.shared 0 = called c₁.shared 0 ∧
      d.shared.queued = 0 ∧ waiting pausedChain d.shared.shared 0 = 0 ∧
      called d.shared.shared 0 + d.frames.countP (Frame.starts 0) =
        called c₂.shared 0 + 1 := by
  obtain ⟨c₀, hBefore, hTest⟩ := (machine pausedChain).exists_reaches
    neverCancelled (started (chainInitial 1 false)) (runs 0 19 .ok ++ calls .pause 1 1 .ok)
    (fun c₀ => pauseFound c₀ 1 && ((machine pausedChain).runSchedule
      neverRestarted c₀ (runs 1 2 .ok)).any fun c₁ : Config Shared Frame =>
        hasReturned c₁ 1 && decide (Halted pausedChain c₁.shared c₁.frames) &&
        decide (Undisturbed c₁.shared c₁.frames) &&
        ((machine pausedChain).runSchedule untilResumed c₁
          (calls (.addPacketToInputStream "in" ⟨some 1, Timestamp.ofValue 0⟩) 2 12 .ok)).any
          fun c₂ : Config Shared Frame => decide (c₂.shared.state = .kPaused) &&
            decide (waiting pausedChain c₂.shared 0 = 1) &&
            ((tallied pausedChain 0).runSchedule
              (neverCancelled.along Tally.shared id) (tally c₂)
              (calls .resume 3 14 .ok ++ calls (.worker 0) 4 5 .ok)).any
              fun d : Config Tally Frame => decide (d.shared.queued = 0) &&
                  decide (waiting pausedChain d.shared.shared 0 = 0))
    (by decide +kernel)
  simp only [Bool.and_eq_true] at hTest
  obtain ⟨hFound, hRest⟩ := hTest
  obtain ⟨c₁, hPausing, hTest⟩ := (machine pausedChain).exists_reaches _ _ _ _ hRest
  simp only [Bool.and_eq_true, decide_eq_true_eq] at hTest
  obtain ⟨⟨⟨hReturned, hHalted⟩, hUndisturbed⟩, hRest⟩ := hTest
  obtain ⟨c₂, hPaused, hTest⟩ := (machine pausedChain).exists_reaches _ _ _ _ hRest
  simp only [Bool.and_eq_true, decide_eq_true_eq] at hTest
  obtain ⟨⟨hState, hWaiting⟩, hRest⟩ := hTest
  obtain ⟨d, hLater, hTest⟩ := (tallied pausedChain 0).exists_reaches _ _ _ _ hRest
  simp only [Bool.and_eq_true, decide_eq_true_eq] at hTest
  obtain ⟨hQueued, hEmpty⟩ := hTest
  obtain ⟨hSame, hItems⟩ := pause_stops_processing ((machine pausedChain).reaches_all hBefore)
    (thread_of_pauseFound hFound) hPausing (thread_of_hasReturned hReturned) hHalted hPaused 0
    (by decide)
  have hCount := hItems hUndisturbed d hLater
  exact ⟨c₁, c₂, d, hState, hWaiting, hSame, hQueued, hEmpty, by omega⟩

/-- **`Process` starts while the graph is paused**: an executor has the task of a packet
that was added before, and takes it after `Pause` has returned. -/
theorem processes_while_paused :
    ∃ c₀ c₁ c₂ : Config Shared Frame,
      (machine pausedChain).Reaches neverCancelled
        (started (chainInitial 1 false)) c₀ ∧
      c₀.threads[2]? = some [.api .pauseWrite] ∧
      (machine pausedChain).Reaches neverRestarted c₀ c₁ ∧
      c₁.threads[2]? = some [] ∧
      (machine pausedChain).Reaches untilResumed c₁ c₂ ∧
      c₂.shared.state = .kPaused ∧ called c₁.shared 0 = 0 ∧ called c₂.shared 0 = 1 := by
  obtain ⟨c₀, hBefore, hTest⟩ := (machine pausedChain).exists_reaches
    neverCancelled (started (chainInitial 1 false))
    (runs 0 19 .ok ++
      calls (.addPacketToInputStream "in" ⟨some 1, Timestamp.ofValue 0⟩) 1 14 .ok ++
      calls .pause 2 1 .ok)
    (fun c₀ => pauseFound c₀ 2 && ((machine pausedChain).runSchedule
      neverRestarted c₀ (runs 2 2 .ok)).any fun c₁ : Config Shared Frame =>
        hasReturned c₁ 2 && decide (called c₁.shared 0 = 0) &&
        ((machine pausedChain).runSchedule untilResumed c₁
          (calls (.worker 0) 3 5 .ok)).any fun c₂ : Config Shared Frame =>
            decide (c₂.shared.state = .kPaused) && decide (called c₂.shared 0 = 1))
    (by decide +kernel)
  simp only [Bool.and_eq_true] at hTest
  obtain ⟨hFound, hRest⟩ := hTest
  obtain ⟨c₁, hPausing, hTest⟩ := (machine pausedChain).exists_reaches _ _ _ _ hRest
  simp only [Bool.and_eq_true, decide_eq_true_eq] at hTest
  obtain ⟨⟨hReturned, hNone⟩, hRest⟩ := hTest
  obtain ⟨c₂, hPaused, hTest⟩ := (machine pausedChain).exists_reaches _ _ _ _ hRest
  simp only [Bool.and_eq_true, decide_eq_true_eq] at hTest
  exact ⟨c₀, c₁, c₂, hBefore, thread_of_pauseFound hFound, hPausing,
    thread_of_hasReturned hReturned, hPaused, hTest.1, hNone, hTest.2⟩

end GraphRuntime.Scheduler
