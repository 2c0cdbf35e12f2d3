import Mathlib.Data.List.Nodup
import GraphRuntime.Scheduler.Schedule

/-!
# A call of `Schedule` on its own

While `Schedule` runs and nobody resumes, cancels or shuts down the scheduler, no queue
is running, so no task is ever submitted and no worker calls a node (`Sole`): every
`Process` call is one of the loop of `Schedule`.

That loop clears its flag and never sets it, so each source is called once
(`Loop`): a source that has to be called again after an OK never returns Stop, and
`Schedule` returns all the same (`schedule_completes_iff`).  The nodes behind the
sources are called with empty shards (`schedule_delivers_nothing`).
-/

namespace GraphRuntime.Scheduler

open GraphRuntime.Stream Interleaving

variable {g : Graph} {s s' : Shared} {x : Choice}

/-! ## Nothing runs beside the call -/

/-- Public calls that leave the scheduler's flags and its queues alone. -/
def ApiPc.calm : ApiPc → Bool
  | .resume | .resumeWrite | .cancel | .cancelError | .cancelState | .cancelPaused
  | .shutdown | .shutdownState => false
  | _ => true

/-- Frames of such calls, and of what they call. -/
def Frame.calm : Frame → Bool
  | .arrival _ | .notifyAll | .propagate _ | .propagateBound _ | .closeManager _
  | .userError _ | .cleanupAfterRun _ | .handleIdle _ => true
  | .setRunning _ running => !running
  | .api pc => pc.calm
  | _ => false

/-- A step of `Schedule` with a choice that is no error. -/
def SchedulePc.tolerates : SchedulePc → Choice → Bool
  | .openNodes _, .returns status _ => status.isOk
  | .process _ _ _, .returns status _ | .processDownstream _ _ _ _, .returns status _ =>
      !status.isError
  | _, _ => true

/-- No node fails, and the calls made meanwhile are none of `Resume`, `Cancel` and
`Shutdown`. -/
def soleCall : Guard Shared RuntimeFrame Choice Call where
  exec := fun _ _ f x =>
    match f with
    | .schedule pc => pc.tolerates x
    | .async _ => true
  spawn := fun _ _ b =>
    match b with
    | .resume | .cancel | .shutdown => false
    | _ => true

/-- Points of `Schedule` on its error paths. -/
def SchedulePc.failed : SchedulePc → Bool
  | .openFailed | .sourceError | .downstreamError _ _ => true
  | _ => false

def RuntimeFrame.schedule? : RuntimeFrame → Option SchedulePc
  | .async _ => none
  | .schedule pc => some pc

/-- The frames of `Schedule` itself. -/
def scheduleFrames (fs : List RuntimeFrame) : List SchedulePc :=
  fs.filterMap RuntimeFrame.schedule?

section

variable (pc : SchedulePc) (fs gs : List RuntimeFrame) (l : List Frame)

@[simp] theorem scheduleFrames_nil : scheduleFrames [] = [] := rfl

@[simp] theorem scheduleFrames_append :
    scheduleFrames (fs ++ gs) = scheduleFrames fs ++ scheduleFrames gs := List.filterMap_append

@[simp] theorem scheduleFrames_cons_async (f : Frame) :
    scheduleFrames (.async f :: fs) = scheduleFrames fs := rfl

@[simp] theorem scheduleFrames_cons_schedule :
    scheduleFrames (.schedule pc :: fs) = pc :: scheduleFrames fs := rfl

@[simp] theorem scheduleFrames_map : scheduleFrames (l.map .async) = [] := by
  induction l with
  | nil => rfl
  | cons f l ih => rw [List.map_cons, scheduleFrames_cons_async, ih]

@[simp] theorem scheduleFrames_next (next : Option SchedulePc) :
    scheduleFrames (next.map RuntimeFrame.schedule).toList = next.toList := by
  cases next <;> rfl

end

/-- **Nothing runs beside the call**: no queue is running, no task is out, and neither
flag is set. -/
structure Sole (s : Shared) (fs : List RuntimeFrame) : Prop where
  calm : ∀ f ∈ asyncFrames fs, f.calm = true
  running : ∀ q, (s.queues q).running = false
  tasks : ∀ q, s.tasks q = 0
  hasError : s.hasError = false
  stopping : s.stopping = false
  state : s.state ≠ .kCancelling
  failed : ∀ pc ∈ scheduleFrames fs, pc.failed = false

theorem apiStep_calm {pc pc' : ApiPc} {t : Turn ApiPc} (hTurn : apiStep g s pc = some t)
    (hCalm : pc.calm = true) (hNext : t.next = some pc') : pc'.calm = true := by
  revert hTurn
  fun_cases apiStep g s pc
  all_goals intro hTurn; cases hTurn
  all_goals try split at hNext
  all_goals first
    | (cases hCalm; done)
    | (cases hNext; done)
    | (cases hNext; rfl)

/-- Calm frames leave calm frames while no queue is running. -/
theorem exec_calm {f : Frame} {fs : List Frame} (hCalm : f.calm = true)
    (hRunning : ∀ q, (s.queues q).running = false)
    (hStep : exec g s f x = some (s', fs)) : ∀ f' ∈ fs, f'.calm = true := by
  intro f' hMem
  have hSubmit : ∀ q, f' ≠ .submitToExecutor q := by
    rintro q rfl
    rcases exec_submit hStep hMem with hSet | rfl
    · exact absurd hSet (by simp [hRunning q])
    · exact absurd hCalm (by simp [Frame.calm])
  have hLeaves := exec_leaves hStep f' hMem
  cases f' with
  | submitToExecutor q => exact absurd rfl (hSubmit q)
  | api pc =>
      obtain ⟨pc₀, t, rfl, hTurn, -, hNext⟩ := api_of_exec hStep hMem
      exact apiStep_calm hTurn hCalm hNext
  | setRunning q b =>
      cases f with
      | start pc => cases hCalm
      | api pc =>
          cases pc with
          | pauseWrite =>
              obtain rfl : b = false := hLeaves
              rfl
          | resumeWrite | cancelPaused => cases hCalm
          | _ => exact False.elim hLeaves
      | _ => exact False.elim hLeaves
  | arrival n | notifyAll | propagate p | propagateBound p | closeManager o
  | userError status | cleanupAfterRun q | handleIdle pc => rfl
  | addTask q | runNextTask q | dropTask q | onTaskFinished q | updateIdleState q
  | submitWaitingTasks q | sourceStopped n | queueError status | run r pc | start pc =>
      exfalso
      cases f with
      | api pc' =>
          cases pc' with
          | resumeWrite => cases hCalm
          | _ => exact hLeaves
      | submitToExecutor q' | runNextTask q' | dropTask q' | onTaskFinished q' | run r' pc'
      | start pc' => cases hCalm
      | _ => exact hLeaves

/-- A tolerated choice keeps `Schedule` off its error paths. -/
theorem scheduleStep_failed {pc pc' : SchedulePc} {t : Turn SchedulePc}
    (hTurn : scheduleStep g s x pc = some t) (hTolerates : pc.tolerates x = true)
    (hFine : pc.failed = false) (hNext : t.next = some pc') : pc'.failed = false := by
  revert hTurn
  fun_cases scheduleStep g s x pc
  all_goals intro hTurn; cases hTurn
  all_goals repeat' split at hNext
  all_goals first
    | (cases hFine; done)
    | (cases hNext; done)
    | (cases hNext; rfl)
    | simp_all [SchedulePc.tolerates]

/-- `stopping_` is written by `Shutdown` alone. -/
theorem exec_stopping {f : Frame} {fs : List Frame} (hStep : exec g s f x = some (s', fs))
    (hShutdown : f ≠ .api .shutdown) : s'.stopping = s.stopping := by
  cases f with
  | run r pc =>
      obtain ⟨t, hTurn, rfl, rfl⟩ := exec_run hStep
      obtain ⟨_, _, _, _, _, hState⟩ := runStep_frame hTurn
      rw [hState]
  | handleIdle pc =>
      obtain ⟨rfl, rfl⟩ := exec_handleIdle hStep
      obtain ⟨_, _, _, _, _, _, hState⟩ := idleStep_frame g s pc
      rw [hState]
  | start pc =>
      obtain ⟨t, hTurn, rfl, rfl⟩ := exec_start hStep
      obtain ⟨_, _, _, _, _, _, hState⟩ := startStep_frame hTurn
      rw [hState]
  | api pc =>
      obtain ⟨t, hTurn, rfl, rfl⟩ := exec_api hStep
      revert hTurn hShutdown
      fun_cases apiStep g s pc
      all_goals intro hShutdown hTurn; cases hTurn
      all_goals try split
      all_goals first
        | rfl
        | exact absurd rfl hShutdown
  | arrival n =>
      have hState : s' = (scheduleNode g s n).1 :=
        (congrArg Prod.fst (Option.some.inj hStep)).symm
      rw [hState, scheduleNode_eq]
  | _ =>
      revert hStep
      unfold Scheduler.exec
      simp only
      repeat' split
      all_goals intro hStep; cases hStep
      all_goals rfl

theorem Sole.exec {A B : List RuntimeFrame} {f : Frame} {fs : List Frame}
    (hSole : Sole s (A ++ .async f :: B)) (hStep : exec g s f x = some (s', fs)) :
    Sole s' (A ++ (fs.map .async ++ B)) := by
  have hTop : f.calm = true := hSole.calm f (by simp)
  refine ⟨?_, ?_, ?_, ?_, ?_, ?_, ?_⟩
  · intro f' hMem
    have hNew := exec_calm hTop hSole.running hStep f'
    have hOld := hSole.calm f'
    simp at hMem hOld hNew
    rcases hMem with hA | hNewMem | hB
    · exact hOld (Or.inl hA)
    · exact hNew hNewMem
    · exact hOld (Or.inr (Or.inr hB))
  · intro q
    refine exec_running hStep (hSole.running q) ?_
    rintro rfl
    exact absurd hTop (by simp [Frame.calm])
  · intro q
    have hTask : ∀ q, f ≠ .addTask q := by
      rintro q rfl
      exact absurd hTop (by simp [Frame.calm])
    rw [(exec_kept hStep).tasks hTask]
    exact hSole.tasks q
  · rcases exec_hasError hStep with hSame | ⟨-, ⟨status, rfl⟩ | rfl⟩
    · rw [hSame]
      exact hSole.hasError
    · exact absurd hTop (by simp [Frame.calm])
    · exact absurd hTop (by simp [Frame.calm, ApiPc.calm])
  · have hShutdown : f ≠ .api .shutdown := by
      rintro rfl
      exact absurd hTop (by simp [Frame.calm, ApiPc.calm])
    rw [exec_stopping hStep hShutdown]
    exact hSole.stopping
  · have hChange := exec_state hStep
    generalize s'.state = state at hChange ⊢
    cases hChange with
    | same => exact hSole.state
    | cancelling => exact absurd hTop (by simp [Frame.calm, ApiPc.calm])
    | _ => exact SchedulerState.noConfusion
  · have hSchedule := hSole.failed
    simp at hSchedule ⊢
    exact hSchedule

theorem calm_of_scheduled {f : Frame} (hScheduled : f.scheduled = true) : f.calm = true := by
  cases f with
  | userError | propagate | closeManager | notifyAll => rfl
  | _ => exact absurd hScheduled Bool.false_ne_true

theorem Sole.schedule {A B : List RuntimeFrame} {pc : SchedulePc} {t : Turn SchedulePc}
    (hSole : Sole s (A ++ .schedule pc :: B)) (hTolerates : pc.tolerates x = true)
    (hTurn : scheduleStep g s x pc = some t) :
    Sole t.state
      (A ++ (t.calls.map .async ++ (t.next.map .schedule).toList ++ B)) := by
  have hFine : pc.failed = false := hSole.failed pc (by simp)
  obtain ⟨_, _, _, _, _, _, hState⟩ := scheduleStep_frame hTurn
  refine ⟨?_, ?_, ?_, ?_, ?_, ?_, ?_⟩
  · intro f' hMem
    have hCalls := fun f hIn => calm_of_scheduled (scheduleStep_calls hTurn f hIn)
    have hOld := hSole.calm f'
    simp at hMem hOld
    rcases hMem with hA | hCall | hB
    · exact hOld (Or.inl hA)
    · exact hCalls f' hCall
    · exact hOld (Or.inr hB)
  · rw [hState]
    exact hSole.running
  · rw [hState]
    exact hSole.tasks
  · rcases scheduleStep_hasError hTurn with hSame | ⟨-, rfl | ⟨count, rest, rfl⟩⟩
    · rw [hSame]
      exact hSole.hasError
    · exact absurd hFine (by simp [SchedulePc.failed])
    · exact absurd hFine (by simp [SchedulePc.failed])
  · rw [hState]
    exact hSole.stopping
  · rcases scheduleStep_state hTurn with hSame | rfl | ⟨hEnd, -⟩
    · rw [hSame]
      exact hSole.state
    · cases hTurn
      exact SchedulerState.noConfusion
    · rw [hEnd]
      exact SchedulerState.noConfusion
  · intro pc' hMem
    have hOld := hSole.failed pc'
    simp at hMem hOld
    rcases hMem with hA | hNext | hB
    · exact hOld (Or.inl hA)
    · exact scheduleStep_failed hTurn hTolerates hFine hNext
    · exact hOld (Or.inr (Or.inr hB))

theorem Sole.spawn {A : List RuntimeFrame} {b : Call} {fs : List RuntimeFrame}
    (hSole : Sole s A) (hGuard : soleCall.spawn s A b = true)
    (hSpawn : runtimeSpawn g s b = some (s', fs)) : Sole s' (A ++ fs) := by
  obtain ⟨r, hAsync, hOut⟩ := Option.map_eq_some_iff.mp hSpawn
  cases hOut
  rcases spawn_cases hAsync with ⟨q, -, hTask, -, -⟩ | ⟨hSame, pc, hFrames, hPc⟩
  · exact absurd hTask (by simp [hSole.tasks q])
  · have hCalm : pc.calm = true := by
      rcases hPc with ⟨_, _, rfl, rfl⟩ | ⟨_, rfl, rfl⟩ | ⟨rfl, rfl⟩ | ⟨rfl, rfl⟩ | ⟨rfl, rfl⟩ |
        ⟨rfl, rfl⟩ | ⟨rfl, rfl⟩ | ⟨rfl, rfl⟩
      all_goals first
        | rfl
        | exact absurd hGuard Bool.false_ne_true
    rw [hSame, hFrames]
    refine ⟨?_, hSole.running, hSole.tasks, hSole.hasError, hSole.stopping, hSole.state, ?_⟩
    · intro f hMem
      have hOld := hSole.calm f
      simp at hMem hOld
      rcases hMem with hA | rfl
      · exact hOld hA
      · exact hCalm
    · have hOld := hSole.failed
      simp at hOld ⊢
      exact hOld

/-- The runs of a call of `Schedule`. -/
theorem sole_of_reaches {outputs : OutId → OutputStreamManager} {defaultQueue : QueueId}
    {errorCallback : Bool} {c : Config Shared RuntimeFrame}
    (hReach : (runtime g).Reaches soleCall
      (launched .schedule (initial outputs defaultQueue errorCallback)) c) :
    Sole c.shared c.frames := by
  refine Machine.invariant ?_ ?_ ?_ hReach
  · refine ⟨?_, fun _ => rfl, fun _ => rfl, rfl, rfl, SchedulerState.noConfusion, ?_⟩
    · intro f hMem
      simp [Config.frames, launched, Entry.frame] at hMem
    · intro pc hMem
      obtain rfl : pc = .begin := by
        simpa [Config.frames, launched, Entry.frame] using hMem
      rfl
  · intro s A f B x s' fs hSole hGuard hStep
    rcases runtimeExec_cases hStep with
      ⟨f, fs, rfl, hExec, rfl⟩ | ⟨pc, t, rfl, hTurn, rfl, rfl⟩
    · exact hSole.exec hExec
    · exact hSole.schedule hGuard hTurn
  · intro s A b s' fs hSole hGuard hSpawn
    exact hSole.spawn hGuard hSpawn

/-! ## The calls of a node -/

def Event.status? (n : NodeId) : Event → Option Status
  | .processReturned m status => if m = n then some status else none
  | _ => none

/-- What `Process` of `n` has returned. -/
def returnedStatuses (s : Shared) (n : NodeId) : List Status :=
  s.log.filterMap (Event.status? n)

/-- The same calls of `n` as before. -/
def SameCalls (s s' : Shared) (n : NodeId) : Prop :=
  called s' n = called s n ∧ returnedStatuses s' n = returnedStatuses s n

theorem SameCalls.of_log {n : NodeId} (hLog : s'.log = s.log) : SameCalls s s' n := by
  unfold SameCalls called returnedStatuses
  rw [hLog]
  exact ⟨rfl, rfl⟩

/-- An event that is about no call of `n`. -/
theorem SameCalls.of_record {n : NodeId} {e : Event} (hLog : s'.log = s.log ++ [e])
    (hCalls : e.calls n = false) (hStatus : e.status? n = none) : SameCalls s s' n := by
  unfold SameCalls called returnedStatuses
  rw [hLog, List.countP_append, List.filterMap_append]
  simp [hCalls, hStatus]

/-- A calm step calls no node. -/
theorem sameCalls_of_calm {f : Frame} {fs : List Frame} (hCalm : f.calm = true)
    (hStep : exec g s f x = some (s', fs)) (n : NodeId) : SameCalls s s' n := by
  have hChange := exec_log hStep
  generalize hLog : s'.log = log at hChange
  cases hChange with
  | same => exact SameCalls.of_log hLog
  | openItem | processCalled | processReturned | opened =>
      exact absurd hCalm (by simp [Frame.calm])
  | closed => exact SameCalls.of_record hLog rfl rfl
  | reported => exact SameCalls.of_record hLog rfl rfl

/-- The active sources are dropped on a cancellation, or when a source stops. -/
theorem activeSources_of_calm {f : Frame} {fs : List Frame} (hCalm : f.calm = true)
    (hState : s.state ≠ .kCancelling) (hStep : exec g s f x = some (s', fs)) :
    s'.activeSources = s.activeSources := by
  cases f with
  | handleIdle pc =>
      obtain ⟨rfl, rfl⟩ := exec_handleIdle hStep
      fun_cases idleStep g s pc
      all_goals first
        | rfl
        | exact if_neg hState
        | (show (scheduleNode g s _).1.activeSources = _; rw [scheduleNode_eq])
  | start pc => exact absurd hCalm (by simp [Frame.calm])
  | sourceStopped n => exact absurd hCalm (by simp [Frame.calm])
  | _ =>
      refine (exec_kept hStep).activeSources ?_ ?_ ?_
      all_goals intro _ hEq; cases hEq

/-! ## Where the loop stands -/

namespace SchedulePc

/-- The nodes the loop has still to call, once it has begun. -/
def left : SchedulePc → Option (List NodeId)
  | .begin | .assign _ | .openNodes _ | .openFailed | .insertSource _ _ | .testLoop => none
  | .nextSource _ rest | .process _ _ rest | .postProcess _ _ _ rest _ | .eraseSource _ _ rest
  | .nextDownstream _ _ rest | .processDownstream _ _ _ rest | .downstreamError _ rest =>
      some rest
  | .sourceError | .closeNodes _ => some []

/-- The node the loop is calling. -/
def inCall : SchedulePc → Option NodeId
  | .process _ n _ => some n
  | _ => none

/-- The nodes that have not been entered among the active sources yet. -/
def toInsert (g : Graph) : SchedulePc → List NodeId
  | .begin | .assign _ => g.nodes
  | .openNodes rest => rest
  | .insertSource n rest => n :: rest
  | _ => []

/-- The nodes called behind a source are no sources. -/
def behind (g : Graph) : SchedulePc → Prop
  | .processDownstream n _ _ _ => g.isSource n = false
  | _ => True

end SchedulePc

theorem scheduleStep_behind {pc pc' : SchedulePc} {t : Turn SchedulePc}
    (hTurn : scheduleStep g s x pc = some t) (hNext : t.next = some pc') : pc'.behind g := by
  revert hTurn
  fun_cases scheduleStep g s x pc
  all_goals intro hTurn; cases hTurn
  all_goals repeat' split at hNext
  all_goals first
    | (cases hNext; done)
    | (cases hNext; trivial)
    | (cases hNext; simpa [SchedulePc.behind] using ‹¬ g.isSource _ = true›)

/-- As `SchedulePc.left`; a call that has returned has nothing left. -/
def leftOf (o : Option SchedulePc) : Option (List NodeId) := o.elim (some []) SchedulePc.left

def inCallOf (o : Option SchedulePc) : Option NodeId := o.bind SchedulePc.inCall

def toInsertOf (g : Graph) (o : Option SchedulePc) : List NodeId :=
  o.elim [] (SchedulePc.toInsert g)

/-- What a step of `Schedule` does to the calls of the sources. -/
inductive LoopPhase (g : Graph) (s : Shared) (x : Choice) (pc : SchedulePc) :
    Shared → Option SchedulePc → Prop
  | stays (s' : Shared) (next : Option SchedulePc) (hLeft : leftOf next = pc.left)
      (hCall : pc.inCall = none) (hNext : inCallOf next = none)
      (hInsert : ∀ n ∈ pc.toInsert g, g.isSource n = true → n ∈ toInsertOf g next)
      (hActive : pc.left = none → s'.activeSources = s.activeSources)
      (hSame : ∀ n, g.isSource n = true → SameCalls s s' n) : LoopPhase g s x pc s' next
  | inserts (n : NodeId) (rest : List NodeId) (hPc : pc = .insertSource n rest) :
      LoopPhase g s x pc
        { s with
          activeSources :=
            if n ∈ s.activeSources then s.activeSources else s.activeSources ++ [n] }
        (some (.openNodes rest))
  | begins (hPc : pc = .testLoop) : LoopPhase g s x pc s (some (.nextSource 0 s.activeSources))
  | calls (count : Int) (n : NodeId) (rest : List NodeId)
      (hPc : pc = .nextSource count (n :: rest)) :
      LoopPhase g s x pc (s.record (.processCalled n [])) (some (.process count n rest))
  | returns (count : Int) (n : NodeId) (rest : List NodeId) (status : Status)
      (writes : List (String × ShardWrite)) (next : SchedulePc)
      (hPc : pc = .process count n rest) (hChoice : x = .returns status writes)
      (hLeft : next.left = some rest) (hNext : next.inCall = none) :
      LoopPhase g s x pc (s.record (.processReturned n status)) (some next)

/-- **What a step of `Schedule` does**, as long as neither flag is set and no node
fails. -/
theorem scheduleStep_phase {pc : SchedulePc} {t : Turn SchedulePc}
    (hTurn : scheduleStep g s x pc = some t) (hTolerates : pc.tolerates x = true)
    (hFine : pc.failed = false) (hError : s.hasError = false) (hStopping : s.stopping = false)
    (hBehind : pc.behind g) : LoopPhase g s x pc t.state t.next := by
  have hSame : ∀ {s' : Shared}, s'.log = s.log → ∀ n, g.isSource n = true → SameCalls s s' n :=
    fun hLog _ _ => SameCalls.of_log hLog
  revert hTurn
  fun_cases scheduleStep g s x pc
  case case5 n rest status writes s₁ =>
    intro hTurn
    cases hTurn
    have hOk : status.isOk = true := hTolerates
    have hOpened : ∀ m, g.isSource m = true → SameCalls s s₁ m :=
      fun _ _ => SameCalls.of_record rfl rfl rfl
    rw [hOk]
    by_cases hSource : g.isSource n = true
    · simp only [Bool.not_true, Bool.false_eq_true, if_false, hSource, if_true]
      exact .stays _ _ rfl rfl rfl (fun _ hMem _ => hMem) (fun _ => rfl) hOpened
    · simp only [Bool.not_true, Bool.false_eq_true, if_false, hSource]
      refine .stays _ _ rfl rfl rfl ?_ (fun _ => rfl) hOpened
      intro m hMem hIs
      rcases List.mem_cons.mp hMem with rfl | hRest
      · exact absurd hIs hSource
      · exact hRest
  case case8 n rest =>
    intro hTurn
    cases hTurn
    exact .inserts n rest rfl
  case case9 =>
    intro hTurn
    cases hTurn
    rw [hError, hStopping]
    exact .begins rfl
  case case11 count n rest =>
    intro hTurn
    cases hTurn
    rw [hError, hStopping]
    exact .calls count n rest rfl
  case case13 count n rest status writes s₁ r =>
    intro hTurn
    cases hTurn
    have hOk : status.isError = false := by simpa [SchedulePc.tolerates] using hTolerates
    rw [hOk]
    exact .returns count n rest status writes _ rfl rfl rfl rfl
  case case20 n nodes count rest =>
    intro hTurn
    cases hTurn
    rw [hError, hStopping]
    by_cases hSource : g.isSource n = true
    · simp only [Bool.or_self, Bool.false_eq_true, if_false, hSource, if_true]
      exact .stays _ _ rfl rfl rfl (fun _ hMem _ => hMem) (fun _ => rfl) (hSame rfl)
    · simp only [Bool.or_self, Bool.false_eq_true, if_false, hSource]
      refine .stays _ _ rfl rfl rfl (fun _ hMem _ => hMem) (fun _ => rfl) ?_
      intro m hIs
      have hNe : n ≠ m := fun hEq => hSource (hEq ▸ hIs)
      exact SameCalls.of_record rfl (by simp [Event.calls, hNe]) rfl
  case case22 n nodes count rest status writes s₁ =>
    intro hTurn
    cases hTurn
    have hOk : status.isError = false := by simpa [SchedulePc.tolerates] using hTolerates
    rw [hOk]
    refine .stays _ _ rfl rfl rfl (fun _ hMem _ => hMem) (fun _ => rfl) ?_
    intro m hIs
    have hNe : n ≠ m := by
      rintro rfl
      exact absurd hIs (by simpa [SchedulePc.behind] using hBehind)
    exact SameCalls.of_record rfl rfl (by simp [Event.status?, hNe])
  case case17 r count rest stopped =>
    intro hTurn
    cases hTurn
    cases stopped
    · exact .stays _ _ rfl rfl rfl (fun _ hMem _ => hMem) (fun _ => rfl) (hSame rfl)
    · exact .stays _ _ rfl rfl rfl (fun _ hMem _ => hMem) (fun _ => rfl) (hSame rfl)
  case case18 n count rest =>
    intro hTurn
    cases hTurn
    exact .stays _ _ rfl rfl rfl (fun _ hMem _ => hMem) (fun hNone => absurd hNone (by simp [SchedulePc.left])) (hSame rfl)
  case case24 n rest =>
    intro hTurn
    cases hTurn
    exact .stays _ _ rfl rfl rfl (fun _ hMem _ => hMem) (fun _ => rfl)
      fun _ _ => SameCalls.of_record rfl rfl rfl
  all_goals intro hTurn; cases hTurn
  all_goals first
    | (cases hFine; done)
    | exact .stays _ _ rfl rfl rfl (fun _ hMem _ => hMem) (fun _ => rfl) (hSame rfl)

/-! ## Each source is called once -/

/-- Source `n` returns OK `okCalls n` times and then Stop. -/
def returnsOkThenStop (okCalls : NodeId → Nat) : Guard Shared RuntimeFrame Choice Call where
  exec := fun s _ f x =>
    match f, x with
    | .schedule (.process _ n _), .returns status _ =>
        if (returnedStatuses s n).length < okCalls n then status.isOk else status.isStopStatus
    | _, _ => true
  spawn := fun _ _ _ => true

/-- The loop has not come to `n` yet. -/
def Waiting (o : Option SchedulePc) (n : NodeId) : Prop := ∀ rest, leftOf o = some rest → n ∈ rest

/-- The calls of `n`, by where the loop stands. -/
structure Standing (okCalls : NodeId → Nat) (s : Shared) (o : Option SchedulePc) (n : NodeId) :
    Prop where
  waiting : Waiting o n → called s n = 0 ∧ returnedStatuses s n = []
  calling : inCallOf o = some n → called s n = 1 ∧ returnedStatuses s n = []
  past : ¬ Waiting o n → inCallOf o ≠ some n → called s n = 1 ∧
    ∃ status, returnedStatuses s n = [status] ∧ (status.isStopStatus = true ↔ okCalls n = 0)

structure Loop (g : Graph) (okCalls : NodeId → Nat) (s : Shared) (o : Option SchedulePc) :
    Prop where
  distinct : ∀ rest, leftOf o = some rest → rest.Nodup ∧ ∀ n, inCallOf o = some n → n ∉ rest
  active : leftOf o = none → s.activeSources.Nodup ∧
    ∀ n ∈ g.nodes, g.isSource n = true → n ∈ s.activeSources ∨ n ∈ toInsertOf g o
  standing : ∀ n ∈ g.nodes, g.isSource n = true → Standing okCalls s o n
  behind : ∀ pc, o = some pc → pc.behind g

variable {okCalls : NodeId → Nat}

theorem Standing.same {o o' : Option SchedulePc} {n : NodeId}
    (hStanding : Standing okCalls s o n) (hSame : SameCalls s s' n)
    (hWaiting : Waiting o' n ↔ Waiting o n) (hCall : inCallOf o' = some n ↔ inCallOf o = some n) :
    Standing okCalls s' o' n := by
  obtain ⟨hCalls, hStatuses⟩ := hSame
  refine ⟨?_, ?_, ?_⟩
  · intro hWait
    rw [hCalls, hStatuses]
    exact hStanding.waiting (hWaiting.mp hWait)
  · intro hIn
    rw [hCalls, hStatuses]
    exact hStanding.calling (hCall.mp hIn)
  · intro hWait hIn
    rw [hCalls, hStatuses]
    exact hStanding.past (fun h => hWait (hWaiting.mpr h)) (fun h => hIn (hCall.mpr h))

theorem Loop.calm {o : Option SchedulePc} {f : Frame} {fs : List Frame}
    (hLoop : Loop g okCalls s o) (hCalm : f.calm = true) (hState : s.state ≠ .kCancelling)
    (hStep : exec g s f x = some (s', fs)) : Loop g okCalls s' o := by
  have hActive := activeSources_of_calm hCalm hState hStep
  refine ⟨hLoop.distinct, ?_, ?_, hLoop.behind⟩
  · rw [hActive]
    exact hLoop.active
  · intro n hNode hSource
    exact (hLoop.standing n hNode hSource).same (sameCalls_of_calm hCalm hStep n) Iff.rfl Iff.rfl

/-- The loop calls the source whose turn it is. -/
theorem Standing.afterCall {count : Int} {n : NodeId} {rest : List NodeId}
    (hStanding : Standing okCalls s (some (.nextSource count (n :: rest))) n)
    (hFresh : n ∉ rest) :
    Standing okCalls (s.record (.processCalled n [])) (some (.process count n rest)) n := by
  obtain ⟨hCalls, hStatuses⟩ := hStanding.waiting fun rest' hLeft => by
    obtain rfl := Option.some.inj hLeft
    exact List.mem_cons_self
  refine ⟨fun hWait => absurd (hWait rest rfl) hFresh, ?_, fun _ hIn => absurd rfl hIn⟩
  intro _
  refine ⟨?_, ?_⟩
  · show (s.log ++ [Event.processCalled n []]).countP (Event.calls n) = 1
    rw [List.countP_append, show s.log.countP (Event.calls n) = 0 from hCalls]
    simp [Event.calls]
  · show (s.log ++ [Event.processCalled n []]).filterMap (Event.status? n) = []
    rw [List.filterMap_append, show s.log.filterMap (Event.status? n) = [] from hStatuses]
    rfl

/-- The source returns, for the first time: with Stop if it has no OK to return. -/
theorem Standing.afterReturn {count : Int} {n : NodeId} {rest : List NodeId} {status : Status}
    {writes : List (String × ShardWrite)} {o : Option SchedulePc}
    (hStanding : Standing okCalls s (some (.process count n rest)) n)
    (hReturns : (returnsOkThenStop okCalls).exec s [] (.schedule (.process count n rest))
      (.returns status writes) = true)
    (hLeft : leftOf o = some rest) (hNone : inCallOf o = none) (hNot : n ∉ rest) :
    Standing okCalls (s.record (.processReturned n status)) o n := by
  obtain ⟨hCalls, hStatuses⟩ := hStanding.calling rfl
  refine ⟨fun hWait => absurd (hWait rest hLeft) hNot, fun hIn => ?_, fun _ _ => ?_⟩
  · exact absurd (hNone.symm.trans hIn) (Option.some_ne_none n).symm
  · refine ⟨?_, status, ?_, ?_⟩
    · show (s.log ++ [Event.processReturned n status]).countP (Event.calls n) = 1
      rw [List.countP_append, show s.log.countP (Event.calls n) = 1 from hCalls]
      rfl
    · show (s.log ++ [Event.processReturned n status]).filterMap (Event.status? n) = _
      rw [List.filterMap_append, show s.log.filterMap (Event.status? n) = [] from hStatuses]
      simp [Event.status?]
    · simp only [returnsOkThenStop, hStatuses, List.length_nil] at hReturns
      by_cases hZero : okCalls n = 0
      · rw [if_neg (by omega)] at hReturns
        exact ⟨fun _ => hZero, fun _ => hReturns⟩
      · rw [if_pos (by omega)] at hReturns
        have hNotStop := Status.isStopStatus_of_isOk hReturns
        rw [hNotStop]
        exact ⟨fun hStop => absurd hStop Bool.false_ne_true, fun h => absurd h hZero⟩

/-- **A step of the loop**. -/
theorem Loop.step {pc : SchedulePc} {next : Option SchedulePc}
    (hLoop : Loop g okCalls s (some pc)) (hPhase : LoopPhase g s x pc s' next)
    (hReturns : (returnsOkThenStop okCalls).exec s [] (.schedule pc) x = true)
    (hBehind : ∀ pc', next = some pc' → pc'.behind g) : Loop g okCalls s' next := by
  cases hPhase with
  | stays _ _ hLeft hCall hNext hInsert hActive hSame =>
      have hWaiting : ∀ n, Waiting next n ↔ Waiting (some pc) n := by
        intro n
        unfold Waiting
        rw [hLeft]
        rfl
      have hNoCall : ∀ n, inCallOf next = some n ↔ inCallOf (some pc) = some n := by
        intro n
        rw [hNext]
        show none = some n ↔ pc.inCall = some n
        rw [hCall]
      refine ⟨?_, ?_, ?_, hBehind⟩
      · intro rest hRest
        rw [hLeft] at hRest
        refine ⟨(hLoop.distinct rest hRest).1, fun n hIn => ?_⟩
        exact absurd (hNext.symm.trans hIn) (Option.some_ne_none n).symm
      · intro hNone
        rw [hLeft] at hNone
        obtain ⟨hDistinct, hSources⟩ := hLoop.active hNone
        rw [hActive hNone]
        refine ⟨hDistinct, fun n hNode hSource => ?_⟩
        rcases hSources n hNode hSource with hIn | hTo
        · exact Or.inl hIn
        · exact Or.inr (hInsert n hTo hSource)
      · intro n hNode hSource
        exact (hLoop.standing n hNode hSource).same (hSame n hSource) (hWaiting n) (hNoCall n)
  | inserts n rest hPc =>
      subst hPc
      obtain ⟨hDistinct, hSources⟩ := hLoop.active rfl
      refine ⟨fun rest hRest => absurd hRest (Option.some_ne_none rest).symm, ?_, ?_, hBehind⟩
      · intro _
        by_cases hIn : n ∈ s.activeSources
        · rw [if_pos hIn]
          refine ⟨hDistinct, fun m hNode hSource => ?_⟩
          rcases hSources m hNode hSource with hOld | hTo
          · exact Or.inl hOld
          · rcases List.mem_cons.mp hTo with rfl | hRest
            · exact Or.inl hIn
            · exact Or.inr hRest
        · rw [if_neg hIn]
          refine ⟨?_, fun m hNode hSource => ?_⟩
          · rw [← List.concat_eq_append]
            exact List.Nodup.concat hIn hDistinct
          · rcases hSources m hNode hSource with hOld | hTo
            · exact Or.inl (List.mem_append_left _ hOld)
            · rcases List.mem_cons.mp hTo with rfl | hRest
              · exact Or.inl (List.mem_append_right _ (List.mem_singleton_self m))
              · exact Or.inr hRest
      · intro m hNode hSource
        exact (hLoop.standing m hNode hSource).same (SameCalls.of_log rfl) Iff.rfl Iff.rfl
  | begins hPc =>
      subst hPc
      obtain ⟨hDistinct, hSources⟩ := hLoop.active rfl
      refine ⟨?_, fun hNone => absurd hNone (Option.some_ne_none _), ?_, hBehind⟩
      · intro rest hRest
        obtain rfl := Option.some.inj hRest
        exact ⟨hDistinct, fun n hIn => absurd hIn (Option.some_ne_none n).symm⟩
      · intro n hNode hSource
        have hIn : n ∈ s.activeSources :=
          (hSources n hNode hSource).resolve_right List.not_mem_nil
        refine (hLoop.standing n hNode hSource).same (SameCalls.of_log rfl) ?_ Iff.rfl
        constructor
        · exact fun _ rest hRest => absurd hRest (Option.some_ne_none rest).symm
        · intro _ rest hRest
          obtain rfl := Option.some.inj hRest
          exact hIn
  | calls count n rest hPc =>
      subst hPc
      obtain ⟨hDistinct, -⟩ := hLoop.distinct (n :: rest) rfl
      obtain ⟨hFresh, hRest⟩ := List.nodup_cons.mp hDistinct
      refine ⟨?_, fun hNone => absurd hNone (Option.some_ne_none _), ?_, hBehind⟩
      · intro rest' hLeft
        obtain rfl := Option.some.inj hLeft
        refine ⟨hRest, fun m hIn => ?_⟩
        obtain rfl := Option.some.inj hIn
        exact hFresh
      · intro m hNode hSource
        have hOld := hLoop.standing m hNode hSource
        by_cases hEq : n = m
        · subst hEq
          exact hOld.afterCall hFresh
        · have hSame : SameCalls s (s.record (.processCalled n [])) m :=
            SameCalls.of_record rfl (by simp [Event.calls, hEq]) rfl
          refine hOld.same hSame ?_ ?_
          · constructor
            · intro hWait rest' hLeft
              obtain rfl := Option.some.inj hLeft
              exact List.mem_cons_of_mem n (hWait rest rfl)
            · intro hWait rest' hLeft
              obtain rfl := Option.some.inj hLeft
              exact (List.mem_cons.mp (hWait (n :: rest) rfl)).resolve_left (Ne.symm hEq)
          · constructor
            · exact fun hIn => absurd (Option.some.inj hIn) hEq
            · exact fun hIn => absurd hIn (Option.some_ne_none m).symm
  | returns count n rest status writes next hPc hChoice hLeft hNext =>
      subst hPc
      obtain ⟨hDistinct, hFresh⟩ := hLoop.distinct rest rfl
      have hNot : n ∉ rest := hFresh n rfl
      have hLeftOf : leftOf (some next) = some rest := hLeft
      have hNone : inCallOf (some next) = none := hNext
      refine ⟨?_, fun hNoLoop => ?_, ?_, hBehind⟩
      · intro rest' hRest
        obtain rfl := Option.some.inj (hLeftOf.symm.trans hRest)
        exact ⟨hDistinct, fun m hIn => absurd (hNone.symm.trans hIn) (Option.some_ne_none m).symm⟩
      · exact absurd (hLeftOf.symm.trans hNoLoop) (Option.some_ne_none rest)
      · intro m hNode hSource
        have hOld := hLoop.standing m hNode hSource
        by_cases hEq : n = m
        · subst hEq hChoice
          exact hOld.afterReturn hReturns hLeftOf hNone hNot
        · have hSame : SameCalls s (s.record (.processReturned n status)) m :=
            SameCalls.of_record rfl rfl (by simp [Event.status?, hEq])
          refine hOld.same hSame ?_ ?_
          · unfold Waiting
            rw [hLeftOf]
            rfl
          · rw [hNone]
            constructor
            · exact fun hIn => absurd hIn (Option.some_ne_none m).symm
            · exact fun hIn => absurd (Option.some.inj hIn) hEq

theorem loop_of_reaches {outputs : OutId → OutputStreamManager} {defaultQueue : QueueId}
    {errorCallback : Bool} {c : Config Shared RuntimeFrame}
    (hReach : (runtime g).Reaches (soleCall.and (returnsOkThenStop okCalls))
      (launched .schedule (initial outputs defaultQueue errorCallback)) c) :
    ∃ o, scheduleFrames c.frames = o.toList ∧ Loop g okCalls c.shared o := by
  refine Machine.invariant_with (J := Sole)
    (I := fun s fs => ∃ o, scheduleFrames fs = o.toList ∧ Loop g okCalls s o)
    (fun c hReach => sole_of_reaches (Machine.reaches_of_and _ hReach).1) ?_ ?_ ?_ hReach
  · refine ⟨some .begin, rfl, ?_, ?_, ?_, ?_⟩
    · exact fun rest hRest => absurd hRest (Option.some_ne_none rest).symm
    · exact fun _ => ⟨List.nodup_nil, fun n hNode _ => Or.inr hNode⟩
    · intro n _ _
      refine ⟨fun _ => ⟨rfl, rfl⟩, fun hIn => absurd hIn (Option.some_ne_none n).symm, ?_⟩
      intro hWait _
      exact absurd (fun rest hRest => absurd hRest (Option.some_ne_none rest).symm) hWait
    · rintro pc hPc
      obtain rfl := Option.some.inj hPc
      trivial
  · intro s A f B x s' fs hSole ⟨o, hFrames, hLoop⟩ hGuard hStep
    obtain ⟨hTolerates, hReturns⟩ := Bool.and_eq_true_iff.mp hGuard
    rcases runtimeExec_cases hStep with
      ⟨f, fs, rfl, hExec, rfl⟩ | ⟨pc, t, rfl, hTurn, rfl, rfl⟩
    · refine ⟨o, by simpa using hFrames, ?_⟩
      exact hLoop.calm (hSole.calm f (by simp)) hSole.state hExec
    · have hFine : pc.failed = false := hSole.failed pc (by simp)
      rw [scheduleFrames_append, scheduleFrames_cons_schedule] at hFrames
      -- there is one frame of `Schedule`
      obtain ⟨hA, rfl, hB⟩ : scheduleFrames A = [] ∧ o = some pc ∧ scheduleFrames B = [] := by
        cases o with
        | none => simp at hFrames
        | some pc' =>
            rw [Option.toList_some, List.append_eq_singleton_iff] at hFrames
            rcases hFrames with ⟨hA, hEq⟩ | ⟨_, hEq⟩
            · obtain ⟨rfl, hB⟩ := List.cons.inj hEq
              exact ⟨hA, rfl, hB⟩
            · exact absurd hEq (List.cons_ne_nil _ _)
      refine ⟨t.next, by simp [hA, hB], ?_⟩
      have hPhase := scheduleStep_phase hTurn hTolerates hFine hSole.hasError hSole.stopping
        (hLoop.behind pc rfl)
      exact hLoop.step hPhase hReturns fun pc' hNext => scheduleStep_behind hTurn hNext
  · intro s A b s' fs _ ⟨o, hFrames, hLoop⟩ _ hSpawn
    obtain ⟨r, hAsync, hOut⟩ := Option.map_eq_some_iff.mp hSpawn
    cases hOut
    refine ⟨o, by simpa using hFrames, ?_⟩
    rcases spawn_cases hAsync with ⟨q, -, -, hState, -⟩ | ⟨hState, -, -⟩
    · rw [hState]
      exact ⟨hLoop.distinct, hLoop.active, fun n hNode hSource =>
        (hLoop.standing n hNode hSource).same (SameCalls.of_log rfl) Iff.rfl Iff.rfl, hLoop.behind⟩
    · rw [hState]
      exact hLoop

/-- Every source has returned Stop, and has been called once more than it returned OK. -/
def RanToCompletion (g : Graph) (okCalls : NodeId → Nat) (s : Shared) : Prop :=
  ∀ n ∈ g.nodes, g.isSource n = true →
    (∃ status ∈ returnedStatuses s n, status.isStopStatus = true) ∧
      called s n = okCalls n + 1

/-- **When `Schedule` has returned, the sources have run to completion if and only if
none of them had an OK to return**: each has been called once. -/
theorem schedule_completes_iff {outputs : OutId → OutputStreamManager} {defaultQueue : QueueId}
    {errorCallback : Bool} {c : Config Shared RuntimeFrame}
    (hReach : (runtime g).Reaches (soleCall.and (returnsOkThenStop okCalls))
      (launched .schedule (initial outputs defaultQueue errorCallback)) c)
    (hReturned : scheduleFrames c.frames = []) :
    RanToCompletion g okCalls c.shared ↔ ∀ n ∈ g.nodes, g.isSource n = true → okCalls n = 0 := by
  obtain ⟨o, hFrames, hLoop⟩ := loop_of_reaches hReach
  obtain rfl : o = none := by
    cases o with
    | none => rfl
    | some pc => simp [hReturned] at hFrames
  have hOnce : ∀ n ∈ g.nodes, g.isSource n = true → called c.shared n = 1 ∧
      ∃ status, returnedStatuses c.shared n = [status] ∧
        (status.isStopStatus = true ↔ okCalls n = 0) := by
    intro n hNode hSource
    refine (hLoop.standing n hNode hSource).past ?_ (Option.some_ne_none n).symm
    exact fun hWait => List.not_mem_nil (hWait [] rfl)
  constructor
  · intro hRan n hNode hSource
    obtain ⟨hCalls, -⟩ := hOnce n hNode hSource
    have hAll := (hRan n hNode hSource).2
    omega
  · intro hZero n hNode hSource
    obtain ⟨hCalls, status, hStatuses, hStop⟩ := hOnce n hNode hSource
    have hNone := hZero n hNode hSource
    refine ⟨⟨status, by simp [hStatuses], hStop.mpr hNone⟩, ?_⟩
    omega

/-- A graph of one source. -/
def Graph.loneSource : Graph where
  nodes := [0]
  name := fun _ => "source"
  inputPorts := fun _ => []
  outputs := fun _ => []
  maxInFlight := fun _ => 1
  sourceLayer := fun _ => 0
  address := fun _ => 0
  queue := fun _ => 0
  queues := [0]
  hasExecutor := fun _ => true
  owner := id
  routes := fun _ => []
  graphInputs := []
  totalGraphInputStreams := 0
  nodes_nodup := nodup_zero
  queues_nodup := nodup_zero
  queue_mem := zero_mem_queues
  owner_port := by simp

/-- A source that stops at once has run to completion. -/
theorem schedule_completes_stop :
    ∃ c : Config Shared RuntimeFrame,
      (runtime .loneSource).Reaches (soleCall.and (returnsOkThenStop fun _ => 0))
        (launched .schedule (initial (fun _ => { spec := { name := "out" } }) 0 false)) c ∧
      RanToCompletion .loneSource (fun _ => 0) c.shared := by
  obtain ⟨c, hReach, hTest⟩ := (runtime .loneSource).exists_reaches
    (soleCall.and (returnsOkThenStop fun _ => 0))
    (launched .schedule (initial (fun _ => { spec := { name := "out" } }) 0 false))
    (runs 0 8 .ok ++ runs 0 1 (.returns Status.statusStop []) ++ runs 0 5 .ok)
    (fun c => (scheduleFrames c.frames).isEmpty) (by decide +kernel)
  refine ⟨c, hReach, ?_⟩
  exact (schedule_completes_iff hReach (List.isEmpty_iff.mp hTest)).mpr fun _ _ _ => rfl

/-- A source that has one OK to return before it stops: `Schedule` returns after the OK. -/
theorem schedule_incomplete :
    ∃ c : Config Shared RuntimeFrame,
      (runtime .loneSource).Reaches (soleCall.and (returnsOkThenStop fun _ => 1))
        (launched .schedule (initial (fun _ => { spec := { name := "out" } }) 0 false)) c ∧
      scheduleFrames c.frames = [] ∧ ¬ RanToCompletion .loneSource (fun _ => 1) c.shared := by
  obtain ⟨c, hReach, hTest⟩ := (runtime .loneSource).exists_reaches
    (soleCall.and (returnsOkThenStop fun _ => 1))
    (launched .schedule (initial (fun _ => { spec := { name := "out" } }) 0 false))
    (runs 0 16 .ok)
    (fun c => (scheduleFrames c.frames).isEmpty && decide (called c.shared 0 = 1))
    (by decide +kernel)
  obtain ⟨hReturned, hOnce⟩ := Bool.and_eq_true_iff.mp hTest
  refine ⟨c, hReach, List.isEmpty_iff.mp hReturned, ?_⟩
  intro hRan
  have hTwice : called c.shared 0 = 2 := (hRan 0 (by decide) rfl).2
  have hCalls : called c.shared 0 = 1 := of_decide_eq_true hOnce
  omega

end GraphRuntime.Scheduler
