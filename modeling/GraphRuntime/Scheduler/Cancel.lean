import GraphRuntime.Scheduler.Schedule

/-!
# `Cancel`, and what stays when a run has ended

`Cancel` returns at once when `has_error_` is set, which a failing node sets,
too.  On its own, in a state in which no thread is inside `HandleIdle`, it ends
the run exactly if `has_error_` was not set (`cancel_ends_run`).

`kTerminated` is meant to be final.  `Pause` and `Resume` test `state_` and
write it later, and `Cancel` tests `has_error_` only; `endedOnce` keeps these
from passing their tests before a termination and writing after it, and with it
both `state_` and `has_error_` stay as they are (`terminated_absorbing`).

The results are about runs of `Start` and of `Schedule`.
-/

namespace GraphRuntime.Scheduler

open GraphRuntime.Stream Interleaving

variable {g : Graph} {s s' : Shared} {x : Choice}

/-! ## `Cancel` on its own -/

/-- `CleanupAfterRun` of the queues `qs`. -/
def cleanedUp (qs : List QueueId) (s : Shared) : Shared :=
  { s with
    queues := fun q =>
      if q ∈ qs then (s.queues q).cleanupAfterRun else s.queues q }

theorem finishes_cleanup (qs : List QueueId) (s : Shared) :
    (machine g).Finishes x s (qs.map .cleanupAfterRun) (cleanedUp qs s) := by
  induction qs generalizing s with
  | nil =>
      have hSame : cleanedUp [] s = s := by simp [cleanedUp]
      rw [hSame]
      exact .nil s
  | cons q qs ih =>
      have hNext := ih (s.setQueue q (s.queues q).cleanupAfterRun)
      have hSame : cleanedUp qs (s.setQueue q (s.queues q).cleanupAfterRun) =
          cleanedUp (q :: qs) s := by
        simp only [cleanedUp, Shared.setQueue, Shared.mk.injEq, true_and, and_true]
        funext p
        by_cases hEq : p = q
        · subst hEq
          simp [SchedulerQueue.cleanupAfterRun]
        · simp [hEq]
      rw [hSame] at hNext
      exact .cons rfl hNext

/-- `state_` is `kTerminated` and every queue is empty and not running. -/
def Ended (g : Graph) (s : Shared) : Prop :=
  s.state = .kTerminated ∧
    ∀ q ∈ g.queues, (s.queues q).items = [] ∧ (s.queues q).running = false

theorem ended_cleanedUp (hQueues : ∀ q, s'.queues q = (cleanedUp g.queues s).queues q)
    (hState : s'.state = .kTerminated) : Ended g s' := by
  refine ⟨hState, fun q hMem => ?_⟩
  rw [hQueues q]
  simp [cleanedUp, hMem, SchedulerQueue.cleanupAfterRun]

/-- A pass of `HandleIdle` that finds the scheduler cancelled. -/
theorem handleIdle_cancelled (hFree : s.handlingIdle = 0) (hState : s.state = .kCancelling)
    (hError : s.hasError = true) :
    ∃ s', (machine g).Finishes x s [.handleIdle .enter] s' ∧ Ended g s' := by
  have hEnter : exec g s (.handleIdle .enter) x =
      some ({ s with handlingIdle := s.handlingIdle + 1 }, [.handleIdle .readCancelled]) := by
    simp [exec, idleStep, Turn.outcome, hFree]
  have hCancelled : exec g { s with handlingIdle := s.handlingIdle + 1 }
      (.handleIdle .readCancelled) x =
      some ({ s with handlingIdle := s.handlingIdle + 1 },
        g.queues.map .cleanupAfterRun ++ [.handleIdle .cancelTerminate]) := by
    simp [exec, idleStep, Turn.outcome, hState, hError]
  let s₁ := cleanedUp g.queues { s with handlingIdle := s.handlingIdle + 1 }
  have hTerminate : (machine g).Finishes x s₁ [.handleIdle .cancelTerminate]
      { s₁ with
        state := .kTerminated, notifications := s₁.notifications + 1
        handlingIdle := s₁.handlingIdle - 1 } :=
    .cons rfl (.cons rfl (.cons rfl (.nil _)))
  have hPass := (finishes_cleanup g.queues _).append hTerminate
  rw [← List.append_nil (_ ++ _)] at hPass
  exact ⟨_, .cons hEnter (.cons hCancelled hPass),
    ended_cleanedUp (s := { s with handlingIdle := s.handlingIdle + 1 }) (fun _ => rfl) rfl⟩

/-- **`Cancel` ends the run if and only if no error has been recorded yet**:
called without interleaving, in a state in which the scheduler is running or
paused and no thread is inside `HandleIdle`, it terminates the scheduler and
leaves every queue empty and stopped exactly when `has_error_` is not set. -/
theorem cancel_ends_run {outputs : OutId → OutputStreamManager} {defaultQueue : QueueId}
    {errorCallback : Bool} {e : Entry} {c : Config Shared RuntimeFrame}
    (hReach : (runtime g).Reaches Guard.all
      (launched e (initial outputs defaultQueue errorCallback)) c)
    (hState : c.shared.state = .kRunning ∨ c.shared.state = .kPaused)
    (hFree : ∀ f ∈ asyncFrames c.frames, f.entered = false) (x : Choice) :
    (∃ c', (runtime g).Alone x c .cancel c') ∧
      ∀ c', (runtime g).Alone x c .cancel c' →
        (Ended g c'.shared ↔ c.shared.hasError = false) := by
  have hNone : c.shared.handlingIdle = 0 := by
    rw [(exclusive_of_runtime hReach).count]
    have hCount : (asyncFrames c.frames).countP Frame.entered = 0 := by
      rw [List.countP_eq_zero]
      intro f hMem
      simp [hFree f hMem]
    simp [hCount]
  cases hError : c.shared.hasError with
  | true =>
      have hAlone : (runtime g).Alone x c .cancel ⟨c.shared, c.threads ++ [[]]⟩ := by
        have hReturn : runtimeExec g c.shared (.async (.api .cancel)) x =
            some (c.shared, []) := by
          simp [runtimeExec, exec, apiStep, Turn.outcome, hError]
        exact ⟨_, _, _, rfl, .cons hReturn (.nil _), rfl⟩
      refine ⟨⟨_, hAlone⟩, fun c' hCall => ?_⟩
      rw [hCall.unique hAlone]
      have hNot : ¬ Ended g c.shared := by
        rintro ⟨hTerminated, -⟩
        rw [hTerminated] at hState
        simp at hState
      simp [hNot]
  | false =>
      obtain ⟨s', hPass, hEnded⟩ := handleIdle_cancelled (g := g) (x := x)
        (s := { c.shared with hasError := true, state := .kCancelling }) hNone rfl rfl
      have hTest : exec g c.shared (.api .cancel) x =
          some (c.shared, [.api .cancelError]) := by
        simp [exec, apiStep, Turn.outcome, hError]
      have hCall : (machine g).Finishes x c.shared [.api .cancel] s' :=
        .cons hTest (.cons rfl (.cons rfl (.cons rfl (.cons rfl hPass))))
      have hAlone : (runtime g).Alone x c .cancel ⟨s', c.threads ++ [[]]⟩ :=
        ⟨_, _, _, rfl, Finishes.runtime hCall, rfl⟩
      refine ⟨⟨_, hAlone⟩, fun c' hCall' => ?_⟩
      rw [hCall'.unique hAlone]
      simp [hEnded]

/-- Some thread is inside `HandleIdle`. -/
def insideHandleIdle (c : Config Shared RuntimeFrame) : Bool :=
  (asyncFrames c.frames).any Frame.entered

theorem entered_of_insideHandleIdle {c : Config Shared RuntimeFrame}
    (hNone : insideHandleIdle c = false) :
    ∀ f ∈ asyncFrames c.frames, f.entered = false := by
  simpa only [insideHandleIdle, List.any_eq_false, Bool.not_eq_true] using hNone

/-- The rule at work: a chain of one node is cancelled while its node runs. -/
theorem cancel_ends_run_chain :
    ∃ c c' : Config Shared RuntimeFrame, c.shared.state = .kRunning ∧
      c.shared.hasError = false ∧
      (runtime (.chain 1 id (by simp))).Alone .ok c .cancel c' ∧
      Ended (.chain 1 id (by simp)) c'.shared := by
  obtain ⟨c, hReach, hTest⟩ := (runtime (.chain 1 id (by simp))).exists_reaches
    Guard.all (launched .start (chainInitial 1 false))
    (runs 0 19 .ok ++
      calls (.addPacketToInputStream "in" ⟨some 1, Timestamp.ofValue 0⟩) 1 14 .ok ++
      calls (.worker 0) 2 5 .ok)
    (fun c => decide (c.shared.state = .kRunning) && !c.shared.hasError &&
      !insideHandleIdle c) (by decide +kernel)
  simp only [Bool.and_eq_true, decide_eq_true_eq, Bool.not_eq_true'] at hTest
  obtain ⟨⟨hState, hError⟩, hFree⟩ := hTest
  obtain ⟨⟨c', hAlone⟩, hEnds⟩ := cancel_ends_run hReach (Or.inl hState)
    (entered_of_insideHandleIdle hFree) .ok
  exact ⟨c, c', hState, hError, hAlone, (hEnds c' hAlone).mpr hError⟩

/-- **`Cancel` does nothing after a node error**: the node has failed on its
first packet and the queue's error callback has set `has_error_`, the worker has
not returned yet; `Cancel` leaves `state_` at `kRunning`. -/
theorem cancel_ignored :
    ∃ c c' : Config Shared RuntimeFrame,
      (runtime (.chain 1 id (by simp))).Reaches Guard.all (launched .start (chainInitial 1 true)) c ∧
      c.shared.state = .kRunning ∧ (∀ f ∈ asyncFrames c.frames, f.entered = false) ∧
      (runtime (.chain 1 id (by simp))).Alone .ok c .cancel c' ∧
      c'.shared.state = .kRunning := by
  obtain ⟨c, hReach, hTest⟩ := (runtime (.chain 1 id (by simp))).exists_reaches
    Guard.all (launched .start (chainInitial 1 true))
    (runs 0 19 .ok ++
      calls (.addPacketToInputStream "in" ⟨some 1, Timestamp.ofValue 0⟩) 1 14 .ok ++
      calls (.worker 0) 2 5 .ok ++ runs 2 1 (.returns ⟨.internal, "broken"⟩ []) ++
      runs 2 7 .ok)
    (fun c => decide (c.shared.state = .kRunning) && c.shared.hasError &&
      !insideHandleIdle c) (by decide +kernel)
  simp only [Bool.and_eq_true, decide_eq_true_eq, Bool.not_eq_true'] at hTest
  obtain ⟨⟨hState, hError⟩, hFree⟩ := hTest
  have hReturn : runtimeExec (.chain 1 id (by simp)) c.shared (.async (.api .cancel)) .ok =
      some (c.shared, []) := by
    simp [runtimeExec, exec, apiStep, Turn.outcome, hError]
  exact ⟨c, ⟨c.shared, c.threads ++ [[]]⟩, hReach, hState, entered_of_insideHandleIdle hFree,
    ⟨_, _, _, rfl, .cons hReturn (.nil _), rfl⟩, hState⟩

/-! ## Nothing is written after the end -/

namespace RuntimeFrame

variable (f : RuntimeFrame)

/-- A call of `Start`, `Schedule`, `Pause`, `Resume` or `Cancel` that has passed
its test and has `state_` or `has_error_` still to write. -/
def writesState : Bool :=
  match f with
  | .async (.start .begin) | .async (.api .pauseWrite) | .async (.api .resumeWrite)
  | .async (.api .cancelError) | .async (.api .cancelState) | .schedule .begin => true
  | _ => false

/-- The steps that terminate the scheduler. -/
def terminates : Bool :=
  match f with
  | .async (.start .openFailed) | .async (.handleIdle .cancelTerminate)
  | .async (.handleIdle (.closeNodes _ [])) | .async (.api .shutdownState)
  | .schedule .openFailed | .schedule (.closeNodes []) => true
  | _ => false

/-- The steps that set `has_error_`, and the test before `Cancel` does. -/
def reports : Bool :=
  match f with
  | .async (.api .cancel) | .async (.queueError _) | .schedule .sourceError
  | .schedule (.downstreamError _ _) => true
  | _ => false

end RuntimeFrame

/-- The steps of the asynchronous path that terminate the scheduler. -/
theorem exec_terminates {f : Frame} {fs : List Frame}
    (hStep : exec g s f x = some (s', fs))
    (hBefore : s.state ≠ .kTerminated) (hAfter : s'.state = .kTerminated) :
    f = .start .openFailed ∨ f = .handleIdle .cancelTerminate ∨
      (∃ l, f = .handleIdle (.closeNodes l [])) ∨ f = .api .shutdownState := by
  have hChange := exec_state hStep
  rw [hAfter] at hChange
  generalize hState : SchedulerState.kTerminated = state at hChange
  cases hChange with
  | same => exact absurd hState.symm hBefore
  | openFailed | cancelled | shutdown => simp
  | quit l => exact Or.inr (Or.inr (Or.inl ⟨l, rfl⟩))
  | started | paused | resumed | cancelling => exact absurd hState (by simp)

theorem startStep_begin {pc : StartPc} {t : Turn StartPc}
    (hTurn : startStep g s x pc = some t) : t.next ≠ some .begin := by
  revert hTurn
  fun_cases startStep g s x pc
  all_goals intro hTurn; cases hTurn
  all_goals repeat' split
  all_goals simp [scheduleThen]

/-- No termination falls between a test and a write of `Pause`, `Resume` or
`Cancel` (or comes before `Start` or `Schedule`), and after the end `Cancel` is
called and an error reported only when an error had been recorded. -/
def endedOnce : Guard Shared RuntimeFrame Choice Call where
  exec := fun s others f _ =>
    (!f.terminates || others.all fun f' => !f'.writesState) &&
      (!f.reports || decide (s.state ≠ .kTerminated) || s.hasError)
  spawn := fun _ _ _ => true

/-- After the end nobody has a write to do. -/
def Final (s : Shared) (fs : List RuntimeFrame) : Prop :=
  s.state = .kTerminated → ∀ f ∈ fs, f.writesState = false

section

variable {f f' : RuntimeFrame} {fs A B : List RuntimeFrame}

theorem apiStep_writesState {pc pc' : ApiPc} {t : Turn ApiPc}
    (hTurn : apiStep g s pc = some t) (hNext : t.next = some pc')
    (hWrites : (RuntimeFrame.async (.api pc')).writesState = true) :
    (pc = .pause ∧ s.state = .kRunning) ∨ (pc = .resume ∧ s.state = .kPaused) ∨
      (pc = .cancel ∧ s.hasError = false) ∨ pc = .cancelError := by
  revert hTurn
  fun_cases apiStep g s pc
  all_goals intro hTurn; cases hTurn
  all_goals repeat' split at hNext
  all_goals cases hNext
  all_goals first
    | exact absurd hWrites Bool.false_ne_true
    | simp_all

/-- The writes of a call are left by its test. -/
theorem runtimeExec_writesState (hStep : runtimeExec g s f x = some (s', fs))
    (hMem : f' ∈ fs) (hWrites : f'.writesState = true) :
    ∃ pc, f = .async (.api pc) ∧ ((pc = .pause ∧ s.state = .kRunning) ∨
      (pc = .resume ∧ s.state = .kPaused) ∨ (pc = .cancel ∧ s.hasError = false) ∨
        pc = .cancelError) := by
  rcases runtimeExec_cases hStep with ⟨f₀, fs₀, rfl, hExec, rfl⟩ | ⟨pc, t, rfl, hTurn, rfl, rfl⟩
  · obtain ⟨f₁, hIn, rfl⟩ := List.mem_map.mp hMem
    cases f₁ with
    | api pc =>
        obtain ⟨pc₀, t, rfl, hTurn, -, hNext⟩ := api_of_exec hExec hIn
        exact ⟨pc₀, rfl, apiStep_writesState hTurn hNext hWrites⟩
    | start pc =>
        cases pc with
        | begin =>
            obtain ⟨pc₀, t, rfl, hTurn, -, hNext⟩ := start_of_exec hExec hIn
            exact absurd hNext (startStep_begin hTurn)
        | _ => exact absurd hWrites Bool.false_ne_true
    | _ => exact absurd hWrites Bool.false_ne_true
  · rcases List.mem_append.mp hMem with hCall | hSelf
    · obtain ⟨f₁, hIn, rfl⟩ := List.mem_map.mp hCall
      have hKind := scheduleStep_calls hTurn f₁ hIn
      cases f₁ <;> first
        | exact absurd hWrites Bool.false_ne_true
        | exact absurd hKind Bool.false_ne_true
    · rw [Option.mem_toList] at hSelf
      obtain ⟨pc', hNext, hEq⟩ := Option.map_eq_some_iff.mp hSelf
      cases hEq
      cases pc' with
      | begin => exact absurd hNext (scheduleStep_begin hTurn)
      | _ => exact absurd hWrites Bool.false_ne_true

/-- `state_` after a step, and `has_error_`. -/
theorem runtimeExec_fields (hStep : runtimeExec g s f x = some (s', fs)) :
    (s'.state = s.state ∨ f.writesState = true ∨
      (s'.state = .kTerminated ∧ f.terminates = true)) ∧
    (s'.hasError = s.hasError ∨ (s'.hasError = true ∧
      (f.reports = true ∨ f = .async (.api .cancelError)))) := by
  rcases runtimeExec_cases hStep with ⟨f₀, fs₀, rfl, hExec, rfl⟩ | ⟨pc, t, rfl, hTurn, rfl, rfl⟩
  · constructor
    · have hChange := exec_state hExec
      generalize s'.state = state at hChange ⊢
      cases hChange with
      | same => exact Or.inl rfl
      | started | paused | resumed | cancelling => exact Or.inr (Or.inl rfl)
      | openFailed | cancelled | quit | shutdown => exact Or.inr (Or.inr ⟨rfl, rfl⟩)
    · rcases exec_hasError hExec with hSame | ⟨hSet, ⟨status, rfl⟩ | rfl⟩
      · exact Or.inl hSame
      · exact Or.inr ⟨hSet, Or.inl rfl⟩
      · exact Or.inr ⟨hSet, Or.inr rfl⟩
  · constructor
    · rcases scheduleStep_state hTurn with hSame | rfl | ⟨hState, rfl | rfl⟩
      · exact Or.inl hSame
      · exact Or.inr (Or.inl rfl)
      · exact Or.inr (Or.inr ⟨hState, rfl⟩)
      · exact Or.inr (Or.inr ⟨hState, rfl⟩)
    · rcases scheduleStep_hasError hTurn with hSame | ⟨hSet, rfl | ⟨count, rest, rfl⟩⟩
      · exact Or.inl hSame
      · exact Or.inr ⟨hSet, Or.inl rfl⟩
      · exact Or.inr ⟨hSet, Or.inl rfl⟩

/-- Only these steps terminate the scheduler. -/
theorem runtimeExec_terminates (hStep : runtimeExec g s f x = some (s', fs))
    (hBefore : s.state ≠ .kTerminated) (hAfter : s'.state = .kTerminated) :
    f.terminates = true := by
  rcases (runtimeExec_fields hStep).1 with hSame | hWrites | ⟨-, hTop⟩
  · exact absurd (hSame.symm.trans hAfter) hBefore
  · rcases runtimeExec_cases hStep with ⟨f₀, fs₀, rfl, hExec, -⟩ | ⟨pc, t, rfl, hTurn, rfl, -⟩
    · rcases exec_terminates hExec hBefore hAfter with rfl | rfl | ⟨l, rfl⟩ | rfl <;> rfl
    · rcases scheduleStep_state hTurn with hSame | rfl | ⟨-, rfl | rfl⟩
      · exact absurd (hSame.symm.trans hAfter) hBefore
      · cases hTurn
        exact absurd hAfter (by simp)
      · rfl
      · rfl
  · exact hTop

theorem Final.exec (hFinal : Final s (A ++ f :: B))
    (hGuard : endedOnce.exec s (A ++ B) f x = true)
    (hStep : runtimeExec g s f x = some (s', fs)) : Final s' (A ++ (fs ++ B)) := by
  intro hAfter
  obtain ⟨hEnds, hReports⟩ := Bool.and_eq_true_iff.mp hGuard
  have hBoth : (∀ f' ∈ A ++ B, f'.writesState = false) ∧
      ∀ f' ∈ fs, f'.writesState = false := by
    by_cases hBefore : s.state = .kTerminated
    · have hOld := hFinal hBefore
      refine ⟨fun f' hMem => hOld f' ?_, fun f' hMem => ?_⟩
      · simp only [List.mem_append, List.mem_cons] at hMem ⊢
        tauto
      · by_contra hWrites
        obtain ⟨pc, rfl, hTest⟩ := runtimeExec_writesState hStep hMem (by simpa using hWrites)
        rcases hTest with ⟨-, hState⟩ | ⟨-, hState⟩ | ⟨rfl, hError⟩ | rfl
        · exact absurd hState (by simp [hBefore])
        · exact absurd hState (by simp [hBefore])
        · simp [RuntimeFrame.reports, hBefore, hError] at hReports
        · exact absurd (hOld (.async (.api .cancelError)) (by simp)).symm Bool.false_ne_true
    · -- the step that terminates
      have hTop := runtimeExec_terminates hStep hBefore hAfter
      rw [hTop] at hEnds
      simp only [Bool.not_true, Bool.false_or, List.all_eq_true, Bool.not_eq_true'] at hEnds
      refine ⟨hEnds, fun f' hMem => ?_⟩
      by_contra hWrites
      obtain ⟨pc, rfl, hTest⟩ := runtimeExec_writesState hStep hMem (by simpa using hWrites)
      rcases hTest with ⟨rfl, -⟩ | ⟨rfl, -⟩ | ⟨rfl, -⟩ | rfl <;>
        exact absurd hTop Bool.false_ne_true
  intro f' hMem
  rcases mem_new_or_others hMem with hNew | hOther
  · exact hBoth.2 f' hNew
  · exact hBoth.1 f' hOther

theorem Final.spawn {b : Call} (hFinal : Final s A)
    (hSpawn : runtimeSpawn g s b = some (s', fs)) : Final s' (A ++ fs) := by
  obtain ⟨r, hCall, hOut⟩ := Option.map_eq_some_iff.mp hSpawn
  cases hOut
  intro hState f hMem
  rcases List.mem_append.mp hMem with hOld | hNew
  · refine hFinal ?_ f hOld
    obtain ⟨tasks, hSame, -⟩ := spawn_frame hCall
    rw [hSame] at hState
    exact hState
  · obtain ⟨f₀, hIn, rfl⟩ := List.mem_map.mp hNew
    rcases spawn_cases hCall with ⟨q, -, -, -, hFrames⟩ | ⟨-, pc, hFrames, hKind⟩
    · rw [hFrames] at hIn
      rw [List.mem_singleton.mp hIn]
      rfl
    · rw [hFrames] at hIn
      rw [List.mem_singleton.mp hIn]
      cases pc <;> first | rfl | simp at hKind

end

theorem final_of_reaches {outputs : OutId → OutputStreamManager} {defaultQueue : QueueId}
    {errorCallback : Bool} {e : Entry} {c : Config Shared RuntimeFrame}
    (hReach : (runtime g).Reaches endedOnce
      (launched e (initial outputs defaultQueue errorCallback)) c) :
    Final c.shared c.frames := by
  refine Machine.invariant ?_ ?_ ?_ hReach
  · intro hState
    exact absurd hState (by simp [launched, initial])
  · intro s A f B x s' fs hFinal hGuard hStep
    exact hFinal.exec hGuard hStep
  · intro s A b s' fs hFinal _ hSpawn
    exact hFinal.spawn hSpawn

/-- One step after the end. -/
theorem runtimeExec_final {f : RuntimeFrame} {fs A B : List RuntimeFrame}
    (hFinal : Final s (A ++ f :: B)) (hState : s.state = .kTerminated)
    (hGuard : endedOnce.exec s (A ++ B) f x = true)
    (hStep : runtimeExec g s f x = some (s', fs)) :
    s'.state = .kTerminated ∧ s'.hasError = s.hasError := by
  have hTop : f.writesState = false := hFinal hState f (by simp)
  obtain ⟨hStateChange, hErrorChange⟩ := runtimeExec_fields hStep
  constructor
  · rcases hStateChange with hSame | hWrites | ⟨hAfter, -⟩
    · exact hSame.trans hState
    · exact absurd hWrites (by simp [hTop])
    · exact hAfter
  · rcases hErrorChange with hSame | ⟨hSet, hReports | rfl⟩
    · exact hSame
    · have hError : s.hasError = true := by
        have hAllowed := (Bool.and_eq_true_iff.mp hGuard).2
        simpa [hReports, hState] using hAllowed
      rw [hSet, hError]
    · exact absurd hTop (by simp [RuntimeFrame.writesState])

/-- **`kTerminated` is absorbing**, and `HasError()` stays what it was, at every
step of whatever happens later. -/
theorem terminated_absorbing {outputs : OutId → OutputStreamManager}
    {defaultQueue : QueueId} {errorCallback : Bool} {e : Entry}
    {c c' : Config Shared RuntimeFrame}
    (hReach : (runtime g).Reaches endedOnce
      (launched e (initial outputs defaultQueue errorCallback)) c)
    (hState : c.shared.state = .kTerminated)
    (hLater : (runtime g).Reaches endedOnce c c') :
    c'.shared.state = .kTerminated ∧ c'.shared.hasError = c.shared.hasError := by
  refine Machine.invariant_with (J := Final) (fun c' hLater =>
    final_of_reaches (hReach.trans hLater))
    (I := fun s _ => s.state = .kTerminated ∧ s.hasError = c.shared.hasError) ?_ ?_ ?_ hLater
  · exact ⟨hState, rfl⟩
  · rintro s A f B x s' fs hFinal ⟨hTerminated, hSame⟩ hGuard hStep
    obtain ⟨hState', hError⟩ := runtimeExec_final hFinal hTerminated hGuard hStep
    exact ⟨hState', hError.trans hSame⟩
  · rintro s A b s' fs - hEnded - hSpawn
    obtain ⟨r, hCall, hOut⟩ := Option.map_eq_some_iff.mp hSpawn
    cases hOut
    obtain ⟨tasks, hSame, -⟩ := spawn_frame hCall
    rw [hSame]
    exact hEnded

/-- The run of a chain of one node whose graph input is closed, up to its end. -/
def chainRun : List (Action Choice Call) :=
  runs 0 19 .ok ++ calls (.closeInputStream "in") 1 16 .ok ++ calls (.worker 0) 2 30 .ok ++
    calls (.worker 0) 3 31 .ok ++ calls (.worker 0) 4 26 .ok

/-- The rule at work: `Shutdown` and `Pause` after the end of a run. -/
theorem terminated_absorbing_chain :
    ∃ c c' : Config Shared RuntimeFrame, c.shared.state = .kTerminated ∧
      c.shared.stopping = false ∧ c'.shared.stopping = true ∧
      c'.shared.state = .kTerminated ∧ c'.shared.hasError = c.shared.hasError := by
  obtain ⟨c, c₁, c', hReach, hState, hStep, hLater, hStopping⟩ :=
    (runtime (.chain 1 id (by simp))).exists_reaches_through
      endedOnce (launched .start (chainInitial 1 false)) chainRun (.spawn .shutdown)
      (runs 5 4 .ok ++ calls .pause 6 1 .ok)
      (fun c => decide (c.shared.state = .kTerminated) && !c.shared.stopping)
      (fun _ c => c.shared.stopping) (by decide +kernel)
  simp only [Bool.and_eq_true, decide_eq_true_eq, Bool.not_eq_true'] at hState
  have hAll : (runtime (.chain 1 id (by simp))).Reaches endedOnce c c' :=
    Transition.Reach.trans (.tail .refl rfl hStep) hLater
  exact ⟨c, c', hState.1, hState.2, hStopping, terminated_absorbing hReach hState.1 hAll⟩

/-- **`Cancel` takes a finished graph out of `kTerminated`** and gives it an
error. -/
theorem cancel_after_end :
    ∃ c c' : Config Shared RuntimeFrame,
      (runtime (.chain 1 id (by simp))).Reaches Guard.all
        (launched .start (chainInitial 1 false)) c ∧
      c.shared.state = .kTerminated ∧ c.shared.hasError = false ∧
      (runtime (.chain 1 id (by simp))).Reaches Guard.all c c' ∧
      c'.shared.state = .kCancelling ∧ c'.shared.hasError = true := by
  obtain ⟨c, c₁, c', hReach, hState, hStep, hLater, hAfter⟩ :=
    (runtime (.chain 1 id (by simp))).exists_reaches_through
      Guard.all (launched .start (chainInitial 1 false)) chainRun (.spawn .cancel)
      (runs 5 3 .ok)
      (fun c => decide (c.shared.state = .kTerminated) && !c.shared.hasError)
      (fun _ c => decide (c.shared.state = .kCancelling) && c.shared.hasError)
      (by decide +kernel)
  simp only [Bool.and_eq_true, decide_eq_true_eq, Bool.not_eq_true'] at hState hAfter
  exact ⟨c, c', hReach, hState.1, hState.2,
    Transition.Reach.trans (.tail .refl rfl hStep) hLater, hAfter⟩

end GraphRuntime.Scheduler
