import GraphRuntime.Scheduler.Errors
import GraphRuntime.Scheduler.Pause

/-!
# What the user's error callback is told

Three places call it: the error callback of a queue, with the status of a failed `Process`
under the node's name; `Start`, with the status of a failed `Open`; and `HandleIdle`, with
"Graph execution error" when it ends a run that has an error.

* `failures_reported_once`: over the log and the frames of a run, a failed `Process` of a node
  on the default queue or a failed `Open` is reported or on its way to being reported, once, and
  nothing else is reported beside the execution error.
* `report_has_cause`: without `Cancel`, the callback is never told of an error nobody made.
-/

namespace GraphRuntime.Scheduler

open GraphRuntime.Stream Interleaving

variable {g : Graph} {s s' : Shared} {f : Frame} {fs A B : List Frame} {x : Choice}
  {q : QueueId} {status : Status}

/-- What `HandleIdle` reports. -/
def executionError : Status := ⟨.internal, "Graph execution error"⟩

/-! ## Causes, reports and what is in between -/

/-- `Process` of a node on queue `q` has failed, and `status` is what this is reported as. -/
def Event.fails (g : Graph) (q : QueueId) (status : Status) : Event → Bool
  | .processReturned n st =>
      st.isError && decide (g.queue n = q) && decide (nodeError g n st = status)
  | _ => false

/-- `Open` of a node has failed with `status`. -/
def Event.failsToOpen (status : Status) : Event → Bool
  | .opened _ st => !st.isOk && decide (st = status)
  | _ => false

def Event.reports (status : Status) : Event → Bool
  | .errorCallback st => decide (st = status)
  | _ => false

/-- The frame has a failure to report, or the report to hand on. -/
def Frame.reporting (g : Graph) (q : QueueId) (status : Status) : Frame → Bool
  | .run r (.postProcess _ st) =>
      st.isError && decide (g.queue r.node = q) && decide (nodeError g r.node st = status)
  | .run r (.errorDecrement st) | .run r (.errorReport st) =>
      decide (g.queue r.node = q) && decide (nodeError g r.node st = status)
  | .queueError st | .userError st => decide (st = status)
  | _ => false

/-- The callbacks are installed, on the default queue and on no other one. -/
structure Installed (q : QueueId) (s : Shared) : Prop where
  user : s.errorCallback = true
  queue : ∀ p, (s.queues p).errorCallback = decide (p = q)

theorem Installed.exec (hInstalled : Installed q s) (hStep : exec g s f x = some (s', fs)) :
    Installed q s' :=
  ⟨(exec_kept hStep).errorCallback.trans hInstalled.user,
    fun p => (exec_queueErrorCallback p hStep).trans (hInstalled.queue p)⟩

/-- Causes and reports before and after a step: no cause is forgotten, and none is made up. -/
structure Balanced (g : Graph) (q : QueueId) (status : Status) (log log' : List Event)
    (fs fs' : List Frame) : Prop where
  same : log'.countP (Event.reports status) + fs'.countP (Frame.reporting g q status) +
      log.countP (Event.fails g q status) + log.countP (Event.failsToOpen status) =
    log.countP (Event.reports status) + fs.countP (Frame.reporting g q status) +
      log'.countP (Event.fails g q status) + log'.countP (Event.failsToOpen status)

namespace Balanced

/-- A step that adds no event and leaves as many reporting frames. -/
theorem of_frames {log : List Event}
    (hFrames : fs.countP (Frame.reporting g q status) = [f].countP (Frame.reporting g q status)) :
    Balanced g q status log log [f] fs := by
  constructor
  omega

/-- So is a step that adds one event. -/
theorem of_event {log : List Event} {e : Event}
    (hSame : [e].countP (Event.reports status) + fs.countP (Frame.reporting g q status) =
      [f].countP (Frame.reporting g q status) + [e].countP (Event.fails g q status) +
        [e].countP (Event.failsToOpen status)) :
    Balanced g q status log (log ++ [e]) [f] fs := by
  constructor
  simp only [List.countP_append]
  omega

end Balanced

theorem countP_reporting_eq_zero (hNone : ∀ f ∈ fs, f.reporting g q status = false) :
    fs.countP (Frame.reporting g q status) = 0 := by
  rw [List.countP_eq_zero]
  intro f hMem
  rw [hNone f hMem]
  exact Bool.false_ne_true

/-! ## One step -/

theorem scheduleNode_reporting (n : NodeId) :
    (scheduleNode g s n).2.countP (Frame.reporting g q status) = 0 :=
  countP_reporting_eq_zero fun _ hMem => scheduleNode_frames hMem ▸ rfl

theorem scheduleNode_log (n : NodeId) : (scheduleNode g s n).1.log = s.log := by
  rw [scheduleNode_eq]

/-- A step that is `AddNode`. -/
theorem Balanced.schedule {next : List Frame} (n : NodeId)
    (hFrames : next.countP (Frame.reporting g q status) =
      [f].countP (Frame.reporting g q status)) :
    Balanced g q status s.log (scheduleNode g s n).1.log [f]
      ((scheduleNode g s n).2 ++ next) := by
  rw [scheduleNode_log]
  refine .of_frames ?_
  rw [List.countP_append, scheduleNode_reporting, zero_add, hFrames]

theorem afterProcess_of_isError {n : NodeId} {st : Status} (hError : st.isError = true) :
    afterProcess g n st = .errorDecrement st := by
  simp only [Status.isError, Bool.and_eq_true, Bool.not_eq_true'] at hError
  simp [afterProcess, hError]

/-- An OK or a stop status does not lead onto the error path. -/
theorem afterProcess_cases {n : NodeId} {st : Status} (hError : st.isError = false) :
    afterProcess g n st = .closeOutputs (g.outputs n) true ∨
      afterProcess g n st = .decide false ∨ afterProcess g n st = .scanDone (g.inputs n) := by
  unfold afterProcess
  split
  · exact Or.inl rfl
  · rename_i hStop
    have hOk : st.isOk = true := by
      by_contra hNot
      simp [Status.isError, hNot, hStop] at hError
    rw [hOk, if_neg (by simp)]
    split
    · exact Or.inr (Or.inl rfl)
    · exact Or.inr (Or.inr rfl)

theorem afterProcess_reporting (r : Invocation) (st : Status) :
    (Frame.run r (afterProcess g r.node st)).reporting g q status =
      (st.isError && decide (g.queue r.node = q) &&
        decide (nodeError g r.node st = status)) := by
  by_cases hError : st.isError = true
  · rw [afterProcess_of_isError hError, hError, Bool.true_and]
    rfl
  · rw [Bool.not_eq_true] at hError
    rw [hError]
    rcases afterProcess_cases (g := g) (n := r.node) hError with hPc | hPc | hPc
    all_goals rw [hPc]; rfl

/-- A failed call hands its status to the error callback of its queue. -/
theorem errorCallback_reporting (hInstalled : Installed q s) {r : Invocation}
    (hQueue : r.queue = g.queue r.node) (st : Status) :
    (errorCallback (s.queues r.queue) (nodeError g r.node st)).countP
        (Frame.reporting g q status) =
      [Frame.run r (.errorReport st)].countP (Frame.reporting g q status) := by
  unfold errorCallback
  rw [hInstalled.queue, hQueue]
  by_cases hDefault : g.queue r.node = q
  · simp [hDefault, Frame.reporting]
  · simp [hDefault, Frame.reporting]

theorem runStep_balanced {r : Invocation} {pc : RunPc} {t : Turn (Invocation × RunPc)}
    (hInstalled : Installed q s) (hQueue : r.queue = g.queue r.node) (hNotOpen : pc ≠ .callOpen)
    (hTurn : runStep g s r x pc = some t) :
    Balanced g q status s.log t.state.log [.run r pc]
      (t.calls ++ (t.next.map runFrame).toList) := by
  revert hTurn
  fun_cases runStep g s r x pc
  case case5 st writes => exact absurd rfl hNotOpen
  case case7 =>
    intro hTurn
    cases hTurn
    refine .of_event ?_
    simp [Event.fails, Event.failsToOpen, Frame.reporting, Event.reports]
  case case9 st writes =>
    intro hTurn
    cases hTurn
    refine .of_event ?_
    simp [Event.fails, Event.failsToOpen, Frame.reporting, Event.reports, List.countP_cons]
  case case11 o rest st _ _ _ =>
    intro hTurn
    cases hTurn
    refine .of_frames ?_
    simp only [propagateThen]
    split <;> simp [Frame.reporting, Invocation.clear, List.countP_cons]
  case case12 st =>
    intro hTurn
    cases hTurn
    refine .of_frames ?_
    simp only [Option.map_some, List.nil_append, Option.toList_some, List.countP_cons,
      List.countP_nil, runFrame, afterProcess_reporting]
    rfl
  case case13 o rest stopped =>
    intro hTurn
    cases hTurn
    exact .of_frames rfl
  case case14 stopped =>
    intro hTurn
    cases hTurn
    refine .of_frames ?_
    cases stopped <;> rfl
  case case19 =>
    intro hTurn
    cases hTurn
    refine .of_frames ?_
    simp only [sourceStoppedCallback, idleCallback]
    repeat' split
    all_goals rfl
  case case21 st =>
    intro hTurn
    cases hTurn
    refine .of_frames ?_
    simp only [List.countP_append, errorCallback_reporting hInstalled hQueue]
    rfl
  all_goals intro hTurn; cases hTurn
  all_goals first
    | exact .of_frames rfl
    | exact .schedule _ rfl
    | (refine .schedule _ ?_; unfold afterAct; split <;> rfl)
    | (refine .of_frames ?_; unfold afterAct; split <;> rfl)
    | (refine .of_frames ?_; dsimp only; split <;> rfl)

theorem idleStep_balanced {pc : IdlePc} (hStatus : status ≠ executionError) :
    Balanced g q status s.log (idleStep g s pc).state.log [.handleIdle pc]
      ((idleStep g s pc).calls ++ ((idleStep g s pc).next.map Frame.handleIdle).toList) := by
  fun_cases idleStep g s pc
  case case4 =>
    refine .of_frames ?_
    rw [List.countP_append, countP_reporting_eq_zero (by simp [Frame.reporting])]
    rfl
  case case29 l =>
    refine .of_frames ?_
    have hOther : (Frame.userError executionError).reporting g q status = false := by
      simpa [Frame.reporting] using Ne.symm hStatus
    dsimp only
    split
    · show [Frame.userError executionError, .handleIdle (.closeNodes l g.nodes)].countP
        (Frame.reporting g q status) = 0
      rw [List.countP_cons, hOther]
      rfl
    · rfl
  all_goals first
    | exact .of_frames rfl
    | exact .schedule _ rfl
    | exact .of_event rfl

theorem startStep_balanced {pc : StartPc} {t : Turn StartPc}
    (hTurn : startStep g s x pc = some t) :
    Balanced g q status s.log t.state.log [.start pc]
      (t.calls ++ (t.next.map Frame.start).toList) := by
  revert hTurn
  fun_cases startStep g s x pc
  case case5 n rest st writes _ =>
    intro hTurn
    cases hTurn
    -- the report of a failed `Open` is all that is new
    cases hOk : st.isOk with
    | true =>
        simp only [Bool.not_true, Bool.false_eq_true, if_false]
        refine .of_event ?_
        split <;> simp [Event.fails, Event.failsToOpen, Event.reports, Frame.reporting, hOk]
    | false =>
        simp only [Bool.not_false, if_true]
        refine .of_event ?_
        simp [Event.fails, Event.failsToOpen, Event.reports, Frame.reporting, hOk,
          List.countP_cons]
  all_goals intro hTurn; cases hTurn
  all_goals first
    | exact .of_frames rfl
    | exact .schedule _ rfl

/-- Only these frames leave a report to be made. -/
theorem not_reporting_of_leaves {f' : Frame} (hRun : ∀ r pc, f ≠ .run r pc)
    (hIdle : ∀ pc, f ≠ .handleIdle pc) (hStart : ∀ pc, f ≠ .start pc)
    (hQueue : ∀ st, f ≠ .queueError st) (hLeaves : f.Leaves f') :
    f'.reporting g q status = false := by
  cases f' with
  | run r pc =>
      cases f with
      | run r₀ pc₀ => exact absurd rfl (hRun r₀ pc₀)
      | runNextTask p =>
          cases pc with
          | popInputs rest => rfl
          | _ => exact False.elim hLeaves
      | api pc₀ => cases pc₀ <;> exact False.elim hLeaves
      | _ => exact False.elim hLeaves
  | queueError st =>
      cases f with
      | run r₀ pc₀ => exact absurd rfl (hRun r₀ pc₀)
      | api pc₀ => cases pc₀ <;> exact False.elim hLeaves
      | _ => exact False.elim hLeaves
  | userError st =>
      cases f with
      | handleIdle pc₀ => exact absurd rfl (hIdle pc₀)
      | start pc₀ => exact absurd rfl (hStart pc₀)
      | queueError st₀ => exact absurd rfl (hQueue st₀)
      | run r₀ pc₀ => exact absurd rfl (hRun r₀ pc₀)
      | api pc₀ => cases pc₀ <;> exact False.elim hLeaves
      | _ => exact False.elim hLeaves
  | _ => rfl

/-- **What one step does to the causes and the reports.** -/
theorem exec_balanced (hStatus : status ≠ executionError) (hPlaced : Placed g s (A ++ f :: B))
    (hInstalled : Installed q s) (hStep : exec g s f x = some (s', fs)) :
    Balanced g q status s.log s'.log [f] fs := by
  have hLog := exec_log hStep
  have hLeaves := exec_leaves hStep
  cases f with
  | run r pc =>
      obtain ⟨t, hTurn, rfl, rfl⟩ := exec_run hStep
      have hRun := hPlaced.run r pc mem_running
      refine runStep_balanced hInstalled hRun.1 ?_ hTurn
      rintro rfl
      exact hRun.2.2.2
  | handleIdle pc =>
      obtain ⟨rfl, rfl⟩ := exec_handleIdle hStep
      exact idleStep_balanced hStatus
  | start pc =>
      obtain ⟨t, hTurn, rfl, rfl⟩ := exec_start hStep
      exact startStep_balanced hTurn
  | userError st =>
      simp only [exec, hInstalled.user, if_true] at hStep
      cases hStep
      refine .of_event ?_
      simp [Event.fails, Event.failsToOpen, Event.reports, Frame.reporting, List.countP_cons]
  | queueError st =>
      cases hStep
      exact .of_frames rfl
  | _ =>
      have hNone : fs.countP (Frame.reporting g q status) = 0 :=
        countP_reporting_eq_zero fun f' hMem => not_reporting_of_leaves (by simp) (by simp)
          (by simp) (by simp) (hLeaves f' hMem)
      generalize s'.log = log at hLog ⊢
      cases hLog
      exact .of_frames (hNone.trans rfl)

/-! ## Over a run -/

/-- The sums over the log and the frames of the whole system. -/
structure Reconciled (g : Graph) (q : QueueId) (status : Status) (s : Shared)
    (fs : List Frame) : Prop where
  same : s.log.countP (Event.reports status) + fs.countP (Frame.reporting g q status) =
    s.log.countP (Event.fails g q status) + s.log.countP (Event.failsToOpen status)

theorem Reconciled.exec (hStatus : status ≠ executionError) (hPlaced : Placed g s (A ++ f :: B))
    (hInstalled : Installed q s) (hReconciled : Reconciled g q status s (A ++ f :: B))
    (hStep : exec g s f x = some (s', fs)) : Reconciled g q status s' (A ++ (fs ++ B)) := by
  obtain ⟨hSame⟩ := exec_balanced hStatus hPlaced hInstalled hStep
  obtain ⟨hSame₀⟩ := hReconciled
  constructor
  simp only [List.countP_append, List.countP_cons, List.countP_nil] at *
  omega

theorem Reconciled.spawn {b : Call} (hReconciled : Reconciled g q status s A)
    (hSpawn : Scheduler.spawn g s b = some (s', fs)) : Reconciled g q status s' (A ++ fs) := by
  obtain ⟨tasks, rfl, hNew⟩ := spawn_frame hSpawn
  have hNone : fs.countP (Frame.reporting g q status) = 0 := by
    refine countP_reporting_eq_zero fun f hMem => ?_
    rcases hNew f hMem with ⟨p, rfl⟩ | ⟨pc, rfl⟩ <;> rfl
  constructor
  rw [List.countP_append, hNone, Nat.add_zero]
  exact hReconciled.same

theorem reconciled_of_reaches {outputs : OutId → OutputStreamManager} {defaultQueue : QueueId}
    {G : Guard Shared Frame Choice Call} {c : Config Shared Frame}
    (hReach : (machine g).Reaches G (started (initial outputs defaultQueue true)) c)
    (hStatus : status ≠ executionError) : Reconciled g defaultQueue status c.shared c.frames := by
  refine (Machine.invariant_with
    (I := fun s fs => Installed defaultQueue s ∧ Reconciled g defaultQueue status s fs)
    (J := Placed g) (fun _ => placed_of_reaches) ⟨⟨rfl, ?_⟩, ⟨rfl⟩⟩
    ?_ ?_ hReach).2
  · intro p
    simp [started, initial]
  · rintro s A f B x s' fs hPlaced ⟨hInstalled, hReconciled⟩ - hStep
    exact ⟨hInstalled.exec hStep, hReconciled.exec hStatus hPlaced hInstalled hStep⟩
  · rintro s A b s' fs - ⟨hInstalled, hReconciled⟩ - hSpawn
    have hNext := hReconciled.spawn hSpawn
    obtain ⟨tasks, rfl, -⟩ := spawn_frame hSpawn
    exact ⟨⟨hInstalled.user, hInstalled.queue⟩, hNext⟩

/-- **Failures are reported once, and only failures are.**  In every run with an error callback,
for every status but the execution error: the calls of the callback with it, together with
those on their way, are as many as the calls of `Process` on the default queue and the `Open`s
that failed with it.  So where nothing is on its way, there are as many reports as failures. -/
theorem failures_reported_once {outputs : OutId → OutputStreamManager} {defaultQueue : QueueId}
    {c : Config Shared Frame}
    (hReach : (machine g).Reaches Guard.all (started (initial outputs defaultQueue true)) c)
    (hStatus : status ≠ executionError) :
    Reconciled g defaultQueue status c.shared c.frames ∧
      ((∀ f ∈ c.frames, f.reporting g defaultQueue status = false) →
        c.shared.log.countP (Event.reports status) =
          c.shared.log.countP (Event.fails g defaultQueue status) +
            c.shared.log.countP (Event.failsToOpen status)) := by
  have hReconciled := reconciled_of_reaches hReach hStatus
  refine ⟨hReconciled, fun hQuiet => ?_⟩
  have hNone := countP_reporting_eq_zero hQuiet
  have hSame := hReconciled.same
  omega

/-- One node that fails on its first packet. -/
def failedOnce : List (Action Choice Call) :=
  runs 0 19 .ok ++
    calls (.addPacketToInputStream "in" ⟨some 1, Timestamp.ofValue 0⟩) 1 14 .ok ++
    calls (.worker 0) 2 5 .ok ++ [.run 2 (.returns ⟨.internal, "broken"⟩ [])] ++ runs 2 8 .step

theorem failures_reported_once_chain :
    ∃ c : Config Shared Frame, (machine (.chain 1 id id_lt_one)).Reaches Guard.all
        (started (chainInitial 1 true)) c ∧
      c.shared.log.countP (Event.reports ⟨.internal, "first: broken"⟩) = 1 := by
  obtain ⟨c, hReach, hTest⟩ := (machine (.chain 1 id id_lt_one)).exists_reaches Guard.all
    (started (chainInitial 1 true)) failedOnce
    (fun c => c.frames.all
        (fun f => !f.reporting (.chain 1 id id_lt_one) 0 ⟨.internal, "first: broken"⟩) &&
      decide (c.shared.log.countP
        (Event.fails (.chain 1 id id_lt_one) 0 ⟨.internal, "first: broken"⟩) +
          c.shared.log.countP (Event.failsToOpen ⟨.internal, "first: broken"⟩) = 1))
    (by decide +kernel)
  simp only [Bool.and_eq_true, List.all_eq_true, Bool.not_eq_true', decide_eq_true_eq] at hTest
  obtain ⟨hQuiet, hOne⟩ := hTest
  have hOnce := (failures_reported_once hReach (by decide)).2 hQuiet
  exact ⟨c, hReach, hOnce.trans hOne⟩

/-! ## Nothing is reported without a cause -/

/-- `Cancel` is not called. -/
def withoutCancel : Guard Shared Frame Choice Call where
  exec := fun _ _ _ _ => true
  spawn := fun _ _ b => decide (b ≠ .cancel)

/-- `Process` of a node on queue `q` has failed. -/
def Failed (g : Graph) (q : QueueId) (log : List Event) (n : NodeId) (st : Status) : Prop :=
  .processReturned n st ∈ log ∧ st.isError = true ∧ g.queue n = q

/-- What may be reported: a failure under its node's name, the execution error after one, and
the status of a failed `Open`. -/
def Caused (g : Graph) (q : QueueId) (log : List Event) (status : Status) : Prop :=
  (∃ n st, Failed g q log n st ∧ (status = nodeError g n st ∨ status = executionError)) ∨
    ∃ n, .opened n status ∈ log ∧ status.isOk = false

theorem Failed.mono {log log' : List Event} {n : NodeId} {st : Status}
    (hFailed : Failed g q log n st) (hPrefix : log <+: log') : Failed g q log' n st :=
  ⟨hPrefix.subset hFailed.1, hFailed.2⟩

theorem Caused.mono {log log' : List Event} (hCaused : Caused g q log status)
    (hPrefix : log <+: log') : Caused g q log' status := by
  rcases hCaused with ⟨n, st, hFailed, hStatus⟩ | ⟨n, hOpened, hNotOk⟩
  · exact Or.inl ⟨n, st, hFailed.mono hPrefix, hStatus⟩
  · exact Or.inr ⟨n, hPrefix.subset hOpened, hNotOk⟩

/-- Everything on the way to a report has a cause in the log. -/
structure Blamed (g : Graph) (q : QueueId) (s : Shared) (fs : List Frame) : Prop where
  queue : ∀ p, (s.queues p).errorCallback = true → p = q
  cancel : ∀ pc, .api pc ∈ fs → pc.call ≠ .cancel
  error : s.hasError = true → ∃ n st, Failed g q s.log n st
  run : ∀ r pc st, .run r pc ∈ fs → pc.Failing st → .processReturned r.node st ∈ s.log ∧
    ((∃ rest, pc = .postProcess rest st) ∨ st.isError = true)
  queueError : ∀ status, .queueError status ∈ fs →
    ∃ n st, Failed g q s.log n st ∧ status = nodeError g n st
  userError : ∀ status, .userError status ∈ fs → Caused g q s.log status
  reported : ∀ status, .errorCallback status ∈ s.log → Caused g q s.log status

/-- A failed call stays one, and becomes one by the return of `Process`. -/
theorem runStep_failing_next {r r' : Invocation} {pc pc' : RunPc} {st : Status}
    {t : Turn (Invocation × RunPc)} (hTurn : runStep g s r x pc = some t)
    (hNext : t.next = some (r', pc')) (hFailing : pc'.Failing st) :
    (pc.Failing st ∨ .processReturned r.node st ∈ t.state.log) ∧
      ((∃ rest, pc' = .postProcess rest st) ∨ pc = .errorDecrement st ∨ st.isError = true) := by
  revert hTurn
  fun_cases runStep g s r x pc
  case case9 st₀ writes =>
    intro hTurn
    cases hTurn
    cases hNext
    obtain rfl : st₀ = st := hFailing
    exact ⟨Or.inr (by simp [Shared.record]), Or.inl ⟨_, rfl⟩⟩
  case case10 o rest st₀ _ =>
    intro hTurn
    cases hTurn
    cases hNext
    obtain rfl : st₀ = st := hFailing
    exact ⟨Or.inl rfl, Or.inl ⟨_, rfl⟩⟩
  case case11 o rest st₀ _ _ _ =>
    intro hTurn
    cases hTurn
    cases hNext
    obtain rfl : st₀ = st := hFailing
    exact ⟨Or.inl rfl, Or.inl ⟨_, rfl⟩⟩
  case case12 st₀ =>
    intro hTurn
    cases hTurn
    cases hNext
    by_cases hError : st₀.isError = true
    · rw [afterProcess_of_isError hError] at hFailing
      obtain rfl : st₀ = st := hFailing
      exact ⟨Or.inl rfl, Or.inr (Or.inr hError)⟩
    · rcases afterProcess_cases (g := g) (n := r.node) (Bool.not_eq_true _ ▸ hError) with
        hPc | hPc | hPc
      all_goals
        rw [hPc] at hFailing
        exact hFailing.elim
  case case20 st₀ =>
    intro hTurn
    cases hTurn
    cases hNext
    obtain rfl : st₀ = st := hFailing
    exact ⟨Or.inl rfl, Or.inr (Or.inl rfl)⟩
  all_goals intro hTurn; cases hTurn
  all_goals cases hNext
  all_goals try unfold afterAct at hFailing
  all_goals try split at hFailing
  all_goals exact hFailing.elim

/-- A report handed to a queue's callback is of a failed call that has come to it. -/
theorem queueError_of_exec {st : Status} (hStep : exec g s f x = some (s', fs))
    (hMem : .queueError st ∈ fs) :
    ∃ r st', f = .run r (.errorReport st') ∧ (s.queues r.queue).errorCallback = true ∧
      st = nodeError g r.node st' := by
  have hLeaves := exec_leaves hStep _ hMem
  cases f with
  | run r pc =>
      cases pc with
      | errorReport st' =>
          cases hStep
          rw [List.mem_append] at hMem
          rcases hMem with hCall | hSelf
          · dsimp only [errorCallback] at hCall
            split at hCall
            · rename_i hSet
              exact ⟨r, st', rfl, hSet, by simpa using hCall⟩
            · exact absurd hCall List.not_mem_nil
          · simp at hSelf
      | _ => exact False.elim hLeaves
  | api pc => cases pc <;> exact False.elim hLeaves
  | _ => exact False.elim hLeaves

/-- A call of the user's callback is made for a queue, for `HandleIdle` or for `Start`. -/
theorem userError_of_exec {st : Status} (hStep : exec g s f x = some (s', fs))
    (hMem : .userError st ∈ fs) :
    f = .queueError st ∨ (st = executionError ∧ s.hasError = true) ∨
      ∃ n, .opened n st ∈ s'.log ∧ st.isOk = false := by
  have hLeaves := exec_leaves hStep _ hMem
  cases f with
  | queueError st' =>
      obtain rfl : st' = st := hLeaves
      exact Or.inl rfl
  | handleIdle pc =>
      cases pc with
      | quitReport l =>
          cases hStep
          simp only [idleStep, List.mem_append] at hMem
          rcases hMem with hCall | hSelf
          · split at hCall
            · rename_i hSet
              simp only [List.mem_singleton, Frame.userError.injEq] at hCall
              exact Or.inr (Or.inl ⟨hCall, (Bool.and_eq_true_iff.mp hSet).2⟩)
            · exact absurd hCall List.not_mem_nil
          · simp at hSelf
      | _ => exact False.elim hLeaves
  | start pc =>
      cases pc with
      | openNodes rest =>
          obtain ⟨t, hTurn, rfl, rfl⟩ := exec_start hStep
          revert hTurn
          cases rest with
          | nil =>
              intro hTurn
              cases hTurn
              simp at hMem
          | cons n rest =>
              cases x with
              | step =>
                  intro hTurn
                  cases hTurn
              | returns st' writes =>
                  intro hTurn
                  cases hTurn
                  cases hOk : st'.isOk with
                  | true => simp [hOk] at hMem
                  | false =>
                      obtain rfl : st = st' := by simpa [hOk] using hMem
                      exact Or.inr (Or.inr ⟨n, by simp [Shared.record], hOk⟩)
      | _ => exact False.elim hLeaves
  | run r pc => cases pc <;> exact False.elim hLeaves
  | api pc => cases pc <;> exact False.elim hLeaves
  | _ => exact False.elim hLeaves

theorem Blamed.exec (hPlaced : Placed g s (A ++ f :: B)) (hBlamed : Blamed g q s (A ++ f :: B))
    (hStep : Scheduler.exec g s f x = some (s', fs)) : Blamed g q s' (A ++ (fs ++ B)) := by
  have hPrefix : s.log <+: s'.log := (exec_log hStep).isPrefix
  refine ⟨fun p hSet => ?_, fun pc hMem => ?_, fun hError => ?_, fun r pc st hMem hFailing => ?_,
    fun st hMem => ?_, fun st hMem => ?_, fun st hMem => ?_⟩
  · rw [exec_queueErrorCallback p hStep] at hSet
    exact hBlamed.queue p hSet
  · rcases mem_after hMem with hNew | hOld
    · obtain ⟨pc₀, t, rfl, hTurn, -, hNext⟩ := api_of_exec hStep hNew
      rcases apiStep_call hTurn hNext with hSame | hOther
      · rw [hSame]
        exact hBlamed.cancel pc₀ mem_running
      · simp [hOther]
    · exact hBlamed.cancel pc hOld
  · rcases exec_hasError hStep with hSame | ⟨-, ⟨st, rfl⟩ | rfl⟩
    · obtain ⟨n, st, hFailed⟩ := hBlamed.error (hSame ▸ hError)
      exact ⟨n, st, hFailed.mono hPrefix⟩
    · obtain ⟨n, st', hFailed, -⟩ := hBlamed.queueError st mem_running
      exact ⟨n, st', hFailed.mono hPrefix⟩
    · exact absurd rfl (hBlamed.cancel .cancelError mem_running)
  · rcases mem_after hMem with hNew | hOld
    · rcases run_of_exec hStep hNew with ⟨r₀, pc₀, t, rfl, hTurn, rfl, hNext⟩ |
        ⟨p, it, queue, rfl, -, -, -, rfl⟩
      · obtain ⟨-, hNode, -⟩ := runStep_next hTurn hNext
        obtain ⟨hFrom, hPath⟩ := runStep_failing_next hTurn hNext hFailing
        rw [hNode]
        refine ⟨?_, ?_⟩
        · rcases hFrom with hBefore | hLogged
          · exact hPrefix.subset (hBlamed.run r₀ pc₀ st mem_running hBefore).1
          · exact hLogged
        · rcases hPath with hPost | rfl | hIs
          · exact Or.inl hPost
          · obtain ⟨-, ⟨rest, hEq⟩ | hIs⟩ := hBlamed.run r₀ _ st mem_running rfl
            · cases hEq
            · exact Or.inr hIs
          · exact Or.inr hIs
      · exact hFailing.elim
    · obtain ⟨hLogged, hPath⟩ := hBlamed.run r pc st hOld hFailing
      exact ⟨hPrefix.subset hLogged, hPath⟩
  · rcases mem_after hMem with hNew | hOld
    · obtain ⟨r, st', rfl, hSet, rfl⟩ := queueError_of_exec hStep hNew
      obtain ⟨hLogged, ⟨rest, hEq⟩ | hIs⟩ := hBlamed.run r _ st' mem_running rfl
      · cases hEq
      · have hQueue : g.queue r.node = q :=
          (hPlaced.run r _ mem_running).1.symm.trans (hBlamed.queue _ hSet)
        exact ⟨r.node, st', ⟨hPrefix.subset hLogged, hIs, hQueue⟩, rfl⟩
    · obtain ⟨n, st', hFailed, hStatus⟩ := hBlamed.queueError st hOld
      exact ⟨n, st', hFailed.mono hPrefix, hStatus⟩
  · rcases mem_after hMem with hNew | hOld
    · rcases userError_of_exec hStep hNew with rfl | ⟨rfl, hError⟩ | hOpened
      · obtain ⟨n, st', hFailed, hStatus⟩ := hBlamed.queueError st mem_running
        exact Or.inl ⟨n, st', hFailed.mono hPrefix, Or.inl hStatus⟩
      · obtain ⟨n, st', hFailed⟩ := hBlamed.error hError
        exact Or.inl ⟨n, st', hFailed.mono hPrefix, Or.inr rfl⟩
      · exact Or.inr hOpened
    · exact (hBlamed.userError st hOld).mono hPrefix
  · have hChange := exec_log hStep
    generalize s'.log = log at hChange hMem hPrefix ⊢
    have hOld : .errorCallback st ∈ s.log → Caused g q log st :=
      fun h => (hBlamed.reported st h).mono hPrefix
    cases hChange with
    | same => exact hOld hMem
    | reported st' =>
        rcases List.mem_append.mp hMem with hBefore | hNew
        · exact hOld hBefore
        · simp only [List.mem_singleton, Event.errorCallback.injEq] at hNew
          exact hNew ▸ (hBlamed.userError st' mem_running).mono hPrefix
    | _ =>
        rcases List.mem_append.mp hMem with hBefore | hNew
        · exact hOld hBefore
        · simp at hNew

theorem Blamed.spawn {b : Call} (hBlamed : Blamed g q s A)
    (hGuard : withoutCancel.spawn s A b = true)
    (hSpawn : Scheduler.spawn g s b = some (s', fs)) : Blamed g q s' (A ++ fs) := by
  have hCancel : b ≠ .cancel := by simpa [withoutCancel] using hGuard
  have hBefore : ∀ f, (∀ p, f ≠ .runNextTask p) → (∀ pc, f ≠ .api pc) → f ∈ A ++ fs → f ∈ A :=
    fun f hTask hApi hMem => mem_of_spawn hSpawn hMem hTask hApi
  have hApi : ∀ pc, .api pc ∈ A ++ fs → pc.call ≠ .cancel := by
    intro pc hMem
    rcases List.mem_append.mp hMem with hOld | hNew
    · exact hBlamed.cancel pc hOld
    · rcases spawn_cases hSpawn with ⟨p, rfl, -, -, rfl⟩ | ⟨-, pc', rfl, hCalls⟩
      · simp at hNew
      · simp only [List.mem_singleton, Frame.api.injEq] at hNew
        subst hNew
        rcases hCalls with ⟨_, _, -, rfl⟩ | ⟨_, -, rfl⟩ | ⟨-, rfl⟩ | ⟨-, rfl⟩ | ⟨hEq, -⟩ |
          ⟨-, rfl⟩ | ⟨-, rfl⟩ | ⟨-, rfl⟩
        all_goals first
          | exact absurd hEq hCancel
          | simp [ApiPc.call]
  obtain ⟨tasks, rfl, -⟩ := spawn_frame hSpawn
  refine ⟨hBlamed.queue, hApi, hBlamed.error, fun r pc st hMem => ?_, fun st hMem => ?_,
    fun st hMem => ?_, hBlamed.reported⟩
  · exact hBlamed.run r pc st (hBefore _ (by simp) (by simp) hMem)
  · exact hBlamed.queueError st (hBefore _ (by simp) (by simp) hMem)
  · exact hBlamed.userError st (hBefore _ (by simp) (by simp) hMem)

/-- **No error is made up.**  In every run without `Cancel`: whatever the user's callback is
told has its cause in the log, and `has_error_` is set only after a `Process` on the default
queue has failed. -/
theorem report_has_cause {outputs : OutId → OutputStreamManager} {defaultQueue : QueueId}
    {errorCallback : Bool} {c : Config Shared Frame}
    (hReach : (machine g).Reaches withoutCancel
      (started (initial outputs defaultQueue errorCallback)) c) :
    (∀ status, .errorCallback status ∈ c.shared.log →
        Caused g defaultQueue c.shared.log status) ∧
      (c.shared.hasError = true → ∃ n st, Failed g defaultQueue c.shared.log n st) := by
  have hBlamed : Blamed g defaultQueue c.shared c.frames := by
    refine Machine.invariant_with (J := Placed g) (fun _ => placed_of_reaches) ?_ ?_ ?_ hReach
    · refine ⟨fun p hSet => ?_, ?_, ?_, ?_, ?_, ?_, ?_⟩
      · simp only [started, initial, Bool.and_eq_true, decide_eq_true_eq] at hSet
        exact hSet.2
      all_goals simp [started, initial, Config.frames]
    · exact fun _ _ _ _ _ _ _ hPlaced hBlamed _ hStep => hBlamed.exec hPlaced hStep
    · exact fun _ _ _ _ _ _ hBlamed hGuard hSpawn => hBlamed.spawn hGuard hSpawn
  exact ⟨hBlamed.reported, hBlamed.error⟩

/-- The rule at work: the failure of the only node is reported under its name. -/
theorem report_has_cause_chain :
    ∃ c : Config Shared Frame, (machine (.chain 1 id id_lt_one)).Reaches withoutCancel
        (started (chainInitial 1 true)) c ∧
      .errorCallback ⟨.internal, "first: broken"⟩ ∈ c.shared.log ∧
      Caused (.chain 1 id id_lt_one) 0 c.shared.log ⟨.internal, "first: broken"⟩ ∧
      ∃ n st, Failed (.chain 1 id id_lt_one) 0 c.shared.log n st := by
  obtain ⟨c, hReach, hTest⟩ := (machine (.chain 1 id id_lt_one)).exists_reaches withoutCancel
    (started (chainInitial 1 true)) failedOnce
    (fun c => decide (.errorCallback ⟨.internal, "first: broken"⟩ ∈ c.shared.log) &&
      c.shared.hasError) (by decide +kernel)
  simp only [Bool.and_eq_true, decide_eq_true_eq] at hTest
  obtain ⟨hReported, hError⟩ := hTest
  obtain ⟨hCaused, hFailed⟩ := report_has_cause hReach
  exact ⟨c, hReach, hReported, hCaused _ hReported, hFailed hError⟩

end GraphRuntime.Scheduler
