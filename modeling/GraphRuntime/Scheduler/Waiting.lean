import GraphRuntime.Scheduler.Cancel

/-!
# `WaitUntilDone`

The waiter tests `state_` under `mutex_` and then releases the mutex and blocks
in one step, but no path that writes `kTerminated` holds the mutex: the write
and the `notify_all` after it can both come between the test and the block, and
the waiter then sleeps for ever (`slept_through`).  `wakesAll` says that the
last `notify_all` finds no waiter there; then every waiter has been notified
when the notifications of a terminated scheduler are over
(`no_sleep_through_termination`).  The results are about runs of `Start` and of
`Schedule`.
-/

namespace GraphRuntime.Scheduler

open GraphRuntime.Stream Interleaving

variable {g : Graph} {s s' : Shared} {f : Frame} {fs A B : List Frame} {x : Choice}

/-- A waiter that is blocked and has not been notified since. -/
def Frame.asleep (s : Shared) : Frame → Bool
  | .api (.waitUntilDoneBlocked since) => decide (s.notifications ≤ since)
  | _ => false

/-- A waiter between its test of `state_` and its block. -/
def Frame.blocks : Frame → Bool
  | .api .waitUntilDoneBlock => true
  | _ => false

def Frame.notifies : Frame → Bool
  | .notifyAll => true
  | _ => false

/-- When the last `notify_all` of a terminated scheduler runs, no waiter stands
between its test and its block; `Start` and `Schedule` do not fail, which
notifies nobody, while somebody waits. -/
def wakes (s : Shared) (others : List Frame) : RuntimeFrame → Bool
  | .async .notifyAll =>
      decide (s.state ≠ .kTerminated) || others.any Frame.notifies ||
        others.all fun f => !f.blocks
  | .async (.start .openFailed) | .schedule .openFailed =>
      others.any Frame.notifies || others.all fun f => !f.blocks && !f.asleep s
  | _ => true

def wakesAll : Guard Shared RuntimeFrame Choice Call where
  exec := fun s others f _ => wakes s (asyncFrames others) f
  spawn := fun _ _ _ => true

/-- Nobody sleeps through a termination. -/
structure Roused (s : Shared) (fs : List Frame) : Prop where
  since : ∀ n, .api (.waitUntilDoneBlocked n) ∈ fs → n ≤ s.notifications
  notified : s.state = .kTerminated → fs.any Frame.notifies = true ∨
    ∀ f ∈ fs, f.blocks = false ∧ f.asleep s = false

theorem exec_notifications (hStep : exec g s f x = some (s', fs)) :
    s.notifications ≤ s'.notifications := by
  by_cases hNotify : f = .notifyAll
  · subst hNotify
    cases hStep
    exact Nat.le_succ _
  · exact (exec_kept hStep).notifications hNotify ▸ le_refl _

/-- Where the frames of a waiter come from. -/
theorem exec_waits (hStep : exec g s f x = some (s', fs)) {pc : ApiPc}
    (hMem : .api pc ∈ fs) :
    (pc = .waitUntilDoneBlock → s.state ≠ .kTerminated) ∧
      ∀ n, pc = .waitUntilDoneBlocked n → f = .api .waitUntilDoneBlock ∧
        n = s.notifications := by
  obtain ⟨pc₀, t, rfl, hTurn, -, hNext⟩ := api_of_exec hStep hMem
  revert hTurn
  fun_cases apiStep g s pc₀
  all_goals intro hTurn; cases hTurn
  all_goals repeat' split at hNext
  all_goals cases hNext
  all_goals constructor
  all_goals simp_all

/-- A waiter that is awake stays awake. -/
theorem asleep_mono (hMore : s.notifications ≤ s'.notifications)
    (hAwake : f.asleep s = false) : f.asleep s' = false := by
  cases f with
  | api pc =>
      cases pc with
      | waitUntilDoneBlocked n =>
          simp only [Frame.asleep, decide_eq_false_iff_not] at hAwake ⊢
          omega
      | _ => rfl
  | _ => rfl

/-- The step that terminates the scheduler. -/
theorem Roused.exec_terminating (hRoused : Roused s (A ++ f :: B))
    (hGuard : wakes s (A ++ B) (.async f) = true)
    (hStep : Scheduler.exec g s f x = some (s', fs)) (hBefore : s.state ≠ .kTerminated)
    (hAfter : s'.state = .kTerminated) :
    (A ++ (fs ++ B)).any Frame.notifies = true ∨
      ∀ f' ∈ A ++ (fs ++ B), f'.blocks = false ∧ f'.asleep s' = false := by
  have hMore := exec_notifications hStep
  rcases exec_terminates hStep hBefore hAfter with rfl | rfl | ⟨l, rfl⟩ | rfl
  · cases hStep
    simp only [wakes, Bool.or_eq_true] at hGuard
    rcases hGuard with hAny | hAll
    · exact Or.inl hAny
    · right
      intro f' hMem
      simp only [List.all_eq_true, Bool.and_eq_true, Bool.not_eq_true'] at hAll
      obtain ⟨hBlocks, hAsleep⟩ := hAll f' hMem
      exact ⟨hBlocks, asleep_mono hMore hAsleep⟩
  · left
    cases hStep
    exact List.any_eq_true.mpr ⟨.notifyAll, by simp [idleStep], rfl⟩
  · left
    cases hStep
    exact List.any_eq_true.mpr ⟨.notifyAll, by simp [idleStep], rfl⟩
  · left
    cases hStep
    exact List.any_eq_true.mpr ⟨.notifyAll, by simp, rfl⟩

theorem Roused.exec (hRoused : Roused s (A ++ f :: B))
    (hGuard : wakes s (A ++ B) (.async f) = true)
    (hStep : Scheduler.exec g s f x = some (s', fs)) : Roused s' (A ++ (fs ++ B)) := by
  have hMore := exec_notifications hStep
  have hSince : ∀ n, .api (.waitUntilDoneBlocked n) ∈ A ++ (fs ++ B) →
      n ≤ s'.notifications := by
    intro n hMem
    rcases mem_after hMem with hNew | hOld
    · rw [((exec_waits hStep hNew).2 n rfl).2]
      exact hMore
    · exact (hRoused.since n hOld).trans hMore
  refine ⟨hSince, fun hAfter => ?_⟩
  by_cases hBefore : s.state = .kTerminated
  · by_cases hPending : (A ++ B).any Frame.notifies = true
    · left
      simp only [List.any_append, Bool.or_eq_true] at hPending ⊢
      tauto
    · have hPending' : (A ++ B).any Frame.notifies = false := by simpa using hPending
      right
      by_cases hNotify : f = .notifyAll
      · -- the last notification: it reaches everybody
        subst hNotify
        simp only [wakes, hBefore, hPending', ne_eq, not_true, decide_false,
          Bool.false_or, List.all_eq_true, Bool.not_eq_true'] at hGuard
        cases hStep
        intro f' hMem
        refine ⟨hGuard f' hMem, ?_⟩
        cases f' with
        | api pc =>
            cases pc with
            | waitUntilDoneBlocked n =>
                have hOld := hRoused.since n (mem_of_others hMem)
                simp only [Frame.asleep, decide_eq_false_iff_not]
                omega
            | _ => rfl
        | _ => rfl
      · have hNone : (A ++ f :: B).any Frame.notifies = false := by
          have hTop : f.notifies = false := by
            cases f <;> first | rfl | exact absurd rfl hNotify
          simp only [List.any_append, Bool.or_eq_false_iff] at hPending'
          simp [hPending'.1, hPending'.2, hTop]
        have hOld := (hRoused.notified hBefore).resolve_left (by simp [hNone])
        intro f' hMem
        rcases mem_after hMem with hNew | hWas
        · cases f' with
          | api pc =>
              obtain ⟨hBlock, hBlocked⟩ := exec_waits hStep hNew
              cases pc with
              | waitUntilDoneBlock => exact absurd hBefore (hBlock rfl)
              | waitUntilDoneBlocked n =>
                  obtain ⟨rfl, -⟩ := hBlocked n rfl
                  have hTop := (hOld (.api .waitUntilDoneBlock) (by simp)).1
                  exact absurd hTop.symm Bool.false_ne_true
              | _ => exact ⟨rfl, rfl⟩
          | _ => exact ⟨rfl, rfl⟩
        · obtain ⟨hBlocks, hAsleep⟩ := hOld f' hWas
          exact ⟨hBlocks, asleep_mono hMore hAsleep⟩
  · exact hRoused.exec_terminating hGuard hStep hBefore hAfter

theorem Roused.spawn {b : Call} (hRoused : Roused s A)
    (hSpawn : Scheduler.spawn g s b = some (s', fs)) : Roused s' (A ++ fs) := by
  have hNew : ∀ f ∈ fs, f.blocks = false ∧ (∀ n, f ≠ .api (.waitUntilDoneBlocked n)) ∧
      f.asleep s' = false := by
    intro f hMem
    rcases spawn_cases hSpawn with ⟨q, -, -, -, rfl⟩ | ⟨-, pc, rfl, hCall⟩
    · rw [List.mem_singleton.mp hMem]
      exact ⟨rfl, by simp, rfl⟩
    · rw [List.mem_singleton.mp hMem]
      cases pc <;> first | exact ⟨rfl, by simp, rfl⟩ | simp at hCall
  obtain ⟨tasks, rfl, -⟩ := spawn_frame hSpawn
  refine ⟨fun n hMem => ?_, fun hState => ?_⟩
  · rcases List.mem_append.mp hMem with hOld | hFrame
    · exact hRoused.since n hOld
    · exact absurd rfl ((hNew _ hFrame).2.1 n)
  · rcases hRoused.notified hState with hAny | hAll
    · exact Or.inl (by simp [hAny])
    · right
      intro f hMem
      rcases List.mem_append.mp hMem with hOld | hFrame
      · exact hAll f hOld
      · exact ⟨(hNew f hFrame).1, (hNew f hFrame).2.2⟩

/-- A step of `Schedule`: its end notifies, its failure finds nobody waiting. -/
theorem Roused.schedule {pc : SchedulePc} {t : Turn SchedulePc} (hRoused : Roused s (A ++ B))
    (hGuard : wakes s (A ++ B) (.schedule pc) = true)
    (hTurn : scheduleStep g s x pc = some t) : Roused t.state (A ++ (t.calls ++ B)) := by
  obtain ⟨_, _, _, _, _, _, hState⟩ := scheduleStep_frame hTurn
  have hSame : t.state.notifications = s.notifications := by rw [hState]
  have hCalls : ∀ f ∈ t.calls, f.blocks = false ∧ (∀ n, f ≠ .api (.waitUntilDoneBlocked n)) ∧
      f.asleep t.state = false := by
    intro f hMem
    have hKind := scheduleStep_calls hTurn f hMem
    cases f <;> first | exact ⟨rfl, by simp, rfl⟩ | exact absurd hKind Bool.false_ne_true
  have hOld : ∀ f ∈ A ++ B, f.asleep s = false → f.asleep t.state = false :=
    fun f _ hAsleep => asleep_mono (le_of_eq hSame.symm) hAsleep
  refine ⟨fun n hMem => ?_, fun hAfter => ?_⟩
  · rw [hSame]
    rcases mem_new_or_others hMem with hNew | hOther
    · exact absurd rfl ((hCalls _ hNew).2.1 n)
    · exact hRoused.since n hOther
  · have hSplit : (A ++ B).any Frame.notifies = true ∨
        (∀ f ∈ A ++ B, f.blocks = false ∧ f.asleep s = false) ∨ .notifyAll ∈ t.calls := by
      by_cases hBefore : s.state = .kTerminated
      · exact (hRoused.notified hBefore).imp_right Or.inl
      · rcases scheduleStep_state hTurn with hKeep | rfl | ⟨-, rfl | rfl⟩
        · exact absurd (hKeep.symm.trans hAfter) hBefore
        · cases hTurn
          exact absurd hAfter (by simp)
        · simp only [wakes, Bool.or_eq_true, List.all_eq_true, Bool.and_eq_true,
            Bool.not_eq_true'] at hGuard
          exact hGuard.imp_right Or.inl
        · cases hTurn
          exact Or.inr (Or.inr List.mem_cons_self)
    rcases hSplit with hAny | hAll | hNotify
    · left
      simp only [List.any_append, Bool.or_eq_true] at hAny ⊢
      tauto
    · right
      intro f hMem
      rcases mem_new_or_others hMem with hNew | hOther
      · exact ⟨(hCalls f hNew).1, (hCalls f hNew).2.2⟩
      · exact ⟨(hAll f hOther).1, hOld f hOther (hAll f hOther).2⟩
    · exact Or.inl (List.any_eq_true.mpr ⟨.notifyAll, by simp [hNotify], rfl⟩)

/-- **Nobody sleeps through a termination** as long as the last `notify_all`
falls into nobody's gap between test and block: when the scheduler is
terminated and no `notify_all` is to come, no waiter of `WaitUntilDone` is
blocked or about to block. -/
theorem no_sleep_through_termination {outputs : OutId → OutputStreamManager}
    {defaultQueue : QueueId} {errorCallback : Bool} {e : Entry}
    {c : Config Shared RuntimeFrame}
    (hReach : (runtime g).Reaches wakesAll
      (launched e (initial outputs defaultQueue errorCallback)) c)
    (hState : c.shared.state = .kTerminated) (hNotify : .notifyAll ∉ asyncFrames c.frames) :
    ∀ f ∈ asyncFrames c.frames, f.blocks = false ∧ f.asleep c.shared = false := by
  have hRoused : Roused c.shared (asyncFrames c.frames) := by
    refine runtime_invariant (J := fun _ _ => True) (fun _ _ => trivial) ?_ ?_ ?_ ?_ hReach
    · refine ⟨fun n hMem => ?_, by simp [launched, initial]⟩
      cases e <;> simp [Config.frames, launched, Entry.frame] at hMem
    · intro s A f B x s' fs _ hRoused hGuard hStep
      exact hRoused.exec (by simpa [wakesAll] using hGuard) hStep
    · intro s A pc B x t _ hRoused hGuard hTurn
      exact hRoused.schedule (by simpa [wakesAll] using hGuard) hTurn
    · intro s A b s' fs hRoused hSpawn
      exact hRoused.spawn hSpawn
  refine (hRoused.notified hState).resolve_left fun hAny => ?_
  obtain ⟨f, hMem, hIs⟩ := List.any_eq_true.mp hAny
  cases f with
  | notifyAll => exact hNotify hMem
  | _ => exact absurd hIs Bool.false_ne_true

/-- A waiter of `WaitUntilDone` that is blocked, notified or not. -/
def Frame.waits : Frame → Bool
  | .api (.waitUntilDoneBlocked _) => true
  | _ => false

theorem notifyAll_not_mem {fs : List Frame} (hNone : (!fs.any Frame.notifies) = true) :
    .notifyAll ∉ fs := by
  intro hMem
  simp only [Bool.not_eq_true', List.any_eq_false] at hNone
  exact hNone _ hMem rfl

/-- The rule at work: a waiter that blocks before the end is woken up. -/
theorem no_sleep_through_termination_chain :
    ∃ c : Config Shared RuntimeFrame, c.shared.state = .kTerminated ∧
      (∃ f ∈ asyncFrames c.frames, f.waits = true) ∧ ∀ f ∈ asyncFrames c.frames, f.asleep c.shared = false := by
  obtain ⟨c, hReach, hTest⟩ := (runtime (.chain 1 id (by simp))).exists_reaches
    wakesAll (launched .start (chainInitial 1 false))
    (runs 0 19 .ok ++ calls (.closeInputStream "in") 1 16 .ok ++ calls (.worker 0) 2 30 .ok ++
      calls (.worker 0) 3 31 .ok ++ calls .waitUntilDone 4 2 .ok ++
      calls (.worker 0) 5 26 .ok)
    (fun c => decide (c.shared.state = .kTerminated) && (asyncFrames c.frames).any Frame.waits &&
      !(asyncFrames c.frames).any Frame.notifies) (by decide +kernel)
  simp only [Bool.and_eq_true, decide_eq_true_eq] at hTest
  obtain ⟨⟨hState, hWaits⟩, hNone⟩ := hTest
  refine ⟨c, hState, List.any_eq_true.mp hWaits, fun f hMem => ?_⟩
  exact (no_sleep_through_termination hReach hState (notifyAll_not_mem hNone) f hMem).2

/-- **A waiter can sleep through the end**: it has found the scheduler running,
`HandleIdle` terminates it and notifies, and then the waiter blocks. -/
theorem slept_through :
    ∃ c : Config Shared RuntimeFrame,
      (runtime (.chain 1 id (by simp))).Reaches Guard.all (launched .start (chainInitial 1 false)) c ∧
      c.shared.state = .kTerminated ∧ .notifyAll ∉ asyncFrames c.frames ∧
      ∃ f ∈ asyncFrames c.frames, f.asleep c.shared = true := by
  obtain ⟨c, hReach, hTest⟩ := (runtime (.chain 1 id (by simp))).exists_reaches
    Guard.all (launched .start (chainInitial 1 false))
    (runs 0 19 .ok ++ calls (.closeInputStream "in") 1 16 .ok ++ calls (.worker 0) 2 30 .ok ++
      calls (.worker 0) 3 31 .ok ++ calls .waitUntilDone 4 1 .ok ++
      calls (.worker 0) 5 26 .ok ++ runs 4 1 .ok)
    (fun c => decide (c.shared.state = .kTerminated) && (asyncFrames c.frames).any (Frame.asleep c.shared) &&
      !(asyncFrames c.frames).any Frame.notifies) (by decide +kernel)
  simp only [Bool.and_eq_true, decide_eq_true_eq] at hTest
  obtain ⟨⟨hState, hAsleep⟩, hNone⟩ := hTest
  exact ⟨c, hReach, hState, notifyAll_not_mem hNone, List.any_eq_true.mp hAsleep⟩

end GraphRuntime.Scheduler
