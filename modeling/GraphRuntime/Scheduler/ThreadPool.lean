import Mathlib.Algebra.GroupWithZero.Nat
import Mathlib.Data.List.Basic
import GraphRuntime.Lib.Interleaving

/-!
# `ThreadPoolExecutor::ThreadPool`

The pool of thread_pool_executor.cc as interleaved threads.  One step is one section
under `mutex_`, one notification, or one call of a task: `tasks_` and `stopped_` are only
touched under the mutex, and `wait` gives the mutex up in the step that finds its
condition false.

A task may call `Schedule` any number of times before it returns, which is the
environment's choice, as are spurious wakeups.  The other threads may call `Schedule`
until the destructor starts, and have returned from it by then (`usage`).

`enqueued`, `started` and `finished` are ghost records.  `pool_drains` is the run lemma:
what has been started is what was enqueued, in that order, less what is still in `tasks_`,
and nothing is left there when the last worker has returned.  `destructor_returns` says that
the destructor gets that far.
-/

namespace GraphRuntime.ThreadPool

open Interleaving

variable {τ : Type}

/-- The members of the pool, `τ` standing for `std::function<void()>`: the workers blocked
in `cv_.wait` and those whose function has returned, and what the destructor has done. -/
structure Pool (τ : Type) where
  tasks : List τ := []
  stopped : Bool := false
  waiting : List Nat := []
  exited : List Nat := []
  destroying : Bool := false
  joined : Bool := false
  enqueued : List τ := []
  started : List τ := []
  finished : List τ := []

/-- A frame of a worker, of a call of `Schedule` (by a task of a worker or by another
thread), or of the destructor. -/
inductive Frame (τ : Type)
  | acquire (worker : Nat)
  | wait (worker : Nat)
  | running (worker : Nat) (task : τ)
  | push (caller : Option Nat) (task : τ)
  | notifyOne (caller : Option Nat)
  | stop
  | notifyAll
  | join (worker : Nat)

/-- The environment's choice at a step: what a running task does, which worker a
notification wakes, whether a worker wakes without one. -/
inductive Choice (τ : Type)
  | step
  | schedule (task : τ)
  | wakes (worker : Nat)
  | spurious

inductive Call (τ : Type)
  | schedule (task : τ)
  | destroy

/-- The locked section of a worker's loop, with the test of `wait`. -/
def execAcquire (s : Pool τ) (worker : Nat) : Option (Pool τ × List (Frame τ)) :=
  if s.stopped || !s.tasks.isEmpty then
    if s.stopped && s.tasks.isEmpty then
      some ({ s with exited := worker :: s.exited }, [])
    else
      match s.tasks with
      | [] => none
      | task :: rest =>
          some ({ s with tasks := rest, started := s.started ++ [task] }, [.running worker task])
  else some ({ s with waiting := worker :: s.waiting }, [.wait worker])

/-- `~ThreadPool` joins the workers in their order. -/
def execJoin (n : Nat) (s : Pool τ) (worker : Nat) : Option (Pool τ × List (Frame τ)) :=
  if worker = n then some ({ s with joined := true }, [])
  else if worker ∈ s.exited then some (s, [.join (worker + 1)])
  else none

def exec (n : Nat) (s : Pool τ) : Frame τ → Choice τ → Option (Pool τ × List (Frame τ))
  | .acquire worker, .step => execAcquire s worker
  | .wait worker, .step => if worker ∈ s.waiting then none else some (s, [.acquire worker])
  | .wait worker, .spurious =>
      some ({ s with waiting := s.waiting.erase worker }, [.acquire worker])
  | .running worker task, .schedule other =>
      some (s, [.push (some worker) other, .running worker task])
  | .running worker task, .step =>
      some ({ s with finished := s.finished ++ [task] }, [.acquire worker])
  | .push caller task, .step =>
      some ({ s with tasks := s.tasks ++ [task], enqueued := s.enqueued ++ [task] },
        [.notifyOne caller])
  | .notifyOne _, .wakes worker =>
      if worker ∈ s.waiting then some ({ s with waiting := s.waiting.erase worker }, [])
      else none
  | .notifyOne _, .step => if s.waiting = [] then some (s, []) else none
  | .stop, .step => some ({ s with stopped := true }, [.notifyAll])
  | .notifyAll, .step => some ({ s with waiting := [] }, [.join 0])
  | .join worker, .step => execJoin n s worker
  | _, _ => none

def spawn (s : Pool τ) : Call τ → Option (Pool τ × List (Frame τ))
  | .schedule task => some (s, [.push none task])
  | .destroy => some ({ s with destroying := true }, [.stop])

/-- The pool with `n` workers. -/
def machine (n : Nat) : Machine (Pool τ) (Frame τ) (Choice τ) (Call τ) := ⟨exec n, spawn⟩

def initial (n : Nat) : Config (Pool τ) (Frame τ) :=
  ⟨{}, (List.range n).map fun worker => [.acquire worker]⟩

/-- A frame of a call of `Schedule` by another thread. -/
def Frame.isOutside : Frame τ → Bool
  | .push none _ => true
  | .notifyOne none => true
  | _ => false

/-- How other threads use the pool: no call of `Schedule` once the destructor has started,
and none under way when it does. -/
def usage : Guard (Pool τ) (Frame τ) (Choice τ) (Call τ) where
  exec := fun _ _ _ _ => true
  spawn := fun s fs call =>
    match call with
    | .schedule _ => !s.destroying
    | .destroy => !s.destroying && fs.all fun f => !f.isOutside

/-! ## What a step does -/

/-- The steps of a frame, each with what it needs. -/
inductive Step (n : Nat) (s : Pool τ) :
    Frame τ → Choice τ → Pool τ → List (Frame τ) → Prop
  | exits (w) : s.stopped = true → s.tasks = [] →
      Step n s (.acquire w) .step { s with exited := w :: s.exited } []
  | starts (w task rest) : s.tasks = task :: rest →
      Step n s (.acquire w) .step { s with tasks := rest, started := s.started ++ [task] }
        [.running w task]
  | waits (w) : s.stopped = false → s.tasks = [] →
      Step n s (.acquire w) .step { s with waiting := w :: s.waiting } [.wait w]
  | woken (w) : w ∉ s.waiting → Step n s (.wait w) .step s [.acquire w]
  | wakes (w) :
      Step n s (.wait w) .spurious { s with waiting := s.waiting.erase w } [.acquire w]
  | schedules (w task other) :
      Step n s (.running w task) (.schedule other) s [.push (some w) other, .running w task]
  | returns (w task) :
      Step n s (.running w task) .step { s with finished := s.finished ++ [task] } [.acquire w]
  | pushes (caller task) :
      Step n s (.push caller task) .step
        { s with tasks := s.tasks ++ [task], enqueued := s.enqueued ++ [task] }
        [.notifyOne caller]
  | notifies (caller w) : w ∈ s.waiting →
      Step n s (.notifyOne caller) (.wakes w) { s with waiting := s.waiting.erase w } []
  | notifiesNone (caller) : s.waiting = [] → Step n s (.notifyOne caller) .step s []
  | stops : Step n s .stop .step { s with stopped := true } [.notifyAll]
  | notifiesAll : Step n s .notifyAll .step { s with waiting := [] } [.join 0]
  | joins (w) : w ≠ n → w ∈ s.exited → Step n s (.join w) .step s [.join (w + 1)]
  | destroyed : Step n s (.join n) .step { s with joined := true } []

variable {n : Nat} {s s' : Pool τ} {f : Frame τ} {x : Choice τ} {fs A B below : List (Frame τ)}

theorem step_of_execAcquire {w : Nat} (hExec : execAcquire s w = some (s', fs)) :
    Step n s (.acquire w) .step s' fs := by
  unfold execAcquire at hExec
  split at hExec
  next hReady =>
    split at hExec
    next hDone =>
      cases hExec
      simp only [Bool.and_eq_true, List.isEmpty_iff] at hDone
      exact .exits w hDone.1 hDone.2
    next =>
      split at hExec
      · simp at hExec
      next task rest hTasks =>
        cases hExec
        exact .starts w task rest hTasks
  next hBlocked =>
    cases hExec
    simp only [Bool.or_eq_true, Bool.not_eq_true', not_or, Bool.not_eq_true,
      Bool.not_eq_false, List.isEmpty_iff] at hBlocked
    exact .waits w hBlocked.1 hBlocked.2

theorem step_of_exec (hExec : exec n s f x = some (s', fs)) : Step n s f x s' fs := by
  unfold exec at hExec
  split at hExec
  case h_1 => exact step_of_execAcquire hExec
  case h_2 w =>
    split at hExec
    · simp at hExec
    next hWoken =>
      cases hExec
      exact .woken w hWoken
  case h_7 caller w =>
    split at hExec
    next hMem =>
      cases hExec
      exact .notifies caller w hMem
    · simp at hExec
  case h_8 caller =>
    split at hExec
    next hNone =>
      cases hExec
      exact .notifiesNone caller hNone
    · simp at hExec
  case h_11 w =>
    unfold execJoin at hExec
    split at hExec
    next hLast =>
      cases hExec
      exact hLast ▸ .destroyed
    next hMore =>
      split at hExec
      next hExited =>
        cases hExec
        exact .joins w hMore hExited
      · simp at hExec
  case h_12 => simp at hExec
  all_goals
    cases hExec
    constructor

/-! ## Stacks -/

/-- The call of `Schedule` a frame belongs to, if a task has made it. -/
def Frame.calledBy : Frame τ → Option Nat
  | .push caller _ => caller
  | .notifyOne caller => caller
  | _ => none

/-- A thread is one frame, or a call of `Schedule` by the task below it. -/
inductive Shape : List (Frame τ) → Prop
  | ended : Shape []
  | single (g : Frame τ) : g.calledBy = none → Shape [g]
  | calling (g : Frame τ) (w : Nat) (task : τ) : g.calledBy = some w →
      Shape [g, .running w task]

theorem Shape.step (hShape : Shape (f :: below)) (hStep : Step n s f x s' fs) :
    Shape (fs ++ below) := by
  cases hShape with
  | single _ hAlone =>
      rw [List.append_nil]
      cases hStep with
      | exits => exact .ended
      | notifies => exact .ended
      | notifiesNone => exact .ended
      | destroyed => exact .ended
      | schedules w task other => exact .calling _ w task rfl
      | pushes => exact .single _ hAlone
      | _ => exact .single _ rfl
  | calling _ w task hCall =>
      cases hStep with
      | pushes => exact .calling _ w task hCall
      | notifies => exact .single _ rfl
      | notifiesNone => exact .single _ rfl
      | _ => simp [Frame.calledBy] at hCall

theorem shapes {c : Config (Pool τ) (Frame τ)}
    (hReach : (machine n).Reaches usage (initial n) c) : ∀ stack ∈ c.threads, Shape stack := by
  refine Machine.stacks_invariant ?_ ?_ ?_ hReach
  · intro stack hMem
    obtain ⟨w, _, rfl⟩ := List.mem_map.mp hMem
    exact .single _ rfl
  · intro s f below x s' fs hShape hExec
    exact hShape.step (step_of_exec hExec)
  · intro s call s' fs hSpawn
    cases call <;> cases hSpawn <;> exact .single _ rfl

/-! ## The invariant -/

/-- The worker a frame belongs to. -/
def Frame.worker : Frame τ → Option Nat
  | .acquire w | .wait w | .running w _ => some w
  | _ => none

/-- The task a frame executes. -/
def Frame.task : Frame τ → Option τ
  | .running _ task => some task
  | _ => none

/-- A frame of the destructor. -/
def Frame.isDestructor : Frame τ → Bool
  | .stop | .notifyAll | .join _ => true
  | _ => false

/-- What holds of a pool whenever the threads are between two steps. -/
structure Sound (n : Nat) (s : Pool τ) (fs : List (Frame τ)) : Prop where
  order : s.started ++ s.tasks = s.enqueued
  executed : (s.finished ++ fs.filterMap Frame.task).Perm s.started
  workers : (fs.filterMap Frame.worker ++ s.exited).Perm (List.range n)
  drained : fs.filterMap Frame.worker = [] → s.tasks = []
  exits : s.exited ≠ [] → s.stopped = true
  stopped : s.stopped = true → s.destroying = true
  outside : s.destroying = true → ∀ g ∈ fs, g.isOutside = false
  destructor : ∀ g ∈ fs, g.isDestructor = true → s.destroying = true
  notifying : .notifyAll ∈ fs → s.stopped = true
  joins : ∀ k, .join k ∈ fs → k ≤ n ∧ s.stopped = true ∧ s.waiting = [] ∧ ∀ w < k, w ∈ s.exited
  joined : s.joined = true → ∀ w < n, w ∈ s.exited
  underway : s.destroying = true → s.joined = true ∨ ∃ g ∈ fs, g.isDestructor = true

theorem sound_initial : Sound n ({} : Pool τ) (initial (τ := τ) n).frames := by
  have hFrames : (initial (τ := τ) n).frames = (List.range n).map Frame.acquire := by
    show ((List.range n).map fun w => [Frame.acquire w]).flatten = _
    rw [← List.flatMap_def, List.map_eq_flatMap]
  have hAll : ∀ f ∈ (List.range n).map (Frame.acquire (τ := τ)), ∃ w, f = .acquire w := by
    intro f hMem
    obtain ⟨w, _, rfl⟩ := List.mem_map.mp hMem
    exact ⟨w, rfl⟩
  have hWorkersOf : ((List.range n).map (Frame.acquire (τ := τ))).filterMap Frame.worker =
      List.range n := by
    rw [List.filterMap_map]
    exact List.filterMap_some
  have hTasks : ((List.range n).map (Frame.acquire (τ := τ))).filterMap Frame.task = [] := by
    refine List.filterMap_eq_nil_iff.mpr ?_
    intro f hMem
    obtain ⟨w, rfl⟩ := hAll f hMem
    rfl
  rw [hFrames]
  exact
    { order := rfl
      executed := by rw [hTasks]; exact List.Perm.refl _
      workers := by rw [hWorkersOf, List.append_nil]
      stopped := by simp
      exits := by simp
      outside := by simp
      drained := fun _ => rfl
      destructor := by simp [Frame.isDestructor]
      notifying := by simp
      joins := by simp
      joined := by simp
      underway := by simp }

/-! Each part of the invariant after a step of `f`, the other frames being `A` and `B`. -/

theorem Sound.order_step (hSound : Sound n s (A ++ f :: B)) (hStep : Step n s f x s' fs) :
    s'.started ++ s'.tasks = s'.enqueued := by
  have hOrder := hSound.order
  cases hStep with
  | starts w task rest hTasks =>
      rw [hTasks] at hOrder
      simpa using hOrder
  | pushes caller task =>
      show s.started ++ (s.tasks ++ [task]) = s.enqueued ++ [task]
      rw [← List.append_assoc, hOrder]
  | _ => exact hOrder

theorem Sound.executed_step (hSound : Sound n s (A ++ f :: B)) (hStep : Step n s f x s' fs) :
    (s'.finished ++ (A ++ (fs ++ B)).filterMap Frame.task).Perm s'.started := by
  have hExecuted := hSound.executed
  simp only [List.filterMap_append, List.filterMap_cons] at hExecuted ⊢
  cases hStep with
  | starts w task rest hTasks =>
      have hFront : (A.filterMap Frame.task ++ ([task] ++ B.filterMap Frame.task)).Perm
          ((A.filterMap Frame.task ++ B.filterMap Frame.task) ++ [task]) :=
        List.perm_middle.trans (List.perm_append_singleton task _).symm
      have hAll := (hFront.append_left s.finished).trans
        (List.append_assoc s.finished _ [task] ▸ hExecuted.append_right [task])
      exact hAll
  | returns w task =>
      have hFront : (A.filterMap Frame.task ++ task :: B.filterMap Frame.task).Perm
          (task :: (A.filterMap Frame.task ++ B.filterMap Frame.task)) := List.perm_middle
      refine List.Perm.trans ?_ hExecuted
      rw [List.append_assoc]
      exact hFront.symm.append_left s.finished
  | _ => exact hExecuted

theorem Sound.workers_step (hSound : Sound n s (A ++ f :: B)) (hStep : Step n s f x s' fs) :
    ((A ++ (fs ++ B)).filterMap Frame.worker ++ s'.exited).Perm (List.range n) := by
  have hWorkers := hSound.workers
  simp only [List.filterMap_append, List.filterMap_cons] at hWorkers ⊢
  cases hStep with
  | exits w hStopped hTasks =>
      have hFront : (B.filterMap Frame.worker ++ w :: s.exited).Perm
          (w :: (B.filterMap Frame.worker ++ s.exited)) := List.perm_middle
      refine List.Perm.trans ?_ hWorkers
      simp only [List.filterMap_nil, List.nil_append, Frame.worker, List.append_assoc,
        List.cons_append]
      exact hFront.append_left _
  | _ => exact hWorkers

/-- With all workers gone nothing is left: the last one found `tasks_` empty, and who calls
`Schedule` afterwards is the task of a worker that is still there. -/
theorem Sound.drained_step (hWorkers : 1 ≤ n) (hSound : Sound n s (A ++ f :: (below ++ B)))
    (hShape : Shape (f :: below)) (hStep : Step n s f x s' fs)
    (hNone : (A ++ (fs ++ (below ++ B))).filterMap Frame.worker = []) : s'.tasks = [] := by
  have hBefore := hSound.drained
  simp only [List.filterMap_append, List.filterMap_cons] at hBefore hNone
  cases hStep with
  | exits w hStopped hTasks => exact hTasks
  | pushes caller task =>
      cases hShape with
      | single _ hAlone =>
          cases hAlone
          have hRunning : s.destroying = false := by
            by_contra hStarted
            have hGone := hSound.outside (Bool.not_eq_false _ ▸ hStarted) (.push none task)
              (by simp)
            exact absurd hGone (by simp [Frame.isOutside])
          have hStopped : s.stopped = false := by
            by_contra hStop
            have hDestroying := hSound.stopped (by simpa using hStop)
            simp [hRunning] at hDestroying
          have hExited : s.exited = [] := by
            by_contra hSome
            simp [hSound.exits hSome] at hStopped
          have hAll := hSound.workers.length_eq
          simp only [List.filterMap_append, List.filterMap_cons, Frame.worker, hExited,
            List.append_nil, List.length_range, List.nil_append] at hAll hNone
          simp only [List.filterMap_nil, List.nil_append] at hNone
          rw [hNone, List.length_nil] at hAll
          omega
      | calling _ w other hCall =>
          simp [Frame.worker] at hNone
  | starts | waits | woken | wakes | schedules | returns =>
      simp [Frame.worker] at hNone
  | _ => exact hBefore hNone

/-- What never goes back. -/
theorem Step.monotone (hStep : Step n s f x s' fs) :
    s'.destroying = s.destroying ∧ (s.stopped = true → s'.stopped = true) ∧
      ∀ w ∈ s.exited, w ∈ s'.exited := by
  cases hStep with
  | exits w =>
      exact ⟨rfl, id, fun w' hMem => List.mem_cons_of_mem w hMem⟩
  | stops => exact ⟨rfl, fun _ => rfl, fun _ hMem => hMem⟩
  | _ => exact ⟨rfl, id, fun _ hMem => hMem⟩

theorem Sound.joins_step (hSound : Sound n s (A ++ f :: B)) (hStep : Step n s f x s' fs) (k : Nat)
    (hJoin : .join k ∈ A ++ (fs ++ B)) :
    k ≤ n ∧ s'.stopped = true ∧ s'.waiting = [] ∧ ∀ w < k, w ∈ s'.exited := by
  obtain ⟨_, hStopped, hExited⟩ := hStep.monotone
  rcases mem_new_or_others hJoin with hNew | hOther
  · cases hStep with
    | notifiesAll =>
        cases List.mem_singleton.mp hNew
        exact ⟨Nat.zero_le n, hSound.notifying mem_running, rfl,
          fun w hLt => absurd hLt (Nat.not_lt_zero w)⟩
    | joins w hMore hDone =>
        cases List.mem_singleton.mp hNew
        obtain ⟨hLe, hStop, hNone, hBelow⟩ := hSound.joins w mem_running
        refine ⟨by omega, hStop, hNone, ?_⟩
        intro w' hLt
        rcases Nat.lt_succ_iff_lt_or_eq.mp hLt with hLess | rfl
        · exact hBelow w' hLess
        · exact hDone
    | _ => simp at hNew
  · obtain ⟨hLe, hStop, hNone, hBelow⟩ := hSound.joins k (mem_of_others hOther)
    refine ⟨hLe, hStopped hStop, ?_, fun w hLt => hExited w (hBelow w hLt)⟩
    cases hStep with
    | waits w hRunning => simp [hStop] at hRunning
    | wakes w =>
        show s.waiting.erase w = []
        rw [hNone]
        rfl
    | notifies caller w =>
        show s.waiting.erase w = []
        rw [hNone]
        rfl
    | notifiesAll => rfl
    | _ => exact hNone

/-- The destructor stays there until it has joined the workers. -/
theorem Sound.underway_step (hSound : Sound n s (A ++ f :: B)) (hStep : Step n s f x s' fs)
    (hStarted : s'.destroying = true) :
    s'.joined = true ∨ ∃ g ∈ A ++ (fs ++ B), g.isDestructor = true := by
  have hNew : ∀ {g : Frame τ}, g ∈ fs → g ∈ A ++ (fs ++ B) :=
    fun hMem => List.mem_append_right A (List.mem_append_left B hMem)
  rw [hStep.monotone.1] at hStarted
  have hKeep : f.isDestructor = false → s.joined = true ∨
      ∃ g ∈ A ++ (fs ++ B), g.isDestructor = true := by
    intro hOther
    refine (hSound.underway hStarted).imp id ?_
    rintro ⟨g, hMem, hKind⟩
    refine ⟨g, mem_of_before fs hMem ?_, hKind⟩
    rintro rfl
    simp [hOther] at hKind
  cases hStep with
  | stops => exact Or.inr ⟨.notifyAll, hNew List.mem_cons_self, rfl⟩
  | notifiesAll => exact Or.inr ⟨.join 0, hNew List.mem_cons_self, rfl⟩
  | joins w => exact Or.inr ⟨.join (w + 1), hNew List.mem_cons_self, rfl⟩
  | destroyed => exact Or.inl rfl
  | _ => exact hKeep rfl

/-- **Step lemma** for the pool. -/
theorem Sound.step (hWorkers : 1 ≤ n) (hSound : Sound n s (A ++ f :: (below ++ B)))
    (hShape : Shape (f :: below)) (hStep : Step n s f x s' fs) :
    Sound n s' (A ++ (fs ++ (below ++ B))) := by
  obtain ⟨hDestroying, hStopped, hExited⟩ := hStep.monotone
  refine
    { order := hSound.order_step hStep
      executed := hSound.executed_step hStep
      workers := hSound.workers_step hStep
      drained := hSound.drained_step hWorkers hShape hStep
      joins := hSound.joins_step hStep
      underway := hSound.underway_step hStep
      exits := ?_, stopped := ?_, outside := ?_, destructor := ?_, notifying := ?_
      joined := ?_ }
  · intro hSome
    cases hStep with
    | exits w hStop => exact hStop
    | stops => rfl
    | _ => exact hSound.exits hSome
  · intro hStop
    rw [hDestroying]
    cases hStep with
    | stops => exact hSound.destructor .stop mem_running rfl
    | _ => exact hSound.stopped hStop
  · intro hStarted g hMem
    rw [hDestroying] at hStarted
    have hOld := hSound.outside hStarted
    rcases mem_new_or_others hMem with hNew | hOther
    · cases hStep with
      | schedules w task other =>
          simp only [List.mem_cons, List.not_mem_nil, or_false] at hNew
          rcases hNew with rfl | rfl <;> rfl
      | pushes caller task =>
          cases List.mem_singleton.mp hNew
          have hCaller := hOld (.push caller task) mem_running
          cases caller with
          | none => exact hCaller
          | some w => rfl
      | exits | notifies | notifiesNone | destroyed => exact absurd hNew List.not_mem_nil
      | _ => cases List.mem_singleton.mp hNew; rfl
    · exact hOld g (mem_of_others hOther)
  · intro g hMem hKind
    rw [hDestroying]
    rcases mem_new_or_others hMem with hNew | hOther
    · cases hStep with
      | stops => exact hSound.destructor .stop mem_running rfl
      | notifiesAll => exact hSound.destructor .notifyAll mem_running rfl
      | joins w => exact hSound.destructor (.join w) mem_running rfl
      | schedules w task other =>
          simp only [List.mem_cons, List.not_mem_nil, or_false] at hNew
          rcases hNew with rfl | rfl <;> simp [Frame.isDestructor] at hKind
      | exits | notifies | notifiesNone | destroyed => exact absurd hNew List.not_mem_nil
      | _ => cases List.mem_singleton.mp hNew; simp [Frame.isDestructor] at hKind
    · exact hSound.destructor g (mem_of_others hOther) hKind
  · intro hMem
    rcases mem_new_or_others hMem with hNew | hOther
    · cases hStep with
      | stops => rfl
      | _ => simp at hNew
    · exact hStopped (hSound.notifying (mem_of_others hOther))
  · intro hJoined w hLt
    cases hStep with
    | destroyed => exact (hSound.joins n mem_running).2.2.2 w hLt
    | exits w' => exact hExited w (hSound.joined hJoined w hLt)
    | _ => exact hSound.joined hJoined w hLt

/-- A new frame that is neither a worker's nor a later one of the destructor's. -/
theorem Sound.add {destroying : Bool} (hSound : Sound n s A) (hWorker : f.worker = none)
    (hTask : f.task = none) (hJoin : ∀ k, f ≠ .join k) (hNotify : f ≠ .notifyAll)
    (hLater : s.destroying = true → destroying = true)
    (hOutside : destroying = true → ∀ g ∈ A ++ [f], g.isOutside = false)
    (hDestructor : f.isDestructor = true → destroying = true)
    (hUnderway : destroying = true → s.destroying = true ∨ f.isDestructor = true) :
    Sound n { s with destroying := destroying } (A ++ [f]) := by
  have hOld : ∀ {g : Frame τ}, g ∈ A ++ [f] → g ≠ f → g ∈ A := by
    intro g hMem hNe
    rcases List.mem_append.mp hMem with hA | hLast
    · exact hA
    · exact absurd (List.mem_singleton.mp hLast) hNe
  have hWorkers : (A ++ [f]).filterMap Frame.worker = A.filterMap Frame.worker := by
    simp [List.filterMap_append, hWorker]
  have hTasks : (A ++ [f]).filterMap Frame.task = A.filterMap Frame.task := by
    simp [List.filterMap_append, hTask]
  exact
    { order := hSound.order
      executed := hTasks ▸ hSound.executed
      workers := hWorkers ▸ hSound.workers
      drained := hWorkers ▸ hSound.drained
      exits := hSound.exits
      stopped := fun hStop => hLater (hSound.stopped hStop)
      outside := hOutside
      destructor := by
        intro g hMem hKind
        rcases List.mem_append.mp hMem with hA | hLast
        · exact hLater (hSound.destructor g hA hKind)
        · exact hDestructor (List.mem_singleton.mp hLast ▸ hKind)
      notifying := fun hMem => hSound.notifying (hOld hMem (Ne.symm hNotify))
      joins := fun k hMem => hSound.joins k (hOld hMem (Ne.symm (hJoin k)))
      joined := hSound.joined
      underway := by
        intro hStarted
        rcases hUnderway hStarted with hBefore | hHere
        · refine (hSound.underway hBefore).imp id ?_
          rintro ⟨g, hMem, hKind⟩
          exact ⟨g, List.mem_append_left _ hMem, hKind⟩
        · exact Or.inr ⟨f, List.mem_append_right _ (List.mem_singleton.mpr rfl), hHere⟩ }

theorem Sound.spawn {call : Call τ} (hSound : Sound n s A)
    (hUsage : usage.spawn s A call = true) (hSpawn : spawn s call = some (s', fs)) :
    Sound n s' (A ++ fs) := by
  cases call with
  | schedule task =>
      cases hSpawn
      have hRunning : s.destroying = false := by simpa [usage] using hUsage
      exact hSound.add rfl rfl (by simp) (by simp) id (by simp [hRunning])
        (by simp [Frame.isDestructor]) Or.inl
  | destroy =>
      cases hSpawn
      simp only [usage, Bool.and_eq_true, List.all_eq_true, Bool.not_eq_true'] at hUsage
      refine hSound.add rfl rfl (by simp) (by simp) (fun _ => rfl) ?_ (fun _ => rfl)
        fun _ => Or.inr rfl
      intro _ g hMem
      rcases List.mem_append.mp hMem with hA | hLast
      · exact hUsage.2 g hA
      · rw [List.mem_singleton.mp hLast]
        rfl

/-- **The invariant along every run.** -/
theorem sound {c : Config (Pool τ) (Frame τ)} (hWorkers : 1 ≤ n)
    (hReach : (machine n).Reaches usage (initial n) c) : Sound n c.shared c.frames := by
  refine Machine.invariant_stacked (J := fun _ _ => True) (T := Shape)
    (fun c hReach => ⟨trivial, shapes hReach⟩) sound_initial ?_ ?_ hReach
  · intro s A f below B x s' fs _ hShape hSound _ hExec
    exact hSound.step hWorkers hShape (step_of_exec hExec)
  · intro s A call s' fs _ hSound hUsage hSpawn
    exact hSound.spawn hUsage hSpawn

/-! ## Every task once, in order -/

/-- Tasks are started in the order in which they were enqueued, at any time. -/
theorem started_prefix {c : Config (Pool τ) (Frame τ)} (hWorkers : 1 ≤ n)
    (hReach : (machine n).Reaches usage (initial n) c) :
    c.shared.started <+: c.shared.enqueued :=
  ⟨c.shared.tasks, (sound hWorkers hReach).order⟩

/-- With all workers joined there is no frame of one. -/
theorem Sound.no_worker {fs : List (Frame τ)} (hSound : Sound n s fs) (hJoined : s.joined = true) :
    fs.filterMap Frame.worker = [] := by
  refine List.eq_nil_iff_forall_not_mem.mpr ?_
  intro w hMem
  have hNodup : (fs.filterMap Frame.worker ++ s.exited).Nodup :=
    hSound.workers.nodup_iff.mpr List.nodup_range
  have hLt : w < n :=
    List.mem_range.mp (hSound.workers.subset (List.mem_append_left _ hMem))
  exact (List.nodup_append.mp hNodup).2.2 w hMem w (hSound.joined hJoined w hLt) rfl

/-- **The pool runs every task exactly once**: when the destructor has joined the workers,
the tasks were started as they were enqueued, and what has been executed is what was
enqueued. -/
theorem pool_drains {c : Config (Pool τ) (Frame τ)} (hWorkers : 1 ≤ n)
    (hReach : (machine n).Reaches usage (initial n) c) (hJoined : c.shared.joined = true) :
    c.shared.started = c.shared.enqueued ∧ c.shared.finished.Perm c.shared.enqueued := by
  have hSound := sound hWorkers hReach
  have hNone := hSound.no_worker hJoined
  have hOrder := hSound.order
  have hTasks : c.frames.filterMap Frame.task = [] := by
    refine List.filterMap_eq_nil_iff.mpr ?_
    intro g hMem
    have hWorker := List.filterMap_eq_nil_iff.mp hNone g hMem
    cases g <;> first | rfl | simp [Frame.worker] at hWorker
  rw [hSound.drained hNone, List.append_nil] at hOrder
  have hExecuted := hSound.executed
  rw [hTasks, List.append_nil] at hExecuted
  exact ⟨hOrder, hOrder ▸ hExecuted⟩

/-- Two workers, a task that schedules another one after the destructor has begun, and a
wakeup by notification. -/
theorem pool_drains_two :
    ∃ c : Config (Pool Nat) (Frame Nat), (machine 2).Reaches usage (initial 2) c ∧
      c.shared.joined = true ∧ c.shared.enqueued = [7, 8] ∧
      c.shared.started = c.shared.enqueued ∧ c.shared.finished.Perm c.shared.enqueued := by
  obtain ⟨c, hReach, hEnd⟩ := (machine 2).exists_reaches usage (initial 2)
    [.run 0 .step, .spawn (.schedule 7), .run 2 .step, .run 2 (.wakes 0), .run 0 .step,
      .run 0 .step, .spawn .destroy, .run 3 .step, .run 1 .step, .run 0 (.schedule 8),
      .run 0 .step, .run 0 .step, .run 0 .step, .run 0 .step, .run 0 .step, .run 0 .step,
      .run 3 .step, .run 3 .step, .run 3 .step, .run 3 .step]
    (fun c => c.shared.joined && decide (c.shared.enqueued = [7, 8])) (by decide)
  simp only [Bool.and_eq_true, decide_eq_true_eq] at hEnd
  exact ⟨c, hReach, hEnd.1, hEnd.2, pool_drains (by decide) hReach hEnd.1⟩

/-! ## The destructor gets to its end -/

/-- A worker that has not returned has a frame. -/
theorem Sound.exists_worker {fs : List (Frame τ)} (hSound : Sound n s fs) {w : Nat} (hLt : w < n)
    (hAlive : w ∉ s.exited) : ∃ g ∈ fs, g.worker = some w := by
  have hMem : w ∈ fs.filterMap Frame.worker ++ s.exited :=
    hSound.workers.mem_iff.mpr (List.mem_range.mpr hLt)
  rcases List.mem_append.mp hMem with hWorker | hExited
  · exact List.mem_filterMap.mp hWorker
  · exact absurd hExited hAlive

/-- An action that is no call of `Schedule` and no spurious wakeup. -/
def Progresses : Action (Choice τ) (Call τ) → Prop
  | .run _ (.schedule _) | .run _ .spurious | .spawn _ => False
  | .run _ _ => True

theorem exists_step {c : Config (Pool τ) (Frame τ)} (x : Choice τ)
    (hStack : f :: below ∈ c.threads) (hExec : (exec n c.shared f x).isSome = true)
    (hKind : ∀ i, Progresses (.run i x : Action (Choice τ) (Call τ))) :
    ∃ a c', Progresses a ∧ (machine n).step c a = some c' := by
  obtain ⟨i, hLt, hGet⟩ := List.mem_iff_getElem.mp hStack
  have hThread : c.threads[i]? = some (f :: below) := by
    rw [List.getElem?_eq_getElem hLt, hGet]
  obtain ⟨⟨s', fs⟩, hSome⟩ := Option.isSome_iff_exists.mp hExec
  have hRun : (machine n).exec c.shared f x = some (s', fs) := hSome
  refine ⟨.run i x, ⟨s', c.threads.set i (fs ++ below)⟩, hKind i, ?_⟩
  simp only [Machine.step, hThread, hRun, Option.map_some]

/-- A frame of a call of `Schedule` is never stuck. -/
theorem exec_calling {w : Nat} (hCall : f.calledBy = some w) :
    ∃ x, (exec n s f x).isSome = true ∧
      ∀ i, Progresses (.run i x : Action (Choice τ) (Call τ)) := by
  cases f with
  | push caller task => exact ⟨.step, rfl, fun _ => trivial⟩
  | notifyOne caller =>
      cases hWaiting : s.waiting with
      | nil => exact ⟨.step, by simp [exec, hWaiting], fun _ => trivial⟩
      | cons w' rest => exact ⟨.wakes w', by simp [exec, hWaiting], fun _ => trivial⟩
  | _ => simp [Frame.calledBy] at hCall

/-- After `notify_all` no worker is stuck. -/
theorem exec_worker {w : Nat} (hWorker : f.worker = some w) (hStopped : s.stopped = true)
    (hWaiting : s.waiting = []) : (exec n s f .step).isSome = true := by
  cases f with
  | acquire w' =>
      cases hTasks : s.tasks with
      | nil => simp [exec, execAcquire, hStopped, hTasks]
      | cons task rest => simp [exec, execAcquire, hTasks]
  | wait w' => simp [exec, hWaiting]
  | running w' task => rfl
  | _ => simp [Frame.worker] at hWorker

/-- **No deadlock**: once the destructor has started and until it has joined the workers,
some thread can go on without a wakeup that nobody has sent. -/
theorem pool_progress {c : Config (Pool τ) (Frame τ)} (hWorkers : 1 ≤ n)
    (hReach : (machine n).Reaches usage (initial n) c) (hStarted : c.shared.destroying = true)
    (hJoined : c.shared.joined = false) :
    ∃ a c', Progresses a ∧ (machine n).step c a = some c' := by
  have hSound := sound hWorkers hReach
  have hShapes := shapes hReach
  have hStack : ∀ {g : Frame τ}, g ∈ c.frames → ∃ stack ∈ c.threads, g ∈ stack :=
    fun hMem => List.mem_flatten.mp hMem
  obtain ⟨g, hMem, hKind⟩ := (hSound.underway hStarted).resolve_left (by simp [hJoined])
  obtain ⟨stack, hThread, hIn⟩ := hStack hMem
  have hAlone : stack = [g] := by
    cases hShapes stack hThread with
    | ended => exact absurd hIn List.not_mem_nil
    | single g' hCall => rw [List.mem_singleton.mp hIn]
    | calling g' w task hCall =>
        simp only [List.mem_cons, List.not_mem_nil, or_false] at hIn
        rcases hIn with rfl | rfl
        · cases g <;> simp [Frame.isDestructor, Frame.calledBy] at hKind hCall
        · simp [Frame.isDestructor] at hKind
  subst hAlone
  cases g with
  | stop => exact exists_step .step hThread rfl fun _ => trivial
  | notifyAll => exact exists_step .step hThread rfl fun _ => trivial
  | join k =>
      obtain ⟨hLe, hStopped, hWaiting, _⟩ := hSound.joins k hMem
      by_cases hLast : k = n
      · exact exists_step .step hThread (by simp [exec, execJoin, hLast]) fun _ => trivial
      by_cases hExited : k ∈ c.shared.exited
      · exact exists_step .step hThread (by simp [exec, execJoin, hLast, hExited])
          fun _ => trivial
      -- the worker that is waited for can go on, or the call its task has made
      obtain ⟨g, hMem', hWorker⟩ := hSound.exists_worker (by omega) hExited
      obtain ⟨stack', hThread', hIn'⟩ := hStack hMem'
      have hExec : (exec n c.shared g .step).isSome = true :=
        exec_worker hWorker hStopped hWaiting
      cases hShapes stack' hThread' with
      | ended => exact absurd hIn' List.not_mem_nil
      | single g' hCall =>
          cases List.mem_singleton.mp hIn'
          exact exists_step .step hThread' hExec fun _ => trivial
      | calling g' w task hCall =>
          obtain ⟨x, hCalling, hNext⟩ := exec_calling (n := n) (s := c.shared) hCall
          exact exists_step x hThread' hCalling hNext
  | _ => simp [Frame.isDestructor] at hKind

/-- How many steps a frame has left, the tasks apart. -/
def Frame.weight (n : Nat) : Frame τ → Nat
  | .acquire _ => 1
  | .wait _ => 2
  | .running _ _ => 3
  | .push _ _ => 5
  | .notifyOne _ => 1
  | .stop => n + 3
  | .notifyAll => n + 2
  | .join k => n + 1 - k

def potential (n : Nat) (s : Pool τ) (fs : List (Frame τ)) : Nat :=
  (fs.map (Frame.weight n)).sum + 3 * s.tasks.length

/-- What `Schedule` called by a task adds. -/
def cost : Choice τ → Nat
  | .schedule _ => 6
  | _ => 0

/-- After `stopped_` is set every step takes one off, but for a call of `Schedule`. -/
theorem potential_step (hSound : Sound n s (A ++ f :: B)) (hStopped : s.stopped = true)
    (hStep : Step n s f x s' fs) :
    potential n s' (A ++ (fs ++ B)) + 1 ≤ potential n s (A ++ f :: B) + cost x := by
  unfold potential
  simp only [List.map_append, List.map_cons, List.sum_append, List.sum_cons]
  cases hStep with
  | starts w task rest hTasks =>
      simp only [hTasks, List.length_cons, List.map_cons, List.map_nil, List.sum_cons,
        List.sum_nil, Frame.weight, cost]
      omega
  | waits w hRunning => simp [hStopped] at hRunning
  | pushes caller task =>
      simp only [List.length_append, List.length_singleton, List.map_cons, List.map_nil,
        List.sum_cons, List.sum_nil, Frame.weight, cost]
      omega
  | joins w hMore hDone =>
      have hLe := (hSound.joins w mem_running).1
      simp only [List.map_cons, List.map_nil, List.sum_cons, List.sum_nil, Frame.weight, cost]
      omega
  | _ =>
      simp only [List.map_cons, List.map_nil, List.sum_cons, List.sum_nil, Frame.weight, cost]
      omega

def actionCost : Action (Choice τ) (Call τ) → Nat
  | .run _ x => cost x
  | .spawn _ => 0

/-- **The destructor is over after finitely many steps**, those of the workers included: once
`stopped_` is set, a run is no longer than the potential and six steps for each call of
`Schedule` that a task makes in it. -/
theorem steps_le {c c' : Config (Pool τ) (Frame τ)} {actions : List (Action (Choice τ) (Call τ))}
    (hWorkers : 1 ≤ n) (hReach : (machine n).Reaches usage (initial n) c)
    (hStopped : c.shared.stopped = true)
    (hRun : (machine n).runSchedule usage c actions = some c') :
    actions.length ≤ potential n c.shared c.frames + (actions.map actionCost).sum := by
  induction actions generalizing c with
  | nil => exact Nat.zero_le _
  | cons a actions ih =>
      unfold Machine.runSchedule Transition.runGuarded at hRun
      split at hRun
      next hOk =>
        split at hRun
        · simp at hRun
        next c₁ hStep =>
          have hSound := sound hWorkers hReach
          have hReach₁ : (machine n).Reaches usage (initial n) c₁ := .tail hReach hOk hStep
          cases a with
          | run i x =>
              obtain ⟨A, f, below, B, fs, hFrames, hExec, hFrames'⟩ := Machine.step_run hStep
              have hOne := step_of_exec hExec
              have hRest := ih hReach₁ (hOne.monotone.2.1 hStopped) hRun
              rw [hFrames] at hSound
              have hLess := potential_step hSound hStopped hOne
              rw [← hFrames, ← hFrames'] at hLess
              rw [List.length_cons, List.map_cons, List.sum_cons]
              show actions.length + 1 ≤ _ + (cost x + _)
              omega
          | spawn call =>
              -- the destructor has started, so no other thread calls
              have hStarted := hSound.stopped hStopped
              cases call <;> simp [usage, Guard.allows, hStarted] at hOk
      next => simp at hRun

/-- `stopped_` stays set. -/
theorem stopped_of_reaches {c c' : Config (Pool τ) (Frame τ)} (hStopped : c.shared.stopped = true)
    (hReach : (machine n).Reaches usage c c') : c'.shared.stopped = true := by
  refine Machine.invariant (I := fun s _ => s.stopped = true) hStopped ?_ ?_ hReach
  · intro s A f B x s' fs hBefore _ hExec
    exact (step_of_exec hExec).monotone.2.1 hBefore
  · intro s A call s' fs hBefore _ hSpawn
    cases call <;> cases hSpawn <;> exact hBefore

/-- **The destructor returns**: from any point of a run at which `stopped_` is set, the run has
at most as many steps left as the potential says, and six for each call of `Schedule` by a task;
and whatever has been done of it, it can go on without a wakeup that nobody has sent, unless
the workers have been joined. -/
theorem destructor_returns {c c' : Config (Pool τ) (Frame τ)}
    {actions : List (Action (Choice τ) (Call τ))} (hWorkers : 1 ≤ n)
    (hReach : (machine n).Reaches usage (initial n) c) (hStopped : c.shared.stopped = true)
    (hRun : (machine n).runSchedule usage c actions = some c') :
    actions.length ≤ potential n c.shared c.frames + (actions.map actionCost).sum ∧
      (c'.shared.joined = true ∨ ∃ a c'', Progresses a ∧ (machine n).step c' a = some c'') := by
  have hOnward := Machine.reaches_of_runSchedule _ hRun
  have hThere := hReach.trans hOnward
  refine ⟨steps_le hWorkers hReach hStopped hRun, ?_⟩
  cases hJoined : c'.shared.joined with
  | true => exact Or.inl rfl
  | false =>
      have hStarted := (sound hWorkers hThere).stopped (stopped_of_reaches hStopped hOnward)
      exact Or.inr (pool_progress hWorkers hThere hStarted hJoined)

/-- A task is running and another one is waiting when `stopped_` is set; the first one calls
`Schedule` once more. -/
theorem destructor_returns_one :
    ∃ c c' : Config (Pool Nat) (Frame Nat), (machine 1).Reaches usage (initial 1) c ∧
      c.shared.stopped = true ∧ c.shared.tasks = [8] ∧
      (machine 1).runSchedule usage c [.run 0 (.schedule 9), .run 0 .step] = some c' ∧
      potential 1 c.shared c.frames = 9 ∧
      (c'.shared.joined = true ∨ ∃ a c'', Progresses a ∧ (machine 1).step c' a = some c'') := by
  obtain ⟨c, hReach, hEnd⟩ := (machine 1).exists_reaches usage (initial 1)
    [.spawn (.schedule 7), .run 1 .step, .run 1 .step, .run 0 .step, .spawn (.schedule 8),
      .run 2 .step, .run 2 .step, .spawn .destroy, .run 3 .step]
    (fun c => c.shared.stopped && decide (c.shared.tasks = [8]) &&
      decide (potential 1 c.shared c.frames = 9) &&
      ((machine 1).runSchedule usage c [.run 0 (.schedule 9), .run 0 .step]).isSome) (by decide)
  simp only [Bool.and_eq_true, decide_eq_true_eq] at hEnd
  obtain ⟨⟨⟨hStopped, hTasks⟩, hPotential⟩, hSome⟩ := hEnd
  obtain ⟨c', hRun⟩ := Option.isSome_iff_exists.mp hSome
  exact ⟨c, c', hReach, hStopped, hTasks, hRun, hPotential,
    (destructor_returns (by decide) hReach hStopped hRun).2⟩

end GraphRuntime.ThreadPool
