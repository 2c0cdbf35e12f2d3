import GraphRuntime.Lib.Interleaving
import GraphRuntime.Profiler.GraphProfiler

/-!
# `GraphProfiler::Scope`

A scope measures the time from its constructor to its destructor.  Both load
`is_profiling_`, which `Start`, `Stop`, `Pause` and `Resume` change from other
threads, and both read the clock only if they find it set.  One step is one
access to the shared state: a load, a reading of the clock, a call of one of the
three recording functions under `mutex_`.  The clock is the environment's and
never goes back.

`measured` is a ghost record of the calls that reach the recording functions.
`durations_real_iff` says in which runs each of them gives the time between the
two ends of its scope: a scope constructed with profiling off keeps the start
time zero, and its destructor does not know.
-/

namespace GraphRuntime.Profiler

open Interleaving GraphRuntime.Stream

namespace GraphProfiler

/-- `Stop`. -/
def stop (p : GraphProfiler) : GraphProfiler := { p with isProfiling := false }

/-- `Pause`. -/
def pause (p : GraphProfiler) : GraphProfiler := { p with isProfiling := false }

/-- `Resume`. -/
def resume (p : GraphProfiler) : GraphProfiler :=
  if p.config.enableProfiler && p.isInitialized then { p with isProfiling := true } else p

end GraphProfiler

/-- `GraphProfiler::EventType`. -/
inductive EventType
  | openEvent
  | processEvent
  | closeEvent

/-- `GraphProfiler::Scope`; `profiled` says that `profiler_` is not null.  The
last two are ghosts: whether the constructor found profiling on, and the clock at
its last step. -/
structure Scope where
  type : EventType
  nodeName : String
  profiled : Bool
  startTimeUsec : Int := 0
  constructedOn : Bool := false
  constructedAt : Int := 0

/-- A call of a recording function by the destructor of `scope`, and the clock
when that was destroyed. -/
structure Measurement where
  scope : Scope
  endTimeUsec : Int
  destroyedAt : Int

/-- The two times the recording function is called with. -/
def Measurement.sample (m : Measurement) : Sample := (m.scope.startTimeUsec, m.endTimeUsec)

/-- The profiler with its clock; `openRuntimeUsec` and `closeRuntimeUsec` are the
stores of `node_data_[name]` beside the histogram. -/
structure Profiling where
  profiler : GraphProfiler
  openRuntimeUsec : String → Int := fun _ => 0
  closeRuntimeUsec : String → Int := fun _ => 0
  clock : Int
  measured : List Measurement := []

namespace Profiling

/-- `TimeNowUsec`. -/
def timeNowUsec (s : Profiling) : Int := s.clock

/-- `SetOpenRuntime`; a node nobody has registered is passed over. -/
def setOpenRuntime (s : Profiling) (name : String) (sample : Sample) : Profiling :=
  if (s.profiler.nodeData.lookup name).isSome then
    { s with openRuntimeUsec := Function.update s.openRuntimeUsec name (machineDuration sample) }
  else s

/-- `SetCloseRuntime`. -/
def setCloseRuntime (s : Profiling) (name : String) (sample : Sample) : Profiling :=
  if (s.profiler.nodeData.lookup name).isSome then
    { s with
      closeRuntimeUsec := Function.update s.closeRuntimeUsec name (machineDuration sample) }
  else s

/-- The `switch` of the destructor. -/
def record (s : Profiling) (m : Measurement) : Except Fault Profiling :=
  match m.scope.type with
  | .openEvent => .ok (s.setOpenRuntime m.scope.nodeName m.sample)
  | .processEvent =>
      (s.profiler.addProcessSample m.scope.nodeName m.sample).map fun p => { s with profiler := p }
  | .closeEvent => .ok (s.setCloseRuntime m.scope.nodeName m.sample)

/-- `Reset`. -/
def reset (s : Profiling) : Profiling :=
  { s with
    openRuntimeUsec := fun _ => 0
    closeRuntimeUsec := fun _ => 0
    profiler :=
      { s.profiler with
        nodeData := s.profiler.nodeData.map fun entry => (entry.1, entry.2.reset) } }

end Profiling

/-- Where the thread of a scope is: before one of the two accesses of the
constructor, before one of the three of the destructor. -/
inductive ScopeFrame
  | construct (scope : Scope)
  | readStart (scope : Scope)
  | destruct (scope : Scope)
  | readEnd (scope : Scope)
  | record (m : Measurement)

/-- What other threads do: enter the constructor of a scope, call the profiler,
let time pass. -/
inductive ProfilerCall
  | scope (type : EventType) (nodeName : String) (profiled : Bool)
  | start
  | stop
  | pause
  | resume
  | reset
  | tick (usec : Nat)

namespace Scope

/-- One access of the constructor or the destructor. -/
def exec (s : Profiling) : ScopeFrame → Unit → Option (Profiling × List ScopeFrame)
  | .construct scope, _ =>
      if scope.profiled && s.profiler.isProfiling then
        some (s, [.readStart { scope with constructedOn := true }])
      else some (s, [.destruct { scope with constructedAt := s.clock }])
  | .readStart scope, _ =>
      some (s, [.destruct
        { scope with startTimeUsec := s.timeNowUsec, constructedAt := s.clock }])
  | .destruct scope, _ =>
      if !scope.profiled || !s.profiler.isProfiling then some (s, [])
      else some (s, [.readEnd scope])
  | .readEnd scope, _ =>
      let m : Measurement := ⟨scope, s.timeNowUsec, s.clock⟩
      some ({ s with measured := s.measured ++ [m] }, [.record m])
  | .record m, _ =>
      match s.record m with
      | .error _ => none
      | .ok s' => some (s', [])

/-- What another thread does next. -/
def spawn (s : Profiling) : ProfilerCall → Option (Profiling × List ScopeFrame)
  | .scope type nodeName profiled => some (s, [.construct { type, nodeName, profiled }])
  | .start => some ({ s with profiler := s.profiler.start }, [])
  | .stop => some ({ s with profiler := s.profiler.stop }, [])
  | .pause => some ({ s with profiler := s.profiler.pause }, [])
  | .resume => some ({ s with profiler := s.profiler.resume }, [])
  | .reset => some (s.reset, [])
  | .tick usec => some ({ s with clock := s.clock + usec }, [])

/-- Scopes and calls of the profiler, in any interleaving. -/
def machine : Machine Profiling ScopeFrame Unit ProfilerCall := ⟨exec, spawn⟩

/-- A profiler in any state, before the first scope. -/
def initial (profiler : GraphProfiler) (clock : Int) : Config Profiling ScopeFrame :=
  ⟨{ profiler, clock }, []⟩

/-- The steps after which durations are real: no scope constructed with profiling
off finds it on when it is destroyed, and none lasts 2^63 microseconds. -/
def matched : Guard Profiling ScopeFrame Unit ProfilerCall where
  exec := fun s _ f _ =>
    match f with
    | .destruct scope => !(scope.profiled && s.profiler.isProfiling) || scope.constructedOn
    | .readEnd scope => !scope.constructedOn || decide (s.clock - scope.constructedAt ≤ int64Max)
    | _ => true
  spawn := fun _ _ _ => true

end Scope

/-- A measurement of a scope constructed with profiling on, whose duration is the
time from its construction to its destruction. -/
structure Measurement.Real (m : Measurement) : Prop where
  constructedOn : m.scope.constructedOn = true
  duration : machineDuration m.sample = m.destroyedAt - m.scope.constructedAt

namespace Scope

variable {s s' : Profiling} {f : ScopeFrame} {fs : List ScopeFrame} {profiler : GraphProfiler}
  {clock : Int} {c c' : Config Profiling ScopeFrame}

/-! ## What a step does -/

/-- The steps of a frame, each with what it needs. -/
inductive Step (s : Profiling) : ScopeFrame → Profiling → List ScopeFrame → Prop
  | constructsOn (scope : Scope) :
      Step s (.construct scope) s [.readStart { scope with constructedOn := true }]
  | constructsOff (scope : Scope) :
      Step s (.construct scope) s [.destruct { scope with constructedAt := s.clock }]
  | readsStart (scope : Scope) :
      Step s (.readStart scope) s
        [.destruct { scope with startTimeUsec := s.clock, constructedAt := s.clock }]
  | unmeasured (scope : Scope) : (scope.profiled && s.profiler.isProfiling) = false →
      Step s (.destruct scope) s []
  | measures (scope : Scope) : (scope.profiled && s.profiler.isProfiling) = true →
      Step s (.destruct scope) s [.readEnd scope]
  | readsEnd (scope : Scope) :
      Step s (.readEnd scope)
        { s with measured := s.measured ++ [⟨scope, s.clock, s.clock⟩] }
        [.record ⟨scope, s.clock, s.clock⟩]
  | records (m : Measurement) (s' : Profiling) : s.record m = .ok s' →
      Step s (.record m) s' []

theorem step_of_exec (hExec : exec s f () = some (s', fs)) : Step s f s' fs := by
  cases f with
  | construct scope =>
      simp only [exec] at hExec
      split at hExec
      · cases hExec
        exact .constructsOn scope
      · cases hExec
        exact .constructsOff scope
  | readStart scope =>
      cases hExec
      exact .readsStart scope
  | destruct scope =>
      simp only [exec] at hExec
      split at hExec
      next hOff =>
        cases hExec
        refine .unmeasured scope ?_
        rwa [← Bool.not_and, Bool.not_eq_true'] at hOff
      next hOn =>
        cases hExec
        exact .measures scope (by simpa using hOn)
  | readEnd scope =>
      cases hExec
      exact .readsEnd scope
  | record m =>
      simp only [exec] at hExec
      split at hExec
      · cases hExec
      next hRecord =>
        cases hExec
        exact .records m s' hRecord

/-- What the recording functions leave alone, and what they do to the stores. -/
theorem record_spec {m : Measurement} (hRecord : s.record m = .ok s') :
    s'.clock = s.clock ∧ s'.measured = s.measured ∧
      ∀ name,
        (s'.openRuntimeUsec name = s.openRuntimeUsec name ∨
          s'.openRuntimeUsec name = machineDuration m.sample) ∧
        (s'.closeRuntimeUsec name = s.closeRuntimeUsec name ∨
          s'.closeRuntimeUsec name = machineDuration m.sample) := by
  have hUpdate : ∀ (store : String → Int) (name other : String) (duration : Int),
      Function.update store name duration other = store other ∨
        Function.update store name duration other = duration := by
    intro store name other duration
    by_cases hEq : other = name
    · subst hEq
      exact Or.inr (Function.update_self ..)
    · exact Or.inl (Function.update_of_ne hEq ..)
  unfold Profiling.record at hRecord
  split at hRecord
  · cases hRecord
    unfold Profiling.setOpenRuntime
    split
    · exact ⟨rfl, rfl, fun name => ⟨hUpdate _ _ _ _, Or.inl rfl⟩⟩
    · exact ⟨rfl, rfl, fun _ => ⟨Or.inl rfl, Or.inl rfl⟩⟩
  · cases hAdd : s.profiler.addProcessSample m.scope.nodeName m.sample with
    | error fault => simp [hAdd, Except.map] at hRecord
    | ok p =>
        rw [hAdd] at hRecord
        cases hRecord
        exact ⟨rfl, rfl, fun _ => ⟨Or.inl rfl, Or.inl rfl⟩⟩
  · cases hRecord
    unfold Profiling.setCloseRuntime
    split
    · exact ⟨rfl, rfl, fun name => ⟨Or.inl rfl, hUpdate _ _ _ _⟩⟩
    · exact ⟨rfl, rfl, fun _ => ⟨Or.inl rfl, Or.inl rfl⟩⟩

/-- The clock never goes back, and measurements stay. -/
structure Later (s s' : Profiling) : Prop where
  clock : s.clock ≤ s'.clock
  measured : s.measured ⊆ s'.measured

theorem Step.later (hStep : Step s f s' fs) : Later s s' := by
  cases hStep with
  | readsEnd scope => exact ⟨le_rfl, List.subset_append_left _ _⟩
  | records m _ hRecord =>
      obtain ⟨hClock, hMeasured, -⟩ := record_spec hRecord
      exact ⟨hClock.ge, hMeasured ▸ List.Subset.refl _⟩
  | _ => exact ⟨le_rfl, List.Subset.refl _⟩

theorem spawn_spec {call : ProfilerCall} (hSpawn : spawn s call = some (s', fs)) :
    s.clock ≤ s'.clock ∧ s'.measured = s.measured ∧
      ∀ g ∈ fs, ∃ scope, g = .construct scope ∧ scope.constructedOn = false := by
  cases call with
  | scope type nodeName profiled =>
      cases hSpawn
      refine ⟨le_rfl, rfl, fun g hMem => ?_⟩
      exact ⟨_, List.mem_singleton.mp hMem, rfl⟩
  | tick usec =>
      cases hSpawn
      exact ⟨by show s.clock ≤ s.clock + usec; omega, rfl, by simp⟩
  | _ =>
      cases hSpawn
      exact ⟨le_rfl, rfl, by simp⟩

/-! ## The invariant -/

/-- What holds of a scope between two of its steps. -/
def Timed (s : Profiling) : ScopeFrame → Prop
  | .construct scope => scope.constructedOn = false
  | .readStart _ => True
  | .destruct scope => scope.constructedOn = true →
      scope.startTimeUsec = scope.constructedAt ∧ scope.constructedAt ≤ s.clock
  | .readEnd scope => scope.constructedOn = true ∧
      scope.startTimeUsec = scope.constructedAt ∧ scope.constructedAt ≤ s.clock
  | .record m => m ∈ s.measured

theorem Timed.later (hTimed : Timed s f) (hLater : Later s s') : Timed s' f := by
  have hClock := hLater.clock
  cases f with
  | construct scope => exact hTimed
  | readStart scope => trivial
  | destruct scope => exact fun hOn => ⟨(hTimed hOn).1, (hTimed hOn).2.trans hClock⟩
  | readEnd scope => exact ⟨hTimed.1, hTimed.2.1, hTimed.2.2.trans hClock⟩
  | record m => exact hLater.measured hTimed

/-- The clock differs by less than 2^63, so the subtraction is exact. -/
theorem real_of_timed {scope : Scope} (hTimed : Timed s (.readEnd scope))
    (hFits : s.clock - scope.constructedAt ≤ int64Max) :
    Measurement.Real ⟨scope, s.clock, s.clock⟩ := by
  obtain ⟨hOn, hStart, hLe⟩ := hTimed
  refine ⟨hOn, ?_⟩
  have hRange : Fits64 (s.clock - scope.startTimeUsec) := by
    rw [hStart]
    exact ⟨by unfold int64Min; omega, hFits⟩
  show machineDuration (scope.startTimeUsec, s.clock) = s.clock - scope.constructedAt
  rw [machineDuration_eq hRange]
  show max 0 (s.clock - scope.startTimeUsec) = s.clock - scope.constructedAt
  rw [hStart]
  omega

/-- **Step lemma**: a step the guard allows leaves timed scopes, and what it
measures is real. -/
theorem Step.timed {others : List ScopeFrame} (hStep : Step s f s' fs) (hTimed : Timed s f)
    (hOk : matched.exec s others f () = true) :
    (∀ g ∈ fs, Timed s' g) ∧ ∀ m ∈ s'.measured, m ∈ s.measured ∨ m.Real := by
  cases hStep with
  | constructsOn scope => exact ⟨by simp [Timed], fun _ => Or.inl⟩
  | constructsOff scope =>
      refine ⟨fun g hMem => ?_, fun _ => Or.inl⟩
      obtain rfl := List.mem_singleton.mp hMem
      intro hOn
      exact absurd (hTimed.symm.trans hOn) Bool.false_ne_true
  | readsStart scope =>
      refine ⟨fun g hMem => ?_, fun _ => Or.inl⟩
      obtain rfl := List.mem_singleton.mp hMem
      exact fun _ => ⟨rfl, le_rfl⟩
  | unmeasured => exact ⟨by simp, fun _ => Or.inl⟩
  | measures scope hProfiling =>
      have hOn : scope.constructedOn = true := by
        simpa only [matched, hProfiling, Bool.not_true, Bool.false_or] using hOk
      refine ⟨fun g hMem => ?_, fun _ => Or.inl⟩
      obtain rfl := List.mem_singleton.mp hMem
      exact ⟨hOn, hTimed hOn⟩
  | readsEnd scope =>
      have hFits : s.clock - scope.constructedAt ≤ int64Max := by
        simpa [matched, hTimed.1] using hOk
      constructor
      · intro g hMem
        obtain rfl := List.mem_singleton.mp hMem
        exact List.mem_append_right _ (List.mem_singleton.mpr rfl)
      · intro m hMem
        rcases List.mem_append.mp hMem with hOld | hNew
        · exact Or.inl hOld
        · obtain rfl := List.mem_singleton.mp hNew
          exact Or.inr (real_of_timed hTimed hFits)
  | records m _ hRecord =>
      obtain ⟨-, hMeasured, -⟩ := record_spec hRecord
      exact ⟨by simp, fun _ hMem => Or.inl (hMeasured ▸ hMem)⟩

/-- **Run lemma.** -/
theorem timed (hReach : machine.Reaches matched (initial profiler clock) c) :
    (∀ f ∈ c.frames, Timed c.shared f) ∧ ∀ m ∈ c.shared.measured, m.Real := by
  refine Machine.invariant
    (I := fun s fs => (∀ f ∈ fs, Timed s f) ∧ ∀ m ∈ s.measured, m.Real) ?_ ?_ ?_ hReach
  · exact ⟨fun f hMem => absurd hMem List.not_mem_nil, fun m hMem => absurd hMem List.not_mem_nil⟩
  · rintro s A f B ⟨⟩ s' fs ⟨hFrames, hMeasured⟩ hOk hExec
    have hStep := step_of_exec hExec
    obtain ⟨hNew, hReal⟩ := hStep.timed (hFrames f (by simp)) hOk
    constructor
    · intro g hMem
      rcases mem_new_or_others hMem with hLeft | hOther
      · exact hNew g hLeft
      · exact (hFrames g (mem_of_others hOther)).later hStep.later
    · intro m hMem
      exact (hReal m hMem).elim (hMeasured m) id
  · intro s A call s' fs hHere _ hSpawn
    obtain ⟨hClock, hSame, hNew⟩ := spawn_spec hSpawn
    have hLater : Later s s' := ⟨hClock, hSame ▸ List.Subset.refl _⟩
    refine ⟨fun g hMem => ?_, fun m hMem => hHere.2 m (hSame ▸ hMem)⟩
    rcases List.mem_append.mp hMem with hOld | hFrame
    · exact (hHere.1 g hOld).later hLater
    · obtain ⟨scope, rfl, hOff⟩ := hNew g hFrame
      exact hOff

/-! ## Real durations -/

/-- The last step of a thread's destructor, which records the call. -/
theorem reaches_measured {i : Nat} {scope : Scope} {below : List ScopeFrame}
    (hThread : c.threads[i]? = some (.readEnd scope :: below))
    (hOk : (!scope.constructedOn ||
      decide (c.shared.clock - scope.constructedAt ≤ int64Max)) = true) :
    ∃ c', machine.Reaches matched c c' ∧
      ⟨scope, c.shared.clock, c.shared.clock⟩ ∈ c'.shared.measured := by
  have hStep : machine.step c (.run i ()) =
      some ⟨{ c.shared with measured :=
          c.shared.measured ++ [⟨scope, c.shared.clock, c.shared.clock⟩] },
        c.threads.set i
          ([.record ⟨scope, c.shared.clock, c.shared.clock⟩] ++ below)⟩ := by
    simp only [Machine.step, hThread]
    rfl
  have hAllows : matched.allows c (.run i ()) = true := by
    simp only [Guard.allows, hThread]
    exact hOk
  exact ⟨_, .tail .refl hAllows hStep, List.mem_append_right _ (List.mem_singleton.mpr rfl)⟩

/-- **A step the guard refuses** leads to a measurement that is not real: the
destructor goes on with the start time its scope does not have, or with a
difference that is not one of 64 bits. -/
theorem not_real_of_refused {a : Action Unit ProfilerCall} (hStep : machine.step c a = some c')
    (hRefused : matched.allows c a = false) :
    ∃ c'', machine.Reaches matched c' c'' ∧ ∃ m ∈ c''.shared.measured, ¬ m.Real := by
  cases a with
  | spawn call => simp [Guard.allows, matched] at hRefused
  | run i x =>
      simp only [Machine.step] at hStep
      simp only [Guard.allows] at hRefused
      split at hStep
      next f below hThread =>
        rw [hThread] at hRefused
        obtain ⟨r, hExec, rfl⟩ := Option.map_eq_some_iff.mp hStep
        have hNext : (c.threads.set i (r.2 ++ below))[i]? = some (r.2 ++ below) := by
          obtain ⟨hLt, -⟩ := List.getElem?_eq_some_iff.mp hThread
          simp [hLt]
        cases f with
        | destruct scope =>
            simp only [matched, Bool.or_eq_false_iff, Bool.not_eq_false'] at hRefused
            obtain ⟨hOn, hOff⟩ := hRefused
            obtain ⟨s', fs⟩ := r
            cases step_of_exec (show exec c.shared (.destruct scope) () = _ from hExec) with
            | unmeasured _ hNone => exact absurd (hNone.symm.trans hOn) Bool.false_ne_true
            | measures =>
                obtain ⟨c'', hReach, hMem⟩ :=
                  reaches_measured (c := ⟨_, _⟩) hNext (by rw [hOff]; rfl)
                refine ⟨c'', hReach, _, hMem, fun hReal => ?_⟩
                exact absurd (hOff.symm.trans hReal.constructedOn) Bool.false_ne_true
        | readEnd scope =>
            simp only [matched, Bool.or_eq_false_iff, Bool.not_eq_false',
              decide_eq_false_iff_not] at hRefused
            cases hExec
            refine ⟨_, .refl, _, List.mem_append_right _ (List.mem_singleton.mpr rfl), ?_⟩
            intro hReal
            have hDuration : machineDuration _ = c.shared.clock - scope.constructedAt :=
              hReal.duration
            have hLe := machineDuration_le
              (Measurement.sample ⟨scope, c.shared.timeNowUsec, c.shared.clock⟩)
            omega
        | _ => simp [matched] at hRefused
      next => simp at hStep

/-- **When durations are real.**  In every run whose steps all meet the guard, each
call of a recording function is for a scope constructed with profiling on and gives the
time between its two ends; and wherever such a run takes a step that does not meet it, it
goes on to a call that is not.  This is for a profiler in any state. -/
theorem durations_real_iff (profiler : GraphProfiler) (clock : Int)
    (c : Config Profiling ScopeFrame)
    (hReach : machine.Reaches matched (initial profiler clock) c) :
    (∀ m ∈ c.shared.measured, m.Real) ∧
      ∀ a c', machine.step c a = some c' →
        (matched.allows c a = true ↔
          ∀ c'', machine.Reaches matched c' c'' → ∀ m ∈ c''.shared.measured, m.Real) := by
  refine ⟨(timed hReach).2, fun a c' hStep => ⟨fun hOk c'' hRest => ?_, fun hReal => ?_⟩⟩
  · exact (timed ((Transition.Reach.tail hReach hOk hStep).trans hRest)).2
  · by_contra hNot
    obtain ⟨c'', hRest, m, hMem, hUnreal⟩ :=
      not_real_of_refused hStep (Bool.eq_false_iff.mpr hNot)
    exact hUnreal (hReal c'' hRest m hMem)

/-- A profiler initialized for one node. -/
def oneNode : GraphProfiler where
  config := { enableProfiler := true }
  nodeData := [("n", { intervalSizeUsec := 10, numIntervals := 3, buckets := [0, 0, 0] })]
  isInitialized := true

/-- Two scopes that overlap, with a pause in between. -/
theorem durations_real_pause :
    ∃ c, machine.Reaches matched (initial oneNode 1000) c ∧
      c.shared.measured.map Measurement.sample = [(1002, 1009), (1000, 1009)] ∧
      ∀ m ∈ c.shared.measured, m.Real := by
  obtain ⟨c, hReach, hEnd⟩ := machine.exists_reaches matched (initial oneNode 1000)
    [.spawn .start, .spawn (.scope .openEvent "n" true), .run 1 (), .run 1 (),
      .spawn (.tick 2), .spawn (.scope .processEvent "n" true), .run 3 (), .run 3 (),
      .spawn .pause, .spawn (.tick 7), .spawn .resume, .run 3 (), .run 3 (), .run 3 (),
      .run 1 (), .run 1 ()]
    (fun c => decide (c.shared.measured.map Measurement.sample = [(1002, 1009), (1000, 1009)]))
    (by decide)
  exact ⟨c, hReach, of_decide_eq_true hEnd, (durations_real_iff oneNode 1000 c hReach).1⟩

/-- **A scope constructed before `Start`**: five microseconds are recorded as 1005. -/
theorem constructed_off_measured :
    ∃ c m, machine.Reaches Guard.all (initial oneNode 1000) c ∧ m ∈ c.shared.measured ∧
      m.scope.constructedOn = false ∧ m.destroyedAt - m.scope.constructedAt = 5 ∧
      machineDuration m.sample = 1005 ∧ c.shared.openRuntimeUsec "n" = 1005 ∧ ¬ m.Real := by
  obtain ⟨c, hReach, hEnd⟩ := machine.exists_reaches Guard.all (initial oneNode 1000)
    [.spawn (.scope .openEvent "n" true), .run 0 (), .spawn .start, .spawn (.tick 5),
      .run 0 (), .run 0 (), .run 0 ()]
    (fun c => decide (c.shared.openRuntimeUsec "n" = 1005) &&
      c.shared.measured.any fun m => !m.scope.constructedOn &&
        decide (m.destroyedAt - m.scope.constructedAt = 5) &&
        decide (machineDuration m.sample = 1005))
    (by decide)
  simp only [Bool.and_eq_true, List.any_eq_true, decide_eq_true_eq, Bool.not_eq_true'] at hEnd
  obtain ⟨hStore, m, hMem, ⟨hOff, hTime⟩, hDuration⟩ := hEnd
  refine ⟨c, m, hReach, hMem, hOff, hTime, hDuration, hStore, fun hReal => ?_⟩
  exact absurd (hOff.symm.trans hReal.constructedOn) Bool.false_ne_true

/-! ## What the profile shows -/

/-- A store of an open or close runtime is zero or comes from a recorded call. -/
def Stored (s : Profiling) (duration : Int) : Prop :=
  duration = 0 ∨ ∃ m ∈ s.measured, duration = machineDuration m.sample

theorem Stored.later {duration : Int} (hStored : Stored s duration)
    (hLater : s.measured ⊆ s'.measured) : Stored s' duration :=
  hStored.imp id fun ⟨m, hMem, hEq⟩ => ⟨m, hLater hMem, hEq⟩

/-- **The runtimes of a profile are real**, under the guard: zero, or the time between
the two ends of a scope constructed with profiling on. -/
theorem stored_real (hReach : machine.Reaches matched (initial profiler clock) c)
    (name : String) :
    Stored c.shared (c.shared.openRuntimeUsec name) ∧
      Stored c.shared (c.shared.closeRuntimeUsec name) := by
  refine Machine.invariant_with
    (J := fun s fs => ∀ f ∈ fs, Timed s f)
    (I := fun s _ => Stored s (s.openRuntimeUsec name) ∧ Stored s (s.closeRuntimeUsec name))
    (fun c hReach => (timed hReach).1) ⟨Or.inl rfl, Or.inl rfl⟩ ?_ ?_ hReach
  · rintro s A f B ⟨⟩ s' fs hFrames ⟨hOpen, hClose⟩ _ hExec
    have hStep := step_of_exec hExec
    have hMeasured := hStep.later.measured
    cases hStep with
    | records m _ hRecord =>
        obtain ⟨-, -, hStores⟩ := record_spec hRecord
        have hHere : Stored s' (machineDuration m.sample) :=
          Or.inr ⟨m, hMeasured (hFrames (.record m) (by simp)), rfl⟩
        constructor
        · rcases (hStores name).1 with hSame | hNew
          · exact hSame ▸ hOpen.later hMeasured
          · exact hNew ▸ hHere
        · rcases (hStores name).2 with hSame | hNew
          · exact hSame ▸ hClose.later hMeasured
          · exact hNew ▸ hHere
    | _ => exact ⟨hOpen.later hMeasured, hClose.later hMeasured⟩
  · intro s A call s' fs _ hHere _ hSpawn
    cases call with
    | reset =>
        cases hSpawn
        exact ⟨Or.inl rfl, Or.inl rfl⟩
    | _ =>
        cases hSpawn
        exact hHere

end Scope

end GraphRuntime.Profiler
