import GraphRuntime.Scheduler.Termination

/-!
# `Schedule`, the synchronous path

`Scheduler::Schedule` opens the nodes, calls `Process` of every source once and
of every other node after it, and closes the nodes, all in the calling thread;
it writes the same fields as the asynchronous path, and the public calls can
come from other threads meanwhile.  `runtime` is the machine of
`Machine.lean` with a `schedule` frame added; a run of it is one call of `Start`
or of `Schedule` (`Entry`) with whatever happens around it.

The frames of the asynchronous path step as before, so an invariant of theirs
needs, to hold in `runtime`, a case for the steps of `Schedule`
(`runtime_invariant`).

* The loop `while (any_source_active && ...)` clears its flag first and never
  sets it again, so it runs its body at most once.
* `downstream->Process` is called with empty shards that nobody reads.
* The iteration over `active_sources_` is over the set as it was when it began;
  changing the set under it is undefined in the source.
-/

namespace GraphRuntime.Scheduler

open GraphRuntime.Stream Interleaving

/-- Where `Scheduler::Schedule` stands. -/
inductive SchedulePc
  | begin
  | assign (rest : List NodeId)
  | openNodes (rest : List NodeId)
  | openFailed
  | insertSource (n : NodeId) (rest : List NodeId)
  | testLoop
  | nextSource (count : Int) (rest : List NodeId)
  | process (count : Int) (n : NodeId) (rest : List NodeId)
  | sourceError
  | postProcess (r : Invocation) (outs : List OutId) (count : Int)
      (rest : List NodeId) (stopped : Bool)
  | eraseSource (n : NodeId) (count : Int) (rest : List NodeId)
  | nextDownstream (nodes : List NodeId) (count : Int) (rest : List NodeId)
  | processDownstream (n : NodeId) (nodes : List NodeId) (count : Int)
      (rest : List NodeId)
  | downstreamError (count : Int) (rest : List NodeId)
  | closeNodes (rest : List NodeId)

/-- `count` is `processed_count_`. -/
def scheduleStep (g : Graph) (s : Shared) (x : Choice) :
    SchedulePc → Option (Turn SchedulePc)
  | .begin => some (goto { s with state := .kRunning } (.assign g.nodes))
  | .assign (n :: rest) =>
      some (goto { s with assigned := Function.update s.assigned n true }
        (.assign rest))
  | .assign [] => some (goto s (.openNodes g.nodes))
  | .openNodes (n :: rest) =>
      match x with
      | .step => none
      | .returns status _ =>
          let s' := s.record (.opened n status)
          some (if !status.isOk then ⟨s', [.userError status], some .openFailed⟩
            else goto s' (if g.isSource n then .insertSource n rest
              else .openNodes rest))
  | .openNodes [] => some (goto s .testLoop)
  | .openFailed => some (ret { s with state := .kTerminated })
  | .insertSource n rest =>
      some (goto
        { s with
          activeSources :=
            if n ∈ s.activeSources then s.activeSources
            else s.activeSources ++ [n] }
        (.openNodes rest))
  | .testLoop =>
      some (goto s (if s.stopping || s.hasError then .closeNodes g.nodes
        else .nextSource 0 s.activeSources))
  | .nextSource _ [] => some (goto s (.closeNodes g.nodes))
  | .nextSource count (n :: rest) =>
      some (if s.stopping || s.hasError then goto s (.closeNodes g.nodes)
        else goto (s.record (.processCalled n [])) (.process count n rest))
  | .process count n rest =>
      match x with
      | .step => none
      | .returns status writes =>
          let s' := s.record (.processReturned n status)
          let r : Invocation :=
            { queue := g.queue n, node := n, timestamp := Timestamp.ofValue count
              outputs := applyWrites (fun _ => {}) writes }
          some (if status.isError then
              ⟨s', [.userError status], some .sourceError⟩
            else goto s' (.postProcess r (g.outputs n) count rest status.isStopStatus))
  | .sourceError => some (goto { s with hasError := true } (.closeNodes g.nodes))
  | .postProcess r (o :: outs) count rest stopped =>
      if (s.net.outputs o).closed then
        some (goto s (.postProcess r outs count rest stopped))
      else
        let shard := r.outputs (s.net.port o)
        let bound :=
          (s.net.outputs o).computeOutputTimestampBound shard r.timestamp
        some (propagateThen s o bound shard
          (if shard.closed then [.closeManager o] else [])
          (.postProcess (r.clear s.net o) outs count rest stopped))
  | .postProcess r [] count rest stopped =>
      some (goto s (if stopped then .eraseSource r.node count rest
        else .nextDownstream g.nodes count rest))
  | .eraseSource n count rest =>
      some (goto { s with activeSources := s.activeSources.filter (· ≠ n) }
        (.nextSource count rest))
  | .nextDownstream [] count rest => some (goto s (.nextSource (count + 1) rest))
  | .nextDownstream (n :: nodes) count rest =>
      some (if s.stopping || s.hasError then goto s (.nextSource (count + 1) rest)
        else if g.isSource n then goto s (.nextDownstream nodes count rest)
        else goto (s.record (.processCalled n []))
          (.processDownstream n nodes count rest))
  | .processDownstream n nodes count rest =>
      match x with
      | .step => none
      | .returns status _ =>
          let s' := s.record (.processReturned n status)
          some (if status.isError then
              ⟨s', [.userError status], some (.downstreamError count rest)⟩
            else goto s' (.nextDownstream nodes count rest))
  | .downstreamError count rest =>
      some (goto { s with hasError := true } (.nextSource (count + 1) rest))
  | .closeNodes (n :: rest) =>
      some (goto (s.record (.closed n)) (.closeNodes rest))
  | .closeNodes [] => some ⟨{ s with state := .kTerminated }, [.notifyAll], none⟩

/-! ## The machine of both paths -/

inductive RuntimeFrame
  | schedule (pc : SchedulePc)
  | async (f : Frame)

def runtimeExec (g : Graph) (s : Shared) (f : RuntimeFrame) (x : Choice) :
    Option (Shared × List RuntimeFrame) :=
  match f with
  | .async f => (exec g s f x).map fun r => (r.1, r.2.map .async)
  | .schedule pc =>
      (scheduleStep g s x pc).map fun t =>
        (t.state, t.calls.map .async ++ (t.next.map .schedule).toList)

def runtimeSpawn (g : Graph) (s : Shared) (b : Call) :
    Option (Shared × List RuntimeFrame) :=
  (spawn g s b).map fun r => (r.1, r.2.map .async)

def runtime (g : Graph) : Machine Shared RuntimeFrame Choice Call :=
  ⟨runtimeExec g, runtimeSpawn g⟩

/-- The call a run is about. -/
inductive Entry
  | start
  | schedule
deriving DecidableEq

def Entry.frame : Entry → RuntimeFrame
  | .start => .async (.start .begin)
  | .schedule => .schedule .begin

/-- A run of the graph by one of the two calls. -/
def launched (e : Entry) (s : Shared) : Config Shared RuntimeFrame := ⟨s, [[e.frame]]⟩

def RuntimeFrame.async? : RuntimeFrame → Option Frame
  | .async f => some f
  | .schedule _ => none

/-- The frames of the asynchronous path. -/
def asyncFrames (fs : List RuntimeFrame) : List Frame := fs.filterMap RuntimeFrame.async?

section

variable (f : Frame) (pc : SchedulePc) (fs gs : List RuntimeFrame) (l : List Frame)

@[simp] theorem asyncFrames_nil : asyncFrames [] = [] := rfl

@[simp] theorem asyncFrames_append :
    asyncFrames (fs ++ gs) = asyncFrames fs ++ asyncFrames gs := List.filterMap_append

@[simp] theorem asyncFrames_cons_async :
    asyncFrames (.async f :: fs) = f :: asyncFrames fs := rfl

@[simp] theorem asyncFrames_cons_schedule :
    asyncFrames (.schedule pc :: fs) = asyncFrames fs := rfl

@[simp] theorem asyncFrames_map : asyncFrames (l.map .async) = l := by
  induction l with
  | nil => rfl
  | cons f l ih => rw [List.map_cons, asyncFrames_cons_async, ih]

@[simp] theorem asyncFrames_schedule (next : Option SchedulePc) :
    asyncFrames (next.map RuntimeFrame.schedule).toList = [] := by
  cases next <;> rfl

@[simp] theorem mem_asyncFrames : f ∈ asyncFrames fs ↔ .async f ∈ fs := by
  simp only [asyncFrames, List.mem_filterMap]
  constructor
  · rintro ⟨f', hMem, hEq⟩
    cases f' with
    | async f' => cases hEq; exact hMem
    | schedule pc => cases hEq
  · intro hMem
    exact ⟨.async f, hMem, rfl⟩

end

variable {g : Graph} {s s' : Shared} {f : Frame} {x : Choice}

/-- A step is one of the asynchronous path or one of `Schedule`. -/
theorem runtimeExec_cases {f : RuntimeFrame} {fs : List RuntimeFrame}
    (hStep : runtimeExec g s f x = some (s', fs)) :
    (∃ f₀ fs₀, f = .async f₀ ∧ exec g s f₀ x = some (s', fs₀) ∧
        fs = fs₀.map .async) ∨
      (∃ pc t, f = .schedule pc ∧ scheduleStep g s x pc = some t ∧ s' = t.state ∧
        fs = t.calls.map .async ++ (t.next.map .schedule).toList) := by
  cases f with
  | async f =>
      obtain ⟨r, hExec, hOut⟩ := Option.map_eq_some_iff.mp hStep
      cases hOut
      exact Or.inl ⟨f, r.2, rfl, hExec, rfl⟩
  | schedule pc =>
      obtain ⟨t, hTurn, hOut⟩ := Option.map_eq_some_iff.mp hStep
      cases hOut
      exact Or.inr ⟨pc, t, rfl, hTurn, rfl, rfl⟩

/-- **Invariant rule for both paths.**  `I` is about the frames of the
asynchronous path, `J` an invariant established earlier. -/
theorem runtime_invariant {G : Guard Shared RuntimeFrame Choice Call}
    {J : Shared → List RuntimeFrame → Prop} {I : Shared → List Frame → Prop}
    {c₀ c : Config Shared RuntimeFrame}
    (hJ : ∀ c, (runtime g).Reaches G c₀ c → J c.shared c.frames)
    (hInit : I c₀.shared (asyncFrames c₀.frames))
    (hAsync : ∀ s A f B x s' fs, J s (A ++ .async f :: B) →
      I s (asyncFrames A ++ f :: asyncFrames B) → G.exec s (A ++ B) (.async f) x = true →
      exec g s f x = some (s', fs) → I s' (asyncFrames A ++ (fs ++ asyncFrames B)))
    (hSchedule : ∀ s A pc B x t, J s (A ++ .schedule pc :: B) →
      I s (asyncFrames A ++ asyncFrames B) → G.exec s (A ++ B) (.schedule pc) x = true →
      scheduleStep g s x pc = some t →
      I t.state (asyncFrames A ++ (t.calls ++ asyncFrames B)))
    (hSpawn : ∀ s A b s' fs, I s A → spawn g s b = some (s', fs) → I s' (A ++ fs))
    (hReach : (runtime g).Reaches G c₀ c) : I c.shared (asyncFrames c.frames) := by
  refine Machine.invariant_with (I := fun s fs => I s (asyncFrames fs)) hJ hInit ?_ ?_ hReach
  · intro s A f B x s' fs hJs hIs hGuard hStep
    rcases runtimeExec_cases hStep with
      ⟨f, fs, rfl, hExec, rfl⟩ | ⟨pc, t, rfl, hTurn, rfl, rfl⟩
    · simpa using hAsync s A f B x s' fs hJs (by simpa using hIs) hGuard hExec
    · simpa using hSchedule s A pc B x t hJs (by simpa using hIs) hGuard hTurn
  · intro s A b s' fs _ hIs _ hStep
    obtain ⟨r, hExec, hOut⟩ := Option.map_eq_some_iff.mp hStep
    cases hOut
    simpa using hSpawn s (asyncFrames A) b r.1 r.2 hIs hExec

/-- A call that finishes on the asynchronous path finishes here, too. -/
theorem Finishes.runtime {stack : List Frame}
    (hFinishes : (machine g).Finishes x s stack s') :
    (runtime g).Finishes x s (stack.map .async) s' := by
  induction hFinishes with
  | nil s => exact .nil s
  | @cons s s₁ s₂ f fs below hExec _ ih =>
      have hStep : runtimeExec g s (.async f) x = some (s₁, fs.map .async) := by
        have hExec' : exec g s f x = some (s₁, fs) := hExec
        simp [runtimeExec, hExec']
      rw [List.map_append] at ih
      exact .cons hStep ih

/-! ## What a step of `Schedule` changes -/

/-- `Schedule` changes output managers, nodes and the scheduler's own fields. -/
theorem scheduleStep_frame {pc : SchedulePc} {t : Turn SchedulePc}
    (hTurn : scheduleStep g s x pc = some t) :
    ∃ outputs assigned state hasError activeSources log, t.state =
      { s with
        net := { s.net with outputs := outputs }
        assigned := assigned, state := state, hasError := hasError
        activeSources := activeSources, log := log } := by
  revert hTurn
  fun_cases scheduleStep g s x pc
  all_goals intro hTurn; cases hTurn
  all_goals repeat' split
  all_goals exact ⟨_, _, _, _, _, _, rfl⟩

/-- What `Schedule` calls. -/
def Frame.scheduled : Frame → Bool
  | .userError _ | .propagate _ | .closeManager _ | .notifyAll => true
  | _ => false

theorem scheduleStep_calls {pc : SchedulePc} {t : Turn SchedulePc}
    (hTurn : scheduleStep g s x pc = some t) : ∀ f ∈ t.calls, f.scheduled = true := by
  revert hTurn
  fun_cases scheduleStep g s x pc
  all_goals intro hTurn; cases hTurn
  all_goals repeat' split
  all_goals simp only [propagateThen, List.forall_mem_cons, List.not_mem_nil,
    IsEmpty.forall_iff, implies_true, and_true]
  all_goals first
    | rfl
    | exact ⟨rfl, rfl⟩

theorem scheduleStep_state {pc : SchedulePc} {t : Turn SchedulePc}
    (hTurn : scheduleStep g s x pc = some t) :
    t.state.state = s.state ∨ pc = .begin ∨
      (t.state.state = .kTerminated ∧ (pc = .openFailed ∨ pc = .closeNodes [])) := by
  revert hTurn
  fun_cases scheduleStep g s x pc
  all_goals intro hTurn; cases hTurn
  all_goals repeat' split
  all_goals first
    | exact Or.inl rfl
    | exact Or.inr (Or.inl rfl)
    | exact Or.inr (Or.inr ⟨rfl, Or.inl rfl⟩)
    | exact Or.inr (Or.inr ⟨rfl, Or.inr rfl⟩)

theorem scheduleStep_hasError {pc : SchedulePc} {t : Turn SchedulePc}
    (hTurn : scheduleStep g s x pc = some t) :
    t.state.hasError = s.hasError ∨ (t.state.hasError = true ∧
      (pc = .sourceError ∨ ∃ count rest, pc = .downstreamError count rest)) := by
  revert hTurn
  fun_cases scheduleStep g s x pc
  all_goals intro hTurn; cases hTurn
  all_goals repeat' split
  all_goals first
    | exact Or.inl rfl
    | exact Or.inr ⟨rfl, Or.inl rfl⟩
    | exact Or.inr ⟨rfl, Or.inr ⟨_, _, rfl⟩⟩

theorem scheduleStep_begin {pc : SchedulePc} {t : Turn SchedulePc}
    (hTurn : scheduleStep g s x pc = some t) : t.next ≠ some .begin := by
  revert hTurn
  fun_cases scheduleStep g s x pc
  all_goals intro hTurn; cases hTurn
  all_goals repeat' split
  all_goals simp [propagateThen]

/-- A node stays assigned. -/
theorem scheduleStep_assigned {pc : SchedulePc} {t : Turn SchedulePc} {n : NodeId}
    (hTurn : scheduleStep g s x pc = some t) (hAssigned : s.assigned n = true) :
    t.state.assigned n = true := by
  revert hTurn
  fun_cases scheduleStep g s x pc
  all_goals intro hTurn; cases hTurn
  all_goals repeat' split
  all_goals first
    | exact hAssigned
    | simp [Function.update_apply, hAssigned]

/-- Items and calls are placed in both paths. -/
theorem placed_of_runtime {G : Guard Shared RuntimeFrame Choice Call}
    {outputs : OutId → OutputStreamManager} {defaultQueue : QueueId}
    {errorCallback : Bool} {e : Entry} {c : Config Shared RuntimeFrame}
    (hReach : (runtime g).Reaches G
      (launched e (initial outputs defaultQueue errorCallback)) c) :
    Placed g c.shared (asyncFrames c.frames) := by
  refine runtime_invariant (J := fun _ _ => True) (fun _ _ => trivial) ?_ ?_ ?_ ?_ hReach
  · refine ⟨fun q it hMem => absurd hMem List.not_mem_nil, fun r pc hMem => ?_⟩
    cases e <;> simp [Config.frames, launched, Entry.frame] at hMem
  · intro s A f B x s' fs _ hPlaced _ hStep
    exact hPlaced.exec hStep
  · intro s A pc B x t _ hPlaced _ hTurn
    have hKeep : ∀ n, s.assigned n = true → t.state.assigned n = true :=
      fun n => scheduleStep_assigned hTurn
    obtain ⟨_, _, _, _, _, _, hState⟩ := scheduleStep_frame hTurn
    have hQueues : t.state.queues = s.queues := by rw [hState]
    constructor
    · intro q it hMem
      rw [hQueues] at hMem
      obtain ⟨hItem, hQueue, hAssigned⟩ := hPlaced.item q it hMem
      exact ⟨hItem, hQueue, hKeep _ hAssigned⟩
    · intro r pc' hMem
      have hOld : .run r pc' ∈ asyncFrames A ++ asyncFrames B := by
        rcases mem_new_or_others hMem with hCall | hOther
        · exact absurd (scheduleStep_calls hTurn _ hCall) Bool.false_ne_true
        · exact hOther
      obtain ⟨hQueue, hOpen, hAssigned, hPc⟩ := hPlaced.run r pc' hOld
      exact ⟨hQueue, hOpen, hKeep _ hAssigned, hPc⟩
  · intro s A b s' fs hPlaced hSpawn
    exact hPlaced.spawn hSpawn

/-! ## `HandleIdle` in both paths -/

theorem countP_of_scheduled {P : Frame → Bool} {l : List Frame}
    (hIdle : ∀ f, P f = true → ∃ pc, f = .handleIdle pc)
    (hCalls : ∀ f ∈ l, f.scheduled = true) : l.countP P = 0 := by
  rw [List.countP_eq_zero]
  intro f hMem hP
  obtain ⟨pc, rfl⟩ := hIdle f hP
  exact absurd (hCalls _ hMem) (by simp [Frame.scheduled])

/-- One call of `HandleIdle` at a time, in both paths. -/
theorem exclusive_of_runtime {G : Guard Shared RuntimeFrame Choice Call}
    {outputs : OutId → OutputStreamManager} {defaultQueue : QueueId}
    {errorCallback : Bool} {e : Entry} {c : Config Shared RuntimeFrame}
    (hReach : (runtime g).Reaches G
      (launched e (initial outputs defaultQueue errorCallback)) c) :
    Exclusive c.shared (asyncFrames c.frames) := by
  refine runtime_invariant (J := fun _ _ => True) (fun _ _ => trivial) ?_ ?_ ?_ ?_ hReach
  · cases e
    · exact ⟨rfl, by simp [Config.frames, launched, Entry.frame, Frame.holdsIdle]⟩
    · exact ⟨rfl, by simp [Config.frames, launched, Entry.frame]⟩
  · intro s A f B x s' fs _ hExclusive _ hStep
    exact hExclusive.exec hStep
  · intro s A pc B x t _ hExclusive _ hTurn
    obtain ⟨_, _, _, _, _, _, hState⟩ := scheduleStep_frame hTurn
    have hCalls := scheduleStep_calls hTurn
    have hNoEntered : t.calls.countP Frame.entered = 0 :=
      countP_of_scheduled (fun f hEntered => (pc_of_entered hEntered).imp fun _ h => h.1) hCalls
    have hNoHolder : t.calls.countP Frame.holdsIdle = 0 :=
      countP_of_scheduled
        (fun f hHolds => (pc_of_entered (entered_of_holdsIdle hHolds)).imp fun _ h => h.1) hCalls
    obtain ⟨hCount, hHolder⟩ := hExclusive
    rw [hState]
    simp only [List.countP_append] at hCount hHolder ⊢
    refine ⟨?_, ?_⟩
    · rw [List.countP_append, List.countP_append, hNoEntered, Nat.zero_add]
      exact hCount
    · rw [List.countP_append, List.countP_append, hNoHolder, Nat.zero_add]
      exact hHolder
  · intro s A b s' fs hExclusive hSpawn
    exact hExclusive.spawn hSpawn

end GraphRuntime.Scheduler
