import Mathlib
import GraphRuntime.Scheduler.Finalize
import GraphRuntime.Scheduler.QueueOperations

/-!
# How often a node runs after its inputs are done

Once the inputs of a node are done, each invocation whose `Process` returns OK takes
a step of the finalize protocol, and the second finalizes the node.  The stop path
and the error path of `RunNode` return before that, so `DrainInputQueues` finds the
node done and not finalized on every pass and adds it again: a node that keeps
returning `Stop` is scheduled for ever (`reschedules_forever`).

With `settles` every `Process` of the node returns OK, no packet comes after done,
and no request that was decided earlier is carried out after the finalize.  Then at
most `MaxInFlight + 1` further invocations are started, and the second one to decide
finalizes the node (`rescheduling_bounded`).  The proof is by a potential: calls made,
plus what is queued or about to call.
-/

namespace GraphRuntime.Scheduler

open GraphRuntime.Stream Interleaving

variable {g : Graph} {s s' : Shared} {f : Frame} {fs A B : List Frame} {x : Choice}
  {n : NodeId}

/-! ## Restrictions on one node -/

/-- Every `Process` of the node that returns returns OK. -/
def returnsOk (n : NodeId) : Guard Shared Frame Choice Call where
  exec := fun _ _ f x =>
    match f, x with
    | .run r .inProcess, .returns status _ => decide (r.node ≠ n) || status.isOk
    | _, _ => true
  spawn := fun _ _ _ => true

/-- No packet is delivered to an input of the node that is done. -/
def silentWhenDone (g : Graph) (n : NodeId) : Guard Shared Frame Choice Call where
  exec := fun s _ f _ =>
    match f with
    | .propagate p =>
        match target g p with
        | some t => decide (t ∉ g.inputs n) || !(s.stream t).isDone || p.packets.isEmpty
        | none => true
    | _ => true
  spawn := fun _ _ _ => true

/-- `AddNode` takes no request for the node once it is finalized. -/
def restsWhenFinalized (g : Graph) (n : NodeId) : Guard Shared Frame Choice Call where
  exec := fun s _ f _ =>
    decide (f.schedules ≠ some n) || !accepts g s n || !finalized g s n
  spawn := fun _ _ _ => true

def settles (g : Graph) (n : NodeId) : Guard Shared Frame Choice Call :=
  (returnsOk n).and ((silentWhenDone g n).and (restsWhenFinalized g n))

/-- A done input stays done. -/
theorem exec_isDone_silent {t : StreamId} (hPort : t ∈ g.inputs n)
    (hGuard : (silentWhenDone g n).exec s (A ++ B) f x = true)
    (hStep : exec g s f x = some (s', fs)) (hDone : (s.stream t).isDone = true) :
    (s'.stream t).isDone = true := by
  refine isDone_of_exec hStep hDone ?_
  rintro p rfl hTarget
  simpa [silentWhenDone, hTarget, hPort, hDone] using hGuard

/-! ## `pending_count_` -/

/-- The calls and items of a node are covered by its count, and the count by a bound
of `MaxInFlight`. -/
structure Limited (g : Graph) (s : Shared) (fs : List Frame) (n : NodeId) (k : Int) :
    Prop where
  covers : (fs.countP (Frame.inFlight n) : Int) ≤ balance g s n
  bounded : s.pendingCount n ≤ k

theorem Placed.stocked (hPlaced : Placed g s A) : Stocked g s A := by
  refine ⟨fun q it hMem => ?_, fun r pc hMem hOpen => ?_, fun r pc hMem _ => ?_⟩
  · obtain ⟨hItem, hQueue, -⟩ := hPlaced.item q it hMem
    exact ⟨hQueue, Or.inl hItem⟩
  · exact absurd hOpen (by simp [(hPlaced.run r pc hMem).2.1])
  · rintro rfl
    exact (hPlaced.run r _ hMem).2.2.2

theorem limited_of_reaches {G : Guard Shared Frame Choice Call}
    {outputs : OutId → OutputStreamManager} {defaultQueue : QueueId}
    {errorCallback : Bool} {c : Config Shared Frame} {k : Int}
    (hMax : g.maxInFlight n ≤ k) (hPos : 0 ≤ k)
    (hReach : (machine g).Reaches G
      (started (initial outputs defaultQueue errorCallback)) c) :
    Limited g c.shared c.frames n k := by
  refine Machine.invariant_with (J := Placed g) (I := fun s fs => Limited g s fs n k)
    (fun c hReach => placed_of_reaches hReach) ?_ ?_ ?_ hReach
  · refine ⟨?_, hPos⟩
    simp [Config.frames, started, balance, waiting, initial, Frame.inFlight]
  · intro s A f B x s' fs hPlaced hLimited _ hStep
    exact ⟨covers_exec hPlaced.stocked hLimited.covers hStep,
      exec_bounded hMax hLimited.bounded hStep⟩
  · intro s A b s' fs _ hLimited _ hSpawn
    have hNone : fs.countP (Frame.inFlight n) = 0 :=
      countP_inFlight_of_not_run n (not_run_of_spawn hSpawn)
    obtain ⟨tasks, rfl, -⟩ := spawn_frame hSpawn
    refine ⟨?_, hLimited.bounded⟩
    rw [List.countP_append, hNone]
    exact hLimited.covers

/-! ## Counting calls -/

/-- A property of `RunNode` calls, as one of frames. -/
def Frame.runsWith (P : Invocation → RunPc → Bool) : Frame → Bool
  | .run r pc => P r pc
  | _ => false

/-- On its way to `Process`. -/
def RunPc.starting : RunPc → Bool
  | .popInputs _ | .prepareOutputs _ => true
  | _ => false

/-- In `Process`, or on its way from there to the decision that all inputs are
done. -/
def RunPc.deciding : RunPc → Bool
  | .inProcess | .scanDone _ | .decide true => true
  | .postProcess _ status => status.isOk
  | _ => false

def Frame.starts (n : NodeId) : Frame → Bool :=
  Frame.runsWith fun r pc => decide (r.node = n) && pc.starting

def Frame.decides (n : NodeId) : Frame → Bool :=
  Frame.runsWith fun r pc => decide (r.node = n) && pc.deciding

/-- 1 when the node has been found done once. -/
def mark (g : Graph) (s : Shared) (n : NodeId) : Nat :=
  if n ∈ (s.queues (g.queue n)).closePending then 1 else 0

theorem countP_runs_of_not_run {P : Invocation → RunPc → Bool} {l : List Frame}
    (hNotRun : ∀ f ∈ l, ∀ r pc, f ≠ .run r pc) : l.countP (Frame.runsWith P) = 0 := by
  rw [List.countP_eq_zero]
  intro f hMem
  cases f with
  | run r pc => exact absurd rfl (hNotRun _ hMem r pc)
  | _ => simp [Frame.runsWith]

/-- What a step of `RunNode` leaves of itself. -/
theorem countP_runs {P : Invocation → RunPc → Bool} {r : Invocation} {pc : RunPc}
    {t : Turn (Invocation × RunPc)} (hTurn : runStep g s r x pc = some t) :
    (t.calls ++ (t.next.map runFrame).toList).countP (Frame.runsWith P) =
      if t.next.any (fun p => P p.1 p.2) then 1 else 0 := by
  have hCalls : t.calls.countP (Frame.runsWith P) = 0 :=
    countP_runs_of_not_run fun f hMem => (runStep_calls hTurn f hMem).2
  rw [List.countP_append, hCalls, zero_add]
  cases t.next with
  | none => rfl
  | some p =>
      cases hP : P p.1 p.2 with
      | true => simp [runFrame, Frame.runsWith, hP]
      | false => simp [runFrame, Frame.runsWith, hP]

/-- Only `RunNode` calls `Process`. -/
theorem exec_called (hStep : exec g s f x = some (s', fs)) :
    called s' n ≤ called s n ∨
      ∃ r, f = .run r (.prepareOutputs []) ∧ r.node = n ∧ called s' n = called s n + 1 := by
  have hChange := exec_log hStep
  unfold called
  generalize s'.log = log at hChange ⊢
  cases hChange with
  | processCalled r =>
      by_cases hNode : r.node = n
      · exact Or.inr ⟨r, rfl, hNode, by simp [List.countP_append, Event.calls, hNode]⟩
      · exact Or.inl (by simp [List.countP_append, Event.calls, hNode])
  | _ => exact Or.inl (by simp [List.countP_append, Event.calls])

/-- Items are added by accepted requests only. -/
theorem exec_waiting (hStep : exec g s f x = some (s', fs)) :
    waiting g s' n ≤ waiting g s n ∨
      (f.schedules = some n ∧ accepts g s n = true ∧ waiting g s' n = waiting g s n + 1) := by
  unfold waiting
  have hChange := exec_queue (g.queue n) hStep
  generalize s'.queues (g.queue n) = queue at hChange ⊢
  cases hChange with
  | pushed _ _ m hQueue hSchedules hAccepts =>
      by_cases hNode : m = n
      · subst hNode
        exact Or.inr ⟨hSchedules, hAccepts, by simp [SchedulerQueue.push]⟩
      · left
        have hNe : g.item m ≠ g.item n := fun hEq => hNode (g.item_injective hEq)
        simp [SchedulerQueue.push, hNe]
  | popped it => exact Or.inl (List.erase_sublist.count_le _)
  | cleaned => exact Or.inl (by simp [SchedulerQueue.cleanupAfterRun])
  | decided => exact Or.inl (by rw [decideFinalize_items])
  | _ => exact Or.inl le_rfl

theorem runStep_starting {r r' : Invocation} {pc pc' : RunPc} {t : Turn (Invocation × RunPc)}
    (hTurn : runStep g s r x pc = some t) (hNext : t.next = some (r', pc'))
    (hStarting : pc'.starting = true) : pc.starting = true ∧ pc ≠ .prepareOutputs [] := by
  revert hTurn
  fun_cases runStep g s r x pc
  all_goals
    intro hTurn
    cases hTurn <;> cases hNext
  all_goals first
    | exact absurd hStarting Bool.false_ne_true
    | exact ⟨rfl, by simp⟩
    | skip
  all_goals try unfold afterProcess at hStarting
  all_goals try unfold afterAct at hStarting
  all_goals repeat' split at hStarting
  all_goals exact absurd hStarting Bool.false_ne_true

/-- An item that is popped is about to call. -/
theorem waiting_popped {q : QueueId} (hPlaced : Placed g s (A ++ .runNextTask q :: B))
    (hStep : exec g s (.runNextTask q) x = some (s', fs)) :
    waiting g s' n + fs.countP (Frame.starts n) ≤ waiting g s n := by
  simp only [exec] at hStep
  split at hStep
  · cases hStep
    simp [Frame.starts, Frame.runsWith]
  · rename_i it queue hPop
    obtain ⟨hMem, rfl⟩ := SchedulerQueue.tryPop_eq_some hPop
    obtain ⟨hItem, hQueue, -⟩ := hPlaced.item q it hMem
    cases hStep
    by_cases hNode : it.node = n
    · subst hNode
      have hPos : 0 < (s.queues q).items.count it := List.count_pos_iff.mpr hMem
      unfold waiting
      rw [hQueue, ← hItem]
      simp [Frame.starts, Frame.runsWith, RunPc.starting]
      omega
    · have hNone : ([.run { queue := q, node := it.node, isOpen := it.isOpenNode }
          (.popInputs (g.inputPorts it.node)), .onTaskFinished q] : List Frame).countP
            (Frame.starts n) = 0 := by
        simp [Frame.starts, Frame.runsWith, hNode]
      rw [hNone, Nat.add_zero]
      unfold waiting
      by_cases hSame : g.queue n = q
      · simpa [hSame] using List.erase_sublist.count_le (g.item n)
      · simp [hSame]

/-- **The potential**: calls made, items, and calls about to be made.  Only an accepted
request adds to it. -/
theorem exec_potential (hPlaced : Placed g s (A ++ f :: B))
    (hStep : exec g s f x = some (s', fs)) :
    called s' n + waiting g s' n + fs.countP (Frame.starts n) ≤
        called s n + waiting g s n + [f].countP (Frame.starts n) ∨
      (f.schedules = some n ∧ accepts g s n = true ∧
        called s' n + waiting g s' n + fs.countP (Frame.starts n) ≤
          called s n + waiting g s n + [f].countP (Frame.starts n) + 1) := by
  have hWaiting := exec_waiting (n := n) hStep
  have hCalled := exec_called (n := n) hStep
  by_cases hRun : ∃ r pc, f = .run r pc
  · obtain ⟨r, pc, rfl⟩ := hRun
    -- the call itself goes on starting, or calls `Process`, or was not starting
    have hSelf : called s' n + fs.countP (Frame.starts n) ≤
        called s n + [Frame.run r pc].countP (Frame.starts n) := by
      obtain ⟨t, hTurn, rfl, rfl⟩ := exec_run hStep
      rw [Frame.starts, countP_runs hTurn]
      cases hNext : t.next with
      | none =>
          rcases hCalled with hSame | ⟨r', hEq, hNode, hMore⟩
          · simp only [Option.any_none, Bool.false_eq_true, if_false]
            omega
          · cases hEq
            simp [Frame.runsWith, hNode, RunPc.starting]
            omega
      | some p =>
          obtain ⟨r', pc'⟩ := p
          have hNode := (runStep_next hTurn hNext).2.1
          by_cases hStarting : r'.node = n ∧ pc'.starting = true
          · obtain ⟨hBefore, hNot⟩ := runStep_starting hTurn hNext hStarting.2
            have hSame : called t.state n ≤ called s n := by
              refine hCalled.resolve_right ?_
              rintro ⟨r₀, hEq, -⟩
              cases hEq
              exact hNot rfl
            simp [Frame.runsWith, hStarting, hBefore, ← hNode]
            omega
          · have hNone : (decide (r'.node = n) && pc'.starting) = false := by
              simpa using hStarting
            simp only [Option.any_some, hNone, Bool.false_eq_true, if_false]
            rcases hCalled with hSame | ⟨r₀, hEq, hIs, hMore⟩
            · omega
            · cases hEq
              simp [Frame.runsWith, hIs, RunPc.starting]
              omega
    rcases hWaiting with hFewer | ⟨hSchedules, hAccepts, hMore⟩
    · left
      omega
    · exact Or.inr ⟨hSchedules, hAccepts, by omega⟩
  have hQuiet : called s' n ≤ called s n := by
    refine hCalled.resolve_right ?_
    rintro ⟨r, rfl, -⟩
    exact hRun ⟨r, _, rfl⟩
  have hTop : [f].countP (Frame.starts n) = 0 :=
    countP_runs_of_not_run fun f' hMem r pc hEq =>
      hRun ⟨r, pc, List.mem_singleton.mp hMem ▸ hEq⟩
  by_cases hTask : ∃ q, f = .runNextTask q
  · obtain ⟨q, rfl⟩ := hTask
    left
    have hMoved := waiting_popped (n := n) hPlaced hStep
    omega
  · simp only [not_exists] at hRun hTask
    have hLeft : fs.countP (Frame.starts n) = 0 :=
      countP_runs_of_not_run (not_run_of_exec hRun hTask hStep)
    rcases hWaiting with hFewer | ⟨hSchedules, hAccepts, hMore⟩
    · left
      omega
    · exact Or.inr ⟨hSchedules, hAccepts, by omega⟩

/-! ## Decisions -/

theorem afterProcess_of_isOk {status : Status} (hNode : g.isSource n = false)
    (hOk : status.isOk = true) : afterProcess g n status = .scanDone (g.inputs n) := by
  simp [afterProcess, Status.isStopStatus_of_isOk hOk, hOk, hNode]

/-- With its inputs done a call goes on to the decision that they are. -/
theorem runStep_deciding {r : Invocation} {pc : RunPc} {t : Turn (Invocation × RunPc)}
    (hTurn : runStep g s r x pc = some t) (hDeciding : pc.deciding = true)
    (hNotYet : pc ≠ .decide true) (hNode : g.isSource r.node = false)
    (hPlaced : pc.Placed g r.node)
    (hDone : ∀ t ∈ g.inputs r.node, (s.stream t).isDone = true)
    (hOk : ∀ status writes, pc = .inProcess → x = .returns status writes → status.isOk = true) :
    ∃ r' pc', t.next = some (r', pc') ∧ pc'.deciding = true := by
  cases pc with
  | inProcess =>
      cases x with
      | step => cases hTurn
      | returns status writes =>
          cases hTurn
          exact ⟨_, _, rfl, hOk status writes rfl rfl⟩
  | postProcess rest status =>
      cases rest with
      | nil =>
          cases hTurn
          refine ⟨_, _, rfl, ?_⟩
          rw [afterProcess_of_isOk hNode hDeciding]
          rfl
      | cons o rest =>
          simp only [runStep] at hTurn
          split at hTurn
          · cases hTurn
            exact ⟨_, _, rfl, hDeciding⟩
          · cases hTurn
            exact ⟨_, _, rfl, hDeciding⟩
  | scanDone rest =>
      cases rest with
      | nil =>
          cases hTurn
          exact ⟨_, _, rfl, rfl⟩
      | cons u rest =>
          cases hTurn
          refine ⟨_, _, rfl, ?_⟩
          rw [if_pos (hDone u (hPlaced u List.mem_cons_self))]
          rfl
  | decide b =>
      cases b with
      | true => exact absurd rfl hNotYet
      | false => exact absurd hDeciding Bool.false_ne_true
  | _ => exact absurd hDeciding Bool.false_ne_true

/-- A node found done stays so, until it is finalized. -/
theorem mark_mono (hStep : exec g s f x = some (s', fs))
    (hNot : finalized g s' n = false) : mark g s n ≤ mark g s' n := by
  unfold mark
  by_cases hBefore : n ∈ (s.queues (g.queue n)).closePending
  · have hAfter : n ∈ (s'.queues (g.queue n)).closePending := by
      rcases exec_marks (g.queue n) hStep with ⟨hSame, -⟩ | ⟨r, b, -, -, hQueue⟩
      · rwa [hSame]
      · have hEither := (decideFinalize_marks (s.queues (g.queue n)) r.node b n).mpr
          (Or.inl (Or.inl hBefore))
        rw [← hQueue] at hEither
        refine hEither.resolve_right fun hFinal => ?_
        simp [finalized, SchedulerQueue.isFinalized, hFinal] at hNot
    rw [if_pos hBefore, if_pos hAfter]
  · rw [if_neg hBefore]
    exact Nat.zero_le _

theorem queue_of_decide {r : Invocation} {b : Bool} (hQueue : r.queue = g.queue r.node)
    (hStep : exec g s (.run r (.decide b)) x = some (s', fs)) :
    s'.queues (g.queue r.node) =
      ((s.queues (g.queue r.node)).decideFinalize r.node b).2 := by
  obtain ⟨t, hTurn, rfl, -⟩ := exec_run hStep
  cases hTurn
  simp [hQueue]

/-- A node that has been found done is finalized by the next decision. -/
theorem finalized_of_pending {r : Invocation} (hQueue : r.queue = g.queue r.node)
    (hPending : r.node ∈ (s.queues (g.queue r.node)).closePending)
    (hStep : exec g s (.run r (.decide true)) x = some (s', fs)) :
    finalized g s' r.node = true := by
  unfold finalized
  rw [queue_of_decide hQueue hStep]
  unfold SchedulerQueue.decideFinalize
  cases hFinal : (s.queues (g.queue r.node)).isFinalized r.node with
  | true => simp [hFinal]
  | false => simp [hPending, SchedulerQueue.isFinalized]

/-- The decision that all inputs are done. -/
theorem mark_of_decide {r : Invocation} (hQueue : r.queue = g.queue r.node)
    (hStep : exec g s (.run r (.decide true)) x = some (s', fs))
    (hNot : finalized g s' r.node = false) :
    mark g s r.node = 0 ∧ mark g s' r.node = 1 := by
  have hState := queue_of_decide hQueue hStep
  have hBefore : r.node ∉ (s.queues (g.queue r.node)).closePending := by
    intro hPending
    rw [finalized_of_pending hQueue hPending hStep] at hNot
    exact absurd hNot (by simp)
  simp only [finalized, SchedulerQueue.isFinalized, hState, decide_eq_false_iff_not] at hNot
  have hMarks := decideFinalize_marks (s.queues (g.queue r.node)) r.node true r.node
  have hAfter : r.node ∈ (s'.queues (g.queue r.node)).closePending := by
    rw [hState]
    exact (hMarks.mpr (Or.inr ⟨rfl, rfl⟩)).resolve_right hNot
  exact ⟨if_neg hBefore, if_pos hAfter⟩

/-- **Progress**: each call of `Process` is still before its decision, or its decision
has marked the node, or the node is finalized. -/
theorem exec_progress (hPlaced : Placed g s (A ++ f :: B)) (hNode : g.isSource n = false)
    (hDone : ∀ t ∈ g.inputs n, (s.stream t).isDone = true)
    (hGuard : (returnsOk n).exec s (A ++ B) f x = true)
    (hStep : exec g s f x = some (s', fs)) (hNot : finalized g s' n = false) :
    called s' n + [f].countP (Frame.decides n) + mark g s n ≤
      called s n + fs.countP (Frame.decides n) + mark g s' n := by
  have hCalled := exec_called (n := n) hStep
  have hMark := mark_mono hStep hNot
  by_cases hRun : ∃ r pc, f = .run r pc ∧ r.node = n
  · obtain ⟨r, pc, rfl, rfl⟩ := hRun
    obtain ⟨hQueue, -, -, hPc⟩ := hPlaced.run r pc (by simp)
    by_cases hDeciding : pc.deciding = true
    · have hTop : [Frame.run r pc].countP (Frame.decides r.node) = 1 := by
        simp [Frame.decides, Frame.runsWith, hDeciding]
      have hSame : called s' r.node ≤ called s r.node := by
        refine hCalled.resolve_right ?_
        rintro ⟨r₀, hEq, -⟩
        cases hEq
        exact Bool.false_ne_true hDeciding
      by_cases hNow : pc = .decide true
      · subst hNow
        obtain ⟨hBefore, hAfter⟩ := mark_of_decide hQueue hStep hNot
        omega
      · obtain ⟨t, hTurn, rfl, rfl⟩ := exec_run hStep
        obtain ⟨r', pc', hNext, hAfter⟩ := runStep_deciding hTurn hDeciding hNow hNode hPc hDone
          (fun status writes hPc hx => by subst hPc hx; simpa [returnsOk] using hGuard)
        have hLeft : (t.calls ++ (t.next.map runFrame).toList).countP
            (Frame.decides r.node) = 1 := by
          rw [Frame.decides, countP_runs hTurn, hNext]
          simp [hAfter, (runStep_next hTurn hNext).2.1]
        omega
    · have hTop : [Frame.run r pc].countP (Frame.decides r.node) = 0 := by
        simp [Frame.decides, Frame.runsWith, hDeciding]
      rcases hCalled with hSame | ⟨r₀, hEq, -, hMore⟩
      · omega
      · cases hEq
        have hLeft : fs.countP (Frame.decides r.node) = 1 := by
          obtain ⟨t, hTurn, rfl, rfl⟩ := exec_run hStep
          rw [Frame.decides, countP_runs hTurn]
          cases hTurn
          simp [RunPc.deciding]
        omega
  · have hTop : [f].countP (Frame.decides n) = 0 := by
      rw [List.countP_eq_zero]
      rintro f' hMem hIs
      obtain rfl := List.mem_singleton.mp hMem
      cases f' with
      | run r pc =>
          simp only [Frame.decides, Frame.runsWith, Bool.and_eq_true, decide_eq_true_eq] at hIs
          exact hRun ⟨r, pc, rfl, hIs.1⟩
      | _ => exact absurd hIs Bool.false_ne_true
    have hSame : called s' n ≤ called s n := by
      refine hCalled.resolve_right ?_
      rintro ⟨r, rfl, hIs, -⟩
      exact hRun ⟨r, _, rfl, hIs⟩
    omega

/-! ## The bound -/

/-- Where a node stands after its inputs are done: `base` calls had been made then. -/
structure Settling (g : Graph) (n : NodeId) (base k : Nat) (s : Shared) (fs : List Frame) :
    Prop where
  done : ∀ t ∈ g.inputs n, (s.stream t).isDone = true
  counted : called s n + waiting g s n + fs.countP (Frame.starts n) ≤ base + k + 1
  progress : finalized g s n = false →
    called s n ≤ base + fs.countP (Frame.decides n) + mark g s n

/-- Calls that start and calls that decide are different unfinished calls. -/
theorem starts_decides_le (hPlaced : Placed g s A) :
    A.countP (Frame.starts n) + A.countP (Frame.decides n) ≤ A.countP (Frame.inFlight n) := by
  have hOpen : ∀ r pc, .run r pc ∈ A → r.isOpen = false := fun r pc hMem =>
    (hPlaced.run r pc hMem).2.1
  clear hPlaced
  induction A with
  | nil => simp
  | cons f A ih =>
      have hRest := ih fun r pc hMem => hOpen r pc (List.mem_cons_of_mem _ hMem)
      have hTop : (if Frame.starts n f = true then 1 else 0) +
          (if Frame.decides n f = true then 1 else 0) ≤
            if Frame.inFlight n f = true then 1 else 0 := by
        cases f with
        | run r pc =>
            have hNot := hOpen r pc List.mem_cons_self
            have hOnly : pc.starting = true → pc.deciding = false ∧ pc.holdsPending = true := by
              cases pc <;> simp [RunPc.starting, RunPc.deciding, RunPc.holdsPending]
            have hHolds : pc.deciding = true → pc.holdsPending = true := by
              cases pc <;> simp [RunPc.deciding, RunPc.holdsPending]
            by_cases hIs : r.node = n
            · cases hStarting : pc.starting <;> cases hDeciding : pc.deciding <;>
                simp_all [Frame.starts, Frame.decides, Frame.runsWith, Frame.inFlight]
            · simp [Frame.starts, Frame.decides, Frame.runsWith, hIs]
        | _ => simp [Frame.starts, Frame.decides, Frame.runsWith]
      simp only [List.countP_cons]
      omega

theorem mark_le_one : mark g s n ≤ 1 := by
  unfold mark
  split
  · exact le_rfl
  · exact Nat.zero_le _

theorem Settling.exec {base k : Nat} (hNode : g.isSource n = false)
    (hMax : g.maxInFlight n ≤ k) (hPlaced : Placed g s (A ++ f :: B))
    (hLimited : Limited g s (A ++ f :: B) n k)
    (hSettling : Settling g n base k s (A ++ f :: B))
    (hGuard : (settles g n).exec s (A ++ B) f x = true)
    (hStep : Scheduler.exec g s f x = some (s', fs)) :
    Settling g n base k s' (A ++ (fs ++ B)) := by
  obtain ⟨hOk, hRest⟩ := Bool.and_eq_true_iff.mp hGuard
  obtain ⟨hSilent, hRests⟩ := Bool.and_eq_true_iff.mp hRest
  have hCounted := hSettling.counted
  have hUnfinished := starts_decides_le (n := n) hPlaced
  simp only [List.countP_append, List.countP_cons] at hCounted hUnfinished
  refine ⟨fun t hPort => exec_isDone_silent hPort hSilent hStep (hSettling.done t hPort), ?_, ?_⟩
  · rcases exec_potential (n := n) hPlaced hStep with hSame | ⟨hSchedules, hAccepts, hMore⟩
    · simp only [List.countP_append, List.countP_cons, List.countP_nil] at hSame ⊢
      omega
    · -- an accepted request: the node is not finalized, and below its limit
      have hNotFinal : finalized g s n = false := by
        simpa [restsWhenFinalized, hSchedules, hAccepts] using hRests
      have hProgress := hSettling.progress hNotFinal
      have hMark := mark_le_one (g := g) (s := s) (n := n)
      have hBelow : s.pendingCount n < g.maxInFlight n := by
        simp only [accepts, Bool.and_eq_true, decide_eq_true_eq] at hAccepts
        exact hAccepts.2
      have hCovers := hLimited.covers
      unfold balance at hCovers
      simp only [List.countP_append, List.countP_cons, List.countP_nil]
        at hProgress hCovers hMore ⊢
      omega
  · intro hNotFinal
    have hBefore : finalized g s n = false := by
      by_contra hFinal
      rw [exec_finalized hStep (by simpa using hFinal)] at hNotFinal
      exact absurd hNotFinal (by simp)
    have hProgress := hSettling.progress hBefore
    have hNext := exec_progress hPlaced hNode hSettling.done hOk hStep hNotFinal
    simp only [List.countP_append, List.countP_cons, List.countP_nil] at hProgress hNext ⊢
    omega

/-- **Bounded rescheduling.**  After the inputs of a node are done, at most
`MaxInFlight + 1` calls of its `Process` are made; and as soon as two of them have
taken their decision, the node is finalized. -/
theorem rescheduling_bounded {outputs : OutId → OutputStreamManager} {defaultQueue : QueueId}
    {errorCallback : Bool} {c c' : Config Shared Frame}
    (hBefore : (machine g).Reaches Guard.all
      (started (initial outputs defaultQueue errorCallback)) c)
    (hNode : g.isSource n = false)
    (hDone : ∀ t ∈ g.inputs n, (c.shared.stream t).isDone = true)
    (hAfter : (machine g).Reaches (settles g n) c c') :
    called c'.shared n ≤ called c.shared n + (g.maxInFlight n).toNat + 1 ∧
      (finalized g c'.shared n = true ∨
        called c'.shared n ≤ called c.shared n + c'.frames.countP (Frame.decides n) + 1) := by
  have hLater : ∀ d, (machine g).Reaches (settles g n) c d →
      Placed g d.shared d.frames ∧ Limited g d.shared d.frames n (g.maxInFlight n).toNat := by
    intro d hReach
    have hWhole := hBefore.trans ((machine g).reaches_all hReach)
    exact ⟨placed_of_reaches hWhole,
      limited_of_reaches (Int.self_le_toNat _) (Int.natCast_nonneg _) hWhole⟩
  have hSettling : Settling g n (called c.shared n) (g.maxInFlight n).toNat
      c'.shared c'.frames := by
    refine Machine.invariant_with
      (J := fun s fs => Placed g s fs ∧ Limited g s fs n (g.maxInFlight n).toNat)
      (I := Settling g n (called c.shared n) (g.maxInFlight n).toNat) hLater ?_ ?_ ?_ hAfter
    · obtain ⟨hPlaced, hLimited⟩ := hLater c .refl
      have hUnfinished := starts_decides_le (n := n) hPlaced
      obtain ⟨hCovers, hBounded⟩ := hLimited
      unfold balance at hCovers
      exact ⟨hDone, by omega, fun _ => by omega⟩
    · rintro s A f B x s' fs ⟨hPlaced, hLimited⟩ hSettling hGuard hStep
      exact hSettling.exec hNode (Int.self_le_toNat _) hPlaced hLimited hGuard hStep
    · rintro s A b s' fs - hSettling - hSpawn
      have hNotRun := not_run_of_spawn hSpawn
      obtain ⟨tasks, rfl, -⟩ := spawn_frame hSpawn
      have hStarts : fs.countP (Frame.starts n) = 0 := countP_runs_of_not_run hNotRun
      have hDecides : fs.countP (Frame.decides n) = 0 := countP_runs_of_not_run hNotRun
      obtain ⟨hDone, hCounted, hProgress⟩ := hSettling
      refine ⟨hDone, ?_, ?_⟩
      · rw [List.countP_append, hStarts]
        exact hCounted
      · rw [List.countP_append, hDecides]
        exact hProgress
  have hCounted := hSettling.counted
  refine ⟨by omega, ?_⟩
  cases hFinal : finalized g c'.shared n with
  | true => exact Or.inl rfl
  | false =>
      have hProgress := hSettling.progress hFinal
      have hMark := mark_le_one (g := g) (s := c'.shared) (n := n)
      exact Or.inr (by omega)

/-- The rule at work: a node whose input is closed runs twice. -/
theorem rescheduling_bounded_chain :
    ∃ c c' : Config Shared Frame, (c.shared.stream 0).isDone = true ∧
      called c.shared 0 = 0 ∧ called c'.shared 0 = 2 ∧
        finalized (.chain 1 id (by simp)) c'.shared 0 = true := by
  obtain ⟨c, c₁, c', hFirst, hDone, hStep, hLast, hTest⟩ :=
    (machine (.chain 1 id (by simp))).exists_reaches_through
      (settles (.chain 1 id (by simp)) 0) (started (chainInitial 1 false))
      (runs 0 19 .ok ++ calls (.closeInputStream "in") 1 16 .ok) (.spawn (.worker 0))
      (runs 2 30 .ok ++ calls (.worker 0) 3 31 .ok)
      (fun c => (c.shared.stream 0).isDone)
      (fun c c' => decide (called c.shared 0 = 0) && decide (called c'.shared 0 = 2) &&
        decide (c'.frames.countP (Frame.decides 0) = 0)) (by decide +kernel)
  simp only [Bool.and_eq_true, decide_eq_true_eq] at hTest
  obtain ⟨⟨hBefore, hAfter⟩, hDecided⟩ := hTest
  have hReach : (machine (.chain 1 id (by simp))).Reaches
      (settles (.chain 1 id (by simp)) 0) c c' :=
    Transition.Reach.trans (.tail .refl rfl hStep) hLast
  have hInputs : ∀ t ∈ (Graph.chain 1 id (by simp)).inputs 0,
      (c.shared.stream t).isDone = true := by
    intro t hMem
    obtain rfl : t = 0 := by simpa [Graph.inputs, Graph.chain] using hMem
    exact hDone
  have hBound := (rescheduling_bounded
    ((machine (.chain 1 id (by simp))).reaches_all hFirst) rfl hInputs hReach).2
  refine ⟨c, c', hDone, hBefore, hAfter, hBound.resolve_right ?_⟩
  omega

/-! ## A node that stops for ever -/

/-- The state of a chain of one node, as far as a run of the node depends on it. -/
structure Core where
  queue : SchedulerQueue
  input : InputStreamManager
  output : OutputStreamManager
  pendingCount : Int
  assigned : Bool
  tasks : Nat
  state : SchedulerState
  hasError : Bool
  handlingIdle : Int
  activeSources : List NodeId
  numClosedGraphInputStreams : Nat
deriving DecidableEq

def Shared.core (s : Shared) : Core where
  queue := s.queues 0
  input := s.net.streams 0
  output := s.net.outputs 1
  pendingCount := s.pendingCount 0
  assigned := s.assigned 0
  tasks := s.tasks 0
  state := s.state
  hasError := s.hasError
  handlingIdle := s.handlingIdle
  activeSources := s.activeSources
  numClosedGraphInputStreams := s.numClosedGraphInputStreams

def Shared.setCore (s : Shared) (k : Core) : Shared :=
  { s with
    net :=
      { outputs := Function.update s.net.outputs 1 k.output
        streams := Function.update s.net.streams 0 k.input }
    queues := Function.update s.queues 0 k.queue
    pendingCount := Function.update s.pendingCount 0 k.pendingCount
    assigned := Function.update s.assigned 0 k.assigned
    tasks := Function.update s.tasks 0 k.tasks
    state := k.state
    hasError := k.hasError
    handlingIdle := k.handlingIdle
    activeSources := k.activeSources
    numClosedGraphInputStreams := k.numClosedGraphInputStreams }

theorem Shared.setCore_core (s : Shared) : s.setCore s.core = s := by
  simp [Shared.setCore, Shared.core]

/-- The input is done, `Stop` has closed the output, the node is queued once more, and
nothing else is going on. -/
def stalled (count : Int) : Core where
  queue :=
    { running := true
      items := [{ node := 0 }]
      numPendingTasks := 1
      timestampCounter := count
      idleCallback := true
      sourceStoppedCallback := true }
  input := { nextTimestampBound := Timestamp.done }
  output := { chainOutputs 1 1 with closed := true, nextTimestampBound := Timestamp.done }
  pendingCount := 1
  assigned := true
  tasks := 1
  state := .kRunning
  hasError := false
  handlingIdle := 0
  activeSources := []
  numClosedGraphInputStreams := 1

/-- A step in which the node, if it is asked, returns `Stop`. -/
def Choice.stop : Choice := .returns Status.statusStop []

/-- A worker takes the task and runs to its end. -/
def stopOnce (s : Shared) (count : Int) : Option (Shared × List Frame) :=
  match spawn (.chain 1 id id_lt_one) (s.setCore (stalled count)) (.worker 0) with
  | none => none
  | some r => (machine (.chain 1 id id_lt_one)).runAlone .stop 45 r.1 r.2

theorem stopOnce_core (s : Shared) (count : Int) :
    (stopOnce s count).map (fun r => (r.1.core, r.2)) = some (stalled (count + 1), []) := by
  cbv

theorem stopOnce_log (s : Shared) (count : Int) :
    (stopOnce s count).map (fun r => r.1.log) =
      some (s.log ++ [.processCalled 0 [{ port := "in", done := true }]] ++
        [.processReturned 0 Status.statusStop]) := by
  cbv

/-- **One turn of the cycle**: the node stops, and is queued again. -/
theorem stalled_again {c : Config Shared Frame} {count : Int}
    (hCore : c.shared.core = stalled count) :
    ∃ c' : Config Shared Frame, (machine (.chain 1 id (by simp))).Reaches Guard.all c c' ∧
      c'.shared.core = stalled (count + 1) ∧ called c'.shared 0 = called c.shared 0 + 1 := by
  have hShared : c.shared.setCore (stalled count) = c.shared := by
    rw [← hCore, Shared.setCore_core]
  have hAfter := stopOnce_core c.shared count
  have hLog := stopOnce_log c.shared count
  unfold stopOnce at hAfter hLog
  rw [hShared] at hAfter hLog
  split at hAfter
  · exact absurd hAfter (by simp)
  · rename_i r hSpawn
    rw [hSpawn] at hLog
    obtain ⟨s₁, above⟩ := r
    obtain ⟨⟨s', stack⟩, hRun, hEq⟩ := Option.map_eq_some_iff.mp hAfter
    obtain ⟨hNext, rfl⟩ := Prod.mk.inj hEq
    simp only [hRun, Option.map_some, Option.some.injEq] at hLog
    refine ⟨⟨s', c.threads ++ [[]]⟩, ?_, hNext, ?_⟩
    · have hAlone : (machine (.chain 1 id (by simp))).Alone .stop c (.worker 0)
          ⟨s', c.threads ++ [[]]⟩ :=
        ⟨s₁, above, s', hSpawn, Machine.finishes_of_runAlone hRun, rfl⟩
      exact hAlone.reaches
    · simp [called, hLog, List.countP_append, Event.calls]

/-- **A node is rescheduled without end.**  Its input is done; it returns `Stop`, it is
not finalized, the drain adds it again, and it returns `Stop` again. -/
theorem reschedules_forever :
    ∃ c : Config Shared Frame,
      (machine (.chain 1 id (by simp))).Reaches Guard.all (started (chainInitial 1 false)) c ∧
      (c.shared.stream 0).isDone = true ∧
      ∀ bound : Nat, ∃ c' : Config Shared Frame,
        (machine (.chain 1 id (by simp))).Reaches Guard.all c c' ∧
        called c'.shared 0 = called c.shared 0 + bound ∧
        finalized (.chain 1 id (by simp)) c'.shared 0 = false := by
  obtain ⟨c, hReach, hTest⟩ := (machine (.chain 1 id (by simp))).exists_reaches Guard.all
    (started (chainInitial 1 false))
    (runs 0 19 .ok ++ calls (.closeInputStream "in") 1 16 .ok ++ calls (.worker 0) 2 47 .stop)
    (fun c => decide (c.shared.core = stalled 1)) (by decide +kernel)
  have hCore : c.shared.core = stalled 1 := of_decide_eq_true hTest
  have hInput : c.shared.stream 0 = (stalled 1).input := congrArg Core.input hCore
  refine ⟨c, hReach, by rw [hInput]; rfl, fun bound => ?_⟩
  have hCycle : ∃ c' : Config Shared Frame,
      (machine (.chain 1 id (by simp))).Reaches Guard.all c c' ∧
        called c'.shared 0 = called c.shared 0 + bound ∧
        c'.shared.core = stalled (1 + bound) := by
    induction bound with
    | zero => exact ⟨c, .refl, rfl, hCore⟩
    | succ bound ih =>
        obtain ⟨c₁, hFirst, hCalled, hStalled⟩ := ih
        obtain ⟨c', hTurn, hAgain, hMore⟩ := stalled_again hStalled
        refine ⟨c', Transition.Reach.trans hFirst hTurn, by omega, ?_⟩
        rw [hAgain]
        push_cast
        rw [add_assoc]
  obtain ⟨c', hRun, hCalled, hStalled⟩ := hCycle
  have hQueue : c'.shared.queues 0 = (stalled (1 + bound)).queue := congrArg Core.queue hStalled
  refine ⟨c', hRun, hCalled, ?_⟩
  unfold finalized
  change (c'.shared.queues 0).isFinalized 0 = false
  rw [hQueue]
  rfl

end GraphRuntime.Scheduler
