import GraphRuntime.Lib.Ownership
import GraphRuntime.Scheduler.OpenOutputs
import GraphRuntime.Scheduler.Reschedule

/-!
# Who sends on the streams of a node

The output managers of a node and the input managers behind their mirrors are written by
`RunNode` calls of the node, in `PostProcess` and `Close`, and by the propagations these
make.  With `MaxInFlight` 1 there is one such call at a time, up to its `DecrementPending`;
the call that closes the outputs after the finalize run does so beyond it
(`RunPc.closesLate`), when another worker may already have taken up the node again.

`Frame.Aside` is a frame that has no part in the streams of the node.  Its steps leave
them alone (`Untouching`), and leave frames of the same kind, except that a worker may take
up the node (`aside_of_exec`).  `closesAlone` says that none does as long as an earlier
call of the node is still closing; then it finds nobody at work (`not_busy_of_takesUp`).
-/

namespace GraphRuntime.Scheduler

open GraphRuntime.Stream Interleaving

variable {g : Graph} {s s' : Shared} {f : Frame} {fs A B : List Frame} {x : Choice}

/-- A node as `Initialize` makes it: one invocation at a time, its managers its own, fresh,
and with one mirror for each consumer. -/
structure SoleFeeder (g : Graph) (outputs : OutId → OutputStreamManager) (n : NodeId) :
    Prop where
  maxInFlight : g.maxInFlight n = 1
  outputs_nodup : (g.outputs n).Nodup
  feeds : ∀ o ∈ g.outputs n, Feeds g outputs n o
  consumers_nodup : ∀ o ∈ g.outputs n, (consumers g outputs o).Nodup
  unset : ∀ o ∈ g.outputs n, (outputs o).nextTimestampBound = Timestamp.unset
  opened : ∀ o ∈ g.outputs n, (outputs o).closed = false

/-! ## Calls at work -/

/-- `OutputStreamHandler::Close` for `kClose`, which `RunNode` calls after
`DecrementPending`. -/
def RunPc.closesLate : RunPc → Bool
  | .act .kClose | .closeOutputs _ false => true
  | _ => false

/-- The call may still write the output managers of its node. -/
def RunPc.busy (pc : RunPc) : Bool := pc.holdsPending || pc.closesLate

def Frame.closesLate (n : NodeId) : Frame → Bool
  | .run r pc => decide (r.node = n) && pc.closesLate
  | _ => false

/-- No worker takes up the node while an earlier call of it is still closing its
outputs. -/
def closesAlone (g : Graph) (n : NodeId) : Guard Shared Frame Choice Call where
  exec := fun s others f _ =>
    match f with
    | .runNextTask q =>
        match (s.queues q).tryPop g.less with
        | none => true
        | some (item, _) =>
            decide (item.node ≠ n) || others.all fun other => !other.closesLate n
    | _ => true
  spawn := fun _ _ _ => true

@[simp] theorem busy_closeOutputs (rest : List OutId) (stopped : Bool) :
    (RunPc.closeOutputs rest stopped).busy = true := by
  cases stopped <;> rfl

theorem busy_of_outputsLeft {pc : RunPc} {o : OutId} (hMem : o ∈ pc.outputsLeft) :
    pc.busy = true := by
  cases pc with
  | postProcess rest status => rfl
  | closeOutputs rest stopped => exact busy_closeOutputs rest stopped
  | _ => exact absurd hMem List.not_mem_nil

/-- A call that is at work was so before. -/
theorem runStep_busy {r r' : Invocation} {pc pc' : RunPc} {t : Turn (Invocation × RunPc)}
    (hTurn : runStep g s r x pc = some t) (hNext : t.next = some (r', pc'))
    (hBusy : pc'.busy = true) : pc.busy = true := by
  revert hTurn
  fun_cases runStep g s r x pc
  all_goals intro hTurn; cases hTurn
  all_goals cases hNext
  all_goals try unfold afterAct at hBusy
  all_goals repeat' split at hBusy
  all_goals first
    | rfl
    | exact absurd hBusy Bool.false_ne_true
    | exact hBusy
    | exact busy_closeOutputs _ _

/-! ## What a step does to a manager and to the counter of a queue -/

/-- A frame that writes manager `o`. -/
def Frame.writes (o : OutId) : Frame → Prop
  | .run _ pc => o ∈ pc.outputsLeft
  | .closeManager o' => o' = o
  | .api (.injectPacket o' _) => o' = o
  | _ => False

theorem setOutput_of_ne {o o' : OutId} (m : OutputStreamManager) (hNe : o ≠ o') :
    (s.setOutput o' m).net.outputs o = s.net.outputs o := Function.update_of_ne hNe ..

theorem propagateThen_of_ne {π : Type} {o o' : OutId} {bound : Timestamp}
    {shard : OutputStreamShard} {callees : List Frame} {pc : π} (hNe : o ≠ o') :
    (propagateThen s o' bound shard callees pc).state.net.outputs o = s.net.outputs o :=
  setOutput_of_ne _ hNe

/-- **Who writes a manager.** -/
theorem exec_output {o : OutId} (hStep : exec g s f x = some (s', fs)) :
    s'.net.outputs o = s.net.outputs o ∨ f.writes o := by
  cases f with
  | run r pc =>
      obtain ⟨t, hTurn, rfl, rfl⟩ := exec_run hStep
      by_cases hLeft : o ∈ pc.outputsLeft
      · exact Or.inr hLeft
      · left
        revert hTurn
        fun_cases runStep g s r x pc
        all_goals intro hTurn; cases hTurn
        all_goals first
          | rfl
          | exact propagateThen_of_ne fun hEq => hLeft (hEq ▸ List.mem_cons_self)
          | exact congrArg (fun s => s.net.outputs o) (scheduleNode_eq g s _)
  | handleIdle pc =>
      obtain ⟨rfl, rfl⟩ := exec_handleIdle hStep
      obtain ⟨_, _, _, _, _, _, hState⟩ := idleStep_frame g s pc
      exact Or.inl (by rw [hState])
  | start pc =>
      obtain ⟨t, hTurn, rfl, rfl⟩ := exec_start hStep
      obtain ⟨_, _, _, _, _, _, hState⟩ := startStep_frame hTurn
      exact Or.inl (by rw [hState])
  | api pc =>
      obtain ⟨t, hTurn, rfl, rfl⟩ := exec_api hStep
      revert hTurn
      fun_cases apiStep g s pc
      case case3 o' packet shard bound =>
        intro hTurn
        cases hTurn
        by_cases hEq : o = o'
        · exact Or.inr hEq.symm
        · exact Or.inl (propagateThen_of_ne hEq)
      all_goals intro hTurn; cases hTurn
      all_goals try split
      all_goals exact Or.inl rfl
  | arrival n =>
      have hState : s' = (scheduleNode g s n).1 :=
        (congrArg Prod.fst (Option.some.inj hStep)).symm
      exact Or.inl (by rw [hState, scheduleNode_eq])
  | closeManager o' =>
      by_cases hEq : o = o'
      · exact Or.inr hEq.symm
      · left
        simp only [exec] at hStep
        split at hStep <;> cases hStep
        · rfl
        · exact setOutput_of_ne _ hEq
  | _ =>
      left
      simp only [exec] at hStep
      repeat' split at hStep
      all_goals cases hStep
      all_goals rfl

/-- **Who counts**: a call that takes its timestamp. -/
theorem exec_counter (q : QueueId) (hStep : exec g s f x = some (s', fs)) :
    (s'.queues q).timestampCounter = (s.queues q).timestampCounter ∨
      ∃ r, f = .run r (.popInputs []) ∧ r.queue = q ∧
        (s'.queues q).timestampCounter = (s.queues q).timestampCounter + 1 := by
  by_cases hPop : ∃ r, f = .run r (.popInputs [])
  · obtain ⟨r, rfl⟩ := hPop
    obtain ⟨t, hTurn, rfl, rfl⟩ := exec_run hStep
    simp only [runStep] at hTurn
    split at hTurn <;> cases hTurn
    · exact Or.inl rfl
    · by_cases hQueue : r.queue = q
      · subst hQueue
        exact Or.inr ⟨r, rfl, rfl, by simp⟩
      · exact Or.inl (by simp [Ne.symm hQueue])
  · left
    have hChange := exec_queue q hStep
    generalize s'.queues q = queue at hChange ⊢
    cases hChange with
    | counted _ r => exact absurd ⟨r, rfl⟩ hPop
    | decided _ r b =>
        unfold SchedulerQueue.decideFinalize
        repeat' split
        all_goals rfl
    | _ => rfl

/-! ## Frames that have no part in the streams of a node -/

section

variable {outputs : OutId → OutputStreamManager} {n : NodeId}

/-- The managers have the mirrors and the specs of `outputs`. -/
def WiredAs (outputs : OutId → OutputStreamManager) (s : Shared) : Prop :=
  ∀ o, (s.net.outputs o).mirrors = (outputs o).mirrors ∧
    (s.net.outputs o).spec = (outputs o).spec

theorem WiredAs.exec (hWired : WiredAs outputs s) (hStep : Scheduler.exec g s f x = some (s', fs)) :
    WiredAs outputs s' := by
  intro o
  obtain ⟨hMirrors, hSpec⟩ := exec_wiring hStep o
  exact ⟨hMirrors.trans (hWired o).1, hSpec.trans (hWired o).2⟩

/-- A propagation that goes to no consumer of the node. -/
def Misses (g : Graph) (outputs : OutId → OutputStreamManager) (n : NodeId)
    (p : Propagation) : Prop :=
  ∀ o ∈ g.outputs n, ∀ t ∈ consumers g outputs o, t ∉ p.targets g.routes

/-- The frame neither writes an output manager of node `n` nor the input managers behind
it, and is no call of the node at work. -/
def Frame.Aside (g : Graph) (outputs : OutId → OutputStreamManager) (n : NodeId) :
    Frame → Prop
  | .run r pc => (∀ o ∈ pc.outputsLeft, o ∈ g.outputs r.node) ∧ (r.node = n → pc.busy = false)
  | .propagate p | .propagateBound p => Misses g outputs n p
  | .closeManager o | .api (.injectPacket o _) => o ∉ g.outputs n
  | _ => True

/-- A worker pops an item of node `n`. -/
def TakesUp (g : Graph) (s : Shared) (n : NodeId) (f : Frame) : Prop :=
  ∃ q it queue, f = .runNextTask q ∧ (s.queues q).tryPop g.less = some (it, queue) ∧
    it.node = n

theorem mem_targets_of_target {p : Propagation} {t : StreamId} (hTarget : target g p = some t) :
    t ∈ p.targets g.routes := by
  obtain ⟨mirror, hHead, hResolve⟩ := Option.bind_eq_some_iff.mp hTarget
  exact List.mem_filterMap.mpr ⟨mirror, List.mem_of_head? hHead, hResolve⟩

theorem Misses.mono {p p' : Propagation} (hMisses : Misses g outputs n p)
    (hMirrors : p'.mirrors ⊆ p.mirrors) : Misses g outputs n p' :=
  fun o hOut t hConsumer hTarget =>
    hMisses o hOut t hConsumer (List.filterMap_subset _ hMirrors hTarget)

/-- A propagation for the manager of another node. -/
theorem misses_of_mirrors (hFeeder : SoleFeeder g outputs n) {o : OutId} {p : Propagation}
    (hMirrors : p.mirrors = (outputs o).mirrors) (hOther : o ∉ g.outputs n) :
    Misses g outputs n p := by
  intro o' hOut t hConsumer hTarget
  rw [Propagation.targets, hMirrors] at hTarget
  exact hOther ((hFeeder.feeds o' hOut).alone o t hConsumer hTarget ▸ hOut)

/-- The managers a call aside has left are those of another node. -/
theorem not_mem_of_outputsLeft (hFeeder : SoleFeeder g outputs n) {r : Invocation} {pc : RunPc}
    {o : OutId} (hAside : (Frame.run r pc).Aside g outputs n) (hLeft : o ∈ pc.outputsLeft) :
    o ∉ g.outputs n := by
  intro hOut
  have hNode : r.node = n := (hFeeder.feeds o hOut).owner r.node (hAside.1 o hLeft)
  exact Bool.false_ne_true ((hAside.2 hNode).symm.trans (busy_of_outputsLeft hLeft))

theorem misses_of_sent (hFeeder : SoleFeeder g outputs n) (hWired : WiredAs outputs s)
    {p : Propagation} (hAside : f.Aside g outputs n) (hSent : Sent g s p f) :
    Misses g outputs n p := by
  cases hSent with
  | onward p₀ hMirrors _ _ hFrame =>
      rcases hFrame with rfl | rfl
      · exact Misses.mono hAside hMirrors
      · exact Misses.mono hAside hMirrors
  | shard r pc o hLeft hMirrors =>
      exact misses_of_mirrors hFeeder (hMirrors.trans (hWired o).1)
        (not_mem_of_outputsLeft hFeeder hAside hLeft)
  | closed o hMirrors =>
      exact misses_of_mirrors hFeeder (hMirrors.trans (hWired o).1) hAside
  | injected o packet hMirrors =>
      exact misses_of_mirrors hFeeder (hMirrors.trans (hWired o).1) hAside

/-- **What a frame aside leaves**: frames aside, unless a worker takes up the node. -/
theorem aside_of_exec (hFeeder : SoleFeeder g outputs n) (hWired : WiredAs outputs s)
    (hAside : f.Aside g outputs n) (hStep : exec g s f x = some (s', fs)) :
    TakesUp g s n f ∨ ∀ f' ∈ fs, f'.Aside g outputs n := by
  by_cases hTakes : TakesUp g s n f
  · exact Or.inl hTakes
  right
  have hInner : ∀ {o name}, g.graphInputs.lookup name = some o → o ∉ g.outputs n :=
    fun hLookup hOut => (hFeeder.feeds _ hOut).inner _ hLookup
  intro f' hMem
  cases f' with
  | run r' pc' =>
      rcases run_of_exec hStep hMem with
        ⟨r, pc, t, rfl, hTurn, -, hNext⟩ | ⟨q, it, queue, rfl, hPop, -, rfl, rfl⟩
      · obtain ⟨-, hNode, -⟩ := runStep_next hTurn hNext
        constructor
        · intro o hLeft
          rcases runStep_outputsLeft hTurn hNext hLeft with hOld | hNew
          · exact hNode ▸ hAside.1 o hOld
          · exact hNew
        · intro hSame
          have hIdle := hAside.2 (hNode.symm.trans hSame)
          by_contra hBusy
          rw [runStep_busy hTurn hNext (Bool.not_eq_false _ ▸ hBusy)] at hIdle
          exact Bool.false_ne_true hIdle.symm
      · exact ⟨fun o hLeft => absurd hLeft List.not_mem_nil,
          fun hNode => absurd ⟨q, it, queue, rfl, hPop, hNode⟩ hTakes⟩
  | propagate p => exact misses_of_sent hFeeder hWired hAside (exec_sent hStep (Or.inl hMem))
  | propagateBound p => exact misses_of_sent hFeeder hWired hAside (exec_sent hStep (Or.inr hMem))
  | closeManager o =>
      rcases exec_closeManager hStep hMem with ⟨r, pc, rfl, hLeft⟩ | ⟨name, hLookup⟩
      · exact not_mem_of_outputsLeft hFeeder hAside hLeft
      · exact hInner hLookup
  | api pc =>
      cases pc with
      | injectPacket o packet =>
          obtain ⟨name, hLookup⟩ := inject_of_exec hStep hMem
          exact hInner hLookup
      | _ => trivial
  | _ => trivial

theorem aside_of_spawn {b : Call} (hSpawn : spawn g s b = some (s', fs)) :
    ∀ f' ∈ fs, f'.Aside g outputs n := by
  rcases spawn_cases hSpawn with ⟨q, -, -, -, rfl⟩ | ⟨-, pc, rfl, hCall⟩
  · simp [Frame.Aside]
  · rw [List.forall_mem_singleton]
    rcases hCall with ⟨_, _, _, rfl⟩ | ⟨_, _, rfl⟩ | ⟨_, rfl⟩ | ⟨_, rfl⟩ | ⟨_, rfl⟩ | ⟨_, rfl⟩ |
      ⟨_, rfl⟩ | ⟨_, rfl⟩
    all_goals trivial

/-- What a step leaves alone that writes no stream of node `n`. -/
structure Untouching (g : Graph) (outputs : OutId → OutputStreamManager) (n : NodeId)
    (s s' : Shared) : Prop where
  managers : ∀ o ∈ g.outputs n, s'.net.outputs o = s.net.outputs o
  streams : ∀ o ∈ g.outputs n, ∀ t ∈ consumers g outputs o,
    s'.stream t = s.stream t ∨ s'.stream t = (s.stream t).popQueueHead.2.2
  counter : (s.queues (g.queue n)).timestampCounter ≤ (s'.queues (g.queue n)).timestampCounter

theorem untouching_of_spawn {b : Call} (hSpawn : spawn g s b = some (s', fs)) :
    Untouching g outputs n s s' := by
  obtain ⟨tasks, rfl, -⟩ := spawn_frame hSpawn
  exact ⟨fun _ _ => rfl, fun _ _ _ _ => Or.inl rfl, le_rfl⟩

theorem untouching_of_exec (hWrites : ∀ o ∈ g.outputs n, ¬ f.writes o)
    (hMisses : ∀ p, f = .propagate p ∨ f = .propagateBound p → Misses g outputs n p)
    (hStep : exec g s f x = some (s', fs)) : Untouching g outputs n s s' := by
  refine ⟨fun o hOut => (exec_output hStep).resolve_right (hWrites o hOut), ?_, ?_⟩
  · intro o hOut t hConsumer
    have hChange := exec_stream t hStep
    generalize s'.stream t = m at hChange ⊢
    cases hChange with
    | same => exact Or.inl rfl
    | popped => exact Or.inr rfl
    | added p _ hTarget =>
        exact absurd (mem_targets_of_target hTarget) (hMisses p (Or.inl rfl) o hOut t hConsumer)
    | bounded p _ hTarget =>
        exact absurd (mem_targets_of_target hTarget) (hMisses p (Or.inr rfl) o hOut t hConsumer)
  · rcases exec_counter (g.queue n) hStep with hSame | ⟨_, -, -, hMore⟩
    · exact hSame.ge
    · omega

theorem Frame.Aside.untouching (hFeeder : SoleFeeder g outputs n)
    (hAside : f.Aside g outputs n) (hStep : exec g s f x = some (s', fs)) :
    Untouching g outputs n s s' := by
  refine untouching_of_exec (fun o hOut hWrites => ?_) (fun p hFrame => ?_) hStep
  · cases f with
    | run r pc => exact not_mem_of_outputsLeft hFeeder hAside hWrites hOut
    | closeManager o' => exact hAside (hWrites ▸ hOut)
    | api pc =>
        cases pc with
        | injectPacket o' packet => exact hAside (hWrites ▸ hOut)
        | _ => exact hWrites
    | _ => exact hWrites
  · rcases hFrame with rfl | rfl
    · exact hAside
    · exact hAside

/-- **A worker that takes up the node finds no call of it at work.** -/
theorem not_busy_of_takesUp (hFeeder : SoleFeeder g outputs n) (hPlaced : Placed g s (A ++ f :: B))
    (hLimited : Limited g s (A ++ f :: B) n 1) (hTakes : TakesUp g s n f)
    (hGuard : (closesAlone g n).exec s (A ++ B) f x = true) {r : Invocation} {pc : RunPc}
    (hMem : .run r pc ∈ A ++ B) (hNode : r.node = n) : pc.busy = false := by
  obtain ⟨q, it, queue, rfl, hPop, rfl⟩ := hTakes
  obtain ⟨hItem, -⟩ := SchedulerQueue.tryPop_eq_some hPop
  obtain ⟨hIs, hQueue, -⟩ := hPlaced.item q it hItem
  have hBefore : .run r pc ∈ A ++ .runNextTask q :: B := mem_of_others hMem
  have hWaiting : 0 < waiting g s it.node := by
    unfold waiting
    rw [hQueue, ← hIs]
    exact List.count_pos_iff.mpr hItem
  have hNone : (A ++ .runNextTask q :: B).countP (Frame.inFlight it.node) = 0 := by
    have hCovers := hLimited.covers
    have hBounded := hLimited.bounded
    unfold balance at hCovers
    omega
  have hHolds : pc.holdsPending = false := by
    have hNot := List.countP_eq_zero.mp hNone _ hBefore
    have hOpen := (hPlaced.run r pc hBefore).2.1
    simpa [Frame.inFlight, hNode, hOpen] using hNot
  have hLate : pc.closesLate = false := by
    simp only [closesAlone, hPop, ne_eq, not_true_eq_false, decide_false, Bool.false_or,
      List.all_eq_true, Bool.not_eq_true'] at hGuard
    simpa [Frame.closesLate, hNode] using hGuard _ hMem
  simp [RunPc.busy, hHolds, hLate]

end

end GraphRuntime.Scheduler
