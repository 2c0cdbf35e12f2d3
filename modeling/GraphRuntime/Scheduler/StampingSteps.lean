import GraphRuntime.Scheduler.Stamping

/-!
# The steps of a call that stamps its outputs

One step of a call of the node leads from its place to the next one (`run_step`); a
propagation of it goes on to the next consumer (`sending_step`); and on top of a call that
closes the managers of the node only `Done` is announced (`closing_step`).  Each leaves the
node at rest or in the course of the call (`Settles`).
-/

namespace GraphRuntime.Scheduler

open GraphRuntime.Stream GraphRuntime.Config Interleaving

section

variable {g : Graph} {outputs : OutId → OutputStreamManager} {n : NodeId} {s s' : Shared}
  {f : Frame} {fs A B : List Frame} {x : Choice} {r : Invocation} {o : OutId} {k : Int}

/-! ## The steps of a call -/

/-- What every configuration of a run meets. -/
structure Grounded (g : Graph) (outputs : OutId → OutputStreamManager) (n : NodeId)
    (s : Shared) (fs : List Frame) : Prop where
  placed : Placed g s fs
  limited : Limited g s fs n 1
  wired : WiredAs outputs s
  low : 0 ≤ ticks g s n
  high : ticks g s n ≤ 2 ^ 62

/-- At rest with no part of the node in the stack, or in the course of a call. -/
def Settles (g : Graph) (outputs : OutId → OutputStreamManager) (n : NodeId) (s : Shared)
    (stack : List Frame) : Prop :=
  (Resting g outputs n s ∧ ∀ f ∈ stack, f.Aside g outputs n) ∨ Course g outputs n s stack

theorem Working.settles {stack : List Frame} (hWorking : Working g outputs n s stack) :
    Settles g outputs n s stack :=
  Or.inr ⟨[], stack, rfl, by simp, hWorking⟩

theorem aside_of_not_busy {pc : RunPc} (hBusy : pc.busy = false) :
    (Frame.run r pc).Aside g outputs n :=
  ⟨fun _ hLeft => absurd ((busy_of_outputsLeft hLeft).symm.trans hBusy) Bool.noConfusion,
    fun _ => hBusy⟩

theorem untouching_of_run {pc : RunPc} (hLeft : pc.outputsLeft = [])
    (hStep : exec g s (.run r pc) x = some (s', fs)) : Untouching g outputs n s s' := by
  refine untouching_of_exec (fun o _ hWrites => ?_) (fun p hFrame => ?_) hStep
  · have hMem : o ∈ pc.outputsLeft := hWrites
    rw [hLeft] at hMem
    exact List.not_mem_nil hMem
  · rcases hFrame with hEq | hEq
    · cases hEq
    · cases hEq

theorem Stage.settles {pc : RunPc} {post : List Frame} (hNode : r.node = n)
    (hStage : Stage g outputs n s r pc) (hPost : ∀ f ∈ post, f.Aside g outputs n) :
    Settles g outputs n s (.run r pc :: post) :=
  (Working.calling r pc post hNode hStage hPost).settles

/-- Where a call with empty shards goes on between the calls of the node. -/
theorem settles_of_resting {pc : RunPc} {post : List Frame} (hNode : r.node = n)
    (hResting : Resting g outputs n s) (hEmpty : ShardsEmpty g outputs n r)
    (hStage : pc.busy = true → Stage g outputs n s r pc ∨
      ∃ stopped, pc = .closeOutputs (g.outputs n) stopped)
    (hPost : ∀ f ∈ post, f.Aside g outputs n) : Settles g outputs n s (.run r pc :: post) := by
  cases hBusy : pc.busy with
  | false =>
      refine Or.inl ⟨hResting, ?_⟩
      rw [List.forall_mem_cons]
      exact ⟨aside_of_not_busy hBusy, hPost⟩
  | true =>
      rcases hStage hBusy with hHere | ⟨stopped, rfl⟩
      · exact hHere.settles hNode hPost
      · exact (Working.closing [] r (g.outputs n) stopped post hNode hEmpty
          (List.Subset.refl _) (by simp) (fun o hOut => Or.inl hOut) hPost).settles

/-- A call takes its timestamp. -/
theorem Resting.ready (hResting : Resting g outputs n s)
    (hSame : Untouching g outputs n s s') (hLow : 0 ≤ ticks g s n)
    (hStamp : r.timestamp.value = ticks g s n) (hTicks : ticks g s' n = ticks g s n + 1) :
    Stage g outputs n s' r (.prepareOutputs (g.outputs n)) := by
  obtain ⟨closed, hBounds⟩ := hResting
  refine ⟨closed, ⟨?_, ?_⟩, List.Subset.refl _, ?_, fun o hOut hDone => absurd hOut hDone⟩
  · rw [hStamp]
    exact hLow
  · rw [hStamp, hTicks]
    omega
  · rw [hStamp]
    exact hBounds.untouched hSame le_rfl

/-- The counter of a queue fits a timestamp. -/
theorem ofValue_value {count : Int} (hLow : 0 ≤ count) (hHigh : count < 2 ^ 62) :
    (Timestamp.ofValue count).value = count := by
  refine wrap64_of_range ?_ ?_
  · unfold int64Min
    omega
  · unfold int64Max
    omega

/-- `PrepareOutputs` for one manager. -/
theorem Ready.prepare {rest : List OutId} {closed : Bool} (hWired : WiredAs outputs s)
    (hReady : Ready g outputs n s r (o :: rest) closed) :
    Ready g outputs n s (r.prepare s.net o) rest closed := by
  refine ⟨hReady.ticked, fun _ hMem => hReady.subset (List.mem_cons_of_mem _ hMem),
    hReady.bounds, fun o' hOut' hDone => ?_⟩
  show Prepared closed (Function.update r.outputs (s.net.port o) _ (shardPort outputs o'))
  rw [hWired.port]
  by_cases hPort : shardPort outputs o' = shardPort outputs o
  · rw [hPort, Function.update_self]
    exact ⟨rfl, rfl, hReady.bounds.flag o (hReady.subset List.mem_cons_self)⟩
  · rw [Function.update_of_ne hPort]
    refine hReady.prepared o' hOut' ?_
    rw [List.mem_cons, not_or]
    exact ⟨fun hEq => hPort (hEq ▸ rfl), hDone⟩

/-- `Process` returns. -/
theorem Ready.posting {closed : Bool} {writes : List (String × ShardWrite)}
    (hNodup : (g.outputs n).Nodup) (hHigh : ticks g s n ≤ 2 ^ 62)
    (hReady : Ready g outputs n s r [] closed)
    (hWrites : stampsOnly r.timestamp writes = true) :
    Posting g outputs n s { r with outputs := applyWrites r.outputs writes } (g.outputs n)
      closed where
  ticked := hReady.ticked
  nodup := hNodup
  subset := List.Subset.refl _
  flag := hReady.bounds.flag
  emptied := by
    intro o hOut hWhen
    have hClosed : closed = true := hWhen.resolve_right (fun hNot => hNot hOut)
    have hPrepared := hReady.prepared o hOut List.not_mem_nil
    exact applyWrites_of_closed writes (hPrepared.flag.trans hClosed) hPrepared.queue
  sent := fun _ o hOut hSent => absurd hOut hSent
  left := by
    rintro rfl o hOut
    exact ⟨hReady.bounds.under rfl o hOut,
      stamped_applyWrites hWrites (hReady.prepared o hOut List.not_mem_nil) hReady.ticked.low
        (hReady.ticked.high.trans_le hHigh)⟩

/-- `PostProcess` has sent for all managers. -/
theorem Posting.done {closed : Bool} (hPosting : Posting g outputs n s r [] closed) :
    Resting g outputs n s ∧ ShardsEmpty g outputs n r :=
  ⟨⟨closed, hPosting.flag,
      fun hOpen o hOut => hPosting.sent hOpen o hOut List.not_mem_nil⟩,
    fun o hOut => hPosting.emptied o hOut (Or.inr List.not_mem_nil)⟩

/-- `PostProcess` skips a closed manager. -/
theorem Posting.skip {rest : List OutId} (hPosting : Posting g outputs n s r (o :: rest) true) :
    Posting g outputs n s r rest true where
  ticked := hPosting.ticked
  nodup := (List.nodup_cons.mp hPosting.nodup).2
  subset := fun _ hMem => hPosting.subset (List.mem_cons_of_mem _ hMem)
  flag := hPosting.flag
  emptied := fun o hOut _ => hPosting.emptied o hOut (Or.inl rfl)
  sent := fun hOpen => absurd hOpen Bool.noConfusion
  left := fun hOpen => absurd hOpen Bool.noConfusion

/-- The shards that `propagateThen` leaves: the one of `o` is cleared. -/
theorem clear_outputs (hWired : WiredAs outputs s) (r : Invocation) (o o' : OutId) :
    (r.clear s.net o).outputs (shardPort outputs o') =
      if shardPort outputs o' = shardPort outputs o then
        OutputStreamManager.clearShard (r.outputs (shardPort outputs o'))
      else r.outputs (shardPort outputs o') := by
  show Function.update r.outputs (s.net.port o) _ _ = _
  rw [hWired.port, Function.update_apply]
  split
  next hPort => rw [hPort]
  next => rfl

theorem clear_empty {o' : OutId} (hWired : WiredAs outputs s)
    (hEmpty : o' ≠ o → (r.outputs (shardPort outputs o')).outputQueue = []) :
    ((r.clear s.net o).outputs (shardPort outputs o')).outputQueue = [] := by
  rw [clear_outputs hWired]
  split
  · rfl
  · rename_i hPort
    exact hEmpty fun hEq => hPort (hEq ▸ rfl)

theorem Stamped.clear {o' : OutId} (hWired : WiredAs outputs s)
    (hStamped : Stamped k (r.outputs (shardPort outputs o'))) :
    Stamped k ((r.clear s.net o).outputs (shardPort outputs o')) := by
  rw [clear_outputs hWired]
  split
  · exact ⟨hStamped.flag, hStamped.updated, Or.inl rfl⟩
  · exact hStamped

/-- The manager after the head of `PropagateUpdatesToMirrors`. -/
theorem beginPropagate_manager (m : OutputStreamManager) (bound : Timestamp)
    (shard : OutputStreamShard) :
    (m.beginPropagate bound shard).1.closed = m.closed ∧
      ((m.beginPropagate bound shard).1.nextTimestampBound = bound ∨
        (m.beginPropagate bound shard).1.nextTimestampBound = m.nextTimestampBound) := by
  unfold OutputStreamManager.beginPropagate
  split
  · exact ⟨rfl, Or.inl rfl⟩
  · exact ⟨rfl, Or.inr rfl⟩

theorem setOutput_self (m : OutputStreamManager) : (s.setOutput o m).net.outputs o = m :=
  Function.update_self ..

/-- The consumers of a manager that is wired as it was made. -/
theorem WiredAs.targets (hWired : WiredAs outputs s) (o : OutId) :
    (s.net.outputs o).mirrors.filterMap (Mirror.resolve g.routes) = consumers g outputs o := by
  unfold consumers
  rw [(hWired o).1]

/-- What `PostProcess` sends for an open manager. -/
theorem Posting.sending {rest : List OutId} {bound : Timestamp}
    (hFeeder : SoleFeeder g outputs n) (hWired : WiredAs outputs s)
    (hPosting : Posting g outputs n s r (o :: rest) false)
    (hBound : bound.value ≤ ticks g s n) :
    Sending g outputs n s r.timestamp.value o
      ((s.net.outputs o).beginPropagate bound (r.outputs (shardPort outputs o))).2
      (consumers g outputs o) := by
  have hOut : o ∈ g.outputs n := hPosting.subset List.mem_cons_self
  obtain ⟨hUnder, hStamped⟩ := hPosting.left rfl o List.mem_cons_self
  refine ⟨hOut, ?_, ?_, hBound, ?_⟩
  · rw [← hWired.targets o]
    exact List.Subset.refl _
  · have hNodup := hFeeder.consumers_nodup o hOut
    rwa [← hWired.targets o] at hNodup
  · exact hStamped.queue.imp_right fun ⟨packet, hQueue, hStamp⟩ =>
      ⟨packet, hQueue, hStamp, hUnder.streams⟩

/-- What is left to send when `PostProcess` sends for an open manager. -/
theorem Posting.next {rest : List OutId} {bound : Timestamp} (hWired : WiredAs outputs s)
    (hPosting : Posting g outputs n s r (o :: rest) false)
    (hBound : bound.value ≤ ticks g s n) :
    Posting g outputs n
      (s.setOutput o ((s.net.outputs o).beginPropagate bound
        (r.outputs (shardPort outputs o))).1)
      (r.clear s.net o) rest false := by
  obtain ⟨hFresh, hNodup⟩ := List.nodup_cons.mp hPosting.nodup
  obtain ⟨hUnder, hStamped⟩ := hPosting.left rfl o List.mem_cons_self
  obtain ⟨hClosed, hNext⟩ :=
    beginPropagate_manager (s.net.outputs o) bound (r.outputs (shardPort outputs o))
  have hLow : r.timestamp.value ≤ ticks g s n := hPosting.ticked.high.le
  refine ⟨⟨hPosting.ticked.low, hPosting.ticked.high⟩, hNodup,
    fun _ hMem => hPosting.subset (List.mem_cons_of_mem _ hMem), ?_, ?_, ?_, ?_⟩
  · intro o' hOut'
    by_cases hEq : o' = o
    · subst hEq
      rw [setOutput_self, hClosed]
      exact hPosting.flag o' hOut'
    · rw [setOutput_of_ne _ hEq]
      exact hPosting.flag o' hOut'
  · intro o' hOut' hWhen
    refine clear_empty hWired fun hNe => hPosting.emptied o' hOut' ?_
    refine hWhen.imp_right fun hDone => ?_
    rw [List.mem_cons, not_or]
    exact ⟨hNe, hDone⟩
  · intro hOpen o' hOut' hDone
    by_cases hEq : o' = o
    · subst hEq
      refine ⟨?_, fun t hConsumer => (hUnder.streams t hConsumer).trans hLow⟩
      rw [setOutput_self]
      rcases hNext with hBound' | hBound'
      · rw [hBound']
        exact hBound
      · rw [hBound']
        exact hUnder.manager.trans hLow
    · have hBefore := hPosting.sent hOpen o' hOut' fun hMem =>
        (List.mem_cons.mp hMem).elim hEq hDone
      refine ⟨?_, hBefore.streams⟩
      rw [setOutput_of_ne _ hEq]
      exact hBefore.manager
  · intro hOpen o' hLeft
    have hNe : o' ≠ o := fun hEq => hFresh (hEq ▸ hLeft)
    obtain ⟨hUnder', hStamped'⟩ := hPosting.left hOpen o' (List.mem_cons_of_mem _ hLeft)
    refine ⟨⟨?_, hUnder'.streams⟩, hStamped'.clear hWired⟩
    rw [setOutput_of_ne _ hNe]
    exact hUnder'.manager

/-- **`PostProcess` sends for an open manager.** -/
theorem Posting.send {rest : List OutId} {status : Status} {post : List Frame}
    {bound : Timestamp} (hFeeder : SoleFeeder g outputs n) (hWired : WiredAs outputs s)
    (hPosting : Posting g outputs n s r (o :: rest) false) (hNode : r.node = n)
    (hBound : bound.value ≤ ticks g s n) (hPost : ∀ f ∈ post, f.Aside g outputs n) :
    Working g outputs n
      (s.setOutput o ((s.net.outputs o).beginPropagate bound
        (r.outputs (shardPort outputs o))).1)
      (.propagate ((s.net.outputs o).beginPropagate bound (r.outputs (shardPort outputs o))).2 ::
        .run (r.clear s.net o) (.postProcess rest status) :: post) := by
  have hSending := hPosting.sending hFeeder hWired hBound
  refine .sending _ _ _ o _ rest status post hNode .packets (List.nodup_cons.mp hPosting.nodup).1
    ?_ (hPosting.next hWired hBound) hPost
  rw [← hWired.targets o] at hSending
  exact ⟨hSending.owned, hSending.subset, hSending.nodup, hSending.bound, hSending.packets⟩

/-- **`Close` sends `Done` for a manager and goes on to close it.** -/
theorem ShardsEmpty.close {rest : List OutId} {stopped : Bool} {post : List Frame}
    (hWired : WiredAs outputs s) (hEmpty : ShardsEmpty g outputs n r) (hNode : r.node = n)
    (hSubset : o :: rest ⊆ g.outputs n)
    (hClosing : ∀ o' ∈ g.outputs n, o' ∈ o :: rest ∨ (s.net.outputs o').closed = true)
    (hPost : ∀ f ∈ post, f.Aside g outputs n) :
    Working g outputs n
      (s.setOutput o ((s.net.outputs o).beginPropagate Timestamp.done
        (r.outputs (shardPort outputs o))).1)
      (.propagate ((s.net.outputs o).beginPropagate Timestamp.done
          (r.outputs (shardPort outputs o))).2 :: .closeManager o ::
        .run (r.clear s.net o) (.closeOutputs rest stopped) :: post) := by
  have hOut : o ∈ g.outputs n := hSubset List.mem_cons_self
  refine .closing [.propagate _, .closeManager o] (r.clear s.net o) rest stopped post hNode
    (fun o' hOut' => clear_empty hWired fun _ => hEmpty o' hOut')
    (fun _ hMem => hSubset (List.mem_cons_of_mem _ hMem)) ?_ ?_ hPost
  · rw [List.forall_mem_cons]
    refine ⟨.packets _ (hEmpty o hOut), ?_⟩
    rw [List.forall_mem_singleton]
    exact .close o
  · intro o' hOut'
    by_cases hEq : o' = o
    · subst hEq
      exact Or.inr (Or.inr (by simp))
    · rw [setOutput_of_ne _ hEq]
      rcases hClosing o' hOut' with hLeft | hClosed
      · exact Or.inl ((List.mem_cons.mp hLeft).resolve_left hEq)
      · exact Or.inr (Or.inl hClosed)

/-- A call pops its inputs and takes its timestamp. -/
theorem popInputs_step {ports : List (String × StreamId)} {post : List Frame}
    (hGrounded : Grounded g outputs n s (A ++ .run r (.popInputs ports) :: B))
    (hNode : r.node = n) (hResting : Resting g outputs n s)
    (hEmpty : ShardsEmpty g outputs n r) (hPost : ∀ f ∈ post, f.Aside g outputs n)
    (hGuard : (stampsInputs n).exec s (A ++ B) (.run r (.popInputs ports)) x = true)
    (hStep : exec g s (.run r (.popInputs ports)) x = some (s', fs)) :
    Settles g outputs n s' (fs ++ post) := by
  obtain ⟨hQueue, hOpen, -⟩ := hGrounded.placed.run r _ mem_running
  rw [hNode] at hQueue
  have hSame : Untouching g outputs n s s' := untouching_of_run rfl hStep
  obtain ⟨t, hTurn, rfl, rfl⟩ := exec_run hStep
  cases ports with
  | nil =>
      simp only [runStep, hOpen, Bool.false_eq_true, if_false] at hTurn
      cases hTurn
      have hHigh : ticks g s n < 2 ^ 62 := by
        have hCount := of_decide_eq_true hGuard
        rwa [hQueue] at hCount
      refine Stage.settles hNode ?_ hPost
      rw [hNode]
      refine hResting.ready hSame hGrounded.low ?_ ?_
      · show (Timestamp.ofValue (s.queues r.queue).timestampCounter).value = _
        rw [hQueue]
        exact ofValue_value hGrounded.low hHigh
      · unfold ticks
        simp [hQueue]
  | cons p rest =>
      cases hTurn
      exact Stage.settles hNode ⟨rfl, hResting.untouched hSame, hEmpty⟩ hPost

/-- A call sends for its next manager, or goes on by the status of `Process`. -/
theorem postProcess_step {rest : List OutId} {status : Status} {closed : Bool}
    {post : List Frame} (hFeeder : SoleFeeder g outputs n) (hWired : WiredAs outputs s)
    (hHigh : ticks g s n ≤ 2 ^ 62) (hNode : r.node = n)
    (hPosting : Posting g outputs n s r rest closed) (hPost : ∀ f ∈ post, f.Aside g outputs n)
    (hStep : exec g s (.run r (.postProcess rest status)) x = some (s', fs)) :
    Settles g outputs n s' (fs ++ post) := by
  obtain ⟨t, hTurn, rfl, rfl⟩ := exec_run hStep
  cases rest with
  | nil =>
      cases hTurn
      obtain ⟨hResting, hEmpty⟩ := hPosting.done
      refine settles_of_resting hNode hResting hEmpty (fun _ => ?_) hPost
      unfold afterProcess
      split
      · exact Or.inr ⟨true, by rw [hNode]⟩
      · left
        repeat' split
        all_goals exact ⟨rfl, hResting, hEmpty⟩
  | cons o rest =>
      have hOut : o ∈ g.outputs n := hPosting.subset List.mem_cons_self
      cases closed with
      | true =>
          simp only [runStep, hPosting.flag o hOut, if_true] at hTurn
          cases hTurn
          exact Stage.settles hNode ⟨true, hPosting.skip⟩ hPost
      | false =>
          obtain ⟨hUnder, hStamped⟩ := hPosting.left rfl o List.mem_cons_self
          have hTicked := hPosting.ticked
          have hBound := computeOutputTimestampBound_le
            ((hWired o).2 ▸ (hFeeder.feeds o hOut).offsetEnabled) hUnder.manager hStamped
            hTicked.low (hTicked.high.trans_le hHigh) r.timestamp
          simp only [runStep, hPosting.flag o hOut, Bool.false_eq_true, if_false,
            hWired.port, hStamped.flag] at hTurn
          cases hTurn
          refine (hPosting.send hFeeder hWired hNode ?_ hPost).settles
          have hNext := hTicked.high
          omega

/-- **The step of a call of the node.** -/
theorem run_step {pc : RunPc} {post : List Frame} (hFeeder : SoleFeeder g outputs n)
    (hGrounded : Grounded g outputs n s (A ++ .run r pc :: B)) (hNode : r.node = n)
    (hStage : Stage g outputs n s r pc) (hPost : ∀ f ∈ post, f.Aside g outputs n)
    (hGuard : (stampsInputs n).exec s (A ++ B) (.run r pc) x = true)
    (hStep : exec g s (.run r pc) x = some (s', fs)) :
    Settles g outputs n s' (fs ++ post) := by
  have hWired := hGrounded.wired
  have hSame : pc.outputsLeft = [] → Untouching g outputs n s s' :=
    fun hLeft => untouching_of_run hLeft hStep
  obtain ⟨t, hTurn, rfl, rfl⟩ := exec_run hStep
  cases pc with
  | popInputs ports =>
      exact popInputs_step hGrounded hNode hStage.2.1 hStage.2.2 hPost hGuard hStep
  | callOpen => exact absurd hStage.1 Bool.false_ne_true
  | prepareOutputs rest =>
      obtain ⟨closed, hReady⟩ := hStage
      cases rest with
      | nil =>
          cases hTurn
          exact Stage.settles hNode ⟨closed, hReady.untouched (hSame rfl)⟩ hPost
      | cons o rest =>
          cases hTurn
          exact Stage.settles hNode ⟨closed, hReady.prepare hWired⟩ hPost
  | inProcess =>
      obtain ⟨closed, hReady⟩ := hStage
      cases x with
      | step => cases hTurn
      | returns status writes =>
          cases hTurn
          have hWrites : stampsOnly r.timestamp writes = true := by
            simpa [stampsInputs, hNode] using hGuard
          subst hNode
          have hReady' := hReady.untouched (hSame rfl)
          refine Stage.settles rfl ⟨closed, hReady'.posting hFeeder.outputs_nodup ?_ hWrites⟩ hPost
          exact hGrounded.high
  | postProcess rest status =>
      obtain ⟨closed, hPosting⟩ := hStage
      exact postProcess_step hFeeder hWired hGrounded.high hNode hPosting hPost hStep
  | closeOutputs rest stopped => exact hStage.elim
  | scanDone rest =>
      obtain ⟨-, hResting, hEmpty⟩ := hStage
      have hResting' := hResting.untouched (hSame rfl)
      cases rest
      all_goals cases hTurn
      all_goals refine settles_of_resting hNode hResting' hEmpty (fun _ => Or.inl ?_) hPost
      all_goals try split
      all_goals exact ⟨rfl, hResting', hEmpty⟩
  | decide done =>
      obtain ⟨-, hResting, hEmpty⟩ := hStage
      have hResting' := hResting.untouched (hSame rfl)
      cases hTurn
      exact settles_of_resting hNode hResting' hEmpty
        (fun _ => Or.inl ⟨rfl, hResting', hEmpty⟩) hPost
  | decrement action =>
      obtain ⟨-, hResting, hEmpty⟩ := hStage
      have hResting' := hResting.untouched (hSame rfl)
      cases hTurn
      exact settles_of_resting hNode hResting' hEmpty
        (fun hBusy => Or.inl ⟨hBusy, hResting', hEmpty⟩) hPost
  | stopDecrement =>
      obtain ⟨-, hResting, hEmpty⟩ := hStage
      have hResting' := hResting.untouched (hSame rfl)
      cases hTurn
      refine settles_of_resting hNode hResting' hEmpty (fun hBusy => ?_) hPost
      split at hBusy
      all_goals exact absurd hBusy Bool.false_ne_true
  | errorDecrement status =>
      obtain ⟨-, hResting, hEmpty⟩ := hStage
      have hResting' := hResting.untouched (hSame rfl)
      cases hTurn
      exact settles_of_resting hNode hResting' hEmpty
        (fun hBusy => absurd hBusy Bool.false_ne_true) hPost
  | act action =>
      obtain ⟨hBusy, hResting, hEmpty⟩ := hStage
      cases action with
      | kClose =>
          cases hTurn
          exact settles_of_resting hNode hResting hEmpty
            (fun _ => Or.inr ⟨false, by rw [hNode]⟩) hPost
      | _ => exact absurd hBusy Bool.false_ne_true
  | _ => exact absurd hStage.1 Bool.false_ne_true

/-! ## The steps of a propagation of the call -/

variable {p : Propagation} {left rest : List StreamId} {t : StreamId}

theorem targets_of_target (hTarget : target g p = some t) :
    p.targets g.routes = t :: { p with mirrors := p.mirrors.tail }.targets g.routes := by
  obtain ⟨mirror, hHead, hResolve⟩ := Option.bind_eq_some_iff.mp hTarget
  obtain ⟨rest, hMirrors⟩ := List.head?_eq_some_iff.mp hHead
  simp [Propagation.targets, hMirrors, hResolve]

theorem packetStep_packets_or (routes : Routes) (streams : Streams) (p : Propagation) :
    (Propagation.packetStep routes streams p).2.1.packets = p.packets ∨
      (Propagation.packetStep routes streams p).2.1.packets = [] := by
  unfold Propagation.packetStep
  repeat' split
  all_goals try exact Or.inl rfl
  rename_i t _ _ _
  show ((streams t).movePackets p.packets).packets = p.packets ∨
    ((streams t).movePackets p.packets).packets = []
  cases hClosed : (streams t).closed with
  | true => exact Or.inl (by simp [InputStreamManager.movePackets, hClosed])
  | false => exact Or.inr (by rw [InputStreamManager.movePackets_eq_addPackets hClosed])

/-- The bound a stamped packet leaves. -/
theorem addPackets_bound_le {m : InputStreamManager} {packet : Packet} {b : Int}
    (hBound : m.nextTimestampBound.value ≤ b) (hLow : 0 ≤ packet.timestamp.value)
    (hHigh : packet.timestamp.value < 2 ^ 62) (hPacket : packet.timestamp.value < b) :
    (m.addPackets [packet]).manager.nextTimestampBound.value ≤ b := by
  cases hClosed : m.closed with
  | true =>
      rw [(InputStreamManager.addPackets_of_closed hClosed _).1]
      exact hBound
  | false =>
      rw [(InputStreamManager.addPackets_of_open hClosed _).1]
      show packet.timestamp.nextAllowedInStream.value ≤ b
      rw [Timestamp.nextAllowedInStream_value (isRangeValue_of_ticks hLow hHigh)]
      omega

theorem setNextTimestampBound_le {m : InputStreamManager} {bound : Timestamp} {b : Int}
    (hBound : m.nextTimestampBound.value ≤ b) (hNext : bound.value ≤ b) :
    (m.setNextTimestampBound bound).1.nextTimestampBound.value ≤ b := by
  rw [InputStreamManager.setNextTimestampBound_bound]
  rcases max_choice m.nextTimestampBound bound with hEq | hEq
  · rw [hEq]
    exact hBound
  · rw [hEq]
    exact hNext

/-- What a step of the propagation does to a manager behind the mirrors: nothing, or it
is at the current mirror, whose bound stays within the counter. -/
theorem sending_stream {outs : List OutId} (hFrame : Iterates g p left f)
    (hSending : Sending g outputs n s r.timestamp.value o p left)
    (hPosting : Posting g outputs n s r outs false) (hSent : o ∉ outs)
    (hHigh : ticks g s n ≤ 2 ^ 62) (hStep : exec g s f x = some (s', fs)) (t : StreamId) :
    s'.stream t = s.stream t ∨
      (target g p = some t ∧ (s'.stream t).nextTimestampBound.value ≤ ticks g s n) := by
  have hUnder := hPosting.sent rfl o hSending.owned hSent
  have hConsumer : target g p = some t → t ∈ consumers g outputs o :=
    fun hTarget => hSending.subset (mem_targets_of_target hTarget)
  have hChange := exec_stream t hStep
  generalize s'.stream t = m at hChange ⊢
  cases hFrame with
  | packets =>
      cases hChange with
      | same => exact Or.inl rfl
      | added _ _ hTarget hPackets =>
          obtain ⟨packet, hQueue, hStamp, -⟩ := hSending.packets.resolve_left hPackets
          have hLow := hPosting.ticked.low
          have hNext := hPosting.ticked.high
          rw [← hStamp] at hLow hNext
          rw [hQueue]
          exact Or.inr ⟨hTarget, addPackets_bound_le (hUnder.streams t (hConsumer hTarget)) hLow
            (hNext.trans_le hHigh) hNext⟩
  | bound =>
      cases hChange with
      | same => exact Or.inl rfl
      | bounded _ _ hTarget =>
          exact Or.inr ⟨hTarget,
            setNextTimestampBound_le (hUnder.streams t (hConsumer hTarget)) hSending.bound⟩

theorem iterates_not_writes (hFrame : Iterates g p left f) (o : OutId) : ¬ f.writes o := by
  cases hFrame
  all_goals exact id

theorem ticks_of_iterates (hFrame : Iterates g p left f) (hStep : exec g s f x = some (s', fs)) :
    ticks g s' n = ticks g s n := by
  refine (exec_counter (g.queue n) hStep).resolve_right fun ⟨r, hEq, _⟩ => ?_
  cases hFrame
  all_goals cases hEq

/-- **A propagation for manager `o` leaves `PostProcess` where it is.** -/
theorem Posting.iterate {outs : List OutId} (hFeeder : SoleFeeder g outputs n)
    (hFrame : Iterates g p left f)
    (hSending : Sending g outputs n s r.timestamp.value o p left)
    (hPosting : Posting g outputs n s r outs false) (hSent : o ∉ outs)
    (hHigh : ticks g s n ≤ 2 ^ 62) (hStep : exec g s f x = some (s', fs)) :
    Posting g outputs n s' r outs false := by
  have hManager : ∀ o', s'.net.outputs o' = s.net.outputs o' := fun o' =>
    (exec_output hStep).resolve_right (iterates_not_writes hFrame o')
  have hTicks : ticks g s' n = ticks g s n := ticks_of_iterates hFrame hStep
  have hStream := sending_stream hFrame hSending hPosting hSent hHigh hStep
  have hUnder : ∀ {o' : OutId} {b : Int}, o' ∈ g.outputs n → Under g outputs s o' b →
      (o' = o → ticks g s n ≤ b) → Under g outputs s' o' b := by
    intro o' b hOut hBefore hHere
    constructor
    · rw [hManager]
      exact hBefore.manager
    · intro t hConsumer
      rcases hStream t with hSame | ⟨hTarget, hBound⟩
      · rw [hSame]
        exact hBefore.streams t hConsumer
      · have hOwn : t ∈ consumers g outputs o := hSending.subset (mem_targets_of_target hTarget)
        exact hBound.trans (hHere ((hFeeder.feeds o hSending.owned).alone o' t hOwn hConsumer))
  refine ⟨?_, hPosting.nodup, hPosting.subset, ?_, hPosting.emptied, ?_, ?_⟩
  · exact ⟨hPosting.ticked.low, hTicks ▸ hPosting.ticked.high⟩
  · intro o' hOut
    rw [hManager]
    exact hPosting.flag o' hOut
  · intro hOpen o' hOut hDone
    rw [hTicks]
    exact hUnder hOut (hPosting.sent hOpen o' hOut hDone) fun _ => le_rfl
  · intro hOpen o' hLeft
    obtain ⟨hBefore, hStamped⟩ := hPosting.left hOpen o' hLeft
    exact ⟨hUnder (hPosting.subset hLeft) hBefore fun hEq => absurd (hEq ▸ hLeft) hSent, hStamped⟩

/-- The consumers left to visit after an iteration's half are those of `left` but the
current one, and their bounds are untouched. -/
theorem Sending.iterate {outs : List OutId} {p' : Propagation} {left' : List StreamId}
    (hFrame : Iterates g p left f)
    (hSending : Sending g outputs n s r.timestamp.value o p left)
    (hPosting : Posting g outputs n s r outs false) (hSent : o ∉ outs)
    (hHigh : ticks g s n ≤ 2 ^ 62) (hStep : exec g s f x = some (s', fs))
    (hMirrors : p'.mirrors.Sublist p.mirrors) (hNext : p'.nextBound = p.nextBound)
    (hPackets : p'.packets = p.packets ∨ p'.packets = [])
    (hLeft : left' = { p with mirrors := p.mirrors.tail }.targets g.routes) (hIn : left' ⊆ left) :
    Sending g outputs n s' r.timestamp.value o p' left' := by
  have hTargets : (p'.targets g.routes).Sublist (p.targets g.routes) := hMirrors.filterMap _
  have hTicks : ticks g s' n = ticks g s n := ticks_of_iterates hFrame hStep
  refine ⟨hSending.owned, fun _ hMem => hSending.subset (hTargets.subset hMem),
    hSending.nodup.sublist hTargets, ?_, ?_⟩
  · rw [hNext, hTicks]
    exact hSending.bound
  · rcases hPackets with hSame | hNone
    · rw [hSame]
      refine hSending.packets.imp_right fun ⟨packet, hQueue, hStamp, hBounds⟩ =>
        ⟨packet, hQueue, hStamp, fun t hMem => ?_⟩
      rcases sending_stream hFrame hSending hPosting hSent hHigh hStep t with hStream | ⟨hTarget, -⟩
      · rw [hStream]
        exact hBounds t (hIn hMem)
      · have hNodup := hSending.nodup
        rw [targets_of_target hTarget, ← hLeft] at hNodup
        exact absurd hMem (List.nodup_cons.mp hNodup).1
    · exact Or.inl hNone

theorem aside_arrivalCallback {wake : Option StreamId} :
    ∀ f ∈ arrivalCallback g wake, f.Aside g outputs n := by
  cases wake with
  | none => simp [arrivalCallback]
  | some t => simp [arrivalCallback, Frame.Aside]

/-- **The step of a propagation in `PostProcess`.** -/
theorem sending_step {outs : List OutId} {status : Status} {post : List Frame}
    (hFeeder : SoleFeeder g outputs n) (hHigh : ticks g s n ≤ 2 ^ 62) (hNode : r.node = n)
    (hFrame : Iterates g p left f)
    (hSending : Sending g outputs n s r.timestamp.value o p left)
    (hPosting : Posting g outputs n s r outs false) (hSent : o ∉ outs)
    (hPost : ∀ f ∈ post, f.Aside g outputs n) (hStep : exec g s f x = some (s', fs)) :
    Course g outputs n s' (fs ++ .run r (.postProcess outs status) :: post) := by
  have hPosting' := hPosting.iterate hFeeder hFrame hSending hSent hHigh hStep
  have hStep' := hStep
  cases hFrame with
  | packets =>
      simp only [exec] at hStep'
      split at hStep'
      · cases hStep'
        exact ⟨[], _, rfl, by simp, .calling r _ post hNode ⟨false, hPosting'⟩ hPost⟩
      · cases hStep'
        refine ⟨_, _, by rw [List.append_assoc]; rfl, aside_arrivalCallback,
          .sending _ _ _ o r outs status post hNode .bound hSent ?_ hPosting' hPost⟩
        refine hSending.iterate .packets hPosting hSent hHigh hStep ?_ ?_ ?_ ?_ ?_
        · rw [Propagation.packetStep_mirrors]
        · exact Propagation.packetStep_nextBound _ _ _
        · exact packetStep_packets_or _ _ _
        · simp [Propagation.targets]
        · simp only [Propagation.targets, Propagation.packetStep_mirrors]
          exact List.filterMap_subset _ fun _ hIn => List.mem_of_mem_tail hIn
  | bound =>
      cases hStep'
      refine ⟨_, _, by rw [List.append_assoc]; rfl, aside_arrivalCallback,
        .sending _ _ _ o r outs status post hNode .packets hSent ?_ hPosting' hPost⟩
      rw [Propagation.boundStep_snd]
      exact hSending.iterate .bound hPosting hSent hHigh hStep (List.tail_sublist _) rfl
        (Or.inl rfl) rfl (List.Subset.refl _)

/-! ## The steps of the frames around the call -/

/-- A frame aside, while a call of the node is at work. -/
theorem aside_step (hFeeder : SoleFeeder g outputs n)
    (hGrounded : Grounded g outputs n s (A ++ f :: B))
    (hGuard : (closesAlone g n).exec s (A ++ B) f x = true)
    (hBusy : ∃ r pc, .run r pc ∈ A ++ B ∧ r.node = n ∧ pc.busy = true)
    (hAside : f.Aside g outputs n) (hStep : exec g s f x = some (s', fs)) :
    Untouching g outputs n s s' ∧ ∀ f' ∈ fs, f'.Aside g outputs n := by
  refine ⟨hAside.untouching hFeeder hStep, ?_⟩
  rcases aside_of_exec hFeeder hGrounded.wired hAside hStep with hTakes | hLeaves
  · obtain ⟨r, pc, hMem, hNode, hWork⟩ := hBusy
    have hIdle := not_busy_of_takesUp hFeeder hGrounded.placed hGrounded.limited hTakes hGuard
      hMem hNode
    exact absurd (hWork.symm.trans hIdle) Bool.noConfusion
  · exact hLeaves

/-- **The step of a frame above a call that closes the managers** leaves such frames and
closes what it is to close. -/
theorem Harmless.exec (hHarmless : Harmless g outputs n f)
    (hAside : f.Aside g outputs n →
      Untouching g outputs n s s' ∧ ∀ f' ∈ fs, f'.Aside g outputs n)
    (hStep : Scheduler.exec g s f x = some (s', fs)) :
    (∀ f' ∈ fs, Harmless g outputs n f') ∧
      ∀ o ∈ g.outputs n, (s.net.outputs o).closed = true ∨ f = .closeManager o →
        (s'.net.outputs o).closed = true ∨ .closeManager o ∈ fs := by
  have hManager : ∀ o, ¬ f.writes o → (s.net.outputs o).closed = true ∨ f = .closeManager o →
      (s'.net.outputs o).closed = true ∨ .closeManager o ∈ fs := by
    intro o hWrites hWhen
    have hSame := (exec_output hStep).resolve_right hWrites
    rw [hSame]
    exact Or.inl (hWhen.resolve_right fun hEq => hWrites (hEq ▸ rfl))
  cases hHarmless with
  | aside _ hHere =>
      obtain ⟨hSame, hLeaves⟩ := hAside hHere
      refine ⟨fun f' hMem => .aside f' (hLeaves f' hMem), fun o hOut hWhen => Or.inl ?_⟩
      rw [hSame.managers o hOut]
      refine hWhen.resolve_right fun hEq => ?_
      subst hEq
      exact hHere hOut
  | packets p hPackets =>
      refine ⟨?_, fun o _ => hManager o id⟩
      simp only [Scheduler.exec] at hStep
      split at hStep
      · cases hStep
        simp
      · cases hStep
        rw [List.forall_mem_append, List.forall_mem_singleton]
        refine ⟨fun f' hMem => .aside f' (aside_arrivalCallback f' hMem), .bound _ ?_⟩
        rcases packetStep_packets_or g.routes s.net.streams p with hSame | hNone
        · rw [hSame]
          exact hPackets
        · exact hNone
  | bound p hPackets =>
      refine ⟨?_, fun o _ => hManager o id⟩
      cases hStep
      rw [List.forall_mem_append, List.forall_mem_singleton]
      refine ⟨fun f' hMem => .aside f' (aside_arrivalCallback f' hMem), .packets _ ?_⟩
      rw [Propagation.boundStep_snd]
      exact hPackets
  | close o =>
      simp only [Scheduler.exec, OutputStreamManager.beginClose] at hStep
      cases hClosed : (s.net.outputs o).closed with
      | true =>
          simp only [hClosed, if_true] at hStep
          cases hStep
          refine ⟨by simp, fun o' _ hWhen => Or.inl ?_⟩
          rcases hWhen with hBefore | hEq
          · exact hBefore
          · cases hEq
            exact hClosed
      | false =>
          simp only [hClosed, Bool.false_eq_true, if_false] at hStep
          cases hStep
          refine ⟨?_, fun o' _ hWhen => Or.inl ?_⟩
          · rw [List.forall_mem_singleton]
            exact .packets _ rfl
          · by_cases hEq : o' = o
            · subst hEq
              rw [setOutput_self]
            · rw [setOutput_of_ne _ hEq]
              exact hWhen.resolve_right fun hSame => hEq (Frame.closeManager.inj hSame).symm

/-- **The step on top of a call that closes the managers.** -/
theorem closing_step {above post : List Frame} {rest : List OutId} {stopped : Bool}
    (hWired : WiredAs outputs s) (hNode : r.node = n) (hEmpty : ShardsEmpty g outputs n r)
    (hSubset : rest ⊆ g.outputs n) (hAbove : ∀ f ∈ above, Harmless g outputs n f)
    (hClosing : ∀ o ∈ g.outputs n,
      o ∈ rest ∨ (s.net.outputs o).closed = true ∨ .closeManager o ∈ above)
    (hPost : ∀ f ∈ post, f.Aside g outputs n) {below : List Frame}
    (hStack : f :: below = above ++ .run r (.closeOutputs rest stopped) :: post)
    (hAside : f.Aside g outputs n →
      Untouching g outputs n s s' ∧ ∀ f' ∈ fs, f'.Aside g outputs n)
    (hStep : exec g s f x = some (s', fs)) : Settles g outputs n s' (fs ++ below) := by
  cases above with
  | nil =>
      obtain ⟨rfl, rfl⟩ := List.cons.inj hStack
      cases rest with
      | nil =>
          have hClosed : ∀ o ∈ g.outputs n, (s.net.outputs o).closed = true := by
            intro o hOut
            simpa using hClosing o hOut
          have hResting : Resting g outputs n s := ⟨true, hClosed, fun hOpen => by simp at hOpen⟩
          cases hStep
          refine settles_of_resting hNode hResting hEmpty (fun hBusy => ?_) hPost
          cases stopped with
          | true => exact Or.inl ⟨rfl, hResting, hEmpty⟩
          | false => exact absurd hBusy Bool.false_ne_true
      | cons o rest =>
          obtain ⟨t, hTurn, rfl, rfl⟩ := exec_run hStep
          simp only [runStep, hWired.port] at hTurn
          cases hTurn
          refine (hEmpty.close hWired hNode hSubset ?_ hPost).settles
          intro o' hOut
          simpa using hClosing o' hOut
  | cons h above =>
      rw [List.cons_append] at hStack
      obtain ⟨rfl, rfl⟩ := List.cons.inj hStack
      obtain ⟨hTop, hRest⟩ := List.forall_mem_cons.mp hAbove
      obtain ⟨hLeaves, hCloses⟩ := hTop.exec hAside hStep
      rw [← List.append_assoc]
      refine (Working.closing (fs ++ above) r rest stopped post hNode hEmpty hSubset ?_ ?_
        hPost).settles
      · rw [List.forall_mem_append]
        exact ⟨hLeaves, hRest⟩
      · intro o hOut
        rcases hClosing o hOut with hLeft | hClosed | hMem
        · exact Or.inl hLeft
        · refine Or.inr ((hCloses o hOut (Or.inl hClosed)).imp_right fun hNew => ?_)
          exact List.mem_append_left _ hNew
        · rcases List.mem_cons.mp hMem with hEq | hBelow
          · refine Or.inr ((hCloses o hOut (Or.inr hEq.symm)).imp_right fun hNew => ?_)
            exact List.mem_append_left _ hNew
          · exact Or.inr (Or.inr (List.mem_append_right _ hBelow))

end

end GraphRuntime.Scheduler
