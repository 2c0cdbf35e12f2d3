import GraphRuntime.Public.Ports
import GraphRuntime.Public.Producers
import GraphRuntime.Scheduler.Finalize
import GraphRuntime.Scheduler.Termination

/-!
# What is drained when `HandleIdle` quits

`DrainInputQueues` schedules the nodes that have input, or the first node that
has not seen its inputs done, and only a pass with nothing left to schedule is
meant to go on to `should_quit`.  With `kNotDone` the pass is meant to await the
next call; but the `break` leaves the `switch` and not the loop, so the pass quits
(`quits_undrained`).

`drainsAlone` says when this does not happen: the drain finds something to
schedule or everything done and finalized, no other thread takes that away before
the drain has seen it, and no packet comes to a done stream until `state_` is
written.  With it, `HandleIdle` quits without an error only when every input is
done and empty and every node is finalized (`drained_before_terminated`).
-/

namespace GraphRuntime.Scheduler

open GraphRuntime.Stream Interleaving

variable {g : Graph} {s s' : Shared} {f : Frame} {fs A B : List Frame} {x : Choice}

/-! ## What a drain is about -/

/-- The node is bound, its inputs are done, and it has not been finalized. -/
def unobserved (g : Graph) (s : Shared) (n : NodeId) : Bool :=
  !g.isSource n && (g.inputs n).all (fun t => (s.stream t).isDone) && s.assigned n &&
    !finalized g s n

/-- There is a node to schedule, or nothing is left. -/
def drainable (g : Graph) (s : Shared) : Bool :=
  g.inputStreams.any (fun t => !(s.stream t).isEmpty) || g.nodes.any (unobserved g s) ||
    drained g s

/-- In `DrainInputQueues`, on the way to its result. -/
def IdlePc.drains : IdlePc → Bool
  | .drainIsDone _ _ _ _ | .drainIsEmpty _ _ _ _ _ | .drainFinalize _ _ _
  | .drainAllDone _ _ _ _ _ | .drainIsFinalized _ _ _ _ => true
  | _ => false

/-- Between the test in front of `DrainInputQueues` and the write of `state_`. -/
def IdlePc.quits : IdlePc → Bool
  | .shouldQuit _ | .quitReport _ | .closeNodes _ _ => true
  | pc => pc.drains

def Frame.drains : Frame → Bool
  | .handleIdle pc => pc.drains
  | _ => false

def Frame.quits : Frame → Bool
  | .handleIdle pc => pc.quits
  | _ => false

/-- A drain begins in a drainable state; as long as it is under way no other thread
takes the last packet of a queue or finalizes a node, and until its pass has
written `state_` no packet is delivered to a done stream. -/
def drainsAlone (g : Graph) : Guard Shared Frame Choice Call where
  exec := fun s others f _ =>
    match f with
    | .handleIdle (.checkDrain l) =>
        !(l.noMoreSources && !s.hasError && !l.inputsRemaining && s.state ≠ .kCancelling) ||
          drainable g s
    | .run _ (.popInputs ((_, t) :: _)) =>
        decide ((s.stream t).queue.length ≠ 1) || !others.any Frame.drains
    | .run r (.decide b) =>
        decide (((s.queues r.queue).decideFinalize r.node b).1 ≠ .kClose) ||
          !others.any Frame.drains
    | .propagate p =>
        match target g p with
        | some t => !(s.stream t).isDone || p.packets.isEmpty || !others.any Frame.quits
        | none => true
    | _ => true
  spawn := fun _ _ _ => true

/-! ## What other threads leave alone -/

/-- Nothing a pass relies on is taken away: done inputs stay done, bound nodes
bound and finalized nodes finalized. -/
structure Advances (g : Graph) (s s' : Shared) : Prop where
  isDone : ∀ t, (s.stream t).isDone = true → (s'.stream t).isDone = true
  assigned : ∀ n, s.assigned n = true → s'.assigned n = true
  finalized : ∀ n, finalized g s n = true → Scheduler.finalized g s' n = true
  hasError : s.hasError = true → s'.hasError = true

/-- Nor what a drain looks for. -/
structure Keeps (g : Graph) (s s' : Shared) : Prop extends Advances g s s' where
  queue : ∀ t, (s.stream t).queue ≠ [] → (s'.stream t).queue ≠ []
  notFinalized : ∀ n, Scheduler.finalized g s' n = true → Scheduler.finalized g s n = true

theorem advances_of_exec (hStep : exec g s f x = some (s', fs))
    (hPacket : ∀ p t, f = .propagate p → target g p = some t →
      (s.stream t).isDone = true → p.packets = []) : Advances g s s' where
  isDone := fun t hDone => isDone_of_exec hStep hDone fun p hFrame hTarget =>
    hPacket p t hFrame hTarget hDone
  assigned := fun _ => exec_assigned hStep
  finalized := fun _ => exec_finalized hStep
  hasError := by
    intro hError
    rcases exec_hasError hStep with hSame | ⟨hSet, -⟩
    · exact hSame.trans hError
    · exact hSet

/-- A decision other than `kClose` finalizes nobody. -/
theorem decideFinalize_notClose {queue : SchedulerQueue} {n : NodeId} {b : Bool}
    (hClose : (queue.decideFinalize n b).1 ≠ .kClose) :
    (queue.decideFinalize n b).2.finalizedNodes = queue.finalizedNodes := by
  unfold SchedulerQueue.decideFinalize at hClose ⊢
  split
  · split
    · simp_all
    · rfl
  · rfl

theorem keeps_of_exec (hStep : exec g s f x = some (s', fs)) (hAdvances : Advances g s s')
    (hPop : ∀ r port t rest, f = .run r (.popInputs ((port, t) :: rest)) →
      (s.stream t).queue.length ≠ 1)
    (hClose : ∀ r b, f = .run r (.decide b) →
      ((s.queues r.queue).decideFinalize r.node b).1 ≠ .kClose) : Keeps g s s' where
  toAdvances := hAdvances
  queue := by
    intro t hQueue
    have hChange := exec_stream t hStep
    generalize s'.stream t = m at hChange ⊢
    cases hChange with
    | same => exact hQueue
    | popped r port rest =>
        have hLength := hPop r port t rest rfl
        rw [InputStreamManager.popQueueHead_queue]
        intro hTail
        have hLeft := congrArg List.length hTail
        have hPos := List.length_pos_iff.mpr hQueue
        rw [List.length_tail, List.length_nil] at hLeft
        omega
    | bounded p => rwa [InputStreamManager.setNextTimestampBound_queue]
    | added p =>
        cases hClosed : (s.stream t).closed
        · rw [(InputStreamManager.addPackets_of_open hClosed _).1]
          simp [hQueue]
        · rwa [(InputStreamManager.addPackets_of_closed hClosed _).1]
  notFinalized := by
    intro n hFinal
    simp only [finalized, SchedulerQueue.isFinalized, decide_eq_true_eq] at hFinal ⊢
    rcases exec_marks (g.queue n) hStep with ⟨-, hSame⟩ | ⟨r, b, rfl, hEq, hQueue⟩
    · exact hSame ▸ hFinal
    · rw [hQueue, hEq, decideFinalize_notClose (hClose r b rfl), ← hEq] at hFinal
      exact hFinal

/-! ## A pass on its way -/

/-- Some stream of the list holds a packet. -/
def Buffered (s : Shared) (l : List StreamId) : Prop := ∃ t ∈ l, (s.stream t).queue ≠ []

/-- Some node of the list is to be scheduled once more. -/
def Awaited (g : Graph) (s : Shared) (l : List NodeId) : Prop :=
  ∃ n ∈ l, unobserved g s n = true

/-- What keeps a pass from quitting too early: there is something left for it to
find and to schedule, or all is done. -/
def OnTrack (g : Graph) (s : Shared) : IdlePc → Prop
  | .drainIsDone _ rest allDone anyNonempty =>
      rest ⊆ g.inputStreams ∧ (anyNonempty = true ∨ Buffered s rest ∨ Awaited g s g.nodes ∨
        (allDone = true ∧ drained g s = true))
  | .drainIsEmpty _ t rest allDone anyNonempty =>
      t :: rest ⊆ g.inputStreams ∧ (anyNonempty = true ∨ Buffered s (t :: rest) ∨
        Awaited g s g.nodes ∨ (allDone = true ∧ drained g s = true))
  | .drainFinalize _ rest allDone => Awaited g s rest ∨ (allDone = true ∧ drained g s = true)
  | .drainAllDone _ n ports rest allDone =>
      ports ⊆ g.inputs n ∧ (unobserved g s n = true ∨ Awaited g s rest ∨
        (allDone = true ∧ drained g s = true))
  | .drainIsFinalized _ n rest allDone =>
      unobserved g s n = true ∨ Awaited g s rest ∨ (allDone = true ∧ drained g s = true)
  | .shouldQuit l => l.noMoreSources = true → l.inputsRemaining = false →
      s.hasError = true ∨ (l.drain = some .kDrained ∧ drained g s = true)
  | .quitReport l | .closeNodes l _ =>
      s.hasError = true ∨ (l.drain = some .kDrained ∧ drained g s = true)
  | _ => True

theorem Advances.drained (hAdvances : Advances g s s')
    (hDrained : Scheduler.drained g s = true) : Scheduler.drained g s' = true := by
  simp only [Scheduler.drained, List.all_eq_true, Bool.or_eq_true, Bool.and_eq_true]
    at hDrained ⊢
  intro n hMem
  refine (hDrained n hMem).imp_right ?_
  rintro ⟨hDone, hFinal⟩
  exact ⟨fun t hPort => hAdvances.isDone t (hDone t hPort), hAdvances.finalized n hFinal⟩

theorem Keeps.unobserved (hKeeps : Keeps g s s') {n : NodeId}
    (hNode : Scheduler.unobserved g s n = true) : Scheduler.unobserved g s' n = true := by
  simp only [Scheduler.unobserved, Bool.and_eq_true, List.all_eq_true, Bool.not_eq_true']
    at hNode ⊢
  obtain ⟨⟨⟨hInputs, hDone⟩, hAssigned⟩, hNotFinal⟩ := hNode
  refine ⟨⟨⟨hInputs, fun t hPort => hKeeps.isDone t (hDone t hPort)⟩,
    hKeeps.assigned n hAssigned⟩, ?_⟩
  by_contra hFinal
  rw [hKeeps.notFinalized n (by simpa using hFinal)] at hNotFinal
  exact absurd hNotFinal (by simp)

theorem Keeps.awaited (hKeeps : Keeps g s s') {l : List NodeId} (hAwaited : Awaited g s l) :
    Awaited g s' l := by
  obtain ⟨n, hMem, hNode⟩ := hAwaited
  exact ⟨n, hMem, hKeeps.unobserved hNode⟩

theorem Keeps.buffered (hKeeps : Keeps g s s') {l : List StreamId} (hBuffered : Buffered s l) :
    Buffered s' l := by
  obtain ⟨t, hMem, hQueue⟩ := hBuffered
  exact ⟨t, hMem, hKeeps.queue t hQueue⟩

/-- **A pass stays on track** while the others leave it what it relies on. -/
theorem OnTrack.mono {pc : IdlePc} (hTrack : OnTrack g s pc)
    (hAdvances : pc.quits = true → Advances g s s')
    (hKeeps : pc.drains = true → Keeps g s s') : OnTrack g s' pc := by
  cases pc with
  | drainIsDone l rest allDone anyNonempty =>
      have hKept := hKeeps rfl
      exact hTrack.imp_right (Or.imp_right (Or.imp hKept.buffered (Or.imp hKept.awaited
        (And.imp_right hKept.toAdvances.drained))))
  | drainIsEmpty l t rest allDone anyNonempty =>
      have hKept := hKeeps rfl
      exact hTrack.imp_right (Or.imp_right (Or.imp hKept.buffered (Or.imp hKept.awaited
        (And.imp_right hKept.toAdvances.drained))))
  | drainFinalize l rest allDone =>
      have hKept := hKeeps rfl
      exact Or.imp hKept.awaited (And.imp_right hKept.toAdvances.drained) hTrack
  | drainAllDone l n ports rest allDone =>
      have hKept := hKeeps rfl
      exact hTrack.imp_right (Or.imp hKept.unobserved (Or.imp hKept.awaited
        (And.imp_right hKept.toAdvances.drained)))
  | drainIsFinalized l n rest allDone =>
      have hKept := hKeeps rfl
      exact Or.imp hKept.unobserved (Or.imp hKept.awaited
        (And.imp_right hKept.toAdvances.drained)) hTrack
  | shouldQuit l =>
      have hAdv := hAdvances rfl
      exact fun hSources hInputs => Or.imp hAdv.hasError (And.imp_right hAdv.drained)
        (hTrack hSources hInputs)
  | quitReport l =>
      have hAdv := hAdvances rfl
      exact Or.imp hAdv.hasError (And.imp_right hAdv.drained) hTrack
  | closeNodes l rest =>
      have hAdv := hAdvances rfl
      exact Or.imp hAdv.hasError (And.imp_right hAdv.drained) hTrack
  | _ => trivial

/-- Where all is drained, every stream that is looked at is done. -/
theorem isDone_of_drained {t : StreamId} (hDrained : drained g s = true)
    (hMem : t ∈ g.inputStreams) : (s.stream t).isDone = true := by
  obtain ⟨n, hNode, hPort⟩ := List.mem_flatMap.mp hMem
  simp only [drained, List.all_eq_true, Bool.or_eq_true, Bool.and_eq_true] at hDrained
  rcases hDrained n hNode with hSource | ⟨hDone, -⟩
  · simp [Graph.inputs, List.isEmpty_iff.mp hSource] at hPort
  · exact hDone t hPort

theorem onTrack_of_not_quits {pc : IdlePc} (hQuits : pc.quits = false) : OnTrack g s pc := by
  cases pc <;> trivial

/-- The way to `should_quit` begins with the test in front of the drain. -/
theorem idleStep_quits {pc pc' : IdlePc} (hQuits : pc.quits = false)
    (hCheck : ∀ l, pc ≠ .checkDrain l) (hNext : (idleStep g s pc).next = some pc') :
    pc'.quits = false := by
  revert hNext
  fun_cases idleStep g s pc
  case case12 l => exact absurd rfl (hCheck l)
  all_goals intro hNext
  all_goals try split at hNext
  all_goals cases hNext
  all_goals first
    | rfl
    | exact absurd hQuits (by simp [IdlePc.quits, IdlePc.drains])

/-- **One step of a pass**: what is left to be found is found, and then there is no
way to `should_quit`. -/
theorem idleStep_onTrack {pc pc' : IdlePc} (hTrack : OnTrack g s pc)
    (hState : s.state = .kCancelling → s.hasError = true)
    (hGuard : ∀ l, pc = .checkDrain l → (l.noMoreSources && !s.hasError &&
      !l.inputsRemaining && s.state ≠ .kCancelling) = true → drainable g s = true)
    (hNext : (idleStep g s pc).next = some pc') : OnTrack g s pc' := by
  cases pc with
  | checkDrain l =>
      have hEq := Option.some.inj hNext
      by_cases hEnter : (l.noMoreSources && !s.hasError && !l.inputsRemaining &&
          s.state ≠ .kCancelling) = true
      · rw [if_pos hEnter] at hEq
        subst hEq
        have hDrainable := hGuard l rfl hEnter
        simp only [drainable, Bool.or_eq_true, List.any_eq_true] at hDrainable
        refine ⟨List.Subset.refl _, Or.inr ?_⟩
        rcases hDrainable with (⟨t, hMem, hSome⟩ | hAwaited) | hDrained
        · exact Or.inl ⟨t, hMem, by simpa [InputStreamManager.isEmpty] using hSome⟩
        · exact Or.inr (Or.inl hAwaited)
        · exact Or.inr (Or.inr ⟨rfl, hDrained⟩)
      · rw [if_neg hEnter] at hEq
        subst hEq
        intro hSources hInputs
        left
        -- the drain is left out only for an error or in `kCancelling`
        by_contra hError
        exact hEnter (by simp_all)
  | drainIsDone l rest allDone anyNonempty =>
      obtain ⟨hSubset, hLeft⟩ := hTrack
      cases rest with
      | nil =>
          have hEq := Option.some.inj hNext
          cases anyNonempty with
          | true =>
              subst hEq
              trivial
          | false =>
              subst hEq
              rcases hLeft with hSome | ⟨t, hMem, -⟩ | hRest
              · exact absurd hSome Bool.false_ne_true
              · exact absurd hMem List.not_mem_nil
              · exact hRest
      | cons t rest =>
          have hEq := Option.some.inj hNext
          subst hEq
          refine ⟨hSubset, hLeft.imp_right (Or.imp_right (Or.imp_right ?_))⟩
          rintro ⟨rfl, hDrained⟩
          have hDone := isDone_of_drained hDrained (hSubset List.mem_cons_self)
          exact ⟨by simp [hDone], hDrained⟩
  | drainIsEmpty l t rest allDone anyNonempty =>
      have hEq := Option.some.inj hNext
      subst hEq
      obtain ⟨hSubset, hLeft⟩ := hTrack
      refine ⟨List.subset_of_cons_subset hSubset, ?_⟩
      rcases hLeft with hSome | ⟨u, hMem, hQueue⟩ | hRest
      · exact Or.inl (by simp [hSome])
      · rcases List.mem_cons.mp hMem with rfl | hIn
        · exact Or.inl (by simp [InputStreamManager.isEmpty, hQueue])
        · exact Or.inr (Or.inl ⟨u, hIn, hQueue⟩)
      · exact Or.inr (Or.inr hRest)
  | drainFinalize l rest allDone =>
      cases rest with
      | nil =>
          have hEq := Option.some.inj hNext
          subst hEq
          intro _ _
          right
          rcases hTrack with ⟨n, hMem, -⟩ | ⟨rfl, hDrained⟩
          · exact absurd hMem List.not_mem_nil
          · exact ⟨rfl, hDrained⟩
      | cons n rest =>
          have hEq := Option.some.inj hNext
          by_cases hSource : g.isSource n = true
          · rw [if_pos hSource] at hEq
            subst hEq
            rcases hTrack with ⟨m, hMem, hNode⟩ | hDrained
            · rcases List.mem_cons.mp hMem with rfl | hIn
              · simp [unobserved, hSource] at hNode
              · exact Or.inl ⟨m, hIn, hNode⟩
            · exact Or.inr hDrained
          · rw [if_neg hSource] at hEq
            subst hEq
            refine ⟨List.Subset.refl _, ?_⟩
            rcases hTrack with ⟨m, hMem, hNode⟩ | hDrained
            · rcases List.mem_cons.mp hMem with rfl | hIn
              · exact Or.inl hNode
              · exact Or.inr (Or.inl ⟨m, hIn, hNode⟩)
            · exact Or.inr (Or.inr hDrained)
  | drainAllDone l n ports rest allDone =>
      obtain ⟨hSubset, hLeft⟩ := hTrack
      cases ports with
      | nil =>
          have hEq := Option.some.inj hNext
          subst hEq
          exact hLeft
      | cons t ports =>
          have hEq := Option.some.inj hNext
          by_cases hDone : (s.stream t).isDone = true
          · rw [if_pos hDone] at hEq
            subst hEq
            exact ⟨List.subset_of_cons_subset hSubset, hLeft⟩
          · rw [if_neg hDone] at hEq
            subst hEq
            refine hLeft.resolve_left fun hNode => ?_
            simp only [unobserved, Bool.and_eq_true, List.all_eq_true] at hNode
            exact hDone (hNode.1.1.2 t (hSubset List.mem_cons_self))
  | drainIsFinalized l n rest allDone =>
      have hEq := Option.some.inj hNext
      by_cases hAdd : (s.assigned n && !(s.queues (g.queue n)).isFinalized n) = true
      · rw [if_pos hAdd] at hEq
        subst hEq
        trivial
      · rw [if_neg hAdd] at hEq
        subst hEq
        refine hTrack.resolve_left fun hNode => hAdd ?_
        simp only [unobserved, finalized, Bool.and_eq_true] at hNode ⊢
        exact ⟨hNode.1.2, hNode.2⟩
  | shouldQuit l =>
      have hEq := Option.some.inj hNext
      by_cases hQuit : (s.hasError || (l.noMoreSources && !l.inputsRemaining)) = true
      · rw [if_pos hQuit] at hEq
        subst hEq
        simp only [Bool.or_eq_true, Bool.and_eq_true, Bool.not_eq_true'] at hQuit
        rcases hQuit with hError | ⟨hSources, hInputs⟩
        · exact Or.inl hError
        · exact hTrack hSources hInputs
      · rw [if_neg hQuit] at hEq
        subst hEq
        trivial
  | quitReport l =>
      have hEq := Option.some.inj hNext
      subst hEq
      exact hTrack
  | closeNodes l rest =>
      cases rest with
      | nil =>
          have hEq := Option.some.inj hNext
          subst hEq
          trivial
      | cons n rest =>
          have hEq := Option.some.inj hNext
          subst hEq
          exact hTrack
  | _ => exact onTrack_of_not_quits (idleStep_quits rfl (by simp) hNext)

/-! ## Every pass -/

/-- Every pass is on track. -/
def Tracked (g : Graph) (s : Shared) (fs : List Frame) : Prop :=
  ∀ pc, .handleIdle pc ∈ fs → OnTrack g s pc

theorem Tracked.exec (hTracked : Tracked g s (A ++ f :: B))
    (hState : s.state = .kCancelling → s.hasError = true)
    (hGuard : (drainsAlone g).exec s (A ++ B) f x = true)
    (hStep : Scheduler.exec g s f x = some (s', fs)) : Tracked g s' (A ++ (fs ++ B)) := by
  intro pc hMem
  by_cases hOld : .handleIdle pc ∈ A ++ B
  · -- a pass of another thread
    have hBefore : .handleIdle pc ∈ A ++ f :: B := by
      simp only [List.mem_append, List.mem_cons] at hOld ⊢
      exact hOld.imp id Or.inr
    have hAdvances : pc.quits = true → Advances g s s' := by
      intro hQuits
      refine advances_of_exec hStep ?_
      rintro p t rfl hTarget hDone
      have hUnder : (A ++ B).any Frame.quits = true :=
        List.any_eq_true.mpr ⟨_, hOld, hQuits⟩
      simpa [drainsAlone, hTarget, hDone, hUnder] using hGuard
    refine (hTracked pc hBefore).mono hAdvances fun hDrains => ?_
    have hQuits : pc.quits = true := by
      cases pc <;> first | rfl | exact absurd hDrains Bool.false_ne_true
    have hUnder : (A ++ B).any Frame.drains = true :=
      List.any_eq_true.mpr ⟨_, hOld, hDrains⟩
    refine keeps_of_exec hStep (hAdvances hQuits) ?_ ?_
    · rintro r port t rest rfl
      simpa [drainsAlone, hUnder] using hGuard
    · rintro r b rfl
      simpa [drainsAlone, hUnder] using hGuard
  · have hNew : .handleIdle pc ∈ fs := by
      simp only [List.mem_append, not_or] at hMem hOld
      tauto
    by_cases hEnter : pc = .enter
    · subst hEnter
      trivial
    obtain ⟨pc₀, rfl, hNext⟩ := idleStep_of_leaves hStep hNew hEnter
    have hAdvances : Advances g s s' := advances_of_exec hStep (by simp)
    refine OnTrack.mono ?_ (fun _ => hAdvances)
      (fun _ => keeps_of_exec hStep hAdvances (by simp) (by simp))
    refine idleStep_onTrack (hTracked pc₀ (by simp)) hState ?_ hNext
    rintro l rfl hTaken
    simp only [drainsAlone, Bool.or_eq_true, Bool.not_eq_true'] at hGuard
    exact hGuard.resolve_left fun hNot => Bool.false_ne_true (hNot.symm.trans hTaken)

theorem tracked_of_reaches {outputs : OutId → OutputStreamManager} {defaultQueue : QueueId}
    {errorCallback : Bool} {c : Config Shared Frame}
    (hReach : (machine g).Reaches (drainsAlone g)
      (started (initial outputs defaultQueue errorCallback)) c) :
    Tracked g c.shared c.frames := by
  refine Machine.invariant_with (J := Cancelled) (I := Tracked g)
    (fun c hReach => cancelled_of_reaches hReach) ?_ ?_ ?_ hReach
  · intro pc hMem
    simp [Config.frames, started] at hMem
  · intro s A f B x s' fs hCancelled hTracked hGuard hStep
    exact hTracked.exec hCancelled.state hGuard hStep
  · intro s A b s' fs _ hTracked _ hSpawn pc hMem
    have hOld : .handleIdle pc ∈ A := mem_of_spawn hSpawn hMem (by simp) (by simp)
    obtain ⟨tasks, rfl, -⟩ := spawn_frame hSpawn
    exact (hTracked pc hOld).mono (fun _ => ⟨fun _ h => h, fun _ h => h, fun _ h => h, id⟩)
      fun _ => ⟨⟨fun _ h => h, fun _ h => h, fun _ h => h, id⟩, fun _ h => h, fun _ h => h⟩

/-- **Drain before termination.**  A pass of `HandleIdle` that goes on to terminate
the graph while `has_error_` is not set has had `kDrained` from its drain, every
input stream of every node with inputs is done and empty, and every such node is
finalized. -/
theorem drained_before_terminated {outputs : OutId → OutputStreamManager}
    {defaultQueue : QueueId} {errorCallback : Bool} {c : Config Shared Frame}
    (hReach : (machine g).Reaches (drainsAlone g)
      (started (initial outputs defaultQueue errorCallback)) c)
    {l : IdleLocals} {rest : List NodeId}
    (hMem : .handleIdle (.closeNodes l rest) ∈ c.frames)
    (hError : c.shared.hasError = false) :
    l.drain = some .kDrained ∧ ∀ n ∈ g.nodes, g.isSource n = false →
      (∀ t ∈ g.inputs n, (c.shared.stream t).isDone = true) ∧
        finalized g c.shared n = true := by
  have hTrack := tracked_of_reaches hReach _ hMem
  rcases hTrack with hSet | ⟨hDrain, hDrained⟩
  · exact absurd hSet (by simp [hError])
  · refine ⟨hDrain, fun n hNode hInputs => ?_⟩
    simp only [drained, List.all_eq_true, Bool.or_eq_true, Bool.and_eq_true] at hDrained
    exact (hDrained n hNode).resolve_left (by simp [hInputs])

/-- In the last step of a pass that quits, after the drain has returned `status`. -/
def Frame.quitsAfter (status : Option DrainStatus) : Frame → Bool
  | .handleIdle (.closeNodes l []) => decide (l.drain = status)
  | _ => false

/-- The rule at work: a chain whose input is closed. -/
theorem drained_before_terminated_chain :
    ∃ c : Config Shared Frame, c.frames.any (Frame.quitsAfter (some .kDrained)) = true ∧
      c.shared.hasError = false ∧ (c.shared.stream 0).isDone = true ∧
        finalized (.chain 1 id (by simp)) c.shared 0 = true := by
  obtain ⟨c, hReach, hTest⟩ := (machine (.chain 1 id (by simp))).exists_reaches
    (drainsAlone (.chain 1 id (by simp))) (started (chainInitial 1 false))
    (runs 0 19 .ok ++ calls (.closeInputStream "in") 1 16 .ok ++ calls (.worker 0) 2 30 .ok ++
      calls (.worker 0) 3 31 .ok ++ calls (.worker 0) 4 23 .ok)
    (fun c => c.frames.any (Frame.quitsAfter (some .kDrained)) && !c.shared.hasError)
    (by decide +kernel)
  simp only [Bool.and_eq_true, Bool.not_eq_true'] at hTest
  obtain ⟨hQuits, hError⟩ := hTest
  obtain ⟨f, hMem, hIs⟩ := List.any_eq_true.mp hQuits
  unfold Frame.quitsAfter at hIs
  split at hIs
  · have hDrained := (drained_before_terminated hReach hMem hError).2 0
      (by simp [Graph.chain]) rfl
    exact ⟨c, hQuits, hError, hDrained.1 0 (by simp [Graph.inputs, Graph.chain]), hDrained.2⟩
  · exact absurd hIs Bool.false_ne_true

/-- A chain of three nodes on three queues, the last node's queue first. -/
def Graph.backwards : Graph :=
  .chain 3 (fun n : Nat => 2 - n) fun n _ => Nat.lt_succ_of_le (Nat.sub_le 2 n)

/-- What `Initialize` makes of the config with a dangling input. -/
def danglingRuntime : Public.Runtime :=
  (Public.initializeGraph (fun _ => true) Public.danglingConfig {}).toOption.getD {}

theorem danglingRuntime_eq :
    Public.initializeGraph (fun _ => true) Public.danglingConfig {} = .ok danglingRuntime := by
  obtain ⟨r, hOk⟩ := Public.exists_eq_ok
    (e := Public.initializeGraph (fun _ => true) Public.danglingConfig {}) (by decide +kernel)
  rw [danglingRuntime, hOk]
  rfl

/-- The graph it is for. -/
def Graph.dangling : Graph :=
  Public.Runtime.graph (Public.initialized_of_eq_ok danglingRuntime_eq) {}

/-- **`HandleIdle` quits with inputs that are not done.**  A node with a dangling
input, in a config the validator accepts, is closed as soon as `Start` has opened it.
And in a chain of three nodes on three queues the graph quits while the second node
is about to hand its done signal to the third. -/
theorem quits_undrained :
    (∃ c : Config Shared Frame,
      (machine .dangling).Reaches Guard.all (started (danglingRuntime.initialState false)) c ∧
      c.frames.any (Frame.quitsAfter (some .kNotDone)) = true ∧ c.shared.hasError = false ∧
        0 ∈ Graph.dangling.inputs 0 ∧ (c.shared.stream 0).isDone = false) ∧
    ∃ c : Config Shared Frame,
      (machine .backwards).Reaches Guard.all (started (chainInitial 3 false)) c ∧
      c.frames.any (Frame.quitsAfter (some .kNotDone)) = true ∧ c.shared.hasError = false ∧
        (c.shared.stream 2).isDone = false ∧ finalized .backwards c.shared 2 = false := by
  constructor
  · obtain ⟨c, hReach, hTest⟩ := (machine .dangling).exists_reaches Guard.all
      (started (danglingRuntime.initialState false)) (runs 0 25 .ok)
      (fun c => c.frames.any (Frame.quitsAfter (some .kNotDone)) && !c.shared.hasError &&
        decide (0 ∈ Graph.dangling.inputs 0) && !(c.shared.stream 0).isDone)
      (by decide +kernel)
    simp only [Bool.and_eq_true, Bool.not_eq_true', decide_eq_true_eq] at hTest
    obtain ⟨⟨⟨hQuits, hError⟩, hInput⟩, hNot⟩ := hTest
    exact ⟨c, hReach, hQuits, hError, hInput, hNot⟩
  · obtain ⟨c, hReach, hTest⟩ := (machine .backwards).exists_reaches Guard.all
      (started (chainInitial 3 false))
      (runs 0 29 .ok ++ calls (.closeInputStream "in") 1 16 .ok ++ calls (.worker 2) 2 29 .ok ++
        calls (.worker 2) 3 37 .ok ++ calls (.worker 2) 4 6 .ok ++ calls (.worker 1) 5 29 .ok ++
        calls (.worker 1) 6 14 .ok ++ runs 1 28 .ok)
      (fun c => c.frames.any (Frame.quitsAfter (some .kNotDone)) && !c.shared.hasError &&
        !(c.shared.stream 2).isDone && !finalized .backwards c.shared 2)
      (by decide +kernel)
    simp only [Bool.and_eq_true, Bool.not_eq_true'] at hTest
    obtain ⟨⟨⟨hQuits, hError⟩, hNot⟩, hFinal⟩ := hTest
    exact ⟨c, hReach, hQuits, hError, hNot, hFinal⟩

end GraphRuntime.Scheduler
