import GraphRuntime.Scheduler.Drain
import GraphRuntime.Scheduler.Reschedule

/-!
# How often a node observes that its inputs are done

An invocation that finds all inputs done when it tests them asks for one more, and
this one is to be the only one whose shards are all done.  That needs an invocation
which has popped something else before.  When the last `Done` reaches a node that is
idle, both the invocation the arrival callback asks for and the one that follows it
have seen nothing but done (`done_observed_twice`).

With `observesOnce` the `Done` that completes the inputs comes while an invocation
that has popped something else is on its way to the test, or it is the bound of a
queue whose last packet is still to be popped; then, in a run that terminates as it
should, exactly one invocation of a node with `MaxInFlight` 1 sees all inputs done
(`done_observed_once`).  The count is kept by an equation: invocations that have seen
done and called `Process` are the finalized one, or still before their decision.
-/

namespace GraphRuntime.Scheduler

open GraphRuntime.Stream Interleaving

variable {g : Graph} {s s' : Shared} {f : Frame} {fs A B : List Frame} {x : Choice}
  {n : NodeId}

/-! ## Seeing done -/

/-- All inputs of the node are done. -/
def inputsDone (g : Graph) (streams : Streams) (n : NodeId) : Bool :=
  (g.inputs n).all fun t => (streams t).isDone

/-- A call of `Process` whose input shards are all done. -/
def Event.observes (n : NodeId) : Event → Bool
  | .processCalled m inputs => decide (m = n) && inputs.all fun shard => shard.done
  | _ => false

/-- How often `Process` of the node has seen all inputs done. -/
def observed (s : Shared) (n : NodeId) : Nat := s.log.countP (Event.observes n)

/-- A call that has popped something other than done and will test the inputs. -/
def Frame.carries (n : NodeId) : Frame → Bool :=
  Frame.runsWith fun r pc =>
    decide (r.node = n) && (pc.starting || pc.deciding) && !r.seesDone

/-- The `Done` that completes the inputs of the node comes while such a call is under
way. -/
def heardInFlight (g : Graph) (n : NodeId) : Guard Shared Frame Choice Call where
  exec := fun s others f _ =>
    match f with
    | .propagateBound p =>
        inputsDone g s.net.streams n ||
          !inputsDone g (Propagation.boundStep g.routes s.net.streams p).1 n ||
          others.any (Frame.carries n)
    | _ => true
  spawn := fun _ _ _ => true

def observesOnce (g : Graph) (n : NodeId) : Guard Shared Frame Choice Call :=
  (settles g n).and (heardInFlight g n)

/-- In `Process`, or between it and the decision. -/
def RunPc.observing : RunPc → Bool
  | .decide false => true
  | pc => pc.deciding

/-- In `Process` or before the decision, after seeing all inputs done. -/
def Frame.observes (n : NodeId) : Frame → Bool :=
  Frame.runsWith fun r pc => decide (r.node = n) && pc.observing && r.seesDone

/-- Before the decision. -/
def Frame.undecides (n : NodeId) : Frame → Bool :=
  Frame.runsWith fun r pc => decide (r.node = n) && pc.undecided

/-- What is known of a node with one invocation at a time. -/
structure Observing (g : Graph) (n : NodeId) (s : Shared) (fs : List Frame) : Prop where
  stopped : stopped s n = false
  informed : ∀ r pc, .run r pc ∈ fs → r.node = n → Informed g s r pc
  carried : inputsDone g s.net.streams n = true →
    noted g s n = true ∨ ∃ f ∈ fs, f.carries n = true
  done : noted g s n = true → inputsDone g s.net.streams n = true
  agreed : noted g s n = true → ∀ f ∈ fs, f.agrees n = true
  unsure : ∀ r, .run r (.decide false) ∈ fs → r.node = n → r.seesDone = false
  counted : observed s n =
    (if finalized g s n then 1 else 0) + fs.countP (Frame.observes n)
  rests : finalized g s n = true →
    waiting g s n = 0 ∧ fs.countP (Frame.undecides n) = 0

/-! ## One invocation at a time -/

theorem undecides_le (hPlaced : Placed g s A) :
    A.countP (Frame.undecides n) ≤ A.countP (Frame.inFlight n) := by
  refine List.countP_mono_left fun f hMem hIs => ?_
  cases f with
  | run r pc =>
      have hOpen := (hPlaced.run r pc hMem).2.1
      simp only [Frame.undecides, Frame.runsWith, Bool.and_eq_true, decide_eq_true_eq] at hIs
      have hHolds : pc.holdsPending = true := by
        cases pc <;> first | rfl | exact absurd hIs.2 Bool.false_ne_true
      simp [Frame.inFlight, hIs.1, hOpen, hHolds]
  | _ => exact absurd hIs Bool.false_ne_true

/-- Items and undecided calls of the node are one at most. -/
theorem alone_of_limited (hPlaced : Placed g s A) (hLimited : Limited g s A n 1) :
    waiting g s n + A.countP (Frame.undecides n) ≤ 1 := by
  have hLe := undecides_le (n := n) hPlaced
  obtain ⟨hCovers, hBounded⟩ := hLimited
  unfold balance at hCovers
  omega

/-- An undecided call has no other beside it, and no item. -/
theorem others_decided (hPlaced : Placed g s (A ++ f :: B))
    (hLimited : Limited g s (A ++ f :: B) n 1) (hTop : f.undecides n = true) :
    waiting g s n = 0 ∧ ∀ f' ∈ A ++ B, f'.undecides n = false := by
  have hAlone := alone_of_limited hPlaced hLimited
  simp only [List.countP_append, List.countP_cons, hTop, if_true] at hAlone
  have hNone : (A ++ B).countP (Frame.undecides n) = 0 := by
    rw [List.countP_append]
    omega
  refine ⟨by omega, fun f' hMem => ?_⟩
  simpa using List.countP_eq_zero.mp hNone f' hMem

theorem undecides_of_carries (hCarries : f.carries n = true) : f.undecides n = true := by
  cases f with
  | run r pc =>
      simp only [Frame.carries, Frame.undecides, Frame.runsWith, Bool.and_eq_true,
        Bool.or_eq_true, decide_eq_true_eq] at hCarries ⊢
      refine ⟨hCarries.1.1, ?_⟩
      rcases hCarries.1.2 with hStarting | hDeciding
      · cases pc <;> first | rfl | exact absurd hStarting Bool.false_ne_true
      · cases pc <;> first | rfl | exact absurd hDeciding Bool.false_ne_true
  | _ => exact absurd hCarries Bool.false_ne_true

/-! ## Steps of the protocol -/

theorem inputsDone_iff {streams : Streams} :
    inputsDone g streams n = true ↔ ∀ t ∈ g.inputs n, (streams t).isDone = true := by
  simp [inputsDone]

/-- Only the node's own decision touches its marks. -/
theorem finalized_eq (hStep : exec g s f x = some (s', fs))
    (hOther : ∀ r b, f = .run r (.decide b) → r.node ≠ n) :
    finalized g s' n = finalized g s n := by
  unfold finalized SchedulerQueue.isFinalized
  rcases exec_marks (g.queue n) hStep with ⟨-, hSame⟩ | ⟨r, b, rfl, hEq, hQueue⟩
  · rw [hSame]
  · have hNe := hOther r b rfl
    rw [hQueue]
    unfold SchedulerQueue.decideFinalize
    repeat' split
    · simp [Ne.symm hNe]
    · rfl
    · rfl

/-- The decision of a call that finds the node noted finalizes it. -/
theorem finalized_of_decide {r : Invocation} (hQueue : r.queue = g.queue r.node)
    (hStopped : stopped s r.node = false) (hNoted : noted g s r.node = true)
    (hStep : exec g s (.run r (.decide true)) x = some (s', fs)) :
    finalized g s' r.node = true := by
  rcases noted_iff.mp hNoted with (hPending | hFinal) | hStop
  · exact finalized_of_pending hQueue hPending hStep
  · exact exec_finalized hStep (by simpa [finalized, SchedulerQueue.isFinalized] using hFinal)
  · exact absurd hStop (by simp [hStopped])

/-- A call that finds all inputs done notes it. -/
theorem noted_of_decide {r : Invocation} (hQueue : r.queue = g.queue r.node)
    (hStep : exec g s (.run r (.decide true)) x = some (s', fs)) :
    noted g s' r.node = true := by
  refine noted_iff.mpr (Or.inl ?_)
  rw [queue_of_decide hQueue hStep]
  exact (decideFinalize_marks _ _ _ _).mpr (Or.inr ⟨rfl, rfl⟩)

/-- The first decision does not. -/
theorem not_finalized_of_decide {r : Invocation} {b : Bool} (hQueue : r.queue = g.queue r.node)
    (hNoted : noted g s r.node = false)
    (hStep : exec g s (.run r (.decide b)) x = some (s', fs)) :
    finalized g s' r.node = false := by
  have hMarks : (r.node ∉ (s.queues (g.queue r.node)).closePending ∧
      r.node ∉ (s.queues (g.queue r.node)).finalizedNodes) ∧ stopped s r.node = false := by
    have hNot : ¬ noted g s r.node = true := by simp [hNoted]
    rw [noted_iff] at hNot
    simpa [not_or] using hNot
  obtain ⟨⟨hPending, hFinal⟩, -⟩ := hMarks
  unfold finalized
  rw [queue_of_decide hQueue hStep]
  unfold SchedulerQueue.decideFinalize SchedulerQueue.isFinalized
  cases b <;> simp [hPending, hFinal]

/-! ## The invariant, part by part -/

/-- The parts of the guard. -/
theorem guards_of_observesOnce {fs : List Frame}
    (hGuard : (observesOnce g n).exec s fs f x = true) :
    (returnsOk n).exec s fs f x = true ∧ (silentWhenDone g n).exec s fs f x = true ∧
      (restsWhenFinalized g n).exec s fs f x = true ∧ (heardInFlight g n).exec s fs f x = true := by
  simp only [observesOnce, settles, Guard.and, Bool.and_eq_true] at hGuard
  exact ⟨hGuard.1.1, hGuard.1.2.1, hGuard.1.2.2, hGuard.2⟩

theorem isOk_of_returnsOk {r : Invocation} {status : Status}
    {writes : List (String × ShardWrite)} {fs : List Frame}
    (hOk : (returnsOk r.node).exec s fs (.run r .inProcess) (.returns status writes) = true) :
    status.isOk = true := by
  simpa [returnsOk] using hOk

/-- The node does not stop. -/
theorem stopped_of_returnsOk (hOk : (returnsOk n).exec s (A ++ B) f x = true)
    (hStep : exec g s f x = some (s', fs)) (hStopped : stopped s n = false) :
    stopped s' n = false := by
  by_contra hNow
  rcases exec_stopped hStep (by simpa using hNow) with hOld | ⟨r, status, writes, rfl, rfl, rfl, hStop⟩
  · exact absurd hOld (by simp [hStopped])
  · rw [Status.isStopStatus_of_isOk (isOk_of_returnsOk hOk)] at hStop
    exact absurd hStop Bool.false_ne_true

/-- It is found done by its own decision. -/
theorem noted_of_exec (hOk : (returnsOk n).exec s (A ++ B) f x = true)
    (hStep : exec g s f x = some (s', fs)) (hNoted : noted g s' n = true) :
    noted g s n = true ∨ ∃ r, f = .run r (.decide true) ∧ r.node = n := by
  rcases noted_cases hStep hNoted with hOld | hDecide | ⟨r, status, writes, rfl, rfl, rfl, hStop⟩
  · exact Or.inl hOld
  · exact Or.inr hDecide
  · rw [Status.isStopStatus_of_isOk (isOk_of_returnsOk hOk)] at hStop
    exact absurd hStop Bool.false_ne_true

theorem inputsDone_of_silent (hSilent : (silentWhenDone g n).exec s (A ++ B) f x = true)
    (hStep : exec g s f x = some (s', fs)) (hDone : inputsDone g s.net.streams n = true) :
    inputsDone g s'.net.streams n = true := by
  rw [inputsDone_iff] at hDone ⊢
  exact fun t hPort => exec_isDone_silent hPort hSilent hStep (hDone t hPort)

/-- What the frames a step leaves know. -/
theorem Observing.informed_new (hObserving : Observing g n s (A ++ f :: B))
    (hPlaced : Placed g s (A ++ f :: B)) (hNode : g.isSource n = false)
    (hOk : (returnsOk n).exec s (A ++ B) f x = true)
    (hSilent : (silentWhenDone g n).exec s (A ++ B) f x = true)
    (hStep : exec g s f x = some (s', fs)) {r : Invocation} {pc : RunPc}
    (hMem : .run r pc ∈ fs) (hIs : r.node = n) : Informed g s' r pc := by
  rcases run_of_exec hStep hMem with ⟨r₀, pc₀, t, rfl, hTurn, rfl, hNext⟩ |
    ⟨q, it, queue, -, -, -, rfl, rfl⟩
  · have hIs₀ : r₀.node = n := (runStep_next hTurn hNext).2.1.symm.trans hIs
    have hKeep : Informed g t.state r₀ pc₀ := by
      refine (hObserving.informed r₀ pc₀ mem_running hIs₀).mono (fun u hPort hDone => ?_)
        (exec_closes hStep)
      exact exec_isDone_silent (hIs₀ ▸ hPort) hSilent hStep hDone
    obtain ⟨hQueue, -, -, -⟩ := hPlaced.run r₀ pc₀ mem_running
    refine runStep_informed hTurn hNext hKeep ?_ ?_
    · rintro status writes rfl rfl hStop -
      subst hIs₀
      rw [Status.isStopStatus_of_isOk (isOk_of_returnsOk hOk)] at hStop
      exact absurd hStop Bool.false_ne_true
    · rintro rfl - hClose
      -- whoever closes has found the node noted, and so has seen done
      obtain ⟨hPending, hFinal⟩ := decideFinalize_kClose hClose
      have hNoted : noted g s n = true := by
        rw [← hIs₀]
        exact noted_iff.mpr (Or.inl (Or.inl (hQueue ▸ hPending)))
      have hAgrees := hObserving.agreed hNoted (.run r₀ (.decide true)) mem_running
      refine ⟨Frame.agrees_of_undecided hAgrees hIs₀ rfl, ?_⟩
      cases hTurn
      simp [closes, finalized, SchedulerQueue.isFinalized, ← hQueue, hFinal]
  · exact .of_popped ⟨[], rfl, .nil⟩ rfl rfl

/-- A call that carries goes on carrying, until its decision. -/
theorem runStep_carries {r : Invocation} {pc : RunPc} {t : Turn (Invocation × RunPc)}
    (hTurn : runStep g s r x pc = some t) (hPlaced : pc.Placed g r.node)
    (hOpen : r.isOpen = false) (hNode : g.isSource r.node = false) (hNow : pc ≠ .decide true)
    (hCarries : (Frame.run r pc).carries r.node = true)
    (hDone : inputsDone g s.net.streams r.node = true)
    (hOk : ∀ status writes, pc = .inProcess → x = .returns status writes → status.isOk = true) :
    ∃ r' pc', t.next = some (r', pc') ∧ (Frame.run r' pc').carries r.node = true := by
  simp only [Frame.carries, Frame.runsWith, decide_true, Bool.true_and, Bool.and_eq_true,
    Bool.or_eq_true, Bool.not_eq_true'] at hCarries
  obtain ⟨hOn, hSees⟩ := hCarries
  rcases hOn with hStarting | hDeciding
  · cases pc with
    | popInputs rest =>
        cases rest with
        | nil =>
            simp only [runStep, hOpen, Bool.false_eq_true, if_false, Option.some.injEq] at hTurn
            cases hTurn
            exact ⟨_, _, rfl, by simpa [Frame.carries, Frame.runsWith, RunPc.starting,
              Invocation.seesDone] using hSees⟩
        | cons p rest =>
            cases hTurn
            refine ⟨_, _, rfl, ?_⟩
            have hStill : r.inputs.all (fun shard => shard.done) = false := hSees
            simp [Frame.carries, Frame.runsWith, RunPc.starting, Invocation.seesDone, hStill]
    | prepareOutputs rest =>
        cases rest with
        | nil =>
            cases hTurn
            exact ⟨_, _, rfl, by simp [Frame.carries, Frame.runsWith, RunPc.deciding, hSees]⟩
        | cons o rest =>
            cases hTurn
            exact ⟨_, _, rfl, by simpa [Frame.carries, Frame.runsWith, RunPc.starting,
              Invocation.prepare, Invocation.seesDone] using hSees⟩
    | _ => exact absurd hStarting Bool.false_ne_true
  · obtain ⟨r', pc', hNext, hAfter⟩ := runStep_deciding hTurn hDeciding hNow hNode hPlaced
      (inputsDone_iff.mp hDone) hOk
    have hUndecided : pc'.undecided = true := by
      cases pc' <;> first | rfl | exact absurd hAfter Bool.false_ne_true
    have hInputs : r'.inputs = r.inputs := by
      refine (runStep_undecided hTurn hNext hUndecided).2.resolve_right ?_
      rintro ⟨port, u, rest, shard, rfl, -⟩
      exact absurd hDeciding Bool.false_ne_true
    have hStill : r'.seesDone = false := by
      unfold Invocation.seesDone at hSees ⊢
      rw [hInputs]
      exact hSees
    exact ⟨r', pc', hNext, by simp [Frame.carries, Frame.runsWith, hAfter, hStill,
      (runStep_next hTurn hNext).2.1]⟩

/-- **Who will see the inputs done**: a call that carries, or the node is noted. -/
theorem Observing.carried_exec (hObserving : Observing g n s (A ++ f :: B))
    (hPlaced : Placed g s (A ++ f :: B)) (hNode : g.isSource n = false)
    (hGuard : (observesOnce g n).exec s (A ++ B) f x = true)
    (hStep : exec g s f x = some (s', fs))
    (hDone : inputsDone g s'.net.streams n = true) :
    noted g s' n = true ∨ ∃ f' ∈ A ++ (fs ++ B), f'.carries n = true := by
  obtain ⟨hOk, -, -, hHeard⟩ := guards_of_observesOnce hGuard
  have hStays : (∃ f' ∈ A ++ B, f'.carries n = true) →
      ∃ f' ∈ A ++ (fs ++ B), f'.carries n = true := by
    rintro ⟨f', hMem, hCarries⟩
    refine ⟨f', ?_, hCarries⟩
    simp only [List.mem_append] at hMem ⊢
    tauto
  by_cases hBefore : inputsDone g s.net.streams n = true
  · rcases hObserving.carried hBefore with hNoted | ⟨f', hMem, hCarries⟩
    · exact Or.inl (exec_noted hStep hNoted)
    · by_cases hOther : f' ∈ A ++ B
      · exact Or.inr (hStays ⟨f', hOther, hCarries⟩)
      · -- the call itself takes a step
        obtain rfl : f' = f := by
          simp only [List.mem_append, List.mem_cons] at hMem hOther
          tauto
        cases f' with
        | run r pc =>
            obtain rfl : r.node = n := by
              simp only [Frame.carries, Frame.runsWith, Bool.and_eq_true,
                decide_eq_true_eq] at hCarries
              exact hCarries.1.1
            obtain ⟨hQueue, hOpen, -, hPc⟩ := hPlaced.run r pc (by simp)
            by_cases hNow : pc = .decide true
            · subst hNow
              exact Or.inl (noted_of_decide hQueue hStep)
            · obtain ⟨t, hTurn, rfl, rfl⟩ := exec_run hStep
              obtain ⟨r', pc', hNext, hAfter⟩ := runStep_carries hTurn hPc hOpen hNode hNow
                hCarries hBefore
                (fun status writes hEq hx => by subst hEq hx; exact isOk_of_returnsOk hOk)
              exact Or.inr ⟨.run r' pc', by simp [hNext, runFrame], hAfter⟩
        | _ => exact absurd hCarries Bool.false_ne_true
  · -- some input becomes done with this step
    right
    obtain ⟨t, hPort, hNot⟩ : ∃ t ∈ g.inputs n, (s.stream t).isDone = false := by
      simpa [inputsDone, Shared.stream] using hBefore
    have hNow : (s'.stream t).isDone = true := inputsDone_iff.mp hDone t hPort
    have hChange := exec_stream t hStep
    generalize hLater : s'.stream t = m at hChange hNow
    cases hChange with
    | same => exact absurd hNow (by simp [hNot])
    | popped r port rest =>
        -- its last packet is popped, by a call that carries from now on
        obtain ⟨-, -, -, hPorts⟩ := hPlaced.run r (.popInputs ((port, t) :: rest)) (by simp)
        have hIs : r.node = n := by
          rw [← Graph.owner_of_mem hPort]
          exact (g.owner_port r.node _ (hPorts _ List.mem_cons_self)).symm
        have hPacket : (s.stream t).popQueueHead.2.1 = false := by
          unfold InputStreamManager.popQueueHead at hNow ⊢
          split at hNow
          · exact absurd hNow (by simp [hNot])
          · rfl
        obtain ⟨u, hTurn, rfl, rfl⟩ := exec_run hStep
        have hNext : ∃ r', u.next = some (r', .popInputs rest) ∧ r'.node = n ∧
            r'.seesDone = false := by
          cases hTurn
          exact ⟨_, rfl, hIs, by simp [Invocation.seesDone, hPacket]⟩
        obtain ⟨r', hEq, hIs', hSees⟩ := hNext
        refine ⟨.run r' (.popInputs rest), by simp [hEq, runFrame], ?_⟩
        simp [Frame.carries, Frame.runsWith, hIs', RunPc.starting, hSees]
    | bounded p =>
        have hStreams : s'.net.streams =
            (Propagation.boundStep g.routes s.net.streams p).1 := by
          cases hStep
          rfl
        rw [hStreams] at hDone
        refine hStays (List.any_eq_true.mp ?_)
        simpa [heardInFlight, hBefore, hDone] using hHeard
    | added p _ _ hPackets =>
        exact absurd (InputStreamManager.isDone_of_addPackets hPackets hNow) (by simp [hNot])

/-- Once a node has been found done, its undecided calls have seen nothing else. -/
theorem Observing.agreed_exec (hObserving : Observing g n s (A ++ f :: B))
    (hPlaced : Placed g s (A ++ f :: B)) (hLimited : Limited g s (A ++ f :: B) n 1)
    (hOk : (returnsOk n).exec s (A ++ B) f x = true)
    (hStep : exec g s f x = some (s', fs)) (hNoted : noted g s' n = true) :
    ∀ f' ∈ A ++ (fs ++ B), f'.agrees n = true := by
  have hSplit : (∀ f' ∈ A ++ B, f'.agrees n = true) → (∀ f' ∈ fs, f'.agrees n = true) →
      ∀ f' ∈ A ++ (fs ++ B), f'.agrees n = true := by
    intro hOthers hNew f' hMem
    rcases mem_new_or_others hMem with hFs | hOther
    · exact hNew f' hFs
    · exact hOthers f' hOther
  rcases noted_of_exec hOk hStep hNoted with hBefore | ⟨r, rfl, rfl⟩
  · have hAll := hObserving.agreed hBefore
    exact hSplit (fun f' hMem => hAll f' (mem_of_others hMem))
      (exec_agrees hPlaced (hAll f mem_running)
        (inputsDone_iff.mp (hObserving.done hBefore)) hStep)
  · -- the first decision: no other call is undecided
    have hAlone := (others_decided hPlaced hLimited
      (by simp [Frame.undecides, Frame.runsWith, RunPc.undecided])).2
    refine hSplit (fun f' hMem => ?_) ?_
    · have hDecided := hAlone f' hMem
      cases f' with
      | run r' pc' =>
          simp only [Frame.undecides, Frame.runsWith] at hDecided
          simp [Frame.agrees, hDecided]
      | _ => rfl
    · cases hStep
      simp [Frame.agrees, RunPc.undecided]

/-- Only a call that meets an input which is not done decides so. -/
theorem runStep_unsure {r r' : Invocation} {pc : RunPc} {t : Turn (Invocation × RunPc)}
    (hTurn : runStep g s r x pc = some t) (hNext : t.next = some (r', .decide false)) :
    r' = r ∧ (g.isSource r.node = true ∨
      ∃ u rest, pc = .scanDone (u :: rest) ∧ (s.stream u).isDone = false) := by
  revert hTurn
  fun_cases runStep g s r x pc
  case case12 status =>
    intro hTurn
    cases hTurn
    obtain ⟨rfl, hPc⟩ := Prod.mk.inj (Option.some.inj hNext)
    refine ⟨rfl, Or.inl ?_⟩
    unfold afterProcess at hPc
    repeat' split at hPc
    all_goals first
      | assumption
      | cases hPc
  case case22 u rest =>
    intro hTurn
    cases hTurn
    obtain ⟨rfl, hPc⟩ := Prod.mk.inj (Option.some.inj hNext)
    refine ⟨rfl, Or.inr ⟨u, rest, rfl, ?_⟩⟩
    by_contra hDone
    rw [if_pos (by simpa using hDone)] at hPc
    cases hPc
  all_goals
    intro hTurn
    cases hTurn
  all_goals try unfold afterAct at hNext
  all_goals repeat' split at hNext
  all_goals cases hNext

/-- A call that has seen all inputs done does not find one that is not. -/
theorem Observing.unsure_exec (hObserving : Observing g n s (A ++ f :: B))
    (hPlaced : Placed g s (A ++ f :: B)) (hNode : g.isSource n = false)
    (hStep : exec g s f x = some (s', fs)) {r : Invocation}
    (hMem : .run r (.decide false) ∈ fs) (hIs : r.node = n) : r.seesDone = false := by
  rcases run_of_exec hStep hMem with ⟨r₀, pc₀, t, rfl, hTurn, -, hNext⟩ |
    ⟨_, _, _, -, -, -, -, hPc⟩
  · have hIs₀ : r₀.node = n := (runStep_next hTurn hNext).2.1.symm.trans hIs
    have hInformed := hObserving.informed r₀ pc₀ mem_running hIs₀
    obtain ⟨-, -, -, hPc⟩ := hPlaced.run r₀ pc₀ mem_running
    obtain ⟨rfl, hSource | ⟨u, rest, rfl, hNot⟩⟩ := runStep_unsure hTurn hNext
    · exact absurd (hIs₀ ▸ hSource) (by simp [hNode])
    · by_contra hSees
      have hDone := (hInformed.isDone rfl (by simpa using hSees)).2 u (hPc u List.mem_cons_self)
      exact absurd hDone (by simp [hNot])
  · cases hPc

/-- Only a call of `Process` is logged as one. -/
theorem exec_observed (hStep : exec g s f x = some (s', fs))
    (hOther : ∀ r, f = .run r (.prepareOutputs []) → r.node ≠ n) :
    observed s' n = observed s n := by
  have hChange := exec_log hStep
  unfold observed
  generalize s'.log = log at hChange ⊢
  cases hChange with
  | processCalled r => simp [List.countP_append, Event.observes, hOther r rfl]
  | _ => simp [List.countP_append, Event.observes]

/-- A call that has seen all inputs done keeps that up to its decision. -/
theorem runStep_observing {r : Invocation} {pc : RunPc} {t : Turn (Invocation × RunPc)}
    (hTurn : runStep g s r x pc = some t) (hNode : g.isSource r.node = false)
    (hNotCall : pc ≠ .prepareOutputs []) (hNotDecide : ∀ b, pc ≠ .decide b)
    (hOk : ∀ status writes, pc = .inProcess → x = .returns status writes → status.isOk = true) :
    t.next.any (fun p => p.2.observing && p.1.seesDone) = (pc.observing && r.seesDone) := by
  revert hTurn
  fun_cases runStep g s r x pc
  case case9 status writes =>
    intro hTurn
    cases hTurn
    have hReturned := hOk status writes rfl rfl
    simp [RunPc.observing, RunPc.deciding, Invocation.seesDone, hReturned]
  case case12 status =>
    intro hTurn
    cases hTurn
    cases hReturned : status.isOk with
    | true => simp [afterProcess_of_isOk hNode hReturned, RunPc.observing, RunPc.deciding, hReturned]
    | false =>
        have hLeft : (afterProcess g r.node status).observing = false := by
          unfold afterProcess
          cases status.isStopStatus <;> simp [RunPc.observing, RunPc.deciding, hReturned]
        have hBefore : (RunPc.postProcess [] status).observing = false := hReturned
        simp [hBefore, hLeft]
  all_goals
    intro hTurn
    cases hTurn
  all_goals first
    | rfl
    | exact absurd rfl hNotCall
    | exact absurd rfl (hNotDecide _)
    | skip
  all_goals try unfold afterAct
  all_goals repeat' split
  all_goals rfl

/-- A frame that is no call of the node's `RunNode` leaves none that observes. -/
theorem countP_observes_of_other (hOther : ∀ r pc, f = .run r pc → r.node ≠ n)
    (hStep : exec g s f x = some (s', fs)) : fs.countP (Frame.observes n) = 0 := by
  cases f with
  | run r pc =>
      obtain ⟨t, hTurn, rfl, rfl⟩ := exec_run hStep
      rw [Frame.observes, countP_runs hTurn]
      cases hNext : t.next with
      | none => rfl
      | some p =>
          obtain ⟨r', pc'⟩ := p
          have hNe : r'.node ≠ n := (runStep_next hTurn hNext).2.1 ▸ hOther r pc rfl
          simp [hNe]
  | runNextTask q =>
      simp only [exec] at hStep
      split at hStep <;> cases hStep
      · rfl
      · simp [Frame.observes, Frame.runsWith, RunPc.observing, RunPc.deciding]
  | _ => exact countP_runs_of_not_run (not_run_of_exec (by simp) (by simp) hStep)

/-- What a call of the node's `RunNode` leaves that observes. -/
theorem countP_observes {r : Invocation} {pc : RunPc} {t : Turn (Invocation × RunPc)}
    (hTurn : runStep g s r x pc = some t) :
    (t.calls ++ (t.next.map runFrame).toList).countP (Frame.observes r.node) =
      if t.next.any (fun p => p.2.observing && p.1.seesDone) then 1 else 0 := by
  rw [Frame.observes, countP_runs hTurn]
  cases hNext : t.next with
  | none => rfl
  | some p =>
      obtain ⟨r', pc'⟩ := p
      have hNode : r'.node = r.node := (runStep_next hTurn hNext).2.1
      simp [hNode]

/-- The decision finalizes the node when the call has seen all inputs done, and only
then. -/
theorem Observing.finalized_exec {r : Invocation} {b : Bool}
    (hObserving : Observing g r.node s (A ++ .run r (.decide b) :: B))
    (hPlaced : Placed g s (A ++ .run r (.decide b) :: B))
    (hLimited : Limited g s (A ++ .run r (.decide b) :: B) r.node 1)
    (hStep : exec g s (.run r (.decide b)) x = some (s', fs)) :
    finalized g s' r.node = r.seesDone := by
  obtain ⟨hQueue, -, -, -⟩ := hPlaced.run r (.decide b) (by simp)
  cases hSees : r.seesDone with
  | true =>
      have hSure : b = true := by
        by_contra hNot
        obtain rfl : b = false := by simpa using hNot
        have hLacks := hObserving.unsure r (by simp) rfl
        exact absurd hSees (by simp [hLacks])
      subst hSure
      have hDone := ((hObserving.informed r (.decide true) (by simp) rfl).isDone rfl hSees).2
      rcases hObserving.carried (inputsDone_iff.mpr hDone) with hNoted | ⟨f', hMem, hCarries⟩
      · exact finalized_of_decide hQueue hObserving.stopped hNoted hStep
      · -- no other call is undecided, and this one does not carry
        have hOthers := (others_decided hPlaced hLimited
          (by simp [Frame.undecides, Frame.runsWith, RunPc.undecided])).2
        have hSelf : f' = .run r (.decide true) := by
          by_contra hNe
          have hOther : f' ∈ A ++ B := by
            simp only [List.mem_append, List.mem_cons] at hMem ⊢
            tauto
          exact absurd (undecides_of_carries hCarries) (by simp [hOthers f' hOther])
        subst hSelf
        exact absurd hCarries (by simp [Frame.carries, Frame.runsWith, hSees])
  | false =>
      refine not_finalized_of_decide hQueue ?_ hStep
      by_contra hNoted
      have hAgrees := hObserving.agreed (by simpa using hNoted) (.run r (.decide b)) (by simp)
      have hSees' := Frame.agrees_of_undecided hAgrees rfl rfl
      exact absurd hSees' (by simp [hSees])

/-- **The count**: a call that sees all inputs done is counted when it calls `Process`,
and its decision finalizes the node. -/
theorem Observing.counted_exec (hObserving : Observing g n s (A ++ f :: B))
    (hPlaced : Placed g s (A ++ f :: B)) (hLimited : Limited g s (A ++ f :: B) n 1)
    (hNode : g.isSource n = false) (hOk : (returnsOk n).exec s (A ++ B) f x = true)
    (hStep : exec g s f x = some (s', fs)) :
    observed s' n + (if finalized g s n then 1 else 0) + [f].countP (Frame.observes n) =
      observed s n + (if finalized g s' n then 1 else 0) + fs.countP (Frame.observes n) := by
  by_cases hRun : ∃ r pc, f = .run r pc ∧ r.node = n
  · obtain ⟨r, pc, rfl, rfl⟩ := hRun
    have hTop : [Frame.run r pc].countP (Frame.observes r.node) =
        if pc.observing && r.seesDone then 1 else 0 := by
      simp [Frame.observes, Frame.runsWith, List.countP_cons]
    obtain ⟨t, hTurn, rfl, rfl⟩ := exec_run hStep
    rw [hTop, countP_observes hTurn]
    by_cases hCall : pc = .prepareOutputs []
    · -- `Process` is called
      subst hCall
      have hFinal : finalized g t.state r.node = finalized g s r.node :=
        finalized_eq hStep fun r₀ b hEq => by cases hEq
      have hLog : observed t.state r.node = observed s r.node + if r.seesDone then 1 else 0 := by
        cases hTurn
        simp [observed, Shared.record, Event.observes, Invocation.seesDone, List.countP_append]
      have hNext : t.next.any (fun p => p.2.observing && p.1.seesDone) = r.seesDone := by
        cases hTurn
        rfl
      have hBefore : (RunPc.prepareOutputs []).observing = false := rfl
      simp only [hFinal, hLog, hNext, hBefore, Bool.false_and, Bool.false_eq_true, if_false]
      omega
    have hLog : observed t.state r.node = observed s r.node :=
      exec_observed hStep fun r₀ hEq => by cases hEq; exact absurd rfl hCall
    by_cases hNow : ∃ b, pc = .decide b
    · obtain ⟨b, rfl⟩ := hNow
      have hUndecided : (Frame.run r (.decide b)).undecides r.node = true := by
        simp [Frame.undecides, Frame.runsWith, RunPc.undecided]
      have hBefore : finalized g s r.node = false := by
        by_contra hFinal
        have hNone := (hObserving.rests (by simpa using hFinal)).2
        exact absurd hUndecided (by simpa using List.countP_eq_zero.mp hNone _ (by simp))
      have hObserves : (RunPc.decide b).observing = true := by cases b <;> rfl
      have hNext : t.next.any (fun p => p.2.observing && p.1.seesDone) = false := by
        cases hTurn
        rfl
      rw [hLog, hBefore, hObserving.finalized_exec hPlaced hLimited hStep, hObserves, hNext]
      simp
    · have hFinal : finalized g t.state r.node = finalized g s r.node := by
        refine finalized_eq hStep fun r₀ b hEq => ?_
        cases hEq
        exact absurd ⟨b, rfl⟩ hNow
      have hSame := runStep_observing hTurn hNode hCall (fun b hEq => hNow ⟨b, hEq⟩)
        (fun status writes hEq hx => by subst hEq hx; exact isOk_of_returnsOk hOk)
      rw [hFinal, hLog, hSame]
  · have hOther : ∀ r pc, f = .run r pc → r.node ≠ n := fun r pc hEq hIs =>
      hRun ⟨r, pc, hEq, hIs⟩
    have hTop : [f].countP (Frame.observes n) = 0 := by
      rw [List.countP_eq_zero]
      rintro f' hMem hIs
      obtain rfl := List.mem_singleton.mp hMem
      cases f' with
      | run r pc =>
          simp only [Frame.observes, Frame.runsWith, Bool.and_eq_true, decide_eq_true_eq] at hIs
          exact hRun ⟨r, pc, rfl, hIs.1.1⟩
      | _ => exact absurd hIs Bool.false_ne_true
    have hFinal : finalized g s' n = finalized g s n :=
      finalized_eq hStep fun r b hEq => hOther r _ hEq
    have hLog : observed s' n = observed s n :=
      exec_observed hStep fun r hEq => hOther r _ hEq
    rw [hTop, countP_observes_of_other hOther hStep, hFinal, hLog]

/-- Without items of the node, only its undecided calls leave one. -/
theorem countP_undecides_of_not (hPlaced : Placed g s (A ++ f :: B))
    (hWaiting : waiting g s n = 0) (hTop : f.undecides n = false)
    (hStep : exec g s f x = some (s', fs)) : fs.countP (Frame.undecides n) = 0 := by
  cases f with
  | run r pc =>
      obtain ⟨t, hTurn, rfl, rfl⟩ := exec_run hStep
      rw [Frame.undecides, countP_runs hTurn]
      cases hNext : t.next with
      | none => rfl
      | some p =>
          obtain ⟨r', pc'⟩ := p
          have hNode : r'.node = r.node := (runStep_next hTurn hNext).2.1
          have hNot : (decide (r'.node = n) && pc'.undecided) = false := by
            by_contra hIs
            simp only [Bool.not_eq_false, Bool.and_eq_true, decide_eq_true_eq] at hIs
            have hBefore := (runStep_undecided hTurn hNext hIs.2).1
            exact absurd hTop (by simp [Frame.undecides, Frame.runsWith, ← hNode, hIs.1, hBefore])
          simp [hNot]
  | runNextTask q =>
      have hPopped := waiting_popped (n := n) hPlaced hStep
      have hLe : fs.countP (Frame.undecides n) ≤ fs.countP (Frame.starts n) := by
        simp only [exec] at hStep
        split at hStep <;> cases hStep
        · exact le_rfl
        · exact Nat.le_of_eq rfl
      omega
  | _ => exact countP_runs_of_not_run (not_run_of_exec (by simp) (by simp) hStep)

/-- A finalized node rests. -/
theorem Observing.rests_exec (hObserving : Observing g n s (A ++ f :: B))
    (hPlaced : Placed g s (A ++ f :: B)) (hLimited : Limited g s (A ++ f :: B) n 1)
    (hRests : (restsWhenFinalized g n).exec s (A ++ B) f x = true)
    (hStep : exec g s f x = some (s', fs)) (hFinal : finalized g s' n = true) :
    waiting g s' n = 0 ∧ (A ++ (fs ++ B)).countP (Frame.undecides n) = 0 := by
  by_cases hBefore : finalized g s n = true
  · obtain ⟨hWaiting, hNone⟩ := hObserving.rests hBefore
    have hTop : f.undecides n = false := by
      simpa using List.countP_eq_zero.mp hNone f (by simp)
    have hNew := countP_undecides_of_not hPlaced hWaiting hTop hStep
    simp only [List.countP_append, List.countP_cons] at hNone ⊢
    refine ⟨?_, by omega⟩
    rcases exec_waiting (n := n) hStep with hLess | ⟨hSchedules, hAccepts, -⟩
    · omega
    · -- the guard turns the request away
      simp [restsWhenFinalized, hSchedules, hAccepts, hBefore] at hRests
  · -- the node's own decision, and no other call of it is undecided
    obtain ⟨r, b, rfl, rfl⟩ : ∃ r b, f = .run r (.decide b) ∧ r.node = n := by
      by_contra hNot
      have hSame := finalized_eq (n := n) hStep fun r b hEq hIs => hNot ⟨r, b, hEq, hIs⟩
      exact hBefore (hSame ▸ hFinal)
    obtain ⟨hWaiting, hOthers⟩ := others_decided hPlaced hLimited
      (by simp [Frame.undecides, Frame.runsWith, RunPc.undecided])
    have hNone : (A ++ B).countP (Frame.undecides r.node) = 0 := by
      rw [List.countP_eq_zero]
      intro f' hMem
      simp [hOthers f' hMem]
    have hNew : fs.countP (Frame.undecides r.node) = 0 := by
      cases hStep
      simp [Frame.undecides, Frame.runsWith, RunPc.undecided]
    simp only [List.countP_append] at hNone ⊢
    refine ⟨?_, by omega⟩
    rcases exec_waiting (n := r.node) hStep with hLess | ⟨hSchedules, -, -⟩
    · omega
    · simp [Frame.schedules] at hSchedules

/-- **One step**. -/
theorem Observing.exec (hObserving : Observing g n s (A ++ f :: B))
    (hPlaced : Placed g s (A ++ f :: B)) (hLimited : Limited g s (A ++ f :: B) n 1)
    (hNode : g.isSource n = false) (hGuard : (observesOnce g n).exec s (A ++ B) f x = true)
    (hStep : Scheduler.exec g s f x = some (s', fs)) : Observing g n s' (A ++ (fs ++ B)) := by
  obtain ⟨hOk, hSilent, hRests, -⟩ := guards_of_observesOnce hGuard
  have hSplit : ∀ {f' : Frame}, f' ∈ A ++ (fs ++ B) → f' ∈ fs ∨ f' ∈ A ++ f :: B := by
    intro f' hMem
    simp only [List.mem_append, List.mem_cons] at hMem ⊢
    tauto
  refine ⟨stopped_of_returnsOk hOk hStep hObserving.stopped, ?_,
    hObserving.carried_exec hPlaced hNode hGuard hStep, ?_,
    hObserving.agreed_exec hPlaced hLimited hOk hStep, ?_, ?_,
    hObserving.rests_exec hPlaced hLimited hRests hStep⟩
  · intro r pc hMem hIs
    rcases hSplit hMem with hNew | hOld
    · exact hObserving.informed_new hPlaced hNode hOk hSilent hStep hNew hIs
    · refine (hObserving.informed r pc hOld hIs).mono (fun t hPort hDone => ?_) (exec_closes hStep)
      exact exec_isDone_silent (hIs ▸ hPort) hSilent hStep hDone
  · intro hNoted
    refine inputsDone_of_silent hSilent hStep ?_
    rcases noted_of_exec hOk hStep hNoted with hBefore | ⟨r, rfl, rfl⟩
    · exact hObserving.done hBefore
    · -- the decision is about inputs that have all been scanned
      have hScanned := (hObserving.informed r (.decide true) (by simp) rfl).scanned [] rfl
      refine inputsDone_iff.mpr fun t hPort => ?_
      exact (hScanned t hPort).resolve_left List.not_mem_nil
  · intro r hMem hIs
    rcases hSplit hMem with hNew | hOld
    · exact hObserving.unsure_exec hPlaced hNode hStep hNew hIs
    · exact hObserving.unsure r hOld hIs
  · have hBefore := hObserving.counted
    have hStepCount := hObserving.counted_exec hPlaced hLimited hNode hOk hStep
    simp only [List.countP_append, List.countP_cons, List.countP_nil] at hBefore hStepCount ⊢
    omega

theorem Observing.spawn {b : Call} (hObserving : Observing g n s A)
    (hSpawn : Scheduler.spawn g s b = some (s', fs)) : Observing g n s' (A ++ fs) := by
  have hNotRun := not_run_of_spawn hSpawn
  obtain ⟨tasks, rfl, -⟩ := spawn_frame hSpawn
  have hObserves : fs.countP (Frame.observes n) = 0 := countP_runs_of_not_run hNotRun
  have hUndecides : fs.countP (Frame.undecides n) = 0 := countP_runs_of_not_run hNotRun
  obtain ⟨hStopped, hInformed, hCarried, hDone, hAgreed, hUnsure, hCounted, hRests⟩ := hObserving
  refine ⟨hStopped, fun r pc hMem hIs => ?_, fun hNow => ?_, hDone, fun hNoted f hMem => ?_,
    fun r hMem hIs => ?_, ?_, fun hFinal => ?_⟩
  · rcases List.mem_append.mp hMem with hOld | hNewFrame
    · exact (hInformed r pc hOld hIs).mono (fun _ _ hStill => hStill) id
    · exact absurd rfl (hNotRun _ hNewFrame r pc)
  · refine (hCarried hNow).imp_right ?_
    rintro ⟨f, hMem, hCarries⟩
    exact ⟨f, List.mem_append_left _ hMem, hCarries⟩
  · rcases List.mem_append.mp hMem with hOld | hNewFrame
    · exact hAgreed hNoted f hOld
    · cases f with
      | run r pc => exact absurd rfl (hNotRun _ hNewFrame r pc)
      | _ => rfl
  · rcases List.mem_append.mp hMem with hOld | hNewFrame
    · exact hUnsure r hOld hIs
    · exact absurd rfl (hNotRun _ hNewFrame r _)
  · rw [List.countP_append, hObserves]
    exact hCounted
  · rw [List.countP_append, hUndecides]
    exact hRests hFinal

theorem observing_of_reaches {outputs : OutId → OutputStreamManager} {defaultQueue : QueueId}
    {errorCallback : Bool} {c : Config Shared Frame} (hNode : g.isSource n = false)
    (hMax : g.maxInFlight n = 1)
    (hReach : (machine g).Reaches (observesOnce g n)
      (started (initial outputs defaultQueue errorCallback)) c) :
    Observing g n c.shared c.frames := by
  refine Machine.invariant_with (J := fun s fs => Placed g s fs ∧ Limited g s fs n 1)
    (I := Observing g n) (fun c hReach => ?_) ?_ ?_ ?_ hReach
  · have hAny := (machine g).reaches_all hReach
    exact ⟨placed_of_reaches hAny, limited_of_reaches hMax.le Int.one_nonneg hAny⟩
  · have hNoted : noted g (initial outputs defaultQueue errorCallback) n = false := by
      simp [initial, noted, closes, finalized, SchedulerQueue.isFinalized, stopped]
    have hNotDone : inputsDone g (initial outputs defaultQueue errorCallback).net.streams n =
        false := by
      have hFresh : ({} : InputStreamManager).isDone = false := by decide
      cases hPorts : g.inputPorts n with
      | nil => simp [Graph.isSource, hPorts] at hNode
      | cons p ports => simp [inputsDone, Graph.inputs, hPorts, initial, hFresh]
    refine ⟨by simp [started, initial, stopped], ?_, fun hDone => ?_, fun hNow => ?_,
      fun hNow => ?_, ?_, ?_, fun hFinal => ?_⟩
    · simp [started, Config.frames]
    · exact absurd hDone (by simp [started, hNotDone])
    · exact absurd hNow (by simp [started, hNoted])
    · exact absurd hNow (by simp [started, hNoted])
    · simp [started, Config.frames]
    · simp [started, Config.frames, initial, observed, finalized, SchedulerQueue.isFinalized,
        Frame.observes, Frame.runsWith]
    · exact absurd hFinal (by simp [started, initial, finalized, SchedulerQueue.isFinalized])
  · rintro s A f B x s' fs ⟨hPlaced, hLimited⟩ hObserving hGuard hStep
    exact hObserving.exec hPlaced hLimited hNode hGuard hStep
  · intro s A b s' fs _ hObserving _ hSpawn
    exact hObserving.spawn hSpawn

theorem observes_le : A.countP (Frame.observes n) ≤ A.countP (Frame.undecides n) := by
  refine List.countP_mono_left fun f _ hIs => ?_
  cases f with
  | run r pc =>
      simp only [Frame.observes, Frame.runsWith, Bool.and_eq_true, decide_eq_true_eq] at hIs
      have hUndecided : pc.undecided = true := by
        cases pc <;> first | rfl | exact absurd hIs.1.2 Bool.false_ne_true
      simp [Frame.undecides, Frame.runsWith, hIs.1.1, hUndecided]
  | _ => exact absurd hIs Bool.false_ne_true

/-- **Done is observed once.**  When the graph terminates as it should, exactly one
call of `Process` has seen all inputs of the node done, and no other will. -/
theorem done_observed_once {outputs : OutId → OutputStreamManager} {defaultQueue : QueueId}
    {errorCallback : Bool} {c c' : Config Shared Frame}
    (hReach : (machine g).Reaches ((drainsAlone g).and (observesOnce g n))
      (started (initial outputs defaultQueue errorCallback)) c)
    (hMem : n ∈ g.nodes) (hNode : g.isSource n = false) (hMax : g.maxInFlight n = 1)
    {l : IdleLocals} {rest : List NodeId}
    (hQuits : .handleIdle (.closeNodes l rest) ∈ c.frames) (hError : c.shared.hasError = false)
    (hAfter : (machine g).Reaches (observesOnce g n) c c') : observed c'.shared n = 1 := by
  obtain ⟨hDrains, hOnce⟩ := (machine g).reaches_of_and hReach
  have hFinal : finalized g c.shared n = true :=
    ((drained_before_terminated hDrains hQuits hError).2 n hMem hNode).2
  have hStill : finalized g c'.shared n = true := by
    refine Machine.invariant (I := fun s _ => finalized g s n = true) hFinal ?_ ?_ hAfter
    · intro s A f B x s' fs hNow _ hStep
      exact exec_finalized hStep hNow
    · intro s A b s' fs hNow _ hSpawn
      obtain ⟨tasks, rfl, -⟩ := spawn_frame hSpawn
      exact hNow
  have hObserving := observing_of_reaches hNode hMax (hOnce.trans hAfter)
  have hCounted := hObserving.counted
  have hNone := (hObserving.rests hStill).2
  have hLe := observes_le (A := c'.frames) (n := n)
  rw [hStill, if_pos rfl] at hCounted
  omega

/-- The rule at work: the input is closed while `Process` works on its last packet. -/
theorem done_observed_once_chain :
    ∃ c : Config Shared Frame, c.shared.state = .kTerminated ∧ observed c.shared 0 = 1 := by
  obtain ⟨c, hReach, hTest⟩ := (machine (.chain 1 id (by simp))).exists_reaches
    ((drainsAlone (.chain 1 id (by simp))).and (observesOnce (.chain 1 id (by simp)) 0))
    (started (chainInitial 1 false))
    (runs 0 19 .ok ++ calls (.addPacketToInputStream "in" ⟨some 1, Timestamp.ofValue 0⟩) 1 14 .ok ++
      calls (.worker 0) 2 5 .ok ++ calls (.closeInputStream "in") 3 14 .ok ++ runs 2 25 .ok ++
      calls (.worker 0) 4 31 .ok ++ calls (.worker 0) 5 23 .ok)
    (fun c => c.frames.any (Frame.quitsAfter (some .kDrained)) && !c.shared.hasError &&
      ((machine (.chain 1 id (by simp))).runSchedule (observesOnce (.chain 1 id (by simp)) 0) c
        (runs 5 3 .ok)).any fun c' : Config Shared Frame =>
          decide (c'.shared.state = .kTerminated))
    (by decide +kernel)
  simp only [Bool.and_eq_true, Bool.not_eq_true'] at hTest
  obtain ⟨⟨hQuits, hError⟩, hLast⟩ := hTest
  obtain ⟨c', hAfter, hDone⟩ := (machine _).exists_reaches _ c _ _ hLast
  obtain ⟨f, hMem, hIs⟩ := List.any_eq_true.mp hQuits
  unfold Frame.quitsAfter at hIs
  split at hIs
  · exact ⟨c', of_decide_eq_true hDone, done_observed_once hReach (by simp [Graph.chain]) rfl rfl
      hMem hError hAfter⟩
  · exact absurd hIs Bool.false_ne_true

/-- **Done is observed twice.**  It reaches a node that is idle: the invocation the
arrival callback asks for sees it, and so does the one this invocation asks for. -/
theorem done_observed_twice :
    ∃ c : Config Shared Frame,
      (machine (.chain 1 id (by simp))).Reaches
        ((drainsAlone (.chain 1 id (by simp))).and (settles (.chain 1 id (by simp)) 0))
        (started (chainInitial 1 false)) c ∧
      c.shared.state = .kTerminated ∧ c.shared.hasError = false ∧ observed c.shared 0 = 2 := by
  obtain ⟨c, hReach, hTest⟩ := (machine (.chain 1 id (by simp))).exists_reaches
    ((drainsAlone (.chain 1 id (by simp))).and (settles (.chain 1 id (by simp)) 0))
    (started (chainInitial 1 false))
    (runs 0 19 .ok ++ calls (.closeInputStream "in") 1 16 .ok ++ calls (.worker 0) 2 30 .ok ++
      calls (.worker 0) 3 31 .ok ++ calls (.worker 0) 4 26 .ok)
    (fun c => decide (c.shared.state = .kTerminated) && !c.shared.hasError &&
      decide (observed c.shared 0 = 2)) (by decide +kernel)
  simp only [Bool.and_eq_true, Bool.not_eq_true', decide_eq_true_eq] at hTest
  obtain ⟨⟨hState, hError⟩, hTwice⟩ := hTest
  exact ⟨c, hReach, hState, hError, hTwice⟩

end GraphRuntime.Scheduler
