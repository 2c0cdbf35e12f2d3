import GraphRuntime.Lib.Frames
import GraphRuntime.Scheduler.Channel

/-!
# A stream whose manager closes

When a node is done its output managers are closed, while a call of it may still have packets
in its shards, a propagation may be on its way from mirror to mirror, and `Close` propagates
what it finds.  What is left behind then is lost, so the equation of a channel holds no more
with nothing on its way.  But nothing overtakes, and nothing comes twice: what a consumer has
taken, with its queue, is always the beginning of what the node has put in.

* A frame that is `Spent` brings nothing to the stream any more.
* In every run at most one frame is not, and it has the next packets (`Ending`).
* `readers_agree`: of two consumers of one output, one has taken what the other has, and
  maybe more.
-/

namespace GraphRuntime.Scheduler

open GraphRuntime.Stream Interleaving

variable {g : Graph} {outputs : OutId → OutputStreamManager} {ch : Channel g outputs}
  {s s' : Recorded Shared Transfer} {f : Frame} {fs A B : List Frame} {x : Choice}
  {way : List Packet}

/-! ## Frames that bring nothing any more -/

/-- `RunNode` is on its way to the end of `Process`. -/
def RunPc.Filling : RunPc → Prop
  | .popInputs _ | .prepareOutputs _ | .inProcess => True
  | _ => False

/-- The managers whose shards are still to be prepared. -/
def RunPc.toPrepare : RunPc → List OutId
  | .prepareOutputs rest => rest
  | _ => []

/-- The shard of the manager has been prepared, and `Process` has not returned. -/
def RunPc.Prepared (o : OutId) : RunPc → Prop
  | .prepareOutputs rest => o ∉ rest
  | .inProcess => True
  | _ => False

/-- A call of the node that finds its shard closed. -/
structure Sealed (ch : Channel g outputs) (r : Invocation) (pc : RunPc) : Prop where
  toPrepare : ∀ o ∈ pc.toPrepare, o ∈ g.outputs ch.node
  closed : pc.Prepared ch.manager → (r.outputs ch.port).closed = true

structure Frame.Spent (ch : Channel g outputs) (f : Frame) : Prop where
  quiet : f.Quiet ch
  sealed : ∀ r pc, f = .run r pc → r.node = ch.node → Sealed ch r pc

theorem spent_of_not_run (hQuiet : f.Quiet ch) (hRun : ∀ r pc, f ≠ .run r pc) : f.Spent ch :=
  ⟨hQuiet, fun r pc hEq => absurd hEq (hRun r pc)⟩

theorem sealed_of_not_filling {r : Invocation} {pc : RunPc} (hFilling : ¬ pc.Filling) :
    Sealed ch r pc := by
  cases pc with
  | popInputs | prepareOutputs | inProcess => exact absurd trivial hFilling
  | _ => exact ⟨fun o hMem => absurd hMem List.not_mem_nil, False.elim⟩

theorem Frame.Apart.spent (hApart : f.Apart ch) : f.Spent ch := by
  refine ⟨hApart.quiet, ?_⟩
  rintro r pc rfl hNode
  refine sealed_of_not_filling fun hFilling => ?_
  have hIdle := hApart.idle
  cases pc with
  | popInputs | prepareOutputs | inProcess =>
      simp [Frame.holdsPending, RunPc.holdsPending, hNode] at hIdle
  | _ => exact hFilling

/-- **The next place of a call that finds its shard closed.** -/
theorem sealed_of_runStep {s : Shared} {r r' : Invocation} {pc pc' : RunPc}
    {t : Turn (Invocation × RunPc)} (hWired : WiredAs outputs s)
    (hClosed : (s.net.outputs ch.manager).closed = true) (hNode : r.node = ch.node)
    (hSealed : Sealed ch r pc) (hTurn : runStep g s r x pc = some t)
    (hNext : t.next = some (r', pc')) : Sealed ch r' pc' := by
  have hOthers : ∀ o rest, o ∈ g.outputs ch.node →
      ((RunPc.prepareOutputs (o :: rest)).Prepared ch.manager → (r.outputs ch.port).closed = true) →
      ch.manager ∉ rest → ((r.prepare s.net o).outputs ch.port).closed = true := by
    intro o rest hOut hBefore hRest
    show (Function.update r.outputs (s.net.port o) _ ch.port).closed = true
    by_cases hEq : o = ch.manager
    · subst hEq
      rw [hWired.port, Channel.port, Function.update_self]
      exact hClosed
    · rw [hWired.port, Channel.port,
        Function.update_of_ne fun hPort => hEq (ch.port_eq o hOut hPort.symm)]
      refine hBefore fun hMem => ?_
      rcases List.mem_cons.mp hMem with hHere | hIn
      · exact hEq hHere.symm
      · exact hRest hIn
  revert hTurn
  fun_cases runStep g s r x pc
  case case3 =>
    intro hTurn
    cases hTurn
    cases hNext
    refine ⟨fun o hMem => hNode ▸ hMem, fun hPrepared => absurd ch.owned ?_⟩
    exact hNode ▸ hPrepared
  case case6 o rest =>
    intro hTurn
    cases hTurn
    cases hNext
    exact ⟨fun o' hMem => hSealed.toPrepare o' (List.mem_cons_of_mem o hMem),
      hOthers o rest (hSealed.toPrepare o List.mem_cons_self) hSealed.closed⟩
  case case7 =>
    intro hTurn
    cases hTurn
    cases hNext
    exact ⟨fun o hMem => absurd hMem List.not_mem_nil,
      fun _ => hSealed.closed List.not_mem_nil⟩
  all_goals intro hTurn; cases hTurn
  all_goals cases hNext
  all_goals try unfold afterProcess
  all_goals try unfold afterAct
  all_goals repeat' split
  all_goals exact ⟨fun o hMem => absurd hMem List.not_mem_nil, False.elim⟩

/-- **What a spent frame leaves** is spent, and the equation stays. -/
theorem spent_step (hWired : WiredAs outputs s.state) (hSpent : f.Spent ch)
    (hClosed : ∀ r pc, f = .run r pc → (s.state.net.outputs ch.manager).closed = true)
    (hStep : (traced g).exec s f x = some (s', fs)) :
    (∀ way, Carries ch s way → Carries ch s' way) ∧ ∀ f' ∈ fs, f'.Spent ch := by
  obtain ⟨hExec, -⟩ := Machine.tracing_exec hStep
  by_cases hProcess : ∃ r, f = .run r .inProcess ∧ r.node = ch.node
  · -- `Process` returns, and the shard has dropped what was written to it
    obtain ⟨r, rfl, hNode⟩ := hProcess
    cases x with
    | step => cases hExec
    | returns status writes =>
        have hEmpty : (applyWrites r.outputs writes ch.port).outputQueue = [] :=
          applyWrites_of_closed writes ((hSpent.sealed r _ rfl hNode).closed trivial)
            (hSpent.quiet.2 hNode)
        constructor
        · intro way hCarries
          refine hCarries.exec (fun e hEmission => ?_) (fun p hFrame => by cases hFrame) hStep
          cases hEmission
          unfold Emission.packets
          split
          · exact hEmpty
          · rfl
        · obtain ⟨-, rfl⟩ := Prod.mk.inj (Option.some.inj hExec)
          intro f' hMem
          obtain rfl := List.mem_singleton.mp hMem
          refine ⟨⟨fun o hLeft => hLeft, fun _ => hEmpty⟩, ?_⟩
          intro r' pc' hFrame _
          cases hFrame
          exact sealed_of_not_filling id
  · have hOther : ∀ r, f = .run r .inProcess → r.node ≠ ch.node :=
      fun r hFrame hNode => hProcess ⟨r, hFrame, hNode⟩
    refine ⟨fun way hCarries => hCarries.quiet hSpent.quiet hOther hStep, fun f' hMem => ?_⟩
    refine ⟨quiet_of_exec hWired hSpent.quiet hOther hExec f' hMem, ?_⟩
    rintro r' pc' rfl hNode'
    rcases run_of_exec hExec hMem with
      ⟨r, pc, t, rfl, hTurn, -, hNext⟩ | ⟨q, it, queue, rfl, -, -, rfl, rfl⟩
    · obtain ⟨-, hSame, -⟩ := runStep_next hTurn hNext
      have hNode : r.node = ch.node := hSame ▸ hNode'
      exact sealed_of_runStep hWired (hClosed r pc rfl) hNode (hSpent.sealed r pc rfl hNode)
        hTurn hNext
    · exact ⟨fun o hLeft => absurd hLeft List.not_mem_nil, False.elim⟩

/-! ## The frame that has the next packets -/

/-- A call of the node with packets in its shard, or a propagation that has packets for the
stream. -/
inductive Bears (ch : Channel g outputs) (s : Recorded Shared Transfer) : Frame → Prop
  | calling (r : Invocation) (pc : RunPc) (hNode : r.node = ch.node)
      (hLeft : ∀ o ∈ pc.outputsLeft, o ∈ g.outputs r.node)
      (hShard : pc.Filling → (r.outputs ch.port).outputQueue = [])
      (hCarries : Carries ch s (r.outputs ch.port).outputQueue) : Bears ch s (.run r pc)
  | passing (f : Frame) (p : Propagation) (left : List StreamId) (hFrame : Iterates g p left f)
      (hPassing : Passing ch s p left) : Bears ch s f

/-- What has been put in begins with what has been taken and what is queued, and at most one
frame is not spent: that one has what comes next. -/
structure Ending (ch : Channel g outputs) (s : Recorded Shared Transfer) (fs : List Frame) :
    Prop where
  carries : ∃ way, Carries ch s way
  one : AllButOne (Frame.Spent ch) fs
  bears : ∀ f ∈ fs, f.Spent ch ∨ Bears ch s f

theorem Bears.carries (hBears : Bears ch s f) : ∃ way, Carries ch s way := by
  cases hBears with
  | calling r pc hNode hLeft hShard hCarries => exact ⟨_, hCarries⟩
  | passing _ p left hFrame hPassing => exact ⟨_, hPassing.carries⟩

/-- It depends on the state through the equation. -/
theorem Bears.keep (hBears : Bears ch s f) (hKeep : ∀ way, Carries ch s way → Carries ch s' way) :
    Bears ch s' f := by
  cases hBears with
  | calling r pc hNode hLeft hShard hCarries =>
      exact .calling r pc hNode hLeft hShard (hKeep _ hCarries)
  | passing _ p left hFrame hPassing =>
      exact .passing f p left hFrame ⟨hPassing.nodup, hKeep _ hPassing.carries⟩

/-- Frames that are spent, and one that has the next packets. -/
theorem ending_of_bears (hBefore : ∀ h ∈ A, h.Spent ch) (hBears : Bears ch s f)
    (hAfter : ∀ h ∈ B, h.Spent ch) : Ending ch s (A ++ f :: B) := by
  have hSelf : AllButOne (Frame.Spent ch) [f] := List.pairwise_singleton _ _
  have hOne := allButOne_append (List.forall_mem_append.mpr ⟨hBefore, hAfter⟩) hSelf
  refine ⟨hBears.carries, hOne, fun h hMem => ?_⟩
  rcases List.mem_append.mp hMem with hIn | hIn
  · exact Or.inl (hBefore h hIn)
  · rcases List.mem_cons.mp hIn with rfl | hIn
    · exact Or.inr hBears
    · exact Or.inl (hAfter h hIn)

theorem ending_of_spent (hCarries : Carries ch s way) (hSpent : ∀ h ∈ fs, h.Spent ch) :
    Ending ch s fs :=
  ⟨⟨way, hCarries⟩, allButOne_of_forall hSpent, fun h hMem => Or.inl (hSpent h hMem)⟩

/-! ### A propagation -/

theorem spent_arrivalCallback {wake : Option StreamId} :
    ∀ f ∈ arrivalCallback g wake, f.Spent ch := by
  intro f hMem
  cases wake with
  | none => exact absurd hMem List.not_mem_nil
  | some t =>
      rw [List.mem_singleton.mp hMem]
      exact spent_of_not_run trivial fun r pc hEq => by cases hEq

/-- **The step of a propagation** that has the next packets. -/
theorem ending_of_passing {p : Propagation} {left : List StreamId} (hReceptive : Receptive s.state)
    (hFrame : Iterates g p left f) (hPassing : Passing ch s p left)
    (hStep : (traced g).exec s f x = some (s', fs)) : Ending ch s' fs := by
  have hHistory := history_of_iterates hFrame hStep
  have hExec : exec g s.state f x = some (s'.state, fs) := (Machine.tracing_exec hStep).1
  cases hFrame with
  | packets =>
      simp only [exec] at hExec
      split at hExec
      · obtain ⟨hState, rfl⟩ := Prod.mk.inj (Option.some.inj hExec)
        have hCarries := hPassing.carries
        unfold Carries at hCarries
        rw [hState, ← hHistory] at hCarries
        exact ending_of_spent hCarries (List.forall_mem_nil _)
      · obtain ⟨hState, rfl⟩ := Prod.mk.inj (Option.some.inj hExec)
        have hNext := hPassing.packets hReceptive hState.symm hHistory
        refine ending_of_bears spent_arrivalCallback (.passing _ _ _ .bound ?_)
          (List.forall_mem_nil _)
        simpa only [Propagation.targets, Propagation.packetStep_mirrors] using hNext
  | bound =>
      have hQueue : (s'.state.stream ch.stream).queue = (s.state.stream ch.stream).queue := by
        have hChange := exec_stream ch.stream hExec
        generalize s'.state.stream ch.stream = m at hChange ⊢
        cases hChange with
        | same => rfl
        | bounded => exact InputStreamManager.setNextTimestampBound_queue ..
      obtain ⟨-, rfl⟩ := Prod.mk.inj (Option.some.inj hExec)
      refine ending_of_bears spent_arrivalCallback (.passing _ _ _ .packets ?_)
        (List.forall_mem_nil _)
      rw [Propagation.boundStep_snd]
      exact hPassing.bound hQueue hHistory

/-! ### A call of the node -/

variable {r : Invocation} {pc : RunPc}

/-- **`Process` returns** with an empty shard before. -/
theorem ending_of_returns (hNode : r.node = ch.node) (hCarries : Carries ch s [])
    (hStep : (traced g).exec s (.run r .inProcess) x = some (s', fs)) : Ending ch s' fs := by
  have hInput : ch.input s'.history = ch.input s.history ++
      (Frame.emission (.run r .inProcess) x).toList.flatMap
        (Emission.packets g ch.manager ch.port) := input_of_exec hStep
  have hOutput : ch.output s'.history ++ (s'.state.stream ch.stream).queue =
      ch.output s.history ++ (s.state.stream ch.stream).queue :=
    takenFrom_append_queue _ hStep fun p hFrame => by cases hFrame
  have hExec : exec g s.state (.run r .inProcess) x = some (s'.state, fs) :=
    (Machine.tracing_exec hStep).1
  cases x with
  | step => cases hExec
  | returns status writes =>
      obtain ⟨-, rfl⟩ := Prod.mk.inj (Option.some.inj hExec)
      have hOwned : ch.manager ∈ g.outputs r.node := hNode ▸ ch.owned
      refine ending_of_bears (A := []) (List.forall_mem_nil _)
        (.calling _ _ hNode (fun o hMem => hMem) False.elim ?_) (List.forall_mem_nil _)
      refine hCarries.of_step hInput ?_
      rw [hOutput, List.append_nil]
      simp [Frame.emission, Emission.packets, hOwned]

/-- A call whose shard is empty. -/
theorem ending_of_empty (hWired : WiredAs outputs s.state) (hNode : r.node = ch.node)
    (hLeft : ∀ o ∈ pc.outputsLeft, o ∈ g.outputs r.node)
    (hEmpty : (r.outputs ch.port).outputQueue = []) (hCarries : Carries ch s [])
    (hProcess : pc ≠ .inProcess)
    (hStep : (traced g).exec s (.run r pc) x = some (s', fs)) : Ending ch s' fs := by
  obtain ⟨hExec, -⟩ := Machine.tracing_exec hStep
  have hAfter : Carries ch s' [] := hCarries.call (fun hPc => absurd hPc hProcess) hStep
  have hCall : Frame.Quiet ch (.run r pc) := ⟨hLeft, fun _ => hEmpty⟩
  have hQuiet : ∀ f' ∈ fs, f'.Quiet ch := quiet_of_exec hWired hCall
    (fun r' hFrame => absurd (Frame.run.inj hFrame).2 hProcess) hExec
  obtain ⟨t, hTurn, -, rfl⟩ := exec_run hExec
  rw [List.forall_mem_append] at hQuiet
  have hCalls : ∀ f ∈ t.calls, f.Spent ch := fun f hMem =>
    spent_of_not_run (hQuiet.1 f hMem) (runStep_calls hTurn f hMem).2
  cases hNext : t.next with
  | none =>
      rw [Option.map_none, Option.toList_none, List.append_nil]
      exact ending_of_spent hAfter hCalls
  | some p =>
      obtain ⟨r', pc'⟩ := p
      rw [hNext] at hQuiet
      have hSelf : Frame.Quiet ch (.run r' pc') := hQuiet.2 _ (List.mem_singleton_self _)
      have hNode' : r'.node = ch.node := (runStep_next hTurn hNext).2.1.trans hNode
      have hEmpty' := hSelf.2 hNode'
      refine ending_of_bears hCalls (.calling r' pc' hNode' hSelf.1 (fun _ => hEmpty') ?_)
        (List.forall_mem_nil _)
      rw [hEmpty']
      exact hAfter

theorem spent_closeManager (o : OutId) : (Frame.closeManager o).Spent ch :=
  spent_of_not_run trivial fun r pc hEq => by cases hEq

/-- A call of the node that sends for another manager goes on with what its shard holds. -/
theorem ending_of_other {o : OutId} {bound : Timestamp} {shard : OutputStreamShard}
    {callees : List Frame} (hWired : WiredAs outputs s.state) (hNode : r.node = ch.node)
    (hOut : o ∈ g.outputs r.node) (hOther : o ≠ ch.manager)
    (hLeft : ∀ o ∈ pc.outputsLeft, o ∈ g.outputs r.node) (hFilling : ¬ pc.Filling)
    (hCallees : ∀ f ∈ callees, f.Spent ch)
    (hCarries : Carries ch s' (r.outputs ch.port).outputQueue) :
    Ending ch s' (.propagate ((s.state.net.outputs o).beginPropagate bound shard).2 ::
      (callees ++ [.run (r.clear s.state.net o) pc])) := by
  have hClear : (r.clear s.state.net o).outputs ch.port = r.outputs ch.port := by
    rw [clear_port hWired, if_neg]
    intro hPort
    exact hOther (ch.port_eq o (hNode ▸ hOut) hPort.symm)
  have hPropagate : (Frame.propagate
      ((s.state.net.outputs o).beginPropagate bound shard).2).Spent ch := by
    refine spent_of_not_run (fun hTarget => ?_) fun r pc hEq => by cases hEq
    have hConsumer : ch.stream ∈ (s.state.net.outputs o).mirrors.filterMap
      (Mirror.resolve g.routes) := hTarget
    rw [hWired.targets o] at hConsumer
    exact absurd (ch.alone o hConsumer) hOther
  refine ending_of_bears (A := _ :: callees) (List.forall_mem_cons.mpr ⟨hPropagate, hCallees⟩)
    (.calling _ pc hNode hLeft (fun hHere => absurd hHere hFilling) ?_) (List.forall_mem_nil _)
  rw [hClear]
  exact hCarries

/-- **`Close` sends what the shard holds.** -/
theorem ending_of_sends {bound : Timestamp} {callees : List Frame}
    (hWired : WiredAs outputs s.state)
    (hLeft : ∀ o ∈ pc.outputsLeft, o ∈ g.outputs r.node) (hFilling : ¬ pc.Filling)
    (hCallees : ∀ f ∈ callees, f.Spent ch)
    (hCarries : Carries ch s' (r.outputs ch.port).outputQueue) :
    Ending ch s' (.propagate ((s.state.net.outputs ch.manager).beginPropagate bound
        (r.outputs (shardPort outputs ch.manager))).2 ::
      (callees ++ [.run (r.clear s.state.net ch.manager) pc])) := by
  have hTargets : (s.state.net.outputs ch.manager).mirrors.filterMap (Mirror.resolve g.routes) =
      consumers g outputs ch.manager := hWired.targets ch.manager
  have hSelf : (Frame.run (r.clear s.state.net ch.manager) pc).Spent ch := by
    refine ⟨⟨hLeft, fun _ => ?_⟩, ?_⟩
    · rw [clear_port hWired]
      exact congrArg OutputStreamShard.outputQueue (if_pos rfl)
    · intro r' pc' hFrame _
      cases hFrame
      exact sealed_of_not_filling hFilling
  refine ending_of_bears (A := []) (List.forall_mem_nil _) (.passing _ _ _ .packets ⟨?_, ?_⟩)
    (List.forall_mem_append.mpr ⟨hCallees, List.forall_mem_singleton.mpr hSelf⟩)
  · show ((s.state.net.outputs ch.manager).mirrors.filterMap _).Nodup
    rw [hTargets]
    exact ch.consumers_nodup
  · have hMem : ch.stream ∈ Propagation.targets g.routes
        ((s.state.net.outputs ch.manager).beginPropagate bound
          (r.outputs (shardPort outputs ch.manager))).2 := by
      show ch.stream ∈ (s.state.net.outputs ch.manager).mirrors.filterMap _
      rw [hTargets]
      exact ch.consumer
    rw [if_pos hMem]
    exact hCarries

/-- Where nothing is sent and no shard is prepared, a call keeps its shards. -/
theorem runStep_keeps {s : Shared} {r' : Invocation} {pc' : RunPc}
    {t : Turn (Invocation × RunPc)} (hTurn : runStep g s r x pc = some t)
    (hNext : t.next = some (r', pc')) (hFilling : ¬ pc.Filling) (hLeft : pc.outputsLeft = []) :
    r' = r ∧ ¬ pc'.Filling := by
  revert hTurn
  fun_cases runStep g s r x pc
  all_goals intro hTurn; cases hTurn
  all_goals cases hNext
  all_goals try exact absurd trivial hFilling
  all_goals try exact absurd hLeft (List.cons_ne_nil _ _)
  all_goals try unfold afterProcess
  all_goals try unfold afterAct
  all_goals repeat' split
  all_goals exact ⟨rfl, id⟩

/-- A call that has nothing to send. -/
theorem ending_of_keeps (hNode : r.node = ch.node) (hFilling : ¬ pc.Filling)
    (hLeft : pc.outputsLeft = []) (hCarries : Carries ch s (r.outputs ch.port).outputQueue)
    (hStep : (traced g).exec s (.run r pc) x = some (s', fs)) : Ending ch s' fs := by
  obtain ⟨hExec, -⟩ := Machine.tracing_exec hStep
  have hAfter : Carries ch s' (r.outputs ch.port).outputQueue := by
    refine hCarries.call ?_ hStep
    rintro rfl
    exact absurd trivial hFilling
  have hNone : ∀ p, Sent g s.state p (.run r pc) → False := by
    intro p hSent
    cases hSent with
    | shard _ _ o hIn =>
        rw [hLeft] at hIn
        exact List.not_mem_nil hIn
    | onward p₀ _ _ _ hFrame => rcases hFrame with hFrame | hFrame <;> cases hFrame
  have hCalls : ∀ f' ∈ fs, (∀ r' pc', f' ≠ .run r' pc') → f'.Spent ch := by
    intro f' hMem hRun
    refine spent_of_not_run ?_ hRun
    cases f' with
    | run r' pc' => exact absurd rfl (hRun r' pc')
    | propagate p => exact (hNone p (exec_sent hExec (Or.inl hMem))).elim
    | propagateBound p => exact (hNone p (exec_sent hExec (Or.inr hMem))).elim
    | api pc' =>
        cases pc' with
        | injectPacket o packet =>
            have hExec' : Scheduler.exec g s.state (.run r pc) x = some (s'.state, fs) := hExec
            obtain ⟨name, hLookup⟩ := inject_of_exec hExec' hMem
            rintro rfl
            exact ch.inner name hLookup
        | _ => trivial
    | _ => trivial
  obtain ⟨t, hTurn, -, rfl⟩ := exec_run hExec
  have hBefore : ∀ f ∈ t.calls, f.Spent ch := fun f hMem =>
    hCalls f (List.mem_append_left _ hMem) (runStep_calls hTurn f hMem).2
  cases hNext : t.next with
  | none =>
      rw [Option.map_none, Option.toList_none, List.append_nil]
      exact ending_of_spent hAfter hBefore
  | some p =>
      obtain ⟨r', pc'⟩ := p
      obtain ⟨rfl, hNot⟩ := runStep_keeps hTurn hNext hFilling hLeft
      have hLater : ∀ o ∈ pc'.outputsLeft, o ∈ g.outputs r'.node := by
        intro o hMem
        rcases runStep_outputsLeft hTurn hNext hMem with hOld | hNew
        · rw [hLeft] at hOld
          exact absurd hOld List.not_mem_nil
        · exact hNew
      exact ending_of_bears hBefore
        (.calling r' pc' hNode hLater (fun hHere => absurd hHere hNot) hAfter)
        (List.forall_mem_nil _)

/-- **The step of a call** that has the next packets, when the manager is closed. -/
theorem ending_of_calling (hWired : WiredAs outputs s.state)
    (hClosed : (s.state.net.outputs ch.manager).closed = true) (hNode : r.node = ch.node)
    (hLeft : ∀ o ∈ pc.outputsLeft, o ∈ g.outputs r.node)
    (hShard : pc.Filling → (r.outputs ch.port).outputQueue = [])
    (hCarries : Carries ch s (r.outputs ch.port).outputQueue)
    (hStep : (traced g).exec s (.run r pc) x = some (s', fs)) : Ending ch s' fs := by
  have hRest : ∀ {o : OutId} {rest : List OutId}, pc.outputsLeft = o :: rest →
      ∀ o' ∈ rest, o' ∈ g.outputs r.node := by
    intro o rest hEq o' hMem
    refine hLeft o' ?_
    rw [hEq]
    exact List.mem_cons_of_mem o hMem
  by_cases hFilling : pc.Filling
  · have hEmpty := hShard hFilling
    rw [hEmpty] at hCarries
    by_cases hProcess : pc = .inProcess
    · subst hProcess
      exact ending_of_returns hNode hCarries hStep
    · exact ending_of_empty hWired hNode hLeft hEmpty hCarries hProcess hStep
  have hAfter : Carries ch s' (r.outputs ch.port).outputQueue := by
    refine hCarries.call ?_ hStep
    rintro rfl
    exact absurd trivial hFilling
  cases hOutputs : pc.outputsLeft with
  | nil => exact ending_of_keeps hNode hFilling hOutputs hCarries hStep
  | cons o rest =>
      obtain ⟨hExec, -⟩ := Machine.tracing_exec hStep
      obtain ⟨t, hTurn, -, rfl⟩ := exec_run hExec
      have hOut : o ∈ g.outputs r.node := by
        refine hLeft o ?_
        rw [hOutputs]
        exact List.mem_cons_self
      cases pc with
      | postProcess left status =>
          obtain rfl : left = o :: rest := hOutputs
          simp only [runStep] at hTurn
          split at hTurn
          · cases hTurn
            exact ending_of_bears (A := []) (List.forall_mem_nil _)
              (.calling r _ hNode (hRest rfl) False.elim hAfter) (List.forall_mem_nil _)
          · rename_i hOpen
            cases hTurn
            have hOther : o ≠ ch.manager := by
              rintro rfl
              exact hOpen hClosed
            refine ending_of_other hWired hNode hOut hOther (hRest rfl) id ?_ hAfter
            intro f hMem
            split at hMem
            · rw [List.mem_singleton.mp hMem]
              exact spent_closeManager o
            · exact absurd hMem List.not_mem_nil
      | closeOutputs left stopped =>
          obtain rfl : left = o :: rest := hOutputs
          cases hTurn
          have hCallees : ∀ f ∈ [Frame.closeManager o], f.Spent ch :=
            List.forall_mem_singleton.mpr (spent_closeManager o)
          have hNot : ¬ (RunPc.closeOutputs rest stopped).Filling := id
          by_cases hEq : o = ch.manager
          · subst hEq
            rw [hWired.port]
            exact ending_of_sends hWired (hRest rfl) hNot hCallees hAfter
          · exact ending_of_other hWired hNode hOut hEq (hRest rfl) hNot hCallees hAfter
      | _ => cases hOutputs

/-! ## In every run -/

/-- A spent frame makes room for spent frames. -/
theorem Ending.replace (hEnding : Ending ch s (A ++ f :: B))
    (hKeep : ∀ way, Carries ch s way → Carries ch s' way) (hNew : ∀ f' ∈ fs, f'.Spent ch) :
    Ending ch s' (A ++ (fs ++ B)) := by
  obtain ⟨way, hCarries⟩ := hEnding.carries
  refine ⟨⟨way, hKeep way hCarries⟩, hEnding.one.replace hNew, fun h hMem => ?_⟩
  by_cases hHere : h ∈ fs
  · exact Or.inl (hNew h hHere)
  · have hOld : h ∈ A ++ f :: B := by
      simp only [List.mem_append, List.mem_cons] at hMem ⊢
      tauto
    exact (hEnding.bears h hOld).imp_right fun hBears => hBears.keep hKeep

/-- The one that has the next packets hands them on. -/
theorem Ending.succeed (hEnding : Ending ch s (A ++ f :: B)) (hNot : ¬ f.Spent ch)
    (hNext : Ending ch s' fs) : Ending ch s' (A ++ (fs ++ B)) := by
  have hOthers := hEnding.one.others hNot
  refine ⟨hNext.carries, hEnding.one.succeed hNot hNext.one, fun h hMem => ?_⟩
  by_cases hHere : h ∈ fs
  · exact hNext.bears h hHere
  · refine Or.inl (hOthers h ?_)
    simp only [List.mem_append] at hMem ⊢
    tauto

/-- **The step of a run** in which the manager is closed. -/
theorem Ending.exec (hEnding : Ending ch s (A ++ f :: B)) (hPlumbed : Plumbed ch s (A ++ f :: B))
    (hClosed : (s.state.net.outputs ch.manager).closed = true)
    (hStep : (traced g).exec s f x = some (s', fs)) : Ending ch s' (A ++ (fs ++ B)) := by
  by_cases hSpent : f.Spent ch
  · obtain ⟨hKeep, hNew⟩ := spent_step hPlumbed.wired hSpent (fun _ _ _ => hClosed) hStep
    exact hEnding.replace hKeep hNew
  · refine hEnding.succeed hSpent ?_
    cases (hEnding.bears f mem_running).resolve_left hSpent with
    | calling r pc hNode hLeft hShard hCarries =>
        exact ending_of_calling hPlumbed.wired hClosed hNode hLeft hShard hCarries hStep
    | passing _ p left hFrame hPassing =>
        exact ending_of_passing hPlumbed.receptive hFrame hPassing hStep

/-- A new thread. -/
theorem Ending.spawn {b : Call} (hEnding : Ending ch s A)
    (hSpawn : (traced g).spawn s b = some (s', fs)) : Ending ch s' (A ++ fs) := by
  obtain ⟨hState, hHistory⟩ := Machine.tracing_spawn hSpawn
  obtain ⟨tasks, hTasks, -⟩ := spawn_frame hState
  have hKeep : ∀ way, Carries ch s way → Carries ch s' way := by
    intro way hCarries
    unfold Carries at hCarries ⊢
    rw [hHistory, hTasks]
    exact hCarries
  have hNew : ∀ f ∈ fs, f.Spent ch := by
    rcases spawn_cases hState with ⟨q, -, -, -, rfl⟩ | ⟨-, pc, rfl, hCall⟩
    · exact List.forall_mem_singleton.mpr (spent_of_not_run trivial fun r pc hEq => by cases hEq)
    · refine List.forall_mem_singleton.mpr (spent_of_not_run ?_ fun r pc hEq => by cases hEq)
      rcases hCall with ⟨_, _, _, rfl⟩ | ⟨_, _, rfl⟩ | ⟨_, rfl⟩ | ⟨_, rfl⟩ | ⟨_, rfl⟩ |
        ⟨_, rfl⟩ | ⟨_, rfl⟩ | ⟨_, rfl⟩
      all_goals trivial
  obtain ⟨way, hCarries⟩ := hEnding.carries
  refine ⟨⟨way, hKeep way hCarries⟩, ?_, fun h hMem => ?_⟩
  · exact List.pairwise_append.mpr ⟨hEnding.one, allButOne_of_forall hNew,
      fun _ _ h hMem => Or.inr (hNew h hMem)⟩
  · rcases List.mem_append.mp hMem with hOld | hIn
    · exact (hEnding.bears h hOld).imp_right fun hBears => hBears.keep hKeep
    · exact Or.inl (hNew h hIn)

/-- No call is on its way to the end of `Process` below another frame. -/
def Frame.PastProcess (f : Frame) : Prop := ∀ r pc, f = .run r pc → ¬ pc.Filling

theorem runStep_pastProcess {s : Shared} {r' : Invocation} {pc' : RunPc}
    {t : Turn (Invocation × RunPc)} (hTurn : runStep g s r x pc = some t) (hCalls : t.calls ≠ [])
    (hNext : t.next = some (r', pc')) : ¬ pc'.Filling := by
  revert hTurn
  fun_cases runStep g s r x pc
  all_goals intro hTurn; cases hTurn
  all_goals try exact absurd rfl hCalls
  all_goals cases hNext
  all_goals try unfold afterAct
  all_goals repeat' split
  all_goals exact id

theorem pastProcess_of_exec {s s' : Shared} (hStep : Scheduler.exec g s f x = some (s', fs)) :
    ∀ h ∈ fs.tail, h.PastProcess := by
  rintro h hMem r' pc' rfl
  rcases run_of_exec hStep (List.mem_of_mem_tail hMem) with
    ⟨r, pc, t, rfl, hTurn, -, hNext⟩ | ⟨q, it, queue, rfl, hPop, -, -, -⟩
  · refine runStep_pastProcess hTurn ?_ hNext
    intro hCalls
    obtain ⟨t', hTurn', -, rfl⟩ := exec_run hStep
    obtain rfl := Option.some.inj (hTurn.symm.trans hTurn')
    rw [hCalls, hNext] at hMem
    exact List.not_mem_nil hMem
  · simp only [Scheduler.exec, hPop] at hStep
    obtain ⟨-, rfl⟩ := Prod.mk.inj (Option.some.inj hStep)
    simp at hMem

section

variable {defaultQueue : QueueId} {callback : Bool} {c : Config (Recorded Shared Transfer) Frame}

theorem pastProcess_of_reaches
    (hReach : (traced g).Reaches Guard.all
      (started (initial outputs defaultQueue callback)).record c) :
    ∀ stack ∈ c.threads, ∀ h ∈ stack.tail, h.PastProcess := by
  refine Machine.forall_below ?_ (fun hStep => pastProcess_of_exec (Machine.tracing_exec hStep).1)
    ?_ hReach
  · intro stack hMem h hTail
    rw [List.mem_singleton.mp hMem] at hTail
    exact absurd hTail List.not_mem_nil
  · intro s b s' fs hSpawn h hTail
    rcases spawn_cases (Machine.tracing_spawn hSpawn).1 with
      ⟨q, -, -, -, rfl⟩ | ⟨-, pc, rfl, -⟩
    · exact absurd hTail List.not_mem_nil
    · exact absurd hTail List.not_mem_nil

/-- **While the manager is open** the frame with the next packets is in the thread of the one
call at a time. -/
theorem ending_of_open
    (hReach : (traced g).Reaches Guard.all
      (started (initial outputs defaultQueue callback)).record c)
    (hOpen : (c.shared.state.net.outputs ch.manager).closed = false) :
    Ending ch c.shared c.frames := by
  have hApart : ∀ {l : List Frame}, (∀ f ∈ l, f.Apart ch) → ∀ f ∈ l, f.Spent ch :=
    fun hAll f hMem => (hAll f hMem).spent
  cases ch.owned_of_reaches hReach hOpen with
  | free hRest hAside => exact ending_of_spent hRest (hApart hAside)
  | owned i stack hThread hCourse hAside =>
      obtain ⟨A, B, hFrames, hAround⟩ := frames_around hThread
      have hOthers : ∀ h ∈ A ++ B, h.Spent ch := by
        intro h hMem
        obtain ⟨j, other, hNe, hOther, hIn⟩ := hAround h hMem
        exact (hAside j other hNe hOther h hIn).spent
      obtain ⟨hA, hB⟩ := List.forall_mem_append.mp hOthers
      have hPast := pastProcess_of_reaches hReach stack (List.mem_of_getElem? hThread)
      obtain ⟨above, work, rfl, hAbove, hWorking⟩ := hCourse
      have hBefore : ∀ h ∈ A ++ above, h.Spent ch :=
        List.forall_mem_append.mpr ⟨hA, hApart hAbove⟩
      rw [hFrames, List.append_assoc, ← List.append_assoc]
      cases hWorking with
      | calling r pc post hCalling hPost =>
          refine ending_of_bears hBefore (.calling r pc hCalling.node hCalling.left ?_
            hCalling.carries) (List.forall_mem_append.mpr ⟨hApart hPost, hB⟩)
          intro hFilling
          refine hCalling.shard.resolve_right ?_
          rintro ⟨rest, status, rfl, -⟩
          exact hFilling
      | passing f p left mid call post hFrame hPassing hMid hHolds hQuiet hPost =>
          have hCall : call.Spent ch := by
            refine ⟨hQuiet, fun r pc hEq _ => sealed_of_not_filling (hPast call ?_ r pc hEq)⟩
            cases above with
            | nil => exact List.mem_append_right _ List.mem_cons_self
            | cons h above =>
                exact List.mem_append_right _ (List.mem_cons_of_mem _
                  (List.mem_append_right _ List.mem_cons_self))
          refine ending_of_bears hBefore (.passing f p left hFrame hPassing)
            (List.forall_mem_append.mpr ⟨?_, hB⟩)
          rw [List.forall_mem_append, List.forall_mem_cons]
          exact ⟨hApart hMid, hCall, hApart hPost⟩

/-- What closes a manager. -/
theorem closes_of_exec {s s' : Shared} {o : OutId} (hStep : Scheduler.exec g s f x = some (s', fs))
    (hOpen : (s.net.outputs o).closed = false) (hClosed : (s'.net.outputs o).closed = true) :
    f = .closeManager o := by
  have hNot : s'.net.outputs o ≠ s.net.outputs o := by
    intro hSame
    rw [hSame, hOpen] at hClosed
    exact Bool.false_ne_true hClosed
  have hPropagate : ∀ {π : Type} {o' : OutId} {bound : Timestamp} {shard : OutputStreamShard}
      {callees : List Frame} {pc : π},
      ((propagateThen s o' bound shard callees pc).state.net.outputs o).closed = false := by
    intro π o' bound shard callees pc
    by_cases hEq : o = o'
    · subst hEq
      show ((s.setOutput o _).net.outputs o).closed = false
      rw [setOutput_self, (beginPropagate_manager _ _ _).1]
      exact hOpen
    · rw [propagateThen_of_ne hEq]
      exact hOpen
  have hWrites := (exec_output hStep).resolve_left hNot
  cases f with
  | closeManager o' => exact congrArg Frame.closeManager hWrites
  | run r pc =>
      exfalso
      obtain ⟨t, hTurn, rfl, -⟩ := exec_run hStep
      revert hTurn
      fun_cases runStep g s r x pc
      all_goals intro hTurn; cases hTurn
      all_goals first
        | exact Bool.false_ne_true (hOpen.symm.trans hClosed)
        | exact Bool.false_ne_true (hPropagate.symm.trans hClosed)
        | exact absurd hWrites List.not_mem_nil
  | api pc =>
      exfalso
      obtain ⟨t, hTurn, rfl, -⟩ := exec_api hStep
      cases pc with
      | injectPacket o' packet =>
          cases hTurn
          exact Bool.false_ne_true (hPropagate.symm.trans hClosed)
      | _ => exact hWrites
  | _ => exact hWrites.elim

/-- **In every run** at most one frame has packets for the stream, and they come next. -/
theorem ending_of_reaches (ch : Channel g outputs)
    (hReach : (traced g).Reaches Guard.all
      (started (initial outputs defaultQueue callback)).record c) :
    Ending ch c.shared c.frames := by
  induction hReach with
  | refl =>
      have hStart : (Frame.start .begin).Spent ch :=
        spent_of_not_run trivial fun r pc hEq => by cases hEq
      have hCarries :
          Carries ch (started (initial outputs defaultQueue callback)).record.shared [] := rfl
      exact ending_of_spent hCarries (List.forall_mem_singleton.mpr hStart)
  | @tail c c' a hBefore hOk hStep ih =>
      cases a with
      | spawn b =>
          obtain ⟨r, hSpawn, rfl⟩ := Option.map_eq_some_iff.mp hStep
          have hNext := ih.spawn hSpawn
          simpa [Config.frames] using hNext
      | run i x =>
          obtain ⟨A, f, below, B, fs, hFrames, hExec, hFrames'⟩ := Machine.step_run hStep
          have hPlumbed : Plumbed ch c.shared c.frames := plumbed_of_reaches hBefore
          cases hAfter : (c'.shared.state.net.outputs ch.manager).closed with
          | false => exact ending_of_open (.tail hBefore hOk hStep) hAfter
          | true =>
              rw [hFrames] at ih hPlumbed
              rw [hFrames']
              cases hNow : (c.shared.state.net.outputs ch.manager).closed with
              | true => exact ih.exec hPlumbed hNow hExec
              | false =>
                  -- the step that closes the manager
                  obtain rfl := closes_of_exec (Machine.tracing_exec hExec).1 hNow hAfter
                  obtain ⟨hKeep, hNew⟩ := spent_step hPlumbed.wired (spent_closeManager _)
                    (fun r pc hEq => by cases hEq) hExec
                  exact ih.replace hKeep hNew

/-- **What has been taken comes first**, whether the manager is open or closed. -/
theorem taken_first (ch : Channel g outputs)
    (hReach : (traced g).Reaches Guard.all
      (started (initial outputs defaultQueue callback)).record c) :
    ch.output c.shared.history ++ (c.shared.state.stream ch.stream).queue <+:
      ch.input c.shared.history := by
  obtain ⟨way, hCarries⟩ := (ending_of_reaches ch hReach).carries
  exact ⟨way, hCarries.symm⟩

/-- **The readers of an output agree**: in every run, what each of two consumers of one output
has taken, with its queue, is the beginning of what the node has put in, and one of them has
taken what the other one has and maybe more. -/
theorem readers_agree (ch ch' : Channel g outputs) (hSame : ch.manager = ch'.manager)
    (hReach : (traced g).Reaches Guard.all
      (started (initial outputs defaultQueue callback)).record c) :
    ch.output c.shared.history ++ (c.shared.state.stream ch.stream).queue <+:
        ch.input c.shared.history ∧
      ch'.output c.shared.history ++ (c.shared.state.stream ch'.stream).queue <+:
        ch.input c.shared.history ∧
      (ch.output c.shared.history <+: ch'.output c.shared.history ∨
        ch'.output c.shared.history <+: ch.output c.shared.history) := by
  have hFirst := taken_first ch hReach
  have hSecond := taken_first ch' hReach
  have hInput : ch'.input c.shared.history = ch.input c.shared.history := by
    unfold Channel.input Channel.port
    rw [hSame]
  rw [hInput] at hSecond
  refine ⟨hFirst, hSecond, ?_⟩
  exact List.prefix_or_prefix_of_prefix ((List.prefix_append _ _).trans hFirst)
    ((List.prefix_append _ _).trans hSecond)

end

/-! ## A fork -/

theorem id_lt_three : ∀ n < 3, id n < 3 := fun _ hLt => hLt

/-- Node 0 writes what nodes 1 and 2 read. -/
def Graph.fork : Graph :=
  { Graph.chain 3 id id_lt_three with outputs := fun n => if n = 0 then [1] else [] }

def forkOutputs (o : OutId) : OutputStreamManager where
  spec := { name := "out" }
  mirrors := if o = 0 then [⟨some 0, 0⟩] else if o = 1 then [⟨some 1, 0⟩, ⟨some 2, 0⟩] else []

theorem consumers_fork (o : OutId) :
    consumers .fork forkOutputs o = if o = 0 then [0] else if o = 1 then [1, 2] else [] := by
  unfold consumers forkOutputs
  by_cases hZero : o = 0
  · simp [hZero, Graph.fork, Graph.chain, Mirror.resolve]
  · by_cases hOne : o = 1
    · simp [hOne, Graph.fork, Graph.chain, Mirror.resolve]
    · simp [hZero, hOne]

theorem outputs_fork {n : NodeId} {o : OutId} (hMem : o ∈ Graph.fork.outputs n) :
    n = 0 ∧ o = 1 := by
  have hOut : o ∈ if n = 0 then [1] else [] := hMem
  split at hOut
  · rename_i hZero
    exact ⟨hZero, List.mem_singleton.mp hOut⟩
  · exact absurd hOut List.not_mem_nil

theorem limit_fork : Graph.fork.maxInFlight 0 ≤ 1 := le_refl 1

theorem outputs_nodup_fork : (Graph.fork.outputs 0).Nodup := List.nodup_singleton 1

theorem owned_fork : 1 ∈ Graph.fork.outputs 0 := List.mem_singleton_self 1

theorem owner_fork (n : NodeId) (hMem : 1 ∈ Graph.fork.outputs n) : n = 0 := (outputs_fork hMem).1

theorem inner_fork (name : String) : Graph.fork.graphInputs.lookup name ≠ some 1 := by
  intro hLookup
  have hInputs : List.lookup name [("in", (0 : OutId))] = some 1 := hLookup
  rw [List.lookup_cons] at hInputs
  split at hInputs
  · cases hInputs
  · cases hInputs

theorem consumers_nodup_fork : (consumers .fork forkOutputs 1).Nodup := by
  rw [consumers_fork]
  decide

theorem mem_consumers_fork {t : StreamId} (hReader : t = 1 ∨ t = 2) (o : OutId) :
    t ∈ consumers .fork forkOutputs o ↔ o = 1 := by
  rw [consumers_fork]
  by_cases hZero : o = 0
  · subst hZero
    rcases hReader with rfl | rfl
    · simp
    · simp
  · by_cases hOne : o = 1
    · simpa [hOne] using hReader
    · simp [hZero, hOne]

theorem consumer_fork {t : StreamId} (hReader : t = 1 ∨ t = 2) :
    t ∈ consumers .fork forkOutputs 1 := (mem_consumers_fork hReader 1).mpr rfl

theorem alone_fork {t : StreamId} (hReader : t = 1 ∨ t = 2) (o : OutId)
    (hMem : t ∈ consumers .fork forkOutputs o) : o = 1 := (mem_consumers_fork hReader o).mp hMem

theorem port_fork (o : OutId) (hMem : o ∈ Graph.fork.outputs 0)
    (_ : shardPort forkOutputs o = shardPort forkOutputs 1) : o = 1 := (outputs_fork hMem).2

/-- From node 0 to one of the two. -/
def Channel.fork (t : StreamId) (hReader : t = 1 ∨ t = 2) : Channel .fork forkOutputs where
  node := 0
  manager := 1
  stream := t
  maxInFlight := limit_fork
  outputs_nodup := outputs_nodup_fork
  owned := owned_fork
  owner := owner_fork
  inner := inner_fork
  consumer := consumer_fork hReader
  consumers_nodup := consumers_nodup_fork
  alone := alone_fork hReader
  port_eq := port_fork

def stopsAt (ts : Int) : Choice :=
  .returns Status.statusStop [("out", .addPacket (stampedAt ts))]

/-- Node 0 has written a packet and stopped, and its output is closed; one of the readers has
taken the packet and the other one has not. -/
theorem readers_agree_fork :
    ∃ c : Config (Recorded Shared Transfer) Frame,
      (traced .fork).Reaches Guard.all (started (initial forkOutputs 0 false)).record c ∧
      (c.shared.state.net.outputs 1).closed = true ∧
      takenFrom 1 c.shared.history = [stampedAt 0] ∧ takenFrom 2 c.shared.history = [] ∧
      (takenFrom 1 c.shared.history <+: takenFrom 2 c.shared.history ∨
        takenFrom 2 c.shared.history <+: takenFrom 1 c.shared.history) := by
  obtain ⟨c, hReach, hTest⟩ := (traced .fork).exists_reaches Guard.all
    (started (initial forkOutputs 0 false)).record
    (runs 0 29 .ok ++ calls (fed 0) 1 14 .ok ++ calls (.worker 0) 2 28 (stopsAt 0) ++
      calls (.worker 1) 3 2 .ok)
    (fun c => (c.shared.state.net.outputs 1).closed &&
      decide (takenFrom 1 c.shared.history = [stampedAt 0]) &&
      decide (takenFrom 2 c.shared.history = []))
    (by decide +kernel)
  simp only [Bool.and_eq_true, decide_eq_true_eq] at hTest
  obtain ⟨⟨hClosed, hFirst⟩, hSecond⟩ := hTest
  exact ⟨c, hReach, hClosed, hFirst, hSecond, (readers_agree (Channel.fork 1 (Or.inl rfl))
    (Channel.fork 2 (Or.inr rfl)) rfl hReach).2.2⟩

end GraphRuntime.Scheduler
