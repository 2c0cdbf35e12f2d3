import GraphRuntime.Scheduler.Accounting

/-!
# How a node error is reported

`RunNode` hands the status of a failed `Process` to the error callback of its
queue; only this callback sets `has_error_` and calls the user's callback.
`Scheduler::SetErrorCallback` installs it, on `default_queue_` and nowhere else,
and `GraphRuntime::Initialize` replaces the scheduler and with it whatever was
installed before.  So an error is reported when the failing node is bound to
the default queue and `SetErrorCallback` was called after the last successful
`Initialize` (`node_error_reported`); otherwise it is lost
(`node_error_lost`).
-/

namespace GraphRuntime.Scheduler

open GraphRuntime.Stream Interleaving

variable {g : Graph} {s s' : Shared} {f : Frame} {fs A B : List Frame}
  {x : Choice}

/-! ## Setting a runtime up -/

/-- Calls on a `GraphRuntime` before `Start` that reach the error callbacks.
`Initialize` gives up before it replaces the scheduler when
`GraphBuilder::Build` fails. -/
inductive SetupCall
  | callInitialize (built : Bool)
  | setErrorCallback
deriving DecidableEq

/-- `errorCallback` is about the current scheduler: its `error_callback_` and
the callback of its default queue.  `registered` is about the runtime: whether
a callback was ever handed to it. -/
structure Setup where
  errorCallback : Bool := false
  registered : Bool := false
deriving DecidableEq

namespace Setup

def apply (u : Setup) : SetupCall → Setup
  | .callInitialize built => if built then { u with errorCallback := false } else u
  | .setErrorCallback => { errorCallback := true, registered := true }

def run (calls : List SetupCall) : Setup := calls.foldl apply {}

theorem foldl_errorCallback (calls : List SetupCall) (u : Setup) :
    (calls.foldl apply u).errorCallback = true ↔
      (u.errorCallback = true ∧ .callInitialize true ∉ calls) ∨
        ∃ before rest, calls = before ++ .setErrorCallback :: rest ∧
          .callInitialize true ∉ rest := by
  induction calls generalizing u with
  | nil => simp
  | cons call rest ih =>
      rw [List.foldl_cons, ih]
      constructor
      · rintro (⟨hInstalled, hRest⟩ | ⟨before, after, rfl, hAfter⟩)
        · cases call with
          | setErrorCallback => exact Or.inr ⟨[], rest, rfl, hRest⟩
          | callInitialize built =>
              cases built with
              | true => exact absurd hInstalled (by simp [apply])
              | false => exact Or.inl ⟨hInstalled, by simp [hRest]⟩
        · exact Or.inr ⟨call :: before, after, rfl, hAfter⟩
      · rintro (⟨hInstalled, hRest⟩ | ⟨before, after, hCalls, hAfter⟩)
        · cases call with
          | setErrorCallback => exact Or.inl ⟨rfl, by simp_all⟩
          | callInitialize built =>
              cases built with
              | true => exact absurd List.mem_cons_self hRest
              | false => exact Or.inl ⟨hInstalled, by simp_all⟩
        · cases before with
          | nil =>
              obtain ⟨rfl, rfl⟩ := List.cons.inj hCalls
              exact Or.inl ⟨rfl, hAfter⟩
          | cons first before =>
              obtain ⟨rfl, rfl⟩ := List.cons.inj hCalls
              exact Or.inr ⟨before, after, rfl, hAfter⟩

/-- **When the callbacks are installed**: a callback was set after the last
`Initialize` that succeeded. -/
theorem run_errorCallback (calls : List SetupCall) :
    (run calls).errorCallback = true ↔
      ∃ before rest, calls = before ++ .setErrorCallback :: rest ∧
        .callInitialize true ∉ rest := by
  unfold run
  rw [foldl_errorCallback]
  simp

end Setup

/-! ## What stays as it is -/

/-- No step installs or removes a queue's error callback. -/
theorem exec_queueErrorCallback (q : QueueId) (hStep : exec g s f x = some (s', fs)) :
    (s'.queues q).errorCallback = (s.queues q).errorCallback := by
  have hChange := exec_queue q hStep
  generalize s'.queues q = queue at hChange ⊢
  cases hChange with
  | decided _ r b _ =>
      unfold SchedulerQueue.decideFinalize
      repeat' split
      all_goals rfl
  | _ => rfl

/-- An installed callback stays installed on every move of the machine. -/
theorem moves_callbacks (hMoves : (machine g).Moves s s') :
    s'.errorCallback = s.errorCallback ∧ s.log <+: s'.log ∧
      (s.hasError = true → s'.hasError = true) ∧
      ∀ q, (s'.queues q).errorCallback = (s.queues q).errorCallback := by
  rcases hMoves with ⟨f, x, fs, hExec⟩ | ⟨b, fs, hSpawn⟩
  · refine ⟨(exec_kept hExec).errorCallback, (exec_log hExec).isPrefix, fun hError => ?_,
      fun q => exec_queueErrorCallback q hExec⟩
    rcases exec_hasError hExec with hSame | ⟨hSet, -⟩
    · rw [hSame]
      exact hError
    · exact hSet
  · obtain ⟨tasks, rfl, -⟩ := spawn_frame hSpawn
    exact ⟨rfl, List.prefix_refl _, id, fun _ => rfl⟩

/-! ## The way of one error -/

/-- A failed invocation on its way to the queue's error callback. -/
def RunPc.Failing (status : Status) : RunPc → Prop
  | .postProcess _ st | .errorDecrement st | .errorReport st => st = status
  | _ => False

/-- `has_error_` is set and the user's callback has run. -/
def Reported (status : Status) (s : Shared) : Prop :=
  s.hasError = true ∧ .errorCallback status ∈ s.log

/-- The frames of a failed `RunNode` call: the error path still ahead, the
queue's callback about to run, or the user's callback about to run. -/
inductive OnErrorPath (g : Graph) (n : NodeId) (q : QueueId) (status : Status)
    (s : Shared) : List Frame → Prop
  | failing (pre : List Frame) (r : Invocation) (pc : RunPc) (hNode : r.node = n)
      (hQueue : r.queue = q) (hFailing : pc.Failing status) :
      OnErrorPath g n q status s (pre ++ [.run r pc])
  | callback (pre : List Frame) (r : Invocation)
      (hMem : .queueError (nodeError g n status) ∈ pre) :
      OnErrorPath g n q status s (pre ++ [.run r .returned])
  | user (pre : List Frame) (r : Invocation) (hError : s.hasError = true)
      (hMem : .userError (nodeError g n status) ∈ pre) :
      OnErrorPath g n q status s (pre ++ [.run r .returned])

/-- The callbacks are installed and the error is on its way or has arrived. -/
structure Reporting (g : Graph) (n : NodeId) (q : QueueId) (status : Status)
    (s : Shared) (above : List Frame) : Prop where
  queue : (s.queues q).errorCallback = true
  user : s.errorCallback = true
  path : OnErrorPath g n q status s above ∨ Reported (nodeError g n status) s

theorem Reported.moves {status : Status} (hReported : Reported status s)
    (hMoves : (machine g).Moves s s') : Reported status s' := by
  obtain ⟨-, hLog, hError, -⟩ := moves_callbacks hMoves
  exact ⟨hError hReported.1, hLog.subset hReported.2⟩

theorem Reporting.moves {n : NodeId} {q : QueueId} {status : Status}
    {above : List Frame} (hReporting : Reporting g n q status s above)
    (hMoves : (machine g).Moves s s') : Reporting g n q status s' above := by
  obtain ⟨hUser, -, hError, hQueue⟩ := moves_callbacks hMoves
  refine ⟨(hQueue q).trans hReporting.queue, hUser.trans hReporting.user, ?_⟩
  rcases hReporting.path with hPath | hReported
  · left
    cases hPath with
    | failing pre r pc hNode hQ hFailing => exact .failing pre r pc hNode hQ hFailing
    | callback pre r hMem => exact .callback pre r hMem
    | user pre r hSet hMem => exact .user pre r (hError hSet) hMem
  · exact Or.inr (hReported.moves hMoves)

/-- One step of the failed call itself: it stays on the error path until it
hands its status to the queue's callback. -/
theorem runStep_failing {r : Invocation} {pc : RunPc} {status : Status}
    {t : Turn (Invocation × RunPc)} (hError : status.isError = true)
    (hQueue : (s.queues r.queue).errorCallback = true) (hFailing : pc.Failing status)
    (hTurn : runStep g s r x pc = some t) :
    (∃ pc', pc'.Failing status ∧ ∃ r', r'.node = r.node ∧ r'.queue = r.queue ∧
        t.next = some (r', pc')) ∨
      (t.calls = [.queueError (nodeError g r.node status)] ∧
        t.next = some (r, .returned)) := by
  revert hTurn
  fun_cases runStep g s r x pc
  case case10 o rest st _ =>
    intro hTurn
    cases hTurn
    exact Or.inl ⟨.postProcess rest st, hFailing, r, rfl, rfl, rfl⟩
  case case11 o rest st _ shard bound =>
    intro hTurn
    cases hTurn
    exact Or.inl ⟨.postProcess rest st, hFailing, r.clear s.net o, rfl, rfl, rfl⟩
  case case12 st =>
    intro hTurn
    cases hTurn
    obtain rfl : st = status := hFailing
    refine Or.inl ⟨.errorDecrement st, rfl, r, rfl, rfl, ?_⟩
    simp only [Status.isError, Bool.and_eq_true, Bool.not_eq_true'] at hError
    simp [afterProcess, hError]
  case case20 st =>
    intro hTurn
    cases hTurn
    exact Or.inl ⟨.errorReport st, hFailing, r, rfl, rfl, rfl⟩
  case case21 st =>
    intro hTurn
    cases hTurn
    obtain rfl : st = status := hFailing
    exact Or.inr ⟨if_pos hQueue, rfl⟩
  all_goals exact hFailing.elim

/-- **The call's own steps** carry the error on. -/
theorem Reporting.step {n : NodeId} {q : QueueId} {status : Status}
    {above : List Frame} (hError : status.isError = true)
    (hReporting : Reporting g n q status s (f :: above))
    (hStep : exec g s f x = some (s', fs)) : Reporting g n q status s' (fs ++ above) := by
  have hMoves : (machine g).Moves s s' := Or.inl ⟨f, x, fs, hStep⟩
  obtain ⟨hQueue, hUser, hPath⟩ := hReporting
  obtain ⟨hUser', hLog, hKeep, hQueue'⟩ := moves_callbacks hMoves
  refine ⟨(hQueue' q).trans hQueue, hUser'.trans hUser, ?_⟩
  rcases hPath with hPath | hReported
  · generalize hStack : f :: above = stack at hPath
    cases hPath with
    | failing pre r pc hNode hQ hFailing =>
        left
        cases pre with
        | nil =>
            obtain ⟨rfl, rfl⟩ := List.cons.inj hStack
            obtain ⟨t, hTurn, rfl, rfl⟩ := exec_run hStep
            rcases runStep_failing hError (hQ ▸ hQueue) hFailing hTurn with
              ⟨pc', hFailing', r', hNode', hQ', hNext⟩ | ⟨hCalls, hNext⟩
            · rw [hNext, List.append_nil]
              exact .failing t.calls r' pc' (hNode'.trans hNode) (hQ'.trans hQ) hFailing'
            · rw [hNext, List.append_nil, hCalls, ← hNode]
              exact .callback _ r List.mem_cons_self
        | cons f' pre =>
            rw [List.cons_append] at hStack
            obtain ⟨rfl, rfl⟩ := List.cons.inj hStack
            rw [← List.append_assoc]
            exact .failing (fs ++ pre) r pc hNode hQ hFailing
    | callback pre r hMem =>
        left
        cases pre with
        | nil => exact absurd hMem List.not_mem_nil
        | cons f' pre =>
            rw [List.cons_append] at hStack
            obtain ⟨rfl, rfl⟩ := List.cons.inj hStack
            rw [← List.append_assoc]
            rcases List.mem_cons.mp hMem with rfl | hRest
            · cases hStep
              exact .user _ r rfl (by simp)
            · exact .callback _ r (by simp [hRest])
    | user pre r hSet hMem =>
        cases pre with
        | nil => exact absurd hMem List.not_mem_nil
        | cons f' pre =>
            rw [List.cons_append] at hStack
            obtain ⟨rfl, rfl⟩ := List.cons.inj hStack
            rw [← List.append_assoc]
            rcases List.mem_cons.mp hMem with rfl | hRest
            · right
              refine ⟨hKeep hSet, ?_⟩
              simp only [exec, hUser, if_true] at hStep
              cases hStep
              simp [Shared.record]
            · exact Or.inl (.user _ r (hKeep hSet) (by simp [hRest]))
  · exact Or.inr (hReported.moves hMoves)

theorem Reporting.done {n : NodeId} {q : QueueId} {status : Status}
    (hReporting : Reporting g n q status s []) : Reported (nodeError g n status) s := by
  rcases hReporting.path with hPath | hReported
  · generalize hStack : ([] : List Frame) = stack at hPath
    cases hPath <;> simp at hStack
  · exact hReported

theorem installed_of_reaches {G : Guard Shared Frame Choice Call}
    {outputs : OutId → OutputStreamManager} {defaultQueue : QueueId}
    {errorCallback : Bool} {c : Config Shared Frame}
    (hReach : (machine g).Reaches G
      (started (initial outputs defaultQueue errorCallback)) c) :
    c.shared.errorCallback = errorCallback ∧
      (c.shared.queues defaultQueue).errorCallback = errorCallback := by
  refine Machine.invariant (I := fun s _ => s.errorCallback = errorCallback ∧
    (s.queues defaultQueue).errorCallback = errorCallback) ?_ ?_ ?_ hReach
  · simp [started, initial]
  · rintro s A f B x s' fs ⟨hUser, hQueue⟩ - hStep
    exact ⟨(exec_kept hStep).errorCallback.trans hUser,
      (exec_queueErrorCallback defaultQueue hStep).trans hQueue⟩
  · rintro s A b s' fs ⟨hUser, hQueue⟩ - hSpawn
    obtain ⟨tasks, rfl, -⟩ := spawn_frame hSpawn
    exact ⟨hUser, hQueue⟩

/-- **A node error is reported** if the failing node is bound to the default
queue and the callback was set after the last successful `Initialize`.  The run
is cut at the return of the failing `Process` and at any later state in which
its `RunNode` call has gone from its thread. -/
theorem node_error_reported {setup : List SetupCall}
    (hInstalled : (Setup.run setup).errorCallback = true)
    {outputs : OutId → OutputStreamManager} {defaultQueue : QueueId}
    {c₁ c₂ c₃ : Config Shared Frame}
    (hReach : (machine g).Reaches Guard.all
      (started (initial outputs defaultQueue (Setup.run setup).errorCallback)) c₁)
    {i : Nat} {r : Invocation} {below : List Frame} {status : Status}
    {writes : List (String × ShardWrite)}
    (hThread : c₁.threads[i]? = some (.run r .inProcess :: below))
    (hError : status.isError = true) (hQueue : g.queue r.node = defaultQueue)
    (hStep : (machine g).step c₁ (.run i (.returns status writes)) = some c₂)
    (hRest : (machine g).Reaches Guard.all c₂ c₃)
    (hReturned : ∀ stack, c₃.threads[i]? = some stack → stack.length ≤ below.length) :
    c₃.shared.hasError = true ∧
      ((Setup.run setup).registered = true →
        ∃ st, .errorCallback st ∈ c₃.shared.log ∧ st.code = status.code ∧
          (g.name r.node).toList <+: st.message.toList) := by
  obtain ⟨hUser, hCallback⟩ := installed_of_reaches hReach
  have hPlaced := placed_of_reaches hReach
  have hMem : .run r .inProcess ∈ c₁.frames :=
    List.mem_flatten.mpr ⟨_, List.mem_of_getElem? hThread, List.mem_cons_self⟩
  have hRunQueue : r.queue = defaultQueue := (hPlaced.run r _ hMem).1.trans hQueue
  -- the step itself leads onto the error path
  have hStart : Machine.Pending (Reporting g r.node r.queue status) i below c₂ := by
    obtain ⟨hLt, -⟩ := List.getElem?_eq_some_iff.mp hThread
    simp only [Machine.step, hThread] at hStep
    cases hStep
    refine ⟨[.run { r with outputs := applyWrites r.outputs writes }
      (.postProcess (g.outputs r.node) status)], by simp, by simp [hLt, Turn.outcome],
      ?_, ?_, Or.inl ?_⟩
    · rw [hRunQueue]
      exact hCallback.trans hInstalled
    · exact hUser.trans hInstalled
    · exact .failing [] _ _ rfl rfl rfl
  have hEnd : Machine.Pending (Reporting g r.node r.queue status) i below c₃ ∨
      Reported (nodeError g r.node status) c₃.shared :=
    Machine.call_returns hStart
      (fun _ _ _ _ _ _ hReporting hExec => hReporting.step hError hExec)
      (fun _ _ _ hReporting hMoves => hReporting.moves hMoves)
      (fun _ hReporting => hReporting.done)
      (fun _ _ hReported hMoves => hReported.moves hMoves) hRest
  rcases hEnd with ⟨above, hSome, hStack, -⟩ | ⟨hSet, hLog⟩
  · have hLength := hReturned _ hStack
    rw [List.length_append] at hLength
    have hPos : 0 < above.length := List.length_pos_iff.mpr hSome
    omega
  · exact ⟨hSet, fun _ => ⟨_, hLog, rfl, by simp [nodeError]⟩⟩

/-- The failing call at the top of thread `i`, with what is below it. -/
def failingCall (c : Config Shared Frame) (i : Nat) : Option (Invocation × List Frame) :=
  match c.threads[i]? with
  | some (.run r .inProcess :: below) => some (r, below)
  | _ => none

theorem thread_of_failingCall {c : Config Shared Frame} {i : Nat} {r : Invocation}
    {below : List Frame} (hCall : failingCall c i = some (r, below)) :
    c.threads[i]? = some (.run r .inProcess :: below) := by
  unfold failingCall at hCall
  split at hCall
  · rename_i hThread
    cases hCall
    exact hThread
  · exact absurd hCall (by simp)

/-- The rule at work: the callback is set after `Initialize`, and the one node
of a chain fails on its first packet. -/
theorem node_error_reported_chain :
    ∃ c : Config Shared Frame, c.shared.hasError = true ∧
      ∃ st, .errorCallback st ∈ c.shared.log ∧ st.code = .internal ∧
        "first".toList <+: st.message.toList := by
  obtain ⟨c₁, c₂, c₃, hReach, hCall, hStep, hRest, hGone⟩ :=
    (machine (.chain 1 id (by simp))).exists_reaches_through Guard.all
      (started (initial (chainOutputs 1) 0
        (Setup.run [.callInitialize true, .setErrorCallback]).errorCallback))
      (runs 0 19 .ok ++
        calls (.addPacketToInputStream "in" ⟨some 1, Timestamp.ofValue 0⟩) 1 14 .ok ++
        calls (.worker 0) 2 5 .ok)
      (.run 2 (.returns ⟨.internal, "broken"⟩ [])) (runs 2 8 .step)
      (fun c₁ => (failingCall c₁ 2).any fun call => call.1.node = 0)
      (fun c₁ c₃ => (failingCall c₁ 2).all fun call =>
        c₃.threads[2]?.all fun stack => stack.length ≤ call.2.length)
      (by decide +kernel)
  obtain ⟨⟨r, below⟩, hSome, hNode⟩ := (Option.any_eq_true _ _).mp hCall
  have hNode' : r.node = 0 := by simpa using hNode
  have hReported := node_error_reported (by decide) hReach
    (thread_of_failingCall hSome) (by decide) (by simp [Graph.chain, hNode']) hStep hRest
    (by
      intro stack hStack
      simpa [hSome, hStack] using hGone)
  obtain ⟨hSet, hUser⟩ := hReported
  obtain ⟨st, hLog, hCode, hName⟩ := hUser (by decide)
  exact ⟨c₃, hSet, st, hLog, hCode, by simpa [hNode', Graph.chain] using hName⟩

/-- A call of the error callback. -/
def Event.isErrorCallback : Event → Bool
  | .errorCallback _ => true
  | _ => false

/-- **A lost error**: the callback was set before `Initialize`, the node fails,
its `RunNode` call returns, and nobody has been told. -/
theorem node_error_lost :
    (Setup.run [.setErrorCallback, .callInitialize true]).registered = true ∧
    ∃ c₁ c₂ c₃ : Config Shared Frame, ∃ r below,
      (machine (.chain 1 id (by simp))).Reaches Guard.all
        (started (initial (chainOutputs 1) 0
          (Setup.run [.setErrorCallback, .callInitialize true]).errorCallback)) c₁ ∧
      c₁.threads[2]? = some (.run r .inProcess :: below) ∧
      (machine (.chain 1 id (by simp))).step c₁
        (.run 2 (.returns ⟨.internal, "broken"⟩ [])) = some c₂ ∧
      (machine (.chain 1 id (by simp))).Reaches Guard.all c₂ c₃ ∧
      (∀ stack, c₃.threads[2]? = some stack → stack.length ≤ below.length) ∧
      c₃.shared.hasError = false ∧ ∀ st, .errorCallback st ∉ c₃.shared.log := by
  refine ⟨by decide, ?_⟩
  obtain ⟨c₁, c₂, c₃, hReach, hCall, hStep, hRest, hLost⟩ :=
    (machine (.chain 1 id (by simp))).exists_reaches_through Guard.all
      (started (initial (chainOutputs 1) 0
        (Setup.run [.setErrorCallback, .callInitialize true]).errorCallback))
      (runs 0 19 .ok ++
        calls (.addPacketToInputStream "in" ⟨some 1, Timestamp.ofValue 0⟩) 1 14 .ok ++
        calls (.worker 0) 2 5 .ok)
      (.run 2 (.returns ⟨.internal, "broken"⟩ [])) (runs 2 6 .step)
      (fun c₁ => (failingCall c₁ 2).isSome)
      (fun c₁ c₃ => ((failingCall c₁ 2).all fun call =>
          c₃.threads[2]?.all fun stack => stack.length ≤ call.2.length) &&
        (!c₃.shared.hasError && c₃.shared.log.all (!·.isErrorCallback)))
      (by decide +kernel)
  obtain ⟨⟨r, below⟩, hSome⟩ := Option.isSome_iff_exists.mp hCall
  simp only [Bool.and_eq_true, Bool.not_eq_true', List.all_eq_true] at hLost
  obtain ⟨hGone, hNoError, hNoCallback⟩ := hLost
  refine ⟨c₁, c₂, c₃, r, below, hReach, thread_of_failingCall hSome, hStep, hRest,
    ?_, hNoError, ?_⟩
  · intro stack hStack
    simpa [hSome, hStack] using hGone
  · intro st hMem
    exact absurd (hNoCallback _ hMem) (by simp [Event.isErrorCallback])

end GraphRuntime.Scheduler
