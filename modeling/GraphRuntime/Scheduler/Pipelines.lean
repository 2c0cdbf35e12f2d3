import GraphRuntime.Lib.Causal
import GraphRuntime.Scheduler.Closing

/-!
# Pipelines

A line of nodes, each of which reads the stream of the node before it and nothing else, is run
by any number of threads: arrivals, `HandleIdle`, `Resume` and the nodes themselves ask for
calls, calls are merged or find nothing to read, and the user's threads inject and cancel in
between.  With `MaxInFlight` 1 none of this shows in the packets.

* `callsOf` are the packets a node has been called with.  `Replied` relates them to what the
  node has written (`replied_of_reaches`), `Received` to what has been taken from its stream
  (`received_of_reaches`).
* A node whose packets depend only on the packets it has got so far is a causal function from
  one stream to the next one (`stage_computes`).
* `pipeline_computes`: what comes out of a line is in every run a prefix of what these functions
  make of what went in, and all of it once nothing is queued or at work, as long as no output of
  the line has been closed.
* `schedules_agree`: of the results of two runs, finished or not, one is the beginning of the
  other.
-/

namespace GraphRuntime.Scheduler

open GraphRuntime.Stream Interleaving

variable {g : Graph} {outputs : OutId → OutputStreamManager} {s s' : Shared} {f : Frame}
  {fs A B : List Frame} {x : Choice} {n : NodeId}

/-! ## The calls of a node -/

/-- The packets in the input shards of a call. -/
def packetsOf (inputs : List InputShard) : List Packet := inputs.filterMap InputShard.packet

/-- The packets of a call of `Process` of the node. -/
def Event.callOf (n : NodeId) : Event → Option (List Packet)
  | .processCalled m inputs => if m = n then some (packetsOf inputs) else none
  | _ => none

/-- The packets of each call of `Process` of the node so far. -/
def callsOf (s : Shared) (n : NodeId) : List (List Packet) := s.log.filterMap (Event.callOf n)

/-- The packets of the call of the node that the frame is about to make. -/
def Frame.calling (n : NodeId) : Frame → Option (List Packet)
  | .run r (.prepareOutputs []) => if r.node = n then some (packetsOf r.inputs) else none
  | _ => none

theorem exec_callsOf (hStep : exec g s f x = some (s', fs)) (n : NodeId) :
    callsOf s' n = callsOf s n ++ (f.calling n).toList := by
  by_cases hCall : ∃ r, f = .run r (.prepareOutputs [])
  · obtain ⟨r, rfl⟩ := hCall
    cases hStep
    show (s.log ++ [Event.processCalled r.node r.inputs]).filterMap (Event.callOf n) = _
    by_cases hNode : r.node = n
    · simp [callsOf, Frame.calling, Event.callOf, hNode]
    · simp [callsOf, Frame.calling, Event.callOf, hNode]
  · have hNone : f.calling n = none := by
      unfold Frame.calling
      split
      · exact absurd ⟨_, rfl⟩ hCall
      · rfl
    rw [hNone]
    have hChange := exec_log hStep
    unfold callsOf
    generalize s'.log = log at hChange ⊢
    cases hChange with
    | same => simp
    | processCalled r => exact absurd ⟨r, rfl⟩ hCall
    | _ => simp [Event.callOf]

theorem calling_eq_some {packets : List Packet} (hCalling : f.calling n = some packets) :
    ∃ r, f = .run r (.prepareOutputs []) ∧ r.node = n ∧ packetsOf r.inputs = packets := by
  unfold Frame.calling at hCalling
  split at hCalling
  next r =>
    by_cases hNode : r.node = n
    · rw [if_pos hNode, Option.some.injEq] at hCalling
      exact ⟨r, rfl, hNode, hCalling⟩
    · rw [if_neg hNode] at hCalling
      cases hCalling
  next => cases hCalling

/-- The ports a call has still to read. -/
def RunPc.portsLeft : RunPc → Nat
  | .popInputs rest => rest.length
  | _ => 0

theorem portsLeft_afterProcess (n : NodeId) (status : Status) :
    (afterProcess g n status).portsLeft = 0 := by
  unfold afterProcess
  repeat' split
  all_goals rfl

theorem portsLeft_afterAct (n : NodeId) (action : FinalizeAction) :
    (afterAct g n action).portsLeft = 0 := by
  unfold afterAct
  split <;> rfl

theorem runStep_portsLeft {r r' : Invocation} {pc pc' : RunPc} {t : Turn (Invocation × RunPc)}
    (hTurn : runStep g s r x pc = some t) (hNext : t.next = some (r', pc')) :
    r'.inputs.length + pc'.portsLeft ≤ r.inputs.length + pc.portsLeft := by
  have hLess : ∀ {k : Nat}, k = 0 → r.inputs.length + k ≤ r.inputs.length + pc.portsLeft := by
    intro k hZero
    omega
  revert hTurn
  fun_cases runStep g s r x pc
  case case1 port t rest pop shard =>
    intro hTurn
    cases hTurn
    cases hNext
    simp only [List.length_append, List.length_cons, List.length_nil, RunPc.portsLeft]
    omega
  all_goals intro hTurn; cases hTurn
  all_goals cases hNext
  all_goals refine hLess ?_
  all_goals first
    | rfl
    | exact portsLeft_afterProcess _ _
    | exact portsLeft_afterAct _ _
    | (split <;> rfl)

/-- A call has one packet for each port at most. -/
structure PortByPort (g : Graph) (s : Shared) (fs : List Frame) : Prop where
  shards : ∀ r pc, .run r pc ∈ fs →
    r.inputs.length + pc.portsLeft ≤ (g.inputPorts r.node).length
  calls : ∀ n, ∀ packets ∈ callsOf s n, packets.length ≤ (g.inputPorts n).length

theorem portByPort_of_reaches {G : Guard Shared Frame Choice Call} {defaultQueue : QueueId}
    {callback : Bool} {c : Config Shared Frame}
    (hReach : (machine g).Reaches G (started (initial outputs defaultQueue callback)) c) :
    PortByPort g c.shared c.frames := by
  refine Machine.invariant ?_ ?_ ?_ hReach
  · constructor
    · intro r pc hMem
      simp [Config.frames, started] at hMem
    · intro n packets hMem
      exact absurd hMem List.not_mem_nil
  · intro s A f B x s' fs hPorts _ hStep
    constructor
    · intro r pc hMem
      rcases mem_new_or_others hMem with hNew | hOld
      · rcases run_of_exec hStep hNew with
          ⟨r₀, pc₀, t, rfl, hTurn, -, hNext⟩ | ⟨q, it, queue, -, -, -, rfl, rfl⟩
        · obtain ⟨-, hNode, -⟩ := runStep_next hTurn hNext
          have hBefore := hPorts.shards r₀ pc₀ mem_running
          have hLess := runStep_portsLeft hTurn hNext
          rw [hNode]
          omega
        · exact (Nat.zero_add _).le
      · exact hPorts.shards r pc (mem_of_others hOld)
    · intro n packets hMem
      rw [exec_callsOf hStep, List.mem_append, Option.mem_toList] at hMem
      rcases hMem with hOld | hNew
      · exact hPorts.calls n packets hOld
      · obtain ⟨r, rfl, hNode, rfl⟩ := calling_eq_some hNew
        have hShards := hPorts.shards r _ mem_running
        have hLength : (packetsOf r.inputs).length ≤ r.inputs.length :=
          List.length_filterMap_le _ _
        rw [hNode] at hShards
        omega
  · intro s A b s' fs hPorts _ hSpawn
    obtain ⟨tasks, rfl, -⟩ := spawn_frame hSpawn
    refine ⟨fun r pc hMem => ?_, hPorts.calls⟩
    rcases List.mem_append.mp hMem with hOld | hNew
    · exact hPorts.shards r pc hOld
    · exact absurd rfl (not_run_of_spawn hSpawn _ hNew r pc)

/-! ## Frames with a share in an equation -/

/-- Beside a call that holds the only count of its node no frame holds one. -/
theorem alone_of_inFlight (hLimited : Limited g s (A ++ f :: B) n 1)
    (hFlight : f.inFlight n = true) : ∀ h ∈ A ++ B, h.inFlight n = false := by
  have hCount : (A ++ f :: B).countP (Frame.inFlight n) =
      (A ++ B).countP (Frame.inFlight n) + 1 := by
    simp only [List.countP_append, List.countP_cons, hFlight, if_true]
    omega
  have hCovers := hLimited.covers
  have hBounded := hLimited.bounded
  unfold balance at hCovers
  have hNone : (A ++ B).countP (Frame.inFlight n) = 0 := by omega
  intro h hMem
  rw [← Bool.not_eq_true]
  exact List.countP_eq_zero.mp hNone h hMem

/-- The shares after a step when the frames left have the share of the one that was run. -/
theorem flatMap_of_replaced {share : Frame → List Packet}
    (hShare : fs.flatMap share = share f) :
    (A ++ (fs ++ B)).flatMap share = (A ++ f :: B).flatMap share := by
  simp [List.flatMap_append, hShare]

/-- The shares when the frames beside a step have none. -/
theorem flatMap_of_alone {share : Frame → List Packet} (hAlone : ∀ h ∈ A ++ B, share h = []) :
    (A ++ (fs ++ B)).flatMap share = fs.flatMap share := by
  have hBefore : A.flatMap share = [] :=
    List.flatMap_eq_nil_iff.mpr fun h hMem => hAlone h (List.mem_append_left _ hMem)
  have hAfter : B.flatMap share = [] :=
    List.flatMap_eq_nil_iff.mpr fun h hMem => hAlone h (List.mem_append_right _ hMem)
  rw [List.flatMap_append, List.flatMap_append, hBefore, hAfter, List.append_nil]
  rfl

/-! ## What a node has been called with and what it has written -/

/-- In each call of `Process` the node of a manager in `os` leaves in its shard what `behaviour`
makes of the packets of its calls up to this one. -/
def answering (g : Graph) (outputs : OutId → OutputStreamManager)
    (behaviour : OutId → List (List Packet) → List Packet) (os : List OutId) :
    Guard (Recorded Shared Transfer) Frame Choice Call where
  exec := fun s _ f x => (f.emission x).all fun e => os.all fun o =>
    decide (o ∈ g.outputs e.node →
      (e.outputs (shardPort outputs o)).outputQueue = behaviour o (callsOf s.state e.node))
  spawn := fun _ _ _ => true

/-- What a call in `Process` has still to write. -/
def Frame.unwritten (n : NodeId) (answer : List Packet) (f : Frame) : List Packet :=
  if f.inProcess n then answer else []

theorem unwritten_of_not_inFlight {answer : List Packet} (hPlaced : Placed g s fs) (hMem : f ∈ fs)
    (hFlight : f.inFlight n = false) : f.unwritten n answer = [] := by
  cases f with
  | run r pc =>
      obtain ⟨-, hOpen, -⟩ := hPlaced.run r pc hMem
      cases pc with
      | inProcess =>
          have hOther : r.node ≠ n := by
            intro hNode
            simp [Frame.inFlight, RunPc.holdsPending, hNode, hOpen] at hFlight
          simp [Frame.unwritten, Frame.inProcess, hOther]
      | _ => rfl
  | _ => rfl

/-- What the node has written, and what it has still to write, are its answers to the calls. -/
def Replied (ch : Channel g outputs) (behaviour : List (List Packet) → List Packet)
    (s : Recorded Shared Transfer) (fs : List Frame) : Prop :=
  ch.input s.history ++
      fs.flatMap (Frame.unwritten ch.node (behaviour (callsOf s.state ch.node))) =
    Causal.answers behaviour (callsOf s.state ch.node)

theorem afterProcess_ne_inProcess (n : NodeId) (status : Status) :
    afterProcess g n status ≠ .inProcess := by
  unfold afterProcess
  repeat' split
  all_goals exact RunPc.noConfusion

theorem afterAct_ne_inProcess (n : NodeId) (action : FinalizeAction) :
    afterAct g n action ≠ .inProcess := by
  unfold afterAct
  split <;> exact RunPc.noConfusion

/-- `Process` is called in one place. -/
theorem runStep_inProcess {r r' : Invocation} {pc : RunPc} {t : Turn (Invocation × RunPc)}
    (hTurn : runStep g s r x pc = some t) (hNext : t.next = some (r', .inProcess)) :
    pc = .prepareOutputs [] := by
  revert hTurn
  fun_cases runStep g s r x pc
  case case7 => exact fun _ => rfl
  all_goals intro hTurn; cases hTurn
  all_goals try cases hNext
  all_goals obtain ⟨-, hPc⟩ := Prod.mk.inj (Option.some.inj hNext)
  all_goals first
    | exact absurd hPc (afterProcess_ne_inProcess _ _)
    | exact absurd hPc (afterAct_ne_inProcess _ _)
    | (split at hPc <;> cases hPc)

/-- A step that is neither the call of the node nor its return leaves no call in `Process`. -/
theorem not_inProcess_of_exec (hCalling : ∀ r, f = .run r (.prepareOutputs []) → r.node ≠ n)
    (hStep : exec g s f x = some (s', fs)) : ∀ f' ∈ fs, f'.inProcess n = false := by
  intro f' hMem
  cases f' with
  | run r' pc' =>
      cases pc' with
      | inProcess =>
          rcases run_of_exec hStep hMem with
            ⟨r, pc, t, rfl, hTurn, -, hNext⟩ | ⟨q, it, queue, -, -, -, -, hPc⟩
          · obtain rfl := runStep_inProcess hTurn hNext
            obtain ⟨-, hNode, -⟩ := runStep_next hTurn hNext
            have hOther := hCalling r rfl
            show decide (r'.node = n) = false
            rw [hNode]
            exact decide_eq_false hOther
          · cases hPc
      | _ => rfl
  | _ => rfl

section

variable {behaviour : OutId → List (List Packet) → List Packet} {os : List OutId}
  {ch : Channel g outputs} {σ σ' : Recorded Shared Transfer}

theorem unwritten_eq_nil {answer : List Packet} (hProcess : f.inProcess n = false) :
    f.unwritten n answer = [] := by
  rw [Frame.unwritten, hProcess]
  rfl

/-- Only the node puts in for its manager. -/
theorem input_of_other (hOther : ∀ r, f = .run r .inProcess → r.node ≠ ch.node)
    (hStep : (traced g).exec σ f x = some (σ', fs)) :
    ch.input σ'.history = ch.input σ.history := by
  rw [input_of_exec hStep]
  cases hEmission : f.emission x with
  | none => simp
  | some e =>
      unfold Frame.emission at hEmission
      split at hEmission
      next r status writes =>
        cases hEmission
        have hOut : ch.manager ∉ g.outputs r.node := by
          intro hMem
          exact hOther r rfl (ch.owner _ hMem)
        simp [Emission.packets, hOut]
      next => cases hEmission

theorem alone_in_process (hPlaced : Placed g σ.state (A ++ f :: B))
    (hLimited : Limited g σ.state (A ++ f :: B) n 1) (hFlight : f.inFlight n = true)
    (answer : List Packet) : ∀ h ∈ A ++ B, h.unwritten n answer = [] := fun h hMem =>
  unwritten_of_not_inFlight hPlaced (mem_of_others hMem) (alone_of_inFlight hLimited hFlight h hMem)

/-- A call of `Process` asks for an answer. -/
theorem Replied.call {respond : List (List Packet) → List Packet} {r : Invocation}
    (hNode : r.node = ch.node) (hPlaced : Placed g σ.state (A ++ .run r (.prepareOutputs []) :: B))
    (hLimited : Limited g σ.state (A ++ .run r (.prepareOutputs []) :: B) ch.node 1)
    (hReplied : Replied ch respond σ (A ++ .run r (.prepareOutputs []) :: B))
    (hStep : (traced g).exec σ (.run r (.prepareOutputs [])) x = some (σ', fs)) :
    Replied ch respond σ' (A ++ (fs ++ B)) := by
  have hExec : exec g σ.state (.run r (.prepareOutputs [])) x = some (σ'.state, fs) :=
    (Machine.tracing_exec hStep).1
  obtain ⟨-, hOpen, -⟩ := hPlaced.run r _ mem_running
  have hFlight : Frame.inFlight ch.node (.run r (.prepareOutputs [])) = true := by
    simp [Frame.inFlight, RunPc.holdsPending, hNode, hOpen]
  have hAlone := alone_in_process hPlaced hLimited hFlight
  have hInput : ch.input σ'.history = ch.input σ.history :=
    input_of_other (fun _ hFrame => by cases hFrame) hStep
  have hCalls : callsOf σ'.state ch.node =
      callsOf σ.state ch.node ++ [packetsOf r.inputs] := by
    rw [exec_callsOf hExec ch.node]
    simp [Frame.calling, hNode]
  obtain ⟨-, rfl⟩ := Prod.mk.inj (Option.some.inj hExec)
  have hBefore : ch.input σ.history = Causal.answers respond (callsOf σ.state ch.node) := by
    unfold Replied at hReplied
    rw [← List.singleton_append, flatMap_of_alone (hAlone _)] at hReplied
    simpa [Frame.unwritten, Frame.inProcess] using hReplied
  unfold Replied
  rw [flatMap_of_alone (hAlone _), hInput, hBefore, hCalls, Causal.answers_concat]
  congr 1
  simp [Frame.unwritten, Frame.inProcess, hNode]

/-- The return from `Process` gives it. -/
theorem Replied.return {r : Invocation} (hKnown : ch.manager ∈ os) (hNode : r.node = ch.node)
    (hPlaced : Placed g σ.state (A ++ .run r .inProcess :: B))
    (hLimited : Limited g σ.state (A ++ .run r .inProcess :: B) ch.node 1)
    (hReplied : Replied ch (behaviour ch.manager) σ (A ++ .run r .inProcess :: B))
    (hGuard : (answering g outputs behaviour os).exec σ (A ++ B) (.run r .inProcess) x = true)
    (hStep : (traced g).exec σ (.run r .inProcess) x = some (σ', fs)) :
    Replied ch (behaviour ch.manager) σ' (A ++ (fs ++ B)) := by
  have hExec : exec g σ.state (.run r .inProcess) x = some (σ'.state, fs) :=
    (Machine.tracing_exec hStep).1
  obtain ⟨-, hOpen, -⟩ := hPlaced.run r _ mem_running
  have hFlight : Frame.inFlight ch.node (.run r .inProcess) = true := by
    simp [Frame.inFlight, RunPc.holdsPending, hNode, hOpen]
  have hAlone := alone_in_process hPlaced hLimited hFlight
  have hCalls : callsOf σ'.state ch.node = callsOf σ.state ch.node := by
    rw [exec_callsOf hExec ch.node]
    exact List.append_nil _
  have hInput : ch.input σ'.history = ch.input σ.history ++
      ((Frame.run r .inProcess).emission x).toList.flatMap
        (Emission.packets g ch.manager ch.port) := input_of_exec hStep
  cases x with
  | step => cases hExec
  | returns status writes =>
      obtain ⟨-, rfl⟩ := Prod.mk.inj (Option.some.inj hExec)
      have hOwned : ch.manager ∈ g.outputs r.node := hNode ▸ ch.owned
      have hAnswer : (applyWrites r.outputs writes ch.port).outputQueue =
          behaviour ch.manager (callsOf σ.state ch.node) := by
        have hAll := List.all_eq_true.mp hGuard ch.manager hKnown
        rw [← hNode]
        exact of_decide_eq_true hAll hOwned
      have hBefore : ch.input σ.history ++ behaviour ch.manager (callsOf σ.state ch.node) =
          Causal.answers (behaviour ch.manager) (callsOf σ.state ch.node) := by
        rw [← hReplied]
        congr 1
        rw [← List.singleton_append, flatMap_of_alone (hAlone _)]
        simp [Frame.unwritten, Frame.inProcess, hNode]
      unfold Replied
      rw [flatMap_of_alone (hAlone _), hInput, hCalls, ← hBefore, ← hAnswer]
      simp [Frame.emission, Emission.packets, hOwned, Frame.unwritten, Frame.inProcess]

/-- Every other step. -/
theorem Replied.other {respond : List (List Packet) → List Packet}
    (hCalling : ∀ r, f = .run r (.prepareOutputs []) → r.node ≠ ch.node)
    (hReturn : ∀ r, f = .run r .inProcess → r.node ≠ ch.node)
    (hReplied : Replied ch respond σ (A ++ f :: B))
    (hStep : (traced g).exec σ f x = some (σ', fs)) :
    Replied ch respond σ' (A ++ (fs ++ B)) := by
  have hExec : exec g σ.state f x = some (σ'.state, fs) := (Machine.tracing_exec hStep).1
  have hCalls : callsOf σ'.state ch.node = callsOf σ.state ch.node := by
    rw [exec_callsOf hExec ch.node]
    cases hNew : f.calling ch.node with
    | none => exact List.append_nil _
    | some packets =>
        obtain ⟨r, hFrame, hNode, -⟩ := calling_eq_some hNew
        exact absurd hNode (hCalling r hFrame)
  have hQuiet : ∀ answer, f.unwritten ch.node answer = [] := by
    intro answer
    refine unwritten_eq_nil ?_
    rw [← Bool.not_eq_true]
    intro hProcess
    unfold Frame.inProcess at hProcess
    split at hProcess
    next r => exact hReturn r rfl (of_decide_eq_true hProcess)
    next => exact Bool.false_ne_true hProcess
  have hLeft : ∀ answer, fs.flatMap (Frame.unwritten ch.node answer) = [] := fun answer =>
    List.flatMap_eq_nil_iff.mpr fun f' hMem =>
      unwritten_eq_nil (not_inProcess_of_exec hCalling hExec f' hMem)
  unfold Replied at hReplied ⊢
  rw [input_of_other hReturn hStep, hCalls,
    flatMap_of_replaced ((hLeft _).trans (hQuiet _).symm)]
  exact hReplied

variable {defaultQueue : QueueId} {callback : Bool} {c : Config (Recorded Shared Transfer) Frame}

/-- **In every run** what the node has written are its answers to the calls it has had. -/
theorem replied_of_reaches (hKnown : ch.manager ∈ os)
    (hReach : (traced g).Reaches (answering g outputs behaviour os)
      (started (initial outputs defaultQueue callback)).record c) :
    Replied ch (behaviour ch.manager) c.shared c.frames := by
  refine Machine.invariant_with (J := Plumbed ch) (I := Replied ch (behaviour ch.manager))
    (fun c hHere => plumbed_of_reaches (Machine.reaches_all _ hHere)) rfl ?_ ?_ hReach
  · intro s A f B x s' fs hPlumbed hReplied hGuard hStep
    by_cases hCall : ∃ r, f = .run r (.prepareOutputs []) ∧ r.node = ch.node
    · obtain ⟨r, rfl, hNode⟩ := hCall
      exact hReplied.call hNode hPlumbed.placed hPlumbed.limited hStep
    · by_cases hReturn : ∃ r, f = .run r .inProcess ∧ r.node = ch.node
      · obtain ⟨r, rfl, hNode⟩ := hReturn
        exact hReplied.return hKnown hNode hPlumbed.placed hPlumbed.limited hGuard hStep
      · refine hReplied.other (fun r hFrame hNode => ?_) (fun r hFrame hNode => ?_) hStep
        · exact hCall ⟨r, hFrame, hNode⟩
        · exact hReturn ⟨r, hFrame, hNode⟩
  · intro s A b s' fs hPlumbed hReplied _ hSpawn
    obtain ⟨hState, hHistory⟩ := Machine.tracing_spawn hSpawn
    obtain ⟨tasks, hTasks, -⟩ := spawn_frame hState
    have hNone : ∀ answer, fs.flatMap (Frame.unwritten ch.node answer) = [] := by
      intro answer
      refine List.flatMap_eq_nil_iff.mpr fun f' hMem => unwritten_eq_nil ?_
      have hNotRun := not_run_of_spawn hState f' hMem
      cases f' with
      | run r pc => exact absurd rfl (hNotRun r pc)
      | _ => rfl
    have hCalls : callsOf s'.state ch.node = callsOf s.state ch.node := by
      rw [callsOf, hTasks]
      rfl
    unfold Replied at hReplied ⊢
    rw [List.flatMap_append, hNone, List.append_nil, hCalls, hHistory]
    exact hReplied

end

/-! ## What has been taken and what the node has been called with -/

section

variable {σ σ' : Recorded Shared Transfer} {ch : Channel g outputs} {r : Invocation}

/-- Without the empty packets, of which a node sees nothing. -/
def visible (packets : List Packet) : List Packet := packets.filter fun p => !p.isEmpty

theorem visible_append (ps qs : List Packet) : visible (ps ++ qs) = visible ps ++ visible qs :=
  List.filter_append ..

/-- What a call has taken and not yet passed to `Process`. -/
def Frame.inHand (n : NodeId) : Frame → List Packet
  | .run r pc => if r.node = n ∧ pc.starting then packetsOf r.inputs else []
  | _ => []

/-- What a node has been called with, and what its call has in hand, has been taken from its
stream. -/
def Received (ch : Channel g outputs) (n : NodeId) (s : Recorded Shared Transfer)
    (fs : List Frame) : Prop :=
  (callsOf s.state n).flatten ++ fs.flatMap (Frame.inHand n) = visible (ch.output s.history)

theorem inHand_of_not_inFlight (hPlaced : Placed g s fs) (hMem : f ∈ fs)
    (hFlight : f.inFlight n = false) : f.inHand n = [] := by
  cases f with
  | run r pc =>
      obtain ⟨-, hOpen, -⟩ := hPlaced.run r pc hMem
      by_cases hHand : r.node = n ∧ pc.starting = true
      · obtain ⟨hNode, hStarting⟩ := hHand
        cases pc with
        | popInputs rest => simp [Frame.inFlight, RunPc.holdsPending, hNode, hOpen] at hFlight
        | prepareOutputs rest => simp [Frame.inFlight, RunPc.holdsPending, hNode, hOpen] at hFlight
        | _ => cases hStarting
      · exact if_neg hHand
  | _ => rfl

theorem alone_in_hand (hPlaced : Placed g σ.state (A ++ f :: B))
    (hLimited : Limited g σ.state (A ++ f :: B) n 1) (hFlight : f.inFlight n = true) :
    ∀ h ∈ A ++ B, h.inHand n = [] := fun h hMem =>
  inHand_of_not_inFlight hPlaced (mem_of_others hMem) (alone_of_inFlight hLimited hFlight h hMem)

/-- A step that leaves with the frames what its frame has in hand. -/
theorem Received.keep (hReceived : Received ch n σ (A ++ f :: B))
    (hHand : fs.flatMap (Frame.inHand n) = f.inHand n) (hCalling : f.calling n = none)
    (hTakes : (f.takes σ.state).toList.flatMap (Transfer.output ch.stream) = [])
    (hStep : (traced g).exec σ f x = some (σ', fs)) : Received ch n σ' (A ++ (fs ++ B)) := by
  have hExec : exec g σ.state f x = some (σ'.state, fs) := (Machine.tracing_exec hStep).1
  unfold Received at hReceived ⊢
  rw [exec_callsOf hExec n, hCalling, output_of_takes hStep, hTakes, flatMap_of_replaced hHand]
  simpa using hReceived

/-- A call passes to `Process` what it has in hand. -/
theorem Received.call (hNode : r.node = n)
    (hPlaced : Placed g σ.state (A ++ .run r (.prepareOutputs []) :: B))
    (hLimited : Limited g σ.state (A ++ .run r (.prepareOutputs []) :: B) n 1)
    (hReceived : Received ch n σ (A ++ .run r (.prepareOutputs []) :: B))
    (hStep : (traced g).exec σ (.run r (.prepareOutputs [])) x = some (σ', fs)) :
    Received ch n σ' (A ++ (fs ++ B)) := by
  have hExec : exec g σ.state (.run r (.prepareOutputs [])) x = some (σ'.state, fs) :=
    (Machine.tracing_exec hStep).1
  obtain ⟨-, hOpen, -⟩ := hPlaced.run r _ mem_running
  have hFlight : Frame.inFlight n (.run r (.prepareOutputs [])) = true := by
    simp [Frame.inFlight, RunPc.holdsPending, hNode, hOpen]
  have hAlone := alone_in_hand hPlaced hLimited hFlight
  have hCalls := exec_callsOf hExec n
  obtain ⟨-, rfl⟩ := Prod.mk.inj (Option.some.inj hExec)
  unfold Received at hReceived ⊢
  rw [← List.singleton_append, flatMap_of_alone hAlone] at hReceived
  rw [flatMap_of_alone hAlone, hCalls, output_of_takes hStep]
  simpa [Frame.calling, Frame.inHand, RunPc.starting, Frame.takes, hNode] using hReceived

/-- `PopQueueHead`, as the call sees it. -/
theorem packetsOf_popQueueHead (port : String) (m : InputStreamManager) :
    packetsOf [{ port, packet := if m.popQueueHead.1.isEmpty then none else some m.popQueueHead.1,
                 done := m.popQueueHead.2.1 }] = visible m.queue.head?.toList := by
  unfold InputStreamManager.popQueueHead
  cases m.queue with
  | nil => rfl
  | cons packet rest =>
      cases hEmpty : packet.isEmpty with
      | true => simp [packetsOf, visible, hEmpty]
      | false => simp [packetsOf, visible, hEmpty]

/-- A call takes the head of its stream in hand. -/
theorem Received.pop {port : String} {p : String × StreamId} {rest : List (String × StreamId)}
    (hPorts : g.inputPorts n = [(port, ch.stream)]) (hNode : r.node = n)
    (hPlaced : Placed g σ.state (A ++ .run r (.popInputs (p :: rest)) :: B))
    (hLimited : Limited g σ.state (A ++ .run r (.popInputs (p :: rest)) :: B) n 1)
    (hEach : PortByPort g σ.state (A ++ .run r (.popInputs (p :: rest)) :: B))
    (hReceived : Received ch n σ (A ++ .run r (.popInputs (p :: rest)) :: B))
    (hStep : (traced g).exec σ (.run r (.popInputs (p :: rest))) x = some (σ', fs)) :
    Received ch n σ' (A ++ (fs ++ B)) := by
  have hExec : exec g σ.state (.run r (.popInputs (p :: rest))) x = some (σ'.state, fs) :=
    (Machine.tracing_exec hStep).1
  obtain ⟨-, hOpen, -, hHere⟩ := hPlaced.run r _ mem_running
  have hFlight : Frame.inFlight n (.run r (.popInputs (p :: rest))) = true := by
    simp [Frame.inFlight, RunPc.holdsPending, hNode, hOpen]
  have hAlone := alone_in_hand hPlaced hLimited hFlight
  have hCalls := exec_callsOf hExec n
  -- the only port is read first
  have hPort : p = (port, ch.stream) := by
    have hMem := hHere p List.mem_cons_self
    rw [hNode, hPorts] at hMem
    exact List.mem_singleton.mp hMem
  have hNone : r.inputs = [] := by
    have hShards := hEach.shards r _ mem_running
    rw [hNode, hPorts] at hShards
    simp only [RunPc.portsLeft, List.length_cons, List.length_nil] at hShards
    exact List.eq_nil_of_length_eq_zero (by omega)
  subst hPort
  obtain ⟨-, rfl⟩ := Prod.mk.inj (Option.some.inj hExec)
  have hBefore : (callsOf σ.state n).flatten = visible (ch.output σ.history) := by
    unfold Received at hReceived
    rw [← List.singleton_append, flatMap_of_alone hAlone] at hReceived
    simpa [Frame.inHand, hNone, packetsOf] using hReceived
  have hTook : ((Frame.run r (.popInputs ((port, ch.stream) :: rest))).takes σ.state).toList.flatMap
      (Transfer.output ch.stream) = (σ.state.stream ch.stream).queue.head?.toList := by
    show ((σ.state.stream ch.stream).queue.head?.map (Transfer.taken ch.stream)).toList.flatMap
      (Transfer.output ch.stream) = _
    cases (σ.state.stream ch.stream).queue with
    | nil => rfl
    | cons packet queue => simp [Transfer.output]
  unfold Received
  rw [flatMap_of_alone hAlone, hCalls, output_of_takes hStep, hTook, visible_append, ← hBefore,
    ← packetsOf_popQueueHead port]
  simp [Frame.calling, Frame.inHand, RunPc.starting, hNode, hNone]

/-- A call that is none of the above takes nothing in hand. -/
theorem inHand_of_exec (hStarting : ∀ r pc, f = .run r pc → r.node = n → pc.starting = false)
    (hStep : exec g s f x = some (s', fs)) : fs.flatMap (Frame.inHand n) = [] := by
  refine List.flatMap_eq_nil_iff.mpr fun f' hMem => ?_
  cases f' with
  | run r' pc' =>
      rcases run_of_exec hStep hMem with
        ⟨r, pc, t, rfl, hTurn, -, hNext⟩ | ⟨q, it, queue, -, -, -, rfl, rfl⟩
      · refine if_neg ?_
        rintro ⟨hNode', hStarting'⟩
        obtain ⟨-, hNode, -⟩ := runStep_next hTurn hNext
        obtain ⟨hBefore, -⟩ := runStep_starting hTurn hNext hStarting'
        rw [hStarting r pc rfl (hNode ▸ hNode')] at hBefore
        exact Bool.false_ne_true hBefore
      · exact ite_self []
  | _ => rfl

/-- No other node takes packets from the stream of a port. -/
theorem takes_of_other {port : String} (hPorts : g.inputPorts n = [(port, ch.stream)])
    (hPlaced : Placed g σ.state (A ++ f :: B))
    (hOther : ∀ r p rest, f = .run r (.popInputs (p :: rest)) → r.node ≠ n) :
    (f.takes σ.state).toList.flatMap (Transfer.output ch.stream) = [] := by
  unfold Frame.takes
  split
  next r port' t rest =>
    have hNode := hOther r (port', t) rest rfl
    obtain ⟨-, -, -, hHere⟩ := hPlaced.run r _ mem_running
    have hOwner : g.owner t = r.node := g.owner_port r.node _ (hHere _ List.mem_cons_self)
    have hStream : t ≠ ch.stream := by
      rintro rfl
      have hMine := g.owner_port n (port, ch.stream) (hPorts ▸ List.mem_singleton_self _)
      exact hNode (hOwner.symm.trans hMine)
    cases (σ.state.stream t).queue with
    | nil => rfl
    | cons packet queue => simp [Transfer.output, hStream]
  next => rfl

/-- **The step of a call**, and of anything else. -/
theorem Received.exec {port : String} (hPorts : g.inputPorts n = [(port, ch.stream)])
    (hPlaced : Placed g σ.state (A ++ f :: B)) (hLimited : Limited g σ.state (A ++ f :: B) n 1)
    (hEach : PortByPort g σ.state (A ++ f :: B)) (hReceived : Received ch n σ (A ++ f :: B))
    (hStep : (traced g).exec σ f x = some (σ', fs)) : Received ch n σ' (A ++ (fs ++ B)) := by
  have hExec : Scheduler.exec g σ.state f x = some (σ'.state, fs) := (Machine.tracing_exec hStep).1
  by_cases hStarting : ∃ r pc, f = .run r pc ∧ r.node = n ∧ pc.starting = true
  · obtain ⟨r, pc, rfl, hNode, hPc⟩ := hStarting
    obtain ⟨-, hOpen, -⟩ := hPlaced.run r pc mem_running
    cases pc with
    | popInputs rest =>
        cases rest with
        | cons p rest => exact hReceived.pop hPorts hNode hPlaced hLimited hEach hStep
        | nil =>
            refine hReceived.keep ?_ rfl rfl hStep
            simp only [Scheduler.exec, runStep, hOpen] at hExec
            obtain ⟨-, rfl⟩ := Prod.mk.inj (Option.some.inj hExec)
            simp [Frame.inHand, RunPc.starting]
    | prepareOutputs rest =>
        cases rest with
        | nil => exact hReceived.call hNode hPlaced hLimited hStep
        | cons o rest =>
            refine hReceived.keep ?_ rfl rfl hStep
            obtain ⟨-, rfl⟩ := Prod.mk.inj (Option.some.inj hExec)
            simp [Frame.inHand, RunPc.starting, Invocation.prepare]
    | _ => cases hPc
  · have hNot : ∀ r pc, f = .run r pc → r.node = n → pc.starting = false := by
      intro r pc hFrame hNode
      rw [← Bool.not_eq_true]
      exact fun hPc => hStarting ⟨r, pc, hFrame, hNode, hPc⟩
    refine hReceived.keep ?_ ?_ ?_ hStep
    · rw [inHand_of_exec hNot hExec]
      cases f with
      | run r pc => exact (if_neg fun h => hStarting ⟨r, pc, rfl, h⟩).symm
      | _ => rfl
    · cases hCalling : f.calling n with
      | none => rfl
      | some packets =>
          obtain ⟨r, hFrame, hNode, -⟩ := calling_eq_some hCalling
          exact absurd ⟨r, _, hFrame, hNode, rfl⟩ hStarting
    · exact takes_of_other hPorts hPlaced fun r p rest hFrame hNode =>
        hStarting ⟨r, _, hFrame, hNode, rfl⟩

/-- **In every run** what a node has been called with is what has been taken from its stream. -/
theorem received_of_reaches {port : String} {defaultQueue : QueueId} {callback : Bool}
    {c : Config (Recorded Shared Transfer) Frame}
    (hPorts : g.inputPorts n = [(port, ch.stream)]) (hMax : g.maxInFlight n ≤ 1)
    (hReach : (traced g).Reaches Guard.all
      (started (initial outputs defaultQueue callback)).record c) :
    Received ch n c.shared c.frames := by
  have hRun : ∀ c, (traced g).Reaches Guard.all
      (started (initial outputs defaultQueue callback)).record c →
      Placed g c.shared.state c.frames ∧ Limited g c.shared.state c.frames n 1 ∧
        PortByPort g c.shared.state c.frames := by
    intro c hHere
    have hForget : (machine g).Reaches Guard.all (started (initial outputs defaultQueue callback))
        c.forget := Machine.reaches_of_tracing (G := Guard.all) hHere
    exact ⟨placed_of_reaches hForget, limited_of_reaches hMax (by decide) hForget,
      portByPort_of_reaches hForget⟩
  refine Machine.invariant_with (J := fun s fs => Placed g s.state fs ∧
    Limited g s.state fs n 1 ∧ PortByPort g s.state fs) (I := Received ch n) hRun ?_ ?_ ?_ hReach
  · rfl
  · intro s A f B x s' fs hHere hReceived _ hStep
    exact hReceived.exec hPorts hHere.1 hHere.2.1 hHere.2.2 hStep
  · intro s A b s' fs _ hReceived _ hSpawn
    obtain ⟨hState, hHistory⟩ := Machine.tracing_spawn hSpawn
    obtain ⟨tasks, hTasks, -⟩ := spawn_frame hState
    have hNone : fs.flatMap (Frame.inHand n) = [] := by
      refine List.flatMap_eq_nil_iff.mpr fun f' hMem => ?_
      have hNotRun := not_run_of_spawn hState f' hMem
      cases f' with
      | run r pc => exact absurd rfl (hNotRun r pc)
      | _ => rfl
    have hCalls : callsOf s'.state n = callsOf s.state n := by
      rw [callsOf, hTasks]
      rfl
    unfold Received at hReceived ⊢
    rw [List.flatMap_append, hNone, List.append_nil, hCalls, hHistory]
    exact hReceived

end

/-! ## Lines -/

section

variable {first ch : Channel g outputs} {rest : List (Channel g outputs)}
  {F : OutId → List Packet → List Packet} {os : List OutId} {defaultQueue : QueueId}
  {callback : Bool} {c : Config (Recorded Shared Transfer) Frame}

/-- The node of each channel reads the stream of the channel before, and nothing else. -/
def Line : Channel g outputs → List (Channel g outputs) → Prop
  | _, [] => True
  | ch, next :: rest => (∃ port, g.inputPorts next.node = [(port, ch.stream)]) ∧ Line next rest

/-- What the nodes of a line make of the packets taken from its first stream. -/
def transform (F : OutId → List Packet → List Packet) :
    List (Channel g outputs) → List Packet → List Packet
  | [], packets => packets
  | ch :: rest, packets => transform F rest (Causal.answers (F ch.manager) (visible packets))

/-- The functions of a line go by the managers of its nodes. -/
theorem transform_eq_foldl (packets : List Packet) :
    transform F rest packets = (rest.map Channel.manager).foldl
      (fun packets o => Causal.answers (F o) (visible packets)) packets := by
  induction rest generalizing packets with
  | nil => rfl
  | cons ch rest ih => exact ih _

theorem visible_mono {ps qs : List Packet} (hPrefix : ps <+: qs) : visible ps <+: visible qs :=
  hPrefix.filter _

/-- **The functions of a line are causal.** -/
theorem foldl_answers_mono (os : List OutId) {ps qs : List Packet} (hPrefix : ps <+: qs) :
    os.foldl (fun packets o => Causal.answers (F o) (visible packets)) ps <+:
      os.foldl (fun packets o => Causal.answers (F o) (visible packets)) qs := by
  induction os generalizing ps qs with
  | nil => exact hPrefix
  | cons o os ih => exact ih (Causal.answers_mono (visible_mono hPrefix))

theorem transform_mono {ps qs : List Packet} (hPrefix : ps <+: qs) :
    transform F rest ps <+: transform F rest qs := by
  rw [transform_eq_foldl, transform_eq_foldl]
  exact foldl_answers_mono _ hPrefix

/-- The nodes of the managers `os` write, in a call with a packet, what `F` makes of the packets
they have got so far, and nothing in a call without one. -/
def computing (g : Graph) (outputs : OutId → OutputStreamManager)
    (F : OutId → List Packet → List Packet) (os : List OutId) :
    Guard (Recorded Shared Transfer) Frame Choice Call :=
  answering g outputs (fun o => Causal.onArrival (F o)) os

/-- No call of the node is before its `DecrementPending`, and its packets have been taken. -/
def Channel.Settled (ch : Channel g outputs) (c : Config (Recorded Shared Transfer) Frame) :
    Prop :=
  (∀ f ∈ c.frames, f.holdsPending ch.node = false) ∧ (c.shared.state.stream ch.stream).queue = []

/-- **A node is a function from one stream to the next one.** -/
theorem stage_computes {port : String} (hPorts : g.inputPorts ch.node = [(port, first.stream)])
    (hKnown : ch.manager ∈ os)
    (hReach : (traced g).Reaches (computing g outputs F os)
      (started (initial outputs defaultQueue callback)).record c) :
    ch.output c.shared.history <+:
        Causal.answers (F ch.manager) (visible (first.output c.shared.history)) ∧
      ((c.shared.state.net.outputs ch.manager).closed = false → ch.Settled c →
        ch.output c.shared.history =
          Causal.answers (F ch.manager) (visible (first.output c.shared.history))) := by
  have hAll := Machine.reaches_all _ hReach
  have hForget : (machine g).Reaches Guard.all (started (initial outputs defaultQueue callback))
      c.forget := Machine.reaches_of_tracing (G := Guard.all) hAll
  have hPlaced : Placed g c.shared.state c.frames := placed_of_reaches hForget
  have hReceived : Received first ch.node c.shared c.frames :=
    received_of_reaches hPorts ch.maxInFlight hAll
  have hReplied : Replied ch (Causal.onArrival (F ch.manager)) c.shared c.frames :=
    replied_of_reaches hKnown hReach
  have hSingle : ∀ packets ∈ callsOf c.shared.state ch.node, packets.length ≤ 1 := by
    intro packets hMem
    have hLength := (portByPort_of_reaches hForget).calls ch.node packets hMem
    rwa [hPorts] at hLength
  unfold Replied at hReplied
  rw [Causal.answers_onArrival hSingle] at hReplied
  unfold Received at hReceived
  constructor
  · calc ch.output c.shared.history
        <+: ch.input c.shared.history := (List.prefix_append _ _).trans (taken_first ch hAll)
      _ <+: Causal.answers (F ch.manager) (callsOf c.shared.state ch.node).flatten := by
          rw [← hReplied]
          exact List.prefix_append _ _
      _ <+: Causal.answers (F ch.manager) (visible (first.output c.shared.history)) := by
          rw [← hReceived]
          exact Causal.answers_mono (List.prefix_append _ _)
  · rintro hOpen ⟨hIdle, hQueue⟩
    obtain ⟨way, hCarries, hWay⟩ := carries_of_reaches ch hAll hOpen
    unfold Carries at hCarries
    have hFlight : ∀ f ∈ c.frames, f.inFlight ch.node = false := by
      intro f hMem
      have hHere := hIdle f hMem
      cases f with
      | run r pc =>
          obtain ⟨-, hOpen, -⟩ := hPlaced.run r pc hMem
          simpa [Frame.inFlight, Frame.holdsPending, hOpen] using hHere
      | _ => rfl
    rw [hWay hIdle, hQueue, List.append_nil, List.append_nil] at hCarries
    have hHand : c.frames.flatMap (Frame.inHand ch.node) = [] :=
      List.flatMap_eq_nil_iff.mpr fun f hMem =>
        inHand_of_not_inFlight hPlaced hMem (hFlight f hMem)
    have hWritten : ∀ answer, c.frames.flatMap (Frame.unwritten ch.node answer) = [] :=
      fun answer => List.flatMap_eq_nil_iff.mpr fun f hMem =>
        unwritten_of_not_inFlight hPlaced hMem (hFlight f hMem)
    rw [hHand, List.append_nil] at hReceived
    rw [hWritten, List.append_nil, hCarries, hReceived] at hReplied
    exact hReplied

/-- What comes out of a line against what its functions make of what has gone in. -/
theorem line_computes (hLine : Line first rest) (hKnown : ∀ ch ∈ rest, ch.manager ∈ os)
    (hReach : (traced g).Reaches (computing g outputs F os)
      (started (initial outputs defaultQueue callback)).record c) :
    (rest.getLastD first).output c.shared.history <+:
        transform F rest (first.output c.shared.history) ∧
      ((∀ ch ∈ rest, (c.shared.state.net.outputs ch.manager).closed = false ∧ ch.Settled c) →
        (rest.getLastD first).output c.shared.history =
          transform F rest (first.output c.shared.history)) := by
  induction rest generalizing first with
  | nil => exact ⟨List.prefix_refl _, fun _ => rfl⟩
  | cons ch rest ih =>
      obtain ⟨⟨port, hPorts⟩, hRest⟩ := hLine
      rw [List.forall_mem_cons] at hKnown
      obtain ⟨hStage, hWhole⟩ := stage_computes hPorts hKnown.1 hReach
      obtain ⟨hPrefix, hEqual⟩ := ih hRest hKnown.2
      rw [List.getLastD_cons]
      refine ⟨hPrefix.trans (transform_mono hStage), fun hSettled => ?_⟩
      rw [List.forall_mem_cons] at hSettled
      rw [hEqual hSettled.2, hWhole hSettled.1.1 hSettled.1.2]
      rfl

/-- **A pipeline computes a function of its input**, whatever the threads do: what has been
taken at its end is a prefix of what the functions of its nodes, one after the other, make of
what has been taken at its beginning; and while the outputs of its nodes are open it is all of it
once no node of the line is at work and their streams are empty. -/
theorem pipeline_computes (F : OutId → List Packet → List Packet) (first : Channel g outputs)
    (rest : List (Channel g outputs)) (hLine : Line first rest)
    (hReach : (traced g).Reaches (computing g outputs F (rest.map Channel.manager))
      (started (initial outputs defaultQueue callback)).record c) :
    (rest.getLastD first).output c.shared.history <+:
        transform F rest (first.output c.shared.history) ∧
      ((∀ ch ∈ rest, (c.shared.state.net.outputs ch.manager).closed = false ∧ ch.Settled c) →
        (rest.getLastD first).output c.shared.history =
          transform F rest (first.output c.shared.history)) :=
  line_computes hLine (fun _ hMem => List.mem_map_of_mem hMem) hReach

/-! ## Two runs -/

/-- The node of the first channel writes `produce k` in its call number `k`, and the others
compute `F`. -/
def scripted (g : Graph) (outputs : OutId → OutputStreamManager) (produce : Nat → List Packet)
    (F : OutId → List Packet → List Packet) (first : Channel g outputs)
    (rest : List (Channel g outputs)) : Guard (Recorded Shared Transfer) Frame Choice Call :=
  (answering g outputs (fun _ calls => produce calls.length) [first.manager]).and
    (computing g outputs F (rest.map Channel.manager))

/-- What comes out of a line by the number of calls its first node has had. -/
theorem line_scripted {produce : Nat → List Packet} (hLine : Line first rest)
    (hReach : (traced g).Reaches (scripted g outputs produce F first rest)
      (started (initial outputs defaultQueue callback)).record c) :
    (rest.getLastD first).output c.shared.history <+: transform F rest
      (Causal.answers (fun calls => produce calls.length)
        (callsOf c.shared.state first.node)) := by
  obtain ⟨hFirst, hRest⟩ := Machine.reaches_of_and _ hReach
  have hReplied : Replied first (fun calls => produce calls.length) c.shared c.frames :=
    replied_of_reaches (List.mem_singleton_self _) hFirst
  have hTaken := taken_first first (Machine.reaches_all _ hReach)
  have hPut : first.output c.shared.history <+: Causal.answers (fun calls => produce calls.length)
      (callsOf c.shared.state first.node) := by
    unfold Replied at hReplied
    rw [← hReplied]
    exact ((List.prefix_append _ _).trans hTaken).trans (List.prefix_append _ _)
  have hComputes := (line_computes hLine (fun _ hMem => List.mem_map_of_mem hMem) hRest).1
  exact hComputes.trans (transform_mono hPut)

/-- **The schedule does not show.**  Take any two runs of a graph in which the nodes of a line do
the same: its first node writes the same packets in its first call, in its second one, and so on,
and every other one writes the same packets for the same packets.  Then of what has been taken at
the end of the line in the two runs, one is the beginning of the other. -/
theorem schedules_agree (produce : Nat → List Packet) (F : OutId → List Packet → List Packet)
    (first : Channel g outputs) (rest : List (Channel g outputs)) (hLine : Line first rest)
    {defaultQueue' : QueueId} {callback' : Bool} {c' : Config (Recorded Shared Transfer) Frame}
    (hReach : (traced g).Reaches (scripted g outputs produce F first rest)
      (started (initial outputs defaultQueue callback)).record c)
    (hReach' : (traced g).Reaches (scripted g outputs produce F first rest)
      (started (initial outputs defaultQueue' callback')).record c') :
    (rest.getLastD first).output c.shared.history <+:
        (rest.getLastD first).output c'.shared.history ∨
      (rest.getLastD first).output c'.shared.history <+:
        (rest.getLastD first).output c.shared.history := by
  have hHere := line_scripted hLine hReach
  have hThere := line_scripted hLine hReach'
  rcases Nat.le_total (callsOf c.shared.state first.node).length
    (callsOf c'.shared.state first.node).length with hLe | hLe
  · refine List.prefix_or_prefix_of_prefix (hHere.trans (transform_mono ?_)) hThere
    exact Causal.answers_length_prefix produce hLe
  · refine List.prefix_or_prefix_of_prefix hHere (hThere.trans (transform_mono ?_))
    exact Causal.answers_length_prefix produce hLe

end

/-! ## A pipe -/

/-- Node 0 has no ports, and every other one reads one stream. -/
def pipePorts (n : NodeId) : List (String × StreamId) := if n = 0 then [] else [("in", n)]

theorem owner_pipePorts : ∀ n, ∀ p ∈ pipePorts n, id p.2 = n := by
  intro n p hMem
  unfold pipePorts at hMem
  split at hMem
  · exact absurd hMem List.not_mem_nil
  · exact congrArg Prod.snd (List.mem_singleton.mp hMem)

/-- A source and nodes that read, each of them, what the node before writes. -/
def Graph.pipe (k : Nat) : Graph where
  nodes := List.range k
  name := fun n => if n = 0 then "source" else "next"
  inputPorts := pipePorts
  outputs := fun n => [n + 1]
  maxInFlight := fun _ => 1
  sourceLayer := fun _ => 0
  address := fun n => n
  queue := fun _ => 0
  queues := [0]
  hasExecutor := fun _ => true
  owner := id
  routes := fun h => [h]
  graphInputs := []
  totalGraphInputStreams := 0
  nodes_nodup := List.nodup_range
  queues_nodup := nodup_zero
  queue_mem := fun _ _ => List.mem_singleton_self 0
  owner_port := owner_pipePorts

def pipeOutputs (k : Nat) (o : OutId) : OutputStreamManager where
  spec := { name := "out" }
  mirrors := if o < k then [⟨some o, 0⟩] else []

theorem consumers_pipe {k : Nat} {o t : Nat} (hMem : t ∈ consumers (.pipe k) (pipeOutputs k) o) :
    t = o := by
  unfold consumers pipeOutputs at hMem
  split at hMem
  · exact List.mem_singleton.mp hMem
  · exact absurd hMem List.not_mem_nil

theorem consumers_pipe_of_lt {k o : Nat} (hLt : o < k) :
    consumers (.pipe k) (pipeOutputs k) o = [o] := by
  unfold consumers pipeOutputs
  rw [if_pos hLt]
  rfl

theorem maxInFlight_pipe (k : Nat) (n : NodeId) : (Graph.pipe k).maxInFlight n ≤ 1 := le_refl 1

theorem lookup_pipe (k : Nat) (o : OutId) (name : String) :
    (Graph.pipe k).graphInputs.lookup name ≠ some o := by
  intro hLookup
  cases hLookup

/-- From node `n` of a pipe to the next one. -/
def Channel.pipe {k n : Nat} (hLt : n + 1 < k) : Channel (.pipe k) (pipeOutputs k) where
  node := n
  manager := n + 1
  stream := n + 1
  maxInFlight := maxInFlight_pipe k n
  outputs_nodup := List.nodup_singleton (n + 1)
  owned := List.mem_singleton_self (n + 1)
  owner := fun _ hMem => (Nat.succ.inj (List.mem_singleton.mp hMem)).symm
  inner := lookup_pipe k (n + 1)
  consumer := (consumers_pipe_of_lt hLt).symm ▸ List.mem_singleton_self (n + 1)
  consumers_nodup := (consumers_pipe_of_lt hLt).symm ▸ List.nodup_singleton (n + 1)
  alone := fun _ hMem => (consumers_pipe hMem).symm
  port_eq := fun _ hMem _ => List.mem_singleton.mp hMem

/-- From the source of a pipe of three nodes to the second node, and on to the third. -/
def pipeStart : Channel (.pipe 3) (pipeOutputs 3) := Channel.pipe (n := 0) (Nat.le_refl 2 |>.step)

def pipeEnd : Channel (.pipe 3) (pipeOutputs 3) := Channel.pipe (n := 1) (Nat.le_refl 3)

/-- The source writes its first packet, then its second one. -/
def counts (k : Nat) : List Packet := [⟨some k, Timestamp.ofValue k⟩]

/-- A node that adds 10 to its packets. -/
def addsTen (_ : OutId) (packets : List Packet) : List Packet :=
  packets.getLast?.toList.map fun p => ⟨p.holder.map (· + 10), p.timestamp⟩

theorem line_pipe : Line pipeStart [pipeEnd] := ⟨⟨"in", rfl⟩, trivial⟩

/-- A node writes packet `k`. -/
def writesPacket (k ts : Nat) : Choice :=
  .returns Status.okStatus [("out", .addPacket ⟨some k, Timestamp.ofValue ts⟩)]

/-- The source is called twice, and its first packet goes down the pipe while the second call
is at work. -/
def shortRun : List (Action Choice Call) :=
  runs 0 21 .ok ++ calls (.worker 0) 1 4 .ok ++ runs 1 1 (writesPacket 1 1) ++ runs 1 25 .ok ++
    calls (.worker 0) 2 4 .ok ++ calls (.worker 0) 3 5 .ok ++ runs 3 1 (writesPacket 11 1) ++
    runs 3 27 .ok ++ calls (.worker 0) 4 5 .ok

/-- The second packet is there before the second node looks at the first one, and the source
stops with the third. -/
def longRun : List (Action Choice Call) :=
  runs 0 21 .ok ++ calls (.worker 0) 1 4 .ok ++ runs 1 1 (writesPacket 1 1) ++ runs 1 25 .ok ++
    calls (.worker 0) 2 4 .ok ++ runs 2 1 (writesPacket 2 2) ++ runs 2 22 .ok ++
    calls (.worker 0) 3 4 .ok ++ calls (.worker 0) 4 5 .ok ++ runs 4 1 (writesPacket 11 1) ++
    runs 4 29 .ok ++ calls (.worker 0) 5 28 .ok ++ calls (.worker 0) 6 5 .ok ++
    runs 6 1 (writesPacket 12 2) ++ runs 6 27 .ok ++ calls (.worker 0) 7 5 .ok ++
    runs 3 1 (.returns Status.statusStop [("out", .addPacket ⟨some 3, Timestamp.ofValue 3⟩)]) ++
    runs 3 28 .ok

/-- The streams of the pipe are open, and `packets` have come out. -/
def comesOut (packets : List Packet) (c : Config (Recorded Shared Transfer) Frame) : Bool :=
  [pipeStart, pipeEnd].all (fun ch => !(c.shared.state.net.outputs ch.manager).closed) &&
    decide (pipeEnd.output c.shared.history = packets)

theorem open_of_comesOut {packets : List Packet} {c : Config (Recorded Shared Transfer) Frame}
    (hOut : comesOut packets c = true) :
    (∀ ch ∈ [pipeStart, pipeEnd], (c.shared.state.net.outputs ch.manager).closed = false) ∧
      pipeEnd.output c.shared.history = packets := by
  obtain ⟨hAll, hPackets⟩ := Bool.and_eq_true_iff.mp hOut
  refine ⟨fun ch hMem => ?_, of_decide_eq_true hPackets⟩
  have hOpen := List.all_eq_true.mp hAll ch hMem
  rwa [Bool.not_eq_true'] at hOpen

def tens (k ts : Nat) : Packet := ⟨some (10 + k), Timestamp.ofValue ts⟩

theorem shortRun_reaches :
    ∃ c, (traced (.pipe 3)).Reaches
        (scripted (.pipe 3) (pipeOutputs 3) counts addsTen pipeStart [pipeEnd])
        (started (initial (pipeOutputs 3) 0 false)).record c ∧
      (comesOut [tens 1 1] c && c.frames.all (fun f => !f.holdsPending 1) &&
        (c.shared.state.stream 2).queue.isEmpty &&
        decide (pipeStart.output c.shared.history = counts 1)) = true :=
  Machine.exists_reaches _ _ _ shortRun _ (by decide +kernel)

theorem longRun_reaches :
    ∃ c, (traced (.pipe 3)).Reaches
        (scripted (.pipe 3) (pipeOutputs 3) counts addsTen pipeStart [pipeEnd])
        (started (initial (pipeOutputs 3) 0 false)).record c ∧
      ((c.shared.state.net.outputs pipeStart.manager).closed &&
        decide (pipeEnd.output c.shared.history = [tens 1 1, tens 2 2])) = true :=
  Machine.exists_reaches _ _ _ longRun _ (by decide +kernel)

/-- What has come out of the pipe in the short run is what it makes of what has gone in. -/
theorem pipeline_computes_short :
    ∃ c, (traced (.pipe 3)).Reaches (computing (.pipe 3) (pipeOutputs 3) addsTen [2])
        (started (initial (pipeOutputs 3) 0 false)).record c ∧
      pipeStart.output c.shared.history = counts 1 ∧
      pipeEnd.output c.shared.history = [tens 1 1] ∧
      pipeEnd.output c.shared.history =
        transform addsTen [pipeEnd] (pipeStart.output c.shared.history) := by
  obtain ⟨c, hReach, hTest⟩ := shortRun_reaches
  simp only [Bool.and_eq_true, decide_eq_true_eq, List.all_eq_true, Bool.not_eq_true',
    List.isEmpty_iff] at hTest
  obtain ⟨⟨⟨hOut, hIdle⟩, hQueue⟩, hIn⟩ := hTest
  obtain ⟨hOpen, hPackets⟩ := open_of_comesOut hOut
  obtain ⟨-, hComputing⟩ := Machine.reaches_of_and _ hReach
  have hSettled : ∀ ch ∈ [pipeEnd],
      (c.shared.state.net.outputs ch.manager).closed = false ∧ ch.Settled c := by
    intro ch hMem
    rw [List.mem_singleton.mp hMem]
    exact ⟨hOpen pipeEnd (by simp), hIdle, hQueue⟩
  exact ⟨c, hComputing, hIn, hPackets, (pipeline_computes addsTen pipeStart [pipeEnd] line_pipe
    hComputing).2 hSettled⟩

/-- What has come out in the short run is the beginning of what comes out in the long one, in
which the first stream has been closed. -/
theorem schedules_agree_pipe :
    ∃ c c', (traced (.pipe 3)).Reaches
        (scripted (.pipe 3) (pipeOutputs 3) counts addsTen pipeStart [pipeEnd])
        (started (initial (pipeOutputs 3) 0 false)).record c ∧
      (traced (.pipe 3)).Reaches
        (scripted (.pipe 3) (pipeOutputs 3) counts addsTen pipeStart [pipeEnd])
        (started (initial (pipeOutputs 3) 0 false)).record c' ∧
      pipeEnd.output c.shared.history = [tens 1 1] ∧
      (c'.shared.state.net.outputs pipeStart.manager).closed = true ∧
      pipeEnd.output c'.shared.history = [tens 1 1, tens 2 2] ∧
      (pipeEnd.output c.shared.history <+: pipeEnd.output c'.shared.history ∨
        pipeEnd.output c'.shared.history <+: pipeEnd.output c.shared.history) := by
  obtain ⟨c, hReach, hTest⟩ := shortRun_reaches
  obtain ⟨c', hReach', hTest'⟩ := longRun_reaches
  simp only [Bool.and_eq_true, decide_eq_true_eq] at hTest hTest'
  obtain ⟨-, hPackets⟩ := open_of_comesOut hTest.1.1.1
  obtain ⟨hClosed, hPackets'⟩ := hTest'
  exact ⟨c, c', hReach, hReach', hPackets, hClosed, hPackets', schedules_agree counts addsTen
    pipeStart [pipeEnd] line_pipe hReach hReach'⟩

end GraphRuntime.Scheduler
