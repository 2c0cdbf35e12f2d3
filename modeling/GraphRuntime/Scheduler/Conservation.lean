import Mathlib.Algebra.BigOperators.Group.List.Lemmas
import GraphRuntime.Lib.Conservation
import GraphRuntime.Scheduler.Channel

/-!
# No packet is lost and none is made up

With more than one call of a node at a time the packets of a stream come out in any order, and
a stream may have several mirrors, of several managers, graph inputs among them.  What is left
of the channel then is that every packet arrives, once for each mirror.

* `sentTo` is what the nodes and the user's threads have sent to a stream, `Frame.load` what a
  frame of a thread has with it for the stream.
* `Spent`: a call has nothing left in a shard that `PostProcess` is through with, as long as
  the managers are open.
* Each step balances (`Balances`), whatever the other threads are at; so with
  `Machine.conserved` every run does (`packets_conserved`).
-/

namespace GraphRuntime.Scheduler

open GraphRuntime.Stream Interleaving

variable {g : Graph} {outputs : OutId → OutputStreamManager} {t : StreamId} {q : Packet}
  {s s' : Shared} {σ σ' : Recorded Shared Transfer} {f : Frame} {fs A B : List Frame}
  {x : Choice} {r : Invocation} {pc : RunPc}

/-! ## What is on its way to a stream -/

/-- Packets that go to `k` mirrors. -/
def copies (k : Nat) (packets : List Packet) : List Packet := (List.replicate k packets).flatten

theorem count_copies (k : Nat) (packets : List Packet) :
    (copies k packets).count q = k * packets.count q := by
  simp [copies, List.count_flatten]

/-- How many mirrors of a manager lead to the stream. -/
def mirrorsTo (g : Graph) (outputs : OutId → OutputStreamManager) (t : StreamId) (o : OutId) :
    Nat := (consumers g outputs o).count t

/-- What the shards of a call of node `n` hold for the stream. -/
def shardsFor (g : Graph) (outputs : OutId → OutputStreamManager) (t : StreamId) (n : NodeId)
    (shards : Shards) : List Packet :=
  (g.outputs n).flatMap fun o =>
    copies (mirrorsTo g outputs t o) (shards (shardPort outputs o)).outputQueue

/-- What a transfer sends to the stream. -/
def Transfer.sent (g : Graph) (outputs : OutId → OutputStreamManager) (t : StreamId) :
    Transfer → List Packet
  | .put e => shardsFor g outputs t e.node e.outputs
  | .injected o packet =>
      copies (mirrorsTo g outputs t o) (OutputStreamShard.addPacket {} packet).outputQueue
  | .taken _ _ => []

/-- The packets that have been sent to the stream. -/
def sentTo (g : Graph) (outputs : OutId → OutputStreamManager) (t : StreamId)
    (history : List Transfer) : List Packet := history.flatMap (Transfer.sent g outputs t)

/-- What a propagation has still to bring to the stream, from mirror `mirrors` on. -/
def Propagation.left (g : Graph) (t : StreamId) (p : Propagation) (mirrors : List Mirror) :
    List Packet := copies ((mirrors.filterMap (Mirror.resolve g.routes)).count t) p.packets

/-- What a frame has with it for the stream. -/
def Frame.load (g : Graph) (outputs : OutId → OutputStreamManager) (t : StreamId) :
    Frame → List Packet
  | .run r _ => shardsFor g outputs t r.node r.outputs
  | .propagate p => Propagation.left g t p p.mirrors
  | .propagateBound p => Propagation.left g t p p.mirrors.tail
  | _ => []

/-- The nodes' managers with a mirror that leads to the stream are open. -/
def FeedersOpen (g : Graph) (outputs : OutId → OutputStreamManager) (t : StreamId)
    (s : Shared) : Prop :=
  ∀ n, ∀ o ∈ g.outputs n, t ∈ consumers g outputs o → (s.net.outputs o).closed = false

/-- How often packet `q` is among what a frame has with it. -/
def Frame.loads (g : Graph) (outputs : OutId → OutputStreamManager) (t : StreamId) (q : Packet)
    (f : Frame) : Nat := (f.load g outputs t).count q

theorem mirrorsTo_eq_zero {o : OutId} (hNot : t ∉ consumers g outputs o) :
    mirrorsTo g outputs t o = 0 := List.count_eq_zero.mpr hNot

theorem count_shardsFor (n : NodeId) (shards : Shards) :
    (shardsFor g outputs t n shards).count q = ((g.outputs n).map fun o =>
      mirrorsTo g outputs t o * (shards (shardPort outputs o)).outputQueue.count q).sum := by
  unfold shardsFor
  rw [List.count_flatMap]
  congr 1
  refine List.map_congr_left fun o _ => ?_
  exact count_copies _ _

theorem count_left (p : Propagation) (mirrors : List Mirror) :
    (Propagation.left g t p mirrors).count q =
      (mirrors.filterMap (Mirror.resolve g.routes)).count t * p.packets.count q :=
  count_copies _ _

/-! ## What the shards hold -/

/-- Where a manager leads to the stream, the call has nothing in its shard, unless
`PostProcess` has still to send it. -/
def Spent (g : Graph) (outputs : OutId → OutputStreamManager) (t : StreamId) (r : Invocation)
    (pc : RunPc) : Prop :=
  ∀ o ∈ g.outputs r.node, t ∈ consumers g outputs o →
    (r.outputs (shardPort outputs o)).outputQueue = [] ∨ pc.Unsent o

/-- Outside `PostProcess` a call has nothing in its shards for the stream. -/
theorem Spent.loads (hSpent : Spent g outputs t r pc) (hPc : ∀ o, ¬ pc.Unsent o) :
    (Frame.run r pc).loads g outputs t q = 0 := by
  show (shardsFor g outputs t r.node r.outputs).count q = 0
  rw [count_shardsFor, List.sum_eq_zero_iff_forall_eq_nat]
  intro k hMem
  obtain ⟨o, hOut, rfl⟩ := List.mem_map.mp hMem
  by_cases hConsumer : t ∈ consumers g outputs o
  · rcases hSpent o hOut hConsumer with hEmpty | hUnsent
    · rw [hEmpty, List.count_nil, Nat.mul_zero]
    · exact absurd hUnsent (hPc o)
  · rw [mirrorsTo_eq_zero hConsumer, Nat.zero_mul]

/-- The shards of the node's managers have keys of their own. -/
def PortsApart (g : Graph) (outputs : OutId → OutputStreamManager) : Prop :=
  ∀ n, ((g.outputs n).map (shardPort outputs)).Nodup

theorem PortsApart.nodup (hPorts : PortsApart g outputs) (n : NodeId) : (g.outputs n).Nodup :=
  (hPorts n).of_map _

theorem PortsApart.inj (hPorts : PortsApart g outputs) {n : NodeId} {o o' : OutId}
    (hOut : o ∈ g.outputs n) (hOut' : o' ∈ g.outputs n)
    (hSame : shardPort outputs o = shardPort outputs o') : o = o' :=
  List.inj_on_of_nodup_map (hPorts n) hOut hOut' hSame

/-- What every configuration of a run meets. -/
structure Shipping (g : Graph) (outputs : OutId → OutputStreamManager) (t : StreamId) (s : Shared)
    (fs : List Frame) : Prop where
  wired : WiredAs outputs s
  receptive : Receptive s
  left : ∀ r pc, .run r pc ∈ fs → ∀ o ∈ pc.outputsLeft, o ∈ g.outputs r.node
  spent : FeedersOpen g outputs t s → ∀ r pc, .run r pc ∈ fs → Spent g outputs t r pc

/-- The shard of another manager is as it was. -/
theorem outputQueue_clear (hPorts : PortsApart g outputs) (hWired : WiredAs outputs s)
    {o o' : OutId} (hOut : o ∈ g.outputs r.node) (hOut' : o' ∈ g.outputs r.node) :
    ((r.clear s.net o).outputs (shardPort outputs o')).outputQueue =
      if o' = o then [] else (r.outputs (shardPort outputs o')).outputQueue := by
  rw [clear_outputs hWired r o o']
  by_cases hEq : o' = o
  · rw [hEq, if_pos rfl, if_pos rfl]
    rfl
  · rw [if_neg hEq, if_neg fun hSame => hEq (hPorts.inj hOut' hOut hSame)]

/-- **What `PostProcess` has sent is no longer in the shard.** -/
theorem Spent.runStep {r' : Invocation} {pc' : RunPc} {u : Turn (Invocation × RunPc)}
    (hPorts : PortsApart g outputs) (hWired : WiredAs outputs s)
    (hOpen : FeedersOpen g outputs t s) (hLeft : ∀ o ∈ pc.outputsLeft, o ∈ g.outputs r.node)
    (hSpent : Spent g outputs t r pc) (hTurn : Scheduler.runStep g s r x pc = some u)
    (hNext : u.next = some (r', pc')) : Spent g outputs t r' pc' := by
  obtain ⟨-, hNode, -⟩ := runStep_next hTurn hNext
  intro o hOut hConsumer
  rw [hNode] at hOut
  by_cases hProcess : pc = .inProcess
  · subst hProcess
    cases x with
    | step => cases hTurn
    | returns status writes =>
        cases hTurn
        cases hNext
        exact Or.inr ⟨_, status, rfl, hPorts.nodup _, hOut⟩
  rcases hSpent o hOut hConsumer with hEmpty | ⟨rest, status, rfl, hNodup, hMem⟩
  · exact Or.inl (runStep_outputQueue hTurn hNext hProcess hEmpty)
  cases rest with
  | nil => exact absurd hMem List.not_mem_nil
  | cons o' rest =>
      have hMine : o' ∈ g.outputs r.node := hLeft o' List.mem_cons_self
      have hRest : o ≠ o' → (RunPc.postProcess rest status).Unsent o := fun hNe =>
        ⟨rest, status, rfl, (List.nodup_cons.mp hNodup).2, (List.mem_cons.mp hMem).resolve_left hNe⟩
      simp only [Scheduler.runStep] at hTurn
      split at hTurn
      · rename_i hClosed
        cases hTurn
        cases hNext
        refine Or.inr (hRest ?_)
        rintro rfl
        rw [hOpen _ o hOut hConsumer] at hClosed
        exact Bool.false_ne_true hClosed
      · cases hTurn
        cases hNext
        by_cases hEq : o = o'
        · left
          rw [outputQueue_clear hPorts hWired hMine hOut, if_pos hEq]
        · exact Or.inr (hRest hEq)

/-- The calls a step leaves. -/
theorem spent_of_exec (hPorts : PortsApart g outputs) (hShipping : Shipping g outputs t s (A ++ f :: B))
    (hOpen : FeedersOpen g outputs t s) (hStep : exec g s f x = some (s', fs)) {r : Invocation}
    {pc : RunPc} (hMem : .run r pc ∈ fs) : Spent g outputs t r pc := by
  rcases run_of_exec hStep hMem with
    ⟨r₀, pc₀, u, rfl, hTurn, -, hNext⟩ | ⟨q, it, queue, rfl, -, -, rfl, rfl⟩
  · exact (hShipping.spent hOpen r₀ pc₀ mem_running).runStep hPorts hShipping.wired hOpen
      (hShipping.left r₀ pc₀ mem_running) hTurn hNext
  · exact fun o _ _ => Or.inl rfl

theorem feedersOpen_of_exec (hStep : exec g s f x = some (s', fs))
    (hOpen : FeedersOpen g outputs t s') : FeedersOpen g outputs t s := by
  intro n o hOut hConsumer
  by_contra hClosed
  rw [Bool.not_eq_false] at hClosed
  have hNow := hOpen n o hOut hConsumer
  rw [exec_stays_closed hStep hClosed] at hNow
  exact Bool.false_ne_true hNow.symm

theorem shipping_of_reaches {defaultQueue : QueueId} {callback : Bool}
    {c : Config (Recorded Shared Transfer) Frame} (hPorts : PortsApart g outputs)
    (hReach : (traced g).Reaches Guard.all
      (started (initial outputs defaultQueue callback)).record c) :
    Shipping g outputs t c.shared.state c.frames := by
  have hRun : (machine g).Reaches Guard.all (started (initial outputs defaultQueue callback))
      c.forget := Machine.reaches_of_tracing (G := Guard.all) hReach
  refine Machine.invariant (I := Shipping g outputs t) ?_ ?_ ?_ hRun
  · refine ⟨fun o => ⟨rfl, rfl⟩, fun t => rfl, ?_, fun _ => ?_⟩
    · intro r pc hMem
      simp [Config.frames, started] at hMem
    · intro r pc hMem
      simp [Config.frames, started] at hMem
  · intro s A f B x s' fs hBefore _ hStep
    refine ⟨hBefore.wired.exec hStep, hBefore.receptive.exec hStep, ?_, fun hOpen => ?_⟩
    · intro r pc hMem o hIn
      rcases mem_after hMem with hNew | hOld
      · rcases run_of_exec hStep hNew with
          ⟨r₀, pc₀, u, rfl, hTurn, -, hNext⟩ | ⟨q, it, queue, -, -, -, rfl, rfl⟩
        · rcases runStep_outputsLeft hTurn hNext hIn with hWas | hAll
          · obtain ⟨-, hNode, -⟩ := runStep_next hTurn hNext
            rw [hNode]
            exact hBefore.left r₀ pc₀ mem_running o hWas
          · exact hAll
        · exact absurd hIn List.not_mem_nil
      · exact hBefore.left r pc hOld o hIn
    · have hOpen := feedersOpen_of_exec hStep hOpen
      intro r pc hMem
      rcases mem_after hMem with hNew | hOld
      · exact spent_of_exec hPorts hBefore hOpen hStep hNew
      · exact hBefore.spent hOpen r pc hOld
  · intro s A b s' fs hBefore _ hSpawn
    have hOld : ∀ r pc, .run r pc ∈ A ++ fs → .run r pc ∈ A := fun r pc hMem =>
      mem_of_spawn hSpawn hMem (fun q hEq => by cases hEq) (fun pc hEq => by cases hEq)
    obtain ⟨tasks, rfl, -⟩ := spawn_frame hSpawn
    exact ⟨hBefore.wired, hBefore.receptive, fun r pc hMem => hBefore.left r pc (hOld r pc hMem),
      fun hOpen r pc hMem => hBefore.spent hOpen r pc (hOld r pc hMem)⟩

/-! ## A step balances -/

/-- How often packet `q` has been sent to the stream. -/
def shipped (g : Graph) (outputs : OutId → OutputStreamManager) (t : StreamId) (q : Packet)
    (σ : Recorded Shared Transfer) : Nat := (sentTo g outputs t σ.history).count q

/-- How often packet `q` has been taken from the stream or is in its queue. -/
def arrived (t : StreamId) (q : Packet) (σ : Recorded Shared Transfer) : Nat :=
  (takenFrom t σ.history).count q + (σ.state.stream t).queue.count q

theorem shipped_of_exec (g : Graph) (outputs : OutId → OutputStreamManager) (t : StreamId)
    (q : Packet) (hStep : (traced g).exec σ f x = some (σ', fs)) :
    shipped g outputs t q σ' = shipped g outputs t q σ +
      ((transfer σ.state f x).toList.flatMap (Transfer.sent g outputs t)).count q := by
  obtain ⟨-, hHistory⟩ := Machine.tracing_exec hStep
  simp [shipped, sentTo, hHistory]

/-- Only `Process` and the injection of a packet send something. -/
theorem shipped_of_other (g : Graph) (outputs : OutId → OutputStreamManager) (t : StreamId)
    (q : Packet) (hProcess : ∀ r, f ≠ .run r .inProcess)
    (hInject : ∀ o packet, f ≠ .api (.injectPacket o packet))
    (hStep : (traced g).exec σ f x = some (σ', fs)) :
    shipped g outputs t q σ' = shipped g outputs t q σ := by
  have hNone : (transfer σ.state f x).toList.flatMap (Transfer.sent g outputs t) = [] := by
    unfold transfer Frame.emission
    split
    · rename_i r status writes
      exact absurd rfl (hProcess r)
    · unfold Frame.injects
      split
      · rename_i o packet _
        exact absurd rfl (hInject o packet)
      · unfold Frame.takes
        split
        · cases (σ.state.stream _).queue with
          | nil => rfl
          | cons packet rest => rfl
        · rfl
  rw [shipped_of_exec g outputs t q hStep, hNone, List.count_nil, Nat.add_zero]

/-- Only a propagation brings something. -/
theorem arrived_of_other (hPropagate : ∀ p, f ≠ .propagate p)
    (hStep : (traced g).exec σ f x = some (σ', fs)) : arrived t q σ' = arrived t q σ := by
  have hSame := takenFrom_append_queue t hStep fun p hFrame => absurd hFrame (hPropagate p)
  have hCount := congrArg (List.count q) hSame
  rwa [List.count_append, List.count_append] at hCount

/-- A propagation without packets for the stream. -/
theorem count_left_eq_zero {p : Propagation} {mirrors : List Mirror} (hSubset : mirrors ⊆ p.mirrors)
    (hPackets : t ∈ p.targets g.routes → p.packets = []) :
    (Propagation.left g t p mirrors).count q = 0 := by
  rw [count_left]
  by_cases hMem : t ∈ mirrors.filterMap (Mirror.resolve g.routes)
  · have hTarget : t ∈ p.targets g.routes := List.filterMap_subset _ hSubset hMem
    rw [hPackets hTarget, List.count_nil, Nat.mul_zero]
  · rw [List.count_eq_zero.mpr hMem, Nat.zero_mul]

/-- The step balances: what the frame has with it and what is sent is what arrives and what
the frames it leaves have with them. -/
def Balances (g : Graph) (outputs : OutId → OutputStreamManager) (t : StreamId) (q : Packet)
    (σ σ' : Recorded Shared Transfer) (f : Frame) (fs : List Frame) : Prop :=
  shipped g outputs t q σ' + arrived t q σ + f.loads g outputs t q =
    shipped g outputs t q σ + arrived t q σ' + amount (Frame.loads g outputs t q) fs

/-- A step that leads to a call with something in its shards. -/
theorem runStep_unsent {r' : Invocation} {pc' : RunPc} {u : Turn (Invocation × RunPc)} {o : OutId}
    (hTurn : runStep g s r x pc = some u) (hNext : u.next = some (r', pc'))
    (hUnsent : pc'.Unsent o) :
    pc = .inProcess ∨ ∃ rest status, pc = .postProcess rest status := by
  obtain ⟨rest', status', rfl, -⟩ := hUnsent
  revert hTurn hNext
  fun_cases runStep g s r x pc
  case case9 => exact fun _ _ => Or.inl rfl
  case case10 => exact fun _ _ => Or.inr ⟨_, _, rfl⟩
  case case11 => exact fun _ _ => Or.inr ⟨_, _, rfl⟩
  all_goals intro hTurn hNext
  all_goals cases hTurn
  all_goals try unfold afterProcess at hNext
  all_goals try unfold afterAct at hNext
  all_goals repeat' split at hNext
  all_goals cases hNext

/-- A frame that leads to no call of `PostProcess` and to no propagation. -/
def Frame.Bare (f : Frame) : Prop :=
  (∀ r, f ≠ .run r .inProcess) ∧ (∀ r rest status, f ≠ .run r (.postProcess rest status)) ∧
    (∀ p, f ≠ .propagate p) ∧ (∀ p, f ≠ .propagateBound p) ∧
    ∀ o packet, f ≠ .api (.injectPacket o packet)

theorem Frame.Bare.not_unsent {o : OutId} (hBare : (Frame.run r pc).Bare) : ¬ pc.Unsent o := by
  rintro ⟨rest, status, rfl, -⟩
  exact hBare.2.1 r rest status rfl

/-- What a bare frame sends on. -/
theorem Frame.Bare.sent {p : Propagation} (hBare : f.Bare)
    (hShipping : Shipping g outputs t s (A ++ f :: B)) (hOpen : FeedersOpen g outputs t s)
    (hSent : Sent g s p f) : t ∈ p.targets g.routes → p.packets = [] := by
  intro hTarget
  cases hSent with
  | onward p₀ _ _ _ hFrame =>
      rcases hFrame with rfl | rfl
      · exact absurd rfl (hBare.2.2.1 p₀)
      · exact absurd rfl (hBare.2.2.2.1 p₀)
  | shard r pc o hLeft hMirrors hPackets =>
      have hConsumer : t ∈ consumers g outputs o := by
        rw [← hShipping.wired.targets o, ← hMirrors]
        exact hTarget
      rw [hPackets, hShipping.wired.port]
      exact (hShipping.spent hOpen r pc mem_running o (hShipping.left r pc mem_running o hLeft)
        hConsumer).resolve_right hBare.not_unsent
  | closed o _ hPackets => exact hPackets
  | injected o packet => exact absurd rfl (hBare.2.2.2.2 o packet)

/-- **A bare frame** has nothing with it, and leaves frames that have nothing. -/
theorem Frame.Bare.balances (hBare : f.Bare) (hPorts : PortsApart g outputs)
    (hShipping : Shipping g outputs t σ.state (A ++ f :: B))
    (hOpen : FeedersOpen g outputs t σ.state) (hStep : (traced g).exec σ f x = some (σ', fs)) :
    Balances g outputs t q σ σ' f fs := by
  obtain ⟨hExec, -⟩ := Machine.tracing_exec hStep
  have hHere : f.loads g outputs t q = 0 := by
    cases f with
    | run r pc => exact (hShipping.spent hOpen r pc mem_running).loads fun o => hBare.not_unsent
    | propagate p => exact absurd rfl (hBare.2.2.1 p)
    | propagateBound p => exact absurd rfl (hBare.2.2.2.1 p)
    | _ => rfl
  have hThere : amount (Frame.loads g outputs t q) fs = 0 := by
    refine amount_eq_zero fun f' hMem => ?_
    cases f' with
    | run r' pc' =>
        refine (spent_of_exec hPorts hShipping hOpen hExec hMem).loads fun o hUnsent => ?_
        rcases run_of_exec hExec hMem with
          ⟨r, pc, u, rfl, hTurn, -, hNext⟩ | ⟨q, it, queue, -, -, -, -, rfl⟩
        · rcases runStep_unsent hTurn hNext hUnsent with rfl | ⟨rest, status, rfl⟩
          · exact hBare.1 r rfl
          · exact hBare.2.1 r rest status rfl
        · obtain ⟨_, _, hPc, -⟩ := hUnsent
          cases hPc
    | propagate p =>
        exact count_left_eq_zero (List.Subset.refl _)
          (hBare.sent hShipping hOpen (exec_sent hExec (Or.inl hMem)))
    | propagateBound p =>
        exact count_left_eq_zero (List.tail_sublist _).subset
          (hBare.sent hShipping hOpen (exec_sent hExec (Or.inr hMem)))
    | _ => rfl
  have hShipped := shipped_of_other g outputs t q hBare.1
    hBare.2.2.2.2 hStep
  have hArrived := arrived_of_other (t := t) (q := q) hBare.2.2.1 hStep
  unfold Balances
  omega

/-- **`Process` returns**: what it has written has been sent, and the call has it. -/
theorem balances_of_process (hShipping : Shipping g outputs t σ.state (A ++ .run r .inProcess :: B))
    (hOpen : FeedersOpen g outputs t σ.state)
    (hStep : (traced g).exec σ (.run r .inProcess) x = some (σ', fs)) :
    Balances g outputs t q σ σ' (.run r .inProcess) fs := by
  have hHere : (Frame.run r .inProcess).loads g outputs t q = 0 := by
    refine (hShipping.spent hOpen r _ mem_running).loads fun o hUnsent => ?_
    obtain ⟨_, _, hPc, -⟩ := hUnsent
    cases hPc
  have hArrived := arrived_of_other (t := t) (q := q) (fun p hFrame => by cases hFrame) hStep
  have hShipped := shipped_of_exec g outputs t q hStep
  obtain ⟨hExec, -⟩ := Machine.tracing_exec hStep
  cases x with
  | step => cases hExec
  | returns status writes =>
      obtain ⟨-, rfl⟩ := Prod.mk.inj (Option.some.inj hExec)
      have hSent : ((transfer σ.state (.run r .inProcess) (.returns status writes)).toList.flatMap
          (Transfer.sent g outputs t)).count q =
            (shardsFor g outputs t r.node (applyWrites r.outputs writes)).count q :=
        congrArg (List.count q) (List.append_nil _)
      have hThere : amount (Frame.loads g outputs t q)
          [.run { r with outputs := applyWrites r.outputs writes }
            (.postProcess (g.outputs r.node) status)] =
          (shardsFor g outputs t r.node (applyWrites r.outputs writes)).count q := Nat.add_zero _
      unfold Balances
      rw [hHere, hArrived, hShipped, hSent]
      show _ = _ + _ + amount (Frame.loads g outputs t q)
        [.run { r with outputs := applyWrites r.outputs writes }
          (.postProcess (g.outputs r.node) status)]
      rw [hThere]
      omega

/-- What `PostProcess` sends of one shard. -/
theorem count_shardsFor_clear (hPorts : PortsApart g outputs) (hWired : WiredAs outputs s)
    {o : OutId} (hOut : o ∈ g.outputs r.node) :
    (shardsFor g outputs t r.node r.outputs).count q =
      mirrorsTo g outputs t o * (r.outputs (shardPort outputs o)).outputQueue.count q +
        (shardsFor g outputs t r.node (r.clear s.net o).outputs).count q := by
  have hNone : ((r.clear s.net o).outputs (shardPort outputs o)).outputQueue = [] := by
    rw [outputQueue_clear hPorts hWired hOut hOut, if_pos rfl]
  have hOthers : ∀ o' ∈ (g.outputs r.node).erase o,
      ((r.clear s.net o).outputs (shardPort outputs o')).outputQueue =
        (r.outputs (shardPort outputs o')).outputQueue := by
    intro o' hMem
    obtain ⟨hNe, hOut'⟩ := (hPorts.nodup r.node).mem_erase_iff.mp hMem
    rw [outputQueue_clear hPorts hWired hOut hOut', if_neg hNe]
  rw [count_shardsFor, count_shardsFor, ← List.sum_map_erase _ hOut, ← List.sum_map_erase _ hOut,
    hNone, List.count_nil, Nat.mul_zero, Nat.zero_add]
  congr 2
  refine List.map_congr_left fun o' hMem => ?_
  rw [hOthers o' hMem]

/-- What a manager sends, for the stream. -/
theorem loads_propagate (hWired : WiredAs outputs s) {o : OutId} {p : Propagation}
    (hMirrors : p.mirrors = (s.net.outputs o).mirrors) :
    (Frame.propagate p).loads g outputs t q = mirrorsTo g outputs t o * p.packets.count q := by
  show (Propagation.left g t p p.mirrors).count q = _
  rw [count_left, hMirrors, hWired.targets o]
  rfl

/-- **`PostProcess`** hands what it has on to its propagations. -/
theorem balances_of_postProcess {rest : List OutId} {status : Status}
    (hPorts : PortsApart g outputs)
    (hShipping : Shipping g outputs t σ.state (A ++ .run r (.postProcess rest status) :: B))
    (hStep : (traced g).exec σ (.run r (.postProcess rest status)) x = some (σ', fs)) :
    Balances g outputs t q σ σ' (.run r (.postProcess rest status)) fs := by
  have hArrived := arrived_of_other (t := t) (q := q) (fun p hFrame => by cases hFrame) hStep
  have hShipped := shipped_of_other g outputs t q
    (fun r hFrame => by cases hFrame) (fun o packet hFrame => by cases hFrame) hStep
  have hLeft := hShipping.left r _ mem_running
  obtain ⟨hExec, -⟩ := Machine.tracing_exec hStep
  suffices hLoads : (Frame.run r (.postProcess rest status)).loads g outputs t q =
      amount (Frame.loads g outputs t q) fs by
    unfold Balances
    omega
  have hSame : ∀ pc', (Frame.run r (.postProcess rest status)).loads g outputs t q =
      amount (Frame.loads g outputs t q) [.run r pc'] := fun pc' => (Nat.add_zero _).symm
  obtain ⟨u, hTurn, -, rfl⟩ := exec_run hExec
  cases rest with
  | nil =>
      cases hTurn
      exact hSame _
  | cons o rest =>
      simp only [runStep] at hTurn
      split at hTurn
      · cases hTurn
        exact hSame _
      · cases hTurn
        have hClose : amount (Frame.loads g outputs t q)
            (if (r.outputs (σ.state.net.port o)).closed then [.closeManager o] else []) = 0 := by
          split <;> rfl
        have hClear := count_shardsFor_clear (t := t) (q := q) hPorts hShipping.wired
          (hLeft o List.mem_cons_self)
        have hPropagate := loads_propagate (g := g) (t := t) (q := q) (o := o)
          (p := ((σ.state.net.outputs o).beginPropagate
            ((σ.state.net.outputs o).computeOutputTimestampBound
              (r.outputs (σ.state.net.port o)) r.timestamp) (r.outputs (σ.state.net.port o))).2)
          hShipping.wired rfl
        rw [hShipping.wired.port] at hClose hPropagate
        simp only [propagateThen, hShipping.wired.port, List.cons_append, amount_cons,
          amount_append, hPropagate, hClose, Option.map_some, Option.toList_some, amount_nil]
        rw [Nat.zero_add, Nat.add_zero]
        exact hClear

/-- The injection of a packet sends it. -/
theorem balances_of_inject {o : OutId} {packet : Packet}
    (hShipping : Shipping g outputs t σ.state (A ++ .api (.injectPacket o packet) :: B))
    (hStep : (traced g).exec σ (.api (.injectPacket o packet)) x = some (σ', fs)) :
    Balances g outputs t q σ σ' (.api (.injectPacket o packet)) fs := by
  have hArrived := arrived_of_other (t := t) (q := q) (fun p hFrame => by cases hFrame) hStep
  have hShipped := shipped_of_exec g outputs t q hStep
  have hSent : ((transfer σ.state (.api (.injectPacket o packet)) x).toList.flatMap
      (Transfer.sent g outputs t)).count q = mirrorsTo g outputs t o *
        (OutputStreamShard.addPacket {} packet).outputQueue.count q := by
    rw [← count_copies]
    exact congrArg (List.count q) (List.append_nil _)
  have hExec : exec g σ.state (.api (.injectPacket o packet)) x = some (σ'.state, fs) :=
    (Machine.tracing_exec hStep).1
  obtain ⟨u, hTurn, -, rfl⟩ := exec_api hExec
  cases hTurn
  have hPropagate := loads_propagate (g := g) (t := t) (q := q) (o := o)
    (p := ((σ.state.net.outputs o).beginPropagate
      ((σ.state.net.outputs o).computeOutputTimestampBound
        (OutputStreamShard.addPacket {} packet) Timestamp.min)
      (OutputStreamShard.addPacket {} packet)).2) hShipping.wired rfl
  have hHere : (Frame.api (.injectPacket o packet)).loads g outputs t q = 0 := rfl
  have hBack : (Frame.api .callHandleIdle).loads g outputs t q = 0 := rfl
  unfold Balances
  simp only [propagateThen, List.cons_append, List.nil_append, amount_cons, hPropagate,
    Option.map_some, Option.toList_some, amount_nil, hBack, hHere, hArrived, hShipped, hSent]
  show _ = _ + _ + (mirrorsTo g outputs t o *
    (OutputStreamShard.addPacket {} packet).outputQueue.count q + (0 + 0))
  omega

/-! ### Propagations -/

theorem loads_arrivalCallback (wake : Option StreamId) :
    amount (Frame.loads g outputs t q) (arrivalCallback g wake) = 0 := by
  cases wake with
  | none => rfl
  | some u => rfl

/-- The mirror a propagation is at, and those after it. -/
theorem count_targets (p : Propagation) :
    (p.mirrors.filterMap (Mirror.resolve g.routes)).count t =
      (if target g p = some t then 1 else 0) +
        (p.mirrors.tail.filterMap (Mirror.resolve g.routes)).count t := by
  obtain ⟨mirrors, packets, nextBound, setBound⟩ := p
  cases mirrors with
  | nil => rfl
  | cons mirror rest =>
      have hTarget : target g ⟨mirror :: rest, packets, nextBound, setBound⟩ =
        mirror.resolve g.routes := rfl
      rw [hTarget]
      cases hResolve : mirror.resolve g.routes with
      | none => simp [hResolve]
      | some u =>
          by_cases hEq : u = t
          · simp [hResolve, hEq, Nat.add_comm]
          · simp [hResolve, hEq]

/-- **The packet half of an iteration** puts down what it brings to its mirror. -/
theorem balances_of_propagate {p : Propagation} (hReceptive : Receptive σ.state)
    (hStep : (traced g).exec σ (.propagate p) x = some (σ', fs)) :
    Balances g outputs t q σ σ' (.propagate p) fs := by
  have hShipped := shipped_of_other g outputs t q
    (fun r hFrame => by cases hFrame) (fun o packet hFrame => by cases hFrame) hStep
  have hTaken : takenFrom t σ'.history = takenFrom t σ.history := by
    rw [takenFrom_of_exec t hStep]
    exact List.append_nil _
  have hHere : (Frame.propagate p).loads g outputs t q =
      (p.mirrors.filterMap (Mirror.resolve g.routes)).count t * p.packets.count q := count_left _ _
  obtain ⟨hExec, -⟩ := Machine.tracing_exec hStep
  simp only [machine, exec] at hExec
  split at hExec
  · rename_i hDone
    obtain ⟨hState, rfl⟩ := Prod.mk.inj (Option.some.inj hExec)
    have hNone : (p.mirrors.filterMap (Mirror.resolve g.routes)).count t = 0 := by
      rw [List.isEmpty_iff.mp hDone]
      rfl
    rw [hNone, Nat.zero_mul] at hHere
    unfold Balances arrived
    rw [hShipped, hTaken, hHere, hState, amount_nil]
  · obtain ⟨hState, rfl⟩ := Prod.mk.inj (Option.some.inj hExec)
    have hQueue : (σ'.state.stream t).queue = (σ.state.stream t).queue ++
        if target g p = some t then p.packets else [] := by
      rw [← hState]
      exact packetStep_queue hReceptive
    have hThere : (Frame.propagateBound
        (Propagation.packetStep g.routes σ.state.net.streams p).2.1).loads g outputs t q =
          (p.mirrors.tail.filterMap (Mirror.resolve g.routes)).count t * p.packets.count q := by
      show (Propagation.left g t _ _).count q = _
      rw [count_left, Propagation.packetStep_mirrors]
      by_cases hMem : t ∈ p.mirrors.tail.filterMap (Mirror.resolve g.routes)
      · rw [packetStep_packets_of_mem (t := t) hMem]
      · rw [List.count_eq_zero.mpr hMem, Nat.zero_mul, Nat.zero_mul]
    unfold Balances arrived
    rw [hShipped, hTaken, hHere, hQueue, amount_append, loads_arrivalCallback, amount_cons,
      amount_nil, hThere, count_targets, Nat.add_mul, List.count_append]
    split
    · omega
    · rw [List.count_nil]
      omega

/-- **The bound half of an iteration** goes on to the next mirror. -/
theorem balances_of_bound {p : Propagation}
    (hStep : (traced g).exec σ (.propagateBound p) x = some (σ', fs)) :
    Balances g outputs t q σ σ' (.propagateBound p) fs := by
  have hShipped := shipped_of_other g outputs t q
    (fun r hFrame => by cases hFrame) (fun o packet hFrame => by cases hFrame) hStep
  have hArrived := arrived_of_other (t := t) (q := q) (fun p hFrame => by cases hFrame) hStep
  obtain ⟨hExec, -⟩ := Machine.tracing_exec hStep
  obtain ⟨-, rfl⟩ := Prod.mk.inj (Option.some.inj hExec)
  have hThere : (Frame.propagate
      (Propagation.boundStep g.routes σ.state.net.streams p).2.1).loads g outputs t q =
        (Frame.propagateBound p).loads g outputs t q := by
    rw [Propagation.boundStep_snd]
    rfl
  unfold Balances
  rw [hShipped, hArrived, amount_append, loads_arrivalCallback, amount_cons, amount_nil, hThere]
  omega

/-- **Every step balances.** -/
theorem balances_of_exec (hPorts : PortsApart g outputs)
    (hShipping : Shipping g outputs t σ.state (A ++ f :: B))
    (hOpen : FeedersOpen g outputs t σ.state) (hStep : (traced g).exec σ f x = some (σ', fs)) :
    Balances g outputs t q σ σ' f fs := by
  by_cases hBare : f.Bare
  · exact hBare.balances hPorts hShipping hOpen hStep
  cases f with
  | run r pc =>
      cases pc with
      | inProcess => exact balances_of_process hShipping hOpen hStep
      | postProcess rest status => exact balances_of_postProcess hPorts hShipping hStep
      | _ => exact absurd (by simp [Frame.Bare]) hBare
  | propagate p => exact balances_of_propagate hShipping.receptive hStep
  | propagateBound p => exact balances_of_bound hStep
  | api pc =>
      cases pc with
      | injectPacket o packet => exact balances_of_inject hShipping hStep
      | _ => exact absurd (by simp [Frame.Bare]) hBare
  | _ => exact absurd (by simp [Frame.Bare]) hBare

/-! ## In every run -/

section

variable {defaultQueue : QueueId} {callback : Bool} {c : Config (Recorded Shared Transfer) Frame}

/-- What is injected is injected for a graph input. -/
theorem injected_of_reaches {G : Guard (Recorded Shared Transfer) Frame Choice Call}
    (hReach : (traced g).Reaches G (started (initial outputs defaultQueue callback)).record c)
    {o : OutId} {packet : Packet} (hMem : .injected o packet ∈ c.shared.history) :
    ∃ name, g.graphInputs.lookup name = some o := by
  have hBoth : (∀ o packet, .injected o packet ∈ c.shared.history →
        ∃ name, g.graphInputs.lookup name = some o) ∧
      ∀ o packet, .api (.injectPacket o packet) ∈ c.frames →
        ∃ name, g.graphInputs.lookup name = some o := by
    refine Machine.invariant (M := traced g) (I := fun s fs =>
      (∀ o packet, .injected o packet ∈ s.history → ∃ name, g.graphInputs.lookup name = some o) ∧
        ∀ o packet, .api (.injectPacket o packet) ∈ fs →
          ∃ name, g.graphInputs.lookup name = some o) ?_ ?_ ?_ hReach
    · refine ⟨fun o packet hIn => absurd hIn List.not_mem_nil, fun o packet hIn => ?_⟩
      simp [Config.frames, Config.record, started] at hIn
    · rintro s A f B x s' fs ⟨hPast, hFrames⟩ - hStep
      obtain ⟨hExec, hHistory⟩ := Machine.tracing_exec hStep
      constructor
      · intro o packet hIn
        rw [hHistory, List.mem_append] at hIn
        rcases hIn with hOld | hNew
        · exact hPast o packet hOld
        · refine hFrames o packet ?_
          have hFrame : f = .api (.injectPacket o packet) := by
            unfold transfer at hNew
            cases hEmission : f.emission x with
            | some e => simp [hEmission] at hNew
            | none =>
                rw [hEmission] at hNew
                unfold Frame.injects at hNew
                split at hNew
                · simpa [eq_comm] using hNew
                · unfold Frame.takes at hNew
                  split at hNew <;> simp at hNew
          rw [hFrame]
          exact mem_running
      · intro o packet hIn
        rcases mem_after hIn with hNew | hOld
        · exact inject_of_exec hExec hNew
        · exact hFrames o packet hOld
    · rintro s A b s' fs ⟨hPast, hFrames⟩ - hSpawn
      obtain ⟨hState, hHistory⟩ := Machine.tracing_spawn hSpawn
      rw [hHistory]
      refine ⟨hPast, fun o packet hIn => ?_⟩
      rcases List.mem_append.mp hIn with hOld | hNew
      · exact hFrames o packet hOld
      · rcases spawn_cases hState with ⟨q, -, -, -, rfl⟩ | ⟨-, pc, rfl, hCall⟩
        · simp at hNew
        · rw [List.mem_singleton, Frame.api.injEq] at hNew
          subst hNew
          simp at hCall
  exact hBoth.1 o packet hMem

/-- A stream with one mirror, a node's, is sent what the node puts in. -/
theorem sentTo_of_sole {G : Guard (Recorded Shared Transfer) Frame Choice Call}
    (hPorts : PortsApart g outputs) {o : OutId}
    (hMirrors : ∀ o', mirrorsTo g outputs t o' = if o' = o then 1 else 0)
    (hInner : ∀ name, g.graphInputs.lookup name ≠ some o)
    (hReach : (traced g).Reaches G (started (initial outputs defaultQueue callback)).record c) :
    sentTo g outputs t c.shared.history =
      c.shared.history.flatMap (Transfer.input g o (shardPort outputs o)) := by
  have hShards : ∀ (n : NodeId) (shards : Shards), shardsFor g outputs t n shards =
      if o ∈ g.outputs n then (shards (shardPort outputs o)).outputQueue else [] := by
    intro n shards
    unfold shardsFor
    simp only [hMirrors]
    have hNodup := hPorts.nodup n
    generalize g.outputs n = os at hNodup ⊢
    induction os with
    | nil => rfl
    | cons o' rest ih =>
        obtain ⟨hNot, hRest⟩ := List.nodup_cons.mp hNodup
        rw [List.flatMap_cons, ih hRest]
        by_cases hEq : o' = o
        · subst hEq
          simp [hNot, copies]
        · simp [hEq, Ne.symm hEq, copies]
  unfold sentTo
  refine List.flatMap_congr fun transfer hMem => ?_
  cases transfer with
  | put e => exact hShards e.node e.outputs
  | taken u packet => rfl
  | injected o' packet =>
      obtain ⟨name, hLookup⟩ := injected_of_reaches hReach hMem
      have hOther : o' ≠ o := by
        rintro rfl
        exact hInner name hLookup
      show copies (mirrorsTo g outputs t o') _ = []
      rw [hMirrors, if_neg hOther]
      rfl

/-- What has been sent to a stream has been taken from it, is in its queue or is with a frame. -/
theorem conserved_of_reaches (t : StreamId) (hPorts : PortsApart g outputs)
    (hReach : (traced g).Reaches Guard.all
      (started (initial outputs defaultQueue callback)).record c)
    (hOpen : FeedersOpen g outputs t c.shared.state) :
    (sentTo g outputs t c.shared.history).Perm
      (takenFrom t c.shared.history ++ (c.shared.state.stream t).queue ++
        c.frames.flatMap (Frame.load g outputs t)) := by
  rw [List.perm_iff_count]
  intro q
  have hSum : shipped g outputs t q c.shared =
      arrived t q c.shared + amount (Frame.loads g outputs t q) c.frames := by
    refine Machine.conserved (fun s => FeedersOpen g outputs t s.state)
      (J := fun s fs => Shipping g outputs t s.state fs)
      (fun c hHere => shipping_of_reaches hPorts hHere) ?_ ?_ ?_ hReach hOpen
    · rfl
    · intro s A f B x s' fs hShipping hStep hOpen'
      have hOpen := feedersOpen_of_exec (Machine.tracing_exec hStep).1 hOpen'
      exact ⟨hOpen, balances_of_exec hPorts hShipping hOpen hStep⟩
    · intro s A b s' fs _ hSpawn hOpen'
      obtain ⟨hState, hHistory⟩ := Machine.tracing_spawn hSpawn
      obtain ⟨tasks, hTasks, hNew⟩ := spawn_frame hState
      have hNone : amount (Frame.loads g outputs t q) fs = 0 := by
        refine amount_eq_zero fun f hMem => ?_
        rcases hNew f hMem with ⟨queue, rfl⟩ | ⟨pc, rfl⟩
        · rfl
        · rfl
      rw [hTasks] at hOpen'
      refine ⟨hOpen', ?_⟩
      unfold shipped arrived
      rw [hNone, hHistory, hTasks]
      rfl
  rw [List.count_append, List.count_append, List.count_flatMap]
  exact hSum

/-- **No packet of a stream is lost, and none is made up**: in every run, as long as the nodes'
managers that lead to the stream are open, what has been sent to it is, up to the order, what
has been taken from it, what is in its queue and what the frames of all threads have with them
for it. -/
theorem packets_conserved (t : StreamId) (hPorts : PortsApart g outputs)
    (hReach : (traced g).Reaches Guard.all
      (started (initial outputs defaultQueue callback)).record c)
    (hOpen : FeedersOpen g outputs t c.shared.state) :
    (sentTo g outputs t c.shared.history).Perm
      (takenFrom t c.shared.history ++ (c.shared.state.stream t).queue ++
        c.frames.flatMap (Frame.load g outputs t)) :=
  conserved_of_reaches t hPorts hReach hOpen

end

/-- A chain of two nodes, two calls of each at a time. -/
def Graph.sideBySide : Graph := { Graph.chainOnOneQueue with maxInFlight := fun _ => 2 }

theorem portsApart_sideBySide : PortsApart .sideBySide (chainOutputs 2) :=
  fun n => List.nodup_singleton (shardPort (chainOutputs 2) (n + 1))

/-- The first of two calls of the first node has its packet still with it when the second node
takes the packet of the second call. -/
theorem packets_conserved_overtaken :
    ∃ c : Config (Recorded Shared Transfer) Frame,
      (traced .sideBySide).Reaches Guard.all (started (chainInitial 2 false)).record c ∧
      takenFrom 1 c.shared.history = [stampedAt 1] ∧
      c.frames.flatMap (Frame.load .sideBySide (chainOutputs 2) 1) = [stampedAt 0] ∧
      (sentTo .sideBySide (chainOutputs 2) 1 c.shared.history).Perm
        (takenFrom 1 c.shared.history ++ (c.shared.state.stream 1).queue ++
          c.frames.flatMap (Frame.load .sideBySide (chainOutputs 2) 1)) := by
  obtain ⟨c, hReach, hTest⟩ := (traced .sideBySide).exists_reaches Guard.all
    (started (chainInitial 2 false)).record
    (runs 0 24 .ok ++ calls (fed 0) 1 14 .ok ++ calls (.worker 0) 2 5 .ok ++
      runs 2 1 (writesAt 0) ++ calls (fed 1) 3 14 .ok ++ calls (.worker 0) 4 5 .ok ++
      runs 4 1 (writesAt 1) ++ runs 4 6 .ok ++ calls (.worker 0) 5 2 .ok)
    (fun c => decide (takenFrom 1 c.shared.history = [stampedAt 1]) &&
      decide (c.frames.flatMap (Frame.load .sideBySide (chainOutputs 2) 1) = [stampedAt 0]) &&
      !(c.shared.state.net.outputs 1).closed)
    (by decide +kernel)
  simp only [Bool.and_eq_true, decide_eq_true_eq, Bool.not_eq_true'] at hTest
  obtain ⟨⟨hTaken, hLoad⟩, hOpen⟩ := hTest
  refine ⟨c, hReach, hTaken, hLoad, packets_conserved 1 portsApart_sideBySide hReach ?_⟩
  intro n o hOut hConsumer
  -- stream 1 has a mirror of manager 1 only
  have hManager : o = 1 := Channel.chain.alone o hConsumer
  rw [hManager]
  exact hOpen

end GraphRuntime.Scheduler
