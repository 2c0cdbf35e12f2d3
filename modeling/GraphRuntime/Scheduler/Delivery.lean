import GraphRuntime.Lib.Recording
import GraphRuntime.Scheduler.Synchronous

/-!
# What the nodes receive on the two paths

A run is recorded with what the nodes put into their output shards (`Emission`).  On
the asynchronous path every packet a node receives was put on its stream by the node
that feeds it (`Traced`); on the synchronous path a node behind a source receives
nothing.  So the two paths deliver the same, namely what was emitted, if and only if
nothing was (`paths_agree_iff`).
-/

namespace GraphRuntime.Scheduler

open GraphRuntime.Stream Interleaving

variable {g : Graph} {s s' : Shared} {f : Frame} {fs A B : List Frame} {x : Choice}

/-! ## Emissions -/

/-- What a call of `Process` left in the output shards of a node. -/
structure Emission where
  node : NodeId
  outputs : Shards

/-- The packets put on the stream of manager `o`, behind `port`. -/
def Emission.packets (g : Graph) (o : OutId) (port : String) (e : Emission) : List Packet :=
  if o ∈ g.outputs e.node then (e.outputs port).outputQueue else []

/-- The packets put on the stream of manager `o` in a whole run. -/
def emitted (g : Graph) (o : OutId) (port : String) (es : List Emission) : List Packet :=
  es.flatMap (Emission.packets g o port)

def Frame.emission : Frame → Choice → Option Emission
  | .run r .inProcess, .returns _ writes => some ⟨r.node, applyWrites r.outputs writes⟩
  | _, _ => none

/-- On the synchronous path the shards are new for every call. -/
def RuntimeFrame.emission : RuntimeFrame → Choice → Option Emission
  | .async f, x => f.emission x
  | .schedule (.process _ n _), .returns _ writes
  | .schedule (.processDownstream n _ _ _), .returns _ writes =>
      some ⟨n, applyWrites (fun _ => {}) writes⟩
  | _, _ => none

/-- The packets node `n` has been called with. -/
def received (s : Shared) (n : NodeId) : List Packet :=
  s.log.flatMap fun e =>
    match e with
    | .processCalled m inputs => if m = n then inputs.filterMap InputShard.packet else []
    | _ => []

theorem mem_received {n : NodeId} {packet : Packet} :
    packet ∈ received s n ↔ ∃ inputs, .processCalled n inputs ∈ s.log ∧
      ∃ shard ∈ inputs, shard.packet = some packet := by
  unfold received
  rw [List.mem_flatMap]
  constructor
  · rintro ⟨e, hEvent, hMem⟩
    cases e with
    | processCalled m inputs =>
        by_cases hEq : m = n
        · subst hEq
          exact ⟨inputs, hEvent, by simpa using hMem⟩
        · simp [hEq] at hMem
    | _ => exact absurd hMem List.not_mem_nil
  · rintro ⟨inputs, hEvent, hMem⟩
    exact ⟨_, hEvent, by simpa using hMem⟩

/-! ## Managers keep their mirrors -/

/-- The same stream and the same mirrors. -/
def SameWiring (s s' : Shared) : Prop :=
  ∀ o, (s'.net.outputs o).mirrors = (s.net.outputs o).mirrors ∧
    (s'.net.outputs o).spec = (s.net.outputs o).spec

theorem SameWiring.of_outputs (hSame : s'.net.outputs = s.net.outputs) : SameWiring s s' := by
  intro o
  rw [hSame]
  exact ⟨rfl, rfl⟩

theorem SameWiring.setOutput {o : OutId} {m : OutputStreamManager}
    (hMirrors : m.mirrors = (s.net.outputs o).mirrors) (hSpec : m.spec = (s.net.outputs o).spec) :
    SameWiring s (s.setOutput o m) := by
  intro o'
  show (Function.update s.net.outputs o m o').mirrors = _ ∧
    (Function.update s.net.outputs o m o').spec = _
  by_cases hEq : o' = o
  · subst hEq
    rw [Function.update_self]
    exact ⟨hMirrors, hSpec⟩
  · rw [Function.update_of_ne hEq]
    exact ⟨rfl, rfl⟩

theorem sameWiring_propagateThen {π : Type} {o : OutId} {bound : Timestamp}
    {shard : OutputStreamShard} {callees : List Frame} {pc : π} :
    SameWiring s (propagateThen s o bound shard callees pc).state := by
  unfold propagateThen OutputStreamManager.beginPropagate
  split
  · exact .setOutput rfl rfl
  · exact .setOutput rfl rfl

/-- **No step changes the mirrors**. -/
theorem exec_wiring (hStep : exec g s f x = some (s', fs)) : SameWiring s s' := by
  cases f with
  | run r pc =>
      obtain ⟨t, hTurn, rfl, rfl⟩ := exec_run hStep
      revert hTurn
      fun_cases runStep g s r x pc
      all_goals intro hTurn; cases hTurn
      all_goals first
        | exact .of_outputs rfl
        | exact sameWiring_propagateThen
        | exact .of_outputs (congrArg (fun s => s.net.outputs) (scheduleNode_eq g s _))
  | handleIdle pc =>
      obtain ⟨rfl, rfl⟩ := exec_handleIdle hStep
      obtain ⟨_, _, _, _, _, _, hState⟩ := idleStep_frame g s pc
      exact .of_outputs (by rw [hState])
  | start pc =>
      obtain ⟨t, hTurn, rfl, rfl⟩ := exec_start hStep
      obtain ⟨_, _, _, _, _, _, hState⟩ := startStep_frame hTurn
      exact .of_outputs (by rw [hState])
  | api pc =>
      obtain ⟨t, hTurn, rfl, rfl⟩ := exec_api hStep
      revert hTurn
      fun_cases apiStep g s pc
      all_goals intro hTurn; cases hTurn
      all_goals try split
      all_goals first
        | exact .of_outputs rfl
        | exact sameWiring_propagateThen
  | arrival n =>
      have hState : s' = (scheduleNode g s n).1 :=
        (congrArg Prod.fst (Option.some.inj hStep)).symm
      exact .of_outputs (by rw [hState, scheduleNode_eq])
  | closeManager o =>
      simp only [exec] at hStep
      split at hStep <;> cases hStep
      · exact .of_outputs rfl
      · rename_i m p hClose
        unfold OutputStreamManager.beginClose at hClose
        split at hClose
        · cases hClose
        · cases hClose
          exact .setOutput rfl rfl
  | _ =>
      revert hStep
      unfold exec
      simp only
      repeat' split
      all_goals intro hStep; cases hStep
      all_goals exact .of_outputs rfl

/-! ## What is in flight -/

/-- A propagation is on its way, between its packets and its bound or before both. -/
def InFlight (p : Propagation) (fs : List Frame) : Prop :=
  .propagate p ∈ fs ∨ .propagateBound p ∈ fs

theorem InFlight.of_after {p : Propagation} (hFlight : InFlight p (A ++ (fs ++ B))) :
    InFlight p fs ∨ InFlight p (A ++ f :: B) := by
  rcases hFlight with hPackets | hBound
  · exact (mem_after hPackets).imp Or.inl Or.inl
  · exact (mem_after hBound).imp Or.inr Or.inr

/-- The managers a `RunNode` call has still to propagate for. -/
def RunPc.outputsLeft : RunPc → List OutId
  | .postProcess rest _ | .closeOutputs rest _ => rest
  | _ => []

theorem packetStep_packets_subset {routes : Routes} {streams : Streams} {p : Propagation} :
    (Propagation.packetStep routes streams p).2.1.packets ⊆ p.packets := by
  unfold Propagation.packetStep
  repeat' split
  all_goals try exact List.Subset.refl _
  rename_i t _ _ _
  show ((streams t).movePackets p.packets).packets ⊆ p.packets
  unfold InputStreamManager.movePackets
  rw [InputStreamManager.appendLoop_eq]
  split
  · exact List.Subset.refl _
  · exact List.nil_subset _

/-- What a propagation carries that a step of frame `f` leaves. -/
inductive Carried (g : Graph) (s : Shared) (p : Propagation) : Frame → Prop
  | onward (p₀ : Propagation) (hMirrors : p.mirrors ⊆ p₀.mirrors)
      (hPackets : p.packets ⊆ p₀.packets) (f : Frame)
      (hFrame : f = .propagate p₀ ∨ f = .propagateBound p₀) : Carried g s p f
  | nothing (hPackets : p.packets = []) (f : Frame) : Carried g s p f
  | shard (r : Invocation) (pc : RunPc) (o : OutId) (hLeft : o ∈ pc.outputsLeft)
      (hMirrors : p.mirrors = (s.net.outputs o).mirrors)
      (hPackets : p.packets = (r.outputs (s.net.port o)).outputQueue) :
      Carried g s p (.run r pc)
  | injected (o : OutId) (packet : Packet)
      (hMirrors : p.mirrors = (s.net.outputs o).mirrors) :
      Carried g s p (.api (.injectPacket o packet))

/-- Where a propagation comes from that a step of frame `f` leaves: it was on its way, or
it goes to the mirrors of a manager. -/
inductive Sent (g : Graph) (s : Shared) (p : Propagation) : Frame → Prop
  | onward (p₀ : Propagation) (hMirrors : p.mirrors ⊆ p₀.mirrors)
      (hPackets : p.packets ⊆ p₀.packets) (f : Frame)
      (hFrame : f = .propagate p₀ ∨ f = .propagateBound p₀) : Sent g s p f
  | shard (r : Invocation) (pc : RunPc) (o : OutId) (hLeft : o ∈ pc.outputsLeft)
      (hMirrors : p.mirrors = (s.net.outputs o).mirrors)
      (hPackets : p.packets = (r.outputs (s.net.port o)).outputQueue) :
      Sent g s p (.run r pc)
  | closed (o : OutId) (hMirrors : p.mirrors = (s.net.outputs o).mirrors)
      (hPackets : p.packets = []) : Sent g s p (.closeManager o)
  | injected (o : OutId) (packet : Packet)
      (hMirrors : p.mirrors = (s.net.outputs o).mirrors) :
      Sent g s p (.api (.injectPacket o packet))

theorem Sent.carried {p : Propagation} (hSent : Sent g s p f) : Carried g s p f := by
  cases hSent with
  | onward p₀ hMirrors hPackets f hFrame => exact .onward p₀ hMirrors hPackets f hFrame
  | shard r pc o hLeft hMirrors hPackets => exact .shard r pc o hLeft hMirrors hPackets
  | closed o _ hPackets => exact .nothing hPackets _
  | injected o packet hMirrors => exact .injected o packet hMirrors

theorem propagate_of_propagateThen {π : Type} {o : OutId} {bound : Timestamp}
    {shard : OutputStreamShard} {callees : List Frame} {pc : π} {p : Propagation}
    (hMem : .propagate p ∈ (propagateThen s o bound shard callees pc).calls)
    (hCallees : .propagate p ∉ callees) :
    p.mirrors = (s.net.outputs o).mirrors ∧ p.packets = shard.outputQueue := by
  have hHead : .propagate p ∈ Frame.propagate ((s.net.outputs o).beginPropagate bound shard).2 ::
    callees := hMem
  rw [List.mem_cons] at hHead
  rcases hHead with hEq | hLater
  · cases hEq
    exact ⟨rfl, rfl⟩
  · exact absurd hLater hCallees

theorem runStep_sent {p : Propagation} {r : Invocation} {pc : RunPc}
    {t : Turn (Invocation × RunPc)} (hTurn : runStep g s r x pc = some t)
    (hMem : .propagate p ∈ t.calls) : Sent g s p (.run r pc) := by
  have hSchedule : ∀ n, .propagate p ∉ (scheduleNode g s n).2 := by
    intro n hIn
    exact absurd (scheduleNode_frames hIn) (by simp)
  revert hTurn hMem
  fun_cases runStep g s r x pc
  all_goals intro hTurn hMem; cases hTurn
  case case11.refl =>
    rename_i o rest status _ _ _
    obtain ⟨hMirrors, hPackets⟩ := propagate_of_propagateThen hMem (by split <;> simp)
    exact .shard r _ o List.mem_cons_self hMirrors hPackets
  case case13.refl =>
    rename_i o rest stopped
    obtain ⟨hMirrors, hPackets⟩ := propagate_of_propagateThen hMem (by simp)
    exact .shard r _ o List.mem_cons_self hMirrors hPackets
  all_goals first
    | exact absurd hMem (hSchedule _)
    | exact absurd hMem List.not_mem_nil
    | exact absurd hMem (by
        unfold sourceStoppedCallback idleCallback
        repeat' split
        all_goals simp)
    | exact absurd hMem (by
        unfold errorCallback
        split <;> simp)

theorem apiStep_sent {p : Propagation} {pc : ApiPc} {t : Turn ApiPc}
    (hTurn : apiStep g s pc = some t) (hMem : .propagate p ∈ t.calls) :
    Sent g s p (.api pc) := by
  revert hTurn hMem
  fun_cases apiStep g s pc
  all_goals intro hTurn hMem; cases hTurn
  case case3.refl =>
    rename_i o packet _ _
    obtain ⟨hMirrors, -⟩ := propagate_of_propagateThen hMem List.not_mem_nil
    exact .injected o packet hMirrors
  all_goals try split at hMem
  all_goals exact absurd hMem (by simp)

/-- **A propagation among the frames a step leaves** goes on with what was in flight, or
takes what a shard of its caller holds. -/
theorem exec_sent {p : Propagation} (hStep : exec g s f x = some (s', fs))
    (hFlight : InFlight p fs) : Sent g s p f := by
  cases f with
  | run r pc =>
      obtain ⟨t, hTurn, rfl, rfl⟩ := exec_run hStep
      rcases hFlight with hMem | hMem
      · refine runStep_sent hTurn ?_
        simpa using hMem
      · exact False.elim (exec_leaves hStep _ hMem)
  | propagate p₀ =>
      simp only [exec] at hStep
      split at hStep <;> cases hStep
      · simp [InFlight] at hFlight
      · have hEq : p = (Propagation.packetStep g.routes s.net.streams p₀).2.1 := by
          unfold InFlight arrivalCallback at hFlight
          split at hFlight <;> simpa using hFlight
        refine .onward p₀ ?_ ?_ _ (Or.inl rfl)
        · rw [hEq, Propagation.packetStep_mirrors]
          exact List.Subset.refl _
        · rw [hEq]
          exact packetStep_packets_subset
  | propagateBound p₀ =>
      cases hStep
      have hEq : p = (Propagation.boundStep g.routes s.net.streams p₀).2.1 := by
        unfold InFlight arrivalCallback at hFlight
        split at hFlight <;> simpa using hFlight
      rw [Propagation.boundStep_snd] at hEq
      refine .onward p₀ ?_ ?_ _ (Or.inr rfl)
      · rw [hEq]
        exact List.Sublist.subset (List.tail_sublist _)
      · rw [hEq]
        exact List.Subset.refl _
  | closeManager o =>
      simp only [exec] at hStep
      split at hStep <;> cases hStep
      · simp [InFlight] at hFlight
      · rename_i m p₀ hClose
        have hEq : p = p₀ := by simpa [InFlight] using hFlight
        unfold OutputStreamManager.beginClose at hClose
        split at hClose <;> cases hClose
        exact .closed o (by rw [hEq]) (by rw [hEq])
  | api pc =>
      obtain ⟨t, hTurn, rfl, rfl⟩ := exec_api hStep
      rcases hFlight with hMem | hMem
      · refine apiStep_sent hTurn ?_
        simpa using hMem
      · have hLeaves := exec_leaves hStep _ hMem
        cases pc <;> exact False.elim hLeaves
  | _ =>
      rcases hFlight with hMem | hMem
      · exact False.elim (exec_leaves hStep _ hMem)
      · exact False.elim (exec_leaves hStep _ hMem)

theorem exec_carried {p : Propagation} (hStep : exec g s f x = some (s', fs))
    (hFlight : InFlight p fs) : Carried g s p f := (exec_sent hStep hFlight).carried

/-- A call that injects a packet looks up the manager of a graph input. -/
theorem inject_of_exec {o : OutId} {packet : Packet} (hStep : exec g s f x = some (s', fs))
    (hMem : .api (.injectPacket o packet) ∈ fs) :
    ∃ stream, g.graphInputs.lookup stream = some o := by
  obtain ⟨pc, t, rfl, hTurn, -, hNext⟩ := api_of_exec hStep hMem
  revert hTurn
  fun_cases apiStep g s pc
  case case2 stream packet' o' hLookup =>
    intro hTurn
    cases hTurn
    refine ⟨stream, ?_⟩
    split at hNext
    · cases hNext
    · cases hNext
      exact hLookup
  all_goals intro hTurn; cases hTurn
  all_goals try split at hNext
  all_goals cases hNext

/-- The packets of a stream after a step were there or come with a propagation. -/
theorem exec_queued {t : StreamId} {packet : Packet} (hStep : exec g s f x = some (s', fs))
    (hMem : packet ∈ (s'.stream t).queue) :
    packet ∈ (s.stream t).queue ∨
      ∃ p, f = .propagate p ∧ t ∈ p.targets g.routes ∧ packet ∈ p.packets := by
  have hChange := exec_stream t hStep
  generalize s'.stream t = m at hChange hMem
  cases hChange with
  | same => exact Or.inl hMem
  | popped r port rest =>
      rw [InputStreamManager.popQueueHead_queue] at hMem
      exact Or.inl (List.mem_of_mem_tail hMem)
  | added p fs hTarget hPackets hArrival =>
      have hNew : packet ∈ (s.stream t).queue ∨ packet ∈ p.packets := by
        unfold InputStreamManager.addPackets at hMem
        rw [InputStreamManager.appendLoop_eq] at hMem
        split at hMem
        · exact Or.inl hMem
        · exact List.mem_append.mp hMem
      refine hNew.imp_right fun hIn => ⟨p, rfl, ?_, hIn⟩
      obtain ⟨mirror, hHead, hResolve⟩ := Option.bind_eq_some_iff.mp hTarget
      exact List.mem_filterMap.mpr ⟨mirror, List.mem_of_head? hHead, hResolve⟩
  | bounded p =>
      rw [InputStreamManager.setNextTimestampBound_queue] at hMem
      exact Or.inl hMem

/-! ## Packets come from the node that feeds the stream -/

/-- A node with one input stream, fed by a node. -/
structure InnerEdge (g : Graph) (outputs : OutId → OutputStreamManager) where
  node : NodeId
  port : String
  stream : StreamId
  feeder : OutId
  inputPorts_eq : g.inputPorts node = [(port, stream)]
  /-- No other manager has a mirror into the stream. -/
  only : ∀ o, stream ∈ (outputs o).mirrors.filterMap (Mirror.resolve g.routes) → o = feeder
  /-- It is not a graph input. -/
  inner : ∀ name, g.graphInputs.lookup name ≠ some feeder

namespace InnerEdge

variable {outputs : OutId → OutputStreamManager}

/-- The port of the feeding node. -/
def outPort (e : InnerEdge g outputs) : String := Config.portName (outputs e.feeder).spec.name

end InnerEdge

section

variable {outputs : OutId → OutputStreamManager} {e : InnerEdge g outputs} {Q R : Packet → Prop}

/-- What a `RunNode` call holds for the stream satisfies `Q`. -/
structure RunTraced (e : InnerEdge g outputs) (Q : Packet → Prop) (r : Invocation)
    (pc : RunPc) : Prop where
  shard : e.feeder ∈ g.outputs r.node → ∀ packet ∈ (r.outputs e.outPort).outputQueue, Q packet
  left : ∀ o ∈ pc.outputsLeft, o ∈ g.outputs r.node
  inputs : r.node = e.node → ∀ shard ∈ r.inputs, ∀ packet, shard.packet = some packet → Q packet

/-- Everything on its way to the node behind the edge satisfies `Q`. -/
structure Traced (e : InnerEdge g outputs) (Q : Packet → Prop) (s : Shared)
    (fs : List Frame) : Prop where
  wired : ∀ o, (s.net.outputs o).mirrors = (outputs o).mirrors ∧
    (s.net.outputs o).spec = (outputs o).spec
  queue : ∀ packet ∈ (s.stream e.stream).queue, Q packet
  flight : ∀ p, InFlight p fs → e.stream ∈ p.targets g.routes → ∀ packet ∈ p.packets, Q packet
  run : ∀ r pc, .run r pc ∈ fs → RunTraced e Q r pc
  inject : ∀ o packet, .api (.injectPacket o packet) ∈ fs → o ≠ e.feeder
  log : ∀ inputs, .processCalled e.node inputs ∈ s.log →
    ∀ shard ∈ inputs, ∀ packet, shard.packet = some packet → Q packet

theorem Traced.mono (hTraced : Traced e Q s fs) (hWeaker : ∀ packet, Q packet → R packet) :
    Traced e R s fs where
  wired := hTraced.wired
  queue := fun packet hMem => hWeaker _ (hTraced.queue packet hMem)
  flight := fun p hFlight hTarget packet hMem =>
    hWeaker _ (hTraced.flight p hFlight hTarget packet hMem)
  run := fun r pc hMem =>
    ⟨fun hOut packet hIn => hWeaker _ ((hTraced.run r pc hMem).shard hOut packet hIn),
      (hTraced.run r pc hMem).left,
      fun hNode shard hIn packet hEq =>
        hWeaker _ ((hTraced.run r pc hMem).inputs hNode shard hIn packet hEq)⟩
  inject := hTraced.inject
  log := fun inputs hMem shard hIn packet hEq =>
    hWeaker _ (hTraced.log inputs hMem shard hIn packet hEq)

theorem runStep_outputsLeft {r r' : Invocation} {pc pc' : RunPc} {t : Turn (Invocation × RunPc)}
    {o : OutId} (hTurn : runStep g s r x pc = some t) (hNext : t.next = some (r', pc'))
    (hMem : o ∈ pc'.outputsLeft) : o ∈ pc.outputsLeft ∨ o ∈ g.outputs r'.node := by
  revert hTurn
  fun_cases runStep g s r x pc
  all_goals intro hTurn; cases hTurn
  all_goals cases hNext
  all_goals try unfold afterProcess at hMem
  all_goals try unfold afterAct at hMem
  all_goals repeat' split at hMem
  all_goals first
    | exact absurd hMem List.not_mem_nil
    | exact Or.inl (List.mem_cons_of_mem _ hMem)
    | exact Or.inl hMem
    | exact Or.inr hMem

theorem mem_of_prepare {r : Invocation} {net : Net} {o : OutId} {port : String} {packet : Packet}
    (hMem : packet ∈ ((r.prepare net o).outputs port).outputQueue) :
    packet ∈ (r.outputs port).outputQueue := by
  unfold Invocation.prepare at hMem
  by_cases hEq : port = net.port o
  · subst hEq
    simp [OutputStreamShard.reset] at hMem
  · simpa [hEq] using hMem

theorem mem_of_clear {r : Invocation} {net : Net} {o : OutId} {port : String} {packet : Packet}
    (hMem : packet ∈ ((r.clear net o).outputs port).outputQueue) :
    packet ∈ (r.outputs port).outputQueue := by
  unfold Invocation.clear at hMem
  by_cases hEq : port = net.port o
  · subst hEq
    simp [OutputStreamManager.clearShard] at hMem
  · simpa [hEq] using hMem

theorem mem_of_popQueueHead {m : InputStreamManager} {packet : Packet}
    (hHead : (if m.popQueueHead.1.isEmpty then none else some m.popQueueHead.1) = some packet) :
    packet ∈ m.queue := by
  unfold InputStreamManager.popQueueHead at hHead
  cases hQueue : m.queue with
  | nil => simp [hQueue, Packet.isEmpty, Packet.empty] at hHead
  | cons head rest =>
      have hEq : packet = head := by
        simp only [hQueue] at hHead
        split at hHead
        · exact absurd hHead (by simp)
        · exact (Option.some.inj hHead).symm
      rw [hEq]
      exact List.mem_cons_self

theorem runStep_traced {r r' : Invocation} {pc pc' : RunPc} {t : Turn (Invocation × RunPc)}
    (hTurn : runStep g s r x pc = some t) (hNext : t.next = some (r', pc'))
    (hPlaced : pc.Placed g r.node) (hRun : RunTraced e Q r pc)
    (hQueue : ∀ packet ∈ (s.stream e.stream).queue, Q packet)
    (hEmits : ∀ em, (Frame.run r pc).emission x = some em →
      ∀ packet ∈ em.packets g e.feeder e.outPort, Q packet) : RunTraced e Q r' pc' := by
  obtain ⟨hShard, hLeft, hInputs⟩ := hRun
  obtain ⟨-, hNode, -⟩ := runStep_next hTurn hNext
  have hLeft' : ∀ o ∈ pc'.outputsLeft, o ∈ g.outputs r'.node := by
    intro o hMem
    rcases runStep_outputsLeft hTurn hNext hMem with hOld | hNew
    · exact hNode ▸ hLeft o hOld
    · exact hNew
  revert hTurn hEmits
  fun_cases runStep g s r x pc
  all_goals intro hTurn hEmits; cases hTurn
  all_goals cases hNext
  case case1.refl.refl =>
    rename_i port t rest _ _
    refine ⟨hShard, hLeft', fun hNode shard hMem packet hPacket => ?_⟩
    rcases List.mem_append.mp hMem with hOld | hNew
    · exact hInputs hNode shard hOld packet hPacket
    · have hPort : (port, t) ∈ g.inputPorts e.node := hNode ▸ hPlaced _ List.mem_cons_self
      rw [e.inputPorts_eq, List.mem_singleton] at hPort
      cases hPort
      obtain rfl := List.mem_singleton.mp hNew
      exact hQueue packet (mem_of_popQueueHead hPacket)
  case case6.refl.refl =>
    exact ⟨fun hOut packet hMem => hShard hOut packet (mem_of_prepare hMem), hLeft', hInputs⟩
  case case9.refl.refl =>
    refine ⟨fun hOut packet hMem => hEmits _ rfl packet ?_, hLeft', hInputs⟩
    show packet ∈ if e.feeder ∈ g.outputs r.node then _ else _
    rw [if_pos hOut]
    exact hMem
  case case11.refl.refl | case13.refl.refl =>
    exact ⟨fun hOut packet hMem => hShard hOut packet (mem_of_clear hMem), hLeft', hInputs⟩
  all_goals exact ⟨hShard, hLeft', hInputs⟩

theorem Traced.exec_flight (hTraced : Traced e Q s (A ++ f :: B))
    (hStep : exec g s f x = some (s', fs)) {p : Propagation}
    (hFlight : InFlight p (A ++ (fs ++ B))) (hTarget : e.stream ∈ p.targets g.routes) :
    ∀ packet ∈ p.packets, Q packet := by
  intro packet hMem
  rcases hFlight.of_after (f := f) with hNew | hOld
  · have hFeeder : ∀ o, p.mirrors = (s.net.outputs o).mirrors → o = e.feeder := by
      intro o hMirrors
      refine e.only o ?_
      rw [← (hTraced.wired o).1, ← hMirrors]
      exact hTarget
    have hCarried := exec_carried hStep hNew
    cases hCarried with
    | onward p₀ hMirrors hPackets f hFrame =>
        have hBefore : InFlight p₀ (A ++ f :: B) := by
          rcases hFrame with rfl | rfl
          · exact Or.inl mem_running
          · exact Or.inr mem_running
        exact hTraced.flight p₀ hBefore (List.filterMap_subset _ hMirrors hTarget) packet
          (hPackets hMem)
    | nothing hPackets => exact absurd (hPackets ▸ hMem) List.not_mem_nil
    | shard r pc o hLeft hMirrors hPackets =>
        have hOut : o = e.feeder := hFeeder o hMirrors
        have hRun := hTraced.run r pc mem_running
        have hPort : s.net.port o = e.outPort := by
          show Config.portName (s.net.outputs o).spec.name = _
          rw [(hTraced.wired o).2, hOut]
          rfl
        refine hRun.shard (hOut ▸ hRun.left o hLeft) packet ?_
        rw [← hPort, ← hPackets]
        exact hMem
    | injected o packet' hMirrors =>
        exact absurd (hFeeder o hMirrors) (hTraced.inject o packet' mem_running)
  · exact hTraced.flight p hOld hTarget packet hMem

theorem Traced.exec (hTraced : Traced e Q s (A ++ f :: B)) (hPlaced : Placed g s (A ++ f :: B))
    (hStep : exec g s f x = some (s', fs))
    (hEmits : ∀ em, f.emission x = some em → ∀ packet ∈ em.packets g e.feeder e.outPort, Q packet) :
    Traced e Q s' (A ++ (fs ++ B)) where
  wired := by
    intro o
    obtain ⟨hMirrors, hSpec⟩ := exec_wiring hStep o
    obtain ⟨hMirrors₀, hSpec₀⟩ := hTraced.wired o
    exact ⟨hMirrors.trans hMirrors₀, hSpec.trans hSpec₀⟩
  queue := by
    intro packet hMem
    rcases exec_queued hStep hMem with hOld | ⟨p, rfl, hTarget, hIn⟩
    · exact hTraced.queue packet hOld
    · exact hTraced.flight p (Or.inl mem_running) hTarget packet hIn
  flight := fun p hFlight => hTraced.exec_flight hStep hFlight
  run := by
    intro r pc hMem
    rcases mem_after (f := f) hMem with hNew | hOld
    · rcases run_of_exec hStep hNew with
        ⟨r₀, pc₀, t, rfl, hTurn, rfl, hNext⟩ | ⟨q, it, queue, rfl, hPop, rfl, rfl, rfl⟩
      · have hPc := (hPlaced.run r₀ pc₀ mem_running).2.2.2
        exact runStep_traced hTurn hNext hPc (hTraced.run r₀ pc₀ mem_running) hTraced.queue hEmits
      · exact ⟨fun _ packet hIn => absurd hIn List.not_mem_nil,
          fun o hIn => absurd hIn List.not_mem_nil, fun _ shard hIn => absurd hIn List.not_mem_nil⟩
    · exact hTraced.run r pc hOld
  inject := by
    intro o packet hMem
    rcases mem_after (f := f) hMem with hNew | hOld
    · obtain ⟨stream, hLookup⟩ := inject_of_exec hStep hNew
      intro hEq
      exact e.inner stream (hEq ▸ hLookup)
    · exact hTraced.inject o packet hOld
  log := by
    intro inputs hMem
    have hChange := exec_log hStep
    generalize s'.log = log at hChange hMem
    cases hChange with
    | same => exact hTraced.log inputs hMem
    | processCalled r =>
        rcases List.mem_append.mp hMem with hOld | hNew
        · exact hTraced.log inputs hOld
        · obtain ⟨hNode, hInputs⟩ : e.node = r.node ∧ inputs = r.inputs := by simpa using hNew
          rw [hInputs]
          exact (hTraced.run r _ mem_running).inputs hNode.symm
    | _ => exact hTraced.log inputs (by simpa using hMem)

theorem Traced.spawn {b : Call} (hTraced : Traced e Q s A)
    (hSpawn : Scheduler.spawn g s b = some (s', fs)) : Traced e Q s' (A ++ fs) := by
  obtain ⟨tasks, rfl, hFrames⟩ := spawn_frame hSpawn
  have hOld : ∀ f' ∈ A ++ fs, f' ∈ A ∨ (∃ q, f' = .runNextTask q) ∨ ∃ pc, f' = .api pc :=
    fun f' hMem => (List.mem_append.mp hMem).imp_right (hFrames f')
  refine ⟨hTraced.wired, hTraced.queue, ?_, ?_, ?_, hTraced.log⟩
  · intro p hFlight
    refine hTraced.flight p ?_
    rcases hFlight with hMem | hMem
    · exact Or.inl (by simpa using hOld _ hMem)
    · exact Or.inr (by simpa using hOld _ hMem)
  · intro r pc hMem
    exact hTraced.run r pc (by simpa using hOld _ hMem)
  · intro o packet hMem
    rcases List.mem_append.mp hMem with hBefore | hNew
    · exact hTraced.inject o packet hBefore
    · rcases spawn_cases hSpawn with ⟨q, -, -, -, rfl⟩ | ⟨-, pc, rfl, hCall⟩
      · simp at hNew
      · obtain rfl : ApiPc.injectPacket o packet = pc := by simpa using hNew
        simp at hCall

theorem Traced.initial (defaultQueue : QueueId) (errorCallback : Bool) :
    Traced e Q (initial outputs defaultQueue errorCallback) [.start .begin] where
  wired := fun _ => ⟨rfl, rfl⟩
  queue := fun _ hMem => absurd hMem List.not_mem_nil
  flight := by simp [InFlight]
  run := by simp
  inject := by simp
  log := fun _ hMem => absurd hMem List.not_mem_nil

end

/-! ## The two paths -/

variable {outputs : OutId → OutputStreamManager} {defaultQueue : QueueId} {errorCallback : Bool}

/-- The packets the feeding node put on the stream in a recorded run. -/
def InnerEdge.emitted (e : InnerEdge g outputs) (es : List Emission) : List Packet :=
  Scheduler.emitted g e.feeder e.outPort es

/-- **On the asynchronous path a node is only called with what its feeder emitted**. -/
theorem received_emitted {c : Config (Recorded Shared Emission) Frame}
    (hReach : ((machine g).recording Frame.emission).Reaches Guard.all.recorded
      (started (initial outputs defaultQueue errorCallback)).record c)
    (e : InnerEdge g outputs) :
    ∀ packet ∈ received c.shared.state e.node, packet ∈ e.emitted c.shared.history := by
  have hPlaced : ∀ c, ((machine g).recording Frame.emission).Reaches Guard.all.recorded
      (started (initial outputs defaultQueue errorCallback)).record c →
      Placed g c.shared.state c.frames :=
    fun c hReach => placed_of_reaches (Machine.reaches_of_recording hReach)
  have hTraced : Traced e (fun packet => packet ∈ e.emitted c.shared.history) c.shared.state
      c.frames := by
    refine Machine.invariant_with
      (J := fun s fs => Placed g s.state fs)
      (I := fun s fs => Traced e (fun packet => packet ∈ e.emitted s.history) s.state fs)
      hPlaced (Traced.initial defaultQueue errorCallback) ?_ ?_ hReach
    · intro s A f B x s' fs hPlaced hTraced _ hStep
      obtain ⟨hExec, hHistory⟩ := Machine.recording_exec hStep
      have hGrows : ∀ packet, packet ∈ e.emitted s'.history ↔ packet ∈ e.emitted s.history ∨
          ∃ em, f.emission x = some em ∧ packet ∈ em.packets g e.feeder e.outPort := by
        intro packet
        rw [hHistory]
        simp [InnerEdge.emitted, Scheduler.emitted]
      refine (hTraced.mono fun packet hMem => (hGrows packet).mpr (Or.inl hMem)).exec hPlaced
        hExec ?_
      intro em hEmission packet hMem
      exact (hGrows packet).mpr (Or.inr ⟨em, hEmission, hMem⟩)
    · intro s A b s' fs _ hTraced _ hStep
      obtain ⟨hSpawn, hHistory⟩ := Machine.recording_spawn hStep
      rw [hHistory]
      exact hTraced.spawn hSpawn
  intro packet hMem
  obtain ⟨inputs, hEvent, shard, hShard, hPacket⟩ := mem_received.mp hMem
  exact hTraced.log inputs hEvent shard hShard packet hPacket

/-- Every call of `Process` so far was made with empty shards. -/
def Unfed (s : Shared) : Prop := ∀ n inputs, .processCalled n inputs ∈ s.log → inputs = []

theorem Unfed.of_log (hUnfed : Unfed s) (hLog : s'.log = s.log) : Unfed s' := by
  intro n inputs hMem
  exact hUnfed n inputs (hLog ▸ hMem)

theorem Unfed.record {e : Event} (hUnfed : Unfed s) (hLog : s'.log = s.log ++ [e])
    (hEvent : ∀ n inputs, e = .processCalled n inputs → inputs = []) : Unfed s' := by
  intro n inputs hMem
  rw [hLog] at hMem
  rcases List.mem_append.mp hMem with hOld | hNew
  · exact hUnfed n inputs hOld
  · exact hEvent n inputs (List.mem_singleton.mp hNew).symm

theorem Unfed.calm (hUnfed : Unfed s) (hCalm : f.calm = true)
    (hStep : exec g s f x = some (s', fs)) : Unfed s' := by
  have hChange := exec_log hStep
  generalize hLog : s'.log = log at hChange
  cases hChange with
  | same => exact hUnfed.of_log hLog
  | openItem | processCalled | processReturned | opened =>
      exact absurd hCalm (by simp [Frame.calm])
  | closed => exact hUnfed.record hLog (by simp)
  | reported => exact hUnfed.record hLog (by simp)

theorem Unfed.schedule {pc : SchedulePc} {t : Turn SchedulePc} (hUnfed : Unfed s)
    (hTurn : scheduleStep g s x pc = some t) : Unfed t.state := by
  revert hTurn
  fun_cases scheduleStep g s x pc
  all_goals intro hTurn; cases hTurn
  all_goals repeat' split
  all_goals first
    | exact hUnfed.of_log rfl
    | exact hUnfed.record rfl (by simp)

/-- **On the synchronous path no node is called with a packet**. -/
theorem received_schedule {c : Config Shared RuntimeFrame}
    (hReach : (runtime g).Reaches soleCall
      (launched .schedule (initial outputs defaultQueue errorCallback)) c) (n : NodeId) :
    received c.shared n = [] := by
  have hUnfed : Unfed c.shared := by
    refine Machine.invariant_with (J := Sole) (I := fun s _ => Unfed s)
      (fun c hReach => sole_of_reaches hReach) (fun n inputs hMem => absurd hMem List.not_mem_nil)
      ?_ ?_ hReach
    · intro s A f B x s' fs hSole hUnfed _ hStep
      rcases runtimeExec_cases hStep with
        ⟨f, fs, rfl, hExec, rfl⟩ | ⟨pc, t, rfl, hTurn, rfl, rfl⟩
      · exact hUnfed.calm (hSole.calm f (by simp)) hExec
      · exact hUnfed.schedule hTurn
    · intro s A b s' fs _ hUnfed _ hStep
      obtain ⟨r, hSpawn, hOut⟩ := Option.map_eq_some_iff.mp hStep
      cases hOut
      obtain ⟨tasks, hState, -⟩ := spawn_frame hSpawn
      exact hUnfed.of_log (by rw [hState])
  rw [List.eq_nil_iff_forall_not_mem]
  intro packet hMem
  obtain ⟨inputs, hEvent, shard, hShard, -⟩ := mem_received.mp hMem
  rw [hUnfed n inputs hEvent] at hShard
  exact absurd hShard List.not_mem_nil

def payloads (packets : List Packet) : List (Option Nat) := packets.map Packet.holder

/-- Every node with one input stream receives the same payloads on the two paths, on each
of them what its producer emitted. -/
def PathsAgree (g : Graph) (outputs : OutId → OutputStreamManager)
    (synchronous asynchronous : Recorded Shared Emission) : Prop :=
  ∀ e : InnerEdge g outputs,
    payloads (received synchronous.state e.node) = payloads (received asynchronous.state e.node) ∧
    payloads (received synchronous.state e.node) = payloads (e.emitted synchronous.history) ∧
    payloads (received asynchronous.state e.node) = payloads (e.emitted asynchronous.history)

/-- **The two paths deliver the same data if and only if no node puts a packet on a stream
another node reads.** -/
theorem paths_agree_iff {c₁ : Config (Recorded Shared Emission) RuntimeFrame}
    {c₂ : Config (Recorded Shared Emission) Frame}
    (hSchedule : ((runtime g).recording RuntimeFrame.emission).Reaches soleCall.recorded
      (launched .schedule (initial outputs defaultQueue errorCallback)).record c₁)
    (hStart : ((machine g).recording Frame.emission).Reaches Guard.all.recorded
      (started (initial outputs defaultQueue errorCallback)).record c₂) :
    PathsAgree g outputs c₁.shared c₂.shared ↔
      ∀ e : InnerEdge g outputs,
        e.emitted c₁.shared.history = [] ∧ e.emitted c₂.shared.history = [] := by
  have hNothing : ∀ e : InnerEdge g outputs, received c₁.shared.state e.node = [] :=
    fun e => received_schedule (Machine.reaches_of_recording hSchedule) e.node
  constructor
  · intro hAgree e
    obtain ⟨hSame, hEmitted₁, hEmitted₂⟩ := hAgree e
    rw [hNothing e] at hSame hEmitted₁
    rw [← hSame] at hEmitted₂
    exact ⟨List.map_eq_nil_iff.mp hEmitted₁.symm, List.map_eq_nil_iff.mp hEmitted₂.symm⟩
  · intro hEmitted e
    obtain ⟨hEmitted₁, hEmitted₂⟩ := hEmitted e
    have hNone : received c₂.shared.state e.node = [] := by
      rw [List.eq_nil_iff_forall_not_mem]
      intro packet hMem
      have hFed := received_emitted hStart e packet hMem
      rw [hEmitted₂] at hFed
      exact absurd hFed List.not_mem_nil
    rw [hNothing e, hNone, hEmitted₁, hEmitted₂]
    exact ⟨rfl, rfl, rfl⟩

/-! ## A source and a sink -/

/-- Node 0 writes, on port `out`, what node 1 reads on port `in`. -/
def Graph.sourceSink : Graph where
  nodes := [0, 1]
  name := fun n => if n = 0 then "source" else "sink"
  inputPorts := fun n => if n = 1 then [("in", 1)] else []
  outputs := fun n => if n = 0 then [1] else []
  maxInFlight := fun _ => 1
  sourceLayer := fun _ => 0
  address := fun n => n
  queue := fun _ => 0
  queues := [0]
  hasExecutor := fun _ => true
  owner := id
  routes := fun h => [h]
  graphInputs := []
  totalGraphInputStreams := 0
  nodes_nodup := by decide
  queues_nodup := nodup_zero
  queue_mem := by simp
  owner_port := by
    intro n p hMem
    split at hMem
    · simp_all
    · simp at hMem

def sourceSinkOutputs (o : OutId) : OutputStreamManager where
  spec := { name := "out" }
  mirrors := if o = 1 then [⟨some 1, 0⟩] else []

/-- The edge from the source to the sink. -/
def sourceSinkEdge : InnerEdge .sourceSink sourceSinkOutputs where
  node := 1
  port := "in"
  stream := 1
  feeder := 1
  inputPorts_eq := rfl
  only := by
    intro o hMem
    by_contra hOther
    simp [sourceSinkOutputs, hOther] at hMem
  inner := by
    intro name hLookup
    cases hLookup

/-- It is the only one. -/
theorem sourceSink_feeder (e : InnerEdge .sourceSink sourceSinkOutputs) : e.feeder = 1 := by
  have hPorts : Graph.sourceSink.inputPorts e.node = [(e.port, e.stream)] := e.inputPorts_eq
  have hStream : e.stream = 1 := by
    by_cases hSink : e.node = 1
    · rw [hSink] at hPorts
      obtain ⟨-, hStream⟩ : "in" = e.port ∧ 1 = e.stream := by simpa [Graph.sourceSink] using hPorts
      exact hStream.symm
    · simp [Graph.sourceSink, hSink] at hPorts
  refine (e.only 1 ?_).symm
  rw [hStream]
  decide

/-- What the source does when it is called: it stops. -/
def sourceStops (writes : List (String × ShardWrite)) : Choice :=
  .returns Status.statusStop writes

/-- A call of `Schedule` in which the source writes `writes` and stops. -/
def sourceSinkScheduled (writes : List (String × ShardWrite)) (k : Nat) :
    List (Action Choice Call) :=
  runs 0 10 .ok ++ runs 0 1 (sourceStops writes) ++ runs 0 k .ok

/-- A source that stops without a packet. -/
theorem paths_agree_stop :
    ∃ c₁ c₂, ((runtime .sourceSink).recording RuntimeFrame.emission).Reaches soleCall.recorded
        (launched .schedule (initial sourceSinkOutputs 0 false)).record c₁ ∧
      ((machine .sourceSink).recording Frame.emission).Reaches Guard.all.recorded
        (started (initial sourceSinkOutputs 0 false)).record c₂ ∧
      scheduleFrames c₁.frames = [] ∧ c₂.frames = [] ∧
      PathsAgree .sourceSink sourceSinkOutputs c₁.shared c₂.shared := by
  obtain ⟨c₁, hReach₁, hTest₁⟩ :=
    ((runtime .sourceSink).recording RuntimeFrame.emission).exists_reaches soleCall.recorded
      (launched .schedule (initial sourceSinkOutputs 0 false)).record
      (sourceSinkScheduled [] 11)
      (fun c => (scheduleFrames c.frames).isEmpty &&
        (emitted .sourceSink 1 "out" c.shared.history).isEmpty) (by decide +kernel)
  obtain ⟨c₂, hReach₂, hTest₂⟩ :=
    ((machine .sourceSink).recording Frame.emission).exists_reaches Guard.all.recorded
      (started (initial sourceSinkOutputs 0 false)).record
      (runs 0 19 .ok)
      (fun c => c.frames.isEmpty &&
        (emitted .sourceSink 1 "out" c.shared.history).isEmpty) (by decide +kernel)
  simp only [Bool.and_eq_true, List.isEmpty_iff] at hTest₁ hTest₂
  refine ⟨c₁, c₂, hReach₁, hReach₂, hTest₁.1, hTest₂.1, (paths_agree_iff hReach₁ hReach₂).mpr ?_⟩
  intro e
  unfold InnerEdge.emitted InnerEdge.outPort
  rw [sourceSink_feeder e]
  exact ⟨hTest₁.2, hTest₂.2⟩

/-- The source writes one packet and stops: the sink receives it after `Start`, and nothing
during `Schedule`. -/
theorem paths_disagree :
    ∃ c₁ c₂, ((runtime .sourceSink).recording RuntimeFrame.emission).Reaches soleCall.recorded
        (launched .schedule (initial sourceSinkOutputs 0 false)).record c₁ ∧
      ((machine .sourceSink).recording Frame.emission).Reaches Guard.all.recorded
        (started (initial sourceSinkOutputs 0 false)).record c₂ ∧
      scheduleFrames c₁.frames = [] ∧
      c₂.shared.state.state = .kTerminated ∧ c₂.shared.state.hasError = false ∧
      payloads (sourceSinkEdge.emitted c₁.shared.history) = [some 7] ∧
      payloads (sourceSinkEdge.emitted c₂.shared.history) = [some 7] ∧
      received c₁.shared.state 1 = [] ∧ payloads (received c₂.shared.state 1) = [some 7] ∧
      ¬ PathsAgree .sourceSink sourceSinkOutputs c₁.shared c₂.shared := by
  let writes : List (String × ShardWrite) :=
    [("out", .addPacket ⟨some 7, Timestamp.ofValue 1⟩)]
  obtain ⟨c₁, hReach₁, hTest₁⟩ :=
    ((runtime .sourceSink).recording RuntimeFrame.emission).exists_reaches soleCall.recorded
      (launched .schedule (initial sourceSinkOutputs 0 false)).record
      (sourceSinkScheduled writes 12)
      (fun c => (scheduleFrames c.frames).isEmpty &&
        decide (payloads (sourceSinkEdge.emitted c.shared.history) = [some 7]) &&
        (received c.shared.state 1).isEmpty) (by decide +kernel)
  obtain ⟨c₂, hReach₂, hTest₂⟩ :=
    ((machine .sourceSink).recording Frame.emission).exists_reaches Guard.all.recorded
      (started (initial sourceSinkOutputs 0 false)).record
      (runs 0 19 .ok ++ calls (.worker 0) 1 4 .ok ++ runs 1 1 (sourceStops writes) ++
        runs 1 38 .ok ++ calls (.worker 0) 2 27 .ok ++ calls (.worker 0) 3 24 .ok ++
        calls (.worker 0) 4 9 .ok ++ calls (.worker 0) 5 28 .ok)
      (fun c => decide (c.shared.state.state = .kTerminated) && !c.shared.state.hasError &&
        decide (payloads (sourceSinkEdge.emitted c.shared.history) = [some 7]) &&
        decide (payloads (received c.shared.state 1) = [some 7])) (by decide +kernel)
  simp only [Bool.and_eq_true, List.isEmpty_iff, decide_eq_true_eq, Bool.not_eq_true']
    at hTest₁ hTest₂
  obtain ⟨⟨hReturned, hEmitted₁⟩, hReceived₁⟩ := hTest₁
  obtain ⟨⟨⟨hState, hNoError⟩, hEmitted₂⟩, hReceived₂⟩ := hTest₂
  refine ⟨c₁, c₂, hReach₁, hReach₂, hReturned, hState, hNoError, hEmitted₁, hEmitted₂,
    hReceived₁, hReceived₂, ?_⟩
  intro hAgree
  have hSame : payloads (received c₁.shared.state 1) = payloads (received c₂.shared.state 1) :=
    (hAgree sourceSinkEdge).1
  rw [hReceived₁, hReceived₂] at hSame
  cases hSame

end GraphRuntime.Scheduler
