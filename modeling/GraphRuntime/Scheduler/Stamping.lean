import GraphRuntime.Scheduler.OutputCallbacks
import GraphRuntime.Scheduler.Senders
import GraphRuntime.Stream.OffsetBound
import GraphRuntime.Stream.Sequenced

/-!
# Outputs stamped with the input timestamp

`RunNode` takes the input timestamp of an invocation from `timestamp_counter_` of its
queue.  A node that stamps what it writes with `ctx.InputTimestamp()` so writes packets
of increasing timestamps, one for each stream and invocation; the counter is shared with
the other nodes of the queue and only moves on.

`Stage` says for each place of a `RunNode` call what holds of the managers and consumers
of its node: their bounds have not passed the timestamp of the call where it has still
to send (`Ready`, `Posting`), and not the counter where it has sent.  `Course` is the
course of one call through its places, with what it calls on top.  Neither depends on
what the other threads do to the rest of the graph (`Course.untouched`).
-/

namespace GraphRuntime.Scheduler

open GraphRuntime.Stream GraphRuntime.Config Interleaving

/-! ## The node -/

/-- Writes that stamp outputs with `ts`: at most one packet for each port. -/
def stampsOnly (ts : Timestamp) (writes : List (String × ShardWrite)) : Bool :=
  decide (writes.map Prod.fst).Nodup &&
    writes.all fun w =>
      match w.2 with
      | .addPacket packet => decide (packet.timestamp = ts)
      | _ => false

/-- Node `n` stamps its outputs with its input timestamp; there are fewer than `2 ^ 62`
invocations. -/
def stampsInputs (n : NodeId) : Guard Shared Frame Choice Call where
  exec := fun s _ f x =>
    match f, x with
    | .run r .inProcess, .returns _ writes =>
        decide (r.node ≠ n) || stampsOnly r.timestamp writes
    | .run r (.popInputs []), _ => decide ((s.queues r.queue).timestampCounter < 2 ^ 62)
    | _, _ => true
  spawn := fun _ _ _ => true

/-- `timestamp_counter_` of the queue of a node. -/
def ticks (g : Graph) (s : Shared) (n : NodeId) : Int := (s.queues (g.queue n)).timestampCounter

section

variable {g : Graph} {outputs : OutId → OutputStreamManager} {n : NodeId} {s s' : Shared}
  {f : Frame} {fs A B : List Frame} {x : Choice} {r : Invocation} {o : OutId} {k : Int}

/-! ## Bounds -/

/-- The bound of a manager and those of its consumers have not passed `b`. -/
structure Under (g : Graph) (outputs : OutId → OutputStreamManager) (s : Shared) (o : OutId)
    (b : Int) : Prop where
  manager : (s.net.outputs o).nextTimestampBound.value ≤ b
  streams : ∀ t ∈ consumers g outputs o, (s.stream t).nextTimestampBound.value ≤ b

/-- The managers of the node are all closed, or all open with bounds up to `b`. -/
structure Bounds (g : Graph) (outputs : OutId → OutputStreamManager) (n : NodeId) (s : Shared)
    (b : Int) (closed : Bool) : Prop where
  flag : ∀ o ∈ g.outputs n, (s.net.outputs o).closed = closed
  under : closed = false → ∀ o ∈ g.outputs n, Under g outputs s o b

/-- No call of the node is at work. -/
def Resting (g : Graph) (outputs : OutId → OutputStreamManager) (n : NodeId) (s : Shared) :
    Prop := ∃ closed, Bounds g outputs n s (ticks g s n) closed

theorem Untouching.bound (hSame : Untouching g outputs n s s') (hOut : o ∈ g.outputs n)
    {t : StreamId} (hConsumer : t ∈ consumers g outputs o) :
    (s'.stream t).nextTimestampBound = (s.stream t).nextTimestampBound := by
  rcases hSame.streams o hOut t hConsumer with hStream | hStream
  · rw [hStream]
  · rw [hStream, InputStreamManager.popQueueHead_bound]

theorem Under.mono {b b' : Int} (hUnder : Under g outputs s o b) (hLe : b ≤ b') :
    Under g outputs s o b' :=
  ⟨hUnder.manager.trans hLe, fun t hConsumer => (hUnder.streams t hConsumer).trans hLe⟩

theorem Under.untouched {b : Int} (hUnder : Under g outputs s o b) (hOut : o ∈ g.outputs n)
    (hSame : Untouching g outputs n s s') : Under g outputs s' o b := by
  constructor
  · rw [hSame.managers o hOut]
    exact hUnder.manager
  · intro t hConsumer
    rw [hSame.bound hOut hConsumer]
    exact hUnder.streams t hConsumer

theorem Bounds.untouched {b b' : Int} {closed : Bool} (hBounds : Bounds g outputs n s b closed)
    (hSame : Untouching g outputs n s s') (hLe : b ≤ b') : Bounds g outputs n s' b' closed := by
  constructor
  · intro o hOut
    rw [hSame.managers o hOut]
    exact hBounds.flag o hOut
  · intro hOpen o hOut
    exact ((hBounds.under hOpen o hOut).untouched hOut hSame).mono hLe

theorem Resting.untouched (hResting : Resting g outputs n s)
    (hSame : Untouching g outputs n s s') : Resting g outputs n s' :=
  hResting.imp fun _ hBounds => hBounds.untouched hSame hSame.counter

/-! ## Shards -/

/-- The key of the shard of a manager, as it is made. -/
def shardPort (outputs : OutId → OutputStreamManager) (o : OutId) : String :=
  portName (outputs o).spec.name

theorem WiredAs.port (hWired : WiredAs outputs s) (o : OutId) :
    s.net.port o = shardPort outputs o := by
  unfold Net.port shardPort
  rw [(hWired o).2]

/-- A shard as `PrepareOutputs` leaves it. -/
structure Prepared (closed : Bool) (shard : OutputStreamShard) : Prop where
  queue : shard.outputQueue = []
  updated : shard.updatedNextTimestampBound = Timestamp.unset
  flag : shard.closed = closed

/-- An open shard with at most one packet, stamped with `k`. -/
structure Stamped (k : Int) (shard : OutputStreamShard) : Prop where
  flag : shard.closed = false
  updated : shard.updatedNextTimestampBound.value ≤ k + 1
  queue : shard.outputQueue = [] ∨
    ∃ packet, shard.outputQueue = [packet] ∧ packet.timestamp.value = k

/-- The timestamps of a call may enter a stream and have a successor. -/
theorem isRangeValue_of_ticks {t : Timestamp} (hLow : 0 ≤ t.value) (hHigh : t.value < 2 ^ 62) :
    t.isRangeValue = true := by
  rw [Timestamp.isRangeValue_iff, Timestamp.min_value, Timestamp.max_value]
  unfold int64Min int64Max
  omega

theorem isAllowedInStream_of_ticks {t : Timestamp} (hLow : 0 ≤ t.value)
    (hHigh : t.value < 2 ^ 62) : t.isAllowedInStream = true := by
  simp only [Timestamp.isAllowedInStream, Bool.and_eq_true, decide_eq_true_eq]
  unfold int64Min int64Max
  omega

/-- What one write of the node makes of a prepared shard. -/
theorem stamped_addPacket {packet : Packet} {shard : OutputStreamShard}
    (hPrepared : Prepared false shard) (hLow : 0 ≤ packet.timestamp.value)
    (hHigh : packet.timestamp.value < 2 ^ 62) :
    Stamped packet.timestamp.value (shard.addPacket packet) := by
  have hNext : packet.timestamp.nextAllowedInStream.value = packet.timestamp.value + 1 :=
    Timestamp.nextAllowedInStream_value (isRangeValue_of_ticks hLow hHigh)
  unfold OutputStreamShard.addPacket
  rw [if_neg (by simp [hPrepared.flag])]
  split
  · exact ⟨hPrepared.flag, hNext.le, Or.inl hPrepared.queue⟩
  · exact ⟨hPrepared.flag, hNext.le, Or.inr ⟨packet, by simp [hPrepared.queue], rfl⟩⟩

theorem Prepared.stamped {shard : OutputStreamShard} (hPrepared : Prepared false shard)
    (hLow : 0 ≤ k) : Stamped k shard := by
  refine ⟨hPrepared.flag, ?_, Or.inl hPrepared.queue⟩
  rw [hPrepared.updated]
  show int64Min ≤ k + 1
  unfold int64Min
  omega

/-- A shard no write goes to stays as it is. -/
theorem applyWrites_of_not_mem {port : String} {writes : List (String × ShardWrite)}
    {shards : Shards} (hPort : port ∉ writes.map Prod.fst) :
    applyWrites shards writes port = shards port := by
  induction writes generalizing shards with
  | nil => rfl
  | cons w rest ih =>
      rw [List.map_cons, List.mem_cons, not_or] at hPort
      exact (ih hPort.2).trans (Function.update_of_ne hPort.1 ..)

/-- **What a node that stamps its outputs leaves in an open shard.** -/
theorem stamped_applyWrites {ts : Timestamp} {port : String}
    {writes : List (String × ShardWrite)} {shards : Shards}
    (hWrites : stampsOnly ts writes = true) (hPrepared : Prepared false (shards port))
    (hLow : 0 ≤ ts.value) (hHigh : ts.value < 2 ^ 62) :
    Stamped ts.value (applyWrites shards writes port) := by
  unfold stampsOnly at hWrites
  induction writes generalizing shards with
  | nil => exact hPrepared.stamped hLow
  | cons w rest ih =>
      obtain ⟨port', write⟩ := w
      simp only [List.map_cons, List.nodup_cons, List.all_cons, Bool.and_eq_true,
        decide_eq_true_eq] at hWrites ih
      obtain ⟨⟨hFresh, hNodup⟩, hWrite, hRest⟩ := hWrites
      by_cases hEq : port = port'
      · subst hEq
        show Stamped ts.value
          (applyWrites (Function.update shards port (write.apply (shards port))) rest port)
        rw [applyWrites_of_not_mem hFresh, Function.update_self]
        cases write with
        | addPacket packet =>
            obtain rfl := of_decide_eq_true hWrite
            exact stamped_addPacket hPrepared hLow hHigh
        | _ => exact absurd hWrite Bool.false_ne_true
      · refine ih ⟨hNodup, hRest⟩ ?_
        rwa [Function.update_of_ne hEq]

/-- **The bound `PostProcess` computes** is at most the successor of the timestamp. -/
theorem computeOutputTimestampBound_le {m : OutputStreamManager} {shard : OutputStreamShard}
    (hOffset : m.spec.offsetEnabled = false) (hBound : m.nextTimestampBound.value ≤ k)
    (hStamped : Stamped k shard) (hLow : 0 ≤ k) (hHigh : k < 2 ^ 62) (ts : Timestamp) :
    (m.computeOutputTimestampBound shard ts).value ≤ k + 1 := by
  have hLast : shard.isEmpty = false →
      shard.lastAddedPacketTimestamp.nextAllowedInStream.value = k + 1 := by
    intro hSome
    rcases hStamped.queue with hNone | ⟨packet, hQueue, rfl⟩
    · simp [OutputStreamShard.isEmpty, hNone] at hSome
    · simp only [OutputStreamShard.lastAddedPacketTimestamp, hQueue, List.getLast?_singleton]
      exact Timestamp.nextAllowedInStream_value (isRangeValue_of_ticks hLow hHigh)
  have hOwn : m.nextTimestampBound.value ≤ k + 1 := by omega
  have hPacket : (if !shard.isEmpty then
      if shard.lastAddedPacketTimestamp.nextAllowedInStream > m.nextTimestampBound then
        shard.lastAddedPacketTimestamp.nextAllowedInStream
      else m.nextTimestampBound
      else m.nextTimestampBound).value ≤ k + 1 := by
    split
    next hSome =>
      split
      · exact (hLast (by simpa using hSome)).le
      · exact hOwn
    next => exact hOwn
  simp only [OutputStreamManager.computeOutputTimestampBound, hOffset, Bool.false_eq_true,
    if_false]
  split_ifs at hPacket ⊢
  all_goals first
    | exact hStamped.updated
    | exact hPacket

/-! ## The course of a call -/

/-- The counter has been at `k`. -/
structure Ticked (g : Graph) (n : NodeId) (s : Shared) (k : Int) : Prop where
  low : 0 ≤ k
  high : k < ticks g s n

/-- A call on its way to `Process`; `rest` are the managers it has still to prepare a
shard for. -/
structure Ready (g : Graph) (outputs : OutId → OutputStreamManager) (n : NodeId) (s : Shared)
    (r : Invocation) (rest : List OutId) (closed : Bool) : Prop where
  ticked : Ticked g n s r.timestamp.value
  subset : rest ⊆ g.outputs n
  bounds : Bounds g outputs n s r.timestamp.value closed
  prepared : ∀ o ∈ g.outputs n, o ∉ rest → Prepared closed (r.outputs (shardPort outputs o))

/-- A call in `PostProcess`; `rest` are the managers it has still to send for. -/
structure Posting (g : Graph) (outputs : OutId → OutputStreamManager) (n : NodeId) (s : Shared)
    (r : Invocation) (rest : List OutId) (closed : Bool) : Prop where
  ticked : Ticked g n s r.timestamp.value
  nodup : rest.Nodup
  subset : rest ⊆ g.outputs n
  flag : ∀ o ∈ g.outputs n, (s.net.outputs o).closed = closed
  emptied : ∀ o ∈ g.outputs n, closed = true ∨ o ∉ rest →
    (r.outputs (shardPort outputs o)).outputQueue = []
  sent : closed = false → ∀ o ∈ g.outputs n, o ∉ rest → Under g outputs s o (ticks g s n)
  left : closed = false → ∀ o ∈ rest,
    Under g outputs s o r.timestamp.value ∧
      Stamped r.timestamp.value (r.outputs (shardPort outputs o))

/-- The shards of a call are empty. -/
def ShardsEmpty (g : Graph) (outputs : OutId → OutputStreamManager) (n : NodeId)
    (r : Invocation) : Prop :=
  ∀ o ∈ g.outputs n, (r.outputs (shardPort outputs o)).outputQueue = []

/-- What holds of a call of the node at each of its places. -/
def Stage (g : Graph) (outputs : OutId → OutputStreamManager) (n : NodeId) (s : Shared)
    (r : Invocation) : RunPc → Prop
  | .prepareOutputs rest => ∃ closed, Ready g outputs n s r rest closed
  | .inProcess => ∃ closed, Ready g outputs n s r [] closed
  | .postProcess rest _ => ∃ closed, Posting g outputs n s r rest closed
  | .closeOutputs _ _ => False
  | pc => pc.busy = true ∧ Resting g outputs n s ∧ ShardsEmpty g outputs n r

/-- A propagation for manager `o` of the node, with the consumers left to visit: it
brings at most one packet, stamped with `k`. -/
structure Sending (g : Graph) (outputs : OutId → OutputStreamManager) (n : NodeId) (s : Shared)
    (k : Int) (o : OutId) (p : Propagation) (left : List StreamId) : Prop where
  owned : o ∈ g.outputs n
  subset : p.targets g.routes ⊆ consumers g outputs o
  nodup : (p.targets g.routes).Nodup
  bound : p.nextBound.value ≤ ticks g s n
  packets : p.packets = [] ∨ ∃ packet, p.packets = [packet] ∧ packet.timestamp.value = k ∧
    ∀ t ∈ left, (s.stream t).nextTimestampBound.value ≤ k

/-- The packet half and the bound half of an iteration. -/
inductive Iterates (g : Graph) (p : Propagation) : List StreamId → Frame → Prop
  | packets : Iterates g p (p.targets g.routes) (.propagate p)
  | bound : Iterates g p ({ p with mirrors := p.mirrors.tail }.targets g.routes)
      (.propagateBound p)

/-- A frame that brings no packet to a consumer of the node. -/
inductive Harmless (g : Graph) (outputs : OutId → OutputStreamManager) (n : NodeId) :
    Frame → Prop
  | aside (f : Frame) (hAside : f.Aside g outputs n) : Harmless g outputs n f
  | packets (p : Propagation) (hPackets : p.packets = []) : Harmless g outputs n (.propagate p)
  | bound (p : Propagation) (hPackets : p.packets = []) :
      Harmless g outputs n (.propagateBound p)
  | close (o : OutId) : Harmless g outputs n (.closeManager o)

/-- The stack of a call of the node, from its topmost frame that has a part in the streams
of the node: the call itself, a propagation of its own, or what closes the managers. -/
inductive Working (g : Graph) (outputs : OutId → OutputStreamManager) (n : NodeId) (s : Shared) :
    List Frame → Prop
  | calling (r : Invocation) (pc : RunPc) (post : List Frame) (hNode : r.node = n)
      (hStage : Stage g outputs n s r pc) (hPost : ∀ f ∈ post, f.Aside g outputs n) :
      Working g outputs n s (.run r pc :: post)
  | sending (f : Frame) (p : Propagation) (left : List StreamId) (o : OutId) (r : Invocation)
      (rest : List OutId) (status : Status) (post : List Frame) (hNode : r.node = n)
      (hFrame : Iterates g p left f) (hLeft : o ∉ rest)
      (hSending : Sending g outputs n s r.timestamp.value o p left)
      (hPosting : Posting g outputs n s r rest false)
      (hPost : ∀ f ∈ post, f.Aside g outputs n) :
      Working g outputs n s (f :: .run r (.postProcess rest status) :: post)
  | closing (above : List Frame) (r : Invocation) (rest : List OutId) (stopped : Bool)
      (post : List Frame) (hNode : r.node = n) (hEmpty : ShardsEmpty g outputs n r)
      (hSubset : rest ⊆ g.outputs n) (hAbove : ∀ f ∈ above, Harmless g outputs n f)
      (hClosing : ∀ o ∈ g.outputs n,
        o ∈ rest ∨ (s.net.outputs o).closed = true ∨ .closeManager o ∈ above)
      (hPost : ∀ f ∈ post, f.Aside g outputs n) :
      Working g outputs n s (above ++ .run r (.closeOutputs rest stopped) :: post)

/-- A stack in the course of a call of the node. -/
def Course (g : Graph) (outputs : OutId → OutputStreamManager) (n : NodeId) (s : Shared)
    (stack : List Frame) : Prop :=
  ∃ above work, stack = above ++ work ∧ (∀ f ∈ above, f.Aside g outputs n) ∧
    Working g outputs n s work

theorem Ticked.untouched (hTicked : Ticked g n s k) (hSame : Untouching g outputs n s s') :
    Ticked g n s' k := ⟨hTicked.low, hTicked.high.trans_le hSame.counter⟩

theorem Ready.untouched {rest : List OutId} {closed : Bool}
    (hReady : Ready g outputs n s r rest closed) (hSame : Untouching g outputs n s s') :
    Ready g outputs n s' r rest closed :=
  ⟨hReady.ticked.untouched hSame, hReady.subset, hReady.bounds.untouched hSame le_rfl,
    hReady.prepared⟩

theorem Posting.untouched {rest : List OutId} {closed : Bool}
    (hPosting : Posting g outputs n s r rest closed) (hSame : Untouching g outputs n s s') :
    Posting g outputs n s' r rest closed where
  ticked := hPosting.ticked.untouched hSame
  nodup := hPosting.nodup
  subset := hPosting.subset
  flag := by
    intro o hOut
    rw [hSame.managers o hOut]
    exact hPosting.flag o hOut
  emptied := hPosting.emptied
  sent := fun hOpen o hOut hSent =>
    ((hPosting.sent hOpen o hOut hSent).untouched hOut hSame).mono hSame.counter
  left := fun hOpen o hLeft =>
    ⟨(hPosting.left hOpen o hLeft).1.untouched (hPosting.subset hLeft) hSame,
      (hPosting.left hOpen o hLeft).2⟩

theorem Stage.untouched {pc : RunPc} (hStage : Stage g outputs n s r pc)
    (hSame : Untouching g outputs n s s') : Stage g outputs n s' r pc := by
  cases pc with
  | prepareOutputs rest => exact hStage.imp fun _ hReady => hReady.untouched hSame
  | inProcess => exact hStage.imp fun _ hReady => hReady.untouched hSame
  | postProcess rest status => exact hStage.imp fun _ hPosting => hPosting.untouched hSame
  | closeOutputs rest stopped => exact hStage
  | _ => exact ⟨hStage.1, hStage.2.1.untouched hSame, hStage.2.2⟩

theorem Working.untouched {work : List Frame} (hWorking : Working g outputs n s work)
    (hSame : Untouching g outputs n s s') : Working g outputs n s' work := by
  cases hWorking with
  | calling r pc post hNode hStage hPost =>
      exact .calling r pc post hNode (hStage.untouched hSame) hPost
  | sending f p left o r rest status post hNode hFrame hLeft hSending hPosting hPost =>
      refine .sending f p left o r rest status post hNode hFrame hLeft ?_
        (hPosting.untouched hSame) hPost
      refine ⟨hSending.owned, hSending.subset, hSending.nodup,
        hSending.bound.trans hSame.counter, ?_⟩
      refine hSending.packets.imp_right fun ⟨packet, hPackets, hStamp, hBounds⟩ =>
        ⟨packet, hPackets, hStamp, fun t hMem => ?_⟩
      have hTarget : t ∈ p.targets g.routes := by
        cases hFrame with
        | packets => exact hMem
        | bound => exact List.filterMap_subset _ (fun _ hIn => List.mem_of_mem_tail hIn) hMem
      rw [hSame.bound hSending.owned (hSending.subset hTarget)]
      exact hBounds t hMem
  | closing above r rest stopped post hNode hEmpty hSubset hAbove hClosing hPost =>
      refine .closing above r rest stopped post hNode hEmpty hSubset hAbove (fun o hOut => ?_) hPost
      rw [hSame.managers o hOut]
      exact hClosing o hOut

theorem Course.untouched {stack : List Frame} (hCourse : Course g outputs n s stack)
    (hSame : Untouching g outputs n s s') : Course g outputs n s' stack := by
  obtain ⟨above, work, hStack, hAbove, hWorking⟩ := hCourse
  exact ⟨above, work, hStack, hAbove, hWorking.untouched hSame⟩

theorem Stage.busy {pc : RunPc} (hStage : Stage g outputs n s r pc) : pc.busy = true := by
  cases pc with
  | prepareOutputs rest => rfl
  | inProcess => rfl
  | postProcess rest status => rfl
  | closeOutputs rest stopped => exact hStage.elim
  | _ => exact hStage.1

/-- There is a call of the node at work. -/
theorem Course.busy {stack : List Frame} (hCourse : Course g outputs n s stack) :
    ∃ r pc, .run r pc ∈ stack ∧ r.node = n ∧ pc.busy = true := by
  obtain ⟨above, work, rfl, -, hWorking⟩ := hCourse
  cases hWorking with
  | calling r pc post hNode hStage hPost => exact ⟨r, pc, by simp, hNode, hStage.busy⟩
  | sending f p left o r rest status post hNode hFrame hLeft hSending hPosting hPost =>
      exact ⟨r, .postProcess rest status, by simp, hNode, rfl⟩
  | closing above' r rest stopped post hNode hEmpty hSubset hAbove hClosing hPost =>
      exact ⟨r, .closeOutputs rest stopped, by simp, hNode, busy_closeOutputs rest stopped⟩

end

end GraphRuntime.Scheduler
