import GraphRuntime.Config.StreamName
import GraphRuntime.Lib.Transition
import GraphRuntime.Stream.OutputStreamManager

/-!
# Output stream handlers and the agreement of timestamp bounds

The operations of `OutputStreamHandler` on the managers of one node, and the
two operations on a graph input's virtual manager
(`GraphRuntime::AddPacketToInputStream`, `CloseInputStream`), each run to
completion.  `Net` is the state they share: every output manager and every
input manager of the graph.

The shards of one invocation are a map from port names, as in
`OutputStreamShardSet`: looking up a port that was never written gives a
default-constructed shard.

`bounds_agree` is the result: a producer's bound never decreases, and after
each operation every mirror's bound is the producer's bound, raised to
`PreStream`.  It rests on `Propagation.run_apply`, the effect of a whole
propagation on one mirror, and on `Net.propagate_agrees`, which is about any
new bound at least as large as the old one and as the successor of the last
packet.
-/

namespace GraphRuntime.Stream

open Transition GraphRuntime.Config

/-- `OutputStreamShardSet`. -/
abbrev Shards := String → OutputStreamShard

/-! ## A propagation, seen from one mirror -/

namespace Propagation

/-- What a whole propagation does to one mirror's manager. -/
def deliver (nextBound : Timestamp) (setBound : Bool) (packets : List Packet)
    (m : InputStreamManager) : InputStreamManager :=
  if setBound then
    ((m.addPackets packets).manager.setNextTimestampBound nextBound).1
  else (m.addPackets packets).manager

theorem addPackets_nil (m : InputStreamManager) :
    (m.addPackets []).manager = m := by
  cases h : m.closed
  · rw [(InputStreamManager.addPackets_of_open h []).1]
    simp [InputStreamManager.boundAfter]
  · exact (InputStreamManager.addPackets_of_closed h []).1

/-- One iteration of the loop, both halves. -/
theorem iteration (routes : Routes) (nextBound : Timestamp) (setBound : Bool)
    (mirror : Mirror) (rest : List Mirror) (packets : List Packet)
    (streams : Streams) :
    let r := packetStep routes streams ⟨mirror :: rest, packets, nextBound, setBound⟩
    (boundStep routes r.1 r.2.1).1 =
      match mirror.resolve routes with
      | none => streams
      | some s =>
          Function.update streams s (deliver nextBound setBound packets (streams s)) := by
  intro r
  have hMirrors : r.2.1.mirrors = mirror :: rest := packetStep_mirrors _ _ _
  have hSet : r.2.1.setBound = setBound := packetStep_setBound _ _ _
  have hNext : r.2.1.nextBound = nextBound := packetStep_nextBound _ _ _
  cases hResolve : mirror.resolve routes with
  | none =>
      have hFirst : r.1 = streams := by simp [r, packetStep, hResolve]
      simp [boundStep, hMirrors, hResolve, hFirst]
  | some s =>
      have hFirst : r.1 =
          Function.update streams s ((streams s).addPackets packets).manager := by
        by_cases hPackets : packets = []
        · subst hPackets
          simp [r, packetStep_of_nil, addPackets_nil]
        · exact (packetStep_of_resolve hResolve hPackets).1
      rw [boundStep_of_resolve hMirrors hResolve, hSet, hNext, hFirst]
      cases setBound <;> simp [deliver]

/-- Only the last iteration takes packets out of the loop's list. -/
theorem iteration_packets (routes : Routes) (nextBound : Timestamp)
    (setBound : Bool) (mirror : Mirror) {rest : List Mirror}
    (packets : List Packet) (streams : Streams) (hRest : rest ≠ []) :
    let r := packetStep routes streams ⟨mirror :: rest, packets, nextBound, setBound⟩
    (boundStep routes r.1 r.2.1).2.1.packets = packets := by
  intro r
  rw [boundStep_snd]
  simp [r, packetStep_packets hRest]

/-- **Effect of a propagation**: each mirror's manager gets the whole list and
the bound, once; every other manager is left alone. -/
theorem run_apply (routes : Routes) (nextBound : Timestamp) (setBound : Bool)
    (mirrors : List Mirror) (packets : List Packet) (streams : Streams)
    (hDistinct : (mirrors.filterMap (Mirror.resolve routes)).Nodup)
    (s : StreamId) :
    run routes nextBound setBound mirrors packets streams s =
      if s ∈ mirrors.filterMap (Mirror.resolve routes) then
        deliver nextBound setBound packets (streams s)
      else streams s := by
  induction mirrors generalizing packets streams with
  | nil => simp [run]
  | cons mirror rest ih =>
      have hIteration := iteration routes nextBound setBound mirror rest packets streams
      have hTail : (rest.filterMap (Mirror.resolve routes)).Nodup := by
        rw [List.filterMap_cons] at hDistinct
        split at hDistinct
        · exact hDistinct
        · exact (List.nodup_cons.mp hDistinct).2
      simp only [run]
      -- the list handed on matters only while there is a next mirror
      have hPackets : ∀ streams', run routes nextBound setBound rest
          (boundStep routes
            (packetStep routes streams
              ⟨mirror :: rest, packets, nextBound, setBound⟩).1
            (packetStep routes streams
              ⟨mirror :: rest, packets, nextBound, setBound⟩).2.1).2.1.packets
          streams' = run routes nextBound setBound rest packets streams' := by
        intro streams'
        cases rest with
        | nil => rfl
        | cons next rest =>
            rw [iteration_packets routes nextBound setBound mirror packets streams
              (by simp)]
      rw [hPackets, hIteration, ih packets _ hTail]
      cases hResolve : mirror.resolve routes with
      | none => simp [hResolve]
      | some t =>
          have hFresh : t ∉ rest.filterMap (Mirror.resolve routes) := by
            simp only [List.filterMap_cons, hResolve] at hDistinct
            exact (List.nodup_cons.mp hDistinct).1
          by_cases hEq : s = t
          · subst hEq
            simp [hResolve, hFresh]
          · simp [hResolve, hEq]

end Propagation

/-! ## The operations -/

structure Net where
  outputs : OutId → OutputStreamManager
  streams : Streams

namespace Net

/-- `PropagateUpdatesToMirrors`. -/
def propagate (routes : Routes) (net : Net) (o : OutId) (nextBound : Timestamp)
    (shard : OutputStreamShard) : Net :=
  let r := (net.outputs o).beginPropagate nextBound shard
  { outputs := Function.update net.outputs o r.1
    streams := Propagation.run routes r.2.nextBound r.2.setBound r.2.mirrors
      r.2.packets net.streams }

/-- `OutputStreamManager::Close`. -/
def closeManager (routes : Routes) (net : Net) (o : OutId) : Net :=
  match (net.outputs o).beginClose with
  | none => net
  | some r =>
      { outputs := Function.update net.outputs o r.1
        streams := Propagation.run routes r.2.nextBound r.2.setBound r.2.mirrors
          r.2.packets net.streams }

/-- The key of a manager's shard. -/
def port (net : Net) (o : OutId) : String := portName (net.outputs o).spec.name

/-- `PropagateOutputPackets`, the body of `PostProcess`. -/
def postProcess (routes : Routes) (inputTimestamp : Timestamp) :
    List OutId → Net → Shards → Net
  | [], net, _ => net
  | o :: rest, net, shards =>
      if (net.outputs o).closed then
        postProcess routes inputTimestamp rest net shards
      else
        let shard := shards (net.port o)
        let outputBound :=
          (net.outputs o).computeOutputTimestampBound shard inputTimestamp
        let net' := net.propagate routes o outputBound shard
        postProcess routes inputTimestamp rest
          (if shard.closed then net'.closeManager routes o else net')
          (Function.update shards (net.port o)
            (OutputStreamManager.clearShard shard))

/-- `OutputStreamHandler::Close`; the shards are optional. -/
def close (routes : Routes) : List OutId → Net → Option Shards → Net
  | [], net, _ => net
  | o :: rest, net, none =>
      close routes rest (net.closeManager routes o) none
  | o :: rest, net, some shards =>
      let shard := shards (net.port o)
      close routes rest
        ((net.propagate routes o Timestamp.done shard).closeManager routes o)
        (some (Function.update shards (net.port o)
          (OutputStreamManager.clearShard shard)))

/-- `TryPropagateTimestampBound`. -/
def tryPropagateTimestampBound (routes : Routes) (inputBound : Timestamp) :
    List OutId → Net → Net
  | [], net => net
  | o :: rest, net =>
      let m := net.outputs o
      tryPropagateTimestampBound routes inputBound rest
        (if inputBound.isRangeValue && m.spec.offsetEnabled && !m.closed &&
            decide (inputBound.add m.spec.offset > m.nextTimestampBound) then
          net.propagate routes o (inputBound.add m.spec.offset) {}
        else net)

/-- The injection half of `AddPacketToInputStream`, on the virtual manager. -/
def addPacketToInputStream (routes : Routes) (net : Net) (o : OutId)
    (packet : Packet) : Net :=
  let m := net.outputs o
  if m.closed then net
  else
    let shard := OutputStreamShard.addPacket {} packet
    net.propagate routes o (m.computeOutputTimestampBound shard Timestamp.min) shard

/-- `PopQueueHead` of a consumer. -/
def popQueueHead (net : Net) (s : StreamId) : Net :=
  { net with
    streams := Function.update net.streams s (net.streams s).popQueueHead.2.2 }

end Net

/-- One call of the operations above. -/
inductive NetOp
  | postProcess (managers : List OutId) (inputTimestamp : Timestamp)
      (shards : Shards)
  | close (managers : List OutId) (shards : Option Shards)
  | tryPropagateTimestampBound (managers : List OutId) (inputBound : Timestamp)
  | addPacketToInputStream (o : OutId) (packet : Packet)
  | closeInputStream (o : OutId)
  | popQueueHead (s : StreamId)

def Net.apply (routes : Routes) (net : Net) : NetOp → Net
  | .postProcess managers ts shards => Net.postProcess routes ts managers net shards
  | .close managers shards => Net.close routes managers net shards
  | .tryPropagateTimestampBound managers b =>
      Net.tryPropagateTimestampBound routes b managers net
  | .addPacketToInputStream o packet => net.addPacketToInputStream routes o packet
  | .closeInputStream o => net.closeManager routes o
  | .popQueueHead s => net.popQueueHead s

/-- Every packet a shard holds may enter a stream. -/
def OutputStreamShard.Allowed (shard : OutputStreamShard) : Prop :=
  ∀ p ∈ shard.outputQueue, p.timestamp.isAllowedInStream = true

def NetOp.Allowed : NetOp → Prop
  | .postProcess _ _ shards => ∀ port, (shards port).Allowed
  | .close _ (some shards) => ∀ port, (shards port).Allowed
  | .addPacketToInputStream _ packet => packet.timestamp.isAllowedInStream = true
  | _ => True

/-! ## Agreement of the bounds -/

namespace Net

/-- The input managers an output manager's mirrors lead to. -/
def targets (routes : Routes) (net : Net) (o : OutId) : List StreamId :=
  (net.outputs o).mirrors.filterMap (Mirror.resolve routes)

/-- No two mirrors of the graph lead to the same input manager. -/
structure Distinct (routes : Routes) (net : Net) : Prop where
  nodup : ∀ o, (net.targets routes o).Nodup
  disjoint : ∀ o o' s, s ∈ net.targets routes o → s ∈ net.targets routes o' → o = o'

/-- What holds between operations. -/
structure Agrees (routes : Routes) (net : Net) : Prop where
  distinct : net.Distinct routes
  isOpen : ∀ o, ∀ s ∈ net.targets routes o, (net.streams s).closed = false
  bounds : ∀ o, ∀ s ∈ net.targets routes o,
    (net.streams s).nextTimestampBound =
      max Timestamp.preStream (net.outputs o).nextTimestampBound

/-- Every producer's bound is at least what it was. -/
def Advances (net net' : Net) : Prop :=
  ∀ o, (net.outputs o).nextTimestampBound ≤ (net'.outputs o).nextTimestampBound

theorem Advances.refl (net : Net) : net.Advances net := fun _ => le_refl _

theorem Advances.trans {net net' net'' : Net} (h : net.Advances net')
    (h' : net'.Advances net'') : net.Advances net'' :=
  fun o => le_trans (h o) (h' o)

variable {routes : Routes} {net net' : Net}

/-- The bound a batch leaves behind is that of its last packet. -/
theorem boundAfter_eq (shard : OutputStreamShard) (b : Timestamp)
    (hPackets : shard.outputQueue ≠ []) :
    InputStreamManager.boundAfter b shard.outputQueue =
      shard.lastAddedPacketTimestamp.nextAllowedInStream := by
  unfold OutputStreamShard.lastAddedPacketTimestamp
  generalize shard.outputQueue = packets at hPackets ⊢
  induction packets generalizing b with
  | nil => exact absurd rfl hPackets
  | cons p rest ih =>
      cases rest with
      | nil => simp [InputStreamManager.boundAfter]
      | cons q rest =>
          rw [InputStreamManager.boundAfter, ih _ (by simp)]
          simp [List.getLast?_cons_cons]

/-- The last packet of a non-empty allowed shard pushes the bound past that of
a fresh stream. -/
theorem preStream_lt_lastAdded {shard : OutputStreamShard}
    (hAllowed : shard.Allowed) (hPackets : shard.outputQueue ≠ []) :
    Timestamp.preStream < shard.lastAddedPacketTimestamp.nextAllowedInStream := by
  obtain ⟨p, hLast⟩ : ∃ p, shard.outputQueue.getLast? = some p :=
    ⟨_, List.getLast?_eq_some_getLast hPackets⟩
  unfold OutputStreamShard.lastAddedPacketTimestamp
  rw [hLast]
  exact Timestamp.preStream_lt_nextAllowedInStream
    (hAllowed p (List.mem_of_getLast? hLast))

/-- The bound of one mirror after a propagation, when producer and mirror
agreed before and the new bound covers the old one and the packets. -/
theorem deliver_bound {m : InputStreamManager} {shard : OutputStreamShard}
    {old new : Timestamp} (hOpen : m.closed = false)
    (hAgree : m.nextTimestampBound = max Timestamp.preStream old)
    (hOld : old ≤ new) (hAllowed : shard.Allowed)
    (hLast : shard.outputQueue ≠ [] →
      shard.lastAddedPacketTimestamp.nextAllowedInStream ≤ new) :
    (Propagation.deliver new
      (decide (new ≠ Timestamp.unset) &&
        (if shard.outputQueue.isEmpty then true
         else decide (shard.lastAddedPacketTimestamp.nextAllowedInStream ≠ new)))
      shard.outputQueue m).nextTimestampBound = max Timestamp.preStream new := by
  have hAdded := (InputStreamManager.addPackets_of_open hOpen shard.outputQueue).1
  by_cases hPackets : shard.outputQueue = []
  · rw [hPackets]
    by_cases hUnset : new = Timestamp.unset
    · have hOldUnset : old = new :=
        le_antisymm hOld (hUnset ▸ Timestamp.unset_le old)
      simp [Propagation.deliver, hUnset, Propagation.addPackets_nil, hAgree,
        hOldUnset]
    · simp only [Propagation.deliver, hUnset, ne_eq, not_false_eq_true,
        decide_true, Bool.true_and, List.isEmpty_nil, if_true,
        Propagation.addPackets_nil,
        InputStreamManager.setNextTimestampBound_bound, hAgree]
      rw [max_assoc, max_eq_right hOld]
  · have hPast := preStream_lt_lastAdded hAllowed hPackets
    have hLe := hLast hPackets
    have hNew : max Timestamp.preStream new = new :=
      max_eq_right (le_of_lt (lt_of_lt_of_le hPast hLe))
    have hSet : new ≠ Timestamp.unset := fun h => absurd
      (lt_of_lt_of_le hPast (h ▸ hLe)) (not_lt.mpr (Timestamp.unset_le _))
    have hNonempty : shard.outputQueue.isEmpty = false := by simp [hPackets]
    rw [hNew]
    by_cases hImplied : shard.lastAddedPacketTimestamp.nextAllowedInStream = new
    · simp only [Propagation.deliver, hNonempty, hImplied, ne_eq,
        not_true_eq_false, decide_false, Bool.false_eq_true, if_false,
        Bool.and_false]
      rw [hAdded, boundAfter_eq shard _ hPackets, hImplied]
    · simp only [Propagation.deliver, hNonempty, hImplied, hSet, ne_eq,
        not_false_eq_true, decide_true, Bool.and_self, Bool.false_eq_true,
        if_false, if_true, InputStreamManager.setNextTimestampBound_bound]
      rw [hAdded]
      dsimp only
      rw [boundAfter_eq shard _ hPackets]
      exact max_eq_right hLe

@[simp] theorem beginPropagate_mirrors (m : OutputStreamManager) (b : Timestamp)
    (shard : OutputStreamShard) :
    (m.beginPropagate b shard).1.mirrors = m.mirrors := by
  unfold OutputStreamManager.beginPropagate
  dsimp only
  split <;> rfl

/-- The producer's own bound after a propagation; `Unset` changes nothing. -/
theorem beginPropagate_bound (m : OutputStreamManager) {b : Timestamp}
    (shard : OutputStreamShard) (hOld : m.nextTimestampBound ≤ b) :
    (m.beginPropagate b shard).1.nextTimestampBound = b := by
  unfold OutputStreamManager.beginPropagate
  dsimp only
  split
  · rfl
  · rename_i h
    have hUnset : b = Timestamp.unset := not_not.mp h
    exact le_antisymm hOld (hUnset ▸ Timestamp.unset_le _)

theorem deliver_closed (b : Timestamp) (sb : Bool) (packets : List Packet)
    (m : InputStreamManager) :
    (Propagation.deliver b sb packets m).closed = m.closed := by
  unfold Propagation.deliver
  split <;> simp

/-- Replacing one manager by another with the same mirrors keeps all targets. -/
theorem targets_update {o : OutId} {m : OutputStreamManager} {streams : Streams}
    (hMirrors : m.mirrors = (net.outputs o).mirrors) (o' : OutId) :
    targets routes ⟨Function.update net.outputs o m, streams⟩ o' =
      net.targets routes o' := by
  by_cases h : o' = o
  · subst h; simp [targets, hMirrors]
  · simp [targets, Function.update_of_ne h]

theorem Distinct.update {o : OutId} {m : OutputStreamManager} {streams : Streams}
    (h : net.Distinct routes) (hMirrors : m.mirrors = (net.outputs o).mirrors) :
    Distinct routes ⟨Function.update net.outputs o m, streams⟩ := by
  constructor
  · intro o'
    rw [targets_update hMirrors]
    exact h.nodup o'
  · intro o' o'' s
    rw [targets_update hMirrors, targets_update hMirrors]
    exact h.disjoint o' o'' s

/-- The shared argument of `propagate` and `closeManager`: a manager whose
mirrors stay, whose bound advances to `new`, and whose mirrors are delivered
`shard` and `new`, agrees with them afterwards. -/
theorem agrees_of_run {o : OutId} {m : OutputStreamManager} {sb : Bool}
    {shard : OutputStreamShard} {new : Timestamp} (h : net.Agrees routes)
    (hMirrors : m.mirrors = (net.outputs o).mirrors)
    (hBound : m.nextTimestampBound = new)
    (hOld : (net.outputs o).nextTimestampBound ≤ new) (hAllowed : shard.Allowed)
    (hLast : shard.outputQueue ≠ [] →
      shard.lastAddedPacketTimestamp.nextAllowedInStream ≤ new)
    (hSet : sb = (decide (new ≠ Timestamp.unset) &&
        (if shard.outputQueue.isEmpty then true
         else decide (shard.lastAddedPacketTimestamp.nextAllowedInStream ≠ new)))) :
    let net' : Net := ⟨Function.update net.outputs o m,
      Propagation.run routes new sb (net.outputs o).mirrors shard.outputQueue
        net.streams⟩
    net'.Agrees routes ∧ net.Advances net' := by
  intro net'
  have hRun : ∀ s, net'.streams s =
      if s ∈ net.targets routes o then
        Propagation.deliver new sb shard.outputQueue (net.streams s)
      else net.streams s :=
    Propagation.run_apply routes _ _ _ _ _ (h.distinct.nodup o)
  have hTargets : ∀ o', net'.targets routes o' = net.targets routes o' :=
    targets_update hMirrors
  refine ⟨⟨h.distinct.update hMirrors, ?_, ?_⟩, ?_⟩
  · intro o' s hMem
    rw [hTargets] at hMem
    rw [hRun]
    split
    · rw [deliver_closed]
      exact h.isOpen o' s hMem
    · exact h.isOpen o' s hMem
  · intro o' s hMem
    rw [hTargets] at hMem
    by_cases hEq : o' = o
    · subst hEq
      rw [hRun, if_pos hMem, hSet]
      simp only [net', Function.update_self, hBound]
      exact deliver_bound (h.isOpen o' s hMem) (h.bounds o' s hMem) hOld hAllowed
        hLast
    · have hOther : s ∉ net.targets routes o :=
        fun hMem' => hEq (h.distinct.disjoint o' o s hMem hMem')
      rw [hRun, if_neg hOther]
      simp only [net', Function.update_of_ne hEq]
      exact h.bounds o' s hMem
  · intro o'
    by_cases hEq : o' = o
    · subst hEq
      simp only [net', Function.update_self, hBound]
      exact hOld
    · simp [net', Function.update_of_ne hEq]

/-- **Propagation lemma**: sending any bound that covers the current one and
the packets keeps the agreement. -/
theorem propagate_agrees {o : OutId} {new : Timestamp}
    {shard : OutputStreamShard} (h : net.Agrees routes)
    (hOld : (net.outputs o).nextTimestampBound ≤ new) (hAllowed : shard.Allowed)
    (hLast : shard.outputQueue ≠ [] →
      shard.lastAddedPacketTimestamp.nextAllowedInStream ≤ new) :
    (net.propagate routes o new shard).Agrees routes ∧
      net.Advances (net.propagate routes o new shard) :=
  agrees_of_run h (beginPropagate_mirrors _ _ _) (beginPropagate_bound _ _ hOld)
    hOld hAllowed hLast rfl

theorem closeManager_agrees (o : OutId) (h : net.Agrees routes) :
    (net.closeManager routes o).Agrees routes ∧
      net.Advances (net.closeManager routes o) := by
  cases hClosed : (net.outputs o).closed with
  | true =>
      have hSame : net.closeManager routes o = net := by
        simp [closeManager, OutputStreamManager.beginClose, hClosed]
      rw [hSame]
      exact ⟨h, Advances.refl net⟩
  | false =>
      have hEmpty : OutputStreamShard.Allowed {} := by
        intro p hMem
        exact absurd hMem (by simp)
      have hRun := agrees_of_run (o := o)
        (m := { net.outputs o with
          closed := true, nextTimestampBound := Timestamp.done })
        h rfl rfl (Timestamp.le_done _) hEmpty (fun hNe => absurd rfl hNe) rfl
      have hDone : Timestamp.done ≠ Timestamp.unset := by decide
      simpa [closeManager, OutputStreamManager.beginClose, hClosed, hDone] using hRun

/-- The computed bound covers the current one and the packets. -/
theorem le_computeOutputTimestampBound (m : OutputStreamManager)
    (shard : OutputStreamShard) (ts : Timestamp) :
    m.nextTimestampBound ≤ m.computeOutputTimestampBound shard ts ∧
      (shard.outputQueue ≠ [] →
        shard.lastAddedPacketTimestamp.nextAllowedInStream ≤
          m.computeOutputTimestampBound shard ts) := by
  -- each of the three updates is a maximum
  have hMax : ∀ a b : Timestamp, (if a > b then a else b) = max b a := by
    intro a b
    split
    · rename_i h
      exact (max_eq_right (le_of_lt h)).symm
    · rename_i h
      exact (max_eq_left (not_lt.mp h)).symm
  unfold OutputStreamManager.computeOutputTimestampBound
  simp only [hMax]
  constructor
  · refine le_trans ?_ (le_max_left _ _)
    split
    · refine le_trans ?_ (le_max_left _ _)
      split
      · exact le_max_left _ _
      · exact le_refl _
    · split
      · exact le_max_left _ _
      · exact le_refl _
  · intro hPackets
    have hNonempty : (!shard.isEmpty) = true := by
      simp [OutputStreamShard.isEmpty, hPackets]
    rw [if_pos hNonempty]
    exact le_trans (le_max_right _ _) (le_max_left _ _)

/-- One operation on one manager that starts from agreement: it agrees again,
and no producer's bound went down. -/
def Keeps (routes : Routes) (net net' : Net) : Prop :=
  net'.Agrees routes ∧ net.Advances net'

theorem Keeps.trans {net'' : Net} (h : net.Keeps routes net')
    (h' : net'.Agrees routes → net'.Keeps routes net'') :
    net.Keeps routes net'' :=
  ⟨(h' h.1).1, h.2.trans (h' h.1).2⟩

/-- The shards left after one manager's share of the work still hold only
allowed packets. -/
theorem allowed_update {shards : Shards} (hAllowed : ∀ p, (shards p).Allowed)
    (port p : String) :
    (Function.update shards port
      (OutputStreamManager.clearShard (shards port)) p).Allowed := by
  by_cases h : p = port
  · subst h
    intro packet hMem
    simp [OutputStreamManager.clearShard] at hMem
  · rw [Function.update_of_ne h]
    exact hAllowed p

theorem postProcess_keeps (inputTimestamp : Timestamp) (managers : List OutId)
    (shards : Shards) (hAllowed : ∀ p, (shards p).Allowed)
    (h : net.Agrees routes) :
    net.Keeps routes (Net.postProcess routes inputTimestamp managers net shards) := by
  induction managers generalizing net shards with
  | nil => exact ⟨h, Advances.refl net⟩
  | cons o rest ih =>
      simp only [Net.postProcess]
      split
      · exact ih shards hAllowed h
      · have hCompute := le_computeOutputTimestampBound (net.outputs o)
          (shards (net.port o)) inputTimestamp
        have hSent := propagate_agrees h hCompute.1 (hAllowed _) hCompute.2
        have hHead : net.Keeps routes
            (if (shards (net.port o)).closed then
              (net.propagate routes o ((net.outputs o).computeOutputTimestampBound
                (shards (net.port o)) inputTimestamp)
                (shards (net.port o))).closeManager routes o
            else net.propagate routes o
              ((net.outputs o).computeOutputTimestampBound
                (shards (net.port o)) inputTimestamp) (shards (net.port o))) := by
          split
          · exact Keeps.trans hSent fun hAgrees => closeManager_agrees o hAgrees
          · exact hSent
        exact hHead.trans fun hAgrees =>
          ih _ (allowed_update hAllowed (net.port o)) hAgrees

theorem close_keeps (managers : List OutId) (shards : Option Shards)
    (hAllowed : ∀ s, shards = some s → ∀ p, (s p).Allowed)
    (h : net.Agrees routes) :
    net.Keeps routes (Net.close routes managers net shards) := by
  induction managers generalizing net shards with
  | nil => exact ⟨h, Advances.refl net⟩
  | cons o rest ih =>
      cases shards with
      | none =>
          have hHead : net.Keeps routes (net.closeManager routes o) :=
            closeManager_agrees o h
          exact hHead.trans fun hAgrees => ih none hAllowed hAgrees
      | some shards =>
          have hShards := hAllowed shards rfl
          have hSent : net.Keeps routes
              (net.propagate routes o Timestamp.done (shards (net.port o))) :=
            propagate_agrees h (Timestamp.le_done _) (hShards _)
              fun _ => Timestamp.le_done _
          have hHead := hSent.trans fun hAgrees => closeManager_agrees o hAgrees
          refine hHead.trans fun hAgrees => ih _ ?_ hAgrees
          intro s hEq
          obtain rfl := Option.some.inj hEq
          exact allowed_update hShards (net.port o)

theorem tryPropagateTimestampBound_keeps (inputBound : Timestamp)
    (managers : List OutId) (h : net.Agrees routes) :
    net.Keeps routes
      (Net.tryPropagateTimestampBound routes inputBound managers net) := by
  induction managers generalizing net with
  | nil => exact ⟨h, Advances.refl net⟩
  | cons o rest ih =>
      simp only [Net.tryPropagateTimestampBound]
      have hEmpty : OutputStreamShard.Allowed {} := by
        intro p hMem
        exact absurd hMem (by simp)
      have hHead : net.Keeps routes
          (if inputBound.isRangeValue && (net.outputs o).spec.offsetEnabled &&
              !(net.outputs o).closed &&
              decide (inputBound.add (net.outputs o).spec.offset >
                (net.outputs o).nextTimestampBound) then
            net.propagate routes o (inputBound.add (net.outputs o).spec.offset) {}
          else net) := by
        split
        · rename_i hGuard
          simp only [Bool.and_eq_true, decide_eq_true_eq] at hGuard
          exact propagate_agrees h (le_of_lt hGuard.2) hEmpty
            fun hNe => absurd rfl hNe
        · exact ⟨h, Advances.refl net⟩
      exact hHead.trans fun hAgrees => ih hAgrees

theorem addPacketToInputStream_keeps (o : OutId) (packet : Packet)
    (hAllowed : packet.timestamp.isAllowedInStream = true)
    (h : net.Agrees routes) :
    net.Keeps routes (net.addPacketToInputStream routes o packet) := by
  unfold Net.addPacketToInputStream
  dsimp only
  split
  · exact ⟨h, Advances.refl net⟩
  · have hCompute := le_computeOutputTimestampBound (net.outputs o)
      (OutputStreamShard.addPacket {} packet) Timestamp.min
    refine propagate_agrees h hCompute.1 ?_ hCompute.2
    intro p hMem
    by_cases hEmpty : packet.isEmpty = true
    · simp [OutputStreamShard.addPacket, hEmpty,
        OutputStreamShard.setNextTimestampBound] at hMem
    · simp only [OutputStreamShard.addPacket, hEmpty, Bool.false_eq_true,
        if_false, List.nil_append, List.mem_singleton] at hMem
      exact hMem ▸ hAllowed

theorem popQueueHead_keeps (s : StreamId) (h : net.Agrees routes) :
    net.Keeps routes (net.popQueueHead s) := by
  have hSame : ∀ t, ((net.popQueueHead s).streams t).closed =
        (net.streams t).closed ∧
      ((net.popQueueHead s).streams t).nextTimestampBound =
        (net.streams t).nextTimestampBound := by
    intro t
    by_cases hEq : t = s
    · subst hEq; simp [Net.popQueueHead]
    · simp [Net.popQueueHead, Function.update_of_ne hEq]
  refine ⟨⟨⟨h.distinct.nodup, h.distinct.disjoint⟩, ?_, ?_⟩, fun o => le_refl _⟩
  · intro o t hMem
    rw [(hSame t).1]
    exact h.isOpen o t hMem
  · intro o t hMem
    rw [(hSame t).2]
    exact h.bounds o t hMem

/-- **Step lemma**: one operation keeps the agreement. -/
theorem apply_keeps (op : NetOp) (hAllowed : op.Allowed) (h : net.Agrees routes) :
    net.Keeps routes (net.apply routes op) := by
  cases op with
  | postProcess managers ts shards =>
      exact postProcess_keeps ts managers shards hAllowed h
  | close managers shards =>
      refine close_keeps managers shards ?_ h
      intro s hEq
      subst hEq
      exact hAllowed
  | tryPropagateTimestampBound managers b =>
      exact tryPropagateTimestampBound_keeps b managers h
  | addPacketToInputStream o packet =>
      exact addPacketToInputStream_keeps o packet hAllowed h
  | closeInputStream o => exact closeManager_agrees o h
  | popQueueHead s => exact popQueueHead_keeps s h

/-- A graph before its first packet: no producer has a bound, every consumer's
bound is `PreStream` and open. -/
structure Fresh (routes : Routes) (net : Net) : Prop where
  distinct : net.Distinct routes
  outputs : ∀ o, (net.outputs o).nextTimestampBound = Timestamp.unset
  streams : ∀ o, ∀ s ∈ net.targets routes o,
    (net.streams s).nextTimestampBound = Timestamp.preStream ∧
      (net.streams s).closed = false

theorem Fresh.agrees (h : net.Fresh routes) : net.Agrees routes := by
  refine ⟨h.distinct, fun o s hMem => (h.streams o s hMem).2, ?_⟩
  intro o s hMem
  rw [(h.streams o s hMem).1, h.outputs o]
  exact (max_eq_left (le_of_lt Timestamp.unset_lt_preStream)).symm

/-- The networks reached by allowed operations. -/
abbrev Reaches (routes : Routes) (net₀ net : Net) : Prop :=
  Reach (fun net op => some (net.apply routes op))
    (fun _ op => op.Allowed) net₀ net

/-- **Producer and consumers agree on the bound.**  Starting from a fresh
graph, after any sequence of operations every mirror's bound is its producer's
bound raised to `PreStream`, and whatever operation comes next lowers no
producer's bound and keeps the agreement. -/
theorem bounds_agree {net₀ net : Net} (hFresh : net₀.Fresh routes)
    (hReach : Reaches routes net₀ net) (op : NetOp) (hAllowed : op.Allowed) :
    (∀ o, ∀ s ∈ net.targets routes o,
      (net.streams s).nextTimestampBound =
        max Timestamp.preStream (net.outputs o).nextTimestampBound) ∧
    (∀ o, (net.outputs o).nextTimestampBound ≤
      ((net.apply routes op).outputs o).nextTimestampBound) ∧
    (∀ o, ∀ s ∈ (net.apply routes op).targets routes o,
      ((net.apply routes op).streams s).nextTimestampBound =
        max Timestamp.preStream
          ((net.apply routes op).outputs o).nextTimestampBound) := by
  have hAgrees : net.Agrees routes := by
    refine hReach.invariant hFresh.agrees ?_
    intro net op net' hInv hOk hStep
    obtain rfl := Option.some.inj hStep
    exact (apply_keeps op hOk hInv).1
  have hNext := apply_keeps op hAllowed hAgrees
  exact ⟨hAgrees.bounds, hNext.2, hNext.1.bounds⟩

/-- One producer with two consumers. -/
private def twoConsumers : Net :=
  { outputs := fun o =>
      { spec := { name := "out" }
        mirrors := if o = 0 then [⟨some 0, 0⟩, ⟨some 1, 0⟩] else [] }
    streams := fun _ => {} }

private theorem targets_twoConsumers (o : OutId) :
    twoConsumers.targets (fun h => [h]) o = if o = 0 then [0, 1] else [] := by
  by_cases h : o = 0 <;> simp [targets, twoConsumers, h, Mirror.resolve]

private theorem fresh_twoConsumers : twoConsumers.Fresh fun h => [h] := by
  refine ⟨⟨?_, ?_⟩, fun _ => rfl, fun _ _ _ => ⟨rfl, rfl⟩⟩
  · intro o
    rw [targets_twoConsumers]
    split <;> simp
  · intro o o' s hMem hMem'
    rw [targets_twoConsumers] at hMem hMem'
    by_cases h : o = 0 <;> by_cases h' : o' = 0 <;> simp_all

/-- The theorem after an injection and a pop, with a close to come. -/
theorem bounds_agree_twoConsumers :
    let net := ((twoConsumers.apply fun h => [h])
      (.addPacketToInputStream 0 ⟨some 7, Timestamp.min⟩)).apply (fun h => [h])
        (.popQueueHead 1)
    (net.streams 1).nextTimestampBound =
        max Timestamp.preStream (net.outputs 0).nextTimestampBound ∧
      (net.outputs 0).nextTimestampBound ≤
        ((net.apply (fun h => [h]) (.closeInputStream 0)).outputs 0).nextTimestampBound := by
  intro net
  have hReach : Reaches (fun h => [h]) twoConsumers net := by
    refine Reach.tail (a := NetOp.popQueueHead 1) (Reach.tail
      (a := NetOp.addPacketToInputStream 0 ⟨some 7, Timestamp.min⟩) .refl ?_ rfl)
      trivial rfl
    show Timestamp.min.isAllowedInStream = true
    decide
  have hAgree := bounds_agree fresh_twoConsumers hReach (.closeInputStream 0) trivial
  exact ⟨hAgree.1 0 1 (by decide), hAgree.2.1 0⟩

end Net

end GraphRuntime.Stream
