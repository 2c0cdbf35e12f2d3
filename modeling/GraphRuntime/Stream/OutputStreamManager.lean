import Mathlib.Logic.Function.Basic
import GraphRuntime.Stream.InputStreamManager

/-!
# Producer side: shards, managers and mirrors

A node writes into an `OutputStreamShard`, a per-invocation buffer.  After the
invocation the `OutputStreamManager` of the stream computes the new timestamp
bound (`computeOutputTimestampBound`) and sends packets and bound to each of
its *mirrors*, the consumers' input edges
(`OutputStreamManager::PropagateUpdatesToMirrors`).

The propagation loop is not atomic: each call into a consumer takes that
consumer's mutex and may run its arrival callback before the loop goes on.
`Propagation` is the loop's local state, `packetStep` and `boundStep` are the
two calls one iteration makes, and `Propagation.run` executes them back to
back.  `packetStep` moves the list into the last mirror and copies it to the
others, as the source does.

A mirror names a handler and an index into that handler's managers; `Routes`
gives the managers of every handler, in the order of the node's declared input
streams.
-/

namespace GraphRuntime.Stream

/-- `Mirror`: an input stream handler (possibly null) and a stream index. -/
structure Mirror where
  handler : Option HandlerId
  id : Int
deriving DecidableEq

/-- `managers_` of every input stream handler. -/
abbrev Routes := HandlerId → List StreamId

/-- The input stream managers of a graph. -/
abbrev Streams := StreamId → InputStreamManager

/-- The manager a mirror's calls end up at, `none` for a null handler or an
index out of range (the call then returns an error, which is ignored). -/
def Mirror.resolve (routes : Routes) (m : Mirror) : Option StreamId :=
  match m.handler with
  | none => none
  | some h => if m.id < 0 then none else (routes h)[m.id.toNat]?

structure OutputStreamShard where
  outputQueue : List Packet := []
  closed : Bool := false
  nextTimestampBound : Timestamp := Timestamp.unset
  updatedNextTimestampBound : Timestamp := Timestamp.unset
deriving DecidableEq

namespace OutputStreamShard

def reset (nextTimestampBound : Timestamp) (close : Bool) : OutputStreamShard :=
  { nextTimestampBound := nextTimestampBound, closed := close }

def isEmpty (s : OutputStreamShard) : Bool := s.outputQueue.isEmpty

/-- `LastAddedPacketTimestamp`. -/
def lastAddedPacketTimestamp (s : OutputStreamShard) : Timestamp :=
  match s.outputQueue.getLast? with
  | none => Timestamp.unset
  | some p => p.timestamp

def setNextTimestampBound (s : OutputStreamShard) (bound : Timestamp) :
    OutputStreamShard :=
  { s with nextTimestampBound := bound, updatedNextTimestampBound := bound }

/-- An empty packet is a bound announcement; a closed shard drops everything. -/
def addPacket (s : OutputStreamShard) (p : Packet) : OutputStreamShard :=
  if s.closed then s
  else if p.isEmpty then s.setNextTimestampBound p.timestamp.nextAllowedInStream
  else
    { s with
      nextTimestampBound := p.timestamp.nextAllowedInStream
      updatedNextTimestampBound := p.timestamp.nextAllowedInStream
      outputQueue := s.outputQueue ++ [p] }

def close (s : OutputStreamShard) : OutputStreamShard :=
  { s with
    closed := true
    nextTimestampBound := Timestamp.done
    updatedNextTimestampBound := Timestamp.done }

end OutputStreamShard

/-- The part of `OutputStreamSpec` the bound computation reads. -/
structure OutputStreamSpec where
  name : String
  offsetEnabled : Bool := false
  offset : TimestampDiff := ⟨0, zero_in_range⟩
deriving DecidableEq

structure OutputStreamManager where
  spec : OutputStreamSpec
  mirrors : List Mirror := []
  nextTimestampBound : Timestamp := Timestamp.unset
  closed : Bool := false
  numPacketsAdded : Nat := 0
deriving DecidableEq

/-- Local state of the loop in `PropagateUpdatesToMirrors`: the mirrors not yet
visited, the list it moves from, and the bound to announce. -/
structure Propagation where
  mirrors : List Mirror
  packets : List Packet
  nextBound : Timestamp
  setBound : Bool
deriving DecidableEq

namespace OutputStreamManager

/-- `ComputeOutputTimestampBound`: the maximum of the current bound, the
offset bound, the successor of the last packet and the bound the node set. -/
def computeOutputTimestampBound (m : OutputStreamManager)
    (shard : OutputStreamShard) (inputTimestamp : Timestamp) : Timestamp :=
  let newBound := m.nextTimestampBound
  let newBound :=
    if m.spec.offsetEnabled then
      let inputBound :=
        if m.spec.offset.value > 0 then inputTimestamp.add m.spec.offset
        else inputTimestamp.nextAllowedInStream
      if inputBound > newBound then inputBound else newBound
    else newBound
  let newBound :=
    if !shard.isEmpty then
      let packetBound := shard.lastAddedPacketTimestamp.nextAllowedInStream
      if packetBound > newBound then packetBound else newBound
    else newBound
  if shard.updatedNextTimestampBound > newBound then
    shard.updatedNextTimestampBound
  else newBound

/-- The head of `PropagateUpdatesToMirrors`, before its loop.  The explicit
bound is left out when the last packet already implies it. -/
def beginPropagate (m : OutputStreamManager) (nextBound : Timestamp)
    (shard : OutputStreamShard) : OutputStreamManager × Propagation :=
  ((if nextBound ≠ Timestamp.unset then
      { m with
        nextTimestampBound := nextBound
        numPacketsAdded := m.numPacketsAdded + shard.outputQueue.length }
    else m),
   { mirrors := m.mirrors
     packets := shard.outputQueue
     nextBound := nextBound
     setBound :=
       decide (nextBound ≠ Timestamp.unset) &&
         (if shard.outputQueue.isEmpty then true
          else decide (shard.lastAddedPacketTimestamp.nextAllowedInStream ≠
            nextBound)) })

/-- What the loop leaves in the shard: its packet list is cleared. -/
def clearShard (shard : OutputStreamShard) : OutputStreamShard :=
  { shard with outputQueue := [] }

/-- The manager's own part of `Close`; `none` when it was closed before.  The
broadcast of `Done` to the mirrors is the returned propagation. -/
def beginClose (m : OutputStreamManager) :
    Option (OutputStreamManager × Propagation) :=
  if m.closed then none
  else
    some ({ m with closed := true, nextTimestampBound := Timestamp.done },
      { mirrors := m.mirrors
        packets := []
        nextBound := Timestamp.done
        setBound := true })

end OutputStreamManager

namespace Propagation

/-- The packet half of one iteration: `AddPacketsToStream` with a copy, or for
the last mirror `MovePacketsToStream`, which empties the loop's list.  The
third component is the stream whose arrival callback runs. -/
def packetStep (routes : Routes) (streams : Streams) (p : Propagation) :
    Streams × Propagation × Option StreamId :=
  match p.mirrors with
  | [] => (streams, p, none)
  | mirror :: rest =>
      match mirror.resolve routes with
      | none => (streams, p, none)
      | some s =>
          if p.packets.isEmpty then (streams, p, none)
          else if rest.isEmpty then
            let r := (streams s).movePackets p.packets
            (Function.update streams s r.manager,
              { p with packets := r.packets },
              if r.notify then some s else none)
          else
            let r := (streams s).addPackets p.packets
            (Function.update streams s r.manager, p,
              if r.notify then some s else none)

/-- The bound half of one iteration, and the advance to the next mirror. -/
def boundStep (routes : Routes) (streams : Streams) (p : Propagation) :
    Streams × Propagation × Option StreamId :=
  match p.mirrors with
  | [] => (streams, p, none)
  | mirror :: rest =>
      match mirror.resolve routes with
      | none => (streams, { p with mirrors := rest }, none)
      | some s =>
          if p.setBound then
            let (m, wake) := (streams s).setNextTimestampBound p.nextBound
            (Function.update streams s m, { p with mirrors := rest },
              if wake then some s else none)
          else (streams, { p with mirrors := rest }, none)

/-- The streams the mirrors still to be visited lead to. -/
def targets (routes : Routes) (p : Propagation) : List StreamId :=
  p.mirrors.filterMap (Mirror.resolve routes)

/-- The whole loop without interruption, on the streams alone. -/
def run (routes : Routes) (nextBound : Timestamp) (setBound : Bool) :
    List Mirror → List Packet → Streams → Streams
  | [], _, streams => streams
  | mirror :: rest, packets, streams =>
      let r := packetStep routes streams ⟨mirror :: rest, packets, nextBound, setBound⟩
      let r' := boundStep routes r.1 r.2.1
      run routes nextBound setBound rest r'.2.1.packets r'.1

/-! ### The two halves of an iteration, mirror by mirror -/

theorem packetStep_of_resolve {routes : Routes} {streams : Streams}
    {mirror : Mirror} {rest : List Mirror} {packets : List Packet}
    {b : Timestamp} {sb : Bool} {s : StreamId}
    (hResolve : mirror.resolve routes = some s) (hPackets : packets ≠ []) :
    (packetStep routes streams ⟨mirror :: rest, packets, b, sb⟩).1 =
        Function.update streams s ((streams s).addPackets packets).manager ∧
      (packetStep routes streams ⟨mirror :: rest, packets, b, sb⟩).2.2 =
        if ((streams s).addPackets packets).notify then some s else none := by
  have hNonempty : packets.isEmpty = false := by simp [hPackets]
  cases rest <;> simp [packetStep, hResolve, hNonempty]

theorem packetStep_of_nil {routes : Routes} {streams : Streams}
    {mirrors : List Mirror} {b : Timestamp} {sb : Bool} :
    packetStep routes streams ⟨mirrors, [], b, sb⟩ =
      (streams, ⟨mirrors, [], b, sb⟩, none) := by
  unfold packetStep
  cases mirrors with
  | nil => rfl
  | cons mirror rest =>
      cases h : mirror.resolve routes <;> simp [h]

/-- The loop's list is only moved from at the last mirror. -/
theorem packetStep_packets {routes : Routes} {streams : Streams}
    {mirror : Mirror} {rest : List Mirror} {packets : List Packet}
    {b : Timestamp} {sb : Bool} (hRest : rest ≠ []) :
    (packetStep routes streams ⟨mirror :: rest, packets, b, sb⟩).2.1 =
      ⟨mirror :: rest, packets, b, sb⟩ := by
  have hNonempty : rest.isEmpty = false := by simp [hRest]
  cases hResolve : mirror.resolve routes with
  | none => simp [packetStep, hResolve]
  | some s =>
      by_cases hPackets : packets.isEmpty = true
      · simp only [packetStep, hResolve, hPackets, if_true]
      · simp only [packetStep, hResolve, hPackets, hNonempty]
        simp

@[simp] theorem packetStep_mirrors (routes : Routes) (streams : Streams)
    (p : Propagation) :
    (packetStep routes streams p).2.1.mirrors = p.mirrors := by
  unfold packetStep
  repeat' split
  all_goals simp_all

@[simp] theorem packetStep_nextBound (routes : Routes) (streams : Streams)
    (p : Propagation) :
    (packetStep routes streams p).2.1.nextBound = p.nextBound := by
  unfold packetStep
  repeat' split
  all_goals rfl

@[simp] theorem packetStep_setBound (routes : Routes) (streams : Streams)
    (p : Propagation) :
    (packetStep routes streams p).2.1.setBound = p.setBound := by
  unfold packetStep
  repeat' split
  all_goals rfl

theorem boundStep_snd (routes : Routes) (streams : Streams) (p : Propagation) :
    (boundStep routes streams p).2.1 = { p with mirrors := p.mirrors.tail } := by
  obtain ⟨mirrors, packets, nextBound, setBound⟩ := p
  unfold boundStep
  repeat' split
  all_goals simp_all

theorem boundStep_of_resolve {routes : Routes} {streams : Streams}
    {p : Propagation} {mirror : Mirror} {rest : List Mirror} {s : StreamId}
    (hMirrors : p.mirrors = mirror :: rest)
    (hResolve : mirror.resolve routes = some s) :
    (boundStep routes streams p).1 =
      if p.setBound then
        Function.update streams s
          ((streams s).setNextTimestampBound p.nextBound).1
      else streams := by
  simp only [boundStep, hMirrors, hResolve]
  cases p.setBound <;> rfl

end Propagation

end GraphRuntime.Stream
