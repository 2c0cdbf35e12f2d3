import GraphRuntime.Public.Initialize
import GraphRuntime.Stream.Consume

/-!
# The input stream handlers

The three classes behind `InputStreamHandler` differ in `GetNodeReadiness` and in what
they do with a queue size.  The rest of their text is the same, and stands here once:
`ScheduleInvocations` asks for the readiness until the allowance is used up or the node
is not ready, `FillInputSet` pops every stream at a timestamp, and the operations on one
stream go to the manager with its id.

A handler points to managers that their producers change at any time; the model keeps
the managers in the handler.  `managers` is `none` until `SetInputStreamManagers`, which
the default handler notices by its missing `sync_set_`.  `NotifyPacketArrival`, which
sets a flag nothing reads, is left out.

`ScheduleInvocations` is stated for a world that contains the handler: what the schedule
callback does to it is a parameter.
-/

namespace GraphRuntime.Handler

open GraphRuntime.Stream
open GraphRuntime.Public (HandlerKind)

/-- An input of one invocation. -/
structure InputStreamShard where
  packetQueue : List Packet := []
  isDone : Bool := false

/-- The inputs of a `GraphContext`, by port name. -/
structure GraphContext where
  inputs : String → InputStreamShard := fun _ => {}

/-! ## `GetNodeReadiness` -/

namespace ImmediateInputStreamHandler

/-- The loop over the managers, which the first stream with a packet ends. -/
def readinessLoop (minStreamTimestamp : Timestamp) :
    List InputStreamManager → Readiness × Timestamp
  | [] => (.notReady, minStreamTimestamp)
  | mgr :: managers =>
      let (ts, empty) := mgr.minTimestampOrBound
      if !empty then (.readyForProcess, min minStreamTimestamp ts)
      else readinessLoop (min minStreamTimestamp ts) managers

def getNodeReadiness (managers : List InputStreamManager) : Readiness × Timestamp :=
  readinessLoop Timestamp.done managers

end ImmediateInputStreamHandler

namespace FixedSizeInputStreamHandler

/-- The loop over the managers, which the first full stream ends. -/
def readinessLoop (minStreamTimestamp : Timestamp) (anyHasData : Bool) :
    List InputStreamManager → Readiness × Timestamp
  | [] => (if anyHasData then .readyForProcess else .notReady, minStreamTimestamp)
  | mgr :: managers =>
      if mgr.isFull then (.notReady, minStreamTimestamp)
      else
        let (ts, empty) := mgr.minTimestampOrBound
        readinessLoop (min minStreamTimestamp ts) (anyHasData || !empty) managers

def getNodeReadiness (managers : List InputStreamManager) : Readiness × Timestamp :=
  readinessLoop Timestamp.done false managers

/-- `SetInputStreamManagers`, what it does to a manager. -/
def limitManager (maxQueueSize : Int) (mgr : InputStreamManager) : InputStreamManager :=
  if maxQueueSize > 0 then mgr.setMaxQueueSize maxQueueSize else mgr

end FixedSizeInputStreamHandler

structure InputStreamHandler where
  kind : HandlerKind
  managers : Option (List InputStreamManager) := none

namespace InputStreamHandler

/-- `managers_`. -/
def streams (h : InputStreamHandler) : List InputStreamManager := h.managers.getD []

def setInputStreamManagers (h : InputStreamHandler) (managers : List InputStreamManager) :
    InputStreamHandler :=
  match h.kind with
  | .fixedSize maxQueueSize =>
      { h with
        managers := some (managers.map (FixedSizeInputStreamHandler.limitManager maxQueueSize)) }
  | _ => { h with managers := some managers }

/-- The readiness and `*min_stream_timestamp`, which comes in as given.  A default
handler without a `sync_set_` leaves it alone. -/
def getNodeReadiness (h : InputStreamHandler) (minStreamTimestamp : Timestamp) :
    Readiness × Timestamp :=
  match h.kind with
  | .default =>
      match h.managers with
      | none => (.notReady, minStreamTimestamp)
      | some managers => SyncSet.getReadiness managers
  | .immediate => ImmediateInputStreamHandler.getNodeReadiness h.streams
  | .fixedSize _ => FixedSizeInputStreamHandler.getNodeReadiness h.streams

/-! ## The operations on the streams -/

/-- The popped packets are dropped, and the context is left as it is. -/
def fillInputSet (h : InputStreamHandler) (timestamp : Timestamp) (context : GraphContext) :
    InputStreamHandler × GraphContext :=
  ({ h with
      managers := h.managers.map fun managers =>
        (SyncSet.popAll managers timestamp).map PopResult.manager },
    context)

/-- The manager with an id. -/
def manager? (h : InputStreamHandler) (id : Int) : Option InputStreamManager :=
  if id < 0 ∨ id ≥ h.streams.length then none else h.streams[id.toNat]?

/-- Its new state. -/
def modifyManager (h : InputStreamHandler) (id : Int)
    (f : InputStreamManager → InputStreamManager) : InputStreamHandler :=
  { h with managers := h.managers.map (·.modify id.toNat f) }

/-- `AddPacketsToStream` and `MovePacketsToStream`, after the method of the manager. -/
def addToStream (add : InputStreamManager → AddResult) (h : InputStreamHandler) (id : Int) :
    Except Status AddResult × InputStreamHandler :=
  match h.manager? id with
  | none => (.error ⟨.invalidArgument, "Invalid stream id"⟩, h)
  | some mgr => (.ok (add mgr), h.modifyManager id fun mgr => (add mgr).manager)

def addPacketsToStream (h : InputStreamHandler) (id : Int) (packets : List Packet) :
    Except Status AddResult × InputStreamHandler :=
  addToStream (·.addPackets packets) h id

def movePacketsToStream (h : InputStreamHandler) (id : Int) (packets : List Packet) :
    Except Status AddResult × InputStreamHandler :=
  addToStream (·.movePackets packets) h id

def setNextTimestampBound (h : InputStreamHandler) (id : Int) (bound : Timestamp) :
    InputStreamHandler :=
  match h.manager? id with
  | none => h
  | some _ => h.modifyManager id fun mgr => (mgr.setNextTimestampBound bound).1

def close (h : InputStreamHandler) : InputStreamHandler :=
  { h with managers := h.managers.map (·.map fun mgr => mgr.close.1) }

end InputStreamHandler

/-! ## `ScheduleInvocations` -/

section

variable {σ : Type}

/-- The world and the locals of `ScheduleInvocations`, with a record of what it did. -/
structure Scheduling (σ : Type) where
  world : σ
  /-- Invocations of `Process` asked for. -/
  scheduled : Nat := 0
  /-- Calls of the schedule callback. -/
  invoked : Nat := 0
  /-- What `GetNodeReadiness` answered, in order. -/
  answers : List (Readiness × Timestamp) := []
  /-- What was written to `*input_bound`. -/
  inputBound : Option Timestamp := none

/-- `if (schedule_callback_) schedule_callback_(node)`. -/
def Scheduling.invoke (callback : Option (σ → σ)) (s : Scheduling σ) : Scheduling σ :=
  match callback with
  | none => s
  | some run => { s with world := run s.world, invoked := s.invoked + 1 }

/-- The loop, with the allowance that is left. -/
def scheduleLoop (handler : σ → InputStreamHandler) (callback : Option (σ → σ)) :
    Nat → Scheduling σ → Scheduling σ
  | 0, s => s
  | allowance + 1, s =>
      let answer := (handler s.world).getNodeReadiness Timestamp.unset
      let s := { s with answers := s.answers ++ [answer] }
      match answer.1 with
      | .readyForProcess =>
          scheduleLoop handler callback allowance
            { s.invoke callback with scheduled := s.scheduled + 1 }
      | .readyForClose => s.invoke callback
      | .notReady => { s with inputBound := some answer.2 }

def scheduleInvocations (handler : σ → InputStreamHandler) (callback : Option (σ → σ))
    (maxAllowance : Int) (w : σ) : Scheduling σ :=
  scheduleLoop handler callback maxAllowance.toNat { world := w }

/-- The result of `ScheduleInvocations`. -/
def Scheduling.returned (s : Scheduling σ) : Bool := decide (s.scheduled > 0)

end

end GraphRuntime.Handler
