import GraphRuntime.Public.Types
import GraphRuntime.Stream.Packet

/-!
# One input edge: `InputStreamManager`

Each (node, input edge) pair of a graph owns one manager: a packet queue, the
timestamp bound announced by the producer, and a closed flag.  Every public
method takes the manager's mutex for its whole body except for the two
callbacks it may fire after unlocking, so a method is one atomic function of
the manager and the callbacks it decided to fire are part of its result.

* `addPackets`, `movePackets` append a batch and report `notify` when the
  queue was empty before; the arrival callback runs exactly when `notify` is
  set.
* `setNextTimestampBound` raises the bound and runs the arrival callback
  exactly when it did.
* `close` refuses further packets and raises the bound to `Done`.
* `popQueueHead` takes the head packet, or reports whether the stream is done.
* `popPacketAtTimestamp` takes the head if it is not past a timestamp, and hands
  back an empty packet unless it is at that timestamp.

The timestamp check in front of every append is `checkTimestamp`; since the
special values cover everything `isAllowedInStream` leaves out, it never
rejects a packet (`checkTimestamp_eq_true`), which is what makes
`addPackets_of_open` an equation without side conditions on the batch.
-/

namespace GraphRuntime.Stream

structure InputStreamManager where
  queue : List Packet := []
  numPacketsAdded : Nat := 0
  nextTimestampBound : Timestamp := Timestamp.preStream
  closed : Bool := false
  maxQueueSize : Int := -1
  enableTimestamps : Bool := true
deriving DecidableEq

/-- `CheckTimestamp`. -/
def checkTimestamp (p : Packet) : Bool :=
  p.timestamp.isAllowedInStream || p.timestamp.isSpecialValue

@[simp] theorem checkTimestamp_eq_true (p : Packet) :
    checkTimestamp p = true := by
  unfold checkTimestamp Timestamp.isAllowedInStream Timestamp.isSpecialValue
    int64Min int64Max
  simp only [Bool.or_eq_true, Bool.and_eq_true, decide_eq_true_eq]
  omega

/-- What `AddPackets` and `MovePackets` hand back: the status, the manager,
the `*notify` flag, whether `becomes_full_callback_` runs, and the caller's
list (only `MovePackets` changes it). -/
structure AddResult where
  status : Status
  manager : InputStreamManager
  notify : Bool
  becameFull : Bool
  packets : List Packet
deriving DecidableEq

/-- What `PopPacketAtTimestamp` hands back: the packet, its two outputs, whether
`becomes_not_full_callback_` runs, and the manager. -/
structure PopResult where
  packet : Packet
  numPacketsDropped : Int
  streamIsDone : Bool
  becameNotFull : Bool
  manager : InputStreamManager
deriving DecidableEq

namespace InputStreamManager

def isEmpty (m : InputStreamManager) : Bool := m.queue.isEmpty

def isFull (m : InputStreamManager) : Bool :=
  decide (m.maxQueueSize ≠ -1) && decide ((m.queue.length : Int) ≥ m.maxQueueSize)

/-- `IsDone`: nothing buffered and the producer has announced `Done`. -/
def isDone (m : InputStreamManager) : Bool :=
  m.queue.isEmpty && decide (m.nextTimestampBound = Timestamp.done)

/-- One iteration of the append loop, after the timestamp check. -/
def pushPacket (m : InputStreamManager) (p : Packet) : InputStreamManager :=
  { m with
    nextTimestampBound := p.timestamp.nextAllowedInStream
    numPacketsAdded := m.numPacketsAdded + 1
    queue := m.queue ++ [p] }

/-- The append loop.  It returns early, in the middle of the batch, on a packet
that fails the check: the second component is then the part of the batch that
was not consumed. -/
def appendLoop (m : InputStreamManager) :
    List Packet → InputStreamManager × List Packet
  | [] => (m, [])
  | p :: rest =>
      if m.enableTimestamps && !checkTimestamp p then (m, p :: rest)
      else appendLoop (m.pushPacket p) rest

def addPackets (m : InputStreamManager) (packets : List Packet) : AddResult :=
  if m.closed then
    ⟨⟨.failedPrecondition, "Stream is closed"⟩, m, false, false, packets⟩
  else
    let (m', unread) := m.appendLoop packets
    if unread.isEmpty then
      ⟨Status.okStatus, m', m.isEmpty && !packets.isEmpty,
        !m.isFull && m'.isFull, packets⟩
    else ⟨⟨.invalidArgument, "Invalid timestamp"⟩, m', false, false, packets⟩

/-- As `addPackets`, with the packets moved out of the caller's list.  On an
early return the consumed prefix stays in the list as moved-from packets. -/
def movePackets (m : InputStreamManager) (packets : List Packet) : AddResult :=
  if m.closed then
    ⟨⟨.failedPrecondition, "Stream is closed"⟩, m, false, false, packets⟩
  else
    let (m', unread) := m.appendLoop packets
    if unread.isEmpty then
      ⟨Status.okStatus, m', m.isEmpty && !packets.isEmpty,
        !m.isFull && m'.isFull, []⟩
    else
      ⟨⟨.invalidArgument, "Invalid timestamp"⟩, m', false, false,
        (packets.take (packets.length - unread.length)).map Packet.movedFrom ++
          unread⟩

/-- The flag says whether the arrival callback runs. -/
def setNextTimestampBound (m : InputStreamManager) (bound : Timestamp) :
    InputStreamManager × Bool :=
  if bound > m.nextTimestampBound then
    ({ m with nextTimestampBound := bound }, true)
  else (m, false)

/-- `Close`.  The flag says whether the arrival callback runs. -/
def close (m : InputStreamManager) : InputStreamManager × Bool :=
  if m.closed then (m, false)
  else ({ m with closed := true, nextTimestampBound := Timestamp.done }, true)

/-- The timestamp of the head, or else the bound; the flag is `*is_empty`. -/
def minTimestampOrBound (m : InputStreamManager) : Timestamp × Bool :=
  match m.queue with
  | [] => (m.nextTimestampBound, true)
  | p :: _ => (p.timestamp, false)

/-- A packet and the done signal are separate: a call that pops a packet
reports `false` even when it leaves the stream done. -/
def popQueueHead (m : InputStreamManager) : Packet × Bool × InputStreamManager :=
  match m.queue with
  | [] => (Packet.empty, decide (m.nextTimestampBound = Timestamp.done), m)
  | p :: rest => (p, false, { m with queue := rest })

/-- The head leaves when it is not past `timestamp`. -/
def takeHead (m : InputStreamManager) (timestamp : Timestamp) :
    Option Packet × InputStreamManager :=
  match m.queue with
  | [] => (none, m)
  | p :: rest =>
      if p.timestamp ≤ timestamp then (some p, { m with queue := rest }) else (none, m)

/-- What stands in for a packet that is not there: an empty one, just before the
next packet or bound of the stream. -/
def absentPacket (m : InputStreamManager) : Packet :=
  Packet.empty.at' m.minTimestampOrBound.1.previousAllowedInStream

/-- A head older than `timestamp` is taken and dropped.  `last_select_timestamp_`,
which nothing reads, is left out. -/
def popPacketAtTimestamp (m : InputStreamManager) (timestamp : Timestamp) : PopResult :=
  let (head, m') := m.takeHead timestamp
  let currentTimestamp := (head.map Packet.timestamp).getD Timestamp.unset
  let dropped : Int := if head.isSome then 0 else -1
  let m'' :=
    if m'.nextTimestampBound ≤ timestamp then
      { m' with nextTimestampBound := timestamp.nextAllowedInStream }
    else m'
  { packet := if currentTimestamp ≠ timestamp then m'.absentPacket
      else head.getD Packet.empty
    numPacketsDropped := if currentTimestamp ≠ timestamp then dropped + 1 else dropped
    streamIsDone := m''.isDone
    becameNotFull := m.isFull && !m''.isFull
    manager := m'' }

def setMaxQueueSize (m : InputStreamManager) (maxQueueSize : Int) : InputStreamManager :=
  { m with maxQueueSize }

/-- The bound after a batch: that of its last packet. -/
def boundAfter (bound : Timestamp) : List Packet → Timestamp
  | [] => bound
  | p :: rest => boundAfter p.timestamp.nextAllowedInStream rest

theorem appendLoop_eq (m : InputStreamManager) (packets : List Packet) :
    m.appendLoop packets =
      ({ m with
         nextTimestampBound := boundAfter m.nextTimestampBound packets
         numPacketsAdded := m.numPacketsAdded + packets.length
         queue := m.queue ++ packets }, []) := by
  induction packets generalizing m with
  | nil => simp [appendLoop, boundAfter]
  | cons p rest ih =>
      simp only [appendLoop, checkTimestamp_eq_true, Bool.not_true,
        Bool.and_false, Bool.false_eq_true, if_false, ih]
      simp [pushPacket, boundAfter]
      omega

/-- **Appending to an open stream** always takes the whole batch. -/
theorem addPackets_of_open {m : InputStreamManager} (hOpen : m.closed = false)
    (packets : List Packet) :
    (m.addPackets packets).manager =
      { m with
        nextTimestampBound := boundAfter m.nextTimestampBound packets
        numPacketsAdded := m.numPacketsAdded + packets.length
        queue := m.queue ++ packets } ∧
    (m.addPackets packets).notify = (m.isEmpty && !packets.isEmpty) := by
  simp [addPackets, hOpen, appendLoop_eq]

/-- Moving differs from copying only in what is left of the caller's list. -/
theorem movePackets_eq_addPackets {m : InputStreamManager}
    (hOpen : m.closed = false) (packets : List Packet) :
    m.movePackets packets = { m.addPackets packets with packets := [] } := by
  simp [movePackets, addPackets, hOpen, appendLoop_eq]

theorem addPackets_of_closed {m : InputStreamManager} (hClosed : m.closed = true)
    (packets : List Packet) :
    (m.addPackets packets).manager = m ∧ (m.addPackets packets).notify = false ∧
      (m.movePackets packets).manager = m ∧
      (m.movePackets packets).notify = false := by
  simp [addPackets, movePackets, hClosed]

@[simp] theorem addPackets_closed (m : InputStreamManager)
    (packets : List Packet) :
    (m.addPackets packets).manager.closed = m.closed := by
  cases h : m.closed
  · rw [(addPackets_of_open h packets).1]; exact h
  · rw [(addPackets_of_closed h packets).1]; exact h

@[simp] theorem movePackets_manager (m : InputStreamManager)
    (packets : List Packet) :
    (m.movePackets packets).manager = (m.addPackets packets).manager := by
  cases h : m.closed
  · rw [movePackets_eq_addPackets h]
  · simp [movePackets, addPackets, h]

@[simp] theorem movePackets_notify (m : InputStreamManager)
    (packets : List Packet) :
    (m.movePackets packets).notify = (m.addPackets packets).notify := by
  cases h : m.closed
  · rw [movePackets_eq_addPackets h]
  · simp [movePackets, addPackets, h]

@[simp] theorem setNextTimestampBound_queue (m : InputStreamManager)
    (b : Timestamp) : (m.setNextTimestampBound b).1.queue = m.queue := by
  unfold setNextTimestampBound
  split <;> rfl

@[simp] theorem setNextTimestampBound_closed (m : InputStreamManager)
    (b : Timestamp) : (m.setNextTimestampBound b).1.closed = m.closed := by
  unfold setNextTimestampBound
  split <;> rfl

/-- The bound update takes a maximum. -/
theorem setNextTimestampBound_bound (m : InputStreamManager) (b : Timestamp) :
    (m.setNextTimestampBound b).1.nextTimestampBound =
      max m.nextTimestampBound b := by
  unfold setNextTimestampBound
  split
  · rename_i h
    exact (max_eq_right (le_of_lt h)).symm
  · rename_i h
    exact (max_eq_left (not_lt.mp h)).symm

@[simp] theorem popQueueHead_bound (m : InputStreamManager) :
    m.popQueueHead.2.2.nextTimestampBound = m.nextTimestampBound := by
  unfold popQueueHead
  split <;> rfl

@[simp] theorem popQueueHead_closed (m : InputStreamManager) :
    m.popQueueHead.2.2.closed = m.closed := by
  unfold popQueueHead
  split <;> rfl

@[simp] theorem popQueueHead_queue (m : InputStreamManager) :
    m.popQueueHead.2.2.queue = m.queue.tail := by
  unfold popQueueHead
  split <;> simp [*]

theorem isDone_iff {m : InputStreamManager} :
    m.isDone = true ↔ m.queue = [] ∧ m.nextTimestampBound = Timestamp.done := by
  simp [isDone]

theorem isEmpty_iff {m : InputStreamManager} :
    m.isEmpty = true ↔ m.queue = [] := by
  simp [isEmpty]

/-- A batch that leaves an empty stream non-empty asks for the callback. -/
theorem notify_of_addPackets {m : InputStreamManager} {packets : List Packet}
    (hEmpty : m.queue = []) (hAdded : (m.addPackets packets).manager.queue ≠ []) :
    (m.addPackets packets).notify = true := by
  cases hClosed : m.closed
  · obtain ⟨hManager, hNotify⟩ := addPackets_of_open hClosed packets
    rw [hManager] at hAdded
    rw [hNotify]
    simp_all [isEmpty]
  · rw [(addPackets_of_closed hClosed packets).1] at hAdded
    exact absurd hEmpty hAdded

/-- A batch of packets does not make a stream done. -/
theorem isDone_of_addPackets {m : InputStreamManager} {packets : List Packet}
    (hPackets : packets ≠ []) (hDone : (m.addPackets packets).manager.isDone = true) :
    m.isDone = true := by
  cases hClosed : m.closed
  · rw [(addPackets_of_open hClosed packets).1] at hDone
    simp_all [isDone]
  · rwa [(addPackets_of_closed hClosed packets).1] at hDone

end InputStreamManager

end GraphRuntime.Stream
