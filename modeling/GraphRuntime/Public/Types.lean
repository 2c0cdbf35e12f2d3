/-!
# Statuses and identifiers shared by the framework

`absl::Status` is a code with a message; an OK status is told from the others
by its code alone.  `types.h` reserves `kUnavailable` for a node that has
nothing more to produce (`StatusStop`), so a node has three ways to return
from `Process`: OK, stop, and everything else.

The remaining names stand for the addresses the C++ objects are known by:
`StreamId` for an `InputStreamManager`, `OutId` for an `OutputStreamManager`,
`NodeId` for a node (its position in `all_nodes_`), `QueueId` for a
`SchedulerQueue`, `HandlerId` for an `InputStreamHandler`.
-/

namespace GraphRuntime

abbrev StreamId := Nat
abbrev OutId := Nat
abbrev NodeId := Nat
abbrev QueueId := Nat
abbrev HandlerId := Nat

/-- `absl::StatusCode`. -/
inductive StatusCode
  | ok
  | cancelled
  | unknown
  | invalidArgument
  | deadlineExceeded
  | notFound
  | alreadyExists
  | permissionDenied
  | resourceExhausted
  | failedPrecondition
  | aborted
  | outOfRange
  | unimplemented
  | internal
  | unavailable
  | dataLoss
  | unauthenticated
deriving DecidableEq, Repr

/-- `absl::Status`. -/
structure Status where
  code : StatusCode
  message : String
deriving DecidableEq, Repr

namespace Status

/-- `absl::OkStatus`. -/
def okStatus : Status := ⟨.ok, ""⟩

/-- `ok()`. -/
def isOk (s : Status) : Bool := decide (s.code = .ok)

/-- `IsStopStatus`. -/
def isStopStatus (s : Status) : Bool := decide (s.code = .unavailable)

/-- `StatusStop`. -/
def statusStop : Status := ⟨.unavailable, "Stop"⟩

/-- Neither OK nor the stop status: what `RunNode` and `Schedule` treat as a
node failure. -/
def isError (s : Status) : Bool := !s.isOk && !s.isStopStatus

@[simp] theorem isOk_okStatus : okStatus.isOk = true := rfl

@[simp] theorem isStopStatus_okStatus : okStatus.isStopStatus = false := rfl

@[simp] theorem isStopStatus_statusStop : statusStop.isStopStatus = true := rfl

theorem isStopStatus_of_isOk {s : Status} (h : s.isOk = true) :
    s.isStopStatus = false := by
  simp only [isOk, decide_eq_true_eq] at h
  simp [isStopStatus, h]

end Status

end GraphRuntime
