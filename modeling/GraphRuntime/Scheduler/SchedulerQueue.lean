import GraphRuntime.Public.Types

/-!
# `SchedulerQueue`: the state of one queue

A queue holds the work items of the nodes bound to one executor, the two sets
behind the finalize protocol of `RunNode`, and the number of tasks it has
handed to the executor.  The definitions here are its locked sections: each is
one atomic function of the queue, and what the caller does after unlocking
(submit to the executor, report idle) is left to the caller.

`std::priority_queue` pops a maximal element of `Item::operator<`; `top` picks
one by a single scan.
-/

namespace GraphRuntime.Scheduler

/-- `SchedulerQueue::Item`; `nodeId` is the node's address. -/
structure Item where
  node : NodeId
  isOpenNode : Bool := false
  sourceLayer : Int := 0
  nodeId : Int := 0
deriving DecidableEq

/-- `Item::operator<`: open items before the others, non-sources before
sources, lower source layer and lower address first among sources, higher
address first among non-sources. -/
def Item.less (isSource : NodeId → Bool) (a b : Item) : Bool :=
  if a.isOpenNode != b.isOpenNode then b.isOpenNode
  else if isSource a.node != isSource b.node then isSource b.node
  else if isSource a.node then
    if a.sourceLayer ≠ b.sourceLayer then decide (a.sourceLayer > b.sourceLayer)
    else decide (a.nodeId > b.nodeId)
  else decide (a.nodeId < b.nodeId)

/-- A maximal item. -/
def top (less : Item → Item → Bool) : List Item → Option Item
  | [] => none
  | a :: rest =>
      match top less rest with
      | none => some a
      | some b => if less a b then some b else some a

theorem top_mem {less : Item → Item → Bool} {items : List Item} {a : Item}
    (hTop : top less items = some a) : a ∈ items := by
  induction items generalizing a with
  | nil => simp [top] at hTop
  | cons b rest ih =>
      unfold top at hTop
      split at hTop
      · simp_all
      · rename_i c hRest
        split at hTop
        · obtain rfl := Option.some.inj hTop
          exact List.mem_cons_of_mem _ (ih hRest)
        · simp_all

theorem top_eq_none {less : Item → Item → Bool} {items : List Item} :
    top less items = none ↔ items = [] := by
  cases items with
  | nil => simp [top]
  | cons a rest =>
      unfold top
      split <;> (try split) <;> simp

/-- The callbacks are recorded as set or not: what they run is fixed by
`Scheduler::Start` and `Scheduler::SetErrorCallback`. -/
structure SchedulerQueue where
  running : Bool := false
  items : List Item := []
  closePending : List NodeId := []
  finalizedNodes : List NodeId := []
  numPendingTasks : Nat := 0
  timestampCounter : Int := 0
  idleCallback : Bool := false
  sourceStoppedCallback : Bool := false
  errorCallback : Bool := false
deriving DecidableEq

/-- The three outcomes of the decision `RunNode` takes under the lock. -/
inductive FinalizeAction
  | kNone
  | kSchedule
  | kClose
deriving DecidableEq

namespace SchedulerQueue

/-- `IsIdle`. -/
def isIdle (q : SchedulerQueue) : Bool :=
  q.items.isEmpty && q.numPendingTasks == 0

def isFinalized (q : SchedulerQueue) (n : NodeId) : Bool :=
  decide (n ∈ q.finalizedNodes)

/-- `should_submit`, computed at the end of several locked sections. -/
def shouldSubmit (q : SchedulerQueue) : Bool := q.running && !q.items.isEmpty

def setRunning (q : SchedulerQueue) (running : Bool) : SchedulerQueue :=
  { q with running := running }

def push (q : SchedulerQueue) (item : Item) : SchedulerQueue :=
  { q with items := q.items ++ [item] }

def tryPop (less : Item → Item → Bool) (q : SchedulerQueue) :
    Option (Item × SchedulerQueue) :=
  match top less q.items with
  | none => none
  | some item => some (item, { q with items := q.items.erase item })

/-- `if (num_pending_tasks_ > 0) --num_pending_tasks_`. -/
def taskFinished (q : SchedulerQueue) : SchedulerQueue :=
  { q with numPendingTasks := q.numPendingTasks - 1 }

/-- The locked section of `SubmitToExecutor`. -/
def taskSubmitted (q : SchedulerQueue) : SchedulerQueue :=
  { q with numPendingTasks := q.numPendingTasks + 1 }

def cleanupAfterRun (q : SchedulerQueue) : SchedulerQueue :=
  { q with items := [], numPendingTasks := 0, running := false }

/-- The decision of `RunNode` on `close_pending_` and `finalized_nodes_`, for a
node with input ports. -/
def decideFinalize (q : SchedulerQueue) (n : NodeId) (allInputsDone : Bool) :
    FinalizeAction × SchedulerQueue :=
  if allInputsDone && !q.isFinalized n then
    if n ∈ q.closePending then
      (.kClose, { q with
        closePending := q.closePending.filter (· ≠ n)
        finalizedNodes := n :: q.finalizedNodes })
    else (.kSchedule, { q with closePending := n :: q.closePending })
  else (.kNone, q)

theorem tryPop_eq_some {less : Item → Item → Bool} {q q' : SchedulerQueue}
    {item : Item} (hPop : q.tryPop less = some (item, q')) :
    item ∈ q.items ∧ q' = { q with items := q.items.erase item } := by
  unfold tryPop at hPop
  split at hPop
  · simp at hPop
  · rename_i a hTop
    simp only [Option.some.injEq, Prod.mk.injEq] at hPop
    obtain ⟨rfl, rfl⟩ := hPop
    exact ⟨top_mem hTop, rfl⟩

theorem tryPop_eq_none {less : Item → Item → Bool} {q : SchedulerQueue} :
    q.tryPop less = none ↔ q.items = [] := by
  rw [← @top_eq_none less]
  unfold tryPop
  split <;> simp [*]

end SchedulerQueue

end GraphRuntime.Scheduler
