import GraphRuntime.Lib.Crossings
import GraphRuntime.Public.Reinitialize
import GraphRuntime.Stream.Fullness

/-!
# Throttling

A manager tells the runtime when its queue reaches its limit and when it has room again, and
`full_input_streams_` is what the runtime has been told.  A run here is any list of
operations on the streams and of `UnthrottleSources`, with a history beside it: the
callbacks that ran, and after each call which streams were full.

`PopQueueHead` tells nothing, `UnthrottleSources` makes room without a word, and a stream
outside its node's `InputPorts()` is never found.  `mirrored_iff` is exact: the records are
true of the queues and every crossing is told once, as long as none of this matters.
-/

namespace GraphRuntime.Public

open GraphRuntime.Config GraphRuntime.Stream Runs Crossings

namespace Runtime

/-- The node a manager was made for: the one its arrival callback schedules. -/
def arrivalNode (r : Runtime) (t : StreamId) : Option NodeId :=
  (r.ownedStreamManagers[t]?).bind (·.arrivalNode)

end Runtime

namespace Session

/-- Whether a stream is full. -/
def isFull (s : Session) (t : StreamId) : Bool :=
  (s.net.streams t).isFull

/-- `IsNodeThrottled`. -/
def isNodeThrottled (s : Session) (n : NodeId) : Bool :=
  s.fullInputStreams.any (·.1 = n)

/-- A call on stream `t` leaves manager `m` and then runs a callback, if any: the one for
a stream that became full, or the one for a stream that became not full. -/
def afterCall (s : Session) (t : StreamId) (m : InputStreamManager) (callback : Option Bool) :
    Session :=
  let s := { s with net := { s.net with streams := Function.update s.net.streams t m } }
  match callback with
  | none => s
  | some true => s.onInputStreamFull t
  | some false => s.onInputStreamNotFull t

/-- `Initialize` has made `r`, and `SetMaxQueueSize` has set the limits. -/
def start (r : Runtime) (limits : StreamId → Int) : Session :=
  { ({} : Session) with
    runtime := r
    net := { ({} : Session).net with
      streams := fun t => ({} : InputStreamManager).setMaxQueueSize (limits t) } }

end Session

/-- The calls of a run. -/
inductive StreamCall
  | onStream (t : StreamId) (op : Operation)
  | unthrottleSources

/-- A run with its history. -/
structure Watched where
  session : Session
  /-- The callbacks that ran, each with its stream. -/
  callbacks : List (StreamId × Bool) := []
  /-- Which streams were full, at the start and after each call. -/
  fullness : List (StreamId → Bool)

namespace Watched

/-- The history before the first call. -/
def start (r : Runtime) (limits : StreamId → Int) : Watched :=
  { session := Session.start r limits, fullness := [(Session.start r limits).isFull] }

/-- One call, and what is recorded of it. -/
def call (w : Watched) : StreamCall → Watched
  | .onStream t op =>
      let m := w.session.net.streams t
      let s := w.session.afterCall t (op.apply m) (op.callback m)
      { session := s
        callbacks := w.callbacks ++ ((op.callback m).map (t, ·)).toList
        fullness := w.fullness ++ [s.isFull] }
  | .unthrottleSources =>
      let s := w.session.unthrottleSources
      { w with session := s, fullness := w.fullness ++ [s.isFull] }

/-- The history after some calls. -/
def after (w : Watched) (calls : List StreamCall) : Watched :=
  calls.foldl call w

/-- The callbacks of one stream. -/
def callbacksOf (w : Watched) (t : StreamId) : List Bool :=
  (w.callbacks.filter (·.1 = t)).map (·.2)

/-- Whether a stream was full, at the start and after each call. -/
def levels (w : Watched) (t : StreamId) : List Bool :=
  w.fullness.map (· t)

end Watched

/-- **The throttle state mirrors the queues**: a node is throttled exactly when one of its
streams is full, and the callbacks of a stream alternate, one for each crossing. -/
structure Mirrored (r : Runtime) (w : Watched) : Prop where
  throttled : ∀ n, w.session.isNodeThrottled n = true ↔
    ∃ t, r.arrivalNode t = some n ∧ w.session.isFull t = true
  alternate : ∀ t, (w.callbacksOf t).IsChain (· ≠ ·)
  told : ∀ t, w.callbacksOf t = crossings (w.levels t)

/-- A call that the runtime hears of: a batch that fills a stream outside `InputPorts()`
finds one inside that is full; a pop that makes room is no `PopQueueHead` and does not leave
a stream outside as the only full one of its node; `UnthrottleSources` finds no full stream. -/
def KeepsMirror (r : Runtime) (w : Watched) : StreamCall → Prop
  | .onStream t op =>
      (op.Fills (w.session.net.streams t) → ∀ n, r.arrivalNode t = some n →
        r.portNode t = some n ∨ ∃ u, r.portNode u = some n ∧ w.session.isFull u = true) ∧
      (op.Drains (w.session.net.streams t) → op ≠ .popQueueHead ∧
        ∀ n, r.portNode t = some n →
          (∃ u, u ≠ t ∧ r.arrivalNode u = some n ∧ w.session.isFull u = true) →
          ∃ u, u ≠ t ∧ r.portNode u = some n ∧ w.session.isFull u = true)
  | .unthrottleSources => ∀ t, r.arrivalNode t ≠ none → w.session.isFull t = false

section

variable {registered : String → Bool} {c : GraphConfig} {r : Runtime} {w : Watched}
  {full : StreamId → Bool} {s : Session} {t u : StreamId} {n : NodeId} {op : Operation}

/-- A stream among a node's ports was made for that node. -/
theorem arrivalNode_of_portNode (hInit : Runtime.Initialized c r)
    (hPort : r.portNode t = some n) : r.arrivalNode t = some n := by
  have hMem := List.find?_some hPort
  obtain ⟨p, hPair, hStream⟩ := List.any_eq_true.mp hMem
  obtain ⟨i, input, hEdge, rfl⟩ := Runtime.mem_inputPorts hInit hPair
  obtain ⟨d, hNode, hInput⟩ := edge_eq_some.mp hEdge
  rw [← of_decide_eq_true hStream, Runtime.arrivalNode,
    hInit.edgeManagers n d hNode i input hInput]
  rfl

/-! ## Streams outside the ports -/

/-- A node with a full stream has one among its ports. -/
def Covered (r : Runtime) (full : StreamId → Bool) : Prop :=
  ∀ n, (∃ t, r.arrivalNode t = some n ∧ full t = true) →
    ∃ t, r.portNode t = some n ∧ full t = true

theorem covered_fills_iff (hCovered : Covered r full) :
    Covered r (Function.update full t true) ↔ ∀ n, r.arrivalNode t = some n →
      r.portNode t = some n ∨ ∃ u, r.portNode u = some n ∧ full u = true := by
  constructor
  · intro hAfter n hNode
    obtain ⟨u, hPort, hFull⟩ := hAfter n ⟨t, hNode, Function.update_self t true full⟩
    by_cases hSame : u = t
    · exact Or.inl (hSame ▸ hPort)
    · rw [Function.update_of_ne hSame] at hFull
      exact Or.inr ⟨u, hPort, hFull⟩
  · rintro hFills n ⟨u, hNode, hFull⟩
    have hShown : r.portNode t = some n ∨ ∃ v, r.portNode v = some n ∧ full v = true := by
      by_cases hSame : u = t
      · exact hFills n (hSame ▸ hNode)
      · rw [Function.update_of_ne hSame] at hFull
        exact Or.inr (hCovered n ⟨u, hNode, hFull⟩)
    rcases hShown with hPort | ⟨v, hPort, hStill⟩
    · exact ⟨t, hPort, Function.update_self t true full⟩
    · refine ⟨v, hPort, ?_⟩
      by_cases hSame : v = t
      · rw [hSame, Function.update_self]
      · rwa [Function.update_of_ne hSame]

theorem covered_drains_iff (hCovered : Covered r full) :
    Covered r (Function.update full t false) ↔ ∀ n, r.portNode t = some n →
      (∃ u, u ≠ t ∧ r.arrivalNode u = some n ∧ full u = true) →
      ∃ u, u ≠ t ∧ r.portNode u = some n ∧ full u = true := by
  have hOther : ∀ u, Function.update full t false u = true ↔ u ≠ t ∧ full u = true := by
    intro u
    by_cases hSame : u = t
    · simp [hSame]
    · simp [hSame]
  simp only [Covered, hOther]
  constructor
  · rintro hAfter n - ⟨u, hNe, hNode, hFull⟩
    obtain ⟨v, hPort, hNe', hFull'⟩ := hAfter n ⟨u, hNode, hNe, hFull⟩
    exact ⟨v, hNe', hPort, hFull'⟩
  · rintro hDrains n ⟨u, hNode, hNe, hFull⟩
    by_cases hPort : r.portNode t = some n
    · obtain ⟨v, hNe', hPort', hFull'⟩ := hDrains n hPort ⟨u, hNe, hNode, hFull⟩
      exact ⟨v, hPort', hNe', hFull'⟩
    · obtain ⟨v, hPort', hFull'⟩ := hCovered n ⟨u, hNode, hFull⟩
      exact ⟨v, hPort', fun hSame => hPort (hSame ▸ hPort'), hFull'⟩

/-! ## One call -/

theorem streams_afterCall (s : Session) (t : StreamId) (m : InputStreamManager)
    (callback : Option Bool) :
    (s.afterCall t m callback).net.streams = Function.update s.net.streams t m ∧
      (s.afterCall t m callback).runtime = s.runtime := by
  unfold Session.afterCall
  split
  · exact ⟨rfl, rfl⟩
  · simp only [Session.onInputStreamFull]
    split <;> exact ⟨rfl, rfl⟩
  · exact ⟨rfl, rfl⟩

theorem isFull_onStream (w : Watched) (t : StreamId) (op : Operation) :
    (w.call (.onStream t op)).session.isFull =
      Function.update w.session.isFull t (op.apply (w.session.net.streams t)).isFull := by
  funext u
  show ((w.session.afterCall t _ _).net.streams u).isFull = _
  rw [(streams_afterCall _ _ _ _).1]
  by_cases hSame : u = t
  · subst hSame
    rw [Function.update_self, Function.update_self]
  · rw [Function.update_of_ne hSame, Function.update_of_ne hSame]
    rfl

/-- A callback changes the records of its own stream. -/
theorem mem_afterCall {m : InputStreamManager} {callback : Option Bool} :
    (n, u) ∈ (s.afterCall t m callback).fullInputStreams ↔
      if u = t then
        match callback with
        | none => (n, u) ∈ s.fullInputStreams
        | some true => (n, u) ∈ s.fullInputStreams ∨ s.runtime.portNode t = some n
        | some false => False
      else (n, u) ∈ s.fullInputStreams := by
  unfold Session.afterCall
  match callback with
  | none => simp
  | some false => by_cases hSame : u = t <;> simp [Session.onInputStreamNotFull, hSame]
  | some true =>
      simp only [Session.onInputStreamFull]
      cases hPort : s.runtime.portNode t with
      | none => by_cases hSame : u = t <;> simp [hSame]
      | some n' =>
          by_cases hSame : u = t
          · subst hSame
            simp [eq_comm, or_comm]
          · simp [hSame]

/-! ## The invariant -/

/-- The records are the full streams among the ports, and each crossing was told. -/
structure Recorded (r : Runtime) (w : Watched) : Prop where
  runtime : w.session.runtime = r
  records : ∀ n t, (n, t) ∈ w.session.fullInputStreams ↔
    r.portNode t = some n ∧ w.session.isFull t = true
  told : ∀ t, w.callbacksOf t = crossings (w.levels t)
  current : ∀ t, (w.levels t).getLast? = some (w.session.isFull t)

theorem isNodeThrottled_iff (hRecorded : Recorded r w) :
    w.session.isNodeThrottled n = true ↔
      ∃ t, r.portNode t = some n ∧ w.session.isFull t = true := by
  simp only [Session.isNodeThrottled, List.any_eq_true, Prod.exists, decide_eq_true_eq]
  constructor
  · rintro ⟨n', t, hMem, rfl⟩
    exact ⟨t, (hRecorded.records n' t).mp hMem⟩
  · rintro ⟨t, hFull⟩
    exact ⟨n, t, (hRecorded.records n t).mpr hFull, rfl⟩

/-- True records mirror the queues exactly when the ports cover the full streams. -/
theorem mirrored_iff_covered (hInit : Runtime.Initialized c r) (hRecorded : Recorded r w) :
    Mirrored r w ↔ Covered r w.session.isFull := by
  constructor
  · intro hMirrored n hFull
    exact (isNodeThrottled_iff hRecorded).mp ((hMirrored.throttled n).mpr hFull)
  · intro hCovered
    refine ⟨fun n => ?_, fun t => ?_, hRecorded.told⟩
    · rw [isNodeThrottled_iff hRecorded]
      constructor
      · rintro ⟨t, hPort, hFull⟩
        exact ⟨t, arrivalNode_of_portNode hInit hPort, hFull⟩
      · exact hCovered n
    · rw [hRecorded.told t]
      exact isChain_crossings _

theorem callbacksOf_onStream (w : Watched) (t : StreamId) (op : Operation) (u : StreamId) :
    (w.call (.onStream t op)).callbacksOf u = w.callbacksOf u ++
      if u = t then (op.callback (w.session.net.streams t)).toList else [] := by
  simp only [Watched.callbacksOf, Watched.call, List.filter_append, List.map_append]
  congr 1
  cases op.callback (w.session.net.streams t) with
  | none => simp
  | some up => by_cases hSame : u = t <;> simp [hSame, eq_comm]

/-- The level a call on a stream adds, and whether it is a crossing. -/
theorem crossings_call (hRecorded : Recorded r w) (a : StreamCall) (u : StreamId) :
    crossings ((w.call a).levels u) = crossings (w.levels u) ++
      if w.session.isFull u = (w.call a).session.isFull u then []
      else [(w.call a).session.isFull u] := by
  rw [← crossings_concat _ (hRecorded.current u)]
  cases a with
  | onStream t op => simp [Watched.levels, Watched.call]
  | unthrottleSources => simp [Watched.levels, Watched.call]

theorem getLast?_levels_call (w : Watched) (a : StreamCall) (u : StreamId) :
    ((w.call a).levels u).getLast? = some ((w.call a).session.isFull u) := by
  cases a with
  | onStream t op => simp [Watched.levels, Watched.call]
  | unthrottleSources => simp [Watched.levels, Watched.call]

/-- **A call that reports what it does to its stream** keeps the records true. -/
theorem Recorded.onStream (hRecorded : Recorded r w)
    (hTold : op.Drains (w.session.net.streams t) → op ≠ .popQueueHead) :
    Recorded r (w.call (.onStream t op)) := by
  have hCallback := callback_eq hTold
  have hLevels := isFull_onStream w t op
  have hRuntime : (w.call (.onStream t op)).session.runtime = w.session.runtime :=
    (streams_afterCall _ _ _ _).2
  refine ⟨hRuntime.trans hRecorded.runtime, fun n u => ?_, fun u => ?_,
    getLast?_levels_call w _⟩
  · have hMem : (n, u) ∈ (w.call (.onStream t op)).session.fullInputStreams ↔ _ := mem_afterCall
    rw [hMem, hLevels, hRecorded.runtime]
    by_cases hSame : u = t
    · subst hSame
      rw [if_pos rfl, hCallback, Function.update_self]
      have hBefore := hRecorded.records n u
      generalize hAfter : (op.apply (w.session.net.streams u)).isFull = after
      have hLevel : (w.session.net.streams u).isFull = w.session.isFull u := rfl
      rw [hLevel]
      generalize w.session.isFull u = before at hBefore
      cases before <;> cases after <;> simp_all
    · rw [if_neg hSame, Function.update_of_ne hSame]
      exact hRecorded.records n u
  · rw [callbacksOf_onStream, crossings_call hRecorded, hRecorded.told u, hLevels]
    congr 1
    by_cases hSame : u = t
    · subst hSame
      rw [if_pos rfl, hCallback, Function.update_self]
      have hLevel : (w.session.net.streams u).isFull = w.session.isFull u := rfl
      rw [hLevel]
      by_cases hStays : (op.apply (w.session.net.streams u)).isFull = w.session.isFull u
      · rw [if_pos hStays, if_pos hStays.symm]
        rfl
      · rw [if_neg hStays, if_neg (Ne.symm hStays)]
        rfl
    · rw [if_neg hSame, Function.update_of_ne hSame, if_pos rfl]

/-- Where nothing is recorded `UnthrottleSources` does nothing. -/
theorem unthrottleSources_of_nil (hNone : s.fullInputStreams = []) :
    s.unthrottleSources = s := by
  cases s
  simp_all [Session.unthrottleSources]

/-! ## Runs -/

/-- A call after which the mirror is true was one that the runtime heard of. -/
theorem keepsMirror_of_mirrored {a : StreamCall} (hInit : Runtime.Initialized c r)
    (hRecorded : Recorded r w) (hCovered : Covered r w.session.isFull)
    (hAfter : Mirrored r (w.call a)) : KeepsMirror r w a := by
  have hUntold : ∀ u, (w.call a).callbacksOf u = w.callbacksOf u →
      (w.call a).session.isFull u = w.session.isFull u := by
    intro u hNothing
    have hTold := hAfter.told u
    rw [hNothing, hRecorded.told u, crossings_call hRecorded] at hTold
    by_contra hCrossed
    rw [if_neg (Ne.symm hCrossed)] at hTold
    simp at hTold
  cases a with
  | onStream t op =>
      have hApply := isFull_apply (w.session.net.streams t) op
      have hLevels := isFull_onStream w t op
      have hTold : op.Drains (w.session.net.streams t) → op ≠ .popQueueHead := by
        rintro hDrains rfl
        have hSame := hUntold t (by simp [callbacksOf_onStream, Operation.callback])
        rw [hLevels, Function.update_self] at hSame
        have hFull : (w.session.net.streams t).isFull = true := isFull_of_atLimit hDrains
        exact (hApply.mp (hSame.trans hFull)).elim id fun hStays => hStays.2 hDrains
      have hCovers := (mirrored_iff_covered hInit (hRecorded.onStream hTold)).mp hAfter
      rw [hLevels] at hCovers
      refine ⟨fun hFills => ?_, fun hDrains => ⟨hTold hDrains, ?_⟩⟩
      · rw [hApply.mpr (Or.inl hFills)] at hCovers
        exact (covered_fills_iff hCovered).mp hCovers
      · have hRoom : (op.apply (w.session.net.streams t)).isFull = false := by
          rw [Bool.eq_false_iff, Ne, hApply]
          rintro (hFills | hStays)
          · exact not_fills_of_drains hDrains hFills
          · exact hStays.2 hDrains
        rw [hRoom] at hCovers
        exact (covered_drains_iff hCovered).mp hCovers
  | unthrottleSources =>
      intro t hArrives
      obtain ⟨n, hNode⟩ := Option.ne_none_iff_exists'.mp hArrives
      have hNone : (w.call .unthrottleSources).session.isNodeThrottled n = false := rfl
      rw [← hUntold t rfl, Bool.eq_false_iff]
      intro hFull
      have hThrottled := (hAfter.throttled n).mpr ⟨t, hNode, hFull⟩
      rw [hNone] at hThrottled
      cases hThrottled

/-- **Such a call** keeps the records true and the full streams covered. -/
theorem recorded_call {a : StreamCall} (hInit : Runtime.Initialized c r)
    (hRecorded : Recorded r w) (hCovered : Covered r w.session.isFull)
    (hKeeps : KeepsMirror r w a) :
    Recorded r (w.call a) ∧ Covered r (w.call a).session.isFull := by
  cases a with
  | onStream t op =>
      have hApply := isFull_apply (w.session.net.streams t) op
      refine ⟨hRecorded.onStream fun hDrains => (hKeeps.2 hDrains).1, ?_⟩
      rw [isFull_onStream]
      by_cases hFills : op.Fills (w.session.net.streams t)
      · rw [hApply.mpr (Or.inl hFills)]
        exact (covered_fills_iff hCovered).mpr (hKeeps.1 hFills)
      · by_cases hDrains : op.Drains (w.session.net.streams t)
        · have hRoom : (op.apply (w.session.net.streams t)).isFull = false := by
            rw [Bool.eq_false_iff, Ne, hApply]
            exact fun hFull => hFull.elim hFills fun hStays => hStays.2 hDrains
          rw [hRoom]
          exact (covered_drains_iff hCovered).mpr (hKeeps.2 hDrains).2
        · have hSame : (op.apply (w.session.net.streams t)).isFull = w.session.isFull t :=
            Bool.eq_iff_iff.mpr (hApply.trans (by simp [hFills, hDrains, Session.isFull]))
          rwa [hSame, Function.update_eq_self]
  | unthrottleSources =>
      have hNone : w.session.fullInputStreams = [] := by
        refine List.eq_nil_iff_forall_not_mem.mpr ?_
        rintro ⟨n, t⟩ hMem
        obtain ⟨hPort, hFull⟩ := (hRecorded.records n t).mp hMem
        have hNode := arrivalNode_of_portNode hInit hPort
        rw [hKeeps t (by simp [hNode])] at hFull
        cases hFull
      have hSession : (w.call .unthrottleSources).session = w.session :=
        unthrottleSources_of_nil hNone
      refine ⟨⟨hSession ▸ hRecorded.runtime, hSession ▸ hRecorded.records, fun u => ?_,
        getLast?_levels_call w _⟩, hSession ▸ hCovered⟩
      rw [crossings_call hRecorded, hSession, if_pos rfl, List.append_nil]
      exact hRecorded.told u

/-- A stream without packets is full only if its limit allows none. -/
theorem isFull_start (r : Runtime) (limits : StreamId → Int) (t : StreamId) :
    (Session.start r limits).isFull t = false ↔ limits t = -1 ∨ 0 < limits t := by
  rw [Bool.eq_false_iff, Ne, Session.isFull, isFull_iff]
  simp only [Session.start, InputStreamManager.setMaxQueueSize, List.length_nil, Nat.cast_zero]
  omega

theorem recorded_start {limits : StreamId → Int} (hInit : Runtime.Initialized c r)
    (hOpen : ∀ t, r.arrivalNode t ≠ none → limits t = -1 ∨ 0 < limits t) :
    Recorded r (Watched.start r limits) ∧ Covered r (Watched.start r limits).session.isFull := by
  have hRoom : ∀ n t, r.arrivalNode t = some n →
      (Watched.start r limits).session.isFull t = false := by
    intro n t hNode
    exact (isFull_start r limits t).mpr (hOpen t (by simp [hNode]))
  refine ⟨⟨rfl, fun n t => ?_, fun t => rfl, fun t => rfl⟩, ?_⟩
  · refine iff_of_false List.not_mem_nil ?_
    rintro ⟨hPort, hFull⟩
    rw [hRoom n t (arrivalNode_of_portNode hInit hPort)] at hFull
    cases hFull
  · rintro n ⟨t, hNode, hFull⟩
    rw [hRoom n t hNode] at hFull
    cases hFull

theorem limits_of_mirrored {limits : StreamId → Int}
    (hMirrored : Mirrored r (Watched.start r limits)) (t : StreamId)
    (hArrives : r.arrivalNode t ≠ none) : limits t = -1 ∨ 0 < limits t := by
  obtain ⟨n, hNode⟩ := Option.ne_none_iff_exists'.mp hArrives
  have hNone : (Watched.start r limits).session.isNodeThrottled n = false := rfl
  refine (isFull_start r limits t).mp (Bool.eq_false_iff.mpr fun hFull => ?_)
  have hThrottled := (hMirrored.throttled n).mpr ⟨t, hNode, hFull⟩
  rw [hNone] at hThrottled
  cases hThrottled

/-- **The throttle state mirrors the queues** all through a run if and only if no limit
shuts a stream from the start and the runtime hears of every call that matters. -/
theorem mirrored_iff {limits : StreamId → Int} {calls : List StreamCall}
    (hOk : initializeGraph registered c {} = .ok r) :
    (∀ pre, pre <+: calls → Mirrored r ((Watched.start r limits).after pre)) ↔
      (∀ t, r.arrivalNode t ≠ none → limits t = -1 ∨ 0 < limits t) ∧
        AllMeet Watched.call (KeepsMirror r) (Watched.start r limits) calls := by
  have hInit := initialized_of_eq_ok hOk
  have hRuns : (∀ t, r.arrivalNode t ≠ none → limits t = -1 ∨ 0 < limits t) →
      ((∀ pre, pre <+: calls → Mirrored r ((Watched.start r limits).after pre)) ↔
        AllMeet Watched.call (KeepsMirror r) (Watched.start r limits) calls) := by
    intro hOpen
    refine forall_prefix_iff (I := fun w => Recorded r w ∧ Covered r w.session.isFull)
      (recorded_start hInit hOpen) ?_ ?_ ?_
    · rintro w ⟨hRecorded, hCovered⟩
      exact (mirrored_iff_covered hInit hRecorded).mpr hCovered
    · rintro w a ⟨hRecorded, hCovered⟩
      exact keepsMirror_of_mirrored hInit hRecorded hCovered
    · rintro w a ⟨hRecorded, hCovered⟩
      exact recorded_call hInit hRecorded hCovered
  constructor
  · intro hAll
    have hOpen := limits_of_mirrored (hAll [] List.nil_prefix)
    exact ⟨hOpen, (hRuns hOpen).mp hAll⟩
  · rintro ⟨hOpen, hMeet⟩
    exact (hRuns hOpen).mpr hMeet

end

/-- What `Initialize` makes of the one edge of `framesConfig`. -/
theorem exists_frames :
    ∃ r, initializeGraph (fun _ => true) framesConfig {} = .ok r ∧ r.portNode 0 = some 0 ∧
      ∀ t n, r.arrivalNode t = some n ↔ t = 0 ∧ n = 0 := by
  obtain ⟨r, hOk⟩ := exists_eq_ok
    (e := initializeGraph (fun _ => true) framesConfig {}) (by decide +kernel)
  have hTest : ((initializeGraph (fun _ => true) framesConfig {}).toOption.map fun r =>
      (r.ownedStreamManagers, r.portNode 0)) = some ([⟨"in:frames", some 0⟩], some 0) := by
    decide +kernel
  rw [hOk] at hTest
  have hBoth := Option.some.inj hTest
  have hManagers : r.ownedStreamManagers = [⟨"in:frames", some 0⟩] := congrArg Prod.fst hBoth
  refine ⟨r, hOk, congrArg Prod.snd hBoth, fun t n => ?_⟩
  rw [Runtime.arrivalNode, hManagers]
  cases t with
  | zero => simp [eq_comm]
  | succ t => simp

/-- Fills a stream of limit 1. -/
def oneFrame : StreamCall :=
  .onStream 0 (.produce (.addPackets [⟨some 7, Timestamp.ofValue 1⟩]))

/-- A packet comes and is popped at its timestamp. -/
theorem mirrored_frames :
    ∃ r, initializeGraph (fun _ => true) framesConfig {} = .ok r ∧
      ∀ pre, pre <+: [oneFrame, .onStream 0 (.popPacketAtTimestamp (Timestamp.ofValue 1))] →
        Mirrored r ((Watched.start r fun _ => 1).after pre) := by
  obtain ⟨r, hOk, hPort, hArrives⟩ := exists_frames
  refine ⟨r, hOk, (mirrored_iff hOk).mpr ⟨fun t _ => Or.inr Int.one_pos, ?_, ?_, trivial⟩⟩
  · refine ⟨fun _ n hNode => Or.inl ?_, False.elim⟩
    rw [hPort, ((hArrives 0 n).mp hNode).2]
  · refine ⟨False.elim, fun _ => ⟨Operation.noConfusion, ?_⟩⟩
    rintro n - ⟨u, hOther, hNode, -⟩
    exact absurd ((hArrives u n).mp hNode).1 hOther

/-- The same with `PopQueueHead`: the stream has room again and its node stays throttled. -/
theorem mirrored_popQueueHead :
    ∃ r, initializeGraph (fun _ => true) framesConfig {} = .ok r ∧
      ¬ Mirrored r ((Watched.start r fun _ => 1).after [oneFrame, .onStream 0 .popQueueHead]) := by
  obtain ⟨r, hOk, hPort, hArrives⟩ := exists_frames
  refine ⟨r, hOk, fun hMirrored => ?_⟩
  have hFull : (0, 0) ∈ ((Watched.start r fun _ => 1).call oneFrame).session.fullInputStreams :=
    mem_afterCall.mpr (Or.inr hPort)
  have hThrottled : (((Watched.start r fun _ => 1).after
      [oneFrame, .onStream 0 .popQueueHead]).session.isNodeThrottled 0) = true :=
    List.any_eq_true.mpr ⟨(0, 0), hFull, rfl⟩
  obtain ⟨t, hNode, hStill⟩ := (hMirrored.throttled 0).mp hThrottled
  obtain ⟨rfl, -⟩ := (hArrives t 0).mp hNode
  have hQueue : ((Watched.start r fun _ => 1).call oneFrame).session.net.streams 0 =
      (Operation.produce (.addPackets [⟨some 7, Timestamp.ofValue 1⟩])).apply
        { maxQueueSize := 1 } := by
    simp only [Watched.call, oneFrame, (streams_afterCall _ _ _ _).1, Function.update_self]
    rfl
  have hRoom : ((Watched.start r fun _ => 1).after
      [oneFrame, .onStream 0 .popQueueHead]).session.isFull 0 = false := by
    show (((Watched.start r fun _ => 1).call oneFrame).call
      (.onStream 0 .popQueueHead)).session.isFull 0 = false
    rw [isFull_onStream, Function.update_self, hQueue]
    rfl
  rw [hRoom] at hStill
  cases hStill

end GraphRuntime.Public
