import GraphRuntime.Lib.Projection
import GraphRuntime.Scheduler.Delivery

/-!
# What a node writes in `Open`

The open loops of `Start` and `Schedule` hand `Open` a new shard set and drop it when
`Open` has returned: no `PrepareOutputs`, no `OutputStreamHandler::Open`.  The shards of
a new set have no `spec_`, so `SetOffset` and `SetHeader` write nothing either, in `Open`
and in every later call.

`introduction` is the machine of both paths with the rest of `OutputStreamSpec` (the
header and the lock), the calls of `SetOffset` and `SetHeader` as part of what a node
does in a call, and a record of the calls of `Open`.  It runs as `runtime` does
(`projects_introduction`).

* `stream_untouched`: until `Process` of a node returns, the consumers of its streams
  are as `Initialize` made them.
* `open_takes_effect_iff`: what `Open` wrote has its effect, in any state of any run, if
  and only if there was nothing to send and nothing to set.
-/

namespace GraphRuntime.Scheduler

open GraphRuntime.Stream Interleaving

variable {g : Graph}

/-! ## The machine -/

/-- The part of `OutputStreamSpec` that `SetOffset` and `SetHeader` write. -/
structure IntroData where
  offsetEnabled : Bool := false
  offset : TimestampDiff := ⟨0, zero_in_range⟩
  header : Packet := Packet.empty
deriving DecidableEq

inductive IntroWrite
  | setOffset (offset : TimestampDiff)
  | setHeader (packet : Packet)
deriving DecidableEq

def IntroWrite.apply (data : IntroData) : IntroWrite → IntroData
  | .setOffset offset => { data with offset, offsetEnabled := true }
  | .setHeader packet => { data with header := packet }

/-- What a call of `Open` wrote, to shards and through them. -/
structure OpenCall where
  node : NodeId
  writes : List (String × ShardWrite)
  intro : List (String × IntroWrite)

/-- What a node does in a call: its status and its writes, and the calls of `SetOffset`
and `SetHeader` by port. -/
structure NodeChoice where
  choice : Choice
  intro : List (String × IntroWrite) := []

structure Introduction where
  shared : Shared
  /-- `spec_.header` of each manager. -/
  header : OutId → Packet
  /-- `spec_.locked_intro_data` of each manager. -/
  lockedIntroData : OutId → Bool
  /-- The calls of `Open` that have returned. -/
  opens : List OpenCall

namespace Introduction

def data (st : Introduction) (o : OutId) : IntroData where
  offsetEnabled := (st.shared.net.outputs o).spec.offsetEnabled
  offset := (st.shared.net.outputs o).spec.offset
  header := st.header o

def setData (st : Introduction) (o : OutId) (data : IntroData) : Introduction :=
  let m := st.shared.net.outputs o
  { st with
    shared := st.shared.setOutput o
      { m with spec := { m.spec with offsetEnabled := data.offsetEnabled, offset := data.offset } }
    header := Function.update st.header o data.header }

/-- `SetOffset` and `SetHeader` of a shard with the given `spec_`. -/
def write (st : Introduction) (spec : Option OutId) (w : IntroWrite) : Introduction :=
  match spec with
  | none => st
  | some o => if st.lockedIntroData o then st else st.setData o (w.apply (st.data o))

end Introduction

/-- `spec_` of the shards of a new `OutputStreamShardSet`: `Get` constructs them with no
argument. -/
def newShardSpec (_port : String) : Option OutId := none

/-- All the calls a node makes while it is called. -/
def Introduction.writeAll (st : Introduction) : List (String × IntroWrite) → Introduction
  | [] => st
  | (port, w) :: rest => (st.write (newShardSpec port) w).writeAll rest

/-- The steps in which a node is called and returns. -/
def RuntimeFrame.callsNode : RuntimeFrame → Bool
  | .async (.run _ .callOpen) | .async (.run _ .inProcess)
  | .async (.start (.openNodes (_ :: _))) => true
  | .schedule (.openNodes (_ :: _)) | .schedule (.process _ _ _)
  | .schedule (.processDownstream _ _ _ _) => true
  | _ => false

/-- The call of `Open` that returns in a step of one of the two open loops. -/
def RuntimeFrame.openCall : RuntimeFrame → NodeChoice → Option OpenCall
  | .async (.start (.openNodes (n :: _))), ⟨.returns _ writes, intro⟩
  | .schedule (.openNodes (n :: _)), ⟨.returns _ writes, intro⟩ => some ⟨n, writes, intro⟩
  | _, _ => none

def introductionExec (g : Graph) (st : Introduction) (f : RuntimeFrame) (x : NodeChoice) :
    Option (Introduction × List RuntimeFrame) :=
  match runtimeExec g st.shared f x.choice with
  | none => none
  | some (s', fs) =>
      let st' := { st with shared := s', opens := st.opens ++ (f.openCall x).toList }
      some (if f.callsNode then st'.writeAll x.intro else st', fs)

def introductionSpawn (g : Graph) (st : Introduction) (b : Call) :
    Option (Introduction × List RuntimeFrame) :=
  match runtimeSpawn g st.shared b with
  | none => none
  | some (s', fs) => some ({ st with shared := s' }, fs)

def introduction (g : Graph) : Machine Introduction RuntimeFrame NodeChoice Call :=
  ⟨introductionExec g, introductionSpawn g⟩

/-- A run of the graph by one of the two calls, no header set and no spec locked. -/
def introduced (e : Entry) (s : Shared) : Config Introduction RuntimeFrame :=
  ⟨⟨s, fun _ => Packet.empty, fun _ => false, []⟩, [[e.frame]]⟩

/-- No shard has a spec, so nothing is written. -/
theorem writeAll_eq (st : Introduction) (intro : List (String × IntroWrite)) :
    st.writeAll intro = st := by
  induction intro with
  | nil => rfl
  | cons w rest ih => exact ih

theorem introductionExec_eq {st st' : Introduction} {f : RuntimeFrame} {x : NodeChoice}
    {fs : List RuntimeFrame} (hStep : introductionExec g st f x = some (st', fs)) :
    ∃ s', runtimeExec g st.shared f x.choice = some (s', fs) ∧
      st' = { st with shared := s', opens := st.opens ++ (f.openCall x).toList } := by
  simp only [introductionExec] at hStep
  split at hStep
  · exact absurd hStep (by simp)
  · rename_i s' fs' hExec
    rw [writeAll_eq, ite_self] at hStep
    obtain ⟨rfl, rfl⟩ := Prod.mk.inj (Option.some.inj hStep)
    exact ⟨s', hExec, rfl⟩

/-- Headers, locks and the record aside, it is the machine of both paths. -/
theorem projects_introduction :
    Projects (introduction g) (runtime g) Introduction.shared NodeChoice.choice where
  exec := by
    intro st f x st' fs hStep
    obtain ⟨s', hExec, rfl⟩ := introductionExec_eq hStep
    exact hExec
  spawn := by
    intro st b st' fs hStep
    simp only [introduction, introductionSpawn] at hStep
    split at hStep
    · exact absurd hStep (by simp)
    · rename_i s' fs' hSpawn
      cases hStep
      exact hSpawn

/-! ## Until `Process` returns, nothing is sent -/

section

variable {outputs : OutId → OutputStreamManager} {n : NodeId} {o : OutId} {t : StreamId}
  {s s' : Shared} {f : Frame} {fs : List Frame} {x : Choice} {log log' : List Event}

/-- The input managers behind the mirrors of a manager. -/
def consumers (g : Graph) (outputs : OutId → OutputStreamManager) (o : OutId) :
    List StreamId := (outputs o).mirrors.filterMap (Mirror.resolve g.routes)

/-- A stream as `Initialize` makes it: its manager is one node's, no graph input, the
only one with a mirror into its consumers, and has no offset yet. -/
structure Feeds (g : Graph) (outputs : OutId → OutputStreamManager) (n : NodeId)
    (o : OutId) : Prop where
  owner : ∀ m, o ∈ g.outputs m → m = n
  inner : ∀ name, g.graphInputs.lookup name ≠ some o
  alone : ∀ o' t, t ∈ consumers g outputs o → t ∈ consumers g outputs o' → o' = o
  offsetEnabled : (outputs o).spec.offsetEnabled = false
  offset : (outputs o).spec.offset = (IntroData.offset {})

def Returned (n : NodeId) (log : List Event) : Prop :=
  ∃ status, .processReturned n status ∈ log

theorem Returned.mono (hReturned : Returned n log) (hPrefix : log <+: log') :
    Returned n log' :=
  hReturned.imp fun _ hMem => hPrefix.subset hMem

/-- Places of a `RunNode` call after `Process` has returned. -/
def RunPc.hasReturned : RunPc → Bool
  | .popInputs _ | .callOpen | .prepareOutputs _ | .inProcess => false
  | _ => true

theorem hasReturned_of_outputsLeft {pc : RunPc} (hMem : o ∈ pc.outputsLeft) :
    pc.hasReturned = true := by
  cases pc with
  | postProcess rest status => rfl
  | closeOutputs rest stopped => rfl
  | _ => exact absurd hMem List.not_mem_nil

theorem runStep_hasReturned {r r' : Invocation} {pc pc' : RunPc}
    {u : Turn (Invocation × RunPc)} (hTurn : runStep g s r x pc = some u)
    (hNext : u.next = some (r', pc')) (hHas : pc'.hasReturned = true) :
    pc.hasReturned = true ∨ Returned r.node u.state.log := by
  revert hTurn
  fun_cases runStep g s r x pc
  all_goals intro hTurn; cases hTurn
  all_goals cases hNext
  case case9.refl.refl =>
    exact Or.inr ⟨_, List.mem_append_right _ List.mem_cons_self⟩
  all_goals first
    | exact Or.inl rfl
    | exact absurd hHas Bool.false_ne_true

/-- What the frames hold as long as `Process` of node `n` has not returned: nothing that
goes to the consumers of `o`. -/
def Withholds (g : Graph) (outputs : OutId → OutputStreamManager) (n : NodeId) (o : OutId)
    (log : List Event) : RuntimeFrame → Prop
  | .async (.run r pc) =>
      (∀ o' ∈ pc.outputsLeft, o' ∈ g.outputs r.node) ∧
        (pc.hasReturned = true → Returned r.node log)
  | .async (.propagate p) | .async (.propagateBound p) =>
      Returned n log ∨ ∀ t ∈ consumers g outputs o, t ∉ p.targets g.routes
  | .async (.closeManager o') => Returned n log ∨ o' ≠ o
  | .async (.api (.injectPacket o' _)) => o' ≠ o
  | .schedule (.postProcess r outs _ _ _) =>
      (∀ o' ∈ outs, o' ∈ g.outputs r.node) ∧ Returned r.node log
  | _ => True

theorem Withholds.mono {f : RuntimeFrame} (hHolds : Withholds g outputs n o log f)
    (hPrefix : log <+: log') : Withholds g outputs n o log' f := by
  unfold Withholds at hHolds ⊢
  split
  · exact ⟨hHolds.1, fun hHas => (hHolds.2 hHas).mono hPrefix⟩
  · exact hHolds.imp_left (·.mono hPrefix)
  · exact hHolds.imp_left (·.mono hPrefix)
  · exact hHolds.imp_left (·.mono hPrefix)
  · exact hHolds
  · exact ⟨hHolds.1, hHolds.2.mono hPrefix⟩
  · trivial

/-- A propagation to another manager's mirrors, or after `Process` has returned. -/
theorem withholds_targets (hFeeds : Feeds g outputs n o) {o' : OutId} {p : Propagation}
    (hMirrors : p.mirrors = (outputs o').mirrors) (hOther : Returned n log ∨ o' ≠ o) :
    Returned n log ∨ ∀ t ∈ consumers g outputs o, t ∉ p.targets g.routes := by
  refine hOther.imp_right fun hNe t hConsumer hTarget => hNe (hFeeds.alone o' t hConsumer ?_)
  rw [Propagation.targets, hMirrors] at hTarget
  exact hTarget

/-- The manager is another one, unless its node has returned from `Process`. -/
theorem withholds_manager (hFeeds : Feeds g outputs n o) {m : NodeId} {o' : OutId}
    (hMem : o' ∈ g.outputs m) (hReturned : Returned m log) : Returned n log ∨ o' ≠ o := by
  by_cases hEq : o' = o
  · rw [hEq] at hMem
    exact Or.inl (hFeeds.owner m hMem ▸ hReturned)
  · exact Or.inr hEq

/-- Who closes a manager: the `RunNode` call of its node, and `CloseInputStream` for a
graph input. -/
theorem exec_closeManager {o' : OutId} (hStep : exec g s f x = some (s', fs))
    (hMem : .closeManager o' ∈ fs) :
    (∃ r pc, f = .run r pc ∧ o' ∈ pc.outputsLeft) ∨
      ∃ name, g.graphInputs.lookup name = some o' := by
  have hLeaves := exec_leaves hStep _ hMem
  cases f with
  | run r pc =>
      obtain ⟨u, hTurn, rfl, rfl⟩ := exec_run hStep
      have hCall : .closeManager o' ∈ u.calls := by simpa using hMem
      have hSchedule : ∀ m, .closeManager o' ∉ (scheduleNode g s m).2 := fun m hIn =>
        absurd (scheduleNode_frames hIn) (by simp)
      refine Or.inl ⟨r, pc, rfl, ?_⟩
      revert hTurn hCall
      fun_cases runStep g s r x pc
      all_goals intro hTurn hCall; cases hTurn
      case case11.refl =>
        simp only [propagateThen, List.mem_cons, reduceCtorEq, false_or] at hCall
        split at hCall
        · rw [Frame.closeManager.inj (List.mem_singleton.mp hCall)]
          exact List.mem_cons_self
        · exact absurd hCall List.not_mem_nil
      case case13.refl =>
        simp only [propagateThen, List.mem_cons, reduceCtorEq, Frame.closeManager.injEq,
          List.not_mem_nil, or_false, false_or] at hCall
        rw [hCall]
        exact List.mem_cons_self
      all_goals first
        | exact absurd hCall (hSchedule _)
        | exact absurd hCall List.not_mem_nil
        | exact absurd hCall (by
            unfold sourceStoppedCallback idleCallback
            repeat' split
            all_goals simp)
        | exact absurd hCall (by
            unfold errorCallback
            split <;> simp)
  | api pc =>
      obtain ⟨u, hTurn, rfl, rfl⟩ := exec_api hStep
      have hCall : .closeManager o' ∈ u.calls := by simpa using hMem
      right
      revert hTurn hCall
      fun_cases apiStep g s pc
      case case6 stream o'' hLookup =>
        intro hTurn hCall
        cases hTurn
        refine ⟨stream, ?_⟩
        split at hCall
        · exact absurd hCall List.not_mem_nil
        · rw [Frame.closeManager.inj (List.mem_singleton.mp hCall)]
          exact hLookup
      all_goals intro hTurn hCall; cases hTurn
      all_goals try split at hCall
      all_goals exact absurd hCall (by simp [propagateThen])
  | _ => exact False.elim hLeaves

/-- A call of `RunNode` that goes on. -/
theorem run_withholds {r r' : Invocation} {pc pc' : RunPc} {u : Turn (Invocation × RunPc)}
    (hHolds : Withholds g outputs n o s.log (.async (.run r pc)))
    (hPrefix : s.log <+: u.state.log) (hTurn : runStep g s r x pc = some u)
    (hNext : u.next = some (r', pc')) :
    Withholds g outputs n o u.state.log (.async (.run r' pc')) := by
  obtain ⟨hOutputs, hReturned⟩ := hHolds
  obtain ⟨-, hNode, -⟩ := runStep_next hTurn hNext
  refine ⟨fun o' hLeft => ?_, fun hHas => ?_⟩
  · rcases runStep_outputsLeft hTurn hNext hLeft with hOld | hNew
    · exact hNode ▸ hOutputs o' hOld
    · exact hNew
  · rw [hNode]
    rcases runStep_hasReturned hTurn hNext hHas with hOld | hNew
    · exact (hReturned hOld).mono hPrefix
    · exact hNew

/-- The frames a step of the asynchronous path leaves. -/
theorem exec_withholds (hFeeds : Feeds g outputs n o)
    (hMirrors : ∀ o, (s.net.outputs o).mirrors = (outputs o).mirrors)
    (hHolds : Withholds g outputs n o s.log (.async f))
    (hStep : exec g s f x = some (s', fs)) :
    ∀ f' ∈ fs, Withholds g outputs n o s'.log (.async f') := by
  have hPrefix : s.log <+: s'.log := (exec_log hStep).isPrefix
  have hRun : ∀ r pc o', f = .run r pc → o' ∈ pc.outputsLeft →
      Returned n s'.log ∨ o' ≠ o := by
    rintro r pc o' rfl hLeft
    obtain ⟨hOutputs, hReturned⟩ := hHolds
    exact withholds_manager hFeeds (hOutputs o' hLeft)
      ((hReturned (hasReturned_of_outputsLeft hLeft)).mono hPrefix)
  have hFlight : ∀ p, InFlight p fs →
      Returned n s'.log ∨ ∀ t ∈ consumers g outputs o, t ∉ p.targets g.routes := by
    intro p hIn
    cases exec_sent hStep hIn with
    | onward p₀ hSub hPackets f hFrame =>
        have hBefore : Returned n s.log ∨
            ∀ t ∈ consumers g outputs o, t ∉ p₀.targets g.routes := by
          rcases hFrame with rfl | rfl
          · exact hHolds
          · exact hHolds
        exact hBefore.imp (·.mono hPrefix) fun hNot t hConsumer hTarget =>
          hNot t hConsumer (List.filterMap_subset _ hSub hTarget)
    | shard r pc o' hLeft hEq _ =>
        exact withholds_targets hFeeds (hEq.trans (hMirrors o')) (hRun r pc o' rfl hLeft)
    | closed o' hEq _ =>
        have hOther : Returned n s.log ∨ o' ≠ o := hHolds
        exact withholds_targets hFeeds (hEq.trans (hMirrors o'))
          (hOther.imp_left (·.mono hPrefix))
    | injected o' packet hEq =>
        have hOther : o' ≠ o := hHolds
        exact withholds_targets hFeeds (hEq.trans (hMirrors o')) (Or.inr hOther)
  intro f' hMem
  cases f' with
  | run r pc =>
      rcases run_of_exec hStep hMem with
        ⟨r₀, pc₀, u, rfl, hTurn, rfl, hNext⟩ | ⟨q, it, queue, rfl, -, rfl, rfl, rfl⟩
      · exact run_withholds hHolds hPrefix hTurn hNext
      · exact ⟨fun o' hLeft => absurd hLeft List.not_mem_nil,
          fun hHas => absurd hHas (by simp [RunPc.hasReturned])⟩
  | propagate p => exact hFlight p (Or.inl hMem)
  | propagateBound p => exact hFlight p (Or.inr hMem)
  | closeManager o' =>
      rcases exec_closeManager hStep hMem with ⟨r, pc, hFrame, hLeft⟩ | ⟨name, hLookup⟩
      · exact hRun r pc o' hFrame hLeft
      · exact Or.inr fun hEq => hFeeds.inner name (hEq ▸ hLookup)
  | api pc =>
      cases pc with
      | injectPacket o' packet =>
          obtain ⟨name, hLookup⟩ := inject_of_exec hStep hMem
          exact fun hEq => hFeeds.inner name (hEq ▸ hLookup)
      | _ => trivial
  | _ => trivial

theorem scheduleStep_log {pc : SchedulePc} {u : Turn SchedulePc}
    (hTurn : scheduleStep g s x pc = some u) : s.log <+: u.state.log := by
  revert hTurn
  fun_cases scheduleStep g s x pc
  all_goals intro hTurn; cases hTurn
  all_goals repeat' split
  all_goals first
    | exact List.prefix_refl _
    | exact List.prefix_append _ _

/-- What `Schedule` sends goes to a manager of the source it has called. -/
theorem scheduleStep_sent {pc : SchedulePc} {u : Turn SchedulePc}
    (hTurn : scheduleStep g s x pc = some u) {f' : Frame} (hMem : f' ∈ u.calls)
    (hSends : (∃ p, f' = .propagate p) ∨ ∃ o', f' = .closeManager o') :
    ∃ r o' outs count rest stopped, pc = .postProcess r (o' :: outs) count rest stopped ∧
      ((∃ p, f' = .propagate p ∧ p.mirrors = (s.net.outputs o').mirrors) ∨
        f' = .closeManager o') := by
  have hOther : (∀ p, f' ≠ .propagate p) → (∀ o', f' ≠ .closeManager o') → False :=
    fun hNoSend hNoClose => hSends.elim (fun ⟨p, hEq⟩ => hNoSend p hEq)
      fun ⟨o', hEq⟩ => hNoClose o' hEq
  revert hTurn hMem
  fun_cases scheduleStep g s x pc
  all_goals intro hTurn hMem; cases hTurn
  case case16.refl =>
    refine ⟨_, _, _, _, _, _, rfl, ?_⟩
    simp only [propagateThen, List.mem_cons] at hMem
    rcases hMem with rfl | hClose
    · exact Or.inl ⟨_, rfl, rfl⟩
    · split at hClose
      · exact Or.inr (List.mem_singleton.mp hClose)
      · exact absurd hClose List.not_mem_nil
  all_goals try split at hMem
  all_goals try split at hMem
  all_goals first
    | exact absurd hMem List.not_mem_nil
    | (rw [List.mem_singleton.mp hMem] at hOther
       exact (hOther (fun _ => Frame.noConfusion) fun _ => Frame.noConfusion).elim)

/-- Where `Schedule` goes on propagating: the outputs of a source that has returned. -/
theorem scheduleStep_postProcess {pc : SchedulePc} {u : Turn SchedulePc} {r : Invocation}
    {outs : List OutId} {count : Int} {rest : List NodeId} {stopped : Bool}
    (hTurn : scheduleStep g s x pc = some u)
    (hNext : u.next = some (.postProcess r outs count rest stopped)) :
    (∃ r₀ o', pc = .postProcess r₀ (o' :: outs) count rest stopped ∧ r.node = r₀.node) ∨
      (outs = g.outputs r.node ∧ Returned r.node u.state.log) := by
  revert hTurn hNext
  fun_cases scheduleStep g s x pc
  all_goals intro hTurn hNext; cases hTurn
  case case13.refl =>
    split at hNext
    · cases hNext
    · rename_i status writes _ _ hNoError
      obtain ⟨hInvocation, hOuts, -⟩ := SchedulePc.postProcess.inj (Option.some.inj hNext)
      right
      rw [← hInvocation, ← hOuts, if_neg hNoError]
      exact ⟨rfl, status, List.mem_append_right _ List.mem_cons_self⟩
  case case15.refl | case16.refl =>
    cases hNext
    exact Or.inl ⟨_, _, rfl, rfl⟩
  all_goals try split at hNext
  all_goals try split at hNext
  all_goals cases hNext

/-- The frames a step of `Schedule` leaves. -/
theorem schedule_withholds (hFeeds : Feeds g outputs n o) {pc : SchedulePc}
    {u : Turn SchedulePc} (hMirrors : ∀ o, (s.net.outputs o).mirrors = (outputs o).mirrors)
    (hHolds : Withholds g outputs n o s.log (.schedule pc))
    (hTurn : scheduleStep g s x pc = some u) :
    (∀ f' ∈ u.calls, Withholds g outputs n o u.state.log (.async f')) ∧
      ∀ pc', u.next = some pc' → Withholds g outputs n o u.state.log (.schedule pc') := by
  have hPrefix := scheduleStep_log hTurn
  have hSource : ∀ r o' outs count rest stopped,
      pc = .postProcess r (o' :: outs) count rest stopped → Returned n u.state.log ∨ o' ≠ o := by
    rintro r o' outs count rest stopped rfl
    obtain ⟨hOutputs, hReturned⟩ := hHolds
    exact withholds_manager hFeeds (hOutputs o' List.mem_cons_self) (hReturned.mono hPrefix)
  constructor
  · intro f' hMem
    have hScheduled := scheduleStep_calls hTurn f' hMem
    cases f' with
    | propagate p =>
        obtain ⟨r, o', outs, count, rest, stopped, hPc, hSent | hClose⟩ :=
          scheduleStep_sent hTurn hMem (Or.inl ⟨p, rfl⟩)
        · obtain ⟨p', hEq, hSame⟩ := hSent
          cases hEq
          exact withholds_targets hFeeds (hSame.trans (hMirrors o'))
            (hSource r o' outs count rest stopped hPc)
        · cases hClose
    | closeManager o'' =>
        obtain ⟨r, o', outs, count, rest, stopped, hPc, hSent | hClose⟩ :=
          scheduleStep_sent hTurn hMem (Or.inr ⟨o'', rfl⟩)
        · obtain ⟨p', hEq, -⟩ := hSent
          cases hEq
        · cases hClose
          exact hSource r _ outs count rest stopped hPc
    | userError status => trivial
    | notifyAll => trivial
    | _ => exact absurd hScheduled Bool.false_ne_true
  · intro pc' hNext
    cases pc' with
    | postProcess r outs count rest stopped =>
        rcases scheduleStep_postProcess hTurn hNext with ⟨r₀, o', rfl, hNode⟩ | ⟨hOuts, hReturned⟩
        · obtain ⟨hOutputs, hReturned⟩ := hHolds
          exact ⟨fun o'' hMem => hNode ▸ hOutputs o'' (List.mem_cons_of_mem _ hMem),
            hNode ▸ hReturned.mono hPrefix⟩
        · exact ⟨fun o'' hMem => hOuts ▸ hMem, hReturned⟩
    | _ => trivial

/-- As long as `Process` of node `n` has not returned, the consumers of `o` are as
`Initialize` made them. -/
structure Untouched (g : Graph) (outputs : OutId → OutputStreamManager) (n : NodeId)
    (o : OutId) (s : Shared) (fs : List RuntimeFrame) : Prop where
  mirrors : ∀ o, (s.net.outputs o).mirrors = (outputs o).mirrors
  streams : Returned n s.log ∨ ∀ t ∈ consumers g outputs o, s.stream t = {}
  frames : ∀ f ∈ fs, Withholds g outputs n o s.log f

/-- No step changes the mirrors or the offsets. -/
theorem scheduleStep_wiring {pc : SchedulePc} {u : Turn SchedulePc}
    (hTurn : scheduleStep g s x pc = some u) : SameWiring s u.state := by
  revert hTurn
  fun_cases scheduleStep g s x pc
  all_goals intro hTurn; cases hTurn
  all_goals repeat' split
  all_goals first
    | exact .of_outputs rfl
    | exact sameWiring_propagateThen

theorem runtimeExec_wiring {f : RuntimeFrame} {fs : List RuntimeFrame}
    (hStep : runtimeExec g s f x = some (s', fs)) : SameWiring s s' := by
  rcases runtimeExec_cases hStep with ⟨f₀, fs₀, -, hExec, -⟩ | ⟨pc, u, -, hTurn, rfl, -⟩
  · exact exec_wiring hExec
  · exact scheduleStep_wiring hTurn

/-- A stream stays as it was while nothing is sent to it. -/
theorem Untouched.exec_stream {A B : List RuntimeFrame}
    (h : Untouched g outputs n o s (A ++ .async f :: B)) (hStep : exec g s f x = some (s', fs)) :
    Returned n s'.log ∨ ∀ t ∈ consumers g outputs o, s'.stream t = {} := by
  have hPrefix : s.log <+: s'.log := (exec_log hStep).isPrefix
  have hHolds := h.frames _ mem_running
  rcases h.streams with hReturned | hFresh
  · exact Or.inl (hReturned.mono hPrefix)
  · by_cases hNow : Returned n s.log
    · exact Or.inl (hNow.mono hPrefix)
    · refine Or.inr fun t hConsumer => ?_
      have hTarget : ∀ p : Propagation, target g p = some t → t ∈ p.targets g.routes := by
        intro p hEq
        obtain ⟨mirror, hHead, hResolve⟩ := Option.bind_eq_some_iff.mp hEq
        exact List.mem_filterMap.mpr ⟨mirror, List.mem_of_head? hHead, hResolve⟩
      have hChange := Scheduler.exec_stream t hStep
      generalize s'.stream t = m at hChange ⊢
      cases hChange with
      | same => exact hFresh t hConsumer
      | popped r port rest => rw [hFresh t hConsumer]; rfl
      | added p fs hEq _ _ =>
          exact absurd (hTarget p hEq) (hHolds.resolve_left hNow t hConsumer)
      | bounded p fs hEq _ =>
          exact absurd (hTarget p hEq) (hHolds.resolve_left hNow t hConsumer)

theorem Untouched.exec {A B fs : List RuntimeFrame} {f : RuntimeFrame}
    (hUntouched : Untouched g outputs n o s (A ++ f :: B)) (hFeeds : Feeds g outputs n o)
    (hStep : runtimeExec g s f x = some (s', fs)) :
    Untouched g outputs n o s' (A ++ (fs ++ B)) := by
  have hWiring := runtimeExec_wiring hStep
  have hMirrors : ∀ o, (s'.net.outputs o).mirrors = (outputs o).mirrors :=
    fun o => (hWiring o).1.trans (hUntouched.mirrors o)
  rcases runtimeExec_cases hStep with
    ⟨f, fs, rfl, hExec, rfl⟩ | ⟨pc, u, rfl, hTurn, rfl, rfl⟩
  · have hPrefix : s.log <+: s'.log := (exec_log hExec).isPrefix
    refine ⟨hMirrors, hUntouched.exec_stream hExec, fun f' hMem => ?_⟩
    rcases mem_new_or_others hMem with hNew | hOther
    · obtain ⟨f', hIn, rfl⟩ := List.mem_map.mp hNew
      exact exec_withholds hFeeds hUntouched.mirrors (hUntouched.frames _ mem_running)
        hExec f' hIn
    · exact (hUntouched.frames f' (mem_of_others hOther)).mono hPrefix
  · have hPrefix := scheduleStep_log hTurn
    obtain ⟨_, _, _, _, _, _, hState⟩ := scheduleStep_frame hTurn
    obtain ⟨hCalls, hNext⟩ := schedule_withholds hFeeds hUntouched.mirrors
      (hUntouched.frames _ mem_running) hTurn
    refine ⟨hMirrors, ?_, fun f' hMem => ?_⟩
    · refine hUntouched.streams.imp (·.mono hPrefix) fun hFresh t hConsumer => ?_
      rw [hState]
      exact hFresh t hConsumer
    · rcases mem_new_or_others hMem with hNew | hOther
      · rcases List.mem_append.mp hNew with hCall | hSelf
        · obtain ⟨f', hIn, rfl⟩ := List.mem_map.mp hCall
          exact hCalls f' hIn
        · rw [Option.mem_toList] at hSelf
          obtain ⟨pc', hPc, rfl⟩ := Option.map_eq_some_iff.mp hSelf
          exact hNext pc' hPc
      · exact (hUntouched.frames f' (mem_of_others hOther)).mono hPrefix

theorem Untouched.spawn {A fs : List RuntimeFrame} {b : Call}
    (hUntouched : Untouched g outputs n o s A) (hSpawn : runtimeSpawn g s b = some (s', fs)) :
    Untouched g outputs n o s' (A ++ fs) := by
  obtain ⟨⟨s₁, fs₁⟩, hCall, hOut⟩ := Option.map_eq_some_iff.mp hSpawn
  cases hOut
  rcases spawn_cases hCall with ⟨q, -, -, rfl, rfl⟩ | ⟨rfl, pc, rfl, hPc⟩
  · refine ⟨hUntouched.mirrors, hUntouched.streams, fun f' hMem => ?_⟩
    rcases List.mem_append.mp hMem with hOld | hNew
    · exact hUntouched.frames f' hOld
    · obtain rfl := List.mem_singleton.mp hNew
      trivial
  · refine ⟨hUntouched.mirrors, hUntouched.streams, fun f' hMem => ?_⟩
    rcases List.mem_append.mp hMem with hOld | hNew
    · exact hUntouched.frames f' hOld
    · obtain rfl := List.mem_singleton.mp hNew
      rcases hPc with ⟨_, _, -, rfl⟩ | ⟨_, -, rfl⟩ | ⟨-, rfl⟩ | ⟨-, rfl⟩ | ⟨-, rfl⟩ |
        ⟨-, rfl⟩ | ⟨-, rfl⟩ | ⟨-, rfl⟩
      all_goals trivial

theorem untouched_of_reaches (hFeeds : Feeds g outputs n o)
    {G : Guard Shared RuntimeFrame Choice Call} {defaultQueue : QueueId} {errorCallback : Bool}
    {e : Entry} {c : Config Shared RuntimeFrame}
    (hReach : (runtime g).Reaches G
      (launched e (initial outputs defaultQueue errorCallback)) c) :
    Untouched g outputs n o c.shared c.frames := by
  refine Machine.invariant (I := Untouched g outputs n o) ?_ ?_ ?_ hReach
  · refine ⟨fun _ => rfl, Or.inr fun _ _ => rfl, fun f hMem => ?_⟩
    cases e <;> (obtain rfl := List.mem_singleton.mp hMem; trivial)
  · intro s A f B x s' fs hUntouched _ hStep
    exact hUntouched.exec hFeeds hStep
  · intro s A b s' fs hUntouched _ hSpawn
    exact hUntouched.spawn hSpawn

/-- **Until `Process` returns**, the consumers of a node's streams have been sent
nothing. -/
theorem stream_untouched (hFeeds : Feeds g outputs n o)
    {G : Guard Shared RuntimeFrame Choice Call} {defaultQueue : QueueId} {errorCallback : Bool}
    {e : Entry} {c : Config Shared RuntimeFrame}
    (hReach : (runtime g).Reaches G
      (launched e (initial outputs defaultQueue errorCallback)) c)
    (hNone : ¬ Returned n c.shared.log) : ∀ t ∈ consumers g outputs o, c.shared.stream t = {} :=
  (untouched_of_reaches hFeeds hReach).streams.resolve_left hNone

end

/-! ## Offsets and headers -/

/-- No step writes an offset or a header. -/
theorem introductionExec_data {st st' : Introduction} {f : RuntimeFrame} {x : NodeChoice}
    {fs : List RuntimeFrame} (hStep : introductionExec g st f x = some (st', fs)) (o : OutId) :
    st'.data o = st.data o := by
  obtain ⟨s', hExec, rfl⟩ := introductionExec_eq hStep
  obtain ⟨-, hSpec⟩ := runtimeExec_wiring hExec o
  simp only [Introduction.data, hSpec]

theorem data_of_reaches {outputs : OutId → OutputStreamManager} {n : NodeId} {o : OutId}
    (hFeeds : Feeds g outputs n o) {G : Guard Introduction RuntimeFrame NodeChoice Call}
    {defaultQueue : QueueId} {errorCallback : Bool} {e : Entry}
    {c : Config Introduction RuntimeFrame}
    (hReach : (introduction g).Reaches G
      (introduced e (initial outputs defaultQueue errorCallback)) c) :
    c.shared.data o = {} := by
  refine Machine.invariant (I := fun st _ => st.data o = {}) ?_ ?_ ?_ hReach
  · show (⟨_, _, _⟩ : IntroData) = {}
    rw [IntroData.mk.injEq]
    exact ⟨hFeeds.offsetEnabled, hFeeds.offset, rfl⟩
  · intro st A f B x st' fs hData _ hStep
    exact (introductionExec_data hStep o).trans hData
  · intro st A b st' fs hData _ hSpawn
    have hShared := projects_introduction.spawn hSpawn
    obtain ⟨⟨s₁, fs₁⟩, hCall, hOut⟩ := Option.map_eq_some_iff.mp hShared
    have hNet : st'.shared.net = st.shared.net := by
      rw [← (Prod.mk.inj hOut).1]
      rcases spawn_cases hCall with ⟨q, -, -, hState, -⟩ | ⟨hState, -⟩
      · rw [hState]
      · rw [hState]
    have hHeader : st'.header = st.header := by
      simp only [introduction, introductionSpawn] at hSpawn
      split at hSpawn
      · exact absurd hSpawn (by simp)
      · cases hSpawn
        rfl
    rw [← hData]
    simp only [Introduction.data, hNet, hHeader]

/-! ## What `Open` would have had to do -/

/-- The shard behind a port when `Open` has returned. -/
def OpenCall.shard (call : OpenCall) (port : String) : OutputStreamShard :=
  applyWrites (fun _ => {}) call.writes port

/-- The calls of `SetOffset` and `SetHeader` on the shard of a port. -/
def OpenCall.introWrites (call : OpenCall) (port : String) : List IntroWrite :=
  call.intro.filterMap fun w => if w.1 = port then some w.2 else none

/-- The packet of the last call of `SetHeader`, if there was one. -/
def lastHeader (writes : List IntroWrite) : Option Packet :=
  (writes.filterMap fun w =>
    match w with
    | .setOffset _ => none
    | .setHeader packet => some packet).getLast?

/-- An input manager has been sent the packets of the shard, each once, and its bound. -/
structure HasShard (shard : OutputStreamShard) (m : InputStreamManager) : Prop where
  count : m.numPacketsAdded = shard.outputQueue.length
  queue : m.queue <:+ shard.outputQueue
  bound : shard.updatedNextTimestampBound ≤ m.nextTimestampBound

/-- What a node wrote in `Open` on the stream of manager `o` has its effect: its packets
and its bound are with the consumers before `Process` returns, its offset and header are
those of the manager, and no step changes them. -/
structure OpenTakesEffect (g : Graph) (outputs : OutId → OutputStreamManager) (o : OutId)
    (st : Introduction) (call : OpenCall) : Prop where
  sent : ¬ Returned call.node st.shared.log → ∀ t ∈ consumers g outputs o,
    HasShard (call.shard (Config.portName (outputs o).spec.name)) (st.shared.stream t)
  set : st.data o =
    (call.introWrites (Config.portName (outputs o).spec.name)).foldl IntroWrite.apply {}
  locked : ∀ f x st' fs, introductionExec g st f x = some (st', fs) → st'.data o = st.data o

/-- There is no packet in the shard and no bound that a fresh stream does not have. -/
def OpenCall.SendsNothing (call : OpenCall) (port : String) : Prop :=
  (call.shard port).outputQueue = [] ∧
    (call.shard port).updatedNextTimestampBound ≤ Timestamp.preStream

/-- No offset is set, and no header but the empty packet. -/
def OpenCall.SetsNothing (call : OpenCall) (port : String) : Prop :=
  (∀ offset, .setOffset offset ∉ call.introWrites port) ∧
    (lastHeader (call.introWrites port)).getD Packet.empty = Packet.empty

theorem hasShard_fresh (shard : OutputStreamShard) :
    HasShard shard {} ↔
      shard.outputQueue = [] ∧ shard.updatedNextTimestampBound ≤ Timestamp.preStream := by
  constructor
  · intro h
    exact ⟨List.length_eq_zero_iff.mp h.count.symm, h.bound⟩
  · rintro ⟨hQueue, hBound⟩
    exact ⟨by rw [hQueue]; rfl, List.nil_suffix, hBound⟩

theorem foldl_offsetEnabled (writes : List IntroWrite) (data : IntroData) :
    (writes.foldl IntroWrite.apply data).offsetEnabled = true ↔
      data.offsetEnabled = true ∨ ∃ offset, .setOffset offset ∈ writes := by
  induction writes generalizing data with
  | nil => simp
  | cons w rest ih =>
      rw [List.foldl_cons, ih]
      cases w with
      | setOffset offset => simp [IntroWrite.apply]
      | setHeader packet => simp [IntroWrite.apply]

theorem foldl_offset {writes : List IntroWrite} (data : IntroData)
    (hNone : ∀ offset, .setOffset offset ∉ writes) :
    (writes.foldl IntroWrite.apply data).offset = data.offset := by
  induction writes generalizing data with
  | nil => rfl
  | cons w rest ih =>
      rw [List.foldl_cons, ih _ fun offset hMem => hNone offset (List.mem_cons_of_mem _ hMem)]
      cases w with
      | setOffset offset => exact absurd List.mem_cons_self (hNone offset)
      | setHeader packet => rfl

theorem foldl_header (writes : List IntroWrite) (data : IntroData) :
    (writes.foldl IntroWrite.apply data).header =
      (lastHeader writes).getD data.header := by
  induction writes generalizing data with
  | nil => rfl
  | cons w rest ih =>
      rw [List.foldl_cons, ih]
      cases w with
      | setOffset offset => rfl
      | setHeader packet =>
          simp only [lastHeader, List.filterMap_cons, IntroWrite.apply, List.getLast?_cons,
            Option.getD_some]

theorem foldl_intro_iff (writes : List IntroWrite) :
    writes.foldl IntroWrite.apply {} = {} ↔
      (∀ offset, .setOffset offset ∉ writes) ∧
        (lastHeader writes).getD Packet.empty = Packet.empty := by
  constructor
  · intro hSame
    have hEnabled := foldl_offsetEnabled writes {}
    have hHeader := foldl_header writes {}
    rw [hSame] at hEnabled hHeader
    exact ⟨fun offset hMem => absurd (hEnabled.mpr (Or.inr ⟨offset, hMem⟩)) Bool.false_ne_true,
      hHeader.symm⟩
  · rintro ⟨hNone, hEmpty⟩
    have hDisabled : (writes.foldl IntroWrite.apply {}).offsetEnabled = false := by
      rw [Bool.eq_false_iff, ne_eq, foldl_offsetEnabled]
      rintro (hInit | ⟨offset, hMem⟩)
      · exact absurd hInit Bool.false_ne_true
      · exact hNone offset hMem
    have hOffset := foldl_offset {} hNone
    have hHeader := (foldl_header writes {}).trans hEmpty
    calc writes.foldl IntroWrite.apply {}
        = ⟨(writes.foldl IntroWrite.apply {}).offsetEnabled,
            (writes.foldl IntroWrite.apply {}).offset,
            (writes.foldl IntroWrite.apply {}).header⟩ := rfl
      _ = {} := by rw [hDisabled, hOffset, hHeader]

/-- **When what `Open` writes takes effect**, in any state of any run: before `Process`
of the node has returned it must have sent nothing to a consumer, and it must have set
nothing. -/
theorem open_takes_effect_iff {outputs : OutId → OutputStreamManager} {n : NodeId} {o : OutId}
    (hFeeds : Feeds g outputs n o) {G : Guard Introduction RuntimeFrame NodeChoice Call}
    {defaultQueue : QueueId} {errorCallback : Bool} {e : Entry}
    {c : Config Introduction RuntimeFrame}
    (hReach : (introduction g).Reaches G
      (introduced e (initial outputs defaultQueue errorCallback)) c) :
    (∀ call ∈ c.shared.opens, call.node = n → OpenTakesEffect g outputs o c.shared call) ↔
      ∀ call ∈ c.shared.opens, call.node = n →
        (¬ Returned n c.shared.shared.log → consumers g outputs o ≠ [] →
          call.SendsNothing (Config.portName (outputs o).spec.name)) ∧
        call.SetsNothing (Config.portName (outputs o).spec.name) := by
  have hShared : (runtime g).Reaches Guard.all
      (launched e (initial outputs defaultQueue errorCallback))
      (c.project Introduction.shared) := by
    have hAll : (introduction g).Reaches (Guard.all.along Introduction.shared NodeChoice.choice)
        (introduced e (initial outputs defaultQueue errorCallback)) c :=
      Machine.reaches_all _ hReach
    exact projects_introduction.reaches hAll
  have hData := data_of_reaches hFeeds hReach
  refine forall_congr' fun call => forall_congr' fun _ => forall_congr' fun hNode => ?_
  constructor
  · intro hEffect
    refine ⟨fun hNone hSome => ?_, ?_⟩
    · obtain ⟨t, hConsumer⟩ := List.exists_mem_of_ne_nil _ hSome
      have hHas := hEffect.sent (hNode ▸ hNone) t hConsumer
      have hFresh : c.shared.shared.stream t = {} :=
        stream_untouched hFeeds hShared hNone t hConsumer
      rw [hFresh] at hHas
      exact (hasShard_fresh _).mp hHas
    · exact (foldl_intro_iff _).mp (hEffect.set.symm.trans hData)
  · rintro ⟨hSends, hSets⟩
    refine ⟨fun hNone t hConsumer => ?_, ?_, fun f x st' fs hStep =>
      introductionExec_data hStep o⟩
    · have hFresh : c.shared.shared.stream t = {} :=
        stream_untouched hFeeds hShared (hNode ▸ hNone) t hConsumer
      rw [hFresh]
      exact (hasShard_fresh _).mpr (hSends (hNode ▸ hNone) (List.ne_nil_of_mem hConsumer))
    · exact hData.trans ((foldl_intro_iff _).mpr hSets).symm

/-! ## A source and a sink -/

/-- `Start` opens the two nodes, each under the choice `x`, and a worker calls the source. -/
private def openedThenCalled (x : NodeChoice) : List (Action NodeChoice Call) :=
  List.replicate 19 (.run 0 x) ++ .spawn (.worker 0) :: List.replicate 4 (.run 1 x)

/-- `Process` of a node has returned. -/
def Event.isReturn : Event → Bool
  | .processReturned _ _ => true
  | _ => false

theorem feeds_sourceSink : Feeds .sourceSink sourceSinkOutputs 0 1 where
  owner := by
    intro m hMem
    by_contra hOther
    simp [Graph.sourceSink, hOther] at hMem
  inner := by
    intro name hLookup
    cases hLookup
  alone := by
    intro o' t _ hMem
    by_contra hOther
    simp [consumers, sourceSinkOutputs, hOther] at hMem
  offsetEnabled := rfl
  offset := rfl

/-- The theorem for a source that writes nothing in `Open`. -/
theorem open_takes_effect_silent :
    ∃ c, (introduction .sourceSink).Reaches Guard.all
        (introduced .start (initial sourceSinkOutputs 0 false)) c ∧
      (c.shared.opens.map OpenCall.node = [0, 1]) ∧
      ∀ call ∈ c.shared.opens, call.node = 0 →
        OpenTakesEffect .sourceSink sourceSinkOutputs 1 c.shared call := by
  obtain ⟨c, hReach, hTest⟩ :=
    (introduction .sourceSink).exists_reaches Guard.all
      (introduced .start (initial sourceSinkOutputs 0 false)) (openedThenCalled ⟨.ok, []⟩)
      (fun c => decide (c.shared.opens.map OpenCall.node = [0, 1]) &&
        c.shared.opens.all fun call => call.writes.isEmpty && call.intro.isEmpty)
      (by decide +kernel)
  simp only [Bool.and_eq_true, decide_eq_true_eq, List.all_eq_true, List.isEmpty_iff] at hTest
  refine ⟨c, hReach, hTest.1, (open_takes_effect_iff feeds_sourceSink hReach).mpr ?_⟩
  intro call hMem _
  obtain ⟨hWrites, hIntro⟩ := hTest.2 call hMem
  refine ⟨fun _ _ => ?_, ?_⟩
  · rw [OpenCall.SendsNothing, OpenCall.shard, hWrites]
    decide
  · rw [OpenCall.SetsNothing, OpenCall.introWrites, hIntro]
    exact ⟨fun _ => List.not_mem_nil, rfl⟩

/-- A source that writes a packet and sets an offset in `Open`: when it is called, the
packet is not with the sink and the offset is not the manager's. -/
theorem open_outputs_lost :
    ∃ c call, (introduction .sourceSink).Reaches Guard.all
        (introduced .start (initial sourceSinkOutputs 0 false)) c ∧
      call ∈ c.shared.opens ∧ call.node = 0 ∧
      called c.shared.shared 0 = 1 ∧ ¬ Returned 0 c.shared.shared.log ∧
      payloads (call.shard "out").outputQueue = [some 7] ∧
      (c.shared.shared.stream 1).numPacketsAdded = 0 ∧
      (c.shared.data 1).offsetEnabled = false ∧
      ¬ OpenTakesEffect .sourceSink sourceSinkOutputs 1 c.shared call := by
  let x : NodeChoice :=
    ⟨.returns Status.okStatus [("out", .addPacket ⟨some 7, Timestamp.ofValue 1⟩)],
      [("out", .setOffset ⟨2, by decide⟩)]⟩
  obtain ⟨c, hReach, hTest⟩ :=
    (introduction .sourceSink).exists_reaches Guard.all
      (introduced .start (initial sourceSinkOutputs 0 false)) (openedThenCalled x)
      (fun c => decide (called c.shared.shared 0 = 1) &&
        (c.shared.shared.log.all (!·.isReturn)) &&
        (c.shared.opens.any fun call => decide (call.node = 0) &&
          decide (payloads (call.shard "out").outputQueue = [some 7])) &&
        decide ((c.shared.shared.stream 1).numPacketsAdded = 0) &&
        decide ((c.shared.data 1).offsetEnabled = false))
      (by decide +kernel)
  simp only [Bool.and_eq_true, decide_eq_true_eq, List.all_eq_true, List.any_eq_true] at hTest
  obtain ⟨⟨⟨⟨hCalled, hLog⟩, call, hMem, hNode, hPayloads⟩, hAdded⟩, hOffset⟩ := hTest
  have hNone : ¬ Returned 0 c.shared.shared.log := by
    rintro ⟨status, hReturned⟩
    exact absurd (hLog _ hReturned) (by simp [Event.isReturn])
  refine ⟨c, call, hReach, hMem, hNode, hCalled, hNone, hPayloads, hAdded, hOffset, ?_⟩
  intro hEffect
  have hConsumer : 1 ∈ consumers .sourceSink sourceSinkOutputs 1 := by decide
  have hCount := (hEffect.sent (hNode ▸ hNone) 1 hConsumer).count
  have hOne : (call.shard "out").outputQueue.length = 1 := by
    have hLength := congrArg List.length hPayloads
    simpa [payloads] using hLength
  have hPort : Config.portName (sourceSinkOutputs 1).spec.name = "out" := by decide +kernel
  rw [hAdded, hPort, hOne] at hCount
  exact absurd hCount (by decide)

end GraphRuntime.Scheduler
