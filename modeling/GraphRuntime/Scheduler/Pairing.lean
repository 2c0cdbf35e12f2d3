import GraphRuntime.Scheduler.Cancel

/-!
# `Open` and `Close` are paired

A run ends at one of six places: `Start` or `Schedule` fails on an `Open`,
`HandleIdle` finds the scheduler cancelled, `HandleIdle` quits, `Schedule` comes
to its end, `Shutdown`.  Two of them call `CloseAllNodes`; the other four leave
the nodes that have been opened as they are (`left_open`).

`pairsNodes` says that these four are taken only when no node is open, and that
`HandleIdle` begins to close the nodes only when all are open and `Schedule` is
not under way.  With it, whenever the scheduler is terminated, a node has been
closed exactly once if its `Open` returned OK, and not at all otherwise
(`opened_iff_closed_once`).
-/

namespace GraphRuntime.Scheduler

open GraphRuntime.Stream Interleaving

variable {g : Graph} {s s' : Shared} {x : Choice}

/-! ## Frames that open and close nodes -/

namespace RuntimeFrame

variable (g : Graph) (f : RuntimeFrame)

/-- The nodes a call of `Start` or `Schedule` has still to open. -/
def toOpen : List NodeId :=
  match f with
  | .async (.start pc) =>
      match pc with
      | .begin | .assign _ => g.nodes
      | .openNodes rest | .insertSource _ rest | .addSource _ rest => rest
      | _ => []
  | .schedule pc =>
      match pc with
      | .begin | .assign _ => g.nodes
      | .openNodes rest | .insertSource _ rest => rest
      | _ => []
  | _ => []

/-- The nodes `CloseAllNodes` has still to close, if it is running. -/
def toClose : Option (List NodeId) :=
  match f with
  | .async (.handleIdle (.closeNodes _ rest)) => some rest
  | .schedule (.closeNodes rest) => some rest
  | _ => none

/-- `CloseAllNodes` is running. -/
def closing : Bool := f.toClose.isSome

/-- A call of `Start` or `Schedule`. -/
def isEntry : Bool :=
  match f with
  | .async (.start _) | .schedule _ => true
  | _ => false

def isSchedule : Bool :=
  match f with
  | .schedule _ => true
  | _ => false

/-- A call whose `Open` of some node has failed. -/
def failed : Bool :=
  match f with
  | .async (.start .openFailed) | .schedule .openFailed => true
  | _ => false

/-- A call under way that is going to open a node. -/
def opens : Bool :=
  match f with
  | .async (.start .begin) | .schedule .begin => false
  | _ => !(f.toOpen g).isEmpty

/-- The steps that end a run without closing the nodes. -/
def abandons : Bool :=
  match f with
  | .async (.start .openFailed) | .schedule .openFailed
  | .async (.handleIdle .cancelTerminate) | .async (.api .shutdownState) => true
  | _ => false

theorem toOpen_of_not_entry {f : RuntimeFrame} (hEntry : f.isEntry = false) :
    f.toOpen g = [] := by
  cases f with
  | schedule pc => exact absurd hEntry.symm Bool.false_ne_true
  | async f =>
      cases f with
      | start pc => exact absurd hEntry.symm Bool.false_ne_true
      | _ => rfl

theorem closing_of_toOpen {f : RuntimeFrame} (hOpen : f.toOpen g ≠ []) :
    f.closing = false := by
  unfold toOpen at hOpen
  repeat' split at hOpen
  all_goals first
    | rfl
    | exact absurd rfl hOpen

theorem opens_of_toOpen {f : RuntimeFrame} (hNone : f.toOpen g = []) : f.opens g = false := by
  unfold opens
  split
  · rfl
  · rfl
  · rw [hNone]
    rfl

/-- Neither a call of `Start` or `Schedule` nor one of `CloseAllNodes`. -/
def plain : Bool := !f.isEntry && !f.closing

theorem toOpen_of_opens {f : RuntimeFrame} (hOpens : f.opens g = false)
    (hBegun : f ≠ .async (.start .begin) ∧ f ≠ .schedule .begin) : f.toOpen g = [] := by
  unfold opens at hOpens
  split at hOpens
  · exact absurd rfl hBegun.1
  · exact absurd rfl hBegun.2
  · simpa using hOpens

end RuntimeFrame

/-- No node is open. -/
def noneOpen (g : Graph) (s : Shared) : Bool :=
  g.nodes.all fun n => !decide (Opened s.log n) || decide (.closed n ∈ s.log)

theorem closed_of_noneOpen (hNone : noneOpen g s = true) {n : NodeId} (hNode : n ∈ g.nodes)
    (hOpened : Opened s.log n) : .closed n ∈ s.log := by
  have hTest := List.all_eq_true.mp hNone n hNode
  simpa [hOpened] using hTest

theorem noneOpen_of_closed (hClosed : ∀ n ∈ g.nodes, .closed n ∈ s.log) :
    noneOpen g s = true := by
  refine List.all_eq_true.mpr fun n hNode => ?_
  simp [hClosed n hNode]

/-- A run is ended without `CloseAllNodes` only when no node is open and none is
going to be opened; and `HandleIdle` begins to close the nodes only when all have
been opened, none has been closed and `Schedule` is not under way. -/
def pairsNodes (g : Graph) : Guard Shared RuntimeFrame Choice Call where
  exec := fun s others f _ =>
    (!f.abandons || (noneOpen g s && others.all fun f' => !f'.opens g)) &&
      match f with
      | .async (.handleIdle (.quitReport _)) =>
          allOpened g s && !someClosed g s && others.all fun f' => !f'.isSchedule
      | _ => true
  spawn := fun _ _ _ => true

/-! ## The invariant -/

/-- The log and the frames fit together. -/
structure Paired (g : Graph) (log : List Event) (fs : List RuntimeFrame) : Prop where
  entries : fs.countP RuntimeFrame.isEntry ≤ 1
  closers : fs.countP RuntimeFrame.closing ≤ 1
  known : ∀ n st, .opened n st ∈ log → n ∈ g.nodes
  toOpen : ∀ f ∈ fs, f.toOpen g <:+ g.nodes ∧ ∀ n ∈ f.toOpen g, ∀ st, .opened n st ∉ log
  /-- A call of `Schedule` has opened what it has not still to open. -/
  opened : ∀ f ∈ fs, f.isSchedule = true → f.failed = false →
    ∀ n ∈ g.nodes, n ∈ f.toOpen g ∨ Opened log n
  /-- While `Schedule` is not closing the nodes, nobody is or was. -/
  apart : ∀ f ∈ fs, f.isSchedule = true → f.closing = false →
    (∀ f' ∈ fs, f'.closing = false) ∧ ∀ n, .closed n ∉ log
  toClose : ∀ f ∈ fs, ∀ rest, f.toClose = some rest → rest <:+ g.nodes ∧
    ∀ n ∈ g.nodes, Opened log n ∧ (.closed n ∈ log ↔ n ∉ rest)
  closed : ∀ n, log.count (.closed n) ≤ 1 ∧ (.closed n ∈ log → Opened log n)

/-- When the scheduler is terminated no node is open. -/
def EndsPaired (g : Graph) (s : Shared) (fs : List RuntimeFrame) : Prop :=
  s.state = .kTerminated → noneOpen g s = true ∧ ∀ f ∈ fs, f.opens g = false

/-! ## What a step does -/

/-- Neither `Open` nor `Close`. -/
def Event.other : Event → Bool
  | .opened _ _ | .closed _ => false
  | _ => true

/-- What a step of frame `f` adds to the log, and where `f` goes on. -/
inductive Phase (g : Graph) (f : RuntimeFrame) : List Event → Option RuntimeFrame → Prop
  | ended (es : List Event) (hOther : ∀ e ∈ es, e.other = true) : Phase g f es none
  | stays (es : List Event) (f' : RuntimeFrame) (hOther : ∀ e ∈ es, e.other = true)
      (hOpen : f'.toOpen g = f.toOpen g) (hClose : f'.toClose = none)
      (hFailed : f.failed = false) (hKeep : f.isSchedule = true → f.closing = false) :
      Phase g f es (some f')
  | opened (n : NodeId) (st : Status) (rest : List NodeId) (f' : RuntimeFrame)
      (hOk : st.isOk = true) (hOpen : f.toOpen g = n :: rest) (hRest : f'.toOpen g = rest)
      (hClose : f'.toClose = none) (hFailed : f.failed = false) :
      Phase g f [.opened n st] (some f')
  | openFailed (n : NodeId) (st : Status) (rest : List NodeId) (f' : RuntimeFrame)
      (hOk : st.isOk = false) (hOpen : f.toOpen g = n :: rest) (hRest : f'.toOpen g = [])
      (hClose : f'.toClose = none) (hUnfailed : f.failed = false) (hFailed : f'.failed = true) :
      Phase g f [.opened n st] (some f')
  | begins (f' : RuntimeFrame)
      (hBegins : (∃ l, f = .async (.handleIdle (.quitReport l))) ∨
        (f.isSchedule = true ∧ f.closing = false ∧ f.toOpen g = [] ∧ f.failed = false))
      (hOpen : f'.toOpen g = []) (hClose : f'.toClose = some g.nodes) :
      Phase g f [] (some f')
  | closed (n : NodeId) (rest : List NodeId) (f' : RuntimeFrame)
      (hClose : f.toClose = some (n :: rest)) (hOpen : f'.toOpen g = [])
      (hRest : f'.toClose = some rest) : Phase g f [.closed n] (some f')

/-- A step, as far as `Open` and `Close` are concerned. -/
structure Stepped (g : Graph) (s : Shared) (f : RuntimeFrame) (s' : Shared)
    (fs : List RuntimeFrame) : Prop where
  parts : ∃ es calls next, s'.log = s.log ++ es ∧ fs = calls ++ Option.toList next ∧
    (∀ f' ∈ calls, f'.plain = true) ∧
    (∀ f', next = some f' → f'.isEntry = f.isEntry ∧ f'.isSchedule = f.isSchedule) ∧
    Phase g f es next

/-- A step that neither opens nor closes and has no such frame to leave. -/
theorem Stepped.of_plain {f : RuntimeFrame} {fs : List RuntimeFrame} (es : List Event)
    (hLog : s'.log = s.log ++ es) (hOther : ∀ e ∈ es, e.other = true)
    (hPlain : ∀ f' ∈ fs, f'.plain = true) : Stepped g s f s' fs :=
  ⟨es, fs, none, hLog, by simp, hPlain, by simp, .ended es hOther⟩

theorem scheduled_plain {l : List Frame} (hCalls : ∀ f ∈ l, f.scheduled = true) :
    ∀ f' ∈ l.map RuntimeFrame.async, f'.plain = true := by
  intro f' hMem
  obtain ⟨f, hIn, rfl⟩ := List.mem_map.mp hMem
  have hKind := hCalls f hIn
  cases f <;> first | rfl | exact absurd hKind Bool.false_ne_true

/-- The frames a step leaves, one of which its own function may go on as. -/
theorem Stepped.of_turn {π : Type} {f : RuntimeFrame} {frame : π → RuntimeFrame}
    {t : Turn π} (es : List Event) (hLog : t.state.log = s.log ++ es)
    (hCalls : ∀ f' ∈ t.calls.map RuntimeFrame.async, f'.plain = true)
    (hKind : ∀ pc, (frame pc).isEntry = f.isEntry ∧ (frame pc).isSchedule = f.isSchedule)
    (hPhase : Phase g f es (t.next.map frame)) :
    Stepped g s f t.state (t.calls.map RuntimeFrame.async ++ (t.next.map frame).toList) := by
  refine ⟨es, _, _, hLog, rfl, hCalls, fun f' hNext => ?_, hPhase⟩
  obtain ⟨pc, -, rfl⟩ := Option.map_eq_some_iff.mp hNext
  exact hKind pc

theorem scheduleStep_stepped {pc : SchedulePc} {t : Turn SchedulePc}
    (hTurn : scheduleStep g s x pc = some t) :
    Stepped g s (.schedule pc) t.state
      (t.calls.map .async ++ (t.next.map .schedule).toList) := by
  have hPlain := scheduled_plain (scheduleStep_calls hTurn)
  have hParts : ∃ es, t.state.log = s.log ++ es ∧
      Phase g (.schedule pc) es (t.next.map RuntimeFrame.schedule) := by
    clear hPlain
    revert hTurn
    fun_cases scheduleStep g s x pc
    all_goals intro hTurn; cases hTurn
    all_goals repeat' split
    all_goals first
      | exact ⟨[], (List.append_nil _).symm, .ended _ (by simp)⟩
      | exact ⟨[], (List.append_nil _).symm, .stays _ _ (by simp) rfl rfl rfl (fun _ => rfl)⟩
      | exact ⟨_, rfl, .stays [_] _ (by simp [Event.other]) rfl rfl rfl (fun _ => rfl)⟩
      | exact ⟨[], (List.append_nil _).symm, .begins _ (Or.inr ⟨rfl, rfl, rfl, rfl⟩) rfl rfl⟩
      | exact ⟨_, rfl, .closed _ _ _ rfl rfl rfl⟩
      | exact ⟨_, rfl, .opened _ _ _ _ (by simp_all) rfl rfl rfl rfl⟩
      | exact ⟨_, rfl, .openFailed _ _ _ _ (by simp_all) rfl rfl rfl rfl rfl⟩
  obtain ⟨es, hLog, hPhase⟩ := hParts
  exact .of_turn es hLog hPlain (fun _ => ⟨rfl, rfl⟩) hPhase

theorem startStep_stepped {pc : StartPc} {t : Turn StartPc}
    (hTurn : startStep g s x pc = some t)
    (hPlain : ∀ f' ∈ t.calls.map RuntimeFrame.async, f'.plain = true) :
    Stepped g s (.async (.start pc)) t.state
      (t.calls.map .async ++ (t.next.map fun pc' => .async (.start pc')).toList) := by
  have hParts : ∃ es, t.state.log = s.log ++ es ∧
      Phase g (.async (.start pc)) es (t.next.map fun pc' => .async (.start pc')) := by
    clear hPlain
    revert hTurn
    fun_cases startStep g s x pc
    all_goals intro hTurn; cases hTurn
    all_goals repeat' split
    all_goals first
      | exact ⟨[], (List.append_nil _).symm, .ended _ (by simp)⟩
      | exact ⟨[], (List.append_nil _).symm, .stays _ _ (by simp) rfl rfl rfl (by simp [RuntimeFrame.isSchedule])⟩
      | exact ⟨_, rfl, .opened _ _ _ _ (by simp_all) rfl rfl rfl rfl⟩
      | exact ⟨_, rfl, .openFailed _ _ _ _ (by simp_all) rfl rfl rfl rfl rfl⟩
      | exact ⟨[], (congrArg Shared.log (scheduleNode_eq g s _)).trans (List.append_nil _).symm,
          .stays _ _ (by simp) rfl rfl rfl (by simp [RuntimeFrame.isSchedule])⟩
  obtain ⟨es, hLog, hPhase⟩ := hParts
  exact .of_turn es hLog hPlain (fun _ => ⟨rfl, rfl⟩) hPhase

theorem idleStep_stepped (pc : IdlePc)
    (hPlain : ∀ f' ∈ (idleStep g s pc).calls.map RuntimeFrame.async, f'.plain = true) :
    Stepped g s (.async (.handleIdle pc)) (idleStep g s pc).state
      ((idleStep g s pc).calls.map .async ++
        ((idleStep g s pc).next.map fun pc' => .async (.handleIdle pc')).toList) := by
  have hParts : ∃ es, (idleStep g s pc).state.log = s.log ++ es ∧
      Phase g (.async (.handleIdle pc)) es
        ((idleStep g s pc).next.map fun pc' => .async (.handleIdle pc')) := by
    clear hPlain
    fun_cases idleStep g s pc
    all_goals repeat' split
    all_goals first
      | exact ⟨[], (List.append_nil _).symm, .ended _ (by simp)⟩
      | exact ⟨[], (List.append_nil _).symm, .stays _ _ (by simp) rfl rfl rfl (by simp [RuntimeFrame.isSchedule])⟩
      | exact ⟨[], (List.append_nil _).symm, .begins _ (Or.inl ⟨_, rfl⟩) rfl rfl⟩
      | exact ⟨_, rfl, .closed _ _ _ rfl rfl rfl⟩
      | exact ⟨[], (congrArg Shared.log (scheduleNode_eq g s _)).trans (List.append_nil _).symm,
          .stays _ _ (by simp) rfl rfl rfl (by simp [RuntimeFrame.isSchedule])⟩
  obtain ⟨es, hLog, hPhase⟩ := hParts
  exact .of_turn es hLog hPlain (fun _ => ⟨rfl, rfl⟩) hPhase

theorem plain_of_leaves {f f' : Frame} (hLeaves : f.Leaves f') (hStart : ∀ pc, f' ≠ .start pc)
    (hIdle : ∀ pc pc', f = .handleIdle pc → f' ≠ .handleIdle pc') :
    (RuntimeFrame.async f').plain = true := by
  cases f' with
  | start pc => exact absurd rfl (hStart pc)
  | handleIdle pc' =>
      cases pc' with
      | closeNodes l rest =>
          exact absurd (hLeaves.enter fun pc hEq => hIdle pc _ hEq rfl) (by simp)
      | _ => rfl
  | _ => rfl

theorem LogChange.others {f : Frame} {log : List Event} (hChange : LogChange s f log)
    (hNoOpen : ∀ r, f ≠ .run r .callOpen) (hStart : ∀ pc, f ≠ .start pc)
    (hIdle : ∀ pc, f ≠ .handleIdle pc) :
    ∃ es, log = s.log ++ es ∧ ∀ e ∈ es, e.other = true := by
  cases hChange with
  | same => exact ⟨[], by simp, by simp⟩
  | openItem r => exact absurd rfl (hNoOpen r)
  | opened n rest => exact absurd rfl (hStart _)
  | closed l n rest => exact absurd rfl (hIdle _)
  | processCalled | processReturned | reported => exact ⟨_, rfl, by simp [Event.other]⟩

/-- Frames of the asynchronous path that a step leaves, in the machine of both paths. -/
theorem map_frames {π : Type} (calls : List Frame) (next : Option π) (frame : π → Frame) :
    (calls ++ (next.map frame).toList).map RuntimeFrame.async =
      calls.map .async ++ (next.map fun pc => RuntimeFrame.async (frame pc)).toList := by
  cases next <;> simp

theorem runtimeExec_stepped {f : RuntimeFrame} {fs : List RuntimeFrame}
    (hStep : runtimeExec g s f x = some (s', fs))
    (hNoOpen : ∀ r, f ≠ .async (.run r .callOpen)) : Stepped g s f s' fs := by
  rcases runtimeExec_cases hStep with ⟨f, fs, rfl, hExec, rfl⟩ | ⟨pc, t, rfl, hTurn, rfl, rfl⟩
  swap
  · exact scheduleStep_stepped hTurn
  have hLeaves := exec_leaves hExec
  cases f with
  | start pc =>
      obtain ⟨t, hTurn, rfl, rfl⟩ := exec_start hExec
      rw [map_frames]
      refine startStep_stepped hTurn fun f' hMem => ?_
      obtain ⟨f₁, hIn, rfl⟩ := List.mem_map.mp hMem
      obtain ⟨hLeft, hNot⟩ := startStep_calls hTurn f₁ hIn
      exact plain_of_leaves hLeft hNot (by simp)
  | handleIdle pc =>
      obtain ⟨rfl, rfl⟩ := exec_handleIdle hExec
      rw [map_frames]
      refine idleStep_stepped pc fun f' hMem => ?_
      obtain ⟨f₁, hIn, rfl⟩ := List.mem_map.mp hMem
      obtain ⟨hLeft, hNot⟩ := idleStep_calls pc f₁ hIn
      refine plain_of_leaves hLeft (fun pc' hEq => ?_) fun _ pc' _ => hNot pc'
      subst hEq
      exact False.elim hLeft
  | _ =>
      have hPlain : ∀ f' ∈ fs.map RuntimeFrame.async, f'.plain = true := by
        intro f' hMem
        obtain ⟨f₁, hIn, rfl⟩ := List.mem_map.mp hMem
        refine plain_of_leaves (hLeaves f₁ hIn) (fun pc' hEq => ?_) (by simp)
        obtain ⟨pc₀, -, hFrame, -⟩ := start_of_exec hExec (hEq ▸ hIn)
        cases hFrame
      obtain ⟨es, hLog, hOther⟩ := (exec_log hExec).others
        (fun r hEq => hNoOpen r (congrArg RuntimeFrame.async hEq)) (by simp) (by simp)
      exact .of_plain es hLog hOther hPlain

/-! ## Each step keeps the pairing -/

theorem mem_append_of_other {log es : List Event} {e : Event} (hEvent : e.other = false)
    (hOther : ∀ e ∈ es, e.other = true) : e ∈ log ++ es ↔ e ∈ log := by
  rw [List.mem_append, or_iff_left]
  intro hMem
  rw [hOther e hMem] at hEvent
  exact Bool.false_ne_true hEvent.symm

theorem RuntimeFrame.plain_iff {f : RuntimeFrame} :
    f.plain = true ↔ f.isEntry = false ∧ f.closing = false := by
  simp [plain]

theorem RuntimeFrame.isEntry_of_isSchedule {f : RuntimeFrame} (hSchedule : f.isSchedule = true) :
    f.isEntry = true := by
  cases f with
  | schedule pc => rfl
  | async f => exact absurd hSchedule Bool.false_ne_true

theorem RuntimeFrame.toClose_of_not_closing {f : RuntimeFrame} (hClosing : f.closing = false) :
    f.toClose = none := by
  simpa [closing] using hClosing

namespace Paired

variable {log es : List Event} {f f' : RuntimeFrame} {fs o calls : List RuntimeFrame}

theorem perm (hPaired : Paired g log fs) (hPerm : fs.Perm o) : Paired g log o where
  entries := hPerm.countP_eq _ ▸ hPaired.entries
  closers := hPerm.countP_eq _ ▸ hPaired.closers
  known := hPaired.known
  toOpen := fun f hMem => hPaired.toOpen f (hPerm.mem_iff.mpr hMem)
  opened := fun f hMem => hPaired.opened f (hPerm.mem_iff.mpr hMem)
  apart := by
    intro f hMem hSchedule hClosing
    obtain ⟨hNone, hLog⟩ := hPaired.apart f (hPerm.mem_iff.mpr hMem) hSchedule hClosing
    exact ⟨fun f' hMem' => hNone f' (hPerm.mem_iff.mpr hMem'), hLog⟩
  toClose := fun f hMem => hPaired.toClose f (hPerm.mem_iff.mpr hMem)
  closed := hPaired.closed

theorem drop (hPaired : Paired g log (f :: o)) : Paired g log o where
  entries := le_trans (List.sublist_cons_self f o).countP_le hPaired.entries
  closers := le_trans (List.sublist_cons_self f o).countP_le hPaired.closers
  known := hPaired.known
  toOpen := fun f hMem => hPaired.toOpen f (List.mem_cons_of_mem _ hMem)
  opened := fun f hMem => hPaired.opened f (List.mem_cons_of_mem _ hMem)
  apart := by
    intro f hMem hSchedule hClosing
    obtain ⟨hNone, hLog⟩ := hPaired.apart f (List.mem_cons_of_mem _ hMem) hSchedule hClosing
    exact ⟨fun f' hMem' => hNone f' (List.mem_cons_of_mem _ hMem'), hLog⟩
  toClose := fun f hMem => hPaired.toClose f (List.mem_cons_of_mem _ hMem)
  closed := hPaired.closed

/-- A frame that neither opens nor closes may be added. -/
theorem cons (hPaired : Paired g log o) (hPlain : f.plain = true) : Paired g log (f :: o) := by
  obtain ⟨hEntry, hClosing⟩ := RuntimeFrame.plain_iff.mp hPlain
  have hNotSchedule : f.isSchedule ≠ true := fun hSchedule =>
    absurd (RuntimeFrame.isEntry_of_isSchedule hSchedule) (by simp [hEntry])
  have hOpen : f.toOpen g = [] := f.toOpen_of_not_entry g hEntry
  have hClose : f.toClose = none := RuntimeFrame.toClose_of_not_closing hClosing
  constructor
  · simpa [hEntry] using hPaired.entries
  · simpa [hClosing] using hPaired.closers
  · exact hPaired.known
  · rw [List.forall_mem_cons, hOpen]
    exact ⟨⟨List.nil_suffix, by simp⟩, hPaired.toOpen⟩
  · rw [List.forall_mem_cons]
    exact ⟨fun hSchedule => absurd hSchedule hNotSchedule, hPaired.opened⟩
  · rw [List.forall_mem_cons]
    refine ⟨fun hSchedule => absurd hSchedule hNotSchedule, fun f' hMem hSchedule hKeep => ?_⟩
    obtain ⟨hNone, hLog⟩ := hPaired.apart f' hMem hSchedule hKeep
    exact ⟨List.forall_mem_cons.mpr ⟨hClosing, hNone⟩, hLog⟩
  · rw [List.forall_mem_cons, hClose]
    exact ⟨by simp, hPaired.toClose⟩
  · exact hPaired.closed

theorem append (hPaired : Paired g log o) (hPlain : ∀ f ∈ calls, f.plain = true) :
    Paired g log (calls ++ o) := by
  induction calls with
  | nil => exact hPaired
  | cons f calls ih =>
      obtain ⟨hHead, hTail⟩ := List.forall_mem_cons.mp hPlain
      exact (ih hTail).cons hHead

/-- Other events do not matter. -/
theorem others (hPaired : Paired g log fs) (hOther : ∀ e ∈ es, e.other = true) :
    Paired g (log ++ es) fs := by
  have hOpened : ∀ n st, .opened n st ∈ log ++ es ↔ .opened n st ∈ log :=
    fun n st => mem_append_of_other rfl hOther
  have hClosed : ∀ n, .closed n ∈ log ++ es ↔ .closed n ∈ log :=
    fun n => mem_append_of_other rfl hOther
  have hCount : ∀ n, (log ++ es).count (.closed n) = log.count (.closed n) := by
    intro n
    have hNone : .closed n ∉ es := fun hMem => Bool.false_ne_true (hOther _ hMem)
    rw [List.count_append, List.count_eq_zero_of_not_mem hNone, Nat.add_zero]
  constructor
  · exact hPaired.entries
  · exact hPaired.closers
  · simpa only [hOpened] using hPaired.known
  · simpa only [hOpened] using hPaired.toOpen
  · simpa only [Opened, hOpened] using hPaired.opened
  · simpa only [hClosed] using hPaired.apart
  · simpa only [Opened, hOpened, hClosed] using hPaired.toClose
  · simpa only [Opened, hOpened, hClosed, hCount] using hPaired.closed

/-- A frame goes on without opening or closing a node. -/
theorem stays (hPaired : Paired g log (f :: o)) (hEntry : f'.isEntry = f.isEntry)
    (hSchedule : f'.isSchedule = f.isSchedule) (hOpen : f'.toOpen g = f.toOpen g)
    (hClose : f'.toClose = none) (hFailed : f.failed = false)
    (hKeep : f.isSchedule = true → f.closing = false) : Paired g log (f' :: o) := by
  have hClosing : f'.closing = false := by simp [RuntimeFrame.closing, hClose]
  have hRest := hPaired.drop
  constructor
  · simpa [List.countP_cons, hEntry] using hPaired.entries
  · simpa [List.countP_cons, hClosing] using hRest.closers
  · exact hPaired.known
  · rw [List.forall_mem_cons, hOpen]
    exact ⟨hPaired.toOpen f (by simp), hRest.toOpen⟩
  · rw [List.forall_mem_cons, hOpen, hSchedule]
    exact ⟨fun hIs _ => hPaired.opened f (by simp) hIs hFailed, hRest.opened⟩
  · rw [List.forall_mem_cons, hSchedule]
    refine ⟨fun hIs _ => ?_, fun f₁ hMem hIs hOpenYet => ?_⟩
    · obtain ⟨hNone, hLog⟩ := hPaired.apart f (by simp) hIs (hKeep hIs)
      exact ⟨List.forall_mem_cons.mpr ⟨hClosing, (List.forall_mem_cons.mp hNone).2⟩, hLog⟩
    · obtain ⟨hNone, hLog⟩ := hRest.apart f₁ hMem hIs hOpenYet
      exact ⟨List.forall_mem_cons.mpr ⟨hClosing, hNone⟩, hLog⟩
  · rw [List.forall_mem_cons, hClose]
    exact ⟨by simp, hRest.toClose⟩
  · exact hPaired.closed

/-- Apart from a call of `Start` or `Schedule` there is no other. -/
theorem not_entry (hPaired : Paired g log (f :: o)) (hEntry : f.isEntry = true) :
    ∀ f₁ ∈ o, f₁.isEntry = false := by
  have hCount := hPaired.entries
  rw [List.countP_cons_of_pos hEntry] at hCount
  have hNone : o.countP RuntimeFrame.isEntry = 0 := by omega
  simpa [List.countP_eq_zero] using hNone

theorem not_closing (hPaired : Paired g log (f :: o)) (hClosing : f.closing = true) :
    ∀ f₁ ∈ o, f₁.closing = false := by
  have hCount := hPaired.closers
  rw [List.countP_cons_of_pos hClosing] at hCount
  have hNone : o.countP RuntimeFrame.closing = 0 := by omega
  simpa [List.countP_eq_zero] using hNone

theorem not_schedule (hPaired : Paired g log (f :: o)) (hEntry : f.isEntry = true) :
    ∀ f₁ ∈ o, f₁.isSchedule = false := by
  intro f₁ hMem
  by_contra hSchedule
  have hIs := RuntimeFrame.isEntry_of_isSchedule (by simpa using hSchedule)
  rw [hPaired.not_entry hEntry f₁ hMem] at hIs
  exact Bool.false_ne_true hIs

/-- The next node is opened. -/
theorem opens {n : NodeId} {rest : List NodeId} {st : Status} (hPaired : Paired g log (f :: o))
    (hEntry : f'.isEntry = f.isEntry) (hSchedule : f'.isSchedule = f.isSchedule)
    (hOpen : f.toOpen g = n :: rest) (hRest : f'.toOpen g <:+ rest)
    (hClose : f'.toClose = none) (hFailed : f.failed = false)
    (hOk : f'.failed = false → st.isOk = true ∧ f'.toOpen g = rest) :
    Paired g (log ++ [.opened n st]) (f' :: o) := by
  have hIsEntry : f.isEntry = true := by
    by_contra hNot
    have hNone := f.toOpen_of_not_entry g (by simpa using hNot)
    simp [hOpen] at hNone
  have hKeep : f.closing = false := RuntimeFrame.closing_of_toOpen g (by simp [hOpen])
  have hClosing : f'.closing = false := by simp [RuntimeFrame.closing, hClose]
  have hOthers := hPaired.not_entry hIsEntry
  have hNotSchedule := hPaired.not_schedule hIsEntry
  have hDrop := hPaired.drop
  obtain ⟨hSuffix, hNew⟩ := hPaired.toOpen f (by simp)
  rw [hOpen] at hSuffix hNew
  have hDistinct : n ∉ rest := (List.nodup_cons.mp (hSuffix.sublist.nodup g.nodes_nodup)).1
  have hRestSuffix : rest <:+ g.nodes := (List.suffix_cons n rest).trans hSuffix
  have hStays : ∀ m, Opened log m → Opened (log ++ [.opened n st]) m :=
    fun m hBefore => hBefore.mono (List.subset_append_left _ _)
  constructor
  · simpa [List.countP_cons, hEntry] using hPaired.entries
  · simpa [List.countP_cons, hClosing] using hDrop.closers
  · intro m b hMem
    rcases List.mem_append.mp hMem with hOld | hLast
    · exact hPaired.known m b hOld
    · simp only [List.mem_singleton, Event.opened.injEq] at hLast
      rw [hLast.1]
      exact hSuffix.subset (List.mem_cons_self ..)
  · refine List.forall_mem_cons.mpr ⟨⟨hRest.trans hRestSuffix, fun m hMem b hIn => ?_⟩,
      fun f₁ hMem => ?_⟩
    · rcases List.mem_append.mp hIn with hOld | hLast
      · exact hNew m (List.mem_cons_of_mem _ (hRest.subset hMem)) b hOld
      · simp only [List.mem_singleton, Event.opened.injEq] at hLast
        exact hDistinct (hLast.1 ▸ hRest.subset hMem)
    · rw [f₁.toOpen_of_not_entry g (hOthers f₁ hMem)]
      exact ⟨List.nil_suffix, by simp⟩
  · refine List.forall_mem_cons.mpr ⟨fun hIs hNotFailed m hNode => ?_, fun f₁ hMem hIs => ?_⟩
    · obtain ⟨hIsOk, hSame⟩ := hOk hNotFailed
      rw [hSame]
      rcases hPaired.opened f (by simp) (hSchedule ▸ hIs) hFailed m hNode with hIn | hOld
      · rw [hOpen] at hIn
        rcases List.mem_cons.mp hIn with rfl | hLater
        · exact Or.inr ⟨st, by simp, hIsOk⟩
        · exact Or.inl hLater
      · exact Or.inr (hStays m hOld)
    · exact absurd hIs (by simp [hNotSchedule f₁ hMem])
  · refine List.forall_mem_cons.mpr ⟨fun hIs _ => ?_, fun f₁ hMem hIs => ?_⟩
    · obtain ⟨hNone, hLog⟩ := hPaired.apart f (by simp) (hSchedule ▸ hIs) hKeep
      exact ⟨List.forall_mem_cons.mpr ⟨hClosing, (List.forall_mem_cons.mp hNone).2⟩,
        by simpa using hLog⟩
    · exact absurd hIs (by simp [hNotSchedule f₁ hMem])
  · rw [List.forall_mem_cons, hClose]
    refine ⟨by simp, fun f₁ hMem rest' hRest' => ?_⟩
    obtain ⟨hSuffix', hNodes⟩ := hDrop.toClose f₁ hMem rest' hRest'
    refine ⟨hSuffix', fun m hNode => ?_⟩
    obtain ⟨hOpened, hClosed⟩ := hNodes m hNode
    exact ⟨hStays m hOpened, by simpa using hClosed⟩
  · intro m
    obtain ⟨hCount, hOpened⟩ := hPaired.closed m
    refine ⟨by simpa [List.count_append, List.count_cons] using hCount, fun hMem => ?_⟩
    exact hStays m (hOpened (by simpa using hMem))

/-- `CloseAllNodes` begins. -/
theorem begins (hPaired : Paired g log (f :: o)) (hEntry : f'.isEntry = f.isEntry)
    (hOpen : f'.toOpen g = []) (hClose : f'.toClose = some g.nodes)
    (hOpened : ∀ n ∈ g.nodes, Opened log n) (hClosed : ∀ n ∈ g.nodes, .closed n ∉ log)
    (hNone : ∀ f₁ ∈ o, f₁.closing = false) (hApart : ∀ f₁ ∈ o, f₁.isSchedule = false) :
    Paired g log (f' :: o) := by
  have hClosing : f'.closing = true := by simp [RuntimeFrame.closing, hClose]
  have hDrop := hPaired.drop
  constructor
  · simpa [List.countP_cons, hEntry] using hPaired.entries
  · have hZero : o.countP RuntimeFrame.closing = 0 := by
      simpa [List.countP_eq_zero] using hNone
    simp [hClosing, hZero]
  · exact hPaired.known
  · rw [List.forall_mem_cons, hOpen]
    exact ⟨⟨List.nil_suffix, by simp⟩, hDrop.toOpen⟩
  · exact List.forall_mem_cons.mpr ⟨fun _ _ n hNode => Or.inr (hOpened n hNode), hDrop.opened⟩
  · refine List.forall_mem_cons.mpr ⟨fun _ hNot => ?_, fun f₁ hMem hIs => ?_⟩
    · exact absurd hNot (by simp [hClosing])
    · exact absurd hIs (by simp [hApart f₁ hMem])
  · refine List.forall_mem_cons.mpr ⟨fun rest hRest => ?_, hDrop.toClose⟩
    obtain rfl : g.nodes = rest := Option.some.inj (hClose.symm.trans hRest)
    exact ⟨List.suffix_refl _, fun n hNode => ⟨hOpened n hNode, by simp [hNode, hClosed n hNode]⟩⟩
  · exact hPaired.closed

/-- `CloseAllNodes` closes the next node. -/
theorem closes {n : NodeId} {rest : List NodeId} (hPaired : Paired g log (f :: o))
    (hEntry : f'.isEntry = f.isEntry) (hClose : f.toClose = some (n :: rest))
    (hOpen : f'.toOpen g = []) (hRest : f'.toClose = some rest) :
    Paired g (log ++ [.closed n]) (f' :: o) := by
  have hClosing : f.closing = true := by simp [RuntimeFrame.closing, hClose]
  have hClosing' : f'.closing = true := by simp [RuntimeFrame.closing, hRest]
  have hOthers := hPaired.not_closing hClosing
  have hDrop := hPaired.drop
  obtain ⟨hSuffix, hNodes⟩ := hPaired.toClose f (by simp) _ hClose
  have hDistinct : n ∉ rest := (List.nodup_cons.mp (hSuffix.sublist.nodup g.nodes_nodup)).1
  have hNode : n ∈ g.nodes := hSuffix.subset (List.mem_cons_self ..)
  have hNew : .closed n ∉ log := fun hMem => (hNodes n hNode).2.mp hMem (List.mem_cons_self ..)
  have hStays : ∀ m, Opened log m → Opened (log ++ [.closed n]) m :=
    fun m hBefore => hBefore.mono (List.subset_append_left _ _)
  constructor
  · simpa [List.countP_cons, hEntry] using hPaired.entries
  · simpa [List.countP_cons, hClosing, hClosing'] using hPaired.closers
  · simpa using hPaired.known
  · rw [List.forall_mem_cons, hOpen]
    exact ⟨⟨List.nil_suffix, by simp⟩, by simpa using hDrop.toOpen⟩
  · refine List.forall_mem_cons.mpr ⟨fun _ _ m hMem => Or.inr ?_, fun f₁ hMem hIs hSound m hIn => ?_⟩
    · exact hStays m (hNodes m hMem).1
    · exact (hDrop.opened f₁ hMem hIs hSound m hIn).imp_right (hStays m)
  · refine List.forall_mem_cons.mpr ⟨fun _ hNot => ?_, fun f₁ hMem hIs hNot => ?_⟩
    · exact absurd hNot (by simp [hClosing'])
    · have hBad := (hPaired.apart f₁ (List.mem_cons_of_mem _ hMem) hIs hNot).1 f (by simp)
      exact absurd hBad (by simp [hClosing])
  · refine List.forall_mem_cons.mpr ⟨fun rest' hRest' => ?_, fun f₁ hMem rest' hRest' => ?_⟩
    · obtain rfl : rest = rest' := Option.some.inj (hRest.symm.trans hRest')
      refine ⟨(List.suffix_cons n rest).trans hSuffix, fun m hMem => ?_⟩
      obtain ⟨hOpened, hClosed⟩ := hNodes m hMem
      refine ⟨hStays m hOpened, ?_⟩
      simp only [List.mem_append, hClosed, List.mem_cons, not_or, Event.closed.injEq]
      by_cases hEq : m = n
      · simp [hEq, hDistinct]
      · simp [hEq]
    · have hBad := hOthers f₁ hMem
      exact absurd hBad (by simp [RuntimeFrame.closing, hRest'])
  · intro m
    obtain ⟨hCount, hOpened⟩ := hPaired.closed m
    by_cases hEq : m = n
    · subst hEq
      refine ⟨by simp [List.count_append, List.count_eq_zero_of_not_mem hNew], fun _ => ?_⟩
      exact hStays m (hNodes m hNode).1
    · have hNe : Event.closed n ≠ .closed m := fun h => hEq (Event.closed.inj h).symm
      refine ⟨by simpa [List.count_append, List.count_cons, hNe] using hCount, fun hMem => ?_⟩
      refine hStays m (hOpened ?_)
      simpa [hEq] using hMem

/-- Beside a pass of `HandleIdle` nobody else closes the nodes but `Schedule`. -/
theorem not_closing_of_exclusive {l : IdleLocals} {A B : List RuntimeFrame}
    (hExclusive : Exclusive s (asyncFrames (A ++ .async (.handleIdle (.quitReport l)) :: B)))
    (hApart : ∀ f₁ ∈ A ++ B, f₁.isSchedule = false) : ∀ f₁ ∈ A ++ B, f₁.closing = false := by
  have hCount := hExclusive.holder
  rw [asyncFrames_append, asyncFrames_cons_async, List.countP_append,
    List.countP_cons_of_pos (by rfl)] at hCount
  have hNone : (asyncFrames (A ++ B)).countP Frame.holdsIdle = 0 := by
    rw [asyncFrames_append, List.countP_append]
    omega
  intro f₁ hMem
  cases f₁ with
  | schedule pc => exact absurd (hApart _ hMem).symm Bool.false_ne_true
  | async f₀ =>
      have hHolds := List.countP_eq_zero.mp hNone f₀ ((mem_asyncFrames f₀ _).mpr hMem)
      cases f₀ with
      | handleIdle pc =>
          cases pc with
          | closeNodes l' rest => exact absurd rfl hHolds
          | _ => rfl
      | _ => rfl

/-- A step keeps the pairing. -/
theorem exec {x : Choice} {A B : List RuntimeFrame}
    (hPaired : Paired g s.log (A ++ f :: B)) (hExclusive : Exclusive s (asyncFrames (A ++ f :: B)))
    (hGuard : (pairsNodes g).exec s (A ++ B) f x = true)
    (hStepped : Stepped g s f s' fs) : Paired g s'.log (A ++ (fs ++ B)) := by
  obtain ⟨es, calls, next, hLog, rfl, hPlain, hKind, hPhase⟩ := hStepped
  rw [hLog]
  have hTop : Paired g s.log (f :: (A ++ B)) := hPaired.perm List.perm_middle
  have hPerm : (calls ++ (next.toList ++ (A ++ B))).Perm (A ++ (calls ++ next.toList ++ B)) := by
    rw [← List.append_assoc calls]
    exact (List.perm_append_comm_assoc A (calls ++ next.toList) B).symm
  refine (append ?_ hPlain).perm hPerm
  cases hPhase with
  | ended es hOther => exact (hTop.others hOther).drop
  | stays es f' hOther hOpen hClose hFailed hKeep =>
      obtain ⟨hEntry, hSchedule⟩ := hKind f' rfl
      exact (hTop.others hOther).stays hEntry hSchedule hOpen hClose hFailed hKeep
  | opened n st rest f' hOk hOpen hRest hClose hFailed =>
      obtain ⟨hEntry, hSchedule⟩ := hKind f' rfl
      exact hTop.opens hEntry hSchedule hOpen (hRest ▸ List.suffix_refl _) hClose hFailed
        fun _ => ⟨hOk, hRest⟩
  | openFailed n st rest f' hOk hOpen hRest hClose hUnfailed hFailed =>
      obtain ⟨hEntry, hSchedule⟩ := hKind f' rfl
      exact hTop.opens hEntry hSchedule hOpen (hRest ▸ List.nil_suffix) hClose hUnfailed
        fun hNot => absurd hNot (by simp [hFailed])
  | closed n rest f' hClose hOpen hRest =>
      exact hTop.closes (hKind f' rfl).1 hClose hOpen hRest
  | begins f' hBegins hOpen hClose =>
      rw [List.append_nil]
      obtain ⟨hEntry, hSchedule⟩ := hKind f' rfl
      rcases hBegins with ⟨l, rfl⟩ | ⟨hIs, hKeep, hNone, hFailed⟩
      · simp only [pairsNodes, RuntimeFrame.abandons, Bool.not_false, Bool.true_or, Bool.true_and,
          Bool.and_eq_true, List.all_eq_true, Bool.not_eq_true'] at hGuard
        obtain ⟨⟨hOpened, hClosed⟩, hApart⟩ := hGuard
        refine hTop.begins hEntry hOpen hClose (fun n hNode => ?_) (fun n hNode => ?_)
          (not_closing_of_exclusive hExclusive hApart) hApart
        · simpa using List.all_eq_true.mp hOpened n hNode
        · simpa using List.any_eq_false.mp hClosed n hNode
      · obtain ⟨hOthers, hLogNone⟩ := hTop.apart f (by simp) hIs hKeep
        refine hTop.begins hEntry hOpen hClose (fun n hNode => ?_) (fun n _ => hLogNone n)
          (List.forall_mem_cons.mp hOthers).2
          (hTop.not_schedule (RuntimeFrame.isEntry_of_isSchedule hIs))
        exact (hTop.opened f (by simp) hIs hFailed n hNode).resolve_left (by simp [hNone])

end Paired

theorem noneOpen_append {es : List Event} (hNone : noneOpen g s = true)
    (hLog : s'.log = s.log ++ es) (hOpened : ∀ n st, .opened n st ∉ es) :
    noneOpen g s' = true := by
  refine List.all_eq_true.mpr fun n hNode => ?_
  have hTest := List.all_eq_true.mp hNone n hNode
  rw [hLog]
  simp only [Bool.or_eq_true, Bool.not_eq_true', decide_eq_false_iff_not, decide_eq_true_eq,
    List.mem_append] at hTest ⊢
  rcases hTest with hNot | hClosed
  · left
    rintro ⟨st, hMem, hOk⟩
    rcases List.mem_append.mp hMem with hBefore | hNew
    · exact hNot ⟨st, hBefore, hOk⟩
    · exact hOpened n st hNew
  · exact Or.inr (Or.inl hClosed)

section

variable {f : RuntimeFrame} {fs A B : List RuntimeFrame}

/-- `Start` and `Schedule` begin with `kRunning`. -/
theorem not_begun_of_terminated (hStep : runtimeExec g s f x = some (s', fs))
    (hAfter : s'.state = .kTerminated) :
    f ≠ .async (.start .begin) ∧ f ≠ .schedule .begin := by
  constructor
  all_goals
    rintro rfl
    cases hStep
    cases hAfter

/-- A step that terminates the scheduler leaves no node open. -/
theorem Paired.terminates (hPaired : Paired g s.log (A ++ f :: B))
    (hGuard : (pairsNodes g).exec s (A ++ B) f x = true) (hTerminates : f.terminates = true) :
    noneOpen g s = true ∧ ∀ f' ∈ A ++ f :: B, f'.opens g = false := by
  have hSelf : f.opens g = false := by
    unfold RuntimeFrame.terminates at hTerminates
    split at hTerminates
    all_goals first
      | rfl
      | exact absurd hTerminates Bool.false_ne_true
  suffices hOthers : noneOpen g s = true ∧ ∀ f' ∈ A ++ B, f'.opens g = false by
    refine ⟨hOthers.1, fun f' hMem => ?_⟩
    rcases mem_new_or_others (show f' ∈ A ++ ([f] ++ B) from hMem) with hTop | hOther
    · exact List.mem_singleton.mp hTop ▸ hSelf
    · exact hOthers.2 f' hOther
  by_cases hAbandons : f.abandons = true
  · simp only [pairsNodes, hAbandons, Bool.not_true, Bool.false_or, Bool.and_eq_true,
      List.all_eq_true, Bool.not_eq_true'] at hGuard
    exact hGuard.1
  · have hClose : f.toClose = some [] := by
      unfold RuntimeFrame.terminates at hTerminates
      split at hTerminates
      all_goals first
        | rfl
        | exact absurd rfl hAbandons
        | exact absurd hTerminates Bool.false_ne_true
    obtain ⟨-, hNodes⟩ := hPaired.toClose f (by simp) [] hClose
    refine ⟨noneOpen_of_closed fun n hNode => (hNodes n hNode).2.mpr (by simp), fun f' hMem => ?_⟩
    have hIn : f' ∈ A ++ f :: B := by
      simp only [List.mem_append, List.mem_cons] at hMem ⊢
      tauto
    obtain ⟨hSuffix, hNew⟩ := hPaired.toOpen f' hIn
    refine f'.opens_of_toOpen g (List.eq_nil_iff_forall_not_mem.mpr fun n hOpen => ?_)
    obtain ⟨st, hTried, -⟩ := (hNodes n (hSuffix.subset hOpen)).1
    exact hNew n hOpen st hTried

theorem EndsPaired.exec (hPaired : Paired g s.log (A ++ f :: B))
    (hEnds : EndsPaired g s (A ++ f :: B)) (hGuard : (pairsNodes g).exec s (A ++ B) f x = true)
    (hStep : runtimeExec g s f x = some (s', fs)) (hStepped : Stepped g s f s' fs) :
    EndsPaired g s' (A ++ (fs ++ B)) := by
  intro hAfter
  have hBefore : noneOpen g s = true ∧ ∀ f' ∈ A ++ f :: B, f'.opens g = false := by
    by_cases hState : s.state = .kTerminated
    · exact hEnds hState
    · exact hPaired.terminates hGuard (runtimeExec_terminates hStep hState hAfter)
  obtain ⟨hNone, hOpens⟩ := hBefore
  have hTop : f.toOpen g = [] := f.toOpen_of_opens g (hOpens f (by simp))
    (not_begun_of_terminated hStep hAfter)
  obtain ⟨es, calls, next, hLog, rfl, hPlain, -, hPhase⟩ := hStepped
  have hQuiet : (∀ n st, .opened n st ∉ es) ∧ ∀ f', next = some f' → f'.toOpen g = [] := by
    cases hPhase with
    | ended es hOther =>
        exact ⟨fun n st hMem => Bool.false_ne_true (hOther _ hMem), by simp⟩
    | stays es f' hOther hOpen =>
        refine ⟨fun n st hMem => Bool.false_ne_true (hOther _ hMem), ?_⟩
        simp [hOpen, hTop]
    | opened n st rest f' hOk hOpen => simp [hTop] at hOpen
    | openFailed n st rest f' hOk hOpen => simp [hTop] at hOpen
    | begins f' hBegins hOpen => simp [hOpen]
    | closed n rest f' hClose hOpen => simp [hOpen]
  refine ⟨noneOpen_append hNone hLog hQuiet.1, fun f' hMem => ?_⟩
  rcases mem_new_or_others hMem with hNew | hOther
  · rcases List.mem_append.mp hNew with hCall | hNext
    · have hEntry := (RuntimeFrame.plain_iff.mp (hPlain f' hCall)).1
      exact f'.opens_of_toOpen g (f'.toOpen_of_not_entry g hEntry)
    · exact f'.opens_of_toOpen g (hQuiet.2 f' (Option.mem_toList.mp hNext))
  · exact hOpens f' (mem_of_others hOther)

end

theorem Paired.initial (e : Entry) : Paired g [] [e.frame] := by
  have hEntry : e.frame.toOpen g = g.nodes := by cases e <;> rfl
  have hClose : e.frame.toClose = none := by cases e <;> rfl
  have hClosing : e.frame.closing = false := by simp [RuntimeFrame.closing, hClose]
  constructor
  · cases e <;> simp [Entry.frame, RuntimeFrame.isEntry]
  · simp [hClosing]
  · simp
  · simp [hEntry]
  · simpa [hEntry] using fun _ _ n hNode => Or.inl hNode
  · simp [hClosing]
  · simp [hClose]
  · simp

/-- In every run that meets `pairsNodes`. -/
theorem paired_of_reaches {outputs : OutId → OutputStreamManager} {defaultQueue : QueueId}
    {errorCallback : Bool} {e : Entry} {c : Config Shared RuntimeFrame}
    (hReach : (runtime g).Reaches (pairsNodes g)
      (launched e (initial outputs defaultQueue errorCallback)) c) :
    Paired g c.shared.log c.frames ∧ EndsPaired g c.shared c.frames := by
  refine Machine.invariant_with
    (J := fun s fs => Exclusive s (asyncFrames fs) ∧ Placed g s (asyncFrames fs))
    (I := fun s fs => Paired g s.log fs ∧ EndsPaired g s fs)
    (fun c hReach => ⟨exclusive_of_runtime hReach, placed_of_runtime hReach⟩) ?_ ?_ ?_ hReach
  · exact ⟨Paired.initial e, fun hState => SchedulerState.noConfusion hState⟩
  · rintro s A f B x s' fs ⟨hExclusive, hPlaced⟩ ⟨hPaired, hEnds⟩ hGuard hStep
    have hNoOpen : ∀ r, f ≠ .async (.run r .callOpen) := by
      rintro r rfl
      exact (hPlaced.run r .callOpen (by simp)).2.2.2
    have hStepped := runtimeExec_stepped hStep hNoOpen
    exact ⟨hPaired.exec hExclusive hGuard hStepped, hEnds.exec hPaired hGuard hStep hStepped⟩
  · rintro s A b s' fs - ⟨hPaired, hEnds⟩ - hSpawn
    obtain ⟨r, hCall, hOut⟩ := Option.map_eq_some_iff.mp hSpawn
    cases hOut
    obtain ⟨tasks, hSame, hNew⟩ := spawn_frame hCall
    have hPlain : ∀ f ∈ r.2.map RuntimeFrame.async, f.plain = true := by
      intro f hMem
      obtain ⟨f₀, hIn, rfl⟩ := List.mem_map.mp hMem
      rcases hNew f₀ hIn with ⟨q, rfl⟩ | ⟨pc, rfl⟩ <;> rfl
    rw [hSame]
    refine ⟨(hPaired.append hPlain).perm List.perm_append_comm, fun hState => ?_⟩
    obtain ⟨hNone, hOpens⟩ := hEnds hState
    refine ⟨hNone, fun f hMem => ?_⟩
    rcases List.mem_append.mp hMem with hOld | hCallee
    · exact hOpens f hOld
    · have hEntry := (RuntimeFrame.plain_iff.mp (hPlain f hCallee)).1
      exact f.opens_of_toOpen g (f.toOpen_of_not_entry g hEntry)

/-- **`Open` and `Close` are paired**: whenever the scheduler is terminated, a
node whose `Open` returned OK has been closed exactly once, and no other node
has been closed. -/
theorem opened_iff_closed_once {outputs : OutId → OutputStreamManager}
    {defaultQueue : QueueId} {errorCallback : Bool} {e : Entry}
    {c : Config Shared RuntimeFrame}
    (hReach : (runtime g).Reaches (pairsNodes g)
      (launched e (initial outputs defaultQueue errorCallback)) c)
    (hState : c.shared.state = .kTerminated) (n : NodeId) :
    (Opened c.shared.log n → c.shared.log.count (.closed n) = 1) ∧
      (¬ Opened c.shared.log n → c.shared.log.count (.closed n) = 0) := by
  obtain ⟨hPaired, hEnds⟩ := paired_of_reaches hReach
  obtain ⟨hCount, hOpened⟩ := hPaired.closed n
  refine ⟨fun hOpen => ?_, fun hNot => ?_⟩
  · have hNode : n ∈ g.nodes := by
      obtain ⟨st, hMem, -⟩ := hOpen
      exact hPaired.known n st hMem
    have hClosed := closed_of_noneOpen (hEnds hState).1 hNode hOpen
    have hPos := List.count_pos_iff.mpr hClosed
    omega
  · exact List.count_eq_zero_of_not_mem fun hClosed => hNot (hOpened hClosed)

/-- The rule at work: a chain of one node that runs to its end. -/
theorem opened_iff_closed_once_chain :
    ∃ c : Config Shared RuntimeFrame, c.shared.state = .kTerminated ∧
      Opened c.shared.log 0 ∧ c.shared.log.count (.closed 0) = 1 := by
  obtain ⟨c, hReach, hTest⟩ := (runtime (.chain 1 id (by simp))).exists_reaches
    (pairsNodes (.chain 1 id (by simp))) (launched .start (chainInitial 1 false)) chainRun
    (fun c => decide (c.shared.state = .kTerminated) &&
      decide (Opened c.shared.log 0)) (by decide +kernel)
  simp only [Bool.and_eq_true, decide_eq_true_eq] at hTest
  obtain ⟨hState, hOpened⟩ := hTest
  exact ⟨c, hState, hOpened, (opened_iff_closed_once hReach hState 0).1 hOpened⟩

/-- **A failed `Open` leaves the earlier nodes open**: in a chain of two nodes
the `Open` of the second fails, and `Start` returns without closing the first. -/
theorem left_open :
    ∃ c : Config Shared RuntimeFrame,
      (runtime (.chain 2 id (by simp))).Reaches Guard.all
        (launched .start (chainInitial 2 false)) c ∧
      c.shared.state = .kTerminated ∧ c.frames = [] ∧
      Opened c.shared.log 0 ∧ c.shared.log.count (.closed 0) = 0 := by
  obtain ⟨c, hReach, hTest⟩ := (runtime (.chain 2 id (by simp))).exists_reaches
    Guard.all (launched .start (chainInitial 2 false))
    (runs 0 5 .ok ++ runs 0 1 (.returns ⟨.internal, "broken"⟩ []) ++ runs 0 2 .ok)
    (fun c => decide (c.shared.state = .kTerminated) && c.frames.isEmpty &&
      decide (Opened c.shared.log 0) &&
      decide (c.shared.log.count (.closed 0) = 0)) (by decide +kernel)
  simp only [Bool.and_eq_true, decide_eq_true_eq, List.isEmpty_iff] at hTest
  obtain ⟨⟨⟨hState, hNone⟩, hOpened⟩, hClosed⟩ := hTest
  exact ⟨c, hReach, hState, hNone, hOpened, hClosed⟩

end GraphRuntime.Scheduler
