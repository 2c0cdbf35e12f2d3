import GraphRuntime.Scheduler.Accounting
import GraphRuntime.Stream.Sequenced

/-!
# What the inputs of one invocation have in common

The input stream handler of a node decides at which timestamp its inputs are
settled, and `FillInputSet` would take the packets at that timestamp.  `RunNode`
asks neither: it pops the head of every port, whatever its timestamp, as soon
as any arrival has scheduled the node.

So the packets of an invocation have one timestamp only where the heads happen
to.  `alignmentGuard` says where: when a call is about to take its first packet,
the heads it has still to read are at the timestamp of that packet and nothing
up to it can still come; and from then on no input it has still to read comes to
show another packet.  Under it the invocations of a node are aligned, and every
pop is at a timestamp for which `GetReadiness` reports `kReadyForProcess`.
-/

namespace GraphRuntime.Scheduler

open GraphRuntime.Stream Interleaving

variable {g : Graph} {n : NodeId} {s s' : Shared} {f : Frame} {fs A B : List Frame}
  {x : Choice} {t : Timestamp} {rest : List StreamId} {c : Config Shared Frame}

/-- All packets of an invocation carry one timestamp. -/
def Common (inputs : List InputShard) : Prop :=
  ∀ i ∈ inputs, ∀ j ∈ inputs, ∀ p q, i.packet = some p → j.packet = some q →
    p.timestamp = q.timestamp

/-! ## The runs considered -/

/-- The call has taken a packet and has still to read stream `u`. -/
def Frame.awaits (n : NodeId) (u : StreamId) : Frame → Bool
  | .run r (.popInputs rest) =>
      decide (r.node = n) && r.inputs.any (·.packet.isSome) && rest.any (·.2 = u)
  | _ => false

/-- The stream at the front of which a step brings a new packet: a pop from a
stream that holds more, or a delivery to a stream that holds none. -/
def brings (g : Graph) (s : Shared) : Frame → Option StreamId
  | .run _ (.popInputs ((_, u) :: _)) =>
      if (s.stream u).queue.length ≥ 2 then some u else none
  | .propagate p =>
      (target g p).filter fun u => (s.stream u).isEmpty && !p.packets.isEmpty
  | _ => none

/-- The head of each stream of `rest` is at `t`, and no input of the node has or
may get anything before it. -/
def alignedAt (g : Graph) (s : Shared) (n : NodeId) (rest : List StreamId) (t : Timestamp) :
    Bool :=
  (rest.all fun u => (s.stream u).queue.head?.all (·.timestamp = t)) &&
    (g.inputs n).all fun u =>
      match (s.stream u).queue.head? with
      | none => decide (t < (s.stream u).nextTimestampBound)
      | some p => decide (t ≤ p.timestamp)

/-- The streams of node `n` keep increasing timestamps; its calls take their
first packet from aligned inputs, and what they have still to read then stays as
it is or becomes empty. -/
def alignmentGuard (g : Graph) (n : NodeId) : Guard Shared Frame Choice Call where
  exec := fun s others f _ =>
    (brings g s f).all (fun u => !others.any (Frame.awaits n u)) &&
      match f with
      | .run r (.popInputs ((_, u) :: rest)) =>
          decide (r.node ≠ n) || r.inputs.any (·.packet.isSome) ||
            (s.stream u).queue.head?.all fun p =>
              alignedAt g s n (u :: rest.map Prod.snd) p.timestamp
      | .propagate p =>
          (target g p).all fun u =>
            decide (u ∉ g.inputs n) || (s.stream u).follows p.packets
      | _ => true
  spawn := fun _ _ _ => true

/-! ## What a call has still to read -/

/-- For a call that has taken a packet at `t`: the heads it has still to read are
at `t`, and all inputs are past `t`. -/
structure Reading (g : Graph) (n : NodeId) (s : Shared) (t : Timestamp) (rest : List StreamId) :
    Prop where
  heads : ∀ u ∈ rest, ∀ p, (s.stream u).queue.head? = some p → p.timestamp = t
  past : ∀ u ∈ g.inputs n, Past t (s.stream u)

/-- A delivery to an input of the node continues its stream. -/
def Continues (g : Graph) (n : NodeId) (s : Shared) (f : Frame) : Prop :=
  ∀ p, f = .propagate p → ∀ u ∈ g.inputs n, target g p = some u →
    (s.stream u).follows p.packets = true

theorem exec_sequenced {u : StreamId} (hInput : u ∈ g.inputs n)
    (hContinues : Continues g n s f) (hSequenced : Sequenced (s.stream u))
    (hStep : exec g s f x = some (s', fs)) : Sequenced (s'.stream u) := by
  have hChange := exec_stream u hStep
  generalize s'.stream u = m at hChange ⊢
  cases hChange with
  | same => exact hSequenced
  | popped => exact hSequenced.popQueueHead
  | added p _ hTarget _ _ => exact hSequenced.addPackets (hContinues p rfl u hInput hTarget)
  | bounded p => exact hSequenced.setNextTimestampBound p.nextBound

theorem exec_past {u : StreamId} (hInput : u ∈ g.inputs n)
    (hContinues : Continues g n s f) (hPast : Past t (s.stream u))
    (hStep : exec g s f x = some (s', fs)) : Past t (s'.stream u) := by
  have hChange := exec_stream u hStep
  generalize s'.stream u = m at hChange ⊢
  cases hChange with
  | same => exact hPast
  | popped => exact hPast.popQueueHead
  | added p _ hTarget _ _ => exact hPast.addPackets (hContinues p rfl u hInput hTarget)
  | bounded p => exact hPast.setNextTimestampBound p.nextBound

/-- A step that brings no new packet to the front of a stream leaves its head or
takes the last packet. -/
theorem exec_head {u : StreamId} (hBrings : brings g s f ≠ some u)
    (hStep : exec g s f x = some (s', fs)) {p : Packet}
    (hHead : (s'.stream u).queue.head? = some p) : (s.stream u).queue.head? = some p := by
  have hChange := exec_stream u hStep
  generalize s'.stream u = m at hChange hHead
  cases hChange with
  | same => exact hHead
  | popped r port rest =>
      rw [InputStreamManager.popQueueHead_queue] at hHead
      have hShort : ¬ (s.stream u).queue.length ≥ 2 := by
        intro hLong
        exact hBrings (by simp [brings, hLong])
      have hLeft : (s.stream u).queue.tail = [] := by
        rw [List.eq_nil_iff_length_eq_zero, List.length_tail]
        omega
      simp [hLeft] at hHead
  | added q _ hTarget hPackets _ =>
      have hFilled : (s.stream u).queue ≠ [] := by
        intro hEmpty
        refine hBrings ?_
        simp [brings, hTarget, InputStreamManager.isEmpty, hEmpty, hPackets]
      cases hClosed : (s.stream u).closed with
      | true => rwa [(InputStreamManager.addPackets_of_closed hClosed q.packets).1] at hHead
      | false =>
          rw [(InputStreamManager.addPackets_of_open hClosed q.packets).1] at hHead
          obtain ⟨first, tail, hQueue⟩ := List.exists_cons_of_ne_nil hFilled
          simpa [hQueue] using hHead
  | bounded => rwa [InputStreamManager.setNextTimestampBound_queue] at hHead

theorem Reading.exec (hReading : Reading g n s t rest) (hContinues : Continues g n s f)
    (hBrings : ∀ u ∈ rest, brings g s f ≠ some u)
    (hStep : Scheduler.exec g s f x = some (s', fs)) : Reading g n s' t rest where
  heads := fun u hMem p hHead => hReading.heads u hMem p (exec_head (hBrings u hMem) hStep hHead)
  past := fun u hInput => exec_past hInput hContinues (hReading.past u hInput) hStep

/-- What the first pop that takes a packet finds. -/
theorem reading_of_aligned (hSequenced : ∀ u ∈ g.inputs n, Sequenced (s.stream u))
    (hAligned : alignedAt g s n rest t = true) : Reading g n s t rest := by
  simp only [alignedAt, Bool.and_eq_true, List.all_eq_true, Option.all_eq_true,
    decide_eq_true_eq] at hAligned
  obtain ⟨hHeads, hLater⟩ := hAligned
  refine ⟨hHeads, fun u hInput => ?_⟩
  have hHere := hLater u hInput
  cases hHead : (s.stream u).queue.head? with
  | none =>
      rw [hHead] at hHere
      have hEmpty : (s.stream u).queue = [] := List.head?_eq_none_iff.mp hHead
      exact ⟨by simp [hEmpty], of_decide_eq_true hHere⟩
  | some p =>
      rw [hHead] at hHere
      exact .of_head (hSequenced u hInput) hHead (of_decide_eq_true hHere)

theorem Reading.tail {u : StreamId} (hReading : Reading g n s t (u :: rest)) :
    Reading g n s t rest where
  heads := fun v hMem => hReading.heads v (List.mem_cons_of_mem u hMem)
  past := hReading.past

/-! ## The invariant -/

structure Aligning (g : Graph) (n : NodeId) (s : Shared) (fs : List Frame) : Prop where
  sequenced : ∀ u ∈ g.inputs n, Sequenced (s.stream u)
  unread : ∀ r rest, .run r (.popInputs rest) ∈ fs → rest <:+ g.inputPorts r.node
  reading : ∀ r rest, .run r (.popInputs rest) ∈ fs → r.node = n →
    ∀ i ∈ r.inputs, ∀ p, i.packet = some p → Reading g n s p.timestamp (rest.map Prod.snd)
  common : ∀ r pc, .run r pc ∈ fs → r.node = n → Common r.inputs
  log : ∀ inputs, .processCalled n inputs ∈ s.log → Common inputs

theorem afterAct_ne_popInputs (m : NodeId) (action : FinalizeAction)
    (ports : List (String × StreamId)) : afterAct g m action ≠ .popInputs ports := by
  unfold afterAct
  split <;> simp

/-- A step of a call reads the next port or leaves what has been read. -/
theorem runStep_inputs {r r' : Invocation} {pc pc' : RunPc} {u : Turn (Invocation × RunPc)}
    (hTurn : runStep g s r x pc = some u) (hNext : u.next = some (r', pc')) :
    (∃ port v rest i, pc = .popInputs ((port, v) :: rest) ∧ pc' = .popInputs rest ∧
        r'.inputs = r.inputs ++ [i] ∧
        ∀ p, i.packet = some p → (s.stream v).queue.head? = some p) ∨
      (r'.inputs = r.inputs ∧ ∀ rest, pc' ≠ .popInputs rest) := by
  revert hTurn
  fun_cases runStep g s r x pc
  case case1 port v rest pop shard =>
    intro hTurn
    cases hTurn
    cases hNext
    left
    refine ⟨port, v, rest, shard, rfl, rfl, rfl, fun p hPacket => ?_⟩
    have hPop : pop = (s.stream v).popQueueHead := rfl
    have hShown : (if pop.1.isEmpty then none else some pop.1) = some p := hPacket
    split at hShown
    · exact absurd hShown (by simp)
    · rename_i hSome
      cases hQueue : (s.stream v).queue with
      | nil => simp [hPop, InputStreamManager.popQueueHead, hQueue, Packet.isEmpty,
          Packet.empty] at hSome
      | cons q tail =>
          have hFirst : pop.1 = q := by simp [hPop, InputStreamManager.popQueueHead, hQueue]
          rw [hFirst] at hShown
          exact hShown
  case case12 status =>
    intro hTurn
    cases hTurn
    cases hNext
    right
    refine ⟨rfl, fun rest => ?_⟩
    unfold afterProcess
    repeat' split
    all_goals simp
  all_goals
    intro hTurn
    cases hTurn <;> cases hNext
  all_goals right
  all_goals refine ⟨rfl, fun rest => ?_⟩
  all_goals try split
  all_goals first
    | exact afterAct_ne_popInputs _ _ _
    | simp

theorem continues_of_guard {others : List Frame}
    (hGuard : (alignmentGuard g n).exec s others f x = true) : Continues g n s f := by
  rintro p rfl u hInput hTarget
  simp only [alignmentGuard, Bool.and_eq_true] at hGuard
  simpa [hTarget, hInput] using hGuard.2

theorem not_brings_of_guard {others : List Frame}
    (hGuard : (alignmentGuard g n).exec s others f x = true) {r : Invocation}
    {ports : List (String × StreamId)} (hMem : .run r (.popInputs ports) ∈ others)
    (hNode : r.node = n) {i : InputShard} (hShard : i ∈ r.inputs)
    (hTaken : i.packet.isSome = true) :
    ∀ u ∈ ports.map Prod.snd, brings g s f ≠ some u := by
  intro u hUnread hBrings
  simp only [alignmentGuard, Bool.and_eq_true] at hGuard
  have hNone := hGuard.1
  rw [hBrings] at hNone
  have hAwaits : others.any (Frame.awaits n u) = true := by
    obtain ⟨port, hPort, rfl⟩ := List.mem_map.mp hUnread
    have hAny : r.inputs.any (·.packet.isSome) = true := List.any_eq_true.mpr ⟨i, hShard, hTaken⟩
    have hRest : ports.any (fun q => decide (q.2 = port.2)) = true :=
      List.any_eq_true.mpr ⟨port, hPort, by simp⟩
    refine List.any_eq_true.mpr ⟨_, hMem, ?_⟩
    simp only [Frame.awaits, hNode, hAny, hRest, decide_true, Bool.and_self]
  simp [hAwaits] at hNone

/-- **What a call pops** is at the timestamp of everything it has taken, and
settled. -/
theorem Aligning.reading_head {r : Invocation} {port : String} {u : StreamId}
    {ports : List (String × StreamId)} {others : List Frame} {p : Packet}
    (hAligning : Aligning g n s fs) (hMem : .run r (.popInputs ((port, u) :: ports)) ∈ fs)
    (hNode : r.node = n)
    (hGuard : (alignmentGuard g n).exec s others (.run r (.popInputs ((port, u) :: ports))) x =
      true)
    (hHead : (s.stream u).queue.head? = some p) :
    Reading g n s p.timestamp (u :: ports.map Prod.snd) := by
  by_cases hTaken : ∃ i ∈ r.inputs, ∃ q, i.packet = some q
  · obtain ⟨i, hShard, q, hPacket⟩ := hTaken
    have hReading := hAligning.reading r _ hMem hNode i hShard q hPacket
    have hSame : p.timestamp = q.timestamp := hReading.heads u List.mem_cons_self p hHead
    rw [hSame]
    exact hReading
  · have hNone : r.inputs.any (·.packet.isSome) = false := by
      simp only [List.any_eq_false, Option.isSome_iff_exists]
      exact fun i hShard hSome => hTaken ⟨i, hShard, hSome⟩
    simp only [alignmentGuard, Bool.and_eq_true] at hGuard
    have hAligned : alignedAt g s n (u :: ports.map Prod.snd) p.timestamp = true := by
      simpa [hNode, hNone, hHead] using hGuard.2
    exact reading_of_aligned hAligning.sequenced hAligned

theorem Aligning.exec (hNodup : (g.inputs n).Nodup) (hAligning : Aligning g n s (A ++ f :: B))
    (hGuard : (alignmentGuard g n).exec s (A ++ B) f x = true)
    (hStep : Scheduler.exec g s f x = some (s', fs)) : Aligning g n s' (A ++ (fs ++ B)) := by
  have hContinues := continues_of_guard hGuard
  constructor
  · intro u hInput
    exact exec_sequenced hInput hContinues (hAligning.sequenced u hInput) hStep
  · intro r ports hMem
    rcases mem_after hMem with hNew | hOld
    · rcases run_of_exec hStep hNew with ⟨r₀, pc₀, u, rfl, hTurn, -, hNext⟩ |
        ⟨q, it, queue, -, -, -, rfl, hPc⟩
      · rcases runStep_inputs hTurn hNext with ⟨port, v, rest, i, rfl, hPc, -, -⟩ | ⟨-, hPc⟩
        · cases hPc
          rw [(runStep_next hTurn hNext).2.1]
          exact (List.suffix_cons _ _).trans (hAligning.unread r₀ _ mem_running)
        · exact absurd rfl (hPc ports)
      · cases hPc
        exact List.suffix_refl _
    · exact hAligning.unread r ports hOld
  · intro r ports hMem hNode i hShard p hPacket
    rcases mem_new_or_others hMem with hNew | hOther
    · rcases run_of_exec hStep hNew with ⟨r₀, pc₀, u, rfl, hTurn, -, hNext⟩ |
        ⟨q, it, queue, -, -, -, rfl, -⟩
      · rcases runStep_inputs hTurn hNext with ⟨port, v, rest, j, rfl, hPc, hInputs, hFirst⟩ |
          ⟨-, hPc⟩
        · cases hPc
          have hNode₀ : r₀.node = n := (runStep_next hTurn hNext).2.1.symm.trans hNode
          have hReading : Reading g n s p.timestamp (v :: ports.map Prod.snd) := by
            rw [hInputs] at hShard
            rcases List.mem_append.mp hShard with hOld | hLast
            · exact hAligning.reading r₀ _ mem_running hNode₀ i hOld p hPacket
            · obtain rfl := List.mem_singleton.mp hLast
              exact hAligning.reading_head mem_running hNode₀ hGuard (hFirst p hPacket)
          -- the pop itself concerns a stream that is read now
          have hSuffix : (port, v) :: ports <:+ g.inputPorts n :=
            hNode₀ ▸ hAligning.unread r₀ _ mem_running
          have hDistinct : (v :: ports.map Prod.snd).Nodup :=
            hNodup.sublist (hSuffix.sublist.map Prod.snd)
          refine hReading.tail.exec hContinues (fun u hUnread hBrings => ?_) hStep
          have hSame : v = u := by
            simp only [brings] at hBrings
            split at hBrings
            · exact Option.some.inj hBrings
            · exact absurd hBrings (by simp)
          exact (List.nodup_cons.mp hDistinct).1 (hSame ▸ hUnread)
        · exact absurd rfl (hPc ports)
      · exact absurd hShard List.not_mem_nil
    · have hReading := hAligning.reading r ports (mem_of_others hOther) hNode i hShard p hPacket
      have hBrings := not_brings_of_guard hGuard hOther hNode hShard (by simp [hPacket])
      exact hReading.exec hContinues hBrings hStep
  · intro r pc hMem hNode
    rcases mem_after hMem with hNew | hOld
    · rcases run_of_exec hStep hNew with ⟨r₀, pc₀, u, rfl, hTurn, -, hNext⟩ |
        ⟨q, it, queue, -, -, -, rfl, -⟩
      · have hNode₀ : r₀.node = n := (runStep_next hTurn hNext).2.1.symm.trans hNode
        have hBefore := hAligning.common r₀ pc₀ mem_running hNode₀
        rcases runStep_inputs hTurn hNext with ⟨port, v, rest, i, rfl, -, hInputs, hFirst⟩ |
          ⟨hSame, -⟩
        · have hLast : ∀ j ∈ r₀.inputs, ∀ p q, j.packet = some p → i.packet = some q →
              q.timestamp = p.timestamp := by
            intro j hShard p q hPacket hTaken
            have hReading := hAligning.reading r₀ _ mem_running hNode₀ j hShard p hPacket
            exact hReading.heads v List.mem_cons_self q (hFirst q hTaken)
          intro j hJ k hK p q hP hQ
          rw [hInputs, List.mem_append, List.mem_singleton] at hJ hK
          rcases hJ with hJ | rfl <;> rcases hK with hK | rfl
          · exact hBefore j hJ k hK p q hP hQ
          · exact (hLast j hJ p q hP hQ).symm
          · exact hLast k hK q p hQ hP
          · rw [Option.some.inj (hP.symm.trans hQ)]
        · rw [hSame]
          exact hBefore
      · exact fun i hShard => absurd hShard List.not_mem_nil
    · exact hAligning.common r pc hOld hNode
  · intro inputs hMem
    have hChange := exec_log hStep
    generalize s'.log = log at hChange hMem
    cases hChange with
    | same => exact hAligning.log inputs hMem
    | processCalled r =>
        rcases List.mem_append.mp hMem with hOld | hNew
        · exact hAligning.log inputs hOld
        · obtain ⟨hNode, hInputs⟩ : n = r.node ∧ inputs = r.inputs := by simpa using hNew
          rw [hInputs]
          exact hAligning.common r _ mem_running hNode.symm
    | _ => exact hAligning.log inputs (by simpa using hMem)

theorem Aligning.spawn {b : Call} (hAligning : Aligning g n s A)
    (hSpawn : Scheduler.spawn g s b = some (s', fs)) : Aligning g n s' (A ++ fs) := by
  have hOld : ∀ r pc, .run r pc ∈ A ++ fs → .run r pc ∈ A := fun r pc hMem =>
    mem_of_spawn hSpawn hMem (by simp) (by simp)
  obtain ⟨tasks, rfl, -⟩ := spawn_frame hSpawn
  refine ⟨hAligning.sequenced, fun r ports hMem => hAligning.unread r ports (hOld _ _ hMem), ?_,
    fun r pc hMem => hAligning.common r pc (hOld _ _ hMem), hAligning.log⟩
  intro r ports hMem hNode i hShard p hPacket
  obtain ⟨hHeads, hPast⟩ := hAligning.reading r ports (hOld _ _ hMem) hNode i hShard p hPacket
  exact ⟨hHeads, hPast⟩

theorem Aligning.initial (hSequenced : ∀ u ∈ g.inputs n, Sequenced (s.stream u))
    (hLog : ∀ inputs, .processCalled n inputs ∉ s.log) : Aligning g n s [.start .begin] :=
  ⟨hSequenced, by simp, by simp, by simp, fun inputs hMem => absurd hMem (hLog inputs)⟩

/-! ## Whole runs -/

/-- The `RunNode` call of thread `i` that is about to pop a stream. -/
def nextPop (c : Config Shared Frame) (i : Nat) : Option (Invocation × StreamId) :=
  match c.threads[i]? with
  | some (.run r (.popInputs ((_, u) :: _)) :: _) => some (r, u)
  | _ => none

theorem thread_of_nextPop {i : Nat} {r : Invocation} {u : StreamId}
    (hPop : nextPop c i = some (r, u)) :
    ∃ port ports below, c.threads[i]? = some (.run r (.popInputs ((port, u) :: ports)) :: below) := by
  unfold nextPop at hPop
  split at hPop
  · rename_i hThread
    cases hPop
    exact ⟨_, _, _, hThread⟩
  · exact absurd hPop (by simp)

/-- What thread `i` is about to pop for node `n`, the handler reports ready. -/
def PopsReady (g : Graph) (n : NodeId) (c : Config Shared Frame) (i : Nat) : Prop :=
  ∀ r u p, nextPop c i = some (r, u) → r.node = n →
    (c.shared.stream u).queue.head? = some p →
    SyncSet.getReadiness ((g.inputs n).map c.shared.stream) = (.readyForProcess, p.timestamp)

/-- Every `Process` call of node `n` so far was given packets of one timestamp,
and every pop that may come next is one the handler reports ready. -/
structure InputsAligned (G : Guard Shared Frame Choice Call) (g : Graph) (n : NodeId)
    (c : Config Shared Frame) : Prop where
  processed : ∀ inputs, .processCalled n inputs ∈ c.shared.log → Common inputs
  popped : ∀ i x, G.allows c (.run i x) = true → PopsReady g n c i

/-- **Aligned invocations**, in every state of every run whose steps meet
`alignmentGuard`, whatever the streams hold in the beginning. -/
theorem inputs_aligned (hNodup : (g.inputs n).Nodup)
    (hSequenced : ∀ u ∈ g.inputs n, Sequenced (s.stream u))
    (hLog : ∀ inputs, .processCalled n inputs ∉ s.log)
    (hReach : (machine g).Reaches (alignmentGuard g n) (started s) c) :
    InputsAligned (alignmentGuard g n) g n c := by
  have hAligning : Aligning g n c.shared c.frames :=
    Machine.invariant (Aligning.initial hSequenced hLog)
      (fun _ _ _ _ _ _ _ hBefore hGuard hStep => hBefore.exec hNodup hGuard hStep)
      (fun _ _ _ _ _ hBefore _ hSpawn => hBefore.spawn hSpawn) hReach
  refine ⟨hAligning.log, fun i x hAllows => ?_⟩
  intro r u p hPop hNode hHead
  obtain ⟨port, ports, below, hThread⟩ := thread_of_nextPop hPop
  have hMem : .run r (.popInputs ((port, u) :: ports)) ∈ c.frames :=
    List.mem_flatten.mpr ⟨_, List.mem_of_getElem? hThread, List.mem_cons_self⟩
  simp only [Guard.allows, hThread] at hAllows
  have hReading := hAligning.reading_head hMem hNode hAllows hHead
  have hInput : u ∈ g.inputs n := by
    have hPort : (port, u) ∈ g.inputPorts n :=
      hNode ▸ (hAligning.unread r _ hMem).subset List.mem_cons_self
    exact List.mem_map.mpr ⟨_, hPort, rfl⟩
  refine SyncSet.getReadiness_iff.mpr (settled_of_past (List.mem_map.mpr ⟨u, hInput, rfl⟩)
    hHead (hAligning.sequenced u hInput) ?_)
  intro m hIn
  obtain ⟨v, hOther, rfl⟩ := List.mem_map.mp hIn
  exact hReading.past v hOther

/-! ## A node with two inputs -/

/-- Node 0 reads the graph inputs `a` and `b`. -/
def Graph.join : Graph where
  nodes := [0]
  name := fun _ => "join"
  inputPorts := fun n => if n = 0 then [("a", 0), ("b", 1)] else []
  outputs := fun _ => []
  maxInFlight := fun _ => 1
  sourceLayer := fun _ => 0
  address := fun n => n
  queue := fun _ => 0
  queues := [0]
  hasExecutor := fun _ => true
  owner := fun _ => 0
  routes := fun h => [h]
  graphInputs := [("a", 0), ("b", 1)]
  totalGraphInputStreams := 2
  nodes_nodup := nodup_zero
  queues_nodup := nodup_zero
  queue_mem := zero_mem_queues
  owner_port := by
    intro n p hMem
    split at hMem
    · simp_all
    · simp at hMem

/-- Two packets, one for each input, and what a worker does with them until it
calls `Process`. -/
def joinRun (u v : Int) : List (Action Choice Call) :=
  runs 0 19 .ok ++
    calls (.addPacketToInputStream "a" ⟨some 1, Timestamp.ofValue u⟩) 1 14 .ok ++
    calls (.addPacketToInputStream "b" ⟨some 2, Timestamp.ofValue v⟩) 2 12 .ok ++
    calls (.worker 0) 3 2 .ok

def joinInitial : Shared := initial (chainOutputs 2) 0 false

/-- The inputs with which `Process` of the node is called. -/
def Event.inputs? (n : NodeId) : Event → Option (List InputShard)
  | .processCalled m inputs => if m = n then some inputs else none
  | _ => none

/-- Some call of `Process` of the node is made with such inputs. -/
def calledWith (n : NodeId) (p : List InputShard → Bool) (log : List Event) : Bool :=
  log.any fun e => (e.inputs? n).any p

theorem processCalled_of_calledWith {n : NodeId} {log : List Event} {p : List InputShard → Bool}
    (hCalledWith : calledWith n p log = true) :
    ∃ inputs, .processCalled n inputs ∈ log ∧ p inputs = true := by
  obtain ⟨e, hLog, hCalled⟩ := List.any_eq_true.mp hCalledWith
  obtain ⟨inputs, hInputs, hHolds⟩ := (Option.any_eq_true _ _).mp hCalled
  unfold Event.inputs? at hInputs
  split at hInputs
  · split_ifs at hInputs with hNode
    obtain rfl := Option.some.inj hInputs
    exact ⟨_, hNode ▸ hLog, hHolds⟩
  · exact absurd hInputs (by simp)

/-- The rule at work: both packets are at 5. -/
theorem inputs_aligned_join :
    ∃ c inputs, (machine .join).Reaches (alignmentGuard .join 0) (started joinInitial) c ∧
      .processCalled 0 inputs ∈ c.shared.log ∧ (inputs.filterMap (·.packet)).length = 2 ∧
      Common inputs := by
  obtain ⟨c, hReach, hTest⟩ := (machine .join).exists_reaches (alignmentGuard .join 0)
    (started joinInitial) (joinRun 5 5 ++ runs 3 3 .ok)
    (fun c => calledWith 0 (fun inputs => decide ((inputs.filterMap (·.packet)).length = 2))
      c.shared.log) (by decide +kernel)
  obtain ⟨inputs, hLog, hTwo⟩ := processCalled_of_calledWith hTest
  have hFresh : ∀ u ∈ Graph.join.inputs 0, Sequenced (joinInitial.stream u) := by
    intro u _
    exact ⟨List.Pairwise.nil, by simp [joinInitial, Scheduler.initial, Shared.stream],
      by simp [joinInitial, Scheduler.initial, Shared.stream]⟩
  have hAligned := inputs_aligned (n := 0) (by decide) hFresh
    (by simp [joinInitial, Scheduler.initial]) hReach
  exact ⟨c, inputs, hReach, hLog, of_decide_eq_true hTwo, hAligned.processed inputs hLog⟩

/-- **Misaligned inputs**: with packets at 5 and at 7, the call that has taken
the first pops the second, which the handler does not report ready, and hands
both to `Process`. -/
theorem inputs_misaligned :
    ∃ c₁ c₂ c, (machine .join).Reaches Guard.all (started joinInitial) c₁ ∧
      ¬ PopsReady .join 0 c₁ 3 ∧ (machine .join).step c₁ (.run 3 .ok) = some c₂ ∧
      (machine .join).Reaches Guard.all c₂ c ∧
      (∃ inputs, .processCalled 0 inputs ∈ c.shared.log ∧ ¬ Common inputs) ∧
      ¬ InputsAligned Guard.all .join 0 c₁ ∧ ¬ InputsAligned Guard.all .join 0 c := by
  obtain ⟨c₁, c₂, c, hBefore, hPop, hStep, hAfter, hTest⟩ :=
    (machine .join).exists_reaches_through Guard.all (started joinInitial) (joinRun 5 7)
      (.run 3 .ok) (runs 3 2 .ok)
      (fun c₁ => (nextPop c₁ 3).any fun (pop : Invocation × StreamId) =>
        decide (pop.1.node = 0) && (c₁.shared.stream pop.2).queue.head?.any fun (p : Packet) =>
          decide (SyncSet.getReadiness ((Graph.join.inputs 0).map c₁.shared.stream) ≠
            (.readyForProcess, p.timestamp)))
      (fun _ c => calledWith 0 (fun inputs => decide (inputs.map (·.packet) =
        [some ⟨some 1, Timestamp.ofValue 5⟩, some ⟨some 2, Timestamp.ofValue 7⟩])) c.shared.log)
      (by decide +kernel)
  obtain ⟨⟨r, u⟩, hNext, hUnready⟩ := (Option.any_eq_true _ _).mp hPop
  obtain ⟨hNode, hHeads⟩ := Bool.and_eq_true_iff.mp hUnready
  have hNotReady : ¬ PopsReady .join 0 c₁ 3 := by
    intro hReady
    obtain ⟨p, hHead, hNot⟩ := (Option.any_eq_true _ _).mp hHeads
    exact of_decide_eq_true hNot (hReady r u p hNext (of_decide_eq_true hNode) hHead)
  obtain ⟨inputs, hLog, hTaken⟩ := processCalled_of_calledWith hTest
  have hPackets := of_decide_eq_true hTaken
  have hMixed : ∃ inputs, .processCalled 0 inputs ∈ c.shared.log ∧ ¬ Common inputs := by
    refine ⟨inputs, hLog, fun hCommon => ?_⟩
    obtain ⟨i, hI, hFirst⟩ := List.mem_map.mp (hPackets ▸ List.mem_cons_self)
    obtain ⟨j, hJ, hSecond⟩ :=
      List.mem_map.mp (hPackets ▸ List.mem_cons_of_mem _ List.mem_cons_self)
    exact absurd (hCommon i hI j hJ _ _ hFirst hSecond) (by decide)
  refine ⟨c₁, c₂, c, hBefore, hNotReady, hStep, hAfter, hMixed, fun hAligned => ?_,
    fun hAligned => ?_⟩
  · obtain ⟨port, ports, below, hThread⟩ := thread_of_nextPop hNext
    exact hNotReady (hAligned.popped 3 .ok (by simp [Guard.allows, hThread, Guard.all]))
  · obtain ⟨inputs, hCall, hNot⟩ := hMixed
    exact hNot (hAligned.processed inputs hCall)

end GraphRuntime.Scheduler
