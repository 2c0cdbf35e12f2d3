import GraphRuntime.Lib.Transition
import GraphRuntime.Stream.OutputStreamManager

/-!
# One producer, many consumers

`Fanout` is one `OutputStreamManager` with its mirrors, the consumers' input
managers, and the point the producer has reached inside
`PropagateUpdatesToMirrors`.  Between any two of the producer's calls into a
consumer, any consumer may pop packets (`PopQueueHead`), so the system is a
transition system with three kinds of steps:

* `propagate` enters `PropagateUpdatesToMirrors` with a bound and a shard,
* `advance` makes the next call of the loop (the packet half or the bound half
  of one iteration) or leaves the function,
* `pop` is one `PopQueueHead` of one consumer.

`popped` and `sent` record what happened: the packets each consumer has taken,
and the packet lists handed to the function so far.  The invariant
(`Delivered`) says, for every position of the loop, which mirrors have the list
of the current call; `fanout_full_copy` reads it off for every reachable state.
-/

namespace GraphRuntime.Stream

open Transition

structure Fanout where
  producer : OutputStreamManager
  streams : Streams
  popped : StreamId → List Packet := fun _ => []
  /-- The loop's state, and whether the current iteration has done its packet
  half. -/
  call : Option (Propagation × Bool) := none
  sent : List (List Packet) := []

inductive FanoutAction
  | propagate (nextBound : Timestamp) (shard : OutputStreamShard)
  | advance
  | pop (s : StreamId)

namespace Fanout

def step (routes : Routes) (f : Fanout) : FanoutAction → Option Fanout
  | .propagate nextBound shard =>
      match f.call with
      | some _ => none
      | none =>
          let r := f.producer.beginPropagate nextBound shard
          some { f with
            producer := r.1
            call := some (r.2, false)
            sent := f.sent ++ [shard.outputQueue] }
  | .advance =>
      match f.call with
      | none => none
      | some (p, false) =>
          if p.mirrors.isEmpty then some { f with call := none }
          else
            let r := p.packetStep routes f.streams
            some { f with streams := r.1, call := some (r.2.1, true) }
      | some (p, true) =>
          let r := p.boundStep routes f.streams
          some { f with streams := r.1, call := some (r.2.1, false) }
  | .pop s =>
      let r := (f.streams s).popQueueHead
      some { f with
        streams := Function.update f.streams s r.2.2
        popped := Function.update f.popped s
          (f.popped s ++ (f.streams s).queue.take 1) }

/-- A system in which nothing has been propagated or popped yet. -/
def init (producer : OutputStreamManager) (streams : Streams) : Fanout :=
  { producer := producer, streams := streams }

/-- The consumers' managers. -/
def consumers (routes : Routes) (f : Fanout) : List StreamId :=
  f.producer.mirrors.filterMap (Mirror.resolve routes)

/-- Mirrors the current call has not handed its packets to. -/
def waiting (f : Fanout) : List Mirror :=
  match f.call with
  | none => []
  | some (p, false) => p.mirrors
  | some (p, true) => p.mirrors.tail

/-- The lists a consumer has been handed: all of them, less the one of the
current call while the loop has not come to it. -/
def propagatedTo (routes : Routes) (f : Fanout) (s : StreamId) :
    List (List Packet) :=
  if s ∈ f.waiting.filterMap (Mirror.resolve routes) then f.sent.dropLast
  else f.sent

/-- What a consumer has received: taken already, then still queued. -/
def received (f : Fanout) (s : StreamId) : List Packet :=
  f.popped s ++ (f.streams s).queue

/-- The loop invariant, between any two steps. -/
structure Delivered (routes : Routes) (f₀ f : Fanout) : Prop where
  mirrors : f.producer.mirrors = f₀.producer.mirrors
  isOpen : ∀ s ∈ f₀.consumers routes, (f.streams s).closed = false
  suffix : f.waiting <:+ f₀.producer.mirrors
  batch : ∀ p b, f.call = some (p, b) → f.waiting ≠ [] →
    f.sent.getLast? = some p.packets
  copies : ∀ s ∈ f₀.consumers routes,
    f.received s = (f₀.streams s).queue ++ (f.propagatedTo routes s).flatten

variable {routes : Routes} {f₀ f f' : Fanout}

/-- A pop moves the head of one queue to what the consumer has taken. -/
theorem received_pop (s t : StreamId)
    (hStep : step routes f (.pop s) = some f') : f'.received t = f.received t := by
  simp only [step, Option.some.injEq] at hStep
  subst hStep
  by_cases hEq : t = s
  · subst hEq
    simp only [received, Function.update_self,
      InputStreamManager.popQueueHead_queue, List.append_assoc]
    cases (f.streams t).queue <;> simp
  · simp [received, Function.update_of_ne hEq]

theorem Delivered.pop (h : Delivered routes f₀ f) (s : StreamId)
    (hStep : step routes f (.pop s) = some f') : Delivered routes f₀ f' := by
  have hReceived : ∀ t, f'.received t = f.received t :=
    fun t => received_pop s t hStep
  simp only [step, Option.some.injEq] at hStep
  subst hStep
  refine ⟨h.mirrors, ?_, h.suffix, h.batch, ?_⟩
  · intro t hMem
    by_cases hEq : t = s
    · subst hEq
      simpa using h.isOpen t hMem
    · simpa [Function.update_of_ne hEq] using h.isOpen t hMem
  · intro t hMem
    rw [hReceived t]
    exact h.copies t hMem

/-- Entering the function appends its list to `sent` and makes every mirror
wait for it. -/
theorem Delivered.propagate (h : Delivered routes f₀ f) (nextBound : Timestamp)
    (shard : OutputStreamShard)
    (hStep : step routes f (.propagate nextBound shard) = some f') :
    Delivered routes f₀ f' := by
  cases hCall : f.call with
  | some p => simp [step, hCall] at hStep
  | none =>
      simp only [step, hCall, Option.some.injEq] at hStep
      subst hStep
      have hMirrors : (f.producer.beginPropagate nextBound shard).1.mirrors =
          f.producer.mirrors := by
        unfold OutputStreamManager.beginPropagate
        dsimp only
        split <;> rfl
      refine ⟨hMirrors.trans h.mirrors, h.isOpen, ?_, ?_, ?_⟩
      · rw [← h.mirrors]
        exact List.suffix_refl _
      · intro p b hEq _
        simp only [Option.some.injEq, Prod.mk.injEq] at hEq
        obtain ⟨rfl, rfl⟩ := hEq
        simp [OutputStreamManager.beginPropagate]
      · intro s hMem
        have hOld := h.copies s hMem
        have hWaiting : s ∈ f.producer.mirrors.filterMap (Mirror.resolve routes) := by
          rw [h.mirrors]; exact hMem
        simp only [propagatedTo, waiting, hCall, List.filterMap_nil,
          List.not_mem_nil, if_false] at hOld
        simp only [received, propagatedTo, waiting,
          OutputStreamManager.beginPropagate, hWaiting, if_true,
          List.dropLast_concat]
        exact hOld

/-- The packet half of an iteration hands the list of the current call to the
first waiting mirror, whose stream no later mirror shares. -/
theorem Delivered.packets (h : Delivered routes f₀ f) {p : Propagation}
    (hCall : f.call = some (p, false)) (hLoop : p.mirrors ≠ [])
    (hResolves : ∀ m ∈ f₀.producer.mirrors, (m.resolve routes).isSome)
    (hDistinct : (f₀.consumers routes).Nodup) :
    Delivered routes f₀
      { f with
        streams := (p.packetStep routes f.streams).1
        call := some ((p.packetStep routes f.streams).2.1, true) } := by
  obtain ⟨mirror, rest, hMirrors⟩ := List.exists_cons_of_ne_nil hLoop
  have hSuffix : mirror :: rest <:+ f₀.producer.mirrors := by
    have := h.suffix
    simpa [waiting, hCall, hMirrors] using this
  obtain ⟨s, hResolve⟩ := Option.isSome_iff_exists.mp
    (hResolves mirror (hSuffix.subset (by simp)))
  -- the stream of this mirror is not the stream of a later one
  have hNew : s ∉ rest.filterMap (Mirror.resolve routes) := by
    obtain ⟨before, hBefore⟩ := hSuffix
    have hNodup := hDistinct
    simp only [consumers, ← hBefore, List.filterMap_append, List.filterMap_cons,
      hResolve] at hNodup
    exact (List.nodup_cons.mp (List.nodup_append.mp hNodup).2.1).1
  have hConsumer : s ∈ f₀.consumers routes :=
    List.mem_filterMap.mpr ⟨mirror, hSuffix.subset (by simp), hResolve⟩
  have hBatch : f.sent.getLast? = some p.packets :=
    h.batch p false hCall (by simp [waiting, hCall, hMirrors])
  obtain ⟨earlier, hSent⟩ : ∃ earlier, f.sent = earlier ++ [p.packets] := by
    obtain ⟨earlier, hEarlier⟩ := List.getLast?_eq_some_iff.mp hBatch
    exact ⟨earlier, hEarlier⟩
  have hOpen := h.isOpen s hConsumer
  -- the packets of every stream afterwards
  have hQueues : ∀ t, ((p.packetStep routes f.streams).1 t).closed =
        (f.streams t).closed ∧
      ((p.packetStep routes f.streams).1 t).queue =
        (f.streams t).queue ++ if t = s then p.packets else [] := by
    intro t
    have hp : p = ⟨mirror :: rest, p.packets, p.nextBound, p.setBound⟩ := by
      rw [← hMirrors]
    by_cases hEmpty : p.packets = []
    · rw [hp, hEmpty, Propagation.packetStep_of_nil]
      simp
    · rw [hp, (Propagation.packetStep_of_resolve hResolve hEmpty).1]
      by_cases hEq : t = s
      · subst hEq
        simp [InputStreamManager.addPackets_of_open hOpen]
      · simp [hEq]
  refine ⟨h.mirrors, ?_, ?_, ?_, ?_⟩
  · intro t hMem
    rw [(hQueues t).1]
    exact h.isOpen t hMem
  · simp only [waiting, Propagation.packetStep_mirrors, hMirrors, List.tail_cons]
    exact (List.suffix_cons mirror rest).trans hSuffix
  · intro p' b hEq hWait
    simp only [Option.some.injEq, Prod.mk.injEq] at hEq
    obtain ⟨rfl, rfl⟩ := hEq
    simp only [waiting, Propagation.packetStep_mirrors, hMirrors,
      List.tail_cons] at hWait
    have hSame : (p.packetStep routes f.streams).2.1 = p := by
      have hp : p = ⟨mirror :: rest, p.packets, p.nextBound, p.setBound⟩ := by
        rw [← hMirrors]
      rw [hp]
      exact Propagation.packetStep_packets hWait
    rw [hSame]
    exact hBatch
  · intro t hMem
    have hOld := h.copies t hMem
    simp only [received, propagatedTo, waiting, hCall, hMirrors,
      List.filterMap_cons, hResolve, Propagation.packetStep_mirrors,
      List.tail_cons, List.mem_cons] at hOld ⊢
    rw [(hQueues t).2, ← List.append_assoc, hOld]
    by_cases hEq : t = s
    · subst hEq
      simp [hNew, hSent]
    · simp [hEq]

/-- The bound half changes no queue. -/
theorem Delivered.bound (h : Delivered routes f₀ f) {p : Propagation}
    (hCall : f.call = some (p, true)) :
    Delivered routes f₀
      { f with
        streams := (p.boundStep routes f.streams).1
        call := some ((p.boundStep routes f.streams).2.1, false) } := by
  have hQueues : ∀ t, ((p.boundStep routes f.streams).1 t).closed =
        (f.streams t).closed ∧
      ((p.boundStep routes f.streams).1 t).queue = (f.streams t).queue := by
    intro t
    unfold Propagation.boundStep
    split
    · exact ⟨rfl, rfl⟩
    · split
      · exact ⟨rfl, rfl⟩
      · rename_i s _
        split
        · by_cases hEq : t = s
          · subst hEq; simp
          · simp [Function.update_of_ne hEq]
        · exact ⟨rfl, rfl⟩
  have hWaiting : waiting { f with
      streams := (p.boundStep routes f.streams).1
      call := some ((p.boundStep routes f.streams).2.1, false) } = f.waiting := by
    simp [waiting, hCall, Propagation.boundStep_snd]
  refine ⟨h.mirrors, ?_, ?_, ?_, ?_⟩
  · intro t hMem
    rw [(hQueues t).1]
    exact h.isOpen t hMem
  · rw [hWaiting]
    exact h.suffix
  · intro p' b hEq hWait
    simp only [Option.some.injEq, Prod.mk.injEq] at hEq
    obtain ⟨rfl, rfl⟩ := hEq
    rw [hWaiting] at hWait
    simpa [Propagation.boundStep_snd] using h.batch p true hCall hWait
  · intro t hMem
    have hOld := h.copies t hMem
    simp only [received, propagatedTo, hWaiting] at hOld ⊢
    rw [(hQueues t).2]
    exact hOld

/-- **Step lemma**: every call of the producer and every pop keeps the
invariant. -/
theorem Delivered.step (h : Delivered routes f₀ f)
    (hResolves : ∀ m ∈ f₀.producer.mirrors, (m.resolve routes).isSome)
    (hDistinct : (f₀.consumers routes).Nodup) {a : FanoutAction}
    (hStep : step routes f a = some f') : Delivered routes f₀ f' := by
  cases a with
  | propagate nextBound shard => exact h.propagate nextBound shard hStep
  | pop s => exact h.pop s hStep
  | advance =>
      simp only [Fanout.step] at hStep
      split at hStep
      · exact absurd hStep (by simp)
      · rename_i p hCall
        split at hStep
        · rename_i hEnd
          obtain rfl := Option.some.inj hStep
          have hWaiting : f.waiting = [] := by
            simpa [waiting, hCall] using hEnd
          refine ⟨h.mirrors, h.isOpen, by simp [waiting], ?_, ?_⟩
          · intro p' b hEq
            exact absurd hEq (by simp)
          · intro s hMem
            have hOld := h.copies s hMem
            simp only [propagatedTo, hWaiting, List.filterMap_nil,
              List.not_mem_nil, if_false] at hOld
            simpa [propagatedTo, waiting, received] using hOld
        · rename_i hLoop
          obtain rfl := Option.some.inj hStep
          exact h.packets hCall (by simpa using hLoop) hResolves hDistinct
      · rename_i p hCall
        obtain rfl := Option.some.inj hStep
        exact h.bound hCall

theorem delivered_init (producer : OutputStreamManager) (streams : Streams)
    (hOpen : ∀ s ∈ (init producer streams).consumers routes,
      (streams s).closed = false) :
    Delivered routes (init producer streams) (init producer streams) := by
  refine ⟨rfl, hOpen, by simp [waiting, init], ?_, ?_⟩
  · intro p b hEq
    exact absurd hEq (by simp [init])
  · intro s _
    simp [received, propagatedTo, waiting, init]

/-- **Every consumer gets a full copy.**  Whatever the order of propagations
and pops, what a consumer has taken followed by what it has queued is, in
order, what it started with followed by every list propagated to it; between
two calls of the producer that is every list propagated so far. -/
theorem fanout_full_copy (producer : OutputStreamManager) (streams : Streams)
    (hResolves : ∀ m ∈ producer.mirrors, (m.resolve routes).isSome)
    (hDistinct : ((init producer streams).consumers routes).Nodup)
    (hOpen : ∀ s ∈ (init producer streams).consumers routes,
      (streams s).closed = false)
    (hReach : Reach (step routes) (fun _ _ => True) (init producer streams) f) :
    ∀ s ∈ (init producer streams).consumers routes,
      f.received s = (streams s).queue ++ (f.propagatedTo routes s).flatten ∧
      (f.call = none →
        f.received s = (streams s).queue ++ f.sent.flatten) := by
  have hInv : Delivered routes (init producer streams) f :=
    hReach.invariant (delivered_init producer streams hOpen)
      (fun _ _ _ h _ hStep => h.step hResolves hDistinct hStep)
  intro s hMem
  refine ⟨hInv.copies s hMem, fun hIdle => ?_⟩
  have hCopies := hInv.copies s hMem
  simpa [propagatedTo, waiting, hIdle, init] using hCopies

/-- Two mirrors, one of whose consumers pops between the producer's calls. -/
private def twoMirrors : OutputStreamManager :=
  { spec := { name := "out" }, mirrors := [⟨some 0, 0⟩, ⟨some 1, 0⟩] }

private def onePacket : OutputStreamShard :=
  { outputQueue := [⟨some 7, Timestamp.min⟩] }

private def interleavedPops : List FanoutAction :=
  [.propagate Timestamp.max onePacket, .advance, .pop 0, .advance, .advance,
    .advance, .advance]

/-- The theorem on a run with two mirrors and a pop inside the propagation. -/
theorem fanout_full_copy_twoMirrors :
    ∃ f, runGuarded (step fun h => [h]) (fun _ _ => true)
        (init twoMirrors fun _ => {}) interleavedPops = some f ∧
      f.call = none ∧ f.received 0 = [] ++ f.sent.flatten ∧
      f.received 1 = [] ++ f.sent.flatten := by
  obtain ⟨f, hRun, hIdle⟩ : ∃ f, runGuarded (step fun h => [h])
      (fun _ _ => true) (init twoMirrors fun _ => {}) interleavedPops = some f ∧
      f.call = none := by
    exact ⟨_, rfl, rfl⟩
  have hReach : Reach (step fun h => [h]) (fun _ _ => True)
      (init twoMirrors fun _ => {}) f :=
    (reach_of_runGuarded hRun).mono fun _ _ _ => trivial
  have hCopy := fanout_full_copy twoMirrors (fun _ => {}) (by decide) (by decide)
    (by decide) hReach
  exact ⟨f, hRun, hIdle, (hCopy 0 (by decide)).2 hIdle,
    (hCopy 1 (by decide)).2 hIdle⟩

end Fanout

end GraphRuntime.Stream
