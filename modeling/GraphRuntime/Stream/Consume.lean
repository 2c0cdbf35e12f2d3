import GraphRuntime.Lib.KeyedMerge
import GraphRuntime.Stream.SyncSet

/-!
# Consuming a synchronized set of streams

The loop the readiness test is made for: while the set is ready at some timestamp,
pop every stream at it.  On streams that hold increasing packets and have been closed,
each round is a round of the merge of their queues by timestamp (`round_step`), so the
loop ends with every stream empty and hands out each packet once, at its own timestamp
(`consume_lossless`).
-/

namespace GraphRuntime.Stream

namespace SyncSet

open InputStreamManager

/-- One pass of the loop: the timestamp, and what each stream handed back. -/
structure Round where
  timestamp : Timestamp
  results : List PopResult

/-- `PopPacketAtTimestamp` on every stream. -/
def popAll (ms : List InputStreamManager) (t : Timestamp) : List PopResult :=
  ms.map (·.popPacketAtTimestamp t)

/-- `while (GetReadiness(&t) == kReadyForProcess) PopPacketAtTimestamp(t)` on every
stream: the loop ends, after `rounds`, with the last managers. -/
inductive Consumes :
    List InputStreamManager → List Round → List InputStreamManager → Prop
  | stop (ms) : (getReadiness ms).1 ≠ .readyForProcess → Consumes ms [] ms
  | round (ms t rounds last) : getReadiness ms = (.readyForProcess, t) →
      Consumes ((popAll ms t).map PopResult.manager) rounds last →
      Consumes ms ({ timestamp := t, results := popAll ms t } :: rounds) last

/-- A stream that holds increasing packets and gets no more. -/
structure Ended (m : InputStreamManager) : Prop where
  bound : m.nextTimestampBound = Timestamp.done
  increasing : Merge.Increasing Packet.timestamp m.queue
  inStream : ∀ p ∈ m.queue, p.timestamp.isAllowedInStream = true

/-- The result of a pop that found `taken` at the timestamp. -/
structure Handed (taken : Option Packet) (result : PopResult) : Prop where
  packet : ∀ p, taken = some p → result.packet = p
  absent : taken = none → result.packet.isEmpty = true
  dropped : result.numPacketsDropped = 0

variable {ms : List InputStreamManager} {m : InputStreamManager} {t : Timestamp}

/-! ## One pop -/

theorem popPacketAtTimestamp_of_taken {p : Packet} {rest : List Packet}
    (hQueue : m.queue = p :: rest) (hAt : p.timestamp = t)
    (hBound : ¬ m.nextTimestampBound ≤ t) :
    (m.popPacketAtTimestamp t).packet = p ∧ (m.popPacketAtTimestamp t).numPacketsDropped = 0 ∧
      (m.popPacketAtTimestamp t).manager = { m with queue := rest } := by
  have hTake : m.takeHead t = (some p, { m with queue := rest }) := by
    simp [takeHead, hQueue, hAt]
  simp [popPacketAtTimestamp, hTake, hAt, hBound]

theorem popPacketAtTimestamp_of_absent (hLater : ∀ p, m.queue.head? = some p → t < p.timestamp)
    (hSet : t ≠ Timestamp.unset) (hBound : ¬ m.nextTimestampBound ≤ t) :
    (m.popPacketAtTimestamp t).packet.isEmpty = true ∧
      (m.popPacketAtTimestamp t).numPacketsDropped = 0 ∧
      (m.popPacketAtTimestamp t).manager = m := by
  have hTake : m.takeHead t = (none, m) := by
    rcases empty_or_head m with hEmpty | ⟨p, hHead⟩
    · simp [takeHead, hEmpty]
    · obtain ⟨rest, hQueue⟩ := List.head?_eq_some_iff.mp hHead
      simp [takeHead, hQueue, hLater p hHead]
  simp [popPacketAtTimestamp, hTake, hSet.symm, hBound, absentPacket, Packet.isEmpty, Packet.at',
    Packet.empty]

/-- **One pop** at or before the head of an ended stream. -/
theorem Ended.pop (hEnded : Ended m) (hLower : ∀ p, m.queue.head? = some p → t ≤ p.timestamp)
    (hStream : t < Timestamp.done) (hSet : t ≠ Timestamp.unset) :
    Handed (Merge.front Packet.timestamp t m.queue) (m.popPacketAtTimestamp t) ∧
      (m.popPacketAtTimestamp t).manager.queue = Merge.advance Packet.timestamp t m.queue ∧
      Ended (m.popPacketAtTimestamp t).manager := by
  have hBound : ¬ m.nextTimestampBound ≤ t := by
    rw [hEnded.bound]
    exact not_le.mpr hStream
  by_cases hAt : ∃ p, m.queue.head? = some p ∧ p.timestamp = t
  · obtain ⟨p, hHead, hTime⟩ := hAt
    obtain ⟨rest, hQueue⟩ := List.head?_eq_some_iff.mp hHead
    obtain ⟨hPacket, hDropped, hManager⟩ := popPacketAtTimestamp_of_taken hQueue hTime hBound
    have hFront : Merge.front Packet.timestamp t m.queue = some p := by
      simp [Merge.front, hHead, hTime]
    rw [hFront, hManager, hQueue]
    refine ⟨⟨?_, ?_, hDropped⟩, ?_, hEnded.bound, ?_, ?_⟩
    · intro q hSome
      exact hPacket.trans (Option.some.inj hSome)
    · exact fun hNone => absurd hNone (Option.some_ne_none p)
    · exact (Merge.advance_of_eq hTime).symm
    · exact (List.pairwise_cons.mp (hQueue ▸ hEnded.increasing)).2
    · intro q hMem
      exact hEnded.inStream q (hQueue ▸ List.mem_cons_of_mem p hMem)
  · have hLater : ∀ p, m.queue.head? = some p → t < p.timestamp := by
      intro p hHead
      exact lt_of_le_of_ne (hLower p hHead) fun hEq => hAt ⟨p, hHead, hEq.symm⟩
    obtain ⟨hPacket, hDropped, hManager⟩ := popPacketAtTimestamp_of_absent hLater hSet hBound
    have hFront : Merge.front Packet.timestamp t m.queue = none := by
      refine Option.filter_eq_none_iff.mpr ?_
      intro p hHead
      simpa using (hLater p hHead).ne'
    have hSame : Merge.advance Packet.timestamp t m.queue = m.queue := by
      have hSplit : (Merge.front Packet.timestamp t m.queue).toList ++
          Merge.advance Packet.timestamp t m.queue = m.queue := Merge.front_append_advance
      rw [hFront] at hSplit
      exact hSplit
    rw [hFront, hManager, hSame]
    refine ⟨⟨?_, fun _ => hPacket, hDropped⟩, rfl, hEnded⟩
    exact fun p hSome => absurd hSome.symm (Option.some_ne_none p)

/-! ## One round -/

def queues (ms : List InputStreamManager) : List (List Packet) := ms.map (·.queue)

/-- The least head of ended streams is settled: their bounds are at `Done`. -/
theorem settled_of_least (hEnded : ∀ m ∈ ms, Ended m)
    (hLeast : Merge.Least Packet.timestamp (queues ms) t) : Settled ms t := by
  obtain ⟨⟨l, hList, p, hHead, hAt⟩, hLower⟩ := hLeast
  obtain ⟨m, hMem, rfl⟩ := List.mem_map.mp hList
  have hStream : t < Timestamp.oneOverPostStream := by
    rw [← hAt]
    exact Timestamp.lt_oneOverPostStream_of_isAllowedInStream
      ((hEnded m hMem).inStream p (List.mem_of_mem_head? hHead))
  refine ⟨hStream, ⟨m, hMem, p, hHead, hAt⟩, ?_, ?_⟩
  · intro m' hMem' q hHead'
    exact hLower m'.queue (List.mem_map_of_mem hMem') q hHead'
  · intro m' hMem' _
    rw [(hEnded m' hMem').bound]
    exact hStream.trans Timestamp.oneOverPostStream_lt_done

/-- **The end**: streams that are empty and ended are ready for close. -/
theorem getReadiness_of_empty (hEnded : ∀ m ∈ ms, Ended m) (hEmpty : ∀ m ∈ ms, m.queue = []) :
    (getReadiness ms).1 = .readyForClose := by
  have hBound : Timestamp.oneOverPostStream < (minima ms).minBound := by
    refine lt_minBound.mpr ⟨Timestamp.oneOverPostStream_lt_done, ?_⟩
    intro m hMem _
    rw [(hEnded m hMem).bound]
    exact Timestamp.oneOverPostStream_lt_done
  have hPacket : Timestamp.oneOverPostStream ≤ (minima ms).minPacket := by
    refine le_minPacket_foldl.mpr ⟨Timestamp.oneOverPostStream_lt_done.le, ?_⟩
    intro m hMem p hHead
    simp [hEmpty m hMem] at hHead
  have hClose : min (minima ms).minPacket (minima ms).minBound ≥ Timestamp.oneOverPostStream :=
    le_min hPacket hBound.le
  unfold getReadiness
  simp only [if_pos hClose]

/-- **A round of the loop is a round of the merge**. -/
theorem round_step (hEnded : ∀ m ∈ ms, Ended m)
    (hLeast : Merge.Least Packet.timestamp (queues ms) t) :
    List.Forall₂ Handed ((queues ms).map (Merge.front Packet.timestamp t)) (popAll ms t) ∧
      queues ((popAll ms t).map PopResult.manager) =
        (queues ms).map (Merge.advance Packet.timestamp t) ∧
      ∀ m ∈ (popAll ms t).map PopResult.manager, Ended m := by
  have hSettled := settled_of_least hEnded hLeast
  have hStream : t < Timestamp.done :=
    hSettled.inStream.trans Timestamp.oneOverPostStream_lt_done
  have hSet : t ≠ Timestamp.unset := by
    obtain ⟨m, hMem, p, hHead, rfl⟩ := hSettled.head
    intro hUnset
    have hAllowed := (hEnded m hMem).inStream p (List.mem_of_mem_head? hHead)
    rw [hUnset] at hAllowed
    exact absurd hAllowed (by decide)
  have hPop : ∀ m ∈ ms, _ := fun m hMem =>
    (hEnded m hMem).pop (hSettled.heads m hMem) hStream hSet
  refine ⟨?_, ?_, ?_⟩
  · unfold queues popAll
    rw [List.map_map, List.forall₂_map_left_iff, List.forall₂_map_right_iff]
    exact List.forall₂_same.mpr fun m hMem => (hPop m hMem).1
  · unfold queues popAll
    rw [List.map_map, List.map_map, List.map_map]
    exact List.map_congr_left fun m hMem => (hPop m hMem).2.1
  · intro m' hMem'
    obtain ⟨result, hResult, rfl⟩ := List.mem_map.mp hMem'
    obtain ⟨m, hMem, rfl⟩ := List.mem_map.mp hResult
    exact (hPop m hMem).2.2

/-! ## The loop -/

/-- The rounds of the loop are those of the merge. -/
def Follows (rounds : List Round) (merged : List (Timestamp × List (Option Packet))) : Prop :=
  List.Forall₂ (fun round r => round.timestamp = r.1 ∧ List.Forall₂ Handed r.2 round.results)
    rounds merged

/-- **The loop ends**, and follows the merge of the queues. -/
theorem consumes_ended (hEnded : ∀ m ∈ ms, Ended m) :
    ∃ rounds last merged, Consumes ms rounds last ∧
      Merge.Rounds Packet.timestamp (queues ms) merged ∧ Follows rounds merged ∧
      (getReadiness last).1 = .readyForClose ∧ last.length = ms.length ∧
      ∀ m ∈ last, m.queue = [] := by
  -- each round shortens the queues
  induction hLeft : Merge.remaining (queues ms) using Nat.strong_induction_on generalizing ms with
  | _ n ih =>
    by_cases hEmpty : ∀ m ∈ ms, m.queue = []
    · have hClose := getReadiness_of_empty hEnded hEmpty
      refine ⟨[], ms, [], Consumes.stop ms (by rw [hClose]; decide), ?_, List.Forall₂.nil,
        hClose, rfl, hEmpty⟩
      refine Merge.Rounds.done _ ?_
      intro l hList
      obtain ⟨m, hMem, rfl⟩ := List.mem_map.mp hList
      exact hEmpty m hMem
    · have hSome : ∃ l ∈ queues ms, l ≠ [] := by
        obtain ⟨m, hMem, hNe⟩ : ∃ m ∈ ms, m.queue ≠ [] := by simpa using hEmpty
        exact ⟨m.queue, List.mem_map_of_mem hMem, hNe⟩
      obtain ⟨t, hLeast⟩ : ∃ t, Merge.Least Packet.timestamp (queues ms) t :=
        Merge.exists_least hSome
      obtain ⟨hHanded, hQueues, hNext⟩ := round_step hEnded hLeast
      have hLess : Merge.remaining (queues ((popAll ms t).map PopResult.manager)) < n := by
        rw [hQueues, ← hLeft]
        exact hLeast.remaining_advance
      obtain ⟨rounds, last, merged, hConsumes, hMerged, hFollows, hClose, hLength, hLast⟩ :=
        ih _ hLess hNext rfl
      have hReady := getReadiness_iff.mpr (settled_of_least hEnded hLeast)
      refine ⟨_ :: rounds, last, _ :: merged, Consumes.round ms t rounds last hReady hConsumes,
        Merge.Rounds.round _ t merged hLeast (hQueues ▸ hMerged),
        List.Forall₂.cons ⟨rfl, hHanded⟩ hFollows, hClose, ?_, hLast⟩
      rw [hLength, List.length_map, popAll, List.length_map]

/-! ## What the rounds return -/

/-- What a pop at `t` must return from a stream that began with the queue of `m`: the
packet at `t`, or else an empty one; and it drops nothing. -/
structure Returns (t : Timestamp) (m : InputStreamManager) (result : PopResult) : Prop where
  packet : ∀ p ∈ m.queue, p.timestamp = t → result.packet = p
  absent : (∀ p ∈ m.queue, p.timestamp ≠ t) → result.packet.isEmpty = true
  dropped : result.numPacketsDropped = 0

/-- The packet a stream held at `t`. -/
def held (t : Timestamp) (m : InputStreamManager) : Option Packet :=
  Merge.find Packet.timestamp t m.queue

theorem Handed.returns {result : PopResult}
    (hIncreasing : Merge.Increasing Packet.timestamp m.queue)
    (hHanded : Handed (held t m) result) : Returns t m result := by
  refine ⟨?_, ?_, hHanded.dropped⟩
  · rintro p hMem rfl
    exact hHanded.packet p (hIncreasing.find_of_mem hMem)
  · intro hNone
    exact hHanded.absent (Merge.find_eq_none hNone)

/-- The packets the rounds return from stream `i` at its own timestamps. -/
def returned (rounds : List Round) (i : Nat) (m : InputStreamManager) : List Packet :=
  (rounds.filter (·.timestamp ∈ m.queue.map Packet.timestamp)).filterMap
    fun r => r.results[i]?.map PopResult.packet

/-- At each round this is what is found at its timestamp. -/
theorem returned_eq {rounds : List Round} {i : Nat}
    (hIncreasing : Merge.Increasing Packet.timestamp m.queue)
    (hReturns : ∀ r ∈ rounds, ∃ result, r.results[i]? = some result ∧
      Returns r.timestamp m result) :
    returned rounds i m = (rounds.map Round.timestamp).filterMap (held · m) := by
  unfold returned
  rw [List.filterMap_filter, List.filterMap_map]
  refine List.filterMap_congr ?_
  intro r hMem
  obtain ⟨result, hResult, hReturn⟩ := hReturns r hMem
  by_cases hAt : ∃ p ∈ m.queue, p.timestamp = r.timestamp
  · obtain ⟨p, hPacket, hTime⟩ := hAt
    have hHeld : held r.timestamp m = some p := hTime ▸ hIncreasing.find_of_mem hPacket
    have hIn : r.timestamp ∈ m.queue.map Packet.timestamp := List.mem_map.mpr ⟨p, hPacket, hTime⟩
    simp [hIn, hResult, hHeld, hReturn.packet p hPacket hTime]
  · have hOut : r.timestamp ∉ m.queue.map Packet.timestamp := by
      intro hIn
      exact hAt (List.mem_map.mp hIn)
    have hHeld : held r.timestamp m = none :=
      Merge.find_eq_none fun p hPacket hTime => hAt ⟨p, hPacket, hTime⟩
    simp [hOut, hHeld]

/-- A list related to another has an element related to each of its elements. -/
theorem Follows.exists_of_mem {rounds : List Round}
    {merged : List (Timestamp × List (Option Packet))} (hFollows : Follows rounds merged)
    {r : Round} (hMem : r ∈ rounds) :
    ∃ taken, (r.timestamp, taken) ∈ merged ∧ List.Forall₂ Handed taken r.results := by
  induction hFollows with
  | nil => exact absurd hMem List.not_mem_nil
  | @cons first pair rounds merged hFirst _ ih =>
      obtain ⟨hTime, hHanded⟩ := hFirst
      rcases List.mem_cons.mp hMem with rfl | hRest
      · exact ⟨pair.2, hTime ▸ List.mem_cons_self, hHanded⟩
      · obtain ⟨taken, hTaken, hOut⟩ := ih hRest
        exact ⟨taken, List.mem_cons_of_mem pair hTaken, hOut⟩

theorem Follows.timestamps {rounds : List Round}
    {merged : List (Timestamp × List (Option Packet))} (hFollows : Follows rounds merged) :
    rounds.map Round.timestamp = merged.map Prod.fst := by
  induction hFollows with
  | nil => rfl
  | cons hFirst _ ih => rw [List.map_cons, List.map_cons, ih, hFirst.1]

/-- Each round of the loop returns what the streams held at its timestamp. -/
theorem Follows.returns {rounds : List Round} {merged : List (Timestamp × List (Option Packet))}
    (hFollows : Follows rounds merged)
    (hMerged : Merge.Rounds Packet.timestamp (queues ms) merged)
    (hIncreasing : ∀ m ∈ ms, Merge.Increasing Packet.timestamp m.queue) :
    ∀ r ∈ rounds, List.Forall₂ (Returns r.timestamp) ms r.results := by
  intro r hMem
  obtain ⟨taken, hTaken, hHanded⟩ := hFollows.exists_of_mem hMem
  have hHeld : taken = ms.map (held r.timestamp) := by
    have hEq := hMerged.taken_eq (List.forall_mem_map.mpr hIncreasing) _ hTaken
    rw [queues, List.map_map] at hEq
    exact hEq
  rw [hHeld, List.forall₂_map_left_iff] at hHanded
  have hBoth := (List.forall₂_and_left (p := fun m => m ∈ ms) ms r.results).mpr
    ⟨fun m hIn => hIn, hHanded⟩
  exact hBoth.imp fun m result h => h.2.returns (hIncreasing m h.1)

/-- **Synchronized consumption is a lossless merge.**  On streams that hold increasing
packets and are then closed the loop ends, ready for close and with every queue empty.
It visits the timestamps of all packets, in increasing order; at each it returns the
packet of every stream that has one there and an empty packet for the others, and drops
none; and the packets returned from one stream are those it held, each once and in
order. -/
theorem consume_lossless (ms : List InputStreamManager)
    (hOpen : ∀ m ∈ ms, m.closed = false)
    (hIncreasing : ∀ m ∈ ms, m.queue.Pairwise (·.timestamp < ·.timestamp))
    (hInStream : ∀ m ∈ ms, ∀ p ∈ m.queue, p.timestamp.isAllowedInStream = true) :
    ∃ rounds last, Consumes (ms.map (·.close.1)) rounds last ∧
      (getReadiness last).1 = .readyForClose ∧ (∀ m ∈ last, m.queue = []) ∧
      (rounds.map Round.timestamp).Pairwise (· < ·) ∧
      (∀ t, t ∈ rounds.map Round.timestamp ↔ ∃ m ∈ ms, ∃ p ∈ m.queue, p.timestamp = t) ∧
      (∀ r ∈ rounds, List.Forall₂ (Returns r.timestamp) ms r.results) ∧
      ∀ (i : Nat) (m : InputStreamManager), ms[i]? = some m → returned rounds i m = m.queue := by
  have hClosed : ∀ m ∈ ms, m.close.1 =
      { m with closed := true, nextTimestampBound := Timestamp.done } := by
    intro m hMem
    simp [close, hOpen m hMem]
  have hEnded : ∀ m ∈ ms.map (·.close.1), Ended m := by
    refine List.forall_mem_map.mpr ?_
    intro m hMem
    rw [hClosed m hMem]
    exact ⟨rfl, hIncreasing m hMem, hInStream m hMem⟩
  have hQueues : queues (ms.map (·.close.1)) = queues ms := by
    unfold queues
    rw [List.map_map]
    refine List.map_congr_left ?_
    intro m hMem
    rw [Function.comp_apply, hClosed m hMem]
  obtain ⟨rounds, last, merged, hConsumes, hMerged, hFollows, hClose, -, hEmpty⟩ :=
    consumes_ended hEnded
  rw [hQueues] at hMerged
  have hLists : ∀ l ∈ queues ms, Merge.Increasing Packet.timestamp l :=
    List.forall_mem_map.mpr hIncreasing
  have hReturns := hFollows.returns hMerged hIncreasing
  refine ⟨rounds, last, hConsumes, hClose, hEmpty, ?_, ?_, hReturns, ?_⟩
  · rw [hFollows.timestamps]
    exact hMerged.keys_increasing hLists
  · intro t
    rw [hFollows.timestamps, hMerged.mem_keys]
    constructor
    · intro ⟨l, hList, p, hPacket, hTime⟩
      obtain ⟨m, hMem, rfl⟩ := List.mem_map.mp hList
      exact ⟨m, hMem, p, hPacket, hTime⟩
    · intro ⟨m, hMem, p, hPacket, hTime⟩
      exact ⟨m.queue, List.mem_map_of_mem hMem, p, hPacket, hTime⟩
  · intro i m hAt
    have hMem : m ∈ ms := List.mem_of_getElem? hAt
    have hAtRound : ∀ r ∈ rounds, ∃ result, r.results[i]? = some result ∧
        Returns r.timestamp m result := by
      intro r hRound
      have hAll := hReturns r hRound
      obtain ⟨hIndex, hGet⟩ := List.getElem?_eq_some_iff.mp hAt
      have hOut : i < r.results.length := hAll.length_eq ▸ hIndex
      refine ⟨r.results[i], List.getElem?_eq_getElem hOut, ?_⟩
      rw [← hGet]
      exact hAll.get hIndex hOut
    rw [returned_eq (hIncreasing m hMem) hAtRound, hFollows.timestamps]
    exact hMerged.filterMap_find hLists m.queue (List.mem_map_of_mem hMem)

/-- Three streams, with packets at 5 and 9, at 5, and none: a round at 5 and one at 9. -/
theorem consume_lossless_three :
    let ms : List InputStreamManager :=
      [{ queue := [⟨some 1, .ofValue 5⟩, ⟨some 2, .ofValue 9⟩] },
        { queue := [⟨some 3, .ofValue 5⟩] }, {}]
    ∃ rounds last, Consumes (ms.map (·.close.1)) rounds last ∧
      (rounds.map Round.timestamp).Pairwise (· < ·) ∧
      ∀ t, t ∈ rounds.map Round.timestamp ↔ ∃ m ∈ ms, ∃ p ∈ m.queue, p.timestamp = t := by
  intro ms
  obtain ⟨rounds, last, hConsumes, -, -, hOrder, hVisited, -, -⟩ :=
    consume_lossless ms (by decide) (by decide) (by decide)
  exact ⟨rounds, last, hConsumes, hOrder, hVisited⟩

end SyncSet

end GraphRuntime.Stream
