import GraphRuntime.Stream.Consume
import GraphRuntime.Stream.Operations
import Mathlib.Data.Finset.Card

/-!
# How many rounds a set of streams is good for

A timestamp is settled for a set of streams, wherever it lies in their queues, when no
stream can still receive a packet at it: the stream is bounded past it or holds a packet
that is not before it.  Each round of the consumption loop uses up one settled timestamp
at which a packet is queued, the least (`settledTimestamps_popAll`), so the loop has as
many rounds as there are such timestamps (`exists_consumes`).
-/

namespace GraphRuntime.Stream

namespace SyncSet

open Merge (Increasing)

variable {ms : List InputStreamManager} {m : InputStreamManager} {t u : Timestamp}

/-- Nothing more can come at `t`. -/
def SettledAt (ms : List InputStreamManager) (t : Timestamp) : Prop :=
  t < Timestamp.oneOverPostStream ∧
    ∀ m ∈ ms, t < m.nextTimestampBound ∨ ∃ p ∈ m.queue, t ≤ p.timestamp

instance (ms : List InputStreamManager) (t : Timestamp) : Decidable (SettledAt ms t) := by
  unfold SettledAt
  infer_instance

/-- The settled timestamps at which packets are queued. -/
def settledTimestamps (ms : List InputStreamManager) : Finset Timestamp :=
  ((ms.flatMap (·.queue)).map Packet.timestamp).toFinset.filter (SettledAt ms)

theorem mem_settledTimestamps :
    t ∈ settledTimestamps ms ↔
      (∃ m ∈ ms, ∃ p ∈ m.queue, p.timestamp = t) ∧ SettledAt ms t := by
  simp only [settledTimestamps, Finset.mem_filter, List.mem_toFinset, List.mem_map,
    List.mem_flatMap]
  refine and_congr_left fun _ => ?_
  constructor
  · rintro ⟨p, ⟨m, hMem, hIn⟩, hAt⟩
    exact ⟨m, hMem, p, hIn, hAt⟩
  · rintro ⟨m, hMem, p, hIn, hAt⟩
    exact ⟨p, ⟨m, hMem, hIn⟩, hAt⟩

/-- The timestamp of a ready set is one of them. -/
theorem Settled.mem_settledTimestamps (hSettled : Settled ms t) : t ∈ settledTimestamps ms := by
  obtain ⟨m, hMem, p, hHead, hAt⟩ := hSettled.head
  refine SyncSet.mem_settledTimestamps.mpr
    ⟨⟨m, hMem, p, List.mem_of_mem_head? hHead, hAt⟩, hSettled.inStream, ?_⟩
  intro m' hMem'
  rcases empty_or_head m' with hEmpty | ⟨q, hHead'⟩
  · exact Or.inl (hSettled.bounds m' hMem' hEmpty)
  · exact Or.inr ⟨q, List.mem_of_mem_head? hHead', hSettled.heads m' hMem' q hHead'⟩

/-- If there is one, the set is ready, at the least head. -/
theorem exists_settled (hIncreasing : ∀ m ∈ ms, Increasing Packet.timestamp m.queue)
    (hMem : t ∈ settledTimestamps ms) : ∃ u, Settled ms u := by
  obtain ⟨⟨m, hIn, p, hPacket, rfl⟩, hStream, hNoMore⟩ := mem_settledTimestamps.mp hMem
  have hSome : ∃ l ∈ queues ms, l ≠ [] :=
    ⟨m.queue, List.mem_map_of_mem hIn, List.ne_nil_of_mem hPacket⟩
  obtain ⟨u, hLeast⟩ : ∃ u, Merge.Least Packet.timestamp (queues ms) u := Merge.exists_least hSome
  have hLe : u ≤ p.timestamp := by
    obtain ⟨q, hHead, hFirst⟩ := (hIncreasing m hIn).exists_head_le hPacket
    exact (hLeast.lower m.queue (List.mem_map_of_mem hIn) q hHead).trans hFirst
  refine ⟨u, hLe.trans_lt hStream, ?_, ?_, ?_⟩
  · obtain ⟨l, hList, q, hHead, hAt⟩ := hLeast.attained
    obtain ⟨m', hIn', rfl⟩ := List.mem_map.mp hList
    exact ⟨m', hIn', q, hHead, hAt⟩
  · intro m' hIn' q hHead
    exact hLeast.lower m'.queue (List.mem_map_of_mem hIn') q hHead
  · intro m' hIn' hEmpty
    have hBound := (hNoMore m' hIn').resolve_right (by simp [hEmpty])
    exact hLe.trans_lt hBound

/-- **Ready** means that there is a settled timestamp with a packet. -/
theorem settledTimestamps_eq_empty
    (hIncreasing : ∀ m ∈ ms, Increasing Packet.timestamp m.queue) :
    settledTimestamps ms = ∅ ↔ (getReadiness ms).1 ≠ .readyForProcess := by
  rw [Finset.eq_empty_iff_forall_notMem]
  constructor
  · intro hNone hReady
    have hAnswer : getReadiness ms = (.readyForProcess, (getReadiness ms).2) :=
      Prod.ext hReady rfl
    exact hNone _ (getReadiness_iff.mp hAnswer).mem_settledTimestamps
  · intro hNot t hMem
    obtain ⟨u, hSettled⟩ := exists_settled hIncreasing hMem
    exact hNot (by rw [getReadiness_iff.mpr hSettled])

/-! ## One round -/

/-- What a pop at or before the head leaves: the packets past `t`, and a bound that for
later timestamps is as before. -/
structure Popped (t : Timestamp) (m m' : InputStreamManager) : Prop where
  queue : ∀ p, p ∈ m'.queue ↔ p ∈ m.queue ∧ t < p.timestamp
  increasing : Increasing Packet.timestamp m'.queue
  bound : ∀ u, t < u → (u < m'.nextTimestampBound ↔ u < m.nextTimestampBound)

theorem popped (hIncreasing : Increasing Packet.timestamp m.queue)
    (hHead : ∀ p, m.queue.head? = some p → t ≤ p.timestamp) :
    Popped t m (m.popPacketAtTimestamp t).manager := by
  have hQueue : (m.popPacketAtTimestamp t).manager.queue =
      Merge.advance Packet.timestamp t m.queue := by
    have hTaken : (m.takeHead t).1 = Merge.front Packet.timestamp t m.queue := by
      rw [takeHead_eq, Merge.front]
      cases hFirst : m.queue.head? with
      | none => rfl
      | some p => simp [Option.filter, (hHead p hFirst).ge_iff_eq']
    have hSplit := popPacketAtTimestamp_queue m t
    rw [hTaken] at hSplit
    exact List.append_cancel_left (hSplit.trans Merge.front_append_advance.symm)
  refine ⟨?_, hQueue.symm ▸ hIncreasing.advance, ?_⟩
  · intro p
    rw [hQueue]
    constructor
    · intro hMem
      exact ⟨Merge.advance_suffix.subset hMem, hIncreasing.lt_advance hHead hMem⟩
    · rintro ⟨hMem, hPast⟩
      have hSplit : p ∈ (Merge.front Packet.timestamp t m.queue).toList ++
          Merge.advance Packet.timestamp t m.queue := by
        rw [Merge.front_append_advance]
        exact hMem
      refine (List.mem_append.mp hSplit).resolve_left ?_
      intro hFront
      have hAt := (Option.filter_eq_some_iff.mp (Option.mem_toList.mp hFront)).2
      exact hPast.ne' (by simpa using hAt)
  · intro u hPast
    rw [popPacketAtTimestamp_manager]
    show u < (if _ then _ else _) ↔ _
    split
    · rename_i hLe
      have hNext : t.nextAllowedInStream ≤ u := by
        rw [Timestamp.lt_iff] at hPast
        rw [Timestamp.le_iff]
        unfold Timestamp.nextAllowedInStream
        split
        · show int64Max - 1 ≤ u.value
          omega
        · exact hPast
      exact iff_of_false (not_lt.mpr hNext) (not_lt.mpr (hLe.trans hPast.le))
    · exact Iff.rfl

/-- **A round** uses up its own timestamp. -/
theorem settledTimestamps_popAll (hIncreasing : ∀ m ∈ ms, Increasing Packet.timestamp m.queue)
    (hSettled : Settled ms t) :
    settledTimestamps ((popAll ms t).map PopResult.manager) = (settledTimestamps ms).erase t := by
  have hPopped : ∀ m ∈ ms, Popped t m (m.popPacketAtTimestamp t).manager := fun m hMem =>
    popped (hIncreasing m hMem) (hSettled.heads m hMem)
  have hAfter : (popAll ms t).map PopResult.manager =
      ms.map fun m => (m.popPacketAtTimestamp t).manager := by
    rw [popAll, List.map_map]
    rfl
  have hSame : ∀ {u}, t < u →
      (SettledAt ((popAll ms t).map PopResult.manager) u ↔ SettledAt ms u) := by
    intro u hPast
    unfold SettledAt
    rw [hAfter, List.forall_mem_map]
    refine and_congr_right fun _ => forall₂_congr fun m hMem => ?_
    refine or_congr ((hPopped m hMem).bound u hPast) ?_
    constructor
    · rintro ⟨p, hIn, hLe⟩
      exact ⟨p, ((hPopped m hMem).queue p |>.mp hIn).1, hLe⟩
    · rintro ⟨p, hIn, hLe⟩
      exact ⟨p, (hPopped m hMem).queue p |>.mpr ⟨hIn, hPast.trans_le hLe⟩, hLe⟩
  ext u
  rw [Finset.mem_erase, mem_settledTimestamps, mem_settledTimestamps, hAfter]
  simp only [List.mem_map, exists_exists_and_eq_and]
  constructor
  · rintro ⟨⟨m, hMem, p, hIn, rfl⟩, hNoMore⟩
    obtain ⟨hOld, hPast⟩ := (hPopped m hMem).queue p |>.mp hIn
    exact ⟨hPast.ne', ⟨m, hMem, p, hOld, rfl⟩, (hSame hPast).mp (hAfter ▸ hNoMore)⟩
  · rintro ⟨hNe, ⟨m, hMem, p, hIn, rfl⟩, hNoMore⟩
    have hPast : t < p.timestamp := by
      obtain ⟨q, hHead, hFirst⟩ := (hIncreasing m hMem).exists_head_le hIn
      exact lt_of_le_of_ne ((hSettled.heads m hMem q hHead).trans hFirst) hNe.symm
    exact ⟨⟨m, hMem, p, (hPopped m hMem).queue p |>.mpr ⟨hIn, hPast⟩, rfl⟩,
      hAfter ▸ (hSame hPast).mpr hNoMore⟩

/-- **The loop has one round for each settled timestamp** at which packets are queued. -/
theorem exists_consumes (hIncreasing : ∀ m ∈ ms, Increasing Packet.timestamp m.queue) :
    ∃ rounds last, Consumes ms rounds last ∧ rounds.length = (settledTimestamps ms).card := by
  induction hCount : (settledTimestamps ms).card generalizing ms with
  | zero =>
      have hNone := Finset.card_eq_zero.mp hCount
      exact ⟨[], ms, Consumes.stop ms ((settledTimestamps_eq_empty hIncreasing).mp hNone), rfl⟩
  | succ n ih =>
      have hSome : 0 < (settledTimestamps ms).card := by omega
      obtain ⟨t, hMem⟩ := Finset.card_pos.mp hSome
      obtain ⟨u, hSettled⟩ := exists_settled hIncreasing hMem
      have hNext : ∀ m ∈ (popAll ms u).map PopResult.manager,
          Increasing Packet.timestamp m.queue := by
        intro m' hMem'
        obtain ⟨result, hResult, rfl⟩ := List.mem_map.mp hMem'
        obtain ⟨m, hIn, rfl⟩ := List.mem_map.mp hResult
        exact (popped (hIncreasing m hIn) (hSettled.heads m hIn)).increasing
      have hLess : (settledTimestamps ((popAll ms u).map PopResult.manager)).card = n := by
        rw [settledTimestamps_popAll hIncreasing hSettled,
          Finset.card_erase_of_mem hSettled.mem_settledTimestamps, hCount]
        rfl
      obtain ⟨rounds, last, hConsumes, hLength⟩ := ih hNext hLess
      refine ⟨_ :: rounds, last,
        Consumes.round ms u rounds last (getReadiness_iff.mpr hSettled) hConsumes, ?_⟩
      rw [List.length_cons, hLength]

end SyncSet

end GraphRuntime.Stream
