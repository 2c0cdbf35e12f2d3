import GraphRuntime.Handler.InputStreamHandler
import GraphRuntime.Stream.Settled

/-!
# What `ScheduleInvocations` asks for and reports

The result counts the invocations of `Process` asked for, not the calls of the callback:
a call that closes the node is not in it, and one for a missing callback is
(`reportsWhatItDid_iff`).

The loop does not take the input set of an invocation it has asked for, so that with a
callback that runs the node later the readiness stays what it was: a node that is ready
is asked for as often as the allowance permits (`overScheduled_iff`).
-/

namespace GraphRuntime.Handler

open GraphRuntime.Stream

variable {σ : Type} {handler : σ → InputStreamHandler} {callback : Option (σ → σ)} {n : Nat}
  {s : Scheduling σ}

/-! ## The loop -/

/-- What a node is told by the handler. -/
def answer (handler : σ → InputStreamHandler) (w : σ) : Readiness × Timestamp :=
  (handler w).getNodeReadiness Timestamp.unset

/-- `s` after a further answer. -/
def Scheduling.asked (handler : σ → InputStreamHandler) (s : Scheduling σ) : Scheduling σ :=
  { s with answers := s.answers ++ [answer handler s.world] }

/-- `s` after a further invocation of `Process` has been asked for. -/
def Scheduling.processed (handler : σ → InputStreamHandler) (callback : Option (σ → σ))
    (s : Scheduling σ) : Scheduling σ :=
  { (s.asked handler).invoke callback with scheduled := s.scheduled + 1 }

/-- One turn, by the answer. -/
theorem scheduleLoop_succ :
    scheduleLoop handler callback (n + 1) s =
      match (answer handler s.world).1 with
      | .readyForProcess => scheduleLoop handler callback n (s.processed handler callback)
      | .readyForClose => (s.asked handler).invoke callback
      | .notReady =>
          { s.asked handler with inputBound := some (answer handler s.world).2 } := rfl

theorem Scheduling.invoke_eq :
    s.invoke callback =
      { s with
        world := (callback.getD id) s.world
        invoked := s.invoked + if callback.isSome then 1 else 0 } := by
  cases callback <;> rfl

theorem Scheduling.processed_eq :
    s.processed handler callback =
      { s.asked handler with
        world := (callback.getD id) s.world
        scheduled := s.scheduled + 1
        invoked := s.invoked + if callback.isSome then 1 else 0 } := by
  rw [processed, invoke_eq]
  rfl

/-- Each turn calls the callback at most once. -/
theorem invoked_scheduleLoop_le :
    (scheduleLoop handler callback n s).invoked ≤ s.invoked + n := by
  have hOnce : (if callback.isSome then 1 else 0) ≤ 1 := by split <;> omega
  induction n generalizing s with
  | zero => exact le_rfl
  | succ n ih =>
      rw [scheduleLoop_succ]
      split
      · refine ih.trans ?_
        rw [Scheduling.processed_eq]
        simp only
        omega
      · rw [Scheduling.invoke_eq]
        simp only [Scheduling.asked]
        omega
      · simp only [Scheduling.asked]
        omega

/-- Counts only grow. -/
theorem le_scheduleLoop :
    s.scheduled ≤ (scheduleLoop handler callback n s).scheduled ∧
      s.invoked ≤ (scheduleLoop handler callback n s).invoked := by
  induction n generalizing s with
  | zero => exact ⟨le_rfl, le_rfl⟩
  | succ n ih =>
      rw [scheduleLoop_succ]
      split
      · have hGrown : s.scheduled ≤ (s.processed handler callback).scheduled ∧
            s.invoked ≤ (s.processed handler callback).invoked := by
          rw [Scheduling.processed_eq]
          exact ⟨Nat.le_succ _, Nat.le_add_right _ _⟩
        exact ⟨hGrown.1.trans ih.1, hGrown.2.trans ih.2⟩
      · rw [Scheduling.invoke_eq]
        exact ⟨le_rfl, Nat.le_add_right _ _⟩
      · exact ⟨le_rfl, le_rfl⟩

/-- A callback that is not there is never called. -/
theorem invoked_scheduleLoop_none :
    (scheduleLoop handler none n s).invoked = s.invoked := by
  induction n generalizing s with
  | zero => rfl
  | succ n ih =>
      rw [scheduleLoop_succ]
      split
      · exact ih
      · rfl
      · rfl

/-- The bound has been written exactly if the last answer was that the node is not ready. -/
def Scheduling.BoundReported (s : Scheduling σ) : Prop :=
  ∀ b, s.inputBound = some b ↔ s.answers.getLast? = some (.notReady, b)

theorem boundReported_scheduleLoop (hUnwritten : s.inputBound = none)
    (hReported : s.BoundReported) : (scheduleLoop handler callback n s).BoundReported := by
  induction n generalizing s with
  | zero => exact hReported
  | succ n ih =>
      have hOther : (answer handler s.world).1 ≠ .notReady →
          ∀ b, (s.asked handler).answers.getLast? ≠ some (.notReady, b) := by
        intro hNe b hLast
        have hEq : answer handler s.world = (.notReady, b) := by
          simpa [Scheduling.asked] using hLast
        exact hNe (congrArg Prod.fst hEq)
      rw [scheduleLoop_succ]
      split
      · rename_i hProcess
        rw [Scheduling.processed_eq]
        refine ih hUnwritten fun b => ?_
        refine iff_of_false ?_ (hOther (by simp [hProcess]) b)
        simp [Scheduling.asked, hUnwritten]
      · rename_i hClose
        rw [Scheduling.invoke_eq]
        refine fun b => iff_of_false ?_ (hOther (by simp [hClose]) b)
        simp [Scheduling.asked, hUnwritten]
      · rename_i hNot
        intro b
        show some (answer handler s.world).2 = some b ↔ _
        have hAnswer : answer handler s.world = (.notReady, (answer handler s.world).2) :=
          Prod.ext hNot rfl
        simp only [Scheduling.asked, List.getLast?_concat, Option.some.injEq]
        rw [hAnswer]
        simp

/-! ## What is reported -/

/-- The contract of `ScheduleInvocations`, about one call. -/
structure ReportsWhatItDid (maxAllowance : Int) (s : Scheduling σ) : Prop where
  returned : s.returned = true ↔ 0 < s.invoked
  allowance : s.invoked ≤ maxAllowance.toNat
  inputBound : s.BoundReported

/-- With a first turn the answer to it decides: a node that is ready to close is invoked and
not counted, and one that is ready is counted even without a callback. -/
theorem scheduled_iff_invoked {w : σ} :
    (0 < (scheduleLoop handler callback (n + 1) { world := w }).scheduled ↔
        0 < (scheduleLoop handler callback (n + 1) { world := w }).invoked) ↔
      (answer handler w).1 ≠ if callback.isSome then .readyForClose else .readyForProcess := by
  cases hAnswer : (answer handler w).1 with
  | notReady =>
      have hLoop : scheduleLoop handler callback (n + 1) { world := w } =
          { Scheduling.asked handler { world := w } with
            inputBound := some (answer handler w).2 } := by
        simp only [scheduleLoop_succ, hAnswer]
      rw [hLoop]
      refine iff_of_true Iff.rfl ?_
      split <;> decide
  | readyForClose =>
      have hLoop : scheduleLoop handler callback (n + 1) { world := w } =
          (Scheduling.asked handler { world := w }).invoke callback := by
        simp only [scheduleLoop_succ, hAnswer]
      rw [hLoop, Scheduling.invoke_eq]
      cases callback <;> simp [Scheduling.asked]
  | readyForProcess =>
      have hLoop : scheduleLoop handler callback (n + 1) { world := w } =
          scheduleLoop handler callback n
            (Scheduling.processed handler callback { world := w }) := by
        simp only [scheduleLoop_succ, hAnswer]
      have hScheduled : 0 < (scheduleLoop handler callback (n + 1) { world := w }).scheduled := by
        rw [hLoop]
        refine lt_of_lt_of_le ?_ le_scheduleLoop.1
        exact Nat.succ_pos 0
      cases callback with
      | none =>
          have hNone : (scheduleLoop handler none (n + 1) { world := w }).invoked = 0 :=
            invoked_scheduleLoop_none
          simp [hScheduled, hNone]
      | some run =>
          have hInvoked :
              0 < (scheduleLoop handler (some run) (n + 1) { world := w }).invoked := by
            rw [hLoop]
            refine lt_of_lt_of_le ?_ le_scheduleLoop.2
            exact Nat.succ_pos 0
          simp [hScheduled, hInvoked]

/-- **`ScheduleInvocations` reports what it did**, whatever the callback does meanwhile,
unless the first answer is `kReadyForClose`, or is `kReadyForProcess` and there is no
callback.  Its other two promises it keeps always. -/
theorem reportsWhatItDid_iff (handler : σ → InputStreamHandler) (callback : Option (σ → σ))
    (maxAllowance : Int) (w : σ) :
    ReportsWhatItDid maxAllowance (scheduleInvocations handler callback maxAllowance w) ↔
      maxAllowance ≤ 0 ∨
        ((handler w).getNodeReadiness Timestamp.unset).1 ≠
          if callback.isSome then .readyForClose else .readyForProcess := by
  have hAllowance : (scheduleInvocations handler callback maxAllowance w).invoked ≤
      maxAllowance.toNat := by
    have hLe : (scheduleInvocations handler callback maxAllowance w).invoked ≤
        0 + maxAllowance.toNat := invoked_scheduleLoop_le
    rwa [Nat.zero_add] at hLe
  have hBound : (scheduleInvocations handler callback maxAllowance w).BoundReported :=
    boundReported_scheduleLoop rfl fun b => by simp
  have hOnly : ReportsWhatItDid maxAllowance (scheduleInvocations handler callback maxAllowance w) ↔
      (0 < (scheduleInvocations handler callback maxAllowance w).scheduled ↔
        0 < (scheduleInvocations handler callback maxAllowance w).invoked) := by
    constructor
    · intro hReports
      simpa [Scheduling.returned] using hReports.returned
    · intro hSame
      exact ⟨by simpa [Scheduling.returned] using hSame, hAllowance, hBound⟩
  rw [hOnly, scheduleInvocations]
  cases hTurns : maxAllowance.toNat with
  | zero =>
      refine iff_of_true Iff.rfl (Or.inl ?_)
      omega
  | succ n =>
      have hPositive : ¬ maxAllowance ≤ 0 := by omega
      rw [or_iff_right hPositive]
      exact scheduled_iff_invoked

/-- A default handler whose only stream is closed and empty: the callback is called once, to
close the node, and the result is `false`. -/
theorem reportsWhatItDid_close :
    let closed : InputStreamHandler :=
      { kind := .default, managers := some [(InputStreamManager.close {}).1] }
    let s := scheduleInvocations (fun _ : Nat => closed) (some (· + 1)) 3 0
    s.invoked = 1 ∧ s.returned = false ∧ ¬ ReportsWhatItDid 3 s := by
  refine ⟨by decide, by decide, ?_⟩
  intro hReports
  exact absurd (hReports.returned.mpr (by decide)) (by decide)

/-! ## How much is asked for -/

/-- With a callback that leaves the handler as it is, the answer is always the same. -/
theorem scheduled_of_record {record : σ → σ} (hRecords : ∀ w, handler (record w) = handler w) :
    (scheduleLoop handler (some record) n s).scheduled =
      s.scheduled + if (answer handler s.world).1 = .readyForProcess then n else 0 := by
  induction n generalizing s with
  | zero =>
      show s.scheduled = _
      split <;> rfl
  | succ n ih =>
      rw [scheduleLoop_succ]
      split
      · rename_i hProcess
        have hSame : answer handler (record s.world) = answer handler s.world := by
          unfold answer
          rw [hRecords]
        rw [ih, Scheduling.processed_eq]
        show s.scheduled + 1 + (if (answer handler (record s.world)).1 = _ then n else 0) = _
        rw [hSame, if_pos hProcess, if_pos hProcess]
        omega
      · rename_i hClose
        simp [hClose, Scheduling.invoke, Scheduling.asked]
      · rename_i hNot
        simp [hNot, Scheduling.asked]

/-- **`ScheduleInvocations` asks for too much** whenever the allowance is larger than the
number of settled timestamps at which packets are queued, if there are any.  That number
is how many invocations find an input set of their own. -/
theorem overScheduled_iff (handler : σ → InputStreamHandler) (record : σ → σ) (w : σ)
    (ms : List InputStreamManager) (maxAllowance : Nat)
    (hRecords : ∀ w, handler (record w) = handler w)
    (hHandler : handler w = { kind := .default, managers := some ms })
    (hIncreasing : ∀ m ∈ ms, m.queue.Pairwise (·.timestamp < ·.timestamp)) :
    (∃ rounds last, SyncSet.Consumes ms rounds last ∧
        rounds.length = (SyncSet.settledTimestamps ms).card) ∧
      ((scheduleInvocations handler (some record) maxAllowance w).scheduled ≤
          min maxAllowance (SyncSet.settledTimestamps ms).card ↔
        (SyncSet.settledTimestamps ms).card = 0 ∨
          maxAllowance ≤ (SyncSet.settledTimestamps ms).card) := by
  refine ⟨SyncSet.exists_consumes hIncreasing, ?_⟩
  have hAnswer : (answer handler w).1 = (SyncSet.getReadiness ms).1 := by
    unfold answer
    rw [hHandler]
    rfl
  have hNone : (SyncSet.settledTimestamps ms).card = 0 ↔
      (answer handler w).1 ≠ .readyForProcess := by
    rw [Finset.card_eq_zero, hAnswer]
    exact SyncSet.settledTimestamps_eq_empty hIncreasing
  rw [scheduleInvocations, scheduled_of_record hRecords, Int.toNat_natCast, Nat.zero_add]
  change (if (answer handler w).1 = _ then _ else 0) ≤ _ ↔ _
  by_cases hReady : (answer handler w).1 = .readyForProcess
  · rw [if_pos hReady, or_iff_right (fun hZero => hNone.mp hZero hReady)]
    omega
  · rw [if_neg hReady]
    exact iff_of_true (Nat.zero_le _) (Or.inl (hNone.mpr hReady))

/-- A handler over one open stream with a packet at 5. -/
private def waitingPacket : InputStreamHandler :=
  { kind := .default,
    managers := some [{ queue := [⟨some 1, .ofValue 5⟩], nextTimestampBound := .ofValue 6 }] }

/-- With an allowance of three, three invocations are asked for. -/
theorem overScheduled_one :
    (scheduleInvocations (fun _ : Nat => waitingPacket) (some (· + 1)) 3 0).scheduled = 3 ∧
      (SyncSet.settledTimestamps waitingPacket.streams).card = 1 ∧
      ¬ (scheduleInvocations (fun _ : Nat => waitingPacket) (some (· + 1)) 3 0).scheduled ≤
        min 3 (SyncSet.settledTimestamps waitingPacket.streams).card := by
  decide

/-- With an allowance of one, one is. -/
theorem overScheduled_allowance :
    (scheduleInvocations (fun _ : Nat => waitingPacket) (some (· + 1)) (1 : Nat) 0).scheduled ≤
      min 1 (SyncSet.settledTimestamps waitingPacket.streams).card :=
  (overScheduled_iff (fun _ : Nat => waitingPacket) (· + 1) 0 waitingPacket.streams 1
    (fun _ => rfl) rfl (by decide)).2.mpr (Or.inr (by decide))

end GraphRuntime.Handler
