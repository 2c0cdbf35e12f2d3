import Mathlib.Data.List.Basic
import Mathlib.Data.List.Infix

/-!
# Answers to a growing list of requests

A process that is asked one thing after the other answers each request by what it has been
asked so far.  `answers` is everything it has said: it only grows with the requests
(`answers_mono`), so what has been said need not wait for what is still to be asked.

A process that is woken up now and then with nothing to do, and says nothing then, answers the
requests as if it had not been woken up (`answers_onArrival`).
-/

namespace Causal

variable {α β : Type}

/-- The answers to `requests` when those in `seen` have been answered. -/
def answersFrom (respond : List α → List β) : List α → List α → List β
  | _, [] => []
  | seen, a :: requests =>
      respond (seen ++ [a]) ++ answersFrom respond (seen ++ [a]) requests

/-- **All answers**: `respond` gives those to the last request of a list. -/
def answers (respond : List α → List β) (requests : List α) : List β :=
  answersFrom respond [] requests

variable {respond : List α → List β}

theorem answersFrom_append (seen xs ys : List α) :
    answersFrom respond seen (xs ++ ys) =
      answersFrom respond seen xs ++ answersFrom respond (seen ++ xs) ys := by
  induction xs generalizing seen with
  | nil => simp [answersFrom]
  | cons x xs ih => simp [answersFrom, ih]

@[simp] theorem answers_nil : answers respond [] = [] := rfl

/-- One more request. -/
theorem answers_concat (xs : List α) (x : α) :
    answers respond (xs ++ [x]) = answers respond xs ++ respond (xs ++ [x]) := by
  simp [answers, answersFrom_append, answersFrom]

/-- **What has been said stays said.** -/
theorem answers_mono {xs ys : List α} (hPrefix : xs <+: ys) :
    answers respond xs <+: answers respond ys := by
  obtain ⟨zs, rfl⟩ := hPrefix
  rw [answers, answers, answersFrom_append]
  exact List.prefix_append _ _

/-- Answers that only count the requests. -/
theorem answers_length (produce : Nat → List β) (xs : List α) :
    answers (fun seen => produce seen.length) xs =
      (List.range xs.length).flatMap fun i => produce (i + 1) := by
  induction xs using List.reverseRecOn with
  | nil => rfl
  | append_singleton xs x ih =>
      rw [answers_concat, ih, List.length_append, List.length_singleton, List.range_succ,
        List.flatMap_append, List.flatMap_singleton]

/-- Of two such lists one is the beginning of the other. -/
theorem answers_length_prefix {γ : Type} (produce : Nat → List β) {xs : List α} {ys : List γ}
    (hLe : xs.length ≤ ys.length) :
    answers (fun seen => produce seen.length) xs <+:
      answers (fun seen => produce seen.length) ys := by
  rw [answers_length, answers_length]
  obtain ⟨k, hLength⟩ := Nat.exists_eq_add_of_le hLe
  rw [hLength, List.range_add, List.flatMap_append]
  exact List.prefix_append _ _

/-! ## Requests that come in batches -/

/-- The answer to a batch, which is none if the batch is empty. -/
def onArrival (respond : List α → List β) (batches : List (List α)) : List β :=
  if (batches.getLast?.getD []).isEmpty then [] else respond batches.flatten

/-- **Empty batches make no difference** when no batch has more than one request. -/
theorem answers_onArrival {batches : List (List α)}
    (hSingle : ∀ batch ∈ batches, batch.length ≤ 1) :
    answers (onArrival respond) batches = answers respond batches.flatten := by
  induction batches using List.reverseRecOn with
  | nil => rfl
  | append_singleton batches batch ih =>
      rw [List.forall_mem_append, List.forall_mem_singleton] at hSingle
      rw [answers_concat, ih hSingle.1, List.flatten_append, List.flatten_singleton]
      have hLast : onArrival respond (batches ++ [batch]) =
          if batch.isEmpty then [] else respond (batches.flatten ++ batch) := by
        simp [onArrival]
      rw [hLast]
      cases batch with
      | nil => simp
      | cons a rest =>
          have hRest : rest = [] := List.eq_nil_of_length_eq_zero (by
            have hLength := hSingle.2
            rw [List.length_cons] at hLength
            omega)
          rw [hRest, answers_concat]
          rfl

end Causal
