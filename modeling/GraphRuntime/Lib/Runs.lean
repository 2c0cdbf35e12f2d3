import Mathlib.Data.List.Infix

/-!
# Runs of a total step function

A run is a list of operations, each applied to the state the ones before it have left
(`List.foldl step s ops`).  `AllMeet ok s ops` says that each operation meets `ok` in the
state it is applied to.

A property of whole runs is read off single steps in two ways: `allMeet_iff` is about
what holds between one state and the next, and `forall_prefix_iff` about what holds in
every state reached, when an invariant decides in advance which steps keep the property.
-/

namespace Runs

variable {σ α : Type} {step : σ → α → σ} {ok : σ → α → Prop} {s : σ} {a : α} {ops : List α}

/-- Each operation meets `ok` where it is applied. -/
def AllMeet (step : σ → α → σ) (ok : σ → α → Prop) : σ → List α → Prop
  | _, [] => True
  | s, a :: ops => ok s a ∧ AllMeet step ok (step s a) ops

theorem allMeet_append {more : List α} :
    AllMeet step ok s (ops ++ more) ↔
      AllMeet step ok s ops ∧ AllMeet step ok (ops.foldl step s) more := by
  induction ops generalizing s with
  | nil => simp [AllMeet]
  | cons a ops ih =>
      rw [List.cons_append, AllMeet, AllMeet, ih, List.foldl_cons, and_assoc]

/-- An operation of a run is one that follows some prefix of it. -/
theorem allMeet_iff :
    AllMeet step ok s ops ↔ ∀ pre a, pre ++ [a] <+: ops → ok (pre.foldl step s) a := by
  constructor
  · intro hMeet pre a hPrefix
    obtain ⟨rest, rfl⟩ := hPrefix
    rw [List.append_assoc, allMeet_append] at hMeet
    exact hMeet.2.1
  · intro hOk
    induction ops generalizing s with
    | nil => exact trivial
    | cons a ops ih =>
        refine ⟨hOk [] a (List.prefix_append [a] ops), ih ?_⟩
        intro pre b hPrefix
        exact hOk (a :: pre) b (List.prefix_cons_inj a |>.mpr hPrefix)

/-- What allowed steps preserve holds at the end of an allowed run. -/
theorem AllMeet.invariant {I : σ → Prop} (hMeet : AllMeet step ok s ops) (hInit : I s)
    (hKeep : ∀ s a, I s → ok s a → I (step s a)) : I (ops.foldl step s) := by
  induction ops generalizing s with
  | nil => exact hInit
  | cons a ops ih => exact ih hMeet.2 (hKeep s a hInit hMeet.1)

/-- **Safe exactly as long as the steps are**: where the invariant `I` is kept by the steps
that meet `ok`, and a step from it leaves a state with `P` exactly when it meets `ok`, all
states of a run have `P` exactly when all its steps meet `ok`. -/
theorem forall_prefix_iff {I P : σ → Prop} (hInit : I s) (hHolds : ∀ s, I s → P s)
    (hStep : ∀ s a, I s → P (step s a) → ok s a)
    (hKeep : ∀ s a, I s → ok s a → I (step s a)) :
    (∀ pre, pre <+: ops → P (pre.foldl step s)) ↔ AllMeet step ok s ops := by
  constructor
  · intro hAll
    induction ops generalizing s with
    | nil => exact trivial
    | cons a ops ih =>
        have hOk : ok s a := hStep s a hInit (hAll [a] (List.prefix_append [a] ops))
        refine ⟨hOk, ih (hKeep s a hInit hOk) ?_⟩
        intro pre hPrefix
        exact hAll (a :: pre) (List.prefix_cons_inj a |>.mpr hPrefix)
  · intro hMeet pre hPrefix
    obtain ⟨rest, rfl⟩ := hPrefix
    exact hHolds _ ((allMeet_append.mp hMeet).1.invariant hInit hKeep)

end Runs
