/-!
# Guarded runs of a partial step function

A system is a partial function `step : σ → α → Option σ` from a state and a
choice to the next state.  `Reach step ok s₀ s` says that `s` is reached from
`s₀` by steps that all meet the guard `ok`, which looks at the state *before*
the step and at the choice.  A property of every run is proved once, by
`Reach.invariant`, from what one guarded step preserves; `runGuarded` executes
a concrete list of choices and `reach_of_runGuarded` turns its result into a
`Reach`.  `foldl_invariant` is the rule for a loop over a list.
-/

namespace Transition

variable {σ α : Type}

inductive Reach (step : σ → α → Option σ) (ok : σ → α → Prop) (s₀ : σ) :
    σ → Prop
  | refl : Reach step ok s₀ s₀
  | tail {s s' : σ} {a : α} (hReach : Reach step ok s₀ s) (hOk : ok s a)
      (hStep : step s a = some s') : Reach step ok s₀ s'

variable {step : σ → α → Option σ} {ok ok' : σ → α → Prop} {s₀ s s' : σ}

/-- **Invariant rule**: what holds initially and survives every guarded step
holds in every state reached. -/
theorem Reach.invariant {I : σ → Prop} (hInit : I s₀)
    (hStep : ∀ s a s', I s → ok s a → step s a = some s' → I s')
    (hReach : Reach step ok s₀ s) : I s := by
  induction hReach with
  | refl => exact hInit
  | tail _ hOk hNext ih => exact hStep _ _ _ ih hOk hNext

/-- The invariant rule on top of an invariant already established. -/
theorem Reach.invariant_with {I J : σ → Prop}
    (hJ : ∀ s, Reach step ok s₀ s → J s) (hInit : I s₀)
    (hStep : ∀ s a s', J s → I s → ok s a → step s a = some s' → I s')
    (hReach : Reach step ok s₀ s) : I s := by
  induction hReach with
  | refl => exact hInit
  | tail hPrefix hOk hNext ih => exact hStep _ _ _ (hJ _ hPrefix) ih hOk hNext

theorem Reach.mono (hWeaken : ∀ s a, ok s a → ok' s a)
    (hReach : Reach step ok s₀ s) : Reach step ok' s₀ s := by
  induction hReach with
  | refl => exact .refl
  | tail _ hOk hNext ih => exact .tail ih (hWeaken _ _ hOk) hNext

theorem Reach.trans (hFirst : Reach step ok s₀ s) (hSecond : Reach step ok s s') :
    Reach step ok s₀ s' := by
  induction hSecond with
  | refl => exact hFirst
  | tail _ hOk hNext ih => exact .tail ih hOk hNext

/-- Execute a list of choices, stopping with `none` at the first one that is
not enabled or not allowed by the guard. -/
def runGuarded (step : σ → α → Option σ) (okb : σ → α → Bool) (s : σ) :
    List α → Option σ
  | [] => some s
  | a :: rest =>
      if okb s a then
        match step s a with
        | none => none
        | some s' => runGuarded step okb s' rest
      else none

theorem reach_of_runGuarded {okb : σ → α → Bool} {choices : List α}
    (hRun : runGuarded step okb s choices = some s') :
    Reach step (fun s a => okb s a = true) s s' := by
  induction choices generalizing s with
  | nil =>
      simp only [runGuarded, Option.some.injEq] at hRun
      exact hRun ▸ .refl
  | cons a rest ih =>
      unfold runGuarded at hRun
      split at hRun
      · rename_i hOk
        split at hRun
        · exact absurd hRun (by simp)
        · rename_i s₁ hStep
          have hFirst : Reach step (fun s a => okb s a = true) s s₁ :=
            .tail .refl hOk hStep
          exact hFirst.trans (ih hRun)
      · exact absurd hRun (by simp)

/-- **Loop rule**: an invariant of the elements done so far, kept by each round
of a loop over `l`, holds of all of `l` in the end. -/
theorem foldl_invariant {f : σ → α → σ} {I : List α → σ → Prop} {l : List α}
    (hInit : I [] s₀)
    (hRound : ∀ done a rest s, l = done ++ a :: rest → I done s →
      I (done ++ [a]) (f s a)) : I l (l.foldl f s₀) := by
  have hSuffix : ∀ rest done s, l = done ++ rest → I done s →
      I l (rest.foldl f s) := by
    intro rest
    induction rest with
    | nil =>
        intro done s hSplit hDone
        rw [List.append_nil] at hSplit
        exact hSplit ▸ hDone
    | cons a rest ih =>
        intro done s hSplit hDone
        exact ih (done ++ [a]) (f s a) (by simp [hSplit])
          (hRound done a rest s hSplit hDone)
  exact hSuffix l [] s₀ rfl hInit

end Transition
