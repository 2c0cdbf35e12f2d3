import GraphRuntime.Lib.Recording

/-!
# Runs that record what they did to the state

`Machine.tracing` is `Machine.recording` with a note that may depend on the state a step is
taken in: what was at the head of a queue, say, when the step took it.

`Machine.reaches_while` is for conditions on the end of a run that go back along its steps, such
as a flag that is never lowered: the run is then one under the guard that they hold.
-/

namespace Interleaving

variable {σ φ χ β ε : Type}

/-- The steps taken as long as `P` holds. -/
def Guard.whilst (P : σ → Bool) : Guard σ φ χ β := ⟨fun s _ _ _ => P s, fun s _ _ => P s⟩

namespace Machine

/-- The machine that records `note s f x` when frame `f` is run in state `s` under the
choice `x`. -/
def tracing (M : Machine σ φ χ β) (note : σ → φ → χ → Option ε) :
    Machine (Recorded σ ε) φ χ β where
  exec := fun s f x =>
    (M.exec s.state f x).map fun r => (⟨r.1, s.history ++ (note s.state f x).toList⟩, r.2)
  spawn := fun s b => (M.spawn s.state b).map fun r => (⟨r.1, s.history⟩, r.2)

variable {M : Machine σ φ χ β} {note : σ → φ → χ → Option ε} {G : Guard σ φ χ β}
  {s s' : Recorded σ ε}

theorem tracing_exec {f : φ} {x : χ} {fs : List φ}
    (hStep : (M.tracing note).exec s f x = some (s', fs)) :
    M.exec s.state f x = some (s'.state, fs) ∧
      s'.history = s.history ++ (note s.state f x).toList := by
  obtain ⟨r, hExec, hEq⟩ := Option.map_eq_some_iff.mp hStep
  cases hEq
  exact ⟨hExec, rfl⟩

theorem tracing_spawn {b : β} {fs : List φ}
    (hSpawn : (M.tracing note).spawn s b = some (s', fs)) :
    M.spawn s.state b = some (s'.state, fs) ∧ s'.history = s.history := by
  obtain ⟨r, hBefore, hEq⟩ := Option.map_eq_some_iff.mp hSpawn
  cases hEq
  exact ⟨hBefore, rfl⟩

theorem projects_tracing : Projects (M.tracing note) M Recorded.state id :=
  ⟨fun hStep => (tracing_exec hStep).1, fun hSpawn => (tracing_spawn hSpawn).1⟩

/-- **A traced run is a run**. -/
theorem reaches_of_tracing {c₀ c : Config (Recorded σ ε) φ}
    (hReach : (M.tracing note).Reaches G.recorded c₀ c) : M.Reaches G c₀.forget c.forget :=
  projects_tracing.reaches hReach

/-- The steps of a run that ends where `P` holds, when `P` goes back along every step. -/
theorem reaches_while {P : σ → Bool} {c₀ c : Config σ φ}
    (hBack : ∀ c a c', M.step c a = some c' → P c'.shared = true → P c.shared = true)
    (hReach : M.Reaches G c₀ c) (hEnd : P c.shared = true) :
    M.Reaches (Guard.whilst P) c₀ c := by
  induction hReach with
  | refl => exact .refl
  | @tail c c' a _ hOk hStep ih =>
      have hHere := hBack c a c' hStep hEnd
      refine .tail (ih hHere) ?_ hStep
      cases a with
      | spawn b => exact hHere
      | run i x =>
          simp only [Guard.allows] at hOk ⊢
          split at hOk
          · exact hHere
          · exact absurd hOk Bool.false_ne_true

end Machine

end Interleaving
