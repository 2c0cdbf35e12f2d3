import GraphRuntime.Lib.Interleaving

/-!
# A machine with more state

`Projects M' M state choice` says that `M'` does what `M` does on a part of its state,
under a part of its choices: forgetting the rest turns every step of `M'` into one of
`M`.  Then it turns every run of `M'` into one of `M` (`Projects.reaches`), and what
holds of the runs of `M` holds of those of `M'`.
-/

namespace Interleaving

variable {σ σ' φ χ χ' β : Type}

/-- A step of a frame or the start of a thread, on the part that `state` keeps. -/
structure Projects (M' : Machine σ' φ χ' β) (M : Machine σ φ χ β) (state : σ' → σ)
    (choice : χ' → χ) : Prop where
  exec : ∀ {s f x s' fs}, M'.exec s f x = some (s', fs) →
    M.exec (state s) f (choice x) = some (state s', fs)
  spawn : ∀ {s b s' fs}, M'.spawn s b = some (s', fs) →
    M.spawn (state s) b = some (state s', fs)

/-- The guard `G` on the part that is kept, as a guard of the larger machine. -/
def Guard.along (G : Guard σ φ χ β) (state : σ' → σ) (choice : χ' → χ) :
    Guard σ' φ χ' β where
  exec := fun s fs f x => G.exec (state s) fs f (choice x)
  spawn := fun s fs b => G.spawn (state s) fs b

def Config.project (state : σ' → σ) (c : Config σ' φ) : Config σ φ :=
  ⟨state c.shared, c.threads⟩

variable {M' : Machine σ' φ χ' β} {M : Machine σ φ χ β} {state : σ' → σ} {choice : χ' → χ}
  {G : Guard σ φ χ β} {c₀ c c' : Config σ' φ}

/-- The same action, under the choice that is kept. -/
def Action.project (choice : χ' → χ) : Action χ' β → Action χ β
  | .run i x => .run i (choice x)
  | .spawn b => .spawn b

theorem allows_along (a : Action χ' β) :
    (G.along state choice).allows c a = G.allows (c.project state) (a.project choice) := by
  cases a with
  | run i x => rfl
  | spawn b => rfl

theorem Projects.step (h : Projects M' M state choice) {a : Action χ' β}
    (hStep : M'.step c a = some c') :
    M.step (c.project state) (a.project choice) = some (c'.project state) := by
  cases a with
  | run i x =>
      simp only [Machine.step] at hStep
      simp only [Action.project, Machine.step, Config.project]
      split at hStep
      · obtain ⟨r, hExec, rfl⟩ := Option.map_eq_some_iff.mp hStep
        simp only [h.exec hExec, Option.map_some]
      · exact absurd hStep (by simp)
  | spawn b =>
      simp only [Machine.step] at hStep
      simp only [Action.project, Machine.step, Config.project]
      obtain ⟨r, hSpawn, rfl⟩ := Option.map_eq_some_iff.mp hStep
      simp only [h.spawn hSpawn, Option.map_some]

/-- **A run of the larger machine is a run of the smaller one.** -/
theorem Projects.reaches (h : Projects M' M state choice)
    (hReach : M'.Reaches (G.along state choice) c₀ c) :
    M.Reaches G (c₀.project state) (c.project state) := by
  induction hReach with
  | refl => exact .refl
  | tail _ hOk hStep ih => exact .tail ih (allows_along _ ▸ hOk) (h.step hStep)

end Interleaving
