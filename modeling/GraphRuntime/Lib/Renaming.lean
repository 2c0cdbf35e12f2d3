import GraphRuntime.Lib.Interleaving

/-!
# Machines that do not see a part of their state

A renaming of a machine into another one changes states, frames, choices and calls so that it
commutes with every step.  Then it commutes with whole schedules (`Renaming.runSchedule`), and
two schedules that a renaming makes equal run alike: both get stuck, or both end in
configurations it makes equal (`Renaming.run_alike`).
-/

namespace Interleaving

open Transition

variable {σ φ χ β σ' φ' χ' β' : Type}

structure Renaming (M : Machine σ φ χ β) (N : Machine σ' φ' χ' β') where
  state : σ → σ'
  frame : φ → φ'
  choice : χ → χ'
  call : β → β'
  exec : ∀ s f x, N.exec (state s) (frame f) (choice x) =
    (M.exec s f x).map fun r => (state r.1, r.2.map frame)
  spawn : ∀ s b, N.spawn (state s) (call b) =
    (M.spawn s b).map fun r => (state r.1, r.2.map frame)

namespace Renaming

variable {M : Machine σ φ χ β} {N : Machine σ' φ' χ' β'} (h : Renaming M N)

def config (c : Config σ φ) : Config σ' φ' := ⟨h.state c.shared, c.threads.map (List.map h.frame)⟩

def action : Action χ β → Action χ' β'
  | .run i x => .run i (h.choice x)
  | .spawn b => .spawn (h.call b)

theorem step (c : Config σ φ) (a : Action χ β) :
    N.step (h.config c) (h.action a) = (M.step c a).map h.config := by
  cases a with
  | spawn b =>
      simp only [action, Machine.step]
      show (N.spawn (h.state c.shared) (h.call b)).map _ = _
      rw [h.spawn, Option.map_map, Option.map_map]
      congr 1
      funext r
      simp [config]
  | run i x =>
      simp only [action, Machine.step, config, List.getElem?_map]
      cases c.threads[i]? with
      | none => rfl
      | some stack =>
          cases stack with
          | nil => rfl
          | cons f below =>
              simp only [Option.map_some, List.map_cons]
              rw [h.exec, Option.map_map, Option.map_map]
              congr 1
              funext r
              simp [config, List.map_set]

/-- **A renamed schedule runs to the renamed configuration.** -/
theorem runSchedule (c : Config σ φ) (schedule : List (Action χ β)) :
    N.runSchedule Guard.all (h.config c) (schedule.map h.action) =
      (M.runSchedule Guard.all c schedule).map h.config := by
  induction schedule generalizing c with
  | nil => rfl
  | cons a rest ih =>
      have hAllows : (Guard.all : Guard σ' φ' χ' β').allows (h.config c) (h.action a) =
          (Guard.all : Guard σ φ χ β).allows c a := by
        cases a with
        | spawn b => rfl
        | run i x =>
            simp only [Guard.allows, action, config, List.getElem?_map]
            cases c.threads[i]? with
            | none => rfl
            | some stack => cases stack <;> rfl
      simp only [List.map_cons, Machine.runSchedule, runGuarded, hAllows]
      split
      · rw [h.step]
        cases M.step c a with
        | none => rfl
        | some c₁ => exact ih c₁
      · rfl

/-- **Schedules that the renaming makes equal run alike.** -/
theorem run_alike {c₁ c₂ : Config σ φ} {schedule₁ schedule₂ : List (Action χ β)}
    (hStart : h.config c₁ = h.config c₂)
    (hSame : schedule₁.map h.action = schedule₂.map h.action) :
    (M.runSchedule Guard.all c₁ schedule₁).map h.config =
      (M.runSchedule Guard.all c₂ schedule₂).map h.config := by
  rw [← h.runSchedule, ← h.runSchedule, hStart, hSame]

end Renaming

end Interleaving
