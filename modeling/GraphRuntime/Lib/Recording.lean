import GraphRuntime.Lib.Projection

/-!
# Runs that record what they did

`Machine.recording` adds to a machine a history: what `note` makes of each step that
is taken.  The steps are the machine's own (`reaches_of_recording`), so whatever holds
of its runs holds of the recorded ones, and a statement about a run can mention the
choices made in it.
-/

namespace Interleaving

variable {σ φ χ β ε : Type}

/-- A state with what has been recorded so far. -/
structure Recorded (σ ε : Type) where
  state : σ
  history : List ε := []

namespace Machine

/-- The machine that records `note f x` when frame `f` is run under the choice `x`. -/
def recording (M : Machine σ φ χ β) (note : φ → χ → Option ε) :
    Machine (Recorded σ ε) φ χ β where
  exec := fun s f x =>
    match M.exec s.state f x with
    | none => none
    | some (s', fs) => some (⟨s', s.history ++ (note f x).toList⟩, fs)
  spawn := fun s b =>
    match M.spawn s.state b with
    | none => none
    | some (s', fs) => some (⟨s', s.history⟩, fs)

end Machine

/-- A guard that does not look at the history. -/
def Guard.recorded (G : Guard σ φ χ β) : Guard (Recorded σ ε) φ χ β where
  exec := fun s => G.exec s.state
  spawn := fun s => G.spawn s.state

def Config.record (c : Config σ φ) : Config (Recorded σ ε) φ := ⟨⟨c.shared, []⟩, c.threads⟩

def Config.forget (c : Config (Recorded σ ε) φ) : Config σ φ := ⟨c.shared.state, c.threads⟩

namespace Machine

variable {M : Machine σ φ χ β} {note : φ → χ → Option ε} {G : Guard σ φ χ β}
  {s s' : Recorded σ ε}

theorem recording_exec {f : φ} {x : χ} {fs : List φ}
    (hStep : (M.recording note).exec s f x = some (s', fs)) :
    M.exec s.state f x = some (s'.state, fs) ∧
      s'.history = s.history ++ (note f x).toList := by
  simp only [recording] at hStep
  split at hStep <;> cases hStep
  exact ⟨‹_›, rfl⟩

theorem recording_spawn {b : β} {fs : List φ}
    (hStep : (M.recording note).spawn s b = some (s', fs)) :
    M.spawn s.state b = some (s'.state, fs) ∧ s'.history = s.history := by
  simp only [recording] at hStep
  split at hStep <;> cases hStep
  exact ⟨‹_›, rfl⟩

/-- Forgetting the history. -/
theorem projects_recording : Projects (M.recording note) M Recorded.state id :=
  ⟨fun hStep => (recording_exec hStep).1, fun hStep => (recording_spawn hStep).1⟩

/-- **A recorded run is a run**. -/
theorem reaches_of_recording {c₀ c : Config (Recorded σ ε) φ}
    (hReach : (M.recording note).Reaches G.recorded c₀ c) :
    M.Reaches G c₀.forget c.forget := projects_recording.reaches hReach

end Machine

end Interleaving
