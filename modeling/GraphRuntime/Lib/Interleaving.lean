import GraphRuntime.Lib.Transition

/-!
# Interleaving of threads with call stacks

A concurrent program is given by the atomic steps of its call frames.  A
thread is a stack of frames; the frame on top executes one atomic step on the
shared state and is replaced by the frames the step leaves behind (its own
continuation and the calls it made, the callee on top).  A thread that has
returned from everything is an empty stack.  `spawn` starts a thread.

Whatever order the threads run in, a step does to the frames of the whole
system, read from the first thread's top to the last thread's bottom, only one
thing: it replaces one frame `f` by a list `fs`, in place.  `Machine.step_cases`
states this, and `invariant` turns it into an induction rule for properties of
the shared state together with the frames.  Properties that count frames, or
ask for a frame with some property, then need no reference to threads at all.

`Finishes` and `Alone` are runs of one thread without interleaving.
-/

namespace Interleaving

open Transition

variable {σ φ χ β : Type}

/-- The atomic steps of a program: `exec` runs the frame on top of a stack
under a choice of the environment, `spawn` starts a thread. -/
structure Machine (σ φ χ β : Type) where
  exec : σ → φ → χ → Option (σ × List φ)
  spawn : σ → β → Option (σ × List φ)

structure Config (σ φ : Type) where
  shared : σ
  threads : List (List φ)

inductive Action (χ β : Type)
  | run (thread : Nat) (choice : χ)
  | spawn (call : β)

/-- All frames of all threads. -/
def Config.frames (c : Config σ φ) : List φ := c.threads.flatten

/-- The frames other than the top frame of thread `i`, in order. -/
def Config.others (c : Config σ φ) (i : Nat) : List φ :=
  (c.threads.take i).flatten ++ (c.threads[i]?.getD []).tail ++
    (c.threads.drop (i + 1)).flatten

namespace Machine

variable (M : Machine σ φ χ β)

def step (c : Config σ φ) : Action χ β → Option (Config σ φ)
  | .run i x =>
      match c.threads[i]? with
      | some (f :: below) =>
          (M.exec c.shared f x).map fun r =>
            ⟨r.1, c.threads.set i (r.2 ++ below)⟩
      | _ => none
  | .spawn b =>
      (M.spawn c.shared b).map fun r => ⟨r.1, c.threads ++ [r.2]⟩

end Machine

/-- A restriction on runs: which steps of a frame, in the presence of which
other frames, and which new threads are considered. -/
structure Guard (σ φ χ β : Type) where
  exec : σ → List φ → φ → χ → Bool
  spawn : σ → List φ → β → Bool

/-- No restriction. -/
def Guard.all : Guard σ φ χ β := ⟨fun _ _ _ _ => true, fun _ _ _ => true⟩

/-- Both restrictions. -/
def Guard.and (G H : Guard σ φ χ β) : Guard σ φ χ β :=
  ⟨fun s fs f x => G.exec s fs f x && H.exec s fs f x,
    fun s fs b => G.spawn s fs b && H.spawn s fs b⟩

/-- The guard on the actions of a configuration. -/
def Guard.allows (G : Guard σ φ χ β) (c : Config σ φ) : Action χ β → Bool
  | .run i x =>
      match c.threads[i]? with
      | some (f :: _) => G.exec c.shared (c.others i) f x
      | _ => false
  | .spawn b => G.spawn c.shared c.frames b

namespace Machine

variable (M : Machine σ φ χ β)

/-- The configurations reached from `c₀` by steps the guard allows. -/
abbrev Reaches (G : Guard σ φ χ β) (c₀ c : Config σ φ) : Prop :=
  Reach M.step (fun c a => G.allows c a = true) c₀ c

/-- Execute a concrete schedule. -/
abbrev runSchedule (G : Guard σ φ χ β) (c : Config σ φ)
    (schedule : List (Action χ β)) : Option (Config σ φ) :=
  runGuarded M.step G.allows c schedule

/-- A run under a guard is one under a weaker guard. -/
theorem reaches_mono {G H : Guard σ φ χ β} {c₀ c : Config σ φ}
    (hExec : ∀ s fs f x, G.exec s fs f x = true → H.exec s fs f x = true)
    (hSpawn : ∀ s fs b, G.spawn s fs b = true → H.spawn s fs b = true)
    (hReach : M.Reaches G c₀ c) : M.Reaches H c₀ c := by
  refine hReach.mono fun c a hOk => ?_
  cases a with
  | run i x =>
      simp only [Guard.allows] at hOk ⊢
      cases hThread : c.threads[i]? with
      | none => simp [hThread] at hOk
      | some stack =>
          rw [hThread] at hOk
          cases stack with
          | nil => exact absurd hOk Bool.false_ne_true
          | cons f below => exact hExec _ _ _ _ hOk
  | spawn b => exact hSpawn _ _ _ hOk

theorem reaches_all {G : Guard σ φ χ β} {c₀ c : Config σ φ} (hReach : M.Reaches G c₀ c) :
    M.Reaches Guard.all c₀ c :=
  M.reaches_mono (fun _ _ _ _ _ => rfl) (fun _ _ _ _ => rfl) hReach

theorem reaches_of_and {G H : Guard σ φ χ β} {c₀ c : Config σ φ}
    (hReach : M.Reaches (G.and H) c₀ c) : M.Reaches G c₀ c ∧ M.Reaches H c₀ c := by
  constructor
  · exact M.reaches_mono (fun _ _ _ _ hBoth => (Bool.and_eq_true_iff.mp hBoth).1)
      (fun _ _ _ hBoth => (Bool.and_eq_true_iff.mp hBoth).1) hReach
  · exact M.reaches_mono (fun _ _ _ _ hBoth => (Bool.and_eq_true_iff.mp hBoth).2)
      (fun _ _ _ hBoth => (Bool.and_eq_true_iff.mp hBoth).2) hReach

theorem reaches_of_runSchedule {G : Guard σ φ χ β} {c c' : Config σ φ}
    {schedule : List (Action χ β)}
    (hRun : M.runSchedule G c schedule = some c') : M.Reaches G c c' :=
  reach_of_runGuarded hRun

/-- A schedule cut at one action. -/
theorem exists_reaches_through (G : Guard σ φ χ β) (c : Config σ φ)
    (before : List (Action χ β)) (a : Action χ β) (after : List (Action χ β))
    (P : Config σ φ → Bool) (Q : Config σ φ → Config σ φ → Bool)
    (hRun : ((M.runSchedule G c before).any fun c₁ => P c₁ &&
      (M.step c₁ a).any fun c₂ => (M.runSchedule G c₂ after).any (Q c₁)) = true) :
    ∃ c₁ c₂ c₃, M.Reaches G c c₁ ∧ P c₁ = true ∧ M.step c₁ a = some c₂ ∧
      M.Reaches G c₂ c₃ ∧ Q c₁ c₃ = true := by
  obtain ⟨c₁, hFirst, hTest⟩ := (Option.any_eq_true _ _).mp hRun
  simp only [Bool.and_eq_true] at hTest
  obtain ⟨c₂, hStep, hRest⟩ := (Option.any_eq_true _ _).mp hTest.2
  obtain ⟨c₃, hLast, hQ⟩ := (Option.any_eq_true _ _).mp hRest
  exact ⟨c₁, c₂, c₃, reaches_of_runSchedule M hFirst, hTest.1, hStep,
    reaches_of_runSchedule M hLast, hQ⟩

/-- A schedule whose result passes a test reaches a configuration that does. -/
theorem exists_reaches (G : Guard σ φ χ β) (c : Config σ φ)
    (schedule : List (Action χ β)) (P : Config σ φ → Bool)
    (hRun : (M.runSchedule G c schedule).any P = true) :
    ∃ c', M.Reaches G c c' ∧ P c' = true := by
  obtain ⟨c', hSome, hTest⟩ := (Option.any_eq_true _ _).mp hRun
  exact ⟨c', reaches_of_runSchedule M hSome, hTest⟩

end Machine

/-- A frame after a step is one the step left or one of the others. -/
theorem mem_new_or_others {A B fs : List φ} {f' : φ} (hMem : f' ∈ A ++ (fs ++ B)) :
    f' ∈ fs ∨ f' ∈ A ++ B := by
  rw [List.mem_append, List.mem_append] at hMem
  rcases hMem with hA | hNew | hB
  · exact Or.inr (List.mem_append_left _ hA)
  · exact Or.inl hNew
  · exact Or.inr (List.mem_append_right _ hB)

/-- The others were there before. -/
theorem mem_of_others {A B : List φ} {f f' : φ} (hMem : f' ∈ A ++ B) : f' ∈ A ++ f :: B := by
  rcases List.mem_append.mp hMem with hA | hB
  · exact List.mem_append_left _ hA
  · exact List.mem_append_right _ (List.mem_cons_of_mem f hB)

/-- A frame after a step is one the step left or was there before. -/
theorem mem_after {A B fs : List φ} {f f' : φ} (hMem : f' ∈ A ++ (fs ++ B)) :
    f' ∈ fs ∨ f' ∈ A ++ f :: B :=
  (mem_new_or_others hMem).imp id mem_of_others

/-- A frame other than the one that is run is still there after the step. -/
theorem mem_of_before {A B : List φ} {f f' : φ} (fs : List φ) (hMem : f' ∈ A ++ f :: B)
    (hOther : f' ≠ f) : f' ∈ A ++ (fs ++ B) := by
  rw [List.mem_append, List.mem_cons] at hMem
  rcases hMem with hA | hEq | hB
  · exact List.mem_append_left _ hA
  · exact absurd hEq hOther
  · exact List.mem_append_right _ (List.mem_append_right _ hB)

/-- The frame that is run is among the frames before the step. -/
theorem mem_running {A B : List φ} {f : φ} : f ∈ A ++ f :: B :=
  List.mem_append_right _ List.mem_cons_self

/-- Cutting the frames at the top of thread `i`; the other threads are around it. -/
theorem frames_cut {c : Config σ φ} {i : Nat} {f : φ} {below : List φ}
    (hThread : c.threads[i]? = some (f :: below)) :
    ∃ A B, c.frames = A ++ f :: (below ++ B) ∧ c.others i = A ++ (below ++ B) ∧
      (∀ fs, (c.threads.set i (fs ++ below)).flatten = A ++ (fs ++ (below ++ B))) ∧
      ∀ (j : Nat) (other : List φ), j ≠ i → c.threads[j]? = some other → other ⊆ A ++ B := by
  obtain ⟨hLt, hGet⟩ := List.getElem?_eq_some_iff.mp hThread
  refine ⟨(c.threads.take i).flatten, (c.threads.drop (i + 1)).flatten,
    ?_, ?_, ?_, ?_⟩
  · have hSplit : c.threads =
        c.threads.take i ++ (f :: below) :: c.threads.drop (i + 1) := by
      rw [← hGet, List.getElem_cons_drop, List.take_append_drop]
    calc c.frames
        = (c.threads.take i ++ (f :: below) :: c.threads.drop (i + 1)).flatten := by
          rw [← hSplit]; rfl
      _ = _ := by simp
  · simp [Config.others, hThread]
  · intro fs
    rw [List.set_eq_take_append_cons_drop, if_pos hLt]
    simp
  · intro j other hNe hOther h hMem
    rcases Nat.lt_or_gt_of_ne hNe with hBefore | hAfter
    · have hTake : (c.threads.take i)[j]? = some other := by
        rw [List.getElem?_take_of_lt hBefore, hOther]
      exact List.mem_append_left _ (List.mem_flatten_of_mem (List.mem_of_getElem? hTake) hMem)
    · have hDrop : (c.threads.drop (i + 1))[j - (i + 1)]? = some other := by
        rw [List.getElem?_drop, ← hOther]
        congr 1
        omega
      exact List.mem_append_right _ (List.mem_flatten_of_mem (List.mem_of_getElem? hDrop) hMem)

namespace Machine

variable {M : Machine σ φ χ β} {G : Guard σ φ χ β}

/-- **What a guarded step does to the frames.**  Either the top frame of one
stack is replaced in place by the frames its step leaves, or a new thread's
frames are added at the end. -/
theorem step_cases {c c' : Config σ φ} {a : Action χ β}
    (hOk : G.allows c a = true) (hStep : M.step c a = some c') :
    (∃ A f below B x fs, f :: below ∈ c.threads ∧
        c.frames = A ++ f :: (below ++ B) ∧
        G.exec c.shared (A ++ (below ++ B)) f x = true ∧
        M.exec c.shared f x = some (c'.shared, fs) ∧
        c'.frames = A ++ (fs ++ (below ++ B)) ∧
        ∀ stack ∈ c'.threads, stack ∈ c.threads ∨ stack = fs ++ below) ∨
      (∃ b fs, G.spawn c.shared c.frames b = true ∧
        M.spawn c.shared b = some (c'.shared, fs) ∧
        c'.frames = c.frames ++ fs ∧ c'.threads = c.threads ++ [fs]) := by
  cases a with
  | run i x =>
      left
      simp only [step] at hStep
      simp only [Guard.allows] at hOk
      split at hStep
      · rename_i f below hThread
        rw [hThread] at hOk
        obtain ⟨r, hExec, rfl⟩ := Option.map_eq_some_iff.mp hStep
        obtain ⟨A, B, hFrames, hOthers, hSet, -⟩ := frames_cut hThread
        exact ⟨A, f, below, B, x, r.2, List.mem_of_getElem? hThread, hFrames,
          hOthers ▸ hOk, hExec, hSet r.2, fun _ hMem => List.mem_or_eq_of_mem_set hMem⟩
      · exact absurd hStep (by simp)
  | spawn b =>
      right
      obtain ⟨r, hSpawn, rfl⟩ := Option.map_eq_some_iff.mp hStep
      exact ⟨b, r.2, hOk, hSpawn, by simp [Config.frames], rfl⟩

/-- The same for one frame and one choice. -/
theorem step_run {c c' : Config σ φ} {i : Nat} {x : χ} (hStep : M.step c (.run i x) = some c') :
    ∃ A f below B fs, c.frames = A ++ f :: (below ++ B) ∧
      M.exec c.shared f x = some (c'.shared, fs) ∧ c'.frames = A ++ (fs ++ (below ++ B)) := by
  simp only [step] at hStep
  split at hStep
  next f below hThread =>
    obtain ⟨r, hExec, rfl⟩ := Option.map_eq_some_iff.mp hStep
    obtain ⟨A, B, hFrames, -, hSet, -⟩ := frames_cut hThread
    exact ⟨A, f, below, B, r.2, hFrames, hExec, hSet r.2⟩
  next => simp at hStep

/-- **Invariant rule for stacks**: what holds of every new stack and survives a
step of its own top frame holds of every stack. -/
theorem stacks_invariant {T : List φ → Prop} {c₀ c : Config σ φ}
    (hInit : ∀ stack ∈ c₀.threads, T stack)
    (hExec : ∀ s f below x s' fs, T (f :: below) →
      M.exec s f x = some (s', fs) → T (fs ++ below))
    (hSpawn : ∀ s b s' fs, M.spawn s b = some (s', fs) → T fs)
    (hReach : M.Reaches G c₀ c) : ∀ stack ∈ c.threads, T stack := by
  refine Reach.invariant (I := fun c => ∀ stack ∈ c.threads, T stack) hInit ?_ hReach
  intro c a c' hStacks hOk hStep
  rcases step_cases hOk hStep with
    ⟨A, f, below, B, x, fs, hMem, -, -, hRun, -, hThreads⟩ |
    ⟨b, fs, -, hRun, -, hThreads⟩
  · intro stack hStack
    rcases hThreads stack hStack with hOld | rfl
    · exact hStacks stack hOld
    · exact hExec _ _ _ _ _ _ (hStacks _ hMem) hRun
  · intro stack hStack
    rw [hThreads, List.mem_append, List.mem_singleton] at hStack
    rcases hStack with hOld | rfl
    · exact hStacks stack hOld
    · exact hSpawn _ _ _ _ hRun

/-- **Invariant rule for shared state and frames.**  `J` is an invariant
established earlier that the step may use, and so is `T` for the stack the step
is taken on. -/
theorem invariant_stacked {J I : σ → List φ → Prop} {T : List φ → Prop}
    {c₀ c : Config σ φ}
    (hJ : ∀ c, M.Reaches G c₀ c → J c.shared c.frames ∧ ∀ stack ∈ c.threads, T stack)
    (hInit : I c₀.shared c₀.frames)
    (hExec : ∀ s A f below B x s' fs, J s (A ++ f :: (below ++ B)) → T (f :: below) →
      I s (A ++ f :: (below ++ B)) → G.exec s (A ++ (below ++ B)) f x = true →
      M.exec s f x = some (s', fs) → I s' (A ++ (fs ++ (below ++ B))))
    (hSpawn : ∀ s A b s' fs, J s A → I s A → G.spawn s A b = true →
      M.spawn s b = some (s', fs) → I s' (A ++ fs))
    (hReach : M.Reaches G c₀ c) : I c.shared c.frames := by
  refine Reach.invariant_with (I := fun c => I c.shared c.frames)
    (J := fun c => J c.shared c.frames ∧ ∀ stack ∈ c.threads, T stack)
    hJ hInit ?_ hReach
  intro c a c' hJc hIc hOk hStep
  rcases step_cases hOk hStep with
    ⟨A, f, below, B, x, fs, hMem, hFrames, hGuard, hRun, hFrames', -⟩ |
    ⟨b, fs, hGuard, hRun, hFrames', -⟩
  · obtain ⟨hJc, hStacks⟩ := hJc
    rw [hFrames] at hJc hIc
    rw [hFrames']
    exact hExec _ _ _ _ _ _ _ _ hJc (hStacks _ hMem) hIc hGuard hRun
  · rw [hFrames']
    exact hSpawn _ _ _ _ _ hJc.1 hIc hGuard hRun

/-- The invariant rule without stacks. -/
theorem invariant_with {J I : σ → List φ → Prop} {c₀ c : Config σ φ}
    (hJ : ∀ c, M.Reaches G c₀ c → J c.shared c.frames)
    (hInit : I c₀.shared c₀.frames)
    (hExec : ∀ s A f B x s' fs, J s (A ++ f :: B) → I s (A ++ f :: B) →
      G.exec s (A ++ B) f x = true → M.exec s f x = some (s', fs) →
      I s' (A ++ (fs ++ B)))
    (hSpawn : ∀ s A b s' fs, J s A → I s A → G.spawn s A b = true →
      M.spawn s b = some (s', fs) → I s' (A ++ fs))
    (hReach : M.Reaches G c₀ c) : I c.shared c.frames :=
  invariant_stacked (T := fun _ => True) (fun c h => ⟨hJ c h, fun _ _ => trivial⟩)
    hInit (fun s A f below B x s' fs hJs _ => hExec s A f (below ++ B) x s' fs hJs)
    hSpawn hReach

/-- The invariant rule on its own. -/
theorem invariant {I : σ → List φ → Prop} {c₀ c : Config σ φ}
    (hInit : I c₀.shared c₀.frames)
    (hExec : ∀ s A f B x s' fs, I s (A ++ f :: B) →
      G.exec s (A ++ B) f x = true → M.exec s f x = some (s', fs) →
      I s' (A ++ (fs ++ B)))
    (hSpawn : ∀ s A b s' fs, I s A → G.spawn s A b = true →
      M.spawn s b = some (s', fs) → I s' (A ++ fs))
    (hReach : M.Reaches G c₀ c) : I c.shared c.frames :=
  invariant_with (J := fun _ _ => True) (fun _ _ => trivial) hInit
    (fun s A f B x s' fs _ => hExec s A f B x s' fs)
    (fun s A b s' fs _ => hSpawn s A b s' fs) hReach

/-! ### A call runs to its end -/

/-- Some step leads from `s` to `s'`. -/
def Moves (M : Machine σ φ χ β) (s s' : σ) : Prop :=
  (∃ f x fs, M.exec s f x = some (s', fs)) ∨ ∃ b fs, M.spawn s b = some (s', fs)

/-- A thread on its way: the frames above `below` satisfy `K`. -/
def Pending (K : σ → List φ → Prop) (i : Nat) (below : List φ) (c : Config σ φ) :
    Prop :=
  ∃ above, above ≠ [] ∧ c.threads[i]? = some (above ++ below) ∧ K c.shared above

/-- Some step that the guard allows leads from `s` to `s'`. -/
def MovesUnder (M : Machine σ φ χ β) (G : Guard σ φ χ β) (s s' : σ) : Prop :=
  (∃ others f x fs, G.exec s others f x = true ∧ M.exec s f x = some (s', fs)) ∨
    ∃ others b fs, G.spawn s others b = true ∧ M.spawn s b = some (s', fs)

theorem MovesUnder.moves {s s' : σ} (hMoves : M.MovesUnder G s s') : M.Moves s s' := by
  rcases hMoves with ⟨_, f, x, fs, -, hExec⟩ | ⟨_, b, fs, -, hSpawn⟩
  · exact Or.inl ⟨f, x, fs, hExec⟩
  · exact Or.inr ⟨b, fs, hSpawn⟩

/-- **Call rule.**  As long as the frames of a call are on the stack of thread
`i` they satisfy `K`; when the last of them has gone, `D` holds and stays. -/
theorem call_returns_under {K : σ → List φ → Prop} {D : σ → Prop} {i : Nat}
    {below : List φ} {c₀ c : Config σ φ} (hStart : Pending K i below c₀)
    (hOwn : ∀ s others f above x s' fs, K s (f :: above) → G.exec s others f x = true →
      M.exec s f x = some (s', fs) → K s' (fs ++ above))
    (hOther : ∀ s above s', K s above → M.MovesUnder G s s' → K s' above)
    (hDone : ∀ s, K s [] → D s)
    (hKeep : ∀ s s', D s → M.MovesUnder G s s' → D s')
    (hReach : M.Reaches G c₀ c) : Pending K i below c ∨ D c.shared := by
  refine Reach.invariant (I := fun c => Pending K i below c ∨ D c.shared)
    (Or.inl hStart) ?_ hReach
  intro c a c' hHere hOk hStep
  cases a with
  | spawn b =>
      obtain ⟨r, hSpawn, rfl⟩ := Option.map_eq_some_iff.mp hStep
      have hMoves : M.MovesUnder G c.shared r.1 := Or.inr ⟨c.frames, b, r.2, hOk, hSpawn⟩
      rcases hHere with ⟨above, hSome, hThread, hK⟩ | hD
      · left
        obtain ⟨hLt, -⟩ := List.getElem?_eq_some_iff.mp hThread
        refine ⟨above, hSome, ?_, hOther _ _ _ hK hMoves⟩
        exact (List.getElem?_append_left hLt).trans hThread
      · exact Or.inr (hKeep _ _ hD hMoves)
  | run j x =>
      simp only [step] at hStep
      simp only [Guard.allows] at hOk
      split at hStep
      · rename_i f rest hTop
        rw [hTop] at hOk
        obtain ⟨r, hExec, rfl⟩ := Option.map_eq_some_iff.mp hStep
        have hMoves : M.MovesUnder G c.shared r.1 :=
          Or.inl ⟨c.others j, f, x, r.2, hOk, hExec⟩
        rcases hHere with ⟨above, hSome, hThread, hK⟩ | hD
        · by_cases hEq : j = i
          · subst hEq
            obtain ⟨f', above', rfl⟩ := List.exists_cons_of_ne_nil hSome
            have hStack : f :: rest = f' :: (above' ++ below) :=
              Option.some.inj (hTop.symm.trans hThread)
            obtain ⟨rfl, rfl⟩ := List.cons.inj hStack
            have hNext := hOwn _ _ _ _ _ _ _ hK hOk hExec
            obtain ⟨hLt, -⟩ := List.getElem?_eq_some_iff.mp hThread
            by_cases hGone : r.2 ++ above' = []
            · exact Or.inr (hDone _ (hGone ▸ hNext))
            · left
              refine ⟨r.2 ++ above', hGone, ?_, hNext⟩
              simp [hLt, List.append_assoc]
          · left
            refine ⟨above, hSome, ?_, hOther _ _ _ hK hMoves⟩
            rw [List.getElem?_set_ne hEq]
            exact hThread
        · exact Or.inr (hKeep _ _ hD hMoves)
      · exact absurd hStep (by simp)

/-- The call rule, for a `K` and a `D` that every step keeps. -/
theorem call_returns {K : σ → List φ → Prop} {D : σ → Prop} {i : Nat}
    {below : List φ} {c₀ c : Config σ φ} (hStart : Pending K i below c₀)
    (hOwn : ∀ s f above x s' fs, K s (f :: above) →
      M.exec s f x = some (s', fs) → K s' (fs ++ above))
    (hOther : ∀ s above s', K s above → M.Moves s s' → K s' above)
    (hDone : ∀ s, K s [] → D s)
    (hKeep : ∀ s s', D s → M.Moves s s' → D s')
    (hReach : M.Reaches G c₀ c) : Pending K i below c ∨ D c.shared :=
  call_returns_under hStart (fun s _ f above x s' fs hK _ => hOwn s f above x s' fs hK)
    (fun s above s' hK hMoves => hOther s above s' hK hMoves.moves) hDone
    (fun s s' hD hMoves => hKeep s s' hD hMoves.moves) hReach

/-! ### A call on its own -/

/-- A stack that runs to its end without interleaving, under one choice. -/
inductive Finishes (M : Machine σ φ χ β) (x : χ) : σ → List φ → σ → Prop
  | nil (s : σ) : Finishes M x s [] s
  | cons {s s' s'' : σ} {f : φ} {fs below : List φ}
      (hExec : M.exec s f x = some (s', fs))
      (hRest : Finishes M x s' (fs ++ below) s'') : Finishes M x s (f :: below) s''

/-- Execute at most `k` steps of a stack without interleaving. -/
def runAlone (M : Machine σ φ χ β) (x : χ) : Nat → σ → List φ → Option (σ × List φ)
  | 0, s, stack => some (s, stack)
  | _ + 1, s, [] => some (s, [])
  | k + 1, s, f :: below =>
      match M.exec s f x with
      | none => none
      | some r => runAlone M x k r.1 (r.2 ++ below)

/-- A call made by a new thread that runs to its end without interleaving. -/
def Alone (M : Machine σ φ χ β) (x : χ) (c : Config σ φ) (b : β)
    (c' : Config σ φ) : Prop :=
  ∃ s stack s', M.spawn c.shared b = some (s, stack) ∧ M.Finishes x s stack s' ∧
    c' = ⟨s', c.threads ++ [[]]⟩

variable {x : χ} {s s₁ s₂ : σ} {stack below : List φ}

theorem finishes_of_runAlone {k : Nat} (hRun : runAlone M x k s stack = some (s₁, [])) :
    M.Finishes x s stack s₁ := by
  induction k generalizing s stack with
  | zero =>
      cases hRun
      exact .nil s₁
  | succ k ih =>
      cases stack with
      | nil =>
          cases hRun
          exact .nil s₁
      | cons f below =>
          simp only [runAlone] at hRun
          split at hRun
          · exact absurd hRun (by simp)
          · rename_i r hExec
            exact .cons hExec (ih hRun)

/-- Running alone is deterministic. -/
theorem Finishes.unique (hFirst : M.Finishes x s stack s₁)
    (hSecond : M.Finishes x s stack s₂) : s₁ = s₂ := by
  induction hFirst with
  | nil s =>
      cases hSecond
      rfl
  | cons hExec _ ih =>
      cases hSecond with
      | cons hExec' hRest =>
          have hSame := Option.some.inj (hExec.symm.trans hExec')
          cases hSame
          exact ih hRest

/-- A call that finishes, and then the rest of its stack. -/
theorem Finishes.append (hTop : M.Finishes x s stack s₁)
    (hBelow : M.Finishes x s₁ below s₂) : M.Finishes x s (stack ++ below) s₂ := by
  induction hTop with
  | nil s => exact hBelow
  | cons hExec _ ih =>
      refine .cons hExec ?_
      have hRest := ih hBelow
      rwa [List.append_assoc] at hRest

theorem Alone.unique {c c₁ c₂ : Config σ φ} {b : β} (hFirst : M.Alone x c b c₁)
    (hSecond : M.Alone x c b c₂) : c₁ = c₂ := by
  obtain ⟨s, stack, s', hSpawn, hFinishes, rfl⟩ := hFirst
  obtain ⟨r, stack', r', hSpawn', hFinishes', rfl⟩ := hSecond
  have hSame := Option.some.inj (hSpawn.symm.trans hSpawn')
  cases hSame
  rw [hFinishes.unique hFinishes']

/-- The steps of the last thread, as steps of the system. -/
theorem Finishes.reaches {threads : List (List φ)} (hFinishes : M.Finishes x s stack s₁) :
    M.Reaches Guard.all ⟨s, threads ++ [stack]⟩ ⟨s₁, threads ++ [[]]⟩ := by
  induction hFinishes with
  | nil s => exact .refl
  | @cons s s' s'' f fs below hExec _ ih =>
      have hTop : (threads ++ [f :: below])[threads.length]? = some (f :: below) := by
        simp
      have hStep : M.step ⟨s, threads ++ [f :: below]⟩ (.run threads.length x) =
          some ⟨s', threads ++ [fs ++ below]⟩ := by
        simp only [step, hTop, hExec, Option.map_some]
        simp
      have hOk : (Guard.all : Guard σ φ χ β).allows ⟨s, threads ++ [f :: below]⟩
          (.run threads.length x) = true := by
        simp only [Guard.allows, hTop, Guard.all]
      exact Reach.trans (.tail .refl hOk hStep) ih

/-- A call on its own is a run. -/
theorem Alone.reaches {c c' : Config σ φ} {b : β} (hAlone : M.Alone x c b c') :
    M.Reaches Guard.all c c' := by
  obtain ⟨s, stack, s', hSpawn, hFinishes, rfl⟩ := hAlone
  have hStep : M.step c (.spawn b) = some ⟨s, c.threads ++ [stack]⟩ := by
    simp only [step, hSpawn, Option.map_some]
  exact Reach.trans (.tail .refl rfl hStep) hFinishes.reaches

end Machine

/-- Some frame satisfies `P`. -/
def Covered (P : φ → Prop) (fs : List φ) : Prop := ∃ f ∈ fs, P f

end Interleaving
