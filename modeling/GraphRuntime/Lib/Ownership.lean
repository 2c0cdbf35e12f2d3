import GraphRuntime.Lib.Interleaving

/-!
# One thread at a time

A part of the shared state can belong to one thread at a time without a lock around
it: a thread comes upon it, goes through the stages of its course with other calls on
top of its stack now and then, and leaves it again.  In the meantime the other threads
have no part in it.

`Owned` states this of a configuration, with three predicates: a frame that has no part
in the state is `Aside`, the state between two courses is at `Rest`, and `Course` says
how far the owner is, in terms of its whole stack.  `Ownership` lists what is to be
proved of single steps, and `Ownership.owned` is the rule for runs.
-/

namespace Interleaving

variable {σ φ χ β : Type}

/-- At most one thread has a part in the state, and it is in its course. -/
inductive Owned (Aside : φ → Prop) (Rest : σ → Prop) (Course : σ → List φ → Prop)
    (c : Config σ φ) : Prop
  | free (hRest : Rest c.shared) (hAside : ∀ f ∈ c.frames, Aside f)
  | owned (i : Nat) (stack : List φ) (hThread : c.threads[i]? = some stack)
      (hCourse : Course c.shared stack)
      (hAside : ∀ j other, j ≠ i → c.threads[j]? = some other → ∀ f ∈ other, Aside f)

/-- What single steps do, under a guard `G` and an invariant `J`: a thread may come upon
the state at rest, a thread beside the owner lets it be, the owner stays in its course or
leaves the state at rest, and new threads have no part in it. -/
structure Ownership (M : Machine σ φ χ β) (G : Guard σ φ χ β) (J : σ → List φ → Prop)
    (Aside : φ → Prop) (Rest : σ → Prop) (Course : σ → List φ → Prop) : Prop where
  enters : ∀ {s A f below B x s' fs}, J s (A ++ f :: (below ++ B)) → Rest s →
    (∀ h ∈ A ++ f :: (below ++ B), Aside h) → G.exec s (A ++ (below ++ B)) f x = true →
    M.exec s f x = some (s', fs) →
    (Rest s' ∧ ∀ h ∈ fs, Aside h) ∨ Course s' (fs ++ below)
  beside : ∀ {s A f below B x s' fs stack}, J s (A ++ f :: (below ++ B)) → Course s stack →
    stack ⊆ A ++ B → Aside f → G.exec s (A ++ (below ++ B)) f x = true →
    M.exec s f x = some (s', fs) → Course s' stack ∧ ∀ h ∈ fs, Aside h
  own : ∀ {s A f below B x s' fs}, J s (A ++ f :: (below ++ B)) → Course s (f :: below) →
    G.exec s (A ++ (below ++ B)) f x = true → M.exec s f x = some (s', fs) →
    (Rest s' ∧ ∀ h ∈ fs ++ below, Aside h) ∨ Course s' (fs ++ below)
  spawns : ∀ {s A b s' fs}, J s A → G.spawn s A b = true → M.spawn s b = some (s', fs) →
    (∀ h ∈ fs, Aside h) ∧ (Rest s → Rest s') ∧ ∀ stack, Course s stack → Course s' stack

variable {c : Config σ φ}

theorem mem_frames {h : φ} :
    h ∈ c.frames ↔ ∃ (i : Nat) (stack : List φ), c.threads[i]? = some stack ∧ h ∈ stack := by
  unfold Config.frames
  rw [List.mem_flatten]
  constructor
  · rintro ⟨stack, hIn, hMem⟩
    obtain ⟨i, hThread⟩ := List.mem_iff_getElem?.mp hIn
    exact ⟨i, stack, hThread, hMem⟩
  · rintro ⟨i, stack, hThread, hMem⟩
    exact ⟨stack, List.mem_of_getElem? hThread, hMem⟩

/-- The threads after a step of thread `i`. -/
theorem getElem?_set_of_ne {i j : Nat} {stack : List φ} (hNe : j ≠ i) :
    (c.threads.set i stack)[j]? = c.threads[j]? := List.getElem?_set_ne hNe.symm

/-- What holds of the new stack of thread `i` and of those of the others holds of all
frames. -/
theorem forall_frames_set {i : Nat} {s : σ} {stack : List φ} {P : φ → Prop}
    (hLt : i < c.threads.length) (hOwn : ∀ h ∈ stack, P h)
    (hOthers : ∀ j other, j ≠ i → c.threads[j]? = some other → ∀ h ∈ other, P h) :
    ∀ h ∈ (⟨s, c.threads.set i stack⟩ : Config σ φ).frames, P h := by
  intro h hMem
  obtain ⟨j, other, hStack, hIn⟩ := mem_frames.mp hMem
  have hThread : (c.threads.set i stack)[j]? = some other := hStack
  by_cases hEq : j = i
  · subst hEq
    rw [List.getElem?_set_self hLt] at hThread
    exact hOwn h (Option.some.inj hThread ▸ hIn)
  · rw [getElem?_set_of_ne hEq] at hThread
    exact hOthers j other hEq hThread h hIn

namespace Ownership

variable {M : Machine σ φ χ β} {G : Guard σ φ χ β} {J : σ → List φ → Prop} {Aside : φ → Prop}
  {Rest : σ → Prop} {Course : σ → List φ → Prop} {c₀ c' : Config σ φ}

/-- A new thread. -/
theorem step_spawn (hOwnership : Ownership M G J Aside Rest Course)
    (hJ : J c.shared c.frames) (hOwned : Owned Aside Rest Course c) {b : β} {r : σ × List φ}
    (hOk : G.spawn c.shared c.frames b = true) (hSpawn : M.spawn c.shared b = some r) :
    Owned Aside Rest Course ⟨r.1, c.threads ++ [r.2]⟩ := by
  obtain ⟨hNew, hRest, hCourse⟩ := hOwnership.spawns hJ hOk hSpawn
  cases hOwned with
  | free hAtRest hAside =>
      refine .free (hRest hAtRest) fun f hMem => ?_
      simp only [Config.frames, List.flatten_append, List.flatten_singleton,
        List.mem_append] at hMem
      exact hMem.elim (hAside f) (hNew f)
  | owned i stack hThread hStack hAside =>
      obtain ⟨hLt, -⟩ := List.getElem?_eq_some_iff.mp hThread
      refine .owned i stack ((List.getElem?_append_left hLt).trans hThread)
        (hCourse stack hStack) fun j other hNe hOther f hMem => ?_
      by_cases hIn : j < c.threads.length
      · exact hAside j other hNe ((List.getElem?_append_left hIn).symm.trans hOther) f hMem
      · have hLast : [r.2][j - c.threads.length]? = some other :=
          (List.getElem?_append_right (Nat.le_of_not_lt hIn)).symm.trans hOther
        exact hNew f (List.mem_singleton.mp (List.mem_of_getElem? hLast) ▸ hMem)

/-- A step of thread `i`. -/
theorem step_run (hOwnership : Ownership M G J Aside Rest Course)
    (hJ : J c.shared c.frames) (hOwned : Owned Aside Rest Course c) {i : Nat} {f : φ}
    {below : List φ} {x : χ} {r : σ × List φ} (hThread : c.threads[i]? = some (f :: below))
    (hOk : G.exec c.shared (c.others i) f x = true) (hExec : M.exec c.shared f x = some r) :
    Owned Aside Rest Course ⟨r.1, c.threads.set i (r.2 ++ below)⟩ := by
  obtain ⟨A, B, hFrames, hOthers, -, hAround⟩ := frames_cut hThread
  obtain ⟨hLt, -⟩ := List.getElem?_eq_some_iff.mp hThread
  have hSelf : (c.threads.set i (r.2 ++ below))[i]? = some (r.2 ++ below) :=
    List.getElem?_set_self hLt
  rw [hFrames] at hJ
  rw [hOthers] at hOk
  cases hOwned with
  | free hAtRest hAside =>
      have hBeside : ∀ j other, j ≠ i → c.threads[j]? = some other → ∀ h ∈ other, Aside h :=
        fun j other _ hStack h hMem => hAside h (mem_frames.mpr ⟨j, other, hStack, hMem⟩)
      have hBelow : ∀ h ∈ below, Aside h := fun h hMem =>
        hAside h (mem_frames.mpr ⟨i, _, hThread, List.mem_cons_of_mem f hMem⟩)
      rcases hOwnership.enters hJ hAtRest (hFrames ▸ hAside) hOk hExec with
        ⟨hAtRest', hNew⟩ | hCourse
      · refine .free hAtRest' (forall_frames_set hLt ?_ hBeside)
        exact fun h hMem => (List.mem_append.mp hMem).elim (hNew h) (hBelow h)
      · exact .owned i _ hSelf hCourse fun j other hNe hStack =>
          hBeside j other hNe ((getElem?_set_of_ne hNe).symm.trans hStack)
  | owned k stack hOwner hCourse hAside =>
      by_cases hEq : k = i
      · subst hEq
        obtain rfl := Option.some.inj (hOwner.symm.trans hThread)
        rcases hOwnership.own hJ hCourse hOk hExec with ⟨hAtRest, hNew⟩ | hNext
        · exact .free hAtRest (forall_frames_set hLt hNew hAside)
        · exact .owned k _ hSelf hNext fun j other hNe hStack =>
            hAside j other hNe ((getElem?_set_of_ne hNe).symm.trans hStack)
      · have hHere := hAside i _ (Ne.symm hEq) hThread
        obtain ⟨hNext, hNew⟩ := hOwnership.beside hJ hCourse (hAround k stack hEq hOwner)
          (hHere f List.mem_cons_self) hOk hExec
        refine .owned k stack ((getElem?_set_of_ne hEq).trans hOwner) hNext
          fun j other hNe hStack h hMem => ?_
        by_cases hOwn : j = i
        · subst hOwn
          obtain rfl := Option.some.inj (hSelf.symm.trans hStack)
          exact (List.mem_append.mp hMem).elim (hNew h)
            fun hIn => hHere h (List.mem_cons_of_mem f hIn)
        · exact hAside j other hNe ((getElem?_set_of_ne hOwn).symm.trans hStack) h hMem

/-- **Step rule.** -/
theorem step (hOwnership : Ownership M G J Aside Rest Course) (hJ : J c.shared c.frames)
    (hOwned : Owned Aside Rest Course c) {a : Action χ β} (hOk : G.allows c a = true)
    (hStep : M.step c a = some c') : Owned Aside Rest Course c' := by
  cases a with
  | spawn b =>
      obtain ⟨r, hSpawn, rfl⟩ := Option.map_eq_some_iff.mp hStep
      exact hOwnership.step_spawn hJ hOwned hOk hSpawn
  | run i x =>
      simp only [Machine.step] at hStep
      simp only [Guard.allows] at hOk
      split at hStep
      next f below hThread =>
        rw [hThread] at hOk
        obtain ⟨r, hExec, rfl⟩ := Option.map_eq_some_iff.mp hStep
        exact hOwnership.step_run hJ hOwned hThread hOk hExec
      next => simp at hStep

/-- **Run rule.** -/
theorem owned (hOwnership : Ownership M G J Aside Rest Course)
    (hJ : ∀ c, M.Reaches G c₀ c → J c.shared c.frames) (hInit : Owned Aside Rest Course c₀)
    (hReach : M.Reaches G c₀ c) : Owned Aside Rest Course c :=
  Transition.Reach.invariant_with hJ hInit
    (fun _ _ _ hHere hOwned hOk hStep => hOwnership.step hHere hOwned hOk hStep) hReach

end Ownership

end Interleaving
