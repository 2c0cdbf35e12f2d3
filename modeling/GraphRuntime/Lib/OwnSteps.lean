import Mathlib.Algebra.Order.Ring.Nat
import GraphRuntime.Lib.Interleaving

/-!
# How many steps a thread takes itself

A weight on frames that every step of a frame uses up bounds the steps a thread takes,
whatever the other threads do in between.  `own_steps_le` is the rule: `J` is what every
reachable state has, `P` singles out the frames the weight is about and is kept by their
steps.
-/

namespace Interleaving

variable {σ φ χ β : Type}

/-- The action is a step of thread `i`. -/
def Action.isStepOf (i : Nat) : Action χ β → Bool
  | .run j _ => decide (j = i)
  | .spawn _ => false

/-- The weight of a whole stack. -/
def stackWeight (w : φ → Nat) (stack : List φ) : Nat := (stack.map w).sum

@[simp] theorem stackWeight_nil (w : φ → Nat) : stackWeight w [] = 0 := rfl

@[simp] theorem stackWeight_cons (w : φ → Nat) (f : φ) (stack : List φ) :
    stackWeight w (f :: stack) = w f + stackWeight w stack := by
  simp [stackWeight]

@[simp] theorem stackWeight_append (w : φ → Nat) (stack below : List φ) :
    stackWeight w (stack ++ below) = stackWeight w stack + stackWeight w below := by
  simp [stackWeight]

namespace Machine

variable {M : Machine σ φ χ β} {G : Guard σ φ χ β} {w : φ → Nat} {P : φ → Prop} {i : Nat}
  {stack : List φ} {c c' : Config σ φ} {a : Action χ β}

/-- What a step of the system does to thread `i`: nothing, or a step of its own. -/
theorem step_thread (hThread : c.threads[i]? = some stack) (hStep : M.step c a = some c') :
    (a.isStepOf i = false ∧ c'.threads[i]? = some stack) ∨
      ∃ f below x fs, stack = f :: below ∧ a = .run i x ∧
        M.exec c.shared f x = some (c'.shared, fs) ∧ c'.threads[i]? = some (fs ++ below) := by
  obtain ⟨hLt, -⟩ := List.getElem?_eq_some_iff.mp hThread
  cases a with
  | spawn b =>
      left
      obtain ⟨r, -, rfl⟩ := Option.map_eq_some_iff.mp hStep
      exact ⟨rfl, (List.getElem?_append_left hLt).trans hThread⟩
  | run j x =>
      simp only [step] at hStep
      split at hStep
      · rename_i f below hTop
        obtain ⟨r, hExec, rfl⟩ := Option.map_eq_some_iff.mp hStep
        by_cases hEq : j = i
        · right
          subst hEq
          have hStack : f :: below = stack := Option.some.inj (hTop.symm.trans hThread)
          refine ⟨f, below, x, r.2, hStack.symm, rfl, hExec, ?_⟩
          simp [hLt]
        · left
          refine ⟨by simp [Action.isStepOf, hEq], ?_⟩
          rw [List.getElem?_set_ne hEq]
          exact hThread
      · exact absurd hStep (by simp)

/-- **Weight rule**: where every step of a frame leaves less weight than it found, a thread
takes no more steps than its stack weighs, in every schedule of all threads. -/
theorem own_steps_le {J : σ → Prop} {c₀ : Config σ φ} {schedule : List (Action χ β)}
    (hJ : ∀ c, M.Reaches G c₀ c → J c.shared)
    (hLess : ∀ s f x s' fs, J s → P f → M.exec s f x = some (s', fs) →
      (∀ f' ∈ fs, P f') ∧ stackWeight w fs < w f)
    (hReach : M.Reaches G c₀ c) (hThread : c.threads[i]? = some stack)
    (hStack : ∀ f ∈ stack, P f) (hRun : M.runSchedule G c schedule = some c') :
    ∃ stack', c'.threads[i]? = some stack' ∧ (∀ f ∈ stack', P f) ∧
      schedule.countP (Action.isStepOf i) + stackWeight w stack' ≤ stackWeight w stack := by
  induction schedule generalizing c stack with
  | nil =>
      have hSame : c = c' := Option.some.inj hRun
      subst hSame
      exact ⟨stack, hThread, hStack, by simp⟩
  | cons a rest ih =>
      unfold Machine.runSchedule Transition.runGuarded at hRun
      split at hRun
      next hOk =>
        split at hRun
        · simp at hRun
        next c₁ hStep =>
          have hReach₁ : M.Reaches G c₀ c₁ := .tail hReach hOk hStep
          rcases step_thread hThread hStep with
            ⟨hOther, hThread₁⟩ | ⟨f, below, x, fs, rfl, rfl, hExec, hThread₁⟩
          · obtain ⟨stack', hThread', hStack', hLe⟩ := ih hReach₁ hThread₁ hStack hRun
            refine ⟨stack', hThread', hStack', ?_⟩
            rw [List.countP_cons_of_neg (by simp [hOther])]
            exact hLe
          · have hTop : P f := hStack f List.mem_cons_self
            obtain ⟨hLeft, hDown⟩ := hLess _ _ _ _ _ (hJ c hReach) hTop hExec
            have hStack₁ : ∀ f' ∈ fs ++ below, P f' := by
              rw [List.forall_mem_append]
              exact ⟨hLeft, fun f' hMem => hStack f' (List.mem_cons_of_mem f hMem)⟩
            obtain ⟨stack', hThread', hStack', hLe⟩ := ih hReach₁ hThread₁ hStack₁ hRun
            refine ⟨stack', hThread', hStack', ?_⟩
            have hOwn : (Action.run i x : Action χ β).isStepOf i = true := by
              simp [Action.isStepOf]
            rw [stackWeight_append] at hLe
            rw [List.countP_cons_of_pos hOwn, stackWeight_cons]
            omega
      next => simp at hRun

end Machine

end Interleaving
