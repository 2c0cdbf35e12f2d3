import GraphRuntime.Lib.Interleaving

/-!
# All frames but one, and all frames below the top

Where one frame at a time may break a rule, `AllButOne` says so of a list of frames: a step of
a frame that keeps the rule leaves frames that do (`AllButOne.replace`), and the frame that
breaks it may hand this on to one frame it leaves (`AllButOne.succeed`).

A frame below another one waits for it.  What a step leaves under its first frame is all there
is to know of such frames (`Machine.forall_below`).
-/

namespace Interleaving

variable {σ φ χ β α : Type} {P : α → Prop} {a : α} {A B new l : List α}

/-- Of any two elements at different places one meets `P`. -/
def AllButOne (P : α → Prop) (l : List α) : Prop := l.Pairwise fun a b => P a ∨ P b

theorem allButOne_of_forall (hAll : ∀ a ∈ l, P a) : AllButOne P l :=
  List.pairwise_of_forall_mem_list fun a hMem _ _ => Or.inl (hAll a hMem)

/-- The others meet `P`. -/
theorem AllButOne.others (hOne : AllButOne P (A ++ a :: B)) (hNot : ¬ P a) :
    ∀ b ∈ A ++ B, P b := by
  obtain ⟨-, hTail, hAcross⟩ := List.pairwise_append.mp hOne
  intro b hMem
  rcases List.mem_append.mp hMem with hBefore | hAfter
  · exact (hAcross b hBefore a List.mem_cons_self).resolve_right hNot
  · exact ((List.pairwise_cons.mp hTail).1 b hAfter).resolve_left hNot

theorem allButOne_append (hOthers : ∀ b ∈ A ++ B, P b) (hNew : AllButOne P new) :
    AllButOne P (A ++ (new ++ B)) := by
  have hA : ∀ b ∈ A, P b := fun b hMem => hOthers b (List.mem_append_left B hMem)
  have hB : ∀ b ∈ B, P b := fun b hMem => hOthers b (List.mem_append_right A hMem)
  refine List.pairwise_append.mpr ⟨allButOne_of_forall hA, ?_, fun b hMem _ _ =>
    Or.inl (hA b hMem)⟩
  exact List.pairwise_append.mpr ⟨hNew, allButOne_of_forall hB, fun _ _ b hMem =>
    Or.inr (hB b hMem)⟩

/-- One element that meets `P` is replaced by others that do. -/
theorem AllButOne.replace (hOne : AllButOne P (A ++ a :: B)) (hNew : ∀ b ∈ new, P b) :
    AllButOne P (A ++ (new ++ B)) := by
  obtain ⟨hA, hTail, hAcross⟩ := List.pairwise_append.mp hOne
  obtain ⟨-, hB⟩ := List.pairwise_cons.mp hTail
  refine List.pairwise_append.mpr ⟨hA, ?_, fun b hBefore c hMem => ?_⟩
  · exact List.pairwise_append.mpr ⟨allButOne_of_forall hNew, hB, fun b hMem _ _ =>
      Or.inl (hNew b hMem)⟩
  · rcases List.mem_append.mp hMem with hHere | hAfter
    · exact Or.inr (hNew c hHere)
    · exact hAcross b hBefore c (List.mem_cons_of_mem a hAfter)

/-- One that does not is replaced by others, with at most one that does not. -/
theorem AllButOne.succeed (hOne : AllButOne P (A ++ a :: B)) (hNot : ¬ P a)
    (hNew : AllButOne P new) : AllButOne P (A ++ (new ++ B)) :=
  allButOne_append (hOne.others hNot) hNew

/-- **Below the top** of every stack there is only what a step or a spawn leaves below its
first frame. -/
theorem Machine.forall_below {M : Machine σ φ χ β} {G : Guard σ φ χ β} {Q : φ → Prop}
    {c₀ c : Config σ φ} (hInit : ∀ stack ∈ c₀.threads, ∀ h ∈ stack.tail, Q h)
    (hExec : ∀ {s f x s' fs}, M.exec s f x = some (s', fs) → ∀ h ∈ fs.tail, Q h)
    (hSpawn : ∀ {s b s' fs}, M.spawn s b = some (s', fs) → ∀ h ∈ fs.tail, Q h)
    (hReach : M.Reaches G c₀ c) : ∀ stack ∈ c.threads, ∀ h ∈ stack.tail, Q h := by
  refine Machine.stacks_invariant (T := fun stack => ∀ h ∈ stack.tail, Q h) hInit ?_
    (fun _ _ _ _ hNew => hSpawn hNew) hReach
  intro s f below x s' fs hBelow hStep h hMem
  cases fs with
  | nil => exact hBelow h (List.mem_of_mem_tail hMem)
  | cons f' rest =>
      rcases List.mem_append.mp hMem with hNew | hOld
      · exact hExec hStep h hNew
      · exact hBelow h hOld

/-- The frames around a stack are those of the other threads. -/
theorem frames_around {c : Config σ φ} {i : Nat} {stack : List φ}
    (hThread : c.threads[i]? = some stack) :
    ∃ A B, c.frames = A ++ (stack ++ B) ∧
      ∀ h ∈ A ++ B,
        ∃ (j : Nat) (other : List φ), j ≠ i ∧ c.threads[j]? = some other ∧ h ∈ other := by
  obtain ⟨hLt, hGet⟩ := List.getElem?_eq_some_iff.mp hThread
  refine ⟨(c.threads.take i).flatten, (c.threads.drop (i + 1)).flatten, ?_, fun h hMem => ?_⟩
  · have hSplit : c.threads = c.threads.take i ++ stack :: c.threads.drop (i + 1) := by
      rw [← hGet, List.getElem_cons_drop, List.take_append_drop]
    unfold Config.frames
    rw [← List.flatten_cons, ← List.flatten_append, ← hSplit]
  · rcases List.mem_append.mp hMem with hBefore | hAfter
    · obtain ⟨other, hIn, hHere⟩ := List.mem_flatten.mp hBefore
      obtain ⟨j, hJ, rfl⟩ := List.mem_take_iff_getElem.mp hIn
      refine ⟨j, _, by omega, List.getElem?_eq_getElem _, hHere⟩
    · obtain ⟨other, hIn, hHere⟩ := List.mem_flatten.mp hAfter
      obtain ⟨j, hJ⟩ := List.mem_iff_getElem?.mp hIn
      rw [List.getElem?_drop] at hJ
      exact ⟨i + 1 + j, other, by omega, hJ, hHere⟩

end Interleaving
