import Mathlib.Algebra.BigOperators.Group.List.Basic
import Mathlib.Algebra.BigOperators.Group.List.Lemmas
import Mathlib.Algebra.GroupWithZero.Nat

/-!
# Counting a list by classes

`sum_countP_range` adds up the sizes of the classes of a bounded classifier.
`imp_of_countP_le` turns a comparison of two counts back into one of the
elements: where one property implies the other and is counted as often, the
two are the same on the list.
-/

namespace Counting

variable {α : Type}

theorem sum_ite_range {i n : Nat} (hLt : i < n) :
    ((List.range n).map fun j => if i = j then 1 else 0).sum = 1 := by
  rw [List.sum_map_eq_nsmul_single i _ fun j hNe _ => if_neg (Ne.symm hNe),
    List.count_range, if_pos hLt]
  simp

theorem sum_countP_range {n : Nat} {c : α → Nat} {l : List α} (hLt : ∀ x ∈ l, c x < n) :
    ((List.range n).map fun i => l.countP fun x => decide (c x = i)).sum = l.length := by
  induction l with
  | nil => simp
  | cons x rest ih =>
      have hRest := ih fun y hMem => hLt y (List.mem_cons_of_mem _ hMem)
      have hHead := sum_ite_range (hLt x (by simp))
      simp only [List.countP_cons, decide_eq_true_eq, List.length_cons]
      rw [List.sum_map_add, hRest, hHead]

theorem imp_of_countP_le {p q : α → Bool} {l : List α} (hImp : ∀ x ∈ l, p x = true → q x = true)
    (hLe : l.countP q ≤ l.countP p) : ∀ x ∈ l, q x = true → p x = true := by
  induction l with
  | nil => simp
  | cons y rest ih =>
      have hRest := List.countP_mono_left fun x hMem => hImp x (List.mem_cons_of_mem y hMem)
      simp only [List.countP_cons] at hLe
      intro x hMem hQ
      by_cases hP : p y = true
      · have hQy := hImp y (by simp) hP
        rw [if_pos hP, if_pos hQy] at hLe
        rcases List.mem_cons.mp hMem with rfl | hIn
        · exact hP
        · exact ih (fun x h => hImp x (List.mem_cons_of_mem y h)) (by omega) x hIn hQ
      · -- the head may not be counted by `q` alone
        have hNot : ¬ q y = true := by
          intro hQy
          rw [if_neg hP, if_pos hQy] at hLe
          omega
        rw [if_neg hP, if_neg hNot] at hLe
        rcases List.mem_cons.mp hMem with rfl | hIn
        · exact absurd hQ hNot
        · exact ih (fun x h => hImp x (List.mem_cons_of_mem y h)) (by omega) x hIn hQ

end Counting
