import Mathlib.Algebra.BigOperators.Group.List.Basic
import Mathlib.Algebra.GroupWithZero.Nat
import Mathlib.Algebra.Ring.Int.Defs
import Mathlib.Data.List.Induction
import Mathlib.Data.List.Nodup

/-!
# Grouping by key, and groups laid out one after the other

`group l` collects the values of each key, the keys in the order of their first
appearance and the values of a key in the order of the list (`mem_group`).

Laid out one after the other, the groups fill the numbers below their total length: the
place of the `i`-th value of a group is its number of predecessors in the groups before
(`start`) plus `i`, and every number below the total is such a place once
(`exists_place`, `place_unique`).
-/

namespace Grouping

variable {κ β : Type} [DecidableEq κ]

/-- One more value of a key, in its group or in a new one at the end. -/
def add (k : κ) (b : β) : List (κ × List β) → List (κ × List β)
  | [] => [(k, [b])]
  | g :: gs => if g.1 = k then (g.1, g.2 ++ [b]) :: gs else g :: add k b gs

def group (l : List (κ × β)) : List (κ × List β) :=
  l.foldl (fun gs p => add p.1 p.2 gs) []

/-- The values of a key. -/
def values (k : κ) (l : List (κ × β)) : List β :=
  (l.filter fun p => decide (p.1 = k)).map Prod.snd

/-- The length of the groups in front. -/
def total (gs : List (κ × List β)) : Nat := (gs.map fun g => g.2.length).sum

variable {k : κ} {b : β} {bs : List β} {gs before after : List (κ × List β)} {l : List (κ × β)}

/-! ## Grouping -/

theorem keys_add (k : κ) (b : β) (gs : List (κ × List β)) :
    (add k b gs).map Prod.fst =
      if k ∈ gs.map Prod.fst then gs.map Prod.fst else gs.map Prod.fst ++ [k] := by
  induction gs with
  | nil => simp [add]
  | cons g gs ih =>
      rw [add]
      by_cases hKey : g.1 = k
      · simp [hKey]
      · have hOther : k ≠ g.1 := Ne.symm hKey
        rw [if_neg hKey, List.map_cons, ih, List.map_cons]
        by_cases hMem : k ∈ gs.map Prod.fst
        · simp only [List.mem_cons, hMem, or_true, if_true]
        · simp only [List.mem_cons, hMem, hOther, or_false, if_false, List.cons_append]

theorem nodup_keys_add (hNodup : (gs.map Prod.fst).Nodup) :
    ((add k b gs).map Prod.fst).Nodup := by
  rw [keys_add]
  split
  · exact hNodup
  next hNew =>
    refine List.nodup_append.mpr ⟨hNodup, List.nodup_singleton k, ?_⟩
    intro x hMem y hLast
    rw [List.mem_singleton.mp hLast]
    exact fun hEq => hNew (hEq ▸ hMem)

theorem total_add : total (add k b gs) = total gs + 1 := by
  induction gs with
  | nil => rfl
  | cons g gs ih =>
      rw [add]
      unfold total at *
      split
      · simp only [List.map_cons, List.length_append, List.length_singleton, List.sum_cons]
        omega
      · simp only [List.map_cons, List.sum_cons, ih]
        omega

/-- The groups of a list without the key keep what they hold. -/
theorem mem_add_of_ne {k' : κ} (hNe : k' ≠ k) : (k', bs) ∈ add k b gs ↔ (k', bs) ∈ gs := by
  induction gs with
  | nil => simp [add, hNe]
  | cons g gs ih =>
      rw [add]
      split
      next hKey =>
        subst hKey
        have hHead : (k', bs) ≠ (g.1, g.2 ++ [b]) := fun hEq => hNe (congrArg Prod.fst hEq)
        have hHead' : (k', bs) ≠ g := fun hEq => hNe (congrArg Prod.fst hEq)
        simp only [List.mem_cons, hHead, hHead', false_or]
      next hKey => simp only [List.mem_cons, ih]

/-- The group of the key has one more value. -/
theorem mem_add_self (hNodup : (gs.map Prod.fst).Nodup) :
    (k, bs) ∈ add k b gs ↔
      (∃ old, (k, old) ∈ gs ∧ bs = old ++ [b]) ∨ (k ∉ gs.map Prod.fst ∧ bs = [b]) := by
  induction gs with
  | nil => simp [add]
  | cons g gs ih =>
      obtain ⟨k', old⟩ := g
      rw [List.map_cons, List.nodup_cons] at hNodup
      rw [add]
      by_cases hKey : k' = k
      · subst hKey
        have hFresh : ∀ bs, (k', bs) ∉ gs :=
          fun bs hMem => hNodup.1 (List.mem_map.mpr ⟨_, hMem, rfl⟩)
        simp only [if_true, List.mem_cons, Prod.mk.injEq, true_and, hFresh, or_false,
          exists_eq_left, List.map_cons, true_or, not_true_eq_false, false_and]
      · have hKey' : k ≠ k' := Ne.symm hKey
        simp only [hKey, if_false, List.mem_cons, Prod.mk.injEq, hKey', false_and, false_or,
          List.map_cons]
        exact ih hNodup.2

theorem group_append_singleton (p : κ × β) : group (l ++ [p]) = add p.1 p.2 (group l) := by
  rw [group, List.foldl_append]
  rfl

theorem values_append_singleton (p : κ × β) :
    values k (l ++ [p]) = if p.1 = k then values k l ++ [p.2] else values k l := by
  unfold values
  split <;> simp_all

theorem nodup_keys_group (l : List (κ × β)) : ((group l).map Prod.fst).Nodup := by
  induction l using List.reverseRecOn with
  | nil => exact List.nodup_nil
  | append_singleton l p ih =>
      rw [group_append_singleton]
      exact nodup_keys_add ih

theorem total_group (l : List (κ × β)) : total (group l) = l.length := by
  induction l using List.reverseRecOn with
  | nil => rfl
  | append_singleton l p ih =>
      rw [group_append_singleton, total_add, ih, List.length_append, List.length_singleton]

/-- **The groups** are the keys of the list with their values. -/
theorem mem_group : (k, bs) ∈ group l ↔ bs = values k l ∧ bs ≠ [] := by
  induction l using List.reverseRecOn generalizing bs with
  | nil => simp [group, values]
  | append_singleton l p ih =>
      rw [group_append_singleton, values_append_singleton]
      by_cases hKey : p.1 = k
      · subst hKey
        have hAbsent : p.1 ∉ (group l).map Prod.fst ↔ values p.1 l = [] := by
          constructor
          · intro hNew
            by_contra hNe
            exact hNew (List.mem_map.mpr ⟨_, ih.mpr ⟨rfl, hNe⟩, rfl⟩)
          · intro hNone hMem
            obtain ⟨⟨k', old⟩, hIn, rfl⟩ := List.mem_map.mp hMem
            obtain ⟨hOld, hSome⟩ := ih.mp hIn
            exact hSome (hOld.trans hNone)
        rw [mem_add_self (nodup_keys_group l), if_pos rfl, hAbsent]
        simp only [ih]
        constructor
        · rintro (⟨old, ⟨rfl, _⟩, rfl⟩ | ⟨hNone, rfl⟩)
          · exact ⟨rfl, by simp⟩
          · rw [hNone]
            exact ⟨rfl, by simp⟩
        · rintro ⟨rfl, _⟩
          by_cases hNone : values p.1 l = []
          · exact Or.inr ⟨hNone, by rw [hNone]; rfl⟩
          · exact Or.inl ⟨_, ⟨rfl, hNone⟩, rfl⟩
      · rw [mem_add_of_ne (Ne.symm hKey), if_neg hKey]
        exact ih

/-- Looking a key up finds its values. -/
theorem find_group (k : κ) (l : List (κ × β)) :
    (group l).find? (fun g => decide (g.1 = k)) =
      if values k l = [] then none else some (k, values k l) := by
  cases hFind : (group l).find? fun g => decide (g.1 = k) with
  | none =>
      have hNone : values k l = [] := by
        by_contra hNe
        have hMiss := List.find?_eq_none.mp hFind _ (mem_group.mpr ⟨rfl, hNe⟩)
        simp at hMiss
      rw [if_pos hNone]
  | some g =>
      have hKey : g.1 = k := by simpa using List.find?_some hFind
      subst hKey
      obtain ⟨hValues, hNe⟩ := mem_group.mp (List.mem_of_find?_eq_some hFind)
      rw [if_neg (hValues ▸ hNe), ← hValues]

theorem values_perm {l' : List (κ × β)} (hPerm : l.Perm l') :
    (values k l).Perm (values k l') :=
  (hPerm.filter _).map _

/-- **Sums** over the groups are sums over the list. -/
theorem sum_group (w : β → Int) (l : List (κ × β)) :
    ((group l).map fun g => (g.2.map w).sum).sum = (l.map fun p => w p.2).sum := by
  have hAdd : ∀ (k : κ) (b : β) (gs : List (κ × List β)),
      ((add k b gs).map fun g => (g.2.map w).sum).sum =
        (gs.map fun g => (g.2.map w).sum).sum + w b := by
    intro k b gs
    induction gs with
    | nil => simp [add]
    | cons g gs ih =>
        rw [add]
        split
        · simp only [List.map_cons, List.map_append, List.sum_cons, List.sum_append,
            List.map_nil, List.sum_nil]
          omega
        · simp only [List.map_cons, List.sum_cons, ih]
          omega
  induction l using List.reverseRecOn with
  | nil => rfl
  | append_singleton l p ih =>
      rw [group_append_singleton, hAdd, ih, List.map_append, List.sum_append]
      simp

/-! ## The layout -/

omit [DecidableEq κ] in
theorem total_append : total (before ++ after) = total before + total after := by
  simp [total]

omit [DecidableEq κ] in
theorem total_cons {g : κ × List β} : total (g :: gs) = g.2.length + total gs := by
  simp [total]

omit [DecidableEq κ] in
theorem total_eq_length : total gs = (gs.flatMap Prod.snd).length := by
  simp [total, List.length_flatMap]

omit [DecidableEq κ] in
/-- The value at a place. -/
theorem getElem?_place {i : Nat} (hIndex : i < bs.length) :
    ((before ++ (k, bs) :: after).flatMap Prod.snd)[total before + i]? = bs[i]? := by
  rw [List.flatMap_append, List.flatMap_cons, total_eq_length,
    List.getElem?_append_right (Nat.le_add_right _ _), Nat.add_sub_cancel_left,
    List.getElem?_append_left hIndex]

omit [DecidableEq κ] in
/-- Every number below the total is a place. -/
theorem exists_place {n : Nat} (hLt : n < total gs) :
    ∃ before k bs after i, gs = before ++ (k, bs) :: after ∧ i < bs.length ∧
      n = total before + i := by
  induction gs generalizing n with
  | nil => exact absurd hLt (Nat.not_lt_zero _)
  | cons g gs ih =>
      rw [total_cons] at hLt
      by_cases hHead : n < g.2.length
      · exact ⟨[], g.1, g.2, gs, n, rfl, hHead, by simp [total]⟩
      · obtain ⟨before, k, bs, after, i, rfl, hIndex, hPlace⟩ :=
          ih (n := n - g.2.length) (by omega)
        refine ⟨g :: before, k, bs, after, i, rfl, hIndex, ?_⟩
        rw [total_cons]
        omega

omit [DecidableEq κ] in
/-- It is one only once. -/
theorem place_unique {before' after' : List (κ × List β)} {k' : κ} {bs' : List β} {i i' : Nat}
    (hSame : before ++ (k, bs) :: after = before' ++ (k', bs') :: after')
    (hIndex : i < bs.length) (hIndex' : i' < bs'.length)
    (hPlace : total before + i = total before' + i') :
    before = before' ∧ k = k' ∧ i = i' := by
  induction before generalizing before' with
  | nil =>
      cases before' with
      | nil =>
          simp only [List.nil_append, List.cons.injEq, Prod.mk.injEq] at hSame
          exact ⟨rfl, hSame.1.1, Nat.add_left_cancel hPlace⟩
      | cons g before' =>
          simp only [List.nil_append, List.cons_append, List.cons.injEq] at hSame
          obtain ⟨rfl, _⟩ := hSame
          rw [total_cons] at hPlace
          simp only [total, List.map_nil, List.sum_nil] at hPlace
          omega
  | cons g before ih =>
      cases before' with
      | nil =>
          simp only [List.nil_append, List.cons_append, List.cons.injEq] at hSame
          obtain ⟨rfl, _⟩ := hSame
          rw [total_cons] at hPlace
          simp only [total, List.map_nil, List.sum_nil] at hPlace
          omega
      | cons g' before' =>
          simp only [List.cons_append, List.cons.injEq] at hSame
          obtain ⟨rfl, hRest⟩ := hSame
          rw [total_cons, total_cons] at hPlace
          obtain ⟨rfl, hKey, hIndex⟩ := ih hRest (by omega)
          exact ⟨rfl, hKey, hIndex⟩

end Grouping
