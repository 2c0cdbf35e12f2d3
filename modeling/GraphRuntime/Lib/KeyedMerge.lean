import Mathlib.Algebra.Order.BigOperators.Group.List
import Mathlib.Algebra.Order.Ring.Nat
import Mathlib.Data.List.MinMax

/-!
# Merging increasing lists by key

Any number of lists, each with increasing keys, is consumed in rounds: a round is at
the least key in front of any list and takes that front from every list that has it.
The rounds visit the keys of all lists in increasing order, and what a round takes from
a list is the element of the *original* list at that key (`Rounds.taken_eq`), so the
elements taken from one list are that list (`Rounds.filterMap_find`).
-/

namespace Merge

variable {α κ : Type} [LinearOrder κ] {key : α → κ}

def Increasing (key : α → κ) (l : List α) : Prop := l.Pairwise (key · < key ·)

/-- The front of a list, if it is at `t`. -/
def front (key : α → κ) (t : κ) (l : List α) : Option α :=
  l.head?.filter (key · = t)

/-- The list without its front, if that is at `t`. -/
def advance (key : α → κ) (t : κ) : List α → List α
  | [] => []
  | a :: l => if key a = t then l else a :: l

/-- The element of a list at `t`. -/
def find (key : α → κ) (t : κ) (l : List α) : Option α := l.find? (key · = t)

/-- `t` is the least key in front of the lists. -/
structure Least (key : α → κ) (ls : List (List α)) (t : κ) : Prop where
  attained : ∃ l ∈ ls, ∃ a, l.head? = some a ∧ key a = t
  lower : ∀ l ∈ ls, ∀ a, l.head? = some a → t ≤ key a

/-- The rounds, each with its key and what it takes from each list. -/
inductive Rounds (key : α → κ) : List (List α) → List (κ × List (Option α)) → Prop
  | done (ls) : (∀ l ∈ ls, l = []) → Rounds key ls []
  | round (ls t rounds) : Least key ls t → Rounds key (ls.map (advance key t)) rounds →
      Rounds key ls ((t, ls.map (front key t)) :: rounds)

variable {t u : κ} {l : List α} {ls : List (List α)} {rounds : List (κ × List (Option α))}

/-! ## One list -/

theorem advance_of_eq {a : α} (hAt : key a = t) : advance key t (a :: l) = l :=
  if_pos hAt

theorem advance_of_ne {a : α} (hAt : key a ≠ t) : advance key t (a :: l) = a :: l :=
  if_neg hAt

/-- A round splits a list into what it takes and what is left. -/
theorem front_append_advance : (front key t l).toList ++ advance key t l = l := by
  cases l with
  | nil => rfl
  | cons a l =>
      rw [front, List.head?_cons, Option.filter_some]
      by_cases hAt : key a = t
      · simp [hAt, advance_of_eq hAt]
      · simp [hAt, advance_of_ne hAt]

theorem advance_suffix : advance key t l <:+ l :=
  ⟨(front key t l).toList, front_append_advance⟩

theorem Increasing.advance (hIncreasing : Increasing key l) :
    Increasing key (Merge.advance key t l) :=
  hIncreasing.sublist advance_suffix.sublist

theorem Increasing.lt_of_mem {a b : α} (hIncreasing : Increasing key (a :: l)) (hMem : b ∈ l) :
    key a < key b :=
  (List.pairwise_cons.mp hIncreasing).1 b hMem

theorem Increasing.head_le {a b : α} (hIncreasing : Increasing key l)
    (hHead : l.head? = some a) (hMem : b ∈ l) : key a ≤ key b := by
  obtain ⟨rest, rfl⟩ := List.head?_eq_some_iff.mp hHead
  rcases List.mem_cons.mp hMem with rfl | hRest
  · exact le_rfl
  · exact (hIncreasing.lt_of_mem hRest).le

/-- Whatever is in the list, its head comes first. -/
theorem Increasing.exists_head_le {b : α} (hIncreasing : Increasing key l) (hMem : b ∈ l) :
    ∃ a, l.head? = some a ∧ key a ≤ key b := by
  obtain ⟨a, rest, rfl⟩ := List.exists_cons_of_ne_nil (List.ne_nil_of_mem hMem)
  exact ⟨a, rfl, hIncreasing.head_le rfl hMem⟩

/-- What is left after the round at the least key is past it. -/
theorem Increasing.lt_advance {b : α} (hIncreasing : Increasing key l)
    (hLower : ∀ a, l.head? = some a → t ≤ key a) (hMem : b ∈ Merge.advance key t l) :
    t < key b := by
  cases l with
  | nil => exact absurd hMem List.not_mem_nil
  | cons a l =>
      have hFront : t ≤ key a := hLower a rfl
      by_cases hAt : key a = t
      · rw [advance_of_eq hAt] at hMem
        exact hAt ▸ hIncreasing.lt_of_mem hMem
      · rw [advance_of_ne hAt] at hMem
        have hPast : t < key a := lt_of_le_of_ne hFront (Ne.symm hAt)
        exact hPast.trans_le (hIncreasing.head_le rfl hMem)

/-- At the least key the front is all there is to find. -/
theorem Increasing.front_eq_find (hIncreasing : Increasing key l)
    (hLower : ∀ a, l.head? = some a → t ≤ key a) :
    front key t l = find key t l := by
  cases l with
  | nil => rfl
  | cons a l =>
      by_cases hAt : key a = t
      · simp [front, find, hAt]
      · have hPast : t < key a := lt_of_le_of_ne (hLower a rfl) (Ne.symm hAt)
        have hNone : List.find? (key · = t) l = none := by
          refine List.find?_eq_none.mpr ?_
          intro b hMem
          have hLater : t < key b := hPast.trans (hIncreasing.lt_of_mem hMem)
          simpa using hLater.ne'
        simp [front, find, hAt, hNone]

/-- A key is at most once in a list. -/
theorem Increasing.find_of_mem {a : α} (hIncreasing : Increasing key l) (hMem : a ∈ l) :
    find key (key a) l = some a := by
  induction l with
  | nil => exact absurd hMem List.not_mem_nil
  | cons b l ih =>
      rcases List.mem_cons.mp hMem with rfl | hRest
      · simp [find]
      · have hBefore : key b < key a := hIncreasing.lt_of_mem hRest
        rw [find, List.find?_cons_of_neg (by simpa using hBefore.ne)]
        exact ih (List.pairwise_cons.mp hIncreasing).2 hRest

theorem find_eq_none (hNone : ∀ a ∈ l, key a ≠ t) : find key t l = none := by
  refine List.find?_eq_none.mpr ?_
  intro a hMem
  simpa using hNone a hMem

/-- A round at another key takes nothing that is found at this one. -/
theorem find_advance (hNe : t ≠ u) : find key u (advance key t l) = find key u l := by
  cases l with
  | nil => rfl
  | cons a l =>
      by_cases hAt : key a = t
      · simp [find, advance_of_eq hAt, hAt, hNe]
      · rw [advance_of_ne hAt]

/-! ## All lists -/

theorem Least.unique (hLeast : Least key ls t) (hLeast' : Least key ls u) : t = u := by
  obtain ⟨⟨l, hList, a, hFront, hAt⟩, hLower⟩ := hLeast
  obtain ⟨⟨l', hList', a', hFront', hAt'⟩, hLower'⟩ := hLeast'
  exact le_antisymm (hAt' ▸ hLower l' hList' a' hFront') (hAt ▸ hLower' l hList a hFront)

/-- Some list has a front, so there is a least one. -/
theorem exists_least (hSome : ∃ l ∈ ls, l ≠ []) : ∃ t, Least key ls t := by
  have hFronts : ls.filterMap List.head? ≠ [] := by
    obtain ⟨l, hMem, hNe⟩ := hSome
    obtain ⟨a, rest, rfl⟩ := List.exists_cons_of_ne_nil hNe
    exact List.ne_nil_of_mem (List.mem_filterMap.mpr ⟨a :: rest, hMem, rfl⟩)
  cases hArg : (ls.filterMap List.head?).argmin key with
  | none => exact absurd (List.argmin_eq_none.mp hArg) hFronts
  | some a =>
      obtain ⟨l, hMem, hHead⟩ := List.mem_filterMap.mp (List.argmin_mem hArg)
      refine ⟨key a, ⟨l, hMem, a, hHead, rfl⟩, ?_⟩
      intro l' hMem' b hHead'
      exact List.le_of_mem_argmin (List.mem_filterMap.mpr ⟨l', hMem', hHead'⟩) hArg

/-- How many elements are left. -/
def remaining (ls : List (List α)) : Nat := (ls.map List.length).sum

/-- **Each round** takes at least one element. -/
theorem Least.remaining_advance (hLeast : Least key ls t) :
    remaining (ls.map (advance key t)) < remaining ls := by
  have hOne : ∀ l : List α, (advance key t l).length ≤ l.length :=
    fun l => advance_suffix.length_le
  obtain ⟨l, hMem, a, hHead, hAt⟩ := hLeast.attained
  obtain ⟨rest, rfl⟩ := List.head?_eq_some_iff.mp hHead
  have hTaken : (advance key t (a :: rest)).length < (a :: rest).length := by
    simp [advance, hAt]
  unfold remaining
  rw [List.map_map]
  exact List.sum_lt_sum _ _ (fun l _ => hOne l) ⟨a :: rest, hMem, hTaken⟩

/-- **The keys visited** are those of the lists. -/
theorem Rounds.mem_keys (hRounds : Rounds key ls rounds) :
    u ∈ rounds.map Prod.fst ↔ ∃ l ∈ ls, ∃ a ∈ l, key a = u := by
  induction hRounds with
  | done ls hEmpty =>
      constructor
      · intro hMem
        exact absurd hMem List.not_mem_nil
      · intro ⟨l, hList, a, hMem, _⟩
        exact absurd (hEmpty l hList ▸ hMem) List.not_mem_nil
  | round ls t rounds hLeast _ ih =>
      rw [List.map_cons, List.mem_cons, ih]
      constructor
      · rintro (rfl | ⟨l', hList, a, hMem, hKey⟩)
        · obtain ⟨l, hList, a, hHead, hKey⟩ := hLeast.attained
          exact ⟨l, hList, a, List.mem_of_mem_head? hHead, hKey⟩
        · obtain ⟨l, hIn, rfl⟩ := List.mem_map.mp hList
          exact ⟨l, hIn, a, advance_suffix.subset hMem, hKey⟩
      · intro ⟨l, hList, a, hMem, hKey⟩
        have hSplit : (front key t l).toList ++ advance key t l = l := front_append_advance
        rw [← hSplit, List.mem_append] at hMem
        rcases hMem with hTaken | hLeft
        · have hAt : key a = t := by
            simpa using (Option.filter_eq_some_iff.mp (Option.mem_toList.mp hTaken)).2
          exact Or.inl (hKey.symm.trans hAt)
        · exact Or.inr ⟨_, List.mem_map_of_mem hList, a, hLeft, hKey⟩

/-- They increase. -/
theorem Rounds.keys_increasing (hRounds : Rounds key ls rounds)
    (hIncreasing : ∀ l ∈ ls, Increasing key l) :
    (rounds.map Prod.fst).Pairwise (· < ·) := by
  induction hRounds with
  | done ls hEmpty => exact List.Pairwise.nil
  | round ls t rounds hLeast hRest ih =>
      have hNext : ∀ l ∈ ls.map (advance key t), Increasing key l := by
        intro l' hMem
        obtain ⟨l, hList, rfl⟩ := List.mem_map.mp hMem
        exact (hIncreasing l hList).advance
      refine List.pairwise_cons.mpr ⟨?_, ih hNext⟩
      intro u hMem
      obtain ⟨l', hList', a, hLeft, rfl⟩ := hRest.mem_keys.mp hMem
      obtain ⟨l, hList, rfl⟩ := List.mem_map.mp hList'
      exact (hIncreasing l hList).lt_advance (hLeast.lower l hList) hLeft

/-- The keys after the first round are past it. -/
theorem Rounds.lt_of_mem {out : List (Option α)}
    (hRounds : Rounds key ls ((t, out) :: rounds))
    (hIncreasing : ∀ l ∈ ls, Increasing key l) (hMem : u ∈ rounds.map Prod.fst) : t < u :=
  (List.pairwise_cons.mp (hRounds.keys_increasing hIncreasing)).1 u hMem

/-- **What a round takes** is what the lists held at its key from the start. -/
theorem Rounds.taken_eq (hRounds : Rounds key ls rounds)
    (hIncreasing : ∀ l ∈ ls, Increasing key l) :
    ∀ r ∈ rounds, r.2 = ls.map (find key r.1) := by
  induction hRounds with
  | done ls hEmpty => exact fun r hMem => absurd hMem List.not_mem_nil
  | round ls t rounds hLeast hRest ih =>
      have hNext : ∀ l ∈ ls.map (advance key t), Increasing key l := by
        intro l' hMem
        obtain ⟨l, hList, rfl⟩ := List.mem_map.mp hMem
        exact (hIncreasing l hList).advance
      have hPast : ∀ u ∈ rounds.map Prod.fst, t < u := fun u hMem =>
        (Rounds.round ls t rounds hLeast hRest).lt_of_mem hIncreasing hMem
      refine List.forall_mem_cons.mpr ⟨?_, ?_⟩
      · refine List.map_congr_left ?_
        intro l hList
        exact (hIncreasing l hList).front_eq_find (hLeast.lower l hList)
      · intro r hMem
        rw [ih hNext r hMem, List.map_map]
        refine List.map_congr_left ?_
        intro l _
        exact find_advance (hPast r.1 (List.mem_map_of_mem hMem)).ne

/-- **Nothing is lost**: what the rounds take from a list is the list. -/
theorem Rounds.filterMap_find (hRounds : Rounds key ls rounds)
    (hIncreasing : ∀ l ∈ ls, Increasing key l) :
    ∀ l ∈ ls, (rounds.map Prod.fst).filterMap (find key · l) = l := by
  induction hRounds with
  | done ls hEmpty =>
      intro l hList
      rw [hEmpty l hList]
      rfl
  | round ls t rounds hLeast hRest ih =>
      have hNext : ∀ l ∈ ls.map (advance key t), Increasing key l := by
        intro l' hMem
        obtain ⟨l, hList, rfl⟩ := List.mem_map.mp hMem
        exact (hIncreasing l hList).advance
      intro l hList
      have hFront := (hIncreasing l hList).front_eq_find (hLeast.lower l hList)
      have hLater : ∀ u ∈ rounds.map Prod.fst,
          find key u l = find key u (advance key t l) := by
        intro u hMem
        have hPast := (Rounds.round ls t rounds hLeast hRest).lt_of_mem hIncreasing hMem
        exact (find_advance hPast.ne).symm
      have hLeft := ih hNext _ (List.mem_map_of_mem hList)
      calc (t :: rounds.map Prod.fst).filterMap (find key · l)
          = (find key t l).toList ++ (rounds.map Prod.fst).filterMap (find key · l) := by
            rw [List.filterMap_cons]
            cases find key t l with
            | none => rfl
            | some a => rfl
        _ = (front key t l).toList ++ advance key t l := by
            rw [← hFront, List.filterMap_congr hLater, hLeft]
        _ = l := front_append_advance

end Merge
