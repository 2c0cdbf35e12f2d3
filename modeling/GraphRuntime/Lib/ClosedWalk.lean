import Mathlib.Data.List.Chain
import Mathlib.Logic.Relation

/-!
# Closed walks

A walk along a relation that comes back to where it began, its points, and the two
facts a search for one rests on: a walk that meets itself can be cut to a closed one,
and a point whose successors all lie in a set that no step leaves, and that the point
is not in, is on no cycle.
-/

namespace Walk

open Relation

variable {α : Type} {r : α → α → Prop} {S : α → Prop} {l : List α} {a b : α}

/-- A walk of at least one step whose ends are the same. -/
structure Closed (r : α → α → Prop) (l : List α) : Prop where
  chain : l.IsChain r
  length : 2 ≤ l.length
  ends : l.head? = l.getLast?

/-- A closed walk is a cycle of the relation. -/
theorem Closed.transGen (hClosed : Closed r l) : ∃ a, a ∈ l ∧ TransGen r a a := by
  obtain ⟨hChain, hLength, hEnds⟩ := hClosed
  match l, hLength with
  | a :: b :: rest, _ =>
      have hStep : r a b := (List.isChain_cons_cons.mp hChain).1
      have hRest : (b :: rest).IsChain r := (List.isChain_cons_cons.mp hChain).2
      have hLast : (b :: rest).getLast (List.cons_ne_nil b rest) = a := by
        have hSome : (a :: b :: rest).getLast? = some a := hEnds.symm
        rw [List.getLast?_cons_cons, List.getLast?_eq_some_getLast (List.cons_ne_nil b rest)]
          at hSome
        exact Option.some.inj hSome
      have hBack : ReflTransGen r b a :=
        List.relationReflTransGen_of_exists_isChain_cons rest hRest hLast
      exact ⟨a, List.mem_cons_self, TransGen.head' hStep hBack⟩

/-- Each point of a closed walk is an end of one of its steps. -/
theorem Closed.forall_mem (hClosed : Closed r l) (hEnds : ∀ a b, r a b → S a ∧ S b) :
    ∀ a ∈ l, S a := by
  obtain ⟨hChain, hLength, -⟩ := hClosed
  match l, hLength with
  | a :: b :: rest, _ =>
      have hStep : r a b := (List.isChain_cons_cons.mp hChain).1
      have hCarry : ∀ ⦃x y : α⦄, r x y → S x → S y := fun x y hNext _ => (hEnds x y hNext).2
      have hHead : S a := (hEnds a b hStep).1
      exact hChain.induction S _ hCarry fun _ => hHead

/-- A list cut at one of its members. -/
theorem dropWhile_of_mem [DecidableEq α] (hMem : a ∈ l) :
    ∃ rest, l.dropWhile (· ≠ a) = a :: rest := by
  induction l with
  | nil => exact absurd hMem List.not_mem_nil
  | cons b l ih =>
      by_cases hEq : b = a
      · exact ⟨l, by simp [hEq]⟩
      · have hRest : a ∈ l := (List.mem_cons.mp hMem).resolve_left (Ne.symm hEq)
        obtain ⟨rest, hDrop⟩ := ih hRest
        exact ⟨rest, by rw [List.dropWhile_cons_of_pos (by simpa using hEq), hDrop]⟩

/-- A walk whose end has a step back to one of its points. -/
theorem closed_of_back [DecidableEq α] (hChain : l.IsChain r) (hMem : a ∈ l)
    (hBack : ∀ b ∈ l.getLast?, r b a) : Closed r (l.dropWhile (· ≠ a) ++ [a]) := by
  obtain ⟨rest, hDrop⟩ := dropWhile_of_mem hMem
  have hSuffix : a :: rest <:+ l := hDrop ▸ List.dropWhile_suffix _
  have hLast : (a :: rest).getLast? = l.getLast? := by
    obtain ⟨front, rfl⟩ := hSuffix
    rw [List.getLast?_append_of_ne_nil _ (List.cons_ne_nil a rest)]
  have hCut : (a :: rest).IsChain r := hChain.suffix hSuffix
  rw [hDrop]
  refine ⟨?_, by simp, ?_⟩
  · refine List.isChain_append.mpr ⟨hCut, List.isChain_singleton a, ?_⟩
    intro b hb c hc
    obtain rfl : a = c := by simpa using hc
    exact hBack b (hLast ▸ hb)
  · show some a = (a :: rest ++ [a]).getLast?
    rw [List.getLast?_concat]

/-- What is reached from a set that no step leaves is in it. -/
theorem mem_of_transGen (hStays : ∀ u, S u → ∀ w, r u w → S w) (hMem : S a)
    (hReach : TransGen r a b) : S b := by
  induction hReach with
  | single hStep => exact hStays a hMem _ hStep
  | tail _ hStep ih => exact hStays _ ih _ hStep

/-- **A finished point is on no cycle**: its successors lie in a set that no step
leaves, and it does not. -/
theorem not_transGen_of_finished (hStays : ∀ u, S u → ∀ w, r u w → S w) (hNot : ¬ S a)
    (hNext : ∀ w, r a w → S w) : ¬ TransGen r a a := by
  intro hCycle
  obtain ⟨b, hFirst, hRest⟩ := TransGen.head'_iff.mp hCycle
  have hSuccessor : S b := hNext b hFirst
  rcases reflTransGen_iff_eq_or_transGen.mp hRest with hEq | hReach
  · exact hNot (hEq ▸ hSuccessor)
  · exact hNot (mem_of_transGen hStays hSuccessor hReach)

end Walk
