import Mathlib.Data.List.Destutter

/-!
# The crossings of a signal

`crossings l` are the values a signal changes to, where `l` are its values one after
another: `l` without the repetitions and without the first value.  They alternate
(`isChain_crossings`), and a further value adds itself unless it is the last one again
(`crossings_concat`).
-/

namespace Crossings

variable {α : Type} [DecidableEq α]

/-- The values a signal changes to. -/
def crossings (l : List α) : List α :=
  (l.destutter (· ≠ ·)).tail

theorem isChain_crossings (l : List α) : (crossings l).IsChain (· ≠ ·) :=
  (l.isChain_destutter (· ≠ ·)).tail

theorem destutter'_concat (l : List α) (a b : α) :
    (l ++ [b]).destutter' (· ≠ ·) a =
      l.destutter' (· ≠ ·) a ++ if (a :: l).getLast? = some b then [] else [b] := by
  induction l generalizing a with
  | nil =>
      by_cases hSame : a = b <;> simp [hSame]
  | cons c l ih =>
      rw [List.cons_append, List.getLast?_cons_cons]
      by_cases hSame : a = c
      · rw [List.destutter'_cons_neg _ (not_not.mpr hSame),
          List.destutter'_cons_neg _ (not_not.mpr hSame), ih, hSame]
      · rw [List.destutter'_cons_pos _ hSame, List.destutter'_cons_pos _ hSame, ih]
        rfl

/-- **One more value** is one more crossing if it is a new one. -/
theorem crossings_concat {l : List α} {a : α} (b : α) (hLast : l.getLast? = some a) :
    crossings (l ++ [b]) = crossings l ++ if a = b then [] else [b] := by
  cases l with
  | nil => simp at hLast
  | cons c l =>
      have hSome : l.destutter' (· ≠ ·) c ≠ [] := List.destutter'_ne_nil l (· ≠ ·)
      rw [crossings, crossings, List.cons_append, List.destutter_cons', List.destutter_cons',
        destutter'_concat, hLast, List.tail_append_of_ne_nil hSome]
      simp only [Option.some.injEq]

end Crossings
