import Mathlib.Data.Prod.Lex
import Mathlib.Order.RelClasses
import GraphRuntime.Scheduler.Delivery
import GraphRuntime.Scheduler.QueueOperations

/-!
# The priority of a queue's items

`Item::operator<` compares lexicographically: `priority` is the key, and the
order of items is that of their keys, so it is a strict weak ordering for any
nodes whatever.  `TryPop` returns a maximal item.

Among items of one kind the key is what scheduler_queue.h announces: open items
first, lower layers first among sources.  The test between a source and a
non-source is the other way round: the heap pops maximal items and the source
is the greater one.  `pops_by_priority_iff` is about the contents where this
makes no difference.
-/

namespace GraphRuntime.Scheduler

variable {isSource : NodeId → Bool} {a b item : Item} {items : List Item}

/-! ## A lexicographic key -/

/-- What two items are compared by, the most significant part first. -/
abbrev Priority := Bool ×ₗ Bool ×ₗ Int ×ₗ Int

/-- A lower layer and a lower address are a higher priority among sources, a
higher address among the others. -/
def Item.priority (isSource : NodeId → Bool) (a : Item) : Priority :=
  toLex (a.isOpenNode, toLex (isSource a.node,
    if isSource a.node then toLex (-a.sourceLayer, -a.nodeId) else toLex (0, a.nodeId)))

theorem Item.less_iff :
    Item.less isSource a b = true ↔ a.priority isSource < b.priority isSource := by
  unfold Item.less Item.priority
  cases hA : a.isOpenNode <;> cases hB : b.isOpenNode <;>
    cases hSourceA : isSource a.node <;> cases hSourceB : isSource b.node <;>
    simp [Prod.Lex.toLex_lt_toLex]
  -- two sources of one kind: the layers, then the addresses
  all_goals
    by_cases hLayer : a.sourceLayer = b.sourceLayer <;> simp [hLayer]

/-- The order of the keys, and so a strict weak ordering of all items. -/
theorem strictWeakOrder_less (isSource : NodeId → Bool) :
    IsStrictWeakOrder Item fun a b => Item.less isSource a b = true := by
  have hOrder : (fun a b => Item.less isSource a b = true) =
      Order.Preimage (Item.priority isSource) (· < ·) := by
    funext a b
    exact propext Item.less_iff
  have hConnected : IsOrderConnected Priority (· < ·) :=
    ⟨fun a b c h => (lt_or_ge a b).imp_right fun hLe => hLe.trans_lt h⟩
  have hKeys : IsStrictWeakOrder Priority (· < ·) := isStrictWeakOrder_of_isOrderConnected
  rw [hOrder]
  exact Order.Preimage.instIsStrictWeakOrder

theorem Item.not_less_iff :
    Item.less isSource a b = false ↔ b.priority isSource ≤ a.priority isSource := by
  rw [← Bool.not_eq_true, Item.less_iff, not_lt]

/-! ## Popping -/

/-- A maximal item, one that `std::priority_queue` may pop. -/
def Poppable (isSource : NodeId → Bool) (items : List Item) (item : Item) : Prop :=
  item ∈ items ∧ ∀ b ∈ items, Item.less isSource item b = false

theorem poppable_top (hTop : top (Item.less isSource) items = some item) :
    Poppable isSource items item := by
  induction items generalizing item with
  | nil => exact absurd hTop (by simp [top])
  | cons a rest ih =>
      refine ⟨top_mem hTop, ?_⟩
      unfold top at hTop
      cases hRest : top (Item.less isSource) rest with
      | none =>
          obtain rfl := top_eq_none.mp hRest
          simp only [hRest, Option.some.injEq] at hTop
          subst hTop
          simp [Item.not_less_iff]
      | some b =>
          have hMax := (ih hRest).2
          simp only [Item.not_less_iff] at hMax ⊢
          by_cases hLess : Item.less isSource a b = true
          · simp only [hRest, hLess, if_true, Option.some.injEq] at hTop
            subst hTop
            have hHead : a.priority isSource ≤ b.priority isSource :=
              le_of_lt (Item.less_iff.mp hLess)
            simpa [hHead] using hMax
          · simp only [hRest, hLess, Bool.false_eq_true, if_false,
              Option.some.injEq] at hTop
            subst hTop
            have hLe : b.priority isSource ≤ a.priority isSource :=
              Item.not_less_iff.mp (by simpa using hLess)
            simpa using fun c hMem => le_trans (hMax c hMem) hLe

/-- **`TryPop`** takes a maximal item out of the queue. -/
theorem poppable_tryPop {q q' : SchedulerQueue}
    (hPop : q.tryPop (Item.less isSource) = some (item, q')) :
    Poppable isSource q.items item := by
  unfold SchedulerQueue.tryPop at hPop
  cases hTop : top (Item.less isSource) q.items with
  | none => exact absurd hPop (by simp [hTop])
  | some c =>
      simp only [hTop, Option.some.injEq, Prod.mk.injEq] at hPop
      exact hPop.1 ▸ poppable_top hTop

theorem exists_poppable (hItems : items ≠ []) : ∃ item, Poppable isSource items item := by
  cases hTop : top (Item.less isSource) items with
  | none => exact absurd (top_eq_none.mp hTop) hItems
  | some item => exact ⟨item, poppable_top hTop⟩

/-- The part of the key that tells the kinds of items apart. -/
theorem Item.kind_le (hLe : b.priority isSource ≤ a.priority isSource) :
    (b.isOpenNode = true → a.isOpenNode = true) ∧
    (a.isOpenNode = b.isOpenNode → isSource b.node = true → isSource a.node = true) := by
  unfold Item.priority at hLe
  simp only [Prod.Lex.toLex_le_toLex] at hLe
  cases hA : a.isOpenNode <;> cases hB : b.isOpenNode <;>
    cases hSourceA : isSource a.node <;> cases hSourceB : isSource b.node <;>
    simp_all [Bool.lt_iff]

/-- Sources that are not open go by layer and address. -/
theorem Item.source_le (hKind : a.isOpenNode = b.isOpenNode) (hA : isSource a.node = true)
    (hB : isSource b.node = true) (hLe : b.priority isSource ≤ a.priority isSource) :
    toLex (a.sourceLayer, a.nodeId) ≤ toLex (b.sourceLayer, b.nodeId) := by
  unfold Item.priority at hLe
  simp only [Prod.Lex.toLex_le_toLex, hKind, hA, hB, if_true, lt_irrefl, true_and,
    false_or] at hLe ⊢
  omega

/-! ## The documented priority -/

/-- What `TryPop` should return: an open item if there is one, else an item of a
non-source if there is one, else the source that comes first by layer and
address. -/
def FirstByPriority (g : Graph) (items : List Item) (item : Item) : Prop :=
  if ∃ a ∈ items, a.isOpenNode = true then item.isOpenNode = true
  else if ∃ a ∈ items, g.isSource a.node = false then g.isSource item.node = false
  else ∀ b ∈ items, toLex (item.sourceLayer, item.nodeId) ≤ toLex (b.sourceLayer, b.nodeId)

/-- Whatever may be popped is first. -/
def PopsByPriority (g : Graph) (items : List Item) : Prop :=
  ∀ item, Poppable g.isSource items item → FirstByPriority g items item

/-- There is an open item, or the items are all of sources or all of
non-sources. -/
def Unmixed (g : Graph) (items : List Item) : Prop :=
  (∃ a ∈ items, a.isOpenNode = true) ∨ (∀ a ∈ items, g.isSource a.node = true) ∨
    ∀ a ∈ items, g.isSource a.node = false

theorem popsByPriority_iff (g : Graph) (items : List Item) :
    PopsByPriority g items ↔ Unmixed g items := by
  constructor
  · intro hPops
    by_contra hMixed
    simp only [Unmixed, not_or, not_forall, Bool.not_eq_true, Bool.not_eq_false] at hMixed
    obtain ⟨hOpen, ⟨a, hMem, hA⟩, b, hMemB, hB⟩ := hMixed
    have hSome : ∃ item, Poppable g.isSource items item :=
      exists_poppable (List.ne_nil_of_mem hMem)
    obtain ⟨item, hItem⟩ := hSome
    -- the popped item is at least the source `b`, so it is a source itself
    have hNone : ∀ c ∈ items, c.isOpenNode = false := fun c hIn =>
      Bool.eq_false_iff.mpr fun h => hOpen ⟨c, hIn, h⟩
    have hSource := (Item.kind_le (Item.not_less_iff.mp (hItem.2 b hMemB))).2
      ((hNone item hItem.1).trans (hNone b hMemB).symm) hB
    have hFirst := hPops item hItem
    rw [FirstByPriority, if_neg hOpen, if_pos ⟨a, hMem, hA⟩] at hFirst
    exact Bool.false_ne_true (hFirst.symm.trans hSource)
  · rintro hUnmixed item ⟨hMem, hMax⟩
    have hLe : ∀ b ∈ items, b.priority g.isSource ≤ item.priority g.isSource :=
      fun b hIn => Item.not_less_iff.mp (hMax b hIn)
    rw [FirstByPriority]
    split
    · rename_i hOpen
      obtain ⟨a, hIn, hA⟩ := hOpen
      exact (Item.kind_le (hLe a hIn)).1 hA
    · rename_i hOpen
      have hNone : ∀ c ∈ items, c.isOpenNode = false := fun c hIn =>
        Bool.eq_false_iff.mpr fun h => hOpen ⟨c, hIn, h⟩
      split
      · rename_i hConsumer
        obtain ⟨a, hIn, hA⟩ := hConsumer
        rcases hUnmixed with hOpen' | hAll | hAll
        · exact absurd hOpen' hOpen
        · exact absurd (hA.symm.trans (hAll a hIn)) Bool.false_ne_true
        · exact hAll item hMem
      · rename_i hConsumer
        have hAll : ∀ c ∈ items, g.isSource c.node = true := fun c hIn => by
          by_contra h
          exact hConsumer ⟨c, hIn, Bool.eq_false_iff.mpr h⟩
        exact fun b hIn => Item.source_le ((hNone item hMem).trans (hNone b hIn).symm)
          (hAll item hMem) (hAll b hIn) (hLe b hIn)

/-! ## The contents of a queue -/

/-- A call that adds an item. -/
inductive Add
  | addNode (n : NodeId)
  | addNodeForOpen (n : NodeId)
deriving DecidableEq

def Add.apply (g : Graph) (s : Shared) : Add → Shared
  | .addNode n => (Scheduler.addNode g s n).1
  | .addNodeForOpen n => (Scheduler.addNodeForOpen g s n).1

/-- The items of queue `q` after a sequence of calls. -/
def added (g : Graph) (s : Shared) (adds : List Add) (q : QueueId) : List Item :=
  ((adds.foldl (Add.apply g) s).queues q).items

/-- **What `TryPop` goes by.**  The comparison is a strict weak ordering; after
any calls, from any state, the queue pops by the documented priority exactly if
it holds an open item or does not mix sources with other nodes. -/
theorem pops_by_priority_iff (g : Graph) (s : Shared) (adds : List Add) (q : QueueId) :
    (IsStrictWeakOrder Item fun a b => Item.less g.isSource a b = true) ∧
      (PopsByPriority g (added g s adds q) ↔ Unmixed g (added g s adds q)) :=
  ⟨strictWeakOrder_less g.isSource, popsByPriority_iff g (added g s adds q)⟩

/-- **A source runs ahead of its consumer.**  With an item of each in the queue
`TryPop` returns the source's. -/
theorem source_pops_first :
    let items := added .sourceSink (initial sourceSinkOutputs 0 false)
      [.addNode 0, .addNode 1] 0
    top Graph.sourceSink.less items = some (Graph.sourceSink.item 0) ∧
      ¬ PopsByPriority .sourceSink items := by
  intro items
  have hItems : items = [Graph.sourceSink.item 0, Graph.sourceSink.item 1] := by decide
  refine ⟨by rw [hItems]; decide, fun hPops => ?_⟩
  have hPop : Poppable Graph.sourceSink.isSource items (Graph.sourceSink.item 0) := by
    rw [hItems]
    exact ⟨by simp, by decide⟩
  have hFirst := hPops _ hPop
  rw [hItems, FirstByPriority, if_neg (by decide), if_pos (by decide)] at hFirst
  exact absurd hFirst (by decide)

end GraphRuntime.Scheduler
