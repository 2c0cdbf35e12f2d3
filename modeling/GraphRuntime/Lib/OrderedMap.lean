import Mathlib.Data.List.Nodup

/-!
# Filling an ordered map from a list

`insertAll m l` inserts the pairs of `l` one after the other, so that of two
pairs with one key the later one stays.  The results say what can be found in
the map afterwards, and that the map has grown by the length of the list
exactly when no key was there twice (`size_insertAll_iff`).
-/

namespace OrderedMap

variable {α β : Type} [Ord α]

def insertAll (m : Std.TreeMap α β) (l : List (α × β)) : Std.TreeMap α β :=
  l.foldl (fun m p => m.insert p.1 p.2) m

variable {m : Std.TreeMap α β} {l : List (α × β)} {k : α} {v : β}

theorem insertAll_cons (p : α × β) :
    insertAll m (p :: l) = insertAll (m.insert p.1 p.2) l := rfl

variable [Std.TransOrd α]

theorem size_insertAll_le : (insertAll m l).size ≤ m.size + l.length := by
  induction l generalizing m with
  | nil => exact Nat.le_refl _
  | cons p rest ih =>
      rw [insertAll_cons, List.length_cons]
      have hRest := ih (m := m.insert p.1 p.2)
      have hHead : (m.insert p.1 p.2).size ≤ m.size + 1 :=
        Std.TreeMap.size_insert_le
      omega

variable [Std.LawfulEqOrd α]

theorem getElem?_insert_self : (m.insert k v)[k]? = some v := by
  rw [Std.TreeMap.getElem?_insert, if_pos Std.ReflCmp.compare_self]

theorem getElem?_insert_of_ne {k' : α} (hNe : k' ≠ k) :
    (m.insert k' v)[k]? = m[k]? := by
  rw [Std.TreeMap.getElem?_insert, if_neg]
  exact fun hEq => hNe (Std.LawfulEqCmp.eq_of_compare hEq)

theorem getElem?_erase_self : (m.erase k)[k]? = none := by
  rw [Std.TreeMap.getElem?_erase, if_pos Std.ReflCmp.compare_self]

theorem getElem?_erase_of_ne {k' : α} (hNe : k' ≠ k) : (m.erase k')[k]? = m[k]? := by
  rw [Std.TreeMap.getElem?_erase, if_neg]
  exact fun hEq => hNe (Std.LawfulEqCmp.eq_of_compare hEq)

/-- What is in the map has been inserted, or was there before. -/
theorem mem_of_getElem?_insertAll (hFound : (insertAll m l)[k]? = some v) :
    (k, v) ∈ l ∨ m[k]? = some v := by
  induction l generalizing m with
  | nil => exact Or.inr hFound
  | cons p rest ih =>
      rw [insertAll_cons] at hFound
      rcases ih hFound with hMem | hHead
      · exact Or.inl (List.mem_cons_of_mem _ hMem)
      · by_cases hKey : p.1 = k
        · subst hKey
          rw [getElem?_insert_self, Option.some.injEq] at hHead
          exact Or.inl (by simp [← hHead])
        · rw [getElem?_insert_of_ne hKey] at hHead
          exact Or.inr hHead

theorem getElem?_insertAll_of_not_mem (hKey : k ∉ l.map Prod.fst) :
    (insertAll m l)[k]? = m[k]? := by
  induction l generalizing m with
  | nil => rfl
  | cons p rest ih =>
      rw [List.map_cons, List.mem_cons, not_or] at hKey
      rw [insertAll_cons, ih hKey.2, getElem?_insert_of_ne (Ne.symm hKey.1)]

/-- A key of the list is found with a value of the list, whatever the map was
before. -/
theorem exists_getElem?_insertAll (hKey : k ∈ l.map Prod.fst) :
    ∃ v, (k, v) ∈ l ∧ ∀ m : Std.TreeMap α β, (insertAll m l)[k]? = some v := by
  induction l with
  | nil => simp at hKey
  | cons p rest ih =>
      by_cases hRest : k ∈ rest.map Prod.fst
      · obtain ⟨v, hMem, hFound⟩ := ih hRest
        exact ⟨v, List.mem_cons_of_mem _ hMem, fun m => hFound _⟩
      · have hHead : k = p.1 := by
          rw [List.map_cons, List.mem_cons] at hKey
          exact hKey.resolve_right hRest
        subst hHead
        refine ⟨p.2, List.mem_cons_self, ?_⟩
        intro m
        rw [insertAll_cons, getElem?_insertAll_of_not_mem hRest,
          getElem?_insert_self]

/-- Without repeated keys every pair is found. -/
theorem getElem?_insertAll_of_mem (hKeys : (l.map Prod.fst).Nodup)
    (hMem : (k, v) ∈ l) : (insertAll m l)[k]? = some v := by
  induction l generalizing m with
  | nil => simp at hMem
  | cons p rest ih =>
      rw [List.map_cons, List.nodup_cons] at hKeys
      rw [insertAll_cons]
      rcases List.mem_cons.mp hMem with rfl | hMem
      · rw [getElem?_insertAll_of_not_mem hKeys.1, getElem?_insert_self]
      · exact ih hKeys.2 hMem

/-- **Growth**: the map grows by one for every pair exactly when the keys are
distinct and new. -/
theorem size_insertAll_iff :
    (insertAll m l).size = m.size + l.length ↔
      (l.map Prod.fst).Nodup ∧ ∀ k ∈ l.map Prod.fst, k ∉ m := by
  induction l generalizing m with
  | nil => simp [insertAll]
  | cons p rest ih =>
      have hRest : (insertAll (m.insert p.1 p.2) rest).size ≤
          (m.insert p.1 p.2).size + rest.length := size_insertAll_le
      rw [insertAll_cons, List.length_cons, List.map_cons, List.nodup_cons]
      by_cases hOld : p.1 ∈ m
      · have hSize : (m.insert p.1 p.2).size = m.size := by
          rw [Std.TreeMap.size_insert, if_pos (Std.TreeMap.mem_iff_contains.mp hOld)]
        constructor
        · intro hEq
          omega
        · rintro ⟨-, hNew⟩
          exact absurd hOld (hNew p.1 (by simp))
      · have hSize : (m.insert p.1 p.2).size = m.size + 1 := by
          rw [Std.TreeMap.size_insert,
            if_neg fun hHas => hOld (Std.TreeMap.mem_iff_contains.mpr hHas)]
        have hShift : (insertAll (m.insert p.1 p.2) rest).size =
              m.size + (rest.length + 1) ↔
            (insertAll (m.insert p.1 p.2) rest).size =
              (m.insert p.1 p.2).size + rest.length := by omega
        rw [hShift, ih]
        simp only [Std.TreeMap.mem_insert, Std.LawfulEqCmp.compare_eq_iff_eq,
          not_or, List.mem_cons, forall_eq_or_imp]
        constructor
        · rintro ⟨hNodup, hNew⟩
          exact ⟨⟨fun hMem => (hNew _ hMem).1 rfl, hNodup⟩, hOld,
            fun k hMem => (hNew k hMem).2⟩
        · rintro ⟨⟨hFresh, hNodup⟩, -, hNew⟩
          exact ⟨hNodup, fun k hMem => ⟨fun hEq => hFresh (hEq ▸ hMem),
            hNew k hMem⟩⟩

end OrderedMap
