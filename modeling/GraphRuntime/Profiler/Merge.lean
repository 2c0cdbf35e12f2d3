import GraphRuntime.Lib.Grouping
import GraphRuntime.Profiler.Reporter
import GraphRuntime.Profiler.TimeHistogram

/-!
# Merging profiles

A file is the list of the records the reader takes from it (`membersLoop_records`), and
accumulating files is accumulating their records one after the other.  The entries of a
`Reporter` are then the records grouped by name, in the order of their first appearance,
each folded by `PerNodeAccum.update` (`accumulateFiles_eq`).

Count, total, minimum and maximum of a fold do not depend on the order of the records
(`merged_perm`), so a report does not depend on the order of the files in them
(`report_order_independent`).  The times of open and close are those of the last record.
-/

namespace GraphRuntime.Profiler

open GraphRuntime.Stream (wrap64 int64Max int64Min wrap64_of_range)
open Grouping

/-- A record without a name is passed over. -/
def accumulateRecord (data : List PerNodeAccum) (f : NodeFields) : List PerNodeAccum :=
  if f.name = "" then data else accumulateNode f data

/-- `Accumulate` of a file with these records. -/
def accumulateFile (data : List PerNodeAccum) (file : List NodeFields) : List PerNodeAccum :=
  file.foldl accumulateRecord data

/-- The files, accumulated into a fresh `Reporter`. -/
def accumulateFiles (files : List (List NodeFields)) : List PerNodeAccum :=
  files.foldl accumulateFile []

/-- The records of the files that have a name. -/
def namedRecords (files : List (List NodeFields)) : List NodeFields :=
  files.flatten.filter fun f => !decide (f.name = "")

/-- What is merged of a node. -/
structure MergedStats where
  processCount : Int
  processTimeTotalUsec : Int
  processTimeMinUsec : Int
  processTimeMaxUsec : Int
deriving DecidableEq

/-- The merged values of a node of the report. -/
def NodeStats.merged (s : NodeStats) : MergedStats :=
  ⟨s.processCount, s.processTimeTotalUsec, s.processTimeMinUsec, s.processTimeMaxUsec⟩

/-- The first node of the report with a name. -/
def ProfileReport.find (r : ProfileReport) (name : String) : Option NodeStats :=
  r.nodes.find? fun s => decide (s.nodeName = name)

/-- Each name of a record is there once, and the totals are those of the nodes. -/
structure MergesTo (files : List (List NodeFields)) (r : ProfileReport) : Prop where
  once : ∀ f ∈ namedRecords files, (r.nodes.map NodeStats.nodeName).count f.name = 1
  only : ∀ s ∈ r.nodes, ∃ f ∈ namedRecords files, f.name = s.nodeName
  totalProcessCount : r.totalProcessCount = (r.nodes.map NodeStats.processCount).sum
  totalProcessTime :
    r.totalProcessTimeUsec = (r.nodes.map NodeStats.processTimeTotalUsec).sum

/-- The two reports say the same. -/
structure SameReport (r r' : ProfileReport) : Prop where
  nodes : ∀ name, (r.find name).map NodeStats.merged = (r'.find name).map NodeStats.merged
  totalProcessCount : r.totalProcessCount = r'.totalProcessCount
  totalProcessTime : r.totalProcessTimeUsec = r'.totalProcessTimeUsec

/-- No counter is negative, and the totals over all files have room in 64 bits. -/
structure Countable (files : List (List NodeFields)) : Prop where
  processCount : ∀ f ∈ namedRecords files, 0 ≤ f.processCount
  processTime : ∀ f ∈ namedRecords files, 0 ≤ f.processTimeTotal
  totalCount : ((namedRecords files).map NodeFields.processCount).sum ≤ int64Max
  totalTime : ((namedRecords files).map NodeFields.processTimeTotal).sum ≤ int64Max

section

variable {files files' : List (List NodeFields)} {data : List PerNodeAccum} {f : NodeFields}
  {records records' : List NodeFields} {name : String}

/-! ## What the reader takes from a file -/

theorem accumulateFile_append (data : List PerNodeAccum) (file more : List NodeFields) :
    accumulateFile data (file ++ more) = accumulateFile (accumulateFile data file) more :=
  List.foldl_append

/-- The records of a list: the loop never ends, or it leaves the same text and adds the same
records whatever the entries are. -/
theorem nodesLoop_records (fuel : Nat) (r : List Char) :
    (∀ data, nodesLoop fuel data r = none) ∨
      ∃ rest file, ∀ data, nodesLoop fuel data r = some (rest, accumulateFile data file) := by
  induction fuel generalizing r with
  | zero => exact Or.inl fun data => rfl
  | succ fuel ih =>
      cases r with
      | nil => exact Or.inr ⟨[], [], fun data => rfl⟩
      | cons c r =>
          simp only [nodesLoop]
          obtain ⟨closed, r₁⟩ := expect ']' (c :: r)
          cases closed with
          | true => exact Or.inr ⟨r₁, [], fun data => rfl⟩
          | false =>
              dsimp only
              obtain ⟨opened, r₂⟩ := expect '\x7b' r₁
              cases opened with
              | false =>
                  dsimp only
                  cases skipValue fuel r₂ with
                  | none => exact Or.inl fun data => rfl
                  | some r₃ => exact ih _
              | true =>
                  dsimp only
                  cases fieldsLoop fuel {} r₂ with
                  | none => exact Or.inl fun data => rfl
                  | some p =>
                      rcases ih p.1 with hNever | ⟨rest, file, hAdds⟩
                      · exact Or.inl fun data => hNever _
                      · exact Or.inr ⟨rest, p.2 :: file, fun data => hAdds _⟩

/-- **The records of a file**: what accumulating a file adds to the entries is a list of
records that does not depend on them. -/
theorem membersLoop_records (fuel : Nat) (r : List Char) :
    (∀ data, membersLoop fuel data r = none) ∨
      ∃ file, ∀ data, membersLoop fuel data r = some (accumulateFile data file) := by
  induction fuel generalizing r with
  | zero => exact Or.inl fun data => rfl
  | succ fuel ih =>
      cases r with
      | nil => exact Or.inr ⟨[], fun data => rfl⟩
      | cons c r =>
          simp only [membersLoop]
          obtain ⟨closed, r₁⟩ := expect '\x7d' (c :: r)
          cases closed with
          | true => exact Or.inr ⟨[], fun data => rfl⟩
          | false =>
              dsimp only
              obtain ⟨key, r₂⟩ := readKey r₁
              dsimp only
              split
              · exact Or.inr ⟨[], fun data => rfl⟩
              split
              · obtain ⟨opened, r₃⟩ := expect '[' (expect ':' r₂).2
                cases opened with
                | false =>
                    dsimp only
                    cases skipValue fuel r₃ with
                    | none => exact Or.inl fun data => rfl
                    | some r₄ => exact ih _
                | true =>
                    dsimp only
                    rcases nodesLoop_records fuel r₃ with hNever | ⟨rest, file, hAdds⟩
                    · refine Or.inl fun data => ?_
                      rw [hNever]
                      rfl
                    · rcases ih rest with hNever | ⟨more, hMore⟩
                      · refine Or.inl fun data => ?_
                        rw [hAdds]
                        exact hNever _
                      · refine Or.inr ⟨file ++ more, fun data => ?_⟩
                        rw [hAdds, accumulateFile_append]
                        exact hMore _
              · cases skipValue fuel (expect ':' r₂).2 with
                | none => exact Or.inl fun data => rfl
                | some r₃ => exact ih _

/-! ## The entries as groups of records -/

/-- The entry of a group of records. -/
def mergedEntry (g : String × List NodeFields) : PerNodeAccum :=
  g.2.foldl PerNodeAccum.update { nodeName := g.1 }

/-- The records of each name, in the order in which the names first occur. -/
def groupsOf (records : List NodeFields) : List (String × List NodeFields) :=
  group (records.map fun f => (f.name, f))

theorem foldl_update_nodeName (entry : PerNodeAccum) :
    (records.foldl PerNodeAccum.update entry).nodeName = entry.nodeName := by
  induction records generalizing entry with
  | nil => rfl
  | cons f records ih =>
      rw [List.foldl_cons, ih]
      rfl

@[simp] theorem mergedEntry_nodeName (g : String × List NodeFields) :
    (mergedEntry g).nodeName = g.1 :=
  foldl_update_nodeName _

/-- A record goes to the group of its name. -/
theorem accumulateNode_groups (gs : List (String × List NodeFields)) :
    accumulateNode f (gs.map mergedEntry) = (add f.name f gs).map mergedEntry := by
  induction gs with
  | nil => rfl
  | cons g gs ih =>
      rw [List.map_cons, accumulateNode, add, mergedEntry_nodeName]
      split
      · simp [mergedEntry, List.foldl_append]
      · rw [ih, List.map_cons]

theorem foldl_accumulateNode_groups :
    records.foldl (fun data f => accumulateNode f data) [] =
      (groupsOf records).map mergedEntry := by
  induction records using List.reverseRecOn with
  | nil => rfl
  | append_singleton records f ih =>
      rw [List.foldl_append, List.foldl_cons, List.foldl_nil, ih, accumulateNode_groups,
        groupsOf, groupsOf, List.map_append, List.map_singleton, group_append_singleton]

theorem accumulateFile_eq (file : List NodeFields) :
    accumulateFile data file =
      (file.filter fun f => !decide (f.name = "")).foldl (fun data f => accumulateNode f data)
        data := by
  induction file generalizing data with
  | nil => rfl
  | cons f file ih =>
      rw [accumulateFile, List.foldl_cons]
      by_cases hName : f.name = ""
      · rw [List.filter_cons_of_neg (by simp [hName]), accumulateRecord, if_pos hName]
        exact ih
      · rw [List.filter_cons_of_pos (by simp [hName]), List.foldl_cons, accumulateRecord,
          if_neg hName]
        exact ih

/-- **The entries after any files**: the named records, grouped by name. -/
theorem accumulateFiles_eq (files : List (List NodeFields)) :
    accumulateFiles files = (groupsOf (namedRecords files)).map mergedEntry := by
  have hFlat : ∀ data, files.foldl accumulateFile data = accumulateFile data files.flatten := by
    induction files with
    | nil => exact fun data => rfl
    | cons file files ih =>
        intro data
        rw [List.foldl_cons, List.flatten_cons, accumulateFile_append, ih]
  rw [accumulateFiles, hFlat, accumulateFile_eq]
  exact foldl_accumulateNode_groups

/-! ## One node -/

/-- The merged values of an entry. -/
def PerNodeAccum.merged (e : PerNodeAccum) : MergedStats :=
  ⟨e.processCount, e.processTimeTotalUsec, e.processTimeMinUsec, e.processTimeMaxUsec⟩

/-- What a record does to the merged values. -/
def MergedStats.update (m : MergedStats) (f : NodeFields) : MergedStats :=
  (PerNodeAccum.update ⟨"", 0, 0, m.processCount, m.processTimeTotalUsec, m.processTimeMinUsec,
    m.processTimeMaxUsec⟩ f).merged

theorem merged_foldl (entry : PerNodeAccum) :
    (records.foldl PerNodeAccum.update entry).merged =
      records.foldl MergedStats.update entry.merged := by
  induction records generalizing entry with
  | nil => rfl
  | cons f records ih =>
      rw [List.foldl_cons, ih]
      rfl

theorem wrap64_add_right_comm (x y z : Int) :
    wrap64 (wrap64 (x + y) + z) = wrap64 (wrap64 (x + z) + y) := by
  rw [wrap64_wrap64_add, wrap64_wrap64_add, add_right_comm]

/-- **Two records** may change places. -/
instance : RightCommutative MergedStats.update where
  right_comm m f g := by
    obtain ⟨count, time, least, greatest⟩ := m
    simp only [MergedStats.update, PerNodeAccum.merged, PerNodeAccum.update,
      MergedStats.mk.injEq]
    refine ⟨wrap64_add_right_comm _ _ _, wrap64_add_right_comm _ _ _, ?_, ?_⟩
    · by_cases hF : f.processCount > 0 <;> by_cases hG : g.processCount > 0 <;>
        simp only [hF, hG, decide_true, decide_false, Bool.true_and, Bool.false_and,
          Bool.false_eq_true, if_false, decide_eq_true_eq]
      grind
    · by_cases hF : f.processCount > 0 <;> by_cases hG : g.processCount > 0 <;>
        simp only [hF, hG, decide_true, decide_false, Bool.true_and, Bool.false_and,
          Bool.false_eq_true, if_false, decide_eq_true_eq]
      grind

/-- **Any order** of the records of a node leaves the same merged values. -/
theorem merged_perm (hPerm : records.Perm records') (name : String) :
    (mergedEntry (name, records)).merged = (mergedEntry (name, records')).merged := by
  rw [mergedEntry, mergedEntry, merged_foldl, merged_foldl]
  exact hPerm.foldl_eq _

/-! ## The totals -/

theorem foldl_wrap64 {α : Type} (w : α → Int) (l : List α) (start : Int) :
    l.foldl (fun total a => wrap64 (total + w a)) (wrap64 start) =
      wrap64 (start + (l.map w).sum) := by
  induction l generalizing start with
  | nil => simp
  | cons a l ih =>
      rw [List.foldl_cons, wrap64_wrap64_add, ih, List.map_cons, List.sum_cons, add_assoc]

/-- A counter of the entries, `get`, to which each record adds its `w`. -/
structure Counts (get : PerNodeAccum → Int) (w : NodeFields → Int) : Prop where
  fresh : ∀ name, get { nodeName := name } = 0
  update : ∀ e f, get (PerNodeAccum.update e f) = wrap64 (get e + w f)

theorem counts_processCount : Counts PerNodeAccum.processCount NodeFields.processCount :=
  ⟨fun _ => rfl, fun _ _ => rfl⟩

theorem counts_processTime :
    Counts PerNodeAccum.processTimeTotalUsec NodeFields.processTimeTotal :=
  ⟨fun _ => rfl, fun _ _ => rfl⟩

section

variable {get : PerNodeAccum → Int} {w : NodeFields → Int} (hCounts : Counts get w)
include hCounts

theorem Counts.mergedEntry (g : String × List NodeFields) :
    get (mergedEntry g) = wrap64 (g.2.map w).sum := by
  have hFold : ∀ (records : List NodeFields) (e : PerNodeAccum) (x : Int), get e = wrap64 x →
      get (records.foldl PerNodeAccum.update e) = wrap64 (x + (records.map w).sum) := by
    intro records
    induction records with
    | nil =>
        intro e x hStart
        simpa using hStart
    | cons f records ih =>
        intro e x hStart
        have hNext : get (e.update f) = wrap64 (x + w f) := by
          rw [hCounts.update, hStart, wrap64_wrap64_add]
        rw [List.foldl_cons, ih _ _ hNext, List.map_cons, List.sum_cons, add_assoc]
  have hZero : get { nodeName := g.1 } = wrap64 0 := hCounts.fresh g.1
  rw [Profiler.mergedEntry, hFold _ _ 0 hZero, zero_add]

/-- With room for the total, the counter of a node is the sum over its records. -/
theorem Counts.mergedEntry_eq (hNonneg : ∀ f ∈ records, 0 ≤ w f)
    (hTotal : (records.map w).sum ≤ int64Max) {g : String × List NodeFields}
    (hGroup : g ∈ groupsOf records) : get (Profiler.mergedEntry g) = (g.2.map w).sum := by
  have hSublist : (g.2.map w).Sublist (records.map w) := by
    rw [(mem_group.mp hGroup).1, values]
    have hFilter := (List.filter_sublist (l := records.map fun f => (f.name, f))
      (p := fun p => decide (p.1 = g.1))).map Prod.snd |>.map w
    simpa [List.map_map, Function.comp_def] using hFilter
  have hPart : ∀ x ∈ g.2.map w, 0 ≤ x := by
    intro x hMem
    obtain ⟨f, hRecord, rfl⟩ := List.mem_map.mp (hSublist.subset hMem)
    exact hNonneg f hRecord
  have hAll : ∀ x ∈ records.map w, 0 ≤ x := by
    intro x hMem
    obtain ⟨f, hRecord, rfl⟩ := List.mem_map.mp hMem
    exact hNonneg f hRecord
  have hLe : (g.2.map w).sum ≤ (records.map w).sum := hSublist.sum_le_sum hAll
  have hLo : 0 ≤ (g.2.map w).sum := List.sum_nonneg hPart
  rw [hCounts.mergedEntry, wrap64_of_range]
  · unfold int64Min
    omega
  · exact hLe.trans hTotal

/-- **The total over the nodes** is the total over the records, and the report has it. -/
theorem Counts.total (hNonneg : ∀ f ∈ namedRecords files, 0 ≤ w f)
    (hTotal : ((namedRecords files).map w).sum ≤ int64Max) :
    ((accumulateFiles files).map get).sum = ((namedRecords files).map w).sum ∧
      (accumulateFiles files).foldl (fun total e => wrap64 (total + get e)) 0 =
        ((namedRecords files).map w).sum := by
  have hSum : ((accumulateFiles files).map get).sum = ((namedRecords files).map w).sum := by
    have hGroups : (groupsOf (namedRecords files)).map (fun g => get (Profiler.mergedEntry g)) =
        (groupsOf (namedRecords files)).map fun g => (g.2.map w).sum :=
      List.map_congr_left fun g hGroup => hCounts.mergedEntry_eq hNonneg hTotal hGroup
    have hRecords : ((namedRecords files).map fun f => (f.name, f)).map (fun p => w p.2) =
        (namedRecords files).map w := by simp
    rw [accumulateFiles_eq, List.map_map, Function.comp_def, hGroups, groupsOf, sum_group,
      hRecords]
  have hLo : 0 ≤ ((namedRecords files).map w).sum := by
    refine List.sum_nonneg ?_
    intro x hMem
    obtain ⟨f, hRecord, rfl⟩ := List.mem_map.mp hMem
    exact hNonneg f hRecord
  refine ⟨hSum, ?_⟩
  have hFold := foldl_wrap64 get (accumulateFiles files) 0
  have hZero : wrap64 0 = 0 := by decide
  rw [hZero, zero_add, hSum, wrap64_of_range (by unfold int64Min; omega) hTotal] at hFold
  exact hFold

end

/-! ## Reports -/

theorem namedRecords_perm (hPerm : files.Perm files') :
    (namedRecords files).Perm (namedRecords files') :=
  hPerm.flatten.filter _

theorem stats_merged {e e' : PerNodeAccum} (hSame : e.merged = e'.merged) :
    e.stats.merged = e'.stats.merged := by
  simp only [PerNodeAccum.merged, MergedStats.mk.injEq] at hSame
  obtain ⟨hCount, hTime, hMin, hMax⟩ := hSame
  simp [PerNodeAccum.stats, NodeStats.merged, hCount, hTime, hMin, hMax]

/-- What a report says of a node: the merged records of that name. -/
theorem find_report (name : String) :
    (report (accumulateFiles files)).find name =
      if values name ((namedRecords files).map fun f => (f.name, f)) = [] then none
      else some (mergedEntry
        (name, values name ((namedRecords files).map fun f => (f.name, f)))).stats := by
  have hGroup := find_group name ((namedRecords files).map fun f => (f.name, f))
  rw [ProfileReport.find, report, accumulateFiles_eq, List.map_map, List.find?_map]
  have hKey : ((fun s : NodeStats => decide (s.nodeName = name)) ∘
      (PerNodeAccum.stats ∘ mergedEntry)) = fun g => decide (g.1 = name) := by
    funext g
    show decide ((mergedEntry g).nodeName = name) = _
    rw [mergedEntry_nodeName]
  rw [hKey, groupsOf, hGroup]
  split <;> rfl

theorem mergesTo_report (hCountable : Countable files) :
    MergesTo files (report (accumulateFiles files)) := by
  have hNames : (report (accumulateFiles files)).nodes.map NodeStats.nodeName =
      (groupsOf (namedRecords files)).map Prod.fst := by
    rw [report, accumulateFiles_eq, List.map_map, List.map_map]
    exact List.map_congr_left fun g _ => mergedEntry_nodeName g
  have hCount := counts_processCount.total hCountable.processCount hCountable.totalCount
  have hTime := counts_processTime.total hCountable.processTime hCountable.totalTime
  refine ⟨?_, ?_, ?_, ?_⟩
  · intro f hRecord
    have hSome : values f.name ((namedRecords files).map fun f => (f.name, f)) ≠ [] := by
      refine List.ne_nil_of_mem (a := f) ?_
      simp [values, hRecord]
    rw [hNames]
    refine List.count_eq_one_of_mem (nodup_keys_group _) ?_
    exact List.mem_map.mpr ⟨_, mem_group.mpr ⟨rfl, hSome⟩, rfl⟩
  · intro s hNode
    have hMem : s.nodeName ∈ (groupsOf (namedRecords files)).map Prod.fst := by
      rw [← hNames]
      exact List.mem_map.mpr ⟨s, hNode, rfl⟩
    obtain ⟨⟨name, records⟩, hGroup, hName⟩ := List.mem_map.mp hMem
    obtain ⟨hValues, hNe⟩ := mem_group.mp hGroup
    obtain ⟨f, hRecord⟩ := List.exists_mem_of_ne_nil _ hNe
    rw [hValues, values] at hRecord
    simp only [List.mem_map, List.mem_filter, decide_eq_true_eq] at hRecord
    obtain ⟨_, ⟨⟨f', hIn, rfl⟩, hSame⟩, rfl⟩ := hRecord
    exact ⟨f', hIn, hSame.trans hName⟩
  · have hNodes : (report (accumulateFiles files)).nodes.map NodeStats.processCount =
        (accumulateFiles files).map PerNodeAccum.processCount := by
      rw [report, List.map_map]
      rfl
    rw [hNodes, hCount.1]
    exact hCount.2
  · have hNodes : (report (accumulateFiles files)).nodes.map NodeStats.processTimeTotalUsec =
        (accumulateFiles files).map PerNodeAccum.processTimeTotalUsec := by
      rw [report, List.map_map]
      rfl
    rw [hNodes, hTime.1]
    exact hTime.2

theorem Countable.perm (hCountable : Countable files) (hPerm : files.Perm files') :
    Countable files' := by
  have hRecords := namedRecords_perm hPerm
  refine ⟨?_, ?_, ?_, ?_⟩
  · exact fun f hMem => hCountable.processCount f (hRecords.mem_iff.mpr hMem)
  · exact fun f hMem => hCountable.processTime f (hRecords.mem_iff.mpr hMem)
  · rw [← (hRecords.map NodeFields.processCount).sum_eq]
    exact hCountable.totalCount
  · rw [← (hRecords.map NodeFields.processTimeTotal).sum_eq]
    exact hCountable.totalTime

/-- **The order of the files** does not matter: both reports name each node once, their
totals are the sums over their nodes, and they agree on every node and on the totals. -/
theorem report_order_independent (hPerm : files.Perm files') (hCountable : Countable files) :
    MergesTo files (report (accumulateFiles files)) ∧
      MergesTo files' (report (accumulateFiles files')) ∧
      SameReport (report (accumulateFiles files)) (report (accumulateFiles files')) := by
  have hCountable' : Countable files' := hCountable.perm hPerm
  have hRecords := namedRecords_perm hPerm
  refine ⟨mergesTo_report hCountable, mergesTo_report hCountable', ?_, ?_, ?_⟩
  · intro name
    have hValues := values_perm (k := name) (hRecords.map fun f => (f.name, f))
    rw [find_report, find_report]
    by_cases hNone : values name ((namedRecords files).map fun f => (f.name, f)) = []
    · have hNone' := List.perm_nil.mp (hNone ▸ hValues.symm)
      rw [if_pos hNone, if_pos hNone']
    · have hSome' : values name ((namedRecords files').map fun f => (f.name, f)) ≠ [] :=
        fun hNil => hNone (List.perm_nil.mp (hNil ▸ hValues))
      rw [if_neg hNone, if_neg hSome', Option.map_some, Option.map_some,
        stats_merged (merged_perm hValues name)]
  · exact (counts_processCount.total hCountable.processCount hCountable.totalCount).2.trans
      ((hRecords.map NodeFields.processCount).sum_eq.trans
        (counts_processCount.total hCountable'.processCount hCountable'.totalCount).2.symm)
  · exact (counts_processTime.total hCountable.processTime hCountable.totalTime).2.trans
      ((hRecords.map NodeFields.processTimeTotal).sum_eq.trans
        (counts_processTime.total hCountable'.processTime hCountable'.totalTime).2.symm)

theorem report_order_independent_two :
    let first : List NodeFields := [⟨"a", 1, 1, 2, 10⟩, ⟨"b", 0, 0, 0, 0⟩, ⟨"a", 2, 2, 1, 3⟩]
    let second : List NodeFields := [⟨"b", 3, 3, 4, 8⟩]
    MergesTo [first, second] (report (accumulateFiles [first, second])) ∧
      MergesTo [second, first] (report (accumulateFiles [second, first])) ∧
      SameReport (report (accumulateFiles [first, second]))
        (report (accumulateFiles [second, first])) :=
  report_order_independent (List.Perm.swap _ _ _)
    ⟨by decide, by decide, by decide, by decide⟩

end

end GraphRuntime.Profiler
