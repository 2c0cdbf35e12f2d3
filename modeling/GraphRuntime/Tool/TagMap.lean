import Mathlib
import GraphRuntime.Lib.Grouping
import GraphRuntime.Lib.OrderedMap
import GraphRuntime.Tool.ValidateName

/-!
# `TagMap`

The entries are grouped by tag, each group is sorted by index and name, and the groups
are laid out one after the other.  `CollectionItemId` is `int`, and so is the running
offset.

`GetId` adds the index to the start of the group, so what it finds is the entry at that
*position* of the sorted group: it is the declared one exactly when the indices of each
tag are `0, 1, 2, …` without a gap or a repetition (`tagLookup_iff`).  The positions
themselves are numbered without gaps, whatever the indices are (`tagIds_regular`).
-/

namespace GraphRuntime.Tool

open GraphRuntime.Profiler Grouping

/-- `EntryGroup`: a tag with its pairs of index and name. -/
abbrev EntryGroup := String × List (Int × String)

structure TagData where
  firstId : Int
  count : Int
deriving DecidableEq

structure TagMap where
  numEntries : Int := 0
  mapping : Std.TreeMap String TagData := ∅
  names : List String := []
  tagOrder : List String := []

/-- The order of `std::pair`. -/
def entryLe (a b : Int × String) : Prop := a.1 < b.1 ∨ (a.1 = b.1 ∧ a.2 ≤ b.2)

instance : DecidableRel entryLe := fun a b => by
  unfold entryLe
  infer_instance

namespace TagMap

def sortEntries (entries : List (Int × String)) : List (Int × String) :=
  entries.insertionSort entryLe

/-- One group of the second loop of `Create`. -/
def layoutGroup (m : TagMap) (g : EntryGroup) : TagMap :=
  let entries := sortEntries g.2
  { numEntries := wrap32 (m.numEntries + entries.length)
    mapping := m.mapping.insert g.1 ⟨m.numEntries, wrap32 entries.length⟩
    names := m.names ++ entries.map Prod.snd
    tagOrder := m.tagOrder ++ [g.1] }

/-- The first loop of `Create`. -/
def groupEntries (start : List EntryGroup) (tagIndexNames : List String) :
    Except Status (List EntryGroup) :=
  tagIndexNames.foldlM (fun groups entry => do
    let parsed ← parseTagIndexName entry
    return add parsed.tag (parsed.index, parsed.name) groups) start

def create (tagIndexNames : List String) : Except Status TagMap := do
  let groups ← groupEntries [] tagIndexNames
  return groups.foldl layoutGroup {}

variable (m : TagMap)

/-- `NumEntries(tag)`. -/
def numEntriesOf (tag : String) : Int :=
  match m.mapping[tag]? with
  | none => 0
  | some data => data.count

def hasTag (tag : String) : Bool := m.mapping.contains tag

def getTags : List String := m.mapping.keys

def getId (tag : String) (index : Int) : Int :=
  match m.mapping[tag]? with
  | none => -1
  | some data => if index < 0 ∨ data.count ≤ index then -1 else wrap32 (data.firstId + index)

/-- `GetId` of a text. -/
def getIdOf (tagIndexName : String) : Int :=
  match parseTagIndexName tagIndexName with
  | .error _ => -1
  | .ok parsed => if parsed.tag.isEmpty then -1 else m.getId parsed.tag parsed.index

end TagMap

/-! ## What a list of names declares -/

/-- The entries of a list, parsed. -/
def declared (tagIndexNames : List String) : List TagIndexName :=
  tagIndexNames.filterMap fun entry => (parseTagIndexName entry).toOption

def entryOf (parsed : TagIndexName) : String × (Int × String) :=
  (parsed.tag, (parsed.index, parsed.name))

/-- The indices and names declared with a tag. -/
def entriesOf (tagIndexNames : List String) (tag : String) : List (Int × String) :=
  values tag ((declared tagIndexNames).map entryOf)

/-- The names at the ids of a tag. -/
def storedNames (m : TagMap) (tag : String) : List (Option String) :=
  (List.range (m.numEntriesOf tag).toNat).map fun i : Nat => m.names[(m.getId tag i).toNat]?

/-- **The ids are numbered without gaps**, and the names of a tag are those declared with
it. -/
structure IdsRegular (tagIndexNames : List String) (m : TagMap) : Prop where
  numEntries : m.numEntries = tagIndexNames.length
  names : m.names.length = tagIndexNames.length
  bijective : Set.BijOn (fun p : String × Int => m.getId p.1 p.2)
    {p | 0 ≤ p.2 ∧ p.2 < m.numEntriesOf p.1} (Set.Ico 0 m.numEntries)
  contiguous : ∀ tag i, 0 ≤ i → i < m.numEntriesOf tag → m.getId tag i = m.getId tag 0 + i
  stored : ∀ tag, (storedNames m tag).Perm
    ((entriesOf tagIndexNames tag).map fun e => some e.2)

/-- **Lookup finds what was declared**, and nothing else. -/
structure FindsDeclared (tagIndexNames : List String) (m : TagMap) : Prop where
  found : ∀ entry ∈ tagIndexNames, ∀ parsed, parseTagIndexName entry = .ok parsed →
    parsed.tag ≠ "" → 0 ≤ m.getId parsed.tag parsed.index ∧
      m.names[(m.getId parsed.tag parsed.index).toNat]? = some parsed.name
  undeclared : ∀ tag index,
    (∀ entry ∈ tagIndexNames, ∀ parsed, parseTagIndexName entry = .ok parsed →
      ¬ (parsed.tag = tag ∧ parsed.index = index)) → m.getId tag index = -1

/-- The indices of each tag are `0, 1, 2, …`, each once. -/
def Dense (tagIndexNames : List String) : Prop :=
  ∀ tag, ((entriesOf tagIndexNames tag).map Prod.fst).Perm
    ((List.range (entriesOf tagIndexNames tag).length).map Int.ofNat)

/-! ## The two loops of `Create` -/

section

variable {tagIndexNames : List String} {m : TagMap} {gs before after : List EntryGroup}
  {tag : String} {entries : List (Int × String)}

theorem groupEntries_eq_ok_iff {start : List EntryGroup} :
    TagMap.groupEntries start tagIndexNames = .ok gs ↔
      (∀ entry ∈ tagIndexNames, ∃ parsed, parseTagIndexName entry = .ok parsed) ∧
        gs = ((declared tagIndexNames).map entryOf).foldl (fun gs p => add p.1 p.2 gs) start := by
  induction tagIndexNames generalizing start with
  | nil =>
      simp only [TagMap.groupEntries, List.foldlM_nil, declared, List.filterMap_nil,
        List.map_nil, List.foldl_nil]
      constructor
      · intro hPure
        exact ⟨by simp, (Except.ok.inj hPure).symm⟩
      · rintro ⟨_, rfl⟩
        rfl
  | cons entry rest ih =>
      unfold TagMap.groupEntries at *
      rw [List.foldlM_cons]
      cases hParse : parseTagIndexName entry with
      | error status =>
          constructor
          · intro hFail
            cases hFail
          · rintro ⟨hAll, _⟩
            obtain ⟨parsed, hOk⟩ := hAll entry List.mem_cons_self
            rw [hParse] at hOk
            cases hOk
      | ok parsed =>
          have hDeclared : declared (entry :: rest) = parsed :: declared rest := by
            simp [declared, hParse, Except.toOption]
          rw [hDeclared, List.map_cons, List.foldl_cons]
          refine Iff.trans ih (and_congr_left ?_)
          intro _
          rw [List.forall_mem_cons]
          exact (and_iff_right ⟨parsed, hParse⟩).symm

theorem create_eq_ok_iff :
    TagMap.create tagIndexNames = .ok m ↔
      (∀ entry ∈ tagIndexNames, ∃ parsed, parseTagIndexName entry = .ok parsed) ∧
        m = (group ((declared tagIndexNames).map entryOf)).foldl TagMap.layoutGroup {} := by
  unfold TagMap.create
  constructor
  · intro hCreate
    cases hGroups : TagMap.groupEntries [] tagIndexNames with
    | error status =>
        rw [hGroups] at hCreate
        cases hCreate
    | ok gs =>
        rw [hGroups] at hCreate
        obtain ⟨hParsed, rfl⟩ := groupEntries_eq_ok_iff.mp hGroups
        exact ⟨hParsed, (Except.ok.inj hCreate).symm⟩
  · rintro ⟨hParsed, rfl⟩
    rw [groupEntries_eq_ok_iff.mpr ⟨hParsed, rfl⟩]
    rfl

theorem length_declared
    (hParsed : ∀ entry ∈ tagIndexNames, ∃ parsed, parseTagIndexName entry = .ok parsed) :
    (declared tagIndexNames).length = tagIndexNames.length := by
  induction tagIndexNames with
  | nil => rfl
  | cons entry rest ih =>
      obtain ⟨parsed, hParse⟩ := hParsed entry List.mem_cons_self
      have hDeclared : declared (entry :: rest) = parsed :: declared rest := by
        simp [declared, hParse, Except.toOption]
      rw [hDeclared, List.length_cons, List.length_cons,
        ih fun e hMem => hParsed e (List.mem_cons_of_mem _ hMem)]

theorem mem_declared {parsed : TagIndexName} :
    parsed ∈ declared tagIndexNames ↔
      ∃ entry ∈ tagIndexNames, parseTagIndexName entry = .ok parsed := by
  simp only [declared, List.mem_filterMap]
  refine exists_congr fun entry => and_congr_right fun _ => ?_
  cases parseTagIndexName entry <;> simp [Except.toOption]

theorem mem_entriesOf {index : Int} {name : String} :
    (index, name) ∈ entriesOf tagIndexNames tag ↔
      ∃ entry ∈ tagIndexNames, parseTagIndexName entry = .ok ⟨tag, index, name⟩ := by
  rw [← mem_declared, entriesOf, values]
  simp only [List.mem_map, List.mem_filter, decide_eq_true_eq]
  constructor
  · rintro ⟨_, ⟨⟨parsed, hMem, rfl⟩, rfl⟩, hEntry⟩
    obtain ⟨rfl, rfl⟩ := Prod.mk.inj hEntry
    exact hMem
  · intro hMem
    exact ⟨_, ⟨⟨_, hMem, rfl⟩, rfl⟩, rfl⟩

/-! ## The layout of sorted groups -/

theorem length_sortEntries : (TagMap.sortEntries entries).length = entries.length :=
  List.length_insertionSort entryLe entries

theorem sortEntries_perm : (TagMap.sortEntries entries).Perm entries :=
  List.perm_insertionSort entryLe entries

/-- The names of the groups, as they are stored. -/
def storedGroups (gs : List EntryGroup) : List (String × List String) :=
  gs.map fun g => (g.1, (TagMap.sortEntries g.2).map Prod.snd)

theorem total_storedGroups : total (storedGroups gs) = total gs := by
  unfold total storedGroups
  rw [List.map_map]
  refine congrArg List.sum (List.map_congr_left ?_)
  intro g _
  simp [length_sortEntries]

/-- What the second loop has built from the groups. -/
structure LaidOut (gs : List EntryGroup) (m : TagMap) : Prop where
  numEntries : m.numEntries = wrap32 (total gs)
  names : m.names = (storedGroups gs).flatMap Prod.snd
  tagOrder : m.tagOrder = gs.map Prod.fst
  found : ∀ before tag entries after, gs = before ++ (tag, entries) :: after →
    m.mapping[tag]? = some ⟨wrap32 (total before), wrap32 entries.length⟩
  missing : ∀ tag, tag ∉ gs.map Prod.fst → m.mapping[tag]? = none

theorem wrap32_wrap32_add (x y : Int) : wrap32 (wrap32 x + y) = wrap32 (x + y) := by
  unfold wrap32
  omega

/-- **Step lemma**: a group of a new tag goes behind the others. -/
theorem LaidOut.layoutGroup {g : EntryGroup} (hLaid : LaidOut gs m)
    (hNodup : ((gs ++ [g]).map Prod.fst).Nodup) : LaidOut (gs ++ [g]) (m.layoutGroup g) := by
  rw [List.map_append, List.map_singleton, List.nodup_append] at hNodup
  obtain ⟨_, _, hDisjoint⟩ := hNodup
  have hNew : ∀ tag ∈ gs.map Prod.fst, g.1 ≠ tag :=
    fun tag hMem => Ne.symm (hDisjoint tag hMem g.1 (List.mem_singleton.mpr rfl))
  refine ⟨?_, ?_, ?_, ?_, ?_⟩
  · show wrap32 (m.numEntries + (TagMap.sortEntries g.2).length) = _
    rw [hLaid.numEntries, wrap32_wrap32_add, length_sortEntries, total_append, total_cons]
    simp [total]
  · show m.names ++ (TagMap.sortEntries g.2).map Prod.snd = _
    rw [hLaid.names]
    simp [storedGroups]
  · show m.tagOrder ++ [g.1] = _
    rw [hLaid.tagOrder, List.map_append, List.map_singleton]
  · intro before tag entries after hSplit
    show (m.mapping.insert g.1 _)[tag]? = _
    rcases List.eq_nil_or_concat after with rfl | ⟨initial, last, rfl⟩
    · obtain ⟨rfl, rfl⟩ := List.append_inj' hSplit rfl |>.imp_right List.singleton_inj.mp
      rw [OrderedMap.getElem?_insert_self, hLaid.numEntries, length_sortEntries]
    · have hRest : gs ++ [g] = (before ++ (tag, entries) :: initial) ++ [last] := by
        rw [hSplit, List.concat_eq_append]
        simp
      obtain ⟨hGroups, _⟩ := List.append_inj' hRest rfl
      have hMem : tag ∈ gs.map Prod.fst := by simp [hGroups]
      rw [OrderedMap.getElem?_insert_of_ne (hNew tag hMem)]
      exact hLaid.found before tag entries initial hGroups
  · intro tag hMissing
    rw [List.map_append, List.mem_append, not_or] at hMissing
    show (m.mapping.insert g.1 _)[tag]? = _
    have hNe : g.1 ≠ tag := fun hEq => hMissing.2 (by simp [hEq])
    rw [OrderedMap.getElem?_insert_of_ne hNe]
    exact hLaid.missing tag hMissing.1

/-- **The whole loop**. -/
theorem laidOut_foldl (hNodup : (gs.map Prod.fst).Nodup) :
    LaidOut gs (gs.foldl TagMap.layoutGroup {}) := by
  induction gs using List.reverseRecOn with
  | nil =>
      refine ⟨rfl, rfl, rfl, ?_, ?_⟩
      · intro before tag entries after hSplit
        simp at hSplit
      · intro tag _
        simp
  | append_singleton gs g ih =>
      rw [List.foldl_append]
      have hGroups : (gs.map Prod.fst).Nodup := by
        rw [List.map_append] at hNodup
        exact hNodup.of_append_left
      exact (ih hGroups).layoutGroup hNodup

/-! ## Ids -/

/-- A map that `Create` has made from a list which fits in `int`, with its groups. -/
structure Created (tagIndexNames : List String) (gs : List EntryGroup) (m : TagMap) : Prop where
  parsed : ∀ entry ∈ tagIndexNames, ∃ parsed, parseTagIndexName entry = .ok parsed
  keys : (gs.map Prod.fst).Nodup
  mem : ∀ tag entries, (tag, entries) ∈ gs ↔
    entries = entriesOf tagIndexNames tag ∧ entries ≠ []
  total : total gs = tagIndexNames.length
  fits : (tagIndexNames.length : Int) ≤ int32Max
  laidOut : LaidOut gs m

theorem created_of_create (hCreate : TagMap.create tagIndexNames = .ok m)
    (hFits : (tagIndexNames.length : Int) ≤ int32Max) :
    ∃ gs, Created tagIndexNames gs m := by
  obtain ⟨hParsed, rfl⟩ := create_eq_ok_iff.mp hCreate
  have hTotal : total (group ((declared tagIndexNames).map entryOf)) = tagIndexNames.length := by
    rw [total_group, List.length_map, length_declared hParsed]
  exact ⟨_, hParsed, nodup_keys_group _, fun tag entries => mem_group, hTotal, hFits,
    laidOut_foldl (nodup_keys_group _)⟩

theorem wrap32_of_fits {n : Nat} (hFits : (n : Int) ≤ int32Max) : wrap32 n = n := by
  unfold wrap32 int32Max at *
  omega

section

variable (hCreated : Created tagIndexNames gs m)
include hCreated

theorem Created.total_le (hSplit : gs = before ++ (tag, entries) :: after) :
    (Grouping.total before : Int) + entries.length ≤ int32Max := by
  have hTotal : Grouping.total gs = tagIndexNames.length := hCreated.total
  have hFits := hCreated.fits
  rw [hSplit, total_append, total_cons] at hTotal
  dsimp only at hTotal
  omega

theorem Created.mapping_eq (hSplit : gs = before ++ (tag, entries) :: after) :
    m.mapping[tag]? = some ⟨Grouping.total before, entries.length⟩ := by
  have hLe := hCreated.total_le hSplit
  rw [hCreated.laidOut.found before tag entries after hSplit, wrap32_of_fits (by omega),
    wrap32_of_fits (by omega)]

/-- A tag has a group, with everything declared with it, or nothing at all. -/
theorem Created.split_or_missing (tag : String) :
    (∃ before after, gs = before ++ (tag, entriesOf tagIndexNames tag) :: after) ∨
      (entriesOf tagIndexNames tag = [] ∧ m.mapping[tag]? = none) := by
  by_cases hNone : entriesOf tagIndexNames tag = []
  · right
    refine ⟨hNone, hCreated.laidOut.missing tag ?_⟩
    intro hMem
    obtain ⟨⟨tag', entries⟩, hIn, rfl⟩ := List.mem_map.mp hMem
    obtain ⟨hEntries, hSome⟩ := (hCreated.mem tag' entries).mp hIn
    exact hSome (hEntries.trans hNone)
  · left
    exact List.append_of_mem ((hCreated.mem tag _).mpr ⟨rfl, hNone⟩)

theorem Created.numEntriesOf_eq (tag : String) :
    m.numEntriesOf tag = (entriesOf tagIndexNames tag).length := by
  rcases hCreated.split_or_missing tag with ⟨before, after, hSplit⟩ | ⟨hNone, hMissing⟩
  · rw [TagMap.numEntriesOf, hCreated.mapping_eq hSplit]
  · rw [TagMap.numEntriesOf, hMissing, hNone]
    rfl

/-- `HasTag` and `GetTags` know the tags something was declared with. -/
theorem Created.hasTag_iff (tag : String) :
    m.hasTag tag = true ↔ entriesOf tagIndexNames tag ≠ [] := by
  rw [TagMap.hasTag, ← Std.TreeMap.mem_iff_contains, Std.TreeMap.mem_iff_isSome_getElem?]
  rcases hCreated.split_or_missing tag with ⟨before, after, hSplit⟩ | ⟨hNone, hMissing⟩
  · have hMem : (tag, entriesOf tagIndexNames tag) ∈ gs := by simp [hSplit]
    rw [hCreated.mapping_eq hSplit]
    exact iff_of_true rfl ((hCreated.mem tag _).mp hMem).2
  · rw [hMissing]
    exact iff_of_false (by simp) (not_not.mpr hNone)

theorem Created.mem_getTags (tag : String) :
    tag ∈ m.getTags ↔ entriesOf tagIndexNames tag ≠ [] := by
  rw [← hCreated.hasTag_iff tag, TagMap.getTags, Std.TreeMap.mem_keys, TagMap.hasTag,
    Std.TreeMap.mem_iff_contains]

/-- Within the group, an id is the start of the group and the index. -/
theorem Created.getId_eq {i : Nat} (hSplit : gs = before ++ (tag, entries) :: after)
    (hIndex : i < entries.length) : m.getId tag i = (Grouping.total before + i : Nat) := by
  have hLe := hCreated.total_le hSplit
  rw [TagMap.getId, hCreated.mapping_eq hSplit]
  dsimp only
  rw [if_neg (by omega), ← Nat.cast_add, wrap32_of_fits (by push_cast; omega)]

/-- Outside of it there is none. -/
theorem Created.getId_out {index : Int}
    (hOut : index < 0 ∨ (entriesOf tagIndexNames tag).length ≤ index) :
    m.getId tag index = -1 := by
  rcases hCreated.split_or_missing tag with ⟨before, after, hSplit⟩ | ⟨_, hMissing⟩
  · rw [TagMap.getId, hCreated.mapping_eq hSplit]
    exact if_pos hOut
  · rw [TagMap.getId, hMissing]

/-- The name at an id is that of the entry at the place in the sorted group. -/
theorem Created.names_eq {i : Nat} (hSplit : gs = before ++ (tag, entries) :: after)
    (hIndex : i < entries.length) :
    m.names[Grouping.total before + i]? = (TagMap.sortEntries entries)[i]?.map Prod.snd := by
  have hStored : storedGroups gs = storedGroups before ++
      (tag, (TagMap.sortEntries entries).map Prod.snd) :: storedGroups after := by
    simp [storedGroups, hSplit]
  have hPlace : i < ((TagMap.sortEntries entries).map Prod.snd).length := by
    rwa [List.length_map, length_sortEntries]
  have hTotal : Grouping.total (storedGroups before) = Grouping.total before :=
    total_storedGroups
  rw [hCreated.laidOut.names, hStored, ← hTotal, getElem?_place hPlace, List.getElem?_map]

theorem Created.exists_split {index : Int} (hLo : 0 ≤ index)
    (hHi : index < m.numEntriesOf tag) :
    ∃ before after i, gs = before ++ (tag, entriesOf tagIndexNames tag) :: after ∧
      i < (entriesOf tagIndexNames tag).length ∧ index = (i : Nat) := by
  rw [hCreated.numEntriesOf_eq] at hHi
  rcases hCreated.split_or_missing tag with ⟨before, after, hSplit⟩ | ⟨hNone, _⟩
  · exact ⟨before, after, index.toNat, hSplit, by omega, by omega⟩
  · rw [hNone] at hHi
    exact absurd hHi (by simpa using hLo)

theorem Created.bijective :
    Set.BijOn (fun p : String × Int => m.getId p.1 p.2)
      {p | 0 ≤ p.2 ∧ p.2 < m.numEntriesOf p.1} (Set.Ico 0 m.numEntries) := by
  have hTotal : m.numEntries = (Grouping.total gs : Nat) := by
    rw [hCreated.laidOut.numEntries, hCreated.total, wrap32_of_fits hCreated.fits]
  refine ⟨?_, ?_, ?_⟩
  · rintro ⟨tag, index⟩ ⟨hLo, hHi⟩
    obtain ⟨before, after, i, hSplit, hIndex, rfl⟩ := hCreated.exists_split hLo hHi
    show m.getId tag i ∈ Set.Ico 0 m.numEntries
    rw [hCreated.getId_eq hSplit hIndex, hTotal, hSplit, total_append, total_cons, Set.mem_Ico]
    dsimp only at hIndex ⊢
    omega
  · rintro ⟨tag, index⟩ ⟨hLo, hHi⟩ ⟨tag', index'⟩ ⟨hLo', hHi'⟩ hSame
    obtain ⟨before, after, i, hSplit, hIndex, rfl⟩ := hCreated.exists_split hLo hHi
    obtain ⟨before', after', i', hSplit', hIndex', rfl⟩ := hCreated.exists_split hLo' hHi'
    have hIds : m.getId tag i = m.getId tag' i' := hSame
    rw [hCreated.getId_eq hSplit hIndex, hCreated.getId_eq hSplit' hIndex'] at hIds
    obtain ⟨_, rfl, rfl⟩ := place_unique (hSplit.symm.trans hSplit') hIndex hIndex'
      (Int.ofNat_inj.mp hIds)
    rfl
  · intro id hId
    rw [hTotal, Set.mem_Ico] at hId
    obtain ⟨before, tag, entries, after, i, hSplit, hIndex, hPlace⟩ :=
      exists_place (show id.toNat < Grouping.total gs by omega)
    have hMem : (tag, entries) ∈ gs := by simp [hSplit]
    obtain ⟨rfl, _⟩ := (hCreated.mem tag entries).mp hMem
    refine ⟨(tag, i), ⟨Int.natCast_nonneg i, ?_⟩, ?_⟩
    · rw [hCreated.numEntriesOf_eq]
      exact Int.ofNat_lt.mpr hIndex
    · show m.getId tag i = id
      rw [hCreated.getId_eq hSplit hIndex, ← hPlace]
      omega

theorem Created.stored (tag : String) :
    (storedNames m tag).Perm ((entriesOf tagIndexNames tag).map fun e => some e.2) := by
  have hNames : storedNames m tag =
      (TagMap.sortEntries (entriesOf tagIndexNames tag)).map fun e => some e.2 := by
    refine List.ext_getElem ?_ ?_
    · simp [storedNames, hCreated.numEntriesOf_eq, length_sortEntries]
    · intro i hLeft hRight
      rw [List.length_map, length_sortEntries] at hRight
      obtain ⟨before, after, hSplit⟩ := (hCreated.split_or_missing tag).resolve_right
        (by rintro ⟨hNone, _⟩; simp [hNone] at hRight)
      have hSorted : i < (TagMap.sortEntries (entriesOf tagIndexNames tag)).length := by
        rwa [length_sortEntries]
      simp only [storedNames, List.getElem_map, List.getElem_range]
      rw [hCreated.getId_eq hSplit hRight, Int.toNat_natCast, hCreated.names_eq hSplit hRight,
        List.getElem?_eq_getElem hSorted]
      rfl
  rw [hNames]
  exact sortEntries_perm.map _

end

/-- **Tag ids** of a map made from at most `INT_MAX` names. -/
theorem tagIds_regular (hCreate : TagMap.create tagIndexNames = .ok m)
    (hFits : (tagIndexNames.length : Int) ≤ int32Max) : IdsRegular tagIndexNames m := by
  obtain ⟨gs, hCreated⟩ := created_of_create hCreate hFits
  refine ⟨?_, ?_, hCreated.bijective, ?_, hCreated.stored⟩
  · rw [hCreated.laidOut.numEntries, hCreated.total, wrap32_of_fits hFits]
  · rw [hCreated.laidOut.names, ← total_eq_length, total_storedGroups, hCreated.total]
  · intro tag index hLo hHi
    obtain ⟨before, after, i, hSplit, hIndex, rfl⟩ := hCreated.exists_split hLo hHi
    have hStart : m.getId tag (0 : Nat) = (total before + 0 : Nat) :=
      hCreated.getId_eq hSplit (by omega)
    rw [hCreated.getId_eq hSplit hIndex, ← Int.ofNat_zero, hStart]
    push_cast
    omega

theorem exists_create (tagIndexNames : List String)
    (hParsed : ∀ entry ∈ tagIndexNames, (parseTagIndexName entry).isOk = true) :
    ∃ m, TagMap.create tagIndexNames = .ok m := by
  refine ⟨_, create_eq_ok_iff.mpr ⟨?_, rfl⟩⟩
  intro entry hMem
  have hOk := hParsed entry hMem
  cases hParse : parseTagIndexName entry with
  | error status => simp [hParse, Except.isOk, Except.toBool] at hOk
  | ok parsed => exact ⟨parsed, rfl⟩

theorem tagIds_regular_three :
    ∃ m, TagMap.create ["VIDEO:1:right", "AUDIO:0", "VIDEO:0:left"] = .ok m ∧
      IdsRegular ["VIDEO:1:right", "AUDIO:0", "VIDEO:0:left"] m := by
  obtain ⟨m, hCreate⟩ := exists_create ["VIDEO:1:right", "AUDIO:0", "VIDEO:0:left"]
    (by decide +kernel)
  exact ⟨m, hCreate, tagIds_regular hCreate (by decide)⟩

/-- However long the list is, the count is narrowed to `int`. -/
theorem numEntries_eq_wrap32 (hCreate : TagMap.create tagIndexNames = .ok m) :
    m.numEntries = wrap32 tagIndexNames.length := by
  obtain ⟨hParsed, rfl⟩ := create_eq_ok_iff.mp hCreate
  rw [(laidOut_foldl (nodup_keys_group _)).numEntries, total_group, List.length_map,
    length_declared hParsed]

theorem exists_create_of_length (n : Nat) :
    ∃ tagIndexNames : List String, tagIndexNames.length = n ∧
      ∃ m, TagMap.create tagIndexNames = .ok m := by
  refine ⟨List.replicate n "a", List.length_replicate, exists_create _ ?_⟩
  intro entry hMem
  rw [List.eq_of_mem_replicate hMem]
  decide +kernel

/-- With 2^31 names the count is negative. -/
theorem numEntries_overflows :
    ¬ ∀ tagIndexNames m, TagMap.create tagIndexNames = .ok m → IdsRegular tagIndexNames m := by
  intro hAll
  obtain ⟨tagIndexNames, hLength, m, hCreate⟩ := exists_create_of_length (2 ^ 31)
  have hCount := (hAll tagIndexNames m hCreate).numEntries
  rw [numEntries_eq_wrap32 hCreate, hLength] at hCount
  exact absurd hCount (by decide)

/-! ## Lookup by the declared index -/

theorem entryLe_fst {a b : Int × String} (hLe : entryLe a b) : a.1 ≤ b.1 := by
  rcases hLe with hLt | ⟨hEq, _⟩
  · exact hLt.le
  · exact hEq.le

instance : Std.Total entryLe where
  total a b := by
    unfold entryLe
    rcases lt_trichotomy a.1 b.1 with hLt | hEq | hGt
    · exact Or.inl (Or.inl hLt)
    · rcases le_total a.2 b.2 with hLe | hGe
      · exact Or.inl (Or.inr ⟨hEq, hLe⟩)
      · exact Or.inr (Or.inr ⟨hEq.symm, hGe⟩)
    · exact Or.inr (Or.inl hGt)

instance : IsTrans (Int × String) entryLe where
  trans a b c hAB hBC := by
    unfold entryLe at *
    rcases hAB with hLt | ⟨hEq, hLe⟩
    · rcases hBC with hLt' | ⟨hEq', _⟩
      · exact Or.inl (hLt.trans hLt')
      · exact Or.inl (hLt.trans_eq hEq')
    · rcases hBC with hLt' | ⟨hEq', hLe'⟩
      · exact Or.inl (hEq.trans_lt hLt')
      · exact Or.inr ⟨hEq.trans hEq', hLe.trans hLe'⟩

/-- Dense indices are in place after sorting. -/
theorem sortEntries_dense
    (hDense : (entries.map Prod.fst).Perm ((List.range entries.length).map Int.ofNat)) :
    (TagMap.sortEntries entries).map Prod.fst = (List.range entries.length).map Int.ofNat := by
  have hPerm : ((TagMap.sortEntries entries).map Prod.fst).Perm
      ((List.range entries.length).map Int.ofNat) :=
    (sortEntries_perm.map Prod.fst).trans hDense
  refine hPerm.eq_of_pairwise' (r := (· ≤ ·)) ?_ ?_
  · rw [List.pairwise_map]
    exact (List.pairwise_insertionSort entryLe entries).imp entryLe_fst
  · rw [List.pairwise_map]
    exact List.pairwise_le_range.imp Int.ofNat_le.mpr

/-- Where the declared indices cover the positions, each has one. -/
theorem dense_of_cover (hCover : ∀ i < entries.length, (i : Int) ∈ entries.map Prod.fst) :
    (entries.map Prod.fst).Perm ((List.range entries.length).map Int.ofNat) := by
  have hNodup : ((List.range entries.length).map Int.ofNat).Nodup :=
    List.nodup_range.map Int.ofNat_injective
  have hSubset : (List.range entries.length).map Int.ofNat ⊆ entries.map Prod.fst := by
    intro index hMem
    obtain ⟨i, hIndex, rfl⟩ := List.mem_map.mp hMem
    exact hCover i (List.mem_range.mp hIndex)
  exact ((hNodup.subperm hSubset).perm_of_length_le (by simp)).symm

/-- Where lookup finds what was declared, a declared text leads to its name. -/
theorem FindsDeclared.getIdOf (hFinds : FindsDeclared tagIndexNames m) {entry : String}
    {parsed : TagIndexName} (hMem : entry ∈ tagIndexNames)
    (hParse : parseTagIndexName entry = .ok parsed) (hTag : parsed.tag ≠ "") :
    m.names[(m.getIdOf entry).toNat]? = some parsed.name := by
  have hNotEmpty : parsed.tag.isEmpty = false := by
    rw [Bool.eq_false_iff, ne_eq, String.isEmpty_iff]
    exact hTag
  rw [TagMap.getIdOf, hParse]
  simp only [hNotEmpty, Bool.false_eq_true, if_false]
  exact (hFinds.found entry hMem parsed hParse hTag).2

/-- **Tag lookup** of a map made from at most `INT_MAX` names finds what was declared
exactly when the indices of each tag are dense. -/
theorem tagLookup_iff (hCreate : TagMap.create tagIndexNames = .ok m)
    (hFits : (tagIndexNames.length : Int) ≤ int32Max) :
    FindsDeclared tagIndexNames m ↔ Dense tagIndexNames := by
  obtain ⟨gs, hCreated⟩ := created_of_create hCreate hFits
  constructor
  · intro hFinds tag
    refine dense_of_cover ?_
    intro i hIndex
    by_contra hAbsent
    obtain ⟨before, after, hSplit⟩ := (hCreated.split_or_missing tag).resolve_right
      (by rintro ⟨hNone, _⟩; simp [hNone] at hIndex)
    have hMissing : m.getId tag i = -1 := by
      refine hFinds.undeclared tag i ?_
      rintro entry hMem ⟨tag', index, name⟩ hParse ⟨rfl, rfl⟩
      exact hAbsent (List.mem_map.mpr ⟨_, mem_entriesOf.mpr ⟨entry, hMem, hParse⟩, rfl⟩)
    rw [hCreated.getId_eq hSplit hIndex] at hMissing
    omega
  · intro hDense
    refine ⟨?_, ?_⟩
    · rintro entry hMem ⟨tag, index, name⟩ hParse _
      have hEntry : (index, name) ∈ entriesOf tagIndexNames tag :=
        mem_entriesOf.mpr ⟨entry, hMem, hParse⟩
      have hSorted := sortEntries_dense (hDense tag)
      obtain ⟨i, hIndex, hAt⟩ := List.mem_iff_getElem.mp (sortEntries_perm.mem_iff.mpr hEntry)
      have hFirst : index = (i : Int) := by
        have hPlace : ((TagMap.sortEntries (entriesOf tagIndexNames tag)).map Prod.fst)[i]? =
            some index := by
          rw [List.getElem?_map, List.getElem?_eq_getElem hIndex, hAt]
          rfl
        rw [length_sortEntries] at hIndex
        simpa [hSorted, hIndex] using hPlace.symm
      have hInside := hIndex
      rw [length_sortEntries] at hInside
      obtain ⟨before, after, hSplit⟩ := (hCreated.split_or_missing tag).resolve_right
        (by rintro ⟨hNone, _⟩; simp [hNone] at hEntry)
      subst hFirst
      dsimp only
      rw [hCreated.getId_eq hSplit hInside, Int.toNat_natCast, hCreated.names_eq hSplit hInside,
        List.getElem?_eq_getElem hIndex, hAt]
      exact ⟨Int.natCast_nonneg _, rfl⟩
    · intro tag index hUndeclared
      refine hCreated.getId_out ?_
      by_contra hInside
      have hRange : index ∈ (List.range (entriesOf tagIndexNames tag).length).map Int.ofNat :=
        List.mem_map.mpr ⟨index.toNat, List.mem_range.mpr (by omega),
          Int.toNat_of_nonneg (by omega)⟩
      obtain ⟨⟨index', name⟩, hEntry, rfl⟩ :=
        List.mem_map.mp ((hDense tag).mem_iff.mpr hRange)
      obtain ⟨entry, hMem, hParse⟩ := mem_entriesOf.mp hEntry
      exact hUndeclared entry hMem _ hParse ⟨rfl, rfl⟩

/-- The indices are declared out of order. -/
theorem dense_two : Dense ["VIDEO:1:right", "VIDEO:0:left"] := by
  have hDeclared : (declared ["VIDEO:1:right", "VIDEO:0:left"]).map entryOf =
      [("VIDEO", 1, "right"), ("VIDEO", 0, "left")] := by decide +kernel
  intro tag
  by_cases hTag : tag = "VIDEO"
  · subst hTag
    decide +kernel
  · have hNone : entriesOf ["VIDEO:1:right", "VIDEO:0:left"] tag = [] := by
      simp [entriesOf, hDeclared, values, Ne.symm hTag]
    rw [hNone]
    exact .refl _

theorem tagLookup_two :
    ∃ m, TagMap.create ["VIDEO:1:right", "VIDEO:0:left"] = .ok m ∧
      m.names[(m.getId "VIDEO" 1).toNat]? = some "right" ∧
      m.names[(m.getId "VIDEO" 0).toNat]? = some "left" ∧ m.getId "VIDEO" 2 = -1 := by
  obtain ⟨m, hCreate⟩ := exists_create ["VIDEO:1:right", "VIDEO:0:left"] (by decide +kernel)
  have hFinds := (tagLookup_iff hCreate (by decide)).mpr dense_two
  have hRight : parseTagIndexName "VIDEO:1:right" = .ok ⟨"VIDEO", 1, "right"⟩ := by decide +kernel
  have hLeft : parseTagIndexName "VIDEO:0:left" = .ok ⟨"VIDEO", 0, "left"⟩ := by decide +kernel
  refine ⟨m, hCreate, (hFinds.found _ (by simp) _ hRight (by decide)).2,
    (hFinds.found _ (by simp) _ hLeft (by decide)).2, hFinds.undeclared "VIDEO" 2 ?_⟩
  intro entry hMem parsed hParse
  rcases List.mem_pair.mp hMem with rfl | rfl
  · rw [hRight] at hParse
    cases hParse
    decide
  · rw [hLeft] at hParse
    cases hParse
    decide

/-- The only entry has index 1, and the map finds it at index 0 alone. -/
theorem tagLookup_gap :
    ¬ ∀ m, TagMap.create ["VIDEO:1:right"] = .ok m → FindsDeclared ["VIDEO:1:right"] m := by
  intro hAll
  obtain ⟨m, hCreate⟩ := exists_create ["VIDEO:1:right"] (by decide +kernel)
  obtain ⟨gs, hCreated⟩ := created_of_create hCreate (by decide)
  have hParse : parseTagIndexName "VIDEO:1:right" = .ok ⟨"VIDEO", 1, "right"⟩ := by
    decide +kernel
  have hFound := ((hAll m hCreate).found _ List.mem_cons_self _ hParse (by decide)).1
  have hCount : (entriesOf ["VIDEO:1:right"] "VIDEO").length = 1 := by decide +kernel
  rw [hCreated.getId_out (Or.inr (by rw [hCount]; rfl))] at hFound
  exact absurd hFound (by decide)

end

end GraphRuntime.Tool
