import GraphRuntime.Config.ConfigValidator
import GraphRuntime.Lib.Strtol
import GraphRuntime.Profiler.TimeHistogram

/-!
# `ParseTagIndexName`

A text is a `String` with one character for each byte; `long` has 64 bits.  The index is
read by `strtol` from the C string of its part, so blanks, a sign and whatever stands
behind a NUL are accepted, and the value is saturated at `long` and then narrowed to
`int`.

`Denotes` is the grammar of the header and the tests.  `parseTagIndexName_iff` says for
which texts the function does what the grammar says: `Lenient` is what `strtol` takes
beyond it.
-/

namespace GraphRuntime.Tool

open GraphRuntime.Config GraphRuntime.Profiler CText
open GraphRuntime.Stream (int64Min int64Max)

structure TagIndexName where
  tag : String
  index : Int
  name : String
deriving DecidableEq

/-- The conversion of an index, `static_cast<int>` of what `strtol` returns.  The branches
for two and three parts have it each. -/
def parseIndex (input : String) (part : List Char) : Except Status Int :=
  let (idx, rest) := strtol int64Min int64Max (cString part)
  if rest ≠ [] ∨ part = [] then
    .error (invalidArgumentError ("invalid index in '" ++ input ++ "': '" ++
      String.ofList part ++ "' is not an integer"))
  else .ok (wrap32 idx)

def parseTagIndexName (input : String) : Except Status TagIndexName :=
  match input.toList.splitOn ':' with
  | [name] => .ok ⟨"", -1, String.ofList name⟩
  | [tag, index] => do
      let idx ← parseIndex input index
      return ⟨String.ofList tag, idx, ""⟩
  | [tag, index, name] => do
      let idx ← parseIndex input index
      return ⟨String.ofList tag, idx, String.ofList name⟩
  | _ => .error (invalidArgumentError ("invalid format '" ++ input ++
      "': expected TAG:index, TAG:index:name, or name"))

/-! ## The grammar -/

/-- An index: digits that denote a number which fits in `int`. -/
def IsIndex (part : List Char) : Prop := IsDigits part ∧ (decimal part : Int) ≤ int32Max

/-- A name, `TAG:index` or `TAG:index:name`, with what it denotes. -/
inductive Denotes : List Char → TagIndexName → Prop
  | name {name : List Char} : ':' ∉ name → Denotes name ⟨"", -1, String.ofList name⟩
  | indexed {tag index : List Char} : ':' ∉ tag → IsIndex index →
      Denotes (tag ++ ':' :: index) ⟨String.ofList tag, decimal index, ""⟩
  | named {tag index name : List Char} : ':' ∉ tag → IsIndex index → ':' ∉ name →
      Denotes (tag ++ ':' :: index ++ ':' :: name)
        ⟨String.ofList tag, decimal index, String.ofList name⟩

/-- What is accepted is in the grammar, with the value it denotes there, and what is
rejected is not, with an `InvalidArgument`. -/
def AgreesWithGrammar (input : String) : Except Status TagIndexName → Prop
  | .ok result => Denotes input.toList result
  | .error status => status.code = .invalidArgument ∧ ∀ result, ¬ Denotes input.toList result

/-- The part of a text that is read as an index. -/
def indexPart (input : String) : Option (List Char) :=
  match input.toList.splitOn ':' with
  | [_, index] | [_, index, _] => some index
  | _ => none

/-- What `strtol` takes for a number beyond the grammar: a text that starts with a NUL, and
digits with blanks or a sign before them, a NUL behind them, or a value beyond `int`. -/
def Lenient (part : List Char) : Prop :=
  part.head? = some '\x00' ∨
    ∃ blanks sign ds rest, part = blanks ++ (Sign.text sign ++ ds) ++ rest ∧
      (∀ c ∈ blanks, isBlank c = true) ∧ IsDigits ds ∧
      (rest = [] ∨ rest.head? = some '\x00') ∧
      (blanks ≠ [] ∨ sign ≠ .none ∨ rest ≠ [] ∨ int32Max < decimal ds)

/-! ## The index -/

section

variable {input : String} {part : List Char} {i : Int}

theorem not_nul_of_digits (hDigits : ∀ c ∈ part, c.isDigit = true) : '\x00' ∉ part :=
  fun hMem => absurd (hDigits _ hMem) (by decide)

theorem parseIndex_of_isIndex (hIndex : IsIndex part) :
    parseIndex input part = .ok (decimal part) := by
  obtain ⟨hDigits, hFits⟩ := hIndex
  have hString : cString part = part := by
    simpa using cString_append (not_nul_of_digits hDigits.2) (Or.inl rfl)
  have hRead : strtol int64Min int64Max part = (saturate int64Min int64Max (decimal part), []) :=
    @strtol_digits int64Min int64Max [] part .none (by simp) hDigits
  have hValue : wrap32 (saturate int64Min int64Max (decimal part)) = decimal part := by
    unfold saturate wrap32 int64Min int64Max int32Max at *
    omega
  rw [parseIndex, hString, hRead]
  simp [hDigits.1, hValue]

/-- What `strtol` reads to the end of the C string is accepted. -/
theorem parseIndex_of_readToEnd {v : Int} (hNe : part ≠ [])
    (hRead : strtol int64Min int64Max (cString part) = (v, [])) :
    parseIndex input part = .ok (wrap32 v) := by
  simp [parseIndex, hRead, hNe]

theorem parseIndex_eq_ok (hParse : parseIndex input part = .ok i) :
    part ≠ [] ∧ ∃ v, strtol int64Min int64Max (cString part) = (v, []) ∧ i = wrap32 v := by
  simp only [parseIndex] at hParse
  split at hParse
  · simp at hParse
  next hOk =>
    simp only [not_or, not_not] at hOk
    rw [Except.ok.injEq] at hParse
    exact ⟨hOk.2, _, Prod.ext rfl hOk.1, hParse.symm⟩

theorem parseIndex_error {status : Status} (hParse : parseIndex input part = .error status) :
    status.code = .invalidArgument := by
  simp only [parseIndex] at hParse
  split at hParse
  · rw [Except.error.injEq] at hParse
    rw [← hParse]
    rfl
  · simp at hParse

theorem ne_nil_of_lenient (hLenient : Lenient part) : part ≠ [] := by
  rintro rfl
  rcases hLenient with hNul | ⟨blanks, sign, ds, rest, hPart, _, hDigits, _⟩
  · simp at hNul
  · have hNil : ds = [] := by
      have hParts := hPart.symm
      simp only [List.append_eq_nil_iff] at hParts
      exact hParts.1.2.2
    exact hDigits.1 hNil

/-- A lenient index is read to the end of its C string. -/
theorem parseIndex_of_lenient (hLenient : Lenient part) :
    ∃ i, parseIndex input part = .ok i := by
  have hNe := ne_nil_of_lenient hLenient
  rcases hLenient with hNul | ⟨blanks, sign, ds, rest, rfl, hBlanks, hDigits, hRest, _⟩
  · obtain ⟨more, rfl⟩ := List.head?_eq_some_iff.mp hNul
    exact ⟨_, parseIndex_of_readToEnd hNe rfl⟩
  · have hBlankNul : '\x00' ∉ blanks := fun hMem => absurd (hBlanks _ hMem) (by decide)
    have hSignNul : '\x00' ∉ sign.text := by cases sign <;> decide
    have hNoNul : '\x00' ∉ blanks ++ (sign.text ++ ds) := by
      simp only [List.mem_append, not_or]
      exact ⟨hBlankNul, hSignNul, not_nul_of_digits hDigits.2⟩
    have hBehind : rest = [] ∨ ∃ more, rest = '\x00' :: more := by
      rw [← List.head?_eq_some_iff]
      exact hRest
    have hRead : strtol int64Min int64Max (cString (blanks ++ (sign.text ++ ds) ++ rest)) =
        (saturate int64Min int64Max (sign.apply (decimal ds)), []) := by
      rw [cString_append hNoNul hBehind]
      exact strtol_digits hBlanks hDigits
    exact ⟨_, parseIndex_of_readToEnd hNe hRead⟩

/-- It is no index of the grammar. -/
theorem not_isIndex_of_lenient (hLenient : Lenient part) : ¬ IsIndex part := by
  rintro ⟨hDigits, hFits⟩
  rcases hLenient with hNul | ⟨blanks, sign, ds, rest, rfl, hBlanks, _, hRest, hMore⟩
  · exact not_nul_of_digits hDigits.2 (List.mem_of_mem_head? hNul)
  · have hAll : ∀ c, c ∈ blanks ∨ c ∈ sign.text ∨ c ∈ rest → c.isDigit = true := by
      intro c hMem
      refine hDigits.2 c ?_
      simp only [List.mem_append]
      tauto
    have hNoBlank : blanks = [] := by
      refine List.eq_nil_iff_forall_not_mem.mpr ?_
      intro c hMem
      have hNot := isBlank_of_isDigit (hAll c (Or.inl hMem))
      exact absurd (hBlanks c hMem) (by simp [hNot])
    have hNoSign : sign = .none := by
      cases sign with
      | none => rfl
      | plus => exact absurd (hAll '+' (Or.inr (Or.inl List.mem_cons_self))) (by decide)
      | minus => exact absurd (hAll '-' (Or.inr (Or.inl List.mem_cons_self))) (by decide)
    have hNoRest : rest = [] := by
      rcases hRest with hNil | hNul
      · exact hNil
      · have hMem := List.mem_of_mem_head? hNul
        exact absurd (hAll _ (Or.inr (Or.inr hMem))) (by decide)
    subst hNoBlank hNoSign hNoRest
    simp only [Sign.text, List.nil_append, List.append_nil] at hFits hMore
    simp only [ne_eq, not_true_eq_false, false_or] at hMore
    omega

/-- **What is accepted** and not lenient is an index of the grammar, with its value. -/
theorem isIndex_of_parseIndex (hParse : parseIndex input part = .ok i)
    (hLenient : ¬ Lenient part) : IsIndex part ∧ i = decimal part := by
  have hIndex : IsIndex part := by
    obtain ⟨hNe, v, hRead, _⟩ := parseIndex_eq_ok hParse
    obtain ⟨rest, hPart, hRest⟩ := exists_cString part
    have hBehind : rest = [] ∨ rest.head? = some '\x00' := by
      rw [List.head?_eq_some_iff]
      exact hRest
    rcases readToEnd_iff.mp hRead with ⟨hEmpty, _⟩ | ⟨blanks, sign, ds, hForm, hBlanks, hDigits, _⟩
    · rw [hEmpty, List.nil_append] at hPart
      subst hPart
      exact absurd (Or.inl (hBehind.resolve_left hNe)) hLenient
    · rw [hForm] at hPart
      have hStrict : ¬ (blanks ≠ [] ∨ sign ≠ .none ∨ rest ≠ [] ∨ int32Max < decimal ds) :=
        fun hMore => hLenient
          (Or.inr ⟨blanks, sign, ds, rest, hPart, hBlanks, hDigits, hBehind, hMore⟩)
      simp only [not_or, not_not, Int.not_lt] at hStrict
      obtain ⟨rfl, rfl, rfl, hFits⟩ := hStrict
      have hWhole : part = ds := by simpa [Sign.text] using hPart
      exact hWhole ▸ ⟨hDigits, hFits⟩
  refine ⟨hIndex, ?_⟩
  rw [parseIndex_of_isIndex hIndex, Except.ok.injEq] at hParse
  exact hParse.symm

/-! ## The whole text -/

/-- The grammar, read off the parts of the text. -/
theorem denotes_iff {s : List Char} {result : TagIndexName} :
    Denotes s result ↔
      (∃ name, s.splitOn ':' = [name] ∧ result = ⟨"", -1, String.ofList name⟩) ∨
      (∃ tag index, s.splitOn ':' = [tag, index] ∧ IsIndex index ∧
        result = ⟨String.ofList tag, decimal index, ""⟩) ∨
      ∃ tag index name, s.splitOn ':' = [tag, index, name] ∧ IsIndex index ∧
        result = ⟨String.ofList tag, decimal index, String.ofList name⟩ := by
  have hNoColon : ∀ {index : List Char}, IsIndex index → ':' ∉ index :=
    fun hIndex hMem => absurd (hIndex.1.2 _ hMem) (by decide)
  constructor
  · intro hDenotes
    cases hDenotes with
    | name hName => exact Or.inl ⟨_, List.splitOn_eq_singleton hName, rfl⟩
    | @indexed tag index hTag hIndex =>
        refine Or.inr (Or.inl ⟨tag, index, ?_, hIndex, rfl⟩)
        rw [List.splitOn_append_cons_self_of_not_mem hTag,
          List.splitOn_eq_singleton (hNoColon hIndex)]
    | @named tag index name hTag hIndex hName =>
        refine Or.inr (Or.inr ⟨tag, index, name, ?_, hIndex, rfl⟩)
        rw [List.append_assoc, List.cons_append, List.splitOn_append_cons_self_of_not_mem hTag,
          List.splitOn_append_cons_self_of_not_mem (hNoColon hIndex),
          List.splitOn_eq_singleton hName]
  · rintro (⟨name, hSplit, rfl⟩ | ⟨tag, index, hSplit, hIndex, rfl⟩ |
      ⟨tag, index, name, hSplit, hIndex, rfl⟩)
    · obtain ⟨_, hParts, rfl⟩ := splitOn_eq_iff.mp hSplit
      simpa using Denotes.name (hParts name (by simp))
    · obtain ⟨_, hParts, rfl⟩ := splitOn_eq_iff.mp hSplit
      simpa using Denotes.indexed (hParts tag (by simp)) hIndex
    · obtain ⟨_, hParts, rfl⟩ := splitOn_eq_iff.mp hSplit
      simpa using Denotes.named (hParts tag (by simp)) hIndex (hParts name (by simp))

/-- For a text with an index, everything hangs on the index. -/
theorem agrees_index_iff (make : Int → TagIndexName) {s : List Char}
    (hDenotes : ∀ result, Denotes s result ↔ IsIndex part ∧ result = make (decimal part))
    (hInput : input.toList = s) :
    AgreesWithGrammar input ((parseIndex input part).map make) ↔ ¬ Lenient part := by
  subst hInput
  constructor
  · intro hAgrees hLenient
    obtain ⟨i, hParse⟩ := @parseIndex_of_lenient input part hLenient
    rw [hParse] at hAgrees
    exact not_isIndex_of_lenient hLenient ((hDenotes _).mp hAgrees).1
  · intro hStrict
    cases hParse : parseIndex input part with
    | ok i =>
        obtain ⟨hIndex, rfl⟩ := isIndex_of_parseIndex hParse hStrict
        exact (hDenotes _).mpr ⟨hIndex, rfl⟩
    | error status =>
        refine ⟨parseIndex_error hParse, ?_⟩
        intro result hIn
        rw [parseIndex_of_isIndex ((hDenotes _).mp hIn).1] at hParse
        simp at hParse

/-- **The grammar of tags**: the function agrees with it exactly on the texts whose index
part is not lenient. -/
theorem parseTagIndexName_iff (input : String) :
    AgreesWithGrammar input (parseTagIndexName input) ↔
      ∀ part, indexPart input = some part → ¬ Lenient part := by
  unfold parseTagIndexName indexPart
  split
  next name hSplit =>
    simp only [hSplit, reduceCtorEq, false_implies, implies_true, iff_true]
    exact denotes_iff.mpr (Or.inl ⟨name, hSplit, rfl⟩)
  next tag index hSplit =>
    simp only [hSplit, Option.some.injEq, forall_eq']
    refine agrees_index_iff (fun idx => ⟨String.ofList tag, idx, ""⟩) ?_ rfl
    intro result
    rw [denotes_iff, hSplit]
    simp
  next tag index name hSplit =>
    simp only [hSplit, Option.some.injEq, forall_eq']
    refine agrees_index_iff (fun idx => ⟨String.ofList tag, idx, String.ofList name⟩) ?_ rfl
    intro result
    rw [denotes_iff, hSplit]
    simp
  next hName hIndex hNamed =>
    have hOut : ∀ result, ¬ Denotes input.toList result := by
      intro result hIn
      rcases denotes_iff.mp hIn with ⟨name, hSplit, _⟩ | ⟨tag, index, hSplit, _⟩ |
        ⟨tag, index, name, hSplit, _⟩
      · exact hName name hSplit
      · exact hIndex tag index hSplit
      · exact hNamed tag index name hSplit
    refine iff_of_true ⟨rfl, hOut⟩ ?_
    intro part hPart
    split at hPart
    next hSplit => exact (hIndex _ _ hSplit).elim
    next hSplit => exact (hNamed _ _ _ hSplit).elim
    next => exact absurd hPart (by simp)

/-- 2^32 is read as 0. -/
theorem parseTagIndexName_wraps :
    ¬ AgreesWithGrammar "VIDEO:4294967296" (parseTagIndexName "VIDEO:4294967296") := by
  have hParse : parseTagIndexName "VIDEO:4294967296" = .ok ⟨"VIDEO", 0, ""⟩ := by decide +kernel
  rw [hParse]
  intro hAgrees
  have hParts : "VIDEO:4294967296".toList.splitOn ':' =
      ["VIDEO".toList, "4294967296".toList] := by decide +kernel
  rcases denotes_iff.mp hAgrees with ⟨name, hSplit, _⟩ | ⟨tag, index, hSplit, hIndex, _⟩ |
    ⟨tag, index, name, hSplit, _⟩
  · rw [hParts] at hSplit
    simp at hSplit
  · rw [hParts, List.cons.injEq, List.cons.injEq] at hSplit
    obtain ⟨_, rfl, _⟩ := hSplit
    exact absurd hIndex.2 (by decide)
  · rw [hParts] at hSplit
    simp at hSplit

end

end GraphRuntime.Tool
