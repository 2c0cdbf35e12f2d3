import Mathlib.Data.List.TakeWhile
import Mathlib.Order.Defs.LinearOrder

/-!
# Decimal numbers in C strings

`strtol` reads blanks, a sign and digits from the start of a text, saturates at the ends
of its result type, and returns where it stopped; without a digit it stops at the start.
A C string ends at its first NUL (`cString`).  `readToEnd_iff` says which texts `strtol`
reads to their end, and with what value.

`splitOn_eq_iff` describes a text cut at every separator.
-/

namespace CText

/-- `isspace` in the C locale. -/
def isBlank (c : Char) : Bool :=
  c = ' ' || c = '\t' || c = '\n' || c = '\x0b' || c = '\x0c' || c = '\r'

/-- What a C function sees of a text. -/
def cString (s : List Char) : List Char := s.takeWhile fun c => !decide (c = '\x00')

/-- The optional sign. -/
def optionalSign : List Char → Bool × List Char
  | '-' :: rest => (true, rest)
  | '+' :: rest => (false, rest)
  | rest => (false, rest)

def saturate (lo hi x : Int) : Int := max lo (min x hi)

/-- The number a list of digits denotes. -/
def decimal (ds : List Char) : Nat := Nat.ofDigitChars 10 ds 0

/-- `strtol` in base 10 with a result between `lo` and `hi`: the value and the text from
`*end` on. -/
def strtol (lo hi : Int) (s : List Char) : Int × List Char :=
  let (negative, body) := optionalSign (s.dropWhile isBlank)
  let ds := body.takeWhile Char.isDigit
  if ds = [] then (0, s)
  else
    (saturate lo hi (if negative then -(decimal ds : Int) else decimal ds),
      body.dropWhile Char.isDigit)

/-- A sign, as it is written. -/
inductive Sign
  | none
  | plus
  | minus
deriving DecidableEq

def Sign.text : Sign → List Char
  | .none => []
  | .plus => ['+']
  | .minus => ['-']

def Sign.apply : Sign → Nat → Int
  | .minus, n => -(n : Int)
  | _, n => n

/-- Digits, at least one. -/
def IsDigits (ds : List Char) : Prop := ds ≠ [] ∧ ∀ c ∈ ds, c.isDigit = true

instance (ds : List Char) : Decidable (IsDigits ds) :=
  haveI : Decidable (∀ c ∈ ds, c.isDigit = true) := List.decidableBAll _ ds
  inferInstanceAs (Decidable (_ ∧ _))

variable {lo hi v : Int} {s blanks ds rest : List Char} {sign : Sign}

/-! ## `strtol` -/

theorem isBlank_of_isDigit {c : Char} (hDigit : c.isDigit = true) : isBlank c = false := by
  by_contra hBlank
  simp only [isBlank, Bool.not_eq_false, Bool.or_eq_true, decide_eq_true_eq] at hBlank
  rcases hBlank with ((((rfl | rfl) | rfl) | rfl) | rfl) | rfl <;> exact absurd hDigit (by decide)

theorem takeWhile_digits (hDigits : ∀ c ∈ ds, c.isDigit = true) :
    ds.takeWhile Char.isDigit = ds :=
  List.takeWhile_eq_self_iff.mpr hDigits

theorem dropWhile_digits (hDigits : ∀ c ∈ ds, c.isDigit = true) :
    ds.dropWhile Char.isDigit = [] :=
  List.dropWhile_eq_nil_iff.mpr hDigits

/-- A sign in front of digits is read as that sign. -/
theorem optionalSign_text (hDigits : IsDigits ds) :
    optionalSign (sign.text ++ ds) = (decide (sign = .minus), ds) := by
  cases sign with
  | plus => rfl
  | minus => rfl
  | none =>
      obtain ⟨c, rest, rfl⟩ := List.exists_cons_of_ne_nil hDigits.1
      have hDigit : c.isDigit = true := hDigits.2 c List.mem_cons_self
      have hMinus : c ≠ '-' := by
        rintro rfl
        exact absurd hDigit (by decide)
      have hPlus : c ≠ '+' := by
        rintro rfl
        exact absurd hDigit (by decide)
      simp [Sign.text, optionalSign, hMinus, hPlus]

/-- Whatever follows the sign, the sign is in front of it. -/
theorem exists_sign (s : List Char) :
    ∃ sign : Sign, s = sign.text ++ (optionalSign s).2 ∧
      (optionalSign s).1 = decide (sign = .minus) := by
  unfold optionalSign
  split
  · exact ⟨.minus, rfl, rfl⟩
  · exact ⟨.plus, rfl, rfl⟩
  · exact ⟨.none, rfl, rfl⟩

theorem dropWhile_blanks (hBlanks : ∀ c ∈ blanks, isBlank c = true) (hDigits : IsDigits ds) :
    (blanks ++ (sign.text ++ ds)).dropWhile isBlank = sign.text ++ ds := by
  rw [List.dropWhile_append_of_pos hBlanks]
  cases sign with
  | plus => rfl
  | minus => rfl
  | none =>
      obtain ⟨c, rest, rfl⟩ := List.exists_cons_of_ne_nil hDigits.1
      exact List.dropWhile_cons_of_neg
        (by simp [isBlank_of_isDigit (hDigits.2 c List.mem_cons_self)])

theorem strtol_digits (hBlanks : ∀ c ∈ blanks, isBlank c = true) (hDigits : IsDigits ds) :
    strtol lo hi (blanks ++ (sign.text ++ ds)) =
      (saturate lo hi (sign.apply (decimal ds)), []) := by
  rw [strtol, dropWhile_blanks hBlanks hDigits, optionalSign_text hDigits]
  simp only [takeWhile_digits hDigits.2, dropWhile_digits hDigits.2, if_neg hDigits.1]
  cases sign with
  | none => rfl
  | plus => rfl
  | minus => rfl

/-- **What `strtol` reads to the end**: nothing, or blanks, a sign and digits. -/
theorem readToEnd_iff :
    strtol lo hi s = (v, []) ↔
      (s = [] ∧ v = 0) ∨
        ∃ blanks sign ds, s = blanks ++ (Sign.text sign ++ ds) ∧
          (∀ c ∈ blanks, isBlank c = true) ∧ IsDigits ds ∧
          v = saturate lo hi (sign.apply (decimal ds)) := by
  constructor
  · intro hRead
    obtain ⟨sign, hSplit, hSign⟩ := exists_sign (s.dropWhile isBlank)
    have hWhole : s = s.takeWhile isBlank ++ s.dropWhile isBlank :=
      List.takeWhile_append_dropWhile.symm
    have hBlanks : ∀ c ∈ s.takeWhile isBlank, isBlank c = true :=
      fun c hMem => List.mem_takeWhile_imp hMem
    have hDigits : ∀ c ∈ (optionalSign (s.dropWhile isBlank)).2.takeWhile Char.isDigit,
        c.isDigit = true := fun c hMem => List.mem_takeWhile_imp hMem
    have hBody : (optionalSign (s.dropWhile isBlank)).2 =
        (optionalSign (s.dropWhile isBlank)).2.takeWhile Char.isDigit ++
          (optionalSign (s.dropWhile isBlank)).2.dropWhile Char.isDigit :=
      List.takeWhile_append_dropWhile.symm
    simp only [strtol] at hRead
    split at hRead
    · left
      simp only [Prod.mk.injEq] at hRead
      exact ⟨hRead.2, hRead.1.symm⟩
    next hSome =>
      right
      simp only [Prod.mk.injEq] at hRead
      rw [hRead.2, List.append_nil] at hBody
      refine ⟨_, sign, _, ?_, hBlanks, ⟨hSome, hDigits⟩, ?_⟩
      · rw [← hBody, ← hSplit]
        exact hWhole
      · rw [← hRead.1, hSign]
        cases sign with
        | none => rfl
        | plus => rfl
        | minus => rfl
  · rintro (⟨rfl, rfl⟩ | ⟨blanks, sign, ds, rfl, hBlanks, hDigits, rfl⟩)
    · rfl
    · exact strtol_digits hBlanks hDigits

/-! ## C strings -/

/-- A text is its C string, and a NUL with anything behind it when there is more. -/
theorem exists_cString (s : List Char) :
    ∃ rest, s = cString s ++ rest ∧ (rest = [] ∨ ∃ more, rest = '\x00' :: more) := by
  refine ⟨s.dropWhile fun c => !decide (c = '\x00'), List.takeWhile_append_dropWhile.symm, ?_⟩
  cases hRest : s.dropWhile fun c => !decide (c = '\x00') with
  | nil => exact Or.inl rfl
  | cons c more =>
      have hStop :=
        List.head_dropWhile_not (fun c => !decide (c = '\x00')) (l := s) (by simp [hRest])
      simp only [hRest, List.head_cons, Bool.not_eq_false', decide_eq_true_eq] at hStop
      exact Or.inr ⟨more, by rw [hStop]⟩

theorem cString_append (hNul : '\x00' ∉ s) (hRest : rest = [] ∨ ∃ more, rest = '\x00' :: more) :
    cString (s ++ rest) = s := by
  have hKeep : ∀ c ∈ s, (!decide (c = '\x00')) = true := by
    intro c hMem
    have hNe : c ≠ '\x00' := fun hEq => hNul (hEq ▸ hMem)
    simp [hNe]
  rw [cString, List.takeWhile_append_of_pos hKeep]
  rcases hRest with rfl | ⟨more, rfl⟩
  · simp
  · simp

/-! ## Cutting at a separator -/

section

variable {α : Type} [BEq α] [LawfulBEq α] {a : α} {xs : List α} {ls : List (List α)}

theorem not_mem_of_mem_splitOn : ∀ l ∈ xs.splitOn a, a ∉ l := by
  induction xs with
  | nil => simp
  | cons x xs ih =>
      intro l hMem
      rw [List.splitOn_cons_eq_if_modifyHead] at hMem
      split at hMem
      · rcases List.mem_cons.mp hMem with rfl | hRest
        · exact List.not_mem_nil
        · exact ih l hRest
      next hNe =>
        obtain ⟨first, others, hSplit⟩ := List.exists_cons_of_ne_nil (List.splitOn_ne_nil a xs)
        rw [hSplit, List.modifyHead_cons] at hMem
        rw [hSplit] at ih
        rcases List.mem_cons.mp hMem with rfl | hRest
        · intro hIn
          rcases List.mem_cons.mp hIn with rfl | hIn
          · exact hNe (BEq.refl a)
          · exact ih first List.mem_cons_self hIn
        · exact ih l (List.mem_cons_of_mem _ hRest)

/-- **The parts of a text** have no separator and give the text back. -/
theorem splitOn_eq_iff :
    xs.splitOn a = ls ↔ ls ≠ [] ∧ (∀ l ∈ ls, a ∉ l) ∧ [a].intercalate ls = xs := by
  constructor
  · rintro rfl
    exact ⟨List.splitOn_ne_nil a xs, not_mem_of_mem_splitOn, List.intercalate_splitOn a⟩
  · rintro ⟨hNe, hParts, rfl⟩
    exact List.splitOn_intercalate a hParts hNe

end

end CText
