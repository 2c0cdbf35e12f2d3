import Mathlib.Algebra.Order.Floor.Semiring
import Mathlib.Data.Int.Log
import Mathlib.Data.List.DropRight
import Mathlib.Data.Rat.Floor
import Mathlib.Tactic.Linarith
import Mathlib.Tactic.NormNum
import Mathlib.Tactic.Positivity

/-!
# How the profile writes numbers

`operator<<` of a default `std::ostream` writes an integer in decimal and a
`double` by `%g` with six significant digits: the value is rounded to six
digits, which fixes its decimal exponent `X`, and is written without an
exponent exactly when `-4 ≤ X < 6`; trailing zeros of the fraction are left
out.  `plain_iff` says which doubles these are.
-/

namespace GraphRuntime.Profiler

/-! ## Integers -/

/-- A number in decimal, without leading zeros. -/
def digits (n : Nat) : List Char := Nat.toDigits 10 n

/-- `os << i` for an `int64_t`. -/
def writeInt (i : Int) : List Char :=
  if i < 0 then '-' :: digits i.natAbs else digits i.natAbs

/-! ## Doubles -/

/-- A finite `double`: sign, 53 bits, and a power of two. -/
structure FiniteDouble where
  negative : Bool
  mantissa : Nat
  exponent : Int
  mantissa_lt : mantissa < 2 ^ 53
  exponent_range : -1074 ≤ exponent ∧ exponent ≤ 971

/-- A `double`. -/
inductive Double
  | finite (x : FiniteDouble)
  | inf (negative : Bool)
  | nan (negative : Bool)

/-- The number without its sign. -/
def FiniteDouble.magnitude (x : FiniteDouble) : Rat := x.mantissa * 2 ^ x.exponent

/-- The number itself. -/
def FiniteDouble.value (x : FiniteDouble) : Rat := if x.negative then -x.magnitude else x.magnitude

/-- To the nearest integer, ties to even. -/
def roundHalfEven (q : Rat) : Nat :=
  let n := ⌊q⌋₊
  let r := q - n
  if r < 1 / 2 then n
  else if r > 1 / 2 then n + 1
  else if n % 2 = 0 then n
  else n + 1

/-- The six significant digits of a positive number and its decimal exponent. -/
def significant (q : Rat) : Nat × Int :=
  let x := Int.log 10 q
  let d := roundHalfEven (q * 10 ^ (5 - x))
  if d = 10 ^ 6 then (10 ^ 5, x + 1) else (d, x)

/-- `P > X ≥ -4` with `P = 6`. -/
def usesFixed (x : Int) : Bool := decide (-4 ≤ x) && decide (x < 6)

/-- `n` in `width` digits. -/
def padded (width n : Nat) : List Char := (digits n).leftpad width '0'

/-- The fraction without its trailing zeros, and no point in front of nothing. -/
def fraction (l : List Char) : List Char :=
  let l := l.rdropWhile (· = '0')
  if l.isEmpty then [] else '.' :: l

/-- Style `f` for the digits `d` with exponent `x`. -/
def fixedText (d : Nat) (x : Int) : List Char :=
  let places := (5 - x).toNat
  digits (d / 10 ^ places) ++ fraction (padded places (d % 10 ^ places))

/-- Style `e`. -/
def exponentText (d : Nat) (x : Int) : List Char :=
  digits (d / 10 ^ 5) ++ fraction (padded 5 (d % 10 ^ 5)) ++
    'e' :: (if x < 0 then '-' else '+') :: padded 2 x.natAbs

/-- The sign in front of a number. -/
def signText (negative : Bool) : List Char := if negative then ['-'] else []

/-- `%g`. -/
def Double.text : Double → List Char
  | .finite x =>
      signText x.negative ++
        if x.mantissa = 0 then ['0']
        else
          let (d, e) := significant x.magnitude
          if usesFixed e then fixedText d e else exponentText d e
  | .inf negative => signText negative ++ "inf".toList
  | .nan negative => signText negative ++ "nan".toList

/-- Written without an exponent. -/
def Double.plain : Double → Bool
  | .finite x => decide (x.mantissa = 0) || usesFixed (significant x.magnitude).2
  | .inf _ | .nan _ => false

/-! ## The shape of the texts -/

/-- Digits, and possibly a point and digits. -/
def Decimal (l : List Char) : Prop :=
  ∃ whole places : List Char, (∀ c ∈ whole, c.isDigit = true) ∧
    (∀ c ∈ places, c.isDigit = true) ∧ (l = whole ∨ l = whole ++ '.' :: places)

theorem isDigit_of_mem_digits {n : Nat} {c : Char} (hMem : c ∈ digits n) : c.isDigit = true :=
  Nat.isDigit_of_mem_toDigits (by omega) (by omega) hMem

theorem isDigit_of_mem_padded {width n : Nat} {c : Char} (hMem : c ∈ padded width n) :
    c.isDigit = true := by
  unfold padded List.leftpad at hMem
  rcases List.mem_append.mp hMem with hZero | hDigit
  · rw [(List.mem_replicate.mp hZero).2]
    rfl
  · exact isDigit_of_mem_digits hDigit

theorem decimal_fraction {whole l : List Char} (hWhole : ∀ c ∈ whole, c.isDigit = true)
    (hPlaces : ∀ c ∈ l, c.isDigit = true) : Decimal (whole ++ fraction l) := by
  unfold fraction
  simp only
  split
  · exact ⟨whole, [], hWhole, by simp, Or.inl (by simp)⟩
  · refine ⟨whole, l.rdropWhile (· = '0'), hWhole, fun c hMem => ?_, Or.inr rfl⟩
    exact hPlaces c ((List.rdropWhile_prefix _ l).subset hMem)

theorem decimal_fixedText (d : Nat) (x : Int) : Decimal (fixedText d x) :=
  decimal_fraction (fun _ => isDigit_of_mem_digits) (fun _ => isDigit_of_mem_padded)

theorem exponentText_eq (d : Nat) (x : Int) :
    ∃ l tail, exponentText d x = l ++ 'e' :: tail ∧ Decimal l :=
  ⟨_, _, rfl, decimal_fraction (fun _ => isDigit_of_mem_digits)
    (fun _ => isDigit_of_mem_padded)⟩

/-- The sign bit, which a zero and a NaN have as well. -/
def Double.negative : Double → Bool
  | .finite x => x.negative
  | .inf negative | .nan negative => negative

/-- The text of a plain double is a decimal with a sign. -/
theorem Double.text_of_plain {v : Double} (hPlain : v.plain = true) :
    ∃ l, v.text = signText v.negative ++ l ∧ Decimal l := by
  cases v with
  | inf | nan => exact absurd hPlain Bool.false_ne_true
  | finite x =>
      by_cases hZero : x.mantissa = 0
      · simp only [text, if_pos hZero]
        exact ⟨['0'], rfl, ['0'], [], by simp [Char.isDigit], by simp, Or.inl rfl⟩
      · have hFixed : usesFixed (significant x.magnitude).2 = true := by
          simpa [plain, hZero] using hPlain
        simp only [text, if_neg hZero, hFixed, if_true]
        exact ⟨_, rfl, decimal_fixedText _ _⟩

/-- That of any other double goes on with a letter. -/
theorem Double.text_of_not_plain {v : Double} (hPlain : v.plain = false) :
    ∃ l c tail, v.text = signText v.negative ++ (l ++ c :: tail) ∧ Decimal l ∧
      (c = 'e' ∨ c = 'i' ∨ c = 'n') := by
  have hNothing : Decimal [] := ⟨[], [], by simp, by simp, Or.inl rfl⟩
  cases v with
  | inf negative => exact ⟨[], 'i', ['n', 'f'], rfl, hNothing, by simp⟩
  | nan negative => exact ⟨[], 'n', ['a', 'n'], rfl, hNothing, by simp⟩
  | finite x =>
      have hBoth : x.mantissa ≠ 0 ∧ usesFixed (significant x.magnitude).2 = false := by
        simpa [plain] using hPlain
      obtain ⟨hNonzero, hExponent⟩ := hBoth
      obtain ⟨l, tail, hText, hDecimal⟩ :=
        exponentText_eq (significant x.magnitude).1 (significant x.magnitude).2
      simp only [text, if_neg hNonzero, hExponent, Bool.false_eq_true, if_false]
      exact ⟨l, 'e', tail, by rw [hText]; rfl, hDecimal, by simp⟩

/-! ## Which doubles are plain -/

/-- Rounding reaches a million from 999999.5 on. -/
theorem roundHalfEven_eq_million {q : Rat} (hNonneg : 0 ≤ q) (hLt : q < 10 ^ 6) :
    roundHalfEven q = 10 ^ 6 ↔ 1999999 / 2 ≤ q := by
  have hFloor : (⌊q⌋₊ : Rat) ≤ q := Nat.floor_le hNonneg
  have hNext : q < ⌊q⌋₊ + 1 := Nat.lt_floor_add_one q
  have hBelow : ⌊q⌋₊ < 10 ^ 6 := by
    have hCast : (⌊q⌋₊ : Rat) < 10 ^ 6 := lt_of_le_of_lt hFloor hLt
    exact_mod_cast hCast
  have hLast : ∀ {n : Nat}, n + 1 = 10 ^ 6 → (n : Rat) = 999999 := by
    intro n hEq
    have hValue : n = 999999 := by omega
    rw [hValue]
    norm_num
  unfold roundHalfEven
  simp only
  generalize ⌊q⌋₊ = n at hFloor hNext hBelow
  constructor
  · intro hRound
    split at hRound
    · omega
    · rename_i hHalf
      have hSucc : n + 1 = 10 ^ 6 := by
        split at hRound
        · exact hRound
        · split at hRound
          · omega
          · exact hRound
      have hValue := hLast hSucc
      rw [hValue] at hHalf
      linarith
  · intro hLarge
    have hLower : 999998 < n := by
      have hCast : (999998 : Rat) < n := by linarith
      exact_mod_cast hCast
    have hValue : n = 999999 := by omega
    subst hValue
    have hNotBelow : ¬ q - ((999999 : Nat) : Rat) < 1 / 2 := by
      push_cast
      linarith
    rw [if_neg hNotBelow]
    split <;> norm_num

/-- The number scaled to six digits before the point. -/
theorem scaled_range {q : Rat} (hPos : 0 < q) :
    0 ≤ q * 10 ^ (5 - Int.log 10 q) ∧ q * 10 ^ (5 - Int.log 10 q) < 10 ^ 6 := by
  have hTen : (0 : Rat) < 10 := by norm_num
  constructor
  · exact mul_nonneg hPos.le (zpow_pos hTen _).le
  · have hLog : q < (10 : Rat) ^ (Int.log 10 q + 1) := by
      have hBase := Int.lt_zpow_succ_log_self (b := 10) (by omega) q
      exact_mod_cast hBase
    have hScale : (0 : Rat) < 10 ^ (5 - Int.log 10 q) := zpow_pos hTen _
    calc q * 10 ^ (5 - Int.log 10 q)
        < 10 ^ (Int.log 10 q + 1) * 10 ^ (5 - Int.log 10 q) :=
          mul_lt_mul_of_pos_right hLog hScale
      _ = 10 ^ 6 := by
          rw [← zpow_add₀ hTen.ne', show Int.log 10 q + 1 + (5 - Int.log 10 q) = 6 from by omega]
          norm_num

theorem significant_exponent {q : Rat} (hPos : 0 < q) :
    (significant q).2 =
      if 1999999 / 2 ≤ q * 10 ^ (5 - Int.log 10 q) then Int.log 10 q + 1 else Int.log 10 q := by
  obtain ⟨hNonneg, hLt⟩ := scaled_range hPos
  have hMillion := roundHalfEven_eq_million hNonneg hLt
  unfold significant
  simp only
  by_cases hRound : roundHalfEven (q * 10 ^ (5 - Int.log 10 q)) = 10 ^ 6
  · rw [if_pos hRound, if_pos (hMillion.mp hRound)]
  · rw [if_neg hRound, if_neg (fun hLarge => hRound (hMillion.mpr hLarge))]

/-- **Which numbers are written without an exponent.** -/
theorem usesFixed_significant {q : Rat} (hPos : 0 < q) :
    usesFixed (significant q).2 = true ↔ 9999995 / 10 ^ 11 ≤ q ∧ q < 1999999 / 2 := by
  have hPower : ∀ k : Int, (10 : Rat) ^ k ≤ q ↔ k ≤ Int.log 10 q := by
    intro k
    have hBase := Int.zpow_le_iff_le_log (b := 10) (by omega) (x := k) hPos
    exact_mod_cast hBase
  have hBefore : ∀ k : Int, q < (10 : Rat) ^ k ↔ Int.log 10 q < k := by
    intro k
    have hBase := Int.lt_zpow_iff_log_lt (b := 10) (by omega) (x := k) hPos
    exact_mod_cast hBase
  rw [significant_exponent hPos, usesFixed, Bool.and_eq_true, decide_eq_true_eq,
    decide_eq_true_eq]
  have h6 := hPower 6
  have h5 := hBefore 5
  have h4 := hPower (-4)
  have h5' := hBefore (-5)
  norm_num at h6 h5 h4 h5'
  generalize hLog : Int.log 10 q = e at *
  rcases show e ≤ -6 ∨ e = -5 ∨ (-4 ≤ e ∧ e ≤ 4) ∨ e = 5 ∨ 6 ≤ e from by omega with
    hLow | hEdge | ⟨hLow, hHigh⟩ | hEdge | hHigh
  · have hSmall := h5'.mpr (by omega)
    constructor
    · rintro ⟨hLower, -⟩
      split at hLower <;> omega
    · rintro ⟨hLower, -⟩
      norm_num at hLower
      linarith
  · subst hEdge
    have hSmall : q < 1 / 10000 := by
      by_contra hNot
      have hLarge := h4.mp (by linarith)
      omega
    norm_num
    constructor
    · rintro ⟨hLower, -⟩
      split at hLower
      · rename_i hRound
        exact ⟨by linarith, by linarith⟩
      · omega
    · rintro ⟨hLower, -⟩
      rw [if_pos (by linarith)]
      omega
  · have hLarge := h4.mpr hLow
    have hSmall := h5.mpr (by omega)
    constructor
    · intro _
      exact ⟨by norm_num; linarith, by linarith⟩
    · intro _
      split <;> omega
  · subst hEdge
    have hLarge : (10 : Rat) ^ (5 : Int) ≤ q := (hPower 5).mpr (by omega)
    norm_num at hLarge ⊢
    constructor
    · rintro ⟨-, hUpper⟩
      split at hUpper
      · omega
      · rename_i hRound
        exact ⟨by linarith, by linarith⟩
    · rintro ⟨-, hUpper⟩
      rw [if_neg (by linarith)]
      omega
  · have hLarge := h6.mpr hHigh
    constructor
    · rintro ⟨-, hUpper⟩
      split at hUpper <;> omega
    · rintro ⟨-, hUpper⟩
      linarith

theorem FiniteDouble.magnitude_pos {x : FiniteDouble} (hNonzero : x.mantissa ≠ 0) :
    0 < x.magnitude := by
  have hMantissa : (0 : Rat) < x.mantissa := by exact_mod_cast Nat.pos_of_ne_zero hNonzero
  exact mul_pos hMantissa (zpow_pos (by norm_num) _)

/-- Zero, or what six digits round to a value from 0.0001 to below a million. -/
def Double.InFixedRange : Double → Prop
  | .finite x =>
      x.mantissa = 0 ∨ 9999995 / 10 ^ 11 ≤ x.magnitude ∧ x.magnitude < 1999999 / 2
  | .inf _ | .nan _ => False

/-- **The plain doubles.** -/
theorem plain_iff (v : Double) : v.plain = true ↔ v.InFixedRange := by
  cases v with
  | inf | nan => simp [Double.plain, Double.InFixedRange]
  | finite x =>
      by_cases hZero : x.mantissa = 0
      · simp [Double.plain, Double.InFixedRange, hZero]
      · have hFixed := usesFixed_significant (FiniteDouble.magnitude_pos hZero)
        simp only [Double.plain, Double.InFixedRange, hZero, decide_false, Bool.false_or, hFixed,
          false_or]

end GraphRuntime.Profiler
