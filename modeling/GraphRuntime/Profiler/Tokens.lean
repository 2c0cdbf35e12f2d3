import GraphRuntime.Profiler.ProfileWriter
import GraphRuntime.Profiler.Reporter

/-!
# The tokens of a profile

Each function of the reader stops exactly behind what the writer wrote for it:
a string, a counter, a decimal, or a value that is skipped.  What a loop skips
is described by the pieces of text it passes over (`Skips`).
-/

namespace GraphRuntime.Profiler

open Fuel
open GraphRuntime.Stream (wrap64 int64Max int64Min wrap64_of_range)

variable {c : Char} {r rest : List Char} {b : Bracket} {i : Int}

/-! ## Blanks and punctuation -/

theorem skipWhitespace_space (hSpace : isSpace c = true) :
    skipWhitespace (c :: r) = skipWhitespace r := by
  simp [skipWhitespace, hSpace]

theorem skipWhitespace_of_not (hSpace : isSpace c = false) :
    skipWhitespace (c :: r) = c :: r := by
  simp [skipWhitespace, hSpace]

theorem skipWhitespace_key (indent : Nat) (key : String) (r : List Char) :
    skipWhitespace (jsonKey indent key ++ r) =
      '"' :: (key.toList ++ '"' :: ':' :: ' ' :: r) := by
  induction indent with
  | zero => simp [jsonKey, skipWhitespace, isSpace]
  | succ n ih =>
      rw [← ih]
      show skipWhitespace (' ' :: (jsonKey n key ++ r)) = _
      exact skipWhitespace_space rfl

theorem expect_eq (hText : skipWhitespace r = c :: rest) : expect c r = (true, rest) := by
  simp [expect, hText]

theorem expect_ne {c' : Char} (hText : skipWhitespace r = c' :: rest) (hNe : c' ≠ c) :
    expect c r = (false, c' :: rest) := by
  simp [expect, hText, hNe]

/-! ## Strings -/

theorem readCharacters_plain (hQuote : c ≠ '"') (hBackslash : c ≠ '\\') :
    readCharacters (c :: r) = (c :: (readCharacters r).1, (readCharacters r).2) := by
  rw [readCharacters]
  · rw [if_neg hQuote]
  · simp [hBackslash]
  · simp [hBackslash]

theorem readCharacters_escape (s rest : List Char) :
    readCharacters (s.flatMap escape ++ '"' :: rest) = (s, rest) := by
  induction s with
  | nil => simp [readCharacters]
  | cons c s ih =>
      rw [List.flatMap_cons, List.append_assoc]
      by_cases hEscaped : c = '"' ∨ c = '\\' ∨ c = '\n' ∨ c = '\r' ∨ c = '\t'
      · have hPair : ∃ d, escape c = ['\\', d] ∧ unescape d = c := by
          rcases hEscaped with rfl | rfl | rfl | rfl | rfl
          all_goals exact ⟨_, rfl, rfl⟩
        obtain ⟨d, hText, hBack⟩ := hPair
        rw [hText, List.cons_append, List.singleton_append, readCharacters, ih, hBack]
      · simp only [not_or] at hEscaped
        obtain ⟨hQuote, hBackslash, hNewline, hReturn, hTab⟩ := hEscaped
        have hSelf : escape c = [c] := by
          simp [escape, hQuote, hBackslash, hNewline, hReturn, hTab]
        rw [hSelf, List.singleton_append, readCharacters_plain hQuote hBackslash, ih]

theorem readString_written {s : String}
    (hText : skipWhitespace r = writeJsonString s ++ rest) : readString r = (s, rest) := by
  have hShape : skipWhitespace r = '"' :: (s.toList.flatMap escape ++ '"' :: rest) := by
    rw [hText]
    simp [writeJsonString]
  simp [readString, hShape, readCharacters_escape]

theorem readString_front (s : String) (rest : List Char) :
    readString (writeJsonString s ++ rest) = (s, rest) :=
  readString_written (skipWhitespace_of_not rfl)

/-- A name in which nothing is escaped. -/
def Unescaped (key : String) : Prop := key.toList.flatMap escape = key.toList

theorem readKey_key {key : String} (hKey : Unescaped key)
    (hText : skipWhitespace r = '"' :: (key.toList ++ '"' :: rest)) :
    readKey r = (key, rest) := by
  refine readString_written (hText.trans ?_)
  unfold Unescaped at hKey
  simp [writeJsonString, hKey]

/-! ## Numbers -/

/-- No digit and no point comes next. -/
def Delimited (rest : List Char) : Prop :=
  ∀ c r, rest = c :: r → c.isDigit = false ∧ c ≠ '.'

theorem delimited_cons (hDigit : c.isDigit = false) (hPoint : c ≠ '.') :
    Delimited (c :: rest) := by
  rintro c' r hEq
  cases hEq
  exact ⟨hDigit, hPoint⟩

theorem dropWhile_digits {l : List Char} (hDigits : ∀ c ∈ l, c.isDigit = true)
    (hRest : ∀ c r, rest = c :: r → c.isDigit = false) :
    (l ++ rest).dropWhile Char.isDigit = rest := by
  rw [List.dropWhile_append_of_pos hDigits]
  cases rest with
  | nil => rfl
  | cons c r => simp [hRest c r rfl]

theorem le_ofDigitChars (l : List Char) (n : Nat) : n ≤ Nat.ofDigitChars 10 l n := by
  induction l generalizing n with
  | nil => simp
  | cons c l ih =>
      rw [Nat.ofDigitChars_cons]
      have hNext := ih (10 * n + (c.toNat - '0'.toNat))
      omega

/-- Reading digits, as long as the value stays in 64 bits. -/
theorem readDigits_digits {l : List Char} {n : Nat} (hDigits : ∀ c ∈ l, c.isDigit = true)
    (hRest : ∀ c r, rest = c :: r → c.isDigit = false)
    (hRange : (Nat.ofDigitChars 10 l n : Int) ≤ int64Max) :
    readDigits n (l ++ rest) = ((Nat.ofDigitChars 10 l n : Int), rest) := by
  induction l generalizing n with
  | nil =>
      cases rest with
      | nil => rfl
      | cons c r => simp [readDigits, hRest c r rfl]
  | cons c l ih =>
      have hHead : c.isDigit = true := hDigits c List.mem_cons_self
      rw [Nat.ofDigitChars_cons] at hRange ⊢
      have hValue : ((n : Int) * 10 + (c.toNat - '0'.toNat : Nat)) =
          ((10 * n + (c.toNat - '0'.toNat) : Nat) : Int) := by
        push_cast
        omega
      have hFits : wrap64 ((n : Int) * 10 + (c.toNat - '0'.toNat : Nat)) =
          ((10 * n + (c.toNat - '0'.toNat) : Nat) : Int) := by
        have hUpper := le_ofDigitChars l (10 * n + (c.toNat - '0'.toNat))
        rw [hValue]
        refine wrap64_of_range ?_ ?_
        · unfold int64Min
          omega
        · omega
      rw [List.cons_append, readDigits, if_pos hHead, hFits]
      exact ih (fun c' hMem => hDigits c' (List.mem_cons_of_mem c hMem)) hRange

/-- **A counter is read back.** -/
theorem readInt64_written {i : Int} (hNonneg : 0 ≤ i) (hRange : i ≤ int64Max)
    (hRest : ∀ c r, rest = c :: r → c.isDigit = false)
    (hText : skipWhitespace r = writeInt i ++ rest) : readInt64 r = (i, rest) := by
  have hWritten : writeInt i = digits i.natAbs := by
    unfold writeInt
    rw [if_neg (by omega)]
  have hSign : ∀ l : List Char, (∀ c ∈ l, c.isDigit = true) → l ≠ [] →
      readSign (l ++ rest) = (false, l ++ rest) := by
    intro l hDigits hNonempty
    obtain ⟨c, tail, rfl⟩ := List.exists_cons_of_ne_nil hNonempty
    have hHead : c.isDigit = true := hDigits c List.mem_cons_self
    have hMinus : c ≠ '-' := by
      rintro rfl
      exact absurd hHead (by decide)
    unfold readSign
    split
    · rename_i hEq
      cases hEq
      exact absurd rfl hMinus
    · rfl
  have hValue : Nat.ofDigitChars 10 (digits i.natAbs) 0 = i.natAbs :=
    Nat.ofDigitChars_ten_toDigits
  have hDigits : ∀ c ∈ digits i.natAbs, c.isDigit = true := fun _ => isDigit_of_mem_digits
  have hRead := readDigits_digits (n := 0) hDigits hRest (by rw [hValue]; omega)
  rw [hValue] at hRead
  rw [hWritten] at hText
  unfold readInt64
  rw [hText, hSign _ hDigits Nat.toDigits_ne_nil]
  simp only [Nat.cast_zero] at hRead
  simp only [hRead, Bool.false_eq_true, if_false]
  rw [Int.natAbs_of_nonneg hNonneg]

theorem readSign_signText (negative : Bool) {l : List Char}
    (hHead : ∀ c tail, l = c :: tail → c ≠ '-') :
    (readSign (signText negative ++ l)).2 = l := by
  cases negative with
  | true => rfl
  | false =>
      show (readSign l).2 = l
      unfold readSign
      split
      · exact absurd rfl (hHead _ _ rfl)
      · rfl

/-- `ReadDouble` takes a sign and a decimal, and nothing else. -/
theorem readDouble_decimal {l : List Char} (negative : Bool) (hDecimal : Decimal l)
    (hRest : Delimited rest) (hMinus : ∀ c tail, rest = c :: tail → c ≠ '-')
    (hText : skipWhitespace r = signText negative ++ (l ++ rest)) : readDouble r = rest := by
  obtain ⟨whole, places, hWhole, hPlaces, hShape⟩ := hDecimal
  have hDigit := fun c r hEq => (hRest c r hEq).1
  have hHead : ∀ c tail, l ++ rest = c :: tail → c ≠ '-' := by
    rintro c tail hEq rfl
    cases whole with
    | nil =>
        rcases hShape with rfl | rfl
        · exact hMinus _ _ hEq rfl
        · cases hEq
    | cons d whole =>
        have hSame : d = '-' := by
          rcases hShape with rfl | rfl <;> exact (List.cons.inj hEq).1
        exact absurd (hWhole d List.mem_cons_self) (by rw [hSame]; decide)
  have hSign := readSign_signText negative hHead
  unfold readDouble
  rw [hText]
  simp only [hSign]
  rcases hShape with rfl | rfl
  · rw [dropWhile_digits hWhole hDigit]
    split
    · exact absurd rfl (hRest _ _ rfl).2
    · rfl
  · rw [List.append_assoc, dropWhile_digits hWhole (by
      rintro c r hEq
      cases hEq
      rfl)]
    exact dropWhile_digits hPlaces hDigit

theorem isSpace_of_decimal {l : List Char} (hDecimal : Decimal l) :
    ∀ c ∈ l, isSpace c = false := by
  obtain ⟨whole, places, hWhole, hPlaces, hShape⟩ := hDecimal
  have hDigit : ∀ c : Char, c.isDigit = true → isSpace c = false := by
    intro c hTrue
    have hNot : ∀ d : Char, d.isDigit = false → c ≠ d := by
      rintro d hOther rfl
      exact absurd hTrue (by simp [hOther])
    simp [isSpace, hNot ' ' rfl, hNot '\n' rfl, hNot '\r' rfl, hNot '\t' rfl]
  intro c hMem
  rcases hShape with rfl | rfl
  · exact hDigit c (hWhole c hMem)
  · rcases List.mem_append.mp hMem with hLeft | hRight
    · exact hDigit c (hWhole c hLeft)
    · rcases List.mem_cons.mp hRight with rfl | hPlace
      · rfl
      · exact hDigit c (hPlaces c hPlace)

/-- A decimal in a member, up to the comma or letter behind it. -/
theorem readDouble_text {l : List Char} (negative : Bool) (tail : List Char)
    (hDecimal : Decimal l)
    (hEnd : c = ',' ∨ c = 'e' ∨ c = 'i' ∨ c = 'n') :
    readDouble (' ' :: (signText negative ++ (l ++ c :: tail))) = c :: tail := by
  have hMark : isSpace c = false ∧ c.isDigit = false ∧ c ≠ '.' ∧ c ≠ '-' := by
    rcases hEnd with rfl | rfl | rfl | rfl
    all_goals decide
  obtain ⟨hSpace, hDigit, hPoint, hMinus⟩ := hMark
  have hHead : skipWhitespace (signText negative ++ (l ++ c :: tail)) =
      signText negative ++ (l ++ c :: tail) := by
    cases negative with
    | true => exact skipWhitespace_of_not rfl
    | false =>
        show skipWhitespace (l ++ c :: tail) = l ++ c :: tail
        cases l with
        | nil => exact skipWhitespace_of_not hSpace
        | cons d l =>
            exact skipWhitespace_of_not (isSpace_of_decimal hDecimal d List.mem_cons_self)
  refine readDouble_decimal negative hDecimal (delimited_cons hDigit hPoint) ?_
    ((skipWhitespace_space rfl).trans hHead)
  rintro c' tail' hEq
  cases hEq
  exact hMinus

/-- What `ReadDouble` makes of an integer. -/
theorem readDouble_writeInt (hRest : Delimited rest) (hMinus : ∀ c tail, rest = c :: tail → c ≠ '-')
    (hText : skipWhitespace r = writeInt i ++ rest) : readDouble r = rest := by
  have hDecimal : Decimal (digits i.natAbs) :=
    ⟨digits i.natAbs, [], fun _ => isDigit_of_mem_digits, by simp, Or.inl rfl⟩
  refine readDouble_decimal (decide (i < 0)) hDecimal hRest hMinus (hText.trans ?_)
  by_cases hNegative : i < 0
  · simp [writeInt, signText, hNegative]
  · simp [writeInt, signText, hNegative]

/-! ## Skipping -/

/-- The loop over a nested value passes over `text`. -/
def Skips (b : Bracket) (text : List Char) : Prop :=
  ∀ depth rest a, Returns (fun fuel => skipLoop fuel b (depth + 1) rest) a →
    Returns (fun fuel => skipLoop fuel b (depth + 1) (text ++ rest)) a

theorem Skips.append {l₁ l₂ : List Char} (hFirst : Skips b l₁) (hSecond : Skips b l₂) :
    Skips b (l₁ ++ l₂) := by
  intro depth rest a hRest
  rw [List.append_assoc]
  exact hFirst depth _ a (hSecond depth rest a hRest)

/-- One turn of the loop in front of a character that is not blank. -/
theorem skipLoop_head (hSpace : isSpace c = false) (fuel depth : Nat) :
    skipLoop (fuel + 1) b (depth + 1) (c :: r) =
      if c = b.opening then skipLoop fuel b (depth + 2) r
      else if c = b.closing then skipLoop fuel b depth r
      else if c = '"' then skipLoop fuel b (depth + 1) (readString (c :: r)).2
      else if c = b.other.opening then
        (skipLoop fuel b.other 1 (expect b.other.opening (c :: r)).2).bind
          (skipLoop fuel b (depth + 1))
      else if c = 't' || c = 'f' then skipLoop fuel b (depth + 1) (readBool (c :: r))
      else if c = '-' || c.isDigit then skipLoop fuel b (depth + 1) (readDouble (c :: r))
      else skipLoop fuel b (depth + 1) r := by
  rw [skipLoop, skipWhitespace_of_not hSpace]

theorem skips_space (hSpace : isSpace c = true) : Skips b [c] := by
  intro depth rest a hRest
  cases rest with
  | nil =>
      refine Returns.step rfl (fun fuel => ?_) hRest
      rw [List.append_nil, skipLoop, skipWhitespace_space hSpace]
      rfl
  | cons c' rest =>
      have hSame : ∀ fuel, skipLoop fuel b (depth + 1) ([c] ++ c' :: rest) =
          skipLoop fuel b (depth + 1) (c' :: rest) := by
        intro fuel
        cases fuel with
        | zero => rfl
        | succ fuel =>
            rw [List.singleton_append, skipLoop, skipLoop, skipWhitespace_space hSpace]
      simpa only [hSame] using hRest

/-- A comma or a colon. -/
theorem skips_mark (hMark : c = ',' ∨ c = ':') : Skips b [c] := by
  intro depth rest a hRest
  refine Returns.step rfl (fun fuel => ?_) hRest
  rw [List.singleton_append]
  rcases hMark with rfl | rfl
  · rw [skipLoop_head rfl]
    cases b <;> rfl
  · rw [skipLoop_head rfl]
    cases b <;> rfl

theorem skips_string (s : String) : Skips b (writeJsonString s) := by
  intro depth rest a hRest
  refine Returns.step rfl (fun fuel => ?_) hRest
  have hTurn : skipLoop (fuel + 1) b (depth + 1) (writeJsonString s ++ rest) =
      skipLoop fuel b (depth + 1) (readString (writeJsonString s ++ rest)).2 := by
    show skipLoop (fuel + 1) b (depth + 1) ('"' :: _) = _
    rw [skipLoop_head rfl]
    cases b <;> rfl
  rw [hTurn, readString_front]

theorem skips_blanks {l : List Char} (hSpace : l.all isSpace = true) : Skips b l := by
  induction l with
  | nil => exact fun _ _ _ hRest => hRest
  | cons c l ih =>
      rw [List.all_cons, Bool.and_eq_true] at hSpace
      have hHead : Skips b [c] := skips_space hSpace.1
      exact hHead.append (ih hSpace.2)

theorem skips_key (indent : Nat) {key : String} (hKey : Unescaped key) :
    Skips b (jsonKey indent key) := by
  have hParts : jsonKey indent key =
      List.replicate indent ' ' ++ (writeJsonString key ++ ([':'] ++ [' '])) := by
    unfold Unescaped at hKey
    simp [jsonKey, writeJsonString, hKey]
  have hBlanks : Skips b (List.replicate indent ' ') := by
    refine skips_blanks (List.all_eq_true.mpr fun c hMem => ?_)
    rw [(List.mem_replicate.mp hMem).2]
    rfl
  rw [hParts]
  exact hBlanks.append ((skips_string key).append
    ((skips_mark (Or.inr rfl)).append (skips_space rfl)))

theorem skips_bool (value : Bool) :
    Skips b (if value then "true".toList else "false".toList) := by
  intro depth rest a hRest
  refine Returns.step rfl (fun fuel => ?_) hRest
  cases value with
  | true =>
      show skipLoop (fuel + 1) b (depth + 1) ('t' :: 'r' :: 'u' :: 'e' :: rest) = _
      rw [skipLoop_head rfl]
      cases b <;> rfl
  | false =>
      show skipLoop (fuel + 1) b (depth + 1) ('f' :: 'a' :: 'l' :: 's' :: 'e' :: rest) = _
      rw [skipLoop_head rfl]
      cases b <;> rfl

/-- The first character of an integer. -/
theorem writeInt_cons (i : Int) :
    ∃ c l, writeInt i = c :: l ∧ (c = '-' ∨ c.isDigit = true) := by
  by_cases hNegative : i < 0
  · exact ⟨'-', digits i.natAbs, by simp [writeInt, hNegative], Or.inl rfl⟩
  · obtain ⟨c, l, hDigits⟩ := List.exists_cons_of_ne_nil
      (Nat.toDigits_ne_nil (n := i.natAbs) (b := 10))
    have hText : digits i.natAbs = c :: l := hDigits
    refine ⟨c, l, by simpa [writeInt, hNegative] using hText, Or.inr ?_⟩
    have hMem : c ∈ digits i.natAbs := hText ▸ List.mem_cons_self
    exact isDigit_of_mem_digits hMem

/-- What the loop does not take for the beginning of anything else. -/
theorem number_head (hNumber : c = '-' ∨ c.isDigit = true) :
    isSpace c = false ∧ c ≠ b.opening ∧ c ≠ b.closing ∧ c ≠ '"' ∧ c ≠ b.other.opening ∧
      c ≠ 't' ∧ c ≠ 'f' ∧ c ≠ '\x7b' ∧ c ≠ '[' := by
  rcases hNumber with rfl | hDigit
  · cases b <;> decide
  · have hNot : ∀ d : Char, d.isDigit = false → c ≠ d := by
      rintro d hOther rfl
      exact absurd hDigit (by simp [hOther])
    have hSpace : isSpace c = false := by
      simp [isSpace, hNot ' ' rfl, hNot '\n' rfl, hNot '\r' rfl, hNot '\t' rfl]
    cases b
    all_goals exact ⟨hSpace, hNot _ rfl, hNot _ rfl, hNot _ rfl, hNot _ rfl, hNot _ rfl,
      hNot _ rfl, hNot _ rfl, hNot _ rfl⟩

theorem skipLoop_number {depth : Nat} {a : List Char} (hRest : Delimited rest)
    (hMinus : ∀ c tail, rest = c :: tail → c ≠ '-')
    (hReturns : Returns (fun fuel => skipLoop fuel b (depth + 1) rest) a) :
    Returns (fun fuel => skipLoop fuel b (depth + 1) (writeInt i ++ rest)) a := by
  obtain ⟨c, l, hText, hNumber⟩ := writeInt_cons i
  obtain ⟨hSpace, hOpening, hClosing, hQuote, hOther, hT, hF, -, -⟩ := number_head (b := b) hNumber
  refine Returns.step rfl (fun fuel => ?_) hReturns
  have hRead : readDouble (c :: (l ++ rest)) = rest := by
    refine readDouble_writeInt (i := i) hRest hMinus ?_
    rw [skipWhitespace_of_not hSpace, hText, List.cons_append]
  rw [hText, List.cons_append, skipLoop_head hSpace, if_neg hOpening, if_neg hClosing,
    if_neg hQuote, if_neg hOther, if_neg (by simp [hT, hF]), if_pos (by simpa using hNumber),
    hRead]

/-- An integer and the mark or blank behind it. -/
theorem skips_number (i : Int) (hDigit : c.isDigit = false) (hPoint : c ≠ '.') (hMinus : c ≠ '-')
    (hMark : Skips b [c]) : Skips b (writeInt i ++ [c]) := by
  intro depth rest a hRest
  rw [List.append_assoc]
  refine skipLoop_number (delimited_cons hDigit hPoint) ?_ (hMark depth rest a hRest)
  rintro c' tail hEq
  cases hEq
  exact hMinus

/-- The end of a nested value. -/
theorem skipLoop_close :
    Returns (fun fuel => skipLoop fuel b 1 (b.closing :: rest)) rest := by
  have hEnd : Returns (fun fuel => skipLoop fuel b 0 rest) rest :=
    Returns.step rfl (fun _ => rfl) (Returns.pure rest)
  refine Returns.step rfl (fun fuel => ?_) hEnd
  cases b
  all_goals
    rw [skipLoop_head rfl]
    rfl

theorem skipNested_body {body : List Char} (hBody : Skips b body) :
    Returns (fun fuel => skipNested fuel b (b.opening :: (body ++ b.closing :: rest))) rest := by
  have hExpect : expect b.opening (b.opening :: (body ++ b.closing :: rest)) =
      (true, body ++ b.closing :: rest) := by
    refine expect_eq (skipWhitespace_of_not ?_)
    cases b <;> rfl
  unfold skipNested
  rw [hExpect]
  exact hBody 0 _ rest skipLoop_close

/-- The buckets of a histogram, in an array. -/
theorem skipLoop_buckets (buckets : List Int) :
    Returns (fun fuel => skipLoop fuel .array 1 (writeBuckets buckets ++ ']' :: rest)) rest := by
  induction buckets with
  | nil => exact skipLoop_close
  | cons bucket buckets ih =>
      cases buckets with
      | nil =>
          refine skipLoop_number (delimited_cons rfl (by decide)) ?_ skipLoop_close
          rintro c tail hEq
          cases hEq
          decide
      | cons next buckets =>
          have hComma : Skips .array (writeInt bucket ++ [',']) :=
            skips_number bucket rfl (by decide) (by decide) (skips_mark (Or.inl rfl))
          have hHead : Skips .array (writeInt bucket ++ [','] ++ [' ']) :=
            hComma.append (skips_space rfl)
          have hSplit : writeBuckets (bucket :: next :: buckets) ++ ']' :: rest =
              writeInt bucket ++ [','] ++ [' '] ++
                (writeBuckets (next :: buckets) ++ ']' :: rest) := by
            show writeInt bucket ++ ", ".toList ++ writeBuckets (next :: buckets) ++ _ = _
            simp
          rw [hSplit]
          exact hHead 0 _ rest ih

/-- An array inside an object. -/
theorem skips_buckets (buckets : List Int) :
    Skips .object ('[' :: (writeBuckets buckets ++ [']'])) := by
  intro depth rest a hRest
  have hArray : Returns
      (fun fuel => skipLoop fuel .array 1 (writeBuckets buckets ++ ']' :: rest)) rest :=
    skipLoop_buckets buckets
  refine Returns.step rfl (fun fuel => ?_) (hArray.bind hRest)
  rw [List.cons_append, skipLoop_head rfl, List.append_assoc]
  rfl

/-! ## Skipped values -/

theorem skipValue_string {s : String} (hText : skipWhitespace r = writeJsonString s ++ rest) :
    Returns (fun fuel => skipValue fuel r) rest := by
  have hValue : ∀ fuel, skipValue fuel r = some rest := by
    intro fuel
    rw [skipValue, hText]
    show some (readString (writeJsonString s ++ rest)).2 = some rest
    rw [readString_front]
  simpa only [hValue] using Returns.pure rest

theorem skipValue_number (hRest : Delimited rest) (hMinus : ∀ c tail, rest = c :: tail → c ≠ '-')
    (hText : skipWhitespace r = writeInt i ++ rest) :
    Returns (fun fuel => skipValue fuel r) rest := by
  obtain ⟨c, l, hWritten, hNumber⟩ := writeInt_cons i
  obtain ⟨hSpace, -, -, hQuote, -, hT, hF, hBrace, hSquare⟩ := number_head (b := .object) hNumber
  have hRead : readDouble (c :: (l ++ rest)) = rest := by
    refine readDouble_writeInt (i := i) hRest hMinus ?_
    rw [skipWhitespace_of_not hSpace, hWritten, List.cons_append]
  have hValue : ∀ fuel, skipValue fuel r = some rest := by
    intro fuel
    rw [hWritten, List.cons_append] at hText
    rw [skipValue, hText]
    simp only [if_neg hQuote, if_neg hBrace, if_neg hSquare]
    rw [if_neg (by simp [hT, hF]), hRead]
  simpa only [hValue] using Returns.pure rest

theorem skipValue_object {body : List Char} (hBody : Skips .object body)
    (hText : skipWhitespace r = '\x7b' :: (body ++ '\x7d' :: rest)) :
    Returns (fun fuel => skipValue fuel r) rest := by
  have hValue : ∀ fuel, skipValue fuel r =
      skipNested fuel .object ('\x7b' :: (body ++ '\x7d' :: rest)) := by
    intro fuel
    rw [skipValue, hText]
    rfl
  simp only [hValue]
  exact skipNested_body hBody

end GraphRuntime.Profiler
