import GraphRuntime.Profiler.Tokens

/-!
# Where the reader stops

`Accumulate` goes along the text once, from the left; what it stores has no say in
where it goes.  Here the way alone is followed: `skipEnd`, `valueEnd`, `nodesEnd`
and `membersEnd` give the text that is left behind a value, a list of nodes and
the profile, or nothing where the reader does not get past a character.  There
are two such places:

* in an object or an array that is skipped, a `t` or an `f` that begins neither
  `true` nor `false`: the loop leaves it to `ReadBool`, which does not take it;
* in the list of nodes, an element that `SkipValue` takes nothing of, such as
  `null`: the loop is back where it was.

`Accumulate` terminates on a text exactly when the way along it meets neither.
-/

namespace GraphRuntime.Profiler

open Fuel

variable {c : Char} {r r' rest : List Char} {b : Bracket}

/-! ## What is left is not longer -/

theorem skipWhitespace_le (r : List Char) : (skipWhitespace r).length ≤ r.length :=
  (List.dropWhile_sublist isSpace).length_le

theorem expect_le (c : Char) (r : List Char) : (expect c r).2.length ≤ r.length := by
  have hLe := skipWhitespace_le r
  unfold expect
  split
  case h_1 => exact Nat.zero_le _
  case h_2 c' rest hText =>
    rw [hText, List.length_cons] at hLe
    split
    · show rest.length ≤ r.length
      omega
    · show rest.length + 1 ≤ r.length
      omega

theorem readCharacters_le (r : List Char) : (readCharacters r).2.length ≤ r.length := by
  fun_induction readCharacters r with
  | case1 => exact Nat.le_refl _
  | case2 => exact Nat.zero_le _
  | case3 c rest ih =>
      show (readCharacters rest).2.length ≤ rest.length + 2
      omega
  | case4 rest _ _ => exact Nat.le_succ _
  | case5 c rest _ _ _ ih =>
      show (readCharacters rest).2.length ≤ rest.length + 1
      omega

theorem readString_le (r : List Char) : (readString r).2.length ≤ r.length := by
  have hLe := skipWhitespace_le r
  unfold readString
  split
  case h_1 => exact Nat.zero_le _
  case h_2 c rest hText =>
    rw [hText, List.length_cons] at hLe
    split
    · have hCharacters := readCharacters_le rest
      show (readCharacters rest).2.length ≤ r.length
      omega
    · exact hLe

/-- A key that is not empty takes at least its quote. -/
theorem readKey_lt (hKey : (readKey r).1 ≠ "") : (readKey r).2.length < r.length := by
  have hLe := skipWhitespace_le r
  unfold readKey readString at hKey ⊢
  split
  case h_1 hText => simp [hText] at hKey
  case h_2 c rest hText =>
    rw [hText, List.length_cons] at hLe
    by_cases hQuote : c = '"'
    · have hCharacters := readCharacters_le rest
      rw [if_pos hQuote]
      show (readCharacters rest).2.length < r.length
      omega
    · simp [hText, hQuote] at hKey

theorem readSign_le (r : List Char) : (readSign r).2.length ≤ r.length := by
  unfold readSign
  split
  · exact Nat.le_succ _
  · exact Nat.le_refl _

theorem readDigits_le (val : Int) (r : List Char) : (readDigits val r).2.length ≤ r.length := by
  fun_induction readDigits val r with
  | case1 => exact Nat.le_refl _
  | case2 _ c rest _ ih => exact Nat.le_succ_of_le ih
  | case3 => exact Nat.le_refl _

theorem readInt64_le (r : List Char) : (readInt64 r).2.length ≤ r.length :=
  (readDigits_le 0 _).trans ((readSign_le _).trans (skipWhitespace_le r))

theorem dropDigits_le (r : List Char) : (r.dropWhile Char.isDigit).length ≤ r.length :=
  (List.dropWhile_sublist Char.isDigit).length_le

/-- The point and what follows it. -/
theorem readFraction_le (r : List Char) :
    (match r with
      | '.' :: rest => rest.dropWhile Char.isDigit
      | r => r).length ≤ r.length := by
  split
  case h_1 rest =>
    have hDigits := dropDigits_le rest
    rw [List.length_cons]
    omega
  case h_2 => exact Nat.le_refl _

theorem readDouble_le (r : List Char) : (readDouble r).length ≤ r.length :=
  (readFraction_le _).trans
    ((dropDigits_le _).trans ((readSign_le _).trans (skipWhitespace_le r)))

theorem readBool_le (r : List Char) : (readBool r).length ≤ r.length := by
  have hLe := skipWhitespace_le r
  have hDrop : ∀ n, ((skipWhitespace r).drop n).length ≤ r.length := fun n =>
    (List.drop_sublist n _).length_le.trans hLe
  unfold readBool
  dsimp only
  split_ifs
  · exact hDrop 4
  · exact hDrop 5
  · exact hLe

/-! ## The way along the text -/

/-- What `ReadBool` takes. -/
def startsBool (r : List Char) : Bool :=
  "true".toList.isPrefixOf r || "false".toList.isPrefixOf r

/-- The end of what is skipped, with the brackets that are open, the innermost
first.  A closing bracket that is not the innermost one's is a character like any
other. -/
def skipEnd : List Bracket → List Char → Option (List Char)
  | [], r => some r
  | _ :: _, [] => some []
  | b :: outer, c :: r =>
      if c = b.opening then skipEnd (b :: b :: outer) r
      else if c = b.closing then skipEnd outer r
      else if c = '"' then skipEnd (b :: outer) (readCharacters r).2
      else if c = b.other.opening then skipEnd (b.other :: b :: outer) r
      else if (c = 't' || c = 'f') && !startsBool (c :: r) then none
      else skipEnd (b :: outer) r
termination_by _ r => r.length
decreasing_by
  all_goals
    have hCharacters := readCharacters_le r
    simp only [List.length_cons]
    omega

/-- The end of the value at the beginning of a text. -/
def valueEnd (r : List Char) : Option (List Char) :=
  match skipWhitespace r with
  | [] => some []
  | c :: rest =>
      if c = '"' then some (readString (c :: rest)).2
      else if c = '\x7b' then skipEnd [.object] rest
      else if c = '[' then skipEnd [.array] rest
      else if c = 't' || c = 'f' then some (readBool (c :: rest))
      else some (readDouble (c :: rest))

/-- What `readDouble` takes something of. -/
theorem readDouble_lt (hNumber : c = '-' ∨ c.isDigit = true ∨ c = '.') :
    (readDouble (c :: rest)).length < (c :: rest).length := by
  have hFraction := readFraction_le
  rcases hNumber with rfl | hDigit | rfl
  · have hDigits := (hFraction _).trans (dropDigits_le rest)
    exact Nat.lt_succ_of_le hDigits
  · obtain ⟨hSpace, -⟩ := number_head (b := .object) (Or.inr hDigit)
    have hSign : readSign (c :: rest) = (false, c :: rest) := by
      unfold readSign
      split
      case h_1 hText =>
        cases hText
        exact absurd hDigit (by decide)
      case h_2 => rfl
    unfold readDouble
    dsimp only
    rw [skipWhitespace_of_not hSpace, hSign]
    dsimp only
    rw [List.dropWhile_cons_of_pos hDigit]
    exact Nat.lt_succ_of_le ((hFraction _).trans (dropDigits_le rest))
  · exact Nat.lt_succ_of_le (dropDigits_le rest)

/-- What a field is left at. -/
def fieldEnd (field : String) (r : List Char) : Option (List Char) :=
  if field = "node_name" then some (readString r).2
  else if field = "open_runtime_usec" || field = "close_runtime_usec" ||
      field = "process_count" || field = "process_time_total_usec" then some (readInt64 r).2
  else if field = "process_time_mean_usec" then some (readDouble r)
  else valueEnd r

theorem skipEnd_le (outer : List Bracket) (r : List Char) :
    ∀ r', skipEnd outer r = some r' → r'.length ≤ r.length := by
  fun_induction skipEnd outer r with
  | case1 r => exact fun r' hEnd => (Option.some.inj hEnd) ▸ Nat.le_refl _
  | case2 => exact fun r' hEnd => (Option.some.inj hEnd) ▸ Nat.le_refl _
  | case3 _ _ _ ih => exact fun r' hEnd => Nat.le_succ_of_le (ih r' hEnd)
  | case4 _ _ _ _ ih => exact fun r' hEnd => Nat.le_succ_of_le (ih r' hEnd)
  | case5 _ _ r _ _ ih =>
      exact fun r' hEnd => Nat.le_succ_of_le ((ih r' hEnd).trans (readCharacters_le r))
  | case6 _ _ _ _ _ _ ih => exact fun r' hEnd => Nat.le_succ_of_le (ih r' hEnd)
  | case7 => exact fun r' hEnd => nomatch hEnd
  | case8 _ _ _ _ _ _ _ _ _ ih => exact fun r' hEnd => Nat.le_succ_of_le (ih r' hEnd)

theorem valueEnd_le (hEnd : valueEnd r = some r') : r'.length ≤ r.length := by
  have hLe := skipWhitespace_le r
  unfold valueEnd at hEnd
  split at hEnd
  case h_1 => exact (Option.some.inj hEnd) ▸ Nat.zero_le _
  case h_2 c rest hText =>
    rw [hText] at hLe
    split_ifs at hEnd
    · exact (Option.some.inj hEnd) ▸ (readString_le _).trans hLe
    · exact (skipEnd_le _ _ r' hEnd).trans (Nat.le_of_succ_le hLe)
    · exact (skipEnd_le _ _ r' hEnd).trans (Nat.le_of_succ_le hLe)
    · exact (Option.some.inj hEnd) ▸ (readBool_le _).trans hLe
    · exact (Option.some.inj hEnd) ▸ (readDouble_le _).trans hLe

theorem fieldEnd_le {field : String} (hEnd : fieldEnd field r = some r') :
    r'.length ≤ r.length := by
  unfold fieldEnd at hEnd
  split_ifs at hEnd
  · exact (Option.some.inj hEnd) ▸ readString_le r
  · exact (Option.some.inj hEnd) ▸ readInt64_le r
  · exact (Option.some.inj hEnd) ▸ readDouble_le r
  · exact valueEnd_le hEnd

/-! ## A skip -/

theorem skipEnd_cons (b : Bracket) (outer : List Bracket) (c : Char) (r : List Char) :
    skipEnd (b :: outer) (c :: r) =
      if c = b.opening then skipEnd (b :: b :: outer) r
      else if c = b.closing then skipEnd outer r
      else if c = '"' then skipEnd (b :: outer) (readCharacters r).2
      else if c = b.other.opening then skipEnd (b.other :: b :: outer) r
      else if (c = 't' || c = 'f') && !startsBool (c :: r) then none
      else skipEnd (b :: outer) r := by
  rw [skipEnd]

/-- Behind the inner brackets are the outer ones. -/
theorem skipEnd_append (inner outer : List Bracket) (r : List Char) :
    skipEnd (inner ++ outer) r = (skipEnd inner r).bind (skipEnd outer) := by
  fun_induction skipEnd inner r with
  | case1 r => rfl
  | case2 b inner =>
      have hEmpty : skipEnd outer [] = some [] := by cases outer <;> rw [skipEnd]
      rw [List.cons_append, skipEnd]
      exact hEmpty.symm
  | case3 b inner r ih =>
      rw [List.cons_append, skipEnd_cons, if_pos rfl]
      exact ih
  | case4 b inner r hOpening ih =>
      rw [List.cons_append, skipEnd_cons, if_neg hOpening, if_pos rfl]
      exact ih
  | case5 b inner r hOpening hClosing ih =>
      rw [List.cons_append, skipEnd_cons, if_neg hOpening, if_neg hClosing, if_pos rfl]
      exact ih
  | case6 b inner r hOpening hClosing hQuote ih =>
      rw [List.cons_append, skipEnd_cons, if_neg hOpening, if_neg hClosing, if_neg hQuote,
        if_pos rfl]
      exact ih
  | case7 b inner c r hOpening hClosing hQuote hOther hStuck =>
      rw [List.cons_append, skipEnd_cons, if_neg hOpening, if_neg hClosing, if_neg hQuote,
        if_neg hOther, if_pos hStuck]
      rfl
  | case8 b inner c r hOpening hClosing hQuote hOther hFree ih =>
      rw [List.cons_append, skipEnd_cons, if_neg hOpening, if_neg hClosing, if_neg hQuote,
        if_neg hOther, if_neg hFree]
      exact ih

/-- A character that a skip passes over. -/
def Plain (c : Char) : Prop := c ∉ ['"', '\x7b', '\x7d', '[', ']', 't', 'f']

instance : DecidablePred Plain := fun c =>
  inferInstanceAs (Decidable (c ∉ ['"', '\x7b', '\x7d', '[', ']', 't', 'f']))

variable {outer : List Bracket}

theorem skipEnd_plain (hPlain : Plain c) :
    skipEnd (b :: outer) (c :: r) = skipEnd (b :: outer) r := by
  simp only [Plain, List.mem_cons, List.not_mem_nil, or_false, not_or] at hPlain
  obtain ⟨hQuote, hBrace, hBrace', hSquare, hSquare', hT, hF⟩ := hPlain
  rw [skipEnd_cons]
  cases b
  all_goals
    simp [Bracket.opening, Bracket.closing, Bracket.other, hQuote, hBrace, hBrace', hSquare,
      hSquare', hT, hF]

theorem skipEnd_dropWhile {p : Char → Bool} (hPlain : ∀ c, p c = true → Plain c)
    (r : List Char) : skipEnd (b :: outer) (r.dropWhile p) = skipEnd (b :: outer) r := by
  induction r with
  | nil => rfl
  | cons c r ih =>
      cases hHead : p c with
      | true => rw [List.dropWhile_cons_of_pos hHead, skipEnd_plain (hPlain c hHead), ih]
      | false => rw [List.dropWhile_cons_of_neg (by simp [hHead])]

theorem plain_of_isSpace (hSpace : isSpace c = true) : Plain c := by
  simp only [isSpace, Bool.or_eq_true, decide_eq_true_eq] at hSpace
  rcases hSpace with ((rfl | rfl) | rfl) | rfl
  all_goals decide

theorem plain_of_isDigit (hDigit : c.isDigit = true) : Plain c := by
  have hNot : ∀ d : Char, d.isDigit = false → c ≠ d := by
    rintro d hOther rfl
    exact absurd hDigit (by simp [hOther])
  simp [Plain, hNot '"' rfl, hNot '\x7b' rfl, hNot '\x7d' rfl, hNot '[' rfl, hNot ']' rfl,
    hNot 't' rfl, hNot 'f' rfl]

theorem skipEnd_whitespace (r : List Char) :
    skipEnd (b :: outer) (skipWhitespace r) = skipEnd (b :: outer) r :=
  skipEnd_dropWhile (fun _ => plain_of_isSpace) r

theorem skipEnd_sign (r : List Char) :
    skipEnd (b :: outer) (readSign r).2 = skipEnd (b :: outer) r := by
  unfold readSign
  split
  · exact (skipEnd_plain (by decide)).symm
  · rfl

/-- A number is passed over whole or character by character. -/
theorem skipEnd_double (r : List Char) :
    skipEnd (b :: outer) (readDouble r) = skipEnd (b :: outer) r := by
  have hDigits : ∀ r : List Char,
      skipEnd (b :: outer) (r.dropWhile Char.isDigit) = skipEnd (b :: outer) r :=
    skipEnd_dropWhile fun _ => plain_of_isDigit
  have hFraction : ∀ r : List Char,
      skipEnd (b :: outer) (match r with
        | '.' :: rest => rest.dropWhile Char.isDigit
        | r => r) = skipEnd (b :: outer) r := by
    intro r
    split
    · rw [hDigits, skipEnd_plain (by decide)]
    · rfl
  calc skipEnd (b :: outer) (readDouble r)
      = skipEnd (b :: outer) ((readSign (skipWhitespace r)).2.dropWhile Char.isDigit) :=
        hFraction _
    _ = skipEnd (b :: outer) (readSign (skipWhitespace r)).2 := hDigits _
    _ = skipEnd (b :: outer) (skipWhitespace r) := skipEnd_sign _
    _ = skipEnd (b :: outer) r := skipEnd_whitespace r

theorem startsBool_cases (hBool : startsBool r = true) :
    ∃ rest, r = 't' :: 'r' :: 'u' :: 'e' :: rest ∨
      r = 'f' :: 'a' :: 'l' :: 's' :: 'e' :: rest := by
  rw [startsBool, Bool.or_eq_true, List.isPrefixOf_iff_prefix, List.isPrefixOf_iff_prefix] at hBool
  rcases hBool with ⟨rest, rfl⟩ | ⟨rest, rfl⟩
  · exact ⟨rest, Or.inl rfl⟩
  · exact ⟨rest, Or.inr rfl⟩

theorem readBool_lt (hBool : startsBool r = true) : (readBool r).length < r.length := by
  obtain ⟨rest, rfl | rfl⟩ := startsBool_cases hBool
  · show rest.length < rest.length + 4
    omega
  · show rest.length < rest.length + 5
    omega

theorem skipEnd_letter (hLetter : c = 't' ∨ c = 'f') (hBool : startsBool (c :: r) = true) :
    skipEnd (b :: outer) (c :: r) = skipEnd (b :: outer) r := by
  rw [skipEnd_cons]
  rcases hLetter with rfl | rfl
  all_goals cases b <;> simp [Bracket.opening, Bracket.closing, Bracket.other, hBool]

/-- A word is passed over whole or character by character. -/
theorem skipEnd_bool (hBool : startsBool r = true) :
    skipEnd (b :: outer) (readBool r) = skipEnd (b :: outer) r := by
  obtain ⟨rest, rfl | rfl⟩ := startsBool_cases hBool
  · show skipEnd (b :: outer) rest = _
    rw [skipEnd_letter (Or.inl rfl) hBool, skipEnd_plain (by decide), skipEnd_plain (by decide),
      skipEnd_plain (by decide)]
  · show skipEnd (b :: outer) rest = _
    rw [skipEnd_letter (Or.inr rfl) hBool, skipEnd_plain (by decide), skipEnd_plain (by decide),
      skipEnd_plain (by decide), skipEnd_plain (by decide)]

/-- One turn of the loop. -/
theorem skipLoop_turn (hText : skipWhitespace r = c :: rest) (fuel depth : Nat) :
    skipLoop (fuel + 1) b (depth + 1) r =
      if c = b.opening then skipLoop fuel b (depth + 2) rest
      else if c = b.closing then skipLoop fuel b depth rest
      else if c = '"' then skipLoop fuel b (depth + 1) (readString (c :: rest)).2
      else if c = b.other.opening then
        (skipLoop fuel b.other 1 (expect b.other.opening (c :: rest)).2).bind
          (skipLoop fuel b (depth + 1))
      else if c = 't' || c = 'f' then skipLoop fuel b (depth + 1) (readBool (c :: rest))
      else if c = '-' || c.isDigit then skipLoop fuel b (depth + 1) (readDouble (c :: rest))
      else skipLoop fuel b (depth + 1) rest := by
  cases r with
  | nil => cases hText
  | cons c' r => rw [skipLoop, hText]

theorem readBool_stuck (hLetter : c = 't' ∨ c = 'f') (hBool : startsBool (c :: r) = false) :
    readBool (c :: r) = c :: r := by
  rw [startsBool, Bool.or_eq_false_iff] at hBool
  have hText : skipWhitespace (c :: r) = c :: r := by
    refine skipWhitespace_of_not ?_
    rcases hLetter with rfl | rfl
    all_goals rfl
  unfold readBool
  dsimp only
  rw [hText, if_neg (by rw [hBool.1]; decide), if_neg (by rw [hBool.2]; decide)]

/-- In front of such a letter the loop does not move. -/
theorem skipLoop_stuck (hText : skipWhitespace r = c :: rest) (hLetter : c = 't' ∨ c = 'f')
    (hBool : startsBool (c :: rest) = false) (depth : Nat) :
    Diverges (fun fuel => skipLoop fuel b (depth + 1) r) := by
  have hTurn : ∀ r, skipWhitespace r = c :: rest → ∀ fuel,
      skipLoop (fuel + 1) b (depth + 1) r = skipLoop fuel b (depth + 1) (c :: rest) := by
    intro r hText fuel
    rw [skipLoop_turn hText, readBool_stuck hLetter hBool]
    rcases hLetter with rfl | rfl
    all_goals cases b <;> rfl
  have hHere : skipWhitespace (c :: rest) = c :: rest := by
    refine skipWhitespace_of_not ?_
    rcases hLetter with rfl | rfl
    all_goals rfl
  exact Diverges.step rfl (hTurn r hText) (Diverges.loop rfl (hTurn (c :: rest) hHere))

/-- What one turn of a skip comes to: it goes on behind what it has read, or behind a
bracket of the other kind, or it stands where it is for ever. -/
inductive SkipTurn (b : Bracket) (depth : Nat) (r rest : List Char) : Prop
  | on (depth' : Nat) (r' : List Char)
      (turn : ∀ fuel, skipLoop (fuel + 1) b (depth + 1) r = skipLoop fuel b depth' r')
      (le : r'.length ≤ rest.length)
      (ends : skipEnd (List.replicate (depth + 1) b) r = skipEnd (List.replicate depth' b) r')
  | nested
      (turn : ∀ fuel, skipLoop (fuel + 1) b (depth + 1) r =
        (skipLoop fuel b.other 1 rest).bind (skipLoop fuel b (depth + 1)))
      (ends : skipEnd (List.replicate (depth + 1) b) r =
        (skipEnd [b.other] rest).bind (skipEnd (List.replicate (depth + 1) b)))
  | stuck (diverges : Diverges (fun fuel => skipLoop fuel b (depth + 1) r))
      (ends : skipEnd (List.replicate (depth + 1) b) r = none)

theorem skipLoop_cases (hText : skipWhitespace r = c :: rest) (depth : Nat) :
    SkipTurn b depth r rest := by
  have hTurn := fun fuel => skipLoop_turn (b := b) hText fuel depth
  have hEnds : skipEnd (List.replicate (depth + 1) b) r =
      skipEnd (b :: List.replicate depth b) (c :: rest) := by
    rw [List.replicate_succ, ← skipEnd_whitespace, hText]
  have hHead := skipEnd_cons b (List.replicate depth b) c rest
  by_cases hOpening : c = b.opening
  · simp only [if_pos hOpening] at hTurn hHead
    exact .on (depth + 2) rest hTurn (Nat.le_refl _) (hEnds.trans hHead)
  simp only [if_neg hOpening] at hTurn hHead
  by_cases hClosing : c = b.closing
  · simp only [if_pos hClosing] at hTurn hHead
    exact .on depth rest hTurn (Nat.le_refl _) (hEnds.trans hHead)
  simp only [if_neg hClosing] at hTurn hHead
  by_cases hQuote : c = '"'
  · have hRead : (readString (c :: rest)).2 = (readCharacters rest).2 := by
      rw [hQuote]
      rfl
    simp only [if_pos hQuote, hRead] at hTurn hHead
    exact .on (depth + 1) _ hTurn (readCharacters_le rest) (hEnds.trans hHead)
  simp only [if_neg hQuote] at hTurn hHead
  by_cases hOther : c = b.other.opening
  · have hExpect : (expect b.other.opening (c :: rest)).2 = rest := by
      rw [hOther]
      cases b <;> rfl
    simp only [if_pos hOther, hExpect] at hTurn hHead
    exact .nested hTurn (hEnds.trans (hHead.trans (skipEnd_append [b.other] _ rest)))
  simp only [if_neg hOther] at hTurn hHead
  by_cases hLetter : c = 't' ∨ c = 'f'
  · have hLetter' : (c = 't' || c = 'f') = true := by simpa using hLetter
    simp only [hLetter', if_true, Bool.true_and] at hTurn hHead
    cases hBool : startsBool (c :: rest) with
    | false =>
        refine .stuck (skipLoop_stuck hText hLetter hBool depth) (hEnds.trans (hHead.trans ?_))
        rw [hBool]
        rfl
    | true =>
        exact .on (depth + 1) _ hTurn (Nat.le_of_lt_succ (readBool_lt hBool))
          (hEnds.trans (skipEnd_bool hBool).symm)
  have hLetter' : (c = 't' || c = 'f') = false := by simpa using hLetter
  simp only [hLetter', Bool.false_and, Bool.false_eq_true, if_false] at hTurn hHead
  by_cases hNumber : c = '-' ∨ c.isDigit = true
  · have hNumber' : (c = '-' || c.isDigit) = true := by simpa using hNumber
    simp only [if_pos hNumber'] at hTurn
    exact .on (depth + 1) _ hTurn
      (Nat.le_of_lt_succ (readDouble_lt (hNumber.imp_right Or.inl)))
      (hEnds.trans (skipEnd_double _).symm)
  · have hNumber' : ¬ (c = '-' || c.isDigit) = true := by simpa using hNumber
    simp only [if_neg hNumber'] at hTurn
    exact .on (depth + 1) rest hTurn (Nat.le_refl _) (hEnds.trans hHead)

theorem skipEnd_blank (hText : skipWhitespace r = []) : skipEnd (b :: outer) r = some [] := by
  rw [← skipEnd_whitespace, hText, skipEnd]

theorem skipLoop_blank (hText : skipWhitespace r = []) (hLength : r.length = n) (depth : Nat) :
    Settles (fun fuel => skipLoop fuel b (depth + 1) r) n Eq (some []) := by
  cases r with
  | nil => exact Settles.stop rfl (fun _ => rfl) rfl
  | cons c r =>
      have hTurn : ∀ fuel, skipLoop (fuel + 1) b (depth + 1) (c :: r) =
          skipLoop fuel b (depth + 1) [] := by
        intro fuel
        rw [skipLoop, hText]
      have hHere : Settles (fun fuel => skipLoop fuel b (depth + 1) []) 0 Eq (some []) :=
        Settles.stop rfl (fun _ => rfl) rfl
      exact Settles.step rfl hTurn (by rw [← hLength]; exact Nat.succ_pos _) hHere

/-- The skips end where `skipEnd` says, or never. -/
theorem skipLoop_settles (n : Nat) : ∀ (b : Bracket) (depth : Nat) (r : List Char), r.length = n →
    Settles (fun fuel => skipLoop fuel b depth r) n Eq (skipEnd (List.replicate depth b) r) := by
  induction n using Nat.strong_induction_on with
  | _ n ih =>
  intro b depth r hLength
  cases depth with
  | zero =>
      rw [List.replicate_zero, skipEnd]
      exact Settles.stop rfl (fun _ => rfl) rfl
  | succ depth =>
      have hLe := skipWhitespace_le r
      cases hText : skipWhitespace r with
      | nil =>
          rw [List.replicate_succ, skipEnd_blank hText]
          exact skipLoop_blank hText hLength depth
      | cons c rest =>
          rw [hText, List.length_cons, hLength] at hLe
          cases skipLoop_cases (b := b) hText depth with
          | on depth' r' hTurn hBehind hEnds =>
              have hShort := hBehind.trans_lt hLe
              rw [hEnds]
              exact Settles.step rfl hTurn hShort (ih _ hShort b depth' r' rfl)
          | nested hTurn hEnds =>
              rw [hEnds]
              refine Settles.step rfl hTurn hLe ((ih _ hLe b.other 1 rest rfl).bind ?_)
              rintro a _ hInner rfl
              have hShort := skipEnd_le _ _ a hInner
              exact (ih _ (hShort.trans_lt hLe) b (depth + 1) a rfl).mono hShort
          | stuck hDiverges hEnds =>
              rw [hEnds]
              exact hDiverges

theorem skipValue_settles (r : List Char) :
    Settles (fun fuel => skipValue fuel r) (r.length - 1) Eq (valueEnd r) := by
  have hLe := skipWhitespace_le r
  unfold skipValue valueEnd
  cases hText : skipWhitespace r with
  | nil => exact Settles.pure rfl
  | cons c rest =>
      rw [hText, List.length_cons] at hLe
      have hNested : ∀ b : Bracket, c = b.opening →
          Settles (fun fuel => skipNested fuel b (c :: rest)) (r.length - 1) Eq
            (skipEnd [b] rest) := by
        rintro b rfl
        have hExpect : (expect b.opening (b.opening :: rest)).2 = rest := by
          cases b <;> rfl
        simp only [skipNested, hExpect]
        exact (skipLoop_settles _ b 1 rest rfl).mono (Nat.le_sub_one_of_lt hLe)
      dsimp only
      split_ifs with hQuote hBrace hSquare hLetter
      · exact Settles.pure rfl
      · exact hNested .object hBrace
      · exact hNested .array hSquare
      · exact Settles.pure rfl
      · exact Settles.pure rfl

/-! ## A record -/

theorem readField_settles (field : String) (f : NodeFields) (r : List Char) :
    Settles (fun fuel => readField fuel field f r) r.length (fun p r' => p.1 = r')
      (fieldEnd field r) := by
  by_cases hKnown : field = "node_name" ∨ field = "open_runtime_usec" ∨
      field = "close_runtime_usec" ∨ field = "process_count" ∨
      field = "process_time_total_usec" ∨ field = "process_time_mean_usec"
  · rcases hKnown with rfl | rfl | rfl | rfl | rfl | rfl
    all_goals exact Settles.pure rfl
  · simp only [not_or] at hKnown
    obtain ⟨hName, hOpen, hClose, hCount, hTotal, hMean⟩ := hKnown
    simp only [readField, fieldEnd, hName, hOpen, hClose, hCount, hTotal, hMean, if_false,
      decide_false, Bool.or_false, Bool.false_eq_true]
    have hValue := ((skipValue_settles r).mono (Nat.sub_le _ 1)).map
      (S := fun (p : List Char × NodeFields) r' => p.1 = r') (fun r => (r, f)) id
      fun _ _ hSame => hSame
    rwa [Option.map_id, id_eq] at hValue

/-- The end of the fields of a record. -/
def fieldsEnd (r : List Char) : Option (List Char) :=
  match _hText : skipWhitespace r with
  | [] => some []
  | c :: rest =>
      if c = '\x7d' then some (expect ',' rest).2
      else if _hKey : (readKey (c :: rest)).1 = "" then some (readKey (c :: rest)).2
      else
        match _hEnd : fieldEnd (readKey (c :: rest)).1 (expect ':' (readKey (c :: rest)).2).2 with
        | none => none
        | some r' => fieldsEnd (expect ',' r').2
termination_by r.length
decreasing_by
  have hLe := skipWhitespace_le r
  have hField := (fieldEnd_le _hEnd).trans (expect_le ':' _)
  rw [_hText] at hLe
  exact ((expect_le ',' _).trans hField).trans_lt ((readKey_lt _hKey).trans_le hLe)

theorem fieldsEnd_eq (hText : skipWhitespace r = c :: rest) :
    fieldsEnd r =
      if c = '\x7d' then some (expect ',' rest).2
      else if (readKey (c :: rest)).1 = "" then some (readKey (c :: rest)).2
      else
        (fieldEnd (readKey (c :: rest)).1 (expect ':' (readKey (c :: rest)).2).2).bind
          fun r => fieldsEnd (expect ',' r).2 := by
  rw [fieldsEnd]
  split
  case h_1 hEmpty => simp [hText] at hEmpty
  case h_2 c' rest' hHere =>
    obtain ⟨rfl, rfl⟩ := List.cons.inj (hText.symm.trans hHere)
    split_ifs
    · rfl
    · rfl
    · split
      case h_1 hEnd => rw [hEnd, Option.bind_none]
      case h_2 r' hEnd => rw [hEnd, Option.bind_some]

theorem fieldsEnd_blank (hText : skipWhitespace r = []) : fieldsEnd r = some [] := by
  rw [fieldsEnd]
  split
  case h_1 => rfl
  case h_2 hHere => simp [hText] at hHere

/-- One turn of the loop over the fields. -/
theorem fieldsLoop_turn (hText : skipWhitespace r = c :: rest) (fuel : Nat) (f : NodeFields) :
    fieldsLoop (fuel + 1) f r =
      if c = '\x7d' then some ((expect ',' rest).2, f)
      else if (readKey (c :: rest)).1 = "" then some ((readKey (c :: rest)).2, f)
      else
        (readField fuel (readKey (c :: rest)).1 f (expect ':' (readKey (c :: rest)).2).2).bind
          fun p => fieldsLoop fuel p.2 (expect ',' p.1).2 := by
  cases r with
  | nil => cases hText
  | cons c' r =>
      rw [fieldsLoop]
      by_cases hBrace : c = '\x7d'
      · rw [expect_eq (hBrace ▸ hText), if_pos hBrace]
      · rw [expect_ne hText hBrace, if_neg hBrace]

theorem fieldsLoop_settles (n : Nat) : ∀ (f : NodeFields) (r : List Char), r.length = n →
    Settles (fun fuel => fieldsLoop fuel f r) n (fun p r' => p.1 = r') (fieldsEnd r) := by
  induction n using Nat.strong_induction_on with
  | _ n ih =>
  intro f r hLength
  have hLe := skipWhitespace_le r
  cases hText : skipWhitespace r with
  | nil =>
      rw [fieldsEnd_blank hText]
      refine Settles.stop (a := ([], f)) rfl (fun fuel => ?_) rfl
      cases r with
      | nil => rfl
      | cons c r =>
          have hExpect : expect '\x7d' (c :: r) = (false, []) := by simp [expect, hText]
          rw [fieldsLoop, hExpect]
          rfl
  | cons c rest =>
      rw [hText, List.length_cons, hLength] at hLe
      have hTurn := fun fuel => fieldsLoop_turn hText fuel f
      rw [fieldsEnd_eq hText]
      split_ifs with hBrace hKey
      · simp only [if_pos hBrace] at hTurn
        exact Settles.stop rfl hTurn rfl
      · simp only [if_neg hBrace, if_pos hKey] at hTurn
        exact Settles.stop rfl hTurn rfl
      · simp only [if_neg hBrace, if_neg hKey] at hTurn
        have hShort := ((expect_le ':' _).trans_lt (readKey_lt hKey)).trans_le hLe
        refine Settles.step rfl hTurn hShort ((readField_settles _ f _).bind ?_)
        rintro ⟨r', f'⟩ _ hField rfl
        have hLeft := (expect_le ',' r').trans (fieldEnd_le hField)
        exact (ih _ (hLeft.trans_lt hShort) f' _ rfl).mono hLeft

theorem fieldsEnd_le (r : List Char) :
    ∀ r', fieldsEnd r = some r' → r'.length ≤ r.length := by
  fun_induction fieldsEnd r with
  | case1 => exact fun r' hEnd => (Option.some.inj hEnd) ▸ Nat.zero_le _
  | case2 r rest hText =>
      have hLe := skipWhitespace_le r
      rw [hText, List.length_cons] at hLe
      exact fun r' hEnd =>
        (Option.some.inj hEnd) ▸ (expect_le ',' rest).trans (Nat.le_of_succ_le hLe)
  | case3 r c rest hText _ _ =>
      have hLe := skipWhitespace_le r
      rw [hText] at hLe
      exact fun r' hEnd => (Option.some.inj hEnd) ▸ (readString_le _).trans hLe
  | case4 => exact fun r' hEnd => nomatch hEnd
  | case5 r c rest hText _ _ left hField ih =>
      have hLe := skipWhitespace_le r
      rw [hText] at hLe
      have hShort := ((fieldEnd_le hField).trans (expect_le ':' _)).trans (readString_le _)
      exact fun r' hEnd => (ih r' hEnd).trans ((expect_le ',' left).trans (hShort.trans hLe))

/-! ## The records -/

/-- What a turn of the loop over the records takes something of, if it is no
record. -/
def takesElement (c : Char) (rest : List Char) : Bool :=
  c = '"' || c = '[' || c = ',' || c = '-' || c = '.' || c.isDigit || startsBool (c :: rest)

theorem element_lt (hTakes : takesElement c rest = true)
    (hEnd : valueEnd (c :: rest) = some r') :
    (expect ',' r').2.length < (c :: rest).length := by
  have hComma := expect_le ',' r'
  have hNumber : c = '-' ∨ c.isDigit = true ∨ c = '.' →
      (expect ',' r').2.length < (c :: rest).length := by
    intro hHead
    have hValue : valueEnd (c :: rest) = some (readDouble (c :: rest)) := by
      rcases hHead with rfl | hDigit | rfl
      · rfl
      · obtain ⟨hSpace, -, -, hQuote, -, hT, hF, hBrace, hSquare⟩ :=
          number_head (b := .object) (Or.inr hDigit)
        rw [valueEnd, skipWhitespace_of_not hSpace]
        simp [hQuote, hBrace, hSquare, hT, hF]
      · rfl
    obtain rfl := Option.some.inj (hValue.symm.trans hEnd)
    exact hComma.trans_lt (readDouble_lt hHead)
  simp only [takesElement, Bool.or_eq_true, decide_eq_true_eq] at hTakes
  rcases hTakes with (((((rfl | rfl) | rfl) | rfl) | rfl) | hDigit) | hBool
  · obtain rfl := Option.some.inj hEnd
    exact hComma.trans_lt (Nat.lt_succ_of_le (readCharacters_le rest))
  · exact hComma.trans_lt (Nat.lt_succ_of_le (skipEnd_le _ _ _ hEnd))
  · obtain rfl := Option.some.inj hEnd
    exact Nat.lt_succ_of_le (Nat.le_refl _)
  · exact hNumber (Or.inl rfl)
  · exact hNumber (Or.inr (Or.inr rfl))
  · exact hNumber (Or.inr (Or.inl hDigit))
  · have hShort := readBool_lt hBool
    have hValue : valueEnd (c :: rest) = some (readBool (c :: rest)) := by
      obtain ⟨tail, hWord | hWord⟩ := startsBool_cases hBool
      all_goals
        cases hWord
        rfl
    obtain rfl := Option.some.inj (hValue.symm.trans hEnd)
    exact hComma.trans_lt hShort

/-- The end of the list of nodes. -/
def nodesEnd (r : List Char) : Option (List Char) :=
  match _hText : skipWhitespace r with
  | [] => some []
  | c :: rest =>
      if c = ']' then some rest
      else if c = '\x7b' then
        match _hEnd : fieldsEnd rest with
        | none => none
        | some r' => nodesEnd r'
      else if _hTakes : takesElement c rest = true then
        match _hEnd : valueEnd (c :: rest) with
        | none => none
        | some r' => nodesEnd (expect ',' r').2
      else none
termination_by r.length
decreasing_by
  all_goals
    have hLe := skipWhitespace_le r
    rw [_hText] at hLe
  · exact (Nat.lt_succ_of_le (fieldsEnd_le rest _ _hEnd)).trans_le hLe
  · exact (element_lt _hTakes _hEnd).trans_le hLe

theorem nodesEnd_blank (hText : skipWhitespace r = []) : nodesEnd r = some [] := by
  rw [nodesEnd]
  split
  case h_1 => rfl
  case h_2 hHere => simp [hText] at hHere

theorem nodesEnd_eq (hText : skipWhitespace r = c :: rest) :
    nodesEnd r =
      if c = ']' then some rest
      else if c = '\x7b' then (fieldsEnd rest).bind nodesEnd
      else if takesElement c rest = true then
        (valueEnd (c :: rest)).bind fun r => nodesEnd (expect ',' r).2
      else none := by
  rw [nodesEnd]
  split
  case h_1 hEmpty => simp [hText] at hEmpty
  case h_2 c' rest' hHere =>
    obtain ⟨rfl, rfl⟩ := List.cons.inj (hText.symm.trans hHere)
    split_ifs
    · rfl
    · split
      case h_1 hEnd => rw [hEnd, Option.bind_none]
      case h_2 r' hEnd => rw [hEnd, Option.bind_some]
    · split
      case h_1 hEnd => rw [hEnd, Option.bind_none]
      case h_2 r' hEnd => rw [hEnd, Option.bind_some]
    · rfl

theorem not_isSpace (hText : skipWhitespace r = c :: rest) : isSpace c = false := by
  have hHead := List.head?_dropWhile_not isSpace r
  unfold skipWhitespace at hText
  rw [hText] at hHead
  simpa using hHead

theorem skipValue_stuck (hText : skipWhitespace r = c :: rest) (hBrace : c ≠ '\x7b')
    (hStays : takesElement c rest = false) (fuel : Nat) :
    skipValue fuel (c :: rest) = some (c :: rest) ∧
      expect ',' (c :: rest) = (false, c :: rest) := by
  have hSelf : skipWhitespace (c :: rest) = c :: rest := skipWhitespace_of_not (not_isSpace hText)
  simp only [takesElement, Bool.or_eq_false_iff, decide_eq_false_iff_not] at hStays
  obtain ⟨⟨⟨⟨⟨⟨hQuote, hSquare⟩, hComma⟩, hMinus⟩, hPoint⟩, hDigit⟩, hBool⟩ := hStays
  refine ⟨?_, expect_ne hSelf hComma⟩
  have hSign : readSign (c :: rest) = (false, c :: rest) := by
    unfold readSign
    split
    case h_1 hHere => exact absurd (List.cons.inj hHere).1 hMinus
    case h_2 => rfl
  have hDouble : readDouble (c :: rest) = c :: rest := by
    unfold readDouble
    dsimp only
    rw [hSelf, hSign]
    dsimp only
    rw [List.dropWhile_cons_of_neg (by simp [hDigit])]
    split
    case h_1 hHere => exact absurd (List.cons.inj hHere).1 hPoint
    case h_2 => rfl
  rw [skipValue, hSelf]
  dsimp only
  rw [if_neg hQuote, if_neg hBrace, if_neg hSquare]
  split_ifs with hLetter
  · rw [readBool_stuck (by simpa using hLetter) hBool]
  · rw [hDouble]

/-- One turn of the loop over the records. -/
theorem nodesLoop_turn (hText : skipWhitespace r = c :: rest) (fuel : Nat)
    (data : List PerNodeAccum) :
    nodesLoop (fuel + 1) data r =
      if c = ']' then some (rest, data)
      else if c = '\x7b' then
        (fieldsLoop fuel {} rest).bind fun p =>
          nodesLoop fuel (if p.2.name = "" then data else accumulateNode p.2 data) p.1
      else (skipValue fuel (c :: rest)).bind fun r => nodesLoop fuel data (expect ',' r).2 := by
  have hSelf : skipWhitespace (c :: rest) = c :: rest := skipWhitespace_of_not (not_isSpace hText)
  cases r with
  | nil => cases hText
  | cons c' r =>
      rw [nodesLoop]
      by_cases hSquare : c = ']'
      · rw [expect_eq (hSquare ▸ hText), if_pos hSquare]
      · rw [expect_ne hText hSquare, if_neg hSquare]
        dsimp only
        by_cases hBrace : c = '\x7b'
        · rw [expect_eq (hSelf.trans (by rw [hBrace])), if_pos hBrace]
        · rw [expect_ne hSelf hBrace, if_neg hBrace]

/-- In front of such an element the loop does not move. -/
theorem nodesLoop_stays (hText : skipWhitespace r = c :: rest) (hSquare : c ≠ ']')
    (hBrace : c ≠ '\x7b') (hStays : takesElement c rest = false) (data : List PerNodeAccum) :
    Diverges (fun fuel => nodesLoop fuel data r) := by
  have hTurn : ∀ r, skipWhitespace r = c :: rest → ∀ fuel,
      nodesLoop (fuel + 1) data r = nodesLoop fuel data (c :: rest) := by
    intro r hText fuel
    obtain ⟨hSkip, hComma⟩ := skipValue_stuck hText hBrace hStays fuel
    rw [nodesLoop_turn hText, if_neg hSquare, if_neg hBrace, hSkip, Option.bind_some, hComma]
  have hHere : skipWhitespace (c :: rest) = c :: rest := skipWhitespace_of_not (not_isSpace hText)
  exact Diverges.step rfl (hTurn r hText) (Diverges.loop rfl (hTurn (c :: rest) hHere))

theorem nodesLoop_settles (n : Nat) : ∀ (data : List PerNodeAccum) (r : List Char),
    r.length = n →
    Settles (fun fuel => nodesLoop fuel data r) n (fun p r' => p.1 = r') (nodesEnd r) := by
  induction n using Nat.strong_induction_on with
  | _ n ih =>
  intro data r hLength
  have hLe := skipWhitespace_le r
  cases hText : skipWhitespace r with
  | nil =>
      rw [nodesEnd_blank hText]
      cases r with
      | nil => exact Settles.stop (a := ([], data)) rfl (fun _ => rfl) rfl
      | cons c r =>
          have hExpect : ∀ c', expect c' (c :: r) = (false, []) := by simp [expect, hText]
          have hHere : Settles (fun fuel => nodesLoop fuel data []) 0 (fun p r' => p.1 = r')
              (some []) := Settles.stop (a := ([], data)) rfl (fun _ => rfl) rfl
          refine Settles.step rfl (fun fuel => ?_) (by rw [← hLength]; exact Nat.succ_pos _) hHere
          rw [nodesLoop, hExpect]
          rfl
  | cons c rest =>
      rw [hText, List.length_cons, hLength] at hLe
      have hTurn := fun fuel => nodesLoop_turn hText fuel data
      rw [nodesEnd_eq hText]
      split_ifs with hSquare hBrace hTakes
      · simp only [if_pos hSquare] at hTurn
        exact Settles.stop rfl hTurn rfl
      · simp only [if_neg hSquare, if_pos hBrace] at hTurn
        refine Settles.step rfl hTurn hLe ((fieldsLoop_settles _ {} rest rfl).bind ?_)
        rintro ⟨r', f⟩ _ hFields rfl
        have hLeft := fieldsEnd_le rest _ hFields
        exact (ih _ (hLeft.trans_lt hLe) _ r' rfl).mono hLeft
      · simp only [if_neg hSquare, if_neg hBrace] at hTurn
        refine Settles.step rfl hTurn hLe ((skipValue_settles (c :: rest)).bind ?_)
        rintro r' _ hValue rfl
        have hLeft := element_lt hTakes hValue
        exact (ih _ (hLeft.trans_le hLe) data _ rfl).mono (Nat.le_of_lt_succ hLeft)
      · exact nodesLoop_stays hText hSquare hBrace (by simpa using hTakes) data

/-! ## The profile -/

theorem nodesEnd_le (r : List Char) : ∀ r', nodesEnd r = some r' → r'.length ≤ r.length := by
  fun_induction nodesEnd r with
  | case1 => exact fun r' hEnd => (Option.some.inj hEnd) ▸ Nat.zero_le _
  | case2 r rest hText =>
      have hLe := skipWhitespace_le r
      rw [hText, List.length_cons] at hLe
      exact fun r' hEnd => (Option.some.inj hEnd) ▸ Nat.le_of_succ_le hLe
  | case3 => exact fun r' hEnd => nomatch hEnd
  | case4 r rest left hFields hText _ ih =>
      have hLe := skipWhitespace_le r
      rw [hText, List.length_cons] at hLe
      have hShort := (fieldsEnd_le rest left hFields).trans (Nat.le_of_succ_le hLe)
      exact fun r' hEnd => (ih r' hEnd).trans hShort
  | case5 => exact fun r' hEnd => nomatch hEnd
  | case6 r c rest hText _ _ hTakes left hValue ih =>
      have hLe := skipWhitespace_le r
      rw [hText] at hLe
      have hShort := (element_lt hTakes hValue).le.trans hLe
      exact fun r' hEnd => (ih r' hEnd).trans hShort
  | case7 => exact fun r' hEnd => nomatch hEnd

/-- What a member of the profile is left at. -/
def memberEnd (key : String) (r : List Char) : Option (List Char) :=
  if key = "nodes" then
    match expect '[' r with
    | (false, r) => (valueEnd r).map fun r => (expect ',' r).2
    | (true, r) => nodesEnd r
  else (valueEnd r).map fun r => (expect ',' r).2

theorem memberEnd_le {key : String} (hEnd : memberEnd key r = some r') :
    r'.length ≤ r.length := by
  have hValue : ∀ {r : List Char}, ((valueEnd r).map fun r => (expect ',' r).2) = some r' →
      r'.length ≤ r.length := by
    intro r hMap
    obtain ⟨left, hLeft, rfl⟩ := Option.map_eq_some_iff.mp hMap
    exact (expect_le ',' left).trans (valueEnd_le hLeft)
  have hLe := expect_le '[' r
  unfold memberEnd at hEnd
  split_ifs at hEnd
  · split at hEnd
    case h_1 hExpect =>
      rw [hExpect] at hLe
      exact (hValue hEnd).trans hLe
    case h_2 hExpect =>
      rw [hExpect] at hLe
      exact (nodesEnd_le _ _ hEnd).trans hLe
  · exact hValue hEnd

/-- What the loop over the members is left at. -/
def membersEnd (r : List Char) : Option (List Char) :=
  match _hText : skipWhitespace r with
  | [] => some []
  | c :: rest =>
      if c = '\x7d' then some rest
      else if _hKey : (readKey (c :: rest)).1 = "" then some (readKey (c :: rest)).2
      else
        match _hEnd : memberEnd (readKey (c :: rest)).1 (expect ':' (readKey (c :: rest)).2).2 with
        | none => none
        | some r' => membersEnd r'
termination_by r.length
decreasing_by
  have hLe := skipWhitespace_le r
  have hMember := (memberEnd_le _hEnd).trans (expect_le ':' _)
  rw [_hText] at hLe
  exact hMember.trans_lt ((readKey_lt _hKey).trans_le hLe)

theorem membersEnd_blank (hText : skipWhitespace r = []) : membersEnd r = some [] := by
  rw [membersEnd]
  split
  case h_1 => rfl
  case h_2 hHere => simp [hText] at hHere

theorem membersEnd_eq (hText : skipWhitespace r = c :: rest) :
    membersEnd r =
      if c = '\x7d' then some rest
      else if (readKey (c :: rest)).1 = "" then some (readKey (c :: rest)).2
      else
        (memberEnd (readKey (c :: rest)).1 (expect ':' (readKey (c :: rest)).2).2).bind
          membersEnd := by
  rw [membersEnd]
  split
  case h_1 hEmpty => simp [hText] at hEmpty
  case h_2 c' rest' hHere =>
    obtain ⟨rfl, rfl⟩ := List.cons.inj (hText.symm.trans hHere)
    split_ifs
    · rfl
    · rfl
    · split
      case h_1 hEnd => rw [hEnd, Option.bind_none]
      case h_2 r' hEnd => rw [hEnd, Option.bind_some]

/-- What the loop does with a member. -/
def readMember (fuel : Nat) (key : String) (data : List PerNodeAccum) (r : List Char) :
    Option (List Char × List PerNodeAccum) :=
  if key = "nodes" then
    match expect '[' r with
    | (false, r) => (skipValue fuel r).map fun r => ((expect ',' r).2, data)
    | (true, r) => nodesLoop fuel data r
  else (skipValue fuel r).map fun r => ((expect ',' r).2, data)

theorem membersLoop_turn (hText : skipWhitespace r = c :: rest) (fuel : Nat)
    (data : List PerNodeAccum) :
    membersLoop (fuel + 1) data r =
      if c = '\x7d' then some data
      else if (readKey (c :: rest)).1 = "" then some data
      else
        (readMember fuel (readKey (c :: rest)).1 data
          (expect ':' (readKey (c :: rest)).2).2).bind fun p => membersLoop fuel p.2 p.1 := by
  have hValue : ∀ r, ((skipValue fuel r).bind fun r => membersLoop fuel data (expect ',' r).2) =
      ((skipValue fuel r).map fun r => ((expect ',' r).2, data)).bind
        fun p => membersLoop fuel p.2 p.1 := by
    intro r
    cases skipValue fuel r with
    | none => rfl
    | some r' => rfl
  cases r with
  | nil => cases hText
  | cons c' r =>
      rw [membersLoop]
      by_cases hBrace : c = '\x7d'
      · rw [expect_eq (hBrace ▸ hText), if_pos hBrace]
      · rw [expect_ne hText hBrace, if_neg hBrace]
        unfold readMember
        dsimp only
        split_ifs
        · rfl
        · cases expect '[' (expect ':' (readKey (c :: rest)).2).2 with
          | mk found r' =>
              cases found with
              | false => exact hValue r'
              | true => rfl
        · exact hValue _

theorem readMember_settles (key : String) (data : List PerNodeAccum) (r : List Char) :
    Settles (fun fuel => readMember fuel key data r) r.length (fun p r' => p.1 = r')
      (memberEnd key r) := by
  have hValue : ∀ r : List Char,
      Settles (fun fuel => (skipValue fuel r).map fun r => ((expect ',' r).2, data)) r.length
        (fun p r' => p.1 = r') ((valueEnd r).map fun r => (expect ',' r).2) := by
    intro r
    refine ((skipValue_settles r).mono (Nat.sub_le _ 1)).map _ _ ?_
    rintro r' _ rfl
    rfl
  have hLe := expect_le '[' r
  unfold readMember memberEnd
  split_ifs
  · cases hExpect : expect '[' r with
    | mk found r' =>
        rw [hExpect] at hLe
        cases found with
        | false => exact (hValue r').mono hLe
        | true => exact (nodesLoop_settles _ data r' rfl).mono hLe
  · exact hValue r

theorem membersLoop_settles (n : Nat) : ∀ (data : List PerNodeAccum) (r : List Char),
    r.length = n →
    Settles (fun fuel => membersLoop fuel data r) n (fun _ _ => True) (membersEnd r) := by
  induction n using Nat.strong_induction_on with
  | _ n ih =>
  intro data r hLength
  have hLe := skipWhitespace_le r
  cases hText : skipWhitespace r with
  | nil =>
      rw [membersEnd_blank hText]
      refine Settles.stop (a := data) rfl (fun fuel => ?_) trivial
      cases r with
      | nil => rfl
      | cons c r =>
          have hExpect : expect '\x7d' (c :: r) = (false, []) := by simp [expect, hText]
          rw [membersLoop, hExpect]
          rfl
  | cons c rest =>
      rw [hText, List.length_cons, hLength] at hLe
      have hTurn := fun fuel => membersLoop_turn hText fuel data
      rw [membersEnd_eq hText]
      split_ifs with hBrace hKey
      · simp only [if_pos hBrace] at hTurn
        exact Settles.stop rfl hTurn trivial
      · simp only [if_neg hBrace, if_pos hKey] at hTurn
        exact Settles.stop rfl hTurn trivial
      · simp only [if_neg hBrace, if_neg hKey] at hTurn
        have hShort := ((expect_le ':' _).trans_lt (readKey_lt hKey)).trans_le hLe
        refine Settles.step rfl hTurn hShort ((readMember_settles _ data _).bind ?_)
        rintro ⟨r', data'⟩ _ hMember rfl
        have hLeft := memberEnd_le hMember
        exact (ih _ (hLeft.trans_lt hShort) data' r' rfl).mono hLeft

/-- The way along a text comes to its end: in what is skipped every `t` and `f`
begins a word that `ReadBool` takes, and of every element of the list of nodes
something is taken. -/
def getsThrough (text : List Char) : Bool :=
  match expect '\x7b' text with
  | (false, _) => true
  | (true, r) => (membersEnd r).isSome

/-- `Accumulate` returns, and each of its loops makes at most as many turns as the
text has characters, and one more. -/
structure Terminates (path : String) (text : List Char) (data : List PerNodeAccum) : Prop where
  returns : ∃ out, Returns (fun fuel => accumulate fuel path (some text) data) out
  turns : ∀ fuel > text.length, (accumulate fuel path (some text) data).isSome

theorem accumulate_settles (path : String) (text : List Char) (data : List PerNodeAccum) :
    Settles (fun fuel => accumulate fuel path (some text) data) text.length (fun _ _ => True)
      (if getsThrough text then some () else none) := by
  have hLe := expect_le '\x7b' text
  cases hExpect : expect '\x7b' text with
  | mk found r =>
      rw [hExpect] at hLe
      cases found with
      | false =>
          simp only [accumulate, getsThrough, hExpect, if_true]
          exact Settles.pure trivial
      | true =>
          have hMembers := ((membersLoop_settles _ data r rfl).mono hLe).map
            (S := fun _ _ => True) (fun data => (Status.okStatus, data)) (fun _ => ())
            fun _ _ _ => trivial
          simp only [accumulate, getsThrough, hExpect]
          cases hEnd : membersEnd r with
          | none => rwa [hEnd] at hMembers
          | some r' => rwa [hEnd] at hMembers

/-- **The reader terminates** exactly on the texts that it gets through. -/
theorem terminates_iff (path : String) (text : List Char) (data : List PerNodeAccum) :
    Terminates path text data ↔ getsThrough text = true := by
  have hSettles := accumulate_settles path text data
  constructor
  · rintro ⟨⟨out, hReturns⟩, -⟩
    by_contra hNot
    rw [if_neg hNot] at hSettles
    exact hReturns.not_diverges hSettles
  · intro hThrough
    rw [if_pos hThrough] at hSettles
    obtain ⟨out, hWithin, -⟩ := hSettles
    exact ⟨⟨out, hWithin.returns⟩, fun fuel hMore => by rw [hWithin.enough fuel hMore]; rfl⟩

theorem not_terminates_of_members {path : String} {text : List Char} {data : List PerNodeAccum}
    (hText : expect '\x7b' text = (true, r))
    (hMembers : Diverges (fun fuel => membersLoop fuel data r)) : ¬ Terminates path text data := by
  rintro ⟨⟨out, hReturns⟩, -⟩
  refine hReturns.not_diverges fun fuel => ?_
  have hOut : membersLoop fuel data r = none := hMembers fuel
  simp only [accumulate, hText, hOut, Option.map_none]

/-- **`null` among the nodes**, or a word that is cut off in what is skipped, and
the reader does not get on. -/
theorem not_terminates :
    ¬ Terminates "/tmp/profile.json" "\x7b\"nodes\":[null]\x7d".toList [] ∧
      ¬ Terminates "/tmp/profile.json" "\x7b\"config\":[tru]\x7d".toList [] := by
  have hNodes : Diverges (fun fuel => nodesLoop fuel [] "null]\x7d".toList) :=
    Diverges.loop rfl fun _ => rfl
  have hSkip : Diverges (fun fuel => skipLoop fuel .array 1 "tru]\x7d".toList) :=
    Diverges.loop rfl fun _ => rfl
  constructor
  · exact not_terminates_of_members (r := "\"nodes\":[null]\x7d".toList) rfl
      (Diverges.step rfl (fun _ => rfl) hNodes.bind)
  · exact not_terminates_of_members (r := "\"config\":[tru]\x7d".toList) rfl
      (Diverges.step rfl (fun _ => rfl) hSkip.bind)

end GraphRuntime.Profiler
