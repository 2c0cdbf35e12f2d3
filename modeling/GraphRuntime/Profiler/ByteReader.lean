import GraphRuntime.Profiler.Tokens

/-!
# A string in the bytes of a profile

The source writes and reads a `std::string`, whose characters are bytes, and
`SimpleJsonReader` keeps the whole content and a position in it.  The reader of
`Profiler.Reporter` is the text from the position on, as characters.  This module
has the two functions for strings as the source has them, and shows that they
are the ones on texts, a byte being the character of that number
(`asText_writeJsonString`, `readString_asText`).

`readString_writeJsonString`: a string that was written is read back byte for
byte, and the position is then behind its closing quote.
-/

namespace GraphRuntime.Profiler.Bytes

/-! ## `WriteJsonString` -/

/-- The `switch` of `WriteJsonString`. -/
def escape (c : UInt8) : List UInt8 :=
  if c = '"'.toUInt8 then ['\\'.toUInt8, '"'.toUInt8]
  else if c = '\\'.toUInt8 then ['\\'.toUInt8, '\\'.toUInt8]
  else if c = '\n'.toUInt8 then ['\\'.toUInt8, 'n'.toUInt8]
  else if c = '\r'.toUInt8 then ['\\'.toUInt8, 'r'.toUInt8]
  else if c = '\t'.toUInt8 then ['\\'.toUInt8, 't'.toUInt8]
  else [c]

/-- The stream `os` behind the call. -/
def writeJsonString (os s : List UInt8) : List UInt8 :=
  s.foldl (fun os c => os ++ escape c) (os ++ ['"'.toUInt8]) ++ ['"'.toUInt8]

/-! ## `SimpleJsonReader` -/

/-- `content_` and `pos_`, which never passes the end. -/
@[ext]
structure SimpleJsonReader where
  content : List UInt8
  pos : Nat
  inside : pos ≤ content.length

/-- The characters `SkipWhitespace` skips. -/
def isSpace (c : UInt8) : Bool :=
  c = ' '.toUInt8 || c = '\n'.toUInt8 || c = '\r'.toUInt8 || c = '\t'.toUInt8

/-- The `switch` of `ReadString`. -/
def unescape (c : UInt8) : UInt8 :=
  if c = '"'.toUInt8 then '"'.toUInt8
  else if c = '\\'.toUInt8 then '\\'.toUInt8
  else if c = 'n'.toUInt8 then '\n'.toUInt8
  else if c = 'r'.toUInt8 then '\r'.toUInt8
  else if c = 't'.toUInt8 then '\t'.toUInt8
  else c

namespace SimpleJsonReader

variable (reader : SimpleJsonReader)

/-- `++pos_`. -/
def advance (hIn : reader.pos < reader.content.length) : SimpleJsonReader where
  content := reader.content
  pos := reader.pos + 1
  inside := hIn

/-- `SkipWhitespace`. -/
def skipWhitespace (reader : SimpleJsonReader) : SimpleJsonReader :=
  if hIn : reader.pos < reader.content.length then
    if isSpace reader.content[reader.pos] then (reader.advance hIn).skipWhitespace
    else reader
  else reader
termination_by reader.content.length - reader.pos
decreasing_by
  simp only [advance]
  omega

/-- The loop of `ReadString`, up to the closing quote. -/
def readLoop (reader : SimpleJsonReader) (result : List UInt8) :
    List UInt8 × SimpleJsonReader :=
  if hIn : reader.pos < reader.content.length then
    if reader.content[reader.pos] = '"'.toUInt8 then (result, reader)
    else if reader.content[reader.pos] = '\\'.toUInt8 then
      if hNext : (reader.advance hIn).pos < (reader.advance hIn).content.length then
        ((reader.advance hIn).advance hNext).readLoop
          (result ++ [unescape (reader.advance hIn).content[(reader.advance hIn).pos]])
      else (result, reader.advance hIn)
    else (reader.advance hIn).readLoop (result ++ [reader.content[reader.pos]])
  else (result, reader)
termination_by reader.content.length - reader.pos
decreasing_by
  all_goals
    simp only [advance]
    omega

/-- The step over the closing quote, where there is one. -/
def leave : SimpleJsonReader :=
  if hIn : reader.pos < reader.content.length then reader.advance hIn else reader

/-- `ReadString`: empty where no quote comes next. -/
def readString : List UInt8 × SimpleJsonReader :=
  let reader := reader.skipWhitespace
  if hIn : reader.pos < reader.content.length then
    if reader.content[reader.pos] = '"'.toUInt8 then
      let (result, reader) := (reader.advance hIn).readLoop []
      (result, reader.leave)
    else ([], reader)
  else ([], reader)

/-- The content from the position on. -/
def rest : List UInt8 := reader.content.drop reader.pos

/-- A reader behind `before`. -/
def between (before rest : List UInt8) : SimpleJsonReader where
  content := before ++ rest
  pos := before.length
  inside := by simp

end SimpleJsonReader

open SimpleJsonReader

/-! ## Bytes as characters -/

/-- A byte as the character with its number. -/
def asText (bytes : List UInt8) : List Char := bytes.map Char.ofUInt8

variable {b : UInt8} {d : Char} {reader reader' : SimpleJsonReader}

theorem toUInt8_ofUInt8 (b : UInt8) : (Char.ofUInt8 b).toUInt8 = b := by
  show b.toUInt32.toUInt8 = b
  simp

theorem ofUInt8_eq_iff (hByte : Char.ofUInt8 d.toUInt8 = d) :
    Char.ofUInt8 b = d ↔ b = d.toUInt8 := by
  constructor
  · rintro rfl
    exact (toUInt8_ofUInt8 b).symm
  · rintro rfl
    exact hByte

theorem asText_injective : Function.Injective asText := by
  refine List.map_injective_iff.mpr ?_
  intro b c hEq
  rw [← toUInt8_ofUInt8 b, hEq, toUInt8_ofUInt8]

theorem asText_escape (c : UInt8) : asText (escape c) = Profiler.escape (Char.ofUInt8 c) := by
  simp only [escape, Profiler.escape, ofUInt8_eq_iff (d := '"') rfl,
    ofUInt8_eq_iff (d := '\\') rfl, ofUInt8_eq_iff (d := '\n') rfl,
    ofUInt8_eq_iff (d := '\r') rfl, ofUInt8_eq_iff (d := '\t') rfl]
  split_ifs
  all_goals rfl

theorem ofUInt8_unescape (c : UInt8) :
    Char.ofUInt8 (unescape c) = Profiler.unescape (Char.ofUInt8 c) := by
  by_cases hQuote : c = '"'.toUInt8
  · subst hQuote
    rfl
  by_cases hBackslash : c = '\\'.toUInt8
  · subst hBackslash
    rfl
  rw [unescape, if_neg hQuote, if_neg hBackslash]
  simp only [Profiler.unescape, ofUInt8_eq_iff (d := 'n') rfl,
    ofUInt8_eq_iff (d := 'r') rfl, ofUInt8_eq_iff (d := 't') rfl]
  split_ifs
  all_goals rfl

theorem isSpace_ofUInt8 (c : UInt8) : Profiler.isSpace (Char.ofUInt8 c) = isSpace c := by
  simp only [isSpace, Profiler.isSpace, ofUInt8_eq_iff (d := ' ') rfl,
    ofUInt8_eq_iff (d := '\n') rfl, ofUInt8_eq_iff (d := '\r') rfl,
    ofUInt8_eq_iff (d := '\t') rfl]

/-! ## The writer -/

theorem asText_append (bytes bytes' : List UInt8) :
    asText (bytes ++ bytes') = asText bytes ++ asText bytes' :=
  List.map_append

theorem foldl_escape (os s : List UInt8) :
    s.foldl (fun os c => os ++ escape c) os = os ++ s.flatMap escape := by
  induction s generalizing os with
  | nil => simp
  | cons c s ih => rw [List.foldl_cons, ih, List.flatMap_cons, List.append_assoc]

/-- What is written does not depend on the stream. -/
theorem writeJsonString_append (os s : List UInt8) :
    writeJsonString os s = os ++ writeJsonString [] s := by
  unfold writeJsonString
  rw [foldl_escape, foldl_escape]
  simp

theorem asText_flatMap_escape (s : List UInt8) :
    asText (s.flatMap escape) = (asText s).flatMap Profiler.escape := by
  induction s with
  | nil => rfl
  | cons c s ih =>
      rw [List.flatMap_cons, asText_append, asText_escape, ih]
      rfl

/-- The writer of bytes writes the text of `Profiler.writeJsonString`. -/
theorem asText_writeJsonString (os s : List UInt8) :
    asText (writeJsonString os s) =
      asText os ++ Profiler.writeJsonString (String.ofList (asText s)) := by
  have hQuote : asText ['"'.toUInt8] = ['"'] := rfl
  unfold writeJsonString Profiler.writeJsonString
  rw [foldl_escape, asText_append, asText_append, asText_append, asText_flatMap_escape, hQuote]
  simp

/-! ## The reader -/

@[simp] theorem advance_content (hIn : reader.pos < reader.content.length) :
    (reader.advance hIn).content = reader.content := rfl

theorem rest_eq_cons (hIn : reader.pos < reader.content.length) :
    reader.rest = reader.content[reader.pos] :: (reader.advance hIn).rest :=
  List.drop_eq_getElem_cons hIn

theorem rest_eq_nil (hEnd : ¬ reader.pos < reader.content.length) : reader.rest = [] :=
  List.drop_eq_nil_of_le (not_lt.mp hEnd)

theorem asText_rest (hIn : reader.pos < reader.content.length) :
    asText reader.rest =
      Char.ofUInt8 reader.content[reader.pos] :: asText (reader.advance hIn).rest := by
  rw [rest_eq_cons hIn]
  rfl

theorem asText_rest_nil (hEnd : ¬ reader.pos < reader.content.length) :
    asText reader.rest = [] := by
  rw [rest_eq_nil hEnd]
  rfl

theorem asText_skipWhitespace (reader : SimpleJsonReader) :
    asText reader.skipWhitespace.rest = Profiler.skipWhitespace (asText reader.rest) := by
  fun_induction SimpleJsonReader.skipWhitespace reader with
  | case1 reader hIn hSpace ih =>
      rw [ih, asText_rest hIn, skipWhitespace_space]
      rw [isSpace_ofUInt8, hSpace]
  | case2 reader hIn hSpace =>
      rw [asText_rest hIn, skipWhitespace_of_not]
      rw [isSpace_ofUInt8]
      simpa using hSpace
  | case3 reader hEnd =>
      rw [asText_rest_nil hEnd]
      rfl

theorem rest_leave (hIn : reader.pos < reader.content.length) :
    reader.leave.rest = (reader.advance hIn).rest := by
  rw [leave, dif_pos hIn]

theorem rest_leave_nil (hEnd : ¬ reader.pos < reader.content.length) :
    reader.leave.rest = [] := by
  rw [leave, dif_neg hEnd, rest_eq_nil hEnd]

/-- The loop, with the step over the quote behind it, is `readCharacters`. -/
theorem asText_readLoop (reader : SimpleJsonReader) (result : List UInt8) :
    asText (reader.readLoop result).1 =
        asText result ++ (readCharacters (asText reader.rest)).1 ∧
      asText (reader.readLoop result).2.leave.rest =
        (readCharacters (asText reader.rest)).2 := by
  fun_induction readLoop reader result with
  | case1 reader result hIn hQuote =>
      have hRead : readCharacters (asText reader.rest) =
          ([], asText (reader.advance hIn).rest) := by
        rw [asText_rest hIn, hQuote]
        rfl
      rw [hRead, rest_leave hIn]
      simp
  | case2 reader result hIn hQuote hBackslash hNext ih =>
      have hEscaped : readCharacters (asText reader.rest) =
          (Char.ofUInt8 (unescape (reader.advance hIn).content[(reader.advance hIn).pos]) ::
              (readCharacters (asText ((reader.advance hIn).advance hNext).rest)).1,
            (readCharacters (asText ((reader.advance hIn).advance hNext).rest)).2) := by
        rw [asText_rest hIn, asText_rest hNext, hBackslash, ofUInt8_unescape]
        rfl
      rw [hEscaped]
      refine ⟨ih.1.trans ?_, ih.2⟩
      rw [asText_append, List.append_assoc]
      rfl
  | case3 reader result hIn hQuote hBackslash hNext =>
      have hRead : readCharacters (asText reader.rest) = ([], []) := by
        rw [asText_rest hIn, asText_rest_nil hNext, hBackslash]
        rfl
      rw [hRead, rest_leave_nil hNext, List.append_nil]
      exact ⟨rfl, rfl⟩
  | case4 reader result hIn hQuote hBackslash ih =>
      have hPlain : readCharacters (asText reader.rest) =
          (Char.ofUInt8 reader.content[reader.pos] ::
              (readCharacters (asText (reader.advance hIn).rest)).1,
            (readCharacters (asText (reader.advance hIn).rest)).2) := by
        rw [asText_rest hIn]
        refine readCharacters_plain ?_ ?_
        · rwa [ne_eq, ofUInt8_eq_iff rfl]
        · rwa [ne_eq, ofUInt8_eq_iff rfl]
      rw [hPlain]
      refine ⟨ih.1.trans ?_, ih.2⟩
      rw [asText_append, List.append_assoc]
      rfl
  | case5 reader result hEnd =>
      rw [asText_rest_nil hEnd, rest_leave_nil hEnd]
      simp [readCharacters, asText]

/-- **The two readers agree**: `ReadString` on the content and the position is
`Profiler.readString` on the text from the position on. -/
theorem readString_asText (reader : SimpleJsonReader) :
    Profiler.readString (asText reader.rest) =
      (String.ofList (asText reader.readString.1), asText reader.readString.2.rest) := by
  unfold Profiler.readString SimpleJsonReader.readString
  rw [← asText_skipWhitespace]
  by_cases hIn : reader.skipWhitespace.pos < reader.skipWhitespace.content.length
  · rw [asText_rest hIn]
    by_cases hQuote : reader.skipWhitespace.content[reader.skipWhitespace.pos] = '"'.toUInt8
    · obtain ⟨hResult, hRest⟩ := asText_readLoop (reader.skipWhitespace.advance hIn) []
      simp only [hIn, hQuote, dif_pos, if_true]
      rw [hResult, hRest]
      rfl
    · have hOther :
          Char.ofUInt8 reader.skipWhitespace.content[reader.skipWhitespace.pos] ≠ '"' := by
        rwa [ne_eq, ofUInt8_eq_iff rfl]
      simp only [hIn, hQuote, dif_pos, if_false, hOther]
      rw [asText_rest hIn]
      rfl
  · simp only [hIn, dif_neg, not_false_eq_true]
    rw [asText_rest_nil hIn]
    rfl

/-! ## The content stays -/

theorem content_skipWhitespace (reader : SimpleJsonReader) :
    reader.skipWhitespace.content = reader.content := by
  fun_induction SimpleJsonReader.skipWhitespace reader with
  | case1 reader hIn hSpace ih => exact ih
  | case2 reader hIn hSpace => rfl
  | case3 reader hEnd => rfl

theorem content_readLoop (reader : SimpleJsonReader) (result : List UInt8) :
    (reader.readLoop result).2.content = reader.content := by
  fun_induction readLoop reader result with
  | case1 reader result hIn hQuote => rfl
  | case2 reader result hIn hQuote hBackslash hNext ih => exact ih
  | case3 reader result hIn hQuote hBackslash hNext => rfl
  | case4 reader result hIn hQuote hBackslash ih => exact ih
  | case5 reader result hEnd => rfl

theorem content_leave (reader : SimpleJsonReader) : reader.leave.content = reader.content := by
  unfold leave
  split
  · rfl
  · rfl

theorem content_readString (reader : SimpleJsonReader) :
    reader.readString.2.content = reader.content := by
  unfold SimpleJsonReader.readString
  dsimp only
  split_ifs
  · rw [content_leave, content_readLoop, advance_content, content_skipWhitespace]
  · exact content_skipWhitespace reader
  · exact content_skipWhitespace reader

/-- The content and what is left of it determine the position. -/
theorem eq_of_rest (hContent : reader.content = reader'.content)
    (hRest : reader.rest = reader'.rest) : reader = reader' := by
  have hLeft : reader.rest.length = reader.content.length - reader.pos := List.length_drop
  have hLeft' : reader'.rest.length = reader'.content.length - reader'.pos := List.length_drop
  have hInside := reader.inside
  have hInside' := reader'.inside
  rw [hRest, hContent] at hLeft
  rw [hContent] at hInside
  ext1
  · exact hContent
  · omega

theorem rest_between (before rest : List UInt8) : (between before rest).rest = rest := by
  simp [SimpleJsonReader.rest, between]

/-! ## The round trip -/

/-- **A string is read back**: in front of the text that is written for `s` the reader takes
`s`, and then stands in front of what follows, whatever that is. -/
theorem readString_writeJsonString (before s r : List UInt8) :
    (between before (writeJsonString [] s ++ r)).readString =
      (s, between (writeJsonString before s) r) := by
  have hText : asText (between before (writeJsonString [] s ++ r)).rest =
      Profiler.writeJsonString (String.ofList (asText s)) ++ asText r := by
    rw [rest_between, asText_append, asText_writeJsonString]
    rfl
  have hRead := readString_asText (between before (writeJsonString [] s ++ r))
  rw [hText, readString_front, Prod.mk.injEq, String.ofList_inj] at hRead
  obtain ⟨hResult, hRest⟩ := hRead
  have hContent : (between before (writeJsonString [] s ++ r)).content =
      (between (writeJsonString before s) r).content := by
    show before ++ (writeJsonString [] s ++ r) = writeJsonString before s ++ r
    rw [writeJsonString_append before, List.append_assoc]
  refine Prod.ext (asText_injective hResult).symm (eq_of_rest ?_ ?_)
  · rw [content_readString, hContent]
  · rw [rest_between]
    exact (asText_injective hRest).symm

end GraphRuntime.Profiler.Bytes
