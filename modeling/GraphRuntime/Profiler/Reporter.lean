import GraphRuntime.Lib.Fuel
import GraphRuntime.Profiler.Number
import GraphRuntime.Public.Types
import GraphRuntime.Stream.Timestamp

/-!
# Reading a profile

`SimpleJsonReader` is a position in a text; here it is the text from the
position on, and a function of the reader returns what is left.  Its loops need
not end: `ReadBool` and `ReadDouble` may leave the position where it is, and
the loops that call them do not notice.  So the loops that call them take fuel.

* A position past the end and one at the end are the same: no function tells
  them apart.
* `ReadBool` and `ReadDouble` are modelled by what they leave: no caller uses the
  value.
* The mean of a report is the exact quotient; the source rounds it to a `double`.
* `samples`, which nothing reads, is left out.
-/

namespace GraphRuntime.Profiler

open GraphRuntime.Stream (wrap64 int64Max)

/-! ## `SimpleJsonReader` -/

/-- The characters `SkipWhitespace` skips. -/
def isSpace (c : Char) : Bool := c = ' ' || c = '\n' || c = '\r' || c = '\t'

/-- `SkipWhitespace`. -/
def skipWhitespace (r : List Char) : List Char := r.dropWhile isSpace

/-- `Expect`: whether `c` comes next, and what follows it then. -/
def expect (c : Char) (r : List Char) : Bool × List Char :=
  match skipWhitespace r with
  | [] => (false, [])
  | c' :: rest => if c' = c then (true, rest) else (false, c' :: rest)

/-- What an escape sequence stands for. -/
def unescape (c : Char) : Char :=
  if c = 'n' then '\n' else if c = 'r' then '\r' else if c = 't' then '\t' else c

/-- The characters up to the closing quote, and what follows it. -/
def readCharacters : List Char → List Char × List Char
  | [] => ([], [])
  | ['\\'] => ([], [])
  | '\\' :: c :: rest => (unescape c :: (readCharacters rest).1, (readCharacters rest).2)
  | c :: rest =>
      if c = '"' then ([], rest)
      else (c :: (readCharacters rest).1, (readCharacters rest).2)

/-- `ReadString`: empty where no quote comes next. -/
def readString (r : List Char) : String × List Char :=
  match skipWhitespace r with
  | [] => ("", [])
  | c :: rest =>
      if c = '"' then (String.ofList (readCharacters rest).1, (readCharacters rest).2)
      else ("", c :: rest)

/-- `val = val * 10 + (c - '0')` for each digit, in 64 bits. -/
def readDigits (val : Int) : List Char → Int × List Char
  | [] => (val, [])
  | c :: rest =>
      if c.isDigit then readDigits (wrap64 (val * 10 + (c.toNat - '0'.toNat : Nat))) rest
      else (val, c :: rest)

/-- The optional sign. -/
def readSign (r : List Char) : Bool × List Char :=
  match r with
  | '-' :: rest => (true, rest)
  | _ => (false, r)

/-- `ReadInt64`. -/
def readInt64 (r : List Char) : Int × List Char :=
  let (neg, r) := readSign (skipWhitespace r)
  let (val, r) := readDigits 0 r
  (if neg then wrap64 (-val) else val, r)

/-- `ReadDouble`: what it leaves. -/
def readDouble (r : List Char) : List Char :=
  let (_, r) := readSign (skipWhitespace r)
  match r.dropWhile Char.isDigit with
  | '.' :: rest => rest.dropWhile Char.isDigit
  | r => r

/-- `ReadBool`: what it leaves. -/
def readBool (r : List Char) : List Char :=
  let r := skipWhitespace r
  if "true".toList.isPrefixOf r then r.drop 4
  else if "false".toList.isPrefixOf r then r.drop 5
  else r

/-- `SkipObject` and `SkipArray` are the same function of the two kinds of
bracket. -/
inductive Bracket
  | object
  | array
deriving DecidableEq

def Bracket.opening : Bracket → Char
  | .object => '\x7b'
  | .array => '['

def Bracket.closing : Bracket → Char
  | .object => '\x7d'
  | .array => ']'

def Bracket.other : Bracket → Bracket
  | .object => .array
  | .array => .object

/-- The loop of `SkipObject` or `SkipArray`, `depth` brackets deep. -/
def skipLoop : Nat → Bracket → Nat → List Char → Option (List Char)
  | 0, _, _, _ => none
  | _ + 1, _, 0, r => some r
  | _ + 1, _, _ + 1, [] => some []
  | fuel + 1, b, depth + 1, c :: r =>
      match skipWhitespace (c :: r) with
      | [] => skipLoop fuel b (depth + 1) []
      | c :: rest =>
          if c = b.opening then skipLoop fuel b (depth + 2) rest
          else if c = b.closing then skipLoop fuel b depth rest
          else if c = '"' then skipLoop fuel b (depth + 1) (readString (c :: rest)).2
          else if c = b.other.opening then
            (skipLoop fuel b.other 1 (expect b.other.opening (c :: rest)).2).bind
              (skipLoop fuel b (depth + 1))
          else if c = 't' || c = 'f' then
            skipLoop fuel b (depth + 1) (readBool (c :: rest))
          else if c = '-' || c.isDigit then
            skipLoop fuel b (depth + 1) (readDouble (c :: rest))
          else skipLoop fuel b (depth + 1) rest

/-- `SkipObject`, `SkipArray`. -/
def skipNested (fuel : Nat) (b : Bracket) (r : List Char) : Option (List Char) :=
  skipLoop fuel b 1 (expect b.opening r).2

/-- `SkipValue`, one branch for each first character. -/
def skipValue (fuel : Nat) (r : List Char) : Option (List Char) :=
  match skipWhitespace r with
  | [] => some []
  | c :: rest =>
      if c = '"' then some (readString (c :: rest)).2
      else if c = '\x7b' then skipNested fuel .object (c :: rest)
      else if c = '[' then skipNested fuel .array (c :: rest)
      else if c = 't' || c = 'f' then some (readBool (c :: rest))
      else some (readDouble (c :: rest))

/-- `ReadKey`. -/
def readKey (r : List Char) : String × List Char := readString r

/-! ## `Accumulate` -/

/-- The locals of `Accumulate` for one node. -/
structure NodeFields where
  name : String := ""
  openRuntime : Int := 0
  closeRuntime : Int := 0
  processCount : Int := 0
  processTimeTotal : Int := 0

/-- `PerNodeAccum`: what the files read so far say of a node. -/
structure PerNodeAccum where
  nodeName : String
  openRuntimeUsec : Int := 0
  closeRuntimeUsec : Int := 0
  processCount : Int := 0
  processTimeTotalUsec : Int := 0
  processTimeMinUsec : Int := int64Max
  processTimeMaxUsec : Int := 0

/-- What a record does to the entry of its node. -/
def PerNodeAccum.update (entry : PerNodeAccum) (f : NodeFields) : PerNodeAccum :=
  let avg := f.processTimeTotal.tdiv f.processCount
  { entry with
    openRuntimeUsec := f.openRuntime
    closeRuntimeUsec := f.closeRuntime
    processCount := wrap64 (entry.processCount + f.processCount)
    processTimeTotalUsec := wrap64 (entry.processTimeTotalUsec + f.processTimeTotal)
    processTimeMinUsec :=
      if f.processCount > 0 && avg < entry.processTimeMinUsec then avg
      else entry.processTimeMinUsec
    processTimeMaxUsec :=
      if f.processCount > 0 && avg > entry.processTimeMaxUsec then avg
      else entry.processTimeMaxUsec }

/-- The entry of the record's node, made if there is none, is updated. -/
def accumulateNode (f : NodeFields) : List PerNodeAccum → List PerNodeAccum
  | [] => [PerNodeAccum.update { nodeName := f.name } f]
  | entry :: rest =>
      if entry.nodeName = f.name then entry.update f :: rest
      else entry :: accumulateNode f rest

/-- The value of one field of a record. -/
def readField (fuel : Nat) (field : String) (f : NodeFields) (r : List Char) :
    Option (List Char × NodeFields) :=
  if field = "node_name" then
    some ((readString r).2, { f with name := (readString r).1 })
  else if field = "open_runtime_usec" then
    some ((readInt64 r).2, { f with openRuntime := (readInt64 r).1 })
  else if field = "close_runtime_usec" then
    some ((readInt64 r).2, { f with closeRuntime := (readInt64 r).1 })
  else if field = "process_count" then
    some ((readInt64 r).2, { f with processCount := (readInt64 r).1 })
  else if field = "process_time_total_usec" then
    some ((readInt64 r).2, { f with processTimeTotal := (readInt64 r).1 })
  else if field = "process_time_mean_usec" then some (readDouble r, f)
  else (skipValue fuel r).map fun r => (r, f)

/-- The loop over the fields of a record. -/
def fieldsLoop : Nat → NodeFields → List Char → Option (List Char × NodeFields)
  | 0, _, _ => none
  | _ + 1, f, [] => some ([], f)
  | fuel + 1, f, c :: r =>
      match expect '\x7d' (c :: r) with
      | (true, r) => some ((expect ',' r).2, f)
      | (false, r) =>
          let (field, r) := readKey r
          if field = "" then some (r, f)
          else
            (readField fuel field f (expect ':' r).2).bind fun p =>
              fieldsLoop fuel p.2 (expect ',' p.1).2

/-- The loop over the records. -/
def nodesLoop : Nat → List PerNodeAccum → List Char → Option (List Char × List PerNodeAccum)
  | 0, _, _ => none
  | _ + 1, data, [] => some ([], data)
  | fuel + 1, data, c :: r =>
      match expect ']' (c :: r) with
      | (true, r) => some (r, data)
      | (false, r) =>
          match expect '\x7b' r with
          | (false, r) =>
              (skipValue fuel r).bind fun r => nodesLoop fuel data (expect ',' r).2
          | (true, r) =>
              (fieldsLoop fuel {} r).bind fun p =>
                nodesLoop fuel
                  (if p.2.name = "" then data else accumulateNode p.2 data) p.1

/-- The loop over the members of the profile. -/
def membersLoop : Nat → List PerNodeAccum → List Char → Option (List PerNodeAccum)
  | 0, _, _ => none
  | _ + 1, data, [] => some data
  | fuel + 1, data, c :: r =>
      match expect '\x7d' (c :: r) with
      | (true, _) => some data
      | (false, r) =>
          let (key, r) := readKey r
          if key = "" then some data
          else
            let r := (expect ':' r).2
            if key = "nodes" then
              match expect '[' r with
              | (false, r) =>
                  (skipValue fuel r).bind fun r => membersLoop fuel data (expect ',' r).2
              | (true, r) => (nodesLoop fuel data r).bind fun p => membersLoop fuel p.2 p.1
            else (skipValue fuel r).bind fun r => membersLoop fuel data (expect ',' r).2

/-- `Accumulate`, given what the file holds, if it can be opened. -/
def accumulate (fuel : Nat) (path : String) (content : Option (List Char))
    (data : List PerNodeAccum) : Option (Status × List PerNodeAccum) :=
  match content with
  | none => some (⟨.notFound, "Profile file not found: " ++ path⟩, data)
  | some text =>
      match expect '\x7b' text with
      | (false, _) => some (⟨.invalidArgument, "Expected JSON object"⟩, data)
      | (true, r) => (membersLoop fuel data r).map fun data => (Status.okStatus, data)

/-! ## `Report` -/

/-- `NodeStats`: the line of one node. -/
structure NodeStats where
  nodeName : String
  openRuntimeUsec : Int
  closeRuntimeUsec : Int
  processCount : Int
  processTimeTotalUsec : Int
  processTimeMeanUsec : Rat
  processTimeMinUsec : Int
  processTimeMaxUsec : Int

/-- `ProfileReport`. -/
structure ProfileReport where
  nodes : List NodeStats
  totalProcessCount : Int
  totalProcessTimeUsec : Int

/-- The line `Report` makes of an entry. -/
def PerNodeAccum.stats (entry : PerNodeAccum) : NodeStats where
  nodeName := entry.nodeName
  openRuntimeUsec := entry.openRuntimeUsec
  closeRuntimeUsec := entry.closeRuntimeUsec
  processCount := entry.processCount
  processTimeTotalUsec := entry.processTimeTotalUsec
  processTimeMeanUsec :=
    if entry.processCount > 0 then
      (entry.processTimeTotalUsec : Rat) / entry.processCount
    else 0
  processTimeMinUsec :=
    if entry.processTimeMinUsec = int64Max then 0 else entry.processTimeMinUsec
  processTimeMaxUsec := entry.processTimeMaxUsec

/-- `Reporter::Report`. -/
def report (data : List PerNodeAccum) : ProfileReport where
  nodes := data.map PerNodeAccum.stats
  totalProcessCount := data.foldl (fun total e => wrap64 (total + e.processCount)) 0
  totalProcessTimeUsec :=
    data.foldl (fun total e => wrap64 (total + e.processTimeTotalUsec)) 0

end GraphRuntime.Profiler
