import GraphRuntime.Profiler.Tokens

/-!
# Reading back what was written

A profile is read member by member.  The one exception is the mean of a node:
`ReadDouble` knows no exponent, `inf` or `nan`.  On such a text the loop over
the fields gives up in front of a letter, and the loop over the records comes
back to that letter for ever (`nodesLoop_stuck`).  So a profile is read back
when all means are plain, and else `Accumulate` does not return.
-/

namespace GraphRuntime.Profiler

open Fuel
open GraphRuntime.Stream (wrap64 int64Max int64Min wrap64_of_range)

variable {c : Char} {r r' rest : List Char} {f f' : NodeFields} {data : List PerNodeAccum}
  {node : ProfileWriterNodeData} {key : String}

/-! ## One record -/

/-- What the reader keeps of a record. -/
def fieldsOf (node : ProfileWriterNodeData) : NodeFields where
  name := node.nodeName
  openRuntime := node.openRuntimeUsec
  closeRuntime := node.closeRuntimeUsec
  processCount := node.processCount
  processTimeTotal := node.processTimeTotalUsec

/-- The counters of a record fit 64 bits and are not negative. -/
structure CountersFit (node : ProfileWriterNodeData) : Prop where
  openRuntime : 0 ≤ node.openRuntimeUsec ∧ node.openRuntimeUsec ≤ int64Max
  closeRuntime : 0 ≤ node.closeRuntimeUsec ∧ node.closeRuntimeUsec ≤ int64Max
  processCount : 0 ≤ node.processCount ∧ node.processCount ≤ int64Max
  processTimeTotal : 0 ≤ node.processTimeTotalUsec ∧ node.processTimeTotalUsec ≤ int64Max

/-- The name of a member, up to its value. -/
theorem member_tokens (indent : Nat) (r : List Char) (hKey : Unescaped key) :
    ∃ text, expect '\x7d' ('\n' :: (jsonKey indent key ++ r)) = (false, text) ∧
      readKey text = (key, ':' :: ' ' :: r) ∧
      expect ':' (':' :: ' ' :: r) = (true, ' ' :: r) := by
  have hText : skipWhitespace ('\n' :: (jsonKey indent key ++ r)) =
      '"' :: (key.toList ++ '"' :: ':' :: ' ' :: r) := by
    rw [skipWhitespace_space rfl, skipWhitespace_key]
  exact ⟨_, expect_ne hText (by decide), readKey_key hKey (skipWhitespace_of_not rfl),
    expect_eq (skipWhitespace_of_not rfl)⟩

/-- **One member of a record.** -/
theorem fieldsLoop_member {indent : Nat} {a : List Char × NodeFields} (hKey : Unescaped key)
    (hNonempty : key ≠ "")
    (hValue : Returns (fun fuel => readField fuel key f (' ' :: r)) (r', f'))
    (hRest : Returns (fun fuel => fieldsLoop fuel f' (expect ',' r').2) a) :
    Returns (fun fuel => fieldsLoop fuel f ('\n' :: (jsonKey indent key ++ r))) a := by
  obtain ⟨text, hBrace, hRead, hColon⟩ := member_tokens indent r hKey
  have hAfter : Returns (fun fuel => (readField fuel key f (' ' :: r)).bind fun p =>
      fieldsLoop fuel p.2 (expect ',' p.1).2) a :=
    Returns.bind (h := fun fuel p => fieldsLoop fuel p.2 (expect ',' p.1).2) hValue hRest
  refine Returns.step rfl (fun fuel => ?_) hAfter
  rw [fieldsLoop, hBrace]
  simp only [hRead, if_neg hNonempty, hColon]

/-- A counter, and what the reader does with it. -/
theorem fieldsLoop_counter {indent : Nat} {a : List Char × NodeFields} {n : Int}
    (put : Int → NodeFields) (hKey : Unescaped key) (hNonempty : key ≠ "")
    (hRange : 0 ≤ n ∧ n ≤ int64Max)
    (hField : ∀ fuel r, readField fuel key f r = some ((readInt64 r).2, put (readInt64 r).1))
    (hRest : Returns (fun fuel => fieldsLoop fuel (put n) ('\n' :: r)) a) :
    Returns (fun fuel => fieldsLoop fuel f
      ('\n' :: (jsonKey indent key ++ (writeInt n ++ (",\n".toList ++ r))))) a := by
  have hDigit : ∀ c tail, ",\n".toList ++ r = c :: tail → c.isDigit = false := by
    rintro c tail hEq
    cases hEq
    rfl
  have hRead : readInt64 (' ' :: (writeInt n ++ (",\n".toList ++ r))) = (n, ",\n".toList ++ r) := by
    obtain ⟨d, l, hWritten, hNumber⟩ := writeInt_cons n
    refine readInt64_written hRange.1 hRange.2 hDigit ?_
    rw [skipWhitespace_space rfl, hWritten, List.cons_append,
      skipWhitespace_of_not (number_head (b := .object) hNumber).1]
  have hValue : ∀ fuel, readField fuel key f (' ' :: (writeInt n ++ (",\n".toList ++ r))) =
      some (",\n".toList ++ r, put n) := by
    intro fuel
    rw [hField, hRead]
  have hNext : Returns (fun fuel => fieldsLoop fuel (put n) (expect ',' (",\n".toList ++ r)).2) a :=
    hRest
  refine fieldsLoop_member hKey hNonempty ?_ hNext
  simpa only [hValue] using Returns.pure (",\n".toList ++ r, put n)

/-- The name. -/
theorem fieldsLoop_name {indent : Nat} {a : List Char × NodeFields} {name : String}
    (hRest : Returns (fun fuel => fieldsLoop fuel { f with name := name } ('\n' :: r)) a) :
    Returns (fun fuel => fieldsLoop fuel f
      ('\n' :: (jsonKey indent "node_name" ++ (writeJsonString name ++ (",\n".toList ++ r))))) a := by
  have hRead : readString (' ' :: (writeJsonString name ++ (",\n".toList ++ r))) =
      (name, ",\n".toList ++ r) := by
    refine readString_written ?_
    rw [skipWhitespace_space rfl]
    exact skipWhitespace_of_not rfl
  have hValue : ∀ fuel, readField fuel "node_name" f
      (' ' :: (writeJsonString name ++ (",\n".toList ++ r))) =
      some (",\n".toList ++ r, { f with name := name }) := by
    intro fuel
    rw [readField, if_pos rfl, hRead]
  have hNext : Returns (fun fuel => fieldsLoop fuel { f with name := name }
      (expect ',' (",\n".toList ++ r)).2) a := hRest
  refine fieldsLoop_member rfl (by decide) ?_ hNext
  simpa only [hValue] using Returns.pure (",\n".toList ++ r, { f with name := name })

/-- One member of `process_runtime`. -/
def counterLine (key : String) (n : Int) : List Char :=
  jsonKey 6 key ++ ((writeInt n ++ [',']) ++ ['\n'])

/-- `process_runtime` between its braces. -/
def runtimeBody (node : ProfileWriterNodeData) : List Char :=
  ['\n'] ++ (counterLine "interval_size_usec" node.histogramIntervalSizeUsec ++
  (counterLine "num_intervals" node.histogramNumIntervals ++
  (counterLine "count" node.processCount ++
  (counterLine "total_usec" node.processTimeTotalUsec ++
  (jsonKey 6 "buckets" ++ (('[' :: (writeBuckets node.histogramBuckets ++ [']'])) ++
    "\n    ".toList))))))

/-- A record behind its mean. -/
def runtimeText (node : ProfileWriterNodeData) : List Char :=
  jsonKey 4 "process_runtime" ++ ('\x7b' :: (runtimeBody node ++ '\x7d' :: "\n  \x7d".toList))

/-- A record behind its opening brace. -/
def recordText (node : ProfileWriterNodeData) : List Char :=
  '\n' :: (jsonKey 4 "node_name" ++ (writeJsonString node.nodeName ++ (",\n".toList ++
  (jsonKey 4 "open_runtime_usec" ++ (writeInt node.openRuntimeUsec ++ (",\n".toList ++
  (jsonKey 4 "close_runtime_usec" ++ (writeInt node.closeRuntimeUsec ++ (",\n".toList ++
  (jsonKey 4 "process_count" ++ (writeInt node.processCount ++ (",\n".toList ++
  (jsonKey 4 "process_time_total_usec" ++ (writeInt node.processTimeTotalUsec ++
    (",\n".toList ++
  (jsonKey 4 "process_time_mean_usec" ++ (node.processTimeMeanUsec.text ++ (",\n".toList ++
  runtimeText node))))))))))))))))))

theorem writeNodeDataJson_eq (node : ProfileWriterNodeData) :
    writeNodeDataJson node = ' ' :: ' ' :: '\x7b' :: recordText node := by
  have hOpen : "  \x7b\n".toList = [' ', ' ', '\x7b', '\n'] := by decide
  have hRuntime : "\x7b\n".toList = ['\x7b', '\n'] := by decide
  have hComma : ",\n".toList = [',', '\n'] := by decide
  have hClose : "]\n    \x7d\n  \x7d".toList =
      ']' :: ("\n    ".toList ++ '\x7d' :: "\n  \x7d".toList) := by decide
  unfold writeNodeDataJson recordText runtimeText runtimeBody counterLine
  rw [hOpen, hRuntime, hComma, hClose]
  simp only [List.append_assoc]
  simp only [List.cons_append, List.nil_append]
  simp only [List.append_assoc, List.cons_append, List.nil_append]

/-- **The members in front of the mean** are read back. -/
theorem fieldsLoop_counters {a : List Char × NodeFields} (hFit : CountersFit node)
    (hRest : Returns (fun fuel => fieldsLoop fuel (fieldsOf node)
      ('\n' :: (jsonKey 4 "process_time_mean_usec" ++ (node.processTimeMeanUsec.text ++
        (",\n".toList ++ (runtimeText node ++ rest)))))) a) :
    Returns (fun fuel => fieldsLoop fuel {} (recordText node ++ rest)) a := by
  simp only [recordText, List.cons_append, List.append_assoc]
  refine fieldsLoop_name ?_
  refine fieldsLoop_counter (fun n => { name := node.nodeName, openRuntime := n })
    rfl (by decide) hFit.openRuntime (fun _ _ => rfl) ?_
  refine fieldsLoop_counter (fun n => { fieldsOf node with
      closeRuntime := n, processCount := 0, processTimeTotal := 0 })
    rfl (by decide) hFit.closeRuntime (fun _ _ => rfl) ?_
  refine fieldsLoop_counter (fun n => { fieldsOf node with
      processCount := n, processTimeTotal := 0 })
    rfl (by decide) hFit.processCount (fun _ _ => rfl) ?_
  exact fieldsLoop_counter (fun n => { fieldsOf node with processTimeTotal := n })
    rfl (by decide) hFit.processTimeTotal (fun _ _ => rfl) hRest

theorem skips_counterLine {key : String} (hKey : Unescaped key) (n : Int) :
    Skips .object (counterLine key n) := by
  have hNumber : Skips .object (writeInt n ++ [',']) :=
    skips_number n rfl (by decide) (by decide) (skips_mark (Or.inl rfl))
  exact (skips_key 6 hKey).append (hNumber.append (skips_space rfl))

theorem skips_runtimeBody (node : ProfileWriterNodeData) : Skips .object (runtimeBody node) := by
  have hLast : Skips .object "\n    ".toList := skips_blanks (by rfl)
  have hBuckets : Skips .object (jsonKey 6 "buckets" ++
      (('[' :: (writeBuckets node.histogramBuckets ++ [']'])) ++ "\n    ".toList)) :=
    (skips_key 6 (by rfl)).append ((skips_buckets node.histogramBuckets).append hLast)
  exact (skips_space rfl).append ((skips_counterLine (by rfl) _).append
    ((skips_counterLine (by rfl) _).append ((skips_counterLine (by rfl) _).append
      ((skips_counterLine (by rfl) _).append hBuckets))))

/-- The last member and the closing brace. -/
theorem fieldsLoop_runtime :
    Returns (fun fuel => fieldsLoop fuel f ('\n' :: (runtimeText node ++ rest)))
      ((expect ',' rest).2, f) := by
  have hText : runtimeText node ++ rest = jsonKey 4 "process_runtime" ++
      '\x7b' :: (runtimeBody node ++ '\x7d' :: ("\n  \x7d".toList ++ rest)) := by
    unfold runtimeText
    simp only [List.append_assoc, List.cons_append]
  have hSkip : Returns
      (fun fuel => skipValue fuel
        (' ' :: '\x7b' :: (runtimeBody node ++ '\x7d' :: ("\n  \x7d".toList ++ rest))))
      ("\n  \x7d".toList ++ rest) := by
    refine skipValue_object (skips_runtimeBody node) ?_
    rw [skipWhitespace_space rfl]
    exact skipWhitespace_of_not rfl
  have hValue : Returns
      (fun fuel => readField fuel "process_runtime" f
        (' ' :: '\x7b' :: (runtimeBody node ++ '\x7d' :: ("\n  \x7d".toList ++ rest))))
      ("\n  \x7d".toList ++ rest, f) := by
    have hBind := hSkip.bind (h := fun _ r => some (r, f)) (Returns.pure _)
    simpa [readField, Option.map_eq_bind] using hBind
  have hEnd : Returns
      (fun fuel => fieldsLoop fuel f (expect ',' ("\n  \x7d".toList ++ rest)).2)
      ((expect ',' rest).2, f) := Returns.step rfl (fun _ => rfl) (Returns.pure _)
  rw [hText]
  exact fieldsLoop_member rfl (by decide) hValue hEnd

/-- The mean, whatever follows its digits. -/
theorem fieldsLoop_mean {a : List Char × NodeFields} {l tail : List Char} {negative : Bool}
    (hDecimal : Decimal l) (hEnd : c = ',' ∨ c = 'e' ∨ c = 'i' ∨ c = 'n')
    (hRest : Returns (fun fuel => fieldsLoop fuel f (expect ',' (c :: tail)).2) a) :
    Returns (fun fuel => fieldsLoop fuel f ('\n' ::
      (jsonKey 4 "process_time_mean_usec" ++ (signText negative ++ (l ++ c :: tail))))) a := by
  have hRead := readDouble_text negative tail hDecimal hEnd
  have hValue : ∀ fuel, readField fuel "process_time_mean_usec" f
      (' ' :: (signText negative ++ (l ++ c :: tail))) = some (c :: tail, f) := by
    intro fuel
    show some (readDouble (' ' :: (signText negative ++ (l ++ c :: tail))), f) = _
    rw [hRead]
  refine fieldsLoop_member rfl (by decide) ?_ hRest
  simpa only [hValue] using Returns.pure (c :: tail, f)

/-- **A record with a plain mean** is read back. -/
theorem fieldsLoop_record (rest : List Char) (hFit : CountersFit node)
    (hPlain : node.processTimeMeanUsec.plain = true) :
    Returns (fun fuel => fieldsLoop fuel {} (recordText node ++ rest))
      ((expect ',' rest).2, fieldsOf node) := by
  obtain ⟨l, hText, hDecimal⟩ := Double.text_of_plain hPlain
  refine fieldsLoop_counters hFit ?_
  rw [hText, List.append_assoc]
  exact fieldsLoop_mean hDecimal (Or.inl rfl) fieldsLoop_runtime

/-- **Any other record** is left in front of a letter. -/
theorem fieldsLoop_stuck (rest : List Char) (hFit : CountersFit node)
    (hPlain : node.processTimeMeanUsec.plain = false) :
    ∃ c tail, (c = 'e' ∨ c = 'i' ∨ c = 'n') ∧
      Returns (fun fuel => fieldsLoop fuel {} (recordText node ++ rest))
        (c :: tail, fieldsOf node) := by
  obtain ⟨l, c, tail, hText, hDecimal, hLetter⟩ := Double.text_of_not_plain hPlain
  refine ⟨c, tail ++ (",\n".toList ++ (runtimeText node ++ rest)), hLetter, ?_⟩
  refine fieldsLoop_counters hFit ?_
  rw [hText, List.append_assoc, List.append_assoc, List.cons_append]
  refine fieldsLoop_mean hDecimal (Or.inr hLetter) ?_
  refine Returns.step rfl (fun fuel => ?_) (Returns.pure _)
  rcases hLetter with rfl | rfl | rfl
  all_goals rfl

/-! ## The records -/

/-- In front of such a letter the loop over the records does not move. -/
theorem nodesLoop_stuck {tail : List Char} (hLetter : c = 'e' ∨ c = 'i' ∨ c = 'n') :
    Diverges (fun fuel => nodesLoop fuel data (c :: tail)) := by
  refine Diverges.loop rfl (fun fuel => ?_)
  rcases hLetter with rfl | rfl | rfl
  all_goals rfl

theorem nodesLoop_record (hNamed : f.name ≠ "") (hText : skipWhitespace r = '\x7b' :: rest)
    (hRead : Returns (fun fuel => fieldsLoop fuel {} rest) (r', f)) :
    Becomes (fun fuel => nodesLoop fuel data r)
      (fun fuel => nodesLoop fuel (accumulateNode f data) r') := by
  have hSquare : expect ']' r = (false, '\x7b' :: rest) := expect_ne hText (by decide)
  have hBrace : expect '\x7b' ('\x7b' :: rest) = (true, rest) :=
    expect_eq (skipWhitespace_of_not rfl)
  have hTurn : Becomes (fun fuel => nodesLoop fuel data r)
      (fun fuel => (fieldsLoop fuel {} rest).bind fun p =>
        nodesLoop fuel (if p.2.name = "" then data else accumulateNode p.2 data) p.1) := by
    refine Becomes.step rfl (fun fuel => ?_)
    cases r with
    | nil => cases hText
    | cons c' r => rw [nodesLoop, hSquare]; simp only [hBrace]
  have hCall := hTurn.trans (Becomes.call (h := fun fuel p =>
    nodesLoop fuel (if p.2.name = "" then data else accumulateNode p.2 data) p.1) hRead)
  simpa only [if_neg hNamed] using hCall

/-- What follows the records. -/
def closing (rest : List Char) : List Char := '\n' :: ' ' :: ' ' :: ']' :: rest

theorem nodesLoop_nil (hText : skipWhitespace r = skipWhitespace (closing rest)) :
    Returns (fun fuel => nodesLoop fuel data r) (rest, data) := by
  have hSquare : expect ']' r = (true, rest) := expect_eq hText
  refine Returns.step rfl (fun fuel => ?_) (Returns.pure (rest, data))
  cases r with
  | nil => cases hText
  | cons c' r => rw [nodesLoop, hSquare]

/-- The first record and what separates it from the others. -/
theorem writeNodes_cons (node : ProfileWriterNodeData) (nodes : List ProfileWriterNodeData)
    (rest : List Char) :
    ∃ r, skipWhitespace (writeNodes (node :: nodes) ++ closing rest) =
        '\x7b' :: (recordText node ++ r) ∧
      skipWhitespace (expect ',' r).2 = skipWhitespace (writeNodes nodes ++ closing rest) := by
  cases nodes with
  | nil =>
      refine ⟨closing rest, ?_, rfl⟩
      show skipWhitespace (writeNodeDataJson node ++ closing rest) = _
      rw [writeNodeDataJson_eq]
      rfl
  | cons next nodes =>
      refine ⟨",\n".toList ++ (writeNodes (next :: nodes) ++ closing rest), ?_, ?_⟩
      · show skipWhitespace (writeNodeDataJson node ++ ",\n".toList ++
          writeNodes (next :: nodes) ++ closing rest) = _
        rw [writeNodeDataJson_eq, List.append_assoc, List.append_assoc]
        rfl
      · exact skipWhitespace_space rfl

/-- **Plain means: every record is accumulated.** -/
theorem nodesLoop_written {nodes : List ProfileWriterNodeData}
    (hNamed : ∀ node ∈ nodes, node.nodeName ≠ "") (hFit : ∀ node ∈ nodes, CountersFit node)
    (hPlain : ∀ node ∈ nodes, node.processTimeMeanUsec.plain = true)
    (hText : skipWhitespace r = skipWhitespace (writeNodes nodes ++ closing rest)) :
    Returns (fun fuel => nodesLoop fuel data r)
      (rest, (nodes.map fieldsOf).foldl (fun data f => accumulateNode f data) data) := by
  induction nodes generalizing r data with
  | nil => exact nodesLoop_nil hText
  | cons node nodes ih =>
      obtain ⟨r', hFirst, hOthers⟩ := writeNodes_cons node nodes rest
      have hRead := fieldsLoop_record r' (hFit node List.mem_cons_self)
        (hPlain node List.mem_cons_self)
      refine (nodesLoop_record (hNamed node List.mem_cons_self) (hText.trans hFirst) hRead).returns
        _ (ih ?_ ?_ ?_ hOthers)
      · exact fun n hMem => hNamed n (List.mem_cons_of_mem node hMem)
      · exact fun n hMem => hFit n (List.mem_cons_of_mem node hMem)
      · exact fun n hMem => hPlain n (List.mem_cons_of_mem node hMem)

/-- **One mean that is not plain: the loop never ends.** -/
theorem nodesLoop_diverges {nodes : List ProfileWriterNodeData}
    (hNamed : ∀ node ∈ nodes, node.nodeName ≠ "") (hFit : ∀ node ∈ nodes, CountersFit node)
    (hPlain : ∃ node ∈ nodes, node.processTimeMeanUsec.plain = false)
    (hText : skipWhitespace r = skipWhitespace (writeNodes nodes ++ closing rest)) :
    Diverges (fun fuel => nodesLoop fuel data r) := by
  induction nodes generalizing r data with
  | nil =>
      obtain ⟨node, hMem, -⟩ := hPlain
      cases hMem
  | cons node nodes ih =>
      obtain ⟨r', hFirst, hOthers⟩ := writeNodes_cons node nodes rest
      have hHead := hFit node List.mem_cons_self
      have hName := hNamed node List.mem_cons_self
      have hRecord := hText.trans hFirst
      cases hMean : node.processTimeMeanUsec.plain with
      | false =>
          obtain ⟨c, tail, hLetter, hRead⟩ := fieldsLoop_stuck r' hHead hMean
          exact (nodesLoop_record hName hRecord hRead).diverges (nodesLoop_stuck hLetter)
      | true =>
          have hRead := fieldsLoop_record r' hHead hMean
          have hLater : ∃ n ∈ nodes, n.processTimeMeanUsec.plain = false := by
            obtain ⟨n, hMem, hNot⟩ := hPlain
            rcases List.mem_cons.mp hMem with rfl | hTail
            · exact absurd hMean (by simp [hNot])
            · exact ⟨n, hTail, hNot⟩
          refine (nodesLoop_record hName hRecord hRead).diverges (ih ?_ ?_ hLater hOthers)
          · exact fun n hMem => hNamed n (List.mem_cons_of_mem node hMem)
          · exact fun n hMem => hFit n (List.mem_cons_of_mem node hMem)

/-! ## The members of the profile -/

/-- **One member that is skipped.** -/
theorem membersLoop_skipped {indent : Nat} (hKey : Unescaped key) (hNonempty : key ≠ "")
    (hNodes : key ≠ "nodes") (hValue : Returns (fun fuel => skipValue fuel (' ' :: r)) r') :
    Becomes (fun fuel => membersLoop fuel data ('\n' :: (jsonKey indent key ++ r)))
      (fun fuel => membersLoop fuel data (expect ',' r').2) := by
  obtain ⟨text, hBrace, hRead, hColon⟩ := member_tokens indent r hKey
  have hTurn : Becomes (fun fuel => membersLoop fuel data ('\n' :: (jsonKey indent key ++ r)))
      (fun fuel => (skipValue fuel (' ' :: r)).bind fun r =>
        membersLoop fuel data (expect ',' r).2) := by
    refine Becomes.step rfl fun fuel => ?_
    rw [membersLoop, hBrace]
    simp only [hRead, if_neg hNonempty, hColon, if_neg hNodes]
  exact hTurn.trans (Becomes.call (h := fun fuel r => membersLoop fuel data (expect ',' r).2) hValue)

theorem membersLoop_nodes {indent : Nat} :
    Becomes (fun fuel => membersLoop fuel data ('\n' :: (jsonKey indent "nodes" ++ '[' :: r)))
      (fun fuel => (nodesLoop fuel data r).bind fun p => membersLoop fuel p.2 p.1) := by
  have hKey : Unescaped "nodes" := rfl
  obtain ⟨text, hBrace, hRead, hColon⟩ := member_tokens indent ('[' :: r) hKey
  have hSquare : expect '[' (' ' :: '[' :: r) = (true, r) := rfl
  refine Becomes.step rfl fun fuel => ?_
  rw [membersLoop, hBrace]
  simp only [hRead, hColon, hSquare]
  rfl

/-- The configuration between its braces. -/
def configBody (config : ProfilerConfig) : List Char :=
  ['\n'] ++ (jsonKey 4 "enable_profiler" ++
    ((if config.enableProfiler then "true".toList else "false".toList) ++ ([','] ++ (['\n'] ++
  (jsonKey 4 "histogram_interval_size_usec" ++
    ((writeInt config.histogramIntervalSizeUsec ++ [',']) ++ (['\n'] ++
  (jsonKey 4 "num_histogram_intervals" ++
    ((writeInt config.numHistogramIntervals ++ [',']) ++ (['\n'] ++
  (jsonKey 4 "trace_log_path" ++ (writeJsonString config.traceLogPath ++
    "\n  ".toList))))))))))))

theorem writeProfilerConfigJson_eq (config : ProfilerConfig) :
    writeProfilerConfigJson config = '\x7b' :: (configBody config ++ ['\x7d']) := by
  have hOpen : "\x7b\n".toList = ['\x7b', '\n'] := by decide
  have hComma : ",\n".toList = [',', '\n'] := by decide
  have hClose : "\n  \x7d".toList = "\n  ".toList ++ ['\x7d'] := by decide
  unfold writeProfilerConfigJson configBody
  rw [hOpen, hComma, hClose]
  simp only [List.append_assoc]
  simp only [List.cons_append, List.nil_append]

theorem skips_configBody (config : ProfilerConfig) : Skips .object (configBody config) := by
  have hComma : Skips .object [','] := skips_mark (Or.inl rfl)
  have hNewline : Skips .object ['\n'] := skips_space rfl
  have hNumber : ∀ n : Int, Skips .object (writeInt n ++ [',']) := fun n =>
    skips_number n rfl (by decide) (by decide) hComma
  have hPath : Skips .object (jsonKey 4 "trace_log_path" ++ (writeJsonString config.traceLogPath ++
      "\n  ".toList)) :=
    (skips_key 4 (by rfl)).append ((skips_string _).append (skips_blanks (by rfl)))
  exact hNewline.append ((skips_key 4 (by rfl)).append ((skips_bool config.enableProfiler).append
    (hComma.append (hNewline.append ((skips_key 4 (by rfl)).append ((hNumber _).append
      (hNewline.append ((skips_key 4 (by rfl)).append ((hNumber _).append
        (hNewline.append hPath))))))))))

/-- The profile behind its opening brace. -/
def profileText (captureTime : String) (config : ProfilerConfig)
    (nodes : List ProfileWriterNodeData) : List Char :=
  '\n' :: (jsonKey 2 "capture_time" ++ (writeJsonString captureTime ++ (",\n".toList ++
  (jsonKey 2 "node_count" ++ (writeInt nodes.length ++ (",\n".toList ++
  (jsonKey 2 "profiler_config" ++ ('\x7b' :: (configBody config ++ '\x7d' :: (",\n".toList ++
  (jsonKey 2 "nodes" ++ ('[' :: '\n' :: (writeNodes nodes ++
    closing "\n\x7d\n".toList)))))))))))))

theorem writeProfile_eq (captureTime : String) (config : ProfilerConfig)
    (nodes : List ProfileWriterNodeData) :
    writeProfile captureTime config nodes = '\x7b' :: profileText captureTime config nodes := by
  have hOpen : "\x7b\n".toList = ['\x7b', '\n'] := by decide
  have hSquare : "[\n".toList = ['[', '\n'] := by decide
  have hClose : "\n  ]\n".toList ++ "\x7d\n".toList = closing "\n\x7d\n".toList := by decide
  have hCount : digits nodes.length = writeInt nodes.length := by simp [writeInt]
  unfold writeProfile profileText
  rw [hOpen, hSquare, writeProfilerConfigJson_eq, hCount, List.append_assoc _ _ "\x7d\n".toList,
    hClose]
  simp only [List.append_assoc]
  simp only [List.cons_append, List.nil_append, List.append_assoc]

/-- **The members in front of the records** are skipped. -/
theorem membersLoop_profile (captureTime : String) (config : ProfilerConfig)
    (nodes : List ProfileWriterNodeData) :
    Becomes (fun fuel => membersLoop fuel data (profileText captureTime config nodes))
      (fun fuel => (nodesLoop fuel data
          ('\n' :: (writeNodes nodes ++ closing "\n\x7d\n".toList))).bind
        fun p => membersLoop fuel p.2 p.1) := by
  have hTime : ∀ rest, Returns
      (fun fuel => skipValue fuel (' ' :: (writeJsonString captureTime ++ rest))) rest := by
    intro rest
    refine skipValue_string (s := captureTime) ?_
    rw [skipWhitespace_space rfl]
    exact skipWhitespace_of_not rfl
  have hCount : ∀ rest, Returns
      (fun fuel => skipValue fuel (' ' :: (writeInt nodes.length ++ ',' :: rest)))
      (',' :: rest) := by
    intro rest
    obtain ⟨c, l, hWritten, hNumber⟩ := writeInt_cons nodes.length
    refine skipValue_number (i := nodes.length) (delimited_cons rfl (by decide)) ?_ ?_
    · rintro c tail hEq
      cases hEq
      decide
    · rw [skipWhitespace_space rfl, hWritten, List.cons_append,
        skipWhitespace_of_not (number_head (b := .object) hNumber).1]
  have hConfig : ∀ rest, Returns
      (fun fuel => skipValue fuel (' ' :: '\x7b' :: (configBody config ++ '\x7d' :: rest)))
      rest := by
    intro rest
    refine skipValue_object (skips_configBody config) ?_
    rw [skipWhitespace_space rfl]
    exact skipWhitespace_of_not rfl
  unfold profileText
  refine (membersLoop_skipped (by rfl) (by decide) (by decide) (hTime _)).trans ?_
  refine (membersLoop_skipped (by rfl) (by decide) (by decide) (hCount _)).trans ?_
  refine (membersLoop_skipped (by rfl) (by decide) (by decide) (hConfig _)).trans ?_
  exact membersLoop_nodes

/-! ## The entries -/

theorem accumulateNode_fresh (hFresh : f.name ∉ data.map PerNodeAccum.nodeName) :
    accumulateNode f data = data ++ [PerNodeAccum.update { nodeName := f.name } f] := by
  induction data with
  | nil => rfl
  | cons entry data ih =>
      rw [List.map_cons, List.mem_cons, not_or] at hFresh
      obtain ⟨hOther, hTail⟩ := hFresh
      rw [accumulateNode, if_neg (Ne.symm hOther), ih hTail]
      rfl

/-- Records of different nodes get an entry each. -/
theorem foldl_accumulateNode {l : List NodeFields}
    (hDistinct : (data.map PerNodeAccum.nodeName ++ l.map NodeFields.name).Nodup) :
    l.foldl (fun data f => accumulateNode f data) data =
      data ++ l.map fun f => PerNodeAccum.update { nodeName := f.name } f := by
  induction l generalizing data with
  | nil => simp
  | cons f l ih =>
      rw [List.map_cons] at hDistinct
      have hFresh : f.name ∉ data.map PerNodeAccum.nodeName := by
        intro hMem
        exact (List.nodup_append.mp hDistinct).2.2 _ hMem _ List.mem_cons_self rfl
      have hRest : ((accumulateNode f data).map PerNodeAccum.nodeName ++
          l.map NodeFields.name).Nodup := by
        rw [accumulateNode_fresh hFresh]
        simpa [PerNodeAccum.update] using hDistinct
      rw [List.foldl_cons, ih hRest, accumulateNode_fresh hFresh]
      simp

/-- What an entry of the report shares with a record. -/
def NodeStats.fields (stats : NodeStats) : NodeFields where
  name := stats.nodeName
  openRuntime := stats.openRuntimeUsec
  closeRuntime := stats.closeRuntimeUsec
  processCount := stats.processCount
  processTimeTotal := stats.processTimeTotalUsec

theorem fields_update (hFit : CountersFit node) :
    (PerNodeAccum.update { nodeName := node.nodeName } (fieldsOf node)).stats.fields =
      fieldsOf node := by
  have hWrap : ∀ n : Int, 0 ≤ n ∧ n ≤ int64Max → wrap64 n = n := by
    rintro n ⟨hNonneg, hRange⟩
    refine wrap64_of_range ?_ hRange
    unfold int64Min
    omega
  have hCount := hWrap _ hFit.processCount
  have hTotal := hWrap _ hFit.processTimeTotal
  simp [NodeStats.fields, PerNodeAccum.stats, PerNodeAccum.update, fieldsOf, hCount, hTotal]

/-! ## The round trip -/

/-- What `WriteProfile` is given: the nodes have names of their own, and their
counters are counts. -/
structure Exported (nodes : List ProfileWriterNodeData) : Prop where
  named : ∀ node ∈ nodes, node.nodeName ≠ ""
  distinct : (nodes.map ProfileWriterNodeData.nodeName).Nodup
  fit : ∀ node ∈ nodes, CountersFit node

/-- `Accumulate` on a written profile, into an empty reporter. -/
def accumulateWritten (path captureTime : String) (config : ProfilerConfig)
    (nodes : List ProfileWriterNodeData) (fuel : Nat) : Option (Status × List PerNodeAccum) :=
  accumulate fuel path (some (writeProfile captureTime config nodes)) []

/-- The report has the records that were written. -/
def ReadBack (nodes : List ProfileWriterNodeData) (data : List PerNodeAccum) : Prop :=
  (report data).nodes.map NodeStats.fields = nodes.map fieldsOf

variable {nodes : List ProfileWriterNodeData}

theorem readBack_written (hExported : Exported nodes) :
    ReadBack nodes ((nodes.map fieldsOf).foldl (fun data f => accumulateNode f data) []) := by
  have hNames : (nodes.map fieldsOf).map NodeFields.name =
      nodes.map ProfileWriterNodeData.nodeName := by
    rw [List.map_map]
    rfl
  have hDistinct : (([] : List PerNodeAccum).map PerNodeAccum.nodeName ++
      (nodes.map fieldsOf).map NodeFields.name).Nodup := by
    rw [hNames]
    exact hExported.distinct
  unfold ReadBack report
  rw [foldl_accumulateNode hDistinct]
  simp only [List.nil_append, List.map_map]
  refine List.map_congr_left fun node hMem => ?_
  exact fields_update (hExported.fit node hMem)

theorem accumulateWritten_eq (path captureTime : String) (config : ProfilerConfig) :
    accumulateWritten path captureTime config nodes = fun fuel =>
      (membersLoop fuel [] (profileText captureTime config nodes)).bind
        fun data => some (Status.okStatus, data) := by
  funext fuel
  unfold accumulateWritten
  rw [writeProfile_eq]
  exact Option.map_eq_bind

/-- Plain means: `Accumulate` returns and the report has the records. -/
theorem accumulate_returns (path captureTime : String) (config : ProfilerConfig)
    (hExported : Exported nodes) (hPlain : ∀ node ∈ nodes, node.processTimeMeanUsec.plain = true) :
    ∃ data, Returns (accumulateWritten path captureTime config nodes) (Status.okStatus, data) ∧
      ReadBack nodes data := by
  refine ⟨_, ?_, readBack_written hExported⟩
  have hNodes : Returns
      (fun fuel => nodesLoop fuel [] ('\n' :: (writeNodes nodes ++ closing "\n\x7d\n".toList)))
      ("\n\x7d\n".toList, (nodes.map fieldsOf).foldl (fun data f => accumulateNode f data) []) :=
    nodesLoop_written hExported.named hExported.fit hPlain (skipWhitespace_space rfl)
  have hEnd : ∀ data : List PerNodeAccum,
      Returns (fun fuel => membersLoop fuel data "\n\x7d\n".toList) data := fun data =>
    Returns.step rfl (fun _ => rfl) (Returns.pure data)
  have hMembers := (membersLoop_profile captureTime config nodes).returns _
    (hNodes.bind (h := fun fuel p => membersLoop fuel p.2 p.1) (hEnd _))
  rw [accumulateWritten_eq]
  exact hMembers.bind (Returns.pure _)

/-- Otherwise it does not. -/
theorem accumulate_diverges (path captureTime : String) (config : ProfilerConfig)
    (hExported : Exported nodes)
    (hPlain : ∃ node ∈ nodes, node.processTimeMeanUsec.plain = false) :
    Diverges (accumulateWritten path captureTime config nodes) := by
  have hNodes : Diverges
      (fun fuel => nodesLoop fuel []
        ('\n' :: (writeNodes nodes ++ closing "\n\x7d\n".toList))) :=
    nodesLoop_diverges hExported.named hExported.fit hPlain (skipWhitespace_space rfl)
  have hMembers := (membersLoop_profile captureTime config nodes).diverges hNodes.bind
  rw [accumulateWritten_eq]
  exact hMembers.bind

/-- **A profile is read back** exactly when all its means are in the range that
is written without an exponent. -/
theorem written_read_back (path captureTime : String) (config : ProfilerConfig)
    (hExported : Exported nodes) :
    (∃ data, Returns (accumulateWritten path captureTime config nodes) (Status.okStatus, data) ∧
      ReadBack nodes data) ↔ ∀ node ∈ nodes, node.processTimeMeanUsec.InFixedRange := by
  constructor
  · rintro ⟨data, hReturns, -⟩ node hMem
    rw [← plain_iff]
    by_contra hNot
    have hDiverges := accumulate_diverges path captureTime config hExported
      ⟨node, hMem, by simpa using hNot⟩
    exact hReturns.not_diverges hDiverges
  · intro hRange
    exact accumulate_returns path captureTime config hExported
      fun node hMem => (plain_iff _).mpr (hRange node hMem)

/-- A node that was processed twice, in `total` microseconds. -/
def processedTwice (total : Int) (mean : FiniteDouble) : ProfileWriterNodeData where
  nodeName := "encoder"
  openRuntimeUsec := 12
  closeRuntimeUsec := 7
  processCount := 2
  processTimeTotalUsec := total
  processTimeMeanUsec := .finite mean
  histogramIntervalSizeUsec := 1000000
  histogramNumIntervals := 5
  histogramBuckets := [2, 0, 0, 0, 0]

theorem exported_processedTwice (total : Int) (hRange : 0 ≤ total ∧ total ≤ int64Max)
    (mean : FiniteDouble) : Exported [processedTwice total mean] where
  named := by simp [processedTwice]
  distinct := by simp
  fit := by
    intro node hMem
    obtain rfl := List.mem_singleton.mp hMem
    have hSmall : ∀ n : Int, 0 ≤ n ∧ n ≤ 12 → 0 ≤ n ∧ n ≤ int64Max := by
      unfold int64Max
      omega
    exact ⟨hSmall 12 (by decide), hSmall 7 (by decide), hSmall 2 (by decide), hRange⟩

/-- Half a millisecond each time. -/
theorem written_read_back_short :
    ∃ data, Returns (accumulateWritten "/tmp/profile.json" "now" {}
        [processedTwice 1000 ⟨false, 500, 0, by decide, by decide⟩]) (Status.okStatus, data) ∧
      ReadBack [processedTwice 1000 ⟨false, 500, 0, by decide, by decide⟩] data := by
  refine (written_read_back "/tmp/profile.json" "now" {}
    (exported_processedTwice 1000 (by decide) _)).mpr ?_
  intro node hMem
  obtain rfl := List.mem_singleton.mp hMem
  exact Or.inr (by norm_num [FiniteDouble.magnitude])

/-- **A second each time**, and `Accumulate` does not return. -/
theorem accumulate_second_diverges :
    Exported [processedTwice 2000000 ⟨false, 1000000, 0, by decide, by decide⟩] ∧
      Diverges (accumulateWritten "/tmp/profile.json" "now" {}
        [processedTwice 2000000 ⟨false, 1000000, 0, by decide, by decide⟩]) := by
  have hExported := exported_processedTwice 2000000 (by decide)
    ⟨false, 1000000, 0, by decide, by decide⟩
  refine ⟨hExported, accumulate_diverges _ _ _ hExported ⟨_, List.mem_singleton_self _, ?_⟩⟩
  have hOutside : ¬ (Double.finite ⟨false, 1000000, 0, by decide, by decide⟩).InFixedRange := by
    simp only [Double.InFixedRange, FiniteDouble.magnitude]
    norm_num
  rw [← plain_iff] at hOutside
  exact Bool.eq_false_iff.mpr hOutside

end GraphRuntime.Profiler
