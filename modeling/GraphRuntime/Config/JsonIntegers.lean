import GraphRuntime.Config.JsonParser

/-!
# The integers of a config

A number of the document is converted to the type of its field inside the library, to
`int` for all fields but the size of a histogram interval.  `IntegersExact` says that the
config has the integers of the document, however they are written, and `IntegersFit` that
they fit the fields; for an accepted document the two are the same
(`integers_exact_iff`), whatever the library does with the others.

An option is kept by the kind of its value: an integer of 64 bits becomes an `int`, and
any other number a `double`.
-/

namespace GraphRuntime.Config

open GraphRuntime.Stream GraphRuntime.Profiler

/-- The integer that a value of the document is. -/
def Json.Denotes : Json → Int → Prop
  | .integer m, n => m = n
  | .float x, n => x.value = n
  | _, _ => False

/-- The integer that an option is. -/
def OptionValue.Denotes : OptionValue → Int → Prop
  | .int m, n => m = n
  | .double x, n => x.value = n
  | _, _ => False

/-- A value that, if it is an integer, lies between the bounds. -/
def Fits (lo hi : Int) (j : Option Json) : Prop :=
  ∀ v n, j = some v → v.Denotes n → lo ≤ n ∧ n ≤ hi

def FitsInt : Option Json → Prop := Fits int32Min int32Max

/-- The options of a node. -/
def optionMembers (nj : Json) : List (String × Json) :=
  match nj.find "options" with
  | some (.object members) => members
  | _ => []

/-- An option that is kept: an integer of 64 bits fits an `int`, and a longer one is a
double. -/
def OptionFits : Json → Prop
  | .integer n => (Kept n → int32Min ≤ n ∧ n ≤ int32Max) ∧
      (¬ Kept n → ∃ x : FiniteDouble, x.value = n)
  | _ => True

/-- **The integers that are read fit** the fields they are read into. -/
structure IntegersFit (root : Json) : Prop where
  maxQueueSize : FitsInt (root.find "max_queue_size")
  histogramInterval : ∀ pc, root.find "profiler_config" = some pc →
    Fits int64Min int64Max (pc.find "histogram_interval_size_usec")
  numIntervals : ∀ pc, root.find "profiler_config" = some pc →
    FitsInt (pc.find "num_histogram_intervals")
  numThreads : ∀ ejs, root.find "executors" = some ejs → ∀ ej ∈ ejs.elements,
    FitsInt (ej.find "num_threads")
  maxInFlight : ∀ njs, root.find "nodes" = some njs → ∀ nj ∈ njs.elements,
    FitsInt (nj.find "max_in_flight")
  sourceLayer : ∀ njs, root.find "nodes" = some njs → ∀ nj ∈ njs.elements,
    FitsInt (nj.find "source_layer")
  options : ∀ njs, root.find "nodes" = some njs → ∀ nj ∈ njs.elements,
    ∀ m ∈ optionMembers nj, OptionFits m.2

/-- The stored value is the integer of the document, if there is one. -/
def Stores (j : Option Json) (stored : Int) : Prop :=
  ∀ v n, j = some v → v.Denotes n → stored = n

/-- The option is the integer of the document, if there is one. -/
def OptionStores (m : String × Json) (option : String × OptionValue) : Prop :=
  option.1 = m.1 ∧ ∀ n, m.2.Denotes n → option.2.Denotes n

/-- The same for the integers of a node. -/
structure NodeExact (nj : Json) (node : ParsedNode) : Prop where
  maxInFlight : Stores (nj.find "max_in_flight") node.maxInFlight
  sourceLayer : Stores (nj.find "source_layer") node.sourceLayer
  options : List.Forall₂ OptionStores (optionMembers nj) node.options

/-- **The config has the integers of the document.** -/
structure IntegersExact (root : Json) (config : ParsedConfig) : Prop where
  maxQueueSize : Stores (root.find "max_queue_size") config.maxQueueSize
  histogramInterval : ∀ pc, root.find "profiler_config" = some pc →
    Stores (pc.find "histogram_interval_size_usec")
      config.profilerConfig.histogramIntervalSizeUsec
  numIntervals : ∀ pc, root.find "profiler_config" = some pc →
    Stores (pc.find "num_histogram_intervals") config.profilerConfig.numHistogramIntervals
  executors : ∀ ejs, root.find "executors" = some ejs →
    List.Forall₂ (fun ej e => Stores (ej.find "num_threads") e.numThreads) ejs.elements
      config.executors
  nodes : ∀ njs, root.find "nodes" = some njs →
    List.Forall₂ NodeExact njs.elements config.nodes

variable {lib : JsonLibrary}

/-! ## One integer -/

theorem wrap32_eq_self_iff {n : Int} : wrap32 n = n ↔ int32Min ≤ n ∧ n ≤ int32Max := by
  unfold wrap32 int32Min int32Max
  omega

theorem wrap64_eq_self_iff {n : Int} : wrap64 n = n ↔ int64Min ≤ n ∧ n ≤ int64Max := by
  unfold wrap64 int64Min int64Max
  omega

theorem truncate_of_value {x : FiniteDouble} {n : Int} (hValue : x.value = n) :
    Json.truncate x = n := by
  unfold FiniteDouble.value at hValue
  unfold Json.truncate
  by_cases hNegative : x.negative = true
  · rw [if_pos hNegative] at hValue ⊢
    have hMagnitude : x.magnitude = ((-n : Int) : Rat) := by
      rw [Int.cast_neg, ← hValue, neg_neg]
    rw [hMagnitude, Int.floor_intCast, neg_neg]
  · rw [if_neg hNegative] at hValue ⊢
    rw [hValue, Int.floor_intCast]

/-- A `get` of an integer type that the library keeps, whose cast leaves the integers of
the type alone. -/
structure Faithful (get : Json → Except JsonException Int) (lo hi : Int) : Prop where
  converts : ∃ cast, Converts get cast lo hi ∧ ∀ n, lo ≤ n → n ≤ hi → cast n = n
  kept : ∀ n, lo ≤ n → n ≤ hi → Kept n

theorem faithful_getInt (hLib : lib.Documented) : Faithful lib.getInt int32Min int32Max where
  converts := ⟨wrap32, hLib.getInt, fun _ hLow hHigh => wrap32_eq_self_iff.mpr ⟨hLow, hHigh⟩⟩
  kept n hLow hHigh := by
    unfold int32Min int32Max at *
    unfold Kept int64Min uint64Max
    omega

theorem faithful_getLongLong (hLib : lib.Documented) :
    Faithful lib.getLongLong int64Min int64Max where
  converts :=
    ⟨wrap64, hLib.getLongLong, fun _ hLow hHigh => wrap64_eq_self_iff.mpr ⟨hLow, hHigh⟩⟩
  kept n hLow hHigh := by
    unfold int64Min int64Max at *
    unfold Kept int64Min uint64Max
    omega

section

variable {get : Json → Except JsonException Int} {j v : Json} {key : String}
  {defaultValue stored lo hi n : Int}

theorem isNumeric_of_denotes (hDenotes : v.Denotes n) : v.isNumeric = true := by
  cases v <;> first | rfl | exact hDenotes.elim

/-- **What becomes of an integer** of the document: it stays what it is exactly if it is
one of the type. -/
theorem Faithful.exact_iff (hGet : Faithful get lo hi) (hOk : get v = .ok stored)
    (hDenotes : v.Denotes n) : stored = n ↔ lo ≤ n ∧ n ≤ hi := by
  obtain ⟨cast, hConverts, hCast⟩ := hGet.converts
  constructor
  · rintro rfl
    obtain ⟨m, hSome, hRange⟩ := hConverts.inRange v (isNumeric_of_denotes hDenotes)
    obtain rfl : m = stored := Except.ok.inj (hSome.symm.trans hOk)
    exact hRange
  · rintro ⟨hLow, hHigh⟩
    cases v with
    | integer m =>
        obtain rfl : m = n := hDenotes
        rw [hConverts.integer m (hGet.kept m hLow hHigh), hCast m hLow hHigh] at hOk
        exact (Except.ok.inj hOk).symm
    | float x =>
        have hCut : Json.truncate x = n := truncate_of_value hDenotes
        rw [hConverts.float x (by omega) (by omega), hCut] at hOk
        exact (Except.ok.inj hOk).symm
    | _ => exact hDenotes.elim

/-- The integer under a key is stored exactly if it fits. -/
theorem stores_iff (hLib : lib.Documented) (hGet : Faithful get lo hi)
    (hValue : lib.value get j key defaultValue = .ok stored) :
    Stores (j.find key) stored ↔ Fits lo hi (j.find key) := by
  unfold Stores Fits
  refine forall₄_congr fun v n hFind hDenotes => ?_
  exact hGet.exact_iff (get_of_value hLib hValue hFind) hDenotes

end

/-! ## One option -/

/-- An option that is read is exact exactly if it is kept. -/
theorem OptionRead.stores_iff {key : String} {v : Json} {option : OptionValue}
    (hRead : OptionRead v option) : OptionStores (key, v) (key, option) ↔ OptionFits v := by
  unfold OptionStores
  refine (and_iff_right rfl).trans ?_
  cases hRead with
  | string s => exact iff_of_true (fun n hDenotes => hDenotes.elim) trivial
  | boolean b => exact iff_of_true (fun n hDenotes => hDenotes.elim) trivial
  | kept n hKept =>
      simp [Json.Denotes, OptionValue.Denotes, OptionFits, hKept, wrap32_eq_self_iff]
  | long n x hLong hNearest =>
      simp only [Json.Denotes, OptionValue.Denotes, OptionFits, hLong, false_implies, true_and,
        forall_eq', not_false_eq_true, true_implies]
      exact ⟨fun hValue => ⟨x, hValue⟩, fun ⟨y, hValue⟩ => hNearest y hValue⟩
  | float x => exact iff_of_true (fun n hDenotes => hDenotes) trivial

/-! ## Lists of results -/

theorem forall₂_of_mapM {α β ε : Type} {g : α → Except ε β} {l : List α} {out : List β}
    (hMap : l.mapM g = .ok out) : List.Forall₂ (fun a b => g a = .ok b) l out := by
  induction l generalizing out with
  | nil =>
      cases hMap
      exact List.Forall₂.nil
  | cons a l ih =>
      rw [List.mapM_cons] at hMap
      obtain ⟨b, hOne, hMap⟩ := bind_eq_ok.mp hMap
      obtain ⟨bs, hRest, hMap⟩ := bind_eq_ok.mp hMap
      cases hMap
      exact List.Forall₂.cons hOne (ih hRest)

/-- Where each element and its result are related exactly by a property of the element,
the lists are exactly if all elements have the property. -/
theorem forall₂_iff {α β : Type} {S R : α → β → Prop} {P : α → Prop} {l : List α}
    {out : List β} (hPairs : List.Forall₂ S l out) (hIff : ∀ a b, S a b → (R a b ↔ P a)) :
    List.Forall₂ R l out ↔ ∀ a ∈ l, P a := by
  induction hPairs with
  | nil => simp
  | cons hOne _ ih => rw [List.forall₂_cons, ih, hIff _ _ hOne, List.forall_mem_cons]

/-! ## The parts of a config -/

theorem parseExecutor_threads (hLib : lib.Documented) {ej : Json} {e : ParsedExecutor}
    (hParse : parseExecutor lib ej = .ok e) :
    Stores (ej.find "num_threads") e.numThreads ↔ FitsInt (ej.find "num_threads") := by
  obtain ⟨name, -, hParse⟩ := bind_eq_ok.mp hParse
  obtain ⟨type, -, hParse⟩ := bind_eq_ok.mp hParse
  obtain ⟨n, hThreads, hParse⟩ := bind_eq_ok.mp hParse
  cases hParse
  exact stores_iff hLib (faithful_getInt hLib) (thrown_eq_ok.mp hThreads)

/-- The options of a node are exact exactly if each of them is kept. -/
theorem parseOptions_integers (hLib : lib.Documented) {nodeName : String} {nj : Json}
    {options : List (String × OptionValue)}
    (hParse : parseOptions lib nodeName nj = .ok options) :
    List.Forall₂ OptionStores (optionMembers nj) options ↔
      ∀ m ∈ optionMembers nj, OptionFits m.2 := by
  have hPairs : List.Forall₂ (fun m o => parseNodeOption lib nodeName m.1 m.2 = .ok o)
      (optionMembers nj) options := by
    unfold parseOptions at hParse
    unfold optionMembers
    split at hParse
    next hNone =>
      cases hParse
      rw [hNone]
      exact List.Forall₂.nil
    next members hSome =>
      rw [hSome]
      exact forall₂_of_mapM hParse
    next => simp at hParse
  refine forall₂_iff hPairs fun m o hOption => ?_
  rcases parseNodeOption_cases hLib nodeName m.1 m.2 with ⟨option, hRead, hOk⟩ | ⟨-, hError⟩
  · obtain rfl : (m.1, option) = o := Except.ok.inj (hOk.symm.trans hOption)
    exact hRead.stores_iff
  · exact absurd (hError.symm.trans hOption) (by simp)

/-- What is read of a node, as far as it is an integer. -/
theorem parseNode_integers (hLib : lib.Documented) {nj : Json} {node : ParsedNode}
    (hParse : parseNode lib nj = .ok node) :
    NodeExact nj node ↔ FitsInt (nj.find "max_in_flight") ∧
      FitsInt (nj.find "source_layer") ∧ ∀ m ∈ optionMembers nj, OptionFits m.2 := by
  obtain ⟨name, -, hParse⟩ := bind_eq_ok.mp hParse
  obtain ⟨-, -, hParse⟩ := bind_eq_ok.mp hParse
  obtain ⟨type, -, hParse⟩ := bind_eq_ok.mp hParse
  obtain ⟨-, -, hParse⟩ := bind_eq_ok.mp hParse
  obtain ⟨inputStreams, -, hParse⟩ := bind_eq_ok.mp hParse
  obtain ⟨outputStreams, -, hParse⟩ := bind_eq_ok.mp hParse
  obtain ⟨inputSidePackets, -, hParse⟩ := bind_eq_ok.mp hParse
  obtain ⟨outputSidePackets, -, hParse⟩ := bind_eq_ok.mp hParse
  obtain ⟨executor, -, hParse⟩ := bind_eq_ok.mp hParse
  obtain ⟨handler, -, hParse⟩ := bind_eq_ok.mp hParse
  obtain ⟨maxInFlight, hInFlight, hParse⟩ := bind_eq_ok.mp hParse
  obtain ⟨sourceLayer, hLayer, hParse⟩ := bind_eq_ok.mp hParse
  obtain ⟨options, hOptions, hParse⟩ := bind_eq_ok.mp hParse
  cases hParse
  have hFlight : Stores (nj.find "max_in_flight") maxInFlight ↔ _ :=
    stores_iff hLib (faithful_getInt hLib) (thrown_eq_ok.mp hInFlight)
  have hSource : Stores (nj.find "source_layer") sourceLayer ↔ _ :=
    stores_iff hLib (faithful_getInt hLib) (thrown_eq_ok.mp hLayer)
  have hScalar := parseOptions_integers hLib hOptions
  constructor
  · intro hExact
    exact ⟨hFlight.mp hExact.maxInFlight, hSource.mp hExact.sourceLayer,
      hScalar.mp hExact.options⟩
  · rintro ⟨hFits, hFits', hFitsOptions⟩
    exact ⟨hFlight.mpr hFits, hSource.mpr hFits', hScalar.mpr hFitsOptions⟩

/-! ## The document -/

/-- **The integers of an accepted document** are exact in the config exactly if they fit. -/
theorem integers_exact_iff (hLib : lib.Documented) {jsonText : String} {root : Json}
    {config : ParsedConfig} (hText : lib.parse jsonText = .ok root)
    (hAccepted : parseFromString lib jsonText = .ok config) :
    IntegersExact root config ↔ IntegersFit root := by
  have hRead : ReadFrom lib root config := by
    obtain ⟨document, hDocument, hRoot, -⟩ := parseRoot_of_accepted hAccepted
    obtain rfl : document = root := Except.ok.inj (hDocument.symm.trans hText)
    exact readFrom_of_parseRoot hRoot
  have hSize : Stores (root.find "max_queue_size") config.maxQueueSize ↔ _ :=
    stores_iff hLib (faithful_getInt hLib) hRead.maxQueueSize
  have hNumbers : ∀ pc, root.find "profiler_config" = some pc → _ :=
    fun pc hFind => numbers_of_parseProfilerConfig (section_ok hRead.profilerConfig hFind)
  have hInterval : ∀ pc, root.find "profiler_config" = some pc →
      (Stores (pc.find "histogram_interval_size_usec")
          config.profilerConfig.histogramIntervalSizeUsec ↔ _) :=
    fun pc hFind => stores_iff hLib (faithful_getLongLong hLib) (hNumbers pc hFind).1
  have hCount : ∀ pc, root.find "profiler_config" = some pc →
      (Stores (pc.find "num_histogram_intervals")
          config.profilerConfig.numHistogramIntervals ↔ _) :=
    fun pc hFind => stores_iff hLib (faithful_getInt hLib) (hNumbers pc hFind).2
  have hElements : lib.elements = Json.elements := funext hLib.elements_eq
  have hExecutors : ∀ ejs, root.find "executors" = some ejs →
      (List.Forall₂ (fun ej (e : ParsedExecutor) => Stores (ej.find "num_threads") e.numThreads)
          ejs.elements config.executors ↔
        ∀ ej ∈ ejs.elements, FitsInt (ej.find "num_threads")) := by
    intro ejs hFind
    have hMap := section_ok hRead.executors hFind
    rw [parseExecutors, hElements] at hMap
    exact forall₂_iff (forall₂_of_mapM hMap) fun ej e hParse => parseExecutor_threads hLib hParse
  have hNodes : ∀ njs, root.find "nodes" = some njs →
      (List.Forall₂ NodeExact njs.elements config.nodes ↔ ∀ nj ∈ njs.elements,
        FitsInt (nj.find "max_in_flight") ∧ FitsInt (nj.find "source_layer") ∧
          ∀ m ∈ optionMembers nj, OptionFits m.2) := by
    intro njs hFind
    have hMap := section_ok hRead.nodes hFind
    rw [parseNodes, hElements] at hMap
    exact forall₂_iff (forall₂_of_mapM hMap) fun nj node hParse => parseNode_integers hLib hParse
  constructor
  · intro hExact
    have hNode := fun njs hFind => (hNodes njs hFind).mp (hExact.nodes njs hFind)
    exact
      { maxQueueSize := hSize.mp hExact.maxQueueSize
        histogramInterval := fun pc hFind =>
          (hInterval pc hFind).mp (hExact.histogramInterval pc hFind)
        numIntervals := fun pc hFind => (hCount pc hFind).mp (hExact.numIntervals pc hFind)
        numThreads := fun ejs hFind => (hExecutors ejs hFind).mp (hExact.executors ejs hFind)
        maxInFlight := fun njs hFind nj hMem => (hNode njs hFind nj hMem).1
        sourceLayer := fun njs hFind nj hMem => (hNode njs hFind nj hMem).2.1
        options := fun njs hFind nj hMem => (hNode njs hFind nj hMem).2.2 }
  · intro hFit
    exact
      { maxQueueSize := hSize.mpr hFit.maxQueueSize
        histogramInterval := fun pc hFind =>
          (hInterval pc hFind).mpr (hFit.histogramInterval pc hFind)
        numIntervals := fun pc hFind => (hCount pc hFind).mpr (hFit.numIntervals pc hFind)
        executors := fun ejs hFind => (hExecutors ejs hFind).mpr (hFit.numThreads ejs hFind)
        nodes := fun njs hFind => (hNodes njs hFind).mpr fun nj hMem =>
          ⟨hFit.maxInFlight njs hFind nj hMem, hFit.sourceLayer njs hFind nj hMem,
            hFit.options njs hFind nj hMem⟩ }

/-- A config with integers of every kind: of 32 bits, of 33, of 64, and beyond. -/
def numbersJson : Json :=
  .object
    [("executors", .array [.object [("name", .string "e"), ("num_threads", .integer 4)]]),
      ("max_queue_size", .integer 7),
      ("nodes", .array [.object
        [("max_in_flight", .integer (-1)), ("name", .string "n"),
          ("options", .object
            [("fps", .integer 30), ("seed", .integer 18446744073709551616)]),
          ("type", .string "T")]]),
      ("profiler_config", .object
        [("histogram_interval_size_usec", .integer 8589934592),
          ("num_histogram_intervals", .integer 2147483647)])]

/-- The text of it. -/
def numbersText : String :=
  "\x7b\"max_queue_size\": 7, " ++
  "\"profiler_config\": \x7b\"histogram_interval_size_usec\": 8589934592, " ++
  "\"num_histogram_intervals\": 2147483647\x7d, " ++
  "\"executors\": [\x7b\"name\": \"e\", \"num_threads\": 4\x7d], " ++
  "\"nodes\": [\x7b\"name\": \"n\", \"type\": \"T\", \"max_in_flight\": -1, " ++
  "\"options\": \x7b\"fps\": 30, \"seed\": 18446744073709551616\x7d\x7d]\x7d"

/-- What is read off it. -/
def numbersConfig : ParsedConfig where
  maxQueueSize := 7
  reportDeadlock := false
  profilerConfig :=
    { histogramIntervalSizeUsec := 8589934592
      numHistogramIntervals := 2147483647 }
  inputStreams := []
  outputStreams := []
  executors := [{ name := "e", type := "ThreadPoolExecutor", numThreads := 4 }]
  nodes := [{ name := "n", type := "T", maxInFlight := -1,
              options := [("fps", .int 30), ("seed", .double (cutDouble 18446744073709551616))] }]

theorem fits_integer {lo hi n : Int} {j : Option Json} (hSome : j = some (.integer n))
    (hRange : lo ≤ n ∧ n ≤ hi) : Fits lo hi j := by
  intro v m hFind hDenotes
  obtain rfl : v = .integer n := Option.some.inj (hFind.symm.trans hSome)
  obtain rfl : n = m := hDenotes
  exact hRange

theorem fits_none {lo hi : Int} {j : Option Json} (hNone : j = none) : Fits lo hi j := by
  intro v m hFind
  exact absurd (hFind.symm.trans hNone) (by simp)

/-- Its integers fit: the seed is 2^64, which is a double. -/
theorem numbersJson_fit : IntegersFit numbersJson where
  maxQueueSize := fits_integer rfl (by decide)
  histogramInterval pc hFind := by
    obtain rfl := Option.some.inj hFind
    exact fits_integer rfl (by decide)
  numIntervals pc hFind := by
    obtain rfl := Option.some.inj hFind
    exact fits_integer rfl (by decide)
  numThreads ejs hFind := by
    obtain rfl := Option.some.inj hFind
    exact List.forall_mem_singleton.mpr (fits_integer rfl (by decide))
  maxInFlight njs hFind := by
    obtain rfl := Option.some.inj hFind
    exact List.forall_mem_singleton.mpr (fits_integer rfl (by decide))
  sourceLayer njs hFind := by
    obtain rfl := Option.some.inj hFind
    exact List.forall_mem_singleton.mpr (fits_none rfl)
  options njs hFind := by
    obtain rfl := Option.some.inj hFind
    have hSeed : OptionFits (.integer 18446744073709551616) := by
      refine ⟨fun hKept => absurd hKept (by decide), fun _ => ?_⟩
      refine ⟨⟨false, 1, 64, by norm_num, by norm_num⟩, ?_⟩
      norm_num [FiniteDouble.value, FiniteDouble.magnitude]
    have hFps : OptionFits (.integer 30) :=
      ⟨fun _ => by decide, fun hLong => absurd (by decide) hLong⟩
    refine List.forall_mem_singleton.mpr ?_
    exact List.forall_mem_cons.mpr ⟨hFps, List.forall_mem_singleton.mpr hSeed⟩

/-- The integers of the document are all in the config, the long one as a double. -/
theorem integers_exact_numbers :
    parseFromString (readerOf numbersText numbersJson) numbersText = .ok numbersConfig ∧
      IntegersExact numbersJson numbersConfig := by
  have hParse := parse_readerOf numbersText numbersJson
  have hAccepted :
      parseFromString (readerOf numbersText numbersJson) numbersText = .ok numbersConfig :=
    accepted_of_parseRoot hParse rfl (by decide +kernel)
  refine ⟨hAccepted, ?_⟩
  exact (integers_exact_iff (documented_readerOf _ _) hParse hAccepted).mpr numbersJson_fit

/-- A config of which only the queue size is given. -/
def queueSizeJson (n : Int) : Json := .object [("max_queue_size", .integer n)]

/-- The text of it. -/
def queueSizeText (n : Int) : String := "\x7b\"max_queue_size\": " ++ toString n ++ "\x7d"

/-- What is read off it. -/
def queueSizeConfig (stored : Int) : ParsedConfig where
  maxQueueSize := stored
  reportDeadlock := false
  inputStreams := []
  outputStreams := []
  executors := []
  nodes := []

/-- A queue size of 2^32 + 1 is accepted and becomes 1. -/
theorem queueSize_narrowed :
    parseFromString (readerOf (queueSizeText 4294967297) (queueSizeJson 4294967297))
        (queueSizeText 4294967297) = .ok (queueSizeConfig 1) ∧
      ¬ IntegersExact (queueSizeJson 4294967297) (queueSizeConfig 1) := by
  refine ⟨accepted_of_parseRoot (parse_readerOf _ _) rfl (by decide +kernel), ?_⟩
  intro hExact
  have hSize : (1 : Int) = 4294967297 := hExact.maxQueueSize (.integer 4294967297) _ rfl rfl
  exact absurd hSize (by decide)

end GraphRuntime.Config
