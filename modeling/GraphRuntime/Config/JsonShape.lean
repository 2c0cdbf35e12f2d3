import GraphRuntime.Config.JsonParser

/-!
# The documents `ParseFromString` can read

Only the parse of the text is guarded: an accessor that meets a value of the wrong type
throws, and nothing catches it.  `documentShape` is the shape a document must have for no
accessor to throw, in the order in which the members are read: a node that is rejected
ends the reading, so what comes after it may have any shape.

`Reads.bind_iff` is the rule for one read, and `parseFromString_guarded_iff` puts the
reads of the document together.
-/

namespace GraphRuntime.Config

open GraphRuntime.Stream GraphRuntime.Profiler

/-- A config that passes the validator, or a status which is not OK. -/
def Guarded : Except ParseFailure ParsedConfig → Prop
  | .ok config => (validate config.graphConfig).isOk = true
  | .error (.status s) => s.isOk = false
  | .error (.thrown _) => False

/-- The parse of a text fails with a `parse_error`, if it fails. -/
def JsonLibrary.FailsByParseError (lib : JsonLibrary) (jsonText : String) : Prop :=
  ∀ e, lib.parse jsonText = .error e → ∃ what, e = .parseError what

/-! ## The shape of a document -/

namespace Json

def isStrings : Json → Bool
  | .array items => items.all isString
  | _ => false

/-- An object whose member under the key, if there is one, is of the kind. -/
def memberIs (kind : Json → Bool) (j : Json) (key : String) : Bool :=
  j.isObject && (j.find key).all kind

/-- The string under a key, empty if there is none. -/
def text (j : Json) (key : String) : String :=
  match j.find key with
  | some (.string s) => s
  | _ => ""

end Json

open Json

def executorShape (ej : Json) : Bool :=
  memberIs isString ej "name" && (memberIs isString ej "type" &&
    memberIs isNumeric ej "num_threads")

def profilerShape (pc : Json) : Bool :=
  memberIs isBoolean pc "enable_profiler" &&
    (memberIs isNumeric pc "histogram_interval_size_usec" &&
      (memberIs isNumeric pc "num_histogram_intervals" &&
        memberIs isString pc "trace_log_path"))

/-- What is read of a node after its name and its type. -/
def nodeFieldsShape (nj : Json) : Bool :=
  memberIs isStrings nj "input_streams" && (memberIs isStrings nj "output_streams" &&
    (memberIs isStrings nj "input_side_packets" &&
      (memberIs isStrings nj "output_side_packets" && (memberIs isString nj "executor" &&
        (memberIs isString nj "input_stream_handler" &&
          (memberIs isNumeric nj "max_in_flight" && memberIs isNumeric nj "source_layer"))))))

/-- A node without a name or without a type is read no further. -/
def nodeShape (nj : Json) : Bool :=
  memberIs isString nj "name" && ((text nj "name").isEmpty ||
    (memberIs isString nj "type" && ((text nj "type").isEmpty || nodeFieldsShape nj)))

def optionsShape (nj : Json) : Bool :=
  match nj.find "options" with
  | none => true
  | some (.object members) => members.all fun m => isScalar m.2
  | some _ => false

/-- A node that does not end the reading of the nodes. -/
def nodeComplete (nj : Json) : Bool :=
  !(text nj "name").isEmpty && (!(text nj "type").isEmpty && optionsShape nj)

def nodesShape : List Json → Bool
  | [] => true
  | nj :: rest => nodeShape nj && (!nodeComplete nj || nodesShape rest)

def sectionIs (shape : Json → Bool) (root : Json) (key : String) : Bool :=
  (root.find key).all shape

def documentShape (root : Json) : Bool :=
  memberIs isNumeric root "max_queue_size" && (memberIs isBoolean root "report_deadlock" &&
    (sectionIs profilerShape root "profiler_config" &&
      (memberIs isStrings root "input_streams" && (memberIs isStrings root "output_streams" &&
        (sectionIs (fun ejs => ejs.elements.all executorShape) root "executors" &&
          sectionIs (fun njs => nodesShape njs.elements) root "nodes")))))

/-! ## One read -/

variable {lib : JsonLibrary}

/-- `get` converts exactly the values of the kind, and throws on the others. -/
structure Reads {α : Type} (get : Json → Except JsonException α) (kind : Json → Bool) :
    Prop where
  converts : ∀ j, kind j = true → ∃ a, get j = .ok a
  throws : ∀ j, kind j = false → ∃ e, get j = .error e

theorem reads_string (hLib : lib.Documented) : Reads lib.getString isString where
  converts j hKind := by
    cases j with
    | string s => exact ⟨s, hLib.getString_string s⟩
    | _ => exact absurd hKind Bool.false_ne_true
  throws j hKind := ⟨_, hLib.getString_other j hKind⟩

theorem reads_boolean (hLib : lib.Documented) : Reads lib.getBool isBoolean where
  converts j hKind := by
    cases j with
    | boolean b => exact ⟨b, hLib.getBool_boolean b⟩
    | _ => exact absurd hKind Bool.false_ne_true
  throws j hKind := ⟨_, hLib.getBool_other j hKind⟩

theorem Converts.reads {get : Json → Except JsonException Int} {cast : Int → Int} {lo hi : Int}
    (hConverts : Converts get cast lo hi) : Reads get isNumeric where
  converts j hKind := by
    obtain ⟨n, hOk, -⟩ := hConverts.inRange j hKind
    exact ⟨n, hOk⟩
  throws j hKind := ⟨_, hConverts.other j hKind⟩

theorem reads_strings (hLib : lib.Documented) : Reads lib.getStrings isStrings := by
  have hReads : Reads lib.getString isString := reads_string hLib
  have hItems : ∀ items : List Json,
      (items.all isString = true → ∃ l, items.mapM lib.getString = .ok l) ∧
        (items.all isString = false → ∃ e, items.mapM lib.getString = .error e) := by
    intro items
    induction items with
    | nil => exact ⟨fun _ => ⟨[], rfl⟩, fun hNone => absurd hNone (by simp)⟩
    | cons item items ih =>
        rw [List.all_cons, List.mapM_cons]
        cases hItem : isString item with
        | true =>
            obtain ⟨s, hGet⟩ := hReads.converts item hItem
            rw [hGet, Bool.true_and]
            refine ⟨?_, ?_⟩
            · intro hAll
              obtain ⟨l, hRest⟩ := ih.1 hAll
              exact ⟨s :: l, by rw [hRest]; rfl⟩
            · intro hSome
              obtain ⟨e, hRest⟩ := ih.2 hSome
              exact ⟨e, by rw [hRest]; rfl⟩
        | false =>
            obtain ⟨e, hGet⟩ := hReads.throws item hItem
            rw [hGet]
            exact ⟨fun hAll => absurd hAll (by simp), fun _ => ⟨e, rfl⟩⟩
  constructor
  · intro j hKind
    cases j with
    | array items =>
        rw [hLib.getStrings_array]
        exact (hItems items).1 hKind
    | _ => exact absurd hKind Bool.false_ne_true
  · intro j hKind
    cases j with
    | array items =>
        rw [hLib.getStrings_array]
        exact (hItems items).2 hKind
    | _ => exact ⟨_, hLib.getStrings_other _ rfl⟩

section

variable {α β : Type} {get : Json → Except JsonException α} {kind : Json → Bool} {j : Json}
  {key : String} {defaultValue : α} {f : α → Except ParseFailure β} {P : Prop}
  {Q : Except ParseFailure β → Prop}

theorem Reads.value (hLib : lib.Documented) (hReads : Reads get kind) (defaultValue : α) :
    (memberIs kind j key = true → ∃ a, lib.read get j key defaultValue = .ok a) ∧
      (memberIs kind j key = false →
        ∃ e, lib.read get j key defaultValue = .error (.thrown e)) := by
  unfold JsonLibrary.read
  cases hObject : j.isObject with
  | true =>
      cases j with
      | object members =>
          rw [hLib.value_object]
          cases hFind : members.lookup key with
          | none => simp [memberIs, isObject, Json.find, hFind, thrown, Except.mapError]
          | some member =>
              simp only [memberIs, isObject, Json.find, hFind, Bool.true_and, Option.all_some,
                Option.elim_some]
              refine ⟨?_, ?_⟩
              · intro hKind
                obtain ⟨a, hOk⟩ := hReads.converts member hKind
                exact ⟨a, by rw [hOk]; rfl⟩
              · intro hKind
                obtain ⟨e, hError⟩ := hReads.throws member hKind
                exact ⟨e, by rw [hError]; rfl⟩
      | _ => exact absurd hObject Bool.false_ne_true
  | false =>
      rw [hLib.value_other get j key defaultValue hObject]
      simp [memberIs, hObject, thrown, Except.mapError]

/-- **The rule for a read**, for whatever is asked of the rest of the parse that an
exception does not have. -/
theorem Reads.bind_iff (hReads : Reads get kind) (hLib : lib.Documented)
    (hQ : ∀ e, ¬ Q (.error (.thrown e))) (hRest : ∀ a, Q (f a) ↔ P) :
    Q ((lib.read get j key defaultValue).bind f) ↔ memberIs kind j key = true ∧ P := by
  cases hKind : memberIs kind j key with
  | true =>
      obtain ⟨a, hValue⟩ := (hReads.value hLib defaultValue).1 hKind
      rw [hValue]
      exact (hRest a).trans (and_iff_right rfl).symm
  | false =>
      obtain ⟨e, hValue⟩ := (hReads.value hLib defaultValue).2 hKind
      rw [hValue]
      exact iff_of_false (hQ e) (by simp)

/-- The same for a string that decides what is read next. -/
theorem text_bind_iff {f : String → Except ParseFailure β} (hLib : lib.Documented)
    (hQ : ∀ e, ¬ Q (.error (.thrown e))) :
    Q ((lib.read lib.getString j key "").bind f) ↔
      memberIs isString j key = true ∧ Q (f (text j key)) := by
  cases hKind : memberIs isString j key with
  | true =>
      have hValue : lib.read lib.getString j key "" = .ok (text j key) := by
        refine thrown_eq_ok.mpr ?_
        cases j with
        | object members =>
            rw [hLib.value_object]
            simp only [memberIs, isObject, Json.find, Bool.true_and] at hKind
            cases hFind : members.lookup key with
            | none => simp [text, Json.find, hFind]
            | some member =>
                rw [hFind, Option.all_some] at hKind
                cases member with
                | string s => simp [text, Json.find, hFind, hLib.getString_string]
                | _ => exact absurd hKind Bool.false_ne_true
        | _ => simp [memberIs, isObject] at hKind
      rw [hValue]
      exact (and_iff_right rfl).symm
  | false =>
      obtain ⟨e, hValue⟩ := ((reads_string hLib).value hLib "").2 hKind
      rw [hValue]
      exact iff_of_false (hQ e) (by simp)

/-! ## Nothing is thrown, and something is returned -/

/-- Nothing is thrown, and a status that is returned is not OK. -/
def Safe (e : Except ParseFailure β) : Prop :=
  ∀ failure, e = .error failure → ∃ s, failure = .status s ∧ s.isOk = false

/-- A value is returned. -/
def Succeeds (e : Except ParseFailure β) : Prop := ∃ b, e = .ok b

theorem not_safe_thrown (e : JsonException) :
    ¬ Safe (Except.error (.thrown e) : Except ParseFailure β) := by
  intro hSafe
  obtain ⟨s, hStatus, _⟩ := hSafe _ rfl
  simp at hStatus

theorem not_succeeds_thrown (e : JsonException) :
    ¬ Succeeds (Except.error (.thrown e) : Except ParseFailure β) := by
  rintro ⟨b, hOk⟩
  simp at hOk

theorem safe_ok (b : β) : Safe (Except.ok b) := by
  intro failure hFailed
  simp at hFailed

theorem safe_status {s : Status} (hStatus : s.isOk = false) :
    Safe (Except.error (.status s) : Except ParseFailure β) := by
  intro failure hFailed
  rw [Except.error.injEq] at hFailed
  exact ⟨s, hFailed.symm, hStatus⟩

theorem succeeds_ok (b : β) : Succeeds (Except.ok b) := ⟨b, rfl⟩

/-- A failure that is a status stays one, whatever was to be returned. -/
theorem Safe.error {failure : ParseFailure}
    (hSafe : Safe (Except.error failure : Except ParseFailure α)) :
    Safe (Except.error failure : Except ParseFailure β) := by
  intro failure' hFailed
  rw [Except.error.injEq] at hFailed
  exact hSafe failure' (congrArg Except.error hFailed)

theorem safe_bind_iff {e : Except ParseFailure α} :
    Safe (e.bind f) ↔ Safe e ∧ ∀ a, e = .ok a → Safe (f a) := by
  cases e with
  | ok a =>
      refine Iff.trans ?_ (and_iff_right (safe_ok a)).symm
      simp [Except.bind]
  | error failure =>
      refine Iff.trans ?_ (and_iff_left (fun a hOk => by simp at hOk)).symm
      exact ⟨Safe.error, Safe.error⟩

theorem safe_reject_bind {condition : Bool} {message : String} {f : Unit → Except ParseFailure β} :
    Safe ((reject condition message).bind f) ↔ condition = true ∨ Safe (f ()) := by
  cases condition with
  | true => exact iff_of_true (safe_status rfl) (Or.inl rfl)
  | false => simp [reject, Except.bind]

theorem succeeds_reject_bind {condition : Bool} {message : String}
    {f : Unit → Except ParseFailure β} :
    Succeeds ((reject condition message).bind f) ↔ condition = false ∧ Succeeds (f ()) := by
  cases condition with
  | true =>
      refine iff_of_false ?_ (by simp)
      rintro ⟨b, hOk⟩
      simp [reject, Except.bind] at hOk
  | false => simp [reject, Except.bind]

/-- A loop is safe as far as it gets. -/
theorem safe_mapM_cons {g : Json → Except ParseFailure β} {x : Json} {xs : List Json} :
    Safe ((x :: xs).mapM g) ↔ Safe (g x) ∧ (Succeeds (g x) → Safe (xs.mapM g)) := by
  rw [List.mapM_cons]
  refine safe_bind_iff.trans (and_congr_right fun _ => ?_)
  constructor
  · rintro hRest ⟨b, hOk⟩
    exact (safe_bind_iff.mp (hRest b hOk)).1
  · intro hRest b hOk
    exact safe_bind_iff.mpr ⟨hRest ⟨b, hOk⟩, fun bs _ => safe_ok _⟩

/-! ## The parts of a document -/

theorem parseExecutor_iff {Q : Except ParseFailure ParsedExecutor → Prop} (hLib : lib.Documented)
    (hQ : ∀ e, ¬ Q (.error (.thrown e))) (hDone : ∀ e, Q (.ok e)) (ej : Json) :
    Q (parseExecutor lib ej) ↔ executorShape ej = true := by
  refine ((reads_string hLib).bind_iff hLib hQ fun name =>
    (reads_string hLib).bind_iff hLib hQ fun type =>
    hLib.getInt.reads.bind_iff hLib hQ fun n => iff_of_true (hDone _) trivial).trans ?_
  simp [executorShape]

theorem parseProfilerConfig_iff {Q : Except ParseFailure ProfilerConfig → Prop}
    (hLib : lib.Documented) (hQ : ∀ e, ¬ Q (.error (.thrown e))) (hDone : ∀ c, Q (.ok c))
    (pc : Json) : Q (parseProfilerConfig lib pc) ↔ profilerShape pc = true := by
  refine ((reads_boolean hLib).bind_iff hLib hQ fun enable =>
    hLib.getLongLong.reads.bind_iff hLib hQ fun interval =>
    hLib.getInt.reads.bind_iff hLib hQ fun n =>
    (reads_string hLib).bind_iff hLib hQ fun path => iff_of_true (hDone _) trivial).trans ?_
  simp [profilerShape]

/-- The reads of a node after its name and its type. -/
theorem nodeFields_iff {Q : Except ParseFailure ParsedNode → Prop} {nj : Json} {P : Prop}
    {f : List String → List String → List String → List String → String → String → Int → Int →
      Except ParseFailure ParsedNode}
    (hLib : lib.Documented) (hQ : ∀ e, ¬ Q (.error (.thrown e)))
    (hRest : ∀ ins outs inSides outSides executor handler maxInFlight sourceLayer,
      Q (f ins outs inSides outSides executor handler maxInFlight sourceLayer) ↔ P) :
    Q (do
        let ins ← lib.read lib.getStrings nj "input_streams" []
        let outs ← lib.read lib.getStrings nj "output_streams" []
        let inSides ← lib.read lib.getStrings nj "input_side_packets" []
        let outSides ← lib.read lib.getStrings nj "output_side_packets" []
        let executor ← lib.read lib.getString nj "executor" ""
        let handler ← lib.read lib.getString nj "input_stream_handler" ""
        let maxInFlight ← lib.read lib.getInt nj "max_in_flight" 1
        let sourceLayer ← lib.read lib.getInt nj "source_layer" 0
        f ins outs inSides outSides executor handler maxInFlight sourceLayer) ↔
      nodeFieldsShape nj = true ∧ P := by
  have hString : Reads lib.getString isString := reads_string hLib
  have hStrings : Reads lib.getStrings isStrings := reads_strings hLib
  have hInt : Reads lib.getInt isNumeric := hLib.getInt.reads
  refine (hStrings.bind_iff hLib hQ fun ins => hStrings.bind_iff hLib hQ fun outs =>
    hStrings.bind_iff hLib hQ fun inSides => hStrings.bind_iff hLib hQ fun outSides =>
    hString.bind_iff hLib hQ fun executor => hString.bind_iff hLib hQ fun handler =>
    hInt.bind_iff hLib hQ fun maxInFlight => hInt.bind_iff hLib hQ fun sourceLayer =>
      hRest ins outs inSides outSides executor handler maxInFlight sourceLayer).trans ?_
  simp only [nodeFieldsShape, Bool.and_eq_true, and_assoc]

theorem OptionRead.isScalar {v : Json} {option : OptionValue} (hRead : OptionRead v option) :
    v.isScalar = true := by
  cases hRead <;> rfl

theorem parseNodeOption_scalar (hLib : lib.Documented) (nodeName key : String) (v : Json) :
    Safe (parseNodeOption lib nodeName key v) ∧
      (Succeeds (parseNodeOption lib nodeName key v) ↔ isScalar v = true) := by
  rcases parseNodeOption_cases hLib nodeName key v with ⟨option, hRead, hOk⟩ | ⟨hOther, hError⟩
  · rw [hOk]
    exact ⟨safe_ok _, iff_of_true (succeeds_ok _) hRead.isScalar⟩
  · rw [hError]
    refine ⟨safe_status rfl, iff_of_false ?_ (by simp [hOther])⟩
    rintro ⟨b, hOk⟩
    cases hOk

theorem parseOptions_shape (hLib : lib.Documented) (nodeName : String) (nj : Json) :
    Safe (parseOptions lib nodeName nj) ∧
      (Succeeds (parseOptions lib nodeName nj) ↔ optionsShape nj = true) := by
  have hMembers : ∀ members : List (String × Json),
      Safe (members.mapM fun m => parseNodeOption lib nodeName m.1 m.2) ∧
        (Succeeds (members.mapM fun m => parseNodeOption lib nodeName m.1 m.2) ↔
          members.all (fun m => isScalar m.2) = true) := by
    intro members
    induction members with
    | nil => exact ⟨safe_ok _, iff_of_true (succeeds_ok _) rfl⟩
    | cons m members ih =>
        have hOne := parseNodeOption_scalar hLib nodeName m.1 m.2
        rw [List.mapM_cons, List.all_cons, Bool.and_eq_true, ← hOne.2, ← ih.2]
        cases hParse : parseNodeOption lib nodeName m.1 m.2 with
        | error failure =>
            rw [hParse] at hOne
            exact ⟨hOne.1.error, iff_of_false (by rintro ⟨b, hOk⟩; cases hOk)
              (by rintro ⟨⟨b, hOk⟩, _⟩; cases hOk)⟩
        | ok o =>
            cases hRest : members.mapM fun m => parseNodeOption lib nodeName m.1 m.2 with
            | error failure =>
                rw [hRest] at ih
                exact ⟨ih.1.error, iff_of_false (by rintro ⟨b, hOk⟩; cases hOk)
                  (by rintro ⟨_, ⟨b, hOk⟩⟩; cases hOk)⟩
            | ok os =>
                exact ⟨safe_ok _, iff_of_true (succeeds_ok _) ⟨succeeds_ok o, succeeds_ok os⟩⟩
  unfold parseOptions optionsShape
  cases nj.find "options" with
  | none => exact ⟨safe_ok _, iff_of_true (succeeds_ok _) rfl⟩
  | some options =>
      cases options with
      | object members => exact hMembers members
      | _ =>
          exact ⟨safe_status rfl, iff_of_false (by rintro ⟨b, hOk⟩; cases hOk) (by simp)⟩

end

/-- **A node** throws nothing exactly if it has the shape of one, as far as it is read. -/
theorem safe_parseNode (hLib : lib.Documented) (nj : Json) :
    Safe (parseNode lib nj) ↔ nodeShape nj = true := by
  have hOptions : ∀ (name : String) (make : List (String × OptionValue) → ParsedNode),
      Safe ((parseOptions lib name nj).bind fun options => pure (make options)) ↔ True := by
    intro name make
    exact iff_of_true
      (safe_bind_iff.mpr ⟨(parseOptions_shape hLib name nj).1, fun _ _ => safe_ok _⟩) trivial
  refine (text_bind_iff hLib not_safe_thrown).trans ?_
  refine (and_congr_right fun _ => safe_reject_bind.trans <| or_congr_right <|
    (text_bind_iff hLib not_safe_thrown).trans <| and_congr_right fun _ =>
      safe_reject_bind.trans <| or_congr_right <|
        nodeFields_iff hLib not_safe_thrown fun _ _ _ _ _ _ _ _ => hOptions _ _).trans ?_
  simp [nodeShape]

/-- It is read to its end if nothing in it is rejected either. -/
theorem succeeds_parseNode (hLib : lib.Documented) {nj : Json} (hShape : nodeShape nj = true) :
    Succeeds (parseNode lib nj) ↔ nodeComplete nj = true := by
  have hOptions : ∀ (name : String) (make : List (String × OptionValue) → ParsedNode),
      Succeeds ((parseOptions lib name nj).bind fun options => pure (make options)) ↔
        optionsShape nj = true := by
    intro name make
    rw [← (parseOptions_shape hLib name nj).2]
    cases parseOptions lib name nj with
    | error failure =>
        exact iff_of_false (by rintro ⟨b, hOk⟩; cases hOk) (by rintro ⟨b, hOk⟩; cases hOk)
    | ok options => exact iff_of_true (succeeds_ok _) (succeeds_ok _)
  have hParse : Succeeds (parseNode lib nj) ↔ memberIs isString nj "name" = true ∧
      (text nj "name").isEmpty = false ∧ memberIs isString nj "type" = true ∧
        (text nj "type").isEmpty = false ∧ nodeFieldsShape nj = true ∧
          optionsShape nj = true :=
    (text_bind_iff hLib not_succeeds_thrown).trans <| and_congr_right fun _ =>
      succeeds_reject_bind.trans <| and_congr_right fun _ =>
        (text_bind_iff hLib not_succeeds_thrown).trans <| and_congr_right fun _ =>
          succeeds_reject_bind.trans <| and_congr_right fun _ =>
            nodeFields_iff hLib not_succeeds_thrown fun _ _ _ _ _ _ _ _ => hOptions _ _
  rw [hParse]
  simp only [nodeShape, nodeComplete, Bool.and_eq_true, Bool.or_eq_true, Bool.not_eq_true']
    at hShape ⊢
  constructor
  · rintro ⟨_, hName, _, hType, _, hScalar⟩
    exact ⟨hName, hType, hScalar⟩
  · rintro ⟨hName, hType, hScalar⟩
    obtain ⟨hNameKind, hNone | ⟨hTypeKind, hNone | hFields⟩⟩ := hShape
    · exact absurd hNone (by simp [hName])
    · exact absurd hNone (by simp [hType])
    · exact ⟨hNameKind, hName, hTypeKind, hType, hFields, hScalar⟩

theorem safe_parseNodes (hLib : lib.Documented) (njs : Json) :
    Safe (parseNodes lib njs) ↔ nodesShape njs.elements = true := by
  rw [parseNodes, hLib.elements_eq]
  induction njs.elements with
  | nil => exact iff_of_true (safe_ok _) rfl
  | cons nj njs ih =>
      rw [safe_mapM_cons, ih, safe_parseNode hLib, nodesShape, Bool.and_eq_true, Bool.or_eq_true,
        Bool.not_eq_true']
      refine and_congr_right fun hShape => ?_
      rw [succeeds_parseNode hLib hShape]
      cases nodeComplete nj <;> simp

/-- The executors are all read, or something is thrown. -/
theorem parseExecutors_iff (hLib : lib.Documented) (ejs : Json) :
    (Safe (parseExecutors lib ejs) ↔ ejs.elements.all executorShape = true) ∧
      (Safe (parseExecutors lib ejs) → Succeeds (parseExecutors lib ejs)) := by
  rw [parseExecutors, hLib.elements_eq]
  induction ejs.elements with
  | nil => exact ⟨iff_of_true (safe_ok _) rfl, fun _ => succeeds_ok _⟩
  | cons ej ejs ih =>
      have hSafe := parseExecutor_iff hLib not_safe_thrown safe_ok ej
      have hSucceeds := parseExecutor_iff hLib not_succeeds_thrown succeeds_ok ej
      rw [safe_mapM_cons, ih.1, hSafe, hSucceeds, List.all_cons, Bool.and_eq_true]
      refine ⟨and_congr_right fun hShape => forall_prop_of_true hShape, ?_⟩
      rintro ⟨hShape, hRest⟩
      obtain ⟨e, hOne⟩ := hSucceeds.mpr hShape
      obtain ⟨es, hMore⟩ := ih.2 (ih.1.mpr (hRest hShape))
      rw [List.mapM_cons, hOne, hMore]
      exact succeeds_ok _

section

variable {α β : Type} {parse : Json → Except ParseFailure α} {defaultValue : α} {root : Json}
  {key : String} {shape : Json → Bool} {f : α → Except ParseFailure β} {P : Prop}

/-- A section that is not there is not read. -/
theorem safe_parseSection (hParse : ∀ j, Safe (parse j) ↔ shape j = true) :
    Safe (parseSection parse defaultValue root key) ↔ sectionIs shape root key = true := by
  unfold parseSection sectionIs
  cases root.find key with
  | none => exact iff_of_true (safe_ok _) rfl
  | some j => exact hParse j

/-- The rule for a section that returns no status. -/
theorem safe_parseSection_bind (hParse : ∀ j, Safe (parse j) ↔ shape j = true)
    (hReturns : ∀ j, Safe (parse j) → Succeeds (parse j)) (hRest : ∀ a, Safe (f a) ↔ P) :
    Safe ((parseSection parse defaultValue root key).bind f) ↔
      sectionIs shape root key = true ∧ P := by
  rw [safe_bind_iff, safe_parseSection hParse]
  refine and_congr_right fun hShape => ?_
  have hSome : Succeeds (parseSection parse defaultValue root key) := by
    unfold parseSection sectionIs at *
    cases hFind : root.find key with
    | none => exact succeeds_ok _
    | some j =>
        rw [hFind] at hShape
        exact hReturns j ((hParse j).mpr hShape)
  obtain ⟨a, hOk⟩ := hSome
  constructor
  · intro hAll
    exact (hRest a).mp (hAll a hOk)
  · intro hP b _
    exact (hRest b).mpr hP

end

/-! ## The document -/

theorem safe_parseRoot (hLib : lib.Documented) (root : Json) :
    Safe (parseRoot lib root) ↔ documentShape root = true := by
  have hNodes : Safe (parseSection (parseNodes lib) [] root "nodes") ↔
      sectionIs (fun njs => nodesShape njs.elements) root "nodes" = true :=
    safe_parseSection fun njs => safe_parseNodes hLib njs
  have hLast : ∀ make : List ParsedNode → ParsedConfig,
      Safe ((parseSection (parseNodes lib) [] root "nodes").bind
        fun nodes => pure (make nodes)) ↔
      sectionIs (fun njs => nodesShape njs.elements) root "nodes" = true := by
    intro make
    rw [safe_bind_iff, hNodes]
    exact and_iff_left fun _ _ => safe_ok _
  have hStrings : Reads lib.getStrings isStrings := reads_strings hLib
  refine (hLib.getInt.reads.bind_iff hLib not_safe_thrown fun maxQueueSize =>
    (reads_boolean hLib).bind_iff hLib not_safe_thrown fun reportDeadlock =>
    safe_parseSection_bind (parseProfilerConfig_iff hLib not_safe_thrown safe_ok)
      (fun pc hSafe => (parseProfilerConfig_iff hLib not_succeeds_thrown succeeds_ok pc).mpr
        ((parseProfilerConfig_iff hLib not_safe_thrown safe_ok pc).mp hSafe)) fun profilerConfig =>
    hStrings.bind_iff hLib not_safe_thrown fun ins =>
    hStrings.bind_iff hLib not_safe_thrown fun outs =>
    safe_parseSection_bind (fun ejs => (parseExecutors_iff hLib ejs).1)
      (fun ejs => (parseExecutors_iff hLib ejs).2) fun executors => hLast _).trans ?_
  simp only [documentShape, Bool.and_eq_true]

/-- **Config parsing**: no exception leaves `ParseFromString` exactly if a text that does
not parse fails with a `parse_error`, and the document of one that does has the shape of a
config. -/
theorem parseFromString_guarded_iff (hLib : lib.Documented) (jsonText : String) :
    Guarded (parseFromString lib jsonText) ↔ lib.FailsByParseError jsonText ∧
      ∀ root, lib.parse jsonText = .ok root → documentShape root = true := by
  unfold parseFromString parseJsonText JsonLibrary.FailsByParseError
  cases lib.parse jsonText with
  | error e =>
      simp only [Except.error.injEq, forall_eq', reduceCtorEq, false_implies, implies_true,
        and_true]
      cases e with
      | parseError what => exact iff_of_true rfl ⟨what, rfl⟩
      | _ => exact iff_of_false id (by simp)
  | ok root =>
      simp only [Except.ok.injEq, forall_eq', reduceCtorEq, false_implies, implies_true, true_and]
      rw [← safe_parseRoot hLib]
      cases hRoot : parseRoot lib root with
      | error failure =>
          constructor
          · intro hGuarded
            cases failure with
            | status s => exact safe_status hGuarded
            | thrown e => exact hGuarded.elim
          · intro hSafe
            obtain ⟨s, rfl, hStatus⟩ := hSafe failure rfl
            exact hStatus
      | ok config =>
          refine iff_of_true ?_ (safe_ok config)
          show Guarded (if (validate config.graphConfig).isOk then pure config
            else .error (.status (validate config.graphConfig)))
          split
          next hValid => exact hValid
          next hInvalid => exact Bool.eq_false_iff.mpr hInvalid

/-- A document with a section of each kind; its second node has no type, so that what its
third node is does not matter. -/
def sectionsJson : Json :=
  .object
    [("executors", .array [.object [("name", .string "e"), ("num_threads", .integer 2)]]),
      ("input_streams", .array [.string "x"]), ("max_queue_size", .integer 16),
      ("nodes", .array
        [.object [("input_streams", .array [.string "x"]), ("name", .string "a"),
            ("options", .object [("gain", .float ⟨false, 3, -1, by decide, by decide⟩)]),
            ("type", .string "T")],
          .object [("name", .string "b")],
          .null]),
      ("profiler_config", .object [("enable_profiler", .boolean true)])]

/-- The text of it. -/
def sectionsText : String :=
  "\x7b\"max_queue_size\": 16, \"input_streams\": [\"x\"], " ++
  "\"profiler_config\": \x7b\"enable_profiler\": true\x7d, " ++
  "\"executors\": [\x7b\"name\": \"e\", \"num_threads\": 2\x7d], " ++
  "\"nodes\": [\x7b\"name\": \"a\", \"type\": \"T\", \"input_streams\": [\"x\"], " ++
  "\"options\": \x7b\"gain\": 1.5\x7d\x7d, \x7b\"name\": \"b\"\x7d, null]\x7d"

/-- No exception leaves the parse of such a text, or of the empty one. -/
theorem parseFromString_guarded_sections :
    Guarded (parseFromString (readerOf sectionsText sectionsJson) "") ∧
      Guarded (parseFromString (readerOf sectionsText sectionsJson) sectionsText) := by
  have hEmpty := parse_readerOf_other sectionsJson (show "" ≠ sectionsText by decide +kernel)
  have hSections := parse_readerOf sectionsText sectionsJson
  have hLib := documented_readerOf sectionsText sectionsJson
  rw [parseFromString_guarded_iff hLib, parseFromString_guarded_iff hLib]
  refine ⟨⟨?_, ?_⟩, ?_, ?_⟩
  · intro e hError
    exact ⟨_, Except.error.inj (hError.symm.trans hEmpty)⟩
  · intro root hRoot
    cases hRoot.symm.trans hEmpty
  · intro e hError
    cases hError.symm.trans hSections
  · intro root hRoot
    obtain rfl := Except.ok.inj (hRoot.symm.trans hSections)
    decide +kernel

/-- The document `[]` is no object, so the first read throws. -/
theorem parseFromString_throws :
    ¬ Guarded (parseFromString (readerOf "[]" (.array [])) "[]") := by
  intro hGuarded
  exact hGuarded

end GraphRuntime.Config
