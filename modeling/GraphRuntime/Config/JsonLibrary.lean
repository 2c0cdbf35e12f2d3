import Mathlib.Data.Nat.Size
import GraphRuntime.Profiler.ProfileWriter
import GraphRuntime.Profiler.TimeHistogram

/-!
# nlohmann::json, as far as a config is read

The text of a config is parsed by a library that is not part of this program, so the
library is a parameter: `JsonLibrary` has the calls the parser makes of it, and
`JsonLibrary.Documented` is what the library's documentation says of them.

`Json` is the value of a document.  An integer literal of any size is an `integer`;
the library keeps those of 64 bits, signed or not, as integers and the others as
doubles.  A `get` of an integer type is a `static_cast`.  For an integer of 64 bits
it keeps the lowest bits and for a double it cuts the fraction off; the cast of a
double that does not fit the type is undefined, so `Converts` says nothing about
its result but that it is of the type.
-/

namespace GraphRuntime.Config

open GraphRuntime.Stream GraphRuntime.Profiler

/-- The value of a document; the keys of an object are distinct, and its members
stand in the order in which the library visits them. -/
inductive Json
  | null
  | boolean (b : Bool)
  | integer (n : Int)
  | float (x : FiniteDouble)
  | string (s : String)
  | array (items : List Json)
  | object (members : List (String × Json))

namespace Json

/-- The member of an object under a key. -/
def find : Json → String → Option Json
  | .object members, key => members.lookup key
  | _, _ => none

/-- What a range-based `for` loop visits. -/
def elements : Json → List Json
  | .null => []
  | .array items => items
  | .object members => members.map Prod.snd
  | j => [j]

def isObject : Json → Bool
  | .object _ => true
  | _ => false

def isArray : Json → Bool
  | .array _ => true
  | _ => false

def isString : Json → Bool
  | .string _ => true
  | _ => false

def isBoolean : Json → Bool
  | .boolean _ => true
  | _ => false

/-- What `get` of an integer type converts. -/
def isNumeric : Json → Bool
  | .integer _ | .float _ | .boolean _ => true
  | _ => false

/-- What an option may be. -/
def isScalar : Json → Bool
  | .string _ | .boolean _ | .integer _ | .float _ => true
  | _ => false

/-- A `double` without its fraction. -/
def truncate (x : FiniteDouble) : Int :=
  if x.negative then -⌊x.magnitude⌋ else ⌊x.magnitude⌋

end Json

/-! ## The library -/

/-- The exceptions of the library. -/
inductive JsonException
  | parseError (what : String)
  | typeError (id : Nat)
  | outOfRange (id : Nat)

/-- The calls that are made of the library. -/
structure JsonLibrary where
  parse : String → Except JsonException Json
  value : {α : Type} → (Json → Except JsonException α) → Json → String → α →
    Except JsonException α
  elements : Json → List Json
  isNumberInteger : Json → Bool
  isNumberFloat : Json → Bool
  getString : Json → Except JsonException String
  getBool : Json → Except JsonException Bool
  getStrings : Json → Except JsonException (List String)
  getInt : Json → Except JsonException Int
  getLongLong : Json → Except JsonException Int
  getDouble : Json → Except JsonException FiniteDouble

/-- `INT_MIN`. -/
def int32Min : Int := -2147483648

/-- `UINT64_MAX`. -/
def uint64Max : Int := 18446744073709551615

/-- The integers that the library keeps as such. -/
def Kept (n : Int) : Prop := int64Min ≤ n ∧ n ≤ uint64Max

instance (n : Int) : Decidable (Kept n) := inferInstanceAs (Decidable (_ ∧ _))

/-- `get` of the integer type from `lo` to `hi`. -/
structure Converts (get : Json → Except JsonException Int) (cast : Int → Int) (lo hi : Int) :
    Prop where
  integer : ∀ n, Kept n → get (.integer n) = .ok (cast n)
  float : ∀ x, lo ≤ Json.truncate x → Json.truncate x ≤ hi →
    get (.float x) = .ok (Json.truncate x)
  boolean : ∀ b, get (.boolean b) = .ok (if b then 1 else 0)
  /-- Whatever is converted becomes a value of the type. -/
  inRange : ∀ j, j.isNumeric = true → ∃ n, get j = .ok n ∧ lo ≤ n ∧ n ≤ hi
  other : ∀ j, j.isNumeric = false → get j = .error (.typeError 302)

/-- **The documented behaviour.** -/
structure JsonLibrary.Documented (lib : JsonLibrary) : Prop where
  /-- `value` converts the member under the key or takes the default. -/
  value_object : ∀ {α : Type} (get : Json → Except JsonException α) members key defaultValue,
    lib.value get (.object members) key defaultValue =
      (members.lookup key).elim (.ok defaultValue) get
  value_other : ∀ {α : Type} (get : Json → Except JsonException α) j key defaultValue,
    j.isObject = false → lib.value get j key defaultValue = .error (.typeError 306)
  elements_eq : ∀ j, lib.elements j = j.elements
  isNumberInteger_iff : ∀ j, lib.isNumberInteger j = true ↔ ∃ n, j = .integer n ∧ Kept n
  isNumberFloat_iff : ∀ j, lib.isNumberFloat j = true ↔
    (∃ x, j = .float x) ∨ ∃ n, j = .integer n ∧ ¬ Kept n
  getString_string : ∀ s, lib.getString (.string s) = .ok s
  getString_other : ∀ j, j.isString = false → lib.getString j = .error (.typeError 302)
  getBool_boolean : ∀ b, lib.getBool (.boolean b) = .ok b
  getBool_other : ∀ j, j.isBoolean = false → lib.getBool j = .error (.typeError 302)
  getStrings_array : ∀ items, lib.getStrings (.array items) = items.mapM lib.getString
  getStrings_other : ∀ j, j.isArray = false → lib.getStrings j = .error (.typeError 302)
  getInt : Converts lib.getInt wrap32 int32Min int32Max
  getLongLong : Converts lib.getLongLong wrap64 int64Min int64Max
  getDouble_float : ∀ x, lib.getDouble (.float x) = .ok x
  /-- An integer becomes a nearest double, so itself if it is one. -/
  getDouble_integer : ∀ n, ∃ x, lib.getDouble (.integer n) = .ok x ∧
    ∀ y : FiniteDouble, y.value = n → x.value = n

/-! ## A library of this kind -/

/-- The bits of an integer that a `double` has no place for. -/
def droppedBits (n : Int) : Nat := min (n.natAbs.size - 53) 971

/-- An integer cut to its first 53 bits. -/
def cutDouble (n : Int) : FiniteDouble where
  negative := decide (n < 0)
  mantissa := n.natAbs / 2 ^ droppedBits n % 2 ^ 53
  exponent := (droppedBits n : Nat)
  mantissa_lt := Nat.mod_lt _ (by norm_num)
  exponent_range := by
    unfold droppedBits
    omega

/-- `get` of an integer type; where the cast is undefined, the least value. -/
def castInteger (cast : Int → Int) (lo hi : Int) : Json → Except JsonException Int
  | .integer n => .ok (if Kept n then cast n else lo)
  | .float x =>
      .ok (if lo ≤ Json.truncate x ∧ Json.truncate x ≤ hi then Json.truncate x else lo)
  | .boolean b => .ok (if b then 1 else 0)
  | _ => .error (.typeError 302)

/-- The string of a value. -/
def stringOf : Json → Except JsonException String
  | .string s => .ok s
  | _ => .error (.typeError 302)

/-- A library that does what is documented, for any parser of texts. -/
def JsonLibrary.reference (parse : String → Except JsonException Json) : JsonLibrary where
  parse
  value get j key defaultValue :=
    match j with
    | .object members => (members.lookup key).elim (.ok defaultValue) get
    | _ => .error (.typeError 306)
  elements := Json.elements
  isNumberInteger
    | .integer n => decide (Kept n)
    | _ => false
  isNumberFloat
    | .float _ => true
    | .integer n => decide (¬ Kept n)
    | _ => false
  getString := stringOf
  getBool
    | .boolean b => .ok b
    | _ => .error (.typeError 302)
  getStrings
    | .array items => items.mapM stringOf
    | _ => .error (.typeError 302)
  getInt := castInteger wrap32 int32Min int32Max
  getLongLong := castInteger wrap64 int64Min int64Max
  getDouble
    | .float x => .ok x
    | .integer n => .ok (cutDouble n)
    | _ => .error (.typeError 302)

/-- A library that knows one text, that of this document. -/
def readerOf (jsonText : String) (root : Json) : JsonLibrary :=
  .reference fun text => if text = jsonText then .ok root else .error (.parseError "parse error")

theorem parse_readerOf (jsonText : String) (root : Json) :
    (readerOf jsonText root).parse jsonText = .ok root := if_pos rfl

theorem parse_readerOf_other {jsonText text : String} (root : Json) (hNe : text ≠ jsonText) :
    (readerOf jsonText root).parse text = .error (.parseError "parse error") := if_neg hNe

/-- An integer that is a double is 53 bits and a power of two. -/
theorem natAbs_of_value {n : Int} {y : FiniteDouble} (hValue : y.value = n) :
    ∃ m k : Nat, n.natAbs = m * 2 ^ k ∧ m < 2 ^ 53 ∧ k ≤ 971 := by
  have hNonneg : 0 ≤ y.magnitude := by
    unfold FiniteDouble.magnitude
    exact mul_nonneg (Nat.cast_nonneg _) (zpow_nonneg (by norm_num) _)
  have hAbs : (n.natAbs : Rat) = y.magnitude := by
    rw [Nat.cast_natAbs, Int.cast_abs, ← hValue, FiniteDouble.value]
    split
    · rw [abs_neg, abs_of_nonneg hNonneg]
    · exact abs_of_nonneg hNonneg
  unfold FiniteDouble.magnitude at hAbs
  have hMantissa := y.mantissa_lt
  have hRange := y.exponent_range
  rcases Int.eq_nat_or_neg y.exponent with ⟨k, hExponent | hExponent⟩
  · refine ⟨y.mantissa, k, ?_, hMantissa, by omega⟩
    rw [hExponent, zpow_natCast] at hAbs
    exact_mod_cast hAbs
  · refine ⟨n.natAbs, 0, by simp, ?_, by omega⟩
    have hShift : n.natAbs * 2 ^ k = y.mantissa := by
      rw [hExponent, zpow_neg, zpow_natCast, ← div_eq_mul_inv, eq_div_iff (by positivity)] at hAbs
      exact_mod_cast hAbs
    have hLe : n.natAbs ≤ n.natAbs * 2 ^ k := Nat.le_mul_of_pos_right _ (by positivity)
    omega

/-- Cutting such a number takes nothing away. -/
theorem cut_exact {n : Int} {m k : Nat} (hEq : n.natAbs = m * 2 ^ k) (hBits : m < 2 ^ 53)
    (hPower : k ≤ 971) :
    n.natAbs / 2 ^ droppedBits n % 2 ^ 53 * 2 ^ droppedBits n = n.natAbs := by
  have hSize : n.natAbs.size ≤ 53 + k := by
    rw [Nat.size_le, hEq, pow_add]
    exact Nat.mul_lt_mul_of_pos_right hBits (by positivity)
  have hDropped : droppedBits n ≤ k ∧ n.natAbs.size ≤ 53 + droppedBits n := by
    unfold droppedBits
    omega
  have hDvd : 2 ^ droppedBits n ∣ n.natAbs :=
    hEq ▸ Dvd.dvd.mul_left (pow_dvd_pow 2 hDropped.1) m
  have hLt : n.natAbs < 2 ^ droppedBits n * 2 ^ 53 := by
    rw [mul_comm, ← pow_add, ← Nat.size_le]
    exact hDropped.2
  rw [Nat.mod_eq_of_lt (Nat.div_lt_of_lt_mul hLt), Nat.div_mul_cancel hDvd]

theorem cutDouble_value {n : Int} {y : FiniteDouble} (hValue : y.value = n) :
    (cutDouble n).value = n := by
  obtain ⟨m, k, hEq, hBits, hPower⟩ := natAbs_of_value hValue
  have hMagnitude : (cutDouble n).magnitude = n.natAbs := by
    have hPow : (2 : Rat) ^ (cutDouble n).exponent = 2 ^ droppedBits n := zpow_natCast 2 _
    rw [FiniteDouble.magnitude, hPow]
    exact_mod_cast cut_exact hEq hBits hPower
  have hSign : (cutDouble n).negative = decide (n < 0) := rfl
  rw [FiniteDouble.value, hMagnitude, hSign, Nat.cast_natAbs, Int.cast_abs]
  by_cases hNegative : n < 0
  · rw [if_pos (by simpa using hNegative), abs_of_neg (by exact_mod_cast hNegative), neg_neg]
  · rw [if_neg (by simpa using hNegative), abs_of_nonneg (by exact_mod_cast not_lt.mp hNegative)]

theorem converts_castInteger {cast : Int → Int} {lo hi : Int}
    (hCast : ∀ n, lo ≤ cast n ∧ cast n ≤ hi)
    (hLo : lo ≤ 0) (hHi : 1 ≤ hi) : Converts (castInteger cast lo hi) cast lo hi where
  integer n hKept := by simp [castInteger, hKept]
  float x hLow hHigh := by simp [castInteger, hLow, hHigh]
  boolean _ := rfl
  inRange j hNumeric := by
    cases j with
    | integer n =>
        refine ⟨_, rfl, ?_⟩
        have hBoth := hCast n
        split <;> omega
    | float x =>
        refine ⟨_, rfl, ?_⟩
        split <;> omega
    | boolean b =>
        refine ⟨_, rfl, ?_⟩
        split <;> omega
    | _ => simp [Json.isNumeric] at hNumeric
  other j hOther := by
    cases j <;> simp_all [Json.isNumeric, castInteger]

theorem documented_reference (parse : String → Except JsonException Json) :
    (JsonLibrary.reference parse).Documented where
  value_object _ _ _ _ := rfl
  value_other _ j _ _ hOther := by
    cases j <;> simp_all [Json.isObject, JsonLibrary.reference]
  elements_eq _ := rfl
  isNumberInteger_iff j := by
    cases j <;> simp [JsonLibrary.reference]
  isNumberFloat_iff j := by
    cases j <;> simp [JsonLibrary.reference]
  getString_string _ := rfl
  getString_other j hOther := by
    cases j <;> simp_all [Json.isString, JsonLibrary.reference, stringOf]
  getBool_boolean _ := rfl
  getBool_other j hOther := by
    cases j <;> simp_all [Json.isBoolean, JsonLibrary.reference]
  getStrings_array _ := rfl
  getStrings_other j hOther := by
    cases j <;> simp_all [Json.isArray, JsonLibrary.reference]
  getInt := by
    refine converts_castInteger (fun n => ?_) (by decide) (by decide)
    unfold wrap32 int32Min int32Max
    omega
  getLongLong := by
    refine converts_castInteger (fun n => ?_) (by decide) (by decide)
    unfold wrap64 int64Min int64Max
    omega
  getDouble_float _ := rfl
  getDouble_integer n := ⟨cutDouble n, rfl, fun _ hValue => cutDouble_value hValue⟩

theorem documented_readerOf (jsonText : String) (root : Json) :
    (readerOf jsonText root).Documented := documented_reference _

end GraphRuntime.Config
