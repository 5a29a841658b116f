import Axonyx.Ieee
import Axonyx.Runtime.Input.Decoders

/-! When the emitted decoder and the preview's read the same input: the conditions on a
field and its text, and from them the condition on a request or on a list of arguments. -/
namespace Axonyx.Runtime.Input

open Axonyx.Core (AxValue AxFloat insertField lookup lookup_insertAll lookup_of_mem lookup_reverse)
open Preview (PreviewError)

variable {F : Type} [Float64 F]

section Statements

/-- The value of a struct field and the value of a record field are the same. -/
def RustValue.Same : RustValue F → AxValue F → Prop
  | .string a, .string b => a = b
  | .bool a, .bool b => a = b
  | .i64 a, .number b => a = b
  | .u64 a, .number b => (a.toNat : Int) = b.toInt
  | .f64 a, .float b => canonical a = b.get
  | _, _ => False

/-- The value of a default that fits the type of its field. -/
def Literal.input (ty : RustTy) (literal : Literal F) : AxValue F :=
  if ty = .string then .string (asString literal.value) else literal.value

/-- The kinds of literals that the preview takes as a default. -/
def Literal.Fits : RustTy → Literal F → Prop
  | .string, _ => True
  | .bool, .bool _ => True
  | .i64, .number _ | .u64, .number _ => True
  | .f64, .number _ | .f64, .float _ => True
  | _, _ => False

/-- The emitted code refuses the text of a field. -/
def GeneratedRefuses (std : Std F) (field : AxFieldPlan F) : Option String → Prop
  | none => field.default = none ∧ field.optional = false ∧ field.rustTy ≠ .bool
  | some text => readText std field.rustTy text = none

/-- The preview refuses the text of a field. -/
def PreviewRefuses (std : Std F) (field : AxFieldPlan F) : Option String → Prop
  | none =>
    match field.default with
    | some literal => ¬literal.Fits field.rustTy
    | none => field.optional = false ∧ field.rustTy ≠ .bool
  | some text =>
    match field.rustTy with
    | .i64 => parseI64 (Text.trim text) = none
    | .u64 => ∀ value, parseU64 (Text.trim text) = some value → 2 ^ 63 ≤ value.toNat
    | .f64 => ∀ value, std.parseF64 (Text.trim text) = some value → Binary64.isFinite value = false
    | _ => False

/-- The decoders agree on a field: an absent field is not optional without a default, and no
`String` with the default null; a number is within the preview's range. -/
def RequestAgrees (std : Std F) (field : AxFieldPlan F) : Option String → Prop
  | none =>
    match field.default with
    | some literal => ¬(field.rustTy = .string ∧ literal = .null)
    | none => field.optional = false
  | some text =>
    match field.rustTy with
    | .u64 => ∀ value, parseU64 (Text.trim text) = some value → value.toNat < 2 ^ 63
    | .f64 => ∀ value, std.parseF64 (Text.trim text) = some value → Binary64.isFinite value = true
    | _ => True

/-- The decoders agree on a field of a loader, given its argument and what the request has
under its name. -/
def LoaderAgrees (std : Std F) (field : AxFieldPlan F) (requested : Option String) :
    Option (AxValue F) → Prop
  | none =>
    match requested with
    | none => RequestAgrees std field none
    | some text =>
      match field.default with
      | some literal => ∃ value, readText std field.rustTy text = some value ∧
          value.Same (literal.input field.rustTy)
      | none => field.optional = false ∧
          if field.rustTy = .bool then truthy text = false
          else readText std field.rustTy text = none
  | some argument =>
    match field.rustTy, argument with
    | _, .null => False
    | .string, .float value => std.jsonFloat value.get = FloatOps.display value.get
    | .string, .record _ | .string, .list _ => False
    | .string, _ => True
    | .bool, .bool _ => True
    | .bool, _ => False
    | .u64, .number value => 0 ≤ value.toInt
    | ty, .string text => readText std ty text = none
    | _, _ => True

/-- The emitted code refuses the argument of a field. -/
def GeneratedLoaderRefuses (std : Std F) (field : AxFieldPlan F) (requested : Option String)
    (argument : Option (AxValue F)) : Prop :=
  GeneratedRefuses std field
    ((argument.bind fun value => argumentText std (previewValueToJson value)).or requested)

/-- The preview refuses the argument of a field. -/
def PreviewLoaderRefuses (std : Std F) (field : AxFieldPlan F) : Option (AxValue F) → Prop
  | none => PreviewRefuses std field none
  | some argument =>
    match field.rustTy, argument with
    | _, .null => False
    | .string, .record _ | .string, .list _ => True
    | .string, _ => False
    | .bool, .bool _ => False
    | .i64, .number _ | .u64, .number _ => False
    | .f64, .number _ | .f64, .float _ => False
    | _, _ => True

/-- A list of fields is decoded the same way: by agreement at every field or by a refusal on
either side; where the compiler rejects the module, by a refusal of the preview. -/
def FieldsAgree (accepted : Bool) (fields : List (AxFieldPlan F × Nat))
    (agrees generated preview : AxFieldPlan F → Nat → Prop) : Prop :=
  if accepted then
    (∀ field ∈ fields, agrees field.1 field.2) ∨
      (∃ field ∈ fields, generated field.1 field.2) ∧ ∃ field ∈ fields, preview field.1 field.2
  else ∃ field ∈ fields, preview field.1 field.2

theorem loaderAgrees_null (std : Std F) (field : AxFieldPlan F) (requested : Option String) :
    ¬LoaderAgrees std field requested (some .null) := by
  obtain ⟨name, ty, optional, default⟩ := field
  cases ty <;> simp only [LoaderAgrees, not_false_eq_true]

/-- What the documentation of the two libraries says of their number texts. -/
structure Std.Lawful (std : Std F) : Prop where
  finite_ofInt : ∀ n : Int64, Binary64.isFinite (FloatOps.ofInt n : F) = true
  parse_ofInt : ∀ n : Int64, std.parseF64 (toString n) = some (FloatOps.ofInt n)
  parse_start : ∀ text value, std.parseF64 text = some value →
    ∃ c ∈ text.toList.head?, c.isDigit = true ∨ c ∈ ['+', '-', '.', 'i', 'I', 'n', 'N']
  parse_jsonFloat : ∀ value, Binary64.isFinite value = true →
    std.parseF64 (std.jsonFloat value) = some value
  jsonFloat_solid : ∀ value, ∀ c ∈ (std.jsonFloat value).toList, Text.isWhitespace c = false
  jsonFloat_point : ∀ value, Binary64.isFinite value = true →
    ∃ c ∈ (std.jsonFloat value).toList, c = '.' ∨ c = 'e'

end Statements

section Records

variable {ι ε : Type}

theorem foldlM_insertField (step : ι → Except ε (AxValue F)) (name : ι → String)
    (items : List ι) (record : List (String × AxValue F)) :
    (items.foldlM (fun record item => do
      let value ← step item
      return insertField record (name item) value) record) =
      (items.mapM fun item => (step item).map fun value => (name item, value)).map fun values =>
        values.foldl (fun record field => insertField record field.1 field.2) record := by
  induction items generalizing record with
  | nil => rfl
  | cons item rest ih =>
    rw [List.foldlM_cons, List.mapM_cons]
    cases step item with
    | error error => rfl
    | ok value =>
      refine (ih _).trans ?_
      cases rest.mapM fun item => (step item).map fun value => (name item, value) <;> rfl

/-- With no name twice, every pair is found in the record. -/
theorem lookup_foldl_insertField (values record : List (String × AxValue F))
    (distinct : (values.map (·.1)).Nodup) {name : String} {value : AxValue F}
    (member : (name, value) ∈ values) :
    lookup (values.foldl (fun record field => insertField record field.1 field.2) record) name =
      some value := by
  rw [lookup_insertAll, lookup_reverse distinct, lookup_of_mem distinct member]
  rfl

end Records

section Numbers

theorem trim_toString (n : Int64) : Text.trim (toString n) = toString n := by
  apply Text.trim_solid
  intro c member
  rcases Text.toString_chars n c member with digit | rfl
  · exact Text.solid_digit digit
  · rfl

theorem parseI64_toString (n : Int64) : parseI64 (toString n) = some n := Text.parseI64_toString n

theorem parseI64_chars {text : String} {n : Int64} (parsed : parseI64 text = some n) :
    ∀ c ∈ text.toList, c.isDigit = true ∨ c = '+' ∨ c = '-' := by
  rw [parseI64] at parsed
  intro c member
  split at parsed
  · next digits shape =>
    split at parsed
    · cases parsed
    · obtain ⟨m, unsigned, _⟩ := Option.map_eq_some_iff.mp parsed
      rw [shape] at member
      rcases List.mem_cons.mp member with rfl | later
      · exact .inr (.inr rfl)
      · exact (Text.parseUnsigned_chars unsigned c later).imp_right .inl
  · obtain ⟨m, unsigned, _⟩ := Option.map_eq_some_iff.mp parsed
    exact (Text.parseUnsigned_chars unsigned c member).imp_right .inl

theorem parseU64_chars {text : String} {n : UInt64} (parsed : parseU64 text = some n) :
    ∀ c ∈ text.toList, c.isDigit = true ∨ c = '+' ∨ c = '-' := by
  obtain ⟨m, unsigned, _⟩ := Option.map_eq_some_iff.mp parsed
  intro c member
  exact (Text.parseUnsigned_chars unsigned c member).imp_right .inl

theorem parseU64_toString {n : Int64} (sign : 0 ≤ n.toInt) :
    parseU64 (toString n) = some (.ofNat n.toInt.toNat) := by
  have high := n.toInt_lt
  rw [parseU64, Text.toString_toList, if_pos sign, Text.parseUnsigned_toDigits (by omega)]
  rfl

theorem parseU64_negative {n : Int64} (sign : ¬0 ≤ n.toInt) : parseU64 (toString n) = none := by
  cases parsed : parseU64 (toString n) with
  | none => rfl
  | some value =>
    obtain ⟨m, unsigned, _⟩ := Option.map_eq_some_iff.mp parsed
    have minus : '-' ∈ (toString n).toList := by simp [Text.toString_toList, if_neg sign]
    rcases Text.parseUnsigned_chars unsigned '-' minus with digit | plus
    · exact absurd digit (by decide)
    · exact absurd plus (by decide)

theorem toNat_toInt {n : Int64} (sign : 0 ≤ n.toInt) :
    ((UInt64.ofNat n.toInt.toNat).toNat : Int) = n.toInt := by
  have high := n.toInt_lt
  have fits : n.toInt.toNat < UInt64.size := by
    change n.toInt.toNat < 2 ^ 64
    omega
  rw [UInt64.toNat_ofNat_of_lt' fits, Int.toNat_of_nonneg sign]

theorem toInt_toNat {n : UInt64} (fits : n.toNat < 2 ^ 63) :
    (Int64.ofNat n.toNat).toInt = n.toNat := by
  rw [← Int64.ofInt_eq_ofNat, Int64.toInt_ofInt_of_le (by omega) (by omega)]

end Numbers

section Fields

variable {std : Std F} {field : AxFieldPlan F}

/-- The compiler takes the fallback of the field. -/
def AxFieldPlan.Typed (field : AxFieldPlan F) : Prop :=
  ∀ literal, field.default = some literal → (literal.typed field.rustTy).isSome

/-- On a text, every emitted expression reads it at the type of the field. -/
theorem run_text (std : Std F) (field : AxFieldPlan F) (text : String) :
    (renderInputField field).run std field (some text) = parsed std field text := by
  obtain ⟨name, ty, optional, default⟩ := field
  cases ty <;> cases optional <;> cases default <;> rfl

theorem run_missing (std : Std F) (field : AxFieldPlan F) :
    (renderInputField field).run std field none =
      match field.default with
      | some literal => fallback field (.literal literal)
      | none =>
        if field.optional then .ok (defaultValueForRustType field.rustTy)
        else if field.rustTy = .bool then .ok (.bool false)
        else .error (.invalidInput field.name) := by
  obtain ⟨name, ty, optional, default⟩ := field
  cases ty <;> cases optional <;> cases default <;> rfl

theorem typed_iff : field.Typed ↔ ((renderInputField field).missing.all fun missing =>
    (missing.typed field.rustTy).isSome) = true := by
  obtain ⟨name, ty, optional, default⟩ := field
  cases ty <;> cases optional <;> cases default <;>
    simp [AxFieldPlan.Typed, renderInputField, Emitted.missing, Missing.typed]

theorem parsed_toOption (text : String) :
    (parsed std field text).toOption = readText std field.rustTy text := by
  rw [parsed]
  cases readText std field.rustTy text <;> rfl

theorem generated_refuses_iff (typed : field.Typed) (raw : Option String) :
    ((renderInputField field).run std field raw).toOption = none ↔ GeneratedRefuses std field raw := by
  cases raw with
  | some text => rw [run_text, parsed_toOption, GeneratedRefuses]
  | none =>
    rw [run_missing, GeneratedRefuses]
    cases default : field.default with
    | some literal =>
      obtain ⟨value, known⟩ := Option.isSome_iff_exists.mp (typed literal default)
      simp [fallback, Missing.typed, known, Except.toOption]
    | none =>
      cases optional : field.optional with
      | true => simp [Except.toOption]
      | false =>
        by_cases flag : field.rustTy = .bool
        · simp [flag, Except.toOption]
        · simp [flag, Except.toOption]

/-- A literal that the compiler takes is one that the preview takes. -/
theorem coerce_default (default : Literal F) (typed : (default.typed field.rustTy).isSome) :
    coercePreviewDefaultInputValue field default = .ok (default.input field.rustTy) := by
  obtain ⟨name, ty, optional, other⟩ := field
  cases ty <;> cases default <;> first | rfl | cases typed

theorem coerce_default_fails (lawful : std.Lawful) (default : Literal F) :
    (coercePreviewDefaultInputValue field default).toOption = none ↔ ¬default.Fits field.rustTy := by
  have finite (n : Int64) := lawful.finite_ofInt n
  obtain ⟨name, ty, optional, other⟩ := field
  cases ty <;> cases default <;>
    simp [coercePreviewDefaultInputValue, Literal.value, Literal.Fits, Except.toOption, floatOfNumber,
      AxFloat.new, finite]

/-- The struct's value of a default against the record's. -/
theorem typed_same (default : Literal F) {value : RustValue F}
    (typed : default.typed field.rustTy = some value) :
    value.Same (default.input field.rustTy) ↔ ¬(field.rustTy = .string ∧ default = .null) := by
  obtain ⟨name, ty, optional, other⟩ := field
  cases ty <;> cases default <;>
    simp only [Literal.typed, Option.some.injEq, reduceCtorEq, Option.ite_none_right_eq_some] at typed
  case string.number number => simp [← typed.2, RustValue.Same, Literal.input, asString, Literal.value]
  case u64.number number =>
    rw [← typed.2]
    exact iff_of_true (toNat_toInt typed.1) (by rintro ⟨same, _⟩; cases same)
  case f64.float float => simp [← typed, RustValue.Same, Literal.input, Literal.value, float.canonical]
  all_goals simp [← typed, RustValue.Same, Literal.input, asString, Literal.value]

theorem missing_agrees (typed : field.Typed) (required : PreviewError) :
    Option.Rel RustValue.Same ((renderInputField field).run std field none).toOption
      (previewMissingInput field required).toOption ↔ RequestAgrees std field none := by
  rw [run_missing, previewMissingInput, RequestAgrees]
  cases default : field.default with
  | some literal =>
    have fits := typed literal default
    obtain ⟨value, known⟩ := Option.isSome_iff_exists.mp fits
    simp only [fallback, Missing.typed, known, coerce_default literal fits, Except.toOption]
    rw [← typed_same literal known]
    simp
  | none =>
    cases optional : field.optional with
    | true =>
      cases ty : field.rustTy <;> simp [Except.toOption, defaultValueForRustType, RustValue.Same]
    | false =>
      by_cases flag : field.rustTy = .bool
      · simp [flag, Except.toOption, RustValue.Same]
      · simp [flag, Except.toOption]

theorem missing_refuses_iff (lawful : std.Lawful) (required : PreviewError) :
    (previewMissingInput field required).toOption = none ↔ PreviewRefuses std field none := by
  rw [previewMissingInput, PreviewRefuses]
  cases default : field.default with
  | some literal => exact coerce_default_fails lawful literal
  | none =>
    cases optional : field.optional with
    | true => simp [Except.toOption]
    | false =>
      by_cases flag : field.rustTy = .bool
      · simp [flag, Except.toOption]
      · simp [flag, Except.toOption]

theorem text_agrees (text : String) :
    Option.Rel RustValue.Same ((renderInputField field).run std field (some text)).toOption
      (coercePreviewInputValue std field text).toOption ↔ RequestAgrees std field (some text) := by
  rw [run_text, parsed_toOption, coercePreviewInputValue, RequestAgrees]
  cases ty : field.rustTy with
  | string => simp [readText, Except.toOption, RustValue.Same]
  | bool => simp [readText, Except.toOption, RustValue.Same]
  | i64 => cases parsed : parseI64 (Text.trim text) <;> simp [readText, parsed, Except.toOption, RustValue.Same]
  | u64 =>
    cases parsed : parseU64 (Text.trim text) with
    | none => simp [readText, parsed, Except.toOption]
    | some value =>
      by_cases fits : value.toNat < 2 ^ 63
      · have same := toInt_toNat fits
        simp only [fits, if_true]
        simpa [readText, parsed, Except.toOption, RustValue.Same, same] using fits
      · simp only [fits, if_false]
        simpa [readText, parsed, Except.toOption] using not_lt.mp fits
  | f64 =>
    cases parsed : std.parseF64 (Text.trim text) with
    | none => simp [readText, parsed, Except.toOption]
    | some value =>
      by_cases finite : Binary64.isFinite value = true
      · simp [readText, parsed, AxFloat.new, finite, Except.toOption, RustValue.Same]
      · simp [readText, parsed, AxFloat.new, finite, Except.toOption]

theorem text_refuses_iff (text : String) :
    (coercePreviewInputValue std field text).toOption = none ↔
      PreviewRefuses std field (some text) := by
  rw [coercePreviewInputValue, PreviewRefuses]
  cases ty : field.rustTy with
  | string => simp [Except.toOption]
  | bool => simp [Except.toOption]
  | i64 => cases parseI64 (Text.trim text) <;> simp [Except.toOption]
  | u64 =>
    cases parsed : parseU64 (Text.trim text) with
    | none => simp [Except.toOption]
    | some value =>
      by_cases fits : value.toNat < 2 ^ 63
      · have below : ¬2 ^ 63 ≤ value.toNat := not_le.mpr fits
        simp only [fits, if_true, Option.some.injEq, forall_eq', below]
        simp [Except.toOption]
      · have above : 2 ^ 63 ≤ value.toNat := not_lt.mp fits
        simp only [fits, if_false, Option.some.injEq, forall_eq', above]
        simp [Except.toOption]
  | f64 =>
    cases parsed : std.parseF64 (Text.trim text) with
    | none => simp [Except.toOption]
    | some value =>
      by_cases finite : Binary64.isFinite value = true
      · simp [AxFloat.new, finite, Except.toOption]
      · simp [AxFloat.new, finite, Except.toOption]

section Requests

theorem preview_request (std : Std F) (field : AxFieldPlan F) (request : AxHttpRequest) :
    (previewInputField std [] (some request) field).toOption =
      match requestInputField std request field.name with
      | none => (previewMissingInput field (.invalidInput field.name)).toOption
      | some text => (coercePreviewInputValue std field text).toOption := by
  have same : ((lookup ([] : List (String × String)) field.name).or
      ((some request).bind (·.formValue field.name))).or
      ((some request).bind (jsonFieldString std · field.name)) =
        requestInputField std request field.name := rfl
  rw [previewInputField, same]
  cases requestInputField std request field.name with
  | none => rfl
  | some text => cases read : coercePreviewInputValue std field text <;> simp [read, Except.toOption]

theorem route_field_agrees (typed : field.Typed) (request : AxHttpRequest) :
    Option.Rel RustValue.Same
      ((renderInputField field).run std field (requestInputField std request field.name)).toOption
      (previewInputField std [] (some request) field).toOption ↔
        RequestAgrees std field (requestInputField std request field.name) := by
  rw [preview_request]
  cases requestInputField std request field.name with
  | none => exact missing_agrees typed _
  | some text => exact text_agrees text

theorem route_refuses_iff (lawful : std.Lawful) (request : AxHttpRequest) :
    (previewInputField std [] (some request) field).toOption = none ↔
      PreviewRefuses std field (requestInputField std request field.name) := by
  rw [preview_request]
  cases requestInputField std request field.name with
  | none => exact missing_refuses_iff lawful _
  | some text => exact text_refuses_iff text

end Requests

section Arguments

theorem loader_refuses_iff (lawful : std.Lawful) (args : List (AxValue F)) (index : Nat) :
    (previewLoaderInputField args index field).toOption = none ↔
      PreviewLoaderRefuses std field args[index]? := by
  have finite (n : Int64) := lawful.finite_ofInt n
  rw [previewLoaderInputField]
  cases args[index]? with
  | none => exact missing_refuses_iff lawful _
  | some argument =>
    obtain ⟨name, ty, optional, other⟩ := field
    cases ty <;> cases argument <;>
      simp [PreviewLoaderRefuses, coercePreviewLoaderInputValue, Except.toOption, floatOfNumber,
        AxFloat.new, finite]

/-- A text that starts like no number reads as no number. -/
theorem readText_foreign (lawful : std.Lawful) {ty : RustTy} {text : String} {c : Char}
    (numeric : ty = .i64 ∨ ty = .u64 ∨ ty = .f64) (head : (Text.trim text).toList.head? = some c)
    (foreign : ¬(c.isDigit = true ∨ c ∈ ['+', '-', '.', 'i', 'I', 'n', 'N'])) :
    readText std ty text = none := by
  have member : c ∈ (Text.trim text).toList := List.mem_of_mem_head? head
  have sign : ¬(c.isDigit = true ∨ c = '+' ∨ c = '-') := by
    rintro (digit | rfl | rfl)
    · exact foreign (.inl digit)
    · exact foreign (by simp)
    · exact foreign (by simp)
  rcases numeric with rfl | rfl | rfl
  · cases parsed : parseI64 (Text.trim text) with
    | none => simp [readText, parsed]
    | some value => exact absurd (parseI64_chars parsed c member) sign
  · cases parsed : parseU64 (Text.trim text) with
    | none => simp [readText, parsed]
    | some value => exact absurd (parseU64_chars parsed c member) sign
  · cases parsed : std.parseF64 (Text.trim text) with
    | none => simp [readText, parsed]
    | some value =>
      obtain ⟨start, first, known⟩ := lawful.parse_start _ _ parsed
      rw [head] at first
      obtain rfl := Option.some.inj first
      exact absurd known foreign

/-- A JSON array or object reads as no number. -/
theorem readText_bracket (lawful : std.Lawful) {ty : RustTy} {text : String} {first last : Char}
    {middle : List Char} (numeric : ty = .i64 ∨ ty = .u64 ∨ ty = .f64)
    (shape : text.toList = first :: (middle ++ [last]))
    (bracket : first = '[' ∧ last = ']' ∨ first = '{' ∧ last = '}') :
    readText std ty text = none := by
  have head : (Text.trim text).toList.head? = some first := by
    rcases bracket with ⟨rfl, rfl⟩ | ⟨rfl, rfl⟩
    · rw [Text.trim_ends shape rfl rfl, shape]
      rfl
    · rw [Text.trim_ends shape rfl rfl, shape]
      rfl
  apply readText_foreign lawful numeric head
  rcases bracket with ⟨rfl, rfl⟩ | ⟨rfl, rfl⟩ <;> decide

theorem readText_bool (lawful : std.Lawful) {ty : RustTy}
    (numeric : ty = .i64 ∨ ty = .u64 ∨ ty = .f64) (value : Bool) :
    readText std ty (toString value) = none := by
  cases value with
  | true => exact readText_foreign lawful (c := 't') numeric (by decide) (by decide)
  | false => exact readText_foreign lawful (c := 'f') numeric (by decide) (by decide)

/-- The text of a float has a point or an exponent, so it reads as no integer. -/
theorem readText_float (lawful : std.Lawful) {ty : RustTy} (integer : ty = .i64 ∨ ty = .u64)
    (value : AxFloat F) : readText std ty (std.jsonFloat value.get) = none := by
  obtain ⟨c, member, point⟩ := lawful.jsonFloat_point value.get value.finite
  have foreign : ¬(c.isDigit = true ∨ c = '+' ∨ c = '-') := by
    rcases point with rfl | rfl <;> decide
  have solid := Text.trim_solid (lawful.jsonFloat_solid value.get)
  rcases integer with rfl | rfl
  · cases parsed : parseI64 (std.jsonFloat value.get) with
    | none => simp [readText, solid, parsed]
    | some other => exact absurd (parseI64_chars parsed c member) foreign
  · cases parsed : parseU64 (std.jsonFloat value.get) with
    | none => simp [readText, solid, parsed]
    | some other => exact absurd (parseU64_chars parsed c member) foreign

/-- No argument, and a text of the request in its place: the preview does not look at it. -/
theorem fallback_agrees (typed : field.Typed) (text : String) (required : PreviewError) :
    Option.Rel RustValue.Same ((renderInputField field).run std field (some text)).toOption
      (previewMissingInput field required).toOption ↔ LoaderAgrees std field (some text) none := by
  rw [run_text, parsed_toOption, previewMissingInput, LoaderAgrees]
  cases default : field.default with
  | some literal =>
    simp only [coerce_default literal (typed literal default), Except.toOption]
    cases readText std field.rustTy text <;> simp
  | none =>
    cases optional : field.optional with
    | true => cases readText std field.rustTy text <;> simp [Except.toOption, RustValue.Same]
    | false =>
      by_cases flag : field.rustTy = .bool
      · simp [flag, readText, Except.toOption, RustValue.Same]
      · cases readText std field.rustTy text <;> simp [flag, Except.toOption]

theorem rel_failed {α β : Type} {related : α → β → Prop} {first : Option α} :
    Option.Rel related first none ↔ first = none := by
  cases first <;> simp

theorem both_fail {α β : Type} {related : α → β → Prop} {first : Option α} {second : Option β}
    (unread : first = none) (refused : second = none) : Option.Rel related first second := by
  rw [unread, refused]
  exact .none

theorem null_differs {first : Option (RustValue F)} :
    ¬Option.Rel RustValue.Same first (some .null) := by
  intro same
  cases same with
  | some related => simp [RustValue.Same] at related

section Kinds

variable {name : String} {ty : RustTy} {optional : Bool} {default : Option (Literal F)}

theorem string_agrees (value : String) (requested : Option String) :
    Option.Rel RustValue.Same (readText std ty value)
      (coercePreviewLoaderInputValue ⟨name, ty, optional, default⟩ (.string value)).toOption ↔
        LoaderAgrees std ⟨name, ty, optional, default⟩ requested (some (.string value)) := by
  cases ty with
  | string => simp [LoaderAgrees, coercePreviewLoaderInputValue, Except.toOption, readText, RustValue.Same]
  | bool => simp [LoaderAgrees, coercePreviewLoaderInputValue, Except.toOption, readText]
  | i64 => exact rel_failed
  | u64 => exact rel_failed
  | f64 => exact rel_failed

theorem number_agrees (lawful : std.Lawful) (value : Int64) (requested : Option String) :
    Option.Rel RustValue.Same (readText std ty (toString value))
      (coercePreviewLoaderInputValue ⟨name, ty, optional, default⟩ (.number value)).toOption ↔
        LoaderAgrees std ⟨name, ty, optional, default⟩ requested (some (.number value)) := by
  cases ty with
  | string =>
    simp [LoaderAgrees, coercePreviewLoaderInputValue, Except.toOption, readText, RustValue.Same, asString]
  | bool => simp [LoaderAgrees, coercePreviewLoaderInputValue, Except.toOption, readText]
  | i64 =>
    have read : readText std .i64 (toString value) = some (.i64 value) := by
      simp only [readText, trim_toString, parseI64_toString, Option.map_some]
    simp [LoaderAgrees, coercePreviewLoaderInputValue, Except.toOption, read, RustValue.Same]
  | u64 =>
    by_cases sign : 0 ≤ value.toInt
    · have read : readText std .u64 (toString value) = some (.u64 (.ofNat value.toInt.toNat)) := by
        simp only [readText, trim_toString, parseU64_toString sign, Option.map_some]
      have same := toNat_toInt sign
      simpa [LoaderAgrees, coercePreviewLoaderInputValue, Except.toOption, read, RustValue.Same, sign] using same
    · have read : readText std .u64 (toString value) = none := by
        simp only [readText, trim_toString, parseU64_negative sign, Option.map_none]
      simp [LoaderAgrees, coercePreviewLoaderInputValue, Except.toOption, read, sign]
  | f64 =>
    have read : readText std .f64 (toString value) = some (.f64 (FloatOps.ofInt value)) := by
      simp only [readText, trim_toString, lawful.parse_ofInt, Option.map_some]
    simp [LoaderAgrees, coercePreviewLoaderInputValue, floatOfNumber, AxFloat.new,
      lawful.finite_ofInt, Except.toOption, read, RustValue.Same]

theorem float_agrees (lawful : std.Lawful) (value : AxFloat F) (requested : Option String) :
    Option.Rel RustValue.Same (readText std ty (std.jsonFloat value.get))
      (coercePreviewLoaderInputValue ⟨name, ty, optional, default⟩ (.float value)).toOption ↔
        LoaderAgrees std ⟨name, ty, optional, default⟩ requested (some (.float value)) := by
  cases ty with
  | string =>
    simp [LoaderAgrees, coercePreviewLoaderInputValue, Except.toOption, readText, RustValue.Same, asString]
  | bool => simp [LoaderAgrees, coercePreviewLoaderInputValue, Except.toOption, readText]
  | i64 => exact iff_of_true (both_fail (readText_float lawful (.inl rfl) value) rfl) trivial
  | u64 => exact iff_of_true (both_fail (readText_float lawful (.inr rfl) value) rfl) trivial
  | f64 =>
    have solid := Text.trim_solid (lawful.jsonFloat_solid value.get)
    have read : readText std .f64 (std.jsonFloat value.get) = some (.f64 value.get) := by
      simp only [readText, solid, lawful.parse_jsonFloat value.get value.finite, Option.map_some]
    simp [LoaderAgrees, coercePreviewLoaderInputValue, Except.toOption, read, RustValue.Same, value.canonical]

theorem bool_agrees (lawful : std.Lawful) (value : Bool) (requested : Option String) :
    Option.Rel RustValue.Same (readText std ty (toString value))
      (coercePreviewLoaderInputValue ⟨name, ty, optional, default⟩ (.bool value)).toOption ↔
        LoaderAgrees std ⟨name, ty, optional, default⟩ requested (some (.bool value)) := by
  cases ty with
  | string =>
    simp [LoaderAgrees, coercePreviewLoaderInputValue, Except.toOption, readText, RustValue.Same, asString]
  | bool =>
    have read : truthy (toString value) = value := by cases value <;> decide
    simp only [LoaderAgrees, coercePreviewLoaderInputValue, Except.toOption, readText, read]
    simp [RustValue.Same]
  | i64 => exact iff_of_true (both_fail (readText_bool lawful (.inl rfl) value) rfl) trivial
  | u64 => exact iff_of_true (both_fail (readText_bool lawful (.inr (.inl rfl)) value) rfl) trivial
  | f64 => exact iff_of_true (both_fail (readText_bool lawful (.inr (.inr rfl)) value) rfl) trivial

/-- An array or an object: text for a `String`, false for a `bool`, no number. -/
theorem bracket_agrees (lawful : std.Lawful) {value : AxValue F} {text : String}
    {first last : Char} {middle : List Char} (shape : text.toList = first :: (middle ++ [last]))
    (bracket : first = '[' ∧ last = ']' ∨ first = '{' ∧ last = '}')
    (kind : (∃ items, value = .list items) ∨ ∃ fields, value = .record fields)
    (requested : Option String) :
    Option.Rel RustValue.Same (readText std ty text)
      (coercePreviewLoaderInputValue ⟨name, ty, optional, default⟩ value).toOption ↔
        LoaderAgrees std ⟨name, ty, optional, default⟩ requested (some value) := by
  have unread {ty : RustTy} (numeric : ty = .i64 ∨ ty = .u64 ∨ ty = .f64) :
      readText std ty text = none := readText_bracket lawful numeric shape bracket
  rcases kind with ⟨items, rfl⟩ | ⟨fields, rfl⟩ <;> cases ty
  case inl.string | inr.string =>
    simp [LoaderAgrees, coercePreviewLoaderInputValue, Except.toOption, readText]
  case inl.bool | inr.bool =>
    simp [LoaderAgrees, coercePreviewLoaderInputValue, Except.toOption, readText]
  case inl.i64 | inr.i64 => exact iff_of_true (both_fail (unread (.inl rfl)) rfl) trivial
  case inl.u64 | inr.u64 => exact iff_of_true (both_fail (unread (.inr (.inl rfl))) rfl) trivial
  case inl.f64 | inr.f64 => exact iff_of_true (both_fail (unread (.inr (.inr rfl))) rfl) trivial

end Kinds

theorem argument_agrees (lawful : std.Lawful) {argument : AxValue F} {text : String}
    (present : argumentText std (previewValueToJson argument) = some text)
    (requested : Option String) :
    Option.Rel RustValue.Same ((renderInputField field).run std field (some text)).toOption
      (coercePreviewLoaderInputValue field argument).toOption ↔
        LoaderAgrees std field requested (some argument) := by
  rw [run_text, parsed_toOption]
  obtain ⟨name, ty, optional, default⟩ := field
  cases argument with
  | null => cases present
  | string value =>
    obtain rfl := Option.some.inj present
    exact string_agrees value requested
  | number value =>
    obtain rfl : toString value = text := by
      rw [← Option.some.inj present, previewValueToJson, JsonValue.text, JsonValue.chars, String.ofList_toList]
      rfl
    exact number_agrees lawful value requested
  | float value =>
    obtain rfl : std.jsonFloat value.get = text := by
      rw [← Option.some.inj present, previewValueToJson, JsonValue.text, JsonValue.chars, String.ofList_toList]
    exact float_agrees lawful value requested
  | bool value =>
    obtain rfl : toString value = text := by
      rw [← Option.some.inj present, previewValueToJson, JsonValue.text, JsonValue.chars, String.ofList_toList]
    exact bool_agrees lawful value requested
  | record fields =>
    have shape : text.toList = '{' :: (fieldChars std (previewFieldsToJson fields) ++ ['}']) := by
      rw [← Option.some.inj present, previewValueToJson, JsonValue.text, JsonValue.chars, String.toList_ofList]
      rfl
    exact bracket_agrees lawful shape (.inr ⟨rfl, rfl⟩) (.inr ⟨fields, rfl⟩) requested
  | list items =>
    have shape : text.toList = '[' :: (itemChars std (previewItemsToJson items) ++ [']']) := by
      rw [← Option.some.inj present, previewValueToJson, JsonValue.text, JsonValue.chars, String.toList_ofList]
      rfl
    exact bracket_agrees lawful shape (.inl ⟨rfl, rfl⟩) (.inl ⟨items, rfl⟩) requested

/-- The raw text that the emitted code has for a field of a loader. -/
theorem loaderInputField_eq (std : Std F) (request : AxHttpRequest) (args : List (AxValue F))
    (index : Nat) (name : String) :
    loaderInputField std request (args.map previewValueToJson) index name =
      (args[index]?.bind fun value => argumentText std (previewValueToJson value)).or
        (requestInputField std request name) := by
  rw [loaderInputField, List.getElem?_map, Option.bind_map]
  rfl

theorem loader_field_agrees (lawful : std.Lawful) (typed : field.Typed) (args : List (AxValue F))
    (index : Nat) (requested : Option String) :
    Option.Rel RustValue.Same ((renderInputField field).run std field
        ((args[index]?.bind fun value => argumentText std (previewValueToJson value)).or requested)).toOption
      (previewLoaderInputField args index field).toOption ↔
        LoaderAgrees std field requested args[index]? := by
  rw [previewLoaderInputField]
  cases args[index]? with
  | none =>
    cases requested with
    | none => exact missing_agrees typed _
    | some text => exact fallback_agrees typed text _
  | some argument =>
    cases present : argumentText std (previewValueToJson argument) with
    | some text =>
      simp only [Option.bind_some, present, Option.some_or]
      exact argument_agrees lawful present requested
    | none =>
      -- Only a null has no text; the preview keeps it, whatever the type of the field.
      obtain rfl : argument = .null := by cases argument <;> first | rfl | cases present
      simp only [coercePreviewLoaderInputValue_null]
      exact iff_of_false null_differs (loaderAgrees_null std field requested)

end Arguments

end Fields

section Lists

/-- Both decoders fail, or both succeed and every field has the same value. -/
inductive SameInput : Except InputError (List (String × RustValue F)) →
    Except PreviewError (AxValue F) → Prop where
  | refused (first : InputError) (second : PreviewError) : SameInput (.error first) (.error second)
  | decoded {input : List (String × RustValue F)} {fields : List (String × AxValue F)}
      (same : ∀ name value, (name, value) ∈ input →
        ∃ other, lookup fields name = some other ∧ value.Same other) :
      SameInput (.ok input) (.ok (.record fields))

theorem sameInput_ok {input : List (String × RustValue F)} {fields : List (String × AxValue F)} :
    SameInput (.ok input) (.ok (.record fields)) ↔ ∀ name value, (name, value) ∈ input →
      ∃ other, lookup fields name = some other ∧ value.Same other := by
  constructor
  · intro both
    cases both with
    | decoded same => exact same
  · exact .decoded

/-- Pairs under the names of the list, related name by name. -/
theorem forall₂_iff_named {α β : Type} {related : α → β → Prop} {first : List (String × α)}
    {second : List (String × β)} (names : first.map (·.1) = second.map (·.1))
    (distinct : (second.map (·.1)).Nodup) :
    List.Forall₂ (fun a b => a.1 = b.1 ∧ related a.2 b.2) first second ↔
      ∀ name value, (name, value) ∈ first → ∃ other, (name, other) ∈ second ∧ related value other := by
  induction first generalizing second with
  | nil =>
    obtain rfl : second = [] := List.map_eq_nil_iff.mp names.symm
    simp
  | cons head rest ih =>
    cases second with
    | nil => cases names
    | cons other others =>
      rw [List.map_cons, List.map_cons, List.cons.injEq] at names
      rw [List.map_cons, List.nodup_cons] at distinct
      rw [List.forall₂_cons, ih names.2 distinct.2]
      constructor
      · rintro ⟨⟨same, here⟩, later⟩ name value member
        rcases List.mem_cons.mp member with rfl | deeper
        · obtain rfl : name = other.1 := same
          exact ⟨other.2, List.mem_cons_self, here⟩
        · obtain ⟨found, inside, related⟩ := later name value deeper
          exact ⟨found, List.mem_cons_of_mem _ inside, related⟩
      · intro every
        refine ⟨⟨names.1, ?_⟩, ?_⟩
        · obtain ⟨found, inside, related⟩ := every head.1 head.2 List.mem_cons_self
          rcases List.mem_cons.mp inside with rfl | deeper
          · exact related
          · have repeated := List.mem_map_of_mem (f := (·.1)) deeper
            rw [names.1] at repeated
            exact absurd repeated distinct.1
        · intro name value member
          obtain ⟨found, inside, related⟩ := every name value (List.mem_cons_of_mem _ member)
          rcases List.mem_cons.mp inside with rfl | deeper
          · have repeated := List.mem_map_of_mem (f := (·.1)) member
            rw [names.2] at repeated
            exact absurd repeated distinct.1
          · exact ⟨found, deeper, related⟩

theorem mapM_names {ι ε α : Type} {step : ι → Except ε α} {name : ι → String} {items : List ι}
    {values : List (String × α)}
    (done : (items.mapM fun item => (step item).map fun value => (name item, value)) = .ok values) :
    values.map (·.1) = items.map name := by
  induction items generalizing values with
  | nil =>
    cases done
    rfl
  | cons item rest ih =>
    rw [List.mapM_cons] at done
    obtain ⟨first, here, later⟩ := Outcome.bind_ok.mp done
    obtain ⟨others, tail, same⟩ := Outcome.bind_ok.mp later
    cases same
    rw [List.map_cons, List.map_cons, ih tail]
    cases known : step item with
    | error error =>
      rw [known] at here
      cases here
    | ok value =>
      rw [known] at here
      cases here
      rfl

variable {ι : Type} {generated : ι → Except InputError (RustValue F)}
  {preview : ι → Except PreviewError (AxValue F)} {name : ι → String} {items : List ι}

/-- The struct and the record of a list of fields, by what happens at each of them. -/
theorem sameInput_iff (distinct : (items.map name).Nodup) :
    SameInput (items.mapM fun item => (generated item).map fun value => (name item, value))
      (do
        let record ← items.foldlM (fun record item => do
          let value ← preview item
          return insertField record (name item) value) []
        return .record record) ↔
      (∀ item ∈ items, Option.Rel RustValue.Same (generated item).toOption (preview item).toOption) ∨
        (∃ item ∈ items, (generated item).toOption = none) ∧
          ∃ item ∈ items, (preview item).toOption = none := by
  have pairs {ε α : Type} (step : ι → Except ε α) (item : ι) :
      ((step item).map fun value => (name item, value)).toOption =
        (step item).toOption.map fun value => (name item, value) := Outcome.toOption_map _ _
  have each := Outcome.rel_mapM_iff (r := fun a b => a.1 = b.1 ∧ RustValue.Same a.2 b.2)
    (f := fun item => (generated item).map fun value => (name item, value))
    (g := fun item => (preview item).map fun value => (name item, value)) (l := items)
  simp only [pairs, Option.map_eq_none_iff] at each
  have fieldwise (item : ι) : Option.Rel (fun a b : String × _ => a.1 = b.1 ∧ RustValue.Same a.2 b.2)
      ((generated item).toOption.map fun value => (name item, value))
      ((preview item).toOption.map fun value => (name item, value)) ↔
        Option.Rel RustValue.Same (generated item).toOption (preview item).toOption := by
    cases (generated item).toOption <;> cases (preview item).toOption <;> simp
  simp only [fieldwise] at each
  rw [← each, foldlM_insertField]
  cases first : items.mapM fun item => (generated item).map fun value => (name item, value) with
  | error error =>
    cases items.mapM fun item => (preview item).map fun value => (name item, value) with
    | error other => exact iff_of_true (.refused _ _) .none
    | ok values => exact iff_of_false (fun same => nomatch same) (fun same => nomatch same)
  | ok input =>
    cases second : items.mapM fun item => (preview item).map fun value => (name item, value) with
    | error error => exact iff_of_false (fun same => nomatch same) (fun same => nomatch same)
    | ok values =>
      have names := mapM_names second
      rw [← names] at distinct
      have same : input.map (·.1) = values.map (·.1) := by rw [mapM_names first, names]
      simp only [Except.toOption, Option.rel_some_some, forall₂_iff_named same distinct]
      refine sameInput_ok.trans ?_
      refine forall₃_congr fun key value member => exists_congr fun other => and_congr_left fun _ => ?_
      constructor
      · intro found
        have present := List.mem_map_of_mem (f := (·.1)) member
        rw [same] at present
        obtain ⟨⟨_, kept⟩, inside, rfl⟩ := List.mem_map.mp present
        rw [lookup_foldl_insertField values [] distinct inside] at found
        rwa [← Option.some.inj found]
      · exact fun inside => lookup_foldl_insertField values [] distinct inside

end Lists

section Agreement

variable {std : Std F} {isFieldName : String → Bool} {fields : List (AxFieldPlan F)}
  {raw : Nat → String → Option String} {preview : AxFieldPlan F × Nat → Except PreviewError (AxValue F)}
  {agrees generated refused : AxFieldPlan F → Nat → Prop}

theorem accepted_typed (taken : accepted isFieldName fields = true) :
    (fields.map (·.name)).Nodup ∧ ∀ field ∈ fields, field.Typed := by
  simp only [accepted, Bool.and_eq_true, decide_eq_true_eq, List.all_eq_true] at taken
  exact ⟨taken.1.2, fun field member => typed_iff.mpr (taken.2 field member)⟩

/-- The record of the preview fails if one of its fields does. -/
theorem record_fails_iff {ι : Type} {step : ι → Except PreviewError (AxValue F)} {name : ι → String}
    {items : List ι} :
    SameInput (.error .rejected) (do
        let record ← items.foldlM (fun record item => do
          let value ← step item
          return insertField record (name item) value) []
        return .record record) ↔ ∃ item ∈ items, (step item).toOption = none := by
  have fails := Outcome.mapM_fails_iff (l := items)
    (f := fun item => (step item).map fun value => (name item, value))
  simp only [Outcome.toOption_map, Option.map_eq_none_iff] at fails
  rw [← fails, foldlM_insertField]
  cases items.mapM fun item => (step item).map fun value => (name item, value) with
  | error error => exact iff_of_true (.refused _ _) rfl
  | ok values => exact iff_of_false (fun same => nomatch same) (fun none => nomatch none)

/-- The decoders of a list of fields, from what is known of each field. -/
theorem fields_agree_iff
    (each : ∀ field : AxFieldPlan F, field.Typed → ∀ index, Option.Rel RustValue.Same
      ((renderInputField field).run std field (raw index field.name)).toOption
        (preview (field, index)).toOption ↔ agrees field index)
    (first : ∀ field : AxFieldPlan F, field.Typed → ∀ index,
      ((renderInputField field).run std field (raw index field.name)).toOption = none ↔
        generated field index)
    (second : ∀ (field : AxFieldPlan F) index,
      (preview (field, index)).toOption = none ↔ refused field index) :
    SameInput (generatedInput isFieldName std fields raw)
      (do
        let record ← fields.zipIdx.foldlM (fun record item => do
          let value ← preview item
          return insertField record item.1.name value) []
        return .record record) ↔
      FieldsAgree (accepted isFieldName fields) fields.zipIdx agrees generated refused := by
  rw [FieldsAgree, generatedInput]
  by_cases taken : accepted isFieldName fields = true
  · obtain ⟨distinct, typed⟩ := accepted_typed taken
    have named : fields.zipIdx.map (fun item => item.1.name) = fields.map (·.name) := by
      rw [← List.zipIdx_map_fst 0 fields, List.map_map, List.zipIdx_map_fst]
      rfl
    have known (item : AxFieldPlan F × Nat) (member : item ∈ fields.zipIdx) : item.1.Typed :=
      typed item.1 (List.fst_mem_of_mem_zipIdx member)
    rw [if_pos taken, if_pos taken]
    have split := @sameInput_iff F _ (AxFieldPlan F × Nat)
      (fun item => (renderInputField item.1).run std item.1 (raw item.2 item.1.name)) preview
      (fun item => item.1.name) fields.zipIdx (by rwa [named])
    refine split.trans ?_
    refine or_congr ?_ (and_congr ?_ ?_)
    · exact forall₂_congr fun item member => each item.1 (known item member) item.2
    · exact exists_congr fun item => and_congr_right fun member => first item.1 (known item member) item.2
    · exact exists_congr fun item => and_congr_right fun _ => second item.1 item.2
  · rw [if_neg taken, if_neg taken, record_fails_iff]
    exact exists_congr fun item => and_congr_right fun _ => second item.1 item.2

/-- The code that is emitted for a route, an action or a loader and the preview decode the same
input exactly if they agree at every field, or if each of them refuses the input. -/
theorem input_decoding_agrees_iff (isFieldName : String → Bool) (lawful : std.Lawful)
    (fields : List (AxFieldPlan F)) (request : AxHttpRequest) (args : List (AxValue F)) :
    (SameInput (generatedRouteInput isFieldName std fields request)
        (buildPreviewInputRecord std fields [] (some request)) ↔
      FieldsAgree (accepted isFieldName fields) fields.zipIdx
        (fun field _ => RequestAgrees std field (requestInputField std request field.name))
        (fun field _ => GeneratedRefuses std field (requestInputField std request field.name))
        (fun field _ => PreviewRefuses std field (requestInputField std request field.name))) ∧
    (SameInput (generatedLoaderInput isFieldName std fields request args)
        (buildPreviewLoaderInputRecord fields args) ↔
      FieldsAgree (accepted isFieldName fields) fields.zipIdx
        (fun field index =>
          LoaderAgrees std field (requestInputField std request field.name) args[index]?)
        (fun field index =>
          GeneratedLoaderRefuses std field (requestInputField std request field.name) args[index]?)
        (fun field index => PreviewLoaderRefuses std field args[index]?)) := by
  constructor
  · have indexed : buildPreviewInputRecord std fields [] (some request) = (do
        let record ← fields.zipIdx.foldlM (fun record item => do
          let value ← previewInputField std [] (some request) item.1
          return insertField record item.1.name value) []
        return .record record) := by
      rw [buildPreviewInputRecord]
      conv_lhs => rw [← List.zipIdx_map_fst 0 fields, List.foldlM_map]
    rw [indexed]
    apply fields_agree_iff
    · exact fun field typed _ => route_field_agrees typed request
    · exact fun field typed _ => generated_refuses_iff typed _
    · exact fun field _ => route_refuses_iff lawful request
  · apply fields_agree_iff
    · intro field typed index
      rw [loaderInputField_eq]
      exact loader_field_agrees lawful typed args index _
    · intro field typed index
      rw [loaderInputField_eq]
      exact generated_refuses_iff typed _
    · exact fun field index => loader_refuses_iff lawful args index

/-- Whole numbers as decimal texts; any other text of a float shows its bits. -/
def wholeNumbers : Std F64 where
  parseF64 text :=
    match parseI64 text with
    | some n => some (FloatOps.ofInt n)
    | none =>
      match text.toList with
      | '.' :: bits => (Text.parseUnsigned (2 ^ 64 - 1) bits).map (BitVec.ofNat 64)
      | _ => none
  jsonFloat value := .ofList ('.' :: Nat.toDigits 10 value.toNat)
  parseJson _ := none

theorem jsonFloat_chars (value : F64) :
    ∀ c ∈ (wholeNumbers.jsonFloat value).toList, c = '.' ∨ c.isDigit = true := by
  intro c member
  rw [wholeNumbers, String.toList_ofList] at member
  rcases List.mem_cons.mp member with rfl | digit
  · exact .inl rfl
  · exact .inr (Nat.isDigit_of_mem_toDigits (by decide) (by decide) digit)

theorem wholeNumbers_lawful : wholeNumbers.Lawful where
  finite_ofInt := F64.finite_ofInt
  parse_ofInt n := by simp only [wholeNumbers, parseI64_toString]
  parse_start text value parsed := by
    simp only [wholeNumbers] at parsed
    split at parsed
    · next n whole =>
      cases shape : text.toList with
      | nil =>
        rw [parseI64, shape] at whole
        cases whole
      | cons c rest =>
        refine ⟨c, rfl, ?_⟩
        rcases parseI64_chars whole c (by simp [shape]) with digit | rfl | rfl
        · exact .inl digit
        · exact .inr (by decide)
        · exact .inr (by decide)
    · split at parsed
      · next bits shape => exact ⟨'.', by simp [shape], .inr (by decide)⟩
      · cases parsed
  parse_jsonFloat value _ := by
    have text : (wholeNumbers.jsonFloat value).toList = '.' :: Nat.toDigits 10 value.toNat :=
      String.toList_ofList
    have unread : parseI64 (wholeNumbers.jsonFloat value) = none := by
      cases parsed : parseI64 (wholeNumbers.jsonFloat value) with
      | none => rfl
      | some n => exact absurd (parseI64_chars parsed '.' (by simp [text])) (by decide)
    change (match parseI64 (wholeNumbers.jsonFloat value) with
      | some n => some (FloatOps.ofInt n)
      | none => _) = _
    rw [unread]
    simp only [text]
    rw [Text.parseUnsigned_toDigits (by omega), Option.map_some, BitVec.ofNat_toNat, BitVec.setWidth_eq]
  jsonFloat_solid value c member := by
    rcases jsonFloat_chars value c member with rfl | digit
    · rfl
    · exact Text.solid_digit digit
  jsonFloat_point value _ := ⟨'.', by simp [wholeNumbers], .inl rfl⟩

section Samples

def limit (optional : Bool) : AxFieldPlan F64 := ⟨"limit", .u64, optional, none⟩

def posted (body : String) : AxHttpRequest := ⟨"POST", [], Wire.utf8 body, none⟩

theorem single_agrees {taken : Bool} {field : AxFieldPlan F}
    {agrees generated refused : AxFieldPlan F → Nat → Prop} (accept : taken = true)
    (each : agrees field 0) : FieldsAgree taken [field].zipIdx agrees generated refused := by
  rw [FieldsAgree, if_pos accept, List.zipIdx_singleton, List.forall_mem_singleton]
  exact .inl each

/-- One required number, sent as a form field and given as an argument. -/
theorem input_decoding_agrees_limit :
    SameInput (generatedRouteInput (fun _ => true) wholeNumbers [limit false] (posted "limit=7"))
        (buildPreviewInputRecord wholeNumbers [limit false] [] (some (posted "limit=7"))) ∧
      SameInput
        (generatedLoaderInput (fun _ => true) wholeNumbers [limit false] (posted "") [.number 7])
        (buildPreviewLoaderInputRecord [limit false] [.number 7]) := by
  have taken : accepted (fun _ => true) [limit false] = true := by decide +kernel
  have text : requestInputField wholeNumbers (posted "limit=7") (limit false).name = some "7" := by
    decide +kernel
  have read : parseU64 (Text.trim "7") = some 7 := by decide +kernel
  have agrees := input_decoding_agrees_iff (fun _ => true) wholeNumbers_lawful [limit false]
  constructor
  · apply (agrees (posted "limit=7") []).1.mpr
    apply single_agrees taken
    rw [text]
    intro value parsed
    rw [read] at parsed
    rw [← Option.some.inj parsed]
    decide
  · apply (agrees (posted "") [.number 7]).2.mpr
    apply single_agrees taken
    change (0 : Int) ≤ (7 : Int64).toInt
    decide

/-- An optional number that is absent: zero in the compiled code, null in the preview. -/
theorem optional_input_disagrees :
    ¬SameInput (generatedRouteInput (fun _ => true) wholeNumbers [limit true] (posted ""))
      (buildPreviewInputRecord wholeNumbers [limit true] [] (some (posted ""))) := by
  have taken : accepted (fun _ => true) [limit true] = true := by decide +kernel
  have absent : requestInputField wholeNumbers (posted "") (limit true).name = none := by decide +kernel
  have missing : (previewInputField wholeNumbers [] (some (posted "")) (limit true)).toOption = some .null := by
    rw [preview_request, absent]
    rfl
  have generated : generatedRouteInput (fun _ => true) wholeNumbers [limit true] (posted "") =
      .ok [("limit", .u64 0)] := by
    rw [generatedRouteInput, generatedInput, if_pos taken, List.zipIdx_singleton, List.mapM_cons]
    simp only [absent]
    rfl
  have preview : buildPreviewInputRecord wholeNumbers [limit true] [] (some (posted "")) =
      .ok (.record [("limit", .null)]) := by
    rw [buildPreviewInputRecord, List.foldlM_cons, Outcome.toOption_eq_some.mp missing]
    rfl
  rw [generated, preview, sameInput_ok]
  intro same
  obtain ⟨other, found, related⟩ := same "limit" (.u64 0) List.mem_cons_self
  cases found
  exact related

end Samples

end Agreement

end Axonyx.Runtime.Input
