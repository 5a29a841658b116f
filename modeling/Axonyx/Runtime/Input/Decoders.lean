import Axonyx.Runtime.Http
import Axonyx.Runtime.Preview.Store

/-! The two decoders of a handler's input: the code that `axonyx build` emits for each field,
and the interpreter of the preview. Both read a request or the arguments of a loader.
`Std` stands for the number and JSON texts of the libraries they call. -/
namespace Axonyx.Runtime.Input

open Axonyx.Core (AxValue AxFloat insertField)
open Preview (PreviewError)
open Text (quoteJson)

variable {F : Type} [Float64 F]

inductive RustTy where
  | string | bool | i64 | u64 | f64
  deriving DecidableEq, Repr

def RustTy.text : RustTy → String
  | .string => "String"
  | .bool => "bool"
  | .i64 => "i64"
  | .u64 => "u64"
  | .f64 => "f64"

/-- A literal in a source file; its lowered code reads back as itself. -/
inductive Literal (F : Type) [Float64 F] where
  | null
  | string (value : String)
  | number (value : Int64)
  | float (value : AxFloat F)
  | bool (value : Bool)

structure AxFieldPlan (F : Type) [Float64 F] where
  name : String
  rustTy : RustTy
  optional : Bool
  default : Option (Literal F)

section Json

inductive JsonValue (F : Type) where
  | null
  | bool (value : Bool)
  | integer (value : Int)
  | float (value : F)
  | string (value : String)
  | array (items : List (JsonValue F))
  | object (fields : List (String × JsonValue F))

structure Std (F : Type) where
  /-- `str::parse::<f64>`. -/
  parseF64 : String → Option F
  /-- A float as `serde_json` writes it. -/
  jsonFloat : F → String
  /-- `serde_json::from_slice`. -/
  parseJson : List UInt8 → Option (JsonValue F)

mutual

/-- The compact text of a value. -/
def JsonValue.chars (std : Std F) : JsonValue F → List Char
  | .null => "null".toList
  | .bool value => (toString value).toList
  | .integer value => (toString value).toList
  | .float value => (std.jsonFloat value).toList
  | .string value => quoteJson value
  | .array items => '[' :: itemChars std items ++ [']']
  | .object fields => '{' :: fieldChars std fields ++ ['}']

def itemChars (std : Std F) : List (JsonValue F) → List Char
  | [] => []
  | [item] => item.chars std
  | item :: next :: rest => item.chars std ++ ',' :: itemChars std (next :: rest)

def fieldChars (std : Std F) : List (String × JsonValue F) → List Char
  | [] => []
  | [(name, value)] => quoteJson name ++ ':' :: value.chars std
  | (name, value) :: next :: rest =>
    quoteJson name ++ ':' :: value.chars std ++ ',' :: fieldChars std (next :: rest)

end

def JsonValue.text (std : Std F) (value : JsonValue F) : String := .ofList (value.chars std)

mutual

def previewValueToJson : AxValue F → JsonValue F
  | .null => .null
  | .string value => .string value
  | .number value => .integer value.toInt
  | .float value => .float value.get
  | .bool value => .bool value
  | .record fields => .object (previewFieldsToJson fields)
  | .list items => .array (previewItemsToJson items)

def previewItemsToJson : List (AxValue F) → List (JsonValue F)
  | [] => []
  | item :: rest => previewValueToJson item :: previewItemsToJson rest

def previewFieldsToJson : List (String × AxValue F) → List (String × JsonValue F)
  | [] => []
  | (name, value) :: rest => (name, previewValueToJson value) :: previewFieldsToJson rest

end

end Json

section Texts

variable (std : Std F)

/-- `str::parse::<i64>`. -/
def parseI64 (text : String) : Option Int64 :=
  match text.toList with
  | '-' :: digits =>
    if digits.head? = some '+' then none
    else (Text.parseUnsigned (2 ^ 63) digits).map fun n : Nat => Int64.ofInt (-(n : Int))
  | digits => (Text.parseUnsigned (2 ^ 63 - 1) digits).map fun n : Nat => Int64.ofInt n

/-- `str::parse::<u64>`. -/
def parseU64 (text : String) : Option UInt64 :=
  (Text.parseUnsigned (2 ^ 64 - 1) text.toList).map UInt64.ofNat

def truthy (text : String) : Bool :=
  Text.toAsciiLowercase (Text.trim text) ∈ ["true", "1", "on", "yes"]

def jsonFieldValue (request : AxHttpRequest) (name : String) : Option (JsonValue F) :=
  match std.parseJson request.body with
  | some (.object fields) => Core.lookup fields name
  | _ => none

def jsonFieldString (request : AxHttpRequest) (name : String) : Option String :=
  (jsonFieldValue std request name).map fun value =>
    match value with
    | .null => ""
    | .string value => value
    | value => value.text std

/-- `__ax_request_input_field`. -/
def requestInputField (request : AxHttpRequest) (name : String) : Option String :=
  (request.formValue name).or (jsonFieldString std request name)

/-- What `__ax_loader_input_field` makes of an argument. -/
def argumentText : JsonValue F → Option String
  | .null => none
  | .string value => some value
  | value => some (value.text std)

/-- `__ax_loader_input_field`. -/
def loaderInputField (request : AxHttpRequest) (args : List (JsonValue F)) (index : Nat)
    (name : String) : Option String :=
  (args[index]?.bind (argumentText std)).or (requestInputField std request name)

end Texts

section Generated

/-- A value of one of the types that a generated input struct has. -/
inductive RustValue (F : Type) where
  | string (value : String)
  | bool (value : Bool)
  | i64 (value : Int64)
  | u64 (value : UInt64)
  | f64 (value : F)

inductive InputError where
  /-- The compiler rejects the module. -/
  | rejected
  | invalidInput (field : String)
  deriving DecidableEq, Repr

/-- The expression in place of an absent input. -/
inductive Missing (F : Type) [Float64 F] where
  | literal (value : Literal F)
  | defaultValueForRustType
  | falseLiteral

/-- The expressions over the raw text that `render_input_field` emits. -/
inductive Emitted (F : Type) [Float64 F] where
  /-- `raw.ok_or_else(..)?` -/
  | okOrElse
  /-- `raw.ok_or_else(..)?.trim().parse().map_err(..)?` -/
  | okOrElseParse
  /-- `raw.unwrap_or_else(|| (missing).to_string())` -/
  | unwrapOrElse (missing : Missing F)
  /-- `raw.map(|value| matches!(..)).unwrap_or(missing)` -/
  | mapTruthy (missing : Missing F)
  /-- `raw.map(|value| value.trim().parse().map_err(..)).transpose()?.unwrap_or(missing)` -/
  | mapParse (missing : Missing F)

def renderInputField (field : AxFieldPlan F) : Emitted F :=
  if !field.optional && field.default.isNone && field.rustTy != .bool then
    match field.rustTy with
    | .i64 | .u64 | .f64 => .okOrElseParse
    | _ => .okOrElse
  else
    let missing := match field.default with
      | some literal => .literal literal
      | none => if field.optional then .defaultValueForRustType else .falseLiteral
    match field.rustTy with
    | .string => .unwrapOrElse missing
    | .bool => .mapTruthy missing
    | _ => .mapParse missing

/-- The value of a literal where a value of the type has to stand. An integer literal without
an expected type is an `i32`. -/
def Literal.typed (ty : RustTy) (literal : Literal F) : Option (RustValue F) :=
  match ty, literal with
  | .string, .string value => some (.string value)
  | .string, .number value =>
    if -2 ^ 31 ≤ value.toInt ∧ value.toInt < 2 ^ 31 then some (.string (toString value)) else none
  | .string, .float value => some (.string (FloatOps.display value.get))
  | .string, .bool value => some (.string (toString value))
  | .string, .null => some (.string "null")
  | .bool, .bool value => some (.bool value)
  | .i64, .number value => some (.i64 value)
  | .u64, .number value => if 0 ≤ value.toInt then some (.u64 (.ofNat value.toInt.toNat)) else none
  | .f64, .float value => some (.f64 value.get)
  | _, _ => none

def defaultValueForRustType : RustTy → RustValue F
  | .string => .string ""
  | .bool => .bool false
  | .i64 => .i64 0
  | .u64 => .u64 0
  | .f64 => .f64 FloatOps.zero

def Missing.typed (ty : RustTy) : Missing F → Option (RustValue F)
  | .literal value => value.typed ty
  | .defaultValueForRustType => some (Input.defaultValueForRustType ty)
  | .falseLiteral => if ty = .bool then some (.bool false) else none

/-- What the text of a field reads as. -/
def readText (std : Std F) (ty : RustTy) (text : String) : Option (RustValue F) :=
  match ty with
  | .string => some (.string text)
  | .bool => some (.bool (truthy text))
  | .i64 => (parseI64 (Text.trim text)).map .i64
  | .u64 => (parseU64 (Text.trim text)).map .u64
  | .f64 => (std.parseF64 (Text.trim text)).map .f64

def Emitted.missing : Emitted F → Option (Missing F)
  | .okOrElse | .okOrElseParse => none
  | .unwrapOrElse missing | .mapTruthy missing | .mapParse missing => some missing

def parsed (std : Std F) (field : AxFieldPlan F) (text : String) :
    Except InputError (RustValue F) :=
  match readText std field.rustTy text with
  | some value => .ok value
  | none => .error (.invalidInput field.name)

def fallback (field : AxFieldPlan F) (missing : Missing F) : Except InputError (RustValue F) :=
  match missing.typed field.rustTy with
  | some value => .ok value
  | none => .error .rejected

/-- The expression at work on the raw text of a field. -/
def Emitted.run (std : Std F) (field : AxFieldPlan F) :
    Emitted F → Option String → Except InputError (RustValue F)
  | .okOrElse, some text | .unwrapOrElse _, some text => .ok (.string text)
  | .mapTruthy _, some text => .ok (.bool (truthy text))
  | .okOrElseParse, some text | .mapParse _, some text => parsed std field text
  | .okOrElse, none | .okOrElseParse, none => .error (.invalidInput field.name)
  | .unwrapOrElse missing, none | .mapTruthy missing, none | .mapParse missing, none =>
    fallback field missing

/-- The compiler takes the struct and its decoder: the names are names of fields, no two are the same,
and every fallback has the field's type. `isFieldName` is the compiler's own test. -/
def accepted (isFieldName : String → Bool) (fields : List (AxFieldPlan F)) : Bool :=
  (fields.all fun field => isFieldName field.name) && decide (fields.map (·.name)).Nodup &&
    fields.all fun field => (renderInputField field).missing.all fun missing =>
      (missing.typed field.rustTy).isSome

/-- The emitted struct value, from the raw text of each field. -/
def generatedInput (isFieldName : String → Bool) (std : Std F) (fields : List (AxFieldPlan F))
    (raw : Nat → String → Option String) : Except InputError (List (String × RustValue F)) :=
  if accepted isFieldName fields then
    fields.zipIdx.mapM fun (field, index) => do
      let value ← (renderInputField field).run std field (raw index field.name)
      return (field.name, value)
  else .error .rejected

/-- The decoder made of `render_route_input_field`. -/
def generatedRouteInput (isFieldName : String → Bool) (std : Std F)
    (fields : List (AxFieldPlan F)) (request : AxHttpRequest) :
    Except InputError (List (String × RustValue F)) :=
  generatedInput isFieldName std fields fun _ name => requestInputField std request name

/-- The decoder made of `render_loader_input_field`; the arguments come as JSON. -/
def generatedLoaderInput (isFieldName : String → Bool) (std : Std F)
    (fields : List (AxFieldPlan F)) (request : AxHttpRequest) (args : List (AxValue F)) :
    Except InputError (List (String × RustValue F)) :=
  generatedInput isFieldName std fields fun index name =>
    loaderInputField std request (args.map previewValueToJson) index name

end Generated

section Interpreted

variable (std : Std F)

def previewValueTypeName : AxValue F → String
  | .null => "Null"
  | .string _ => "String"
  | .number _ => "Number"
  | .float _ => "Float"
  | .bool _ => "Bool"
  | .record _ => "Record"
  | .list _ => "List"

/-- `AxValue::as_string`. -/
def asString : AxValue F → String
  | .null => ""
  | .string value => value
  | .number value => toString value
  | .float value => FloatOps.display value.get
  | .bool value => toString value
  | .record _ => "[record]"
  | .list _ => "[list]"

/-- `eval_preview_expr` on the code of a literal. -/
def Literal.value : Literal F → AxValue F
  | .null => .null
  | .string value => .string value
  | .number value => .number value
  | .float value => .float value
  | .bool value => .bool value

/-- An integer as a float, which is always finite. -/
def floatOfNumber (value : Int64) : Except PreviewError (AxValue F) :=
  match AxFloat.new (FloatOps.ofInt value) with
  | some value => .ok (.float value)
  | none => .error (.runtime "i64 is always a finite f64")

def coercePreviewDefaultInputValue (field : AxFieldPlan F) (default : Literal F) :
    Except PreviewError (AxValue F) :=
  match field.rustTy, default.value with
  | .bool, .bool value => .ok (.bool value)
  | .i64, .number value | .u64, .number value => .ok (.number value)
  | .f64, .number value => floatOfNumber value
  | .f64, .float value => .ok (.float value)
  | .string, .string value => .ok (.string value)
  | .string, value => .ok (.string (asString value))
  | ty, value => .error (.runtime ("default value for input \x60" ++ field.name ++
      "\x60 does not match expected " ++ ty.text ++ ": got " ++ previewValueTypeName value))

def coercePreviewInputValue (field : AxFieldPlan F) (text : String) :
    Except PreviewError (AxValue F) :=
  let expected (what : String) : PreviewError :=
    .runtime ("input \x60" ++ field.name ++ "\x60 expected " ++ what ++ " but received \x60" ++ text ++ "\x60")
  match field.rustTy with
  | .bool => .ok (.bool (truthy text))
  | .i64 =>
    match parseI64 (Text.trim text) with
    | some value => .ok (.number value)
    | none => .error (expected "i64")
  | .u64 =>
    match parseU64 (Text.trim text) with
    | some value =>
      if value.toNat < 2 ^ 63 then .ok (.number (.ofNat value.toNat))
      else .error (.runtime ("input \x60" ++ field.name ++ "\x60 exceeded Axonyx preview number range"))
    | none => .error (expected "u64")
  | .f64 =>
    match (std.parseF64 (Text.trim text)).bind AxFloat.new with
    | some value => .ok (.float value)
    | none => .error (expected "finite f64")
  | .string => .ok (.string text)

/-- The value of a field that has no text; `required` is the error for a field that needs one. -/
def previewMissingInput (field : AxFieldPlan F) (required : PreviewError) :
    Except PreviewError (AxValue F) :=
  match field.default with
  | some default => coercePreviewDefaultInputValue field default
  | none =>
    if field.optional then .ok .null
    else if field.rustTy = .bool then .ok (.bool false)
    else .error required

def previewInputField (inputFields : List (String × String)) (request : Option AxHttpRequest)
    (field : AxFieldPlan F) : Except PreviewError (AxValue F) :=
  match ((Core.lookup inputFields field.name).or (request.bind (·.formValue field.name))).or
      (request.bind (jsonFieldString std · field.name)) with
  | none => previewMissingInput field (.invalidInput field.name)
  | some text =>
    match coercePreviewInputValue std field text with
    | .ok value => .ok value
    | .error _ => .error (.invalidInput field.name)

def buildPreviewInputRecord (fields : List (AxFieldPlan F)) (inputFields : List (String × String))
    (request : Option AxHttpRequest) : Except PreviewError (AxValue F) := do
  let record ← fields.foldlM (fun record field => do
    let value ← previewInputField std inputFields request field
    return insertField record field.name value) []
  return .record record

def coercePreviewLoaderInputValue (field : AxFieldPlan F) (value : AxValue F) :
    Except PreviewError (AxValue F) :=
  match field.rustTy, value with
  | .string, .string value => .ok (.string value)
  | .string, value@(.number _) | .string, value@(.float _) | .string, value@(.bool _) =>
    .ok (.string (asString value))
  | .bool, .bool value => .ok (.bool value)
  | .i64, .number value | .u64, .number value => .ok (.number value)
  | .f64, .number value => floatOfNumber value
  | .f64, .float value => .ok (.float value)
  | _, .null => .ok .null
  | ty, value => .error (.runtime ("loader input \x60" ++ field.name ++ "\x60 expected " ++ ty.text ++
      " but received " ++ previewValueTypeName value))

theorem coercePreviewLoaderInputValue_null (field : AxFieldPlan F) :
    coercePreviewLoaderInputValue field .null = .ok .null := by
  obtain ⟨name, ty, optional, default⟩ := field
  cases ty <;> simp only [coercePreviewLoaderInputValue]

def previewLoaderInputField (args : List (AxValue F)) (index : Nat) (field : AxFieldPlan F) :
    Except PreviewError (AxValue F) :=
  match args[index]? with
  | none =>
    previewMissingInput field (.runtime ("missing required loader input \x60" ++ field.name ++ "\x60"))
  | some value => coercePreviewLoaderInputValue field value

def buildPreviewLoaderInputRecord (fields : List (AxFieldPlan F)) (args : List (AxValue F)) :
    Except PreviewError (AxValue F) := do
  let record ← fields.zipIdx.foldlM (fun record (field, index) => do
    let value ← previewLoaderInputField args index field
    return insertField record field.name value) []
  return .record record

end Interpreted

end Axonyx.Runtime.Input
