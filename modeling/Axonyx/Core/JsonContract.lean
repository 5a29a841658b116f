import Axonyx.Core.Types

/-! Type annotations as texts, and the check of a JSON value against a type. The check goes at
most 64 levels deep. -/
namespace Axonyx.Core

section Json

/-- The characters that numbers are written with. -/
def isNumberChar (c : Char) : Bool := c.isDigit || c ∈ ['-', '+', '.', 'e', 'E']

/-- `serde_json::Number` with arbitrary precision: the text of the number. -/
structure JsonNumber where
  text : String
  present : text.toList ≠ []
  written : ∀ c ∈ text.toList, isNumberChar c = true
  deriving DecidableEq

def JsonNumber.asI64 (number : JsonNumber) : Option Int64 := Text.parseI64 number.text.toList

def JsonNumber.asU64 (number : JsonNumber) : Option Nat := Text.parseUnsigned (2 ^ 64 - 1) number.text.toList

/-- `Number::from` of an integer. -/
def JsonNumber.ofInt64 (n : Int64) : JsonNumber where
  text := toString n
  present := Text.toString_ne_nil n
  written c member := by
    rcases Text.toString_chars n c member with digit | rfl
    · exact (Bool.or_eq_true _ _).mpr (.inl digit)
    · rfl

@[simp] theorem JsonNumber.asI64_ofInt64 (n : Int64) : (JsonNumber.ofInt64 n).asI64 = some n :=
  Text.parseI64_toString n

inductive Json where
  | null
  | bool (value : Bool)
  | number (value : JsonNumber)
  | string (value : String)
  | array (items : List Json)
  | object (fields : List (String × Json))

theorem JsonNumber.asU64_ofInt64 {n : Int64} (natural : 0 ≤ n.toInt) :
    (JsonNumber.ofInt64 n).asU64 = some n.toInt.toNat := by
  have digits : (toString n).toList = Nat.toDigits 10 n.toInt.toNat := (Text.toString_toList n).trans (if_pos natural)
  have range := n.toInt_lt
  rw [JsonNumber.asU64, JsonNumber.ofInt64, digits]
  exact Text.parseUnsigned_toDigits (by omega)

def JsonNumber.isInteger (number : JsonNumber) : Bool := number.asI64.isSome || number.asU64.isSome

theorem JsonNumber.isInteger_ofInt64 (n : Int64) : (JsonNumber.ofInt64 n).isInteger = true := by
  rw [JsonNumber.isInteger, JsonNumber.asI64_ofInt64]
  rfl

def Json.isByte : Json → Bool
  | .number n => n.asU64.any (· ≤ 255)
  | _ => false

def Json.isU64 : Json → Bool
  | .number n => n.asU64.isSome
  | _ => false

def Json.isString : Json → Bool
  | .string _ => true
  | _ => false

def Json.isNull : Json → Bool
  | .null => true
  | _ => false

def jsonKind : Json → String
  | .null => "null"
  | .bool _ => "boolean"
  | .number value => if value.isInteger then "integer" else "number"
  | .string _ => "string"
  | .array _ => "array"
  | .object _ => "object"

structure AxJsonValidationError where
  path : String
  expected : String
  actual : String
  reason : String
  deriving DecidableEq, Repr

abbrev Validated := Except AxJsonValidationError Unit

end Json

section Validation

/-- The first error of a check over the items of a list. -/
def checkEach {α : Type} (check : Nat → α → Validated) : Nat → List α → Validated
  | _, [] => .ok ()
  | index, item :: rest => do
    check index item
    checkEach check (index + 1) rest

def fileRefString (path : String) (fields : List (String × Json)) (field : String) : Validated :=
  if (lookup fields field).any Json.isString then .ok ()
  else .error ⟨path ++ "." ++ field, "String", ((lookup fields field).map jsonKind).getD "missing",
    "required FileRef string field is missing or invalid"⟩

def validateFileRef (path : String) (fields : List (String × Json)) : Validated := do
  fileRefString path fields "id"
  fileRefString path fields "storage"
  fileRefString path fields "file_name"
  if !(lookup fields "size").any Json.isU64 then
    throw ⟨path ++ ".size", "Int", ((lookup fields "size").map jsonKind).getD "missing",
      "required FileRef size is missing or invalid"⟩
  else if (lookup fields "content_type").any fun value => !value.isNull && !value.isString then
    throw ⟨path ++ ".content_type", "Optional<String>",
      ((lookup fields "content_type").map jsonKind).getD "missing",
      "FileRef content_type must be a string or null"⟩
  else return ()

def AxType.isOptional : AxType → Bool
  | .optional _ => true
  | _ => false

variable (context : AxDataContext)

/-- `validate_json_at`, with the levels that are left instead of the depth. -/
def validateJsonAt : Nat → AxType → Json → String → Validated
  | 0, expected, value, path =>
    .error ⟨path, expected.displayName, jsonKind value, "contract nesting exceeds 64 levels"⟩
  | levels + 1, expected, value, path =>
    let mismatch (reason : String) : Validated :=
      .error ⟨path, expected.displayName, jsonKind value, reason⟩
    match expected with
    | .string => if value.isString then .ok () else mismatch "expected a JSON string"
    | .number | .float =>
      match value with
      | .number _ => .ok ()
      | _ => mismatch "expected a JSON number"
    | .int =>
      match value with
      | .number n => if n.isInteger then .ok () else mismatch "expected a JSON integer"
      | _ => mismatch "expected a JSON integer"
    | .decimal =>
      match value with
      | .number _ => .ok ()
      | .string text =>
        if isValidDecimal text.toList then .ok ()
        else mismatch "expected a decimal JSON string or number"
      | _ => mismatch "expected a decimal JSON string or number"
    | .bool =>
      match value with
      | .bool _ => .ok ()
      | _ => mismatch "expected a JSON boolean"
    | .dateTime | .date | .time | .uuid =>
      match value with
      | .string text =>
        if expected.acceptsStringLiteral text then .ok ()
        else mismatch "expected a valid canonical string value"
      | _ => mismatch "expected a valid canonical string value"
    | .bytes =>
      match value with
      | .array items =>
        if items.all Json.isByte then .ok () else mismatch "expected an array of byte integers (0..255)"
      | _ => mismatch "expected an array of byte integers (0..255)"
    | .file => mismatch "File is a server-only multipart input and cannot cross a JSON boundary"
    | .fileRef =>
      match value with
      | .object fields => validateFileRef path fields
      | _ => mismatch "expected a FileRef JSON object"
    | .json | .unknown => .ok ()
    | .never => mismatch "Never cannot have a response value"
    | .void => if value.isNull then .ok () else mismatch "expected null"
    | .list item | .set item =>
      match value with
      | .array items =>
        checkEach (fun index value =>
          validateJsonAt levels item value (path ++ "[" ++ toString index ++ "]")) 0 items
      | _ => mismatch "expected a JSON array"
    | .map key item =>
      match value with
      | .object fields =>
        checkEach (fun _ field =>
          if !key.acceptsMapKey field.1 then
            .error ⟨path ++ "." ++ field.1, key.displayName, "object key",
              "map key does not satisfy its declared type"⟩
          else validateJsonAt levels item field.2 (path ++ "." ++ field.1)) 0 fields
      | _ => mismatch "expected a JSON object"
    | .optional item => if value.isNull then .ok () else validateJsonAt levels item value path
    | .result ok error =>
      match value with
      | .object fields =>
        if fields.length ≠ 1 then mismatch "expected an object with exactly one Ok or Err field"
        else match lookup fields "Ok", lookup fields "Err" with
          | some value, _ => validateJsonAt levels ok value (path ++ ".Ok")
          | none, some value => validateJsonAt levels error value (path ++ ".Err")
          | none, none => mismatch "expected an object with exactly one Ok or Err field"
      | _ => mismatch "expected an object with exactly one Ok or Err field"
    | .public item | .signal item => validateJsonAt levels item value path
    | .secret _ => mismatch "Secret values cannot cross an API boundary"
    | .resource _ _ => mismatch "Resource is a runtime state container, not an API response contract"
    | .record name =>
      match context.literalUnion name with
      | some literals =>
        match value with
        | .string text =>
          if text ∈ literals then .ok ()
          else mismatch "value is not a member of the declared literal union"
        | _ => mismatch "value is not a member of the declared literal union"
      | none =>
        match context.record name with
        | none => .error ⟨path, name, jsonKind value, "unknown record contract"⟩
        | some record =>
          match value with
          | .object fields =>
            checkEach (fun _ field =>
              match lookup fields field.1 with
              | none =>
                if field.2.isOptional then .ok ()
                else .error ⟨path ++ "." ++ field.1, field.2.displayName, "missing",
                  "required field is missing"⟩
              | some value => validateJsonAt levels field.2 value (path ++ "." ++ field.1))
              0 record.fields
          | _ => mismatch "expected a JSON object"

def validateJson (expected : AxType) (value : Json) : Validated :=
  validateJsonAt context 65 expected value "$"

end Validation

section Answers

theorem checkEach_congr {α : Type} {first second : Nat → α → Validated} {items : List α}
    (same : ∀ index, ∀ item ∈ items, (first index item = .ok () ↔ second index item = .ok ()))
    (index : Nat) : checkEach first index items = .ok () ↔ checkEach second index items = .ok () := by
  induction items generalizing index with
  | nil => exact Iff.rfl
  | cons item rest ih =>
    have here := same index item List.mem_cons_self
    have later := ih (fun index item member => same index item (List.mem_cons_of_mem _ member))
      (index + 1)
    rw [checkEach, checkEach, Outcome.bind_unit_ok, Outcome.bind_unit_ok]
    exact and_congr here later

theorem checkEach_singleton {α : Type} {check : Nat → α → Validated} {item : α} (index : Nat) :
    checkEach check index [item] = .ok () ↔ check index item = .ok () := by
  rw [checkEach, Outcome.bind_unit_ok]
  exact and_iff_left rfl

theorem checkEach_ok {α : Type} {check : Nat → α → Validated} {items : List α}
    (each : ∀ index, ∀ item ∈ items, check index item = .ok ()) (index : Nat) :
    checkEach check index items = .ok () := by
  induction items generalizing index with
  | nil => rfl
  | cons item rest ih =>
    rw [checkEach, Outcome.bind_unit_ok]
    exact ⟨each index item List.mem_cons_self,
      ih (fun index item member => each index item (List.mem_cons_of_mem _ member)) (index + 1)⟩

theorem checked_of_checkEach {α : Type} {check : Nat → α → Validated} {items : List α} {index : Nat}
    (checked : checkEach check index items = .ok ()) {item : α} (member : item ∈ items) :
    ∃ index, check index item = .ok () := by
  induction items generalizing index with
  | nil => cases member
  | cons first rest ih =>
    rw [checkEach, Outcome.bind_unit_ok] at checked
    rcases List.mem_cons.mp member with rfl | later
    · exact ⟨index, checked.1⟩
    · exact ih checked.2 later

/-- Whether some value satisfies the type under some context. -/
def answerable : Nat → AxType → Bool
  | 0, _ => false
  | levels + 1, expected =>
    match expected with
    | .never | .file | .secret _ | .resource _ _ => false
    | .public item | .signal item => answerable levels item
    | .result ok error => answerable levels ok || answerable levels error
    | _ => true

/-- A context that declares nothing but an empty record. -/
def emptyRecord (name : String) : AxDataContext := ⟨[], [(name, ⟨name, []⟩)], []⟩

/-- The value satisfies the type wherever it stands. -/
def Satisfies (context : AxDataContext) (levels : Nat) (expected : AxType) (value : Json) : Prop :=
  ∀ path, validateJsonAt context levels expected value path = .ok ()

def Violates (context : AxDataContext) (levels : Nat) (expected : AxType) (value : Json) : Prop :=
  ∀ path, validateJsonAt context levels expected value path ≠ .ok ()

/-- A type that is not answerable admits no value. -/
theorem violates_of_not_answerable {context : AxDataContext} {levels : Nat} {expected : AxType}
    (none : answerable levels expected = false) (value : Json) :
    Violates context levels expected value := by
  induction levels generalizing expected value with
  | zero => intro path accepted; cases accepted
  | succ levels ih =>
    intro path accepted
    cases expected with
    | never => cases accepted
    | file => cases accepted
    | secret item => cases accepted
    | resource ok error => cases accepted
    | «public» item => exact ih none value path accepted
    | signal item => exact ih none value path accepted
    | result ok error =>
      obtain ⟨noOk, noError⟩ := Bool.or_eq_false_iff.mp none
      cases value with
      | object fields =>
        simp only [validateJsonAt] at accepted
        split at accepted
        · cases accepted
        · split at accepted
          · exact ih noOk _ _ accepted
          · exact ih noError _ _ accepted
          · cases accepted
      | _ => cases accepted
    | _ => cases none

theorem satisfies_wrapped {context : AxDataContext} {levels : Nat} {ok error : AxType} {value : Json} :
    (Satisfies context levels ok value →
      Satisfies context (levels + 1) (.result ok error) (.object [("Ok", value)])) ∧
    (Satisfies context levels error value →
      Satisfies context (levels + 1) (.result ok error) (.object [("Err", value)])) := by
  constructor
  · intro satisfied path
    exact satisfied (path ++ ".Ok")
  · intro satisfied path
    exact satisfied (path ++ ".Err")

theorem satisfies_literal {context : AxDataContext} {levels : Nat} {expected : AxType} {text : String}
    (kind : expected = .dateTime ∨ expected = .date ∨ expected = .time ∨ expected = .uuid)
    (canonical : expected.acceptsStringLiteral text = true) :
    Satisfies context (levels + 1) expected (.string text) := by
  intro path
  rcases kind with rfl | rfl | rfl | rfl <;> exact if_pos canonical

theorem satisfies_emptyRecord (name : String) (levels : Nat) :
    Satisfies (emptyRecord name) (levels + 1) (.record name) (.object []) := by
  intro path
  have declared : (emptyRecord name).record name = some ⟨name, []⟩ := by
    simp [emptyRecord, AxDataContext.record, lookup]
  simp only [validateJsonAt]
  rw [declared]
  rfl

theorem violates_undeclared {context : AxDataContext} {name : String} {levels : Nat} {value : Json}
    (noUnion : context.literalUnion name = none) (noRecord : context.record name = none) :
    Violates context levels (.record name) value := by
  intro path accepted
  cases levels with
  | zero => cases accepted
  | succ levels =>
    simp only [validateJsonAt, noUnion, noRecord] at accepted
    cases accepted

/-- The built-in types that no object satisfies. -/
def refusesObjects : AxType → Bool
  | .string | .number | .float | .int | .decimal | .bool | .dateTime | .date | .time | .uuid | .bytes
  | .file | .never | .void => true
  | _ => false

theorem violates_object {context : AxDataContext} {levels : Nat} {expected : AxType}
    (refuses : refusesObjects expected = true) (fields : List (String × Json)) :
    Violates context levels expected (.object fields) := by
  intro path accepted
  cases levels with
  | zero => cases accepted
  | succ levels => cases expected <;> first | cases refuses; done | cases accepted

/-- An answerable type admits a value under a context that has its records. -/
theorem satisfies_of_answerable {levels : Nat} {expected : AxType}
    (possible : answerable levels expected = true) :
    ∃ context value, Satisfies context levels expected value := by
  induction levels generalizing expected with
  | zero => cases possible
  | succ levels ih =>
    cases expected with
    | string => exact ⟨emptyRecord "", .string "", fun _ => rfl⟩
    | number => exact ⟨emptyRecord "", .number (.ofInt64 0), fun _ => rfl⟩
    | int =>
      refine ⟨emptyRecord "", .number (.ofInt64 0), fun path => ?_⟩
      simp only [validateJsonAt, JsonNumber.isInteger_ofInt64, if_true]
    | float => exact ⟨emptyRecord "", .number (.ofInt64 0), fun _ => rfl⟩
    | decimal => exact ⟨emptyRecord "", .number (.ofInt64 0), fun _ => rfl⟩
    | bool => exact ⟨emptyRecord "", .bool true, fun _ => rfl⟩
    | dateTime => exact ⟨emptyRecord "", .string "2000-01-01T00:00:00Z",
        satisfies_literal (by decide) (by decide +kernel)⟩
    | date => exact ⟨emptyRecord "", .string "2000-01-01",
        satisfies_literal (by decide) (by decide +kernel)⟩
    | time => exact ⟨emptyRecord "", .string "00:00:00",
        satisfies_literal (by decide) (by decide +kernel)⟩
    | uuid =>
      exact ⟨emptyRecord "", .string "00000000-0000-0000-0000-000000000000",
        satisfies_literal (by decide) (by decide +kernel)⟩
    | bytes => exact ⟨emptyRecord "", .array [], fun _ => rfl⟩
    | file => cases possible
    | fileRef =>
      exact ⟨emptyRecord "", .object [("id", .string ""), ("storage", .string ""),
        ("file_name", .string ""), ("size", .number (.ofInt64 0))], fun _ => by rfl⟩
    | json => exact ⟨emptyRecord "", .null, fun _ => rfl⟩
    | never => cases possible
    | void => exact ⟨emptyRecord "", .null, fun _ => rfl⟩
    | unknown => exact ⟨emptyRecord "", .null, fun _ => rfl⟩
    | list item => exact ⟨emptyRecord "", .array [], fun _ => rfl⟩
    | set item => exact ⟨emptyRecord "", .array [], fun _ => rfl⟩
    | map key item => exact ⟨emptyRecord "", .object [], fun _ => rfl⟩
    | optional item => exact ⟨emptyRecord "", .null, fun _ => rfl⟩
    | result ok error =>
      rcases (Bool.or_eq_true _ _).mp possible with answered | answered
      · obtain ⟨context, value, satisfied⟩ := ih answered
        exact ⟨context, _, satisfies_wrapped.1 satisfied⟩
      · obtain ⟨context, value, satisfied⟩ := ih answered
        exact ⟨context, _, satisfies_wrapped.2 satisfied⟩
    | «public» item =>
      obtain ⟨context, value, satisfied⟩ := ih possible
      exact ⟨context, value, satisfied⟩
    | signal item =>
      obtain ⟨context, value, satisfied⟩ := ih possible
      exact ⟨context, value, satisfied⟩
    | secret item => cases possible
    | resource ok error => cases possible
    | record name => exact ⟨emptyRecord name, .object [], satisfies_emptyRecord name levels⟩

end Answers

section Annotations

inductive AxTypeParseError where
  | empty
  | invalid (raw : String)
  deriving DecidableEq, Repr

def trimmed (text : List Char) : List Char := Text.trimEnd (Text.trimStart text)

def dropPrefix (start text : List Char) : Option (List Char) :=
  if start.isPrefixOf text then some (text.drop start.length) else none

def dropSuffix (finish text : List Char) : Option (List Char) :=
  if finish.isSuffixOf text then some (text.take (text.length - finish.length)) else none

theorem dropPrefix_eq_some {start text rest : List Char} :
    dropPrefix start text = some rest ↔ text = start ++ rest := by
  rw [dropPrefix]
  split
  next found =>
    obtain ⟨tail, rfl⟩ := List.isPrefixOf_iff_prefix.mp found
    simp [eq_comm]
  next absent =>
    refine iff_of_false nofun fun shape => absent ?_
    exact List.isPrefixOf_iff_prefix.mpr ⟨rest, shape.symm⟩

theorem dropSuffix_eq_some {finish text rest : List Char} :
    dropSuffix finish text = some rest ↔ text = rest ++ finish := by
  rw [dropSuffix]
  split
  next found =>
    obtain ⟨front, rfl⟩ := List.isSuffixOf_iff_suffix.mp found
    simp [eq_comm]
  next absent =>
    refine iff_of_false nofun fun shape => absent ?_
    exact List.isSuffixOf_iff_suffix.mpr ⟨rest, shape.symm⟩

def isTypeIdentifier : List Char → Bool
  | [] => false
  | first :: rest => (first.isAlpha || first == '_') && rest.all fun ch => ch.isAlphanum || ch == '_'

/-- The brackets that stay open behind the text. -/
def angleDepth : Nat → List Char → Option Nat
  | depth, [] => some depth
  | depth, ch :: rest =>
    if ch = '<' then angleDepth (depth + 1) rest
    else if ch = '>' then match depth with
      | 0 => none
      | depth + 1 => angleDepth depth rest
    else angleDepth depth rest

def hasBalancedAngleBrackets (input : List Char) : Bool := angleDepth 0 input == some 0

def invalid {α : Type} (raw : List Char) : Except AxTypeParseError α := .error (.invalid (.ofList raw))

def parseWrappedType (input wrapper : List Char) : Except AxTypeParseError (Option (List Char)) :=
  match dropPrefix wrapper input with
  | none => .ok none
  | some rest =>
    let rest := Text.trimStart rest
    if rest.head? ≠ some '<' then .ok none
    else if rest.getLast? ≠ some '>' then invalid input
    else
      let inner := rest.tail.dropLast
      if !hasBalancedAngleBrackets inner then invalid input else .ok (some (trimmed inner))

/-- The parts around the comma outside all brackets; `none` without one or with two. -/
def splitAtComma : Nat → List Char → Option (List Char) → List Char →
    Option (Option (List Char × List Char))
  | _, before, first, [] => some (first.map fun left => (left, before))
  | depth, before, first, ch :: rest =>
    if ch = '<' then splitAtComma (depth + 1) (before ++ [ch]) first rest
    else if ch = '>' then match depth with
      | 0 => none
      | depth + 1 => splitAtComma depth (before ++ [ch]) first rest
    else if ch = ',' ∧ depth = 0 then
      match first with
      | some _ => none
      | none => splitAtComma depth [] (some before) rest
    else splitAtComma depth (before ++ [ch]) first rest

def splitTypePair (inner source : List Char) :
    Except AxTypeParseError (List Char × List Char) :=
  match splitAtComma 0 [] none inner with
  | none | some none => invalid source
  | some (some (left, right)) =>
    if (trimmed left).isEmpty || (trimmed right).isEmpty then invalid source
    else .ok (trimmed left, trimmed right)

/-- What stands around the types in brackets. -/
inductive Generic where
  | one (wrap : AxType → AxType)
  | two (wrap : AxType → AxType → AxType)

def generics : List (String × Generic) :=
  [("List", .one .list), ("Optional", .one AxType.optionalOf), ("Set", .one .set),
    ("Secret", .one .secret), ("Public", .one .public), ("Signal", .one .signal),
    ("Map", .two .map), ("Result", .two .result), ("Resource", .two .resource)]

def builtins : List (String × AxType) :=
  [("String", .string), ("Number", .number), ("Int", .int), ("Float", .float),
    ("Decimal", .decimal), ("Bool", .bool), ("DateTime", .dateTime), ("Date", .date),
    ("Time", .time), ("Uuid", .uuid), ("Bytes", .bytes), ("File", .file), ("FileRef", .fileRef),
    ("Json", .json), ("Never", .never), ("Void", .void), ("Unknown", .unknown)]

/-- The type of a name, by a table of the names that are built in. -/
def namedType (table : List (String × AxType)) (name : String) : AxType :=
  (lookup table name).getD (.record name)

/-- The first of the generics that the text is written with. -/
def findGeneric (input : List Char) :
    List (String × Generic) → Except AxTypeParseError (Option (Generic × List Char))
  | [] => .ok none
  | (wrapper, generic) :: rest => do
    match ← parseWrappedType input wrapper.toList with
    | some inner => return some (generic, inner)
    | none => findGeneric input rest

/-- `parse_type_annotation` with its recursive calls as a parameter. -/
def parseTypeStep (parse : List Char → Except AxTypeParseError AxType) (input : List Char) :
    Except AxTypeParseError AxType :=
  let input := trimmed input
  if input.isEmpty then .error .empty
  else match dropSuffix ['?'] input with
    | some inner =>
      if (trimmed inner).isEmpty then invalid input
      else (parse inner).map AxType.optionalOf
    | none =>
      match dropSuffix ['[', ']'] input with
      | some item => (parse item).map .list
      | none => do
        match ← findGeneric input generics with
        | some (.one wrap, inner) => (parse inner).map wrap
        | some (.two wrap, inner) => do
          let (left, right) ← splitTypePair inner input
          let left ← parse left
          let right ← parse right
          return wrap left right
        | none =>
          if isTypeIdentifier input then return namedType builtins (.ofList input)
          else invalid input

/-- Every recursive call is on a shorter text. -/
def parseTypeFrom : Nat → List Char → Except AxTypeParseError AxType
  | 0 => fun _ => .error .empty
  | fuel + 1 => parseTypeStep (parseTypeFrom fuel)

def parseTypeAnnotation (input : List Char) : Except AxTypeParseError AxType :=
  parseTypeFrom (input.length + 1) input

theorem parseTypeFrom_trimmed (fuel : Nat) (input : List Char) :
    parseTypeFrom fuel (trimmed input) = parseTypeFrom fuel input := by
  cases fuel with
  | zero => rfl
  | succ fuel =>
    have once : trimmed (trimmed input) = trimmed input := Text.trim_trim_chars input
    rw [parseTypeFrom, parseTypeStep, parseTypeStep, once]

theorem parseWrappedType_some {input wrapper inner : List Char}
    (found : parseWrappedType input wrapper = .ok (some inner)) : '<' ∈ input := by
  simp only [parseWrappedType] at found
  split at found
  · cases found
  next rest front =>
    split at found
    · cases found
    next opened =>
      have first := List.mem_of_mem_head? (not_not.mp opened)
      rw [dropPrefix_eq_some.mp front]
      exact List.mem_append_right _ ((List.dropWhile_suffix _).subset first)

theorem findGeneric_some {input inner : List Char} {table : List (String × Generic)} {generic : Generic}
    (found : findGeneric input table = .ok (some (generic, inner))) : '<' ∈ input := by
  induction table with
  | nil => cases found
  | cons entry rest ih =>
    obtain ⟨result, wrapped, next⟩ := Outcome.bind_ok.mp found
    cases result with
    | some inner => exact parseWrappedType_some wrapped
    | none => exact ih next

theorem not_isTypeIdentifier {input : List Char} (opened : '<' ∈ input) :
    isTypeIdentifier input = false := by
  cases input with
  | nil => rfl
  | cons first rest =>
    rcases List.mem_cons.mp opened with rfl | later
    · rfl
    · have stop : (rest.all fun ch => ch.isAlphanum || ch == '_') = false :=
        List.all_eq_false.mpr ⟨'<', later, by decide⟩
      rw [isTypeIdentifier, stop, Bool.and_false]

/-- `AxType::parse_annotation`. -/
def AxType.parseAnnotation (input : String) : Except AxTypeParseError AxType :=
  parseTypeAnnotation input.toList

end Annotations

end Axonyx.Core
