import Axonyx.Core.Expr

/-! Types of a page's expressions and the checker that resolves them. The maps of a context
are lists in key order, as the fields of an object are. -/
namespace Axonyx.Core

inductive AxType where
  | string | number | int | float | decimal | bool | dateTime | date | time | uuid | bytes
  | file | fileRef | json | never | void
  | list (item : AxType)
  | map (key value : AxType)
  | set (item : AxType)
  | optional (item : AxType)
  | result (ok error : AxType)
  | secret (item : AxType)
  | «public» (item : AxType)
  | signal (item : AxType)
  | resource (value error : AxType)
  | record (name : String)
  | unknown
  deriving DecidableEq, Repr

namespace AxType

/-- `AxType::optional`: an optional type is not wrapped again. -/
def optionalOf : AxType → AxType
  | .optional item => .optional item
  | other => .optional other

def displayName : AxType → String
  | .string => "String"
  | .number => "Number"
  | .int => "Int"
  | .float => "Float"
  | .decimal => "Decimal"
  | .bool => "Bool"
  | .dateTime => "DateTime"
  | .date => "Date"
  | .time => "Time"
  | .uuid => "Uuid"
  | .bytes => "Bytes"
  | .file => "File"
  | .fileRef => "FileRef"
  | .json => "Json"
  | .never => "Never"
  | .void => "Void"
  | .list item => "List<" ++ item.displayName ++ ">"
  | .map key value => "Map<" ++ key.displayName ++ ", " ++ value.displayName ++ ">"
  | .set item => "Set<" ++ item.displayName ++ ">"
  | .optional item => "Optional<" ++ item.displayName ++ ">"
  | .result ok error => "Result<" ++ ok.displayName ++ ", " ++ error.displayName ++ ">"
  | .secret item => "Secret<" ++ item.displayName ++ ">"
  | .public item => "Public<" ++ item.displayName ++ ">"
  | .signal item => "Signal<" ++ item.displayName ++ ">"
  | .resource value error => "Resource<" ++ value.displayName ++ ", " ++ error.displayName ++ ">"
  | .record name => name
  | .unknown => "Unknown"

end AxType

section Literals

def isAscii (c : Char) : Bool := c.toNat < 128

def isAsciiHexdigit (c : Char) : Bool :=
  c.isDigit || ('a' ≤ c && c ≤ 'f') || ('A' ≤ c && c ≤ 'F')

def parseFixedU32 (value : List Char) : Option Nat :=
  if !value.isEmpty && value.all Char.isDigit then Text.parseUnsigned (2 ^ 32 - 1) value else none

def isValidDate (value : List Char) : Bool :=
  if !value.all isAscii || value.length != 10 || value[4]? != some '-' || value[7]? != some '-' then
    false
  else match parseFixedU32 (value.take 4), parseFixedU32 ((value.drop 5).take 2),
      parseFixedU32 (value.drop 8) with
    | some year, some month, some day =>
      if year = 0 || !(1 ≤ month && month ≤ 12) then false
      else
        let leap := year % 4 = 0 && (year % 100 ≠ 0 || year % 400 = 0)
        let maxDay :=
          if month = 2 then if leap then 29 else 28
          else if month ∈ [4, 6, 9, 11] then 30
          else 31
        1 ≤ day && day ≤ maxDay
    | _, _, _ => false

def isValidDecimal (value : List Char) : Bool :=
  let value := if value.head? = some '-' then value.tail else value
  match value.splitOn '.' with
  | [integer] => !integer.isEmpty && integer.all Char.isDigit
  | [integer, fraction] => !integer.isEmpty && integer.all Char.isDigit &&
      !fraction.isEmpty && fraction.all Char.isDigit
  | _ => false

def isValidTime (value : List Char) : Bool :=
  let (clock, fraction) := match Text.splitOnceChars ['.'] value with
    | some (clock, fraction) => (clock, some fraction)
    | none => (value, none)
  if !value.all isAscii || clock.length != 8 || clock[2]? != some ':' || clock[5]? != some ':' then
    false
  else match parseFixedU32 (clock.take 2), parseFixedU32 ((clock.drop 3).take 2),
      parseFixedU32 (clock.drop 6) with
    | some hour, some minute, some second =>
      hour ≤ 23 && minute ≤ 59 && second ≤ 59 && fraction.all fun fraction =>
        1 ≤ fraction.length && fraction.length ≤ 9 && fraction.all Char.isDigit
    | _, _, _ => false

/-- The offset of a time zone, as in `+01:30`. -/
def isValidOffset (zone : List Char) : Bool :=
  zone.length == 6 && (zone[0]? == some '+' || zone[0]? == some '-') && zone[3]? == some ':' &&
    (parseFixedU32 ((zone.drop 1).take 2)).any (· ≤ 23) && (parseFixedU32 (zone.drop 4)).any (· ≤ 59)

def isValidDatetime (value : List Char) : Bool :=
  if !value.all isAscii then false
  else match Text.splitOnceChars ['T'] value with
    | none => false
    | some (date, timeAndZone) =>
      if !isValidDate date then false
      else if timeAndZone.getLast? = some 'Z' then isValidTime timeAndZone.dropLast
      else
        -- the zone starts at the last sign
        let zoneLength := (timeAndZone.reverse.takeWhile fun c => c != '+' && c != '-').length + 1
        if timeAndZone.length < zoneLength then false
        else isValidTime (timeAndZone.take (timeAndZone.length - zoneLength)) &&
          isValidOffset (timeAndZone.drop (timeAndZone.length - zoneLength))

def isValidUuid (value : List Char) : Bool :=
  value.all isAscii && value.length == 36 && [8, 13, 18, 23].all (fun i => value[i]? == some '-') &&
    value.zipIdx.all fun (c, i) => i ∈ [8, 13, 18, 23] || isAsciiHexdigit c

/-- `str::parse::<i64>` succeeds. -/
def isI64 : List Char → Bool
  | '-' :: digits =>
    digits.head? != some '+' && (Text.parseUnsigned (2 ^ 63) digits).isSome
  | digits => (Text.parseUnsigned (2 ^ 63 - 1) digits).isSome

def AxType.acceptsStringLiteral (value : String) : AxType → Bool
  | .string => true
  | .date => isValidDate value.toList
  | .time => isValidTime value.toList
  | .dateTime => isValidDatetime value.toList
  | .uuid => isValidUuid value.toList
  | .decimal => isValidDecimal value.toList
  | .public inner => inner.acceptsStringLiteral value
  | _ => false

def AxType.acceptsMapKey (value : String) : AxType → Bool
  | .string => true
  | .dateTime => isValidDatetime value.toList
  | .date => isValidDate value.toList
  | .time => isValidTime value.toList
  | .uuid => isValidUuid value.toList
  | .int => isI64 value.toList
  | .decimal => isValidDecimal value.toList
  | .bool => value = "true" || value = "false"
  | .public inner => inner.acceptsMapKey value
  | _ => false

end Literals

section Checker

structure AxRecordType where
  name : String
  fields : List (String × AxType)
  deriving DecidableEq, Repr

structure AxDataContext where
  bindings : List (String × AxType)
  records : List (String × AxRecordType)
  literalUnions : List (String × List String)

inductive AxTypeError where
  | invalidAdditionOperands (left right : String)
  | unknownBinding (name : String)
  | unknownRecord (name : String)
  | unknownField (record field : String)
  | cannotAccessField (ty field : String)
  | expectedNumber (found : String)
  | cannotIndex (ty : String)
  deriving DecidableEq, Repr

namespace AxDataContext

def binding (context : AxDataContext) (name : String) : Option AxType :=
  lookup context.bindings name

def record (context : AxDataContext) (name : String) : Option AxRecordType :=
  lookup context.records name

def literalUnion (context : AxDataContext) (name : String) : Option (List String) :=
  lookup context.literalUnions name

end AxDataContext

def isNumericType (ty : AxType) : Bool := ty = .number || ty = .int || ty = .float

def promoteNumericType (left right : AxType) : AxType :=
  if left = .float || right = .float then .float
  else if left = .number || right = .number then .number
  else if left = .int && right = .int then .int
  else .number

def unaryType (op : AxUnaryOp) (ty : AxType) : Except AxTypeError AxType :=
  match op with
  | .not => .ok .bool
  | .neg =>
    if isNumericType ty || ty = .unknown then .ok ty
    else .error (.expectedNumber ty.displayName)

/-- A type whose values a string is joined with. -/
def isScalarType (ty : AxType) : Bool := ty = .string || ty = .bool || isNumericType ty

def additionType (left right : AxType) : Except AxTypeError AxType :=
  if isNumericType left && isNumericType right then .ok (promoteNumericType left right)
  else if left = .unknown || right = .unknown then .ok .unknown
  else if (left = .string && isScalarType right) || (right = .string && isScalarType left) then
    .ok .string
  else .error (.invalidAdditionOperands left.displayName right.displayName)

def arithmeticType (left right : AxType) : Except AxTypeError AxType :=
  if (isNumericType left || left = .unknown) && (isNumericType right || right = .unknown) then
    .ok (promoteNumericType left right)
  else .error (.expectedNumber (left.displayName ++ " and " ++ right.displayName))

def fallbackType (left right : AxType) : AxType :=
  match left with
  | .optional item => item
  | .unknown => right
  | other => other

def binaryType (op : AxBinaryOp) (left right : AxType) : Except AxTypeError AxType :=
  match op with
  | .add => additionType left right
  | .sub | .mul | .div | .rem => arithmeticType left right
  | .eq | .ne | .gt | .ge | .lt | .le | .in | .and | .or => .ok .bool
  | .fallback => .ok (fallbackType left right)

variable {F : Type} [Float64 F] (context : AxDataContext)

def resolveMemberType (property : String) : AxType → Except AxTypeError AxType
  | .fileRef =>
    if property = "id" || property = "storage" || property = "file_name" then .ok .string
    else if property = "content_type" then .ok (.optional .string)
    else if property = "size" then .ok .int
    else .error (.unknownField "FileRef" property)
  | .record name =>
    match context.record name with
    | none => .error (.unknownRecord name)
    | some record =>
      match lookup record.fields property with
      | none => .error (.unknownField name property)
      | some ty => .ok ty
  | .optional inner => resolveMemberType property inner
  | .unknown => .ok .unknown
  | other => .error (.cannotAccessField other.displayName property)

def resolveIndexType (index : AxExpr F) : AxType → Except AxTypeError AxType
  | .list item => .ok item
  | .map _ value => .ok value
  | .record name =>
    match index with
    | .string property => resolveMemberType context property (.record name)
    | _ => .ok .unknown
  | .unknown => .ok .unknown
  | other => .error (.cannotIndex other.displayName)

def optionalMemberType : Except AxTypeError AxType → Except AxTypeError AxType
  | .ok ty => .ok ty.optionalOf
  | .error (.unknownField _ _) | .error (.cannotAccessField _ _) => .ok .unknown
  | .error error => .error error

mutual

def resolveExprType : AxExpr F → Except AxTypeError AxType
  | .string _ => .ok .string
  | .number _ => .ok .number
  | .float _ => .ok .float
  | .bool _ => .ok .bool
  | .list items => (resolveListType items).map .list
  | .object _ => .ok .json
  | .identifier name =>
    match context.binding name with
    | some ty => .ok ty
    | none => .error (.unknownBinding name)
  | .unary op expr => do
    let ty ← resolveExprType expr
    unaryType op ty
  | .binary op left right => do
    let leftType ← resolveExprType left
    let rightType ← resolveExprType right
    binaryType op leftType rightType
  | .index (.object fields) (.string property) =>
    (resolveField property fields).getD (.error (.unknownField "object literal" property))
  | .index object index => do
    let objectType ← resolveExprType object
    resolveIndexType context index objectType
  | .member (.object fields) property =>
    (resolveField property fields).getD (.error (.unknownField "object literal" property))
  | .member object property => do
    let objectType ← resolveExprType object
    resolveMemberType context property objectType
  | .optionalMember (.object fields) property =>
    match resolveField property fields with
    | some ty => ty.map AxType.optionalOf
    | none => .ok .unknown
  | .optionalMember object property => do
    let objectType ← resolveExprType object
    optionalMemberType (resolveMemberType context property objectType)
  | .call _ _ => .ok .unknown

/-- The item type of a list: the type of all items, or unknown. -/
def resolveListType : List (AxExpr F) → Except AxTypeError AxType
  | [] => .ok .unknown
  | first :: rest => do
    let firstType ← resolveExprType first
    let same ← allOfType firstType rest
    return if same then firstType else .unknown

/-- Items behind one of another type are not looked at. -/
def allOfType (ty : AxType) : List (AxExpr F) → Except AxTypeError Bool
  | [] => .ok true
  | item :: rest => do
    let itemType ← resolveExprType item
    if itemType ≠ ty then return false else allOfType ty rest

def resolveField (property : String) :
    List (String × AxExpr F) → Option (Except AxTypeError AxType)
  | [] => none
  | (name, value) :: rest =>
    if name = property then some (resolveExprType value) else resolveField property rest

end

variable {context}

theorem resolve_index {object key : AxExpr F} {ty : AxType}
    (typed : resolveExprType context (.index object key) = .ok ty) :
    (∃ fields property, object = .object fields ∧ key = .string property ∧
      resolveField context property fields = some (.ok ty)) ∨
      ∃ objectType, resolveExprType context object = .ok objectType ∧
        resolveIndexType context key objectType = .ok ty := by
  cases object with
  | object fields =>
    cases key with
    | string property =>
      rw [resolveExprType] at typed
      cases found : resolveField context property fields with
      | none => rw [found] at typed; cases typed
      | some resolved =>
        rw [found] at typed
        cases typed
        exact .inl ⟨fields, property, rfl, rfl, found⟩
    | _ => exact .inr (Outcome.bind_ok.mp typed)
  | _ => exact .inr (Outcome.bind_ok.mp typed)

end Checker

end Axonyx.Core
