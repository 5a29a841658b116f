import Axonyx.Core.Expr
import Axonyx.Wire

/-! Reactive expressions: local functions are inlined into an expression over state names,
and the result is compiled to a program of the client's expression VM. -/
namespace Axonyx.Core

open Wire (Bytes utf8)

def axExpressionMagic : Bytes := [65, 88, 69, 1]
def axExpressionCollectionMaxItems : Nat := 1024

variable {F : Type} [Float64 F]

structure StateBindingPlan where
  signalId : String
  ty : String
  initial : String

structure ConversionBindings (F : Type) [Float64 F] where
  states : String → Option StateBindingPlan
  functions : List (AxFunctionDef F)

structure ReactiveExpressionPlan (F : Type) [Float64 F] where
  expression : AxExpr F
  program : Bytes
  signals : List String
  types : List String
  initials : List String

section Inlining

inductive ExpandError where
  | reason (text : String)
  | outOfFuel
  deriving DecidableEq, Repr

abbrev Expanded := Except ExpandError

abbrev Locals (F : Type) [Float64 F] := String → Option (AxExpr F)

def Locals.insert (locals : Locals F) (name : String) (expr : AxExpr F) : Locals F :=
  fun other => if other = name then some expr else locals other

/-- What inlining does at the leaves: a name, and a call in two steps around its arguments. -/
structure Inliner (F : Type) [Float64 F] where
  identifier : String → Expanded (AxExpr F)
  check : List String → Nat → Expanded (AxFunctionDef F)
  inline : AxFunctionDef F → List (AxExpr F) → Expanded (AxExpr F)

section Walk

variable (inliner : Inliner F)

mutual

def expandExpr : AxExpr F → Expanded (AxExpr F)
  | .identifier name => inliner.identifier name
  | .unary op expr => do
    let expr ← expandExpr expr
    return .unary op expr
  | .binary op left right => do
    let left ← expandExpr left
    let right ← expandExpr right
    return .binary op left right
  | .index object index => do
    let object ← expandExpr object
    let index ← expandExpr index
    return .index object index
  | .member object property => do
    let object ← expandExpr object
    return .member object property
  | .optionalMember object property => do
    let object ← expandExpr object
    return .optionalMember object property
  | .call path args => do
    let function ← inliner.check path args.length
    let args ← expandExprs args
    inliner.inline function args
  | .list items => do
    let items ← expandExprs items
    return .list items
  | .object fields => do
    let fields ← expandFields fields
    return .object fields
  | .string value => .ok (.string value)
  | .number value => .ok (.number value)
  | .float value => .ok (.float value)
  | .bool value => .ok (.bool value)

def expandExprs : List (AxExpr F) → Expanded (List (AxExpr F))
  | [] => .ok []
  | expr :: rest => do
    let expr ← expandExpr expr
    let rest ← expandExprs rest
    return expr :: rest

def expandFields : List (String × AxExpr F) → Expanded (List (String × AxExpr F))
  | [] => .ok []
  | (name, expr) :: rest => do
    let expr ← expandExpr expr
    let rest ← expandFields rest
    return (name, expr) :: rest

end

end Walk

variable (bindings : ConversionBindings F)

/-- The function of a call; the names on the call stack may not be called again. -/
def checkCall (callStack : List String) (path : List String) (count : Nat) :
    Expanded (AxFunctionDef F) :=
  match path with
  | [name] =>
    match findFunction bindings.functions name with
    | none => .error (.reason ("\x60" ++ name ++ "\x60 is not a local pure function"))
    | some function =>
      if callStack.contains name then
        .error (.reason ("recursive pure function calls are not supported (\x60" ++
          Text.join " -> " (callStack ++ [name]) ++ "\x60)"))
      else if count > function.params.length then
        .error (.reason ("pure function \x60" ++ name ++ "\x60 expects at most " ++
          toString function.params.length ++ " arguments, received " ++ toString count))
      else .ok function
  | path => .error (.reason ("\x60" ++ Text.join "." path ++ "\x60 is not a local pure function"))

/-- The parameters of an inlined call: its expanded arguments, then its expanded defaults. -/
def bindLocals (expand : Locals F → AxExpr F → Expanded (AxExpr F)) (name : String) :
    List (AxComponentParamDef F) → List (AxExpr F) → Locals F → Expanded (Locals F)
  | [], _, locals => .ok locals
  | param :: params, arg :: args, locals =>
    bindLocals expand name params args (locals.insert param.name arg)
  | param :: params, [], locals =>
    match param.default with
    | some default => do
      let value ← expand locals default
      bindLocals expand name params [] (locals.insert param.name value)
    | none => .error (.reason ("pure function \x60" ++ name ++
        "\x60 is missing required argument \x60" ++ param.name ++ "\x60"))

/-- Inlining, where `expand` is applied to what replaces a parameter or a call. -/
def inlinerWith (expand : Locals F → List String → List String → AxExpr F → Expanded (AxExpr F))
    (locals : Locals F) (localStack callStack : List String) : Inliner F where
  identifier name :=
    match locals name with
    | none => .ok (.identifier name)
    | some value =>
      if localStack.contains name then
        .error (.reason ("pure function parameter \x60" ++ name ++ "\x60 resolves recursively"))
      else expand locals (localStack ++ [name]) callStack value
  check := checkCall bindings callStack
  inline function args := do
    let callStack := callStack ++ [function.name]
    let locals ← bindLocals (fun locals => expand locals localStack callStack) function.name
      function.params args fun _ => none
    expand locals localStack callStack function.body

/-- Inlining with `fuel` nested replacements of a parameter or a call. -/
def inlinerAt : Nat → Locals F → List String → List String → Inliner F
  | 0 => inlinerWith bindings fun _ _ _ _ => .error .outOfFuel
  | fuel + 1 => inlinerWith bindings fun locals localStack callStack =>
      expandExpr (inlinerAt fuel locals localStack callStack)

def expandPureReactiveExpression (fuel : Nat) (locals : Locals F)
    (localStack callStack : List String) (expr : AxExpr F) : Expanded (AxExpr F) :=
  expandExpr (inlinerAt bindings fuel locals localStack callStack) expr

end Inlining

section References

variable (states : String → Option StateBindingPlan)

mutual

def expressionReferencesState : AxExpr F → Bool
  | .identifier name => (states name).isSome
  | .unary _ expr => expressionReferencesState expr
  | .binary _ left right => expressionReferencesState left || expressionReferencesState right
  | .index object index => expressionReferencesState object || expressionReferencesState index
  | .member object _ | .optionalMember object _ => expressionReferencesState object
  | .call _ args => anyReferencesState args
  | .list items => anyReferencesState items
  | .object fields => fieldsReferenceState fields
  | .string _ | .number _ | .float _ | .bool _ => false

def anyReferencesState : List (AxExpr F) → Bool
  | [] => false
  | expr :: rest => expressionReferencesState expr || anyReferencesState rest

def fieldsReferenceState : List (String × AxExpr F) → Bool
  | [] => false
  | (_, expr) :: rest => expressionReferencesState expr || fieldsReferenceState rest

end

end References

section Compile

def opUnary : AxUnaryOp → UInt8
  | .not => 10
  | .neg => 11

def opBinary : AxBinaryOp → UInt8
  | .add => 20
  | .sub => 21
  | .mul => 22
  | .div => 23
  | .rem => 24
  | .eq => 25
  | .ne => 26
  | .gt => 27
  | .ge => 28
  | .lt => 29
  | .le => 30
  | .in => 31
  | .and => 32
  | .or => 33
  | .fallback => 34

/-- A node emits bytes behind the program so far; an error is a text. -/
abbrev Emitted := Except String

def pushProgramString (value : String) : Emitted Bytes :=
  if (utf8 value).length < 2 ^ 32 then .ok (Wire.leBytes 4 (utf8 value).length ++ utf8 value)
  else .error "reactive expression string is too large"

def reactiveCollectionCount (count : Nat) (kind : String) : Emitted Bytes :=
  if count > axExpressionCollectionMaxItems then
    .error ("reactive " ++ kind ++ " literal exceeds the " ++
      toString axExpressionCollectionMaxItems ++ "-item limit")
  else if count < 2 ^ 16 then .ok (Wire.leBytes 2 count)
  else .error ("reactive " ++ kind ++ " literal has too many items")

def dependencyIndex (dependencies : List String) (name : String) : List String × Nat :=
  match dependencies.idxOf? name with
  | some index => (dependencies, index)
  | none => (dependencies ++ [name], dependencies.length)

variable (states : String → Option StateBindingPlan)

def compileIdentifier (name : String) (dependencies : List String) :
    Emitted (List String × Bytes) :=
  if name = "null" then .ok (dependencies, [1])
  else if (states name).isNone then .error ("\x60" ++ name ++ "\x60 is not reactive state")
  else
    let (dependencies, index) := dependencyIndex dependencies name
    if index < 2 ^ 16 then .ok (dependencies, 0 :: Wire.leBytes 2 index)
    else .error "reactive expression has too many dependencies"

def pushKeys : List String → Emitted Bytes
  | [] => .ok []
  | name :: rest => do
    let key ← pushProgramString name
    let keys ← pushKeys rest
    return key ++ keys

mutual

def compileNode : AxExpr F → List String → Emitted (List String × Bytes)
  | .string value, dependencies => do
    let text ← pushProgramString value
    return (dependencies, 2 :: text)
  | .number value, dependencies => .ok (dependencies, 5 :: int64ToLe value)
  | .float value, dependencies => .ok (dependencies, 4 :: Binary64.toLeBytes value.get)
  | .bool value, dependencies => .ok (dependencies, [3, if value then 1 else 0])
  | .identifier name, dependencies => compileIdentifier states name dependencies
  | .unary op expr, dependencies => do
    let (dependencies, code) ← compileNode expr dependencies
    return (dependencies, code ++ [opUnary op])
  | .binary op left right, dependencies => do
    let (dependencies, leftCode) ← compileNode left dependencies
    let (dependencies, rightCode) ← compileNode right dependencies
    return (dependencies, leftCode ++ rightCode ++ [opBinary op])
  | .index object index, dependencies => do
    let (dependencies, objectCode) ← compileNode object dependencies
    let (dependencies, indexCode) ← compileNode index dependencies
    return (dependencies, objectCode ++ indexCode ++ [40])
  | .member object property, dependencies => do
    let (dependencies, code) ← compileNode object dependencies
    let text ← pushProgramString property
    return (dependencies, code ++ 41 :: text)
  | .optionalMember object property, dependencies => do
    let (dependencies, code) ← compileNode object dependencies
    let text ← pushProgramString property
    return (dependencies, code ++ 42 :: text)
  | .call path _, _ =>
    .error ("pure function \x60" ++ Text.join "." path ++ "\x60 could not be fully inlined")
  | .list items, dependencies => do
    let count ← reactiveCollectionCount items.length "list"
    let (dependencies, code) ← compileNodes items dependencies
    return (dependencies, code ++ 50 :: count)
  | .object fields, dependencies => do
    let count ← reactiveCollectionCount fields.length "object"
    let (dependencies, code) ← compileValues fields dependencies
    let keys ← pushKeys (fields.map Prod.fst)
    return (dependencies, code ++ 51 :: count ++ keys)

def compileNodes : List (AxExpr F) → List String → Emitted (List String × Bytes)
  | [], dependencies => .ok (dependencies, [])
  | expr :: rest, dependencies => do
    let (dependencies, code) ← compileNode expr dependencies
    let (dependencies, codes) ← compileNodes rest dependencies
    return (dependencies, code ++ codes)

def compileValues : List (String × AxExpr F) → List String → Emitted (List String × Bytes)
  | [], dependencies => .ok (dependencies, [])
  | (_, expr) :: rest, dependencies => do
    let (dependencies, code) ← compileNode expr dependencies
    let (dependencies, codes) ← compileValues rest dependencies
    return (dependencies, code ++ codes)

end

end Compile

/-- `UnsupportedReactiveExpression`; the message shows `exprSource` formatted. -/
structure AxConvertError (F : Type) [Float64 F] where
  exprSource : AxExpr F
  reason : String

section Plan

variable (bindings : ConversionBindings F)

def signalsOf (dependencies : List String) : List StateBindingPlan :=
  dependencies.filterMap bindings.states

def compileExpanded (expr expanded : AxExpr F) :
    Except (AxConvertError F) (Option (ReactiveExpressionPlan F)) :=
  if !expressionReferencesState bindings.states expanded then .ok none
  else match compileNode bindings.states expanded [] with
    | .error reason => .error ⟨expr, reason⟩
    | .ok (dependencies, code) =>
      let plans := signalsOf bindings dependencies
      .ok (some {
        expression := expanded
        program := axExpressionMagic ++ code
        signals := plans.map StateBindingPlan.signalId
        types := plans.map StateBindingPlan.ty
        initials := plans.map StateBindingPlan.initial })

/-- `none` in front: the nesting of the local functions is deeper than `fuel`. -/
def compileReactiveExpression (fuel : Nat) (expr : AxExpr F) :
    Option (Except (AxConvertError F) (Option (ReactiveExpressionPlan F))) :=
  match expandPureReactiveExpression bindings fuel (fun _ => none) [] [] expr with
  | .ok expanded => some (compileExpanded bindings expr expanded)
  | .error (.reason reason) =>
    if expressionReferencesState bindings.states expr then some (.error ⟨expr, reason⟩)
    else some (.ok none)
  | .error .outOfFuel => none

end Plan

end Axonyx.Core
