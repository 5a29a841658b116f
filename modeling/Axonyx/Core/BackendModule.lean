import Axonyx.Core.JsonContract

/-! The declarations of a backend file, their lowering, and the items of the module that is
generated from them. How a statement is lowered and how a body is rendered are parameters; an
item is what the module defines under one name. -/
namespace Axonyx.Core.Backend

section Documents

variable (Expr Stmt : Type)

structure AxField where
  name : String
  ty : String
  optional : Bool
  default : Option Expr

structure AxRoute where
  method : String
  path : String
  returns : Option String
  input : List (AxField Expr)
  body : List Stmt

/-- A loader, an action or a domain function. -/
structure AxCallable where
  name : String
  returns : Option String
  input : List (AxField Expr)
  body : List Stmt
  exported : Bool

structure AxJob where
  name : String
  body : List Stmt

inductive AxBackendStmt where
  | env
  | other (stmt : Stmt)

inductive AxBackendBlock where
  | backend (body : List (AxBackendStmt Stmt))
  | route (route : AxRoute Expr Stmt)
  | loader (loader : AxCallable Expr Stmt)
  | action (action : AxCallable Expr Stmt)
  | function (function : AxCallable Expr Stmt)
  | job (job : AxJob Stmt)
  | scope

structure AxBackendTypeField where
  name : String
  ty : String

structure AxBackendTypeDecl where
  name : String
  fields : List AxBackendTypeField
  literals : List String
  exported : Bool

structure AxBackendDocument where
  types : List AxBackendTypeDecl
  blocks : List (AxBackendBlock Expr Stmt)

end Documents

section Plans

structure AxLiteralUnionPlan where
  name : String
  literals : List String
  exported : Bool

structure AxRecordFieldPlan where
  name : String
  ty : AxType

structure AxRecordPlan where
  name : String
  fields : List AxRecordFieldPlan
  exported : Bool

variable (Code Step : Type)

structure AxFieldPlan where
  name : String
  rustTy : String
  optional : Bool
  default : Option Code

structure AxFunctionPlan where
  name : String
  rustFn : String
  returns : Option String
  input : List (AxFieldPlan Code)
  steps : List Step
  exported : Bool

inductive AxHandlerKind where
  | route (method path : String) (returns : Option String) (input : List (AxFieldPlan Code))
  | loader (returns : Option String) (input : List (AxFieldPlan Code))
  | action (returns : Option String) (input : List (AxFieldPlan Code))
  | job

structure AxHandlerPlan where
  name : String
  rustFn : String
  kind : AxHandlerKind Code
  steps : List Step

structure AxBackendPlan where
  types : List AxRecordPlan
  literalUnions : List AxLiteralUnionPlan
  globals : List Step
  functions : List (AxFunctionPlan Code Step)
  handlers : List (AxHandlerPlan Code Step)

end Plans

section Names

def normalizeFrom : List Char → Bool → List Char → List Char
  | out, _, [] => out
  | out, previousWasSep, ch :: rest =>
    if ch.isAlphanum then
      let out := if ch.isUpper && !out.isEmpty && !previousWasSep then out ++ ['_'] else out
      normalizeFrom (out ++ [ch.toLower]) false rest
    else if !previousWasSep then normalizeFrom (out ++ ['_']) true rest
    else normalizeFrom out previousWasSep rest

/-- `str::trim_matches('_')`. -/
def trimUnderscores (text : List Char) : List Char :=
  ((text.dropWhile (· == '_')).reverse.dropWhile (· == '_')).reverse

def normalizeIdent (input : List Char) : List Char := trimUnderscores (normalizeFrom [] true input)

def routePathIdent (path : List Char) : List Char :=
  let normalized := normalizeIdent path
  if normalized.isEmpty then "root".toList else normalized

def routeMethodIdent (method : List Char) : List Char :=
  let method := trimmed method
  if method.all fun ch => !ch.isAlpha || ch.isUpper then method.map Char.toLower
  else normalizeIdent method

/-- A part of a name with its first letter raised and the others lowered. -/
def capitalized : List Char → List Char
  | [] => []
  | first :: rest => first.toUpper :: rest.map Char.toLower

def inputStructName (rustFn : List Char) : List Char :=
  let (start, suffix) := match dropPrefix "action_".toList rustFn with
    | some suffix => ("Action".toList, suffix)
    | none => match dropPrefix "route_".toList rustFn with
      | some suffix => ("Route".toList, suffix)
      | none => ("Handler".toList, rustFn)
  let parts := (suffix.splitOn '_').filter fun part => !part.isEmpty
  start ++ parts.flatMap capitalized ++ "Input".toList

end Names

section Lowering

inductive AxBackendLowerError where
  | emptyHandlerName
  | emptyRoutePath
  | emptyRouteMethod
  | emptyInputType (field : String)
  | fileInputOutsideAction (field : String)
  | optionalFileInput (field : String)
  | optionalFileRefInput (field : String)
  | duplicateType (name : String)
  | duplicateTypeField (record field : String)
  | invalidTypeAnnotation (record field typeText : String) (source : AxTypeParseError)
  | step (message : String)

inductive AxStepContext where
  | request
  | other

variable {Expr Stmt Code Step : Type}

/-- How an expression and a statement are lowered. -/
structure Steps (Expr Stmt Code Step : Type) where
  expr : Expr → Code
  step : Stmt → Option (List (AxFieldPlan Code)) → AxStepContext → Except AxBackendLowerError Step

def mapInputType (ty : String) : String :=
  let ty := Text.trim ty
  if ty = "string" then "String"
  else if ty ∈ ["Bool", "bool", "boolean"] then "bool"
  else if ty ∈ ["Int", "i64", "int", "integer"] then "i64"
  else if ty ∈ ["Float", "Number", "f64", "float", "number"] then "f64"
  else if ty = "File" then "AxIncomingFile"
  else if ty = "FileRef" then "AxFileRef"
  else ty

variable (lowering : Steps Expr Stmt Code Step)

def lowerInputField (field : AxField Expr) : Except AxBackendLowerError (AxFieldPlan Code) :=
  if Text.trim field.ty = "" then .error (.emptyInputType field.name)
  else .ok ⟨field.name, mapInputType field.ty, field.optional, field.default.map lowering.expr⟩

def lowerNonActionInputField (field : AxField Expr) : Except AxBackendLowerError (AxFieldPlan Code) :=
  if Text.trim field.ty = "File" then .error (.fileInputOutsideAction field.name)
  else if Text.trim field.ty = "FileRef" && (field.optional || field.default.isSome) then
    .error (.optionalFileRefInput field.name)
  else lowerInputField lowering field

def lowerActionInputField (field : AxField Expr) : Except AxBackendLowerError (AxFieldPlan Code) :=
  if Text.trim field.ty = "File" && (field.optional || field.default.isSome) then
    .error (.optionalFileInput field.name)
  else lowerInputField lowering field

def lowerSteps (steps : List Stmt) (input : Option (List (AxFieldPlan Code)))
    (context : AxStepContext) : Except AxBackendLowerError (List Step) :=
  steps.mapM fun step => lowering.step step input context

def rustName (kind : String) (ident : List Char) : String := .ofList (kind.toList ++ '_' :: ident)

def lowerFunction (function : AxCallable Expr Stmt) :
    Except AxBackendLowerError (AxFunctionPlan Code Step) := do
  let name := trimmed function.name.toList
  if name.isEmpty then throw .emptyHandlerName
  else
    let input ← function.input.mapM (lowerNonActionInputField lowering)
    let steps ← lowerSteps lowering function.body none .other
    return ⟨function.name, rustName "fn" (normalizeIdent name), function.returns, input, steps,
      function.exported⟩

def lowerRoute (route : AxRoute Expr Stmt) : Except AxBackendLowerError (AxHandlerPlan Code Step) := do
  if (trimmed route.method.toList).isEmpty then throw .emptyRouteMethod
  else if (trimmed route.path.toList).isEmpty then throw .emptyRoutePath
  else
    let input ← route.input.mapM (lowerNonActionInputField lowering)
    let steps ← lowerSteps lowering route.body none .request
    return ⟨"route " ++ route.method ++ " " ++ route.path,
      rustName "route" (routeMethodIdent route.method.toList ++ '_' :: routePathIdent route.path.toList),
      .route route.method route.path route.returns input, steps⟩

def lowerLoader (loader : AxCallable Expr Stmt) :
    Except AxBackendLowerError (AxHandlerPlan Code Step) := do
  let name := trimmed loader.name.toList
  if name.isEmpty then throw .emptyHandlerName
  else
    let input ← loader.input.mapM (lowerNonActionInputField lowering)
    let steps ← lowerSteps lowering loader.body none .other
    return ⟨loader.name, rustName "loader" (normalizeIdent name), .loader loader.returns input, steps⟩

def lowerAction (action : AxCallable Expr Stmt) :
    Except AxBackendLowerError (AxHandlerPlan Code Step) := do
  let name := trimmed action.name.toList
  if name.isEmpty then throw .emptyHandlerName
  else
    let input ← action.input.mapM (lowerActionInputField lowering)
    let steps ← lowerSteps lowering action.body (some input) .request
    return ⟨action.name, rustName "action" (normalizeIdent name), .action action.returns input, steps⟩

def lowerJob (job : AxJob Stmt) : Except AxBackendLowerError (AxHandlerPlan Code Step) := do
  let name := trimmed job.name.toList
  if name.isEmpty then throw .emptyHandlerName
  else
    let steps ← lowerSteps lowering job.body none .other
    return ⟨job.name, rustName "job" (normalizeIdent name), .job, steps⟩

def lowerRecordFields (record : String) : List String → List AxBackendTypeField →
    Except AxBackendLowerError (List AxRecordFieldPlan)
  | _, [] => .ok []
  | seen, field :: rest =>
    if field.name ∈ seen then .error (.duplicateTypeField record field.name)
    else do
      let ty ← (AxType.parseAnnotation field.ty).mapError
        ( AxBackendLowerError.invalidTypeAnnotation record field.name field.ty)
      let rest ← lowerRecordFields record (field.name :: seen) rest
      return ⟨field.name, ty⟩ :: rest

def lowerTypeContracts : List String → List AxBackendTypeDecl →
    Except AxBackendLowerError (List AxRecordPlan × List AxLiteralUnionPlan)
  | _, [] => .ok ([], [])
  | names, declaration :: rest =>
    if declaration.name ∈ names then .error (.duplicateType declaration.name)
    else if !declaration.literals.isEmpty then do
      let (records, unions) ← lowerTypeContracts (declaration.name :: names) rest
      return (records, ⟨declaration.name, declaration.literals, declaration.exported⟩ :: unions)
    else do
      let fields ← lowerRecordFields declaration.name [] declaration.fields
      let (records, unions) ← lowerTypeContracts (declaration.name :: names) rest
      return (⟨declaration.name, fields, declaration.exported⟩ :: records, unions)

/-- What a block adds to the globals, the functions and the handlers. -/
def lowerBlock : AxBackendBlock Expr Stmt →
    Except AxBackendLowerError
      (List Step × List (AxFunctionPlan Code Step) × List (AxHandlerPlan Code Step))
  | .backend body => do
    let globals ← (body.filterMap fun
      | .env => none
      | .other stmt => some stmt).mapM fun stmt => lowering.step stmt none .other
    return (globals, [], [])
  | .function function => return ([], [← lowerFunction lowering function], [])
  | .scope => return ([], [], [])
  | .route route => return ([], [], [← lowerRoute lowering route])
  | .loader loader => return ([], [], [← lowerLoader lowering loader])
  | .action action => return ([], [], [← lowerAction lowering action])
  | .job job => return ([], [], [← lowerJob lowering job])

def lowerBackendDocument (document : AxBackendDocument Expr Stmt) :
    Except AxBackendLowerError (AxBackendPlan Code Step) := do
  let (types, literalUnions) ← lowerTypeContracts [] document.types
  let blocks ← document.blocks.mapM (lowerBlock lowering)
  return ⟨types, literalUnions, blocks.flatMap (·.1), blocks.flatMap (·.2.1), blocks.flatMap (·.2.2)⟩

end Lowering

section Codegen

variable {Code Step : Type}

inductive AxBackendCodegenError where
  | duplicateType (name : String)
  | invalidLiteralUnionValue (name literal : String)
  | duplicateLiteralUnionVariant (name first second variant : String)
  | rendering (message : String)

/-- The contracts that are checked beside the type names, and the texts of the items. -/
structure Rendering (Code Step : Type) where
  contracts : AxBackendPlan Code Step → Except AxBackendCodegenError Unit
  literalUnion : AxLiteralUnionPlan → Except AxBackendCodegenError String
  record : AxRecordPlan → Except AxBackendCodegenError String
  function : AxBackendPlan Code Step → AxFunctionPlan Code Step → Except AxBackendCodegenError String
  inputStruct : AxHandlerPlan Code Step → String
  handler : AxBackendPlan Code Step → AxHandlerPlan Code Step → Except AxBackendCodegenError String
  helper : AxBackendPlan Code Step → String → String

/-- What a generated module defines under one name. -/
structure Item where
  name : String
  text : String
  deriving DecidableEq, Repr

def literalUnionVariant (literal : List Char) : Option (List Char) :=
  if literal.isEmpty || literal.any fun ch => !ch.isAlphanum && ch != '-' && ch != '_' then none
  else
    let parts := (literal.splitOnP fun ch => ch == '-' || ch == '_').filter fun part => !part.isEmpty
    let variant := parts.flatMap fun
      | [] => []
      | first :: rest => first.toUpper :: rest
    let variant := if variant.head?.any Char.isDigit then 'V' :: variant else variant
    if variant.isEmpty then none else some variant

def literalUnionVariants (name : String) : List (List Char × String) → List String →
    Except AxBackendCodegenError Unit
  | _, [] => .ok ()
  | variants, literal :: rest =>
    match literalUnionVariant literal.toList with
    | none => .error (.invalidLiteralUnionValue name literal)
    | some variant =>
      match variants.find? (·.1 == variant) with
      | some first => .error (.duplicateLiteralUnionVariant name first.2 literal (.ofList variant))
      | none => literalUnionVariants name ((variant, literal) :: variants) rest

def insertRecordNames : List String → List AxRecordPlan → Except AxBackendCodegenError (List String)
  | names, [] => .ok names
  | names, record :: rest =>
    if record.name ∈ names then .error (.duplicateType record.name)
    else insertRecordNames (record.name :: names) rest

def insertUnionNames : List String → List AxLiteralUnionPlan → Except AxBackendCodegenError (List String)
  | names, [] => .ok names
  | names, union :: rest =>
    if union.name ∈ names then .error (.duplicateType union.name)
    else do
      literalUnionVariants union.name [] union.literals
      insertUnionNames (union.name :: names) rest

/-- `validate_type_contracts` as far as names go. -/
def validateTypeNames (plan : AxBackendPlan Code Step) : Except AxBackendCodegenError Unit := do
  let names ← insertRecordNames [] plan.types
  let _ ← insertUnionNames names plan.literalUnions
  return ()

def handlerInputFields (handler : AxHandlerPlan Code Step) : List (AxFieldPlan Code) :=
  match handler.kind with
  | .action _ input | .route _ _ _ input | .loader _ input => input
  | .job => []

/-- The functions, types and traits in front of the types of the plan. -/
def leadingHelpers : List String :=
  ["__AxAdd", "__ax_add", "__ax_finite_add", "__ax_is_null", "__ax_length", "__AxJsonOptional",
    "__ax_json_optional_member"]

def middleHelpers : List String :=
  ["__ax_finalize_response", "__ax_action_payload", "__ax_action_error_payload", "__ax_truthy",
    "__ax_push_invalidation", "__ax_request_input_field", "__ax_loader_input_field"]

def dispatchers : List String :=
  ["__ax_request_path", "__ax_route_params", "__ax_loader_context", "__ax_api_contract_context",
    "dispatch_api_route", "dispatch_action", "dispatch_loader"]

variable (rendering : Rendering Code Step) (plan : AxBackendPlan Code Step)

def helpers (names : List String) : List Item := names.map fun name => ⟨name, rendering.helper plan name⟩

def renderHandler (handler : AxHandlerPlan Code Step) : Except AxBackendCodegenError (List Item) := do
  let text ← rendering.handler plan handler
  let function : Item := ⟨handler.rustFn, text⟩
  if (handlerInputFields handler).isEmpty then return [function]
  else
    let name := String.ofList (inputStructName handler.rustFn.toList)
    return [⟨name, rendering.inputStruct handler⟩, function]

def generateBackendModule : Except AxBackendCodegenError (List Item) := do
  validateTypeNames plan
  rendering.contracts plan
  let unions ← plan.literalUnions.mapM fun union => return ⟨union.name, ← rendering.literalUnion union⟩
  let records ← plan.types.mapM fun record => return ⟨record.name, ← rendering.record record⟩
  let functions ← plan.functions.mapM fun function =>
    return ⟨function.name, ← rendering.function plan function⟩
  let handlers ← plan.handlers.mapM (renderHandler rendering plan)
  return helpers rendering plan leadingHelpers ++ unions ++ records ++
    helpers rendering plan middleHelpers ++ functions ++ handlers.flatten ++
    helpers rendering plan dispatchers

/-- `compile_backend_sources_to_module` behind the parser. -/
def bundle (plans : List (AxBackendPlan Code Step)) : AxBackendPlan Code Step :=
  ⟨plans.flatMap (·.types), plans.flatMap (·.literalUnions), plans.flatMap (·.globals),
    plans.flatMap (·.functions), plans.flatMap (·.handlers)⟩

end Codegen

end Axonyx.Core.Backend
