import Axonyx.Outcome
import Axonyx.Text

/-! Compilation of query and mutation plans to SQL text with bound parameters. The
parameter list is threaded through the clauses as the compiler pushes to it. -/
namespace Axonyx.Core.Sql

inductive AxSqlDialect where
  | postgres
  | mySql
  | sqlite
  deriving DecidableEq, Repr

def AxSqlDialect.quoteIdent : AxSqlDialect → String → String
  | .postgres, ident | .sqlite, ident => "\"" ++ ident ++ "\""
  | .mySql, ident => "\x60" ++ ident ++ "\x60"

def AxSqlDialect.placeholder : AxSqlDialect → Nat → String
  | .postgres, index => "$" ++ toString index
  | .mySql, _ | .sqlite, _ => "?"

structure AxRustExpr where
  code : String
  deriving DecidableEq, Repr

structure AxSqlParam where
  index : Nat
  value : AxRustExpr
  deriving DecidableEq, Repr

/-- `AxSqlQuery` and `AxSqlMutation` have the same fields. -/
structure AxSqlStatement where
  sql : String
  params : List AxSqlParam
  deriving DecidableEq, Repr

inductive AxSqlCompileError where
  | emptyCollection
  | rawSqlRuntimeOnly
  | invalidIdentifier (ident : String)
  | ambiguousJoinCollection (collection : String)
  | emptyJoinColumns (collection : String)
  | duplicateJoinColumns (collection : String)
  | unknownQueryQualifier (field qualifier : String)
  | emptyMutationFields
  | emptyDeleteFilters
  | nonLiteralListFilter
  deriving DecidableEq, Repr

abbrev Compiled := Except AxSqlCompileError

section Plans

structure AxQueryJoinColumnPlan where
  source : String
  target : String

structure AxQueryJoinPlan where
  collection : String
  columns : List AxQueryJoinColumnPlan

inductive AxQuerySourcePlan where
  | stream (collection : String)
  | contentCollection (collection : String)
  | rawSql (sql : String) (params : List AxRustExpr)

inductive AxQueryFilterOpPlan where
  | eq
  | ne
  | «in»
  | notIn
  | isNull
  | isNotNull
  deriving DecidableEq, Repr

structure AxQueryFilterPlan where
  field : String
  op : AxQueryFilterOpPlan
  value : AxRustExpr

inductive AxQueryOrderDirectionPlan where
  | asc
  | desc
  deriving DecidableEq, Repr

structure AxQueryOrderPlan where
  field : String
  direction : AxQueryOrderDirectionPlan

structure AxQueryPlan where
  source : AxQuerySourcePlan
  joins : List AxQueryJoinPlan
  filters : List AxQueryFilterPlan
  orders : List AxQueryOrderPlan
  limit : Option Nat
  offset : Option Nat

structure AxAssignmentPlan where
  name : String
  value : AxRustExpr

inductive AxSqlFilterContext where
  | query
  | mutation
  deriving DecidableEq, Repr

end Plans

section Lists

structure Scan where
  done : List (List Char)
  current : List Char
  depth : Nat
  inString : Option Char
  escaped : Bool

/-- One character of `split_top_level`; the pieces are kept newest first, untrimmed. -/
def splitChar (delimiter : Char) (scan : Scan) (ch : Char) : Scan :=
  let keep : Scan := { scan with current := scan.current ++ [ch] }
  match scan.inString with
  | some quote =>
    if scan.escaped then { keep with escaped := false }
    else if ch = '\\' then { keep with escaped := true }
    else if ch = quote then { keep with inString := none }
    else keep
  | none =>
    if ch = '"' ∨ ch = '\'' then { keep with inString := some ch, escaped := false }
    else if ch = '(' ∨ ch = '[' ∨ ch = '{' then { keep with depth := scan.depth + 1 }
    else if ch = ')' ∨ ch = ']' ∨ ch = '}' then { keep with depth := scan.depth - 1 }
    else if ch = delimiter ∧ scan.depth = 0 then
      { scan with done := scan.current :: scan.done, current := [] }
    else keep

def splitTopLevel (input : String) (delimiter : Char) : List String :=
  let scan := input.toList.foldl (splitChar delimiter) ⟨[], [], 0, none, false⟩
  (scan.current :: scan.done).reverse.map fun piece => Text.trim (.ofList piece)

def filterListValues (value : AxRustExpr) : Option (List AxRustExpr) :=
  let code := Text.trim value.code
  let bracketed (opening : String) : Option String :=
    (Text.stripPrefix code opening).bind fun rest => Text.stripSuffix rest "]"
  let inner := match bracketed "vec![" with
    | some inner => some inner
    | none => bracketed "["
  match inner with
  | none => none
  | some inner =>
    if (Text.trim inner).isEmpty then some []
    else some ((splitTopLevel inner ',').map fun value => ⟨Text.trim value⟩)

end Lists

section Compile

def identChar (c : Char) : Bool := c.isAlphanum || c = '_'

def validateIdent (ident : String) : Compiled Unit :=
  let trimmed := Text.trim ident
  if trimmed.isEmpty then .error .emptyCollection
  else if trimmed.toList.all identChar then .ok ()
  else .error (.invalidIdentifier ident)

variable (dialect : AxSqlDialect)

def pushSqlParam (params : List AxSqlParam) (value : AxRustExpr) : String × List AxSqlParam :=
  (dialect.placeholder (params.length + 1), params ++ [⟨params.length + 1, value⟩])

def pushSqlParams : List AxRustExpr → List AxSqlParam → List String × List AxSqlParam
  | [], params => ([], params)
  | value :: rest, params =>
    let (placeholder, params) := pushSqlParam dialect params value
    let (placeholders, params) := pushSqlParams rest params
    (placeholder :: placeholders, params)

def compileFilterClauseWithField (filter : AxQueryFilterPlan) (field : String)
    (params : List AxSqlParam) (context : AxSqlFilterContext) :
    Compiled (String × List AxSqlParam) :=
  match filter.op with
  | .eq =>
    let (placeholder, params) := pushSqlParam dialect params filter.value
    .ok (field ++ " " ++ "=" ++ " " ++ placeholder, params)
  | .ne =>
    let (placeholder, params) := pushSqlParam dialect params filter.value
    .ok (field ++ " " ++ "!=" ++ " " ++ placeholder, params)
  | .in =>
    match filterListValues filter.value with
    | none => .error .nonLiteralListFilter
    | some [] => .ok ("1 = 0", params)
    | some values =>
      let (placeholders, params) := pushSqlParams dialect values params
      .ok (field ++ " " ++ "in" ++ " (" ++ Text.join ", " placeholders ++ ")", params)
  | .notIn =>
    match filterListValues filter.value with
    | none => .error .nonLiteralListFilter
    | some [] => .ok (if context = .query then "1 = 1" else "1 = 0", params)
    | some values =>
      let (placeholders, params) := pushSqlParams dialect values params
      .ok (field ++ " " ++ "not in" ++ " (" ++ Text.join ", " placeholders ++ ")", params)
  | .isNull => .ok (field ++ " is null", params)
  | .isNotNull => .ok (field ++ " is not null", params)

def compileFilterClause (filter : AxQueryFilterPlan) (params : List AxSqlParam)
    (context : AxSqlFilterContext) : Compiled (String × List AxSqlParam) := do
  validateIdent filter.field
  compileFilterClauseWithField dialect filter (dialect.quoteIdent filter.field) params context

def compileQueryField (field source : String) (qualifiers : List String) (qualifySource : Bool) :
    Compiled String :=
  match Text.splitOnce field "." with
  | some (qualifier, column) => do
    validateIdent qualifier
    validateIdent column
    if qualifier ∈ qualifiers then
      return dialect.quoteIdent qualifier ++ "." ++ dialect.quoteIdent column
    else throw (.unknownQueryQualifier field qualifier)
  | none => do
    validateIdent field
    return if qualifySource then dialect.quoteIdent source ++ "." ++ dialect.quoteIdent field
      else dialect.quoteIdent field

/-- The clauses of a filter list, one compiled after the other. -/
def compileClauses (compileOne : AxQueryFilterPlan → List AxSqlParam →
    Compiled (String × List AxSqlParam)) :
    List AxQueryFilterPlan → List AxSqlParam → Compiled (List String × List AxSqlParam)
  | [], params => .ok ([], params)
  | filter :: rest, params => do
    let (clause, params) ← compileOne filter params
    let (clauses, params) ← compileClauses compileOne rest params
    return (clause :: clauses, params)

def validateJoinColumns (collection : String) :
    List String → List String → List AxQueryJoinColumnPlan → Compiled Unit
  | _, _, [] => .ok ()
  | sources, targets, column :: rest => do
    validateIdent column.source
    validateIdent column.target
    if column.source ∈ sources ∨ column.target ∈ targets then
      throw (.duplicateJoinColumns collection)
    else
      validateJoinColumns collection (column.source :: sources) (column.target :: targets) rest

/-- The join checks; the result is the set of collections a field may name. -/
def validateJoins : List String → List AxQueryJoinPlan → Compiled (List String)
  | qualifiers, [] => .ok qualifiers
  | qualifiers, join :: rest => do
    validateIdent join.collection
    if join.collection ∈ qualifiers then throw (.ambiguousJoinCollection join.collection)
    else if join.columns.isEmpty then throw (.emptyJoinColumns join.collection)
    else
      validateJoinColumns join.collection [] [] join.columns
      validateJoins (join.collection :: qualifiers) rest

def joinColumnClause (collection : String) (join : AxQueryJoinPlan)
    (column : AxQueryJoinColumnPlan) : String :=
  dialect.quoteIdent collection ++ "." ++ dialect.quoteIdent column.source ++ " = " ++
    dialect.quoteIdent join.collection ++ "." ++ dialect.quoteIdent column.target

def joinClause (collection : String) (join : AxQueryJoinPlan) : String :=
  " inner join " ++ dialect.quoteIdent join.collection ++ " on " ++
    Text.join " and " (join.columns.map (joinColumnClause dialect collection join))

def orderDirectionName : AxQueryOrderDirectionPlan → String
  | .asc => "asc"
  | .desc => "desc"

def selectHead (collection : String) (joins : List AxQueryJoinPlan) : String :=
  if joins.isEmpty then "select * from " ++ dialect.quoteIdent collection
  else "select " ++ dialect.quoteIdent collection ++ ".* from " ++ dialect.quoteIdent collection

def compileOrders (compileField : String → Compiled String) :
    List AxQueryOrderPlan → Compiled (List String)
  | [] => .ok []
  | order :: rest => do
    let field ← compileField order.field
    let clauses ← compileOrders compileField rest
    return (field ++ " " ++ orderDirectionName order.direction) :: clauses

def queryCollection : AxQuerySourcePlan → Compiled String
  | .stream collection => .ok collection
  | .contentCollection collection => .ok collection
  | .rawSql _ _ => .error .rawSqlRuntimeOnly

def whereClause (clauses : List String) : String :=
  if clauses.isEmpty then "" else " where " ++ Text.join " and " clauses

def orderByClause (clauses : List String) : String :=
  if clauses.isEmpty then "" else " order by " ++ Text.join ", " clauses

def numberClause (keyword : String) : Option Nat → String
  | none => ""
  | some n => keyword ++ toString n

def compileQueryPlanToSql (query : AxQueryPlan) : Compiled AxSqlStatement := do
  let collection ← queryCollection query.source
  validateIdent collection
  let qualifiers ← validateJoins [collection] query.joins
  let field := fun name =>
    compileQueryField dialect name collection qualifiers (!query.joins.isEmpty)
  let (filters, params) ← compileClauses (fun filter params => do
    let name ← field filter.field
    compileFilterClauseWithField dialect filter name params .query) query.filters []
  let orders ← compileOrders field query.orders
  let sql := selectHead dialect collection query.joins ++
    Text.join "" (query.joins.map (joinClause dialect collection)) ++ whereClause filters ++
    orderByClause orders ++ numberClause " limit " query.limit ++
    numberClause " offset " query.offset
  return ⟨sql, params⟩

/-- Each assigned name is checked before its value is pushed. -/
def pushAssignments : List AxAssignmentPlan → List AxSqlParam →
    Compiled (List (String × String) × List AxSqlParam)
  | [], params => .ok ([], params)
  | field :: rest, params => do
    validateIdent field.name
    let (placeholder, params) := pushSqlParam dialect params field.value
    let (columns, params) ← pushAssignments rest params
    return ((dialect.quoteIdent field.name, placeholder) :: columns, params)

def compileInsertPlanToSql (collection : String) (fields : List AxAssignmentPlan) :
    Compiled AxSqlStatement := do
  validateIdent collection
  if fields.isEmpty then throw .emptyMutationFields
  else
    let (columns, params) ← pushAssignments dialect fields []
    return ⟨"insert into " ++ dialect.quoteIdent collection ++ " (" ++
      Text.join ", " (columns.map Prod.fst) ++ ") values (" ++
      Text.join ", " (columns.map Prod.snd) ++ ")", params⟩

def compileUpdatePlanToSql (collection : String) (fields : List AxAssignmentPlan)
    (filters : List AxQueryFilterPlan) : Compiled AxSqlStatement := do
  validateIdent collection
  if fields.isEmpty then throw .emptyMutationFields
  else
    let (columns, params) ← pushAssignments dialect fields []
    let (clauses, params) ← compileClauses (fun filter params =>
      compileFilterClause dialect filter params .mutation) filters params
    return ⟨"update " ++ dialect.quoteIdent collection ++ " set " ++
      Text.join ", " (columns.map fun column => column.1 ++ " = " ++ column.2) ++
      whereClause clauses, params⟩

def compileDeletePlanToSql (collection : String) (filters : List AxQueryFilterPlan) :
    Compiled AxSqlStatement := do
  validateIdent collection
  if filters.isEmpty then throw .emptyDeleteFilters
  else
    let (clauses, params) ← compileClauses (fun filter params =>
      compileFilterClause dialect filter params .mutation) filters []
    return ⟨"delete from " ++ dialect.quoteIdent collection ++ " where " ++
      Text.join " and " clauses, params⟩

end Compile

end Axonyx.Core.Sql
