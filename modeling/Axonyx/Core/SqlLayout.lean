import Axonyx.Core.Sql
import Axonyx.Template

/-! The layout of a plan as a template, with each value where the plan attaches it, and the
proof that the compiler writes this template: its text is the rendered layout and its
parameters are the values of the placeholders in the order in which they are read. -/
namespace Axonyx.Core.Sql

open Template
open Outcome (bind_ok bind_unit_ok)

def AxSqlDialect.style : AxSqlDialect → Style
  | .postgres => ⟨'"', true⟩
  | .mySql => ⟨'\x60', false⟩
  | .sqlite => ⟨'"', false⟩

theorem style_quote (dialect : AxSqlDialect) :
    dialect.style.quote = '"' ∨ dialect.style.quote = '\x60' := by
  cases dialect <;> simp [AxSqlDialect.style]

theorem quoteIdent_eq (dialect : AxSqlDialect) (ident : String) :
    dialect.quoteIdent ident = dialect.style.name ident := by
  cases dialect <;> rfl

theorem placeholder_eq (dialect : AxSqlDialect) (index : Nat) :
    dialect.placeholder index = dialect.style.mark index := by
  cases dialect <;> rfl

abbrev Layout := List (Piece AxRustExpr)

section Emit

def numberParams : Nat → List AxRustExpr → List AxSqlParam
  | _, [] => []
  | index, value :: rest => ⟨index, value⟩ :: numberParams (index + 1) rest

@[simp] theorem numberParams_length (index : Nat) (values : List AxRustExpr) :
    (numberParams index values).length = values.length := by
  induction values generalizing index with
  | nil => rfl
  | cons value rest ih => simp [numberParams, ih]

theorem numberParams_append (index : Nat) (a b : List AxRustExpr) :
    numberParams index (a ++ b) = numberParams index a ++ numberParams (index + a.length) b := by
  induction a generalizing index with
  | nil => rfl
  | cons value rest ih =>
    simp only [List.cons_append, numberParams, ih, List.length_cons]
    rw [Nat.add_assoc, Nat.add_comm 1]

variable (dialect : AxSqlDialect)

/-- Write a layout behind the parameters so far. -/
def emit (params : List AxSqlParam) (layout : Layout) : String × List AxSqlParam :=
  (render dialect.style (params.length + 1) layout,
    params ++ numberParams (params.length + 1) (holes layout))

theorem emit_append (params : List AxSqlParam) (a b : Layout) :
    emit dialect params (a ++ b) =
      ((emit dialect params a).1 ++ (emit dialect (emit dialect params a).2 b).1,
        (emit dialect (emit dialect params a).2 b).2) := by
  simp only [emit, render_append, holes_append, numberParams_append, List.length_append,
    numberParams_length, List.append_assoc]
  rw [Nat.add_right_comm]

theorem emit_static {layout : Layout} (params : List AxSqlParam) (static : holes layout = []) :
    (emit dialect params layout).2 = params := by
  simp [emit, static, numberParams]

theorem emit_text (params : List AxSqlParam) (text : String) (rest : Layout) :
    emit dialect params (.text text :: rest) =
      (text ++ (emit dialect params rest).1, (emit dialect params rest).2) := rfl

theorem emit_name (params : List AxSqlParam) (name : String) (rest : Layout) :
    emit dialect params (.name name :: rest) =
      (dialect.quoteIdent name ++ (emit dialect params rest).1, (emit dialect params rest).2) := by
  rw [quoteIdent_eq]
  rfl

@[simp] theorem emit_nil (params : List AxSqlParam) : emit dialect params [] = ("", params) := by
  simp [emit, render, holes, numberParams]

theorem emit_hole (params : List AxSqlParam) (value : AxRustExpr) (rest : Layout) :
    emit dialect params (.hole value :: rest) =
      ((pushSqlParam dialect params value).1 ++
        (emit dialect (pushSqlParam dialect params value).2 rest).1,
        (emit dialect (pushSqlParam dialect params value).2 rest).2) := by
  simp [emit, render, holes, numberParams, pushSqlParam, placeholder_eq]

/-- Parts written one after the other. -/
def emitAll : List AxSqlParam → List Layout → List String × List AxSqlParam
  | params, [] => ([], params)
  | params, part :: rest =>
    let (text, params) := emit dialect params part
    let (texts, params) := emitAll params rest
    (text :: texts, params)

theorem emit_join (separator : String) (params : List AxSqlParam) (parts : List Layout) :
    emit dialect params (joinPieces separator parts) =
      (Text.join separator (emitAll dialect params parts).1, (emitAll dialect params parts).2) := by
  induction parts generalizing params with
  | nil => simp [joinPieces, emitAll, Text.join]
  | cons part rest ih =>
    cases rest with
    | nil => simp [joinPieces, emitAll, Text.join]
    | cons next rest =>
      rw [joinPieces, emit_append, emit_text, ih]
      · simp [emitAll, Text.join, String.append_assoc]
      · exact List.cons_ne_nil next rest

theorem emitAll_holes (params : List AxSqlParam) (values : List AxRustExpr) :
    emitAll dialect params (values.map fun value => [.hole value]) =
      pushSqlParams dialect values params := by
  induction values generalizing params with
  | nil => rfl
  | cons value rest ih => simp [emitAll, pushSqlParams, emit_hole, ih]

end Emit

section Layouts

def fieldLayout (field source : String) (qualifySource : Bool) : Layout :=
  match Text.splitOnce field "." with
  | some (qualifier, column) => [.name qualifier, .text ".", .name column]
  | none => if qualifySource then [.name source, .text ".", .name field] else [.name field]

def listLayout (field : Layout) (keyword : String) (values : List AxRustExpr) : Layout :=
  field ++ [.text (" " ++ keyword ++ " (")] ++
    joinPieces ", " (values.map fun value => [.hole value]) ++ [.text ")"]

def filterLayout (context : AxSqlFilterContext) (filter : AxQueryFilterPlan) (field : Layout) :
    Layout :=
  match filter.op with
  | .eq => field ++ [.text " = ", .hole filter.value]
  | .ne => field ++ [.text " != ", .hole filter.value]
  | .in =>
    match filterListValues filter.value with
    | none | some [] => [.text "1 = 0"]
    | some values => listLayout field "in" values
  | .notIn =>
    match filterListValues filter.value with
    | none | some [] => [.text (if context = .query then "1 = 1" else "1 = 0")]
    | some values => listLayout field "not in" values
  | .isNull => field ++ [.text " is null"]
  | .isNotNull => field ++ [.text " is not null"]

def whereLayout (clauses : List Layout) : Layout :=
  if clauses.isEmpty then [] else .text " where " :: joinPieces " and " clauses

def orderByLayout (clauses : List Layout) : Layout :=
  if clauses.isEmpty then [] else .text " order by " :: joinPieces ", " clauses

def numberLayout (keyword : String) : Option Nat → Layout
  | none => []
  | some n => [.text (keyword ++ toString n)]

def selectLayout (collection : String) (joins : List AxQueryJoinPlan) : Layout :=
  if joins.isEmpty then [.text "select * from ", .name collection]
  else [.text "select ", .name collection, .text ".* from ", .name collection]

def joinColumnLayout (collection : String) (join : AxQueryJoinPlan)
    (column : AxQueryJoinColumnPlan) : Layout :=
  [.name collection, .text ".", .name column.source, .text " = ", .name join.collection, .text ".",
    .name column.target]

def joinLayout (collection : String) (join : AxQueryJoinPlan) : Layout :=
  [.text " inner join ", .name join.collection, .text " on "] ++
    joinPieces " and " (join.columns.map (joinColumnLayout collection join))

def orderLayout (field : String → Layout) (order : AxQueryOrderPlan) : Layout :=
  field order.field ++ [.text (" " ++ orderDirectionName order.direction)]

def queryLayout (collection : String) (query : AxQueryPlan) : Layout :=
  let field := fun name => fieldLayout name collection (!query.joins.isEmpty)
  selectLayout collection query.joins ++ query.joins.flatMap (joinLayout collection) ++
    whereLayout (query.filters.map fun filter => filterLayout .query filter (field filter.field)) ++
    orderByLayout (query.orders.map (orderLayout field)) ++ numberLayout " limit " query.limit ++
    numberLayout " offset " query.offset

def mutationWhere (filters : List AxQueryFilterPlan) : List Layout :=
  filters.map fun filter => filterLayout .mutation filter [.name filter.field]

def insertLayout (collection : String) (fields : List AxAssignmentPlan) : Layout :=
  [.text "insert into ", .name collection, .text " ("] ++
    joinPieces ", " (fields.map fun field => [.name field.name]) ++ [.text ") values ("] ++
    joinPieces ", " (fields.map fun field => [.hole field.value]) ++ [.text ")"]

def updateLayout (collection : String) (fields : List AxAssignmentPlan)
    (filters : List AxQueryFilterPlan) : Layout :=
  [.text "update ", .name collection, .text " set "] ++
    joinPieces ", " (fields.map fun field => [.name field.name, .text " = ", .hole field.value]) ++
    whereLayout (mutationWhere filters)

def deleteLayout (collection : String) (filters : List AxQueryFilterPlan) : Layout :=
  [.text "delete from ", .name collection, .text " where "] ++ joinPieces " and " (mutationWhere filters)

end Layouts

section Compiler

variable (dialect : AxSqlDialect)

/-- The text of a layout without placeholders. -/
def written (layout : Layout) : String := (emit dialect [] layout).1

theorem emit_written {layout : Layout} (static : holes layout = []) (params : List AxSqlParam) :
    emit dialect params layout = (written dialect layout, params) := by
  have numbers := render_static dialect.style static (params.length + 1) 1
  simp [emit, written, static, numberParams, numbers]

theorem emit_written_append {a : Layout} (static : holes a = []) (params : List AxSqlParam)
    (b : Layout) : emit dialect params (a ++ b) =
      (written dialect a ++ (emit dialect params b).1, (emit dialect params b).2) := by
  rw [emit_append, emit_written dialect static]

theorem holes_fieldLayout (field source : String) (qualifySource : Bool) :
    holes (fieldLayout field source qualifySource) = [] := by
  unfold fieldLayout
  cases Text.splitOnce field "." <;> cases qualifySource <;> rfl

def FieldChecked (qualifiers : List String) (field : String) : Prop :=
  match Text.splitOnce field "." with
  | some (qualifier, column) =>
    validateIdent qualifier = .ok () ∧ validateIdent column = .ok () ∧ qualifier ∈ qualifiers
  | none => validateIdent field = .ok ()

def FilterChecked (filter : AxQueryFilterPlan) : Prop :=
  filter.op = .in ∨ filter.op = .notIn → ∃ values, filterListValues filter.value = some values

theorem compileQueryField_ok {field source text : String} {qualifiers : List String}
    {qualifySource : Bool} :
    compileQueryField dialect field source qualifiers qualifySource = .ok text ↔
      FieldChecked qualifiers field ∧
        text = written dialect (fieldLayout field source qualifySource) := by
  unfold compileQueryField FieldChecked fieldLayout
  cases Text.splitOnce field "." with
  | none =>
    simp only [bind_unit_ok]
    refine and_congr_right fun _ => ?_
    cases qualifySource <;>
      simp [written, emit_name, emit_text, pure, Except.pure, eq_comm, String.append_assoc]
  | some parts =>
    simp only [bind_unit_ok, and_assoc]
    refine and_congr_right fun _ => and_congr_right fun _ => ?_
    by_cases known : parts.1 ∈ qualifiers
    · simp [known, written, emit_name, emit_text, pure, Except.pure, eq_comm, String.append_assoc]
    · simp [known, throw, throwThe, MonadExceptOf.throw]

theorem emit_list {field : Layout} (static : holes field = []) (keyword : String)
    (values : List AxRustExpr) (params : List AxSqlParam) :
    emit dialect params (listLayout field keyword values) =
      (written dialect field ++ " " ++ keyword ++ " (" ++
        Text.join ", " (pushSqlParams dialect values params).1 ++ ")",
        (pushSqlParams dialect values params).2) := by
  simp only [listLayout, List.append_assoc, emit_written_append dialect static]
  simp [emit_text, emit_append, emit_join, emitAll_holes, String.append_assoc]

theorem compileFilter_ok {filter : AxQueryFilterPlan} {field : Layout} {params : List AxSqlParam}
    {context : AxSqlFilterContext} {result : String × List AxSqlParam}
    (static : holes field = []) :
    compileFilterClauseWithField dialect filter (written dialect field) params context =
        .ok result ↔
      FilterChecked filter ∧ result = emit dialect params (filterLayout context filter field) := by
  unfold compileFilterClauseWithField FilterChecked filterLayout
  rcases filter with ⟨name, op, value⟩
  cases op with
  | eq | ne | isNull | isNotNull =>
    simp [emit_written_append dialect static, emit_text, emit_hole, eq_comm, String.append_assoc]
  | «in» =>
    cases found : filterListValues value with
    | none => simp
    | some values =>
      cases values with
      | nil => simp [emit_text, eq_comm]
      | cons value rest => simp [emit_list dialect static, eq_comm]
  | notIn =>
    cases found : filterListValues value with
    | none => simp
    | some values =>
      cases values with
      | nil => simp [emit_text, eq_comm]
      | cons value rest => simp [emit_list dialect static, eq_comm]

theorem compileFilterClause_ok {filter : AxQueryFilterPlan} {params : List AxSqlParam}
    {context : AxSqlFilterContext} {result : String × List AxSqlParam} :
    compileFilterClause dialect filter params context = .ok result ↔
      (validateIdent filter.field = .ok () ∧ FilterChecked filter) ∧
        result = emit dialect params (filterLayout context filter [.name filter.field]) := by
  have name : dialect.quoteIdent filter.field = written dialect [.name filter.field] := by
    simp [written, emit_name]
  rw [compileFilterClause, bind_unit_ok, name, compileFilter_ok dialect rfl, and_assoc]

theorem compileClauses_ok {compileOne : AxQueryFilterPlan → List AxSqlParam →
    Compiled (String × List AxSqlParam)} {checked : AxQueryFilterPlan → Prop}
    {layout : AxQueryFilterPlan → Layout}
    (one : ∀ filter params result, compileOne filter params = .ok result ↔
      checked filter ∧ result = emit dialect params (layout filter))
    {filters : List AxQueryFilterPlan} {params : List AxSqlParam}
    {result : List String × List AxSqlParam} :
    compileClauses compileOne filters params = .ok result ↔
      (∀ filter ∈ filters, checked filter) ∧
        result = emitAll dialect params (filters.map layout) := by
  induction filters generalizing params result with
  | nil => simp [compileClauses, emitAll, eq_comm]
  | cons filter rest ih =>
    simp only [compileClauses, bind_ok, one, ih, List.forall_mem_cons, List.map_cons, emitAll]
    constructor
    · rintro ⟨_, ⟨first, rfl⟩, _, ⟨later, rfl⟩, same⟩
      exact ⟨⟨first, later⟩, (Except.ok.inj same).symm⟩
    · rintro ⟨⟨first, later⟩, rfl⟩
      exact ⟨_, ⟨first, rfl⟩, _, ⟨later, rfl⟩, rfl⟩

theorem compileOrders_ok {compileField : String → Compiled String} {checked : String → Prop}
    {field : String → Layout}
    (one : ∀ name text, compileField name = .ok text ↔
      checked name ∧ text = written dialect (field name))
    (static : ∀ name, holes (field name) = []) {orders : List AxQueryOrderPlan}
    {result : List String} :
    compileOrders compileField orders = .ok result ↔
      (∀ order ∈ orders, checked order.field) ∧
        result = orders.map fun order => written dialect (orderLayout field order) := by
  have text (order : AxQueryOrderPlan) : written dialect (orderLayout field order) =
      written dialect (field order.field) ++ " " ++ orderDirectionName order.direction := by
    rw [orderLayout, written, emit_written_append dialect (static _)]
    simp [emit_text, String.append_assoc]
  induction orders generalizing result with
  | nil => simp [compileOrders, eq_comm]
  | cons order rest ih =>
    simp only [compileOrders, bind_ok, one, ih, List.forall_mem_cons, List.map_cons, text]
    constructor
    · rintro ⟨_, ⟨first, rfl⟩, _, ⟨later, rfl⟩, same⟩
      exact ⟨⟨first, later⟩, (Except.ok.inj same).symm⟩
    · rintro ⟨⟨first, later⟩, rfl⟩
      exact ⟨_, ⟨first, rfl⟩, _, ⟨later, rfl⟩, rfl⟩

end Compiler

end Axonyx.Core.Sql
