import Axonyx.Core.SqlLayout

/-! The four statements: each compiles exactly when its names and lists pass the checks, and
then to the text and the parameters of its layout. -/
namespace Axonyx.Core.Sql

open Template
open Outcome (bind_ok bind_unit_ok)

inductive Statement where
  | query (plan : AxQueryPlan)
  | insert (collection : String) (fields : List AxAssignmentPlan)
  | update (collection : String) (fields : List AxAssignmentPlan) (filters : List AxQueryFilterPlan)
  | delete (collection : String) (filters : List AxQueryFilterPlan)

namespace Statement

def compile (dialect : AxSqlDialect) : Statement → Compiled AxSqlStatement
  | .query plan => compileQueryPlanToSql dialect plan
  | .insert collection fields => compileInsertPlanToSql dialect collection fields
  | .update collection fields filters => compileUpdatePlanToSql dialect collection fields filters
  | .delete collection filters => compileDeletePlanToSql dialect collection filters

def sourceName : AxQuerySourcePlan → String
  | .stream collection | .contentCollection collection => collection
  | .rawSql sql _ => sql

def layout : Statement → Layout
  | .query plan => queryLayout (sourceName plan.source) plan
  | .insert collection fields => insertLayout collection fields
  | .update collection fields filters => updateLayout collection fields filters
  | .delete collection filters => deleteLayout collection filters

def QueryChecked (plan : AxQueryPlan) : Prop :=
  (∀ sql params, plan.source ≠ .rawSql sql params) ∧
    validateIdent (sourceName plan.source) = .ok () ∧
    ∃ qualifiers, validateJoins [sourceName plan.source] plan.joins = .ok qualifiers ∧
      (∀ filter ∈ plan.filters, FieldChecked qualifiers filter.field ∧ FilterChecked filter) ∧
      ∀ order ∈ plan.orders, FieldChecked qualifiers order.field

def FieldsChecked (fields : List AxAssignmentPlan) : Prop :=
  fields ≠ [] ∧ ∀ field ∈ fields, validateIdent field.name = .ok ()

def MutationChecked (filters : List AxQueryFilterPlan) : Prop :=
  ∀ filter ∈ filters, validateIdent filter.field = .ok () ∧ FilterChecked filter

def Checked : Statement → Prop
  | .query plan => QueryChecked plan
  | .insert collection fields => validateIdent collection = .ok () ∧ FieldsChecked fields
  | .update collection fields filters =>
    validateIdent collection = .ok () ∧ FieldsChecked fields ∧ MutationChecked filters
  | .delete collection filters =>
    validateIdent collection = .ok () ∧ filters ≠ [] ∧ MutationChecked filters

def output (dialect : AxSqlDialect) (layout : Layout) : AxSqlStatement :=
  ⟨(emit dialect [] layout).1, (emit dialect [] layout).2⟩

end Statement

section Compiler

variable (dialect : AxSqlDialect)

theorem emit_where (params : List AxSqlParam) (clauses : List Layout) :
    emit dialect params (whereLayout clauses) =
      (whereClause (emitAll dialect params clauses).1, (emitAll dialect params clauses).2) := by
  cases clauses with
  | nil => simp [whereLayout, whereClause, emitAll]
  | cons clause rest =>
    have some_text : (emitAll dialect params (clause :: rest)).1.isEmpty = false := rfl
    simp [whereLayout, whereClause, some_text, emit_text, emit_join]

theorem emitAll_static {layouts : List Layout} (static : ∀ layout ∈ layouts, holes layout = [])
    (params : List AxSqlParam) :
    emitAll dialect params layouts = (layouts.map (written dialect), params) := by
  induction layouts with
  | nil => rfl
  | cons layout rest ih =>
    have later := ih fun other member => static other (List.mem_cons_of_mem _ member)
    simp [emitAll, emit_written dialect (static layout List.mem_cons_self), later]

/-- The names and placeholders of assigned columns. -/
def assigned : List AxAssignmentPlan → List AxSqlParam → List (String × String) × List AxSqlParam
  | [], params => ([], params)
  | field :: rest, params =>
    let (placeholder, params) := pushSqlParam dialect params field.value
    let (columns, params) := assigned rest params
    ((dialect.quoteIdent field.name, placeholder) :: columns, params)

theorem pushAssignments_ok {fields : List AxAssignmentPlan} {params : List AxSqlParam}
    {result : List (String × String) × List AxSqlParam} :
    pushAssignments dialect fields params = .ok result ↔
      (∀ field ∈ fields, validateIdent field.name = .ok ()) ∧
        result = assigned dialect fields params := by
  induction fields generalizing params result with
  | nil => simp [pushAssignments, assigned, eq_comm]
  | cons field rest ih =>
    simp only [pushAssignments, bind_ok, ih, List.forall_mem_cons, assigned]
    constructor
    · rintro ⟨_, first, _, ⟨later, rfl⟩, same⟩
      exact ⟨⟨first, later⟩, (Except.ok.inj same).symm⟩
    · rintro ⟨⟨first, later⟩, rfl⟩
      exact ⟨(), first, _, ⟨later, rfl⟩, rfl⟩

theorem assigned_names (fields : List AxAssignmentPlan) (params : List AxSqlParam) :
    (assigned dialect fields params).1.map Prod.fst =
      fields.map fun field => dialect.quoteIdent field.name := by
  induction fields generalizing params with
  | nil => rfl
  | cons field rest ih => simp [assigned, ih]

theorem assigned_holes (fields : List AxAssignmentPlan) (params : List AxSqlParam) :
    ((assigned dialect fields params).1.map Prod.snd, (assigned dialect fields params).2) =
      emitAll dialect params (fields.map fun field => [.hole field.value]) := by
  induction fields generalizing params with
  | nil => rfl
  | cons field rest ih => simp [assigned, emitAll, emit_hole, ← ih]

theorem assigned_pairs (fields : List AxAssignmentPlan) (params : List AxSqlParam) :
    ((assigned dialect fields params).1.map fun column => column.1 ++ " = " ++ column.2,
      (assigned dialect fields params).2) =
      emitAll dialect params
        (fields.map fun field => [.name field.name, .text " = ", .hole field.value]) := by
  induction fields generalizing params with
  | nil => rfl
  | cons field rest ih =>
    simp [assigned, emitAll, emit_name, emit_text, emit_hole, String.append_assoc, ← ih]

theorem selectHead_eq (collection : String) (joins : List AxQueryJoinPlan) :
    selectHead dialect collection joins = written dialect (selectLayout collection joins) := by
  unfold selectHead selectLayout written
  cases joins.isEmpty <;> simp [emit_name, emit_text, String.append_assoc]

theorem holes_static (separator : String) {parts : List Layout} (static : ∀ part ∈ parts, holes part = []) :
    holes (joinPieces separator parts) = [] := by
  rw [holes_joinPieces, List.flatMap_eq_nil_iff]
  exact static

theorem holes_joinLayout (collection : String) (join : AxQueryJoinPlan) :
    holes (joinLayout collection join) = [] := by
  have columns : ∀ part ∈ join.columns.map (joinColumnLayout collection join), holes part = [] := by
    intro part member
    obtain ⟨column, -, rfl⟩ := List.mem_map.mp member
    rfl
  simp [joinLayout, holes, holes_static " and " columns]

theorem joinClause_eq (collection : String) (join : AxQueryJoinPlan) :
    joinClause dialect collection join = written dialect (joinLayout collection join) := by
  have column (column : AxQueryJoinColumnPlan) : joinColumnClause dialect collection join column =
      written dialect (joinColumnLayout collection join column) := by
    simp [joinColumnClause, joinColumnLayout, written, emit_name, emit_text, String.append_assoc]
  have static : ∀ part ∈ join.columns.map (joinColumnLayout collection join), holes part = [] := by
    intro part member
    obtain ⟨column, -, rfl⟩ := List.mem_map.mp member
    rfl
  have columns : join.columns.map (joinColumnClause dialect collection join) =
      (join.columns.map (joinColumnLayout collection join)).map (written dialect) := by
    simp [column]
  rw [joinClause, columns, written, joinLayout]
  simp [emit_name, emit_text, emit_join, emitAll_static dialect static, String.append_assoc]

theorem joins_eq (collection : String) (joins : List AxQueryJoinPlan) :
    Text.join "" (joins.map (joinClause dialect collection)) =
      written dialect (joins.flatMap (joinLayout collection)) := by
  induction joins with
  | nil => simp [written, Text.join]
  | cons join rest ih =>
    rw [List.flatMap_cons, written, emit_written_append dialect (holes_joinLayout collection join),
      ← written, ← ih, List.map_cons, joinClause_eq]
    cases rest <;> simp [Text.join]

theorem orders_eq (layouts : List Layout) (static : ∀ layout ∈ layouts, holes layout = []) :
    orderByClause (layouts.map (written dialect)) = written dialect (orderByLayout layouts) := by
  cases layouts with
  | nil => simp [orderByClause, orderByLayout, written]
  | cons layout rest =>
    simp [orderByClause, orderByLayout, written, emit_text, emit_join,
      emitAll_static dialect static]

theorem number_eq (keyword : String) (number : Option Nat) :
    numberClause keyword number = written dialect (numberLayout keyword number) := by
  cases number <;> simp [numberClause, numberLayout, written, emit_text]

theorem compileInsert_ok {collection : String} {fields : List AxAssignmentPlan}
    {result : AxSqlStatement} :
    compileInsertPlanToSql dialect collection fields = .ok result ↔
      (validateIdent collection = .ok () ∧ Statement.FieldsChecked fields) ∧
        result = Statement.output dialect (insertLayout collection fields) := by
  have text (params : List AxSqlParam) :
      emit dialect params (insertLayout collection fields) =
        ("insert into " ++ dialect.quoteIdent collection ++ " (" ++
          Text.join ", " ((assigned dialect fields params).1.map Prod.fst) ++ ") values (" ++
          Text.join ", " ((assigned dialect fields params).1.map Prod.snd) ++ ")",
          (assigned dialect fields params).2) := by
    have static : ∀ layout ∈ fields.map fun field => ([.name field.name] : Layout),
        holes layout = [] := by
      intro layout member
      obtain ⟨field, -, rfl⟩ := List.mem_map.mp member
      rfl
    have names : (fields.map fun field => ([.name field.name] : Layout)).map (written dialect) =
        fields.map fun field => dialect.quoteIdent field.name := by
      simp [written, emit_name]
    have values := assigned_holes dialect fields params
    simp only [Prod.ext_iff] at values
    simp [insertLayout, emit_text, emit_name, emit_append, emit_join, emitAll_static dialect static,
      names, assigned_names, ← values.1, ← values.2, String.append_assoc]
  rw [compileInsertPlanToSql, bind_unit_ok, Statement.FieldsChecked, and_assoc]
  refine and_congr_right fun _ => ?_
  cases fields with
  | nil => simp [throw, throwThe, MonadExceptOf.throw]
  | cons field rest =>
    simp only [List.isEmpty_cons, Bool.false_eq_true, ↓reduceIte, bind_ok, pushAssignments_ok,
      Statement.output, text]
    constructor
    · rintro ⟨_, ⟨names, rfl⟩, same⟩
      exact ⟨⟨List.cons_ne_nil _ _, names⟩, (Except.ok.inj same).symm⟩
    · rintro ⟨⟨-, names⟩, rfl⟩
      exact ⟨_, ⟨names, rfl⟩, rfl⟩

theorem mutationClauses_ok {filters : List AxQueryFilterPlan} {params : List AxSqlParam}
    {result : List String × List AxSqlParam} :
    compileClauses (fun filter params => compileFilterClause dialect filter params .mutation)
        filters params = .ok result ↔
      Statement.MutationChecked filters ∧
        result = emitAll dialect params (mutationWhere filters) := by
  unfold Statement.MutationChecked mutationWhere
  refine compileClauses_ok dialect fun filter params result => ?_
  exact compileFilterClause_ok dialect

theorem compileUpdate_ok {collection : String} {fields : List AxAssignmentPlan}
    {filters : List AxQueryFilterPlan} {result : AxSqlStatement} :
    compileUpdatePlanToSql dialect collection fields filters = .ok result ↔
      (validateIdent collection = .ok () ∧ Statement.FieldsChecked fields ∧
          Statement.MutationChecked filters) ∧
        result = Statement.output dialect (updateLayout collection fields filters) := by
  have text (params : List AxSqlParam) :
      emit dialect params (updateLayout collection fields filters) =
        ("update " ++ dialect.quoteIdent collection ++ " set " ++
          Text.join ", " ((assigned dialect fields params).1.map fun column =>
            column.1 ++ " = " ++ column.2) ++
          whereClause (emitAll dialect (assigned dialect fields params).2 (mutationWhere filters)).1,
          (emitAll dialect (assigned dialect fields params).2 (mutationWhere filters)).2) := by
    have pairs := assigned_pairs dialect fields params
    simp only [Prod.ext_iff] at pairs
    simp [updateLayout, emit_text, emit_name, emit_append, emit_join, emit_where, ← pairs.1,
      ← pairs.2, String.append_assoc]
  rw [compileUpdatePlanToSql, bind_unit_ok, Statement.FieldsChecked, and_assoc]
  refine and_congr_right fun _ => ?_
  cases fields with
  | nil => simp [throw, throwThe, MonadExceptOf.throw]
  | cons field rest =>
    simp only [List.isEmpty_cons, Bool.false_eq_true, ↓reduceIte, bind_ok, pushAssignments_ok,
      mutationClauses_ok, Statement.output, text]
    constructor
    · rintro ⟨_, ⟨names, rfl⟩, _, ⟨checked, rfl⟩, same⟩
      exact ⟨⟨⟨List.cons_ne_nil _ _, names⟩, checked⟩, (Except.ok.inj same).symm⟩
    · rintro ⟨⟨⟨-, names⟩, checked⟩, rfl⟩
      exact ⟨_, ⟨names, rfl⟩, _, ⟨checked, rfl⟩, rfl⟩

theorem compileDelete_ok {collection : String} {filters : List AxQueryFilterPlan}
    {result : AxSqlStatement} :
    compileDeletePlanToSql dialect collection filters = .ok result ↔
      (validateIdent collection = .ok () ∧ filters ≠ [] ∧ Statement.MutationChecked filters) ∧
        result = Statement.output dialect (deleteLayout collection filters) := by
  have text (params : List AxSqlParam) : emit dialect params (deleteLayout collection filters) =
      ("delete from " ++ dialect.quoteIdent collection ++ " where " ++
        Text.join " and " (emitAll dialect params (mutationWhere filters)).1,
        (emitAll dialect params (mutationWhere filters)).2) := by
    simp [deleteLayout, emit_text, emit_name, emit_join, String.append_assoc]
  rw [compileDeletePlanToSql, bind_unit_ok, and_assoc]
  refine and_congr_right fun _ => ?_
  cases filters with
  | nil => simp [throw, throwThe, MonadExceptOf.throw]
  | cons filter rest =>
    simp only [List.isEmpty_cons, Bool.false_eq_true, ↓reduceIte, bind_ok, mutationClauses_ok,
      Statement.output, text]
    constructor
    · rintro ⟨_, ⟨checked, rfl⟩, same⟩
      exact ⟨⟨List.cons_ne_nil _ _, checked⟩, (Except.ok.inj same).symm⟩
    · rintro ⟨⟨-, checked⟩, rfl⟩
      exact ⟨_, ⟨checked, rfl⟩, rfl⟩

theorem queryClauses_ok {collection : String} {qualifiers : List String} {qualifySource : Bool}
    {filters : List AxQueryFilterPlan} {params : List AxSqlParam}
    {result : List String × List AxSqlParam} :
    compileClauses (fun filter params => do
        let name ← compileQueryField dialect filter.field collection qualifiers qualifySource
        compileFilterClauseWithField dialect filter name params .query) filters params =
        .ok result ↔
      (∀ filter ∈ filters, FieldChecked qualifiers filter.field ∧ FilterChecked filter) ∧
        result = emitAll dialect params (filters.map fun filter =>
          filterLayout .query filter (fieldLayout filter.field collection qualifySource)) := by
  refine compileClauses_ok dialect fun filter params result => ?_
  simp only [bind_ok, compileQueryField_ok]
  constructor
  · rintro ⟨_, ⟨field, rfl⟩, compiled⟩
    obtain ⟨list, rfl⟩ := (compileFilter_ok dialect (holes_fieldLayout _ _ _)).mp compiled
    exact ⟨⟨field, list⟩, rfl⟩
  · rintro ⟨⟨field, list⟩, rfl⟩
    exact ⟨_, ⟨field, rfl⟩, (compileFilter_ok dialect (holes_fieldLayout _ _ _)).mpr ⟨list, rfl⟩⟩

theorem queryOrders_ok {collection : String} {qualifiers : List String} {qualifySource : Bool}
    {orders : List AxQueryOrderPlan} {result : List String} :
    compileOrders (fun name =>
        compileQueryField dialect name collection qualifiers qualifySource) orders = .ok result ↔
      (∀ order ∈ orders, FieldChecked qualifiers order.field) ∧
        result = orders.map fun order => written dialect
          (orderLayout (fun name => fieldLayout name collection qualifySource) order) :=
  compileOrders_ok dialect (fun _ _ => compileQueryField_ok dialect)
    fun _ => holes_fieldLayout _ _ _

theorem holes_orderLayout (collection : String) (qualifySource : Bool) (order : AxQueryOrderPlan) :
    holes (orderLayout (fun name => fieldLayout name collection qualifySource) order) = [] := by
  rw [orderLayout, holes_append, holes_fieldLayout]
  rfl

theorem holes_selectLayout (collection : String) (joins : List AxQueryJoinPlan) :
    holes (selectLayout collection joins) = [] := by
  unfold selectLayout
  cases joins.isEmpty <;> rfl

theorem holes_joins (collection : String) (joins : List AxQueryJoinPlan) :
    holes (joins.flatMap (joinLayout collection)) = [] := by
  induction joins with
  | nil => rfl
  | cons join rest ih => rw [List.flatMap_cons, holes_append, holes_joinLayout, ih, List.append_nil]

theorem static_orders (collection : String) (qualifySource : Bool) (orders : List AxQueryOrderPlan) :
    ∀ layout ∈ orders.map (orderLayout fun name => fieldLayout name collection qualifySource), holes layout = [] := by
  intro layout member
  obtain ⟨order, -, rfl⟩ := List.mem_map.mp member
  exact holes_orderLayout _ _ order

theorem holes_orders (collection : String) (qualifySource : Bool) (orders : List AxQueryOrderPlan) :
    holes (orderByLayout (orders.map (orderLayout fun name => fieldLayout name collection qualifySource))) = [] := by
  unfold orderByLayout
  split
  · rfl
  · exact holes_static ", " (static_orders collection qualifySource orders)

theorem holes_numberLayout (keyword : String) (number : Option Nat) : holes (numberLayout keyword number) = [] := by
  cases number <;> rfl

theorem emit_query (plan : AxQueryPlan) (collection : String) :
    let field := fun name => fieldLayout name collection (!plan.joins.isEmpty)
    let clauses := emitAll dialect [] (plan.filters.map fun filter =>
      filterLayout .query filter (field filter.field))
    emit dialect [] (queryLayout collection plan) =
      (selectHead dialect collection plan.joins ++
        Text.join "" (plan.joins.map (joinClause dialect collection)) ++ whereClause clauses.1 ++
        orderByClause (plan.orders.map fun order => written dialect (orderLayout field order)) ++
        numberClause " limit " plan.limit ++ numberClause " offset " plan.offset, clauses.2) := by
  intro field clauses
  have select := holes_selectLayout collection plan.joins
  have joins := holes_joins collection plan.joins
  have order := static_orders collection (!plan.joins.isEmpty) plan.orders
  have orders := holes_orders collection (!plan.joins.isEmpty) plan.orders
  have number := holes_numberLayout
  have texts : (plan.orders.map fun order => written dialect (orderLayout field order)) =
      (plan.orders.map (orderLayout field)).map (written dialect) := by simp
  have parts : queryLayout collection plan = selectLayout collection plan.joins ++
      (plan.joins.flatMap (joinLayout collection) ++ (whereLayout (plan.filters.map fun filter =>
        filterLayout .query filter (field filter.field)) ++
      (orderByLayout (plan.orders.map (orderLayout field)) ++
        (numberLayout " limit " plan.limit ++ numberLayout " offset " plan.offset)))) := by
    simp only [queryLayout, List.append_assoc, field]
  rw [parts, emit_written_append dialect select, emit_written_append dialect joins, emit_append,
    emit_where, emit_written_append dialect orders, emit_written_append dialect (number _ _),
    emit_written dialect (number _ _), selectHead_eq, joins_eq, texts, orders_eq dialect _ order,
    number_eq dialect, number_eq dialect]
  simp only [String.append_assoc, clauses]

theorem compileQuery_ok {plan : AxQueryPlan} {result : AxSqlStatement} :
    compileQueryPlanToSql dialect plan = .ok result ↔
      Statement.QueryChecked plan ∧
        result = Statement.output dialect (queryLayout (Statement.sourceName plan.source) plan) := by
  have source : (∃ collection, queryCollection plan.source = .ok collection) ↔
      ∀ sql params, plan.source ≠ .rawSql sql params := by
    cases plan.source <;> simp [queryCollection]
  have named {collection : String} (found : queryCollection plan.source = .ok collection) :
      collection = Statement.sourceName plan.source := by
    cases same : plan.source <;> simp_all [queryCollection, Statement.sourceName]
  simp only [compileQueryPlanToSql, bind_ok, queryClauses_ok, queryOrders_ok, Statement.QueryChecked,
    Statement.output, emit_query]
  constructor
  · rintro ⟨collection, found, _, valid, qualifiers, joins, _, ⟨filters, rfl⟩, _, ⟨orders, rfl⟩, same⟩
    obtain rfl := named found
    exact ⟨⟨source.mp ⟨_, found⟩, valid, qualifiers, joins, filters, orders⟩,
      (Except.ok.inj same).symm⟩
  · rintro ⟨⟨stored, valid, qualifiers, joins, filters, orders⟩, rfl⟩
    obtain ⟨collection, found⟩ := source.mpr stored
    obtain rfl := named found
    exact ⟨_, found, (), valid, qualifiers, joins, _, ⟨filters, rfl⟩, _, ⟨orders, rfl⟩, rfl⟩

/-- A statement compiles exactly when its names and lists pass the checks, to its layout. -/
theorem compile_ok {statement : Statement} {result : AxSqlStatement} :
    statement.compile dialect = .ok result ↔
      statement.Checked ∧ result = Statement.output dialect statement.layout := by
  cases statement with
  | query plan => exact compileQuery_ok dialect
  | insert collection fields => exact compileInsert_ok dialect
  | update collection fields filters => exact compileUpdate_ok dialect
  | delete collection filters => exact compileDelete_ok dialect

end Compiler

end Axonyx.Core.Sql
