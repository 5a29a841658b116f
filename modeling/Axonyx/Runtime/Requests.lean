import Axonyx.Core.SqlValues
import Axonyx.Core.SqlSafety

/-! Requests of the runtime on their way to the driver. Their JSON values travel as the code of
plan expressions and are parsed again from it for the parameters of the statement. -/
namespace Axonyx.Runtime

open Axonyx.Core Axonyx.Core.Sql

section Requests

inductive AxQueryFilterOp where
  | eq
  | ne
  | «in»
  | notIn
  | isNull
  | isNotNull
  deriving DecidableEq, Repr

structure AxQueryFilterRequest where
  field : String
  op : AxQueryFilterOp
  value : Json

structure AxQueryJoinColumnRequest where
  source : String
  target : String

structure AxQueryJoinRequest where
  collection : String
  columns : List AxQueryJoinColumnRequest

inductive AxQueryOrderDirection where
  | asc
  | desc
  deriving DecidableEq, Repr

structure AxQueryOrderRequest where
  field : String
  direction : AxQueryOrderDirection

structure AxQueryRequest where
  collection : String
  joins : List AxQueryJoinRequest
  filters : List AxQueryFilterRequest
  orders : List AxQueryOrderRequest
  limit : Option UInt32
  offset : Option UInt32

/-- The requests that are compiled to SQL; the fields are in the order of their map. -/
inductive AxSqlRequest where
  | query (request : AxQueryRequest)
  | insert (collection : String) (fields : List (String × Json))
  | update (collection : String) (fields : List (String × Json)) (filters : List AxQueryFilterRequest)
  | delete (collection : String) (filters : List AxQueryFilterRequest)

end Requests

section Plans

def jsonValueToExpr (value : Json) : AxRustExpr := ⟨value.text⟩

def fieldsToAssignmentPlans (fields : List (String × Json)) : List AxAssignmentPlan :=
  fields.map fun field => ⟨field.1, jsonValueToExpr field.2⟩

def queryFilterOpToPlan : AxQueryFilterOp → AxQueryFilterOpPlan
  | .eq => .eq
  | .ne => .ne
  | .in => .in
  | .notIn => .notIn
  | .isNull => .isNull
  | .isNotNull => .isNotNull

def queryFiltersToPlan (filters : List AxQueryFilterRequest) : List AxQueryFilterPlan :=
  filters.map fun filter => ⟨filter.field, queryFilterOpToPlan filter.op, jsonValueToExpr filter.value⟩

def queryRequestToPlan (request : AxQueryRequest) : AxQueryPlan where
  source := .stream request.collection
  joins := request.joins.map fun join =>
    ⟨join.collection, join.columns.map fun column => ⟨column.source, column.target⟩⟩
  filters := queryFiltersToPlan request.filters
  orders := request.orders.map fun order => ⟨order.field, match order.direction with
    | .asc => .asc
    | .desc => .desc⟩
  limit := request.limit.map UInt32.toNat
  offset := request.offset.map UInt32.toNat

def AxSqlRequest.plan : AxSqlRequest → Statement
  | .query request => .query (queryRequestToPlan request)
  | .insert collection fields => .insert collection (fieldsToAssignmentPlans fields)
  | .update collection fields filters =>
    .update collection (fieldsToAssignmentPlans fields) (queryFiltersToPlan filters)
  | .delete collection filters => .delete collection (queryFiltersToPlan filters)

variable (fromStr : String → Option Json)

/-- A text that is no JSON is a string. -/
def rustExprCodeToJson (code : String) : Json :=
  (fromStr (Text.trim code)).getD (.string (Text.trim code))

def sqlParamsToJson (params : List AxSqlParam) : List Json :=
  params.map fun param => rustExprCodeToJson fromStr param.value.code

end Plans

section Values

/-- The values of a filter: an array's items where the filter asks for a list. -/
def AxQueryFilterRequest.values (filter : AxQueryFilterRequest) : List Json :=
  match filter.op, filter.value with
  | .eq, value | .ne, value => [value]
  | .in, .array items | .notIn, .array items => items
  | .in, _ | .notIn, _ | .isNull, _ | .isNotNull, _ => []

/-- The values of a request: its fields in the order of the columns, then its filters. -/
def AxSqlRequest.values : AxSqlRequest → List Json
  | .query request => request.filters.flatMap AxQueryFilterRequest.values
  | .insert _ fields => fields.map Prod.snd
  | .update _ fields filters => fields.map Prod.snd ++ filters.flatMap AxQueryFilterRequest.values
  | .delete _ filters => filters.flatMap AxQueryFilterRequest.values

theorem filterListValues_json (value : Json) : filterListValues (jsonValueToExpr value) =
    match value with
    | .array items => some (items.map jsonValueToExpr)
    | _ => none := by
  cases value with
  | array items => exact filterListValues_array items
  | _ => exact filterListValues_other fun _ => nofun

theorem filter_values (filter : AxQueryFilterRequest) :
    AxQueryFilterPlan.values ⟨filter.field, queryFilterOpToPlan filter.op, jsonValueToExpr filter.value⟩ =
      filter.values.map jsonValueToExpr := by
  obtain ⟨field, op, value⟩ := filter
  cases op with
  | eq | ne | isNull | isNotNull => rfl
  | «in» | notIn =>
    simp only [queryFilterOpToPlan, AxQueryFilterPlan.values, AxQueryFilterRequest.values, filterListValues_json]
    cases value <;> rfl

theorem filters_values (filters : List AxQueryFilterRequest) :
    (queryFiltersToPlan filters).flatMap AxQueryFilterPlan.values =
      (filters.flatMap AxQueryFilterRequest.values).map jsonValueToExpr := by
  rw [queryFiltersToPlan, List.flatMap_map, List.map_flatMap]
  exact List.flatMap_congr fun filter _ => filter_values filter

theorem fields_values (fields : List (String × Json)) :
    (fieldsToAssignmentPlans fields).map AxAssignmentPlan.value = (fields.map Prod.snd).map jsonValueToExpr := by
  simp [fieldsToAssignmentPlans, Function.comp_def]

/-- The plan of a request binds the texts of the request's values, in their order. -/
theorem plan_values (request : AxSqlRequest) : request.plan.values = request.values.map jsonValueToExpr := by
  cases request with
  | query request => exact filters_values request.filters
  | insert collection fields => exact fields_values fields
  | update collection fields filters =>
    simp only [AxSqlRequest.plan, Statement.values, AxSqlRequest.values, fields_values, filters_values, List.map_append]
  | delete collection filters => exact filters_values filters

variable {fromStr : String → Option Json}

theorem read_value {value : Json} (reads : fromStr value.text = some value) :
    rustExprCodeToJson fromStr (jsonValueToExpr value).code = value := by
  rw [rustExprCodeToJson, jsonValueToExpr, value.trim_text, reads, Option.getD_some]

/-- Where a value is parsed back from its text, the parameters of a compiled request are its values. -/
theorem request_values_unchanged (request : AxSqlRequest) (dialect : AxSqlDialect) {compiled : AxSqlStatement}
    (reads : ∀ value ∈ request.values, fromStr value.text = some value)
    (success : request.plan.compile dialect = .ok compiled) :
    sqlParamsToJson fromStr compiled.params = request.values := by
  obtain ⟨_, rfl⟩ := (compile_ok dialect).mp success
  have bound : (Statement.output dialect request.plan.layout).params.map AxSqlParam.value =
      request.values.map jsonValueToExpr := by
    rw [output_params, numberParams_value, Statement.holes_layout, plan_values]
  calc sqlParamsToJson fromStr (Statement.output dialect request.plan.layout).params
      = ((Statement.output dialect request.plan.layout).params.map AxSqlParam.value).map
          fun value => rustExprCodeToJson fromStr value.code := by rw [sqlParamsToJson, List.map_map]; rfl
    _ = request.values.map fun value => rustExprCodeToJson fromStr (jsonValueToExpr value).code := by
      rw [bound, List.map_map]; rfl
    _ = request.values := by
      rw [List.map_congr_left fun value member => read_value (reads value member), List.map_id']

def taggedTitle : Json := .string "a \"b\", c"

def taggedPair : Json := .array [.number (.ofInt64 1), .object [("k", .string "]")]]

/-- A title with quotes, and tags with a comma, brackets and a list. -/
def taggedUpdate : AxSqlRequest :=
  .update "posts" [("title", taggedTitle)] [⟨"tag", .in, .array [.string "x,]", taggedPair]⟩]

def parseTagged (text : String) : Option Json :=
  if text = "\"a \\\"b\\\", c\"" then some taggedTitle
  else if text = "\"x,]\"" then some (.string "x,]")
  else if text = "[1,\x7b\"k\":\"]\"\x7d]" then some taggedPair
  else none

theorem request_values_unchanged_update :
    sqlParamsToJson parseTagged [⟨1, ⟨"\"a \\\"b\\\", c\""⟩⟩, ⟨2, ⟨"\"x,]\""⟩⟩,
      ⟨3, ⟨"[1,\x7b\"k\":\"]\"\x7d]"⟩⟩] = [taggedTitle, .string "x,]", taggedPair] := by
  have title : taggedTitle.text = "\"a \\\"b\\\", c\"" := by decide +kernel
  have tag : (Json.string "x,]").text = "\"x,]\"" := by decide +kernel
  have pair : taggedPair.text = "[1,\x7b\"k\":\"]\"\x7d]" := by decide +kernel
  have reads : ∀ value ∈ taggedUpdate.values, parseTagged value.text = some value := by
    intro value member
    have cases : value = taggedTitle ∨ value = .string "x,]" ∨ value = taggedPair := by
      simpa [taggedUpdate, AxSqlRequest.values, AxQueryFilterRequest.values] using member
    rcases cases with rfl | rfl | rfl
    · rw [title, parseTagged, if_pos rfl]
    · rw [tag, parseTagged, if_neg (by decide), if_pos rfl]
    · rw [pair, parseTagged, if_neg (by decide), if_neg (by decide), if_pos rfl]
  exact @request_values_unchanged parseTagged taggedUpdate .postgres
    ⟨"update \"posts\" set \"title\" = $1 where \"tag\" in ($2, $3)", _⟩ reads (by decide +kernel)

end Values

end Axonyx.Runtime
