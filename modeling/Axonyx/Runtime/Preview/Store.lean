import Axonyx.Core.Expr
import Axonyx.Core.Sql

/-! The in-memory preview store and the steps that write to it. A step takes the store and
leaves one, also when it fails; expressions are evaluated in the scope of the action. -/
namespace Axonyx.Runtime.Preview

open Axonyx.Core (AxValue lookup insertField)
open Axonyx.Core.Sql (AxRustExpr AxAssignmentPlan AxQueryFilterPlan AxQueryFilterOpPlan)

variable {F : Type} [Float64 F]

inductive PreviewError where
  | runtime (message : String)
  | invalidInput (field : String)
  deriving DecidableEq, Repr

/-- `eval_preview_expr_with_functions` in a scope, an environment and a set of functions. -/
abbrev Evaluator (F : Type) [Float64 F] := AxRustExpr → Except PreviewError (AxValue F)

structure AxPreviewStore (F : Type) [Float64 F] where
  collections : String → Option (List (AxValue F))

structure PreviewFilter (F : Type) [Float64 F] where
  field : String
  op : AxQueryFilterOpPlan
  value : AxValue F

inductive AxTransactionOperationPlan where
  | insert (collection : String) (fields : List AxAssignmentPlan)
  | update (collection : String) (fields : List AxAssignmentPlan)
      (filters : List AxQueryFilterPlan)
  | delete (collection : String) (filters : List AxQueryFilterPlan)

inductive PreparedPreviewTransactionOperation (F : Type) [Float64 F] where
  | insert (collection : String) (fields : List (String × AxValue F))
  | update (collection : String) (fields : List (String × AxValue F))
      (filters : List (PreviewFilter F))
  | delete (collection : String) (filters : List (PreviewFilter F))

/-- The steps of an action that write to the store. -/
inductive AxStepPlan where
  | insert (collection : String) (fields : List AxAssignmentPlan)
  | update (collection : String) (fields : List AxAssignmentPlan)
      (filters : List AxQueryFilterPlan)
  | delete (collection : String) (filters : List AxQueryFilterPlan)
  | transaction (operations : List AxTransactionOperationPlan)

section Collections

def record (fields : List (String × String)) : AxValue F :=
  .record (fields.foldl (fun fields field => insertField fields field.1 (.string field.2)) [])

def samplePreviewCollectionItems (collection : String) : List (AxValue F) :=
  if collection = "posts" then [
    record [("id", "1"), ("title", "Hello Axonyx"),
      ("excerpt", "A fast page rendered from .ax with almost no JavaScript."),
      ("slug", "hello-axonyx"), ("status", "published"), ("created_at", "2026-04-18")],
    record [("id", "2"), ("title", "Docs Without Bloat"),
      ("excerpt", "Author docs pages directly and keep the runtime tiny."),
      ("slug", "docs-without-bloat"), ("status", "published"), ("created_at", "2026-04-17")],
    record [("id", "3"), ("title", "Draft Preview"),
      ("excerpt", "A hidden draft entry to prove where filters work."),
      ("slug", "draft-preview"), ("status", "draft"), ("created_at", "2026-04-16")]]
  else if collection = "users" then [
    record [("id", "1"), ("name", "Ana"), ("role", "editor")],
    record [("id", "2"), ("name", "Luka"), ("role", "author")]]
  else [
    record [("id", "1"), ("title", collection ++ " item 1"),
      ("excerpt", "Preview data is coming from Axonyx runtime samples.")],
    record [("id", "2"), ("title", collection ++ " item 2"),
      ("excerpt", "Connect a real adapter later without changing page syntax.")]]

/-- `AxPreviewStore::default`. -/
def AxPreviewStore.default : AxPreviewStore F where
  collections collection :=
    if collection = "posts" ∨ collection = "users" then
      some (samplePreviewCollectionItems collection)
    else none

def AxPreviewStore.collectionItems (store : AxPreviewStore F) (collection : String) :
    List (AxValue F) :=
  (store.collections collection).getD (samplePreviewCollectionItems collection)

/-- `ensure_collection`, and a change to the collection behind it. -/
def AxPreviewStore.change (store : AxPreviewStore F) (collection : String)
    (f : List (AxValue F) → List (AxValue F)) : AxPreviewStore F where
  collections other :=
    if other = collection then some (f (store.collectionItems collection))
    else store.collections other

@[simp] theorem collectionItems_change (store : AxPreviewStore F) (collection other : String)
    (f : List (AxValue F) → List (AxValue F)) :
    (store.change collection f).collectionItems other =
      if other = collection then f (store.collectionItems other)
      else store.collectionItems other := by
  by_cases same : other = collection
  · subst same
    simp [AxPreviewStore.change, AxPreviewStore.collectionItems]
  · simp [AxPreviewStore.change, AxPreviewStore.collectionItems, same]

end Collections

section Records

def previewRecordField (item : AxValue F) (field : String) : Option (AxValue F) :=
  match item with
  | .record fields => lookup fields field
  | _ => none

/-- No field, or a null. -/
def isMissing (value : Option (AxValue F)) : Bool :=
  match value with
  | none | some .null => true
  | _ => false

def previewRecordMatches (item : AxValue F) (field : String) (op : AxQueryFilterOpPlan)
    (expected : AxValue F) : Bool :=
  match op with
  | .isNull => isMissing (previewRecordField item field)
  | .isNotNull => !isMissing (previewRecordField item field)
  | op =>
    match previewRecordField item field with
    | none => false
    | some value =>
      match op, expected with
      | .eq, expected => value.eq expected
      | .ne, expected => !value.eq expected
      | .in, .list items => items.any fun item => item.eq value
      | .notIn, .list items => !items.any fun item => item.eq value
      | _, _ => false

def previewRecordMatchesAll (item : AxValue F) (filters : List (PreviewFilter F)) : Bool :=
  filters.all fun filter => previewRecordMatches item filter.field filter.op filter.value

def applyPreviewFields (item : AxValue F) (fields : List (String × AxValue F)) : AxValue F :=
  match item with
  | .record own => .record (fields.foldl (fun own field => insertField own field.1 field.2) own)
  | item => item

def assignPreviewId (record : List (String × AxValue F)) (existingLen : Nat) :
    List (String × AxValue F) :=
  if (lookup record "id").isSome then record
  else insertField record "id" (.string (toString (existingLen + 1)))

end Records

section Evaluation

variable (eval : Evaluator F)

def evalPreviewFields : List AxAssignmentPlan → List (String × AxValue F) →
    Except PreviewError (List (String × AxValue F))
  | [], map => .ok map
  | field :: rest, map => do
    let value ← eval field.value
    evalPreviewFields rest (insertField map field.name value)

def evalPreviewFilters : List AxQueryFilterPlan → Except PreviewError (List (PreviewFilter F))
  | [] => .ok []
  | filter :: rest => do
    let value ← eval filter.value
    let rest ← evalPreviewFilters rest
    return ⟨filter.field, filter.op, value⟩ :: rest

end Evaluation

section Transactions

variable (eval : Evaluator F)

def preparePreviewTransactionOperation :
    AxTransactionOperationPlan → Except PreviewError (PreparedPreviewTransactionOperation F)
  | .insert collection fields => do
    let fields ← evalPreviewFields eval fields []
    return .insert collection fields
  | .update collection fields filters => do
    let fields ← evalPreviewFields eval fields []
    let filters ← evalPreviewFilters eval filters
    return .update collection fields filters
  | .delete collection filters => do
    let filters ← evalPreviewFilters eval filters
    return .delete collection filters

def prepareAll : List AxTransactionOperationPlan →
    Except PreviewError (List (PreparedPreviewTransactionOperation F))
  | [] => .ok []
  | operation :: rest => do
    let prepared ← preparePreviewTransactionOperation eval operation
    let rest ← prepareAll rest
    return prepared :: rest

def applyPreviewTransactionOperation (operation : PreparedPreviewTransactionOperation F)
    (store : AxPreviewStore F) : AxPreviewStore F :=
  match operation with
  | .insert collection fields =>
    let record := assignPreviewId fields (store.collectionItems collection).length
    store.change collection fun items => items ++ [.record record]
  | .update collection fields filters =>
    store.change collection fun items => items.map fun item =>
      if previewRecordMatchesAll item filters then applyPreviewFields item fields else item
  | .delete collection filters =>
    store.change collection fun items => items.filter fun item =>
      !previewRecordMatchesAll item filters

/-- What a step returns, and the store that it leaves. -/
abbrev Stepped (F : Type) [Float64 F] := Except PreviewError Unit × AxPreviewStore F

/-- Without a database runtime. The operations run on a copy that replaces the store. -/
def executePreviewTransaction (operations : List AxTransactionOperationPlan)
    (store : AxPreviewStore F) : Stepped F :=
  if operations.isEmpty then
    (.error (.runtime "transaction requires at least one database operation"), store)
  else match prepareAll eval operations with
    | .error error => (.error error, store)
    | .ok prepared =>
      let pending := prepared.foldl (fun pending operation =>
        applyPreviewTransactionOperation operation pending) store
      (.ok (), pending)

end Transactions

section Steps

variable (eval : Evaluator F)

/-- One step of `execute_preview_action` without a database runtime. -/
def executeStep (step : AxStepPlan) (store : AxPreviewStore F) : Stepped F :=
  match step with
  | .insert collection fields =>
    match evalPreviewFields eval fields [] with
    | .error error => (.error error, store)
    | .ok record =>
      let record := assignPreviewId record (store.collectionItems collection).length
      (.ok (), store.change collection fun items => items ++ [.record record])
  | .update collection fields filters =>
    match evalPreviewFields eval fields [] with
    | .error error => (.error error, store)
    | .ok fields =>
      match evalPreviewFilters eval filters with
      | .error error => (.error error, store)
      | .ok filters =>
        (.ok (), store.change collection fun items => items.map fun item =>
          if previewRecordMatchesAll item filters then applyPreviewFields item fields else item)
  | .delete collection filters =>
    match evalPreviewFilters eval filters with
    | .error error => (.error error, store)
    | .ok filters =>
      (.ok (), store.change collection fun items => items.filter fun item =>
        !previewRecordMatchesAll item filters)
  | .transaction operations => executePreviewTransaction eval operations store

/-- The steps of an action, up to the first that fails. -/
def executeSteps : List AxStepPlan → AxPreviewStore F → Stepped F
  | [], store => (.ok (), store)
  | step :: rest, store =>
    match executeStep eval step store with
    | (.ok (), store) => executeSteps rest store
    | (.error error, store) => (.error error, store)

end Steps

end Axonyx.Runtime.Preview
