import Axonyx.Core.BackendModule

/-! The records that a request may carry: the type context that is made of a backend plan, and
the check of the record types that its actions and routes take as input. -/
namespace Axonyx.Core.Backend

variable {Code Step : Type}

section Contexts

def AxRecordPlan.recordType (record : AxRecordPlan) : AxRecordType where
  name := record.name
  fields := (record.fields.map fun field => (field.name, field.ty)).foldl
    (fun fields entry => insertField fields entry.1 entry.2) []

/-- `collect_preview_types`: the declared types of a plan on top of a context. -/
def collectPreviewTypes (plan : AxBackendPlan Code Step) (context : AxDataContext) : AxDataContext where
  bindings := context.bindings
  records := (plan.types.map fun record => (record.name, record.recordType)).foldl
    (fun records entry => insertField records entry.1 entry.2) context.records
  literalUnions := (plan.literalUnions.map fun union => (union.name, union.literals)).foldl
    (fun unions entry => insertField unions entry.1 entry.2) context.literalUnions

def typeContext (plan : AxBackendPlan Code Step) : AxDataContext := collectPreviewTypes plan ⟨[], [], []⟩

end Contexts

section Check

variable (plan : AxBackendPlan Code Step)

/-- `unsupported_record_input_type`, with the check of a record's fields. -/
def unsupportedRecordInputType (onRecord : AxRecordPlan → Option String) : AxType → Option String
  | .string | .bool | .int | .number | .float | .dateTime | .date | .time | .uuid => none
  | .optional inner | .list inner => unsupportedRecordInputType onRecord inner
  | .map key value =>
    (unsupportedRecordInputType onRecord key).orElse fun _ => unsupportedRecordInputType onRecord value
  | .record name =>
    if plan.literalUnions.any (·.name == name) then none
    else match plan.types.find? (·.name == name) with
      | none => some (AxType.record name).displayName
      | some record => onRecord record
  | other => some other.displayName

/-- `unsupported_record_input_field`, with the levels that are left instead of the depth. -/
def unsupportedRecordInputField : Nat → AxRecordPlan → Option String
  | 0, _ => some "record nesting exceeds 64 levels"
  | levels + 1, record =>
    record.fields.findSome? fun field =>
      (unsupportedRecordInputType plan (unsupportedRecordInputField levels) field.ty).map fun ty =>
        "`" ++ record.name ++ "." ++ field.name ++ "` uses `" ++ ty ++
          "`; use String, Bool, Int, Number, Float, date/UUID strings, optional fields, lists, maps or declared records"

/-- The handler, the field and the reason of `UnsupportedRequestRecordInput`. -/
structure UnsupportedRequestRecordInput where
  handler : String
  field : String
  reason : String
  deriving DecidableEq, Repr

def requestInput (handler : AxHandlerPlan Code Step) : List (AxFieldPlan Code) :=
  match handler.kind with
  | .action _ input | .route _ _ _ input => input
  | _ => []

/-- What is wrong with one input field of a handler. -/
def unsupportedInput (handler : AxHandlerPlan Code Step) (field : AxFieldPlan Code) :
    Option UnsupportedRequestRecordInput :=
  match plan.types.find? (·.name == field.rustTy) with
  | none => none
  | some record =>
    let reason :=
      if field.optional || field.default.isSome then
        some "the record itself must be required and have no default"
      else unsupportedRecordInputField plan 65 record
    reason.map fun reason => ⟨handler.name, field.name, reason⟩

def validateRequestRecordInputs : Except UnsupportedRequestRecordInput Unit :=
  match plan.handlers.findSome? fun handler => (requestInput handler).findSome? (unsupportedInput plan handler) with
  | none => .ok ()
  | some error => .error error

/-- The record that a request must carry for an input field of an action or a route. -/
def IsRequestRecord (record : AxRecordPlan) : Prop :=
  ∃ handler ∈ plan.handlers, ∃ field ∈ requestInput handler, plan.types.find? (·.name == field.rustTy) = some record

variable {plan}

theorem supported_of_validated (accepted : validateRequestRecordInputs plan = .ok ()) {record : AxRecordPlan}
    (carried : IsRequestRecord plan record) : unsupportedRecordInputField plan 65 record = none := by
  obtain ⟨handler, listed, field, taken, found⟩ := carried
  rw [validateRequestRecordInputs] at accepted
  split at accepted
  next none =>
    have each := List.findSome?_eq_none_iff.mp (List.findSome?_eq_none_iff.mp none handler listed) field taken
    rw [unsupportedInput, found] at each
    simp only [Option.map_eq_none_iff] at each
    split at each
    · cases each
    · exact each
  next => cases accepted

end Check

section Support

variable (plan : AxBackendPlan Code Step)

/-- The type is supported somewhere below the limit. -/
def Supported (type : AxType) : Prop :=
  ∃ levels, unsupportedRecordInputType plan (unsupportedRecordInputField plan levels) type = none

variable {plan}

theorem Supported.optional {inner : AxType} (supported : Supported plan (.optional inner)) : Supported plan inner :=
  supported

theorem Supported.list {inner : AxType} (supported : Supported plan (.list inner)) : Supported plan inner :=
  supported

theorem Supported.map {key value : AxType} (supported : Supported plan (.map key value)) : Supported plan value := by
  obtain ⟨levels, accepted⟩ := supported
  refine ⟨levels, ?_⟩
  rw [unsupportedRecordInputType] at accepted
  cases first : unsupportedRecordInputType plan (unsupportedRecordInputField plan levels) key with
  | none =>
    rw [first] at accepted
    exact accepted
  | some reason =>
    rw [first] at accepted
    cases accepted

/-- A supported record has supported fields. -/
theorem supported_field {levels : Nat} {record : AxRecordPlan}
    (accepted : unsupportedRecordInputField plan levels record = none) {field : AxRecordFieldPlan}
    (listed : field ∈ record.fields) : Supported plan field.ty := by
  cases levels with
  | zero => cases accepted
  | succ levels =>
    have here := List.findSome?_eq_none_iff.mp accepted field listed
    exact ⟨levels, Option.map_eq_none_iff.mp here⟩

/-- The records that requests carry are supported. -/
theorem supported_of_carried (accepted : validateRequestRecordInputs plan = .ok ()) {record : AxRecordPlan}
    (carried : IsRequestRecord plan record) : Supported plan (.record record.name) := by
  have fields := supported_of_validated accepted carried
  obtain ⟨_, _, field, _, found⟩ := carried
  have same : record.name = field.rustTy := by simpa using List.find?_some found
  refine ⟨65, ?_⟩
  rw [unsupportedRecordInputType, same, found]
  split
  · rfl
  · exact fields

end Support

section Declarations

variable {plan : AxBackendPlan Code Step}

theorem lookup_named {α β : Type} (items : List α) (key : α → String) (value : α → β) (name : String) :
    lookup (items.map fun item => (key item, value item)) name = (items.find? (key · == name)).map value := by
  unfold lookup
  rw [List.find?_map, Option.map_map]
  rfl

theorem insertRecordNames_distinct {types : List AxRecordPlan} {names all : List String}
    (inserted : insertRecordNames names types = .ok all) :
    (types.map (·.name)).Nodup ∧ ∀ record ∈ types, record.name ∉ names := by
  induction types generalizing names with
  | nil => exact ⟨List.nodup_nil, fun _ member => nomatch member⟩
  | cons record rest ih =>
    rw [insertRecordNames] at inserted
    split at inserted
    · cases inserted
    · next fresh =>
      obtain ⟨distinct, apart⟩ := ih inserted
      refine ⟨List.nodup_cons.mpr ⟨fun again => ?_, distinct⟩, fun other member => ?_⟩
      · obtain ⟨other, listed, same⟩ := List.mem_map.mp again
        exact apart other listed (same ▸ List.mem_cons_self)
      · rcases List.mem_cons.mp member with rfl | later
        · exact fresh
        · exact fun old => apart other later (List.mem_cons_of_mem _ old)

theorem types_distinct (named : validateTypeNames plan = .ok ()) : (plan.types.map (·.name)).Nodup := by
  obtain ⟨names, inserted, _⟩ := Outcome.bind_ok.mp named
  exact (insertRecordNames_distinct inserted).1

/-- The context knows the literal unions of the plan. -/
theorem typeContext_literalUnion (name : String) :
    ((typeContext plan).literalUnion name).isSome = plan.literalUnions.any (·.name == name) := by
  rw [AxDataContext.literalUnion, typeContext, collectPreviewTypes, lookup_insertAll, ← List.map_reverse, lookup_named]
  apply Bool.eq_iff_iff.mpr
  have found : (plan.literalUnions.reverse.find? (·.name == name)).isSome = true ↔ _ := List.find?_isSome
  simp only [List.mem_reverse] at found
  rw [List.any_eq_true, ← found]
  simp [lookup]

/-- The context knows the records of the plan under their names. -/
theorem typeContext_record (named : validateTypeNames plan = .ok ()) (name : String) :
    (typeContext plan).record name = (plan.types.find? (·.name == name)).map AxRecordPlan.recordType := by
  have distinct : ((plan.types.map fun record => (record.name, record.recordType)).map (·.1)).Nodup := by
    rw [List.map_map]
    exact types_distinct named
  rw [AxDataContext.record, typeContext, collectPreviewTypes, lookup_insertAll, lookup_reverse distinct, lookup_named]
  exact Option.or_none

theorem recordType_distinct (record : AxRecordPlan) : (record.recordType.fields.map (·.1)).Nodup := by
  have sorted := insertAll_sorted (record.fields.map fun field => (field.name, field.ty)) [] List.Pairwise.nil
  exact List.pairwise_map.mpr (sorted.imp String.ne_of_lt)

theorem mem_recordType {record : AxRecordPlan} {field : String × AxType} (member : field ∈ record.recordType.fields) :
    ∃ declared ∈ record.fields, field = (declared.name, declared.ty) := by
  rcases mem_insertAll member with listed | none
  · obtain ⟨declared, inside, rfl⟩ := List.mem_map.mp listed
    exact ⟨declared, inside, rfl⟩
  · cases none

/-- What a supported record type stands for. -/
theorem Supported.record (named : validateTypeNames plan = .ok ()) {name : String} (supported : Supported plan (.record name))
    (noUnion : (typeContext plan).literalUnion name = none) {type : AxRecordType}
    (declared : (typeContext plan).record name = some type) :
    (type.fields.map (·.1)).Nodup ∧ ∀ field ∈ type.fields, Supported plan field.2 := by
  obtain ⟨levels, accepted⟩ := supported
  have plain : plan.literalUnions.any (·.name == name) = false := by
    rw [← typeContext_literalUnion, noUnion]
    rfl
  rw [typeContext_record named] at declared
  obtain ⟨record, found, rfl⟩ := Option.map_eq_some_iff.mp declared
  rw [unsupportedRecordInputType, plain, found] at accepted
  refine ⟨recordType_distinct record, fun field member => ?_⟩
  obtain ⟨source, listed, rfl⟩ := mem_recordType member
  exact supported_field accepted listed

end Declarations

end Axonyx.Core.Backend
