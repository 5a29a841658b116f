import Axonyx.Core.Conformance
import Axonyx.Core.JsonContract

/-! The check of a state's initial value against its type. A value that it accepts satisfies the
type as a JSON contract, if the context declares every record that the type leads to. -/
namespace Axonyx.Core

variable {F : Type} [Float64 F]

section Acceptance

def isNullExpr : AxExpr F → Bool
  | .identifier name => name = "null"
  | _ => false

def isByteExpr : AxExpr F → Bool
  | .number n => 0 ≤ n.toInt && n.toInt ≤ 255
  | _ => false

def isNumberExpr : AxExpr F → Bool
  | .number _ | .float _ => true
  | _ => false

/-- The one field `Ok` or `Err` of an object. -/
def acceptsResult (ok error : AxExpr F → Bool) (fields : List (String × AxExpr F)) : Bool :=
  fields.length = 1 && ((lookup fields "Ok").any ok || (lookup fields "Err").any error)

/-- `AxType::accepts_state_initializer`, which knows no declared records. -/
def AxType.acceptsStateInitializer (type : AxType) (value : AxExpr F) : Bool :=
  match type with
  | .string =>
    match value with
    | .string _ => true
    | _ => false
  | .dateTime | .date | .time | .uuid =>
    match value with
    | .string text => type.acceptsStringLiteral text
    | _ => false
  | .number | .float => isNumberExpr value
  | .int =>
    match value with
    | .number _ => true
    | _ => false
  | .decimal =>
    match value with
    | .string text => isValidDecimal text.toList
    | value => isNumberExpr value
  | .bool =>
    match value with
    | .bool _ => true
    | _ => false
  | .bytes =>
    match value with
    | .list items => items.all isByteExpr
    | _ => false
  | .file | .fileRef => false
  | .json | .unknown =>
    match value with
    | .string _ | .number _ | .float _ | .bool _ | .list _ | .object _ | .identifier _ => true
    | _ => false
  | .list item | .set item =>
    match value with
    | .list items => items.all item.acceptsStateInitializer
    | _ => false
  | .optional item => isNullExpr value || item.acceptsStateInitializer value
  | .map key item =>
    match value with
    | .object fields => fields.all fun field =>
        key.acceptsMapKey field.1 && item.acceptsStateInitializer field.2
    | _ => false
  | .result ok error =>
    match value with
    | .object fields => acceptsResult ok.acceptsStateInitializer error.acceptsStateInitializer fields
    | _ => false
  | .record _ =>
    match value with
    | .object _ => true
    | _ => false
  | .public item => item.acceptsStateInitializer value
  | .never | .void | .secret _ | .signal _ | .resource _ _ => false

namespace AxDataContext

variable (context : AxDataContext)

/-- `accepts_state_initializer_at_depth`, with the levels that are left instead of the depth. -/
def acceptsStateInitializerAt : Nat → AxType → AxExpr F → Bool
  | 0, _, _ => false
  | levels + 1, type, value =>
    match type with
    | .record name =>
      match context.literalUnion name with
      | some literals =>
        match value with
        | .string text => text ∈ literals
        | _ => false
      | none =>
        match value with
        | .object values =>
          match context.record name with
          | none => true
          | some record =>
            values.all (fun value => (lookup record.fields value.1).isSome) &&
            record.fields.all fun field =>
              match lookup values field.1 with
              | none => field.2.isOptional
              | some value => acceptsStateInitializerAt levels field.2 value
        | _ => false
    | .list item | .set item =>
      match value with
      | .list items => items.all (acceptsStateInitializerAt levels item)
      | _ => false
    | .map key item =>
      match value with
      | .object fields => fields.all fun field =>
          key.acceptsMapKey field.1 && acceptsStateInitializerAt levels item field.2
      | _ => false
    | .optional item => isNullExpr value || acceptsStateInitializerAt levels item value
    | .result ok error =>
      match value with
      | .object fields =>
        acceptsResult (acceptsStateInitializerAt levels ok) (acceptsStateInitializerAt levels error) fields
      | _ => false
    | .public item => acceptsStateInitializerAt levels item value
    | type => type.acceptsStateInitializer value

def acceptsStateInitializer (type : AxType) (value : AxExpr F) : Bool :=
  context.acceptsStateInitializerAt 33 type value

end AxDataContext

end Acceptance

section Values

section Conversion

variable (floatNumber : F → JsonNumber)

mutual

/-- A value as JSON; `Number::from_f64` prints its floats. -/
def jsonOf : AxValue F → Json
  | .null => .null
  | .string value => .string value
  | .number value => .number (.ofInt64 value)
  | .float value => .number (floatNumber value.get)
  | .bool value => .bool value
  | .record fields => .object (jsonFields fields)
  | .list items => .array (jsonItems items)

def jsonItems : List (AxValue F) → List Json
  | [] => []
  | item :: rest => jsonOf item :: jsonItems rest

def jsonFields : List (String × AxValue F) → List (String × Json)
  | [] => []
  | (name, value) :: rest => (name, jsonOf value) :: jsonFields rest

end

end Conversion

/-- The types and records that a type leads to in a context. -/
inductive Reaches (context : AxDataContext) (type : AxType) : AxType → Prop where
  | self : Reaches context type type
  | list {item : AxType} (outer : Reaches context type (.list item)) : Reaches context type item
  | set {item : AxType} (outer : Reaches context type (.set item)) : Reaches context type item
  | optional {item : AxType} (outer : Reaches context type (.optional item)) : Reaches context type item
  | «public» {item : AxType} (outer : Reaches context type (.public item)) : Reaches context type item
  | map {key item : AxType} (outer : Reaches context type (.map key item)) : Reaches context type item
  | ok {ok error : AxType} (outer : Reaches context type (.result ok error)) : Reaches context type ok
  | error {ok error : AxType} (outer : Reaches context type (.result ok error)) : Reaches context type error
  | field {name : String} {record : AxRecordType} {field : String × AxType}
      (outer : Reaches context type (.record name)) (noUnion : context.literalUnion name = none)
      (declared : context.record name = some record) (listed : field ∈ record.fields) :
      Reaches context type field.2

def AxDataContext.Declares (context : AxDataContext) (name : String) : Prop :=
  (context.literalUnion name).isSome = true ∨ (context.record name).isSome = true

/-- Every record name that the type leads to resolves. -/
def Resolves (context : AxDataContext) (type : AxType) : Prop :=
  ∀ name, Reaches context type (.record name) → context.Declares name

theorem Reaches.trans {context : AxDataContext} {first second third : AxType}
    (start : Reaches context first second) (rest : Reaches context second third) :
    Reaches context first third := by
  induction rest with
  | self => exact start
  | list _ ih => exact .list ih
  | set _ ih => exact .set ih
  | optional _ ih => exact .optional ih
  | «public» _ ih => exact .public ih
  | map _ ih => exact .map ih
  | ok _ ih => exact .ok ih
  | error _ ih => exact .error ih
  | field _ noUnion declared listed ih => exact .field ih noUnion declared listed

theorem Resolves.inner {context : AxDataContext} {type item : AxType} (resolves : Resolves context type)
    (leads : Reaches context type item) : Resolves context item :=
  fun name reached => resolves name (leads.trans reached)

end Values

section Soundness

variable {context : AxDataContext} {overflowChecks : Bool} {call : Caller F} {scope : Scope F}
  {floatNumber : F → JsonNumber}

theorem lookup_jsonFields (values : List (String × AxValue F)) (name : String) :
    lookup (jsonFields floatNumber values) name = (lookup values name).map (jsonOf floatNumber) := by
  induction values with
  | nil => rfl
  | cons field rest ih =>
    obtain ⟨other, value⟩ := field
    rw [jsonFields, lookup_cons, lookup_cons, ih]
    split <;> rfl

theorem mem_jsonItems {values : List (AxValue F)} {json : Json} (member : json ∈ jsonItems floatNumber values) :
    ∃ value ∈ values, jsonOf floatNumber value = json := by
  induction values with
  | nil => cases member
  | cons value rest ih =>
    rcases List.mem_cons.mp member with rfl | later
    · exact ⟨value, List.mem_cons_self, rfl⟩
    · obtain ⟨other, among, same⟩ := ih later
      exact ⟨other, List.mem_cons_of_mem _ among, same⟩

/-- The fields of an object and of its value, one by one. -/
theorem evalFields_fields {fields : List (String × AxExpr F)} {values : List (String × AxValue F)}
    (computed : evalFields overflowChecks call scope fields = .ok values) :
    List.Forall₂ (fun field json => field.1 = json.1 ∧ ∃ value,
      evalExpr overflowChecks call scope field.2 = .ok value ∧ jsonOf floatNumber value = json.2)
      fields (jsonFields floatNumber values) := by
  induction fields generalizing values with
  | nil =>
    cases computed
    exact .nil
  | cons field rest ih =>
    obtain ⟨name, expr⟩ := field
    rw [evalFields] at computed
    obtain ⟨value, head, computed⟩ := Outcome.bind_ok.mp computed
    obtain ⟨others, tail, computed⟩ := Outcome.bind_ok.mp computed
    cases computed
    exact .cons ⟨rfl, value, head, rfl⟩ (ih tail)

theorem evalFields_absent {fields : List (String × AxExpr F)} {values : List (String × AxValue F)}
    (computed : evalFields overflowChecks call scope fields = .ok values) {name : String}
    (absent : lookup fields name = none) : lookup values name = none := by
  induction fields generalizing values with
  | nil =>
    cases computed
    rfl
  | cons field rest ih =>
    obtain ⟨other, expr⟩ := field
    rw [evalFields] at computed
    obtain ⟨value, head, computed⟩ := Outcome.bind_ok.mp computed
    obtain ⟨others, tail, computed⟩ := Outcome.bind_ok.mp computed
    cases computed
    rw [lookup_cons] at absent ⊢
    split at absent
    · cases absent
    · next differs =>
      rw [if_neg differs]
      exact ih tail absent

theorem isByte_ofInt64 {n : Int64} (byte : (0 ≤ n.toInt && n.toInt ≤ 255) = true) :
    Json.isByte (.number (.ofInt64 n)) = true := by
  simp only [Bool.and_eq_true, decide_eq_true_eq] at byte
  have small : n.toInt.toNat ≤ 255 := by omega
  rw [Json.isByte, JsonNumber.asU64_ofInt64 byte.1]
  exact decide_eq_true small

theorem number_satisfies {levels : Nat} {type : AxType} {expr : AxExpr F} {value : AxValue F}
    (kind : type = .number ∨ type = .float ∨ type = .decimal) (accepted : isNumberExpr expr = true)
    (evaluated : evalExpr overflowChecks call scope expr = .ok value) :
    Satisfies context (levels + 1) type (jsonOf floatNumber value) := by
  intro path
  cases expr with
  | number n =>
    obtain rfl := Except.ok.inj evaluated
    rcases kind with rfl | rfl | rfl <;> rfl
  | float f =>
    obtain rfl := Except.ok.inj evaluated
    rcases kind with rfl | rfl | rfl <;> rfl
  | _ => cases accepted

/-- A string literal that a type accepts satisfies it. -/
theorem literal_satisfies {levels : Nat} {type : AxType} {expr : AxExpr F} {value : AxValue F}
    (kind : type = .dateTime ∨ type = .date ∨ type = .time ∨ type = .uuid)
    (accepted : type.acceptsStateInitializer expr = true)
    (evaluated : evalExpr overflowChecks call scope expr = .ok value) :
    Satisfies context (levels + 1) type (jsonOf floatNumber value) := by
  cases expr with
  | string text =>
    obtain rfl := Except.ok.inj evaluated
    apply satisfies_literal kind
    rcases kind with rfl | rfl | rfl | rfl <;> exact accepted
  | _ => rcases kind with rfl | rfl | rfl | rfl <;> cases accepted

theorem bytes_satisfies {levels : Nat} {expr : AxExpr F} {value : AxValue F}
    (accepted : AxType.bytes.acceptsStateInitializer expr = true)
    (evaluated : evalExpr overflowChecks call scope expr = .ok value) :
    Satisfies context (levels + 1) .bytes (jsonOf floatNumber value) := by
  intro path
  cases expr with
  | list items =>
    obtain ⟨values, computed, rfl⟩ := Outcome.map_ok.mp evaluated
    refine if_pos (List.all_eq_true.mpr fun json member => ?_)
    obtain ⟨value, among, rfl⟩ := mem_jsonItems member
    obtain ⟨item, listed, here⟩ := mem_evalExprs computed among
    have byte := List.all_eq_true.mp accepted item listed
    cases item with
    | number n =>
      obtain rfl := Except.ok.inj here
      exact isByte_ofInt64 byte
    | _ => cases byte
  | _ => cases accepted

/-- A built-in type without parts. -/
def isPlainType : AxType → Bool
  | .list _ | .map _ _ | .set _ | .optional _ | .result _ _ | .public _ | .record _ => false
  | _ => true

theorem plain_satisfies {levels : Nat} {type : AxType} {expr : AxExpr F} {value : AxValue F}
    (plain : isPlainType type = true) (accepted : type.acceptsStateInitializer expr = true)
    (evaluated : evalExpr overflowChecks call scope expr = .ok value) :
    Satisfies context (levels + 1) type (jsonOf floatNumber value) := by
  cases type with
  | string =>
    cases expr with
    | string text =>
      obtain rfl := Except.ok.inj evaluated
      exact fun _ => rfl
    | _ => cases accepted
  | number => exact number_satisfies (by decide) accepted evaluated
  | float => exact number_satisfies (by decide) accepted evaluated
  | int =>
    cases expr with
    | number n =>
      obtain rfl := Except.ok.inj evaluated
      exact fun _ => if_pos (JsonNumber.isInteger_ofInt64 n)
    | _ => cases accepted
  | decimal =>
    cases expr with
    | string text =>
      obtain rfl := Except.ok.inj evaluated
      exact fun _ => if_pos accepted
    | _ =>
      refine number_satisfies (by decide) ?_ evaluated
      exact accepted
  | bool =>
    cases expr with
    | bool value =>
      obtain rfl := Except.ok.inj evaluated
      exact fun _ => rfl
    | _ => cases accepted
  | dateTime => exact literal_satisfies (by decide) accepted evaluated
  | date => exact literal_satisfies (by decide) accepted evaluated
  | time => exact literal_satisfies (by decide) accepted evaluated
  | uuid => exact literal_satisfies (by decide) accepted evaluated
  | bytes => exact bytes_satisfies accepted evaluated
  | json => exact fun _ => rfl
  | unknown => exact fun _ => rfl
  | file | fileRef | never | void | secret | signal | resource => cases accepted
  | list | map | set | optional | result | «public» | record => cases plain

/-- Acceptance with some levels left, and satisfaction with at least as many. -/
def AcceptedSatisfies (overflowChecks : Bool) (call : Caller F) (scope : Scope F) (floatNumber : F → JsonNumber)
    (context : AxDataContext)
    (levels : Nat) : Prop :=
  ∀ (type : AxType) (expr : AxExpr F) (value : AxValue F), Resolves context type →
    context.acceptsStateInitializerAt levels type expr = true →
    evalExpr overflowChecks call scope expr = .ok value →
    ∀ deeper, levels ≤ deeper → Satisfies context deeper type (jsonOf floatNumber value)

variable {levels deeper : Nat}

theorem list_satisfies (sound : AcceptedSatisfies overflowChecks call scope floatNumber context levels) (enough : levels ≤ deeper)
    {type item : AxType} (kind : type = .list item ∨ type = .set item) (resolves : Resolves context item) {expr : AxExpr F} {value : AxValue F}
    (accepted : (match expr with
      | .list items => items.all (context.acceptsStateInitializerAt levels item)
      | _ => false) = true)
    (evaluated : evalExpr overflowChecks call scope expr = .ok value) :
    Satisfies context (deeper + 1) type (jsonOf floatNumber value) := by
  intro path
  cases expr with
  | list items =>
    obtain ⟨values, computed, rfl⟩ := Outcome.map_ok.mp evaluated
    have each : ∀ index : Nat, ∀ json ∈ jsonItems floatNumber values,
        validateJsonAt context deeper item json (path ++ "[" ++ toString index ++ "]") = .ok () := by
      intro index json member
      obtain ⟨value, among, rfl⟩ := mem_jsonItems member
      obtain ⟨expr, listed, here⟩ := mem_evalExprs computed among
      exact sound item expr value resolves (List.all_eq_true.mp accepted expr listed) here deeper enough _
    rcases kind with rfl | rfl <;> exact checkEach_ok each 0
  | _ => cases accepted

theorem map_satisfies (sound : AcceptedSatisfies overflowChecks call scope floatNumber context levels) (enough : levels ≤ deeper)
    {key item : AxType} (resolves : Resolves context item) {expr : AxExpr F} {value : AxValue F}
    (accepted : context.acceptsStateInitializerAt (levels + 1) (.map key item) expr = true)
    (evaluated : evalExpr overflowChecks call scope expr = .ok value) :
    Satisfies context (deeper + 1) (.map key item) (jsonOf floatNumber value) := by
  intro path
  cases expr with
  | object fields =>
    obtain ⟨values, computed, rfl⟩ := Outcome.map_ok.mp evaluated
    refine checkEach_ok (fun index json member => ?_) 0
    obtain ⟨place, bound, same⟩ := List.getElem_of_mem member
    obtain ⟨lengths, pairs⟩ := List.forall₂_iff_get.mp (evalFields_fields computed)
    have pair := pairs place (lengths ▸ bound) bound
    have listed := List.get_mem fields ⟨place, lengths ▸ bound⟩
    rw [List.get_eq_getElem (l := jsonFields floatNumber values), same] at pair
    obtain ⟨name, value, here, json_eq⟩ := pair
    have both := List.all_eq_true.mp accepted _ listed
    rw [Bool.and_eq_true] at both
    rw [← name, ← json_eq, both.1]
    exact sound item _ value resolves both.2 here deeper enough _
  | _ => cases accepted

theorem result_satisfies (sound : AcceptedSatisfies overflowChecks call scope floatNumber context levels) (enough : levels ≤ deeper)
    {ok error : AxType} (left : Resolves context ok) (right : Resolves context error) {expr : AxExpr F}
    {value : AxValue F}
    (accepted : context.acceptsStateInitializerAt (levels + 1) (.result ok error) expr = true)
    (evaluated : evalExpr overflowChecks call scope expr = .ok value) :
    Satisfies context (deeper + 1) (.result ok error) (jsonOf floatNumber value) := by
  intro path
  cases expr with
  | object fields =>
    obtain ⟨values, computed, rfl⟩ := Outcome.map_ok.mp evaluated
    obtain ⟨single, known⟩ := (Bool.and_eq_true _ _).mp accepted
    obtain ⟨⟨name, expr⟩, rfl⟩ := List.length_eq_one_iff.mp (of_decide_eq_true single)
    rw [evalFields] at computed
    obtain ⟨value, here, computed⟩ := Outcome.bind_ok.mp computed
    obtain rfl := Except.ok.inj computed
    simp only [lookup_cons] at known
    simp only [jsonOf, jsonFields, validateJsonAt]
    rw [if_neg (by simp), lookup_cons, lookup_cons]
    by_cases first : name = "Ok"
    · have known : context.acceptsStateInitializerAt levels ok expr = true := by
        simpa [first, lookup] using known
      rw [if_pos first]
      exact sound ok expr value left known here deeper enough _
    · have known : (if name = "Err" then some expr else lookup [] "Err").any
          (context.acceptsStateInitializerAt levels error) = true := by
        simpa [first, lookup] using known
      by_cases second : name = "Err"
      · rw [if_pos second] at known
        rw [if_neg first, if_pos second]
        exact sound error expr value right known here deeper enough _
      · rw [if_neg second] at known
        cases known
  | _ => cases accepted

theorem record_satisfies (sound : AcceptedSatisfies overflowChecks call scope floatNumber context levels) (enough : levels ≤ deeper)
    {name : String} (resolves : Resolves context (.record name)) {expr : AxExpr F} {value : AxValue F}
    (accepted : context.acceptsStateInitializerAt (levels + 1) (.record name) expr = true)
    (evaluated : evalExpr overflowChecks call scope expr = .ok value) :
    Satisfies context (deeper + 1) (.record name) (jsonOf floatNumber value) := by
  intro path
  simp only [AxDataContext.acceptsStateInitializerAt] at accepted
  simp only [validateJsonAt]
  cases union : context.literalUnion name with
  | some literals =>
    rw [union] at accepted
    cases expr with
    | string text =>
      obtain rfl := Except.ok.inj evaluated
      exact if_pos (of_decide_eq_true accepted)
    | _ => cases accepted
  | none =>
    rw [union] at accepted
    cases expr with
    | object fields =>
      obtain ⟨values, computed, rfl⟩ := Outcome.map_ok.mp evaluated
      cases declared : context.record name with
      | none =>
        have missing := resolves name .self
        rw [AxDataContext.Declares, union, declared] at missing
        simp at missing
      | some record =>
        rw [declared] at accepted
        have each := List.all_eq_true.mp ((Bool.and_eq_true _ _).mp accepted).2
        refine checkEach_ok (fun index field listed => ?_) 0
        have here := each field listed
        have inner := resolves.inner (.field .self union declared listed)
        rw [lookup_jsonFields]
        cases found : lookup fields field.1 with
        | none =>
          rw [found] at here
          rw [evalFields_absent computed found]
          exact if_pos here
        | some expr =>
          rw [found] at here
          obtain ⟨value, stored, evaluated⟩ := evalFields_lookup computed found
          rw [stored]
          exact sound field.2 expr value inner here evaluated deeper enough _
    | _ => cases accepted

/-- What the check accepts satisfies the type, with as many levels left. -/
theorem accepts_sound (levels : Nat) : AcceptedSatisfies overflowChecks call scope floatNumber context levels := by
  induction levels with
  | zero => exact fun _ _ _ _ accepted => nomatch accepted
  | succ levels sound =>
    intro type expr value resolves accepted evaluated deeper enough
    obtain ⟨deeper, rfl⟩ : ∃ n, deeper = n + 1 := ⟨deeper - 1, by omega⟩
    have enough : levels ≤ deeper := by omega
    cases type with
    | list item => exact list_satisfies sound enough (.inl rfl) (resolves.inner (.list .self)) accepted evaluated
    | set item => exact list_satisfies sound enough (.inr rfl) (resolves.inner (.set .self)) accepted evaluated
    | map key item => exact map_satisfies sound enough (resolves.inner (.map .self)) accepted evaluated
    | optional item =>
      intro path
      simp only [validateJsonAt]
      by_cases null : (jsonOf floatNumber value).isNull = true
      · exact if_pos null
      · rw [if_neg null]
        rcases (Bool.or_eq_true _ _).mp accepted with absent | present
        · cases expr with
          | identifier name =>
            obtain rfl : name = "null" := of_decide_eq_true absent
            obtain rfl := Except.ok.inj evaluated
            exact absurd rfl null
          | _ => cases absent
        · exact sound item expr value (resolves.inner (.optional .self)) present evaluated deeper enough path
    | result ok error =>
      exact result_satisfies sound enough (resolves.inner (.ok .self)) (resolves.inner (.error .self))
        accepted evaluated
    | «public» item =>
      exact sound item expr value (resolves.inner (.public .self)) accepted evaluated deeper enough
    | record name => exact record_satisfies sound enough resolves accepted evaluated
    | _ => exact plain_satisfies rfl accepted evaluated

end Soundness

section Contracts

variable {context : AxDataContext}

/-- An accepted initial value satisfies its type as a contract, if the type leads to declared
records only. -/
theorem initializer_satisfies_contract (overflowChecks : Bool) (call : Caller F) (scope : Scope F)
    (floatNumber : F → JsonNumber)    {type : AxType} {expr : AxExpr F} {value : AxValue F} (resolves : Resolves context type)
    (accepted : context.acceptsStateInitializer type expr = true)
    (evaluated : evalExpr overflowChecks call scope expr = .ok value) :
    validateJson context type (jsonOf floatNumber value) = .ok () :=
  accepts_sound 33 type expr value resolves accepted evaluated 65 (by decide) "$"

/-- Records with a title and, perhaps, a tag. -/
def noteContext : AxDataContext :=
  ⟨[], [("Note", ⟨"Note", [("tag", .optional .string), ("title", .string)]⟩)], []⟩

theorem noteContext_reaches {type : AxType} (reached : Reaches noteContext (.list (.record "Note")) type) :
    type ∈ [.list (.record "Note"), .record "Note", .optional .string, .string] := by
  induction reached with
  | self => simp
  | list _ ih => simp at ih; simp [ih]
  | set _ ih => simp at ih
  | optional _ ih => simp at ih; simp [ih]
  | «public» _ ih => simp at ih
  | map _ ih => simp at ih
  | ok _ ih => simp at ih
  | error _ ih => simp at ih
  | @field name record field _ _ declared listed ih =>
    obtain rfl : name = "Note" := by simpa using ih
    obtain rfl : (⟨"Note", [("tag", .optional .string), ("title", .string)]⟩ : AxRecordType) = record :=
      Option.some.inj declared
    rcases List.mem_cons.mp listed with rfl | later
    · simp
    · obtain rfl := List.mem_singleton.mp later
      simp

theorem noteContext_resolves : Resolves noteContext (.list (.record "Note")) := by
  intro name reached
  obtain rfl : name = "Note" := by simpa using noteContext_reaches reached
  exact .inr rfl

theorem initializer_satisfies_contract_notes :
    validateJson noteContext (.list (.record "Note"))
      (jsonOf (fun _ => .ofInt64 0) (.list [.record [("title", .string "first")]] : AxValue F64)) = .ok () :=
  @initializer_satisfies_contract F64 _ noteContext true (fun _ _ _ => .error .panic) (fun _ => none) _ _
    (.list [.object [("title", .string "first")]]) _ noteContext_resolves (by decide +kernel) rfl

/-- The record names that stand in a type. -/
def AxType.recordNames : AxType → List String
  | .record name => [name]
  | .list item | .set item | .optional item | .secret item | .public item | .signal item => item.recordNames
  | .map first second | .result first second | .resource first second =>
    first.recordNames ++ second.recordNames
  | _ => []

/-- A declared record with a field of a type that is not declared. -/
def danglingContext : AxDataContext := ⟨[], [("Post", ⟨"Post", [("author", .record "Author")]⟩)], []⟩

theorem dangling_field_refused :
    (∀ name ∈ (AxType.record "Post").recordNames, danglingContext.Declares name) ∧
    danglingContext.acceptsStateInitializer (.record "Post")
      (.object [("author", .object [])] : AxExpr F64) = true ∧
    evalExpr true (fun _ _ _ => .error .panic) (fun _ => none)
      (.object [("author", .object [])] : AxExpr F64) = .ok (.record [("author", .record [])]) ∧
    validateJson danglingContext (.record "Post")
      (jsonOf (fun _ => .ofInt64 0) (.record [("author", .record [])] : AxValue F64)) ≠ .ok () := by
  refine ⟨?_, by decide +kernel, rfl, by decide +kernel⟩
  intro name member
  obtain rfl := List.mem_singleton.mp member
  exact .inr rfl

end Contracts

end Axonyx.Core
