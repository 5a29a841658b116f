import Axonyx.Core.RecordInputs

/-! Record inputs of a request. A value that satisfies its record type is cut down to what the
type declares, as the generated structures read it. -/
namespace Axonyx.Runtime.Input

open Axonyx.Core Axonyx.Core.Backend

section Projection

/-- The floats of `serde_json`, which keeps the text of a number: `Number::as_f64` reads finite
floats only, and what `Number::from_f64` prints for one reads back as the same. -/
structure FloatNumbers (F : Type) where
  asF64 : JsonNumber → Option F
  fromF64 : F → Option JsonNumber
  reads_back : ∀ {number f}, asF64 number = some f → ∃ printed, fromF64 f = some printed ∧ asF64 printed = some f

variable {F : Type} (floats : FloatNumbers F) (context : AxDataContext)

/-- `BTreeMap::remove`. -/
def removeField {α : Type} (fields : List (String × α)) (name : String) : List (String × α) :=
  fields.eraseP (·.1 == name)

theorem sizeOf_removeField (fields : List (String × Json)) (name : String) :
    sizeOf (removeField fields name) ≤ sizeOf fields := by
  induction fields with
  | nil => exact le_refl _
  | cons field rest ih =>
    rw [removeField, List.eraseP_cons]
    cases field.1 == name with
    | true => simp
    | false =>
      rw [removeField] at ih
      simpa using ih

theorem sizeOf_lookup {fields : List (String × Json)} {name : String} {value : Json}
    (found : lookup fields name = some value) : sizeOf value < sizeOf fields := by
  have member := List.sizeOf_lt_of_mem (mem_of_lookup found)
  simp only [Prod.mk.sizeOf_spec] at member
  omega

theorem sizeOf_removed (fields : List (String × Json)) (name : String) :
    2 * sizeOf ((lookup fields name).getD .null) < 2 * sizeOf fields + 1 := by
  cases found : lookup fields name with
  | none =>
    have positive : 1 ≤ sizeOf fields := by cases fields <;> simp; omega
    simp only [Option.getD_none, Json.null.sizeOf_spec]
    omega
  | some value =>
    have smaller := sizeOf_lookup found
    simp only [Option.getD_some]
    omega

mutual

/-- A value as its type declares it; carriers that the generated structures do not share are
refused. -/
def project (value : Json) (type : AxType) : Option Json :=
  match type, value with
  | .record name, .object fields =>
    match context.record name with
    | some record => (projectFields fields record.fields).map .object
    | none => if (context.literalUnion name).isSome then some (.object fields) else none
  | .record name, value => if (context.literalUnion name).isSome then some value else none
  | .optional inner, value => if value.isNull then some .null else project value inner
  | .list inner, .array items => (projectItems items inner).map .array
  | .int, .number number => number.asI64.map fun n => .number (.ofInt64 n)
  | .float, .number number | .number, .number number =>
    ((floats.asF64 number).bind floats.fromF64).map .number
  | .map _ inner, .object fields => (projectEntries fields inner).map .object
  | .string, value | .bool, value | .dateTime, value | .date, value | .time, value | .uuid, value => some value
  | _, _ => none
termination_by (2 * sizeOf value, sizeOf type)
decreasing_by all_goals simp_wf; omega

/-- The declared fields, each taken out of the object; a missing one is null. -/
def projectFields (fields : List (String × Json)) (declared : List (String × AxType)) :
    Option (List (String × Json)) :=
  match declared with
  | [] => some []
  | (name, type) :: rest => do
    let value ← project ((lookup fields name).getD .null) type
    let others ← projectFields (removeField fields name) rest
    return (name, value) :: others
termination_by (2 * sizeOf fields + 1, sizeOf declared)
decreasing_by
  · have smaller := sizeOf_removed fields name
    simp_wf
    omega
  · have smaller := sizeOf_removeField fields name
    simp_wf
    omega

def projectItems (items : List Json) (type : AxType) : Option (List Json) :=
  match items with
  | [] => some []
  | item :: rest => do
    let value ← project item type
    let others ← projectItems rest type
    return value :: others
termination_by (2 * sizeOf items, sizeOf type)
decreasing_by all_goals simp_wf; omega

def projectEntries (fields : List (String × Json)) (type : AxType) : Option (List (String × Json)) :=
  match fields with
  | [] => some []
  | (name, item) :: rest => do
    let value ← project item type
    let others ← projectEntries rest type
    return (name, value) :: others
termination_by (2 * sizeOf fields, sizeOf type)
decreasing_by all_goals simp_wf; omega

end

end Projection

section Specification

variable {F : Type} (floats : FloatNumbers F) (context : AxDataContext)

/-- The types whose values are taken over as they are. -/
def isTextLeaf : AxType → Bool
  | .string | .bool | .dateTime | .date | .time | .uuid => true
  | _ => false

/-- The result is the value cut down to its type: a record has its declared fields and no others,
a missing one is null, and every leaf keeps its value, a float as the double it reads as. -/
inductive Cut : AxType → Json → Json → Prop where
  | text {type : AxType} {value : Json} (leaf : isTextLeaf type = true) : Cut type value value
  | int {number : JsonNumber} {n : Int64} (reads : number.asI64 = some n) :
      Cut .int (.number number) (.number (.ofInt64 n))
  | float {type : AxType} {number printed : JsonNumber} {f : F} (kind : type = .float ∨ type = .number)
      (reads : floats.asF64 number = some f) (same : floats.asF64 printed = some f) :
      Cut type (.number number) (.number printed)
  | null {inner : AxType} : Cut (.optional inner) .null .null
  | present {inner : AxType} {value result : Json} (given : value.isNull = false) (rest : Cut inner value result) :
      Cut (.optional inner) value result
  | list {inner : AxType} {items results : List Json} (count : results.length = items.length)
      (each : ∀ (i : Nat) (item result : Json), items[i]? = some item → results[i]? = some result →
        Cut inner item result) :
      Cut (.list inner) (.array items) (.array results)
  | map {key inner : AxType} {fields results : List (String × Json)} (names : results.map (·.1) = fields.map (·.1))
      (each : ∀ (i : Nat) (field result : String × Json), fields[i]? = some field → results[i]? = some result →
        Cut inner field.2 result.2) :
      Cut (.map key inner) (.object fields) (.object results)
  | union {name : String} {value : Json} (listed : (context.literalUnion name).isSome = true) :
      Cut (.record name) value value
  | record {name : String} {fields results : List (String × Json)} {declared : AxRecordType}
      (noUnion : context.literalUnion name = none) (known : context.record name = some declared)
      (names : results.map (·.1) = declared.fields.map (·.1))
      (each : ∀ field ∈ declared.fields, ∀ result, lookup results field.1 = some result →
        Cut field.2 ((lookup fields field.1).getD .null) result) :
      Cut (.record name) (.object fields) (.object results)

/-- A value that stands somewhere in a value, the type it is declared with, and how many levels
below. -/
inductive Meets : Nat → AxType → Json → AxType → Json → Prop where
  | here {type : AxType} {value : Json} : Meets 0 type value type value
  | optional {n : Nat} {inner type : AxType} {value found : Json} (given : value.isNull = false)
      (rest : Meets n inner value type found) : Meets (n + 1) (.optional inner) value type found
  | item {n : Nat} {inner type : AxType} {items : List Json} {item found : Json} (member : item ∈ items)
      (rest : Meets n inner item type found) : Meets (n + 1) (.list inner) (.array items) type found
  | entry {n : Nat} {key inner type : AxType} {fields : List (String × Json)} {entry : String × Json} {found : Json}
      (member : entry ∈ fields) (rest : Meets n inner entry.2 type found) :
      Meets (n + 1) (.map key inner) (.object fields) type found
  | field {n : Nat} {name : String} {fields : List (String × Json)} {declared : AxRecordType}
      {field : String × AxType} {value found : Json} {type : AxType} (noUnion : context.literalUnion name = none)
      (known : context.record name = some declared) (listed : field ∈ declared.fields)
      (given : lookup fields field.1 = some value) (rest : Meets n field.2 value type found) :
      Meets (n + 1) (.record name) (.object fields) type found

/-- The number can be held: an integer as an `i64`, a float as a finite double. -/
def Holds (type : AxType) (number : JsonNumber) : Prop :=
  (type = .int → number.asI64.isSome = true) ∧ (type = .float ∨ type = .number → (floats.asF64 number).isSome = true)

/-- Every number in the value can be held as its type declares it. -/
def Representable (type : AxType) (value : Json) : Prop :=
  ∀ n leaf number, Meets context n type value leaf (.number number) → Holds floats leaf number

/-- No declared field is missing on the last of some levels. -/
def Roomy (levels : Nat) (type : AxType) (value : Json) : Prop :=
  ∀ n, n + 1 = levels → ∀ name fields declared, Meets context n type value (.record name) (.object fields) →
    context.literalUnion name = none → context.record name = some declared →
    ∀ field ∈ declared.fields, (lookup fields field.1).isSome = true

end Specification

section Passes

variable {F : Type} {floats : FloatNumbers F} {context : AxDataContext}

theorem projectItems_some {items results : List Json} {type : AxType} :
    projectItems floats context items type = some results ↔
      List.Forall₂ (fun item result => project floats context item type = some result) items results := by
  induction items generalizing results with
  | nil =>
    rw [projectItems, List.forall₂_nil_left_iff]
    exact ⟨fun same => (Option.some.inj same).symm, fun none => congrArg some none.symm⟩
  | cons item rest ih =>
    rw [projectItems, List.forall₂_cons_left_iff]
    simp only [Option.bind_eq_bind, Option.bind_eq_some_iff, Option.pure_def, Option.some.injEq, ih]
    constructor
    · rintro ⟨value, here, others, later, rfl⟩
      exact ⟨value, others, here, later, rfl⟩
    · rintro ⟨value, others, here, later, rfl⟩
      exact ⟨value, here, others, later, rfl⟩

theorem projectEntries_some {fields results : List (String × Json)} {type : AxType} :
    projectEntries floats context fields type = some results ↔
      List.Forall₂ (fun field result => field.1 = result.1 ∧ project floats context field.2 type = some result.2)
        fields results := by
  induction fields generalizing results with
  | nil =>
    rw [projectEntries, List.forall₂_nil_left_iff]
    exact ⟨fun same => (Option.some.inj same).symm, fun none => congrArg some none.symm⟩
  | cons field rest ih =>
    obtain ⟨name, item⟩ := field
    rw [projectEntries, List.forall₂_cons_left_iff]
    simp only [Option.bind_eq_bind, Option.bind_eq_some_iff, Option.pure_def, Option.some.injEq, ih]
    constructor
    · rintro ⟨value, here, others, later, rfl⟩
      exact ⟨(name, value), others, ⟨rfl, here⟩, later, rfl⟩
    · rintro ⟨⟨_, value⟩, others, ⟨rfl, here⟩, later, rfl⟩
      exact ⟨value, here, others, later, rfl⟩

theorem lookup_removeField {fields : List (String × Json)} {name other : String} (apart : name ≠ other) :
    lookup (removeField fields name) other = lookup fields other := by
  induction fields with
  | nil => rfl
  | cons field rest ih =>
    obtain ⟨key, value⟩ := field
    rw [removeField, List.eraseP_cons]
    cases same : key == name with
    | true =>
      obtain rfl := eq_of_beq same
      rw [cond_true, lookup_cons, if_neg apart]
    | false =>
      rw [removeField] at ih
      rw [cond_false, lookup_cons, lookup_cons, ih]

/-- Each declared field is taken from the whole object, since no name is declared twice. -/
theorem projectFields_some {fields : List (String × Json)} {declared : List (String × AxType)}
    (distinct : (declared.map (·.1)).Nodup) {results : List (String × Json)} :
    projectFields floats context fields declared = some results ↔
      List.Forall₂ (fun field result => field.1 = result.1 ∧
        project floats context ((lookup fields field.1).getD .null) field.2 = some result.2) declared results := by
  induction declared generalizing fields results with
  | nil =>
    rw [projectFields, List.forall₂_nil_left_iff]
    exact ⟨fun same => (Option.some.inj same).symm, fun none => congrArg some none.symm⟩
  | cons field rest ih =>
    obtain ⟨name, type⟩ := field
    rw [List.map_cons, List.nodup_cons] at distinct
    have kept : ∀ field ∈ rest, lookup (removeField fields name) field.1 = lookup fields field.1 := by
      intro field member
      apply lookup_removeField
      rintro rfl
      exact distinct.1 (List.mem_map.mpr ⟨field, member, rfl⟩)
    have whole {others : List (String × Json)} :
        projectFields floats context (removeField fields name) rest = some others ↔
          List.Forall₂ (fun field result => field.1 = result.1 ∧
            project floats context ((lookup fields field.1).getD .null) field.2 = some result.2) rest others := by
      refine (ih distinct.2).trans (Outcome.related_congr fun field member value => ?_)
      rw [kept field member]
    rw [projectFields, List.forall₂_cons_left_iff]
    simp only [Option.bind_eq_bind, Option.bind_eq_some_iff, Option.pure_def, Option.some.injEq, whole]
    constructor
    · rintro ⟨value, here, others, later, rfl⟩
      exact ⟨(name, value), others, ⟨rfl, here⟩, later, rfl⟩
    · rintro ⟨⟨_, value⟩, others, ⟨rfl, here⟩, later, rfl⟩
      exact ⟨value, here, others, later, rfl⟩

end Passes

section Soundness

variable {F : Type} (floats : FloatNumbers F) (context : AxDataContext)

/-- What holds of a projected value. -/
structure Projects (levels : Nat) (type : AxType) (value result : Json) : Prop where
  representable : Representable floats context type value
  cut : Cut floats context type value result
  again : project floats context result type = some result
  valid : Roomy context levels type value → ∀ path, validateJsonAt context levels type result path = .ok ()

/-- A value is projected if its numbers can be held, and only then. -/
def Projected (levels : Nat) (type : AxType) (value : Json) : Prop :=
  (Representable floats context type value → ∃ result, project floats context value type = some result) ∧
    ∀ result, project floats context value type = some result → Projects floats context levels type value result

variable {floats context} {levels : Nat}

theorem text_projected {type : AxType} {value : Json} {path : String} (leaf : isTextLeaf type = true)
    (valid : validateJsonAt context (levels + 1) type value path = .ok ()) :
    Projected floats context (levels + 1) type value := by
  have same : project floats context value type = some value := by
    cases type <;> first | exact Bool.noConfusion leaf | rw [project]
  have anywhere : ∀ other, validateJsonAt context (levels + 1) type value other = .ok () := by
    intro other
    cases type <;> first | exact Bool.noConfusion leaf | (cases value <;> simp_all [validateJsonAt])
  refine ⟨fun _ => ⟨value, same⟩, fun result projected => ?_⟩
  obtain rfl := Option.some.inj (same.symm.trans projected)
  refine ⟨fun n other number met => ?_, .text leaf, same, fun _ => anywhere⟩
  cases met with
  | here =>
    constructor
    · rintro rfl
      cases leaf
    · rintro (rfl | rfl) <;> cases leaf
  | optional | item | entry | field => cases leaf

theorem int_projected {value : Json} {path : String}
    (valid : validateJsonAt context (levels + 1) .int value path = .ok ()) :
    Projected floats context (levels + 1) .int value := by
  cases value with
  | number number =>
    have projects (n : Int64) (reads : number.asI64 = some n) :
        project floats context (.number number) .int = some (.number (.ofInt64 n)) := by
      rw [project, reads]
      rfl
    refine ⟨fun held => ?_, fun result projected => ?_⟩
    · obtain ⟨n, reads⟩ := Option.isSome_iff_exists.mp ((held 0 .int number .here).1 rfl)
      exact ⟨_, projects n reads⟩
    · cases reads : number.asI64 with
      | none =>
        rw [project, reads] at projected
        cases projected
      | some n =>
        obtain rfl := Option.some.inj ((projects n reads).symm.trans projected)
        refine ⟨fun _ _ _ met => ?_, .int reads, ?_, fun _ other => ?_⟩
        · cases met
          exact ⟨fun _ => by rw [reads]; rfl, fun kind => by rcases kind with kind | kind <;> cases kind⟩
        · rw [project, JsonNumber.asI64_ofInt64]
          rfl
        · simp only [validateJsonAt, JsonNumber.isInteger_ofInt64, if_true]
  | _ => cases valid

theorem float_projected {type : AxType} (kind : type = .float ∨ type = .number) {value : Json} {path : String}
    (valid : validateJsonAt context (levels + 1) type value path = .ok ()) :
    Projected floats context (levels + 1) type value := by
  cases value with
  | number number =>
    have unfolds (number : JsonNumber) : project floats context (.number number) type =
        ((floats.asF64 number).bind floats.fromF64).map .number := by
      rcases kind with rfl | rfl <;> rw [project]
    refine ⟨fun held => ?_, fun result projected => ?_⟩
    · obtain ⟨f, reads⟩ := Option.isSome_iff_exists.mp ((held 0 type number .here).2 kind)
      obtain ⟨printed, prints, -⟩ := floats.reads_back reads
      exact ⟨.number printed, by rw [unfolds, reads, Option.bind_some, prints]; rfl⟩
    · rw [unfolds] at projected
      cases reads : floats.asF64 number with
      | none =>
        rw [reads] at projected
        cases projected
      | some f =>
        obtain ⟨printed, prints, same⟩ := floats.reads_back reads
        rw [reads, Option.bind_some, prints] at projected
        obtain rfl := Option.some.inj projected
        refine ⟨fun _ _ _ met => ?_, .float kind reads same, ?_, fun _ other => ?_⟩
        · cases met with
          | here =>
            refine ⟨fun int => ?_, fun _ => by rw [reads]; rfl⟩
            rcases kind with rfl | rfl <;> cases int
          | optional => rcases kind with kind | kind <;> cases kind
        · rw [unfolds, same, Option.bind_some, prints]
          rfl
        · rcases kind with rfl | rfl <;> rfl
  | _ => rcases kind with rfl | rfl <;> cases valid

theorem isNull_iff (value : Json) : value.isNull = true ↔ value = .null := by
  cases value <;> simp [Json.isNull]

theorem null_projected {inner : AxType} : Projected floats context (levels + 1) (.optional inner) .null := by
  have same : project floats context .null (.optional inner) = some .null := by
    rw [project]
    rfl
  refine ⟨fun _ => ⟨_, same⟩, fun result projected => ?_⟩
  obtain rfl := Option.some.inj (same.symm.trans projected)
  refine ⟨fun n leaf number met => ?_, .null, same, fun _ _ => rfl⟩
  cases met with
  | optional given => cases given

theorem optional_projected {inner : AxType} {value : Json}
    (below : value.isNull = false → Projected floats context levels inner value) :
    Projected floats context (levels + 1) (.optional inner) value := by
  cases absent : value.isNull with
  | true =>
    obtain rfl := (isNull_iff value).mp absent
    exact null_projected
  | false =>
    obtain ⟨exists_, sound⟩ := below absent
    have unfolds {value : Json} (given : value.isNull = false) :
        project floats context value (.optional inner) = project floats context value inner := by
      rw [project, given]
      rfl
    rw [Projected, unfolds absent]
    refine ⟨fun held => exists_ fun n leaf number met => held _ leaf number (.optional absent met), fun result projected => ?_⟩
    have good := sound result projected
    refine ⟨?_, .present absent good.cut, ?_, fun room path => ?_⟩
    · intro n leaf number met
      cases met with
      | here => exact ⟨nofun, fun kind => by rcases kind with kind | kind <;> cases kind⟩
      | optional _ rest => exact good.representable _ leaf number rest
    · cases nothing : result.isNull with
      | true =>
        obtain rfl := (isNull_iff result).mp nothing
        rw [project]
        rfl
      | false => exact (unfolds nothing).trans good.again
    · have below := good.valid fun n last name fields declared met =>
        room (n + 1) (congrArg (· + 1) last) name fields declared (.optional absent met)
      simp only [validateJsonAt]
      split
      · rfl
      · exact below path

theorem list_projected {inner : AxType} {value : Json} {path : String}
    (valid : validateJsonAt context (levels + 1) (.list inner) value path = .ok ())
    (below : ∀ item path, validateJsonAt context levels inner item path = .ok () →
      Projected floats context levels inner item) :
    Projected floats context (levels + 1) (.list inner) value := by
  cases value with
  | array items =>
    have each : ∀ item ∈ items, Projected floats context levels inner item := by
      intro item member
      obtain ⟨index, here⟩ := checked_of_checkEach valid member
      exact below item _ here
    have unfolds (items : List Json) : project floats context (.array items) (.list inner) =
        (projectItems floats context items inner).map .array := by
      rw [project]
    rw [Projected, unfolds]
    refine ⟨fun held => ?_, fun result projected => ?_⟩
    · obtain ⟨results, all⟩ := Outcome.exists_related fun item member =>
        (each item member).1 fun n leaf number met => held _ leaf number (.item member met)
      exact ⟨.array results, by rw [projectItems_some.mpr all]; rfl⟩
    · obtain ⟨results, passed, rfl⟩ := Option.map_eq_some_iff.mp projected
      have all := projectItems_some.mp passed
      refine ⟨?_, .list all.length_eq.symm fun i item result first second => ?_, ?_, fun room path => ?_⟩
      · intro n leaf number met
        cases met with
        | item member rest =>
          obtain ⟨result, _, here⟩ := Outcome.related_left all member
          exact ((each _ member).2 result here).representable _ leaf number rest
      · exact ((each item (List.mem_of_getElem? first)).2 result (Outcome.related_get all first second)).cut
      · rw [unfolds, projectItems_some.mpr (List.forall₂_same.mpr fun result member => ?_)]
        · rfl
        · obtain ⟨item, inside, here⟩ := Outcome.related_right all member
          exact ((each item inside).2 result here).again
      · refine checkEach_ok (fun index result member => ?_) 0
        obtain ⟨item, inside, here⟩ := Outcome.related_right all member
        exact ((each item inside).2 result here).valid (fun n last name fields declared met =>
          room (n + 1) (congrArg (· + 1) last) name fields declared (.item inside met)) _
  | _ => cases valid

theorem map_projected {key inner : AxType} {value : Json} {path : String}
    (valid : validateJsonAt context (levels + 1) (.map key inner) value path = .ok ())
    (below : ∀ item path, validateJsonAt context levels inner item path = .ok () →
      Projected floats context levels inner item) :
    Projected floats context (levels + 1) (.map key inner) value := by
  cases value with
  | object fields =>
    have each : ∀ field ∈ fields, key.acceptsMapKey field.1 = true ∧ Projected floats context levels inner field.2 := by
      intro field member
      obtain ⟨index, here⟩ := checked_of_checkEach valid member
      split at here
      · cases here
      · next accepted => exact ⟨by simpa using accepted, below field.2 _ here⟩
    have unfolds (fields : List (String × Json)) : project floats context (.object fields) (.map key inner) =
        (projectEntries floats context fields inner).map .object := by
      rw [project]
    rw [Projected, unfolds]
    refine ⟨fun held => ?_, fun result projected => ?_⟩
    · obtain ⟨results, passed⟩ : ∃ results, projectEntries floats context fields inner = some results := by
        simp only [projectEntries_some]
        refine Outcome.exists_related fun field member => ?_
        obtain ⟨result, here⟩ := (each field member).2.1 fun n leaf number met => held _ leaf number (.entry member met)
        exact ⟨(field.1, result), rfl, here⟩
      exact ⟨.object results, by rw [passed]; rfl⟩
    · obtain ⟨results, passed, rfl⟩ := Option.map_eq_some_iff.mp projected
      have all := projectEntries_some.mp passed
      have names : results.map (·.1) = fields.map (·.1) := Outcome.related_map all fun _ _ here => here.1
      refine ⟨?_, .map names fun i field result first second => ?_, ?_, fun room path => ?_⟩
      · intro n leaf number met
        cases met with
        | entry member rest =>
          obtain ⟨result, _, _, here⟩ := Outcome.related_left all member
          exact ((each _ member).2.2 result.2 here).representable _ leaf number rest
      · have here := Outcome.related_get all first second
        exact ((each field (List.mem_of_getElem? first)).2.2 result.2 here.2).cut
      · rw [unfolds, projectEntries_some.mpr (List.forall₂_same.mpr fun result member => ⟨rfl, ?_⟩)]
        · rfl
        · obtain ⟨field, inside, _, here⟩ := Outcome.related_right all member
          exact ((each field inside).2.2 result.2 here).again
      · refine checkEach_ok (fun index result member => ?_) 0
        obtain ⟨field, inside, same, here⟩ := Outcome.related_right all member
        have good := ((each field inside).2.2 result.2 here).valid fun n last name fields declared met =>
          room (n + 1) (congrArg (· + 1) last) name fields declared (.entry inside met)
        rw [← same, (each field inside).1]
        exact good _
  | _ => cases valid

/-- A declared field, given or missing. -/
theorem field_projected {fields : List (String × Json)} {field : String × AxType}
    (given : ∀ item, lookup fields field.1 = some item → Projected floats context levels field.2 item)
    (missing : lookup fields field.1 = none → field.2.isOptional = true) :
    ((∀ item, lookup fields field.1 = some item → Representable floats context field.2 item) →
      ∃ result, project floats context ((lookup fields field.1).getD .null) field.2 = some result) ∧
    ∀ result, project floats context ((lookup fields field.1).getD .null) field.2 = some result →
      (∀ item, lookup fields field.1 = some item → Representable floats context field.2 item) ∧
      Cut floats context field.2 ((lookup fields field.1).getD .null) result ∧
      project floats context result field.2 = some result ∧
      ((lookup fields field.1 = none → levels ≠ 0) →
        (∀ item, lookup fields field.1 = some item → Roomy context levels field.2 item) →
        ∀ path, validateJsonAt context levels field.2 result path = .ok ()) := by
  cases found : lookup fields field.1 with
  | some item =>
    obtain ⟨exists_, sound⟩ := given item found
    refine ⟨fun held => exists_ (held item rfl), fun result projected => ?_⟩
    have good := sound result projected
    refine ⟨?_, good.cut, good.again, fun _ room => good.valid (room item rfl)⟩
    intro item same
    cases same
    exact good.representable
  | none =>
    obtain ⟨inner, optional⟩ : ∃ inner, field.2 = .optional inner := by
      have kind := missing found
      cases type : field.2 with
      | optional inner => exact ⟨inner, rfl⟩
      | _ => rw [type] at kind; cases kind
    have null : project floats context .null field.2 = some .null := by
      rw [optional, project]
      rfl
    refine ⟨fun _ => ⟨.null, null⟩, fun result projected => ?_⟩
    obtain rfl := Option.some.inj (null.symm.trans projected)
    refine ⟨nofun, optional ▸ .null, null, fun levels_ _ path => ?_⟩
    obtain ⟨more, rfl⟩ := Nat.exists_eq_succ_of_ne_zero (levels_ rfl)
    rw [optional]
    rfl

theorem union_projected {name : String} {value : Json} {path : String}
    (listed : (context.literalUnion name).isSome = true)
    (valid : validateJsonAt context (levels + 1) (.record name) value path = .ok ()) :
    Projected floats context (levels + 1) (.record name) value := by
  obtain ⟨literals, known⟩ := Option.isSome_iff_exists.mp listed
  simp only [validateJsonAt, known] at valid
  cases value with
  | string text =>
    have same : project floats context (.string text) (.record name) = some (.string text) := by
      rw [project, if_pos listed]
      intro _ same
      cases same
    refine ⟨fun _ => ⟨_, same⟩, fun result projected => ?_⟩
    obtain rfl := Option.some.inj (same.symm.trans projected)
    refine ⟨fun _ _ _ met => (by cases met), .union listed, same, fun _ other => ?_⟩
    have member : text ∈ literals := by
      by_contra apart
      simp only [if_neg apart] at valid
      cases valid
    simp only [validateJsonAt, known, if_pos member]
  | _ => cases valid

theorem record_projected {name : String} {value : Json} {path : String} {declared : AxRecordType}
    (noUnion : context.literalUnion name = none) (known : context.record name = some declared)
    (distinct : (declared.fields.map (·.1)).Nodup)
    (valid : validateJsonAt context (levels + 1) (.record name) value path = .ok ())
    (below : ∀ field ∈ declared.fields, ∀ item path, validateJsonAt context levels field.2 item path = .ok () →
      Projected floats context levels field.2 item) :
    Projected floats context (levels + 1) (.record name) value := by
  simp only [validateJsonAt, noUnion, known] at valid
  cases value with
  | object fields =>
    have each (field : String × AxType) (listed : field ∈ declared.fields) :=
      have checked := checked_of_checkEach valid listed
      @field_projected F floats context levels fields field
        (fun item found => by
          obtain ⟨index, here⟩ := checked
          rw [found] at here
          exact below field listed item _ here)
        (fun missing => by
          obtain ⟨index, here⟩ := checked
          rw [missing] at here
          by_contra required
          simp only [if_neg required] at here
          cases here)
    have unfolds (fields : List (String × Json)) : project floats context (.object fields) (.record name) =
        (projectFields floats context fields declared.fields).map .object := by
      rw [project, known]
    rw [Projected, unfolds]
    refine ⟨fun held => ?_, fun result projected => ?_⟩
    · obtain ⟨results, passed⟩ : ∃ results, projectFields floats context fields declared.fields = some results := by
        simp only [projectFields_some distinct]
        refine Outcome.exists_related fun field listed => ?_
        obtain ⟨result, here⟩ := (each field listed).1 fun item found n leaf number met =>
          held _ leaf number (.field noUnion known listed found met)
        exact ⟨(field.1, result), rfl, here⟩
      exact ⟨.object results, by rw [passed]; rfl⟩
    · obtain ⟨results, passed, rfl⟩ := Option.map_eq_some_iff.mp projected
      have all := (projectFields_some distinct).mp passed
      have names : results.map (·.1) = declared.fields.map (·.1) := Outcome.related_map all fun _ _ here => here.1
      have found {field : String × AxType} (listed : field ∈ declared.fields) : ∃ result,
          lookup results field.1 = some result ∧
          project floats context ((lookup fields field.1).getD .null) field.2 = some result := by
        obtain ⟨⟨other, result⟩, inside, rfl, here⟩ := Outcome.related_left all listed
        exact ⟨result, lookup_of_mem (names ▸ distinct) inside, here⟩
      refine ⟨?_, .record noUnion known names fun field listed result stored => ?_, ?_, fun room path => ?_⟩
      · intro n leaf number met
        cases met with
        | field _ again listed given rest =>
          obtain rfl := Option.some.inj (known.symm.trans again)
          obtain ⟨result, _, here⟩ := found listed
          exact ((each _ listed).2 result here).1 _ given _ leaf number rest
      · obtain ⟨other, same, here⟩ := found listed
        obtain rfl := Option.some.inj (same.symm.trans stored)
        exact ((each field listed).2 _ here).2.1
      · have repeats : projectFields floats context results declared.fields = some results := by
          refine (projectFields_some distinct).mpr ?_
          have paired := (List.forall₂_and_left _ _).mpr ⟨fun _ listed => listed, all⟩
          refine paired.imp fun field result here => ⟨here.2.1, ?_⟩
          obtain ⟨other, stored, projected⟩ := found here.1
          rw [stored]
          obtain rfl := Option.some.inj (projected.symm.trans here.2.2)
          exact ((each field here.1).2 _ projected).2.2.1
        rw [unfolds, repeats]
        rfl
      · simp only [validateJsonAt, noUnion, known]
        refine checkEach_ok (fun index field listed => ?_) 0
        obtain ⟨result, stored, here⟩ := found listed
        rw [stored]
        refine ((each field listed).2 result here).2.2.2 (fun missing last => ?_) (fun item given => ?_) _
        · have present := room 0 (congrArg (· + 1) last.symm) name fields declared .here noUnion known field listed
          rw [missing] at present
          cases present
        · exact fun n last other inner record met =>
            room (n + 1) (congrArg (· + 1) last) other inner record (.field noUnion known listed given met)
  | _ => cases valid

variable {Code Step : Type} {plan : AxBackendPlan Code Step}

/-- What satisfies a supported type is projected, by induction on the levels of the check. -/
theorem supported_projected (named : validateTypeNames plan = .ok ()) {levels : Nat} {type : AxType} {value : Json}
    {path : String} (supported : Supported plan type)
    (valid : validateJsonAt (typeContext plan) levels type value path = .ok ()) :
    Projected floats (typeContext plan) levels type value := by
  induction levels generalizing type value path with
  | zero => cases valid
  | succ levels ih =>
    cases type with
    | string | bool | dateTime | date | time | uuid => exact text_projected rfl valid
    | int => exact int_projected valid
    | float => exact float_projected (.inl rfl) valid
    | number => exact float_projected (.inr rfl) valid
    | optional inner =>
      refine optional_projected fun given => ?_
      simp only [validateJsonAt, given] at valid
      exact ih supported.optional valid
    | list inner => exact list_projected valid fun item path here => ih supported.list here
    | map key inner => exact map_projected valid fun item path here => ih supported.map here
    | record name =>
      cases unions : (typeContext plan).literalUnion name with
      | some literals => exact union_projected (by rw [unions]; rfl) valid
      | none =>
        cases known : (typeContext plan).record name with
        | none =>
          simp only [validateJsonAt, unions, known] at valid
          cases valid
        | some declared =>
          obtain ⟨distinct, fields⟩ := supported.record named unions known
          exact record_projected unions known distinct valid fun field listed item path here =>
            ih (fields field listed) here
    | _ =>
      obtain ⟨_, accepted⟩ := supported
      cases accepted

end Soundness

section Inputs

variable {F : Type} (floats : FloatNumbers F) {Code Step : Type} {plan : AxBackendPlan Code Step}

/-- A record that a plan takes from requests is projected exactly if its numbers can be held; the
result is the value cut down to the record, it is projected to itself, and it satisfies the record
again unless a field is missing on the last level of the check. -/
theorem record_input_projected_iff (named : validateTypeNames plan = .ok ())
    (accepted : validateRequestRecordInputs plan = .ok ()) {record : AxRecordPlan} (carried : IsRequestRecord plan record)
    {value : Json} (valid : validateJson (typeContext plan) (.record record.name) value = .ok ()) :
    ((project floats (typeContext plan) value (.record record.name)).isSome = true ↔
      Representable floats (typeContext plan) (.record record.name) value) ∧
    ∀ result, project floats (typeContext plan) value (.record record.name) = some result →
      Cut floats (typeContext plan) (.record record.name) value result ∧
      project floats (typeContext plan) result (.record record.name) = some result ∧
      (Roomy (typeContext plan) 65 (.record record.name) value →
        validateJson (typeContext plan) (.record record.name) result = .ok ()) := by
  have supported := supported_of_carried accepted carried
  obtain ⟨projects, sound⟩ := @supported_projected F floats _ _ _ named _ _ _ _ supported valid
  refine ⟨⟨fun some => ?_, fun held => Option.isSome_iff_exists.mpr (projects held)⟩, fun result projected => ?_⟩
  · obtain ⟨result, projected⟩ := Option.isSome_iff_exists.mp some
    exact (sound result projected).representable
  · have good := sound result projected
    exact ⟨good.cut, good.again, fun room => good.valid room "$"⟩

/-- Whole numbers as floats: they are read with or without a fraction of zero. -/
def wholeFloats : FloatNumbers Int64 where
  asF64 number := Text.parseI64 ((Text.stripSuffix number.text ".0").getD number.text).toList
  fromF64 n := some
    { text := toString n ++ ".0"
      present := by simp
      written := by
        intro c member
        rw [String.toList_append, List.mem_append] at member
        rcases member with digit | zero
        · exact (JsonNumber.ofInt64 n).written c digit
        · revert c
          decide }
  reads_back := by
    intro number n _
    refine ⟨_, rfl, ?_⟩
    simp only [Text.stripSuffix_append, Option.getD_some, Text.parseI64_toString]

def postRecord : AxRecordPlan :=
  ⟨"Post", [⟨"title", .string⟩, ⟨"summary", .optional .string⟩, ⟨"views", .int⟩, ⟨"price", .float⟩], false⟩

/-- A plan with an action that takes a post. -/
def postPlan : AxBackendPlan Unit Unit where
  types := [postRecord]
  literalUnions := []
  globals := []
  functions := []
  handlers := [⟨"save", "action_save", .action none [⟨"post", "Post", false, none⟩], []⟩]

/-- A post with a number of views; one of its fields is not declared. -/
def post (views : JsonNumber) : Json :=
  .object [("price", .number (.ofInt64 5)), ("title", .string "Hello"), ("trusted", .bool true), ("views", .number views)]

theorem record_input_projected_iff_post :
    ((project wholeFloats (typeContext postPlan) (post (.ofInt64 7)) (.record "Post")).isSome = true ↔
      Representable wholeFloats (typeContext postPlan) (.record "Post") (post (.ofInt64 7))) ∧
    ∀ result, project wholeFloats (typeContext postPlan) (post (.ofInt64 7)) (.record "Post") = some result →
      Cut wholeFloats (typeContext postPlan) (.record "Post") (post (.ofInt64 7)) result ∧
      project wholeFloats (typeContext postPlan) result (.record "Post") = some result ∧
      (Roomy (typeContext postPlan) 65 (.record "Post") (post (.ofInt64 7)) →
        validateJson (typeContext postPlan) (.record "Post") result = .ok ()) :=
  @record_input_projected_iff Int64 wholeFloats Unit Unit postPlan (by rfl) (by rfl) postRecord
    ⟨_, List.mem_singleton_self _, _, List.mem_singleton_self _, rfl⟩ _ (by decide +kernel)

/-- 2^63, which no `i64` holds. -/
def largeNumber : JsonNumber := ⟨"9223372036854775808", by decide, by decide⟩

/-- An unsigned integer beyond `i64` satisfies the type and is not projected. -/
theorem large_integer_not_projected :
    validateRequestRecordInputs postPlan = .ok () ∧
    validateJson (typeContext postPlan) (.record "Post") (post largeNumber) = .ok () ∧
    project wholeFloats (typeContext postPlan) (post largeNumber) (.record "Post") = none := by
  have known : (typeContext postPlan).record "Post" =
      some ⟨"Post", [("price", .float), ("summary", .optional .string), ("title", .string), ("views", .int)]⟩ := by
    decide +kernel
  have large : largeNumber.asI64 = none := by decide +kernel
  have views : lookup (removeField (removeField (removeField
      [("price", .number (.ofInt64 5)), ("title", .string "Hello"), ("trusted", .bool true), ("views", .number largeNumber)]
      "price") "summary") "title") "views" = some (Json.number largeNumber) := rfl
  refine ⟨by rfl, by decide +kernel, ?_⟩
  rw [post, project, known]
  simp [projectFields, views, project, large]

end Inputs

end Axonyx.Runtime.Input
