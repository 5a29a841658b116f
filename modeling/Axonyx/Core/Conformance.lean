import Axonyx.Core.Types
import Axonyx.Ieee

/-! Which values a type has, and where the checker's type of an expression is the type of the
evaluator's value: everywhere except for reads past the end, `??`, and a bound `null`. -/
namespace Axonyx.Core

variable {F : Type} [Float64 F]

section Values

def AxValue.isNumber : AxValue F → Bool
  | .number _ | .float _ => true
  | _ => false

/-- The values of a type, as `validate_json` reads them but at any depth. -/
inductive Conforms (context : AxDataContext) : AxType → AxValue F → Prop where
  | string (text : String) : Conforms context .string (.string text)
  | number {value : AxValue F} (numeric : value.isNumber = true) : Conforms context .number value
  | float {value : AxValue F} (numeric : value.isNumber = true) : Conforms context .float value
  | int (value : Int64) : Conforms context .int (.number value)
  | decimalNumber {value : AxValue F} (numeric : value.isNumber = true) :
      Conforms context .decimal value
  | decimal {text : String} (valid : isValidDecimal text.toList = true) :
      Conforms context .decimal (.string text)
  | bool (value : Bool) : Conforms context .bool (.bool value)
  | dateTime {text : String} (valid : isValidDatetime text.toList = true) :
      Conforms context .dateTime (.string text)
  | date {text : String} (valid : isValidDate text.toList = true) :
      Conforms context .date (.string text)
  | time {text : String} (valid : isValidTime text.toList = true) :
      Conforms context .time (.string text)
  | uuid {text : String} (valid : isValidUuid text.toList = true) :
      Conforms context .uuid (.string text)
  | bytes {items : List (AxValue F)}
      (bytes : ∀ item ∈ items, ∃ byte : Int64, item = .number byte ∧ 0 ≤ byte.toInt ∧
        byte.toInt ≤ 255) : Conforms context .bytes (.list items)
  | fileRef {fields : List (String × AxValue F)}
      (strings : ∀ name ∈ ["id", "storage", "file_name"], ∃ text,
        lookup fields name = some (.string text))
      (size : ∃ size : Int64, lookup fields "size" = some (.number size) ∧ 0 ≤ size.toInt)
      (contentType : ∀ value, lookup fields "content_type" = some value →
        value = .null ∨ ∃ text, value = .string text) :
      Conforms context .fileRef (.record fields)
  | json (value : AxValue F) : Conforms context .json value
  | unknown (value : AxValue F) : Conforms context .unknown value
  | void : Conforms context .void .null
  | list {item : AxType} {items : List (AxValue F)}
      (conform : ∀ value ∈ items, Conforms context item value) :
      Conforms context (.list item) (.list items)
  | set {item : AxType} {items : List (AxValue F)}
      (conform : ∀ value ∈ items, Conforms context item value) :
      Conforms context (.set item) (.list items)
  | map {key item : AxType} {fields : List (String × AxValue F)}
      (keys : ∀ name value, (name, value) ∈ fields → key.acceptsMapKey name = true)
      (conform : ∀ name value, (name, value) ∈ fields → Conforms context item value) :
      Conforms context (.map key item) (.record fields)
  | null (item : AxType) : Conforms context (.optional item) .null
  | some {item : AxType} {value : AxValue F} (conforms : Conforms context item value) :
      Conforms context (.optional item) value
  | ok {ok error : AxType} {value : AxValue F} (conforms : Conforms context ok value) :
      Conforms context (.result ok error) (.record [("Ok", value)])
  | err {ok error : AxType} {value : AxValue F} (conforms : Conforms context error value) :
      Conforms context (.result ok error) (.record [("Err", value)])
  | «public» {item : AxType} {value : AxValue F} (conforms : Conforms context item value) :
      Conforms context (.public item) value
  | signal {item : AxType} {value : AxValue F} (conforms : Conforms context item value) :
      Conforms context (.signal item) value
  | member {name text : String} {literals : List String}
      (union : context.literalUnion name = some literals) (member : text ∈ literals) :
      Conforms context (.record name) (.string text)
  | record {name : String} {declared : AxRecordType} {fields : List (String × AxValue F)}
      (notUnion : context.literalUnion name = none) (found : context.record name = some declared)
      (present : ∀ field ty value, lookup declared.fields field = some ty →
        lookup fields field = some value → Conforms context ty value)
      (absent : ∀ field ty, lookup declared.fields field = some ty →
        lookup fields field = none → ∃ item, ty = .optional item) :
      Conforms context (.record name) (.record fields)

def AxType.admitsNull : AxType → Bool
  | .json | .unknown | .void | .optional _ => true
  | .public item | .signal item => item.admitsNull
  | _ => false

variable {context : AxDataContext} {ty left right : AxType} {value : AxValue F}

theorem conforms_null_iff : Conforms context ty (.null : AxValue F) ↔ ty.admitsNull = true := by
  constructor
  · intro conforms
    generalize null : (.null : AxValue F) = value at conforms
    induction conforms with
    | «public» _ ih => exact ih null
    | signal _ ih => exact ih null
    | number numeric | float numeric | decimalNumber numeric => subst null; cases numeric
    | _ => first | rfl | cases null
  · intro admits
    induction ty with
    | json => exact .json _
    | unknown => exact .unknown _
    | void => exact .void
    | optional item => exact .null item
    | «public» item ih => exact .public (ih admits)
    | signal item ih => exact .signal (ih admits)
    | _ => cases admits

theorem conforms_optionalOf (conforms : Conforms context ty value) :
    Conforms context ty.optionalOf value := by
  cases ty with
  | optional item => exact conforms
  | _ => exact .some conforms

theorem null_optionalOf (ty : AxType) :
    Conforms context ty.optionalOf (.null : AxValue F) := by
  cases ty <;> exact .null _

theorem conforms_numeric (numeric : isNumericType ty = true)
    (conforms : Conforms context ty value) : value.isNumber = true := by
  cases ty with
  | number => cases conforms with | number numeric => exact numeric
  | float => cases conforms with | float numeric => exact numeric
  | int => cases conforms; rfl
  | _ => simp [isNumericType] at numeric

/-- A number has the promoted type, if it is an integer whenever both operands are. -/
theorem conforms_promoted (numeric : value.isNumber = true)
    (integer : left = .int → right = .int → ∃ n, value = .number n) :
    Conforms context (promoteNumericType left right) value := by
  unfold promoteNumericType
  split
  · exact .float numeric
  split
  · exact .number numeric
  split
  · next both =>
    simp only [Bool.and_eq_true, decide_eq_true_eq] at both
    obtain ⟨n, rfl⟩ := integer both.1 both.2
    exact .int n
  · exact .number numeric

end Values

section Operators

variable {context : AxDataContext} {ty left right result : AxType} {overflowChecks : Bool}
  {a b value : AxValue F}

/-- A number, and an integer whenever all operands are. -/
def NumberOf (operands : List (AxValue F)) (value : AxValue F) : Prop :=
  value.isNumber = true ∧ ((∀ operand ∈ operands, ∃ n, operand = .number n) → ∃ n, value = .number n)

theorem finiteFloat_numberOf {x : F} {operator : String} {operands : List (AxValue F)}
    (float : ∃ y, .float y ∈ operands) (computed : finiteFloatValue x operator = .ok value) :
    NumberOf operands value := by
  obtain ⟨y, member⟩ := float
  unfold finiteFloatValue at computed
  split at computed
  · cases computed
    refine ⟨rfl, fun integers => ?_⟩
    obtain ⟨n, integer⟩ := integers _ member
    cases integer
  · cases computed

theorem numberOf_int {operands : List (AxValue F)} {computation : Eval Int64}
    (computed : computation.map AxValue.number = .ok value) : NumberOf operands value := by
  obtain ⟨n, _, rfl⟩ := Outcome.map_ok.mp computed
  exact ⟨rfl, fun _ => ⟨n, rfl⟩⟩

theorem neg_numberOf (computed : evalUnaryExpr overflowChecks .neg a = .ok value) :
    NumberOf [a] value := by
  unfold evalUnaryExpr at computed
  cases a with
  | number n => exact numberOf_int computed
  | float x =>
    simp only at computed
    split at computed
    · cases computed
      refine ⟨rfl, fun integers => ?_⟩
      obtain ⟨n, integer⟩ := integers _ List.mem_cons_self
      cases integer
    · cases computed
  | _ => cases computed

theorem numericBinary_numberOf {intOperation : Int64 → Int64 → Eval Int64}
    {floatOperation : F → F → F} {operator : String} {rejectZeroRight : Bool}
    (computed : evalNumericBinary a b intOperation floatOperation operator rejectZeroRight =
      .ok value) : NumberOf [a, b] value := by
  unfold evalNumericBinary at computed
  split at computed
  · cases computed
  split at computed
  · exact numberOf_int computed
  · exact finiteFloat_numberOf ⟨_, List.mem_cons_self⟩ computed
  · exact finiteFloat_numberOf ⟨_, List.mem_cons_of_mem _ List.mem_cons_self⟩ computed
  · exact finiteFloat_numberOf ⟨_, List.mem_cons_self⟩ computed
  · cases computed

theorem addNumbers_numberOf (first : a.isNumber = true) (second : b.isNumber = true)
    (computed : addValues a b = .ok value) : NumberOf [a, b] value := by
  cases a with
  | number m =>
    cases b with
    | number n =>
      simp only [addValues] at computed
      split at computed <;> cases computed
      exact ⟨rfl, fun _ => ⟨_, rfl⟩⟩
    | float y => exact finiteFloat_numberOf ⟨y, List.mem_cons_of_mem _ List.mem_cons_self⟩ computed
    | _ => cases second
  | float x =>
    cases b with
    | number n => exact finiteFloat_numberOf ⟨x, List.mem_cons_self⟩ computed
    | float y => exact finiteFloat_numberOf ⟨x, List.mem_cons_self⟩ computed
    | _ => cases second
  | _ => cases first

theorem addString_string (text : (∃ s, a = .string s) ∨ ∃ s, b = .string s)
    (computed : addValues a b = .ok value) : ∃ s, value = .string s := by
  have joined (left right : AxValue F)
      (computed : (((scalarText left).bind fun left => (scalarText right).map (left ++ ·)).elim
        (fail (.unsupportedExpression "\x60+\x60 concatenation requires scalar operands"))
        (fun text => .ok (.string text)) : Eval (AxValue F)) = .ok value) :
      ∃ s, value = .string s := by
    cases both : (scalarText left).bind fun left => (scalarText right).map (left ++ ·) with
    | none => rw [both] at computed; cases computed
    | some text =>
      rw [both] at computed
      cases computed
      exact ⟨_, rfl⟩
  rcases text with ⟨s, rfl⟩ | ⟨s, rfl⟩
  · exact joined (.string s) b (by cases b <;> exact computed)
  · exact joined a (.string s) (by cases a <;> exact computed)

theorem unary_conforms {op : AxUnaryOp} (typed : unaryType op ty = .ok result)
    (operand : Conforms context ty a) (computed : evalUnaryExpr overflowChecks op a = .ok value) :
    Conforms context result value := by
  cases op with
  | not =>
    cases typed
    cases computed
    exact .bool _
  | neg =>
    obtain ⟨number, integer⟩ := neg_numberOf computed
    simp only [unaryType] at typed
    split at typed
    · next admitted =>
      cases typed
      cases ty with
      | number => exact .number number
      | float => exact .float number
      | unknown => exact .unknown _
      | int =>
        cases operand with
        | int n =>
          obtain ⟨m, rfl⟩ := integer (by simp)
          exact .int m
      | _ => simp [isNumericType] at admitted
    · cases typed

theorem promoted_conforms (first : Conforms context left a) (second : Conforms context right b)
    (number : NumberOf [a, b] value) : Conforms context (promoteNumericType left right) value := by
  refine conforms_promoted number.1 ?_
  rintro rfl rfl
  cases first
  cases second
  exact number.2 (by simp)

theorem addition_conforms (typed : additionType left right = .ok result)
    (first : Conforms context left a) (second : Conforms context right b)
    (computed : addValues a b = .ok value) : Conforms context result value := by
  unfold additionType at typed
  split at typed
  · next numeric =>
    cases typed
    rw [Bool.and_eq_true] at numeric
    exact promoted_conforms first second (addNumbers_numberOf (conforms_numeric numeric.1 first)
      (conforms_numeric numeric.2 second) computed)
  split at typed
  · cases typed
    exact .unknown _
  split at typed
  · next text =>
    cases typed
    simp only [Bool.or_eq_true, Bool.and_eq_true, decide_eq_true_eq] at text
    obtain ⟨s, rfl⟩ := addString_string (by
      rcases text with ⟨rfl, _⟩ | ⟨rfl, _⟩
      · cases first
        exact .inl ⟨_, rfl⟩
      · cases second
        exact .inr ⟨_, rfl⟩) computed
    exact .string s
  · cases typed

theorem arithmetic_conforms (typed : arithmeticType left right = .ok result)
    (first : Conforms context left a) (second : Conforms context right b)
    (number : NumberOf [a, b] value) : Conforms context result value := by
  unfold arithmeticType at typed
  split at typed <;> cases typed
  exact promoted_conforms first second number

theorem compare_conforms {operation : Ordering → Bool} {operator : String}
    (computed : evalCompareBinary a b operation operator = .ok value) :
    Conforms context .bool value := by
  have expected (ordering : Option Ordering)
      (computed : expectOrdering (F := F) ordering operation = .ok value) :
      Conforms context .bool value := by
    unfold expectOrdering at computed
    split at computed <;> cases computed
    exact .bool _
  unfold evalCompareBinary at computed
  split at computed
  · cases computed
    exact .bool _
  · exact expected _ computed
  · exact expected _ computed
  · exact expected _ computed
  · cases computed
    exact .bool _
  · cases computed

/-- The strict operators keep to their types. -/
theorem binary_conforms {op : AxBinaryOp} (typed : binaryType op left right = .ok result)
    (first : Conforms context left a) (second : Conforms context right b)
    (computed : evalBinaryExpr overflowChecks op a b = .ok value) :
    Conforms context result value := by
  cases op with
  | add => exact addition_conforms typed first second computed
  | sub | mul | div | rem =>
    exact arithmetic_conforms typed first second (numericBinary_numberOf computed)
  | eq | ne =>
    cases typed
    cases computed
    exact .bool _
  | gt | ge | lt | le =>
    cases typed
    exact compare_conforms computed
  | «in» =>
    cases typed
    simp only [evalBinaryExpr] at computed
    split at computed <;> cases computed
    exact .bool _
  | and | or | fallback => cases computed

end Operators

section Access

variable {context : AxDataContext} {ty objectType result : AxType} {property : String}
  {fields : List (String × AxValue F)}

/-- A field that is missing must be optional. -/
theorem member_conforms (typed : resolveMemberType context property objectType = .ok ty)
    (object : Conforms context objectType (.record fields)) :
    Conforms context ty ((lookup fields property).getD .null) := by
  induction objectType with
  | unknown =>
    cases typed
    exact .unknown _
  | optional inner ih =>
    cases object with
    | some object => exact ih typed object
  | fileRef =>
    cases object with
    | fileRef strings size contentType =>
      simp only [resolveMemberType] at typed
      split at typed
      · next name =>
        cases typed
        simp only [Bool.or_eq_true, decide_eq_true_eq] at name
        obtain ⟨text, found⟩ := strings property (by simpa [or_assoc] using name)
        rw [found]
        exact .string text
      split at typed
      · next name =>
        cases typed
        subst name
        cases found : lookup fields "content_type" with
        | none => exact .null _
        | some value =>
          rcases contentType value found with rfl | ⟨text, rfl⟩
          · exact .null _
          · exact .some (.string text)
      split at typed
      · next name =>
        cases typed
        subst name
        obtain ⟨n, found, _⟩ := size
        rw [found]
        exact .int n
      · cases typed
  | record name =>
    cases object with
    | record notUnion declared present absent =>
      simp only [resolveMemberType, declared] at typed
      split at typed
      · cases typed
      · next declaredField =>
        cases typed
        cases found : lookup fields property with
        | none =>
          obtain ⟨item, rfl⟩ := absent _ _ declaredField found
          exact .null item
        | some value => exact present _ _ _ declaredField found
  | _ => cases typed

/-- The items that an index selects from. -/
def AxType.element : AxType → Option AxType
  | .list item => some item
  | .map _ value => some value
  | _ => none

/-- The index is past the end of the list or negative, or the key is missing. -/
def misses : AxValue F → AxValue F → Bool
  | .list items, .number index => index.toInt < 0 || items.length ≤ index.toInt.toNat
  | .record fields, .string key => (lookup fields key).isNone
  | _, _ => false

theorem index_misses {owner index : AxValue F} (missed : misses owner index = true) :
    evalIndexExpr owner index = .ok .null := by
  unfold misses at missed
  split at missed
  · next items index =>
    simp only [evalIndexExpr]
    split
    · rfl
    · next nonnegative =>
      have past : items.length ≤ index.toInt.toNat := by simpa [nonnegative] using missed
      rw [List.getElem?_eq_none past]
      rfl
  · next fields key =>
    simp only [evalIndexExpr, Option.isNone_iff_eq_none.mp missed]
    rfl
  · cases missed

/-- What an index selects is an item, unless it misses. -/
theorem element_conforms {owner index value : AxValue F} {item : AxType}
    (element : objectType.element = some item) (object : Conforms context objectType owner)
    (found : misses owner index = false) (computed : evalIndexExpr owner index = .ok value) :
    Conforms context item value := by
  cases objectType with
  | list item =>
    cases element
    cases object with
    | list conform =>
      cases index with
      | number index =>
        simp only [misses, Bool.or_eq_false_iff, decide_eq_false_iff_not, not_le] at found
        simp only [evalIndexExpr, if_neg found.1, List.getElem?_eq_getElem found.2] at computed
        cases computed
        exact conform _ (List.getElem_mem _)
      | _ => cases computed
  | map key item =>
    cases element
    cases object with
    | map keys conform =>
      cases index with
      | string key =>
        obtain ⟨selected, present⟩ := Option.isSome_iff_exists.mp (by simpa [misses] using found)
        simp only [evalIndexExpr, present] at computed
        cases computed
        exact conform key _ (mem_of_lookup present)
      | _ => cases computed
  | _ => cases element

theorem index_conforms {owner index value : AxValue F} {key : AxExpr F}
    (typed : resolveIndexType context key objectType = .ok result)
    (object : Conforms context objectType owner)
    (literal : ∀ property, key = .string property → index = .string property)
    (found : ∀ item, objectType.element = some item → misses owner index = true →
      item.admitsNull = true)
    (computed : evalIndexExpr owner index = .ok value) : Conforms context result value := by
  have selected (item : AxType) (element : objectType.element = some item) :
      Conforms context item value := by
    cases missed : misses owner index with
    | false => exact element_conforms element object missed computed
    | true =>
      rw [index_misses missed] at computed
      cases computed
      exact conforms_null_iff.mpr (found item element missed)
  cases objectType with
  | list item =>
    cases typed
    exact selected _ rfl
  | map key item =>
    cases typed
    exact selected _ rfl
  | unknown =>
    cases typed
    exact .unknown _
  | record name =>
    simp only [resolveIndexType] at typed
    split at typed
    · next property =>
      obtain rfl := literal property rfl
      cases owner with
      | record fields =>
        cases computed
        exact member_conforms typed object
      | _ => cases computed
    · cases typed
      exact .unknown _
  | _ => cases typed

end Access

section Soundness

variable (context : AxDataContext) (overflowChecks : Bool) (call : Caller F) (scope : Scope F)

/-- Every bound name that has a value has one of its type. -/
def ScopeConforms : Prop :=
  ∀ name ty value, context.binding name = some ty → scope name = some value →
    Conforms context ty value

/-- What the checker promises of one expression. -/
def Sound (expr : AxExpr F) : Prop :=
  ∀ ty value, resolveExprType context expr = .ok ty →
    evalExpr overflowChecks call scope expr = .ok value → Conforms context ty value

/-- The branches that leave the type of the checker are not taken: an index that misses has an
item type with `null`; the right operand of `??` stands in for a value of the left type, and a
left operand of unknown type has the right type; a bound name `null` has a type with `null`. -/
def Fits : AxExpr F → Prop
  | .identifier name => name = "null" → ∀ ty, context.binding name = some ty → ty.admitsNull = true
  | .index object key => ∀ objectType item owner index,
      resolveExprType context object = .ok objectType → objectType.element = some item →
      evalExpr overflowChecks call scope object = .ok owner →
      evalExpr overflowChecks call scope key = .ok index →
      misses owner index = true → item.admitsNull = true
  | .binary .fallback left right => ∀ leftType rightType value,
      resolveExprType context left = .ok leftType → resolveExprType context right = .ok rightType →
      evalExpr overflowChecks call scope left = .ok value →
      if value.isNull then leftType ≠ .unknown → ∀ other,
        evalExpr overflowChecks call scope right = .ok other →
        Conforms context (fallbackType leftType rightType) other
      else leftType = .unknown → Conforms context rightType value
  | _ => True

variable {context overflowChecks call scope}

theorem resolveField_eq (property : String) (fields : List (String × AxExpr F)) :
    resolveField context property fields =
      (lookup fields property).map (resolveExprType context) := by
  induction fields with
  | nil => rfl
  | cons field rest ih =>
    obtain ⟨name, expr⟩ := field
    rw [resolveField, lookup_cons, ih]
    split <;> rfl

theorem evalFields_lookup {fields : List (String × AxExpr F)}
    {values : List (String × AxValue F)} {property : String} {expr : AxExpr F}
    (computed : evalFields overflowChecks call scope fields = .ok values)
    (found : lookup fields property = some expr) :
    ∃ value, lookup values property = some value ∧
      evalExpr overflowChecks call scope expr = .ok value := by
  induction fields generalizing values with
  | nil => cases found
  | cons field rest ih =>
    obtain ⟨name, first⟩ := field
    rw [evalFields] at computed
    obtain ⟨value, head, computed⟩ := Outcome.bind_ok.mp computed
    obtain ⟨others, tail, computed⟩ := Outcome.bind_ok.mp computed
    cases computed
    rw [lookup_cons] at found ⊢
    split at found
    · next same =>
      cases found
      exact ⟨value, if_pos same, head⟩
    · next other =>
      rw [if_neg other]
      exact ih tail found

theorem mem_evalExprs {items : List (AxExpr F)} {values : List (AxValue F)}
    (computed : evalExprs overflowChecks call scope items = .ok values) {value : AxValue F}
    (member : value ∈ values) :
    ∃ item ∈ items, evalExpr overflowChecks call scope item = .ok value := by
  induction items generalizing values with
  | nil =>
    cases computed
    cases member
  | cons first rest ih =>
    rw [evalExprs] at computed
    obtain ⟨head, here, computed⟩ := Outcome.bind_ok.mp computed
    obtain ⟨others, tail, computed⟩ := Outcome.bind_ok.mp computed
    cases computed
    rcases List.mem_cons.mp member with rfl | later
    · exact ⟨first, List.mem_cons_self, here⟩
    · obtain ⟨item, among, evaluated⟩ := ih tail later
      exact ⟨item, List.mem_cons_of_mem _ among, evaluated⟩

theorem allOfType_true {ty : AxType} {items : List (AxExpr F)}
    (all : allOfType context ty items = .ok true) :
    ∀ item ∈ items, resolveExprType context item = .ok ty := by
  induction items with
  | nil => exact fun _ member => nomatch member
  | cons first rest ih =>
    rw [allOfType] at all
    obtain ⟨firstType, typed, all⟩ := Outcome.bind_ok.mp all
    split at all
    · cases all
    · next same =>
      rw [not_not] at same
      subst same
      exact List.forall_mem_cons.mpr ⟨typed, ih all⟩

theorem list_sound {items : List (AxExpr F)}
    (below : AxExpr.BelowAll (Sound context overflowChecks call scope) items) :
    Sound context overflowChecks call scope (.list items) := by
  intro ty value typed computed
  obtain ⟨item, resolved, rfl⟩ := Outcome.map_ok.mp typed
  obtain ⟨values, evaluated, rfl⟩ := Outcome.map_ok.mp computed
  refine .list fun value member => ?_
  obtain ⟨expr, among, here⟩ := mem_evalExprs evaluated member
  cases items with
  | nil => cases among
  | cons first rest =>
    rw [resolveListType] at resolved
    obtain ⟨firstType, firstTyped, resolved⟩ := Outcome.bind_ok.mp resolved
    obtain ⟨same, all, resolved⟩ := Outcome.bind_ok.mp resolved
    cases same with
    | false =>
      cases resolved
      exact .unknown _
    | true =>
      cases resolved
      have every : ∀ item ∈ first :: rest, resolveExprType context item = .ok firstType :=
        List.forall_mem_cons.mpr ⟨firstTyped, allOfType_true all⟩
      exact (belowAll_iff.mp below expr among).1 _ _ (every expr among) here

theorem objectField_sound {fields : List (String × AxExpr F)} {property : String}
    {values : List (String × AxValue F)} {ty : AxType}
    (below : AxExpr.BelowFields (Sound context overflowChecks call scope) fields)
    (typed : resolveField context property fields = some (.ok ty))
    (computed : evalFields overflowChecks call scope fields = .ok values) :
    ∃ value, lookup values property = some value ∧ Conforms context ty value := by
  rw [resolveField_eq] at typed
  obtain ⟨expr, found, resolved⟩ := Option.map_eq_some_iff.mp typed
  obtain ⟨value, selected, evaluated⟩ := evalFields_lookup computed found
  exact ⟨value, selected,
    (belowFields_iff.mp below _ (mem_of_lookup found)).1 _ _ resolved evaluated⟩

theorem resolve_member {object : AxExpr F} {property : String} {ty : AxType}
    (typed : resolveExprType context (.member object property) = .ok ty) :
    (∃ fields, object = .object fields ∧ resolveField context property fields = some (.ok ty)) ∨
      ∃ objectType, resolveExprType context object = .ok objectType ∧
        resolveMemberType context property objectType = .ok ty := by
  cases object with
  | object fields =>
    rw [resolveExprType] at typed
    cases found : resolveField context property fields with
    | none => rw [found] at typed; cases typed
    | some resolved =>
      rw [found] at typed
      cases typed
      exact .inl ⟨fields, rfl, found⟩
  | _ => exact .inr (Outcome.bind_ok.mp typed)

theorem resolve_optionalMember {object : AxExpr F} {property : String} {ty : AxType}
    (typed : resolveExprType context (.optionalMember object property) = .ok ty) :
    ty = .unknown ∨ ∃ inner, ty = inner.optionalOf ∧
      ((∃ fields, object = .object fields ∧
        resolveField context property fields = some (.ok inner)) ∨
      ∃ objectType, resolveExprType context object = .ok objectType ∧
        resolveMemberType context property objectType = .ok inner) := by
  cases object with
  | object fields =>
    rw [resolveExprType] at typed
    cases found : resolveField context property fields with
    | none =>
      rw [found] at typed
      cases typed
      exact .inl rfl
    | some resolved =>
      rw [found] at typed
      obtain ⟨inner, rfl, rfl⟩ := Outcome.map_ok.mp typed
      exact .inr ⟨inner, rfl, .inl ⟨fields, rfl, found⟩⟩
  | _ =>
    obtain ⟨objectType, resolved, typed⟩ := Outcome.bind_ok.mp typed
    cases member : resolveMemberType context property objectType with
    | ok inner =>
      rw [member] at typed
      cases typed
      exact .inr ⟨inner, rfl, .inr ⟨objectType, resolved, member⟩⟩
    | error error =>
      rw [member] at typed
      cases error <;> cases typed <;> exact .inl rfl

variable {object key left right : AxExpr F} {property : String}

theorem optionalMember_error {stop : Stop} {value : AxValue F}
    (computed : optionalMemberValue property (.error stop) = .ok value) : value = .null := by
  unfold optionalMemberValue at computed
  split at computed <;> cases computed <;> first | rfl | cases ‹_ = _›

theorem member_sound
    (below : (AxExpr.member object property).Below (Sound context overflowChecks call scope)) :
    Sound context overflowChecks call scope (.member object property) := by
  intro ty value typed computed
  obtain ⟨owner, evaluated, computed⟩ := Outcome.bind_ok.mp computed
  cases owner with
  | record fields =>
    cases computed
    rcases resolve_member typed with ⟨literal, rfl, resolved⟩ | ⟨objectType, resolved, member⟩
    · obtain ⟨values, items, same⟩ := Outcome.map_ok.mp evaluated
      cases same
      obtain ⟨value, found, conforms⟩ := objectField_sound below.2 resolved items
      rw [found]
      exact conforms
    · exact member_conforms member (below.1 _ _ resolved evaluated)
  | _ => cases computed

theorem optionalMember_sound
    (below : (AxExpr.optionalMember object property).Below
      (Sound context overflowChecks call scope)) :
    Sound context overflowChecks call scope (.optionalMember object property) := by
  intro ty value typed computed
  rcases resolve_optionalMember typed with rfl | ⟨inner, rfl, source⟩
  · exact .unknown _
  · rw [evalExpr] at computed
    cases evaluated : evalExpr overflowChecks call scope object with
    | error stop =>
      rw [evaluated] at computed
      rcases optionalMember_error computed with rfl
      exact null_optionalOf inner
    | ok owner =>
      rw [evaluated] at computed
      cases owner with
      | record fields =>
        cases computed
        apply conforms_optionalOf
        rcases source with ⟨literal, rfl, resolved⟩ | ⟨objectType, resolved, member⟩
        · obtain ⟨values, items, same⟩ := Outcome.map_ok.mp evaluated
          cases same
          obtain ⟨value, found, conforms⟩ := objectField_sound below.2 resolved items
          rw [found]
          exact conforms
        · exact member_conforms member (below.1 _ _ resolved evaluated)
      | _ =>
        cases computed
        exact null_optionalOf inner

theorem resolve_element {objectType item : AxType}
    (resolved : resolveExprType context object = .ok objectType)
    (element : objectType.element = some item) :
    resolveExprType context (.index object key) = .ok item := by
  have plain : resolveExprType context (.index object key) =
      (resolveExprType context object >>= resolveIndexType context key) := by
    cases object with
    | object fields =>
      cases resolved
      cases element
    | _ => rfl
  rw [plain, resolved]
  cases objectType with
  | list item | map key item =>
    cases element
    rfl
  | _ => cases element

theorem index_sound_iff
    (below : (AxExpr.index object key).Below (Sound context overflowChecks call scope)) :
    Sound context overflowChecks call scope (.index object key) ↔
      Fits context overflowChecks call scope (.index object key) := by
  constructor
  · intro sound objectType item owner index resolved element evaluated selected missed
    refine conforms_null_iff.mp (sound item .null (resolve_element resolved element) ?_)
    rw [evalExpr, evaluated, selected]
    exact index_misses missed
  · intro fits ty value typed computed
    rw [evalExpr] at computed
    obtain ⟨owner, evaluated, computed⟩ := Outcome.bind_ok.mp computed
    obtain ⟨index, selected, computed⟩ := Outcome.bind_ok.mp computed
    rcases resolve_index typed with ⟨literal, property, rfl, rfl, resolved⟩ |
      ⟨objectType, resolved, typed⟩
    · obtain ⟨values, items, same⟩ := Outcome.map_ok.mp evaluated
      cases same
      cases selected
      cases computed
      obtain ⟨value, found, conforms⟩ := objectField_sound below.1.2 resolved items
      rw [found]
      exact conforms
    · refine index_conforms typed (below.1.1 _ _ resolved evaluated) ?_ ?_ computed
      · rintro property rfl
        cases selected
        rfl
      · intro item element missed
        exact fits _ _ _ _ resolved element evaluated selected missed

theorem fallback_sound_iff
    (below : (AxExpr.binary .fallback left right).Below
      (Sound context overflowChecks call scope)) :
    Sound context overflowChecks call scope (.binary .fallback left right) ↔
      Fits context overflowChecks call scope (.binary .fallback left right) := by
  have computes (value : AxValue F) (evaluated : evalExpr overflowChecks call scope left = .ok value) :=
    evalExpr_fallback overflowChecks call right evaluated
  have types {leftType rightType : AxType} (first : resolveExprType context left = .ok leftType)
      (second : resolveExprType context right = .ok rightType) :
      resolveExprType context (.binary .fallback left right) =
        .ok (fallbackType leftType rightType) := by
    rw [resolveExprType, first, second]
    rfl
  constructor
  · intro sound leftType rightType value first second evaluated
    have promised := types first second
    cases null : value.isNull with
    | true =>
      intro _ other result
      apply sound _ _ promised
      rw [computes value evaluated, null]
      exact result
    | false =>
      rintro rfl
      apply sound _ _ promised
      rw [computes value evaluated, null]
      rfl
  · intro fits ty value typed computed
    rw [resolveExprType] at typed
    obtain ⟨leftType, first, typed⟩ := Outcome.bind_ok.mp typed
    obtain ⟨rightType, second, typed⟩ := Outcome.bind_ok.mp typed
    cases typed
    cases evaluated : evalExpr overflowChecks call scope left with
    | error stop =>
      rw [evalExpr, evaluated] at computed
      cases computed
    | ok leftValue =>
      have branch := fits leftType rightType leftValue first second evaluated
      rw [computes leftValue evaluated] at computed
      cases null : leftValue.isNull with
      | true =>
        rw [null] at computed branch
        by_cases unknown : leftType = .unknown
        · subst unknown
          exact below.2.1 _ _ second computed
        · exact branch unknown value computed
      | false =>
        rw [null] at computed branch
        cases computed
        have conforms := below.1.1 _ _ first evaluated
        cases leftType with
        | unknown => exact branch rfl
        | optional item =>
          cases conforms with
          | null => cases null
          | some conforms => exact conforms
        | _ => exact conforms

theorem binary_sound {op : AxBinaryOp} (strict : op ≠ .fallback)
    (below : (AxExpr.binary op left right).Below (Sound context overflowChecks call scope)) :
    Sound context overflowChecks call scope (.binary op left right) := by
  intro ty value typed computed
  rw [resolveExprType] at typed
  obtain ⟨leftType, first, typed⟩ := Outcome.bind_ok.mp typed
  obtain ⟨rightType, second, typed⟩ := Outcome.bind_ok.mp typed
  rw [evalExpr] at computed
  obtain ⟨a, evaluated, computed⟩ := Outcome.bind_ok.mp computed
  have operands {b : AxValue F} (other : evalExpr overflowChecks call scope right = .ok b)
      (computed : evalBinaryExpr overflowChecks op a b = .ok value) :=
    binary_conforms typed (below.1.1 _ _ first evaluated) (below.2.1 _ _ second other) computed
  cases op with
  | fallback => exact absurd rfl strict
  | and | or =>
    cases typed
    simp only at computed
    split at computed
    · cases computed
      exact .bool _
    · obtain ⟨b, _, computed⟩ := Outcome.bind_ok.mp computed
      cases computed
      exact .bool _
  | _ =>
    obtain ⟨b, other, computed⟩ := Outcome.bind_ok.mp computed
    exact operands other computed

theorem identifier_sound_iff (conforms : ScopeConforms context scope) (name : String) :
    Sound context overflowChecks call scope (.identifier name) ↔
      Fits context overflowChecks call scope (.identifier name) := by
  have types (ty : AxType) : resolveExprType context (.identifier name : AxExpr F) = .ok ty ↔
      context.binding name = some ty := by
    rw [resolveExprType]
    cases context.binding name <;> simp
  constructor
  · rintro sound rfl ty bound
    exact conforms_null_iff.mp (sound ty .null ((types ty).mpr bound) rfl)
  · intro fits ty value typed computed
    have bound := (types ty).mp typed
    rw [evalExpr] at computed
    split at computed
    · next null =>
      cases computed
      exact conforms_null_iff.mpr (fits null ty bound)
    · split at computed
      · next found =>
        cases computed
        exact conforms name ty _ bound found
      · cases computed

/-- Above operands that have their types, an expression has its own if it takes none of the
other branches. -/
theorem sound_iff_fits (conforms : ScopeConforms context scope) (expr : AxExpr F)
    (below : expr.Below (Sound context overflowChecks call scope)) :
    Sound context overflowChecks call scope expr ↔
      Fits context overflowChecks call scope expr := by
  have always (sound : Sound context overflowChecks call scope expr)
      (fits : Fits context overflowChecks call scope expr) :
      Sound context overflowChecks call scope expr ↔
        Fits context overflowChecks call scope expr := iff_of_true sound fits
  cases expr with
  | identifier name => exact identifier_sound_iff conforms name
  | index object key => exact index_sound_iff below
  | binary op left right =>
    by_cases fallback : op = .fallback
    · subst fallback
      exact fallback_sound_iff below
    · refine always (binary_sound fallback below) ?_
      cases op with
      | fallback => exact absurd rfl fallback
      | _ => trivial
  | list items => exact always (list_sound below) trivial
  | member object property => exact always (member_sound below) trivial
  | optionalMember object property => exact always (optionalMember_sound below) trivial
  | unary op operand =>
    refine always (fun ty value typed computed => ?_) trivial
    rw [resolveExprType] at typed
    obtain ⟨operandType, resolved, typed⟩ := Outcome.bind_ok.mp typed
    rw [evalExpr] at computed
    obtain ⟨a, evaluated, computed⟩ := Outcome.bind_ok.mp computed
    exact unary_conforms typed (below.1 _ _ resolved evaluated) computed
  | string text =>
    refine always (fun ty value typed computed => ?_) trivial
    cases typed
    cases computed
    exact .string text
  | number n =>
    refine always (fun ty value typed computed => ?_) trivial
    cases typed
    cases computed
    exact .number rfl
  | float x =>
    refine always (fun ty value typed computed => ?_) trivial
    cases typed
    cases computed
    exact .float rfl
  | bool b =>
    refine always (fun ty value typed computed => ?_) trivial
    cases typed
    cases computed
    exact .bool b
  | object fields =>
    refine always (fun ty value typed _ => ?_) trivial
    cases typed
    exact .json value
  | call path args =>
    refine always (fun ty value typed _ => ?_) trivial
    cases typed
    exact .unknown value

def tagsContext : AxDataContext := ⟨[("tags", .list .string)], [], []⟩

def tagsScope (tags : List String) : Scope F64 :=
  fun name => if name = "tags" then some (.list (tags.map .string)) else none

/-- `tags[0]`. -/
def firstTag : AxExpr F64 := .index (.identifier "tags") (.number 0)

def noCalls : Caller F64 := fun path _ _ => fail (.unsupportedCall (Text.join "." path))

theorem tagsScope_conforms (tags : List String) : ScopeConforms tagsContext (tagsScope tags) := by
  intro name ty value bound found
  unfold tagsScope at found
  split at found
  · next tagsName =>
    subst tagsName
    cases bound
    cases found
    refine .list fun value member => ?_
    obtain ⟨tag, _, rfl⟩ := List.mem_map.mp member
    exact .string tag
  · cases found

end Soundness

end Axonyx.Core
