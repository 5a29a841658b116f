import Axonyx.Arithmetic
import Axonyx.Outcome
import Axonyx.Text
import Mathlib.Data.List.Nodup

/-! Expressions and the server's evaluator. Maps of the source are lists in key order, a
scope is a lookup function. Besides an error, an evaluation can panic or run out of stack. -/
namespace Axonyx.Core

section Syntax

/-- `AxFloat`: finite, and a zero has no sign. -/
structure AxFloat (F : Type) [Float64 F] where
  get : F
  finite : Binary64.isFinite get = true
  canonical : canonical get = get

inductive AxUnaryOp where
  | not
  | neg
  deriving DecidableEq, Repr

inductive AxBinaryOp where
  | add | sub | mul | div | rem
  | eq | ne | gt | ge | lt | le
  | «in»
  | and | or | fallback
  deriving DecidableEq, Repr

inductive AxExpr (F : Type) [Float64 F] where
  | string (value : String)
  | number (value : Int64)
  | float (value : AxFloat F)
  | bool (value : Bool)
  | list (items : List (AxExpr F))
  | object (fields : List (String × AxExpr F))
  | identifier (name : String)
  | unary (op : AxUnaryOp) (expr : AxExpr F)
  | binary (op : AxBinaryOp) (left right : AxExpr F)
  | index (object index : AxExpr F)
  | member (object : AxExpr F) (property : String)
  | optionalMember (object : AxExpr F) (property : String)
  | call (path : List String) (args : List (AxExpr F))

structure AxComponentParamDef (F : Type) [Float64 F] where
  name : String
  literalValues : List String := []
  default : Option (AxExpr F)

structure AxFunctionDef (F : Type) [Float64 F] where
  name : String
  params : List (AxComponentParamDef F)
  body : AxExpr F

inductive AxValue (F : Type) [Float64 F] where
  | null
  | string (value : String)
  | number (value : Int64)
  | float (value : AxFloat F)
  | bool (value : Bool)
  | record (fields : List (String × AxValue F))
  | list (items : List (AxValue F))

inductive AxLowerError where
  | unknownIdentifier (name : String)
  | unknownMember (property : String)
  | unsupportedCall (path : String)
  | unsupportedExpression (message : String)
  | eachRequiresList
  | invalidEachKey
  | duplicateEachKey (key : String)
  | importedComponentParse (importPath message : String)
  | invalidComponentPropLiteral (component prop value expected : String)
  deriving DecidableEq, Repr

/-- Why an evaluation has no value. -/
inductive Stop where
  | error (error : AxLowerError)
  | panic
  | stackOverflow
  deriving DecidableEq, Repr

abbrev Eval := Except Stop

def fail {α : Type} (error : AxLowerError) : Eval α := .error (.error error)

end Syntax

variable {F : Type} [Float64 F]

section Values

/-- `BTreeMap::get`. -/
def lookup {α : Type} (fields : List (String × α)) (name : String) : Option α :=
  (fields.find? fun field => field.1 == name).map Prod.snd

/-- `BTreeMap::insert`. -/
def insertField {α : Type} : List (String × α) → String → α → List (String × α)
  | [], name, value => [(name, value)]
  | (other, old) :: rest, name, value =>
    if name < other then (name, value) :: (other, old) :: rest
    else if name = other then (name, value) :: rest
    else (other, old) :: insertField rest name value

theorem lookup_cons {α : Type} (other name : String) (value : α) (rest : List (String × α)) :
    lookup ((other, value) :: rest) name = if other = name then some value else lookup rest name := by
  unfold lookup
  by_cases same : other = name <;> simp [same]

theorem lookup_insertField {α : Type} (fields : List (String × α)) (name other : String)
    (value : α) : lookup (insertField fields name value) other =
      if other = name then some value else lookup fields other := by
  induction fields with
  | nil =>
    rw [insertField, lookup_cons]
    by_cases same : name = other
    · rw [if_pos same, if_pos same.symm]
    · rw [if_neg same, if_neg (Ne.symm same)]
  | cons field rest ih =>
    obtain ⟨key, old⟩ := field
    rw [insertField]
    by_cases before : name < key
    · rw [if_pos before, lookup_cons]
      by_cases same : name = other
      · rw [if_pos same, if_pos same.symm]
      · rw [if_neg same, if_neg (Ne.symm same)]
    · rw [if_neg before]
      by_cases here : name = key
      · subst here
        rw [if_pos rfl, lookup_cons, lookup_cons]
        by_cases same : name = other
        · rw [if_pos same, if_pos same.symm]
        · rw [if_neg same, if_neg (Ne.symm same), if_neg same]
      · rw [if_neg here, lookup_cons, lookup_cons, ih]
        by_cases same : key = other
        · subst same
          rw [if_pos rfl, if_pos rfl, if_neg (Ne.symm here)]
        · rw [if_neg same, if_neg same]

theorem mem_of_lookup {α : Type} {fields : List (String × α)} {name : String} {value : α}
    (found : lookup fields name = some value) : (name, value) ∈ fields := by
  obtain ⟨field, first, rfl⟩ := Option.map_eq_some_iff.mp found
  have same : field.1 = name := by simpa using List.find?_some first
  exact same ▸ List.mem_of_find?_eq_some first

theorem mem_insertField {α : Type} {fields : List (String × α)} {name : String} {value : α} {field : String × α}
    (member : field ∈ insertField fields name value) : field = (name, value) ∨ field ∈ fields := by
  induction fields with
  | nil => exact .inl (List.mem_singleton.mp member)
  | cons head rest ih =>
    rw [insertField] at member
    split at member
    · exact List.mem_cons.mp member
    · split at member
      · exact (List.mem_cons.mp member).imp_right (List.mem_cons_of_mem _)
      · rcases List.mem_cons.mp member with rfl | later
        · exact .inr List.mem_cons_self
        · exact (ih later).imp_right (List.mem_cons_of_mem _)

/-- A map keeps its names in order. -/
theorem insertField_sorted {α : Type} {fields : List (String × α)} (sorted : fields.Pairwise (·.1 < ·.1))
    (name : String) (value : α) : (insertField fields name value).Pairwise (·.1 < ·.1) := by
  induction fields with
  | nil => exact List.pairwise_singleton _ _
  | cons head rest ih =>
    rw [List.pairwise_cons] at sorted
    rw [insertField]
    split
    next before =>
      refine List.pairwise_cons.mpr ⟨?_, List.pairwise_cons.mpr sorted⟩
      intro field member
      rcases List.mem_cons.mp member with rfl | old
      · exact before
      · exact String.lt_trans before (sorted.1 field old)
    next notBefore =>
      split
      next same =>
        rw [← same] at sorted
        exact List.pairwise_cons.mpr sorted
      next other =>
        refine List.pairwise_cons.mpr ⟨fun field member => ?_, ih sorted.2⟩
        rcases mem_insertField member with rfl | old
        · by_contra late
          exact other (String.le_antisymm (String.not_lt.mp late) (String.not_lt.mp notBefore))
        · exact sorted.1 field old

section Collections

variable {α : Type} (entries fields : List (String × α))

/-- Entries put into a map, one after the other. -/
theorem insertAll_sorted (sorted : fields.Pairwise (·.1 < ·.1)) :
    (entries.foldl (fun fields entry => insertField fields entry.1 entry.2) fields).Pairwise (·.1 < ·.1) := by
  induction entries generalizing fields with
  | nil => exact sorted
  | cons entry rest ih => exact ih _ (insertField_sorted sorted entry.1 entry.2)

variable {entries fields}

theorem mem_insertAll {field : String × α}
    (member : field ∈ entries.foldl (fun fields entry => insertField fields entry.1 entry.2) fields) :
    field ∈ entries ∨ field ∈ fields := by
  induction entries generalizing fields with
  | nil => exact .inr member
  | cons entry rest ih =>
    rcases ih member with later | inserted
    · exact .inl (List.mem_cons_of_mem _ later)
    · rcases mem_insertField inserted with rfl | old
      · exact .inl List.mem_cons_self
      · exact .inr old

variable (entries fields)

/-- The last entry of a name is kept. -/
theorem lookup_insertAll (name : String) :
    lookup (entries.foldl (fun fields entry => insertField fields entry.1 entry.2) fields) name =
      (lookup entries.reverse name).or (lookup fields name) := by
  induction entries generalizing fields with
  | nil => rfl
  | cons entry rest ih =>
    obtain ⟨key, value⟩ := entry
    rw [List.foldl_cons, ih, lookup_insertField]
    unfold lookup
    rw [List.reverse_cons, List.find?_append]
    cases rest.reverse.find? fun field => field.1 == name with
    | some found => rfl
    | none =>
      by_cases same : key = name
      · simp [same]
      · simp [same, Ne.symm same]

variable {entries}

theorem lookup_absent {name : String} (absent : name ∉ entries.map (·.1)) : lookup entries name = none := by
  refine Option.map_eq_none_iff.mpr (List.find?_eq_none.mpr fun entry member same => absent ?_)
  exact List.mem_map.mpr ⟨entry, member, eq_of_beq same⟩

/-- With no name twice, every entry is found. -/
theorem lookup_of_mem (distinct : (entries.map (·.1)).Nodup) {name : String} {value : α}
    (member : (name, value) ∈ entries) : lookup entries name = some value := by
  induction entries with
  | nil => cases member
  | cons entry rest ih =>
    obtain ⟨key, first⟩ := entry
    rw [List.map_cons, List.nodup_cons] at distinct
    rw [lookup_cons]
    rcases List.mem_cons.mp member with same | later
    · cases same
      exact if_pos rfl
    · have apart : key ≠ name := by
        rintro rfl
        exact distinct.1 (List.mem_map.mpr ⟨_, later, rfl⟩)
      rw [if_neg apart]
      exact ih distinct.2 later

theorem lookup_reverse (distinct : (entries.map (·.1)).Nodup) (name : String) :
    lookup entries.reverse name = lookup entries name := by
  have backwards : (entries.reverse.map (·.1)).Nodup := by
    rw [List.map_reverse]
    exact List.nodup_reverse.mpr distinct
  cases found : lookup entries name with
  | some value => exact lookup_of_mem backwards (List.mem_reverse.mpr (mem_of_lookup found))
  | none =>
    by_contra present
    obtain ⟨value, late⟩ := Option.ne_none_iff_exists'.mp present
    have early := lookup_of_mem distinct (List.mem_reverse.mp (mem_of_lookup late))
    rw [found] at early
    cases early

end Collections

def AxFloat.new (value : F) : Option (AxFloat F) :=
  if finite : Binary64.isFinite value = true then
    some ⟨Axonyx.canonical value, finite_canonical finite, canonical_canonical value⟩
  else none

mutual

/-- The derived equality; floats compare as numbers. -/
def AxValue.eq : AxValue F → AxValue F → Bool
  | .null, .null => true
  | .string a, .string b => a == b
  | .number a, .number b => a == b
  | .float a, .float b => floatEq a.get b.get
  | .bool a, .bool b => a == b
  | .record a, .record b => AxValue.eqFields a b
  | .list a, .list b => AxValue.eqItems a b
  | _, _ => false

def AxValue.eqItems : List (AxValue F) → List (AxValue F) → Bool
  | [], [] => true
  | a :: as, b :: bs => AxValue.eq a b && AxValue.eqItems as bs
  | _, _ => false

def AxValue.eqFields : List (String × AxValue F) → List (String × AxValue F) → Bool
  | [], [] => true
  | (m, a) :: as, (n, b) :: bs => m == n && AxValue.eq a b && AxValue.eqFields as bs
  | _, _ => false

end

mutual

theorem AxValue.eq_comm : ∀ a b : AxValue F, a.eq b = b.eq a
  | .null, b => by cases b <;> rfl
  | .string a, b => by cases b <;> simp [AxValue.eq, BEq.comm (a := a)]
  | .number a, b => by cases b <;> simp [AxValue.eq, BEq.comm (a := a)]
  | .float a, b => by cases b <;> simp [AxValue.eq, Float64.eq_comm a.get]
  | .bool a, b => by cases b <;> simp [AxValue.eq, BEq.comm (a := a)]
  | .list a, b => by
    cases b with
    | list b => simpa [AxValue.eq] using AxValue.eqItems_comm a b
    | _ => rfl
  | .record a, b => by
    cases b with
    | record b => simpa [AxValue.eq] using AxValue.eqFields_comm a b
    | _ => rfl

theorem AxValue.eqItems_comm : ∀ a b : List (AxValue F), AxValue.eqItems a b = AxValue.eqItems b a
  | [], b => by cases b <;> rfl
  | a :: as, [] => rfl
  | a :: as, b :: bs => by
    simp only [AxValue.eqItems, AxValue.eq_comm a b, AxValue.eqItems_comm as bs]

theorem AxValue.eqFields_comm : ∀ a b : List (String × AxValue F),
    AxValue.eqFields a b = AxValue.eqFields b a
  | [], b => by cases b <;> rfl
  | a :: as, [] => rfl
  | (m, a) :: as, (n, b) :: bs => by
    simp only [AxValue.eqFields, AxValue.eq_comm a b, AxValue.eqFields_comm as bs,
      BEq.comm (a := m)]

end

def isZeroFloat (value : F) : Bool := floatEq value FloatOps.zero

def isTruthy : AxValue F → Bool
  | .null => false
  | .string value => !value.isEmpty
  | .number value => value != 0
  | .float value => !isZeroFloat value.get
  | .bool value => value
  | .record fields => !fields.isEmpty
  | .list items => !items.isEmpty

def AxValue.asString : AxValue F → String
  | .null => ""
  | .string value => value
  | .number value => toString value.toInt
  | .float value => FloatOps.display value.get
  | .bool value => toString value
  | .record _ => "[record]"
  | .list _ => "[list]"

def AxValue.isNull : AxValue F → Bool
  | .null => true
  | _ => false

end Values

section Operators

variable (overflowChecks : Bool)

def finiteFloatValue (value : F) (operator : String) : Eval (AxValue F) :=
  match AxFloat.new value with
  | some value => .ok (.float value)
  | none => fail (.unsupportedExpression (operator ++ " produced a non-finite Float"))

/-- The text of a scalar in a concatenation. -/
def scalarText : AxValue F → Option String
  | .string value => some value
  | .number value => some (toString value.toInt)
  | .float value => some (if isZeroFloat value.get then "0" else FloatOps.display value.get)
  | .bool value => some (toString value)
  | _ => none

def addValues : AxValue F → AxValue F → Eval (AxValue F)
  | .number left, .number right =>
    match checkedAdd left right with
    | some sum => .ok (.number sum)
    | none => fail (.unsupportedExpression "integer addition overflow")
  | .float left, .float right => finiteFloatValue (FloatOps.add left.get right.get) "\x60+\x60"
  | .number left, .float right =>
    finiteFloatValue (FloatOps.add (FloatOps.ofInt left) right.get) "\x60+\x60"
  | .float left, .number right =>
    finiteFloatValue (FloatOps.add left.get (FloatOps.ofInt right)) "\x60+\x60"
  | left@(.string _), right | left, right@(.string _) =>
    match scalarText left, scalarText right with
    | some left, some right => .ok (.string (left ++ right))
    | _, _ => fail (.unsupportedExpression "\x60+\x60 concatenation requires scalar operands")
  | _, _ => fail (.unsupportedExpression
      "\x60+\x60 requires two numbers or a String with a scalar operand")

/-- An integer operator of the language: on overflow it panics, or wraps around in a build
without overflow checks. -/
def rawInt (checked : Option Int64) (wrapped : Int64) : Eval Int64 :=
  match checked with
  | some value => .ok value
  | none => if overflowChecks then .error .panic else .ok wrapped

/-- Division and remainder panic on overflow in every build. -/
def rawDivision (checked : Option Int64) : Eval Int64 :=
  match checked with
  | some value => .ok value
  | none => .error .panic

def isZeroOperand : AxValue F → Bool
  | .number value => value == 0
  | .float value => isZeroFloat value.get
  | _ => false

def evalNumericBinary (left right : AxValue F) (intOperation : Int64 → Int64 → Eval Int64)
    (floatOperation : F → F → F) (operator : String) (rejectZeroRight : Bool) :
    Eval (AxValue F) :=
  if rejectZeroRight && isZeroOperand right then
    fail (.unsupportedExpression (operator ++ " cannot use zero as the right operand"))
  else match left, right with
    | .number left, .number right => (intOperation left right).map .number
    | .float left, .float right => finiteFloatValue (floatOperation left.get right.get) operator
    | .number left, .float right =>
      finiteFloatValue (floatOperation (FloatOps.ofInt left) right.get) operator
    | .float left, .number right =>
      finiteFloatValue (floatOperation left.get (FloatOps.ofInt right)) operator
    | _, _ => fail (.unsupportedExpression (operator ++ " expects numbers"))

/-- `partial_cmp(..).expect(..)`. -/
def expectOrdering (ordering : Option Ordering) (operation : Ordering → Bool) :
    Eval (AxValue F) :=
  match ordering with
  | some ordering => .ok (.bool (operation ordering))
  | none => .error .panic

def evalCompareBinary (left right : AxValue F) (operation : Ordering → Bool) (operator : String) :
    Eval (AxValue F) :=
  match left, right with
  | .number left, .number right => .ok (.bool (operation (compare left.toInt right.toInt)))
  | .float left, .float right => expectOrdering (FloatOps.partialCmp left.get right.get) operation
  | .number left, .float right =>
    expectOrdering (FloatOps.partialCmp (FloatOps.ofInt left) right.get) operation
  | .float left, .number right =>
    expectOrdering (FloatOps.partialCmp left.get (FloatOps.ofInt right)) operation
  | .string left, .string right => .ok (.bool (operation (compare left right)))
  | _, _ => fail (.unsupportedExpression (operator ++ " expects comparable values"))

def evalUnaryExpr (op : AxUnaryOp) (value : AxValue F) : Eval (AxValue F) :=
  match op with
  | .not => .ok (.bool (!isTruthy value))
  | .neg =>
    match value with
    | .number value => (rawInt overflowChecks (checkedNeg value) (-value)).map .number
    | .float value =>
      match AxFloat.new (FloatOps.neg value.get) with
      | some value => .ok (.float value)
      | none => .error .panic
    | _ => fail (.unsupportedExpression "unary \x60-\x60 expects a number")

/-- The three short-circuit operators never come here. -/
def evalBinaryExpr (op : AxBinaryOp) (left right : AxValue F) : Eval (AxValue F) :=
  match op with
  | .add => addValues left right
  | .sub => evalNumericBinary left right
      (fun a b => rawInt overflowChecks (checkedSub a b) (a - b)) FloatOps.sub "\x60-\x60" false
  | .mul => evalNumericBinary left right
      (fun a b => rawInt overflowChecks (checkedMul a b) (a * b)) FloatOps.mul "\x60*\x60" false
  | .div => evalNumericBinary left right (fun a b => rawDivision (checkedDiv a b)) FloatOps.div
      "\x60/\x60" true
  | .rem => evalNumericBinary left right (fun a b => rawDivision (checkedRem a b)) FloatOps.rem
      "\x60%\x60" true
  | .eq => .ok (.bool (left.eq right))
  | .ne => .ok (.bool (!left.eq right))
  | .gt => evalCompareBinary left right Ordering.isGT "\x60>\x60"
  | .ge => evalCompareBinary left right Ordering.isGE "\x60>=\x60"
  | .lt => evalCompareBinary left right Ordering.isLT "\x60<\x60"
  | .le => evalCompareBinary left right Ordering.isLE "\x60<=\x60"
  | .in =>
    match right with
    | .list items => .ok (.bool (items.any fun item => item.eq left))
    | _ => fail (.unsupportedExpression "\x60in\x60 expects a list on the right side")
  | .and | .or | .fallback => .error .panic

def evalIndexExpr (object index : AxValue F) : Eval (AxValue F) :=
  match object, index with
  | .list items, .number index =>
    if index.toInt < 0 then .ok .null else .ok (items[index.toInt.toNat]?.getD .null)
  | .record fields, .string key => .ok ((lookup fields key).getD .null)
  | _, _ => fail (.unsupportedExpression "index access expects List[Number] or Record[String]")

def memberValue (property : String) : AxValue F → Eval (AxValue F)
  | .record fields => .ok ((lookup fields property).getD .null)
  | _ => fail (.unknownMember property)

def optionalMemberValue (property : String) : Eval (AxValue F) → Eval (AxValue F)
  | .ok (.record fields) => .ok ((lookup fields property).getD .null)
  | .ok _ => .ok .null
  | .error (.error (.unknownIdentifier _)) | .error (.error (.unknownMember _)) => .ok .null
  | .error stop => .error stop

end Operators

section Evaluation

abbrev Scope (F : Type) [Float64 F] := String → Option (AxValue F)

def Scope.insert (scope : Scope F) (name : String) (value : AxValue F) : Scope F :=
  fun other => if other = name then some value else scope other

/-- What a call with evaluated arguments does in the scope of its caller. -/
abbrev Caller (F : Type) [Float64 F] := List String → List (AxValue F) → Scope F → Eval (AxValue F)

variable (overflowChecks : Bool) (call : Caller F)

mutual

def evalExpr (scope : Scope F) : AxExpr F → Eval (AxValue F)
  | .string value => .ok (.string value)
  | .number value => .ok (.number value)
  | .float value => .ok (.float value)
  | .bool value => .ok (.bool value)
  | .list items => (evalExprs scope items).map .list
  | .object fields => (evalFields scope fields).map .record
  | .identifier name =>
    if name = "null" then .ok .null
    else match scope name with
      | some value => .ok value
      | none => fail (.unknownIdentifier name)
  | .unary op expr => do
    let value ← evalExpr scope expr
    evalUnaryExpr overflowChecks op value
  | .binary op left right => do
    let leftValue ← evalExpr scope left
    match op with
    | .and =>
      if !isTruthy leftValue then return .bool false
      else
        let rightValue ← evalExpr scope right
        return .bool (isTruthy rightValue)
    | .or =>
      if isTruthy leftValue then return .bool true
      else
        let rightValue ← evalExpr scope right
        return .bool (isTruthy rightValue)
    | .fallback =>
      if !leftValue.isNull then return leftValue else evalExpr scope right
    | op =>
      let rightValue ← evalExpr scope right
      evalBinaryExpr overflowChecks op leftValue rightValue
  | .index object index => do
    let objectValue ← evalExpr scope object
    let indexValue ← evalExpr scope index
    evalIndexExpr objectValue indexValue
  | .member object property => do
    let value ← evalExpr scope object
    memberValue property value
  | .optionalMember object property => optionalMemberValue property (evalExpr scope object)
  | .call path args => do
    let values ← evalExprs scope args
    call path values scope

def evalExprs (scope : Scope F) : List (AxExpr F) → Eval (List (AxValue F))
  | [] => .ok []
  | expr :: rest => do
    let value ← evalExpr scope expr
    let values ← evalExprs scope rest
    return value :: values

def evalFields (scope : Scope F) : List (String × AxExpr F) → Eval (List (String × AxValue F))
  | [] => .ok []
  | (name, expr) :: rest => do
    let value ← evalExpr scope expr
    let values ← evalFields scope rest
    return (name, value) :: values

end

theorem evalExpr_fallback {scope : Scope F} {left : AxExpr F} (right : AxExpr F) {value : AxValue F}
    (evaluated : evalExpr overflowChecks call scope left = .ok value) :
    evalExpr overflowChecks call scope (.binary .fallback left right) =
      if !value.isNull then .ok value else evalExpr overflowChecks call scope right := by
  rw [evalExpr, evaluated]
  rfl

end Evaluation

section Subexpressions

variable (p : AxExpr F → Prop)

mutual

/-- A property of every proper subexpression. -/
def AxExpr.Below : AxExpr F → Prop
  | .unary _ expr => p expr ∧ expr.Below
  | .binary _ left right => (p left ∧ left.Below) ∧ p right ∧ right.Below
  | .index owner key => (p owner ∧ owner.Below) ∧ p key ∧ key.Below
  | .member owner _ | .optionalMember owner _ => p owner ∧ owner.Below
  | .call _ args => AxExpr.BelowAll args
  | .list items => AxExpr.BelowAll items
  | .object fields => AxExpr.BelowFields fields
  | .string _ | .number _ | .float _ | .bool _ | .identifier _ => True

def AxExpr.BelowAll : List (AxExpr F) → Prop
  | [] => True
  | expr :: rest => (p expr ∧ expr.Below) ∧ AxExpr.BelowAll rest

def AxExpr.BelowFields : List (String × AxExpr F) → Prop
  | [] => True
  | (_, expr) :: rest => (p expr ∧ expr.Below) ∧ AxExpr.BelowFields rest

end

/-- A property of an expression and of every subexpression. -/
def AxExpr.Every (expr : AxExpr F) : Prop := p expr ∧ expr.Below p

variable {p} {q : AxExpr F → Prop}

theorem belowAll_iff {items : List (AxExpr F)} :
    AxExpr.BelowAll p items ↔ ∀ item ∈ items, item.Every p := by
  induction items with
  | nil => exact ⟨fun _ _ member => (nomatch member), fun _ => trivial⟩
  | cons first rest ih => rw [AxExpr.BelowAll, ih, List.forall_mem_cons]; rfl

theorem belowFields_iff {fields : List (String × AxExpr F)} :
    AxExpr.BelowFields p fields ↔ ∀ field ∈ fields, field.2.Every p := by
  induction fields with
  | nil => exact ⟨fun _ _ member => (nomatch member), fun _ => trivial⟩
  | cons first rest ih => rw [AxExpr.BelowFields, ih, List.forall_mem_cons]; rfl

theorem every_of_below (same : ∀ expr : AxExpr F, expr.Below p → (p expr ↔ q expr))
    {expr : AxExpr F} (below : expr.Below p ↔ expr.Below q) : expr.Every p ↔ expr.Every q := by
  constructor
  · intro every
    exact ⟨(same expr every.2).mp every.1, below.mp every.2⟩
  · intro every
    have parts := below.mpr every.2
    exact ⟨(same expr parts).mpr every.1, parts⟩

mutual

theorem below_congr (same : ∀ expr : AxExpr F, expr.Below p → (p expr ↔ q expr)) :
    ∀ expr : AxExpr F, expr.Below p ↔ expr.Below q
  | .unary _ expr => every_of_below same (below_congr same expr)
  | .binary _ left right => and_congr (every_of_below same (below_congr same left))
      (every_of_below same (below_congr same right))
  | .index owner key => and_congr (every_of_below same (below_congr same owner))
      (every_of_below same (below_congr same key))
  | .member owner _ | .optionalMember owner _ => every_of_below same (below_congr same owner)
  | .call _ args => belowAll_congr same args
  | .list items => belowAll_congr same items
  | .object fields => belowFields_congr same fields
  | .string _ | .number _ | .float _ | .bool _ | .identifier _ => Iff.rfl

theorem belowAll_congr (same : ∀ expr : AxExpr F, expr.Below p → (p expr ↔ q expr)) :
    ∀ items : List (AxExpr F), AxExpr.BelowAll p items ↔ AxExpr.BelowAll q items
  | [] => Iff.rfl
  | expr :: rest => and_congr (every_of_below same (below_congr same expr))
      (belowAll_congr same rest)

theorem belowFields_congr (same : ∀ expr : AxExpr F, expr.Below p → (p expr ↔ q expr)) :
    ∀ fields : List (String × AxExpr F), AxExpr.BelowFields p fields ↔ AxExpr.BelowFields q fields
  | [] => Iff.rfl
  | (_, expr) :: rest => and_congr (every_of_below same (below_congr same expr))
      (belowFields_congr same rest)

end

/-- Two properties that agree above parts with the first one hold of the same trees. -/
theorem every_congr (same : ∀ expr : AxExpr F, expr.Below p → (p expr ↔ q expr))
    (expr : AxExpr F) : expr.Every p ↔ expr.Every q :=
  every_of_below same (below_congr same expr)

end Subexpressions

section Calls

/-- The server's side of a call: its functions and the data resolver. -/
structure Server (F : Type) [Float64 F] where
  overflowChecks : Bool
  functions : List (AxFunctionDef F)
  resolveCall : List String → List (AxValue F) → Option (AxValue F)

def findFunction (functions : List (AxFunctionDef F)) (name : String) : Option (AxFunctionDef F) :=
  functions.reverse.find? fun function => function.name == name

def resolveFunction (functions : List (AxFunctionDef F)) : List String → Option (AxFunctionDef F)
  | [name] => findFunction functions name
  | _ => none

/-- The parameters of a call on top of the caller's scope; defaults see the earlier ones. -/
def bindParams (eval : Scope F → AxExpr F → Eval (AxValue F)) :
    List (AxComponentParamDef F) → List (AxValue F) → Scope F → Eval (Scope F)
  | [], _, scope => .ok scope
  | param :: params, arg :: args, scope => bindParams eval params args (scope.insert param.name arg)
  | param :: params, [], scope => do
    let value ← match param.default with
      | some default => eval scope default
      | none => .ok .null
    bindParams eval params [] (scope.insert param.name value)

def evalFunctionCall (eval : Scope F → AxExpr F → Eval (AxValue F)) (function : AxFunctionDef F)
    (args : List (AxValue F)) (scope : Scope F) : Eval (AxValue F) := do
  let functionScope ← bindParams eval function.params args scope
  eval functionScope function.body

variable (server : Server F)

/-- Calls with `depth` nested local functions at most. -/
def callAt : Nat → Caller F
  | depth, path, args, scope =>
    match resolveFunction server.functions path with
    | some function =>
      match depth with
      | 0 => .error .stackOverflow
      | depth + 1 =>
        evalFunctionCall (evalExpr server.overflowChecks (callAt depth)) function args scope
    | none =>
      match server.resolveCall path args with
      | some value => .ok value
      | none => fail (.unsupportedCall (Text.join "." path))

def evalAt (depth : Nat) (scope : Scope F) (expr : AxExpr F) : Eval (AxValue F) :=
  evalExpr server.overflowChecks (callAt server depth) scope expr

end Calls

end Axonyx.Core
