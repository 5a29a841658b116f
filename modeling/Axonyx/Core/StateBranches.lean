import Axonyx.Core.Document
import Axonyx.Core.Initializers
import Axonyx.Core.Reactive

/-! Reactive `if` and `match`. Which branch is visible at first is decided on texts, by the
declared type and the initial literal of the state; the evaluator decides on values. -/
namespace Axonyx.Core

variable {F : Type} [Float64 F]

section Literals

/-- `char::is_control`. -/
def isControl (c : Char) : Bool := c.toNat < 32 || (127 ≤ c.toNat && c.toNat < 160)

/-- `{:04x}`. -/
def hexPadded (n : Nat) : List Char :=
  let digits := Nat.toDigits 16 n
  List.replicate (4 - digits.length) '0' ++ digits

def quoteStateChar (c : Char) : List Char :=
  if c = '"' then ['\\', '"']
  else if c = '\\' then ['\\', '\\']
  else if c = '\n' then ['\\', 'n']
  else if c = '\r' then ['\\', 'r']
  else if c = '\t' then ['\\', 't']
  else if isControl c then '\\' :: 'u' :: hexPadded c.toNat
  else [c]

def quoteStateString (value : String) : String :=
  "\"" ++ .ofList (value.toList.flatMap quoteStateChar) ++ "\""

mutual

/-- The text of a literal. A string of its own is written by `quote`, one inside a list or an
object is always quoted. -/
def literalText (quote : String → String) : AxExpr F → Option String
  | .string value => some (quote value)
  | .number value => some (toString value.toInt)
  | .float value => some (FloatOps.display value.get)
  | .bool value => some (toString value)
  | .identifier name => if name = "null" then some "null" else none
  | .list items => (literalTexts items).map fun texts => "[" ++ Text.join "," texts ++ "]"
  | .object fields => (fieldTexts fields).map fun texts => "\x7b" ++ Text.join "," texts ++ "\x7d"
  | .unary _ _ | .binary _ _ _ | .index _ _ | .member _ _ | .optionalMember _ _ | .call _ _ => none

def literalTexts : List (AxExpr F) → Option (List String)
  | [] => some []
  | item :: items => do
    let text ← literalText quoteStateString item
    let texts ← literalTexts items
    return text :: texts

def fieldTexts : List (String × AxExpr F) → Option (List String)
  | [] => some []
  | (name, value) :: fields => do
    let text ← literalText quoteStateString value
    let texts ← fieldTexts fields
    return (quoteStateString name ++ ":" ++ text) :: texts

end

def stateEventLiteral (expr : AxExpr F) : Option String := literalText id expr

end Literals

section Declarations

def AxType.supportsClientState : AxType → Bool
  | .decimal | .file | .never | .void | .secret _ | .signal _ | .resource _ _ => false
  | .list item | .set item | .optional item | .public item => item.supportsClientState
  | .map key value | .result key value => key.supportsClientState && value.supportsClientState
  | _ => true

inductive StateError where
  | invalidExpression (source : String)
  | unsupportedComponentStateType (name ty : String)
  | invalidStateInitializer (source : String)
  deriving DecidableEq, Repr

structure AxStateDeclV2 where
  name : String
  ty : Option String
  value : String

def isSupportedClientStateType (source : String) : Bool :=
  match AxType.parseAnnotation source with
  | .ok ty => ty.supportsClientState
  | .error _ => false

def stateInitializerMatchesType (context : AxDataContext) (value : AxExpr F) (source : String) : Bool :=
  match AxType.parseAnnotation source with
  | .ok ty => context.acceptsStateInitializer ty value
  | .error _ => false

def inferStateType : AxExpr F → String
  | .string _ => "String"
  | .bool _ => "Bool"
  | .number _ => "Number"
  | .float _ => "Float"
  | .list _ => "List<Unknown>"
  | .object _ => "Json"
  | _ => "Unknown"

variable (parse : String → Option (AxExpr F)) (context : AxDataContext)

/-- The value of an initializer, without the `signal` around it. -/
def parseStateInitializer (source : String) : Except StateError (AxExpr F) :=
  match parse source with
  | none => .error (.invalidExpression source)
  | some (.call path args) =>
    match path, args with
    | ["signal"], [arg] => .ok arg
    | _, _ => .error (.invalidStateInitializer source)
  | some value => .ok value

/-- The text of an initial value that its declared type accepts. -/
def initialLiteral (name ty source : String) (value : AxExpr F) : Except StateError String :=
  if !isSupportedClientStateType ty then .error (.unsupportedComponentStateType name ty)
  else if !stateInitializerMatchesType context value ty then .error (.invalidStateInitializer source)
  else match stateEventLiteral value with
    | some initial => .ok initial
    | none => .error (.invalidStateInitializer source)

def stateBinding (signalId : String) (state : AxStateDeclV2) :
    Except StateError (StateBindingPlan × AxExpr F) := do
  let value ← parseStateInitializer parse state.value
  let ty := state.ty.getD (inferStateType value)
  let initial ← initialLiteral context state.name ty state.value value
  return ({ signalId, ty, initial }, value)

/-- The bindings of a list of states, and their initial values in the order of the list; `signal`
names a state by its place. -/
def declareStates (signal : Nat → AxStateDeclV2 → String) :
    Nat → List AxStateDeclV2 → List (String × StateBindingPlan) →
      Except StateError (List (String × StateBindingPlan) × List (String × AxExpr F))
  | _, [], bindings => .ok (bindings, [])
  | index, state :: states, bindings => do
    let (binding, value) ← stateBinding parse context (signal index state) state
    let (bindings, values) ←
      declareStates signal (index + 1) states (insertField bindings state.name binding)
    return (bindings, (state.name, value) :: values)

/-- The states of a page. -/
def collectStateBindings (states : List AxStateDeclV2) :
    Except StateError (List (String × StateBindingPlan) × List (String × AxExpr F)) :=
  declareStates parse context
    (fun index state => "root:" ++ state.name ++ ":" ++ toString (index + 1)) 0 states []

/-- The states of a component on top of those of its page. -/
def componentStateBindings (component : String) (page : List (String × StateBindingPlan))
    (states : List AxStateDeclV2) :
    Except StateError (List (String × StateBindingPlan) × List (String × AxExpr F)) :=
  declareStates parse context (fun index state =>
    "__ax_component_state__:" ++ component ++ ":" ++ state.name ++ ":" ++ toString (index + 1)) 0 states page

variable (overflowChecks : Bool) (call : Caller F)

/-- The initial values are bound one after the other. -/
def bindStates : List (String × AxExpr F) → Scope F → Eval (Scope F)
  | [], scope => .ok scope
  | (name, initial) :: values, scope => do
    let value ← evalExpr overflowChecks call scope initial
    bindStates values (scope.insert name value)

end Declarations

section Conditions

inductive StateConditionOp where
  | truthy | falsy
  | eq | ne | gt | ge | lt | le
  deriving DecidableEq, Repr

structure StateConditionPlan where
  signalId : String
  ty : String
  initial : String
  op : StateConditionOp
  value : Option String

def StateBindingPlan.condition (binding : StateBindingPlan) (op : StateConditionOp)
    (value : Option String) : StateConditionPlan :=
  { signalId := binding.signalId, ty := binding.ty, initial := binding.initial, op, value }

def conditionOp : AxBinaryOp → Option StateConditionOp
  | .eq => some .eq
  | .ne => some .ne
  | .gt => some .gt
  | .ge => some .ge
  | .lt => some .lt
  | .le => some .le
  | _ => none

def stateConditionPlan (states : String → Option StateBindingPlan) :
    AxExpr F → Option StateConditionPlan
  | .identifier name => (states name).map fun binding => binding.condition .truthy none
  | .unary .not (.identifier name) => (states name).map fun binding => binding.condition .falsy none
  | .binary op (.identifier name) right => do
    let binding ← states name
    let value ← stateEventLiteral right
    let op ← conditionOp op
    return binding.condition op (some value)
  | _ => none

/-- `parse::<i64>().unwrap_or_default()`. -/
def integerOf (text : String) : Int64 := (Text.parseI64 text.toList).getD 0

def evaluateInitialStateCondition (plan : StateConditionPlan) : Bool :=
  if plan.ty = "Bool" then
    let current : Bool := plan.initial = "true"
    let expected := plan.value.any (· = "true")
    match plan.op with
    | .truthy => current
    | .falsy => !current
    | .eq => current == expected
    | .ne => current != expected
    | _ => false
  else if plan.ty = "Number" then
    let current := integerOf plan.initial
    let expected := (plan.value.map integerOf).getD 0
    match plan.op with
    | .truthy => current ≠ 0
    | .falsy => current = 0
    | .eq => current = expected
    | .ne => current ≠ expected
    | .gt => current > expected
    | .ge => current ≥ expected
    | .lt => current < expected
    | .le => current ≤ expected
  else
    match plan.op with
    | .truthy => !plan.initial.isEmpty
    | .falsy => plan.initial.isEmpty
    | .eq => plan.value = some plan.initial
    | .ne => plan.value ≠ some plan.initial
    | _ => false

end Conditions

section Branches

variable {Body : Type}

/-- A branch of a reactive block: the value of a case, or none of the default. -/
structure StateBranch (Body : Type) where
  case : Option String
  body : Body
  hidden : Bool

def stateMatchComponent (binding : StateBindingPlan) (cases : List (AxMatchCase Body))
    (default : Option Body) : List (StateBranch Body) :=
  let hasInitialCase := cases.any fun case => case.value = binding.initial
  cases.map (fun case => ⟨some case.value, case.body, !decide (case.value = binding.initial)⟩) ++
    (default.map fun body => ⟨none, body, hasInitialCase⟩).toList

/-- The branch that a plain `match` renders for a value: its first case of that text, else the
default. -/
def matchBranch (cases : List (AxMatchCase Body)) (default : Option Body) (value : AxValue F) :
    Option (Option String × Body) :=
  ((cases.find? fun case => case.value = value.asString).map fun case => (some case.value, case.body)).or
    (default.map fun body => (none, body))

/-- What is to be seen of a reactive block before anything happens. -/
def visibleBranches (branches : List (StateBranch Body)) : List (Option String × Body) :=
  (branches.filter fun branch => !branch.hidden).map fun branch => (branch.case, branch.body)

end Branches

section Constants

mutual

/-- The value of a literal, which no scope changes. -/
def AxExpr.constant : AxExpr F → AxValue F
  | .string value => .string value
  | .number value => .number value
  | .float value => .float value
  | .bool value => .bool value
  | .list items => .list (constants items)
  | .object fields => .record (constantFields fields)
  | .identifier _ | .unary _ _ | .binary _ _ _ | .index _ _ | .member _ _ | .optionalMember _ _ |
    .call _ _ => .null

def constants : List (AxExpr F) → List (AxValue F)
  | [] => []
  | item :: items => item.constant :: constants items

def constantFields : List (String × AxExpr F) → List (String × AxValue F)
  | [] => []
  | (name, value) :: fields => (name, value.constant) :: constantFields fields

end

variable {overflowChecks : Bool} {call : Caller F} {scope : Scope F}

mutual

theorem eval_literal {quote : String → String} {expr : AxExpr F} {text : String}
    (written : literalText quote expr = some text) :
    evalExpr overflowChecks call scope expr = .ok expr.constant := by
  match expr with
  | .string _ | .number _ | .float _ | .bool _ => rfl
  | .identifier name =>
    simp only [literalText] at written
    split at written
    next known => rw [evalExpr, if_pos known, AxExpr.constant]
    · cases written
  | .list items =>
    obtain ⟨texts, parts, _⟩ := Option.map_eq_some_iff.mp written
    rw [evalExpr, eval_literals parts]
    rfl
  | .object fields =>
    obtain ⟨texts, parts, _⟩ := Option.map_eq_some_iff.mp written
    rw [evalExpr, eval_literalFields parts]
    rfl
  | .unary _ _ | .binary _ _ _ | .index _ _ | .member _ _ | .optionalMember _ _ | .call _ _ => cases written

theorem eval_literals {items : List (AxExpr F)} {texts : List String}
    (written : literalTexts items = some texts) :
    evalExprs overflowChecks call scope items = .ok (constants items) := by
  match items with
  | [] => rfl
  | item :: items =>
    simp only [literalTexts, Option.bind_eq_bind, Option.bind_eq_some_iff] at written
    obtain ⟨_, first, _, rest, _⟩ := written
    rw [evalExprs, eval_literal first, eval_literals rest]
    rfl

theorem eval_literalFields {fields : List (String × AxExpr F)} {texts : List String}
    (written : fieldTexts fields = some texts) :
    evalFields overflowChecks call scope fields = .ok (constantFields fields) := by
  match fields with
  | [] => rfl
  | (name, value) :: fields =>
    simp only [fieldTexts, Option.bind_eq_bind, Option.bind_eq_some_iff] at written
    obtain ⟨_, first, _, rest, _⟩ := written
    rw [evalFields, eval_literal first, eval_literalFields rest]
    rfl

end

end Constants

section Accepted

variable {context : AxDataContext} {name ty source initial : String} {value : AxExpr F}

/-- What the checks leave of an initial value. -/
structure Accepted (ty initial : String) (value : AxExpr F) : Prop where
  text : stateEventLiteral value = some initial
  bool : ty = "Bool" → ∃ flag, value = .bool flag
  number : ty = "Number" → (∃ n, value = .number n) ∨ ∃ f, value = .float f

theorem parse_bool : AxType.parseAnnotation "Bool" = .ok .bool := by decide +kernel
theorem parse_number : AxType.parseAnnotation "Number" = .ok .number := by decide +kernel

theorem initialLiteral_accepted (checked : initialLiteral context name ty source value = .ok initial) :
    Accepted ty initial value := by
  unfold initialLiteral at checked
  split at checked
  · cases checked
  · split at checked
    · cases checked
    next _ matched =>
      have fits : stateInitializerMatchesType context value ty = true := by simpa using matched
      refine ⟨?_, ?_, ?_⟩
      · split at checked <;> cases checked
        assumption
      · rintro rfl
        rw [stateInitializerMatchesType, parse_bool] at fits
        cases value <;> first | exact ⟨_, rfl⟩ | cases fits
      · rintro rfl
        rw [stateInitializerMatchesType, parse_number] at fits
        cases value <;> first | exact .inl ⟨_, rfl⟩ | exact .inr ⟨_, rfl⟩ | cases fits

theorem integerOf_number (n : Int64) : integerOf (toString n.toInt) = n := by
  have parsed := Text.parseI64_toString n
  rw [integerOf]
  exact congrArg (Option.getD · 0) parsed

end Accepted

section Agreement

/-- Where a test of the state alone comes out as the evaluator has it. The evaluator never reads a
state named `null`. -/
def TruthKept (name ty : String) (value : AxExpr F) : Prop :=
  if name = "null" then
    match value with
    | .string text => text = ""
    | .bool flag => ty = "Bool" ∧ flag = false
    | .number n => ty = "Number" ∧ n = 0
    | .float f => ty = "Number" ∧ integerOf (FloatOps.display f.get) = 0
    | _ => False
  else
    match value with
    | .string _ => True
    | .bool flag => ty = "Bool" ∨ flag = true
    | .number n => ty = "Number" ∨ n ≠ 0
    | .float f =>
      if ty = "Number" then integerOf (FloatOps.display f.get) = 0 ↔ isZeroFloat f.get = true
      else isZeroFloat f.get = false
    | .list items => items ≠ []
    | .object fields => fields ≠ []
    | _ => False

/-- What the plan compares for `==`. -/
def SameReading (ty initial operand : String) : Prop :=
  if ty = "Bool" then (initial = "true" ↔ operand = "true")
  else if ty = "Number" then integerOf initial = integerOf operand
  else operand = initial

/-- Where `==` and `!=` come out as the evaluator has them: literals of one kind, or else of
different readings. -/
def EqualityKept (name ty initial operand : String) (value right : AxExpr F) : Prop :=
  if name = "null" then SameReading ty initial operand ↔ isNullExpr right = true
  else match value, right with
    | .bool _, .bool _ | .number _, .number _ | .string _, .string _ => True
    | .identifier _, .identifier _ => True
    | .float f, .float g => SameReading ty initial operand ↔ floatEq f.get g.get = true
    | .list a, .list b =>
      SameReading ty initial operand ↔ AxValue.eqItems (constants a) (constants b) = true
    | .object a, .object b =>
      SameReading ty initial operand ↔ AxValue.eqFields (constantFields a) (constantFields b) = true
    | _, _ => ¬ SameReading ty initial operand

/-- How the evaluator orders two values; others stop it. -/
def orderOf : AxValue F → AxValue F → Option Ordering
  | .number left, .number right => some (compare left.toInt right.toInt)
  | .float left, .float right => FloatOps.partialCmp left.get right.get
  | .number left, .float right => FloatOps.partialCmp (FloatOps.ofInt left) right.get
  | .float left, .number right => FloatOps.partialCmp left.get (FloatOps.ofInt right)
  | .string left, .string right => some (compare left right)
  | _, _ => none

/-- Where a comparison comes out as the evaluator has it: the evaluator can make it, and it holds
exactly if the declared type is `Number` and it holds of the integers read. -/
def OrderingKept (test : Ordering → Bool) (name ty initial operand : String)
    (value right : AxExpr F) : Prop :=
  name ≠ "null" ∧ ∃ ordering, orderOf value.constant right.constant = some ordering ∧
    (test ordering = true ↔ ty = "Number" ∧
      test (compare (integerOf initial).toInt (integerOf operand).toInt) = true)

theorem expectOrdering_truth {compared : Option Ordering} {test : Ordering → Bool} {truth : Bool} :
    (expectOrdering compared test : Eval (AxValue F)).map isTruthy = .ok truth ↔
      ∃ ordering, compared = some ordering ∧ test ordering = truth := by
  cases compared <;> simp [expectOrdering, Except.map, isTruthy]

theorem evalCompareBinary_truth {left right : AxValue F} {test : Ordering → Bool} {operator : String}
    {truth : Bool} : (evalCompareBinary left right test operator).map isTruthy = .ok truth ↔
      ∃ ordering, orderOf left right = some ordering ∧ test ordering = truth := by
  cases left <;> cases right <;>
    first
    | exact expectOrdering_truth
    | simp [evalCompareBinary, orderOf, Except.map, isTruthy, fail]

variable {binding : StateBindingPlan} {operand : String}

/-- What the plan takes the initial text for. -/
def ReadsTrue (ty initial : String) : Prop :=
  if ty = "Bool" then initial = "true"
  else if ty = "Number" then integerOf initial ≠ 0
  else initial ≠ ""

theorem isEmpty_iff {text : String} : text.isEmpty = true ↔ text = "" := by
  simp

theorem evaluate_truthy {value : Option String} :
    evaluateInitialStateCondition (binding.condition .truthy value) = true ↔
      ReadsTrue binding.ty binding.initial := by
  unfold evaluateInitialStateCondition ReadsTrue StateBindingPlan.condition
  dsimp only
  split
  · exact decide_eq_true_iff
  · split
    · exact decide_eq_true_iff
    · rw [Bool.not_eq_true', ← Bool.not_eq_true, isEmpty_iff]

theorem evaluate_falsy {value : Option String} :
    evaluateInitialStateCondition (binding.condition .falsy value) =
      !evaluateInitialStateCondition (binding.condition .truthy value) := by
  unfold evaluateInitialStateCondition StateBindingPlan.condition
  dsimp only
  split
  · rfl
  · split
    · rw [decide_not, Bool.not_not]
    · rw [Bool.not_not]

theorem evaluate_eq :
    evaluateInitialStateCondition (binding.condition .eq (some operand)) = true ↔
      SameReading binding.ty binding.initial operand := by
  unfold evaluateInitialStateCondition SameReading StateBindingPlan.condition
  dsimp only
  split
  · rw [Option.any_some, beq_iff_eq, Bool.eq_iff_iff, decide_eq_true_iff, decide_eq_true_iff]
  · split
    · simp only [Option.map_some, Option.getD_some, decide_eq_true_eq]
    · simp only [Option.some.injEq, decide_eq_true_eq]

theorem evaluate_ne :
    evaluateInitialStateCondition (binding.condition .ne (some operand)) =
      !evaluateInitialStateCondition (binding.condition .eq (some operand)) := by
  unfold evaluateInitialStateCondition StateBindingPlan.condition
  dsimp only
  split
  · rfl
  · split
    · rw [decide_not]
    · rw [decide_not]

/-- The comparisons, by what they ask of an ordering. -/
def orderTest : StateConditionOp → Option (Ordering → Bool)
  | .gt => some Ordering.isGT
  | .ge => some Ordering.isGE
  | .lt => some Ordering.isLT
  | .le => some Ordering.isLE
  | _ => none

theorem evaluate_order {op : StateConditionOp} {test : Ordering → Bool} (ordered : orderTest op = some test) :
    evaluateInitialStateCondition (binding.condition op (some operand)) = true ↔
      binding.ty = "Number" ∧
        test (compare (integerOf binding.initial).toInt (integerOf operand).toInt) = true := by
  unfold evaluateInitialStateCondition StateBindingPlan.condition
  by_cases flag : binding.ty = "Bool"
  · have other : binding.ty ≠ "Number" := by rw [flag]; decide
    cases op <;> cases ordered <;> simp [flag]
  · by_cases number : binding.ty = "Number"
    · cases op <;> cases ordered
      · simp [number, Int64.lt_iff_toInt_lt, Ordering.isGT_iff_eq_gt, Int.compare_eq_gt]
      · simp [number, Int64.le_iff_toInt_le, Int.isGE_compare]
      · simp [number, Int64.lt_iff_toInt_lt, Ordering.isLT_iff_eq_lt, Int.compare_eq_lt]
      · simp [number, Int64.le_iff_toInt_le, Int.isLE_compare]
    · cases op <;> cases ordered <;> simp [flag, number]

end Agreement

section Kinds

variable {name ty initial : String} {value right : AxExpr F}

/-- What the evaluator finds under the name of a state. -/
def subject (name : String) (value : AxExpr F) : AxValue F :=
  if name = "null" then .null else value.constant

theorem number_text_ne (n : Int64) : toString n.toInt ≠ "" := by
  intro empty
  have parsed := Text.parseI64_toString n
  have none : Text.parseI64 (toString n.toInt).toList = none := by rw [empty]; rfl
  cases none.symm.trans parsed

theorem wrapped_ne (first middle last : String) (some : first ≠ "") : first ++ middle ++ last ≠ "" := by
  intro empty
  apply some
  have chars := congrArg String.toList empty
  simp only [String.toList_append, String.toList_empty, List.append_eq_nil_iff] at chars
  exact String.toList_eq_nil_iff.mp chars.1.1

theorem flag_text {flag : Bool} : toString flag = "true" ↔ flag = true := by
  cases flag <;> decide

theorem truth_kept_bool (accepted : Accepted "Bool" initial value) :
    (ReadsTrue "Bool" initial ↔ isTruthy (subject name value) = true) ↔ TruthKept name "Bool" value := by
  obtain ⟨flag, rfl⟩ := accepted.bool rfl
  have text : toString flag = initial := Option.some.inj accepted.text
  rw [← text, ReadsTrue, if_pos rfl, flag_text, subject]
  unfold TruthKept
  by_cases null : name = "null"
  · simp [null, isTruthy]
  · simp [null, isTruthy, AxExpr.constant]

theorem truth_kept_number (accepted : Accepted "Number" initial value) :
    (ReadsTrue "Number" initial ↔ isTruthy (subject name value) = true) ↔
      TruthKept name "Number" value := by
  have other : ("Number" : String) ≠ "Bool" := by decide
  rw [ReadsTrue, if_neg other, if_pos rfl, subject]
  unfold TruthKept
  rcases accepted.number rfl with ⟨n, rfl⟩ | ⟨f, rfl⟩
  · have text : toString n.toInt = initial := Option.some.inj accepted.text
    rw [← text, integerOf_number]
    by_cases null : name = "null"
    · simp [null, isTruthy]
    · simp [null, isTruthy, AxExpr.constant]
  · have text : FloatOps.display f.get = initial := Option.some.inj accepted.text
    rw [← text]
    by_cases null : name = "null"
    · simp [null, isTruthy]
    · by_cases zero : isZeroFloat f.get = true <;> simp [null, isTruthy, AxExpr.constant, zero]

/-- A text that is not a string's own is never empty. -/
theorem text_ne (shown : ∀ f : F, FloatOps.display f ≠ "") (written : stateEventLiteral value = some initial)
    (other : ∀ text, value ≠ .string text) : initial ≠ "" := by
  cases value with
  | string text => exact absurd rfl (other text)
  | number n =>
    cases written
    exact number_text_ne n
  | float f =>
    cases written
    exact shown f.get
  | bool flag =>
    cases written
    cases flag <;> decide
  | identifier known =>
    simp only [stateEventLiteral, literalText] at written
    split at written <;> cases written
    decide
  | list items =>
    obtain ⟨texts, _, rfl⟩ := Option.map_eq_some_iff.mp written
    exact wrapped_ne "[" _ "]" (by decide)
  | object fields =>
    obtain ⟨texts, _, rfl⟩ := Option.map_eq_some_iff.mp written
    exact wrapped_ne _ _ _ (by decide)
  | _ => cases written

theorem constants_isEmpty (items : List (AxExpr F)) : (constants items).isEmpty = items.isEmpty := by
  cases items <;> rfl

theorem constantFields_isEmpty (fields : List (String × AxExpr F)) :
    (constantFields fields).isEmpty = fields.isEmpty := by
  cases fields <;> rfl

theorem truth_kept_other (shown : ∀ f : F, FloatOps.display f ≠ "") (flag : ty ≠ "Bool")
    (number : ty ≠ "Number") (written : stateEventLiteral value = some initial) :
    (ReadsTrue ty initial ↔ isTruthy (subject name value) = true) ↔ TruthKept name ty value := by
  rw [ReadsTrue, if_neg flag, if_neg number, subject]
  unfold TruthKept
  have filled := text_ne shown written
  cases value with
  | string text =>
    obtain rfl : text = initial := Option.some.inj written
    by_cases null : name = "null" <;> simp [null, isTruthy, AxExpr.constant]
  | bool truth =>
    have filled := filled (by simp)
    by_cases null : name = "null" <;> simp [null, isTruthy, AxExpr.constant, flag, filled]
  | number n =>
    have filled := filled (by simp)
    by_cases null : name = "null" <;> simp [null, isTruthy, AxExpr.constant, number, filled]
  | float f =>
    have filled := filled (by simp)
    by_cases null : name = "null" <;> simp [null, isTruthy, AxExpr.constant, number, filled]
  | identifier known =>
    have filled := filled (by simp)
    by_cases null : name = "null" <;> simp [null, isTruthy, AxExpr.constant, filled]
  | list items =>
    have filled := filled (by simp)
    by_cases null : name = "null" <;>
      simp [null, isTruthy, AxExpr.constant, filled, constants_isEmpty]
  | object fields =>
    have filled := filled (by simp)
    by_cases null : name = "null" <;>
      simp [null, isTruthy, AxExpr.constant, filled, constantFields_isEmpty]
  | _ => cases written

theorem truth_kept_iff (shown : ∀ f : F, FloatOps.display f ≠ "") (accepted : Accepted ty initial value) :
    (ReadsTrue ty initial ↔ isTruthy (subject name value) = true) ↔ TruthKept name ty value := by
  by_cases flag : ty = "Bool"
  · subst flag
    exact truth_kept_bool accepted
  · by_cases number : ty = "Number"
    · subst number
      exact truth_kept_number accepted
    · exact truth_kept_other shown flag number accepted.text

variable {operand : String}

theorem number_text_inj {m n : Int64} : toString m.toInt = toString n.toInt ↔ m = n := by
  constructor
  · intro same
    rw [← integerOf_number m, same, integerOf_number]
  · rintro rfl
    rfl

theorem flag_text_inj {a b : Bool} : toString a = toString b ↔ a = b := by
  cases a <;> cases b <;> decide

/-- Two flags read alike exactly if they are the same, whatever the type. -/
theorem sameReading_bool {a b : Bool} (accepted : Accepted ty (toString a) (.bool a : AxExpr F)) :
    SameReading ty (toString a) (toString b) ↔ (a == b) = true := by
  unfold SameReading
  split
  · rw [flag_text, flag_text, ← Bool.eq_iff_iff, beq_iff_eq]
  · split
    next number => rcases accepted.number number with ⟨_, same⟩ | ⟨_, same⟩ <;> cases same
    · rw [flag_text_inj, beq_iff_eq, eq_comm]

theorem sameReading_number {a b : Int64}
    (accepted : Accepted ty (toString a.toInt) (.number a : AxExpr F)) :
    SameReading ty (toString a.toInt) (toString b.toInt) ↔ (a == b) = true := by
  unfold SameReading
  split
  next flag =>
    obtain ⟨_, same⟩ := accepted.bool flag
    cases same
  · split
    · rw [integerOf_number, integerOf_number, beq_iff_eq]
    · rw [number_text_inj, beq_iff_eq, eq_comm]

/-- Neither a `Bool` nor a `Number` begins as anything else, and other texts are compared as they
are. -/
theorem sameReading_other (accepted : Accepted ty initial value) (noFlag : ∀ flag, value ≠ .bool flag)
    (noNumber : ∀ n, value ≠ .number n) (noFloat : ∀ f, value ≠ .float f) :
    SameReading ty initial operand ↔ operand = initial := by
  unfold SameReading
  split
  next flag =>
    obtain ⟨_, same⟩ := accepted.bool flag
    exact absurd same (noFlag _)
  · split
    next number =>
      rcases accepted.number number with ⟨_, same⟩ | ⟨_, same⟩
      · exact absurd same (noNumber _)
      · exact absurd same (noFloat _)
    · rfl

theorem isNull_constant (written : stateEventLiteral right = some operand) :
    AxValue.eq .null right.constant = true ↔ isNullExpr right = true := by
  cases right with
  | identifier known =>
    simp only [stateEventLiteral, literalText] at written
    split at written <;> cases written
    next null => simp [AxExpr.constant, AxValue.eq, isNullExpr, null]
  | string _ | number _ | float _ | bool _ | list _ | object _ =>
    simp [AxExpr.constant, AxValue.eq, isNullExpr]
  | _ => cases written

theorem null_text {known : String} (written : stateEventLiteral (.identifier known : AxExpr F) = some initial) :
    initial = "null" := by
  simp only [stateEventLiteral, literalText] at written
  split at written <;> cases written
  rfl

theorem equality_kept_iff (accepted : Accepted ty initial value)
    (written : stateEventLiteral right = some operand) :
    (SameReading ty initial operand ↔ (subject name value).eq right.constant = true) ↔
      EqualityKept name ty initial operand value right := by
  unfold EqualityKept subject
  by_cases null : name = "null"
  · rw [if_pos null, if_pos null, isNull_constant written]
  · rw [if_neg null, if_neg null]
    have text := accepted.text
    split
    · cases text
      cases written
      exact iff_true_intro (sameReading_bool accepted)
    · cases text
      cases written
      exact iff_true_intro (sameReading_number accepted)
    next a b =>
      obtain rfl : a = initial := Option.some.inj text
      obtain rfl : b = operand := Option.some.inj written
      apply iff_true_intro
      rw [sameReading_other accepted (by simp) (by simp) (by simp)]
      simp only [AxExpr.constant, AxValue.eq, beq_iff_eq]
      exact eq_comm
    · apply iff_true_intro
      rw [sameReading_other accepted (by simp) (by simp) (by simp), null_text text, null_text written]
      simp [AxExpr.constant, AxValue.eq]
    · rfl
    · rfl
    · rfl
    next bools numbers strings nulls floats lists objects =>
      have apart : value.constant.eq right.constant = false := by
        cases value <;> cases right <;>
          first
          | rfl
          | exact (bools _ _ rfl rfl).elim
          | exact (numbers _ _ rfl rfl).elim
          | exact (strings _ _ rfl rfl).elim
          | exact (nulls _ _ rfl rfl).elim
          | exact (floats _ _ rfl rfl).elim
          | exact (lists _ _ rfl rfl).elim
          | exact (objects _ _ rfl rfl).elim
          | cases text
          | cases written
      rw [apart]
      simp only [Bool.false_eq_true, iff_false]

end Kinds

section Match

variable {Body : Type}

/-- Where a reactive `match` shows what the plain one renders: the texts of the initial value agree
and no second case has that text, or no case has either text. -/
def MatchKept (initial rendered : String) (cases : List (AxMatchCase Body)) : Prop :=
  (initial = rendered ∧ cases.countP (fun case => case.value = initial) ≤ 1) ∨
    ∀ case ∈ cases, case.value ≠ initial ∧ case.value ≠ rendered

theorem visible_cases (binding : StateBindingPlan) (cases : List (AxMatchCase Body))
    (default : Option Body) : visibleBranches (stateMatchComponent binding cases default) =
      ((cases.filter fun case => case.value = binding.initial).map fun case => (some case.value, case.body)) ++
        if cases.any (fun case => case.value = binding.initial) then []
        else (default.map fun body => (none, body)).toList := by
  unfold visibleBranches stateMatchComponent
  rw [List.filter_append, List.map_append, List.filter_map, List.map_map]
  congr 1
  · congr 2
    funext case
    simp
  · cases default with
    | none => simp
    | some body => cases cases.any fun case => case.value = binding.initial <;> simp

variable {binding : StateBindingPlan} {cases : List (AxMatchCase Body)} {default : Option Body}
  {value : AxValue F}

theorem matchBranch_case {text : String} {body : Body}
    (rendered : matchBranch cases default value = some (some text, body)) : text = value.asString := by
  unfold matchBranch at rendered
  cases found : cases.find? fun case => case.value = value.asString with
  | none =>
    rw [found] at rendered
    cases default <;> cases rendered
  | some case =>
    rw [found] at rendered
    cases rendered
    simpa using List.find?_some found

/-- A case with the initial text is visible; so only that one may be, and be rendered. -/
theorem match_kept_case (present : ∃ case ∈ cases, case.value = binding.initial) :
    visibleBranches (stateMatchComponent binding cases default) = (matchBranch cases default value).toList ↔
      binding.initial = value.asString ∧ cases.countP (fun case => case.value = binding.initial) ≤ 1 := by
  obtain ⟨case, member, same⟩ := present
  have hit : (cases.any fun case => case.value = binding.initial) = true :=
    List.any_eq_true.mpr ⟨case, member, decide_eq_true same⟩
  have kept : case ∈ cases.filter fun case => case.value = binding.initial :=
    List.mem_filter.mpr ⟨member, decide_eq_true same⟩
  rw [visible_cases, if_pos hit, List.append_nil, List.countP_eq_length_filter]
  constructor
  · intro visible
    have length := congrArg List.length visible
    rw [List.length_map] at length
    cases rendered : matchBranch cases default value with
    | none =>
      rw [rendered] at length
      rw [List.eq_nil_of_length_eq_zero length] at kept
      cases kept
    | some branch =>
      rw [rendered] at visible length
      have shown : (Option.some case.value, case.body) ∈ [branch] := by
        rw [← Option.toList_some, ← visible]
        exact List.mem_map_of_mem kept
      obtain rfl := List.mem_singleton.mp shown
      exact ⟨same ▸ matchBranch_case rendered, Nat.le_of_eq length⟩
  · rintro ⟨texts, once⟩
    obtain ⟨only, single⟩ : ∃ only, cases.filter (fun case => case.value = binding.initial) = [only] := by
      apply List.length_eq_one_iff.mp
      have positive := List.length_pos_of_mem kept
      omega
    have first : cases.find? (fun case => case.value = value.asString) = some only := by
      rw [← List.head?_filter, ← texts, single]
      rfl
    rw [single, matchBranch, first]
    rfl

/-- Without such a case the default is visible, and may be rendered. -/
theorem match_kept_default (absent : ¬∃ case ∈ cases, case.value = binding.initial) :
    visibleBranches (stateMatchComponent binding cases default) = (matchBranch cases default value).toList ↔
      ∀ case ∈ cases, case.value ≠ value.asString := by
  have nothing : (cases.filter fun case => case.value = binding.initial) = [] := by
    apply List.filter_eq_nil_iff.mpr
    intro case member same
    exact absent ⟨case, member, of_decide_eq_true same⟩
  have nowhere : ¬(cases.any fun case => case.value = binding.initial) = true := by
    simpa using absent
  rw [visible_cases, nothing, if_neg nowhere, List.map_nil, List.nil_append]
  cases found : cases.find? fun case => case.value = value.asString with
  | none =>
    apply iff_of_true
    · rw [matchBranch, found]
      rfl
    · simpa using found
  | some case =>
    apply iff_of_false
    · rw [matchBranch, found]
      cases default <;> simp
    · intro others
      exact others case (List.mem_of_find?_eq_some found) (by simpa using List.find?_some found)

theorem match_kept_iff :
    visibleBranches (stateMatchComponent binding cases default) = (matchBranch cases default value).toList ↔
      MatchKept binding.initial value.asString cases := by
  unfold MatchKept
  by_cases present : ∃ case ∈ cases, case.value = binding.initial
  · rw [match_kept_case present, iff_self_or]
    intro others
    obtain ⟨case, member, same⟩ := present
    exact absurd same (others case member).1
  · rw [match_kept_default present]
    constructor
    · intro others
      exact .inr fun case member => ⟨fun same => present ⟨case, member, same⟩, others case member⟩
    · rintro (⟨texts, _⟩ | others) case member same
      · exact present ⟨case, member, same.trans texts.symm⟩
      · exact (others case member).2 same

end Match

section Start

variable {overflowChecks : Bool} {call : Caller F} {context : AxDataContext}
  {states : String → Option StateBindingPlan} {initials : String → AxExpr F} {scope : Scope F}

/-- The states that are declared, each with its initial value in the scope. -/
structure Initially (context : AxDataContext) (overflowChecks : Bool) (call : Caller F)
    (states : String → Option StateBindingPlan) (initials : String → AxExpr F) (scope : Scope F) :
    Prop where
  declared : ∀ name binding, states name = some binding →
    ∃ source, initialLiteral context name binding.ty source (initials name) = .ok binding.initial
  bound : ∀ name binding, states name = some binding →
    ∃ value, evalExpr overflowChecks call scope (initials name) = .ok value ∧ scope name = some value

/-- The condition under which a reactive `if` starts in the branch of the evaluator. -/
def ConditionKept (states : String → Option StateBindingPlan) (initials : String → AxExpr F) :
    AxExpr F → Prop
  | .identifier name | .unary .not (.identifier name) =>
    ∀ binding, states name = some binding → TruthKept name binding.ty (initials name)
  | .binary op (.identifier name) right =>
    ∀ binding operand, states name = some binding → stateEventLiteral right = some operand →
      match (conditionOp op).bind orderTest with
      | some test => OrderingKept test name binding.ty binding.initial operand (initials name) right
      | none => EqualityKept name binding.ty binding.initial operand (initials name) right
  | _ => True

theorem Initially.accepted (initially : Initially context overflowChecks call states initials scope)
    {name : String} {binding : StateBindingPlan} (found : states name = some binding) :
    Accepted binding.ty binding.initial (initials name) := by
  obtain ⟨source, checked⟩ := initially.declared name binding found
  exact initialLiteral_accepted checked

theorem Initially.eval (initially : Initially context overflowChecks call states initials scope)
    {name : String} {binding : StateBindingPlan} (found : states name = some binding) :
    evalExpr overflowChecks call scope (.identifier name) = .ok (subject name (initials name)) := by
  rw [evalExpr, subject]
  by_cases null : name = "null"
  · rw [if_pos null, if_pos null]
  · obtain ⟨value, evaluated, bound⟩ := initially.bound name binding found
    rw [eval_literal (initially.accepted found).text] at evaluated
    rw [if_neg null, if_neg null, bound, Except.ok.inj evaluated]

theorem ok_iff {a b : Bool} : (.ok a : Eval Bool) = .ok b ↔ (b = true ↔ a = true) := by
  rw [Except.ok.injEq, Bool.eq_iff_iff]
  exact iff_comm

theorem ok_not_iff {a b : Bool} : (.ok (!a) : Eval Bool) = .ok (!b) ↔ (b = true ↔ a = true) := by
  rw [Except.ok.injEq, Bool.not_inj_iff, Bool.eq_iff_iff]
  exact iff_comm

theorem order_kept_iff {test : Ordering → Bool} {operator name ty initial operand : String}
    {value right : AxExpr F} {truth : Bool}
    (planned : truth = true ↔ ty = "Number" ∧
      test (compare (integerOf initial).toInt (integerOf operand).toInt) = true) :
    (evalCompareBinary (subject name value) right.constant test operator).map isTruthy = .ok truth ↔
      OrderingKept test name ty initial operand value right := by
  rw [evalCompareBinary_truth, OrderingKept]
  by_cases null : name = "null"
  · rw [subject, if_pos null]
    constructor
    · rintro ⟨_, compared, _⟩
      cases right.constant <;> cases compared
    · rintro ⟨other, _⟩
      exact absurd null other
  · rw [subject, if_neg null, and_iff_right null]
    apply exists_congr
    intro ordering
    rw [Bool.eq_iff_iff, planned]

/-- A reactive `if` starts in the branch of the evaluator exactly under its condition. -/
theorem if_starts_iff (shown : ∀ f : F, FloatOps.display f ≠ "")
    (initially : Initially context overflowChecks call states initials scope) {condition : AxExpr F}
    {plan : StateConditionPlan} (planned : stateConditionPlan states condition = some plan) :
    (evalExpr overflowChecks call scope condition).map isTruthy =
        .ok (evaluateInitialStateCondition plan) ↔ ConditionKept states initials condition := by
  unfold stateConditionPlan at planned
  split at planned
  next name =>
    obtain ⟨binding, found, rfl⟩ := Option.map_eq_some_iff.mp planned
    have single : ConditionKept states initials (.identifier name) ↔
        TruthKept name binding.ty (initials name) := by
      simp [ConditionKept, found]
    rw [single, initially.eval found, Except.map, ok_iff, evaluate_truthy,
      truth_kept_iff shown (initially.accepted found)]
  next name =>
    obtain ⟨binding, found, rfl⟩ := Option.map_eq_some_iff.mp planned
    have single : ConditionKept states initials (.unary .not (.identifier name)) ↔
        TruthKept name binding.ty (initials name) := by
      simp [ConditionKept, found]
    have negated : evalExpr overflowChecks call scope (.unary .not (.identifier name)) =
        .ok (.bool (!isTruthy (subject name (initials name)))) := by
      rw [evalExpr, initially.eval found]
      rfl
    rw [single, negated, Except.map, isTruthy, evaluate_falsy, ok_not_iff, evaluate_truthy,
      truth_kept_iff shown (initially.accepted found)]
  next op name right =>
    simp only [Option.bind_eq_bind, Option.bind_eq_some_iff, Option.pure_def, Option.some.injEq] at planned
    obtain ⟨binding, found, operand, written, planOp, known, rfl⟩ := planned
    have accepted := initially.accepted found
    have left := initially.eval found
    have value : evalExpr overflowChecks call scope right = .ok right.constant := eval_literal written
    have single : ConditionKept states initials (.binary op (.identifier name) right) ↔
        match (some planOp).bind orderTest with
        | some test => OrderingKept test name binding.ty binding.initial operand (initials name) right
        | none => EqualityKept name binding.ty binding.initial operand (initials name) right := by
      simp [ConditionKept, found, written, known]
    rw [single]
    cases op <;> cases known
    · have equal : evalExpr overflowChecks call scope (.binary .eq (.identifier name) right) =
          .ok (.bool ((subject name (initials name)).eq right.constant)) := by
        rw [evalExpr, left, value]
        rfl
      rw [equal, Except.map, isTruthy, ok_iff, evaluate_eq]
      exact equality_kept_iff accepted written
    · have unequal : evalExpr overflowChecks call scope (.binary .ne (.identifier name) right) =
          .ok (.bool (!(subject name (initials name)).eq right.constant)) := by
        rw [evalExpr, left, value]
        rfl
      rw [unequal, Except.map, isTruthy, evaluate_ne, ok_not_iff, evaluate_eq]
      exact equality_kept_iff accepted written
    all_goals
      rw [evalExpr, left, value]
      apply order_kept_iff
      exact evaluate_order rfl
  · cases planned

section Declared

variable {parse : String → Option (AxExpr F)} {signal : Nat → AxStateDeclV2 → String}

theorem stateBinding_checked {signalId : String} {state : AxStateDeclV2} {binding : StateBindingPlan}
    {value : AxExpr F} (bound : stateBinding parse context signalId state = .ok (binding, value)) :
    ∃ source, initialLiteral context state.name binding.ty source value = .ok binding.initial := by
  obtain ⟨parsed, _, next⟩ := Outcome.bind_ok.mp bound
  obtain ⟨initial, checked, last⟩ := Outcome.bind_ok.mp next
  cases last
  exact ⟨_, checked⟩

/-- One more state, with its value on top of the scope. -/
theorem Initially.insert {bindings : List (String × StateBindingPlan)}
    (initially : Initially context overflowChecks call (lookup bindings) initials scope)
    {name source : String} {binding : StateBindingPlan} {value : AxExpr F}
    (checked : initialLiteral context name binding.ty source value = .ok binding.initial) :
    Initially context overflowChecks call (lookup (insertField bindings name binding))
      (fun other => if other = name then value else initials other) (scope.insert name value.constant) := by
  constructor
  · intro other plan found
    rw [lookup_insertField] at found
    split at found
    next same =>
      cases found
      rw [if_pos same, same]
      exact ⟨source, checked⟩
    next apart =>
      rw [if_neg apart]
      exact initially.declared other plan found
  · intro other plan found
    rw [lookup_insertField] at found
    unfold Scope.insert
    split at found
    next same =>
      rw [if_pos same, if_pos same]
      exact ⟨_, eval_literal (initialLiteral_accepted checked).text, rfl⟩
    next apart =>
      rw [if_neg apart, if_neg apart]
      obtain ⟨old, evaluated, bound⟩ := initially.bound other plan found
      have constant := (initially.accepted found).text
      rw [eval_literal constant] at evaluated
      exact ⟨old, (eval_literal constant).trans evaluated, bound⟩

/-- Every list of states that is accepted leaves them declared and bound. -/
theorem declareStates_initially {declarations : List AxStateDeclV2} {index : Nat}
    {bindings after : List (String × StateBindingPlan)} {values : List (String × AxExpr F)}
    (initially : Initially context overflowChecks call (lookup bindings) initials scope)
    (declared : declareStates parse context signal index declarations bindings = .ok (after, values)) :
    ∃ initials' scope', bindStates overflowChecks call values scope = .ok scope' ∧
      Initially context overflowChecks call (lookup after) initials' scope' := by
  induction declarations generalizing index bindings values initials scope with
  | nil =>
    cases declared
    exact ⟨initials, scope, rfl, initially⟩
  | cons state rest ih =>
    obtain ⟨⟨binding, value⟩, first, next⟩ := Outcome.bind_ok.mp declared
    obtain ⟨⟨bindings, later⟩, others, last⟩ := Outcome.bind_ok.mp next
    cases last
    obtain ⟨source, checked⟩ := stateBinding_checked first
    have evaluated : evalExpr overflowChecks call scope value = .ok value.constant :=
      eval_literal (initialLiteral_accepted checked).text
    obtain ⟨initials', scope', bound, after⟩ := ih (initially.insert checked) others
    refine ⟨initials', scope', ?_, after⟩
    rw [bindStates, evaluated]
    exact bound

/-- A page without states. -/
theorem initially_empty (initials : String → AxExpr F) (scope : Scope F) :
    Initially context overflowChecks call (lookup []) initials scope :=
  ⟨fun _ _ found => (nomatch found), fun _ _ found => (nomatch found)⟩

end Declared

end Start

section Examples

/-- A state of type `Float` that starts at zero. -/
def ratioPage : List AxStateDeclV2 := [⟨"ratio", some "Float", "0"⟩]

def ratioBinding : StateBindingPlan := ⟨"root:ratio:1", "Float", "0"⟩

def zeroExpr : AxExpr F64 := .number 0

theorem parse_float : AxType.parseAnnotation "Float" = .ok .float := by decide +kernel

theorem ratio_literal (context : AxDataContext) :
    initialLiteral context "ratio" "Float" "0" zeroExpr = .ok "0" := by
  rw [initialLiteral, isSupportedClientStateType, stateInitializerMatchesType, parse_float]
  rfl

theorem ratioPage_declared (context : AxDataContext) :
    collectStateBindings (fun _ => some zeroExpr) context ratioPage =
      .ok ([("ratio", ratioBinding)], [("ratio", zeroExpr)]) := by
  have bound : stateBinding (fun _ => some zeroExpr) context "root:ratio:1" ⟨"ratio", some "Float", "0"⟩ =
      .ok (ratioBinding, zeroExpr) := by
    apply Outcome.bind_ok.mpr
    refine ⟨zeroExpr, rfl, ?_⟩
    apply Outcome.bind_ok.mpr
    exact ⟨"0", ratio_literal context, rfl⟩
  have signal : "root:" ++ "ratio" ++ ":" ++ toString (0 + 1) = "root:ratio:1" := by decide +kernel
  rw [collectStateBindings, ratioPage, declareStates, signal, bound]
  rfl

def noCall : Caller F64 := fun _ _ _ => .error .panic

def ratioScope : Scope F64 := Scope.insert (fun _ => none) "ratio" zeroExpr.constant

def ratioStates : String → Option StateBindingPlan := lookup [("ratio", ratioBinding)]

theorem ratio_initially :
    Initially ⟨[], [], []⟩ true noCall ratioStates (fun _ => zeroExpr) ratioScope := by
  have start : Initially ⟨[], [], []⟩ true noCall (lookup []) (fun _ => zeroExpr) fun _ => none :=
    initially_empty _ _
  have checked : initialLiteral ⟨[], [], []⟩ "ratio" ratioBinding.ty "0" zeroExpr =
      .ok ratioBinding.initial := ratio_literal ⟨[], [], []⟩
  have next := start.insert checked
  simp only [ite_self] at next
  exact next

end Examples

end Axonyx.Core
