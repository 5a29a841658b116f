import Axonyx.Core.Expr
import Axonyx.StateWasm.Canonical

/-! Values of the server and of the client, and their operators: on values that correspond
they agree, up to an overflow that only one side rejects and a number that only one side
compares across its two types. -/
namespace Axonyx.Core

open StateWasm (ExprValue shown)

variable {F : Type} [Float64 F]

section Values

mutual

/-- The client's form of a server value: its fields in key order. -/
def AxValue.toExpr : AxValue F → ExprValue F
  | .null => .null
  | .string value => .string value
  | .number value => .int value
  | .float value => .float value.get
  | .bool value => .bool value
  | .record fields => .object (fieldsToExpr fields)
  | .list items => .list (itemsToExpr items)

def itemsToExpr : List (AxValue F) → List (ExprValue F)
  | [] => []
  | item :: rest => item.toExpr :: itemsToExpr rest

def fieldsToExpr : List (String × AxValue F) → List (String × ExprValue F)
  | [] => []
  | (name, value) :: rest => (name, value.toExpr) :: fieldsToExpr rest

end

theorem itemsToExpr_eq (items : List (AxValue F)) : itemsToExpr items = items.map AxValue.toExpr := by
  induction items with
  | nil => rfl
  | cons item rest ih => rw [itemsToExpr, ih, List.map_cons]

mutual

/-- Server floats are canonical already. -/
@[simp] theorem toExpr_canonical : ∀ value : AxValue F, value.toExpr.canonical = value.toExpr
  | .float value => by rw [AxValue.toExpr, ExprValue.canonical, value.canonical]
  | .list items => by rw [AxValue.toExpr, ExprValue.canonical, itemsToExpr_canonical items]
  | .record fields => by rw [AxValue.toExpr, ExprValue.canonical, fieldsToExpr_canonical fields]
  | .null | .string _ | .number _ | .bool _ => rfl

theorem itemsToExpr_canonical : ∀ items : List (AxValue F),
    StateWasm.canonicalItems (itemsToExpr items) = itemsToExpr items
  | [] => rfl
  | item :: rest => by
    simp only [itemsToExpr, StateWasm.canonicalItems, toExpr_canonical item,
      itemsToExpr_canonical rest]

theorem fieldsToExpr_canonical : ∀ fields : List (String × AxValue F),
    StateWasm.canonicalFields (fieldsToExpr fields) = fieldsToExpr fields
  | [] => rfl
  | (name, value) :: rest => by
    simp only [fieldsToExpr, StateWasm.canonicalFields, toExpr_canonical value,
      fieldsToExpr_canonical rest]

end

mutual

theorem eq_toExpr : ∀ a b : AxValue F, a.toExpr.eq b.toExpr = a.eq b
  | .null, b | .string _, b | .number _, b | .float _, b | .bool _, b => by
    cases b <;> simp [AxValue.toExpr, ExprValue.eq, AxValue.eq]
  | .list a, b => by
    cases b with
    | list b => simpa [AxValue.toExpr, ExprValue.eq, AxValue.eq] using eqItems_toExpr a b
    | _ => rfl
  | .record a, b => by
    cases b with
    | record b => simpa [AxValue.toExpr, ExprValue.eq, AxValue.eq] using eqFields_toExpr a b
    | _ => rfl

theorem eqItems_toExpr : ∀ a b : List (AxValue F),
    ExprValue.eqItems (itemsToExpr a) (itemsToExpr b) = AxValue.eqItems a b
  | [], b => by cases b <;> rfl
  | a :: as, [] => rfl
  | a :: as, b :: bs => by
    simp only [itemsToExpr, ExprValue.eqItems, AxValue.eqItems, eq_toExpr a b, eqItems_toExpr as bs]

theorem eqFields_toExpr : ∀ a b : List (String × AxValue F),
    ExprValue.eqFields (fieldsToExpr a) (fieldsToExpr b) = AxValue.eqFields a b
  | [], b => by cases b <;> rfl
  | a :: as, [] => rfl
  | (m, a) :: as, (n, b) :: bs => by
    simp only [fieldsToExpr, ExprValue.eqFields, AxValue.eqFields, eq_toExpr a b,
      eqFields_toExpr as bs]

end

theorem truthy_toExpr (value : AxValue F) : StateWasm.exprTruthy value.toExpr = isTruthy value := by
  cases value with
  | list items => cases items <;> rfl
  | record fields => cases fields <;> rfl
  | _ => rfl

theorem isNull_toExpr (value : AxValue F) : value.toExpr.isNull = value.isNull := by
  cases value <;> rfl

theorem scalar_toExpr (value : AxValue F) : StateWasm.exprScalar value.toExpr = scalarText value := by
  cases value <;> rfl

theorem isZero_toExpr (value : AxValue F) :
    StateWasm.exprIsZero value.toExpr = isZeroOperand value := by
  cases value <;> rfl

/-- An integer and a float with the same value. -/
def mixedEqual : AxValue F → AxValue F → Bool
  | .number a, .float b => floatEq (FloatOps.ofInt a) b.get
  | .float a, .number b => floatEq a.get (FloatOps.ofInt b)
  | _, _ => false

/-- The client also compares numbers across their types. -/
theorem valuesEqual_toExpr (a b : AxValue F) :
    StateWasm.exprValuesEqual a.toExpr b.toExpr = (a.eq b || mixedEqual a b) := by
  have derived := eq_toExpr a b
  cases a <;> cases b <;>
    simp only [AxValue.toExpr, StateWasm.exprValuesEqual, mixedEqual, Bool.or_false] at derived ⊢ <;>
    first
    | exact derived
    | simp [AxValue.eq]

end Values

section Results

/-- The client's form of a server result. -/
def clientResult : Eval (AxValue F) → Option (ExprValue F)
  | .ok value => some value.toExpr
  | .error _ => none

/-- Both sides have a value, and the same one, or both have none. -/
def Agrees : Option (ExprValue F) → Eval (AxValue F) → Prop
  | some client, .ok server => client.canonical = server.toExpr
  | none, .error _ => True
  | some _, .error _ => False
  | none, .ok _ => False

theorem agrees_iff {client : Option (ExprValue F)} {server : Eval (AxValue F)} :
    Agrees client server ↔ shown client = clientResult server := by
  cases client <;> cases server <;> simp [Agrees, clientResult]

theorem agrees_cases {client : Option (ExprValue F)} {server : Eval (AxValue F)}
    (agrees : Agrees client server) :
    (∃ x a, client = some x ∧ server = .ok a ∧ x.canonical = a.toExpr) ∨
      ∃ stop, client = none ∧ server = .error stop := by
  match client, server, agrees with
  | some x, .ok a, same => exact .inl ⟨x, a, rfl, rfl, same⟩
  | none, .error stop, _ => exact .inr ⟨stop, rfl, rfl⟩

theorem none_agrees_iff {server : Eval (AxValue F)} :
    Agrees none server ↔ ∀ a, server ≠ .ok a := by
  cases server <;> simp [Agrees]

theorem truthy_same {x : ExprValue F} {a : AxValue F} (same : x.canonical = a.toExpr) :
    StateWasm.exprTruthy x = isTruthy a := by
  rw [← StateWasm.exprTruthy_canonical, same, truthy_toExpr]

theorem isNull_same {x : ExprValue F} {a : AxValue F} (same : x.canonical = a.toExpr) :
    x.isNull = a.isNull := by
  rw [← StateWasm.isNull_canonical, same, isNull_toExpr]

theorem shown_binary {x y : ExprValue F} {a b : AxValue F} (left : x.canonical = a.toExpr)
    (right : y.canonical = b.toExpr) (opcode : UInt8) :
    shown (StateWasm.evaluateBinaryOpcode opcode x y) =
      shown (StateWasm.evaluateBinaryOpcode opcode a.toExpr b.toExpr) := by
  rw [← left, ← right, StateWasm.evaluateBinaryOpcode_canonical]

end Results

section Operators

theorem finite_agrees (value : F) (operator : String) :
    shown (StateWasm.finiteFloat value) = clientResult (finiteFloatValue value operator) := by
  rw [StateWasm.shown_finiteFloat]
  unfold finiteFloatValue AxFloat.new finiteCanonical
  by_cases finite : Binary64.isFinite value = true
  · simp [finite, clientResult, AxValue.toExpr]
  · simp [finite, clientResult, fail]

theorem add_agrees (a b : AxValue F) :
    shown (StateWasm.exprAdd a.toExpr b.toExpr) = clientResult (addValues a b) := by
  have text (left right : AxValue F) :
      shown (do
        let leftText ← StateWasm.exprScalar left.toExpr
        let rightText ← StateWasm.exprScalar right.toExpr
        return .string (leftText ++ rightText) : Option (ExprValue F)) =
      clientResult (((scalarText left).bind fun left => (scalarText right).map (left ++ ·)).elim
        (fail (.unsupportedExpression "\x60+\x60 concatenation requires scalar operands"))
        (fun text => .ok (.string text))) := by
    rw [scalar_toExpr, scalar_toExpr]
    cases scalarText left <;> cases scalarText right <;> rfl
  have scalars := text a b
  cases a <;> cases b <;> simp only [AxValue.toExpr, StateWasm.exprAdd, addValues] at scalars ⊢ <;>
    first
    | exact scalars
    | exact finite_agrees _ _
    | rfl
    | (generalize checkedAdd _ _ = sum; cases sum <;> rfl)

theorem numeric_agrees_iff (a b : AxValue F) {clientInt : Int64 → Int64 → Option Int64}
    {serverInt : Int64 → Int64 → Eval Int64} (floatOp : F → F → F) (operator : String)
    (rejectZero : Bool) {fits : Int64 → Int64 → Prop}
    (integers : ∀ x y, shown ((clientInt x y).map (ExprValue.int : Int64 → ExprValue F)) =
      clientResult ((serverInt x y).map .number) ↔ fits x y)
    (rejected : ∀ x, rejectZero = true → fits x 0) :
    shown (StateWasm.exprNumeric a.toExpr b.toExpr clientInt floatOp rejectZero) =
        clientResult (evalNumericBinary a b serverInt floatOp operator rejectZero) ↔
      ∀ x y, a = .number x → b = .number y → fits x y := by
  unfold StateWasm.exprNumeric evalNumericBinary
  rw [isZero_toExpr]
  by_cases zero : (rejectZero && isZeroOperand b) = true
  · rw [if_pos zero, if_pos zero]
    refine iff_of_true rfl ?_
    rintro x y rfl rfl
    simp only [isZeroOperand, Bool.and_eq_true, beq_iff_eq] at zero
    rw [zero.2]
    exact rejected x zero.1
  · rw [if_neg zero, if_neg zero]
    cases a <;> cases b <;> simp only [AxValue.toExpr]
    case number.number x y => simpa using integers x y
    all_goals refine iff_of_true ?_ (by simp)
    all_goals first
      | exact finite_agrees _ _
      | rfl

theorem raw_agrees_iff (overflowChecks : Bool) (checked : Option Int64) (wrapped : Int64) :
    shown (checked.map (ExprValue.int : Int64 → ExprValue F)) =
        clientResult ((rawInt overflowChecks checked wrapped).map .number) ↔
      (overflowChecks = false → checked ≠ none) := by
  cases checked <;> cases overflowChecks <;>
    simp [rawInt, clientResult, AxValue.toExpr, ExprValue.canonical, Except.map]

theorem division_agrees (checked : Option Int64) :
    shown (checked.map (ExprValue.int : Int64 → ExprValue F)) =
      clientResult ((rawDivision checked).map .number) := by
  cases checked <;> rfl

theorem neg_agrees_iff (overflowChecks : Bool) (value : AxValue F) :
    shown (StateWasm.evaluateUnaryOpcode 11 value.toExpr) =
        clientResult (evalUnaryExpr overflowChecks .neg value) ↔
      ∀ n, value = .number n → overflowChecks = false → checkedNeg n ≠ none := by
  cases value with
  | number n =>
    simpa [AxValue.toExpr, StateWasm.evaluateUnaryOpcode, evalUnaryExpr] using
      raw_agrees_iff (F := F) overflowChecks (checkedNeg n) (-n)
  | float value =>
    refine iff_of_true ?_ (by simp)
    simp only [AxValue.toExpr, StateWasm.evaluateUnaryOpcode, evalUnaryExpr,
      StateWasm.shown_finiteFloat]
    unfold AxFloat.new finiteCanonical
    by_cases finite : Binary64.isFinite (FloatOps.neg value.get) = true
    · simp [finite, clientResult, AxValue.toExpr]
    · simp [finite, clientResult]
  | _ => exact iff_of_true rfl (by simp)

theorem ordering_agrees (ordering : Option Ordering) (operation : Ordering → Bool) :
    shown (ordering.map fun ordering => (ExprValue.bool (operation ordering) : ExprValue F)) =
      clientResult (expectOrdering ordering operation) := by
  cases ordering <;> rfl

theorem compare_agrees (a b : AxValue F) (operation : Ordering → Bool) (operator : String) :
    shown ((StateWasm.exprCompare a.toExpr b.toExpr).map fun ordering =>
        ExprValue.bool (operation ordering)) =
      clientResult (evalCompareBinary a b operation operator) := by
  cases a <;> cases b <;>
    simp only [AxValue.toExpr, StateWasm.exprCompare, evalCompareBinary] <;>
    exact ordering_agrees _ _

theorem findField_toExpr (fields : List (String × AxValue F)) (name : String) :
    StateWasm.findField (fieldsToExpr fields) name = (lookup fields name).map AxValue.toExpr := by
  induction fields with
  | nil => rfl
  | cons field rest ih =>
    unfold StateWasm.findField lookup at ih ⊢
    rw [fieldsToExpr]
    by_cases same : field.1 == name
    · simp [same]
    · simpa [List.find?_cons, same] using ih

theorem getD_toExpr (found : Option (AxValue F)) :
    (found.map AxValue.toExpr).getD .null = (found.getD .null).toExpr := by
  cases found <;> rfl

theorem shown_toExpr (value : AxValue F) : shown (some value.toExpr) = some value.toExpr := by
  rw [shown, Option.map_some, toExpr_canonical]

theorem index_agrees (a b : AxValue F) :
    shown (StateWasm.exprIndex a.toExpr b.toExpr) = clientResult (evalIndexExpr a b) := by
  cases a with
  | list items =>
    cases b with
    | number index =>
      simp only [AxValue.toExpr, StateWasm.exprIndex, evalIndexExpr]
      split
      · rfl
      · rw [itemsToExpr_eq, List.getElem?_map, getD_toExpr, shown_toExpr]
        rfl
    | _ => rfl
  | record fields =>
    cases b with
    | string key =>
      simp only [AxValue.toExpr, StateWasm.exprIndex, evalIndexExpr, findField_toExpr, getD_toExpr,
        shown_toExpr]
      rfl
    | _ => rfl
  | _ => cases b <;> rfl

theorem member_agrees (property : String) (value : AxValue F) :
    shown (StateWasm.memberOpcode false property value.toExpr) =
      clientResult (memberValue property value) := by
  cases value with
  | record fields =>
    simp only [AxValue.toExpr, StateWasm.memberOpcode, memberValue, findField_toExpr, getD_toExpr,
      shown_toExpr]
    rfl
  | _ => rfl

theorem optionalMember_agrees (property : String) (value : AxValue F) :
    shown (StateWasm.memberOpcode true property value.toExpr) =
      clientResult (optionalMemberValue property (.ok value)) := by
  cases value with
  | record fields =>
    simp only [AxValue.toExpr, StateWasm.memberOpcode, optionalMemberValue, findField_toExpr,
      getD_toExpr, shown_toExpr]
    rfl
  | _ => rfl

/-- An equality, or its negation: the client also compares across the number types. -/
theorem equality_agrees_iff (a b : AxValue F) {result : Bool → Bool}
    (injective : Function.Injective result) :
    shown (some (.bool (result (a.eq b || mixedEqual a b)))) =
        clientResult (.ok (.bool (result (a.eq b)) : AxValue F)) ↔ mixedEqual a b = false := by
  have apart : mixedEqual a b = true → a.eq b = false := by
    cases a <;> cases b <;> simp [mixedEqual, AxValue.eq]
  simp only [shown, Option.map_some, ExprValue.canonical, clientResult, AxValue.toExpr,
    Option.some.injEq, ExprValue.bool.injEq, injective.eq_iff]
  cases mixed : mixedEqual a b with
  | false => simp
  | true => simp [apart mixed]

/-- The client finds an item that is equal across the number types, the server does not. -/
theorem in_agrees_iff (a b : AxValue F) :
    shown (StateWasm.exprIn a.toExpr b.toExpr) =
        clientResult (evalBinaryExpr false .in a b) ↔
      ∀ items, b = .list items → items.any (fun item => mixedEqual a item) = true →
        items.any (fun item => item.eq a) = true := by
  cases b with
  | list items =>
    have derived : (items.any fun item => item.eq a) = items.any fun item => a.eq item := by
      simp only [AxValue.eq_comm _ a]
    have split : (items.any fun item => a.eq item || mixedEqual a item) =
        ((items.any fun item => a.eq item) || items.any fun item => mixedEqual a item) := by
      rw [Bool.eq_iff_iff]
      simp [← exists_or, ← and_or_left]
    simp only [AxValue.toExpr, StateWasm.exprIn, evalBinaryExpr, itemsToExpr_eq, List.any_map,
      Function.comp_def, valuesEqual_toExpr, derived, split, clientResult, AxValue.list.injEq,
      forall_eq']
    generalize (items.any fun item => a.eq item) = plain
    generalize (items.any fun item => mixedEqual a item) = mixed
    cases plain <;> cases mixed <;> simp [ExprValue.canonical]
  | _ => exact iff_of_true rfl (by simp)

end Operators

end Axonyx.Core
