import Axonyx.StateWasm.Program

/-! The VM's operators do not see the sign of a zero: on canonical operands they have the
same canonical result. -/
namespace Axonyx.StateWasm

variable {F : Type} [Float64 F]

mutual

/-- The value with every zero unsigned. -/
def ExprValue.canonical : ExprValue F → ExprValue F
  | .float value => .float (Axonyx.canonical value)
  | .list items => .list (canonicalItems items)
  | .object fields => .object (canonicalFields fields)
  | .null => .null
  | .string value => .string value
  | .bool value => .bool value
  | .int value => .int value
  | .bytes value => .bytes value

def canonicalItems : List (ExprValue F) → List (ExprValue F)
  | [] => []
  | item :: rest => item.canonical :: canonicalItems rest

def canonicalFields : List (String × ExprValue F) → List (String × ExprValue F)
  | [] => []
  | (name, value) :: rest => (name, value.canonical) :: canonicalFields rest

end

theorem canonicalItems_eq (items : List (ExprValue F)) :
    canonicalItems items = items.map ExprValue.canonical := by
  induction items with
  | nil => rfl
  | cons item rest ih => rw [canonicalItems, ih, List.map_cons]

theorem canonicalFields_eq (fields : List (String × ExprValue F)) :
    canonicalFields fields = fields.map fun field => (field.1, field.2.canonical) := by
  induction fields with
  | nil => rfl
  | cons field rest ih => rw [canonicalFields, ih, List.map_cons]

mutual

@[simp] theorem canonical_idem : ∀ value : ExprValue F, value.canonical.canonical = value.canonical
  | .float value => by rw [ExprValue.canonical, ExprValue.canonical, canonical_canonical]
  | .list items => by rw [ExprValue.canonical, ExprValue.canonical, canonicalItems_idem items]
  | .object fields => by rw [ExprValue.canonical, ExprValue.canonical, canonicalFields_idem fields]
  | .null | .string _ | .bool _ | .int _ | .bytes _ => rfl

theorem canonicalItems_idem : ∀ items : List (ExprValue F),
    canonicalItems (canonicalItems items) = canonicalItems items
  | [] => rfl
  | item :: rest => by
    simp only [canonicalItems, canonical_idem item, canonicalItems_idem rest]

theorem canonicalFields_idem : ∀ fields : List (String × ExprValue F),
    canonicalFields (canonicalFields fields) = canonicalFields fields
  | [] => rfl
  | (name, value) :: rest => by
    simp only [canonicalFields, canonical_idem value, canonicalFields_idem rest]

end

/-- What a result shows once its zeros are unsigned. -/
abbrev shown (result : Option (ExprValue F)) : Option (ExprValue F) := result.map ExprValue.canonical

mutual

theorem eq_canonical : ∀ a b : ExprValue F, a.canonical.eq b.canonical = a.eq b
  | .float a, b => by cases b <;> simp [ExprValue.canonical, ExprValue.eq]
  | .list a, b => by
    cases b with
    | list b => simpa [ExprValue.canonical, ExprValue.eq] using eqItems_canonical a b
    | _ => rfl
  | .object a, b => by
    cases b with
    | object b => simpa [ExprValue.canonical, ExprValue.eq] using eqFields_canonical a b
    | _ => rfl
  | .null, b | .string _, b | .bool _, b | .int _, b | .bytes _, b => by cases b <;> rfl

theorem eqItems_canonical : ∀ a b : List (ExprValue F),
    ExprValue.eqItems (canonicalItems a) (canonicalItems b) = ExprValue.eqItems a b
  | [], b => by cases b <;> rfl
  | a :: as, [] => rfl
  | a :: as, b :: bs => by
    simp only [canonicalItems, ExprValue.eqItems, eq_canonical a b, eqItems_canonical as bs]

theorem eqFields_canonical : ∀ a b : List (String × ExprValue F),
    ExprValue.eqFields (canonicalFields a) (canonicalFields b) = ExprValue.eqFields a b
  | [], b => by cases b <;> rfl
  | a :: as, [] => rfl
  | (m, a) :: as, (n, b) :: bs => by
    simp only [canonicalFields, ExprValue.eqFields, eq_canonical a b, eqFields_canonical as bs]

end

section Scalars

theorem exprTruthy_canonical (value : ExprValue F) : exprTruthy value.canonical = exprTruthy value := by
  cases value with
  | float value => simp only [ExprValue.canonical, exprTruthy, floatEq_canonical_zero]
  | list items => cases items <;> rfl
  | object fields => cases fields <;> rfl
  | _ => rfl

theorem isNull_canonical (value : ExprValue F) : value.canonical.isNull = value.isNull := by
  cases value <;> rfl

theorem exprScalar_canonical (value : ExprValue F) :
    exprScalar value.canonical = exprScalar value := by
  cases value with
  | float value =>
    simp only [ExprValue.canonical, exprScalar, floatEq_canonical_zero]
    split
    · rfl
    · next nonzero => rw [canonical, if_neg nonzero]
  | _ => rfl

theorem exprValuesEqual_canonical (a b : ExprValue F) :
    exprValuesEqual a.canonical b.canonical = exprValuesEqual a b := by
  have left (x y : F) : floatEq x (canonical y) = floatEq x y := by
    rw [← floatEq_canonical x (canonical y), canonical_canonical, floatEq_canonical]
  have right (x y : F) : floatEq (canonical x) y = floatEq x y := by
    rw [← floatEq_canonical (canonical x) y, canonical_canonical, floatEq_canonical]
  have derived := eq_canonical a b
  cases a <;> cases b <;> simp only [ExprValue.canonical, exprValuesEqual] at derived ⊢ <;>
    first
    | exact derived
    | exact left _ _
    | exact right _ _

end Scalars

section Floats

theorem shown_finiteFloat (value : F) :
    shown (finiteFloat value) = (finiteCanonical value).map .float := by
  unfold finiteFloat finiteCanonical
  split <;> rfl

/-- An operation on floats whose finite result ignores the sign of zero operands. -/
def Blind (op : F → F → F) : Prop :=
  ∀ a b, finiteCanonical (op (canonical a) (canonical b)) = finiteCanonical (op a b)

variable {op : F → F → F}

theorem Blind.left (blind : Blind op) (a b : F) :
    finiteCanonical (op (canonical a) b) = finiteCanonical (op a b) := by
  rw [← blind a b, ← blind (canonical a) b, canonical_canonical]

theorem Blind.right (blind : Blind op) (a b : F) :
    finiteCanonical (op a (canonical b)) = finiteCanonical (op a b) := by
  rw [← blind a b, ← blind a (canonical b), canonical_canonical]

/-- A binary operator that shows the same on canonical operands. -/
def Unsigned (op : ExprValue F → ExprValue F → Option (ExprValue F)) : Prop :=
  ∀ a b, shown (op a.canonical b.canonical) = shown (op a b)

theorem exprAdd_canonical : Unsigned (exprAdd : ExprValue F → _) := by
  intro a b
  have text (left right : ExprValue F) :
      (do
        let leftText ← exprScalar left.canonical
        let rightText ← exprScalar right.canonical
        return .string (leftText ++ rightText) : Option (ExprValue F)) = (do
        let leftText ← exprScalar left
        let rightText ← exprScalar right
        return .string (leftText ++ rightText)) := by
    rw [exprScalar_canonical, exprScalar_canonical]
  have scalars := text a b
  have blind : Blind (FloatOps.add : F → F → F) := Float64.add_canonical
  cases a <;> cases b <;> simp only [ExprValue.canonical, exprAdd] at scalars ⊢ <;>
    first
    | rw [scalars]
    | (rw [shown_finiteFloat, shown_finiteFloat]
       first
       | rw [blind]
       | rw [blind.left]
       | rw [blind.right])

theorem exprIsZero_canonical (value : ExprValue F) :
    exprIsZero value.canonical = exprIsZero value := by
  cases value with
  | float value => exact floatEq_canonical_zero value
  | _ => rfl

theorem exprNumeric_canonical (intOp : Int64 → Int64 → Option Int64) {floatOp : F → F → F}
    (rejectZero : Bool) (blind : Blind floatOp) :
    Unsigned fun a b => exprNumeric a b intOp floatOp rejectZero := by
  intro a b
  simp only [exprNumeric, exprIsZero_canonical]
  split
  · rfl
  · cases a <;> cases b <;> simp only [ExprValue.canonical] <;>
      (try rw [shown_finiteFloat, shown_finiteFloat]) <;>
      first
      | rfl
      | rw [blind]
      | rw [blind.left]
      | rw [blind.right]

theorem exprCompare_canonical (a b : ExprValue F) :
    exprCompare a.canonical b.canonical = exprCompare a b := by
  have left (x y : F) : FloatOps.partialCmp (canonical x) y = FloatOps.partialCmp x y := by
    rw [← Float64.cmp_canonical (canonical x) y, canonical_canonical, Float64.cmp_canonical]
  have right (x y : F) : FloatOps.partialCmp x (canonical y) = FloatOps.partialCmp x y := by
    rw [← Float64.cmp_canonical x (canonical y), canonical_canonical, Float64.cmp_canonical]
  cases a <;> cases b <;> simp only [ExprValue.canonical, exprCompare] <;>
    first
    | rw [Float64.cmp_canonical]
    | rw [left]
    | rw [right]

theorem findField_canonical (fields : List (String × ExprValue F)) (name : String) :
    findField (canonicalFields fields) name = (findField fields name).map ExprValue.canonical := by
  induction fields with
  | nil => rfl
  | cons field rest ih =>
    unfold findField at ih ⊢
    rw [canonicalFields]
    by_cases same : field.1 == name
    · simp [same]
    · simpa [List.find?_cons, same] using ih

theorem getD_canonical (found : Option (ExprValue F)) :
    (found.map ExprValue.canonical).getD .null = (found.getD .null).canonical := by
  cases found <;> rfl

theorem shown_canonical (value : ExprValue F) : shown (some value.canonical) = shown (some value) := by
  simp

theorem exprIndex_canonical : Unsigned (exprIndex : ExprValue F → _) := by
  intro a b
  cases a with
  | list items =>
    cases b with
    | int index =>
      simp only [ExprValue.canonical, exprIndex]
      split
      · rfl
      · rw [canonicalItems_eq, List.getElem?_map, getD_canonical, shown_canonical]
    | _ => rfl
  | object fields =>
    cases b with
    | string key =>
      simp only [ExprValue.canonical, exprIndex, findField_canonical, getD_canonical,
        shown_canonical]
    | _ => rfl
  | _ => cases b <;> rfl

end Floats

section Opcodes

theorem memberOpcode_canonical (optional : Bool) (property : String) (object : ExprValue F) :
    shown (memberOpcode optional property object.canonical) =
      shown (memberOpcode optional property object) := by
  cases object with
  | object fields =>
    simp only [ExprValue.canonical, memberOpcode, findField_canonical, getD_canonical,
      shown_canonical]
  | _ => rfl

theorem evaluateUnaryOpcode_canonical (opcode : UInt8) (value : ExprValue F) :
    shown (evaluateUnaryOpcode opcode value.canonical) = shown (evaluateUnaryOpcode opcode value) := by
  unfold evaluateUnaryOpcode
  split
  · rw [exprTruthy_canonical]
  · cases value with
    | float value =>
      simp only [ExprValue.canonical, shown_finiteFloat, Float64.neg_canonical]
    | _ => rfl
  · rfl

theorem exprIn_canonical (left right : ExprValue F) :
    exprIn left.canonical right.canonical = exprIn left right := by
  cases right with
  | list items =>
    simp only [ExprValue.canonical, exprIn, canonicalItems_eq, List.any_map, Function.comp_def,
      exprValuesEqual_canonical]
  | _ => rfl

theorem evaluateBinaryOpcode_canonical (opcode : UInt8) :
    Unsigned (evaluateBinaryOpcode opcode : ExprValue F → _) := by
  intro a b
  unfold evaluateBinaryOpcode
  split
  · exact exprAdd_canonical a b
  · exact exprNumeric_canonical checkedSub false Float64.sub_canonical a b
  · exact exprNumeric_canonical checkedMul false Float64.mul_canonical a b
  · exact exprNumeric_canonical checkedDiv true Float64.div_canonical a b
  · exact exprNumeric_canonical checkedRem true Float64.rem_canonical a b
  · rw [exprValuesEqual_canonical]
  · rw [exprValuesEqual_canonical]
  iterate 4 rw [exprCompare_canonical]
  · rw [exprIn_canonical]
  · rw [exprTruthy_canonical, exprTruthy_canonical]
  · rw [exprTruthy_canonical, exprTruthy_canonical]
  · rw [isNull_canonical]
    split <;> exact shown_canonical _
  · exact exprIndex_canonical a b
  · rfl

end Opcodes

end Axonyx.StateWasm
