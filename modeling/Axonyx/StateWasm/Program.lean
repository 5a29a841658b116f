import Axonyx.Arithmetic
import Axonyx.StateWasm.Value

/-! The expression VM: a byte program over a value stack. Each pass of the loop reads one
opcode with its operands behind the cursor. -/
namespace Axonyx.StateWasm

open Wire (Bytes)

def axExpressionCollectionMaxItems : Nat := 1024
def axExpressionStackMaxValues : Nat := 4096

variable {F : Type} [Float64 F]

section Operators

mutual

/-- The derived equality; floats compare as numbers. -/
def ExprValue.eq : ExprValue F → ExprValue F → Bool
  | .null, .null => true
  | .string a, .string b => a == b
  | .bool a, .bool b => a == b
  | .float a, .float b => floatEq a b
  | .int a, .int b => a == b
  | .bytes a, .bytes b => a == b
  | .list a, .list b => ExprValue.eqItems a b
  | .object a, .object b => ExprValue.eqFields a b
  | _, _ => false

def ExprValue.eqItems : List (ExprValue F) → List (ExprValue F) → Bool
  | [], [] => true
  | a :: as, b :: bs => ExprValue.eq a b && ExprValue.eqItems as bs
  | _, _ => false

def ExprValue.eqFields : List (String × ExprValue F) → List (String × ExprValue F) → Bool
  | [], [] => true
  | (m, a) :: as, (n, b) :: bs => m == n && ExprValue.eq a b && ExprValue.eqFields as bs
  | _, _ => false

end

def exprTruthy : ExprValue F → Bool
  | .null => false
  | .string value => !value.isEmpty
  | .bool value => value
  | .float value => !floatEq value FloatOps.zero
  | .int value => value != 0
  | .bytes value => !value.isEmpty
  | .list items => !items.isEmpty
  | .object fields => !fields.isEmpty

def finiteFloat (value : F) : Option (ExprValue F) :=
  if Binary64.isFinite value then some (.float value) else none

def exprScalar : ExprValue F → Option String
  | .string value => some value
  | .int value => some (toString value.toInt)
  | .float value => some (if floatEq value FloatOps.zero then "0" else FloatOps.display value)
  | .bool value => some (toString value)
  | _ => none

def exprAdd : ExprValue F → ExprValue F → Option (ExprValue F)
  | .int left, .int right => (checkedAdd left right).map .int
  | .float left, .float right => finiteFloat (FloatOps.add left right)
  | .int left, .float right => finiteFloat (FloatOps.add (FloatOps.ofInt left) right)
  | .float left, .int right => finiteFloat (FloatOps.add left (FloatOps.ofInt right))
  | left@(.string _), right | left, right@(.string _) => do
    let leftText ← exprScalar left
    let rightText ← exprScalar right
    return .string (leftText ++ rightText)
  | _, _ => none

def exprIsZero : ExprValue F → Bool
  | .int value => value == 0
  | .float value => floatEq value FloatOps.zero
  | _ => false

def exprNumeric (left right : ExprValue F) (intOp : Int64 → Int64 → Option Int64)
    (floatOp : F → F → F) (rejectZero : Bool) : Option (ExprValue F) :=
  if rejectZero && exprIsZero right then none
  else match left, right with
    | .int left, .int right => (intOp left right).map .int
    | .float left, .float right => finiteFloat (floatOp left right)
    | .int left, .float right => finiteFloat (floatOp (FloatOps.ofInt left) right)
    | .float left, .int right => finiteFloat (floatOp left (FloatOps.ofInt right))
    | _, _ => none

def exprValuesEqual (left right : ExprValue F) : Bool :=
  match left, right with
  | .int left, .float right => floatEq (FloatOps.ofInt left) right
  | .float left, .int right => floatEq left (FloatOps.ofInt right)
  | left, right => left.eq right

def exprCompare : ExprValue F → ExprValue F → Option Ordering
  | .int left, .int right => some (compare left.toInt right.toInt)
  | .float left, .float right => FloatOps.partialCmp left right
  | .int left, .float right => FloatOps.partialCmp (FloatOps.ofInt left) right
  | .float left, .int right => FloatOps.partialCmp left (FloatOps.ofInt right)
  | .string left, .string right => some (compare left right)
  | _, _ => none

def exprIn (left : ExprValue F) : ExprValue F → Option (ExprValue F)
  | .list items => some (.bool (items.any fun item => exprValuesEqual left item))
  | _ => none

/-- The first field of that name. -/
def findField (fields : List (String × ExprValue F)) (name : String) : Option (ExprValue F) :=
  (fields.find? fun field => field.1 == name).map Prod.snd

def exprIndex : ExprValue F → ExprValue F → Option (ExprValue F)
  | .list items, .int index =>
    if index.toInt < 0 then some .null else some (items[index.toInt.toNat]?.getD .null)
  | .object fields, .string key => some ((findField fields key).getD .null)
  | _, _ => none

def ExprValue.isNull : ExprValue F → Bool
  | .null => true
  | _ => false

def evaluateBinaryOpcode (opcode : UInt8) (left right : ExprValue F) : Option (ExprValue F) :=
  match opcode with
  | 20 => exprAdd left right
  | 21 => exprNumeric left right checkedSub FloatOps.sub false
  | 22 => exprNumeric left right checkedMul FloatOps.mul false
  | 23 => exprNumeric left right checkedDiv FloatOps.div true
  | 24 => exprNumeric left right checkedRem FloatOps.rem true
  | 25 => some (.bool (exprValuesEqual left right))
  | 26 => some (.bool (!exprValuesEqual left right))
  | 27 => (exprCompare left right).map fun ordering => .bool ordering.isGT
  | 28 => (exprCompare left right).map fun ordering => .bool ordering.isGE
  | 29 => (exprCompare left right).map fun ordering => .bool ordering.isLT
  | 30 => (exprCompare left right).map fun ordering => .bool ordering.isLE
  | 31 => exprIn left right
  | 32 => some (.bool (exprTruthy left && exprTruthy right))
  | 33 => some (.bool (exprTruthy left || exprTruthy right))
  | 34 => some (if left.isNull then right else left)
  | 40 => exprIndex left right
  | _ => none

def evaluateUnaryOpcode (opcode : UInt8) (value : ExprValue F) : Option (ExprValue F) :=
  match opcode with
  | 10 => some (.bool (!exprTruthy value))
  | 11 =>
    match value with
    | .int value => (checkedNeg value).map .int
    | .float value => finiteFloat (FloatOps.neg value)
    | _ => none
  | _ => none

def memberOpcode (optional : Bool) (property : String) (object : ExprValue F) :
    Option (ExprValue F) :=
  match object with
  | .object fields => some ((findField fields property).getD .null)
  | _ => if optional then some .null else none

end Operators

section Machine

/-- The top of the stack is the head of the list. -/
abbrev Stack (F : Type) := List (ExprValue F)

def readProgramU16 (program : Bytes) (cursor : Nat) : Option (Nat × Nat) := do
  let (raw, cursor) ← take program cursor 2
  return (Wire.ofLe raw, cursor)

/-- The keys of an object literal; a key given twice stops the program. -/
def readKeys (program : Bytes) : Nat → Nat → List String → Option (List String × Nat)
  | 0, cursor, keys => some (keys, cursor)
  | count + 1, cursor, keys => do
    let (key, cursor) ← readString program cursor
    if keys.contains key then none else readKeys program count cursor (keys ++ [key])

/-- The last `count` values pushed, oldest first, and what lies under them. -/
def popExpressionValues (stack : Stack F) (count : Nat) : Option (List (ExprValue F) × Stack F) :=
  if count ≤ stack.length then some ((stack.take count).reverse, stack.drop count) else none

variable (program : Bytes) (dependencies : List (ExprValue F))

/-- One opcode: the new stack and the cursor behind its operands. -/
def execOpcode (opcode : UInt8) (cursor : Nat) (stack : Stack F) : Option (Stack F × Nat) :=
  match opcode with
  | 0 => do
    let (index, cursor) ← readProgramU16 program cursor
    let value ← dependencies[index]?
    return (value :: stack, cursor)
  | 1 => some (.null :: stack, cursor)
  | 2 => do
    let (value, cursor) ← readString program cursor
    return (.string value :: stack, cursor)
  | 3 => do
    let (raw, cursor) ← take program cursor 1
    let value ← raw.head?
    if value > 1 then none else some (.bool (value == 1) :: stack, cursor)
  | 4 => do
    let (raw, cursor) ← take program cursor 8
    let value : F := Binary64.fromLeBytes raw
    if Binary64.isFinite value then some (.float value :: stack, cursor) else none
  | 5 => do
    let (raw, cursor) ← take program cursor 8
    return (.int (int64FromLe raw) :: stack, cursor)
  | 10 | 11 =>
    match stack with
    | value :: stack => do
      let result ← evaluateUnaryOpcode opcode value
      return (result :: stack, cursor)
    | _ => none
  | 20 | 21 | 22 | 23 | 24 | 25 | 26 | 27 | 28 | 29 | 30 | 31 | 32 | 33 | 34 | 40 =>
    match stack with
    | right :: left :: stack => do
      let result ← evaluateBinaryOpcode opcode left right
      return (result :: stack, cursor)
    | _ => none
  | 41 | 42 => do
    let (property, cursor) ← readString program cursor
    match stack with
    | object :: stack =>
      let result ← memberOpcode (opcode == 42) property object
      return (result :: stack, cursor)
    | _ => none
  | 50 => do
    let (count, cursor) ← readProgramU16 program cursor
    if count > axExpressionCollectionMaxItems then none
    else
      let (values, stack) ← popExpressionValues stack count
      return (.list values :: stack, cursor)
  | 51 => do
    let (count, cursor) ← readProgramU16 program cursor
    if count > axExpressionCollectionMaxItems then none
    else
      let (keys, cursor) ← readKeys program count cursor []
      let (values, stack) ← popExpressionValues stack count
      return (.object (keys.zip values) :: stack, cursor)
  | _ => none

theorem execOpcode_unary {opcode : UInt8} (unary : opcode = 10 ∨ opcode = 11) {value : ExprValue F}
    {cursor : Nat} {stack : Stack F} :
    execOpcode program dependencies opcode cursor (value :: stack) =
      (evaluateUnaryOpcode opcode value).map fun result => (result :: stack, cursor) := by
  rcases unary with rfl | rfl <;> (simp only [execOpcode]; cases evaluateUnaryOpcode _ value <;> rfl)

def binaryOpcodes : List UInt8 := [20, 21, 22, 23, 24, 25, 26, 27, 28, 29, 30, 31, 32, 33, 34, 40]

theorem execOpcode_binary {opcode : UInt8} (binary : opcode ∈ binaryOpcodes)
    {left right : ExprValue F} {cursor : Nat} {stack : Stack F} :
    execOpcode program dependencies opcode cursor (right :: left :: stack) =
      (evaluateBinaryOpcode opcode left right).map fun result => (result :: stack, cursor) := by
  simp only [binaryOpcodes, List.mem_cons, List.not_mem_nil, or_false] at binary
  rcases binary with rfl | rfl | rfl | rfl | rfl | rfl | rfl | rfl | rfl | rfl | rfl | rfl | rfl |
    rfl | rfl | rfl <;> (simp only [execOpcode]; cases evaluateBinaryOpcode _ left right <;> rfl)

/-- The loop; every opcode moves the cursor, so `fuel` is the rest of the program. -/
def runProgram : Nat → Nat → Stack F → Option (ExprValue F)
  | 0, _, _ => none
  | fuel + 1, cursor, stack =>
    match (program[cursor]? : Option UInt8) with
    | none =>
      match stack with
      | [value] => some value
      | _ => none
    | some opcode => do
      let (stack, cursor) ← execOpcode program dependencies opcode (cursor + 1) stack
      if stack.length > axExpressionStackMaxValues then none else runProgram fuel cursor stack

def evaluateExpressionProgram : Option (ExprValue F) :=
  if program.length < 4 || program.take 4 != [65, 88, 69, 1] then none
  else runProgram program dependencies (program.length + 1) 4 []

/-- The program, the number of the values it depends on and their frames, and nothing behind
them. -/
def readRequest (request : Bytes) : Option (Bytes × List (ExprValue F)) := do
  let (programLen, cursor) ← readU32 request 0
  let (program, cursor) ← take request cursor programLen
  let (dependencyCount, cursor) ← readU32 request cursor
  if dependencyCount > (request.length - cursor) / 4 then none
  else
    let (dependencies, cursor) ←
      decodeItems (decodeExprValue · 0) request dependencyCount cursor []
    if cursor != request.length then none else return (program, dependencies)

def evaluateExpressionRequest (request : Bytes) : Option (ExprValue F) := do
  let (program, dependencies) ← readRequest request
  evaluateExpressionProgram program dependencies

end Machine

end Axonyx.StateWasm
