import Axonyx.Guarded
import Axonyx.StateWasm.Codec
import Axonyx.StateWasm.ProgramRun

/-! The expression VM as the machine runs it: every index, slice, sum and push that could go
wrong is one that does. On a request the machine can address nothing does go wrong, and the
result is that of the reader and the program. -/
namespace Axonyx.StateWasm.Machine

open Guarded
open Wire (Bytes fromUtf8)

variable {F : Type} [Float64 F] (usize : Usize)

section Readers

def take (bytes : Bytes) (cursor length : Nat) : Guarded (Bytes × Nat) := do
  let stop ← returns (checkedSum usize cursor length)
  let value ← returns (slice? bytes cursor stop)
  return (value, stop)

def readU32 (bytes : Bytes) (cursor : Nat) : Guarded (Nat × Nat) := do
  let (raw, cursor) ← take usize bytes cursor 4
  return (Wire.ofLe raw, cursor)

def readProgramU16 (program : Bytes) (cursor : Nat) : Guarded (Nat × Nat) := do
  let (raw, cursor) ← take usize program cursor 2
  return (Wire.ofLe raw, cursor)

def readString (bytes : Bytes) (cursor : Nat) : Guarded (String × Nat) := do
  let (length, cursor) ← readU32 usize bytes cursor
  let (raw, cursor) ← take usize bytes cursor length
  let value ← returns (fromUtf8 raw)
  return (value, cursor)

def readKeys (program : Bytes) : Nat → Nat → List String → Guarded (List String × Nat)
  | 0, cursor, keys => return (keys, cursor)
  | count + 1, cursor, keys => do
    let (key, cursor) ← readString usize program cursor
    if keys.contains key then refuse else readKeys program count cursor (keys ++ [key])

end Readers

section Frames

/-- A byte is looked at only when those before it are right. -/
def frameHeader (bytes : Bytes) : Guarded Bool :=
  if bytes.length < 4 then return false
  else do
    let first ← itemAt bytes 0
    if first != 65 then return false
    else
      let second ← itemAt bytes 1
      if second != 88 then return false
      else
        let third ← itemAt bytes 2
        return third == axStateValueFrameVersion

def decodeItems (decode : Bytes → Guarded (ExprValue F × Nat)) (bytes : Bytes) :
    Nat → Nat → List (ExprValue F) → Guarded (List (ExprValue F) × Nat)
  | 0, cursor, items => return (items, cursor)
  | count + 1, cursor, items => do
    let frame ← sliceFrom bytes cursor
    let (item, consumed) ← decode frame
    let cursor ← returns (checkedSum usize cursor consumed)
    decodeItems decode bytes count cursor (items ++ [item])

def decodeFields (decode : Bytes → Guarded (ExprValue F × Nat)) (bytes : Bytes) :
    Nat → Nat → List (String × ExprValue F) → Guarded (List (String × ExprValue F) × Nat)
  | 0, cursor, fields => return (fields, cursor)
  | count + 1, cursor, fields => do
    let (key, cursor) ← readString usize bytes cursor
    if fields.any (fun field => field.1 == key) then refuse
    else
      let frame ← sliceFrom bytes cursor
      let (value, consumed) ← decode frame
      let cursor ← returns (checkedSum usize cursor consumed)
      decodeFields decode bytes count cursor (fields ++ [(key, value)])

def decodePayload (decode : Bytes → Guarded (ExprValue F × Nat)) (bytes : Bytes) :
    Guarded (ExprValue F × Nat) := do
  let tag ← itemAt bytes 3
  match tag with
  | 0 => return (.null, 4)
  | 1 => do
    let (value, cursor) ← readString usize bytes 4
    return (.string value, cursor)
  | 2 => do
    let (raw, cursor) ← take usize bytes 4 1
    let value ← returns raw.head?
    if value > 1 then refuse else return (.bool (value == 1), cursor)
  | 3 => do
    let (raw, cursor) ← take usize bytes 4 8
    let value : F := Binary64.fromLeBytes raw
    if Binary64.isFinite value then return (.float value, cursor) else refuse
  | 4 => do
    let (raw, cursor) ← take usize bytes 4 8
    return (.int (int64FromLe raw), cursor)
  | 5 => do
    let (length, cursor) ← readU32 usize bytes 4
    let (raw, cursor) ← take usize bytes cursor length
    return (.bytes raw, cursor)
  | 6 => do
    let (count, cursor) ← readU32 usize bytes 4
    if count > (bytes.length - cursor) / 4 then refuse
    else
      let (items, cursor) ← decodeItems usize decode bytes count cursor []
      return (.list items, cursor)
  | 7 => do
    let (count, cursor) ← readU32 usize bytes 4
    if count > (bytes.length - cursor) / 8 then refuse
    else
      let (fields, cursor) ← decodeFields usize decode bytes count cursor []
      return (.object fields, cursor)
  | _ => refuse

/-- `fuel` bounds the nested calls; the source's own bound is on `depth`. -/
def decodeExprValue : Nat → Bytes → Nat → Guarded (ExprValue F × Nat)
  | 0, _, _ => fault .endless
  | fuel + 1, bytes, depth =>
    if depth > axStateValueMaxDepth then refuse
    else do
      let framed ← frameHeader bytes
      if framed then
        decodePayload usize (fun frame => do
          let deeper ← plus usize depth 1
          decodeExprValue fuel frame deeper) bytes
      else refuse

end Frames

section Program

variable (room : Nat) (program : Bytes) (dependencies : List (ExprValue F))

def pop (stack : Stack F) : Option (ExprValue F × Stack F) :=
  match stack with
  | value :: stack => some (value, stack)
  | [] => none

def popExpressionValues (stack : Stack F) (count : Nat) :
    Guarded (List (ExprValue F) × Stack F) := do
  let start ← returns (if count ≤ stack.length then some (stack.length - count) else none)
  splitOff stack start

def execOpcode (opcode : UInt8) (cursor : Nat) (stack : Stack F) : Guarded (Stack F × Nat) :=
  match opcode with
  | 0 => do
    let (index, cursor) ← readProgramU16 usize program cursor
    let value ← returns dependencies[index]?
    let stack ← push room stack value
    return (stack, cursor)
  | 1 => do
    let stack ← push room stack .null
    return (stack, cursor)
  | 2 => do
    let (value, cursor) ← readString usize program cursor
    let stack ← push room stack (.string value)
    return (stack, cursor)
  | 3 => do
    let (raw, cursor) ← take usize program cursor 1
    let value ← returns raw.head?
    if value > 1 then refuse
    else
      let stack ← push room stack (.bool (value == 1))
      return (stack, cursor)
  | 4 => do
    let (raw, cursor) ← take usize program cursor 8
    let value : F := Binary64.fromLeBytes raw
    if Binary64.isFinite value then
      let stack ← push room stack (.float value)
      return (stack, cursor)
    else refuse
  | 5 => do
    let (raw, cursor) ← take usize program cursor 8
    let stack ← push room stack (.int (int64FromLe raw))
    return (stack, cursor)
  | 10 | 11 => do
    let (value, stack) ← returns (pop stack)
    let result ← returns (evaluateUnaryOpcode opcode value)
    let stack ← push room stack result
    return (stack, cursor)
  | 20 | 21 | 22 | 23 | 24 | 25 | 26 | 27 | 28 | 29 | 30 | 31 | 32 | 33 | 34 | 40 => do
    let (right, stack) ← returns (pop stack)
    let (left, stack) ← returns (pop stack)
    let result ← returns (evaluateBinaryOpcode opcode left right)
    let stack ← push room stack result
    return (stack, cursor)
  | 41 | 42 => do
    let (property, cursor) ← readString usize program cursor
    let (object, stack) ← returns (pop stack)
    let result ← returns (memberOpcode (opcode == 42) property object)
    let stack ← push room stack result
    return (stack, cursor)
  | 50 => do
    let (count, cursor) ← readProgramU16 usize program cursor
    if count > axExpressionCollectionMaxItems then refuse
    else
      let (values, stack) ← popExpressionValues stack count
      let stack ← push room stack (.list values)
      return (stack, cursor)
  | 51 => do
    let (count, cursor) ← readProgramU16 usize program cursor
    if count > axExpressionCollectionMaxItems then refuse
    else
      let (keys, cursor) ← readKeys usize program count cursor []
      let (values, stack) ← popExpressionValues stack count
      let stack ← push room stack (.object (keys.zip values))
      return (stack, cursor)
  | _ => refuse

/-- One pass of the loop; a stack past the limit ends the program. -/
def iteration (cursor : Nat) (stack : Stack F) : Guarded (Stack F × Nat) := do
  let opcode ← returns (program[cursor]? : Option UInt8)
  let cursor ← plus usize cursor 1
  let (stack, cursor) ← execOpcode usize room program dependencies opcode cursor stack
  if stack.length > axExpressionStackMaxValues then refuse else return (stack, cursor)

/-- The states in which the loop looks for an opcode. -/
inductive Visited : Nat → Stack F → Prop
  | start (headed : 4 ≤ program.length) : Visited 4 []
  | step {cursor next : Nat} {stack after : Stack F} (before : Visited cursor stack)
      (passed : iteration usize room program dependencies cursor stack =
        returns (some (after, next))) : Visited next after

def runProgram : Nat → Nat → Stack F → Guarded (ExprValue F)
  | 0, _, _ => fault .endless
  | fuel + 1, cursor, stack =>
    if cursor < program.length then do
      let (stack, cursor) ← iteration usize room program dependencies cursor stack
      runProgram fuel cursor stack
    else returns (if stack.length == 1 then stack.head? else none)

def evaluateExpressionProgram : Guarded (ExprValue F) :=
  if program.length < 4 then refuse
  else do
    let magic ← sliceTo program 4
    if magic != [65, 88, 69, 1] then refuse
    else runProgram usize room program dependencies (program.length + 1) 4 []

end Program

/-- A request is a slice of the machine's memory, so its length is an address. -/
structure Request (usize : Usize) where
  bytes : Bytes
  addressable : bytes.length < usize.range

/-- The program and the values it depends on; nothing may lie behind them. -/
def readRequest (request : Request usize) : Guarded (Bytes × List (ExprValue F)) := do
  let (programLen, cursor) ← readU32 usize request.bytes 0
  let (program, cursor) ← take usize request.bytes cursor programLen
  let (dependencyCount, cursor) ← readU32 usize request.bytes cursor
  if dependencyCount > (request.bytes.length - cursor) / 4 then refuse
  else
    let (dependencies, cursor) ← decodeItems usize
      (fun frame => decodeExprValue usize (axStateValueMaxDepth + 2) frame 0)
      request.bytes dependencyCount cursor []
    if cursor != request.bytes.length then refuse else return (program, dependencies)

/-- `room` is how many values the stack has space for; the source's has no such bound. -/
def evaluateExpressionRequest (room : Nat) (request : Request usize) : Guarded (ExprValue F) := do
  let (program, dependencies) ← readRequest usize request
  evaluateExpressionProgram usize room program dependencies

section Refinement

variable {usize} {bytes : Bytes} (addressable : bytes.length < usize.range)

section Readers
include addressable

theorem take_returns (cursor length : Nat) :
    take usize bytes cursor length = returns (StateWasm.take bytes cursor length) := by
  simp only [take, StateWasm.take]
  by_cases inside : cursor + length ≤ bytes.length
  · have both : cursor ≤ cursor + length ∧ cursor + length ≤ bytes.length := ⟨by omega, inside⟩
    rw [checkedSum_of_lt (by omega), returns_some_bind, if_pos inside, slice?, if_pos both,
      Nat.add_sub_cancel_left]
    rfl
  · rw [if_neg inside, checkedSum]
    split
    · rw [returns_some_bind, slice?, if_neg (fun both => inside both.2)]
      rfl
    · rfl

theorem readU32_returns (cursor : Nat) :
    readU32 usize bytes cursor = returns (StateWasm.readU32 bytes cursor) :=
  bind_returns (take_returns addressable cursor 4) fun _ _ => rfl

theorem readProgramU16_returns (cursor : Nat) :
    readProgramU16 usize bytes cursor = returns (StateWasm.readProgramU16 bytes cursor) :=
  bind_returns (take_returns addressable cursor 2) fun _ _ => rfl

theorem readString_returns (cursor : Nat) :
    readString usize bytes cursor = returns (StateWasm.readString bytes cursor) := by
  apply bind_returns (readU32_returns addressable cursor)
  rintro ⟨length, cursor⟩ -
  apply bind_returns (take_returns addressable cursor length)
  rintro ⟨raw, cursor⟩ -
  exact bind_returns rfl fun _ _ => rfl

theorem readKeys_returns (count cursor : Nat) (keys : List String) :
    readKeys usize bytes count cursor keys = returns (StateWasm.readKeys bytes count cursor keys) := by
  induction count generalizing cursor keys with
  | zero => rfl
  | succ count ih =>
    apply bind_returns (readString_returns addressable cursor)
    rintro ⟨key, cursor⟩ -
    dsimp only
    split
    · rfl
    · exact ih cursor _

end Readers

theorem frameHeader_returns (bytes : Bytes) :
    frameHeader bytes = returns (some (StateWasm.frameHeader bytes)) := by
  rcases bytes with _ | ⟨a, _ | ⟨b, _ | ⟨c, _ | ⟨d, rest⟩⟩⟩⟩
  iterate 4 rfl
  have long : ¬ (a :: b :: c :: d :: rest).length < 4 := by simp
  rw [frameHeader, if_neg long, itemAt_returns (by simp), returns_some_bind]
  by_cases first : a = 65
  · by_cases second : b = 88
    · simp [first, second, StateWasm.frameHeader, itemAt, pure_returns, returns_some_bind]
    · have other : (b == 88) = false := beq_false_of_ne second
      simp [first, second, other, StateWasm.frameHeader, itemAt, pure_returns, returns_some_bind]
  · have other : (a == 65) = false := beq_false_of_ne first
    simp [first, other, StateWasm.frameHeader, pure_returns]

/-- A nested reader that never goes wrong and stays inside what it is given. -/
structure Decodes (usize : Usize) (checked : Bytes → Guarded (ExprValue F × Nat))
    (plain : Bytes → Option (ExprValue F × Nat)) : Prop where
  same : ∀ frame, frame.length < usize.range → checked frame = returns (plain frame)
  inside : ∀ frame value consumed, plain frame = some (value, consumed) → consumed ≤ frame.length

variable {checked : Bytes → Guarded (ExprValue F × Nat)}
  {plain : Bytes → Option (ExprValue F × Nat)} (nested : Decodes usize checked plain)

section Frames
include addressable nested

omit [Float64 F] in
theorem decodeItems_returns (count : Nat) {cursor : Nat} (items : List (ExprValue F))
    (inside : cursor ≤ bytes.length) :
    decodeItems usize checked bytes count cursor items =
      returns (StateWasm.decodeItems plain bytes count cursor items) := by
  induction count generalizing cursor items with
  | zero => rfl
  | succ count ih =>
    have shorter : (bytes.drop cursor).length < usize.range := by rw [List.length_drop]; omega
    rw [decodeItems, sliceFrom_returns inside, returns_some_bind]
    apply bind_returns (nested.same _ shorter)
    rintro ⟨item, consumed⟩ found
    have fits := nested.inside _ _ _ found
    rw [List.length_drop] at fits
    dsimp only
    rw [checkedSum_of_lt (by omega), returns_some_bind]
    exact ih _ (by omega)

omit [Float64 F] in
theorem decodeFields_returns (count : Nat) {cursor : Nat} (fields : List (String × ExprValue F)) :
    decodeFields usize checked bytes count cursor fields =
      returns (StateWasm.decodeFields plain bytes count cursor fields) := by
  induction count generalizing cursor fields with
  | zero => rfl
  | succ count ih =>
    apply bind_returns (readString_returns addressable cursor)
    rintro ⟨key, middle⟩ read
    obtain ⟨_, _, slice⟩ := readString_eq_some_iff.mp read
    have shorter : (bytes.drop middle).length < usize.range := by rw [List.length_drop]; omega
    dsimp only
    split
    · rfl
    · rw [sliceFrom_returns slice.bound, returns_some_bind]
      apply bind_returns (nested.same _ shorter)
      rintro ⟨value, consumed⟩ found
      have fits := nested.inside _ _ _ found
      have bound := slice.bound
      rw [List.length_drop] at fits
      dsimp only
      rw [checkedSum_of_lt (by omega), returns_some_bind]
      exact ih _

theorem decodePayload_returns (long : 3 < bytes.length) :
    decodePayload usize checked bytes = returns (StateWasm.decodePayload plain bytes) := by
  rw [decodePayload, itemAt_returns long, returns_some_bind]
  simp only [StateWasm.decodePayload, List.getElem?_eq_getElem long]
  generalize bytes[3] = tag
  split
  · rfl
  · exact bind_returns (readString_returns addressable 4) fun _ _ => rfl
  · apply bind_returns (take_returns addressable 4 1)
    rintro ⟨raw, cursor⟩ -
    apply bind_returns rfl
    intro value _
    dsimp only
    split <;> rfl
  · apply bind_returns (take_returns addressable 4 8)
    rintro ⟨raw, cursor⟩ -
    dsimp only
    split <;> rfl
  · exact bind_returns (take_returns addressable 4 8) fun _ _ => rfl
  · apply bind_returns (readU32_returns addressable 4)
    rintro ⟨length, cursor⟩ -
    exact bind_returns (take_returns addressable cursor length) fun _ _ => rfl
  · apply bind_returns (readU32_returns addressable 4)
    rintro ⟨count, cursor⟩ read
    have inside := (readU32_eq_some_iff.mp read).2.bound
    dsimp only
    split
    · rfl
    · exact bind_returns (decodeItems_returns addressable nested count [] inside) fun _ _ => rfl
  · apply bind_returns (readU32_returns addressable 4)
    rintro ⟨count, cursor⟩ -
    dsimp only
    split
    · rfl
    · exact bind_returns (decodeFields_returns addressable nested count []) fun _ _ => rfl
  next others => (try split) <;> simp_all [refuse]

end Frames

theorem decodeExprValue_returns {fuel depth : Nat} (enough : axStateValueMaxDepth + 2 ≤ fuel + depth)
    (shallow : depth ≤ axStateValueMaxDepth + 1) (bytes : Bytes)
    (addressable : bytes.length < usize.range) :
    (decodeExprValue usize fuel bytes depth : Guarded (ExprValue F × Nat)) =
      returns (StateWasm.decodeExprValue bytes depth) := by
  induction fuel generalizing depth bytes with
  | zero => omega
  | succ fuel ih =>
    rw [decodeExprValue, StateWasm.decodeExprValue]
    split
    next deep =>
      have bottom : axStateValueMaxDepth + 1 - depth = 0 := by omega
      rw [bottom]
      rfl
    next level =>
      have above : axStateValueMaxDepth + 1 - depth = axStateValueMaxDepth + 1 - (depth + 1) + 1 := by
        omega
      rw [above, decodeLevels, frameHeader_returns, returns_some_bind]
      split
      next framed =>
        have long : 3 < bytes.length := by
          simp only [StateWasm.frameHeader, Bool.and_eq_true, decide_eq_true_eq] at framed
          omega
        apply decodePayload_returns addressable _ long
        constructor
        · intro frame fits
          have small : depth + 1 < usize.range := by
            have wide := usize.wide
            simp only [axStateValueMaxDepth] at level
            omega
          rw [plus_returns small, returns_some_bind]
          exact ih (by omega) (by omega) frame fits
        · intro frame value consumed decoded
          have framed : StateWasm.decodeExprValue frame (depth + 1) = some (value, consumed) := decoded
          exact (encode_of_decode framed).1
      · rfl

section Program

variable {program : Bytes} (short : program.length < usize.range) {room : Nat}
  {dependencies : List (ExprValue F)}

omit [Float64 F] in
theorem popExpressionValues_returns (stack : Stack F) (count : Nat) :
    popExpressionValues stack count = returns (StateWasm.popExpressionValues stack count) := by
  rw [popExpressionValues, StateWasm.popExpressionValues]
  split
  next inside => exact splitOff_returns inside
  · rfl

include short in
/-- Every opcode pushes one value, on a stack no higher than before. -/
theorem execOpcode_returns (opcode : UInt8) (cursor : Nat) {stack : Stack F}
    (free : stack.length < room) :
    execOpcode usize room program dependencies opcode cursor stack =
      returns (StateWasm.execOpcode program dependencies opcode cursor stack) := by
  unfold execOpcode StateWasm.execOpcode
  split
  · apply bind_returns (readProgramU16_returns short cursor)
    rintro ⟨index, cursor⟩ -
    apply bind_returns rfl
    intro value _
    rw [push_returns value free]
    rfl
  · rw [push_returns _ free]
    rfl
  · apply bind_returns (readString_returns short cursor)
    rintro ⟨value, cursor⟩ -
    dsimp only
    rw [push_returns _ free]
    rfl
  · apply bind_returns (take_returns short cursor 1)
    rintro ⟨raw, cursor⟩ -
    apply bind_returns rfl
    intro value _
    rw [push_returns _ free]
    split <;> rfl
  · apply bind_returns (take_returns short cursor 8)
    rintro ⟨raw, cursor⟩ -
    dsimp only
    rw [push_returns _ free]
    split <;> rfl
  · apply bind_returns (take_returns short cursor 8)
    rintro ⟨raw, cursor⟩ -
    dsimp only
    rw [push_returns _ free]
    rfl
  iterate 2
    cases stack with
    | nil => rfl
    | cons value stack =>
      have below : stack.length < room := Nat.lt_of_succ_lt free
      simp only [pop, returns_some_bind]
      apply bind_returns rfl
      intro result _
      rw [push_returns _ below]
      rfl
  iterate 16
    rcases stack with _ | ⟨right, _ | ⟨left, stack⟩⟩
    · rfl
    · rfl
    · have below : stack.length < room := Nat.lt_of_succ_lt (Nat.lt_of_succ_lt free)
      simp only [pop, returns_some_bind]
      apply bind_returns rfl
      intro result _
      rw [push_returns _ below]
      rfl
  iterate 2
    apply bind_returns (readString_returns short cursor)
    rintro ⟨property, cursor⟩ -
    cases stack with
    | nil => rfl
    | cons object stack =>
      have below : stack.length < room := Nat.lt_of_succ_lt free
      simp only [pop, returns_some_bind]
      apply bind_returns rfl
      intro result _
      rw [push_returns _ below]
      rfl
  · apply bind_returns (readProgramU16_returns short cursor)
    rintro ⟨count, cursor⟩ -
    dsimp only
    split
    · rfl
    · apply bind_returns (popExpressionValues_returns stack count)
      rintro ⟨values, rest⟩ popped
      have below := popExpressionValues_length popped
      dsimp only
      rw [push_returns _ (by omega)]
      rfl
  · apply bind_returns (readProgramU16_returns short cursor)
    rintro ⟨count, cursor⟩ -
    dsimp only
    split
    · rfl
    · apply bind_returns (readKeys_returns short count cursor [])
      rintro ⟨keys, cursor⟩ -
      apply bind_returns (popExpressionValues_returns stack count)
      rintro ⟨values, rest⟩ popped
      have below := popExpressionValues_length popped
      dsimp only
      rw [push_returns _ (by omega)]
      rfl
  next others => simp_all [refuse]

end Program

end Refinement

end Axonyx.StateWasm.Machine
