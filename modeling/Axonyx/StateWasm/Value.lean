import Axonyx.Binary64

/-! Values of the client state VM and their length-prefixed frames: `AX`, a version
byte, a tag, then the payload. The decoder and the validator are separate readers of
the same bytes; both are bounded by `axStateValueMaxDepth`. -/
namespace Axonyx.StateWasm

open Wire (Bytes utf8 fromUtf8)

def axStateValueCapacity : Nat := 64 * 1024
def axStateValueFrameVersion : UInt8 := 1
def axStateValueMaxDepth : Nat := 32

inductive ExprValue (F : Type) where
  | null
  | string (value : String)
  | bool (value : Bool)
  | float (value : F)
  | int (value : Int64)
  | bytes (value : Bytes)
  | list (items : List (ExprValue F))
  | object (fields : List (String × ExprValue F))

variable {F : Type} [Binary64 F]

/-- The cursor only moves when the whole slice is inside `bytes`. -/
def take (bytes : Bytes) (cursor length : Nat) : Option (Bytes × Nat) :=
  if cursor + length ≤ bytes.length then
    some ((bytes.drop cursor).take length, cursor + length)
  else none

def readU32 (bytes : Bytes) (cursor : Nat) : Option (Nat × Nat) := do
  let (raw, cursor) ← take bytes cursor 4
  return (Wire.ofLe raw, cursor)

/-- A `u32` length followed by that many bytes of UTF-8. -/
def readString (bytes : Bytes) (cursor : Nat) : Option (String × Nat) := do
  let (length, cursor) ← readU32 bytes cursor
  let (raw, cursor) ← take bytes cursor length
  let value ← fromUtf8 raw
  return (value, cursor)

def pushU32 (value : Nat) : Option Bytes :=
  if value < 2 ^ 32 then some (Wire.leBytes 4 value) else none

/-- `bytes[0..3]` is the magic and the version; a shorter input has no frame. -/
def frameHeader (bytes : Bytes) : Bool :=
  4 ≤ bytes.length && bytes.take 3 == [65, 88, axStateValueFrameVersion]

section Decode

/-- One pass of the list loop per remaining item; `decode` reads one nested frame. -/
def decodeItems (decode : Bytes → Option (ExprValue F × Nat)) (bytes : Bytes) :
    Nat → Nat → List (ExprValue F) → Option (List (ExprValue F) × Nat)
  | 0, cursor, items => some (items, cursor)
  | count + 1, cursor, items => do
    let (item, consumed) ← decode (bytes.drop cursor)
    decodeItems decode bytes count (cursor + consumed) (items ++ [item])

def decodeFields (decode : Bytes → Option (ExprValue F × Nat)) (bytes : Bytes) :
    Nat → Nat → List (String × ExprValue F) → Option (List (String × ExprValue F) × Nat)
  | 0, cursor, fields => some (fields, cursor)
  | count + 1, cursor, fields => do
    let (key, cursor) ← readString bytes cursor
    if fields.any (fun field => field.1 == key) then none
    else
      let (value, consumed) ← decode (bytes.drop cursor)
      decodeFields decode bytes count (cursor + consumed) (fields ++ [(key, value)])

/-- The tagged payload behind a checked header. -/
def decodePayload (decode : Bytes → Option (ExprValue F × Nat)) (bytes : Bytes) :
    Option (ExprValue F × Nat) :=
  match (bytes[3]? : Option UInt8) with
  | some 0 => some (.null, 4)
  | some 1 => do
    let (value, cursor) ← readString bytes 4
    return (.string value, cursor)
  | some 2 => do
    let (raw, cursor) ← take bytes 4 1
    let value ← raw.head?
    if value > 1 then none else some (.bool (value == 1), cursor)
  | some 3 => do
    let (raw, cursor) ← take bytes 4 8
    let value : F := Binary64.fromLeBytes raw
    if Binary64.isFinite value then some (.float value, cursor) else none
  | some 4 => do
    let (raw, cursor) ← take bytes 4 8
    return (.int (int64FromLe raw), cursor)
  | some 5 => do
    let (length, cursor) ← readU32 bytes 4
    let (raw, cursor) ← take bytes cursor length
    return (.bytes raw, cursor)
  | some 6 => do
    let (count, cursor) ← readU32 bytes 4
    if count > (bytes.length - cursor) / 4 then none
    else
      let (items, cursor) ← decodeItems decode bytes count cursor []
      return (.list items, cursor)
  | some 7 => do
    let (count, cursor) ← readU32 bytes 4
    if count > (bytes.length - cursor) / 8 then none
    else
      let (fields, cursor) ← decodeFields decode bytes count cursor []
      return (.object fields, cursor)
  | _ => none

/-- `levels` counts down what the source's `depth` counts up: `levels = 0` is a depth
past the limit. -/
def decodeLevels : Nat → Bytes → Option (ExprValue F × Nat)
  | 0, _ => none
  | levels + 1, bytes =>
    if frameHeader bytes then decodePayload (decodeLevels levels) bytes else none

def decodeExprValue (bytes : Bytes) (depth : Nat) : Option (ExprValue F × Nat) :=
  decodeLevels (axStateValueMaxDepth + 1 - depth) bytes

end Decode

section Encode

/-- What every frame starts with. -/
def frameHead (tag : UInt8) : Bytes := [65, 88, axStateValueFrameVersion, tag]

mutual

/-- The bytes appended to `output`; the source's `output` is only ever extended. -/
def encodeExprValue : ExprValue F → Nat → Option Bytes
  | value, depth =>
    if depth > axStateValueMaxDepth then none
    else match value with
      | .null => some (frameHead 0)
      | .string value => do
        let length ← pushU32 (utf8 value).length
        return frameHead 1 ++ length ++ utf8 value
      | .bool value => some (frameHead 2 ++ [if value then 1 else 0])
      | .float value =>
        if Binary64.isFinite value then some (frameHead 3 ++ Binary64.toLeBytes value) else none
      | .int value => some (frameHead 4 ++ int64ToLe value)
      | .bytes value => do
        let length ← pushU32 value.length
        return frameHead 5 ++ length ++ value
      | .list items => do
        let count ← pushU32 items.length
        let body ← encodeItems items (depth + 1)
        return frameHead 6 ++ count ++ body
      | .object fields => do
        let count ← pushU32 fields.length
        let body ← encodeFields fields (depth + 1)
        return frameHead 7 ++ count ++ body

def encodeItems : List (ExprValue F) → Nat → Option Bytes
  | [], _ => some []
  | item :: items, depth => do
    let frame ← encodeExprValue item depth
    let rest ← encodeItems items depth
    return frame ++ rest

def encodeFields : List (String × ExprValue F) → Nat → Option Bytes
  | [], _ => some []
  | (key, value) :: fields, depth => do
    let length ← pushU32 (utf8 key).length
    let frame ← encodeExprValue value depth
    let rest ← encodeFields fields depth
    return length ++ utf8 key ++ frame ++ rest

end

end Encode

section Validate

def validateItems (validate : Bytes → Option Nat) (bytes : Bytes) : Nat → Nat → Option Nat
  | 0, cursor => some cursor
  | count + 1, cursor => do
    let consumed ← validate (bytes.drop cursor)
    validateItems validate bytes count (cursor + consumed)

/-- The source reads the key and drops it: no earlier key is remembered. -/
def validateFields (validate : Bytes → Option Nat) (bytes : Bytes) : Nat → Nat → Option Nat
  | 0, cursor => some cursor
  | count + 1, cursor => do
    let (_, cursor) ← readString bytes cursor
    let consumed ← validate (bytes.drop cursor)
    validateFields validate bytes count (cursor + consumed)

def validatePayload (F : Type) [Binary64 F] (validate : Bytes → Option Nat) (bytes : Bytes) :
    Option Nat :=
  match (bytes[3]? : Option UInt8) with
  | some 0 => some 4
  | some 1 => do
    let (_, cursor) ← readString bytes 4
    return cursor
  | some 2 => do
    let (raw, cursor) ← take bytes 4 1
    let value ← raw.head?
    if value > 1 then none else some cursor
  | some 3 => do
    let (raw, cursor) ← take bytes 4 8
    if Binary64.isFinite (Binary64.fromLeBytes raw : F) then some cursor else none
  | some 4 => do
    let (_, cursor) ← take bytes 4 8
    return cursor
  | some 5 => do
    let (length, cursor) ← readU32 bytes 4
    let (_, cursor) ← take bytes cursor length
    return cursor
  | some 6 => do
    let (count, cursor) ← readU32 bytes 4
    validateItems validate bytes count cursor
  | some 7 => do
    let (count, cursor) ← readU32 bytes 4
    validateFields validate bytes count cursor
  | _ => none

def validateLevels (F : Type) [Binary64 F] : Nat → Bytes → Option Nat
  | 0, _ => none
  | levels + 1, bytes =>
    if frameHeader bytes then validatePayload F (validateLevels F levels) bytes else none

def validateValueFrame (F : Type) [Binary64 F] (bytes : Bytes) (depth : Nat) : Option Nat :=
  validateLevels F (axStateValueMaxDepth + 1 - depth) bytes

/-- `ax_state_apply_value` for `AX_STATE_OP_SET`: the buffer holds one whole frame. -/
def axStateApplyValue (F : Type) [Binary64 F] (buffer : Bytes) : Bool :=
  buffer.length ≤ axStateValueCapacity &&
    validateValueFrame F buffer 0 == some buffer.length

end Validate

end Axonyx.StateWasm
