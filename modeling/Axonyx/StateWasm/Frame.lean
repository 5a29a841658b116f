import Axonyx.StateWasm.Value

/-! The frame language. `Reads` is what a successful cursor step consumed; each reader
is characterised by an equivalence with the writer's bytes, so the decoder and the
validator are compared through the encoder. -/
namespace Axonyx.StateWasm

open Wire (Bytes utf8 fromUtf8)

variable {F : Type} [Binary64 F]

/-- The bytes from `cursor` up to `next` are exactly `slice`. -/
structure Reads (bytes : Bytes) (cursor : Nat) (slice : Bytes) (next : Nat) : Prop where
  split : bytes.drop cursor = slice ++ bytes.drop next
  next_eq : next = cursor + slice.length
  bound : next ≤ bytes.length

theorem Reads.append {bytes : Bytes} {cursor middle next : Nat} {first second : Bytes}
    (left : Reads bytes cursor first middle) (right : Reads bytes middle second next) :
    Reads bytes cursor (first ++ second) next where
  split := by rw [left.split, right.split, List.append_assoc]
  next_eq := by rw [right.next_eq, left.next_eq, List.length_append, Nat.add_assoc]
  bound := right.bound

theorem Reads.of_append {bytes : Bytes} {cursor next : Nat} {first second : Bytes}
    (whole : Reads bytes cursor (first ++ second) next) :
    Reads bytes cursor first (cursor + first.length) ∧
      Reads bytes (cursor + first.length) second next := by
  have next_eq := whole.next_eq
  have bound := whole.bound
  rw [List.length_append] at next_eq
  have tail : bytes.drop (cursor + first.length) = second ++ bytes.drop next := by
    rw [← List.drop_drop, whole.split, List.append_assoc, List.drop_left]
  refine ⟨⟨?_, rfl, by omega⟩, ⟨tail, by omega, bound⟩⟩
  rw [tail, whole.split, List.append_assoc]

theorem reads_append_iff {bytes : Bytes} {cursor next : Nat} {first second : Bytes} :
    Reads bytes cursor (first ++ second) next ↔
      ∃ middle, Reads bytes cursor first middle ∧ Reads bytes middle second next := by
  constructor
  · intro whole
    exact ⟨_, whole.of_append.1, whole.of_append.2⟩
  · rintro ⟨middle, left, right⟩
    exact left.append right

/-- What is read from a suffix is read in place. -/
theorem reads_drop_iff {bytes : Bytes} {cursor consumed : Nat} {slice : Bytes}
    (inside : cursor ≤ bytes.length) :
    Reads (bytes.drop cursor) 0 slice consumed ↔
      Reads bytes cursor slice (cursor + consumed) := by
  constructor
  · rintro ⟨split, next_eq, bound⟩
    rw [List.length_drop] at bound
    refine ⟨?_, by omega, by omega⟩
    simpa [List.drop_drop] using split
  · rintro ⟨split, next_eq, bound⟩
    refine ⟨?_, by omega, by rw [List.length_drop]; omega⟩
    simpa [List.drop_drop] using split

theorem Reads.prefix_eq {bytes slice : Bytes} {next : Nat} (read : Reads bytes 0 slice next) :
    slice = bytes.take next := by
  have split := read.split
  have next_eq := read.next_eq
  rw [Nat.zero_add] at next_eq
  rw [List.drop_zero] at split
  conv_rhs => rw [split]
  rw [next_eq, List.take_left]

theorem reads_take {bytes : Bytes} {next : Nat} (bound : next ≤ bytes.length) :
    Reads bytes 0 (bytes.take next) next :=
  ⟨by simp, by simp [bound], bound⟩

theorem reads_prefix (slice after : Bytes) : Reads (slice ++ after) 0 slice slice.length :=
  ⟨by simp, by simp, by simp⟩

section Readers

theorem take_eq_some_iff {bytes slice : Bytes} {cursor length next : Nat} :
    take bytes cursor length = some (slice, next) ↔
      slice.length = length ∧ Reads bytes cursor slice next := by
  unfold take
  constructor
  · intro taken
    split at taken
    next inside =>
      simp only [Option.some.injEq, Prod.mk.injEq] at taken
      obtain ⟨rfl, rfl⟩ := taken
      have width : ((bytes.drop cursor).take length).length = length := by
        rw [List.length_take, List.length_drop]; omega
      refine ⟨width, ?_, by rw [width], inside⟩
      rw [← List.drop_drop, List.take_append_drop]
    next => contradiction
  · rintro ⟨rfl, read⟩
    have bound := read.bound
    have next_eq := read.next_eq
    rw [if_pos (by omega), read.split, List.take_left, next_eq]

theorem readU32_eq_some_iff {bytes : Bytes} {cursor value next : Nat} :
    readU32 bytes cursor = some (value, next) ↔
      value < 2 ^ 32 ∧ Reads bytes cursor (Wire.leBytes 4 value) next := by
  simp only [readU32, Option.bind_eq_bind, Option.pure_def, Option.bind_eq_some_iff,
    Option.some.injEq, Prod.exists, Prod.mk.injEq]
  constructor
  · rintro ⟨raw, after, taken, rfl, rfl⟩
    obtain ⟨width, read⟩ := take_eq_some_iff.mp taken
    have small := Wire.ofLe_lt raw
    have same := Wire.leBytes_ofLe raw
    rw [width] at small same
    exact ⟨small, by rwa [same]⟩
  · rintro ⟨small, read⟩
    refine ⟨_, _, take_eq_some_iff.mpr ⟨Wire.leBytes_length 4 value, read⟩, ?_, rfl⟩
    exact Wire.ofLe_leBytes 4 value small

theorem pushU32_eq_some_iff {value : Nat} {pushed : Bytes} :
    pushU32 value = some pushed ↔ value < 2 ^ 32 ∧ pushed = Wire.leBytes 4 value := by
  unfold pushU32
  split <;> simp_all [eq_comm]

/-- A length-prefixed slice, as `read_u32` followed by `take` reads it. -/
theorem readPrefixed_iff {bytes slice : Bytes} {cursor next : Nat} :
    (∃ length middle, readU32 bytes cursor = some (length, middle) ∧
      take bytes middle length = some (slice, next)) ↔
    ∃ length, pushU32 slice.length = some length ∧ Reads bytes cursor (length ++ slice) next := by
  simp only [readU32_eq_some_iff, take_eq_some_iff, pushU32_eq_some_iff, reads_append_iff]
  constructor
  · rintro ⟨_, middle, ⟨small, count⟩, rfl, read⟩
    exact ⟨_, ⟨small, rfl⟩, middle, count, read⟩
  · rintro ⟨_, ⟨small, rfl⟩, middle, count, read⟩
    exact ⟨_, middle, ⟨small, count⟩, rfl, read⟩

theorem readString_eq_some_iff {bytes : Bytes} {cursor next : Nat} {value : String} :
    readString bytes cursor = some (value, next) ↔
      ∃ length, pushU32 (utf8 value).length = some length ∧
        Reads bytes cursor (length ++ utf8 value) next := by
  rw [← readPrefixed_iff]
  simp only [readString, Option.bind_eq_bind, Option.pure_def, Option.bind_eq_some_iff,
    Option.some.injEq, Prod.exists, Prod.mk.injEq]
  constructor
  · rintro ⟨length, middle, count, raw, after, taken, text, decoded, rfl, rfl⟩
    rw [Wire.utf8_of_fromUtf8 decoded]
    exact ⟨length, middle, count, taken⟩
  · rintro ⟨length, middle, count, taken⟩
    exact ⟨length, middle, count, utf8 value, next, taken, value, Wire.fromUtf8_utf8 value, rfl, rfl⟩

/-- The header test and the tag together are the four bytes every frame starts with. -/
theorem frameHeader_tag_iff {bytes : Bytes} {tag : UInt8} :
    (frameHeader bytes = true ∧ (bytes[3]? : Option UInt8) = some tag) ↔
      Reads bytes 0 (frameHead tag) 4 := by
  constructor
  · rintro ⟨header, third⟩
    match bytes, header, third with
    | a :: b :: c :: d :: rest, header, third =>
      simp [frameHeader] at header third
      obtain ⟨rfl, rfl, rfl⟩ := header
      subst third
      exact ⟨by simp [frameHead], by simp [frameHead], by simp⟩
  · intro read
    have whole := read.split
    rw [List.drop_zero] at whole
    rw [whole]
    simp [frameHeader, frameHead]

end Readers

section Values

mutual

/-- A property of a value and of everything nested in it. -/
def ExprValue.All (p : ExprValue F → Prop) : ExprValue F → Prop
  | .list items => p (.list items) ∧ AllItems p items
  | .object fields => p (.object fields) ∧ AllFields p fields
  | value => p value

def AllItems (p : ExprValue F → Prop) : List (ExprValue F) → Prop
  | [] => True
  | item :: items => item.All p ∧ AllItems p items

def AllFields (p : ExprValue F → Prop) : List (String × ExprValue F) → Prop
  | [] => True
  | (_, value) :: fields => value.All p ∧ AllFields p fields

end

mutual

/-- Levels of lists and objects below a value. -/
def ExprValue.nesting : ExprValue F → Nat
  | .list items => nestingItems items
  | .object fields => nestingFields fields
  | _ => 0

def nestingItems : List (ExprValue F) → Nat
  | [] => 0
  | item :: items => max (item.nesting + 1) (nestingItems items)

def nestingFields : List (String × ExprValue F) → Nat
  | [] => 0
  | (_, value) :: fields => max (value.nesting + 1) (nestingFields fields)

end

/-- An object binds each key once. -/
def KeysDistinct : ExprValue F → Prop
  | .object fields => (fields.map Prod.fst).Nodup
  | _ => True

def FiniteFloat : ExprValue F → Prop
  | .float value => Binary64.isFinite value = true
  | _ => True

/-- Every length the format stores fits its `u32`. -/
def LengthsFit : ExprValue F → Prop
  | .string value => (utf8 value).length < 2 ^ 32
  | .bytes value => value.length < 2 ^ 32
  | .list items => items.length < 2 ^ 32
  | .object fields => fields.length < 2 ^ 32 ∧
      ∀ field ∈ fields, (utf8 field.1).length < 2 ^ 32
  | _ => True

def ExprValue.tag : ExprValue F → UInt8
  | .null => 0
  | .string _ => 1
  | .bool _ => 2
  | .float _ => 3
  | .int _ => 4
  | .bytes _ => 5
  | .list _ => 6
  | .object _ => 7

/-- The payload behind the head; `depth` is the depth of nested values. -/
def encodeBody : ExprValue F → Nat → Option Bytes
  | .null, _ => some []
  | .string value, _ => (pushU32 (utf8 value).length).map (· ++ utf8 value)
  | .bool value, _ => some [if value then 1 else 0]
  | .float value, _ => if Binary64.isFinite value then some (Binary64.toLeBytes value) else none
  | .int value, _ => some (int64ToLe value)
  | .bytes value, _ => (pushU32 value.length).map (· ++ value)
  | .list items, depth =>
    (pushU32 items.length).bind fun count => (encodeItems items depth).map (count ++ ·)
  | .object fields, depth =>
    (pushU32 fields.length).bind fun count => (encodeFields fields depth).map (count ++ ·)

theorem encodeExprValue_eq (value : ExprValue F) (depth : Nat) :
    encodeExprValue value depth = if depth > axStateValueMaxDepth then none
      else (encodeBody value (depth + 1)).map (frameHead value.tag ++ ·) := by
  rw [encodeExprValue.eq_def]
  by_cases deep : depth > axStateValueMaxDepth
  · simp [deep]
  · cases value with
    | float value =>
      simp only [deep, ↓reduceIte, encodeBody, ExprValue.tag]
      split <;> simp
    | _ =>
      simp [deep, encodeBody, ExprValue.tag, Option.map_eq_bind, Option.bind_assoc, List.append_assoc]

theorem encodeExprValue_eq_some_iff {value : ExprValue F} {depth : Nat} {frame : Bytes} :
    encodeExprValue value depth = some frame ↔ depth ≤ axStateValueMaxDepth ∧
      ∃ body, encodeBody value (depth + 1) = some body ∧ frame = frameHead value.tag ++ body := by
  rw [encodeExprValue_eq]
  by_cases deep : depth > axStateValueMaxDepth
  · simp [deep]
  · simp [deep, Nat.le_of_not_lt deep, eq_comm]

omit [Binary64 F] in
@[simp] theorem allItems_append (p : ExprValue F → Prop) (xs ys : List (ExprValue F)) :
    AllItems p (xs ++ ys) ↔ AllItems p xs ∧ AllItems p ys := by
  induction xs with
  | nil => simp [AllItems]
  | cons x xs ih => simp [AllItems, ih, and_assoc]

end Values

section Loops

theorem frameHead_length (tag : UInt8) : (frameHead tag).length = 4 := rfl

theorem encodeExprValue_length {value : ExprValue F} {depth : Nat} {frame : Bytes}
    (encoded : encodeExprValue value depth = some frame) : 4 ≤ frame.length := by
  obtain ⟨_, body, _, rfl⟩ := encodeExprValue_eq_some_iff.mp encoded
  simp [frameHead_length]

theorem encodeItems_cons_iff {item : ExprValue F} {items : List (ExprValue F)} {depth : Nat}
    {body : Bytes} : encodeItems (item :: items) depth = some body ↔
      ∃ frame, encodeExprValue item depth = some frame ∧
        ∃ rest, encodeItems items depth = some rest ∧ frame ++ rest = body := by
  simp [encodeItems, Option.bind_eq_some_iff]

theorem encodeFields_cons_iff {key : String} {value : ExprValue F}
    {fields : List (String × ExprValue F)} {depth : Nat} {body : Bytes} :
    encodeFields ((key, value) :: fields) depth = some body ↔
      ∃ length, pushU32 (utf8 key).length = some length ∧
        ∃ frame, encodeExprValue value depth = some frame ∧
          ∃ rest, encodeFields fields depth = some rest ∧
            (length ++ utf8 key) ++ (frame ++ rest) = body := by
  simp only [encodeFields, Option.bind_eq_bind, Option.pure_def, Option.bind_eq_some_iff,
    Option.some.injEq, List.append_assoc]

theorem encodeItems_length {items : List (ExprValue F)} {depth : Nat} {body : Bytes}
    (encoded : encodeItems items depth = some body) : 4 * items.length ≤ body.length := by
  induction items generalizing body with
  | nil => simp
  | cons item items ih =>
    obtain ⟨frame, head, rest, tail, rfl⟩ := encodeItems_cons_iff.mp encoded
    have first := encodeExprValue_length head
    have others := ih tail
    simp only [List.length_cons, List.length_append]
    omega

theorem encodeFields_length {fields : List (String × ExprValue F)} {depth : Nat} {body : Bytes}
    (encoded : encodeFields fields depth = some body) : 8 * fields.length ≤ body.length := by
  induction fields generalizing body with
  | nil => simp
  | cons field fields ih =>
    obtain ⟨key, value⟩ := field
    obtain ⟨length, prefixed, frame, head, rest, tail, rfl⟩ := encodeFields_cons_iff.mp encoded
    obtain ⟨_, rfl⟩ := pushU32_eq_some_iff.mp prefixed
    have first := encodeExprValue_length head
    have others := ih tail
    simp only [List.length_cons, List.length_append, Wire.leBytes_length]
    omega

variable {depth : Nat} {decode : Bytes → Option (ExprValue F × Nat)} {validate : Bytes → Option Nat}

/-- A nested reader that accepts exactly the frames of values with distinct keys. -/
def DecodesFrames (decode : Bytes → Option (ExprValue F × Nat)) (depth : Nat) : Prop :=
  ∀ bytes value consumed, decode bytes = some (value, consumed) ↔
    ∃ frame, encodeExprValue value depth = some frame ∧ Reads bytes 0 frame consumed ∧
      value.All KeysDistinct

/-- A nested reader that accepts exactly the frames of all values. -/
def ValidatesFrames (F : Type) [Binary64 F] (validate : Bytes → Option Nat) (depth : Nat) : Prop :=
  ∀ bytes consumed, validate bytes = some consumed ↔
    ∃ (value : ExprValue F) (frame : Bytes), encodeExprValue value depth = some frame ∧
      Reads bytes 0 frame consumed

theorem decodeItems_iff (nested : DecodesFrames decode depth) {bytes : Bytes}
    {count cursor next : Nat} {items items' : List (ExprValue F)} (inside : cursor ≤ bytes.length) :
    decodeItems decode bytes count cursor items = some (items', next) ↔
      ∃ more body, items' = items ++ more ∧ more.length = count ∧
        encodeItems more depth = some body ∧ Reads bytes cursor body next ∧
        AllItems KeysDistinct more := by
  induction count generalizing cursor items with
  | zero =>
    simp only [decodeItems, Option.some.injEq, Prod.mk.injEq, List.length_eq_zero_iff]
    constructor
    · rintro ⟨rfl, rfl⟩
      exact ⟨[], [], by simp, rfl, rfl, ⟨by simp, by simp, inside⟩, trivial⟩
    · rintro ⟨_, body, rfl, rfl, encoded, read, _⟩
      cases encoded
      have next_eq := read.next_eq
      simp at next_eq
      exact ⟨by simp, next_eq.symm⟩
  | succ count ih =>
    simp only [decodeItems, Option.bind_eq_bind, Option.bind_eq_some_iff, Prod.exists]
    constructor
    · rintro ⟨item, consumed, decoded, rest⟩
      obtain ⟨frame, encoded, read, distinct⟩ := (nested _ _ _).mp decoded
      have here := (reads_drop_iff inside).mp read
      obtain ⟨more, body, rfl, rfl, encodedRest, readRest, distinctRest⟩ := (ih here.bound).mp rest
      exact ⟨item :: more, frame ++ body, by simp, by simp,
        encodeItems_cons_iff.mpr ⟨frame, encoded, body, encodedRest, rfl⟩,
        here.append readRest, distinct, distinctRest⟩
    · rintro ⟨more, body, rfl, width, encoded, read, distinct⟩
      cases more with
      | nil => simp at width
      | cons item more =>
        obtain ⟨frame, head, rest, tail, rfl⟩ := encodeItems_cons_iff.mp encoded
        obtain ⟨first, others⟩ := read.of_append
        refine ⟨item, frame.length, (nested _ _ _).mpr ⟨frame, head, ?_, distinct.1⟩, ?_⟩
        · exact (reads_drop_iff inside).mpr first
        · exact (ih first.bound).mpr ⟨more, rest, by simp, by simpa using width, tail, others, distinct.2⟩

theorem decodeFields_iff (nested : DecodesFrames decode depth) {bytes : Bytes}
    {count cursor next : Nat} {fields fields' : List (String × ExprValue F)}
    (inside : cursor ≤ bytes.length) (fresh : (fields.map Prod.fst).Nodup) :
    decodeFields decode bytes count cursor fields = some (fields', next) ↔
      ∃ more body, fields' = fields ++ more ∧ more.length = count ∧
        encodeFields more depth = some body ∧ Reads bytes cursor body next ∧
        ((fields ++ more).map Prod.fst).Nodup ∧ AllFields KeysDistinct more := by
  induction count generalizing cursor fields with
  | zero =>
    simp only [decodeFields, Option.some.injEq, Prod.mk.injEq, List.length_eq_zero_iff]
    constructor
    · rintro ⟨rfl, rfl⟩
      exact ⟨[], [], by simp, rfl, rfl, ⟨by simp, by simp, inside⟩, by simpa using fresh, trivial⟩
    · rintro ⟨_, body, rfl, rfl, encoded, read, _⟩
      cases encoded
      have next_eq := read.next_eq
      simp at next_eq
      exact ⟨by simp, next_eq.symm⟩
  | succ count ih =>
    have seen (key : String) : (fields.any fun field => field.1 == key) = true ↔
        key ∈ fields.map Prod.fst := by simp
    simp only [decodeFields, Option.bind_eq_bind, Option.bind_eq_some_iff, Prod.exists]
    constructor
    · rintro ⟨key, middle, keyRead, rest⟩
      split at rest
      · contradiction
      next unseen =>
        rw [seen] at unseen
        simp only [Option.bind_eq_some_iff, Prod.exists] at rest
        obtain ⟨value, consumed, decoded, rest⟩ := rest
        obtain ⟨length, prefixed, readKey⟩ := readString_eq_some_iff.mp keyRead
        obtain ⟨frame, encoded, read, distinct⟩ := (nested _ _ _).mp decoded
        have here := (reads_drop_iff readKey.bound).mp read
        have fresh' : ((fields ++ [(key, value)]).map Prod.fst).Nodup := by
          rw [List.map_append]
          exact List.nodup_append.mpr ⟨fresh, by simp, by
            intro a ha b hb same
            simp at hb
            exact unseen (hb ▸ same ▸ ha)⟩
        obtain ⟨more, body, rfl, rfl, encodedRest, readRest, keys, distinctRest⟩ :=
          (ih here.bound fresh').mp rest
        refine ⟨(key, value) :: more, _, by simp, by simp,
          encodeFields_cons_iff.mpr ⟨length, prefixed, frame, encoded, body, encodedRest, rfl⟩,
          readKey.append (here.append readRest), by simpa using keys, distinct, distinctRest⟩
    · rintro ⟨more, body, rfl, width, encoded, read, keys, distinct⟩
      cases more with
      | nil => simp at width
      | cons entry more =>
        obtain ⟨key, value⟩ := entry
        obtain ⟨length, prefixed, frame, head, rest, tail, rfl⟩ := encodeFields_cons_iff.mp encoded
        obtain ⟨readKey, afterKey⟩ := read.of_append
        obtain ⟨first, others⟩ := afterKey.of_append
        have unseen : key ∉ fields.map Prod.fst := by
          intro old
          rw [List.map_append, List.nodup_append] at keys
          exact keys.2.2 key old key (by simp) rfl
        refine ⟨key, _, readString_eq_some_iff.mpr ⟨length, prefixed, readKey⟩, ?_⟩
        rw [if_neg (by rwa [seen])]
        simp only [Option.bind_eq_some_iff, Prod.exists]
        refine ⟨value, frame.length, (nested _ _ _).mpr ⟨frame, head, ?_, distinct.1⟩, ?_⟩
        · exact (reads_drop_iff readKey.bound).mpr first
        · have keys' : ((fields ++ [(key, value)] ++ more).map Prod.fst).Nodup := by
            simpa using keys
          have fresh' : ((fields ++ [(key, value)]).map Prod.fst).Nodup := by
            rw [List.map_append] at keys'
            exact (List.nodup_append.mp keys').1
          exact (ih first.bound fresh').mpr
            ⟨more, rest, by simp, by simpa using width, tail, others, keys', distinct.2⟩

theorem validateItems_iff (nested : ValidatesFrames F validate depth) {bytes : Bytes}
    {count cursor next : Nat} (inside : cursor ≤ bytes.length) :
    validateItems validate bytes count cursor = some next ↔
      ∃ (items : List (ExprValue F)) (body : Bytes), items.length = count ∧
        encodeItems items depth = some body ∧ Reads bytes cursor body next := by
  induction count generalizing cursor with
  | zero =>
    simp only [validateItems, Option.some.injEq, List.length_eq_zero_iff]
    constructor
    · rintro rfl
      exact ⟨[], [], rfl, rfl, ⟨by simp, by simp, inside⟩⟩
    · rintro ⟨_, body, rfl, encoded, read⟩
      cases encoded
      have next_eq := read.next_eq
      simp at next_eq
      exact next_eq.symm
  | succ count ih =>
    simp only [validateItems, Option.bind_eq_bind, Option.bind_eq_some_iff]
    constructor
    · rintro ⟨consumed, accepted, rest⟩
      obtain ⟨item, frame, encoded, read⟩ := (nested _ _).mp accepted
      have here := (reads_drop_iff inside).mp read
      obtain ⟨items, body, rfl, encodedRest, readRest⟩ := (ih here.bound).mp rest
      exact ⟨item :: items, frame ++ body, by simp,
        encodeItems_cons_iff.mpr ⟨frame, encoded, body, encodedRest, rfl⟩, here.append readRest⟩
    · rintro ⟨items, body, width, encoded, read⟩
      cases items with
      | nil => simp at width
      | cons item items =>
        obtain ⟨frame, head, rest, tail, rfl⟩ := encodeItems_cons_iff.mp encoded
        obtain ⟨first, others⟩ := read.of_append
        refine ⟨frame.length, (nested _ _).mpr ⟨item, frame, head, ?_⟩, ?_⟩
        · exact (reads_drop_iff inside).mpr first
        · exact (ih first.bound).mpr ⟨items, rest, by simpa using width, tail, others⟩

theorem validateFields_iff (nested : ValidatesFrames F validate depth) {bytes : Bytes}
    {count cursor next : Nat} (inside : cursor ≤ bytes.length) :
    validateFields validate bytes count cursor = some next ↔
      ∃ (fields : List (String × ExprValue F)) (body : Bytes), fields.length = count ∧
        encodeFields fields depth = some body ∧ Reads bytes cursor body next := by
  induction count generalizing cursor with
  | zero =>
    simp only [validateFields, Option.some.injEq, List.length_eq_zero_iff]
    constructor
    · rintro rfl
      exact ⟨[], [], rfl, rfl, ⟨by simp, by simp, inside⟩⟩
    · rintro ⟨_, body, rfl, encoded, read⟩
      cases encoded
      have next_eq := read.next_eq
      simp at next_eq
      exact next_eq.symm
  | succ count ih =>
    simp only [validateFields, Option.bind_eq_bind, Option.bind_eq_some_iff, Prod.exists]
    constructor
    · rintro ⟨key, middle, keyRead, consumed, accepted, rest⟩
      obtain ⟨length, prefixed, readKey⟩ := readString_eq_some_iff.mp keyRead
      obtain ⟨value, frame, encoded, read⟩ := (nested _ _).mp accepted
      have here := (reads_drop_iff readKey.bound).mp read
      obtain ⟨fields, body, rfl, encodedRest, readRest⟩ := (ih here.bound).mp rest
      exact ⟨(key, value) :: fields, _, by simp,
        encodeFields_cons_iff.mpr ⟨length, prefixed, frame, encoded, body, encodedRest, rfl⟩,
        readKey.append (here.append readRest)⟩
    · rintro ⟨fields, body, width, encoded, read⟩
      cases fields with
      | nil => simp at width
      | cons entry fields =>
        obtain ⟨key, value⟩ := entry
        obtain ⟨length, prefixed, frame, head, rest, tail, rfl⟩ := encodeFields_cons_iff.mp encoded
        obtain ⟨readKey, afterKey⟩ := read.of_append
        obtain ⟨first, others⟩ := afterKey.of_append
        refine ⟨key, _, readString_eq_some_iff.mpr ⟨length, prefixed, readKey⟩,
          frame.length, (nested _ _).mpr ⟨value, frame, head, ?_⟩, ?_⟩
        · exact (reads_drop_iff readKey.bound).mpr first
        · exact (ih first.bound).mpr ⟨fields, rest, by simpa using width, tail, others⟩

end Loops

end Axonyx.StateWasm
