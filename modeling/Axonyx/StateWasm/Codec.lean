import Axonyx.StateWasm.Frame

/-! The decoder inverts the encoder on values with distinct keys and accepts nothing
else; the validator accepts the encoding of every value. Both follow by induction on
the levels left, from the loop equivalences. -/
namespace Axonyx.StateWasm

open Wire (Bytes utf8)

variable {F : Type} [Binary64 F] {depth : Nat}

section Payload

theorem takeBool_iff {bytes : Bytes} {value : Bool} {next : Nat} :
    (∃ raw flag, take bytes 4 1 = some (raw, next) ∧ raw.head? = some flag ∧
      ¬ flag > 1 ∧ (flag == 1) = value) ↔ Reads bytes 4 [if value then 1 else 0] next := by
  simp only [take_eq_some_iff]
  constructor
  · rintro ⟨raw, flag, ⟨width, read⟩, head, small, rfl⟩
    match raw, width, head with
    | [byte], _, head =>
      cases head
      have cases : flag = 0 ∨ flag = 1 := by
        simp only [gt_iff_lt, UInt8.lt_iff_toNat_lt, UInt8.toNat_one] at small
        have split : flag.toNat = 0 ∨ flag.toNat = 1 := by omega
        exact split.imp (fun h => UInt8.toNat_inj.mp h) (fun h => UInt8.toNat_inj.mp h)
      rcases cases with rfl | rfl <;> exact read
  · intro read
    exact ⟨_, _, ⟨rfl, read⟩, rfl, by cases value <;> decide, by cases value <;> decide⟩

theorem takeWord_iff {bytes raw : Bytes} {next : Nat} (width : raw.length = 8) :
    take bytes 4 8 = some (raw, next) ↔ Reads bytes 4 raw next := by
  simp [take_eq_some_iff, width]

theorem decodePayload_iff {decode : Bytes → Option (ExprValue F × Nat)}
    (nested : DecodesFrames decode depth) {bytes : Bytes} {value : ExprValue F} {next : Nat} :
    decodePayload decode bytes = some (value, next) ↔
      (bytes[3]? : Option UInt8) = some value.tag ∧ ∃ body, encodeBody value depth = some body ∧
        Reads bytes 4 body next ∧ value.All KeysDistinct := by
  constructor
  · intro decoded
    unfold decodePayload at decoded
    split at decoded
    next tag =>
      cases decoded
      obtain ⟨long, _⟩ := List.getElem?_eq_some_iff.mp tag
      exact ⟨tag, [], rfl, ⟨by simp, by simp, by omega⟩, trivial⟩
    next tag =>
      simp only [Option.bind_eq_bind, Option.pure_def, Option.bind_eq_some_iff, Option.some.injEq,
        Prod.exists, Prod.mk.injEq] at decoded
      obtain ⟨text, cursor, read, rfl, rfl⟩ := decoded
      obtain ⟨length, prefixed, read⟩ := readString_eq_some_iff.mp read
      exact ⟨tag, _, by simp only [encodeBody, prefixed, Option.map_some], read, trivial⟩
    next tag =>
      simp only [Option.bind_eq_bind, Option.bind_eq_some_iff, Prod.exists] at decoded
      obtain ⟨raw, cursor, taken, flag, head, decoded⟩ := decoded
      split at decoded
      · contradiction
      next small =>
        cases decoded
        exact ⟨tag, _, rfl, takeBool_iff.mp ⟨raw, flag, taken, head, small, rfl⟩, trivial⟩
    next tag =>
      simp only [Option.bind_eq_bind, Option.bind_eq_some_iff, Prod.exists] at decoded
      obtain ⟨raw, cursor, taken, decoded⟩ := decoded
      obtain ⟨width, read⟩ := take_eq_some_iff.mp taken
      split at decoded
      next finite =>
        cases decoded
        refine ⟨tag, raw, ?_, read, trivial⟩
        simp only [encodeBody, finite, ↓reduceIte, Binary64.toLeBytes_fromLeBytes width]
      · contradiction
    next tag =>
      simp only [Option.bind_eq_bind, Option.pure_def, Option.bind_eq_some_iff, Option.some.injEq,
        Prod.exists, Prod.mk.injEq] at decoded
      obtain ⟨raw, cursor, taken, rfl, rfl⟩ := decoded
      obtain ⟨width, read⟩ := take_eq_some_iff.mp taken
      exact ⟨tag, raw, by simp only [encodeBody, int64ToLe_fromLe width], read, trivial⟩
    next tag =>
      simp only [Option.bind_eq_bind, Option.pure_def, Option.bind_eq_some_iff, Option.some.injEq,
        Prod.exists, Prod.mk.injEq] at decoded
      obtain ⟨length, middle, counted, raw, cursor, taken, rfl, rfl⟩ := decoded
      obtain ⟨length, prefixed, read⟩ := readPrefixed_iff.mp ⟨_, _, counted, taken⟩
      exact ⟨tag, _, by simp only [encodeBody, prefixed, Option.map_some], read, trivial⟩
    next tag =>
      simp only [Option.bind_eq_bind, Option.bind_eq_some_iff, Prod.exists] at decoded
      obtain ⟨count, cursor, counted, decoded⟩ := decoded
      split at decoded
      · contradiction
      · simp only [Option.pure_def, Option.bind_eq_some_iff, Option.some.injEq, Prod.exists,
          Prod.mk.injEq] at decoded
        obtain ⟨items, after, looped, rfl, rfl⟩ := decoded
        obtain ⟨small, readCount⟩ := readU32_eq_some_iff.mp counted
        obtain ⟨more, body, rfl, rfl, encoded, read, distinct⟩ :=
          (decodeItems_iff nested readCount.bound).mp looped
        refine ⟨tag, _, ?_, readCount.append read, trivial, distinct⟩
        simp only [encodeBody, pushU32_eq_some_iff.mpr ⟨small, rfl⟩, encoded,
          Option.bind_some, Option.map_some]
    next tag =>
      simp only [Option.bind_eq_bind, Option.bind_eq_some_iff, Prod.exists] at decoded
      obtain ⟨count, cursor, counted, decoded⟩ := decoded
      split at decoded
      · contradiction
      · simp only [Option.pure_def, Option.bind_eq_some_iff, Option.some.injEq, Prod.exists,
          Prod.mk.injEq] at decoded
        obtain ⟨fields, after, looped, rfl, rfl⟩ := decoded
        obtain ⟨small, readCount⟩ := readU32_eq_some_iff.mp counted
        obtain ⟨more, body, rfl, rfl, encoded, read, keys, distinct⟩ :=
          (decodeFields_iff nested readCount.bound (by simp)).mp looped
        refine ⟨tag, _, ?_, readCount.append read, keys, distinct⟩
        simp only [encodeBody, pushU32_eq_some_iff.mpr ⟨small, rfl⟩, encoded,
          Option.bind_some, Option.map_some]
    next => contradiction
  · rintro ⟨tag, body, encoded, read, distinct⟩
    cases value with
    | null =>
      cases encoded
      have next_eq := read.next_eq
      simp only [List.length_nil] at next_eq
      simp [decodePayload, tag, ExprValue.tag, next_eq]
    | string text =>
      simp only [encodeBody, Option.map_eq_some_iff] at encoded
      obtain ⟨length, prefixed, rfl⟩ := encoded
      simp [decodePayload, tag, ExprValue.tag,
        readString_eq_some_iff.mpr ⟨length, prefixed, read⟩]
    | bool flag =>
      cases encoded
      obtain ⟨raw, byte, taken, head, small, same⟩ := takeBool_iff.mpr read
      simp [decodePayload, tag, ExprValue.tag, taken, head, small, same]
    | float f =>
      simp only [encodeBody] at encoded
      split at encoded
      next finite =>
        cases encoded
        simp [decodePayload, tag, ExprValue.tag,
          (takeWord_iff (Binary64.toLeBytes_length f)).mpr read, finite]
      · contradiction
    | int i =>
      cases encoded
      simp [decodePayload, tag, ExprValue.tag, (takeWord_iff (int64ToLe_length i)).mpr read]
    | bytes raw =>
      simp only [encodeBody, Option.map_eq_some_iff] at encoded
      obtain ⟨length, prefixed, rfl⟩ := encoded
      obtain ⟨_, middle, counted, taken⟩ := readPrefixed_iff.mpr ⟨length, prefixed, read⟩
      simp [decodePayload, tag, ExprValue.tag, counted, taken]
    | list items =>
      simp only [encodeBody, Option.bind_eq_some_iff, Option.map_eq_some_iff] at encoded
      obtain ⟨count, prefixed, body, encodedItems, rfl⟩ := encoded
      obtain ⟨small, rfl⟩ := pushU32_eq_some_iff.mp prefixed
      obtain ⟨middle, readCount, readBody⟩ := reads_append_iff.mp read
      have counted := readU32_eq_some_iff.mpr ⟨small, readCount⟩
      have looped := (decodeItems_iff nested readCount.bound).mpr
        ⟨items, body, (List.nil_append items).symm, rfl, encodedItems, readBody, distinct.2⟩
      have enough : ¬ items.length > (bytes.length - middle) / 4 := by
        have long := encodeItems_length encodedItems
        have next_eq := readBody.next_eq
        have bound := readBody.bound
        omega
      simp [decodePayload, tag, ExprValue.tag, counted, if_neg enough, looped]
    | object fields =>
      simp only [encodeBody, Option.bind_eq_some_iff, Option.map_eq_some_iff] at encoded
      obtain ⟨count, prefixed, body, encodedFields, rfl⟩ := encoded
      obtain ⟨small, rfl⟩ := pushU32_eq_some_iff.mp prefixed
      obtain ⟨middle, readCount, readBody⟩ := reads_append_iff.mp read
      have counted := readU32_eq_some_iff.mpr ⟨small, readCount⟩
      have looped := (decodeFields_iff nested readCount.bound (by simp)).mpr
        ⟨fields, body, (List.nil_append fields).symm, rfl, encodedFields, readBody, distinct⟩
      have enough : ¬ fields.length > (bytes.length - middle) / 8 := by
        have long := encodeFields_length encodedFields
        have next_eq := readBody.next_eq
        have bound := readBody.bound
        omega
      simp [decodePayload, tag, ExprValue.tag, counted, if_neg enough, looped]

theorem validatePayload_iff {validate : Bytes → Option Nat}
    (nested : ValidatesFrames F validate depth) {bytes : Bytes} {next : Nat} :
    validatePayload F validate bytes = some next ↔
      ∃ (value : ExprValue F) (body : Bytes), (bytes[3]? : Option UInt8) = some value.tag ∧
        encodeBody value depth = some body ∧ Reads bytes 4 body next := by
  constructor
  · intro accepted
    unfold validatePayload at accepted
    split at accepted
    next tag =>
      cases accepted
      obtain ⟨long, _⟩ := List.getElem?_eq_some_iff.mp tag
      exact ⟨.null, [], tag, rfl, by simp, by simp, by omega⟩
    next tag =>
      simp only [Option.bind_eq_bind, Option.pure_def, Option.bind_eq_some_iff, Option.some.injEq,
        Prod.exists] at accepted
      obtain ⟨text, cursor, read, rfl⟩ := accepted
      obtain ⟨length, prefixed, read⟩ := readString_eq_some_iff.mp read
      exact ⟨.string text, _, tag, by simp only [encodeBody, prefixed, Option.map_some], read⟩
    next tag =>
      simp only [Option.bind_eq_bind, Option.bind_eq_some_iff, Prod.exists] at accepted
      obtain ⟨raw, cursor, taken, flag, head, accepted⟩ := accepted
      split at accepted
      · contradiction
      next small =>
        cases accepted
        exact ⟨.bool (flag == 1), _, tag, rfl, takeBool_iff.mp ⟨raw, flag, taken, head, small, rfl⟩⟩
    next tag =>
      simp only [Option.bind_eq_bind, Option.bind_eq_some_iff, Prod.exists] at accepted
      obtain ⟨raw, cursor, taken, accepted⟩ := accepted
      obtain ⟨width, read⟩ := take_eq_some_iff.mp taken
      split at accepted
      next finite =>
        cases accepted
        refine ⟨.float (Binary64.fromLeBytes raw), raw, tag, ?_, read⟩
        simp only [encodeBody, finite, ↓reduceIte, Binary64.toLeBytes_fromLeBytes width]
      · contradiction
    next tag =>
      simp only [Option.bind_eq_bind, Option.pure_def, Option.bind_eq_some_iff, Option.some.injEq,
        Prod.exists] at accepted
      obtain ⟨raw, cursor, taken, rfl⟩ := accepted
      obtain ⟨width, read⟩ := take_eq_some_iff.mp taken
      exact ⟨.int (int64FromLe raw), raw, tag, by simp only [encodeBody, int64ToLe_fromLe width], read⟩
    next tag =>
      simp only [Option.bind_eq_bind, Option.pure_def, Option.bind_eq_some_iff, Option.some.injEq,
        Prod.exists] at accepted
      obtain ⟨length, middle, counted, raw, cursor, taken, rfl⟩ := accepted
      obtain ⟨length, prefixed, read⟩ := readPrefixed_iff.mp ⟨_, _, counted, taken⟩
      exact ⟨.bytes raw, _, tag, by simp only [encodeBody, prefixed, Option.map_some], read⟩
    next tag =>
      simp only [Option.bind_eq_bind, Option.bind_eq_some_iff, Prod.exists] at accepted
      obtain ⟨count, cursor, counted, looped⟩ := accepted
      obtain ⟨small, readCount⟩ := readU32_eq_some_iff.mp counted
      obtain ⟨items, body, rfl, encoded, read⟩ := (validateItems_iff nested readCount.bound).mp looped
      refine ⟨.list items, _, tag, ?_, readCount.append read⟩
      simp only [encodeBody, pushU32_eq_some_iff.mpr ⟨small, rfl⟩, encoded, Option.bind_some,
        Option.map_some]
    next tag =>
      simp only [Option.bind_eq_bind, Option.bind_eq_some_iff, Prod.exists] at accepted
      obtain ⟨count, cursor, counted, looped⟩ := accepted
      obtain ⟨small, readCount⟩ := readU32_eq_some_iff.mp counted
      obtain ⟨fields, body, rfl, encoded, read⟩ :=
        (validateFields_iff nested readCount.bound).mp looped
      refine ⟨.object fields, _, tag, ?_, readCount.append read⟩
      simp only [encodeBody, pushU32_eq_some_iff.mpr ⟨small, rfl⟩, encoded, Option.bind_some,
        Option.map_some]
    next => contradiction
  · rintro ⟨value, body, tag, encoded, read⟩
    cases value with
    | null =>
      cases encoded
      have next_eq := read.next_eq
      simp only [List.length_nil] at next_eq
      simp [validatePayload, tag, ExprValue.tag, next_eq]
    | string text =>
      simp only [encodeBody, Option.map_eq_some_iff] at encoded
      obtain ⟨length, prefixed, rfl⟩ := encoded
      simp [validatePayload, tag, ExprValue.tag,
        readString_eq_some_iff.mpr ⟨length, prefixed, read⟩]
    | bool flag =>
      cases encoded
      obtain ⟨raw, byte, taken, head, small, same⟩ := takeBool_iff.mpr read
      simp [validatePayload, tag, ExprValue.tag, taken, head, small]
    | float f =>
      simp only [encodeBody] at encoded
      split at encoded
      next finite =>
        cases encoded
        simp [validatePayload, tag, ExprValue.tag,
          (takeWord_iff (Binary64.toLeBytes_length f)).mpr read, finite]
      · contradiction
    | int i =>
      cases encoded
      simp [validatePayload, tag, ExprValue.tag, (takeWord_iff (int64ToLe_length i)).mpr read]
    | bytes raw =>
      simp only [encodeBody, Option.map_eq_some_iff] at encoded
      obtain ⟨length, prefixed, rfl⟩ := encoded
      obtain ⟨_, middle, counted, taken⟩ := readPrefixed_iff.mpr ⟨length, prefixed, read⟩
      simp [validatePayload, tag, ExprValue.tag, counted, taken]
    | list items =>
      simp only [encodeBody, Option.bind_eq_some_iff, Option.map_eq_some_iff] at encoded
      obtain ⟨count, prefixed, body, encodedItems, rfl⟩ := encoded
      obtain ⟨small, rfl⟩ := pushU32_eq_some_iff.mp prefixed
      obtain ⟨middle, readCount, readBody⟩ := reads_append_iff.mp read
      have counted := readU32_eq_some_iff.mpr ⟨small, readCount⟩
      have looped := (validateItems_iff nested readCount.bound).mpr
        ⟨items, body, rfl, encodedItems, readBody⟩
      simp [validatePayload, tag, ExprValue.tag, counted, looped]
    | object fields =>
      simp only [encodeBody, Option.bind_eq_some_iff, Option.map_eq_some_iff] at encoded
      obtain ⟨count, prefixed, body, encodedFields, rfl⟩ := encoded
      obtain ⟨small, rfl⟩ := pushU32_eq_some_iff.mp prefixed
      obtain ⟨middle, readCount, readBody⟩ := reads_append_iff.mp read
      have counted := readU32_eq_some_iff.mpr ⟨small, readCount⟩
      have looped := (validateFields_iff nested readCount.bound).mpr
        ⟨fields, body, rfl, encodedFields, readBody⟩
      simp [validatePayload, tag, ExprValue.tag, counted, looped]

end Payload

section Levels

/-- A frame is its head followed by the payload. -/
theorem encode_reads_iff {value : ExprValue F} {bytes : Bytes} {next : Nat}
    (shallow : depth ≤ axStateValueMaxDepth) :
    (∃ frame, encodeExprValue value depth = some frame ∧ Reads bytes 0 frame next) ↔
      frameHeader bytes = true ∧ (bytes[3]? : Option UInt8) = some value.tag ∧
        ∃ body, encodeBody value (depth + 1) = some body ∧ Reads bytes 4 body next := by
  rw [← and_assoc, frameHeader_tag_iff]
  simp only [encodeExprValue_eq_some_iff, shallow, true_and]
  constructor
  · rintro ⟨_, ⟨body, encoded, rfl⟩, read⟩
    obtain ⟨head, rest⟩ := read.of_append
    rw [frameHead_length, Nat.zero_add] at head rest
    exact ⟨head, body, encoded, rest⟩
  · rintro ⟨head, body, encoded, rest⟩
    exact ⟨_, ⟨body, encoded, rfl⟩, head.append rest⟩

/-- Past the depth limit neither the reader nor the writer has a frame. -/
theorem encodeExprValue_deep (value : ExprValue F) (deep : axStateValueMaxDepth < depth) :
    encodeExprValue value depth = none := by
  rw [encodeExprValue_eq, if_pos deep]

theorem decodeLevels_frames (levels depth : Nat) (sum : levels + depth = axStateValueMaxDepth + 1) :
    DecodesFrames (decodeLevels levels : Bytes → Option (ExprValue F × Nat)) depth := by
  intro bytes value consumed
  induction levels generalizing depth bytes value consumed with
  | zero => simp [decodeLevels, encodeExprValue_deep value (show axStateValueMaxDepth < depth by omega)]
  | succ levels ih =>
    have nested : DecodesFrames (decodeLevels levels : Bytes → Option (ExprValue F × Nat))
        (depth + 1) := fun bytes value consumed => ih (depth + 1) (by omega) bytes value consumed
    have shallow : depth ≤ axStateValueMaxDepth := by omega
    have whole : (∃ frame, encodeExprValue value depth = some frame ∧ Reads bytes 0 frame consumed) ↔ _ :=
      encode_reads_iff shallow
    rw [decodeLevels]
    constructor
    · intro decoded
      split at decoded
      next header =>
        obtain ⟨tag, body, encoded, read, distinct⟩ := (decodePayload_iff nested).mp decoded
        obtain ⟨frame, encoded, read⟩ := whole.mpr ⟨header, tag, body, encoded, read⟩
        exact ⟨frame, encoded, read, distinct⟩
      · contradiction
    · rintro ⟨frame, encoded, read, distinct⟩
      obtain ⟨header, tag, body, encoded, read⟩ := whole.mp ⟨frame, encoded, read⟩
      rw [if_pos header]
      exact (decodePayload_iff nested).mpr ⟨tag, body, encoded, read, distinct⟩

theorem validateLevels_frames (levels depth : Nat)
    (sum : levels + depth = axStateValueMaxDepth + 1) :
    ValidatesFrames F (validateLevels F levels) depth := by
  intro bytes consumed
  induction levels generalizing depth bytes consumed with
  | zero =>
    have deep : axStateValueMaxDepth < depth := by omega
    simp [validateLevels, encodeExprValue_deep _ deep]
  | succ levels ih =>
    have nested : ValidatesFrames F (validateLevels F levels) (depth + 1) :=
      fun bytes consumed => ih (depth + 1) (by omega) bytes consumed
    have shallow : depth ≤ axStateValueMaxDepth := by omega
    rw [validateLevels]
    constructor
    · intro accepted
      split at accepted
      next header =>
        obtain ⟨value, body, tag, encoded, read⟩ := (validatePayload_iff nested).mp accepted
        exact ⟨value, (encode_reads_iff shallow).mpr ⟨header, tag, body, encoded, read⟩⟩
      · contradiction
    · rintro ⟨value, frame, encoded, read⟩
      obtain ⟨header, tag, body, encoded, read⟩ :=
        (encode_reads_iff shallow).mp ⟨frame, encoded, read⟩
      rw [if_pos header]
      exact (validatePayload_iff nested).mpr ⟨value, body, tag, encoded, read⟩

end Levels

section Language

/-- Start depths past the limit have no frames at all, on either side. -/
theorem decodeExprValue_iff (depth : Nat) {bytes : Bytes} {value : ExprValue F} {consumed : Nat} :
    decodeExprValue bytes depth = some (value, consumed) ↔
      ∃ frame, encodeExprValue value depth = some frame ∧ Reads bytes 0 frame consumed ∧
        value.All KeysDistinct := by
  by_cases deep : depth ≤ axStateValueMaxDepth + 1
  · exact decodeLevels_frames _ depth (by omega) bytes value consumed
  · have none : axStateValueMaxDepth + 1 - depth = 0 := by omega
    simp [decodeExprValue, none, decodeLevels,
      encodeExprValue_deep value (show axStateValueMaxDepth < depth by omega)]

theorem validateValueFrame_iff (depth : Nat) {bytes : Bytes} {consumed : Nat} :
    validateValueFrame F bytes depth = some consumed ↔
      ∃ (value : ExprValue F) (frame : Bytes), encodeExprValue value depth = some frame ∧
        Reads bytes 0 frame consumed := by
  by_cases deep : depth ≤ axStateValueMaxDepth + 1
  · exact validateLevels_frames _ depth (by omega) bytes consumed
  · have none : axStateValueMaxDepth + 1 - depth = 0 := by omega
    have beyond : axStateValueMaxDepth < depth := by omega
    simp [validateValueFrame, none, validateLevels, encodeExprValue_deep _ beyond]

theorem reads_iff_starts {bytes frame : Bytes} {consumed : Nat} :
    Reads bytes 0 frame consumed ↔ frame <+: bytes ∧ consumed = frame.length := by
  constructor
  · intro read
    have split := read.split
    rw [List.drop_zero] at split
    exact ⟨⟨_, split.symm⟩, by simpa using read.next_eq⟩
  · rintro ⟨⟨after, rfl⟩, rfl⟩
    exact reads_prefix frame after

theorem pushU32_of_lt {value : Nat} (small : value < 2 ^ 32) :
    pushU32 value = some (Wire.leBytes 4 value) := pushU32_eq_some_iff.mpr ⟨small, rfl⟩

mutual

/-- Only a deep value, a non-finite float or an oversized length stops the encoder. -/
theorem encodeExprValue_total (value : ExprValue F) (depth : Nat)
    (finite : value.All FiniteFloat) (fits : value.All LengthsFit)
    (shallow : depth + value.nesting ≤ axStateValueMaxDepth) :
    ∃ frame, encodeExprValue value depth = some frame := by
  have here : ¬ depth > axStateValueMaxDepth := by omega
  rw [encodeExprValue_eq, if_neg here]
  match value, finite, fits, shallow with
  | .null, _, _, _ => exact ⟨_, rfl⟩
  | .bool _, _, _, _ => exact ⟨_, rfl⟩
  | .int _, _, _, _ => exact ⟨_, rfl⟩
  | .string text, _, fits, _ =>
    simp only [ExprValue.All, LengthsFit] at fits
    exact ⟨_, by simp only [encodeBody, pushU32_of_lt fits, Option.map_some]; rfl⟩
  | .bytes raw, _, fits, _ =>
    simp only [ExprValue.All, LengthsFit] at fits
    exact ⟨_, by simp only [encodeBody, pushU32_of_lt fits, Option.map_some]; rfl⟩
  | .float f, finite, _, _ =>
    simp only [ExprValue.All, FiniteFloat] at finite
    exact ⟨_, by simp only [encodeBody, finite, ↓reduceIte, Option.map_some]; rfl⟩
  | .list items, finite, fits, shallow =>
    simp only [ExprValue.All, ExprValue.nesting] at finite fits shallow
    obtain ⟨body, encoded⟩ := encodeItems_total items (depth + 1) finite.2 fits.2 (by omega)
    exact ⟨_, by
      simp only [encodeBody, pushU32_of_lt fits.1, encoded, Option.bind_some, Option.map_some]
      rfl⟩
  | .object fields, finite, fits, shallow =>
    simp only [ExprValue.All, ExprValue.nesting] at finite fits shallow
    obtain ⟨body, encoded⟩ :=
      encodeFields_total fields (depth + 1) finite.2 fits.2 fits.1.2 (by omega)
    exact ⟨_, by
      simp only [encodeBody, pushU32_of_lt fits.1.1, encoded, Option.bind_some, Option.map_some]
      rfl⟩

theorem encodeItems_total (items : List (ExprValue F)) (depth : Nat)
    (finite : AllItems FiniteFloat items) (fits : AllItems LengthsFit items)
    (shallow : depth + nestingItems items ≤ axStateValueMaxDepth + 1) :
    ∃ body, encodeItems items depth = some body := by
  match items, finite, fits, shallow with
  | [], _, _, _ => exact ⟨_, rfl⟩
  | item :: items, finite, fits, shallow =>
    simp only [nestingItems] at shallow
    obtain ⟨frame, head⟩ := encodeExprValue_total item depth finite.1 fits.1 (by omega)
    obtain ⟨rest, tail⟩ := encodeItems_total items depth finite.2 fits.2 (by omega)
    exact ⟨_, encodeItems_cons_iff.mpr ⟨frame, head, rest, tail, rfl⟩⟩

theorem encodeFields_total (fields : List (String × ExprValue F)) (depth : Nat)
    (finite : AllFields FiniteFloat fields) (fits : AllFields LengthsFit fields)
    (keys : ∀ field ∈ fields, (utf8 field.1).length < 2 ^ 32)
    (shallow : depth + nestingFields fields ≤ axStateValueMaxDepth + 1) :
    ∃ body, encodeFields fields depth = some body := by
  match fields, finite, fits, keys, shallow with
  | [], _, _, _, _ => exact ⟨_, rfl⟩
  | (key, value) :: fields, finite, fits, keys, shallow =>
    simp only [nestingFields] at shallow
    obtain ⟨frame, head⟩ := encodeExprValue_total value depth finite.1 fits.1 (by omega)
    obtain ⟨rest, tail⟩ := encodeFields_total fields depth finite.2 fits.2
      (fun field member => keys field (List.mem_cons_of_mem _ member)) (by omega)
    exact ⟨_, encodeFields_cons_iff.mpr
      ⟨_, pushU32_of_lt (keys (key, value) List.mem_cons_self), frame, head, rest, tail, rfl⟩⟩

end

theorem decode_encode {value : ExprValue F} {frame : Bytes} (distinct : value.All KeysDistinct)
    (encoded : encodeExprValue value depth = some frame) (after : Bytes) :
    decodeExprValue (frame ++ after) depth = some (value, frame.length) :=
  (decodeExprValue_iff depth).mpr ⟨frame, encoded, reads_prefix frame after, distinct⟩

theorem encode_of_decode {bytes : Bytes} {value : ExprValue F} {consumed : Nat}
    (decoded : decodeExprValue bytes depth = some (value, consumed)) :
    consumed ≤ bytes.length ∧ encodeExprValue value depth = some (bytes.take consumed) ∧
      value.All KeysDistinct := by
  obtain ⟨frame, encoded, read, distinct⟩ := (decodeExprValue_iff depth).mp decoded
  exact ⟨read.bound, by rw [encoded, read.prefix_eq], distinct⟩

/-- The two directions of the codec: bounded values survive the trip whatever follows
them, and an accepted frame is the only encoding of what it decodes to. -/
theorem value_frame_bijection :
    (∀ (value : ExprValue F) (after : Bytes), value.All FiniteFloat → value.All KeysDistinct →
      value.All LengthsFit → value.nesting ≤ axStateValueMaxDepth →
      ∃ frame, encodeExprValue value 0 = some frame ∧
        decodeExprValue (frame ++ after) 0 = some (value, frame.length)) ∧
    (∀ (bytes : Bytes) (value : ExprValue F) (consumed : Nat),
      decodeExprValue bytes 0 = some (value, consumed) →
        consumed ≤ bytes.length ∧ encodeExprValue value 0 = some (bytes.take consumed)) := by
  constructor
  · intro value after finite distinct fits shallow
    obtain ⟨frame, encoded⟩ := encodeExprValue_total value 0 finite fits (by omega)
    exact ⟨frame, encoded, decode_encode distinct encoded after⟩
  · intro bytes value consumed decoded
    exact ⟨(encode_of_decode decoded).1, (encode_of_decode decoded).2.1⟩

/-- `{"k": [null]}` followed by one stray byte. -/
theorem value_frame_bijection_object :
    ∃ frame, encodeExprValue (.object [("k", .list [.null])] : ExprValue F64) 0 = some frame ∧
      decodeExprValue (frame ++ [7]) 0 =
        some ((.object [("k", .list [.null])] : ExprValue F64), frame.length) ∧
      encodeExprValue (.object [("k", .list [.null])] : ExprValue F64) 0 =
        some ((frame ++ [7]).take frame.length) := by
  obtain ⟨frame, encoded, decoded⟩ := value_frame_bijection.1
    (.object [("k", .list [.null])] : ExprValue F64) [7]
    (by simp [ExprValue.All, AllFields, AllItems, FiniteFloat])
    (by simp [ExprValue.All, AllFields, AllItems, KeysDistinct])
    (by
      simp only [ExprValue.All, AllFields, AllItems, LengthsFit, List.length_cons, List.length_nil,
        List.mem_singleton, forall_eq]
      decide)
    (by decide)
  exact ⟨frame, encoded, decoded, (value_frame_bijection.2 _ _ _ decoded).2⟩

end Language

end Axonyx.StateWasm
