import Axonyx.StateWasm.Codec

/-! Where the validator and the decoder part: the validator keeps no earlier keys. The
encoding is a prefix code, so which value a byte string starts with is a question about
the bytes alone. -/
namespace Axonyx.StateWasm

open Wire (Bytes utf8)

variable {F : Type} [Binary64 F] {depth : Nat}

section PrefixCode

theorem prefixed_injective {a b c d after after' : Bytes} (left : pushU32 a.length = some c)
    (right : pushU32 b.length = some d) (same : c ++ a ++ after = d ++ b ++ after') :
    a = b ∧ after = after' := by
  obtain ⟨smallA, rfl⟩ := pushU32_eq_some_iff.mp left
  obtain ⟨smallB, rfl⟩ := pushU32_eq_some_iff.mp right
  simp only [List.append_assoc] at same
  obtain ⟨counts, rest⟩ := List.append_inj same (by simp)
  exact List.append_inj rest (Wire.leBytes_injective smallA smallB counts)

theorem counted_injective {m n : Nat} {c d after after' : Bytes} (left : pushU32 m = some c)
    (right : pushU32 n = some d) (same : c ++ after = d ++ after') : m = n ∧ after = after' := by
  obtain ⟨smallM, rfl⟩ := pushU32_eq_some_iff.mp left
  obtain ⟨smallN, rfl⟩ := pushU32_eq_some_iff.mp right
  obtain ⟨counts, rest⟩ := List.append_inj same (by simp)
  exact ⟨Wire.leBytes_injective smallM smallN counts, rest⟩

theorem toLeBytes_injective {f g : F} (same : Binary64.toLeBytes f = Binary64.toLeBytes g) :
    f = g := by
  rw [← Binary64.fromLeBytes_toLeBytes f, same, Binary64.fromLeBytes_toLeBytes]

theorem int64ToLe_injective {i j : Int64} (same : int64ToLe i = int64ToLe j) : i = j := by
  rw [← int64FromLe_toLe i, same, int64FromLe_toLe]

mutual

/-- No frame continues another one: equal bytes begin with the frame of one value. -/
theorem encodeExprValue_prefix (value value' : ExprValue F) (depth : Nat)
    {frame frame' after after' : Bytes} (left : encodeExprValue value depth = some frame)
    (right : encodeExprValue value' depth = some frame')
    (same : frame ++ after = frame' ++ after') : value = value' ∧ after = after' := by
  obtain ⟨_, body, encoded, rfl⟩ := encodeExprValue_eq_some_iff.mp left
  obtain ⟨_, body', encoded', rfl⟩ := encodeExprValue_eq_some_iff.mp right
  simp only [List.append_assoc] at same
  obtain ⟨heads, rest⟩ := List.append_inj same (by simp [frameHead_length])
  have tags : value.tag = value'.tag := by simpa [frameHead] using heads
  match value, value', tags with
  | .null, .null, _ =>
    cases encoded; cases encoded'
    exact ⟨rfl, rest⟩
  | .string text, .string text', _ =>
    simp only [encodeBody, Option.map_eq_some_iff] at encoded encoded'
    obtain ⟨c, count, rfl⟩ := encoded
    obtain ⟨d, count', rfl⟩ := encoded'
    obtain ⟨texts, rest⟩ := prefixed_injective count count' rest
    exact ⟨congrArg _ (Wire.utf8_injective texts), rest⟩
  | .bool flag, .bool flag', _ =>
    cases encoded; cases encoded'
    obtain ⟨flags, rest⟩ := List.append_inj rest rfl
    refine ⟨?_, rest⟩
    cases flag <;> cases flag' <;> simp_all
  | .float f, .float g, _ =>
    simp only [encodeBody, Option.ite_none_right_eq_some, Option.some.injEq] at encoded encoded'
    obtain ⟨_, rfl⟩ := encoded
    obtain ⟨_, rfl⟩ := encoded'
    obtain ⟨patterns, rest⟩ := List.append_inj rest (by simp)
    exact ⟨congrArg _ (toLeBytes_injective patterns), rest⟩
  | .int i, .int j, _ =>
    cases encoded; cases encoded'
    obtain ⟨patterns, rest⟩ := List.append_inj rest (by simp)
    exact ⟨congrArg _ (int64ToLe_injective patterns), rest⟩
  | .bytes raw, .bytes raw', _ =>
    simp only [encodeBody, Option.map_eq_some_iff] at encoded encoded'
    obtain ⟨c, count, rfl⟩ := encoded
    obtain ⟨d, count', rfl⟩ := encoded'
    obtain ⟨raws, rest⟩ := prefixed_injective count count' rest
    exact ⟨congrArg _ raws, rest⟩
  | .list items, .list items', _ =>
    simp only [encodeBody, Option.bind_eq_some_iff, Option.map_eq_some_iff] at encoded encoded'
    obtain ⟨c, count, body, encoded, rfl⟩ := encoded
    obtain ⟨d, count', body', encoded', rfl⟩ := encoded'
    simp only [List.append_assoc] at rest
    obtain ⟨counts, rest⟩ := counted_injective count count' rest
    obtain ⟨same, rest⟩ := encodeItems_prefix items items' (depth + 1) counts encoded encoded' rest
    exact ⟨congrArg _ same, rest⟩
  | .object fields, .object fields', _ =>
    simp only [encodeBody, Option.bind_eq_some_iff, Option.map_eq_some_iff] at encoded encoded'
    obtain ⟨c, count, body, encoded, rfl⟩ := encoded
    obtain ⟨d, count', body', encoded', rfl⟩ := encoded'
    simp only [List.append_assoc] at rest
    obtain ⟨counts, rest⟩ := counted_injective count count' rest
    obtain ⟨same, rest⟩ := encodeFields_prefix fields fields' (depth + 1) counts encoded encoded' rest
    exact ⟨congrArg _ same, rest⟩

theorem encodeItems_prefix (items items' : List (ExprValue F)) (depth : Nat)
    (width : items.length = items'.length) {body body' after after' : Bytes}
    (left : encodeItems items depth = some body) (right : encodeItems items' depth = some body')
    (same : body ++ after = body' ++ after') : items = items' ∧ after = after' := by
  match items, items', width with
  | [], [], _ =>
    cases left; cases right
    exact ⟨rfl, same⟩
  | item :: items, item' :: items', width =>
    obtain ⟨frame, head, rest, tail, rfl⟩ := encodeItems_cons_iff.mp left
    obtain ⟨frame', head', rest', tail', rfl⟩ := encodeItems_cons_iff.mp right
    simp only [List.append_assoc] at same
    obtain ⟨rfl, same⟩ := encodeExprValue_prefix item item' depth head head' same
    obtain ⟨rfl, same⟩ := encodeItems_prefix items items' depth (by simpa using width) tail tail' same
    exact ⟨rfl, same⟩

theorem encodeFields_prefix (fields fields' : List (String × ExprValue F)) (depth : Nat)
    (width : fields.length = fields'.length) {body body' after after' : Bytes}
    (left : encodeFields fields depth = some body) (right : encodeFields fields' depth = some body')
    (same : body ++ after = body' ++ after') : fields = fields' ∧ after = after' := by
  match fields, fields', width with
  | [], [], _ =>
    cases left; cases right
    exact ⟨rfl, same⟩
  | (key, value) :: fields, (key', value') :: fields', width =>
    obtain ⟨c, count, frame, head, rest, tail, rfl⟩ := encodeFields_cons_iff.mp left
    obtain ⟨d, count', frame', head', rest', tail', rfl⟩ := encodeFields_cons_iff.mp right
    have split : c ++ utf8 key ++ (frame ++ (rest ++ after)) =
        d ++ utf8 key' ++ (frame' ++ (rest' ++ after')) := by simpa using same
    obtain ⟨keys, same⟩ := prefixed_injective count count' split
    obtain ⟨rfl, same⟩ := encodeExprValue_prefix value value' depth head head' same
    obtain ⟨rfl, same⟩ := encodeFields_prefix fields fields' depth (by simpa using width) tail tail' same
    exact ⟨by rw [Wire.utf8_injective keys], same⟩

end

end PrefixCode

/-- Whatever value the bytes start with, its objects bind each key once. -/
def StartsDistinct (F : Type) [Binary64 F] (bytes : Bytes) (depth : Nat) : Prop :=
  ∀ (value : ExprValue F) (frame : Bytes), encodeExprValue value depth = some frame →
    frame <+: bytes → value.All KeysDistinct

/-- The decoder never accepts more than the validator. -/
theorem validate_of_decode {bytes : Bytes} {value : ExprValue F} {consumed : Nat}
    (decoded : decodeExprValue bytes depth = some (value, consumed)) :
    validateValueFrame F bytes depth = some consumed := by
  obtain ⟨frame, encoded, read, _⟩ := (decodeExprValue_iff depth).mp decoded
  exact (validateValueFrame_iff depth).mpr ⟨value, frame, encoded, read⟩

/-- The two readers accept the same prefix exactly when the bytes do not start with a
value that repeats a key in one of its objects. -/
theorem validate_agrees_iff (bytes : Bytes) (depth : Nat) :
    (∀ consumed, validateValueFrame F bytes depth = some consumed ↔
      ∃ value : ExprValue F, decodeExprValue bytes depth = some (value, consumed)) ↔
    StartsDistinct F bytes depth := by
  constructor
  · intro agree value frame encoded starts
    have read := reads_iff_starts.mpr ⟨starts, rfl⟩
    obtain ⟨other, decoded⟩ :=
      (agree _).mp ((validateValueFrame_iff depth).mpr ⟨value, frame, encoded, read⟩)
    obtain ⟨frame', encoded', read', distinct⟩ := (decodeExprValue_iff depth).mp decoded
    have frames : frame' = frame := read'.prefix_eq.trans read.prefix_eq.symm
    subst frames
    obtain ⟨rfl, _⟩ := encodeExprValue_prefix value other depth encoded encoded'
      (rfl : frame' ++ [] = frame' ++ [])
    exact distinct
  · intro distinct consumed
    constructor
    · intro accepted
      obtain ⟨value, frame, encoded, read⟩ := (validateValueFrame_iff depth).mp accepted
      refine ⟨value, (decodeExprValue_iff depth).mpr ⟨frame, encoded, read, ?_⟩⟩
      exact distinct value frame encoded (reads_iff_starts.mp read).1
    · rintro ⟨value, decoded⟩
      exact validate_of_decode decoded

/-- `{"a": null, "a": null}` is stored by `ax_state_apply_value` and refused by the decoder. -/
def repeatedKeyFrame : Bytes :=
  [65, 88, 1, 7, 2, 0, 0, 0, 1, 0, 0, 0, 97, 65, 88, 1, 0, 1, 0, 0, 0, 97, 65, 88, 1, 0]

theorem validate_accepts_repeated_key :
    validateValueFrame F64 repeatedKeyFrame 0 = some 26 ∧ axStateApplyValue F64 repeatedKeyFrame = true ∧
      ¬ ∃ value : ExprValue F64, decodeExprValue repeatedKeyFrame 0 = some (value, 26) := by
  refine ⟨by decide +kernel, by decide +kernel, ?_⟩
  have refused : (decodeExprValue repeatedKeyFrame 0 : Option (ExprValue F64 × Nat)).isNone = true := by
    decide +kernel
  rw [Option.isNone_iff_eq_none] at refused
  simp [refused]

end Axonyx.StateWasm
