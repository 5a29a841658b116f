import Axonyx.Text
import Axonyx.Wire

/-! Lossy decoding of UTF-8 keeps whole characters whole: what stands in front of the first byte
of a character is decoded by itself, and the encoding of a character as that character. -/
namespace Text

/-- No lead byte accepts a byte that is no continuation. -/
theorem isSecond_false {lead byte : UInt8} (fresh : isContinuation byte = false) :
    isSecond lead byte = false := by
  simp only [isContinuation, Bool.and_eq_false_iff, decide_eq_false_iff_not, UInt8.le_iff_toNat_le,
    UInt8.reduceToNat, Nat.not_le] at fresh
  unfold isSecond
  repeat' split
  all_goals
    simp only [isContinuation, Bool.and_eq_false_iff, decide_eq_false_iff_not, UInt8.le_iff_toNat_le,
      UInt8.reduceToNat, Nat.not_le]
    omega

/-- A character starts here: the bytes are over, or the first is no continuation. -/
def StartsFresh (bytes : List UInt8) : Prop := ∀ byte, bytes.head? = some byte → isContinuation byte = false

/-- Bytes in front of a character are decoded by themselves. -/
theorem lossyChars_append (bytes : List UInt8) {rest : List UInt8} (fresh : StartsFresh rest) :
    lossyChars (bytes ++ rest) = lossyChars bytes ++ lossyChars rest := by
  have cut (byte : UInt8) (tail : List UInt8) (shape : rest = byte :: tail) (lead : UInt8) :
      isSecond lead byte = false ∧ isContinuation byte = false := by
    have here := fresh byte (by rw [shape]; rfl)
    exact ⟨isSecond_false here, here⟩
  fun_induction lossyChars bytes with
  | case1 => rfl
  | case2 _ _ _ ih | case3 _ _ _ _ _ _ ih | case4 _ _ _ _ _ _ ih | case6 _ _ _ _ _ _ _ _ _ ih
  | case7 _ _ _ _ _ _ _ _ _ ih | case9 _ _ _ _ _ _ _ ih | case11 _ _ _ _ _ _ _ _ _ _ _ _ ih
  | case12 _ _ _ _ _ _ _ _ _ _ _ _ ih | case14 _ _ _ _ _ _ _ _ _ _ ih
  | case16 _ _ _ _ _ _ _ _ ih | case18 _ _ _ _ _ _ ih =>
    -- the sequence is over before the character, or broken off
    simp only [List.cons_append] at ih ⊢
    rw [lossyChars.eq_def]
    simp [*]
  | case5 | case8 | case10 | case13 | case15 | case17 =>
    -- the character breaks the sequence off
    cases rest with
    | nil =>
      rw [List.append_nil, lossyChars.eq_def]
      simp [*, lossyChars]
    | cons byte tail =>
      have second (lead : UInt8) : isSecond lead byte = false := (cut byte tail rfl lead).1
      have next : isContinuation byte = false := (cut byte tail rfl byte).2
      clear cut
      simp only [List.cons_append, List.nil_append]
      rw [lossyChars.eq_def]
      simp [*]

theorem toNat_ofNat_byte {n : Nat} (small : n < 256) : (UInt8.ofNat n).toNat = n := by
  rw [UInt8.toNat_ofNat', Nat.mod_eq_of_lt small]

theorem val_lt (c : Char) : c.val.toNat < 0x110000 := by
  rcases c.valid with low | ⟨_, high⟩
  · exact Nat.lt_trans low (by decide)
  · exact high

/-- The encoding of a character starts one. -/
theorem startsFresh_encode (c : Char) (rest : List UInt8) :
    StartsFresh (String.utf8EncodeChar c ++ rest) := by
  intro byte first
  have valid := val_lt c
  unfold String.utf8EncodeChar at first
  dsimp only at first
  simp only [isContinuation, Bool.and_eq_false_iff, decide_eq_false_iff_not, UInt8.le_iff_toNat_le,
    UInt8.reduceToNat, Nat.not_le]
  split at first
  · cases first
    rw [toNat_ofNat_byte] <;> omega
  · split at first
    · cases first
      rw [toNat_ofNat_byte] <;> omega
    · split at first
      · cases first
        rw [toNat_ofNat_byte] <;> omega
      · cases first
        rw [toNat_ofNat_byte] <;> omega

theorem isContinuation_ofNat {n : Nat} (small : n < 64) : isContinuation (UInt8.ofNat (n + 128)) = true := by
  simp only [isContinuation, Bool.and_eq_true, decide_eq_true_eq, UInt8.le_iff_toNat_le, UInt8.reduceToNat]
  rw [toNat_ofNat_byte] <;> omega

theorem isSecond_of {lead second : UInt8} (from128 : 128 ≤ second.toNat) (to191 : second.toNat ≤ 191)
    (e0 : lead.toNat = 0xE0 → 160 ≤ second.toNat) (ed : lead.toNat = 0xED → second.toNat ≤ 159)
    (f0 : lead.toNat = 0xF0 → 144 ≤ second.toNat) (f4 : lead.toNat = 0xF4 → second.toNat ≤ 143) :
    isSecond lead second = true := by
  simp only [isSecond, isContinuation, ← UInt8.toNat_inj, UInt8.le_iff_toNat_le, UInt8.reduceToNat]
  repeat' split
  all_goals
    simp only [Bool.and_eq_true, decide_eq_true_eq]
    omega

/-- An encoded character is read back. -/
theorem lossyChars_encode (c : Char) (rest : List UInt8) :
    lossyChars (String.utf8EncodeChar c ++ rest) = c :: lossyChars rest := by
  have scalar : c.val.toNat < 0xD800 ∨ 0xDFFF < c.val.toNat ∧ c.val.toNat < 0x110000 := c.valid
  have same (n : Nat) (equal : n = c.val.toNat) : Char.ofNat n = c := by
    rw [equal]
    exact Char.ofNat_toNat c
  unfold String.utf8EncodeChar
  dsimp only
  generalize c.val.toNat = v at scalar same ⊢
  split
  next one =>
    have lead : (UInt8.ofNat v).toNat = v := toNat_ofNat_byte (by omega)
    rw [List.singleton_append, lossyChars.eq_def]
    dsimp only
    rw [if_pos, lead, same v rfl]
    rw [UInt8.lt_iff_toNat_lt, lead]
    exact Nat.lt_succ_of_le one
  next more =>
    split
    next two =>
      have lead : (UInt8.ofNat (v / 64 % 32 + 192)).toNat = v / 64 + 192 := by
        rw [toNat_ofNat_byte] <;> omega
      have second : (UInt8.ofNat (v % 64 + 128)).toNat = v % 64 + 128 := toNat_ofNat_byte (by omega)
      rw [lossyChars.eq_def]
      simp only [List.cons_append, List.nil_append]
      simp only [UInt8.lt_iff_toNat_lt, UInt8.le_iff_toNat_le, lead, second, UInt8.reduceToNat,
        isContinuation_ofNat (Nat.mod_lt v (by decide : 64 > 0)), if_true]
      rw [if_neg (by omega), if_pos, same]
      · omega
      · simp only [Bool.and_eq_true, decide_eq_true_eq]
        omega
    next more =>
      split
      next three =>
        have lead : (UInt8.ofNat (v / 4096 % 16 + 224)).toNat = v / 4096 + 224 := by
          rw [toNat_ofNat_byte] <;> omega
        have second : (UInt8.ofNat (v / 64 % 64 + 128)).toNat = v / 64 % 64 + 128 := toNat_ofNat_byte (by omega)
        have third : (UInt8.ofNat (v % 64 + 128)).toNat = v % 64 + 128 := toNat_ofNat_byte (by omega)
        have fits : isSecond (UInt8.ofNat (v / 4096 % 16 + 224)) (UInt8.ofNat (v / 64 % 64 + 128)) = true := by
          apply isSecond_of <;> rw [second] <;> (try rw [lead]) <;> omega
        rw [lossyChars.eq_def]
        simp only [List.cons_append, List.nil_append]
        simp only [UInt8.lt_iff_toNat_lt, UInt8.le_iff_toNat_le, lead, second, third, UInt8.reduceToNat, fits,
          isContinuation_ofNat (Nat.mod_lt v (by decide : 64 > 0)), if_true]
        rw [if_neg (by omega), if_neg, if_pos, same]
        · omega
        · simp only [Bool.and_eq_true, decide_eq_true_eq]
          omega
        · simp only [Bool.and_eq_true, decide_eq_true_eq]
          omega
      next four =>
        have lead : (UInt8.ofNat (v / 262144 % 8 + 240)).toNat = v / 262144 + 240 := by
          rw [toNat_ofNat_byte] <;> omega
        have second : (UInt8.ofNat (v / 4096 % 64 + 128)).toNat = v / 4096 % 64 + 128 :=
          toNat_ofNat_byte (by omega)
        have third : (UInt8.ofNat (v / 64 % 64 + 128)).toNat = v / 64 % 64 + 128 := toNat_ofNat_byte (by omega)
        have fourth : (UInt8.ofNat (v % 64 + 128)).toNat = v % 64 + 128 := toNat_ofNat_byte (by omega)
        have fits : isSecond (UInt8.ofNat (v / 262144 % 8 + 240)) (UInt8.ofNat (v / 4096 % 64 + 128)) = true := by
          apply isSecond_of <;> rw [second] <;> (try rw [lead]) <;> omega
        rw [lossyChars.eq_def]
        simp only [List.cons_append, List.nil_append]
        simp only [UInt8.lt_iff_toNat_lt, UInt8.le_iff_toNat_le, lead, second, third, fourth, UInt8.reduceToNat,
          fits, isContinuation_ofNat (Nat.mod_lt v (by decide : 64 > 0)),
          isContinuation_ofNat (Nat.mod_lt (v / 64) (by decide : 64 > 0)), if_true]
        rw [if_neg (by omega), if_neg, if_neg, if_pos, same]
        · omega
        · simp only [Bool.and_eq_true, decide_eq_true_eq]
          omega
        · simp only [Bool.and_eq_true, decide_eq_true_eq]
          omega
        · simp only [Bool.and_eq_true, decide_eq_true_eq]
          omega

theorem lossyChars_flatMap (text : List Char) (rest : List UInt8) :
    lossyChars (text.flatMap String.utf8EncodeChar ++ rest) = text ++ lossyChars rest := by
  induction text with
  | nil => rfl
  | cons c text ih => rw [List.flatMap_cons, List.append_assoc, lossyChars_encode, ih, List.cons_append]

theorem utf8_toList (text : String) : Wire.utf8 text = text.toList.flatMap String.utf8EncodeChar := by
  rw [Wire.utf8, ← String.utf8Encode_toList]
  simp [List.utf8Encode]

theorem fromUtf8Lossy_utf8 (text : String) : fromUtf8Lossy (Wire.utf8 text) = text := by
  have read := lossyChars_flatMap text.toList []
  rw [List.append_nil, ← utf8_toList, lossyChars, List.append_nil] at read
  rw [fromUtf8Lossy, read, String.ofList_toList]

end Text
