import Mathlib.Tactic.Ring

/-! Byte-level building blocks of length-prefixed formats: fixed-width little-endian
numbers and UTF-8 text, each with the exact image of its reader. Nothing here knows
which format uses them. -/
namespace Wire

abbrev Bytes := List UInt8

/-- The low `width` bytes of `n`, least significant first. -/
def leBytes : Nat → Nat → Bytes
  | 0, _ => []
  | width + 1, n => UInt8.ofNat n :: leBytes width (n / 256)

def ofLe : Bytes → Nat
  | [] => 0
  | byte :: rest => byte.toNat + 256 * ofLe rest

@[simp] theorem leBytes_length (width n : Nat) : (leBytes width n).length = width := by
  induction width generalizing n with
  | zero => rfl
  | succ width ih => simp [leBytes, ih]

theorem ofLe_lt (bytes : Bytes) : ofLe bytes < 256 ^ bytes.length := by
  induction bytes with
  | nil => simp [ofLe]
  | cons byte rest ih =>
    have small := byte.toNat_lt
    simp only [ofLe, List.length_cons, Nat.pow_succ]
    omega

/-- Eight bytes make a 64-bit number. -/
theorem ofLe_lt_word {bytes : Bytes} (width : bytes.length = 8) : ofLe bytes < 2 ^ 64 := by
  have small := ofLe_lt bytes
  rw [width] at small
  exact small

theorem ofLe_leBytes (width n : Nat) (fits : n < 256 ^ width) : ofLe (leBytes width n) = n := by
  induction width generalizing n with
  | zero => simp at fits; simp [leBytes, ofLe, fits]
  | succ width ih =>
    have rest : n / 256 < 256 ^ width := by
      apply Nat.div_lt_of_lt_mul
      rw [Nat.pow_succ] at fits
      omega
    simp only [leBytes, ofLe, ih _ rest, UInt8.toNat_ofNat']
    omega

/-- A number read from bytes is written back as the same bytes. -/
theorem leBytes_ofLe (bytes : Bytes) : leBytes bytes.length (ofLe bytes) = bytes := by
  induction bytes with
  | nil => rfl
  | cons byte rest ih =>
    have small := byte.toNat_lt
    have head : UInt8.ofNat (byte.toNat + 256 * ofLe rest) = byte := by
      apply UInt8.toNat_inj.mp
      simp only [UInt8.toNat_ofNat']
      omega
    have tail : (byte.toNat + 256 * ofLe rest) / 256 = ofLe rest := by omega
    simp only [List.length_cons, leBytes, ofLe, head, tail, ih]

theorem leBytes_injective {width a b : Nat} (fitsA : a < 256 ^ width) (fitsB : b < 256 ^ width)
    (same : leBytes width a = leBytes width b) : a = b := by
  rw [← ofLe_leBytes width a fitsA, ← ofLe_leBytes width b fitsB, same]

/-- The UTF-8 bytes of a string. -/
def utf8 (s : String) : Bytes := s.toByteArray.data.toList

/-- Strict UTF-8 decoding: no replacement characters, no surrogates, no overlong forms. -/
def fromUtf8 (bytes : Bytes) : Option String := String.fromUTF8? ⟨bytes.toArray⟩

@[simp] theorem fromUtf8_utf8 (s : String) : fromUtf8 (utf8 s) = some s := by
  have valid := s.isValidUTF8
  simp [fromUtf8, utf8, String.fromUTF8?, valid, String.fromUTF8]

theorem utf8_of_fromUtf8 {bytes : Bytes} {s : String} (read : fromUtf8 bytes = some s) :
    utf8 s = bytes := by
  unfold fromUtf8 String.fromUTF8? at read
  split at read
  · cases read
    simp [utf8, String.fromUTF8]
  · cases read

theorem fromUtf8_eq_some_iff {bytes : Bytes} {s : String} :
    fromUtf8 bytes = some s ↔ bytes = utf8 s :=
  ⟨fun read => (utf8_of_fromUtf8 read).symm, fun same => same ▸ fromUtf8_utf8 s⟩

theorem utf8_injective {s t : String} (same : utf8 s = utf8 t) : s = t := by
  have read := fromUtf8_utf8 t
  rw [← same, fromUtf8_utf8] at read
  exact Option.some.inj read

@[simp] theorem utf8_length (s : String) : (utf8 s).length = s.utf8ByteSize := rfl

end Wire
