import Axonyx.Wire

/-! The 64-bit floats of the program as an abstract carrier. The codec needs their
byte pattern and the finiteness test only. -/
namespace Axonyx

/-- `f64` up to its bit pattern: every pattern is a float and every float one pattern. -/
class Binary64 (F : Type) where
  toBits : F → BitVec 64
  ofBits : BitVec 64 → F
  isFinite : F → Bool
  ofBits_toBits : ∀ f, ofBits (toBits f) = f
  toBits_ofBits : ∀ bits, toBits (ofBits bits) = bits

namespace Binary64

variable {F : Type} [Binary64 F]

/-- `f64::to_le_bytes`. -/
def toLeBytes (f : F) : Wire.Bytes := Wire.leBytes 8 (toBits f).toNat

/-- `f64::from_le_bytes`. -/
def fromLeBytes (raw : Wire.Bytes) : F := ofBits (BitVec.ofNat 64 (Wire.ofLe raw))

@[simp] theorem toLeBytes_length (f : F) : (toLeBytes f).length = 8 := by simp [toLeBytes]

@[simp] theorem fromLeBytes_toLeBytes (f : F) : fromLeBytes (toLeBytes f) = f := by
  have fits : (toBits f).toNat < 256 ^ 8 := (toBits f).isLt
  simp [fromLeBytes, toLeBytes, Wire.ofLe_leBytes 8 _ fits, ofBits_toBits]

theorem toLeBytes_fromLeBytes {raw : Wire.Bytes} (width : raw.length = 8) :
    toLeBytes (fromLeBytes raw : F) = raw := by
  have fits := Wire.ofLe_lt_word width
  simp only [toLeBytes, fromLeBytes, toBits_ofBits, BitVec.toNat_ofNat,
    Nat.mod_eq_of_lt fits]
  rw [← width]
  exact Wire.leBytes_ofLe raw

end Binary64

/-- The patterns themselves, with the IEEE finiteness test: the exponent is not all ones. -/
abbrev F64 := BitVec 64

instance : Binary64 F64 where
  toBits f := f
  ofBits bits := bits
  isFinite f := f.extractLsb' 52 11 != 0x7ff#11
  ofBits_toBits _ := rfl
  toBits_ofBits _ := rfl

/-- `i64::to_le_bytes`. -/
def int64ToLe (value : Int64) : Wire.Bytes := Wire.leBytes 8 value.toBitVec.toNat

/-- `i64::from_le_bytes`. -/
def int64FromLe (raw : Wire.Bytes) : Int64 := Int64.ofBitVec (BitVec.ofNat 64 (Wire.ofLe raw))

@[simp] theorem int64ToLe_length (value : Int64) : (int64ToLe value).length = 8 := by
  simp [int64ToLe]

@[simp] theorem int64FromLe_toLe (value : Int64) : int64FromLe (int64ToLe value) = value := by
  have fits : value.toBitVec.toNat < 256 ^ 8 := value.toBitVec.isLt
  simp [int64FromLe, int64ToLe, Wire.ofLe_leBytes 8 _ fits]

theorem int64ToLe_fromLe {raw : Wire.Bytes} (width : raw.length = 8) :
    int64ToLe (int64FromLe raw) = raw := by
  have fits := Wire.ofLe_lt_word width
  simp only [int64ToLe, int64FromLe, Int64.toBitVec_ofBitVec, BitVec.toNat_ofNat,
    Nat.mod_eq_of_lt fits]
  rw [← width]
  exact Wire.leBytes_ofLe raw

end Axonyx
