import Axonyx.Binary64
import Mathlib.Data.Rat.Floor
import Mathlib.Tactic.Linarith

/-! Number operations: checked 64-bit integers, and floats as an abstract carrier with the
operations of IEEE arithmetic. The laws say that the sign of a zero is seen by no finite
result, but by the sign of another zero. -/
namespace Axonyx

section Integers

def fitsInt64 (value : Int) : Bool := -2 ^ 63 ≤ value && value < 2 ^ 63

theorem fitsInt64_iff (n : Int) : fitsInt64 n = true ↔ -2 ^ 63 ≤ n ∧ n < 2 ^ 63 := by
  simp [fitsInt64]

theorem fits_toInt (n : Int64) : fitsInt64 n.toInt = true :=
  (fitsInt64_iff _).mpr ⟨n.le_toInt, n.toInt_lt⟩

def checkedNeg (a : Int64) : Option Int64 := if fitsInt64 (-a.toInt) then some (-a) else none

def checkedAdd (a b : Int64) : Option Int64 :=
  if fitsInt64 (a.toInt + b.toInt) then some (a + b) else none

def checkedSub (a b : Int64) : Option Int64 :=
  if fitsInt64 (a.toInt - b.toInt) then some (a - b) else none

def checkedMul (a b : Int64) : Option Int64 :=
  if fitsInt64 (a.toInt * b.toInt) then some (a * b) else none

def checkedDiv (a b : Int64) : Option Int64 :=
  if b = 0 ∨ a = Int64.minValue ∧ b = -1 then none else some (a / b)

def checkedRem (a b : Int64) : Option Int64 :=
  if b = 0 ∨ a = Int64.minValue ∧ b = -1 then none else some (a % b)

end Integers

section Floats

class FloatOps (F : Type) extends Binary64 F where
  zero : F
  neg : F → F
  add : F → F → F
  sub : F → F → F
  mul : F → F → F
  div : F → F → F
  rem : F → F → F
  ofInt : Int64 → F
  partialCmp : F → F → Option Ordering
  display : F → String

variable {F : Type}

/-- `f64::eq`. -/
def floatEq [FloatOps F] (a b : F) : Bool := FloatOps.partialCmp a b == some .eq

/-- A zero loses its sign; any other float stays as it is. -/
def canonical [FloatOps F] (f : F) : F := if floatEq f FloatOps.zero then FloatOps.zero else f

def finiteCanonical [FloatOps F] (f : F) : Option F :=
  if Binary64.isFinite f then some (canonical f) else none

class Float64 (F : Type) extends FloatOps F where
  finite_zero : isFinite zero = true
  eq_comm : ∀ a b : F, floatEq a b = floatEq b a
  cmp_canonical : ∀ a b, partialCmp (canonical a) (canonical b) = partialCmp a b
  neg_canonical : ∀ a, finiteCanonical (neg (canonical a)) = finiteCanonical (neg a)
  add_canonical : ∀ a b, finiteCanonical (add (canonical a) (canonical b)) = finiteCanonical (add a b)
  sub_canonical : ∀ a b, finiteCanonical (sub (canonical a) (canonical b)) = finiteCanonical (sub a b)
  mul_canonical : ∀ a b, finiteCanonical (mul (canonical a) (canonical b)) = finiteCanonical (mul a b)
  div_canonical : ∀ a b, finiteCanonical (div (canonical a) (canonical b)) = finiteCanonical (div a b)
  rem_canonical : ∀ a b, finiteCanonical (rem (canonical a) (canonical b)) = finiteCanonical (rem a b)

variable [Float64 F]

theorem canonical_zero : canonical (FloatOps.zero : F) = FloatOps.zero := by
  simp [canonical]

@[simp] theorem canonical_canonical (f : F) : canonical (canonical f) = canonical f := by
  unfold canonical
  split
  · simp
  · next signed => simp

theorem finite_canonical {f : F} (finite : Binary64.isFinite f = true) :
    Binary64.isFinite (canonical f) = true := by
  unfold canonical
  split
  · exact Float64.finite_zero
  · exact finite

@[simp] theorem floatEq_canonical (a b : F) : floatEq (canonical a) (canonical b) = floatEq a b := by
  simp only [floatEq, Float64.cmp_canonical]

theorem floatEq_canonical_zero (a : F) : floatEq (canonical a) FloatOps.zero = floatEq a FloatOps.zero := by
  have same := floatEq_canonical a FloatOps.zero
  rwa [canonical_zero] at same

end Floats

end Axonyx
