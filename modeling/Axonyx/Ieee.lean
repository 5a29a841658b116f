import Axonyx.Arithmetic
import Mathlib.Tactic.NormNum

/-! Bit patterns with IEEE arithmetic: a finite pattern stands for a rational number, an
operation is exact on rationals and then rounded to the nearest pattern, ties to even. -/
namespace Axonyx.F64

def signBit : Nat := 2 ^ 63
def infinity : Nat := 2047 * 2 ^ 52
def nan : F64 := 0x7ff8000000000000#64

def negative (f : F64) : Bool := signBit ≤ f.toNat

def magnitude (f : F64) : Nat := f.toNat % signBit

def finite (f : F64) : Bool := f.extractLsb' 52 11 != 0x7ff#11

/-- The value of a magnitude: `2 ^ 52` patterns for each exponent, from the subnormals on. -/
def magnitudeValue (bits : Nat) : Rat :=
  let exponent : Nat := bits / 2 ^ 52
  let fraction : Nat := bits % 2 ^ 52
  if exponent = 0 then (fraction : Rat) * (2 : Rat) ^ (-1074 : Int)
  else ((2 ^ 52 + fraction : Nat) : Rat) * (2 : Rat) ^ ((exponent : Int) - 1075)

def value (f : F64) : Rat :=
  if negative f then -magnitudeValue (magnitude f) else magnitudeValue (magnitude f)

def roundEven (q : Rat) : Nat :=
  let below := q.floor.toNat
  let rest := q - below
  if rest < 1 / 2 then below
  else if 1 / 2 < rest then below + 1
  else if below % 2 = 0 then below else below + 1

/-- The exponent of the leading binary digit. -/
def leading (q : Rat) : Int :=
  let guess : Int := (Nat.log2 q.num.toNat : Int) - Nat.log2 q.den
  if q < (2 : Rat) ^ guess then guess - 1 else guess

def roundMagnitude (q : Rat) : Nat :=
  let scale := max (leading q - 52) (-1074)
  min infinity ((scale + 1074).toNat * 2 ^ 52 + roundEven (q / (2 : Rat) ^ scale))

def signed (sign : Bool) (bits : Nat) : F64 :=
  BitVec.ofNat 64 (if sign then signBit + bits else bits)

/-- Round a rational; the sign of an exact zero is given. -/
def round (zeroSign : Bool) (q : Rat) : F64 :=
  if q = 0 then signed zeroSign 0
  else if q < 0 then signed true (roundMagnitude (-q)) else signed false (roundMagnitude q)

def exact (a b : F64) (zeroSign : Bool) (q : Rat) : F64 :=
  if finite a && finite b then round zeroSign q else nan

def neg (a : F64) : F64 := signed (!negative a) (magnitude a)

def add (a b : F64) : F64 := exact a b (negative a && negative b) (value a + value b)

def sub (a b : F64) : F64 := exact a b (negative a && !negative b) (value a - value b)

def mul (a b : F64) : F64 := exact a b (negative a != negative b) (value a * value b)

def div (a b : F64) : F64 :=
  if value b = 0 then nan else exact a b (negative a != negative b) (value a / value b)

def truncate (q : Rat) : Int := if q < 0 then -(-q).floor else q.floor

def rem (a b : F64) : F64 :=
  if value b = 0 then nan
  else exact a b (negative a) (value a - value b * truncate (value a / value b))

def partialCmp (a b : F64) : Option Ordering :=
  if finite a && finite b then
    some (if value a < value b then .lt else if value a = value b then .eq else .gt)
  else none

def ofInt (n : Int64) : F64 := round false n.toInt

section Display

def digits (n : Nat) : List Char := (toString n).toList

/-- `count` decimal digits of `q` from the leading one on, as a number and its unit. -/
def decimal (q : Rat) (count : Nat) : Nat × Int :=
  let whole := q.floor.toNat
  let width : Int := if whole = 0 then
    -((Nat.toDigits 10 (1 / q).floor.toNat).length : Int) + 1 else (Nat.toDigits 10 whole).length
  let unit := width - count
  (roundEven (q / (10 : Rat) ^ unit), unit)

/-- Digits with a decimal point, without an exponent. -/
def positional (number : Nat) (unit : Int) : List Char :=
  if 0 ≤ unit then digits number ++ List.replicate unit.toNat '0'
  else
    let places := (-unit).toNat
    let padded := List.replicate (places + 1 - (digits number).length) '0' ++ digits number
    padded.take (padded.length - places) ++ '.' :: padded.drop (padded.length - places)

/-- The shortest decimal that rounds to the pattern. -/
def display (f : F64) : String :=
  if !finite f then if magnitude f = infinity then (if negative f then "-inf" else "inf") else "NaN"
  else
    let sign := if negative f then ['-'] else []
    let q := magnitudeValue (magnitude f)
    if q = 0 then .ofList (sign ++ ['0'])
    else
      let choice := ((List.range 18).map (decimal q)).find? fun candidate =>
        roundMagnitude (candidate.1 * (10 : Rat) ^ candidate.2) = magnitude f
      let (number, unit) := choice.getD (decimal q 17)
      .ofList (sign ++ positional number unit)

theorem positional_ne (number : Nat) (unit : Int) : positional number unit ≠ [] := by
  unfold positional
  split
  · have some : digits number ≠ [] := by
      change number.repr.toList ≠ []
      rw [Nat.toList_repr]
      exact Nat.toDigits_ne_nil
    simp [some]
  · simp

theorem ofList_ne {text : List Char} (some : text ≠ []) : String.ofList text ≠ "" := by
  intro empty
  apply some
  rw [← String.toList_ofList (l := text), empty]
  rfl

/-- No float has an empty text. -/
theorem display_ne (f : F64) : display f ≠ "" := by
  unfold display
  by_cases unbounded : (!finite f) = true
  · rw [if_pos unbounded]
    split
    · split <;> decide
    · decide
  · rw [if_neg unbounded]
    by_cases zero : magnitudeValue (magnitude f) = 0
    · rw [if_pos zero]
      exact ofList_ne (by simp)
    · rw [if_neg zero]
      generalize ((List.range 18).map (decimal (magnitudeValue (magnitude f)))).find? _ = choice
      generalize decimal _ 17 = other
      obtain ⟨number, unit⟩ := other
      cases choice with
      | none => exact ofList_ne (List.append_ne_nil_of_right_ne_nil _ (positional_ne _ _))
      | some chosen => exact ofList_ne (List.append_ne_nil_of_right_ne_nil _ (positional_ne _ _))

end Display

section Laws

instance : FloatOps F64 where
  zero := 0#64
  neg := neg
  add := add
  sub := sub
  mul := mul
  div := div
  rem := rem
  ofInt := ofInt
  partialCmp := partialCmp
  display := display

theorem value_zero : value 0#64 = 0 := by
  simp [value, magnitudeValue, magnitude]

theorem floatEq_zero (a : F64) : floatEq a FloatOps.zero = (finite a && decide (value a = 0)) := by
  have zero : (FloatOps.zero : F64) = 0#64 := rfl
  have cmp : (FloatOps.partialCmp : F64 → F64 → Option Ordering) = partialCmp := rfl
  have known : finite 0#64 = true := rfl
  rw [floatEq, zero, cmp, partialCmp, value_zero, known, Bool.and_true]
  cases finite a with
  | false => rfl
  | true =>
    rcases lt_trichotomy (value a) 0 with less | same | more
    · simp [less, less.ne]
    · simp [same]
    · simp [more.ne', not_lt.mpr more.le]

theorem canonical_eq (a : F64) :
    canonical a = if finite a && decide (value a = 0) then 0#64 else a := by
  rw [canonical, floatEq_zero]
  rfl

@[simp] theorem finite_canonical (a : F64) : finite (canonical a) = finite a := by
  rw [canonical_eq]
  split
  · next zero =>
    simp only [Bool.and_eq_true] at zero
    rw [zero.1]
    rfl
  · rfl

@[simp] theorem value_canonical (a : F64) : value (canonical a) = value a := by
  rw [canonical_eq]
  split
  · next zero =>
    simp only [Bool.and_eq_true, decide_eq_true_eq] at zero
    rw [value_zero, zero.2]
  · rfl

theorem canonical_signed_zero (sign : Bool) : canonical (signed sign 0) = 0#64 := by
  have zero : value (signed sign 0) = 0 := by
    cases sign <;> simp [value, magnitudeValue, magnitude, signed, signBit, BitVec.toNat_ofNat]
  have known : finite (signed sign 0) = true := by cases sign <;> rfl
  simp [canonical_eq, zero, known]

/-- The sign given to an exact zero is dropped again. -/
theorem finiteCanonical_round (s t : Bool) (q : Rat) :
    finiteCanonical (round s q) = finiteCanonical (round t q) := by
  unfold round
  split
  · have known (sign : Bool) : Binary64.isFinite (signed sign 0) = true := by cases sign <;> rfl
    simp only [finiteCanonical, known, canonical_signed_zero]
  · rfl

theorem finiteCanonical_exact (a b : F64) (s t : Bool) (q : Rat) :
    finiteCanonical (exact (canonical a) (canonical b) s q) =
      finiteCanonical (exact a b t q) := by
  simp only [exact, finite_canonical]
  split
  · exact finiteCanonical_round s t q
  · rfl

theorem magnitude_of_value {a : F64} (zero : value a = 0) : magnitude a = 0 := by
  have magnitude_zero : magnitudeValue (magnitude a) = 0 := by
    unfold value at zero
    split at zero
    · exact neg_eq_zero.mp zero
    · exact zero
  have power (e : Int) : (2 : Rat) ^ e ≠ 0 := zpow_ne_zero _ (by norm_num)
  simp only [magnitudeValue] at magnitude_zero
  split at magnitude_zero
  · next low =>
    have fraction := (mul_eq_zero.mp magnitude_zero).resolve_right (power _)
    rw [Nat.cast_eq_zero] at fraction
    omega
  · have leading := (mul_eq_zero.mp magnitude_zero).resolve_right (power _)
    rw [Nat.cast_eq_zero] at leading
    omega

theorem floatEq_iff (a b : F64) :
    floatEq a b = true ↔ (finite a = true ∧ finite b = true) ∧ value a = value b := by
  have cmp : (FloatOps.partialCmp : F64 → F64 → Option Ordering) = partialCmp := rfl
  simp only [floatEq, cmp, partialCmp, Bool.and_eq_true]
  by_cases known : finite a = true ∧ finite b = true
  · rcases lt_trichotomy (value a) (value b) with less | same | more
    · simp [known, less, less.ne]
    · simp [known, same]
    · simp [known, more.ne', not_lt.mpr more.le]
  · simp [known]

instance : Float64 F64 where
  finite_zero := rfl
  eq_comm a b := by
    rw [Bool.eq_iff_iff, floatEq_iff, floatEq_iff, and_comm (a := finite a = true), eq_comm (a := value a)]
  cmp_canonical a b := by
    change partialCmp (canonical a) (canonical b) = partialCmp a b
    simp [partialCmp]
  neg_canonical a := by
    change finiteCanonical (neg (canonical a)) = finiteCanonical (neg a)
    rw [canonical_eq]
    split
    · next zero =>
      simp only [Bool.and_eq_true, decide_eq_true_eq] at zero
      have none : magnitude a = 0 := magnitude_of_value zero.2
      have left : neg 0#64 = signed true 0 := rfl
      rw [left, neg, none]
      exact finiteCanonical_round true (!negative a) 0
    · rfl
  add_canonical a b := by
    change finiteCanonical (add (canonical a) (canonical b)) = finiteCanonical (add a b)
    simp only [add, value_canonical]
    exact finiteCanonical_exact a b _ _ _
  sub_canonical a b := by
    change finiteCanonical (sub (canonical a) (canonical b)) = finiteCanonical (sub a b)
    simp only [sub, value_canonical]
    exact finiteCanonical_exact a b _ _ _
  mul_canonical a b := by
    change finiteCanonical (mul (canonical a) (canonical b)) = finiteCanonical (mul a b)
    simp only [mul, value_canonical]
    exact finiteCanonical_exact a b _ _ _
  div_canonical a b := by
    change finiteCanonical (div (canonical a) (canonical b)) = finiteCanonical (div a b)
    simp only [div, value_canonical]
    split
    · rfl
    · exact finiteCanonical_exact a b _ _ _
  rem_canonical a b := by
    change finiteCanonical (rem (canonical a) (canonical b)) = finiteCanonical (rem a b)
    simp only [rem, value_canonical]
    split
    · rfl
    · exact finiteCanonical_exact a b _ _ _

end Laws

section Integers

theorem finite_signed (sign : Bool) {bits : Nat} (below : bits < infinity) :
    finite (signed sign bits) = true := by
  have bound : bits < 2047 * 2 ^ 52 := below
  have exponent : (signed sign bits).toNat / 2 ^ 52 % 2 ^ 11 = bits / 2 ^ 52 := by
    cases sign with
    | true =>
      simp only [signed, signBit, BitVec.toNat_ofNat, if_true]
      omega
    | false =>
      simp only [signed, BitVec.toNat_ofNat, Bool.false_eq_true, if_false]
      omega
  simp only [finite, bne_iff_ne, ne_eq]
  intro all
  have same := congrArg BitVec.toNat all
  rw [BitVec.extractLsb'_toNat, Nat.shiftRight_eq_div_pow, exponent] at same
  have ones : (0x7ff#11).toNat = 2047 := rfl
  omega

theorem magnitude_lt {a : F64} (known : finite a = true) : magnitude a < infinity := by
  have exponent : a.toNat / 2 ^ 52 % 2 ^ 11 ≠ 2047 := by
    intro ones
    have same : a.extractLsb' 52 11 = 0x7ff#11 := by
      apply BitVec.eq_of_toNat_eq
      rw [BitVec.extractLsb'_toNat, Nat.shiftRight_eq_div_pow, ones]
      rfl
    simp [finite, same] at known
  rw [magnitude, signBit, infinity]
  omega

theorem finite_neg {a : F64} (known : finite a = true) : finite (neg a) = true :=
  finite_signed _ (magnitude_lt known)

theorem roundEven_le {q : Rat} {limit : Nat} (positive : 0 < limit) (below : q < limit) :
    roundEven q ≤ limit := by
  have floor : q.floor.toNat + 1 ≤ limit := by
    have lower : (q.floor : Rat) < limit := lt_of_le_of_lt (Rat.floor_le q) below
    have whole : q.floor < limit := by exact_mod_cast lower
    omega
  simp only [roundEven]
  split
  · omega
  · split
    · omega
    · split <;> omega

theorem leading_natCast {m : Nat} (positive : 0 < m) : leading m = Nat.log2 m := by
  have low : 2 ^ Nat.log2 m ≤ m := Nat.log2_self_le positive.ne'
  have guess : (Nat.log2 (m : Rat).num.toNat : Int) - Nat.log2 (m : Rat).den = Nat.log2 m := by
    have one : Nat.log2 1 = 0 := by decide
    simp [one]
  have above : ¬(m : Rat) < (2 : Rat) ^ (Nat.log2 m : Int) := by
    rw [zpow_natCast, not_lt]
    exact_mod_cast low
  rw [leading]
  simp only [guess]
  rw [if_neg above]

/-- A whole number of 64 bits stays far below the largest float. -/
theorem roundMagnitude_natCast {m : Nat} (positive : 0 < m) (fits : m ≤ 2 ^ 63) :
    roundMagnitude m < infinity := by
  have short : Nat.log2 m < 64 := (Nat.log2_lt positive.ne').mpr (by omega)
  have high : m < 2 ^ (Nat.log2 m + 1) := Nat.lt_log2_self
  have scale : max ((Nat.log2 m : Int) - 52) (-1074) = (Nat.log2 m : Int) - 52 := by omega
  have fraction : (m : Rat) / (2 : Rat) ^ ((Nat.log2 m : Int) - 52) < (2 ^ 53 : Nat) := by
    rw [div_lt_iff₀ (zpow_pos (by norm_num) _)]
    have power : ((2 ^ 53 : Nat) : Rat) * (2 : Rat) ^ ((Nat.log2 m : Int) - 52) = (2 : Rat) ^ (Nat.log2 m + 1) := by
      rw [Nat.cast_pow, Nat.cast_ofNat, ← zpow_natCast, ← zpow_natCast, ← zpow_add₀ (by norm_num)]
      congr 1
      push_cast
      omega
    rw [power]
    exact_mod_cast high
  have rounded := roundEven_le (by norm_num) fraction
  rw [roundMagnitude, leading_natCast positive]
  simp only [scale]
  rw [infinity]
  omega

/-- The conversion of an integer rounds its magnitude. -/
theorem ofInt_signed {n : Int64} (present : n.toInt ≠ 0) :
    ofInt n = signed (decide (n.toInt < 0)) (roundMagnitude (n.toInt.natAbs : Nat)) := by
  rw [ofInt, round]
  rcases lt_or_gt_of_ne present with negative | positive
  · have sign : ((n.toInt : Int) : Rat) < 0 := by exact_mod_cast negative
    have whole : -((n.toInt : Int) : Rat) = (n.toInt.natAbs : Nat) := by
      have same : (n.toInt.natAbs : Int) = -n.toInt := by omega
      rw [← Int.cast_natCast, same, Int.cast_neg]
    rw [if_neg sign.ne, if_pos sign, whole, decide_eq_true negative]
  · have sign : 0 < ((n.toInt : Int) : Rat) := by exact_mod_cast positive
    have whole : ((n.toInt : Int) : Rat) = (n.toInt.natAbs : Nat) := by
      have same : (n.toInt.natAbs : Int) = n.toInt := by omega
      rw [← Int.cast_natCast, same]
    have other : ¬ n.toInt < 0 := by omega
    rw [if_neg sign.ne', if_neg (not_lt.mpr sign.le), whole, decide_eq_false other]

theorem finite_ofInt (n : Int64) : finite (ofInt n) = true := by
  have low := n.le_toInt
  have high := n.toInt_lt
  by_cases present : n.toInt = 0
  · rw [ofInt, present]
    rfl
  · rw [ofInt_signed present]
    exact finite_signed _ (roundMagnitude_natCast (by omega) (by omega))

theorem roundEven_natCast (t : Nat) : roundEven t = t := by
  have below : ((t : Rat).floor).toNat = t := congrArg Int.toNat (Rat.floor_intCast t)
  have half : (0 : Rat) < 1 / 2 := by norm_num
  simp only [roundEven, below, sub_self, if_pos half]

/-- The value of a pattern with a sign. -/
theorem value_signed (sign : Bool) {bits : Nat} (below : bits < infinity) :
    value (signed sign bits) = if sign then -magnitudeValue bits else magnitudeValue bits := by
  have bound : bits < 2047 * 2 ^ 52 := below
  cases sign with
  | true =>
    have pattern : (signed true bits).toNat = 2 ^ 63 + bits := by
      simp only [signed, signBit, BitVec.toNat_ofNat, if_true]
      omega
    have rest : magnitude (signed true bits) = bits := by
      rw [magnitude, pattern, signBit]
      omega
    have less : negative (signed true bits) = true := by
      rw [negative, pattern, signBit, decide_eq_true_eq]
      omega
    rw [value, less, rest]
  | false =>
    have pattern : (signed false bits).toNat = bits := by
      simp only [signed, BitVec.toNat_ofNat, Bool.false_eq_true, if_false]
      omega
    have rest : magnitude (signed false bits) = bits := by
      rw [magnitude, pattern, signBit]
      omega
    have more : negative (signed false bits) = false := by
      rw [negative, pattern, signBit, decide_eq_false_iff_not]
      omega
    rw [value, more, rest]

/-- A whole number that 53 bits hold is one of the patterns. -/
theorem magnitudeValue_round {m : Nat} (positive : 0 < m) (fits : m ≤ 2 ^ 53) :
    magnitudeValue (roundMagnitude m) = m := by
  have low : 2 ^ Nat.log2 m ≤ m := Nat.log2_self_le positive.ne'
  have high : m < 2 ^ (Nat.log2 m + 1) := Nat.lt_log2_self
  have short : Nat.log2 m ≤ 53 := by
    by_contra long
    have larger : 2 ^ 54 ≤ 2 ^ Nat.log2 m := Nat.pow_le_pow_right (by norm_num) (by omega)
    omega
  -- the digits in front of the point once the leading one has weight 2 ^ 52
  obtain ⟨t, scaled, tLow, tHigh⟩ : ∃ t : Nat, (m : Rat) = t * (2 : Rat) ^ ((Nat.log2 m : Int) - 52) ∧
      2 ^ 52 ≤ t ∧ t < 2 ^ 53 := by
    by_cases whole : Nat.log2 m ≤ 52
    · have power : 2 ^ Nat.log2 m * 2 ^ (52 - Nat.log2 m) = 2 ^ 52 := by
        rw [← Nat.pow_add]
        congr 1
        omega
      have next : 2 ^ (Nat.log2 m + 1) * 2 ^ (52 - Nat.log2 m) = 2 ^ 53 := by
        rw [← Nat.pow_add]
        congr 1
        omega
      refine ⟨m * 2 ^ (52 - Nat.log2 m), ?_, ?_, ?_⟩
      · have cancel : ((2 ^ (52 - Nat.log2 m) : Nat) : Rat) * (2 : Rat) ^ ((Nat.log2 m : Int) - 52) = 1 := by
          rw [Nat.cast_pow, Nat.cast_ofNat, ← zpow_natCast, ← zpow_add₀ (by norm_num)]
          have zero : ((52 - Nat.log2 m : Nat) : Int) + ((Nat.log2 m : Int) - 52) = 0 := by omega
          rw [zero, zpow_zero]
        rw [Nat.cast_mul, mul_assoc, cancel, mul_one]
      · rw [← power]
        exact Nat.mul_le_mul_right _ low
      · rw [← next]
        exact Nat.mul_lt_mul_of_pos_right high (Nat.pow_pos (by norm_num))
    · have top : Nat.log2 m = 53 := by omega
      have exact : m = 2 ^ 53 := by
        rw [top] at low
        omega
      refine ⟨2 ^ 52, ?_, le_refl _, by norm_num⟩
      rw [top, exact]
      norm_num
  have scale : max ((Nat.log2 m : Int) - 52) (-1074) = (Nat.log2 m : Int) - 52 := by omega
  have power : (2 : Rat) ^ ((Nat.log2 m : Int) - 52) ≠ 0 := zpow_ne_zero _ (by norm_num)
  have digits : roundEven ((m : Rat) / (2 : Rat) ^ ((Nat.log2 m : Int) - 52)) = t := by
    rw [scaled, mul_div_cancel_right₀ _ power, roundEven_natCast]
  have rounded : roundMagnitude m = (Nat.log2 m + 1023) * 2 ^ 52 + (t - 2 ^ 52) := by
    have exponent : ((Nat.log2 m : Int) - 52 + 1074).toNat = Nat.log2 m + 1022 := by omega
    rw [roundMagnitude, leading_natCast positive]
    simp only [scale, digits, exponent]
    rw [infinity]
    omega
  have exponent : ((Nat.log2 m + 1023) * 2 ^ 52 + (t - 2 ^ 52)) / 2 ^ 52 = Nat.log2 m + 1023 := by omega
  have fraction : ((Nat.log2 m + 1023) * 2 ^ 52 + (t - 2 ^ 52)) % 2 ^ 52 = t - 2 ^ 52 := by omega
  have leading : 2 ^ 52 + (t - 2 ^ 52) = t := by omega
  have shift : ((Nat.log2 m + 1023 : Nat) : Int) - 1075 = (Nat.log2 m : Int) - 52 := by omega
  rw [rounded, magnitudeValue, exponent, fraction, leading]
  simp only [shift]
  rw [if_neg (by omega), ← scaled]

/-- `as f64` is exact on the integers up to `2 ^ 53`. -/
theorem value_ofInt {n : Int64} (small : n.toInt.natAbs ≤ 2 ^ 53) : value (ofInt n) = n.toInt := by
  by_cases present : n.toInt = 0
  · rw [ofInt, present]
    exact value_zero
  · have positive : 0 < n.toInt.natAbs := Int.natAbs_pos.mpr present
    rw [ofInt_signed present, value_signed _ (roundMagnitude_natCast positive (by omega)),
      magnitudeValue_round positive small]
    by_cases negative : n.toInt < 0
    · have same : -(n.toInt.natAbs : Int) = n.toInt := by omega
      rw [decide_eq_true negative, if_pos rfl, ← Int.cast_natCast, ← Int.cast_neg, same]
    · have same : (n.toInt.natAbs : Int) = n.toInt := by omega
      rw [decide_eq_false negative, if_neg Bool.false_ne_true, ← Int.cast_natCast, same]

end Integers

end Axonyx.F64
