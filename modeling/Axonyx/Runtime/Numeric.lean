import Axonyx.Arithmetic
import Axonyx.Outcome
import Axonyx.Positional
import Axonyx.Text
import Axonyx.Wire

/-! Decimal parameters of PostgreSQL. A decimal text is taken apart at its sign, point and
exponent; its digits are written out, regrouped by four and sent as base-10000 digits. -/
namespace Axonyx.Runtime

open Positional

section Model

inductive PostgresParamError where
  | message (text : String)
  | tryFromInt
  | parseInt
  deriving DecidableEq, Repr

/-- An encoder refuses its input with an error, or it panics. -/
inductive EncodeFailure where
  | refused (error : PostgresParamError)
  | panic
  deriving DecidableEq, Repr

abbrev Encoded (α : Type) := Except EncodeFailure α

/-- How many bytes one string may hold on a 64-bit target: `isize::MAX` of them at most. -/
structure Memory where
  room : Nat
  fits : room < 2 ^ 63

def Memory.largest : Memory := ⟨2 ^ 63 - 1, by decide⟩

variable (memory : Memory)

def reserve (length : Nat) : Encoded Unit :=
  if length ≤ memory.room then .ok () else .error .panic

/-- The result of a plain `i64` operation: it overflows or it is exact. -/
def plainI64 (exact : Int) : Encoded Int := if fitsInt64 exact then .ok exact else .error .panic

/-- `i64::try_from`. -/
def i64OfUsize (n : Nat) : Encoded Int := if n < 2 ^ 63 then .ok n else .error (.refused .tryFromInt)

/-- `usize::try_from`. -/
def usizeOfI64 (n : Int) : Encoded Nat := if 0 ≤ n then .ok n.toNat else .error (.refused .tryFromInt)

/-- `i32::try_from`. -/
def i32OfUsize (n : Nat) : Encoded Int := if n < 2 ^ 31 then .ok n else .error (.refused .tryFromInt)

/-- `split_once(['e', 'E'])`. -/
def splitExponentMark : List Char → Option (List Char × List Char)
  | [] => none
  | c :: rest =>
    if c = 'e' ∨ c = 'E' then some ([], rest)
    else (splitExponentMark rest).map fun (mantissa, exponent) => (c :: mantissa, exponent)

def splitExponent (unsigned : List Char) : Encoded (List Char × Int) :=
  match splitExponentMark unsigned with
  | none => .ok (unsigned, 0)
  | some (mantissa, exponent) =>
    match Text.parseI64 exponent with
    | some exponent => .ok (mantissa, exponent.toInt)
    | none => .error (.refused .parseInt)

/-- The zeros that reach a point before the digits. -/
def padFront (digits : List Char) (decimalPosition : Int) : Encoded (List Char × Int) :=
  if decimalPosition < 0 then do
    let missing ← plainI64 (-decimalPosition)
    let padding ← usizeOfI64 missing
    reserve memory padding
    reserve memory (padding + digits.length)
    pure (List.replicate padding '0' ++ digits, 0)
  else pure (digits, decimalPosition)

/-- The zeros that reach a point behind the digits. -/
def padBack (digits : List Char) (decimalPosition : Int) : Encoded (List Char × Int) := do
  let digitLen ← i64OfUsize digits.length
  if digitLen < decimalPosition then do
    let missing ← plainI64 (decimalPosition - digitLen)
    let padding ← usizeOfI64 missing
    reserve memory (digits.length + padding)
    pure (digits ++ List.replicate padding '0', decimalPosition)
  else pure (digits, decimalPosition)

def parseDecimalParts (value : String) : Encoded (Bool × List Char × Int) := do
  let (negative, unsigned) :=
    match value.toList with
    | '-' :: unsigned => (true, unsigned)
    | unsigned => (false, unsigned)
  let (mantissa, exponent) ← splitExponent unsigned
  let parts := mantissa.splitOn '.'
  let integer := parts.headD []
  let fraction := parts.tail.headD []
  if integer.isEmpty || !parts.tail.tail.isEmpty || !integer.all Char.isDigit || !fraction.all Char.isDigit then
    .error (.refused (.message "invalid postgres numeric parameter"))
  else do
    reserve memory (integer.length + fraction.length)
    let integerLen ← i64OfUsize integer.length
    let decimalPosition ← plainI64 (integerLen + exponent)
    let (digits, decimalPosition) ← padFront memory (integer ++ fraction) decimalPosition
    let (digits, decimalPosition) ← padBack memory digits decimalPosition
    pure (negative, digits, decimalPosition)

/-- `chunks_exact(4)`; the digits are ASCII, so a character is a byte. -/
def chunksExact : List Char → List (List Char)
  | a :: b :: c :: d :: rest => [a, b, c, d] :: chunksExact rest
  | _ => []

/-- `str::parse::<u16>`. -/
def parseGroup (chunk : List Char) : Encoded Nat :=
  match Text.parseUnsigned (2 ^ 16 - 1) chunk with
  | some group => .ok group
  | none => .error (.refused .parseInt)

/-- Leading zero groups go, and an `i32` counts down. -/
def removeLeading : Int → List Nat → Encoded (Int × List Nat)
  | weight, 0 :: rest => if -2 ^ 31 ≤ weight - 1 then removeLeading (weight - 1) rest else .error .panic
  | weight, groups => .ok (weight, groups)

/-- `to_be_bytes` of a 16-bit number. -/
def toBeBytes (n : Int) : Wire.Bytes := (Wire.leBytes 2 (n % 2 ^ 16).toNat).reverse

def postgresDecimalToSql (value : String) : Encoded Wire.Bytes := do
  let (negative, digits, decimalPosition) ← parseDecimalParts memory value
  let decimalPosition ← usizeOfI64 decimalPosition
  let dscale := digits.length - decimalPosition
  if 2 ^ 16 ≤ dscale then .error (.refused (.message "postgres numeric scale exceeds u16 range"))
  else do
    -- Lengths of strings stay below 2^63, so no `usize` sum here leaves 64 bits.
    let integerGroups := (decimalPosition + 3) / 4
    let leftPadding := integerGroups * 4 - decimalPosition
    let rightPadding := (4 - dscale % 4) % 4
    reserve memory (leftPadding + digits.length + rightPadding)
    let grouped := List.replicate leftPadding '0' ++ digits ++ List.replicate rightPadding '0'
    let groups ← (chunksExact grouped).mapM parseGroup
    let weight ← i32OfUsize integerGroups
    let (weight, groups) ← removeLeading (weight - 1) groups
    let groups := dropTrailing groups
    let weight := if groups.isEmpty then 0 else weight
    if 2 ^ 15 ≤ groups.length then
      .error (.refused (.message "postgres numeric has too many base-10000 digits"))
    else if weight < -2 ^ 15 ∨ 2 ^ 15 ≤ weight then
      .error (.refused (.message "postgres numeric weight exceeds i16 range"))
    else
      let sign := if negative then 0x4000 else 0
      pure (([(groups.length : Int), weight, sign, dscale] ++ groups.map Nat.cast).flatMap toBeBytes)

end Model

section Texts

/-- A decimal number as a text writes it. -/
structure Decimal where
  negative : Bool
  integer : List Char
  fraction : List Char
  exponent : Int
  present : integer ≠ []
  integerDigits : ∀ c ∈ integer, c.isDigit = true
  fractionDigits : ∀ c ∈ fraction, c.isDigit = true

def digitOf (c : Char) : Nat := c.toNat - 48

/-- The number a sign and digits write, the first digit counting `base ^ weight`. -/
def signed (negative : Bool) (magnitude : Rat) : Rat := if negative then -magnitude else magnitude

namespace Decimal

variable (d : Decimal)

/-- The number: all digits as one natural number, moved by the exponent and the fraction. -/
def number : Rat :=
  signed d.negative (value 10 ((d.integer ++ d.fraction).map digitOf) * 10 ^ (d.exponent - d.fraction.length))

/-- Where the point stands, counted from the first digit. -/
def point : Int := d.integer.length + d.exponent

/-- How many digits are shown behind the point. -/
def scale : Nat := (d.fraction.length - d.exponent).toNat

/-- How many digits are shown in all, with the zeros that reach the point. -/
def shown : Nat := d.point.toNat + d.scale

/-- How many digits there are once both sides are filled up to groups of four. -/
def padded : Nat := (d.point.toNat + 3) / 4 * 4 + (d.scale + 3) / 4 * 4

end Decimal

/-- A mark and a number behind it, or nothing. -/
def WritesExponent (text : List Char) (exponent : Int) : Prop :=
  text = [] ∧ exponent = 0 ∨
    ∃ mark digits n, text = mark :: digits ∧ (mark = 'e' ∨ mark = 'E') ∧
      Text.parseI64 digits = some n ∧ n.toInt = exponent

/-- A point and digits behind it, or nothing. -/
def WritesFraction (text fraction : List Char) : Prop := text = [] ∧ fraction = [] ∨ text = '.' :: fraction

/-- The text writes the number. -/
def Written (text : String) (d : Decimal) : Prop :=
  ∃ fraction exponent, text.toList = (if d.negative then ['-'] else []) ++ (d.integer ++ fraction ++ exponent) ∧
    WritesFraction fraction d.fraction ∧ WritesExponent exponent d.exponent

end Texts

section Wire

/-- A base-10000 number as PostgreSQL keeps it. -/
structure PostgresNumeric where
  ndigits : Int
  weight : Int
  sign : Nat
  dscale : Nat
  groups : List Nat
  deriving DecidableEq, Repr

def PostgresNumeric.negative (numeric : PostgresNumeric) : Bool := numeric.sign == 0x4000

/-- The number: each group counts its power of ten thousand. -/
def PostgresNumeric.number (numeric : PostgresNumeric) : Rat :=
  signed numeric.negative (∑ i : Fin numeric.groups.length, (numeric.groups[i] : Rat) * 10000 ^ (numeric.weight - i))

def readWords : Wire.Bytes → Option (List Nat)
  | [] => some []
  | [_] => none
  | high :: low :: rest => (readWords rest).map ((high.toNat * 2 ^ 8 + low.toNat) :: ·)

/-- A 16-bit word as a signed number. -/
def signedWord (word : Nat) : Int := if word < 2 ^ 15 then word else word - 2 ^ 16

/-- What the server reads: four words in front, then the groups. -/
def readNumeric (bytes : Wire.Bytes) : Option PostgresNumeric :=
  match readWords bytes with
  | some (ndigits :: weight :: sign :: dscale :: groups) =>
    some ⟨signedWord ndigits, signedWord weight, sign, dscale, groups⟩
  | _ => none

end Wire

section Reading

/-- No character of the text is an exponent mark. -/
def Unmarked (text : List Char) : Prop := ∀ c ∈ text, ¬(c = 'e' ∨ c = 'E')

theorem unmarked_digit {c : Char} (digit : c.isDigit = true) : ¬(c = 'e' ∨ c = 'E') := by
  rintro (rfl | rfl) <;> exact absurd digit (by decide)

theorem splitExponentMark_unmarked {text : List Char} (free : Unmarked text) : splitExponentMark text = none := by
  induction text with
  | nil => rfl
  | cons c rest ih =>
    rw [splitExponentMark, if_neg (free c List.mem_cons_self), ih fun d member => free d (List.mem_cons_of_mem _ member)]
    rfl

theorem splitExponentMark_marked {mantissa : List Char} (free : Unmarked mantissa) {mark : Char}
    (marks : mark = 'e' ∨ mark = 'E') (exponent : List Char) :
    splitExponentMark (mantissa ++ mark :: exponent) = some (mantissa, exponent) := by
  induction mantissa with
  | nil => exact if_pos marks
  | cons c rest ih =>
    rw [List.cons_append, splitExponentMark, if_neg (free c List.mem_cons_self),
      ih fun d member => free d (List.mem_cons_of_mem _ member)]
    rfl

theorem splitExponentMark_some {text mantissa exponent : List Char}
    (found : splitExponentMark text = some (mantissa, exponent)) :
    ∃ mark, text = mantissa ++ mark :: exponent ∧ (mark = 'e' ∨ mark = 'E') := by
  induction text generalizing mantissa with
  | nil => cases found
  | cons c rest ih =>
    rw [splitExponentMark] at found
    split at found
    next marks =>
      cases found
      exact ⟨c, rfl, marks⟩
    next =>
      obtain ⟨⟨front, back⟩, inner, pair⟩ := Option.map_eq_some_iff.mp found
      cases pair
      obtain ⟨mark, whole, marks⟩ := ih inner
      exact ⟨mark, congrArg (c :: ·) whole, marks⟩

theorem splitExponent_written {mantissa tail : List Char} {exponent : Int} (free : Unmarked mantissa)
    (writes : WritesExponent tail exponent) : splitExponent (mantissa ++ tail) = .ok (mantissa, exponent) := by
  rcases writes with ⟨rfl, rfl⟩ | ⟨mark, digits, n, rfl, marks, parsed, rfl⟩
  · rw [List.append_nil, splitExponent, splitExponentMark_unmarked free]
  · rw [splitExponent, splitExponentMark_marked free marks]
    simp only [parsed]

/-- The exponent is found where one is written, or the text is refused. -/
theorem splitExponent_cases (unsigned : List Char) :
    (∃ mantissa tail exponent, splitExponent unsigned = .ok (mantissa, exponent) ∧ unsigned = mantissa ++ tail ∧
      WritesExponent tail exponent) ∨
    ∃ error, splitExponent unsigned = .error (.refused error) := by
  rw [splitExponent]
  cases found : splitExponentMark unsigned with
  | none => exact .inl ⟨unsigned, [], 0, rfl, (List.append_nil _).symm, .inl ⟨rfl, rfl⟩⟩
  | some pair =>
    obtain ⟨mantissa, digits⟩ := pair
    obtain ⟨mark, whole, marks⟩ := splitExponentMark_some found
    cases parsed : Text.parseI64 digits with
    | none => exact .inr ⟨.parseInt, by simp only [parsed]⟩
    | some n => exact .inl ⟨mantissa, mark :: digits, n.toInt, by simp only [parsed], whole,
        .inr ⟨mark, digits, n, rfl, marks, parsed, rfl⟩⟩

/-- The two parts of a mantissa, as splitting at the point gives them. -/
theorem splitOn_point {integer fraction text : List Char} (clear : '.' ∉ integer) (free : '.' ∉ fraction)
    (writes : WritesFraction text fraction) :
    ((integer ++ text).splitOn '.').headD [] = integer ∧ ((integer ++ text).splitOn '.').tail.headD [] = fraction ∧
      ((integer ++ text).splitOn '.').tail.tail = [] := by
  rcases writes with ⟨rfl, rfl⟩ | rfl
  · rw [List.append_nil, List.splitOn_eq_singleton clear]
    exact ⟨rfl, rfl, rfl⟩
  · rw [List.splitOn_append_cons_self_of_not_mem clear, List.splitOn_eq_singleton free]
    exact ⟨rfl, rfl, rfl⟩

/-- A mantissa is its parts around the point. -/
theorem splitOn_rebuilds {mantissa : List Char} (two : (mantissa.splitOn '.').tail.tail = []) :
    ∃ text, mantissa = (mantissa.splitOn '.').headD [] ++ text ∧
      WritesFraction text ((mantissa.splitOn '.').tail.headD []) := by
  have whole : ['.'].intercalate (mantissa.splitOn '.') = mantissa := List.intercalate_splitOn '.'
  generalize mantissa.splitOn '.' = parts at two whole
  match parts with
  | [] => exact ⟨[], by simpa using whole.symm, .inl ⟨rfl, rfl⟩⟩
  | [integer] => exact ⟨[], by simpa using whole.symm, .inl ⟨rfl, rfl⟩⟩
  | [integer, fraction] => exact ⟨'.' :: fraction, by simpa using whole.symm, .inr rfl⟩

end Reading

section Parts

namespace Decimal

variable (d : Decimal)

/-- The digits written out, with the zeros that reach the point on either side. -/
def digits : List Char :=
  List.replicate (-d.point).toNat '0' ++ (d.integer ++ d.fraction) ++
    List.replicate (d.point - (d.integer.length + d.fraction.length)).toNat '0'

theorem digits_length : d.digits.length = d.shown := by
  simp only [digits, List.length_append, List.length_replicate, shown, scale, point]
  omega

theorem digits_isDigit : ∀ c ∈ d.digits, c.isDigit = true := by
  intro c member
  simp only [digits, List.mem_append, List.mem_replicate] at member
  rcases member with (⟨_, rfl⟩ | inside | inside) | ⟨_, rfl⟩
  · rfl
  · exact d.integerDigits c inside
  · exact d.fractionDigits c inside
  · rfl

/-- The digits written out are the number, the first one counting what stands before the point. -/
theorem digits_expansion :
    signed d.negative (expansion ((10 : Nat) : Rat) (d.point.toNat - 1) (d.digits.map digitOf)) = d.number := by
  have zero (count : Nat) : (List.replicate count '0').map digitOf = List.replicate count 0 := by
    simp [digitOf]
  have place : (d.point.toNat : Int) - 1 - (-d.point).toNat + 1 - ((d.integer ++ d.fraction).map digitOf).length =
      d.exponent - d.fraction.length := by
    simp only [List.length_map, List.length_append, point]
    omega
  rw [digits, List.map_append, List.map_append, zero, zero, expansion_trailing, expansion_leading,
    expansion_eq_value (by norm_num), place]
  rfl

end Decimal

variable (memory : Memory)

/-- What the parts of a written number are, if there is room for its digits. -/
def placed (d : Decimal) : Encoded (Bool × List Char × Int) :=
  if d.shown ≤ memory.room then .ok (d.negative, d.digits, d.point.toNat) else .error .panic

theorem ok_bind {α β : Type} (value : α) (next : α → Encoded β) : (Except.ok value >>= next) = next value := rfl

theorem reserve_bind {α : Type} (length : Nat) (next : Unit → Encoded α) :
    (reserve memory length >>= next) = if length ≤ memory.room then next () else .error .panic := by
  rw [reserve]
  split <;> rfl

theorem plainI64_bind {α : Type} (exact : Int) (next : Int → Encoded α) :
    (plainI64 exact >>= next) = if fitsInt64 exact then next exact else .error .panic := by
  rw [plainI64]
  split <;> rfl

theorem usizeOfI64_nat {n : Int} (natural : 0 ≤ n) : usizeOfI64 n = .ok n.toNat := if_pos natural

theorem i64OfUsize_small {n : Nat} (small : n ≤ memory.room) : i64OfUsize n = .ok n :=
  if_pos (small.trans_lt memory.fits)

theorem padFront_eq (digits : List Char) {position : Int} (small : digits.length ≤ memory.room)
    (above : -2 ^ 63 < position) :
    padFront memory digits position =
      if (-position).toNat + digits.length ≤ memory.room then
        .ok (List.replicate (-position).toNat '0' ++ digits, position.toNat)
      else .error .panic := by
  have room := memory.fits
  rw [padFront]
  by_cases left : position < 0
  · have fits : fitsInt64 (-position) = true := (fitsInt64_iff _).mpr (by omega)
    have start : position.toNat = 0 := by omega
    rw [if_pos left, plainI64_bind, if_pos fits, usizeOfI64_nat (by omega), ok_bind, reserve_bind, reserve_bind, start]
    by_cases enough : (-position).toNat + digits.length ≤ memory.room
    · rw [if_pos enough, if_pos (by omega), if_pos enough]
      rfl
    · rw [if_neg enough, if_neg enough]
      split <;> rfl
  · have nothing : (-position).toNat = 0 := by omega
    have stays : (position.toNat : Int) = position := by omega
    rw [if_neg left, nothing, stays, if_pos (by omega)]
    rfl

theorem padBack_eq {digits : List Char} {position : Nat} (small : digits.length ≤ memory.room)
    (fits : position < 2 ^ 63) :
    padBack memory digits position =
      if position ≤ memory.room then
        .ok (digits ++ List.replicate (position - digits.length) '0', (position : Int))
      else .error .panic := by
  have room := memory.fits
  rw [padBack, i64OfUsize_small memory small, ok_bind]
  by_cases right : (digits.length : Int) < position
  · have exact : fitsInt64 ((position : Int) - digits.length) = true := (fitsInt64_iff _).mpr (by omega)
    have missing : ((position : Int) - digits.length).toNat = position - digits.length := by omega
    have reached : digits.length + (position - digits.length) = position := by omega
    rw [if_pos right, plainI64_bind, if_pos exact, usizeOfI64_nat (by omega), ok_bind, missing, reserve_bind, reached]
    rfl
  · have nothing : position - digits.length = 0 := by omega
    rw [if_neg right, nothing, if_pos (by omega), List.replicate_zero, List.append_nil]
    rfl

/-- The digits of a written number are placed around its point. -/
theorem padDigits_placed (d : Decimal) (small : d.integer.length + d.fraction.length ≤ memory.room)
    (fits : fitsInt64 d.point = true) (above : -2 ^ 63 < d.point) :
    (do
      let (digits, decimalPosition) ← padFront memory (d.integer ++ d.fraction) d.point
      let (digits, decimalPosition) ← padBack memory digits decimalPosition
      pure (d.negative, digits, decimalPosition)) = placed memory d := by
  have length : (d.integer ++ d.fraction).length = d.integer.length + d.fraction.length := List.length_append
  have range := (fitsInt64_iff _).mp fits
  have total : d.shown = (-d.point).toNat + (d.integer.length + d.fraction.length) ⊔ d.point.toNat := by
    simp only [Decimal.shown, Decimal.scale, Decimal.point]
    omega
  rw [padFront_eq memory _ (by omega) above, placed]
  by_cases front : (-d.point).toNat + (d.integer ++ d.fraction).length ≤ memory.room
  · have padded : (List.replicate (-d.point).toNat '0' ++ (d.integer ++ d.fraction)).length ≤ memory.room := by
      simpa using front
    rw [if_pos front, ok_bind]
    simp only [padBack_eq memory padded (by omega : d.point.toNat < 2 ^ 63)]
    by_cases back : d.point.toNat ≤ memory.room
    · have missing : d.point.toNat - (List.replicate (-d.point).toNat '0' ++ (d.integer ++ d.fraction)).length =
          (d.point - (d.integer.length + d.fraction.length)).toNat := by
        simp only [List.length_append, List.length_replicate]
        omega
      rw [if_pos back, if_pos (by omega), missing]
      rfl
    · rw [if_neg back, if_neg (by omega)]
      rfl
  · rw [if_neg front, if_neg (by omega)]
    rfl

theorem integer_head (d : Decimal) (rest : List Char) :
    ∃ c tail, d.integer ++ rest = c :: tail ∧ c.isDigit = true := by
  cases cut : d.integer with
  | nil => exact absurd cut d.present
  | cons c tail => exact ⟨c, tail ++ rest, rfl, d.integerDigits c (cut ▸ List.mem_cons_self)⟩

/-- The sign is read off a written number. -/
theorem sign_written (d : Decimal) (rest : List Char) :
    (match (if d.negative then ['-'] else []) ++ (d.integer ++ rest) with
      | '-' :: unsigned => (true, unsigned)
      | unsigned => (false, unsigned)) = (d.negative, d.integer ++ rest) := by
  cases sign : d.negative with
  | true => rfl
  | false =>
    obtain ⟨c, tail, whole, digit⟩ := integer_head d rest
    have plain : c ≠ '-' := by
      rintro rfl
      cases digit
    simp [whole, plain]

/-- The exponents that are read. -/
theorem exponent_range {text : List Char} {exponent : Int} (writes : WritesExponent text exponent) :
    -2 ^ 63 ≤ exponent ∧ exponent < 2 ^ 63 := by
  rcases writes with ⟨_, rfl⟩ | ⟨_, _, n, _, _, _, rfl⟩
  · decide
  · exact ⟨n.le_toInt, n.toInt_lt⟩

/-- Behind the checks a number is placed, or there is no room for it. -/
theorem checked_placed (d : Decimal) (range : -2 ^ 63 ≤ d.exponent ∧ d.exponent < 2 ^ 63) :
    (do
      reserve memory (d.integer.length + d.fraction.length)
      let integerLen ← i64OfUsize d.integer.length
      let decimalPosition ← plainI64 (integerLen + d.exponent)
      let (digits, decimalPosition) ← padFront memory (d.integer ++ d.fraction) decimalPosition
      let (digits, decimalPosition) ← padBack memory digits decimalPosition
      pure (d.negative, digits, decimalPosition)) = placed memory d := by
  have room := memory.fits
  have present : 0 < d.integer.length := List.length_pos_iff.mpr d.present
  have shown : d.shown = d.point.toNat + (d.fraction.length - d.exponent).toNat := rfl
  have point : d.point = d.integer.length + d.exponent := rfl
  rw [reserve_bind]
  by_cases small : d.integer.length + d.fraction.length ≤ memory.room
  · rw [if_pos small, i64OfUsize_small memory (by omega), ok_bind, plainI64_bind, ← point]
    by_cases fits : fitsInt64 d.point = true
    · rw [if_pos fits]
      exact padDigits_placed memory d small fits (by omega)
    · have high : ¬(-2 ^ 63 ≤ d.point ∧ d.point < 2 ^ 63) := fun inside => fits ((fitsInt64_iff _).mpr inside)
      rw [if_neg fits, placed, if_neg (by omega)]
  · rw [if_neg small, placed, if_neg (by omega)]

theorem clear_of_digits {text : List Char} (digits : ∀ c ∈ text, c.isDigit = true) : '.' ∉ text :=
  fun member => absurd (digits _ member) (by decide)

theorem unmarked_mantissa (d : Decimal) {text : List Char} (writes : WritesFraction text d.fraction) :
    Unmarked (d.integer ++ text) := by
  intro c member
  rcases List.mem_append.mp member with inside | behind
  · exact unmarked_digit (d.integerDigits c inside)
  · rcases writes with ⟨rfl, _⟩ | rfl
    · cases behind
    · rcases List.mem_cons.mp behind with rfl | inside
      · decide
      · exact unmarked_digit (d.fractionDigits c inside)

/-- A written number is read as it is written. -/
theorem parseDecimalParts_written {text : String} {d : Decimal} (written : Written text d) :
    parseDecimalParts memory text = placed memory d := by
  obtain ⟨fraction, exponent, whole, point, mark⟩ := written
  have sign := sign_written d (fraction ++ exponent)
  have parts := splitExponent_written (unmarked_mantissa d point) mark
  obtain ⟨integer, behind, two⟩ :=
    splitOn_point (clear_of_digits d.integerDigits) (clear_of_digits d.fractionDigits) point
  have valid : (d.integer.isEmpty || !([] : List (List Char)).isEmpty || !d.integer.all Char.isDigit ||
      !d.fraction.all Char.isDigit) = false := by
    simpa using ⟨⟨d.present, d.integerDigits⟩, d.fractionDigits⟩
  rw [List.append_assoc] at whole
  rw [parseDecimalParts, whole]
  simp only [sign]
  rw [← List.append_assoc, parts, ok_bind]
  simp only [integer, behind, two, valid]
  exact checked_placed memory d (exponent_range mark)

/-- A text that is not refused writes a number. -/
theorem parseDecimalParts_cases (text : String) :
    (∃ d, Written text d) ∨ ∃ error, parseDecimalParts memory text = .error (.refused error) := by
  obtain ⟨negative, unsigned, sign, whole⟩ : ∃ negative unsigned,
      (match text.toList with
        | '-' :: unsigned => (true, unsigned)
        | unsigned => (false, unsigned)) = (negative, unsigned) ∧
      text.toList = (if negative then ['-'] else []) ++ unsigned := by
    split
    next unsigned minus => exact ⟨true, unsigned, rfl, minus⟩
    next => exact ⟨false, text.toList, rfl, rfl⟩
  rw [parseDecimalParts, sign]
  rcases splitExponent_cases unsigned with ⟨mantissa, tail, exponent, split, cut, mark⟩ | ⟨error, refused⟩
  · cases valid : ((mantissa.splitOn '.').headD []).isEmpty || !(mantissa.splitOn '.').tail.tail.isEmpty ||
        !((mantissa.splitOn '.').headD []).all Char.isDigit || !((mantissa.splitOn '.').tail.headD []).all Char.isDigit with
    | true =>
      refine .inr ⟨.message "invalid postgres numeric parameter", ?_⟩
      simp only [split, ok_bind, valid]
      rfl
    | false =>
      simp only [Bool.or_eq_false_iff, Bool.not_eq_false', List.isEmpty_eq_false_iff, List.all_eq_true,
        List.isEmpty_iff] at valid
      obtain ⟨⟨⟨present, two⟩, integerDigits⟩, fractionDigits⟩ := valid
      obtain ⟨fraction, mantissaIs, point⟩ := splitOn_rebuilds two
      refine .inl ⟨⟨negative, _, _, exponent, present, integerDigits, fractionDigits⟩, fraction, tail, ?_, point, mark⟩
      rw [whole, cut]
      exact congrArg (fun mantissa => _ ++ (mantissa ++ tail)) mantissaIs
  · refine .inr ⟨error, ?_⟩
    simp only [refused]
    rfl

end Parts

section Groups

theorem digitOf_lt {c : Char} (digit : c.isDigit = true) : digitOf c < 10 := by
  have range : 48 ≤ c.toNat ∧ c.toNat ≤ 57 := Char.isDigit_iff_toNat.mp digit
  rw [digitOf]
  omega

theorem chunksExact_flatten (text : List Char) (even : text.length % 4 = 0) : (chunksExact text).flatten = text := by
  fun_induction chunksExact text with
  | case1 a b c d rest ih =>
    have shorter : rest.length % 4 = 0 := by
      simp only [List.length_cons] at even
      omega
    rw [List.flatten_cons, ih shorter]
    rfl
  | case2 text short =>
    match text with
    | [] => rfl
    | [_] | [_, _] | [_, _, _] => cases even
    | a :: b :: c :: d :: rest => exact absurd rfl (short a b c d rest)

theorem chunksExact_length (text : List Char) : ∀ chunk ∈ chunksExact text, chunk.length = 4 := by
  fun_induction chunksExact text with
  | case1 a b c d rest ih =>
    intro chunk member
    rcases List.mem_cons.mp member with rfl | later
    · rfl
    · exact ih chunk later
  | case2 => exact fun _ member => absurd member List.not_mem_nil

theorem chunksExact_count (text : List Char) : (chunksExact text).length = text.length / 4 := by
  fun_induction chunksExact text with
  | case1 a b c d rest ih =>
    simp only [List.length_cons, ih]
    omega
  | case2 text short =>
    match text with
    | [] | [_] | [_, _] | [_, _, _] => simp
    | a :: b :: c :: d :: rest => exact absurd rfl (short a b c d rest)

theorem chunksExact_mem {text chunk : List Char} (member : chunk ∈ chunksExact text) : ∀ c ∈ chunk, c ∈ text := by
  fun_induction chunksExact text with
  | case1 a b c d rest ih =>
    intro character inside
    rcases List.mem_cons.mp member with rfl | later
    · simp only [List.mem_cons, List.not_mem_nil, or_false] at inside
      rcases inside with rfl | rfl | rfl | rfl <;> simp
    · simp [ih later character inside]
  | case2 => cases member

/-- The number of a group of digits. -/
def groupValue (chunk : List Char) : Nat := value 10 (chunk.map digitOf)

theorem groupValue_lt {chunk : List Char} (digits : ∀ c ∈ chunk, c.isDigit = true) (four : chunk.length = 4) :
    groupValue chunk < 10000 := by
  have small : ∀ digit ∈ chunk.map digitOf, digit < 10 := by
    intro digit member
    obtain ⟨c, inside, rfl⟩ := List.mem_map.mp member
    exact digitOf_lt (digits c inside)
  have bound := value_lt small
  rw [List.length_map, four] at bound
  exact bound

theorem parseGroup_digits {chunk : List Char} (digits : ∀ c ∈ chunk, c.isDigit = true) (four : chunk.length = 4) :
    parseGroup chunk = .ok (groupValue chunk) := by
  have small := groupValue_lt digits four
  have present : chunk ≠ [] := by
    rintro rfl
    cases four
  have reads : chunk.foldl (fun n c => n * 10 + (c.toNat - 48)) 0 = groupValue chunk := List.foldl_map.symm
  rw [parseGroup, Text.parseUnsigned_digits present digits (by omega), reads]

theorem parseGroups {text : List Char} (digits : ∀ c ∈ text, c.isDigit = true) :
    (chunksExact text).mapM parseGroup = .ok ((chunksExact text).map groupValue) := by
  have each : ∀ chunk ∈ chunksExact text, parseGroup chunk = .ok (groupValue chunk) := fun chunk member =>
    parseGroup_digits (fun c inside => digits c (chunksExact_mem member c inside)) (chunksExact_length _ _ member)
  generalize chunksExact text = chunks at each
  induction chunks with
  | nil => rfl
  | cons chunk rest ih =>
    rw [List.mapM_cons, each chunk List.mem_cons_self, ok_bind, ih fun c member => each c (List.mem_cons_of_mem _ member)]
    rfl

/-- The count of leading groups never leaves an `i32`. -/
theorem removeLeading_eq {weight : Int} {groups : List Nat} (inside : -2 ^ 31 ≤ weight - groups.length) :
    removeLeading weight groups = .ok (dropLeading weight groups) := by
  induction groups generalizing weight with
  | nil => rfl
  | cons group rest ih =>
    rw [List.length_cons] at inside
    cases group with
    | zero =>
      rw [removeLeading, if_pos (by omega), ih (by omega), dropLeading]
    | succ group => rfl

namespace Decimal

variable (d : Decimal)

/-- The digits with both sides filled up to groups of four. -/
def grouped : List Char :=
  List.replicate ((d.point.toNat + 3) / 4 * 4 - d.point.toNat) '0' ++ d.digits ++
    List.replicate ((4 - d.scale % 4) % 4) '0'

theorem grouped_length : d.grouped.length = d.padded := by
  simp only [grouped, List.length_append, List.length_replicate, digits_length, shown, padded]
  omega

theorem grouped_isDigit : ∀ c ∈ d.grouped, c.isDigit = true := by
  intro c member
  simp only [grouped, List.mem_append, List.mem_replicate] at member
  rcases member with (⟨_, rfl⟩ | inside) | ⟨_, rfl⟩
  · rfl
  · exact d.digits_isDigit c inside
  · rfl

/-- All groups, and what the first of them counts. -/
def allGroups : List Nat := (chunksExact d.grouped).map groupValue

def topWeight : Int := ((d.point.toNat + 3) / 4 : Nat) - 1

theorem allGroups_length : d.allGroups.length = (d.point.toNat + 3) / 4 + (d.scale + 3) / 4 := by
  rw [allGroups, List.length_map, chunksExact_count, grouped_length, padded]
  omega

theorem allGroups_small : ∀ group ∈ d.allGroups, group < 10000 := by
  intro group member
  obtain ⟨chunk, inside, rfl⟩ := List.mem_map.mp member
  exact groupValue_lt (fun c which => d.grouped_isDigit c (chunksExact_mem inside c which)) (chunksExact_length _ _ inside)

/-- The groups are the number. -/
theorem allGroups_expansion : signed d.negative (expansion (10000 : Rat) d.topWeight d.allGroups) = d.number := by
  have even : d.grouped.length % 4 = 0 := by
    rw [grouped_length, padded]
    omega
  have blocks : ∀ block ∈ (chunksExact d.grouped).map (List.map digitOf), block.length = 4 := by
    intro block member
    obtain ⟨chunk, inside, rfl⟩ := List.mem_map.mp member
    rw [List.length_map, chunksExact_length _ _ inside]
  have base : (10000 : Rat) = ((10 : Nat) : Rat) ^ 4 := by norm_num
  have zero (count : Nat) : (List.replicate count '0').map digitOf = List.replicate count 0 := by simp [digitOf]
  have top : ((4 : Nat) : Int) * d.topWeight + (4 : Nat) - 1 - ((d.point.toNat + 3) / 4 * 4 - d.point.toNat : Nat) =
      d.point.toNat - 1 := by
    simp only [topWeight]
    omega
  have ten : ((10 : Nat) : Rat) ≠ 0 := by norm_num
  have regroup := expansion_groups ten blocks d.topWeight
  rw [List.map_map, ← List.map_flatten, chunksExact_flatten _ even, grouped, List.map_append, List.map_append, zero,
    zero, expansion_trailing, expansion_leading, top] at regroup
  rw [base, ← d.digits_expansion, ← regroup]
  rfl

/-- What is sent for the number. -/
def numeric : PostgresNumeric :=
  let trimmed := dropLeading d.topWeight d.allGroups
  let groups := dropTrailing trimmed.2
  ⟨groups.length, if groups.isEmpty then 0 else trimmed.1, if d.negative then 0x4000 else 0, d.scale, groups⟩

end Decimal

end Groups

section Sending

/-- The words of a number, as they are sent. -/
def PostgresNumeric.bytes (numeric : PostgresNumeric) : Wire.Bytes :=
  ([numeric.ndigits, numeric.weight, (numeric.sign : Int), (numeric.dscale : Int)] ++
    numeric.groups.map Nat.cast).flatMap toBeBytes

/-- The numbers a signed or an unsigned word holds. -/
def FitsWord (n : Int) : Prop := -2 ^ 15 ≤ n ∧ n < 2 ^ 16

theorem readWords_toBeBytes {words : List Int} :
    readWords (words.flatMap toBeBytes) = some (words.map fun n => (n % 2 ^ 16).toNat) := by
  induction words with
  | nil => rfl
  | cons n rest ih =>
    have small : (n % 2 ^ 16).toNat < 2 ^ 16 := by omega
    generalize word : (n % 2 ^ 16).toNat = m at small
    have bytes : toBeBytes n = [UInt8.ofNat (m / 256), UInt8.ofNat m] := by
      rw [toBeBytes, word]
      rfl
    have whole : (UInt8.ofNat (m / 256)).toNat * 2 ^ 8 + (UInt8.ofNat m).toNat = m := by
      simp only [UInt8.toNat_ofNat']
      omega
    rw [List.flatMap_cons, bytes, List.map_cons, word]
    simp only [List.cons_append, List.nil_append, readWords, ih, whole]
    rfl

theorem signedWord_mod {n : Int} (low : -2 ^ 15 ≤ n) (high : n < 2 ^ 15) : signedWord (n % 2 ^ 16).toNat = n := by
  simp only [signedWord]
  split <;> omega

theorem readNumeric_bytes {numeric : PostgresNumeric} (count : numeric.ndigits < 2 ^ 15) (natural : 0 ≤ numeric.ndigits)
    (low : -2 ^ 15 ≤ numeric.weight) (high : numeric.weight < 2 ^ 15) (sign : numeric.sign < 2 ^ 16)
    (scale : numeric.dscale < 2 ^ 16) (small : ∀ group ∈ numeric.groups, group < 10000) :
    readNumeric numeric.bytes = some numeric := by
  have groups : numeric.groups.map ((fun n : Int => (n % 2 ^ 16).toNat) ∘ Nat.cast) = numeric.groups := by
    refine (List.map_congr_left fun group member => ?_).trans (List.map_id _)
    have bound := small group member
    simp only [Function.comp_apply, id_eq]
    omega
  have signWord : ((numeric.sign : Int) % 2 ^ 16).toNat = numeric.sign := by omega
  have scaleWord : ((numeric.dscale : Int) % 2 ^ 16).toNat = numeric.dscale := by omega
  rw [readNumeric, PostgresNumeric.bytes, readWords_toBeBytes, List.map_append, List.map_map, groups]
  simp only [List.map_cons, List.map_nil, List.cons_append, List.nil_append,
    signedWord_mod (by omega : -2 ^ 15 ≤ numeric.ndigits) count, signedWord_mod low high, signWord, scaleWord]

/-- What is sent denotes the number, in the one way the server keeps it. -/
structure PostgresNumeric.Denotes (numeric : PostgresNumeric) (d : Decimal) : Prop where
  count : numeric.ndigits = numeric.groups.length
  small : ∀ group ∈ numeric.groups, group < 10000
  first : numeric.groups.head? ≠ some 0
  last : numeric.groups.getLast? ≠ some 0
  sign : numeric.sign = if d.negative then 0x4000 else 0
  dscale : numeric.dscale = d.scale
  number : numeric.number = d.number

theorem Decimal.numeric_denotes (d : Decimal) : d.numeric.Denotes d where
  count := rfl
  small group member := d.allGroups_small group (mem_dropLeading (mem_dropTrailing member))
  first := by
    obtain ⟨count, dropped, _, first⟩ := dropLeading_eq d.topWeight d.allGroups
    apply dropTrailing_head
    rw [dropped]
    exact first
  last := dropTrailing_last _
  sign := rfl
  dscale := rfl
  number := by
    have sign : d.numeric.negative = d.negative := by
      cases negative : d.negative <;> simp [PostgresNumeric.negative, Decimal.numeric, negative]
    have kept := (dropTrailing_expansion (dropLeading d.topWeight d.allGroups).1 _).trans
      (dropLeading_expansion (10000 : Rat) d.topWeight d.allGroups)
    have same : expansion (10000 : Rat) d.numeric.weight d.numeric.groups =
        expansion 10000 d.topWeight d.allGroups := by
      rw [← kept, Decimal.numeric]
      generalize dropLeading d.topWeight d.allGroups = trimmed
      cases empty : dropTrailing trimmed.2 with
      | nil => rfl
      | cons group rest => rfl
    rw [PostgresNumeric.number, sign, ← expansion_eq_sum, same, d.allGroups_expansion]

/-- A number is sent if its counts fit. -/
def Decimal.sent (d : Decimal) : Encoded Wire.Bytes :=
  if 2 ^ 31 ≤ (d.point.toNat + 3) / 4 then .error (.refused .tryFromInt)
  else if 2 ^ 15 ≤ d.numeric.groups.length then
    .error (.refused (.message "postgres numeric has too many base-10000 digits"))
  else if d.numeric.weight < -2 ^ 15 ∨ 2 ^ 15 ≤ d.numeric.weight then
    .error (.refused (.message "postgres numeric weight exceeds i16 range"))
  else .ok d.numeric.bytes

theorem Decimal.sent_cases (d : Decimal) (scale : d.scale < 2 ^ 16) :
    (∃ error, d.sent = .error (.refused error)) ∨
      d.sent = .ok d.numeric.bytes ∧ readNumeric d.numeric.bytes = some d.numeric := by
  have denotes := d.numeric_denotes
  rw [sent]
  split
  next => exact .inl ⟨_, rfl⟩
  next =>
    split
    next => exact .inl ⟨_, rfl⟩
    next few =>
      split
      next => exact .inl ⟨_, rfl⟩
      next inside =>
        have count := denotes.count
        have sign : d.numeric.sign < 2 ^ 16 := by
          rw [denotes.sign]
          split <;> decide
        exact .inr ⟨rfl, readNumeric_bytes (by omega) (by omega) (by omega) (by omega) sign scale denotes.small⟩

variable (memory : Memory)

/-- The encoder on a written number whose digits fit. -/
theorem postgresDecimalToSql_written {text : String} {d : Decimal} (written : Written text d)
    (shown : d.shown ≤ memory.room) :
    postgresDecimalToSql memory text =
      if 2 ^ 16 ≤ d.scale then .error (.refused (.message "postgres numeric scale exceeds u16 range"))
      else if d.padded ≤ memory.room then d.sent
      else .error .panic := by
  have parts : parseDecimalParts memory text = .ok (d.negative, d.digits, (d.point.toNat : Int)) := by
    rw [parseDecimalParts_written memory written, placed, if_pos shown]
  have behind : d.digits.length - d.point.toNat = d.scale := by
    rw [d.digits_length, Decimal.shown]
    omega
  have length := d.grouped_length
  rw [Decimal.grouped, List.length_append, List.length_append, List.length_replicate, List.length_replicate] at length
  rw [postgresDecimalToSql, parts, ok_bind]
  simp only [usizeOfI64_nat (Int.natCast_nonneg _), ok_bind, Int.toNat_natCast, behind]
  split
  next => rfl
  next small =>
    rw [reserve_bind, length]
    split
    next =>
      have groups := parseGroups d.grouped_isDigit
      rw [Decimal.grouped] at groups
      rw [groups, ok_bind, i32OfUsize, Decimal.sent]
      by_cases many : (d.point.toNat + 3) / 4 < 2 ^ 31
      · have counted : -2 ^ 31 ≤ d.topWeight - d.allGroups.length := by
          rw [d.allGroups_length, Decimal.topWeight]
          omega
        rw [if_pos many, if_neg (not_le.mpr many), ok_bind]
        have removed := removeLeading_eq counted
        rw [Decimal.topWeight, Decimal.allGroups, Decimal.grouped] at removed
        rw [removed]
        rfl
      · rw [if_neg many, if_pos (not_lt.mp many)]
        rfl
    next => rfl

/-- There is room for the digits of every number the text writes, and for its groups where they
are made. -/
def RoomFor (text : String) : Prop :=
  ∀ d, Written text d → d.shown ≤ memory.room ∧ (d.scale < 2 ^ 16 → d.padded ≤ memory.room)

/-- A text reaches the server as the number it writes: nothing panics, and what is sent denotes
exactly the number. -/
structure ReachesExactly (text : String) : Prop where
  partsRun : parseDecimalParts memory text ≠ .error .panic
  runs : postgresDecimalToSql memory text ≠ .error .panic
  parts : ∀ negative digits position, parseDecimalParts memory text = .ok (negative, digits, position) →
    ∃ d, Written text d ∧ negative = d.negative ∧ (∀ c ∈ digits, c.isDigit = true) ∧
      signed negative (expansion ((10 : Nat) : Rat) (position - 1) (digits.map digitOf)) = d.number
  exact : ∀ bytes, postgresDecimalToSql memory text = .ok bytes →
    ∃ d numeric, Written text d ∧ readNumeric bytes = some numeric ∧ numeric.Denotes d

theorem reachesExactly_written {text : String} {d : Decimal} (written : Written text d)
    (shown : d.shown ≤ memory.room) (padded : d.scale < 2 ^ 16 → d.padded ≤ memory.room) :
    ReachesExactly memory text := by
  have parts : parseDecimalParts memory text = .ok (d.negative, d.digits, (d.point.toNat : Int)) := by
    rw [parseDecimalParts_written memory written, placed, if_pos shown]
  have sends : (∃ error, postgresDecimalToSql memory text = .error (.refused error)) ∨
      postgresDecimalToSql memory text = .ok d.numeric.bytes ∧ readNumeric d.numeric.bytes = some d.numeric := by
    rw [postgresDecimalToSql_written memory written shown]
    by_cases large : 2 ^ 16 ≤ d.scale
    · exact .inl ⟨_, if_pos large⟩
    · rw [if_neg large, if_pos (padded (not_le.mp large))]
      exact d.sent_cases (not_le.mp large)
  refine ⟨?_, ?_, fun negative digits position found => ?_, fun bytes found => ?_⟩
  · rw [parts]
    exact fun panics => nomatch panics
  · rcases sends with ⟨error, refused⟩ | ⟨ok, _⟩
    · rw [refused]
      exact fun panics => nomatch panics
    · rw [ok]
      exact fun panics => nomatch panics
  · cases parts.symm.trans found
    exact ⟨d, written, rfl, d.digits_isDigit, d.digits_expansion⟩
  · rcases sends with ⟨error, refused⟩ | ⟨ok, read⟩
    · cases refused.symm.trans found
    · cases ok.symm.trans found
      exact ⟨d, d.numeric, written, read, d.numeric_denotes⟩

/-- A decimal text reaches the server exactly, without a panic, if and only if there is room for
the digits it writes. -/
theorem postgres_decimal_exact_iff (text : String) : ReachesExactly memory text ↔ RoomFor memory text := by
  constructor
  · intro reaches d written
    have parts := reaches.partsRun
    rw [parseDecimalParts_written memory written, placed] at parts
    have shown : d.shown ≤ memory.room := by
      by_contra large
      exact parts (if_neg large)
    refine ⟨shown, fun small => ?_⟩
    have runs := reaches.runs
    rw [postgresDecimalToSql_written memory written shown, if_neg (not_le.mpr small)] at runs
    by_contra large
    exact runs (if_neg large)
  · intro room
    rcases parseDecimalParts_cases memory text with ⟨d, written⟩ | ⟨error, refused⟩
    · exact reachesExactly_written memory written (room d written).1 (room d written).2
    · have stops : postgresDecimalToSql memory text = .error (.refused error) := by
        rw [postgresDecimalToSql, refused]
        rfl
      refine ⟨?_, ?_, fun _ _ _ found => ?_, fun _ found => ?_⟩
      · rw [refused]
        exact fun panics => nomatch panics
      · rw [stops]
        exact fun panics => nomatch panics
      · cases refused.symm.trans found
      · cases stops.symm.trans found

/-- An exponent at the end of its range overflows the position of the point. -/
theorem postgres_decimal_overflows : ¬ReachesExactly Memory.largest "1e9223372036854775807" :=
  fun reaches => reaches.partsRun (by decide +kernel)

end Sending

end Axonyx.Runtime
