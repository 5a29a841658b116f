import Mathlib.Algebra.BigOperators.Fin
import Mathlib.Algebra.Field.Rat
import Mathlib.Algebra.GroupWithZero.Basic
import Mathlib.Data.List.DropRight
import Mathlib.Tactic.Ring
import Mathlib.Tactic.Linarith

/-! Positional notation with a point: digits of a base, most significant first, the first of them
counting a given power of the base. Zeros at either end change nothing, and the digits may be
read in groups as digits of a power of the base. -/
namespace Positional

variable {K : Type} [Field K]

/-- The number that digits write, the first of them counting `base ^ weight`. -/
def expansion (base : K) : Int → List Nat → K
  | _, [] => 0
  | weight, digit :: rest => digit * base ^ weight + expansion base (weight - 1) rest

/-- The natural number that digits write. -/
def value (base : Nat) (digits : List Nat) : Nat := digits.foldl (fun n digit => n * base + digit) 0

theorem value_append (base : Nat) (digits : List Nat) (digit : Nat) :
    value base (digits ++ [digit]) = value base digits * base + digit := by
  simp [value, List.foldl_append]

/-- Digits below the base write a number below its power. -/
theorem value_lt {base : Nat} {digits : List Nat} (small : ∀ digit ∈ digits, digit < base) :
    value base digits < base ^ digits.length := by
  induction digits using List.reverseRecOn with
  | nil => exact Nat.one_pos
  | append_singleton front digit ih =>
    have before := ih fun d member => small d (List.mem_append_left _ member)
    have last := small digit (List.mem_append_right _ (List.mem_singleton_self _))
    rw [value_append, List.length_append, List.length_singleton, pow_succ]
    calc value base front * base + digit < value base front * base + base := by omega
      _ = (value base front + 1) * base := by ring
      _ ≤ base ^ front.length * base := Nat.mul_le_mul_right _ before

section Expansions

variable {base : K}

theorem expansion_append (weight : Int) (front back : List Nat) :
    expansion base weight (front ++ back) =
      expansion base weight front + expansion base (weight - front.length) back := by
  induction front generalizing weight with
  | nil => simp [expansion]
  | cons digit rest ih =>
    have next : weight - 1 - rest.length = weight - (rest.length + 1 : Nat) := by push_cast; ring
    simp only [List.cons_append, expansion, List.length_cons, ih, next]
    ring

@[simp] theorem expansion_zeros (weight : Int) (count : Nat) :
    expansion base weight (List.replicate count 0) = 0 := by
  induction count generalizing weight with
  | zero => rfl
  | succ count ih => simp [List.replicate_succ, expansion, ih]

theorem expansion_leading (weight : Int) (count : Nat) (digits : List Nat) :
    expansion base weight (List.replicate count 0 ++ digits) = expansion base (weight - count) digits := by
  simp [expansion_append]

theorem expansion_trailing (weight : Int) (digits : List Nat) (count : Nat) :
    expansion base weight (digits ++ List.replicate count 0) = expansion base weight digits := by
  simp [expansion_append]

/-- The digits as a natural number, moved to where the point stands. -/
theorem expansion_eq_value {base : Nat} (positive : (base : K) ≠ 0) (weight : Int) (digits : List Nat) :
    expansion (base : K) weight digits =
      value base digits * (base : K) ^ (weight + 1 - digits.length) := by
  induction digits using List.reverseRecOn generalizing weight with
  | nil => simp [expansion, value]
  | append_singleton front digit ih =>
    have last : weight + 1 - ((front ++ [digit]).length : Int) = weight - front.length := by
      simp
    have shift : (base : K) ^ (weight + 1 - front.length) = base * (base : K) ^ (weight - front.length) := by
      rw [← zpow_one_add₀ positive]
      ring_nf
    rw [expansion_append, ih, value_append, last, shift]
    simp only [expansion]
    push_cast
    ring

/-- Digits in groups of one size are digits of a power of the base. -/
theorem expansion_groups {base : Nat} (positive : (base : K) ≠ 0) {size : Nat} {groups : List (List Nat)}
    (even : ∀ group ∈ groups, group.length = size) (weight : Int) :
    expansion ((base : K) ^ size) weight (groups.map (value base)) =
      expansion (base : K) (size * weight + size - 1) groups.flatten := by
  induction groups generalizing weight with
  | nil => rfl
  | cons group rest ih =>
    have first : group.length = size := even group List.mem_cons_self
    have head : (size : Int) * weight + size - 1 + 1 - group.length = size * weight := by
      rw [first]
      ring
    have tail : (size : Int) * weight + size - 1 - group.length = size * (weight - 1) + size - 1 := by
      rw [first]
      ring
    rw [List.map_cons, List.flatten_cons, expansion_append, expansion_eq_value positive, head, tail,
      ← ih (fun g member => even g (List.mem_cons_of_mem _ member)), zpow_mul, zpow_natCast]
    rfl

/-- The expansion as a sum over the positions. -/
theorem expansion_eq_sum (weight : Int) (digits : List Nat) :
    expansion base weight digits = ∑ i : Fin digits.length, (digits[i] : K) * base ^ (weight - i) := by
  induction digits generalizing weight with
  | nil => rfl
  | cons digit rest ih =>
    rw [expansion, ih]
    simp only [List.length_cons, Fin.sum_univ_succ, Fin.getElem_fin, Fin.val_zero, List.getElem_cons_zero,
      Nat.cast_zero, sub_zero, Fin.val_succ, List.getElem_cons_succ]
    congr 1
    refine Finset.sum_congr rfl fun i _ => ?_
    push_cast
    ring_nf

end Expansions

section Trimming

/-- Zeros in front are dropped, and the weight of the first digit is counted down. -/
def dropLeading : Int → List Nat → Int × List Nat
  | weight, 0 :: rest => dropLeading (weight - 1) rest
  | weight, digits => (weight, digits)

def dropTrailing (digits : List Nat) : List Nat := digits.rdropWhile (· == 0)

variable {base : K}

theorem dropLeading_eq (weight : Int) (digits : List Nat) : ∃ count : Nat,
    dropLeading weight digits = (weight - count, digits.drop count) ∧
      digits = List.replicate count 0 ++ digits.drop count ∧ (digits.drop count).head? ≠ some 0 := by
  induction digits generalizing weight with
  | nil => exact ⟨0, by simp [dropLeading]⟩
  | cons digit rest ih =>
    cases digit with
    | zero =>
      obtain ⟨count, dropped, zeros, first⟩ := ih (weight - 1)
      have down : weight - 1 - (count : Int) = weight - (count + 1 : Nat) := by push_cast; ring
      refine ⟨count + 1, ?_, ?_, first⟩
      · rw [dropLeading, dropped, down]
        rfl
      · rw [List.replicate_succ, List.cons_append, List.drop_succ_cons, ← zeros]
    | succ digit => exact ⟨0, by simp [dropLeading]⟩

theorem dropLeading_expansion (base : K) (weight : Int) (digits : List Nat) :
    expansion base (dropLeading weight digits).1 (dropLeading weight digits).2 = expansion base weight digits := by
  obtain ⟨count, dropped, zeros, _⟩ := dropLeading_eq weight digits
  rw [dropped]
  exact (expansion_leading weight count _).symm.trans (congrArg _ zeros.symm)

theorem dropTrailing_expansion (weight : Int) (digits : List Nat) :
    expansion base weight (dropTrailing digits) = expansion base weight digits := by
  induction digits using List.reverseRecOn with
  | nil => rfl
  | append_singleton front digit ih =>
    by_cases zero : digit = 0
    · subst zero
      have single : expansion base weight (front ++ [0]) = expansion base weight front :=
        expansion_trailing weight front 1
      rw [dropTrailing, List.rdropWhile_concat_pos _ _ _ rfl]
      exact ih.trans single.symm
    · rw [dropTrailing, List.rdropWhile_concat_neg _ _ _ (by simpa using zero)]

/-- What the digits start with is kept when zeros at the end go. -/
theorem dropTrailing_head {digits : List Nat} (first : digits.head? ≠ some 0) :
    (dropTrailing digits).head? ≠ some 0 := by
  obtain ⟨rest, whole⟩ : dropTrailing digits <+: digits := List.rdropWhile_prefix _ _
  intro zero
  apply first
  rw [← whole, List.head?_append, zero]
  rfl

theorem dropTrailing_last (digits : List Nat) : (dropTrailing digits).getLast? ≠ some 0 := by
  intro zero
  have present : dropTrailing digits ≠ [] := by
    rintro nothing
    rw [nothing] at zero
    cases zero
  apply List.rdropWhile_last_not (· == 0) digits present
  rw [List.getLast?_eq_getLast_of_ne_nil present] at zero
  simpa [dropTrailing] using Option.some.inj zero

theorem mem_dropLeading {weight : Int} {digits : List Nat} {digit : Nat}
    (member : digit ∈ (dropLeading weight digits).2) : digit ∈ digits := by
  obtain ⟨count, dropped, _⟩ := dropLeading_eq weight digits
  rw [dropped] at member
  exact List.mem_of_mem_drop member

theorem mem_dropTrailing {digits : List Nat} {digit : Nat} (member : digit ∈ dropTrailing digits) :
    digit ∈ digits :=
  (List.rdropWhile_prefix _ _).subset member

end Trimming

end Positional
