import Mathlib.Algebra.Group.Nat.Defs
import Mathlib.Data.Option.Basic

/-! Computations that may refuse their input and may also go wrong: an index or a slice out of
range, a sum past the machine's word, a push onto a full stack, a loop that does not end. What
goes wrong is told apart from what is refused. -/
namespace Guarded

inductive Fault where
  | overflow
  | outOfRange
  | full
  | endless
  deriving DecidableEq, Repr

abbrev Guarded (α : Type) := OptionT (Except Fault) α

variable {α β : Type}

def fault (reason : Fault) : Guarded α := OptionT.mk (.error reason)

/-- Nothing went wrong; the input may still be refused. -/
def returns (result : Option α) : Guarded α := OptionT.mk (.ok result)

def refuse : Guarded α := returns none

section Rules

theorem pure_returns (value : α) : (pure value : Guarded α) = returns (some value) := rfl

/-- What goes well goes on with its value. -/
theorem bind_returns {first : Guarded α} {result : Option α} {next : α → Guarded β}
    {rest : α → Option β} (start : first = returns result)
    (later : ∀ value, result = some value → next value = returns (rest value)) :
    (first >>= next) = returns (result.bind rest) := by
  subst start
  cases result with
  | none => rfl
  | some value => exact later value rfl

theorem returns_some_bind (value : α) (next : α → Guarded β) :
    (returns (some value) >>= next) = next value := rfl

theorem returns_none_bind (next : α → Guarded β) :
    ((returns none : Guarded α) >>= next) = refuse := rfl

theorem returns_injective {a b : Option α} (same : (returns a : Guarded α) = returns b) : a = b :=
  Except.ok.inj same

end Rules

section Words

/-- The addresses of a machine: a word counts up to `range`. -/
structure Usize where
  range : Nat
  wide : 2 ^ 32 ≤ range

def Usize.wasm32 : Usize := ⟨2 ^ 32, by decide⟩
def Usize.native64 : Usize := ⟨2 ^ 64, by decide⟩

variable (usize : Usize)

/-- The sum as `+` gives it. -/
def plus (a b : Nat) : Guarded Nat :=
  if a + b < usize.range then pure (a + b) else fault .overflow

/-- The sum as `checked_add` gives it. -/
def checkedSum (a b : Nat) : Option Nat := if a + b < usize.range then some (a + b) else none

variable {usize}

theorem plus_returns {a b : Nat} (small : a + b < usize.range) :
    plus usize a b = returns (some (a + b)) := by
  rw [plus, if_pos small, pure_returns]

theorem checkedSum_of_lt {a b : Nat} (small : a + b < usize.range) :
    checkedSum usize a b = some (a + b) := if_pos small

end Words

section Slices

/-- `items[index]`. -/
def itemAt (items : List α) (index : Nat) : Guarded α :=
  match items[index]? with
  | some item => pure item
  | none => fault .outOfRange

/-- `&items[start..]`. -/
def sliceFrom (items : List α) (start : Nat) : Guarded (List α) :=
  if start ≤ items.length then pure (items.drop start) else fault .outOfRange

/-- `&items[..stop]`. -/
def sliceTo (items : List α) (stop : Nat) : Guarded (List α) :=
  if stop ≤ items.length then pure (items.take stop) else fault .outOfRange

/-- `items.get(start..stop)`. -/
def slice? (items : List α) (start stop : Nat) : Option (List α) :=
  if start ≤ stop ∧ stop ≤ items.length then some ((items.drop start).take (stop - start)) else none

variable {items : List α}

theorem itemAt_returns {index : Nat} (inside : index < items.length) :
    itemAt items index = returns (some items[index]) := by
  rw [itemAt, List.getElem?_eq_getElem inside]
  rfl

theorem sliceFrom_returns {start : Nat} (inside : start ≤ items.length) :
    sliceFrom items start = returns (some (items.drop start)) := by
  rw [sliceFrom, if_pos inside, pure_returns]

theorem sliceTo_returns {stop : Nat} (inside : stop ≤ items.length) :
    sliceTo items stop = returns (some (items.take stop)) := by
  rw [sliceTo, if_pos inside, pure_returns]

end Slices

section Stacks

/-- One more value on a stack that has room for `room` of them; the top is the head. -/
def push (room : Nat) (stack : List α) (value : α) : Guarded (List α) :=
  if stack.length < room then pure (value :: stack) else fault .full

theorem push_returns {room : Nat} {stack : List α} (value : α) (free : stack.length < room) :
    push room stack value = returns (some (value :: stack)) := by
  rw [push, if_pos free, pure_returns]

/-- `stack.split_off(start)`: what lies above `start`, lowest first, and the rest. -/
def splitOff (stack : List α) (start : Nat) : Guarded (List α × List α) :=
  if start ≤ stack.length then
    pure ((stack.take (stack.length - start)).reverse, stack.drop (stack.length - start))
  else fault .outOfRange

theorem splitOff_returns {stack : List α} {count : Nat} (inside : count ≤ stack.length) :
    splitOff stack (stack.length - count) =
      returns (some ((stack.take count).reverse, stack.drop count)) := by
  rw [splitOff, if_pos (Nat.sub_le _ _), Nat.sub_sub_self inside, pure_returns]

end Stacks

end Guarded
