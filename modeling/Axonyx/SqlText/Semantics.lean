import Axonyx.Sorting
import Axonyx.SqlText.Syntax

/-! What a `select` admits and which rows an `update` or a `delete` selects: comparisons with
a null are unknown, a join is a bag of combinations, and rows come in any order that the keys
allow. Values of different kinds are never equal; a column that a row lacks is null. -/
namespace SqlText

section Values

inductive Value where
  | null
  | int (n : Int64)
  | text (text : String)
  | bool (b : Bool)
  deriving DecidableEq, Repr

abbrev Row := List (String × Value)

abbrev Database := String → List Row

/-- The rows that a condition is about, each with the name of its table. -/
abbrev Env := List (String × Row)

def Row.value (row : Row) (column : String) : Value := (row.lookup column).getD .null

def Env.value (env : Env) : ColumnRef → Value
  | ⟨some table, column⟩ => Row.value ((env.lookup table).getD []) column
  | ⟨none, column⟩ => (env.findSome? fun entry => entry.2.lookup column).getD .null

end Values

section Truth

/-- `none` is unknown. -/
abbrev Truth := Option Bool

def Truth.or : Truth → Truth → Truth
  | some true, _ | _, some true => some true
  | some false, truth | truth, some false => truth
  | none, none => none

def Truth.not (truth : Truth) : Truth := truth.map Bool.not

def Comparison.holds : Comparison → Value → Value → Truth
  | _, .null, _ | _, _, .null => none
  | .eq, a, b => some (a = b)
  | .ne, a, b => some (a ≠ b)

def isIn (value : Value) (values : List Value) : Truth :=
  values.foldr (fun other found => Truth.or (Comparison.eq.holds value other) found) (some false)

variable {V : Type} (parameter : V → Value)

def Operand.denote (env : Env) : Operand V → Value
  | .column ref => env.value ref
  | .value v => parameter v
  | .number n => .int (.ofNat n)

def Predicate.holds (env : Env) : Predicate V → Truth
  | .compare left op right => op.holds (left.denote parameter env) (right.denote parameter env)
  | .isNull operand negated => some (decide (operand.denote parameter env = .null) != negated)
  | .inList operand negated values =>
    let found := isIn (operand.denote parameter env) (values.map (Operand.denote parameter env))
    if negated then found.not else found

/-- Every condition is true; unknown is not enough. -/
def meets (env : Env) (predicates : List (Predicate V)) : Bool :=
  predicates.all fun predicate => predicate.holds parameter env = some true

end Truth

section Statements

variable {V : Type} (parameter : V → Value) (db : Database)

/-- The rows of a join that go with the rows before it. -/
def joinRows (env : Env) (join : Join V) : List Row :=
  (db join.table).filter fun row => meets parameter (env ++ [(join.table, row)]) join.on

def combinations : List (Join V) → Env → List Env
  | [], env => [env]
  | join :: rest, env =>
    (joinRows parameter db env join).flatMap fun row =>
      combinations rest (env ++ [(join.table, row)])

def Select.environments (select : Select V) : List Env :=
  (db select.table).flatMap fun row =>
    (combinations parameter db select.joins [(select.table, row)]).filter fun env =>
      meets parameter env select.filters

def Select.project (select : Select V) (env : Env) : Row :=
  match select.star with
  | none => env.flatMap Prod.snd
  | some table => (env.lookup table).getD []

def Value.rank (nullsLow : Bool) : Value → Nat
  | .null => if nullsLow then 0 else 4
  | .int _ => 1
  | .text _ => 2
  | .bool _ => 3

/-- By value; whether a null is below or above all values is up to the database. -/
def Value.le (nullsLow : Bool) : Value → Value → Bool
  | .int a, .int b => a ≤ b
  | .text a, .text b => a ≤ b
  | .bool a, .bool b => a ≤ b
  | a, b => a.rank nullsLow ≤ b.rank nullsLow

def Direction.le {α : Type} (le : α → α → Bool) : Direction → α → α → Bool
  | .asc, a, b => le a b
  | .desc, a, b => le b a

def keyLe (nullsLow : Bool) (key : ColumnRef × Direction) (a b : Env) : Bool :=
  key.2.le (Value.le nullsLow) (a.value key.1) (b.value key.1)

/-- The rows from `offset` on, at most `limit` of them. -/
def page {α : Type} (limit : Option Nat) (offset : Option Nat) (rows : List α) : List α :=
  let rows := rows.drop (offset.getD 0)
  match limit with
  | none => rows
  | some limit => rows.take limit

/-- The database may answer the `select` with these rows. -/
def Select.Admits (select : Select V) (rows : List Row) : Prop :=
  ∃ nullsLow ordered, List.Perm ordered (select.environments parameter db) ∧
    ordered.Pairwise (Sorting.Lex (select.orders.map (keyLe nullsLow))) ∧
    rows = (page select.limit select.offset ordered).map select.project

/-- A statement on one table selects the row. -/
def selects (table : String) (filters : List (Predicate V)) (row : Row) : Bool :=
  meets parameter [(table, row)] filters

end Statements

section Rules

theorem holds_eq {a b : Value} :
    Comparison.eq.holds a b = some true ↔ a = b ∧ a ≠ .null := by
  cases a <;> cases b <;> simp [Comparison.holds]

theorem holds_ne {a b : Value} :
    Comparison.ne.holds a b = some true ↔ a ≠ b ∧ a ≠ .null ∧ b ≠ .null := by
  cases a <;> cases b <;> simp [Comparison.holds]

theorem holds_eq_false {a b : Value} :
    Comparison.eq.holds a b = some false ↔ a ≠ b ∧ a ≠ .null ∧ b ≠ .null := by
  cases a <;> cases b <;> simp [Comparison.holds]

theorem or_true {a b : Truth} : Truth.or a b = some true ↔ a = some true ∨ b = some true := by
  rcases a with _ | _ | _ <;> rcases b with _ | _ | _ <;> decide

theorem or_false {a b : Truth} : Truth.or a b = some false ↔ a = some false ∧ b = some false := by
  rcases a with _ | _ | _ <;> rcases b with _ | _ | _ <;> decide

theorem not_true {truth : Truth} : truth.not = some true ↔ truth = some false := by
  rcases truth with _ | _ | _ <;> decide

theorem isIn_true {value : Value} {values : List Value} :
    isIn value values = some true ↔ value ∈ values ∧ value ≠ .null := by
  induction values with
  | nil => simp [isIn]
  | cons other rest ih =>
    rw [isIn, List.foldr_cons, ← isIn, or_true, holds_eq, ih, List.mem_cons, ← or_and_right]

theorem isIn_false {value : Value} {values : List Value} :
    isIn value values = some false ↔
      value ∉ values ∧ (values ≠ [] → value ≠ .null ∧ .null ∉ values) := by
  induction values with
  | nil => simp [isIn]
  | cons other rest ih =>
    rw [isIn, List.foldr_cons, ← isIn, or_false, holds_eq_false, ih]
    cases rest with
    | nil => simp [eq_comm]
    | cons => simp only [List.mem_cons, ne_eq, reduceCtorEq, not_false_eq_true, true_implies]; tauto

theorem meets_iff {V : Type} {parameter : V → Value} {env : Env} {predicates : List (Predicate V)} :
    meets parameter env predicates = true ↔
      ∀ predicate ∈ predicates, predicate.holds parameter env = some true := by
  simp [meets]

end Rules

end SqlText
