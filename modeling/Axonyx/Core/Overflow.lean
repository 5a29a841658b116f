import Axonyx.Core.Expr
import Axonyx.Ieee

/-! The integer operations of an evaluation. Each has its exact value or an error as its
outcome, unless the exact value of a difference, a product, a negation or a quotient does not
fit into 64 bits: then it wraps around or panics. -/
namespace Axonyx.Core

variable {F : Type} [Float64 F]

section Steps

inductive IntegerOp where
  | add | sub | mul | div | rem
  deriving DecidableEq, Repr

def IntegerOp.binary : IntegerOp → AxBinaryOp
  | .add => .add
  | .sub => .sub
  | .mul => .mul
  | .div => .div
  | .rem => .rem

/-- The exact value; division rounds towards zero and has none for the divisor zero. -/
def IntegerOp.exact : IntegerOp → Int → Int → Int
  | .add, a, b => a + b
  | .sub, a, b => a - b
  | .mul, a, b => a * b
  | .div, a, b => a.tdiv b
  | .rem, a, b => a.tmod b

/-- An integer operation with the operands that it gets. -/
inductive IntegerStep (F : Type) [Float64 F] where
  | neg (operand : Int64)
  | binary (op : IntegerOp) (left right : Int64)
  | index (items : List (AxValue F)) (position : Int64)

/-- What the evaluator does with the operands. -/
def IntegerStep.outcome (overflowChecks : Bool) : IntegerStep F → Eval (AxValue F)
  | .neg operand => evalUnaryExpr overflowChecks .neg (.number operand)
  | .binary op left right => evalBinaryExpr overflowChecks op.binary (.number left) (.number right)
  | .index items position => evalIndexExpr (.list items) (.number position)

/-- The mathematical result. A position has the item there, or null without one. -/
def IntegerStep.IsExact : IntegerStep F → AxValue F → Prop
  | .neg operand, value => ∃ n : Int64, value = .number n ∧ n.toInt = -operand.toInt
  | .binary op left right, value => ∃ n : Int64, value = .number n ∧
      n.toInt = op.exact left.toInt right.toInt
  | .index items position, value =>
    (∀ n : Nat, position.toInt = n → items[n]? = some value ∨ items.length ≤ n ∧ value = .null) ∧
      (position.toInt < 0 → value = .null)

/-- The exact result or an error. -/
def IntegerStep.Sound (overflowChecks : Bool) (step : IntegerStep F) : Prop :=
  (∃ value, step.outcome overflowChecks = .ok value ∧ step.IsExact value) ∨
    ∃ error, step.outcome overflowChecks = .error (.error error)

/-- The exact result of the operation fits into 64 bits, where nothing checks that it does. -/
def IntegerStep.InRange : IntegerStep F → Prop
  | .neg operand => operand ≠ Int64.minValue
  | .binary .sub left right => fitsInt64 (left.toInt - right.toInt) = true
  | .binary .mul left right => fitsInt64 (left.toInt * right.toInt) = true
  | .binary .div left right | .binary .rem left right => ¬(left = Int64.minValue ∧ right = -1)
  | .binary .add _ _ | .index _ _ => True

theorem bmod_fits {n : Int} (fits : fitsInt64 n = true) : n.bmod (2 ^ 64) = n := by
  obtain ⟨low, high⟩ := (fitsInt64_iff n).mp fits
  apply Int.bmod_eq_of_le <;> omega

theorem neg_fits (a : Int64) : fitsInt64 (-a.toInt) = true ↔ a ≠ Int64.minValue := by
  have low := a.le_toInt
  have high := a.toInt_lt
  rw [fitsInt64_iff, ne_eq, ← Int64.toInt_inj, Int64.toInt_minValue]
  omega

/-- An unchecked operation is sound exactly if its exact result fits. -/
theorem rawInt_sound {overflowChecks : Bool} {checked : Option Int64} {wrapped : Int64} {exact : Int}
    (guard : checked = if fitsInt64 exact then some wrapped else none)
    (wraps : wrapped.toInt = exact.bmod (2 ^ 64)) :
    ((∃ value : AxValue F, (rawInt overflowChecks checked wrapped).map .number = .ok value ∧
        ∃ n : Int64, value = .number n ∧ n.toInt = exact) ∨
      ∃ error, (rawInt overflowChecks checked wrapped).map (@AxValue.number F _) = .error (.error error)) ↔
    fitsInt64 exact = true := by
  by_cases fits : fitsInt64 exact = true
  · rw [if_pos fits] at guard
    rw [guard, rawInt]
    refine iff_of_true (.inl ⟨.number wrapped, rfl, wrapped, rfl, ?_⟩) fits
    rw [wraps, bmod_fits fits]
  · rw [if_neg fits] at guard
    rw [guard, rawInt]
    refine iff_of_false ?_ fits
    rintro (⟨value, done, n, rfl, same⟩ | ⟨error, failed⟩)
    · exact fits (same ▸ fits_toInt n)
    · cases overflowChecks <;> cases failed

theorem index_sound (overflowChecks : Bool) (items : List (AxValue F)) (position : Int64) :
    (IntegerStep.index items position).Sound overflowChecks := by
  left
  rw [IntegerStep.outcome, evalIndexExpr]
  by_cases sign : position.toInt < 0
  · rw [if_pos sign]
    refine ⟨.null, rfl, fun n same => ?_, fun _ => rfl⟩
    omega
  · rw [if_neg sign]
    refine ⟨_, rfl, fun n same => ?_, fun negative => absurd negative sign⟩
    have place : position.toInt.toNat = n := by omega
    rw [place]
    cases found : items[n]? with
    | some value => exact .inl rfl
    | none => exact .inr ⟨List.getElem?_eq_none_iff.mp found, rfl⟩

/-- Division and remainder are sound unless the smallest integer is divided by minus one. -/
theorem division_sound {left right : Int64} {checked : Option Int64} {value : Int64} {exact : Int}
    {operator : String} {floatOperation : F → F → F}
    (guard : checked = if right = 0 ∨ left = Int64.minValue ∧ right = -1 then none else some value)
    (same : ¬(left = Int64.minValue ∧ right = -1) → value.toInt = exact) :
    ((∃ result : AxValue F, evalNumericBinary (.number left) (.number right)
          (fun _ _ => rawDivision checked) floatOperation operator true = .ok result ∧
        ∃ n : Int64, result = .number n ∧ n.toInt = exact) ∨
      ∃ error, evalNumericBinary (.number left) (.number right)
          (fun _ _ => rawDivision checked) floatOperation operator true = .error (.error error)) ↔
    ¬(left = Int64.minValue ∧ right = -1) := by
  rw [evalNumericBinary]
  by_cases zero : right = 0
  · have operand : (true && isZeroOperand (.number right : AxValue F)) = true := by simp [isZeroOperand, zero]
    rw [if_pos operand]
    refine iff_of_true (.inr ⟨_, rfl⟩) ?_
    rintro ⟨_, rfl⟩
    revert zero
    decide
  · have operand : ¬(true && isZeroOperand (.number right : AxValue F)) = true := by simp [isZeroOperand, zero]
    rw [if_neg operand, guard]
    by_cases overflow : left = Int64.minValue ∧ right = -1
    · rw [if_pos (.inr overflow), rawDivision]
      refine iff_of_false ?_ (not_not.mpr overflow)
      rintro (⟨_, done, _⟩ | ⟨_, failed⟩)
      · cases done
      · cases failed
    · rw [if_neg (not_or.mpr ⟨zero, overflow⟩), rawDivision]
      exact iff_of_true (.inl ⟨.number value, rfl, value, rfl, same overflow⟩) overflow

theorem divisionRange {left right : Int64} (range : ¬(left = Int64.minValue ∧ right = -1)) :
    (left / right).toInt = left.toInt.tdiv right.toInt := by
  by_cases first : left = Int64.minValue
  · exact Int64.toInt_div_of_ne_right _ _ fun second => range ⟨first, second⟩
  · exact Int64.toInt_div_of_ne_left _ _ first

/-- An integer operation has its exact result or an error as its outcome exactly in range. -/
theorem step_sound_iff (overflowChecks : Bool) (step : IntegerStep F) :
    step.Sound overflowChecks ↔ step.InRange := by
  cases step with
  | neg a =>
    exact (rawInt_sound rfl (Int64.toInt_neg a)).trans (neg_fits a)
  | index items position => exact iff_of_true (index_sound overflowChecks items position) trivial
  | binary op a b =>
    cases op with
    | sub => exact rawInt_sound rfl (Int64.toInt_sub a b)
    | mul => exact rawInt_sound rfl (Int64.toInt_mul a b)
    | div => exact @division_sound F _ a b _ _ _ _ FloatOps.div rfl divisionRange
    | rem => exact @division_sound F _ a b _ _ _ _ FloatOps.rem rfl fun _ => Int64.toInt_mod a b
    | add =>
      refine iff_of_true ?_ trivial
      rw [IntegerStep.Sound, IntegerStep.outcome, IntegerOp.binary, evalBinaryExpr, addValues, checkedAdd]
      by_cases fits : fitsInt64 (a.toInt + b.toInt) = true
      · rw [if_pos fits]
        refine .inl ⟨.number (a + b), rfl, a + b, rfl, ?_⟩
        rw [Int64.toInt_add, bmod_fits fits]
        rfl
      · rw [if_neg fits]
        exact .inr ⟨_, rfl⟩

end Steps

section Runs

def unaryStep : AxUnaryOp → AxValue F → Option (IntegerStep F)
  | .neg, .number operand => some (.neg operand)
  | _, _ => none

def integerOp : AxBinaryOp → Option IntegerOp
  | .add => some .add
  | .sub => some .sub
  | .mul => some .mul
  | .div => some .div
  | .rem => some .rem
  | _ => none

def binaryStep (op : AxBinaryOp) : AxValue F → AxValue F → Option (IntegerStep F)
  | .number left, .number right => (integerOp op).map fun op => .binary op left right
  | _, _ => none

def indexStep : AxValue F → AxValue F → Option (IntegerStep F)
  | .list items, .number position => some (.index items position)
  | _, _ => none

/-- Whether an operator with this left operand evaluates the right one. -/
def needsRight (op : AxBinaryOp) (left : AxValue F) : Bool :=
  match op with
  | .and => isTruthy left
  | .or => !isTruthy left
  | .fallback => left.isNull
  | _ => true

/-- The operations that a call with evaluated arguments performs. -/
abbrev CallSteps (F : Type) [Float64 F] :=
  List String → List (AxValue F) → Scope F → IntegerStep F → Prop

variable (overflowChecks : Bool) (call : Caller F) (callSteps : CallSteps F)

mutual

/-- The evaluation of the expression performs the operation. -/
def Performs (scope : Scope F) : AxExpr F → IntegerStep F → Prop
  | .string _, _ | .number _, _ | .float _, _ | .bool _, _ | .identifier _, _ => False
  | .list items, step => PerformsAny scope items step
  | .object fields, step => PerformsFields scope fields step
  | .unary op expr, step => Performs scope expr step ∨
      ∃ value, evalExpr overflowChecks call scope expr = .ok value ∧ unaryStep op value = some step
  | .binary op left right, step => Performs scope left step ∨
      ∃ first, evalExpr overflowChecks call scope left = .ok first ∧ needsRight op first = true ∧
        (Performs scope right step ∨ ∃ second, evalExpr overflowChecks call scope right = .ok second ∧
          binaryStep op first second = some step)
  | .index object index, step => Performs scope object step ∨
      ∃ first, evalExpr overflowChecks call scope object = .ok first ∧
        (Performs scope index step ∨ ∃ second, evalExpr overflowChecks call scope index = .ok second ∧
          indexStep first second = some step)
  | .member object _, step | .optionalMember object _, step => Performs scope object step
  | .call path args, step => PerformsAny scope args step ∨
      ∃ values, evalExprs overflowChecks call scope args = .ok values ∧ callSteps path values scope step

def PerformsAny (scope : Scope F) : List (AxExpr F) → IntegerStep F → Prop
  | [], _ => False
  | expr :: rest, step => Performs scope expr step ∨
      ∃ value, evalExpr overflowChecks call scope expr = .ok value ∧ PerformsAny scope rest step

def PerformsFields (scope : Scope F) : List (String × AxExpr F) → IntegerStep F → Prop
  | [], _ => False
  | (_, expr) :: rest, step => Performs scope expr step ∨
      ∃ value, evalExpr overflowChecks call scope expr = .ok value ∧ PerformsFields scope rest step

end

/-- The operations in the defaults of the parameters that a call leaves out. -/
def bindSteps (eval : Scope F → AxExpr F → Eval (AxValue F))
    (steps : Scope F → AxExpr F → IntegerStep F → Prop) :
    List (AxComponentParamDef F) → List (AxValue F) → Scope F → IntegerStep F → Prop
  | [], _, _, _ => False
  | param :: params, arg :: args, scope, step =>
    bindSteps eval steps params args (scope.insert param.name arg) step
  | param :: params, [], scope, step =>
    match param.default with
    | some default => steps scope default step ∨
        ∃ value, eval scope default = .ok value ∧
          bindSteps eval steps params [] (scope.insert param.name value) step
    | none => bindSteps eval steps params [] (scope.insert param.name .null) step

variable (server : Server F)

/-- The operations of a call with `depth` nested local functions at most. -/
def callStepsAt : Nat → CallSteps F
  | depth, path, args, scope, step =>
    match resolveFunction server.functions path with
    | some function =>
      match depth with
      | 0 => False
      | depth + 1 =>
        let eval := evalAt server depth
        let steps := Performs server.overflowChecks (callAt server depth) (callStepsAt depth)
        bindSteps eval steps function.params args scope step ∨
          ∃ functionScope, bindParams eval function.params args scope = .ok functionScope ∧
            steps functionScope function.body step
    | none => False

def PerformsAt (depth : Nat) : Scope F → AxExpr F → IntegerStep F → Prop :=
  Performs server.overflowChecks (callAt server depth) (callStepsAt server depth)

end Runs

section Panics

/-- The results of float operations that the evaluator expects. -/
structure FiniteFloats (F : Type) [Float64 F] : Prop where
  neg : ∀ a : F, Binary64.isFinite a = true → Binary64.isFinite (FloatOps.neg a) = true
  ofInt : ∀ n : Int64, Binary64.isFinite (FloatOps.ofInt n : F) = true
  ordered : ∀ a b : F, Binary64.isFinite a = true → Binary64.isFinite b = true →
    (FloatOps.partialCmp a b).isSome = true

variable {overflowChecks : Bool} {call : Caller F} {callSteps : CallSteps F}

theorem finiteFloatValue_calm (value : F) (operator : String) :
    finiteFloatValue value operator ≠ .error .panic := by
  rw [finiteFloatValue]
  split <;> nofun

/-- Every operation is in range. -/
def Safe (steps : IntegerStep F → Prop) : Prop := ∀ step, steps step → step.InRange

theorem outcome_calm {step : IntegerStep F} (range : step.InRange) :
    step.outcome overflowChecks ≠ .error .panic := by
  rcases (step_sound_iff overflowChecks step).mpr range with ⟨value, done, _⟩ | ⟨error, failed⟩
  · rw [done]
    nofun
  · rw [failed]
    nofun

theorem bind_calm {α β : Type} {first : Eval α} {next : α → Eval β} (start : first ≠ .error .panic)
    (rest : ∀ value, first = .ok value → next value ≠ .error .panic) :
    (first >>= next) ≠ .error .panic := by
  cases first with
  | error stop => exact fun panic => start (congrArg Except.error (Except.error.inj panic))
  | ok value => exact rest value rfl

theorem map_calm {α β : Type} {first : Eval α} {f : α → β} (start : first ≠ .error .panic) :
    first.map f ≠ .error .panic := by
  cases first with
  | error stop => exact fun panic => start (congrArg Except.error (Except.error.inj panic))
  | ok value => nofun

theorem unary_calm (laws : FiniteFloats F) {op : AxUnaryOp} {value : AxValue F}
    (range : ∀ step, unaryStep op value = some step → step.InRange) :
    evalUnaryExpr overflowChecks op value ≠ .error .panic := by
  cases op with
  | not => intro panics; cases panics
  | neg =>
    cases value with
    | number operand => exact outcome_calm (range (.neg operand) rfl)
    | float value =>
      have finite := laws.neg value.get value.finite
      rw [evalUnaryExpr, AxFloat.new, dif_pos finite]
      intro panics
      cases panics
    | _ => intro panics; cases panics

theorem addValues_calm (left right : AxValue F) : addValues left right ≠ .error .panic := by
  cases left <;> cases right <;> simp only [addValues, fail] <;>
    first
    | exact finiteFloatValue_calm _ _
    | split <;> nofun
    | nofun

theorem numeric_calm {left right : AxValue F} {intOperation : Int64 → Int64 → Eval Int64}
    (other : ∀ a b, left = .number a → right ≠ .number b) (floatOperation : F → F → F)
    (operator : String) (rejectZeroRight : Bool) :
    evalNumericBinary left right intOperation floatOperation operator rejectZeroRight ≠ .error .panic := by
  unfold evalNumericBinary
  split
  · nofun
  · split
    · exact absurd rfl (other _ _ rfl)
    · exact finiteFloatValue_calm _ _
    · exact finiteFloatValue_calm _ _
    · exact finiteFloatValue_calm _ _
    · nofun

theorem expectOrdering_calm {ordering : Option Ordering} (known : ordering.isSome = true)
    (operation : Ordering → Bool) :
    (expectOrdering ordering operation : Eval (AxValue F)) ≠ .error .panic := by
  obtain ⟨ordering, rfl⟩ := Option.isSome_iff_exists.mp known
  nofun

theorem compare_calm (laws : FiniteFloats F) (left right : AxValue F) (operation : Ordering → Bool)
    (operator : String) : evalCompareBinary left right operation operator ≠ .error .panic := by
  unfold evalCompareBinary
  split
  · nofun
  · next a b => exact expectOrdering_calm (laws.ordered _ _ a.finite b.finite) _
  · next a b => exact expectOrdering_calm (laws.ordered _ _ (laws.ofInt a) b.finite) _
  · next a b => exact expectOrdering_calm (laws.ordered _ _ a.finite (laws.ofInt b)) _
  · nofun
  · nofun

/-- An operator that is not short-circuit panics on integers out of range only. -/
theorem binary_calm (laws : FiniteFloats F) {op : AxBinaryOp} {left right : AxValue F}
    (strict : op ≠ .and ∧ op ≠ .or ∧ op ≠ .fallback)
    (range : ∀ step, binaryStep op left right = some step → step.InRange) :
    evalBinaryExpr overflowChecks op left right ≠ .error .panic := by
  have arithmetic (int : IntegerOp) (same : op = int.binary)
      (otherwise : (∀ a b, left = .number a → right ≠ .number b) →
        evalBinaryExpr overflowChecks op left right ≠ .error .panic) :
      evalBinaryExpr overflowChecks op left right ≠ .error .panic := by
    by_cases numbers : ∃ a b, left = .number a ∧ right = .number b
    · obtain ⟨a, b, rfl, rfl⟩ := numbers
      have inside := range (.binary int a b) (by subst same; cases int <;> rfl)
      subst same
      exact outcome_calm inside
    · exact otherwise fun a b first second => numbers ⟨a, b, first, second⟩
  cases op with
  | add => exact addValues_calm left right
  | sub => exact arithmetic .sub rfl fun other => numeric_calm other _ _ _
  | mul => exact arithmetic .mul rfl fun other => numeric_calm other _ _ _
  | div => exact arithmetic .div rfl fun other => numeric_calm other _ _ _
  | rem => exact arithmetic .rem rfl fun other => numeric_calm other _ _ _
  | eq | ne => nofun
  | gt | ge | lt | le => exact compare_calm laws left right _ _
  | «in» =>
    unfold evalBinaryExpr
    dsimp only
    split <;> nofun
  | and => exact absurd rfl strict.1
  | or => exact absurd rfl strict.2.1
  | fallback => exact absurd rfl strict.2.2

theorem index_calm (object index : AxValue F) : evalIndexExpr object index ≠ .error .panic := by
  unfold evalIndexExpr
  split
  · split <;> nofun
  · nofun
  · nofun

theorem member_calm (property : String) (value : AxValue F) :
    memberValue property value ≠ .error .panic := by
  rw [memberValue.eq_def]
  split <;> nofun

theorem optional_calm (property : String) {result : Eval (AxValue F)} (start : result ≠ .error .panic) :
    optionalMemberValue property result ≠ .error .panic := by
  rw [optionalMemberValue.eq_def]
  split
  · nofun
  · nofun
  · nofun
  · nofun
  · exact start

mutual

theorem evalExpr_calm (laws : FiniteFloats F)
    (calls : ∀ path values scope, Safe (callSteps path values scope) → call path values scope ≠ .error .panic)
    (scope : Scope F) : ∀ expr : AxExpr F, Safe (Performs overflowChecks call callSteps scope expr) →
      evalExpr overflowChecks call scope expr ≠ .error .panic
  | .string _, _ | .number _, _ | .float _, _ | .bool _, _ => nofun
  | .identifier name, _ => by
    rw [evalExpr]
    split
    · nofun
    · split <;> nofun
  | .list items, safe => by
    rw [evalExpr]
    exact map_calm (evalExprs_calm laws calls scope items safe)
  | .object fields, safe => by
    rw [evalExpr]
    exact map_calm (evalFields_calm laws calls scope fields safe)
  | .unary op expr, safe => by
    rw [evalExpr]
    apply bind_calm (evalExpr_calm laws calls scope expr fun step performed => safe step (.inl performed))
    intro value evaluated
    exact unary_calm laws fun step here => safe step (.inr ⟨value, evaluated, here⟩)
  | .binary op left right, safe => by
    rw [evalExpr]
    apply bind_calm (evalExpr_calm laws calls scope left fun step performed => safe step (.inl performed))
    intro first evaluated
    have second (reached : needsRight op first = true) :
        evalExpr overflowChecks call scope right ≠ .error .panic :=
      evalExpr_calm laws calls scope right fun step performed =>
        safe step (.inr ⟨first, evaluated, reached, .inl performed⟩)
    have apply (strict : op ≠ .and ∧ op ≠ .or ∧ op ≠ .fallback) (reached : needsRight op first = true) :
        (evalExpr overflowChecks call scope right >>= evalBinaryExpr overflowChecks op first) ≠
          .error .panic := by
      apply bind_calm (second reached)
      intro value evaluated'
      exact binary_calm laws strict fun step here =>
        safe step (.inr ⟨first, evaluated, reached, .inr ⟨value, evaluated', here⟩⟩)
    cases op with
    | and =>
      dsimp only
      split
      · nofun
      · next truthy => exact bind_calm (second (by simpa [needsRight] using truthy)) fun _ _ => nofun
    | or =>
      dsimp only
      split
      · nofun
      · next falsy => exact bind_calm (second (by simpa [needsRight] using falsy)) fun _ _ => nofun
    | fallback =>
      dsimp only
      split
      · nofun
      · next null => exact second (by simpa [needsRight] using null)
    | _ => exact apply (by decide) rfl
  | .index object index, safe => by
    rw [evalExpr]
    apply bind_calm (evalExpr_calm laws calls scope object fun step performed => safe step (.inl performed))
    intro first evaluated
    apply bind_calm (evalExpr_calm laws calls scope index fun step performed =>
      safe step (.inr ⟨first, evaluated, .inl performed⟩))
    intro second _
    exact index_calm first second
  | .member object property, safe => by
    rw [evalExpr]
    exact bind_calm (evalExpr_calm laws calls scope object safe) fun value _ => member_calm property value
  | .optionalMember object property, safe => by
    rw [evalExpr]
    exact optional_calm property (evalExpr_calm laws calls scope object safe)
  | .call path args, safe => by
    rw [evalExpr]
    apply bind_calm (evalExprs_calm laws calls scope args fun step performed => safe step (.inl performed))
    intro values evaluated
    exact calls path values scope fun step performed => safe step (.inr ⟨values, evaluated, performed⟩)

theorem evalExprs_calm (laws : FiniteFloats F)
    (calls : ∀ path values scope, Safe (callSteps path values scope) → call path values scope ≠ .error .panic)
    (scope : Scope F) : ∀ exprs : List (AxExpr F), Safe (PerformsAny overflowChecks call callSteps scope exprs) →
      evalExprs overflowChecks call scope exprs ≠ .error .panic
  | [], _ => nofun
  | expr :: rest, safe => by
    rw [evalExprs]
    apply bind_calm (evalExpr_calm laws calls scope expr fun step performed => safe step (.inl performed))
    intro value evaluated
    exact bind_calm (evalExprs_calm laws calls scope rest fun step performed =>
      safe step (.inr ⟨value, evaluated, performed⟩)) fun _ _ => nofun

theorem evalFields_calm (laws : FiniteFloats F)
    (calls : ∀ path values scope, Safe (callSteps path values scope) → call path values scope ≠ .error .panic)
    (scope : Scope F) : ∀ fields : List (String × AxExpr F),
      Safe (PerformsFields overflowChecks call callSteps scope fields) →
      evalFields overflowChecks call scope fields ≠ .error .panic
  | [], _ => nofun
  | (name, expr) :: rest, safe => by
    rw [evalFields]
    apply bind_calm (evalExpr_calm laws calls scope expr fun step performed => safe step (.inl performed))
    intro value evaluated
    exact bind_calm (evalFields_calm laws calls scope rest fun step performed =>
      safe step (.inr ⟨value, evaluated, performed⟩)) fun _ _ => nofun

end

theorem bindParams_calm {eval : Scope F → AxExpr F → Eval (AxValue F)}
    {steps : Scope F → AxExpr F → IntegerStep F → Prop}
    (calm : ∀ scope expr, Safe (steps scope expr) → eval scope expr ≠ .error .panic) :
    ∀ (params : List (AxComponentParamDef F)) (args : List (AxValue F)) (scope : Scope F),
      Safe (bindSteps eval steps params args scope) → bindParams eval params args scope ≠ .error .panic
  | [], _, _, _ => nofun
  | param :: params, arg :: args, scope, safe => bindParams_calm calm params args _ safe
  | param :: params, [], scope, safe => by
    unfold Safe at safe
    rw [bindParams]
    simp only [bindSteps] at safe
    cases default : param.default with
    | none =>
      rw [default] at safe
      exact bindParams_calm calm params [] _ safe
    | some expr =>
      rw [default] at safe
      apply bind_calm (calm scope expr fun step performed => safe step (.inl performed))
      intro value evaluated
      exact bindParams_calm calm params [] _ fun step performed =>
        safe step (.inr ⟨value, evaluated, performed⟩)

theorem callAt_calm (laws : FiniteFloats F) (server : Server F) (depth : Nat) :
    ∀ path args scope, Safe (callStepsAt server depth path args scope) →
      callAt server depth path args scope ≠ .error .panic := by
  induction depth with
  | zero =>
    intro path args scope _
    unfold callAt
    split
    · nofun
    · split <;> nofun
  | succ depth ih =>
    intro path args scope safe
    unfold Safe callStepsAt at safe
    unfold callAt
    cases found : resolveFunction server.functions path with
    | none =>
      dsimp only
      split <;> nofun
    | some function =>
      rw [found] at safe
      have calm (scope : Scope F) (expr : AxExpr F) :=
        @evalExpr_calm F _ server.overflowChecks _ _ laws ih scope expr
      apply bind_calm (bindParams_calm calm _ _ _ fun step performed => safe step (.inl performed))
      intro functionScope bound
      exact calm functionScope function.body fun step performed =>
        safe step (.inr ⟨functionScope, bound, performed⟩)

/-- An evaluation with all its integer operations in range does not panic. -/
theorem evalAt_calm (laws : FiniteFloats F) (server : Server F) (depth : Nat) (scope : Scope F)
    (expr : AxExpr F) (safe : Safe (PerformsAt server depth scope expr)) :
    evalAt server depth scope expr ≠ .error .panic :=
  evalExpr_calm laws (callAt_calm laws server depth) scope expr safe

theorem neg_eq (overflowChecks : Bool) {op : AxUnaryOp} {value : AxValue F} {step : IntegerStep F}
    (here : unaryStep op value = some step) :
    evalUnaryExpr overflowChecks op value = step.outcome overflowChecks := by
  unfold unaryStep at here
  split at here
  · obtain rfl := Option.some.inj here
    rfl
  · cases here

theorem binary_eq (overflowChecks : Bool) {op : AxBinaryOp} {left right : AxValue F} {step : IntegerStep F}
    (here : binaryStep op left right = some step) :
    evalBinaryExpr overflowChecks op left right = step.outcome overflowChecks ∧
      op ≠ .and ∧ op ≠ .or ∧ op ≠ .fallback := by
  unfold binaryStep at here
  split at here
  · obtain ⟨int, same, rfl⟩ := Option.map_eq_some_iff.mp here
    cases op <;> cases same <;> exact ⟨rfl, by decide⟩
  · cases here

theorem index_eq (overflowChecks : Bool) {object index : AxValue F} {step : IntegerStep F}
    (here : indexStep object index = some step) :
    evalIndexExpr object index = step.outcome overflowChecks := by
  unfold indexStep at here
  split at here
  · obtain rfl := Option.some.inj here
    rfl
  · cases here

theorem bind_panics {α β : Type} {first : Eval α} (panics : first = .error .panic) (next : α → Eval β) :
    (first >>= next) = .error .panic := by
  rw [panics]
  rfl

theorem bind_reaches {α β : Type} {first : Eval α} {value : α} (evaluated : first = .ok value)
    {next : α → Eval β} (panics : next value = .error .panic) : (first >>= next) = .error .panic := by
  rw [evaluated]
  exact panics

/-- The right operand that an operator reaches is its outcome when it panics. -/
theorem right_panics (scope : Scope F) {op : AxBinaryOp} {left right : AxExpr F} {first : AxValue F}
    (evaluated : evalExpr overflowChecks call scope left = .ok first) (reached : needsRight op first = true)
    (panics : evalExpr overflowChecks call scope right = .error .panic) :
    evalExpr overflowChecks call scope (.binary op left right) = .error .panic := by
  rw [evalExpr]
  apply bind_reaches evaluated
  cases op with
  | and =>
    have truthy : ¬(!isTruthy first) = true := by simpa [needsRight] using reached
    exact (if_neg truthy).trans (bind_panics panics _)
  | or =>
    have falsy : ¬isTruthy first = true := by simpa [needsRight] using reached
    exact (if_neg falsy).trans (bind_panics panics _)
  | fallback =>
    have null : ¬(!first.isNull) = true := by simpa [needsRight] using reached
    exact (if_neg null).trans panics
  | _ => exact bind_panics panics _

mutual

theorem evalExpr_panics {step : IntegerStep F} (panics : step.outcome overflowChecks = .error .panic)
    (calls : ∀ path values scope, callSteps path values scope step → call path values scope = .error .panic)
    (scope : Scope F) : ∀ expr : AxExpr F, Performs overflowChecks call callSteps scope expr step →
      evalExpr overflowChecks call scope expr = .error .panic
  | .string _, performed | .number _, performed | .float _, performed | .bool _, performed
  | .identifier _, performed => performed.elim
  | .list items, performed => by
    rw [evalExpr, evalExprs_panics panics calls scope items performed]
    rfl
  | .object fields, performed => by
    rw [evalExpr, evalFields_panics panics calls scope fields performed]
    rfl
  | .unary op expr, performed => by
    rw [evalExpr]
    rcases performed with below | ⟨value, evaluated, here⟩
    · exact bind_panics (evalExpr_panics panics calls scope expr below) _
    · exact bind_reaches evaluated ((neg_eq overflowChecks here).trans panics)
  | .binary op left right, performed => by
    rcases performed with below | ⟨first, evaluated, reached, below | ⟨second, evaluated', here⟩⟩
    · rw [evalExpr]
      exact bind_panics (evalExpr_panics panics calls scope left below) _
    · exact right_panics scope evaluated reached (evalExpr_panics panics calls scope right below)
    · obtain ⟨same, strict⟩ := binary_eq overflowChecks here
      rw [evalExpr]
      apply bind_reaches evaluated
      cases op with
      | and => exact absurd rfl strict.1
      | or => exact absurd rfl strict.2.1
      | fallback => exact absurd rfl strict.2.2
      | _ => exact bind_reaches evaluated' (same.trans panics)
  | .index object index, performed => by
    rw [evalExpr]
    rcases performed with below | ⟨first, evaluated, below | ⟨second, evaluated', here⟩⟩
    · exact bind_panics (evalExpr_panics panics calls scope object below) _
    · exact bind_reaches evaluated (bind_panics (evalExpr_panics panics calls scope index below) _)
    · exact bind_reaches evaluated (bind_reaches evaluated' ((index_eq overflowChecks here).trans panics))
  | .member object property, performed => by
    rw [evalExpr]
    exact bind_panics (evalExpr_panics panics calls scope object performed) _
  | .optionalMember object property, performed => by
    rw [evalExpr, evalExpr_panics panics calls scope object performed]
    rfl
  | .call path args, performed => by
    rw [evalExpr]
    rcases performed with below | ⟨values, evaluated, here⟩
    · exact bind_panics (evalExprs_panics panics calls scope args below) _
    · exact bind_reaches evaluated (calls path values scope here)

theorem evalExprs_panics {step : IntegerStep F} (panics : step.outcome overflowChecks = .error .panic)
    (calls : ∀ path values scope, callSteps path values scope step → call path values scope = .error .panic)
    (scope : Scope F) : ∀ exprs : List (AxExpr F), PerformsAny overflowChecks call callSteps scope exprs step →
      evalExprs overflowChecks call scope exprs = .error .panic
  | [], performed => performed.elim
  | expr :: rest, performed => by
    rw [evalExprs]
    rcases performed with below | ⟨value, evaluated, later⟩
    · exact bind_panics (evalExpr_panics panics calls scope expr below) _
    · exact bind_reaches evaluated (bind_panics (evalExprs_panics panics calls scope rest later) _)

theorem evalFields_panics {step : IntegerStep F} (panics : step.outcome overflowChecks = .error .panic)
    (calls : ∀ path values scope, callSteps path values scope step → call path values scope = .error .panic)
    (scope : Scope F) : ∀ fields : List (String × AxExpr F),
      PerformsFields overflowChecks call callSteps scope fields step →
      evalFields overflowChecks call scope fields = .error .panic
  | [], performed => performed.elim
  | (name, expr) :: rest, performed => by
    rw [evalFields]
    rcases performed with below | ⟨value, evaluated, later⟩
    · exact bind_panics (evalExpr_panics panics calls scope expr below) _
    · exact bind_reaches evaluated (bind_panics (evalFields_panics panics calls scope rest later) _)

end

theorem bindParams_panics {eval : Scope F → AxExpr F → Eval (AxValue F)}
    {steps : Scope F → AxExpr F → IntegerStep F → Prop} {step : IntegerStep F}
    (panics : ∀ scope expr, steps scope expr step → eval scope expr = .error .panic) :
    ∀ (params : List (AxComponentParamDef F)) (args : List (AxValue F)) (scope : Scope F),
      bindSteps eval steps params args scope step → bindParams eval params args scope = .error .panic
  | [], _, _, performed => performed.elim
  | param :: params, arg :: args, scope, performed => bindParams_panics panics params args _ performed
  | param :: params, [], scope, performed => by
    rw [bindParams]
    simp only [bindSteps] at performed
    cases default : param.default with
    | none =>
      rw [default] at performed
      exact bindParams_panics panics params [] _ performed
    | some expr =>
      rw [default] at performed
      rcases performed with here | ⟨value, evaluated, later⟩
      · exact bind_panics (panics scope expr here) _
      · exact bind_reaches evaluated (bindParams_panics panics params [] _ later)

theorem callAt_panics (server : Server F) {step : IntegerStep F}
    (panics : step.outcome server.overflowChecks = .error .panic) (depth : Nat) :
    ∀ path args scope, callStepsAt server depth path args scope step →
      callAt server depth path args scope = .error .panic := by
  induction depth with
  | zero =>
    intro path args scope performed
    unfold callStepsAt at performed
    split at performed <;> exact performed.elim
  | succ depth ih =>
    intro path args scope performed
    unfold callStepsAt at performed
    unfold callAt
    cases found : resolveFunction server.functions path with
    | none =>
      rw [found] at performed
      exact performed.elim
    | some function =>
      rw [found] at performed
      have ends (scope : Scope F) (expr : AxExpr F) := evalExpr_panics panics ih scope expr
      rcases performed with binding | ⟨functionScope, bound, body⟩
      · exact bind_panics (bindParams_panics ends _ _ _ binding) _
      · exact bind_reaches bound (ends functionScope function.body body)

theorem map_panics {checked : Option Int64} (none : checked = none) (wrapped : Int64) :
    (rawInt true checked wrapped).map (@AxValue.number F _) = .error .panic := by
  rw [none]
  rfl

/-- Out of range, a build with overflow checks panics. -/
theorem outcome_panics {step : IntegerStep F} (outside : ¬step.InRange) :
    step.outcome true = .error .panic := by
  cases step with
  | neg a => exact map_panics (if_neg fun fits => outside ((neg_fits a).mp fits)) _
  | index items position => exact absurd trivial outside
  | binary op a b =>
    cases op with
    | add => exact absurd trivial outside
    | sub => exact map_panics (if_neg outside) _
    | mul => exact map_panics (if_neg outside) _
    | div | rem =>
      obtain ⟨rfl, rfl⟩ := not_not.mp outside
      rfl

end Panics

section Main

variable (server : Server F)

/-- Every integer operation of an evaluation has its exact result or an error exactly if all of
them are in range, and then the evaluation does not panic; with overflow checks, it panics
exactly if one of them is not. -/
theorem integer_operations_exact_iff (laws : FiniteFloats F) (depth : Nat) (scope : Scope F)
    (expr : AxExpr F) :
    ((∀ step, PerformsAt server depth scope expr step → step.Sound server.overflowChecks) ↔
      ∀ step, PerformsAt server depth scope expr step → step.InRange) ∧
    ((∀ step, PerformsAt server depth scope expr step → step.InRange) →
      evalAt server depth scope expr ≠ .error .panic) ∧
    (server.overflowChecks = true → evalAt server depth scope expr ≠ .error .panic →
      ∀ step, PerformsAt server depth scope expr step → step.InRange) := by
  refine ⟨forall₂_congr fun step _ => step_sound_iff server.overflowChecks step,
    evalAt_calm laws server depth scope expr, ?_⟩
  intro checks calm step performed
  by_contra outside
  have panics : step.outcome server.overflowChecks = .error .panic := checks ▸ outcome_panics outside
  exact calm (evalExpr_panics panics (callAt_panics server panics depth) scope expr performed)

theorem finiteFloats_f64 : FiniteFloats F64 where
  neg _ := F64.finite_neg
  ofInt := F64.finite_ofInt
  ordered a b first second := by
    have both : (a.finite && b.finite) = true := Bool.and_eq_true_iff.mpr ⟨first, second⟩
    change (F64.partialCmp a b).isSome = true
    rw [F64.partialCmp, if_pos both]
    rfl

/-- A server without local functions and data. -/
def emptyServer (overflowChecks : Bool) : Server F64 := ⟨overflowChecks, [], fun _ _ => none⟩

/-- `7 - 2` in the empty scope. -/
def difference : AxExpr F64 := .binary .sub (.number 7) (.number 2)

theorem difference_inRange (step : IntegerStep F64)
    (performed : PerformsAt (emptyServer true) 0 (fun _ => none) difference step) : step.InRange := by
  rcases performed with below | ⟨first, evaluated, _, below | ⟨second, evaluated', here⟩⟩
  · exact below.elim
  · exact below.elim
  · obtain rfl := Except.ok.inj evaluated
    obtain rfl := Except.ok.inj evaluated'
    obtain rfl := Option.some.inj here
    exact (fitsInt64_iff _).mpr (by decide)

theorem integer_operations_difference :
    (∀ step, PerformsAt (emptyServer true) 0 (fun _ => none) difference step → step.Sound true) ∧
    evalAt (emptyServer true) 0 (fun _ => none) difference ≠ .error .panic :=
  let exact := integer_operations_exact_iff (emptyServer true) finiteFloats_f64 0 (fun _ => none) difference
  ⟨exact.1.mpr difference_inRange, exact.2.1 difference_inRange⟩

/-- The negation of the smallest integer panics, or wraps around to itself. -/
theorem smallest_negation_unsound :
    PerformsAt (emptyServer true) 0 (fun name => if name = "n" then some (.number Int64.minValue) else none)
        (.unary .neg (.identifier "n")) (.neg Int64.minValue) ∧
      ¬(IntegerStep.neg Int64.minValue : IntegerStep F64).Sound true ∧
      ¬(IntegerStep.neg Int64.minValue : IntegerStep F64).Sound false := by
  refine ⟨.inr ⟨.number Int64.minValue, rfl, rfl⟩, ?_, ?_⟩
  · rw [step_sound_iff]
    exact not_not.mpr rfl
  · rw [step_sound_iff]
    exact not_not.mpr rfl

end Main

end Axonyx.Core
