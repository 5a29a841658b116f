import Axonyx.Core.Reactive
import Axonyx.StateWasm.ProgramRun

/-! What a compiled expression computes in the VM: every operand first, then the operator.
The value is the strict meaning of the expression, if the stack is high enough for it. -/
namespace Axonyx.Core

open Wire (Bytes utf8)
open Outcome (bind_ok)
open StateWasm (ExprValue Stack Reads)

variable {F : Type} [Float64 F]

section Strict

variable (env : String → Option (ExprValue F))

mutual

/-- The meaning of an expression when no operand is skipped. -/
def strictValue : AxExpr F → Option (ExprValue F)
  | .string value => some (.string value)
  | .number value => some (.int value)
  | .float value => some (.float value.get)
  | .bool value => some (.bool value)
  | .list items => (strictValues items).map .list
  | .object fields =>
    (strictFields fields).bind fun values =>
      if (fields.map Prod.fst).Nodup then some (.object ((fields.map Prod.fst).zip values)) else none
  | .identifier name => if name = "null" then some .null else env name
  | .unary op expr => do
    let value ← strictValue expr
    StateWasm.evaluateUnaryOpcode (opUnary op) value
  | .binary op left right => do
    let leftValue ← strictValue left
    let rightValue ← strictValue right
    StateWasm.evaluateBinaryOpcode (opBinary op) leftValue rightValue
  | .index object index => do
    let objectValue ← strictValue object
    let indexValue ← strictValue index
    StateWasm.evaluateBinaryOpcode 40 objectValue indexValue
  | .member object property => do
    let value ← strictValue object
    StateWasm.memberOpcode false property value
  | .optionalMember object property => do
    let value ← strictValue object
    StateWasm.memberOpcode true property value
  | .call _ _ => none

def strictValues : List (AxExpr F) → Option (List (ExprValue F))
  | [] => some []
  | expr :: rest => do
    let value ← strictValue expr
    (strictValues rest).map (value :: ·)

def strictFields : List (String × AxExpr F) → Option (List (ExprValue F))
  | [] => some []
  | (_, expr) :: rest => do
    let value ← strictValue expr
    (strictFields rest).map (value :: ·)

end

end Strict

section Height

mutual

/-- How many values an expression has on the stack at most. -/
def stackHeight : AxExpr F → Nat
  | .unary _ expr => stackHeight expr
  | .binary _ left right => max (stackHeight left) (1 + stackHeight right)
  | .index object index => max (stackHeight object) (1 + stackHeight index)
  | .member object _ | .optionalMember object _ => stackHeight object
  | .list items => max 1 (stackHeights items)
  | .object fields => max 1 (fieldHeights fields)
  | .string _ | .number _ | .float _ | .bool _ | .identifier _ | .call _ _ => 1

def stackHeights : List (AxExpr F) → Nat
  | [] => 0
  | expr :: rest => max (stackHeight expr) (1 + stackHeights rest)

def fieldHeights : List (String × AxExpr F) → Nat
  | [] => 0
  | (_, expr) :: rest => max (stackHeight expr) (1 + fieldHeights rest)

end

end Height

section Compiled

variable {states : String → Option StateBindingPlan} {program : Bytes}
  {dependencies : List (ExprValue F)} {env : String → Option (ExprValue F)}

/-- The program's dependencies are the values of the collected names. -/
def Linked (names : List String) (dependencies : List (ExprValue F))
    (env : String → Option (ExprValue F)) : Prop :=
  ∀ (index : Nat) (name : String), names[index]? = some name →
    ∃ value, dependencies[index]? = some value ∧ env name = some value

/-- Running the code at `cursor` with room for `height` values leaves `value`. -/
def Runs (program : Bytes) (dependencies : List (ExprValue F)) (code : Bytes) (height : Nat)
    (value : Option (ExprValue F)) : Prop :=
  ∀ cursor next (stack : Stack F), stack.length ≤ StateWasm.axExpressionStackMaxValues →
    Reads program cursor code next →
    StateWasm.resume program dependencies cursor stack =
      if stack.length + height > StateWasm.axExpressionStackMaxValues then none
      else value.bind fun value => StateWasm.resume program dependencies next (value :: stack)

theorem continueAt_push (next : Nat) (stack : Stack F) (value : ExprValue F) :
    StateWasm.continueAt program dependencies next (value :: stack) =
      if stack.length + 1 > StateWasm.axExpressionStackMaxValues then none
      else StateWasm.resume program dependencies next (value :: stack) := rfl

theorem Runs.push {code : Bytes} {value : ExprValue F}
    (step : ∀ cursor next (stack : Stack F), Reads program cursor code next →
      StateWasm.resume program dependencies cursor stack =
        StateWasm.continueAt program dependencies next (value :: stack)) :
    Runs program dependencies code 1 (some value) := by
  intro cursor next stack _ read
  rw [step cursor next stack read, continueAt_push]
  rfl

theorem Runs.unary {code operator : Bytes} {height : Nat} {value : Option (ExprValue F)}
    {apply : ExprValue F → Option (ExprValue F)} (positive : 1 ≤ height)
    (operand : Runs program dependencies code height value)
    (step : ∀ cursor next (stack : Stack F) value, Reads program cursor operator next →
      StateWasm.resume program dependencies cursor (value :: stack) =
        (apply value).bind fun result =>
          StateWasm.continueAt program dependencies next (result :: stack)) :
    Runs program dependencies (code ++ operator) height (value.bind apply) := by
  intro cursor next stack room read
  obtain ⟨middle, first, second⟩ := StateWasm.reads_append_iff.mp read
  rw [operand cursor middle stack room first]
  split
  · rfl
  · rw [Option.bind_assoc]
    refine Option.bind_congr fun value _ => ?_
    rw [step middle next stack value second]
    refine Option.bind_congr fun result _ => ?_
    rw [continueAt_push, if_neg (by omega)]

theorem Runs.binary {left right operator : Bytes} {first second : Nat}
    {leftValue rightValue : Option (ExprValue F)}
    {apply : ExprValue F → ExprValue F → Option (ExprValue F)} (positive : 1 ≤ first)
    (runLeft : Runs program dependencies left first leftValue)
    (runRight : Runs program dependencies right second rightValue)
    (step : ∀ cursor next (stack : Stack F) left right, Reads program cursor operator next →
      StateWasm.resume program dependencies cursor (right :: left :: stack) =
        (apply left right).bind fun result =>
          StateWasm.continueAt program dependencies next (result :: stack)) :
    Runs program dependencies (left ++ right ++ operator) (max first (1 + second))
      (leftValue.bind fun left => rightValue.bind fun right => apply left right) := by
  intro cursor next stack room read
  obtain ⟨behind, operands, last⟩ := StateWasm.reads_append_iff.mp read
  obtain ⟨middle, before, after⟩ := StateWasm.reads_append_iff.mp operands
  rw [runLeft cursor middle stack room before]
  by_cases deep : stack.length + first > StateWasm.axExpressionStackMaxValues
  · rw [if_pos deep, if_pos (by omega)]
  have above (value : ExprValue F) : (value :: stack).length ≤ StateWasm.axExpressionStackMaxValues := by
    simp only [List.length_cons]
    omega
  rw [if_neg deep]
  by_cases deeper : stack.length + (1 + second) > StateWasm.axExpressionStackMaxValues
  · rw [if_pos (by omega)]
    cases leftValue with
    | none => rfl
    | some value =>
      rw [Option.bind_some, runRight middle behind (value :: stack) (above value) after]
      exact if_pos (by simp only [List.length_cons]; omega)
  rw [if_neg (by omega), Option.bind_assoc]
  refine Option.bind_congr fun left _ => ?_
  rw [runRight middle behind (left :: stack) (above left) after, Option.bind_assoc,
    if_neg (by simp only [List.length_cons]; omega)]
  refine Option.bind_congr fun right _ => ?_
  rw [step behind next stack left right last]
  refine Option.bind_congr fun result _ => ?_
  rw [continueAt_push, if_neg (by omega)]

/-- The values of a literal's items, pushed one after the other. -/
def RunsAll (program : Bytes) (dependencies : List (ExprValue F)) (code : Bytes) (height : Nat)
    (values : Option (List (ExprValue F))) : Prop :=
  ∀ cursor next (stack : Stack F), stack.length ≤ StateWasm.axExpressionStackMaxValues →
    Reads program cursor code next →
    StateWasm.resume program dependencies cursor stack =
      if stack.length + height > StateWasm.axExpressionStackMaxValues then none
      else values.bind fun values =>
        StateWasm.resume program dependencies next (values.reverse ++ stack)

theorem RunsAll.nil : RunsAll program dependencies [] 0 (some []) := by
  intro cursor next stack room read
  have same : next = cursor := by rw [read.next_eq]; rfl
  rw [if_neg (by omega), same]
  rfl

theorem RunsAll.cons {code codes : Bytes} {first rest : Nat} {value : Option (ExprValue F)}
    {values : Option (List (ExprValue F))} (positive : 1 ≤ first)
    (head : Runs program dependencies code first value)
    (tail : RunsAll program dependencies codes rest values) :
    RunsAll program dependencies (code ++ codes) (max first (1 + rest))
      (value.bind fun value => values.map (value :: ·)) := by
  intro cursor next stack room read
  obtain ⟨middle, before, after⟩ := StateWasm.reads_append_iff.mp read
  rw [head cursor middle stack room before]
  by_cases deep : stack.length + first > StateWasm.axExpressionStackMaxValues
  · rw [if_pos deep, if_pos (by omega)]
  have above (value : ExprValue F) : (value :: stack).length ≤ StateWasm.axExpressionStackMaxValues := by
    simp only [List.length_cons]
    omega
  rw [if_neg deep]
  by_cases deeper : stack.length + (1 + rest) > StateWasm.axExpressionStackMaxValues
  · rw [if_pos (by omega)]
    cases value with
    | none => rfl
    | some value =>
      rw [Option.bind_some, tail middle next (value :: stack) (above value) after]
      exact if_pos (by simp only [List.length_cons]; omega)
  rw [if_neg (by omega), Option.bind_assoc]
  refine Option.bind_congr fun value _ => ?_
  rw [tail middle next (value :: stack) (above value) after,
    if_neg (by simp only [List.length_cons]; omega)]
  cases values with
  | none => rfl
  | some values => simp

theorem Runs.collect {code operator : Bytes} {height : Nat} {values : Option (List (ExprValue F))}
    {apply : List (ExprValue F) → Option (ExprValue F)}
    (operands : RunsAll program dependencies code height values)
    (step : ∀ cursor next (stack : Stack F) value, values = some value →
      Reads program cursor operator next →
      StateWasm.resume program dependencies cursor (value.reverse ++ stack) =
        (apply value).bind fun result =>
          StateWasm.continueAt program dependencies next (result :: stack)) :
    Runs program dependencies (code ++ operator) (max 1 height) (values.bind apply) := by
  intro cursor next stack room read
  obtain ⟨middle, first, second⟩ := StateWasm.reads_append_iff.mp read
  rw [operands cursor middle stack room first]
  by_cases deep : stack.length + height > StateWasm.axExpressionStackMaxValues
  · rw [if_pos deep, if_pos (by omega)]
  rw [if_neg deep]
  by_cases full : stack.length + 1 > StateWasm.axExpressionStackMaxValues
  · rw [if_pos (by omega)]
    cases found : values with
    | none => rfl
    | some value =>
      rw [Option.bind_some, step middle next stack value found second]
      cases apply value with
      | none => rfl
      | some result => exact if_pos full
  rw [if_neg (by omega), Option.bind_assoc]
  refine Option.bind_congr fun value found => ?_
  rw [step middle next stack value found second]
  refine Option.bind_congr fun result _ => ?_
  rw [continueAt_push, if_neg full]

end Compiled

section Correct

variable {states : String → Option StateBindingPlan} {program : Bytes}
  {dependencies : List (ExprValue F)} {env : String → Option (ExprValue F)} {names : List String}

theorem pushProgramString_ok {value : String} {text : Bytes}
    (pushed : pushProgramString value = .ok text) :
    ∃ length, StateWasm.pushU32 (utf8 value).length = some length ∧ text = length ++ utf8 value := by
  unfold pushProgramString at pushed
  split at pushed
  · next small =>
    cases pushed
    exact ⟨_, StateWasm.pushU32_eq_some_iff.mpr ⟨small, rfl⟩, rfl⟩
  · cases pushed

theorem pushKeys_ok {keys : List String} {text : Bytes} (pushed : pushKeys keys = .ok text) :
    StateWasm.KeysWritten keys text := by
  induction keys generalizing text with
  | nil =>
    cases pushed
    exact .nil
  | cons key rest ih =>
    simp only [pushKeys, bind_ok] at pushed
    obtain ⟨_, first, keys, later, same⟩ := pushed
    cases same
    obtain ⟨length, small, rfl⟩ := pushProgramString_ok first
    exact .cons small (ih later)

theorem reactiveCollectionCount_ok {count : Nat} {kind : String} {text : Bytes}
    (counted : reactiveCollectionCount count kind = .ok text) :
    count ≤ StateWasm.axExpressionCollectionMaxItems ∧ text = Wire.leBytes 2 count := by
  unfold reactiveCollectionCount at counted
  split at counted
  · cases counted
  · next small =>
    split at counted
    · cases counted
      exact ⟨Nat.not_lt.mp small, rfl⟩
    · cases counted

theorem dependencyIndex_spec (dependencies : List String) (name : String) :
    dependencies <+: (dependencyIndex dependencies name).1 ∧
      (dependencyIndex dependencies name).1[(dependencyIndex dependencies name).2]? = some name := by
  unfold dependencyIndex
  cases found : dependencies.idxOf? name with
  | none => exact ⟨List.prefix_append _ _, by simp⟩
  | some index =>
    refine ⟨List.prefix_rfl, ?_⟩
    obtain ⟨inside, same, -⟩ := List.findIdx?_eq_some_iff_getElem.mp found
    rw [List.getElem?_eq_getElem inside]
    exact congrArg some (beq_iff_eq.mp same)

/-- The names of a program grow by states only. -/
def Collects (states : String → Option StateBindingPlan) (before after : List String) : Prop :=
  before <+: after ∧ ∀ name ∈ after, name ∈ before ∨ (states name).isSome

theorem Collects.refl (names : List String) : Collects states names names :=
  ⟨List.prefix_rfl, fun _ member => .inl member⟩

theorem Collects.trans {first second third : List String} (start : Collects states first second)
    (rest : Collects states second third) : Collects states first third :=
  ⟨start.1.trans rest.1, fun name member => (rest.2 name member).elim (start.2 name) .inr⟩

theorem compileIdentifier_collects {name : String} {before after : List String} {code : Bytes}
    (compiled : compileIdentifier states name before = .ok (after, code)) :
    Collects states before after := by
  unfold compileIdentifier at compiled
  split at compiled
  · cases compiled
    exact .refl before
  split at compiled
  · cases compiled
  next absent =>
  have state : (states name).isSome := by simpa [Option.isSome_iff_ne_none] using absent
  simp only at compiled
  split at compiled
  · cases compiled
    refine ⟨(dependencyIndex_spec before name).1, fun other member => ?_⟩
    unfold dependencyIndex at member
    split at member
    · exact .inl member
    · rcases List.mem_append.mp member with old | new
      · exact .inl old
      · rw [List.mem_singleton.mp new]
        exact .inr state
  · cases compiled

theorem Runs.identifier {name : String} {before after : List String} {code : Bytes}
    (compiled : compileIdentifier states name before = .ok (after, code)) (known : after <+: names)
    (linked : Linked names dependencies env) :
    Runs program dependencies code 1 (strictValue env (.identifier name)) := by
  unfold compileIdentifier at compiled
  rw [strictValue]
  split at compiled
  · next null =>
    cases compiled
    rw [if_pos null]
    exact Runs.push fun cursor next stack read => StateWasm.resume_null read
  · next ordinary =>
    rw [if_neg ordinary]
    split at compiled
    · cases compiled
    · simp only at compiled
      split at compiled
      · next small =>
        cases compiled
        obtain ⟨-, found⟩ := dependencyIndex_spec before name
        obtain ⟨rest, rfl⟩ := known
        have inside := (List.getElem?_eq_some_iff.mp found).1
        obtain ⟨value, present, same⟩ :=
          linked _ _ ((List.getElem?_append_left inside).trans found)
        rw [same]
        exact Runs.push fun cursor next stack read => StateWasm.resume_dependency read small present
      · cases compiled

theorem stackHeight_pos : ∀ expr : AxExpr F, 1 ≤ stackHeight expr
  | .string _ | .number _ | .float _ | .bool _ | .identifier _ | .call _ _ => by
    simp [stackHeight]
  | .list _ | .object _ => by simp [stackHeight]
  | .unary _ expr => by simpa [stackHeight] using stackHeight_pos expr
  | .member object _ => by simpa [stackHeight] using stackHeight_pos object
  | .optionalMember object _ => by simpa [stackHeight] using stackHeight_pos object
  | .binary _ left right => by
    rw [stackHeight]
    exact Nat.le_trans (stackHeight_pos left) (Nat.le_max_left _ _)
  | .index object index => by
    rw [stackHeight]
    exact Nat.le_trans (stackHeight_pos object) (Nat.le_max_left _ _)

theorem opUnary_cases (op : AxUnaryOp) : opUnary op = 10 ∨ opUnary op = 11 := by
  cases op <;> simp [opUnary]

theorem opBinary_mem (op : AxBinaryOp) : opBinary op ∈ StateWasm.binaryOpcodes := by
  cases op <;> decide

theorem strictValues_length : ∀ {items : List (AxExpr F)} {values : List (ExprValue F)},
    strictValues env items = some values → values.length = items.length
  | [], values, found => by
    cases found
    rfl
  | _ :: rest, values, found => by
    simp only [strictValues, Option.bind_eq_bind, Option.bind_eq_some_iff,
      Option.map_eq_some_iff] at found
    obtain ⟨value, -, later, tail, rfl⟩ := found
    simp [strictValues_length tail]

theorem strictFields_length : ∀ {fields : List (String × AxExpr F)} {values : List (ExprValue F)},
    strictFields env fields = some values → values.length = fields.length
  | [], values, found => by
    cases found
    rfl
  | (_, _) :: rest, values, found => by
    simp only [strictFields, Option.bind_eq_bind, Option.bind_eq_some_iff,
      Option.map_eq_some_iff] at found
    obtain ⟨value, -, later, tail, rfl⟩ := found
    simp [strictFields_length tail]

/-- Code that collects `after` and runs to `value` in any program that knows these names. -/
def Emits (states : String → Option StateBindingPlan) (before after : List String) (dependencies : List (ExprValue F))
    (env : String → Option (ExprValue F)) (code : Bytes) (height : Nat)
    (value : Option (ExprValue F)) : Prop :=
  Collects states before after ∧ ∀ names, after <+: names → Linked names dependencies env →
    ∀ program, Runs program dependencies code height value

def EmitsAll (states : String → Option StateBindingPlan) (before after : List String) (dependencies : List (ExprValue F))
    (env : String → Option (ExprValue F)) (code : Bytes) (height : Nat)
    (values : Option (List (ExprValue F))) : Prop :=
  Collects states before after ∧ ∀ names, after <+: names → Linked names dependencies env →
    ∀ program, RunsAll program dependencies code height values

mutual

theorem compileNode_emits : ∀ (expr : AxExpr F) {before after : List String} {code : Bytes},
    compileNode states expr before = .ok (after, code) →
      Emits states before after dependencies env code (stackHeight expr) (strictValue env expr)
  | .string value, before, after, code, compiled => by
    simp only [compileNode, bind_ok] at compiled
    obtain ⟨text, pushed, same⟩ := compiled
    cases same
    refine ⟨.refl before, fun names _ _ program => Runs.push fun cursor next stack read => ?_⟩
    exact StateWasm.resume_string read (pushProgramString_ok pushed)
  | .number value, before, after, code, compiled => by
    cases compiled
    exact ⟨.refl before, fun names _ _ program => Runs.push fun cursor next stack read =>
      StateWasm.resume_int read⟩
  | .float value, before, after, code, compiled => by
    cases compiled
    exact ⟨.refl before, fun names _ _ program => Runs.push fun cursor next stack read =>
      StateWasm.resume_float value.finite read⟩
  | .bool value, before, after, code, compiled => by
    cases compiled
    exact ⟨.refl before, fun names _ _ program => Runs.push fun cursor next stack read =>
      StateWasm.resume_bool read⟩
  | .identifier name, before, after, code, compiled => by
    rw [compileNode] at compiled
    exact ⟨compileIdentifier_collects compiled, fun names known linked program =>
      Runs.identifier compiled known linked⟩
  | .unary op expr, before, after, code, compiled => by
    simp only [compileNode, bind_ok, Prod.exists] at compiled
    obtain ⟨_, _, inner, same⟩ := compiled
    cases same
    obtain ⟨grows, runs⟩ := compileNode_emits expr inner
    refine ⟨grows, fun names known linked program => ?_⟩
    rw [strictValue, stackHeight]
    exact Runs.unary (stackHeight_pos expr) (runs names known linked program)
      fun cursor next stack value read => StateWasm.resume_unary (opUnary_cases op) read
  | .binary op left right, before, after, code, compiled => by
    simp only [compileNode, bind_ok, Prod.exists] at compiled
    obtain ⟨_, _, first, _, _, second, same⟩ := compiled
    cases same
    obtain ⟨grows, runs⟩ := compileNode_emits left first
    obtain ⟨grows', runs'⟩ := compileNode_emits right second
    refine ⟨grows.trans grows', fun names known linked program => ?_⟩
    rw [strictValue, stackHeight]
    exact Runs.binary (stackHeight_pos left) (runs names (grows'.1.trans known) linked program)
      (runs' names known linked program)
      fun cursor next stack left right read => StateWasm.resume_binary (opBinary_mem op) read
  | .index object index, before, after, code, compiled => by
    simp only [compileNode, bind_ok, Prod.exists] at compiled
    obtain ⟨_, _, first, _, _, second, same⟩ := compiled
    cases same
    obtain ⟨grows, runs⟩ := compileNode_emits object first
    obtain ⟨grows', runs'⟩ := compileNode_emits index second
    refine ⟨grows.trans grows', fun names known linked program => ?_⟩
    rw [strictValue, stackHeight]
    exact Runs.binary (stackHeight_pos object) (runs names (grows'.1.trans known) linked program)
      (runs' names known linked program)
      fun cursor next stack left right read => StateWasm.resume_binary (by decide) read
  | .member object property, before, after, code, compiled => by
    simp only [compileNode, bind_ok, Prod.exists] at compiled
    obtain ⟨_, _, inner, text, pushed, same⟩ := compiled
    cases same
    obtain ⟨grows, runs⟩ := compileNode_emits object inner
    refine ⟨grows, fun names known linked program => ?_⟩
    rw [strictValue, stackHeight]
    exact Runs.unary (stackHeight_pos object) (runs names known linked program)
      fun cursor next stack value read =>
        StateWasm.resume_member false read (pushProgramString_ok pushed)
  | .optionalMember object property, before, after, code, compiled => by
    simp only [compileNode, bind_ok, Prod.exists] at compiled
    obtain ⟨_, _, inner, text, pushed, same⟩ := compiled
    cases same
    obtain ⟨grows, runs⟩ := compileNode_emits object inner
    refine ⟨grows, fun names known linked program => ?_⟩
    rw [strictValue, stackHeight]
    exact Runs.unary (stackHeight_pos object) (runs names known linked program)
      fun cursor next stack value read =>
        StateWasm.resume_member true read (pushProgramString_ok pushed)
  | .call path args, before, after, code, compiled => nomatch compiled
  | .list items, before, after, code, compiled => by
    simp only [compileNode, bind_ok, Prod.exists] at compiled
    obtain ⟨count, counted, _, _, inner, same⟩ := compiled
    cases same
    obtain ⟨grows, runs⟩ := compileNodes_emits items inner
    obtain ⟨small, rfl⟩ := reactiveCollectionCount_ok counted
    refine ⟨grows, fun names known linked program => ?_⟩
    rw [strictValue, stackHeight, Option.map_eq_bind]
    refine Runs.collect (runs names known linked program) fun cursor next stack values found read => ?_
    rw [← strictValues_length found] at read small
    exact StateWasm.resume_list small read
  | .object fields, before, after, code, compiled => by
    simp only [compileNode, bind_ok, Prod.exists] at compiled
    obtain ⟨count, counted, _, _, inner, keys, pushed, same⟩ := compiled
    cases same
    obtain ⟨grows, runs⟩ := compileValues_emits fields inner
    obtain ⟨small, rfl⟩ := reactiveCollectionCount_ok counted
    have keyed : (fields.map Prod.fst).length = fields.length := List.length_map _
    rw [← keyed] at small
    refine ⟨grows, fun names known linked program => ?_⟩
    rw [strictValue, stackHeight, List.append_assoc]
    refine Runs.collect (runs names known linked program) fun cursor next stack values found read => ?_
    rw [List.cons_append, ← keyed] at read
    have same : values.length = (fields.map Prod.fst).length := by
      rw [strictFields_length found, keyed]
    rw [StateWasm.resume_object same small (pushKeys_ok pushed) read]
    split <;> rfl

theorem compileNodes_emits : ∀ (items : List (AxExpr F)) {before after : List String} {code : Bytes},
    compileNodes states items before = .ok (after, code) →
      EmitsAll states before after dependencies env code (stackHeights items) (strictValues env items)
  | [], before, after, code, compiled => by
    cases compiled
    exact ⟨.refl before, fun names _ _ program => RunsAll.nil⟩
  | expr :: rest, before, after, code, compiled => by
    simp only [compileNodes, bind_ok, Prod.exists] at compiled
    obtain ⟨_, _, first, _, _, second, same⟩ := compiled
    cases same
    obtain ⟨grows, runs⟩ := compileNode_emits expr first
    obtain ⟨grows', runs'⟩ := compileNodes_emits rest second
    refine ⟨grows.trans grows', fun names known linked program => ?_⟩
    rw [strictValues, stackHeights]
    exact RunsAll.cons (stackHeight_pos expr) (runs names (grows'.1.trans known) linked program)
      (runs' names known linked program)

theorem compileValues_emits : ∀ (fields : List (String × AxExpr F)) {before after : List String}
    {code : Bytes}, compileValues states fields before = .ok (after, code) →
      EmitsAll states before after dependencies env code (fieldHeights fields) (strictFields env fields)
  | [], before, after, code, compiled => by
    cases compiled
    exact ⟨.refl before, fun names _ _ program => RunsAll.nil⟩
  | (name, expr) :: rest, before, after, code, compiled => by
    simp only [compileValues, bind_ok, Prod.exists] at compiled
    obtain ⟨_, _, first, _, _, second, same⟩ := compiled
    cases same
    obtain ⟨grows, runs⟩ := compileNode_emits expr first
    obtain ⟨grows', runs'⟩ := compileValues_emits rest second
    refine ⟨grows.trans grows', fun names known linked program => ?_⟩
    rw [strictFields, fieldHeights]
    exact RunsAll.cons (stackHeight_pos expr) (runs names (grows'.1.trans known) linked program)
      (runs' names known linked program)

end

theorem compiled_known {expr : AxExpr F} {names : List String} {code : Bytes}
    (compiled : compileNode states expr [] = .ok (names, code)) :
    ∀ name ∈ names, (states name).isSome := by
  obtain ⟨⟨-, collected⟩, -⟩ : Emits states [] names [] (fun _ => none) code (stackHeight expr)
    (strictValue (fun _ => none) expr) := compileNode_emits expr compiled
  intro name member
  exact (collected name member).resolve_left List.not_mem_nil

/-- A compiled expression has its strict meaning, unless it needs too many stack values. -/
theorem evaluate_compiled {expr : AxExpr F} {names : List String} {code : Bytes}
    (compiled : compileNode states expr [] = .ok (names, code))
    (linked : Linked names dependencies env) :
    StateWasm.evaluateExpressionProgram (axExpressionMagic ++ code) dependencies =
      if stackHeight expr > StateWasm.axExpressionStackMaxValues then none
      else strictValue env expr := by
  obtain ⟨-, runs⟩ := compileNode_emits expr compiled
  have length : (axExpressionMagic ++ code).length = 4 + code.length := List.length_append
  have read : Reads (axExpressionMagic ++ code) 4 code (axExpressionMagic ++ code).length :=
    ⟨by simp [axExpressionMagic], length, Nat.le_refl _⟩
  have run := runs names List.prefix_rfl linked _ 4 _ [] (Nat.zero_le _) read
  have loop : StateWasm.runProgram (axExpressionMagic ++ code) dependencies
      ((axExpressionMagic ++ code).length + 1) 4 [] =
      StateWasm.resume (axExpressionMagic ++ code) dependencies 4 [] :=
    StateWasm.runProgram_fuel _ _ (by omega) (by omega)
  have header : ((axExpressionMagic ++ code).length < 4 ||
      (axExpressionMagic ++ code).take 4 != [65, 88, 69, 1]) = false := by
    rw [Bool.or_eq_false_iff]
    exact ⟨decide_eq_false (by omega), rfl⟩
  rw [StateWasm.evaluateExpressionProgram, header, if_neg Bool.false_ne_true, loop, run,
    List.length_nil, Nat.zero_add]
  simp only [StateWasm.resume_end]
  cases strictValue env expr <;> rfl

end Correct

end Axonyx.Core
