import Axonyx.Core.Reactive
import Axonyx.Ieee

/-! Inlining against the server's calls. The server evaluates the arguments of a call and
binds their values on top of its caller's scope; inlining puts the argument itself where the
body mentions the parameter, and expands it there once more. -/
namespace Axonyx.Core

open Outcome (bind_ok toOption_bind toOption_map toOption_eq_some)

variable {F : Type} [Float64 F]

section Reached

/-- Whether a binary operator evaluates its right operand. -/
def reachesRight : AxBinaryOp → AxValue F → Bool
  | .and, left => isTruthy left
  | .or, left => !isTruthy left
  | .fallback, left => left.isNull
  | _, _ => true

variable (value : AxExpr F → Eval (AxValue F)) (p : AxExpr F → Prop)

mutual

/-- A property of an expression and of every subexpression that is evaluated for its value. -/
def AxExpr.Reached : AxExpr F → Prop
  | .unary op expr => p (.unary op expr) ∧ expr.Reached
  | .binary op left right => p (.binary op left right) ∧ left.Reached ∧
      ∀ a, value left = .ok a → reachesRight op a = true → right.Reached
  | .index owner key => p (.index owner key) ∧ owner.Reached ∧ ∀ a, value owner = .ok a → key.Reached
  | .member owner property => p (.member owner property) ∧ owner.Reached
  | .optionalMember owner property => p (.optionalMember owner property) ∧ owner.Reached
  | .call path args => p (.call path args) ∧ AxExpr.ReachedAll args
  | .list items => p (.list items) ∧ AxExpr.ReachedAll items
  | .object fields => p (.object fields) ∧ AxExpr.ReachedFields fields
  | expr => p expr

def AxExpr.ReachedAll : List (AxExpr F) → Prop
  | [] => True
  | expr :: rest => expr.Reached ∧ ∀ a, value expr = .ok a → AxExpr.ReachedAll rest

def AxExpr.ReachedFields : List (String × AxExpr F) → Prop
  | [] => True
  | (_, expr) :: rest => expr.Reached ∧ ∀ a, value expr = .ok a → AxExpr.ReachedFields rest

end

end Reached

section Outcomes

/-- A binary operator behind its left operand. -/
def continueBinary (overflowChecks : Bool) (op : AxBinaryOp) (left : AxValue F)
    (right : Eval (AxValue F)) : Eval (AxValue F) :=
  match op with
  | .and => if !isTruthy left then .ok (.bool false) else right.map fun b => .bool (isTruthy b)
  | .or => if isTruthy left then .ok (.bool true) else right.map fun b => .bool (isTruthy b)
  | .fallback => if !left.isNull then .ok left else right
  | op => right >>= evalBinaryExpr overflowChecks op left

variable {overflowChecks : Bool} {call : Caller F} {scope : Scope F}

theorem evalExpr_binary (op : AxBinaryOp) (left right : AxExpr F) :
    evalExpr overflowChecks call scope (.binary op left right) = (do
      let a ← evalExpr overflowChecks call scope left
      continueBinary overflowChecks op a (evalExpr overflowChecks call scope right)) := by
  rw [evalExpr]
  cases evalExpr overflowChecks call scope left with
  | error stop => rfl
  | ok a =>
    cases op
    case and =>
      simp only [bind, Except.bind, continueBinary]
      split
      · rfl
      · cases evalExpr overflowChecks call scope right <;> rfl
    case or =>
      simp only [bind, Except.bind, continueBinary]
      split
      · rfl
      · cases evalExpr overflowChecks call scope right <;> rfl
    all_goals rfl

theorem continueBinary_toOption {op : AxBinaryOp} {a : AxValue F} {first second : Eval (AxValue F)}
    (same : reachesRight op a = true → first.toOption = second.toOption) :
    (continueBinary overflowChecks op a first).toOption =
      (continueBinary overflowChecks op a second).toOption := by
  cases op
  case and =>
    simp only [continueBinary, reachesRight] at same ⊢
    cases truthy : isTruthy a with
    | true => simp [toOption_map, same truthy]
    | false => rfl
  case or =>
    simp only [continueBinary, reachesRight] at same ⊢
    cases truthy : isTruthy a with
    | true => rfl
    | false => simp [toOption_map, same (by rw [truthy]; rfl)]
  case fallback =>
    simp only [continueBinary, reachesRight] at same ⊢
    cases null : a.isNull with
    | true => simp [same null]
    | false => rfl
  all_goals
    simp only [continueBinary, reachesRight, forall_const] at same ⊢
    rw [toOption_bind, toOption_bind, same]

end Outcomes

section Simulation

/-- `?.` forgives this. -/
def forgiven : Stop → Bool
  | .error (.unknownIdentifier _) | .error (.unknownMember _) => true
  | _ => false

theorem optionalMember_toOption {property : String} {first second : Eval (AxValue F)}
    (same : first.toOption = second.toOption)
    (kind : ∀ stop stop', first = .error stop → second = .error stop' →
      forgiven stop = forgiven stop') :
    (optionalMemberValue property first).toOption =
      (optionalMemberValue property second).toOption := by
  match first, second with
  | .ok a, .ok b =>
    cases same
    rfl
  | .ok _, .error _ | .error _, .ok _ => cases same
  | .error stop, .error stop' =>
    have fails (stop : Stop) : (optionalMemberValue (F := F) property (.error stop)).toOption =
        if forgiven stop then some .null else none := by
      unfold optionalMemberValue forgiven
      split <;> simp_all [Except.toOption]
    rw [fails, fails, kind stop stop' rfl rfl]

variable {overflowChecks : Bool} {inlined call : Caller F} {state scope : Scope F}
  {inliner : Inliner F} {p : AxExpr F → Prop}

/-- The leaves of an inliner keep the outcome, given `p`: the names, the kind of failure below
a `?.`, and the calls once their arguments do. -/
structure Simulates (overflowChecks : Bool) (inlined call : Caller F) (state scope : Scope F)
    (inliner : Inliner F) (p : AxExpr F → Prop) : Prop where
  identifier : ∀ {name result}, inliner.identifier name = .ok result → p (.identifier name) →
    (evalExpr overflowChecks inlined state result).toOption =
      (evalExpr overflowChecks call scope (.identifier name)).toOption
  optionalMember : ∀ {owner property result}, expandExpr inliner owner = .ok result →
    p (.optionalMember owner property) → ∀ stop stop',
    evalExpr overflowChecks inlined state result = .error stop →
    evalExpr overflowChecks call scope owner = .error stop' → forgiven stop = forgiven stop'
  call : ∀ {path args function expanded result}, inliner.check path args.length = .ok function →
    expandExprs inliner args = .ok expanded → inliner.inline function expanded = .ok result →
    p (.call path args) →
    (evalExprs overflowChecks inlined state expanded).toOption =
      (evalExprs overflowChecks call scope args).toOption →
    (evalExpr overflowChecks inlined state result).toOption =
      (evalExpr overflowChecks call scope (.call path args)).toOption

mutual

theorem Simulates.expr (simulates : Simulates overflowChecks inlined call state scope inliner p) :
    ∀ {expr result : AxExpr F}, expandExpr inliner expr = .ok result →
      expr.Reached (evalExpr overflowChecks call scope) p →
      (evalExpr overflowChecks inlined state result).toOption =
        (evalExpr overflowChecks call scope expr).toOption
  | .string _, result, expanded, _ | .number _, result, expanded, _
  | .float _, result, expanded, _ | .bool _, result, expanded, _ => by
    cases expanded
    rfl
  | .identifier _, result, expanded, reached => simulates.identifier expanded reached
  | .unary op expr, result, expanded, reached => by
    obtain ⟨operand, inner, same⟩ := bind_ok.mp expanded
    cases same
    simp only [evalExpr]
    exact Outcome.bind_congr (simulates.expr inner reached.2) fun _ _ => rfl
  | .binary op left right, result, expanded, reached => by
    obtain ⟨first, inner, rest⟩ := bind_ok.mp expanded
    obtain ⟨second, inner', same⟩ := bind_ok.mp rest
    cases same
    rw [evalExpr_binary, evalExpr_binary]
    refine Outcome.bind_congr (simulates.expr inner reached.2.1) fun a found => ?_
    exact continueBinary_toOption fun needed =>
      simulates.expr inner' (reached.2.2 a found needed)
  | .index owner key, result, expanded, reached => by
    obtain ⟨first, inner, rest⟩ := bind_ok.mp expanded
    obtain ⟨second, inner', same⟩ := bind_ok.mp rest
    cases same
    simp only [evalExpr]
    refine Outcome.bind_congr (simulates.expr inner reached.2.1) fun a found => ?_
    exact Outcome.bind_congr (simulates.expr inner' (reached.2.2 a found)) fun _ _ => rfl
  | .member owner property, result, expanded, reached => by
    obtain ⟨operand, inner, same⟩ := bind_ok.mp expanded
    cases same
    simp only [evalExpr]
    exact Outcome.bind_congr (simulates.expr inner reached.2) fun _ _ => rfl
  | .optionalMember owner property, result, expanded, reached => by
    obtain ⟨operand, inner, same⟩ := bind_ok.mp expanded
    cases same
    simp only [evalExpr]
    exact optionalMember_toOption (simulates.expr inner reached.2)
      (simulates.optionalMember inner reached.1)
  | .call path args, result, expanded, reached => by
    obtain ⟨function, checked, rest⟩ := bind_ok.mp expanded
    obtain ⟨values, inner, inlines⟩ := bind_ok.mp rest
    exact simulates.call checked inner inlines reached.1 (simulates.exprs inner reached.2)
  | .list items, result, expanded, reached => by
    obtain ⟨values, inner, same⟩ := bind_ok.mp expanded
    cases same
    simp only [evalExpr, toOption_map, simulates.exprs inner reached.2]
  | .object fields, result, expanded, reached => by
    obtain ⟨values, inner, same⟩ := bind_ok.mp expanded
    cases same
    simp only [evalExpr, toOption_map, simulates.fields inner reached.2]

theorem Simulates.exprs (simulates : Simulates overflowChecks inlined call state scope inliner p) :
    ∀ {items results : List (AxExpr F)}, expandExprs inliner items = .ok results →
      AxExpr.ReachedAll (evalExpr overflowChecks call scope) p items →
      (evalExprs overflowChecks inlined state results).toOption =
        (evalExprs overflowChecks call scope items).toOption
  | [], results, expanded, _ => by
    cases expanded
    rfl
  | expr :: rest, results, expanded, reached => by
    obtain ⟨first, inner, others⟩ := bind_ok.mp expanded
    obtain ⟨later, inner', same⟩ := bind_ok.mp others
    cases same
    simp only [evalExprs]
    refine Outcome.bind_congr (simulates.expr inner reached.1) fun a found => ?_
    exact Outcome.bind_congr (simulates.exprs inner' (reached.2 a found)) fun _ _ => rfl

theorem Simulates.fields (simulates : Simulates overflowChecks inlined call state scope inliner p) :
    ∀ {fields results : List (String × AxExpr F)}, expandFields inliner fields = .ok results →
      AxExpr.ReachedFields (evalExpr overflowChecks call scope) p fields →
      (evalFields overflowChecks inlined state results).toOption =
        (evalFields overflowChecks call scope fields).toOption
  | [], results, expanded, _ => by
    cases expanded
    rfl
  | (name, expr) :: rest, results, expanded, reached => by
    obtain ⟨first, inner, others⟩ := bind_ok.mp expanded
    obtain ⟨later, inner', same⟩ := bind_ok.mp others
    cases same
    simp only [evalFields]
    refine Outcome.bind_congr (simulates.expr inner reached.1) fun a found => ?_
    exact Outcome.bind_congr (simulates.fields inner' (reached.2 a found)) fun _ _ => rfl

end

end Simulation

section Expansions

def NotCall : AxExpr F → Prop
  | .call _ _ => False
  | _ => True

/-- No name of the expression is a local. -/
def Outside (locals : Locals F) : AxExpr F → Prop
  | .identifier name => locals name = none
  | _ => True

variable {inliner : Inliner F} {locals : Locals F}

mutual

/-- Expanding an expression again changes nothing, unless it mentions a local. -/
theorem expand_outside
    (leaf : ∀ name, locals name = none → inliner.identifier name = .ok (.identifier name)) :
    ∀ {expr : AxExpr F}, expr.Every NotCall → expr.Every (Outside locals) →
      expandExpr inliner expr = .ok expr
  | .string _, _, _ | .number _, _, _ | .float _, _, _ | .bool _, _, _ => rfl
  | .identifier name, _, outside => leaf name outside.1
  | .unary _ expr, plain, outside => by
    rw [expandExpr, expand_outside leaf plain.2 outside.2]
    rfl
  | .binary _ left right, plain, outside => by
    rw [expandExpr, expand_outside leaf plain.2.1 outside.2.1,
      expand_outside leaf plain.2.2 outside.2.2]
    rfl
  | .index owner key, plain, outside => by
    rw [expandExpr, expand_outside leaf plain.2.1 outside.2.1,
      expand_outside leaf plain.2.2 outside.2.2]
    rfl
  | .member owner _, plain, outside => by
    rw [expandExpr, expand_outside leaf plain.2 outside.2]
    rfl
  | .optionalMember owner _, plain, outside => by
    rw [expandExpr, expand_outside leaf plain.2 outside.2]
    rfl
  | .call _ _, plain, _ => plain.1.elim
  | .list items, plain, outside => by
    rw [expandExpr, expandExprs_outside leaf plain.2 outside.2]
    rfl
  | .object fields, plain, outside => by
    rw [expandExpr, expandFields_outside leaf plain.2 outside.2]
    rfl

theorem expandExprs_outside
    (leaf : ∀ name, locals name = none → inliner.identifier name = .ok (.identifier name)) :
    ∀ {items : List (AxExpr F)}, AxExpr.BelowAll NotCall items →
      AxExpr.BelowAll (Outside locals) items → expandExprs inliner items = .ok items
  | [], _, _ => rfl
  | expr :: rest, plain, outside => by
    rw [expandExprs, expand_outside leaf plain.1 outside.1,
      expandExprs_outside leaf plain.2 outside.2]
    rfl

theorem expandFields_outside
    (leaf : ∀ name, locals name = none → inliner.identifier name = .ok (.identifier name)) :
    ∀ {fields : List (String × AxExpr F)}, AxExpr.BelowFields NotCall fields →
      AxExpr.BelowFields (Outside locals) fields → expandFields inliner fields = .ok fields
  | [], _, _ => rfl
  | (_, expr) :: rest, plain, outside => by
    rw [expandFields, expand_outside leaf plain.1 outside.1,
      expandFields_outside leaf plain.2 outside.2]
    rfl

end

/-- The leaves of an inliner leave no call. -/
structure Plain (inliner : Inliner F) : Prop where
  identifier : ∀ {name result}, inliner.identifier name = .ok result → result.Every NotCall
  inline : ∀ {function args result}, AxExpr.BelowAll NotCall args →
    inliner.inline function args = .ok result → result.Every NotCall

mutual

theorem Plain.expr (plain : Plain inliner) : ∀ {expr result : AxExpr F},
    expandExpr inliner expr = .ok result → result.Every NotCall
  | .string _, result, expanded | .number _, result, expanded | .float _, result, expanded
  | .bool _, result, expanded => by
    cases expanded
    exact ⟨trivial, trivial⟩
  | .identifier _, result, expanded => plain.identifier expanded
  | .unary op expr, result, expanded => by
    obtain ⟨operand, inner, same⟩ := bind_ok.mp expanded
    cases same
    exact ⟨trivial, plain.expr inner⟩
  | .binary op left right, result, expanded | .index left right, result, expanded => by
    obtain ⟨first, inner, rest⟩ := bind_ok.mp expanded
    obtain ⟨second, inner', same⟩ := bind_ok.mp rest
    cases same
    exact ⟨trivial, plain.expr inner, plain.expr inner'⟩
  | .member owner property, result, expanded | .optionalMember owner property, result, expanded => by
    obtain ⟨operand, inner, same⟩ := bind_ok.mp expanded
    cases same
    exact ⟨trivial, plain.expr inner⟩
  | .call path args, result, expanded => by
    obtain ⟨function, checked, rest⟩ := bind_ok.mp expanded
    obtain ⟨values, inner, inlines⟩ := bind_ok.mp rest
    exact plain.inline (plain.exprs inner) inlines
  | .list items, result, expanded => by
    obtain ⟨values, inner, same⟩ := bind_ok.mp expanded
    cases same
    exact ⟨trivial, plain.exprs inner⟩
  | .object fields, result, expanded => by
    obtain ⟨values, inner, same⟩ := bind_ok.mp expanded
    cases same
    exact ⟨trivial, plain.fields inner⟩

theorem Plain.exprs (plain : Plain inliner) : ∀ {items results : List (AxExpr F)},
    expandExprs inliner items = .ok results → AxExpr.BelowAll NotCall results
  | [], results, expanded => by
    cases expanded
    trivial
  | expr :: rest, results, expanded => by
    obtain ⟨first, inner, others⟩ := bind_ok.mp expanded
    obtain ⟨later, inner', same⟩ := bind_ok.mp others
    cases same
    exact ⟨plain.expr inner, plain.exprs inner'⟩

theorem Plain.fields (plain : Plain inliner) : ∀ {fields results : List (String × AxExpr F)},
    expandFields inliner fields = .ok results → AxExpr.BelowFields NotCall results
  | [], results, expanded => by
    cases expanded
    trivial
  | (name, expr) :: rest, results, expanded => by
    obtain ⟨first, inner, others⟩ := bind_ok.mp expanded
    obtain ⟨later, inner', same⟩ := bind_ok.mp others
    cases same
    exact ⟨plain.expr inner, plain.fields inner'⟩

end

def PlainLocals (locals : Locals F) : Prop :=
  ∀ name expr, locals name = some expr → expr.Every NotCall

theorem PlainLocals.none : PlainLocals (fun _ => none : Locals F) := by
  intro name expr found
  cases found

theorem PlainLocals.insert {locals : Locals F} (plain : PlainLocals locals) {expr : AxExpr F}
    (value : expr.Every NotCall) (name : String) : PlainLocals (locals.insert name expr) := by
  intro other found same
  unfold Locals.insert at same
  split at same
  · cases same
    exact value
  · exact plain other found same

theorem bindLocals_plain {expand : Locals F → AxExpr F → Expanded (AxExpr F)} {name : String}
    (keeps : ∀ locals expr result, PlainLocals locals → expand locals expr = .ok result →
      result.Every NotCall) :
    ∀ {params : List (AxComponentParamDef F)} {args : List (AxExpr F)} {locals result : Locals F},
      AxExpr.BelowAll NotCall args → PlainLocals locals →
      bindLocals expand name params args locals = .ok result → PlainLocals result
  | [], _, locals, result, _, plain, bound => by
    cases bound
    exact plain
  | param :: params, arg :: args, locals, result, values, plain, bound =>
    bindLocals_plain keeps values.2 (plain.insert values.1 param.name) bound
  | param :: params, [], locals, result, values, plain, bound => by
    rw [bindLocals] at bound
    split at bound
    · obtain ⟨value, expanded, rest⟩ := bind_ok.mp bound
      exact bindLocals_plain keeps values (plain.insert (keeps _ _ _ plain expanded) param.name) rest
    · cases bound

variable (bindings : ConversionBindings F)

theorem inlinerAt_check (fuel : Nat) (locals : Locals F) (localStack callStack : List String) :
    (inlinerAt bindings fuel locals localStack callStack).check = checkCall bindings callStack := by
  cases fuel <;> rfl

theorem inlinerAt_absent {locals : Locals F} {name : String} (absent : locals name = none)
    (fuel : Nat) (localStack callStack : List String) :
    (inlinerAt bindings fuel locals localStack callStack).identifier name =
      .ok (.identifier name) := by
  cases fuel <;> simp only [inlinerAt, inlinerWith, absent]

variable {bindings}

theorem inlinerAt_present {fuel : Nat} {locals : Locals F} {localStack callStack : List String}
    {name : String} {value result : AxExpr F} (present : locals name = some value)
    (expanded : (inlinerAt bindings fuel locals localStack callStack).identifier name =
      .ok result) :
    ∃ less, fuel = less + 1 ∧ expandExpr
      (inlinerAt bindings less locals (localStack ++ [name]) callStack) value = .ok result := by
  cases fuel with
  | zero =>
    simp only [inlinerAt, inlinerWith, present] at expanded
    split at expanded <;> cases expanded
  | succ less =>
    simp only [inlinerAt, inlinerWith, present] at expanded
    split at expanded
    · cases expanded
    · exact ⟨less, rfl, expanded⟩

theorem inlinerAt_inline {fuel : Nat} {locals : Locals F} {localStack callStack : List String}
    {function : AxFunctionDef F} {args : List (AxExpr F)} {result : AxExpr F}
    (inlines : (inlinerAt bindings fuel locals localStack callStack).inline function args =
      .ok result) :
    ∃ less bound, fuel = less + 1 ∧
      bindLocals (fun locals => expandExpr
        (inlinerAt bindings less locals localStack (callStack ++ [function.name])))
        function.name function.params args (fun _ => none) = .ok bound ∧
      expandExpr (inlinerAt bindings less bound localStack (callStack ++ [function.name]))
        function.body = .ok result := by
  cases fuel with
  | zero =>
    obtain ⟨_, _, body⟩ := bind_ok.mp inlines
    cases body
  | succ less =>
    obtain ⟨bound, binds, body⟩ := bind_ok.mp inlines
    exact ⟨less, bound, rfl, binds, body⟩

theorem inlinerAt_plain (fuel : Nat) {locals : Locals F} (localStack callStack : List String)
    (plain : PlainLocals locals) : Plain (inlinerAt bindings fuel locals localStack callStack) := by
  induction fuel using Nat.strongRecOn generalizing locals localStack callStack with
  | ind fuel ih =>
  refine ⟨fun {name result} expanded => ?_, fun {function args result} values inlines => ?_⟩
  · cases found : locals name with
    | none =>
      rw [inlinerAt_absent bindings found] at expanded
      cases expanded
      exact ⟨trivial, trivial⟩
    | some value =>
      obtain ⟨less, rfl, again⟩ := inlinerAt_present found expanded
      exact (ih less (Nat.lt_succ_self less) _ _ plain).expr again
  · obtain ⟨less, bound, rfl, binds, body⟩ := inlinerAt_inline inlines
    have lower {locals : Locals F} (plain : PlainLocals locals) :=
      ih less (Nat.lt_succ_self less) localStack (callStack ++ [function.name]) plain
    have inner := bindLocals_plain (fun _ _ _ plain expanded => (lower plain).expr expanded) values
      PlainLocals.none binds
    exact (lower inner).expr body

end Expansions

section Kept

variable (server : Server F) (states : String → Option StateBindingPlan) (state : Scope F)
  (depth spare : Nat)

/-- The functions of a page are the same for the inliner and for the server. -/
def Server.bindings : ConversionBindings F := ⟨states, server.functions⟩

/-- The scope of a function body, before the body. -/
def bindArgs (function : AxFunctionDef F) (args : List (AxExpr F)) (depth : Nat) (scope : Scope F) :
    Eval (Scope F) := do
  let values ← evalExprs server.overflowChecks (callAt server (depth + 1)) scope args
  bindParams (evalAt server depth) function.params values scope

/-- A name has on the server the value that inlining gives it: no caller's parameter hides a
state from a function, and no parameter of the function captures a name of an argument. -/
def NameKept (locals : Locals F) (scope : Scope F) (name : String) : Prop :=
  match locals name with
  | none => name = "null" ∨ scope name = state name
  | some value => name ≠ "null" ∧ value.Every (Outside locals)

/-- The defaults of a call and its body, each with the parameters bound so far. -/
def ParamsKept (kept : Locals F → Scope F → AxExpr F → Prop)
    (expand : Locals F → AxExpr F → Expanded (AxExpr F))
    (eval : Scope F → AxExpr F → Eval (AxValue F)) (body : AxExpr F) :
    List (AxComponentParamDef F) → List (AxExpr F) → List (AxValue F) → Locals F → Scope F → Prop
  | [], _, _, locals, scope => kept locals scope body
  | param :: params, arg :: args, value :: values, locals, scope =>
    ParamsKept kept expand eval body params args values (locals.insert param.name arg)
      (scope.insert param.name value)
  | param :: params, [], [], locals, scope => ∀ default, param.default = some default →
      kept locals scope default ∧ ∀ arg value, expand locals default = .ok arg →
        eval scope default = .ok value →
        ParamsKept kept expand eval body params [] [] (locals.insert param.name arg)
          (scope.insert param.name value)
  | _ :: _, _, _, _, _ => True

/-- What inlining must meet at a node that the server evaluates, for a name, for the kind of
failure below a `?.` and for a call. A call with a failing argument or default must fail
inlined as well, although its body need not mention the parameter. -/
def NodeKept : Nat → Locals F → List String → List String → Scope F → AxExpr F → Prop
  | _, locals, _, _, scope, .identifier name => NameKept state locals scope name
  | fuel, locals, localStack, callStack, scope, .optionalMember owner _ => ∀ result stop stop',
      expandPureReactiveExpression (server.bindings states) fuel locals localStack callStack owner =
        .ok result →
      evalAt server depth state result = .error stop →
      evalAt server (spare + fuel) scope owner = .error stop' → forgiven stop = forgiven stop'
  | fuel + 1, locals, localStack, callStack, scope, .call path args => ∀ function expanded result,
      checkCall (server.bindings states) callStack path args.length = .ok function →
      expandExprs (inlinerAt (server.bindings states) (fuel + 1) locals localStack callStack) args =
        .ok expanded →
      (inlinerAt (server.bindings states) (fuel + 1) locals localStack callStack).inline function
        expanded = .ok result →
      (∀ stop, bindArgs server function args (spare + fuel) scope = .error stop →
        ∀ a, evalAt server depth state result ≠ .ok a) ∧
      ∀ values,
        evalExprs server.overflowChecks (callAt server (spare + fuel + 1)) scope args =
          .ok values →
        ParamsKept
          (fun locals scope expr => expr.Reached (evalAt server (spare + fuel) scope)
            (NodeKept fuel locals localStack (callStack ++ [function.name]) scope))
          (fun locals => expandPureReactiveExpression (server.bindings states) fuel locals localStack
            (callStack ++ [function.name]))
          (evalAt server (spare + fuel)) function.body function.params expanded values
          (fun _ => none) scope
  | _, _, _, _, _, _ => True

variable {server states state depth spare}

/-- The locals are the caller's parameters, evaluated in the scope of the states. -/
def Backed (server : Server F) (state : Scope F) (depth : Nat) (locals : Locals F)
    (scope : Scope F) : Prop :=
  ∀ name expr, locals name = some expr → expr.Every NotCall ∧
    ∃ value, scope name = some value ∧ evalAt server depth state expr = .ok value

theorem Backed.none (scope : Scope F) : Backed server state depth (fun _ => none) scope := by
  intro name expr found
  cases found

theorem Backed.plain {locals : Locals F} {scope : Scope F}
    (backed : Backed server state depth locals scope) : PlainLocals locals :=
  fun name expr found => (backed name expr found).1

theorem Backed.insert {locals : Locals F} {scope : Scope F}
    (backed : Backed server state depth locals scope) {expr : AxExpr F} {value : AxValue F}
    (plain : expr.Every NotCall) (found : evalAt server depth state expr = .ok value)
    (name : String) :
    Backed server state depth (locals.insert name expr) (scope.insert name value) := by
  intro other expr' same
  unfold Locals.insert at same
  unfold Scope.insert
  by_cases named : other = name
  · rw [if_pos named] at same ⊢
    cases same
    exact ⟨plain, value, rfl, found⟩
  · rw [if_neg named] at same ⊢
    exact backed other expr' same

/-- The parameters of a kept call, once the server has bound them. -/
theorem params_kept {kept : Locals F → Scope F → AxExpr F → Prop}
    {expand : Locals F → AxExpr F → Expanded (AxExpr F)}
    {eval : Scope F → AxExpr F → Eval (AxValue F)} {body : AxExpr F} {name : String}
    (sound : ∀ locals scope expr result, Backed server state depth locals scope →
      kept locals scope expr → expand locals expr = .ok result → result.Every NotCall ∧
        (evalAt server depth state result).toOption = (eval scope expr).toOption) :
    ∀ {params : List (AxComponentParamDef F)} {args : List (AxExpr F)} {values : List (AxValue F)}
      {locals bound : Locals F} {scope inner : Scope F},
      AxExpr.BelowAll NotCall args →
      evalExprs server.overflowChecks (callAt server depth) state args = .ok values →
      Backed server state depth locals scope →
      ParamsKept kept expand eval body params args values locals scope →
      bindLocals expand name params args locals = .ok bound →
      bindParams eval params values scope = .ok inner →
      Backed server state depth bound inner ∧ kept bound inner body
  | [], _, _, locals, bound, scope, inner, _, _, backed, keeps, binds, enters => by
    cases binds
    cases enters
    exact ⟨backed, keeps⟩
  | param :: params, arg :: args, values, locals, bound, scope, inner, plain, evaluated, backed, keeps,
    binds, enters => by
    simp only [evalExprs, bind_ok] at evaluated
    obtain ⟨value, first, rest, later, same⟩ := evaluated
    cases same
    exact params_kept sound plain.2 later (backed.insert plain.1 first param.name) keeps binds enters
  | param :: params, [], values, locals, bound, scope, inner, plain, evaluated, backed, keeps, binds,
    enters => by
    cases evaluated
    rw [bindLocals] at binds
    split at binds
    swap
    · cases binds
    next default given =>
    obtain ⟨arg, expanded, binds⟩ := bind_ok.mp binds
    rw [bindParams, given] at enters
    obtain ⟨value, found, enters⟩ := bind_ok.mp enters
    obtain ⟨here, keeps⟩ := keeps default given
    obtain ⟨plain', same⟩ := sound _ _ _ _ backed here expanded
    rw [found] at same
    exact params_kept sound plain rfl
      (backed.insert plain' (toOption_eq_some.mp same) param.name) (keeps arg value expanded found)
      binds enters

theorem checkCall_ok {bindings : ConversionBindings F} {callStack path : List String} {count : Nat}
    {function : AxFunctionDef F} (checked : checkCall bindings callStack path count = .ok function) :
    resolveFunction bindings.functions path = some function := by
  unfold checkCall at checked
  split at checked
  · split at checked
    · cases checked
    · next found =>
      split at checked
      · cases checked
      · split at checked <;> cases checked
        exact found
  · cases checked

theorem evalAt_call {path : List String} {args : List (AxExpr F)} {function : AxFunctionDef F}
    (found : resolveFunction server.functions path = some function) (depth : Nat)
    (scope : Scope F) :
    evalAt server (depth + 1) scope (.call path args) = (do
      let inner ← bindArgs server function args depth scope
      evalAt server depth inner function.body) := by
  unfold evalAt bindArgs
  rw [evalExpr]
  cases evalExprs server.overflowChecks (callAt server (depth + 1)) scope args with
  | error stop => rfl
  | ok values =>
    change callAt server (depth + 1) path values scope = _
    rw [callAt, found]
    rfl

theorem name_simulates {fuel : Nat} {locals : Locals F} {localStack callStack : List String}
    {scope : Scope F} {name : String} {result : AxExpr F}
    (backed : Backed server state depth locals scope) (keeps : NameKept state locals scope name)
    (expanded : (inlinerAt (server.bindings states) fuel locals localStack callStack).identifier
      name = .ok result) :
    (evalAt server depth state result).toOption =
      (evalAt server (spare + fuel) scope (.identifier name)).toOption := by
  unfold NameKept at keeps
  cases found : locals name with
  | none =>
    rw [inlinerAt_absent _ found] at expanded
    rw [found] at keeps
    cases expanded
    simp only [evalAt, evalExpr]
    by_cases null : name = "null"
    · rw [if_pos null, if_pos null]
    · rw [if_neg null, if_neg null, keeps.resolve_left null]
  | some value =>
    rw [found] at keeps
    obtain ⟨ordinary, outside⟩ := keeps
    obtain ⟨plain, meaning, here, there⟩ := backed name value found
    obtain ⟨less, rfl, again⟩ := inlinerAt_present found expanded
    rw [expand_outside (fun other absent => inlinerAt_absent _ absent _ _ _) plain outside] at again
    cases again
    rw [there, evalAt, evalExpr, if_neg ordinary, here]

theorem call_simulates {fuel : Nat} {locals : Locals F} {localStack callStack path : List String}
    {args expanded : List (AxExpr F)} {scope : Scope F} {function : AxFunctionDef F}
    {result : AxExpr F}
    (lower : ∀ {locals callStack scope}, Backed server state depth locals scope →
      Simulates server.overflowChecks (callAt server depth) (callAt server (spare + fuel)) state
        scope (inlinerAt (server.bindings states) fuel locals localStack callStack)
        (NodeKept server states state depth spare fuel locals localStack callStack scope))
    (backed : Backed server state depth locals scope)
    (checked : checkCall (server.bindings states) callStack path args.length = .ok function)
    (first : expandExprs (inlinerAt (server.bindings states) (fuel + 1) locals localStack callStack)
      args = .ok expanded)
    (inlines : (inlinerAt (server.bindings states) (fuel + 1) locals localStack callStack).inline
      function expanded = .ok result)
    (keeps : NodeKept server states state depth spare (fuel + 1) locals localStack callStack scope
      (.call path args))
    (same : (evalExprs server.overflowChecks (callAt server depth) state expanded).toOption =
      (evalExprs server.overflowChecks (callAt server (spare + fuel + 1)) scope args).toOption) :
    (evalAt server depth state result).toOption =
      (evalAt server (spare + fuel + 1) scope (.call path args)).toOption := by
  obtain ⟨fails, binds⟩ := keeps function expanded result checked first inlines
  rw [evalAt_call (checkCall_ok checked)]
  cases entered : bindArgs server function args (spare + fuel) scope with
  | error stop =>
    have none := fails stop entered
    cases value : evalAt server depth state result with
    | error other => rfl
    | ok a => exact absurd value (none a)
  | ok inner =>
    obtain ⟨values, evaluated, enters⟩ := bind_ok.mp entered
    rw [evaluated] at same
    obtain ⟨_, bound, same', bindsLocals, body⟩ := inlinerAt_inline inlines
    cases same'
    have sound (locals : Locals F) (scope : Scope F) (expr result : AxExpr F)
        (backed : Backed server state depth locals scope)
        (keeps : expr.Reached (evalAt server (spare + fuel) scope) (NodeKept server states state
          depth spare fuel locals localStack (callStack ++ [function.name]) scope))
        (expanded : expandPureReactiveExpression (server.bindings states) fuel locals localStack
          (callStack ++ [function.name]) expr = .ok result) :
        result.Every NotCall ∧ (evalAt server depth state result).toOption =
          (evalAt server (spare + fuel) scope expr).toOption :=
      ⟨(inlinerAt_plain _ _ _ backed.plain).expr expanded, (lower backed).expr expanded keeps⟩
    obtain ⟨backed', keeps'⟩ := params_kept sound
      ((inlinerAt_plain _ _ _ backed.plain).exprs first) (toOption_eq_some.mp same)
      (Backed.none scope) (binds values evaluated) bindsLocals enters
    exact (lower backed').expr body keeps'

/-- Inlining keeps the outcome of every node that meets its conditions. -/
theorem node_simulates : ∀ (fuel : Nat) {locals : Locals F} {localStack callStack : List String}
    {scope : Scope F}, Backed server state depth locals scope →
      Simulates server.overflowChecks (callAt server depth) (callAt server (spare + fuel)) state
        scope (inlinerAt (server.bindings states) fuel locals localStack callStack)
        (NodeKept server states state depth spare fuel locals localStack callStack scope)
  | 0, locals, localStack, callStack, scope, backed => by
    refine ⟨fun expanded keeps => ?_, fun expanded keeps stop stop' => ?_, fun _ _ inlines => ?_⟩
    · exact name_simulates backed keeps expanded
    · exact keeps _ stop stop' expanded
    · obtain ⟨_, _, absurd, _⟩ := inlinerAt_inline inlines
      cases absurd
  | fuel + 1, locals, localStack, callStack, scope, backed => by
    refine ⟨fun expanded keeps => ?_, fun expanded keeps stop stop' => ?_,
      fun checked first inlines keeps same => ?_⟩
    · exact name_simulates backed keeps expanded
    · exact keeps _ stop stop' expanded
    · rw [inlinerAt_check] at checked
      exact call_simulates (node_simulates fuel) backed checked first inlines keeps same

/-- `pick(a, b) = a`. -/
def pickServer : Server F64 where
  overflowChecks := true
  functions := [⟨"pick", [⟨"a", [], none⟩, ⟨"b", [], none⟩], .identifier "a"⟩]
  resolveCall _ _ := none

def sevens : Scope F64 := fun name => if name = "b" ∨ name = "c" then some (.number 7) else none

end Kept

end Axonyx.Core
