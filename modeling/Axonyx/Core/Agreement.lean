import Axonyx.Core.Correspondence
import Axonyx.Core.ReactiveRun
import Axonyx.Ieee

/-! The client's program against the server's evaluator. The client evaluates every operand
and checks every overflow; the server skips operands, forgives a missing member behind
`?.` and, in a build without overflow checks, wraps around. Where the two take the same
branch in every subexpression, they agree. -/
namespace Axonyx.Core

open StateWasm (ExprValue shown)

variable {F : Type} [Float64 F]

/-- An object literal has each key once: its fields are a map. -/
def KeysOnce : AxExpr F → Prop
  | .object fields => (fields.map Prod.fst).Nodup
  | _ => True

section Branches

variable (overflowChecks : Bool) (call : Caller F) (scope : Scope F)

/-- The operator of an expression does the same on both sides, given its operands' values on
the server: what the server skips has a value, an integer result fits, no number equals one of
the other type, and `?.` does not forgive an error below it. -/
def SameBranch : AxExpr F → Prop
  | .unary .neg expr => ∀ n, evalExpr overflowChecks call scope expr = .ok (.number n) →
      overflowChecks = false → checkedNeg n ≠ none
  | .binary .sub left right => ∀ a b, evalExpr overflowChecks call scope left = .ok (.number a) →
      evalExpr overflowChecks call scope right = .ok (.number b) →
      overflowChecks = false → checkedSub a b ≠ none
  | .binary .mul left right => ∀ a b, evalExpr overflowChecks call scope left = .ok (.number a) →
      evalExpr overflowChecks call scope right = .ok (.number b) →
      overflowChecks = false → checkedMul a b ≠ none
  | .binary .eq left right | .binary .ne left right => ∀ a b,
      evalExpr overflowChecks call scope left = .ok a →
      evalExpr overflowChecks call scope right = .ok b → mixedEqual a b = false
  | .binary .in left right => ∀ a items, evalExpr overflowChecks call scope left = .ok a →
      evalExpr overflowChecks call scope right = .ok (.list items) →
      items.any (fun item => mixedEqual a item) = true →
      items.any (fun item => item.eq a) = true
  | .binary .and left right => ∀ a, evalExpr overflowChecks call scope left = .ok a →
      isTruthy a = false → ∃ b, evalExpr overflowChecks call scope right = .ok b
  | .binary .or left right => ∀ a, evalExpr overflowChecks call scope left = .ok a →
      isTruthy a = true → ∃ b, evalExpr overflowChecks call scope right = .ok b
  | .binary .fallback left right => ∀ a, evalExpr overflowChecks call scope left = .ok a →
      a.isNull = false → ∃ b, evalExpr overflowChecks call scope right = .ok b
  | .optionalMember object property => ∀ stop,
      evalExpr overflowChecks call scope object = .error stop →
      optionalMemberValue (F := F) property (.error stop) = .error stop
  -- a compiled expression has no call left
  | .call path args => ∀ a, evalExpr overflowChecks call scope (.call path args) ≠ .ok a
  | _ => True

/-- Operators that evaluate both operands on the server too. -/
abbrev StrictOp (op : AxBinaryOp) : Prop := op ≠ .and ∧ op ≠ .or ∧ op ≠ .fallback

variable {overflowChecks call scope}

theorem evalExpr_strict {op : AxBinaryOp} (strict : StrictOp op) (left right : AxExpr F) :
    evalExpr overflowChecks call scope (.binary op left right) = (do
      let leftValue ← evalExpr overflowChecks call scope left
      let rightValue ← evalExpr overflowChecks call scope right
      evalBinaryExpr overflowChecks op leftValue rightValue) := by
  obtain ⟨noAnd, noOr, noFallback⟩ := strict
  rw [evalExpr]
  cases op <;> first | rfl | contradiction

theorem strict_value {op : AxBinaryOp} (strict : StrictOp op) {left right : AxExpr F}
    {a b : AxValue F} (first : evalExpr overflowChecks call scope left = .ok a)
    (second : evalExpr overflowChecks call scope right = .ok b) :
    evalExpr overflowChecks call scope (.binary op left right) =
      evalBinaryExpr overflowChecks op a b := by
  rw [evalExpr_strict strict, first, second]
  rfl

/-- Where the server has no value, it took no branch of its own. -/
theorem sameBranch_of_error {expr : AxExpr F}
    (failed : ∀ a, evalExpr overflowChecks call scope expr ≠ .ok a) :
    SameBranch overflowChecks call scope expr := by
  have integer {op : AxBinaryOp} (strict : StrictOp op) {left right : AxExpr F} {a b : Int64}
      {checked : Option Int64} {wrapped : Int64} (shape : expr = .binary op left right)
      (result : evalBinaryExpr overflowChecks op (.number a : AxValue F) (.number b) =
        (rawInt overflowChecks checked wrapped).map .number)
      (first : evalExpr overflowChecks call scope left = .ok (.number a))
      (second : evalExpr overflowChecks call scope right = .ok (.number b))
      (unchecked : overflowChecks = false) : checked ≠ none := by
    rintro rfl
    subst shape
    refine failed (.number wrapped) ?_
    rw [strict_value strict first second, result, unchecked]
    rfl
  unfold SameBranch
  split
  · next expr =>
    intro n found unchecked none
    refine failed (.number (-n)) ?_
    rw [evalExpr, found]
    change evalUnaryExpr overflowChecks .neg (.number n) = _
    simp only [evalUnaryExpr, none, unchecked, rawInt]
    rfl
  · intro a b first second unchecked
    exact integer (by decide) rfl rfl first second unchecked
  · intro a b first second unchecked
    exact integer (by decide) rfl rfl first second unchecked
  · intro a b first second
    exact absurd (strict_value (by decide) first second) (failed _)
  · intro a b first second
    exact absurd (strict_value (by decide) first second) (failed _)
  · intro a items first second
    exact absurd (strict_value (by decide) first second) (failed _)
  · intro a first falsy
    refine absurd ?_ (failed (.bool false))
    rw [evalExpr, first]
    simp only [bind, Except.bind, falsy]
    rfl
  · intro a first truthy
    refine absurd ?_ (failed (.bool true))
    rw [evalExpr, first]
    simp only [bind, Except.bind, truthy]
    rfl
  · intro a first present
    refine absurd ?_ (failed a)
    rw [evalExpr, first]
    simp only [bind, Except.bind, present]
    rfl
  · next object property =>
    intro stop found
    have forgiven := failed .null
    rw [evalExpr, found] at forgiven
    unfold optionalMemberValue at forgiven ⊢
    split at forgiven <;> simp_all
  · exact failed
  · trivial

/-- The client's values of the names in scope. -/
def clientScope (scope : Scope F) (name : String) : Option (ExprValue F) :=
  (scope name).map AxValue.toExpr

theorem unary_agrees_iff {op : AxUnaryOp} {expr : AxExpr F} {x : ExprValue F} {a : AxValue F}
    (found : evalExpr overflowChecks call scope expr = .ok a) (same : x.canonical = a.toExpr) :
    Agrees (StateWasm.evaluateUnaryOpcode (opUnary op) x) (evalUnaryExpr overflowChecks op a) ↔
      SameBranch overflowChecks call scope (.unary op expr) := by
  rw [agrees_iff, ← StateWasm.evaluateUnaryOpcode_canonical, same]
  cases op with
  | not =>
    refine iff_of_true ?_ trivial
    simp only [opUnary, StateWasm.evaluateUnaryOpcode, evalUnaryExpr, truthy_toExpr]
    rfl
  | neg =>
    rw [opUnary, neg_agrees_iff, SameBranch, found]
    simp only [Except.ok.injEq]

theorem binary_agrees_iff {op : AxBinaryOp} (strict : StrictOp op) {left right : AxExpr F}
    {x y : ExprValue F} {a b : AxValue F} (first : evalExpr overflowChecks call scope left = .ok a)
    (second : evalExpr overflowChecks call scope right = .ok b) (sameLeft : x.canonical = a.toExpr)
    (sameRight : y.canonical = b.toExpr) :
    Agrees (StateWasm.evaluateBinaryOpcode (opBinary op) x y) (evalBinaryExpr overflowChecks op a b) ↔
      SameBranch overflowChecks call scope (.binary op left right) := by
  rw [agrees_iff, shown_binary sameLeft sameRight]
  obtain ⟨noAnd, noOr, noFallback⟩ := strict
  cases op with
  | and | or | fallback => contradiction
  | add => exact iff_of_true (add_agrees a b) trivial
  | sub =>
    refine (numeric_agrees_iff a b FloatOps.sub "\x60-\x60" false
      (fun x y => raw_agrees_iff overflowChecks (checkedSub x y) (x - y)) (by simp)).trans ?_
    simp only [SameBranch, first, second, Except.ok.injEq]
  | mul =>
    refine (numeric_agrees_iff a b FloatOps.mul "\x60*\x60" false
      (fun x y => raw_agrees_iff overflowChecks (checkedMul x y) (x * y)) (by simp)).trans ?_
    simp only [SameBranch, first, second, Except.ok.injEq]
  | div =>
    refine (numeric_agrees_iff a b FloatOps.div "\x60/\x60" true
      (fun x y => iff_of_true (division_agrees (checkedDiv x y)) trivial) (by simp)).trans ?_
    simp [SameBranch]
  | rem =>
    refine (numeric_agrees_iff a b FloatOps.rem "\x60%\x60" true
      (fun x y => iff_of_true (division_agrees (checkedRem x y)) trivial) (by simp)).trans ?_
    simp [SameBranch]
  | eq =>
    simp only [opBinary, StateWasm.evaluateBinaryOpcode, evalBinaryExpr, valuesEqual_toExpr,
      SameBranch, first, second, Except.ok.injEq]
    refine (equality_agrees_iff a b Function.injective_id).trans ⟨?_, fun apart => apart a b rfl rfl⟩
    rintro apart _ _ rfl rfl
    exact apart
  | ne =>
    simp only [opBinary, StateWasm.evaluateBinaryOpcode, evalBinaryExpr, valuesEqual_toExpr,
      SameBranch, first, second, Except.ok.injEq]
    refine (equality_agrees_iff a b (fun _ _ => Bool.not_inj)).trans ⟨?_, fun apart => apart a b rfl rfl⟩
    rintro apart _ _ rfl rfl
    exact apart
  | gt => exact iff_of_true (compare_agrees a b Ordering.isGT "\x60>\x60") trivial
  | ge => exact iff_of_true (compare_agrees a b Ordering.isGE "\x60>=\x60") trivial
  | lt => exact iff_of_true (compare_agrees a b Ordering.isLT "\x60<\x60") trivial
  | le => exact iff_of_true (compare_agrees a b Ordering.isLE "\x60<=\x60") trivial
  | «in» =>
    refine (in_agrees_iff a b).trans ?_
    simp only [SameBranch, first, second, Except.ok.injEq]
    exact ⟨fun found _ items same => same ▸ found items, fun found items => found a items rfl⟩

/-- Both sides have the values of all items, and the same ones, or both have none. -/
def AgreesAll : Option (List (ExprValue F)) → Eval (List (AxValue F)) → Prop
  | some client, .ok server => StateWasm.canonicalItems client = itemsToExpr server
  | none, .error _ => True
  | some _, .error _ => False
  | none, .ok _ => False

theorem AgreesAll.cons {head : Option (ExprValue F)} {tail : Option (List (ExprValue F))}
    {first : Eval (AxValue F)} {rest : Eval (List (AxValue F))} (one : Agrees head first)
    (all : AgreesAll tail rest) :
    AgreesAll (do let value ← head; tail.map (value :: ·))
      (do let value ← first; let values ← rest; return value :: values) := by
  obtain ⟨x, a, rfl, rfl, same⟩ | ⟨stop, rfl, rfl⟩ := agrees_cases one
  · match tail, rest, all with
    | none, .error _, _ => trivial
    | some _, .ok _, all => exact congrArg₂ List.cons same all
  · trivial

/-- The fields of a literal, key by key. -/
def AgreesFields (names : List String) :
    Option (List (ExprValue F)) → Eval (List (String × AxValue F)) → Prop
  | some client, .ok server => StateWasm.canonicalFields (names.zip client) = fieldsToExpr server
  | none, .error _ => True
  | some _, .error _ => False
  | none, .ok _ => False

theorem AgreesFields.cons {name : String} {names : List String} {head : Option (ExprValue F)}
    {tail : Option (List (ExprValue F))} {first : Eval (AxValue F)}
    {rest : Eval (List (String × AxValue F))} (one : Agrees head first)
    (all : AgreesFields names tail rest) :
    AgreesFields (name :: names) (do let value ← head; tail.map (value :: ·))
      (do let value ← first; let values ← rest; return (name, value) :: values) := by
  obtain ⟨x, a, rfl, rfl, same⟩ | ⟨stop, rfl, rfl⟩ := agrees_cases one
  · match tail, rest, all with
    | none, .error _, _ => trivial
    | some _, .ok _, all => exact congrArg₂ List.cons (congrArg (Prod.mk name) same) all
  · trivial

theorem stopped_agrees {expr : AxExpr F} {client : Option (ExprValue F)} (stop : Stop)
    (none : client = none) (failed : evalExpr overflowChecks call scope expr = .error stop) :
    Agrees client (evalExpr overflowChecks call scope expr) ↔
      SameBranch overflowChecks call scope expr := by
  refine iff_of_true ?_ (sameBranch_of_error fun a found => ?_)
  · rw [none, failed]
    trivial
  · rw [failed] at found
    cases found

theorem identifier_agrees (name : String) :
    Agrees (strictValue (clientScope scope) (.identifier name))
      (evalExpr overflowChecks call scope (.identifier name)) := by
  rw [strictValue, evalExpr]
  split
  · rfl
  · unfold clientScope
    cases scope name with
    | none => trivial
    | some value => exact toExpr_canonical value

theorem list_agrees {items : List (AxExpr F)}
    (all : AgreesAll (strictValues (clientScope scope) items)
      (evalExprs overflowChecks call scope items)) :
    Agrees (strictValue (clientScope scope) (.list items))
      (evalExpr overflowChecks call scope (.list items)) := by
  rw [strictValue, evalExpr]
  revert all
  cases strictValues (clientScope scope) items <;>
    cases evalExprs overflowChecks call scope items <;> intro all
  · trivial
  · cases all
  · cases all
  · exact congrArg ExprValue.list all

theorem object_agrees {fields : List (String × AxExpr F)} (once : (fields.map Prod.fst).Nodup)
    (all : AgreesFields (fields.map Prod.fst) (strictFields (clientScope scope) fields)
      (evalFields overflowChecks call scope fields)) :
    Agrees (strictValue (clientScope scope) (.object fields))
      (evalExpr overflowChecks call scope (.object fields)) := by
  rw [strictValue, evalExpr]
  simp only [if_pos once]
  revert all
  cases strictFields (clientScope scope) fields <;>
    cases evalFields overflowChecks call scope fields <;> intro all
  · trivial
  · cases all
  · cases all
  · exact congrArg ExprValue.object all

theorem unary_node {op : AxUnaryOp} {expr : AxExpr F}
    (operand : Agrees (strictValue (clientScope scope) expr)
      (evalExpr overflowChecks call scope expr)) :
    Agrees (strictValue (clientScope scope) (.unary op expr))
        (evalExpr overflowChecks call scope (.unary op expr)) ↔
      SameBranch overflowChecks call scope (.unary op expr) := by
  obtain ⟨x, a, client, server, same⟩ | ⟨stop, client, server⟩ := agrees_cases operand
  · rw [strictValue, evalExpr, client, server]
    exact unary_agrees_iff server same
  · refine stopped_agrees stop ?_ ?_
    · rw [strictValue, client]
      rfl
    · rw [evalExpr, server]
      rfl

/-- The client evaluates the operand that the server skips. -/
theorem shortCircuit_agrees_iff {op : AxBinaryOp} (lazy : ¬StrictOp op) {left right : AxExpr F}
    {x : ExprValue F} {a : AxValue F} (client : strictValue (clientScope scope) left = some x)
    (server : evalExpr overflowChecks call scope left = .ok a) (same : x.canonical = a.toExpr)
    (second : Agrees (strictValue (clientScope scope) right)
      (evalExpr overflowChecks call scope right)) :
    Agrees (strictValue (clientScope scope) (.binary op left right))
        (evalExpr overflowChecks call scope (.binary op left right)) ↔
      SameBranch overflowChecks call scope (.binary op left right) := by
  have truthy := truthy_same same
  have null := isNull_same same
  rw [strictValue, evalExpr, client, server]
  obtain ⟨y, b, client', server', same'⟩ | ⟨stop, client', server'⟩ := agrees_cases second
  · have truthy' := truthy_same same'
    simp only [bind, Except.bind, Option.bind, client']
    cases op with
    | and =>
      refine iff_of_true ?_ fun _ _ _ => ⟨b, server'⟩
      simp only [server']
      cases known : isTruthy a <;>
        simp [opBinary, StateWasm.evaluateBinaryOpcode, truthy, truthy', known, Agrees, pure,
          Except.pure, ExprValue.canonical, AxValue.toExpr]
    | or =>
      refine iff_of_true ?_ fun _ _ _ => ⟨b, server'⟩
      simp only [server']
      cases known : isTruthy a <;>
        simp [opBinary, StateWasm.evaluateBinaryOpcode, truthy, truthy', known, Agrees, pure,
          Except.pure, ExprValue.canonical, AxValue.toExpr]
    | fallback =>
      refine iff_of_true ?_ fun _ _ _ => ⟨b, server'⟩
      simp only [server']
      cases known : a.isNull <;>
        simp [opBinary, StateWasm.evaluateBinaryOpcode, null, known, Agrees, pure, Except.pure,
          same, same']
    | _ => exact absurd (by decide) lazy
  · simp only [bind, Except.bind, Option.bind, client']
    cases op with
    | and => 
      simp only [SameBranch, server, server']
      cases known : isTruthy a <;> simp [known, Agrees, pure, Except.pure]
    | or =>
      simp only [SameBranch, server, server']
      cases known : isTruthy a <;> simp [known, Agrees, pure, Except.pure]
    | fallback =>
      simp only [SameBranch, server, server']
      cases known : a.isNull <;> simp [known, Agrees, pure, Except.pure]
    | _ => exact absurd (by decide) lazy

theorem binary_node {op : AxBinaryOp} {left right : AxExpr F}
    (first : Agrees (strictValue (clientScope scope) left)
      (evalExpr overflowChecks call scope left))
    (second : Agrees (strictValue (clientScope scope) right)
      (evalExpr overflowChecks call scope right)) :
    Agrees (strictValue (clientScope scope) (.binary op left right))
        (evalExpr overflowChecks call scope (.binary op left right)) ↔
      SameBranch overflowChecks call scope (.binary op left right) := by
  obtain ⟨x, a, client, server, same⟩ | ⟨stop, client, server⟩ := agrees_cases first
  swap
  · refine stopped_agrees stop ?_ ?_
    · rw [strictValue, client]
      rfl
    · rw [evalExpr, server]
      rfl
  by_cases strict : StrictOp op
  · obtain ⟨y, b, client', server', same'⟩ | ⟨stop, client', server'⟩ := agrees_cases second
    · rw [strictValue, client, client', strict_value strict server server']
      exact binary_agrees_iff strict server server' same same'
    · refine stopped_agrees stop ?_ ?_
      · rw [strictValue, client, client']
        rfl
      · rw [evalExpr_strict strict, server, server']
        rfl
  · exact shortCircuit_agrees_iff strict client server same second

theorem index_node {owner key : AxExpr F}
    (first : Agrees (strictValue (clientScope scope) owner)
      (evalExpr overflowChecks call scope owner))
    (second : Agrees (strictValue (clientScope scope) key)
      (evalExpr overflowChecks call scope key)) :
    Agrees (strictValue (clientScope scope) (.index owner key))
      (evalExpr overflowChecks call scope (.index owner key)) := by
  rw [strictValue, evalExpr]
  obtain ⟨x, a, client, server, same⟩ | ⟨stop, client, server⟩ := agrees_cases first
  swap
  · rw [client, server]
    trivial
  obtain ⟨y, b, client', server', same'⟩ | ⟨stop, client', server'⟩ := agrees_cases second
  swap
  · rw [client, server, client', server']
    trivial
  rw [client, server, client', server']
  exact agrees_iff.mpr ((shown_binary same same' 40).trans (index_agrees a b))

theorem member_node {owner : AxExpr F} {property : String}
    (operand : Agrees (strictValue (clientScope scope) owner)
      (evalExpr overflowChecks call scope owner)) :
    Agrees (strictValue (clientScope scope) (.member owner property))
      (evalExpr overflowChecks call scope (.member owner property)) := by
  rw [strictValue, evalExpr]
  obtain ⟨x, a, client, server, same⟩ | ⟨stop, client, server⟩ := agrees_cases operand
  · rw [client, server]
    refine agrees_iff.mpr ?_
    change shown (StateWasm.memberOpcode false property x) = _
    rw [← StateWasm.memberOpcode_canonical, same, member_agrees]
    rfl
  · rw [client, server]
    trivial

theorem forgiven_or_kept (property : String) (stop : Stop) :
    optionalMemberValue (F := F) property (.error stop) = .ok .null ∨
      optionalMemberValue (F := F) property (.error stop) = .error stop := by
  unfold optionalMemberValue
  split <;> simp_all

/-- Only the server forgives an unknown name or member behind `?.`. -/
theorem optionalMember_node {owner : AxExpr F} {property : String}
    (operand : Agrees (strictValue (clientScope scope) owner)
      (evalExpr overflowChecks call scope owner)) :
    Agrees (strictValue (clientScope scope) (.optionalMember owner property))
        (evalExpr overflowChecks call scope (.optionalMember owner property)) ↔
      SameBranch overflowChecks call scope (.optionalMember owner property) := by
  rw [strictValue, evalExpr]
  obtain ⟨x, a, client, server, same⟩ | ⟨stop, client, server⟩ := agrees_cases operand
  · rw [client, server]
    refine iff_of_true (agrees_iff.mpr ?_) fun stop found => ?_
    · change shown (StateWasm.memberOpcode true property x) = _
      rw [← StateWasm.memberOpcode_canonical, same, optionalMember_agrees]
    · rw [server] at found
      cases found
  · rw [client, server]
    simp only [SameBranch, server, Except.error.injEq, forall_eq']
    rcases forgiven_or_kept (F := F) property stop with forgiven | kept
    · rw [forgiven]
      exact iff_of_false id fun same => nomatch same
    · rw [kept]
      exact iff_of_true trivial rfl

theorem call_node (path : List String) (args : List (AxExpr F)) :
    Agrees (strictValue (clientScope scope) (.call path args))
        (evalExpr overflowChecks call scope (.call path args)) ↔
      SameBranch overflowChecks call scope (.call path args) := by
  rw [strictValue, SameBranch]
  cases evalExpr overflowChecks call scope (.call path args) with
  | ok value => exact iff_of_false id fun failed => failed value rfl
  | error stop => exact iff_of_true trivial fun a found => nomatch found

mutual

/-- Above agreeing subexpressions, the two sides agree where they take the same branch. -/
theorem strictValue_agrees_iff : ∀ expr : AxExpr F, expr.Every KeysOnce →
    expr.Below (SameBranch overflowChecks call scope) →
    (Agrees (strictValue (clientScope scope) expr) (evalExpr overflowChecks call scope expr) ↔
      SameBranch overflowChecks call scope expr)
  | .string _, _, _ | .number _, _, _ | .bool _, _, _ => iff_of_true rfl trivial
  | .float value, _, _ => iff_of_true (toExpr_canonical (.float value)) trivial
  | .identifier name, _, _ => iff_of_true (identifier_agrees name) trivial
  | .list items, keys, below =>
    iff_of_true (list_agrees (strictValues_agree items keys.2 below)) trivial
  | .object fields, keys, below =>
    iff_of_true (object_agrees keys.1 (strictFields_agree fields keys.2 below)) trivial
  | .unary _ expr, keys, below =>
    unary_node ((strictValue_agrees_iff expr keys.2 below.2).mpr below.1)
  | .binary _ left right, keys, below =>
    binary_node ((strictValue_agrees_iff left keys.2.1 below.1.2).mpr below.1.1)
      ((strictValue_agrees_iff right keys.2.2 below.2.2).mpr below.2.1)
  | .index owner key, keys, below =>
    iff_of_true (index_node ((strictValue_agrees_iff owner keys.2.1 below.1.2).mpr below.1.1)
      ((strictValue_agrees_iff key keys.2.2 below.2.2).mpr below.2.1)) trivial
  | .member owner _, keys, below =>
    iff_of_true (member_node ((strictValue_agrees_iff owner keys.2 below.2).mpr below.1)) trivial
  | .optionalMember owner _, keys, below =>
    optionalMember_node ((strictValue_agrees_iff owner keys.2 below.2).mpr below.1)
  | .call path args, _, _ => call_node path args

theorem strictValues_agree : ∀ items : List (AxExpr F), AxExpr.BelowAll KeysOnce items →
    AxExpr.BelowAll (SameBranch overflowChecks call scope) items →
    AgreesAll (strictValues (clientScope scope) items)
      (evalExprs overflowChecks call scope items)
  | [], _, _ => rfl
  | expr :: rest, keys, below => by
    rw [strictValues, evalExprs]
    exact .cons ((strictValue_agrees_iff expr keys.1 below.1.2).mpr below.1.1)
      (strictValues_agree rest keys.2 below.2)

theorem strictFields_agree : ∀ fields : List (String × AxExpr F),
    AxExpr.BelowFields KeysOnce fields →
    AxExpr.BelowFields (SameBranch overflowChecks call scope) fields →
    AgreesFields (fields.map Prod.fst) (strictFields (clientScope scope) fields)
      (evalFields overflowChecks call scope fields)
  | [], _, _ => rfl
  | (name, expr) :: rest, keys, below => by
    rw [strictFields, evalFields]
    exact .cons ((strictValue_agrees_iff expr keys.1 below.1.2).mpr below.1.1)
      (strictFields_agree rest keys.2 below.2)

end

end Branches

section Plans

variable (states : String → Option StateBindingPlan) (assign : String → AxValue F)

/-- The server's scope of the state names: each has the value of its signal. -/
def stateScope : Scope F := fun name => (states name).map fun plan => assign plan.signalId

/-- What the client feeds a program: the values of the plan's signals, in their order. -/
def signalValues (plan : ReactiveExpressionPlan F) : List (ExprValue F) :=
  plan.signals.map fun signal => (assign signal).toExpr

/-- All operators take the same branch, and the client's stack holds the values of the program
unless the server has no value anyway. -/
structure SameBranches (server : Server F) (depth : Nat) (scope : Scope F) (expr : AxExpr F) :
    Prop where
  operators : expr.Every (SameBranch server.overflowChecks (callAt server depth) scope)
  stack : stackHeight expr ≤ StateWasm.axExpressionStackMaxValues ∨
    ∀ a, evalAt server depth scope expr ≠ .ok a

variable {bindings : ConversionBindings F} {fuel : Nat} {expr : AxExpr F}
  {plan : ReactiveExpressionPlan F} {assign}

theorem plan_compiled
    (compiled : compileReactiveExpression bindings fuel expr = some (.ok (some plan))) :
    ∃ names code, compileNode bindings.states plan.expression [] = .ok (names, code) ∧
      plan.program = axExpressionMagic ++ code ∧
      plan.signals = (signalsOf bindings names).map StateBindingPlan.signalId := by
  unfold compileReactiveExpression at compiled
  split at compiled
  · simp only [compileExpanded, Option.some.injEq] at compiled
    split at compiled
    · cases compiled
    split at compiled
    · cases compiled
    · next found =>
      cases compiled
      exact ⟨_, _, found, rfl, rfl⟩
  · split at compiled <;> cases compiled
  · cases compiled

/-- The signals of a plan carry the values of its names, one by one. -/
theorem linked_signals {names : List String} (known : ∀ name ∈ names, (bindings.states name).isSome)
    (assign : String → AxValue F) :
    Linked names (((signalsOf bindings names).map StateBindingPlan.signalId).map fun signal =>
      (assign signal).toExpr) (clientScope (stateScope bindings.states assign)) := by
  intro index name found
  induction names generalizing index with
  | nil => cases found
  | cons first rest ih =>
    obtain ⟨state, present⟩ := Option.isSome_iff_exists.mp (known first List.mem_cons_self)
    have later := ih fun name member => known name (List.mem_cons_of_mem _ member)
    unfold signalsOf at later ⊢
    rw [List.filterMap_cons_some present]
    cases index with
    | zero =>
      cases found
      exact ⟨_, rfl, by simp [clientScope, stateScope, present]⟩
    | succ index => exact later index found

def plainServer : Server F64 := ⟨true, [], fun _ _ => none⟩

def countState : ConversionBindings F64 where
  states name := if name = "count" then some ⟨"count", "Number", "0"⟩ else none
  functions := []

/-- `count != 0 && 10 / count > 1`: the server does not divide by zero. -/
def guardedQuotient : AxExpr F64 :=
  .binary .and (.binary .ne (.identifier "count") (.number 0))
    (.binary .gt (.binary .div (.number 10) (.identifier "count")) (.number 1))

end Plans

end Axonyx.Core
