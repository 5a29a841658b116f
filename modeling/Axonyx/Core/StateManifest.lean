import Axonyx.Core.StateBranches
import Axonyx.Core.ExprRoundTrip
import Axonyx.Delimited

/-! The manifest of a page's states, built from the declarations a second time. It agrees with the
page's own bindings where the type of a state is declared or can be told from its value. -/
namespace Axonyx.Core

section Values

/-- A number of the client is a float. -/
inductive AxStateValue (F : Type) where
  | null
  | string (value : String)
  | bool (value : Bool)
  | number (value : F)
  | bytes (value : List UInt8)
  | list (items : List (AxStateValue F))
  | object (fields : List (String × AxStateValue F))

def AxStateValue.typeName {F : Type} : AxStateValue F → String
  | .null => "Null"
  | .string _ => "String"
  | .bool _ => "Bool"
  | .number _ => "Number"
  | .bytes _ => "Bytes"
  | .list _ => "List<Unknown>"
  | .object _ => "Json"

inductive AxStateManifestError where
  | invalidInitializer (name message : String)
  deriving DecidableEq, Repr

variable {F : Type} [Float64 F]

mutual

def exprToStateValue (name : String) : AxExpr F → Except AxStateManifestError (AxStateValue F)
  | .string value => .ok (.string value)
  | .bool value => .ok (.bool value)
  | .number value => .ok (.number (FloatOps.ofInt value))
  | .float value => .ok (.number value.get)
  | .list items => (itemsToStateValues name items).map .list
  | .object fields => (fieldsToStateValues name fields).map .object
  | .identifier other => if other = "null" then .ok .null else unsupported
  | .unary _ _ | .binary _ _ _ | .index _ _ | .member _ _ | .optionalMember _ _ | .call _ _ => unsupported
where
  unsupported : Except AxStateManifestError (AxStateValue F) := .error (.invalidInitializer name
    "state manifest v2 supports null, String, Bool, Number, List/Object literals, or signal(literal)")

def itemsToStateValues (name : String) : List (AxExpr F) → Except AxStateManifestError (List (AxStateValue F))
  | [] => .ok []
  | item :: items => do
    let value ← exprToStateValue name item
    let values ← itemsToStateValues name items
    return value :: values

def fieldsToStateValues (name : String) :
    List (String × AxExpr F) → Except AxStateManifestError (List (String × AxStateValue F))
  | [] => .ok []
  | (key, field) :: fields => do
    let value ← exprToStateValue name field
    let values ← fieldsToStateValues name fields
    return (key, value) :: values

end

end Values

section Manifest

inductive AxStateStorageScope where
  | «local»
  | session
  deriving DecidableEq, Repr

structure AxStatePersistenceV2 where
  scope : AxStateStorageScope
  key : String
  deriving DecidableEq, Repr

/-- A declaration with what only the manifest reads of it. -/
structure AxScopedStateDeclV2 extends AxStateDeclV2 where
  scope : Option String
  persistence : Option AxStatePersistenceV2

structure AxStatePersistence where
  protocol : String
  scope : AxStateStorageScope
  key : String
  deriving DecidableEq, Repr

def AxStatePersistence.new (scope : AxStateStorageScope) (key : String) : AxStatePersistence :=
  ⟨"ax-storage-capability/1", scope, key⟩

structure AxSignalId where
  scope : String
  name : String
  index : UInt32
  deriving DecidableEq

def AxSignalId.stableKey (id : AxSignalId) : String :=
  id.scope ++ ":" ++ id.name ++ ":" ++ toString id.index

structure AxStateManifestSignal (F : Type) where
  id : AxSignalId
  key : String
  name : String
  scope : String
  ty : String
  initial : AxStateValue F
  persistence : Option AxStatePersistence

variable {F : Type} [Float64 F]

def AxStateManifestSignal.new (id : AxSignalId) (ty : String) (initial : AxStateValue F) :
    AxStateManifestSignal F :=
  ⟨id, id.stableKey, id.name, id.scope, ty, initial, none⟩

def AxTypeParseError.message : AxTypeParseError → String
  | .empty => "empty type annotation"
  | .invalid raw => "invalid type annotation \x60" ++ raw ++ "\x60"

variable (parse : String → Except String (AxExpr F)) (context : AxDataContext)

def checkManifestType (name source : String) (value : AxExpr F) : Except AxStateManifestError Unit :=
  match AxType.parseAnnotation source with
  | .error error =>
    .error (.invalidInitializer name ("invalid state type \x60" ++ source ++ "\x60: " ++ error.message))
  | .ok ty =>
    if !ty.supportsClientState then
      .error (.invalidInitializer name ("\x60" ++ source ++ "\x60 is not a client-state value type"))
    else if !context.acceptsStateInitializer ty value then
      .error (.invalidInitializer name ("initializer does not match \x60" ++ source ++ "\x60"))
    else .ok ()

/-- The expression of an initializer, without the `signal` around it. -/
def manifestExpr (name source : String) : Except AxStateManifestError (AxExpr F) :=
  match parse source with
  | .error message => .error (.invalidInitializer name message)
  | .ok (.call path args) =>
    match path, args with
    | ["signal"], [arg] => .ok arg
    | _, _ => .error (.invalidInitializer name "expected a literal value or signal(literal)")
  | .ok value => .ok value

def parseStateManifestValue (name source : String) (declaredType : Option String) :
    Except AxStateManifestError (AxStateValue F) := do
  let expr ← manifestExpr parse name source
  match declaredType with
  | some ty => checkManifestType context name ty expr
  | none => .ok ()
  exprToStateValue name expr

variable (resolveScope : AxScopedStateDeclV2 → String → String) (scope : String)

/-- The signal of the state at a place; the number of the place is a `u32`. -/
def manifestSignal (index : Nat) (state : AxScopedStateDeclV2) :
    Except AxStateManifestError (AxStateManifestSignal F) := do
  let initial ← parseStateManifestValue parse context state.name state.value state.ty
  let ty := state.ty.getD initial.typeName
  let id : AxSignalId := ⟨resolveScope state scope, state.name, UInt32.ofNat index + 1⟩
  return { AxStateManifestSignal.new id ty initial with
    persistence := state.persistence.map fun kept => .new kept.scope kept.key }

def manifestSignals : Nat → List AxScopedStateDeclV2 →
    Except AxStateManifestError (List (AxStateManifestSignal F))
  | _, [] => .ok []
  | index, state :: states => do
    let signal ← manifestSignal parse context resolveScope scope index state
    let signals ← manifestSignals (index + 1) states
    return signal :: signals

def buildStateManifestWithScopeMapper (context : Except String AxDataContext) (states : List AxScopedStateDeclV2) :
    Except AxStateManifestError (List (AxStateManifestSignal F)) :=
  match context with
  | .error message => .error (.invalidInitializer "type-contract" message)
  | .ok context => manifestSignals parse context resolveScope scope 0 states

def buildStateManifestWithScope (context : Except String AxDataContext) (states : List AxScopedStateDeclV2) :
    Except AxStateManifestError (List (AxStateManifestSignal F)) :=
  buildStateManifestWithScopeMapper parse (fun state default => state.scope.getD default) scope context states

end Manifest

section Literals

variable {F : Type} [Float64 F]

mutual

/-- The value a literal has for the client. -/
def AxExpr.stateConstant : AxExpr F → AxStateValue F
  | .string value => .string value
  | .number value => .number (FloatOps.ofInt value)
  | .float value => .number value.get
  | .bool value => .bool value
  | .list items => .list (stateConstants items)
  | .object fields => .object (stateConstantFields fields)
  | .identifier _ | .unary _ _ | .binary _ _ _ | .index _ _ | .member _ _ | .optionalMember _ _ |
    .call _ _ => .null

def stateConstants : List (AxExpr F) → List (AxStateValue F)
  | [] => []
  | item :: items => item.stateConstant :: stateConstants items

def stateConstantFields : List (String × AxExpr F) → List (String × AxStateValue F)
  | [] => []
  | (name, value) :: fields => (name, value.stateConstant) :: stateConstantFields fields

end

variable {name : String}

mutual

/-- Whatever has a text as a literal has a value in the manifest. -/
theorem stateValue_literal {quote : String → String} {expr : AxExpr F} {text : String}
    (written : literalText quote expr = some text) :
    exprToStateValue name expr = .ok expr.stateConstant := by
  match expr with
  | .string _ | .number _ | .float _ | .bool _ => rfl
  | .identifier other =>
    simp only [literalText] at written
    split at written
    next known => rw [exprToStateValue, if_pos known, AxExpr.stateConstant]
    · cases written
  | .list items =>
    obtain ⟨texts, parts, _⟩ := Option.map_eq_some_iff.mp written
    rw [exprToStateValue, stateValue_literals parts]
    rfl
  | .object fields =>
    obtain ⟨texts, parts, _⟩ := Option.map_eq_some_iff.mp written
    rw [exprToStateValue, stateValue_literalFields parts]
    rfl
  | .unary _ _ | .binary _ _ _ | .index _ _ | .member _ _ | .optionalMember _ _ | .call _ _ => cases written

theorem stateValue_literals {items : List (AxExpr F)} {texts : List String}
    (written : literalTexts items = some texts) : itemsToStateValues name items = .ok (stateConstants items) := by
  match items with
  | [] => rfl
  | item :: items =>
    simp only [literalTexts, Option.bind_eq_bind, Option.bind_eq_some_iff] at written
    obtain ⟨_, first, _, rest, _⟩ := written
    rw [itemsToStateValues, stateValue_literal first, stateValue_literals rest]
    rfl

theorem stateValue_literalFields {fields : List (String × AxExpr F)} {texts : List String}
    (written : fieldTexts fields = some texts) :
    fieldsToStateValues name fields = .ok (stateConstantFields fields) := by
  match fields with
  | [] => rfl
  | (key, value) :: fields =>
    simp only [fieldTexts, Option.bind_eq_bind, Option.bind_eq_some_iff] at written
    obtain ⟨_, first, _, rest, _⟩ := written
    rw [fieldsToStateValues, stateValue_literal first, stateValue_literalFields rest]
    rfl

end

/-- A value that shows its type in the manifest too: a decimal is a number there, and null has a type. -/
def tellsType : AxExpr F → Bool
  | .float _ => false
  | value => !isNullExpr value

/-- The two passes name a type that is not declared. -/
theorem inferred_type {quote : String → String} {value : AxExpr F} {text : String}
    (written : literalText quote value = some text) : value.stateConstant.typeName = inferStateType value ↔ tellsType value = true := by
  match value with
  | .string _ | .number _ | .bool _ | .list _ | .object _ => exact iff_of_true rfl rfl
  | .float f =>
    have other : ("Number" : String) ≠ "Float" := by decide
    exact iff_of_false other Bool.false_ne_true
  | .identifier other =>
    simp only [literalText] at written
    split at written
    next known =>
      subst known
      have apart : ("Null" : String) ≠ "Unknown" := by decide
      exact iff_of_false apart Bool.false_ne_true
    · cases written
  | .unary _ _ | .binary _ _ _ | .index _ _ | .member _ _ | .optionalMember _ _ | .call _ _ => cases written

end Literals

section Numbers

mutual

/-- The integers of a literal are no larger than that. -/
def IntegersWithin (limit : Nat) : AxExpr F64 → Prop
  | .number value => value.toInt.natAbs ≤ limit
  | .list items => ItemsWithin limit items
  | .object fields => FieldsWithin limit fields
  | .string _ | .float _ | .bool _ | .identifier _ | .unary _ _ | .binary _ _ _ | .index _ _ | .member _ _ |
    .optionalMember _ _ | .call _ _ => True

def ItemsWithin (limit : Nat) : List (AxExpr F64) → Prop
  | [] => True
  | item :: items => IntegersWithin limit item ∧ ItemsWithin limit items

def FieldsWithin (limit : Nat) : List (String × AxExpr F64) → Prop
  | [] => True
  | (_, value) :: fields => IntegersWithin limit value ∧ FieldsWithin limit fields

end

mutual

/-- A value of the client and one of the renderer with the same content; the number of the client
has the integer's value exactly. -/
def SameValue : AxStateValue F64 → AxValue F64 → Prop
  | .null, .null => True
  | .string a, .string b => a = b
  | .bool a, .bool b => a = b
  | .number a, .number b => F64.finite a = true ∧ F64.value a = b.toInt
  | .number a, .float b => a = b.get
  | .list a, .list b => SameItems a b
  | .object a, .record b => SameFields a b
  | _, _ => False

def SameItems : List (AxStateValue F64) → List (AxValue F64) → Prop
  | [], [] => True
  | a :: as, b :: bs => SameValue a b ∧ SameItems as bs
  | _, _ => False

def SameFields : List (String × AxStateValue F64) → List (String × AxValue F64) → Prop
  | [], [] => True
  | (m, a) :: as, (n, b) :: bs => m = n ∧ SameValue a b ∧ SameFields as bs
  | _, _ => False

end

mutual

theorem same_constant : ∀ {expr : AxExpr F64}, IntegersWithin (2 ^ 53) expr →
    SameValue expr.stateConstant expr.constant
  | .string _, _ | .bool _, _ | .float _, _ => rfl
  | .number value, small => ⟨F64.finite_ofInt value, F64.value_ofInt small⟩
  | .list _, small => same_constants small
  | .object _, small => same_constantFields small
  | .identifier _, _ | .unary _ _, _ | .binary _ _ _, _ | .index _ _, _ | .member _ _, _ |
    .optionalMember _ _, _ | .call _ _, _ => trivial

theorem same_constants : ∀ {items : List (AxExpr F64)}, ItemsWithin (2 ^ 53) items →
    SameItems (stateConstants items) (constants items)
  | [], _ => trivial
  | _ :: _, small => ⟨same_constant small.1, same_constants small.2⟩

theorem same_constantFields : ∀ {fields : List (String × AxExpr F64)}, FieldsWithin (2 ^ 53) fields →
    SameFields (stateConstantFields fields) (constantFields fields)
  | [], _ => trivial
  | (_, _) :: _, small => ⟨rfl, same_constant small.1, same_constantFields small.2⟩

end

end Numbers

section Agreement

variable {parse : String → Except String (AxExpr F64)} {context : AxDataContext} {overflowChecks : Bool}
  {call : Caller F64}

/-- The conversion parses with the same parser and forgets the message. -/
def converted (parse : String → Except String (AxExpr F64)) (source : String) : Option (AxExpr F64) :=
  (parse source).toOption

/-- The signal of a state in the manifest, and the state on the page. -/
structure Shown (scope : Scope F64) (state : AxScopedStateDeclV2) (signal : AxStateManifestSignal F64) : Prop where
  name : signal.name = state.name
  value : ∃ value, scope state.name = some value ∧ SameValue signal.initial value

/-- The markers of the page carry the key and the type of the signal. -/
def Marked (bindings : List (String × StateBindingPlan)) (state : AxScopedStateDeclV2)
    (signal : AxStateManifestSignal F64) : Prop :=
  ∃ binding, lookup bindings state.name = some binding ∧ signal.key = binding.signalId ∧ signal.ty = binding.ty

/-- The initial value of a state, without the `signal` around it, shows the type the state has. -/
def Typed (parse : String → Except String (AxExpr F64)) (state : AxStateDeclV2) : Prop :=
  state.ty = none → ∀ value, parseStateInitializer (converted parse) state.value = .ok value → tellsType value = true

theorem manifestExpr_converted {name source : String} {value : AxExpr F64}
    (parsed : parseStateInitializer (converted parse) source = .ok value) :
    manifestExpr parse name source = .ok value := by
  unfold parseStateInitializer converted at parsed
  unfold manifestExpr
  cases read : parse source with
  | error message =>
    rw [read] at parsed
    cases parsed
  | ok expr =>
    rw [read] at parsed
    cases expr with
    | call path args =>
      simp only [Except.toOption] at parsed ⊢
      split at parsed
      · cases parsed
        rfl
      · cases parsed
    | _ =>
      cases parsed
      rfl

theorem checkManifestType_converted {name source ty initial : String} {value : AxExpr F64}
    (checked : initialLiteral context name ty source value = .ok initial) :
    checkManifestType context name ty value = .ok () := by
  unfold initialLiteral isSupportedClientStateType stateInitializerMatchesType at checked
  unfold checkManifestType
  cases read : AxType.parseAnnotation ty with
  | error error =>
    rw [read] at checked
    cases checked
  | ok type =>
    rw [read] at checked
    dsimp only at checked ⊢
    split_ifs at checked with unsupported refused
    rw [if_neg unsupported, if_neg refused]

/-- The key of the place agrees as long as its number is one of 32 bits. -/
theorem key_eq_iff (name : String) (index : Nat) :
    AxSignalId.stableKey ⟨"root", name, UInt32.ofNat index + 1⟩ = "root:" ++ name ++ ":" ++ toString (index + 1) ↔
      index + 1 < 2 ^ 32 := by
  have number : (UInt32.ofNat index + 1).toNat = (index + 1) % 2 ^ 32 := by
    simp [UInt32.toNat_add]
  have key : AxSignalId.stableKey ⟨"root", name, UInt32.ofNat index + 1⟩ =
      "root:" ++ name ++ ":" ++ toString ((index + 1) % 2 ^ 32) := by
    rw [← number]
    rfl
  rw [key]
  constructor
  · intro same
    have texts : toString ((index + 1) % 2 ^ 32) = toString (index + 1) := by
      apply String.toList_injective
      have chars := congrArg String.toList same
      simpa using chars
    have digits := congrArg String.toList texts
    rw [Nat.toString_eq_repr, Nat.toString_eq_repr, Nat.toList_repr, Nat.toList_repr] at digits
    have numbers : (index + 1) % 2 ^ 32 = index + 1 := Delimited.toDigits_inj (by decide) (by decide) digits
    omega
  · intro small
    rw [Nat.mod_eq_of_lt small]

/-- One state: the manifest has a signal for it with the value of the page, and the markers agree where
the type can be told and the number of the place is one of 32 bits. -/
theorem signal_agrees {index : Nat} {state : AxScopedStateDeclV2} {binding : StateBindingPlan} {value : AxExpr F64}
    (unscoped : state.scope = none) (small : IntegersWithin (2 ^ 53) value)
    (bound : stateBinding (converted parse) context ("root:" ++ state.name ++ ":" ++ toString (index + 1))
      state.toAxStateDeclV2 = .ok (binding, value)) :
    ∃ signal : AxStateManifestSignal F64,
      manifestSignal parse context (fun state default => state.scope.getD default) "root" index state = .ok signal ∧
      signal.name = state.name ∧ SameValue signal.initial value.constant ∧
      (signal.key = binding.signalId ∧ signal.ty = binding.ty ↔
        Typed parse state.toAxStateDeclV2 ∧ index + 1 < 2 ^ 32) := by
  obtain ⟨parsed, reads, next⟩ := Outcome.bind_ok.mp bound
  obtain ⟨initial, checked, last⟩ := Outcome.bind_ok.mp next
  cases last
  have written : stateEventLiteral value = some initial := (initialLiteral_accepted checked).text
  have constant : exprToStateValue state.name value = .ok value.stateConstant := stateValue_literal written
  have initially : parseStateManifestValue parse context state.name state.value state.ty =
      .ok value.stateConstant := by
    apply Outcome.bind_ok.mpr
    refine ⟨value, manifestExpr_converted reads, ?_⟩
    cases declared : state.ty with
    | none => exact constant
    | some ty =>
      rw [declared] at checked
      apply Outcome.bind_ok.mpr
      exact ⟨(), checkManifestType_converted checked, constant⟩
  refine ⟨{ AxStateManifestSignal.new ⟨"root", state.name, UInt32.ofNat index + 1⟩
      (state.ty.getD value.stateConstant.typeName) value.stateConstant with
        persistence := state.persistence.map fun kept => .new kept.scope kept.key }, ?_, rfl, same_constant small, ?_⟩
  · apply Outcome.bind_ok.mpr
    refine ⟨value.stateConstant, initially, ?_⟩
    dsimp only
    rw [unscoped]
    rfl
  · have types : state.ty.getD value.stateConstant.typeName = state.ty.getD (inferStateType value) ↔
        Typed parse state.toAxStateDeclV2 := by
      unfold Typed
      cases declared : state.ty with
      | some ty => exact iff_of_true rfl fun missing => nomatch missing
      | none =>
        rw [Option.getD_none, Option.getD_none, inferred_type written]
        constructor
        · intro told _ other again
          rw [reads] at again
          obtain rfl := Except.ok.inj again
          exact told
        · exact fun typed => typed rfl value reads
    exact and_comm.trans (and_congr types (key_eq_iff state.name index))

/-- A later declaration leaves the states of other names as they are. -/
theorem declareStates_other {signal : Nat → AxStateDeclV2 → String} {states : List AxStateDeclV2}
    {parse : String → Option (AxExpr F64)} {index : Nat} {bindings after : List (String × StateBindingPlan)}
    {values : List (String × AxExpr F64)}
    (declared : declareStates parse context signal index states bindings = .ok (after, values)) {name : String}
    (other : name ∉ states.map AxStateDeclV2.name) :
    lookup after name = lookup bindings name ∧ values.map Prod.fst = states.map AxStateDeclV2.name := by
  induction states generalizing index bindings values with
  | nil =>
    cases declared
    exact ⟨rfl, rfl⟩
  | cons state rest ih =>
    obtain ⟨⟨binding, value⟩, _, next⟩ := Outcome.bind_ok.mp declared
    obtain ⟨⟨later, more⟩, others, last⟩ := Outcome.bind_ok.mp next
    cases last
    have apart : name ≠ state.name := fun same => other (same ▸ List.mem_cons_self)
    obtain ⟨kept, names⟩ := ih others fun member => other (List.mem_cons_of_mem _ member)
    refine ⟨?_, by rw [List.map_cons, List.map_cons, names]⟩
    rw [kept, lookup_insertField, if_neg apart]

theorem bindStates_other {values : List (String × AxExpr F64)} {scope after : Scope F64}
    (bound : bindStates overflowChecks call values scope = .ok after) {name : String}
    (other : name ∉ values.map Prod.fst) : after name = scope name := by
  induction values generalizing scope with
  | nil =>
    cases bound
    rfl
  | cons field rest ih =>
    obtain ⟨first, initial⟩ := field
    obtain ⟨value, _, next⟩ := Outcome.bind_ok.mp bound
    have apart : name ≠ first := fun same => other (same ▸ List.mem_cons_self)
    rw [ih next fun member => other (List.mem_cons_of_mem _ member), Scope.insert, if_neg apart]

theorem marked_iff {bindings : List (String × StateBindingPlan)} {state : AxScopedStateDeclV2}
    {signal : AxStateManifestSignal F64} {binding : StateBindingPlan}
    (found : lookup bindings state.name = some binding) :
    Marked bindings state signal ↔ signal.key = binding.signalId ∧ signal.ty = binding.ty := by
  constructor
  · rintro ⟨other, again, same⟩
    rw [found] at again
    obtain rfl := Option.some.inj again
    exact same
  · exact fun same => ⟨binding, found, same⟩

/-- The states of a page from a place on, by induction on the list: the later ones leave the bindings
and the values of the earlier ones. -/
theorem signals_agree {states : List AxScopedStateDeclV2} {index : Nat}
    {bindings after : List (String × StateBindingPlan)} {values : List (String × AxExpr F64)}
    (distinct : (states.map fun state => state.name).Nodup) (unscoped : ∀ state ∈ states, state.scope = none)
    (small : ∀ field ∈ values, IntegersWithin (2 ^ 53) field.2)
    (declared : declareStates (converted parse) context
      (fun index state => "root:" ++ state.name ++ ":" ++ toString (index + 1)) index
      (states.map AxScopedStateDeclV2.toAxStateDeclV2) bindings = .ok (after, values)) (scope : Scope F64) :
    ∃ (signals : List (AxStateManifestSignal F64)) (scope' : Scope F64),
      manifestSignals parse context (fun state default => state.scope.getD default) "root" index states = .ok signals ∧
      bindStates overflowChecks call values scope = .ok scope' ∧
      List.Forall₂ (Shown scope') states signals ∧
      (List.Forall₂ (Marked after) states signals ↔
        (∀ state ∈ states, Typed parse state.toAxStateDeclV2) ∧
          (states = [] ∨ index + states.length < 2 ^ 32)) := by
  induction states generalizing index bindings values scope with
  | nil =>
    cases declared
    exact ⟨[], scope, rfl, rfl, .nil, iff_of_true .nil ⟨nofun, .inl rfl⟩⟩
  | cons state rest ih =>
    obtain ⟨⟨binding, value⟩, first, next⟩ := Outcome.bind_ok.mp declared
    obtain ⟨⟨later, more⟩, others, last⟩ := Outcome.bind_ok.mp next
    cases last
    have names := (List.nodup_cons.mp distinct).1
    have fresh : state.name ∉ (rest.map AxScopedStateDeclV2.toAxStateDeclV2).map AxStateDeclV2.name := by
      rwa [List.map_map]
    obtain ⟨kept, named⟩ := declareStates_other others fresh
    obtain ⟨signal, built, name, same, marks⟩ :=
      signal_agrees (unscoped state List.mem_cons_self) (small _ List.mem_cons_self) first
    obtain ⟨signals, scope', signalsBuilt, bound, shown, marked⟩ :=
      ih (List.nodup_cons.mp distinct).2 (fun other member => unscoped other (List.mem_cons_of_mem _ member))
        (fun field member => small field (List.mem_cons_of_mem _ member)) others
        (scope.insert state.name value.constant)
    obtain ⟨source, checked⟩ := stateBinding_checked first
    have evaluated : evalExpr overflowChecks call scope value = .ok value.constant :=
      eval_literal (initialLiteral_accepted checked).text
    have valued : scope' state.name = some value.constant := by
      rw [bindStates_other bound (by rwa [named]), Scope.insert, if_pos rfl]
    have found : lookup after state.name = some binding := by
      rw [kept, lookup_insertField, if_pos rfl]
    refine ⟨signal :: signals, scope', ?_, ?_, .cons ⟨name, _, valued, same⟩ shown, ?_⟩
    · apply Outcome.bind_ok.mpr
      refine ⟨signal, built, ?_⟩
      apply Outcome.bind_ok.mpr
      exact ⟨signals, signalsBuilt, rfl⟩
    · apply Outcome.bind_ok.mpr
      exact ⟨value.constant, evaluated, bound⟩
    · rw [List.forall₂_cons, marked_iff found, marks, marked, List.forall_mem_cons, List.length_cons]
      have places : index + 1 < 2 ^ 32 ∧ (rest = [] ∨ index + 1 + rest.length < 2 ^ 32) ↔
          index + (rest.length + 1) < 2 ^ 32 := by
        cases rest with
        | nil => simp
        | cons _ _ =>
          simp only [List.cons_ne_nil, false_or, List.length_cons]
          omega
      have whole : (state :: rest = [] ∨ index + (rest.length + 1) < 2 ^ 32) ↔
          index + (rest.length + 1) < 2 ^ 32 := by simp
      rw [whole, ← places]
      exact and_and_and_comm

/-- For a page that is converted the manifest lists the same states with the same initial values, and its
keys and types are those of the markers where every type is declared or shows in the value. -/
theorem manifest_agrees_iff {states : List AxScopedStateDeclV2} {bindings : List (String × StateBindingPlan)}
    {values : List (String × AxExpr F64)} (distinct : (states.map fun state => state.name).Nodup)
    (unscoped : ∀ state ∈ states, state.scope = none) (small : ∀ field ∈ values, IntegersWithin (2 ^ 53) field.2)
    (converts : collectStateBindings (converted parse) context
      (states.map AxScopedStateDeclV2.toAxStateDeclV2) = .ok (bindings, values)) (scope : Scope F64) :
    ∃ (signals : List (AxStateManifestSignal F64)) (scope' : Scope F64),
      buildStateManifestWithScope parse "root" (.ok context) states = .ok signals ∧
      bindStates overflowChecks call values scope = .ok scope' ∧
      List.Forall₂ (Shown scope') states signals ∧
      (List.Forall₂ (Marked bindings) states signals ↔
        (∀ state ∈ states, Typed parse state.toAxStateDeclV2) ∧ states.length < 2 ^ 32) := by
  obtain ⟨signals, scope', built, bound, shown, marked⟩ := signals_agree distinct unscoped small converts scope
  refine ⟨signals, scope', built, bound, shown, ?_⟩
  rw [marked, Nat.zero_add]
  refine and_congr_right fun _ => ?_
  constructor
  · rintro (rfl | short)
    · exact Nat.two_pow_pos 32
    · exact short
  · exact .inr

end Agreement

section Pages

/-- The page of a ratio whose type is declared. -/
def declaredRatio : List AxScopedStateDeclV2 := [⟨⟨"ratio", some "Float", "0"⟩, none, none⟩]

theorem manifest_agrees_iff_ratio : ∃ (signals : List (AxStateManifestSignal F64)) (scope' : Scope F64),
    buildStateManifestWithScope (fun _ => .ok zeroExpr) "root" (.ok ⟨[], [], []⟩) declaredRatio = .ok signals ∧
    bindStates true noCall [("ratio", zeroExpr)] (fun _ => none) = .ok scope' ∧
    List.Forall₂ (Shown scope') declaredRatio signals ∧
    (List.Forall₂ (Marked [("ratio", ratioBinding)]) declaredRatio signals ↔
      (∀ state ∈ declaredRatio, Typed (fun _ => .ok zeroExpr) state.toAxStateDeclV2) ∧ 1 < 2 ^ 32) :=
  @manifest_agrees_iff (fun _ => .ok zeroExpr) ⟨[], [], []⟩ true noCall declaredRatio [("ratio", ratioBinding)]
    [("ratio", zeroExpr)] (by decide) (by simp [declaredRatio]) (by simp [zeroExpr, IntegersWithin])
    (ratioPage_declared _) fun _ => none

/-- The page of a ratio whose type is left to its initial value. -/
def inferredRatio : List AxScopedStateDeclV2 := [⟨⟨"ratio", none, "1.5"⟩, none, none⟩]

def readRatio (source : String) : Except String (AxExpr F64) :=
  match Parser.parseExpr Printer.parseThreeHalves 1 source.toList with
  | .ok expr => .ok expr
  | .error _ => .error "invalid expression"

/-- The markers say `Float`, the manifest says `Number`. -/
theorem inferred_type_apart :
    collectStateBindings (converted readRatio) ⟨[], [], []⟩ (inferredRatio.map AxScopedStateDeclV2.toAxStateDeclV2) =
        .ok ([("ratio", ⟨"root:ratio:1", "Float", "1.5"⟩)], [("ratio", .float Printer.threeHalves)]) ∧
      buildStateManifestWithScope readRatio "root" (.ok ⟨[], [], []⟩) inferredRatio =
        .ok [⟨⟨"root", "ratio", 1⟩, "root:ratio:1", "ratio", "root", "Number", .number Printer.threeHalves.get, none⟩] := by
  have wf : Printer.WellFormed Printer.threeHalvesText Printer.parseThreeHalves (.float Printer.threeHalves) :=
    Printer.threeHalves_reads
  have parsed : Parser.parseExpr Printer.parseThreeHalves 1 "1.5".toList = .ok (.float Printer.threeHalves) :=
    (Printer.read_exposed wf).mpr ⟨Printer.read_atom wf rfl, rfl⟩
  have read : readRatio "1.5" = .ok (.float Printer.threeHalves) := by rw [readRatio, parsed]
  have signal : "root:" ++ "ratio" ++ ":" ++ toString (0 + 1) = "root:ratio:1" := by decide +kernel
  have shown : FloatOps.display Printer.threeHalves.get = "1.5" := by decide +kernel
  have literal : initialLiteral ⟨[], [], []⟩ "ratio" "Float" "1.5" (.float Printer.threeHalves) = .ok "1.5" := by
    rw [initialLiteral, isSupportedClientStateType, stateInitializerMatchesType, parse_float]
    simp only [AxType.supportsClientState, stateEventLiteral, literalText, shown]
    rfl
  constructor
  · have bound : stateBinding (converted readRatio) ⟨[], [], []⟩ "root:ratio:1" ⟨"ratio", none, "1.5"⟩ =
        .ok (⟨"root:ratio:1", "Float", "1.5"⟩, .float Printer.threeHalves) := by
      apply Outcome.bind_ok.mpr
      refine ⟨.float Printer.threeHalves, ?_, ?_⟩
      · rw [parseStateInitializer, converted, read]
        rfl
      · apply Outcome.bind_ok.mpr
        exact ⟨"1.5", literal, rfl⟩
    rw [collectStateBindings, inferredRatio, List.map_cons, declareStates, signal, bound]
    rfl
  · have initially : parseStateManifestValue readRatio ⟨[], [], []⟩ "ratio" "1.5" none =
        .ok (.number Printer.threeHalves.get) := by
      rw [parseStateManifestValue, manifestExpr, read]
      rfl
    rw [buildStateManifestWithScope, buildStateManifestWithScopeMapper, inferredRatio, manifestSignals, manifestSignal,
      initially]
    rfl

end Pages

end Axonyx.Core
