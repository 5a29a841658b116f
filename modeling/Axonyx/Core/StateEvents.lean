import Axonyx.Core.StateBranches
import Axonyx.Core.ExprRoundTrip

/-! The mutation of a state in an event attribute. The operator is the first of three tokens that
occurs anywhere in the text, in the characters of a string too. -/
namespace Axonyx.Core

open Axonyx.Core.Parser Text

variable {F : Type} [Float64 F]

section Parsing

inductive StateEventOp where
  | add | sub | set | toggle
  deriving DecidableEq, Repr

structure StateEventMutation where
  state : String
  op : StateEventOp
  value : Option String
  valueTy : Option String
  valueSource : Option String
  deriving DecidableEq, Repr

structure InvalidStateEvent where
  exprSource : String
  deriving DecidableEq, Repr

/-- The tokens in the order they are looked for. -/
def mutationTokens : List (List Char × StateEventOp) :=
  [(['+', '='], .add), (['-', '='], .sub), (['='], .set)]

def isStateIdentifier : List Char → Bool
  | [] => false
  | first :: rest =>
    (first == '_' || first.isAlpha) && rest.all fun c => c == '_' || c.isAlphanum

/-- The first token that occurs, with the texts before and behind its first place. -/
def findMutation (source : List Char) : Option (StateEventOp × List Char × List Char) :=
  mutationTokens.findSome? fun token =>
    (splitOnceChars token.1 source).map fun parts => (token.2, parts)

variable (parseF64 : String → Option F)

def mutationOf (op : StateEventOp) (before behind : List Char) : Option StateEventMutation :=
  let state := trimChars before
  let valueSource := trimChars behind
  let mutation : StateEventMutation := ⟨.ofList state, op, none, none, none⟩
  if !isStateIdentifier state || valueSource.isEmpty then none
  else if op = .set ∧ valueSource = '!' :: state then some { mutation with op := .toggle }
  else if valueSource = "event.value".toList then some { mutation with valueSource := some "value" }
  else if valueSource = "event.checked".toList then
    some { mutation with valueTy := some "Bool", valueSource := some "checked" }
  else match parseExpr parseF64 1 valueSource with
    | .error _ => none
    | .ok expr => (stateEventLiteral expr).map fun value =>
        { mutation with value := some value, valueTy := some (inferStateType expr) }

def mutationIn (source : List Char) : Option StateEventMutation :=
  (findMutation source).bind fun found => mutationOf parseF64 found.1 found.2.1 found.2.2

def parseStateEventMutation (source : String) : Except InvalidStateEvent StateEventMutation :=
  let source := trimChars source.toList
  match mutationIn parseF64 source with
  | some mutation => .ok mutation
  | none => .error ⟨.ofList source⟩

end Parsing

section Printing

variable (floatText : AxFloat F → String) (parseF64 : String → Option F)

/-- A string, a number or a truth value, with a text for the float. -/
structure Operand where
  expr : AxExpr F
  scalar : Printer.isAtom expr = true ∧ ∀ name, expr ≠ .identifier name
  wellFormed : Printer.WellFormed floatText parseF64 expr

inductive Change where
  | set (operand : Operand floatText parseF64)
  | add (operand : Operand floatText parseF64)
  | sub (operand : Operand floatText parseF64)
  | toggle

/-- A change of one state. -/
structure StateMutation where
  state : String
  named : isStateIdentifier state.toList = true
  change : Change floatText parseF64

variable {floatText parseF64}

def Operand.text (operand : Operand floatText parseF64) : List Char := Printer.print floatText operand.expr

def StateMutation.print (mutation : StateMutation floatText parseF64) : String :=
  .ofList (mutation.state.toList ++ match mutation.change with
    | .set operand => " = ".toList ++ operand.text
    | .add operand => " += ".toList ++ operand.text
    | .sub operand => " -= ".toList ++ operand.text
    | .toggle => " = !".toList ++ mutation.state.toList)

def Operand.mutation (operand : Operand floatText parseF64) (state : String) (op : StateEventOp) :
    StateEventMutation :=
  ⟨state, op, stateEventLiteral operand.expr, some (inferStateType operand.expr), none⟩

/-- What is to be read back. -/
def StateMutation.read (mutation : StateMutation floatText parseF64) : StateEventMutation :=
  match mutation.change with
  | .set operand => operand.mutation mutation.state .set
  | .add operand => operand.mutation mutation.state .add
  | .sub operand => operand.mutation mutation.state .sub
  | .toggle => ⟨mutation.state, .toggle, none, none, none⟩

/-- A string with the characters of a token in a row. -/
def Operand.Holds (operand : Operand floatText parseF64) (token : List Char) : Prop :=
  ∃ value : String, operand.expr = .string value ∧ token <:+: value.toList

/-- No token that is looked for earlier stands in the string. -/
def StateMutation.Unmistaken (mutation : StateMutation floatText parseF64) : Prop :=
  match mutation.change with
  | .set operand => ¬ operand.Holds ['+', '='] ∧ ¬ operand.Holds ['-', '=']
  | .sub operand => ¬ operand.Holds ['+', '=']
  | .add _ | .toggle => True

end Printing

section Tokens

/-- The first character of an assigning token. -/
def isMark (c : Char) : Prop := c = '+' ∨ c = '-'

theorem escape_plain {mark c : Char} (mark_is : isMark mark) (escaped : Printer.escapeChar c ≠ [c]) :
    c ≠ mark ∧ c ≠ '=' ∧ ∃ d, Printer.escapeChar c = ['\\', d] ∧ d ≠ mark := by
  unfold Printer.escapeChar at escaped ⊢
  split_ifs at escaped ⊢
  · subst c; rcases mark_is with rfl | rfl <;> simp
  · subst c; rcases mark_is with rfl | rfl <;> simp
  · subst c; rcases mark_is with rfl | rfl <;> simp
  · next special => rcases special with rfl | rfl <;> rcases mark_is with rfl | rfl <;> simp
  · exact absurd rfl escaped

theorem escape_head (text : List Char) :
    (text.flatMap Printer.escapeChar ++ ['"']).head? = some '=' ↔ text.head? = some '=' := by
  cases text with
  | nil => simp
  | cons c rest =>
    by_cases plain : Printer.escapeChar c = [c]
    · simp [plain]
    · obtain ⟨_, other, d, shape, _⟩ := escape_plain (.inl rfl) plain
      simp [shape, other]

/-- Escapes neither make nor break an assigning token. -/
theorem token_escaped {mark : Char} (mark_is : isMark mark) (text : List Char) :
    [mark, '='] <:+: text.flatMap Printer.escapeChar ++ ['"'] ↔ [mark, '='] <:+: text := by
  have pair {c : Char} {rest : List Char} : [mark, '='] <+: c :: rest ↔ mark = c ∧ rest.head? = some '=' := by
    cases rest <;> simp [eq_comm]
  induction text with
  | nil => simp [List.infix_cons_iff]
  | cons c rest ih =>
    rw [List.flatMap_cons, List.append_assoc]
    by_cases plain : Printer.escapeChar c = [c]
    · rw [plain, List.singleton_append, List.infix_cons_iff, List.infix_cons_iff, pair, pair, escape_head]
      exact or_congr_right ih
    · obtain ⟨here, _, d, shape, later⟩ := escape_plain mark_is plain
      have slash : mark ≠ '\\' := by rcases mark_is with rfl | rfl <;> decide
      rw [shape, List.cons_append, List.singleton_append, List.infix_cons_iff, List.infix_cons_iff,
        List.infix_cons_iff, pair, pair, pair]
      simpa [slash, later.symm, here.symm] using ih

theorem token_quoted {mark : Char} (mark_is : isMark mark) (value : String) :
    [mark, '='] <:+: Printer.quoted value ↔ [mark, '='] <:+: value.toList := by
  have quote : mark ≠ '"' := by rcases mark_is with rfl | rfl <;> decide
  rw [Printer.quoted, List.infix_cons_iff, token_escaped mark_is]
  constructor
  · rintro (front | inside)
    · exact absurd (List.cons_prefix_cons.mp front).1 quote
    · exact inside
  · exact .inr

end Tokens

section Operands

variable {floatText : AxFloat F → String} {parseF64 : String → Option F}

theorem Operand.firm (operand : Operand floatText parseF64) : Firm operand.text :=
  Printer.firm_print operand.wellFormed

theorem Operand.parsed (operand : Operand floatText parseF64) :
    parseExpr parseF64 1 operand.text = .ok operand.expr := by
  apply (Printer.read_exposed operand.wellFormed).mpr
  refine ⟨Printer.read_atom operand.wellFormed operand.scalar.1, ?_⟩
  obtain ⟨expr, ⟨atom, _⟩, _⟩ := operand
  cases expr <;> first | rfl | cases atom

theorem Operand.literal (operand : Operand floatText parseF64) :
    ∃ value, stateEventLiteral operand.expr = some value := by
  obtain ⟨expr, ⟨atom, other⟩, _⟩ := operand
  cases expr with
  | string _ | number _ | float _ | bool _ => exact ⟨_, rfl⟩
  | identifier name => exact absurd rfl (other name)
  | _ => cases atom

/-- The characters of numbers and truth values. -/
def isPlain (c : Char) : Prop := c.isDigit = true ∨ c ∈ "-.truefals".toList

/-- A string is in quotes; what is no string has its own characters. -/
theorem Operand.shape (operand : Operand floatText parseF64) :
    (∃ value, operand.expr = .string value ∧ operand.text = Printer.quoted value) ∨
      (∀ value, operand.expr ≠ .string value) ∧ ∀ c ∈ operand.text, isPlain c := by
  obtain ⟨expr, ⟨atom, other⟩, wf⟩ := operand
  cases expr with
  | string value => exact .inl ⟨value, rfl, rfl⟩
  | number value =>
    refine .inr ⟨fun _ => nofun, fun c member => ?_⟩
    rcases toString_chars value c member with digit | rfl
    · exact .inl digit
    · exact .inr (by decide)
  | float value =>
    refine .inr ⟨fun _ => nofun, fun c member => ?_⟩
    obtain ⟨⟨negative, whole, fraction, text, _, _, wholeDigits, fractionDigits⟩, _⟩ := wf
    have here : c ∈ (floatText value).toList := member
    rw [text, List.append_assoc] at here
    rcases List.mem_append.mp here with sign | digits
    · cases negative
      · cases sign
      · exact .inr (by rw [List.mem_singleton.mp sign]; decide)
    · rcases List.mem_append.mp digits with before | point
      · exact .inl (wholeDigits c before)
      · rcases List.mem_cons.mp point with rfl | behind
        · exact .inr (by decide)
        · exact .inl (fractionDigits c behind)
  | bool value =>
    refine .inr ⟨fun _ => nofun, fun c member => .inr ?_⟩
    cases value
    · exact (by decide : ∀ c ∈ "false".toList, c ∈ "-.truefals".toList) c member
    · exact (by decide : ∀ c ∈ "true".toList, c ∈ "-.truefals".toList) c member
  | identifier name => exact absurd rfl (other name)
  | _ => cases atom

theorem Operand.token_iff (operand : Operand floatText parseF64) {mark : Char} (mark_is : isMark mark) :
    [mark, '='] <:+: operand.text ↔ operand.Holds [mark, '='] := by
  rcases operand.shape with ⟨value, string, quoted⟩ | ⟨other, plain⟩
  · rw [quoted, token_quoted mark_is]
    constructor
    · exact fun inside => ⟨value, string, inside⟩
    · rintro ⟨same, again, inside⟩
      rw [string] at again
      rwa [AxExpr.string.inj again]
  · constructor
    · intro inside
      have equals : isPlain '=' := plain '=' (inside.subset (by simp))
      exact absurd equals (by unfold isPlain; decide)
    · rintro ⟨value, string, _⟩
      exact absurd string (other value)

/-- No operand is taken for a toggle or for the value of the event. -/
theorem Operand.no_word (operand : Operand floatText parseF64) (word : List Char) {first : Char}
    (head : word.head? = some first) (quote : first ≠ '"') (odd : Char) (member : odd ∈ word)
    (strange : ¬ isPlain odd) : operand.text ≠ word := by
  intro same
  rcases operand.shape with ⟨value, _, quoted⟩ | ⟨_, plain⟩
  · rw [← same, quoted] at head
    exact quote (Option.some.inj head).symm
  · exact strange (plain odd (same ▸ member))

end Operands

section Reading

variable {parseF64 : String → Option F}

theorem stateIdentifier_key (text : List Char) : isStateIdentifier text = isValidObjectKey text := by
  cases text with
  | nil => rfl
  | cons first rest =>
    have char : (fun c => c == '_' || c.isAlphanum) = isIdentifierChar := by
      funext c
      exact Bool.or_comm _ _
    rw [isStateIdentifier, isValidObjectKey, char]

variable {state : String} (named : isStateIdentifier state.toList = true)
include named

theorem state_chars : state.toList ≠ [] ∧ ∀ c ∈ state.toList, isIdentifierChar c = true := by
  rw [stateIdentifier_key] at named
  exact Printer.name_chars named

theorem state_firm : Firm state.toList :=
  firm_solid (state_chars named).1 fun c member => Printer.identifier_solid ((state_chars named).2 c member)

theorem state_without {c : Char} (off : isIdentifierChar c = false) : c ∉ state.toList := by
  intro member
  rw [(state_chars named).2 c member] at off
  cases off

theorem mutationOf_toggle : mutationOf parseF64 .set (state.toList ++ [' ']) (' ' :: '!' :: state.toList) =
    some ⟨state, .toggle, none, none, none⟩ := by
  have bang : Firm ('!' :: state.toList) := (@firm_single '!' (by decide)).around (state_firm named) []
  unfold mutationOf
  simp only [trim_blank_end (state_firm named), trim_blank_start bang, named, String.ofList_toList]
  simp

theorem mutationOf_operand {floatText : AxFloat F → String} (operand : Operand floatText parseF64)
    (op : StateEventOp) : mutationOf parseF64 op (state.toList ++ [' ']) (' ' :: operand.text) =
      some (operand.mutation state op) := by
  obtain ⟨value, literal⟩ := operand.literal
  have strange {c : Char} (off : c.isDigit = false ∧ c ∉ "-.truefals".toList) : ¬ isPlain c := by
    rintro (digit | letter)
    · rw [off.1] at digit
      cases digit
    · exact off.2 letter
  have toggle : operand.text ≠ '!' :: state.toList :=
    operand.no_word _ rfl (by decide) '!' List.mem_cons_self (strange (by decide))
  have valueWord : operand.text ≠ "event.value".toList :=
    operand.no_word _ rfl (by decide) 'v' (by decide) (strange (by decide))
  have checkedWord : operand.text ≠ "event.checked".toList :=
    operand.no_word _ rfl (by decide) 'v' (by decide) (strange (by decide))
  unfold mutationOf
  simp only [trim_blank_end (state_firm named), trim_blank_start operand.firm, named, String.ofList_toList,
    operand.firm.isEmpty, operand.parsed, literal, if_neg valueWord, if_neg checkedWord, toggle, and_false]
  simp [Operand.mutation, literal]

end Reading

/-- A text with a character of no name in it names no state. -/
theorem mutationOf_unnamed {parseF64 : String → Option F} {op : StateEventOp} {before behind : List Char}
    {c : Char} (member : c ∈ before) (off : isIdentifierChar c = false) (solid : isWhitespace c = false) :
    mutationOf parseF64 op before behind = none := by
  have unnamed : isStateIdentifier (trimChars before) = false := by
    by_contra named
    have trimmed : c ∈ trimChars before := by
      rcases mem_trim (.ofList before) (by simpa using member) with blank | inner
      · rw [solid] at blank
        cases blank
      · simpa [trim, trimChars] using inner
    have chars := @state_chars (.ofList (trimChars before)) (by simpa using named)
    have legal := chars.2 c (by simpa using trimmed)
    rw [off] at legal
    cases legal
  simp [mutationOf, unnamed]

section RoundTrip

variable {floatText : AxFloat F → String} {parseF64 : String → Option F}

/-- Looking for the three tokens in turn. -/
theorem findMutation_eq (source : List Char) : findMutation source =
    ((splitOnceChars ['+', '='] source).map fun parts => (.add, parts)).or
      (((splitOnceChars ['-', '='] source).map fun parts => (.sub, parts)).or
        ((splitOnceChars ['='] source).map fun parts => (.set, parts))) := by
  have step {α β : Type} (look : α → Option β) (first : α) (rest : List α) :
      (first :: rest).findSome? look = (look first).or (rest.findSome? look) := by
    rw [List.findSome?_cons]
    cases look first <;> rfl
  simp only [findMutation, mutationTokens, step, List.findSome?_nil, Option.or_none]

/-- The token of the mutation itself is found behind the name. -/
theorem split_token {state : String} (named : isStateIdentifier state.toList = true) {mark : Char}
    (off : isIdentifierChar mark = false) (solid : mark ≠ ' ') (rest body : List Char) :
    splitOnceChars (mark :: rest) (state.toList ++ ' ' :: (mark :: rest ++ body)) =
      some (state.toList ++ [' '], body) := by
  have front : mark ∉ state.toList ++ [' '] := by
    intro member
    rcases List.mem_append.mp member with name | blank
    · exact state_without named off name
    · exact solid (List.mem_singleton.mp blank)
  have behind := splitOnceChars_behind front rest (mark :: rest ++ body)
  rw [splitOnceChars_here (mark :: rest) body (List.cons_ne_nil _ _)] at behind
  simpa using behind

variable (operand : Operand floatText parseF64)

/-- A token that is looked for in what stands before the operand and in the operand: it is found
just where the operand is a string that holds it. -/
theorem split_operand {front : List Char} {mark : Char} (mark_is : isMark mark) (off : mark ∉ front) :
    splitOnceChars [mark, '='] (front ++ operand.text) = none ↔ ¬ operand.Holds [mark, '='] := by
  rw [splitOnceChars_behind off, Option.map_eq_none_iff, splitOnceChars_eq_none, operand.token_iff mark_is]

theorem split_front {front before behind : List Char} {mark : Char} (off : mark ∉ front)
    (found : splitOnceChars [mark, '='] (front ++ operand.text) = some (before, behind)) :
    ∃ more, before = front ++ more := by
  rw [splitOnceChars_behind off] at found
  obtain ⟨parts, _, same⟩ := Option.map_eq_some_iff.mp found
  exact ⟨parts.1, (Prod.mk.inj same).1.symm⟩

/-- A token found in the operand leaves no name in front of it. -/
theorem mistaken {front : List Char} {mark : Char} {op : StateEventOp} (mark_is : isMark mark) (off : mark ∉ front)
    (equals : '=' ∈ front) (holds : operand.Holds [mark, '=']) :
    ∃ before behind, splitOnceChars [mark, '='] (front ++ operand.text) = some (before, behind) ∧
      mutationOf parseF64 op before behind = none := by
  cases found : splitOnceChars [mark, '='] (front ++ operand.text) with
  | none => exact absurd holds ((split_operand operand mark_is off).mp found)
  | some parts =>
    obtain ⟨before, behind⟩ := parts
    obtain ⟨more, rfl⟩ := split_front operand off found
    refine ⟨_, behind, rfl, ?_⟩
    exact mutationOf_unnamed (List.mem_append_left more equals) (by decide) (by decide)

variable {state : String} (named : isStateIdentifier state.toList = true)
include named

theorem front_without {mark : Char} (off : isIdentifierChar mark = false) {sign : List Char} (other : mark ∉ sign) :
    mark ∉ state.toList ++ sign := by
  intro member
  rcases List.mem_append.mp member with name | here
  · exact state_without named off name
  · exact other here

theorem read_add : mutationIn parseF64 (state.toList ++ (" += ".toList ++ operand.text)) =
    some (operand.mutation state .add) := by
  have here := @split_token state named '+' (by decide) (by decide) ['='] (' ' :: operand.text)
  have source : state.toList ++ (" += ".toList ++ operand.text) =
      state.toList ++ ' ' :: ('+' :: ['='] ++ ' ' :: operand.text) := rfl
  rw [source, mutationIn, findMutation_eq, here]
  exact mutationOf_operand named operand .add

/-- A subtraction is read back unless its string holds the token of an addition. -/
theorem read_sub : mutationIn parseF64 (state.toList ++ (" -= ".toList ++ operand.text)) =
    some (operand.mutation state .sub) ↔ ¬ operand.Holds ['+', '='] := by
  have plus : '+' ∉ state.toList ++ " -= ".toList := front_without named (by decide) (by decide)
  have source : state.toList ++ (" -= ".toList ++ operand.text) =
      state.toList ++ ' ' :: ('-' :: ['='] ++ ' ' :: operand.text) := rfl
  have here := @split_token state named '-' (by decide) (by decide) ['='] (' ' :: operand.text)
  by_cases holds : operand.Holds ['+', '=']
  · obtain ⟨before, behind, found, none⟩ := @mistaken F _ floatText parseF64 operand _ _ .add (.inl rfl) plus (by simp) holds
    rw [← List.append_assoc, mutationIn, findMutation_eq, found]
    simp [none, holds]
  · have passed := (split_operand operand (.inl rfl) plus).mpr holds
    rw [List.append_assoc, source] at passed
    rw [source, mutationIn, findMutation_eq, passed, here]
    simp only [Option.map_none, Option.none_or, Option.map_some, Option.some_or, Option.bind_some,
      mutationOf_operand named operand .sub, holds, not_false_eq_true]

/-- An assignment is read back unless its string holds the token of an addition or a subtraction. -/
theorem read_set : mutationIn parseF64 (state.toList ++ (" = ".toList ++ operand.text)) =
    some (operand.mutation state .set) ↔ ¬ operand.Holds ['+', '='] ∧ ¬ operand.Holds ['-', '='] := by
  have plus : '+' ∉ state.toList ++ " = ".toList := front_without named (by decide) (by decide)
  have minus : '-' ∉ state.toList ++ " = ".toList := front_without named (by decide) (by decide)
  have source : state.toList ++ (" = ".toList ++ operand.text) =
      state.toList ++ ' ' :: ('=' :: [] ++ ' ' :: operand.text) := rfl
  have here := @split_token state named '=' (by decide) (by decide) [] (' ' :: operand.text)
  by_cases holds : operand.Holds ['+', '=']
  · obtain ⟨before, behind, found, none⟩ := @mistaken F _ floatText parseF64 operand _ _ .add (.inl rfl) plus (by simp) holds
    rw [← List.append_assoc, mutationIn, findMutation_eq, found]
    simp [none, holds]
  · have passed := (split_operand operand (.inl rfl) plus).mpr holds
    by_cases subtracts : operand.Holds ['-', '=']
    · obtain ⟨before, behind, found, none⟩ := @mistaken F _ floatText parseF64 operand _ _ .sub (.inr rfl) minus (by simp) subtracts
      rw [← List.append_assoc, mutationIn, findMutation_eq, passed, found]
      simp [none, subtracts]
    · have again := (split_operand operand (.inr rfl) minus).mpr subtracts
      rw [List.append_assoc, source] at passed again
      rw [source, mutationIn, findMutation_eq, passed, again, here]
      simp only [Option.map_none, Option.none_or, Option.map_some, Option.bind_some,
        mutationOf_operand named operand .set, holds, subtracts, not_false_eq_true, and_self]

theorem read_toggle : mutationIn parseF64 (state.toList ++ (" = !".toList ++ state.toList)) =
    some ⟨state, .toggle, none, none, none⟩ := by
  have absent {mark : Char} (off : isIdentifierChar mark = false) (other : mark ∉ " = !".toList) :
      splitOnceChars [mark, '='] (state.toList ++ (" = !".toList ++ state.toList)) = none := by
    apply splitOnceChars_eq_none.mpr
    intro inside
    have member := inside.subset (@List.mem_cons_self _ mark ['='])
    rw [← List.append_assoc] at member
    rcases List.mem_append.mp member with front | name
    · exact front_without named off other front
    · exact state_without named off name
  have here := @split_token state named '=' (by decide) (by decide) [] (' ' :: '!' :: state.toList)
  have source : state.toList ++ (" = !".toList ++ state.toList) =
      state.toList ++ ' ' :: ('=' :: [] ++ ' ' :: '!' :: state.toList) := rfl
  have plus := @absent '+' (by decide) (by decide)
  have minus := @absent '-' (by decide) (by decide)
  rw [mutationIn, findMutation_eq, plus, minus, source, here]
  exact mutationOf_toggle named

end RoundTrip

section Results

variable {floatText : AxFloat F → String} {parseF64 : String → Option F}

theorem print_firm (mutation : StateMutation floatText parseF64) : Firm mutation.print.toList := by
  have name := state_firm mutation.named
  rw [StateMutation.print, String.toList_ofList]
  split
  · exact name.around (Operand.firm _) " = ".toList
  · exact name.around (Operand.firm _) " += ".toList
  · exact name.around (Operand.firm _) " -= ".toList
  · exact name.around name " = !".toList

theorem parse_ok_iff {source : String} (firm : Firm source.toList) {mutation : StateEventMutation} :
    parseStateEventMutation parseF64 source = .ok mutation ↔
      mutationIn parseF64 source.toList = some mutation := by
  rw [parseStateEventMutation, firm.trim]
  split
  next found =>
    rw [found]
    simp
  next missed =>
    rw [missed]
    simp

/-- A mutation comes back from its text, whatever its operand, unless the string of an assignment or
a subtraction holds a token that is looked for before its own. -/
theorem mutation_round_trip_iff (mutation : StateMutation floatText parseF64) :
    parseStateEventMutation parseF64 mutation.print = .ok mutation.read ↔ mutation.Unmistaken := by
  rw [parse_ok_iff (print_firm mutation), StateMutation.print, String.toList_ofList]
  obtain ⟨state, named, change⟩ := mutation
  cases change with
  | set operand => exact read_set operand named
  | add operand => exact iff_of_true (read_add operand named) trivial
  | sub operand => exact read_sub operand named
  | toggle => exact iff_of_true (read_toggle named) trivial

/-- A note is to become the text `a+=b`. -/
def sampleMutation : StateMutation Printer.threeHalvesText Printer.parseThreeHalves :=
  ⟨"note", rfl, .set ⟨.string "a+=b", ⟨rfl, fun _ => nofun⟩, trivial⟩⟩

theorem assignment_mistaken :
    sampleMutation.print = "note = \"a+=b\"" ∧
      parseStateEventMutation Printer.parseThreeHalves sampleMutation.print =
        .error ⟨"note = \"a+=b\""⟩ ∧
      parseStateEventMutation Printer.parseThreeHalves sampleMutation.print ≠ .ok sampleMutation.read := by
  have printed : sampleMutation.print = "note = \"a+=b\"" := by decide +kernel
  have refused : parseStateEventMutation Printer.parseThreeHalves sampleMutation.print =
      .error ⟨"note = \"a+=b\""⟩ := by decide +kernel
  refine ⟨printed, refused, ?_⟩
  rw [refused]
  exact nofun

end Results

end Axonyx.Core
