import Axonyx.Core.Expr
import Axonyx.Nesting

/-! The parser of expressions. It looks for the operator that binds least, cuts the text there
and goes on with the parts, with a scanner of its own for each kind of cut. Some of these
know that a backslash takes the meaning from a quote, some do not. -/
namespace Axonyx.Core.Parser

open Nesting Text

section Scanners

/-- Operators, wrapping brackets, object colons, members: an escaped quote is a character. -/
def escapeAware (opens closes : List Char) : Rules := ⟨['"', '\''], some '\\', opens, closes⟩

def nestingRules : Rules := escapeAware ['(', '[', '{'] [')', ']', '}']

/-- Argument lists and calls: every quote ends or starts a string. -/
def escapeBlind (opens closes : List Char) : Rules := ⟨['"', '\''], none, opens, closes⟩

def isIdentifierChar (c : Char) : Bool := c.isAlphanum || c == '_'

def isValidObjectKey : List Char → Bool
  | [] => false
  | first :: rest => (first == '_' || first.isAlpha) && rest.all isIdentifierChar

def outerParensWrap (input : List Char) : Bool := wraps (escapeAware ['('] [')']) start input

def outerBracketsWrap (input : List Char) : Bool := wraps (escapeAware ['['] [']']) start input

def splitTopLevel (input : List Char) (delimiter : Char) : List (List Char) :=
  (pieces (escapeBlind ['(', '[', '{'] [')', ']', '}']) delimiter start input).map trimChars

/-- The text before the first place outside strings and brackets that looks so, and the text
from there on. -/
def findTop (rules : Rules) (here : List Char → Bool) (input : List Char) :
    Option (List Char × List Char) :=
  ((tops rules start [] input).find? fun place => here place.2).map fun place =>
    (place.1.reverse, place.2)

def findTopLevelObjectColon (input : List Char) : Option (List Char × List Char) :=
  findTop nestingRules (fun text => text.head? == some ':') input

def findTopLevelMemberSeparator (input : List Char) : Option (List Char × List Char) :=
  findTop nestingRules
    (fun text => text.head? == some '.' || "?.".toList.isPrefixOf text) input

def findCallOpen (input : List Char) : Option (List Char × List Char) :=
  findTop (escapeBlind [] []) (fun text => text.head? == some '(') input

def trimWrappingParensFrom : Nat → List Char → List Char
  | 0, current => current
  | fuel + 1, current =>
    if current.head? = some '(' ∧ current.getLast? = some ')' ∧ outerParensWrap current then
      trimWrappingParensFrom fuel (trimChars current.tail.dropLast)
    else current

def trimWrappingParens (input : List Char) : List Char :=
  trimWrappingParensFrom input.length (trimChars input)

end Scanners

section Operators

def wordOperator : List Char := "in".toList

/-- The operator tokens but the word, in the order they are tried. -/
def operatorTokens : List (String × AxBinaryOp) :=
  [("??", .fallback), ("||", .or), ("&&", .and), ("==", .eq), ("!=", .ne), (">=", .ge),
    ("<=", .le), (">", .gt), ("<", .lt), ("+", .add), ("-", .sub), ("*", .mul), ("/", .div),
    ("%", .rem)]

/-- `before` is backwards. -/
def isWordOperatorBoundary (before after : List Char) : Bool :=
  !before.head?.any isIdentifierChar && !(after.drop wordOperator.length).head?.any isIdentifierChar

def binaryOpAt (before after : List Char) : Option AxBinaryOp :=
  if wordOperator.isPrefixOf after && isWordOperatorBoundary before after then some .in
  else (operatorTokens.find? fun token => token.1.toList.isPrefixOf after).map Prod.snd

def binaryPrecedence : AxBinaryOp → Nat
  | .fallback => 1
  | .or => 2
  | .and => 3
  | .eq | .ne => 4
  | .gt | .ge | .lt | .le | .in => 5
  | .add | .sub => 6
  | .mul | .div | .rem => 7

def binaryOpLen : AxBinaryOp → Nat
  | .gt | .lt | .add | .sub | .mul | .div | .rem => 1
  | .fallback | .or | .and | .eq | .ne | .ge | .le | .in => 2

def operatorHasLeftOperand (before : List Char) : Bool :=
  (before.find? fun c => !isWhitespace c).any fun c =>
    c ∉ ['(', '[', '{', ',', '+', '-', '*', '/', '%']

/-- An operator with the text before it, backwards, and from it on. -/
structure Candidate where
  before : List Char
  after : List Char
  op : AxBinaryOp
  deriving DecidableEq, Repr

def candidateAt (place : List Char × List Char) : Option Candidate :=
  match binaryOpAt place.1 place.2 with
  | some op => if operatorHasLeftOperand place.1 then some ⟨place.1, place.2, op⟩ else none
  | none => none

def candidates (input : List Char) : List Candidate :=
  (tops nestingRules start [] input).filterMap candidateAt

/-- A later operator that binds no tighter takes the place of an earlier one. -/
def lower (minPrecedence : Nat) (result : Option Candidate) (candidate : Candidate) :
    Option Candidate :=
  if binaryPrecedence candidate.op < minPrecedence then result
  else if result.all fun current => binaryPrecedence candidate.op ≤ binaryPrecedence current.op then
    some candidate
  else result

def findLowestPrecedenceOperator (input : List Char) (minPrecedence : Nat) : Option Candidate :=
  (candidates input).foldl (lower minPrecedence) none

end Operators

section Literals

/-- The one error expressions have. -/
structure InvalidExpression where
  line : Nat
  message : String
  deriving DecidableEq, Repr

/-- Why a text has no expression: the second only where a text is deeper than its length. -/
inductive Failure where
  | invalid (error : InvalidExpression)
  | deep
  deriving DecidableEq, Repr

abbrev Parsed := Except Failure

def invalid {α : Type} (line : Nat) (message : String) : Parsed α :=
  .error (.invalid ⟨line, message⟩)

def shown (input : List Char) : String := "\x60" ++ .ofList input ++ "\x60"

def unescape (c : Char) : Char :=
  if c = 'n' then '\n' else if c = 'r' then '\r' else if c = 't' then '\t' else c

/-- The characters a literal stands for; none where the text ends behind a backslash. -/
def unescapeChars : List Char → Option (List Char)
  | [] => some []
  | ['\\'] => none
  | '\\' :: c :: rest => (unescapeChars rest).map (unescape c :: ·)
  | c :: rest => (unescapeChars rest).map (c :: ·)

def parseQuotedString (input : List Char) (line : Nat) : Parsed (Option String) :=
  match input with
  | [] => .ok none
  | quote :: rest =>
    if quote ≠ '"' ∧ quote ≠ '\'' then .ok none
    else if rest.getLast? ≠ some quote then invalid line "unterminated string literal"
    else match unescapeChars rest.dropLast with
      | some value => .ok (some (.ofList value))
      | none => invalid line "unterminated string escape"

variable {F : Type} [Float64 F] (parseF64 : String → Option F)

def parseNumericLiteral (input : List Char) (line : Nat) : Option (Parsed (AxExpr F)) :=
  let unsigned := if input.head? = some '-' then input.tail else input
  if !unsigned.head?.any Char.isDigit then none
  else if unsigned.all Char.isDigit then
    some (match parseI64 input with
      | some number => .ok (.number number)
      | none => invalid line ("integer literal " ++ shown input ++ " is outside the Int range"))
  else if unsigned.all fun c => c.isDigit || c == '.' then
    match unsigned.splitOn '.' with
    | [whole, fraction] =>
      if whole.isEmpty || fraction.isEmpty then
        some (invalid line ("invalid decimal Float literal " ++ shown input))
      else match (parseF64 (.ofList input)).bind AxFloat.new with
        | some value => some (.ok (.float value))
        | none => some (invalid line ("Float literal " ++ shown input ++ " must be finite"))
    | _ => some (invalid line ("invalid decimal Float literal " ++ shown input))
  else none

end Literals

section Grammar

variable {F : Type} [Float64 F] (parseF64 : String → Option F) (line : Nat)

/-- `load name` and `action name`: the call with what follows as its text. -/
def parseTarget (word : String) (rest : List Char) : Parsed (AxExpr F) :=
  let name := trimChars rest
  if name.isEmpty then invalid line (word ++ " target is empty")
  else
    let unquoted := fun quote (text : List Char) =>
      (text.dropWhile (· == quote)).rdropWhile (· == quote)
    .ok (.call [word] [.string (.ofList (unquoted '\'' (unquoted '"' name)))])

/-- The object and the index, where the text ends in brackets that are not a list. -/
def splitTrailingIndex (input : List Char) : Parsed (Option (List Char × List Char)) :=
  let input := trimChars input
  if input.getLast? ≠ some ']' then .ok none
  else if input.head? = some '[' ∧ outerBracketsWrap input then .ok none
  else match cut (escapeAware [']'] ['[']) start [] input.reverse with
    | none => .ok none
    | some (behind, object) =>
      let object := trimChars object.reverse
      let index := trimChars behind.dropLast
      if object.isEmpty || index.isEmpty then
        invalid line ("invalid index expression " ++ shown input)
      else .ok (some (object, index))

/-- The members behind an object; every turn takes a separator off. -/
def parseMembers (input : List Char) : Nat → AxExpr F → List Char → Parsed (AxExpr F)
  | _, expr, [] => .ok expr
  | 0, _, _ => .error .deep
  | fuel + 1, expr, cursor =>
    let separated :=
      if "?.".toList.isPrefixOf cursor then some (true, cursor.drop 2)
      else if cursor.head? = some '.' then some (false, cursor.tail)
      else none
    match separated with
    | none => invalid line ("invalid member expression " ++ shown input)
    | some (optional, cursor) =>
      let (property, rest) := (findTopLevelMemberSeparator cursor).getD (cursor, [])
      let property := trimChars property
      if property.isEmpty then invalid line ("invalid member expression " ++ shown input)
      else if optional then parseMembers input fuel (.optionalMember expr (.ofList property)) rest
      else parseMembers input fuel (.member expr (.ofList property)) rest

/-- The key of an object field. -/
def parseKey (source : List Char) : Parsed String := do
  match ← parseQuotedString source line with
  | some value => pure value
  | none =>
    if isValidObjectKey source then pure (.ofList source)
    else invalid line ("invalid object key " ++ shown source)

/-- The parts of an object with the fields read so far; `comma`: the text ends in one. -/
def parseFields (expr : List Char → Parsed (AxExpr F)) (comma : Bool) :
    List (List Char) → List (String × AxExpr F) → Parsed (List (String × AxExpr F))
  | [], fields => .ok fields
  | part :: parts, fields =>
    if part.isEmpty && parts.isEmpty && comma then .ok fields
    else match findTopLevelObjectColon part with
      | none => invalid line ("object field " ++ shown part ++ " requires \x60key: value\x60")
      | some (before, after) => do
        let keySource := trimChars before
        let valueSource := trimChars after.tail
        if keySource.isEmpty || valueSource.isEmpty then
          invalid line ("invalid object field " ++ shown part)
        else
          let key ← parseKey line keySource
          if (Core.lookup fields key).isSome then
            invalid line ("duplicate object key " ++ shown key.toList)
          else
            let value ← expr valueSource
            parseFields expr comma parts (insertField fields key value)

def parseListExpr (expr : List Char → Parsed (AxExpr F)) (input : List Char) :
    Parsed (AxExpr F) :=
  if input.head? ≠ some '[' ∨ input.getLast? ≠ some ']' then
    invalid line ("invalid list literal " ++ shown input)
  else
    let inner := trimChars input.tail.dropLast
    if inner.isEmpty then .ok (.list [])
    else do
      let items ← (splitTopLevel inner ',').mapM fun part =>
        if part.isEmpty then invalid line ("empty item in list literal " ++ shown input)
        else expr part
      return .list items

def parseObjectExpr (expr : List Char → Parsed (AxExpr F)) (input : List Char) :
    Parsed (AxExpr F) :=
  if input.head? ≠ some '{' ∨ input.getLast? ≠ some '}' then
    invalid line ("invalid object literal " ++ shown input)
  else
    let inner := trimChars input.tail.dropLast
    if inner.isEmpty then .ok (.object [])
    else do
      let fields ← parseFields line expr (inner.getLast? == some ',') (splitTopLevel inner ',') []
      return .object fields

def parseCall (expr : List Char → Parsed (AxExpr F)) (input path behind : List Char) :
    Parsed (AxExpr F) :=
  let args := behind.tail.dropLast
  let path := (((trimChars path).splitOn '.').map trimChars).filter fun segment => !segment.isEmpty
  if path.isEmpty then invalid line ("invalid call path " ++ shown input)
  else do
    let args ← if (trimChars args).isEmpty then pure []
      else (splitTopLevel args ',').mapM fun part => expr (trimChars part)
    return .call (path.map .ofList) args

def parseMemberExpr (primary : List Char → Parsed (AxExpr F)) (input : List Char) :
    Parsed (AxExpr F) :=
  match findTopLevelMemberSeparator (trimChars input) with
  | none => invalid line ("invalid member expression " ++ shown input)
  | some (first, cursor) =>
    let first := trimChars first
    if first.isEmpty then invalid line ("invalid member expression " ++ shown input)
    else do
      let object ← primary first
      parseMembers line input cursor.length object cursor

/-- The last forms that are tried: every bracket is known to be none of an index. -/
def parseForms (expr primary : List Char → Parsed (AxExpr F)) (input : List Char) :
    Parsed (AxExpr F) := do
  match ← parseQuotedString input line with
  | some value => return .string value
  | none =>
    if input = "true".toList then return .bool true
    else if input = "false".toList then return .bool false
    else match parseI64 input with
      | some value => return .number value
      | none =>
        if input.head? = some '[' ∨ input.getLast? = some ']' then parseListExpr line expr input
        else if input.head? = some '{' ∨ input.getLast? = some '}' then
          parseObjectExpr line expr input
        else match (if input.getLast? = some ')' then findCallOpen input else none) with
          | some (path, behind) => parseCall line expr input path behind
          | none =>
            if input.contains '.' then parseMemberExpr line primary input
            else return .identifier (.ofList input)

mutual

def parseExprFrom : Nat → List Char → Parsed (AxExpr F)
  | 0, _ => .error .deep
  | fuel + 1, input =>
    let input := trimChars input
    if input.isEmpty then invalid line "expression is empty"
    else if "load ".toList.isPrefixOf input then parseTarget line "load" (input.drop 5)
    else if "action ".toList.isPrefixOf input then parseTarget line "action" (input.drop 7)
    else match parseNumericLiteral parseF64 input line with
      | some number => number
      | none => parseBinaryFrom fuel input 0

def parseBinaryFrom : Nat → List Char → Nat → Parsed (AxExpr F)
  | 0, _, _ => .error .deep
  | fuel + 1, input, minPrecedence =>
    match findLowestPrecedenceOperator input minPrecedence with
    | none => parseUnaryFrom fuel input
    | some candidate => do
      let leftSource := trimChars candidate.before.reverse
      let rightSource := trimChars (candidate.after.drop (binaryOpLen candidate.op))
      if leftSource.isEmpty || rightSource.isEmpty then
        invalid line ("missing operand in " ++ shown input)
      else
        let left ← parseBinaryFrom fuel leftSource minPrecedence
        let right ← parseBinaryFrom fuel rightSource (binaryPrecedence candidate.op + 1)
        return .binary candidate.op left right

def parseUnaryFrom : Nat → List Char → Parsed (AxExpr F)
  | 0, _ => .error .deep
  | fuel + 1, input =>
    let input := trimChars input
    match parseNumericLiteral parseF64 input line with
    | some number => number
    | none =>
      if input.head? = some '!' then
        let rest := trimChars input.tail
        if rest.isEmpty || rest.head? = some '=' then parsePrimaryFrom fuel input
        else (parseUnaryFrom fuel rest).map (.unary .not)
      else if input.head? = some '-' then
        let rest := trimChars input.tail
        if rest.isEmpty then parsePrimaryFrom fuel input
        else match parseI64 input with
          | some value => .ok (.number value)
          | none => (parseUnaryFrom fuel rest).map (.unary .neg)
      else parsePrimaryFrom fuel input

def parsePrimaryFrom : Nat → List Char → Parsed (AxExpr F)
  | 0, _ => .error .deep
  | fuel + 1, original =>
    let original := trimChars original
    let input := trimWrappingParens original
    if input ≠ original then parseBinaryFrom fuel input 0
    else do
      match ← splitTrailingIndex line input with
      | some (objectSource, indexSource) =>
        let object ← parsePrimaryFrom fuel objectSource
        let index ← parseExprFrom fuel indexSource
        return .index object index
      | none => parseForms line (parseExprFrom fuel) (parsePrimaryFrom fuel) input

end

/-! No text calls deeper than four times its length. -/

def parseExpr (input : List Char) : Parsed (AxExpr F) :=
  parseExprFrom parseF64 line (4 * input.length + 4) input

def parseBinaryExpr (input : List Char) (minPrecedence : Nat) : Parsed (AxExpr F) :=
  parseBinaryFrom parseF64 line (4 * input.length + 3) input minPrecedence

def parseUnaryExpr (input : List Char) : Parsed (AxExpr F) :=
  parseUnaryFrom parseF64 line (4 * input.length + 2) input

def parsePrimaryExpr (input : List Char) : Parsed (AxExpr F) :=
  parsePrimaryFrom parseF64 line (4 * input.length + 1) input

end Grammar

end Axonyx.Core.Parser
