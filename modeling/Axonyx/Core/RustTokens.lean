import Axonyx.Edits
import Axonyx.Text

/-! Rust expressions, their texts, and the token trees with byte positions that the tokenizer reads
from such a text. -/
namespace Axonyx.Core.Rust

open Axonyx.Edits

section Tokens

structure Span where
  start : Nat
  stop : Nat

inductive Delimiter where
  | parenthesis | brace | bracket
  deriving DecidableEq, Repr

def Delimiter.opening : Delimiter → Char
  | .parenthesis => '('
  | .brace => '\x7b'
  | .bracket => '['

def Delimiter.closing : Delimiter → Char
  | .parenthesis => ')'
  | .brace => '\x7d'
  | .bracket => ']'

/-- `TokenTree` of `proc_macro2`, with byte ranges. -/
inductive TokenTree where
  | ident (name : String) (span : Span)
  | punct (char : Char) (span : Span)
  | literal (span : Span)
  | group (delimiter : Delimiter) (stream : List TokenTree) (spanOpen spanClose : Span)

def isDot : TokenTree → Bool
  | .punct char _ => char = '.'
  | _ => false

def isColon : TokenTree → Bool
  | .punct char _ => char = ':'
  | _ => false

def isComma : TokenTree → Bool
  | .punct char _ => char = ','
  | _ => false

/-- The tokens in front, the nearest one first, end in a dot or in a path separator. -/
def isMemberPlace : List TokenTree → Bool
  | [] => false
  | [token] => isDot token
  | token :: earlier :: _ => isDot token || isColon token && isColon earlier

def startsParenthesis : List TokenTree → Bool
  | .group .parenthesis _ _ _ :: _ => true
  | _ => false

end Tokens

section Nodes

/-- A word of the code, without blanks. -/
structure Word where
  text : String
  present : text.toList ≠ []
  solid : ∀ c ∈ text.toList, Text.isWhitespace c = false

def Word.chars (word : Word) : List Char := word.text.toList

/-- A literal with all its letters. -/
structure Literal where
  chars : List Char
  firm : Text.Firm chars

inductive Sign where
  | plus | minus | star | slash | percent | caret | ampersand | pipe | less | greater | equals | bang
  | question | dot | colon | comma
  deriving DecidableEq, Repr

def Sign.char : Sign → Char
  | .plus => '+'
  | .minus => '-'
  | .star => '*'
  | .slash => '/'
  | .percent => '%'
  | .caret => '^'
  | .ampersand => '&'
  | .pipe => '|'
  | .less => '<'
  | .greater => '>'
  | .equals => '='
  | .bang => '!'
  | .question => '?'
  | .dot => '.'
  | .colon => ':'
  | .comma => ','

/-- A piece of code that the tokenizer reads as one token tree, with a blank in front or none. -/
inductive Node where
  | word (gap : Bool) (name : Word)
  | sign (gap : Bool) (mark : Sign)
  | literal (gap : Bool) (value : Literal)
  | group (gap : Bool) (delimiter : Delimiter) (inner : List Node)

def blank (gap : Bool) : List Char := if gap then [' '] else []

def enclose (delimiter : Delimiter) (inner : List Char) : List Char :=
  delimiter.opening :: (inner ++ [delimiter.closing])

mutual

def Node.print : Node → List Char
  | .word gap name => blank gap ++ name.chars
  | .sign gap mark => blank gap ++ [mark.char]
  | .literal gap value => blank gap ++ value.chars
  | .group gap delimiter inner => blank gap ++ enclose delimiter (printNodes inner)

def printNodes : List Node → List Char
  | [] => []
  | node :: nodes => node.print ++ printNodes nodes

end

mutual

/-- The token tree of a node whose text begins at a byte position. -/
def Node.token : Node → Nat → TokenTree
  | .word gap name, place =>
    let start := place + gap.toNat
    .ident name.text ⟨start, start + byteLength name.chars⟩
  | .sign gap mark, place =>
    let start := place + gap.toNat
    .punct mark.char ⟨start, start + 1⟩
  | .literal gap value, place =>
    let start := place + gap.toNat
    .literal ⟨start, start + byteLength value.chars⟩
  | .group gap delimiter inner, place =>
    let start := place + gap.toNat
    let width := byteLength (printNodes inner)
    .group delimiter (nodeTokens inner (start + 1)) ⟨start, start + 1⟩ ⟨start + 1 + width, start + 2 + width⟩

def nodeTokens : List Node → Nat → List TokenTree
  | [], _ => []
  | node :: nodes, place => node.token place :: nodeTokens nodes (place + byteLength node.print)

end

def Node.gap : Node → Bool
  | .word gap _ | .sign gap _ | .literal gap _ | .group gap _ _ => gap

def Node.withGap (gap : Bool) : Node → Node
  | .word _ name => .word gap name
  | .sign _ mark => .sign gap mark
  | .literal _ value => .literal gap value
  | .group _ delimiter inner => .group gap delimiter inner

/-- The nodes with a blank in front of them, or with none. -/
def spaced (gap : Bool) : List Node → List Node
  | [] => []
  | node :: nodes => node.withGap gap :: nodes

theorem sign_narrow (sign : Sign) : sign.char.utf8Size = 1 := by
  cases sign <;> decide

theorem sign_solid (sign : Sign) : Text.isWhitespace sign.char = false := by
  cases sign <;> decide

theorem opening_narrow (delimiter : Delimiter) : delimiter.opening.utf8Size = 1 := by
  cases delimiter <;> decide

theorem closing_narrow (delimiter : Delimiter) : delimiter.closing.utf8Size = 1 := by
  cases delimiter <;> decide

theorem byteLength_blank (gap : Bool) : byteLength (blank gap) = gap.toNat := by
  cases gap <;> decide

theorem byteLength_enclose (delimiter : Delimiter) (inner : List Char) :
    byteLength (enclose delimiter inner) = byteLength inner + 2 := by
  rw [enclose, byteLength_cons, byteLength_append, byteLength_cons, byteLength_nil, opening_narrow, closing_narrow]
  omega

@[simp] theorem printNodes_nil : printNodes [] = [] := rfl

@[simp] theorem printNodes_cons (node : Node) (nodes : List Node) :
    printNodes (node :: nodes) = node.print ++ printNodes nodes := rfl

@[simp] theorem printNodes_append (a b : List Node) : printNodes (a ++ b) = printNodes a ++ printNodes b := by
  induction a with
  | nil => rfl
  | cons node nodes ih => simp [ih]

@[simp] theorem nodeTokens_nil (place : Nat) : nodeTokens [] place = [] := rfl

@[simp] theorem nodeTokens_cons (node : Node) (nodes : List Node) (place : Nat) :
    nodeTokens (node :: nodes) place = node.token place :: nodeTokens nodes (place + byteLength node.print) := rfl

@[simp] theorem nodeTokens_append (a b : List Node) (place : Nat) :
    nodeTokens (a ++ b) place = nodeTokens a place ++ nodeTokens b (place + byteLength (printNodes a)) := by
  induction a generalizing place with
  | nil => rfl
  | cons node nodes ih => simp [ih, Nat.add_assoc]

theorem withGap_print {node : Node} (close : node.gap = false) : (node.withGap true).print = ' ' :: node.print := by
  cases node <;> simp_all [Node.gap, Node.withGap, Node.print, blank]

theorem withGap_token {node : Node} (close : node.gap = false) (place : Nat) :
    (node.withGap true).token place = node.token (place + 1) := by
  cases node <;> simp_all [Node.gap, Node.withGap, Node.token]

/-- The nodes begin without a blank. -/
def Close (nodes : List Node) : Prop := ∃ node rest, nodes = node :: rest ∧ node.gap = false

theorem Close.append {nodes : List Node} (close : Close nodes) (more : List Node) : Close (nodes ++ more) := by
  obtain ⟨node, rest, rfl, gap⟩ := close
  exact ⟨node, rest ++ more, rfl, gap⟩

theorem printNodes_spaced {nodes : List Node} (close : Close nodes) :
    printNodes (spaced true nodes) = ' ' :: printNodes nodes := by
  obtain ⟨node, rest, rfl, gap⟩ := close
  simp [spaced, withGap_print gap]

theorem nodeTokens_spaced {nodes : List Node} (close : Close nodes) (place : Nat) :
    nodeTokens (spaced true nodes) place = nodeTokens nodes (place + 1) := by
  have narrow : Char.utf8Size ' ' = 1 := by decide
  obtain ⟨node, rest, rfl, gap⟩ := close
  simp [spaced, withGap_print gap, withGap_token gap, narrow, Nat.add_assoc]

end Nodes

section Expressions

/-- A name: a word that is not the keyword of a mutable borrow. -/
structure Ident extends Word where
  noKeyword : text ≠ "mut"

def Ident.chars (name : Ident) : List Char := name.toWord.chars

inductive UnaryOp where
  | neg | not | deref | ref | refMut | rangeTo
  deriving DecidableEq, Repr

inductive BinaryOp where
  | add | sub | mul | div | rem | bitAnd | bitOr | bitXor | shl | shr
  | eq | ne | lt | gt | le | ge | and | or
  | assign | addAssign | subAssign | mulAssign | divAssign | remAssign
  | bitAndAssign | bitOrAssign | bitXorAssign | shlAssign | shrAssign
  | range | rangeInclusive
  deriving DecidableEq, Repr

/-- The first sign of an operator, and the others. -/
def BinaryOp.signs : BinaryOp → Sign × List Sign
  | .add => (.plus, [])
  | .sub => (.minus, [])
  | .mul => (.star, [])
  | .div => (.slash, [])
  | .rem => (.percent, [])
  | .bitAnd => (.ampersand, [])
  | .bitOr => (.pipe, [])
  | .bitXor => (.caret, [])
  | .shl => (.less, [.less])
  | .shr => (.greater, [.greater])
  | .eq => (.equals, [.equals])
  | .ne => (.bang, [.equals])
  | .lt => (.less, [])
  | .gt => (.greater, [])
  | .le => (.less, [.equals])
  | .ge => (.greater, [.equals])
  | .and => (.ampersand, [.ampersand])
  | .or => (.pipe, [.pipe])
  | .assign => (.equals, [])
  | .addAssign => (.plus, [.equals])
  | .subAssign => (.minus, [.equals])
  | .mulAssign => (.star, [.equals])
  | .divAssign => (.slash, [.equals])
  | .remAssign => (.percent, [.equals])
  | .bitAndAssign => (.ampersand, [.equals])
  | .bitOrAssign => (.pipe, [.equals])
  | .bitXorAssign => (.caret, [.equals])
  | .shlAssign => (.less, [.less, .equals])
  | .shrAssign => (.greater, [.greater, .equals])
  | .range => (.dot, [.dot])
  | .rangeInclusive => (.dot, [.dot, .equals])

/-- A type as an argument of a path or a method. -/
inductive TypeArg where
  | named (first : Ident) (rest : List Ident) (args : List TypeArg)

/-- Rust expressions. A list is an array, a tuple or the body of a macro; one item in parentheses
is a parenthesised expression. A call, a method, a macro and a list may have a comma at their end. -/
inductive Expr where
  | ident (name : Ident)
  | path (first second : Ident) (rest : List Ident) (types : List TypeArg)
  | literal (value : Literal)
  | entry (key : Literal) (value : Expr)
  | field (object : Expr) (name : Ident)
  | index (object place : Expr)
  | call (callee : Expr) (args : List Expr) (comma : Bool)
  | method (object : Expr) (name : Ident) (types : List TypeArg) (args : List Expr) (comma : Bool)
  | macroCall (first : Ident) (rest : List Ident) (delimiter : Delimiter) (args : List Expr) (comma : Bool)
  | unary (op : UnaryOp) (operand : Expr)
  | binary (op : BinaryOp) (left right : Expr)
  | question (operand : Expr)
  | list (delimiter : Delimiter) (items : List Expr) (comma : Bool)

def Expr.paren (inner : Expr) : Expr := .list .parenthesis [inner] false

def Expr.isField : Expr → Bool
  | .field _ _ => true
  | _ => false

/-- Operators and entries bind less than what stands behind an expression. -/
def Expr.isOperation : Expr → Bool
  | .unary _ _ | .binary _ _ _ | .entry _ _ => true
  | _ => false

mutual

/-- What is called, indexed or has a member is in parentheses if it is an operation; so is a field
that is called. -/
def Expr.Valid : Expr → Prop
  | .ident _ | .path _ _ _ _ | .literal _ => True
  | .entry _ value => value.Valid
  | .field object _ => object.isOperation = false ∧ object.Valid
  | .index object place => object.isOperation = false ∧ object.Valid ∧ place.Valid
  | .call callee args _ => callee.isOperation = false ∧ callee.isField = false ∧ callee.Valid ∧ ValidItems args
  | .method object _ _ args _ => object.isOperation = false ∧ object.Valid ∧ ValidItems args
  | .macroCall _ _ _ args _ => ValidItems args
  | .unary _ operand => operand.Valid
  | .binary _ left right => left.Valid ∧ right.Valid
  | .question operand => operand.isOperation = false ∧ operand.Valid
  | .list _ items _ => ValidItems items

def ValidItems : List Expr → Prop
  | [] => True
  | item :: items => item.Valid ∧ ValidItems items

end

/-- An expression tree of Rust. -/
structure ExprTree where
  expr : Expr
  valid : expr.Valid

end Expressions

section Texts

def pathNodes (names : List Ident) : List Node :=
  names.flatMap fun name => [.sign false .colon, .sign false .colon, .word false name.toWord]

def memberNodes (name : Ident) : List Node := [.sign false .dot, .word false name.toWord]

mutual

def TypeArg.nodes : TypeArg → Bool → List Node
  | .named first rest args, gap =>
    .word gap first.toWord :: (pathNodes rest ++ (if args.isEmpty then []
      else .sign false .less :: (typeNodes args false ++ [.sign false .greater])))

def typeNodes : List TypeArg → Bool → List Node
  | [], _ => []
  | type :: types, gap =>
    type.nodes gap ++ ((if types.isEmpty then [] else [.sign false .comma]) ++ typeNodes types true)

end

/-- The types behind a path or a method. -/
def turbofish (types : List TypeArg) : List Node :=
  if types.isEmpty then []
  else .sign false .colon :: .sign false .colon :: .sign false .less :: (typeNodes types false ++ [.sign false .greater])

def mutWord : Word := ⟨"mut", by decide, by decide⟩

def UnaryOp.nodes : UnaryOp → List Node
  | .neg => [.sign false .minus]
  | .not => [.sign false .bang]
  | .deref => [.sign false .star]
  | .ref => [.sign false .ampersand]
  | .refMut => [.sign false .ampersand, .word false mutWord]
  | .rangeTo => [.sign false .dot, .sign false .dot]

def BinaryOp.nodes (op : BinaryOp) : List Node := .sign true op.signs.1 :: op.signs.2.map (.sign false)

/-- The comma behind an item of a list. -/
def separatorNodes (rest : List Expr) (comma : Bool) : List Node :=
  if rest.isEmpty && !comma then [] else [.sign false .comma]

mutual

def Expr.nodes : Expr → List Node
  | .ident name => [.word false name.toWord]
  | .path first second rest types => .word false first.toWord :: (pathNodes (second :: rest) ++ turbofish types)
  | .literal value => [.literal false value]
  | .entry key value => .literal false key :: .sign false .colon :: spaced true value.nodes
  | .field object name => object.nodes ++ memberNodes name
  | .index object place => object.nodes ++ [.group false .bracket place.nodes]
  | .call callee args comma => callee.nodes ++ [.group false .parenthesis (itemNodes args comma)]
  | .method object name types args comma =>
    object.nodes ++ (memberNodes name ++ (turbofish types ++ [.group false .parenthesis (itemNodes args comma)]))
  | .macroCall first rest delimiter args comma =>
    .word false first.toWord :: (pathNodes rest ++ [.sign false .bang, .group false delimiter (itemNodes args comma)])
  | .unary op operand => op.nodes ++ spaced (op == .refMut) operand.nodes
  | .binary op left right => left.nodes ++ (op.nodes ++ spaced true right.nodes)
  | .question operand => operand.nodes ++ [.sign false .question]
  | .list delimiter items comma => [.group false delimiter (itemNodes items comma)]

def itemNodes : List Expr → Bool → List Node
  | [], _ => []
  | item :: items, comma => item.nodes ++ (separatorNodes items comma ++ spaced true (itemNodes items comma))

end

def Expr.print (expr : Expr) : List Char := printNodes expr.nodes

/-- The token trees of an expression whose text begins at a byte position. -/
def Expr.tokens (expr : Expr) (place : Nat) : List TokenTree := nodeTokens expr.nodes place

def printItems (items : List Expr) (comma : Bool) : List Char := printNodes (itemNodes items comma)

def itemTokens (items : List Expr) (comma : Bool) (place : Nat) : List TokenTree := nodeTokens (itemNodes items comma) place

end Texts

section Equations

attribute [simp] Expr.nodes itemNodes Node.print

theorem spaced_false {nodes : List Node} (close : Close nodes) : spaced false nodes = nodes := by
  obtain ⟨node, rest, rfl, gap⟩ := close
  cases node <;> simp_all [spaced, Node.withGap, Node.gap]

theorem nodes_close (expr : Expr) : Close expr.nodes := by
  match expr with
  | .ident _ | .literal _ | .list _ _ _ | .path _ _ _ _ | .entry _ _ | .macroCall _ _ _ _ _ => exact ⟨_, _, rfl, rfl⟩
  | .field object _ | .index object _ | .call object _ _ | .method object _ _ _ _ | .question object =>
    exact (nodes_close object).append _
  | .unary op _ => cases op <;> exact ⟨_, _, rfl, rfl⟩
  | .binary _ left _ => exact (nodes_close left).append _

theorem items_close (item : Expr) (items : List Expr) (comma : Bool) : Close (itemNodes (item :: items) comma) :=
  (nodes_close item).append _

/-- The text of an operator, with the blank that its operand needs. -/
def UnaryOp.chars (op : UnaryOp) : List Char := printNodes op.nodes ++ blank (op == .refMut)

def BinaryOp.chars (op : BinaryOp) : List Char := printNodes op.nodes

def pathText (first : Ident) (rest : List Ident) : List Char := first.chars ++ printNodes (pathNodes rest)

/-- What stands behind an item of a list. -/
def separator (rest : List Expr) (comma : Bool) : List Char :=
  printNodes (separatorNodes rest comma) ++ blank (!rest.isEmpty)

theorem print_spaced {nodes : List Node} (gap : Bool) (close : Close nodes) :
    printNodes (spaced gap nodes) = blank gap ++ printNodes nodes := by
  cases gap with
  | false => rw [spaced_false close]; rfl
  | true => rw [printNodes_spaced close]; rfl

theorem nodeTokens_gap {nodes : List Node} (gap : Bool) (close : Close nodes) (place : Nat) :
    nodeTokens (spaced gap nodes) place = nodeTokens nodes (place + gap.toNat) := by
  cases gap with
  | false => rw [spaced_false close]; rfl
  | true => rw [nodeTokens_spaced close]; rfl

@[simp] theorem print_ident (name : Ident) : (Expr.ident name).print = name.chars := by
  simp [Expr.print, blank, Ident.chars]

@[simp] theorem print_path (first second : Ident) (rest : List Ident) (types : List TypeArg) :
    (Expr.path first second rest types).print = pathText first (second :: rest) ++ printNodes (turbofish types) := by
  simp [Expr.print, blank, Ident.chars, pathText]

@[simp] theorem print_literal (value : Literal) : (Expr.literal value).print = value.chars := by
  simp [Expr.print, blank]

@[simp] theorem print_entry (key : Literal) (value : Expr) :
    (Expr.entry key value).print = key.chars ++ (':' :: ' ' :: value.print) := by
  simp [Expr.print, blank, printNodes_spaced (nodes_close value), Sign.char]

@[simp] theorem print_member (name : Ident) : printNodes (memberNodes name) = '.' :: name.chars := by
  simp [memberNodes, blank, Ident.chars, Sign.char]

@[simp] theorem print_field (object : Expr) (name : Ident) :
    (Expr.field object name).print = object.print ++ ('.' :: name.chars) := by
  simp [Expr.print]

@[simp] theorem print_index (object place : Expr) :
    (Expr.index object place).print = object.print ++ enclose .bracket place.print := by
  simp [Expr.print, blank]

@[simp] theorem print_call (callee : Expr) (args : List Expr) (comma : Bool) :
    (Expr.call callee args comma).print = callee.print ++ enclose .parenthesis (printItems args comma) := by
  simp [Expr.print, blank, printItems]

@[simp] theorem print_method (object : Expr) (name : Ident) (types : List TypeArg) (args : List Expr) (comma : Bool) :
    (Expr.method object name types args comma).print = object.print ++ ('.' :: (name.chars ++
      (printNodes (turbofish types) ++ enclose .parenthesis (printItems args comma)))) := by
  simp [Expr.print, blank, printItems]

@[simp] theorem print_macroCall (first : Ident) (rest : List Ident) (delimiter : Delimiter) (args : List Expr)
    (comma : Bool) : (Expr.macroCall first rest delimiter args comma).print =
      pathText first rest ++ ('!' :: enclose delimiter (printItems args comma)) := by
  simp [Expr.print, blank, printItems, pathText, Ident.chars, Sign.char]

@[simp] theorem print_unary (op : UnaryOp) (operand : Expr) :
    (Expr.unary op operand).print = op.chars ++ operand.print := by
  simp [Expr.print, UnaryOp.chars, print_spaced _ (nodes_close operand)]

@[simp] theorem print_binary (op : BinaryOp) (left right : Expr) :
    (Expr.binary op left right).print = left.print ++ (op.chars ++ (' ' :: right.print)) := by
  simp [Expr.print, BinaryOp.chars, printNodes_spaced (nodes_close right)]

@[simp] theorem print_question (operand : Expr) : (Expr.question operand).print = operand.print ++ ['?'] := by
  simp [Expr.print, blank, Sign.char]

@[simp] theorem print_list (delimiter : Delimiter) (items : List Expr) (comma : Bool) :
    (Expr.list delimiter items comma).print = enclose delimiter (printItems items comma) := by
  simp [Expr.print, blank, printItems]

@[simp] theorem printItems_nil (comma : Bool) : printItems [] comma = [] := rfl

@[simp] theorem printItems_cons (item : Expr) (items : List Expr) (comma : Bool) :
    printItems (item :: items) comma = item.print ++ (separator items comma ++ printItems items comma) := by
  cases items with
  | nil => simp [printItems, separator, spaced, blank, Expr.print]
  | cons next rest =>
    simp only [printItems, itemNodes.eq_2 comma item, printNodes_append, separator, printNodes_spaced (items_close next rest comma)]
    simp [blank, Expr.print]

theorem tokens_entry (key : Literal) (value : Expr) (place : Nat) : (Expr.entry key value).tokens place =
    .literal ⟨place, place + byteLength key.chars⟩ ::
      .punct ':' ⟨place + byteLength key.chars, place + byteLength key.chars + 1⟩ ::
      value.tokens (place + byteLength key.chars + 2) := by
  have colon : Char.utf8Size ':' = 1 := by decide
  simp [Expr.tokens, Node.token, blank, nodeTokens_spaced (nodes_close value), Sign.char, colon, Nat.add_assoc]

theorem tokens_field (object : Expr) (name : Ident) (place : Nat) : (Expr.field object name).tokens place =
    object.tokens place ++ nodeTokens (memberNodes name) (place + byteLength object.print) :=
  nodeTokens_append _ _ _

theorem tokens_index (object inner : Expr) (place : Nat) : (Expr.index object inner).tokens place =
    object.tokens place ++ [(Node.group false .bracket inner.nodes).token (place + byteLength object.print)] :=
  nodeTokens_append _ _ _

theorem tokens_call (callee : Expr) (args : List Expr) (comma : Bool) (place : Nat) :
    (Expr.call callee args comma).tokens place = callee.tokens place ++
      [(Node.group false .parenthesis (itemNodes args comma)).token (place + byteLength callee.print)] :=
  nodeTokens_append _ _ _

theorem tokens_method (object : Expr) (name : Ident) (types : List TypeArg) (args : List Expr) (comma : Bool)
    (place : Nat) : (Expr.method object name types args comma).tokens place =
      object.tokens place ++ (nodeTokens (memberNodes name) (place + byteLength object.print) ++
        (nodeTokens (turbofish types) (place + byteLength object.print + byteLength ('.' :: name.chars)) ++
          [(Node.group false .parenthesis (itemNodes args comma)).token (place + byteLength object.print +
            byteLength ('.' :: name.chars) + byteLength (printNodes (turbofish types)))])) := by
  rw [Expr.tokens, Expr.nodes, nodeTokens_append, nodeTokens_append, nodeTokens_append, print_member]
  rfl

theorem tokens_macroCall (first : Ident) (rest : List Ident) (delimiter : Delimiter) (args : List Expr) (comma : Bool)
    (place : Nat) : (Expr.macroCall first rest delimiter args comma).tokens place =
      (Node.word false first.toWord).token place :: (nodeTokens (pathNodes rest) (place + byteLength first.chars) ++
        [.punct '!' ⟨place + byteLength (pathText first rest), place + byteLength (pathText first rest) + 1⟩,
          (Node.group false delimiter (itemNodes args comma)).token (place + byteLength (pathText first rest) + 1)]) := by
  have mark : Char.utf8Size '!' = 1 := by decide
  simp [Expr.tokens, Node.token, blank, pathText, Ident.chars, Sign.char, mark, Nat.add_assoc]

theorem tokens_unary (op : UnaryOp) (operand : Expr) (place : Nat) : (Expr.unary op operand).tokens place =
    nodeTokens op.nodes place ++ operand.tokens (place + byteLength op.chars) := by
  rw [Expr.tokens, Expr.nodes, nodeTokens_append, nodeTokens_gap _ (nodes_close operand), UnaryOp.chars,
    byteLength_append, byteLength_blank, Nat.add_assoc]
  rfl

theorem tokens_binary (op : BinaryOp) (left right : Expr) (place : Nat) : (Expr.binary op left right).tokens place =
    left.tokens place ++ (nodeTokens op.nodes (place + byteLength left.print) ++
      right.tokens (place + byteLength left.print + byteLength op.chars + 1)) := by
  rw [Expr.tokens, Expr.nodes, nodeTokens_append, nodeTokens_append, nodeTokens_spaced (nodes_close right)]
  rfl

theorem tokens_question (operand : Expr) (place : Nat) : (Expr.question operand).tokens place =
    operand.tokens place ++ [.punct '?' ⟨place + byteLength operand.print, place + byteLength operand.print + 1⟩] :=
  nodeTokens_append _ _ _

theorem itemTokens_cons (item : Expr) (items : List Expr) (comma : Bool) (place : Nat) :
    itemTokens (item :: items) comma place = item.tokens place ++
      (nodeTokens (separatorNodes items comma) (place + byteLength item.print) ++
        itemTokens items comma (place + byteLength item.print + byteLength (separator items comma))) := by
  cases items with
  | nil => simp [itemTokens, spaced, Expr.tokens, Expr.print]
  | cons next rest =>
    rw [itemTokens, itemNodes.eq_2 comma item, nodeTokens_append, nodeTokens_append,
      nodeTokens_spaced (items_close next rest comma), separator, byteLength_append, byteLength_blank, Nat.add_assoc]
    rfl

end Equations

section Types

/-- A word or a sign other than a dot. -/
def Node.quiet : Node → Bool
  | .word _ _ => true
  | .sign _ mark => mark != .dot
  | .literal _ _ | .group _ _ _ => false

theorem quiet_path (names : List Ident) : (pathNodes names).all Node.quiet = true := by
  induction names with
  | nil => rfl
  | cons name rest ih =>
    rw [pathNodes, List.flatMap_cons, List.all_append]
    exact ih

mutual

theorem quiet_type (type : TypeArg) (gap : Bool) : (type.nodes gap).all Node.quiet = true := by
  match type with
  | .named first rest args =>
    have inner := quiet_types args false
    rw [TypeArg.nodes, List.all_cons, List.all_append, quiet_path]
    split
    · rfl
    · simp [Node.quiet, inner]

theorem quiet_types (types : List TypeArg) (gap : Bool) : (typeNodes types gap).all Node.quiet = true := by
  match types with
  | [] => rfl
  | type :: rest =>
    rw [typeNodes, List.all_append, quiet_type type gap, List.all_append, quiet_types rest true]
    split <;> rfl

end

/-- Types are words and signs, and end in a sign. -/
theorem turbofish_quiet (types : List TypeArg) : turbofish types = [] ∨
    ∃ front, turbofish types = front ++ [.sign false .greater] ∧ front.all Node.quiet = true := by
  rw [turbofish]
  split
  · exact .inl rfl
  · refine .inr ⟨.sign false .colon :: .sign false .colon :: .sign false .less :: typeNodes types false, rfl, ?_⟩
    simp [Node.quiet, quiet_types]

end Types

section Ends

/-- A node that is no dot, no colon and no comma. -/
def Node.closes : Node → Bool
  | .sign _ .dot | .sign _ .colon | .sign _ .comma => false
  | _ => true

/-- The nodes end in no dot, no colon and no comma. -/
def Closed (nodes : List Node) : Prop := ∃ front last, nodes = front ++ [last] ∧ last.closes = true

theorem closed_append {nodes : List Node} (front : List Node) (closed : Closed nodes) : Closed (front ++ nodes) := by
  obtain ⟨before, last, rfl, known⟩ := closed
  exact ⟨front ++ before, last, (List.append_assoc front before [last]).symm, known⟩

theorem closed_single {node : Node} (known : node.closes = true) : Closed [node] := ⟨[], node, rfl, known⟩

theorem closed_cons (node : Node) {nodes : List Node} (closed : Closed nodes) : Closed (node :: nodes) :=
  closed_append [node] closed

theorem closed_spaced (gap : Bool) {nodes : List Node} (closed : Closed nodes) : Closed (spaced gap nodes) := by
  obtain ⟨front, last, rfl, known⟩ := closed
  cases front with
  | nil =>
    refine ⟨[], last.withGap gap, rfl, ?_⟩
    cases last with
    | sign space mark =>
      cases mark with
      | dot | colon | comma => cases known
      | _ => rfl
    | _ => rfl
  | cons node rest => exact ⟨node.withGap gap :: rest, last, rfl, known⟩

theorem closed_path (name : Ident) (rest : List Ident) : Closed (pathNodes (name :: rest)) := by
  induction rest generalizing name with
  | nil => exact closed_cons _ (closed_cons _ (closed_single rfl))
  | cons next rest ih => exact closed_cons _ (closed_cons _ (closed_cons _ (ih next)))

theorem closed_turbofish {nodes : List Node} (closed : Closed nodes) (types : List TypeArg) :
    Closed (nodes ++ turbofish types) := by
  rw [turbofish]
  split
  · rwa [List.append_nil]
  · exact closed_append _ (closed_cons _ (closed_cons _ (closed_cons _ (closed_append _ (closed_single rfl)))))

theorem closed_nodes (expr : Expr) : Closed expr.nodes := by
  match expr with
  | .ident _ | .literal _ | .list _ _ _ => exact closed_single rfl
  | .path _ second rest types => exact closed_cons _ (closed_turbofish (closed_path second rest) types)
  | .entry _ value => exact closed_cons _ (closed_cons _ (closed_spaced true (closed_nodes value)))
  | .field _ _ => exact closed_append _ (closed_cons _ (closed_single rfl))
  | .index _ _ | .call _ _ _ | .question _ => exact closed_append _ (closed_single rfl)
  | .method _ _ _ _ _ => exact closed_append _ (closed_append _ (closed_append _ (closed_single rfl)))
  | .macroCall _ _ _ _ _ => exact closed_cons _ (closed_append _ (closed_cons _ (closed_single rfl)))
  | .unary _ operand => exact closed_append _ (closed_spaced _ (closed_nodes operand))
  | .binary _ _ right => exact closed_append _ (closed_append _ (closed_spaced true (closed_nodes right)))

theorem isMemberPlace_closed {nodes : List Node} (closed : Closed nodes) (place : Nat) (before : List TokenTree) :
    isMemberPlace ((nodeTokens nodes place).reverse ++ before) = false := by
  obtain ⟨front, last, rfl, known⟩ := closed
  rw [nodeTokens_append, List.reverse_append, List.append_assoc]
  generalize (nodeTokens front place).reverse ++ before = earlier
  cases last with
  | sign gap mark =>
    cases mark with
    | dot | colon | comma => cases known
    | _ => cases earlier <;> rfl
  | _ => cases earlier <;> rfl

/-- What stands behind an expression is no member and no part of a path. -/
theorem isMemberPlace_tokens (expr : Expr) (place : Nat) (before : List TokenTree) :
    isMemberPlace ((expr.tokens place).reverse ++ before) = false :=
  isMemberPlace_closed (closed_nodes expr) place before

theorem isMemberPlace_dot (span : Span) (before : List TokenTree) : isMemberPlace (.punct '.' span :: before) = true := by
  cases before <;> rfl

theorem isMemberPlace_mark (span : Span) (before : List TokenTree) : isMemberPlace (.punct '!' span :: before) = false := by
  cases before <;> rfl

theorem isMemberPlace_comma (span : Span) (before : List TokenTree) : isMemberPlace (.punct ',' span :: before) = false := by
  cases before <;> rfl

theorem isMemberPlace_colons (first second : Span) (before : List TokenTree) :
    isMemberPlace (.punct ':' second :: .punct ':' first :: before) = true := rfl

theorem operator_place (op : UnaryOp) (place : Nat) (before : List TokenTree) :
    isMemberPlace ((nodeTokens op.nodes place).reverse ++ before) = (op == .rangeTo) := by
  cases op <;> cases before <;> rfl

theorem sign_place (op : BinaryOp) (place : Nat) (before : List TokenTree) :
    isMemberPlace ((nodeTokens op.nodes place).reverse ++ before) = (op == .range) := by
  cases op <;> cases before <;> rfl

end Ends

section Pieces

def groupPieces (delimiter : Delimiter) (inner : List Piece) : List Piece :=
  .kept [delimiter.opening] :: (inner ++ [.kept [delimiter.closing]])

theorem olds_group (delimiter : Delimiter) (inner : List Piece) :
    olds (groupPieces delimiter inner) = enclose delimiter (olds inner) := by
  simp [groupPieces, enclose]

theorem news_group (delimiter : Delimiter) (inner : List Piece) :
    news (groupPieces delimiter inner) = enclose delimiter (news inner) := by
  simp [groupPieces, enclose]

theorem solid_group {delimiter : Delimiter} {inner : List Piece} (solid : Solid inner) :
    Solid (groupPieces delimiter inner) := solid_kept _ (solid_append solid (solid_kept _ solid_nil))

theorem edits_group (place : Nat) (delimiter : Delimiter) (inner : List Piece) :
    edits place (groupPieces delimiter inner) = edits (place + 1) inner := by
  simp [groupPieces, edits_append, opening_narrow, edits]

end Pieces

end Axonyx.Core.Rust
