import Axonyx.Core.ExprParser

/-! Fully parenthesised printing of expressions, with every string in the parser's own
escapes, and the trees whose text the parser's scanners cut where the printer stopped. -/
namespace Axonyx.Core.Printer

open Nesting Text Axonyx.Core.Parser

section Printing

def escapeChar (c : Char) : List Char :=
  if c = '\n' then ['\\', 'n']
  else if c = '\r' then ['\\', 'r']
  else if c = '\t' then ['\\', 't']
  else if c = '"' ∨ c = '\\' then ['\\', c]
  else [c]

def quoted (text : String) : List Char := '"' :: (text.toList.flatMap escapeChar ++ ['"'])

def opToken : AxBinaryOp → List Char
  | .add => "+".toList | .sub => "-".toList | .mul => "*".toList | .div => "/".toList
  | .rem => "%".toList | .eq => "==".toList | .ne => "!=".toList | .gt => ">".toList
  | .ge => ">=".toList | .lt => "<".toList | .le => "<=".toList | .in => "in".toList
  | .and => "&&".toList | .or => "||".toList | .fallback => "??".toList

def opSign : AxUnaryOp → Char
  | .not => '!'
  | .neg => '-'

variable {F : Type} [Float64 F] (floatText : AxFloat F → String)

/-- Names and literals, the operands that stand without parentheses. -/
def isAtom : AxExpr F → Bool
  | .string _ | .number _ | .float _ | .bool _ | .identifier _ => true
  | _ => false

def enclose (text : List Char) : List Char := '(' :: (text ++ [')'])

/-- A path of a call. -/
def dotted (path : List String) : List Char := (join "." path).toList

mutual

def print : AxExpr F → List Char
  | .string value => quoted value
  | .number value => (toString value).toList
  | .float value => (floatText value).toList
  | .bool value => (toString value).toList
  | .list items => '[' :: (joined ',' (printItems items) ++ [']'])
  | .object fields => '{' :: (joined ',' (printFields fields) ++ ['}'])
  | .identifier name => name.toList
  | .unary op expr => opSign op :: (if isAtom expr then print expr else enclose (print expr))
  | .binary op left right =>
    (if isAtom left then print left else enclose (print left)) ++ ' ' :: (opToken op ++
      ' ' :: (if isAtom right then print right else enclose (print right)))
  | .index object index =>
    (if isAtom object then print object else enclose (print object)) ++ '[' :: (print index ++ [']'])
  | .member object property =>
    (if isAtom object then print object else enclose (print object)) ++ '.' :: property.toList
  | .optionalMember object property =>
    (if isAtom object then print object else enclose (print object)) ++ '?' :: '.' :: property.toList
  | .call path args => dotted path ++ enclose (joined ',' (printItems args))

def printItems : List (AxExpr F) → List (List Char)
  | [] => []
  | item :: rest => print item :: printItems rest

def printFields : List (String × AxExpr F) → List (List Char)
  | [] => []
  | (key, value) :: rest => (quoted key ++ ':' :: ' ' :: print value) :: printFields rest

end

def operand (expr : AxExpr F) : List Char :=
  if isAtom expr then print floatText expr else enclose (print floatText expr)

end Printing

section Domain

variable {F : Type} [Float64 F] (floatText : AxFloat F → String) (parseF64 : String → Option F)

def IsName (name : String) : Prop :=
  isValidObjectKey name.toList = true ∧ name ≠ "true" ∧ name ≠ "false"

/-- The text of a float is a decimal that reads back as the float. -/
structure ReadsBack (value : AxFloat F) : Prop where
  decimal : ∃ (negative : Bool) (whole fraction : List Char), (floatText value).toList =
    (if negative then ['-'] else []) ++ whole ++ '.' :: fraction ∧ whole ≠ [] ∧ fraction ≠ [] ∧
      (∀ c ∈ whole, c.isDigit = true) ∧ ∀ c ∈ fraction, c.isDigit = true
  value : (parseF64 (floatText value)).bind AxFloat.new = some value

mutual

/-- Names are identifiers, and the keys of an object are in the order of its map. -/
def WellFormed : AxExpr F → Prop
  | .string _ | .number _ | .bool _ => True
  | .float value => ReadsBack floatText parseF64 value
  | .list items => WellFormedItems items
  | .object fields => (fields.map Prod.fst).Pairwise (· < ·) ∧ WellFormedFields fields
  | .identifier name => IsName name
  | .unary _ expr => WellFormed expr
  | .binary _ left right => WellFormed left ∧ WellFormed right
  | .index object index => WellFormed object ∧ WellFormed index
  | .member object property | .optionalMember object property =>
    WellFormed object ∧ isValidObjectKey property.toList = true
  | .call path args =>
    path ≠ [] ∧ (∀ name ∈ path, isValidObjectKey name.toList = true) ∧ WellFormedItems args

def WellFormedItems : List (AxExpr F) → Prop
  | [] => True
  | item :: rest => WellFormed item ∧ WellFormedItems rest

def WellFormedFields : List (String × AxExpr F) → Prop
  | [] => True
  | (_, value) :: rest => WellFormed value ∧ WellFormedFields rest

end

end Domain

section Legibility

variable {F : Type} [Float64 F] (floatText : AxFloat F → String)

/-- A number with or without a minus sign in its text. -/
def isNumberText (negative : Bool) : AxExpr F → Bool
  | .number value => decide (value.toInt < 0) == negative
  | .float value => ((floatText value).toList.head? == some '-') == negative
  | _ => false

def isName (name : String) : AxExpr F → Bool
  | .identifier other => other == name
  | _ => false

def isString : AxExpr F → Bool
  | .string _ => true
  | _ => false

def isFloat : AxExpr F → Bool
  | .float _ => true
  | _ => false

/-- The scanner that knows no escapes cuts a list of parts where the printer put the commas. -/
def Separable (parts : List (List Char)) : Prop :=
  Apart (escapeBlind ['(', '[', '{'] [')', ']', '}']) ',' parts

/-- Read backwards, a text shows no quote and no bracket that is not its own. -/
def Retraceable (text : List Char) : Prop := Level (escapeAware [']'] ['[']) text.reverse

/-- The word that starts a data source takes the rest of an operation for its name. -/
def startsTarget : AxExpr F → Bool
  | .binary _ left _ => isName "load" left || isName "action" left
  | _ => false

mutual

/-- What the scanners of one form make of the parts the printer wrote, for every part. -/
def Legible : AxExpr F → Prop
  | .string _ | .number _ | .float _ | .bool _ | .identifier _ => True
  | .list items => Separable (printItems floatText items) ∧ LegibleItems items
  | .object fields => Separable (printFields floatText fields) ∧ LegibleFields fields
  | .unary .not expr => Legible expr ∧ isName "in" expr = false ∧ isNumberText floatText true expr = false
  | .unary .neg expr => Legible expr ∧ isNumberText floatText false expr = false
  | .binary op left right =>
    Legible left ∧ Legible right ∧ (binaryPrecedence op = 5 → isName "in" right = false)
  | .index object index => Legible object ∧ Legible index ∧ startsTarget index = false ∧
      isNumberText floatText true object = false ∧ isFloat object = false ∧
      Retraceable (print floatText index)
  | .member object property | .optionalMember object property =>
    Legible object ∧ isString object = false ∧ isNumberText floatText true object = false ∧
      isFloat object = false ∧ property ≠ "in"
  | .call path args =>
    "in" ∉ path.tail ∧ Separable (printItems floatText args) ∧ LegibleItems args

def LegibleItems : List (AxExpr F) → Prop
  | [] => True
  | item :: rest => (Legible item ∧ startsTarget item = false) ∧ LegibleItems rest

def LegibleFields : List (String × AxExpr F) → Prop
  | [] => True
  | (_, value) :: rest => (Legible value ∧ startsTarget value = false) ∧ LegibleFields rest

end

/-- The scanners read the whole text as the printer wrote it. -/
def Readable (expr : AxExpr F) : Prop := Legible floatText expr ∧ startsTarget expr = false

end Legibility

end Axonyx.Core.Printer
