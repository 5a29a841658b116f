import Axonyx.Core.ExprParts
import Axonyx.Ieee

/-! Exactly the legible expressions come back from their fully parenthesised text. -/
namespace Axonyx.Core.Printer

open Nesting Text Axonyx.Core.Parser

variable {F : Type} [Float64 F] {floatText : AxFloat F → String} {parseF64 : String → Option F} {line : Nat}

section Targets

/-- The first word of a text. -/
theorem word_front {a b more rest : List Char} {c d : Char} (first : ∀ x ∈ a, isIdentifierChar x = true)
    (second : ∀ x ∈ b, isIdentifierChar x = true) (offC : isIdentifierChar c = false)
    (offD : isIdentifierChar d = false) (same : a ++ c :: more = b ++ d :: rest) : a = b ∧ c = d := by
  have front {text more : List Char} {x : Char} (chars : ∀ y ∈ text, isIdentifierChar y = true)
      (off : isIdentifierChar x = false) : (text ++ x :: more).takeWhile isIdentifierChar = text := by
    rw [List.takeWhile_append_of_pos chars, List.takeWhile_cons_of_neg (by simp [off]), List.append_nil]
  have words : a = b := by
    rw [← @front _ more _ first offC, same, front second offD]
  subst words
  exact ⟨rfl, (List.cons.inj (List.append_cancel_left same)).1⟩

/-- An operand that starts with a letter is a word. -/
theorem operand_word {expr : AxExpr F} (wf : WellFormed floatText parseF64 expr) {c : Char} {rest : List Char}
    (shape : operand floatText expr = c :: rest) (letter : c.isAlpha = true) :
    (∃ value, expr = .bool value) ∨ ∃ name, expr = .identifier name := by
  have legal : isIdentifierChar c = true := by simp [isIdentifierChar, Char.isAlphanum, letter]
  have other (d : Char) (off : isIdentifierChar d = false) (tail : List Char)
      (text : operand floatText expr = d :: tail) : False := by
    rw [text] at shape
    obtain ⟨rfl, _⟩ := List.cons.inj shape
    simp [off] at legal
  have digit : c.isDigit = false := by
    by_contra digit
    simp only [Identifiers.isAlpha_eq, Identifiers.isUpper_eq, Identifiers.isLower_eq, Char.isDigit, Bool.not_eq_false, Bool.or_eq_true,
      Bool.and_eq_true, decide_eq_true_eq, UInt32.le_iff_toNat_le, ge_iff_le] at letter digit
    simp at letter digit
    omega
  cases expr with
  | string value => exact (other '"' (by decide) _ rfl).elim
  | number value =>
    have member : c ∈ (toString value).toList := by
      change (toString value).toList = c :: rest at shape
      simp [shape]
    rcases toString_chars value c member with here | rfl
    · simp [digit] at here
    · exact absurd legal (by decide)
  | float value =>
    have member : c ∈ (floatText value).toList := by
      change (floatText value).toList = c :: rest at shape
      simp [shape]
    rcases float_chars wf c member with here | rfl | rfl
    · simp [digit] at here
    · exact absurd legal (by decide)
    · exact absurd legal (by decide)
  | bool value => exact .inl ⟨value, rfl⟩
  | identifier name => exact .inr ⟨name, rfl⟩
  | _ => exact (other '(' (by decide) _ rfl).elim

theorem word_chars {expr : AxExpr F} (wf : WellFormed floatText parseF64 expr)
    (word : (∃ value, expr = .bool value) ∨ ∃ name, expr = .identifier name) :
    ∀ c ∈ operand floatText expr, isIdentifierChar c = true := by
  rcases word with ⟨value, rfl⟩ | ⟨name, rfl⟩
  · exact bool_chars value
  · exact (name_chars wf.1).2

/-- Only an operation shows a word with a blank behind it. -/
theorem target_prefix {expr : AxExpr F} (wf : WellFormed floatText parseF64 expr) {word : String} {c : Char}
    {letters more : List Char} (start : word.toList = c :: letters) (letter : c.isAlpha = true)
    (chars : ∀ d ∈ word.toList, isIdentifierChar d = true) (notBool : word ≠ "true" ∧ word ≠ "false")
    (text : print floatText expr = word.toList ++ ' ' :: more) :
    ∃ op left right, expr = .binary op left right ∧ isName word left = true := by
  have legal : isIdentifierChar c = true := chars c (by simp [start])
  have blank : isIdentifierChar ' ' = false := by decide
  have head : (print floatText expr).head? = some c := by
    rw [text, start]
    rfl
  have words {whole : List Char} (all : ∀ d ∈ whole, isIdentifierChar d = true)
      (same : whole = word.toList ++ ' ' :: more) : False := by
    have member : ' ' ∈ whole := by simp [same]
    exact absurd (all ' ' member) (by decide)
  have operands {object : AxExpr F} (valid : WellFormed floatText parseF64 object) {d : Char} {rest : List Char}
      (off : isIdentifierChar d = false) (same : operand floatText object ++ d :: rest = word.toList ++ ' ' :: more) :
      d = ' ' ∧ isName word object = true := by
    obtain ⟨e, tail, shape, _⟩ := operand_head valid
    have first : e = c := by
      rw [shape, start] at same
      exact (List.cons.inj same).1
    have kind := operand_word valid shape (first ▸ letter)
    obtain ⟨words, sign⟩ := word_front (word_chars valid kind) chars off blank same
    refine ⟨sign, ?_⟩
    rcases kind with ⟨value, rfl⟩ | ⟨name, rfl⟩
    · have same : toString value = word := String.toList_inj.mp words
      cases value
      · exact absurd same.symm notBool.2
      · exact absurd same.symm notBool.1
    · have same : name = word := String.toList_inj.mp words
      simp [isName, same]
  cases expr with
  | string value =>
    obtain rfl : '"' = c := Option.some.inj head
    cases legal
  | number value =>
    have digits := toString_chars value ' ' (show ' ' ∈ print floatText (.number value : AxExpr F) by simp [text])
    exact absurd digits (by decide)
  | float value =>
    have digits := float_chars wf ' ' (show ' ' ∈ print floatText (.float value) by simp [text])
    exact absurd digits (by decide)
  | bool value => exact (words (bool_chars value) text).elim
  | identifier name => exact (words (name_chars wf.1).2 text).elim
  | list items =>
    obtain rfl : '[' = c := Option.some.inj head
    cases legal
  | object fields =>
    obtain rfl : '{' = c := Option.some.inj head
    cases legal
  | unary op inner =>
    have off : isIdentifierChar (opSign op) = false := by cases op <;> decide
    obtain rfl : opSign op = c := Option.some.inj head
    simp [legal] at off
  | binary op left right => exact ⟨op, left, right, rfl, (operands wf.1 blank text).2⟩
  | index object index => exact absurd (operands wf.1 (d := '[') (by decide) text).1 (by decide)
  | member object property => exact absurd (operands wf.1 (d := '.') (by decide) text).1 (by decide)
  | optionalMember object property => exact absurd (operands wf.1 (d := '?') (by decide) text).1 (by decide)
  | call path args =>
    obtain ⟨name, rest, rfl⟩ := List.exists_cons_of_ne_nil wf.1
    have first := (name_chars (wf.2.1 name List.mem_cons_self)).2
    cases rest with
    | nil => exact absurd (word_front (c := '(') first chars (by decide) blank text).2 (by decide)
    | cons next others =>
      rw [print, dotted_cons name (List.cons_ne_nil next others), List.append_assoc] at text
      exact absurd (word_front first chars (by decide) blank text).2 (by decide)

end Targets

section RoundTrip

/-- A literal of digits shows no operator: its sign has nothing to its left. -/
theorem numeric_candidates {text : List Char} {number : Parsed (AxExpr F)}
    (literal : parseNumericLiteral parseF64 text line = some number) : candidates text = [] := by
  have chars : ∀ c ∈ (if text.head? = some '-' then text.tail else text), c.isDigit = true ∨ c = '.' := by
    unfold parseNumericLiteral at literal
    dsimp only at literal
    generalize (if text.head? = some '-' then text.tail else text) = unsigned at literal
    split at literal
    · cases literal
    · split at literal
      · next digits => exact fun c member => .inl (List.all_eq_true.mp digits c member)
      · split at literal
        · next decimal =>
          intro c member
          have here := List.all_eq_true.mp decimal c member
          simpa using here
        · cases literal
  apply List.filterMap_eq_nil_iff.mpr
  intro place member
  obtain ⟨before, after⟩ := place
  obtain ⟨whole, c, rest, rfl, _⟩ := mem_tops member
  rw [List.reverse_nil, List.nil_append] at whole
  cases before with
  | nil => exact candidate_first _
  | cons d others =>
    have inside : c ∈ (if text.head? = some '-' then text.tail else text) := by
      have behind : c ∈ text.tail := by
        obtain ⟨front, e, shape⟩ : ∃ front e, (d :: others).reverse = e :: front := by
          obtain ⟨e, front, shape⟩ := List.exists_cons_of_ne_nil
            (show (d :: others).reverse ≠ [] by simp)
          exact ⟨front, e, shape⟩
        rw [← whole, shape]
        simp
      split
      · exact behind
      · exact List.mem_of_mem_tail behind
    rcases chars c inside with digit | rfl
    · have legal := identifier_of_digit digit
      have word : c ≠ 'i' := by
        rintro rfl
        exact absurd digit (by decide)
      apply candidate_free word
      rw [List.all_eq_true]
      intro token here
      have starts : ∀ token ∈ operatorTokens, token.1.toList.head?.any isIdentifierChar = false := by decide
      have first := starts token here
      rw [bne_iff_ne]
      intro same
      rw [same, Option.any_some, legal] at first
      cases first
    · exact candidate_free (by decide) (by decide) _ _

/-- A literal is read the same as an operation is. -/
theorem numeric_binary {text : List Char} (firm : Firm text) {number : Parsed (AxExpr F)}
    (literal : parseNumericLiteral parseF64 text line = some number) :
    parseBinaryExpr parseF64 line text 0 = number := by
  rw [binary_unary (numeric_candidates literal), parseUnaryExpr_eq, firm.trim, literal]

/-- Where a whole expression stands, the word of a data source takes the rest for a name. -/
theorem read_exposed {expr : AxExpr F} (wf : WellFormed floatText parseF64 expr) :
    parseExpr parseF64 line (print floatText expr) = .ok expr ↔
      parseBinaryExpr parseF64 line (print floatText expr) 0 = .ok expr ∧ startsTarget expr = false := by
  have firm := firm_print wf
  have target {word : String} {rest : List Char} (op : AxBinaryOp) (left right : AxExpr F) :
      (parseTarget line word rest : Parsed (AxExpr F)) ≠ .ok (.binary op left right) := by
    unfold parseTarget
    dsimp only
    split
    · exact fun same => nomatch same
    · exact fun same => nomatch same
  have prefixed {word : String} (shown : (word ++ " ").toList.isPrefixOf (print floatText expr) = true) :
      ∃ more, print floatText expr = word.toList ++ ' ' :: more := by
    obtain ⟨more, shape⟩ := List.isPrefixOf_iff_prefix.mp shown
    refine ⟨more, ?_⟩
    rw [← shape, String.toList_append, List.append_assoc]
    rfl
  have starts {word : String} (op : AxBinaryOp) {left right : AxExpr F} (same : expr = .binary op left right)
      (name : isName word left = true) : (word ++ " ").toList.isPrefixOf (print floatText expr) = true := by
    subst same
    cases left with
    | identifier other =>
      obtain rfl := beq_iff_eq.mp name
      apply List.isPrefixOf_iff_prefix.mpr
      refine ⟨opToken op ++ ' ' :: operand floatText right, ?_⟩
      rw [String.toList_append, List.append_assoc]
      rfl
    | _ => cases name
  rw [parseExpr_eq, firm.trim, firm.isEmpty, if_neg Bool.false_ne_true]
  by_cases load : "load ".toList.isPrefixOf (print floatText expr) = true
  · obtain ⟨more, shape⟩ := @prefixed "load" load
    obtain ⟨op, left, right, rfl, name⟩ := target_prefix wf rfl (by decide) (by decide) (by decide) shape
    rw [if_pos load]
    simp only [target op left right, startsTarget, name, Bool.true_or, Bool.true_eq_false, and_false]
  · rw [if_neg load]
    by_cases action : "action ".toList.isPrefixOf (print floatText expr) = true
    · obtain ⟨more, shape⟩ := @prefixed "action" action
      obtain ⟨op, left, right, rfl, name⟩ := target_prefix wf rfl (by decide) (by decide) (by decide) shape
      rw [if_pos action]
      simp only [target op left right, startsTarget, name, Bool.or_true, Bool.true_eq_false, and_false]
    · have free : startsTarget expr = false := by
        cases expr with
        | binary op left right =>
          rw [startsTarget, Bool.or_eq_false_iff]
          refine ⟨?_, ?_⟩
          · by_contra name
            exact load (@starts "load" op _ _ rfl (by simpa using name))
          · by_contra name
            exact action (@starts "action" op _ _ rfl (by simpa using name))
        | _ => rfl
      rw [if_neg action]
      simp only [free, and_true]
      cases literal : (parseNumericLiteral parseF64 (print floatText expr) line : Option (Parsed (AxExpr F))) with
      | none => rfl
      | some number => rw [numeric_binary firm literal]

mutual

/-- By induction on the expression, each form with its parts. -/
theorem read_print : ∀ {expr : AxExpr F}, WellFormed floatText parseF64 expr →
    (parseBinaryExpr parseF64 line (print floatText expr) 0 = .ok expr ↔ Legible floatText expr)
  | .string _, wf => iff_of_true (read_atom wf rfl) trivial
  | .number _, wf => iff_of_true (read_atom wf rfl) trivial
  | .float _, wf => iff_of_true (read_atom wf rfl) trivial
  | .bool _, wf => iff_of_true (read_atom wf rfl) trivial
  | .identifier _, wf => iff_of_true (read_atom wf rfl) trivial
  | .list _, wf => by rw [read_list wf, Legible, read_items wf]
  | .object _, wf => by rw [read_object wf, Legible, read_fields wf.2]
  | .unary .not expr, wf => by
    have inner : WellFormed floatText parseF64 expr := wf
    rw [read_not inner, Legible, read_print inner]
  | .unary .neg expr, wf => by
    have inner : WellFormed floatText parseF64 expr := wf
    rw [read_neg inner, Legible, read_print inner]
  | .binary _ _ _, wf => by rw [read_binary wf, Legible, read_print wf.1, read_print wf.2]
  | .index object index, wf => by
    rw [read_index wf, read_exposed wf.2, Legible, read_print wf.1, read_print wf.2]
    tauto
  | .member object property, wf => by
    have member := @read_member F _ floatText parseF64 line false object property wf.1 wf.2
    rw [Legible, ← read_print wf.1]
    exact member
  | .optionalMember object property, wf => by
    have member := @read_member F _ floatText parseF64 line true object property wf.1 wf.2
    rw [Legible, ← read_print wf.1]
    exact member
  | .call _ _, wf => by rw [read_call wf, Legible, read_items wf.2.2]

theorem read_items : ∀ {items : List (AxExpr F)}, WellFormedItems floatText parseF64 items →
    ((printItems floatText items).mapM (parseExpr parseF64 line) = .ok items ↔ LegibleItems floatText items)
  | [], _ => iff_of_true rfl trivial
  | item :: rest, wf => by
    rw [LegibleItems, ← read_print wf.1, ← read_exposed wf.1, ← read_items wf.2, printItems, List.mapM_cons]
    constructor
    · intro read
      obtain ⟨first, here, others⟩ := Outcome.bind_ok.mp read
      obtain ⟨later, there, last⟩ := Outcome.bind_ok.mp others
      obtain ⟨rfl, rfl⟩ := List.cons.inj (Except.ok.inj last)
      exact ⟨here, there⟩
    · rintro ⟨here, there⟩
      rw [here, there]
      rfl

theorem read_fields : ∀ {fields : List (String × AxExpr F)}, WellFormedFields floatText parseF64 fields →
    ((∀ field ∈ fields, parseExpr parseF64 line (print floatText field.2) = .ok field.2) ↔
      LegibleFields floatText fields)
  | [], _ => iff_of_true (fun _ member => absurd member List.not_mem_nil) trivial
  | (key, value) :: rest, wf => by
    rw [LegibleFields, ← read_print wf.1, ← read_exposed wf.1, ← read_fields wf.2, List.forall_mem_cons]

end

/-- An expression comes back from its text exactly where the scanners part it as it was printed. -/
theorem parse_print_iff {expr : AxExpr F} (wf : WellFormed floatText parseF64 expr) :
    parseExpr parseF64 line (print floatText expr) = .ok expr ↔ Readable floatText expr := by
  rw [read_exposed wf, read_print wf, Readable]

theorem new_get (value : AxFloat F) : AxFloat.new value.get = some value := by
  rw [AxFloat.new, dif_pos value.finite]
  simp only [value.canonical]

/-- The float one and a half, with its literal. -/
def threeHalves : AxFloat F64 := ⟨0x3ff8000000000000#64, by decide +kernel, by decide +kernel⟩

def threeHalvesText (_ : AxFloat F64) : String := "1.5"

def parseThreeHalves (text : String) : Option F64 :=
  if text = "1.5" then some 0x3ff8000000000000#64 else none

theorem threeHalves_reads : ReadsBack threeHalvesText parseThreeHalves threeHalves :=
  ⟨⟨false, ['1'], ['5'], rfl, by decide, by decide, by decide, by decide⟩, new_get threeHalves⟩

def sampleExpr : AxExpr F64 :=
  .call ["db", "rows"] [.list [.string "a, \\ b", .float threeHalves],
    .binary .add (.index (.identifier "row") (.string "key")) (.unary .neg (.member (.identifier "row") "size"))]

theorem parse_print_sample : parseExpr parseThreeHalves 1 (print threeHalvesText sampleExpr) = .ok sampleExpr := by
  have float := threeHalves_reads
  have name (text : String) (valid : isValidObjectKey text.toList = true) (other : text ≠ "true" ∧ text ≠ "false") :
      IsName text := ⟨valid, other⟩
  have row : IsName "row" := name "row" (by decide) (by decide)
  have wf : WellFormed threeHalvesText parseThreeHalves sampleExpr :=
    ⟨by decide, by decide, ⟨trivial, float, trivial⟩, ⟨⟨row, trivial⟩, row, by decide⟩, trivial⟩
  have list : Separable (printItems threeHalvesText [.string "a, \\ b", .float threeHalves]) :=
    of_decide_eq_true (p := Apart _ _ _) rfl
  have index : Retraceable (print threeHalvesText (.string "key" : AxExpr F64)) := by
    unfold Retraceable Level
    decide +kernel
  have readable : Readable threeHalvesText sampleExpr :=
    ⟨⟨by decide, of_decide_eq_true (p := Apart _ _ _) rfl,
      ⟨⟨list, ⟨trivial, rfl⟩, ⟨trivial, rfl⟩, trivial⟩, rfl⟩,
      ⟨⟨⟨trivial, trivial, rfl, rfl, rfl, index⟩, ⟨⟨trivial, rfl, rfl, rfl, by decide⟩, rfl⟩, by decide⟩, rfl⟩,
      trivial⟩, rfl⟩
  exact (parse_print_iff wf).mpr readable

/-- A comma between two strings that are one double quote each parts nothing. -/
theorem quotes_are_joined :
    parseExpr parseThreeHalves 1 (print threeHalvesText (.list [.string "\"", .string "\""])) =
      .ok (.list [.string "\"\", \"\""]) ∧
    parseExpr parseThreeHalves 1 (print threeHalvesText (.list [.string "\"", .string "\""])) ≠
      .ok (.list [.string "\"", .string "\""]) := by
  have read : parseExpr parseThreeHalves 1 (print threeHalvesText (.list [.string "\"", .string "\""])) =
      .ok (.list [.string "\"\", \"\""]) := by rfl
  refine ⟨read, ?_⟩
  rw [read]
  intro same
  have lengths := congrArg List.length (AxExpr.list.inj (Except.ok.inj same))
  exact absurd lengths (by decide)

end RoundTrip

end Axonyx.Core.Printer
