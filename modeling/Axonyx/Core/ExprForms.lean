import Axonyx.Core.ExprLayout

/-! How the parser reads each form of a printed expression: which operator it finds, which
form it takes the text for, and the parts it goes on with. -/
namespace Axonyx.Core.Printer

open Nesting Text Axonyx.Core.Parser

variable {F : Type} [Float64 F] {floatText : AxFloat F → String} {parseF64 : String → Option F} {line : Nat}

section Stages

theorem numeric_none {text : List Char} {c : Char} (member : c ∈ text)
    (other : c.isDigit = false ∧ c ≠ '.' ∧ c ≠ '-') :
    (parseNumericLiteral parseF64 text line : Option (Parsed (AxExpr F))) = none := by
  have inside : c ∈ (if text.head? = some '-' then text.tail else text) := by
    split
    · next sign =>
      obtain ⟨rest, rfl⟩ := List.head?_eq_some_iff.mp sign
      rcases List.mem_cons.mp member with rfl | later
      · exact absurd rfl other.2.2
      · exact later
    · exact member
  unfold parseNumericLiteral
  dsimp only
  generalize (if text.head? = some '-' then text.tail else text) = unsigned at inside
  have digits : unsigned.all Char.isDigit = false :=
    List.all_eq_false.mpr ⟨c, inside, by simp [other.1]⟩
  have decimal : (unsigned.all fun c => c.isDigit || c == '.') = false :=
    List.all_eq_false.mpr ⟨c, inside, by simp [other]⟩
  rw [digits, decimal]
  split <;> simp

theorem numeric_none_second {c : Char} {rest : List Char} (other : c.isDigit = false) :
    (parseNumericLiteral parseF64 ('-' :: c :: rest) line : Option (Parsed (AxExpr F))) = none := by
  simp [parseNumericLiteral, other]

theorem parseUnsigned_none {limit : Nat} {text : List Char} {c : Char} (member : c ∈ text)
    (other : c.isDigit = false ∧ c ≠ '+') : parseUnsigned limit text = none := by
  cases parsed : parseUnsigned limit text with
  | none => rfl
  | some value =>
    rcases parseUnsigned_chars parsed c member with digit | plus
    · simp [other.1] at digit
    · exact absurd plus other.2

theorem parseI64_none {text : List Char} {c : Char} (member : c ∈ text)
    (other : c.isDigit = false ∧ c ≠ '+' ∧ c ≠ '-') : parseI64 text = none := by
  rw [parseI64.eq_def]
  split
  · next digits =>
    have inside : c ∈ digits := by
      rcases List.mem_cons.mp member with rfl | later
      · exact absurd rfl other.2.2
      · exact later
    split
    · rfl
    · rw [parseUnsigned_none inside ⟨other.1, other.2.1⟩]
      rfl
  · rw [parseUnsigned_none member ⟨other.1, other.2.1⟩]
    rfl

theorem candidate_first (text : List Char) : candidateAt ([], text) = none := by
  unfold candidateAt
  split <;> rfl

/-- Without operators the text goes on to the signs. -/
theorem binary_unary {text : List Char} (none : candidates text = []) (minPrecedence : Nat) :
    (parseBinaryExpr parseF64 line text minPrecedence : Parsed (AxExpr F)) = parseUnaryExpr parseF64 line text := by
  rw [parseBinaryExpr_eq, findLowestPrecedenceOperator, none]
  rfl

/-- Without a sign or a number it goes on to the forms in brackets. -/
theorem unary_primary {text : List Char} (firm : Firm text) (sign : text.head? ≠ some '!' ∧ text.head? ≠ some '-')
    (number : (parseNumericLiteral parseF64 text line : Option (Parsed (AxExpr F))) = none) :
    (parseUnaryExpr parseF64 line text : Parsed (AxExpr F)) = parsePrimaryExpr parseF64 line text := by
  rw [parseUnaryExpr_eq, firm.trim, number]
  simp only [if_neg sign.1, if_neg sign.2]

/-- A text that is not wrapped and has no index goes on to the last forms. -/
theorem primary_forms {text : List Char} (firm : Firm text) (wrapped : trimWrappingParens text = text)
    (index : splitTrailingIndex line text = .ok none) :
    (parsePrimaryExpr parseF64 line text : Parsed (AxExpr F)) =
      parseForms line (parseExpr parseF64 line) (parsePrimaryExpr parseF64 line) text := by
  rw [parsePrimaryExpr_eq, firm.trim, wrapped, if_neg (by simp), index]
  rfl

theorem not_wrapped_from {text : List Char} (bare : text.head? = some '(' → outerParensWrap text = false)
    (fuel : Nat) : trimWrappingParensFrom fuel text = text := by
  cases fuel with
  | zero => rfl
  | succ fuel =>
    rw [trimWrappingParensFrom, if_neg]
    rintro ⟨head, _, wraps⟩
    simp [bare head] at wraps

theorem not_wrapped {text : List Char} (firm : Firm text)
    (bare : text.head? = some '(' → outerParensWrap text = false) : trimWrappingParens text = text := by
  rw [trimWrappingParens, firm.trim, not_wrapped_from bare]

theorem without_index {text : List Char} (firm : Firm text) (last : text.getLast? ≠ some ']') :
    splitTrailingIndex line text = .ok none := by
  unfold splitTrailingIndex
  simp only [firm.trim, if_pos last]

theorem last_wrapped (o c : Char) (text : List Char) : (o :: (text ++ [c])).getLast? = some c := by
  rw [← List.cons_append, List.getLast?_concat]

end Stages

section Atoms

theorem unescape_escape (text : List Char) : unescapeChars (text.flatMap escapeChar) = some text := by
  induction text with
  | nil => rfl
  | cons c rest ih =>
    have step : unescapeChars (escapeChar c ++ rest.flatMap escapeChar) =
        (unescapeChars (rest.flatMap escapeChar)).map (c :: ·) := by
      unfold escapeChar
      split
      · next same => rw [same]; rfl
      · split
        · next same => rw [same]; rfl
        · split
          · next same => rw [same]; rfl
          · next newline carriage tab =>
            split
            · next special =>
              have kept : unescape c = c := by rcases special with rfl | rfl <;> rfl
              have pair (later : List Char) :
                  unescapeChars ('\\' :: c :: later) = (unescapeChars later).map (unescape c :: ·) := rfl
              rw [List.cons_append, List.cons_append, List.nil_append, pair, kept]
            · next plain =>
              obtain ⟨_, slash⟩ := not_or.mp plain
              rw [List.singleton_append, unescapeChars.eq_def]
              split
              · next shape => cases shape
              · next shape => exact absurd (List.cons.inj shape).1 slash
              · next shape => exact absurd (List.cons.inj shape).1 slash
              · next shape =>
                obtain ⟨rfl, rfl⟩ := List.cons.inj shape
                rfl
    rw [List.flatMap_cons, step, ih]
    rfl

theorem parseQuotedString_quoted (text : String) :
    parseQuotedString (quoted text) line = .ok (some text) := by
  simp [parseQuotedString, quoted, unescape_escape]

theorem parseQuotedString_none {text : List Char} (head : text.head? ≠ some '"' ∧ text.head? ≠ some '\'') :
    parseQuotedString text line = .ok none := by
  cases text with
  | nil => rfl
  | cons c rest =>
    simp only [List.head?_cons, ne_eq, Option.some.injEq] at head
    simp [parseQuotedString, head]

theorem parsePrimary_quoted (text : String) :
    parsePrimaryExpr parseF64 line (quoted text) = .ok (.string text : AxExpr F) := by
  have firm := firm_quoted text
  have wrapped := not_wrapped firm (fun head => by simp [quoted] at head)
  have last : (quoted text).getLast? ≠ some ']' := by
    rw [quoted, last_wrapped]
    decide
  rw [primary_forms firm wrapped (without_index firm last), parseForms, parseQuotedString_quoted]
  rfl

/-- A text of identifier characters has no form but a name or a number. -/
theorem parsePrimary_word {text : List Char} (present : text ≠ []) (chars : ∀ c ∈ text, isIdentifierChar c = true) :
    (parsePrimaryExpr parseF64 line text : Parsed (AxExpr F)) =
      if text = "true".toList then .ok (.bool true)
      else if text = "false".toList then .ok (.bool false)
      else match parseI64 text with
        | some value => .ok (.number value)
        | none => .ok (.identifier (.ofList text)) := by
  have firm := firm_solid present fun c member => identifier_solid (chars c member)
  have head (c : Char) (off : isIdentifierChar c = false) : text.head? ≠ some c := fun same =>
    identifier_ne (chars c (List.mem_of_mem_head? same)) off rfl
  have last (c : Char) (off : isIdentifierChar c = false) : text.getLast? ≠ some c := fun same =>
    identifier_ne (chars c (List.mem_of_mem_getLast? same)) off rfl
  have wrapped := not_wrapped firm fun here => absurd here (head '(' (by decide))
  have dotless : text.contains '.' = false := by
    rw [List.contains_eq_mem, decide_eq_false_iff_not]
    exact fun member => identifier_ne (chars '.' member) (by decide) rfl
  rw [primary_forms firm wrapped (without_index firm (last ']' (by decide))), parseForms,
    parseQuotedString_none ⟨head '"' (by decide), head '\'' (by decide)⟩]
  have brackets : ¬(text.head? = some '[' ∨ text.getLast? = some ']') :=
    not_or.mpr ⟨head '[' (by decide), last ']' (by decide)⟩
  have braces : ¬(text.head? = some '{' ∨ text.getLast? = some '}') :=
    not_or.mpr ⟨head '{' (by decide), last '}' (by decide)⟩
  simp only [if_neg brackets, if_neg braces, if_neg (last ')' (by decide)), dotless]
  rfl

theorem parsePrimary_name {name : String} (valid : IsName name) :
    parsePrimaryExpr parseF64 line name.toList = .ok (.identifier name : AxExpr F) := by
  obtain ⟨first, rest, shape, _, letter⟩ := name_head valid.1
  have chars := name_chars valid.1
  have member : first ∈ name.toList := by simp [shape]
  have legal := chars.2 first member
  have number := parseI64_none member
    ⟨letter, identifier_ne legal (by decide), identifier_ne legal (by decide)⟩
  have notTrue : name.toList ≠ "true".toList := fun same => valid.2.1 (String.toList_inj.mp same)
  have notFalse : name.toList ≠ "false".toList := fun same => valid.2.2 (String.toList_inj.mp same)
  rw [parsePrimary_word chars.1 chars.2, if_neg notTrue, if_neg notFalse, number, String.ofList_toList]

theorem parsePrimary_bool (value : Bool) :
    parsePrimaryExpr parseF64 line (toString value).toList = .ok (.bool value : AxExpr F) := by
  rw [parsePrimary_word (by cases value <;> decide) (bool_chars value)]
  cases value <;> rfl

/-- Digits alone are a number for every stage. -/
theorem parsePrimary_number {value : Int64} (positive : ¬value.toInt < 0) :
    parsePrimaryExpr parseF64 line (toString value).toList = .ok (.number value : AxExpr F) := by
  obtain ⟨digits, present, all, shape⟩ := number_shape value
  rw [if_neg positive, List.nil_append] at shape
  have number := parseI64_toString value
  rw [shape] at number ⊢
  have other (text : String) (letter : text.toList.any fun c => !c.isDigit) : digits ≠ text.toList := by
    rintro rfl
    obtain ⟨c, member, off⟩ := List.any_eq_true.mp letter
    simp [all c member] at off
  rw [parsePrimary_word present fun c member => identifier_of_digit (all c member),
    if_neg (other "true" (by decide)), if_neg (other "false" (by decide)), number]

theorem number_literal (value : Int64) :
    parseNumericLiteral parseF64 (toString value).toList line = some (.ok (.number value : AxExpr F)) := by
  obtain ⟨digits, present, all, shape⟩ := number_shape value
  have unsigned : (if (toString value).toList.head? = some '-' then (toString value).toList.tail
      else (toString value).toList) = digits := by
    rw [shape]
    by_cases sign : value.toInt < 0
    · simp [sign]
    · obtain ⟨d, rest, rfl⟩ := List.exists_cons_of_ne_nil present
      have plain : d ≠ '-' := by
        rintro rfl
        exact absurd (all '-' List.mem_cons_self) (by decide)
      simp [sign, plain]
  unfold parseNumericLiteral
  rw [unsigned]
  obtain ⟨d, rest, rfl⟩ := List.exists_cons_of_ne_nil present
  have first := all d List.mem_cons_self
  have every : (d :: rest).all Char.isDigit = true := List.all_eq_true.mpr all
  simp only [List.head?_cons, Option.any_some, first, Bool.not_true, every, parseI64_toString]
  rfl

theorem float_literal {value : AxFloat F} (reads : ReadsBack floatText parseF64 value) :
    parseNumericLiteral parseF64 (floatText value).toList line = some (.ok (.float value : AxExpr F)) := by
  obtain ⟨negative, whole, fraction, shape, present, more, first, second⟩ := reads.decimal
  have back := reads.value
  have head : ∃ d, d.isDigit = true ∧ (whole ++ '.' :: fraction).head? = some d := by
    obtain ⟨d, rest, rfl⟩ := List.exists_cons_of_ne_nil present
    exact ⟨d, first d List.mem_cons_self, rfl⟩
  obtain ⟨d, digit, head⟩ := head
  have plain : d ≠ '-' := by
    rintro rfl
    exact absurd digit (by decide)
  have unsigned : (if (floatText value).toList.head? = some '-' then (floatText value).toList.tail
      else (floatText value).toList) = whole ++ '.' :: fraction := by
    rw [shape]
    cases negative with
    | true => simp
    | false => simp [head, plain]
  have dotless (text : List Char) (digits : ∀ c ∈ text, c.isDigit = true) : '.' ∉ text := fun member =>
    absurd (digits '.' member) (by decide)
  have parts : (whole ++ '.' :: fraction).splitOn '.' = [whole, fraction] := by
    have joined : whole ++ '.' :: fraction = ['.'].intercalate [whole, fraction] := by simp
    rw [joined, List.splitOn_intercalate]
    · intro text member
      simp only [List.mem_cons, List.not_mem_nil, or_false] at member
      rcases member with rfl | rfl
      · exact dotless _ first
      · exact dotless _ second
    · simp
  have mixed : (whole ++ '.' :: fraction).all Char.isDigit = false :=
    List.all_eq_false.mpr ⟨'.', by simp, by decide⟩
  have decimal : ((whole ++ '.' :: fraction).all fun c => c.isDigit || c == '.') = true := by
    apply List.all_eq_true.mpr
    intro c member
    rcases List.mem_append.mp member with here | here
    · simp [first c here]
    · rcases List.mem_cons.mp here with rfl | later
      · decide
      · simp [second c later]
  have filled : (whole.isEmpty || fraction.isEmpty) = false := by simp [present, more]
  unfold parseNumericLiteral
  simp only [unsigned, mixed, decimal, parts, head, Option.any_some, digit, String.ofList_toList, back, filled]
  rfl

end Atoms

section Operands

/-- How the text of an operand starts. -/
theorem operand_head {expr : AxExpr F} (wf : WellFormed floatText parseF64 expr) :
    ∃ c rest, operand floatText expr = c :: rest ∧
      (isIdentifierChar c = true ∧ (c.isDigit = true → isNumberText floatText false expr = true) ∨
        c = '"' ∧ isString expr = true ∨
        c = '-' ∧ isNumberText floatText true expr = true ∨ c = '(' ∧ isAtom expr = false) := by
  cases expr with
  | string value => exact ⟨'"', _, rfl, .inr (.inl ⟨rfl, rfl⟩)⟩
  | number value =>
    obtain ⟨digits, present, all, shape⟩ := number_shape value
    by_cases sign : value.toInt < 0
    · rw [if_pos sign] at shape
      exact ⟨'-', digits, shape, .inr (.inr (.inl ⟨rfl, by simp [isNumberText, sign]⟩))⟩
    · rw [if_neg sign] at shape
      obtain ⟨d, rest, rfl⟩ := List.exists_cons_of_ne_nil present
      exact ⟨d, rest, shape, .inl ⟨identifier_of_digit (all d List.mem_cons_self),
        fun _ => by simp [isNumberText, sign]⟩⟩
  | float value =>
    obtain ⟨negative, whole, fraction, shape, present, _, first, _⟩ := wf.decimal
    cases negative with
    | true => exact ⟨'-', _, shape, .inr (.inr (.inl ⟨rfl, by simp [isNumberText, shape]⟩))⟩
    | false =>
      obtain ⟨d, rest, rfl⟩ := List.exists_cons_of_ne_nil present
      have digit := first d List.mem_cons_self
      have plain : d ≠ '-' := by
        rintro rfl
        exact absurd digit (by decide)
      exact ⟨d, _, shape, .inl ⟨identifier_of_digit digit, fun _ => by simp [isNumberText, shape, plain]⟩⟩
  | bool value =>
    cases value <;> exact ⟨_, _, rfl, .inl ⟨by decide, fun digit => absurd digit (by decide)⟩⟩
  | identifier name =>
    obtain ⟨first, rest, shape, legal, letter⟩ := name_head wf.1
    exact ⟨first, rest, shape, .inl ⟨legal, fun digit => by simp [letter] at digit⟩⟩
  | _ => exact ⟨'(', _, rfl, .inr (.inr (.inr ⟨rfl, rfl⟩))⟩

theorem firm_operand {expr : AxExpr F} (wf : WellFormed floatText parseF64 expr) :
    Firm (operand floatText expr) := by
  cases expr with
  | string value => exact firm_quoted value
  | number value => exact firm_number value
  | float value =>
    have chars := float_chars wf
    obtain ⟨_, whole, fraction, shape, _⟩ := wf.decimal
    apply firm_solid
    · change (floatText value).toList ≠ []
      simp [shape]
    · intro c member
      rcases chars c member with digit | rfl | rfl
      · exact identifier_solid (identifier_of_digit digit)
      · rfl
      · rfl
  | bool value =>
    exact firm_solid (show (toString value).toList ≠ [] by cases value <;> decide) fun c member => identifier_solid (bool_chars value c member)
  | identifier name => exact firm_name wf.1
  | _ => exact firm_enclose _

theorem firm_dotted {path : List String} (present : path ≠ [])
    (valid : ∀ name ∈ path, isValidObjectKey name.toList = true) : Firm (dotted path) := by
  apply firm_solid
  · obtain ⟨name, rest, rfl⟩ := List.exists_cons_of_ne_nil present
    have first := (name_chars (valid name List.mem_cons_self)).1
    cases rest with
    | nil => exact first
    | cons next rest => simp [dotted, join, first]
  · intro c member
    rcases dotted_chars valid c member with legal | rfl
    · exact identifier_solid legal
    · rfl

theorem firm_print {expr : AxExpr F} (wf : WellFormed floatText parseF64 expr) :
    Firm (print floatText expr) := by
  cases expr with
  | list items => exact firm_wrapped _ (by decide) (by decide)
  | object fields => exact firm_wrapped _ (by decide) (by decide)
  | unary op expr =>
    have sign : Firm [opSign op] := firm_single (by cases op <;> decide)
    have inner : WellFormed floatText parseF64 expr := wf
    exact sign.around (firm_operand inner) []
  | binary op left right =>
    have whole := (firm_operand wf.1).around (firm_operand wf.2) (' ' :: (opToken op ++ [' ']))
    simpa [operand, print] using whole
  | index object index =>
    have whole := (firm_operand wf.1).around (@firm_single ']' (by decide)) ('[' :: print floatText index)
    simpa [operand, print] using whole
  | member object property => exact (firm_operand wf.1).around (firm_name wf.2) ['.']
  | optionalMember object property => exact (firm_operand wf.1).around (firm_name wf.2) ['?', '.']
  | call path args => exact (firm_dotted wf.1 wf.2.1).around (firm_enclose _) []
  | _ => exact firm_operand wf

/-- A bracket that closes before the end wraps nothing. -/
theorem operand_bare {expr : AxExpr F} (wf : WellFormed floatText parseF64 expr) {more : List Char}
    (present : more ≠ []) (head : (operand floatText expr ++ more).head? = some '(') :
    outerParensWrap (operand floatText expr ++ more) = false := by
  obtain ⟨c, rest, shape, kinds⟩ := operand_head wf
  have round : c = '(' := by
    rw [shape] at head
    exact Option.some.inj head
  have compound : ¬isAtom expr = true := by
    subst round
    rcases kinds with ⟨legal, _⟩ | ⟨other, _⟩ | ⟨other, _⟩ | ⟨_, compound⟩
    · exact absurd legal (by decide)
    · exact absurd other (by decide)
    · exact absurd other (by decide)
    · simp [compound]
  have pair : (escapeAware ['('] [')']).Pair '(' ')' := by constructor <;> decide
  have wraps := wraps_group (level_print tame_parens expr wf) pair more
  rw [outerParensWrap, operand, if_neg compound, enclose]
  simp only [List.cons_append, List.append_assoc, List.nil_append]
  rw [wraps, List.isEmpty_eq_false_iff.mpr present]
  rfl

/-- What is printed is in no brackets of its own. -/
theorem print_bare {expr : AxExpr F} (wf : WellFormed floatText parseF64 expr)
    (head : (print floatText expr).head? = some '(') : outerParensWrap (print floatText expr) = false := by
  have atom (same : print floatText expr = operand floatText expr) (leaf : isAtom expr = true) :
      outerParensWrap (print floatText expr) = false := by
    obtain ⟨c, rest, shape, kinds⟩ := operand_head wf
    rw [same, shape] at head
    obtain rfl : c = '(' := Option.some.inj head
    rcases kinds with ⟨legal, _⟩ | ⟨other, _⟩ | ⟨other, _⟩ | ⟨_, compound⟩
    · exact absurd legal (by decide)
    · exact absurd other (by decide)
    · exact absurd other (by decide)
    · simp [leaf] at compound
  cases expr with
  | list items => cases head
  | object fields => cases head
  | unary op expr => cases op <;> cases head
  | binary op left right => exact operand_bare wf.1 (List.cons_ne_nil _ _) head
  | index object index => exact operand_bare wf.1 (List.cons_ne_nil _ _) head
  | member object property => exact operand_bare wf.1 (List.cons_ne_nil _ _) head
  | optionalMember object property => exact operand_bare wf.1 (List.cons_ne_nil _ _) head
  | call path args =>
    obtain ⟨c, rest, shape, _⟩ := (firm_dotted wf.1 wf.2.1).head
    rw [print, shape] at head
    obtain rfl : c = '(' := Option.some.inj head
    rcases dotted_chars wf.2.1 '(' (by simp [shape]) with legal | other
    · exact absurd legal (by decide)
    · exact absurd other (by decide)
  | string value => exact atom rfl rfl
  | number value => exact atom rfl rfl
  | float value => exact atom rfl rfl
  | bool value => exact atom rfl rfl
  | identifier name => exact atom rfl rfl

theorem candidates_operand {expr : AxExpr F} (wf : WellFormed floatText parseF64 expr) :
    candidates (operand floatText expr) = [] := by
  rw [candidates_eq, found_operand wf rfl rfl]
  rfl

/-- A text in parentheses is read as what stands in them. -/
theorem primary_enclose {expr : AxExpr F} (wf : WellFormed floatText parseF64 expr) :
    (parsePrimaryExpr parseF64 line (enclose (print floatText expr)) : Parsed (AxExpr F)) =
      parseBinaryExpr parseF64 line (print floatText expr) 0 := by
  have firm := firm_print wf
  have pair : (escapeAware ['('] [')']).Pair '(' ')' := by constructor <;> decide
  have wraps : outerParensWrap (enclose (print floatText expr)) = true := by
    rw [outerParensWrap, enclose, wraps_group (level_print tame_parens expr wf) pair]
    rfl
  have inner : trimWrappingParens (enclose (print floatText expr)) = print floatText expr := by
    rw [trimWrappingParens, (firm_enclose _).trim]
    have shape : (enclose (print floatText expr)).length = (print floatText expr).length + 1 + 1 := by
      simp [enclose]
    rw [shape, trimWrappingParensFrom, if_pos ⟨rfl, last_wrapped _ _ _, wraps⟩]
    have body : (enclose (print floatText expr)).tail.dropLast = print floatText expr := by simp [enclose]
    rw [body, firm.trim, not_wrapped_from (print_bare wf)]
  have different : print floatText expr ≠ enclose (print floatText expr) := by
    intro same
    have lengths := congrArg List.length same
    simp only [enclose, List.length_cons, List.length_append] at lengths
    omega
  rw [parsePrimaryExpr_eq, (firm_enclose _).trim, inner, if_pos different]

/-- A compound operand passes through the signs. -/
theorem unary_enclose {expr : AxExpr F} (wf : WellFormed floatText parseF64 expr) :
    (parseUnaryExpr parseF64 line (enclose (print floatText expr)) : Parsed (AxExpr F)) =
      parseBinaryExpr parseF64 line (print floatText expr) 0 := by
  have number : (parseNumericLiteral parseF64 (enclose (print floatText expr)) line :
      Option (Parsed (AxExpr F))) = none := numeric_none List.mem_cons_self (by decide)
  rw [unary_primary (firm_enclose _) (by simp [enclose]) number, primary_enclose wf]

/-- An operand is read the same after a sign and on either side of an operator. -/
theorem unary_operand {expr : AxExpr F} (wf : WellFormed floatText parseF64 expr) :
    (parseUnaryExpr parseF64 line (operand floatText expr) : Parsed (AxExpr F)) =
      parseBinaryExpr parseF64 line (print floatText expr) 0 := by
  by_cases atom : isAtom expr = true
  · have none := candidates_operand wf
    rw [operand, if_pos atom] at none ⊢
    rw [binary_unary none]
  · rw [operand, if_neg atom, unary_enclose wf]

theorem binary_operand {expr : AxExpr F} (wf : WellFormed floatText parseF64 expr) (minPrecedence : Nat) :
    (parseBinaryExpr parseF64 line (operand floatText expr) minPrecedence : Parsed (AxExpr F)) =
      parseBinaryExpr parseF64 line (print floatText expr) 0 := by
  rw [binary_unary (candidates_operand wf), unary_operand wf]

/-- An operand before an index or a member is read the same but for signs and decimals. -/
theorem primary_operand {expr : AxExpr F} (wf : WellFormed floatText parseF64 expr)
    (unsigned : isNumberText floatText true expr = false) (whole : isFloat expr = false) :
    (parsePrimaryExpr parseF64 line (operand floatText expr) : Parsed (AxExpr F)) =
      parseBinaryExpr parseF64 line (print floatText expr) 0 := by
  rw [← unary_operand wf]
  have plain (c : Char) (rest : List Char) (shape : operand floatText expr = c :: rest)
      (kind : isIdentifierChar c = true ∨ c = '"') (number : (parseNumericLiteral parseF64
        (operand floatText expr) line : Option (Parsed (AxExpr F))) = none) :
      (parsePrimaryExpr parseF64 line (operand floatText expr) : Parsed (AxExpr F)) =
        parseUnaryExpr parseF64 line (operand floatText expr) := by
    apply (unary_primary (firm_operand wf) _ number).symm
    rw [shape]
    constructor <;>
      · intro head
        obtain rfl := Option.some.inj head
        rcases kind with legal | other
        · exact absurd legal (by decide)
        · exact absurd other (by decide)
  cases expr with
  | string value => exact plain '"' _ rfl (.inr rfl) (numeric_none List.mem_cons_self (by decide))
  | number value =>
    have positive : ¬value.toInt < 0 := by simpa [isNumberText] using unsigned
    have literal : (parseNumericLiteral parseF64 (toString value).toList line :
        Option (Parsed (AxExpr F))) = some (.ok (.number value)) := number_literal value
    change parsePrimaryExpr parseF64 line (toString value).toList =
      parseUnaryExpr parseF64 line (toString value).toList
    rw [parsePrimary_number positive, parseUnaryExpr_eq, (firm_number value).trim, literal]
  | float value => cases whole
  | bool value =>
    have first : ∃ c rest, (toString value).toList = c :: rest ∧ isIdentifierChar c = true ∧
        c.isDigit = false := by cases value <;> exact ⟨_, _, rfl, by decide, by decide⟩
    obtain ⟨c, rest, shape, legal, letter⟩ := first
    refine plain c rest shape (.inl legal) (numeric_none ?_ ⟨letter, identifier_ne legal (by decide),
      identifier_ne legal (by decide)⟩)
    change c ∈ (toString value).toList
    simp [shape]
  | identifier name =>
    obtain ⟨c, rest, shape, legal, letter⟩ := name_head wf.1
    refine plain c rest shape (.inl legal) (numeric_none ?_ ⟨letter, identifier_ne legal (by decide),
      identifier_ne legal (by decide)⟩)
    change c ∈ name.toList
    simp [shape]
  | _ => exact (primary_enclose wf).trans (unary_enclose wf).symm

end Operands


section Search

theorem left_none : operatorHasLeftOperand [] = false := rfl

theorem candidates_not {expr : AxExpr F} (wf : WellFormed floatText parseF64 expr) :
    candidates (print floatText (.unary .not expr)) =
      if isName "in" expr then [⟨['!'], wordOperator, .in⟩]
      else if isNumberText floatText true expr then [⟨['!'], operand floatText expr, .sub⟩] else [] := by
  have sign : Level nestingRules ['!'] := level_plain (by decide)
  change candidates (['!'] ++ operand floatText expr) = _
  rw [candidates_eq, found_append sign, found_plain (by decide), candidate_first,
    found_operand wf (by rfl) (by rfl), if_pos (by rfl)]
  simp only [List.append_nil]
  rfl

theorem candidates_neg {expr : AxExpr F} (wf : WellFormed floatText parseF64 expr) :
    candidates (print floatText (.unary .neg expr)) = [] := by
  change candidates (['-'] ++ operand floatText expr) = _
  rw [candidates_eq, found_append level_sign, found_plain (by decide), candidate_first,
    found_operand wf (by rfl) (by rfl), if_neg (show ¬operatorHasLeftOperand (['-'].reverse ++ []) = true by decide)]
  rfl

/-- A blank, the token of an operator and a blank show that operator alone. -/
theorem found_token {c : Char} (op : AxBinaryOp) (before after : List Char) (solid : isWhitespace c = false)
    (operand : c ∉ ['(', '[', '{', ',', '+', '-', '*', '/', '%']) :
    found (' ' :: c :: before) (opToken op) (' ' :: after) =
      [⟨' ' :: c :: before, opToken op ++ ' ' :: after, op⟩] := by
  have left : operatorHasLeftOperand (' ' :: c :: before) = true := by
    have first : (' ' :: c :: before).find? (fun d => !isWhitespace d) = some c := by
      rw [List.find?_cons_of_neg (by decide), List.find?_cons_of_pos (by simp [solid])]
    rw [operatorHasLeftOperand, first]
    simpa using operand
  have token : candidateAt (' ' :: c :: before, opToken op ++ ' ' :: after) =
      some ⟨' ' :: c :: before, opToken op ++ ' ' :: after, op⟩ := by
    have here : binaryOpAt (' ' :: c :: before) (opToken op ++ ' ' :: after) = some op := by
      cases op <;> rfl
    rw [candidateAt, here, left]
    rfl
  have single (sign : Char) (plain : nestingRules.plain sign = true) (shape : opToken op = [sign]) :
      found (' ' :: c :: before) (opToken op) (' ' :: after) =
        [⟨' ' :: c :: before, opToken op ++ ' ' :: after, op⟩] := by
    rw [shape] at token ⊢
    rw [found_plain plain]
    change (candidateAt (' ' :: c :: before, [sign] ++ ' ' :: after)).toList = _
    rw [token]
    rfl
  have double (first second : Char) (plain : nestingRules.plain first = true ∧ nestingRules.plain second = true)
      (shape : opToken op = [first, second])
      (rest : candidateAt (first :: ' ' :: c :: before, second :: ' ' :: after) = none) :
      found (' ' :: c :: before) (opToken op) (' ' :: after) =
        [⟨' ' :: c :: before, opToken op ++ ' ' :: after, op⟩] := by
    have level : Level nestingRules [first] := level_plain (by simp [plain.1])
    rw [shape] at token ⊢
    change found _ ([first] ++ [second]) _ = _
    rw [found_append level, found_plain plain.1, found_plain plain.2]
    change (candidateAt (' ' :: c :: before, [first, second] ++ ' ' :: after)).toList ++
      (candidateAt (first :: ' ' :: c :: before, second :: ' ' :: after)).toList = _
    rw [token, rest]
    rfl
  cases op with
  | add => exact single '+' (by decide) rfl
  | sub => exact single '-' (by decide) rfl
  | mul => exact single '*' (by decide) rfl
  | div => exact single '/' (by decide) rfl
  | rem => exact single '%' (by decide) rfl
  | gt => exact single '>' (by decide) rfl
  | lt => exact single '<' (by decide) rfl
  | eq => exact double '=' '=' (by decide) rfl rfl
  | ne => exact double '!' '=' (by decide) rfl rfl
  | ge => exact double '>' '=' (by decide) rfl rfl
  | le => exact double '<' '=' (by decide) rfl rfl
  | «in» => exact double 'i' 'n' (by decide) rfl rfl
  | and => exact double '&' '&' (by decide) rfl rfl
  | or => exact double '|' '|' (by decide) rfl rfl
  | fallback => exact double '?' '?' (by decide) rfl rfl

/-- How the text of an operand ends. -/
theorem operand_last {expr : AxExpr F} (wf : WellFormed floatText parseF64 expr) :
    ∃ c rest, (operand floatText expr).reverse = c :: rest ∧ isWhitespace c = false ∧
      c ∉ ['(', '[', '{', ',', '+', '-', '*', '/', '%'] := by
  have legal (text : List Char) (present : text ≠ []) (chars : ∀ c ∈ text, isIdentifierChar c = true) :
      ∃ c rest, text.reverse = c :: rest ∧ isWhitespace c = false ∧
        c ∉ ['(', '[', '{', ',', '+', '-', '*', '/', '%'] := by
    have last := chars _ (List.getLast_mem present)
    refine ⟨text.getLast present, text.dropLast.reverse, ?_, identifier_solid last,
      identifier_not_mem last (by decide)⟩
    rw [← List.reverse_concat, List.dropLast_append_getLast]
  have behind (front text : List Char) (shape : ∃ c rest, text.reverse = c :: rest ∧ isWhitespace c = false ∧
      c ∉ ['(', '[', '{', ',', '+', '-', '*', '/', '%']) :
      ∃ c rest, (front ++ text).reverse = c :: rest ∧ isWhitespace c = false ∧
        c ∉ ['(', '[', '{', ',', '+', '-', '*', '/', '%'] := by
    obtain ⟨c, rest, shape, facts⟩ := shape
    exact ⟨c, rest ++ front.reverse, by rw [List.reverse_append, shape]; rfl, facts⟩
  cases expr with
  | string value =>
    exact behind ('"' :: value.toList.flatMap escapeChar) ['"'] ⟨'"', [], rfl, by decide, by decide⟩
  | number value =>
    obtain ⟨digits, present, all, shape⟩ := number_shape value
    change ∃ c rest, (toString value).toList.reverse = c :: rest ∧ _
    rw [shape]
    exact behind _ _ (legal digits present fun c member => identifier_of_digit (all c member))
  | float value =>
    obtain ⟨negative, whole, fraction, shape, _, present, _, second⟩ := wf.decimal
    change ∃ c rest, (floatText value).toList.reverse = c :: rest ∧ _
    rw [shape, List.append_cons]
    exact behind _ _ (legal fraction present fun c member => identifier_of_digit (second c member))
  | bool value =>
    exact legal _ (show (toString value).toList ≠ [] by cases value <;> decide) (bool_chars value)
  | identifier name => exact legal _ (name_chars wf.1).1 (name_chars wf.1).2
  | _ => exact behind ('(' :: print floatText _) [')'] ⟨')', [], rfl, by decide, by decide⟩

/-- The operator of the form, and what the right operand adds. -/
theorem candidates_binary {op : AxBinaryOp} {left right : AxExpr F}
    (wf : WellFormed floatText parseF64 (.binary op left right)) :
    ∃ before extra, candidates (print floatText (.binary op left right)) =
        ⟨' ' :: (operand floatText left).reverse, opToken op ++ ' ' :: operand floatText right, op⟩ :: extra ∧
      extra = if binaryPrecedence op ≤ 5 then
          if isName "in" right then [⟨before, wordOperator, .in⟩]
          else if isNumberText floatText true right then [⟨before, operand floatText right, .sub⟩] else []
        else [] := by
  obtain ⟨c, rest, shape, solid, operandEnd⟩ := operand_last wf.1
  have blank : Level nestingRules [' '] := level_plain (by decide)
  have space (before after : List Char) : found before [' '] after = [] := by
    rw [found_plain (by decide), candidate_free (by decide) (by decide)]
    rfl
  refine ⟨' ' :: ((opToken op).reverse ++ ' ' :: c :: rest), _, ?_, rfl⟩
  have text : print floatText (.binary op left right) = operand floatText left ++
      ([' '] ++ (opToken op ++ ([' '] ++ operand floatText right))) := rfl
  rw [candidates_eq, text, found_append (level_operand tame_nesting wf.1), found_operand wf.1 rfl rfl,
    found_append blank, space, found_append (opToken_plain tame_nesting op), found_append blank, space, shape]
  simp only [List.append_nil, List.reverse_singleton, List.singleton_append]
  rw [found_token op rest _ solid operandEnd, found_operand wf.2 (by rfl) rfl]
  have left : operatorHasLeftOperand (' ' :: ((opToken op).reverse ++ ' ' :: c :: rest)) =
      decide (binaryPrecedence op ≤ 5) := by cases op <;> rfl
  rw [left]
  simp only [decide_eq_true_eq, List.append_nil]
  rfl

end Search

section Operators

theorem foldl_lower_some (list : List Candidate) (first : Candidate) :
    ∃ chosen, list.foldl (lower 0) (some first) = some chosen := by
  induction list generalizing first with
  | nil => exact ⟨first, rfl⟩
  | cons next rest ih =>
    rw [List.foldl_cons, lower, if_neg (Nat.not_lt_zero _)]
    split
    · exact ih next
    · exact ih first

/-- Where the search meets an operator, the text is an operation or wrong. -/
theorem binary_of_candidates {text : List Char} {expr : AxExpr F} (some : candidates text ≠ [])
    (read : parseBinaryExpr parseF64 line text 0 = .ok expr) : ∃ op left right, expr = .binary op left right := by
  obtain ⟨first, rest, shape⟩ := List.exists_cons_of_ne_nil some
  have start : lower 0 none first = Option.some first := by simp [lower]
  obtain ⟨chosen, here⟩ := foldl_lower_some rest first
  rw [parseBinaryExpr_eq, findLowestPrecedenceOperator, shape, List.foldl_cons, start, here] at read
  dsimp only at read
  split at read
  · cases read
  · obtain ⟨left, _, next⟩ := Outcome.bind_ok.mp read
    obtain ⟨right, _, last⟩ := Outcome.bind_ok.mp next
    exact ⟨chosen.op, left, right, (Except.ok.inj last).symm⟩

theorem numeric_form {text : List Char} {number : Parsed (AxExpr F)} {expr : AxExpr F}
    (literal : parseNumericLiteral parseF64 text line = some number) (read : number = .ok expr) :
    ∀ op inner, expr ≠ .unary op inner := by
  rintro op inner rfl
  subst read
  unfold parseNumericLiteral at literal
  dsimp only at literal
  generalize (if text.head? = some '-' then text.tail else text) = unsigned at literal
  split at literal
  · cases literal
  · split at literal
    · have same := Option.some.inj literal
      split at same <;> cases same
    · split at literal
      · split at literal
        · split at literal
          · cases Option.some.inj literal
          · split at literal <;> cases Option.some.inj literal
        · cases Option.some.inj literal
      · cases literal

theorem numeric_some {text : List Char} {c : Char} (head : text.head? = some c) (digit : c.isDigit = true)
    (all : ∀ d ∈ text, d.isDigit = true ∨ d = '.') :
    ∃ number : Parsed (AxExpr F), parseNumericLiteral parseF64 ('-' :: text) line = some number := by
  have decimal : (text.all fun d => d.isDigit || d == '.') = true := by
    apply List.all_eq_true.mpr
    intro d member
    rcases all d member with legal | rfl
    · simp [legal]
    · rfl
  simp only [parseNumericLiteral, List.head?_cons, if_true, List.tail_cons, head, Option.any_some, digit,
    decimal]
  split
  · contradiction
  · split
    · exact ⟨_, rfl⟩
    · split
      · split
        · exact ⟨_, rfl⟩
        · split <;> exact ⟨_, rfl⟩
      · exact ⟨_, rfl⟩

theorem read_not {expr : AxExpr F} (wf : WellFormed floatText parseF64 expr) :
    parseBinaryExpr parseF64 line (print floatText (.unary .not expr)) 0 = .ok (.unary .not expr) ↔
      parseBinaryExpr parseF64 line (print floatText expr) 0 = .ok expr ∧ isName "in" expr = false ∧
        isNumberText floatText true expr = false := by
  have search := candidates_not wf
  have firm : Firm (print floatText (.unary .not expr)) := firm_print wf
  have text : print floatText (.unary .not expr) = '!' :: operand floatText expr := rfl
  by_cases name : isName "in" expr = true
  · rw [if_pos name] at search
    simp only [name, Bool.true_eq_false, false_and, and_false, iff_false]
    intro read
    obtain ⟨_, _, _, impossible⟩ := binary_of_candidates (by simp [search]) read
    cases impossible
  · rw [if_neg name] at search
    by_cases number : isNumberText floatText true expr = true
    · rw [if_pos number] at search
      simp only [number, Bool.true_eq_false, and_false, iff_false]
      intro read
      obtain ⟨_, _, _, impossible⟩ := binary_of_candidates (by simp [search]) read
      cases impossible
    · rw [if_neg number] at search
      have literal : (parseNumericLiteral parseF64 (print floatText (.unary .not expr)) line :
          Option (Parsed (AxExpr F))) = none := numeric_none List.mem_cons_self (by decide)
      have rest : trimChars (print floatText (.unary .not expr)).tail = operand floatText expr :=
        (firm_operand wf).trim
      have noSign : (operand floatText expr).head? ≠ some '=' := by
        obtain ⟨c, more, shape, kinds⟩ := operand_head wf
        rw [shape]
        intro same
        obtain rfl := Option.some.inj same
        rcases kinds with ⟨legal, _⟩ | ⟨other, _⟩ | ⟨other, _⟩ | ⟨other, _⟩
        · exact absurd legal (by decide)
        all_goals exact absurd other (by decide)
      rw [binary_unary search, parseUnaryExpr_eq, firm.trim, literal]
      simp only [rest, (firm_operand wf).isEmpty, noSign, unary_operand wf]
      simp [name, number, text, Outcome.map_ok]

theorem read_neg {expr : AxExpr F} (wf : WellFormed floatText parseF64 expr) :
    parseBinaryExpr parseF64 line (print floatText (.unary .neg expr)) 0 = .ok (.unary .neg expr) ↔
      parseBinaryExpr parseF64 line (print floatText expr) 0 = .ok expr ∧
        isNumberText floatText false expr = false := by
  have firm : Firm (print floatText (.unary .neg expr)) := firm_print wf
  have text : print floatText (.unary .neg expr) = '-' :: operand floatText expr := rfl
  rw [binary_unary (candidates_neg wf), parseUnaryExpr_eq, firm.trim]
  by_cases number : isNumberText floatText false expr = true
  · have literal : ∃ parsed : Parsed (AxExpr F),
        parseNumericLiteral parseF64 (print floatText (.unary .neg expr)) line = some parsed := by
      rw [text]
      cases expr with
      | number value =>
        obtain ⟨digits, present, all, shape⟩ := number_shape value
        have positive : ¬value.toInt < 0 := by simpa [isNumberText] using number
        rw [if_neg positive] at shape
        obtain ⟨d, rest, rfl⟩ := List.exists_cons_of_ne_nil present
        change ∃ parsed, parseNumericLiteral parseF64 ('-' :: (toString value).toList) line = some parsed
        rw [shape]
        exact numeric_some rfl (all d List.mem_cons_self) fun c member => .inl (all c member)
      | float value =>
        obtain ⟨negative, whole, fraction, shape, present, _, first, second⟩ := wf.decimal
        change ∃ parsed, parseNumericLiteral parseF64 ('-' :: (floatText value).toList) line = some parsed
        cases negative with
        | true => simp [isNumberText, shape] at number
        | false =>
          obtain ⟨d, rest, rfl⟩ := List.exists_cons_of_ne_nil present
          rw [shape]
          refine numeric_some rfl (first d List.mem_cons_self) fun c member => ?_
          rcases List.mem_append.mp member with here | here
          · exact .inl (first c here)
          · rcases List.mem_cons.mp here with rfl | later
            · exact .inr rfl
            · exact .inl (second c later)
      | _ => cases number
    obtain ⟨parsed, literal⟩ := literal
    rw [literal]
    simp only [number, Bool.true_eq_false, and_false, iff_false]
    exact fun read => numeric_form literal read _ _ rfl
  · obtain ⟨c, more, shape, kinds⟩ := operand_head wf
    have other : c.isDigit = false ∧ c ≠ '.' ∧ c ≠ '+' := by
      rcases kinds with ⟨legal, digit⟩ | ⟨rfl, _⟩ | ⟨rfl, _⟩ | ⟨rfl, _⟩
      · refine ⟨?_, identifier_ne legal (by decide), identifier_ne legal (by decide)⟩
        by_contra here
        exact number (digit (by simpa using here))
      all_goals decide
    have literal : (parseNumericLiteral parseF64 (print floatText (.unary .neg expr)) line :
        Option (Parsed (AxExpr F))) = none := by
      rw [text, shape]
      exact numeric_none_second other.1
    have integer : parseI64 (print floatText (.unary .neg expr)) = none := by
      rw [text, shape, parseI64]
      simp only [List.head?_cons, Option.some.injEq, if_neg other.2.2,
        parseUnsigned_none List.mem_cons_self ⟨other.1, other.2.2⟩]
      rfl
    have rest : trimChars (print floatText (.unary .neg expr)).tail = operand floatText expr :=
      (firm_operand wf).trim
    have head : (print floatText (.unary .neg expr)).head? = some '-' := rfl
    simp only [literal, integer, rest, (firm_operand wf).isEmpty, unary_operand wf, head]
    simp [number, Outcome.map_ok]

theorem read_binary {op : AxBinaryOp} {left right : AxExpr F}
    (wf : WellFormed floatText parseF64 (.binary op left right)) :
    parseBinaryExpr parseF64 line (print floatText (.binary op left right)) 0 = .ok (.binary op left right) ↔
      parseBinaryExpr parseF64 line (print floatText left) 0 = .ok left ∧
        parseBinaryExpr parseF64 line (print floatText right) 0 = .ok right ∧
          (binaryPrecedence op = 5 → isName "in" right = false) := by
  obtain ⟨before, extra, search, more⟩ := candidates_binary wf
  have start (candidate : Candidate) : lower 0 none candidate = some candidate := by simp [lower]
  by_cases taken : binaryPrecedence op = 5 ∧ isName "in" right = true
  · have last : lower 0 (some ⟨' ' :: (operand floatText left).reverse, opToken op ++ ' ' :: operand floatText right, op⟩)
        ⟨before, wordOperator, .in⟩ = some ⟨before, wordOperator, .in⟩ := by
      have five : binaryPrecedence .in = 5 := rfl
      simp [lower, taken.1, five]
    have wrong : ¬(binaryPrecedence op = 5 → isName "in" right = false) := by simp [taken.1, taken.2]
    rw [more, if_pos (by omega), if_pos taken.2] at search
    rw [parseBinaryExpr_eq, findLowestPrecedenceOperator, search, List.foldl_cons, List.foldl_cons, start, last]
    simp only [wrong, and_false, iff_false]
    intro read
    have none : trimChars (wordOperator.drop (binaryOpLen .in)) = [] := rfl
    rw [List.foldl_nil] at read
    dsimp only at read
    rw [none, List.isEmpty_nil, Bool.or_true, if_pos rfl] at read
    cases read
  · have chosen : findLowestPrecedenceOperator (print floatText (.binary op left right)) 0 =
        some ⟨' ' :: (operand floatText left).reverse, opToken op ++ ' ' :: operand floatText right, op⟩ := by
      rw [findLowestPrecedenceOperator, search, List.foldl_cons, start, more]
      by_cases low : binaryPrecedence op ≤ 5
      · rw [if_pos low]
        by_cases name : isName "in" right = true
        · have below : ¬5 ≤ binaryPrecedence op := fun five => taken ⟨by omega, name⟩
          have five : binaryPrecedence .in = 5 := rfl
          simp [name, lower, five, below]
        · by_cases number : isNumberText floatText true right = true
          · have six : binaryPrecedence .sub = 6 := rfl
            have below : ¬6 ≤ binaryPrecedence op := by omega
            simp [name, number, lower, six, below]
          · simp [name, number]
      · rw [if_neg low]
        rfl
    have leftText : trimChars (' ' :: (operand floatText left).reverse).reverse = operand floatText left := by
      rw [List.reverse_cons, List.reverse_reverse, trim_blank_end (firm_operand wf.1)]
    have rightText : trimChars ((opToken op ++ ' ' :: operand floatText right).drop (binaryOpLen op)) =
        operand floatText right := by
      have length : binaryOpLen op = (opToken op).length := by cases op <;> rfl
      rw [length, List.drop_left, trim_blank_start (firm_operand wf.2)]
    have right_ok : binaryPrecedence op = 5 → isName "in" right = false := fun five => by
      by_contra name
      exact taken ⟨five, by simpa using name⟩
    rw [parseBinaryExpr_eq, chosen]
    simp only [leftText, rightText, (firm_operand wf.1).isEmpty, (firm_operand wf.2).isEmpty, Bool.or_self,
      binary_operand wf.1, binary_operand wf.2]
    constructor
    · intro read
      obtain ⟨a, first, next⟩ := Outcome.bind_ok.mp read
      obtain ⟨b, second, last⟩ := Outcome.bind_ok.mp next
      obtain ⟨_, rfl, rfl⟩ := AxExpr.binary.inj (Except.ok.inj last)
      exact ⟨first, second, right_ok⟩
    · rintro ⟨first, second, _⟩
      rw [first, second]
      rfl

end Operators

end Axonyx.Core.Printer
