import Axonyx.Core.ExprContent

/-! How the names, the literals and the members of what was printed are read back. -/
namespace Axonyx.Core.Printer

open Nesting Text Axonyx.Core.Parser

variable {F : Type} [Float64 F] {floatText : AxFloat F → String} {parseF64 : String → Option F} {line : Nat}

section Atoms

theorem read_atom {expr : AxExpr F} (wf : WellFormed floatText parseF64 expr) (atom : isAtom expr = true) :
    parseBinaryExpr parseF64 line (print floatText expr) 0 = .ok expr := by
  have same := @unary_operand F _ floatText parseF64 line expr wf
  rw [operand, if_pos atom] at same
  rw [← same]
  have firm := firm_print wf
  cases expr with
  | string value =>
    have literal : (parseNumericLiteral parseF64 (quoted value) line : Option (Parsed (AxExpr F))) = none :=
      numeric_none List.mem_cons_self (by decide)
    exact (unary_primary firm (by simp [print, quoted]) literal).trans (parsePrimary_quoted value)
  | number value =>
    rw [parseUnaryExpr_eq, firm.trim]
    simp only [print, number_literal]
  | float value =>
    rw [parseUnaryExpr_eq, firm.trim]
    simp only [print, float_literal wf]
  | bool value =>
    rw [same, ← primary_operand wf rfl rfl]
    exact parsePrimary_bool value
  | identifier name =>
    rw [same, ← primary_operand wf rfl rfl]
    exact parsePrimary_name wf
  | _ => cases atom

end Atoms

section Members

/-- A member, optional or not. -/
def memberForm (optional : Bool) (object : AxExpr F) (property : String) : AxExpr F :=
  if optional then .optionalMember object property else .member object property

def separator (optional : Bool) : List Char := if optional then ['?', '.'] else ['.']

theorem print_memberForm (optional : Bool) (object : AxExpr F) (property : String) :
    print floatText (memberForm optional object property) =
      operand floatText object ++ (separator optional ++ property.toList) := by
  cases optional <;> rfl

theorem level_separator (optional : Bool) : Level nestingRules (separator optional) :=
  level_plain (by cases optional <;> decide)

theorem candidates_member {optional : Bool} {object : AxExpr F} {property : String}
    (wf : WellFormed floatText parseF64 object) (valid : isValidObjectKey property.toList = true) :
    candidates (print floatText (memberForm optional object property)) = [] ↔ property ≠ "in" := by
  have chars := (name_chars valid).2
  have same : property.toList = wordOperator ↔ property = "in" := by rw [wordOperator, String.toList_inj]
  have signs (before : List Char) : found before (separator optional) (property.toList ++ []) = [] := by
    cases optional with
    | false =>
      change found before ['.'] _ = []
      rw [found_plain (by decide), candidate_free (by decide) (by decide)]
      rfl
    | true =>
      have question : Level nestingRules ['?'] := level_plain (by decide)
      change found before (['?'] ++ ['.']) _ = []
      have ask : candidateAt (before, '?' :: '.' :: (property.toList ++ [])) = none := rfl
      rw [found_append question, found_plain (by decide), found_plain (by decide)]
      change (candidateAt (before, '?' :: '.' :: (property.toList ++ []))).toList ++
        (candidateAt ('?' :: before, '.' :: (property.toList ++ []))).toList = []
      rw [ask, candidate_free (by decide) (by decide)]
      rfl
  obtain ⟨before, dotted⟩ : ∃ before, (separator optional).reverse ++ ((operand floatText object).reverse ++ []) =
      '.' :: before := by cases optional <;> exact ⟨_, rfl⟩
  have after : (separator optional ++ property.toList).head?.any isIdentifierChar = false := by
    cases optional <;> rfl
  rw [print_memberForm, candidates_eq, found_append (level_operand tame_nesting wf),
    found_operand wf rfl (by rw [List.append_nil]; exact after), if_neg (by decide), List.nil_append,
    found_append (level_separator optional), signs, List.nil_append, dotted, found_name chars (by rfl) rfl]
  have left : operatorHasLeftOperand ('.' :: before) = true := rfl
  simp only [left, same]
  by_cases word : property = "in" <;> simp [word]

/-- The first place outside strings and brackets that looks so. -/
theorem findTop_append {rules : Rules} {here : List Char → Bool} {a b : List Char} {c : Char} {rest : List Char}
    (level : run rules start a = start) (shape : b = c :: rest) (plain : rules.plain c = true)
    (at_ : here b = true) (before : ∀ place ∈ tops rules start [] a, here (place.2 ++ b) = false) :
    findTop rules here (a ++ b) = some (a, b) := by
  have shown : start.top rules c = true := by simp [State.top, start, plain]
  have first : (tops rules start [] (a ++ b)).find? (fun place => here place.2) = some (a.reverse, b) := by
    rw [tops_append, level, List.find?_append, List.find?_map]
    have none : (tops rules start [] a).find? ((fun place => here place.2) ∘ fun place => (place.1, place.2 ++ b)) =
        Option.none := by
      apply List.find?_eq_none.mpr
      intro place member
      simp [before place member]
    rw [none, shape, tops, shown, if_pos rfl, ← shape, List.append_nil]
    simp [at_]
  rw [findTop, first]
  simp

theorem quiet_places {text : List Char} (off : ∀ d ∈ text, d ≠ '.' ∧ d ≠ '?') (more : List Char) :
    ∀ place ∈ tops nestingRules start [] text,
      ((place.2 ++ more).head? == some '.' || "?.".toList.isPrefixOf (place.2 ++ more)) = false := by
  intro place member
  obtain ⟨whole, d, tail, shape, _⟩ := mem_tops member
  have inside : d ∈ text := by
    rw [List.reverse_nil, List.nil_append] at whole
    rw [← whole, shape]
    simp
  have differs := off d inside
  rw [shape]
  simp [differs.1, List.isPrefixOf, Ne.symm differs.2]

theorem name_quiet {text : List Char} (chars : ∀ d ∈ text, isIdentifierChar d = true) :
    ∀ d ∈ text, d ≠ '.' ∧ d ≠ '?' := fun d member =>
  ⟨identifier_ne (chars d member) (by decide), identifier_ne (chars d member) (by decide)⟩

theorem separator_none {name : List Char} (chars : ∀ c ∈ name, isIdentifierChar c = true) :
    findTopLevelMemberSeparator name = none := by
  rw [findTopLevelMemberSeparator, findTop, Option.map_eq_none_iff]
  apply List.find?_eq_none.mpr
  intro place member
  have quiet := quiet_places (name_quiet chars) [] place member
  rw [List.append_nil] at quiet
  simp only [quiet]
  decide

/-- The places a separator starts at. -/
theorem separator_here (optional : Bool) (rest : List Char) : ∃ c more, separator optional ++ rest = c :: more ∧
    nestingRules.plain c = true ∧ ((separator optional ++ rest).head? == some '.' ||
      "?.".toList.isPrefixOf (separator optional ++ rest)) = true := by
  cases optional
  · exact ⟨'.', rest, rfl, by decide, rfl⟩
  · exact ⟨'?', '.' :: rest, rfl, by decide, rfl⟩

/-- One member is taken off, up to the next separator. -/
theorem members_step {input : List Char} {fuel : Nat} {object : AxExpr F} (optional : Bool) {name rest : List Char}
    (present : name ≠ []) (chars : ∀ c ∈ name, isIdentifierChar c = true)
    (next : findTopLevelMemberSeparator (name ++ rest) = if rest = [] then none else some (name, rest)) :
    parseMembers line input (fuel + 1) object (separator optional ++ (name ++ rest)) =
      parseMembers line input fuel (memberForm optional object (.ofList name)) rest := by
  have firm := firm_solid present fun c member => identifier_solid (chars c member)
  have parts : (findTopLevelMemberSeparator (name ++ rest)).getD (name ++ rest, []) = (name, rest) := by
    rw [next]
    split
    · next last => simp [last]
    · rfl
  have separated : (if "?.".toList.isPrefixOf (separator optional ++ (name ++ rest)) then
      some (true, (separator optional ++ (name ++ rest)).drop 2)
      else if (separator optional ++ (name ++ rest)).head? = some '.' then
        some (false, (separator optional ++ (name ++ rest)).tail)
      else none) = some (optional, name ++ rest) := by cases optional <;> rfl
  obtain ⟨c, more, shape⟩ : ∃ c more, separator optional ++ (name ++ rest) = c :: more := by
    cases optional <;> exact ⟨_, _, rfl⟩
  rw [shape] at separated ⊢
  rw [parseMembers]
  · simp only [separated, parts, firm.trim, firm.isEmpty]
    cases optional <;> rfl
  · exact List.cons_ne_nil c more

theorem wellFormed_member {optional : Bool} {object : AxExpr F} {property : String}
    (wf : WellFormed floatText parseF64 object) (valid : isValidObjectKey property.toList = true) :
    WellFormed floatText parseF64 (memberForm optional object property) := by
  cases optional <;> exact ⟨wf, valid⟩

theorem memberForm_inj {optional : Bool} {a b : AxExpr F} {m n : String}
    (same : memberForm optional a m = memberForm optional b n) : a = b ∧ m = n := by
  cases optional
  · exact AxExpr.member.inj same
  · exact AxExpr.optionalMember.inj same

theorem member_not_binary (optional : Bool) (object : AxExpr F) (property : String) (op : AxBinaryOp)
    (left right : AxExpr F) : memberForm optional object property ≠ .binary op left right := by
  cases optional <;> exact fun same => nomatch same

theorem member_not_unary (optional : Bool) (object : AxExpr F) (property : String) (op : AxUnaryOp)
    (inner : AxExpr F) : memberForm optional object property ≠ .unary op inner := by
  cases optional <;> exact fun same => nomatch same

/-- A text with a dot that ends in a name is taken for a member. -/
theorem forms_member {text : List Char} (head : ∀ c ∈ ['"', '\'', '[', '{'], text.head? ≠ some c)
    (last : ∃ c, text.getLast? = some c ∧ isIdentifierChar c = true) (dot : '.' ∈ text)
    (expr primary : List Char → Parsed (AxExpr F)) :
    parseForms line expr primary text = parseMemberExpr line primary text := by
  obtain ⟨c, final, legal⟩ := last
  have other (d : Char) (off : isIdentifierChar d = false) : text.getLast? ≠ some d := by
    rw [final]
    exact fun same => identifier_ne legal off (Option.some.inj same)
  have isTrue : text ≠ "true".toList := by
    rintro rfl
    exact absurd dot (by decide)
  have isFalse : text ≠ "false".toList := by
    rintro rfl
    exact absurd dot (by decide)
  have brackets : ¬(text.head? = some '[' ∨ text.getLast? = some ']') :=
    not_or.mpr ⟨head '[' (by decide), other ']' (by decide)⟩
  have braces : ¬(text.head? = some '{' ∨ text.getLast? = some '}') :=
    not_or.mpr ⟨head '{' (by decide), other '}' (by decide)⟩
  have dotted : text.contains '.' = true := by rw [List.contains_eq_mem, decide_eq_true dot]
  rw [parseForms, parseQuotedString_none ⟨head '"' (by decide), head '\'' (by decide)⟩]
  change (if text = "true".toList then _ else _) = _
  simp only [if_neg isTrue, if_neg isFalse, parseI64_none dot (by decide), if_neg brackets, if_neg braces,
    if_neg (other ')' (by decide)), dotted, if_true]

/-- The object of a member that is neither a string nor a number with a sign or a point. -/
theorem separator_operand {object : AxExpr F} (wf : WellFormed floatText parseF64 object)
    (plain : isFloat object = false) (optional : Bool) (rest : List Char) :
    findTopLevelMemberSeparator (operand floatText object ++ (separator optional ++ rest)) =
      some (operand floatText object, separator optional ++ rest) := by
  obtain ⟨c, more, shape, plainSign, here⟩ := separator_here optional rest
  apply findTop_append (level_operand tame_nesting wf).run shape plainSign here
  have pair : nestingRules.Pair '(' ')' := by constructor <;> decide
  cases object with
  | string value =>
    intro place member
    rw [show operand floatText (.string value) = quoted value from rfl, (hidden_quoted tame_nesting value).silent] at member
    cases member
  | number value =>
    apply quiet_places
    intro d member
    rcases toString_chars value d member with digit | rfl
    · have legal := identifier_of_digit digit
      exact ⟨identifier_ne legal (by decide), identifier_ne legal (by decide)⟩
    · decide
  | float value => cases plain
  | bool value => exact quiet_places (name_quiet (bool_chars value)) _
  | identifier name => exact quiet_places (name_quiet (name_chars wf.1).2) _
  | _ =>
    intro place member
    rw [show operand floatText _ = enclose (print floatText _) from rfl,
      enclose, (Hidden.group (level_print tame_nesting _ wf) pair).silent] at member
    cases member

/-- The whole part of a decimal is read as an object of its own. -/
theorem separator_decimal {whole fraction rest : List Char} (digits : ∀ c ∈ whole, c.isDigit = true) :
    findTopLevelMemberSeparator (whole ++ '.' :: (fraction ++ rest)) = some (whole, '.' :: (fraction ++ rest)) := by
  apply findTop_append (level_digits digits).run rfl (by decide) rfl
  exact quiet_places (name_quiet fun c member => identifier_of_digit (digits c member)) _

/-- A name up to the next separator. -/
theorem separator_next {name : List Char} (chars : ∀ c ∈ name, isIdentifierChar c = true) (optional : Bool)
    (rest : List Char) : findTopLevelMemberSeparator (name ++ (separator optional ++ rest)) =
      some (name, separator optional ++ rest) := by
  obtain ⟨c, more, shape, plain, here⟩ := separator_here optional rest
  apply findTop_append (level_name tame_nesting chars).run shape plain here
  exact quiet_places (name_quiet chars) _

theorem members_last {input : List Char} {fuel : Nat} {object : AxExpr F} (optional : Bool) {name : List Char}
    (present : name ≠ []) (chars : ∀ c ∈ name, isIdentifierChar c = true) :
    parseMembers line input (fuel + 1) object (separator optional ++ name) =
      .ok (memberForm optional object (.ofList name)) := by
  have next : findTopLevelMemberSeparator (name ++ []) = if ([] : List Char) = [] then none else some (name, []) := by
    rw [List.append_nil, separator_none chars, if_pos rfl]
  have step := @members_step F _ line input fuel object optional name [] present chars next
  rw [List.append_nil] at step
  rw [step]
  cases fuel <;> rfl

/-- The parser reads a member's object as an operand, but a decimal as a member itself. -/
theorem parseMember_form {optional : Bool} {object : AxExpr F} {property : String}
    (wf : WellFormed floatText parseF64 object) (valid : isValidObjectKey property.toList = true)
    (primary : List Char → Parsed (AxExpr F)) :
    (isFloat object = false → parseMemberExpr line primary (print floatText (memberForm optional object property)) =
      (primary (operand floatText object)).map fun object => memberForm optional object property) ∧
    (isFloat object = true → isNumberText floatText true object = false → ∀ expr,
      parseMemberExpr line primary (print floatText (memberForm optional object property)) = .ok expr →
        ∃ inner fraction, expr = memberForm optional (.member inner fraction) property) := by
  have chars := name_chars valid
  have firm := firm_print (@wellFormed_member F _ floatText parseF64 optional object property wf valid)
  have length : (separator optional ++ property.toList).length = (separator optional ++ property.toList).length - 1 + 1 := by
    cases optional <;> rfl
  refine ⟨fun plain => ?_, fun decimal unsigned expr read => ?_⟩
  · unfold parseMemberExpr
    rw [firm.trim]
    simp only [print_memberForm, separator_operand wf plain, (firm_operand wf).trim, (firm_operand wf).isEmpty]
    rw [length]
    simp only [members_last optional chars.1 chars.2, String.ofList_toList]
    cases primary (operand floatText object) <;> rfl
  · cases object with
    | float value =>
      obtain ⟨negative, whole, fraction, shape, present, more, first, second⟩ := wf.decimal
      cases negative with
      | true => simp [isNumberText, shape] at unsigned
      | false =>
        have text : print floatText (memberForm optional (.float value) property) =
            whole ++ '.' :: (fraction ++ (separator optional ++ property.toList)) := by
          rw [print_memberForm]
          change (floatText value).toList ++ _ = _
          rw [shape]
          simp
        have wholeFirm := firm_solid present fun c member => identifier_solid (identifier_of_digit (first c member))
        have digits : ∀ c ∈ fraction, isIdentifierChar c = true := fun c member =>
          identifier_of_digit (second c member)
        have next : findTopLevelMemberSeparator (fraction ++ (separator optional ++ property.toList)) =
            if separator optional ++ property.toList = [] then none
            else some (fraction, separator optional ++ property.toList) := by
          rw [separator_next digits, if_neg (by cases optional <;> exact List.cons_ne_nil _ _)]
        unfold parseMemberExpr at read
        rw [firm.trim, text, separator_decimal first] at read
        simp only [wholeFirm.trim, wholeFirm.isEmpty] at read
        obtain ⟨inner, _, rest⟩ := Outcome.bind_ok.mp read
        have long : ('.' :: (fraction ++ (separator optional ++ property.toList))).length =
            fraction.length + ((separator optional ++ property.toList).length - 1) + 1 + 1 := by
          rw [List.length_cons, List.length_append, length]
          omega
        have step := @members_step F _ line (whole ++ '.' :: (fraction ++ (separator optional ++ property.toList)))
          (fraction.length + ((separator optional ++ property.toList).length - 1) + 1) inner false fraction _ more
          digits next
        rw [long] at rest
        change parseMembers line (whole ++ '.' :: (fraction ++ (separator optional ++ property.toList))) _ inner
          (separator false ++ (fraction ++ (separator optional ++ property.toList))) = _ at rest
        rw [step, members_last optional chars.1 chars.2] at rest
        exact ⟨inner, .ofList fraction, by rw [← Except.ok.inj rest, String.ofList_toList]; rfl⟩
    | _ => cases decimal

/-- A signed number starts with its sign. -/
theorem signed_head {expr : AxExpr F} (signed : isNumberText floatText true expr = true) :
    (operand floatText expr).head? = some '-' := by
  cases expr with
  | number value =>
    obtain ⟨digits, _, _, shape⟩ := number_shape value
    have negative : value.toInt < 0 := by simpa [isNumberText] using signed
    change (toString value).toList.head? = some '-'
    rw [shape, if_pos negative]
    rfl
  | float value =>
    change (floatText value).toList.head? = some '-'
    simpa [isNumberText] using signed
  | _ => cases signed

/-- A text with a character that is no white space stays when it is trimmed. -/
theorem trim_present {text : List Char} {c : Char} (member : c ∈ text) (solid : isWhitespace c = false) :
    (trimChars text).isEmpty = false := by
  apply List.isEmpty_eq_false_iff.mpr
  intro none
  have blank : ∀ d ∈ (trimStart text).reverse, isWhitespace d = true := by
    apply List.dropWhile_eq_nil_iff.mp
    rw [trimChars, trimEnd] at none
    exact List.reverse_eq_nil_iff.mp none
  have left : c ∈ trimStart text := by
    have parts : c ∈ text.takeWhile isWhitespace ∨ c ∈ trimStart text := by
      rw [← List.mem_append, trimStart, List.takeWhile_append_dropWhile]
      exact member
    rcases parts with front | here
    · have white := List.mem_takeWhile_imp front
      simp [solid] at white
    · exact here
  have white := blank c (List.mem_reverse.mpr left)
  simp [solid] at white

/-- Behind a minus there is a number or a negation. -/
theorem read_minus {text : List Char} {expr : AxExpr F} (firm : Firm text) (head : text.head? = some '-')
    (literal : (parseNumericLiteral parseF64 text line : Option (Parsed (AxExpr F))) = none)
    (present : (trimChars text.tail).isEmpty = false)
    (read : parseUnaryExpr parseF64 line text = .ok expr) :
    (∃ value, expr = .number value) ∨ ∃ inner, expr = .unary .neg inner := by
  have sign : text.head? ≠ some '!' := by simp [head]
  rw [parseUnaryExpr_eq, firm.trim, literal] at read
  simp only [if_neg sign, if_pos head, present] at read
  rw [if_neg Bool.false_ne_true] at read
  split at read
  · next value _ => exact .inl ⟨value, (Except.ok.inj read).symm⟩
  · obtain ⟨inner, _, same⟩ := Outcome.map_ok.mp read
    exact .inr ⟨inner, same.symm⟩

/-- A literal that is not closed at the end is wrong. -/
theorem forms_open {text : List Char} (head : text.head? = some '"') (last : text.getLast? ≠ some '"')
    (expr primary : List Char → Parsed (AxExpr F)) (value : AxExpr F) :
    parseForms line expr primary text ≠ .ok value := by
  obtain ⟨rest, rfl⟩ := List.head?_eq_some_iff.mp head
  have unclosed : rest.getLast? ≠ some '"' := by
    cases rest with
    | nil => intro same; cases same
    | cons c rest =>
      rw [List.getLast?_cons_cons] at last
      exact last
  have literal : parseQuotedString ('"' :: rest) line = invalid line "unterminated string literal" := by
    simp [parseQuotedString, unclosed]
  rw [parseForms, literal]
  intro same
  cases same

theorem read_member {optional : Bool} {object : AxExpr F} {property : String}
    (wf : WellFormed floatText parseF64 object) (valid : isValidObjectKey property.toList = true) :
    parseBinaryExpr parseF64 line (print floatText (memberForm optional object property)) 0 =
        .ok (memberForm optional object property) ↔
      parseBinaryExpr parseF64 line (print floatText object) 0 = .ok object ∧ isString object = false ∧
        isNumberText floatText true object = false ∧ isFloat object = false ∧ property ≠ "in" := by
  have whole := @wellFormed_member F _ floatText parseF64 optional object property wf valid
  have firm := firm_print whole
  have search := @candidates_member F _ floatText parseF64 optional object property wf valid
  by_cases word : property = "in"
  · have met := mt search.mp (not_not.mpr word)
    simp only [word, ne_eq, not_true, and_false, iff_false]
    intro read
    obtain ⟨_, _, _, same⟩ := binary_of_candidates (word ▸ met) read
    exact member_not_binary _ _ _ _ _ _ same
  · obtain ⟨c, rest, shape, kinds⟩ := operand_head wf
    obtain ⟨d, more, name, legal, letter⟩ := name_head valid
    have text := @print_memberForm F _ floatText optional object property
    have inside : d ∈ print floatText (memberForm optional object property) := by
      rw [text, name]
      simp
    have dot : '.' ∈ print floatText (memberForm optional object property) := by
      rw [text]
      cases optional <;> simp [separator]
    have head : (print floatText (memberForm optional object property)).head? = some c := by
      rw [text, shape]
      rfl
    have last : ∃ e, (print floatText (memberForm optional object property)).getLast? = some e ∧
        isIdentifierChar e = true := by
      have chars := name_chars valid
      refine ⟨property.toList.getLast chars.1, ?_, chars.2 _ (List.getLast_mem chars.1)⟩
      rw [text, ← List.append_assoc, List.getLast?_append, List.getLast?_eq_some_getLast chars.1]
      rfl
    have literal : (parseNumericLiteral parseF64 (print floatText (memberForm optional object property)) line :
        Option (Parsed (AxExpr F))) = none :=
      numeric_none inside ⟨letter, identifier_ne legal (by decide), identifier_ne legal (by decide)⟩
    rw [binary_unary (search.mpr word)]
    by_cases signed : isNumberText floatText true object = true
    · have minus : (print floatText (memberForm optional object property)).head? = some '-' := by
        rw [head, ← signed_head signed, shape]
        rfl
      have present : d ∈ (print floatText (memberForm optional object property)).tail := by
        rw [text, shape, name]
        simp
      simp only [signed, Bool.true_eq_false, false_and, and_false, iff_false]
      intro read
      rcases read_minus firm minus literal (trim_present present (identifier_solid legal)) read with
        ⟨_, same⟩ | ⟨_, same⟩
      · cases optional <;> cases same
      · exact member_not_unary _ _ _ _ _ same
    · have unsigned : isNumberText floatText true object = false := by simpa using signed
      have sign : c ≠ '!' ∧ c ≠ '-' := by
        rcases kinds with ⟨legal, _⟩ | ⟨rfl, _⟩ | ⟨_, negative⟩ | ⟨rfl, _⟩
        · exact ⟨identifier_ne legal (by decide), identifier_ne legal (by decide)⟩
        · decide
        · simp [unsigned] at negative
        · decide
      have notIndex : (print floatText (memberForm optional object property)).getLast? ≠ some ']' := by
        obtain ⟨e, final, legal⟩ := last
        rw [final]
        exact fun same => identifier_ne legal (by decide) (Option.some.inj same)
      rw [unary_primary firm (by simp [head, sign]) literal,
        primary_forms firm (not_wrapped firm (print_bare whole)) (without_index firm notIndex)]
      by_cases string : isString object = true
      · simp only [string, Bool.true_eq_false, false_and, and_false, iff_false]
        have quote : c = '"' := by
          cases object with
          | string value => exact (List.cons.inj shape).1.symm
          | _ => cases string
        obtain ⟨e, final, legal⟩ := last
        apply forms_open (quote ▸ head)
        rw [final]
        exact fun same => identifier_ne legal (by decide) (Option.some.inj same)
      · have notString : isString object = false := by simpa using string
        have heads : ∀ q ∈ ['"', '\'', '[', '{'],
            (print floatText (memberForm optional object property)).head? ≠ some q := by
          intro q member same
          rw [head] at same
          obtain rfl := Option.some.inj same
          rcases kinds with ⟨legal, _⟩ | ⟨_, quoted⟩ | ⟨rfl, _⟩ | ⟨rfl, _⟩
          · exact identifier_not_mem legal (by decide) member
          · simp [notString] at quoted
          · exact sign.2 rfl
          · exact absurd member (by decide)
        rw [forms_member heads last dot]
        obtain ⟨plain, decimal⟩ := @parseMember_form F _ floatText parseF64 line optional object property wf valid
          (parsePrimaryExpr parseF64 line)
        by_cases float : isFloat object = true
        · simp only [float, Bool.true_eq_false, false_and, and_false, iff_false]
          intro read
          obtain ⟨inner, fraction, same⟩ := decimal float unsigned _ read
          have object_same := (memberForm_inj same).1
          rw [object_same] at float
          cases float
        · have notFloat : isFloat object = false := by simpa using float
          rw [plain notFloat, primary_operand wf unsigned notFloat, Outcome.map_ok]
          simp only [notString, unsigned, notFloat, ne_eq, word, not_false_eq_true, and_true]
          constructor
          · rintro ⟨inner, read, same⟩
            rw [read, (memberForm_inj same).1]
          · exact fun read => ⟨object, read, rfl⟩

end Members

section Indexes

/-- A member expression is a member. -/
theorem parseMembers_form {input cursor : List Char} {fuel : Nat} {object expr : AxExpr F} (present : cursor ≠ [])
    (read : parseMembers line input fuel object cursor = .ok expr) :
    ∃ optional inner property, expr = memberForm optional inner property := by
  induction fuel generalizing object cursor with
  | zero =>
    obtain ⟨c, rest, rfl⟩ := List.exists_cons_of_ne_nil present
    cases read
  | succ fuel ih =>
    obtain ⟨c, rest, rfl⟩ := List.exists_cons_of_ne_nil present
    unfold parseMembers at read
    dsimp only at read
    split at read
    · cases read
    · next optional cursor _ =>
      split at read
      · cases read
      · generalize (findTopLevelMemberSeparator cursor).getD (cursor, []) = parts at read
        by_cases last : parts.2 = []
        · rw [last] at read
          split at read
          · cases fuel <;> exact ⟨true, _, _, (Except.ok.inj read).symm⟩
          · cases fuel <;> exact ⟨false, _, _, (Except.ok.inj read).symm⟩
        · split at read
          · exact ih last read
          · exact ih last read

theorem parseMemberExpr_form {input : List Char} {primary : List Char → Parsed (AxExpr F)} {expr : AxExpr F}
    (read : parseMemberExpr line primary input = .ok expr) :
    ∃ optional inner property, expr = memberForm optional inner property := by
  unfold parseMemberExpr at read
  split at read
  · cases read
  · next first cursor separator =>
    dsimp only at read
    split at read
    · cases read
    · obtain ⟨object, _, rest⟩ := Outcome.bind_ok.mp read
      obtain ⟨_, _, c, more, shape, _⟩ := findTop_split separator
      exact parseMembers_form (by rw [shape]; exact List.cons_ne_nil c more) rest

/-- The last forms are no indexes. -/
theorem forms_not_index {input : List Char} {expr primary : List Char → Parsed (AxExpr F)} {object index : AxExpr F} :
    parseForms line expr primary input ≠ .ok (.index object index) := by
  intro read
  unfold parseForms at read
  obtain ⟨quotedText, first, next⟩ := Outcome.bind_ok.mp read
  cases quotedText with
  | some value => cases next
  | none =>
    dsimp only at next
    split at next
    · cases next
    · split at next
      · cases next
      · split at next
        · cases next
        · split at next
          · unfold parseListExpr at next
            split at next
            · cases next
            · dsimp only at next
              split at next
              · cases next
              · obtain ⟨_, _, last⟩ := Outcome.bind_ok.mp next
                cases last
          · split at next
            · unfold parseObjectExpr at next
              split at next
              · cases next
              · dsimp only at next
                split at next
                · cases next
                · obtain ⟨_, _, last⟩ := Outcome.bind_ok.mp next
                  cases last
            · split at next
              · unfold parseCall at next
                dsimp only at next
                split at next
                · cases next
                · split at next
                  · cases next
                  · obtain ⟨_, _, last⟩ := Outcome.bind_ok.mp next
                    cases last
              · split at next
                · obtain ⟨optional, _, _, same⟩ := parseMemberExpr_form next
                  cases optional <;> cases same
                · cases next

/-- Decimals are read as members where an object is. -/
theorem primary_decimal {value : AxFloat F} (reads : ReadsBack floatText parseF64 value)
    (unsigned : isNumberText floatText true (.float value) = false) :
    parsePrimaryExpr parseF64 line (floatText value).toList ≠ .ok (.float value : AxExpr F) := by
  intro read
  obtain ⟨negative, whole, fraction, shape, present, more, first, second⟩ := reads.decimal
  cases negative with
  | true => simp [isNumberText, shape] at unsigned
  | false =>
    rw [if_neg Bool.false_ne_true, List.nil_append] at shape
    obtain ⟨d, digits, rfl⟩ := List.exists_cons_of_ne_nil present
    have digit := first d List.mem_cons_self
    have legal := identifier_of_digit digit
    have firm := @firm_operand F _ floatText parseF64 (.float value) reads
    change Firm (floatText value).toList at firm
    have head : (floatText value).toList.head? = some d := by rw [shape]; rfl
    have last : ∃ c, (floatText value).toList.getLast? = some c ∧ isIdentifierChar c = true := by
      refine ⟨fraction.getLast more, ?_, identifier_of_digit (second _ (List.getLast_mem more))⟩
      rw [shape, List.append_cons, List.getLast?_append, List.getLast?_eq_some_getLast more]
      rfl
    have bare : (floatText value).toList.head? = some '(' → outerParensWrap (floatText value).toList = false := by
      rw [head]
      exact fun same => absurd (Option.some.inj same) (identifier_ne legal (by decide))
    have notIndex : (floatText value).toList.getLast? ≠ some ']' := by
      obtain ⟨c, final, legal⟩ := last
      rw [final]
      exact fun same => identifier_ne legal (by decide) (Option.some.inj same)
    have heads : ∀ q ∈ ['"', '\'', '[', '{'], (floatText value).toList.head? ≠ some q := by
      intro q member same
      rw [head] at same
      obtain rfl := Option.some.inj same
      exact identifier_not_mem legal (by decide) member
    rw [primary_forms firm (not_wrapped firm bare) (without_index firm notIndex),
      forms_member heads last (by rw [shape]; simp)] at read
    obtain ⟨optional, _, _, same⟩ := parseMemberExpr_form read
    cases optional <;> cases same

theorem candidates_index {object index : AxExpr F} (wf : WellFormed floatText parseF64 (.index object index)) :
    candidates (print floatText (.index object index)) = [] := by
  have pair : nestingRules.Pair '[' ']' := by constructor <;> decide
  have hidden := found_hidden (Hidden.group (level_print tame_nesting index wf.2) pair)
  have text : print floatText (.index object index) =
      operand floatText object ++ '[' :: (print floatText index ++ [']']) := rfl
  rw [candidates_eq, text, found_append (level_operand tame_nesting wf.1), found_operand wf.1 rfl rfl, hidden]
  rfl

/-- The cut from the end finds the object and the index where the index is retraceable. -/
theorem splitTrailingIndex_print {object index : AxExpr F}
    (wf : WellFormed floatText parseF64 (.index object index)) (retraceable : Retraceable (print floatText index)) :
    splitTrailingIndex line (print floatText (.index object index)) =
      .ok (some (operand floatText object, print floatText index)) := by
  have text : print floatText (.index object index) =
      operand floatText object ++ '[' :: (print floatText index ++ [']']) := rfl
  have firm := firm_print wf
  have last : (print floatText (.index object index)).getLast? = some ']' := by
    rw [text, ← List.cons_append, ← List.append_assoc, List.getLast?_concat]
  have head : (print floatText (.index object index)).head? ≠ some '[' := by
    obtain ⟨c, rest, shape, kinds⟩ := operand_head wf.1
    rw [text, shape]
    intro same
    obtain rfl : c = '[' := Option.some.inj same
    rcases kinds with ⟨legal, _⟩ | ⟨other, _⟩ | ⟨other, _⟩ | ⟨other, _⟩
    · exact absurd legal (by decide)
    all_goals exact absurd other (by decide)
  have pair : (escapeAware [']'] ['[']).Pair ']' '[' := by constructor <;> decide
  have turned : (print floatText (.index object index)).reverse =
      ']' :: ((print floatText index).reverse ++ '[' :: (operand floatText object).reverse) := by
    rw [text]
    simp
  have found := cut_level retraceable pair (operand floatText object).reverse
  unfold splitTrailingIndex
  dsimp only
  rw [firm.trim, if_neg (not_not.mpr last), if_neg fun both => head both.1, turned, found]
  dsimp only
  rw [List.reverse_reverse, List.reverse_reverse, List.dropLast_concat, (firm_operand wf.1).trim,
    (firm_print wf.2).trim, (firm_operand wf.1).isEmpty, (firm_print wf.2).isEmpty]
  rfl

theorem read_index {object index : AxExpr F} (wf : WellFormed floatText parseF64 (.index object index)) :
    parseBinaryExpr parseF64 line (print floatText (.index object index)) 0 = .ok (.index object index) ↔
      parseBinaryExpr parseF64 line (print floatText object) 0 = .ok object ∧
        parseExpr parseF64 line (print floatText index) = .ok index ∧
          isNumberText floatText true object = false ∧ isFloat object = false ∧
            Retraceable (print floatText index) := by
  obtain ⟨c, rest, shape, kinds⟩ := operand_head wf.1
  have text : print floatText (.index object index) =
      operand floatText object ++ '[' :: (print floatText index ++ [']']) := rfl
  have firm := firm_print wf
  have head : (print floatText (.index object index)).head? = some c := by
    rw [text, shape]
    rfl
  have literal : (parseNumericLiteral parseF64 (print floatText (.index object index)) line :
      Option (Parsed (AxExpr F))) = none :=
    numeric_none (c := ']') (by rw [text]; simp) (by decide)
  rw [binary_unary (candidates_index wf)]
  by_cases signed : isNumberText floatText true object = true
  · have minus : (print floatText (.index object index)).head? = some '-' := by
      rw [head, ← signed_head signed, shape]
      rfl
    have present : ']' ∈ (print floatText (.index object index)).tail := by
      rw [text, shape]
      simp
    simp only [signed, Bool.true_eq_false, false_and, and_false, iff_false]
    intro read
    rcases read_minus firm minus literal (trim_present present (by decide)) read with ⟨_, same⟩ | ⟨_, same⟩
    · cases same
    · cases same
  · have unsigned : isNumberText floatText true object = false := by simpa using signed
    have sign : c ≠ '!' ∧ c ≠ '-' := by
      rcases kinds with ⟨legal, _⟩ | ⟨rfl, _⟩ | ⟨_, negative⟩ | ⟨rfl, _⟩
      · exact ⟨identifier_ne legal (by decide), identifier_ne legal (by decide)⟩
      · decide
      · simp [unsigned] at negative
      · decide
    rw [unary_primary firm (by simp [head, sign]) literal, parsePrimaryExpr_eq, firm.trim,
      not_wrapped firm (print_bare wf), if_neg (by simp)]
    constructor
    · intro read
      obtain ⟨found, split, next⟩ := Outcome.bind_ok.mp read
      cases found with
      | none => exact absurd next forms_not_index
      | some sources =>
        obtain ⟨objectSource, indexSource⟩ := sources
        obtain ⟨first, firstRead, next⟩ := Outcome.bind_ok.mp next
        obtain ⟨second, secondRead, done⟩ := Outcome.bind_ok.mp next
        obtain ⟨rfl, rfl⟩ := AxExpr.index.inj (Except.ok.inj done)
        obtain ⟨front, behind, whole, cutAt, rfl, rfl⟩ := splitTrailingIndex_split split
        rw [firm.trim, text] at whole
        -- No side has fewer brackets than what is printed of it, so both cuts are at the same one.
        have bracket : Counted '[' := .inr rfl
        have objectCount := parsePrimaryExpr_bounded floatText bracket _ _ firstRead wf.1
        have indexCount := parseExpr_bounded floatText bracket _ _ secondRead wf.2
        have left := count_trim front '['
        have right := count_trim behind.dropLast '['
        have shorter := (List.dropLast_sublist behind).count_le '['
        have counts := congrArg (List.count '[') whole
        have own := @count_operand F _ floatText '[' bracket first
        have close : (print floatText second ++ [']']).count '[' = (print floatText second).count '[' := by
          rw [List.count_append]
          rfl
        rw [List.count_append, List.count_append, List.count_cons_self, List.count_cons_self, close, own] at counts
        obtain ⟨rfl, rfl⟩ := cut_at_count whole (by omega)
        have pair : (escapeAware [']'] ['[']).Pair ']' '[' := by constructor <;> decide
        have turned : (print floatText (.index first second)).reverse =
            ']' :: ((print floatText second).reverse ++ '[' :: (operand floatText first).reverse) := by
          rw [text]
          simp
        rw [firm.trim, turned] at cutAt
        have retraceable : Retraceable (print floatText second) := level_of_cut pair cutAt
        rw [List.dropLast_concat, (firm_print wf.2).trim] at secondRead
        rw [(firm_operand wf.1).trim] at firstRead
        by_cases decimal : isFloat first = true
        · cases first with
          | float value => exact absurd firstRead (primary_decimal wf.1 unsigned)
          | _ => cases decimal
        · have notFloat : isFloat first = false := by simpa using decimal
          rw [primary_operand wf.1 unsigned notFloat] at firstRead
          exact ⟨firstRead, secondRead, unsigned, notFloat, retraceable⟩
    · rintro ⟨first, second, _, notFloat, retraceable⟩
      rw [splitTrailingIndex_print wf retraceable]
      change (do
        let object ← parsePrimaryExpr parseF64 line (operand floatText object)
        let index ← parseExpr parseF64 line (print floatText index)
        return AxExpr.index object index) = _
      rw [primary_operand wf.1 unsigned notFloat, first, second]
      rfl

end Indexes

end Axonyx.Core.Printer
