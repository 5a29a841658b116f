import Axonyx.Core.ExprPrinter
import Axonyx.Core.ExprReading

/-! What the scanners see in a printed expression: brackets that match, nothing outside them but
names, numbers and operators, no white space at an end. -/
namespace Axonyx.Core.Printer

open Nesting Text Axonyx.Core.Parser

section Characters

theorem identifier_value {c : Char} (legal : isIdentifierChar c = true) :
    (48 ≤ c.toNat ∧ c.toNat ≤ 57) ∨ (65 ≤ c.toNat ∧ c.toNat ≤ 90) ∨ c.toNat = 95 ∨
      (97 ≤ c.toNat ∧ c.toNat ≤ 122) := by
  simp only [isIdentifierChar, Char.isAlphanum, Identifiers.isAlpha_eq, Identifiers.isUpper_eq, Identifiers.isLower_eq, Char.isDigit,
    Bool.or_eq_true, Bool.and_eq_true, decide_eq_true_eq, UInt32.le_iff_toNat_le, beq_iff_eq] at legal
  have value : c.toNat = c.val.toNat := rfl
  rcases legal with ((upper | lower) | digit) | rfl
  · simp at upper; omega
  · simp at lower; omega
  · simp at digit; omega
  · decide

theorem identifier_solid {c : Char} (legal : isIdentifierChar c = true) : isWhitespace c = false := by
  have bounds := identifier_value legal
  simp only [isWhitespace, Bool.or_eq_false_iff, Bool.and_eq_false_iff, decide_eq_false_iff_not]
  omega

theorem identifier_of_digit {c : Char} (digit : c.isDigit = true) : isIdentifierChar c = true := by
  simp [isIdentifierChar, Char.isAlphanum, digit]

/-- An identifier character is none of a list of others. -/
theorem identifier_not_mem {c : Char} (legal : isIdentifierChar c = true) {others : List Char}
    (off : others.all fun d => !isIdentifierChar d) : c ∉ others := by
  intro member
  have here := List.all_eq_true.mp off c member
  simp [legal] at here

theorem identifier_ne {c d : Char} (legal : isIdentifierChar c = true) (off : isIdentifierChar d = false) :
    c ≠ d := by
  rintro rfl
  rw [legal] at off
  cases off

theorem name_chars {name : String} (valid : isValidObjectKey name.toList = true) :
    name.toList ≠ [] ∧ ∀ c ∈ name.toList, isIdentifierChar c = true := by
  unfold isValidObjectKey at valid
  split at valid
  · cases valid
  · next first rest shape =>
    rw [shape]
    simp only [Bool.and_eq_true, Bool.or_eq_true, beq_iff_eq] at valid
    refine ⟨List.cons_ne_nil first rest, fun c member => ?_⟩
    rcases List.mem_cons.mp member with rfl | later
    · rcases valid.1 with rfl | letter
      · rfl
      · simp [isIdentifierChar, Char.isAlphanum, letter]
    · exact List.all_eq_true.mp valid.2 c later

theorem name_head {name : String} (valid : isValidObjectKey name.toList = true) :
    ∃ first rest, name.toList = first :: rest ∧ isIdentifierChar first = true ∧ first.isDigit = false := by
  have chars := name_chars valid
  unfold isValidObjectKey at valid
  split at valid
  · cases valid
  · next first rest shape =>
    refine ⟨first, rest, shape, chars.2 first (by simp [shape]), ?_⟩
    simp only [Bool.and_eq_true, Bool.or_eq_true, beq_iff_eq] at valid
    rcases valid.1 with rfl | letter
    · rfl
    · by_contra digit
      simp only [Identifiers.isAlpha_eq, Identifiers.isUpper_eq, Identifiers.isLower_eq, Char.isDigit, Bool.not_eq_false, Bool.or_eq_true,
        Bool.and_eq_true, decide_eq_true_eq, UInt32.le_iff_toNat_le, ge_iff_le] at letter digit
      simp at letter digit
      omega

end Characters

section Ends

theorem firm_name {name : String} (valid : isValidObjectKey name.toList = true) : Firm name.toList :=
  have chars := name_chars valid
  firm_solid chars.1 fun c member => identifier_solid (chars.2 c member)

theorem firm_quoted (text : String) : Firm (quoted text) := firm_wrapped _ (by decide) (by decide)

theorem firm_enclose (text : List Char) : Firm (enclose text) := firm_wrapped _ (by decide) (by decide)

theorem firm_number (value : Int64) : Firm (toString value).toList := by
  apply firm_solid
  · rw [toString_toList]
    split
    · exact Nat.toDigits_ne_nil
    · exact List.cons_ne_nil _ _
  · intro c member
    rcases toString_chars value c member with digit | rfl
    · exact identifier_solid (identifier_of_digit digit)
    · rfl

end Ends

section Levels

/-- Rules under which matching brackets stay matching, whether they count or not. -/
structure Tame (rules : Rules) : Prop where
  escape : rules.escape = some '\\'
  quotes : rules.quotes = ['"', '\'']
  round : rules.Pair '(' ')' ∨ rules.plain '(' = true ∧ rules.plain ')' = true
  square : rules.Pair '[' ']' ∨ rules.plain '[' = true ∧ rules.plain ']' = true
  curly : rules.Pair '{' '}' ∨ rules.plain '{' = true ∧ rules.plain '}' = true
  opens : ∀ c ∈ rules.opens, c ∈ ['(', '[', '{']
  closes : ∀ c ∈ rules.closes, c ∈ [')', ']', '}']

theorem tame_nesting : Tame nestingRules := by
  refine ⟨rfl, rfl, .inl ?_, .inl ?_, .inl ?_, by decide, by decide⟩ <;>
    constructor <;> decide

theorem tame_parens : Tame (escapeAware ['('] [')']) := by
  refine ⟨rfl, rfl, .inl ?_, .inr ⟨by decide, by decide⟩, .inr ⟨by decide, by decide⟩, by decide, by decide⟩
  constructor <;> decide

theorem tame_brackets : Tame (escapeAware ['['] [']']) := by
  refine ⟨rfl, rfl, .inr ⟨by decide, by decide⟩, .inl ?_, .inr ⟨by decide, by decide⟩, by decide, by decide⟩
  constructor <;> decide

variable {rules : Rules}

theorem Tame.plain (tame : Tame rules) {c : Char} (other : c ∉ ['"', '\'', '(', '[', '{', ')', ']', '}']) :
    rules.plain c = true := by
  simp only [List.mem_cons, List.not_mem_nil, or_false, not_or] at other
  simp only [Rules.plain, Bool.and_eq_true, decide_eq_true_eq]
  refine ⟨⟨by simp [tame.quotes, other], fun member => ?_⟩, fun member => ?_⟩
  · have here := tame.opens c member
    simp [other] at here
  · have here := tame.closes c member
    simp [other] at here

theorem Tame.identifier (tame : Tame rules) {c : Char} (legal : isIdentifierChar c = true) :
    rules.plain c = true := tame.plain (identifier_not_mem legal (by decide))

theorem level_around {text : List Char} (level : Level rules text) {o c : Char}
    (bracket : rules.Pair o c ∨ rules.plain o = true ∧ rules.plain c = true) :
    Level rules (o :: (text ++ [c])) := by
  rcases bracket with pair | ⟨first, last⟩
  · exact (Hidden.group level pair).level
  · have front : Level rules [o] := level_plain (by simp [first])
    have back : Level rules [c] := level_plain (by simp [last])
    exact front.append (level.append back)

theorem inside_escape (text : List Char) : Inside '\\' '"' (text.flatMap escapeChar) := by
  induction text with
  | nil => exact .nil
  | cons c rest ih =>
    rw [List.flatMap_cons]
    refine Inside.append ?_ ih
    unfold escapeChar
    split
    · exact .escaped .nil
    · split
      · exact .escaped .nil
      · split
        · exact .escaped .nil
        · split
          · exact .escaped .nil
          · next other => exact .plain ⟨fun same => other (.inr same), fun same => other (.inl same)⟩ .nil

theorem hidden_quoted (tame : Tame rules) (text : String) : Hidden rules (quoted text) :=
  Hidden.literal tame.escape (inside_escape text.toList) (by simp [tame.quotes]) (by decide)

theorem level_name (tame : Tame rules) {name : List Char} (chars : ∀ c ∈ name, isIdentifierChar c = true) :
    Level rules name := level_plain fun c member => tame.identifier (chars c member)

theorem level_joined (tame : Tame rules) {parts : List (List Char)} (levels : ∀ part ∈ parts, Level rules part) :
    Level rules (joined ',' parts) := by
  induction parts with
  | nil => exact level_nil
  | cons part rest ih =>
    cases rest with
    | nil => exact levels part List.mem_cons_self
    | cons next rest =>
      have comma : Level rules [',', ' '] := level_plain (by simp [tame.plain])
      have later := ih fun other member => levels other (List.mem_cons_of_mem part member)
      exact (levels part List.mem_cons_self).append (comma.append later)

theorem dotted_chars {path : List String} (valid : ∀ name ∈ path, isValidObjectKey name.toList = true) :
    ∀ c ∈ dotted path, isIdentifierChar c = true ∨ c = '.' := by
  induction path with
  | nil => simp [dotted, join]
  | cons name rest ih =>
    have later := ih fun other member => valid other (List.mem_cons_of_mem name member)
    have first := (name_chars (valid name List.mem_cons_self)).2
    cases rest with
    | nil =>
      intro c member
      exact .inl (first c member)
    | cons next rest =>
      intro c member
      simp only [dotted, join, String.toList_append, List.mem_append] at member
      rcases member with (here | dot) | there
      · exact .inl (first c here)
      · exact .inr (by simpa using dot)
      · exact later c there

variable {F : Type} [Float64 F] {floatText : AxFloat F → String} {parseF64 : String → Option F}

theorem level_wrap (tame : Tame rules) {text : List Char} (level : Level rules text) (atom : Bool) :
    Level rules (if atom then text else enclose text) := by
  cases atom with
  | true => exact level
  | false => exact level_around level tame.round

theorem opToken_plain (tame : Tame rules) (op : AxBinaryOp) : Level rules (opToken op) := by
  apply level_plain
  intro c member
  apply tame.plain
  revert c
  cases op <;> decide

theorem bool_chars (value : Bool) : ∀ c ∈ (toString value).toList, isIdentifierChar c = true := by
  cases value <;> decide

theorem float_chars {value : AxFloat F} (reads : ReadsBack floatText parseF64 value) :
    ∀ c ∈ (floatText value).toList, c.isDigit = true ∨ c = '-' ∨ c = '.' := by
  obtain ⟨negative, whole, fraction, shape, _, _, first, second⟩ := reads.decimal
  intro c member
  rw [shape] at member
  cases negative <;> simp at member <;> grind

mutual

theorem level_print (tame : Tame rules) : ∀ expr : AxExpr F, WellFormed floatText parseF64 expr →
    Level rules (print floatText expr)
  | .string value, _ => (hidden_quoted tame value).level
  | .number value, _ => by
    apply level_plain
    intro c member
    rcases toString_chars value c member with digit | rfl
    · exact tame.identifier (identifier_of_digit digit)
    · exact tame.plain (by decide)
  | .float value, reads => by
    apply level_plain
    intro c member
    rcases float_chars reads c member with digit | rfl | rfl
    · exact tame.identifier (identifier_of_digit digit)
    · exact tame.plain (by decide)
    · exact tame.plain (by decide)
  | .bool value, _ => level_name tame (bool_chars value)
  | .list items, wf => level_around (level_joined tame (level_items tame items wf)) tame.square
  | .object fields, wf => level_around (level_joined tame (level_fields tame fields wf.2)) tame.curly
  | .identifier name, valid => level_name tame (name_chars valid.1).2
  | .unary op expr, wf => by
    have sign : Level rules [opSign op] := level_plain (by cases op <;> simp [opSign, tame.plain])
    exact sign.append (level_wrap tame (level_print tame expr wf) _)
  | .binary op left right, wf => by
    have blank : Level rules [' '] := level_plain (by simp [tame.plain])
    have first := level_wrap tame (level_print tame left wf.1) (isAtom left)
    have second := level_wrap tame (level_print tame right wf.2) (isAtom right)
    exact first.append (blank.append ((opToken_plain tame op).append (blank.append second)))
  | .index object index, wf => by
    have first := level_wrap tame (level_print tame object wf.1) (isAtom object)
    exact first.append (level_around (level_print tame index wf.2) tame.square)
  | .member object property, wf => by
    have first := level_wrap tame (level_print tame object wf.1) (isAtom object)
    have dot : Level rules ['.'] := level_plain (by simp [tame.plain])
    exact first.append (dot.append (level_name tame (name_chars wf.2).2))
  | .optionalMember object property, wf => by
    have first := level_wrap tame (level_print tame object wf.1) (isAtom object)
    have dot : Level rules ['?', '.'] := level_plain (by simp [tame.plain])
    exact first.append (dot.append (level_name tame (name_chars wf.2).2))
  | .call path args, wf => by
    have front : Level rules (dotted path) := by
      apply level_plain
      intro c member
      rcases dotted_chars wf.2.1 c member with legal | rfl
      · exact tame.identifier legal
      · exact tame.plain (by decide)
    exact front.append (level_around (level_joined tame (level_items tame args wf.2.2)) tame.round)

theorem level_items (tame : Tame rules) : ∀ items : List (AxExpr F),
    WellFormedItems floatText parseF64 items → ∀ part ∈ printItems floatText items, Level rules part
  | [], _ => by simp [printItems]
  | item :: rest, wf => by
    intro part member
    rcases List.mem_cons.mp member with rfl | later
    · exact level_print tame item wf.1
    · exact level_items tame rest wf.2 part later

theorem level_fields (tame : Tame rules) : ∀ fields : List (String × AxExpr F),
    WellFormedFields floatText parseF64 fields → ∀ part ∈ printFields floatText fields, Level rules part
  | [], _ => by simp [printFields]
  | (key, value) :: rest, wf => by
    intro part member
    rcases List.mem_cons.mp member with rfl | later
    · have colon : Level rules [':', ' '] := level_plain (by simp [tame.plain])
      exact (hidden_quoted tame key).level.append (colon.append (level_print tame value wf.1))
    · exact level_fields tame rest wf.2 part later

end

theorem level_operand (tame : Tame rules) {expr : AxExpr F} (wf : WellFormed floatText parseF64 expr) :
    Level rules (operand floatText expr) := level_wrap tame (level_print tame expr wf) _

end Levels

section Candidates

/-- The operators the search meets in a part of the text. -/
def found (before text after : List Char) : List Candidate :=
  (tops nestingRules start before text).filterMap fun place => candidateAt (place.1, place.2 ++ after)

theorem candidates_eq (text : List Char) : candidates text = found [] text [] := by
  unfold candidates found
  congr 1
  funext place
  rw [List.append_nil]

theorem found_append {a : List Char} (level : Level nestingRules a) (before b after : List Char) :
    found before (a ++ b) after = found before a (b ++ after) ++ found (a.reverse ++ before) b after := by
  unfold found
  rw [tops_append, level.run, List.filterMap_append, List.filterMap_map]
  congr 1
  apply congrFun
  apply congrArg
  funext place
  simp [Function.comp]

theorem found_hidden {text : List Char} (hidden : Hidden nestingRules text) (before after : List Char) :
    found before text after = [] := by
  rw [found, hidden.silent]
  rfl

theorem found_plain {c : Char} (plain : nestingRules.plain c = true) (before after : List Char) :
    found before [c] after = (candidateAt (before, c :: after)).toList := by
  have shown : start.top nestingRules c = true := by simp [State.top, start, plain]
  cases here : candidateAt (before, c :: after) <;> simp [found, tops, shown, here]

/-- No token but the word starts with an identifier character. -/
theorem no_token {c : Char} (legal : isIdentifierChar c = true) (rest : List Char) :
    (operatorTokens.find? fun token => token.1.toList.isPrefixOf (c :: rest)) = none := by
  have starts : ∀ token ∈ operatorTokens, token.1.toList.head?.any isIdentifierChar = false := by decide
  apply List.find?_eq_none.mpr
  intro token member same
  have first := starts token member
  obtain ⟨tail, shape⟩ := List.isPrefixOf_iff_prefix.mp same
  cases text : token.1.toList with
  | nil =>
    have present : ∀ token ∈ operatorTokens, token.1.toList ≠ [] := by decide
    exact present token member text
  | cons d more =>
    rw [text, List.cons_append] at shape
    rw [text, (List.cons.inj shape).1] at first
    simp [legal] at first

theorem word_whole {name after : List Char} (present : name ≠ [])
    (chars : ∀ c ∈ name, isIdentifierChar c = true) (right : after.head?.any isIdentifierChar = false)
    (starts : wordOperator <+: name ++ after)
    (stop : ((name ++ after).drop wordOperator.length).head?.any isIdentifierChar = false) :
    name = wordOperator := by
  obtain ⟨tail, shape⟩ := starts
  match name with
  | [] => exact absurd rfl present
  | [a] =>
    have next : after = 'n' :: tail := (List.cons.inj shape).2.symm
    rw [next] at right
    exact absurd right (show isIdentifierChar 'n' ≠ false by decide)
  | [a, b] =>
    obtain ⟨rfl, rest⟩ := List.cons.inj shape
    obtain ⟨rfl, _⟩ := List.cons.inj rest
    rfl
  | a :: b :: d :: more =>
    have legal := chars d (by simp)
    change (some d).any isIdentifierChar = false at stop
    simp [legal] at stop

/-- Inside a name there is no operator. -/
theorem found_inner {name : List Char} (chars : ∀ c ∈ name, isIdentifierChar c = true) {before : List Char}
    {last : Char} (inside : before.head? = some last) (legal : isIdentifierChar last = true) (after : List Char) :
    found before name after = [] := by
  induction name generalizing before last with
  | nil => rfl
  | cons c rest ih =>
    have here := chars c List.mem_cons_self
    have plain := tame_nesting.identifier here
    have single : Level nestingRules [c] := level_plain (by simp [plain])
    have none : binaryOpAt before (c :: (rest ++ after)) = none := by
      rw [binaryOpAt, no_token here, isWordOperatorBoundary, inside]
      simp [legal]
    have later : found (c :: before) rest after = [] :=
      ih (fun d member => chars d (List.mem_cons_of_mem c member)) rfl here
    change found before ([c] ++ rest) after = []
    rw [found_append single, found_plain plain, List.reverse_singleton, List.singleton_append, later,
      candidateAt, none]
    rfl

/-- A name is an operator if it is the word for one and has something to its left. -/
theorem found_name {name : List Char} (chars : ∀ c ∈ name, isIdentifierChar c = true) {before after : List Char}
    (left : before.head?.any isIdentifierChar = false) (right : after.head?.any isIdentifierChar = false) :
    found before name after =
      if name = wordOperator ∧ operatorHasLeftOperand before = true then
        [⟨before, wordOperator ++ after, .in⟩] else [] := by
  cases name with
  | nil => rw [if_neg (by simp [wordOperator])]; rfl
  | cons c rest =>
    have here := chars c List.mem_cons_self
    have plain := tame_nesting.identifier here
    have single : Level nestingRules [c] := level_plain (by simp [plain])
    have others : ∀ d ∈ rest, isIdentifierChar d = true := fun d member => chars d (List.mem_cons_of_mem c member)
    have inner : found (c :: before) rest after = [] := found_inner others rfl here after
    change found before ([c] ++ rest) after = _
    rw [found_append single, found_plain plain, List.reverse_singleton, List.singleton_append, inner,
      List.append_nil, candidateAt, binaryOpAt, no_token here]
    by_cases word : c :: rest = wordOperator
    · have boundary : (wordOperator.isPrefixOf (c :: (rest ++ after)) &&
          isWordOperatorBoundary before (c :: (rest ++ after))) = true := by
        rw [← List.cons_append, word, isWordOperatorBoundary, left, List.drop_left, right]
        simp
      rw [if_pos boundary]
      by_cases operand : operatorHasLeftOperand before = true
      · simp only [operand, if_true, word, and_self, ← List.cons_append]
        rfl
      · simp [operand]
    · have boundary : ¬(wordOperator.isPrefixOf (c :: (rest ++ after)) &&
          isWordOperatorBoundary before (c :: (rest ++ after))) = true := by
        intro both
        simp only [Bool.and_eq_true] at both
        apply word
        have stop := both.2
        simp only [isWordOperatorBoundary, Bool.and_eq_true, Bool.not_eq_true'] at stop
        exact word_whole (List.cons_ne_nil c rest) chars right (List.isPrefixOf_iff_prefix.mp both.1) stop.2
      rw [if_neg boundary, if_neg (fun both => word both.1)]
      rfl

theorem candidate_free {c : Char} (word : c ≠ 'i')
    (free : operatorTokens.all fun token => token.1.toList.head? != some c) (before rest : List Char) :
    candidateAt (before, c :: rest) = none := by
  have noToken : (operatorTokens.find? fun token => token.1.toList.isPrefixOf (c :: rest)) = none := by
    apply List.find?_eq_none.mpr
    intro token member same
    have first := List.all_eq_true.mp free token member
    obtain ⟨tail, shape⟩ := List.isPrefixOf_iff_prefix.mp same
    cases text : token.1.toList with
    | nil =>
      have present : ∀ token ∈ operatorTokens, token.1.toList ≠ [] := by decide
      exact present token member text
    | cons d more =>
      rw [text, List.cons_append] at shape
      rw [text, (List.cons.inj shape).1] at first
      simp at first
  have noWord : wordOperator.isPrefixOf (c :: rest) = false := by
    change ('i' == c && _) = false
    simp [Ne.symm word]
  rw [candidateAt, binaryOpAt, noToken, noWord]
  rfl

theorem candidate_minus (before rest : List Char) : candidateAt (before, '-' :: rest) =
    if operatorHasLeftOperand before then some ⟨before, '-' :: rest, .sub⟩ else none := rfl

theorem digits_not_word {digits : List Char} (all : ∀ c ∈ digits, c.isDigit = true) : digits ≠ wordOperator := by
  rintro rfl
  exact absurd (all 'i' (by decide)) (by decide)

theorem found_digits {digits : List Char} (all : ∀ c ∈ digits, c.isDigit = true) {before after : List Char}
    (left : before.head?.any isIdentifierChar = false) (right : after.head?.any isIdentifierChar = false) :
    found before digits after = [] := by
  rw [found_name (fun c member => identifier_of_digit (all c member)) left right,
    if_neg fun both => digits_not_word all both.1]

theorem level_sign : Level nestingRules ['-'] := level_plain (by decide)

theorem level_point : Level nestingRules ['.'] := level_plain (by decide)

theorem level_digits {digits : List Char} (all : ∀ c ∈ digits, c.isDigit = true) : Level nestingRules digits :=
  level_name tame_nesting fun c member => identifier_of_digit (all c member)

/-- The text of a number: its sign and its digits. -/
theorem number_shape (value : Int64) : ∃ digits : List Char, digits ≠ [] ∧ (∀ c ∈ digits, c.isDigit = true) ∧
    (toString value).toList = (if value.toInt < 0 then ['-'] else []) ++ digits := by
  rw [toString_toList]
  by_cases sign : 0 ≤ value.toInt
  · exact ⟨_, Nat.toDigits_ne_nil, digit_toDigits _, by rw [if_pos sign, if_neg (by omega)]; rfl⟩
  · exact ⟨_, Nat.toDigits_ne_nil, digit_toDigits _, by rw [if_neg sign, if_pos (by omega)]; rfl⟩

theorem found_decimal {whole fraction : List Char} (first : ∀ c ∈ whole, c.isDigit = true)
    (second : ∀ c ∈ fraction, c.isDigit = true) {before after : List Char}
    (left : before.head?.any isIdentifierChar = false) (right : after.head?.any isIdentifierChar = false) :
    found before (whole ++ '.' :: fraction) after = [] := by
  rw [found_append (level_digits first), found_digits first left (by rfl)]
  change [] ++ found _ (['.'] ++ fraction) after = []
  rw [found_append level_point, found_plain (by decide), candidate_free (by decide) (by decide),
    found_digits second (by rfl) right]
  rfl

variable {F : Type} [Float64 F] {floatText : AxFloat F → String} {parseF64 : String → Option F}

theorem found_minus {text : List Char} (before after : List Char)
    (rest : found ('-' :: before) text after = []) :
    found before ('-' :: text) after =
      if operatorHasLeftOperand before then [⟨before, '-' :: (text ++ after), .sub⟩] else [] := by
  change found before (['-'] ++ text) after = _
  rw [found_append level_sign, found_plain (by decide), List.reverse_singleton, List.singleton_append, rest,
    candidate_minus, List.append_nil]
  split <;> rfl

/-- What the search meets in an operand: the word as a name, or the sign of a number. -/
theorem found_operand {expr : AxExpr F} (wf : WellFormed floatText parseF64 expr) {before after : List Char}
    (left : before.head?.any isIdentifierChar = false) (right : after.head?.any isIdentifierChar = false) :
    found before (operand floatText expr) after =
      if operatorHasLeftOperand before = true then
        if isName "in" expr then [⟨before, wordOperator ++ after, .in⟩]
        else if isNumberText floatText true expr then [⟨before, operand floatText expr ++ after, .sub⟩] else []
      else [] := by
  have enclosed (other : AxExpr F) (wf : WellFormed floatText parseF64 other) :
      found before (enclose (print floatText other)) after = [] := by
    have pair : nestingRules.Pair '(' ')' := by constructor <;> decide
    exact found_hidden (Hidden.group (level_print tame_nesting other wf) pair) before after
  cases expr with
  | string value =>
    have hidden := found_hidden (hidden_quoted tame_nesting value) before after
    simpa [operand, isAtom, print, isName, isNumberText] using hidden
  | number value =>
    obtain ⟨digits, _, all, shape⟩ := number_shape value
    simp only [operand, isAtom, print, isName, isNumberText, if_true, shape]
    by_cases sign : value.toInt < 0
    · simp only [sign, if_true, List.cons_append, decide_true, beq_self_eq_true]
      exact found_minus before after (found_digits all (by rfl) right)
    · simp only [sign, if_false, List.nil_append, decide_false]
      simpa using found_digits all left right
  | float value =>
    obtain ⟨negative, whole, fraction, shape, present, _, first, second⟩ := wf.decimal
    simp only [operand, isAtom, print, isName, isNumberText, if_true, shape]
    cases negative with
    | true =>
      simp only [if_true, List.cons_append, List.append_assoc, List.head?_cons, beq_self_eq_true,
        List.nil_append]
      have inner : found ('-' :: before) (whole ++ '.' :: fraction) after = [] :=
        found_decimal first second (by rfl) right
      simpa using found_minus before after inner
    | false =>
      obtain ⟨d, digits, rfl⟩ := List.exists_cons_of_ne_nil present
      have plain : d ≠ '-' := by
        rintro rfl
        exact absurd (first '-' List.mem_cons_self) (by decide)
      have inner := found_decimal first second left right
      simpa [plain] using inner
  | bool value =>
    have inner := found_name (bool_chars value) left right
    have other : (toString value).toList ≠ wordOperator := by cases value <;> decide
    simpa [operand, isAtom, print, isName, isNumberText, other] using inner
  | identifier name =>
    have inner := found_name (name_chars wf.1).2 left right
    have same : name.toList = wordOperator ↔ name = "in" := by
      rw [wordOperator, String.toList_inj]
    simp only [operand, isAtom, print, isName, isNumberText, if_true, inner, same, beq_iff_eq]
    by_cases word : name = "in" <;> by_cases operand : operatorHasLeftOperand before = true <;>
      simp [word, operand]
  | list items => simpa [operand, isAtom, isName, isNumberText] using enclosed _ wf
  | object fields => simpa [operand, isAtom, isName, isNumberText] using enclosed _ wf
  | unary op expr => simpa [operand, isAtom, isName, isNumberText] using enclosed _ wf
  | binary op left right => simpa [operand, isAtom, isName, isNumberText] using enclosed _ wf
  | index object index => simpa [operand, isAtom, isName, isNumberText] using enclosed _ wf
  | member object property => simpa [operand, isAtom, isName, isNumberText] using enclosed _ wf
  | optionalMember object property => simpa [operand, isAtom, isName, isNumberText] using enclosed _ wf
  | call path args => simpa [operand, isAtom, isName, isNumberText] using enclosed _ wf

end Candidates

end Axonyx.Core.Printer
