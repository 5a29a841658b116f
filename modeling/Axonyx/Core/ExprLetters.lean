import Axonyx.Core.ExprSource

/-! The letters of a text. The parser leaves out white space, brackets, quotes and marks only,
so that an expression has the letters of its text: those of an operator it was cut at, too. -/
namespace Axonyx.Core.Parser

open Nesting Text Printer

variable {F : Type} [Float64 F] {x : Char}

section Counting

mutual

/-- How often a letter stands in the texts an expression is made of. -/
def letters (x : Char) : AxExpr F → Nat
  | .string value => value.toList.count x
  | .number _ | .float _ => 0
  | .bool value => (toString value).toList.count x
  | .list items => lettersAll x items
  | .object fields => lettersFields x fields
  | .identifier name => name.toList.count x
  | .unary _ expr => letters x expr
  | .binary op left right => letters x left + (opToken op).count x + letters x right
  | .index object index => letters x object + letters x index
  | .member object property | .optionalMember object property => letters x object + property.toList.count x
  | .call path args => (path.map fun name => name.toList.count x).sum + lettersAll x args

def lettersAll (x : Char) : List (AxExpr F) → Nat
  | [] => 0
  | expr :: rest => letters x expr + lettersAll x rest

def lettersFields (x : Char) : List (String × AxExpr F) → Nat
  | [] => 0
  | (key, expr) :: rest => key.toList.count x + letters x expr + lettersFields x rest

end

theorem lettersFields_eq (fields : List (String × AxExpr F)) :
    lettersFields x fields = (fields.map fun field => field.1.toList.count x + letters x field.2).sum := by
  induction fields with
  | nil => rfl
  | cons field rest ih =>
    obtain ⟨key, expr⟩ := field
    rw [lettersFields, ih, List.map_cons, List.sum_cons]

/-- Letters the parser keeps: no escape and no number has them. -/
def Kept (x : Char) : Prop := x = 'i' ∨ x = 'o'

theorem kept_off (kept : Kept x) : isWhitespace x = false ∧ isFiller x = false ∧ x.isDigit = false ∧
    x ∉ ['"', '\'', '\\', '.', '?', ',', ':', '[', ']', '{', '}', '(', ')', '-', '+', '!', ' '] := by
  rcases kept with rfl | rfl <;> decide

theorem count_blank (kept : Kept x) {text : List Char} (blank : ∀ c ∈ text, isWhitespace c = true) :
    text.count x = 0 := count_eq_zero_of blank (by simp [(kept_off kept).1])

theorem count_trimChars (kept : Kept x) (text : List Char) : (trimChars text).count x = text.count x := by
  obtain ⟨before, after, whole, first, last⟩ := trimChars_split text
  have counts := congrArg (List.count x) whole
  rw [List.count_append, List.count_append, count_blank kept first, count_blank kept last] at counts
  omega

theorem count_dropWhile (text : List Char) {mark : Char} (other : x ≠ mark) :
    (text.dropWhile (· == mark)).count x = text.count x := by
  have front : (text.takeWhile (· == mark)).count x = 0 := by
    apply List.count_eq_zero.mpr
    intro member
    exact other (eq_of_beq (List.mem_takeWhile_imp (p := (· == mark)) member))
  have whole := congrArg (List.count x) (List.takeWhile_append_dropWhile (p := (· == mark)) (l := text))
  rw [List.count_append, front] at whole
  omega

theorem count_rdropWhile (text : List Char) {mark : Char} (other : x ≠ mark) :
    (text.rdropWhile (· == mark)).count x = text.count x := by
  rw [List.rdropWhile, List.count_reverse, count_dropWhile _ other, List.count_reverse]

theorem count_targetName (kept : Kept x) (rest : List Char) : (targetName rest).count x = rest.count x := by
  have off := (kept_off kept).2.2.2
  have quotes : x ≠ '"' ∧ x ≠ '\'' := by
    constructor
    · rintro rfl
      exact off (by simp)
    · rintro rfl
      exact off (by simp)
  rw [targetName, count_rdropWhile _ quotes.2, count_dropWhile _ quotes.2, count_rdropWhile _ quotes.1,
    count_dropWhile _ quotes.1, count_trimChars kept]

theorem unescape_kept (kept : Kept x) (c : Char) : (unescape c == x) = (c == x) := by
  unfold unescape
  rcases kept with rfl | rfl
  all_goals
    split
    · next same => rw [same]; rfl
    · split
      · next same => rw [same]; rfl
      · split
        · next same => rw [same]; rfl
        · rfl

theorem letters_unescape (kept : Kept x) {text value : List Char} (read : unescapeChars text = some value) :
    value.count x = text.count x := by
  have slash : ('\\' == x) = false := by rcases kept with rfl | rfl <;> decide
  fun_induction unescapeChars text generalizing value with
  | case1 =>
    obtain rfl := Option.some.inj read
    rfl
  | case2 => cases read
  | case3 c rest ih =>
    obtain ⟨later, found, rfl⟩ := Option.map_eq_some_iff.mp read
    rw [List.count_cons, List.count_cons, List.count_cons, ih found, unescape_kept kept, slash]
    simp
  | case4 c rest _ _ ih =>
    obtain ⟨later, found, rfl⟩ := Option.map_eq_some_iff.mp read
    rw [List.count_cons, List.count_cons, ih found]

/-- A quoted text is its quotes around the escaped value. -/
theorem parseQuotedString_shape {text : List Char} {line : Nat} {value : String}
    (read : parseQuotedString text line = .ok (some value)) : ∃ quote inner, quote ∈ ['"', '\''] ∧
      text = quote :: (inner ++ [quote]) ∧ unescapeChars inner = some value.toList := by
  unfold parseQuotedString at read
  split at read
  · cases read
  · next quote rest =>
    split at read
    · cases read
    · next quotes =>
      split at read
      · cases read
      · next last =>
        split at read
        · next chars found =>
          obtain rfl := Option.some.inj (Except.ok.inj read)
          obtain ⟨inner, rfl⟩ := List.getLast?_eq_some_iff.mp (not_not.mp last)
          refine ⟨quote, inner, ?_, rfl, ?_⟩
          · by_contra off
            simp only [List.mem_cons, List.not_mem_nil, or_false, not_or] at off
            exact quotes off
          · rw [List.dropLast_concat] at found
            rw [found, String.toList_ofList]
        · cases read

theorem letters_quoted (kept : Kept x) {text : List Char} {line : Nat} {value : String}
    (read : parseQuotedString text line = .ok (some value)) : value.toList.count x = text.count x := by
  obtain ⟨quote, inner, quotes, rfl, found⟩ := parseQuotedString_shape read
  have other : (quote == x) = false := by
    apply beq_eq_false_iff_ne.mpr
    rintro rfl
    exact (kept_off kept).2.2.2 (List.mem_append_left ['\\', '.', '?', ',', ':', '[', ']', '{', '}', '(', ')',
      '-', '+', '!', ' '] quotes)
  rw [letters_unescape kept found, List.count_cons, List.count_append, List.count_singleton, other]
  simp

theorem letters_key (kept : Kept x) {source : List Char} {line : Nat} {key : String}
    (read : parseKey line source = .ok key) : key.toList.count x = source.count x := by
  unfold parseKey at read
  obtain ⟨found, quoted, next⟩ := Outcome.bind_ok.mp read
  cases found with
  | some text =>
    obtain rfl := Except.ok.inj next
    exact letters_quoted kept quoted
  | none =>
    dsimp only at next
    split at next
    · obtain rfl := Except.ok.inj next
      rw [String.toList_ofList]
    · cases next

theorem count_mark {mark : Char} (other : mark ≠ x) (parts : List (List Char)) :
    ([mark].intercalate parts).count x = (parts.map (List.count x)).sum := by
  rw [count_intercalate, if_neg other, Nat.add_zero]

theorem count_pathNames (kept : Kept x) (path : List Char) :
    ((pathNames path).map (List.count x)).sum = path.count x := by
  have dot : '.' ≠ x := by rcases kept with rfl | rfl <;> decide
  have shown (parts : List (List Char)) : ((parts.filter fun segment => !segment.isEmpty).map (List.count x)).sum =
      (parts.map (List.count x)).sum := by
    induction parts with
    | nil => rfl
    | cons part rest ih =>
      cases part with
      | nil => simpa using ih
      | cons c more => simpa using ih
  rw [pathNames, shown, List.map_map]
  have trimmed : List.count x ∘ trimChars = List.count x := funext (count_trimChars kept)
  rw [trimmed, ← count_mark dot, List.intercalate_splitOn, count_trimChars kept]

end Counting

section Spelling

/-- An expression with the letters of its text; an operation is cut at its operator, behind the
text of its left side. -/
structure Spelled (x : Char) (text : List Char) (expr : AxExpr F) : Prop where
  whole : letters x expr = text.count x
  cut : ∀ op left right, expr = .binary op left right → ∃ front rest, text = front ++ opToken op ++ rest ∧
    operatorHasLeftOperand front.reverse = true ∧ letters x left = front.count x

theorem spelled_plain {text : List Char} {expr : AxExpr F} (whole : letters x expr = text.count x)
    (other : ∀ op left right, expr ≠ .binary op left right) : Spelled x text expr :=
  ⟨whole, fun op left right same => absurd same (other op left right)⟩

theorem lettersAll_eq {parts : List (List Char)} {items : List (AxExpr F)} (all : List.Forall₂ (Spelled x) parts items) :
    lettersAll x items = (parts.map (List.count x)).sum := by
  induction all with
  | nil => rfl
  | cons here _ ih => rw [lettersAll, List.map_cons, List.sum_cons, here.whole, ih]

theorem hasLeft_behind {front : List Char} (operand : operatorHasLeftOperand front = true) (more : List Char) :
    operatorHasLeftOperand (front ++ more) = true := by
  unfold operatorHasLeftOperand at operand ⊢
  rw [List.find?_append]
  cases found : front.find? fun c => !isWhitespace c with
  | none =>
    rw [found] at operand
    cases operand
  | some c =>
    rw [found] at operand
    exact operand

theorem numeric_letters {parseF64 : String → Option F} {line : Nat} (kept : Kept x) {text : List Char}
    {expr : AxExpr F} (literal : parseNumericLiteral parseF64 text line = some (.ok expr)) : Spelled x text expr := by
  have chars : text.count x = 0 := by
    apply List.count_eq_zero.mpr
    intro member
    have off := kept_off kept
    rw [numeric_none member ⟨off.2.2.1, by rintro rfl; exact off.2.2.2 (by simp),
      by rintro rfl; exact off.2.2.2 (by simp)⟩] at literal
    cases literal
  rcases numeric_kinds literal rfl with ⟨value, rfl⟩ | ⟨value, rfl⟩
  · exact spelled_plain chars.symm (fun _ _ _ same => nomatch same)
  · exact spelled_plain chars.symm (fun _ _ _ same => nomatch same)

/-- Every form keeps the letters. -/
theorem spelled_rules (parseF64 : String → Option F) (line : Nat) (kept : Kept x) :
    ReadingRules parseF64 line (@Spelled F _ x) where
  around {front inner back expr} filler spelled := by
    have none (text : List Char) (all : ∀ c ∈ text, isFiller c = true) : text.count x = 0 :=
      count_eq_zero_of all (by simp [(kept_off kept).2.1])
    have first := none front fun c member => filler c (List.mem_append_left back member)
    have last := none back fun c member => filler c (List.mem_append_right front member)
    refine ⟨?_, ?_⟩
    · rw [List.count_append, List.count_append, first, last, spelled.whole]
      omega
    · intro op left right same
      obtain ⟨before, rest, rfl, operand, counts⟩ := spelled.cut op left right same
      refine ⟨front ++ before, rest ++ back, by simp, ?_, ?_⟩
      · rw [List.reverse_append]
        exact hasLeft_behind operand _
      · rw [List.count_append, first, counts, Nat.zero_add]
  target {word} rest _ := by
    refine spelled_plain ?_ fun _ _ _ same => nomatch same
    have blank : (' ' == x) = false := by rcases kept with rfl | rfl <;> decide
    rw [List.count_append, List.count_cons, blank]
    simp [letters, lettersAll, count_targetName kept]
  numeric literal := numeric_letters kept literal
  integer {text value} read := by
    refine spelled_plain ?_ fun _ _ _ same => nomatch same
    symm
    apply List.count_eq_zero.mpr
    intro member
    have off := kept_off kept
    rw [parseI64_none member ⟨off.2.2.1, by rintro rfl; exact off.2.2.2 (by simp),
      by rintro rfl; exact off.2.2.2 (by simp)⟩] at read
    cases read
  binary {before rest op left right} operand first second := by
    refine ⟨?_, ?_⟩
    · rw [letters, first.whole, second.whole, List.count_append, List.count_append]
    · intro op' left' right' same
      obtain ⟨rfl, rfl, rfl⟩ := AxExpr.binary.inj same
      exact ⟨before.reverse, rest, rfl, by rwa [List.reverse_reverse], first.whole⟩
  unary {op rest expr} inner := by
    refine spelled_plain ?_ fun _ _ _ same => nomatch same
    have sign : (opSign op == x) = false := by rcases kept with rfl | rfl <;> cases op <;> decide
    rw [letters, inner.whole, List.count_cons, sign]
    simp
  index {front inner object index} first second := by
    refine spelled_plain ?_ fun _ _ _ same => nomatch same
    have marks : ('[' == x) = false ∧ (']' == x) = false := by rcases kept with rfl | rfl <;> decide
    rw [letters, first.whole, second.whole, List.count_append, List.count_cons, List.count_append]
    simp [List.count_cons, marks]
  string read := spelled_plain (letters_quoted kept read) (fun _ _ _ same => nomatch same)
  bool value := spelled_plain rfl (fun _ _ _ same => nomatch same)
  list {inner parts items} whole all := by
    refine spelled_plain ?_ fun _ _ _ same => nomatch same
    have marks : ('[' == x) = false ∧ (']' == x) = false ∧ ',' ≠ x := by rcases kept with rfl | rfl <;> decide
    have counts := congrArg (List.count x) whole
    rw [count_trimChars kept, count_mark marks.2.2, ← lettersAll_eq all] at counts
    rw [letters, List.count_cons, List.count_append, counts]
    simp [List.count_cons, marks]
  object {inner parts rest entries fields} whole blank same all := by
    refine spelled_plain ?_ fun _ _ _ same => nomatch same
    have marks : ('{' == x) = false ∧ ('}' == x) = false ∧ ',' ≠ x ∧ (':' == x) = false := by
      rcases kept with rfl | rfl <;> decide
    have empty : (rest.map (List.count x)).sum = 0 := by
      apply List.sum_eq_zero
      intro n member
      obtain ⟨part, inside, rfl⟩ := List.mem_map.mp member
      rw [← count_trimChars kept, blank part inside, List.count_nil]
    have fieldCounts : lettersFields x entries = (parts.map (List.count x)).sum := by
      clear whole same blank
      induction all with
      | nil => rfl
      | @cons part field _ _ here _ ih =>
        obtain ⟨before, after, shape, key, value⟩ := here
        have part_count := congrArg (List.count x) shape
        rw [count_trimChars kept, List.count_append, List.count_cons, ← value.whole, ← count_trimChars kept before,
          ← letters_key kept key, marks.2.2.2] at part_count
        rw [lettersFields, List.map_cons, List.sum_cons, ih, part_count]
        simp
    have counts := congrArg (List.count x) whole
    rw [count_trimChars kept, count_mark marks.2.2.1, List.map_append, List.sum_append, empty, ← fieldCounts] at counts
    rw [letters, lettersFields_eq, (same.map _).sum_eq, ← lettersFields_eq, List.count_cons, List.count_append, counts]
    simp [List.count_cons, marks]
  call {path inner parts args} whole all := by
    refine spelled_plain ?_ fun _ _ _ same => nomatch same
    have marks : ('(' == x) = false ∧ (')' == x) = false ∧ ',' ≠ x := by rcases kept with rfl | rfl <;> decide
    have counts : inner.count x = lettersAll x args := by
      rw [lettersAll_eq all, ← count_mark marks.2.2]
      rcases whole with trimmed | same
      · rw [← trimmed, count_trimChars kept]
      · rw [same]
    have names : (((pathNames path).map String.ofList).map fun name => name.toList.count x).sum = path.count x := by
      rw [← count_pathNames kept path, List.map_map]
      simp [Function.comp_def]
    rw [letters, names, List.count_append, List.count_cons, List.count_append, counts]
    simp [List.count_cons, marks]
  member {front property object} first := by
    refine spelled_plain ?_ fun _ _ _ same => nomatch same
    have dot : ('.' == x) = false := by rcases kept with rfl | rfl <;> decide
    rw [letters, first.whole, String.toList_ofList, count_trimChars kept, List.count_append, List.count_cons, dot]
    simp
  optionalMember {front property object} first := by
    refine spelled_plain ?_ fun _ _ _ same => nomatch same
    have marks : ('.' == x) = false ∧ ('?' == x) = false := by rcases kept with rfl | rfl <;> decide
    rw [letters, first.whole, String.toList_ofList, count_trimChars kept, List.count_append, List.count_cons,
      List.count_cons, marks.1, marks.2]
    simp
  identifier text := by
    refine spelled_plain ?_ fun _ _ _ same => nomatch same
    rw [letters, String.toList_ofList]

end Spelling

end Axonyx.Core.Parser
