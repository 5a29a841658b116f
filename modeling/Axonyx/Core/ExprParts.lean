import Axonyx.Core.ExprMembers

/-! Lists, objects and calls: the commas between the parts that are printed are the ones the parser
cuts at, or what it reads is something else. -/
namespace Axonyx.Core.Printer

open Nesting Text Axonyx.Core.Parser

variable {F : Type} [Float64 F] {floatText : AxFloat F → String} {parseF64 : String → Option F} {line : Nat}

section Items

/-- The rules commas are looked for with. -/
def commaRules : Rules := escapeBlind ['(', '[', '{'] [')', ']', '}']

theorem splitTopLevel_eq (text : List Char) :
    splitTopLevel text ',' = (pieces commaRules ',' start text).map trimChars := rfl

theorem trim_blank (text : List Char) : trimChars (' ' :: text) = trimChars text := by
  rw [trimChars, trimChars, trimStart, trimStart, List.dropWhile_cons_of_pos (by decide)]

theorem count_printItems (items : List (AxExpr F)) :
    (joined ',' (printItems floatText items)).count ',' =
      ((printItems floatText items).map (List.count ',')).sum + (items.length - 1) := by
  rw [count_joined _ _ (by decide), if_pos rfl, printItems_length]

/-- Items that are read back were cut where the printer put the commas. -/
theorem items_exact {f : List Char → Parsed (AxExpr F)} (bounded : Bounded floatText parseF64 ',' f)
    {item : AxExpr F} {rest : List (AxExpr F)} (wf : WellFormedItems floatText parseF64 (item :: rest))
    (read : (splitTopLevel (joined ',' (printItems floatText (item :: rest))) ',').mapM f = .ok (item :: rest)) :
    Separable (printItems floatText (item :: rest)) ∧
      (printItems floatText (item :: rest)).mapM f = .ok (item :: rest) := by
  induction rest generalizing item with
  | nil =>
    obtain ⟨length, _⟩ := mapM_bounded bounded read wf
    rw [splitTopLevel_eq, List.length_map] at length
    obtain ⟨piece, single⟩ := List.length_eq_one_iff.mp length.symm
    have whole := @intercalate_pieces commaRules ',' start (print floatText item)
    change pieces commaRules ',' start (print floatText item) = [piece] at single
    rw [single, List.intercalate_singleton] at whole
    refine ⟨pieces_single single, ?_⟩
    change ((pieces commaRules ',' start (print floatText item)).map trimChars).mapM f = _ at read
    rw [single, whole, List.map_singleton, (firm_print wf.1).trim] at read
    exact read
  | cons next more ih =>
    obtain ⟨first, later, shape⟩ := List.exists_cons_of_ne_nil
      (@pieces_ne_nil commaRules ',' start (joined ',' (printItems floatText (item :: next :: more))))
    rw [splitTopLevel_eq, shape, List.map_cons, List.mapM_cons] at read
    obtain ⟨front, here, others⟩ := Outcome.bind_ok.mp read
    obtain ⟨behind, there, last⟩ := Outcome.bind_ok.mp others
    obtain ⟨rfl, rfl⟩ := List.cons.inj (Except.ok.inj last)
    have text : joined ',' (printItems floatText (front :: next :: more)) =
        print floatText front ++ ',' :: ' ' :: joined ',' (printItems floatText (next :: more)) := rfl
    have least := (bounded _ front here wf.1).trans (count_trim first ',')
    obtain ⟨length, sums⟩ := mapM_bounded bounded there wf.2
    have trimmed : ((later.map trimChars).map (List.count ',')).sum ≤ (later.map (List.count ',')).sum := by
      rw [List.map_map]
      exact List.sum_le_sum fun piece _ => count_trim piece ','
    have enough : (joined ',' (printItems floatText (next :: more))).count ',' + 1 ≤
        (later.map (List.count ',')).sum + later.length := by
      rw [count_printItems]
      rw [List.length_map] at length
      rw [List.length_cons] at length ⊢
      omega
    rw [text] at shape
    obtain ⟨rfl, free, back, second, third, rfl, tail⟩ :=
      pieces_step (by decide) (by decide) shape least enough
    have inner : (splitTopLevel (joined ',' (printItems floatText (next :: more))) ',').mapM f = .ok (next :: more) := by
      rw [splitTopLevel_eq, tail, List.map_cons]
      rwa [List.map_cons, trim_blank] at there
    obtain ⟨apart, items⟩ := ih wf.2 inner
    refine ⟨⟨free, back, apart⟩, ?_⟩
    rw [(firm_print wf.1).trim] at here
    change (print floatText front :: printItems floatText (next :: more)).mapM f = _
    rw [List.mapM_cons, here, items]
    rfl

/-- The items of a list or a call are read one by one where the commas part them. -/
theorem items_read {f : List Char → Parsed (AxExpr F)} {item : AxExpr F} {rest : List (AxExpr F)}
    (wf : WellFormedItems floatText parseF64 (item :: rest)) (separable : Separable (printItems floatText (item :: rest))) :
    (splitTopLevel (joined ',' (printItems floatText (item :: rest))) ',').mapM f =
      (printItems floatText (item :: rest)).mapM f := by
  have firm : ∀ items : List (AxExpr F), WellFormedItems floatText parseF64 items →
      ((printItems floatText items).map (' ' :: ·)).map trimChars = printItems floatText items := by
    intro items
    induction items with
    | nil => exact fun _ => rfl
    | cons first others ih =>
      intro valid
      rw [printItems, List.map_cons, List.map_cons, trim_blank_start (firm_print valid.1), ih valid.2]
  have parts := @pieces_joined commaRules ',' (by decide) (by decide) (by decide) _ _ separable
  rw [splitTopLevel_eq, printItems, parts, List.map_cons, (firm_print wf.1).trim, firm rest wf.2]

theorem firm_joined {parts : List (List Char)} (firm : ∀ part ∈ parts, Firm part) (present : parts ≠ []) :
    Firm (joined ',' parts) := by
  induction parts with
  | nil => exact absurd rfl present
  | cons part rest ih =>
    cases rest with
    | nil => exact firm part List.mem_cons_self
    | cons next rest =>
      have later := ih (fun other member => firm other (List.mem_cons_of_mem part member)) (List.cons_ne_nil next rest)
      exact (firm part List.mem_cons_self).around later [',', ' ']

theorem firm_items {items : List (AxExpr F)} (wf : WellFormedItems floatText parseF64 items) :
    ∀ part ∈ printItems floatText items, Firm part := by
  induction items with
  | nil => simp [printItems]
  | cons item rest ih =>
    intro part member
    rcases List.mem_cons.mp member with rfl | later
    · exact firm_print wf.1
    · exact ih wf.2 part later

theorem mapM_congr_mem {α β ε : Type} {f g : α → Except ε β} {list : List α} (same : ∀ x ∈ list, f x = g x) :
    list.mapM f = list.mapM g := by
  induction list with
  | nil => rfl
  | cons x rest ih =>
    rw [List.mapM_cons, List.mapM_cons, same x List.mem_cons_self,
      ih fun y member => same y (List.mem_cons_of_mem x member)]

/-- The items of a list or a call come back where the commas part them and each comes back. -/
theorem items_iff {f : List Char → Parsed (AxExpr F)} (bounded : Bounded floatText parseF64 ',' f)
    {items : List (AxExpr F)} (wf : WellFormedItems floatText parseF64 items) (present : items ≠ []) :
    (splitTopLevel (joined ',' (printItems floatText items)) ',').mapM f = .ok items ↔
      Separable (printItems floatText items) ∧ (printItems floatText items).mapM f = .ok items := by
  obtain ⟨item, rest, rfl⟩ := List.exists_cons_of_ne_nil present
  constructor
  · exact items_exact bounded wf
  · rintro ⟨separable, read⟩
    rw [items_read wf separable, read]

end Items

section Lists

/-- A text with a bracket that starts with no quote is a list, an object, a call or a member. -/
theorem forms_bracket {text : List Char} {c : Char} (head : text.head? ≠ some '"' ∧ text.head? ≠ some '\'')
    (member : c ∈ text) (bracket : c ∈ ['(', '[', '{']) (expr primary : List Char → Parsed (AxExpr F)) :
    parseForms line expr primary text =
      if text.head? = some '[' ∨ text.getLast? = some ']' then parseListExpr line expr text
      else if text.head? = some '{' ∨ text.getLast? = some '}' then parseObjectExpr line expr text
      else match (if text.getLast? = some ')' then findCallOpen text else none) with
        | some (path, behind) => parseCall line expr text path behind
        | none =>
          if text.contains '.' then parseMemberExpr line primary text
          else return .identifier (.ofList text) := by
  have word (value : String) (off : value.toList.all fun d => d ∉ ['(', '[', '{']) : text ≠ value.toList := by
    rintro rfl
    have here := List.all_eq_true.mp off c member
    simp only [decide_eq_true_eq] at here
    exact here bracket
  have other : ∀ d ∈ ['(', '[', '{'], d.isDigit = false ∧ d ≠ '+' ∧ d ≠ '-' := by decide
  have isTrue := word "true" (by decide)
  have isFalse := word "false" (by decide)
  rw [parseForms, parseQuotedString_none head]
  change (if text = "true".toList then _ else _) = _
  simp only [if_neg isTrue, if_neg isFalse, parseI64_none member (other c bracket)]
  all_goals rfl

theorem list_form {items : List (AxExpr F)} (wf : WellFormed floatText parseF64 (.list items)) :
    (parseBinaryExpr parseF64 line (print floatText (.list items)) 0 : Parsed (AxExpr F)) =
      parseListExpr line (parseExpr parseF64 line) (print floatText (.list items)) := by
  have level := level_print tame_nesting (.list items) wf
  have firm := firm_print wf
  have pair : nestingRules.Pair '[' ']' := by constructor <;> decide
  have parts := level_joined tame_nesting (level_items tame_nesting items wf)
  have none : candidates (print floatText (.list items)) = [] := by
    rw [candidates_eq]
    exact found_hidden (Hidden.group parts pair) [] []
  have literal : (parseNumericLiteral parseF64 (print floatText (.list items)) line :
      Option (Parsed (AxExpr F))) = Option.none := numeric_none List.mem_cons_self (by decide)
  have bracket : '[' ∈ print floatText (.list items) := List.mem_cons_self
  have last : (print floatText (.list items)).getLast? = some ']' := last_wrapped _ _ _
  have brackets : (escapeAware ['['] [']']).Pair '[' ']' := by constructor <;> decide
  have wraps : outerBracketsWrap (print floatText (.list items)) = true := by
    have inner := level_joined tame_brackets (level_items tame_brackets items wf)
    rw [outerBracketsWrap, print, wraps_group inner brackets]
    rfl
  have index : splitTrailingIndex line (print floatText (.list items)) = .ok Option.none := by
    unfold splitTrailingIndex
    dsimp only
    rw [firm.trim, if_neg (not_not.mpr last), if_pos ⟨rfl, wraps⟩]
  rw [binary_unary none, unary_primary firm (by simp [print]) literal,
    primary_forms firm (not_wrapped firm (print_bare wf)) index,
    forms_bracket (by simp [print]) bracket (by decide), if_pos (.inl rfl)]

theorem read_list {items : List (AxExpr F)} (wf : WellFormed floatText parseF64 (.list items)) :
    parseBinaryExpr parseF64 line (print floatText (.list items)) 0 = .ok (.list items) ↔
      Separable (printItems floatText items) ∧
        (printItems floatText items).mapM (parseExpr parseF64 line) = .ok items := by
  have last : (print floatText (.list items)).getLast? = some ']' := last_wrapped _ _ _
  have inner : (print floatText (.list items)).tail.dropLast = joined ',' (printItems floatText items) := by
    rw [print, List.tail_cons, List.dropLast_concat]
  rw [list_form wf, parseListExpr, if_neg (by simp [last]; rfl), inner]
  dsimp only
  cases items with
  | nil => exact ⟨fun _ => ⟨trivial, rfl⟩, fun _ => rfl⟩
  | cons item rest =>
    have firm := firm_joined (firm_items wf) (List.cons_ne_nil _ _)
    have guarded : Bounded floatText parseF64 ',' fun part =>
        if part.isEmpty then invalid line ("empty item in list literal " ++ shown (print floatText (.list (item :: rest))))
        else parseExpr parseF64 line part := by
      intro part value here valid
      dsimp only at here
      split at here
      · cases here
      · exact parseExpr_bounded floatText (.inl rfl) part value here valid
    have same : (printItems floatText (item :: rest)).mapM (fun part =>
        if part.isEmpty then invalid line ("empty item in list literal " ++ shown (print floatText (.list (item :: rest))))
        else parseExpr parseF64 line part) = (printItems floatText (item :: rest)).mapM (parseExpr parseF64 line) := by
      apply mapM_congr_mem
      intro part member
      rw [(firm_items wf part member).isEmpty]
      rfl
    rw [firm.trim, firm.isEmpty, if_neg Bool.false_ne_true, ← same, ← items_iff guarded wf (List.cons_ne_nil _ _)]
    constructor
    · intro read
      obtain ⟨values, here, done⟩ := Outcome.bind_ok.mp read
      rw [here, AxExpr.list.inj (Except.ok.inj done)]
    · intro read
      rw [read]
      rfl

end Lists

section Calls

theorem dotted_cons (name : String) {rest : List String} (present : rest ≠ []) :
    dotted (name :: rest) = name.toList ++ '.' :: dotted rest := by
  obtain ⟨next, more, rfl⟩ := List.exists_cons_of_ne_nil present
  simp [dotted, join]

/-- The word as a name of a path but the first is an operator. -/
theorem found_dotted {path : List String} (present : path ≠ [])
    (valid : ∀ name ∈ path, isValidObjectKey name.toList = true) {before after : List Char}
    (left : before.head?.any isIdentifierChar = false) (right : after.head?.any isIdentifierChar = false) :
    found before (dotted path) after = [] ↔
      (operatorHasLeftOperand before = true → path.head? ≠ some "in") ∧ "in" ∉ path.tail := by
  induction path generalizing before with
  | nil => exact absurd rfl present
  | cons name rest ih =>
    have chars := (name_chars (valid name List.mem_cons_self)).2
    have same : name.toList = wordOperator ↔ name = "in" := by rw [wordOperator, String.toList_inj]
    cases rest with
    | nil =>
      change found before name.toList after = [] ↔ _
      rw [found_name chars left right]
      simp only [same]
      by_cases word : name = "in" <;> by_cases operand : operatorHasLeftOperand before = true <;>
        simp [word, operand]
    | cons next more =>
      have others := List.cons_ne_nil next more
      have dot : found (name.toList.reverse ++ before) ['.'] (dotted (next :: more) ++ after) = [] := by
        rw [found_plain (by decide), candidate_free (by decide) (by decide)]
        rfl
      have later := @ih others (fun other member => valid other (List.mem_cons_of_mem name member))
        ('.' :: (name.toList.reverse ++ before)) (by rfl)
      have operand : operatorHasLeftOperand ('.' :: (name.toList.reverse ++ before)) = true := rfl
      have text : dotted (name :: next :: more) = name.toList ++ (['.'] ++ dotted (next :: more)) :=
        dotted_cons name others
      rw [text, found_append (level_name tame_nesting chars), found_name chars left (by rfl),
        found_append level_point, dot, List.nil_append, List.append_eq_nil_iff]
      change _ ∧ found ('.' :: (name.toList.reverse ++ before)) (dotted (next :: more)) after = [] ↔ _
      rw [later, operand]
      have missing : "in" ∉ (name :: next :: more).tail ↔ next ≠ "in" ∧ "in" ∉ more := by
        rw [List.tail_cons, List.mem_cons, not_or, ne_eq, eq_comm]
      rw [missing]
      simp only [same]
      by_cases word : name = "in" <;> by_cases operand : operatorHasLeftOperand before = true <;>
        simp [word, operand]

theorem candidates_call {path : List String} {args : List (AxExpr F)}
    (wf : WellFormed floatText parseF64 (.call path args)) :
    candidates (print floatText (.call path args)) = [] ↔ "in" ∉ path.tail := by
  have pair : nestingRules.Pair '(' ')' := by constructor <;> decide
  have parts := level_joined tame_nesting (level_items tame_nesting args wf.2.2)
  have level : Level nestingRules (dotted path) := by
    apply level_plain
    intro c member
    rcases dotted_chars wf.2.1 c member with legal | rfl
    · exact tame_nesting.identifier legal
    · decide
  have hidden := found_hidden (Hidden.group parts pair)
  have text : print floatText (.call path args) = dotted path ++ '(' :: (joined ',' (printItems floatText args) ++ [')']) := rfl
  rw [candidates_eq, text, found_append level, hidden, List.append_nil, found_dotted wf.1 wf.2.1 rfl rfl]
  simp [left_none]

/-- The path of a call ends at its bracket. -/
theorem findCallOpen_print {path : List String} (valid : ∀ name ∈ path, isValidObjectKey name.toList = true)
    (args : List Char) : findCallOpen (dotted path ++ enclose args) = some (dotted path, enclose args) := by
  have off : ∀ c ∈ dotted path, c ∉ ['"', '\'', '('] := by
    intro c member
    rcases dotted_chars valid c member with legal | rfl
    · exact identifier_not_mem legal (by decide)
    · decide
  have plain : ∀ c ∈ dotted path, (escapeBlind [] []).plain c = true := by
    intro c member
    have other := off c member
    simp only [List.mem_cons, List.not_mem_nil, or_false, not_or] at other
    simp [Rules.plain, escapeBlind, other]
  apply findTop_append (level_plain plain).run rfl (by decide) rfl
  intro place member
  obtain ⟨whole, c, rest, shape, _⟩ := mem_tops member
  rw [List.reverse_nil, List.nil_append] at whole
  have inside : c ∈ dotted path := by
    rw [← whole, shape]
    simp
  have other : c ≠ '(' := fun same => off c inside (by simp [same])
  rw [shape]
  simp [other]

theorem splitOn_dotted {path : List String} (present : path ≠ [])
    (valid : ∀ name ∈ path, isValidObjectKey name.toList = true) :
    (dotted path).splitOn '.' = path.map String.toList := by
  have joined : dotted path = ['.'].intercalate (path.map String.toList) := by
    induction path with
    | nil => rfl
    | cons name rest ih =>
      cases rest with
      | nil => simp [dotted, join]
      | cons next more =>
        have later := ih (List.cons_ne_nil next more) fun other member => valid other (List.mem_cons_of_mem name member)
        rw [dotted_cons name (List.cons_ne_nil next more), later, List.map_cons, List.map_cons, List.map_cons,
          List.intercalate_cons_cons, List.append_assoc]
        rfl
  rw [joined, List.splitOn_intercalate]
  · intro text member
    obtain ⟨name, here, rfl⟩ := List.mem_map.mp member
    exact fun dot => absurd ((name_chars (valid name here)).2 '.' dot) (by decide)
  · simpa using present

theorem call_path {path : List String} (present : path ≠ [])
    (valid : ∀ name ∈ path, isValidObjectKey name.toList = true) :
    (((trimChars (dotted path)).splitOn '.').map trimChars).filter (fun segment => !segment.isEmpty) =
      path.map String.toList := by
  rw [(firm_dotted present valid).trim, splitOn_dotted present valid]
  have trimmed : (path.map String.toList).map trimChars = path.map String.toList := by
    rw [List.map_map]
    apply List.map_congr_left
    intro name member
    exact (firm_name (valid name member)).trim
  rw [trimmed, List.filter_eq_self]
  intro text member
  obtain ⟨name, here, rfl⟩ := List.mem_map.mp member
  rw [(firm_name (valid name here)).isEmpty]
  rfl

theorem call_form {path : List String} {args : List (AxExpr F)}
    (wf : WellFormed floatText parseF64 (.call path args)) (wordless : "in" ∉ path.tail) :
    (parseBinaryExpr parseF64 line (print floatText (.call path args)) 0 : Parsed (AxExpr F)) =
      parseCall line (parseExpr parseF64 line) (print floatText (.call path args)) (dotted path)
        (enclose (joined ',' (printItems floatText args))) := by
  have firm := firm_print wf
  have text : print floatText (.call path args) = dotted path ++ enclose (joined ',' (printItems floatText args)) := rfl
  obtain ⟨c, rest, shape, _⟩ := (firm_dotted wf.1 wf.2.1).head
  have head : (print floatText (.call path args)).head? = some c := by
    rw [text, shape]
    rfl
  have first : isIdentifierChar c = true ∨ c = '.' := dotted_chars wf.2.1 c (by simp [shape])
  have other (d : Char) (off : isIdentifierChar d = false ∧ d ≠ '.') :
      (print floatText (.call path args)).head? ≠ some d := by
    rw [head]
    intro same
    obtain rfl := Option.some.inj same
    rcases first with legal | rfl
    · exact identifier_ne legal off.1 rfl
    · exact off.2 rfl
  have last : (print floatText (.call path args)).getLast? = some ')' := by
    rw [text, enclose, ← List.cons_append, ← List.append_assoc, List.getLast?_concat]
  have member : '(' ∈ print floatText (.call path args) := by
    rw [text]
    simp [enclose]
  have literal : (parseNumericLiteral parseF64 (print floatText (.call path args)) line :
      Option (Parsed (AxExpr F))) = none := numeric_none member (by decide)
  have brackets : ¬((print floatText (.call path args)).head? = some '[' ∨
      (print floatText (.call path args)).getLast? = some ']') :=
    not_or.mpr ⟨other '[' (by decide), by rw [last]; decide⟩
  have braces : ¬((print floatText (.call path args)).head? = some '{' ∨
      (print floatText (.call path args)).getLast? = some '}') :=
    not_or.mpr ⟨other '{' (by decide), by rw [last]; decide⟩
  rw [binary_unary ((candidates_call wf).mpr wordless),
    unary_primary firm ⟨other '!' (by decide), other '-' (by decide)⟩ literal,
    primary_forms firm (not_wrapped firm (print_bare wf)) (without_index firm (by rw [last]; decide)),
    forms_bracket ⟨other '"' (by decide), other '\'' (by decide)⟩ member (by decide), if_neg brackets, if_neg braces,
    if_pos last, text, findCallOpen_print wf.2.1]

theorem read_call {path : List String} {args : List (AxExpr F)}
    (wf : WellFormed floatText parseF64 (.call path args)) :
    parseBinaryExpr parseF64 line (print floatText (.call path args)) 0 = .ok (.call path args) ↔
      "in" ∉ path.tail ∧ Separable (printItems floatText args) ∧
        (printItems floatText args).mapM (parseExpr parseF64 line) = .ok args := by
  by_cases wordless : "in" ∉ path.tail
  · have inner : (enclose (joined ',' (printItems floatText args))).tail.dropLast =
        joined ',' (printItems floatText args) := by
      rw [enclose, List.tail_cons, List.dropLast_concat]
    have names : (path.map String.toList).map String.ofList = path := by simp
    have some : (path.map String.toList).isEmpty = false := by
      simpa [List.isEmpty_eq_false_iff] using wf.1
    rw [call_form wf wordless, parseCall]
    dsimp only
    rw [call_path wf.1 wf.2.1, inner, some, if_neg Bool.false_ne_true, names]
    simp only [wordless, not_false_eq_true, true_and]
    cases args with
    | nil => exact ⟨fun _ => ⟨trivial, rfl⟩, fun _ => rfl⟩
    | cons item rest =>
      have firm := firm_joined (firm_items wf.2.2) (List.cons_ne_nil _ _)
      have trimmed : Bounded floatText parseF64 ',' fun part => parseExpr parseF64 line (trimChars part) := by
        intro part value here valid
        exact (parseExpr_bounded floatText (.inl rfl) _ value here valid).trans (count_trim part ',')
      have same : (printItems floatText (item :: rest)).mapM (fun part => parseExpr parseF64 line (trimChars part)) =
          (printItems floatText (item :: rest)).mapM (parseExpr parseF64 line) := by
        apply mapM_congr_mem
        intro part member
        rw [(firm_items wf.2.2 part member).trim]
      rw [firm.trim, firm.isEmpty, if_neg Bool.false_ne_true, ← same, ← items_iff trimmed wf.2.2 (List.cons_ne_nil _ _)]
      constructor
      · intro read
        obtain ⟨values, here, done⟩ := Outcome.bind_ok.mp read
        rw [here, (AxExpr.call.inj (Except.ok.inj done)).2]
      · intro read
        rw [read]
        rfl
  · simp only [wordless, false_and, iff_false]
    intro read
    have met := mt (candidates_call wf).mp wordless
    obtain ⟨_, _, _, same⟩ := binary_of_candidates met read
    cases same

end Calls

section Objects

variable {f : List Char → Parsed (AxExpr F)}

theorem insertField_last {α : Type} {fields : List (String × α)} {key : String} (value : α)
    (below : ∀ field ∈ fields, field.1 < key) : insertField fields key value = fields ++ [(key, value)] := by
  induction fields with
  | nil => rfl
  | cons field rest ih =>
    obtain ⟨other, old⟩ := field
    have here : other < key := below (other, old) List.mem_cons_self
    rw [insertField, if_neg (String.lt_asymm here), if_neg (fun same => String.lt_irrefl _ (same ▸ here)),
      ih fun field member => below field (List.mem_cons_of_mem _ member)]
    rfl

theorem lookup_absent {α : Type} {fields : List (String × α)} {key : String}
    (below : ∀ field ∈ fields, field.1 < key) : Core.lookup fields key = none := by
  rw [Core.lookup, Option.map_eq_none_iff]
  apply List.find?_eq_none.mpr
  intro field member same
  exact String.lt_irrefl key (beq_iff_eq.mp same ▸ below field member)

/-- The colon behind the key. -/
theorem findTopLevelObjectColon_key (key : String) (rest : List Char) :
    findTopLevelObjectColon (quoted key ++ ':' :: rest) = some (quoted key, ':' :: rest) := by
  have hidden := hidden_quoted tame_nesting key
  apply findTop_append hidden.level.run rfl (by decide) rfl
  intro place member
  rw [hidden.silent] at member
  cases member

theorem parseKey_quoted (key : String) : parseKey line (quoted key) = .ok key := by
  rw [parseKey, parseQuotedString_quoted]
  rfl

/-- One field is read as its key with what its text is read as. -/
theorem parseFields_field {comma : Bool} (blank : comma = false) (key : String) {value : AxExpr F}
    (wf : WellFormed floatText parseF64 value) {parts : List (List Char)} {fields : List (String × AxExpr F)}
    (below : ∀ field ∈ fields, field.1 < key) :
    parseFields line f comma (fieldText floatText (key, value) :: parts) fields = (do
      let value ← f (print floatText value)
      parseFields line f comma parts (fields ++ [(key, value)])) := by
  have part : fieldText floatText (key, value) = quoted key ++ ':' :: (' ' :: print floatText value) := rfl
  have trimmed : trimChars (quoted key) = quoted key := (firm_quoted key).trim
  rw [parseFields, blank, Bool.and_false, if_neg Bool.false_ne_true, part, findTopLevelObjectColon_key]
  simp only [List.tail_cons, trimmed, trim_blank_start (firm_print wf), (firm_quoted key).isEmpty,
    (firm_print wf).isEmpty, Bool.or_self, parseKey_quoted]
  change (if (Core.lookup fields key).isSome then _ else _) = _
  rw [lookup_absent below]
  simp only [Option.isSome_none, insertField_last _ below]
  rfl

/-- The fields read so far stay. -/
theorem parseFields_keeps {comma : Bool} {parts : List (List Char)} {fields final : List (String × AxExpr F)}
    (read : parseFields line f comma parts fields = .ok final) : ∀ field ∈ fields, field ∈ final := by
  induction parts generalizing fields with
  | nil =>
    obtain rfl := Except.ok.inj read
    exact fun field member => member
  | cons part rest ih =>
    unfold parseFields at read
    split at read
    · obtain rfl := Except.ok.inj read
      exact fun field member => member
    · split at read
      · cases read
      · dsimp only at read
        split at read
        · cases read
        · obtain ⟨key, _, next⟩ := Outcome.bind_ok.mp read
          split at next
          · cases next
          · next fresh =>
            obtain ⟨value, _, later⟩ := Outcome.bind_ok.mp next
            have perm := insertField_perm value (absent_of_lookup (by simpa using fresh))
            intro field member
            exact ih later field (perm.mem_iff.mpr (List.mem_cons_of_mem _ member))

theorem firm_fieldText {field : String × AxExpr F} (wf : WellFormed floatText parseF64 field.2) :
    Firm (fieldText floatText field) := (firm_quoted field.1).around (firm_print wf) [':', ' ']

theorem trimEnd_solid (a b : List Char) {c : Char} (solid : isWhitespace c = false) :
    trimEnd (a ++ c :: b) = a ++ c :: trimEnd b := by
  have back : (a ++ c :: b).reverse = b.reverse ++ c :: a.reverse := by simp
  rw [trimEnd, back, List.dropWhile_append, trimEnd]
  split
  · next none =>
    rw [List.dropWhile_cons_of_neg (by simp [solid]), List.isEmpty_iff.mp none]
    simp
  · simp

theorem trimStart_quote (text : List Char) : trimStart ('"' :: text) = '"' :: text :=
  List.dropWhile_cons_of_neg (by decide)

/-- The colon of a part that starts with a key is the one behind the key. -/
theorem colon_key {key : String} {part more rest : List Char} (whole : part ++ ',' :: more = quoted key ++ ':' :: rest)
    {before after : List Char} (colon : findTopLevelObjectColon (trimChars part) = some (before, after)) :
    before = quoted key := by
  rcases List.append_eq_append_iff.mp whole with ⟨c, shape, split⟩ | ⟨c, rfl, split⟩
  · -- The part ends inside the key, and nothing of a literal is outside it.
    obtain ⟨behind, longer⟩ : trimChars part <+: quoted key := by
      have start : trimStart part = part := by
        cases part with
        | nil => rfl
        | cons d others =>
          obtain rfl : '"' = d := (List.cons.inj shape).1
          exact trimStart_quote others
      rw [trimChars, start]
      exact (trimEnd_front part).trans ⟨c, shape.symm⟩
    have silent := (hidden_quoted tame_nesting key).silent []
    rw [← longer, tops_append, List.append_eq_nil_iff, List.map_eq_nil_iff] at silent
    obtain ⟨place, first, _⟩ := Option.map_eq_some_iff.mp colon
    have member := List.mem_of_find?_eq_some first
    rw [silent.1] at member
    cases member
  · cases c with
    | nil => cases (List.cons.inj split).1
    | cons d later =>
      obtain rfl : ':' = d := (List.cons.inj split).1
      have trimmed : trimChars (quoted key ++ ':' :: later) = quoted key ++ ':' :: trimEnd later := by
        rw [trimChars, quoted, List.cons_append, trimStart_quote, ← List.cons_append,
          trimEnd_solid _ _ (by decide)]
      rw [trimmed, findTopLevelObjectColon_key] at colon
      exact (Prod.mk.inj (Option.some.inj colon)).1.symm

theorem below_of_sorted {acc rest : List (String × AxExpr F)} {field : String × AxExpr F}
    (sorted : ((acc ++ field :: rest).map Prod.fst).Pairwise (· < ·)) : ∀ other ∈ acc, other.1 < field.1 := by
  rw [List.map_append, List.pairwise_append] at sorted
  intro other member
  exact sorted.2.2 other.1 (List.mem_map_of_mem member) field.1 List.mem_cons_self

theorem keyed_unique {fields : List (String × AxExpr F)} (sorted : (fields.map Prod.fst).Pairwise (· < ·))
    {key : String} {a b : AxExpr F} (first : (key, a) ∈ fields) (second : (key, b) ∈ fields) : a = b := by
  induction fields with
  | nil => cases first
  | cons field rest ih =>
    rw [List.map_cons, List.pairwise_cons] at sorted
    have above (c : AxExpr F) (member : (key, c) ∈ rest) : field.1 < key :=
      sorted.1 key (List.mem_map.mpr ⟨(key, c), member, rfl⟩)
    rcases List.mem_cons.mp first with rfl | here <;> rcases List.mem_cons.mp second with same | there
    · exact (Prod.mk.inj same).2.symm
    · exact absurd (above b there) (String.lt_irrefl key)
    · subst same
      exact absurd (above a here) (String.lt_irrefl key)
    · exact ih sorted.2 here there

theorem fieldsCount_append (a b : List (String × AxExpr F)) :
    fieldsCount floatText ',' (a ++ b) = fieldsCount floatText ',' a + fieldsCount floatText ',' b := by
  rw [fieldsCount, List.map_append, List.sum_append]
  rfl

/-- The first part is read as the first field, which adds no commas. -/
theorem first_field (bounded : Bounded floatText parseF64 ',' f) {first more tail : List Char} {key : String}
    {value : AxExpr F} {parts : List (List Char)} {acc final : List (String × AxExpr F)}
    (whole : first ++ ',' :: more = quoted key ++ ':' :: tail) (below : ∀ other ∈ acc, other.1 < key)
    (member : (key, value) ∈ final) (sorted : (final.map Prod.fst).Pairwise (· < ·))
    (wf : WellFormed floatText parseF64 value)
    (read : parseFields line f false (trimChars first :: parts) acc = .ok final) :
    (fieldText floatText (key, value)).count ',' ≤ first.count ',' ∧
      parseFields line f false parts (acc ++ [(key, value)]) = .ok final := by
  rw [parseFields, Bool.and_false, if_neg Bool.false_ne_true] at read
  split at read
  · cases read
  · next before after colon =>
    obtain rfl := colon_key whole colon
    have trimmed : trimChars (quoted key) = quoted key := (firm_quoted key).trim
    have name : parseKey line (trimChars (quoted key)) = .ok key := by rw [trimmed, parseKey_quoted]
    dsimp only at read
    split at read
    · cases read
    · rw [name] at read
      obtain ⟨other, same, next⟩ := Outcome.bind_ok.mp read
      obtain rfl := Except.ok.inj same
      rw [lookup_absent below, if_neg (by simp)] at next
      obtain ⟨found, here, later⟩ := Outcome.bind_ok.mp next
      rw [insertField_last found below] at later
      obtain rfl := keyed_unique sorted member (parseFields_keeps later (key, found) (by simp))
      refine ⟨?_, later⟩
      exact (parseField_bounded (.inl rfl) bounded colon name here wf).trans (count_trim first ',')

/-- Fields that are read back were cut where the printer put the commas. -/
theorem fields_exact (bounded : Bounded floatText parseF64 ',' f) {field : String × AxExpr F}
    {rest acc : List (String × AxExpr F)} (wf : ∀ other ∈ acc ++ field :: rest, WellFormed floatText parseF64 other.2)
    (sorted : ((acc ++ field :: rest).map Prod.fst).Pairwise (· < ·))
    (read : parseFields line f false (splitTopLevel (joined ',' ((field :: rest).map (fieldText floatText))) ',') acc =
      .ok (acc ++ field :: rest)) :
    Separable ((field :: rest).map (fieldText floatText)) ∧
      ∀ other ∈ field :: rest, f (print floatText other.2) = .ok other.2 := by
  have below := below_of_sorted sorted
  have valid : WellFormed floatText parseF64 field.2 := wf field (by simp)
  have total := (parseFields_bounded (.inl rfl) bounded read wf).2.2.2 rfl
  induction rest generalizing field acc with
  | nil =>
    rw [splitTopLevel_eq, List.length_map, List.length_append] at total
    obtain ⟨piece, single⟩ := List.length_eq_one_iff.mp (Nat.add_left_cancel total).symm
    change pieces commaRules ',' start (fieldText floatText field) = [piece] at single
    have whole := @intercalate_pieces commaRules ',' start (fieldText floatText field)
    rw [single, List.intercalate_singleton] at whole
    change parseFields line f false ((pieces commaRules ',' start (fieldText floatText field)).map trimChars) acc = _ at read
    rw [single, whole, List.map_singleton, (firm_fieldText valid).trim,
      parseFields_field rfl field.1 valid below] at read
    obtain ⟨value, here, last⟩ := Outcome.bind_ok.mp read
    have same := List.append_cancel_left (Except.ok.inj last)
    have values : value = field.2 := (Prod.mk.inj (List.cons.inj same).1).2
    refine ⟨pieces_single single, fun other member => ?_⟩
    rw [List.mem_singleton.mp member, here, values]
  | cons next more ih =>
    obtain ⟨first, later, shape⟩ := List.exists_cons_of_ne_nil (@pieces_ne_nil commaRules ',' start
      (joined ',' ((field :: next :: more).map (fieldText floatText))))
    have text : joined ',' ((field :: next :: more).map (fieldText floatText)) =
        fieldText floatText field ++ ',' :: ' ' :: joined ',' ((next :: more).map (fieldText floatText)) := rfl
    have joint := @intercalate_pieces commaRules ',' start
      (joined ',' ((field :: next :: more).map (fieldText floatText)))
    rw [splitTopLevel_eq, shape, List.map_cons] at read
    rw [splitTopLevel_eq, shape, List.length_map, List.length_append, List.length_cons, List.length_cons,
      List.length_cons] at total
    obtain ⟨second, others, rfl⟩ : ∃ second others, later = second :: others :=
      List.exists_cons_of_length_pos (by omega)
    rw [shape, List.intercalate_cons_cons, List.append_assoc, List.singleton_append, text] at joint
    have key : fieldText floatText field ++ ',' :: ' ' :: joined ',' ((next :: more).map (fieldText floatText)) =
        quoted field.1 ++ ':' :: (' ' :: (print floatText field.2 ++
          ',' :: ' ' :: joined ',' ((next :: more).map (fieldText floatText)))) := by simp [fieldText]
    obtain ⟨least, behind⟩ := first_field bounded (joint.trans key) below (by simp) sorted valid read
    obtain ⟨_, counts, _⟩ := parseFields_bounded (.inl rfl) bounded behind wf
    have assoc : acc ++ field :: next :: more = (acc ++ [field]) ++ next :: more := by simp
    have trimmed : (((second :: others).map trimChars).map (List.count ',')).sum ≤
        ((second :: others).map (List.count ',')).sum := by
      rw [List.map_map]
      exact List.sum_le_sum fun piece _ => count_trim piece ','
    have enough : (joined ',' ((next :: more).map (fieldText floatText))).count ',' + 1 ≤
        ((second :: others).map (List.count ',')).sum + (second :: others).length := by
      have fields : fieldsCount floatText ',' (next :: more) =
        (((next :: more).map (fieldText floatText)).map (List.count ',')).sum := by
        rw [fieldsCount, List.map_map]
        rfl
      rw [assoc, fieldsCount_append] at counts
      rw [count_joined _ _ (by decide), if_pos rfl, ← fields, List.length_map]
      rw [List.length_cons] at total ⊢
      rw [List.length_cons]
      change fieldsCount floatText ',' (acc ++ [field]) + _ ≤ fieldsCount floatText ',' (acc ++ [field]) + _ at counts
      omega
    rw [text] at shape
    obtain ⟨rfl, free, back, third, fourth, same, tail⟩ :=
      pieces_step (by decide) (by decide) shape least enough
    have inner : parseFields line f false (splitTopLevel (joined ',' ((next :: more).map (fieldText floatText))) ',')
        (acc ++ [field]) = .ok ((acc ++ [field]) ++ next :: more) := by
      rw [splitTopLevel_eq, tail, ← assoc, List.map_cons]
      rw [same, List.map_cons, trim_blank] at behind
      exact behind
    rw [assoc] at wf sorted
    have final := (parseFields_bounded (.inl rfl) bounded inner wf).2.2.2 rfl
    obtain ⟨apart, items⟩ := ih wf sorted inner (below_of_sorted sorted) (wf next (by simp)) final
    refine ⟨⟨free, back, apart⟩, fun other member => ?_⟩
    rcases List.mem_cons.mp member with rfl | there
    · rw [(firm_fieldText valid).trim, parseFields_field rfl other.1 valid below] at read
      obtain ⟨value, here, last⟩ := Outcome.bind_ok.mp read
      have found : (other.1, value) ∈ (acc ++ [other]) ++ next :: more :=
        assoc ▸ parseFields_keeps last (other.1, value) (by simp)
      rw [here, keyed_unique sorted found (show (other.1, other.2) ∈ _ by simp)]
    · exact items other there

/-- Fields that come back one by one come back as they are. -/
theorem fields_read {comma : Bool} (blank : comma = false) {fields acc : List (String × AxExpr F)}
    (wf : ∀ other ∈ fields, WellFormed floatText parseF64 other.2)
    (sorted : ((acc ++ fields).map Prod.fst).Pairwise (· < ·))
    (each : ∀ other ∈ fields, f (print floatText other.2) = .ok other.2) :
    parseFields line f comma (fields.map (fieldText floatText)) acc = .ok (acc ++ fields) := by
  induction fields generalizing acc with
  | nil =>
    rw [List.append_nil]
    rfl
  | cons field rest ih =>
    have here := each field List.mem_cons_self
    have assoc : acc ++ field :: rest = (acc ++ [field]) ++ rest := by simp
    rw [List.map_cons, parseFields_field blank field.1 (wf field List.mem_cons_self) (below_of_sorted sorted), here]
    change parseFields line f comma (rest.map (fieldText floatText)) (acc ++ [field]) = _
    rw [assoc] at sorted ⊢
    exact ih (fun other member => wf other (List.mem_cons_of_mem field member)) sorted
      fun other member => each other (List.mem_cons_of_mem field member)

theorem splitTopLevel_fields {field : String × AxExpr F} {rest : List (String × AxExpr F)}
    (wf : ∀ other ∈ field :: rest, WellFormed floatText parseF64 other.2)
    (separable : Separable ((field :: rest).map (fieldText floatText))) :
    splitTopLevel (joined ',' ((field :: rest).map (fieldText floatText))) ',' =
      (field :: rest).map (fieldText floatText) := by
  have parts := @pieces_joined commaRules ',' (by decide) (by decide) (by decide) _ _ separable
  have firm : ((rest.map (fieldText floatText)).map (' ' :: ·)).map trimChars = rest.map (fieldText floatText) := by
    rw [List.map_map, List.map_map]
    apply List.map_congr_left
    intro other member
    exact trim_blank_start (firm_fieldText (wf other (List.mem_cons_of_mem field member)))
  rw [splitTopLevel_eq, List.map_cons, parts, List.map_cons, (firm_fieldText (wf field List.mem_cons_self)).trim, firm]

/-- How the text of an expression ends. -/
theorem print_last : ∀ {expr : AxExpr F}, WellFormed floatText parseF64 expr →
    (print floatText expr).getLast? ≠ some ',' := by
  have operandLast {expr : AxExpr F} (wf : WellFormed floatText parseF64 expr) (front : List Char) :
      (front ++ operand floatText expr).getLast? ≠ some ',' := by
    obtain ⟨c, rest, shape, _, other⟩ := operand_last wf
    have ends : operand floatText expr = rest.reverse ++ [c] := by
      rw [← List.reverse_reverse (operand floatText expr), shape, List.reverse_cons]
    rw [ends, ← List.append_assoc, List.getLast?_concat]
    rintro same
    obtain rfl := Option.some.inj same
    exact other (by decide)
  have nameLast {name : String} (valid : isValidObjectKey name.toList = true) (front : List Char) :
      (front ++ name.toList).getLast? ≠ some ',' := by
    have chars := name_chars valid
    rw [List.getLast?_append, List.getLast?_eq_some_getLast chars.1]
    intro same
    exact identifier_ne (chars.2 _ (List.getLast_mem chars.1)) (by decide) (Option.some.inj same)
  intro expr wf
  cases expr with
  | list items => rw [print, last_wrapped]; decide
  | object fields => rw [print, last_wrapped]; decide
  | unary op expr => exact operandLast (show WellFormed floatText parseF64 expr from wf) [opSign op]
  | binary op left right =>
    have text : print floatText (.binary op left right) =
        (operand floatText left ++ ' ' :: (opToken op ++ [' '])) ++ operand floatText right := by
      simp [print, operand]
    rw [text]
    exact operandLast wf.2 _
  | index object index =>
    rw [print, ← List.cons_append, ← List.append_assoc, List.getLast?_concat]
    decide
  | member object property =>
    rw [print, List.append_cons]
    exact nameLast wf.2 _
  | optionalMember object property =>
    rw [print, List.append_cons, List.append_cons]
    exact nameLast wf.2 _
  | call path args =>
    rw [print, enclose, ← List.cons_append, ← List.append_assoc, List.getLast?_concat]
    decide
  | string value => exact operandLast wf []
  | number value => exact operandLast wf []
  | float value => exact operandLast wf []
  | bool value => exact operandLast wf []
  | identifier name => exact operandLast wf []

theorem joined_last {parts : List (List Char)} {c : Char} (present : parts ≠ [])
    (firm : ∀ part ∈ parts, part ≠ [] ∧ part.getLast? ≠ some c) : (joined ',' parts).getLast? ≠ some c := by
  induction parts with
  | nil => exact absurd rfl present
  | cons part rest ih =>
    cases rest with
    | nil => exact (firm part List.mem_cons_self).2
    | cons next rest =>
      have later := ih (List.cons_ne_nil next rest) fun other member => firm other (List.mem_cons_of_mem part member)
      have some : joined ',' (next :: rest) ≠ [] := by
        cases rest with
        | nil => exact (firm next (by simp)).1
        | cons _ _ => simp [joined]
      rw [joined, List.append_cons, List.append_cons, List.getLast?_append_of_ne_nil _ some]
      · exact later
      · exact List.cons_ne_nil next rest

theorem object_form {fields : List (String × AxExpr F)} (wf : WellFormed floatText parseF64 (.object fields)) :
    (parseBinaryExpr parseF64 line (print floatText (.object fields)) 0 : Parsed (AxExpr F)) =
      parseObjectExpr line (parseExpr parseF64 line) (print floatText (.object fields)) := by
  have firm := firm_print wf
  have pair : nestingRules.Pair '{' '}' := by constructor <;> decide
  have parts := level_joined tame_nesting (level_fields tame_nesting fields wf.2)
  have none : candidates (print floatText (.object fields)) = [] := by
    rw [candidates_eq]
    exact found_hidden (Hidden.group parts pair) [] []
  have literal : (parseNumericLiteral parseF64 (print floatText (.object fields)) line :
      Option (Parsed (AxExpr F))) = Option.none := numeric_none List.mem_cons_self (by decide)
  have bracket : '{' ∈ print floatText (.object fields) := List.mem_cons_self
  have last : (print floatText (.object fields)).getLast? = some '}' := last_wrapped _ _ _
  have list : ¬((print floatText (.object fields)).head? = some '[' ∨
      (print floatText (.object fields)).getLast? = some ']') := by
    rw [last]
    exact not_or.mpr ⟨by simp [print], by decide⟩
  rw [binary_unary none, unary_primary firm (by simp [print]) literal,
    primary_forms firm (not_wrapped firm (print_bare wf)) (without_index firm (by rw [last]; decide)),
    forms_bracket (by simp [print]) bracket (by decide), if_neg list, if_pos (.inl rfl)]

theorem read_object {fields : List (String × AxExpr F)} (wf : WellFormed floatText parseF64 (.object fields)) :
    parseBinaryExpr parseF64 line (print floatText (.object fields)) 0 = .ok (.object fields) ↔
      Separable (printFields floatText fields) ∧
        ∀ field ∈ fields, parseExpr parseF64 line (print floatText field.2) = .ok field.2 := by
  have last : (print floatText (.object fields)).getLast? = some '}' := last_wrapped _ _ _
  have inner : (print floatText (.object fields)).tail.dropLast = joined ',' (printFields floatText fields) := by
    rw [print, List.tail_cons, List.dropLast_concat]
  have valid := (wellFormedFields_iff fields).mp wf.2
  rw [object_form wf, parseObjectExpr, if_neg (by simp [last]; rfl), inner, printFields_eq_map]
  dsimp only
  cases fields with
  | nil => exact ⟨fun _ => ⟨trivial, by simp⟩, fun _ => rfl⟩
  | cons field rest =>
    have firmParts : ∀ part ∈ (field :: rest).map (fieldText floatText), Firm part := by
      intro part member
      obtain ⟨other, here, rfl⟩ := List.mem_map.mp member
      exact firm_fieldText (valid other here)
    have firm := firm_joined firmParts (List.cons_ne_nil _ _)
    have blank : ((joined ',' ((field :: rest).map (fieldText floatText))).getLast? == some ',') = false := by
      rw [beq_eq_false_iff_ne]
      apply joined_last (List.cons_ne_nil _ _)
      intro part member
      change part ∈ (field :: rest).map (fieldText floatText) at member
      obtain ⟨other, here, rfl⟩ := List.mem_map.mp member
      refine ⟨(firm_fieldText (valid other here)).ne_nil, ?_⟩
      rw [fieldText, List.append_cons, List.append_cons,
        List.getLast?_append_of_ne_nil _ (firm_print (valid other here)).ne_nil]
      exact print_last (valid other here)
    have bounded := @parseExpr_bounded F _ floatText parseF64 line ',' (.inl rfl)
    rw [firm.trim, firm.isEmpty, if_neg Bool.false_ne_true, blank]
    constructor
    · intro read
      obtain ⟨values, here, done⟩ := Outcome.bind_ok.mp read
      rw [AxExpr.object.inj (Except.ok.inj done)] at here
      exact @fields_exact F _ floatText parseF64 line _ bounded field rest [] valid wf.1 here
    · rintro ⟨separable, each⟩
      have read : parseFields line (parseExpr parseF64 line) false
          (splitTopLevel (joined ',' ((field :: rest).map (fieldText floatText))) ',') [] = .ok (field :: rest) := by
        rw [splitTopLevel_fields valid separable]
        exact @fields_read F _ floatText parseF64 line _ _ rfl (field :: rest) [] valid wf.1 each
      rw [read]
      rfl

end Objects

end Axonyx.Core.Printer
